import FlexBSO.Raid5f.Setup
import FlexBSO.Lib.Bytes

/- The mapping of a full-stripe write's iovecs onto the data chunks, by itself and in
   `size_t`: for any iovecs, also too few of them, and any power-of-two strip and block
   length that fit 32 bits in bytes. `mapping_exact` is what it comes to. The mapping of
   the channel's machine (`mapChunks`) counts in `Nat`; on iovecs of real buffers it is
   this one (`mapChunks_eq`). -/
namespace FlexBSO.Raid5f
open FlexBSO.Lib

/-- `a + b` in `size_t` -/
def add64 (a b : Nat) : Nat := (a + b) % 2 ^ 64

/-- What the mapping reads of an array. A strip in bytes is a `uint32_t`. -/
structure StripeLayout where
  numBaseBdevs : Nat
  stripSizeShift : Nat
  blocklenShift : Nat
  /-- `spdk_bdev_get_md_size` -/
  mdSize : Nat
  base_bdevs_min : 3 ≤ numBaseBdevs
  num_base_bdevs_le : numBaseBdevs ≤ 255
  strip_bytes_fit : stripSizeShift + blocklenShift < 32

/-- The iovecs of a request. Each is a buffer in memory, no longer than `PTRDIFF_MAX`. -/
structure Iovecs where
  list : List IoVec
  len_lt : ∀ v ∈ list, v.len < 2 ^ 63

/-- `__NEXT_DATA_CHUNK` -/
def nextDataChunk (parityChunk c : Nat) : Nat := if c = parityChunk then c + 1 else c

/-- The chunks `FOR_EACH_DATA_CHUNK` still visits once it stands at `c`. -/
def dataChunksFrom (parityChunk numBaseBdevs c : Nat) : List Nat :=
  if c < numBaseBdevs then c :: dataChunksFrom parityChunk numBaseBdevs (nextDataChunk parityChunk (c + 1)) else []
termination_by numBaseBdevs - c
decreasing_by
  unfold nextDataChunk
  split <;> omega

/-- `FOR_EACH_DATA_CHUNK` -/
def forEachDataChunk (parityChunk numBaseBdevs : Nat) : List Nat :=
  dataChunksFrom parityChunk numBaseBdevs (nextDataChunk parityChunk 0)

namespace StripeLayout
variable (g : StripeLayout)

/-- `strip_size` -/
def stripSize : Nat := 2 ^ g.stripSizeShift

/-- `strip_size << blocklen_shift` in `uint32_t` -/
def stripBytes : Nat := (g.stripSize <<< g.blocklenShift) % 2 ^ 32

/-- `raid5f_stripe_data_chunks_num` -/
def stripeDataChunksNum : Nat := g.numBaseBdevs - 1

/-- `raid5f_stripe_parity_chunk_index` -/
def stripeParityChunkIndex (stripeIndex : Nat) : Nat :=
  (g.stripeDataChunksNum - stripeIndex % g.numBaseBdevs) % 2 ^ 8

/-- The first inner loop of `raid5f_stripe_request_map_iovecs`: the iovecs a chunk needs, from
    `off` up to `lim`. -/
def mapCount : List IoVec → (off lim : Nat) → Nat
  | [], _, _ => 0
  | v :: vs, off, lim => if lim ≤ add64 off v.len then 1 else mapCount vs (add64 off v.len) lim + 1

/-- The second inner loop: the chunk's iovecs, `len` bytes of it still to map. `none` is a read
    past the end of the request's iovecs. -/
def mapFill (iovs : List IoVec) : (cnt : Nat) → MapPos → (len : Nat) → Option (List IoVec × MapPos × Nat)
  | 0, p, len => some ([], p, len)
  | cnt + 1, p, len => do
    let v ← iovs[p.iovIdx]?
    let chunkIovOffset := sub64 p.offset p.iovOffset
    let l := min len (sub64 v.len chunkIovOffset)
    let offset := add64 p.offset l
    let q : MapPos := if add64 p.iovOffset v.len ≤ offset then ⟨p.iovIdx + 1, offset, add64 p.iovOffset v.len⟩
      else ⟨p.iovIdx, offset, p.iovOffset⟩
    let (rest, q, left) ← mapFill iovs cnt q (sub64 len l)
    some (⟨v.base.add chunkIovOffset, l⟩ :: rest, q, left)

/-- The loop over the data chunks, with the result it returns. -/
def mapChunks (iovs : List IoVec) (md : Addr) (alloc : Nat → Bool) :
    List Nat → MapPos → (Nat → Chunk) → Option ((Nat → Chunk) × Int)
  | [], _, cs => some (cs, 0)
  | i :: rest, p, cs =>
    let cnt := mapCount (iovs.drop p.iovIdx) p.iovOffset (add64 p.offset g.stripBytes)
    match chunkSetIovcnt (cs i) cnt (alloc i) with
    | none => some (cs, -ENOMEM)
    | some ck => do
      let mdBuf := if md ≠ NULL then md.add (((p.offset >>> g.blocklenShift) * g.mdSize) % 2 ^ 64) else ck.mdBuf
      let (chunkIovs, q, left) ← mapFill iovs cnt p g.stripBytes
      let cs := Function.update cs i { ck with iovs := chunkIovs, mdBuf := mdBuf }
      if 0 < left then some (cs, -EINVAL) else mapChunks iovs md alloc rest q cs

/-- `raid5f_stripe_request_map_iovecs` of stripe request `r`, for a request with these iovecs and
    this metadata buffer. -/
def stripeRequestMapIovecs (r parityChunk : Nat) (iovs : List IoVec) (md : Addr) (alloc : Nat → Bool)
    (chunks : Nat → Chunk) : Option ((Nat → Chunk) × Int) := do
  let (cs, ret) ← g.mapChunks iovs md alloc (forEachDataChunk parityChunk g.numBaseBdevs) ⟨0, 0, 0⟩ chunks
  if ret ≠ 0 then some (cs, ret)
  else
    let parity := { cs parityChunk with
      iovs := [⟨⟨.parity r, 0⟩, g.stripBytes⟩]
      mdBuf := if g.mdSize ≠ 0 then ⟨.parityMd r, 0⟩ else NULL }
    some (Function.update cs parityChunk parity, 0)

end StripeLayout

/-! ## The data chunks -/

theorem dataChunksFrom_eq (parityChunk n : Nat) (c : Nat) :
    dataChunksFrom parityChunk n (nextDataChunk parityChunk c) = others parityChunk (List.range' c (n - c)) := by
  induction hk : n - c using Nat.strong_induction_on generalizing c with
  | _ k ih =>
    by_cases hlt : c < n
    · obtain ⟨m, hm⟩ : ∃ m, k = m + 1 := ⟨k - 1, by omega⟩
      have hrest := ih m (by omega) (c + 1) (by omega)
      rw [hm, List.range'_succ, others, List.filter_cons, ← others]
      by_cases hc : c = parityChunk
      · have hskip : nextDataChunk parityChunk c = nextDataChunk parityChunk (c + 1) := by
          unfold nextDataChunk
          rw [if_pos hc, if_neg (by omega)]
        rw [hskip, hrest]
        simp [hc]
      · rw [show nextDataChunk parityChunk c = c from if_neg hc, dataChunksFrom, if_pos hlt, hrest]
        simp [hc]
    · have hk0 : k = 0 := by omega
      have hge : ¬ nextDataChunk parityChunk c < n := by
        unfold nextDataChunk
        split <;> omega
      rw [hk0, dataChunksFrom, if_neg hge]
      rfl

/-- The data chunks in index order, the parity chunk skipped. -/
theorem forEachDataChunk_eq (parityChunk n : Nat) :
    forEachDataChunk parityChunk n = others parityChunk (List.range n) := by
  rw [forEachDataChunk, dataChunksFrom_eq, List.range_eq_range', Nat.sub_zero]

/-! ## No wrap -/

theorem add64_of_lt {a b : Nat} (h : a + b < 2 ^ 64) : add64 a b = a + b := Nat.mod_eq_of_lt h

section bounds
variable {iovs : List IoVec}

theorem mapCount_eq : ∀ {vs : List IoVec} {off lim : Nat}, (∀ v ∈ vs, v.len < 2 ^ 63) → off ≤ lim → lim < 2 ^ 63 →
    StripeLayout.mapCount vs off lim = mapCount vs off lim
  | [], _, _, _, _, _ => rfl
  | v :: vs, off, lim, hlen, hoff, hlim => by
    have hv := hlen v (List.mem_cons_self ..)
    have hadd : add64 off v.len = off + v.len := add64_of_lt (by omega)
    rw [StripeLayout.mapCount, mapCount, hadd]
    split
    · rfl
    · rw [mapCount_eq (fun w hw => hlen w (List.mem_cons_of_mem _ hw)) (by omega) hlim]

/-- The position past one iovec of a chunk. -/
def MapPos.next (p : MapPos) (v : IoVec) (l : Nat) : MapPos :=
  if p.iovOffset + v.len ≤ p.offset + l then ⟨p.iovIdx + 1, p.offset + l, p.iovOffset + v.len⟩
  else ⟨p.iovIdx, p.offset + l, p.iovOffset⟩

theorem MapPos.next_offset (p : MapPos) (v : IoVec) (l : Nat) : (p.next v l).offset = p.offset + l := by
  unfold MapPos.next
  split <;> rfl

theorem mapFill_eq (hlen : ∀ v ∈ iovs, v.len < 2 ^ 63) (cnt : Nat) : ∀ (p : MapPos) (len : Nat), p.At iovs →
    p.offset + len < 2 ^ 63 → StripeLayout.mapFill iovs cnt p len = mapFill iovs cnt p len := by
  induction cnt with
  | zero =>
    intro p len _ _
    rfl
  | succ cnt ih =>
    intro p len hp hlim
    rw [StripeLayout.mapFill, mapFill]
    cases hv : iovs[p.iovIdx]? with
    | none => simp only [Option.bind_eq_bind, Option.bind_none]
    | some v =>
      have hle := hp.le
      have hwithin := hp.within v hv
      have hvlen := hlen v (List.mem_of_getElem? hv)
      have hoff : sub64 p.offset p.iovOffset = p.offset - p.iovOffset := sub64_eq hle (by omega)
      have hrest : sub64 v.len (p.offset - p.iovOffset) = v.len - (p.offset - p.iovOffset) :=
        sub64_eq (by omega) (by omega)
      obtain ⟨l, hl⟩ : ∃ l, l = min len (v.len - (p.offset - p.iovOffset)) := ⟨_, rfl⟩
      have hl1 : l ≤ len := hl ▸ Nat.min_le_left _ _
      have hl2 : l ≤ v.len - (p.offset - p.iovOffset) := hl ▸ Nat.min_le_right _ _
      have hnext : (p.next v l).At iovs := hp.next hv hl2
      have hoffset := p.next_offset v l
      have ih' := ih (p.next v l) (len - l) hnext (by rw [hoffset]; omega)
      simp only [Option.bind_eq_bind, Option.bind_some, hoff, hrest, ← hl]
      rw [add64_of_lt (a := p.offset) (by omega), add64_of_lt (a := p.iovOffset) (by omega), sub64_eq hl1 (by omega)]
      show (StripeLayout.mapFill iovs cnt (p.next v l) (len - l)).bind _ = (mapFill iovs cnt (p.next v l) (len - l)).bind _
      rw [ih']

end bounds

/-! ## The two loops together -/

/-- With as many iovecs as the first loop counted, the second stays in the list, and it maps all of
    the chunk's bytes if and only if the list has them. -/
theorem mapFill_mapCount {iovs : List IoVec} : ∀ (rest : List IoVec) (p : MapPos) (len : Nat), p.At iovs →
    iovs.drop p.iovIdx = rest → 0 < len →
    ∃ out q left, mapFill iovs (mapCount rest p.iovOffset (p.offset + len)) p len = some (out, q, left) ∧
      (left = 0 ↔ p.offset + len ≤ (addrs iovs).length)
  | [], p, len, hp, hrest, hpos => by
    refine ⟨[], p, len, rfl, ?_⟩
    have htake : iovs.take p.iovIdx = iovs := List.take_of_length_le (List.drop_eq_nil_iff.mp hrest)
    have hstart := hp.start
    have hle := hp.le
    rw [htake] at hstart
    omega
  | v :: vs, p, len, hp, hrest, hpos => by
    have hv : iovs[p.iovIdx]? = some v := by
      have := congrArg (fun l => l[0]?) hrest
      simpa using this
    have hdrop : iovs.drop (p.iovIdx + 1) = vs := by
      rw [← List.drop_drop, hrest]
      rfl
    have hle := hp.le
    have hwithin := hp.within v hv
    -- the iovec's bytes are among those of the list
    have hbytes : p.iovOffset + v.len ≤ (addrs iovs).length := by
      have h : addrs iovs = addrs (iovs.take p.iovIdx) ++ addrs (v :: vs) := by
        rw [← hrest, ← addrs_append, List.take_append_drop]
      rw [h, List.length_append, ← hp.start, addrs_cons, List.length_append, Ptr.length_span]
      omega
    rw [mapCount]
    by_cases hend : p.offset + len ≤ p.iovOffset + v.len
    · have hl : min len (v.len - (p.offset - p.iovOffset)) = len := Nat.min_eq_left (by omega)
      rw [if_pos hend, mapFill, hv]
      simp only [Option.bind_eq_bind, Option.bind_some, hl, mapFill]
      exact ⟨_, _, _, rfl, by omega⟩
    · obtain ⟨l, hl⟩ : ∃ l, l = v.len - (p.offset - p.iovOffset) := ⟨_, rfl⟩
      have hmin : min len l = l := Nat.min_eq_right (by omega)
      have hq : (p.next v l) = ⟨p.iovIdx + 1, p.offset + l, p.iovOffset + v.len⟩ := if_pos (by omega)
      have hnext : (p.next v l).At iovs := hp.next hv (by omega)
      rw [hq] at hnext
      obtain ⟨out, q, left, hfill, hleft⟩ := mapFill_mapCount vs _ (len - l) hnext hdrop (by omega)
      simp only at hfill hleft
      rw [show p.offset + l + (len - l) = p.offset + len by omega] at hfill hleft
      rw [if_neg hend, mapFill, hv]
      simp only [Option.bind_eq_bind, Option.bind_some, ← hl, hmin]
      rw [if_pos (by omega), hfill]
      exact ⟨_, q, left, rfl, hleft⟩

/-! ## The whole mapping -/

namespace StripeLayout
variable (g : StripeLayout)

theorem stripBytes_eq : g.stripBytes = g.stripSize * 2 ^ g.blocklenShift := by
  have hfit : g.stripSize * 2 ^ g.blocklenShift < 2 ^ 32 := by
    rw [stripSize, ← Nat.pow_add]
    exact Nat.pow_lt_pow_right (by norm_num) g.strip_bytes_fit
  rw [stripBytes, Nat.shiftLeft_eq, Nat.mod_eq_of_lt hfit]

theorem stripBytes_pos : 0 < g.stripBytes := by
  rw [stripBytes_eq]
  exact Nat.mul_pos (Nat.two_pow_pos _) (Nat.two_pow_pos _)

theorem stripBytes_lt : g.stripBytes < 2 ^ 32 := Nat.mod_lt _ (by norm_num)

/-- The chunks `is` carry the bytes of the iovecs from `off` on, a strip each, and the metadata that
    goes with them. -/
structure Mapped (iovs : List IoVec) (md : Addr) (is : List Nat) (off : Nat) (cs cs' : Nat → Chunk) : Prop where
  slice : ∀ k i, is[k]? = some i →
    addrs (cs' i).iovs = ((addrs iovs).drop (off + k * g.stripBytes)).take g.stripBytes
  strip : ∀ i ∈ is, (addrs (cs' i).iovs).length = g.stripBytes
  md : md ≠ NULL → ∀ k i, is[k]? = some i →
    (cs' i).mdBuf = md.add ((((off + k * g.stripBytes) >>> g.blocklenShift) * g.mdSize) % 2 ^ 64)
  others : ∀ i, i ∉ is → cs' i = cs i

/-- The loop over data chunks `is` from a position in the iovecs on. -/
theorem mapChunks_total {iovs : Iovecs} (md : Addr) : ∀ (is : List Nat) (p : MapPos) (cs : Nat → Chunk),
    p.At iovs.list → p.offset ≤ (addrs iovs.list).length → p.offset + is.length * g.stripBytes < 2 ^ 62 → is.Nodup →
    ∃ cs' ret, g.mapChunks iovs.list md (fun _ => true) is p cs = some (cs', ret) ∧ (ret = 0 ∨ ret = -EINVAL) ∧
      (ret = 0 ↔ p.offset + is.length * g.stripBytes ≤ (addrs iovs.list).length) ∧
      (ret = 0 → g.Mapped iovs.list md is p.offset cs cs')
  | [], p, cs, _, hin, _, _ => by
    refine ⟨cs, 0, rfl, .inl rfl, ?_, fun _ => ?_⟩
    · simpa using hin
    · exact ⟨(fun _ _ h => nomatch h), (fun _ h => nomatch h), (fun _ _ _ h => nomatch h), fun _ _ => rfl⟩
  | i :: is, p, cs, hp, hin, hlim, hnodup => by
    obtain ⟨hi, hnodup⟩ := List.nodup_cons.mp hnodup
    rw [List.length_cons, Nat.succ_mul] at hlim ⊢
    have hstrip := g.stripBytes_pos
    have hsum : add64 p.offset g.stripBytes = p.offset + g.stripBytes := add64_of_lt (by omega)
    have hcount : mapCount (iovs.list.drop p.iovIdx) p.iovOffset (p.offset + g.stripBytes) =
        Raid5f.mapCount (iovs.list.drop p.iovIdx) p.iovOffset (p.offset + g.stripBytes) :=
      mapCount_eq (fun v hv => iovs.len_lt v (List.mem_of_mem_drop hv)) (by have := hp.le; omega) (by omega)
    obtain ⟨out, q, left, hfill, hleft⟩ := mapFill_mapCount _ p g.stripBytes hp rfl hstrip
    obtain ⟨hq, hoff, hlen, hbytes⟩ := mapFill_spec hp hfill
    obtain ⟨ck, hck⟩ : ∃ ck, chunkSetIovcnt (cs i) (Raid5f.mapCount (iovs.list.drop p.iovIdx) p.iovOffset
        (p.offset + g.stripBytes)) true = some ck := by
      unfold chunkSetIovcnt
      split
      · exact ⟨_, rfl⟩
      · exact ⟨_, rfl⟩
    rw [mapChunks]
    simp only [hsum, hcount, hck]
    rw [mapFill_eq iovs.len_lt _ _ _ hp (by omega), hfill]
    simp only [Option.bind_eq_bind, Option.bind_some]
    by_cases hshort : 0 < left
    · rw [if_pos hshort]
      refine ⟨_, _, rfl, .inr rfl, ?_, fun h => absurd h (by decide)⟩
      constructor
      · intro h
        exact absurd h (by decide)
      · intro h
        have := hleft.mpr (by omega)
        omega
    · rw [if_neg hshort]
      obtain rfl : left = 0 := by omega
      obtain ⟨cs', ret, hrest, hret, hiff, hmapped⟩ := mapChunks_total md is q
        (Function.update cs i { ck with
          iovs := out
          mdBuf := if md ≠ NULL then md.add (((p.offset >>> g.blocklenShift) * g.mdSize) % 2 ^ 64) else ck.mdBuf })
        hq (by have := hleft.mp rfl; omega) (by omega) hnodup
      refine ⟨cs', ret, hrest, hret, ?_, fun h0 => ?_⟩
      · rw [hiff]
        constructor <;> intro h <;> omega
      · have hm := hmapped h0
        have hself := hm.others i hi
        rw [Function.update_self] at hself
        have hqoff : q.offset = p.offset + g.stripBytes := by omega
        refine ⟨?_, ?_, ?_, ?_⟩
        · intro k j hj
          cases k with
          | zero =>
            obtain rfl : i = j := by simpa using hj
            rw [hself, hbytes, Nat.zero_mul, Nat.add_zero, Nat.sub_zero]
          | succ k =>
            rw [hm.slice k j hj, hqoff, Nat.succ_mul, Nat.add_assoc, Nat.add_comm g.stripBytes]
        · intro j hj
          rcases List.mem_cons.mp hj with rfl | hj
          · rw [hself]
            omega
          · exact hm.strip j hj
        · intro hmd k j hj
          cases k with
          | zero =>
            obtain rfl : i = j := by simpa using hj
            rw [hself, Nat.zero_mul, Nat.add_zero]
            simp only [if_pos hmd]
          | succ k =>
            rw [hm.md hmd k j hj, hqoff, Nat.succ_mul, Nat.add_assoc, Nat.add_comm g.stripBytes]
        · intro j hj
          rw [List.mem_cons, not_or] at hj
          rw [hm.others j hj.2, Function.update_of_ne hj.1]

/-- Number of data chunks of a stripe, and bytes of them. -/
theorem length_others {parityChunk : Nat} (hp : parityChunk < g.numBaseBdevs) :
    (others parityChunk (List.range g.numBaseBdevs)).length = g.stripeDataChunksNum := by
  have hm : parityChunk ∈ List.range g.numBaseBdevs := List.mem_range.mpr hp
  have he : others parityChunk (List.range g.numBaseBdevs) = (List.range g.numBaseBdevs).erase parityChunk := by
    rw [List.nodup_range.erase_eq_filter]
    unfold others
    apply List.filter_congr
    intro i _
    by_cases hi : i = parityChunk <;> simp [hi]
  rw [he, List.length_erase_of_mem hm, List.length_range]
  rfl

theorem parity_lt (stripeIndex : Nat) : g.stripeParityChunkIndex stripeIndex < g.numBaseBdevs := by
  have hmin := g.base_bdevs_min
  refine Nat.lt_of_le_of_lt (Nat.mod_le _ _) ?_
  unfold stripeDataChunksNum
  omega

/-- Bytes of a stripe's data. -/
def stripeBytes : Nat := g.stripeDataChunksNum * g.stripBytes

/-- A data chunk's iovecs and metadata: the next strip of the request's bytes for each, in index
    order past the parity chunk. -/
structure MappedExactly (iovs : Iovecs) (md : Addr) (parityChunk : Nat) (chunks : Nat → Chunk) : Prop where
  bytes : addrs ((forEachDataChunk parityChunk g.numBaseBdevs).flatMap fun i => (chunks i).iovs) =
    (addrs iovs.list).take g.stripeBytes
  strip : ∀ i ∈ forEachDataChunk parityChunk g.numBaseBdevs, (((chunks i).iovs).map Iov.len).sum = g.stripBytes
  md : md ≠ NULL → ∀ k i, (forEachDataChunk parityChunk g.numBaseBdevs)[k]? = some i →
    (chunks i).mdBuf = md.add ((k * g.stripSize * g.mdSize) % 2 ^ 64)
  /-- chunk by chunk, what `bytes` says of all -/
  slice : ∀ k i, (forEachDataChunk parityChunk g.numBaseBdevs)[k]? = some i →
    addrs (chunks i).iovs = ((addrs iovs.list).drop (k * g.stripBytes)).take g.stripBytes

theorem addrs_flatMap {is : List Nat} {chunks : Nat → Chunk} :
    addrs (is.flatMap fun i => (chunks i).iovs) = is.flatMap fun i => addrs (chunks i).iovs := by
  induction is with
  | nil => rfl
  | cons i is ih => rw [List.flatMap_cons, addrs_append, ih, List.flatMap_cons]

/-- The mapping of any request's iovecs, for any stripe, with allocations that succeed: it stays in
    the list of iovecs, succeeds if and only if they hold a stripe of bytes, fails with `-EINVAL`
    otherwise, and deals the first stripe of bytes out exactly. -/
theorem mapping_exact (iovs : Iovecs) (md : Addr) (r stripeIndex : Nat) (chunks : Nat → Chunk) :
    ∃ chunks' ret, g.stripeRequestMapIovecs r (g.stripeParityChunkIndex stripeIndex) iovs.list md (fun _ => true)
        chunks = some (chunks', ret) ∧
      (ret = 0 ↔ g.stripeBytes ≤ ((iovs.list).map Iov.len).sum) ∧ (ret ≠ 0 → ret = -EINVAL) ∧
      (ret = 0 → g.MappedExactly iovs md (g.stripeParityChunkIndex stripeIndex) chunks') := by
  obtain ⟨parity, hparity⟩ : ∃ parity, parity = g.stripeParityChunkIndex stripeIndex := ⟨_, rfl⟩
  have hlength := g.length_others (hparity ▸ g.parity_lt stripeIndex)
  have hstart : (⟨0, 0, 0⟩ : MapPos).At iovs.list := ⟨rfl, Nat.le_refl 0, fun _ _ => Nat.zero_le _⟩
  have hlim : 0 + (forEachDataChunk parity g.numBaseBdevs).length * g.stripBytes < 2 ^ 62 := by
    have hle := g.num_base_bdevs_le
    rw [forEachDataChunk_eq, hlength, Nat.zero_add]
    calc g.stripeDataChunksNum * g.stripBytes ≤ 255 * 2 ^ 32 :=
          Nat.mul_le_mul (by unfold stripeDataChunksNum; omega) (Nat.le_of_lt g.stripBytes_lt)
      _ < 2 ^ 62 := by norm_num
  have hnodup : (forEachDataChunk parity g.numBaseBdevs).Nodup := by
    rw [forEachDataChunk_eq]
    exact List.nodup_range.filter _
  obtain ⟨cs, ret, hmap, hret, hiff, hmapped⟩ :=
    g.mapChunks_total md _ _ chunks hstart (Nat.zero_le _) hlim hnodup
  rw [Nat.zero_add, forEachDataChunk_eq, hlength, length_addrs] at hiff
  rw [← hparity]
  unfold stripeRequestMapIovecs
  simp only [hmap, Option.bind_eq_bind, Option.bind_some]
  by_cases h0 : ret = 0
  · rw [if_neg (not_not.mpr h0)]
    refine ⟨_, 0, rfl, ⟨fun _ => hiff.mp h0, fun _ => rfl⟩, fun h => absurd rfl h, fun _ => ?_⟩
    have hm := hmapped h0
    -- the parity chunk is none of the data chunks
    have hdata : ∀ {i : Nat}, i ∈ forEachDataChunk parity g.numBaseBdevs → i ≠ parity := by
      intro i hi
      rw [forEachDataChunk_eq] at hi
      exact (mem_others.mp hi).2
    have hsame : ∀ {i : Nat} (ck : Chunk), i ∈ forEachDataChunk parity g.numBaseBdevs →
        Function.update cs parity ck i = cs i := fun ck hi => Function.update_of_ne (hdata hi) ck cs
    have hslice : ∀ (ck : Chunk) k i, (forEachDataChunk parity g.numBaseBdevs)[k]? = some i →
        addrs (Function.update cs parity ck i).iovs =
          ((addrs iovs.list).drop (k * g.stripBytes)).take g.stripBytes := by
      intro ck k i hi
      rw [hsame ck (List.mem_of_getElem? hi), hm.slice k i hi, Nat.zero_add]
    refine ⟨?_, ?_, ?_, hslice _⟩
    · rw [addrs_flatMap, flatMap_slices 0 fun k i hi => ?_, List.drop_zero, forEachDataChunk_eq, hlength]
      · rfl
      · rw [Nat.zero_add]
        exact hslice _ k i hi
    · intro i hi
      rw [hsame _ hi, ← length_addrs]
      exact hm.strip i hi
    · intro hmd k i hi
      rw [hsame _ (List.mem_of_getElem? hi), hm.md hmd k i hi, Nat.zero_add, stripBytes_eq, ← Nat.mul_assoc,
        Nat.shiftRight_eq_div_pow, Nat.mul_div_cancel _ (Nat.two_pow_pos _)]
  · rw [if_pos h0]
    refine ⟨cs, ret, rfl, hiff, fun _ => hret.resolve_left h0, fun h => absurd h h0⟩

/-- The parity chunk gets the stripe request's own buffer. -/
theorem stripeRequestMapIovecs_parity {r parityChunk : Nat} {iovs : List IoVec} {md : Addr} {alloc : Nat → Bool}
    {chunks chunks' : Nat → Chunk}
    (h : g.stripeRequestMapIovecs r parityChunk iovs md alloc chunks = some (chunks', 0)) :
    (chunks' parityChunk).iovs = [⟨⟨.parity r, 0⟩, g.stripBytes⟩] := by
  unfold stripeRequestMapIovecs at h
  obtain ⟨⟨cs, ret⟩, -, h⟩ := Option.bind_eq_some_iff.mp h
  dsimp only at h
  split at h
  · next hne =>
    obtain ⟨-, rfl⟩ := Prod.mk.inj (Option.some.inj h)
    exact absurd rfl hne
  · obtain ⟨rfl, -⟩ := Prod.mk.inj (Option.some.inj h)
    rw [Function.update_self]

end StripeLayout

/-! ## The mapping of the machine -/

/-- The part of an array's geometry the mapping reads. -/
def Geometry.layout (g : Geometry) : StripeLayout where
  numBaseBdevs := g.numBaseBdevs
  stripSizeShift := g.stripSizeShift
  blocklenShift := g.blocklenShift
  mdSize := g.mdSize
  base_bdevs_min := g.base_bdevs_min
  num_base_bdevs_le := g.num_base_bdevs_le
  strip_bytes_fit := g.strip_bytes_fit

theorem Geometry.layout_stripBytes (c : RaidChannel) : c.toGeometry.layout.stripBytes = stripBytes c := by
  rw [StripeLayout.stripBytes_eq]
  exact (Nat.shiftLeft_eq _ _).symm

/-- On iovecs of real buffers no count of the machine's mapping leaves `size_t`. -/
theorem mapChunks_eq {c : RaidChannel} {io : RaidIo} (hlen : ∀ v ∈ io.iovs, v.len < 2 ^ 63) (alloc : Nat → Bool) :
    ∀ (is : List Nat) (p : MapPos) (cs : Nat → Chunk), p.At io.iovs →
      p.offset + is.length * stripBytes c ≤ c.numBaseBdevs * stripBytes c →
      c.toGeometry.layout.mapChunks io.iovs io.mdBuf alloc is p cs = mapChunks c io alloc is p cs
  | [], _, _, _, _ => rfl
  | i :: is, p, cs, hp, hlim => by
    rw [List.length_cons, Nat.succ_mul] at hlim
    have hstrip := c.toGeometry.layout.stripBytes_lt
    rw [Geometry.layout_stripBytes] at hstrip
    have htotal : c.numBaseBdevs * stripBytes c ≤ 255 * 2 ^ 32 :=
      Nat.mul_le_mul c.num_base_bdevs_le (Nat.le_of_lt hstrip)
    have hsum : add64 p.offset (stripBytes c) = p.offset + stripBytes c := add64_of_lt (by omega)
    have hcount : StripeLayout.mapCount (io.iovs.drop p.iovIdx) p.iovOffset (p.offset + stripBytes c) =
        mapCount (io.iovs.drop p.iovIdx) p.iovOffset (p.offset + stripBytes c) :=
      mapCount_eq (fun v hv => hlen v (List.mem_of_mem_drop hv)) (by have := hp.le; omega) (by omega)
    have hmd : (p.offset >>> c.blocklenShift * c.mdSize) % 2 ^ 64 = p.offset >>> c.blocklenShift * c.mdSize := by
      apply Nat.mod_eq_of_lt
      have hblocks : p.offset >>> c.blocklenShift ≤ c.numBaseBdevs * 2 ^ c.stripSizeShift := by
        rw [Nat.shiftRight_eq_div_pow]
        apply Nat.div_le_of_le_mul
        have hoff : p.offset ≤ c.numBaseBdevs * stripBytes c := by omega
        calc p.offset ≤ c.numBaseBdevs * (2 ^ c.stripSizeShift * 2 ^ c.blocklenShift) := by
              rwa [stripBytes, Nat.shiftLeft_eq] at hoff
          _ = 2 ^ c.blocklenShift * (c.numBaseBdevs * 2 ^ c.stripSizeShift) := by ring
      calc p.offset >>> c.blocklenShift * c.mdSize ≤ 2 ^ 31 * 2 ^ 32 :=
            Nat.mul_le_mul (Nat.le_trans hblocks c.chunk_shift_fits) (Nat.le_of_lt c.md_size_fits)
        _ < 2 ^ 64 := by norm_num
    rw [StripeLayout.mapChunks, mapChunks, Geometry.layout_stripBytes]
    simp only [hsum, hcount, mapFill_eq hlen _ _ _ hp (show p.offset + stripBytes c < 2 ^ 63 by omega)]
    rw [show c.stripSize <<< c.blocklenShift = stripBytes c from rfl]
    rw [show c.layout.blocklenShift = c.blocklenShift from rfl, show c.layout.mdSize = c.mdSize from rfl, hmd]
    cases hck : chunkSetIovcnt (cs i) (mapCount (io.iovs.drop p.iovIdx) p.iovOffset (p.offset + stripBytes c)) (alloc i) with
    | none => rfl
    | some ck =>
      cases hf : mapFill io.iovs (mapCount (io.iovs.drop p.iovIdx) p.iovOffset (p.offset + stripBytes c)) p (stripBytes c) with
      | none => simp only [Option.bind_eq_bind, Option.bind_none]
      | some out =>
        obtain ⟨out, q, left⟩ := out
        obtain ⟨hq, hoff, -, -⟩ := mapFill_spec hp hf
        have hrest : q.offset + is.length * stripBytes c ≤ c.numBaseBdevs * stripBytes c := by omega
        have ih (cs : Nat → Chunk) := mapChunks_eq hlen alloc is q cs hq hrest
        simp only [Option.bind_eq_bind, Option.bind_some, ih]

/-- The machine's `raid5f_stripe_request_map_iovecs` is the mapping. -/
theorem stripeRequestMapIovecs_eq {c : RaidChannel} {s : State} {r : Nat} {a : Answer}
    (hlen : ∀ v ∈ (s.ios (s.reqs r).raidIo).iovs, v.len < 2 ^ 63) :
    stripeRequestMapIovecs c s r a =
      (c.layout.stripeRequestMapIovecs r (s.reqs r).parityChunk (s.ios (s.reqs r).raidIo).iovs
        (s.ios (s.reqs r).raidIo).mdBuf a.alloc (s.reqs r).chunks).map fun out =>
          (s.setReq r fun q => { q with chunks := out.1 }, out.2) := by
  have hstart : (⟨0, 0, 0⟩ : MapPos).At (s.ios (s.reqs r).raidIo).iovs := ⟨rfl, Nat.le_refl 0, fun _ _ => Nat.zero_le _⟩
  have hlim : 0 + (others (s.reqs r).parityChunk c.chunkIndices).length * stripBytes c ≤
      c.numBaseBdevs * stripBytes c := by
    rw [Nat.zero_add]
    refine Nat.mul_le_mul_right _ (Nat.le_trans (List.length_filter_le _ _) ?_)
    rw [Geometry.chunkIndices, List.length_range]
  have hmap := mapChunks_eq (c := c) hlen a.alloc _ _ (s.reqs r).chunks hstart hlim
  rw [stripeRequestMapIovecs, StripeLayout.stripeRequestMapIovecs, forEachDataChunk_eq]
  rw [show others (s.reqs r).parityChunk (List.range c.layout.numBaseBdevs) =
    others (s.reqs r).parityChunk c.chunkIndices from rfl, hmap]
  cases mapChunks c (s.ios (s.reqs r).raidIo) a.alloc (others (s.reqs r).parityChunk c.chunkIndices) ⟨0, 0, 0⟩
      (s.reqs r).chunks with
  | none => rfl
  | some out =>
    obtain ⟨cs, ret⟩ := out
    simp only [Option.bind_eq_bind, Option.bind_some]
    split
    · rfl
    · rw [Geometry.layout_stripBytes]
      rfl

end FlexBSO.Raid5f

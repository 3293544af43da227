import FlexBSO.Raid.Geometry
import FlexBSO.Raid5f.Mapping
import Mathlib.Data.Nat.ModEq

/- Where a raid5f array keeps a block. A read computes the place with shifts, an 8-bit
   index and a skip over the parity chunk; a full-stripe write comes to one by dealing
   its iovecs out to the data chunks and writing every chunk to its base bdev
   (`StoresAt`, over the mapping itself). `placement_agrees` says the two are the same
   place, for every array with strips of at most 2^22 blocks. -/
namespace FlexBSO.Raid

open RaidBdev FlexBSO.Lib

/-- A raid5f array whose strips have at most 2^22 blocks. -/
structure Raid5fArray (bdevs : Nat → Bdev) (r : RaidBdev) : Prop where
  assembled : Assembled bdevs r
  level : r.level = .raid5f
  strip_le : r.stripSize ≤ 2 ^ 22

/-- A channel with all base channels. -/
def fullChannel : RaidBdev.IoChannel := ⟨fun _ => true, fun _ => 0⟩

namespace RaidBdev
variable (r : RaidBdev)

/-- The slot and the block of its base bdev a read at an offset of a stripe starts at, in
    `raid5f_submit_read_request`. -/
def readAddress (stripeIndex stripeOffset : Nat) : Nat × Nat :=
  let chunkIdx := r.chunkIdx stripeIndex stripeOffset
  let baseOffsetBlocks := u64 (u64 (stripeIndex <<< r.stripSizeShift) + r.chunkOffset stripeOffset)
  (chunkIdx, (r.child chunkIdx baseOffsetBlocks 1).offsetBlocks)

/-- The slot and block `raid5f_chunk_read_complete` has reconstructed: the chunk and the offset it
    hands to `raid5f_submit_reconstruct_read`, at the `base_offset_blocks` of `raid5f_chunk_submit`. -/
def reconstructAddress (stripeIndex stripeOffset : Nat) : Nat × Nat :=
  let chunkDataIdx := r.chunkDataIdx stripeOffset
  let pIdx := r.stripeParityChunkIndex stripeIndex
  let chunkIdx := if chunkDataIdx < pIdx then chunkDataIdx else u8 (chunkDataIdx + 1)
  let chunkOffset := sub64 stripeOffset (Raid5f.Geometry.shlInt chunkDataIdx r.stripSizeShift)
  let baseOffsetBlocks := u64 (u64 (stripeIndex <<< r.stripSizeShift) + chunkOffset)
  (chunkIdx, (r.child chunkIdx baseOffsetBlocks 1).offsetBlocks)

/-- The place a read of one logical block addresses. -/
def blockAddress (block : Nat) : Nat × Nat := r.readAddress (block / r.stripeBlocks) (block % r.stripeBlocks)

end RaidBdev

section array
variable {bdevs : Nat → Bdev} {r : RaidBdev}

/-! ## Sizes -/

theorem Raid5fArray.numBaseBdevs_bounds (h : Raid5fArray bdevs r) : 3 ≤ r.numBaseBdevs ∧ r.numBaseBdevs ≤ 255 := by
  have hs := h.assembled.sound
  have hmin := hs.base_bdevs_min
  rw [h.level] at hmin
  exact ⟨hmin, hs.num_base_bdevs_le⟩

theorem Raid5fArray.stripes (h : Raid5fArray bdevs r) : StripeShape r := h.assembled.sound.stripes h.level

theorem Raid5fArray.exact (h : Raid5fArray bdevs r) : ExactGeometry r :=
  h.assembled.geometry.2 (by rw [h.level]; decide)

theorem Raid5fArray.dataChunks (h : Raid5fArray bdevs r) : r.stripeDataChunksNum = r.numBaseBdevs - 1 := by
  obtain ⟨hn, hn'⟩ := h.numBaseBdevs_bounds
  have hmin := h.assembled.geometry.1
  rw [h.level] at hmin
  refine hmin.trans ?_
  simp only [RaidLevel.module, RaidBdevModule.minOperational, u8]
  omega

/-- The part of the array's geometry the mapping of a write reads. -/
def Raid5fArray.layout (h : Raid5fArray bdevs r) : Raid5f.StripeLayout where
  numBaseBdevs := r.numBaseBdevs
  stripSizeShift := r.stripSizeShift
  blocklenShift := r.blocklenShift
  mdSize := r.mdLen
  base_bdevs_min := h.numBaseBdevs_bounds.1
  num_base_bdevs_le := h.numBaseBdevs_bounds.2
  strip_bytes_fit := by
    have hexact := h.exact
    have hbytes := hexact.no_overflow
    rw [← hexact.strip_bytes, hexact.strip_size, hexact.blocklen, Nat.one_shiftLeft, Nat.one_shiftLeft,
      ← Nat.pow_add] at hbytes
    exact (Nat.pow_lt_pow_iff_right (by norm_num)).mp hbytes

theorem Raid5fArray.strip_pos (h : Raid5fArray bdevs r) : 0 < r.stripSize := by
  rw [h.stripes.striped.strip_size]
  exact Nat.two_pow_pos _

theorem Raid5fArray.blocklen_pos (h : Raid5fArray bdevs r) : 0 < r.blocklen := by
  rw [h.exact.blocklen, Nat.one_shiftLeft]
  exact Nat.two_pow_pos _

theorem Raid5fArray.layout_stripBytes (h : Raid5fArray bdevs r) : h.layout.stripBytes = r.stripSize * r.blocklen := by
  rw [Raid5f.StripeLayout.stripBytes_eq, h.exact.blocklen, Nat.one_shiftLeft, h.stripes.striped.strip_size]
  rfl

theorem Raid5fArray.stripeBlocks_eq (h : Raid5fArray bdevs r) : r.stripeBlocks = r.stripSize * (r.numBaseBdevs - 1) := by
  have hshape := h.assembled.sound.shape
  unfold Shape at hshape
  rw [h.level] at hshape
  obtain ⟨-, -, -, -, -, t, hm, -⟩ := hshape
  rw [stripeBlocks, hm]
  obtain ⟨-, hn⟩ := h.numBaseBdevs_bounds
  refine Nat.mod_eq_of_lt (Nat.lt_of_le_of_lt (Nat.mul_le_mul h.strip_le (show r.numBaseBdevs - 1 ≤ 254 by omega)) ?_)
  norm_num

theorem Raid5fArray.stripeBlocks_pos (h : Raid5fArray bdevs r) : 0 < r.stripeBlocks := by
  rw [h.stripeBlocks_eq]
  exact Nat.mul_pos h.strip_pos (by have := h.numBaseBdevs_bounds.1; omega)

/-! ## The parity chunk -/

theorem Raid5fArray.parity_eq (h : Raid5fArray bdevs r) (si : Nat) :
    r.stripeParityChunkIndex si = r.numBaseBdevs - 1 - si % r.numBaseBdevs := by
  obtain ⟨hn, hn'⟩ := h.numBaseBdevs_bounds
  have hmod : si % r.numBaseBdevs < r.numBaseBdevs := Nat.mod_lt _ (by omega)
  rw [stripeParityChunkIndex, h.dataChunks]
  unfold u8
  omega

theorem Raid5fArray.layout_parity (h : Raid5fArray bdevs r) (si : Nat) :
    h.layout.stripeParityChunkIndex si = r.stripeParityChunkIndex si := by
  obtain ⟨hn, hn'⟩ := h.numBaseBdevs_bounds
  rw [h.parity_eq]
  refine Nat.mod_eq_of_lt (Nat.lt_of_le_of_lt (Nat.sub_le _ _) ?_)
  show r.numBaseBdevs - 1 < 2 ^ 8
  omega

/-- In `n` stripes that follow one another every chunk is the parity chunk of one. -/
theorem Raid5fArray.parity_rotates (h : Raid5fArray bdevs r) (si : Nat) {i : Nat} (hi : i < r.numBaseBdevs) :
    ∃! k, k < r.numBaseBdevs ∧ r.stripeParityChunkIndex (si + k) = i := by
  obtain ⟨n, hn⟩ : ∃ n, n = r.numBaseBdevs := ⟨_, rfl⟩
  have hpos : 0 < n := by omega
  have hparity : ∀ k, r.stripeParityChunkIndex (si + k) = i ↔ (si + k) % n = n - 1 - i := by
    intro k
    have hmod : (si + k) % n < n := Nat.mod_lt _ hpos
    rw [h.parity_eq, ← hn]
    omega
  rw [← hn] at hi ⊢
  simp only [hparity]
  have hsi := Nat.mod_lt si hpos
  obtain ⟨x, hx⟩ : ∃ x, x = n - 1 - i + (n - si % n) := ⟨_, rfl⟩
  have hsum : (si + x % n) % n = n - 1 - i := by
    have hd := Nat.div_add_mod si n
    calc (si + x % n) % n = (si + x) % n := Nat.add_mod_mod ..
      _ = (n - 1 - i + n * (si / n + 1)) % n := by
          congr 1
          rw [Nat.mul_add, Nat.mul_one]
          omega
      _ = (n - 1 - i) % n := Nat.add_mul_mod_self_left ..
      _ = n - 1 - i := Nat.mod_eq_of_lt (by omega)
  refine ⟨x % n, ⟨Nat.mod_lt _ hpos, hsum⟩, ?_⟩
  rintro k ⟨hk, hki⟩
  have hcongr : Nat.ModEq n k (x % n) := Nat.ModEq.add_left_cancel' si (hki.trans hsum.symm)
  exact Nat.ModEq.eq_of_lt_of_lt hcongr hk (Nat.mod_lt _ hpos)

/-! ## Where a read finds a block -/

/-- The data chunk an offset of a stripe lies in, counted past the parity chunk. -/
def dataChunk (parityChunk d : Nat) : Nat := if d < parityChunk then d else d + 1

theorem dataChunk_inj {p d d' : Nat} (h : dataChunk p d = dataChunk p d') : d = d' := by
  unfold dataChunk at h
  split at h <;> split at h <;> omega

theorem dataChunk_ne (p d : Nat) : dataChunk p d ≠ p := by
  unfold dataChunk
  split <;> omega

section place
variable (h : Raid5fArray bdevs r) {so : Nat}

include h in
theorem Raid5fArray.data_lt (hso : so < r.stripeBlocks) : so / r.stripSize < r.numBaseBdevs - 1 :=
  (h.stripes.chunkDataIdx_eq h.numBaseBdevs_bounds.2 hso).2

include h in
theorem Raid5fArray.chunkIdx_eq (si : Nat) (hso : so < r.stripeBlocks) :
    r.chunkIdx si so = dataChunk (r.stripeParityChunkIndex si) (so / r.stripSize) := by
  obtain ⟨-, hn'⟩ := h.numBaseBdevs_bounds
  have hlt := h.data_lt hso
  unfold chunkIdx dataChunk
  simp only [(h.stripes.chunkDataIdx_eq hn' hso).1]
  split
  · rfl
  · exact Nat.mod_eq_of_lt (by omega)

include h in
theorem Raid5fArray.chunkIdx_lt (si : Nat) (hso : so < r.stripeBlocks) : r.chunkIdx si so < r.numBaseBdevs :=
  h.stripes.chunkIdx_lt h.numBaseBdevs_bounds.2 hso si

include h in
/-- With strips of at most 2^22 blocks the shifted chunk index stays positive. -/
theorem Raid5fArray.chunkOffset_eq (hso : so < r.stripeBlocks) : r.chunkOffset so = so % r.stripSize := by
  obtain ⟨-, hn'⟩ := h.numBaseBdevs_bounds
  have hlt := h.data_lt hso
  have hpos : so / r.stripSize * r.stripSize < 2 ^ 31 :=
    calc so / r.stripSize * r.stripSize ≤ 254 * 2 ^ 22 := Nat.mul_le_mul (by omega) h.strip_le
      _ < 2 ^ 31 := by norm_num
  rw [h.stripes.chunkOffset_eq hn' hso, if_pos hpos, Nat.add_zero]

include h in
/-- The strips of the array's stripes lie in the data region, and that on the base bdev. -/
theorem Raid5fArray.strip_fits {si i : Nat} (hsi : si < totalStripes r) (hi : i < r.numBaseBdevs) :
    (r.info i).dataOffset + (si * r.stripSize + r.stripSize) < 2 ^ 64 := by
  have hregion := h.assembled.sound.regions _ (info_mem hi)
  have hlt := (bdevs ((r.info i).desc.getD 0)).blockcnt_lt
  rw [h.stripes.data_size _ (info_mem hi)] at hregion
  have hle : (si + 1) * r.stripSize ≤ totalStripes r * r.stripSize := Nat.mul_le_mul_right _ hsi
  rw [Nat.add_mul, Nat.one_mul] at hle
  omega

include h in
/-- A read's place, in plain arithmetic. -/
theorem Raid5fArray.readAddress_eq {si : Nat} (hsi : si < totalStripes r) (hso : so < r.stripeBlocks) :
    r.readAddress si so = (dataChunk (r.stripeParityChunkIndex si) (so / r.stripSize),
      (r.info (dataChunk (r.stripeParityChunkIndex si) (so / r.stripSize))).dataOffset +
        (si * r.stripSize + so % r.stripSize)) := by
  have hmod := Nat.mod_lt so h.strip_pos
  have hi := h.chunkIdx_lt si hso
  rw [h.chunkIdx_eq si hso] at hi
  have hfits := h.strip_fits hsi hi
  rw [readAddress, h.chunkIdx_eq si hso, h.chunkOffset_eq hso, Nat.shiftLeft_eq, ← h.stripes.striped.strip_size]
  simp only [RaidBdev.child]
  rw [u64_of_lt (n := si * r.stripSize) (by omega), u64_of_lt (n := si * r.stripSize + so % r.stripSize) (by omega),
    u64_of_lt (by omega)]

end place

/-- `raid5f_chunk_read_complete` computes the place again as it was computed for the read. -/
theorem reconstructAddress_eq (si so : Nat) : r.reconstructAddress si so = r.readAddress si so := rfl

/-- Blocks of the array lie in its stripes. -/
theorem Raid5fArray.block_in (h : Raid5fArray bdevs r) {b : Nat} (hb : b < r.blockcnt) :
    b / r.stripeBlocks < totalStripes r ∧ b % r.stripeBlocks < r.stripeBlocks :=
  ⟨(h.stripes.stripe_lt hb).2.1, Nat.mod_lt _ h.stripeBlocks_pos⟩

/-- No two blocks have one place. -/
theorem Raid5fArray.blockAddress_injective (h : Raid5fArray bdevs r) {b b' : Nat} (hb : b < r.blockcnt)
    (hb' : b' < r.blockcnt) (heq : r.blockAddress b = r.blockAddress b') : b = b' := by
  obtain ⟨hsi, hso⟩ := h.block_in hb
  obtain ⟨hsi', hso'⟩ := h.block_in hb'
  rw [blockAddress, blockAddress, h.readAddress_eq hsi hso, h.readAddress_eq hsi' hso', Prod.mk.injEq] at heq
  obtain ⟨hslot, hblock⟩ := heq
  rw [hslot, Nat.add_left_cancel_iff] at hblock
  have hpos := h.strip_pos
  have hmod := Nat.mod_lt (b % r.stripeBlocks) hpos
  have hmod' := Nat.mod_lt (b' % r.stripeBlocks) hpos
  -- the strip number and the offset in the strip
  have hstripe : b / r.stripeBlocks = b' / r.stripeBlocks := by
    have hq := congrArg (· / r.stripSize) hblock
    simp only [Nat.mul_comm _ r.stripSize, Nat.mul_add_div hpos, Nat.div_eq_of_lt hmod, Nat.div_eq_of_lt hmod',
      Nat.add_zero] at hq
    exact hq
  have hoff : b % r.stripeBlocks % r.stripSize = b' % r.stripeBlocks % r.stripSize := by
    rw [hstripe] at hblock
    exact Nat.add_left_cancel hblock
  rw [hstripe] at hslot
  have hchunk := dataChunk_inj hslot
  have hin : b % r.stripeBlocks = b' % r.stripeBlocks := by
    rw [← Nat.div_add_mod (b % r.stripeBlocks) r.stripSize, hchunk, hoff, Nat.div_add_mod]
  rw [← Nat.div_add_mod b r.stripeBlocks, hstripe, hin, Nat.div_add_mod]

/-! ## Where a full-stripe write stores a block -/

/-- The write of a stripe stores block `k` of its request at a place: one of the child writes covers
    the place, and whatever the request's iovecs, the bytes the mapping gave the chunk for it are
    those of the request's block `k`. -/
def StoresAt (h : Raid5fArray bdevs r) (stripeIndex k : Nat) (place : Nat × Nat) : Prop :=
  ∃ c ∈ r.raid5fSubmitWriteRequest fullChannel stripeIndex,
    c.slot = place.1 ∧ c.offsetBlocks ≤ place.2 ∧ place.2 < c.offsetBlocks + c.numBlocks ∧
    ∀ (iovs : Raid5f.Iovecs) (md : Raid5f.Addr) (req : Nat) (chunks chunks' : Nat → Raid5f.Chunk),
      h.layout.stripeRequestMapIovecs req (r.stripeParityChunkIndex stripeIndex) iovs.list md (fun _ => true) chunks =
        some (chunks', 0) →
      ((addrs (chunks' c.slot).iovs).drop ((place.2 - c.offsetBlocks) * r.blocklen)).take r.blocklen =
        ((addrs iovs.list).drop (k * r.blocklen)).take r.blocklen

/-- The chunks `FOR_EACH_DATA_CHUNK` visits, by number. -/
theorem forEachDataChunk_getElem? {p n d : Nat} (hp : p < n) (hd : d < n - 1) :
    (Raid5f.forEachDataChunk p n)[d]? = some (dataChunk p d) := by
  have hsplit : List.range n = List.range p ++ p :: List.range' (p + 1) (n - p - 1) := by
    rw [List.range_eq_range', List.range_eq_range', show n = p + (n - p - 1 + 1) by omega,
      ← List.range'_append_1, Nat.zero_add, List.range'_succ]
    congr 3
    omega
  have hkeep : ∀ l : List Nat, (∀ x ∈ l, x ≠ p) → l.filter (· ≠ p) = l := by
    intro l hl
    exact List.filter_eq_self.mpr fun x hx => by simpa using hl x hx
  have hothers : others p (List.range n) = List.range p ++ List.range' (p + 1) (n - p - 1) := by
    rw [others, hsplit, List.filter_append, List.filter_cons, if_neg (by simp), hkeep, hkeep]
    · intro x hx
      have := (List.mem_range'_1.mp hx).1
      omega
    · intro x hx
      have := List.mem_range.mp hx
      omega
  rw [Raid5f.forEachDataChunk_eq, hothers]
  unfold dataChunk
  split
  · next hlt => rw [List.getElem?_append_left (by simpa using hlt), List.getElem?_range hlt]
  · next hge =>
    rw [List.getElem?_append_right (by simpa using hge), List.length_range, List.getElem?_range' (by omega)]
    congr 1
    omega

section store
variable (h : Raid5fArray bdevs r) {si : Nat}

include h in
theorem Raid5fArray.parity_lt (si : Nat) : r.stripeParityChunkIndex si < r.numBaseBdevs := by
  obtain ⟨hn, -⟩ := h.numBaseBdevs_bounds
  rw [h.parity_eq]
  omega

include h in
/-- The child writes of a stripe: one strip for every slot. -/
theorem Raid5fArray.mem_write (hsi : si < totalStripes r) {c : Child} :
    c ∈ r.raid5fSubmitWriteRequest fullChannel si ↔ c.slot < r.numBaseBdevs ∧
      c = ⟨c.slot, (r.info c.slot).dataOffset + si * r.stripSize, r.stripSize⟩ := by
  have hall : (List.range r.numBaseBdevs).filter fullChannel.baseChannel = List.range r.numBaseBdevs :=
    List.filter_eq_self.mpr fun _ _ => rfl
  have hchild : ∀ i < r.numBaseBdevs, r.child i (u64 (si <<< r.stripSizeShift)) r.stripSize =
      ⟨i, (r.info i).dataOffset + si * r.stripSize, r.stripSize⟩ := by
    intro i hi
    have hfits := h.strip_fits hsi hi
    rw [Nat.shiftLeft_eq, ← h.stripes.striped.strip_size, RaidBdev.child,
      u64_of_lt (n := si * r.stripSize) (by omega), u64_of_lt (by omega)]
  rw [raid5fSubmitWriteRequest, hall, List.mem_map]
  constructor
  · rintro ⟨i, hi, rfl⟩
    rw [List.mem_range] at hi
    rw [hchild i hi]
    exact ⟨hi, rfl⟩
  · rintro ⟨hi, hc⟩
    refine ⟨c.slot, List.mem_range.mpr hi, ?_⟩
    rw [hchild _ hi]
    exact hc.symm

include h in
/-- One block of the strip of data chunk `d`. -/
theorem Raid5fArray.block_slice {d m : Nat} {iovs : Raid5f.Iovecs} {md : Raid5f.Addr} {p : Nat}
    {chunks : Nat → Raid5f.Chunk} (hm : h.layout.MappedExactly iovs md p chunks) (hp : p < r.numBaseBdevs)
    (hd : d < r.numBaseBdevs - 1) (hmlt : m < r.stripSize) :
    ((addrs (chunks (dataChunk p d)).iovs).drop (m * r.blocklen)).take r.blocklen =
      ((addrs iovs.list).drop ((d * r.stripSize + m) * r.blocklen)).take r.blocklen := by
  have hfits : m * r.blocklen + r.blocklen ≤ r.stripSize * r.blocklen := by
    rw [← Nat.succ_mul]
    exact Nat.mul_le_mul_right _ hmlt
  rw [hm.slice d _ (forEachDataChunk_getElem? hp hd), h.layout_stripBytes, List.drop_take, List.take_take,
    Nat.min_eq_left (by omega), List.drop_drop]
  congr 2
  ring

include h in
/-- The write stores block `k` where the read side looks for it. -/
theorem Raid5fArray.stores (hsi : si < totalStripes r) {k : Nat} (hk : k < r.stripeBlocks) :
    StoresAt h si k (r.readAddress si k) := by
  have hd := h.data_lt hk
  have hmod := Nat.mod_lt k h.strip_pos
  have hi : dataChunk (r.stripeParityChunkIndex si) (k / r.stripSize) < r.numBaseBdevs := by
    rw [← h.chunkIdx_eq si hk]
    exact h.chunkIdx_lt si hk
  rw [h.readAddress_eq hsi hk]
  obtain ⟨i, hieq⟩ : ∃ i, i = dataChunk (r.stripeParityChunkIndex si) (k / r.stripSize) := ⟨_, rfl⟩
  rw [← hieq] at hi ⊢
  refine ⟨⟨i, (r.info i).dataOffset + si * r.stripSize, r.stripSize⟩, (h.mem_write hsi).mpr ⟨hi, rfl⟩, rfl,
    by simp only []; omega, by simp only []; omega, ?_⟩
  intro iovs md req chunks chunks' hmap
  obtain ⟨cs, ret, hmap', -, -, hexact⟩ := h.layout.mapping_exact iovs md req si chunks
  rw [h.layout_parity, hmap] at hmap'
  obtain ⟨rfl, rfl⟩ := Prod.mk.inj (Option.some.inj hmap')
  have hm := hexact rfl
  rw [h.layout_parity] at hm
  simp only []
  rw [hieq, show (r.info (dataChunk (r.stripeParityChunkIndex si) (k / r.stripSize))).dataOffset +
      (si * r.stripSize + k % r.stripSize) -
        ((r.info (dataChunk (r.stripeParityChunkIndex si) (k / r.stripSize))).dataOffset + si * r.stripSize) =
      k % r.stripSize by omega, h.block_slice hm (h.parity_lt si) hd hmod]
  rw [Nat.mul_comm (k / r.stripSize), Nat.div_add_mod]

theorem dataChunk_surjective {p i n : Nat} (hi : i < n) (hp : p < n) (hne : i ≠ p) : ∃ d < n - 1, dataChunk p d = i := by
  by_cases hlt : i < p
  · exact ⟨i, by omega, if_pos hlt⟩
  · exact ⟨i - 1, by omega, by rw [dataChunk, if_neg (by omega)]; omega⟩

theorem getElem?_slice {α : Type} {l : List α} {a n : Nat} (hn : 0 < n) : ((l.drop a).take n)[0]? = l[a]? := by
  rw [List.getElem?_take_of_lt hn, List.getElem?_drop, Nat.add_zero]

/-- The request's bytes in one buffer, so that no two of them have one address. -/
def oneBuffer (len : Nat) (h : len < 2 ^ 63) : Raid5f.Iovecs where
  list := [⟨⟨.user 0 0, 0⟩, len⟩]
  len_lt := by
    intro v hv
    rw [List.mem_singleton.mp hv]
    exact h

theorem span_getElem? {β : Type} {p : Ptr β} {len j : Nat} (h : j < len) : (p.span len)[j]? = some (p.add j) := by
  rw [List.getElem?_eq_getElem (by simpa using h), Ptr.getElem_span]

include h in
/-- It stores block `k` nowhere else. -/
theorem Raid5fArray.stores_only (hsi : si < totalStripes r) {k : Nat} (hk : k < r.stripeBlocks) {place : Nat × Nat}
    (hs : StoresAt h si k place) : place = r.readAddress si k := by
  obtain ⟨c, hc, hslot, hlo, hhi, hall⟩ := hs
  obtain ⟨hi, hc⟩ := (h.mem_write hsi).mp hc
  have hoff : c.offsetBlocks = (r.info c.slot).dataOffset + si * r.stripSize := by rw [hc]
  have hnum : c.numBlocks = r.stripSize := by rw [hc]
  have hp := h.parity_lt si
  have hbl := h.blocklen_pos
  obtain ⟨m, hm⟩ : ∃ m, m = place.2 - c.offsetBlocks := ⟨_, rfl⟩
  have hmlt : m < r.stripSize := by omega
  have hbytes : h.layout.stripeBytes = r.stripeBlocks * r.blocklen := by
    rw [Raid5f.StripeLayout.stripeBytes, h.layout_stripBytes, h.stripeBlocks_eq]
    show (r.numBaseBdevs - 1) * _ = _
    ring
  have hsmall : h.layout.stripeBytes < 2 ^ 63 := by
    have hlt := h.layout.stripBytes_lt
    have hn := h.layout.num_base_bdevs_le
    calc h.layout.stripeBytes ≤ 255 * 2 ^ 32 :=
          Nat.mul_le_mul (by unfold Raid5f.StripeLayout.stripeDataChunksNum; omega) (Nat.le_of_lt hlt)
      _ < 2 ^ 63 := by norm_num
  -- a request in one buffer
  obtain ⟨chunks, ret, hmap, hiff, -, hexact⟩ :=
    h.layout.mapping_exact (oneBuffer _ hsmall) Raid5f.NULL 0 si fun _ => ⟨[], 4, Raid5f.NULL⟩
  obtain rfl : ret = 0 := hiff.mpr (by simp [oneBuffer])
  have hmapped := hexact rfl
  rw [h.layout_parity] at hmap hmapped
  have hslice := hall _ _ _ _ _ hmap
  rw [← hm] at hslice
  have hkbytes : k * r.blocklen < h.layout.stripeBytes := by
    rw [hbytes]
    exact Nat.mul_lt_mul_of_pos_right hk hbl
  have hright : (((addrs (oneBuffer _ hsmall).list).drop (k * r.blocklen)).take r.blocklen)[0]? =
      some ⟨.user 0 0, k * r.blocklen⟩ := by
    rw [getElem?_slice hbl, show addrs (oneBuffer _ hsmall).list = _ from List.append_nil _, span_getElem? hkbytes,
      Ptr.add, Nat.zero_add]
  have hhead := congrArg (·[0]?) hslice
  simp only [hright] at hhead
  by_cases hpar : c.slot = r.stripeParityChunkIndex si
  · -- the parity chunk's bytes are in another buffer
    have hmbytes : m * r.blocklen < h.layout.stripBytes := by
      rw [h.layout_stripBytes]
      exact Nat.mul_lt_mul_of_pos_right hmlt hbl
    rw [hpar, h.layout.stripeRequestMapIovecs_parity hmap, getElem?_slice hbl,
      show addrs [(⟨⟨.parity 0, 0⟩, h.layout.stripBytes⟩ : Raid5f.IoVec)] = _ from List.append_nil _,
      span_getElem? hmbytes] at hhead
    cases hhead
  · obtain ⟨d, hd, hdi⟩ := dataChunk_surjective hi hp hpar
    have hdm : (d * r.stripSize + m) * r.blocklen < h.layout.stripeBytes := by
      rw [hbytes, h.stripeBlocks_eq]
      apply Nat.mul_lt_mul_of_pos_right _ hbl
      calc d * r.stripSize + m < d * r.stripSize + r.stripSize := Nat.add_lt_add_left hmlt _
        _ = (d + 1) * r.stripSize := by ring
        _ ≤ (r.numBaseBdevs - 1) * r.stripSize := Nat.mul_le_mul_right _ hd
        _ = r.stripSize * (r.numBaseBdevs - 1) := Nat.mul_comm _ _
    rw [← hdi, h.block_slice hmapped hp hd hmlt, getElem?_slice hbl,
      show addrs (oneBuffer _ hsmall).list = _ from List.append_nil _, span_getElem? hdm, Ptr.add, Nat.zero_add] at hhead
    have hkdm : (d * r.stripSize + m) * r.blocklen = k * r.blocklen := congrArg Ptr.off (Option.some.inj hhead)
    have hk' : d * r.stripSize + m = k := Nat.eq_of_mul_eq_mul_right hbl hkdm
    have hdiv : k / r.stripSize = d := by
      rw [← hk', Nat.mul_comm, Nat.mul_add_div h.strip_pos, Nat.div_eq_of_lt hmlt, Nat.add_zero]
    have hmod : k % r.stripSize = m := by
      rw [← hk', Nat.mul_comm, Nat.mul_add_mod, Nat.mod_eq_of_lt hmlt]
    rw [h.readAddress_eq hsi hk, hdiv, hmod, hdi]
    refine Prod.ext hslot.symm ?_
    simp only []
    omega

end store

/-! ## The same place -/

/-- Block `b` is stored at one place, and there reads look for it: the direct read of every request
    that covers the block, and the reconstruction that follows it. -/
structure Placed (h : Raid5fArray bdevs r) (b : Nat) : Prop where
  stored : ∀ place, StoresAt h (b / r.stripeBlocks) (b % r.stripeBlocks) place ↔ place = r.blockAddress b
  read : ∀ io, r.Admits io → io.type = .read → io.offsetBlocks ≤ b → b < io.offsetBlocks + io.numBlocks →
    ∀ ch : RaidBdev.IoChannel, ch.baseChannel (r.blockAddress b).1 = true →
      ∃ c rest, r.raid5fSubmitRwRequest ch io = c :: rest ∧
        (c.slot, c.offsetBlocks + (b - io.offsetBlocks)) = r.blockAddress b
  reconstructed : ∀ io, r.Admits io → io.type = .read → io.offsetBlocks ≤ b → b < io.offsetBlocks + io.numBlocks →
    let start := r.reconstructAddress (io.offsetBlocks / r.stripeBlocks) (io.offsetBlocks % r.stripeBlocks)
    (start.1, start.2 + (b - io.offsetBlocks)) = r.blockAddress b
  not_parity : (r.blockAddress b).1 ≠ r.stripeParityChunkIndex (b / r.stripeBlocks)

/-- A read starts in the strip of each of its blocks. -/
theorem Raid5fArray.start_address (h : Raid5fArray bdevs r) {io : RaidIo} (ha : r.Admits io) (ht : io.type = .read)
    {j : Nat} (hj : j < io.numBlocks) :
    let start := r.readAddress (io.offsetBlocks / r.stripeBlocks) (io.offsetBlocks % r.stripeBlocks)
    (start.1, start.2 + j) = r.blockAddress (io.offsetBlocks + j) := by
  obtain ⟨-, hend, -, hsplit⟩ := ha
  obtain ⟨hopt, hbound⟩ := h.stripes.split
  have hin := hsplit ⟨.inl ht, hopt⟩
  rw [hbound] at hin
  have hpos := h.strip_pos
  obtain ⟨o, ho⟩ : ∃ o, o = io.offsetBlocks := ⟨_, rfl⟩
  rw [← ho] at hend hin ⊢
  obtain ⟨hsi, hso⟩ := h.block_in (show o < r.blockcnt by omega)
  obtain ⟨hsi', hso'⟩ := h.block_in (show o + j < r.blockcnt by omega)
  have hdvd := h.stripes.strip_dvd
  have hmod : o % r.stripeBlocks % r.stripSize = o % r.stripSize := Nat.mod_mod_of_dvd o hdvd
  -- the whole read lies in one strip of one stripe
  have hstay : o % r.stripeBlocks + j < r.stripeBlocks := by
    obtain ⟨q, hq⟩ := hdvd
    have hlt : o % r.stripeBlocks / r.stripSize < q := Nat.div_lt_of_lt_mul (by rwa [← hq])
    have hle : r.stripSize * (o % r.stripeBlocks / r.stripSize + 1) ≤ r.stripSize * q := Nat.mul_le_mul_left _ hlt
    have hd := Nat.div_add_mod (o % r.stripeBlocks) r.stripSize
    rw [Nat.mul_add, Nat.mul_one, ← hq] at hle
    omega
  have hd := Nat.div_add_mod o r.stripeBlocks
  have hb : o + j = r.stripeBlocks * (o / r.stripeBlocks) + (o % r.stripeBlocks + j) := by omega
  have hdiv : (o + j) / r.stripeBlocks = o / r.stripeBlocks := by
    rw [hb, Nat.mul_add_div h.stripeBlocks_pos, Nat.div_eq_of_lt hstay, Nat.add_zero]
  have hrem : (o + j) % r.stripeBlocks = o % r.stripeBlocks + j := by
    rw [hb, Nat.mul_add_mod, Nat.mod_eq_of_lt hstay]
  have hin' : o % r.stripeBlocks % r.stripSize + j < r.stripSize := by omega
  have hd' := Nat.div_add_mod (o % r.stripeBlocks) r.stripSize
  have hb' : o % r.stripeBlocks + j =
      r.stripSize * (o % r.stripeBlocks / r.stripSize) + (o % r.stripeBlocks % r.stripSize + j) := by omega
  have hdiv' : (o % r.stripeBlocks + j) / r.stripSize = o % r.stripeBlocks / r.stripSize := by
    rw [hb', Nat.mul_add_div hpos, Nat.div_eq_of_lt hin', Nat.add_zero]
  have hrem' : (o % r.stripeBlocks + j) % r.stripSize = o % r.stripeBlocks % r.stripSize + j := by
    rw [hb', Nat.mul_add_mod, Nat.mod_eq_of_lt hin']
  rw [blockAddress, h.readAddress_eq hsi' hso', hdiv, hrem, hdiv', hrem']
  simp only [h.readAddress_eq hsi hso, Nat.add_assoc]

/-- Reads and writes of a raid5f array agree on where a block is, for every array with strips of at
    most 2^22 blocks: each block below `blockcnt` has one place, found by the reads and the
    reconstruction and never on the parity chunk; no two blocks share one; and parity takes each
    chunk once in any `num_base_bdevs` stripes that follow one another. -/
theorem placement_agrees (h : Raid5fArray bdevs r) :
    (∀ b < r.blockcnt, Placed h b) ∧
    (∀ b < r.blockcnt, ∀ b' < r.blockcnt, r.blockAddress b = r.blockAddress b' → b = b') ∧
    ∀ stripeIndex, ∀ i < r.numBaseBdevs,
      ∃! k, k < r.numBaseBdevs ∧ r.stripeParityChunkIndex (stripeIndex + k) = i := by
  refine ⟨fun b hb => ?_, fun b hb b' hb' heq => h.blockAddress_injective hb hb' heq,
    fun si i hi => h.parity_rotates si hi⟩
  obtain ⟨hsi, hso⟩ := h.block_in hb
  have hstart : ∀ io, r.Admits io → io.type = .read → io.offsetBlocks ≤ b → b < io.offsetBlocks + io.numBlocks →
      let start := r.readAddress (io.offsetBlocks / r.stripeBlocks) (io.offsetBlocks % r.stripeBlocks)
      (start.1, start.2 + (b - io.offsetBlocks)) = r.blockAddress b := by
    intro io ha ht hle hlt
    have hat := h.start_address ha ht (j := b - io.offsetBlocks) (by omega)
    rwa [show io.offsetBlocks + (b - io.offsetBlocks) = b by omega] at hat
  refine ⟨fun place => ⟨h.stores_only hsi hso, ?_⟩, ?_, hstart, ?_⟩
  · rintro rfl
    exact h.stores hsi hso
  · intro io ha ht hle hlt ch hch
    have hat := hstart io ha ht hle hlt
    have hslot : r.chunkIdx (io.offsetBlocks / r.stripeBlocks) (io.offsetBlocks % r.stripeBlocks) = (r.blockAddress b).1 :=
      congrArg Prod.fst hat
    have hdirect : ch.baseChannel (r.chunkIdx (io.offsetBlocks / r.stripeBlocks) (io.offsetBlocks % r.stripeBlocks)) = true :=
      hslot ▸ hch
    unfold raid5fSubmitRwRequest
    simp only [ht]
    unfold raid5fSubmitReadRequest
    simp only [hdirect, if_true]
    exact ⟨_, _, rfl, hat⟩
  · rw [blockAddress, h.readAddress_eq hsi hso]
    exact dataChunk_ne _ _

end array

/-- Three 512 KiB base bdevs of 512-byte blocks, and a raid5f with 64 KB strips on them: 8 stripes. -/
def parityBdevs : Nat → Bdev := equalBdevs 1024 512 blockcnt_1024_lt blocklen_512_lt
def parityArray : RaidBdev := ((laidOut parityBdevs 64 3 .raid5f false).configureGeometry parityBdevs true).2

theorem parity_array : Raid5fArray parityBdevs parityArray where
  assembled := .configured (r := { laidOut parityBdevs 64 3 .raid5f false with baseBdevInfo := List.replicate 3 {} })
    (show 64 < 2 ^ 32 by decide) (show 3 ≤ 255 by decide)
    (show RaidBdev.make "md" 64 3 .raid5f false 0 = .ok _ from rfl)
    (show (laidOut parityBdevs 64 3 .raid5f false).baseBdevInfo.length = 3 by decide)
    (fun info hi => by
      obtain ⟨b, -, rfl⟩ := List.mem_map.mp hi
      exact ⟨{}, b, rfl⟩)
    (show (laidOut parityBdevs 64 3 .raid5f false).configureGeometry parityBdevs true = (0, parityArray) by
      decide +kernel)
    ⟨9, by decide +kernel⟩
  level := by decide +kernel
  strip_le := by decide +kernel

/-- Block 300 of it is block 44 of the first data chunk of the second stripe. -/
theorem placement_agrees_small : Placed parity_array 300 ∧ parityArray.blockAddress 300 = (0, 172) :=
  ⟨(placement_agrees parity_array).1 300 (by decide +kernel), by decide +kernel⟩

end FlexBSO.Raid

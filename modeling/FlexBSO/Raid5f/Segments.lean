import FlexBSO.Raid5f.Runs
import Mathlib.Tactic.IntervalCases

/- The loop that `raid5f_xor_stripe`, `raid5f_xor_stripe_continue` and
   `raid5f_xor_stripe_cb` make over the callbacks of the accel framework. It is run
   here by itself, from any state in which it is about to start, with every
   submission accepted and every callback successful: the accel framework stores
   and calls back when it likes. The lists are cut where any of them has an
   element's end, and all iterators stand `total - remaining` bytes past the start of
   their lists, so the loop ends when `remaining` is zero and not past it. Every step
   lowers the work that is left (`XorWork`), which is what ends it. `raid5f_xor_stripe`
   sets `remaining_md` only for a request with metadata: what an earlier request left
   there keeps `xor.cb` from being called. -/
namespace FlexBSO.Raid5f
open FlexBSO.Lib

/-- The call belongs to the loop of stripe request `r`. -/
def Call.xorLoop (r : Nat) : Call → Bool
  | .xorStripe x _ => x == r
  | .xorStripeContinue x => x == r
  | .xorStripeCbTail x _ => x == r
  | .xorStripeDone x => x == r
  | _ => false

/-- The steps of the loop, with every submission accepted and every callback successful. -/
def Accepting (r : Nat) (s : State) : Event → Prop
  | .call a => a.rc = 0 ∧ ∃ call ∈ s.stack.head?, call.xorLoop r = true
  | .xorStore x _ => x = r
  | .mdXorStore x _ => x = r
  | .xorComplete x _ status => x = r ∧ status = 0
  | .mdXorComplete x _ status => x = r ∧ status = 0
  | _ => False

section loop
variable (c : RaidChannel) (s₀ s : State) (r : Nat) (cb : XorCb)

/-- Bytes of each of the lists. -/
def xorTotal : Nat := xorNumBlocks c s₀ r <<< c.blocklenShift

/-- Bytes of the metadata. -/
def xorTotalMd : Nat := xorNumBlocks c s₀ r * c.mdSize

/-- The chunks in the order of the scatter lists, the destination last. -/
def xorChunks : List Nat := srcChunks c (s₀.reqs r) ++ [(s₀.reqs r).destChunk]

/-- The addresses a chunk's scatter list covers. -/
def xorAddrs (i : Nat) : List Addr := addrs ((s₀.reqs r).chunks i).iovs

/-- The xor of the bytes that the sources have at a position. -/
def xorValue (j : Nat) : Byte := xorMap (srcChunks c (s₀.reqs r)) fun i => s₀.mem ((xorAddrs s₀ r i).getD j NULL)

/-- The request has metadata, or nothing is left of the metadata of an earlier one. -/
def XorClean : Prop := (s₀.ios (s₀.reqs r).raidIo).mdBuf = NULL → (s₀.reqs r).xorRemainingMd = 0

/-- The loop is about to start, over a scatter list for each chunk: no element of them is empty, all
    are `num_blocks` blocks long, and the destination is apart from the sources. -/
structure XorReady : Prop where
  stack : s₀.stack = [.xorStripe r cb]
  data : (s₀.reqs r).dataXors = []
  md : (s₀.reqs r).mdXors = []
  dest_lt : (s₀.reqs r).destChunk < c.numBaseBdevs
  full : ∀ i < c.numBaseBdevs, Full ((s₀.reqs r).chunks i).iovs
  lengths : ∀ i < c.numBaseBdevs, (xorAddrs s₀ r i).length = xorTotal c s₀ r
  blocks : 0 < xorNumBlocks c s₀ r
  fits : xorTotal c s₀ r + xorTotalMd c s₀ r < 2 ^ 64
  nodup : (xorAddrs s₀ r (s₀.reqs r).destChunk).Nodup
  apart : ∀ i < c.numBaseBdevs, i ≠ (s₀.reqs r).destChunk →
    ∀ p ∈ xorAddrs s₀ r i, p ∉ xorAddrs s₀ r (s₀.reqs r).destChunk
  /-- What an earlier request left is as much as its metadata, -/
  left_fits : xorTotal c s₀ r + (s₀.reqs r).xorRemainingMd < 2 ^ 64
  /-- and the metadata of this one goes to a buffer of its own. -/
  metadata : (s₀.ios (s₀.reqs r).raidIo).mdBuf ≠ NULL → 0 < c.mdSize ∧ ∀ i < c.numBaseBdevs, ∀ p ∈ xorAddrs s₀ r i,
    p ∉ ((s₀.reqs r).chunks (s₀.reqs r).destChunk).mdBuf.span (xorTotalMd c s₀ r)

/-- What holds at every point of the loop: a segment that is submitted has bytes and no more than are
    left, so the subtraction in the callback does not wrap, and `xor.cb` runs at most once. -/
structure XorSound : Prop where
  submits : s.stack.head? = some (.xorStripeContinue r) →
    0 < (s.reqs r).xorLen ∧ (s.reqs r).xorLen ≤ (s.reqs r).xorRemaining ∧ (s.reqs r).xorRemaining ≤ xorTotal c s₀ r
  callbacks : ∀ x ∈ (s.reqs r).dataXors, x.len = (s.reqs r).xorLen ∧ 0 < x.len ∧
    x.len ≤ (s.reqs r).xorRemaining ∧ (s.reqs r).xorRemaining ≤ xorTotal c s₀ r
  once : (s.reqs r).xorCbRuns ≤ (s₀.reqs r).xorCbRuns + 1

/-- The loop has ended: `xor.cb` has run with status 0, nothing is left or in flight, and the
    destination holds the xor of the sources. -/
structure XorFinished : Prop where
  remaining : (s.reqs r).xorRemaining = 0
  data : (s.reqs r).dataXors = []
  md : (s.reqs r).mdXors = []
  status : (s.reqs r).xorStatus = 0
  callback : (s.reqs r).xorCb = cb
  cbRuns : (s.reqs r).xorCbRuns = (s₀.reqs r).xorCbRuns + 1
  bytes : ∀ j p, (xorAddrs s₀ r (s₀.reqs r).destChunk)[j]? = some p → s.mem p = xorValue c s₀ r j

/-- The segment-wise XOR: with every submission accepted and every callback successful, no run of the
    loop is longer than the work there is, and in every state of one the loop has ended or can go on. -/
def SegmentsXor : Prop :=
  (∀ es s, Allowed (step c) (Accepting r) s₀ es → exec (step c) s₀ es = some s → es.length ≤ 6 * xorTotal c s₀ r + 9) ∧
  ∀ s, Reach (step c) (Accepting r) s₀ s → XorSound c s₀ s r ∧
    (XorFinished c s₀ s r cb ∨ ∃ e t, Accepting r s e ∧ step c s e = some t)

/-! ## The walk -/

/-- Lists that stand `d` bytes past the start of the chunks'. -/
structure Walked (g : Nat → List IoVec) (d : Nat) : Prop where
  addrs_eq : ∀ i ∈ xorChunks c s₀ r, addrs (g i) = (xorAddrs s₀ r i).drop d
  full : ∀ i ∈ xorChunks c s₀ r, Full (g i)

/-- The length of the segment the lists stand at. -/
def segLen (g : Nat → List IoVec) : Nat := minLen ((xorChunks c s₀ r).map g)

/-- The XOR of that segment. -/
def segXor (g : Nat → List IoVec) (stored : Bool) : AccelXor :=
  ⟨headPtr NULL (g (s₀.reqs r).destChunk), (srcChunks c (s₀.reqs r)).map fun i => headPtr NULL (g i),
    segLen c s₀ r g, stored⟩

end loop

section walk
variable {c : RaidChannel} {s₀ s t : State} {r : Nat} {cb : XorCb} {g : Nat → List IoVec} {d : Nat}

theorem mem_xorChunks (h : XorReady c s₀ r cb) {i : Nat} (hi : i ∈ xorChunks c s₀ r) : i < c.numBaseBdevs := by
  rcases List.mem_append.mp hi with hi | hi
  · exact c.mem_chunkIndices.mp (mem_others.mp hi).1
  · rw [List.mem_singleton.mp hi]
    exact h.dest_lt

theorem dest_mem_xorChunks : (s₀.reqs r).destChunk ∈ xorChunks c s₀ r :=
  List.mem_append_right _ (List.mem_singleton_self _)

theorem src_mem_xorChunks {i : Nat} (hi : i ∈ srcChunks c (s₀.reqs r)) : i ∈ xorChunks c s₀ r :=
  List.mem_append_left _ hi

theorem xorTotal_pos (h : XorReady c s₀ r cb) : 0 < xorTotal c s₀ r := by
  rw [xorTotal, Nat.shiftLeft_eq]
  exact Nat.mul_pos h.blocks (Nat.two_pow_pos _)

theorem Walked.start (h : XorReady c s₀ r cb) : Walked c s₀ r (fun i => ((s₀.reqs r).chunks i).iovs) 0 :=
  ⟨fun _ _ => rfl, fun i hi => h.full i (mem_xorChunks h hi)⟩

/-- One segment of the walk. -/
theorem Walked.segment (h : XorReady c s₀ r cb) (hw : Walked c s₀ r g d) (hd : d < xorTotal c s₀ r) :
    nextv NULL ((xorChunks c s₀ r).map g) = some (segLen c s₀ r g, (xorChunks c s₀ r).map (fun i => headPtr NULL (g i)),
      (xorChunks c s₀ r).map fun i => advance (segLen c s₀ r g) (g i)) ∧
    0 < segLen c s₀ r g ∧ d + segLen c s₀ r g ≤ xorTotal c s₀ r ∧
    Walked c s₀ r (fun i => advance (segLen c s₀ r g) (g i)) (d + segLen c s₀ r g) ∧
    ∀ i ∈ xorChunks c s₀ r, (headPtr NULL (g i)).span (segLen c s₀ r g) =
      ((xorAddrs s₀ r i).drop d).take (segLen c s₀ r g) := by
  have hlength {i : Nat} (hi : i ∈ xorChunks c s₀ r) : (addrs (g i)).length = xorTotal c s₀ r - d := by
    rw [hw.addrs_eq i hi, List.length_drop, h.lengths i (mem_xorChunks h hi)]
  have hne {i : Nat} (hi : i ∈ xorChunks c s₀ r) : g i ≠ [] := by
    intro hnil
    have := hlength hi
    rw [hnil, addrs_nil, List.length_nil] at this
    omega
  have hall : ∀ l ∈ (xorChunks c s₀ r).map g, l ≠ [] ∧ Full l := by
    intro l hl
    obtain ⟨i, hi, rfl⟩ := List.mem_map.mp hl
    exact ⟨hne hi, hw.full i hi⟩
  obtain ⟨⟨len, out, its⟩, hnext⟩ := nextv_isSome (d := NULL) fun l hl => (hall l hl).1
  have hlen : len = segLen c s₀ r g := by
    unfold nextv at hnext
    split at hnext
    · cases hnext
    · exact (Prod.mk.inj (Option.some.inj hnext)).1.symm
  obtain ⟨hout, hits, hspec⟩ := nextv_spec hnext
  rw [hlen] at hnext hits hspec
  have hat {i : Nat} (hi : i ∈ xorChunks c s₀ r) := hspec (g i) (List.mem_map_of_mem hi)
  have hpos : 0 < segLen c s₀ r g := minLen_pos (List.ne_nil_of_mem (List.mem_map_of_mem dest_mem_xorChunks)) hall
  have hle := (hat dest_mem_xorChunks).2.2
  rw [hlength dest_mem_xorChunks] at hle
  refine ⟨?_, hpos, by omega, ⟨?_, ?_⟩, ?_⟩
  · rw [hnext, hout, hits, List.map_map, List.map_map]
    rfl
  · intro i hi
    rw [(hat hi).2.1, hw.addrs_eq i hi, List.drop_drop]
  · intro i hi
    apply (hw.full i hi).advance
    intro v hv
    have hmin := minLen_le (List.mem_map_of_mem (f := g) hi)
    rw [hv] at hmin
    exact hmin
  · intro i hi
    rw [← (hat hi).1, hw.addrs_eq i hi]

/-- The operands of a segment's XOR are what the channel's array holds. -/
theorem segXor_eq (h : XorReady c s₀ r cb) (g : Nat → List IoVec) :
    segXor c s₀ r g false = ⟨((xorChunks c s₀ r).map fun i => headPtr NULL (g i)).getD c.stripeDataChunksNum NULL,
      ((xorChunks c s₀ r).map fun i => headPtr NULL (g i)).take c.stripeDataChunksNum, segLen c s₀ r g, false⟩ := by
  have hlen : ((srcChunks c (s₀.reqs r)).map fun i => headPtr NULL (g i)).length = c.stripeDataChunksNum := by
    rw [List.length_map, length_srcChunks h.dest_lt]
  rw [xorChunks, List.map_append, List.take_left' hlen, List.getD_eq_getElem?_getD,
    List.getElem?_append_right (Nat.le_of_eq hlen), hlen, Nat.sub_self]
  rfl

/-- The accel framework stores the XOR of a segment. -/
theorem Walked.stored (h : XorReady c s₀ r cb) (hw : Walked c s₀ r g d) (hd : d < xorTotal c s₀ r)
    (hkept : ∀ i ∈ srcChunks c (s₀.reqs r), ∀ p ∈ xorAddrs s₀ r i, s.mem p = s₀.mem p)
    (hdone : Written s.mem (xorAddrs s₀ r (s₀.reqs r).destChunk) (xorValue c s₀ r) d) :
    (∀ i ∈ srcChunks c (s₀.reqs r), ∀ p ∈ xorAddrs s₀ r i, (storeXor s (segXor c s₀ r g false)).mem p = s₀.mem p) ∧
    Written (storeXor s (segXor c s₀ r g false)).mem (xorAddrs s₀ r (s₀.reqs r).destChunk) (xorValue c s₀ r)
      (d + segLen c s₀ r g) := by
  obtain ⟨-, -, hle, -, hspan⟩ := hw.segment h hd
  have hlength {i : Nat} (hi : i ∈ xorChunks c s₀ r) := h.lengths i (mem_xorChunks h hi)
  -- the byte of source `i` that goes into byte `j` of the segment
  have hsrc {i j : Nat} (hi : i ∈ srcChunks c (s₀.reqs r)) (hj : j < segLen c s₀ r g) :
      s.mem ((headPtr NULL (g i)).add j) = s₀.mem ((xorAddrs s₀ r i).getD (d + j) NULL) := by
    have hlt : d + j < (xorAddrs s₀ r i).length := by
      rw [hlength (src_mem_xorChunks hi)]
      omega
    have hget : (headPtr NULL (g i)).add j = (xorAddrs s₀ r i)[d + j] := by
      have hl := congrArg (fun l => l[j]?) (hspan i (src_mem_xorChunks hi))
      rw [List.getElem?_take_of_lt hj, List.getElem?_drop, List.getElem?_eq_getElem hlt,
        List.getElem?_eq_getElem (by rw [Ptr.length_span]; exact hj), Ptr.getElem_span] at hl
      exact Option.some.inj hl
    rw [hget, hkept i hi _ (List.getElem_mem hlt), List.getD_eq_getElem?_getD, List.getElem?_eq_getElem hlt,
      Option.getD_some]
  have hbytes : ((List.range (segLen c s₀ r g)).map fun j =>
      xorMap (segXor c s₀ r g false).srcs fun p => s.mem (p.add j)) =
      (List.range (segLen c s₀ r g)).map fun j => xorValue c s₀ r (d + j) := by
    apply List.map_congr_left
    intro j hj
    rw [segXor, xorMap_map]
    exact xorMap_congr fun i hi => hsrc hi (List.mem_range.mp hj)
  have hmem : (storeXor s (segXor c s₀ r g false)).mem = store s.mem
      (((xorAddrs s₀ r (s₀.reqs r).destChunk).drop d).take (segLen c s₀ r g))
      ((List.range (segLen c s₀ r g)).map fun j => xorValue c s₀ r (d + j)) := by
    rw [← hbytes, ← hspan _ dest_mem_xorChunks]
    rfl
  rw [hmem]
  refine ⟨?_, hdone.store h.nodup (by rw [hlength dest_mem_xorChunks]; exact hle)⟩
  intro i hi p hp
  have hne : i ≠ (s₀.reqs r).destChunk := (mem_others.mp hi).2
  have hnot := h.apart i (mem_xorChunks h (src_mem_xorChunks hi)) hne p hp
  rw [store_of_notMem _ _ _ fun hmem => hnot (List.mem_of_mem_drop (List.mem_of_mem_take hmem))]
  exact hkept i hi p hp

end walk

/-! ## The loop -/

section stages
variable (c : RaidChannel) (s₀ s : State) (r : Nat) (cb : XorCb)

/-- What stays while the loop goes on. -/
structure Kept : Prop where
  sources : ∀ i ∈ srcChunks c (s₀.reqs r), ∀ p ∈ xorAddrs s₀ r i, s.mem p = s₀.mem p
  status : (s.reqs r).xorStatus = 0
  callback : (s.reqs r).xorCb = cb
  cbRuns : (s.reqs r).xorCbRuns = (s₀.reqs r).xorCbRuns

/-- The destination holds the first `n` bytes of the xor. -/
def Stored (n : Nat) : Prop := Written s.mem (xorAddrs s₀ r (s₀.reqs r).destChunk) (xorValue c s₀ r) n

/-- The metadata XOR, with the work it still is. -/
inductive MdStage : Nat → Prop where
  | none (clean : XorClean s₀ r) (left : (s.reqs r).xorRemainingMd = 0) (md : (s.reqs r).mdXors = []) : MdStage 0
  | stale (unclean : ¬XorClean s₀ r) (left : 0 < (s.reqs r).xorRemainingMd)
      (fits : xorTotal c s₀ r + (s.reqs r).xorRemainingMd < 2 ^ 64) (md : (s.reqs r).mdXors = []) : MdStage 0
  | inFlight (m : AccelXor) (clean : XorClean s₀ r) (left : 0 < (s.reqs r).xorRemainingMd) (le : (s.reqs r).xorRemainingMd ≤ xorTotalMd c s₀ r)
      (md : (s.reqs r).mdXors = [m])
      (apart : ∀ i < c.numBaseBdevs, ∀ p ∈ xorAddrs s₀ r i, p ∉ m.dst.span m.len) :
      MdStage (if m.stored then 2 else 3)

/-- The segment at byte `d` has been taken: it starts at the heads of `g`, the iterators are past it. -/
structure SegAt (g : Nat → List IoVec) (d : Nat) : Prop where
  remaining : (s.reqs r).xorRemaining = xorTotal c s₀ r - d
  lt : d < xorTotal c s₀ r
  len : (s.reqs r).xorLen = segLen c s₀ r g
  iters : (s.reqs r).chunkIovIters = (xorChunks c s₀ r).map fun i => advance (segLen c s₀ r g) (g i)
  walked : Walked c s₀ r g d

/-- The data XOR, with the work it still is: its segment is about to be submitted, or in flight. -/
inductive DataStage : Nat → Prop where
  | submits {g : Nat → List IoVec} {d : Nat} {tail : List Call} (stack : s.stack = .xorStripeContinue r :: tail)
      (ends : tail = [] ∨ tail = [.xorStripeCbTail r 0]) (data : (s.reqs r).dataXors = [])
      (buffers : s.ch.chunkXorBuffers = (xorChunks c s₀ r).map fun i => headPtr NULL (g i))
      (seg : SegAt c s₀ s r g d) (bytes : Stored c s₀ s r d) : DataStage (6 * (xorTotal c s₀ r - d) + 4 + tail.length)
  | inFlight {g : Nat → List IoVec} {d : Nat} {stored : Bool} (ends : s.stack = [] ∨ s.stack = [.xorStripeCbTail r 0])
      (data : (s.reqs r).dataXors = [segXor c s₀ r g stored]) (seg : SegAt c s₀ s r g d)
      (bytes : Stored c s₀ s r (if stored then d + segLen c s₀ r g else d)) :
      DataStage (6 * (xorTotal c s₀ r - d) + s.stack.length + if stored then 1 else 2)

/-- Where the loop stands, with the work that is left. -/
inductive XorWork : Nat → Prop where
  | starts (eq : s = s₀) : XorWork (6 * xorTotal c s₀ r + 9)
  | data {n m : Nat} (kept : Kept c s₀ s r cb) (stage : DataStage c s₀ s r n) (md : MdStage c s₀ s r m) :
      XorWork (n + m)
  | metadata {m : Nat} (kept : Kept c s₀ s r cb) (stack : s.stack = []) (data : (s.reqs r).dataXors = [])
      (remaining : (s.reqs r).xorRemaining = 0) (bytes : Stored c s₀ s r (xorTotal c s₀ r))
      (md : MdStage c s₀ s r m) (pos : 0 < m) : XorWork m
  | stuck (unclean : ¬XorClean s₀ r) (kept : Kept c s₀ s r cb) (stack : s.stack = []) (data : (s.reqs r).dataXors = [])
      (md : (s.reqs r).mdXors = []) : XorWork 0
  | done (clean : XorClean s₀ r) (kept : Kept c s₀ s r cb) (stack : s.stack = [.xorStripeDone r]) (data : (s.reqs r).dataXors = [])
      (md : (s.reqs r).mdXors = []) (remaining : (s.reqs r).xorRemaining = 0)
      (bytes : Stored c s₀ s r (xorTotal c s₀ r)) : XorWork 1
  | finished (clean : XorClean s₀ r) (fin : XorFinished c s₀ s r cb) (top : ∀ call ∈ s.stack.head?, call.xorLoop r = false) : XorWork 0

end stages

section steps
variable {c : RaidChannel} {s₀ s t : State} {r : Nat} {cb : XorCb} {a : Answer} {n m j : Nat}

theorem Kept.of_mem (h : Kept c s₀ s r cb)
    (mem : ∀ i ∈ srcChunks c (s₀.reqs r), ∀ p ∈ xorAddrs s₀ r i, t.mem p = s.mem p)
    (status : (t.reqs r).xorStatus = (s.reqs r).xorStatus) (callback : (t.reqs r).xorCb = (s.reqs r).xorCb)
    (cbRuns : (t.reqs r).xorCbRuns = (s.reqs r).xorCbRuns) : Kept c s₀ t r cb :=
  ⟨fun i hi p hp => (mem i hi p hp).trans (h.sources i hi p hp), status.trans h.status, callback.trans h.callback,
    cbRuns.trans h.cbRuns⟩

theorem Kept.of_eq (h : Kept c s₀ s r cb) (mem : t.mem = s.mem) (status : (t.reqs r).xorStatus = (s.reqs r).xorStatus)
    (callback : (t.reqs r).xorCb = (s.reqs r).xorCb) (cbRuns : (t.reqs r).xorCbRuns = (s.reqs r).xorCbRuns) :
    Kept c s₀ t r cb :=
  h.of_mem (fun _ _ p _ => congrFun mem p) status callback cbRuns

theorem MdStage.of_eq (h : MdStage c s₀ s r m) (left : (t.reqs r).xorRemainingMd = (s.reqs r).xorRemainingMd)
    (md : (t.reqs r).mdXors = (s.reqs r).mdXors) : MdStage c s₀ t r m := by
  cases h with
  | none clean hleft hmd => exact .none clean (left.trans hleft) (md.trans hmd)
  | stale unclean hleft hfits hmd => exact .stale unclean (by rwa [left]) (by rwa [left]) (md.trans hmd)
  | inFlight x clean hleft hle hmd apart =>
    exact .inFlight x clean (by rwa [left]) (by rwa [left]) (md.trans hmd) apart

theorem MdStage.left_fits (hm : MdStage c s₀ s r m) (h : XorReady c s₀ r cb) :
    xorTotal c s₀ r + (s.reqs r).xorRemainingMd < 2 ^ 64 := by
  have hfits := h.fits
  cases hm with
  | none _ left => omega
  | stale _ _ fits => exact fits
  | inFlight _ _ _ le => omega

theorem SegAt.of_eq {g : Nat → List IoVec} {d : Nat} (h : SegAt c s₀ s r g d)
    (remaining : (t.reqs r).xorRemaining = (s.reqs r).xorRemaining) (len : (t.reqs r).xorLen = (s.reqs r).xorLen)
    (iters : (t.reqs r).chunkIovIters = (s.reqs r).chunkIovIters) : SegAt c s₀ t r g d :=
  ⟨remaining.trans h.remaining, h.lt, len.trans h.len, iters.trans h.iters, h.walked⟩

/-- While the data XOR goes on, something of it is left. -/
theorem DataStage.more (hd : DataStage c s₀ s r n) (h : XorReady c s₀ r cb) (md : MdStage c s₀ s r m) :
    ((s.reqs r).xorRemaining + (s.reqs r).xorRemainingMd) % 2 ^ 64 ≠ 0 := by
  have hleft : 0 < (s.reqs r).xorRemaining ∧ (s.reqs r).xorRemaining ≤ xorTotal c s₀ r := by
    cases hd with
    | submits _ _ _ _ seg =>
      have hlt := seg.lt
      have hrem := seg.remaining
      omega
    | inFlight _ _ seg =>
      have hlt := seg.lt
      have hrem := seg.remaining
      omega
  have hfits := md.left_fits h
  rw [Nat.mod_eq_of_lt (by omega)]
  omega

/-- What the thread goes on with while the data XOR does. -/
theorem DataStage.top (hd : DataStage c s₀ s r n) (h : s.stack ≠ []) : ∃ rest, s.stack = .xorStripeContinue r :: rest ∨
    s.stack = .xorStripeCbTail r 0 :: rest := by
  cases hd with
  | submits stack => exact ⟨_, .inl stack⟩
  | inFlight ends => exact ⟨[], .inr (ends.resolve_left h)⟩

/-- `raid5f_xor_stripe` up to the metadata, over lists that go on. -/
theorem xorStripeFirst_eq {its its' : List (List IoVec)} {len : Nat} {out : List Addr}
    (hits : ((srcChunks c (s.reqs r) ++ [(s.reqs r).destChunk]).map fun i => ((s.reqs r).chunks i).iovs) = its)
    (hnext : nextv NULL its = some (len, out, its')) :
    xorStripeFirst c s r cb = (s.setCh fun ch =>
      { ch with chunkXorIovs := its, chunkXorBuffers := out, chunkXorOwner := some r }).setReq r fun q =>
      { q with
        xorLen := len, chunkIovIters := its', xorRemaining := xorNumBlocks c s r <<< c.blocklenShift
        xorStatus := 0, xorCb := cb } := by
  unfold xorStripeFirst
  dsimp only
  rw [hits]
  unfold ioviterNextv
  rw [hnext]
  simp [State.setReq, State.setCh]

/-- `raid5f_xor_stripe` takes the first segment and submits the metadata XOR, if there is one. -/
theorem XorReady.call (h : XorReady c s₀ r cb) (ha : a.rc = 0) (hs : step c s₀ (.call a) = some t) :
    ∃ m, m < 6 * xorTotal c s₀ r + 9 ∧ XorWork c s₀ t r cb m := by
  have hw := Walked.start h
  obtain ⟨hnext, -⟩ := hw.segment h (xorTotal_pos h)
  have hstep : xorStripe c { s₀ with stack := [] } r cb a = t := by
    unfold step at hs
    rw [h.stack] at hs
    exact Option.some.inj hs
  have hfirst : xorStripeFirst c { s₀ with stack := [] } r cb = _ := xorStripeFirst_eq rfl hnext
  generalize hlen : segLen c s₀ r (fun i => ((s₀.reqs r).chunks i).iovs) = len at hfirst
  generalize hits : (xorChunks c s₀ r).map (fun i => advance len ((s₀.reqs r).chunks i).iovs) = its at hfirst
  have hwork {k : Nat} {u : State} (hk : k ≤ 3) (hu : XorWork c s₀ u r cb (6 * (xorTotal c s₀ r - 0) + 4 + 0 + k)) :
      ∃ m, m < 6 * xorTotal c s₀ r + 9 ∧ XorWork c s₀ u r cb m := ⟨_, by omega, hu⟩
  have hnone : Stored c s₀ { s₀ with stack := [] } r 0 := fun j p hj => absurd hj (Nat.not_lt_zero j)
  rw [← hstep, xorStripe, hfirst]
  by_cases hnull : (s₀.ios (s₀.reqs r).raidIo).mdBuf = NULL
  · rw [if_neg (by simpa using hnull)]
    generalize hu : State.push _ _ = u
    have hq : u.reqs r = (s₀.reqs r).started cb (xorTotal c s₀ r) len its := by
      rw [← hu]
      simp only [State.push_reqs, State.setReq_reqs_self, State.setCh_reqs]
      rfl
    refine hwork (Nat.zero_le 3) (.data ⟨?_, by rw [hq]; rfl, by rw [hq]; rfl, by rw [hq]; rfl⟩ (.submits ?_ (.inl rfl) ?_ ?_
      ⟨by rw [hq]; rfl, xorTotal_pos h, by rw [hq, hlen]; rfl, by rw [hq, hlen, hits]; rfl, hw⟩ ?_) ?_)
    · rw [← hu]
      exact fun _ _ _ _ => rfl
    · rw [← hu]
      rfl
    · rw [hq]
      exact h.data
    · rw [← hu]
      rfl
    · rw [← hu]
      exact hnone
    · -- `remaining_md` is as it was found
      have hmd : (u.reqs r).mdXors = [] := by
        rw [hq]
        exact h.md
      have hleft : (u.reqs r).xorRemainingMd = (s₀.reqs r).xorRemainingMd := by
        rw [hq]
        rfl
      by_cases hzero : (s₀.reqs r).xorRemainingMd = 0
      · exact .none (fun _ => hzero) (hleft.trans hzero) hmd
      · exact .stale (fun hclean => hzero (hclean hnull)) (by omega) (by rw [hleft]; exact h.left_fits) hmd
  · obtain ⟨hsize, hapart⟩ := h.metadata hnull
    rw [if_pos (by simpa using hnull), xorStripeMd]
    dsimp only
    rw [if_pos ha]
    have hpos : 0 < xorTotalMd c s₀ r := Nat.mul_pos h.blocks hsize
    generalize hsrcs : ((srcChunks c _).map fun i => ((State.reqs _ r).chunks i).mdBuf) = srcs
    generalize hu : State.push _ _ = u
    have hq : u.reqs r = { (s₀.reqs r).started cb (xorTotal c s₀ r) len its with
        xorRemainingMd := xorTotalMd c s₀ r, chunkXorMdBuffers := srcs
        mdXors := [⟨((s₀.reqs r).chunks (s₀.reqs r).destChunk).mdBuf, srcs, xorTotalMd c s₀ r, false⟩] } := by
      rw [← hu]
      simp only [State.push_reqs, State.setReq_reqs_self, State.setCh_reqs, h.md, List.nil_append]
      rfl
    refine hwork (Nat.le_refl 3) (.data ⟨?_, by rw [hq]; rfl, by rw [hq]; rfl, by rw [hq]; rfl⟩ (.submits ?_ (.inl rfl) ?_ ?_
      ⟨by rw [hq]; rfl, xorTotal_pos h, by rw [hq, hlen]; rfl, by rw [hq, hlen, hits]; rfl, hw⟩ ?_)
      (.inFlight _ (fun hno => absurd hno hnull) ?_ ?_ (by rw [hq]) hapart))
    · rw [← hu]
      exact fun _ _ _ _ => rfl
    · rw [← hu]
      rfl
    · rw [hq]
      exact h.data
    · rw [← hu]
      rfl
    · rw [← hu]
      exact hnone
    · rw [hq]
      exact hpos
    · rw [hq]

/-- `raid5f_xor_stripe_continue` submits the segment. -/
theorem DataStage.submit {tail : List Call} (h : XorReady c s₀ r cb) (kept : Kept c s₀ s r cb) (hd : DataStage c s₀ s r n)
    (md : MdStage c s₀ s r m) (ha : a.rc = 0) (hstack : s.stack = .xorStripeContinue r :: tail) :
    ∃ k, k < n + m ∧ XorWork c s₀ (xorStripeContinue c { s with stack := tail } r a) r cb k := by
  cases hd with
  | inFlight ends =>
    rw [hstack] at ends
    rcases ends with hnil | htail
    · cases hnil
    · cases htail
  | @submits g d tail' stack ends data buffers seg bytes =>
    obtain rfl : tail' = tail := (List.cons.inj (stack.symm.trans hstack)).2
    have hseg := segXor_eq h g
    rw [← buffers, ← seg.len] at hseg
    rw [xorStripeContinue, if_pos ha]
    generalize hu : State.setReq _ _ _ = u
    have hq : u.reqs r = { s.reqs r with
        chunkXorBuffers := s.ch.chunkXorBuffers.take c.stripeDataChunksNum
        dataXors := [segXor c s₀ r g false] } := by
      rw [← hu]
      simp only [State.setReq_reqs_self, data, List.nil_append, hseg]
    have hrest : u.stack = tail' := by
      rw [← hu]
      rfl
    have hmem : u.mem = s.mem := by
      rw [← hu]
      rfl
    have hwork : XorWork c s₀ u r cb (6 * (xorTotal c s₀ r - d) + u.stack.length + 2 + m) := by
      refine .data (kept.of_eq hmem (by rw [hq]) (by rw [hq]) (by rw [hq])) (.inFlight (by rw [hrest]; exact ends)
        (by rw [hq]) (seg.of_eq (by rw [hq]) (by rw [hq]) (by rw [hq])) ?_) (md.of_eq (by rw [hq]) (by rw [hq]))
      rw [Stored, hmem]
      exact bytes
    rw [hrest] at hwork
    exact ⟨_, by omega, hwork⟩

/-- `_raid5f_xor_stripe_cb` past the submission of the next segment: there is more to do. -/
theorem DataStage.tail {rest : List Call} {status : Int} (h : XorReady c s₀ r cb) (kept : Kept c s₀ s r cb)
    (hd : DataStage c s₀ s r n) (md : MdStage c s₀ s r m) (hstack : s.stack = .xorStripeCbTail r status :: rest) :
    ∃ k, k < n + m ∧ XorWork c s₀ (xorStripeCbTail { s with stack := rest } r status) r cb k := by
  cases hd with
  | submits stack =>
    rw [hstack] at stack
    cases stack
  | @inFlight g d stored ends data seg bytes =>
    obtain ⟨rfl, rfl⟩ : rest = [] ∧ status = 0 := by
      rw [hstack] at ends
      rcases ends with hnil | htail
      · cases hnil
      · cases htail
        exact ⟨rfl, rfl⟩
    have hmore := (DataStage.inFlight ends data seg bytes).more h md
    have heq : xorStripeCbTail { s with stack := [] } r 0 = { s with stack := [] } := if_neg hmore
    rw [heq]
    have hwork : XorWork c s₀ { s with stack := [] } r cb
        (6 * (xorTotal c s₀ r - d) + 0 + (if stored then 1 else 2) + m) :=
      .data ⟨kept.sources, kept.status, kept.callback, kept.cbRuns⟩
        (.inFlight (.inl rfl) data ⟨seg.remaining, seg.lt, seg.len, seg.iters, seg.walked⟩ bytes) (md.of_eq rfl rfl)
    refine ⟨_, ?_, hwork⟩
    rw [hstack, List.length_singleton]
    omega

/-- `raid_bdev_io_complete_part` changes the `raid_io`, and calls the upper layer at most. -/
theorem completePart_eq (s : State) (io k : Nat) (st : IoStatus) : ∃ (ios : Nat → RaidIo) (calls : List Call),
    raidBdevIoCompletePart s io k st [] = { s with ios, stack := calls ++ s.stack } ∧
    ∀ call ∈ calls, call.xorLoop r = false := by
  unfold raidBdevIoCompletePart
  dsimp only
  generalize sub64 (s.ios io).baseBdevIoRemaining k = remaining
  by_cases h : remaining = 0
  · rw [if_pos h]
    refine ⟨_, [.userCb io], rfl, fun call hcall => ?_⟩
    rw [List.mem_singleton.mp hcall]
    rfl
  · rw [if_neg h]
    exact ⟨_, [], rfl, fun call hcall => nomatch hcall⟩

/-- `raid5f_xor_stripe_done` calls `xor.cb` with the status of the XOR; what is called next is not of
    the loop. -/
theorem xorStripeDone_eq (c : RaidChannel) (r : Nat) (hstatus : (s.reqs r).xorStatus = 0) :
    ∃ (ios : Nat → RaidIo) (ch : IoChannel) (calls : List Call),
      xorStripeDone c s r = { s.setReq r fun q => { q with xorCbRuns := q.xorCbRuns + 1 } with
        ios, ch, stack := calls ++ .xorRetryQueuePop :: s.stack } ∧
      ∀ call ∈ calls, call.xorLoop r = false := by
  unfold xorStripeDone
  dsimp only
  generalize hu : State.setReq (s.push _) _ _ = u
  have hstatus' : (u.reqs r).xorStatus = 0 := by
    rw [← hu, State.setReq_reqs_self]
    exact hstatus
  split
  · have heq : stripeWriteRequestXorDone c u r (u.reqs r).xorStatus = stripeRequestSubmitChunks c u r :=
      if_neg fun hne => hne hstatus'
    rw [heq, ← hu]
    refine ⟨_, _, _, rfl, fun call hcall => ?_⟩
    unfold submitChunksFrom at hcall
    split at hcall
    · rw [List.mem_singleton.mp hcall]
      rfl
    · cases hcall
  · unfold stripeRequestReconstructXorDone
    obtain ⟨ios, calls, heq, hcalls⟩ := completePart_eq (r := r) (stripeRequestRelease u r) (u.reqs r).raidIo 1
      (if (u.reqs r).xorStatus = 0 then .success else .failed)
    rw [heq, ← hu]
    exact ⟨ios, _, calls, rfl, hcalls⟩

/-- `raid5f_xor_stripe_done` -/
theorem XorWork.runDone (h : XorReady c s₀ r cb) (clean : XorClean s₀ r) (kept : Kept c s₀ s r cb) (data : (s.reqs r).dataXors = [])
    (md : (s.reqs r).mdXors = []) (remaining : (s.reqs r).xorRemaining = 0) (bytes : Stored c s₀ s r (xorTotal c s₀ r)) :
    XorWork c s₀ (xorStripeDone c { s with stack := [] } r) r cb 0 := by
  obtain ⟨ios, ch, calls, heq, hcalls⟩ := xorStripeDone_eq (s := { s with stack := [] }) c r kept.status
  rw [heq]
  generalize hu : State.mk ios _ _ _ _ _ _ _ _ = u
  have hq : u.reqs r = { s.reqs r with xorCbRuns := (s.reqs r).xorCbRuns + 1 } := by
    rw [← hu]
    simp only [State.setReq_reqs_self]
  have hmem : u.mem = s.mem := by
    rw [← hu]
    rfl
  have hstack : u.stack = calls ++ [.xorRetryQueuePop] := by
    rw [← hu]
  refine .finished clean ⟨by rw [hq]; exact remaining, by rw [hq]; exact data, by rw [hq]; exact md, by rw [hq]; exact kept.status,
    by rw [hq]; exact kept.callback, ?_, fun j p hp => ?_⟩ fun call hcall => ?_
  · rw [hq]
    exact congrArg (· + 1) kept.cbRuns
  · have hj := (List.getElem?_eq_some_iff.mp hp).1
    rw [h.lengths _ h.dest_lt] at hj
    rw [hmem]
    exact bytes j p hj hp
  · rw [hstack] at hcall
    rcases List.mem_append.mp (List.mem_of_mem_head? hcall) with hmem | hmem
    · exact hcalls call hmem
    · rw [List.mem_singleton.mp hmem]
      rfl

/-- The accel framework stores the XOR of the segment. -/
theorem DataStage.store {x : AccelXor} (h : XorReady c s₀ r cb) (kept : Kept c s₀ s r cb) (hd : DataStage c s₀ s r n)
    (md : MdStage c s₀ s r m) (hx : (s.reqs r).dataXors[j]? = some x) (hnot : x.stored = false) :
    ∃ k, k < n + m ∧ XorWork c s₀ ((storeXor s x).setReq r fun q =>
      { q with dataXors := q.dataXors.set j { x with stored := true } }) r cb k := by
  cases hd with
  | submits _ _ data =>
    rw [data] at hx
    cases hx
  | @inFlight g d stored ends data seg bytes =>
    obtain ⟨rfl, rfl⟩ : j = 0 ∧ x = segXor c s₀ r g stored := by
      rw [data] at hx
      cases j with
      | zero => exact ⟨rfl, (Option.some.inj hx).symm⟩
      | succ j => cases hx
    obtain rfl : stored = false := hnot
    obtain ⟨hsources, hbytes⟩ := seg.walked.stored h seg.lt kept.sources bytes
    generalize hu : State.setReq _ _ _ = u
    have hq : u.reqs r = { s.reqs r with dataXors := [segXor c s₀ r g true] } := by
      have hreqs : (storeXor s (segXor c s₀ r g false)).reqs = s.reqs := rfl
      rw [← hu, State.setReq_reqs_self, hreqs, data]
      rfl
    have hstack : u.stack = s.stack := by
      rw [← hu]
      rfl
    have hmem : u.mem = (storeXor s (segXor c s₀ r g false)).mem := by
      rw [← hu]
      rfl
    have hwork : XorWork c s₀ u r cb (6 * (xorTotal c s₀ r - d) + u.stack.length + 1 + m) := by
      refine .data ⟨hmem ▸ hsources, by rw [hq]; exact kept.status, by rw [hq]; exact kept.callback,
        by rw [hq]; exact kept.cbRuns⟩ (.inFlight (by rw [hstack]; exact ends)
        (show (u.reqs r).dataXors = [segXor c s₀ r g true] by rw [hq]) (seg.of_eq (by rw [hq]) (by rw [hq]) (by rw [hq])) ?_) (md.of_eq (by rw [hq]) (by rw [hq]))
      rw [Stored, hmem]
      exact hbytes
    rw [hstack] at hwork
    refine ⟨_, ?_, hwork⟩
    show 6 * (xorTotal c s₀ r - d) + s.stack.length + 1 + m < 6 * (xorTotal c s₀ r - d) + s.stack.length + 2 + m
    omega

theorem xorStripeCbTail_success (s : State) (r : Nat) : xorStripeCbTail s r 0 =
    if ((s.reqs r).xorRemaining + (s.reqs r).xorRemainingMd) % 2 ^ 64 = 0 then s.push (.xorStripeDone r) else s := by
  unfold xorStripeCbTail
  dsimp only
  rw [if_neg (show ¬(0 : Int) ≠ 0 from fun hne => hne rfl)]

/-- `_raid5f_xor_stripe_cb` once the data XOR is done: the XOR ends, or waits for the metadata. -/
theorem MdStage.ends (hm : MdStage c s₀ s r m) (h : XorReady c s₀ r cb) (kept : Kept c s₀ s r cb) (hstack : s.stack = [])
    (data : (s.reqs r).dataXors = []) (remaining : (s.reqs r).xorRemaining = 0)
    (bytes : Stored c s₀ s r (xorTotal c s₀ r)) :
    ∃ k, k ≤ m + 1 ∧ XorWork c s₀ (xorStripeCbTail s r 0) r cb k := by
  rw [xorStripeCbTail_success, remaining, Nat.zero_add]
  have hfits := h.fits
  cases hm with
  | none clean left md =>
    rw [left, if_pos (Nat.zero_mod _)]
    have hwork : XorWork c s₀ (s.push (.xorStripeDone r)) r cb 1 :=
      .done clean (kept.of_eq rfl rfl rfl rfl) (by rw [State.push_stack, hstack]) data md remaining bytes
    exact ⟨1, Nat.le_refl 1, hwork⟩
  | stale unclean left fits md =>
    have hleft : (s.reqs r).xorRemainingMd % 2 ^ 64 ≠ 0 := by
      rw [Nat.mod_eq_of_lt (by omega)]
      omega
    rw [if_neg hleft]
    exact ⟨0, Nat.zero_le _, .stuck unclean kept hstack data md⟩
  | inFlight x clean left le md apart =>
    have hleft : (s.reqs r).xorRemainingMd % 2 ^ 64 ≠ 0 := by
      rw [Nat.mod_eq_of_lt (by omega)]
      omega
    rw [if_neg hleft]
    have hwork : XorWork c s₀ s r cb (if x.stored then 2 else 3) :=
      .metadata kept hstack data remaining bytes (.inFlight x clean left le md apart) (by split <;> omega)
    exact ⟨_, Nat.le_succ _, hwork⟩

/-- `raid5f_xor_stripe_cb` takes the next segment, or ends the data XOR. -/
theorem DataStage.complete {x : AccelXor} (h : XorReady c s₀ r cb) (kept : Kept c s₀ s r cb) (hd : DataStage c s₀ s r n)
    (md : MdStage c s₀ s r m) (hx : (s.reqs r).dataXors[j]? = some x) (hidle : s.stack = []) (hstored : x.stored = true) :
    ∃ k, k < n + m ∧ XorWork c s₀ (xorStripeCb (s.setReq r fun q => { q with dataXors := q.dataXors.eraseIdx j }) r 0)
      r cb k := by
  cases hd with
  | submits stack =>
    rw [hidle] at stack
    cases stack
  | @inFlight g d stored ends data seg bytes =>
    obtain ⟨rfl, rfl⟩ : j = 0 ∧ x = segXor c s₀ r g stored := by
      rw [data] at hx
      cases j with
      | zero => exact ⟨rfl, (Option.some.inj hx).symm⟩
      | succ j => cases hx
    obtain rfl : stored = true := hstored
    obtain ⟨-, hpos, hle, hnext, -⟩ := seg.walked.segment h seg.lt
    have hsub : sub64 (s.reqs r).xorRemaining (s.reqs r).xorLen = xorTotal c s₀ r - (d + segLen c s₀ r g) := by
      have hfits := h.fits
      rw [seg.remaining, seg.len, sub64_eq (by omega) (by omega)]
      omega
    rw [xorStripeCb]
    generalize hu : State.setReq _ _ _ = u
    have hq : u.reqs r = { s.reqs r with
        dataXors := [], xorRemaining := xorTotal c s₀ r - (d + segLen c s₀ r g) } := by
      rw [← hu, ← hsub]
      simp only [State.setReq_reqs_self, data]
      rfl
    have hstack : u.stack = [] := by
      rw [← hu]
      exact hidle
    have hmem : u.mem = s.mem := by
      rw [← hu]
      rfl
    have hbytes : Stored c s₀ u r (d + segLen c s₀ r g) := by
      rw [Stored, hmem]
      exact bytes
    have hkept : Kept c s₀ u r cb := kept.of_eq hmem (by rw [hq]) (by rw [hq]) (by rw [hq])
    have hmd : MdStage c s₀ u r m := md.of_eq (by rw [hq]) (by rw [hq])
    have hrem : (u.reqs r).xorRemaining = xorTotal c s₀ r - (d + segLen c s₀ r g) := by rw [hq]
    have hdata : (u.reqs r).dataXors = [] := by rw [hq]
    have hits : (u.reqs r).chunkIovIters = (xorChunks c s₀ r).map fun i => advance (segLen c s₀ r g) (g i) := by
      rw [hq]
      exact seg.iters
    rw [hidle, List.length_nil, if_pos rfl]
    by_cases hmore : d + segLen c s₀ r g < xorTotal c s₀ r
    · -- the next segment
      obtain ⟨hwalk, -⟩ := hnext.segment h hmore
      rw [if_pos (by omega), hits, ioviterNextv, hwalk]
      dsimp only
      generalize hv : State.push _ _ = v
      have hqv : v.reqs r = { u.reqs r with
          xorLen := segLen c s₀ r fun i => advance (segLen c s₀ r g) (g i)
          chunkIovIters := (xorChunks c s₀ r).map fun i =>
            advance (segLen c s₀ r fun i => advance (segLen c s₀ r g) (g i)) (advance (segLen c s₀ r g) (g i)) } := by
        rw [← hv]
        simp only [State.push_reqs, State.setCh_reqs, State.setReq_reqs_self]
      have hmemv : v.mem = u.mem := by
        rw [← hv]
        rfl
      have hwork : XorWork c s₀ v r cb (6 * (xorTotal c s₀ r - (d + segLen c s₀ r g)) + 4 + 1 + m) := by
        refine .data (hkept.of_eq hmemv (by rw [hqv]) (by rw [hqv]) (by rw [hqv]))
          (.submits (show v.stack = .xorStripeContinue r :: [.xorStripeCbTail r 0] from ?_) (.inr rfl) ?_ ?_
            ⟨?_, hmore, ?_, ?_, hnext⟩ ?_)
          (hmd.of_eq (by rw [hqv]) (by rw [hqv]))
        · rw [← hv]
          show _ :: _ :: u.stack = _
          rw [hstack]
        · rw [hqv]
          exact hdata
        · rw [← hv]
          rfl
        · rw [hqv]
          exact hrem
        · rw [hqv]
        · rw [hqv]
        · rw [Stored, hmemv]
          exact hbytes
      exact ⟨_, by omega, hwork⟩
    · have hend : d + segLen c s₀ r g = xorTotal c s₀ r := by omega
      have hzero : (u.reqs r).xorRemaining = 0 := by omega
      rw [hend] at hbytes
      rw [if_neg (by omega)]
      obtain ⟨k, hk, hwork⟩ := hmd.ends h hkept hstack hdata hzero hbytes
      exact ⟨k, by omega, hwork⟩

/-- The accel framework stores the XOR of the metadata: the data is elsewhere. -/
theorem MdStage.store {x : AccelXor} (h : XorReady c s₀ r cb) (hm : MdStage c s₀ s r m) (hx : (s.reqs r).mdXors[j]? = some x)
    (hnot : x.stored = false) (ht : ((storeXor s x).setReq r fun q =>
      { q with mdXors := q.mdXors.set j { x with stored := true } }) = t) :
    m = 3 ∧ MdStage c s₀ t r 2 ∧ t.stack = s.stack ∧ t.ch = s.ch ∧
    t.reqs r = { s.reqs r with mdXors := [{ x with stored := true }] } ∧
    (∀ i ∈ xorChunks c s₀ r, ∀ p ∈ xorAddrs s₀ r i, t.mem p = s.mem p) := by
  cases hm with
  | none _ _ hmd | stale _ _ _ hmd =>
    rw [hmd] at hx
    cases hx
  | inFlight y clean left le hmd apart =>
    obtain ⟨rfl, rfl⟩ : j = 0 ∧ x = y := by
      rw [hmd] at hx
      cases j with
      | zero => exact ⟨rfl, (Option.some.inj hx).symm⟩
      | succ j => cases hx
    have hq : t.reqs r = { s.reqs r with mdXors := [{ x with stored := true }] } := by
      have hreqs : (storeXor s x).reqs = s.reqs := rfl
      rw [← ht, State.setReq_reqs_self, hreqs, hmd]
      rfl
    refine ⟨by rw [hnot]; rfl, ?_, by rw [← ht]; rfl, by rw [← ht]; rfl, hq, fun i hi p hp => ?_⟩
    · exact .inFlight { x with stored := true } clean (by rw [hq]; exact left) (by rw [hq]; exact le) (by rw [hq]) apart
    · rw [← ht]
      exact store_of_notMem _ _ _ (apart i (mem_xorChunks h hi) p hp)

theorem Stored.of_eq (h : Stored c s₀ s r n)
    (mem : ∀ i ∈ xorChunks c s₀ r, ∀ p ∈ xorAddrs s₀ r i, t.mem p = s.mem p) : Stored c s₀ t r n := by
  intro j p hj hp
  rw [mem _ dest_mem_xorChunks p (List.mem_of_getElem? hp)]
  exact h j p hj hp

theorem DataStage.of_eq (h : DataStage c s₀ s r n) (stack : t.stack = s.stack) (ch : t.ch = s.ch)
    (data : (t.reqs r).dataXors = (s.reqs r).dataXors) (remaining : (t.reqs r).xorRemaining = (s.reqs r).xorRemaining)
    (len : (t.reqs r).xorLen = (s.reqs r).xorLen) (iters : (t.reqs r).chunkIovIters = (s.reqs r).chunkIovIters)
    (mem : ∀ i ∈ xorChunks c s₀ r, ∀ p ∈ xorAddrs s₀ r i, t.mem p = s.mem p) : DataStage c s₀ t r n := by
  cases h with
  | submits hstack ends hdata buffers seg bytes =>
    exact .submits (stack.trans hstack) ends (data.trans hdata) (by rw [ch]; exact buffers)
      (seg.of_eq remaining len iters) (bytes.of_eq mem)
  | inFlight ends hdata seg bytes =>
    rw [← stack] at ends ⊢
    exact .inFlight ends (data.trans hdata) (seg.of_eq remaining len iters) (bytes.of_eq mem)

/-- `raid5f_xor_stripe_md_cb`, up to `_raid5f_xor_stripe_cb`. -/
theorem MdStage.complete {x : AccelXor} (hm : MdStage c s₀ s r m) (hx : (s.reqs r).mdXors[j]? = some x)
    (hstored : x.stored = true) (ht : ((s.setReq r fun q => { q with mdXors := q.mdXors.eraseIdx j }).setReq r fun q =>
      { q with xorRemainingMd := 0 }) = t) :
    m = 2 ∧ MdStage c s₀ t r 0 ∧ t.stack = s.stack ∧ t.ch = s.ch ∧ t.mem = s.mem ∧
    t.reqs r = { s.reqs r with mdXors := [], xorRemainingMd := 0 } := by
  cases hm with
  | none _ _ hmd | stale _ _ _ hmd =>
    rw [hmd] at hx
    cases hx
  | inFlight y clean left le hmd apart =>
    obtain ⟨rfl, rfl⟩ : j = 0 ∧ x = y := by
      rw [hmd] at hx
      cases j with
      | zero => exact ⟨rfl, (Option.some.inj hx).symm⟩
      | succ j => cases hx
    have hq : t.reqs r = { s.reqs r with mdXors := [], xorRemainingMd := 0 } := by
      rw [← ht]
      simp only [State.setReq_reqs_self, hmd]
      rfl
    exact ⟨by rw [hstored]; rfl, .none clean (by rw [hq]) (by rw [hq]), by rw [← ht]; rfl, by rw [← ht]; rfl,
      by rw [← ht]; rfl, hq⟩

/-- One step of the loop lowers the work that is left. -/
theorem XorWork.step {e : Event} (h : XorReady c s₀ r cb) (hw : XorWork c s₀ s r cb n) (hok : Accepting r s e)
    (hs : step c s e = some t) : ∃ k, k < n ∧ XorWork c s₀ t r cb k := by
  cases e with
  | call a =>
    obtain ⟨ha, call, hcall, hloop⟩ := hok
    have hidle {P : Prop} (hnil : s.stack = []) : P := by
      rw [hnil] at hcall
      cases hcall
    cases hw with
    | starts eq => exact h.call ha (eq ▸ hs)
    | metadata _ stack => exact hidle stack
    | stuck _ _ stack => exact hidle stack
    | done clean kept stack data md remaining bytes =>
      unfold Raid5f.step at hs
      rw [stack] at hs
      obtain rfl := Option.some.inj hs
      exact ⟨0, Nat.one_pos, .runDone h clean kept data md remaining bytes⟩
    | finished _ _ top =>
      rw [top call hcall] at hloop
      cases hloop
    | data kept stage md =>
      unfold Raid5f.step at hs
      obtain ⟨rest, hstack | hstack⟩ := stage.top (List.ne_nil_of_mem (List.mem_of_mem_head? hcall))
      · rw [hstack] at hs
        obtain rfl := Option.some.inj hs
        exact stage.submit h kept md ha hstack
      · rw [hstack] at hs
        obtain rfl := Option.some.inj hs
        exact stage.tail h kept md hstack
  | xorStore x j =>
    obtain rfl : x = r := hok
    obtain ⟨y, hy, hs⟩ := Option.bind_eq_some_iff.mp hs
    obtain ⟨hnot, hs⟩ := Option.ite_none_left_eq_some.mp hs
    obtain rfl := Option.some.inj hs
    have hnone {P : Prop} (hdata : (s.reqs x).dataXors = []) : P := by
      rw [hdata] at hy
      cases hy
    cases hw with
    | starts eq => exact hnone (eq ▸ h.data)
    | metadata _ _ data => exact hnone data
    | stuck _ _ _ data => exact hnone data
    | done _ _ _ data => exact hnone data
    | finished _ fin => exact hnone fin.data
    | data kept stage md => exact stage.store h kept md hy (Bool.eq_false_iff.mpr hnot)
  | xorComplete x j status =>
    obtain ⟨rfl, rfl⟩ := hok
    obtain ⟨y, hy, hs⟩ := Option.bind_eq_some_iff.mp hs
    obtain ⟨⟨hidle, hstored⟩, hs⟩ := Option.ite_none_right_eq_some.mp hs
    obtain rfl := Option.some.inj hs
    have hnone {P : Prop} (hdata : (s.reqs x).dataXors = []) : P := by
      rw [hdata] at hy
      cases hy
    cases hw with
    | starts eq => exact hnone (eq ▸ h.data)
    | metadata _ _ data => exact hnone data
    | stuck _ _ _ data => exact hnone data
    | done _ _ _ data => exact hnone data
    | finished _ fin => exact hnone fin.data
    | data kept stage md => exact stage.complete h kept md hy hidle (hstored rfl)
  | mdXorStore x j =>
    obtain rfl : x = r := hok
    obtain ⟨y, hy, hs⟩ := Option.bind_eq_some_iff.mp hs
    obtain ⟨hnot, hs⟩ := Option.ite_none_left_eq_some.mp hs
    have ht := Option.some.inj hs
    have hnone {P : Prop} (hmd : (s.reqs x).mdXors = []) : P := by
      rw [hmd] at hy
      cases hy
    cases hw with
    | starts eq => exact hnone (eq ▸ h.md)
    | stuck _ _ _ _ md => exact hnone md
    | done _ _ _ _ md => exact hnone md
    | finished _ fin => exact hnone fin.md
    | data kept stage md =>
      obtain ⟨rfl, hmd, hstack, hch, hq, hmem⟩ := md.store h hy (Bool.eq_false_iff.mpr hnot) ht
      have hwork : XorWork c s₀ t x cb (_ + 2) := .data (kept.of_mem (fun i hi => hmem i (src_mem_xorChunks hi))
        (by rw [hq]) (by rw [hq]) (by rw [hq])) (stage.of_eq hstack hch (by rw [hq]) (by rw [hq]) (by rw [hq])
        (by rw [hq]) hmem) hmd
      exact ⟨_, by omega, hwork⟩
    | metadata kept stack data remaining bytes md =>
      obtain ⟨rfl, hmd, hstack, hch, hq, hmem⟩ := md.store h hy (Bool.eq_false_iff.mpr hnot) ht
      have hwork : XorWork c s₀ t x cb 2 := .metadata (kept.of_mem (fun i hi => hmem i (src_mem_xorChunks hi))
        (by rw [hq]) (by rw [hq]) (by rw [hq])) (hstack.trans stack) (by rw [hq]; exact data)
        (by rw [hq]; exact remaining) (bytes.of_eq hmem) hmd Nat.two_pos
      exact ⟨2, by omega, hwork⟩
  | mdXorComplete x j status =>
    obtain ⟨rfl, rfl⟩ := hok
    obtain ⟨y, hy, hs⟩ := Option.bind_eq_some_iff.mp hs
    obtain ⟨⟨hidle, hstored⟩, hs⟩ := Option.ite_none_right_eq_some.mp hs
    obtain rfl := Option.some.inj hs
    have hnone {P : Prop} (hmd : (s.reqs x).mdXors = []) : P := by
      rw [hmd] at hy
      cases hy
    unfold xorStripeMdCb
    generalize ht : State.setReq (s.setReq _ _) _ _ = u
    cases hw with
    | starts eq => exact hnone (eq ▸ h.md)
    | stuck _ _ _ _ md => exact hnone md
    | done _ _ _ _ md => exact hnone md
    | finished _ fin => exact hnone fin.md
    | data kept stage md =>
      obtain ⟨rfl, hmd, hstack, hch, hmem, hq⟩ := md.complete hy (hstored rfl) ht
      have hstage := stage.of_eq hstack hch (by rw [hq]) (by rw [hq]) (by rw [hq]) (by rw [hq]) fun _ _ _ _ => by rw [hmem]
      have hkept := kept.of_eq hmem (by rw [hq]) (by rw [hq]) (by rw [hq])
      rw [xorStripeCbTail_success, if_neg (hstage.more h hmd)]
      exact ⟨_, by omega, .data hkept hstage hmd⟩
    | metadata kept stack data remaining bytes md =>
      obtain ⟨rfl, hmd, hstack, hch, hmem, hq⟩ := md.complete hy (hstored rfl) ht
      obtain ⟨k, hk, hwork⟩ := hmd.ends h (kept.of_eq hmem (by rw [hq]) (by rw [hq]) (by rw [hq])) (hstack.trans stack)
        (by rw [hq]; exact data) (by rw [hq]; exact remaining) (bytes.of_eq fun _ _ _ _ => by rw [hmem])
      exact ⟨k, by omega, hwork⟩
  | submit | readMove | readComplete | chunkMove | chunkComplete | ioWait => exact hok.elim

theorem DataStage.sound (hd : DataStage c s₀ s r n) (h : XorReady c s₀ r cb) :
    0 < (s.reqs r).xorLen ∧ (s.reqs r).xorLen ≤ (s.reqs r).xorRemaining ∧ (s.reqs r).xorRemaining ≤ xorTotal c s₀ r ∧
    ∀ x ∈ (s.reqs r).dataXors, x.len = (s.reqs r).xorLen := by
  have hseg {g : Nat → List IoVec} {d : Nat} (seg : SegAt c s₀ s r g d) : 0 < (s.reqs r).xorLen ∧
      (s.reqs r).xorLen ≤ (s.reqs r).xorRemaining ∧ (s.reqs r).xorRemaining ≤ xorTotal c s₀ r := by
    obtain ⟨-, hpos, hle, -⟩ := seg.walked.segment h seg.lt
    have hrem := seg.remaining
    have hlen := seg.len
    omega
  cases hd with
  | submits _ _ data _ seg =>
    obtain ⟨hpos, hle, htotal⟩ := hseg seg
    refine ⟨hpos, hle, htotal, fun x hx => ?_⟩
    rw [data] at hx
    cases hx
  | inFlight _ data seg =>
    obtain ⟨hpos, hle, htotal⟩ := hseg seg
    refine ⟨hpos, hle, htotal, fun x hx => ?_⟩
    rw [data] at hx
    rw [List.mem_singleton.mp hx, seg.len]
    rfl

theorem XorWork.sound (hw : XorWork c s₀ s r cb n) (h : XorReady c s₀ r cb) : XorSound c s₀ s r := by
  have hnone {x : AccelXor} {P : Prop} (hdata : (s.reqs r).dataXors = []) (hx : x ∈ (s.reqs r).dataXors) : P := by
    rw [hdata] at hx
    cases hx
  have htop {call : Call} {P : Prop} (hstack : s.stack = [call]) (hne : call ≠ .xorStripeContinue r)
      (hh : s.stack.head? = some (.xorStripeContinue r)) : P := by
    rw [hstack] at hh
    exact absurd (Option.some.inj hh) hne
  cases hw with
  | starts eq =>
    subst eq
    exact ⟨htop h.stack (by simp), fun x hx => hnone h.data hx, Nat.le_succ _⟩
  | data kept stage md =>
    obtain ⟨hpos, hle, htotal, hx⟩ := stage.sound h
    refine ⟨fun _ => ⟨hpos, hle, htotal⟩, fun x hmem => ?_, by rw [kept.cbRuns]; exact Nat.le_succ _⟩
    rw [hx x hmem]
    exact ⟨rfl, hpos, hle, htotal⟩
  | metadata kept stack data =>
    refine ⟨fun hh => ?_, fun x hx => hnone data hx, by rw [kept.cbRuns]; exact Nat.le_succ _⟩
    rw [stack] at hh
    cases hh
  | stuck _ kept stack data =>
    refine ⟨fun hh => ?_, fun x hx => hnone data hx, by rw [kept.cbRuns]; exact Nat.le_succ _⟩
    rw [stack] at hh
    cases hh
  | done _ kept stack data =>
    exact ⟨htop stack (by simp), fun x hx => hnone data hx, by rw [kept.cbRuns]; exact Nat.le_succ _⟩
  | finished _ fin top =>
    refine ⟨fun hh => ?_, fun x hx => hnone fin.data hx, Nat.le_of_eq fin.cbRuns⟩
    have := top _ hh
    simp [Call.xorLoop] at this

/-- A call of the loop can run. -/
theorem call_enabled {call : Call} {rest : List Call} (hstack : s.stack = call :: rest) (hloop : call.xorLoop r = true) :
    ∃ e t, Accepting r s e ∧ step c s e = some t := by
  have hrun : ∃ t, runCall c { s with stack := rest } call ⟨0, fun _ => true, false⟩ = some t := by
    cases call with
    | xorStripe | xorStripeContinue | xorStripeCbTail | xorStripeDone => exact ⟨_, rfl⟩
    | submitRwRequest | submitChunks | xorRetryQueuePop | stripeRequestRelease | userCb => cases hloop
  obtain ⟨t, ht⟩ := hrun
  refine ⟨.call ⟨0, fun _ => true, false⟩, t, ⟨rfl, call, by rw [hstack]; rfl, hloop⟩, ?_⟩
  unfold step
  rw [hstack]
  exact ht

theorem MdStage.enabled (hm : MdStage c s₀ s r m) (hpos : 0 < m) (hidle : s.stack = []) :
    ∃ e t, Accepting r s e ∧ step c s e = some t := by
  cases hm with
  | none | stale => cases hpos
  | inFlight x _ _ _ md =>
    have hx : (s.reqs r).mdXors[0]? = some x := by
      rw [md]
      rfl
    cases hstored : x.stored with
    | false =>
      refine ⟨.mdXorStore r 0, (storeXor s x).setReq r fun q => { q with mdXors := q.mdXors.set 0 { x with stored := true } },
        rfl, ?_⟩
      exact Option.bind_eq_some_iff.mpr ⟨x, hx, if_neg (by rw [hstored]; decide)⟩
    | true =>
      refine ⟨.mdXorComplete r 0 0, xorStripeMdCb (s.setReq r fun q => { q with mdXors := q.mdXors.eraseIdx 0 }) r 0,
        ⟨rfl, rfl⟩, ?_⟩
      exact Option.bind_eq_some_iff.mpr ⟨x, hx, if_pos ⟨hidle, fun _ => hstored⟩⟩

theorem DataStage.enabled (hd : DataStage c s₀ s r n) : ∃ e t, Accepting r s e ∧ step c s e = some t := by
  cases hd with
  | submits stack => exact call_enabled stack (beq_self_eq_true r)
  | @inFlight g d stored ends data =>
    have hx : (s.reqs r).dataXors[0]? = some (segXor c s₀ r g stored) := by
      rw [data]
      rfl
    rcases ends with hidle | hstack
    · cases stored with
      | false =>
        refine ⟨.xorStore r 0, (storeXor s (segXor c s₀ r g false)).setReq r fun q =>
          { q with dataXors := q.dataXors.set 0 { segXor c s₀ r g false with stored := true } }, rfl, ?_⟩
        exact Option.bind_eq_some_iff.mpr ⟨_, hx, if_neg Bool.false_ne_true⟩
      | true =>
        refine ⟨.xorComplete r 0 0, xorStripeCb (s.setReq r fun q => { q with dataXors := q.dataXors.eraseIdx 0 }) r 0,
          ⟨rfl, rfl⟩, ?_⟩
        exact Option.bind_eq_some_iff.mpr ⟨_, hx, if_pos ⟨hidle, fun _ => rfl⟩⟩
    · exact call_enabled hstack (beq_self_eq_true r)

/-- Until it has ended, the loop can go on, if nothing was left of the metadata of an earlier request. -/
theorem XorWork.progress (hw : XorWork c s₀ s r cb n) (h : XorReady c s₀ r cb) (hclean : XorClean s₀ r) :
    XorFinished c s₀ s r cb ∨ ∃ e t, Accepting r s e ∧ Raid5f.step c s e = some t := by
  cases hw with
  | starts eq =>
    subst eq
    exact .inr (call_enabled h.stack (beq_self_eq_true r))
  | data _ stage => exact .inr stage.enabled
  | metadata _ stack _ _ _ md pos => exact .inr (md.enabled pos stack)
  | stuck unclean => exact absurd hclean unclean
  | done _ _ stack => exact .inr (call_enabled stack (beq_self_eq_true r))
  | finished _ fin => exact .inl fin

/-- If something was, `xor.cb` is not called. -/
theorem XorWork.cbRuns (hw : XorWork c s₀ s r cb n) (hunclean : ¬XorClean s₀ r) :
    (s.reqs r).xorCbRuns = (s₀.reqs r).xorCbRuns := by
  cases hw with
  | starts eq => rw [eq]
  | data kept | metadata kept => exact kept.cbRuns
  | stuck _ kept => exact kept.cbRuns
  | done clean | finished clean => exact absurd clean hunclean

theorem XorWork.reached (h : XorReady c s₀ r cb) (hs : Reach (Raid5f.step c) (Accepting r) s₀ s) :
    ∃ n, XorWork c s₀ s r cb n := by
  refine hs.invariant (I := fun s => ∃ n, XorWork c s₀ s r cb n) ⟨_, .starts rfl⟩ fun s e t ⟨n, hw⟩ hok ht => ?_
  obtain ⟨k, -, hk⟩ := hw.step h hok ht
  exact ⟨k, hk⟩

/-- With something left of earlier metadata the loop comes to a state in which nothing is in flight, and
    `xor.cb` has not been called. -/
theorem not_segmentsXor (h : XorReady c s₀ r cb) (hunclean : ¬XorClean s₀ r) : ¬SegmentsXor c s₀ r cb := by
  intro hseg
  obtain ⟨t, ht, hend⟩ := run_ends (I := fun n s => XorWork c s₀ s r cb n)
    (fun n s e t hw hok ht => hw.step h hok ht) (.starts rfl)
  rcases (hseg.2 t ht).2 with hfin | ⟨e, u, hok, hu⟩
  · obtain ⟨n, hw⟩ := XorWork.reached h ht
    have hsame := hw.cbRuns hunclean
    have hmore := hfin.cbRuns
    omega
  · exact hend e u hok hu

end steps

section callers
variable {c : RaidChannel} {disk diskMd : Nat → Nat → Byte} {mem : Mem Buf Byte} {s : State} {r : Nat} {cb : XorCb}

/-- The iovecs of the upper layer lie in buffers of its own, each in another one. -/
theorem Request.iovs_apart (q : Request) (io : Nat) : (addrs (q.iovs io)).Nodup ∧
    ∀ p ∈ addrs (q.iovs io), ∃ k, p.buf = .user io k := by
  constructor
  · apply nodup_addrs
    rw [Request.iovs, List.nodup_iff_injective_getElem]
    intro i j hij
    simp only [List.getElem_map, List.getElem_mapIdx, Buf.user.injEq, true_and] at hij
    exact Fin.ext hij
  · intro p hp
    obtain ⟨v, hv, hpv⟩ := mem_addrs.mp hp
    obtain ⟨k, hk, rfl⟩ := List.mem_mapIdx.mp hv
    exact ⟨k, (Ptr.mem_span.mp hpv).1⟩

/-- The destination of a request's XOR is apart from its sources, and from itself. -/
theorem Owner.apart {v : View} {io : Nat} {q : Request} (h : Owner c v r) (hq : v.x.iovs = q.iovs io) :
    (addrs (v.q.chunks v.q.destChunk).iovs).Nodup ∧ ∀ i < c.numBaseBdevs, i ≠ v.q.destChunk →
      ∀ p ∈ addrs (v.q.chunks i).iovs, p ∉ addrs (v.q.chunks v.q.destChunk).iovs := by
  obtain ⟨hnodup, huser⟩ := q.iovs_apart io
  obtain ⟨-, hread, hwrite⟩ := h.setup
  cases htype : v.q.type with
  | write =>
    have hdest : v.q.destChunk = v.q.parityChunk := by
      rw [StripeRequest.destChunk, htype]
    obtain ⟨-, hparity, hdata⟩ := hwrite htype
    rw [hdest, hparity]
    refine ⟨nodup_addrs (List.nodup_singleton _), fun i hi hne p hp hp' => ?_⟩
    obtain ⟨j, hj⟩ := List.mem_iff_getElem?.mp (mem_others.mpr ⟨c.mem_chunkIndices.mpr hi, hne⟩)
    rw [hdata j i hj, hq] at hp
    obtain ⟨k, hk⟩ := huser p (List.mem_of_mem_drop (List.mem_of_mem_take hp))
    obtain ⟨w, hw, hpw⟩ := mem_addrs.mp hp'
    rw [List.mem_singleton.mp hw] at hpw
    cases hk.symm.trans (Ptr.mem_span.mp hpw).1
  | reconstruct =>
    have hdest : v.q.destChunk = v.q.reconstructChunk := by
      rw [StripeRequest.destChunk, htype]
    obtain ⟨-, -, hown, hothers⟩ := hread htype
    rw [hdest, hown, hq]
    refine ⟨hnodup, fun i hi hne p hp hp' => ?_⟩
    rw [hothers i hi hne] at hp
    obtain ⟨k, hk⟩ := huser p hp'
    obtain ⟨w, hw, hpw⟩ := mem_addrs.mp hp
    rw [List.mem_singleton.mp hw] at hpw
    cases hk.symm.trans (Ptr.mem_span.mp hpw).1

/-- In whichever state of a channel the XOR of a request without metadata is called, its scatter lists
    are as long as they have to be and the destination is apart from the sources. -/
theorem ready_of_run (h : Run c disk diskMd mem XorSafe s) (hstack : s.stack = [.xorStripe r cb])
    (hfull : ∀ i < c.numBaseBdevs, Full ((s.reqs r).chunks i).iovs) (hnull : (s.ios (s.reqs r).raidIo).mdBuf = NULL)
    (hleft : (s.reqs r).xorRemainingMd < 2 ^ 63) : XorReady c s r cb := by
  obtain ⟨ph, hi⟩ := run_inv True False (h.mono fun s e hx => ⟨hx, False.elim, .inl trivial⟩)
  have hpop := hi.popped (r := r) hstack (by simp [Call.about]) rfl (by simp [Call.foreign])
  have hphase : ph r = .xor := hpop.phase
  have hp := hphase ▸ hi.phase r
  have howns : (ph r).owns = true := by
    rw [hphase]
    rfl
  have hsane := hi.sane howns
  have hblocks : xorNumBlocks c s r = (s.view r).numBlocks c := view_numBlocks rfl rfl
  have htotal : xorTotal c s r = (s.view r).total c := by
    rw [xorTotal, Nat.shiftLeft_eq, hblocks]
    rfl
  cases hp with
  | xor owner _ _ _ _ _ _ stage =>
    have hno : NoXor (s.view r) := by
      cases stage with
      | start _ no => exact no
      | done _ no => exact no
      | cont calls | retry calls | inFlight calls | mdInFlight calls =>
        have := calls.symm.trans hpop.calls
        cases this
    obtain ⟨q, -, hcarries⟩ := hi.carries _ (hi.served howns rfl).1
    obtain ⟨hnodup, hapart⟩ := owner.apart hcarries.iovs
    have h1 := hsane.total_lt
    have h2 := hsane.mdLen_lt
    refine ⟨hstack, hno.data, hno.md, owner.dest_lt, hfull, fun i hi => (owner.lists i hi).trans htotal.symm, ?_, ?_, hnodup,
      hapart, ?_, fun hmd => absurd hnull hmd⟩
    · rw [hblocks]
      exact hsane.blocks_pos
    · rw [htotal, xorTotalMd, hblocks]
      omega
    · rw [htotal]
      omega

end callers

/-- A write to three base bdevs: the first strip lies in two buffers of the upper layer, the second
    in what is left of them. -/
def twoPieces : State :=
  let s := State.init (smallArray fun _ => true) (fun _ _ => 0) (fun _ _ => 0) fun _ => 0
  { s.setReq 0 fun q => { q with
      parityChunk := 2
      chunks := fun i => ⟨match i with
        | 0 => [⟨⟨.user 0 0, 0⟩, 600⟩, ⟨⟨.user 0 1, 0⟩, 424⟩]
        | 1 => [⟨⟨.user 0 1, 424⟩, 1024⟩]
        | _ => [⟨⟨.parity 0, 0⟩, 1024⟩], 4, NULL⟩ } with
    stack := [.xorStripe 0 .writeRequestXorDone] }

theorem twoPieces_ready : XorReady (smallArray fun _ => true) twoPieces 0 .writeRequestXorDone where
  stack := rfl
  data := rfl
  md := rfl
  dest_lt := by decide
  full := by
    intro i hi
    have hi3 : i < 3 := hi
    unfold Full
    interval_cases i <;> decide
  lengths := by
    intro i hi
    have hi3 : i < 3 := hi
    rw [xorAddrs, length_addrs]
    interval_cases i <;> rfl
  blocks := by decide
  fits := by decide
  nodup := nodup_addrs (by decide)
  apart := by
    intro i hi hne p hp hp'
    obtain ⟨v, hv, hpv⟩ := mem_addrs.mp hp
    obtain ⟨w, hw, hpw⟩ := mem_addrs.mp hp'
    have hbuf : w.base.buf = v.base.buf := (Ptr.mem_span.mp hpw).1.symm.trans (Ptr.mem_span.mp hpv).1
    obtain rfl : w = ⟨⟨.parity 0, 0⟩, 1024⟩ := List.mem_singleton.mp hw
    have hi3 : i < 3 := hi
    have huser : ∀ v ∈ ((twoPieces.reqs 0).chunks i).iovs, v.base.buf ≠ .parity 0 := by
      interval_cases i
      · decide
      · decide
      · exact absurd rfl hne
    exact huser v hv hbuf.symm
  left_fits := by decide
  metadata := fun hmd => absurd rfl hmd

end FlexBSO.Raid5f

import FlexBSO.Raid.Region
import Mathlib.Data.List.Perm.Basic

/- What the null payload requests of concat cover. Two loops go through the members:
   the first one finds where the range starts and stops, the second one submits the
   children, and on a resumed request passes over those submitted before. The first
   loop skips every member that ends at or before the current offset; the second one
   does not. They part where a member inside the range is empty, or where the 64-bit
   sum of the sizes wraps in it: there the second loop's assertion fails. Everywhere
   else the children are the blocks to which reads and writes of the range go. -/
namespace FlexBSO.Raid

/-- The (slot, block) pairs a child addresses. -/
def Child.blocks (c : Child) : List (Nat × Nat) :=
  (List.range c.numBlocks).map fun j => (c.slot, u64 (c.offsetBlocks + j))

namespace RaidBdev
variable (r : RaidBdev)

/-- The assertion in the first loop of `concat_submit_null_payload_request`. -/
def concatSpanAsserts (offsetBlocks numBlocks : Nat) (startIdx : Option Nat) :
    Nat → List ConcatBlockRange → Bool
  | _, [] => true
  | i, range :: ranges =>
    if u64 (range.start + range.length) ≤ offsetBlocks then
      concatSpanAsserts offsetBlocks numBlocks startIdx (i + 1) ranges
    else
      let pdLba := sub64 offsetBlocks range.start
      let pdBlocks := min numBlocks (sub64 range.length pdLba)
      (startIdx.isNone || offsetBlocks == range.start) &&
        (if sub64 numBlocks pdBlocks = 0 then true
        else concatSpanAsserts (u64 (offsetBlocks + pdBlocks)) (sub64 numBlocks pdBlocks) (startIdx.or (some i))
          (i + 1) ranges)

/-- The assertions in the second loop. -/
def concatChildrenAsserts (stopIdx offsetBlocks numBlocks : Nat) : Nat → List ConcatBlockRange → Bool
  | _, [] => true
  | i, range :: ranges =>
    if stopIdx < i then true
    else
      let pdLba := sub64 offsetBlocks range.start
      let pdBlocks := min numBlocks (sub64 range.length pdLba)
      decide (range.start ≤ offsetBlocks) && decide (offsetBlocks < u64 (range.start + range.length)) &&
        concatChildrenAsserts stopIdx (u64 (offsetBlocks + pdBlocks)) (sub64 numBlocks pdBlocks) (i + 1) ranges

/-- No assertion of `concat_submit_null_payload_request` fails: those of the loops, and
    `start_idx >= 0` and `stop_idx >= 0` between them. -/
def concatAsserts (io : RaidIo) : Bool :=
  match concatSpan io.offsetBlocks io.numBlocks none 0 r.blockRange with
  | (some startIdx, some stopIdx) =>
    concatSpanAsserts io.offsetBlocks io.numBlocks none 0 r.blockRange &&
      concatChildrenAsserts stopIdx io.offsetBlocks io.numBlocks startIdx (r.blockRange.drop startIdx)
  | _ => false

/-- The children of a request whose base bdevs run out of memory: each element of `accepted` counts
    the children one call submits before an `-ENOMEM`; the last call submits the rest. -/
def concatSubmitted (io : RaidIo) (submitted : Nat) : List Nat → List Child
  | [] => r.concatSubmitNullPayloadRequest submitted io
  | accepted :: calls => (r.concatSubmitNullPayloadRequest submitted io).take accepted ++
      concatSubmitted io (submitted + accepted) calls

end RaidBdev

/-- A null payload request of concat does what it is for. -/
structure ConcatCovers (r : RaidBdev) (io : RaidIo) : Prop where
  asserts : r.concatAsserts io = true
  nonempty : ∀ calls, ∀ c ∈ r.concatSubmitted io 0 calls, 0 < c.numBlocks
  covers : ∀ calls, ((r.concatSubmitted io 0 calls).flatMap Child.blocks).Perm
    ((List.range' io.offsetBlocks io.numBlocks).flatMap fun b =>
      (r.concatSubmitRwRequest ⟨.write, b, 1⟩).flatMap Child.blocks)

/-- No member that starts behind the first block of the range is empty or has a 64-bit end below
    its start, up to the first member that ends at or past the end of the range. -/
def Passable (offsetBlocks numBlocks : Nat) : List ConcatBlockRange → Prop
  | [] => True
  | range :: ranges =>
    (offsetBlocks < range.start → 0 < range.length ∧ range.start + range.length < 2 ^ 64) ∧
    (u64 (range.start + range.length) < offsetBlocks + numBlocks → Passable offsetBlocks numBlocks ranges)

instance decidablePassable (offsetBlocks numBlocks : Nat) : ∀ ranges, Decidable (Passable offsetBlocks numBlocks ranges)
  | [] => inferInstanceAs (Decidable True)
  | _ :: ranges =>
    have := decidablePassable offsetBlocks numBlocks ranges
    inferInstanceAs (Decidable (_ ∧ (_ → Passable offsetBlocks numBlocks ranges)))

open RaidBdev

section concat
variable {r : RaidBdev} {io : RaidIo} {ranges : List ConcatBlockRange} {range : ConcatBlockRange}
variable {start stop off n i b : Nat}

/-- However often the request is resumed, it submits the children of one undisturbed call. -/
theorem concatSubmitted_eq (calls : List Nat) : ∀ submitted : Nat,
    r.concatSubmitted io submitted calls = (r.concatSubmitNullPayloadRequest 0 io).drop submitted := by
  have hdrop (k : Nat) : r.concatSubmitNullPayloadRequest k io =
      (r.concatSubmitNullPayloadRequest 0 io).drop k := by
    unfold concatSubmitNullPayloadRequest
    split
    · rfl
    · exact List.drop_nil.symm
  induction calls with
  | nil => exact hdrop
  | cons accepted calls ih =>
    intro submitted
    rw [concatSubmitted, ih, hdrop, ← List.drop_drop]
    exact List.take_append_drop accepted _

/-- A member that ends past an offset at or behind its start does not wrap. -/
theorem end_of_lt (hlen : range.length < 2 ^ 64) (hle : range.start ≤ off)
    (hlt : off < u64 (range.start + range.length)) :
    u64 (range.start + range.length) = range.start + range.length ∧ range.start + range.length < 2 ^ 64 := by
  unfold u64 at hlt ⊢
  omega

/-- The loops at slot `i`, on the members from there on: they follow one another from `start`, and
    the search of reads and writes goes on here for every block from `off` on. -/
structure AtSlot (r : RaidBdev) (start off i : Nat) (ranges : List ConcatBlockRange) : Prop where
  drop : ranges = r.blockRange.drop i
  chained : Chained start ranges r.blockcnt
  le : start ≤ off
  fits : ∀ range ∈ ranges, range.length < 2 ^ 64
  search : ∃ prev, ∀ b, off ≤ b → concatFind b 0 r.blockRange = (concatFind b i ranges).or prev

/-- The next slot, at any offset from the end of the member on. -/
theorem AtSlot.next (h : AtSlot r start off i (range :: ranges)) (off' : Nat) (hle : off ≤ off')
    (hend : u64 (range.start + range.length) ≤ off') :
    AtSlot r (u64 (range.start + range.length)) off' (i + 1) ranges := by
  obtain ⟨hdrop, ⟨hstart, hrest⟩, hlow, hfits, prev, hprev⟩ := h
  rw [← hstart] at hrest hlow
  refine ⟨?_, hrest, hend, fun x hx => hfits x (List.mem_cons_of_mem _ hx), (some (i, range)).or prev, ?_⟩
  · have := congrArg List.tail hdrop
    rwa [List.tail_drop] at this
  · intro b hb
    rw [hprev b (by omega), concatFind, if_neg (by omega), Option.or_assoc]

/-- Reads and writes of the blocks of a member go there. -/
theorem AtSlot.found (h : AtSlot r start off i (range :: ranges)) (hb : off ≤ b)
    (hlt : b < u64 (range.start + range.length)) : concatFind b 0 r.blockRange = some (i, range) := by
  obtain ⟨-, ⟨hstart, hrest⟩, hlow, -, prev, hprev⟩ := h
  have hnone : concatFind b (i + 1) ranges = none := by
    cases ranges with
    | nil => rfl
    | cons next ranges => rw [concatFind, if_pos (by rw [hrest.1, ← hstart]; exact hlt)]
  rw [hprev b hb, concatFind, if_neg (by omega), hnone]
  rfl

/-- The child of the second loop at a member covers what reads and writes of its part of the range
    address. -/
theorem AtSlot.child_blocks (h : AtSlot r start off i (range :: ranges))
    (hn : off + n ≤ u64 (range.start + range.length)) :
    (r.child i (sub64 off range.start) n).blocks = (List.range' off n).flatMap fun b =>
      (r.concatSubmitRwRequest ⟨.write, b, 1⟩).flatMap Child.blocks := by
  have hstart : range.start = start := h.chained.1
  have hlow := h.le
  have h64 : u64 (range.start + range.length) < 2 ^ 64 := Nat.mod_lt _ (by norm_num)
  have hone : ∀ j ∈ List.range n, (r.concatSubmitRwRequest ⟨.write, off + j, 1⟩).flatMap Child.blocks =
      [(i, u64 ((r.child i (sub64 off range.start) n).offsetBlocks + j))] := by
    intro j hj
    have hj := List.mem_range.mp hj
    rw [concatSubmitRwRequest, h.found (show off ≤ off + j by omega) (by omega)]
    dsimp only
    rw [sub64_of_le (by omega) (by omega), sub64_of_le (by omega) (by omega), List.flatMap_singleton]
    simp only [Child.blocks, RaidBdev.child, List.range_one, List.map_cons, List.map_nil, u64, Nat.add_zero,
      Nat.mod_add_mod]
    rw [Nat.add_assoc, show off + j - range.start = off - range.start + j by omega]
  calc (r.child i (sub64 off range.start) n).blocks
      = (List.range n).flatMap fun j => [(i, u64 ((r.child i (sub64 off range.start) n).offsetBlocks + j))] :=
        List.map_eq_flatMap
    _ = (List.range n).flatMap fun j => (r.concatSubmitRwRequest ⟨.write, off + j, 1⟩).flatMap Child.blocks :=
        List.flatMap_congr fun j hj => (hone j hj).symm
    _ = (List.range' off n).flatMap fun b => (r.concatSubmitRwRequest ⟨.write, b, 1⟩).flatMap Child.blocks := by
        rw [List.range'_eq_map_range, List.flatMap_map]

/-- What the two loops compute from a slot on. -/
structure LoopsCover (r : RaidBdev) (off n : Nat) (first : Option Nat) (i stop : Nat)
    (ranges : List ConcatBlockRange) : Prop where
  span : concatSpan off n first i ranges = (first.or (some i), some stop)
  le : i ≤ stop
  spanAsserts : concatSpanAsserts off n first i ranges = true
  childrenAsserts : concatChildrenAsserts stop off n i ranges = true
  nonempty : ∀ c ∈ r.concatChildren stop off n i ranges, 0 < c.numBlocks
  covers : (r.concatChildren stop off n i ranges).flatMap Child.blocks = (List.range' off n).flatMap fun b =>
    (r.concatSubmitRwRequest ⟨.write, b, 1⟩).flatMap Child.blocks

/-- Both loops go through the same members where none of them is in the way: induction over the
    members, each entered at its start once the first one fixed `start_idx`. -/
theorem AtSlot.loops {o m : Nat} (ranges : List ConcatBlockRange) : ∀ (first : Option Nat) (start off n i : Nat),
    AtSlot r start off i ranges → 0 < n → off + n = o + m → o ≤ off → o + m ≤ r.blockcnt → r.blockcnt < 2 ^ 64 →
    Passable o m ranges → (∀ range, ranges.head? = some range → off < u64 (range.start + range.length)) →
    (first = none ∨ off = start) → ∃ stop, LoopsCover r off n first i stop ranges := by
  induction ranges with
  | nil =>
    intro first start off n i h hn hend _ hcnt _ _ _ _
    have hstop : r.blockcnt = start := h.chained
    have := h.le
    omega
  | cons range ranges ih =>
    intro first start off n i h hn hend ho hcnt h64 hpass hhead hfirst
    have hlt := hhead range rfl
    have hstart : range.start = start := h.chained.1
    have hlow := h.le
    obtain ⟨hu, hfit⟩ := end_of_lt (h.fits range (List.mem_cons_self ..)) (by omega) hlt
    have hlba : sub64 off range.start = off - range.start := sub64_of_le (by omega) (by omega)
    have havail : sub64 range.length (off - range.start) = range.start + range.length - off := by
      rw [sub64_of_le (by omega) (by omega)]
      omega
    obtain ⟨pd, hpd⟩ : ∃ pd, pd = min n (sub64 range.length (sub64 off range.start)) := ⟨_, rfl⟩
    have hpd' : pd = min n (range.start + range.length - off) := by rw [hpd, hlba, havail]
    have hpdn : sub64 n pd = n - pd := sub64_of_le (by omega) (by omega)
    have hoff' : u64 (off + pd) = off + pd := u64_of_lt (by omega)
    have hskip : ¬ u64 (range.start + range.length) ≤ off := by omega
    have hassert : (first.isNone || off == range.start) = true := by
      rcases hfirst with rfl | hf
      · rfl
      · rw [hstart, hf, beq_self_eq_true, Bool.or_true]
    have hchild := h.child_blocks (n := pd) (by omega)
    by_cases hleft : n - pd = 0
    · -- the range ends in this member
      obtain rfl : pd = n := by omega
      refine ⟨i, ?_, Nat.le_refl i, ?_, ?_, ?_, ?_⟩
      · rw [concatSpan, if_neg hskip]
        dsimp only
        rw [← hpd, hpdn, if_pos hleft]
      · rw [concatSpanAsserts, if_neg hskip]
        dsimp only
        rw [← hpd, hpdn, if_pos hleft, hassert]
        rfl
      · have hrest : concatChildrenAsserts i (u64 (off + pd)) (sub64 pd pd) (i + 1) ranges = true := by
          cases ranges with
          | nil => rfl
          | cons x xs => rw [concatChildrenAsserts, if_pos (Nat.lt_succ_self i)]
        rw [concatChildrenAsserts, if_neg (Nat.lt_irrefl i)]
        dsimp only
        rw [← hpd, hrest, decide_eq_true (show range.start ≤ off by omega), decide_eq_true hlt]
        rfl
      all_goals
        have hrest : r.concatChildren i (u64 (off + pd)) (sub64 pd pd) (i + 1) ranges = [] := by
          cases ranges with
          | nil => rfl
          | cons x xs => rw [concatChildren, if_pos (Nat.lt_succ_self i)]
        rw [concatChildren, if_neg (Nat.lt_irrefl i)]
        dsimp only
        rw [← hpd, hrest]
      · intro c hc
        rw [List.mem_singleton.mp hc]
        exact hn
      · rw [List.flatMap_singleton]
        exact hchild
    · -- the range goes on at the start of the next member
      have hpdend : off + pd = u64 (range.start + range.length) := by omega
      have hnext := h.next (off + pd) (by omega) (by omega)
      have hpass' := hpass.2 (by omega)
      obtain ⟨stop, hcov⟩ := ih (first.or (some i)) _ (off + pd) (n - pd) (i + 1) hnext (by omega) (by omega)
        (by omega) hcnt h64 hpass'
        (by
          intro next hn'
          cases ranges with
          | nil => cases hn'
          | cons x xs =>
            obtain rfl := Option.some.inj hn'
            have hx := hnext.chained.1
            obtain ⟨h1, h2⟩ := hpass'.1 (by omega)
            rw [u64_of_lt h2]
            omega)
        (.inr hpdend)
      have hlei : ¬ stop < i := by have := hcov.le; omega
      refine ⟨stop, ?_, by omega, ?_, ?_, ?_, ?_⟩
      · rw [concatSpan, if_neg hskip]
        dsimp only
        rw [← hpd, hpdn, if_neg hleft, hoff', hcov.span, Option.or_assoc]
        rfl
      · rw [concatSpanAsserts, if_neg hskip]
        dsimp only
        rw [← hpd, hpdn, if_neg hleft, hoff', hcov.spanAsserts, hassert]
        rfl
      · rw [concatChildrenAsserts, if_neg hlei]
        dsimp only
        rw [← hpd, hpdn, hoff', hcov.childrenAsserts, decide_eq_true (show range.start ≤ off by omega),
          decide_eq_true hlt]
        rfl
      all_goals
        rw [concatChildren, if_neg hlei]
        dsimp only
        rw [← hpd, hpdn, hoff']
      · intro c hc
        rcases List.mem_cons.mp hc with rfl | hc
        · show 0 < pd
          omega
        · exact hcov.nonempty c hc
      · rw [List.flatMap_cons, hcov.covers, hchild, ← List.flatMap_append, List.range'_append_1,
          Nat.add_sub_cancel' (by omega)]

/-- The first loop stops no earlier than where it is. -/
theorem concatSpan_le {s : Option Nat} {t : Nat} (ranges : List ConcatBlockRange) :
    ∀ (first : Option Nat) (off n i : Nat), concatSpan off n first i ranges = (s, some t) → i ≤ t := by
  induction ranges with
  | nil =>
    intro first off n i h
    cases h
  | cons range ranges ih =>
    intro first off n i h
    by_cases hpast : u64 (range.start + range.length) ≤ off
    · rw [concatSpan, if_pos hpast] at h
      exact Nat.le_of_succ_le (ih _ _ _ _ h)
    · obtain ⟨off', left, heq⟩ :=
        (concatSpan_cons hpast : ∃ off' left, concatSpan off n first i (range :: ranges) = _)
      rw [heq] at h
      split at h
      · exact Nat.le_of_eq (Option.some.inj (Prod.mk.inj h).2)
      · exact Nat.le_of_succ_le (ih _ _ _ _ h)

/-- Where no assertion of the second loop fails, no member is in the way. -/
theorem AtSlot.passable {o m t : Nat} {s : Option Nat} (ranges : List ConcatBlockRange) :
    ∀ (first : Option Nat) (start off n i : Nat),
    AtSlot r start off i ranges → 0 < n → off + n = o + m → o ≤ off → o + m < 2 ^ 64 →
    (∀ range, ranges.head? = some range → off < u64 (range.start + range.length)) →
    concatSpan off n first i ranges = (s, some t) → concatChildrenAsserts t off n i ranges = true →
    Passable o m ranges := by
  induction ranges with
  | nil =>
    intros
    trivial
  | cons range ranges ih =>
    intro first start off n i h hn hend ho h64 hhead hspan hasserts
    have hlt := hhead range rfl
    have hstart : range.start = start := h.chained.1
    have hlow := h.le
    obtain ⟨hu, hfit⟩ := end_of_lt (h.fits range (List.mem_cons_self ..)) (by omega) hlt
    have hlba : sub64 off range.start = off - range.start := sub64_of_le (by omega) (by omega)
    have havail : sub64 range.length (off - range.start) = range.start + range.length - off := by
      rw [sub64_of_le (by omega) (by omega)]
      omega
    have hle := concatSpan_le _ _ _ _ _ hspan
    obtain ⟨pd, hpd⟩ : ∃ pd, pd = min n (sub64 range.length (sub64 off range.start)) := ⟨_, rfl⟩
    have hpd' : pd = min n (range.start + range.length - off) := by rw [hpd, hlba, havail]
    have hpdn : sub64 n pd = n - pd := sub64_of_le (by omega) (by omega)
    have hoff' : u64 (off + pd) = off + pd := u64_of_lt (by omega)
    rw [concatSpan, if_neg (by omega)] at hspan
    rw [concatChildrenAsserts, if_neg (by omega)] at hasserts
    dsimp only at hspan hasserts
    rw [← hpd, hpdn, hoff'] at hspan hasserts
    refine ⟨fun _ => ⟨by omega, hfit⟩, fun hmore => ?_⟩
    rw [if_neg (by omega)] at hspan
    have hrest := (Bool.and_eq_true_iff.mp hasserts).2
    have hnext := h.next (off + pd) (by omega) (by omega)
    refine ih _ _ _ _ _ hnext (by omega) (by omega) (by omega) h64 ?_ hspan hrest
    -- the assertion at the next member
    intro next hnext
    cases ranges with
    | nil => cases hnext
    | cons x xs =>
      obtain rfl := Option.some.inj hnext
      have hle' := concatSpan_le _ _ _ _ _ hspan
      rw [concatChildrenAsserts, if_neg (by omega)] at hrest
      dsimp only at hrest
      rw [Bool.and_eq_true, Bool.and_eq_true] at hrest
      exact of_decide_eq_true hrest.1.2

/-- The members before the one that holds the first block make no difference. -/
theorem AtSlot.entered {o m : Nat} (ranges : List ConcatBlockRange) : ∀ start i : Nat,
    AtSlot r start o i ranges → 0 < m → o + m ≤ r.blockcnt →
    ∃ k range rest, AtSlot r range.start o k (range :: rest) ∧ o < u64 (range.start + range.length) ∧
      concatSpan o m none i ranges = concatSpan o m none k (range :: rest) ∧
      concatSpanAsserts o m none i ranges = concatSpanAsserts o m none k (range :: rest) ∧
      (Passable o m ranges ↔ Passable o m (range :: rest)) := by
  induction ranges with
  | nil =>
    intro start i h hm hcnt
    have hstop : r.blockcnt = start := h.chained
    have := h.le
    omega
  | cons range ranges ih =>
    intro start i h hm hcnt
    have hstart : range.start = start := h.chained.1
    have hlow := h.le
    by_cases hpast : u64 (range.start + range.length) ≤ o
    · obtain ⟨k, found, rest, hat, hlt, hspan, hasserts, hpass⟩ :=
        ih _ (i + 1) (h.next o (Nat.le_refl o) hpast) hm hcnt
      refine ⟨k, found, rest, hat, hlt, ?_, ?_, ?_⟩
      · rw [concatSpan, if_pos hpast, hspan]
      · rw [concatSpanAsserts, if_pos hpast, hasserts]
      · rw [← hpass, Passable]
        exact ⟨fun hp => hp.2 (by omega), fun hp => ⟨fun hc => absurd hc (by omega), fun _ => hp⟩⟩
    · exact ⟨i, range, ranges, hstart ▸ h, Nat.lt_of_not_le hpast, rfl, rfl, Iff.rfl⟩

/-- The ranges `concat_start` leaves behind, from the first slot on. -/
theorem atSlot_concatStart (hsize : ∀ info ∈ r.baseBdevInfo, info.dataSize < 2 ^ 64) (o : Nat) :
    AtSlot r.concatStart 0 o 0 r.concatStart.blockRange := by
  obtain ⟨hchained, hlengths⟩ := concatRanges_chained r.baseBdevInfo 0
  refine ⟨rfl, hchained, Nat.zero_le o, ?_, none, fun b _ => (Option.or_none ..).symm⟩
  intro range hr
  have hmem : range.length ∈ (r.concatRanges 0 r.baseBdevInfo).1.map (·.length) := List.mem_map_of_mem hr
  rw [hlengths] at hmem
  obtain ⟨info, hinfo, hlen⟩ := List.mem_map.mp hmem
  rw [← hlen]
  exact Nat.lt_of_le_of_lt (wholeStrips_le _) (hsize info hinfo)

/-- Without a wrap, every member starts at or behind the first of them. -/
theorem Chained.start_le (ranges : List ConcatBlockRange) : ∀ start : Nat, Chained start ranges stop →
    start + (ranges.map (·.length)).sum < 2 ^ 64 → ∀ range ∈ ranges, start ≤ range.start := by
  induction ranges with
  | nil =>
    intro start _ _ range hr
    cases hr
  | cons x ranges ih =>
    intro start hc hsum range hr
    obtain ⟨hstart, hrest⟩ := hc
    rw [List.map_cons, List.sum_cons] at hsum
    rw [u64_of_lt (by omega)] at hrest
    rcases List.mem_cons.mp hr with rfl | hr
    · omega
    · have := ih _ hrest (by omega) range hr
      omega

/-- In an array whose size fits in 64 bits only empty members strictly inside the range are in the
    way. -/
theorem passable_iff {o m : Nat} (ranges : List ConcatBlockRange) : ∀ start : Nat, Chained start ranges stop →
    start + (ranges.map (·.length)).sum < 2 ^ 64 → start < o + m →
    (Passable o m ranges ↔ ∀ range ∈ ranges, o < range.start → range.start < o + m → 0 < range.length) := by
  induction ranges with
  | nil =>
    intro start _ _ _
    exact ⟨fun _ range hr => (nomatch hr), fun _ => trivial⟩
  | cons x ranges ih =>
    intro start hc hsum hlt
    have hle := hc.start_le _ _ hsum
    obtain ⟨hstart, hrest⟩ := hc
    rw [List.map_cons, List.sum_cons] at hsum
    have hu : u64 (x.start + x.length) = start + x.length := by rw [hstart, u64_of_lt (by omega)]
    rw [u64_of_lt (by omega)] at hrest
    rw [Passable, List.forall_mem_cons, hu]
    constructor
    · intro h
      refine ⟨fun ho _ => (h.1 ho).1, fun range hr ho hlt' => ?_⟩
      have hafter := hrest.start_le _ _ (by omega) range hr
      exact (ih _ hrest (by omega) (by omega)).mp (h.2 (by omega)) range hr ho hlt'
    · intro h
      refine ⟨fun ho => ⟨h.1 ho (by omega), by omega⟩, fun hmore => ?_⟩
      exact (ih _ hrest (by omega) hmore).mpr h.2

/-- The range split of concat covers a request inside the array exactly if no member is in its way:
    the assertions hold, no child is empty, and the children, however often the request is resumed,
    address what reads and writes of its blocks address. -/
theorem concat_ranges_cover (hsize : ∀ info ∈ r.baseBdevInfo, info.dataSize < 2 ^ 64)
    (hpos : 1 ≤ io.numBlocks) (hend : io.offsetBlocks + io.numBlocks ≤ r.concatStart.blockcnt) :
    ConcatCovers r.concatStart io ↔ Passable io.offsetBlocks io.numBlocks r.concatStart.blockRange := by
  have h64 : r.concatStart.blockcnt < 2 ^ 64 :=
    chained_lt _ _ (concatRanges_chained r.baseBdevInfo 0).1 (by norm_num)
  obtain ⟨k, range, rest, hat, hlt, hspan, hasserts, hpass⟩ :=
    (atSlot_concatStart hsize io.offsetBlocks).entered _ _ _ hpos hend
  have hhead : ∀ x, (range :: rest).head? = some x → io.offsetBlocks < u64 (x.start + x.length) := by
    intro x hx
    obtain rfl := Option.some.inj hx
    exact hlt
  rw [hpass]
  constructor
  · intro h
    have hok := h.asserts
    unfold concatAsserts at hok
    rw [hspan] at hok
    split at hok
    next startIdx stopIdx heq =>
      have hfst : startIdx = k := by
        obtain ⟨off', left, h'⟩ := (concatSpan_cons (Nat.not_le.mpr hlt) :
          ∃ off' left, concatSpan io.offsetBlocks io.numBlocks none k (range :: rest) = _)
        rw [heq] at h'
        have := congrArg Prod.fst h'
        split at this
        · exact Option.some.inj this
        · rw [Option.none_or, concatSpan_start] at this
          exact Option.some.inj this
      rw [hfst, ← hat.drop] at hok
      exact hat.passable _ none _ _ _ _ hpos rfl (Nat.le_refl _) (by omega) hhead heq
        (Bool.and_eq_true_iff.mp hok).2
    next => cases hok
  · intro h
    obtain ⟨stop, hcov⟩ := hat.loops _ none _ _ _ _ hpos rfl (Nat.le_refl _) hend h64 h hhead (.inl rfl)
    have hfull : concatSpan io.offsetBlocks io.numBlocks none 0 r.concatStart.blockRange = (some k, some stop) :=
      hspan.trans hcov.span
    have hall : r.concatStart.concatSubmitNullPayloadRequest 0 io =
        r.concatStart.concatChildren stop io.offsetBlocks io.numBlocks k (range :: rest) := by
      unfold concatSubmitNullPayloadRequest
      rw [hfull]
      dsimp only
      rw [← hat.drop, List.drop_zero]
    refine ⟨?_, ?_, ?_⟩
    · unfold concatAsserts
      rw [hfull]
      dsimp only
      rw [← hat.drop, hasserts, hcov.spanAsserts, hcov.childrenAsserts]
      rfl
    · intro calls c hc
      rw [concatSubmitted_eq, List.drop_zero, hall] at hc
      exact hcov.nonempty c hc
    · intro calls
      rw [concatSubmitted_eq, List.drop_zero, hall, hcov.covers]

end concat

/-- Three members of eight, three and eight blocks in strips of four: nothing of the second one is
    used. -/
def gapArray : RaidBdev :=
  { laidOut smallBdevs 64 3 .concat false with
    stripSize := 4, stripSizeShift := 2, baseBdevInfo := [{ dataSize := 8 }, { dataSize := 3 }, { dataSize := 8 }] }

/-- Three members of eight, four and eight blocks in such strips. -/
def fullArray : RaidBdev :=
  { gapArray with baseBdevInfo := [{ dataSize := 8 }, { dataSize := 4 }, { dataSize := 8 }] }

/-- A range that takes the whole second member and blocks of both its neighbours. -/
theorem concat_ranges_cover_across : ConcatCovers fullArray.concatStart ⟨.unmap, 4, 13⟩ :=
  (concat_ranges_cover (r := fullArray) (by decide) (by decide) (by decide)).mpr (by decide)

/-- An unmap of the blocks 4 to 11 submits a child of no blocks to the second member, after an
    assertion that fails. -/
theorem concat_empty_child :
    gapArray.concatStart.concatSubmitNullPayloadRequest 0 ⟨.unmap, 4, 8⟩ = [⟨0, 4, 4⟩, ⟨1, 0, 0⟩, ⟨2, 0, 4⟩] ∧
    gapArray.concatStart.concatAsserts ⟨.unmap, 4, 8⟩ = false ∧
    ¬∀ (r : RaidBdev) (io : RaidIo), Striped r → (∀ info ∈ r.baseBdevInfo, info.dataSize < 2 ^ 64) →
      1 ≤ io.numBlocks → io.offsetBlocks + io.numBlocks ≤ r.concatStart.blockcnt → ConcatCovers r.concatStart io := by
  refine ⟨by decide +kernel, by decide, fun h => ?_⟩
  have := (h gapArray ⟨.unmap, 4, 8⟩ ⟨rfl, by decide⟩ (by decide) (by decide) (by decide)).asserts
  revert this
  decide

end FlexBSO.Raid

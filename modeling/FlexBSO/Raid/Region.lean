import FlexBSO.Raid.Shape
import FlexBSO.Lib.Stripe

/- Region containment: where the children of a request land. Each level's mapping
   stays inside the data regions, also where 64-bit sums of absurdly large base
   bdevs wrap. raid5f alone can leave them: a chunk index is shifted as an `int`,
   and `ShiftFits` is what keeps the shifted value below its sign bit. The regions
   stay inside the base bdevs unless a base bdev that ends before its data region
   begins was taken all the same; `OffsetsFit` leaves those out. -/
namespace FlexBSO.Raid

open RaidBdev Lib

/-- A child I/O stays inside the data region of its slot. -/
def Contained (r : RaidBdev) (c : Child) : Prop :=
  c.slot < r.numBaseBdevs ∧
  ∀ x, c.offsetBlocks ≤ x → x < c.offsetBlocks + c.numBlocks →
    (r.info c.slot).dataOffset ≤ x ∧ x < (r.info c.slot).dataOffset + (r.info c.slot).dataSize

section contained
variable {bdevs : Nat → Bdev} {r : RaidBdev}

theorem info_mem {i : Nat} (h : i < r.numBaseBdevs) : r.info i ∈ r.baseBdevInfo := by
  unfold RaidBdev.info
  rw [List.getD_eq_getElem?_getD, List.getElem?_eq_getElem h]
  exact List.getElem_mem _

/-- A child that stays inside the slot's data, before `data_offset` is added, is contained. -/
theorem Sound.child_contained (h : Sound bdevs r) {i off n : Nat} (hi : i < r.numBaseBdevs)
    (hle : n ≠ 0 → off + n ≤ (r.info i).dataSize) : Contained r (r.child i off n) := by
  refine ⟨hi, fun x hx1 hx2 => ?_⟩
  have hfit := h.regions _ (info_mem hi)
  have hlt := (bdevs ((r.info i).desc.getD 0)).blockcnt_lt
  simp only [RaidBdev.child] at hx1 hx2 ⊢
  have hn : n ≠ 0 := by omega
  have hle := hle hn
  rw [u64_of_lt (by omega)] at hx1 hx2
  omega

theorem Sound.dataSize_lt (h : Sound bdevs r) {i : Nat} (hi : i < r.numBaseBdevs) :
    (r.info i).dataSize < 2 ^ 64 := by
  have h1 := h.regions _ (info_mem hi)
  have h2 := (bdevs ((r.info i).desc.getD 0)).blockcnt_lt
  omega

theorem chained_lt {stop : Nat} : ∀ (ranges : List ConcatBlockRange) (start : Nat),
    Chained start ranges stop → start < 2 ^ 64 → stop < 2 ^ 64
  | [], start, hc, hs => by
    rw [Chained] at hc
    omega
  | range :: ranges, _, hc, _ => chained_lt ranges _ hc.2 (Nat.mod_lt _ (by norm_num))

theorem Sound.blockcnt_lt (h : Sound bdevs r) : r.blockcnt < 2 ^ 64 := by
  have hshape := h.shape
  unfold Shape at hshape
  cases hl : r.level <;> rw [hl] at hshape <;> simp only [] at hshape
  · obtain ⟨-, q, -, hcnt⟩ := hshape
    rw [hcnt]
    exact Nat.mod_lt _ (by norm_num)
  · have hmin := h.base_bdevs_min
    rw [hl] at hmin
    have hn : 0 < r.numBaseBdevs := Nat.lt_of_lt_of_le (by decide) hmin
    rw [← hshape _ (info_mem hn)]
    exact h.dataSize_lt hn
  · obtain ⟨-, -, -, -, -, t, -, -, hcnt⟩ := hshape
    rw [hcnt]
    exact Nat.mod_lt _ (by norm_num)
  · obtain ⟨-, -, -, -, hc, -⟩ := hshape
    exact chained_lt _ _ hc (by norm_num)

/-! ## raid0 -/

/-- A range that starts and ends in one strip holds no more than the rest of it. -/
theorem same_strip {o n strip : Nat} (hs : 0 < strip) (hn : 0 < n) (h : o / strip = (o + n - 1) / strip) :
    o % strip + n ≤ strip := by
  have h1 := Nat.div_add_mod o strip
  have h2 := Nat.div_add_mod (o + n - 1) strip
  have h3 := Nat.mod_lt (o + n - 1) hs
  rw [← h] at h2
  omega

theorem Sound.raid0_rw (h : Sound bdevs r) (hl : r.level = .raid0) {io : RaidIo} (ha : r.Admits io) :
    ∀ c ∈ r.raid0SubmitRwRequest io, Contained r c := by
  obtain ⟨hpos, hend, -, -⟩ := ha
  have hmin := h.base_bdevs_min
  have hshape := h.shape
  unfold Shape at hshape
  rw [hl] at hmin hshape
  obtain ⟨hs, q, hu, hcnt⟩ := hshape
  have hn : 1 ≤ r.numBaseBdevs := hmin
  have hstrip : 0 < r.stripSize := by rw [hs.strip_size]; exact Nat.two_pow_pos _
  have hcnt' : io.offsetBlocks + io.numBlocks ≤ q * r.stripSize * r.numBaseBdevs := by
    rw [hcnt] at hend
    exact Nat.le_trans hend (u64_le _)
  have hcnt64 := h.blockcnt_lt
  intro c hc
  unfold raid0SubmitRwRequest at hc
  simp only [] at hc
  split at hc
  · cases hc
  next hsame =>
  rw [List.mem_singleton] at hc
  subst hc
  rw [sub64_of_le (by omega) (by omega)] at hsame
  simp only [Nat.shiftRight_eq_div_pow, Nat.shiftLeft_eq, ← hs.strip_size] at hsame ⊢
  rw [show io.offsetBlocks &&& (r.stripSize - 1) = io.offsetBlocks % r.stripSize by
    rw [hs.strip_size, Nat.and_two_pow_sub_one_eq_mod]]
  have hdisk : io.offsetBlocks / r.stripSize % r.numBaseBdevs < r.numBaseBdevs := Nat.mod_lt _ hn
  refine h.child_contained hdisk fun _ => ?_
  have hq := h.dataSize_lt hdisk
  rw [hu _ (info_mem hdisk)] at hq ⊢
  have hstrips : io.offsetBlocks / r.stripSize / r.numBaseBdevs < q := by
    rw [Nat.div_div_eq_div_mul]
    apply Nat.div_lt_of_lt_mul
    calc io.offsetBlocks < q * r.stripSize * r.numBaseBdevs := by omega
      _ = r.stripSize * r.numBaseBdevs * q := by ring
  have hle : (io.offsetBlocks / r.stripSize / r.numBaseBdevs + 1) * r.stripSize ≤ q * r.stripSize :=
    Nat.mul_le_mul_right _ hstrips
  have hmod := Nat.mod_lt io.offsetBlocks hstrip
  rw [Nat.add_mul, Nat.one_mul] at hle
  rw [u64_of_lt (n := io.offsetBlocks / r.stripSize / r.numBaseBdevs * r.stripSize) (by omega), u64_of_lt (by omega)]
  by_cases h1 : 1 < r.numBaseBdevs
  · have heq : io.offsetBlocks / r.stripSize = (io.offsetBlocks + io.numBlocks - 1) / r.stripSize := by
      by_contra hne
      exact hsame ⟨hne, h1⟩
    have := same_strip hstrip hpos heq
    omega
  · have hone : r.numBaseBdevs = 1 := by omega
    rw [hone, Nat.mul_one] at hcnt'
    rw [hone, Nat.div_one]
    have := Nat.div_add_mod io.offsetBlocks r.stripSize
    rw [Nat.mul_comm] at this
    omega

/-- `_raid0_get_io_range` of a range that does not reach past 64 bits -/
theorem raid0GetIoRange_eq (hs : Striped r) (hn : 0 < r.numBaseBdevs) (hn' : r.numBaseBdevs ≤ 255) {o n : Nat}
    (hpos : 0 < n) (h64 : o + n < 2 ^ 64) :
    r.raid0GetIoRange o n = {
      stripSize := r.stripSize
      startStripInDisk := o / r.stripSize / r.numBaseBdevs
      endStripInDisk := (o + n - 1) / r.stripSize / r.numBaseBdevs
      startOffsetInStrip := o % r.stripSize
      endOffsetInStrip := (o + n - 1) % r.stripSize
      startDisk := o / r.stripSize % r.numBaseBdevs
      endDisk := (o + n - 1) / r.stripSize % r.numBaseBdevs
      nDisksInvolved := min ((o + n - 1) / r.stripSize - o / r.stripSize + 1) r.numBaseBdevs } := by
  have hle : o / r.stripSize ≤ (o + n - 1) / r.stripSize := Nat.div_le_div_right (by omega)
  have hlt : (o + n - 1) / r.stripSize ≤ o + n - 1 := Nat.div_le_self _ _
  unfold raid0GetIoRange
  rw [if_pos hpos, sub64_of_le (by omega) (by omega)]
  simp only [Nat.shiftRight_eq_div_pow, ← hs.strip_size]
  rw [sub64_of_le hle (by omega)]
  have hspan : (o + n - 1) / r.stripSize ≤ o / r.stripSize + (n - 1) := by
    have hS : 0 < r.stripSize := by rw [hs.strip_size]; exact Nat.two_pow_pos _
    apply Nat.le_of_lt_succ
    apply Nat.div_lt_of_lt_mul
    have h1 := Nat.div_add_mod o r.stripSize
    have h2 := Nat.mod_lt o hS
    have h3 : n - 1 ≤ r.stripSize * (n - 1) := Nat.le_mul_of_pos_left _ hS
    rw [Nat.mul_succ, Nat.mul_add]
    omega
  rw [u64_of_lt (by omega)]
  congr 1
  exact Nat.mod_eq_of_lt (by omega)

/-- `_raid0_split_io_range` on the disk of the `k`-th strip of a range: its strips, and its blocks
    from the first one to the last. -/
theorem raid0Split_spec (hs : Striped r) (hn : 0 < r.numBaseBdevs) (hn' : r.numBaseBdevs ≤ 255) {o n k : Nat}
    (hpos : 0 < n) (h64 : o + n < 2 ^ 64) (hk : k < (r.raid0GetIoRange o n).nDisksInvolved) :
    let d := (o / r.stripSize + k) % r.numBaseBdevs
    ∃ first last,
      Dealt r.numBaseBdevs (o / r.stripSize) ((o + n - 1) / r.stripSize) d first last ∧
      ((r.raid0GetIoRange o n).endDisk < d → 1 ≤ (r.raid0GetIoRange o n).endStripInDisk) ∧
      raid0StripsInDisk (r.raid0GetIoRange o n) d = (first, last) ∧ first ≤ last ∧
      first * r.stripSize + startOffset r.stripSize r.numBaseBdevs o d ≤
        last * r.stripSize + endOffset r.stripSize r.numBaseBdevs (o + n - 1) d ∧
      raid0SplitIoRange (r.raid0GetIoRange o n) d =
        (first * r.stripSize + startOffset r.stripSize r.numBaseBdevs o d,
         last * r.stripSize + endOffset r.stripSize r.numBaseBdevs (o + n - 1) d + 1 -
           (first * r.stripSize + startOffset r.stripSize r.numBaseBdevs o d)) := by
  intro d
  have hS : 0 < r.stripSize := by rw [hs.strip_size]; exact Nat.two_pow_pos _
  rw [raid0GetIoRange_eq hs hn hn' hpos h64] at hk ⊢
  simp only [Nat.lt_min] at hk
  have hle : o / r.stripSize ≤ (o + n - 1) / r.stripSize := Nat.div_le_div_right (by omega)
  have hab : o / r.stripSize + k ≤ (o + n - 1) / r.stripSize := by omega
  obtain ⟨hdealt, hback⟩ := Dealt.of_strip hk.2 hab
  -- a block of the range on this disk: the first one of the range or of its `k`-th strip
  obtain ⟨b, hb, hb', hbd⟩ : ∃ b, o ≤ b ∧ b ≤ o + n - 1 ∧ b / r.stripSize = o / r.stripSize + k := by
    have hmul := Nat.mul_le_mul_right r.stripSize hab
    have hend := Nat.div_add_mod' (o + n - 1) r.stripSize
    have hstart := Nat.div_add_mod' o r.stripSize
    have hmod := Nat.mod_lt o hS
    rcases Nat.eq_zero_or_pos k with rfl | hk0
    · exact ⟨o, Nat.le_refl _, by omega, rfl⟩
    · refine ⟨(o / r.stripSize + k) * r.stripSize, ?_, by omega, Nat.mul_div_cancel _ hS⟩
      have := Nat.mul_le_mul_right r.stripSize (show o / r.stripSize + 1 ≤ o / r.stripSize + k by omega)
      rw [Nat.add_mul _ 1, Nat.one_mul] at this
      omega
  have hord := hdealt.start_le_end hS hb hb' (by rw [hbd])
  have hend := hdealt.end_le hS
  have hstrips : raid0StripsInDisk
      { stripSize := r.stripSize
        startStripInDisk := o / r.stripSize / r.numBaseBdevs
        endStripInDisk := (o + n - 1) / r.stripSize / r.numBaseBdevs
        startOffsetInStrip := o % r.stripSize
        endOffsetInStrip := (o + n - 1) % r.stripSize
        startDisk := o / r.stripSize % r.numBaseBdevs
        endDisk := (o + n - 1) / r.stripSize % r.numBaseBdevs
        nDisksInvolved := min ((o + n - 1) / r.stripSize - o / r.stripSize + 1) r.numBaseBdevs } d =
      (if d < o / r.stripSize % r.numBaseBdevs then o / r.stripSize / r.numBaseBdevs + 1
        else o / r.stripSize / r.numBaseBdevs,
       if (o + n - 1) / r.stripSize % r.numBaseBdevs < d then (o + n - 1) / r.stripSize / r.numBaseBdevs - 1
        else (o + n - 1) / r.stripSize / r.numBaseBdevs) := by
    have h1 : o / r.stripSize / r.numBaseBdevs ≤ o :=
      Nat.le_trans (Nat.div_le_self _ _) (Nat.div_le_self _ _)
    have h2 : (o + n - 1) / r.stripSize / r.numBaseBdevs ≤ o + n - 1 :=
      Nat.le_trans (Nat.div_le_self _ _) (Nat.div_le_self _ _)
    unfold raid0StripsInDisk
    dsimp only
    rw [u64_of_lt (by omega)]
    refine congrArg (Prod.mk _) ?_
    split
    · exact sub64_of_le (hback ‹_›) (by omega)
    · rfl
  refine ⟨_, _, hdealt, hback, hstrips, ?_, hord, ?_⟩
  · exact hdealt.first_le_last (p := (o / r.stripSize + k) / r.numBaseBdevs)
      (by rw [Nat.div_add_mod']; omega) (by rw [Nat.div_add_mod']; exact hab)
  · have hfst := congrArg Prod.fst hstrips
    have hsnd := congrArg Prod.snd hstrips
    unfold raid0StripsInDisk at hfst hsnd
    dsimp only at hfst hsnd
    have hfl := hdealt.first_le_last (p := (o / r.stripSize + k) / r.numBaseBdevs)
      (by rw [Nat.div_add_mod']; omega) (by rw [Nat.div_add_mod']; exact hab)
    unfold raid0SplitIoRange
    simp only [hfst, hsnd]
    generalize (if d < o / r.stripSize % r.numBaseBdevs then o / r.stripSize / r.numBaseBdevs + 1
      else o / r.stripSize / r.numBaseBdevs) = first at *
    generalize (if (o + n - 1) / r.stripSize % r.numBaseBdevs < d then
      (o + n - 1) / r.stripSize / r.numBaseBdevs - 1 else (o + n - 1) / r.stripSize / r.numBaseBdevs) = last at *
    have hso : (if d = o / r.stripSize % r.numBaseBdevs then o % r.stripSize else 0) =
        startOffset r.stripSize r.numBaseBdevs o d := rfl
    have heo : (if d = (o + n - 1) / r.stripSize % r.numBaseBdevs then (o + n - 1) % r.stripSize
        else r.stripSize - 1) = endOffset r.stripSize r.numBaseBdevs (o + n - 1) d := rfl
    rw [hso, heo]
    have hlt := startOffset_lt (n := r.numBaseBdevs) (o := o) (d := d) hS
    have hspan : (last - first) * r.stripSize + first * r.stripSize = last * r.stripSize := by
      rw [← Nat.add_mul, Nat.sub_add_cancel hfl]
    have hlast : last ≤ last * r.stripSize := Nat.le_mul_of_pos_right last hS
    generalize startOffset r.stripSize r.numBaseBdevs o d = so at *
    generalize endOffset r.stripSize r.numBaseBdevs (o + n - 1) d = eo at *
    rw [sub64_of_le hfl (by omega), u64_of_lt (n := last - first + 1) (by omega),
      sub64_of_le (a := last - first + 1) (b := 1) (by omega) (by omega), Nat.add_sub_cancel,
      u64_of_lt (n := (last - first) * r.stripSize + eo) (by omega), sub64_of_le (by omega) (by omega),
      u64_of_lt (n := so + first * r.stripSize) (by omega), u64_of_lt (by omega)]
    exact Prod.ext (by omega) (by omega)

/-- A child of `raid0_submit_null_payload_request` ends inside the whole strips of its disk. -/
theorem raid0NullPayloadChild_end (hs : Striped r) (hn : 0 < r.numBaseBdevs) (hn' : r.numBaseBdevs ≤ 255)
    {o n k q : Nat} (hpos : 0 < n) (h64 : o + n < 2 ^ 64) (hend : o + n ≤ q * r.stripSize * r.numBaseBdevs)
    (hk : k < (r.raid0GetIoRange o n).nDisksInvolved) :
    ∃ off len, r.raid0NullPayloadChild (r.raid0GetIoRange o n) k =
      r.child ((o / r.stripSize + k) % r.numBaseBdevs) off len ∧ off + len ≤ q * r.stripSize := by
  have hS : 0 < r.stripSize := by rw [hs.strip_size]; exact Nat.two_pow_pos _
  obtain ⟨first, last, hdealt, -, -, -, hord, hsplit⟩ := raid0Split_spec hs hn hn' hpos h64 hk
  have hdisk : u8 (((r.raid0GetIoRange o n).startDisk + k) % r.numBaseBdevs) =
      (o / r.stripSize + k) % r.numBaseBdevs := by
    rw [raid0GetIoRange_eq hs hn hn' hpos h64]
    dsimp only
    rw [Nat.mod_add_mod]
    exact Nat.mod_eq_of_lt (by have := Nat.mod_lt (o / r.stripSize + k) hn; omega)
  unfold raid0NullPayloadChild
  simp only [hdisk, hsplit]
  refine ⟨_, _, rfl, ?_⟩
  -- the last strip of the disk lies below its `q` strips
  have hlast : last < q := by
    have hbq : (o + n - 1) / r.stripSize < q * r.numBaseBdevs := by
      apply Nat.div_lt_of_lt_mul
      calc o + n - 1 < q * r.stripSize * r.numBaseBdevs := by omega
        _ = r.stripSize * (q * r.numBaseBdevs) := by ring
    by_contra hc
    have := Nat.mul_le_mul_right r.numBaseBdevs (Nat.le_of_not_lt hc)
    have := hdealt.last_le
    omega
  have hlt := mul_add_lt hlast (endOffset_lt (n := r.numBaseBdevs) (e := o + n - 1)
    (d := (o / r.stripSize + k) % r.numBaseBdevs) hS)
  omega

theorem Sound.raid0_null_payload (h : Sound bdevs r) (hl : r.level = .raid0) (submitted : Nat) {io : RaidIo}
    (ha : r.Admits io) : ∀ c ∈ r.raid0SubmitNullPayloadRequest submitted io, Contained r c := by
  obtain ⟨hpos, hend, -, -⟩ := ha
  have hmin := h.base_bdevs_min
  have hshape := h.shape
  unfold Shape at hshape
  rw [hl] at hmin hshape
  obtain ⟨hs, q, hu, hcnt⟩ := hshape
  have hn : 0 < r.numBaseBdevs := hmin
  have hcnt64 := h.blockcnt_lt
  have hq := h.dataSize_lt hn
  rw [hu _ (info_mem hn)] at hq
  intro c hc
  obtain ⟨k, hk, rfl⟩ := List.mem_map.mp hc
  have hk' := List.mem_range'_1.mp hk
  obtain ⟨off, len, heq, hle⟩ := raid0NullPayloadChild_end hs hn h.num_base_bdevs_le (q := q) (k := k) hpos
    (Nat.lt_of_le_of_lt hend hcnt64) (Nat.le_trans (hcnt ▸ hend) (u64_le _)) (by omega)
  rw [heq]
  have hdisk := Nat.mod_lt (io.offsetBlocks / r.stripSize + k) hn
  refine h.child_contained hdisk fun _ => ?_
  rw [hu _ (info_mem hdisk)]
  exact hle

/-! ## concat -/

/-- The slot an offset falls in: ranges that follow one another from below the offset to above
    it have one that holds it. -/
theorem concatFind_spec {off stop : Nat} : ∀ (ranges : List ConcatBlockRange) (i start : Nat),
    Chained start ranges stop → start ≤ off → off < stop →
    ∃ k range, ranges[k]? = some range ∧ concatFind off i ranges = some (i + k, range) ∧
      range.start ≤ off ∧ off < range.start + range.length
  | [], i, start, hc, h1, h2 => by
    rw [Chained] at hc
    omega
  | range :: ranges, i, start, hc, h1, h2 => by
    obtain ⟨hstart, hrest⟩ := hc
    unfold concatFind
    rw [if_neg (show ¬ off < range.start by omega)]
    rcases Nat.lt_or_ge off (u64 (range.start + range.length)) with hlt | hge
    · -- nothing after this range starts below the offset
      refine ⟨0, range, rfl, ?_, by omega, Nat.lt_of_lt_of_le hlt (u64_le _)⟩
      have hnone : concatFind off (i + 1) ranges = none := by
        cases ranges with
        | nil => rfl
        | cons next ranges =>
          unfold concatFind
          rw [if_pos]
          rw [hrest.1, ← hstart]
          exact hlt
      rw [hnone]
      rfl
    · obtain ⟨k, found, hk, hf, h3, h4⟩ := concatFind_spec ranges (i + 1) _ hrest (by rwa [← hstart]) h2
      refine ⟨k + 1, found, hk, ?_, h3, h4⟩
      rw [hf, Option.some_or, show i + 1 + k = i + (k + 1) by omega]

/-- Chained ranges whose lengths are whole strips start at whole strips. -/
theorem chained_dvd {strip stop : Nat} (hs : strip ∣ 2 ^ 64) : ∀ (ranges : List ConcatBlockRange) (start : Nat),
    Chained start ranges stop → strip ∣ start → (∀ range ∈ ranges, strip ∣ range.length) →
    ∀ range ∈ ranges, strip ∣ range.start
  | [], _, _, _, _ => fun _ h => nomatch h
  | range :: ranges, start, hc, hd, hl => by
    obtain ⟨hstart, hrest⟩ := hc
    have hnext : strip ∣ u64 (start + range.length) := by
      rw [u64, Nat.dvd_mod_iff hs]
      exact Nat.dvd_add hd (hl range (List.mem_cons_self ..))
    intro x hx
    rcases List.mem_cons.mp hx with rfl | hx
    · rw [hstart]
      exact hd
    · exact chained_dvd hs ranges _ hrest hnext (fun y hy => hl y (List.mem_cons_of_mem _ hy)) x hx

/-- The `k`-th range of a concat array is the data of slot `k`. -/
theorem range_slot (hm : r.blockRange.map (·.length) = r.baseBdevInfo.map (·.dataSize)) {k : Nat}
    {range : ConcatBlockRange} (hk : r.blockRange[k]? = some range) :
    k < r.numBaseBdevs ∧ (r.info k).dataSize = range.length := by
  have h1 := congrArg (fun l => l[k]?) hm
  simp only [List.getElem?_map, hk, Option.map_some] at h1
  obtain ⟨info, hi, he⟩ := Option.map_eq_some_iff.mp h1.symm
  have hlt : k < r.numBaseBdevs := (List.getElem?_eq_some_iff.mp hi).1
  refine ⟨hlt, ?_⟩
  rw [RaidBdev.info, List.getD_eq_getElem?_getD, hi]
  exact he

theorem Sound.concat_rw (h : Sound bdevs r) (hl : r.level = .concat) {io : RaidIo}
    (hio : io.type = .read ∨ io.type = .write) (ha : r.Admits io) :
    ∀ c ∈ r.concatSubmitRwRequest io, Contained r c := by
  obtain ⟨hpos, hend, -, hsplit⟩ := ha
  have hshape := h.shape
  unfold Shape at hshape
  rw [hl] at hshape
  obtain ⟨hs, hopt, hwu, hbound, hc, hm, hd⟩ := hshape
  have hcut := hsplit ⟨hio.imp_right fun hw => ⟨hw, hwu⟩, hopt⟩
  rw [hbound] at hcut
  have hoff : io.offsetBlocks < r.blockcnt := by omega
  obtain ⟨k, range, hk, hf, h1, h2⟩ := concatFind_spec r.blockRange 0 0 hc (Nat.zero_le _) hoff
  obtain ⟨hslot, hsize⟩ := range_slot hm hk
  have hmem := List.mem_of_getElem? hk
  have hdvd64 : r.stripSize ∣ 2 ^ 64 := by
    rw [hs.strip_size]
    exact Nat.pow_dvd_pow 2 (by have := hs.shift_lt; omega)
  have hdvd := chained_dvd hdvd64 r.blockRange 0 hc (Nat.dvd_zero _) hd range hmem
  have hlen := h.dataSize_lt hslot
  unfold concatSubmitRwRequest
  rw [hf]
  intro c hc
  rw [List.mem_singleton.mp hc]
  rw [Nat.zero_add]
  refine h.child_contained hslot fun _ => ?_
  rw [hsize] at hlen ⊢
  obtain ⟨q, hq⟩ := hd range hmem
  obtain ⟨p, hp⟩ := hdvd
  rw [sub64_of_le h1 (Nat.lt_of_le_of_lt (Nat.le_of_add_right_le hend) h.blockcnt_lt), hq, Nat.mul_comm r.stripSize q]
  refine strip_end_le (by rw [Nat.mul_comm, ← hq]; omega) ?_
  rw [hp, Nat.sub_mul_mod (by rw [← hp]; exact h1)]
  exact hcut

/-- One round of the first loop at a range that ends past the offset. -/
theorem concatSpan_cons {off n i : Nat} {start : Option Nat} {range : ConcatBlockRange}
    {ranges : List ConcatBlockRange} (h : ¬ u64 (range.start + range.length) ≤ off) :
    ∃ off' left, concatSpan off n start i (range :: ranges) =
      if left = 0 then (start.or (some i), some i)
      else concatSpan off' left (start.or (some i)) (i + 1) ranges := by
  refine ⟨u64 (off + min n (sub64 range.length (sub64 off range.start))),
    sub64 n (min n (sub64 range.length (sub64 off range.start))), ?_⟩
  rw [concatSpan, if_neg h]

/-- Once an earlier range fixed it, `start_idx` does not change. -/
theorem concatSpan_start {s : Nat} (ranges : List ConcatBlockRange) : ∀ off n i : Nat,
    (concatSpan off n (some s) i ranges).1 = some s := by
  induction ranges with
  | nil => intro _ _ _; rfl
  | cons range ranges ih =>
    intro off n i
    by_cases h1 : u64 (range.start + range.length) ≤ off
    · rw [concatSpan, if_pos h1]
      exact ih _ _ _
    · obtain ⟨off', left, h2⟩ :=
        (concatSpan_cons h1 : ∃ off' left, concatSpan off n (some s) i (range :: ranges) = _)
      rw [h2, Option.some_or]
      split
      · rfl
      · exact ih _ _ _

/-- The first slot of a null-payload request holds its first block, and its range ends below
    2^64. -/
theorem concatSpan_spec {off n stop s t : Nat} : ∀ (ranges : List ConcatBlockRange) (i start : Nat),
    Chained start ranges stop → start ≤ off → concatSpan off n none i ranges = (some s, some t) →
    ∃ k range rest, s = i + k ∧ ranges.drop k = range :: rest ∧ Chained range.start (range :: rest) stop ∧
      range.start ≤ off ∧ off < u64 (range.start + range.length)
  | [], _, _, _, _, h => by cases h
  | range :: ranges, i, start, hc, hle, h => by
    obtain ⟨hstart, hrest⟩ := hc
    by_cases hge : u64 (range.start + range.length) ≤ off
    · rw [concatSpan, if_pos hge] at h
      rw [← hstart] at hrest
      obtain ⟨k, found, rest, hs, hd, hc', h1, h2⟩ := concatSpan_spec ranges (i + 1) _ hrest hge h
      exact ⟨k + 1, found, rest, by omega, hd, hc', h1, h2⟩
    · obtain ⟨off', left, h2⟩ := (concatSpan_cons hge : ∃ off' left, concatSpan off n none i (range :: ranges) = _)
      rw [h2, Option.none_or] at h
      have hs : s = i := by
        have hfst := congrArg Prod.fst h
        split at hfst
        · exact (Option.some.inj hfst).symm
        · rw [concatSpan_start] at hfst
          exact (Option.some.inj hfst).symm
      rw [← hstart] at hrest
      exact ⟨0, range, ranges, hs, rfl, ⟨rfl, hrest⟩, by omega, Nat.lt_of_not_le hge⟩

/-- The children of the second loop: while blocks are left, every range after the first is entered
    at its start. -/
theorem concatChildren_spec {stop t : Nat} (h : Sound bdevs r)
    (hm : r.blockRange.map (·.length) = r.baseBdevInfo.map (·.dataSize)) (ranges : List ConcatBlockRange) :
    ∀ i start off n : Nat, ranges = r.blockRange.drop i → Chained start ranges stop → off + n < 2 ^ 64 →
      (∀ range, ranges.head? = some range → n ≠ 0 →
        range.start ≤ off ∧ (off = range.start ∨ off < u64 (range.start + range.length))) →
      ∀ c ∈ r.concatChildren t off n i ranges, Contained r c := by
  induction ranges with
  | nil => intro _ _ _ _ _ _ _ _ _ hc; cases hc
  | cons range ranges ih =>
    intro i start off n hd hc h64 hin c hmem
    have hk : r.blockRange[i]? = some range := by
      have := congrArg List.head? hd
      rw [List.head?_drop] at this
      exact this.symm
    have hd' : ranges = r.blockRange.drop (i + 1) := by
      have := congrArg List.tail hd
      rw [List.tail_drop] at this
      exact this
    obtain ⟨hslot, hsize⟩ := range_slot hm hk
    have hlen := h.dataSize_lt hslot
    rw [hsize] at hlen
    obtain ⟨hstart, hrest⟩ := hc
    rw [← hstart] at hrest
    have hin := hin range rfl
    have hle := u64_le (range.start + range.length)
    rw [concatChildren] at hmem
    split at hmem
    · cases hmem
    · have hpd : n ≠ 0 → sub64 off range.start = off - range.start ∧
          sub64 range.length (off - range.start) = range.length - (off - range.start) := by
        intro hn
        obtain ⟨h1, h2⟩ := hin hn
        exact ⟨sub64_of_le h1 (by omega), sub64_of_le (by omega) hlen⟩
      simp only [] at hmem
      generalize hpb : min n (sub64 range.length (sub64 off range.start)) = pd at hmem
      have hpn : pd ≤ n := by rw [← hpb]; exact Nat.min_le_left _ _
      rw [sub64_of_le hpn (by omega), u64_of_lt (n := off + pd) (by omega)] at hmem
      rcases List.mem_cons.mp hmem with rfl | hmem
      · refine h.child_contained hslot fun hpd0 => ?_
        obtain ⟨e1, e2⟩ := hpd (by omega)
        rw [e1] at hpb ⊢
        rw [e2] at hpb
        rw [hsize]
        obtain ⟨h1, h2⟩ := hin (by omega)
        omega
      · refine ih (i + 1) _ (off + pd) (n - pd) hd' hrest (by omega) ?_ c hmem
        intro next hnext hn
        obtain ⟨e1, e2⟩ := hpd (by omega)
        rw [e1, e2] at hpb
        obtain ⟨h1, h2⟩ := hin (by omega)
        have hnext' : next.start = u64 (range.start + range.length) := by
          cases ranges with
          | nil => cases hnext
          | cons x xs =>
            obtain rfl := Option.some.inj hnext
            exact hrest.1
        rw [u64_of_lt (by omega)] at hnext'
        exact ⟨by omega, .inl (by omega)⟩

theorem Sound.concat_null_payload (h : Sound bdevs r) (hl : r.level = .concat) (submitted : Nat) {io : RaidIo}
    (ha : r.Admits io) : ∀ c ∈ r.concatSubmitNullPayloadRequest submitted io, Contained r c := by
  obtain ⟨hpos, hend, -, -⟩ := ha
  have hshape := h.shape
  unfold Shape at hshape
  rw [hl] at hshape
  obtain ⟨hs, -, -, -, hc, hm, -⟩ := hshape
  have h64 := h.blockcnt_lt
  intro c hmem
  unfold concatSubmitNullPayloadRequest at hmem
  split at hmem
  · next s t hspan =>
    obtain ⟨k, range, rest, hsk, hd, hchain, h1, h2⟩ := concatSpan_spec r.blockRange 0 0 hc (Nat.zero_le _) hspan
    obtain rfl : s = k := by omega
    have hdrop := List.mem_of_mem_drop hmem
    rw [hd] at hdrop
    refine concatChildren_spec h hm _ s _ _ _ hd.symm hchain (by omega) ?_ c hdrop
    intro x hx _
    obtain rfl := Option.some.inj hx
    exact ⟨h1, .inr h2⟩
  · cases hmem

/-! ## raid1 -/

theorem nextReadBaseBdev_lt (ch : IoChannel) {idx : Nat} (h : r.raid1ChannelNextReadBaseBdev ch = some idx) :
    idx < r.numBaseBdevs := by
  have key : ∀ (l : List Nat) (acc : Nat × Option Nat), (∀ i ∈ l, i < r.numBaseBdevs) →
      (∀ i, acc.2 = some i → i < r.numBaseBdevs) →
      ∀ i, (l.foldl (fun (acc : Nat × Option Nat) i =>
        if ch.baseChannel i = true ∧ ch.readBlocksOutstanding i < acc.1 then (ch.readBlocksOutstanding i, some i)
        else acc) acc).2 = some i → i < r.numBaseBdevs := by
    intro l
    induction l with
    | nil => intro acc _ hacc; exact hacc
    | cons x l ih =>
      intro acc hl hacc
      refine ih _ (fun i hi => hl i (List.mem_cons_of_mem _ hi)) ?_
      intro i hi
      simp only [] at hi
      split at hi
      · obtain rfl := Option.some.inj hi
        exact hl x (List.mem_cons_self ..)
      · exact hacc i hi
  exact key _ _ (fun i hi => List.mem_range.mp hi) (fun i hi => by cases hi) idx h

theorem Sound.raid1_rw (h : Sound bdevs r) (hl : r.level = .raid1) (ch : IoChannel) (submitted : Nat)
    {io : RaidIo} (ha : r.Admits io) : ∀ c ∈ r.raid1SubmitRwRequest ch submitted io, Contained r c := by
  have hu := h.shape
  unfold Shape at hu
  rw [hl] at hu
  have hin : ∀ i, i < r.numBaseBdevs → Contained r (r.child i io.offsetBlocks io.numBlocks) := by
    intro i hi
    refine h.child_contained hi fun _ => ?_
    rw [hu _ (info_mem hi)]
    exact ha.2.1
  intro c hc
  unfold raid1SubmitRwRequest at hc
  cases hio : io.type <;> rw [hio] at hc <;> simp only [] at hc
  · split at hc
    · cases hc
    · next idx hidx =>
      rw [List.mem_singleton.mp hc]
      exact hin idx (nextReadBaseBdev_lt ch hidx)
  · obtain ⟨idx, hidx, rfl⟩ := List.mem_map.mp hc
    have := List.mem_range'_1.mp (List.mem_filter.mp hidx).1
    exact hin idx (by omega)
  · cases hc
  · cases hc

/-! ## raid5f -/

theorem Striped.chunkDataIdx_eq (hs : Striped r) {o : Nat} (hidx : o / r.stripSize < 2 ^ 8) :
    r.chunkDataIdx o = o / r.stripSize := by
  rw [chunkDataIdx, Nat.shiftRight_eq_div_pow, ← hs.strip_size]
  exact Nat.mod_eq_of_lt hidx

/-- `chunk_offset` is the offset in the strip, unless the shifted chunk index is negative as an
    `int`: then it is 2^32 past it. -/
theorem Striped.chunkOffset_eq (hs : Striped r) {o : Nat} (hidx : o / r.stripSize < 2 ^ 8) (ho : o < 2 ^ 32) :
    r.chunkOffset o = o % r.stripSize + if o / r.stripSize * r.stripSize < 2 ^ 31 then 0 else 2 ^ 32 := by
  have hd := Nat.div_add_mod o r.stripSize
  rw [Nat.mul_comm] at hd
  rw [chunkOffset, hs.chunkDataIdx_eq hidx, Raid5f.Geometry.shlInt, Nat.shiftLeft_eq, ← hs.strip_size,
    Nat.mod_eq_of_lt (show o / r.stripSize * r.stripSize < 2 ^ 32 by omega)]
  unfold sub64 u64
  split <;> omega

/-- `r5f_info->total_stripes` -/
def totalStripes (r : RaidBdev) : Nat :=
  match r.modulePrivate with
  | .raid5f _ totalStripes => totalStripes
  | _ => 0

/-- Where no chunk index of raid5f, shifted as an `int`, reaches the sign bit: the data blocks of
    a stripe are at most 2^31. It does not matter where there is no stripe, or where the exported
    size itself wraps and so leaves out the last stripes. -/
def ShiftFits (r : RaidBdev) : Prop :=
  r.level = .raid5f →
    r.stripeBlocks ≤ 2 ^ 31 ∨ totalStripes r = 0 ∨ 2 ^ 64 ≤ r.stripeBlocks * totalStripes r

/-- What `raid5f_start` leaves, with the bounds that follow. -/
structure StripeShape (r : RaidBdev) : Prop where
  striped : Striped r
  strip_dvd : r.stripSize ∣ r.stripeBlocks
  stripe_blocks_le : r.stripeBlocks ≤ r.stripSize * (r.numBaseBdevs - 1)
  stripe_blocks_lt : r.stripeBlocks < 2 ^ 32
  data_size : Uniform r (totalStripes r * r.stripSize)
  blockcnt : r.blockcnt = u64 (r.stripeBlocks * totalStripes r)
  split : r.splitOnOptimalIoBoundary = true ∧ r.optimalIoBoundary = r.stripSize
  write_unit : r.splitOnWriteUnit = true ∧ r.writeUnitSize = r.stripeBlocks

theorem Sound.stripes (h : Sound bdevs r) (hl : r.level = .raid5f) : StripeShape r := by
  have hshape := h.shape
  unfold Shape at hshape
  rw [hl] at hshape
  obtain ⟨hs, hopt, hwu, hbound, hunit, t, hm, hu, hcnt⟩ := hshape
  have ht : totalStripes r = t := by rw [totalStripes, hm]
  have hb : r.stripeBlocks = u32 (r.stripSize * (r.numBaseBdevs - 1)) := by rw [stripeBlocks, hm]
  refine ⟨hs, ?_, ?_, ?_, ?_, ?_, ⟨hopt, hbound⟩, ⟨hwu, hunit⟩⟩
  · rw [hb, u32, Nat.dvd_mod_iff]
    · exact Nat.dvd_mul_right _ _
    · rw [hs.strip_size]
      exact Nat.pow_dvd_pow 2 (Nat.le_of_lt hs.shift_lt)
  · rw [hb]
    exact Nat.mod_le _ _
  · rw [hb]
    exact Nat.mod_lt _ (by norm_num)
  · rw [ht]
    exact hu
  · rw [ht]
    exact hcnt

namespace StripeShape
variable (hs : StripeShape r) {o : Nat}

include hs in
theorem chunkDataIdx_eq (hn : r.numBaseBdevs ≤ 255) (ho : o < r.stripeBlocks) :
    r.chunkDataIdx o = o / r.stripSize ∧ o / r.stripSize < r.numBaseBdevs - 1 := by
  have hlt : o / r.stripSize < r.numBaseBdevs - 1 :=
    Nat.div_lt_of_lt_mul (Nat.lt_of_lt_of_le ho hs.stripe_blocks_le)
  exact ⟨hs.striped.chunkDataIdx_eq (by omega), hlt⟩

include hs in
theorem chunkOffset_eq (hn : r.numBaseBdevs ≤ 255) (ho : o < r.stripeBlocks) :
    r.chunkOffset o = o % r.stripSize + if o / r.stripSize * r.stripSize < 2 ^ 31 then 0 else 2 ^ 32 :=
  hs.striped.chunkOffset_eq (by have := (hs.chunkDataIdx_eq hn ho).2; omega)
    (Nat.lt_trans ho hs.stripe_blocks_lt)

include hs in
theorem chunkIdx_lt (hn : r.numBaseBdevs ≤ 255) (ho : o < r.stripeBlocks) (si : Nat) :
    r.chunkIdx si o < r.numBaseBdevs := by
  obtain ⟨h1, h2⟩ := hs.chunkDataIdx_eq hn ho
  unfold chunkIdx
  simp only [h1]
  split
  · omega
  · exact Nat.lt_of_le_of_lt (Nat.mod_le _ _) (by omega)

end StripeShape

/-- Where a block of the array lies: below the whole stripes, and far below them where the
    exported size wraps. -/
theorem StripeShape.stripe_lt (hs : StripeShape r) {o : Nat} (ho : o < r.blockcnt) :
    0 < r.stripeBlocks ∧ o / r.stripeBlocks < totalStripes r ∧
    (2 ^ 64 ≤ r.stripeBlocks * totalStripes r → o / r.stripeBlocks + 2 ^ 32 < totalStripes r) := by
  rw [hs.blockcnt] at ho
  have hle := u64_le (r.stripeBlocks * totalStripes r)
  have hpos : 0 < r.stripeBlocks := by
    rcases Nat.eq_zero_or_pos r.stripeBlocks with hz | hpos
    · rw [hz, Nat.zero_mul] at ho
      exact absurd ho (Nat.not_lt_zero _)
    · exact hpos
  have hmul : r.stripeBlocks * (o / r.stripeBlocks) ≤ o := Nat.mul_div_le _ _
  refine ⟨hpos, Nat.div_lt_of_lt_mul (by omega), fun hwrap => ?_⟩
  have hlt := hs.stripe_blocks_lt
  have hu : u64 (r.stripeBlocks * totalStripes r) + 2 ^ 64 ≤ r.stripeBlocks * totalStripes r := by
    unfold u64
    omega
  by_contra hc
  have h1 : r.stripeBlocks * totalStripes r ≤ r.stripeBlocks * (o / r.stripeBlocks + 2 ^ 32) :=
    Nat.mul_le_mul_left _ (Nat.le_of_not_lt hc)
  rw [Nat.mul_add] at h1
  have h2 : r.stripeBlocks * 2 ^ 32 < 2 ^ 64 := by omega
  omega

/-- Strips that lie `m` strips before the end lie at least `m` blocks before it. -/
theorem far_le {q t strip m : Nat} (h : q + m + 1 ≤ t) (hs : 0 < strip) : q * strip + m + strip ≤ t * strip :=
  calc q * strip + m + strip ≤ q * strip + m * strip + strip := by
        have := Nat.le_mul_of_pos_right m hs
        omega
    _ = (q + m + 1) * strip := by ring
    _ ≤ t * strip := Nat.mul_le_mul_right _ h

theorem Sound.raid5f_rw (h : Sound bdevs r) (hl : r.level = .raid5f) (hf : ShiftFits r) (ch : IoChannel)
    {io : RaidIo} (ha : r.Admits io) : ∀ c ∈ r.raid5fSubmitRwRequest ch io, Contained r c := by
  have hs := h.stripes hl
  have hn := h.num_base_bdevs_le
  obtain ⟨hpos, hend, -, hsplit⟩ := ha
  obtain ⟨hP, hq, hfar⟩ := hs.stripe_lt (show io.offsetBlocks < r.blockcnt by omega)
  obtain ⟨q, hqd⟩ : ∃ q, q = io.offsetBlocks / r.stripeBlocks := ⟨_, rfl⟩
  obtain ⟨so, hsod⟩ : ∃ so, so = io.offsetBlocks % r.stripeBlocks := ⟨_, rfl⟩
  have hso : so < r.stripeBlocks := by rw [hsod]; exact Nat.mod_lt _ hP
  rw [← hqd] at hq hfar
  have hS : 0 < r.stripSize := by rw [hs.striped.strip_size]; exact Nat.two_pow_pos _
  have hS32 : r.stripSize ≤ 2 ^ 31 := by
    rw [hs.striped.strip_size]
    exact Nat.pow_le_pow_right (by norm_num) (by have := hs.striped.shift_lt; omega)
  have hqS : (q + 1) * r.stripSize ≤ totalStripes r * r.stripSize := Nat.mul_le_mul_right _ hq
  rw [Nat.add_mul, Nat.one_mul] at hqS
  have hslot : 0 < r.numBaseBdevs := by
    have : 0 < r.numBaseBdevs - 1 := Nat.lt_of_le_of_lt (Nat.zero_le _) (hs.chunkDataIdx_eq hn hso).2
    omega
  have hdata := h.dataSize_lt hslot
  rw [hs.data_size _ (info_mem hslot)] at hdata
  have hshl : u64 (q <<< r.stripSizeShift) = q * r.stripSize := by
    rw [Nat.shiftLeft_eq, ← hs.striped.strip_size]
    exact u64_of_lt (by omega)
  intro c hc
  unfold raid5fSubmitRwRequest at hc
  rw [← hqd, ← hsod] at hc
  cases hio : io.type <;> rw [hio] at hc <;> simp only [] at hc
  · -- a read: the chunk offset is the offset in the strip, or it does not matter
    have hcut := hsplit ⟨.inl hio, hs.split.1⟩
    rw [hs.split.2, ← Nat.mod_mod_of_dvd io.offsetBlocks hs.strip_dvd, ← hsod] at hcut
    have hbase : u64 (u64 (q <<< r.stripSizeShift) + r.chunkOffset so) + io.numBlocks ≤
        totalStripes r * r.stripSize := by
      rw [hshl, hs.chunkOffset_eq hn hso]
      have hmod := Nat.mod_lt so hS
      split
      · rw [Nat.add_zero, u64_of_lt (by omega)]
        omega
      · next hge =>
        have hfar' : q + 2 ^ 32 + 1 ≤ totalStripes r := by
          rcases hf hl with hle | hz | hwrap
          · have := Nat.div_mul_le_self so r.stripSize
            omega
          · omega
          · exact hfar hwrap
        have hfarS := far_le hfar' hS
        have hle := u64_le (q * r.stripSize + (so % r.stripSize + 2 ^ 32))
        omega
    have hin : ∀ i, i < r.numBaseBdevs →
        Contained r (r.child i (u64 (u64 (q <<< r.stripSizeShift) + r.chunkOffset so)) io.numBlocks) := by
      intro i hi
      refine h.child_contained hi fun _ => ?_
      rw [hs.data_size _ (info_mem hi)]
      exact hbase
    have hrest : ∀ c ∈ ((List.range r.numBaseBdevs).filter (· ≠ r.chunkIdx q so)).map fun i =>
        r.child i (u64 (u64 (q <<< r.stripSizeShift) + r.chunkOffset so)) io.numBlocks, Contained r c := by
      intro c hc
      obtain ⟨i, hi, rfl⟩ := List.mem_map.mp hc
      exact hin i (List.mem_range.mp (List.mem_filter.mp hi).1)
    unfold raid5fSubmitReadRequest at hc
    simp only [] at hc
    split at hc
    · rcases List.mem_cons.mp hc with rfl | hc
      · exact hin _ (hs.chunkIdx_lt hn hso q)
      · exact hrest c hc
    · exact hrest c hc
  · obtain ⟨i, hi, rfl⟩ := List.mem_map.mp hc
    have hi := List.mem_range.mp (List.mem_filter.mp hi).1
    refine h.child_contained hi fun _ => ?_
    rw [hs.data_size _ (info_mem hi), hshl]
    exact hqS
  · cases hc
  · cases hc

/-- The read that leaves the data region where the shifted chunk index does not fit: the chunk
    at block 2^31 of the last stripe. -/
theorem Sound.raid5f_escapes (h : Sound bdevs r) (hl : r.level = .raid5f) (hf : ¬ ShiftFits r) :
    ∃ io, r.Admits io ∧ ∃ c ∈ r.submitRequest ⟨fun _ => true, fun _ => 0⟩ 0 io, ¬ Contained r c := by
  have hs := h.stripes hl
  have hn := h.num_base_bdevs_le
  unfold ShiftFits at hf
  push Not at hf
  obtain ⟨-, hbig, hT, hwrap⟩ := hf
  set P := r.stripeBlocks
  set T := totalStripes r
  have hS : 0 < r.stripSize := by rw [hs.striped.strip_size]; exact Nat.two_pow_pos _
  have hdvd31 : r.stripSize ∣ 2 ^ 31 := by
    rw [hs.striped.strip_size]
    exact Nat.pow_dvd_pow 2 (by have := hs.striped.shift_lt; omega)
  have hS31 := Nat.le_of_dvd (by norm_num) hdvd31
  have hlast : P * (T - 1) + P = P * T := by
    rw [← Nat.mul_succ]
    congr 1
    omega
  have hcnt : r.blockcnt = P * T := by rw [hs.blockcnt, u64_of_lt hwrap]
  have hTS : (T - 1) * r.stripSize + r.stripSize = T * r.stripSize := by
    rw [← Nat.succ_mul]
    congr 1
    omega
  have hTS64 : T * r.stripSize * 2 ≤ P * T := by
    obtain ⟨m, hm⟩ := hs.strip_dvd
    have hm2 : 2 ≤ m := by
      by_contra hc
      have : r.stripSize * m ≤ r.stripSize * 1 := Nat.mul_le_mul_left _ (by omega)
      omega
    calc T * r.stripSize * 2 = r.stripSize * 2 * T := by ring
      _ ≤ r.stripSize * m * T := Nat.mul_le_mul_right _ (Nat.mul_le_mul_left _ hm2)
      _ = P * T := by rw [← hm]
  have ho : (P * (T - 1) + 2 ^ 31) % P = 2 ^ 31 := by
    rw [Nat.mul_add_mod]
    exact Nat.mod_eq_of_lt hbig
  have hq : (P * (T - 1) + 2 ^ 31) / P = T - 1 := by
    rw [Nat.mul_add_div (by omega), Nat.div_eq_of_lt hbig, Nat.add_zero]
  have hmod : 2 ^ 31 % r.stripSize = 0 := Nat.mod_eq_zero_of_dvd hdvd31
  refine ⟨⟨.read, P * (T - 1) + 2 ^ 31, 1⟩, ?_, ?_⟩
  · have hin : P * (T - 1) + 2 ^ 31 + 1 ≤ r.blockcnt := by omega
    refine ⟨Nat.one_pos, hin, (fun hw => nomatch hw.1), fun _ => ?_⟩
    rw [hs.split.2]
    simp only []
    rw [← Nat.mod_mod_of_dvd _ hs.strip_dvd, ho, hmod]
    omega
  · have hoff : r.chunkOffset (2 ^ 31) = 2 ^ 32 := by
      rw [hs.chunkOffset_eq hn hbig, hmod, Nat.div_mul_cancel hdvd31, if_neg (Nat.lt_irrefl _), Nat.zero_add]
    have hbase : u64 (u64 ((T - 1) <<< r.stripSizeShift) + r.chunkOffset (2 ^ 31)) =
        (T - 1) * r.stripSize + 2 ^ 32 := by
      rw [hoff, Nat.shiftLeft_eq, ← hs.striped.strip_size, u64_of_lt (n := (T - 1) * r.stripSize) (by omega)]
      exact u64_of_lt (by omega)
    refine ⟨r.child (r.chunkIdx (T - 1) (2 ^ 31)) ((T - 1) * r.stripSize + 2 ^ 32) 1, ?_, ?_⟩
    · unfold submitRequest
      rw [hl]
      simp only [raid5fSubmitRwRequest, raid5fSubmitReadRequest]
      rw [hq, ho, hbase]
      exact List.mem_cons_self ..
    · rintro ⟨hslot, hin⟩
      simp only [RaidBdev.child] at hin hslot
      have hinfo := info_mem hslot
      have hfit := h.regions _ hinfo
      have hb := (bdevs ((r.info (r.chunkIdx (T - 1) (2 ^ 31))).desc.getD 0)).blockcnt_lt
      rw [hs.data_size _ hinfo, show totalStripes r = T from rfl] at hin hfit
      have hx := hin _ (Nat.le_refl _) (by omega)
      unfold u64 at hx
      omega

end contained

/-- All children of all admitted requests, on any channel and resumed anywhere, stay inside the data
    regions if and only if no shifted chunk index of raid5f reaches the sign bit of an `int`. -/
theorem Sound.contained_iff {bdevs : Nat → Bdev} {r : RaidBdev} (hs : Sound bdevs r) :
    (∀ io, r.Admits io → ∀ ch submitted, ∀ c ∈ r.submitRequest ch submitted io, Contained r c) ↔ ShiftFits r := by
  constructor
  · intro hin
    by_contra hf
    have hl : r.level = .raid5f := by
      by_contra hne
      exact hf fun hl => absurd hl hne
    obtain ⟨io, hio, c, hc, hout⟩ := hs.raid5f_escapes hl hf
    exact hout (hin io hio _ _ c hc)
  · intro hf io hio ch submitted c hc
    unfold submitRequest at hc
    cases hl : r.level with
    | raid0 =>
      rw [hl] at hc
      cases ht : io.type <;> rw [ht] at hc
      · exact hs.raid0_rw hl hio c hc
      · exact hs.raid0_rw hl hio c hc
      · exact hs.raid0_null_payload hl submitted hio c hc
      · exact hs.raid0_null_payload hl submitted hio c hc
    | raid1 =>
      rw [hl] at hc
      cases ht : io.type <;> rw [ht] at hc
      · exact hs.raid1_rw hl ch submitted hio c hc
      · exact hs.raid1_rw hl ch submitted hio c hc
      · cases hc
      · cases hc
    | raid5f =>
      rw [hl] at hc
      cases ht : io.type <;> rw [ht] at hc
      · exact hs.raid5f_rw hl hf ch hio c hc
      · exact hs.raid5f_rw hl hf ch hio c hc
      · cases hc
      · cases hc
    | concat =>
      rw [hl] at hc
      cases ht : io.type <;> rw [ht] at hc
      · exact hs.concat_rw hl (.inl ht) hio c hc
      · exact hs.concat_rw hl (.inr ht) hio c hc
      · exact hs.concat_null_payload hl submitted hio c hc
      · exact hs.concat_null_payload hl submitted hio c hc

/-! ## The regions on the base bdevs -/

/-- The level leaves the slot no blocks: its base bdev, or where all slots get the same the smallest
    one, has no whole strip. -/
def Starved (laid : RaidBdev) (stripSize : Nat) (info : RaidBaseBdevInfo) : Prop :=
  match laid.level with
  | .raid0 | .raid5f => laid.minBlockcnt < stripSize
  | .raid1 => laid.minBlockcnt = 0
  | .concat => info.dataSize < stripSize

/-- Every base bdev was larger than its data offset when it was taken. One that ends there does no
    harm where the level leaves it no blocks. -/
def OffsetsFit (laid : RaidBdev) (stripSize : Nat) : Prop :=
  ∀ info ∈ laid.baseBdevInfo, info.dataOffset < info.blockcnt ∨
    info.dataOffset = info.blockcnt ∧ Starved laid stripSize info

instance (laid : RaidBdev) (stripSize : Nat) (info : RaidBaseBdevInfo) : Decidable (Starved laid stripSize info) :=
  match h : laid.level with
  | .raid0 | .raid5f => decidable_of_iff (laid.minBlockcnt < stripSize) (by rw [Starved, h])
  | .raid1 => decidable_of_iff (laid.minBlockcnt = 0) (by rw [Starved, h])
  | .concat => decidable_of_iff (info.dataSize < stripSize) (by rw [Starved, h])

instance (laid : RaidBdev) (stripSize : Nat) : Decidable (OffsetsFit laid stripSize) :=
  inferInstanceAs (Decidable (∀ info ∈ laid.baseBdevInfo, _ ∨ _))

/-- What `raid_bdev_configure_base_bdev` makes of a slot, whatever it returns. -/
theorem layout_slot {before info : RaidBaseBdevInfo} {sb : Bool} {b : Nat} {bdev : Bdev} {rc : Int}
    (h : RaidBaseBdevInfo.layout before sb b bdev = (rc, info)) :
    info.desc = some b ∧ info.blockcnt = bdev.blockcnt ∧
    (info.blockcnt ≤ info.dataOffset ∨ info.dataOffset + info.dataSize = info.blockcnt) := by
  unfold RaidBaseBdevInfo.layout at h
  simp only [] at h
  split at h
  · split at h
    · next hle =>
      obtain rfl := congrArg Prod.snd h
      exact ⟨rfl, rfl, .inl hle⟩
    · next hlt =>
      obtain rfl := congrArg Prod.snd h
      simp only [] at hlt ⊢
      exact ⟨trivial, trivial, .inr (by omega)⟩
  · obtain rfl := congrArg Prod.snd h
    exact ⟨rfl, rfl, .inr (Nat.zero_add _)⟩

theorem whole_eq_zero {n strip : Nat} (hs : 0 < strip) : n / strip * strip = 0 ↔ n < strip := by
  rw [Nat.mul_eq_zero, or_iff_left (by omega), Nat.div_eq_zero_iff_lt hs]

theorem Starting.startDataSize_eq_zero {n : Nat} {level : RaidLevel} {infos : List RaidBaseBdevInfo}
    {laid r : RaidBdev} {info : RaidBaseBdevInfo} (h : Starting n level infos r) (hslots : laid.baseBdevInfo = infos)
    (hl : laid.level = level) : r.startDataSize info = 0 ↔ Starved laid r.stripSize info := by
  have hmin : r.minBlockcnt = laid.minBlockcnt := by
    unfold RaidBdev.minBlockcnt
    rw [h.slots, hslots]
  have hstriped := h.striped
  unfold RaidBdev.startDataSize Starved
  rw [h.level_eq, hl, hmin]
  cases level with
  | raid1 => exact Iff.rfl
  | _ =>
    have hs := hstriped (by decide)
    have hpos : 0 < r.stripSize := by rw [hs.strip_size]; exact Nat.two_pow_pos _
    simp only [wholeStrips_eq, ← hs.strip_size]
    exact whole_eq_zero hpos

/-- The data regions of a configured array lie on its base bdevs if and only if the offsets do. -/
theorem Configured.regions_iff {bdevs : Nat → Bdev} {laid r : RaidBdev} (h : Configured bdevs laid r) :
    RegionsFit bdevs r ↔ OffsetsFit laid r.stripSize := by
  obtain ⟨_, _, hmake, hlength, hlayout, -, hconf, hblock⟩ := h
  obtain ⟨hlevel, -⟩ := make_ok hmake
  obtain ⟨r₁, hr₁, hstart⟩ := configured_start hmake hlength hconf hblock
  obtain ⟨hslots, -, -, hstrip⟩ := start_slots hstart
  unfold RegionsFit OffsetsFit
  rw [hslots, hr₁.slots, hstrip, List.forall_mem_map]
  refine forall₂_congr fun info hi => ?_
  obtain ⟨before, b, rc, hl⟩ := hlayout info hi
  obtain ⟨hdesc, hcnt, hfit⟩ := layout_slot hl
  have hle := startDataSize_le (r := r₁) (hr₁.slots.symm ▸ hi)
  refine Iff.trans ?_ (or_congr_right (and_congr_right fun _ => hr₁.startDataSize_eq_zero rfl hlevel))
  simp only [hdesc, Option.getD_some]
  omega

theorem Later.shiftFits {bdevs bdevs' : Nat → Bdev} {r r' : RaidBdev} (h : Later bdevs r bdevs' r')
    (hf : ShiftFits r) : ShiftFits r' := by
  induction h with
  | refl => exact hf
  | grown _ _ ih => exact ih
  | @resized bdevs' r' notifyRc _ hresize ih =>
    -- only raid0 resizes, and stays raid0
    intro hl
    have hl' : (r'.raid0Resize bdevs' notifyRc).level = r'.level := by
      unfold raid0Resize
      simp only []
      split
      · rfl
      split <;> rfl
    rw [hl'] at hl
    rw [hl] at hresize
    cases hresize

/-- Region containment. For every configured array and whatever becomes of it: all children of all
    admitted requests, on any channel and resumed anywhere, stay inside the data regions, and the
    regions inside their base bdevs, if and only if no shifted chunk index of raid5f reaches the sign
    bit of an `int` and every base bdev was larger than its data offset. -/
theorem region_containment {bdevs : Nat → Bdev} {laid r : RaidBdev} (h : Configured bdevs laid r) :
    (∀ bdevs' r', Later bdevs r bdevs' r' →
      (∀ io, r'.Admits io → ∀ ch submitted, ∀ c ∈ r'.submitRequest ch submitted io, Contained r' c) ∧
      RegionsFit bdevs' r') ↔ ShiftFits r ∧ OffsetsFit laid r.stripSize := by
  constructor
  · intro hall
    obtain ⟨hin, hfit⟩ := hall bdevs r .refl
    exact ⟨(h.sound hfit).contained_iff.mp hin, h.regions_iff.mp hfit⟩
  · rintro ⟨hshift, hoffsets⟩ bdevs' r' hlater
    have hs := hlater.sound (h.sound (h.regions_iff.mpr hoffsets))
    exact ⟨hs.contained_iff.mpr (hlater.shiftFits hshift), hs.regions⟩

/-- Base bdevs of one size and block length. -/
def equalBdevs (blockcnt blocklen : Nat) (h : blockcnt < 2 ^ 64) (h' : blocklen < 2 ^ 32) : Nat → Bdev :=
  fun _ => { name := "base", blockcnt, blocklen, blockcnt_lt := h, blocklen_lt := h', boundary_lt := boundary_zero_lt }

/-- `raid_bdev_create` and the layout of `n` slots on the base bdevs `0` to `n - 1`. -/
def laidOut (bdevs : Nat → Bdev) (stripSizeKb n : Nat) (level : RaidLevel) (superblock : Bool) : RaidBdev where
  name := "md"
  uuid := 0
  baseBdevInfo := (List.range n).map fun b => (RaidBaseBdevInfo.layout {} superblock b (bdevs b)).2
  stripSizeKb := stripSizeKb
  minBaseBdevsOperational := level.module.minOperational n
  level := level
  superblockEnabled := superblock

/-- Three 32 MiB base bdevs of 512-byte blocks, and a raid0 with superblock on them. -/
def smallBdevs : Nat → Bdev := equalBdevs 65536 512 blockcnt_65536_lt blocklen_512_lt
def smallArray : RaidBdev := ((laidOut smallBdevs 64 3 .raid0 true).configureGeometry smallBdevs true).2

theorem small_assembled : Assembled smallBdevs smallArray :=
  .configured (r := { laidOut smallBdevs 64 3 .raid0 true with baseBdevInfo := List.replicate 3 {} })
    (show 64 < 2 ^ 32 by decide) (show 3 ≤ 255 by decide)
    (show RaidBdev.make "md" 64 3 .raid0 true 0 = .ok _ from rfl)
    (show (laidOut smallBdevs 64 3 .raid0 true).baseBdevInfo.length = 3 by decide)
    (fun info hi => by
      obtain ⟨b, -, rfl⟩ := List.mem_map.mp hi
      have h : ¬ (smallBdevs b).blockcnt ≤ superblockDataOffset (smallBdevs b) := by
        rw [show smallBdevs b = smallBdevs 0 from rfl]
        decide
      exact ⟨{}, b, by simp [RaidBaseBdevInfo.layout, h]⟩)
    (show (laidOut smallBdevs 64 3 .raid0 true).configureGeometry smallBdevs true = (0, smallArray) by decide +kernel)
    ⟨9, by decide +kernel⟩

/-- Where `raid_bdev_create` and `raid_bdev_configure` succeed on the laid-out slots, one of which did not fail. -/
theorem laidOut_configured {bdevs : Nat → Bdev} {stripSizeKb n : Nat} {level : RaidLevel} {superblock alloc : Bool}
    {r : RaidBdev} (hstrip : stripSizeKb < 2 ^ 32) (hn : n ≤ 255)
    (hmake : RaidBdev.make "md" stripSizeKb n level superblock 0 =
      .ok { laidOut bdevs stripSizeKb n level superblock with baseBdevInfo := List.replicate n {} })
    (hlast : ∃ b < n, (RaidBaseBdevInfo.layout {} superblock b (bdevs b)).1 = 0)
    (hconf : (laidOut bdevs stripSizeKb n level superblock).configureGeometry bdevs alloc = (0, r))
    (hblocklen : ∃ k, r.blocklen = 2 ^ k) : Configured bdevs (laidOut bdevs stripSizeKb n level superblock) r := by
  refine .intro hstrip hn hmake (show (List.map _ (List.range n)).length = n by simp) ?_ ?_ hconf hblocklen
  · intro info hi
    obtain ⟨b, -, rfl⟩ := List.mem_map.mp hi
    exact ⟨{}, b, _, rfl⟩
  · obtain ⟨b, hb, hrc⟩ := hlast
    exact ⟨_, List.mem_map_of_mem (List.mem_range.mpr hb), {}, b, Prod.ext hrc rfl⟩

theorem small_configured : Configured smallBdevs (laidOut smallBdevs 64 3 .raid0 true) smallArray :=
  laidOut_configured (show 64 < 2 ^ 32 by decide) (show 3 ≤ 255 by decide) rfl
    (show ∃ b < 3, (RaidBaseBdevInfo.layout {} true b (smallBdevs b)).1 = 0 by decide +kernel)
    (show (laidOut smallBdevs 64 3 .raid0 true).configureGeometry smallBdevs true = (0, smallArray) by decide +kernel)
    ⟨9, by decide +kernel⟩

/-- The raid0, as it was configured and whatever becomes of it. -/
theorem region_containment_small : OffsetsFit (laidOut smallBdevs 64 3 .raid0 true) smallArray.stripSize ∧
    ∀ bdevs' r', Later smallBdevs smallArray bdevs' r' →
      (∀ io, r'.Admits io → ∀ ch submitted, ∀ c ∈ r'.submitRequest ch submitted io, Contained r' c) ∧
      RegionsFit bdevs' r' := by
  have hoffsets : OffsetsFit (laidOut smallBdevs 64 3 .raid0 true) smallArray.stripSize := by decide +kernel
  exact ⟨hoffsets, (region_containment small_configured).mpr ⟨fun h => absurd h (by decide +kernel), hoffsets⟩⟩

/-- Four base bdevs of 2-byte blocks, each one strip of 2^30 blocks, and a raid5f on them. -/
def narrowBdevs : Nat → Bdev := equalBdevs (2 ^ 30) 2 (by decide) (by decide)
def narrowArray : RaidBdev := ((laidOut narrowBdevs (2 ^ 21) 4 .raid5f false).configureGeometry narrowBdevs true).2

theorem narrow_configured : Configured narrowBdevs (laidOut narrowBdevs (2 ^ 21) 4 .raid5f false) narrowArray :=
  laidOut_configured (show 2 ^ 21 < 2 ^ 32 by decide) (show 4 ≤ 255 by decide) rfl
    (show ∃ b < 4, (RaidBaseBdevInfo.layout {} false b (narrowBdevs b)).1 = 0 by decide +kernel)
    (show (laidOut narrowBdevs (2 ^ 21) 4 .raid5f false).configureGeometry narrowBdevs true = (0, narrowArray) by
      decide +kernel)
    ⟨1, by decide +kernel⟩

/-- 512 KiB in slot 0, less than the 1 MiB the superblock takes, and 32 MiB in slot 1; a raid1 with
    superblock on them. -/
def shortBdevs (b : Nat) : Bdev :=
  if b = 0 then
    { name := "n0", blockcnt := 1024, blocklen := 512, blockcnt_lt := by decide, blocklen_lt := by decide
      boundary_lt := boundary_zero_lt }
  else smallBdevs b
def shortArray : RaidBdev := ((laidOut shortBdevs 0 2 .raid1 true).configureGeometry shortBdevs true).2

theorem short_configured : Configured shortBdevs (laidOut shortBdevs 0 2 .raid1 true) shortArray :=
  laidOut_configured (show 0 < 2 ^ 32 by decide) (show 2 ≤ 255 by decide) rfl
    (show ∃ b < 2, (RaidBaseBdevInfo.layout {} true b (shortBdevs b)).1 = 0 by decide +kernel)
    (show (laidOut shortBdevs 0 2 .raid1 true).configureGeometry shortBdevs true = (0, shortArray) by decide +kernel)
    ⟨9, by decide +kernel⟩

/-- One block read at the start of the third chunk goes 2^32 blocks into a base bdev of 2^30; a read of
    the first blocks of the raid1 goes to block 2048 of a base bdev of 1024. -/
theorem region_escaped :
    (Configured narrowBdevs (laidOut narrowBdevs (2 ^ 21) 4 .raid5f false) narrowArray ∧
      narrowArray.Admits ⟨.read, 2 ^ 31, 1⟩ ∧
      ⟨2, 2 ^ 32, 1⟩ ∈ narrowArray.submitRequest ⟨fun _ => true, fun _ => 0⟩ 0 ⟨.read, 2 ^ 31, 1⟩ ∧
      ¬Contained narrowArray ⟨2, 2 ^ 32, 1⟩) ∧
    Configured shortBdevs (laidOut shortBdevs 0 2 .raid1 true) shortArray ∧ shortArray.Admits ⟨.read, 0, 8⟩ ∧
      ⟨0, 2048, 8⟩ ∈ shortArray.submitRequest ⟨fun _ => true, fun _ => 0⟩ 0 ⟨.read, 0, 8⟩ ∧
      (shortBdevs 0).blockcnt = 1024 ∧ ¬RegionsFit shortBdevs shortArray := by
  refine ⟨⟨narrow_configured, by decide +kernel, by decide +kernel, ?_⟩, short_configured, by decide +kernel,
    by decide +kernel, rfl, ?_⟩
  · rintro ⟨-, h⟩
    have h1 := (h (2 ^ 32) (Nat.le_refl _) (Nat.lt_succ_self _)).2
    have h2 : (narrowArray.info 2).dataOffset + (narrowArray.info 2).dataSize = 2 ^ 30 := by decide +kernel
    simp only [] at h1
    omega
  · unfold RegionsFit
    decide +kernel

end FlexBSO.Raid

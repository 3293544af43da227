import FlexBSO.Raid.Submit
import Mathlib.Tactic.Linarith

/- How a configured array looks. `Configured bdevs laid r` says how `r` came to be:
   created, laid out slot by slot, configured; `Later` what becomes of it while base
   bdevs only grow and it is resized. The layout of a slot may fail, and nobody looks
   when a base bdev is examined; `Assembled bdevs r` are the arrays, at any later time,
   of which none did. `Assembled.sound` reads off what the address mappings of the
   levels rely on: every data region fits its base bdev, and the sizes, ranges and
   boundaries are the ones `start` computed. -/
namespace FlexBSO.Raid

open RaidBdev

/-- A power-of-two strip, as the configured levels other than raid1 have it. -/
structure Striped (r : RaidBdev) : Prop where
  strip_size : r.stripSize = 2 ^ r.stripSizeShift
  shift_lt : r.stripSizeShift < 32

/-- All slots have data regions of one size. -/
def Uniform (r : RaidBdev) (dataSize : Nat) : Prop := ∀ info ∈ r.baseBdevInfo, info.dataSize = dataSize

/-- Block ranges that follow one another in 64-bit arithmetic, from a first block to the block
    after the last. -/
def Chained : Nat → List ConcatBlockRange → Nat → Prop
  | start, [], stop => stop = start
  | start, range :: ranges, stop => range.start = start ∧ Chained (u64 (start + range.length)) ranges stop

/-- What a level's address mapping relies on. -/
def Shape (r : RaidBdev) : Prop :=
  match r.level with
  | .raid0 => Striped r ∧ ∃ q, Uniform r (q * r.stripSize) ∧ r.blockcnt = u64 (q * r.stripSize * r.numBaseBdevs)
  | .raid1 => Uniform r r.blockcnt
  | .concat => Striped r ∧ r.splitOnOptimalIoBoundary = true ∧ r.splitOnWriteUnit = false ∧
      r.optimalIoBoundary = r.stripSize ∧ Chained 0 r.blockRange r.blockcnt ∧
      r.blockRange.map (·.length) = r.baseBdevInfo.map (·.dataSize) ∧
      ∀ range ∈ r.blockRange, r.stripSize ∣ range.length
  | .raid5f => Striped r ∧ r.splitOnOptimalIoBoundary = true ∧ r.splitOnWriteUnit = true ∧
      r.optimalIoBoundary = r.stripSize ∧ r.writeUnitSize = r.stripeBlocks ∧
      ∃ totalStripes, r.modulePrivate = .raid5f (u32 (r.stripSize * (r.numBaseBdevs - 1))) totalStripes ∧
        Uniform r (totalStripes * r.stripSize) ∧ r.blockcnt = u64 (r.stripeBlocks * totalStripes)

/-- Every slot's data region lies on its base bdev. -/
def RegionsFit (bdevs : Nat → Bdev) (r : RaidBdev) : Prop :=
  ∀ info ∈ r.baseBdevInfo, info.dataOffset + info.dataSize ≤ (bdevs (info.desc.getD 0)).blockcnt

/-- `r` is the array that `raid_bdev_configure` makes, with a power-of-two block length, of `laid`:
    created, every slot laid out by `raid_bdev_configure_base_bdev`. `raid_bdev_examine` ignores the
    result, so that a slot may have failed; the one that completed the array did not. -/
inductive Configured (bdevs : Nat → Bdev) : (laid r : RaidBdev) → Prop where
  | intro {name : String} {stripSize n uuid : Nat} {level : RaidLevel} {superblock alloc : Bool}
      {r r' : RaidBdev} {infos : List RaidBaseBdevInfo}
      (hstrip : stripSize < 2 ^ 32) (hn : n ≤ 255)
      (hmake : RaidBdev.make name stripSize n level superblock uuid = .ok r)
      (hlength : infos.length = n)
      (hlayout : ∀ info ∈ infos, ∃ before b rc, RaidBaseBdevInfo.layout before superblock b (bdevs b) = (rc, info))
      (hlast : ∃ info ∈ infos, ∃ before b, RaidBaseBdevInfo.layout before superblock b (bdevs b) = (0, info))
      (hconf : ({ r with baseBdevInfo := infos }).configureGeometry bdevs alloc = (0, r'))
      (hblocklen : ∃ k, r'.blocklen = 2 ^ k) : Configured bdevs { r with baseBdevInfo := infos } r'

/-- What an array on base bdevs that only grow becomes. -/
inductive Later (bdevs : Nat → Bdev) (r : RaidBdev) : (Nat → Bdev) → RaidBdev → Prop where
  | refl : Later bdevs r bdevs r
  /-- base bdevs grow -/
  | grown {bdevs' bdevs'' : Nat → Bdev} {r' : RaidBdev} (h : Later bdevs r bdevs' r')
      (hle : ∀ b, (bdevs' b).blockcnt ≤ (bdevs'' b).blockcnt) : Later bdevs r bdevs'' r'
  /-- `raid_bdev_resize_base_bdev`, with any result of the notification -/
  | resized {bdevs' : Nat → Bdev} {r' : RaidBdev} (notifyRc : Int) (h : Later bdevs r bdevs' r')
      (hresize : r'.level.module.resize = true) : Later bdevs r bdevs' (r'.raid0Resize bdevs' notifyRc)

/-- Every slot was laid out without an error. -/
def LaidOut (bdevs : Nat → Bdev) (laid : RaidBdev) : Prop :=
  ∀ info ∈ laid.baseBdevInfo, ∃ before b,
    RaidBaseBdevInfo.layout before laid.superblockEnabled b (bdevs b) = (0, info)

/-- `r` is what an array has become that was configured with all of its slots laid out. `bdevs` are the
    base bdevs as they are now. -/
def Assembled (bdevs : Nat → Bdev) (r : RaidBdev) : Prop :=
  ∃ bdevs₀ laid r₀, Configured bdevs₀ laid r₀ ∧ LaidOut bdevs₀ laid ∧ Later bdevs₀ r₀ bdevs r

/-! ## Arithmetic -/

theorem u64_of_lt {n : Nat} (h : n < 2 ^ 64) : u64 n = n := Nat.mod_eq_of_lt h

theorem u64_le (n : Nat) : u64 n ≤ n := Nat.mod_le _ _

theorem sub64_of_le {a b : Nat} (h : b ≤ a) (ha : a < 2 ^ 64) : sub64 a b = a - b := by
  unfold sub64 u64
  omega

theorem foldl_min_le (l : List Nat) (a : Nat) : l.foldl min a ≤ a ∧ ∀ x ∈ l, l.foldl min a ≤ x := by
  induction l generalizing a with
  | nil => simp
  | cons y l ih =>
    obtain ⟨h1, h2⟩ := ih (min a y)
    refine ⟨Nat.le_trans h1 (Nat.min_le_left _ _), ?_⟩
    intro x hx
    rcases List.mem_cons.mp hx with rfl | hx
    · exact Nat.le_trans h1 (Nat.min_le_right _ _)
    · exact h2 x hx

theorem shift_roundtrip (n s : Nat) : (n >>> s) <<< s = n / 2 ^ s * 2 ^ s := by
  rw [Nat.shiftRight_eq_div_pow, Nat.shiftLeft_eq]

/-- An offset inside a multiple of the strip, plus what is left of its strip, stays inside. -/
theorem strip_end_le {p n strip q : Nat} (hp : p < q * strip) (hn : p % strip + n ≤ strip) :
    p + n ≤ q * strip := by
  have h1 : p / strip < q := Nat.div_lt_of_lt_mul (by rwa [Nat.mul_comm])
  have h2 : (p / strip + 1) * strip ≤ q * strip := Nat.mul_le_mul_right _ h1
  have h3 := Nat.div_add_mod p strip
  rw [Nat.add_mul, Nat.one_mul, Nat.mul_comm (p / strip)] at h2
  omega

/-! ## The shape of a configured array -/

/-- What `raid_bdev_create` builds, and when it does. -/
theorem make_eq {name : String} {stripSize n uuid : Nat} {level : RaidLevel} {sb : Bool} {r : RaidBdev}
    (h : RaidBdev.make name stripSize n level sb uuid = .ok r) :
    r = { name, uuid, level, superblockEnabled := sb, stripSizeKb := stripSize,
          baseBdevInfo := List.replicate n {}, minBaseBdevsOperational := level.module.minOperational n } ∧
    (level = .raid1 → stripSize = 0) ∧ (level ≠ .raid1 → spdkU32IsPow2 stripSize = true) ∧
    level.module.baseBdevsMin ≤ n ∧
    level.module.minOperational n ≠ 0 ∧ level.module.minOperational n ≤ n := by
  unfold RaidBdev.make at h
  split at h
  · cases h
  · next hraid1 =>
    split at h
    · cases h
    · next hpow =>
      split at h
      · cases h
      · next hmin =>
        simp only [] at h
        split at h
        · cases h
        · next hop =>
          obtain rfl := Except.ok.inj h
          refine ⟨rfl, ?_, ?_, Nat.le_of_not_lt hmin, fun h0 => hop (.inl h0), ?_⟩
          · intro hl
            by_contra hs
            exact hraid1 ⟨hl, hs⟩
          · intro hl
            cases hp : spdkU32IsPow2 stripSize with
            | true => rfl
            | false => exact absurd ⟨hl, hp⟩ hpow
          · exact Nat.le_of_not_lt fun hlt => hop (.inr hlt)

theorem make_error {name : String} {stripSize n uuid : Nat} {level : RaidLevel} {sb : Bool} {rc : Int}
    (h : RaidBdev.make name stripSize n level sb uuid = .error rc) : rc = -EINVAL := by
  unfold RaidBdev.make at h
  split at h
  · exact (Except.error.inj h).symm
  · split at h
    · exact (Except.error.inj h).symm
    · split at h
      · exact (Except.error.inj h).symm
      · simp only [] at h
        split at h
        · exact (Except.error.inj h).symm
        · cases h

theorem make_ok {name : String} {stripSize n uuid : Nat} {level : RaidLevel} {sb : Bool} {r : RaidBdev}
    (h : RaidBdev.make name stripSize n level sb uuid = .ok r) :
    r.level = level ∧ r.stripSizeKb = stripSize ∧ r.minBaseBdevsOperational = level.module.minOperational n ∧
    level.module.baseBdevsMin ≤ n ∧ (level ≠ .raid1 → spdkU32IsPow2 stripSize = true) ∧
    r.splitOnWriteUnit = false := by
  obtain ⟨rfl, _, hpow, hmin, _, _⟩ := make_eq h
  exact ⟨rfl, rfl, rfl, hmin, hpow, rfl⟩

theorem configureMd_eq (r : RaidBdev) (bs : List Bdev) :
    ∃ mdLen mdInterleave, (r.configureMd bs).2 = { r with mdLen, mdInterleave } := by
  cases bs with
  | nil => exact ⟨r.mdLen, r.mdInterleave, rfl⟩
  | cons b bs =>
    by_cases hd : b.difType ≠ 0
    · exact ⟨r.mdLen, r.mdInterleave, by rw [configureMd, if_pos hd]⟩
    · refine ⟨b.mdSize, b.mdInterleave, ?_⟩
      rw [configureMd, if_neg hd]
      simp only []
      split <;> rfl

theorem configureGeometry_ok {bdevs : Nat → Bdev} {alloc : Bool} {r r' : RaidBdev}
    (h : r.configureGeometry bdevs alloc = (0, r')) :
    ∃ blocklen mdLen mdInterleave,
      let stripSize := u32 (r.stripSizeKb * 1024) / blocklen
      (stripSize ≠ 0 ∨ r.level = .raid1) ∧
      RaidBdev.start alloc { r with
        stripSize, stripSizeShift := spdkU32Log2 stripSize, blocklenShift := spdkU32Log2 blocklen
        blocklen, mdLen, mdInterleave } = (0, r') := by
  unfold RaidBdev.configureGeometry at h
  split at h
  · cases h
  · next blocklen hb =>
    simp only [] at h
    split at h
    · cases h
    · next hs =>
      set r1 : RaidBdev := { r with
        stripSize := u32 (r.stripSizeKb * 1024) / blocklen
        stripSizeShift := spdkU32Log2 (u32 (r.stripSizeKb * 1024) / blocklen)
        blocklenShift := spdkU32Log2 blocklen, blocklen := blocklen } with hr1
      obtain ⟨mdLen, mdInterleave, hm⟩ := configureMd_eq r1 (r1.bases bdevs)
      split at h
      · next hrc =>
        exact absurd (congrArg Prod.fst h) hrc
      · refine ⟨blocklen, mdLen, mdInterleave, ?_, ?_⟩
        · by_contra hn
          push Not at hn
          exact hs hn
        · rw [hm] at h
          exact h

/-- `module->start` succeeds with the fields its level sets. -/
theorem start_ok {alloc : Bool} {r r' : RaidBdev} (h : r.start alloc = (0, r')) :
    r' = match r.level with
      | .raid0 => r.raid0Start
      | .raid1 => r.raid1Start
      | .concat => r.concatStart
      | .raid5f => r.raid5fStart := by
  unfold RaidBdev.start at h
  cases hl : r.level <;> rw [hl] at h <;> simp only [] at h ⊢
  · exact (congrArg Prod.snd h).symm
  all_goals
    split at h
    · exact (congrArg Prod.snd h).symm
    · cases h

/-- A power-of-two strip size in KB and a power-of-two block length make a power-of-two strip. -/
theorem strip_pow2 {kb blocklen k : Nat} (hkb : spdkU32IsPow2 kb = true) (hb : blocklen = 2 ^ k)
    (hs : u32 (kb * 1024) / blocklen ≠ 0) :
    ∃ m < 32, u32 (kb * 1024) / blocklen = 2 ^ m := by
  obtain ⟨j, rfl⟩ := spdkU32IsPow2_iff.mp hkb
  rw [show (1024 : Nat) = 2 ^ 10 by norm_num, ← Nat.pow_add] at hs ⊢
  generalize j + 10 = a at hs ⊢
  by_cases ha : a < 32
  · rw [u32, Nat.mod_eq_of_lt (Nat.pow_lt_pow_right (by norm_num) ha), hb] at hs ⊢
    have hk : k ≤ a := by
      by_contra hk
      exact hs (Nat.div_eq_of_lt (Nat.pow_lt_pow_right (by norm_num) (by omega)))
    exact ⟨a - k, by omega, Nat.pow_div hk (by norm_num)⟩
  · have hz : u32 (2 ^ a) = 0 := Nat.mod_eq_zero_of_dvd (Nat.pow_dvd_pow 2 (by omega))
    rw [hz, Nat.zero_div] at hs
    exact absurd rfl hs

section start
variable {r : RaidBdev}

theorem minBlockcnt_le {info : RaidBaseBdevInfo} (h : info ∈ r.baseBdevInfo) : r.minBlockcnt ≤ info.dataSize :=
  (foldl_min_le _ _).2 _ (List.mem_map_of_mem h)

theorem wholeStrips_eq (n : Nat) : r.wholeStrips n = n / 2 ^ r.stripSizeShift * 2 ^ r.stripSizeShift :=
  shift_roundtrip _ _

theorem wholeStrips_le (n : Nat) : r.wholeStrips n ≤ n := by
  rw [wholeStrips_eq]
  exact Nat.div_mul_le_self _ _

@[simp] theorem length_mapInfo (f : RaidBaseBdevInfo → RaidBaseBdevInfo) :
    (r.mapInfo f).numBaseBdevs = r.numBaseBdevs := List.length_map f

theorem uniform_mapInfo (dataSize : Nat) :
    Uniform (r.mapInfo fun info => { info with dataSize }) dataSize := by
  intro info hi
  obtain ⟨before, -, rfl⟩ := List.mem_map.mp hi
  rfl

/-- A region that shrinks where it is still fits. -/
theorem RegionsFit.mapInfo {bdevs : Nat → Bdev} {f : RaidBaseBdevInfo → RaidBaseBdevInfo}
    (h : ∀ info ∈ r.baseBdevInfo, (f info).dataOffset + (f info).dataSize ≤ (bdevs ((f info).desc.getD 0)).blockcnt) :
    RegionsFit bdevs (r.mapInfo f) := by
  intro info hi
  obtain ⟨before, hb, rfl⟩ := List.mem_map.mp hi
  exact h before hb

theorem raid0Start_shape (hs : Striped r) :
    Striped r.raid0Start ∧ ∃ q, Uniform r.raid0Start (q * r.raid0Start.stripSize) ∧
      r.raid0Start.blockcnt = u64 (q * r.raid0Start.stripSize * r.raid0Start.numBaseBdevs) := by
  have hq : r.wholeStrips r.minBlockcnt = r.minBlockcnt / r.stripSize * r.stripSize := by
    rw [wholeStrips_eq, ← hs.strip_size]
  have hu := uniform_mapInfo (r := r) (r.wholeStrips r.minBlockcnt)
  rw [hq] at hu
  unfold raid0Start
  rw [hq]
  simp only []
  split
  · exact ⟨⟨hs.strip_size, hs.shift_lt⟩, r.minBlockcnt / r.stripSize, hu, rfl⟩
  · exact ⟨⟨hs.strip_size, hs.shift_lt⟩, r.minBlockcnt / r.stripSize, hu, rfl⟩

theorem concatRanges_chained : ∀ (infos : List RaidBaseBdevInfo) (total : Nat),
    Chained total (r.concatRanges total infos).1 (r.concatRanges total infos).2 ∧
    (r.concatRanges total infos).1.map (·.length) = infos.map (fun info => r.wholeStrips info.dataSize)
  | [], total => ⟨rfl, rfl⟩
  | info :: infos, total => by
    obtain ⟨h1, h2⟩ := concatRanges_chained infos (u64 (total + r.wholeStrips info.dataSize))
    exact ⟨⟨rfl, h1⟩, by simp only [concatRanges, List.map_cons, h2]⟩

/-- Ranges of whole strips. -/
theorem concatRanges_dvd (hs : Striped r) {infos : List RaidBaseBdevInfo} {total : Nat} :
    ∀ range ∈ (r.concatRanges total infos).1, r.stripSize ∣ range.length := by
  intro range hr
  have hlen := List.mem_map_of_mem (f := (·.length)) hr
  rw [(concatRanges_chained infos total).2] at hlen
  obtain ⟨info, -, he⟩ := List.mem_map.mp hlen
  rw [← he, wholeStrips_eq, ← hs.strip_size]
  exact Nat.dvd_mul_left _ _

theorem concatStart_shape (hs : Striped r) (hw : r.splitOnWriteUnit = false) :
    Striped r.concatStart ∧ r.concatStart.splitOnOptimalIoBoundary = true ∧
    r.concatStart.splitOnWriteUnit = false ∧ r.concatStart.optimalIoBoundary = r.concatStart.stripSize ∧
    Chained 0 r.concatStart.blockRange r.concatStart.blockcnt ∧
    r.concatStart.blockRange.map (·.length) = r.concatStart.baseBdevInfo.map (·.dataSize) ∧
    ∀ range ∈ r.concatStart.blockRange, r.concatStart.stripSize ∣ range.length := by
  obtain ⟨h1, h2⟩ := concatRanges_chained r.baseBdevInfo 0
  refine ⟨⟨hs.strip_size, hs.shift_lt⟩, rfl, hw, rfl, h1, ?_, concatRanges_dvd hs⟩
  refine h2.trans ?_
  simp [concatStart, mapInfo]

theorem raid5fStart_shape (hs : Striped r) (hd : r.minBaseBdevsOperational = r.numBaseBdevs - 1) :
    Striped r.raid5fStart ∧ r.raid5fStart.splitOnOptimalIoBoundary = true ∧
    r.raid5fStart.splitOnWriteUnit = true ∧ r.raid5fStart.optimalIoBoundary = r.raid5fStart.stripSize ∧
    r.raid5fStart.writeUnitSize = r.raid5fStart.stripeBlocks ∧
    ∃ totalStripes, r.raid5fStart.modulePrivate =
        .raid5f (u32 (r.raid5fStart.stripSize * (r.raid5fStart.numBaseBdevs - 1))) totalStripes ∧
      Uniform r.raid5fStart (totalStripes * r.raid5fStart.stripSize) ∧
      r.raid5fStart.blockcnt = u64 (r.raid5fStart.stripeBlocks * totalStripes) := by
  refine ⟨⟨hs.strip_size, hs.shift_lt⟩, rfl, rfl, rfl, rfl, r.minBlockcnt / r.stripSize, ?_,
    uniform_mapInfo _, rfl⟩
  have hn : r.raid5fStart.numBaseBdevs = r.numBaseBdevs := List.length_map _
  rw [hn, ← hd]
  rfl

/-- The data size `start` gives a slot. -/
def RaidBdev.startDataSize (r : RaidBdev) (info : RaidBaseBdevInfo) : Nat :=
  match r.level with
  | .raid0 => r.wholeStrips r.minBlockcnt
  | .raid1 => r.minBlockcnt
  | .concat => r.wholeStrips info.dataSize
  | .raid5f => r.minBlockcnt / r.stripSize * r.stripSize

theorem startDataSize_le {info : RaidBaseBdevInfo} (h : info ∈ r.baseBdevInfo) :
    r.startDataSize info ≤ info.dataSize := by
  have hmin := minBlockcnt_le h
  unfold RaidBdev.startDataSize
  split
  · exact Nat.le_trans (wholeStrips_le _) hmin
  · exact hmin
  · exact wholeStrips_le _
  · exact Nat.le_trans (Nat.div_mul_le_self _ _) hmin

/-- Every level's `start` sets the data size of each slot, and nothing else of it. -/
theorem start_slots {alloc : Bool} {r' : RaidBdev} (h : r.start alloc = (0, r')) :
    r'.baseBdevInfo = r.baseBdevInfo.map (fun info => { info with dataSize := r.startDataSize info }) ∧
    r'.level = r.level ∧ r'.blocklen = r.blocklen ∧ r'.stripSize = r.stripSize := by
  rw [start_ok h]
  unfold RaidBdev.startDataSize
  cases hl : r.level with
  | raid0 =>
    simp only [raid0Start]
    split
    · exact ⟨rfl, hl, rfl, rfl⟩
    · exact ⟨rfl, hl, rfl, rfl⟩
  | raid1 => exact ⟨rfl, hl, rfl, rfl⟩
  | concat => exact ⟨rfl, hl, rfl, rfl⟩
  | raid5f => exact ⟨rfl, hl, rfl, rfl⟩

/-- Every level's `start` leaves each slot on its base bdev, and only ever shrinks its region. -/
theorem start_regions {alloc : Bool} {r' : RaidBdev} {bdevs : Nat → Bdev} (h : r.start alloc = (0, r'))
    (hf : RegionsFit bdevs r) : RegionsFit bdevs r' ∧ r'.numBaseBdevs = r.numBaseBdevs ∧ r'.level = r.level ∧
      r'.blocklen = r.blocklen := by
  obtain ⟨hslots, hlevel, hblocklen, -⟩ := start_slots h
  refine ⟨?_, ?_, hlevel, hblocklen⟩
  · intro info hi
    rw [hslots] at hi
    obtain ⟨before, hb, rfl⟩ := List.mem_map.mp hi
    exact Nat.le_trans (Nat.add_le_add_left (startDataSize_le hb) _) (hf before hb)
  · unfold RaidBdev.numBaseBdevs
    rw [hslots, List.length_map]

end start

/-- What holds of every assembled array. -/
structure Sound (bdevs : Nat → Bdev) (r : RaidBdev) : Prop where
  num_base_bdevs_le : r.numBaseBdevs ≤ 255
  base_bdevs_min : r.level.module.baseBdevsMin ≤ r.numBaseBdevs
  regions : RegionsFit bdevs r
  shape : Shape r

theorem layout_fits {before info : RaidBaseBdevInfo} {sb : Bool} {b : Nat} {bdev : Bdev}
    (h : RaidBaseBdevInfo.layout before sb b bdev = (0, info)) :
    info.desc = some b ∧ info.dataOffset + info.dataSize ≤ bdev.blockcnt := by
  unfold RaidBaseBdevInfo.layout at h
  simp only [] at h
  split at h
  · split at h
    · cases h
    · next hlt =>
      obtain rfl := congrArg Prod.snd h
      refine ⟨rfl, ?_⟩
      simp only [] at hlt ⊢
      omega
  · obtain rfl := congrArg Prod.snd h
    exact ⟨rfl, by simp⟩

/-- The array `start` gets from `raid_bdev_configure`. -/
structure Starting (n : Nat) (level : RaidLevel) (infos : List RaidBaseBdevInfo) (r : RaidBdev) : Prop where
  slots : r.baseBdevInfo = infos
  num_base_bdevs : r.numBaseBdevs = n
  level_eq : r.level = level
  base_bdevs_min : level.module.baseBdevsMin ≤ n
  min_operational : r.minBaseBdevsOperational = level.module.minOperational n
  write_unit : r.splitOnWriteUnit = false
  striped : level ≠ .raid1 → Striped r

theorem configured_start {bdevs : Nat → Bdev} {name : String} {stripSize n uuid : Nat} {level : RaidLevel}
    {sb alloc : Bool} {r r' : RaidBdev} {infos : List RaidBaseBdevInfo}
    (hmake : RaidBdev.make name stripSize n level sb uuid = .ok r) (hlength : infos.length = n)
    (hconf : ({ r with baseBdevInfo := infos }).configureGeometry bdevs alloc = (0, r'))
    (hblock : ∃ k, r'.blocklen = 2 ^ k) :
    ∃ r₁, Starting n level infos r₁ ∧ r₁.start alloc = (0, r') := by
  obtain ⟨hlevel, hkb, hminop, hmin, hpow, hwu⟩ := make_ok hmake
  obtain ⟨blocklen, mdLen, mdInterleave, hs, hstart⟩ := configureGeometry_ok hconf
  simp only [] at hs hstart
  rw [hlevel] at hs hstart
  set r1 : RaidBdev := { r with
    baseBdevInfo := infos, level := level
    stripSize := u32 (r.stripSizeKb * 1024) / blocklen
    stripSizeShift := spdkU32Log2 (u32 (r.stripSizeKb * 1024) / blocklen)
    blocklenShift := spdkU32Log2 blocklen, blocklen, mdLen, mdInterleave } with hr1
  have hr1' : r1.start alloc = (0, r') := by
    rw [← hstart, hr1, ← hlevel]
  obtain ⟨-, -, hbl, -⟩ := start_slots hr1'
  refine ⟨r1, ⟨rfl, hlength, rfl, hmin, hminop, hwu, fun hne => ?_⟩, hr1'⟩
  obtain ⟨k, hk⟩ := hblock
  rw [hbl] at hk
  obtain ⟨m, hm, hp⟩ := strip_pow2 (hpow hne) hk (by rw [← hkb]; exact hs.resolve_right hne)
  have hp' : r1.stripSize = 2 ^ m := by rw [← hp, ← hkb]
  have hsh : r1.stripSizeShift = m := by
    have : r1.stripSizeShift = spdkU32Log2 r1.stripSize := rfl
    rw [this, hp', spdkU32Log2_two_pow]
  exact ⟨by rw [hp', hsh], by rw [hsh]; exact hm⟩

/-- What `start` makes is sound as soon as the data regions fit. -/
theorem Starting.sound {bdevs : Nat → Bdev} {n : Nat} {level : RaidLevel} {alloc : Bool} {r r' : RaidBdev}
    {infos : List RaidBaseBdevInfo} (h : Starting n level infos r) (hn : n ≤ 255)
    (hstart : r.start alloc = (0, r')) (hfit : RegionsFit bdevs r') : Sound bdevs r' := by
  obtain ⟨hslots, hlevel, -, -⟩ := start_slots hstart
  have hlevel : r'.level = level := hlevel.trans h.level_eq
  have hn' : r'.numBaseBdevs = n := by
    rw [← h.num_base_bdevs]
    unfold RaidBdev.numBaseBdevs
    rw [hslots, List.length_map]
  refine ⟨by omega, by rw [hlevel, hn']; exact h.base_bdevs_min, hfit, ?_⟩
  have hok := start_ok hstart
  unfold Shape
  rw [hlevel]
  rw [h.level_eq] at hok
  have hmin := h.base_bdevs_min
  have hminop := h.min_operational
  have hstriped := h.striped
  cases level with
  | raid0 =>
    rw [hok]
    exact raid0Start_shape (hstriped (by decide))
  | raid1 =>
    rw [hok]
    exact uniform_mapInfo _
  | concat =>
    rw [hok]
    exact concatStart_shape (hstriped (by decide)) h.write_unit
  | raid5f =>
    rw [hok]
    refine raid5fStart_shape (hstriped (by decide)) ?_
    rw [h.num_base_bdevs, hminop]
    simp only [RaidLevel.module, RaidBdevModule.minOperational, u8] at hmin ⊢
    omega

/-- A resize keeps the regions on base bdevs that have not shrunk below them. -/
theorem Sound.resized {bdevs : Nat → Bdev} {r : RaidBdev} (h : Sound bdevs r) (notifyRc : Int)
    (hresize : r.level.module.resize = true) : Sound bdevs (r.raid0Resize bdevs notifyRc) := by
  have hl : r.level = .raid0 := by
    cases hl : r.level <;> rw [hl] at hresize <;> first | rfl | cases hresize
  obtain ⟨hn, hmin, hfit, hshape⟩ := h
  unfold raid0Resize
  simp only []
  split
  · exact ⟨hn, hmin, hfit, hshape⟩
  split
  · exact ⟨hn, hmin, hfit, hshape⟩
  set m := (r.baseBdevInfo.map fun info =>
    sub64 (bdevs (info.desc.getD 0)).blockcnt info.dataOffset).foldl min uint64Max with hm
  unfold Shape at hshape
  rw [hl] at hshape
  obtain ⟨hs, -⟩ := hshape
  have hlen := length_mapInfo (r := r) fun info => { info with dataSize := r.wholeStrips m }
  refine ⟨by rw [← hlen] at hn; exact hn, by rw [← hlen] at hmin; exact hmin, ?_, ?_⟩
  · refine RegionsFit.mapInfo fun info hi => ?_
    have h1 := (foldl_min_le (r.baseBdevInfo.map fun info =>
      sub64 (bdevs (info.desc.getD 0)).blockcnt info.dataOffset) uint64Max).2 _ (List.mem_map_of_mem hi)
    rw [← hm] at h1
    have h2 := hfit info hi
    have h3 := wholeStrips_le (r := r) m
    rw [sub64_of_le (by omega) (bdevs _).blockcnt_lt] at h1
    simp only []
    omega
  · unfold Shape
    rw [show ({ r.mapInfo (fun info => { info with dataSize := r.wholeStrips m }) with
      blockcnt := u64 (r.wholeStrips m * r.numBaseBdevs) } : RaidBdev).level = .raid0 from hl]
    have e : r.wholeStrips m = m / r.stripSize * r.stripSize := by rw [wholeStrips_eq, ← hs.strip_size]
    refine ⟨⟨hs.strip_size, hs.shift_lt⟩, m / r.stripSize, ?_, ?_⟩
    · intro info hi
      obtain ⟨before, -, rfl⟩ := List.mem_map.mp hi
      exact e
    · refine (congrArg (fun k => u64 (r.wholeStrips m * k)) hlen.symm).trans ?_
      rw [e]
      rfl

theorem Sound.grown {bdevs bdevs' : Nat → Bdev} {r : RaidBdev} (h : Sound bdevs r)
    (hle : ∀ b, (bdevs b).blockcnt ≤ (bdevs' b).blockcnt) : Sound bdevs' r :=
  ⟨h.num_base_bdevs_le, h.base_bdevs_min, fun info hi => Nat.le_trans (h.regions info hi) (hle _), h.shape⟩

/-- An array stays sound. -/
theorem Later.sound {bdevs bdevs' : Nat → Bdev} {r r' : RaidBdev} (h : Later bdevs r bdevs' r')
    (hs : Sound bdevs r) : Sound bdevs' r' := by
  induction h with
  | refl => exact hs
  | grown _ hle ih => exact ih.grown hle
  | resized notifyRc _ hresize ih => exact ih.resized notifyRc hresize

theorem Configured.sound {bdevs : Nat → Bdev} {laid r : RaidBdev} (h : Configured bdevs laid r)
    (hfit : RegionsFit bdevs r) : Sound bdevs r := by
  obtain ⟨_, hn, hmake, hlength, -, -, hconf, hblock⟩ := h
  obtain ⟨r₁, hr₁, hstart⟩ := configured_start hmake hlength hconf hblock
  exact hr₁.sound hn hstart hfit

theorem Configured.regions {bdevs : Nat → Bdev} {laid r : RaidBdev} (h : Configured bdevs laid r)
    (hlaid : LaidOut bdevs laid) : RegionsFit bdevs r := by
  obtain ⟨_, -, hmake, hlength, -, -, hconf, hblock⟩ := h
  obtain ⟨r₁, hr₁, hstart⟩ := configured_start hmake hlength hconf hblock
  refine (start_regions hstart fun info hi => ?_).1
  rw [hr₁.slots] at hi
  obtain ⟨before, b, hl⟩ := hlaid info hi
  obtain ⟨hd, hle⟩ := layout_fits hl
  rw [hd]
  exact hle

theorem Assembled.sound {bdevs : Nat → Bdev} {r : RaidBdev} (h : Assembled bdevs r) : Sound bdevs r := by
  obtain ⟨bdevs₀, laid, r₀, hconf, hlaid, hlater⟩ := h
  exact hlater.sound (hconf.sound (hconf.regions hlaid))

/-- An array as it is configured -/
theorem Assembled.configured {bdevs : Nat → Bdev} {name : String} {stripSize n uuid : Nat} {level : RaidLevel}
    {superblock alloc : Bool} {r r' : RaidBdev} {infos : List RaidBaseBdevInfo}
    (hstrip : stripSize < 2 ^ 32) (hn : n ≤ 255)
    (hmake : RaidBdev.make name stripSize n level superblock uuid = .ok r) (hlength : infos.length = n)
    (hlayout : ∀ info ∈ infos, ∃ before b, RaidBaseBdevInfo.layout before superblock b (bdevs b) = (0, info))
    (hconf : ({ r with baseBdevInfo := infos }).configureGeometry bdevs alloc = (0, r'))
    (hblocklen : ∃ k, r'.blocklen = 2 ^ k) : Assembled bdevs r' := by
  obtain ⟨hr, -, -, -, hmin, hle⟩ := make_eq hmake
  have hpos : 0 < infos.length := by omega
  refine ⟨bdevs, _, r', .intro hstrip hn hmake hlength ?_ ?_ hconf hblocklen, ?_, .refl⟩
  · intro info hi
    obtain ⟨before, b, hl⟩ := hlayout info hi
    exact ⟨before, b, 0, hl⟩
  · exact ⟨_, List.getElem_mem hpos, hlayout _ (List.getElem_mem hpos)⟩
  · have hsb : r.superblockEnabled = superblock := by rw [hr]
    intro info hi
    rw [show ({ r with baseBdevInfo := infos } : RaidBdev).superblockEnabled = superblock from hsb]
    exact hlayout info hi

end FlexBSO.Raid

import FlexBSO.Raid.Region

/- The geometry an array is started with. `raid_bdev_configure` takes the strip size
   from KB to blocks by a 32-bit product and a truncating division, and both shifts
   are rounded logarithms; it never asks whether the block length is a power of two.
   `geometry_exact` says when sizes, shifts and masks agree all the same: for block
   lengths that are, and while raid5f's shifted chunk indices stay below the sign
   bit. The addressing each level would have by division and remainder is written
   down next to its own (`ByDivision`). -/
namespace FlexBSO.Raid

namespace RaidBdev
variable (r : RaidBdev)

/-- `raid_bdev_configure` up to the call of `module->start` -/
def beforeStart (bdevs : Nat → Bdev) : Int × RaidBdev :=
  match commonBlocklen 0 (r.bases bdevs) with
  | none => (-EINVAL, r)
  | some blocklen =>
    let r := { r with stripSize := u32 (r.stripSizeKb * 1024) / blocklen }
    if r.stripSize = 0 ∧ r.level ≠ .raid1 then (-EINVAL, r)
    else
      let r := { r with
        stripSizeShift := spdkU32Log2 r.stripSize, blocklenShift := spdkU32Log2 blocklen, blocklen }
      r.configureMd (r.bases bdevs)

theorem configureGeometry_eq (bdevs : Nat → Bdev) (alloc : Bool) :
    r.configureGeometry bdevs alloc =
      if (r.beforeStart bdevs).1 ≠ 0 then r.beforeStart bdevs else (r.beforeStart bdevs).2.start alloc := by
  unfold configureGeometry beforeStart
  cases commonBlocklen 0 (r.bases bdevs) with
  | none => rfl
  | some blocklen =>
    simp only []
    split
    · rfl
    · split <;> rfl

/-- `raid0_submit_rw_request`, by division -/
def raid0RwByDivision (io : RaidIo) : List Child :=
  let startStrip := io.offsetBlocks / r.stripSize
  let endStrip := sub64 (io.offsetBlocks + io.numBlocks) 1 / r.stripSize
  if startStrip ≠ endStrip ∧ 1 < r.numBaseBdevs then []
  else
    let pdLba := u64 (u64 (startStrip / r.numBaseBdevs * r.stripSize) + io.offsetBlocks % r.stripSize)
    [r.child (startStrip % r.numBaseBdevs) pdLba io.numBlocks]

/-- `_raid0_get_io_range`, by division -/
def raid0IoRangeByDivision (offsetBlocks numBlocks : Nat) : IoRange :=
  let totalBlocks := sub64 (offsetBlocks + numBlocks) (if 0 < numBlocks then 1 else 0)
  let startStrip := offsetBlocks / r.stripSize
  let endStrip := totalBlocks / r.stripSize
  { stripSize := r.stripSize
    startStripInDisk := startStrip / r.numBaseBdevs
    endStripInDisk := endStrip / r.numBaseBdevs
    startOffsetInStrip := offsetBlocks % r.stripSize
    endOffsetInStrip := totalBlocks % r.stripSize
    startDisk := startStrip % r.numBaseBdevs
    endDisk := endStrip % r.numBaseBdevs
    nDisksInvolved := u8 (min (u64 (sub64 endStrip startStrip + 1)) r.numBaseBdevs) }

/-- The data blocks of a stripe, as `raid5f_start` multiplies them -/
def stripeDataBlocks : Nat := u32 (r.stripSize * r.stripeDataChunksNum)

end RaidBdev

open RaidBdev

/-- The sizes `module->start` finds are exact: no wrap, nothing cut off, and the shifts are theirs. -/
structure ExactGeometry (r : RaidBdev) : Prop where
  strip_bytes : r.stripSize * r.blocklen = r.stripSizeKb * 1024
  no_overflow : r.stripSizeKb * 1024 < 2 ^ 32
  strip_size : r.stripSize = 1 <<< r.stripSizeShift
  blocklen : r.blocklen = 1 <<< r.blocklenShift

/-- Addressing by shifts and masks is addressing by division and remainder: raid0's, the whole
    strips raid0 and concat make of a data region, bytes, and raid5f's in a stripe. -/
structure AddressesByDivision (r : RaidBdev) : Prop where
  raid0_rw : ∀ io, r.raid0SubmitRwRequest io = r.raid0RwByDivision io
  raid0_range : ∀ offsetBlocks numBlocks,
    r.raid0GetIoRange offsetBlocks numBlocks = r.raid0IoRangeByDivision offsetBlocks numBlocks
  whole_strips : ∀ blocks, r.wholeStrips blocks = blocks / r.stripSize * r.stripSize
  bytes : ∀ blocks, blocks <<< r.blocklenShift = blocks * r.blocklen
  stripe : ∀ stripeIndex, stripeIndex <<< r.stripSizeShift = stripeIndex * r.stripSize
  chunk : r.level = .raid5f → ∀ stripeOffset < r.stripeDataBlocks,
    r.chunkDataIdx stripeOffset = stripeOffset / r.stripSize ∧
    r.chunkOffset stripeOffset = stripeOffset % r.stripSize

/-! ## What comes before the start -/

theorem commonBlocklen_eq {blocklen : Nat} : ∀ (bs : List Bdev), (∀ b ∈ bs, b.blocklen = blocklen) →
    commonBlocklen blocklen bs = some blocklen
  | [], _ => rfl
  | b :: bs, h => by
    have hb := h b (List.mem_cons_self ..)
    have ih := commonBlocklen_eq bs fun x hx => h x (List.mem_cons_of_mem _ hx)
    rw [commonBlocklen, hb]
    split
    · exact ih
    · rw [if_neg (by simp), ih]

theorem commonBlocklen_zero {blocklen : Nat} {bs : List Bdev} (hne : bs ≠ [])
    (h : ∀ b ∈ bs, b.blocklen = blocklen) : commonBlocklen 0 bs = some blocklen := by
  cases bs with
  | nil => exact absurd rfl hne
  | cons b bs =>
    rw [commonBlocklen, if_pos rfl, h b (List.mem_cons_self ..)]
    exact commonBlocklen_eq bs fun x hx => h x (List.mem_cons_of_mem _ hx)

/-- The fields `start` is called with. -/
theorem beforeStart_ok {bdevs : Nat → Bdev} {r r' : RaidBdev} {blocklen : Nat} (hne : r.baseBdevInfo ≠ [])
    (hblocklen : ∀ info ∈ r.baseBdevInfo, (bdevs (info.desc.getD 0)).blocklen = blocklen)
    (h : r.beforeStart bdevs = (0, r')) :
    (u32 (r.stripSizeKb * 1024) / blocklen ≠ 0 ∨ r.level = .raid1) ∧
    ∃ mdLen mdInterleave, r' = { r with
      stripSize := u32 (r.stripSizeKb * 1024) / blocklen
      stripSizeShift := spdkU32Log2 (u32 (r.stripSizeKb * 1024) / blocklen)
      blocklenShift := spdkU32Log2 blocklen, blocklen, mdLen, mdInterleave } := by
  have hcommon : commonBlocklen 0 (r.bases bdevs) = some blocklen := by
    refine commonBlocklen_zero (by simpa [RaidBdev.bases] using hne) ?_
    intro b hb
    obtain ⟨info, hi, rfl⟩ := List.mem_map.mp hb
    exact hblocklen info hi
  unfold RaidBdev.beforeStart at h
  rw [hcommon] at h
  simp only [] at h
  split at h
  · cases h
  · next hs =>
    obtain ⟨mdLen, mdInterleave, hm⟩ := configureMd_eq { r with
      stripSize := u32 (r.stripSizeKb * 1024) / blocklen
      stripSizeShift := spdkU32Log2 (u32 (r.stripSizeKb * 1024) / blocklen)
      blocklenShift := spdkU32Log2 blocklen, blocklen := blocklen } (r.bases bdevs)
    refine ⟨?_, mdLen, mdInterleave, ?_⟩
    · by_contra hn
      push Not at hn
      exact hs hn
    · have hr' := congrArg Prod.snd h
      exact hr'.symm.trans hm

/-! ## Powers of two -/

/-- A strip size in KB that is a power of two either fits 32 bits in bytes, or is zero there. -/
theorem kb_fits {kb : Nat} (hkb : spdkU32IsPow2 kb = true) (hs : u32 (kb * 1024) ≠ 0) :
    ∃ a < 32, kb * 1024 = 2 ^ a := by
  obtain ⟨j, rfl⟩ := spdkU32IsPow2_iff.mp hkb
  have ha : 2 ^ j * 1024 = 2 ^ (j + 10) := by rw [Nat.pow_add]
  refine ⟨j + 10, ?_, ha⟩
  by_contra hlt
  apply hs
  rw [u32, ha]
  exact Nat.mod_eq_zero_of_dvd (Nat.pow_dvd_pow 2 (by omega))

section exact
variable {r : RaidBdev} {blocklen : Nat}

/-- With a power-of-two block length all sizes are exact. -/
theorem exactGeometry_of_pow2 {k : Nat} (hkb : spdkU32IsPow2 r.stripSizeKb = true)
    (hstrip : r.stripSize = u32 (r.stripSizeKb * 1024) / r.blocklen) (hne : r.stripSize ≠ 0)
    (hshift : r.stripSizeShift = spdkU32Log2 r.stripSize) (hbshift : r.blocklenShift = spdkU32Log2 r.blocklen)
    (hk : r.blocklen = 2 ^ k) : ExactGeometry r ∧ Striped r := by
  obtain ⟨a, ha, hbytes⟩ := kb_fits hkb fun h0 => hne (by rw [hstrip, h0, Nat.zero_div])
  have hlt : r.stripSizeKb * 1024 < 2 ^ 32 := by
    rw [hbytes]
    exact Nat.pow_lt_pow_right (by norm_num) ha
  rw [u32, Nat.mod_eq_of_lt hlt, hbytes, hk] at hstrip
  have hka : k ≤ a := by
    by_contra hka
    exact hne (hstrip.trans (Nat.div_eq_of_lt (Nat.pow_lt_pow_right (by norm_num) (by omega))))
  rw [Nat.pow_div hka (by norm_num)] at hstrip
  have hsh : r.stripSizeShift = a - k := by rw [hshift, hstrip, spdkU32Log2_two_pow]
  have hbsh : r.blocklenShift = k := by rw [hbshift, hk, spdkU32Log2_two_pow]
  refine ⟨⟨?_, hlt, ?_, ?_⟩, ⟨by rw [hstrip, hsh], by omega⟩⟩
  · rw [hstrip, hk, hbytes, ← Nat.pow_add, Nat.sub_add_cancel hka]
  · rw [hsh, Nat.one_shiftLeft, hstrip]
  · rw [hbsh, Nat.one_shiftLeft, hk]

/-- Then shifts divide and masks leave remainders, as far as chunk indices fit an `int`. -/
theorem addressesByDivision (hs : Striped r) (hb : r.blocklen = 1 <<< r.blocklenShift)
    (hdata : r.stripeDataChunksNum < 2 ^ 8)
    (hfits : r.level = .raid5f → r.stripeDataBlocks ≤ 2 ^ 31) : AddressesByDivision r := by
  have hshr : ∀ x, x >>> r.stripSizeShift = x / r.stripSize := by
    intro x
    rw [Nat.shiftRight_eq_div_pow, hs.strip_size]
  have hshl : ∀ x, x <<< r.stripSizeShift = x * r.stripSize := by
    intro x
    rw [Nat.shiftLeft_eq, hs.strip_size]
  have hmask : ∀ x, x &&& (r.stripSize - 1) = x % r.stripSize := by
    intro x
    rw [hs.strip_size, Nat.and_two_pow_sub_one_eq_mod]
  refine ⟨?_, ?_, ?_, ?_, hshl, ?_⟩
  · intro io
    unfold raid0SubmitRwRequest raid0RwByDivision
    simp only [hshr, hshl, hmask]
  · intro offsetBlocks numBlocks
    unfold raid0GetIoRange raid0IoRangeByDivision
    simp only [hshr]
  · intro blocks
    rw [wholeStrips, hshr, hshl]
  · intro blocks
    rw [hb, Nat.one_shiftLeft, Nat.shiftLeft_eq]
  · intro hl o ho
    have hP : r.stripeDataBlocks ≤ r.stripSize * r.stripeDataChunksNum := Nat.mod_le _ _
    have hidx : o / r.stripSize < 2 ^ 8 :=
      Nat.lt_trans (Nat.div_lt_of_lt_mul (Nat.lt_of_lt_of_le ho hP)) hdata
    refine ⟨hs.chunkDataIdx_eq hidx, ?_⟩
    have h31 := hfits hl
    have hle := Nat.div_mul_le_self o r.stripSize
    rw [hs.chunkOffset_eq hidx (by omega), if_pos (by omega), Nat.add_zero]

/-- The chunk at block 2^31 of a stripe that reaches past it is not where division puts it. -/
theorem chunkOffset_far (hs : Striped r) (hdata : r.stripeDataChunksNum < 2 ^ 8) (hfar : 2 ^ 31 < r.stripeDataBlocks) :
    r.chunkOffset (2 ^ 31) ≠ 2 ^ 31 % r.stripSize := by
  have hP : r.stripeDataBlocks ≤ r.stripSize * r.stripeDataChunksNum := Nat.mod_le _ _
  have hidx : 2 ^ 31 / r.stripSize < 2 ^ 8 :=
    Nat.lt_trans (Nat.div_lt_of_lt_mul (Nat.lt_of_lt_of_le hfar hP)) hdata
  have hdvd : r.stripSize ∣ 2 ^ 31 := by
    rw [hs.strip_size]
    exact Nat.pow_dvd_pow 2 (by have := hs.shift_lt; omega)
  rw [hs.chunkOffset_eq hidx (by norm_num), Nat.div_mul_cancel hdvd, if_neg (Nat.lt_irrefl _)]
  omega

end exact

/-! ## Assembled arrays -/

/-- The fields `raid_bdev_configure` settles before `module->start` are the same. -/
structure SameGeometry (r r' : RaidBdev) : Prop where
  level : r'.level = r.level
  num_base_bdevs : r'.numBaseBdevs = r.numBaseBdevs
  min_operational : r'.minBaseBdevsOperational = r.minBaseBdevsOperational
  strip_size_kb : r'.stripSizeKb = r.stripSizeKb
  strip_size : r'.stripSize = r.stripSize
  strip_size_shift : r'.stripSizeShift = r.stripSizeShift
  blocklen : r'.blocklen = r.blocklen
  blocklen_shift : r'.blocklenShift = r.blocklenShift

theorem ExactGeometry.same {r r' : RaidBdev} (h : ExactGeometry r) (hs : SameGeometry r r') : ExactGeometry r' := by
  refine ⟨?_, ?_, ?_, ?_⟩
  · rw [hs.strip_size, hs.blocklen, hs.strip_size_kb]
    exact h.strip_bytes
  · rw [hs.strip_size_kb]
    exact h.no_overflow
  · rw [hs.strip_size, hs.strip_size_shift]
    exact h.strip_size
  · rw [hs.blocklen, hs.blocklen_shift]
    exact h.blocklen

theorem start_same {alloc : Bool} {r r' : RaidBdev} (h : r.start alloc = (0, r')) : SameGeometry r r' := by
  have hn : ∀ f : RaidBaseBdevInfo → RaidBaseBdevInfo, (r.baseBdevInfo.map f).length = r.baseBdevInfo.length :=
    fun f => List.length_map f
  rw [start_ok h]
  cases hl : r.level with
  | raid0 =>
    simp only [raid0Start]
    split
    · exact ⟨rfl, hn _, rfl, rfl, rfl, rfl, rfl, rfl⟩
    · exact ⟨rfl, hn _, rfl, rfl, rfl, rfl, rfl, rfl⟩
  | raid1 => exact ⟨rfl, hn _, rfl, rfl, rfl, rfl, rfl, rfl⟩
  | concat => exact ⟨rfl, hn _, rfl, rfl, rfl, rfl, rfl, rfl⟩
  | raid5f => exact ⟨rfl, hn _, rfl, rfl, rfl, rfl, rfl, rfl⟩

theorem raid0Resize_same (r : RaidBdev) (bdevs : Nat → Bdev) (notifyRc : Int) :
    SameGeometry r (r.raid0Resize bdevs notifyRc) := by
  unfold raid0Resize
  simp only []
  split
  · exact ⟨rfl, rfl, rfl, rfl, rfl, rfl, rfl, rfl⟩
  · split
    · exact ⟨rfl, rfl, rfl, rfl, rfl, rfl, rfl, rfl⟩
    · exact ⟨rfl, length_mapInfo _, rfl, rfl, rfl, rfl, rfl, rfl⟩

/-- A configured array works with the number of base bdevs its level asks for, and the sizes of a
    striped one are exact. -/
theorem Configured.geometry {bdevs : Nat → Bdev} {laid r : RaidBdev} (h : Configured bdevs laid r) :
    r.minBaseBdevsOperational = r.level.module.minOperational r.numBaseBdevs ∧
    (r.level ≠ .raid1 → ExactGeometry r) := by
  cases h with
  | @intro name kb n uuid level sb alloc r₀ r infos hkb hn hmake hlength _ _ hconf hblock =>
    obtain ⟨hlevel, hkbeq, hmin, -, hpow, -⟩ := make_ok hmake
    obtain ⟨blocklen, mdLen, mdInterleave, hs, hstart⟩ := configureGeometry_ok hconf
    have hsame := start_same hstart
    have hl : r.level = level := hsame.level.trans hlevel
    have hnum : r.numBaseBdevs = n := hsame.num_base_bdevs.trans hlength
    refine ⟨?_, fun hne => ?_⟩
    · rw [hl, hnum]
      exact hsame.min_operational.trans hmin
    · obtain ⟨k, hk⟩ := hblock
      rw [hl] at hne
      have hstrip := hs.resolve_right (by rwa [show ({ r₀ with baseBdevInfo := infos } : RaidBdev).level = level from hlevel])
      refine ExactGeometry.same (exactGeometry_of_pow2 (k := k) ?_ rfl hstrip rfl rfl ?_).1 hsame
      · exact hkbeq ▸ hpow hne
      · exact hsame.blocklen.symm.trans hk

theorem Assembled.geometry {bdevs : Nat → Bdev} {r : RaidBdev} (h : Assembled bdevs r) :
    r.minBaseBdevsOperational = r.level.module.minOperational r.numBaseBdevs ∧
    (r.level ≠ .raid1 → ExactGeometry r) := by
  obtain ⟨bdevs₀, laid, r₀, hconf, -, hlater⟩ := h
  induction hlater with
  | refl => exact hconf.geometry
  | grown _ _ ih => exact ih
  | @resized bdevs r notifyRc _ _ ih =>
    have hsame := raid0Resize_same r bdevs notifyRc
    refine ⟨?_, fun hne => ?_⟩
    · rw [hsame.min_operational, hsame.level, hsame.num_base_bdevs]
      exact ih.1
    · rw [hsame.level] at hne
      exact (ih.2 hne).same hsame

/-! ## Exactly when -/

/-- Whatever strip size `raid_bdev_create` accepts for a striped level, and whatever one block length
    the base bdevs have: the array `module->start` is called on is exact, and addresses by division,
    if and only if the block length is a power of two and, for raid5f, the data blocks of a stripe in
    the 32 bits they are computed in are at most 2^31. -/
theorem geometry_exact {name : String} {stripSizeKb n uuid blocklen : Nat} {level : RaidLevel} {superblock : Bool}
    {r r' : RaidBdev} {bdevs : Nat → Bdev} {infos : List RaidBaseBdevInfo} (hn : n ≤ 255)
    (hlevel : level ≠ .raid1) (hmake : RaidBdev.make name stripSizeKb n level superblock uuid = .ok r)
    (hlength : infos.length = n) (hblocklen : ∀ info ∈ infos, (bdevs (info.desc.getD 0)).blocklen = blocklen)
    (hstart : ({ r with baseBdevInfo := infos }).beforeStart bdevs = (0, r')) :
    (ExactGeometry r' ∧ AddressesByDivision r') ↔
      (∃ k, blocklen = 2 ^ k) ∧
      (level = .raid5f → u32 (stripSizeKb * 1024 / blocklen * (n - 1)) ≤ 2 ^ 31) := by
  obtain ⟨rfl, -, hpow, hmin, -, -⟩ := make_eq hmake
  have hkb := hpow hlevel
  have hn1 : 1 ≤ n := Nat.le_trans (by cases level <;> decide) hmin
  have hne : infos ≠ [] := by
    intro h0
    rw [h0] at hlength
    exact absurd hlength (by simp; omega)
  obtain ⟨hstrip, mdLen, mdInterleave, hr'⟩ := beforeStart_ok hne hblocklen hstart
  have hstrip := hstrip.resolve_right hlevel
  have hbytes : stripSizeKb * 1024 < 2 ^ 32 := by
    obtain ⟨a, ha, hbytes⟩ := kb_fits hkb fun h0 => hstrip (by simp only [] at h0 ⊢; rw [h0, Nat.zero_div])
    rw [hbytes]
    exact Nat.pow_lt_pow_right (by norm_num) ha
  have hu : u32 (stripSizeKb * 1024) = stripSizeKb * 1024 := Nat.mod_eq_of_lt hbytes
  have hb' : r'.blocklen = blocklen := by rw [hr']
  have hkb' : spdkU32IsPow2 r'.stripSizeKb = true := by rw [hr']; exact hkb
  have hstrip' : r'.stripSize = u32 (r'.stripSizeKb * 1024) / r'.blocklen := by rw [hr']
  have hne' : r'.stripSize ≠ 0 := by rw [hr']; exact hstrip
  have hshift : r'.stripSizeShift = spdkU32Log2 r'.stripSize := by rw [hr']
  have hbshift : r'.blocklenShift = spdkU32Log2 r'.blocklen := by rw [hr']
  have hdata : r'.stripeDataChunksNum < 2 ^ 8 := by
    rw [hr']
    show level.module.minOperational n < 2 ^ 8
    cases level <;> simp only [RaidLevel.module, RaidBdevModule.minOperational, u8] <;> omega
  have hl' : r'.level = level := by rw [hr']
  have hP : level = .raid5f → r'.stripeDataBlocks = u32 (stripSizeKb * 1024 / blocklen * (n - 1)) := by
    rintro rfl
    rw [hr']
    show u32 (u32 (stripSizeKb * 1024) / blocklen * u8 (n + 2 ^ 8 - 1)) = _
    rw [hu, show u8 (n + 2 ^ 8 - 1) = n - 1 by unfold u8; omega]
  constructor
  · rintro ⟨hexact, hdiv⟩
    have hb := hexact.blocklen
    rw [Nat.one_shiftLeft] at hb
    refine ⟨⟨_, hb'.symm.trans hb⟩, fun hl => ?_⟩
    by_contra hfar
    obtain ⟨-, hstriped⟩ := exactGeometry_of_pow2 hkb' hstrip' hne' hshift hbshift hb
    have ho : 2 ^ 31 < r'.stripeDataBlocks := by
      rw [hP hl]
      omega
    exact chunkOffset_far hstriped hdata ho (hdiv.chunk (hl'.trans hl) _ ho).2
  · rintro ⟨⟨k, hk⟩, hfits⟩
    obtain ⟨hexact, hstriped⟩ := exactGeometry_of_pow2 hkb' hstrip' hne' hshift hbshift (hb'.trans hk)
    refine ⟨hexact, addressesByDivision hstriped hexact.blocklen hdata fun hl => ?_⟩
    have hl := hl'.symm.trans hl
    rw [hP hl]
    exact hfits hl

/-- 64 KB strips of 512-byte blocks. -/
theorem geometry_exact_small :
    ExactGeometry ((laidOut smallBdevs 64 3 .raid0 true).beforeStart smallBdevs).2 ∧
    AddressesByDivision ((laidOut smallBdevs 64 3 .raid0 true).beforeStart smallBdevs).2 :=
  (geometry_exact (r := { laidOut smallBdevs 64 3 .raid0 true with baseBdevInfo := List.replicate 3 {} })
    (show 3 ≤ 255 by decide) (show RaidLevel.raid0 ≠ .raid1 by decide)
    (show RaidBdev.make "md" 64 3 .raid0 true 0 = .ok _ from rfl)
    (show (laidOut smallBdevs 64 3 .raid0 true).baseBdevInfo.length = 3 by decide)
    (show ∀ info ∈ (laidOut smallBdevs 64 3 .raid0 true).baseBdevInfo,
      (smallBdevs (info.desc.getD 0)).blocklen = 512 from fun _ _ => rfl)
    (show (laidOut smallBdevs 64 3 .raid0 true).beforeStart smallBdevs = (0, _) from by
      rw [Prod.ext_iff]
      exact ⟨by decide +kernel, rfl⟩)).mpr ⟨⟨9, by decide⟩, fun h => nomatch h⟩

/-- Three base bdevs of 512-byte blocks with 8 bytes of interleaved metadata each. -/
def interleavedBdevs : Nat → Bdev :=
  fun _ => { name := "base", blockcnt := 65536, blocklen := 520, mdSize := 8, mdInterleave := true
             blockcnt_lt := blockcnt_65536_lt, boundary_lt := boundary_zero_lt }

/-- The array `raid0_start` is called on over them: `raid_bdev_create` and the checks of
    `raid_bdev_configure` let 64 KB strips pass. -/
def interleavedArray : RaidBdev := ((laidOut interleavedBdevs 64 3 .raid0 false).beforeStart interleavedBdevs).2

/-- Its strips are 126 blocks, with a shift of 6: 65520 bytes, not 65536, and block 100, in the
    first strip, is sent to the second base bdev. -/
theorem geometry_inexact :
    (∃ r, RaidBdev.make "md" 64 3 .raid0 false 0 = .ok r ∧
      { r with baseBdevInfo := (laidOut interleavedBdevs 64 3 .raid0 false).baseBdevInfo } =
        laidOut interleavedBdevs 64 3 .raid0 false) ∧
    (laidOut interleavedBdevs 64 3 .raid0 false).beforeStart interleavedBdevs = (0, interleavedArray) ∧
    (interleavedArray.stripSize, interleavedArray.stripSizeShift) = (126, 6) ∧
    ¬ ExactGeometry interleavedArray ∧
    interleavedArray.raid0SubmitRwRequest ⟨.read, 100, 1⟩ = [⟨1, 100, 1⟩] ∧
    interleavedArray.raid0RwByDivision ⟨.read, 100, 1⟩ = [⟨0, 100, 1⟩] := by
  refine ⟨⟨_, rfl, rfl⟩, by decide +kernel, by decide +kernel, ?_, by decide +kernel, by decide +kernel⟩
  intro h
  have hbytes := h.strip_bytes
  revert hbytes
  decide +kernel

end FlexBSO.Raid

import FlexBSO.Raid.Region
import Mathlib.Data.List.Perm.Basic
import Mathlib.Data.List.Nodup
import Mathlib.Data.Nat.ModEq

/- What the null payload requests of raid0 cover. `_raid0_get_io_range` and
   `_raid0_split_io_range` cut a range of the array into one range for each disk;
   together they are the blocks to which a read or a write of the same range goes,
   each of them once. The addresses here are those before `data_offset` is added. -/
namespace FlexBSO.Raid

open RaidBdev Lib

/-- The part of a request on one disk: `disk_idx`, `offset_in_disk` and `nblocks_in_disk` -/
structure DiskRange where
  diskIdx : Nat
  offsetInDisk : Nat
  nblocksInDisk : Nat
  deriving DecidableEq, Repr

/-- The (disk, block) pairs of a range. -/
def DiskRange.blocks (x : DiskRange) : List (Nat × Nat) :=
  (List.range' x.offsetInDisk x.nblocksInDisk).map fun b => (x.diskIdx, b)

namespace RaidBdev
variable (r : RaidBdev)

/-- What one turn of the loop of `raid0_submit_null_payload_request` computes. -/
def raid0DiskRange (range : IoRange) (submitted : Nat) : DiskRange :=
  let diskIdx := u8 ((range.startDisk + submitted) % r.numBaseBdevs)
  let (offsetInDisk, nblocksInDisk) := raid0SplitIoRange range diskIdx
  ⟨diskIdx, offsetInDisk, nblocksInDisk⟩

/-- All turns of the loop. -/
def raid0DiskRanges (offsetBlocks numBlocks : Nat) : List DiskRange :=
  let range := r.raid0GetIoRange offsetBlocks numBlocks
  (List.range range.nDisksInvolved).map (r.raid0DiskRange range)

/-- `pd_idx` and `pd_lba` of `raid0_submit_rw_request` -/
def raid0PdLba (offsetBlocks : Nat) : Nat × Nat :=
  let startStrip := offsetBlocks >>> r.stripSizeShift
  (startStrip % r.numBaseBdevs,
   u64 (u64 ((startStrip / r.numBaseBdevs) <<< r.stripSizeShift) + (offsetBlocks &&& (r.stripSize - 1))))

end RaidBdev

/-- The null payload request of the blocks `o` to `o + n - 1` covers what reads and writes of them
    address. -/
structure RangesCover (r : RaidBdev) (o n : Nat) : Prop where
  submitted : ∀ type, r.raid0SubmitNullPayloadRequest 0 ⟨type, o, n⟩ =
    (r.raid0DiskRanges o n).map fun x => r.child x.diskIdx x.offsetInDisk x.nblocksInDisk
  addressed : ∀ type b, o ≤ b → b < o + n →
    r.raid0SubmitRwRequest ⟨type, b, 1⟩ = [r.child (r.raid0PdLba b).1 (r.raid0PdLba b).2 1]
  disks : ((r.raid0DiskRanges o n).map (·.diskIdx)).Nodup
  /-- `assert(end_strip_in_disk >= start_strip_in_disk)`, and no underflow before it -/
  strips : ∀ x ∈ r.raid0DiskRanges o n,
    ((r.raid0GetIoRange o n).endDisk < x.diskIdx → 1 ≤ (r.raid0GetIoRange o n).endStripInDisk) ∧
    (raid0StripsInDisk (r.raid0GetIoRange o n) x.diskIdx).1 ≤ (raid0StripsInDisk (r.raid0GetIoRange o n) x.diskIdx).2
  covers : ((r.raid0DiskRanges o n).flatMap DiskRange.blocks).Perm ((List.range' o n).map r.raid0PdLba)
  total : ((r.raid0DiskRanges o n).map (·.nblocksInDisk)).sum = n

section cover
variable {r : RaidBdev} {o n k : Nat}

theorem mem_blocks {x : DiskRange} {p : Nat × Nat} :
    p ∈ x.blocks ↔ p.1 = x.diskIdx ∧ x.offsetInDisk ≤ p.2 ∧ p.2 < x.offsetInDisk + x.nblocksInDisk := by
  unfold DiskRange.blocks
  rw [List.mem_map]
  constructor
  · intro h
    obtain ⟨b, hb, rfl⟩ := h
    exact ⟨rfl, List.mem_range'_1.mp hb⟩
  · intro h
    exact ⟨p.2, List.mem_range'_1.mpr h.2, Prod.ext h.1.symm rfl⟩

theorem nodup_blocks (x : DiskRange) : x.blocks.Nodup :=
  List.Nodup.map (fun _ _ h => congrArg Prod.snd h) List.nodup_range'

/-- Ranges of distinct disks have distinct blocks. -/
theorem nodup_flatMap_blocks {xs : List DiskRange} (h : (xs.map (·.diskIdx)).Nodup) :
    (xs.flatMap DiskRange.blocks).Nodup := by
  rw [List.nodup_flatMap]
  refine ⟨fun x _ => nodup_blocks x, ?_⟩
  refine List.Pairwise.imp ?_ (List.pairwise_map.mp h)
  intro x y hne p hx hy
  apply hne
  rw [← (mem_blocks.mp hx).1, ← (mem_blocks.mp hy).1]

/-- The mapping of reads and writes deals out the blocks. -/
theorem raid0PdLba_eq (hs : Striped r) {b : Nat} (hb : b < 2 ^ 64) :
    r.raid0PdLba b = deal r.stripSize r.numBaseBdevs b := by
  have hS : 0 < r.stripSize := by rw [hs.strip_size]; exact Nat.two_pow_pos _
  have hle : b / r.stripSize / r.numBaseBdevs * r.stripSize ≤ b / r.stripSize * r.stripSize :=
    Nat.mul_le_mul_right _ (Nat.div_le_self _ _)
  have hdiv := Nat.div_add_mod' b r.stripSize
  unfold raid0PdLba deal
  simp only [Nat.shiftRight_eq_div_pow, Nat.shiftLeft_eq, ← hs.strip_size]
  rw [show b &&& (r.stripSize - 1) = b % r.stripSize by rw [hs.strip_size, Nat.and_two_pow_sub_one_eq_mod],
    u64_of_lt (n := b / r.stripSize / r.numBaseBdevs * r.stripSize) (by omega), u64_of_lt (by omega)]

theorem raid0SubmitRwRequest_one {type : IoType} {b : Nat} (hb : b + 1 < 2 ^ 64) :
    r.raid0SubmitRwRequest ⟨type, b, 1⟩ = [r.child (r.raid0PdLba b).1 (r.raid0PdLba b).2 1] := by
  unfold raid0SubmitRwRequest
  dsimp only
  rw [sub64_of_le (by omega) hb, Nat.add_sub_cancel, if_neg (fun h => h.1 rfl)]
  rfl

/-- The `k`-th disk range is that of the disk of the `k`-th strip. -/
theorem raid0DiskRange_eq (hs : Striped r) (hn : 0 < r.numBaseBdevs) (hn' : r.numBaseBdevs ≤ 255) (hpos : 0 < n)
    (h64 : o + n < 2 ^ 64) :
    r.raid0DiskRange (r.raid0GetIoRange o n) k =
      ⟨(o / r.stripSize + k) % r.numBaseBdevs,
       (raid0SplitIoRange (r.raid0GetIoRange o n) ((o / r.stripSize + k) % r.numBaseBdevs)).1,
       (raid0SplitIoRange (r.raid0GetIoRange o n) ((o / r.stripSize + k) % r.numBaseBdevs)).2⟩ := by
  have hdisk : u8 (((r.raid0GetIoRange o n).startDisk + k) % r.numBaseBdevs) =
      (o / r.stripSize + k) % r.numBaseBdevs := by
    rw [raid0GetIoRange_eq hs hn hn' hpos h64]
    dsimp only
    rw [Nat.mod_add_mod]
    exact Nat.mod_eq_of_lt (by have := Nat.mod_lt (o / r.stripSize + k) hn; omega)
  unfold raid0DiskRange
  simp only [hdisk]

/-- A block of the disk of the `k`-th strip lies in that disk's range exactly if the block of the
    array that is stored there lies in the request. -/
theorem mem_raid0DiskRange (hs : Striped r) (hn : 0 < r.numBaseBdevs) (hn' : r.numBaseBdevs ≤ 255) (hpos : 0 < n)
    (h64 : o + n < 2 ^ 64) (hk : k < (r.raid0GetIoRange o n).nDisksInvolved) {p : Nat × Nat} :
    p ∈ (r.raid0DiskRange (r.raid0GetIoRange o n) k).blocks ↔ p.1 = (o / r.stripSize + k) % r.numBaseBdevs ∧
      o ≤ collect r.stripSize r.numBaseBdevs p ∧ collect r.stripSize r.numBaseBdevs p < o + n := by
  have hS : 0 < r.stripSize := by rw [hs.strip_size]; exact Nat.two_pow_pos _
  obtain ⟨first, last, hdealt, -, -, -, hord, hsplit⟩ := raid0Split_spec hs hn hn' hpos h64 hk
  rw [raid0DiskRange_eq hs hn hn' hpos h64, hsplit, mem_blocks]
  refine and_congr_right fun hp => ?_
  have hp' : p = ((o / r.stripSize + k) % r.numBaseBdevs, p.2) := Prod.ext hp rfl
  have hstart := hdealt.start_iff (x := p.2) hS
  have hend := hdealt.end_iff (x := p.2) hS
  rw [← hp'] at hstart hend
  dsimp only
  omega

/-- Every strip of the request lies on the disk of one of its first strips. -/
theorem exists_turn (hs : Striped r) (hn : 0 < r.numBaseBdevs) (hn' : r.numBaseBdevs ≤ 255) (hpos : 0 < n)
    (h64 : o + n < 2 ^ 64) {b : Nat} (hb : o ≤ b) (hb' : b < o + n) :
    ∃ k, k < (r.raid0GetIoRange o n).nDisksInvolved ∧
      (o / r.stripSize + k) % r.numBaseBdevs = b / r.stripSize % r.numBaseBdevs := by
  have h1 : o / r.stripSize ≤ b / r.stripSize := Nat.div_le_div_right hb
  have h2 : b / r.stripSize ≤ (o + n - 1) / r.stripSize := Nat.div_le_div_right (by omega)
  refine ⟨(b / r.stripSize - o / r.stripSize) % r.numBaseBdevs, ?_, ?_⟩
  · have h3 := Nat.mod_lt (b / r.stripSize - o / r.stripSize) hn
    have h4 := Nat.mod_le (b / r.stripSize - o / r.stripSize) r.numBaseBdevs
    rw [raid0GetIoRange_eq hs hn hn' hpos h64, Nat.lt_min]
    omega
  · rw [Nat.add_mod_mod, Nat.add_sub_cancel' h1]

/-- The range split covers the request: for any number of base bdevs, any strip and any range, the
    ranges lie on distinct disks, no strip count underflows, and the blocks are those that reads and
    writes of the range address, each of them once. -/
theorem raid0_ranges_cover (hs : Striped r) (hn : 1 ≤ r.numBaseBdevs) (hn' : r.numBaseBdevs ≤ 255) (hpos : 1 ≤ n)
    (h64 : o + n < 2 ^ 64) : RangesCover r o n := by
  have hS : 0 < r.stripSize := by rw [hs.strip_size]; exact Nat.two_pow_pos _
  have hmem : ∀ x ∈ r.raid0DiskRanges o n, ∃ k, k < (r.raid0GetIoRange o n).nDisksInvolved ∧
      x = r.raid0DiskRange (r.raid0GetIoRange o n) k := by
    intro x hx
    obtain ⟨k, hk, rfl⟩ := List.mem_map.mp hx
    exact ⟨k, List.mem_range.mp hk, rfl⟩
  have hdisks : ((r.raid0DiskRanges o n).map (·.diskIdx)).Nodup := by
    unfold raid0DiskRanges
    dsimp only
    rw [List.map_map]
    apply List.Nodup.map_on _ List.nodup_range
    intro i hi j hj h
    have hi := List.mem_range.mp hi
    have hj := List.mem_range.mp hj
    simp only [Function.comp_apply, raid0DiskRange_eq hs hn hn' hpos h64] at h
    have hle : (r.raid0GetIoRange o n).nDisksInvolved ≤ r.numBaseBdevs := by
      rw [raid0GetIoRange_eq hs hn hn' hpos h64]
      exact Nat.min_le_right _ _
    have h' : i % r.numBaseBdevs = j % r.numBaseBdevs := Nat.ModEq.add_left_cancel' _ h
    rwa [Nat.mod_eq_of_lt (by omega), Nat.mod_eq_of_lt (by omega)] at h'
  have hcovers : ((r.raid0DiskRanges o n).flatMap DiskRange.blocks).Perm ((List.range' o n).map r.raid0PdLba) := by
    rw [List.perm_ext_iff_of_nodup (nodup_flatMap_blocks hdisks)]
    · intro p
      rw [List.mem_flatMap, List.mem_map]
      constructor
      · intro h
        obtain ⟨x, hx, hp⟩ := h
        obtain ⟨k, hk, rfl⟩ := hmem x hx
        obtain ⟨hd, hge, hlt⟩ := (mem_raid0DiskRange hs hn hn' hpos h64 hk).mp hp
        refine ⟨collect r.stripSize r.numBaseBdevs p, List.mem_range'_1.mpr ⟨hge, hlt⟩, ?_⟩
        rw [raid0PdLba_eq hs (by omega), deal_collect hS (by rw [hd]; exact Nat.mod_lt _ hn)]
      · intro h
        obtain ⟨b, hb, rfl⟩ := h
        obtain ⟨hge, hlt⟩ := List.mem_range'_1.mp hb
        obtain ⟨k, hk, hd⟩ := exists_turn hs hn hn' hpos h64 hge hlt
        refine ⟨r.raid0DiskRange (r.raid0GetIoRange o n) k, List.mem_map.mpr ⟨k, List.mem_range.mpr hk, rfl⟩, ?_⟩
        rw [raid0PdLba_eq hs (by omega), mem_raid0DiskRange hs hn hn' hpos h64 hk, collect_deal hS]
        exact ⟨hd.symm, hge, hlt⟩
    · apply List.Nodup.map_on _ List.nodup_range'
      intro b hb b' hb' h
      have hb := (List.mem_range'_1.mp hb).2
      have hb' := (List.mem_range'_1.mp hb').2
      rw [raid0PdLba_eq hs (by omega), raid0PdLba_eq hs (by omega)] at h
      exact deal_injective hS h
  refine ⟨?_, fun type b _ hb => raid0SubmitRwRequest_one (by omega), hdisks, ?_, hcovers, ?_⟩
  · intro type
    unfold raid0SubmitNullPayloadRequest raid0DiskRanges
    dsimp only
    rw [List.map_map, Nat.sub_zero, ← List.range_eq_range']
    rfl
  · intro x hx
    obtain ⟨k, hk, rfl⟩ := hmem x hx
    obtain ⟨first, last, -, hback, hstrips, hle, -, -⟩ := raid0Split_spec hs hn hn' hpos h64 hk
    rw [raid0DiskRange_eq hs hn hn' hpos h64]
    dsimp only
    rw [hstrips]
    exact ⟨hback, hle⟩
  · have hlen := hcovers.length_eq
    rw [List.length_flatMap, List.length_map, List.length_range'] at hlen
    calc ((r.raid0DiskRanges o n).map (·.nblocksInDisk)).sum
        = ((r.raid0DiskRanges o n).map fun x => x.blocks.length).sum := by
          simp only [DiskRange.blocks, List.length_map, List.length_range']
      _ = n := hlen

end cover

/-- Blocks 5 to 21 of three disks in strips of four: from the middle of disk 1 around to its next
    strips. -/
theorem raid0_ranges_cover_turn :
    RangesCover { smallArray with stripSize := 4, stripSizeShift := 2 } 5 17 :=
  raid0_ranges_cover ⟨by decide, by decide⟩ (by decide +kernel) (by decide +kernel) (by decide) (by decide)

end FlexBSO.Raid

import FlexBSO.Raid.Bdev

/- How an array gets its geometry: the data region `raid_bdev_configure_base_bdev`
   reserves on a base bdev, the strip size and metadata format
   `raid_bdev_configure` settles, and what each level's `start` and raid0's
   `resize` make of them. Functions that fail return the fields they set before. -/
namespace FlexBSO.Raid

/-- `RAID_BDEV_MIN_DATA_OFFSET_SIZE` -/
def minDataOffsetSize : Nat := 1024 * 1024

/-- `data_offset` of a base bdev of an array with superblock -/
def superblockDataOffset (bdev : Bdev) : Nat :=
  let dataOffset := minDataOffsetSize / bdev.blocklen
  if bdev.optimalIoBoundary ≠ 0 then
    u64 (spdkDivideRoundUp dataOffset bdev.optimalIoBoundary * bdev.optimalIoBoundary)
  else dataOffset

/-- The part of `raid_bdev_configure_base_bdev` that lays out the data region, once the
    descriptor is open on base bdev `b` and claimed. -/
def RaidBaseBdevInfo.layout (info : RaidBaseBdevInfo) (superblockEnabled : Bool) (b : Nat) (bdev : Bdev) :
    Int × RaidBaseBdevInfo :=
  let info := { info with desc := some b, blockcnt := bdev.blockcnt, dataOffset := 0, dataSize := bdev.blockcnt }
  if superblockEnabled then
    let info := { info with dataOffset := superblockDataOffset bdev }
    if bdev.blockcnt ≤ info.dataOffset then (-EINVAL, info)
    else (0, { info with dataSize := bdev.blockcnt - info.dataOffset })
  else (0, info)

/-- Update of every slot. -/
def RaidBdev.mapInfo (r : RaidBdev) (f : RaidBaseBdevInfo → RaidBaseBdevInfo) : RaidBdev :=
  { r with baseBdevInfo := r.baseBdevInfo.map f }

/-- The base bdevs of an array whose slots all hold a descriptor. -/
def RaidBdev.bases (bdevs : Nat → Bdev) (r : RaidBdev) : List Bdev :=
  r.baseBdevInfo.map fun info => bdevs (info.desc.getD 0)

/-- `UINT64_MAX`, where the searches for the smallest base bdev start. -/
def uint64Max : Nat := 2 ^ 64 - 1

/-- `min_blockcnt` over the data sizes -/
def RaidBdev.minBlockcnt (r : RaidBdev) : Nat :=
  (r.baseBdevInfo.map (·.dataSize)).foldl min uint64Max

/-- `(n >> strip_size_shift) << strip_size_shift` -/
def RaidBdev.wholeStrips (r : RaidBdev) (n : Nat) : Nat :=
  (n >>> r.stripSizeShift) <<< r.stripSizeShift

/-- `raid0_start` -/
def RaidBdev.raid0Start (r : RaidBdev) : RaidBdev :=
  let dataSize := r.wholeStrips r.minBlockcnt
  let r := r.mapInfo fun info => { info with dataSize }
  let r := { r with blockcnt := u64 (dataSize * r.numBaseBdevs) }
  if 1 < r.numBaseBdevs then
    { r with optimalIoBoundary := r.stripSize, splitOnOptimalIoBoundary := true }
  else
    { r with optimalIoBoundary := 0, splitOnOptimalIoBoundary := false }

/-- `raid1_start` -/
def RaidBdev.raid1Start (r : RaidBdev) : RaidBdev :=
  let dataSize := r.minBlockcnt
  { r.mapInfo (fun info => { info with dataSize }) with blockcnt := dataSize, modulePrivate := .raid1 }

/-- The loop of `concat_start`: the ranges of the slots, from `total_blockcnt` on, and the
    `total_blockcnt` it ends with. -/
def RaidBdev.concatRanges (r : RaidBdev) : Nat → List RaidBaseBdevInfo → List ConcatBlockRange × Nat
  | total, [] => ([], total)
  | total, info :: infos =>
    let length := r.wholeStrips info.dataSize
    let (ranges, total') := r.concatRanges (u64 (total + length)) infos
    (⟨total, length⟩ :: ranges, total')

/-- `concat_start` -/
def RaidBdev.concatStart (r : RaidBdev) : RaidBdev :=
  let (ranges, total) := r.concatRanges 0 r.baseBdevInfo
  { r.mapInfo (fun info => { info with dataSize := r.wholeStrips info.dataSize }) with
    modulePrivate := .concat ranges, blockcnt := total, optimalIoBoundary := r.stripSize
    splitOnOptimalIoBoundary := true }

/-- `raid5f_stripe_data_chunks_num` -/
def RaidBdev.stripeDataChunksNum (r : RaidBdev) : Nat := r.minBaseBdevsOperational

/-- `raid5f_start`: the product of two 32-bit operands is 32 bits wide. -/
def RaidBdev.raid5fStart (r : RaidBdev) : RaidBdev :=
  let totalStripes := r.minBlockcnt / r.stripSize
  let stripeBlocks := u32 (r.stripSize * r.stripeDataChunksNum)
  let dataSize := totalStripes * r.stripSize
  { r.mapInfo (fun info => { info with dataSize }) with
    blockcnt := u64 (stripeBlocks * totalStripes), optimalIoBoundary := r.stripSize
    splitOnOptimalIoBoundary := true, writeUnitSize := stripeBlocks, splitOnWriteUnit := true
    modulePrivate := .raid5f stripeBlocks totalStripes }

/-- `module->start`. `alloc` is whether `calloc` succeeds, where the level allocates. -/
def RaidBdev.start (alloc : Bool) (r : RaidBdev) : Int × RaidBdev :=
  match r.level with
  | .raid0 => (0, r.raid0Start)
  | .raid1 => if alloc then (0, r.raid1Start) else (-ENOMEM, r)
  | .concat => if alloc then (0, r.concatStart) else (-ENOMEM, r)
  | .raid5f => if alloc then (0, r.raid5fStart) else (-ENOMEM, r)

/-- `raid0_resize`, with the result of `spdk_bdev_notify_blockcnt_change`. -/
def RaidBdev.raid0Resize (bdevs : Nat → Bdev) (notifyRc : Int) (r : RaidBdev) : RaidBdev :=
  let minBlockcnt := (r.baseBdevInfo.map fun info =>
    sub64 (bdevs (info.desc.getD 0)).blockcnt info.dataOffset).foldl min uint64Max
  let dataSize := r.wholeStrips minBlockcnt
  let blockcnt := u64 (dataSize * r.numBaseBdevs)
  if blockcnt = r.blockcnt then r
  else if notifyRc ≠ 0 then r
  else { r.mapInfo (fun info => { info with dataSize }) with blockcnt }

/-- The check for one block length of `raid_bdev_configure` -/
def commonBlocklen : Nat → List Bdev → Option Nat
  | blocklen, [] => some blocklen
  | blocklen, b :: bs =>
    if blocklen = 0 then commonBlocklen b.blocklen bs
    else if blocklen ≠ b.blocklen then none
    else commonBlocklen blocklen bs

/-- `raid_bdev_configure_md` -/
def RaidBdev.configureMd (r : RaidBdev) : List Bdev → Int × RaidBdev
  | [] => (0, r)
  | b :: bs =>
    if b.difType ≠ 0 then (-EPERM, r)
    else
      let r := { r with mdLen := b.mdSize, mdInterleave := b.mdInterleave }
      if bs.all fun b => b.difType == 0 && r.mdLen == b.mdSize && r.mdInterleave == b.mdInterleave then (0, r)
      else (-EPERM, r)

/-- `raid_bdev_configure` up to the result of `module->start` -/
def RaidBdev.configureGeometry (bdevs : Nat → Bdev) (alloc : Bool) (r : RaidBdev) : Int × RaidBdev :=
  match commonBlocklen 0 (r.bases bdevs) with
  | none => (-EINVAL, r)
  | some blocklen =>
    -- `strip_size_kb * 1024` is computed in 32 bits
    let r := { r with stripSize := u32 (r.stripSizeKb * 1024) / blocklen }
    if r.stripSize = 0 ∧ r.level ≠ .raid1 then (-EINVAL, r)
    else
      let r := { r with
        stripSizeShift := spdkU32Log2 r.stripSize, blocklenShift := spdkU32Log2 blocklen, blocklen }
      let (rc, r) := r.configureMd (r.bases bdevs)
      if rc ≠ 0 then (rc, r) else r.start alloc

end FlexBSO.Raid

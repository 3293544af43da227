import FlexBSO.Raid.Levels
import FlexBSO.Raid5f.Layout

/- Where each level sends a request: the child I/Os as (slot, block range) with
   the slot's `data_offset` added, in the source's arithmetic. What a child returns
   does not matter here: the lists hold every child a request can submit, from the
   slot or disk on which an earlier `-ENOMEM` left off. -/
namespace FlexBSO.Raid

/-- `SPDK_BDEV_IO_TYPE_*` of the requests with blocks -/
inductive IoType where
  | read | write | unmap | flush
  deriving DecidableEq, Repr

/-- The request of a `raid_bdev_io`. -/
structure RaidIo where
  type : IoType
  offsetBlocks : Nat
  numBlocks : Nat
  deriving DecidableEq, Repr

/-- A child I/O on the base bdev of a slot. -/
structure Child where
  slot : Nat
  offsetBlocks : Nat
  numBlocks : Nat
  deriving DecidableEq, Repr

namespace RaidBdev
variable (r : RaidBdev)

/-- `base_bdev_info[i]` -/
def info (i : Nat) : RaidBaseBdevInfo := r.baseBdevInfo.getD i {}

/-- `raid_bdev_readv_blocks_ext`, `raid_bdev_writev_blocks_ext`, `raid_bdev_unmap_blocks` and
    `raid_bdev_flush_blocks` -/
def child (slot offsetBlocks numBlocks : Nat) : Child :=
  ⟨slot, u64 ((r.info slot).dataOffset + offsetBlocks), numBlocks⟩

/-! ## raid0 -/

/-- `raid0_submit_rw_request` -/
def raid0SubmitRwRequest (io : RaidIo) : List Child :=
  let startStrip := io.offsetBlocks >>> r.stripSizeShift
  let endStrip := sub64 (io.offsetBlocks + io.numBlocks) 1 >>> r.stripSizeShift
  if startStrip ≠ endStrip ∧ 1 < r.numBaseBdevs then []
  else
    let pdStrip := startStrip / r.numBaseBdevs
    let pdIdx := startStrip % r.numBaseBdevs
    let offsetInStrip := io.offsetBlocks &&& (r.stripSize - 1)
    let pdLba := u64 (u64 (pdStrip <<< r.stripSizeShift) + offsetInStrip)
    [r.child pdIdx pdLba io.numBlocks]

/-- `struct raid_bdev_io_range` -/
structure IoRange where
  stripSize : Nat
  startStripInDisk : Nat
  endStripInDisk : Nat
  startOffsetInStrip : Nat
  endOffsetInStrip : Nat
  startDisk : Nat
  endDisk : Nat
  nDisksInvolved : Nat
  deriving DecidableEq, Repr

/-- `_raid0_get_io_range` -/
def raid0GetIoRange (offsetBlocks numBlocks : Nat) : IoRange :=
  let totalBlocks := sub64 (offsetBlocks + numBlocks) (if 0 < numBlocks then 1 else 0)
  let startStrip := offsetBlocks >>> r.stripSizeShift
  let endStrip := totalBlocks >>> r.stripSizeShift
  { stripSize := r.stripSize
    startStripInDisk := startStrip / r.numBaseBdevs
    endStripInDisk := endStrip / r.numBaseBdevs
    startOffsetInStrip := offsetBlocks % r.stripSize
    endOffsetInStrip := totalBlocks % r.stripSize
    startDisk := startStrip % r.numBaseBdevs
    endDisk := endStrip % r.numBaseBdevs
    nDisksInvolved := u8 (min (u64 (sub64 endStrip startStrip + 1)) r.numBaseBdevs) }

/-- `start_strip_in_disk` and `end_strip_in_disk` of `_raid0_split_io_range`, which asserts that the
    second is not below the first -/
def raid0StripsInDisk (range : IoRange) (diskIdx : Nat) : Nat × Nat :=
  (if diskIdx < range.startDisk then u64 (range.startStripInDisk + 1) else range.startStripInDisk,
   if range.endDisk < diskIdx then sub64 range.endStripInDisk 1 else range.endStripInDisk)

/-- `_raid0_split_io_range`: `offset_in_disk` and `nblocks_in_disk` -/
def raid0SplitIoRange (range : IoRange) (diskIdx : Nat) : Nat × Nat :=
  let startStripInDisk :=
    if diskIdx < range.startDisk then u64 (range.startStripInDisk + 1) else range.startStripInDisk
  let endStripInDisk := if range.endDisk < diskIdx then sub64 range.endStripInDisk 1 else range.endStripInDisk
  let nStripsInDisk := u64 (sub64 endStripInDisk startStripInDisk + 1)
  let startOffsetInDisk := if diskIdx = range.startDisk then range.startOffsetInStrip else 0
  let endOffsetInDisk := if diskIdx = range.endDisk then range.endOffsetInStrip else range.stripSize - 1
  (u64 (startOffsetInDisk + startStripInDisk * range.stripSize),
   u64 (sub64 (u64 (sub64 nStripsInDisk 1 * range.stripSize + endOffsetInDisk)) startOffsetInDisk + 1))

/-- The child `raid0_submit_null_payload_request` submits when `base_bdev_io_submitted` is `k`. -/
def raid0NullPayloadChild (range : IoRange) (k : Nat) : Child :=
  let diskIdx := u8 ((range.startDisk + k) % r.numBaseBdevs)
  let (offsetInDisk, nblocksInDisk) := raid0SplitIoRange range diskIdx
  r.child diskIdx offsetInDisk nblocksInDisk

/-- `raid0_submit_null_payload_request`, resumed at `base_bdev_io_submitted` -/
def raid0SubmitNullPayloadRequest (submitted : Nat) (io : RaidIo) : List Child :=
  let range := r.raid0GetIoRange io.offsetBlocks io.numBlocks
  (List.range' submitted (range.nDisksInvolved - submitted)).map (r.raid0NullPayloadChild range)

/-! ## concat -/

/-- `block_range` -/
def blockRange : List ConcatBlockRange :=
  match r.modulePrivate with
  | .concat ranges => ranges
  | _ => []

/-- The search of `concat_submit_rw_request`: the last slot before the first one that starts
    past the offset, with its range. -/
def concatFind (offsetBlocks : Nat) : Nat → List ConcatBlockRange → Option (Nat × ConcatBlockRange)
  | _, [] => none
  | i, range :: ranges =>
    if offsetBlocks < range.start then none
    else (concatFind offsetBlocks (i + 1) ranges).or (some (i, range))

/-- `concat_submit_rw_request` -/
def concatSubmitRwRequest (io : RaidIo) : List Child :=
  match concatFind io.offsetBlocks 0 r.blockRange with
  | none => []
  | some (pdIdx, range) => [r.child pdIdx (sub64 io.offsetBlocks range.start) io.numBlocks]

/-- The first loop of `concat_submit_null_payload_request`: `start_idx` and `stop_idx`. -/
def concatSpan (offsetBlocks numBlocks : Nat) (startIdx : Option Nat) :
    Nat → List ConcatBlockRange → Option Nat × Option Nat
  | _, [] => (startIdx, none)
  | i, range :: ranges =>
    if u64 (range.start + range.length) ≤ offsetBlocks then
      concatSpan offsetBlocks numBlocks startIdx (i + 1) ranges
    else
      let startIdx := startIdx.or (some i)
      let pdLba := sub64 offsetBlocks range.start
      let pdBlocks := min numBlocks (sub64 range.length pdLba)
      if sub64 numBlocks pdBlocks = 0 then (startIdx, some i)
      else concatSpan (u64 (offsetBlocks + pdBlocks)) (sub64 numBlocks pdBlocks) startIdx (i + 1) ranges

/-- The second loop, over the ranges from slot `i` to `stop_idx`: every child it computes. -/
def concatChildren (stopIdx offsetBlocks numBlocks : Nat) : Nat → List ConcatBlockRange → List Child
  | _, [] => []
  | i, range :: ranges =>
    if stopIdx < i then []
    else
      let pdLba := sub64 offsetBlocks range.start
      let pdBlocks := min numBlocks (sub64 range.length pdLba)
      r.child i pdLba pdBlocks ::
        concatChildren stopIdx (u64 (offsetBlocks + pdBlocks)) (sub64 numBlocks pdBlocks) (i + 1) ranges

/-- `concat_submit_null_payload_request`, resumed at `base_bdev_io_submitted` -/
def concatSubmitNullPayloadRequest (submitted : Nat) (io : RaidIo) : List Child :=
  match concatSpan io.offsetBlocks io.numBlocks none 0 r.blockRange with
  | (some startIdx, some stopIdx) =>
    (r.concatChildren stopIdx io.offsetBlocks io.numBlocks startIdx (r.blockRange.drop startIdx)).drop submitted
  | _ => []

/-! ## raid1 -/

/-- What the levels read of a `struct raid_bdev_io_channel`: which base channels there are, and
    raid1's counters. -/
structure IoChannel where
  baseChannel : Nat → Bool
  readBlocksOutstanding : Nat → Nat

/-- `raid1_channel_next_read_base_bdev`; `none` stands for `UINT8_MAX`. -/
def raid1ChannelNextReadBaseBdev (ch : IoChannel) : Option Nat :=
  ((List.range r.numBaseBdevs).foldl (fun (acc : Nat × Option Nat) i =>
    if ch.baseChannel i = true ∧ ch.readBlocksOutstanding i < acc.1 then (ch.readBlocksOutstanding i, some i)
    else acc) (uint64Max, none)).2

/-- `raid1_submit_rw_request`: one slot for a read, the present ones of the others for a write. -/
def raid1SubmitRwRequest (ch : IoChannel) (submitted : Nat) (io : RaidIo) : List Child :=
  match io.type with
  | .read =>
    match r.raid1ChannelNextReadBaseBdev ch with
    | none => []
    | some idx => [r.child idx io.offsetBlocks io.numBlocks]
  | .write =>
    ((List.range' submitted (r.numBaseBdevs - submitted)).filter ch.baseChannel).map fun idx =>
      r.child idx io.offsetBlocks io.numBlocks
  | _ => []

/-! ## raid5f -/

/-- `r5f_info->stripe_blocks` -/
def stripeBlocks : Nat :=
  match r.modulePrivate with
  | .raid5f stripeBlocks _ => stripeBlocks
  | _ => 0

/-- `raid5f_stripe_parity_chunk_index` -/
def stripeParityChunkIndex (stripeIndex : Nat) : Nat :=
  u8 (r.stripeDataChunksNum + 2 ^ 8 - stripeIndex % r.numBaseBdevs)

/-- `chunk_data_idx` of a read -/
def chunkDataIdx (stripeOffset : Nat) : Nat := u8 (stripeOffset >>> r.stripSizeShift)

/-- `chunk_idx` of a read -/
def chunkIdx (stripeIndex stripeOffset : Nat) : Nat :=
  let dataIdx := r.chunkDataIdx stripeOffset
  if dataIdx < r.stripeParityChunkIndex stripeIndex then dataIdx else u8 (dataIdx + 1)

/-- `chunk_offset` of a read: the chunk index is an `int` while it is shifted. -/
def chunkOffset (stripeOffset : Nat) : Nat :=
  sub64 stripeOffset (Raid5f.Geometry.shlInt (r.chunkDataIdx stripeOffset) r.stripSizeShift)

/-- `raid5f_submit_read_request` and the chunk reads of `raid5f_submit_reconstruct_read`, which
    it or the completion of its direct read goes on to. -/
def raid5fSubmitReadRequest (ch : IoChannel) (stripeIndex stripeOffset numBlocks : Nat) : List Child :=
  let chunkIdx := r.chunkIdx stripeIndex stripeOffset
  let baseOffsetBlocks := u64 (u64 (stripeIndex <<< r.stripSizeShift) + r.chunkOffset stripeOffset)
  let reconstruct := ((List.range r.numBaseBdevs).filter (· ≠ chunkIdx)).map fun i =>
    r.child i baseOffsetBlocks numBlocks
  if ch.baseChannel chunkIdx then r.child chunkIdx baseOffsetBlocks numBlocks :: reconstruct else reconstruct

/-- `raid5f_submit_write_request`: one strip to each present slot -/
def raid5fSubmitWriteRequest (ch : IoChannel) (stripeIndex : Nat) : List Child :=
  ((List.range r.numBaseBdevs).filter ch.baseChannel).map fun i =>
    r.child i (u64 (stripeIndex <<< r.stripSizeShift)) r.stripSize

/-- `raid5f_submit_rw_request` -/
def raid5fSubmitRwRequest (ch : IoChannel) (io : RaidIo) : List Child :=
  let stripeIndex := io.offsetBlocks / r.stripeBlocks
  let stripeOffset := io.offsetBlocks % r.stripeBlocks
  match io.type with
  | .read => r.raid5fSubmitReadRequest ch stripeIndex stripeOffset io.numBlocks
  | .write => r.raid5fSubmitWriteRequest ch stripeIndex
  | _ => []

/-! ## All levels -/

/-- The children of a request at `raid_bdev_submit_request`, resumed after `submitted` of them. -/
def submitRequest (ch : IoChannel) (submitted : Nat) (io : RaidIo) : List Child :=
  match io.type, r.level with
  | .read, .raid0 | .write, .raid0 => r.raid0SubmitRwRequest io
  | .read, .concat | .write, .concat => r.concatSubmitRwRequest io
  | .read, .raid1 | .write, .raid1 => r.raid1SubmitRwRequest ch submitted io
  | .read, .raid5f | .write, .raid5f => r.raid5fSubmitRwRequest ch io
  | .unmap, .raid0 | .flush, .raid0 => r.raid0SubmitNullPayloadRequest submitted io
  | .unmap, .concat | .flush, .concat => r.concatSubmitNullPayloadRequest submitted io
  -- `raid_bdev_io_type_supported` refuses the others
  | .unmap, .raid1 | .flush, .raid1 | .unmap, .raid5f | .flush, .raid5f => []

/-- The requests the bdev layer lets through: at least one block, inside `blockcnt`, reads and
    writes cut at the boundary the level set. -/
def Admits (io : RaidIo) : Prop :=
  0 < io.numBlocks ∧ io.offsetBlocks + io.numBlocks ≤ r.blockcnt ∧
  (io.type = .write ∧ r.splitOnWriteUnit = true →
    io.offsetBlocks % r.writeUnitSize = 0 ∧ io.numBlocks = r.writeUnitSize) ∧
  ((io.type = .read ∨ io.type = .write ∧ r.splitOnWriteUnit = false) ∧ r.splitOnOptimalIoBoundary = true →
    io.offsetBlocks % r.optimalIoBoundary + io.numBlocks ≤ r.optimalIoBoundary)

instance (io : RaidIo) : Decidable (r.Admits io) := by
  unfold Admits
  exact inferInstance

end RaidBdev

end FlexBSO.Raid

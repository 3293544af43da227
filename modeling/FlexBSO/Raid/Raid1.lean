import FlexBSO.Raid.Parents

/- Reads and writes of raid1 on one channel. A write goes to every leg whose base
   channel is there, a read to the leg with the fewest blocks outstanding. The
   functions run to their end before any callback does; what the submissions
   return is an argument, one result for each leg. A failing assertion ends the
   process: the functions that hold one return `none` there. Only the assertion of
   `raid_bdev_io_complete_part` is not modelled: its subtraction would wrap, as it
   does in a build without assertions. -/
namespace FlexBSO.Raid

open RaidBdev (IoChannel)

/-- A `raid_bdev_io` of raid1, with what the layers around it hold of it. -/
structure Raid1Io where
  request : RaidIo
  baseBdevIoRemaining : Nat := 0
  baseBdevIoSubmitted : Nat := 0
  baseBdevIoStatus : IoStatus := .success
  /-- Legs of the children accepted and not completed. -/
  children : List Nat := []
  /-- Entries in io-wait queues. -/
  waits : Nat := 0
  /-- Statuses `spdk_bdev_io_complete` was called with. -/
  completions : List IoStatus := []
  /-- Legs that accepted a child, and those of them whose child was successful. -/
  accepted : List Nat := []
  successful : List Nat := []
  deriving DecidableEq, Repr

namespace RaidBdev.IoChannel
variable (ch : IoChannel)

/-- `raid1_channel_inc_read_counters` -/
def raid1ChannelIncReadCounters (idx numBlocks : Nat) : Option IoChannel :=
  if ch.readBlocksOutstanding idx ≤ sub64 uint64Max numBlocks then
    some { ch with readBlocksOutstanding :=
      Function.update ch.readBlocksOutstanding idx (u64 (ch.readBlocksOutstanding idx + numBlocks)) }
  else none

/-- `raid1_channel_dec_read_counters` -/
def raid1ChannelDecReadCounters (idx numBlocks : Nat) : Option IoChannel :=
  if numBlocks ≤ ch.readBlocksOutstanding idx then
    some { ch with readBlocksOutstanding :=
      Function.update ch.readBlocksOutstanding idx (sub64 (ch.readBlocksOutstanding idx) numBlocks) }
  else none

end RaidBdev.IoChannel

namespace Raid1Io

/-- `raid_bdev_io_complete` -/
def raidBdevIoComplete (s : Raid1Io) (status : IoStatus) : Raid1Io :=
  { s with completions := s.completions ++ [status] }

/-- `raid_bdev_io_complete_part` -/
def raidBdevIoCompletePart (s : Raid1Io) (completed : Nat) (status : IoStatus) : Raid1Io :=
  let remaining := sub64 s.baseBdevIoRemaining completed
  let status := if status ≠ .success then status else s.baseBdevIoStatus
  let s := { s with baseBdevIoRemaining := remaining, baseBdevIoStatus := status }
  if remaining = 0 then s.raidBdevIoComplete status else s

/-- A child on leg `idx` is accepted. -/
def accept (s : Raid1Io) (idx : Nat) : Raid1Io :=
  { s with children := s.children ++ [idx], accepted := s.accepted ++ [idx] }

/-- `base_bdev_io_submitted++` -/
def countSubmitted (s : Raid1Io) : Raid1Io := { s with baseBdevIoSubmitted := u8 (s.baseBdevIoSubmitted + 1) }

section functions
variable (r : RaidBdev) (ch : IoChannel) (rets : Nat → Int)

/-- `raid1_submit_read_request` -/
def raid1SubmitReadRequest (s : Raid1Io) : Option (IoChannel × Raid1Io × Int) :=
  match r.raid1ChannelNextReadBaseBdev ch with
  | none => some (ch, s.raidBdevIoComplete .failed, 0)
  | some idx =>
    let s := { s with baseBdevIoRemaining := 1 }
    if rets idx = 0 then
      (ch.raid1ChannelIncReadCounters idx s.request.numBlocks).map fun ch =>
        (ch, { s.accept idx with baseBdevIoSubmitted := u8 idx }, 0)
    else if rets idx = -ENOMEM then some (ch, { s with waits := s.waits + 1 }, 0)
    else some (ch, s, rets idx)

/-- The loop of `raid1_submit_write_request` over the legs it has not come to, and whether it goes
    through all of them. -/
def raid1WriteLoop (s : Raid1Io) : List Nat → Raid1Io × Bool
  | [] => (s, true)
  | idx :: rest =>
    if ch.baseChannel idx = false then
      raid1WriteLoop (s.countSubmitted.raidBdevIoCompletePart 1 .success) rest
    else if rets idx = 0 then raid1WriteLoop (s.accept idx).countSubmitted rest
    else if rets idx = -ENOMEM then ({ s with waits := s.waits + 1 }, false)
    else (s.raidBdevIoCompletePart (sub64 r.numBaseBdevs s.baseBdevIoSubmitted) .failed, false)

/-- `raid1_submit_write_request` -/
def raid1SubmitWriteRequest (s : Raid1Io) : Raid1Io × Int :=
  let s := if s.baseBdevIoSubmitted = 0 then { s with baseBdevIoRemaining := r.numBaseBdevs } else s
  let (s, ended) := raid1WriteLoop r ch rets s
    (List.range' s.baseBdevIoSubmitted (r.numBaseBdevs - s.baseBdevIoSubmitted))
  (s, if ended = true ∧ s.baseBdevIoSubmitted = 0 then -ENODEV else 0)

/-- `raid1_submit_rw_request` -/
def raid1SubmitRwRequest (s : Raid1Io) : Option (IoChannel × Raid1Io) :=
  let out := match s.request.type with
    | .read => raid1SubmitReadRequest r ch rets s
    | .write => some (ch, raid1SubmitWriteRequest r ch rets s)
    | _ => some (ch, s, -EINVAL)
  out.map fun (ch, s, ret) => (ch, if ret ≠ 0 then s.raidBdevIoComplete .failed else s)

end functions

/-- `raid1_bdev_io_completion` of the child at `j` -/
def raid1BdevIoCompletion (s : Raid1Io) (j : Nat) (success : Bool) : Raid1Io :=
  { s with
    children := s.children.eraseIdx j
    successful := if success then s.successful ++ [s.children.getD j 0] else s.successful
  }.raidBdevIoCompletePart 1 (if success then .success else .failed)

/-- `raid1_read_bdev_io_completion` and `raid1_write_bdev_io_completion` -/
def childComplete (ch : IoChannel) (s : Raid1Io) (j : Nat) (success : Bool) : Option (IoChannel × Raid1Io) :=
  match s.request.type with
  | .read => (ch.raid1ChannelDecReadCounters s.baseBdevIoSubmitted s.request.numBlocks).map fun ch =>
      (ch, s.raid1BdevIoCompletion j success)
  | _ => some (ch, s.raid1BdevIoCompletion j success)

/-- What happens to a `raid_io` after its submission: the callback of an io-wait entry, with the
    results of the submissions it makes, and the callback of a child. -/
inductive Event where
  | ioWait (rets : Nat → Int)
  | complete (j : Nat) (success : Bool)

/-- One step of a `raid_io` and the channel it is on. -/
def step (r : RaidBdev) (ch : IoChannel) (s : Raid1Io) : Event → Option (IoChannel × Raid1Io)
  | .ioWait rets =>
    if 0 < s.waits then raid1SubmitRwRequest r ch rets { s with waits := s.waits - 1 } else none
  | .complete j success => if j < s.children.length then childComplete ch s j success else none

end Raid1Io

/-! ## A channel with all of its requests -/

/-- A channel of a raid1 bdev and the requests submitted on it. -/
structure Raid1State where
  ch : IoChannel
  ios : List Raid1Io

namespace Raid1State

/-- The channel after `raid1_ioch_create`. -/
def init (baseChannel : Nat → Bool) : Raid1State := ⟨⟨baseChannel, fun _ => 0⟩, []⟩

/-- A read in flight on leg `idx`. -/
def ReadsOn (idx : Nat) (io : Raid1Io) : Prop := io.request.type = .read ∧ idx ∈ io.children

instance (idx : Nat) (io : Raid1Io) : Decidable (ReadsOn idx io) := by
  unfold ReadsOn
  exact inferInstance

/-- What happens on a channel: a request is submitted; a callback of one of the requests comes; a
    base channel is taken away. -/
inductive Event where
  | submit (request : RaidIo) (rets : Nat → Int)
  | io (i : Nat) (e : Raid1Io.Event)
  | removeBaseChannel (idx : Nat)

/-- One step of the channel. The block count of a request is 64 bits wide; a base channel goes when
    no reads are outstanding on it. -/
def step (r : RaidBdev) (s : Raid1State) : Event → Option Raid1State
  | .submit request rets =>
    if request.numBlocks < 2 ^ 64 then
      (Raid1Io.raid1SubmitRwRequest r s.ch rets { request }).map fun (ch, io) => ⟨ch, s.ios ++ [io]⟩
    else none
  | .io i e => s.ios[i]?.bind fun io => (Raid1Io.step r s.ch io e).map fun (ch, io) => ⟨ch, s.ios.set i io⟩
  | .removeBaseChannel idx =>
    if s.ios.any (fun io => decide (ReadsOn idx io)) = true then none
    else some { s with ch := { s.ch with baseChannel := Function.update s.ch.baseChannel idx false } }

end Raid1State

end FlexBSO.Raid

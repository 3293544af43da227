import FlexBSO.Raid.Module
import FlexBSO.Lib.Machine

/- The raid module as a machine. An event is one function of the module run to its
   end on the app thread (or, for the I/O channels, on the channel's thread): a
   request handler, an event of a base bdev, a callback SPDK owes the module. The
   loop of `rpc_bdev_raid_create` takes one event a turn, and no other event comes
   between its turns, since the handler does not return. The rest of the system
   changes the base bdevs and claims those the module has not claimed. -/
namespace FlexBSO.Raid

inductive Event where
  /-- `rpc_bdev_raid_create`: up to its loop, one turn of it, its error path -/
  | rpcCreate (request : Nat) (req : CreateRequest) (alloc : Bool)
  | rpcCreateAdd (a : Answer)
  | rpcCreateFail
  /-- `rpc_bdev_raid_delete` -/
  | rpcDelete (request : Nat) (name : String)
  /-- `rpc_bdev_raid_remove_base_bdev` -/
  | rpcRemove (request : Nat) (name : String) (openRc quiesceRc : Int)
  /-- `raid_bdev_remove_base_bdev`, without callback from `raid_bdev_event_base_bdev` -/
  | remove (b : Nat) (cb : Option Nat) (quiesceRc : Int)
  /-- `raid_bdev_resize_base_bdev` -/
  | resize (b : Nat) (notifyRc : Int)
  /-- `raid_bdev_examine` -/
  | examine (b : Nat) (answers : Nat → Answer)
  /-- A callback of raid bdev `r`, with the status it gets or the result of the call it makes. -/
  | callback (r : Nat) (d : Deferred) (rc : Int)
  /-- `raid_bdev_create_cb` and `raid_bdev_destroy_cb` on a thread -/
  | channelCreate (r thread : Nat) (ok : Bool)
  | channelDestroy (r thread : Nat)
  /-- `raid_bdev_fini_start` -/
  | finiStart
  /-- the bdev layer unregisters a raid bdev, as it does at shutdown -/
  | bdevUnregister (r : Nat) (cb : Option Nat)
  /-- the base bdevs and their names change -/
  | bdevs (names : String → Option Nat) (bdevs : Nat → Bdev)
  /-- another module claims a base bdev, or releases its claim -/
  | claimOther (b : Nat)
  | releaseOther (b : Nat)

/-- No thread has a channel of the raid bdev. -/
def RaidObject.Idle (threads : List Nat) (o : RaidObject) : Prop :=
  ∀ t ∈ threads, (o.channels t).isNone = true

instance (threads : List Nat) (o : RaidObject) : Decidable (o.Idle threads) := by
  unfold RaidObject.Idle
  exact inferInstance

/-- When SPDK delivers a callback: `destruct` and the unregistration of the io device wait for the
    channels to be gone, and the latter also for the iterations over them to end. -/
def RaidObject.Ready (threads : List Nat) (o : RaidObject) (d : Deferred) : Prop :=
  d ∈ o.callbacks ∧
  (d = .destruct → o.Idle threads) ∧
  (d = .ioDeviceUnregister → o.Idle threads ∧
    (o.callbacks.all fun | .channelRemove _ _ => false | _ => true) = true)

instance (threads : List Nat) (o : RaidObject) (d : Deferred) : Decidable (o.Ready threads d) := by
  unfold RaidObject.Ready
  exact inferInstance

/-- The bdev layer may open I/O channels: the raid bdev is registered, and not yet handed to
    `destruct`. -/
def RaidObject.Open (o : RaidObject) : Bool :=
  o.ioDevice && match o.bdev.status with
    | .ready => true
    | .unregistering _ => true
    | _ => false

namespace State

/-- The code that follows reads raid bdev `r`. -/
def touch (s : State) (r : Nat) : State :=
  if (s.mem r).freed = 0 then s else { s with usedAfterFree := true }

/-- Callback `d` of raid bdev `r` is delivered. -/
def take (s : State) (r : Nat) (d : Deferred) : State :=
  (s.touch r).modObject r fun o => { o with callbacks := o.callbacks.erase d }

/-- The bdev layer is done with the raid bdev and calls its `destruct`. -/
def bdevDestroy (s : State) (r : Nat) : State :=
  s.modRaid r fun raid => match raid.status with
    | .unregistering cb => { raid with status := .destructing cb }
    | _ => raid

/-- The body of a callback -/
def runCallback (s : State) (threads : List Nat) (r : Nat) (d : Deferred) (rc : Int) : State :=
  match d with
  | .destruct => (s.bdevDestroy r).raidBdevDestruct r
  | .moduleStopDone => s.raidBdevModuleStopDone r
  | .ioDeviceUnregister => s.raidBdevIoDeviceUnregisterCb r
  | .quiesced i => s.raidBdevRemoveBaseBdevOnQuiesced threads r i rc
  | .channelRemove i [] => s.raidBdevChannelsRemoveBaseBdevDone r i rc
  | .channelRemove i (t :: rest) => (s.raidBdevChannelRemoveBaseBdev r i t).defer r (.channelRemove i rest)
  | .unquiesced i => s.raidBdevRemoveBaseBdevOnUnquiesced r i rc

end State

/-- One event outside the loop of `rpc_bdev_raid_create`. -/
def stepIdle (threads : List Nat) (s : State) (e : Event) : Option State :=
  match e with
  | .rpcCreate request req alloc =>
    if req.baseBdevs.length ≤ State.rpcMaxBaseBdevs then some (s.rpcCreateStart request req alloc) else none
  | .rpcCreateAdd _ => none
  | .rpcCreateFail => none
  | .rpcDelete request name => some (s.rpcBdevRaidDelete request name)
  | .rpcRemove request name openRc quiesceRc => some (s.rpcBdevRaidRemoveBaseBdev request name openRc quiesceRc)
  | .remove b cb quiesceRc => some (s.raidBdevRemoveBaseBdev b cb quiesceRc).1
  | .resize b notifyRc => some (s.raidBdevResizeBaseBdev b notifyRc)
  | .examine b answers => some (s.raidBdevExamine b answers)
  | .callback r d rc =>
    if (s.mem r).Ready threads d then some ((s.take r d).runCallback threads r d rc) else none
  | .channelCreate r thread ok =>
    if thread ∈ threads ∧ (s.mem r).channels thread = none ∧ (s.mem r).Open = true then
      some ((s.touch r).raidBdevCreateCb r thread ok)
    else none
  | .channelDestroy r thread =>
    if ((s.mem r).channels thread).isSome then some (s.raidBdevDestroyCb r thread) else none
  | .finiStart => some { s with gShutdownStarted := true }
  | .bdevUnregister r cb =>
    if s.gShutdownStarted = true ∧ (s.raid r).status = .ready then some (s.bdevUnregister r cb) else none
  | .bdevs names bdevs => some { s with names, bdevs }
  | .claimOther b =>
    if s.claim b = .none then some { s with claim := Function.update s.claim b .other } else none
  | .releaseOther b =>
    if s.claim b = .other then some { s with claim := Function.update s.claim b .none } else none

/-- One event. While a `bdev_raid_create` request is served, only its own turns happen. -/
def step (threads : List Nat) (s : State) (e : Event) : Option State :=
  match s.rpc with
  | none => stepIdle threads s e
  | some rpc =>
    match rpc.error, rpc.baseBdevs, e with
    | some rc, _, .rpcCreateFail => some (s.rpcCreateFail rpc rc)
    | none, name :: rest, .rpcCreateAdd a => some (s.rpcCreateAdd rpc name rest a)
    | _, _, _ => none

/-- The module before its first event. -/
def State.init (names : String → Option Nat) (bdevs : Nat → Bdev) (claimed : Nat → Bool) : State where
  mem := fun _ => .blank
  next := 0
  gRaidBdevList := []
  gShutdownStarted := false
  bdevs := bdevs
  names := names
  claim := fun b => if claimed b then .other else .none
  descs := fun _ => 0
  rpc := none
  replies := []
  failedAsserts := []
  usedAfterFree := false

/-- The states of runs whose steps all satisfy `ok`. -/
def Run (threads : List Nat) (ok : State → Event → Prop) (s : State) : Prop :=
  ∃ names bdevs claimed, Lib.Reach (step threads) ok (State.init names bdevs claimed) s

/-! ## A small system -/

/-- Four base bdevs of one size. -/
def fourBdevs (b : Nat) : Bdev where
  name := match b with
    | 0 => "n0"
    | 1 => "n1"
    | 2 => "n2"
    | _ => "n3"
  blockcnt := 1024
  blocklen := 512
  blockcnt_lt := blockcnt_1024_lt
  blocklen_lt := blocklen_512_lt
  boundary_lt := boundary_zero_lt

def fourNames (name : String) : Option Nat :=
  (List.range 4).find? fun b => (fourBdevs b).name == name

/-- A run of the module over four base bdevs and two threads. -/
def smallRun (ok : State → Event → Prop) [∀ s e, Decidable (ok s e)] (es : List Event) : Option State :=
  Lib.execIf (step [0, 1]) ok (State.init fourNames fourBdevs fun _ => false) es

theorem smallRun_run {ok : State → Event → Prop} [∀ s e, Decidable (ok s e)] {es : List Event} {s : State}
    (h : smallRun ok es = some s) : Run [0, 1] ok s :=
  ⟨_, _, _, Lib.Reach.ofRun es .init h⟩

/-- A `bdev_raid_create` request over the first base bdevs, served to its end. -/
def smallCreate (level : RaidLevel) (n : Nat) : List Event :=
  .rpcCreate 0 { name := "r", stripSizeKb := if level = .raid1 then 0 else 4, level
                 baseBdevs := (List.range n).map fun b => (fourBdevs b).name, uuid := 0
                 superblockEnabled := false } true ::
    List.replicate n (.rpcCreateAdd {})

end FlexBSO.Raid

import FlexBSO.Raid.Levels
import Mathlib.Logic.Function.Basic

/- The state of the raid module: the raid bdevs in memory, the list of them, the
   base bdevs with their claims, and the callbacks SPDK still has to deliver. Memory
   is a function of the address; addresses are handed out in order and never again,
   and a freed raid bdev keeps its last content, so that what a late callback would
   do with it can be said. Failed assertions are recorded and do not stop the
   program. -/
namespace FlexBSO.Raid

/-- A callback that refers to a raid bdev and has not been called yet. A removal of slot `i` goes
    through the last three; `threads` are those `spdk_for_each_channel` has not visited yet. -/
inductive Deferred where
  /-- `raid_bdev_destruct` and the `_raid_bdev_destruct` it sends to the app thread -/
  | destruct
  /-- `raid1_io_device_unregister_done`, `raid5f_io_device_unregister_done` -/
  | moduleStopDone
  /-- `raid_bdev_io_device_unregister_cb` -/
  | ioDeviceUnregister
  /-- `raid_bdev_remove_base_bdev_on_quiesced` -/
  | quiesced (i : Nat)
  /-- `raid_bdev_channel_remove_base_bdev`, then `raid_bdev_channels_remove_base_bdev_done` -/
  | channelRemove (i : Nat) (threads : List Nat)
  /-- `raid_bdev_remove_base_bdev_on_unquiesced` -/
  | unquiesced (i : Nat)
  deriving DecidableEq, Repr

/-- The slot whose removal a callback belongs to. -/
def Deferred.slot : Deferred → Option Nat
  | .quiesced i => some i
  | .channelRemove i _ => some i
  | .unquiesced i => some i
  | _ => none

/-- A raid bdev in memory and what the SPDK libraries keep for it: the callbacks still to come,
    whether its io device is registered, and the I/O channel of each thread that has one, as the
    base bdev of each slot's channel. `cleaned` and `freed` count `raid_bdev_cleanup` and
    `raid_bdev_free`. -/
structure RaidObject where
  bdev : RaidBdev
  callbacks : List Deferred := []
  ioDevice : Bool := false
  channels : Nat → Option (List (Option Nat)) := fun _ => none
  cleaned : Nat := 0
  freed : Nat := 0

/-- Memory no raid bdev has been allocated in. -/
def RaidObject.blank : RaidObject where
  bdev := {
    name := "", uuid := 0, baseBdevInfo := [], stripSizeKb := 0, minBaseBdevsOperational := 0
    level := .raid0, superblockEnabled := false }

/-- The holder of `spdk_bdev_module_claim_bdev` on a base bdev. -/
inductive Claim where
  | none | raid | other
  deriving DecidableEq, Repr

/-- Assertions of the module on its own state. -/
inductive Assertion where
  /-- `raid_bdev_configure`: in state configuring -/
  | configureState
  /-- `raid_bdev_configure`: all base bdevs discovered -/
  | configureCount
  /-- `raid_bdev_configure`: every slot has a descriptor -/
  | configureDesc
  /-- `raid_bdev_configure_base_bdev`: `name != NULL`, `desc == NULL` -/
  | baseName | baseDesc
  /-- `raid_bdev_configure_base_bdev`: not online; no more discovered than slots -/
  | baseState | baseCount
  /-- `raid_bdev_free_base_bdev_resource`: a base bdev was discovered -/
  | freeCount
  /-- `raid_bdev_cleanup`: not online; every descriptor closed -/
  | cleanupState | cleanupDesc
  /-- `raid_bdev_deconfigure`: a base bdev is discovered -/
  | deconfigureCount
  /-- `raid_bdev_create_cb`: online -/
  | channelState
  /-- `raid0_resize` takes the bdev of every slot's descriptor -/
  | resizeDesc
  deriving DecidableEq, Repr

/-- A `bdev_raid_create` request being served: the raid bdev it created, the base bdevs it has
    still to add, from slot `slot` on, and the error that ended its loop. -/
structure CreateRpc where
  request : Nat
  raid : Nat
  baseBdevs : List String
  slot : Nat := 0
  error : Option Int := none
  deriving DecidableEq, Repr

structure State where
  mem : Nat → RaidObject
  /-- the next address to be allocated -/
  next : Nat
  gRaidBdevList : List Nat
  gShutdownStarted : Bool
  bdevs : Nat → Bdev
  /-- `spdk_bdev_get_by_name`, aliases included -/
  names : String → Option Nat
  claim : Nat → Claim
  /-- how many descriptors the module holds open on a base bdev -/
  descs : Nat → Nat
  rpc : Option CreateRpc
  /-- answers to requests, in the order they were given -/
  replies : List (Nat × Int)
  failedAsserts : List Assertion
  usedAfterFree : Bool

namespace State
variable (s : State)

/-- The raid bdev at address `r`. -/
def raid (r : Nat) : RaidBdev := (s.mem r).bdev

/-- `base_bdev_info[i]` of raid bdev `r` -/
def info (r i : Nat) : RaidBaseBdevInfo := (s.raid r).baseBdevInfo.getD i {}

def modObject (r : Nat) (f : RaidObject → RaidObject) : State :=
  { s with mem := Function.update s.mem r (f (s.mem r)) }

def modRaid (r : Nat) (f : RaidBdev → RaidBdev) : State :=
  s.modObject r fun o => { o with bdev := f o.bdev }

def modInfo (r i : Nat) (f : RaidBaseBdevInfo → RaidBaseBdevInfo) : State :=
  s.modRaid r fun b => { b with baseBdevInfo := b.baseBdevInfo.modify i f }

/-- SPDK will deliver callback `d` of raid bdev `r`. -/
def defer (r : Nat) (d : Deferred) : State :=
  s.modObject r fun o => { o with callbacks := o.callbacks ++ [d] }

/-- An answer to a request, where there is one to answer. -/
def reply (cb : Option Nat) (rc : Int) : State :=
  match cb with
  | none => s
  | some request => { s with replies := s.replies ++ [(request, rc)] }

def assert (p : Prop) [Decidable p] (a : Assertion) : State :=
  if p then s else { s with failedAsserts := s.failedAsserts ++ [a] }

end State

end FlexBSO.Raid

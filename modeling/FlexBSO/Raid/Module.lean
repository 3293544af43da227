import FlexBSO.Raid.State

/- The functions of bdev_raid.c that create, fill, take apart and free raid bdevs,
   and the request handlers of bdev_raid_rpc.c over them. Results of calls into the
   bdev layer are arguments. -/
namespace FlexBSO.Raid

/-- The results of the calls `raid_bdev_add_base_device` and `raid_bdev_configure_base_bdev` make:
    `strdup`, `spdk_bdev_open_ext` where the bdev exists, the `calloc` of the level's `start` and
    `spdk_bdev_register`. -/
structure Answer where
  strdup : Bool := true
  openRc : Int := 0
  alloc : Bool := true
  registerRc : Int := 0
  deriving DecidableEq, Repr

/-- A decoded `bdev_raid_create` request. -/
structure CreateRequest where
  name : String
  stripSizeKb : Nat
  level : RaidLevel
  baseBdevs : List String
  uuid : Nat
  superblockEnabled : Bool
  deriving DecidableEq, Repr

namespace State
variable (s : State)

/-- `raid_bdev_find_by_name` -/
def raidBdevFindByName (name : String) : Option Nat :=
  s.gRaidBdevList.find? fun r => (s.raid r).name == name

/-- `raid_bdev_cleanup` -/
def raidBdevCleanup (r : Nat) : State :=
  let s := s.assert ((s.raid r).state ≠ .online) .cleanupState
  let s := s.assert (∀ info ∈ (s.raid r).baseBdevInfo, info.desc = none) .cleanupDesc
  let s := { s with gRaidBdevList := s.gRaidBdevList.erase r }
  s.modObject r fun o => { o with cleaned := o.cleaned + 1 }

/-- `raid_bdev_free` -/
def raidBdevFree (r : Nat) : State := s.modObject r fun o => { o with freed := o.freed + 1 }

/-- `raid_bdev_cleanup_and_free` -/
def raidBdevCleanupAndFree (r : Nat) : State := (s.raidBdevCleanup r).raidBdevFree r

/-- `spdk_bdev_module_release_bdev` and `spdk_bdev_close` -/
def releaseAndClose (b : Nat) : State :=
  { s with claim := Function.update s.claim b .none, descs := Function.update s.descs b (s.descs b - 1) }

/-- `raid_bdev_free_base_bdev_resource` -/
def raidBdevFreeBaseBdevResource (r i : Nat) : State :=
  let desc := (s.info r i).desc
  let s := s.modInfo r i fun info => { info with name := none }
  match desc with
  | none => s
  | some b =>
    let s := (s.releaseAndClose b).modInfo r i fun info => { info with desc := none }
    let s := s.assert ((s.raid r).numBaseBdevsDiscovered ≠ 0) .freeCount
    s.modRaid r fun raid => { raid with numBaseBdevsDiscovered := u8 (raid.numBaseBdevsDiscovered + 255) }

/-- `module->stop`: an asynchronous one calls back. -/
def moduleStop (r : Nat) : State :=
  match (s.raid r).level.module.stop with
  | .async => s.defer r .moduleStopDone
  | _ => s

/-- `raid_bdev_configure` -/
def raidBdevConfigure (r : Nat) (a : Answer) : State × Int :=
  let s := s.assert ((s.raid r).state = .configuring) .configureState
  let s := s.assert ((s.raid r).numBaseBdevsDiscovered = (s.raid r).numBaseBdevs) .configureCount
  let s := s.assert (∀ info ∈ (s.raid r).baseBdevInfo, info.desc.isSome) .configureDesc
  let (rc, raid) := (s.raid r).configureGeometry s.bdevs a.alloc
  let s := s.modRaid r fun _ => raid
  if rc ≠ 0 then (s, rc)
  else if a.registerRc ≠ 0 then
    -- `state` and the io device are set before and taken back after
    (s.moduleStop r, a.registerRc)
  else
    (s.modObject r fun o =>
      { o with bdev := { o.bdev with state := .online, status := .ready }, ioDevice := true }, 0)

/-- `raid_bdev_configure_base_bdev` -/
def raidBdevConfigureBaseBdev (r i : Nat) (a : Answer) : State × Int :=
  let s := s.assert ((s.info r i).name ≠ none) .baseName
  let s := s.assert ((s.info r i).desc = none) .baseDesc
  match (s.info r i).name.bind s.names with
  | none => (s, -ENODEV)
  | some b =>
    if a.openRc ≠ 0 then (s, a.openRc)
    -- `spdk_bdev_module_claim_bdev` refuses; the descriptor is closed again
    else if s.claim b ≠ .none then (s, -EPERM)
    else
      let s := { s with
        claim := Function.update s.claim b .raid, descs := Function.update s.descs b (s.descs b + 1) }
      let s := s.assert ((s.raid r).state ≠ .online) .baseState
      let (rc, info) := (s.info r i).layout (s.raid r).superblockEnabled b (s.bdevs b)
      let s := s.modInfo r i fun _ => info
      let s := s.modRaid r fun raid => { raid with numBaseBdevsDiscovered := u8 (raid.numBaseBdevsDiscovered + 1) }
      let s := s.assert ((s.raid r).numBaseBdevsDiscovered ≤ (s.raid r).numBaseBdevs) .baseCount
      if rc ≠ 0 then (s, rc)
      else if (s.raid r).numBaseBdevsDiscovered = (s.raid r).numBaseBdevs then s.raidBdevConfigure r a
      else (s, 0)

/-- `raid_bdev_add_base_device` -/
def raidBdevAddBaseDevice (r : Nat) (name : String) (slot : Nat) (a : Answer) : State × Int :=
  if (s.raid r).numBaseBdevs ≤ slot then (s, -EINVAL)
  else if (s.info r slot).name ≠ none then (s, -EBUSY)
  else if a.strdup = false then (s, -ENOMEM)
  else (s.modInfo r slot fun info => { info with name := some name }).raidBdevConfigureBaseBdev r slot a

/-- The slot of a raid bdev that waits for a bdev of this name: the inner loop of
    `raid_bdev_examine`. -/
def awaitingSlot (r : Nat) (name : String) : Option Nat :=
  (s.raid r).baseBdevInfo.findIdx? fun info => info.desc == none && info.name == some name

/-- One turn of the outer loop of `raid_bdev_examine` -/
def examineRaid (name : String) (answers : Nat → Answer) (s : State) (r : Nat) : State :=
  match s.awaitingSlot r name with
  | none => s
  | some i => (s.raidBdevConfigureBaseBdev r i (answers r)).1

/-- `raid_bdev_examine` -/
def raidBdevExamine (b : Nat) (answers : Nat → Answer) : State :=
  s.gRaidBdevList.foldl (examineRaid (s.bdevs b).name answers) s

/-- `spdk_bdev_unregister` of a raid bdev: a second one is refused. -/
def bdevUnregister (r : Nat) (cb : Option Nat) : State :=
  match (s.raid r).status with
  | .unregistering _ => s.reply cb (-EBUSY)
  | .destructing _ => s.reply cb (-EBUSY)
  | _ => (s.modRaid r fun raid => { raid with status := .unregistering cb }).defer r .destruct

/-- `raid_bdev_deconfigure` -/
def raidBdevDeconfigure (r : Nat) (cb : Option Nat) : State :=
  if (s.raid r).state ≠ .online then s.reply cb 0
  else
    let s := s.modRaid r fun raid => { raid with state := .offline }
    (s.assert ((s.raid r).numBaseBdevsDiscovered ≠ 0) .deconfigureCount).bdevUnregister r cb

/-- `raid_bdev_find_base_info_by_bdev` -/
def raidBdevFindBaseInfoByBdev (b : Nat) : Option (Nat × Nat) :=
  s.gRaidBdevList.findSome? fun r =>
    ((s.raid r).baseBdevInfo.findIdx? fun info => info.desc == some b).map fun i => (r, i)

/-- `raid_bdev_remove_base_bdev` on slot `i` of raid bdev `r`, once it is found -/
def removeSlot (r i : Nat) (cb : Option Nat) (quiesceRc : Int) : State :=
  if (s.info r i).removeScheduled then s
  else
    let s := s.modInfo r i fun info => { info with removeScheduled := true, removeCb := cb }
    if (s.raid r).state ≠ .online then
      let s := s.raidBdevFreeBaseBdevResource r i
      if (s.raid r).numBaseBdevsDiscovered = 0 then s.raidBdevCleanupAndFree r else s
    else if (s.raid r).numBaseBdevsDiscovered = (s.raid r).minBaseBdevsOperational then
      s.raidBdevDeconfigure r cb
    else if quiesceRc ≠ 0 then
      s.modInfo r i fun info => { info with removeScheduled := false }
    else s.defer r (.quiesced i)

/-- `raid_bdev_remove_base_bdev` -/
def raidBdevRemoveBaseBdev (b : Nat) (cb : Option Nat) (quiesceRc : Int) : State × Int :=
  match s.raidBdevFindBaseInfoByBdev b with
  | none => (s, -ENODEV)
  | some (r, i) => (s.removeSlot r i cb quiesceRc, 0)

/-- `raid_bdev_resize_base_bdev` -/
def raidBdevResizeBaseBdev (b : Nat) (notifyRc : Int) : State :=
  match s.raidBdevFindBaseInfoByBdev b with
  | none => s
  | some (r, _) =>
    if (s.raid r).level.module.resize then
      if (s.raid r).baseBdevInfo.all (·.desc.isSome) then s.modRaid r (·.raid0Resize s.bdevs notifyRc)
      else s.assert False .resizeDesc
    else s

/-- `raid_bdev_delete` -/
def raidBdevDelete (r : Nat) (cb : Option Nat) : State :=
  if (s.raid r).destroyStarted then s.reply cb (-EALREADY)
  else
    let s := s.modRaid r fun raid => { raid with destroyStarted := true }
    let s := (List.range (s.raid r).numBaseBdevs).foldl (fun s i =>
      let s := s.modInfo r i fun info => { info with removeScheduled := true }
      if (s.raid r).state ≠ .online then s.raidBdevFreeBaseBdevResource r i else s) s
    if (s.raid r).numBaseBdevsDiscovered = 0 then (s.raidBdevCleanupAndFree r).reply cb 0
    else s.raidBdevDeconfigure r cb

/-- `raid_bdev_module_stop_done` -/
def raidBdevModuleStopDone (r : Nat) : State :=
  if (s.raid r).state ≠ .configuring then
    (s.modObject r fun o => { o with ioDevice := false }).defer r .ioDeviceUnregister
  else s

/-- `_raid_bdev_destruct` -/
def raidBdevDestruct (r : Nat) : State :=
  let s := (List.range (s.raid r).numBaseBdevs).foldl (fun s i =>
    if s.gShutdownStarted ∨ (s.info r i).removeScheduled = true then s.raidBdevFreeBaseBdevResource r i else s) s
  let s := if s.gShutdownStarted then s.modRaid r fun raid => { raid with state := .offline } else s
  match (s.raid r).level.module.stop with
  | .async => s.defer r .moduleStopDone
  | _ => s.raidBdevModuleStopDone r

/-- `spdk_bdev_destruct_done` -/
def bdevDestructDone (r : Nat) : State :=
  let cb := match (s.raid r).status with
    | .unregistering cb => cb
    | .destructing cb => cb
    | _ => none
  (s.modRaid r fun raid => { raid with status := .unregistered }).reply cb 0

/-- `raid_bdev_io_device_unregister_cb` -/
def raidBdevIoDeviceUnregisterCb (r : Nat) : State :=
  if (s.raid r).numBaseBdevsDiscovered = 0 then
    ((s.raidBdevCleanup r).bdevDestructDone r).raidBdevFree r
  else s.bdevDestructDone r

/-- `raid_bdev_remove_base_bdev_on_quiesced`; `threads` are all threads. -/
def raidBdevRemoveBaseBdevOnQuiesced (threads : List Nat) (r i : Nat) (status : Int) : State :=
  if status ≠ 0 then
    let s := s.modInfo r i fun info => { info with removeScheduled := false }
    s.reply (s.info r i).removeCb status
  else s.defer r (.channelRemove i threads)

/-- `raid_bdev_channel_remove_base_bdev` on a thread, where it has a channel -/
def raidBdevChannelRemoveBaseBdev (r i thread : Nat) : State :=
  s.modObject r fun o =>
    { o with channels := Function.update o.channels thread ((o.channels thread).map fun ch => ch.set i none) }

/-- `raid_bdev_channels_remove_base_bdev_done`; the result of `spdk_bdev_unquiesce` is not read. -/
def raidBdevChannelsRemoveBaseBdevDone (r i : Nat) (unquiesceRc : Int) : State :=
  if unquiesceRc = 0 then s.defer r (.unquiesced i) else s

/-- `raid_bdev_remove_base_bdev_on_unquiesced` -/
def raidBdevRemoveBaseBdevOnUnquiesced (r i : Nat) (status : Int) : State :=
  let s := s.modInfo r i fun info => { info with removeScheduled := false }
  let s := if status ≠ 0 then s else s.raidBdevFreeBaseBdevResource r i
  s.reply (s.info r i).removeCb status

/-- `raid_bdev_create_cb` on a thread; `ok` is whether all channels can be had. -/
def raidBdevCreateCb (r thread : Nat) (ok : Bool) : State :=
  let s := s.assert ((s.raid r).state = .online) .channelState
  if ok then
    s.modObject r fun o =>
      { o with channels := Function.update o.channels thread (some (o.bdev.baseBdevInfo.map (·.desc))) }
  else s

/-- `raid_bdev_destroy_cb` -/
def raidBdevDestroyCb (r thread : Nat) : State :=
  s.modObject r fun o => { o with channels := Function.update o.channels thread none }

/-- `raid_bdev_create`; `alloc` is whether its allocations succeed. -/
def raidBdevCreate (req : CreateRequest) (alloc : Bool) : State × Except Int Nat :=
  if (s.raidBdevFindByName req.name).isSome then (s, .error (-EEXIST))
  else
    match RaidBdev.make req.name req.stripSizeKb req.baseBdevs.length req.level req.superblockEnabled req.uuid with
    | .error rc => (s, .error rc)
    | .ok raid =>
      if alloc = false then (s, .error (-ENOMEM))
      else
        ({ s with
          mem := Function.update s.mem s.next { bdev := raid }
          next := s.next + 1
          gRaidBdevList := s.gRaidBdevList ++ [s.next] }, .ok s.next)

/-- `RPC_MAX_BASE_BDEVS` -/
def rpcMaxBaseBdevs : Nat := 255

/-- `rpc_bdev_raid_create` up to its loop. `raid_bdev_create` accepts at least one base bdev. -/
def rpcCreateStart (request : Nat) (req : CreateRequest) (alloc : Bool) : State :=
  match s.raidBdevCreate req alloc with
  | (s, .error rc) => s.reply (some request) rc
  | (s, .ok r) => { s with rpc := some { request, raid := r, baseBdevs := req.baseBdevs } }

/-- One turn of the loop of `rpc_bdev_raid_create`, and the answer after the last. -/
def rpcCreateAdd (rpc : CreateRpc) (name : String) (rest : List String) (a : Answer) : State :=
  let (s, rc) := s.raidBdevAddBaseDevice rpc.raid name rpc.slot a
  if rc ≠ -ENODEV ∧ rc ≠ 0 then { s with rpc := some { rpc with error := some rc } }
  else if rest = [] then { s with rpc := none }.reply (some rpc.request) 0
  else { s with rpc := some { rpc with baseBdevs := rest, slot := rpc.slot + 1 } }

/-- The error path of the loop -/
def rpcCreateFail (rpc : CreateRpc) (rc : Int) : State :=
  { s.raidBdevDelete rpc.raid none with rpc := none }.reply (some rpc.request) rc

/-- `rpc_bdev_raid_delete` -/
def rpcBdevRaidDelete (request : Nat) (name : String) : State :=
  match s.raidBdevFindByName name with
  | none => s.reply (some request) (-ENODEV)
  | some r => s.raidBdevDelete r (some request)

/-- `rpc_bdev_raid_remove_base_bdev`; `openRc` is the result of `spdk_bdev_open_ext` where the bdev
    exists. The answer carries the error code. -/
def rpcBdevRaidRemoveBaseBdev (request : Nat) (name : String) (openRc quiesceRc : Int) : State :=
  match s.names name with
  | none => s.reply (some request) (-ENODEV)
  | some b =>
    if openRc ≠ 0 then s.reply (some request) openRc
    else
      let (s, rc) := s.raidBdevRemoveBaseBdev b (some request) quiesceRc
      if rc ≠ 0 then s.reply (some request) rc else s

end State

end FlexBSO.Raid

import FlexBSO.Raid.Accounting

/- What an event does to one raid bdev, said once. `State.target` tells which raid
   bdev an event is about and what it asks of it; `Move` lists, branch by branch of
   the source, what the raid bdev may then look like and which answers are given;
   `step_moves` says that every step of the machine is such a move, and leaves all
   other raid bdevs alone. Every invariant of the lifecycle is proved from the moves. -/
namespace FlexBSO.Raid

open State

/-- What an event asks of a raid bdev. -/
inductive Act where
  /-- a base bdev is added to a slot -/
  | fill
  | remove (i : Nat) (cb : Option Nat) (quiesceRc : Int)
  | resize
  | delete (cb : Option Nat)
  | callback (d : Deferred) (rc : Int)
  | channelCreate (thread : Nat) (ok : Bool)
  | channelDestroy (thread : Nat)
  | unregister (cb : Option Nat)
  deriving DecidableEq, Repr

/-- The raid bdev an event is about, and what it asks of it. -/
def State.target (s : State) : Event → Option (Nat × Act)
  | .rpcCreateAdd _ => s.rpc.map fun p => (p.raid, .fill)
  | .rpcCreateFail => s.rpc.map fun p => (p.raid, .delete none)
  | .rpcDelete request name => (s.raidBdevFindByName name).map fun r => (r, .delete (some request))
  | .rpcRemove request name openRc quiesceRc =>
    if openRc = 0 then
      ((s.names name).bind s.raidBdevFindBaseInfoByBdev).map fun slot =>
        (slot.1, .remove slot.2 (some request) quiesceRc)
    else none
  | .remove b cb quiesceRc => (s.raidBdevFindBaseInfoByBdev b).map fun slot => (slot.1, .remove slot.2 cb quiesceRc)
  | .resize b _ => (s.raidBdevFindBaseInfoByBdev b).map fun slot => (slot.1, .resize)
  | .callback r d rc => some (r, .callback d rc)
  | .channelCreate r thread ok => some (r, .channelCreate thread ok)
  | .channelDestroy r thread => some (r, .channelDestroy thread)
  | .bdevUnregister r cb => some (r, .unregister cb)
  | _ => none

/-- The bdev layer is unregistering or destructing the raid bdev. -/
def BdevStatus.busy : BdevStatus → Bool
  | .unregistering _ => true
  | .destructing _ => true
  | _ => false

/-- The request that waits for the raid bdev to be unregistered. -/
def BdevStatus.waiter : BdevStatus → Option Nat
  | .unregistering cb => cb
  | .destructing cb => cb
  | _ => none

/-- The status after the bdev layer calls `destruct` -/
def BdevStatus.destroy : BdevStatus → BdevStatus
  | .unregistering cb => .destructing cb
  | status => status

/-- A slot whose removal is scheduled -/
def scheduleSlot (cb : Option Nat) (info : RaidBaseBdevInfo) : RaidBaseBdevInfo :=
  { info with removeScheduled := true, removeCb := cb }

/-- A slot whose removal is not scheduled any more -/
def cancelSlot (info : RaidBaseBdevInfo) : RaidBaseBdevInfo := { info with removeScheduled := false }

theorem removeCb_cancel (b : RaidBdev) (i : Nat) : ((b.modSlot i cancelSlot).slot i).removeCb = (b.slot i).removeCb := by
  rw [RaidBdev.slot_modSlot]
  split <;> rfl

theorem removeCb_free (b : RaidBdev) (i : Nat) : ((b.freeSlot i).slot i).removeCb = (b.slot i).removeCb := by
  rw [RaidBdev.slot_freeSlot, if_pos rfl]

namespace RaidObject

def modBdev (o : RaidObject) (f : RaidBdev → RaidBdev) : RaidObject := { o with bdev := f o.bdev }

/-- Callback `d` is not to come any more. -/
def took (o : RaidObject) (d : Deferred) : RaidObject := { o with callbacks := o.callbacks.erase d }

/-- Callback `d` is to come. -/
def deferred (o : RaidObject) (d : Deferred) : RaidObject := { o with callbacks := o.callbacks ++ [d] }

/-- `raid_bdev_cleanup_and_free` -/
def dispose (o : RaidObject) : RaidObject := { o with cleaned := o.cleaned + 1, freed := o.freed + 1 }

/-- A removal of slot `i` while the raid bdev is not online -/
def closed (o : RaidObject) (i : Nat) (cb : Option Nat) : RaidObject :=
  o.modBdev fun b => (b.modSlot i (scheduleSlot cb)).freeSlot i

/-- `raid_bdev_deconfigure` of an online raid bdev: offline, and to be unregistered -/
def offline (o : RaidObject) (cb : Option Nat) : RaidObject :=
  (o.modBdev fun b => { b with state := .offline, status := .unregistering cb }).deferred .destruct

/-- The loop of `raid_bdev_delete`, with `discovered` base bdevs left -/
def deleting (o : RaidObject) (discovered : Nat) : RaidObject :=
  o.modBdev fun b => { b with
    destroyStarted := true, baseBdevInfo := b.baseBdevInfo.map (deleteSlot b.state)
    numBaseBdevsDiscovered := discovered }

/-- `raid_bdev_module_stop_done` -/
def stopDone (o : RaidObject) : RaidObject :=
  if o.bdev.state ≠ .configuring then { o with ioDevice := false }.deferred .ioDeviceUnregister else o

@[simp] theorem stopDone_freed (o : RaidObject) : o.stopDone.freed = o.freed := by
  unfold stopDone
  split <;> rfl

/-- `_raid_bdev_destruct` up to `module->stop`, with `discovered` base bdevs left -/
def destructed (o : RaidObject) (shutdown : Bool) (discovered : Nat) : RaidObject :=
  o.modBdev fun b => { b with
    status := b.status.destroy, baseBdevInfo := b.baseBdevInfo.map (destructSlot shutdown)
    numBaseBdevsDiscovered := discovered, state := if shutdown then .offline else b.state }

/-- `raid_bdev_channel_remove_base_bdev` on a thread -/
def visited (o : RaidObject) (i thread : Nat) : RaidObject :=
  { o with channels := Function.update o.channels thread ((o.channels thread).map fun ch => ch.set i none) }

end RaidObject

/-- The module is told to stop only when all slots are filled and the raid bdev was not registered. -/
def RaidObject.Stops (o o' : RaidObject) : Prop :=
  o'.callbacks = o.callbacks ∨
    (o'.bdev.state = .configuring ∧ ∀ info ∈ o'.bdev.baseBdevInfo, info.desc.isSome = true)

/-- What an act makes of a raid bdev, and the answers it gives. -/
inductive Move (threads : List Nat) (shutdown : Bool) (o : RaidObject) :
    Act → RaidObject → List (Nat × Int) → Prop where
  | filled {o' : RaidObject} (h : o.Built o') (hstops : o.Stops o') (hs : o.bdev.state = .configuring) :
      Move threads shutdown o .fill o' []
  | resized {b : RaidBdev} (h : o.bdev.SameLife b) : Move threads shutdown o .resize (o.modBdev fun _ => b) []
  -- `raid_bdev_remove_base_bdev`: scheduled before; not online; the last one; too few left; quiesce
  | scheduled {i : Nat} {cb : Option Nat} {rc : Int} (hf : (o.bdev.slot i).removeScheduled = true) :
      Move threads shutdown o (.remove i cb rc) o []
  | closed {i : Nat} {cb : Option Nat} {rc : Int} (hf : (o.bdev.slot i).removeScheduled = false)
      (hs : o.bdev.state ≠ .online) (hd : (o.closed i cb).bdev.numBaseBdevsDiscovered ≠ 0) :
      Move threads shutdown o (.remove i cb rc) (o.closed i cb) []
  | closedLast {i : Nat} {cb : Option Nat} {rc : Int} (hf : (o.bdev.slot i).removeScheduled = false)
      (hs : o.bdev.state ≠ .online) (hd : (o.closed i cb).bdev.numBaseBdevsDiscovered = 0) :
      Move threads shutdown o (.remove i cb rc) (o.closed i cb).dispose []
  | offline {i : Nat} {cb : Option Nat} {rc : Int} (hf : (o.bdev.slot i).removeScheduled = false)
      (hs : o.bdev.state = .online) (hm : o.bdev.numBaseBdevsDiscovered = o.bdev.minBaseBdevsOperational)
      (hb : o.bdev.status.busy = false) : Move threads shutdown o (.remove i cb rc)
        ((o.modBdev (·.modSlot i (scheduleSlot cb))).offline cb) []
  | offlineBusy {i : Nat} {cb : Option Nat} {rc : Int} (hf : (o.bdev.slot i).removeScheduled = false)
      (hs : o.bdev.state = .online) (hm : o.bdev.numBaseBdevsDiscovered = o.bdev.minBaseBdevsOperational)
      (hb : o.bdev.status.busy = true) : Move threads shutdown o (.remove i cb rc)
        (o.modBdev fun b => { b.modSlot i (scheduleSlot cb) with state := .offline }) (answer cb (-EBUSY))
  | quiesceRefused {i : Nat} {cb : Option Nat} {rc : Int} (hf : (o.bdev.slot i).removeScheduled = false)
      (hs : o.bdev.state = .online) (hm : o.bdev.numBaseBdevsDiscovered ≠ o.bdev.minBaseBdevsOperational)
      (hrc : rc ≠ 0) : Move threads shutdown o (.remove i cb rc)
        (o.modBdev (·.modSlot i fun info => cancelSlot (scheduleSlot cb info))) []
  | quiescing {i : Nat} {cb : Option Nat} {rc : Int} (hf : (o.bdev.slot i).removeScheduled = false)
      (hs : o.bdev.state = .online) (hm : o.bdev.numBaseBdevsDiscovered ≠ o.bdev.minBaseBdevsOperational)
      (hrc : rc = 0) : Move threads shutdown o (.remove i cb rc)
        ((o.modBdev (·.modSlot i (scheduleSlot cb))).deferred (.quiesced i)) []
  -- `raid_bdev_delete`: started before; nothing left; online
  | deleteAgain {cb : Option Nat} (hd : o.bdev.destroyStarted = true) :
      Move threads shutdown o (.delete cb) o (answer cb (-EALREADY))
  | deleted {cb : Option Nat} (hd : o.bdev.destroyStarted = false)
      (hs : o.bdev.state ≠ .online ∨ o.bdev.numBaseBdevsDiscovered = 0) :
      Move threads shutdown o (.delete cb) (o.deleting 0).dispose (answer cb 0)
  | deleteOffline {cb : Option Nat} {n : Nat} (hd : o.bdev.destroyStarted = false) (hn : n ≠ 0)
      (hs : o.bdev.state = .online) (hb : o.bdev.status.busy = false) :
      Move threads shutdown o (.delete cb) ((o.deleting n).offline cb) []
  | deleteBusy {cb : Option Nat} {n : Nat} (hd : o.bdev.destroyStarted = false) (hn : n ≠ 0)
      (hs : o.bdev.state = .online) (hb : o.bdev.status.busy = true) : Move threads shutdown o (.delete cb)
        ((o.deleting n).modBdev fun b => { b with state := .offline }) (answer cb (-EBUSY))
  -- the teardown
  | destructStops {rc : Int} {n : Nat} (hr : o.Ready threads .destruct) : Move threads shutdown o (.callback .destruct rc)
      (((o.took .destruct).destructed shutdown n).deferred .moduleStopDone) []
  | destruct {rc : Int} {n : Nat} (hr : o.Ready threads .destruct) : Move threads shutdown o (.callback .destruct rc)
      ((o.took .destruct).destructed shutdown n).stopDone []
  | stopDone {rc : Int} (hr : o.Ready threads .moduleStopDone) : Move threads shutdown o (.callback .moduleStopDone rc)
      (o.took .moduleStopDone).stopDone []
  | unregistered {rc : Int} (hr : o.Ready threads .ioDeviceUnregister) (hd : o.bdev.numBaseBdevsDiscovered ≠ 0) :
      Move threads shutdown o (.callback .ioDeviceUnregister rc)
        ((o.took .ioDeviceUnregister).modBdev fun b => { b with status := .unregistered })
        (answer o.bdev.status.waiter 0)
  | unregisteredLast {rc : Int} (hr : o.Ready threads .ioDeviceUnregister) (hd : o.bdev.numBaseBdevsDiscovered = 0) :
      Move threads shutdown o (.callback .ioDeviceUnregister rc)
        ((o.took .ioDeviceUnregister).modBdev fun b => { b with status := .unregistered }).dispose
        (answer o.bdev.status.waiter 0)
  -- the removal of a slot of an online raid bdev
  | quiesceFailed {i : Nat} {rc : Int} (hr : o.Ready threads (.quiesced i)) (hrc : rc ≠ 0) :
      Move threads shutdown o (.callback (.quiesced i) rc)
        ((o.took (.quiesced i)).modBdev (·.modSlot i cancelSlot)) (answer (o.bdev.slot i).removeCb rc)
  | quiesced {i : Nat} {rc : Int} (hr : o.Ready threads (.quiesced i)) (hrc : rc = 0) :
      Move threads shutdown o (.callback (.quiesced i) rc)
        ((o.took (.quiesced i)).deferred (.channelRemove i threads)) []
  | visited {i thread : Nat} {rest : List Nat} {rc : Int} (hr : o.Ready threads (.channelRemove i (thread :: rest))) :
      Move threads shutdown o (.callback (.channelRemove i (thread :: rest)) rc)
        (((o.took (.channelRemove i (thread :: rest))).visited i thread).deferred (.channelRemove i rest)) []
  | allVisited {i : Nat} {rc : Int} (hr : o.Ready threads (.channelRemove i [])) (hrc : rc = 0) :
      Move threads shutdown o (.callback (.channelRemove i []) rc)
        ((o.took (.channelRemove i [])).deferred (.unquiesced i)) []
  | unquiesceRefused {i : Nat} {rc : Int} (hr : o.Ready threads (.channelRemove i [])) (hrc : rc ≠ 0) :
      Move threads shutdown o (.callback (.channelRemove i []) rc) (o.took (.channelRemove i [])) []
  | unquiesceFailed {i : Nat} {rc : Int} (hr : o.Ready threads (.unquiesced i)) (hrc : rc ≠ 0) :
      Move threads shutdown o (.callback (.unquiesced i) rc)
        ((o.took (.unquiesced i)).modBdev (·.modSlot i cancelSlot)) (answer (o.bdev.slot i).removeCb rc)
  | unquiesced {i : Nat} {rc : Int} (hr : o.Ready threads (.unquiesced i)) (hrc : rc = 0) :
      Move threads shutdown o (.callback (.unquiesced i) rc)
        ((o.took (.unquiesced i)).modBdev fun b => (b.modSlot i cancelSlot).freeSlot i)
        (answer (o.bdev.slot i).removeCb rc)
  -- I/O channels, and the bdev layer at shutdown
  | channelFailed {thread : Nat} : Move threads shutdown o (.channelCreate thread false) o []
  | channelCreated {thread : Nat} (ht : thread ∈ threads) (ho : o.Open = true) (hc : o.channels thread = none) :
      Move threads shutdown o (.channelCreate thread true)
        { o with channels := Function.update o.channels thread (some (o.bdev.baseBdevInfo.map (·.desc))) } []
  | channelDestroyed {thread : Nat} : Move threads shutdown o (.channelDestroy thread)
      { o with channels := Function.update o.channels thread none } []
  | unregister {cb : Option Nat} (hs : shutdown = true) (hb : o.bdev.status = .ready) :
      Move threads shutdown o (.unregister cb)
        ((o.modBdev fun b => { b with status := .unregistering cb }).deferred .destruct) []

/-- `t` is `s` after raid bdev `r` became `o` and the answers `out` were given; `gone` tells whether
    it was taken off the list. -/
structure Becomes (r : Nat) (s t : State) (o : RaidObject) (out : List (Nat × Int)) (gone : Bool) : Prop where
  frame : Local r s t
  mem : t.mem r = o
  replies : t.replies = s.replies ++ out
  list : t.gRaidBdevList = if gone then s.gRaidBdevList.erase r else s.gRaidBdevList
  used : t.usedAfterFree = s.usedAfterFree

namespace Becomes

variable {s t u : State} {r i : Nat} {o o' : RaidObject} {out out' : List (Nat × Int)} {g : Bool}

theorem of_only (h : Only r s t) : Becomes r s t (t.mem r) [] false :=
  ⟨h.toLocal, rfl, h.replies.trans (List.append_nil _).symm, h.gRaidBdevList, h.usedAfterFree⟩

theorem trans (h : Becomes r s t o out false) (h' : Becomes r t u o' out' g) :
    Becomes r s u o' (out ++ out') g := by
  refine ⟨h.frame.trans h'.frame, h'.mem, ?_, ?_, h'.used.trans h.used⟩
  · rw [h'.replies, h.replies, List.append_assoc]
  · rw [h'.list, h.list]
    rfl

theorem trans_gone (h : Becomes r s t o out true) (h' : Becomes r t u o' out' false) :
    Becomes r s u o' (out ++ out') true := by
  refine ⟨h.frame.trans h'.frame, h'.mem, ?_, ?_, h'.used.trans h.used⟩
  · rw [h'.replies, h.replies, List.append_assoc]
  · exact h'.list.trans h.list

theorem modObject (f : RaidObject → RaidObject) : Becomes r s (s.modObject r f) (f (s.mem r)) [] false := by
  have h := of_only (only_modObject (s := s) (r := r) f)
  rwa [mem_modObject] at h

theorem modRaid (f : RaidBdev → RaidBdev) : Becomes r s (s.modRaid r f) ((s.mem r).modBdev f) [] false :=
  modObject _

theorem modInfo (f : RaidBaseBdevInfo → RaidBaseBdevInfo) :
    Becomes r s (s.modInfo r i f) ((s.mem r).modBdev (·.modSlot i f)) [] false := modRaid _

theorem defer (d : Deferred) : Becomes r s (s.defer r d) ((s.mem r).deferred d) [] false := modObject _

theorem assert (p : Prop) [Decidable p] (a : Assertion) : Becomes r s (s.assert p a) (s.mem r) [] false := by
  have h := of_only (only_assert (s := s) (r := r) p a)
  have hm : (s.assert p a).mem r = s.mem r := by
    rw [assert_eq]
  rwa [hm] at h

theorem reply (cb : Option Nat) (rc : Int) : Becomes r s (s.reply cb rc) (s.mem r) (answer cb rc) false := by
  refine ⟨local_reply cb rc, ?_, ?_, ?_, ?_⟩ <;> rw [reply_eq]
  rfl

theorem free : Becomes r s (s.raidBdevFreeBaseBdevResource r i) ((s.mem r).modBdev (·.freeSlot i)) [] false := by
  have h := of_only (only_free (s := s) (r := r) (i := i))
  rwa [mem_free] at h

theorem cleanup : Becomes r s (s.raidBdevCleanup r) { s.mem r with cleaned := (s.mem r).cleaned + 1 } [] true := by
  obtain ⟨l, _, heq⟩ := cleanup_eq s r
  refine ⟨local_cleanup, ?_, ?_, ?_, ?_⟩ <;> rw [heq]
  · exact mem_modObject (f := fun o => { o with cleaned := o.cleaned + 1 })
  · exact (List.append_nil _).symm
  · rfl
  · rfl

theorem cleanupAndFree : Becomes r s (s.raidBdevCleanupAndFree r) (s.mem r).dispose [] true := by
  have h := trans_gone (cleanup (s := s) (r := r)) (modObject fun o => { o with freed := o.freed + 1 })
  rwa [cleanup.mem] at h

theorem bdevUnregister (cb : Option Nat) (hb : (s.mem r).bdev.status.busy = false) :
    Becomes r s (s.bdevUnregister r cb)
      (((s.mem r).modBdev fun b => { b with status := .unregistering cb }).deferred .destruct) [] false := by
  have h : s.bdevUnregister r cb =
      (s.modRaid r fun raid => { raid with status := .unregistering cb }).defer r .destruct := by
    unfold State.bdevUnregister
    cases hst : (s.raid r).status with
    | unregistered => rfl
    | ready => rfl
    | unregistering c =>
      rw [raid] at hst
      rw [hst] at hb
      cases hb
    | destructing c =>
      rw [raid] at hst
      rw [hst] at hb
      cases hb
  rw [h]
  have h₁ := modRaid (s := s) (r := r) fun raid => { raid with status := .unregistering cb }
  have h₂ := h₁.trans (defer .destruct)
  rwa [h₁.mem] at h₂

theorem bdevUnregister_busy (cb : Option Nat) (hb : (s.mem r).bdev.status.busy = true) :
    Becomes r s (s.bdevUnregister r cb) (s.mem r) (answer cb (-EBUSY)) false := by
  have h : s.bdevUnregister r cb = s.reply cb (-EBUSY) := by
    unfold State.bdevUnregister
    cases hst : (s.raid r).status with
    | unregistered =>
      rw [raid] at hst
      rw [hst] at hb
      cases hb
    | ready =>
      rw [raid] at hst
      rw [hst] at hb
      cases hb
    | unregistering c => rfl
    | destructing c => rfl
  rw [h]
  exact reply cb _

/-- `raid_bdev_deconfigure` of an online raid bdev, up to `spdk_bdev_unregister` -/
theorem setOffline (cb : Option Nat) (hs : (s.raid r).state = .online) : ∃ t,
    s.raidBdevDeconfigure r cb = t.bdevUnregister r cb ∧
      Becomes r s t ((s.mem r).modBdev fun b => { b with state := .offline }) [] false := by
  set u := s.modRaid r fun raid => { raid with state := .offline } with hu
  refine ⟨u.assert ((u.raid r).numBaseBdevsDiscovered ≠ 0) .deconfigureCount, ?_, ?_⟩
  · unfold raidBdevDeconfigure
    rw [if_neg (not_not_intro hs)]
  · have h₁ : Becomes r s u ((s.mem r).modBdev fun b => { b with state := .offline }) [] false := modRaid _
    have h₂ := h₁.trans (assert ((u.raid r).numBaseBdevsDiscovered ≠ 0) .deconfigureCount)
    rwa [h₁.mem] at h₂

theorem deconfigure (cb : Option Nat) (hs : (s.raid r).state = .online) (hb : (s.mem r).bdev.status.busy = false) :
    Becomes r s (s.raidBdevDeconfigure r cb) ((s.mem r).offline cb) [] false := by
  obtain ⟨t, heq, ht⟩ := setOffline cb hs
  have h := ht.trans (bdevUnregister cb (by rw [ht.mem]; exact hb))
  rw [ht.mem] at h
  rw [heq]
  exact h

theorem deconfigure_busy (cb : Option Nat) (hs : (s.raid r).state = .online)
    (hb : (s.mem r).bdev.status.busy = true) : Becomes r s (s.raidBdevDeconfigure r cb)
      ((s.mem r).modBdev fun b => { b with state := .offline }) (answer cb (-EBUSY)) false := by
  obtain ⟨t, heq, ht⟩ := setOffline cb hs
  have h := ht.trans (bdevUnregister_busy cb (by rw [ht.mem]; exact hb))
  rw [ht.mem] at h
  rw [heq]
  exact h

theorem moduleStopDone : Becomes r s (s.raidBdevModuleStopDone r) (s.mem r).stopDone [] false := by
  unfold raidBdevModuleStopDone RaidObject.stopDone
  by_cases hs : (s.raid r).state ≠ .configuring
  · have hs' : (s.mem r).bdev.state ≠ .configuring := hs
    rw [if_pos hs, if_pos hs']
    have h₁ := modObject (s := s) (r := r) fun o => { o with ioDevice := false }
    have h₂ := h₁.trans (defer .ioDeviceUnregister)
    rwa [h₁.mem] at h₂
  · have hs' : ¬ (s.mem r).bdev.state ≠ .configuring := hs
    rw [if_neg hs, if_neg hs']
    exact of_only (.refl s)

theorem destructDone : Becomes r s (s.bdevDestructDone r)
    ((s.mem r).modBdev fun b => { b with status := .unregistered }) (answer (s.mem r).bdev.status.waiter 0) false := by
  unfold bdevDestructDone
  have h₁ := modRaid (s := s) (r := r) fun raid => { raid with status := .unregistered }
  have hw : (match (s.raid r).status with
      | .unregistering cb => cb
      | .destructing cb => cb
      | _ => none) = (s.mem r).bdev.status.waiter := by
    unfold raid BdevStatus.waiter
    cases (s.mem r).bdev.status <;> rfl
  have h₂ := h₁.trans (reply (match (s.raid r).status with
      | .unregistering cb => cb
      | .destructing cb => cb
      | _ => none) 0)
  rw [hw, h₁.mem] at h₂
  exact h₂

end Becomes

/-- The act reads the raid bdev without having found it on the list. -/
def Act.touches : Act → Bool
  | .callback _ _ => true
  | .channelCreate _ _ => true
  | _ => false

/-- The step from `s` to `t` is act `a` on raid bdev `r`. -/
structure Moved (threads : List Nat) (r : Nat) (a : Act) (s t : State) : Prop where
  frame : Local r s t
  move : ∃ out, Move threads s.gShutdownStarted (s.mem r) a (t.mem r) out ∧ t.replies = s.replies ++ out
  list : t.gRaidBdevList = if (s.mem r).freed < (t.mem r).freed then s.gRaidBdevList.erase r else s.gRaidBdevList
  used : t.usedAfterFree = true → s.usedAfterFree = true ∨ (a.touches = true ∧ (s.mem r).freed ≠ 0)

section

variable {threads : List Nat} {s t u : State} {r i : Nat} {a : Act} {o : RaidObject} {out : List (Nat × Int)}

theorem Becomes.stays (h : Becomes r s t o out false) (hm : Move threads s.gShutdownStarted (s.mem r) a o out)
    (hf : o.freed = (s.mem r).freed) : Moved threads r a s t := by
  refine ⟨h.frame, ⟨out, by rw [h.mem]; exact hm, h.replies⟩, ?_, ?_⟩
  · rw [h.mem, hf, if_neg (Nat.lt_irrefl _)]
    exact h.list
  · rw [h.used]
    exact .inl

theorem Becomes.goes (h : Becomes r s t o out true) (hm : Move threads s.gShutdownStarted (s.mem r) a o out)
    (hf : (s.mem r).freed < o.freed) : Moved threads r a s t := by
  refine ⟨h.frame, ⟨out, by rw [h.mem]; exact hm, h.replies⟩, ?_, ?_⟩
  · rw [h.mem, if_pos hf]
    exact h.list
  · rw [h.used]
    exact .inl

theorem moved_removeSlot (cb : Option Nat) (rc : Int) : Moved threads r (.remove i cb rc) s (s.removeSlot r i cb rc) := by
  unfold removeSlot
  cases hf : (s.info r i).removeScheduled with
  | true => exact (Becomes.of_only (.refl s)).stays (.scheduled hf) rfl
  | false =>
    simp only [Bool.false_eq_true, if_false]
    have h₁ : Becomes r s (s.modInfo r i fun info => { info with removeScheduled := true, removeCb := cb })
        ((s.mem r).modBdev (·.modSlot i (scheduleSlot cb))) [] false := Becomes.modInfo _
    generalize s.modInfo r i (fun info => { info with removeScheduled := true, removeCb := cb }) = u at h₁
    have hraid : u.raid r = (s.raid r).modSlot i (scheduleSlot cb) := by
      rw [raid, h₁.mem]
      rfl
    have hstate : (u.raid r).state = (s.mem r).bdev.state := by
      rw [hraid]
      rfl
    have hdisc : (u.raid r).numBaseBdevsDiscovered = (s.mem r).bdev.numBaseBdevsDiscovered := by
      rw [hraid]
      rfl
    have hmin : (u.raid r).minBaseBdevsOperational = (s.mem r).bdev.minBaseBdevsOperational := by
      rw [hraid]
      rfl
    have hstatus : (u.mem r).bdev.status = (s.mem r).bdev.status := by
      rw [h₁.mem]
      rfl
    by_cases hs : (u.raid r).state ≠ .online
    · have hs' : (s.mem r).bdev.state ≠ .online := by
        rw [← hstate]
        exact hs
      rw [if_pos hs]
      have h₂ := h₁.trans (Becomes.free (i := i))
      rw [h₁.mem] at h₂
      generalize u.raidBdevFreeBaseBdevResource r i = v at h₂
      have hv : (v.raid r).numBaseBdevsDiscovered = ((s.mem r).closed i cb).bdev.numBaseBdevsDiscovered := by
        rw [raid, h₂.mem]
        rfl
      by_cases hd : (v.raid r).numBaseBdevsDiscovered = 0
      · rw [if_pos hd]
        have h₃ := h₂.trans Becomes.cleanupAndFree
        rw [h₂.mem] at h₃
        exact h₃.goes (.closedLast hf hs' (hv.symm.trans hd)) (Nat.lt_succ_self _)
      · rw [if_neg hd]
        exact h₂.stays (.closed hf hs' (by rw [← hv]; exact hd)) rfl
    · have hs' : (s.mem r).bdev.state = .online := by
        rw [← hstate]
        exact not_not.mp hs
      rw [if_neg hs]
      by_cases hm : (u.raid r).numBaseBdevsDiscovered = (u.raid r).minBaseBdevsOperational
      · have hm' : (s.mem r).bdev.numBaseBdevsDiscovered = (s.mem r).bdev.minBaseBdevsOperational := by
          rw [← hdisc, ← hmin]
          exact hm
        rw [if_pos hm]
        cases hb : (s.mem r).bdev.status.busy with
        | false =>
          have h₂ := h₁.trans (Becomes.deconfigure cb (not_not.mp hs) (by rw [hstatus]; exact hb))
          rw [h₁.mem] at h₂
          exact h₂.stays (.offline hf hs' hm' hb) rfl
        | true =>
          have h₂ := h₁.trans (Becomes.deconfigure_busy cb (not_not.mp hs) (by rw [hstatus]; exact hb))
          rw [h₁.mem] at h₂
          exact h₂.stays (.offlineBusy hf hs' hm' hb) rfl
      · have hm' : (s.mem r).bdev.numBaseBdevsDiscovered ≠ (s.mem r).bdev.minBaseBdevsOperational := by
          rw [← hdisc, ← hmin]
          exact hm
        rw [if_neg hm]
        by_cases hrc : rc = 0
        · rw [if_neg (not_not_intro hrc)]
          have h₂ := h₁.trans (Becomes.defer (.quiesced i))
          rw [h₁.mem] at h₂
          exact h₂.stays (.quiescing hf hs' hm' hrc) rfl
        · rw [if_pos hrc]
          have h₂ := h₁.trans (Becomes.modInfo (i := i) cancelSlot)
          have heq : (u.mem r).modBdev (·.modSlot i cancelSlot) =
              (s.mem r).modBdev (·.modSlot i fun info => cancelSlot (scheduleSlot cb info)) := by
            rw [h₁.mem]
            simp only [RaidObject.modBdev, RaidBdev.modSlot, List.modify_modify_eq]
            rfl
          rw [heq] at h₂
          exact h₂.stays (.quiesceRefused hf hs' hm' hrc) rfl

/-- The loop of `raid_bdev_delete` leaves a descriptor open only on an online raid bdev. -/
theorem deleting_count (hs : Acct s) : ∃ n, Acct ((List.range (s.raid r).numBaseBdevs).foldl (deleteTurn r)
      (s.modRaid r fun raid => { raid with destroyStarted := true })) ∧
    Becomes r s ((List.range (s.raid r).numBaseBdevs).foldl (deleteTurn r)
      (s.modRaid r fun raid => { raid with destroyStarted := true })) ((s.mem r).deleting n) [] false ∧
    ((s.raid r).state ≠ .online → n = 0) ∧
    ((s.raid r).state = .online → n = (s.raid r).numBaseBdevsDiscovered) := by
  set u := s.modRaid r fun raid => { raid with destroyStarted := true } with hu
  have hacct : Acct u := (quiet_modRaid ⟨rfl, rfl, .inl⟩).acct hs
  have hraid : u.raid r = { s.raid r with destroyStarted := true } := raid_modRaid
  have hn : (u.raid r).numBaseBdevs = (s.raid r).numBaseBdevs := by
    rw [hraid]
    rfl
  have h₁ : Becomes r s u ((s.mem r).modBdev fun b => { b with destroyStarted := true }) [] false := Becomes.modRaid _
  obtain ⟨honly, n, hmem⟩ := deleteLoop u r
  rw [hn] at honly hmem
  have hacct' : Acct ((List.range (s.raid r).numBaseBdevs).foldl (deleteTurn r) u) := by
    refine acct_foldl _ ?_ hacct
    intro t j ht
    have hq : Quiet t (t.modInfo r j fun info => { info with removeScheduled := true }) := quiet_modInfo (by simp)
    unfold deleteTurn
    simp only []
    split
    · exact acct_free (hq.acct ht)
    · exact hq.acct ht
  have h₂ := h₁.trans (Becomes.of_only honly)
  simp only [] at h₂ hmem hacct'
  generalize (List.range (s.raid r).numBaseBdevs).foldl (deleteTurn r) u = v at h₂ hmem hacct'
  have hmem' : v.mem r = (s.mem r).deleting n := by
    rw [hmem, hraid, h₁.mem]
    rfl
  rw [hmem'] at h₂
  refine ⟨n, hacct', h₂, ?_, ?_⟩
  · intro hdown
    have hcount := (hacct'.raids r).count
    rw [raid, hmem'] at hcount
    have hzero : ((s.mem r).deleting n).bdev.opened = 0 := by
      apply List.countP_eq_zero.mpr
      intro info hinfo
      obtain ⟨info₀, _, rfl⟩ := List.mem_map.mp hinfo
      have hdesc : (deleteSlot (s.mem r).bdev.state info₀).desc = none := by
        have hdown' : (s.mem r).bdev.state ≠ .online := hdown
        simp only [deleteSlot]
        rw [if_pos hdown']
        rfl
      rw [hdesc]
      decide
    exact hcount.trans hzero
  · intro honline
    have hcount := (hacct'.raids r).count
    rw [raid, hmem'] at hcount
    have hopen : ((s.mem r).deleting n).bdev.opened = (s.mem r).bdev.opened := by
      simp only [RaidObject.deleting, RaidObject.modBdev, RaidBdev.opened, List.countP_map]
      apply List.countP_congr
      intro info _
      have honline' : (s.mem r).bdev.state = .online := honline
      simp only [Function.comp_apply, deleteSlot, honline', ne_eq, not_true_eq_false, if_false]
    exact hcount.trans (hopen.trans (hs.raids r).count.symm)

theorem moved_delete (hs : Acct s) (cb : Option Nat) : Moved threads r (.delete cb) s (s.raidBdevDelete r cb) := by
  rw [delete_eq]
  cases hstart : (s.raid r).destroyStarted with
  | true => exact (Becomes.reply cb (-EALREADY)).stays (.deleteAgain hstart) rfl
  | false =>
    obtain ⟨n, _, hbec, hdown, honline⟩ := deleting_count (r := r) hs
    have hlen : ((s.modRaid r fun raid => { raid with destroyStarted := true }).raid r).numBaseBdevs =
        (s.raid r).numBaseBdevs := by
      rw [raid_modRaid]
      rfl
    simp only [Bool.false_eq_true, if_false, hlen]
    generalize (List.range (s.raid r).numBaseBdevs).foldl (deleteTurn r)
      (s.modRaid r fun raid => { raid with destroyStarted := true }) = v at hbec
    have hn : (v.raid r).numBaseBdevsDiscovered = n := by
      rw [raid, hbec.mem]
      rfl
    rw [hn]
    by_cases hzero : n = 0
    · subst hzero
      rw [if_pos rfl]
      have h₂ := hbec.trans Becomes.cleanupAndFree
      have h₃ := h₂.trans_gone (Becomes.reply cb 0)
      rw [h₂.mem, hbec.mem] at h₃
      refine h₃.goes (.deleted hstart ?_) (Nat.lt_succ_self _)
      by_cases ho : (s.raid r).state = .online
      · exact .inr (honline ho).symm
      · exact .inl ho
    · rw [if_neg hzero]
      have ho : (s.raid r).state = .online := by
        by_contra ho
        exact hzero (hdown ho)
      have hv : (v.raid r).state = .online := by
        rw [raid, hbec.mem]
        exact ho
      have hstatus : (v.mem r).bdev.status = (s.mem r).bdev.status := by
        rw [hbec.mem]
        rfl
      cases hb : (s.mem r).bdev.status.busy with
      | false =>
        have h₂ := hbec.trans (Becomes.deconfigure cb hv (by rw [hstatus]; exact hb))
        rw [hbec.mem] at h₂
        exact h₂.stays (.deleteOffline hstart hzero ho hb) rfl
      | true =>
        have h₂ := hbec.trans (Becomes.deconfigure_busy cb hv (by rw [hstatus]; exact hb))
        rw [hbec.mem] at h₂
        exact h₂.stays (.deleteBusy hstart hzero ho hb) rfl

theorem moved_resize (b : Nat) (rc : Int) (h : s.raidBdevFindBaseInfoByBdev b = some (r, i)) :
    Moved threads r .resize s (s.raidBdevResizeBaseBdev b rc) := by
  have hsame : Move threads s.gShutdownStarted (s.mem r) .resize (s.mem r) [] := .resized (.refl _)
  unfold raidBdevResizeBaseBdev
  rw [h]
  simp only []
  split
  · split
    · exact (Becomes.modRaid _).stays (.resized (RaidBdev.sameLife_raid0Resize _ _)) rfl
    · exact (Becomes.assert _ _).stays hsame rfl
  · exact (Becomes.of_only (.refl s)).stays hsame rfl

/-- A callback body, run on the state without the callback. -/
theorem moved_callback {d : Deferred} {rc : Int} {g : Bool} (h : Becomes r (s.take r d) t o out g)
    (hm : Move threads s.gShutdownStarted (s.mem r) (.callback d rc) o out)
    (hf : o.freed = (s.mem r).freed + if g then 1 else 0) : Moved threads r (.callback d rc) s t := by
  have hlist : (s.take r d).gRaidBdevList = s.gRaidBdevList := by
    simp only [take, touch_eq]
    rfl
  refine ⟨(local_take d).trans h.frame, ⟨out, by rw [h.mem]; exact hm, ?_⟩, ?_, ?_⟩
  · rw [h.replies, take, touch_eq]
    rfl
  · rw [h.list, hlist, h.mem, hf]
    cases g with
    | true => simp only [if_true, if_pos (Nat.lt_succ_self _)]
    | false => simp only [Bool.false_eq_true, if_false, Nat.add_zero, if_neg (Nat.lt_irrefl _)]
  · intro hused
    rw [h.used, take, touch_eq] at hused
    have hused' : (s.usedAfterFree || decide ((s.mem r).freed ≠ 0)) = true := hused
    rcases Bool.or_eq_true _ _ |>.mp hused' with h | h
    · exact .inl h
    · exact .inr ⟨rfl, of_decide_eq_true h⟩

theorem mem_take (d : Deferred) : (s.take r d).mem r = (s.mem r).took d := by
  rw [take, mem_modObject, touch_eq]
  rfl

theorem shutdown_take (d : Deferred) : (s.take r d).gShutdownStarted = s.gShutdownStarted :=
  (local_take d).gShutdownStarted

/-- `_raid_bdev_destruct` after the bdev layer called `destruct` -/
theorem becomes_destruct : ∃ n, Becomes r s (s.raidBdevDestruct r) (((s.mem r).modBdev fun b => { b with
      baseBdevInfo := b.baseBdevInfo.map (destructSlot s.gShutdownStarted), numBaseBdevsDiscovered := n
      state := if s.gShutdownStarted then .offline else b.state }).deferred .moduleStopDone) [] false ∨
    Becomes r s (s.raidBdevDestruct r) (((s.mem r).modBdev fun b => { b with
      baseBdevInfo := b.baseBdevInfo.map (destructSlot s.gShutdownStarted), numBaseBdevsDiscovered := n
      state := if s.gShutdownStarted then .offline else b.state }).stopDone) [] false := by
  rw [destruct_eq]
  obtain ⟨honly, n, hmem⟩ := destructLoop s r
  have h₁ := Becomes.of_only honly
  simp only [] at h₁ hmem ⊢
  rw [hmem] at h₁
  have hshut := honly.gShutdownStarted
  generalize (List.range (s.raid r).numBaseBdevs).foldl (destructTurn r) s = v at h₁ hshut
  have h₂ : Becomes r s (if v.gShutdownStarted then v.modRaid r fun raid => { raid with state := .offline } else v)
      ((s.mem r).modBdev fun b => { b with
        baseBdevInfo := b.baseBdevInfo.map (destructSlot s.gShutdownStarted), numBaseBdevsDiscovered := n
        state := if s.gShutdownStarted then .offline else b.state }) [] false := by
    cases hs : s.gShutdownStarted with
    | false =>
      rw [hshut, hs]
      rw [hs] at h₁
      exact h₁
    | true =>
      rw [hshut, hs]
      have h := h₁.trans (Becomes.modRaid fun raid => { raid with state := .offline })
      rw [h₁.mem, hs] at h
      exact h
  generalize (if v.gShutdownStarted then v.modRaid r fun raid => { raid with state := .offline } else v) = w at h₂
  refine ⟨n, ?_⟩
  split
  · have h := h₂.trans (Becomes.defer .moduleStopDone)
    rw [h₂.mem] at h
    exact .inl h
  · have h := h₂.trans Becomes.moduleStopDone
    rw [h₂.mem] at h
    exact .inr h

theorem becomes_bdevDestroy :
    Becomes r s (s.bdevDestroy r) ((s.mem r).modBdev fun b => { b with status := b.status.destroy }) [] false := by
  have heq : s.bdevDestroy r = s.modRaid r fun b => { b with status := b.status.destroy } := by
    unfold bdevDestroy
    apply modRaid_congr
    cases s.raid r
    rename_i status
    cases status <;> rfl
  rw [heq]
  exact Becomes.modRaid _

theorem moved_destruct (rc : Int) (hr : (s.mem r).Ready threads .destruct) :
    Moved threads r (.callback .destruct rc) s ((s.take r .destruct).runCallback threads r .destruct rc) := by
  have h₁ := becomes_bdevDestroy (s := s.take r .destruct) (r := r)
  have hshut : ((s.take r .destruct).bdevDestroy r).gShutdownStarted = s.gShutdownStarted :=
    h₁.frame.gShutdownStarted.trans (shutdown_take .destruct)
  obtain ⟨n, h₂ | h₂⟩ := becomes_destruct (s := (s.take r .destruct).bdevDestroy r) (r := r)
  · have h := h₁.trans h₂
    rw [h₁.mem, mem_take, hshut] at h
    exact moved_callback h (.destructStops (n := n) hr) rfl
  · have h := h₁.trans h₂
    rw [h₁.mem, mem_take, hshut] at h
    exact moved_callback h (.destruct (n := n) hr) (RaidObject.stopDone_freed _)

theorem moved_ioDeviceUnregister (rc : Int) (hr : (s.mem r).Ready threads .ioDeviceUnregister) :
    Moved threads r (.callback .ioDeviceUnregister rc) s
      ((s.take r .ioDeviceUnregister).runCallback threads r .ioDeviceUnregister rc) := by
  have hmem := mem_take (s := s) (r := r) .ioDeviceUnregister
  have hd : ((s.take r .ioDeviceUnregister).raid r).numBaseBdevsDiscovered = (s.mem r).bdev.numBaseBdevsDiscovered := by
    rw [raid, hmem]
    rfl
  simp only [runCallback, raidBdevIoDeviceUnregisterCb]
  rw [hd]
  by_cases hzero : (s.mem r).bdev.numBaseBdevsDiscovered = 0
  · rw [if_pos hzero]
    have h₁ := Becomes.cleanup (s := s.take r .ioDeviceUnregister) (r := r)
    have h₂ := h₁.trans_gone Becomes.destructDone
    have h₃ := h₂.trans_gone (Becomes.modObject fun o => { o with freed := o.freed + 1 })
    rw [h₂.mem, h₁.mem, hmem, List.append_nil] at h₃
    exact moved_callback h₃ (.unregisteredLast hr hzero) rfl
  · rw [if_neg hzero]
    have h := Becomes.destructDone (s := s.take r .ioDeviceUnregister) (r := r)
    rw [hmem] at h
    exact moved_callback h (.unregistered hr hzero) rfl

/-- The end of a removal that failed: the slot's callback gets the status. -/
theorem becomes_cancel {d : Deferred} {rc : Int} :
    Becomes r (s.take r d) (((s.take r d).modInfo r i fun info => { info with removeScheduled := false }).reply
      (((s.take r d).modInfo r i fun info => { info with removeScheduled := false }).info r i).removeCb rc)
      (((s.mem r).took d).modBdev (·.modSlot i cancelSlot)) (answer ((s.mem r).bdev.slot i).removeCb rc) false := by
  have h₁ : Becomes r (s.take r d) ((s.take r d).modInfo r i fun info => { info with removeScheduled := false })
      (((s.take r d).mem r).modBdev (·.modSlot i cancelSlot)) [] false := Becomes.modInfo _
  generalize (s.take r d).modInfo r i (fun info => { info with removeScheduled := false }) = u at h₁
  rw [mem_take] at h₁
  have hcb : (u.info r i).removeCb = ((s.mem r).bdev.slot i).removeCb := by
    rw [info_eq, raid, h₁.mem]
    exact removeCb_cancel _ _
  have h := h₁.trans (Becomes.reply (u.info r i).removeCb rc)
  rw [h₁.mem, hcb] at h
  rw [hcb]
  exact h

theorem moved_quiesced (rc : Int) (hr : (s.mem r).Ready threads (.quiesced i)) :
    Moved threads r (.callback (.quiesced i) rc) s ((s.take r (.quiesced i)).runCallback threads r (.quiesced i) rc) := by
  have hmem := mem_take (s := s) (r := r) (.quiesced i)
  simp only [runCallback, raidBdevRemoveBaseBdevOnQuiesced]
  by_cases hrc : rc = 0
  · rw [if_neg (not_not_intro hrc)]
    have h := Becomes.defer (s := s.take r (.quiesced i)) (r := r) (.channelRemove i threads)
    rw [hmem] at h
    exact moved_callback h (.quiesced hr hrc) rfl
  · rw [if_pos hrc]
    exact moved_callback becomes_cancel (.quiesceFailed hr hrc) rfl

theorem moved_unquiesced (rc : Int) (hr : (s.mem r).Ready threads (.unquiesced i)) :
    Moved threads r (.callback (.unquiesced i) rc) s
      ((s.take r (.unquiesced i)).runCallback threads r (.unquiesced i) rc) := by
  simp only [runCallback, raidBdevRemoveBaseBdevOnUnquiesced]
  by_cases hrc : rc = 0
  · simp only [hrc, ne_eq, not_true_eq_false, if_false]
    have h₁ : Becomes r (s.take r (.unquiesced i))
        ((s.take r (.unquiesced i)).modInfo r i fun info => { info with removeScheduled := false })
        (((s.take r (.unquiesced i)).mem r).modBdev (·.modSlot i cancelSlot)) [] false := Becomes.modInfo _
    generalize (s.take r (.unquiesced i)).modInfo r i (fun info => { info with removeScheduled := false }) = u at h₁
    have h₂ := h₁.trans (Becomes.free (i := i))
    rw [h₁.mem, mem_take] at h₂
    generalize u.raidBdevFreeBaseBdevResource r i = v at h₂
    have hcb : (v.info r i).removeCb = ((s.mem r).bdev.slot i).removeCb := by
      rw [info_eq, raid, h₂.mem]
      exact (removeCb_free _ _).trans (removeCb_cancel _ _)
    have h := h₂.trans (Becomes.reply (v.info r i).removeCb 0)
    rw [h₂.mem, hcb] at h
    rw [hcb]
    exact moved_callback h (.unquiesced hr rfl) rfl
  · rw [if_pos hrc]
    exact moved_callback becomes_cancel (.unquiesceFailed hr hrc) rfl

theorem moved_runCallback {d : Deferred} (rc : Int) (hr : (s.mem r).Ready threads d) :
    Moved threads r (.callback d rc) s ((s.take r d).runCallback threads r d rc) := by
  cases d with
  | destruct => exact moved_destruct rc hr
  | moduleStopDone =>
    have h := Becomes.moduleStopDone (s := s.take r .moduleStopDone) (r := r)
    rw [mem_take] at h
    exact moved_callback h (.stopDone hr) (RaidObject.stopDone_freed _)
  | ioDeviceUnregister => exact moved_ioDeviceUnregister rc hr
  | quiesced i => exact moved_quiesced rc hr
  | channelRemove i ts =>
    cases ts with
    | nil =>
      simp only [runCallback, raidBdevChannelsRemoveBaseBdevDone]
      by_cases hrc : rc = 0
      · rw [if_pos hrc]
        have h := Becomes.defer (s := s.take r (.channelRemove i [])) (r := r) (.unquiesced i)
        rw [mem_take] at h
        exact moved_callback h (.allVisited hr hrc) rfl
      · rw [if_neg hrc]
        have h := Becomes.of_only (.refl (s.take r (.channelRemove i []))) (r := r)
        rw [mem_take] at h
        exact moved_callback h (.unquiesceRefused hr hrc) rfl
    | cons t rest =>
      have h₁ : Becomes r (s.take r (.channelRemove i (t :: rest)))
          ((s.take r (.channelRemove i (t :: rest))).raidBdevChannelRemoveBaseBdev r i t)
          (((s.take r (.channelRemove i (t :: rest))).mem r).visited i t) [] false := Becomes.modObject _
      have h := h₁.trans (Becomes.defer (.channelRemove i rest))
      rw [h₁.mem, mem_take] at h
      exact moved_callback h (.visited hr) rfl
  | unquiesced i => exact moved_unquiesced rc hr

theorem moved_channelCreate {thread : Nat} (ok : Bool) (ht : thread ∈ threads) (hc : (s.mem r).channels thread = none)
    (ho : (s.mem r).Open = true) :
    Moved threads r (.channelCreate thread ok) s ((s.touch r).raidBdevCreateCb r thread ok) := by
  have hmem : (s.touch r).mem r = s.mem r := by
    rw [touch_eq]
  have h₁ := Becomes.assert (s := s.touch r) (r := r) (((s.touch r).raid r).state = .online) .channelState
  have h : ∃ o, Becomes r (s.touch r) ((s.touch r).raidBdevCreateCb r thread ok) o [] false ∧
      Move threads s.gShutdownStarted (s.mem r) (.channelCreate thread ok) o [] ∧ o.freed = (s.mem r).freed := by
    unfold raidBdevCreateCb
    cases ok with
    | false =>
      rw [hmem] at h₁
      exact ⟨s.mem r, h₁, .channelFailed, rfl⟩
    | true =>
      have h₂ := h₁.trans (Becomes.modObject fun o =>
        { o with channels := Function.update o.channels thread (some (o.bdev.baseBdevInfo.map (·.desc))) })
      rw [h₁.mem, hmem] at h₂
      exact ⟨_, h₂, .channelCreated ht ho hc, rfl⟩
  obtain ⟨o, hb, hm, hf⟩ := h
  refine ⟨local_touch.trans hb.frame, ⟨[], by rw [hb.mem]; exact hm, ?_⟩, ?_, ?_⟩
  · rw [hb.replies, touch_eq]
  · rw [hb.list, hb.mem, hf, if_neg (Nat.lt_irrefl _), touch_eq]
    rfl
  · intro hused
    rw [hb.used, touch_eq] at hused
    have hused' : (s.usedAfterFree || decide ((s.mem r).freed ≠ 0)) = true := hused
    rcases Bool.or_eq_true _ _ |>.mp hused' with h | h
    · exact .inl h
    · exact .inr ⟨rfl, of_decide_eq_true h⟩

end

/-- The request of an event whose handler answers it where it does nothing else. -/
def Event.request : Event → Option Nat
  | .rpcCreate request _ _ => some request
  | .rpcDelete request _ => some request
  | .rpcRemove request _ _ _ => some request
  | _ => none

/-- What a step does to the request in the loop of `rpc_bdev_raid_create`, and the answer it gets. -/
inductive Turned : Option CreateRpc → Option CreateRpc → List (Nat × Int) → Prop where
  | idle (p : Option CreateRpc) : Turned p p []
  | turn {p p' : CreateRpc} (hraid : p'.raid = p.raid) (hrequest : p'.request = p.request) : Turned (some p) (some p') []
  | done (p : CreateRpc) (rc : Int) : Turned (some p) none [(p.request, rc)]

/-- What all steps but the creation of a raid bdev leave of the module. -/
structure Kept (s t : State) : Prop where
  next : t.next = s.next
  shutdown : s.gShutdownStarted = true → t.gShutdownStarted = true
  rpc : ∀ p', t.rpc = some p' → ∃ p, s.rpc = some p ∧ p'.raid = p.raid

/-- What a step may do to the raid bdevs. -/
inductive Stepped (threads : List Nat) (s : State) (e : Event) (t : State) : Prop where
  /-- an act on one raid bdev -/
  | act {r : Nat} {a : Act} {out extra : List (Nat × Int)} (htarget : s.target e = some (r, a)) (hkept : Kept s t)
      (hmem : ∀ q, q ≠ r → t.mem q = s.mem q)
      (hmove : Move threads s.gShutdownStarted (s.mem r) a (t.mem r) out)
      (hlist : t.gRaidBdevList = if (s.mem r).freed < (t.mem r).freed then s.gRaidBdevList.erase r else s.gRaidBdevList)
      (hturned : Turned s.rpc t.rpc extra) (hreplies : t.replies = s.replies ++ out ++ extra)
      (hused : t.usedAfterFree = true → s.usedAfterFree = true ∨ (a.touches = true ∧ (s.mem r).freed ≠ 0))
  /-- nothing -/
  | idle {rc : Int} (htarget : s.target e = none) (hkept : Kept s t) (hmem : t.mem = s.mem)
      (hlist : t.gRaidBdevList = s.gRaidBdevList) (hrpc : t.rpc = s.rpc)
      (hreplies : t.replies = s.replies ++ answer e.request rc) (hused : t.usedAfterFree = s.usedAfterFree)
  /-- `raid_bdev_examine`: any number of arrays with a slot that waits get a base bdev -/
  | examined (htarget : s.target e = none) (hrequest : e.request = none) (hkept : Kept s t)
      (hmem : ∀ r, t.mem r = s.mem r ∨ (r ∈ s.gRaidBdevList ∧ (∃ i, Waiting s r i) ∧ (s.mem r).Built (t.mem r) ∧
        (s.mem r).Stops (t.mem r)))
      (hlist : t.gRaidBdevList = s.gRaidBdevList) (hrpc : t.rpc = s.rpc) (hreplies : t.replies = s.replies)
      (hused : t.usedAfterFree = s.usedAfterFree)
  /-- `raid_bdev_create` -/
  | created {request : Nat} {req : CreateRequest} {alloc : Bool} {b : RaidBdev} (he : e = .rpcCreate request req alloc)
      (hmake : RaidBdev.make req.name req.stripSizeKb req.baseBdevs.length req.level req.superblockEnabled req.uuid = .ok b)
      (hname : s.raidBdevFindByName req.name = none)
      (heq : t = { s.created b with rpc := some { request, raid := s.next, baseBdevs := req.baseBdevs } })

section

variable {threads : List Nat} {s t u : State} {r : Nat} {a : Act} {e : Event}

theorem Kept.of_local (h : Local r s t) : Kept s t := by
  refine ⟨h.next, ?_, ?_⟩
  · rw [h.gShutdownStarted]
    exact id
  · intro p' hp
    rw [h.rpc] at hp
    exact ⟨p', hp, rfl⟩

theorem Moved.stepped (h : Moved threads r a s t) (htarget : s.target e = some (r, a)) : Stepped threads s e t := by
  obtain ⟨out, hmove, hreplies⟩ := h.move
  have hturned : Turned s.rpc t.rpc [] := by
    rw [h.frame.rpc]
    exact .idle _
  refine .act htarget (.of_local h.frame) h.frame.mem hmove h.list hturned ?_ h.used
  rw [hreplies, List.append_nil]

/-- The handler of a request answers it and does nothing. -/
theorem stepped_reply {request : Nat} (rc : Int) (htarget : s.target e = none) (hreq : e.request = some request) :
    Stepped threads s e (s.reply (some request) rc) := by
  have hreplies : (s.reply (some request) rc).replies = s.replies ++ answer e.request rc := by
    rw [hreq]
    rfl
  exact .idle htarget (.of_local (r := 0) (local_reply _ _)) rfl rfl rfl hreplies rfl

theorem configureBase_stops (hs : Acct s) {i : Nat} (h : Waiting s r i) (a : Answer) :
    (s.mem r).Stops ((s.raidBdevConfigureBaseBdev r i a).1.mem r) := by
  have hcases := configureBase_cases s r i a
  generalize s.raidBdevConfigureBaseBdev r i a = out at hcases
  have hcallbacks (l : List Assertion) (d : Nat) : (((s.filled r i d).failing l).mem r).callbacks = (s.mem r).callbacks := by
    have hm := mem_filled (s := s) (r := r) (i := i) d
    show ((s.filled r i d).mem r).callbacks = _
    rw [hm]
  cases hcases with
  | missing l rc hl hrc => exact .inl rfl
  | mislaid l rc d hl hrc hd => exact .inl (hcallbacks l d)
  | partly l d hl hd hn => exact .inl (hcallbacks l d)
  | complete l d hl hd hn =>
    have hall : ∀ info ∈ (((s.filled r i d).failing l).raid r).baseBdevInfo, info.desc.isSome = true := acct_full hs h d hd hn
    have hsame := hcallbacks l d
    have hstate : (((s.filled r i d).failing l).raid r).state = .configuring := by
      show ((s.filled r i d).raid r).state = .configuring
      rw [raid_filled]
      exact h.state
    have hcount : (((s.filled r i d).failing l).raid r).numBaseBdevsDiscovered =
        (((s.filled r i d).failing l).raid r).numBaseBdevs := hn.trans (numBaseBdevs_filled d).symm
    generalize (s.filled r i d).failing l = u at hall hsame hstate hcount
    have hc := configure_cases a hstate hcount hall
    generalize u.raidBdevConfigure r a = out at hc
    cases hc with
    | failed b rc hb hrc =>
      refine .inl (Eq.trans ?_ hsame)
      simp only [modRaid, mem_modObject]
    | refused b rc hb hrc =>
      have hbdev : (((u.modRaid r fun _ => b).moduleStop r).mem r).bdev = b := by
        unfold moduleStop
        split
        · simp only [modRaid, defer, mem_modObject]
        · simp only [modRaid, mem_modObject]
      refine .inr ?_
      dsimp only
      rw [hbdev]
      refine ⟨hb.state.trans hstate, fun info hinfo => ?_⟩
      obtain ⟨j, hj, rfl⟩ := RaidBdev.exists_slot hinfo
      rw [hb.desc j]
      exact hall _ (RaidBdev.slot_mem (hb.numBaseBdevs ▸ hj))
    | online b hb =>
      refine .inl (Eq.trans ?_ hsame)
      simp only [mem_modObject]

theorem addBase_stops (hs : Acct s) {p : CreateRpc} (hp : Serving s p) (herr : p.error = none) (name : String) (a : Answer) :
    (s.mem p.raid).Stops ((s.raidBdevAddBaseDevice p.raid name p.slot a).1.mem p.raid) := by
  obtain ⟨hne, hlen, hnames⟩ := hp.slots herr
  have hlt : p.slot < (s.raid p.raid).numBaseBdevs := by
    have h := List.length_pos_iff.mpr hne
    omega
  unfold raidBdevAddBaseDevice
  split
  · exact .inl rfl
  · split
    · exact .inl rfl
    · split
      · exact .inl rfl
      · have hacct := acct_named (i := p.slot) hs name hp.state
        have hsame : ((s.modInfo p.raid p.slot fun info => { info with name := some name }).mem p.raid).callbacks =
            (s.mem p.raid).callbacks := by
          rw [modInfo_eq, modRaid, mem_modObject]
        have hr : (s.modInfo p.raid p.slot fun info => { info with name := some name }).raid p.raid =
            (s.raid p.raid).modSlot p.slot fun info => { info with name := some name } := by
          rw [modInfo_eq, raid_modRaid]
        generalize (s.modInfo p.raid p.slot fun info => { info with name := some name }) = u at hacct hsame hr
        have hwait : Waiting u p.raid p.slot := by
          refine ⟨?_, ?_, ?_, ?_⟩
          · rw [hr, RaidBdev.numBaseBdevs_modSlot]
            exact hlt
          · rw [info_eq, hr, RaidBdev.slot_modSlot_self hlt]
            exact Option.some_ne_none name
          · rw [info_eq, hr, RaidBdev.slot_modSlot_self hlt]
            by_contra hd
            exact (hs.raids p.raid).named p.slot hd (hnames p.slot (Nat.le_refl _))
          · rw [hr]
            exact hp.state
        have hstops := configureBase_stops hacct hwait a
        unfold RaidObject.Stops at hstops ⊢
        rwa [hsame] at hstops

/-- What the turns of `raid_bdev_examine` so far leave. -/
structure Examined (s u : State) : Prop where
  acct : Acct u
  kept : Kept s u
  mem : ∀ r, u.mem r = s.mem r ∨ (r ∈ s.gRaidBdevList ∧ (∃ i, Waiting s r i) ∧ (s.mem r).Built (u.mem r) ∧
    (s.mem r).Stops (u.mem r))
  list : u.gRaidBdevList = s.gRaidBdevList
  rpc : u.rpc = s.rpc
  replies : u.replies = s.replies
  used : u.usedAfterFree = s.usedAfterFree

theorem Kept.trans (h : Kept s t) (h' : Kept t u) : Kept s u := by
  refine ⟨h'.next.trans h.next, fun hs => h'.shutdown (h.shutdown hs), ?_⟩
  intro p'' hp''
  obtain ⟨p', hp', heq'⟩ := h'.rpc p'' hp''
  obtain ⟨p, hp, heq⟩ := h.rpc p' hp'
  exact ⟨p, hp, heq'.trans heq⟩

/-- One turn of `raid_bdev_examine` -/
theorem Examined.turn (h : Examined s u) (name : String) (answers : Nat → Answer) {r : Nat} (hr : r ∈ s.gRaidBdevList) :
    Examined s (examineRaid name answers u r) := by
  have hacct := acct_examineRaid (r := r) h.acct name answers
  unfold examineRaid at hacct ⊢
  cases hslot : u.awaitingSlot r name with
  | none => exact h
  | some i =>
    rw [hslot] at hacct
    have hwait := waiting_of_awaitingSlot h.acct hslot
    have hfill := configureBase_effect h.acct hwait (answers r)
    have hlocal := hfill.only.toLocal
    refine ⟨hacct, h.kept.trans (.of_local hlocal), ?_, hfill.only.gRaidBdevList.trans h.list, hlocal.rpc.trans h.rpc,
      hfill.only.replies.trans h.replies, hfill.only.usedAfterFree.trans h.used⟩
    intro q
    by_cases hq : q = r
    · subst hq
      right
      have hconf : (u.mem q).bdev.state = .configuring := hwait.state
      have hstop := configureBase_stops h.acct hwait (answers q)
      rcases h.mem q with heq | ⟨-, hwaits, hbuilt, hstops⟩
      · have hraid : u.raid q = s.raid q := congrArg RaidObject.bdev heq
        have hwait' : Waiting s q i := by
          refine ⟨hraid ▸ hwait.lt, ?_, ?_, hraid ▸ hwait.state⟩
          · rw [info_eq, ← hraid]
            exact hwait.name
          · rw [info_eq, ← hraid]
            exact hwait.desc
        have hb := hfill.built
        rw [heq] at hb hstop
        exact ⟨hr, ⟨i, hwait'⟩, hb, hstop⟩
      · refine ⟨hr, hwaits, hbuilt.trans hfill.built hconf, ?_⟩
        rcases hstops with hsame | ⟨-, hall⟩
        · unfold RaidObject.Stops at hstop ⊢
          rwa [hsame] at hstop
        · -- a slot still waits
          have hfull := hall _ (RaidBdev.slot_mem hwait.lt)
          have hnone : ((u.mem q).bdev.slot i).desc = none := hwait.desc
          rw [hnone] at hfull
          cases hfull
    · have hsame : ((u.raidBdevConfigureBaseBdev r i (answers r)).1).mem q = u.mem q := hlocal.mem q hq
      dsimp only
      rw [hsame]
      exact h.mem q

theorem examined_examine (hs : Acct s) (b : Nat) (answers : Nat → Answer) :
    Examined s (s.raidBdevExamine b answers) := by
  unfold raidBdevExamine
  have hstart : Examined s s := ⟨hs, .of_local (.refl (r := 0) s), fun _ => .inl rfl, rfl, rfl, rfl, rfl⟩
  exact List.foldlRecOn _ _ hstart fun u hu r hr => hu.turn _ answers hr

theorem moved_fill (hs : Acct s) {p : CreateRpc} (hp : Serving s p) (herr : p.error = none) (name : String)
    (a : Answer) : Moved threads p.raid .fill s (s.raidBdevAddBaseDevice p.raid name p.slot a).1 := by
  have hadd := addBase_effect hs hp herr name a
  exact (Becomes.of_only hadd.only).stays (.filled hadd.built (addBase_stops hs hp herr name a) hp.state) hadd.built.freed

/-- A turn of `rpc_bdev_raid_create`: an act on its raid bdev, and perhaps the answer. -/
theorem Moved.turn {p : CreateRpc} (h : Moved threads p.raid a s t) (hrpc : s.rpc = some p)
    (htarget : s.target e = some (p.raid, a)) {q : Option CreateRpc} {l : List (Nat × Int)} (hq : Turned (some p) q l)
    (hu : u = { t with rpc := q, replies := t.replies ++ l }) : Stepped threads s e u := by
  subst hu
  obtain ⟨out, hmove, hreplies⟩ := h.move
  have hkept : Kept s { t with rpc := q, replies := t.replies ++ l } := by
    refine ⟨h.frame.next, ?_, fun p' hp' => ⟨p, hrpc, ?_⟩⟩
    · show s.gShutdownStarted = true → t.gShutdownStarted = true
      rw [h.frame.gShutdownStarted]
      exact id
    · have hp' : q = some p' := hp'
      rw [hp'] at hq
      cases hq with
      | idle => rfl
      | turn hraid hrequest => exact hraid
  have hreplies' : t.replies ++ l = s.replies ++ out ++ l := by rw [hreplies]
  exact .act htarget hkept h.frame.mem hmove h.list (hrpc ▸ hq) hreplies' h.used

theorem step_rpcCreateAdd (hs : Accounts s) {p : CreateRpc} (hrpc : s.rpc = some p) (herr : p.error = none)
    {name : String} {rest : List String} (a : Answer) :
    Stepped threads s (.rpcCreateAdd a) (s.rpcCreateAdd p name rest a) := by
  have hmove : Moved threads p.raid .fill s _ := moved_fill hs.acct (hs.serving p hrpc) herr name a
  have htarget : s.target (.rpcCreateAdd a) = some (p.raid, .fill) := by
    rw [target, hrpc]
    rfl
  unfold rpcCreateAdd
  generalize s.raidBdevAddBaseDevice p.raid name p.slot a = out at hmove
  obtain ⟨u, rc⟩ := out
  simp only [] at hmove ⊢
  split
  · have hturned : Turned (some p) (some { p with error := some rc }) [] := .turn rfl rfl
    exact hmove.turn hrpc htarget hturned (by rw [List.append_nil])
  · split
    · exact hmove.turn hrpc htarget (.done p 0) rfl
    · have hturned : Turned (some p) (some { p with baseBdevs := rest, slot := p.slot + 1 }) [] := .turn rfl rfl
      exact hmove.turn hrpc htarget hturned (by rw [List.append_nil])

theorem step_rpcCreateFail (hs : Accounts s) {p : CreateRpc} (hrpc : s.rpc = some p) (rc : Int) :
    Stepped threads s .rpcCreateFail (s.rpcCreateFail p rc) := by
  have hmove : Moved threads p.raid (.delete none) s _ := moved_delete hs.acct none
  have htarget : s.target .rpcCreateFail = some (p.raid, .delete none) := by
    rw [target, hrpc]
    rfl
  exact hmove.turn hrpc htarget (.done p rc) rfl

theorem step_rpcRemove (request : Nat) (name : String) (openRc quiesceRc : Int) :
    Stepped threads s (.rpcRemove request name openRc quiesceRc)
      (s.rpcBdevRaidRemoveBaseBdev request name openRc quiesceRc) := by
  unfold rpcBdevRaidRemoveBaseBdev
  cases hname : s.names name with
  | none =>
    refine stepped_reply _ ?_ rfl
    simp only [target, hname, Option.bind_none, Option.map_none, ite_self]
  | some b =>
    by_cases hopen : openRc = 0
    · simp only [hopen, ne_eq, not_true_eq_false, if_false]
      unfold raidBdevRemoveBaseBdev
      cases hfind : s.raidBdevFindBaseInfoByBdev b with
      | none =>
        simp only [ENODEV, Int.reduceNeg, neg_eq_zero, OfNat.ofNat_ne_zero, not_false_eq_true, if_true]
        refine stepped_reply _ ?_ rfl
        simp only [target, hname, Option.bind_some, hfind, Option.map_none, if_true]
      | some slot =>
        obtain ⟨r, i⟩ := slot
        simp only [not_true_eq_false, if_false]
        refine (moved_removeSlot (some request) quiesceRc).stepped ?_
        simp only [target, hname, Option.bind_some, hfind, Option.map_some, if_true]
    · simp only [if_pos hopen]
      refine stepped_reply _ ?_ rfl
      simp only [target, if_neg hopen]

theorem stepIdle_moves (hs : Acct s) (h : stepIdle threads s e = some t) :
    Stepped threads s e t := by
  have hidle : ∀ u : State, e.request = none → s.target e = none → Kept s u → u.mem = s.mem →
      u.gRaidBdevList = s.gRaidBdevList → u.rpc = s.rpc → u.replies = s.replies → u.usedAfterFree = s.usedAfterFree →
      Stepped threads s e u := by
    intro u hanswer htarget hkept hmem hlist hrpc hreplies hused
    have hreplies' : u.replies = s.replies ++ answer e.request 0 := by rw [hanswer, hreplies, answer, List.append_nil]
    exact .idle htarget hkept hmem hlist hrpc hreplies' hused
  have hkept : ∀ u : State, u.next = s.next → (s.gShutdownStarted = true → u.gShutdownStarted = true) →
      u.rpc = s.rpc → Kept s u := by
    intro u hn hshut hu
    refine ⟨hn, hshut, fun p hp => ⟨p, ?_, rfl⟩⟩
    rw [← hu]
    exact hp
  cases e with
  | rpcCreate request req alloc =>
    simp only [stepIdle] at h
    split at h
    · obtain rfl := Option.some.inj h
      unfold rpcCreateStart
      rcases create_cases req alloc (s := s) with ⟨rc, _, heq⟩ | ⟨b, hmake, hname, heq⟩
      · rw [heq]
        exact stepped_reply rc rfl rfl
      · rw [heq]
        exact .created rfl hmake hname rfl
    · cases h
  | rpcCreateAdd a => cases h
  | rpcCreateFail => cases h
  | rpcDelete request name =>
    obtain rfl := Option.some.inj h
    unfold rpcBdevRaidDelete
    cases hfind : s.raidBdevFindByName name with
    | none =>
      refine stepped_reply _ ?_ rfl
      rw [target, hfind]
      rfl
    | some r =>
      refine (moved_delete hs _).stepped ?_
      rw [target, hfind]
      rfl
  | rpcRemove request name openRc quiesceRc =>
    obtain rfl := Option.some.inj h
    exact step_rpcRemove request name openRc quiesceRc
  | remove b cb quiesceRc =>
    obtain rfl := Option.some.inj h
    unfold raidBdevRemoveBaseBdev
    cases hfind : s.raidBdevFindBaseInfoByBdev b with
    | none =>
      refine hidle s rfl ?_ (hkept s rfl id rfl) rfl rfl rfl rfl rfl
      rw [target, hfind]
      rfl
    | some slot =>
      refine (moved_removeSlot cb quiesceRc).stepped ?_
      rw [target, hfind]
      rfl
  | resize b notifyRc =>
    obtain rfl := Option.some.inj h
    cases hfind : s.raidBdevFindBaseInfoByBdev b with
    | none =>
      have heq : s.raidBdevResizeBaseBdev b notifyRc = s := by
        rw [raidBdevResizeBaseBdev, hfind]
      rw [heq]
      refine hidle s rfl ?_ (hkept s rfl id rfl) rfl rfl rfl rfl rfl
      rw [target, hfind]
      rfl
    | some slot =>
      refine (moved_resize b notifyRc hfind).stepped ?_
      rw [target, hfind]
      rfl
  | examine b answers =>
    obtain rfl := Option.some.inj h
    have hx := examined_examine hs b answers
    exact .examined rfl rfl hx.kept hx.mem hx.list hx.rpc hx.replies hx.used
  | callback r d rc =>
    simp only [stepIdle] at h
    split at h
    · next hr =>
      obtain rfl := Option.some.inj h
      exact (moved_runCallback rc hr).stepped rfl
    · cases h
  | channelCreate r thread ok =>
    simp only [stepIdle] at h
    split at h
    · next hc =>
      obtain rfl := Option.some.inj h
      obtain ⟨ht, hch, hopen⟩ := hc
      exact (moved_channelCreate ok ht hch hopen).stepped rfl
    · cases h
  | channelDestroy r thread =>
    simp only [stepIdle] at h
    split at h
    · obtain rfl := Option.some.inj h
      have hb : Becomes r s (s.raidBdevDestroyCb r thread)
          { s.mem r with channels := Function.update (s.mem r).channels thread none } [] false := Becomes.modObject _
      exact (hb.stays .channelDestroyed rfl).stepped rfl
    · cases h
  | finiStart =>
    obtain rfl := Option.some.inj h
    exact hidle _ rfl rfl (hkept _ rfl (fun _ => rfl) rfl) rfl rfl rfl rfl rfl
  | bdevUnregister r cb =>
    simp only [stepIdle] at h
    split at h
    · next hc =>
      obtain rfl := Option.some.inj h
      obtain ⟨hshut, hready⟩ := hc
      have hready' : (s.mem r).bdev.status = .ready := hready
      have hb := Becomes.bdevUnregister (s := s) (r := r) cb (by rw [hready']; rfl)
      exact (hb.stays (.unregister hshut hready') rfl).stepped rfl
    · cases h
  | bdevs names bdevs =>
    obtain rfl := Option.some.inj h
    exact hidle _ rfl rfl (hkept _ rfl id rfl) rfl rfl rfl rfl rfl
  | claimOther b =>
    simp only [stepIdle] at h
    split at h
    · obtain rfl := Option.some.inj h
      exact hidle _ rfl rfl (hkept _ rfl id rfl) rfl rfl rfl rfl rfl
    · cases h
  | releaseOther b =>
    simp only [stepIdle] at h
    split at h
    · obtain rfl := Option.some.inj h
      exact hidle _ rfl rfl (hkept _ rfl id rfl) rfl rfl rfl rfl rfl
    · cases h

/-- Every step of the machine is one of the moves. -/
theorem step_moves (hs : Accounts s) (h : step threads s e = some t) : Stepped threads s e t := by
  unfold step at h
  split at h
  · exact stepIdle_moves hs.acct h
  · next p hrpc =>
    split at h
    · obtain rfl := Option.some.inj h
      exact step_rpcCreateFail hs hrpc _
    · next name rest a herr hbase =>
      obtain rfl := Option.some.inj h
      exact step_rpcCreateAdd hs hrpc herr a
    · cases h

end

end FlexBSO.Raid

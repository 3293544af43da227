import FlexBSO.Raid.Steady
import Mathlib.Algebra.BigOperators.Group.Finset.Basic

/- Who gets an answer. A request is answered at once, or it waits: the request in the
   loop of `rpc_bdev_raid_create`, a deletion for the raid bdev to be unregistered, a
   removal for the callbacks of its slot. `owed` counts how often a request waits, and
   `lost` names the request a step drops: of a base bdev that is being removed already,
   of a raid bdev that is not online, or where SPDK refuses to quiesce or to unquiesce.
   Nothing else is lost and nothing is answered twice (`requests_accounted`). -/
namespace FlexBSO.Raid

open State

/-! ## Counting -/

/-- One if the callback is request `q`. -/
def due (q : Nat) (cb : Option Nat) : Nat := if cb = some q then 1 else 0

/-- How many of the answers are to request `q`. -/
def answersTo (q : Nat) (l : List (Nat × Int)) : Nat := l.countP fun x => x.1 == q

@[simp] theorem due_none (q : Nat) : due q none = 0 := rfl

@[simp] theorem answersTo_nil (q : Nat) : answersTo q [] = 0 := rfl

@[simp] theorem answersTo_append (q : Nat) (l l' : List (Nat × Int)) :
    answersTo q (l ++ l') = answersTo q l + answersTo q l' := List.countP_append

theorem answersTo_single (q request : Nat) (rc : Int) : answersTo q [(request, rc)] = due q (some request) := by
  unfold answersTo due
  by_cases h : request = q
  · simp [h]
  · simp [h]

@[simp] theorem answersTo_answer (q : Nat) (cb : Option Nat) (rc : Int) : answersTo q (answer cb rc) = due q cb := by
  cases cb with
  | none => rfl
  | some request => exact answersTo_single q request rc

/-! ## One raid bdev -/

namespace RaidObject

/-- Callback `d` answers request `q`: it belongs to a removal the request asked for. -/
def answers (b : RaidBdev) (q : Nat) (d : Deferred) : Bool := d.slot.any fun i => (b.slot i).removeCb == some q

/-- How often request `q` waits for a callback of the raid bdev. -/
def owed (o : RaidObject) (q : Nat) : Nat := due q o.bdev.status.waiter + o.callbacks.countP (answers o.bdev q)

end RaidObject

/-- The request an act brings. -/
def Act.asks : Act → Option Nat
  | .remove _ cb _ => cb
  | .delete cb => cb
  | .unregister cb => cb
  | _ => none

/-- The request an act drops without an answer. -/
def Act.lost (o : RaidObject) : Act → Option Nat
  | .remove i cb rc =>
    if (o.bdev.slot i).removeScheduled = true ∨ o.bdev.state ≠ .online ∨
        (o.bdev.numBaseBdevsDiscovered ≠ o.bdev.minBaseBdevsOperational ∧ rc ≠ 0) then cb
    else none
  | .callback (.channelRemove i []) rc => if rc = 0 then none else (o.bdev.slot i).removeCb
  | _ => none

section

variable {o o' : RaidObject} {b b' : RaidBdev} {q i : Nat} {l : List Deferred} {d : Deferred}

/-- A slot's content read off a map over the slots. -/
theorem getD_of_map {α : Type} {l l' : List RaidBaseBdevInfo} {f : RaidBaseBdevInfo → α} (h : l'.map f = l.map f)
    (i : Nat) : f (l'.getD i {}) = f (l.getD i {}) := by
  have hi := congrArg (fun l => l.getD i (f {})) h
  simp only [List.getD_map] at hi
  exact hi

/-- A loop over the slots that keeps a field. -/
theorem getD_map_of {α : Type} {l : List RaidBaseBdevInfo} {f : RaidBaseBdevInfo → α}
    {g : RaidBaseBdevInfo → RaidBaseBdevInfo} (h : ∀ info, f (g info) = f info) (i : Nat) :
    f ((l.map g).getD i {}) = f (l.getD i {}) := by
  apply getD_of_map
  rw [List.map_map]
  exact List.map_congr_left fun info _ => h info

theorem removeCb_deleteSlot (state : RaidBdevState) (info : RaidBaseBdevInfo) :
    (deleteSlot state info).removeCb = info.removeCb := by
  unfold deleteSlot
  dsimp only
  split <;> rfl

theorem removeCb_destructSlot (shutdown : Bool) (info : RaidBaseBdevInfo) :
    (destructSlot shutdown info).removeCb = info.removeCb := by
  unfold destructSlot
  split <;> rfl

theorem waiter_of_idle {status : BdevStatus} (h : status.busy = false) : status.waiter = none := by
  cases status with
  | unregistered | ready => rfl
  | unregistering | destructing => cases h

@[simp] theorem waiter_destroy (status : BdevStatus) : status.destroy.waiter = status.waiter := by
  cases status <;> rfl

namespace RaidObject

theorem answers_of_slot (h : d.slot = none) : answers b q d = false := by
  unfold answers
  rw [h]
  rfl

theorem answers_slot (h : d.slot = some i) : answers b q d = ((b.slot i).removeCb == some q) := by
  unfold answers
  rw [h]
  rfl

/-- Callbacks of removals whose requests stay. -/
theorem countP_answers (h : ∀ d ∈ l, ∀ i, d.slot = some i → (b'.slot i).removeCb = (b.slot i).removeCb) :
    l.countP (answers b' q) = l.countP (answers b q) := by
  apply List.countP_congr
  intro d hd
  cases hs : d.slot with
  | none => rw [answers_of_slot hs, answers_of_slot hs]
  | some i => rw [answers_slot hs, answers_slot hs, h d hd i hs]

/-- Callbacks that belong to no removal. -/
theorem countP_answers_none (h : ∀ d ∈ l, d.slot = none) : l.countP (answers b q) = 0 := by
  rw [List.countP_eq_zero]
  intro d hd
  rw [answers_of_slot (h d hd)]
  exact Bool.false_ne_true

theorem countP_answers_single (h : d.slot = some i) : [d].countP (answers b q) = due q (b.slot i).removeCb := by
  rw [List.countP_singleton, answers_slot h, due]
  by_cases hq : (b.slot i).removeCb = some q
  · simp [hq]
  · simp [hq]

end RaidObject

variable {threads : List Nat} {shutdown : Bool} {a : Act} {out : List (Nat × Int)}

/-! ### What an act answers -/

namespace RaidObject

/-- The requests that wait stay the same. -/
theorem owed_append (hw : o'.bdev.status.waiter = o.bdev.status.waiter) (hc : o'.callbacks = o.callbacks ++ l)
    (hl : ∀ d ∈ l, d.slot = none)
    (hcb : ∀ d ∈ o.callbacks, ∀ i, d.slot = some i → (o'.bdev.slot i).removeCb = (o.bdev.slot i).removeCb) :
    o'.owed q = o.owed q := by
  unfold owed
  rw [hw, hc, List.countP_append, countP_answers hcb, countP_answers_none hl]
  rfl

/-- A callback is delivered, and perhaps gives way to others. -/
theorem owed_took (hd : d ∈ o.callbacks) (hw : o'.bdev.status.waiter = o.bdev.status.waiter)
    (hc : o'.callbacks = o.callbacks.erase d ++ l)
    (hcb : ∀ i, (o'.bdev.slot i).removeCb = (o.bdev.slot i).removeCb) :
    o'.owed q + [d].countP (answers o.bdev q) = o.owed q + l.countP (answers o.bdev q) := by
  unfold owed
  have hkeep (l : List Deferred) : l.countP (answers o'.bdev q) = l.countP (answers o.bdev q) :=
    countP_answers fun d _ i _ => hcb i
  rw [hw, hkeep, hc, List.countP_append, RaidObject.countP_deliver hd (answers o.bdev q)]
  omega

end RaidObject

/-- An act answers a request, lets it wait, or drops it. -/
theorem Move.answers (m : Move threads shutdown o a o' out) (h : o.Steady) (hin : a.Within o) :
    o'.owed q + answersTo q out + due q (a.lost o) = o.owed q + due q a.asks := by
  have hdelete {j : Nat} : ((o.bdev.baseBdevInfo.map (deleteSlot o.bdev.state)).getD j {}).removeCb = (o.bdev.slot j).removeCb :=
    getD_map_of (removeCb_deleteSlot o.bdev.state) j
  have hdestruct {j : Nat} : ((o.bdev.baseBdevInfo.map (destructSlot shutdown)).getD j {}).removeCb = (o.bdev.slot j).removeCb :=
    getD_map_of (removeCb_destructSlot shutdown) j
  have hcancel {i j : Nat} : ((o.bdev.modSlot i cancelSlot).slot j).removeCb = (o.bdev.slot j).removeCb := by
    by_cases hj : j = i
    · rw [hj]
      exact removeCb_cancel _ _
    · rw [RaidBdev.slot_modSlot_of_ne hj]
  have hother {i : Nat} {f : RaidBaseBdevInfo → RaidBaseBdevInfo} (hf : (o.bdev.slot i).removeScheduled = false) :
      ∀ d ∈ o.callbacks, ∀ j, d.slot = some j → ((o.bdev.modSlot i f).slot j).removeCb = (o.bdev.slot j).removeCb := by
    intro d hd j hj
    have hji : j ≠ i := fun he => RaidObject.removals_eq_zero h hf d hd (he ▸ hj)
    rw [RaidBdev.slot_modSlot_of_ne hji]
  have hfreed {i j : Nat} {b : RaidBdev} : ((b.freeSlot i).slot j).removeCb = (b.slot j).removeCb := by
    rw [RaidBdev.slot_freeSlot]
    split
    · next hj => rw [hj]
    · rfl
  have hone {d : Deferred} (hd : d.slot = none) : ∀ x ∈ [d], x.slot = none := by
    intro x hx
    rw [List.mem_singleton.mp hx]
    exact hd
  have hnil : o.callbacks = o.callbacks ++ [] := (List.append_nil _).symm
  have hnone : ∀ d ∈ ([] : List Deferred), d.slot = none := fun _ hd => absurd hd List.not_mem_nil
  have hsame : ∀ d ∈ o.callbacks, ∀ i, d.slot = some i → (o.bdev.slot i).removeCb = (o.bdev.slot i).removeCb :=
    fun _ _ _ _ => rfl
  have hwait {d : Deferred} {i : Nat} (hd : d.slot = some i) :
      [d].countP (RaidObject.answers o.bdev q) = due q (o.bdev.slot i).removeCb := RaidObject.countP_answers_single hd
  have hidle {d : Deferred} (hd : d.slot = none) : [d].countP (RaidObject.answers o.bdev q) = 0 :=
    RaidObject.countP_answers_none (hone hd)
  have hcall {x : RaidObject} {d : Deferred} {l : List Deferred} (hd : d ∈ o.callbacks)
      (hs : d.slot = none) (hc : x.callbacks = o.callbacks.erase d ++ l) (hl : ∀ d ∈ l, d.slot = none)
      (hw : x.bdev.status.waiter = o.bdev.status.waiter) (hcb : ∀ i, (x.bdev.slot i).removeCb = (o.bdev.slot i).removeCb) :
      x.owed q = o.owed q := by
    have he := RaidObject.owed_took (q := q) hd hw hc hcb
    rwa [hidle hs, RaidObject.countP_answers_none hl, Nat.add_zero, Nat.add_zero] at he
  have hremoval {x : RaidObject} {d d' : Deferred} {i : Nat} (hd : d ∈ o.callbacks) (hs : d.slot = some i)
      (hc : x.callbacks = o.callbacks.erase d ++ [d']) (hs' : d'.slot = some i)
      (hw : x.bdev.status.waiter = o.bdev.status.waiter) (hcb : ∀ i, (x.bdev.slot i).removeCb = (o.bdev.slot i).removeCb) :
      x.owed q = o.owed q := by
    have he := RaidObject.owed_took (q := q) hd hw hc hcb
    rw [hwait hs, hwait hs'] at he
    omega
  have hended {x : RaidObject} {d : Deferred} {i : Nat} (hd : d ∈ o.callbacks) (hs : d.slot = some i)
      (hc : x.callbacks = o.callbacks.erase d) (hw : x.bdev.status.waiter = o.bdev.status.waiter)
      (hcb : ∀ i, (x.bdev.slot i).removeCb = (o.bdev.slot i).removeCb) :
      x.owed q + due q (o.bdev.slot i).removeCb = o.owed q := by
    have he := RaidObject.owed_took (q := q) (l := []) hd hw (by rw [hc, List.append_nil]) hcb
    rwa [hwait hs] at he
  have hunregistered {x : RaidObject} (hd : .ioDeviceUnregister ∈ o.callbacks)
      (hc : x.callbacks = o.callbacks.erase .ioDeviceUnregister) (hb : x.bdev = { o.bdev with status := .unregistered }) :
      x.owed q + due q o.bdev.status.waiter = o.owed q := by
    have hkeep : (o.callbacks.erase .ioDeviceUnregister).countP (RaidObject.answers x.bdev q) =
        o.callbacks.countP (RaidObject.answers o.bdev q) := by
      rw [RaidObject.countP_deliver hd (RaidObject.answers o.bdev q), hidle rfl, hb]
      exact RaidObject.countP_answers fun _ _ _ _ => rfl
    unfold RaidObject.owed
    rw [hc, hkeep, hb]
    show 0 + _ + _ = _
    omega
  cases m with
  | filled hb hstops hs =>
    have hl {n : Nat} : ∀ d ∈ List.replicate n Deferred.moduleStopDone, d.slot = none := by
      intro d hd
      rw [(List.mem_replicate.mp hd).2]
      rfl
    have hcb : ∀ d ∈ o.callbacks, ∀ i, d.slot = some i → (o'.bdev.slot i).removeCb = (o.bdev.slot i).removeCb :=
      fun _ _ i _ => (hb.bdev.flags i).2
    rcases hb.outcome with ⟨-, hstatus, -, n, hn⟩ | ⟨-, hready, -, ⟨n, hn⟩, -⟩
    · have he : o'.owed q = o.owed q := RaidObject.owed_append (by rw [hstatus]) hn hl hcb
      rw [he]
      rfl
    · have he : o'.owed q = o.owed q := RaidObject.owed_append (by rw [hready, h.young hs]; rfl) hn hl hcb
      rw [he]
      rfl
  | @resized b hb =>
    have hcb : ∀ d ∈ o.callbacks, ∀ i, d.slot = some i → (b.slot i).removeCb = (o.bdev.slot i).removeCb := by
      intro _ _ i _
      have hc := hb.content i
      simp only [RaidBaseBdevInfo.content, Prod.mk.injEq] at hc
      exact hc.2.2.2
    have he : (o.modBdev fun _ => b).owed q = o.owed q :=
      RaidObject.owed_append (congrArg BdevStatus.waiter hb.status) hnil hnone hcb
    rw [he]
    rfl
  | @scheduled i cb rc hf =>
    have hlost : (Act.remove i cb rc).lost o = cb := if_pos (.inl hf)
    rw [hlost]
    rfl
  | @closed i cb rc hf hs hd =>
    have hlost : (Act.remove i cb rc).lost o = cb := if_pos (.inr (.inl hs))
    have he : (o.closed i cb).owed q = o.owed q :=
      RaidObject.owed_append rfl hnil hnone fun d hd j hj => hfreed.trans (hother hf d hd j hj)
    rw [hlost, he]
    rfl
  | @closedLast i cb rc hf hs hd =>
    have hlost : (Act.remove i cb rc).lost o = cb := if_pos (.inr (.inl hs))
    have he : (o.closed i cb).dispose.owed q = o.owed q :=
      RaidObject.owed_append rfl hnil hnone fun d hd j hj => hfreed.trans (hother hf d hd j hj)
    rw [hlost, he]
    rfl
  | @offline i cb rc hf hs hm hb =>
    have hlost : (Act.remove i cb rc).lost o = none := if_neg (by simp [hf, hs, hm])
    have hw : o.bdev.status.waiter = none := waiter_of_idle hb
    have he : ((o.modBdev (·.modSlot i (scheduleSlot cb))).offline cb).owed q = due q cb + o.owed q := by
      unfold RaidObject.owed
      rw [hw, due_none, Nat.zero_add]
      show due q cb + (o.callbacks ++ [Deferred.destruct]).countP _ = _
      rw [List.countP_append, RaidObject.countP_answers_none (hone rfl)]
      exact congrArg (due q cb + ·) (RaidObject.countP_answers (hother hf))
    rw [hlost, he]
    show due q cb + o.owed q + 0 + 0 = o.owed q + due q cb
    omega
  | @offlineBusy i cb rc hf hs hm hb =>
    have hlost : (Act.remove i cb rc).lost o = none := if_neg (by simp [hf, hs, hm])
    have he : (o.modBdev fun b => { b.modSlot i (scheduleSlot cb) with state := .offline }).owed q = o.owed q :=
      RaidObject.owed_append rfl hnil hnone (hother hf)
    rw [hlost, he, answersTo_answer]
    rfl
  | @quiesceRefused i cb rc hf hs hm hrc =>
    have hlost : (Act.remove i cb rc).lost o = cb := if_pos (.inr (.inr ⟨hm, hrc⟩))
    have he : (o.modBdev (·.modSlot i fun info => cancelSlot (scheduleSlot cb info))).owed q = o.owed q :=
      RaidObject.owed_append rfl hnil hnone (hother hf)
    rw [hlost, he]
    rfl
  | @quiescing i cb rc hf hs hm hrc =>
    have hlost : (Act.remove i cb rc).lost o = none := if_neg (by simp [hf, hs, hrc])
    have hcb : ((o.bdev.modSlot i (scheduleSlot cb)).slot i).removeCb = cb := by
      rw [RaidBdev.slot_modSlot_self hin]
      rfl
    have he : ((o.modBdev (·.modSlot i (scheduleSlot cb))).deferred (.quiesced i)).owed q = o.owed q + due q cb := by
      unfold RaidObject.owed
      show due q o.bdev.status.waiter + (o.callbacks ++ [Deferred.quiesced i]).countP
        (RaidObject.answers (o.bdev.modSlot i (scheduleSlot cb)) q) = _
      rw [List.countP_append, RaidObject.countP_answers (hother hf), RaidObject.countP_answers_single rfl, hcb]
      omega
    rw [hlost, he]
    rfl
  | @deleteAgain cb hd =>
    rw [answersTo_answer]
    rfl
  | @deleted cb hd hs =>
    have he : (o.deleting 0).dispose.owed q = o.owed q :=
      RaidObject.owed_append rfl hnil hnone fun _ _ _ _ => hdelete
    rw [he, answersTo_answer]
    rfl
  | @deleteOffline cb n hd hn hs hb =>
    have hw : o.bdev.status.waiter = none := waiter_of_idle hb
    have he : ((o.deleting n).offline cb).owed q = due q cb + o.owed q := by
      unfold RaidObject.owed
      rw [hw, due_none, Nat.zero_add]
      show due q cb + (o.callbacks ++ [Deferred.destruct]).countP _ = _
      rw [List.countP_append, RaidObject.countP_answers_none (hone rfl)]
      exact congrArg (due q cb + ·) (RaidObject.countP_answers fun _ _ _ _ => hdelete)
    rw [he]
    show due q cb + o.owed q + 0 + 0 = o.owed q + due q cb
    omega
  | @deleteBusy cb n hd hn hs hb =>
    have he : ((o.deleting n).modBdev fun b => { b with state := .offline }).owed q = o.owed q :=
      RaidObject.owed_append rfl hnil hnone fun _ _ _ _ => hdelete
    rw [he, answersTo_answer]
    rfl
  | @destructStops rc n hr =>
    have he : (((o.took .destruct).destructed shutdown n).deferred .moduleStopDone).owed q = o.owed q :=
      hcall hr.1 rfl rfl (hone rfl) (waiter_destroy _) fun _ => hdestruct
    rw [he]
    rfl
  | @destruct rc n hr =>
    obtain ⟨l, hl, hnone⟩ := ((o.took .destruct).destructed shutdown n).stopDone_callbacks
    have hb := ((o.took .destruct).destructed shutdown n).stopDone_bdev
    have he : ((o.took .destruct).destructed shutdown n).stopDone.owed q = o.owed q := by
      refine hcall hr.1 rfl hl hnone ?_ fun i => ?_
      · rw [hb]
        exact waiter_destroy _
      · rw [hb]
        exact hdestruct
    rw [he]
    rfl
  | stopDone hr =>
    obtain ⟨l, hl, hnone⟩ := (o.took .moduleStopDone).stopDone_callbacks
    have hb := (o.took .moduleStopDone).stopDone_bdev
    have he : (o.took .moduleStopDone).stopDone.owed q = o.owed q :=
      hcall hr.1 rfl hl hnone (by rw [hb]; rfl) fun i => by rw [hb]; rfl
    rw [he]
    rfl
  | unregistered hr hd =>
    rw [answersTo_answer]
    exact hunregistered hr.1 rfl rfl
  | unregisteredLast hr hd =>
    rw [answersTo_answer]
    exact hunregistered hr.1 rfl rfl
  | quiesceFailed hr hrc =>
    rw [answersTo_answer]
    exact hended hr.1 rfl rfl rfl fun _ => hcancel
  | @quiesced i rc hr hrc =>
    have he : ((o.took (.quiesced i)).deferred (.channelRemove i threads)).owed q = o.owed q :=
      hremoval hr.1 rfl rfl rfl rfl fun _ => rfl
    rw [he]
    rfl
  | @visited i thread rest rc hr =>
    have he : (((o.took (.channelRemove i (thread :: rest))).visited i thread).deferred (.channelRemove i rest)).owed q =
        o.owed q := hremoval hr.1 rfl rfl rfl rfl fun _ => rfl
    rw [he]
    rfl
  | @allVisited i rc hr hrc =>
    have hlost : (Act.callback (.channelRemove i []) rc).lost o = none := if_pos hrc
    have he : ((o.took (.channelRemove i [])).deferred (.unquiesced i)).owed q = o.owed q :=
      hremoval hr.1 rfl rfl rfl rfl fun _ => rfl
    rw [hlost, he]
    rfl
  | @unquiesceRefused i rc hr hrc =>
    have hlost : (Act.callback (.channelRemove i []) rc).lost o = (o.bdev.slot i).removeCb := if_neg hrc
    rw [hlost]
    exact hended hr.1 rfl rfl rfl fun _ => rfl
  | unquiesceFailed hr hrc =>
    rw [answersTo_answer]
    exact hended hr.1 rfl rfl rfl fun _ => hcancel
  | unquiesced hr hrc =>
    rw [answersTo_answer]
    exact hended hr.1 rfl rfl rfl fun _ => hfreed.trans hcancel
  | channelFailed => rfl
  | channelCreated ht ho hc => rfl
  | channelDestroyed => rfl
  | @unregister cb hs hb =>
    have hw : o.bdev.status.waiter = none := by rw [hb]; rfl
    have he : ((o.modBdev fun b => { b with status := .unregistering cb }).deferred .destruct).owed q = due q cb + o.owed q := by
      unfold RaidObject.owed
      rw [hw, due_none, Nat.zero_add]
      show due q cb + (o.callbacks ++ [Deferred.destruct]).countP _ = _
      rw [List.countP_append, RaidObject.countP_answers_none (hone rfl)]
      rfl
    rw [he]
    show due q cb + o.owed q + 0 + 0 = o.owed q + due q cb
    omega

end

/-! ## The module -/

/-- The request an event carries. -/
def Event.asks : Event → Option Nat
  | .rpcCreate request _ _ => some request
  | .rpcDelete request _ => some request
  | .rpcRemove request _ _ _ => some request
  | .remove _ cb _ => cb
  | .bdevUnregister _ cb => cb
  | _ => none

namespace State

/-- How often request `q` waits for an answer. -/
def owed (s : State) (q : Nat) : Nat :=
  due q (s.rpc.map (·.request)) + ∑ r ∈ Finset.range s.next, (s.mem r).owed q

/-- The request a step drops without an answer. `raid_bdev_remove_base_bdev` tells its caller when no
    raid bdev has the base bdev, and does not call back. -/
def lost (s : State) (e : Event) : Option Nat :=
  match s.target e, e with
  | some (r, a), _ => a.lost (s.mem r)
  | none, .remove _ cb _ => cb
  | none, _ => none

end State

section

variable {threads : List Nat} {ok : State → Event → Prop} {s t u : State} {e : Event} {r i b q : Nat} {a : Act}

/-- One raid bdev changes what waits. -/
theorem sum_owed (hr : r < s.next) (hmem : ∀ x, x ≠ r → t.mem x = s.mem x) :
    ∑ x ∈ Finset.range s.next, (t.mem x).owed q + (s.mem r).owed q =
      ∑ x ∈ Finset.range s.next, (s.mem x).owed q + (t.mem r).owed q := by
  have hin : r ∈ Finset.range s.next := Finset.mem_range.mpr hr
  have hrest : ∑ x ∈ (Finset.range s.next).erase r, (t.mem x).owed q =
      ∑ x ∈ (Finset.range s.next).erase r, (s.mem x).owed q := by
    apply Finset.sum_congr rfl
    intro x hx
    rw [hmem x (Finset.ne_of_mem_erase hx)]
  have hs := Finset.add_sum_erase (Finset.range s.next) (fun x => (s.mem x).owed q) hin
  have ht := Finset.add_sum_erase (Finset.range s.next) (fun x => (t.mem x).owed q) hin
  rw [hrest] at ht
  omega

theorem Turned.answers {p p' : Option CreateRpc} {l : List (Nat × Int)} (h : Turned p p' l) :
    due q (p'.map (·.request)) + answersTo q l = due q (p.map (·.request)) := by
  cases h with
  | idle => rfl
  | turn hraid hrequest =>
    rw [Option.map_some, Option.map_some, hrequest]
    rfl
  | done p rc =>
    rw [answersTo_single]
    exact Nat.zero_add _

theorem target_asks (htarget : s.target e = some (r, a)) : a.asks = e.asks := by
  cases e with
  | rpcCreateAdd | rpcCreateFail | rpcDelete | remove | resize =>
    obtain ⟨x, -, h⟩ := Option.map_eq_some_iff.mp htarget
    rw [← (Prod.mk.inj h).2]
    rfl
  | rpcRemove =>
    obtain ⟨-, h⟩ := Option.ite_none_right_eq_some.mp htarget
    obtain ⟨x, -, h⟩ := Option.map_eq_some_iff.mp h
    rw [← (Prod.mk.inj h).2]
    rfl
  | callback | channelCreate | channelDestroy | bdevUnregister =>
    rw [← (Prod.mk.inj (Option.some.inj htarget)).2]
    rfl
  | rpcCreate | examine | finiStart | bdevs | claimOther | releaseOther => cases htarget

/-- An event that is about no raid bdev is answered by its handler, or dropped. -/
theorem untargeted_asks (htarget : s.target e = none) : due q (s.lost e) + due q e.request = due q e.asks := by
  unfold State.lost
  rw [htarget]
  cases e with
  | remove b cb rc => rfl
  | bdevUnregister => cases htarget
  | _ => exact Nat.zero_add _

/-- A step answers a request, lets it wait, or drops it. -/
theorem step_answers (hst : s.Steady) (hs : Accounts s) (h : step threads s e = some t) :
    t.owed q + answersTo q t.replies + due q (s.lost e) = s.owed q + answersTo q s.replies + due q e.asks := by
  cases step_moves hs h with
  | @act r a out extra htarget hkept hmem hmove hlist hturned hreplies =>
    have hr := target_lt hs hst h htarget
    have hact := hmove.answers (q := q) (hst.mem r).1 (target_origin h htarget).1
    have hsum := sum_owed (q := q) hr hmem
    have hturn := hturned.answers (q := q)
    have hlost : s.lost e = a.lost (s.mem r) := by
      unfold State.lost
      rw [htarget]
    rw [hlost, ← target_asks htarget, hreplies, answersTo_append, answersTo_append, State.owed, State.owed, hkept.next]
    omega
  | @idle rc htarget hkept hmem hlist hrpc hreplies =>
    have hasked := untargeted_asks (q := q) htarget
    rw [hreplies, answersTo_append, answersTo_answer, State.owed, State.owed, hkept.next, hrpc, hmem]
    omega
  | examined htarget hrequest hkept hmem hlist hrpc hreplies =>
    have hasked := untargeted_asks (q := q) htarget
    have hsame : ∑ x ∈ Finset.range s.next, (t.mem x).owed q = ∑ x ∈ Finset.range s.next, (s.mem x).owed q := by
      apply Finset.sum_congr rfl
      intro x _
      rcases hmem x with heq | ⟨-, ⟨i, hwait⟩, hbuilt, hstops⟩
      · rw [heq]
      · have m : Move threads true (s.mem x) .fill (t.mem x) [] := .filled hbuilt hstops hwait.state
        exact m.answers (q := q) (hst.mem x).1 trivial
    rw [hrequest, due_none] at hasked
    rw [hreplies, State.owed, State.owed, hkept.next, hrpc, hsame]
    omega
  | @created request req alloc b he hmake hname heq =>
    subst he
    have hrpc : s.rpc = none := by
      unfold step at h
      split at h
      · next hrpc => exact hrpc
      · split at h
        · next he => cases he
        · next he => cases he
        · cases h
    subst heq
    have hold : ∑ x ∈ Finset.range s.next, ((s.created b).mem x).owed q = ∑ x ∈ Finset.range s.next, (s.mem x).owed q := by
      apply Finset.sum_congr rfl
      intro x hx
      have hne : x ≠ s.next := Nat.ne_of_lt (Finset.mem_range.mp hx)
      have hx : (s.created b).mem x = s.mem x := Function.update_of_ne hne _ _
      rw [hx]
    have hnew : ((s.created b).mem s.next).owed q = 0 := by
      have hn : (s.created b).mem s.next = { bdev := b } := Function.update_self _ _ _
      rw [hn, (make_eq hmake).1]
      rfl
    show due q (some request) + ∑ x ∈ Finset.range (s.next + 1), ((s.created b).mem x).owed q + answersTo q s.replies + 0 =
      due q (s.rpc.map (·.request)) + ∑ x ∈ Finset.range s.next, (s.mem x).owed q + answersTo q s.replies + due q (some request)
    rw [Finset.sum_range_succ, hold, hnew, hrpc, Option.map_none, due_none]
    omega

/-! ## Every run -/

/-- What the steps of a run drop of request `q`. -/
def lostIn (threads : List Nat) (q : Nat) : State → List Event → Nat
  | _, [] => 0
  | s, e :: es => due q (s.lost e) + ((step threads s e).elim 0 fun t => lostIn threads q t es)

/-- Along a run the answers, what waits and what was dropped add up to what was asked. -/
theorem run_answers {es : List Event} (hst : s.Steady) (hs : Accounts s) (h : Lib.exec (step threads) s es = some t) :
    t.owed q + answersTo q t.replies + lostIn threads q s es =
      s.owed q + answersTo q s.replies + es.countP fun e => e.asks == some q := by
  -- by induction on the events
  induction es generalizing s with
  | nil =>
    obtain rfl := Option.some.inj h
    rfl
  | cons e es ih =>
    obtain ⟨u, hu, hrest⟩ := Option.bind_eq_some_iff.mp h
    have hstep := step_answers (q := q) hst hs hu
    have hrun := ih (hst.step hs hu) (accounts_step hs hu) hrest
    have hcount : (e :: es).countP (fun e => e.asks == some q) = es.countP (fun e => e.asks == some q) + due q e.asks := by
      rw [List.countP_cons, due]
      by_cases hq : e.asks = some q
      · simp [hq]
      · simp [hq]
    have hlost : lostIn threads q s (e :: es) = due q (s.lost e) + lostIn threads q u es := by
      rw [lostIn, hu]
      rfl
    rw [hcount, hlost]
    omega

/-- In every run, whatever the requests and callbacks and however they interleave: the answers to a
    request, the times it still waits for one and the times it was dropped are as many as the times it
    was asked. A request that comes once is answered at most once. -/
theorem requests_accounted {names : String → Option Nat} {bdevs : Nat → Bdev} {claimed : Nat → Bool} {es : List Event}
    (h : Lib.exec (step threads) (State.init names bdevs claimed) es = some s) (q : Nat) :
    answersTo q s.replies + s.owed q + lostIn threads q (State.init names bdevs claimed) es =
      es.countP fun e => e.asks == some q := by
  have hrun := run_answers (q := q) (steady_init names bdevs claimed) (accounts_init names bdevs claimed) h
  have hzero : (State.init names bdevs claimed).owed q = 0 := rfl
  have hnil : answersTo q (State.init names bdevs claimed).replies = 0 := rfl
  omega

/-- A raid bdev without callbacks lets no request wait. -/
theorem RaidObject.Leaving.owed_zero {o : RaidObject} (h : o.Leaving) (hc : o.callbacks = []) : o.owed q = 0 := by
  unfold owed
  rw [hc, List.countP_nil]
  cases hs : o.bdev.status with
  | unregistered | ready => rfl
  | unregistering cb =>
    have hin := h.unregistering cb hs
    rw [hc] at hin
    cases hin
  | destructing cb =>
    have hin := h.destructing cb hs
    rw [hc] at hin
    rcases hin with hin | hin
    · cases hin
    · cases hin

/-- When every callback was delivered and no request is in its loop, all requests are answered as often
    as they came, but for those that were dropped. -/
theorem requests_answered {names : String → Option Nat} {bdevs : Nat → Bdev} {claimed : Nat → Bool} {es : List Event}
    (h : Lib.exec (step threads) (State.init names bdevs claimed) es = some s) (hrpc : s.rpc = none)
    (hdone : ∀ r < s.next, (s.mem r).callbacks = []) (q : Nat) :
    answersTo q s.replies + lostIn threads q (State.init names bdevs claimed) es =
      es.countP fun e => e.asks == some q := by
  have hrun := requests_accounted h q
  have hst := run_steady (steady_init names bdevs claimed) (accounts_init names bdevs claimed) h
  have hzero : s.owed q = 0 := by
    rw [State.owed, hrpc, Option.map_none, due_none, Nat.zero_add]
    apply Finset.sum_eq_zero
    intro r hr
    exact (hst.mem r).2.owed_zero (hdone r (Finset.mem_range.mp hr))
  omega

end

/-- The removal of the first base bdev of an online raid1 array, asked for by request 1. -/
def smallRemoval : List Event :=
  smallCreate .raid1 3 ++ [.rpcRemove 1 (fourBdevs 0).name 0 0, .callback 0 (.quiesced 0) 0,
    .callback 0 (.channelRemove 0 [0, 1]) 0, .callback 0 (.channelRemove 0 [1]) 0, .callback 0 (.channelRemove 0 []) 0,
    .callback 0 (.unquiesced 0) 0]

theorem smallRemoval_end : ∃ s, Lib.exec (step [0, 1]) (State.init fourNames fourBdevs fun _ => false) smallRemoval = some s ∧
    s.rpc = none ∧ s.next = 1 ∧ (s.mem 0).callbacks = [] ∧ s.replies = [(0, 0), (1, 0)] := by
  have hm : (Lib.exec (step [0, 1]) (State.init fourNames fourBdevs fun _ => false) smallRemoval).map (fun s =>
      decide (s.rpc = none ∧ s.next = 1 ∧ (s.mem 0).callbacks = [] ∧ s.replies = [(0, 0), (1, 0)])) = some true := by
    decide +kernel
  obtain ⟨s, hs, hv⟩ := Option.map_eq_some_iff.mp hm
  exact ⟨s, hs, of_decide_eq_true hv⟩

theorem requests_accounted_removal : ∃ s : State, s.replies = [(0, 0), (1, 0)] ∧ answersTo 1 s.replies + s.owed 1 +
    lostIn [0, 1] 1 (State.init fourNames fourBdevs fun _ => false) smallRemoval = 1 := by
  obtain ⟨s, hs, -, -, -, hreplies⟩ := smallRemoval_end
  exact ⟨s, hreplies, requests_accounted hs 1⟩

theorem requests_answered_removal : ∃ s : State, s.replies = [(0, 0), (1, 0)] ∧ answersTo 1 s.replies +
    lostIn [0, 1] 1 (State.init fourNames fourBdevs fun _ => false) smallRemoval = 1 := by
  obtain ⟨s, hs, hrpc, hnext, hdone, hreplies⟩ := smallRemoval_end
  refine ⟨s, hreplies, requests_answered hs hrpc (fun r hr => ?_) 1⟩
  rw [hnext] at hr
  obtain rfl : r = 0 := by omega
  exact hdone

end FlexBSO.Raid

import FlexBSO.Raid.Moves

/- How the callbacks of a raid bdev go with its state, in every run. A removal of a slot
   has one callback at a time, and only while the slot says that it is scheduled; the
   bdev layer does not know a raid bdev that is configuring; a raid bdev on its way out
   has the next callback of its teardown to come. -/
namespace FlexBSO.Raid

open State

/-! ## One raid bdev -/

namespace RaidObject

/-- How many callbacks of a removal of slot `i` are to come. -/
def removals (o : RaidObject) (i : Nat) : Nat := o.callbacks.countP fun d => d.slot == some i

/-- A removal has one callback at a time, and the bdev layer does not know a raid bdev that is configuring. -/
structure Steady (o : RaidObject) : Prop where
  single : ∀ i, o.removals i ≤ if (o.bdev.slot i).removeScheduled then 1 else 0
  young : o.bdev.state = .configuring → o.bdev.status = .unregistered

/-- A raid bdev on its way out has a callback to come. -/
structure Leaving (o : RaidObject) : Prop where
  unregistering : ∀ cb, o.bdev.status = .unregistering cb → .destruct ∈ o.callbacks
  destructing : ∀ cb, o.bdev.status = .destructing cb → .moduleStopDone ∈ o.callbacks ∨ .ioDeviceUnregister ∈ o.callbacks

end RaidObject

/-- A slot to be removed is a slot of the raid bdev. -/
def Act.Within (o : RaidObject) : Act → Prop
  | .remove i _ _ => i < o.bdev.numBaseBdevs
  | _ => True

section

variable {o o' : RaidObject} {b : RaidBdev} {i : Nat} {l : List Deferred} {d : Deferred}

namespace RaidObject

/-- A callback that is delivered. -/
theorem countP_deliver (hd : d ∈ l) (p : Deferred → Bool) : l.countP p = (l.erase d).countP p + [d].countP p := by
  have hperm : l.Perm (d :: l.erase d) := List.perm_cons_erase hd
  rw [hperm.countP_eq, List.countP_cons, List.countP_singleton]

theorem removals_eq_zero (h : o.Steady) (hf : (o.bdev.slot i).removeScheduled = false) :
    ∀ d ∈ o.callbacks, d.slot ≠ some i := by
  have hi := h.single i
  rw [hf] at hi
  have hzero : o.removals i = 0 := Nat.le_zero.mp hi
  intro d hd hs
  have := List.countP_eq_zero.mp hzero d hd
  exact this (by rw [hs]; exact BEq.rfl)

theorem Steady.mono (h : o.Steady) (hc : ∀ i, o'.removals i ≤ o.removals i)
    (hf : ∀ i, (o.bdev.slot i).removeScheduled = true → (o'.bdev.slot i).removeScheduled = true)
    (hy : o'.bdev.state = .configuring → o'.bdev.status = .unregistered) : o'.Steady := by
  refine ⟨fun i => Nat.le_trans (hc i) ?_, hy⟩
  have hi := h.single i
  cases hs : (o.bdev.slot i).removeScheduled with
  | true =>
    rw [hs] at hi
    rw [hf i hs]
    exact hi
  | false =>
    rw [hs] at hi
    exact Nat.le_trans hi (Nat.zero_le _)

/-- The removal of slot `i` ends with its callback. -/
theorem Steady.ended (h : o.Steady) (hd : d ∈ o.callbacks) (hs : d.slot = some i) (hc : o'.callbacks = o.callbacks.erase d)
    (hf : ∀ j, j ≠ i → (o'.bdev.slot j).removeScheduled = (o.bdev.slot j).removeScheduled)
    (hy : o'.bdev.state = .configuring → o'.bdev.status = .unregistered) : o'.Steady := by
  refine ⟨fun j => ?_, hy⟩
  have hj := h.single j
  have hcount : o.removals j = o'.removals j + [d].countP fun d => d.slot == some j := by
    rw [removals, removals, hc]
    exact countP_deliver hd _
  by_cases hij : j = i
  · have hone : [d].countP (fun d => d.slot == some j) = 1 := by simp [hs, hij]
    have hle : o.removals j ≤ 1 := Nat.le_trans hj (by split <;> omega)
    have hzero : o'.removals j = 0 := by omega
    rw [hzero]
    exact Nat.zero_le _
  · rw [hf j hij]
    omega

theorem countP_slot_none (h : ∀ d ∈ l, d.slot = none) (i : Nat) : l.countP (fun d => d.slot == some i) = 0 := by
  rw [List.countP_eq_zero]
  intro d hd
  rw [h d hd]
  exact Bool.false_ne_true

/-- More callbacks, none of them of a removal. -/
theorem removals_append (hc : o'.callbacks = o.callbacks ++ l) (hl : ∀ d ∈ l, d.slot = none) (i : Nat) :
    o'.removals i ≤ o.removals i := by
  rw [removals, removals, hc, List.countP_append, countP_slot_none hl]
  exact Nat.le_refl _

/-- A callback gives way to others, which belong to its removal or to none. -/
theorem removals_took (hd : d ∈ o.callbacks) (hc : o'.callbacks = o.callbacks.erase d ++ l)
    (hl : ∀ i, l.countP (fun d => d.slot == some i) ≤ [d].countP fun d => d.slot == some i) (i : Nat) :
    o'.removals i ≤ o.removals i := by
  rw [removals, removals, hc, List.countP_append, countP_deliver hd]
  exact Nat.add_le_add_left (hl i) _

theorem stopDone_callbacks (o : RaidObject) : ∃ l, o.stopDone.callbacks = o.callbacks ++ l ∧ ∀ d ∈ l, d.slot = none := by
  unfold stopDone
  split
  · refine ⟨[.ioDeviceUnregister], rfl, fun d hd => ?_⟩
    rw [List.mem_singleton.mp hd]
    rfl
  · exact ⟨[], (List.append_nil _).symm, fun d hd => absurd hd List.not_mem_nil⟩

theorem stopDone_bdev (o : RaidObject) : o.stopDone.bdev = o.bdev := by
  unfold stopDone
  split <;> rfl

end RaidObject

theorem scheduled_modSlot {f : RaidBaseBdevInfo → RaidBaseBdevInfo} {j : Nat}
    (hf : (b.slot i).removeScheduled = true → (f (b.slot i)).removeScheduled = true)
    (h : (b.slot j).removeScheduled = true) : ((b.modSlot i f).slot j).removeScheduled = true := by
  rw [RaidBdev.slot_modSlot]
  split
  · next hj => exact hf (hj.1 ▸ h)
  · exact h

theorem scheduled_freeSlot {j : Nat} : ((b.freeSlot i).slot j).removeScheduled = (b.slot j).removeScheduled := by
  rw [RaidBdev.slot_freeSlot]
  split
  · next hj => rw [hj]
  · rfl

theorem scheduled_map {g : RaidBaseBdevInfo → RaidBaseBdevInfo}
    (hg : ∀ info, info.removeScheduled = true → (g info).removeScheduled = true) {l : List RaidBaseBdevInfo}
    (h : (l.getD i {}).removeScheduled = true) : ((l.map g).getD i {}).removeScheduled = true := by
  rw [List.getD_eq_getElem?_getD] at h ⊢
  rw [List.getElem?_map]
  cases hi : l[i]? with
  | none =>
    rw [hi] at h
    cases h
  | some info =>
    rw [hi] at h
    exact hg info h

theorem scheduled_destructSlot (shutdown : Bool) (info : RaidBaseBdevInfo) :
    (destructSlot shutdown info).removeScheduled = info.removeScheduled := by
  unfold destructSlot
  split <;> rfl

section

variable {threads : List Nat} {shutdown : Bool} {a : Act} {out : List (Nat × Int)}

theorem RaidObject.Steady.move (h : o.Steady) (m : Move threads shutdown o a o' out) (hin : a.Within o) : o'.Steady := by
  have hsame : ∀ i, o.removals i ≤ o.removals i := fun i => Nat.le_refl _
  have hone {d : Deferred} (hd : d.slot = none) : ∀ x ∈ [d], x.slot = none := by
    intro x hx
    rw [List.mem_singleton.mp hx]
    exact hd
  have hschedule {b : RaidBdev} {cb : Option Nat} {i j : Nat} (hj : (b.slot j).removeScheduled = true) :
      ((b.modSlot i (scheduleSlot cb)).slot j).removeScheduled = true := scheduled_modSlot (fun _ => rfl) hj
  have hdelete {j : Nat} (hj : (o.bdev.slot j).removeScheduled = true) :
      ((o.bdev.baseBdevInfo.map (deleteSlot o.bdev.state)).getD j {}).removeScheduled = true := by
    refine scheduled_map (fun info _ => ?_) hj
    unfold deleteSlot
    dsimp only
    split <;> rfl
  have hdestruct {j : Nat} (hj : (o.bdev.slot j).removeScheduled = true) :
      ((o.bdev.baseBdevInfo.map (destructSlot shutdown)).getD j {}).removeScheduled = true :=
    scheduled_map (fun info hinfo => (scheduled_destructSlot shutdown info).trans hinfo) hj
  have hnot {P : Prop} {s : RaidBdevState} (hs : s ≠ .configuring) (hc : s = .configuring) : P := absurd hc hs
  have hoff : RaidBdevState.offline ≠ .configuring := by decide
  have htook {d d' : Deferred} (hd : d ∈ o.callbacks) (hc : o'.callbacks = o.callbacks.erase d ++ [d']) (hs : d'.slot = d.slot)
      (i : Nat) : o'.removals i ≤ o.removals i := by
    refine RaidObject.removals_took hd hc (fun i => ?_) i
    simp [hs]
  have hdone {d : Deferred} (hd : d ∈ o.callbacks) {l : List Deferred} (hc : o'.callbacks = o.callbacks.erase d ++ l)
      (hl : ∀ x ∈ l, x.slot = none) (i : Nat) : o'.removals i ≤ o.removals i := by
    refine RaidObject.removals_took hd hc (fun i => ?_) i
    rw [RaidObject.countP_slot_none hl]
    exact Nat.zero_le _
  have hdestroyed (hc : (if shutdown = true then .offline else o.bdev.state) = RaidBdevState.configuring) :
      o.bdev.status.destroy = .unregistered := by
    split at hc
    · cases hc
    · rw [h.young hc]
      rfl
  have hcancel {i j : Nat} (hj : j ≠ i) : ((o.bdev.modSlot i cancelSlot).slot j).removeScheduled = (o.bdev.slot j).removeScheduled := by
    rw [RaidBdev.slot_modSlot_of_ne hj]
  cases m with
  | filled hb hstops hs =>
    have hl {n : Nat} : ∀ d ∈ List.replicate n Deferred.moduleStopDone, d.slot = none := by
      intro d hd
      rw [(List.mem_replicate.mp hd).2]
      rfl
    rcases hb.outcome with ⟨hstate, hstatus, -, n, hn⟩ | ⟨honline, -, -, ⟨n, hn⟩, -⟩
    · refine h.mono (RaidObject.removals_append hn hl) (fun i hi => (hb.bdev.flags i).1.trans hi) fun _ => ?_
      rw [hstatus]
      exact h.young hs
    · refine h.mono (RaidObject.removals_append hn hl) (fun i hi => (hb.bdev.flags i).1.trans hi) (hnot ?_)
      rw [honline]
      simp
  | resized hb =>
    refine h.mono hsame (fun i hi => ?_) fun hc => hb.status.trans (h.young (hb.state.symm.trans hc))
    have hc := hb.content i
    simp only [RaidBaseBdevInfo.content, Prod.mk.injEq] at hc
    exact hc.2.2.1.trans hi
  | scheduled hf => exact h
  | closed hf hs hd =>
    exact h.mono hsame (fun i hi => scheduled_freeSlot.trans (hschedule hi)) h.young
  | closedLast hf hs hd =>
    exact h.mono hsame (fun i hi => scheduled_freeSlot.trans (hschedule hi)) h.young
  | offline hf hs hm hb => exact h.mono (RaidObject.removals_append rfl (hone rfl)) (fun i hi => hschedule hi) (hnot hoff)
  | offlineBusy hf hs hm hb => exact h.mono hsame (fun i hi => hschedule hi) (hnot hoff)
  | quiesceRefused hf hs hm hrc =>
    refine h.mono hsame (fun i hi => scheduled_modSlot (fun hi' => ?_) hi) h.young
    rw [hf] at hi'
    cases hi'
  | @quiescing i cb rc hf hs hm hrc =>
    refine ⟨fun j => ?_, h.young⟩
    have hj := h.single j
    have hcount : ((o.modBdev (·.modSlot i (scheduleSlot cb))).deferred (.quiesced i)).removals j =
        o.removals j + [Deferred.quiesced i].countP fun d => d.slot == some j := List.countP_append
    rw [hcount]
    by_cases hji : j = i
    · have hflag : ((o.bdev.modSlot i (scheduleSlot cb)).slot i).removeScheduled = true := by
        rw [RaidBdev.slot_modSlot_self hin]
        rfl
      subst hji
      show _ ≤ if ((o.bdev.modSlot j (scheduleSlot cb)).slot j).removeScheduled then 1 else 0
      rw [hflag]
      rw [hf] at hj
      simpa [Deferred.slot] using hj
    · have hslot : (o.bdev.modSlot i (scheduleSlot cb)).slot j = o.bdev.slot j := RaidBdev.slot_modSlot_of_ne hji
      show _ ≤ if ((o.bdev.modSlot i (scheduleSlot cb)).slot j).removeScheduled then 1 else 0
      rw [hslot]
      have hne : (Deferred.quiesced i).slot ≠ some j := fun he => hji (Option.some.inj he).symm
      simpa [hne] using hj
  | deleteAgain hd => exact h
  | deleted hd hs => exact h.mono hsame (fun i hi => hdelete hi) h.young
  | deleteOffline hd hn hs hb => exact h.mono (RaidObject.removals_append rfl (hone rfl)) (fun i hi => hdelete hi) (hnot hoff)
  | deleteBusy hd hn hs hb => exact h.mono hsame (fun i hi => hdelete hi) (hnot hoff)
  | destructStops hr => exact h.mono (hdone hr.1 rfl (hone rfl)) (fun i hi => hdestruct hi) hdestroyed
  | @destruct _ n hr =>
    obtain ⟨l, hl, hnone⟩ := ((o.took .destruct).destructed shutdown n).stopDone_callbacks
    have hb := ((o.took .destruct).destructed shutdown n).stopDone_bdev
    refine h.mono (hdone hr.1 hl hnone) (fun i hi => hb ▸ hdestruct hi) fun hc => ?_
    rw [hb] at hc ⊢
    exact hdestroyed hc
  | stopDone hr =>
    obtain ⟨l, hl, hnone⟩ := (o.took .moduleStopDone).stopDone_callbacks
    have hb := (o.took .moduleStopDone).stopDone_bdev
    refine h.mono (hdone hr.1 hl hnone) (fun i hi => hb ▸ hi) fun hc => ?_
    rw [hb] at hc ⊢
    exact h.young hc
  | unregistered hr hd =>
    exact h.mono (hdone hr.1 (List.append_nil _).symm (fun _ hx => absurd hx List.not_mem_nil)) (fun i hi => hi) fun _ => rfl
  | unregisteredLast hr hd =>
    exact h.mono (hdone hr.1 (List.append_nil _).symm (fun _ hx => absurd hx List.not_mem_nil)) (fun i hi => hi) fun _ => rfl
  | quiesceFailed hr hrc => exact h.ended hr.1 rfl rfl (fun j hj => hcancel hj) h.young
  | quiesced hr hrc => exact h.mono (htook hr.1 rfl rfl) (fun i hi => hi) h.young
  | visited hr => exact h.mono (htook hr.1 rfl rfl) (fun i hi => hi) h.young
  | allVisited hr hrc => exact h.mono (htook hr.1 rfl rfl) (fun i hi => hi) h.young
  | unquiesceRefused hr hrc => exact h.ended hr.1 rfl rfl (fun j hj => rfl) h.young
  | unquiesceFailed hr hrc => exact h.ended hr.1 rfl rfl (fun j hj => hcancel hj) h.young
  | unquiesced hr hrc => exact h.ended hr.1 rfl rfl (fun j hj => scheduled_freeSlot.trans (hcancel hj)) h.young
  | channelFailed => exact h
  | channelCreated ht ho hc => exact h.mono hsame (fun i hi => hi) h.young
  | channelDestroyed => exact h.mono hsame (fun i hi => hi) h.young
  | unregister hs hb =>
    refine h.mono (RaidObject.removals_append rfl (hone rfl)) (fun i hi => hi) fun hc => ?_
    cases hb.symm.trans (h.young hc)

theorem RaidObject.Leaving.keep (h : o.Leaving) (hs : o'.bdev.status = o.bdev.status)
    (hc : ∀ d ∈ o.callbacks, d.slot = none → d ∈ o'.callbacks) : o'.Leaving := by
  refine ⟨fun cb hcb => ?_, fun cb hcb => ?_⟩
  · exact hc _ (h.unregistering cb (hs.symm.trans hcb)) rfl
  · exact (h.destructing cb (hs.symm.trans hcb)).imp (hc _ · rfl) (hc _ · rfl)

/-- The status after the bdev layer calls `destruct`: not unregistering. -/
theorem destroy_cases (status : BdevStatus) (cb : Option Nat) : status.destroy ≠ .unregistering cb ∧
    (status.destroy = .destructing cb → status = .unregistering cb ∨ status = .destructing cb) := by
  cases status with
  | unregistered | ready =>
    refine ⟨fun h => ?_, fun h => ?_⟩
    · cases h
    · cases h
  | unregistering x =>
    refine ⟨fun h => ?_, fun h => .inl ?_⟩
    · cases h
    · cases h
      rfl
  | destructing x =>
    refine ⟨fun h => ?_, .inr⟩
    cases h

theorem RaidObject.Leaving.move (h : o.Leaving) (hst : o.Steady) (m : Move threads shutdown o a o' out) : o'.Leaving := by
  have hsame : ∀ d ∈ o.callbacks, d.slot = none → d ∈ o.callbacks := fun _ hd _ => hd
  have happend {l : List Deferred} : ∀ d ∈ o.callbacks, d.slot = none → d ∈ o.callbacks ++ l :=
    fun _ hd _ => List.mem_append_left _ hd
  have hgoes {x : RaidObject} {cb : Option Nat} (hs : x.bdev.status = .unregistering cb) (hc : .destruct ∈ x.callbacks) : x.Leaving := by
    refine ⟨fun _ _ => hc, fun cb' hcb => ?_⟩
    cases hs.symm.trans hcb
  have hlast {d : Deferred} {l : List Deferred} : d ∈ l ++ [d] := List.mem_append_right _ (List.mem_singleton_self d)
  have herase {d : Deferred} {i : Nat} (hd : d.slot = some i) :
      ∀ x ∈ o.callbacks, x.slot = none → x ∈ o.callbacks.erase d := by
    intro x hx hs
    refine (List.mem_erase_of_ne fun he => ?_).mpr hx
    rw [he, hd] at hs
    cases hs
  have hgone {x : RaidObject} (hs : x.bdev.status = .unregistered) : x.Leaving := by
    refine ⟨fun cb hcb => ?_, fun cb hcb => ?_⟩
    · cases hs.symm.trans hcb
    · cases hs.symm.trans hcb
  cases m with
  | filled hb hstops hs =>
    rcases hb.outcome with ⟨-, hstatus, -, n, hn⟩ | ⟨-, hready, -, ⟨n, hn⟩, -⟩
    · exact h.keep hstatus (hn ▸ happend)
    · refine ⟨fun cb hcb => ?_, fun cb hcb => ?_⟩
      · cases hready.symm.trans hcb
      · cases hready.symm.trans hcb
  | resized hb => exact h.keep hb.status hsame
  | scheduled hf => exact h
  | closed hf hs hd => exact h.keep rfl hsame
  | closedLast hf hs hd => exact h.keep rfl hsame
  | offline hf hs hm hb => exact hgoes rfl hlast
  | offlineBusy hf hs hm hb => exact h.keep rfl hsame
  | quiesceRefused hf hs hm hrc => exact h.keep rfl hsame
  | quiescing hf hs hm hrc => exact h.keep rfl happend
  | deleteAgain hd => exact h
  | deleted hd hs => exact h.keep rfl hsame
  | deleteOffline hd hn hs hb => exact hgoes rfl hlast
  | deleteBusy hd hn hs hb => exact h.keep rfl hsame
  | destructStops hr =>
    exact ⟨fun cb hcb => absurd hcb (destroy_cases _ cb).1, fun _ _ => .inl hlast⟩
  | @destruct rc n hr =>
    have hb := ((o.took .destruct).destructed shutdown n).stopDone_bdev
    have hstate {cb : Option Nat} (hcb : o.bdev.status.destroy = .destructing cb) :
        ((o.took .destruct).destructed shutdown n).bdev.state ≠ .configuring := by
      intro hc
      have hc : (if shutdown = true then .offline else o.bdev.state) = RaidBdevState.configuring := hc
      split at hc
      · cases hc
      · have hyoung := hst.young hc
        rcases (destroy_cases o.bdev.status cb).2 hcb with hs | hs
        · cases hyoung.symm.trans hs
        · cases hyoung.symm.trans hs
    refine ⟨fun cb hcb => ?_, fun cb hcb => .inr ?_⟩
    · rw [hb] at hcb
      exact absurd hcb (destroy_cases o.bdev.status cb).1
    · rw [hb] at hcb
      unfold RaidObject.stopDone
      rw [if_pos (hstate hcb)]
      exact hlast
  | stopDone hr =>
    have hb := (o.took .moduleStopDone).stopDone_bdev
    obtain ⟨l, hl, -⟩ := (o.took .moduleStopDone).stopDone_callbacks
    refine ⟨fun cb hcb => ?_, fun cb hcb => .inr ?_⟩
    · rw [hb] at hcb
      rw [hl]
      exact List.mem_append_left _ ((List.mem_erase_of_ne (by decide)).mpr (h.unregistering cb hcb))
    · rw [hb] at hcb
      have hstate : (o.took .moduleStopDone).bdev.state ≠ .configuring := by
        intro hc
        cases (hst.young hc).symm.trans hcb
      unfold RaidObject.stopDone
      rw [if_pos hstate]
      exact hlast
  | unregistered hr hd => exact hgone rfl
  | unregisteredLast hr hd => exact hgone rfl
  | quiesceFailed hr hrc => exact h.keep rfl (herase rfl)
  | quiesced hr hrc => exact h.keep rfl fun d hd hs => List.mem_append_left _ (herase rfl d hd hs)
  | visited hr => exact h.keep rfl fun d hd hs => List.mem_append_left _ (herase rfl d hd hs)
  | allVisited hr hrc => exact h.keep rfl fun d hd hs => List.mem_append_left _ (herase rfl d hd hs)
  | unquiesceRefused hr hrc => exact h.keep rfl (herase rfl)
  | unquiesceFailed hr hrc => exact h.keep rfl (herase rfl)
  | unquiesced hr hrc => exact h.keep rfl (herase rfl)
  | channelFailed => exact h
  | channelCreated ht ho hc => exact h.keep rfl hsame
  | channelDestroyed => exact h.keep rfl hsame
  | unregister hs hb => exact hgoes rfl hlast

end

end

/-! ## What an event can be about -/

/-- An act on a raid bdev that is not looked up: SPDK holds on to it. -/
def Act.Enabled (threads : List Nat) (o : RaidObject) : Act → Prop
  | .callback d _ => o.Ready threads d
  | .channelCreate _ _ => o.Open = true
  | .channelDestroy thread => (o.channels thread).isSome = true
  | .unregister _ => o.bdev.status = .ready
  | _ => False

theorem Act.Enabled.ne_blank {threads : List Nat} {o : RaidObject} {a : Act} (h : a.Enabled threads o) : o ≠ .blank := by
  intro ho
  subst ho
  cases a with
  | callback d rc => exact absurd h.1 List.not_mem_nil
  | channelCreate | channelDestroy | unregister => cases h
  | fill | remove | resize | delete => exact h

section

variable {threads : List Nat} {s t : State} {e : Event} {r i b q : Nat} {a : Act}

theorem find_listed (h : s.raidBdevFindBaseInfoByBdev b = some (r, i)) :
    r ∈ s.gRaidBdevList ∧ (s.info r i).desc = some b := by
  obtain ⟨x, hx, h⟩ := List.exists_of_findSome?_eq_some h
  obtain ⟨j, hj, h⟩ := Option.map_eq_some_iff.mp h
  obtain ⟨rfl, rfl⟩ := Prod.mk.inj h
  refine ⟨hx, ?_⟩
  obtain ⟨hlt, hdesc, -⟩ := List.findIdx?_eq_some_iff_getElem.mp hj
  rw [info_eq, RaidBdev.slot_eq_getElem hlt]
  exact eq_of_beq hdesc

/-- Where the raid bdev of an act comes from. -/
theorem target_origin (h : step threads s e = some t) (htarget : s.target e = some (r, a)) :
    a.Within (s.mem r) ∧ (r ∈ s.gRaidBdevList ∨ (∃ p, s.rpc = some p ∧ r = p.raid) ∨ a.Enabled threads (s.mem r)) := by
  have hremove {b : Nat} {cb : Option Nat} {rc : Int}
      (h : (s.raidBdevFindBaseInfoByBdev b).map (fun slot => (slot.1, Act.remove slot.2 cb rc)) = some (r, a)) :
      a.Within (s.mem r) ∧ r ∈ s.gRaidBdevList := by
    obtain ⟨⟨x, i⟩, hfind, h⟩ := Option.map_eq_some_iff.mp h
    obtain ⟨rfl, rfl⟩ := Prod.mk.inj h
    obtain ⟨hmem, hdesc⟩ := find_listed hfind
    exact ⟨RaidBdev.lt_of_desc hdesc, hmem⟩
  have hidle (hn : ∀ a, e ≠ .rpcCreateAdd a) (hn' : e ≠ .rpcCreateFail) : stepIdle threads s e = some t := by
    unfold step at h
    split at h
    · exact h
    · split at h
      · exact absurd rfl hn'
      · exact absurd rfl (hn _)
      · cases h
  cases e with
  | rpcCreateAdd a' | rpcCreateFail =>
    obtain ⟨p, hp, h⟩ := Option.map_eq_some_iff.mp htarget
    obtain ⟨rfl, rfl⟩ := Prod.mk.inj h
    exact ⟨trivial, .inr (.inl ⟨p, hp, rfl⟩)⟩
  | rpcDelete request name =>
    obtain ⟨x, hfind, h⟩ := Option.map_eq_some_iff.mp htarget
    obtain ⟨rfl, rfl⟩ := Prod.mk.inj h
    exact ⟨trivial, .inl (List.mem_of_find?_eq_some hfind)⟩
  | rpcRemove request name openRc quiesceRc =>
    obtain ⟨-, h⟩ := Option.ite_none_right_eq_some.mp htarget
    obtain ⟨slot, hfind, h⟩ := Option.map_eq_some_iff.mp h
    obtain ⟨b, -, hfind⟩ := Option.bind_eq_some_iff.mp hfind
    obtain ⟨hin, hmem⟩ := hremove (b := b) (Option.map_eq_some_iff.mpr ⟨slot, hfind, h⟩)
    exact ⟨hin, .inl hmem⟩
  | remove b cb quiesceRc =>
    obtain ⟨hin, hmem⟩ := hremove htarget
    exact ⟨hin, .inl hmem⟩
  | resize b notifyRc =>
    obtain ⟨slot, hfind, h⟩ := Option.map_eq_some_iff.mp htarget
    obtain ⟨rfl, rfl⟩ := Prod.mk.inj h
    exact ⟨trivial, .inl (find_listed hfind).1⟩
  | callback x d rc =>
    obtain ⟨rfl, rfl⟩ := Prod.mk.inj (Option.some.inj htarget)
    obtain ⟨hr, -⟩ := Option.ite_none_right_eq_some.mp (hidle (by simp) (by simp))
    exact ⟨trivial, .inr (.inr hr)⟩
  | channelCreate x thread ok =>
    obtain ⟨rfl, rfl⟩ := Prod.mk.inj (Option.some.inj htarget)
    obtain ⟨hc, -⟩ := Option.ite_none_right_eq_some.mp (hidle (by simp) (by simp))
    exact ⟨trivial, .inr (.inr hc.2.2)⟩
  | channelDestroy x thread =>
    obtain ⟨rfl, rfl⟩ := Prod.mk.inj (Option.some.inj htarget)
    obtain ⟨hc, -⟩ := Option.ite_none_right_eq_some.mp (hidle (by simp) (by simp))
    exact ⟨trivial, .inr (.inr hc)⟩
  | bdevUnregister x cb =>
    obtain ⟨rfl, rfl⟩ := Prod.mk.inj (Option.some.inj htarget)
    obtain ⟨hc, -⟩ := Option.ite_none_right_eq_some.mp (hidle (by simp) (by simp))
    exact ⟨trivial, .inr (.inr hc.2)⟩
  | rpcCreate | examine | finiStart | bdevs | claimOther | releaseOther => cases htarget

end

/-! ## The module -/

/-- What holds of the raid bdevs in every state. -/
structure State.Steady (s : State) : Prop where
  blank : ∀ r, s.next ≤ r → s.mem r = .blank
  mem : ∀ r, (s.mem r).Steady ∧ (s.mem r).Leaving

section

variable {threads : List Nat} {s t : State} {e : Event} {r : Nat} {a : Act}

/-- A raid bdev in memory that is new, or was never handed out. -/
theorem new_steady {o : RaidObject} (hc : o.callbacks = []) (hs : o.bdev.status = .unregistered) : o.Steady ∧ o.Leaving := by
  refine ⟨⟨fun i => ?_, fun _ => hs⟩, ⟨fun cb hcb => ?_, fun cb hcb => ?_⟩⟩
  · rw [RaidObject.removals, hc]
    exact Nat.zero_le _
  · cases hs.symm.trans hcb
  · cases hs.symm.trans hcb

theorem target_lt (hs : Accounts s) (hst : s.Steady) (h : step threads s e = some t)
    (htarget : s.target e = some (r, a)) : r < s.next := by
  obtain ⟨-, hr | ⟨p, hp, rfl⟩ | hen⟩ := target_origin h htarget
  · exact hs.acct.listed r hr
  · exact (hs.serving p hp).raid
  · by_contra hle
    exact hen.ne_blank (hst.blank r (Nat.le_of_not_lt hle))

/-- Every step keeps the raid bdevs steady. -/
theorem State.Steady.step (hst : s.Steady) (hs : Accounts s) (h : step threads s e = some t) : t.Steady := by
  cases step_moves hs h with
  | @act r a out extra htarget hkept hmem hmove =>
    have hr := target_lt hs hst h htarget
    refine ⟨fun x hx => ?_, fun x => ?_⟩
    · rw [hkept.next] at hx
      rw [hmem x (by omega)]
      exact hst.blank x hx
    · by_cases hxr : x = r
      · rw [hxr]
        obtain ⟨hsteady, hleaving⟩ := hst.mem r
        exact ⟨hsteady.move hmove (target_origin h htarget).1, hleaving.move hsteady hmove⟩
      · rw [hmem x hxr]
        exact hst.mem x
  | idle htarget hkept hmem =>
    refine ⟨fun x hx => ?_, fun x => ?_⟩
    · rw [hmem]
      exact hst.blank x (hkept.next ▸ hx)
    · rw [hmem]
      exact hst.mem x
  | examined htarget hrequest hkept hmem =>
    refine ⟨fun x hx => ?_, fun x => ?_⟩
    · rw [hkept.next] at hx
      rcases hmem x with heq | ⟨hlist, -⟩
      · rw [heq]
        exact hst.blank x hx
      · exact absurd (hs.acct.listed x hlist) (by omega)
    · rcases hmem x with heq | ⟨-, ⟨i, hwait⟩, hbuilt, hstops⟩
      · rw [heq]
        exact hst.mem x
      · have m : Move threads true (s.mem x) .fill (t.mem x) [] := .filled hbuilt hstops hwait.state
        obtain ⟨hsteady, hleaving⟩ := hst.mem x
        exact ⟨hsteady.move m trivial, hleaving.move hsteady m⟩
  | @created request req alloc b he hmake hname heq =>
    subst heq
    have hold {x : Nat} (hx : x ≠ s.next) : (s.created b).mem x = s.mem x := Function.update_of_ne hx _ _
    refine ⟨fun x hx => ?_, fun x => ?_⟩
    · have hx : s.next + 1 ≤ x := hx
      exact (hold (by omega)).trans (hst.blank x (by omega))
    · by_cases hx : x = s.next
      · subst hx
        have hnew : (s.created b).mem s.next = { bdev := b } := Function.update_self _ _ _
        show ((s.created b).mem s.next).Steady ∧ ((s.created b).mem s.next).Leaving
        rw [hnew]
        exact new_steady rfl (by rw [(make_eq hmake).1])
      · show ((s.created b).mem x).Steady ∧ ((s.created b).mem x).Leaving
        rw [hold hx]
        exact hst.mem x

theorem steady_init (names : String → Option Nat) (bdevs : Nat → Bdev) (claimed : Nat → Bool) :
    (State.init names bdevs claimed).Steady := ⟨fun _ _ => rfl, fun _ => new_steady rfl rfl⟩

theorem run_steady {s₀ : State} (hst : s₀.Steady) (hs : Accounts s₀) {es : List Event}
    (h : Lib.exec (step threads) s₀ es = some s) : s.Steady := by
  induction es generalizing s₀ with
  | nil =>
    obtain rfl := Option.some.inj h
    exact hst
  | cons e es ih =>
    obtain ⟨u, hu, hrest⟩ := Option.bind_eq_some_iff.mp h
    exact ih (hst.step hs hu) (accounts_step hs hu) hrest

end

end FlexBSO.Raid

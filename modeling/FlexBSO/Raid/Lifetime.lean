import FlexBSO.Raid.Steady

/- The life of a raid bdev in runs where it is asked for one thing at a time
   (`Orderly`): a base bdev is removed, or the raid bdev deleted, when the callbacks of
   what was asked before are through. It is then in one of seven stages (`Life`), each
   with the callbacks it can have, and every step leads from a stage to a stage. So a
   raid bdev is freed at most once, nothing reaches it afterwards, and an online one
   keeps the base bdevs its level needs. -/
namespace FlexBSO.Raid

open State

/-! ## The guard -/

/-- The raid bdev is done with what it was asked before. -/
def Act.Orderly (o : RaidObject) : Act → Prop
  | .remove i _ _ => (o.bdev.slot i).removeScheduled = true ∨ o.callbacks = []
  | .delete _ => o.bdev.destroyStarted = true ∨ o.callbacks = []
  | .unregister _ => o.callbacks = []
  | _ => True

instance (o : RaidObject) : ∀ a : Act, Decidable (a.Orderly o)
  | .remove _ _ _ => inferInstanceAs (Decidable (_ ∨ _))
  | .delete _ => inferInstanceAs (Decidable (_ ∨ _))
  | .unregister _ => inferInstanceAs (Decidable (_ = _))
  | .fill | .resize | .callback _ _ | .channelCreate _ _ | .channelDestroy _ => isTrue trivial

/-- A raid bdev is asked for one thing at a time. -/
def Orderly (s : State) (e : Event) : Prop := ∀ p ∈ s.target e, p.2.Orderly (s.mem p.1)

instance (s : State) (e : Event) : Decidable (Orderly s e) := by
  unfold Orderly
  exact inferInstance

/-! ## The stages -/

/-- Configuring. A stop of the module may be under way once all slots have been filled. -/
structure Young (o : RaidObject) : Prop where
  live : o.freed = 0
  state : o.bdev.state = .configuring
  io : o.ioDevice = false
  channels : ∀ t, o.channels t = none
  callbacks : ∀ d ∈ o.callbacks, d = .moduleStopDone
  full : o.callbacks ≠ [] → o.bdev.NoneWaiting
  destroy : o.bdev.destroyStarted = false

/-- Online, with at most one removal under way and a base bdev to spare for it. -/
structure Online (o : RaidObject) : Prop where
  live : o.freed = 0
  state : o.bdev.state = .online
  status : o.bdev.status = .ready
  io : o.ioDevice = true
  callbacks : o.callbacks = [] ∨ ∃ d, o.callbacks = [d] ∧ d.slot ≠ none
  enough : o.bdev.minBaseBdevsOperational ≤ o.bdev.numBaseBdevsDiscovered
  spare : o.callbacks ≠ [] → o.bdev.minBaseBdevsOperational < o.bdev.numBaseBdevsDiscovered
  destroy : o.bdev.destroyStarted = false

/-- Handed to the bdev layer to unregister. One that is deleted has all its slots scheduled. -/
structure Unregistering (shutdown : Bool) (o : RaidObject) : Prop where
  live : o.freed = 0
  state : o.bdev.state = .offline ∨ (o.bdev.state = .online ∧ shutdown = true ∧
    o.bdev.minBaseBdevsOperational ≤ o.bdev.numBaseBdevsDiscovered)
  status : ∃ cb, o.bdev.status = .unregistering cb
  io : o.ioDevice = true
  callbacks : o.callbacks = [.destruct]
  doomed : o.bdev.destroyStarted = true → ∀ i < o.bdev.numBaseBdevs, (o.bdev.slot i).removeScheduled = true

/-- Destructed by the bdev layer; what is left to do is callback `d`. -/
structure Destructing (d : Deferred) (o : RaidObject) : Prop where
  live : o.freed = 0
  state : o.bdev.state = .offline
  status : ∃ cb, o.bdev.status = .destructing cb
  io : d = .ioDeviceUnregister → o.ioDevice = false
  callbacks : o.callbacks = [d]
  channels : ∀ t, o.channels t = none
  doomed : o.bdev.destroyStarted = true → o.bdev.numBaseBdevsDiscovered = 0

/-- Offline and unregistered, with base bdevs left. -/
structure Down (o : RaidObject) : Prop where
  live : o.freed = 0
  state : o.bdev.state = .offline
  status : o.bdev.status = .unregistered
  io : o.ioDevice = false
  callbacks : o.callbacks = []
  channels : ∀ t, o.channels t = none
  left : o.bdev.numBaseBdevsDiscovered ≠ 0
  destroy : o.bdev.destroyStarted = false

/-- Freed. -/
structure Gone (o : RaidObject) : Prop where
  freed : o.freed = 1
  state : o.bdev.state ≠ .online
  status : o.bdev.status = .unregistered
  io : o.ioDevice = false
  callbacks : o.callbacks = []
  channels : ∀ t, o.channels t = none
  empty : o.bdev.numBaseBdevsDiscovered = 0

inductive Life (shutdown : Bool) (o : RaidObject) : Prop where
  | young (h : Young o)
  | online (h : Online o)
  | unregistering (h : Unregistering shutdown o)
  | stopping (h : Destructing .moduleStopDone o)
  | closing (h : Destructing .ioDeviceUnregister o)
  | down (h : Down o)
  | gone (h : Gone o)

/-- What does not change in a raid bdev's life, and where its channels are. -/
structure Standing (threads : List Nat) (o : RaidObject) : Prop where
  cleaned : o.cleaned = o.freed
  needs : 0 < o.bdev.minBaseBdevsOperational
  room : o.bdev.minBaseBdevsOperational ≤ o.bdev.numBaseBdevs
  channels : ∀ t, t ∉ threads → o.channels t = none

section

variable {threads : List Nat} {shutdown shutdown' : Bool} {o o' : RaidObject} {a : Act} {out : List (Nat × Int)} {d : Deferred}

theorem Life.mono (h : Life shutdown o) (hs : shutdown = true → shutdown' = true) : Life shutdown' o := by
  cases h with
  | unregistering h =>
    refine .unregistering ⟨h.live, ?_, h.status, h.io, h.callbacks, h.doomed⟩
    rcases h.state with hoff | ⟨hon, hshut, henough⟩
    · exact .inl hoff
    · exact .inr ⟨hon, hs hshut, henough⟩
  | young h => exact .young h
  | online h => exact .online h
  | stopping h => exact .stopping h
  | closing h => exact .closing h
  | down h => exact .down h
  | gone h => exact .gone h

/-- No callback to come. -/
theorem Life.idle (h : Life shutdown o) (hl : o.freed = 0) (hc : o.callbacks = []) : Young o ∨ Online o ∨ Down o := by
  cases h with
  | young h => exact .inl h
  | online h => exact .inr (.inl h)
  | down h => exact .inr (.inr h)
  | unregistering h => cases hc.symm.trans h.callbacks
  | stopping h | closing h => cases hc.symm.trans h.callbacks
  | gone h => cases hl.symm.trans h.freed

theorem Life.of_destruct (h : Life shutdown o) (hd : .destruct ∈ o.callbacks) : Unregistering shutdown o := by
  cases h with
  | unregistering h => exact h
  | young h => cases h.callbacks _ hd
  | online h =>
    rcases h.callbacks with hc | ⟨d, hc, hs⟩
    · rw [hc] at hd
      cases hd
    · rw [hc] at hd
      rw [← List.mem_singleton.mp hd] at hs
      exact absurd rfl hs
  | stopping h | closing h =>
    rw [h.callbacks] at hd
    cases List.mem_singleton.mp hd
  | down h | gone h =>
    rw [h.callbacks] at hd
    cases hd

theorem Life.of_stopDone (h : Life shutdown o) (hd : .moduleStopDone ∈ o.callbacks) : Young o ∨ Destructing .moduleStopDone o := by
  cases h with
  | young h => exact .inl h
  | stopping h => exact .inr h
  | online h =>
    rcases h.callbacks with hc | ⟨d, hc, hs⟩
    · rw [hc] at hd
      cases hd
    · rw [hc] at hd
      rw [← List.mem_singleton.mp hd] at hs
      exact absurd rfl hs
  | unregistering h | closing h =>
    rw [h.callbacks] at hd
    cases List.mem_singleton.mp hd
  | down h | gone h =>
    rw [h.callbacks] at hd
    cases hd

theorem Life.of_ioDeviceUnregister (h : Life shutdown o) (hd : .ioDeviceUnregister ∈ o.callbacks) :
    Destructing .ioDeviceUnregister o := by
  cases h with
  | closing h => exact h
  | young h => cases h.callbacks _ hd
  | online h =>
    rcases h.callbacks with hc | ⟨d, hc, hs⟩
    · rw [hc] at hd
      cases hd
    · rw [hc] at hd
      rw [← List.mem_singleton.mp hd] at hs
      exact absurd rfl hs
  | unregistering h | stopping h =>
    rw [h.callbacks] at hd
    cases List.mem_singleton.mp hd
  | down h | gone h =>
    rw [h.callbacks] at hd
    cases hd

/-- The callback of a removal is the only one. -/
theorem Life.of_removal (h : Life shutdown o) (hd : d ∈ o.callbacks) (hs : d.slot ≠ none) : Online o ∧ o.callbacks = [d] := by
  cases h with
  | online h =>
    refine ⟨h, ?_⟩
    rcases h.callbacks with hc | ⟨x, hc, -⟩
    · rw [hc] at hd
      cases hd
    · rw [hc] at hd ⊢
      rw [List.mem_singleton.mp hd]
  | young h =>
    rw [h.callbacks _ hd] at hs
    exact absurd rfl hs
  | unregistering h | stopping h | closing h =>
    rw [h.callbacks] at hd
    rw [List.mem_singleton.mp hd] at hs
    exact absurd rfl hs
  | down h | gone h =>
    rw [h.callbacks] at hd
    cases hd

/-- A raid bdev that is configuring -/
theorem Life.of_configuring (h : Life shutdown o) (hl : o.freed = 0) (hs : o.bdev.state = .configuring) : Young o := by
  cases h with
  | young h => exact h
  | online h => cases hs.symm.trans h.state
  | unregistering h =>
    rcases h.state with hoff | ⟨hon, -, -⟩
    · cases hs.symm.trans hoff
    · cases hs.symm.trans hon
  | stopping h | closing h => cases hs.symm.trans h.state
  | down h => cases hs.symm.trans h.state
  | gone h => cases hl.symm.trans h.freed

/-- SPDK holds on to no raid bdev that was freed. -/
theorem Life.live_of_enabled (h : Life shutdown o) (he : a.Enabled threads o) : o.freed = 0 := by
  cases h with
  | gone h =>
    cases a with
    | callback d rc =>
      have hd := he.1
      rw [h.callbacks] at hd
      cases hd
    | channelCreate thread ok =>
      have ho : (o.ioDevice && _) = true := he
      rw [h.io] at ho
      cases ho
    | channelDestroy thread =>
      have hc : (o.channels thread).isSome = true := he
      rw [h.channels thread] at hc
      cases hc
    | unregister cb => cases h.status.symm.trans he
    | fill | remove | resize | delete => exact absurd he id
  | young h => exact h.live
  | online h => exact h.live
  | unregistering h => exact h.live
  | stopping h | closing h => exact h.live
  | down h => exact h.live

/-! ## From stage to stage -/

theorem took_single (hc : o.callbacks = [d]) : (o.took d).callbacks = [] := by
  show o.callbacks.erase d = []
  rw [hc, List.erase_cons_head]

theorem RaidBdev.opened_map_zero {b : RaidBdev} {g : RaidBaseBdevInfo → RaidBaseBdevInfo}
    (h : ∀ i < b.numBaseBdevs, (g (b.slot i)).desc = none) {b' : RaidBdev} (hb : b'.baseBdevInfo = b.baseBdevInfo.map g) :
    b'.opened = 0 := by
  rw [RaidBdev.opened, hb, List.countP_eq_zero]
  intro info hinfo
  obtain ⟨x, hx, rfl⟩ := List.mem_map.mp hinfo
  obtain ⟨i, hi, rfl⟩ := RaidBdev.exists_slot hx
  rw [h i hi]
  exact Bool.false_ne_true

/-- Slots are filled; with the last one the raid bdev may go online. -/
theorem Young.filled (h : Young o) (hc : o.callbacks = []) (hst : Standing threads o) (hb : o.Built o')
    (hstops : o.Stops o') (hacc : o'.bdev.Accounted) : Life shutdown o' := by
  rcases hb.outcome with ⟨hstate, -, hio, n, hn⟩ | ⟨honline, hready, hio, -, hfull⟩
  · refine .young ⟨hb.freed.trans h.live, hstate.trans h.state, hio.trans h.io, fun t => ?_, fun d hd => ?_, fun hne i _ => ?_,
      hb.bdev.destroyStarted.trans h.destroy⟩
    · rw [hb.channels]
      exact h.channels t
    · rw [hn, hc] at hd
      exact (List.mem_replicate.mp hd).2
    · rcases hstops with hsame | ⟨-, hfull⟩
      · exact absurd (hsame.trans hc) hne
      · by_cases hi : i < o'.bdev.numBaseBdevs
        · intro hd
          have hsome := hfull _ (RaidBdev.slot_mem hi)
          rw [hd] at hsome
          cases hsome
        · next hname =>
          rw [RaidBdev.slot_of_ge (Nat.le_of_not_lt hi)] at hname
          exact absurd rfl hname
  · have hcallbacks : o'.callbacks = [] := by
      rcases hstops with hsame | ⟨hconf, -⟩
      · exact hsame.trans hc
      · cases hconf.symm.trans honline
    have henough : o'.bdev.minBaseBdevsOperational ≤ o'.bdev.numBaseBdevsDiscovered := by
      rw [hacc.count, RaidBdev.opened_eq_iff.mpr hfull, hb.bdev.min, hb.bdev.numBaseBdevs]
      exact hst.room
    exact .online ⟨hb.freed.trans h.live, honline, hready, hio, .inl hcallbacks, henough, fun hne => absurd hcallbacks hne,
      hb.bdev.destroyStarted.trans h.destroy⟩

/-- The geometry of the raid bdev changes. -/
theorem Life.resized {b : RaidBdev} (h : Life shutdown o) (hb : o.bdev.SameLife b) : Life shutdown (o.modBdev fun _ => b) := by
  have hflag (i : Nat) : (b.slot i).removeScheduled = (o.bdev.slot i).removeScheduled := congrArg (fun c => c.2.2.1) (hb.content i)
  have hname (i : Nat) : (b.slot i).name = (o.bdev.slot i).name := congrArg Prod.fst (hb.content i)
  have henough : o.bdev.minBaseBdevsOperational ≤ o.bdev.numBaseBdevsDiscovered →
      b.minBaseBdevsOperational ≤ b.numBaseBdevsDiscovered := by
    rw [hb.min, hb.discovered]
    exact id
  cases h with
  | young h =>
    refine .young ⟨h.live, hb.state.trans h.state, h.io, h.channels, h.callbacks, fun hne i hi => ?_, hb.destroyStarted.trans h.destroy⟩
    have hn : (b.slot i).name ≠ none := hi
    rw [hname] at hn
    show (b.slot i).desc ≠ none
    rw [hb.desc]
    exact h.full hne i hn
  | online h =>
    refine .online ⟨h.live, hb.state.trans h.state, hb.status.trans h.status, h.io, h.callbacks, henough h.enough, fun hne => ?_,
      hb.destroyStarted.trans h.destroy⟩
    show b.minBaseBdevsOperational < b.numBaseBdevsDiscovered
    rw [hb.min, hb.discovered]
    exact h.spare hne
  | unregistering h =>
    refine .unregistering ⟨h.live, h.state.imp hb.state.trans fun hon => ⟨hb.state.trans hon.1, hon.2.1, henough hon.2.2⟩,
      h.status.imp fun cb hcb => hb.status.trans hcb, h.io, h.callbacks, fun hd i hi => ?_⟩
    have hi : i < b.numBaseBdevs := hi
    rw [hb.numBaseBdevs] at hi
    exact (hflag i).trans (h.doomed (hb.destroyStarted.symm.trans hd) i hi)
  | stopping h =>
    exact .stopping ⟨h.live, hb.state.trans h.state, h.status.imp fun cb hcb => hb.status.trans hcb, h.io, h.callbacks, h.channels,
      fun hd => hb.discovered.trans (h.doomed (hb.destroyStarted.symm.trans hd))⟩
  | closing h =>
    exact .closing ⟨h.live, hb.state.trans h.state, h.status.imp fun cb hcb => hb.status.trans hcb, h.io, h.callbacks, h.channels,
      fun hd => hb.discovered.trans (h.doomed (hb.destroyStarted.symm.trans hd))⟩
  | down h =>
    refine .down ⟨h.live, hb.state.trans h.state, hb.status.trans h.status, h.io, h.callbacks, h.channels, fun hz => ?_,
      hb.destroyStarted.trans h.destroy⟩
    exact h.left (hb.discovered.symm.trans hz)
  | gone h =>
    refine .gone ⟨h.freed, ?_, hb.status.trans h.status, h.io, h.callbacks, h.channels, hb.discovered.trans h.empty⟩
    show b.state ≠ .online
    rw [hb.state]
    exact h.state

/-- A slot is closed while the raid bdev is not online: what is left of it, if it is not the last one. -/
theorem Life.closed {i : Nat} {cb : Option Nat} (h : Life shutdown o) (hl : o.freed = 0) (hc : o.callbacks = [])
    (hs : o.bdev.state ≠ .online) (hd : (o.closed i cb).bdev.numBaseBdevsDiscovered ≠ 0) : Life shutdown (o.closed i cb) := by
  rcases h.idle hl hc with h | h | h
  · exact .young ⟨h.live, h.state, h.io, h.channels, h.callbacks, fun hne => absurd hc hne, h.destroy⟩
  · exact absurd h.state hs
  · exact .down ⟨h.live, h.state, h.status, h.io, h.callbacks, h.channels, hd, h.destroy⟩

/-- The raid bdev is freed. -/
theorem Life.disposed {x : RaidObject} (h : Life shutdown o) (hl : o.freed = 0) (hc : o.callbacks = []) (hst : o.Steady)
    (hs : o.bdev.state ≠ .online) (hstate : x.bdev.state = o.bdev.state) (hstatus : x.bdev.status = o.bdev.status) (hio : x.ioDevice = o.ioDevice)
    (hcallbacks : x.callbacks = o.callbacks) (hchannels : x.channels = o.channels) (hfreed : x.freed = o.freed)
    (hd : x.bdev.numBaseBdevsDiscovered = 0) : Life shutdown x.dispose := by
  have hone : x.freed + 1 = 1 := by rw [hfreed, hl]
  have hne : x.bdev.state ≠ .online := by
    rw [hstate]
    exact hs
  rcases h.idle hl hc with h | h | h
  · exact .gone ⟨hone, hne, hstatus.trans (hst.young h.state), hio.trans h.io, hcallbacks.trans hc,
      fun t => (congrFun hchannels t).trans (h.channels t), hd⟩
  · exact absurd h.state hs
  · exact .gone ⟨hone, hne, hstatus.trans h.status, hio.trans h.io, hcallbacks.trans hc,
      fun t => (congrFun hchannels t).trans (h.channels t), hd⟩

/-- The bdev layer has closed all channels and calls `destruct`. -/
theorem Unregistering.destructed {n : Nat} (h : Unregistering shutdown o) (hst : Standing threads o)
    (hr : o.Ready threads .destruct) (hacc : ((o.took .destruct).destructed shutdown n).bdev.Accounted) :
    let x := (o.took .destruct).destructed shutdown n
    x.freed = 0 ∧ x.bdev.state = .offline ∧ (∃ cb, x.bdev.status = .destructing cb) ∧ x.callbacks = [] ∧
      (∀ t, x.channels t = none) ∧ (x.bdev.destroyStarted = true → x.bdev.numBaseBdevsDiscovered = 0) := by
  refine ⟨h.live, ?_, ?_, took_single h.callbacks, fun t => ?_, fun hd => ?_⟩
  · show (if shutdown then RaidBdevState.offline else o.bdev.state) = .offline
    rcases h.state with hoff | ⟨-, hshut, -⟩
    · rw [hoff, ite_self]
    · rw [hshut]
      rfl
  · obtain ⟨cb, hcb⟩ := h.status
    refine ⟨cb, ?_⟩
    show o.bdev.status.destroy = .destructing cb
    rw [hcb]
    rfl
  · by_cases ht : t ∈ threads
    · exact Option.isNone_iff_eq_none.mp (hr.2.1 rfl t ht)
    · exact hst.channels t ht
  · refine hacc.count.trans (RaidBdev.opened_map_zero (b := o.bdev) (fun i hi => ?_) rfl)
    unfold destructSlot
    rw [if_pos (.inr (h.doomed hd i hi))]
    rfl

/-- The level's module is done with the raid bdev, or has nothing to do. -/
theorem closing_stopDone (hl : o.freed = 0) (hs : o.bdev.state = .offline) (hstatus : ∃ cb, o.bdev.status = .destructing cb)
    (hc : o.callbacks = []) (hch : ∀ t, o.channels t = none)
    (hd : o.bdev.destroyStarted = true → o.bdev.numBaseBdevsDiscovered = 0) : Destructing .ioDeviceUnregister o.stopDone := by
  have hne : o.bdev.state ≠ .configuring := by
    rw [hs]
    exact fun h => by cases h
  have hcallbacks : o.callbacks ++ [.ioDeviceUnregister] = [.ioDeviceUnregister] := by
    rw [hc]
    rfl
  unfold RaidObject.stopDone
  rw [if_pos hne]
  exact ⟨hl, hs, hstatus, fun _ => rfl, hcallbacks, hch, hd⟩

/-- Every act that comes in order leads from a stage to a stage. -/
theorem Life.move (h : Life shutdown o) (hst : o.Steady) (hacc : o.bdev.Accounted) (hacc' : o'.bdev.Accounted)
    (hstand : Standing threads o) (m : Move threads shutdown o a o' out) (hord : a.Orderly o)
    (hfill : a = .fill → o.callbacks = []) (hl : o.freed = 0) : Life shutdown o' := by
  -- a slot that is not scheduled is removed when no callback is to come
  have hidle {i : Nat} (hf : (o.bdev.slot i).removeScheduled = false)
      (h : (o.bdev.slot i).removeScheduled = true ∨ o.callbacks = []) : o.callbacks = [] := by
    rcases h with hs | hc
    · cases hf.symm.trans hs
    · exact hc
  have honline (hs : o.bdev.state = .online) (hc : o.callbacks = []) : Online o := by
    rcases h.idle hl hc with hy | hon | hd
    · cases hs.symm.trans hy.state
    · exact hon
    · cases hs.symm.trans hd.state
  have hleft {P : Prop} (hon : Online o) (hz : o.bdev.numBaseBdevsDiscovered = 0) : P := by
    have henough := hon.enough
    have hneeds := hstand.needs
    omega
  -- the callback of a removal makes place for the next one, or none
  have hstep {d d' : Deferred} {i : Nat} (hd : d ∈ o.callbacks) (hs : d.slot = some i) (hs' : d'.slot = some i)
      (hx : o'.freed = o.freed ∧ o'.bdev = o.bdev ∧ o'.ioDevice = o.ioDevice)
      (hcb : o'.callbacks = (o.took d).callbacks ++ [d']) : Life shutdown o' := by
    have hsome {x : Deferred} (hx : x.slot = some i) : x.slot ≠ none := by
      rw [hx]
      exact Option.some_ne_none i
    obtain ⟨hon, hc⟩ := h.of_removal hd (hsome hs)
    have hcb' : o'.callbacks = [d'] := by
      rw [hcb, took_single hc]
      rfl
    have hne : o.callbacks ≠ [] := List.ne_nil_of_mem hd
    obtain ⟨hfreed, hbdev, hio⟩ := hx
    exact .online ⟨hfreed.trans hon.live, hbdev ▸ hon.state, hbdev ▸ hon.status, hio.trans hon.io, .inr ⟨d', hcb', hsome hs'⟩,
      hbdev ▸ hon.enough, fun _ => hbdev ▸ hon.spare hne, hbdev ▸ hon.destroy⟩
  have hend {d : Deferred} {b : RaidBdev} (hd : d ∈ o.callbacks) (hs : d.slot ≠ none) (hstate : b.state = o.bdev.state)
      (hstatus : b.status = o.bdev.status) (hdestroy : b.destroyStarted = o.bdev.destroyStarted)
      (henough : b.minBaseBdevsOperational ≤ b.numBaseBdevsDiscovered) : Life shutdown ((o.took d).modBdev fun _ => b) := by
    obtain ⟨hon, hc⟩ := h.of_removal hd hs
    exact .online ⟨hon.live, hstate.trans hon.state, hstatus.trans hon.status, hon.io, .inl (took_single hc), henough,
      fun hne => absurd (took_single hc) hne, hdestroy.trans hon.destroy⟩
  have hchannels {f : Nat → Option (List (Option Nat))} (hf : ∀ t, o.channels t = none → f t = none) :
      Life shutdown { o with channels := f } := by
    cases h with
    | young h => exact .young ⟨h.live, h.state, h.io, fun t => hf t (h.channels t), h.callbacks, h.full, h.destroy⟩
    | online h => exact .online ⟨h.live, h.state, h.status, h.io, h.callbacks, h.enough, h.spare, h.destroy⟩
    | unregistering h => exact .unregistering ⟨h.live, h.state, h.status, h.io, h.callbacks, h.doomed⟩
    | stopping h =>
      exact .stopping ⟨h.live, h.state, h.status, h.io, h.callbacks, fun t => hf t (h.channels t), h.doomed⟩
    | closing h =>
      exact .closing ⟨h.live, h.state, h.status, h.io, h.callbacks, fun t => hf t (h.channels t), h.doomed⟩
    | down h =>
      exact .down ⟨h.live, h.state, h.status, h.io, h.callbacks, fun t => hf t (h.channels t), h.left, h.destroy⟩
    | gone h => exact .gone ⟨h.freed, h.state, h.status, h.io, h.callbacks, fun t => hf t (h.channels t), h.empty⟩
  have hclosing {x : RaidObject} (hx : Destructing .ioDeviceUnregister x) : Life shutdown x := .closing hx
  cases m with
  | filled hb hstops hs => exact (h.of_configuring hl hs).filled (hfill rfl) hstand hb hstops hacc'
  | resized hb => exact h.resized hb
  | scheduled hf => exact h
  | closed hf hs hd => exact h.closed hl (hidle hf hord) hs hd
  | @closedLast i cb rc hf hs hd =>
    exact h.disposed (x := o.closed i cb) hl (hidle hf hord) hst hs rfl rfl rfl rfl rfl rfl hd
  | offline hf hs hm hb =>
    have hc := hidle hf hord
    have hon := honline hs hc
    refine .unregistering ⟨hl, .inl rfl, ⟨_, rfl⟩, hon.io, ?_, fun hd => ?_⟩
    · show o.callbacks ++ [.destruct] = [.destruct]
      rw [hc]
      rfl
    · cases hon.destroy.symm.trans hd
  | offlineBusy hf hs hm hb =>
    rw [(honline hs (hidle hf hord)).status] at hb
    cases hb
  | quiesceRefused hf hs hm hrc =>
    have hc := hidle hf hord
    have hon := honline hs hc
    exact .online ⟨hl, hs, hon.status, hon.io, .inl hc, hon.enough, fun hne => absurd hc hne, hon.destroy⟩
  | @quiescing i cb rc hf hs hm hrc =>
    have hc := hidle hf hord
    have hon := honline hs hc
    have hcb : o.callbacks ++ [.quiesced i] = [.quiesced i] := by
      rw [hc]
      rfl
    refine .online ⟨hl, hs, hon.status, hon.io, .inr ⟨.quiesced i, hcb, Option.some_ne_none i⟩, hon.enough, fun _ => ?_, hon.destroy⟩
    exact Nat.lt_of_le_of_ne hon.enough (Ne.symm hm)
  | deleteAgain hd => exact h
  | deleted hd hs =>
    have hc : o.callbacks = [] := by
      rcases hord with hstart | hc
      · cases hd.symm.trans hstart
      · exact hc
    have hne : o.bdev.state ≠ .online := by
      rcases hs with hs | hz
      · exact hs
      · exact fun hs => hleft (honline hs hc) hz
    exact h.disposed (x := o.deleting 0) hl hc hst hne rfl rfl rfl rfl rfl rfl rfl
  | deleteOffline hd hn hs hb =>
    have hc : o.callbacks = [] := by
      rcases hord with hstart | hc
      · cases hd.symm.trans hstart
      · exact hc
    refine .unregistering ⟨hl, .inl rfl, ⟨_, rfl⟩, (honline hs hc).io, ?_, fun _ i hi => ?_⟩
    · show o.callbacks ++ [.destruct] = [.destruct]
      rw [hc]
      rfl
    · -- the loop schedules every slot
      have hi : i < (o.bdev.baseBdevInfo.map (deleteSlot o.bdev.state)).length := hi
      have hflag (info : RaidBaseBdevInfo) : (deleteSlot o.bdev.state info).removeScheduled = true := by
        unfold deleteSlot
        dsimp only
        split
        · rfl
        · rfl
      show ((o.bdev.baseBdevInfo.map (deleteSlot o.bdev.state)).getD i {}).removeScheduled = true
      rw [List.getD_eq_getElem _ _ hi, List.getElem_map]
      exact hflag _
  | deleteBusy hd hn hs hb =>
    have hc : o.callbacks = [] := by
      rcases hord with hstart | hc
      · cases hd.symm.trans hstart
      · exact hc
    rw [(honline hs hc).status] at hb
    cases hb
  | @destructStops rc n hr =>
    obtain ⟨hlive, hstate, hstatus, hc, hch, hd⟩ := (h.of_destruct hr.1).destructed hstand hr hacc'
    have hno {P : Prop} (he : Deferred.moduleStopDone = .ioDeviceUnregister) : P := by cases he
    refine .stopping ⟨hlive, hstate, hstatus, hno, ?_, hch, hd⟩
    show ((o.took .destruct).destructed shutdown n).callbacks ++ [.moduleStopDone] = [.moduleStopDone]
    rw [hc]
    rfl
  | @destruct rc n hr =>
    rw [RaidObject.stopDone_bdev] at hacc'
    obtain ⟨hlive, hstate, hstatus, hc, hch, hd⟩ := (h.of_destruct hr.1).destructed hstand hr hacc'
    exact hclosing (closing_stopDone hlive hstate hstatus hc hch hd)
  | stopDone hr =>
    rcases h.of_stopDone hr.1 with hy | hs
    · -- the module was stopped because the raid bdev could not be registered
      have hstop : (o.took .moduleStopDone).stopDone = o.took .moduleStopDone := if_neg (not_not_intro hy.state)
      rw [hstop]
      exact .young ⟨hl, hy.state, hy.io, hy.channels, fun d hd => hy.callbacks d (List.mem_of_mem_erase hd),
        fun _ => hy.full (List.ne_nil_of_mem hr.1), hy.destroy⟩
    · exact hclosing (closing_stopDone hl hs.state hs.status (took_single hs.callbacks) hs.channels hs.doomed)
  | unregistered hr hd =>
    have hs := h.of_ioDeviceUnregister hr.1
    refine .down ⟨hl, hs.state, rfl, hs.io rfl, took_single hs.callbacks, hs.channels, hd, ?_⟩
    cases hstart : o.bdev.destroyStarted with
    | false => exact hstart
    | true => exact absurd (hs.doomed hstart) hd
  | unregisteredLast hr hd =>
    have hs := h.of_ioDeviceUnregister hr.1
    have hone : o.freed + 1 = 1 := by rw [hl]
    have hne : o.bdev.state ≠ .online := by
      rw [hs.state]
      exact fun h => by cases h
    exact .gone ⟨hone, hne, rfl, hs.io rfl, took_single hs.callbacks, hs.channels, hd⟩
  | quiesceFailed hr hrc => exact hend hr.1 (Option.some_ne_none _) rfl rfl rfl (h.of_removal hr.1 (Option.some_ne_none _)).1.enough
  | quiesced hr hrc => exact hstep hr.1 rfl rfl ⟨rfl, rfl, rfl⟩ rfl
  | visited hr => exact hstep hr.1 rfl rfl ⟨rfl, rfl, rfl⟩ rfl
  | allVisited hr hrc => exact hstep hr.1 rfl rfl ⟨rfl, rfl, rfl⟩ rfl
  | unquiesceRefused hr hrc => exact hend hr.1 (Option.some_ne_none _) rfl rfl rfl (h.of_removal hr.1 (Option.some_ne_none _)).1.enough
  | unquiesceFailed hr hrc => exact hend hr.1 (Option.some_ne_none _) rfl rfl rfl (h.of_removal hr.1 (Option.some_ne_none _)).1.enough
  | @unquiesced i rc hr hrc =>
    refine hend hr.1 (Option.some_ne_none _) rfl rfl rfl ?_
    -- there was one to spare
    have hspare := (h.of_removal hr.1 (Option.some_ne_none _)).1.spare (List.ne_nil_of_mem hr.1)
    have hopened := (o.bdev.modSlot i cancelSlot).opened_freeSlot (i := i)
    have hsame : (o.bdev.modSlot i cancelSlot).opened = o.bdev.opened := 
      (RaidBdev.quiet_modSlot (f := cancelSlot) fun _ => ⟨rfl, rfl⟩).opened
    have hcount : ((o.bdev.modSlot i cancelSlot).freeSlot i).numBaseBdevsDiscovered =
      ((o.bdev.modSlot i cancelSlot).freeSlot i).opened := hacc'.count
    have hone : (if ((o.bdev.modSlot i cancelSlot).slot i).desc.isSome = true then 1 else 0) ≤ 1 := by
      split
      · exact Nat.le_refl _
      · exact Nat.zero_le _
    have hdisc := hacc.count
    show o.bdev.minBaseBdevsOperational ≤ ((o.bdev.modSlot i cancelSlot).freeSlot i).numBaseBdevsDiscovered
    omega
  | channelFailed => exact h
  | @channelCreated thread ht ho hc =>
    -- only a raid bdev that the bdev layer knows is opened
    have ho : (o.ioDevice && _) = true := ho
    cases h with
    | online h => exact .online ⟨h.live, h.state, h.status, h.io, h.callbacks, h.enough, h.spare, h.destroy⟩
    | unregistering h => exact .unregistering ⟨h.live, h.state, h.status, h.io, h.callbacks, h.doomed⟩
    | young h | down h | gone h =>
      rw [h.io] at ho
      cases ho
    | stopping h | closing h =>
      obtain ⟨cb, hcb⟩ := h.status
      rw [hcb, Bool.and_false] at ho
      cases ho
  | @channelDestroyed thread =>
    refine hchannels fun t ht => ?_
    by_cases he : t = thread
    · rw [he, Function.update_self]
    · rw [Function.update_of_ne he, ht]
  | unregister hs hb =>
    have hon : Online o := by
      rcases h.idle hl hord with hy | hon | hd
      · cases hb.symm.trans (hst.young hy.state)
      · exact hon
      · cases hb.symm.trans hd.status
    refine .unregistering ⟨hl, .inr ⟨hon.state, hs, hon.enough⟩, ⟨_, rfl⟩, hon.io, ?_, fun hd => ?_⟩
    · have hc : o.callbacks = [] := hord
      show o.callbacks ++ [.destruct] = [.destruct]
      rw [hc]
      rfl
    · cases hon.destroy.symm.trans hd

/-- What does not change in a raid bdev's life. -/
theorem Standing.move (h : Standing threads o) (m : Move threads shutdown o a o' out) : Standing threads o' := by
  have hkeep {x : RaidObject} (hc : x.cleaned = o.cleaned) (hf : x.freed = o.freed)
      (hm : x.bdev.minBaseBdevsOperational = o.bdev.minBaseBdevsOperational) (hn : x.bdev.numBaseBdevs = o.bdev.numBaseBdevs)
      (hch : ∀ t ∉ threads, o.channels t = none → x.channels t = none) : Standing threads x := by
    refine ⟨hc.trans (h.cleaned.trans hf.symm), ?_, ?_, fun t ht => hch t ht (h.channels t ht)⟩
    · rw [hm]
      exact h.needs
    · rw [hm, hn]
      exact h.room
  have hdispose {x : RaidObject} (hx : Standing threads x) : Standing threads x.dispose := by
    refine ⟨?_, hx.needs, hx.room, hx.channels⟩
    show x.cleaned + 1 = x.freed + 1
    rw [hx.cleaned]
  have hsame : ∀ t ∉ threads, o.channels t = none → o.channels t = none := fun _ _ h => h
  have hmap (g : RaidBaseBdevInfo → RaidBaseBdevInfo) : (o.bdev.baseBdevInfo.map g).length = o.bdev.numBaseBdevs := List.length_map g
  have hschedule (i : Nat) (cb : Option Nat) : ((o.bdev.modSlot i (scheduleSlot cb)).freeSlot i).numBaseBdevs = o.bdev.numBaseBdevs := by
    rw [RaidBdev.numBaseBdevs_freeSlot, RaidBdev.numBaseBdevs_modSlot]
  have hstop {x : RaidObject} (hx : Standing threads x) : Standing threads x.stopDone := by
    unfold RaidObject.stopDone
    split
    · exact ⟨hx.cleaned, hx.needs, hx.room, hx.channels⟩
    · exact hx
  cases m with
  | filled hb hstops hs =>
    refine hkeep hb.cleaned hb.freed hb.bdev.min hb.bdev.numBaseBdevs fun t _ ht => ?_
    rw [hb.channels]
    exact ht
  | resized hb => exact hkeep rfl rfl hb.min hb.numBaseBdevs hsame
  | scheduled hf => exact h
  | closed hf hs hd => exact hkeep rfl rfl rfl (hschedule _ _) hsame
  | closedLast hf hs hd => exact hdispose (hkeep rfl rfl rfl (hschedule _ _) hsame)
  | offline hf hs hm hb => exact hkeep rfl rfl rfl RaidBdev.numBaseBdevs_modSlot hsame
  | offlineBusy hf hs hm hb => exact hkeep rfl rfl rfl RaidBdev.numBaseBdevs_modSlot hsame
  | quiesceRefused hf hs hm hrc => exact hkeep rfl rfl rfl RaidBdev.numBaseBdevs_modSlot hsame
  | quiescing hf hs hm hrc => exact hkeep rfl rfl rfl RaidBdev.numBaseBdevs_modSlot hsame
  | deleteAgain hd => exact h
  | deleted hd hs => exact hdispose (hkeep rfl rfl rfl (hmap _) hsame)
  | deleteOffline hd hn hs hb => exact hkeep rfl rfl rfl (hmap _) hsame
  | deleteBusy hd hn hs hb => exact hkeep rfl rfl rfl (hmap _) hsame
  | destructStops hr => exact hkeep rfl rfl rfl (hmap _) hsame
  | destruct hr => exact hstop (hkeep rfl rfl rfl (hmap _) hsame)
  | stopDone hr => exact hstop (hkeep rfl rfl rfl rfl hsame)
  | unregistered hr hd => exact hkeep rfl rfl rfl rfl hsame
  | unregisteredLast hr hd => exact hdispose (hkeep rfl rfl rfl rfl hsame)
  | quiesceFailed hr hrc | unquiesceFailed hr hrc => exact hkeep rfl rfl rfl RaidBdev.numBaseBdevs_modSlot hsame
  | quiesced hr hrc | allVisited hr hrc | unquiesceRefused hr hrc => exact hkeep rfl rfl rfl rfl hsame
  | @visited i thread rest rc hr =>
    refine hkeep rfl rfl rfl rfl fun t _ ht => ?_
    show Function.update o.channels thread ((o.channels thread).map _) t = none
    by_cases he : t = thread
    · rw [he, Function.update_self, ← he, ht]
      rfl
    · rw [Function.update_of_ne he, ht]
  | unquiesced hr hrc =>
    refine hkeep rfl rfl rfl ?_ hsame
    exact RaidBdev.numBaseBdevs_freeSlot.trans RaidBdev.numBaseBdevs_modSlot
  | channelFailed => exact h
  | @channelCreated thread ht ho hc =>
    refine hkeep rfl rfl rfl rfl fun t hn htn => ?_
    show Function.update o.channels thread _ t = none
    have hne : t ≠ thread := by
      rintro rfl
      exact hn ht
    rw [Function.update_of_ne hne, htn]
  | @channelDestroyed thread =>
    refine hkeep rfl rfl rfl rfl fun t _ htn => ?_
    show Function.update o.channels thread _ t = none
    by_cases he : t = thread
    · rw [he, Function.update_self]
    · rw [Function.update_of_ne he, htn]
  | unregister hs hb => exact hkeep rfl rfl rfl rfl hsame

end

/-! ## The module -/

/-- What holds of the raid bdevs in orderly runs. -/
structure State.Lives (threads : List Nat) (s : State) : Prop where
  life : ∀ r < s.next, Life s.gShutdownStarted (s.mem r) ∧ Standing threads (s.mem r)
  once : s.gRaidBdevList.Nodup
  listed : ∀ r, r ∈ s.gRaidBdevList ↔ r < s.next ∧ (s.mem r).freed = 0
  serving : ∀ p, s.rpc = some p → (s.mem p.raid).freed = 0 ∧ (p.error = none → (s.mem p.raid).callbacks = [])
  used : s.usedAfterFree = false

section

variable {threads : List Nat} {s t : State} {e : Event} {r : Nat} {a : Act}

/-- While a `bdev_raid_create` request is in its loop, the step is a turn of it. -/
theorem step_serving (h : step threads s e = some t) {p : CreateRpc} (hp : s.rpc = some p) :
    s.target e = some (p.raid, .fill) ∧ p.error = none ∨ s.target e = some (p.raid, .delete none) ∧ t.rpc = none := by
  unfold step at h
  rw [hp] at h
  dsimp only at h
  split at h
  · obtain rfl := Option.some.inj h
    refine .inr ⟨?_, rfl⟩
    rw [target, hp]
    rfl
  · next herr _ =>
    refine .inl ⟨?_, herr⟩
    rw [target, hp]
    rfl
  · cases h

/-- Base bdevs are added by the request in its loop. -/
theorem target_fill (h : step threads s e = some t) (htarget : s.target e = some (r, .fill)) :
    ∃ p, s.rpc = some p ∧ r = p.raid ∧ p.error = none := by
  cases hrpc : s.rpc with
  | some p =>
    rcases step_serving h hrpc with ⟨ht, herr⟩ | ⟨ht, -⟩
    · rw [htarget] at ht
      exact ⟨p, rfl, (Prod.mk.inj (Option.some.inj ht)).1, herr⟩
    · rw [htarget] at ht
      cases (Prod.mk.inj (Option.some.inj ht)).2
  | none =>
    cases e with
    | rpcCreateAdd a | rpcCreateFail =>
      rw [target, hrpc] at htarget
      cases htarget
    | rpcDelete | remove | resize =>
      obtain ⟨x, -, h⟩ := Option.map_eq_some_iff.mp htarget
      cases (Prod.mk.inj h).2
    | rpcRemove =>
      obtain ⟨-, h⟩ := Option.ite_none_right_eq_some.mp htarget
      obtain ⟨x, -, h⟩ := Option.map_eq_some_iff.mp h
      cases (Prod.mk.inj h).2
    | callback | channelCreate | channelDestroy | bdevUnregister => cases (Prod.mk.inj (Option.some.inj htarget)).2
    | rpcCreate | examine | finiStart | bdevs | claimOther | releaseOther => cases htarget

/-- The raid bdev of an act is not freed. -/
theorem State.Lives.target_live (hl : s.Lives threads) (hs : Accounts s) (hst : s.Steady) (h : step threads s e = some t)
    (htarget : s.target e = some (r, a)) : (s.mem r).freed = 0 := by
  have hr := target_lt hs hst h htarget
  obtain ⟨-, hlist | ⟨p, hp, rfl⟩ | hen⟩ := target_origin h htarget
  · exact ((hl.listed r).mp hlist).2
  · exact (hl.serving p hp).1
  · exact (hl.life r hr).1.live_of_enabled hen

/-- A slot that waits is filled when no callback is to come. -/
theorem Life.waiting {shutdown : Bool} {i : Nat} (h : Life shutdown (s.mem r)) (hl : (s.mem r).freed = 0)
    (hw : Waiting s r i) : (s.mem r).callbacks = [] := by
  have hy := h.of_configuring hl hw.state
  by_contra hne
  exact hy.full hne i hw.name hw.desc

/-- A new raid bdev -/
theorem life_created {name : String} {stripSize n uuid : Nat} {level : RaidLevel} {sb shutdown : Bool} {b : RaidBdev}
    (h : RaidBdev.make name stripSize n level sb uuid = .ok b) :
    Life shutdown { bdev := b } ∧ Standing threads { bdev := b } := by
  obtain ⟨rfl, -, -, -, hneeds, hroom⟩ := make_eq h
  refine ⟨.young ⟨rfl, rfl, rfl, fun _ => rfl, fun _ hd => absurd hd List.not_mem_nil, fun hne => absurd rfl hne, rfl⟩,
    ⟨rfl, Nat.pos_of_ne_zero hneeds, ?_, fun _ _ => rfl⟩⟩
  show level.module.minOperational n ≤ (List.replicate n ({} : RaidBaseBdevInfo)).length
  rw [List.length_replicate]
  exact hroom

/-- After a turn of the loop that goes on, no callback is to come. -/
theorem serving_filled {p : CreateRpc} (hst : Serving t p) (hacc : Acct t) (hc : (s.mem p.raid).callbacks = [])
    (hstops : (s.mem p.raid).Stops (t.mem p.raid)) (herr : p.error = none) : (t.mem p.raid).callbacks = [] := by
  obtain ⟨hne, hlen, hnames⟩ := hst.slots herr
  rcases hstops with hsame | ⟨-, hfull⟩
  · exact hsame.trans hc
  · -- the next slot has no name yet, so it is not filled
    have hlt : p.slot < (t.raid p.raid).numBaseBdevs := by
      have hpos := List.length_pos_iff.mpr hne
      omega
    have hsome : ((t.raid p.raid).slot p.slot).desc.isSome = true := hfull _ (RaidBdev.slot_mem hlt)
    have hname := (hacc.raids p.raid).named p.slot (Option.isSome_iff_ne_none.mp hsome)
    exact absurd (hnames p.slot (Nat.le_refl _)) hname

theorem State.Lives.act (hl : s.Lives threads) (hs : Accounts s) (hst : s.Steady) (h : step threads s e = some t)
    (htarget : s.target e = some (r, a)) {out : List (Nat × Int)} (hord : a.Orderly (s.mem r))
    (hmove : Move threads s.gShutdownStarted (s.mem r) a (t.mem r) out) :
    Life s.gShutdownStarted (t.mem r) ∧ Standing threads (t.mem r) := by
  obtain ⟨hlife, hstand⟩ := hl.life r (target_lt hs hst h htarget)
  refine ⟨?_, hstand.move hmove⟩
  refine hlife.move (hst.mem r).1 (hs.acct.raids r) ((accounts_step hs h).acct.raids r) hstand hmove hord ?_
    (hl.target_live hs hst h htarget)
  rintro rfl
  obtain ⟨p, hp, rfl, herr⟩ := target_fill h htarget
  exact (hl.serving p hp).2 herr

/-- Every orderly step leads from stages to stages. -/
theorem State.Lives.step (hl : s.Lives threads) (hs : Accounts s) (hst : s.Steady) (hord : Orderly s e)
    (h : step threads s e = some t) : t.Lives threads := by
  have hacc := accounts_step hs h
  cases step_moves hs h with
  | @act r a out extra htarget hkept hmem hmove hlist hturned hreplies hused =>
    have hlive := hl.target_live hs hst h htarget
    have hr := target_lt hs hst h htarget
    obtain ⟨hlife, hstand⟩ := hl.act hs hst h htarget (hord _ htarget) hmove
    refine ⟨fun x hx => ?_, ?_, fun x => ?_, fun p hp => ?_, ?_⟩
    · by_cases hxr : x = r
      · rw [hxr]
        exact ⟨hlife.mono hkept.shutdown, hstand⟩
      · rw [hmem x hxr]
        obtain ⟨hlife, hstand⟩ := hl.life x (hkept.next ▸ hx)
        exact ⟨hlife.mono hkept.shutdown, hstand⟩
    · rw [hlist]
      split
      · exact hl.once.erase r
      · exact hl.once
    · rw [hkept.next]
      have hmem' : x ≠ r → (t.mem x).freed = (s.mem x).freed := fun hx => by rw [hmem x hx]
      by_cases hgone : (s.mem r).freed < (t.mem r).freed
      · rw [hlist, if_pos hgone, hl.once.mem_erase_iff]
        constructor
        · rintro ⟨hx, hin⟩
          rw [hmem' hx]
          exact (hl.listed x).mp hin
        · rintro ⟨hx, hfreed⟩
          have hxr : x ≠ r := by
            rintro rfl
            omega
          rw [hmem' hxr] at hfreed
          exact ⟨hxr, (hl.listed x).mpr ⟨hx, hfreed⟩⟩
      · rw [hlist, if_neg hgone, hl.listed]
        have hsame : (t.mem x).freed = (s.mem x).freed := by
          by_cases hxr : x = r
          · rw [hxr]
            omega
          · exact hmem' hxr
        rw [hsame]
    · obtain ⟨p₀, hp₀, hraid⟩ := hkept.rpc p hp
      rcases step_serving h hp₀ with ⟨ht, herr₀⟩ | ⟨-, hdone⟩
      · obtain ⟨rfl, rfl⟩ := Prod.mk.inj (Option.some.inj (htarget.symm.trans ht))
        rw [hraid]
        cases hmove with
        | filled hb hstops hs' =>
          refine ⟨hb.freed.trans hlive, fun herr => ?_⟩
          rw [← hraid] at hstops ⊢
          refine serving_filled (hacc.serving p hp) hacc.acct ?_ hstops herr
          rw [hraid]
          exact (hl.serving p₀ hp₀).2 herr₀
      · cases hp.symm.trans hdone
    · cases hu : t.usedAfterFree with
      | false => rfl
      | true =>
        rcases hused hu with hu | ⟨-, hne⟩
        · cases hu.symm.trans hl.used
        · exact absurd hlive hne
  | idle htarget hkept hmem hlist hrpc hreplies hused =>
    refine ⟨fun x hx => ?_, hlist ▸ hl.once, fun x => ?_, fun p hp => ?_, hused.trans hl.used⟩
    · rw [hmem]
      obtain ⟨hlife, hstand⟩ := hl.life x (hkept.next ▸ hx)
      exact ⟨hlife.mono hkept.shutdown, hstand⟩
    · rw [hlist, hkept.next, hmem]
      exact hl.listed x
    · rw [hmem]
      exact hl.serving p (hrpc ▸ hp)
  | examined htarget hrequest hkept hmem hlist hrpc hreplies hused =>
    have hturn {x : Nat} (hx : x ∈ s.gRaidBdevList) (hw : ∃ i, Waiting s x i) (hb : (s.mem x).Built (t.mem x))
        (hstops : (s.mem x).Stops (t.mem x)) : Life s.gShutdownStarted (t.mem x) ∧ Standing threads (t.mem x) := by
      obtain ⟨i, hw⟩ := hw
      obtain ⟨hlt, hfreed⟩ := (hl.listed x).mp hx
      obtain ⟨hlife, hstand⟩ := hl.life x hlt
      have m : Move threads s.gShutdownStarted (s.mem x) .fill (t.mem x) [] := .filled hb hstops hw.state
      exact ⟨hlife.move (hst.mem x).1 (hs.acct.raids x) (hacc.acct.raids x) hstand m trivial
        (fun _ => hlife.waiting hfreed hw) hfreed, hstand.move m⟩
    refine ⟨fun x hx => ?_, hlist ▸ hl.once, fun x => ?_, fun p hp => ?_, hused.trans hl.used⟩
    · rcases hmem x with heq | ⟨hin, hw, hb, hstops⟩
      · rw [heq]
        obtain ⟨hlife, hstand⟩ := hl.life x (hkept.next ▸ hx)
        exact ⟨hlife.mono hkept.shutdown, hstand⟩
      · obtain ⟨hlife, hstand⟩ := hturn hin hw hb hstops
        exact ⟨hlife.mono hkept.shutdown, hstand⟩
    · have hsame : (t.mem x).freed = (s.mem x).freed := by
        rcases hmem x with heq | ⟨-, -, hb, -⟩
        · rw [heq]
        · exact hb.freed
      rw [hlist, hkept.next, hsame]
      exact hl.listed x
    · -- no base bdev is examined while a request is in its loop
      rw [hrpc] at hp
      rcases step_serving h hp with ⟨ht, -⟩ | ⟨ht, -⟩
      · cases htarget.symm.trans ht
      · cases htarget.symm.trans ht
  | @created request req alloc b he hmake hname heq =>
    subst heq
    have hold {x : Nat} (hx : x ≠ s.next) : (s.created b).mem x = s.mem x := Function.update_of_ne hx _ _
    have hnew : (s.created b).mem s.next = { bdev := b } := Function.update_self _ _ _
    have hfresh : s.next ∉ s.gRaidBdevList := fun hin => Nat.lt_irrefl _ (hs.acct.listed _ hin)
    refine ⟨fun x hx => ?_, ?_, fun x => ?_, fun p hp => ?_, hl.used⟩
    · have hx : x < s.next + 1 := hx
      show Life s.gShutdownStarted ((s.created b).mem x) ∧ Standing threads ((s.created b).mem x)
      by_cases hxn : x = s.next
      · rw [hxn, hnew]
        exact life_created hmake
      · rw [hold hxn]
        exact hl.life x (by omega)
    · show (s.gRaidBdevList ++ [s.next]).Nodup
      refine List.nodup_append.mpr ⟨hl.once, List.nodup_singleton _, fun x hx y hy hxy => hfresh ?_⟩
      rw [← List.mem_singleton.mp hy, ← hxy]
      exact hx
    · show x ∈ s.gRaidBdevList ++ [s.next] ↔ x < s.next + 1 ∧ ((s.created b).mem x).freed = 0
      rw [List.mem_append, List.mem_singleton]
      by_cases hxn : x = s.next
      · rw [hxn, hnew]
        exact ⟨fun _ => ⟨Nat.lt_succ_self _, rfl⟩, fun _ => .inr rfl⟩
      · rw [hold hxn, hl.listed]
        constructor
        · rintro (⟨hx, hfreed⟩ | hx)
          · exact ⟨by omega, hfreed⟩
          · exact absurd hx hxn
        · rintro ⟨hx, hfreed⟩
          exact .inl ⟨by omega, hfreed⟩
    · obtain rfl := Option.some.inj hp
      show ((s.created b).mem s.next).freed = 0 ∧ (none = none → ((s.created b).mem s.next).callbacks = [])
      rw [hnew]
      exact ⟨rfl, fun _ => rfl⟩

theorem lives_init (names : String → Option Nat) (bdevs : Nat → Bdev) (claimed : Nat → Bool) :
    (State.init names bdevs claimed).Lives threads := by
  refine ⟨fun r hr => absurd hr (Nat.not_lt_zero r), List.nodup_nil, fun r => ?_, fun p hp => ?_, rfl⟩
  · constructor
    · intro hr
      cases hr
    · rintro ⟨hr, -⟩
      exact absurd hr (Nat.not_lt_zero r)
  · cases hp

/-- What holds in every state of an orderly run. -/
structure State.Well (threads : List Nat) (s : State) : Prop where
  accounts : Accounts s
  steady : s.Steady
  lives : s.Lives threads

theorem State.Well.step (hw : s.Well threads) (hord : Orderly s e) (h : step threads s e = some t) : t.Well threads :=
  ⟨accounts_step hw.accounts h, hw.steady.step hw.accounts h, hw.lives.step hw.accounts hw.steady hord h⟩

theorem run_well (h : Run threads Orderly s) : s.Well threads := by
  obtain ⟨names, bdevs, claimed, hreach⟩ := h
  refine hreach.invariant ⟨accounts_init .., steady_init .., lives_init ..⟩ ?_
  intro s t e hw hord hstep
  exact hw.step hord hstep

/-! ## Every run -/

/-- In every run that asks one thing at a time, nothing reaches a raid bdev after it was freed. A raid
    bdev is cleaned up and freed together, at most once, and it is on the list until then; when it is
    freed no callback is to come, no thread has a channel of it and no base bdev is open in it. -/
theorem lifetime (h : Run threads Orderly s) : s.usedAfterFree = false ∧ s.gRaidBdevList.Nodup ∧
    ∀ r < s.next, (s.mem r).freed ≤ 1 ∧ (s.mem r).cleaned = (s.mem r).freed ∧
      (r ∈ s.gRaidBdevList ↔ (s.mem r).freed = 0) ∧
      ((s.mem r).freed = 1 → (s.mem r).callbacks = [] ∧ (∀ t, (s.mem r).channels t = none) ∧
        ∀ i, ((s.mem r).bdev.slot i).desc = none) := by
  have hw := run_well h
  refine ⟨hw.lives.used, hw.lives.once, fun r hr => ?_⟩
  obtain ⟨hlife, hstand⟩ := hw.lives.life r hr
  have hgone (hne : (s.mem r).freed ≠ 0) : Gone (s.mem r) := by
    cases hlife with
    | gone h => exact h
    | young h => exact absurd h.live hne
    | online h => exact absurd h.live hne
    | unregistering h => exact absurd h.live hne
    | stopping h | closing h => exact absurd h.live hne
    | down h => exact absurd h.live hne
  refine ⟨?_, hstand.cleaned, ?_, fun hone => ?_⟩
  · by_cases hz : (s.mem r).freed = 0
    · omega
    · exact Nat.le_of_eq (hgone hz).freed
  · rw [hw.lives.listed]
    exact ⟨fun h => h.2, fun h => ⟨hr, h⟩⟩
  · have hg := hgone (by omega)
    refine ⟨hg.callbacks, hg.channels, fun i => ?_⟩
    have hzero : (s.mem r).bdev.opened = 0 := (hw.accounts.acct.raids r).count.symm.trans hg.empty
    by_contra hd
    obtain ⟨d, hd⟩ := Option.ne_none_iff_exists'.mp hd
    have hin := RaidBdev.slot_mem (RaidBdev.lt_of_desc hd)
    have hno := List.countP_eq_zero.mp hzero _ hin
    rw [hd] at hno
    exact hno rfl

/-- A raid1 array that is created and deleted, with the callbacks of its teardown. -/
def smallDeletion : List Event :=
  smallCreate .raid1 3 ++ [.rpcDelete 1 "r", .callback 0 .destruct 0, .callback 0 .moduleStopDone 0,
    .callback 0 .ioDeviceUnregister 0]

theorem lifetime_deletion : ∃ s : State, (s.mem 0).freed = 1 ∧ s.replies = [(0, 0), (1, 0)] ∧ s.usedAfterFree = false ∧
    s.gRaidBdevList.Nodup ∧ (0 ∈ s.gRaidBdevList ↔ (s.mem 0).freed = 0) ∧ ∀ i, ((s.mem 0).bdev.slot i).desc = none := by
  have hm : (smallRun Orderly smallDeletion).map (fun s =>
      decide (s.next = 1 ∧ (s.mem 0).freed = 1 ∧ s.replies = [(0, 0), (1, 0)])) = some true := by
    decide +kernel
  obtain ⟨s, hs, hv⟩ := Option.map_eq_some_iff.mp hm
  obtain ⟨hnext, hfreed, hreplies⟩ := of_decide_eq_true hv
  have hzero : 0 < s.next := by
    rw [hnext]
    exact Nat.one_pos
  obtain ⟨hused, honce, hall⟩ := lifetime (smallRun_run hs)
  obtain ⟨-, -, hlist, hgone⟩ := hall 0 hzero
  exact ⟨s, hfreed, hreplies, hused, honce, hlist, (hgone hfreed).2.2⟩

/-- In every run that asks one thing at a time, a raid bdev that is online has the base bdevs its level
    needs, and one more while a removal is under way. -/
theorem online_operational (h : Run threads Orderly s) {r : Nat} (hr : r < s.next)
    (hs : (s.mem r).bdev.state = .online) :
    (s.mem r).bdev.minBaseBdevsOperational ≤ (s.mem r).bdev.opened ∧
    ∀ d ∈ (s.mem r).callbacks, d.slot ≠ none → (s.mem r).bdev.minBaseBdevsOperational < (s.mem r).bdev.opened := by
  have hw := run_well h
  have hcount : (s.mem r).bdev.numBaseBdevsDiscovered = (s.mem r).bdev.opened := (hw.accounts.acct.raids r).count
  rw [← hcount]
  cases (hw.lives.life r hr).1 with
  | online hon => exact ⟨hon.enough, fun d hd _ => hon.spare (List.ne_nil_of_mem hd)⟩
  | unregistering hu =>
    rcases hu.state with hoff | ⟨-, -, henough⟩
    · cases hs.symm.trans hoff
    · refine ⟨henough, fun d hd hslot => ?_⟩
      rw [hu.callbacks] at hd
      rw [List.mem_singleton.mp hd] at hslot
      exact absurd rfl hslot
  | young hy => cases hs.symm.trans hy.state
  | stopping hd | closing hd => cases hs.symm.trans hd.state
  | down hd => cases hs.symm.trans hd.state
  | gone hg => exact absurd hs hg.state

/-- The state after a base bdev of a raid1 array was asked to be removed -/
theorem online_operational_removing : ∃ s : State, (s.mem 0).bdev.state = .online ∧ (s.mem 0).callbacks = [.quiesced 0] ∧
    (s.mem 0).bdev.minBaseBdevsOperational < (s.mem 0).bdev.opened := by
  have hm : (smallRun Orderly (smallCreate .raid1 3 ++ [.rpcRemove 1 (fourBdevs 0).name 0 0])).map (fun s =>
      decide (s.next = 1 ∧ (s.mem 0).bdev.state = .online ∧ (s.mem 0).callbacks = [.quiesced 0])) = some true := by
    decide +kernel
  obtain ⟨s, hs, hv⟩ := Option.map_eq_some_iff.mp hm
  obtain ⟨hnext, honline, hcallbacks⟩ := of_decide_eq_true hv
  have hzero : 0 < s.next := by
    rw [hnext]
    exact Nat.one_pos
  have hmem : .quiesced 0 ∈ (s.mem 0).callbacks := by
    rw [hcallbacks]
    exact List.mem_singleton_self _
  exact ⟨s, honline, hcallbacks, (online_operational (smallRun_run hs) hzero honline).2 _ hmem (Option.some_ne_none 0)⟩

end

end FlexBSO.Raid

import FlexBSO.Raid.Lifetime

/- Which base bdevs the I/O channels of a raid bdev refer to. A removal takes its base bdev
   out of the channels thread by thread, and closes it a callback later; a channel that is
   created in between would keep it. In runs where none is, no channel refers to a base bdev
   that its slot has not open (`references_open`), and when SPDK also unquiesces what it
   quiesced, a channel has the base bdevs of all slots that no removal is at work on
   (`channels_agree`). -/
namespace FlexBSO.Raid

open State

/-! ## The guards -/

/-- No channel is created while a base bdev of the raid bdev is being removed. -/
def Act.Unhurried (o : RaidObject) : Act → Prop
  | .channelCreate _ _ => ∀ d ∈ o.callbacks, d.slot = none
  | _ => True

instance (o : RaidObject) : ∀ a : Act, Decidable (a.Unhurried o)
  | .channelCreate _ _ => inferInstanceAs (Decidable (∀ d ∈ _, _))
  | .fill | .resize | .remove _ _ _ | .delete _ | .unregister _ | .callback _ _ | .channelDestroy _ => isTrue trivial

/-- SPDK unquiesces what it quiesced. -/
def Act.Unquiesces : Act → Prop
  | .callback (.channelRemove _ []) rc => rc = 0
  | .callback (.unquiesced _) rc => rc = 0
  | _ => True

instance : ∀ a : Act, Decidable a.Unquiesces
  | .callback (.channelRemove _ []) _ => inferInstanceAs (Decidable (_ = _))
  | .callback (.unquiesced _) _ => inferInstanceAs (Decidable (_ = _))
  | .callback (.channelRemove _ (_ :: _)) _ | .callback .destruct _ | .callback .moduleStopDone _
  | .callback .ioDeviceUnregister _ | .callback (.quiesced _) _ => isTrue trivial
  | .fill | .resize | .remove _ _ _ | .delete _ | .unregister _ | .channelCreate _ _ | .channelDestroy _ => isTrue trivial

/-- The step is orderly, and what it asks of a raid bdev satisfies `P`. -/
def OrderlyWith (P : RaidObject → Act → Prop) (s : State) (e : Event) : Prop :=
  Orderly s e ∧ ∀ p ∈ s.target e, P (s.mem p.1) p.2

instance (P : RaidObject → Act → Prop) [∀ o a, Decidable (P o a)] (s : State) (e : Event) : Decidable (OrderlyWith P s e) := by
  unfold OrderlyWith
  exact inferInstance

/-! ## Invariants of the raid bdevs -/

section

variable {threads : List Nat} {s t : State} {e : Event}

/-- What holds of a raid bdev without channels and callbacks, and is kept by every act in order that
    satisfies `P`, holds of all raid bdevs in every such run. -/
theorem each_raid {I : RaidObject → Prop} {P : RaidObject → Act → Prop} (hfill : ∀ o, P o .fill)
    (hnew : ∀ o : RaidObject, o.callbacks = [] → (∀ t, o.channels t = none) → I o)
    (hmove : ∀ (shutdown : Bool) (o o' : RaidObject) (a : Act) (out : List (Nat × Int)), Life shutdown o → Standing threads o →
      o.freed = 0 → a.Orderly o → P o a → Move threads shutdown o a o' out → I o → I o')
    (h : Run threads (OrderlyWith P) s) : ∀ r, I (s.mem r) := by
  obtain ⟨names, bdevs, claimed, hreach⟩ := h
  have hinv : s.Well threads ∧ ∀ r, I (s.mem r) := by
    have hstart : (State.init names bdevs claimed).Well threads := ⟨accounts_init .., steady_init .., lives_init ..⟩
    have hblank : I .blank := hnew _ rfl fun _ => rfl
    refine hreach.invariant (I := fun s => s.Well threads ∧ ∀ r, I (s.mem r)) ⟨hstart, fun _ => hblank⟩ ?_
    rintro s e t ⟨hw, hi⟩ ⟨hord, hp⟩ hstep
    refine ⟨hw.step hord hstep, fun x => ?_⟩
    cases step_moves hw.accounts hstep with
    | @act r a out extra htarget hkept hmem hm =>
      by_cases hxr : x = r
      · obtain ⟨hlife, hstand⟩ := hw.lives.life r (target_lt hw.accounts hw.steady hstep htarget)
        rw [hxr]
        exact hmove _ _ _ _ _ hlife hstand (hw.lives.target_live hw.accounts hw.steady hstep htarget) (hord _ htarget)
          (hp _ htarget) hm (hi r)
      · rw [hmem x hxr]
        exact hi x
    | idle htarget hkept hmem =>
      rw [hmem]
      exact hi x
    | examined htarget hrequest hkept hmem =>
      rcases hmem x with heq | ⟨hin, ⟨i, hw'⟩, hb, hstops⟩
      · rw [heq]
        exact hi x
      · obtain ⟨hlt, hfreed⟩ := (hw.lives.listed x).mp hin
        obtain ⟨hlife, hstand⟩ := hw.lives.life x hlt
        have m : Move threads s.gShutdownStarted (s.mem x) .fill (t.mem x) [] := .filled hb hstops hw'.state
        have hord' : Act.Orderly (s.mem x) .fill := trivial
        exact hmove _ _ _ _ _ hlife hstand hfreed hord' (hfill _) m (hi x)
    | @created request req alloc b he hmake hname heq =>
      subst heq
      by_cases hx : x = s.next
      · have hnew' : (s.created b).mem x = { bdev := b } := hx ▸ Function.update_self _ _ _
        show I ((s.created b).mem x)
        rw [hnew']
        exact hnew _ rfl fun _ => rfl
      · have hold : (s.created b).mem x = s.mem x := Function.update_of_ne hx _ _
        show I ((s.created b).mem x)
        rw [hold]
        exact hi x
  exact hinv.2

theorem OrderlyWith.run_well {P : RaidObject → Act → Prop} (h : Run threads (OrderlyWith P) s) : s.Well threads := by
  obtain ⟨names, bdevs, claimed, hreach⟩ := h
  exact Raid.run_well ⟨names, bdevs, claimed, hreach.mono fun _ _ h => h.1⟩

end

/-! ## One raid bdev -/

/-- A callback after which a removal is at the channels, or past them. -/
def Deferred.visits : Deferred → Bool
  | .channelRemove _ _ => true
  | .unquiesced _ => true
  | _ => false

namespace RaidObject

/-- A channel refers to base bdevs that are open, and a removal is through with the threads it visited. -/
structure Referring (o : RaidObject) : Prop where
  refers : ∀ t ch, o.channels t = some ch → ∀ i b, ch.getD i none = some b → (o.bdev.slot i).desc = some b
  visited : ∀ i rest, .channelRemove i rest ∈ o.callbacks → ∀ t, t ∉ rest → ∀ ch, o.channels t = some ch → ch.getD i none = none
  closing : ∀ i, .unquiesced i ∈ o.callbacks → ∀ t ch, o.channels t = some ch → ch.getD i none = none

/-- A channel has what the slots have open, but for slots that a removal is at work on. -/
def Matching (o : RaidObject) : Prop :=
  ∀ t ch, o.channels t = some ch → ∀ i, (∀ d ∈ o.callbacks, d.visits = true → d.slot ≠ some i) →
    ch.getD i none = (o.bdev.slot i).desc

section

variable {threads : List Nat} {shutdown : Bool} {o o' : RaidObject} {a : Act} {out : List (Nat × Int)}

theorem referring_none (hch : ∀ t, o.channels t = none) : o.Referring := by
  have hno {P : Prop} {t : Nat} {ch : List (Option Nat)} (h : o.channels t = some ch) : P := by
    cases (hch t).symm.trans h
  exact ⟨fun t ch h => hno h, fun i rest _ t _ ch h => hno h, fun i _ t ch h => hno h⟩

theorem matching_none (hch : ∀ t, o.channels t = none) : o.Matching := by
  intro t ch h
  cases (hch t).symm.trans h

/-- Fewer channels, the same descriptors and no removal further on. -/
theorem Referring.mono (h : o.Referring) (hch : ∀ t ch, o'.channels t = some ch → o.channels t = some ch)
    (hdesc : ∀ i, (o'.bdev.slot i).desc = (o.bdev.slot i).desc)
    (hcb : ∀ d ∈ o'.callbacks, d.visits = true → d ∈ o.callbacks) : o'.Referring := by
  refine ⟨fun t ch ht i b hb => ?_, fun i rest hd t hn ch ht => ?_, fun i hd t ch ht => ?_⟩
  · rw [hdesc]
    exact h.refers t ch (hch t ch ht) i b hb
  · exact h.visited i rest (hcb _ hd rfl) t hn ch (hch t ch ht)
  · exact h.closing i (hcb _ hd rfl) t ch (hch t ch ht)

/-- Fewer channels, the same descriptors and every removal still at work. -/
theorem Matching.mono (h : o.Matching) (hch : ∀ t ch, o'.channels t = some ch → o.channels t = some ch)
    (hdesc : ∀ i, (o'.bdev.slot i).desc = (o.bdev.slot i).desc)
    (hcb : ∀ d ∈ o.callbacks, d.visits = true → ∃ d' ∈ o'.callbacks, d'.visits = true ∧ d'.slot = d.slot) : o'.Matching := by
  intro t ch ht i hi
  rw [hdesc]
  apply h t ch (hch t ch ht) i
  intro d hd hv hs
  obtain ⟨d', hd', hv', hs'⟩ := hcb d hd hv
  exact hi d' hd' hv' (hs'.trans hs)

theorem desc_schedule {b : RaidBdev} {cb : Option Nat} (i j : Nat) :
    ((b.modSlot i (scheduleSlot cb)).slot j).desc = (b.slot j).desc :=
  ((RaidBdev.quiet_modSlot (f := scheduleSlot cb) fun _ => ⟨rfl, rfl⟩).slot j).2

theorem desc_cancel {b : RaidBdev} (i j : Nat) : ((b.modSlot i cancelSlot).slot j).desc = (b.slot j).desc :=
  ((RaidBdev.quiet_modSlot (f := cancelSlot) fun _ => ⟨rfl, rfl⟩).slot j).2

/-- The loop of `raid_bdev_delete` closes nothing while the raid bdev is online. -/
theorem desc_delete (hs : o.bdev.state = .online) (j : Nat) :
    ((o.bdev.baseBdevInfo.map (deleteSlot o.bdev.state)).getD j {}).desc = (o.bdev.slot j).desc := by
  have hsame (info : RaidBaseBdevInfo) : (deleteSlot o.bdev.state info).desc = info.desc := by
    unfold deleteSlot
    rw [hs]
    rfl
  rw [RaidBdev.slot, List.getD_eq_getElem?_getD, List.getD_eq_getElem?_getD, List.getElem?_map]
  cases o.bdev.baseBdevInfo[j]? with
  | none => rfl
  | some info => exact hsame info

/-- Every act in order keeps what the channels refer to; and what they have, if SPDK unquiesces. -/
theorem Referring.move (h : o.Referring) (hlife : Life shutdown o) (hstand : Standing threads o) (hl : o.freed = 0)
    (hord : a.Orderly o) (hcalm : a.Unhurried o) (m : Move threads shutdown o a o' out) :
    o'.Referring ∧ (o.Matching → a.Unquiesces → o'.Matching) := by
  -- a raid bdev that is not online has no channels
  have hnone {x : RaidObject} (hx : ∀ t, x.channels t = none) : x.Referring ∧ (o.Matching → a.Unquiesces → x.Matching) :=
    ⟨referring_none hx, fun _ _ => matching_none hx⟩
  have hdown (hs : o.bdev.state ≠ .online) (hc : o.callbacks = []) (t : Nat) : o.channels t = none := by
    rcases hlife.idle hl hc with h | h | h
    · exact h.channels t
    · exact absurd h.state hs
    · exact h.channels t
  have hidle {i : Nat} (hf : (o.bdev.slot i).removeScheduled = false)
      (h : (o.bdev.slot i).removeScheduled = true ∨ o.callbacks = []) : o.callbacks = [] := by
    rcases h with hs | hc
    · cases hf.symm.trans hs
    · exact hc
  have hquiet (hi : o.Idle threads) (t : Nat) : o.channels t = none := by
    by_cases ht : t ∈ threads
    · exact Option.isNone_iff_eq_none.mp (hi t ht)
    · exact hstand.channels t ht
  have hstop {x : RaidObject} (hx : ∀ t, x.channels t = none) : ∀ t, x.stopDone.channels t = none := by
    unfold stopDone
    split <;> exact hx
  -- no slot is closed and no removal gets to the channels, or ends
  have hkeep {x : RaidObject} (hch : ∀ t ch, x.channels t = some ch → o.channels t = some ch)
      (hdesc : ∀ i, (x.bdev.slot i).desc = (o.bdev.slot i).desc)
      (hcb : ∀ d, d.visits = true → (d ∈ x.callbacks ↔ d ∈ o.callbacks)) :
      x.Referring ∧ (o.Matching → a.Unquiesces → x.Matching) :=
    ⟨h.mono hch hdesc fun d hd hv => (hcb d hv).mp hd,
      fun hm _ => hm.mono hch hdesc fun d hd hv => ⟨d, (hcb d hv).mpr hd, hv, rfl⟩⟩
  have hsame : ∀ t ch, o.channels t = some ch → o.channels t = some ch := fun _ _ h => h
  have hcalls : ∀ d : Deferred, d.visits = true → (d ∈ o.callbacks ↔ d ∈ o.callbacks) := fun _ _ => Iff.rfl
  have hmore {d' : Deferred} (hd' : d'.visits = false) (d : Deferred) (hv : d.visits = true) :
      d ∈ o.callbacks ++ [d'] ↔ d ∈ o.callbacks := by
    rw [List.mem_append, List.mem_singleton]
    constructor
    · rintro (hd | rfl)
      · exact hd
      · cases hv.symm.trans hd'
    · exact .inl
  have hless {d' : Deferred} (hd' : d'.visits = false) (d : Deferred) (hv : d.visits = true) :
      d ∈ o.callbacks.erase d' ↔ d ∈ o.callbacks := by
    refine List.mem_erase_of_ne fun he => ?_
    rw [he, hd'] at hv
    cases hv
  cases m with
  | filled hb hstops hs =>
    refine hnone fun t => ?_
    rw [hb.channels]
    exact (hlife.of_configuring hl hs).channels t
  | resized hb => exact hkeep hsame hb.desc hcalls
  | scheduled hf => exact hkeep hsame (fun _ => rfl) hcalls
  | closed hf hs hd | closedLast hf hs hd => exact hnone (hdown hs (hidle hf hord))
  | offline hf hs hm hb => exact hkeep hsame (desc_schedule _) (hmore rfl)
  | offlineBusy hf hs hm hb => exact hkeep hsame (desc_schedule _) hcalls
  | @quiesceRefused i cb rc hf hs hm hrc =>
    refine hkeep hsame (fun j => ?_) hcalls
    exact ((RaidBdev.quiet_modSlot (f := fun info => cancelSlot (scheduleSlot cb info)) fun _ => ⟨rfl, rfl⟩).slot j).2
  | quiescing hf hs hm hrc => exact hkeep hsame (desc_schedule _) (hmore rfl)
  | deleteAgain hd => exact hkeep hsame (fun _ => rfl) hcalls
  | deleted hd hs =>
    have hc : o.callbacks = [] := by
      rcases hord with hstart | hc
      · cases hd.symm.trans hstart
      · exact hc
    refine hnone (hdown ?_ hc)
    rcases hs with hs | hz
    · exact hs
    · intro hs
      rcases hlife.idle hl hc with h | h | h
      · cases hs.symm.trans h.state
      · have henough := h.enough
        have hneeds := hstand.needs
        omega
      · cases hs.symm.trans h.state
  | deleteOffline hd hn hs hb => exact hkeep hsame (desc_delete hs) (hmore rfl)
  | deleteBusy hd hn hs hb => exact hkeep hsame (desc_delete hs) hcalls
  | destructStops hr => exact hnone (hquiet (hr.2.1 rfl))
  | destruct hr => exact hnone (hstop (hquiet (hr.2.1 rfl)))
  | stopDone hr =>
    refine hnone (hstop fun t => ?_)
    rcases hlife.of_stopDone hr.1 with h | h
    · exact h.channels t
    · exact h.channels t
  | unregistered hr hd | unregisteredLast hr hd => exact hnone (hquiet (hr.2.2 rfl).1)
  | quiesceFailed hr hrc => exact hkeep hsame (desc_cancel _) (hless rfl)
  | @quiesced i rc hr hrc =>
    obtain ⟨-, hc⟩ := hlife.of_removal hr.1 (Option.some_ne_none i)
    have hcb : ((o.took (.quiesced i)).deferred (.channelRemove i threads)).callbacks = [.channelRemove i threads] := by
      show (o.took (.quiesced i)).callbacks ++ [.channelRemove i threads] = _
      rw [took_single hc]
      rfl
    refine ⟨⟨h.refers, fun j rest hd t hn ch ht => ?_, fun j hd => ?_⟩, fun hm _ t ch ht j _ => ?_⟩
    · -- the threads to visit are all that can have a channel
      rw [hcb] at hd
      cases List.mem_singleton.mp hd
      cases (hstand.channels t hn).symm.trans ht
    · rw [hcb] at hd
      cases List.mem_singleton.mp hd
    · refine hm t ch ht j fun d hd hv => ?_
      rw [hc] at hd
      rw [List.mem_singleton.mp hd] at hv
      cases hv
  | @visited i thread rest rc hr =>
    obtain ⟨-, hc⟩ := hlife.of_removal hr.1 (Option.some_ne_none i)
    have hcb : (((o.took (.channelRemove i (thread :: rest))).visited i thread).deferred (.channelRemove i rest)).callbacks =
        [.channelRemove i rest] := by
      show (o.took (.channelRemove i (thread :: rest))).callbacks ++ [.channelRemove i rest] = _
      rw [took_single hc]
      rfl
    have hset {t : Nat} {ch : List (Option Nat)}
        (ht : Function.update o.channels thread ((o.channels thread).map fun ch => ch.set i none) t = some ch) :
        (t ≠ thread ∧ o.channels t = some ch) ∨ ∃ x, o.channels t = some x ∧ ch = x.set i none := by
      by_cases he : t = thread
      · rw [he, Function.update_self] at ht
        obtain ⟨x, hx, heq⟩ := Option.map_eq_some_iff.mp ht
        exact .inr ⟨x, he ▸ hx, heq.symm⟩
      · rw [Function.update_of_ne he] at ht
        exact .inl ⟨he, ht⟩
    have hat (x : List (Option Nat)) (j : Nat) : (x.set i none).getD j none = if j = i then none else x.getD j none := by
      rw [List.getD_eq_getElem?_getD, List.getElem?_set]
      by_cases hj : j = i
      · rw [if_pos hj, if_pos hj.symm]
        split <;> rfl
      · rw [if_neg hj, if_neg (Ne.symm hj), List.getD_eq_getElem?_getD]
    refine ⟨⟨fun t ch ht j b hb => ?_, fun j rest' hd t hn ch ht => ?_, fun j hd => ?_⟩, fun hm _ t ch ht j hj => ?_⟩
    · rcases hset ht with ⟨-, ht⟩ | ⟨x, hx, rfl⟩
      · exact h.refers t ch ht j b hb
      · rw [hat] at hb
        split at hb
        · cases hb
        · exact h.refers t x hx j b hb
    · rw [hcb] at hd
      cases List.mem_singleton.mp hd
      rcases hset ht with ⟨hne, ht⟩ | ⟨x, hx, rfl⟩
      · refine h.visited i (thread :: rest) hr.1 t ?_ ch ht
        rintro hin
        rcases List.mem_cons.mp hin with he | hin
        · exact hne he
        · exact hn hin
      · rw [hat, if_pos rfl]
    · rw [hcb] at hd
      cases List.mem_singleton.mp hd
    · rw [hcb] at hj
      have hji : j ≠ i := fun he => hj _ (List.mem_singleton_self _) rfl (congrArg some he.symm)
      have hold : ∀ d ∈ o.callbacks, d.visits = true → d.slot ≠ some j := by
        intro d hd _ hs
        rw [hc] at hd
        rw [List.mem_singleton.mp hd] at hs
        exact hji (Option.some.inj hs).symm
      rcases hset ht with ⟨-, ht⟩ | ⟨x, hx, rfl⟩
      · exact hm t ch ht j hold
      · rw [hat, if_neg hji]
        exact hm t x hx j hold
  | @allVisited i rc hr hrc =>
    obtain ⟨-, hc⟩ := hlife.of_removal hr.1 (Option.some_ne_none i)
    have hcb : ((o.took (.channelRemove i [])).deferred (.unquiesced i)).callbacks = [.unquiesced i] := by
      show (o.took (.channelRemove i [])).callbacks ++ [.unquiesced i] = _
      rw [took_single hc]
      rfl
    refine ⟨⟨h.refers, fun j rest hd => ?_, fun j hd t ch ht => ?_⟩, fun hm _ => hm.mono hsame (fun _ => rfl) fun d hd _ => ?_⟩
    · rw [hcb] at hd
      cases List.mem_singleton.mp hd
    · rw [hcb] at hd
      cases List.mem_singleton.mp hd
      exact h.visited i [] hr.1 t List.not_mem_nil ch ht
    · rw [hc] at hd
      rw [hcb, List.mem_singleton.mp hd]
      exact ⟨_, List.mem_singleton_self _, rfl, rfl⟩
  | unquiesceRefused hr hrc =>
    exact ⟨h.mono hsame (fun _ => rfl) fun d hd _ => List.mem_of_mem_erase hd, fun _ hrc' => absurd hrc' hrc⟩
  | unquiesceFailed hr hrc =>
    exact ⟨h.mono hsame (desc_cancel _) fun d hd _ => List.mem_of_mem_erase hd, fun _ hrc' => absurd hrc' hrc⟩
  | @unquiesced i rc hr hrc =>
    obtain ⟨-, hc⟩ := hlife.of_removal hr.1 (Option.some_ne_none i)
    have hcb : (o.took (.unquiesced i)).callbacks = [] := took_single hc
    have hfreed (j : Nat) : (((o.bdev.modSlot i cancelSlot).freeSlot i).slot j).desc =
        if j = i then none else (o.bdev.slot j).desc := by
      rw [RaidBdev.slot_freeSlot]
      split
      · rfl
      · exact desc_cancel i j
    refine ⟨⟨fun t ch ht j b hb => ?_, fun j rest hd => ?_, fun j hd => ?_⟩, fun hm _ t ch ht j _ => ?_⟩
    · show (((o.bdev.modSlot i cancelSlot).freeSlot i).slot j).desc = some b
      rw [hfreed]
      split
      · -- every channel was visited
        next hj =>
        rw [hj, h.closing i hr.1 t ch ht] at hb
        cases hb
      · exact h.refers t ch ht j b hb
    · have hd : .channelRemove j rest ∈ (o.took (.unquiesced i)).callbacks := hd
      rw [hcb] at hd
      cases hd
    · have hd : .unquiesced j ∈ (o.took (.unquiesced i)).callbacks := hd
      rw [hcb] at hd
      cases hd
    · show ch.getD j none = (((o.bdev.modSlot i cancelSlot).freeSlot i).slot j).desc
      rw [hfreed]
      by_cases hj : j = i
      · rw [if_pos hj, hj]
        exact h.closing i hr.1 t ch ht
      · rw [if_neg hj]
        refine hm t ch ht j fun d hd _ hs => hj ?_
        rw [hc] at hd
        rw [List.mem_singleton.mp hd] at hs
        exact (Option.some.inj hs).symm
  | channelFailed => exact hkeep hsame (fun _ => rfl) hcalls
  | @channelCreated thread ht ho hc =>
    have hnew {t : Nat} {ch : List (Option Nat)}
        (ht : Function.update o.channels thread (some (o.bdev.baseBdevInfo.map (·.desc))) t = some ch) :
        o.channels t = some ch ∨ ∀ j, ch.getD j none = (o.bdev.slot j).desc := by
      by_cases he : t = thread
      · rw [he, Function.update_self] at ht
        obtain rfl := Option.some.inj ht
        exact .inr fun j => List.getD_map (f := fun info : RaidBaseBdevInfo => info.desc) o.bdev.baseBdevInfo {}
      · rw [Function.update_of_ne he] at ht
        exact .inl ht
    refine ⟨⟨fun t ch ht j b hb => ?_, fun j rest hd => ?_, fun j hd => ?_⟩, fun hm _ t ch ht j hj => ?_⟩
    · rcases hnew ht with ht | hall
      · exact h.refers t ch ht j b hb
      · rw [← hall]
        exact hb
    · cases hcalm _ hd
    · cases hcalm _ hd
    · rcases hnew ht with ht | hall
      · exact hm t ch ht j hj
      · exact hall j
  | @channelDestroyed thread =>
    refine hkeep (fun t ch ht => ?_) (fun _ => rfl) hcalls
    have ht : Function.update o.channels thread none t = some ch := ht
    by_cases he : t = thread
    · rw [he, Function.update_self] at ht
      cases ht
    · rwa [Function.update_of_ne he] at ht
  | unregister hs hb => exact hkeep hsame (fun _ => rfl) (hmore rfl)

end

end RaidObject

/-! ## Every run -/

section

variable {threads : List Nat} {s : State} {r : Nat}

/-- In every orderly run in which no channel is created while a base bdev of the raid bdev is being
    removed: a channel of a raid bdev refers, for each slot, to the base bdev the slot has open, if to
    any; the module holds the claim on it, and the raid bdev is not freed. -/
theorem references_open (h : Run threads (OrderlyWith fun o a => a.Unhurried o) s) (hr : r < s.next) {t : Nat}
    {ch : List (Option Nat)} (hch : (s.mem r).channels t = some ch) :
    (s.mem r).freed = 0 ∧ ∀ i b, ch.getD i none = some b → ((s.mem r).bdev.slot i).desc = some b ∧ s.claim b = .raid := by
  have hw := OrderlyWith.run_well h
  have hall := each_raid (I := RaidObject.Referring) (fun _ => trivial) (fun _ _ hch => RaidObject.referring_none hch)
    (fun _ _ _ _ _ hlife hstand hl hord hp m hi => (hi.move hlife hstand hl hord hp m).1) h
  refine ⟨?_, fun i b hb => ?_⟩
  · have hin : (s.mem r).channels t ≠ none := by
      rw [hch]
      exact Option.some_ne_none ch
    cases (hw.lives.life r hr).1 with
    | gone hg => exact absurd (hg.channels t) hin
    | young h => exact h.live
    | online h => exact h.live
    | unregistering h => exact h.live
    | stopping h | closing h => exact h.live
    | down h => exact h.live
  · have hdesc := (hall r).refers t ch hch i b hb
    exact ⟨hdesc, hw.accounts.acct.held r i b hdesc⟩

/-- A raid1 array with a channel, from which the first base bdev is removed. -/
def smallChannel : List Event :=
  smallCreate .raid1 3 ++ [.channelCreate 0 0 true, .rpcRemove 1 (fourBdevs 0).name 0 0, .callback 0 (.quiesced 0) 0,
    .callback 0 (.channelRemove 0 [0, 1]) 0, .callback 0 (.channelRemove 0 [1]) 0, .callback 0 (.channelRemove 0 []) 0,
    .callback 0 (.unquiesced 0) 0]

theorem references_open_removed : ∃ s : State, (s.mem 0).channels 0 = some [none, some 1, some 2] ∧ (s.mem 0).freed = 0 ∧
    ((s.mem 0).bdev.slot 1).desc = some 1 ∧ s.claim 1 = .raid := by
  have hm : (smallRun (OrderlyWith fun o a => a.Unhurried o) smallChannel).map (fun s =>
      decide (s.next = 1 ∧ (s.mem 0).channels 0 = some [none, some 1, some 2])) = some true := by
    decide +kernel
  obtain ⟨s, hs, hv⟩ := Option.map_eq_some_iff.mp hm
  obtain ⟨hnext, hch⟩ := of_decide_eq_true hv
  have hzero : 0 < s.next := by
    rw [hnext]
    exact Nat.one_pos
  obtain ⟨hlive, hall⟩ := references_open (smallRun_run hs) hzero hch
  obtain ⟨hdesc, hclaim⟩ := hall 1 1 rfl
  exact ⟨s, hch, hlive, hdesc, hclaim⟩

/-- If, besides, SPDK unquiesces what it quiesced: a channel has for each slot exactly the base bdev the
    slot has open, but for a slot whose removal is at the channels. -/
theorem channels_agree (h : Run threads (OrderlyWith fun o a => a.Unhurried o ∧ a.Unquiesces) s) {t : Nat}
    {ch : List (Option Nat)} (hch : (s.mem r).channels t = some ch) {i : Nat}
    (hi : ∀ d ∈ (s.mem r).callbacks, d.visits = true → d.slot ≠ some i) :
    ch.getD i none = ((s.mem r).bdev.slot i).desc := by
  have hall := each_raid (I := fun o => o.Referring ∧ o.Matching) (fun _ => ⟨trivial, trivial⟩)
    (fun _ _ hch => ⟨RaidObject.referring_none hch, RaidObject.matching_none hch⟩)
    (fun _ _ _ _ _ hlife hstand hl hord hp m hi => by
      obtain ⟨href, hmatch⟩ := hi.1.move hlife hstand hl hord hp.1 m
      exact ⟨href, hmatch hi.2 hp.2⟩) h
  exact (hall r).2 t ch hch i hi

theorem channels_agree_removed : ∃ s : State, (s.mem 0).channels 0 = some [none, some 1, some 2] ∧
    ((s.mem 0).bdev.slot 0).desc = none ∧ ((s.mem 0).bdev.slot 2).desc = some 2 := by
  have hm : (smallRun (OrderlyWith fun o a => a.Unhurried o ∧ a.Unquiesces) smallChannel).map (fun s =>
      decide ((s.mem 0).callbacks = [] ∧ (s.mem 0).channels 0 = some [none, some 1, some 2])) = some true := by
    decide +kernel
  obtain ⟨s, hs, hv⟩ := Option.map_eq_some_iff.mp hm
  obtain ⟨hcallbacks, hch⟩ := of_decide_eq_true hv
  have hnone {i : Nat} : ∀ d ∈ (s.mem 0).callbacks, d.visits = true → d.slot ≠ some i := by
    intro d hd
    rw [hcallbacks] at hd
    cases hd
  have hrun := smallRun_run hs
  exact ⟨s, hch, (channels_agree hrun hch (i := 0) hnone).symm, (channels_agree hrun hch (i := 2) hnone).symm⟩

end

end FlexBSO.Raid

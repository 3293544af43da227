import FlexBSO.Raid.Filling

/- Who holds which base bdev. `Acct` ties the three records the module keeps of a
   base bdev in use (the descriptor in a slot, the claim in the bdev layer, the
   counter of the raid bdev) to one another; `Quiet` is what leaves all three alone.
   Only the freeing and the filling of a slot are not quiet, and each moves the
   three together. -/
namespace FlexBSO.Raid

/-! ## One raid bdev -/

/-- The counter is right, and a slot that waits for its base bdev (named, no descriptor) is in an
    array that is still configuring. -/
structure RaidBdev.Accounted (b : RaidBdev) : Prop where
  count : b.numBaseBdevsDiscovered = b.opened
  small : b.numBaseBdevs ≤ 255
  named : ∀ i, (b.slot i).desc ≠ none → (b.slot i).name ≠ none
  awaiting : ∀ i, (b.slot i).name ≠ none → (b.slot i).desc = none → b.state = .configuring

/-- No slot waits for its base bdev. -/
def RaidBdev.NoneWaiting (b : RaidBdev) : Prop := ∀ i, (b.slot i).name ≠ none → (b.slot i).desc ≠ none

/-- `b'` has the names, descriptors and the count of `b`, and stops configuring only when no slot
    waits. -/
structure RaidBdev.Quiet (b b' : RaidBdev) : Prop where
  slots : b'.baseBdevInfo.map (fun info => (info.name, info.desc)) =
    b.baseBdevInfo.map fun info => (info.name, info.desc)
  discovered : b'.numBaseBdevsDiscovered = b.numBaseBdevsDiscovered
  state : b.state = .configuring → b'.state = .configuring ∨ b.NoneWaiting

namespace RaidBdev

variable {b b' b'' : RaidBdev} {i j : Nat}

theorem Quiet.refl (b : RaidBdev) : Quiet b b := ⟨rfl, rfl, .inl⟩

theorem SameLife.quiet (h : SameLife b b') : Quiet b b' := by
  refine ⟨?_, h.discovered, fun hs => .inl (h.state.trans hs)⟩
  have hc := congrArg (List.map fun c => (c.1, c.2.1)) h.infos
  rw [List.map_map, List.map_map] at hc
  exact hc

theorem Quiet.slot (h : Quiet b b') (i : Nat) :
    (b'.slot i).name = (b.slot i).name ∧ (b'.slot i).desc = (b.slot i).desc := by
  have hm : ∀ l : List RaidBaseBdevInfo, (l.map fun info => (info.name, info.desc)).getD i (none, none) =
      ((l.getD i {}).name, (l.getD i {}).desc) :=
    fun l => List.getD_map l {} fun info => (info.name, info.desc)
  have hi := congrArg (fun l => l.getD i (none, none)) h.slots
  simp only [hm] at hi
  exact ⟨congrArg Prod.fst hi, congrArg Prod.snd hi⟩

theorem Quiet.trans (h : Quiet b b') (h' : Quiet b' b'') : Quiet b b'' := by
  refine ⟨h'.slots.trans h.slots, h'.discovered.trans h.discovered, ?_⟩
  intro hs
  rcases h.state hs with hs' | hw
  · rcases h'.state hs' with hs'' | hw
    · exact .inl hs''
    · refine .inr fun i hn => ?_
      rw [← (h.slot i).2]
      exact hw i (by rw [(h.slot i).1]; exact hn)
  · exact .inr hw

theorem Quiet.opened (h : Quiet b b') : b'.opened = b.opened := by
  have hc := congrArg (List.countP fun c => c.2.isSome) h.slots
  rw [List.countP_map, List.countP_map] at hc
  exact hc

theorem Quiet.numBaseBdevs (h : Quiet b b') : b'.numBaseBdevs = b.numBaseBdevs := by
  have hc := congrArg List.length h.slots
  rwa [List.length_map, List.length_map] at hc

theorem Accounted.quiet (hb : b.Accounted) (h : Quiet b b') : b'.Accounted where
  count := by rw [h.discovered, h.opened, hb.count]
  small := by rw [h.numBaseBdevs]; exact hb.small
  named := by
    intro i
    rw [(h.slot i).1, (h.slot i).2]
    exact hb.named i
  awaiting := by
    intro i
    rw [(h.slot i).1, (h.slot i).2]
    intro hn hd
    rcases h.state (hb.awaiting i hn hd) with hs | hw
    · exact hs
    · exact absurd hd (hw i hn)

/-- An update of a slot that keeps its name and descriptor. -/
theorem quiet_modSlot {f : RaidBaseBdevInfo → RaidBaseBdevInfo}
    (hf : ∀ info, (f info).name = info.name ∧ (f info).desc = info.desc) : Quiet b (b.modSlot i f) := by
  refine ⟨?_, rfl, .inl⟩
  apply List.ext_getElem?
  intro j
  simp only [modSlot, List.getElem?_map, List.getElem?_modify]
  cases b.baseBdevInfo[j]? with
  | none => rfl
  | some info =>
    by_cases hij : i = j
    · simp [hij, hf]
    · simp [hij]

theorem Accounted.opened_lt (hb : b.Accounted) : b.opened < 2 ^ 8 := by
  have h1 := hb.small
  have h2 := b.opened_le
  omega

theorem Accounted.discovered_le (hb : b.Accounted) : b.numBaseBdevsDiscovered ≤ b.numBaseBdevs := by
  rw [hb.count]
  exact b.opened_le

theorem Accounted.free (hb : b.Accounted) : (b.freeSlot i).Accounted where
  count := by
    have h := b.opened_freeSlot (i := i)
    have hc := hb.count
    have hlt := hb.opened_lt
    cases hd : (b.slot i).desc.isSome with
    | true =>
      have heq : (b.freeSlot i).numBaseBdevsDiscovered = u8 (b.numBaseBdevsDiscovered + 255) := by
        simp [freeSlot, hd]
      rw [hd] at h
      rw [heq, u8]
      simp only [if_true] at h
      omega
    | false =>
      have heq : (b.freeSlot i).numBaseBdevsDiscovered = b.numBaseBdevsDiscovered := by
        simp [freeSlot, hd]
      rw [hd] at h
      simp only [Bool.false_eq_true, if_false] at h
      omega
  small := by rw [numBaseBdevs_freeSlot]; exact hb.small
  named := by
    intro j
    rw [slot_freeSlot]
    split
    · intro h
      exact absurd rfl h
    · exact hb.named j
  awaiting := by
    intro j
    rw [slot_freeSlot]
    split
    · intro h
      exact absurd rfl h
    · exact hb.awaiting j

theorem desc_fillSlot {d : Nat} {bdev : Bdev} : ((b.fillSlot i d bdev).slot j).desc =
    if j = i ∧ i < b.numBaseBdevs then some d else (b.slot j).desc := by
  have h := congrArg (fun c => c.2.1) (slot_fillSlot b i j d bdev)
  by_cases hj : j = i ∧ i < b.numBaseBdevs
  · rw [if_pos hj] at h ⊢
    exact h
  · rw [if_neg hj] at h ⊢
    exact h

theorem Accounted.fill (hb : b.Accounted) {d : Nat} {bdev : Bdev} (hi : i < b.numBaseBdevs)
    (hname : (b.slot i).name ≠ none) (hdesc : (b.slot i).desc = none) : (b.fillSlot i d bdev).Accounted where
  count := by
    have h := opened_modSlot (f := fun info => (info.layout b.superblockEnabled d bdev).2) hi
    have hd : ((b.slot i).layout b.superblockEnabled d bdev).2.desc = some d :=
      congrArg (fun c => c.2.1) (layout_content (b.slot i) b.superblockEnabled d bdev)
    simp only [hd, hdesc, Option.isSome_none, Option.isSome_some, Bool.false_eq_true, if_false, if_true] at h
    have hle := (b.fillSlot i d bdev).opened_le
    have hn : (b.fillSlot i d bdev).numBaseBdevs = b.numBaseBdevs := numBaseBdevs_modSlot
    have hs := hb.small
    have hc := hb.count
    have heq : (b.fillSlot i d bdev).opened =
        (b.modSlot i fun info => (info.layout b.superblockEnabled d bdev).2).opened := rfl
    have hu : (b.fillSlot i d bdev).numBaseBdevsDiscovered = u8 (b.numBaseBdevsDiscovered + 1) := rfl
    rw [hu, u8]
    omega
  small := by
    have hn : (b.fillSlot i d bdev).numBaseBdevs = b.numBaseBdevs := numBaseBdevs_modSlot
    rw [hn]
    exact hb.small
  named := by
    intro j
    rw [desc_fillSlot, name_fillSlot]
    by_cases hj : j = i ∧ i < b.numBaseBdevs
    · intro _
      rw [hj.1]
      exact hname
    · rw [if_neg hj]
      exact hb.named j
  awaiting := by
    intro j
    rw [desc_fillSlot, name_fillSlot]
    by_cases hj : j = i ∧ i < b.numBaseBdevs
    · rw [if_pos hj]
      intro _ h
      cases h
    · rw [if_neg hj]
      exact hb.awaiting j

end RaidBdev

/-! ## The module -/

/-- The accounting of the module: slots, claims and open descriptors say the same. -/
structure Acct (s : State) : Prop where
  raids : ∀ r, (s.raid r).Accounted
  /-- memory not handed out has no slots -/
  fresh : ∀ r, s.next ≤ r → (s.raid r).baseBdevInfo = []
  listed : ∀ r ∈ s.gRaidBdevList, r < s.next
  held : ∀ r i d, (s.info r i).desc = some d → s.claim d = .raid
  unique : ∀ r i r' i' d, (s.info r i).desc = some d → (s.info r' i').desc = some d → r = r' ∧ i = i'
  claimed : ∀ d, s.claim d = .raid → ∃ r i, (s.info r i).desc = some d
  descs : ∀ d, s.descs d = if s.claim d = .raid then 1 else 0
  asserts : ∀ a ∈ s.failedAsserts, ¬ a.Entry

/-- The accounting of `t` is that of `s`. -/
structure State.Quiet (s t : State) : Prop where
  raid : ∀ r, (s.raid r).Quiet (t.raid r)
  next : t.next = s.next
  list : ∀ r ∈ t.gRaidBdevList, r ∈ s.gRaidBdevList
  claim : t.claim = s.claim
  descs : t.descs = s.descs
  asserts : ∀ a ∈ t.failedAsserts, a.Entry → a ∈ s.failedAsserts

namespace State

variable {s t u : State} {r i : Nat}

theorem Quiet.refl (s : State) : Quiet s s :=
  ⟨fun _ => .refl _, rfl, fun _ h => h, rfl, rfl, fun _ h _ => h⟩

theorem Quiet.trans (h : Quiet s t) (h' : Quiet t u) : Quiet s u :=
  ⟨fun r => (h.raid r).trans (h'.raid r), h'.next.trans h.next, fun r hr => h.list r (h'.list r hr),
    h'.claim.trans h.claim, h'.descs.trans h.descs, fun a ha he => h.asserts a (h'.asserts a ha he) he⟩

theorem Quiet.desc (h : Quiet s t) (r i : Nat) : (t.info r i).desc = (s.info r i).desc :=
  ((h.raid r).slot i).2

theorem Quiet.acct (h : Quiet s t) (hs : Acct s) : Acct t where
  raids := fun r => (hs.raids r).quiet (h.raid r)
  fresh := by
    intro r hr
    rw [h.next] at hr
    have hn := (h.raid r).numBaseBdevs
    have h0 := congrArg List.length (hs.fresh r hr)
    exact List.eq_nil_of_length_eq_zero (hn.trans h0)
  listed := by
    intro r hr
    rw [h.next]
    exact hs.listed r (h.list r hr)
  held := by
    intro r i d hd
    rw [h.claim]
    rw [h.desc] at hd
    exact hs.held r i d hd
  unique := by
    intro r i r' i' d hd hd'
    rw [h.desc] at hd hd'
    exact hs.unique r i r' i' d hd hd'
  claimed := by
    intro d hd
    rw [h.claim] at hd
    obtain ⟨r, i, hi⟩ := hs.claimed d hd
    exact ⟨r, i, (h.desc r i).trans hi⟩
  descs := by
    intro d
    rw [h.descs, h.claim]
    exact hs.descs d
  asserts := fun a ha he => hs.asserts a (h.asserts a ha he) he

/-! ### Quiet functions -/

theorem quiet_modObject {f : RaidObject → RaidObject} (h : (s.raid r).Quiet (f (s.mem r)).bdev) :
    Quiet s (s.modObject r f) := by
  refine ⟨?_, rfl, fun _ h => h, rfl, rfl, fun _ h _ => h⟩
  intro q
  by_cases hq : q = r
  · subst hq
    simp only [raid, mem_modObject]
    exact h
  · simp only [raid, mem_modObject_of_ne hq]
    exact .refl _

theorem quiet_modRaid {f : RaidBdev → RaidBdev} (h : (s.raid r).Quiet (f (s.raid r))) :
    Quiet s (s.modRaid r f) := quiet_modObject h

theorem quiet_modInfo {f : RaidBaseBdevInfo → RaidBaseBdevInfo}
    (hf : ∀ info, (f info).name = info.name ∧ (f info).desc = info.desc) : Quiet s (s.modInfo r i f) :=
  quiet_modRaid (RaidBdev.quiet_modSlot hf)

theorem quiet_defer (d : Deferred) : Quiet s (s.defer r d) := quiet_modObject (.refl _)

theorem quiet_reply (cb : Option Nat) (rc : Int) : Quiet s (s.reply cb rc) := by
  rw [reply_eq]
  exact ⟨fun _ => .refl _, rfl, fun _ h => h, rfl, rfl, fun _ h _ => h⟩

theorem quiet_failing {l : List Assertion} (hl : ∀ a ∈ l, ¬ a.Entry) : Quiet s (s.failing l) := by
  refine ⟨fun _ => .refl _, rfl, fun _ h => h, rfl, rfl, ?_⟩
  intro a ha he
  rcases List.mem_append.mp ha with h | h
  · exact h
  · exact absurd he (hl a h)

theorem quiet_assert (p : Prop) [Decidable p] {a : Assertion} (ha : ¬ a.Entry) : Quiet s (s.assert p a) := by
  rw [assert_eq]
  apply quiet_failing
  intro x hx
  split at hx
  · cases hx
  · obtain rfl := List.mem_singleton.mp hx
    exact ha

theorem quiet_cleanup : Quiet s (s.raidBdevCleanup r) := by
  obtain ⟨l, hl, heq⟩ := cleanup_eq s r
  rw [heq]
  have h₁ : Quiet s (s.modObject r fun o => { o with cleaned := o.cleaned + 1 }) := quiet_modObject (.refl _)
  have h₂ := h₁.trans (quiet_failing hl)
  exact ⟨h₂.raid, h₂.next, fun _ h => List.mem_of_mem_erase h, h₂.claim, h₂.descs, h₂.asserts⟩

theorem quiet_free : Quiet s (s.raidBdevFree r) := quiet_modObject (.refl _)

theorem quiet_cleanupAndFree : Quiet s (s.raidBdevCleanupAndFree r) := quiet_cleanup.trans quiet_free

theorem quiet_moduleStop : Quiet s (s.moduleStop r) := by
  unfold moduleStop
  split
  · exact quiet_defer _
  · exact .refl s

theorem quiet_bdevUnregister (cb : Option Nat) : Quiet s (s.bdevUnregister r cb) := by
  unfold bdevUnregister
  split
  · exact quiet_reply cb _
  · exact quiet_reply cb _
  · exact (quiet_modRaid ⟨rfl, rfl, .inl⟩).trans (quiet_defer _)

theorem quiet_deconfigure (cb : Option Nat) : Quiet s (s.raidBdevDeconfigure r cb) := by
  unfold raidBdevDeconfigure
  split
  · exact quiet_reply cb _
  · next hs =>
    have hs' : (s.raid r).state ≠ .configuring := by
      intro h
      exact hs (by rw [h]; decide)
    have h₁ : Quiet s (s.modRaid r fun raid => { raid with state := .offline }) :=
      quiet_modRaid ⟨rfl, rfl, fun h => absurd h hs'⟩
    exact (h₁.trans (quiet_assert _ (by simp [Assertion.Entry]))).trans (quiet_bdevUnregister cb)

theorem quiet_moduleStopDone : Quiet s (s.raidBdevModuleStopDone r) := by
  unfold raidBdevModuleStopDone
  split
  · exact (quiet_modObject (.refl _)).trans (quiet_defer _)
  · exact .refl s

theorem quiet_destructDone : Quiet s (s.bdevDestructDone r) :=
  (quiet_modRaid ⟨rfl, rfl, .inl⟩).trans (quiet_reply _ _)

theorem quiet_ioDeviceUnregisterCb : Quiet s (s.raidBdevIoDeviceUnregisterCb r) := by
  unfold raidBdevIoDeviceUnregisterCb
  split
  · exact (quiet_cleanup.trans quiet_destructDone).trans quiet_free
  · exact quiet_destructDone

theorem quiet_resize (b : Nat) (notifyRc : Int) : Quiet s (s.raidBdevResizeBaseBdev b notifyRc) := by
  unfold raidBdevResizeBaseBdev
  split
  · exact .refl s
  · split
    · split
      · exact quiet_modRaid (RaidBdev.sameLife_raid0Resize _ _).quiet
      · exact quiet_assert _ (by simp [Assertion.Entry])
    · exact .refl s

theorem quiet_onQuiesced (threads : List Nat) (status : Int) :
    Quiet s (s.raidBdevRemoveBaseBdevOnQuiesced threads r i status) := by
  unfold raidBdevRemoveBaseBdevOnQuiesced
  split
  · exact (quiet_modInfo (by simp)).trans (quiet_reply _ _)
  · exact quiet_defer _

theorem quiet_channelsDone (rc : Int) : Quiet s (s.raidBdevChannelsRemoveBaseBdevDone r i rc) := by
  unfold raidBdevChannelsRemoveBaseBdevDone
  split
  · exact quiet_defer _
  · exact .refl s

theorem quiet_createCb (thread : Nat) (ok : Bool) : Quiet s (s.raidBdevCreateCb r thread ok) := by
  unfold raidBdevCreateCb
  have h₁ : Quiet s (s.assert ((s.raid r).state = .online) .channelState) :=
    quiet_assert _ (by simp [Assertion.Entry])
  cases ok with
  | false => exact h₁
  | true =>
    simp only [if_true]
    exact h₁.trans (quiet_modObject (.refl _))

theorem quiet_take (d : Deferred) : Quiet s (s.take r d) := by
  have h₁ : Quiet s (s.touch r) := by
    rw [touch_eq]
    exact ⟨fun _ => .refl _, rfl, fun _ h => h, rfl, rfl, fun _ h _ => h⟩
  exact h₁.trans (quiet_modObject (.refl _))

theorem quiet_bdevDestroy : Quiet s (s.bdevDestroy r) := by
  apply quiet_modRaid
  cases (s.raid r).status <;> exact ⟨rfl, rfl, .inl⟩

/-! ### Freeing and filling a slot -/

theorem acct_free (hs : Acct s) : Acct (s.raidBdevFreeBaseBdevResource r i) := by
  have hdesc : ∀ q j, ((s.modRaid r fun b => b.freeSlot i).info q j).desc =
      if q = r ∧ j = i then none else (s.info q j).desc := by
    intro q j
    simp only [info_eq]
    by_cases hq : q = r
    · subst hq
      simp only [raid, modRaid, mem_modObject, RaidBdev.slot_freeSlot]
      by_cases hj : j = i
      · simp only [hj, and_self, if_true]
      · simp only [hj, and_false, if_false]
    · simp only [raid, modRaid, mem_modObject_of_ne hq, hq, false_and, if_false]
  have hraids : ∀ q, ((s.modRaid r fun b => b.freeSlot i).raid q).Accounted := by
    intro q
    by_cases hq : q = r
    · subst hq
      simp only [raid, modRaid, mem_modObject]
      exact (hs.raids q).free
    · simp only [raid, modRaid, mem_modObject_of_ne hq]
      exact hs.raids q
  have hfresh : ∀ q, s.next ≤ q → ((s.modRaid r fun b => b.freeSlot i).raid q).baseBdevInfo = [] := by
    intro q hq
    have h0 := hs.fresh q hq
    by_cases hqr : q = r
    · subst hqr
      have hn := RaidBdev.numBaseBdevs_freeSlot (b := s.raid q) (i := i)
      simp only [raid, modRaid, mem_modObject]
      exact List.eq_nil_of_length_eq_zero (hn.trans (congrArg List.length h0))
    · simp only [raid, modRaid, mem_modObject_of_ne hqr]
      exact h0
  cases hd : (s.info r i).desc with
  | none =>
    rw [free_closed hd]
    have hsame : ∀ q j, ((s.modRaid r fun b => b.freeSlot i).info q j).desc = (s.info q j).desc := by
      intro q j
      rw [hdesc]
      split
      · next h =>
        rw [h.1, h.2, hd]
      · rfl
    refine ⟨hraids, hfresh, hs.listed, ?_, ?_, ?_, hs.descs, hs.asserts⟩
    · intro q j d h
      rw [hsame] at h
      exact hs.held q j d h
    · intro q j q' j' d h h'
      rw [hsame] at h h'
      exact hs.unique q j q' j' d h h'
    · intro d h
      obtain ⟨q, j, hj⟩ := hs.claimed d h
      exact ⟨q, j, (hsame q j).trans hj⟩
  | some d =>
    rw [free_open hd]
    have hothers : ∀ q j d', ((s.modRaid r fun b => b.freeSlot i).info q j).desc = some d' →
        (s.info q j).desc = some d' ∧ d' ≠ d := by
      intro q j d' h
      rw [hdesc] at h
      split at h
      · cases h
      · next hne =>
        refine ⟨h, ?_⟩
        rintro rfl
        exact hne (hs.unique q j r i d' h hd)
    refine ⟨hraids, hfresh, hs.listed, ?_, ?_, ?_, ?_, ?_⟩
    · intro q j d' h
      obtain ⟨h, hne⟩ := hothers q j d' h
      exact (Function.update_of_ne hne _ _).trans (hs.held q j d' h)
    · intro q j q' j' d' h h'
      exact hs.unique q j q' j' d' (hothers q j d' h).1 (hothers q' j' d' h').1
    · intro d' h
      have hne : d' ≠ d := by
        rintro rfl
        simp at h
      simp only [Function.update_of_ne hne] at h
      obtain ⟨q, j, hj⟩ := hs.claimed d' h
      refine ⟨q, j, (hdesc q j).trans ?_⟩
      rw [if_neg, hj]
      rintro ⟨rfl, rfl⟩
      rw [hd] at hj
      exact hne (Option.some.inj hj).symm
    · intro d'
      by_cases hne : d' = d
      · subst hne
        have hdescs := hs.descs d'
        rw [hs.held r i d' hd, if_pos rfl] at hdescs
        simp [hdescs]
      · simp only [Function.update_of_ne hne]
        exact hs.descs d'
    · intro a ha
      rcases List.mem_append.mp ha with h | h
      · exact hs.asserts a h
      · split at h
        · cases h
        · obtain rfl := List.mem_singleton.mp h
          simp [Assertion.Entry]

theorem acct_filled (hs : Acct s) {d : Nat} (hi : i < (s.raid r).numBaseBdevs) (hname : (s.info r i).name ≠ none)
    (hdesc : (s.info r i).desc = none) (hd : s.claim d = .none) : Acct (s.filled r i d) := by
  have hraid : ∀ q, q ≠ r → (s.filled r i d).raid q = s.raid q := by
    intro q hq
    simp only [filled, raid, modRaid, mem_modObject_of_ne hq]
  have hdescs : ∀ q j, ((s.filled r i d).info q j).desc = if q = r ∧ j = i then some d else (s.info q j).desc := by
    intro q j
    simp only [info_eq]
    by_cases hq : q = r
    · subst hq
      rw [raid_filled, RaidBdev.desc_fillSlot]
      simp only [hi, and_true, true_and]
    · rw [hraid q hq]
      simp only [hq, false_and, if_false]
  -- nobody held `d`: it was not claimed
  have hfree : ∀ q j, (s.info q j).desc ≠ some d := by
    intro q j h
    have hc := hs.held q j d h
    rw [hd] at hc
    cases hc
  refine ⟨?_, ?_, hs.listed, ?_, ?_, ?_, ?_, hs.asserts⟩
  · intro q
    by_cases hq : q = r
    · subst hq
      rw [raid_filled]
      exact (hs.raids q).fill hi hname hdesc
    · rw [hraid q hq]
      exact hs.raids q
  · intro q hq
    have h0 := hs.fresh q hq
    by_cases hqr : q = r
    · subst hqr
      exact List.eq_nil_of_length_eq_zero ((numBaseBdevs_filled d).trans (congrArg List.length h0))
    · rw [hraid q hqr]
      exact h0
  · intro q j d' h
    rw [hdescs] at h
    by_cases hne : d' = d
    · subst hne
      exact Function.update_self _ _ _
    · split at h
      · exact absurd (Option.some.inj h).symm hne
      · exact (Function.update_of_ne hne _ _).trans (hs.held q j d' h)
  · intro q j q' j' d' h h'
    rw [hdescs] at h h'
    split at h
    · next h1 =>
      obtain rfl := Option.some.inj h
      split at h'
      · next h2 => exact ⟨h1.1.trans h2.1.symm, h1.2.trans h2.2.symm⟩
      · exact absurd h' (hfree q' j')
    · split at h'
      · obtain rfl := Option.some.inj h'
        exact absurd h (hfree q j)
      · exact hs.unique q j q' j' d' h h'
  · intro d' h
    by_cases hne : d' = d
    · subst hne
      exact ⟨r, i, by rw [hdescs, if_pos ⟨rfl, rfl⟩]⟩
    · simp only [filled, Function.update_of_ne hne] at h
      obtain ⟨q, j, hj⟩ := hs.claimed d' h
      refine ⟨q, j, ?_⟩
      rw [hdescs, if_neg, hj]
      rintro ⟨rfl, rfl⟩
      rw [hdesc] at hj
      cases hj
  · intro d'
    have hds := hs.descs d'
    by_cases hne : d' = d
    · subst hne
      rw [hd] at hds
      simp [filled, hds]
    · simp only [filled, Function.update_of_ne hne]
      exact hds

/-- `raid_bdev_configure`, entered as it should be -/
theorem acct_configure (hs : Acct s) (a : Answer) (hstate : (s.raid r).state = .configuring)
    (hn : (s.raid r).numBaseBdevsDiscovered = (s.raid r).numBaseBdevs) :
    Acct (s.raidBdevConfigure r a).1 ∧ Configured s r (s.raidBdevConfigure r a) := by
  have hfull : ∀ info ∈ (s.raid r).baseBdevInfo, info.desc.isSome = true :=
    RaidBdev.opened_eq_iff.mp ((hs.raids r).count.symm.trans hn)
  have hc := configure_cases a hstate hn hfull
  refine ⟨?_, hc⟩
  generalize s.raidBdevConfigure r a = out at hc
  have hgeom : ∀ b, (s.raid r).SameLife b → Quiet s (s.modRaid r fun _ => b) :=
    fun b hb => quiet_modRaid hb.quiet
  cases hc with
  | failed b rc hb => exact (hgeom b hb).acct hs
  | refused b rc hb => exact ((hgeom b hb).trans quiet_moduleStop).acct hs
  | online b hb =>
    have h₁ : Quiet s (s.modRaid r fun _ => b) := hgeom b hb
    refine (h₁.trans ?_).acct hs
    have hnone : b.NoneWaiting := by
      intro j hname hdesc
      by_cases hj : j < (s.raid r).numBaseBdevs
      · have hsome := hfull _ (RaidBdev.slot_mem hj)
        rw [← hb.desc, hdesc] at hsome
        cases hsome
      · rw [← hb.numBaseBdevs] at hj
        rw [RaidBdev.slot_of_ge (Nat.le_of_not_lt hj)] at hname
        exact hname rfl
    have heq : (s.modObject r fun o =>
        { o with bdev := { b with state := .online, status := .ready }, ioDevice := true }) =
        (s.modRaid r fun _ => b).modObject r fun o =>
          { o with bdev := { o.bdev with state := .online, status := .ready }, ioDevice := true } := by
      rw [modRaid, modObject_modObject]
    rw [heq]
    set u := s.modRaid r fun _ => b with hu
    have hb' : u.raid r = b := raid_modRaid
    have hq : (u.raid r).Quiet { (u.mem r).bdev with state := .online, status := .ready } := by
      refine ⟨rfl, rfl, fun _ => .inr ?_⟩
      rw [hb']
      exact hnone
    exact quiet_modObject (s := u) (f := fun o =>
      { o with bdev := { o.bdev with state := .online, status := .ready }, ioDevice := true }) hq

/-- The slot a base bdev is put in: named, waiting, in an array still configuring. -/
structure Waiting (s : State) (r i : Nat) : Prop where
  lt : i < (s.raid r).numBaseBdevs
  name : (s.info r i).name ≠ none
  desc : (s.info r i).desc = none
  state : (s.raid r).state = .configuring

theorem acct_full (hs : Acct s) (h : Waiting s r i) (d : Nat) (hd : s.claim d = .none)
    (hn : ((s.filled r i d).raid r).numBaseBdevsDiscovered = (s.raid r).numBaseBdevs) :
    ∀ info ∈ ((s.filled r i d).raid r).baseBdevInfo, info.desc.isSome = true := by
  have h₁ := (acct_filled hs h.lt h.name h.desc hd).raids r
  apply RaidBdev.opened_eq_iff.mp
  rw [← h₁.count, hn]
  exact (numBaseBdevs_filled d).symm

theorem acct_configureBase (hs : Acct s) (h : Waiting s r i) (a : Answer) :
    Acct (s.raidBdevConfigureBaseBdev r i a).1 := by
  have hcases := configureBase_cases s r i a
  generalize s.raidBdevConfigureBaseBdev r i a = out at hcases
  have hfill : ∀ (l : List Assertion) (d : Nat), (∀ x ∈ l, ¬ x.Entry) → s.claim d = .none →
      Acct ((s.filled r i d).failing l) := by
    intro l d hl hd
    exact (quiet_failing hl).acct (acct_filled hs h.lt h.name h.desc hd)
  cases hcases with
  | missing l rc hl hrc => exact (quiet_failing hl).acct hs
  | mislaid l rc d hl hrc hd => exact hfill l d hl hd
  | partly l d hl hd hn => exact hfill l d hl hd
  | complete l d hl hd hn =>
    have hr : ((s.filled r i d).failing l).raid r = (s.filled r i d).raid r := rfl
    refine (acct_configure (hfill l d hl hd) a ?_ ?_).1
    · rw [hr, raid_filled]
      exact h.state
    · rw [hr, hn]
      exact (numBaseBdevs_filled d).symm

theorem configureBase_effect (hs : Acct s) (h : Waiting s r i) (a : Answer) :
    Filled s (s.raidBdevConfigureBaseBdev r i a).1 r (s.raidBdevConfigureBaseBdev r i a).2 :=
  configureBase_filled s r i a fun d hd hn => ⟨h.state, acct_full hs h d hd hn⟩

/-! ### Requests and events -/

theorem acct_foldl {f : State → Nat → State} (l : List Nat) (hf : ∀ t i, Acct t → Acct (f t i)) (hs : Acct s) :
    Acct (l.foldl f s) :=
  List.foldlRecOn l f hs fun t ht i _ => hf t i ht

theorem acct_removeSlot (hs : Acct s) (cb : Option Nat) (quiesceRc : Int) :
    Acct (s.removeSlot r i cb quiesceRc) := by
  unfold removeSlot
  split
  · exact hs
  · have h₁ : Acct (s.modInfo r i fun info => { info with removeScheduled := true, removeCb := cb }) :=
      (quiet_modInfo (by simp)).acct hs
    simp only []
    generalize s.modInfo r i (fun info => { info with removeScheduled := true, removeCb := cb }) = s₁ at h₁
    split
    · split
      · exact quiet_cleanupAndFree.acct (acct_free h₁)
      · exact acct_free h₁
    · split
      · exact (quiet_deconfigure cb).acct h₁
      · split
        · exact (quiet_modInfo (by simp)).acct h₁
        · exact (quiet_defer _).acct h₁

theorem acct_remove (hs : Acct s) (b : Nat) (cb : Option Nat) (quiesceRc : Int) :
    Acct (s.raidBdevRemoveBaseBdev b cb quiesceRc).1 := by
  unfold raidBdevRemoveBaseBdev
  split
  · exact hs
  · exact acct_removeSlot hs cb quiesceRc

theorem acct_delete (hs : Acct s) (cb : Option Nat) : Acct (s.raidBdevDelete r cb) := by
  unfold raidBdevDelete
  split
  · exact (quiet_reply cb _).acct hs
  · have h₁ : Acct (s.modRaid r fun raid => { raid with destroyStarted := true }) :=
      (quiet_modRaid ⟨rfl, rfl, .inl⟩).acct hs
    simp only []
    generalize s.modRaid r (fun raid => { raid with destroyStarted := true }) = s₁ at h₁
    have h₂ := acct_foldl (List.range (s₁.raid r).numBaseBdevs) (f := fun s i =>
      if ((s.modInfo r i fun info => { info with removeScheduled := true }).raid r).state ≠ .online then
        (s.modInfo r i fun info => { info with removeScheduled := true }).raidBdevFreeBaseBdevResource r i
      else s.modInfo r i fun info => { info with removeScheduled := true })
      (by
        intro t i ht
        have h := (quiet_modInfo (s := t) (r := r) (i := i) (f := fun info => { info with removeScheduled := true })
          (by simp)).acct ht
        split
        · exact acct_free h
        · exact h) h₁
    split
    · exact ((quiet_cleanupAndFree.trans (quiet_reply cb _))).acct h₂
    · exact (quiet_deconfigure cb).acct h₂

theorem acct_destruct (hs : Acct s) : Acct (s.raidBdevDestruct r) := by
  rw [destruct_eq]
  obtain ⟨honly, d, hmem⟩ := destructLoop s r
  have h₁ : Acct ((List.range (s.raid r).numBaseBdevs).foldl (destructTurn r) s) := by
    apply acct_foldl _ _ hs
    intro t i ht
    unfold destructTurn
    split
    · exact acct_free ht
    · exact ht
  simp only [] at honly hmem ⊢
  generalize (List.range (s.raid r).numBaseBdevs).foldl (destructTurn r) s = t at h₁ honly hmem
  have h₂ : Acct (if t.gShutdownStarted then t.modRaid r fun raid => { raid with state := .offline } else t) := by
    cases hshut : t.gShutdownStarted with
    | false => exact h₁
    | true =>
      -- every slot was cleared, so that none waits
      have hname : ∀ i, ((t.raid r).slot i).name = none := by
        intro i
        by_cases hi : i < (t.raid r).numBaseBdevs
        · have hslot := RaidBdev.slot_mem hi
          have hinfos : (t.raid r).baseBdevInfo = (s.raid r).baseBdevInfo.map clearSlot := by
            rw [raid, hmem, ← honly.gShutdownStarted, hshut]
            simp [destructSlot]
          rw [hinfos] at hslot
          obtain ⟨info, _, heq⟩ := List.mem_map.mp hslot
          rw [← heq]
          rfl
        · rw [RaidBdev.slot_of_ge (Nat.le_of_not_lt hi)]
      have hquiet : Quiet t (t.modRaid r fun raid => { raid with state := .offline }) :=
        quiet_modRaid ⟨rfl, rfl, fun _ => .inr fun i hn => absurd (hname i) hn⟩
      exact hquiet.acct h₁
  split
  · exact (quiet_defer _).acct h₂
  · exact quiet_moduleStopDone.acct h₂

theorem acct_runCallback (hs : Acct s) (threads : List Nat) (d : Deferred) (rc : Int) :
    Acct (s.runCallback threads r d rc) := by
  cases d with
  | destruct => exact acct_destruct (quiet_bdevDestroy.acct hs)
  | moduleStopDone => exact quiet_moduleStopDone.acct hs
  | ioDeviceUnregister => exact quiet_ioDeviceUnregisterCb.acct hs
  | quiesced i => exact (quiet_onQuiesced threads rc).acct hs
  | channelRemove i ts =>
    cases ts with
    | nil => exact (quiet_channelsDone rc).acct hs
    | cons t rest =>
      have h : Quiet s (s.raidBdevChannelRemoveBaseBdev r i t) := quiet_modObject (.refl _)
      exact (h.trans (quiet_defer _)).acct hs
  | unquiesced i =>
    have h : Acct (s.modInfo r i fun info => { info with removeScheduled := false }) :=
      (quiet_modInfo (by simp)).acct hs
    simp only [runCallback, raidBdevRemoveBaseBdevOnUnquiesced]
    refine (quiet_reply _ _).acct ?_
    split
    · exact h
    · exact acct_free h

theorem waiting_of_awaitingSlot (hs : Acct s) {name : String} (h : s.awaitingSlot r name = some i) :
    Waiting s r i := by
  obtain ⟨hlt, hp, _⟩ := List.findIdx?_eq_some_iff_getElem.mp h
  simp only [Bool.and_eq_true, beq_iff_eq] at hp
  have hslot : (s.raid r).slot i = (s.raid r).baseBdevInfo[i] := RaidBdev.slot_eq_getElem hlt
  have hdesc : (s.info r i).desc = none := by
    rw [info_eq, hslot]
    exact hp.1
  have hname : (s.info r i).name ≠ none := by
    rw [info_eq, hslot, hp.2]
    exact Option.some_ne_none name
  exact ⟨hlt, hname, hdesc, (hs.raids r).awaiting i hname hdesc⟩

theorem acct_examineRaid (hs : Acct s) (name : String) (answers : Nat → Answer) :
    Acct (examineRaid name answers s r) := by
  unfold examineRaid
  cases h : s.awaitingSlot r name with
  | none => exact hs
  | some i => exact acct_configureBase hs (waiting_of_awaitingSlot hs h) _

theorem acct_examine (hs : Acct s) (b : Nat) (answers : Nat → Answer) : Acct (s.raidBdevExamine b answers) :=
  acct_foldl _ (fun _ _ ht => acct_examineRaid ht _ _) hs

theorem acct_claim (hs : Acct s) {b : Nat} {c : Claim} (hb : s.claim b ≠ .raid) (hc : c ≠ .raid) :
    Acct { s with claim := Function.update s.claim b c } := by
  have hsame : ∀ d, Function.update s.claim b c d = .raid ↔ s.claim d = .raid := by
    intro d
    by_cases hd : d = b
    · subst hd
      rw [Function.update_self]
      exact ⟨fun h => absurd h hc, fun h => absurd h hb⟩
    · rw [Function.update_of_ne hd]
  refine ⟨hs.raids, hs.fresh, hs.listed, ?_, hs.unique, ?_, ?_, hs.asserts⟩
  · exact fun r i d h => (hsame d).mpr (hs.held r i d h)
  · exact fun d h => hs.claimed d ((hsame d).mp h)
  · intro d
    have h := hs.descs d
    simp only [hsame]
    exact h

/-! ### The request that creates a raid bdev -/

theorem slot_make {name : String} {stripSize n uuid : Nat} {level : RaidLevel} {sb : Bool} {b : RaidBdev}
    (h : RaidBdev.make name stripSize n level sb uuid = .ok b) (i : Nat) : b.slot i = {} := by
  obtain ⟨rfl, _⟩ := make_eq h
  simp only [RaidBdev.slot]
  by_cases hi : i < n
  · rw [List.getD_eq_getElem _ _ (by rwa [List.length_replicate]), List.getElem_replicate]
  · rw [List.getD_eq_default _ _ (by rw [List.length_replicate]; exact Nat.le_of_not_lt hi)]

theorem accounted_make {name : String} {stripSize n uuid : Nat} {level : RaidLevel} {sb : Bool} {b : RaidBdev}
    (h : RaidBdev.make name stripSize n level sb uuid = .ok b) (hn : n ≤ 255) : b.Accounted := by
  have hslot := slot_make h
  obtain ⟨rfl, _⟩ := make_eq h
  refine ⟨?_, ?_, ?_, ?_⟩
  · simp [RaidBdev.opened, List.countP_replicate]
  · simpa [RaidBdev.numBaseBdevs] using hn
  · intro i hd
    rw [hslot] at hd
    exact absurd rfl hd
  · intro i hd
    rw [hslot] at hd
    exact absurd rfl hd

/-- The state `raid_bdev_create` leaves. -/
def created (s : State) (b : RaidBdev) : State :=
  { s with
    mem := Function.update s.mem s.next { bdev := b }
    next := s.next + 1
    gRaidBdevList := s.gRaidBdevList ++ [s.next] }

theorem acct_created (hs : Acct s) {name : String} {stripSize n uuid : Nat} {level : RaidLevel} {sb : Bool}
    {b : RaidBdev} (h : RaidBdev.make name stripSize n level sb uuid = .ok b) (hn : n ≤ 255) :
    Acct (s.created b) := by
  have hslot := slot_make h
  have hraid : ∀ r, r ≠ s.next → (s.created b).raid r = s.raid r := by
    intro r hr
    simp only [raid, created, Function.update_of_ne hr]
  have hnew : (s.created b).raid s.next = b := by
    simp only [raid, created, Function.update_self]
  have hold : ∀ i, ((s.raid s.next).slot i).desc = none := by
    intro i
    have h0 := hs.fresh s.next (Nat.le_refl _)
    rw [RaidBdev.slot_of_ge (by rw [RaidBdev.numBaseBdevs, h0]; exact Nat.zero_le _)]
  have hdesc : ∀ r i, ((s.created b).info r i).desc = (s.info r i).desc := by
    intro r i
    rw [info_eq, info_eq]
    by_cases hr : r = s.next
    · rw [hr, hnew, hslot, hold]
    · rw [hraid r hr]
  refine ⟨?_, ?_, ?_, ?_, ?_, ?_, hs.descs, hs.asserts⟩
  · intro r
    by_cases hr : r = s.next
    · rw [hr, hnew]
      exact accounted_make h hn
    · rw [hraid r hr]
      exact hs.raids r
  · intro r hr
    have hlt : s.next + 1 ≤ r := hr
    rw [hraid r (by omega)]
    exact hs.fresh r (by omega)
  · intro r hr
    have hlt : r < s.next + 1 := by
      rcases List.mem_append.mp hr with h | h
      · exact Nat.lt_succ_of_lt (hs.listed r h)
      · rw [List.mem_singleton.mp h]
        exact Nat.lt_succ_self _
    exact hlt
  · intro r i d hd
    rw [hdesc] at hd
    exact hs.held r i d hd
  · intro r i r' i' d hd hd'
    rw [hdesc] at hd hd'
    exact hs.unique r i r' i' d hd hd'
  · intro d hd
    obtain ⟨r, i, hi⟩ := hs.claimed d hd
    exact ⟨r, i, (hdesc r i).trans hi⟩

/-- What `raid_bdev_create` answers and leaves. -/
theorem create_cases (req : CreateRequest) (alloc : Bool) :
    (∃ rc, rc ≠ 0 ∧ s.raidBdevCreate req alloc = (s, .error rc)) ∨
    ∃ b, RaidBdev.make req.name req.stripSizeKb req.baseBdevs.length req.level req.superblockEnabled req.uuid =
      .ok b ∧ s.raidBdevFindByName req.name = none ∧ s.raidBdevCreate req alloc = (s.created b, .ok s.next) := by
  unfold raidBdevCreate
  cases hname : s.raidBdevFindByName req.name with
  | some r => exact .inl ⟨-EEXIST, by decide, rfl⟩
  | none =>
    simp only [Option.isSome_none, Bool.false_eq_true, if_false]
    cases hmake : RaidBdev.make req.name req.stripSizeKb req.baseBdevs.length req.level req.superblockEnabled req.uuid with
    | error rc =>
      refine .inl ⟨rc, ?_, rfl⟩
      rw [make_error hmake]
      decide
    | ok b =>
      cases alloc with
      | false => exact .inl ⟨-ENOMEM, by decide, rfl⟩
      | true => exact .inr ⟨b, rfl, trivial, rfl⟩

/-- A `bdev_raid_create` request in its loop: its raid bdev is configuring, and the slots the loop
    has not come to are untouched. -/
structure Serving (s : State) (p : CreateRpc) : Prop where
  raid : p.raid < s.next
  state : (s.raid p.raid).state = .configuring
  slots : p.error = none → p.baseBdevs ≠ [] ∧ p.slot + p.baseBdevs.length = (s.raid p.raid).numBaseBdevs ∧
    ∀ i, p.slot ≤ i → (s.info p.raid i).name = none

theorem acct_named (hs : Acct s) (name : String)
    (hstate : (s.raid r).state = .configuring) :
    Acct (s.modInfo r i fun info => { info with name := some name }) := by
  set t := s.modInfo r i fun info => { info with name := some name } with ht
  have hr : t.raid r = (s.raid r).modSlot i fun info => { info with name := some name } := by
    rw [ht, modInfo_eq, raid_modRaid]
  have hne : ∀ q, q ≠ r → t.raid q = s.raid q := by
    intro q hq
    rw [ht, modInfo_eq]
    simp only [raid, modRaid, mem_modObject_of_ne hq]
  have hdescs : ∀ q j, (t.info q j).desc = (s.info q j).desc := by
    intro q j
    rw [info_eq, info_eq]
    by_cases hq : q = r
    · rw [hq, hr, RaidBdev.slot_modSlot]
      split
      · next h => rw [h.1]
      · rfl
    · rw [hne q hq]
  have hacc := hs.raids r
  refine ⟨?_, ?_, hs.listed, ?_, ?_, ?_, hs.descs, hs.asserts⟩
  · intro q
    by_cases hq : q = r
    · rw [hq]
      refine ⟨?_, ?_, ?_, ?_⟩
      · have hcount : (t.raid r).numBaseBdevsDiscovered = (s.raid r).numBaseBdevsDiscovered := by
          rw [hr]
          rfl
        rw [hcount, hacc.count, hr]
        by_cases hi : i < (s.raid r).numBaseBdevs
        · have h := RaidBdev.opened_modSlot (f := fun info => { info with name := some name }) hi
          simp only [] at h
          omega
        · simp only [RaidBdev.opened, RaidBdev.modSlot]
          rw [List.modify_eq_self (Nat.le_of_not_lt hi)]
      · rw [hr, RaidBdev.numBaseBdevs_modSlot]
        exact hacc.small
      · intro j hd
        have hd' : ((s.raid r).slot j).desc ≠ none := by
          have h := hdescs r j
          rw [info_eq, info_eq] at h
          rwa [h] at hd
        rw [hr, RaidBdev.slot_modSlot]
        split
        · exact Option.some_ne_none name
        · exact hacc.named j hd'
      · intro j _ _
        rw [hr]
        exact hstate
    · rw [hne q hq]
      exact hs.raids q
  · intro q hq
    have h0 := hs.fresh q hq
    by_cases hqr : q = r
    · rw [hqr] at h0 ⊢
      rw [hr]
      exact List.eq_nil_of_length_eq_zero (RaidBdev.numBaseBdevs_modSlot.trans (congrArg List.length h0))
    · rw [hne q hqr]
      exact h0
  · intro q j d h
    rw [hdescs] at h
    exact hs.held q j d h
  · intro q j q' j' d h h'
    rw [hdescs] at h h'
    exact hs.unique q j q' j' d h h'
  · intro d h
    obtain ⟨q, j, hj⟩ := hs.claimed d h
    exact ⟨q, j, (hdescs q j).trans hj⟩

theorem built_modSlot_name (b : RaidBdev) (i : Nat) (name : String) :
    b.Built (b.modSlot i fun info => { info with name := some name }) := by
  refine ⟨rfl, rfl, rfl, rfl, rfl, rfl, rfl, RaidBdev.numBaseBdevs_modSlot, ?_, ?_⟩
  · intro j
    rw [RaidBdev.slot_modSlot]
    split
    · next h =>
      rw [h.1]
      exact ⟨rfl, rfl⟩
    · exact ⟨rfl, rfl⟩
  · intro j hd
    rw [RaidBdev.slot_modSlot]
    split
    · next h =>
      rw [h.1] at hd
      exact hd
    · exact hd

theorem built_of_named {o o₁ o' : RaidObject} (h : o₁.Built o') (name : String)
    (ho : o₁ = { o with bdev := o.bdev.modSlot i fun info => { info with name := some name } }) : o.Built o' := by
  subst ho
  exact ⟨(built_modSlot_name o.bdev i name).trans h.bdev, h.channels, h.cleaned, h.freed, h.outcome⟩

/-- One `raid_bdev_add_base_device` of the loop of `rpc_bdev_raid_create` -/
structure Added (s t : State) (p : CreateRpc) (rc : Int) : Prop where
  acct : Acct t
  only : Only p.raid s t
  built : (s.mem p.raid).Built (t.mem p.raid)
  names : ∀ i, i ≠ p.slot → (t.info p.raid i).name = (s.info p.raid i).name
  state : rc ≠ 0 ∨ p.slot + 1 < (s.raid p.raid).numBaseBdevs → (t.raid p.raid).state = .configuring

theorem addBase_effect (hs : Acct s) {p : CreateRpc} (hp : Serving s p) (herr : p.error = none) (name : String)
    (a : Answer) : Added s (s.raidBdevAddBaseDevice p.raid name p.slot a).1 p
      (s.raidBdevAddBaseDevice p.raid name p.slot a).2 := by
  obtain ⟨hne, hlen, hnames⟩ := hp.slots herr
  have hlt : p.slot < (s.raid p.raid).numBaseBdevs := by
    have h := List.length_pos_iff.mpr hne
    omega
  have hname : (s.info p.raid p.slot).name = none := hnames p.slot (Nat.le_refl _)
  have hdesc : (s.info p.raid p.slot).desc = none := by
    by_contra h
    exact (hs.raids p.raid).named p.slot h hname
  unfold raidBdevAddBaseDevice
  rw [if_neg (Nat.not_le.mpr hlt), if_neg (not_not_intro hname)]
  by_cases hdup : a.strdup = false
  · rw [if_pos hdup]
    exact ⟨hs, .refl s, .refl _, fun _ _ => rfl, fun _ => hp.state⟩
  · rw [if_neg hdup]
    have hacct := acct_named (i := p.slot) hs name hp.state
    set u := s.modInfo p.raid p.slot fun info => { info with name := some name } with hu
    have hr : u.raid p.raid = (s.raid p.raid).modSlot p.slot fun info => { info with name := some name } := by
      rw [hu, modInfo_eq, raid_modRaid]
    have honly : Only p.raid s u := by
      rw [hu, modInfo_eq, modRaid]
      exact only_modObject _
    have hwait : Waiting u p.raid p.slot := by
      refine ⟨?_, ?_, ?_, ?_⟩
      · rw [hr, RaidBdev.numBaseBdevs_modSlot]
        exact hlt
      · rw [info_eq, hr, RaidBdev.slot_modSlot_self hlt]
        exact Option.some_ne_none name
      · rw [info_eq, hr, RaidBdev.slot_modSlot_self hlt]
        exact hdesc
      · rw [hr]
        exact hp.state
    have hfill := configureBase_effect hacct hwait a
    have hacct' := acct_configureBase hacct hwait a
    generalize u.raidBdevConfigureBaseBdev p.raid p.slot a = out at hfill hacct'
    have hbuilt : (s.mem p.raid).Built (out.1.mem p.raid) := built_of_named (i := p.slot) hfill.built name
      (by rw [hu, modInfo_eq, modRaid, mem_modObject])
    have hother : ∀ i, i ≠ p.slot → (out.1.info p.raid i).name = (s.info p.raid i).name := by
      intro i hi
      rw [hfill.names i, info_eq, hr, RaidBdev.slot_modSlot_of_ne hi]
      rfl
    refine ⟨hacct', honly.trans hfill.only, hbuilt, hother, ?_⟩
    rintro (hrc | hnext)
    · rw [hfill.state hrc]
      exact hwait.state
    · rcases hfill.built.outcome with ⟨h, _⟩ | ⟨_, _, _, _, hall⟩
      · exact h.trans hwait.state
      · -- the slot after is still unnamed, so it has no descriptor
        exfalso
        have hlt' : p.slot + 1 < (out.1.raid p.raid).numBaseBdevs := by
          rw [raid, hbuilt.bdev.numBaseBdevs]
          exact hnext
        have hsome := hall _ (RaidBdev.slot_mem hlt')
        have hnone : ((out.1.raid p.raid).slot (p.slot + 1)).name = none :=
          (hother (p.slot + 1) (by omega)).trans (hnames _ (by omega))
        refine (hacct'.raids p.raid).named (p.slot + 1) ?_ hnone
        exact Option.isSome_iff_ne_none.mp hsome

end State

/-! ## Every run -/

open State

/-- The accounting, together with the request in its loop. -/
structure Accounts (s : State) : Prop where
  acct : Acct s
  serving : ∀ p, s.rpc = some p → Serving s p

variable {threads : List Nat} {ok : State → Event → Prop} {s t : State}

theorem accounts_init (names : String → Option Nat) (bdevs : Nat → Bdev) (claimed : Nat → Bool) :
    Accounts (State.init names bdevs claimed) := by
  have hslot : ∀ r i, (State.init names bdevs claimed).info r i = {} := fun _ _ => rfl
  have hclaim : ∀ d, (State.init names bdevs claimed).claim d ≠ .raid := by
    intro d h
    simp only [State.init] at h
    split at h <;> cases h
  refine ⟨⟨?_, fun _ _ => rfl, fun _ h => absurd h List.not_mem_nil, ?_, ?_, ?_, ?_, ?_⟩, fun p h => by cases h⟩
  · intro r
    refine ⟨rfl, Nat.zero_le _, ?_, ?_⟩
    · intro i h
      exact absurd rfl h
    · intro i h
      exact absurd rfl h
  · intro r i d h
    rw [hslot] at h
    cases h
  · intro r i r' i' d h
    rw [hslot] at h
    cases h
  · intro d h
    exact absurd h (hclaim d)
  · intro d
    rw [if_neg (hclaim d)]
    rfl
  · intro a h
    cases h

/-- Outside of a request nothing is to be said of it. -/
theorem accounts_of_idle (hs : Acct s) (hrpc : s.rpc = none) : Accounts s := by
  refine ⟨hs, fun p hp => ?_⟩
  rw [hrpc] at hp
  cases hp

theorem rpc_examine (s : State) (b : Nat) (answers : Nat → Answer) (hs : Acct s) :
    (s.raidBdevExamine b answers).rpc = s.rpc := by
  have key : Acct (s.raidBdevExamine b answers) ∧ (s.raidBdevExamine b answers).rpc = s.rpc := by
    unfold raidBdevExamine
    refine List.foldlRecOn (motive := fun u => Acct u ∧ u.rpc = s.rpc) _ _ ⟨hs, rfl⟩ ?_
    rintro u ⟨hu, hrpc⟩ r _
    refine ⟨acct_examineRaid hu _ _, ?_⟩
    unfold examineRaid
    cases h : u.awaitingSlot r (s.bdevs b).name with
    | none => exact hrpc
    | some i => exact (configureBase_effect hu (waiting_of_awaitingSlot hu h) _).only.rpc.trans hrpc
  exact key.2

theorem serving_created {req : CreateRequest} {b : RaidBdev} (request : Nat)
    (h : RaidBdev.make req.name req.stripSizeKb req.baseBdevs.length req.level req.superblockEnabled req.uuid = .ok b) :
    Serving { s.created b with rpc := some { request, raid := s.next, baseBdevs := req.baseBdevs } }
      { request, raid := s.next, baseBdevs := req.baseBdevs } := by
  have hraid : (s.created b).raid s.next = b := by
    simp only [raid, created, Function.update_self]
  have hslot := slot_make h
  obtain ⟨hb, _, _, hmin, _⟩ := make_eq h
  have hlen : b.numBaseBdevs = req.baseBdevs.length := by
    rw [hb]
    exact List.length_replicate
  refine ⟨Nat.lt_succ_self _, ?_, fun _ => ⟨?_, ?_, ?_⟩⟩
  · show ((s.created b).raid s.next).state = .configuring
    rw [hraid, hb]
  · intro hnil
    have hnil' : req.baseBdevs = [] := hnil
    have h1 : 1 ≤ req.level.module.baseBdevsMin := by
      cases req.level <;> decide
    rw [hnil'] at hmin
    exact absurd (Nat.le_trans h1 hmin) (by decide)
  · show 0 + req.baseBdevs.length = ((s.created b).raid s.next).numBaseBdevs
    rw [hraid, hlen, Nat.zero_add]
  · intro i _
    show (((s.created b).raid s.next).slot i).name = none
    rw [hraid, hslot]

theorem acct_rpc (hs : Acct s) (p : Option CreateRpc) : Acct { s with rpc := p } :=
  ⟨hs.raids, hs.fresh, hs.listed, hs.held, hs.unique, hs.claimed, hs.descs, hs.asserts⟩

theorem accounts_rpcCreateStart (hs : Acct s) (hrpc : s.rpc = none) (request : Nat) {req : CreateRequest}
    (alloc : Bool) (hn : req.baseBdevs.length ≤ rpcMaxBaseBdevs) : Accounts (s.rpcCreateStart request req alloc) := by
  unfold rpcCreateStart
  rcases create_cases req alloc (s := s) with ⟨rc, _, heq⟩ | ⟨b, hmake, _, heq⟩
  · rw [heq]
    exact accounts_of_idle ((quiet_reply _ rc).acct hs) ((local_reply (r := 0) _ rc).rpc.trans hrpc)
  · rw [heq]
    refine ⟨acct_rpc (acct_created hs hmake hn) _, ?_⟩
    intro p hp
    obtain rfl := Option.some.inj hp
    exact serving_created request hmake

theorem rpc_remove (b : Nat) (cb : Option Nat) (quiesceRc : Int) :
    (s.raidBdevRemoveBaseBdev b cb quiesceRc).1.rpc = s.rpc := by
  unfold raidBdevRemoveBaseBdev
  split
  · rfl
  · exact (local_removeSlot cb quiesceRc).rpc

theorem rpc_resize (b : Nat) (notifyRc : Int) : (s.raidBdevResizeBaseBdev b notifyRc).rpc = s.rpc := by
  unfold raidBdevResizeBaseBdev
  split
  · rfl
  · next r i _ =>
    split
    · split
      · exact (only_modRaid (r := r) _).rpc
      · exact (only_assert (r := r) _ _).rpc
    · rfl

theorem accounts_rpcRemove (hs : Acct s) (hrpc : s.rpc = none) (request : Nat) (name : String) (openRc quiesceRc : Int) :
    Accounts (s.rpcBdevRaidRemoveBaseBdev request name openRc quiesceRc) := by
  have hreply : ∀ (u : State) (rc : Int), Acct u → u.rpc = none → Accounts (u.reply (some request) rc) := by
    intro u rc hu hurpc
    exact accounts_of_idle ((quiet_reply _ rc).acct hu) ((local_reply (r := 0) _ rc).rpc.trans hurpc)
  unfold rpcBdevRaidRemoveBaseBdev
  split
  · exact hreply s _ hs hrpc
  · next b _ =>
    split
    · exact hreply s _ hs hrpc
    · have h₁ := acct_remove hs b (some request) quiesceRc
      have h₂ := (rpc_remove (s := s) b (some request) quiesceRc).trans hrpc
      simp only []
      split
      · exact hreply _ _ h₁ h₂
      · exact accounts_of_idle h₁ h₂

theorem accounts_stepIdle (hs : Acct s) (hrpc : s.rpc = none) {e : Event} (h : stepIdle threads s e = some t) :
    Accounts t := by
  cases e with
  | rpcCreate request req alloc =>
    simp only [stepIdle] at h
    split at h
    · next hn =>
      obtain rfl := Option.some.inj h
      exact accounts_rpcCreateStart hs hrpc request alloc hn
    · cases h
  | rpcCreateAdd a => cases h
  | rpcCreateFail => cases h
  | rpcDelete request name =>
    obtain rfl := Option.some.inj h
    unfold rpcBdevRaidDelete
    split
    · exact accounts_of_idle ((quiet_reply _ _).acct hs) ((local_reply (r := 0) _ _).rpc.trans hrpc)
    · exact accounts_of_idle (acct_delete hs _) ((local_delete _).rpc.trans hrpc)
  | rpcRemove request name openRc quiesceRc =>
    obtain rfl := Option.some.inj h
    exact accounts_rpcRemove hs hrpc request name openRc quiesceRc
  | remove b cb quiesceRc =>
    obtain rfl := Option.some.inj h
    exact accounts_of_idle (acct_remove hs b cb quiesceRc) ((rpc_remove b cb quiesceRc).trans hrpc)
  | resize b notifyRc =>
    obtain rfl := Option.some.inj h
    exact accounts_of_idle ((quiet_resize b notifyRc).acct hs) ((rpc_resize b notifyRc).trans hrpc)
  | examine b answers =>
    obtain rfl := Option.some.inj h
    exact accounts_of_idle (acct_examine hs b answers) ((rpc_examine s b answers hs).trans hrpc)
  | callback r d rc =>
    simp only [stepIdle] at h
    split at h
    · obtain rfl := Option.some.inj h
      refine accounts_of_idle (acct_runCallback ((quiet_take d).acct hs) threads d rc) ?_
      exact ((local_take d).trans (local_runCallback threads d rc)).rpc.trans hrpc
    · cases h
  | channelCreate r thread ok' =>
    simp only [stepIdle] at h
    split at h
    · obtain rfl := Option.some.inj h
      have hq : Quiet s (s.touch r) := by
        rw [touch_eq]
        exact ⟨fun _ => .refl _, rfl, fun _ h => h, rfl, rfl, fun _ h _ => h⟩
      exact accounts_of_idle ((hq.trans (quiet_createCb thread ok')).acct hs)
        ((local_touch.trans (local_createCb thread ok')).rpc.trans hrpc)
    · cases h
  | channelDestroy r thread =>
    simp only [stepIdle] at h
    split at h
    · obtain rfl := Option.some.inj h
      have hq : Quiet s (s.raidBdevDestroyCb r thread) := quiet_modObject (.refl _)
      exact accounts_of_idle (hq.acct hs) hrpc
    · cases h
  | finiStart =>
    obtain rfl := Option.some.inj h
    have hq : Quiet s { s with gShutdownStarted := true } :=
      ⟨fun _ => .refl _, rfl, fun _ h => h, rfl, rfl, fun _ h _ => h⟩
    exact accounts_of_idle (hq.acct hs) hrpc
  | bdevUnregister r cb =>
    simp only [stepIdle] at h
    split at h
    · obtain rfl := Option.some.inj h
      exact accounts_of_idle ((quiet_bdevUnregister cb).acct hs) ((local_bdevUnregister cb).rpc.trans hrpc)
    · cases h
  | bdevs names bdevs =>
    obtain rfl := Option.some.inj h
    have hq : Quiet s { s with names, bdevs } :=
      ⟨fun _ => .refl _, rfl, fun _ h => h, rfl, rfl, fun _ h _ => h⟩
    exact accounts_of_idle (hq.acct hs) hrpc
  | claimOther b =>
    simp only [stepIdle] at h
    split at h
    · next hb =>
      obtain rfl := Option.some.inj h
      refine accounts_of_idle (acct_claim hs ?_ (by decide)) hrpc
      rw [hb]
      decide
    · cases h
  | releaseOther b =>
    simp only [stepIdle] at h
    split at h
    · next hb =>
      obtain rfl := Option.some.inj h
      refine accounts_of_idle (acct_claim hs ?_ (by decide)) hrpc
      rw [hb]
      decide
    · cases h

theorem accounts_rpcCreateAdd (hs : Acct s) {p : CreateRpc} (hp : Serving s p) (herr : p.error = none)
    {name : String} {rest : List String} (hbase : p.baseBdevs = name :: rest) (a : Answer) :
    Accounts (s.rpcCreateAdd p name rest a) := by
  have hadd := addBase_effect hs hp herr name a
  unfold rpcCreateAdd
  generalize s.raidBdevAddBaseDevice p.raid name p.slot a = out at hadd
  obtain ⟨u, rc⟩ := out
  simp only [] at hadd ⊢
  obtain ⟨_, hlen, hnames⟩ := hp.slots herr
  rw [hbase, List.length_cons] at hlen
  split
  · next hrc =>
    refine ⟨acct_rpc hadd.acct _, fun p' hp' => ?_⟩
    obtain rfl := Option.some.inj hp'
    refine ⟨?_, hadd.state (.inl hrc.2), fun h => by cases h⟩
    show p.raid < u.next
    rw [hadd.only.next]
    exact hp.raid
  · split
    · exact accounts_of_idle ((quiet_reply _ _).acct (acct_rpc hadd.acct none)) (local_reply (r := 0) _ _).rpc
    · next hrest =>
      refine ⟨acct_rpc hadd.acct _, fun p' hp' => ?_⟩
      obtain rfl := Option.some.inj hp'
      have hpos : 0 < rest.length := List.length_pos_iff.mpr hrest
      refine ⟨?_, hadd.state (.inr (by omega)), fun _ => ⟨hrest, ?_, ?_⟩⟩
      · show p.raid < u.next
        rw [hadd.only.next]
        exact hp.raid
      · show p.slot + 1 + rest.length = (u.raid p.raid).numBaseBdevs
        have hn : (u.raid p.raid).numBaseBdevs = (s.raid p.raid).numBaseBdevs := hadd.built.bdev.numBaseBdevs
        omega
      · intro i hi
        have hi' : p.slot + 1 ≤ i := hi
        show (u.info p.raid i).name = none
        rw [hadd.names i (by omega)]
        exact hnames i (by omega)

theorem accounts_step (hs : Accounts s) {e : Event} (h : step threads s e = some t) : Accounts t := by
  unfold step at h
  split at h
  · next hrpc => exact accounts_stepIdle hs.acct hrpc h
  · next p hrpc =>
    split at h
    · obtain rfl := Option.some.inj h
      refine accounts_of_idle ?_ (local_reply (r := 0) _ _).rpc
      exact (quiet_reply _ _).acct (acct_rpc (acct_delete hs.acct none) none)
    · next name rest a herr hbase =>
      obtain rfl := Option.some.inj h
      exact accounts_rpcCreateAdd hs.acct (hs.serving p hrpc) herr hbase a
    · cases h

theorem run_accounts (h : Run threads ok s) : Accounts s := by
  obtain ⟨names, bdevs, claimed, hreach⟩ := h
  exact hreach.invariant (accounts_init names bdevs claimed) fun _ _ _ hi _ hst => accounts_step hi hst

/-- Discovery accounting: in every state of every run, each raid bdev counts its open descriptors,
    a base bdev is claimed by the module if and only if one slot of one raid bdev holds it, and
    `raid_bdev_configure` has only been entered while configuring with every slot filled. -/
theorem discovery_accounting (h : Run threads ok s) :
    (∀ r, (s.raid r).numBaseBdevsDiscovered = (s.raid r).baseBdevInfo.countP (·.desc.isSome) ∧
      (s.raid r).numBaseBdevsDiscovered ≤ (s.raid r).numBaseBdevs) ∧
    (∀ d, s.claim d = .raid ↔ ∃! slot : Nat × Nat, (s.info slot.1 slot.2).desc = some d) ∧
    .configureState ∉ s.failedAsserts ∧ .configureCount ∉ s.failedAsserts ∧ .configureDesc ∉ s.failedAsserts := by
  have hs := (run_accounts h).acct
  refine ⟨fun r => ⟨(hs.raids r).count, (hs.raids r).discovered_le⟩, fun d => ⟨fun hd => ?_, ?_⟩, ?_, ?_, ?_⟩
  · obtain ⟨r, i, hi⟩ := hs.claimed d hd
    refine ⟨(r, i), hi, ?_⟩
    intro slot hslot
    obtain ⟨h1, h2⟩ := hs.unique slot.1 slot.2 r i d hslot hi
    exact Prod.ext h1 h2
  · rintro ⟨slot, hslot, _⟩
    exact hs.held slot.1 slot.2 d hslot
  · exact fun ha => hs.asserts _ ha (.inl rfl)
  · exact fun ha => hs.asserts _ ha (.inr (.inl rfl))
  · exact fun ha => hs.asserts _ ha (.inr (.inr rfl))

/-- A raid1 array online on two base bdevs holds both. -/
theorem discovery_accounting_mirror : ∃ s, smallRun (fun _ _ => True) (smallCreate .raid1 2) = some s ∧
    (s.raid 0).state = .online ∧ s.claim 0 = .raid ∧
    ∃! slot : Nat × Nat, (s.info slot.1 slot.2).desc = some 0 := by
  have hm : (smallRun (fun _ _ => True) (smallCreate .raid1 2)).map (fun s => ((s.raid 0).state, s.claim 0)) =
      some (.online, .raid) := by decide +kernel
  obtain ⟨s, hs, hv⟩ := Option.map_eq_some_iff.mp hm
  obtain ⟨hstate, hclaim⟩ := Prod.mk.inj hv
  exact ⟨s, hs, hstate, hclaim, ((discovery_accounting (smallRun_run hs)).2.1 0).mp hclaim⟩

end FlexBSO.Raid

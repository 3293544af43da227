import FlexBSO.Raid.Effects
import FlexBSO.Raid.Shape

/- How a raid bdev comes about: what `raid_bdev_configure_base_bdev` and
   `raid_bdev_configure` do to it, and what they leave alone. -/
namespace FlexBSO.Raid

/-! ## What stays when an array is configured or resized -/

/-- What a slot is about, without the layout of its data region. -/
def RaidBaseBdevInfo.content (info : RaidBaseBdevInfo) : Option String × Option Nat × Bool × Option Nat :=
  (info.name, info.desc, info.removeScheduled, info.removeCb)

/-- `b'` differs from `b` in geometry only. -/
structure RaidBdev.SameLife (b b' : RaidBdev) : Prop where
  name : b'.name = b.name
  uuid : b'.uuid = b.uuid
  infos : b'.baseBdevInfo.map (·.content) = b.baseBdevInfo.map (·.content)
  stripSizeKb : b'.stripSizeKb = b.stripSizeKb
  state : b'.state = b.state
  discovered : b'.numBaseBdevsDiscovered = b.numBaseBdevsDiscovered
  min : b'.minBaseBdevsOperational = b.minBaseBdevsOperational
  level : b'.level = b.level
  destroyStarted : b'.destroyStarted = b.destroyStarted
  superblockEnabled : b'.superblockEnabled = b.superblockEnabled
  status : b'.status = b.status

namespace RaidBdev

variable {b b' b'' : RaidBdev}

theorem SameLife.refl (b : RaidBdev) : SameLife b b := by
  constructor <;> rfl

theorem SameLife.trans (h : SameLife b b') (h' : SameLife b' b'') : SameLife b b'' where
  name := h'.name.trans h.name
  uuid := h'.uuid.trans h.uuid
  infos := h'.infos.trans h.infos
  stripSizeKb := h'.stripSizeKb.trans h.stripSizeKb
  state := h'.state.trans h.state
  discovered := h'.discovered.trans h.discovered
  min := h'.min.trans h.min
  level := h'.level.trans h.level
  destroyStarted := h'.destroyStarted.trans h.destroyStarted
  superblockEnabled := h'.superblockEnabled.trans h.superblockEnabled
  status := h'.status.trans h.status

theorem SameLife.numBaseBdevs (h : SameLife b b') : b'.numBaseBdevs = b.numBaseBdevs := by
  have hlen := congrArg List.length h.infos
  rwa [List.length_map, List.length_map] at hlen

theorem SameLife.content (h : SameLife b b') (i : Nat) : (b'.slot i).content = (b.slot i).content := by
  have hi := congrArg (fun l => l.getD i (RaidBaseBdevInfo.content {})) h.infos
  simp only [List.getD_map] at hi
  exact hi

theorem SameLife.desc (h : SameLife b b') (i : Nat) : (b'.slot i).desc = (b.slot i).desc :=
  congrArg (fun c => c.2.1) (h.content i)

theorem sameLife_mapInfo (dataSize : RaidBaseBdevInfo → Nat) :
    SameLife b (b.mapInfo fun info => { info with dataSize := dataSize info }) := by
  constructor <;> simp only [mapInfo, List.map_map]
  apply List.map_congr_left
  intro info _
  rfl

theorem sameLife_start (alloc : Bool) : SameLife b (b.start alloc).2 := by
  unfold start
  cases b.level with
  | raid0 =>
    have h := sameLife_mapInfo (b := b) fun _ => b.wholeStrips b.minBlockcnt
    simp only [raid0Start]
    split <;> constructor <;> first | exact h.infos | rfl
  | raid1 =>
    cases alloc with
    | false => exact .refl b
    | true =>
      have h := sameLife_mapInfo (b := b) fun _ => b.minBlockcnt
      constructor <;> first | exact h.infos | rfl
  | concat =>
    cases alloc with
    | false => exact .refl b
    | true =>
      have h := sameLife_mapInfo (b := b) fun info => b.wholeStrips info.dataSize
      constructor <;> first | exact h.infos | rfl
  | raid5f =>
    cases alloc with
    | false => exact .refl b
    | true =>
      have h := sameLife_mapInfo (b := b) fun _ => b.minBlockcnt / b.stripSize * b.stripSize
      constructor <;> first | exact h.infos | rfl

theorem sameLife_configureMd (bs : List Bdev) : SameLife b (b.configureMd bs).2 := by
  obtain ⟨mdLen, mdInterleave, h⟩ := configureMd_eq b bs
  rw [h]
  constructor <;> rfl

theorem sameLife_configureGeometry (bdevs : Nat → Bdev) (alloc : Bool) :
    SameLife b (b.configureGeometry bdevs alloc).2 := by
  unfold configureGeometry
  cases commonBlocklen 0 (b.bases bdevs) with
  | none => exact .refl b
  | some blocklen =>
    simp only []
    split
    · constructor <;> rfl
    · set b₁ : RaidBdev := { b with
        stripSize := u32 (b.stripSizeKb * 1024) / blocklen
        stripSizeShift := spdkU32Log2 (u32 (b.stripSizeKb * 1024) / blocklen)
        blocklenShift := spdkU32Log2 blocklen, blocklen }
      have h₁ : SameLife b b₁ := by constructor <;> rfl
      have h₂ := h₁.trans (sameLife_configureMd (b₁.bases bdevs))
      split
      · exact h₂
      · exact h₂.trans (sameLife_start alloc)

theorem sameLife_raid0Resize (bdevs : Nat → Bdev) (notifyRc : Int) :
    SameLife b (b.raid0Resize bdevs notifyRc) := by
  unfold raid0Resize
  simp only []
  split
  · exact .refl b
  · split
    · exact .refl b
    · set dataSize := b.wholeStrips _
      have h := sameLife_mapInfo (b := b) fun _ => dataSize
      constructor <;> first | exact h.infos | rfl

end RaidBdev

/-! ## Filling a slot -/

/-- The raid bdev's part of `raid_bdev_configure_base_bdev`, up to the call of
    `raid_bdev_configure` -/
def RaidBdev.fillSlot (b : RaidBdev) (i d : Nat) (bdev : Bdev) : RaidBdev :=
  { b.modSlot i fun info => (info.layout b.superblockEnabled d bdev).2 with
    numBaseBdevsDiscovered := u8 (b.numBaseBdevsDiscovered + 1) }

theorem layout_content (info : RaidBaseBdevInfo) (sb : Bool) (d : Nat) (bdev : Bdev) :
    (info.layout sb d bdev).2.content = (info.name, some d, info.removeScheduled, info.removeCb) := by
  unfold RaidBaseBdevInfo.layout
  cases sb with
  | false => rfl
  | true =>
    simp only [if_true]
    split <;> rfl

namespace State

variable {s : State} {r i : Nat}

/-- The state after base bdev `d` was opened, claimed and laid out for slot `i`. -/
def filled (s : State) (r i d : Nat) : State :=
  { s.modRaid r fun b => b.fillSlot i d (s.bdevs d) with
    claim := Function.update s.claim d .raid
    descs := Function.update s.descs d (s.descs d + 1) }

theorem raid_filled (d : Nat) : (s.filled r i d).raid r = (s.raid r).fillSlot i d (s.bdevs d) := by
  simp only [filled, raid, modRaid, mem_modObject]

theorem numBaseBdevs_filled (d : Nat) : ((s.filled r i d).raid r).numBaseBdevs = (s.raid r).numBaseBdevs := by
  rw [raid_filled]
  exact RaidBdev.numBaseBdevs_modSlot

/-- What `raid_bdev_configure` answers and leaves, entered as it should be. -/
inductive Configured (s : State) (r : Nat) : State × Int → Prop where
  | failed (b : RaidBdev) (rc : Int) (hb : (s.raid r).SameLife b) (hrc : rc ≠ 0) :
      Configured s r (s.modRaid r fun _ => b, rc)
  | refused (b : RaidBdev) (rc : Int) (hb : (s.raid r).SameLife b) (hrc : rc ≠ 0) :
      Configured s r ((s.modRaid r fun _ => b).moduleStop r, rc)
  | online (b : RaidBdev) (hb : (s.raid r).SameLife b) : Configured s r
      (s.modObject r fun o => { o with bdev := { b with state := .online, status := .ready }, ioDevice := true }, 0)

theorem configure_cases (a : Answer) (hs : (s.raid r).state = .configuring)
    (hn : (s.raid r).numBaseBdevsDiscovered = (s.raid r).numBaseBdevs)
    (hd : ∀ info ∈ (s.raid r).baseBdevInfo, info.desc.isSome = true) :
    Configured s r (s.raidBdevConfigure r a) := by
  have hb := RaidBdev.sameLife_configureGeometry (b := s.raid r) s.bdevs a.alloc
  unfold raidBdevConfigure
  simp only [State.assert, if_pos hs, if_pos hn, if_pos hd]
  cases hg : (s.raid r).configureGeometry s.bdevs a.alloc with
  | mk rc b =>
    rw [hg] at hb
    simp only []
    split
    · next hrc => exact .failed b rc hb hrc
    · split
      · next hreg => exact .refused b a.registerRc hb hreg
      · have h := Configured.online b hb
        rw [modRaid, modObject_modObject]
        exact h

/-- What `raid_bdev_configure_base_bdev` answers and leaves. -/
inductive FilledBy (s : State) (r i : Nat) (a : Answer) : State × Int → Prop where
  | missing (l : List Assertion) (rc : Int) (hl : ∀ x ∈ l, ¬ x.Entry) (hrc : rc ≠ 0) :
      FilledBy s r i a (s.failing l, rc)
  | mislaid (l : List Assertion) (rc : Int) (d : Nat) (hl : ∀ x ∈ l, ¬ x.Entry) (hrc : rc ≠ 0)
      (hd : s.claim d = .none) : FilledBy s r i a ((s.filled r i d).failing l, rc)
  | partly (l : List Assertion) (d : Nat) (hl : ∀ x ∈ l, ¬ x.Entry) (hd : s.claim d = .none)
      (hn : ((s.filled r i d).raid r).numBaseBdevsDiscovered ≠ (s.raid r).numBaseBdevs) :
      FilledBy s r i a ((s.filled r i d).failing l, 0)
  | complete (l : List Assertion) (d : Nat) (hl : ∀ x ∈ l, ¬ x.Entry) (hd : s.claim d = .none)
      (hn : ((s.filled r i d).raid r).numBaseBdevsDiscovered = (s.raid r).numBaseBdevs) :
      FilledBy s r i a (((s.filled r i d).failing l).raidBdevConfigure r a)

/-- `raid_bdev_configure_base_bdev` once the base bdev is claimed, up to its checks -/
theorem filled_eq (s : State) (r i d : Nat) (l₀ : List Assertion) (h₀ : ∀ x ∈ l₀, ¬ x.Entry) :
    let s₁ : State := { s.failing l₀ with
      claim := Function.update s.claim d .raid, descs := Function.update s.descs d (s.descs d + 1) }
    let s₂ := s₁.assert ((s₁.raid r).state ≠ .online) .baseState
    let s₃ := s₂.modInfo r i fun _ => ((s₂.info r i).layout (s₂.raid r).superblockEnabled d (s₂.bdevs d)).2
    let s₄ := s₃.modRaid r fun raid => { raid with numBaseBdevsDiscovered := u8 (raid.numBaseBdevsDiscovered + 1) }
    ∃ l, (∀ x ∈ l, ¬ x.Entry) ∧
      s₄.assert ((s₄.raid r).numBaseBdevsDiscovered ≤ (s₄.raid r).numBaseBdevs) .baseCount =
        (s.filled r i d).failing l := by
  intro s₁ s₂ s₃ s₄
  set l₁ : List Assertion := if (s₁.raid r).state ≠ .online then [] else [.baseState] with hl₁
  set l₂ : List Assertion :=
    if (s₄.raid r).numBaseBdevsDiscovered ≤ (s₄.raid r).numBaseBdevs then [] else [.baseCount] with hl₂
  refine ⟨l₀ ++ l₁ ++ l₂, ?_, ?_⟩
  · intro x hx
    rcases List.mem_append.mp hx with h | h
    · rcases List.mem_append.mp h with h | h
      · exact h₀ x h
      · rw [hl₁] at h
        split at h
        · cases h
        · obtain rfl := List.mem_singleton.mp h
          rintro (h | h | h) <;> cases h
    · rw [hl₂] at h
      split at h
      · cases h
      · obtain rfl := List.mem_singleton.mp h
        rintro (h | h | h) <;> cases h
  · have h₂ : s₂ = s₁.failing l₁ := assert_eq _ _
    have hi : s₂.info r i = s.info r i := by
      rw [h₂]
      rfl
    have hr : s₂.raid r = s.raid r := by
      rw [h₂]
      rfl
    have hb : s₂.bdevs = s.bdevs := by
      rw [h₂]
      rfl
    have h₄ : s₄ = (s.filled r i d).failing (l₀ ++ l₁) := by
      have hinfo : (s.mem r).bdev.baseBdevInfo.modify i
            (fun _ => ((s.info r i).layout (s.raid r).superblockEnabled d (s.bdevs d)).2) =
          (s.mem r).bdev.baseBdevInfo.modify i
            fun info => (info.layout (s.raid r).superblockEnabled d (s.bdevs d)).2 := modify_congr rfl
      simp only [raid] at hinfo
      simp only [s₄, s₃, hi, hr, hb]
      simp only [h₂, s₁, filled, failing, modInfo, modRaid, modObject, Function.update_self,
        Function.update_idem, RaidBdev.fillSlot, RaidBdev.modSlot, hinfo, List.append_assoc, raid]
    rw [assert_eq, ← hl₂, h₄]
    simp only [failing, List.append_assoc]

theorem configureBase_cases (s : State) (r i : Nat) (a : Answer) :
    FilledBy s r i a (s.raidBdevConfigureBaseBdev r i a) := by
  set l₀ : List Assertion := (if (s.info r i).name ≠ none then [] else [.baseName]) ++
    if (s.info r i).desc = none then [] else [.baseDesc] with hl₀
  have h₀ : ∀ x ∈ l₀, ¬ x.Entry := by
    intro x hx
    rcases List.mem_append.mp hx with h | h
    · split at h
      · cases h
      · obtain rfl := List.mem_singleton.mp h
        rintro (h | h | h) <;> cases h
    · split at h
      · cases h
      · obtain rfl := List.mem_singleton.mp h
        rintro (h | h | h) <;> cases h
  have hs : ((s.assert ((s.info r i).name ≠ none) .baseName).assert
      (((s.assert ((s.info r i).name ≠ none) .baseName).info r i).desc = none) .baseDesc) = s.failing l₀ := by
    rw [assert_eq, assert_eq, failing, hl₀, ← List.append_assoc]
    rfl
  unfold raidBdevConfigureBaseBdev
  simp only [hs]
  cases hname : ((s.failing l₀).info r i).name.bind (s.failing l₀).names with
  | none => exact .missing l₀ (-ENODEV) h₀ (by decide)
  | some d =>
    simp only []
    by_cases hopen : a.openRc = 0
    · by_cases hclaim : s.claim d = .none
      · have hc : (s.failing l₀).claim d = .none := hclaim
        obtain ⟨l, hl, heq⟩ := filled_eq s r i d l₀ h₀
        have key : ∀ (t : State) (rc : Int), t = (s.filled r i d).failing l → FilledBy s r i a
            (if rc ≠ 0 then (t, rc)
            else if (t.raid r).numBaseBdevsDiscovered = (t.raid r).numBaseBdevs then t.raidBdevConfigure r a
            else (t, 0)) := by
          rintro t rc rfl
          have hraid : ((s.filled r i d).failing l).raid r = (s.filled r i d).raid r := rfl
          rw [hraid, numBaseBdevs_filled]
          by_cases hrc : rc = 0
          · rw [if_neg (not_not_intro hrc)]
            by_cases hn : ((s.filled r i d).raid r).numBaseBdevsDiscovered = (s.raid r).numBaseBdevs
            · rw [if_pos hn]
              exact .complete l d hl hclaim hn
            · rw [if_neg hn]
              exact .partly l d hl hclaim hn
          · rw [if_pos hrc]
            exact .mislaid l rc d hl hrc hclaim
        rw [if_neg (by simpa using hopen), if_neg (by simpa using hc)]
        exact key _ _ heq
      · have hc : (s.failing l₀).claim d ≠ .none := hclaim
        rw [if_neg (by simpa using hopen), if_pos hc]
        exact .missing l₀ (-EPERM) h₀ (by decide)
    · rw [if_pos hopen]
      exact .missing l₀ a.openRc h₀ hopen

end State

/-! ## What filling a slot leaves alone -/

/-- `b'` is `b` with more slots filled. -/
structure RaidBdev.Built (b b' : RaidBdev) : Prop where
  name : b'.name = b.name
  uuid : b'.uuid = b.uuid
  stripSizeKb : b'.stripSizeKb = b.stripSizeKb
  min : b'.minBaseBdevsOperational = b.minBaseBdevsOperational
  level : b'.level = b.level
  destroyStarted : b'.destroyStarted = b.destroyStarted
  superblockEnabled : b'.superblockEnabled = b.superblockEnabled
  numBaseBdevs : b'.numBaseBdevs = b.numBaseBdevs
  flags : ∀ i, (b'.slot i).removeScheduled = (b.slot i).removeScheduled ∧
    (b'.slot i).removeCb = (b.slot i).removeCb
  descs : ∀ i, (b.slot i).desc ≠ none → (b'.slot i).desc ≠ none

/-- `o'` is `o` with more slots filled; when the last is, the raid bdev may go online. -/
structure RaidObject.Built (o o' : RaidObject) : Prop where
  bdev : o.bdev.Built o'.bdev
  channels : o'.channels = o.channels
  cleaned : o'.cleaned = o.cleaned
  freed : o'.freed = o.freed
  outcome : (o'.bdev.state = o.bdev.state ∧ o'.bdev.status = o.bdev.status ∧ o'.ioDevice = o.ioDevice ∧
      ∃ n, o'.callbacks = o.callbacks ++ List.replicate n .moduleStopDone) ∨
    (o'.bdev.state = .online ∧ o'.bdev.status = .ready ∧ o'.ioDevice = true ∧
      (∃ n, o'.callbacks = o.callbacks ++ List.replicate n .moduleStopDone) ∧
      ∀ info ∈ o'.bdev.baseBdevInfo, info.desc.isSome = true)

theorem RaidBdev.SameLife.built {b b' : RaidBdev} (h : SameLife b b') : Built b b' where
  name := h.name
  uuid := h.uuid
  stripSizeKb := h.stripSizeKb
  min := h.min
  level := h.level
  destroyStarted := h.destroyStarted
  superblockEnabled := h.superblockEnabled
  numBaseBdevs := h.numBaseBdevs
  flags := by
    intro i
    have hc := h.content i
    simp only [RaidBaseBdevInfo.content, Prod.mk.injEq] at hc
    exact hc.2.2
  descs := by
    intro i
    rw [h.desc]
    exact id

theorem RaidBdev.Built.trans {b b' b'' : RaidBdev} (h : Built b b') (h' : Built b' b'') : Built b b'' where
  name := h'.name.trans h.name
  uuid := h'.uuid.trans h.uuid
  stripSizeKb := h'.stripSizeKb.trans h.stripSizeKb
  min := h'.min.trans h.min
  level := h'.level.trans h.level
  destroyStarted := h'.destroyStarted.trans h.destroyStarted
  superblockEnabled := h'.superblockEnabled.trans h.superblockEnabled
  numBaseBdevs := h'.numBaseBdevs.trans h.numBaseBdevs
  flags := fun i => ⟨(h'.flags i).1.trans (h.flags i).1, (h'.flags i).2.trans (h.flags i).2⟩
  descs := fun i hd => h'.descs i (h.descs i hd)

theorem RaidObject.Built.refl (o : RaidObject) : o.Built o :=
  ⟨(RaidBdev.SameLife.refl _).built, rfl, rfl, rfl, .inl ⟨rfl, rfl, rfl, 0, (List.append_nil _).symm⟩⟩

theorem RaidObject.Built.trans {o o' o'' : RaidObject} (h : o.Built o') (h' : o'.Built o'')
    (hs : o'.bdev.state = .configuring) : o.Built o'' := by
  refine ⟨h.bdev.trans h'.bdev, h'.channels.trans h.channels, h'.cleaned.trans h.cleaned, h'.freed.trans h.freed, ?_⟩
  rcases h.outcome with ⟨hstate, hstatus, hio, n, hn⟩ | ⟨honline, _⟩
  · rcases h'.outcome with ⟨hstate', hstatus', hio', n', hn'⟩ | ⟨honline', hready, hio', ⟨n', hn'⟩, hall⟩
    · refine .inl ⟨hstate'.trans hstate, hstatus'.trans hstatus, hio'.trans hio, n + n', ?_⟩
      rw [hn', hn, List.append_assoc, List.replicate_append_replicate]
    · exact .inr ⟨honline', hready, hio', ⟨n + n', by rw [hn', hn, List.append_assoc, List.replicate_append_replicate]⟩, hall⟩
  · rw [hs] at honline
    cases honline

theorem RaidBdev.slot_fillSlot (b : RaidBdev) (i j d : Nat) (bdev : Bdev) :
    ((b.fillSlot i d bdev).slot j).content = if j = i ∧ i < b.numBaseBdevs then
      ((b.slot i).name, some d, (b.slot i).removeScheduled, (b.slot i).removeCb) else (b.slot j).content := by
  have h : (b.fillSlot i d bdev).slot j =
      (b.modSlot i fun info => (info.layout b.superblockEnabled d bdev).2).slot j := rfl
  rw [h, slot_modSlot]
  by_cases hj : j = i ∧ i < b.numBaseBdevs
  · rw [if_pos hj, if_pos hj, layout_content]
  · rw [if_neg hj, if_neg hj]

theorem RaidBdev.built_fillSlot (b : RaidBdev) (i d : Nat) (bdev : Bdev) : Built b (b.fillSlot i d bdev) := by
  refine ⟨rfl, rfl, rfl, rfl, rfl, rfl, rfl, numBaseBdevs_modSlot, ?_, ?_⟩
  · intro j
    have h := slot_fillSlot b i j d bdev
    by_cases hj : j = i ∧ i < b.numBaseBdevs
    · rw [if_pos hj] at h
      simp only [RaidBaseBdevInfo.content, Prod.mk.injEq] at h
      rw [hj.1] at h ⊢
      exact h.2.2
    · rw [if_neg hj] at h
      simp only [RaidBaseBdevInfo.content, Prod.mk.injEq] at h
      exact h.2.2
  · intro j hd
    have h := slot_fillSlot b i j d bdev
    by_cases hj : j = i ∧ i < b.numBaseBdevs
    · rw [if_pos hj] at h
      simp only [RaidBaseBdevInfo.content, Prod.mk.injEq] at h
      rw [h.2.1]
      exact Option.some_ne_none d
    · rw [if_neg hj] at h
      simp only [RaidBaseBdevInfo.content, Prod.mk.injEq] at h
      rw [h.2.1]
      exact hd

theorem RaidBdev.name_fillSlot (b : RaidBdev) (i j d : Nat) (bdev : Bdev) :
    ((b.fillSlot i d bdev).slot j).name = (b.slot j).name := by
  have h := congrArg (fun c => c.1) (slot_fillSlot b i j d bdev)
  by_cases hj : j = i ∧ i < b.numBaseBdevs
  · rw [if_pos hj] at h
    rw [hj.1] at h ⊢
    exact h
  · rw [if_neg hj] at h
    exact h

namespace State

variable {s t u : State} {r i : Nat}

theorem mem_filled (d : Nat) :
    (s.filled r i d).mem r = { s.mem r with bdev := (s.raid r).fillSlot i d (s.bdevs d) } :=
  mem_modObject (f := fun o => { o with bdev := o.bdev.fillSlot i d (s.bdevs d) })

theorem only_filled (d : Nat) : Only r s (s.filled r i d) := by
  have h : Only r s (s.modRaid r fun b => b.fillSlot i d (s.bdevs d)) := only_modObject _
  refine ⟨?_, rfl, rfl, rfl⟩
  constructor <;> first | exact h.mem | rfl

/-- What `raid_bdev_configure_base_bdev` leaves of state `s` when it answers `rc`. -/
structure Filled (s t : State) (r : Nat) (rc : Int) : Prop where
  only : Only r s t
  built : (s.mem r).Built (t.mem r)
  names : ∀ j, (t.info r j).name = (s.info r j).name
  state : rc ≠ 0 → (t.raid r).state = (s.raid r).state

theorem filled_filled (l : List Assertion) (d : Nat) (rc : Int) :
    Filled s ((s.filled r i d).failing l) r rc := by
  have hm : ((s.filled r i d).failing l).mem r = { s.mem r with bdev := (s.raid r).fillSlot i d (s.bdevs d) } :=
    mem_filled d
  refine ⟨(only_filled d).trans (only_failing l), ?_, ?_, ?_⟩
  · rw [hm]
    exact ⟨RaidBdev.built_fillSlot _ _ _ _, rfl, rfl, rfl, .inl ⟨rfl, rfl, rfl, 0, (List.append_nil _).symm⟩⟩
  · intro j
    rw [info_eq, info_eq, raid, hm]
    exact RaidBdev.name_fillSlot _ _ _ _ _
  · intro _
    rw [raid, hm]
    rfl

/-- `raid_bdev_configure` after the last slot was filled -/
theorem filled_configure {s₁ : State} (h : ∀ rc, Filled s s₁ r rc) (hsame : (s₁.mem r).callbacks = (s.mem r).callbacks ∧
      (s₁.mem r).ioDevice = (s.mem r).ioDevice ∧ (s₁.raid r).status = (s.raid r).status)
    (hstate : (s₁.raid r).state = (s.raid r).state)
    (hall : ∀ info ∈ (s₁.raid r).baseBdevInfo, info.desc.isSome = true) {out : State × Int}
    (hc : Configured s₁ r out) : Filled s out.1 r out.2 := by
  have hbuilt := (h 0).built
  have hgr : ∀ b, (s₁.raid r).SameLife b → (s.raid r).Built b := fun b hb => hbuilt.bdev.trans hb.built
  have hnames : ∀ b, (s₁.raid r).SameLife b → ∀ j, (b.slot j).name = (s.info r j).name :=
    fun b hb j => (congrArg (fun c => c.1) (hb.content j)).trans ((h 0).names j)
  cases hc with
  | failed b rc hb hrc =>
    dsimp only
    refine ⟨(h 0).only.trans (only_modRaid _), ?_, ?_, fun _ => ?_⟩
    · simp only [modRaid, mem_modObject]
      refine ⟨hgr b hb, hbuilt.channels, hbuilt.cleaned, hbuilt.freed, .inl ⟨?_, ?_, hsame.2.1, 0, ?_⟩⟩
      · exact hb.state.trans hstate
      · exact hb.status.trans hsame.2.2
      · exact hsame.1.trans (List.append_nil _).symm
    · intro j
      rw [info_eq, raid_modRaid]
      exact hnames b hb j
    · rw [raid_modRaid]
      exact hb.state.trans hstate
  | refused b rc hb hrc =>
    have hm : ∃ cbs, ((s₁.modRaid r fun _ => b).moduleStop r).mem r =
        { s₁.mem r with bdev := b, callbacks := cbs } ∧
          ∃ n, cbs = (s₁.mem r).callbacks ++ List.replicate n .moduleStopDone := by
      unfold moduleStop
      split
      · exact ⟨(s₁.mem r).callbacks ++ [.moduleStopDone], by simp only [modRaid, defer, mem_modObject], 1, rfl⟩
      · exact ⟨(s₁.mem r).callbacks, by simp only [modRaid, mem_modObject], 0, (List.append_nil _).symm⟩
    obtain ⟨cbs, hm, hcbs⟩ := hm
    refine ⟨((h 0).only.trans (only_modRaid _)).trans only_moduleStop, ?_, ?_, fun _ => ?_⟩
    · simp only [hm]
      refine ⟨hgr b hb, hbuilt.channels, hbuilt.cleaned, hbuilt.freed, .inl ⟨?_, ?_, hsame.2.1, ?_⟩⟩
      · exact hb.state.trans hstate
      · exact hb.status.trans hsame.2.2
      · rw [← hsame.1]
        exact hcbs
    · intro j
      rw [info_eq, raid]
      simp only [hm]
      exact hnames b hb j
    · rw [raid]
      simp only [hm]
      exact hb.state.trans hstate
  | online b hb =>
    dsimp only
    refine ⟨(h 0).only.trans (only_modObject _), ?_, ?_, fun h => absurd rfl h⟩
    · simp only [mem_modObject]
      have hg := hgr b hb
      refine ⟨⟨hg.name, hg.uuid, hg.stripSizeKb, hg.min, hg.level, hg.destroyStarted, hg.superblockEnabled,
        hg.numBaseBdevs, hg.flags, hg.descs⟩, hbuilt.channels, hbuilt.cleaned, hbuilt.freed,
        .inr ⟨rfl, rfl, rfl, ⟨0, hsame.1.trans (List.append_nil _).symm⟩, ?_⟩⟩
      intro info hinfo
      obtain ⟨j, hj, rfl⟩ := RaidBdev.exists_slot hinfo
      have hj' : j < (s₁.raid r).numBaseBdevs := by
        rw [← hb.numBaseBdevs]
        exact hj
      have hsome : ((s₁.raid r).slot j).desc.isSome = true := hall _ (RaidBdev.slot_mem hj')
      have hslot : (b.slot j).desc.isSome = true := by
        rw [hb.desc j]
        exact hsome
      exact hslot
    · intro j
      rw [info_eq, raid]
      simp only [mem_modObject]
      exact hnames b hb j

/-- `raid_bdev_configure_base_bdev` fills a slot of its raid bdev and may set it online. -/
theorem configureBase_filled (s : State) (r i : Nat) (a : Answer)
    (hfull : ∀ d, s.claim d = .none →
      ((s.filled r i d).raid r).numBaseBdevsDiscovered = (s.raid r).numBaseBdevs →
      (s.raid r).state = .configuring ∧ ∀ info ∈ ((s.filled r i d).raid r).baseBdevInfo, info.desc.isSome = true) :
    Filled s (s.raidBdevConfigureBaseBdev r i a).1 r (s.raidBdevConfigureBaseBdev r i a).2 := by
  have hcases := configureBase_cases s r i a
  generalize s.raidBdevConfigureBaseBdev r i a = out at hcases
  cases hcases with
  | missing l rc hl hrc =>
    refine ⟨only_failing l, ?_, fun _ => rfl, fun _ => rfl⟩
    exact .refl _
  | mislaid l rc d hl hrc hd => exact filled_filled l d rc
  | partly l d hl hd hn => exact filled_filled l d 0
  | complete l d hl hd hn =>
    obtain ⟨hconf, hall⟩ := hfull d hd hn
    have hm : ((s.filled r i d).failing l).mem r = { s.mem r with bdev := (s.raid r).fillSlot i d (s.bdevs d) } :=
      mem_filled d
    have hstate : (((s.filled r i d).failing l).raid r).state = (s.raid r).state := by
      rw [raid, hm]
      rfl
    have hn₁ : (((s.filled r i d).failing l).raid r).numBaseBdevs = (s.raid r).numBaseBdevs := numBaseBdevs_filled d
    refine filled_configure (fun rc => filled_filled l d rc) ?_ hstate hall
      (configure_cases a (hstate.trans hconf) (hn.trans hn₁.symm) hall)
    rw [raid, hm]
    exact ⟨rfl, rfl, rfl⟩

end State

end FlexBSO.Raid

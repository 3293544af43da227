import FlexBSO.Raid.Slots

/- What the small functions of the module do, as updates of the state: the lemmas
   the proofs about whole functions rewrite with. -/
namespace FlexBSO.Raid

/-- The answer `reply` gives. -/
def answer (cb : Option Nat) (rc : Int) : List (Nat × Int) :=
  match cb with
  | none => []
  | some request => [(request, rc)]

/-- An assertion at the entry of `raid_bdev_configure`. -/
def Assertion.Entry (a : Assertion) : Prop := a = .configureState ∨ a = .configureCount ∨ a = .configureDesc

namespace State

/-- More failed assertions. -/
def failing (s : State) (l : List Assertion) : State := { s with failedAsserts := s.failedAsserts ++ l }

variable {s : State} {r q i : Nat} {f g : RaidObject → RaidObject}

theorem reply_eq (cb : Option Nat) (rc : Int) :
    s.reply cb rc = { s with replies := s.replies ++ answer cb rc } := by
  cases cb with
  | none => simp only [reply, answer, List.append_nil]
  | some request => rfl

theorem assert_eq (p : Prop) [Decidable p] (a : Assertion) :
    s.assert p a = { s with failedAsserts := s.failedAsserts ++ if p then [] else [a] } := by
  unfold State.assert
  split <;> simp

theorem touch_eq :
    s.touch r = { s with usedAfterFree := s.usedAfterFree || decide ((s.mem r).freed ≠ 0) } := by
  unfold touch
  split
  · next h => simp [h]
  · next h => simp [h]

@[simp] theorem mem_modObject : (s.modObject r f).mem r = f (s.mem r) := Function.update_self _ _ _

@[simp] theorem mem_modObject_of_ne (h : q ≠ r) : (s.modObject r f).mem q = s.mem q :=
  Function.update_of_ne h _ _

@[simp] theorem raid_modRaid {f : RaidBdev → RaidBdev} : (s.modRaid r f).raid r = f (s.raid r) := by
  simp only [raid, modRaid, mem_modObject]

theorem modObject_modObject : (s.modObject r f).modObject r g = s.modObject r fun o => g (f o) := by
  simp only [modObject, Function.update_self, Function.update_idem]

theorem modRaid_congr {f g : RaidBdev → RaidBdev} (h : f (s.raid r) = g (s.raid r)) :
    s.modRaid r f = s.modRaid r g := by
  simp only [raid] at h
  simp only [modRaid, modObject, h]

theorem info_eq : s.info r i = (s.raid r).slot i := rfl

theorem modInfo_eq (f : RaidBaseBdevInfo → RaidBaseBdevInfo) :
    s.modInfo r i f = s.modRaid r fun b => b.modSlot i f := rfl

/-- `raid_bdev_free_base_bdev_resource` on a slot without descriptor -/
theorem free_closed (h : (s.info r i).desc = none) :
    s.raidBdevFreeBaseBdevResource r i = s.modRaid r fun b => b.freeSlot i := by
  have hslot : ((s.mem r).bdev.baseBdevInfo.getD i {}).desc = none := h
  unfold raidBdevFreeBaseBdevResource
  simp only [h]
  rw [modInfo_eq]
  apply modRaid_congr
  simp only [RaidBdev.freeSlot, RaidBdev.slot, RaidBdev.modSlot, raid, hslot, Option.isSome_none,
    Bool.false_eq_true, if_false]
  congr 1
  apply modify_congr
  rw [hslot]

/-- `raid_bdev_free_base_bdev_resource` on a slot with descriptor -/
theorem free_open {d : Nat} (h : (s.info r i).desc = some d) :
    s.raidBdevFreeBaseBdevResource r i =
      { s.modRaid r fun b => b.freeSlot i with
        claim := Function.update s.claim d .none
        descs := Function.update s.descs d (s.descs d - 1)
        failedAsserts := s.failedAsserts ++
          if (s.raid r).numBaseBdevsDiscovered ≠ 0 then [] else [.freeCount] } := by
  have hslot : ((s.mem r).bdev.baseBdevInfo.getD i {}).desc = some d := h
  unfold raidBdevFreeBaseBdevResource
  simp only [h, assert_eq, releaseAndClose, modInfo, modRaid, modObject, Function.update_self,
    Function.update_idem, RaidBdev.freeSlot, RaidBdev.slot, RaidBdev.modSlot, hslot, Option.isSome_some, if_true,
    raid, List.modify_modify_eq]
  rfl

end State

/-! ## Frames -/

/-- `t` is `s` but for raid bdev `r`, claims, answers and the list of raid bdevs. -/
structure State.Local (r : Nat) (s t : State) : Prop where
  mem : ∀ q, q ≠ r → t.mem q = s.mem q
  next : t.next = s.next
  gShutdownStarted : t.gShutdownStarted = s.gShutdownStarted
  bdevs : t.bdevs = s.bdevs
  names : t.names = s.names
  rpc : t.rpc = s.rpc

/-- `t` is `s` but for raid bdev `r` and claims. -/
structure State.Only (r : Nat) (s t : State) : Prop extends State.Local r s t where
  gRaidBdevList : t.gRaidBdevList = s.gRaidBdevList
  replies : t.replies = s.replies
  usedAfterFree : t.usedAfterFree = s.usedAfterFree

namespace State

variable {s t u : State} {r i : Nat}

theorem Local.refl (s : State) : Local r s s := by
  constructor <;> first | exact fun _ _ => rfl | rfl

theorem Local.trans (h : Local r s t) (h' : Local r t u) : Local r s u where
  mem := fun q hq => (h'.mem q hq).trans (h.mem q hq)
  next := h'.next.trans h.next
  gShutdownStarted := h'.gShutdownStarted.trans h.gShutdownStarted
  bdevs := h'.bdevs.trans h.bdevs
  names := h'.names.trans h.names
  rpc := h'.rpc.trans h.rpc

theorem Only.refl (s : State) : Only r s s := by
  constructor <;> first | exact .refl s | rfl

theorem Only.trans (h : Only r s t) (h' : Only r t u) : Only r s u where
  toLocal := h.toLocal.trans h'.toLocal
  gRaidBdevList := h'.gRaidBdevList.trans h.gRaidBdevList
  replies := h'.replies.trans h.replies
  usedAfterFree := h'.usedAfterFree.trans h.usedAfterFree

theorem only_modObject (f : RaidObject → RaidObject) : Only r s (s.modObject r f) := by
  refine ⟨?_, rfl, rfl, rfl⟩
  constructor <;> first | exact fun _ hq => mem_modObject_of_ne hq | rfl

theorem only_modRaid (f : RaidBdev → RaidBdev) : Only r s (s.modRaid r f) := only_modObject _

theorem only_modInfo (f : RaidBaseBdevInfo → RaidBaseBdevInfo) : Only r s (s.modInfo r i f) := only_modRaid _

theorem only_defer (d : Deferred) : Only r s (s.defer r d) := only_modObject _

theorem only_failing (l : List Assertion) : Only r s (s.failing l) := by
  refine ⟨?_, rfl, rfl, rfl⟩
  constructor <;> first | exact fun _ _ => rfl | rfl

theorem only_assert (p : Prop) [Decidable p] (a : Assertion) : Only r s (s.assert p a) := by
  rw [assert_eq]
  exact only_failing _

theorem only_moduleStop : Only r s (s.moduleStop r) := by
  unfold moduleStop
  split
  · exact only_modObject _
  · exact .refl s

theorem local_reply (cb : Option Nat) (rc : Int) : Local r s (s.reply cb rc) := by
  rw [reply_eq]
  constructor <;> first | exact fun _ _ => rfl | rfl

theorem only_free : Only r s (s.raidBdevFreeBaseBdevResource r i) := by
  cases hd : (s.info r i).desc with
  | none =>
    rw [free_closed hd]
    exact only_modObject _
  | some d =>
    rw [free_open hd]
    have h : Only r s (s.modRaid r fun b => b.freeSlot i) := only_modObject _
    refine ⟨?_, rfl, rfl, rfl⟩
    constructor <;> first | exact h.mem | rfl

theorem mem_free : (s.raidBdevFreeBaseBdevResource r i).mem r =
    { s.mem r with bdev := (s.raid r).freeSlot i } := by
  cases hd : (s.info r i).desc with
  | none =>
    rw [free_closed hd]
    exact mem_modObject
  | some d =>
    rw [free_open hd]
    exact Function.update_self _ _ _

/-! ### Loops over the slots -/

theorem modify_take_drop {l : List RaidBaseBdevInfo} {k : Nat} (g : RaidBaseBdevInfo → RaidBaseBdevInfo)
    (hk : k < l.length) :
    ((l.take k).map g ++ l.drop k).modify k g = (l.take (k + 1)).map g ++ l.drop (k + 1) := by
  have hlen : ((l.take k).map g).length = k := by
    rw [List.length_map, List.length_take, Nat.min_eq_left (Nat.le_of_lt hk)]
  have h := List.modifyTailIdx_add (List.modifyHead g) 0 ((l.take k).map g) (l.drop k)
  rw [hlen, Nat.add_zero] at h
  rw [List.modify, h, List.drop_eq_getElem_cons hk, ← List.take_append_getElem hk, List.map_append, List.append_assoc]
  rfl

/-- A loop over the slots of raid bdev `r` that updates each by `g` and counts anew. -/
theorem foldl_slots {f : State → Nat → State} (g : RaidBaseBdevInfo → RaidBaseBdevInfo)
    (hf : ∀ t i, t.gShutdownStarted = s.gShutdownStarted → (t.raid r).state = (s.raid r).state →
      Only r t (f t i) ∧ ∃ d, (f t i).mem r =
        { t.mem r with bdev := { (t.raid r).modSlot i g with numBaseBdevsDiscovered := d } }) :
    let t := (List.range (s.raid r).numBaseBdevs).foldl f s
    Only r s t ∧ ∃ d, t.mem r = { s.mem r with bdev :=
      { s.raid r with baseBdevInfo := (s.raid r).baseBdevInfo.map g, numBaseBdevsDiscovered := d } } := by
  intro t
  set l := (s.raid r).baseBdevInfo with hl
  -- by induction on the number of slots done
  have key : ∀ k, k ≤ l.length → Only r s ((List.range k).foldl f s) ∧
      ∃ d, ((List.range k).foldl f s).mem r = { s.mem r with bdev :=
        { s.raid r with baseBdevInfo := (l.take k).map g ++ l.drop k, numBaseBdevsDiscovered := d } } := by
    intro k
    induction k with
    | zero =>
      intro _
      exact ⟨.refl s, (s.raid r).numBaseBdevsDiscovered, rfl⟩
    | succ k ih =>
      intro hk
      obtain ⟨honly, d, hmem⟩ := ih (Nat.le_of_succ_le hk)
      rw [List.range_succ, List.foldl_append]
      simp only [List.foldl_cons, List.foldl_nil]
      generalize (List.range k).foldl f s = u at honly hmem
      have hstate : (u.raid r).state = (s.raid r).state := by
        rw [raid, hmem]
      obtain ⟨honly', d', hmem'⟩ := hf u k honly.gShutdownStarted hstate
      refine ⟨honly.trans honly', d', ?_⟩
      rw [hmem', raid, hmem]
      simp only [RaidBdev.modSlot, modify_take_drop g hk]
  obtain ⟨honly, d, hmem⟩ := key l.length (Nat.le_refl _)
  refine ⟨honly, d, hmem.trans ?_⟩
  rw [List.take_length, List.drop_length, List.append_nil]

/-- A slot after `raid_bdev_free_base_bdev_resource` -/
def clearSlot (info : RaidBaseBdevInfo) : RaidBaseBdevInfo := { info with name := none, desc := none }

theorem mem_free_slot (s : State) (r i : Nat) : ∃ d, (s.raidBdevFreeBaseBdevResource r i).mem r =
    { s.mem r with bdev := { (s.raid r).modSlot i clearSlot with numBaseBdevsDiscovered := d } } :=
  ⟨_, mem_free⟩

/-- A slot after `_raid_bdev_destruct` -/
def destructSlot (shutdown : Bool) (info : RaidBaseBdevInfo) : RaidBaseBdevInfo :=
  if shutdown ∨ info.removeScheduled = true then clearSlot info else info

/-- One turn of the loop of `_raid_bdev_destruct` -/
def destructTurn (r : Nat) (s : State) (i : Nat) : State :=
  if s.gShutdownStarted ∨ (s.info r i).removeScheduled = true then s.raidBdevFreeBaseBdevResource r i else s

theorem destruct_eq (s : State) (r : Nat) : s.raidBdevDestruct r =
    let t := (List.range (s.raid r).numBaseBdevs).foldl (destructTurn r) s
    let t := if t.gShutdownStarted then t.modRaid r fun raid => { raid with state := .offline } else t
    match (t.raid r).level.module.stop with
    | .async => t.defer r .moduleStopDone
    | _ => t.raidBdevModuleStopDone r := rfl

/-- The loop of `_raid_bdev_destruct` -/
theorem destructLoop (s : State) (r : Nat) :
    let t := (List.range (s.raid r).numBaseBdevs).foldl (destructTurn r) s
    Only r s t ∧ ∃ d, t.mem r = { s.mem r with bdev := { s.raid r with
      baseBdevInfo := (s.raid r).baseBdevInfo.map (destructSlot s.gShutdownStarted), numBaseBdevsDiscovered := d } } := by
  apply foldl_slots
  intro t i hshut hstate
  unfold destructTurn
  rw [hshut, info_eq]
  by_cases hp : s.gShutdownStarted = true ∨ ((t.raid r).slot i).removeScheduled = true
  · obtain ⟨d, hd⟩ := mem_free_slot t r i
    rw [if_pos hp]
    refine ⟨only_free, d, hd.trans ?_⟩
    rw [RaidBdev.modSlot_congr (g := destructSlot s.gShutdownStarted)]
    exact (if_pos hp).symm
  · rw [if_neg hp]
    refine ⟨.refl t, (t.raid r).numBaseBdevsDiscovered, ?_⟩
    have hself : destructSlot s.gShutdownStarted ((t.raid r).slot i) = (t.raid r).slot i := if_neg hp
    rw [RaidBdev.modSlot_self hself]
    rfl

/-- A slot after the loop of `raid_bdev_delete` -/
def deleteSlot (state : RaidBdevState) (info : RaidBaseBdevInfo) : RaidBaseBdevInfo :=
  let info := { info with removeScheduled := true }
  if state ≠ .online then clearSlot info else info

/-- One turn of the loop of `raid_bdev_delete` -/
def deleteTurn (r : Nat) (s : State) (i : Nat) : State :=
  let s := s.modInfo r i fun info => { info with removeScheduled := true }
  if (s.raid r).state ≠ .online then s.raidBdevFreeBaseBdevResource r i else s

theorem delete_eq (s : State) (r : Nat) (cb : Option Nat) : s.raidBdevDelete r cb =
    if (s.raid r).destroyStarted then s.reply cb (-EALREADY)
    else
      let s := s.modRaid r fun raid => { raid with destroyStarted := true }
      let s := (List.range (s.raid r).numBaseBdevs).foldl (deleteTurn r) s
      if (s.raid r).numBaseBdevsDiscovered = 0 then (s.raidBdevCleanupAndFree r).reply cb 0
      else s.raidBdevDeconfigure r cb := rfl

/-- The loop of `raid_bdev_delete` -/
theorem deleteLoop (s : State) (r : Nat) :
    let t := (List.range (s.raid r).numBaseBdevs).foldl (deleteTurn r) s
    Only r s t ∧ ∃ d, t.mem r = { s.mem r with bdev := { s.raid r with
      baseBdevInfo := (s.raid r).baseBdevInfo.map (deleteSlot (s.raid r).state), numBaseBdevsDiscovered := d } } := by
  apply foldl_slots
  intro t i hshut hstate
  unfold deleteTurn
  simp only []
  set u := t.modInfo r i fun info => { info with removeScheduled := true } with hu
  have hstate' : (u.raid r).state = (s.raid r).state := by
    rw [hu, modInfo_eq, modRaid, raid, mem_modObject]
    exact hstate
  have hmem : u.mem r = { t.mem r with bdev := (t.raid r).modSlot i fun info => { info with removeScheduled := true } } := by
    rw [hu, modInfo_eq, modRaid, mem_modObject]
    rfl
  have hbdev : u.raid r = (t.raid r).modSlot i fun info => { info with removeScheduled := true } := by
    rw [raid, hmem]
  have honly : Only r t u := by
    rw [hu, modInfo_eq, modRaid]
    exact only_modObject _
  rw [hstate']
  by_cases hp : (s.raid r).state ≠ .online
  · obtain ⟨d, hd⟩ := mem_free_slot u r i
    rw [if_pos hp]
    refine ⟨honly.trans only_free, d, hd.trans ?_⟩
    rw [hbdev, hmem]
    simp only [RaidBdev.modSlot, List.modify_modify_eq]
    rw [modify_congr (g := deleteSlot (s.raid r).state)]
    exact (if_pos hp).symm
  · rw [if_neg hp]
    refine ⟨honly, (t.raid r).numBaseBdevsDiscovered, hmem.trans ?_⟩
    rw [RaidBdev.modSlot_congr (g := deleteSlot (s.raid r).state)]
    · rfl
    · exact (if_neg hp).symm

/-! ### Functions on one raid bdev -/

/-- `raid_bdev_cleanup`, whatever its assertions say -/
theorem cleanup_eq (s : State) (r : Nat) : ∃ l : List Assertion, (∀ a ∈ l, ¬ a.Entry) ∧ s.raidBdevCleanup r =
    { (s.modObject r fun o => { o with cleaned := o.cleaned + 1 }).failing l with
      gRaidBdevList := s.gRaidBdevList.erase r } := by
  set l₁ : List Assertion := if (s.raid r).state ≠ .online then [] else [.cleanupState] with hl₁
  set l₂ : List Assertion := if ∀ info ∈ (s.raid r).baseBdevInfo, info.desc = none then [] else [.cleanupDesc] with hl₂
  refine ⟨l₁ ++ l₂, ?_, ?_⟩
  · intro a ha
    rcases List.mem_append.mp ha with h | h
    · rw [hl₁] at h
      split at h
      · cases h
      · rw [List.mem_singleton.mp h]
        simp [Assertion.Entry]
    · rw [hl₂] at h
      split at h
      · cases h
      · rw [List.mem_singleton.mp h]
        simp [Assertion.Entry]
  · unfold raidBdevCleanup
    simp only [assert_eq, failing, modObject, List.append_assoc]
    rfl

theorem local_cleanup : Local r s (s.raidBdevCleanup r) := by
  obtain ⟨l, _, heq⟩ := cleanup_eq s r
  rw [heq]
  have h : Local r s (s.modObject r fun o => { o with cleaned := o.cleaned + 1 }) := (only_modObject _).toLocal
  constructor <;> first | exact h.mem | rfl

theorem local_cleanupAndFree : Local r s (s.raidBdevCleanupAndFree r) :=
  local_cleanup.trans (only_modObject fun o => { o with freed := o.freed + 1 }).toLocal

theorem local_bdevUnregister (cb : Option Nat) : Local r s (s.bdevUnregister r cb) := by
  unfold bdevUnregister
  split
  · exact local_reply cb _
  · exact local_reply cb _
  · exact ((only_modRaid _).trans (only_defer _)).toLocal

theorem local_deconfigure (cb : Option Nat) : Local r s (s.raidBdevDeconfigure r cb) := by
  unfold raidBdevDeconfigure
  split
  · exact local_reply cb _
  · exact ((only_modRaid _).trans (only_assert _ _)).toLocal.trans (local_bdevUnregister cb)

theorem local_removeSlot (cb : Option Nat) (quiesceRc : Int) : Local r s (s.removeSlot r i cb quiesceRc) := by
  unfold removeSlot
  split
  · exact .refl s
  · have h₁ : Local r s (s.modInfo r i fun info => { info with removeScheduled := true, removeCb := cb }) := (only_modInfo _).toLocal
    simp only []
    generalize s.modInfo r i (fun info => { info with removeScheduled := true, removeCb := cb }) = s₁ at h₁
    refine h₁.trans ?_
    split
    · split
      · exact only_free.toLocal.trans local_cleanupAndFree
      · exact only_free.toLocal
    · split
      · exact local_deconfigure cb
      · split
        · exact (only_modInfo _).toLocal
        · exact (only_defer _).toLocal

theorem local_delete (cb : Option Nat) : Local r s (s.raidBdevDelete r cb) := by
  rw [delete_eq]
  split
  · exact local_reply cb _
  · have h₁ : Local r s (s.modRaid r fun raid => { raid with destroyStarted := true }) := (only_modObject _).toLocal
    simp only []
    generalize s.modRaid r (fun raid => { raid with destroyStarted := true }) = s₁ at h₁
    have h₂ := h₁.trans (deleteLoop s₁ r).1.toLocal
    split
    · exact h₂.trans (local_cleanupAndFree.trans (local_reply cb _))
    · exact h₂.trans (local_deconfigure cb)

theorem local_moduleStopDone : Local r s (s.raidBdevModuleStopDone r) := by
  unfold raidBdevModuleStopDone
  split
  · exact ((only_modObject _).trans (only_defer _)).toLocal
  · exact .refl s

theorem local_destruct : Local r s (s.raidBdevDestruct r) := by
  rw [destruct_eq]
  have h₁ := (destructLoop s r).1.toLocal
  simp only [] at h₁ ⊢
  generalize (List.range (s.raid r).numBaseBdevs).foldl (destructTurn r) s = t at h₁
  have h₂ : Local r s (if t.gShutdownStarted then t.modRaid r fun raid => { raid with state := .offline } else t) := by
    split
    · exact h₁.trans (only_modRaid _).toLocal
    · exact h₁
  split
  · exact h₂.trans (only_defer _).toLocal
  · exact h₂.trans local_moduleStopDone

theorem local_destructDone : Local r s (s.bdevDestructDone r) := (only_modRaid _).toLocal.trans (local_reply _ _)

theorem local_ioDeviceUnregisterCb : Local r s (s.raidBdevIoDeviceUnregisterCb r) := by
  unfold raidBdevIoDeviceUnregisterCb
  split
  · exact (local_cleanup.trans local_destructDone).trans (only_modObject fun o => { o with freed := o.freed + 1 }).toLocal
  · exact local_destructDone

theorem local_touch : Local r s (s.touch r) := by
  rw [touch_eq]
  constructor <;> first | exact fun _ _ => rfl | rfl

theorem local_take (d : Deferred) : Local r s (s.take r d) := local_touch.trans (only_modObject _).toLocal

theorem local_createCb (thread : Nat) (ok : Bool) : Local r s (s.raidBdevCreateCb r thread ok) := by
  unfold raidBdevCreateCb
  refine (only_assert (r := r) ((s.raid r).state = .online) .channelState).toLocal.trans ?_
  simp only []
  split
  · exact (only_modObject _).toLocal
  · exact .refl _

theorem local_runCallback (threads : List Nat) (d : Deferred) (rc : Int) :
    Local r s (s.runCallback threads r d rc) := by
  unfold runCallback
  split
  · have h : Local r s (s.bdevDestroy r) := (only_modRaid _).toLocal
    exact h.trans local_destruct
  · exact local_moduleStopDone
  · exact local_ioDeviceUnregisterCb
  · unfold raidBdevRemoveBaseBdevOnQuiesced
    split
    · exact (only_modInfo _).toLocal.trans (local_reply _ _)
    · exact (only_defer _).toLocal
  · unfold raidBdevChannelsRemoveBaseBdevDone
    split
    · exact (only_defer _).toLocal
    · exact .refl s
  · next i t rest =>
    have h : Local r s (s.raidBdevChannelRemoveBaseBdev r i t) := (only_modObject _).toLocal
    exact h.trans (only_defer _).toLocal
  · next i =>
    unfold raidBdevRemoveBaseBdevOnUnquiesced
    have h : Local r s (s.modInfo r i fun info => { info with removeScheduled := false }) := (only_modInfo _).toLocal
    generalize s.modInfo r i (fun info => { info with removeScheduled := false }) = u at h
    simp only []
    refine Local.trans ?_ (local_reply _ _)
    split
    · exact h
    · exact h.trans only_free.toLocal

end State

end FlexBSO.Raid

import FlexBSO.Raid.Machine
import Mathlib.Data.List.Count
import Mathlib.Data.List.GetD

/- The slots of a raid bdev as lists: what an update of one slot does to the others
   and to the number of open descriptors, and the part of
   `raid_bdev_free_base_bdev_resource` and `raid_bdev_configure_base_bdev` that
   happens to the raid bdev itself. -/
namespace FlexBSO.Raid

theorem modify_congr {i : Nat} {l : List RaidBaseBdevInfo} {f g : RaidBaseBdevInfo → RaidBaseBdevInfo}
    (h : f (l.getD i {}) = g (l.getD i {})) : l.modify i f = l.modify i g := by
  apply List.ext_getElem?
  intro j
  rw [List.getElem?_modify, List.getElem?_modify]
  by_cases hij : i = j
  · subst hij
    simp only [if_pos]
    cases hl : l[i]? with
    | none => rfl
    | some info =>
      rw [List.getD_eq_getElem?_getD, hl] at h
      exact congrArg some h
  · simp only [if_neg hij]

namespace RaidBdev

/-- `base_bdev_info[i]` -/
def slot (b : RaidBdev) (i : Nat) : RaidBaseBdevInfo := b.baseBdevInfo.getD i {}

def modSlot (b : RaidBdev) (i : Nat) (f : RaidBaseBdevInfo → RaidBaseBdevInfo) : RaidBdev :=
  { b with baseBdevInfo := b.baseBdevInfo.modify i f }

/-- The raid bdev's part of `raid_bdev_free_base_bdev_resource` -/
def freeSlot (b : RaidBdev) (i : Nat) : RaidBdev :=
  { b.modSlot i fun info => { info with name := none, desc := none } with
    numBaseBdevsDiscovered :=
      if (b.slot i).desc.isSome then u8 (b.numBaseBdevsDiscovered + 255) else b.numBaseBdevsDiscovered }

/-- The number of open descriptors -/
def opened (b : RaidBdev) : Nat := b.baseBdevInfo.countP (·.desc.isSome)

variable {b : RaidBdev} {i j : Nat} {f : RaidBaseBdevInfo → RaidBaseBdevInfo}

theorem slot_of_ge (h : b.numBaseBdevs ≤ i) : b.slot i = {} := by
  unfold slot
  rw [List.getD_eq_default _ _ h]

theorem lt_of_desc {d : Nat} (h : (b.slot i).desc = some d) : i < b.numBaseBdevs := by
  by_contra hi
  rw [slot_of_ge (Nat.le_of_not_lt hi)] at h
  cases h

theorem slot_eq_getElem (h : i < b.baseBdevInfo.length) : b.slot i = b.baseBdevInfo[i] := by
  unfold slot
  rw [List.getD_eq_getElem _ _ h]

theorem slot_mem (h : i < b.numBaseBdevs) : b.slot i ∈ b.baseBdevInfo := by
  rw [slot_eq_getElem h]
  exact List.getElem_mem h

theorem exists_slot {info : RaidBaseBdevInfo} (h : info ∈ b.baseBdevInfo) :
    ∃ i, i < b.numBaseBdevs ∧ b.slot i = info := by
  obtain ⟨i, hi, rfl⟩ := List.getElem_of_mem h
  exact ⟨i, hi, slot_eq_getElem hi⟩

@[simp] theorem numBaseBdevs_modSlot : (b.modSlot i f).numBaseBdevs = b.numBaseBdevs :=
  List.length_modify _ _ _

@[simp] theorem numBaseBdevs_freeSlot : (b.freeSlot i).numBaseBdevs = b.numBaseBdevs :=
  List.length_modify _ _ _

theorem modSlot_congr {g : RaidBaseBdevInfo → RaidBaseBdevInfo} (h : f (b.slot i) = g (b.slot i)) :
    b.modSlot i f = b.modSlot i g := by
  simp only [modSlot]
  rw [modify_congr h]

theorem modSlot_self (h : f (b.slot i) = b.slot i) : b.modSlot i f = b := by
  have hid : f (b.slot i) = id (b.slot i) := h
  rw [modSlot_congr hid, modSlot, List.modify_id]

theorem slot_modSlot : (b.modSlot i f).slot j = if j = i ∧ i < b.numBaseBdevs then f (b.slot i) else b.slot j := by
  by_cases hj : j < b.numBaseBdevs
  · have hj' : j < (b.modSlot i f).baseBdevInfo.length := by
      rw [modSlot, List.length_modify]
      exact hj
    rw [slot_eq_getElem hj', slot_eq_getElem hj]
    simp only [modSlot, List.getElem_modify]
    by_cases hij : i = j
    · subst hij
      simp only [if_pos, slot_eq_getElem hj, hj, and_self]
      rfl
    · simp only [if_neg hij, if_neg fun h : j = i ∧ i < b.numBaseBdevs => hij h.1.symm]
      rfl
  · have hle := Nat.le_of_not_lt hj
    rw [slot_of_ge (by rw [numBaseBdevs_modSlot]; exact hle), slot_of_ge hle, if_neg]
    rintro ⟨rfl, hi⟩
    exact hj hi

theorem slot_modSlot_self (h : i < b.numBaseBdevs) : (b.modSlot i f).slot i = f (b.slot i) := by
  rw [slot_modSlot, if_pos ⟨rfl, h⟩]

theorem slot_modSlot_of_ne (h : j ≠ i) : (b.modSlot i f).slot j = b.slot j := by
  rw [slot_modSlot, if_neg fun hj => h hj.1]

/-- A slot beyond the last one is empty, and a cleared one stays so. -/
theorem slot_freeSlot : (b.freeSlot i).slot j =
    if j = i then { b.slot i with name := none, desc := none } else b.slot j := by
  have h : (b.freeSlot i).slot j = (b.modSlot i fun info => { info with name := none, desc := none }).slot j := rfl
  rw [h, slot_modSlot]
  by_cases hj : j = i
  · subst hj
    by_cases hi : j < b.numBaseBdevs
    · rw [if_pos ⟨rfl, hi⟩, if_pos rfl]
    · rw [if_neg fun h => hi h.2, if_pos rfl, slot_of_ge (Nat.le_of_not_lt hi)]
  · rw [if_neg fun h => hj h.1, if_neg hj]

theorem countP_modify {p : RaidBaseBdevInfo → Bool} {l : List RaidBaseBdevInfo} (h : i < l.length) :
    (l.modify i f).countP p + (if p l[i] then 1 else 0) = l.countP p + if p (f l[i]) then 1 else 0 := by
  have hset : l.modify i f = l.set i (f l[i]) := by
    rw [List.modify_eq_set_getElem?, List.getElem?_eq_getElem h]
    rfl
  have hpos : (if p l[i] = true then 1 else 0) ≤ l.countP p := by
    split
    · next hp => exact List.countP_pos_iff.mpr ⟨l[i], List.getElem_mem h, hp⟩
    · exact Nat.zero_le _
  rw [hset, List.countP_set h]
  omega

theorem opened_modSlot (h : i < b.numBaseBdevs) :
    (b.modSlot i f).opened + (if (b.slot i).desc.isSome then 1 else 0) =
      b.opened + if (f (b.slot i)).desc.isSome then 1 else 0 := by
  rw [slot_eq_getElem h]
  exact countP_modify h

theorem opened_freeSlot : (b.freeSlot i).opened + (if (b.slot i).desc.isSome then 1 else 0) = b.opened := by
  have heq : (b.freeSlot i).opened = (b.modSlot i fun info => { info with name := none, desc := none }).opened := rfl
  rw [heq]
  by_cases hi : i < b.numBaseBdevs
  · have h := opened_modSlot (f := fun info => { info with name := none, desc := none }) hi
    simpa using h
  · have hle := Nat.le_of_not_lt hi
    have hm : b.baseBdevInfo.modify i (fun info => { info with name := none, desc := none }) = b.baseBdevInfo :=
      List.modify_eq_self hle
    rw [slot_of_ge hle, opened, modSlot, hm]
    rfl

theorem opened_le : b.opened ≤ b.numBaseBdevs := List.countP_le_length

theorem opened_eq_iff : b.opened = b.numBaseBdevs ↔ ∀ info ∈ b.baseBdevInfo, info.desc.isSome = true :=
  List.countP_eq_length

end RaidBdev

end FlexBSO.Raid

import Mathlib.Data.List.Basic
import Mathlib.Data.List.Perm.Basic

/- Exclusive or over a list of words of any width, and over a family indexed by
   a list. The one fact everything rests on: a family that sums to zero gives back
   each of its members as the sum of the others (`xorMap_others`). -/
namespace FlexBSO.Lib

variable {w : Nat} {ι : Type}

/-- The exclusive or of a list of words. -/
def xorList : List (BitVec w) → BitVec w
  | [] => 0
  | x :: xs => x ^^^ xorList xs

/-- The exclusive or of `f i` for `i` in the list. -/
def xorMap (is : List ι) (f : ι → BitVec w) : BitVec w := xorList (is.map f)

@[simp] theorem xorMap_nil (f : ι → BitVec w) : xorMap [] f = 0 := rfl

@[simp] theorem xorMap_cons (i : ι) (is : List ι) (f : ι → BitVec w) :
    xorMap (i :: is) f = f i ^^^ xorMap is f := rfl

theorem xorMap_congr {is : List ι} {f g : ι → BitVec w} (h : ∀ i ∈ is, f i = g i) :
    xorMap is f = xorMap is g := by
  unfold xorMap
  rw [List.map_congr_left h]

theorem xorMap_map {κ : Type} (is : List κ) (g : κ → ι) (f : ι → BitVec w) :
    xorMap (is.map g) f = xorMap is fun i => f (g i) := by
  unfold xorMap
  rw [List.map_map]
  rfl

theorem xorMap_perm {is js : List ι} (h : is.Perm js) (f : ι → BitVec w) :
    xorMap is f = xorMap js f := by
  induction h with
  | nil => rfl
  | cons _ _ ih => simp [ih]
  | swap i j is => simp only [xorMap_cons, ← BitVec.xor_assoc, BitVec.xor_comm (f j)]
  | trans _ _ ih1 ih2 => exact ih1.trans ih2

theorem xorMap_zero {is : List ι} {f : ι → BitVec w} (h : ∀ i ∈ is, f i = 0) : xorMap is f = 0 := by
  induction is with
  | nil => rfl
  | cons i is ih =>
    rw [xorMap_cons, h i (by simp), ih (fun j hj => h j (by simp [hj]))]
    simp

theorem xor_eq_zero_iff {a b : BitVec w} : a ^^^ b = 0 ↔ a = b := by
  constructor
  · intro h
    have := congrArg (· ^^^ b) h
    simpa [BitVec.xor_assoc] using this
  · rintro rfl
    simp

section others

variable [DecidableEq ι]

/-- The members of the list other than `c`, in the list's order. -/
def others (c : ι) (is : List ι) : List ι := is.filter (· ≠ c)

theorem mem_others {c i : ι} {is : List ι} : i ∈ others c is ↔ i ∈ is ∧ i ≠ c := by
  simp [others]

/-- A member and the others make up the whole. -/
theorem xorMap_split {c : ι} {is : List ι} (hd : is.Nodup) (hc : c ∈ is) (f : ι → BitVec w) :
    xorMap is f = f c ^^^ xorMap (others c is) f := by
  have hp : is.Perm (c :: is.erase c) := List.perm_cons_erase hc
  rw [xorMap_perm hp, xorMap_cons, hd.erase_eq_filter c]
  congr 2
  unfold others
  apply List.filter_congr
  intro x _
  by_cases hx : x = c <;> simp [hx]

/-- The others sum to `f c` exactly when the whole sums to zero. -/
theorem xorMap_others {c : ι} {is : List ι} (hd : is.Nodup) (hc : c ∈ is) (f : ι → BitVec w) :
    xorMap (others c is) f = f c ↔ xorMap is f = 0 := by
  rw [xorMap_split hd hc, xor_eq_zero_iff]
  exact eq_comm

/-! ## One parity member -/

/-- A family in which `p` holds the sum of the others. -/
def withParity (p : ι) (is : List ι) (f : ι → BitVec w) (i : ι) : BitVec w :=
  if i = p then xorMap (others p is) f else f i

variable {p : ι} {is : List ι} {f : ι → BitVec w}

theorem withParity_parity : withParity p is f p = xorMap (others p is) f := if_pos rfl

theorem withParity_of_ne {i : ι} (h : i ≠ p) : withParity p is f i = f i := if_neg h

/-- It sums to zero. -/
theorem xorMap_withParity (hd : is.Nodup) (hp : p ∈ is) : xorMap is (withParity p is f) = 0 := by
  rw [← xorMap_others hd hp, withParity_parity]
  exact xorMap_congr fun i hi => withParity_of_ne (mem_others.mp hi).2

/-- So each of its members is the sum of the others. -/
theorem xorMap_others_withParity (hd : is.Nodup) (hp : p ∈ is) {c : ι} (hc : c ∈ is) :
    xorMap (others c is) (withParity p is f) = withParity p is f c :=
  (xorMap_others hd hc _).mpr (xorMap_withParity hd hp)

/-- Every family that sums to zero is of this kind. -/
theorem withParity_of_zero (hd : is.Nodup) (hp : p ∈ is) (h : xorMap is f = 0) (i : ι) : withParity p is f i = f i := by
  by_cases hi : i = p
  · subst hi
    rw [withParity_parity, xorMap_others hd hp]
    exact h
  · exact withParity_of_ne hi

end others

end FlexBSO.Lib

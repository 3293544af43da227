import Mathlib.Data.List.Basic
import Mathlib.Data.List.Range
import Mathlib.Tactic.Ring

/- Byte strings that are padded and cut up. `trailing z` counts the `z`s a list ends
   with, and how the count of a concatenation comes from its parts; `pad z n` brings
   a list to length `n`; `chop` cuts a list into pieces of given lengths. Over any
   type of bytes. -/
namespace FlexBSO.Lib

variable {α : Type}

/-! ## Trailing elements -/

section trailing

variable [DecidableEq α] {z : α} {l l' : List α}

/-- How many `z` a list ends with. -/
def trailing (z : α) (l : List α) : Nat := (l.reverse.takeWhile (· = z)).length

@[simp] theorem trailing_nil (z : α) : trailing z [] = 0 := rfl

theorem trailing_le (z : α) (l : List α) : trailing z l ≤ l.length := by
  have h := (List.takeWhile_prefix (fun x => decide (x = z)) (l := l.reverse)).length_le
  rwa [List.length_reverse] at h

theorem trailing_concat_self (z : α) (l : List α) : trailing z (l ++ [z]) = trailing z l + 1 := by
  simp [trailing]

theorem trailing_concat_of_ne {x : α} (h : x ≠ z) (l : List α) : trailing z (l ++ [x]) = 0 := by
  simp [trailing, h]

/-- A list all of `z`s passes the count on to what stands before it. -/
theorem trailing_append_of_all (h : ∀ x ∈ l', x = z) : trailing z (l ++ l') = trailing z l + l'.length := by
  induction l' using List.reverseRecOn with
  | nil => simp
  | append_singleton l' x ih =>
    have hx : x = z := h x (by simp)
    have ih' := ih fun y hy => h y (by simp [hy])
    rw [hx, ← List.append_assoc, trailing_concat_self, ih', List.length_append, List.length_singleton]
    omega

/-- A list with another element in it hides what stands before it. -/
theorem trailing_append_of_ne {x : α} (hx : x ∈ l') (h : x ≠ z) : trailing z (l ++ l') = trailing z l' := by
  induction l' using List.reverseRecOn with
  | nil => cases hx
  | append_singleton l' y ih =>
    rw [← List.append_assoc]
    by_cases hy : y = z
    · have hx' : x ∈ l' := by
        rcases List.mem_append.mp hx with hx' | hx'
        · exact hx'
        · rw [List.mem_singleton.mp hx'] at h
          exact absurd hy h
      rw [hy, trailing_concat_self, trailing_concat_self, ih hx']
    · rw [trailing_concat_of_ne hy, trailing_concat_of_ne hy]

theorem trailing_all (h : ∀ x ∈ l, x = z) : trailing z l = l.length := by
  have hall := trailing_append_of_all (l := []) h
  simpa using hall

theorem trailing_pos_iff : 0 < trailing z l ↔ ∃ l₀, l = l₀ ++ [z] := by
  constructor
  · intro h
    induction l using List.reverseRecOn with
    | nil => exact absurd h (Nat.lt_irrefl 0)
    | append_singleton l₀ x _ =>
      by_cases hx : x = z
      · exact ⟨l₀, by rw [hx]⟩
      · rw [trailing_concat_of_ne hx] at h
        exact absurd h (Nat.lt_irrefl 0)
  · rintro ⟨l₀, rfl⟩
    rw [trailing_concat_self]
    exact Nat.succ_pos _

/-- The pieces' counts never fall short of the count of the whole. -/
theorem trailing_flatten_le (ls : List (List α)) : trailing z ls.flatten ≤ (ls.map (trailing z)).sum := by
  induction ls with
  | nil => simp
  | cons l ls ih =>
    rw [List.flatten_cons, List.map_cons, List.sum_cons]
    by_cases hall : ∀ x ∈ ls.flatten, x = z
    · rw [trailing_append_of_all hall]
      rw [trailing_all hall] at ih
      omega
    · obtain ⟨x, hx, hne⟩ := not_forall₂.mp hall
      rw [trailing_append_of_ne hx hne]
      omega

theorem sum_trailing_le (ls : List (List α)) : (ls.map (trailing z)).sum ≤ ls.flatten.length := by
  induction ls with
  | nil => simp
  | cons l ls ih =>
    have hle := trailing_le z l
    rw [List.flatten_cons, List.map_cons, List.sum_cons, List.length_append]
    omega

/-- The pieces' counts add up to the count of the whole if and only if no piece ends in `z` while
    another element follows it. -/
theorem sum_trailing_iff (ls : List (List α)) :
    (ls.map (trailing z)).sum = trailing z ls.flatten ↔
      ∀ l₁ l l₂, ls = l₁ ++ l :: l₂ → (∃ x ∈ l₂.flatten, x ≠ z) → trailing z l = 0 := by
  induction ls with
  | nil => simp
  | cons a ls ih =>
    rw [List.flatten_cons, List.map_cons, List.sum_cons]
    have hle := trailing_flatten_le (z := z) ls
    have hrest : (∀ l₁ l l₂, a :: ls = l₁ ++ l :: l₂ → (∃ x ∈ l₂.flatten, x ≠ z) → trailing z l = 0) ↔
        ((∃ x ∈ ls.flatten, x ≠ z) → trailing z a = 0) ∧
          ∀ l₁ l l₂, ls = l₁ ++ l :: l₂ → (∃ x ∈ l₂.flatten, x ≠ z) → trailing z l = 0 := by
      constructor
      · intro h
        refine ⟨h [] a ls rfl, ?_⟩
        intro l₁ l l₂ heq
        exact h (a :: l₁) l l₂ (by rw [heq, List.cons_append])
      · rintro ⟨ha, h⟩ l₁ l l₂ heq hx
        cases l₁ with
        | nil =>
          obtain ⟨rfl, rfl⟩ := List.cons.inj heq
          exact ha hx
        | cons b l₁ => exact h l₁ l l₂ (List.cons.inj heq).2 hx
    rw [hrest, ← ih]
    by_cases hall : ∀ x ∈ ls.flatten, x = z
    · have hno : ¬ ∃ x ∈ ls.flatten, x ≠ z := by
        rintro ⟨x, hx, hne⟩
        exact hne (hall x hx)
      rw [trailing_append_of_all hall, ← trailing_all hall]
      constructor
      · intro h
        exact ⟨fun hx => absurd hx hno, by omega⟩
      · rintro ⟨_, h⟩
        omega
    · obtain ⟨x, hx, hne⟩ := not_forall₂.mp hall
      rw [trailing_append_of_ne hx hne]
      constructor
      · intro h
        exact ⟨fun _ => by omega, by omega⟩
      · rintro ⟨ha, h⟩
        have ha' := ha ⟨x, hx, hne⟩
        omega

end trailing

/-! ## Padding -/

/-- The first `n` elements, made up to `n` with `z`. -/
def pad (z : α) (n : Nat) (l : List α) : List α := l.take n ++ List.replicate (n - l.length) z

@[simp] theorem length_pad (z : α) (n : Nat) (l : List α) : (pad z n l).length = n := by
  simp only [pad, List.length_append, List.length_take, List.length_replicate]
  omega

theorem pad_of_le {z : α} {n : Nat} {l : List α} (h : l.length ≤ n) :
    pad z n l = l ++ List.replicate (n - l.length) z := by
  rw [pad, List.take_of_length_le h]

theorem pad_of_ge {z : α} {n : Nat} {l : List α} (h : n ≤ l.length) : pad z n l = l.take n := by
  rw [pad, Nat.sub_eq_zero_of_le h, List.replicate_zero, List.append_nil]

/-- Padded twice, the second time to no less -/
theorem pad_pad {z : α} {m n : Nat} {l : List α} (hl : l.length ≤ n) (h : n ≤ m) : pad z m (pad z n l) = pad z m l := by
  rw [pad_of_le (n := m) (by rw [length_pad]; exact h), length_pad, pad_of_le hl, pad_of_le (Nat.le_trans hl h),
    List.append_assoc, ← List.replicate_add]
  congr 2
  omega

theorem getElem?_pad {z : α} {n i : Nat} (l : List α) (h : i < n) : (pad z n l)[i]? = some (l.getD i z) := by
  rw [pad, List.getElem?_append, List.length_take, List.getD_eq_getElem?_getD]
  split
  · next hlt =>
    have hi : i < l.length := by omega
    rw [List.getElem?_take, if_pos h, List.getElem?_eq_getElem hi, Option.getD_some]
  · next hge =>
    have hi : l.length ≤ i := by omega
    rw [List.getElem?_replicate, if_pos (by omega), List.getElem?_eq_none hi, Option.getD_none]

/-! ## Cutting -/

/-- A list cut into pieces of the given lengths. -/
def chop : List Nat → List α → List (List α)
  | [], _ => []
  | n :: ns, l => l.take n :: chop ns (l.drop n)

theorem length_chop (ns : List Nat) (l : List α) : (chop ns l).length = ns.length := by
  induction ns generalizing l with
  | nil => rfl
  | cons n ns ih => rw [chop, List.length_cons, List.length_cons, ih]

theorem flatten_chop (ns : List Nat) (l : List α) : (chop ns l).flatten = l.take ns.sum := by
  induction ns generalizing l with
  | nil => simp [chop]
  | cons n ns ih =>
    rw [chop, List.flatten_cons, ih, List.sum_cons, List.take_add]

theorem lengths_chop {ns : List Nat} {l : List α} (h : ns.sum ≤ l.length) : (chop ns l).map List.length = ns := by
  induction ns generalizing l with
  | nil => rfl
  | cons n ns ih =>
    rw [List.sum_cons] at h
    have hrest : ns.sum ≤ (l.drop n).length := by
      rw [List.length_drop]
      omega
    rw [chop, List.map_cons, ih hrest, List.length_take]
    congr 1
    omega

/-- Cutting a concatenation at its seams. -/
theorem chop_flatten (ls : List (List α)) : chop (ls.map List.length) ls.flatten = ls := by
  induction ls with
  | nil => rfl
  | cons l ls ih => rw [List.map_cons, List.flatten_cons, chop, List.take_left, List.drop_left, ih]

/-- Cut by two lists of lengths, one behind the other -/
theorem chop_append (ns ms : List Nat) (l : List α) :
    chop (ns ++ ms) l = chop ns (l.take ns.sum) ++ chop ms (l.drop ns.sum) := by
  induction ns generalizing l with
  | nil => rfl
  | cons n ns ih =>
    have hhead : (l.take (n + ns.sum)).take n = l.take n := by
      rw [List.take_take, Nat.min_eq_left (Nat.le_add_right _ _)]
    have htail : (l.take (n + ns.sum)).drop n = (l.drop n).take ns.sum := by
      rw [List.drop_take, Nat.add_sub_cancel_left]
    rw [List.cons_append, chop, ih, List.sum_cons, chop, hhead, htail, List.drop_drop, List.cons_append]

/-- Pieces of one length, cut one after another, make up what they were cut from. -/
theorem flatMap_slices {ι β : Type} {l : List β} {f : ι → List β} {n : Nat} : ∀ {is : List ι} (off : Nat),
    (∀ k i, is[k]? = some i → f i = (l.drop (off + k * n)).take n) →
    is.flatMap f = (l.drop off).take (is.length * n)
  | [], _, _ => by simp
  | i :: is, off, h => by
    have hhead := h 0 i rfl
    have hrest : ∀ k j, is[k]? = some j → f j = (l.drop (off + n + k * n)).take n := by
      intro k j hj
      rw [h (k + 1) j hj, Nat.succ_mul, Nat.add_assoc, Nat.add_comm n]
    have htail := flatMap_slices (off + n) hrest
    rw [Nat.zero_mul, Nat.add_zero] at hhead
    rw [List.flatMap_cons, hhead, htail, List.length_cons, Nat.succ_mul,
      Nat.add_comm (is.length * n) n, List.take_add, List.drop_drop]

end FlexBSO.Lib

import Mathlib.Data.Nat.Basic
import Mathlib.Tactic.Ring

/- Blocks dealt out in strips of `s` blocks to `n` disks in turn, and what a range of
   them is on one disk: a range of its own. The strips of the range on a disk run from
   an index `first` to an index `last` without a gap (`Dealt`), and only the disks of
   the first and of the last strip start or stop inside a strip. -/
namespace FlexBSO.Lib

/-- The disk of a block and the block on it. -/
def deal (s n b : Nat) : Nat × Nat := (b / s % n, b / s / n * s + b % s)

/-- The block that lies at a block of a disk. -/
def collect (s n : Nat) (x : Nat × Nat) : Nat := (x.2 / s * n + x.1) * s + x.2 % s

/-- The strips `a` to `b` lie on disk `d` at the indices `first` to `last`. -/
structure Dealt (n a b d first last : Nat) : Prop where
  disk : d < n
  first_ge : a ≤ first * n + d
  first_lt : first * n + d < a + n
  last_le : last * n + d ≤ b
  last_gt : b < last * n + d + n

section deal
variable {s n : Nat}

theorem mul_add_div (s p : Nat) {y : Nat} (hy : y < s) : (p * s + y) / s = p := by
  rw [Nat.mul_comm, Nat.mul_add_div (by omega), Nat.div_eq_of_lt hy, Nat.add_zero]

theorem mul_add_mod (s p : Nat) {y : Nat} (hy : y < s) : (p * s + y) % s = y := by
  rw [Nat.mul_comm, Nat.mul_add_mod, Nat.mod_eq_of_lt hy]

theorem mul_add_lt {p q y : Nat} (h : p < q) (hy : y < s) : p * s + y < q * s :=
  calc p * s + y < p * s + s := by omega
    _ = (p + 1) * s := by ring
    _ ≤ q * s := Nat.mul_le_mul_right s h

/-- Positions of two digits are ordered like their digits. -/
theorem mul_add_le_iff {p q y z : Nat} (hy : y < s) (hz : z < s) :
    p * s + y ≤ q * s + z ↔ p < q ∨ p = q ∧ y ≤ z := by
  rcases Nat.lt_trichotomy p q with h | h | h
  · have := mul_add_lt h hy
    exact ⟨fun _ => .inl h, fun _ => by omega⟩
  · subst h
    omega
  · have := mul_add_lt h hz
    omega

theorem collect_deal (hs : 0 < s) (b : Nat) : collect s n (deal s n b) = b := by
  have hmod := Nat.mod_lt b hs
  show ((b / s / n * s + b % s) / s * n + b / s % n) * s + (b / s / n * s + b % s) % s = b
  rw [mul_add_div s _ hmod, mul_add_mod s _ hmod, Nat.div_add_mod', Nat.div_add_mod']

theorem deal_collect (hs : 0 < s) {x : Nat × Nat} (hx : x.1 < n) : deal s n (collect s n x) = x := by
  have hmod := Nat.mod_lt x.2 hs
  show (((x.2 / s * n + x.1) * s + x.2 % s) / s % n,
    ((x.2 / s * n + x.1) * s + x.2 % s) / s / n * s + ((x.2 / s * n + x.1) * s + x.2 % s) % s) = x
  rw [mul_add_div s _ hmod, mul_add_mod s _ hmod, mul_add_div n _ hx, mul_add_mod n _ hx, Nat.div_add_mod']

theorem deal_injective (hs : 0 < s) {b b' : Nat} (h : deal s n b = deal s n b') : b = b' := by
  have := congrArg (collect s n) h
  rwa [collect_deal hs, collect_deal hs] at this

/-- Blocks of one strip lie next to each other, and on a single disk all do. -/
theorem deal_add {b k : Nat} (h : n = 1 ∨ b % s + k < s) :
    deal s n (b + k) = ((deal s n b).1, (deal s n b).2 + k) := by
  rcases h with rfl | h
  · have hone (x : Nat) : deal s 1 x = (0, x) := by
      rw [deal, Nat.mod_one, Nat.div_one, Nat.div_add_mod']
    rw [hone, hone]
  · have hsum : b + k = b / s * s + (b % s + k) := by
      rw [← Nat.add_assoc, Nat.div_add_mod']
    have hdiv : (b + k) / s = b / s := by rw [hsum, mul_add_div s _ h]
    have hmod : (b + k) % s = b % s + k := by rw [hsum, mul_add_mod s _ h]
    rw [deal, deal, hdiv, hmod, Nat.add_assoc]

namespace Dealt
variable {a b d first last : Nat}

theorem le_iff (h : Dealt n a b d first last) (p : Nat) : a ≤ p * n + d ↔ first ≤ p := by
  constructor
  · intro hp
    by_contra hc
    have := h.first_lt
    have := Nat.mul_le_mul_right n (show p + 1 ≤ first by omega)
    rw [Nat.add_mul, Nat.one_mul] at this
    omega
  · intro hp
    have := h.first_ge
    have := Nat.mul_le_mul_right n hp
    omega

theorem ge_iff (h : Dealt n a b d first last) (p : Nat) : p * n + d ≤ b ↔ p ≤ last := by
  constructor
  · intro hp
    by_contra hc
    have := h.last_gt
    have := Nat.mul_le_mul_right n (show last + 1 ≤ p by omega)
    rw [Nat.add_mul, Nat.one_mul] at this
    omega
  · intro hp
    have := h.last_le
    have := Nat.mul_le_mul_right n hp
    omega

/-- The first strip of the range is the first one of its disk. -/
theorem first_eq (h : Dealt n a b d first last) (hd : d = a % n) : first = a / n := by
  have ha := Nat.div_add_mod' a n
  have h1 := (h.le_iff (a / n)).mp (by omega)
  have h2 := h.first_ge
  by_contra hc
  have := Nat.mul_le_mul_right n (show first + 1 ≤ a / n by omega)
  rw [Nat.add_mul, Nat.one_mul] at this
  have := h.disk
  omega

/-- The last strip of the range is the last one of its disk. -/
theorem last_eq (h : Dealt n a b d first last) (hd : d = b % n) : last = b / n := by
  have hb := Nat.div_add_mod' b n
  have h1 := (h.ge_iff (b / n)).mp (by omega)
  have h2 := h.last_le
  by_contra hc
  have := Nat.mul_le_mul_right n (show b / n + 1 ≤ last by omega)
  rw [Nat.add_mul, Nat.one_mul] at this
  have := h.disk
  omega

theorem first_ne (h : Dealt n a b d first last) (hd : d ≠ a % n) (p : Nat) : p * n + d ≠ a := by
  intro hc
  apply hd
  rw [← hc, mul_add_mod n p h.disk]

theorem last_ne (h : Dealt n a b d first last) (hd : d ≠ b % n) (p : Nat) : p * n + d ≠ b := by
  intro hc
  apply hd
  rw [← hc, mul_add_mod n p h.disk]

/-- The disk of the strip `a + k`, with the corrections by one that lead from the first and the
    last strip of the range to those of the disk. -/
theorem of_strip {k : Nat} (hk : k < n) (hb : a + k ≤ b) :
    Dealt n a b ((a + k) % n) (if (a + k) % n < a % n then a / n + 1 else a / n)
      (if b % n < (a + k) % n then b / n - 1 else b / n) ∧
    (b % n < (a + k) % n → 1 ≤ b / n) := by
  have hn : 0 < n := by omega
  have ha := Nat.div_add_mod' a n
  have hb' := Nat.div_add_mod' b n
  have hj := Nat.div_add_mod' (a + k) n
  have hx := Nat.mod_lt a hn
  have hy := Nat.mod_lt b hn
  have hd := Nat.mod_lt (a + k) hn
  generalize (a + k) % n = d at *
  generalize (a + k) / n = p at *
  generalize a % n = x at *
  generalize b % n = y at *
  -- the strip `a + k` itself keeps the last index from falling below zero
  have hback : y < d → 1 ≤ b / n := by
    intro hyd
    rcases Nat.eq_zero_or_pos (b / n) with h0 | hpos
    · rw [h0, Nat.zero_mul] at hb'
      omega
    · exact hpos
  have hp : a / n ≤ p := by
    by_contra hc
    have := Nat.mul_le_mul_right n (show p + 1 ≤ a / n by omega)
    rw [Nat.add_mul, Nat.one_mul] at this
    omega
  refine ⟨⟨hd, ?_, ?_, ?_, ?_⟩, hback⟩
  · split
    · rw [Nat.add_mul, Nat.one_mul]
      omega
    · omega
  · split
    · rw [Nat.add_mul, Nat.one_mul]
      omega
    · have := Nat.mul_le_mul_right n hp
      omega
  · split
    · have := hback ‹_›
      have hpred : (b / n - 1) * n + n = b / n * n := by
        rw [← Nat.succ_mul, show (b / n - 1).succ = b / n by omega]
      omega
    · omega
  · split
    · have := hback ‹_›
      have hpred : (b / n - 1) * n + n = b / n * n := by
        rw [← Nat.succ_mul, show (b / n - 1).succ = b / n by omega]
      omega
    · omega

theorem first_le_last (h : Dealt n a b d first last) {p : Nat} (hp : a ≤ p * n + d) (hp' : p * n + d ≤ b) :
    first ≤ last := Nat.le_trans ((h.le_iff p).mp hp) ((h.ge_iff p).mp hp')

end Dealt

/-- Where on its disk a range that starts with block `o` starts. -/
def startOffset (s n o d : Nat) : Nat := if d = o / s % n then o % s else 0

/-- Where in the last strip of the disk a range that ends with block `e` ends. -/
def endOffset (s n e d : Nat) : Nat := if d = e / s % n then e % s else s - 1

section blocks
variable {o e d first last x : Nat}

theorem startOffset_lt (hs : 0 < s) : startOffset s n o d < s := by
  unfold startOffset
  split
  · exact Nat.mod_lt _ hs
  · exact hs

theorem endOffset_lt (hs : 0 < s) : endOffset s n e d < s := by
  unfold endOffset
  split
  · exact Nat.mod_lt _ hs
  · omega

/-- A block of a disk lies in the range or behind it. -/
theorem Dealt.start_iff (h : Dealt n (o / s) (e / s) d first last) (hs : 0 < s) :
    o ≤ collect s n (d, x) ↔ first * s + startOffset s n o d ≤ x := by
  have hx := Nat.mod_lt x hs
  have ho := Nat.mod_lt o hs
  have hle := h.le_iff (x / s)
  have hlt : o / s < x / s * n + d ∨ o / s = x / s * n + d ∧ o % s ≤ x % s ↔
      first < x / s ∨ first = x / s ∧ startOffset s n o d ≤ x % s := by
    unfold startOffset
    by_cases hd : d = o / s % n
    · rw [if_pos hd]
      have hf := h.first_eq hd
      have heq : o / s = x / s * n + d ↔ first = x / s := by
        constructor
        · intro hc
          rw [hf, hc, mul_add_div n _ h.disk]
        · intro hc
          rw [← hc, hf, hd, Nat.div_add_mod']
      omega
    · rw [if_neg hd]
      have := h.first_ne hd (x / s)
      omega
  calc o ≤ collect s n (d, x)
      ↔ o / s * s + o % s ≤ (x / s * n + d) * s + x % s := by rw [Nat.div_add_mod']; exact Iff.rfl
    _ ↔ o / s < x / s * n + d ∨ o / s = x / s * n + d ∧ o % s ≤ x % s := mul_add_le_iff ho hx
    _ ↔ first < x / s ∨ first = x / s ∧ startOffset s n o d ≤ x % s := hlt
    _ ↔ first * s + startOffset s n o d ≤ x / s * s + x % s := (mul_add_le_iff (startOffset_lt hs) hx).symm
    _ ↔ first * s + startOffset s n o d ≤ x := by rw [Nat.div_add_mod']

/-- A block of a disk lies in the range or before it. -/
theorem Dealt.end_iff (h : Dealt n (o / s) (e / s) d first last) (hs : 0 < s) :
    collect s n (d, x) ≤ e ↔ x ≤ last * s + endOffset s n e d := by
  have hx := Nat.mod_lt x hs
  have he := Nat.mod_lt e hs
  have hge := h.ge_iff (x / s)
  have hlt : x / s * n + d < e / s ∨ x / s * n + d = e / s ∧ x % s ≤ e % s ↔
      x / s < last ∨ x / s = last ∧ x % s ≤ endOffset s n e d := by
    unfold endOffset
    by_cases hd : d = e / s % n
    · rw [if_pos hd]
      have hl := h.last_eq hd
      have heq : x / s * n + d = e / s ↔ x / s = last := by
        constructor
        · intro hc
          rw [hl, ← hc, mul_add_div n _ h.disk]
        · intro hc
          rw [hc, hl, hd, Nat.div_add_mod']
      omega
    · rw [if_neg hd]
      have := h.last_ne hd (x / s)
      omega
  calc collect s n (d, x) ≤ e
      ↔ (x / s * n + d) * s + x % s ≤ e / s * s + e % s := by rw [Nat.div_add_mod' e s]; exact Iff.rfl
    _ ↔ x / s * n + d < e / s ∨ x / s * n + d = e / s ∧ x % s ≤ e % s := mul_add_le_iff hx he
    _ ↔ x / s < last ∨ x / s = last ∧ x % s ≤ endOffset s n e d := hlt
    _ ↔ x / s * s + x % s ≤ last * s + endOffset s n e d := (mul_add_le_iff hx (endOffset_lt hs)).symm
    _ ↔ x ≤ last * s + endOffset s n e d := by rw [Nat.div_add_mod']

/-- The last block of the range on the disk is no further than the last block of the range. -/
theorem Dealt.end_le (h : Dealt n (o / s) (e / s) d first last) (hs : 0 < s) :
    last * s + endOffset s n e d ≤ e := by
  have hn : 0 < n := Nat.zero_lt_of_lt h.disk
  have hcol := (h.end_iff (x := last * s + endOffset s n e d) hs).mpr (Nat.le_refl _)
  have hmod := endOffset_lt (n := n) (e := e) (d := d) hs
  unfold collect at hcol
  dsimp only at hcol
  rw [mul_add_div s _ hmod, mul_add_mod s _ hmod] at hcol
  have : last * s ≤ (last * n + d) * s := Nat.mul_le_mul_right s (by
    have := Nat.le_mul_of_pos_right last hn
    omega)
  omega

/-- The disk holds a block of the range. -/
theorem Dealt.start_le_end (h : Dealt n (o / s) (e / s) d first last) (hs : 0 < s) {b : Nat} (hb : o ≤ b)
    (hb' : b ≤ e) (hd : b / s % n = d) : first * s + startOffset s n o d ≤ last * s + endOffset s n e d := by
  have hcol : collect s n (d, (deal s n b).2) = b := by
    rw [← hd]
    exact collect_deal hs b
  have h1 := (h.start_iff hs).mp (by rw [hcol]; exact hb)
  have h2 := (h.end_iff hs).mp (by rw [hcol]; exact hb')
  exact Nat.le_trans h1 h2

end blocks

end deal

end FlexBSO.Lib

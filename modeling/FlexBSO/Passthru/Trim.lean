import FlexBSO.Passthru.Io

/- The trimming loops of `_pt_complete_io`. The inner loop's `break` leaves the inner
   loop only, so that the zeros at the end of every iovec are taken off, and not just
   those at the end of the whole. -/
namespace FlexBSO.Passthru

open Compress Lib

variable {iovs : List (List UInt8)} {iov : List UInt8}

theorem trimIov_eq (iov : List UInt8) : ∀ i, i ≤ iov.length → trimIov iov i = trailing 0 (iov.take i)
  | 0, _ => by rw [List.take_zero]; rfl
  | i + 1, h => by
    have hlt : i < iov.length := h
    rw [List.take_succ_eq_append_getElem hlt, trimIov]
    have hget : iov.getD i 0 = iov[i] := by
      rw [List.getD_eq_getElem?_getD, List.getElem?_eq_getElem hlt, Option.getD_some]
    rw [hget]
    split
    · next hz => rw [hz, trailing_concat_self, trimIov_eq iov i (Nat.le_of_lt hlt)]
    · next hz => rw [trailing_concat_of_ne hz]

/-- How many bytes of an iovec of `n` the inner loop may look at: its index is an `int`. -/
def inspected (n : Nat) : Nat := (toInt (n + (2 ^ 64 - 1)) + 1).toNat

theorem inspected_le (n : Nat) : inspected n ≤ n := by
  unfold inspected toInt
  rw [Int.bmod_def]
  split <;> omega

/-- Up to 2^31 bytes it starts at the last one. -/
theorem inspected_eq {n : Nat} (h : n ≤ 2 ^ 31) : inspected n = n := by
  unfold inspected toInt
  rw [Int.bmod_def]
  split <;> omega

theorem trimmed_inspected (iov : List UInt8) : trimmed iov = trailing 0 (iov.take (inspected iov.length)) :=
  trimIov_eq iov _ (inspected_le iov.length)

theorem trimmed_eq (h : iov.length ≤ 2 ^ 31) : trimmed iov = trailing 0 iov := by
  rw [trimmed_inspected, inspected_eq h, List.take_length]

theorem dataSize_eq (iovs : List (List UInt8)) : dataSize iovs = iovs.flatten.length := by
  rw [dataSize, List.length_flatten]

/-- The loops take the zeros at the end of each iovec off. -/
theorem compressedFileLen_eq (iovs : List (List UInt8)) :
    compressedFileLen iovs = iovs.flatten.length - (iovs.map trimmed).sum := by
  rw [← dataSize_eq, compressedFileLen]
  generalize dataSize iovs = n
  induction iovs with
  | nil => simp
  | cons iov iovs ih =>
    rw [List.foldr_cons, ih, List.map_cons, List.sum_cons]
    omega

theorem sum_trimmed (h : ∀ iov ∈ iovs, iov.length ≤ 2 ^ 31) :
    (iovs.map trimmed).sum = (iovs.map (trailing 0)).sum := by
  rw [List.map_congr_left fun iov hiov => trimmed_eq (h iov hiov)]

theorem trimmed_le (iov : List UInt8) : trimmed iov ≤ iov.length := by
  rw [trimmed_inspected]
  exact Nat.le_trans (trailing_le _ _) (List.length_take_le' _ _)

theorem sum_trimmed_le (iovs : List (List UInt8)) : (iovs.map trimmed).sum ≤ iovs.flatten.length := by
  induction iovs with
  | nil => simp
  | cons iov iovs ih =>
    have hle := trimmed_le iov
    rw [List.map_cons, List.sum_cons, List.flatten_cons, List.length_append]
    omega

/-- No iovec ends in a zero byte while a byte other than zero follows in a later one. -/
def CleanSeams (iovs : List (List UInt8)) : Prop :=
  ∀ before iov after, iovs = before ++ iov :: after → (∃ x ∈ after.flatten, x ≠ 0) → iov.getLast? ≠ some 0

theorem trailing_eq_zero_iff : trailing 0 iov = 0 ↔ iov.getLast? ≠ some 0 := by
  have hpos := trailing_pos_iff (z := (0 : UInt8)) (l := iov)
  have hlast : iov.getLast? = some 0 ↔ ∃ l₀, iov = l₀ ++ [0] := List.getLast?_eq_some_iff
  rw [ne_eq, hlast, ← hpos]
  omega

/-- The length passed to the decoder leaves off exactly the zeros the whole ends with if and only if
    no iovec ends in a zero before the last byte that is not zero. -/
theorem trim_whole (h : ∀ iov ∈ iovs, iov.length ≤ 2 ^ 31) :
    compressedFileLen iovs = iovs.flatten.length - trailing 0 iovs.flatten ↔ CleanSeams iovs := by
  have hsum : (iovs.map (trailing 0)).sum = trailing 0 iovs.flatten ↔ CleanSeams iovs := by
    rw [sum_trailing_iff]
    simp only [trailing_eq_zero_iff, CleanSeams]
  rw [compressedFileLen_eq, sum_trimmed h, ← hsum]
  have hle := sum_trailing_le (z := (0 : UInt8)) iovs
  have hle' := trailing_le (0 : UInt8) iovs.flatten
  omega

/-- Three iovecs: no seam before the last nonzero byte is behind a zero, and the zeros at the end run
    through all of the third iovec into the second. -/
theorem trim_whole_three : compressedFileLen [[0x4B, 0, 0x41], [0x42, 0, 0], [0, 0]] = 4 ↔
    CleanSeams [[0x4B, 0, 0x41], [0x42, 0, 0], [0, 0]] := trim_whole (by decide)

/-- The same bytes cut behind a zero: the length is not that of the whole without its last zeros. -/
theorem trim_depends_on_split : compressedFileLen [[0x4B, 0, 0x41, 0, 0]] = 3 ∧
    compressedFileLen [[0x4B, 0], [0x41, 0, 0]] = 2 ∧
    compressedFileLen [[0x4B, 0], [0x41, 0, 0]] ≠ 5 - trailing 0 [0x4B, 0, 0x41, 0, 0] := by
  decide

end FlexBSO.Passthru

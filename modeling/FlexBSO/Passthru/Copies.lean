import FlexBSO.Passthru.Trim

/- What the copies into the iovecs leave in them, seen as one byte string: the loops
   over several iovecs and the branch for a single one store the same bytes, the
   encoding cut or padded to the size of the request. They differ in what happens to
   an encoding that is too long. -/
namespace FlexBSO.Passthru

open Compress Lib

variable {buf : Buf} {iovs : List (List UInt8)} {iov : List UInt8} {off n : Nat}

/-- The bytes of the iovecs after the copies -/
def bytesOf (copies : List Copied) : List UInt8 := (copies.map (·.iov)).flatten

/-- No copy left its iovec, none left the buffer. -/
def Sound (copies : List Copied) : Prop := ∀ x ∈ copies, x.overrun = false ∧ x.overread = false

theorem foldl_gather (data : List UInt8) : iovs.foldl (fun d iov => d ++ iov) data = data ++ iovs.flatten := by
  induction iovs generalizing data with
  | nil => simp
  | cons iov iovs ih => rw [List.foldl_cons, ih, List.flatten_cons, List.append_assoc]

theorem gather_eq (iovs : List (List UInt8)) : gather iovs = iovs.flatten := by
  unfold gather
  split
  · simp
  · rw [foldl_gather, List.nil_append]

/-! ## Copies of a stored stream -/

theorem length_fillIov : (fillIov buf off n iov).iov.length = iov.length := by
  simp only [fillIov, List.length_append, Buf.length_read, List.length_replicate]
  omega

theorem read_inside (hoff : off + n ≤ buf.bytes.length) : buf.read off n = (buf.bytes.drop off).take n := by
  apply List.ext_getElem
  · rw [buf.length_read, List.length_take, List.length_drop]
    omega
  · intro i hi _
    have hin : i < n := by rwa [buf.length_read] at hi
    simp only [Buf.read, List.getElem_map, List.getElem_range, List.getElem_take, List.getElem_drop]
    exact Buf.get_eq (by omega)

/-- A stored stream with `n` bytes left, read and made up to `m` bytes with zeros -/
theorem read_pad (m : Nat) (hn : off + n = buf.bytes.length) :
    buf.read off (min n m) ++ List.replicate (m - n) 0 = pad 0 m (buf.bytes.drop off) := by
  have hlen : (buf.bytes.drop off).length = n := by
    rw [List.length_drop]
    omega
  have hmin : off + min n m ≤ buf.bytes.length := by omega
  rw [read_inside hmin, pad, hlen]
  rcases Nat.le_total n m with h | h
  · rw [Nat.min_eq_left h, List.take_of_length_le (by omega), List.take_of_length_le (by omega)]
  · rw [Nat.min_eq_right h]

theorem iov_fillIov (hn : off + n = buf.bytes.length) :
    (fillIov buf off n iov).iov = pad 0 iov.length (buf.bytes.drop off) := read_pad iov.length hn

/-- The loop over several iovecs copies what is left of the encoding, and zeros behind it. -/
theorem bytesOf_scatterCompressed (buf : Buf) : ∀ (iovs : List (List UInt8)) (off rest : Nat),
    bytesOf (scatterCompressed buf iovs off rest) =
      buf.read off (min rest (dataSize iovs)) ++ List.replicate (dataSize iovs - rest) 0
  | [], off, rest => by simp [scatterCompressed, bytesOf, dataSize, Buf.read]
  | iov :: iovs, off, rest => by
    have hsize : dataSize (iov :: iovs) = iov.length + dataSize iovs := by simp [dataSize]
    have ih := bytesOf_scatterCompressed buf iovs
    simp only [bytesOf] at ih
    rw [hsize, scatterCompressed]
    split
    · next hlt =>
      have hmin : min rest (iov.length + dataSize iovs) = iov.length + min (rest - iov.length) (dataSize iovs) := by omega
      simp only [bytesOf, List.map_cons, List.flatten_cons]
      rw [ih, hmin, Buf.read_add, fillIov, Nat.min_self, Nat.sub_self, List.replicate_zero, List.append_nil,
        List.append_assoc]
      congr 3
      omega
    · next hge =>
      -- the encoding ends in this iovec, the others stay zero
      have hmin : min rest (iov.length + dataSize iovs) = rest := by omega
      have hzeros : iov.length + dataSize iovs - rest = iov.length - rest + dataSize iovs := by omega
      simp only [bytesOf, List.map_cons, List.flatten_cons]
      rw [ih, Nat.zero_min, Nat.sub_zero, hmin, hzeros, fillIov, Nat.min_eq_left (by omega), List.replicate_add,
        List.append_assoc]
      rfl

theorem lengths_scatterCompressed (buf : Buf) : ∀ (iovs : List (List UInt8)) (off rest : Nat),
    (scatterCompressed buf iovs off rest).map (·.iov.length) = iovs.map List.length
  | [], _, _ => rfl
  | iov :: iovs, off, rest => by
    unfold scatterCompressed
    split
    · rw [List.map_cons, List.map_cons, length_fillIov, lengths_scatterCompressed buf iovs]
    · rw [List.map_cons, List.map_cons, length_fillIov, lengths_scatterCompressed buf iovs]

/-- The loop never leaves an iovec. -/
theorem scatterCompressed_overrun (buf : Buf) : ∀ (iovs : List (List UInt8)) (off rest : Nat),
    ∀ x ∈ scatterCompressed buf iovs off rest, x.overrun = false
  | [], _, _ => by simp [scatterCompressed]
  | iov :: iovs, off, rest => by
    have ih := scatterCompressed_overrun buf iovs
    unfold scatterCompressed
    split
    · intro x hx
      rcases List.mem_cons.mp hx with rfl | hx
      · simp [fillIov]
      · exact ih _ _ x hx
    · next hge =>
      intro x hx
      rcases List.mem_cons.mp hx with rfl | hx
      · exact decide_eq_false hge
      · exact ih _ _ x hx

/-- It stays inside the buffer while the stream does. -/
theorem scatterCompressed_overread (buf : Buf) : ∀ (iovs : List (List UInt8)) (off rest : Nat),
    off + rest ≤ buf.size → ∀ x ∈ scatterCompressed buf iovs off rest, x.overread = false
  | [], _, _, _ => by simp [scatterCompressed]
  | iov :: iovs, off, rest, h => by
    have ih := scatterCompressed_overread buf iovs
    unfold scatterCompressed
    split
    · next hlt =>
      intro x hx
      rcases List.mem_cons.mp hx with rfl | hx
      · refine decide_eq_false ?_
        omega
      · exact ih _ _ (by omega) x hx
    · intro x hx
      rcases List.mem_cons.mp hx with rfl | hx
      · refine decide_eq_false ?_
        omega
      · exact ih _ _ (by omega) x hx

/-- With more bytes to spread than the buffer has, it leaves the buffer. -/
theorem not_sound_scatterCompressed (buf : Buf) : ∀ (iovs : List (List UInt8)) (off rest : Nat),
    buf.size < off + dataSize iovs → off ≤ buf.size → dataSize iovs ≤ rest →
      ¬ Sound (scatterCompressed buf iovs off rest)
  | [], off, rest, h, hoff, _ => by
    simp only [dataSize, List.map_nil, List.sum_nil] at h
    omega
  | iov :: iovs, off, rest, h, hoff, hrest => by
    have hsize : dataSize (iov :: iovs) = iov.length + dataSize iovs := by simp [dataSize]
    rw [hsize] at h hrest
    unfold scatterCompressed
    split
    · intro hs
      by_cases hin : off + iov.length ≤ buf.size
      · refine not_sound_scatterCompressed buf iovs (off + iov.length) (rest - iov.length) (by omega) hin (by omega) ?_
        intro x hx
        exact hs x (List.mem_cons_of_mem _ hx)
      · have hbad := of_decide_eq_false (hs _ (List.mem_cons_self ..)).2
        omega
    · intro hs
      have hbad := of_decide_eq_false (hs _ (List.mem_cons_self ..)).2
      omega

/-! ## Copies of decoded bytes -/

theorem bytesOf_scatterDecompressed (buf : Buf) : ∀ (iovs : List (List UInt8)) (off : Nat),
    bytesOf (scatterDecompressed buf iovs off) = buf.read off (dataSize iovs)
  | [], off => by simp [scatterDecompressed, bytesOf, dataSize, Buf.read]
  | iov :: iovs, off => by
    have hsize : dataSize (iov :: iovs) = iov.length + dataSize iovs := by simp [dataSize]
    have ih := bytesOf_scatterDecompressed buf iovs (off + iov.length)
    simp only [bytesOf, scatterDecompressed, List.map_cons, List.flatten_cons] at ih ⊢
    rw [ih, hsize, Buf.read_add]
    simp [fillIov]

/-- The loop fills each iovec and no more; it leaves the buffer if and only if the iovecs hold more. -/
theorem sound_scatterDecompressed (buf : Buf) : ∀ (iovs : List (List UInt8)) (off : Nat),
    off + dataSize iovs ≤ buf.size → Sound (scatterDecompressed buf iovs off)
  | [], _, _ => by simp [scatterDecompressed, Sound]
  | iov :: iovs, off, h => by
    have hsize : dataSize (iov :: iovs) = iov.length + dataSize iovs := by simp [dataSize]
    rw [hsize] at h
    have ih := sound_scatterDecompressed buf iovs (off + iov.length) (by omega)
    intro x hx
    rcases List.mem_cons.mp hx with rfl | hx
    · refine ⟨decide_eq_false (Nat.lt_irrefl _), decide_eq_false ?_⟩
      omega
    · exact ih x hx

theorem not_sound_scatterDecompressed (buf : Buf) : ∀ (iovs : List (List UInt8)) (off : Nat),
    buf.size < off + dataSize iovs → off ≤ buf.size → ¬ Sound (scatterDecompressed buf iovs off)
  | [], off, h, hoff => by
    simp only [dataSize, List.map_nil, List.sum_nil] at h
    omega
  | iov :: iovs, off, h, hoff => by
    have hsize : dataSize (iov :: iovs) = iov.length + dataSize iovs := by simp [dataSize]
    rw [hsize] at h
    intro hs
    by_cases hin : off + iov.length ≤ buf.size
    · refine not_sound_scatterDecompressed buf iovs (off + iov.length) (by omega) hin ?_
      intro x hx
      exact hs x (List.mem_cons_of_mem _ hx)
    · have hbad := (hs _ (List.mem_cons_self ..)).2
      have hbad' := of_decide_eq_false hbad
      omega

end FlexBSO.Passthru

import FlexBSO.Passthru.Requests

/- The vbdev over a base bdev, beside the block device it stands for, which keeps the
   data of every write as it is. A write of the vbdev puts one frame at the place of its
   extent; nothing remembers where frames begin. A read therefore gets what the block
   device has if it begins where an extent does and meets no other frame, or if what it
   meets is stored as it is. -/
namespace FlexBSO.Passthru

open Compress Lib

/-- A write request: where it goes, in blocks, its iovecs, whole blocks of `blocklen` bytes
    together, and the calls of the submit function it took until the base bdev accepted it. -/
structure Write (c : Codec) (blocklen : Nat) where
  offsetBlocks : Nat
  numBlocks : Nat
  iovs : List (List UInt8)
  attempts : List Attempt
  whole : iovs.flatten.length = numBlocks * blocklen
  accepted : ∃ out, (submitWrite c attempts iovs).submitted = .accepted out

/-- The bytes of the base bdev -/
abbrev Store := Nat → UInt8

/-- The base bdev after bytes were written from byte `off` on -/
def Store.write (s : Store) (off : Nat) (data : List UInt8) : Store := fun p =>
  if off ≤ p ∧ p < off + data.length then data.getD (p - off) 0 else s p

/-- `n` bytes from byte `off` on -/
def Store.read (s : Store) (off n : Nat) : List UInt8 := (List.range n).map fun i => s (off + i)

variable {c : Codec} {blocklen : Nat}

/-- What the write stores in the base bdev, and what it stores in the block device. -/
def Write.stored (w : Write c blocklen) : List UInt8 :=
  match (submitWrite c w.attempts w.iovs).submitted with
  | .accepted iovs => iovs.flatten
  | _ => []

def Write.data (w : Write c blocklen) : List UInt8 := w.iovs.flatten

/-- A finite sequence of writes, each completed before the next, that put `bytes` into a device at
    first zero. -/
def replay (bytes : Write c blocklen → List UInt8) (ws : List (Write c blocklen)) : Store :=
  ws.foldl (fun s w => s.write (w.offsetBlocks * blocklen) (bytes w)) fun _ => 0

/-- A read of an extent into iovecs of the given lengths -/
def readExtent (blocklen : Nat) (c : Codec) (r : ReadCalls) (s : Store) (offsetBlocks : Nat) (lens : List Nat) :
    ReadRun :=
  ptCompleteRead c r true (chop lens (s.read (offsetBlocks * blocklen) lens.sum))

/-- Read back as exactly the extent it was written to, the write gives its data. -/
def Write.ReadsBack (w : Write c blocklen) : Prop :=
  ∀ r lens, CallsOk r.calls → (∀ n ∈ lens, 0 < n) → lens.sum = w.data.length → Returns c r lens w.stored w.data

/-- The block is one of those written. -/
def Write.Covers (w : Write c blocklen) (b : Nat) : Prop := w.offsetBlocks ≤ b ∧ b < w.offsetBlocks + w.numBlocks

instance (w : Write c blocklen) (b : Nat) : Decidable (w.Covers b) := by
  unfold Write.Covers
  exact inferInstance

/-- The range begins with a zero byte, and the last write of each of its blocks stored its data as it
    is; a block never written counts as such. -/
structure StoredAsIs (ws : List (Write c blocklen)) (off n : Nat) : Prop where
  first : replay Write.stored ws (off * blocklen) = 0
  last : ∀ ws₁ w ws₂ b, ws = ws₁ ++ w :: ws₂ → off ≤ b → b < off + n → w.Covers b →
    (∀ w' ∈ ws₂, ¬ w'.Covers b) → w.stored = w.data

/-- The iovecs of a read that begins with `size` bytes of data: several have no more bytes, one has no
    less, and not so many that an `int` does not count them. -/
def Suits (lens : List Nat) (size : Nat) : Prop :=
  if lens.length = 1 then size ≤ lens.sum ∧ lens.sum ≤ max size (2 ^ 31) else lens.sum ≤ size

/-- The range begins where an extent does, none of whose blocks in the range was written since; what of
    the extent's bytes is not in the range is zero, and the blocks of the range behind the extent were
    never written. -/
structure Leads (ws₁ : List (Write c blocklen)) (w : Write c blocklen) (ws₂ : List (Write c blocklen))
    (off n : Nat) (lens : List Nat) : Prop where
  start : w.offsetBlocks = off
  kept : ∀ w' ∈ ws₂, ∀ b, off ≤ b → b < off + n → ¬ w'.Covers b
  behind : ∀ w' ∈ ws₁, ∀ b, off + w.numBlocks ≤ b → b < off + n → ¬ w'.Covers b
  inside : ∀ x ∈ w.stored.drop (n * blocklen), x = 0
  suits : Suits lens w.data.length

/-! ## The device after the writes -/

theorem Write.length_data (w : Write c blocklen) : w.data.length = w.numBlocks * blocklen := w.whole

theorem Write.length_stored (w : Write c blocklen) : w.stored.length = w.numBlocks * blocklen := by
  obtain ⟨out, hout⟩ := w.accepted
  have hlen := congrArg List.sum (accepted_lengths hout)
  rw [Write.stored, hout, ← w.whole]
  dsimp only
  rw [List.length_flatten, List.length_flatten]
  exact hlen

theorem Store.length_read (s : Store) (off n : Nat) : (s.read off n).length = n := by
  simp [Store.read]

theorem Store.read_add (s : Store) (off m n : Nat) : s.read off (m + n) = s.read off m ++ s.read (off + m) n := by
  simp only [Store.read, List.range_add, List.map_append, List.map_map, List.append_cancel_left_eq]
  apply List.map_congr_left
  intro i _
  simp [Nat.add_assoc]

section replay

variable {bytes : Write c blocklen → List UInt8} {ws ws₁ ws₂ : List (Write c blocklen)} {w : Write c blocklen} {p : Nat}

theorem covers_iff (hblock : 0 < blocklen) (w : Write c blocklen) (p : Nat) : w.Covers (p / blocklen) ↔
    w.offsetBlocks * blocklen ≤ p ∧ p < w.offsetBlocks * blocklen + w.numBlocks * blocklen := by
  rw [Write.Covers, Nat.le_div_iff_mul_le hblock, Nat.div_lt_iff_lt_mul hblock, Nat.add_mul]

theorem replay_concat (bytes : Write c blocklen → List UInt8) (ws : List (Write c blocklen)) (w : Write c blocklen) :
    replay bytes (ws ++ [w]) = (replay bytes ws).write (w.offsetBlocks * blocklen) (bytes w) := by
  simp only [replay, List.foldl_append, List.foldl_cons, List.foldl_nil]

/-- One more write, at one byte -/
theorem replay_concat_apply (hblock : 0 < blocklen) (hbytes : ∀ w, (bytes w).length = w.numBlocks * blocklen) :
    replay bytes (ws ++ [w]) p =
      if w.Covers (p / blocklen) then (bytes w).getD (p - w.offsetBlocks * blocklen) 0 else replay bytes ws p := by
  rw [replay_concat, Store.write, hbytes]
  simp only [covers_iff hblock]

/-- A block never written is zero. -/
theorem replay_none (hblock : 0 < blocklen) (hbytes : ∀ w, (bytes w).length = w.numBlocks * blocklen)
    (h : ∀ w ∈ ws, ¬ w.Covers (p / blocklen)) : replay bytes ws p = 0 := by
  induction ws using List.reverseRecOn with
  | nil => rfl
  | append_singleton ws w ih =>
    rw [replay_concat_apply hblock hbytes, if_neg (h w (by simp))]
    exact ih fun w' hw' => h w' (by simp [hw'])

/-- A block has what its last write put there. -/
theorem replay_last (hblock : 0 < blocklen) (hbytes : ∀ w, (bytes w).length = w.numBlocks * blocklen)
    (hw : w.Covers (p / blocklen)) (hlast : ∀ w' ∈ ws₂, ¬ w'.Covers (p / blocklen)) :
    replay bytes (ws₁ ++ w :: ws₂) p = (bytes w).getD (p - w.offsetBlocks * blocklen) 0 := by
  induction ws₂ using List.reverseRecOn with
  | nil => rw [replay_concat_apply hblock hbytes, if_pos hw]
  | append_singleton ws₂ w' ih =>
    rw [← List.cons_append, ← List.append_assoc, replay_concat_apply hblock hbytes, if_neg (hlast w' (by simp))]
    exact ih fun w'' hw'' => hlast w'' (by simp [hw''])

/-- The base bdev and the block device agree on a block whose last write stored its data as it is. -/
theorem replay_agree (hblock : 0 < blocklen) (h : ∀ ws₁ w ws₂, ws = ws₁ ++ w :: ws₂ → w.Covers (p / blocklen) →
    (∀ w' ∈ ws₂, ¬ w'.Covers (p / blocklen)) → w.stored = w.data) :
    replay Write.stored ws p = replay Write.data ws p := by
  induction ws using List.reverseRecOn with
  | nil => rfl
  | append_singleton ws w ih =>
    rw [replay_concat_apply hblock Write.length_stored, replay_concat_apply hblock Write.length_data]
    by_cases hw : w.Covers (p / blocklen)
    · have hsame := h ws w [] rfl hw (by simp)
      rw [if_pos hw, if_pos hw, hsame]
    · rw [if_neg hw, if_neg hw]
      refine ih fun ws₁ w' ws₂ heq hw' hlast => h ws₁ w' (ws₂ ++ [w]) (by simp [heq]) hw' ?_
      intro w'' hw''
      rcases List.mem_append.mp hw'' with hw'' | hw''
      · exact hlast w'' hw''
      · rw [List.mem_singleton.mp hw'']
        exact hw

/-- What a range that an extent leads has: the bytes of the extent, cut or made up with zeros. -/
theorem read_leads {off n : Nat} {lens : List Nat} (hblock : 0 < blocklen)
    (hbytes : ∀ w, (bytes w).length = w.numBlocks * blocklen) (h : Leads ws₁ w ws₂ off n lens) :
    (replay bytes (ws₁ ++ w :: ws₂)).read (off * blocklen) (n * blocklen) = pad 0 (n * blocklen) (bytes w) := by
  apply List.ext_getElem?
  intro i
  by_cases hi : i < n * blocklen
  · rw [Store.read, List.getElem?_map, List.getElem?_range hi, Option.map_some, getElem?_pad _ hi]
    have hlow : off ≤ (off * blocklen + i) / blocklen := by
      rw [Nat.le_div_iff_mul_le hblock]
      omega
    have hhigh : (off * blocklen + i) / blocklen < off + n := by
      rw [Nat.div_lt_iff_lt_mul hblock, Nat.add_mul]
      omega
    have hkept : ∀ w' ∈ ws₂, ¬ w'.Covers ((off * blocklen + i) / blocklen) := fun w' hw' => h.kept w' hw' _ hlow hhigh
    congr 1
    by_cases hw : w.Covers ((off * blocklen + i) / blocklen)
    · rw [replay_last hblock hbytes hw hkept, h.start, Nat.add_sub_cancel_left]
    · have hend : w.numBlocks * blocklen ≤ i := by
        rw [covers_iff hblock, h.start] at hw
        omega
      have hbehind : off + w.numBlocks ≤ (off * blocklen + i) / blocklen := by
        rw [Nat.le_div_iff_mul_le hblock, Nat.add_mul]
        omega
      rw [List.getD_eq_getElem?_getD, List.getElem?_eq_none (by rw [hbytes]; exact hend)]
      refine replay_none hblock hbytes ?_
      intro w' hw'
      rcases List.mem_append.mp hw' with hw' | hw'
      · exact h.behind w' hw' _ hbehind hhigh
      · rcases List.mem_cons.mp hw' with rfl | hw'
        · exact hw
        · exact hkept w' hw'
  · rw [List.getElem?_eq_none (by rw [Store.length_read]; omega), List.getElem?_eq_none (by rw [length_pad]; omega)]

end replay

/-! ## A read that begins with a frame -/

section prefix_read

variable {F D : List UInt8} {r : ReadCalls} {lens : List Nat}

theorem firstChar_positive {F : List UInt8} (hne : F ≠ []) (hpos : ∀ n ∈ lens, 0 < n) (hsum : lens.sum = F.length) :
    firstChar r (chop lens F) = F.headD 0 := by
  rw [firstChar_chop hne, if_neg]
  intro hzero
  cases lens with
  | nil =>
    have hlen : F.length = 0 := hsum.symm
    exact hne (List.eq_nil_of_length_eq_zero hlen)
  | cons n lens => exact Nat.ne_of_gt (hpos n (List.mem_cons_self ..)) hzero

/-- A range that begins with a zero byte is returned as it is. -/
theorem returns_zero (hne : F ≠ []) (hpos : ∀ n ∈ lens, 0 < n) (hsum : lens.sum = F.length) (hzero : F.headD 0 = 0) :
    Returns c r lens F F :=
  (returns_skipped hsum ((firstChar_positive hne hpos hsum).trans hzero)).mpr rfl

/-- Several iovecs hold no more than the buffer their bytes come from. -/
theorem size_le_of_sound {out : Output} {iovs : List (List UInt8)} (hmany : iovs.length ≠ 1)
    (h : Sound (readCopies out iovs)) : dataSize iovs ≤ out.buf.size := by
  by_contra hbig
  unfold readCopies at h
  split at h
  · exact hmany rfl
  · exact not_sound_scatterDecompressed _ _ _ (by omega) (Nat.zero_le _) h

theorem readCopies_many {out : Output} {iovs : List (List UInt8)} (hmany : iovs.length ≠ 1) :
    readCopies out iovs = scatterDecompressed out.buf iovs 0 := by
  unfold readCopies
  split
  · exact absurd rfl hmany
  · rfl

theorem compressFile_size (c : Codec) (calls : Calls) (data : List UInt8) (job : JobType) (method : CompressMethod)
    (len checksum : Nat) : (compressFile c calls data job method len checksum).2.buf.size ≤ maxFileSize := by
  have hcases := compressFile_cases c calls data job method len checksum
  generalize compressFile c calls data job method len checksum = res at hcases
  cases hcases with
  | ok _ _ _ _ hout => exact hout.size.le.trans (dstBufSize_le _ _)
  | failed _ _ _ hsize _ => exact hsize.trans (dstBufSize_le _ _)

/-- Zeros in an iovec of their own do not change what is decoded. -/
theorem trimmedData_concat {iovs : List (List UInt8)} {zeros : List UInt8} (hzeros : ∀ x ∈ zeros, x = 0)
    (hsmall : zeros.length ≤ 2 ^ 31) : trimmedData (iovs ++ [zeros]) = trimmedData iovs := by
  have htrim : trimmed zeros = zeros.length := by rw [trimmed_eq hsmall, trailing_all hzeros]
  have hcut : compressedFileLen (iovs ++ [zeros]) = compressedFileLen iovs := by
    rw [compressedFileLen_eq, compressedFileLen_eq, List.flatten_append, List.flatten_singleton, List.length_append,
      List.map_append, List.map_singleton, List.sum_append, List.sum_singleton, htrim]
    omega
  have hle : compressedFileLen iovs ≤ iovs.flatten.length := by
    rw [compressedFileLen_eq]
    exact Nat.sub_le _ _
  rw [trimmedData, hcut, List.flatten_append, List.take_append_of_le_length hle, trimmedData]

/-- The front of an extent, read into several iovecs, once the rest of its frame is zero: the decoder gets
    what it gets for the whole extent. -/
theorem returns_front (hmany : lens.length ≠ 1) (hne : lens ≠ []) (hlen : F.length = D.length)
    (hshort : lens.sum < D.length) (hrest : ∀ x ∈ F.drop lens.sum, x = 0)
    (hfirst : firstChar r (chop lens (F.take lens.sum)) ≠ 0) (hwhole : Returns c r (lens ++ [D.length - lens.sum]) F D) :
    Returns c r lens (F.take lens.sum) (D.take lens.sum) := by
  obtain ⟨n, lens', rfl⟩ := List.exists_cons_of_ne_nil hne
  generalize hm : (n :: lens').sum = m at *
  generalize hiovs : chop (n :: lens') (F.take m) = iovs at *
  have hcount : iovs.length ≠ 1 := by
    rw [← hiovs, length_chop]
    exact hmany
  have hcut : chop (n :: lens' ++ [D.length - m]) F = iovs ++ [F.drop m] := by
    have hlast : chop [D.length - m] (F.drop m) = [F.drop m] := by
      rw [chop, chop, List.take_of_length_le]
      rw [List.length_drop, hlen]
    rw [chop_append, hm, hiovs, hlast]
  have hflat : iovs.flatten = F.take m := by
    rw [← hiovs, flatten_chop, hm, List.take_take, Nat.min_self]
  have hsize : dataSize iovs = m := by
    rw [dataSize_eq, hflat, List.length_take]
    omega
  have hsize' : dataSize (iovs ++ [F.drop m]) = m + (D.length - m) := by
    rw [dataSize_eq, List.flatten_append, hflat, List.flatten_singleton, List.take_append_drop, hlen]
    omega
  have hfirst' : firstChar r (iovs ++ [F.drop m]) ≠ 0 := by
    rw [← hiovs] at hfirst ⊢
    exact hfirst
  have hmany' : (iovs ++ [F.drop m]).length ≠ 1 := by
    rw [← hiovs, chop]
    simp
  rw [← hcut] at hfirst'
  obtain ⟨hbytes, hsound⟩ := (returns_decoded hfirst').mp hwhole
  rw [← hiovs] at hfirst
  refine (returns_decoded hfirst).mpr ?_
  rw [hcut, decompressIovs_eq] at hbytes hsound
  rw [hiovs, decompressIovs_eq]
  have hroom := size_le_of_sound hmany' hsound
  have hmax := compressFile_size c r.calls (trimmedData (iovs ++ [F.drop m])) .decompress .hw r.len 0
  have htrim : trimmedData (iovs ++ [F.drop m]) = trimmedData iovs := by
    refine trimmedData_concat hrest ?_
    rw [List.length_drop]
    unfold maxFileSize at hmax
    omega
  rw [htrim] at hbytes hroom
  generalize (compressFile c r.calls (trimmedData iovs) .decompress .hw r.len 0).2 = out at hbytes hroom ⊢
  dsimp only at hbytes ⊢
  rw [readCopies_many hmany', bytesOf_scatterDecompressed, hsize', Buf.read_add] at hbytes
  rw [readCopies_many hcount]
  refine ⟨?_, sound_scatterDecompressed _ _ _ (by omega)⟩
  rw [bytesOf_scatterDecompressed, hsize, ← hbytes, List.take_left' (Buf.length_read ..)]

theorem returns_one (hpos : 0 < F.length) (hnz : F.headD 0 ≠ 0) : Returns c r [F.length] F D ↔
    bytesOf (readCopies (compressFile c r.calls (trimmedData [F]) .decompress .hw r.len 0).2 [F]) = D ∧
    Sound (readCopies (compressFile c r.calls (trimmedData [F]) .decompress .hw r.len 0).2 [F]) := by
  have hchop : chop [F.length] F = [F] := by
    rw [chop, chop, List.take_length]
  have hne : F ≠ [] := List.length_pos_iff.mp hpos
  have hfirst : firstChar r (chop [F.length] F) ≠ 0 := by
    rw [firstChar_positive hne (by simpa using hpos) (by simp)]
    exact hnz
  rw [returns_decoded hfirst, decompressIovs_eq, hchop]

/-- An extent and zeros behind it, read into one iovec: they are trimmed off before the decoder and come
    back behind the data. -/
theorem returns_behind {m : Nat} (hpos : 0 < D.length) (hlen : F.length = D.length) (hlong : D.length ≤ m)
    (hsmall : m ≤ 2 ^ 31) (hnz : F.headD 0 ≠ 0) (hcalls : CallsOk r.calls)
    (hwhole : ∀ r : ReadCalls, CallsOk r.calls → Returns c r [F.length] F D) :
    Returns c r [m] (pad 0 m F) (pad 0 m D) := by
  have hpad : pad 0 m F = F ++ List.replicate (m - F.length) 0 := pad_of_le (by omega)
  have hnz' : (pad 0 m F).headD 0 ≠ 0 := by
    obtain ⟨x, F', rfl⟩ := List.exists_cons_of_length_pos (hlen ▸ hpos)
    rw [hpad]
    exact hnz
  have htrim : trimmedData [pad 0 m F] = trimmedData [F] := by
    have htail : trailing 0 (pad 0 m F) = trailing 0 F + (m - F.length) := by
      rw [hpad, trailing_append_of_all fun x hx => List.eq_of_mem_replicate hx, List.length_replicate]
    have hle := trailing_le (0 : UInt8) F
    simp only [trimmedData, compressedFileLen_eq, List.flatten_singleton, List.map_singleton, List.sum_singleton,
      length_pad]
    rw [trimmed_eq (by rw [length_pad]; exact hsmall), trimmed_eq (by omega), htail, hpad]
    have hcut : m - (trailing 0 F + (m - F.length)) = F.length - trailing 0 F := by omega
    rw [hcut, List.take_append_of_le_length (Nat.sub_le _ _)]
  -- with too great a length left in `decompressed_file_len` only a job that succeeds can be sound
  obtain ⟨_, hsound⟩ := (returns_one (by omega) hnz).mp (hwhole { r with len := F.length + 1 } hcalls)
  have hcases := compressFile_cases c r.calls (trimmedData [F]) .decompress .hw (F.length + 1) 0
  generalize compressFile c r.calls (trimmedData [F]) .decompress .hw (F.length + 1) 0 = res at hsound hcases
  cases hcases with
  | failed _ _ hkept _ _ =>
    have hover := of_decide_eq_false (hsound _ (List.mem_singleton.mpr rfl)).1
    dsimp only at hover
    omega
  | @ok stream out' hcalloc hjob hstream hroom hout' =>
    have hover := of_decide_eq_false (hsound _ (List.mem_singleton.mpr rfl)).1
    dsimp only at hover
    rw [hout'.len] at hover
    obtain ⟨out, hrun, hout⟩ := compressFile_ok r.len 0 hcalloc (hjob rfl).1 (hjob rfl).2 hstream hroom
    have hstored : 0 + out.len = out.buf.bytes.length := by
      rw [hout.len, hout.bytes, Nat.zero_add]
    have hfill : ∀ iov : List UInt8, bytesOf (readCopies out [iov]) = pad 0 iov.length stream := by
      intro iov
      simp only [readCopies, bytesOf, List.map_cons, List.map_nil, List.flatten_cons, List.flatten_nil, List.append_nil]
      rw [iov_fillIov hstored, List.drop_zero, hout.bytes]
    have hD := ((returns_one (by omega) hnz).mp (hwhole r hcalls)).1
    rw [hrun] at hD
    dsimp only at hD
    rw [hfill] at hD
    have hmlen : (pad 0 m F).length = m := length_pad _ _ _
    have hone := returns_one (c := c) (r := r) (F := pad 0 m F) (D := pad 0 m D) (by omega) hnz'
    rw [hmlen, htrim, hrun] at hone
    dsimp only at hone
    refine hone.mpr ⟨?_, ?_⟩
    · rw [hfill, hmlen, ← hD, pad_pad (by omega) (by omega)]
    · intro x hx
      obtain rfl := List.mem_singleton.mp hx
      have hlen' := hout.len
      have hfits := hout.fits
      have hsize := hout.size
      refine ⟨decide_eq_false ?_, decide_eq_false ?_⟩ <;> omega

/-- A read that begins with an extent and may end before or behind it -/
theorem returns_leads (hpos : ∀ n ∈ lens, 0 < n) (hsome : 0 < lens.sum) (hlen : F.length = D.length)
    (hrest : ∀ x ∈ F.drop lens.sum, x = 0) (hsuits : Suits lens D.length) (hcalls : CallsOk r.calls)
    (hwhole : ∀ r lens, CallsOk r.calls → (∀ n ∈ lens, 0 < n) → lens.sum = D.length → Returns c r lens F D) :
    Returns c r lens (pad 0 lens.sum F) (pad 0 lens.sum D) := by
  have hne : pad 0 lens.sum F ≠ [] := by
    rw [← List.length_pos_iff, length_pad]
    exact hsome
  have hhead : (pad 0 lens.sum F).headD 0 = F.headD 0 := by
    have hzero := getElem?_pad (z := (0 : UInt8)) F hsome
    rw [List.headD_eq_head?_getD, List.head?_eq_getElem?, hzero, List.headD_eq_head?_getD, List.head?_eq_getElem?,
      Option.getD_some, List.getD_eq_getElem?_getD]
  by_cases hz : F.headD 0 = 0
  · -- nothing is decoded, and the extent is stored as it is
    have hsame : F = D := by
      by_cases hD : 0 < D.length
      · have hF : F ≠ [] := by
          rw [← List.length_pos_iff]
          omega
        have hread := hwhole r [D.length] hcalls (by simpa using hD) (by simp)
        refine (returns_skipped (r := r) (by simpa using hlen.symm) ?_).mp hread
        rw [firstChar_positive hF (by simpa using hD) (by simpa using hlen.symm)]
        exact hz
      · rw [List.eq_nil_of_length_eq_zero (l := D) (by omega), List.eq_nil_of_length_eq_zero (l := F) (by omega)]
    rw [← hsame]
    exact returns_zero hne hpos (length_pad _ _ _).symm (hhead.trans hz)
  · have hD : 0 < D.length := by
      rw [← hlen, List.length_pos_iff]
      rintro rfl
      exact hz rfl
    by_cases heq : lens.sum = D.length
    · rw [pad_of_ge (n := lens.sum) (by omega), pad_of_ge (n := lens.sum) (by omega), List.take_of_length_le (by omega),
        List.take_of_length_le (by omega)]
      exact hwhole r lens hcalls hpos heq
    · unfold Suits at hsuits
      split at hsuits
      · next hone =>
        obtain ⟨m, rfl⟩ := List.length_eq_one_iff.mp hone
        rw [List.sum_singleton] at hsuits ⊢
        have hm : m ≠ D.length := by simpa using heq
        refine returns_behind hD hlen hsuits.1 (by omega) hz hcalls fun r' hcalls' => ?_
        exact hwhole r' _ hcalls' (by simpa [hlen] using hD) (by simpa using hlen)
      · next hmany =>
        have hshort : lens.sum < D.length := by omega
        have hcutF := pad_of_ge (z := (0 : UInt8)) (n := lens.sum) (l := F) (by omega)
        rw [hcutF] at hne hhead ⊢
        rw [pad_of_ge (n := lens.sum) (by omega)]
        refine returns_front hmany ?_ hlen hshort hrest ?_ ?_
        · rintro rfl
          exact Nat.lt_irrefl 0 hsome
        · rw [firstChar_positive hne hpos (by rw [List.length_take]; omega), hhead]
          exact hz
        · refine hwhole r _ hcalls ?_ ?_
          · intro n hn
            rcases List.mem_append.mp hn with hn | hn
            · exact hpos n hn
            · rw [List.mem_singleton.mp hn]
              omega
          · rw [List.sum_append, List.sum_singleton]
            omega

end prefix_read

/-! ## Any range -/

/-- A codec that encodes one byte string as a single byte, and all others as themselves behind a mark. -/
def dictionaryCodec (word : List UInt8) : Codec := .ofDoca
  (fun data => if data = word then [3] else 2 :: data)
  (fun
    | [3] => some word
    | 2 :: data => some data
    | _ => none)

theorem encode_dictionaryCodec (word : List UInt8) : (dictionaryCodec word).encode .hw word = [3] := if_pos rfl

theorem lossless_dictionaryCodec (word : List UInt8) : Lossless (dictionaryCodec word) := by
  intro data
  by_cases h : data = word
  · rw [h]
    simp only [dictionaryCodec, Codec.ofDoca, Codec.encode, if_true]
  · simp only [dictionaryCodec, Codec.ofDoca, Codec.encode, if_neg h]

/-- The word: some blocks of 512 bytes -/
def wordCodec (numBlocks : Nat) : Codec := dictionaryCodec (List.replicate (numBlocks * 512) 7)

/-- The word, written in one request -/
def wordWrite (offsetBlocks numBlocks : Nat) : Write (wordCodec numBlocks) 512 where
  offsetBlocks := offsetBlocks
  numBlocks := numBlocks
  iovs := [List.replicate (numBlocks * 512) 7]
  attempts := [{}]
  whole := by simp
  accepted := ⟨_, rfl⟩

theorem data_wordWrite (off n : Nat) : (wordWrite off n).data = List.replicate (n * 512) 7 := by
  simp [wordWrite, Write.data]

theorem stored_wordWrite (off n : Nat) : (wordWrite off n).stored = pad 0 (n * 512) [3] := by
  have henc := encode_dictionaryCodec (List.replicate (n * 512) 7)
  have hflat : (wordWrite off n).iovs.flatten = List.replicate (n * 512) 7 := data_wordWrite off n
  have hfits : Fits (wordCodec n) (wordWrite off n).iovs.flatten := by
    rw [hflat, Fits, wordCodec, henc]
    unfold dstBufSize minDstBufSize
    simp only [List.length_singleton]
    omega
  have hs := (compressIovs_success (wordCodec n) {} (wordWrite off n).iovs).mpr ⟨by decide, hfits⟩
  have hstored : (wordWrite off n).stored = (after (wordCodec n) {} (wordWrite off n).iovs).flatten := rfl
  rw [hstored, flatten_after hs, hflat, frame, wordCodec, henc, List.length_replicate]

theorem readsBack_wordWrite (off : Nat) {n : Nat} (hn : 0 < n) (hsmall : n ≤ 2048) : (wordWrite off n).ReadsBack := by
  intro r lens hcalls hpos hsum
  have hlen : (List.replicate (n * 512) (7 : UInt8)).length = n * 512 := List.length_replicate
  rw [data_wordWrite, hlen] at hsum
  rw [data_wordWrite, stored_wordWrite]
  obtain ⟨m, hm⟩ : ∃ m, n * 512 = m + 1 := ⟨n * 512 - 1, by omega⟩
  have hpad : pad 0 (n * 512) ([3] : List UInt8) = 3 :: List.replicate m 0 := by
    rw [pad_of_le (by rw [List.length_singleton]; omega), hm]
    rfl
  have hfirst : ¬ lens.headD 0 = 0 := by
    cases lens with
    | nil =>
      have hzero : 0 = n * 512 := hsum
      omega
    | cons m lens => exact Nat.ne_of_gt (hpos m (List.mem_cons_self ..))
  -- only the first byte of the frame is not zero
  have hseams : CleanSeams (chop lens (pad 0 (n * 512) [3])) := by
    rintro before iov behind hcut ⟨x, hx, hne⟩
    exfalso
    have hflat : (chop lens (pad 0 (n * 512) ([3] : List UInt8))).flatten = pad 0 (n * 512) [3] := by
      rw [flatten_chop, hsum]
      exact List.take_of_length_le (by rw [length_pad])
    rw [hcut, List.flatten_append, List.flatten_cons] at hflat
    have hhead : 0 < (before.flatten ++ iov).length := by
      have hlens : (chop lens (pad 0 (n * 512) ([3] : List UInt8))).map List.length = lens :=
        lengths_chop (by rw [length_pad, hsum])
      have hmem : iov.length ∈ lens := by
        rw [← hlens, hcut]
        exact List.mem_map_of_mem (by simp)
      have hiov := hpos _ hmem
      rw [List.length_append]
      omega
    have htail : behind.flatten = (pad 0 (n * 512) ([3] : List UInt8)).drop (before.flatten ++ iov).length := by
      rw [← hflat, ← List.append_assoc, List.drop_left]
    obtain ⟨k, hk⟩ : ∃ k, (before.flatten ++ iov).length = k + 1 := ⟨(before.flatten ++ iov).length - 1, by omega⟩
    rw [htail, hpad, hk, List.drop_succ_cons] at hx
    exact hne (List.eq_of_mem_replicate (List.mem_of_mem_drop hx))
  have hsum' : lens.sum = (List.replicate (n * 512) (7 : UInt8)).length := by rw [hlen, hsum]
  have htrim := (trimmedData_frame (E := [3]) hsum' (by rw [hlen, List.length_singleton]; omega)
    (by rw [hlen]; unfold maxFileSize; omega)).mpr ⟨by decide, by rw [hlen]; exact hseams⟩
  rw [hlen] at htrim
  have hroom : (List.replicate (n * 512) (7 : UInt8)).length ≤ dstBufSize .decompress ([3] : List UInt8).length := by
    rw [hlen]
    unfold dstBufSize minDstBufSize
    simp only [List.length_singleton]
    omega
  have hback := (readsBack_iff (E := [3]) (D := List.replicate (n * 512) 7) (F := pad 0 (n * 512) [3]) lens
    (by rw [length_pad, hsum]) (by rw [length_pad, hlen]) (by rw [hm]; exact List.cons_ne_nil _ _)).mpr
    ⟨fun h => absurd (h.resolve_left hfirst) (by rw [hpad]; exact (by decide : (3 : UInt8) ≠ 0)), fun _ => ⟨htrim, hroom⟩⟩
  exact hback _ r (lossless_dictionaryCodec _) (encode_dictionaryCodec _) hcalls

/-- Such an extent leads a range that ends in it or behind it. -/
theorem leads_wordWrite {off n m : Nat} {ws₁ ws₂ : List (Write (wordCodec n) 512)} (hm : n ≤ m) (hsmall : m * 512 ≤ 2 ^ 31)
    (hkept : ∀ w' ∈ ws₂, ∀ b, off ≤ b → b < off + m → ¬ w'.Covers b)
    (hbehind : ∀ w' ∈ ws₁, ∀ b, off + n ≤ b → b < off + m → ¬ w'.Covers b) :
    Leads ws₁ (wordWrite off n) ws₂ off m [m * 512] := by
  refine ⟨rfl, hkept, hbehind, ?_, ?_⟩
  · have hend : (pad 0 (n * 512) ([3] : List UInt8)).length ≤ m * 512 := by
      rw [length_pad]
      exact Nat.mul_le_mul_right 512 hm
    rw [stored_wordWrite, List.drop_of_length_le hend]
    exact fun _ h => absurd h List.not_mem_nil
  · simp only [data_wordWrite, List.length_replicate, Suits, List.length_singleton, if_true, List.sum_singleton]
    omega

/-- Two blocks written one after the other are stored as two frames. -/
theorem read_frames : (replay Write.stored [wordWrite 0 1, wordWrite 1 1]).read 0 (512 + 512) =
    pad 0 512 [3] ++ pad 0 512 [3] := by
  have hfirst : Leads [] (wordWrite 0 1) [wordWrite 1 1] 0 1 [1 * 512] := by
    refine leads_wordWrite (by decide) (by decide) ?_ (fun _ h => absurd h List.not_mem_nil)
    rintro w' hw' b _ hb ⟨hlow, _⟩
    rw [List.mem_singleton.mp hw'] at hlow
    have hlow' : 1 ≤ b := hlow
    omega
  have hsecond : Leads [wordWrite 0 1] (wordWrite 1 1) [] 1 1 [1 * 512] := by
    refine leads_wordWrite (by decide) (by decide) (fun _ h => absurd h List.not_mem_nil) ?_
    intro w' _ b hb hb'
    omega
  have hleft := read_leads (by decide) Write.length_stored hfirst
  have hright := read_leads (by decide) Write.length_stored hsecond
  have htwice : pad 0 512 (pad 0 512 ([3] : List UInt8)) = pad 0 512 [3] := pad_pad (by decide) (Nat.le_refl _)
  rw [stored_wordWrite, List.nil_append, Nat.zero_mul, Nat.one_mul, htwice] at hleft
  rw [stored_wordWrite, List.singleton_append, Nat.one_mul, htwice] at hright
  rw [Store.read_add, hleft, Nat.zero_add, hright]

/-- Both frames at once do not decode. -/
theorem decompressIovs_frames : bytesOf (decompressIovs (wordCodec 1) {} [pad 0 512 [3] ++ pad 0 512 [3]]).2 =
    List.replicate 1024 0 := by
  have htrim : trimmedData [pad 0 512 ([3] : List UInt8) ++ pad 0 512 [3]] = pad 0 512 [3] ++ [3] :=
    trimmedData_iff.mpr ⟨⟨List.replicate 511 0, by decide +kernel⟩, by decide +kernel⟩
  rw [decompressIovs_eq, htrim]
  decide +kernel

end FlexBSO.Passthru

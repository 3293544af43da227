import FlexBSO.Passthru.Writes

/- What a read makes of the bytes `F` the base bdev holds. The caller gets `D` back,
   whatever a lossless codec does elsewhere, if and only if one of two things holds:
   `F` begins with a zero byte, so that it is not decoded, and is `D` itself; or what
   the trimming leaves of `F` is the encoding of `D` and `D` fits the buffer it is
   decoded into (`readsBack_iff`). -/
namespace FlexBSO.Passthru

open Compress Lib

variable {c : Codec} {r : ReadCalls} {iovs : List (List UInt8)}

/-! ## One read -/

/-- The copies a job's output is put into the iovecs of a read by. -/
def readCopies (out : Output) : List (List UInt8) → List Copied
  | [iov] => [fillIov out.buf 0 out.len iov]
  | iovs => scatterDecompressed out.buf iovs 0

/-- The bytes passed to the decoder -/
def trimmedData (iovs : List (List UInt8)) : List UInt8 := iovs.flatten.take (compressedFileLen iovs)

theorem decompressIovs_eq (c : Codec) (r : ReadCalls) (iovs : List (List UInt8)) :
    decompressIovs c r iovs = ((compressFile c r.calls (trimmedData iovs) .decompress .hw r.len 0).1,
      readCopies (compressFile c r.calls (trimmedData iovs) .decompress .hw r.len 0).2 iovs) := by
  unfold decompressIovs trimmedData
  rw [gather_eq]
  match iovs with
  | [] => rfl
  | [_] => rfl
  | _ :: _ :: _ => rfl

/-- Decoded bytes that fill the request come out in its iovecs, where they fit the buffer. -/
theorem readCopies_full {stream plain : List UInt8} {room : Nat} {out : Output} (h : Emitted c stream plain room out)
    (hsize : dataSize iovs = stream.length) : bytesOf (readCopies out iovs) = stream ∧ Sound (readCopies out iovs) := by
  have hfit : dataSize iovs ≤ out.buf.size := by
    rw [hsize, h.size]
    exact h.fits
  unfold readCopies
  split
  · next iov =>
    have hlen : iov.length = out.len := by
      have hsize' : iov.length + 0 = stream.length := hsize
      rw [h.len]
      exact hsize'
    have hstored : 0 + out.len = out.buf.bytes.length := by
      rw [h.len, h.bytes, Nat.zero_add]
    refine ⟨?_, ?_⟩
    · simp only [bytesOf, List.map_cons, List.map_nil, List.flatten_cons, List.flatten_nil, List.append_nil]
      rw [iov_fillIov hstored, List.drop_zero, h.bytes, hlen, h.len, pad_of_le (Nat.le_refl _), Nat.sub_self,
        List.replicate_zero, List.append_nil]
    · intro x hx
      obtain rfl := List.mem_singleton.mp hx
      have hfit' : iov.length + 0 ≤ out.buf.size := hfit
      refine ⟨decide_eq_false ?_, decide_eq_false ?_⟩ <;> omega
  · refine ⟨?_, sound_scatterDecompressed _ _ _ (by omega)⟩
    rw [bytesOf_scatterDecompressed, hsize, ← h.len, h.read]

/-- The first byte of what one decoded byte leaves -/
theorem readCopies_head (iovs : List (List UInt8)) {x : UInt8} {plain : List UInt8} {room : Nat} {out : Output}
    (h : Emitted c [x] plain room out) (hsize : 0 < dataSize iovs) : (bytesOf (readCopies out iovs)).head? = some x := by
  have hget : out.buf.get 0 = x := by
    have hlt : 0 < out.buf.bytes.length := by
      rw [h.bytes]
      exact Nat.one_pos
    rw [Buf.get_eq hlt]
    simp only [h.bytes, List.getElem_cons_zero]
  unfold readCopies
  split
  · next iov =>
    have hlen : 0 < iov.length := hsize
    have hone : 0 + out.len = out.buf.bytes.length := by
      rw [h.len, h.bytes, Nat.zero_add]
    simp only [bytesOf, List.map_cons, List.map_nil, List.flatten_cons, List.flatten_nil, List.append_nil]
    rw [iov_fillIov hone, List.drop_zero, h.bytes, pad_of_le hlen]
    rfl
  · rw [bytesOf_scatterDecompressed, Buf.read]
    obtain ⟨n, hn⟩ : ∃ n, dataSize iovs = n + 1 := ⟨dataSize iovs - 1, by omega⟩
    rw [hn, List.range_succ_eq_map, List.map_cons, List.head?_cons, Nat.add_zero, hget]

/-- An empty buffer smaller than the request does not pass for its bytes: with the right length left
    in `decompressed_file_len` a copy goes astray. -/
theorem readCopies_unsound {out : Output} (hsize : out.buf.size < dataSize iovs) (hlen : dataSize iovs < out.len) :
    ¬ Sound (readCopies out iovs) := by
  unfold readCopies
  split
  · next iov =>
    intro h
    have hover := of_decide_eq_false (h _ (List.mem_singleton.mpr rfl)).1
    have hlen' : iov.length + 0 < out.len := hlen
    omega
  · exact not_sound_scatterDecompressed _ _ _ (by omega) (Nat.zero_le _)

/-! ## Reading back -/

/-- The codec loses nothing. -/
def Lossless (c : Codec) : Prop := ∀ data, c.inflateRaw (c.encode .hw data) = some data

/-- A run-length codec: bytes that are all the same become four bytes, all others one more than
    they were. -/
def runCodec : Codec := .ofDoca
  (fun data =>
    if data = List.replicate data.length (data.headD 0) ∧ data.length < 65536 then
      [1, data.headD 0, UInt8.ofNat data.length, UInt8.ofNat (data.length / 256)]
    else 2 :: data)
  (fun
    | [1, x, lo, hi] => some (List.replicate (lo.toNat + 256 * hi.toNat) x)
    | 2 :: data => some data
    | _ => none)

theorem lossless_runCodec : Lossless runCodec := by
  intro data
  by_cases h : data = List.replicate data.length (data.headD 0) ∧ data.length < 65536
  · simp only [runCodec, Codec.ofDoca, Codec.encode, if_pos h]
    have hcount : (UInt8.ofNat data.length).toNat + 256 * (UInt8.ofNat (data.length / 256)).toNat = data.length := by
      rw [UInt8.toNat_ofNat', UInt8.toNat_ofNat']
      have hlen := h.2
      omega
    rw [hcount]
    exact congrArg some h.1.symm
  · simp only [runCodec, Codec.ofDoca, Codec.encode, if_neg h]

/-- A read of `F`, cut into iovecs of the given lengths, completes with success and with `D`, and no
    copy goes astray. -/
def Returns (c : Codec) (r : ReadCalls) (lens : List Nat) (F D : List UInt8) : Prop :=
  (ptCompleteRead c r true (chop lens F)).status = .success ∧
  (ptCompleteRead c r true (chop lens F)).iovs.flatten = D ∧
  Sound (ptCompleteRead c r true (chop lens F)).copies

/-- A read of `F` returns `D` under every lossless codec that encodes `D` as `E`, if none of its
    calls fails. -/
def ReadsBack (E D F : List UInt8) (lens : List Nat) : Prop :=
  ∀ c r, Lossless c → c.encode .hw D = E → CallsOk r.calls → Returns c r lens F D

/-- A lossless codec that encodes `D` as `E` and decodes `X` to one byte: all other data is encoded
    to something longer than both. -/
def rivalCodec (E D X : List UInt8) (x : UInt8) : Codec := .ofDoca
  (fun data => if data = D then E else List.replicate (E.length + X.length + 1) 0 ++ data)
  (fun stream =>
    if stream = E then some D
    else if stream = X then some [x]
    else some (stream.drop (E.length + X.length + 1)))

theorem lossless_rivalCodec (E D X : List UInt8) (x : UInt8) : Lossless (rivalCodec E D X x) := by
  intro data
  simp only [rivalCodec, Codec.ofDoca, Codec.encode]
  by_cases hdata : data = D
  · rw [if_pos hdata, if_pos rfl, hdata]
  · rw [if_neg hdata]
    have hlong : (List.replicate (E.length + X.length + 1) (0 : UInt8) ++ data).length =
        E.length + X.length + 1 + data.length := by
      rw [List.length_append, List.length_replicate]
    rw [if_neg, if_neg, List.drop_left' (List.length_replicate ..)]
    · intro h
      rw [h] at hlong
      omega
    · intro h
      rw [h] at hlong
      omega

variable {E D F : List UInt8} {lens : List Nat}

theorem firstChar_chop (hF : F ≠ []) : firstChar r (chop lens F) =
    if lens.headD 0 = 0 then r.first else F.headD 0 := by
  cases lens with
  | nil => rfl
  | cons n lens =>
    cases F with
    | nil => exact absurd rfl hF
    | cons x F =>
      cases n with
      | zero => rfl
      | succ n => rfl

/-- The status is that of the base bdev. -/
theorem ptCompleteRead_status (c : Codec) (r : ReadCalls) (success : Bool) (iovs : List (List UInt8)) :
    (ptCompleteRead c r success iovs).status = if success then .success else .failed := by
  unfold ptCompleteRead
  dsimp only
  split
  · rfl
  · rfl

theorem ptCompleteRead_bytes (c : Codec) {r : ReadCalls} (success : Bool) {iovs : List (List UInt8)}
    (h : firstChar r iovs ≠ 0) : (ptCompleteRead c r success iovs).iovs.flatten = bytesOf (decompressIovs c r iovs).2 := by
  unfold ptCompleteRead
  rw [if_neg h]
  rfl

/-- A read whose first character is zero returns what is there. -/
theorem returns_skipped (hsum : lens.sum = F.length) (h : firstChar r (chop lens F) = 0) :
    Returns c r lens F D ↔ F = D := by
  have hflat : (chop lens F).flatten = F := by rw [flatten_chop, hsum, List.take_length]
  unfold Returns ptCompleteRead
  simp only [h, if_true, hflat, true_and]
  constructor
  · rintro ⟨hD, _⟩
    exact hD
  · rintro rfl
    refine ⟨rfl, ?_⟩
    intro x hx
    cases hx

/-- A read that is decoded -/
theorem returns_decoded (h : firstChar r (chop lens F) ≠ 0) : Returns c r lens F D ↔
    bytesOf (decompressIovs c r (chop lens F)).2 = D ∧ Sound (decompressIovs c r (chop lens F)).2 := by
  unfold Returns ptCompleteRead
  simp only [if_neg h, if_true, true_and]
  rfl

/-- What it takes for the decoded bytes to be `D` under every codec -/
theorem decoded_iff (hsum : lens.sum = F.length) (hlen : F.length = D.length) (hD : D ≠ []) (hlen₀ : CallsOk r.calls) :
    (∀ c r', Lossless c → c.encode .hw D = E → r'.calls = r.calls →
      bytesOf (decompressIovs c r' (chop lens F)).2 = D ∧ Sound (decompressIovs c r' (chop lens F)).2) ↔
    trimmedData (chop lens F) = E ∧ D.length ≤ dstBufSize .decompress E.length := by
  obtain ⟨hcalloc, hsetup, hjob⟩ := hlen₀
  have hsize : dataSize (chop lens F) = D.length := by
    rw [dataSize_eq, flatten_chop, hsum, List.take_length, hlen]
  have hpos : 0 < D.length := List.length_pos_iff.mpr hD
  constructor
  · intro h
    by_cases hX : trimmedData (chop lens F) = E
    · refine ⟨hX, ?_⟩
      by_contra hbig
      -- the decoded bytes do not fit: the job fails, and the copies go astray
      have hsound := (h (rivalCodec E D E 0) { r with len := D.length + 1 } (lossless_rivalCodec E D E 0)
        (if_pos rfl) rfl).2
      rw [decompressIovs_eq, hX] at hsound
      refine absurd hsound (readCopies_unsound ?_ ?_)
      all_goals
        have hcases := compressFile_cases (rivalCodec E D E 0) r.calls E .decompress .hw (D.length + 1) 0
        generalize compressFile (rivalCodec E D E 0) r.calls E .decompress .hw (D.length + 1) 0 = res at hcases
        cases hcases with
        | ok _ _ hstream _ hout =>
          have hstream' : (rivalCodec E D E 0).inflateRaw E = some D := if_pos rfl
          rw [show streamOf (rivalCodec E D E 0) .decompress .hw E = some D from hstream'] at hstream
          obtain rfl := Option.some.inj hstream
          exact absurd hout.fits hbig
        | failed _ _ hlen' hroom _ =>
          rw [hsize]
          dsimp only
          omega
    · -- a codec that decodes what is left to one wrong byte
      exfalso
      obtain ⟨x, hx⟩ : ∃ x : UInt8, D.head? ≠ some x := by
        by_cases h0 : D.head? = some 0
        · refine ⟨1, ?_⟩
          rw [h0]
          decide
        · exact ⟨0, h0⟩
      have hbytes := (h (rivalCodec E D (trimmedData (chop lens F)) x) r
        (lossless_rivalCodec _ _ _ _) (if_pos rfl) rfl).1
      rw [decompressIovs_eq] at hbytes
      have hstream : streamOf (rivalCodec E D (trimmedData (chop lens F)) x) .decompress .hw
          (trimmedData (chop lens F)) = some [x] := by
        show (rivalCodec E D (trimmedData (chop lens F)) x).inflateRaw (trimmedData (chop lens F)) = some [x]
        simp only [rivalCodec, Codec.ofDoca, if_neg hX, if_true]
      have hroom : [x].length ≤ dstBufSize .decompress (trimmedData (chop lens F)).length := by
        unfold dstBufSize minDstBufSize
        simp only [List.length_singleton]
        omega
      obtain ⟨out, hrun, hout⟩ := compressFile_ok r.len 0 hcalloc hsetup hjob hstream
        ⟨hroom, fun h => by cases h⟩
      rw [hrun] at hbytes
      have hhead := readCopies_head (chop lens F) hout (by omega)
      dsimp only at hbytes
      rw [hbytes] at hhead
      exact hx hhead
  · rintro ⟨hX, hfit⟩ c r' hc henc hcalls
    rw [decompressIovs_eq, hX, hcalls]
    have hstream : streamOf c .decompress .hw E = some D := by
      show c.inflateRaw E = some D
      rw [← henc]
      exact hc D
    obtain ⟨out, hrun, hout⟩ := compressFile_ok r'.len 0 hcalloc hsetup hjob hstream
      ⟨hfit, fun h => by cases h⟩
    rw [hrun]
    exact readCopies_full hout hsize

/-- The first character may be read as zero, or as another one. -/
theorem readsBack_iff (lens : List Nat) (hsum : lens.sum = F.length) (hlen : F.length = D.length) (hD : D ≠ []) : ReadsBack E D F lens ↔
    ((lens.headD 0 = 0 ∨ F.headD 0 = 0) → F = D) ∧
    ((lens.headD 0 = 0 ∨ F.headD 0 ≠ 0) →
      trimmedData (chop lens F) = E ∧ D.length ≤ dstBufSize .decompress E.length) := by
  have hF : F ≠ [] := by
    intro hF
    rw [hF] at hlen
    exact hD (List.eq_nil_of_length_eq_zero hlen.symm)
  have hlossless := lossless_rivalCodec E D E 0
  have hE : (rivalCodec E D E 0).encode .hw D = E := if_pos rfl
  constructor
  · intro h
    refine ⟨?_, ?_⟩
    · intro hfirst
      have hchar : firstChar {} (chop lens F) = 0 := by
        rw [firstChar_chop hF]
        split
        · rfl
        · next hne => exact hfirst.resolve_left hne
      exact (returns_skipped hsum hchar).mp (h _ {} hlossless hE (by decide))
    · intro hfirst
      have hcalls : CallsOk ({ first := 1 } : ReadCalls).calls := by decide
      refine (decoded_iff (r := { first := 1 }) hsum hlen hD hcalls).mp ?_
      intro c r' hc henc hcalls'
      have hchar : firstChar { r' with first := 1 } (chop lens F) ≠ 0 := by
        rw [firstChar_chop hF]
        split
        · show (1 : UInt8) ≠ 0
          decide
        · next hne => exact hfirst.resolve_left hne
      have hret := h c { r' with first := 1 } hc henc (by dsimp only; rw [hcalls']; exact hcalls)
      exact (returns_decoded hchar).mp hret
  · rintro ⟨hraw, hcoded⟩ c r hc henc hcalls
    by_cases hchar : firstChar r (chop lens F) = 0
    · refine (returns_skipped hsum hchar).mpr (hraw ?_)
      rw [firstChar_chop hF] at hchar
      split at hchar
      · next hz => exact .inl hz
      · exact .inr hchar
    · refine (returns_decoded hchar).mpr ?_
      have hcond : lens.headD 0 = 0 ∨ F.headD 0 ≠ 0 := by
        rw [firstChar_chop hF] at hchar
        split at hchar
        · next hz => exact .inl hz
        · exact .inr hchar
      exact (decoded_iff hsum hlen hD hcalls).mpr (hcoded hcond) c r hc henc rfl

end FlexBSO.Passthru

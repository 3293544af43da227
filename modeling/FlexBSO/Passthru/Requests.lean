import FlexBSO.Passthru.Reads

/- What the caller of the vbdev can rely on: that a failed job is reported, that a
   request is compressed once, that data which does not compress survives, and that
   what was written is read back. Each holds under a condition only, and the condition
   is exact. -/
namespace FlexBSO.Passthru

open Compress Lib

variable {c : Codec} {a : Attempt} {r : ReadCalls} {attempts : List Attempt} {iovs : List (List UInt8)}

/-! ## Failed jobs -/

/-- A write whose compression failed does not reach the base bdev nor complete with success. -/
def WriteSurfaces (run : WriteRun) (success : Bool) : Prop :=
  (∃ out, run.submitted = .accepted out) ∨ writeStatus run success = some .success →
    ∀ result ∈ run.results, result = .success

/-- A read completes with success only if its decompression succeeded, or was skipped where the stored
    bytes `F` are the data `D` itself. -/
def ReadSurfaces (F D : List UInt8) (run : ReadRun) : Prop :=
  run.status = .success → (∀ result, run.result = some result → result = .success) ∧ (run.result = none → F = D)

theorem writeStatus_success {run : WriteRun} {success : Bool} (h : writeStatus run success = some .success) :
    ∃ out, run.submitted = .accepted out := by
  unfold writeStatus at h
  split at h
  · next out hout => exact ⟨out, hout⟩
  · cases h
  · cases h

/-- What is decoded are the stored bytes without as many of the last as the iovecs end in zeros. -/
theorem trimmedData_iff {stored : List (List UInt8)} {E : List UInt8} : trimmedData stored = E ↔ E <+: stored.flatten ∧
    E.length + (stored.map fun iov => trailing 0 (iov.take (inspected iov.length))).sum = stored.flatten.length := by
  have htrim : stored.map trimmed = stored.map fun iov => trailing 0 (iov.take (inspected iov.length)) :=
    List.map_congr_left fun iov _ => trimmed_inspected iov
  have hle := sum_trimmed_le stored
  rw [trimmedData, compressedFileLen_eq, ← htrim]
  constructor
  · rintro rfl
    refine ⟨List.take_prefix _ _, ?_⟩
    rw [List.length_take]
    omega
  · rintro ⟨hfront, hlen⟩
    have hcut : stored.flatten.length - (stored.map trimmed).sum = E.length := by omega
    rw [hcut]
    exact (List.prefix_iff_eq_take.mp hfront).symm

theorem decompressIovs_success (c : Codec) (r : ReadCalls) (stored : List (List UInt8)) :
    (decompressIovs c r stored).1 = .success ↔ CallsOk r.calls ∧ ∃ data, c.inflateRaw (trimmedData stored) = some data ∧
      data.length ≤ dstBufSize .decompress (trimmedData stored).length := by
  rw [decompressIovs_eq]
  dsimp only
  constructor
  · intro h
    have hcases := compressFile_cases c r.calls (trimmedData stored) .decompress .hw r.len 0
    generalize compressFile c r.calls (trimmedData stored) .decompress .hw r.len 0 = res at h hcases
    cases hcases with
    | ok hcalloc hcalls hstream _ hout =>
      exact ⟨⟨hcalloc, (hcalls rfl).1, (hcalls rfl).2⟩, _, hstream, hout.fits⟩
    | failed hresult _ _ _ _ => exact absurd h hresult
  · rintro ⟨⟨hcalloc, hsetup, hjob⟩, data, hdata, hfit⟩
    have hstream : streamOf c .decompress .hw (trimmedData stored) = some data := hdata
    obtain ⟨out, hrun, _⟩ := compressFile_ok r.len 0 hcalloc hsetup hjob hstream ⟨hfit, fun h => by cases h⟩
    rw [hrun]

theorem writeSurfaces_iff (c : Codec) (attempts : List Attempt) (success : Bool) (iovs : List (List UInt8)) :
    WriteSurfaces (submitWrite c attempts iovs) success ↔ deferrals attempts = none ∨ JobsSucceed c attempts iovs.flatten := by
  unfold WriteSurfaces
  rw [results_success]
  have hacc := accepted_iff (c := c) attempts iovs
  constructor
  · intro h
    cases hdef : deferrals attempts with
    | none => exact .inl rfl
    | some k => exact .inr (h (.inl (hacc.mpr ⟨k, hdef⟩)))
  · rintro (hnone | hjobs) h
    · have haccepted : ∃ out, (submitWrite c attempts iovs).submitted = .accepted out := by
        rcases h with h | h
        · exact h
        · exact writeStatus_success h
      obtain ⟨k, hk⟩ := hacc.mp haccepted
      rw [hnone] at hk
      cases hk
    · exact hjobs

theorem readSurfaces_iff (c : Codec) (r : ReadCalls) (success : Bool) (stored : List (List UInt8)) (D : List UInt8) :
    ReadSurfaces stored.flatten D (ptCompleteRead c r success stored) ↔ success = false ∨
      (firstChar r stored = 0 ∧ stored.flatten = D) ∨ (firstChar r stored ≠ 0 ∧ (decompressIovs c r stored).1 = .success) := by
  unfold ReadSurfaces ptCompleteRead
  by_cases hfirst : firstChar r stored = 0
  · cases success with
    | false => simp [hfirst]
    | true => simp [hfirst]
  · cases success with
    | false => simp [hfirst]
    | true => simp [hfirst]

/-- The result of a codec job is only logged. A failure surfaces if and only if the base bdev fails or
    refuses the request, or there is none: no call fails, every encoding fits its buffer, and what the
    zeros at the ends of the iovecs leave of the stored bytes decodes to data that fits. Where the first
    stored byte is zero nothing is decoded, which is right for data stored as it is. -/
theorem failures_surface (c : Codec) (attempts : List Attempt) (r : ReadCalls) (success : Bool)
    (iovs stored : List (List UInt8)) (D : List UInt8) :
    (WriteSurfaces (submitWrite c attempts iovs) success ↔
      deferrals attempts = none ∨ ∃ k, deferrals attempts = some k ∧
        (∀ a ∈ attempts.take (k + 1), CallsOk a.calls) ∧ ∀ j ≤ k, Fits c ((frame c)^[j] iovs.flatten)) ∧
    (ReadSurfaces stored.flatten D (ptCompleteRead c r success stored) ↔
      success = false ∨ (firstChar r stored = 0 ∧ stored.flatten = D) ∨
        (firstChar r stored ≠ 0 ∧ CallsOk r.calls ∧ ∃ E data, E <+: stored.flatten ∧
          E.length + (stored.map fun iov => trailing 0 (iov.take (inspected iov.length))).sum = stored.flatten.length ∧
          c.inflateRaw E = some data ∧ data.length ≤ dstBufSize .decompress E.length)) := by
  refine ⟨?_, ?_⟩
  · rw [writeSurfaces_iff]
    cases hdef : deferrals attempts with
    | none => simp
    | some k => simp [jobsSucceed_iff attempts iovs.flatten hdef]
  · rw [readSurfaces_iff, decompressIovs_success]
    refine or_congr_right (or_congr_right (and_congr_right fun _ => and_congr_right fun _ => ?_))
    constructor
    · rintro ⟨data, hdata, hfit⟩
      obtain ⟨hfront, hlen⟩ := trimmedData_iff.mp (rfl : trimmedData stored = trimmedData stored)
      exact ⟨_, data, hfront, hlen, hdata, hfit⟩
    · rintro ⟨E, data, hfront, hlen, hdata, hfit⟩
      obtain rfl := trimmedData_iff.mpr ⟨hfront, hlen⟩
      exact ⟨data, hdata, hfit⟩

/-- A job that fails, and a request that does not; and an encoding that begins with a zero byte, which
    the read hands to its caller. -/
theorem failure_hidden :
    ¬ WriteSurfaces (submitWrite runCodec [{ calls := { job := .ioFailed } }] [List.replicate 512 7]) true ∧
    ¬ ReadSurfaces (pad 0 512 [1, 7, 0, 2]) (List.replicate 512 7)
      (ptCompleteRead runCodec { calls := { job := .ioFailed } } true [pad 0 512 [1, 7, 0, 2]]) ∧
    ¬ ReadSurfaces (frame (rivalCodec [0] (List.replicate 512 7) [] 0) (List.replicate 512 7)) (List.replicate 512 7)
      (ptCompleteRead (rivalCodec [0] (List.replicate 512 7) [] 0) {} true
        [frame (rivalCodec [0] (List.replicate 512 7) [] 0) (List.replicate 512 7)]) := by
  refine ⟨?_, ?_, ?_⟩
  · intro h
    have haccepted := (accepted_iff (c := runCodec) [{ calls := { job := .ioFailed } }] [List.replicate 512 7]).mpr
      ⟨0, by decide⟩
    have hresult := h (.inl haccepted) .ioFailed (by decide +kernel)
    cases hresult
  · intro h
    have hresult := (h (ptCompleteRead_status ..)).1 .ioFailed (by decide +kernel)
    cases hresult
  · intro h
    have hsame := (h (ptCompleteRead_status ..)).2 (by decide +kernel)
    have hdiffer : ¬ frame (rivalCodec [0] (List.replicate 512 7) [] 0) (List.replicate 512 7) = List.replicate 512 7 := by
      decide +kernel
    exact hdiffer hsame

/-! ## Retries -/

/-- The encoding of the data, padded with zeros to their number -/
def padded (c : Codec) (data : List UInt8) : List UInt8 :=
  c.encode .hw data ++ List.replicate (data.length - (c.encode .hw data).length) 0

/-- Whenever the base bdev takes the request, it gets the padded encoding of the bytes first submitted,
    if no call of the codec fails. -/
def CompressedOnce (c : Codec) (iovs : List (List UInt8)) : Prop :=
  ∀ attempts out, (∀ a ∈ attempts, CallsOk a.calls) → (submitWrite c attempts iovs).submitted = .accepted out →
    out.flatten = padded c iovs.flatten

theorem frame_eq_padded {D : List UInt8} (h : (c.encode .hw D).length ≤ D.length) : frame c D = padded c D := pad_of_le h

/-- The job of an attempt, on bytes `data`, puts `P` into the iovecs, whatever memory holds elsewhere. -/
def Puts (c : Codec) (data P : List UInt8) : Prop :=
  (Fits c data ∧ frame c data = P) ∨ (¬ Fits c data ∧ data.length ≤ maxFileSize ∧ P = List.replicate data.length 0)

theorem after_iff {P : List UInt8} :
    (∀ a : Attempt, CallsOk a.calls → (after c a iovs).flatten = P) ↔ Puts c iovs.flatten P := by
  unfold Puts
  by_cases hfit : Fits c iovs.flatten
  · simp only [hfit, true_and, not_true_eq_false, false_and, or_false]
    have hframe : ∀ a : Attempt, CallsOk a.calls → (after c a iovs).flatten = frame c iovs.flatten :=
      fun a ha => flatten_after ((compressIovs_success c a iovs).mpr ⟨ha, hfit⟩)
    constructor
    · intro h
      rw [← h {} (by decide), hframe {} (by decide)]
    · rintro rfl
      exact hframe
  · simp only [hfit, false_and, not_false_eq_true, true_and, false_or]
    exact after_unfit hfit

/-- A request submitted again is compressed again: it is compressed once only if its encoding fits, and
    encoding and padding the padded encoding makes no difference. -/
theorem compressed_once (c : Codec) (iovs : List (List UInt8)) : CompressedOnce c iovs ↔
    Fits c iovs.flatten ∧ (c.encode .hw iovs.flatten).length ≤ iovs.flatten.length ∧
      Puts c (frame c iovs.flatten) (frame c iovs.flatten) := by
  constructor
  · intro h
    have hfirst : Puts c iovs.flatten (padded c iovs.flatten) := by
      refine after_iff.mp fun a ha => ?_
      have hsub : (submitWrite c [{ a with rc := 0 }] iovs).submitted = .accepted (after c a iovs) := rfl
      exact h _ _ (by simpa using ha) hsub
    have hlen : (padded c iovs.flatten).length =
        (c.encode .hw iovs.flatten).length + (iovs.flatten.length - (c.encode .hw iovs.flatten).length) := by
      rw [padded, List.length_append, List.length_replicate]
    rcases hfirst with ⟨hfit, hframe⟩ | ⟨hbig, hshort, hzeros⟩
    · rw [← hframe, length_frame] at hlen
      refine ⟨hfit, by omega, ?_⟩
      -- one deferral, and the same again
      have hs : (compressIovs c {} iovs).1 = .success := (compressIovs_success c {} iovs).mpr ⟨by decide, hfit⟩
      have hsecond : Puts c (after c {} iovs).flatten (padded c iovs.flatten) := by
        refine after_iff.mp fun a ha => ?_
        have hsub : (submitWrite c [{ rc := -ENOMEM }, { a with rc := 0 }] iovs).submitted =
            .accepted (after c a (after c {} iovs)) := rfl
        refine h _ _ ?_ hsub
        simp only [List.forall_mem_cons]
        exact ⟨by decide, ha, by simp⟩
      rw [flatten_after hs, ← hframe] at hsecond
      exact hsecond
    · rw [hzeros, List.length_replicate] at hlen
      have hroom := le_dstBufSize.mpr hshort
      unfold Fits at hbig
      omega
  · rintro ⟨hfit, hle, hagain⟩ attempts out hcalls hout
    rw [← frame_eq_padded hle]
    refine accepted_of_step (I := fun now => now.flatten = iovs.flatten ∨ now.flatten = frame c iovs.flatten)
      (J := fun now => now.flatten = frame c iovs.flatten) (fun _ => .inr) attempts ?_ (.inl rfl) hout
    rintro a ha now (hnow | hnow)
    · rw [← hnow]
      refine after_iff.mpr ?_ a (hcalls a ha)
      rw [hnow]
      exact .inl ⟨hfit, rfl⟩
    · refine after_iff.mpr ?_ a (hcalls a ha)
      rw [hnow]
      exact hagain

/-- One block of equal bytes; after one `-ENOMEM` its encoding is encoded. -/
theorem compressed_twice : ¬ CompressedOnce runCodec [List.replicate 512 7] := by
  intro h
  have hfirst : (after runCodec { rc := -ENOMEM } [List.replicate 512 7]).flatten =
      frame runCodec [List.replicate 512 7].flatten :=
    flatten_after ((compressIovs_success ..).mpr ⟨by decide, by decide +kernel⟩)
  have hfit : Fits runCodec (after runCodec { rc := -ENOMEM } [List.replicate 512 7]).flatten := by
    rw [hfirst]
    decide +kernel
  have hsub : ∀ iovs, (submitWrite runCodec [{ rc := -ENOMEM }, {}] iovs).submitted =
      .accepted (after runCodec {} (after runCodec { rc := -ENOMEM } iovs)) := fun _ => rfl
  have hsame := h _ _ (by decide) (hsub [List.replicate 512 7])
  rw [flatten_after ((compressIovs_success ..).mpr ⟨by decide, hfit⟩), hfirst] at hsame
  have hdiffer : ¬ frame runCodec (frame runCodec [List.replicate 512 7].flatten) =
      padded runCodec [List.replicate 512 7].flatten := by decide +kernel
  exact hdiffer hsame

/-! ## Data that does not compress -/

/-- No iovec is overrun, and a write that completes with success can be read back, whatever the
    iovecs of the read. -/
def Uncorrupted (c : Codec) (attempts : List Attempt) (iovs : List (List UInt8)) (success : Bool) : Prop :=
  (∀ x ∈ (submitWrite c attempts iovs).copies, x.overrun = false) ∧
  (writeStatus (submitWrite c attempts iovs) success = some .success →
    ∀ out, (submitWrite c attempts iovs).submitted = .accepted out →
      ∀ lens, (∀ n ∈ lens, 0 < n) → lens.sum = iovs.flatten.length →
        ReadsBack (c.encode .hw iovs.flatten) iovs.flatten out.flatten lens)

/-- Several iovecs are never overrun. -/
theorem submitWrite_overrun (attempts : List Attempt) : ∀ {iovs : List (List UInt8)}, iovs.length ≠ 1 →
    ∀ x ∈ (submitWrite c attempts iovs).copies, x.overrun = false := by
  induction attempts with
  | nil =>
    intro iovs _ x hx
    cases hx
  | cons a rest ih =>
    intro iovs hmany
    have hfirst : ∀ x ∈ (compressIovs c a iovs).2, x.overrun = false := by
      rw [compressIovs_eq]
      unfold copiesOf
      split
      · exact absurd rfl hmany
      · exact scatterCompressed_overrun _ _ _ _
    have hlen : (after c a iovs).length ≠ 1 := by
      have h : (after c a iovs).length = iovs.length := by
        simpa [after] using congrArg List.length (lengths_compressIovs c a iovs)
      rw [h]
      exact hmany
    rw [submitWrite_cons]
    split
    · exact hfirst
    · split
      · intro x hx
        rcases List.mem_append.mp hx with hx | hx
        · exact hfirst x hx
        · exact ih hlen x hx
      · exact hfirst

/-- A single one is overrun by the first encoding that is too long. -/
theorem submitWrite_overrun_one (rest : List Attempt) (hs : (compressIovs c a iovs).1 = .success)
    (hone : iovs.length = 1) (hlong : iovs.flatten.length < (c.encode .hw iovs.flatten).length) :
    ∃ x ∈ (submitWrite c (a :: rest) iovs).copies, x.overrun = true := by
  obtain ⟨x, hx, hover⟩ := (framed_compressIovs hs).overrun.mpr ⟨hone, hlong⟩
  refine ⟨x, ?_, hover⟩
  rw [submitWrite_cons]
  split
  · exact hx
  · split
    · exact List.mem_append_left _ hx
    · exact hx

/-- Bytes shorter than the encoding of `D` are read back as `D` only where they are `D` and not
    decoded. -/
theorem readsBack_short {E D F : List UInt8} (hlen : F.length = D.length) (hD : D ≠ []) (hlong : D.length < E.length) :
    (∀ lens, (∀ n ∈ lens, 0 < n) → lens.sum = F.length → ReadsBack E D F lens) ↔ D.headD 0 = 0 ∧ F = D := by
  have hne : ∀ lens : List Nat, trimmedData (chop lens F) ≠ E := by
    intro lens h
    have hle : (trimmedData (chop lens F)).length ≤ F.length := by
      rw [trimmedData, flatten_chop]
      exact Nat.le_trans (List.length_take_le' _ _) (List.length_take_le' _ _)
    rw [h] at hle
    omega
  constructor
  · intro h
    have hpos : 0 < F.length := by
      rw [hlen]
      exact List.length_pos_iff.mpr hD
    have hread := (readsBack_iff [F.length] (by simp) hlen hD).mp
      (h [F.length] (by simpa using hpos) (by simp))
    have hzero : F.headD 0 = 0 := by
      by_contra hnz
      exact hne _ (hread.2 (.inr hnz)).1
    have heq := hread.1 (.inr hzero)
    rw [← heq]
    exact ⟨hzero, rfl⟩
  · rintro ⟨hzero, heq⟩ lens hpos hsum
    refine (readsBack_iff lens hsum hlen hD).mpr ⟨fun _ => heq, ?_⟩
    rintro (hfirst | hnz)
    · cases lens with
      | nil =>
        exfalso
        have hF : F.length = 0 := hsum.symm
        rw [hlen] at hF
        exact hD (List.eq_nil_of_length_eq_zero hF)
      | cons n lens =>
        have hn := hpos n (List.mem_cons_self ..)
        have hfirst' : n = 0 := hfirst
        omega
    · rw [heq] at hnz
      exact absurd hzero hnz

/-- Data with an encoding longer than itself survives if and only if there are several iovecs and
    the write does not complete with success (or the cut encoding begins with a zero byte and is the
    data). -/
theorem incompressible_kept {rest : List Attempt} (success : Bool) (hD : iovs.flatten ≠ [])
    (hlong : iovs.flatten.length < (c.encode .hw iovs.flatten).length) (hjobs : JobsSucceed c (a :: rest) iovs.flatten) :
    Uncorrupted c (a :: rest) iovs success ↔ iovs.length ≠ 1 ∧ (success = true → ∀ k, deferrals (a :: rest) = some k →
      iovs.flatten.headD 0 = 0 ∧ (frame c)^[k + 1] iovs.flatten = iovs.flatten) := by
  have hs : (compressIovs c a iovs).1 = .success := (compressIovs_success c a iovs).mpr ⟨hjobs.1, hjobs.2.1⟩
  have hlenF : ∀ k, ((frame c)^[k] iovs.flatten).length = iovs.flatten.length := by
    intro k
    induction k with
    | zero => rfl
    | succ k ih => rw [Function.iterate_succ_apply', length_frame, ih]
  constructor
  · rintro ⟨hover, hread⟩
    refine ⟨?_, ?_⟩
    · intro hone
      obtain ⟨x, hx, hbad⟩ := submitWrite_overrun_one rest hs hone hlong
      rw [hover x hx] at hbad
      cases hbad
    · rintro rfl k hk
      obtain ⟨out, hout⟩ := (accepted_iff (c := c) (a :: rest) iovs).mpr ⟨k, hk⟩
      have hstatus : writeStatus (submitWrite c (a :: rest) iovs) true = some .success := by
        rw [writeStatus, hout]
        rfl
      have hbytes := accepted_bytes (a :: rest) hjobs hout hk
      have hback := hread hstatus out hout
      rw [hbytes] at hback
      refine (readsBack_short (hlenF (k + 1)) hD hlong).mp ?_
      intro lens hpos hsum
      rw [hlenF] at hsum
      exact hback lens hpos hsum
  · rintro ⟨hmany, hsame⟩
    refine ⟨submitWrite_overrun _ hmany, ?_⟩
    intro hstatus out hout lens hpos hsum
    obtain ⟨k, hk⟩ := (accepted_iff (c := c) (a :: rest) iovs).mp ⟨out, hout⟩
    have hsuccess : success = true := by
      rw [writeStatus, hout] at hstatus
      cases success with
      | true => rfl
      | false => cases hstatus
    rw [accepted_bytes (a :: rest) hjobs hout hk]
    refine (readsBack_short (hlenF (k + 1)) hD hlong).mpr (hsame hsuccess k hk) lens hpos ?_
    rw [hlenF]
    exact hsum

/-- A block of which the encoding has 513 bytes. -/
def mixedBlock : List UInt8 := 1 :: List.replicate 511 2

theorem incompressible_kept_mixed : Uncorrupted runCodec [{}] [mixedBlock.take 256, mixedBlock.drop 256] false ↔
    [mixedBlock.take 256, mixedBlock.drop 256].length ≠ 1 ∧ (false = true → ∀ k, deferrals [{}] = some k →
      [mixedBlock.take 256, mixedBlock.drop 256].flatten.headD 0 = 0 ∧
        (frame runCodec)^[k + 1] [mixedBlock.take 256, mixedBlock.drop 256].flatten =
          [mixedBlock.take 256, mixedBlock.drop 256].flatten) := by
  have hjobs : JobsSucceed runCodec [{}] [mixedBlock.take 256, mixedBlock.drop 256].flatten :=
    ⟨by decide, by decide +kernel, fun h => absurd rfl h.1⟩
  exact incompressible_kept false (by decide +kernel) (by decide +kernel) hjobs

/-- One iovec is overrun; two take the first 512 bytes of the encoding, which cannot be read back. -/
theorem incompressible_lost : Lossless runCodec ∧
    (submitWrite runCodec [{}] [mixedBlock]).copies.map (·.overrun) = [true] ∧
    (submitWrite runCodec [{}] [mixedBlock.take 256, mixedBlock.drop 256]).submitted =
      .accepted [(2 :: mixedBlock).take 256, ((2 :: mixedBlock).drop 256).take 256] ∧
    ¬ Returns runCodec {} [512] ((2 :: mixedBlock).take 512) mixedBlock := by
  refine ⟨lossless_runCodec, by decide +kernel, ?_, ?_⟩
  · have hjob : (compressIovs runCodec {} [mixedBlock.take 256, mixedBlock.drop 256]).1 = .success :=
      (compressIovs_success ..).mpr ⟨by decide, by decide +kernel⟩
    have hsub : ∀ iovs, (submitWrite runCodec [{}] iovs).submitted = .accepted (after runCodec {} iovs) := fun _ => rfl
    rw [hsub, after_eq_chop hjob]
    decide +kernel
  · -- nothing is trimmed; 511 bytes are decoded, and a zero stands where the last one was
    have hfirst : firstChar {} (chop [512] ((2 :: mixedBlock).take 512)) ≠ 0 := by decide +kernel
    have htrim : trimmedData (chop [512] ((2 :: mixedBlock).take 512)) = (2 :: mixedBlock).take 512 :=
      trimmedData_iff.mpr ⟨⟨[], by decide +kernel⟩, by decide +kernel⟩
    rw [returns_decoded hfirst, decompressIovs_eq, htrim]
    rintro ⟨hbytes, -⟩
    have hlast := congrArg List.getLast? hbytes
    revert hlast
    decide +kernel

/-! ## Round trip -/

/-- Writing the bytes of the iovecs and reading them back into iovecs of the given lengths works, under
    every lossless codec that encodes them as `E`. -/
def RoundTrips (E : List UInt8) (iovs : List (List UInt8)) (lens : List Nat) : Prop :=
  ∀ c a r, Lossless c → c.encode .hw iovs.flatten = E → CallsOk a.calls → a.rc = 0 → CallsOk r.calls →
    ∃ out, (submitWrite c [a] iovs).submitted = .accepted out ∧ Sound (submitWrite c [a] iovs).copies ∧
      Returns c r lens out.flatten iovs.flatten

/-- What the stored frame says of its own length is enough to find it again: the encoding `E` of `D`
    fits its buffer; a frame whose first byte is taken for zero is `D` itself; any other ends in a
    nonzero byte, no read iovec ends in a zero byte inside of it, and `D` fits the buffer it is
    decoded into. -/
structure Recoverable (E D : List UInt8) (lens : List Nat) : Prop where
  fits : E.length ≤ dstBufSize .compress D.length
  raw : (lens.headD 0 = 0 ∨ (pad 0 D.length E).headD 0 = 0) → pad 0 D.length E = D
  coded : (lens.headD 0 = 0 ∨ (pad 0 D.length E).headD 0 ≠ 0) →
    E.getLast? ≠ some 0 ∧ CleanSeams (chop lens (pad 0 D.length E)) ∧ D.length ≤ dstBufSize .decompress E.length

theorem length_le_of_chop {lens : List Nat} {F iov : List UInt8} (h : iov ∈ chop lens F) : iov.length ≤ F.length := by
  have hsub := (List.sublist_flatten_of_mem h).length_le
  rw [flatten_chop] at hsub
  exact Nat.le_trans hsub (List.length_take_le' _ _)

/-- Trimming leaves the encoding if and only if it does not end in a zero byte and the iovecs do not
    cut it behind one. -/
theorem trimmedData_frame {E D : List UInt8} {lens : List Nat} (hsum : lens.sum = D.length) (hE : E.length ≤ D.length)
    (hsmall : D.length ≤ maxFileSize) : trimmedData (chop lens (pad 0 D.length E)) = E ↔
      E.getLast? ≠ some 0 ∧ CleanSeams (chop lens (pad 0 D.length E)) := by
  have hflat : (chop lens (pad 0 D.length E)).flatten = pad 0 D.length E := by
    rw [flatten_chop, hsum]
    exact List.take_of_length_le (by rw [length_pad])
  have hbound : ∀ iov ∈ chop lens (pad 0 D.length E), iov.length ≤ 2 ^ 31 := by
    intro iov hiov
    have hle := length_le_of_chop hiov
    rw [length_pad] at hle
    unfold maxFileSize at hsmall
    omega
  have hpad := pad_of_le (z := (0 : UInt8)) hE
  have htrail : trailing 0 (pad 0 D.length E) = trailing 0 E + (D.length - E.length) := by
    rw [hpad, trailing_append_of_all, List.length_replicate]
    intro x hx
    exact List.eq_of_mem_replicate hx
  have hle := trailing_flatten_le (z := (0 : UInt8)) (chop lens (pad 0 D.length E))
  have hsums_le := sum_trailing_le (z := (0 : UInt8)) (chop lens (pad 0 D.length E))
  have hseams := sum_trailing_iff (z := (0 : UInt8)) (chop lens (pad 0 D.length E))
  have hclean : (((chop lens (pad 0 D.length E)).map (trailing 0)).sum = trailing 0 (pad 0 D.length E)) ↔
      CleanSeams (chop lens (pad 0 D.length E)) := by
    rw [hflat] at hseams
    rw [hseams]
    simp only [trailing_eq_zero_iff, CleanSeams]
  rw [hflat, htrail] at hle
  rw [hflat, length_pad] at hsums_le
  rw [← hclean, htrail, ← trailing_eq_zero_iff]
  have hlen : (trimmedData (chop lens (pad 0 D.length E))).length =
      D.length - ((chop lens (pad 0 D.length E)).map (trailing 0)).sum := by
    rw [trimmedData, hflat, compressedFileLen_eq, hflat, sum_trimmed hbound, List.length_take, length_pad]
    omega
  constructor
  · intro h
    rw [h] at hlen
    omega
  · rintro ⟨hlast, hsums⟩
    have hEle := trailing_le (0 : UInt8) E
    rw [trimmedData, hflat, compressedFileLen_eq, hflat, sum_trimmed hbound, length_pad, hsums, hlast]
    have hk : D.length - (0 + (D.length - E.length)) = E.length := by omega
    rw [hk, hpad, List.take_left]

/-- A write whose encoding does not fit its buffer goes astray, for some length left in
    `compressed_file_len`. -/
theorem write_unsound {iovs : List (List UInt8)} (hbig : ¬ Fits c iovs.flatten)
    (hE : (c.encode .hw iovs.flatten).length ≤ iovs.flatten.length) :
    ¬ Sound (submitWrite c [{ len := iovs.flatten.length + 1 }] iovs).copies := by
  have hcopies : (submitWrite c [{ len := iovs.flatten.length + 1 }] iovs).copies =
      copiesOf (compressFile c {} iovs.flatten .compress .hw (iovs.flatten.length + 1) 0).2 iovs := by
    rw [submitWrite_cons, if_pos rfl, compressIovs_eq]
  have hcases := compressFile_cases c {} iovs.flatten .compress .hw (iovs.flatten.length + 1) 0
  rw [hcopies]
  generalize compressFile c {} iovs.flatten .compress .hw (iovs.flatten.length + 1) 0 = res at hcases
  cases hcases with
  | ok _ _ hstream _ hout =>
    obtain rfl := Option.some.inj hstream
    exact absurd hout.fits hbig
  | @failed _ out _ _ hlen hroom _ =>
    have hroom' : out.buf.size < dataSize iovs := by
      rw [dataSize_eq]
      unfold Fits at hbig
      omega
    dsimp only
    unfold copiesOf
    split
    · next iov =>
      intro h
      have hover := of_decide_eq_false (h _ (List.mem_singleton.mpr rfl)).1
      have hlen' : out.len = iov.length + 1 := by
        rw [hlen]
        simp
      omega
    · refine not_sound_scatterCompressed _ _ _ _ (by omega) (Nat.zero_le _) ?_
      rw [hlen, dataSize_eq]
      omega

/-- The round trip works if and only if the frame is recoverable. -/
theorem round_trip {E : List UInt8} {lens : List Nat} (hD : iovs.flatten ≠ [])
    (hE : E.length ≤ iovs.flatten.length) (hsum : lens.sum = iovs.flatten.length) :
    RoundTrips E iovs lens ↔ Recoverable E iovs.flatten lens := by
  have hback := readsBack_iff (E := E) (D := iovs.flatten) (F := pad 0 iovs.flatten.length E) lens
    (by rw [length_pad]; exact hsum) (length_pad _ _ _) hD
  -- what a write under a codec that encodes the data as `E` stores
  have hwrite : ∀ c a, c.encode .hw iovs.flatten = E → E.length ≤ dstBufSize .compress iovs.flatten.length →
      CallsOk a.calls → a.rc = 0 → ∃ out, (submitWrite c [a] iovs).submitted = .accepted out ∧
        out.flatten = pad 0 iovs.flatten.length E ∧ Sound (submitWrite c [a] iovs).copies := by
    intro c a henc hfits hcalls hrc
    have hfits' : Fits c iovs.flatten := by
      rw [Fits, henc]
      exact hfits
    have hs := (compressIovs_success c a iovs).mpr ⟨hcalls, hfits'⟩
    have hframed := framed_compressIovs hs
    rw [submitWrite_cons, if_pos hrc]
    refine ⟨after c a iovs, rfl, ?_, ?_⟩
    · rw [flatten_after hs, frame, henc]
    · intro x hx
      refine ⟨?_, hframed.overread x hx⟩
      by_contra hover
      have hlong := (hframed.overrun.mp ⟨x, hx, by simpa using hover⟩).2
      rw [henc] at hlong
      omega
  constructor
  · intro h
    have hlossless := lossless_rivalCodec E iovs.flatten E 0
    have henc : (rivalCodec E iovs.flatten E 0).encode .hw iovs.flatten = E := if_pos rfl
    have hfits : E.length ≤ dstBufSize .compress iovs.flatten.length := by
      by_contra hbig
      obtain ⟨_, _, hsound, _⟩ := h _ { len := iovs.flatten.length + 1 } {} hlossless henc
        (show CallsOk {} by decide) rfl (by decide)
      refine write_unsound ?_ ?_ hsound
      · rw [Fits, henc]
        exact hbig
      · rw [henc]
        exact hE
    have hread : ReadsBack E iovs.flatten (pad 0 iovs.flatten.length E) lens := by
      intro c r hc henc' hcalls
      obtain ⟨out, hout, _, hret⟩ := h c {} r hc henc' (by decide) rfl hcalls
      obtain ⟨out', hout', hbytes, _⟩ := hwrite c {} henc' hfits (by decide) rfl
      rw [hout] at hout'
      obtain rfl := Submitted.accepted.inj hout'
      rw [hbytes] at hret
      exact hret
    obtain ⟨hraw, hcoded⟩ := hback.mp hread
    refine ⟨hfits, hraw, fun hfirst => ?_⟩
    obtain ⟨htrim, hroom⟩ := hcoded hfirst
    obtain ⟨hlast, hseams⟩ := (trimmedData_frame hsum hE (Nat.le_trans hroom (dstBufSize_le _ _))).mp htrim
    exact ⟨hlast, hseams, hroom⟩
  · rintro ⟨hfits, hraw, hcoded⟩ c a r hc henc hcalls hrc hcalls'
    obtain ⟨out, hout, hbytes, hsound⟩ := hwrite c a henc hfits hcalls hrc
    refine ⟨out, hout, hsound, ?_⟩
    rw [hbytes]
    refine hback.mpr ⟨hraw, fun hfirst => ?_⟩ c r hc henc hcalls'
    obtain ⟨hlast, hseams, hroom⟩ := hcoded hfirst
    exact ⟨(trimmedData_frame hsum hE (Nat.le_trans hroom (dstBufSize_le _ _))).mpr ⟨hlast, hseams⟩, hroom⟩

/-- A block of equal bytes comes back in one iovec. -/
theorem round_trip_block : RoundTrips [1, 7, 0, 2] [List.replicate 512 7] [512] ↔
    Recoverable [1, 7, 0, 2] [List.replicate 512 7].flatten [512] :=
  round_trip (by decide +kernel) (by decide +kernel) (by decide +kernel)

/-- It does not where a read iovec ends in the zero byte of its encoding. -/
theorem round_trip_lost : Lossless runCodec ∧ runCodec.encode .hw (List.replicate 512 7) = [1, 7, 0, 2] ∧
    (submitWrite runCodec [{}] [List.replicate 512 7]).submitted = .accepted [pad 0 512 [1, 7, 0, 2]] ∧
    ¬ Returns runCodec {} [3, 509] (pad 0 512 [1, 7, 0, 2]) (List.replicate 512 7) := by
  refine ⟨lossless_runCodec, by decide +kernel, by decide +kernel, ?_⟩
  have hfirst : firstChar {} (chop [3, 509] (pad 0 512 ([1, 7, 0, 2] : List UInt8))) ≠ 0 := by decide +kernel
  -- the zero the first iovec ends in is trimmed off, and the rest does not decode
  have htrim : trimmedData (chop [3, 509] (pad 0 512 [1, 7, 0, 2])) = [1, 7, 0] :=
    trimmedData_iff.mpr ⟨⟨2 :: List.replicate 508 0, by decide +kernel⟩, by decide +kernel⟩
  rw [returns_decoded hfirst, decompressIovs_eq, htrim]
  rintro ⟨hbytes, -⟩
  revert hbytes
  decide +kernel

end FlexBSO.Passthru

import FlexBSO.Passthru.Copies
import Mathlib.Logic.Function.Iterate

/- What a write request hands to the base bdev: the encoding of its bytes, cut or
   padded with zeros to their number (`frame`), and, after each `-ENOMEM`, the frame
   of the frame before, for the iovecs hold that by then. -/
namespace FlexBSO.Passthru

open Compress Lib

/-- No call of a job fails. -/
def CallsOk (calls : Calls) : Prop := calls.calloc = true ∧ calls.setup = .success ∧ calls.job = .success

instance (calls : Calls) : Decidable (CallsOk calls) := by
  unfold CallsOk
  exact inferInstance

/-- The encoding of the bytes, cut or padded with zeros to their number -/
def frame (c : Codec) (data : List UInt8) : List UInt8 := pad 0 data.length (c.encode .hw data)

/-- The encoding fits the buffer `compress_file` allocates for it. -/
def Fits (c : Codec) (data : List UInt8) : Prop :=
  (c.encode .hw data).length ≤ dstBufSize .compress data.length

instance (c : Codec) (data : List UInt8) : Decidable (Fits c data) := by
  unfold Fits
  exact inferInstance

/-- The request is queued after this attempt. -/
def Attempt.retry (a : Attempt) : Prop := a.rc ≠ 0 ∧ a.rc = -ENOMEM ∧ a.queueRc = 0

instance (a : Attempt) : Decidable a.retry := by
  unfold Attempt.retry
  exact inferInstance

/-- How often the request is deferred before the base bdev takes it, if it does. -/
def deferrals : List Attempt → Option Nat
  | [] => none
  | a :: rest => if a.rc = 0 then some 0 else if a.retry then (deferrals rest).map (· + 1) else none

/-- The compression jobs of all attempts that are made succeed, on bytes `data` first. -/
def JobsSucceed (c : Codec) : List Attempt → List UInt8 → Prop
  | [], _ => True
  | a :: rest, data => CallsOk a.calls ∧ Fits c data ∧ (a.retry → JobsSucceed c rest (frame c data))

@[simp] theorem length_frame (c : Codec) (data : List UInt8) : (frame c data).length = data.length := length_pad _ _ _

variable {c : Codec} {a : Attempt} {attempts : List Attempt} {iovs : List (List UInt8)}

/-! ## One attempt -/

/-- The copies a job's output is put into the iovecs by. -/
def copiesOf (out : Output) : List (List UInt8) → List Copied
  | [iov] => [fillIov out.buf 0 out.len iov]
  | iovs => scatterCompressed out.buf iovs 0 out.len

theorem compressIovs_eq (c : Codec) (a : Attempt) (iovs : List (List UInt8)) :
    compressIovs c a iovs = ((compressFile c a.calls iovs.flatten .compress .hw a.len 0).1,
      copiesOf (compressFile c a.calls iovs.flatten .compress .hw a.len 0).2 iovs) := by
  rw [← gather_eq]
  match iovs with
  | [] => rfl
  | [_] => rfl
  | _ :: _ :: _ => rfl

/-- The job succeeds if and only if its calls do and the encoding fits its buffer. -/
theorem compressIovs_success (c : Codec) (a : Attempt) (iovs : List (List UInt8)) :
    (compressIovs c a iovs).1 = .success ↔ CallsOk a.calls ∧ Fits c iovs.flatten := by
  rw [compressIovs_eq]
  dsimp only
  have hcases := compressFile_cases c a.calls iovs.flatten .compress .hw a.len 0
  constructor
  · intro h
    generalize compressFile c a.calls iovs.flatten .compress .hw a.len 0 = res at h hcases
    cases hcases with
    | ok hcalloc hcalls hstream _ hout =>
      obtain rfl := Option.some.inj hstream
      exact ⟨⟨hcalloc, (hcalls rfl).1, (hcalls rfl).2⟩, hout.fits⟩
    | failed hresult _ _ _ _ => exact absurd h hresult
  · rintro ⟨⟨hcalloc, hsetup, hjob⟩, hfit⟩
    have hstream : streamOf c .compress .hw iovs.flatten = some (c.encode .hw iovs.flatten) := rfl
    have hroom : HasRoom .compress .hw (c.encode .hw iovs.flatten).length (dstBufSize .compress iovs.flatten.length) :=
      ⟨hfit, fun _ h => by cases h⟩
    obtain ⟨out, hrun, _⟩ := compressFile_ok a.len 0 hcalloc hsetup hjob hstream hroom
    rw [hrun]

/-- With one iovec or several, the output's bytes and zeros behind them -/
theorem bytesOf_copiesOf (out : Output) (iovs : List (List UInt8)) : bytesOf (copiesOf out iovs) =
    out.buf.read 0 (min out.len iovs.flatten.length) ++ List.replicate (iovs.flatten.length - out.len) 0 := by
  unfold copiesOf
  split
  · simp [bytesOf, fillIov]
  · rw [bytesOf_scatterCompressed, dataSize_eq]

theorem lengths_copiesOf (out : Output) (iovs : List (List UInt8)) :
    ((copiesOf out iovs).map (·.iov)).map List.length = iovs.map List.length := by
  rw [List.map_map]
  unfold copiesOf
  split
  · simp only [List.map_cons, List.map_nil, Function.comp_apply, length_fillIov]
  · exact lengths_scatterCompressed _ _ _ _

theorem lengths_compressIovs (c : Codec) (a : Attempt) (iovs : List (List UInt8)) :
    ((compressIovs c a iovs).2.map (·.iov)).map List.length = iovs.map List.length := by
  rw [compressIovs_eq]
  exact lengths_copiesOf _ iovs

/-- After a job that succeeds the iovecs hold the frame; a single one is overrun by an encoding
    longer than it. -/
structure Framed (c : Codec) (iovs : List (List UInt8)) (copies : List Copied) : Prop where
  bytes : bytesOf copies = frame c iovs.flatten
  overread : ∀ x ∈ copies, x.overread = false
  overrun : (∃ x ∈ copies, x.overrun = true) ↔
    iovs.length = 1 ∧ iovs.flatten.length < (c.encode .hw iovs.flatten).length

theorem framed_compressIovs (h : (compressIovs c a iovs).1 = .success) : Framed c iovs (compressIovs c a iovs).2 := by
  rw [compressIovs_eq] at h ⊢
  dsimp only at h ⊢
  have hcases := compressFile_cases c a.calls iovs.flatten .compress .hw a.len 0
  generalize compressFile c a.calls iovs.flatten .compress .hw a.len 0 = res at h hcases
  cases hcases with
  | failed hresult _ _ _ _ => exact absurd h hresult
  | @ok _ out _ _ hstream _ hout =>
    obtain rfl := Option.some.inj hstream
    have hlen : 0 + out.len = out.buf.bytes.length := by
      rw [hout.len, hout.bytes, Nat.zero_add]
    have hroom : 0 + out.len ≤ out.buf.size := by
      rw [hout.len, hout.size, Nat.zero_add]
      exact hout.fits
    dsimp only
    have hbytes : bytesOf (copiesOf out iovs) = frame c iovs.flatten := by
      rw [bytesOf_copiesOf, read_pad _ hlen, List.drop_zero, hout.bytes, frame]
    match iovs with
    | [] => exact ⟨hbytes, by simp [copiesOf, scatterCompressed], by simp [copiesOf, scatterCompressed]⟩
    | [iov] =>
      have hflat : [iov].flatten = iov := by simp
      refine ⟨hbytes, ?_, ?_⟩
      · intro x hx
        obtain rfl := List.mem_singleton.mp hx
        refine decide_eq_false ?_
        omega
      · rw [hflat]
        rw [hflat] at hout
        constructor
        · rintro ⟨x, hx, hover⟩
          obtain rfl := List.mem_singleton.mp hx
          have hlt : iov.length < out.len := of_decide_eq_true hover
          rw [hout.len] at hlt
          exact ⟨rfl, hlt⟩
        · rintro ⟨_, hlt⟩
          rw [← hout.len] at hlt
          exact ⟨_, List.mem_singleton.mpr rfl, decide_eq_true hlt⟩
    | iov :: iov' :: iovs =>
      refine ⟨hbytes, scatterCompressed_overread _ _ _ _ hroom, ?_⟩
      constructor
      · rintro ⟨x, hx, hover⟩
        rw [scatterCompressed_overrun _ _ _ _ x hx] at hover
        cases hover
      · rintro ⟨hone, _⟩
        cases hone

/-! ## A request and its attempts -/

/-- The iovecs after one attempt -/
def after (c : Codec) (a : Attempt) (iovs : List (List UInt8)) : List (List UInt8) :=
  (compressIovs c a iovs).2.map (·.iov)

theorem submitWrite_cons (c : Codec) (a : Attempt) (rest : List Attempt) (iovs : List (List UInt8)) :
    submitWrite c (a :: rest) iovs =
      if a.rc = 0 then ⟨.accepted (after c a iovs), [(compressIovs c a iovs).1], (compressIovs c a iovs).2⟩
      else if a.retry then
        ⟨(submitWrite c rest (after c a iovs)).submitted,
          (compressIovs c a iovs).1 :: (submitWrite c rest (after c a iovs)).results,
          (compressIovs c a iovs).2 ++ (submitWrite c rest (after c a iovs)).copies⟩
      else ⟨.failed, [(compressIovs c a iovs).1], (compressIovs c a iovs).2⟩ := by
  rw [submitWrite]
  by_cases h0 : a.rc = 0
  · simp only [h0, if_true, after]
  · simp only [h0, if_false, Attempt.retry, ne_eq, not_false_eq_true, true_and, after]

@[simp] theorem lengths_after (c : Codec) (a : Attempt) (iovs : List (List UInt8)) :
    (after c a iovs).map List.length = iovs.map List.length := lengths_compressIovs c a iovs

theorem flatten_after (h : (compressIovs c a iovs).1 = .success) :
    (after c a iovs).flatten = frame c iovs.flatten := (framed_compressIovs h).bytes

/-- Where the job succeeds, the iovecs get the frame, cut at their lengths. -/
theorem after_eq_chop (h : (compressIovs c a iovs).1 = .success) :
    after c a iovs = chop (iovs.map List.length) (frame c iovs.flatten) := by
  rw [← flatten_after h, ← lengths_after c a iovs, chop_flatten]

/-- All jobs of a run succeed if and only if those of the frames do. -/
theorem results_success (attempts : List Attempt) : ∀ iovs, (∀ r ∈ (submitWrite c attempts iovs).results, r = .success) ↔
    JobsSucceed c attempts iovs.flatten := by
  induction attempts with
  | nil =>
    intro iovs
    simp [submitWrite, JobsSucceed]
  | cons a rest ih =>
    intro iovs
    rw [submitWrite_cons, JobsSucceed]
    have hjob := compressIovs_success c a iovs
    by_cases h0 : a.rc = 0
    · have hno : ¬ a.retry := fun h => h.1 h0
      rw [if_pos h0]
      simp only [List.mem_singleton, forall_eq, hjob, hno, false_implies, and_true]
    · rw [if_neg h0]
      by_cases hretry : a.retry
      · rw [if_pos hretry]
        simp only [List.mem_cons, forall_eq_or_imp, hretry, forall_const, ih]
        constructor
        · rintro ⟨hs, hrest⟩
          rw [flatten_after hs] at hrest
          exact ⟨(hjob.mp hs).1, (hjob.mp hs).2, hrest⟩
        · rintro ⟨hcalls, hfit, hrest⟩
          have hs := hjob.mpr ⟨hcalls, hfit⟩
          rw [flatten_after hs]
          exact ⟨hs, hrest⟩
      · rw [if_neg hretry]
        simp only [List.mem_singleton, forall_eq, hjob, hretry, false_implies, and_true]

/-- The base bdev takes the request if and only if it is deferred a number of times and then accepted. -/
theorem accepted_iff (attempts : List Attempt) : ∀ iovs, (∃ out, (submitWrite c attempts iovs).submitted = .accepted out) ↔
    ∃ k, deferrals attempts = some k := by
  induction attempts with
  | nil =>
    intro iovs
    simp [submitWrite, deferrals]
  | cons a rest ih =>
    intro iovs
    rw [submitWrite_cons, deferrals]
    by_cases h0 : a.rc = 0
    · simp [h0]
    · by_cases hretry : a.retry
      · simp only [if_neg h0, if_pos hretry, ih, Option.map_eq_some_iff]
        constructor
        · rintro ⟨k, hk⟩
          exact ⟨k + 1, k, hk, rfl⟩
        · rintro ⟨_, k, hk, _⟩
          exact ⟨k, hk⟩
      · simp [h0, hretry]

/-- What each attempt brings about the base bdev gets, where an attempt may start from what another
    one left. -/
theorem accepted_of_step {I J : List (List UInt8) → Prop} (hmore : ∀ iovs, J iovs → I iovs) (attempts : List Attempt) :
    ∀ {iovs out : List (List UInt8)}, (∀ a ∈ attempts, ∀ iovs, I iovs → J (after c a iovs)) → I iovs →
      (submitWrite c attempts iovs).submitted = .accepted out → J out := by
  induction attempts with
  | nil =>
    intro iovs out _ _ hout
    cases hout
  | cons a rest ih =>
    intro iovs out hstep hI hout
    have hJ := hstep a (List.mem_cons_self ..) iovs hI
    rw [submitWrite_cons] at hout
    split at hout
    · obtain rfl := Submitted.accepted.inj hout
      exact hJ
    · split at hout
      · exact ih (fun a' ha' => hstep a' (List.mem_cons_of_mem _ ha')) (hmore _ hJ) hout
      · cases hout

theorem accepted_lengths {out : List (List UInt8)} (h : (submitWrite c attempts iovs).submitted = .accepted out) :
    out.map List.length = iovs.map List.length :=
  accepted_of_step (I := fun now => now.map List.length = iovs.map List.length)
    (fun _ h => h) attempts (fun a _ now hnow => (lengths_after c a now).trans hnow) rfl h

/-- What the base bdev gets: the frame, framed once more for each time the request was deferred. -/
theorem accepted_bytes (attempts : List Attempt) : ∀ {iovs out : List (List UInt8)} {k : Nat},
    JobsSucceed c attempts iovs.flatten → (submitWrite c attempts iovs).submitted = .accepted out →
    deferrals attempts = some k → out.flatten = (frame c)^[k + 1] iovs.flatten := by
  induction attempts with
  | nil =>
    intro iovs out k _ _ hk
    cases hk
  | cons a rest ih =>
    intro iovs out k hjobs hout hk
    obtain ⟨hcalls, hfit, hrest⟩ := hjobs
    have hs := (compressIovs_success c a iovs).mpr ⟨hcalls, hfit⟩
    rw [submitWrite_cons] at hout
    rw [deferrals] at hk
    by_cases h0 : a.rc = 0
    · rw [if_pos h0] at hout hk
      obtain rfl := Submitted.accepted.inj hout
      obtain rfl := Option.some.inj hk
      exact flatten_after hs
    · rw [if_neg h0] at hout hk
      by_cases hretry : a.retry
      · rw [if_pos hretry] at hout hk
        obtain ⟨j, hj, rfl⟩ := Option.map_eq_some_iff.mp hk
        have hjobs' : JobsSucceed c rest (after c a iovs).flatten := by
          rw [flatten_after hs]
          exact hrest hretry
        have hbytes := ih hjobs' hout hj
        rw [flatten_after hs] at hbytes
        rw [hbytes, Function.iterate_succ_apply (frame c) (j + 1)]
      · rw [if_neg hretry] at hk
        cases hk

/-- The jobs of a request that is deferred `k` times are given the data framed up to `k` times. -/
theorem jobsSucceed_iff (attempts : List Attempt) : ∀ {k : Nat} (data : List UInt8), deferrals attempts = some k →
    (JobsSucceed c attempts data ↔
      (∀ a ∈ attempts.take (k + 1), CallsOk a.calls) ∧ ∀ j ≤ k, Fits c ((frame c)^[j] data)) := by
  induction attempts with
  | nil =>
    intro k data hk
    cases hk
  | cons a rest ih =>
    intro k data hk
    rw [deferrals] at hk
    rw [JobsSucceed, List.take_succ_cons, List.forall_mem_cons]
    by_cases h0 : a.rc = 0
    · rw [if_pos h0] at hk
      obtain rfl := Option.some.inj hk
      have hno : ¬ a.retry := fun h => h.1 h0
      simp [hno]
    · rw [if_neg h0] at hk
      by_cases hretry : a.retry
      · rw [if_pos hretry] at hk
        obtain ⟨j, hj, rfl⟩ := Option.map_eq_some_iff.mp hk
        have hrest := ih (frame c data) hj
        simp only [hretry, forall_const, hrest]
        constructor
        · rintro ⟨hcalls, hfit, hcalls', hfits⟩
          refine ⟨⟨hcalls, hcalls'⟩, ?_⟩
          intro i hi
          cases i with
          | zero => exact hfit
          | succ i => exact hfits i (by omega)
        · rintro ⟨⟨hcalls, hcalls'⟩, hfits⟩
          exact ⟨hcalls, hfits 0 (Nat.zero_le _), hcalls', fun i hi => hfits (i + 1) (by omega)⟩
      · rw [if_neg hretry] at hk
        cases hk

/-! ## An encoding that does not fit its buffer -/

theorem le_dstBufSize {n : Nat} : n ≤ dstBufSize .compress n ↔ n ≤ maxFileSize := by
  unfold dstBufSize maxFileSize minDstBufSize
  dsimp only
  omega

theorem compressFile_unfit {calls : Calls} {data : List UInt8} (len checksum : Nat) (hcalls : CallsOk calls)
    (hbig : ¬ Fits c data) : compressFile c calls data .compress .hw len checksum =
      (.ioFailed, ⟨⟨[], dstBufSize .compress data.length, calls.beyond⟩, len, checksum⟩) := by
  obtain ⟨hcalloc, hsetup, hjob⟩ := hcalls
  unfold Fits at hbig
  simp only [compressFile, compressFileHw, jobOutput, emit, hcalloc, hsetup, hjob, hbig, if_false, ne_eq,
    not_true_eq_false, Bool.true_eq_false, Option.bind_some, Option.map_none]

/-- The job fails and leaves its buffer zero: the iovecs come out zero, and the same whatever else
    memory holds, if and only if they do not have more bytes than the buffer. -/
theorem after_unfit {P : List UInt8} (hbig : ¬ Fits c iovs.flatten) :
    (∀ a : Attempt, CallsOk a.calls → (after c a iovs).flatten = P) ↔
      iovs.flatten.length ≤ maxFileSize ∧ P = List.replicate iovs.flatten.length 0 := by
  have hafter : ∀ a : Attempt, CallsOk a.calls → (after c a iovs).flatten =
      Buf.read ⟨[], dstBufSize .compress iovs.flatten.length, a.calls.beyond⟩ 0 (min a.len iovs.flatten.length) ++
        List.replicate (iovs.flatten.length - a.len) 0 := by
    intro a hcalls
    have hbytes := bytesOf_copiesOf (compressFile c a.calls iovs.flatten .compress .hw a.len 0).2 iovs
    rw [compressFile_unfit _ _ hcalls hbig] at hbytes
    rw [after, compressIovs_eq, compressFile_unfit _ _ hcalls hbig]
    exact hbytes
  constructor
  · intro h
    have hP : P = List.replicate iovs.flatten.length 0 := by
      rw [← h {} (by decide), hafter {} (by decide)]
      simp [Buf.read]
    refine ⟨?_, hP⟩
    by_contra hlong
    -- a byte of memory behind the buffer gets into the iovecs
    have hroom : dstBufSize .compress iovs.flatten.length < iovs.flatten.length := by
      rw [← Nat.not_le, le_dstBufSize]
      exact hlong
    have hok : CallsOk { beyond := fun _ => 1 } := ⟨rfl, rfl, rfl⟩
    have hzeros := (h { calls := { beyond := fun _ => 1 }, len := iovs.flatten.length } hok).trans hP
    rw [hafter _ hok] at hzeros
    simp only [Nat.min_self, Nat.sub_self, List.replicate_zero, List.append_nil] at hzeros
    have hmem : (1 : UInt8) ∈ Buf.read ⟨[], dstBufSize .compress iovs.flatten.length, fun _ => 1⟩ 0 iovs.flatten.length :=
      List.mem_map.mpr ⟨_, List.mem_range.mpr hroom, by simp [Buf.get]⟩
    rw [hzeros] at hmem
    exact absurd (List.eq_of_mem_replicate hmem) (by decide)
  · rintro ⟨hshort, rfl⟩ a hcalls
    have hroom := le_dstBufSize.mpr hshort
    rw [hafter a hcalls, Buf.read_eq_pad (Nat.le_trans (Nat.min_le_right _ _) hroom), pad, List.take_nil, List.nil_append,
      ← List.replicate_add]
    congr 1
    simp only [List.length_nil]
    omega

end FlexBSO.Passthru

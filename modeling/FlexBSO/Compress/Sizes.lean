import FlexBSO.Compress.Core

/- The destination buffers of a pair of jobs: one compresses a content, one
   decompresses the stream again. The sizes are computed from the length of the
   source alone, so that the second one is a guess at the first one's source. -/
namespace FlexBSO.Compress

/-- The longest stream a deflate encoder makes of `n` bytes: stored blocks of at most 65535 bytes
    each, with five bytes before each. -/
def maxStreamLen (n : Nat) : Nat := n + 5 * ((n + 65534) / 65535)

/-- The stream of `data` by `m₁` fits the buffer of its job, and `data` the one of the job by `m₂`
    on that stream: neither job fails for lack of space. -/
structure Fits (c : Codec) (m₁ m₂ : CompressMethod) (data : List UInt8) : Prop where
  compress : ∀ calls len sum, calls.calloc = true →
    (c.encode m₁ data).length ≤ (compressFile c calls data .compress m₁ len sum).2.buf.size
  decompress : ∀ calls len sum, calls.calloc = true →
    data.length ≤ (compressFile c calls (c.encode m₁ data) .decompress m₂ len sum).2.buf.size
  compressed : ∀ calls len sum, calls.calloc = true → calls.setup = .success → calls.job = .success →
    (compressFile c calls data .compress m₁ len sum).1 = .success
  decompressed : ∀ calls len sum, calls.calloc = true → calls.setup = .success → calls.job = .success →
    streamOf c .decompress m₂ (c.encode m₁ data) = some data →
    (compressFile c calls (c.encode m₁ data) .decompress m₂ len sum).1 = .success

section sizes
variable {c : Codec} {m₁ m₂ : CompressMethod} {data : List UInt8}

/-- The buffer of a job, however it ends -/
theorem size_compressFile {calls : Calls} (job : JobType) (m : CompressMethod) (len sum : Nat) (h : calls.calloc = true) :
    (compressFile c calls data job m len sum).2.buf.size = dstBufSize job data.length := by
  have hemit {stream : List UInt8} {out out' : Output} (he : emit stream out = some out') :
      out'.buf.size = out.buf.size := by
    obtain ⟨-, rfl⟩ := emit_cases he
    rfl
  unfold compressFile
  rw [if_neg (by rw [h]; decide)]
  cases m with
  | hw =>
    dsimp only
    unfold compressFileHw
    split
    · rfl
    · split
      · rfl
      · split
        · rfl
        · next out hout =>
          obtain ⟨⟨stream, plain⟩, -, hmap⟩ := Option.bind_eq_some_iff.mp hout
          obtain ⟨out', hout', rfl⟩ := Option.map_eq_some_iff.mp hmap
          exact hemit hout'
  | sw =>
    cases job with
    | compress =>
      dsimp only
      unfold compressFileSw
      dsimp only
      split
      · rfl
      split
      · rfl
      · next out hout => exact hemit hout
    | decompress =>
      dsimp only
      unfold decompressFileSw
      split
      · rfl
      · next out hout =>
        obtain ⟨stream, -, hout'⟩ := Option.bind_eq_some_iff.mp hout
        exact hemit hout'

/-- The buffer of a compress job is too short only where the limit of a file cuts it. -/
theorem fits_compress {n e : Nat} (h : e ≤ maxStreamLen n) :
    HasRoom .compress m₁ e (dstBufSize .compress n) ↔ HasRoom .compress m₁ e maxFileSize := by
  unfold maxStreamLen at h
  cases m₁ with
  | hw =>
    simp only [HasRoom, dstBufSize, maxFileSize, minDstBufSize, reduceCtorEq, false_implies, implies_true, and_true]
    omega
  | sw =>
    simp only [HasRoom, dstBufSize, maxFileSize, minDstBufSize, forall_const]
    omega

/-- The buffer of a decompress job has room for five times the stream, or for the least buffer. -/
theorem fits_decompress {n e : Nat} (h : n ≤ maxFileSize) :
    n ≤ dstBufSize .decompress e ↔ n ≤ minDstBufSize ∨ n ≤ decompressRatio * e := by
  unfold maxFileSize at h
  simp only [dstBufSize, maxFileSize, minDstBufSize, decompressRatio]
  omega

theorem Fits.of_sizes (hdata : data.length ≤ maxFileSize)
    (h₁ : HasRoom .compress m₁ (c.encode m₁ data).length (dstBufSize .compress data.length))
    (h₂ : data.length ≤ dstBufSize .decompress (c.encode m₁ data).length) : Fits c m₁ m₂ data where
  compress calls len sum hc := by
    rw [size_compressFile .compress m₁ len sum hc]
    exact h₁.1
  decompress calls len sum hc := by rwa [size_compressFile .decompress m₂ len sum hc]
  compressed calls len sum hc hs hj := by
    obtain ⟨out, hrun, -⟩ := compressFile_ok len sum hc hs hj (streamOf_compress m₁ hdata) h₁
    rw [hrun]
  decompressed calls len sum hc hs hj hstream := by
    obtain ⟨out, hrun, -⟩ := compressFile_ok len sum hc hs hj hstream ⟨h₂, fun h => by cases h⟩
    rw [hrun]

/-- Both buffers suffice exactly if the stream is no longer than a file may be (for zlib, shorter), and
    the content is at most the least buffer or at most five times its stream. -/
theorem buffers_suffice (hdata : data.length ≤ maxFileSize)
    (hlong : (c.encode m₁ data).length ≤ maxStreamLen data.length) :
    Fits c m₁ m₂ data ↔ HasRoom .compress m₁ (c.encode m₁ data).length maxFileSize ∧
      (data.length ≤ minDstBufSize ∨ data.length ≤ decompressRatio * (c.encode m₁ data).length) := by
  rw [← fits_compress hlong, ← fits_decompress hdata]
  constructor
  · intro h
    refine ⟨?_, ?_⟩
    · -- a job without errors has succeeded
      have hstream : streamOf c .compress m₁ data = some (c.encode m₁ data) := streamOf_compress m₁ hdata
      have hdone := h.compressed {} 0 0 rfl rfl rfl
      have hcases := compressFile_cases c {} data .compress m₁ 0 0
      generalize compressFile c {} data .compress m₁ 0 0 = res at hdone hcases
      cases hcases with
      | ok _ _ hstream' hroom _ =>
        obtain rfl := Option.some.inj (hstream.symm.trans hstream')
        exact hroom
      | failed hresult _ _ _ _ => exact absurd hdone hresult
    · have h₂ := h.decompress {} 0 0 rfl
      rwa [size_compressFile .decompress m₂ 0 0 rfl] at h₂
  · rintro ⟨h₁, h₂⟩
    exact .of_sizes hdata h₁ h₂

end sizes

/-- Encoders that make a stream of `len data.length` bytes. -/
def lengthCodec (len : Nat → Nat) : Codec := .ofDoca (fun data => List.replicate (len data.length) 0) fun _ => none

theorem length_lengthCodec (len : Nat → Nat) (m : CompressMethod) (data : List UInt8) :
    ((lengthCodec len).encode m data).length = len data.length := by
  cases m with
  | hw => exact List.length_replicate
  | sw => exact List.length_replicate

theorem buffers_suffice_short : Fits (lengthCodec (· + 5)) .hw .hw [0x61] ↔
    HasRoom .compress .hw 6 maxFileSize ∧ (1 ≤ minDstBufSize ∨ 1 ≤ decompressRatio * 6) :=
  buffers_suffice (c := lengthCodec (· + 5)) (by decide) (by decide)

/-- A content of 2 MB that compresses to a hundredth cannot be decompressed, and one of the largest
    size that does not compress cannot be compressed; zlib cannot compress it even to its own size. -/
theorem buffers_too_short :
    ¬Fits (lengthCodec (· / 100)) .hw .hw (List.replicate 2000000 0) ∧
    ¬Fits (lengthCodec maxStreamLen) .hw .hw (List.replicate maxFileSize 0) ∧
    ¬Fits (lengthCodec id) .sw .hw (List.replicate maxFileSize 0) ∧
    ¬∀ (c : Codec) (m₁ m₂ : CompressMethod) (data : List UInt8), 1 ≤ data.length → data.length ≤ maxFileSize →
      data.length ≤ 1000 * (c.encode m₁ data).length → (c.encode m₁ data).length ≤ maxStreamLen data.length →
      Fits c m₁ m₂ data := by
  have hratio : ¬Fits (lengthCodec (· / 100)) .hw .hw (List.replicate 2000000 0) := by
    intro h
    have hroom := h.decompress {} 0 0 rfl
    rw [size_compressFile .decompress .hw 0 0 rfl, length_lengthCodec, List.length_replicate] at hroom
    revert hroom
    decide
  have hlimit : ¬Fits (lengthCodec maxStreamLen) .hw .hw (List.replicate maxFileSize 0) := by
    intro h
    have hroom := h.compress {} 0 0 rfl
    rw [size_compressFile .compress .hw 0 0 rfl, length_lengthCodec, List.length_replicate] at hroom
    revert hroom
    decide
  have hfull : ¬Fits (lengthCodec id) .sw .hw (List.replicate maxFileSize 0) := by
    intro h
    have hroom := ((buffers_suffice (by rw [List.length_replicate])
      (by rw [length_lengthCodec, List.length_replicate]; decide)).mp h).1
    rw [length_lengthCodec, List.length_replicate] at hroom
    exact hroom.2 rfl rfl rfl
  refine ⟨hratio, hlimit, hfull, fun h => hratio (h _ _ _ _ ?_ ?_ ?_ ?_)⟩
  · rw [List.length_replicate]
    decide
  · rw [List.length_replicate]
    decide
  · rw [length_lengthCodec, List.length_replicate]
    decide
  · rw [length_lengthCodec, List.length_replicate]
    decide

end FlexBSO.Compress

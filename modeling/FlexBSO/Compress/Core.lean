import FlexBSO.Lib.Bytes

/- `compress_file` of compression_local_core.c: one deflate job over a buffer, by the
   DOCA device or by zlib. Both libraries are outside of the repository: a `Codec` is
   what they do to byte strings, at the level of whole streams. Results of calls that
   say nothing about the bytes are arguments. -/
namespace FlexBSO.Compress

/-- `doca_error_t`: the errors the code itself returns, and all others of the DOCA libraries. -/
inductive DocaError where
  | success | noMemory | badState | ioFailed | invalidValue
  | other (code : Nat)
  deriving DecidableEq, Repr

/-- `enum doca_compress_job_types` -/
inductive JobType where
  | compress | decompress
  deriving DecidableEq, Repr

/-- `enum file_compression_compress_method` -/
inductive CompressMethod where
  | hw | sw
  deriving DecidableEq, Repr

/-- `MAX_FILE_SIZE`, `MIN_DST_BUF_SIZE`, `DECOMPRESS_RATIO` and zlib's `MAX_WBITS` -/
def maxFileSize : Nat := 256 * 1024 * 1024
def minDstBufSize : Nat := 1024 * 1024
def decompressRatio : Nat := 5
def maxWbits : Int := 15

/-! ## Buffers -/

/-- An allocated buffer: what was stored from its start on, the rest of its `size` bytes being zero
    as `calloc` left them, and the memory behind it. `NULL` is a buffer of size zero. -/
structure Buf where
  bytes : List UInt8
  size : Nat
  beyond : Nat → UInt8

def Buf.get (b : Buf) (i : Nat) : UInt8 :=
  if i < b.bytes.length then b.bytes.getD i 0 else if i < b.size then 0 else b.beyond i

/-- The `n` bytes from offset `off` on -/
def Buf.read (b : Buf) (off n : Nat) : List UInt8 := (List.range n).map fun j => b.get (off + j)

/-- The output arguments of `compress_file`. -/
structure Output where
  buf : Buf
  len : Nat
  checksum : Nat

/-! ## The libraries -/

/-- What the DOCA device and zlib make of byte strings. -/
structure Codec where
  /-- the raw deflate stream a DOCA job makes, and the bytes one makes of such a stream -/
  encodeRaw : List UInt8 → List UInt8
  inflateRaw : List UInt8 → Option (List UInt8)
  /-- what `deflateInit2` and `inflateInit2` with these `windowBits` and `deflate` and `inflate` to
      the end produce -/
  deflate : Int → List UInt8 → List UInt8
  inflate : Int → List UInt8 → Option (List UInt8)
  /-- the first bytes are the header of a zlib stream -/
  zlibHeader : List UInt8 → Bool
  adler32 : List UInt8 → UInt32
  crc32 : List UInt8 → UInt32

/-- The stream each encoder makes. -/
def Codec.encode (c : Codec) : CompressMethod → List UInt8 → List UInt8
  | .hw => c.encodeRaw
  | .sw => c.deflate (-maxWbits)

/-- A codec by its DOCA jobs, zlib making and taking the same streams where `windowBits` are negative. -/
def Codec.ofDoca (encode : List UInt8 → List UInt8) (decode : List UInt8 → Option (List UInt8)) : Codec where
  encodeRaw := encode
  inflateRaw := decode
  deflate _ := encode
  inflate windowBits stream := if windowBits < 0 then decode stream else none
  zlibHeader _ := false
  adler32 _ := 1
  crc32 _ := 0

/-- The calls of `compress_file` that do not depend on the bytes: its `calloc`, the first error of
    the DOCA calls that set up a job, and an error of the job other than one of its data; `beyond`
    is the memory behind the new buffer. -/
structure Calls where
  calloc : Bool := true
  setup : DocaError := .success
  job : DocaError := .success
  beyond : Nat → UInt8 := fun _ => 0

/-! ## The functions -/

/-- The size of the destination buffer `compress_file` allocates. -/
def dstBufSize (job : JobType) (fileSize : Nat) : Nat :=
  match job with
  | .compress => max (min (max (fileSize + 16) (fileSize * 2)) maxFileSize) minDstBufSize
  | .decompress => max (min maxFileSize (decompressRatio * fileSize)) minDstBufSize

/-- A stream put into the destination buffer, where it fits. -/
def emit (stream : List UInt8) (out : Output) : Option Output :=
  if stream.length ≤ out.buf.size then
    some { out with buf := { out.buf with bytes := stream }, len := stream.length }
  else none

/-- `avail_in` of a `z_stream` has 32 bits. -/
def availIn (data : List UInt8) : List UInt8 := data.take (data.length % 2 ^ 32)

/-- A stream of `n` bytes fits the buffer of its job. zlib's `deflate` with `Z_FINISH` returns `Z_OK`,
    and not `Z_STREAM_END`, where the stream leaves nothing of `avail_out`. -/
def HasRoom (job : JobType) (method : CompressMethod) (n room : Nat) : Prop :=
  n ≤ room ∧ (job = .compress → method = .sw → n ≠ room)

instance (job : JobType) (method : CompressMethod) (n room : Nat) : Decidable (HasRoom job method n room) := by
  unfold HasRoom
  exact inferInstance

variable (c : Codec)

/-- `calculate_checksum_sw` -/
def calculateChecksumSw (data : List UInt8) : Nat := (c.adler32 data).toNat * 2 ^ 32 + (c.crc32 data).toNat

/-- `decompress_file_sw`. After an error the buffer is as `calloc` left it: what `inflate` stored before
    is left out, here and in the checksum that `compress_file` takes of it. -/
def decompressFileSw (data : List UInt8) (out : Output) : DocaError × Output :=
  match (c.inflate maxWbits (availIn data)).bind fun stream => emit stream out with
  | none => (.badState, out)
  | some out => (.success, out)

/-- `compress_file_sw` -/
def compressFileSw (data : List UInt8) (out : Output) : DocaError × Output :=
  let stream := c.deflate (-maxWbits) (availIn data)
  if stream.length = out.buf.size then (.badState, out)
  else
    match emit stream out with
    | none => (.badState, out)
    | some out => (.success, out)

/-- What a DOCA job makes of its source: the stream, and the bytes its checksum is over. -/
def jobOutput (job : JobType) (data : List UInt8) : Option (List UInt8 × List UInt8) :=
  match job with
  | .compress => some (c.encode .hw data, data)
  | .decompress => (c.inflateRaw data).map fun d => (d, d)

/-- `compress_file_hw`. The source is no mapping of its own, so that `munmap` of it has no effect. -/
def compressFileHw (calls : Calls) (data : List UInt8) (job : JobType) (out : Output) : DocaError × Output :=
  if calls.setup ≠ .success then (calls.setup, out)
  else if calls.job ≠ .success then (calls.job, out)
  else
    match (jobOutput c job data).bind fun (stream, plain) =>
      (emit stream out).map fun out => { out with checksum := calculateChecksumSw c plain } with
    | none => (.ioFailed, out)
    | some out => (.success, out)

/-- `compress_file`; `len` and `checksum` are what its output arguments hold before the call. -/
def compressFile (calls : Calls) (data : List UInt8) (job : JobType) (method : CompressMethod) (len checksum : Nat) :
    DocaError × Output :=
  if calls.calloc = false then (.noMemory, ⟨⟨[], 0, calls.beyond⟩, len, checksum⟩)
  else
    let out : Output := ⟨⟨[], dstBufSize job data.length, calls.beyond⟩, len, checksum⟩
    match method, job with
    | .sw, .compress => compressFileSw c data { out with checksum := calculateChecksumSw c data }
    | .sw, .decompress =>
      let (result, out) := decompressFileSw c data out
      (result, { out with checksum := calculateChecksumSw c (out.buf.read 0 out.len) })
    | .hw, _ => compressFileHw c calls data job out

/-! ## Buffers, read -/

theorem Buf.length_read (b : Buf) (off n : Nat) : (b.read off n).length = n := by
  simp [Buf.read]

theorem Buf.get_eq {b : Buf} {i : Nat} (h : i < b.bytes.length) : b.get i = b.bytes[i] := by
  rw [Buf.get, if_pos h, List.getD_eq_getElem?_getD, List.getElem?_eq_getElem h, Option.getD_some]

/-- Inside the buffer, the bytes stored and then zeros -/
theorem Buf.read_eq_pad {b : Buf} {n : Nat} (h : n ≤ b.size) : b.read 0 n = Lib.pad 0 n b.bytes := by
  apply List.ext_getElem
  · rw [b.length_read, Lib.length_pad]
  · intro i hi _
    have hin : i < n := by rwa [b.length_read] at hi
    simp only [Buf.read, List.getElem_map, List.getElem_range, Nat.zero_add, Lib.pad]
    by_cases hb : i < b.bytes.length
    · rw [Buf.get_eq hb, List.getElem_append_left (by rw [List.length_take]; omega), List.getElem_take]
    · rw [Buf.get, if_neg hb, if_pos (by omega), List.getElem_append_right (by rw [List.length_take]; omega),
        List.getElem_replicate]

/-- The stored bytes, read back -/
theorem Buf.read_stored {b : Buf} (h : b.bytes.length ≤ b.size) : b.read 0 b.bytes.length = b.bytes := by
  rw [Buf.read_eq_pad h, Lib.pad_of_le (Nat.le_refl _), Nat.sub_self, List.replicate_zero, List.append_nil]

/-- Two reads in a row -/
theorem Buf.read_add (b : Buf) (off m n : Nat) : b.read off (m + n) = b.read off m ++ b.read (off + m) n := by
  simp only [Buf.read, List.range_add, List.map_append, List.map_map, List.append_cancel_left_eq]
  apply List.map_congr_left
  intro j _
  simp [Nat.add_assoc]

/-! ## One job -/

theorem dstBufSize_le (job : JobType) (n : Nat) : dstBufSize job n ≤ maxFileSize := by
  unfold dstBufSize maxFileSize minDstBufSize
  cases job <;> dsimp only <;> omega

theorem availIn_eq {data : List UInt8} (h : data.length ≤ maxFileSize) : availIn data = data := by
  unfold maxFileSize at h
  rw [availIn, Nat.mod_eq_of_lt (by omega), List.take_length]

variable {c : Codec} {calls : Calls} {data stream : List UInt8} {job : JobType} {method : CompressMethod} {len checksum : Nat}

theorem emit_eq (out : Output) (h : stream.length ≤ out.buf.size) :
    emit stream out = some { out with buf := { out.buf with bytes := stream }, len := stream.length } := if_pos h

/-- What a successful job leaves. -/
structure Emitted (c : Codec) (stream plain : List UInt8) (room : Nat) (out : Output) : Prop where
  bytes : out.buf.bytes = stream
  size : out.buf.size = room
  len : out.len = stream.length
  fits : stream.length ≤ room
  checksum : out.checksum = calculateChecksumSw c plain

theorem Emitted.read {stream plain : List UInt8} {room : Nat} {out : Output} (h : Emitted c stream plain room out) :
    out.buf.read 0 out.len = stream := by
  have hfit : out.buf.bytes.length ≤ out.buf.size := by
    rw [h.bytes, h.size]
    exact h.fits
  have hlen : out.len = out.buf.bytes.length := by
    rw [h.len, h.bytes]
  rw [hlen, Buf.read_stored hfit, h.bytes]

/-- The stream a compress job makes, and the bytes a decompress job does -/
def streamOf (c : Codec) (job : JobType) (method : CompressMethod) (data : List UInt8) : Option (List UInt8) :=
  match job, method with
  | .compress, .hw => some (c.encode .hw data)
  | .compress, .sw => some (c.deflate (-maxWbits) (availIn data))
  | .decompress, .hw => c.inflateRaw data
  | .decompress, .sw => c.inflate maxWbits (availIn data)

theorem streamOf_compress (m : CompressMethod) (h : data.length ≤ maxFileSize) :
    streamOf c .compress m data = some (c.encode m data) := by
  cases m with
  | hw => rfl
  | sw =>
    rw [streamOf, availIn_eq h]
    rfl

/-- The bytes the checksum of a job is over -/
def plainOf (job : JobType) (data stream : List UInt8) : List UInt8 :=
  match job with
  | .compress => data
  | .decompress => stream

/-- The job ends well if its calls do and its stream fits the buffer. -/
theorem compressFile_ok (len checksum : Nat) (hcalloc : calls.calloc = true) (hsetup : calls.setup = .success) (hjob : calls.job = .success)
    (hstream : streamOf c job method data = some stream)
    (hroom : HasRoom job method stream.length (dstBufSize job data.length)) :
    ∃ out, compressFile c calls data job method len checksum = (.success, out) ∧
      Emitted c stream (plainOf job data stream) (dstBufSize job data.length) out := by
  have hfit : stream.length ≤ dstBufSize job data.length := hroom.1
  unfold compressFile
  rw [if_neg (by rw [hcalloc]; decide)]
  cases method with
  | hw =>
    have hout : (jobOutput c job data).bind (fun p => (emit p.1
          ⟨⟨[], dstBufSize job data.length, calls.beyond⟩, len, checksum⟩).map fun out =>
            { out with checksum := calculateChecksumSw c p.2 }) =
        some ⟨⟨stream, dstBufSize job data.length, calls.beyond⟩, stream.length,
          calculateChecksumSw c (plainOf job data stream)⟩ := by
      cases job with
      | compress =>
        obtain rfl := Option.some.inj hstream
        simp only [jobOutput, Option.bind_some, emit_eq ⟨⟨[], dstBufSize .compress data.length, calls.beyond⟩,
          len, checksum⟩ hfit, Option.map_some, plainOf]
      | decompress =>
        have hstream' : c.inflateRaw data = some stream := hstream
        simp only [jobOutput, hstream', Option.map_some, Option.bind_some, plainOf, emit_eq ⟨⟨[],
          dstBufSize .decompress data.length, calls.beyond⟩, len, checksum⟩ hfit]
    refine ⟨⟨⟨stream, dstBufSize job data.length, calls.beyond⟩, stream.length,
      calculateChecksumSw c (plainOf job data stream)⟩, ?_, ⟨rfl, rfl, rfl, hfit, rfl⟩⟩
    simp only [compressFileHw, hsetup, hjob, ne_eq, not_true_eq_false, if_false, hout]
  | sw =>
    cases job with
    | compress =>
      obtain rfl := Option.some.inj hstream
      refine ⟨⟨⟨_, dstBufSize .compress data.length, calls.beyond⟩, _, calculateChecksumSw c data⟩, ?_,
        ⟨rfl, rfl, rfl, hfit, rfl⟩⟩
      have hleft : (c.deflate (-maxWbits) (availIn data)).length ≠ dstBufSize .compress data.length := hroom.2 rfl rfl
      simp only [compressFileSw, if_neg hleft, emit_eq ⟨⟨[], dstBufSize .compress data.length, calls.beyond⟩,
        len, calculateChecksumSw c data⟩ hfit]
    | decompress =>
      have hstream' : c.inflate maxWbits (availIn data) = some stream := hstream
      refine ⟨⟨⟨stream, dstBufSize .decompress data.length, calls.beyond⟩, stream.length,
        calculateChecksumSw c stream⟩, ?_, ⟨rfl, rfl, rfl, hfit, rfl⟩⟩
      simp only [decompressFileSw, hstream', Option.bind_some, emit_eq ⟨⟨[], dstBufSize .decompress data.length,
        calls.beyond⟩, len, checksum⟩ hfit]
      rw [Buf.read_stored (b := ⟨stream, dstBufSize .decompress data.length, calls.beyond⟩) hfit]

theorem emit_cases {out out' : Output} (h : emit stream out = some out') :
    stream.length ≤ out.buf.size ∧
      out' = { out with buf := { out.buf with bytes := stream }, len := stream.length } := by
  unfold emit at h
  split at h
  · next hfit => exact ⟨hfit, (Option.some.inj h).symm⟩
  · cases h

/-- How `compress_file` ends: with the stream in its buffer, or with an error, an empty buffer and
    the length it was given. -/
inductive Compressed (c : Codec) (calls : Calls) (data : List UInt8) (job : JobType) (method : CompressMethod)
    (len : Nat) : DocaError × Output → Prop where
  | ok {stream : List UInt8} {out : Output} (hcalloc : calls.calloc = true)
      (hcalls : method = .hw → calls.setup = .success ∧ calls.job = .success)
      (hstream : streamOf c job method data = some stream)
      (hroom : HasRoom job method stream.length (dstBufSize job data.length))
      (hout : Emitted c stream (plainOf job data stream) (dstBufSize job data.length) out) :
      Compressed c calls data job method len (.success, out)
  | failed {result : DocaError} {out : Output} (hresult : result ≠ .success) (hbytes : out.buf.bytes = [])
      (hlen : out.len = len) (hsize : out.buf.size ≤ dstBufSize job data.length)
      (hbeyond : out.buf.beyond = calls.beyond) : Compressed c calls data job method len (result, out)

theorem compressFile_cases (c : Codec) (calls : Calls) (data : List UInt8) (job : JobType) (method : CompressMethod)
    (len checksum : Nat) :
    Compressed c calls data job method len (compressFile c calls data job method len checksum) := by
  unfold compressFile
  cases hcalloc : calls.calloc with
  | false =>
    rw [if_pos rfl]
    exact .failed (by decide) rfl rfl (Nat.zero_le _) rfl
  | true =>
    rw [if_neg (by decide)]
    cases method with
    | hw =>
      dsimp only
      unfold compressFileHw
      by_cases hsetup : calls.setup = .success
      · rw [if_neg (not_not_intro hsetup)]
        by_cases hjob : calls.job = .success
        · rw [if_neg (not_not_intro hjob)]
          split
          · exact .failed (by decide) rfl rfl (Nat.le_refl _) rfl
          · next out hout =>
            obtain ⟨⟨stream, plain⟩, hso, hemit⟩ := Option.bind_eq_some_iff.mp hout
            obtain ⟨out', hout', rfl⟩ := Option.map_eq_some_iff.mp hemit
            obtain ⟨hfit, rfl⟩ := emit_cases hout'
            have hstream : streamOf c job .hw data = some stream ∧ plain = plainOf job data stream := by
              cases job with
              | compress =>
                obtain ⟨rfl, rfl⟩ := Prod.mk.inj (Option.some.inj hso)
                exact ⟨rfl, rfl⟩
              | decompress =>
                obtain ⟨d, hd, heq⟩ := Option.map_eq_some_iff.mp hso
                obtain ⟨rfl, rfl⟩ := Prod.mk.inj heq
                exact ⟨hd, rfl⟩
            obtain ⟨hstream, rfl⟩ := hstream
            exact .ok hcalloc (fun _ => ⟨hsetup, hjob⟩) hstream ⟨hfit, fun _ h => by cases h⟩ ⟨rfl, rfl, rfl, hfit, rfl⟩
        · rw [if_pos hjob]
          exact .failed hjob rfl rfl (Nat.le_refl _) rfl
      · rw [if_pos hsetup]
        exact .failed hsetup rfl rfl (Nat.le_refl _) rfl
    | sw =>
      cases job with
      | compress =>
        dsimp only
        unfold compressFileSw
        dsimp only
        split
        · exact .failed (by decide) rfl rfl (Nat.le_refl _) rfl
        next hleft =>
        split
        · exact .failed (by decide) rfl rfl (Nat.le_refl _) rfl
        · next out hout =>
          obtain ⟨hfit, rfl⟩ := emit_cases hout
          exact .ok hcalloc (fun h => by cases h) rfl ⟨hfit, fun _ _ => hleft⟩ ⟨rfl, rfl, rfl, hfit, rfl⟩
      | decompress =>
        dsimp only
        unfold decompressFileSw
        split
        · refine .failed ?_ rfl rfl (Nat.le_refl _) rfl
          intro h
          cases h
        · next out hout =>
          obtain ⟨stream, hstream, hemit⟩ := Option.bind_eq_some_iff.mp hout
          obtain ⟨hfit, rfl⟩ := emit_cases hemit
          refine .ok hcalloc (fun h => by cases h) hstream ⟨hfit, fun h => by cases h⟩ ⟨rfl, rfl, rfl, hfit, ?_⟩
          dsimp only
          rw [Buf.read_stored (b := ⟨stream, dstBufSize .decompress data.length, calls.beyond⟩) hfit]
          rfl

end FlexBSO.Compress

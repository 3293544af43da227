import FlexBSO.Compress.Core

/- What one method compresses, another has to decompress: the four pairs
   compression_local_main.c offers. zlib is opened for zlib streams to decompress
   and for raw ones to compress. -/
namespace FlexBSO.Compress

/-- Decompressing by `m₂` exactly the output of a successful compression by `m₁` gives the content,
    its length and its checksum back, unless an allocation or a DOCA call fails. -/
def Interoperates (c : Codec) (m₁ m₂ : CompressMethod) (data : List UInt8) : Prop :=
  ∀ calls₁ calls₂ len₁ len₂ sum₁ sum₂ out₁, calls₂.calloc = true → calls₂.setup = .success → calls₂.job = .success →
    compressFile c calls₁ data .compress m₁ len₁ sum₁ = (.success, out₁) →
    ∃ out₂, compressFile c calls₂ (out₁.buf.read 0 out₁.len) .decompress m₂ len₂ sum₂ = (.success, out₂) ∧
      out₂.buf.read 0 out₂.len = data ∧ out₂.len = data.length ∧ out₂.checksum = out₁.checksum

/-- A raw stream of a content, as far as the decoders have to know: it decodes to the content, and
    does not begin with a zlib header, whose method 8 would be a block header with a padding bit set. -/
structure Codec.RawStream (c : Codec) (stream data : List UInt8) : Prop where
  inflate : c.inflateRaw stream = some data
  header : c.zlibHeader stream = false

/-- zlib's rule for `windowBits`: opened with positive ones, `inflate` takes zlib streams only. -/
def Codec.TakesZlib (c : Codec) : Prop := ∀ stream, c.zlibHeader stream = false → c.inflate maxWbits stream = none

variable {c : Codec} {m₁ m₂ : CompressMethod} {data : List UInt8}

/-- The methods interoperate if and only if the DOCA device decompresses: zlib is opened for zlib
    streams (`inflateInit2` with `MAX_WBITS`), which no compression makes. -/
theorem methods_interoperate (hzlib : c.TakesZlib) (hraw : c.RawStream (c.encode m₁ data) data)
    (hfit₁ : HasRoom .compress m₁ (c.encode m₁ data).length (dstBufSize .compress data.length))
    (hfit₂ : data.length ≤ dstBufSize .decompress (c.encode m₁ data).length) :
    Interoperates c m₁ m₂ data ↔ m₂ = .hw := by
  have hdata : data.length ≤ maxFileSize := Nat.le_trans hfit₂ (dstBufSize_le _ _)
  have henc : (c.encode m₁ data).length ≤ maxFileSize := Nat.le_trans hfit₁.1 (dstBufSize_le _ _)
  have hstream₁ := streamOf_compress (c := c) m₁ hdata
  constructor
  · intro h
    -- a compression that succeeds; zlib then finds no header
    obtain ⟨out₁, hrun₁, hout₁⟩ :=
      compressFile_ok 0 0 (show ({} : Calls).calloc = true from rfl) rfl rfl hstream₁ hfit₁
    obtain ⟨out₂, hrun₂, _⟩ := h {} {} 0 0 0 0 out₁ rfl rfl rfl hrun₁
    rw [hout₁.read] at hrun₂
    cases m₂ with
    | hw => rfl
    | sw =>
      have hcases := compressFile_cases c {} (c.encode m₁ data) .decompress .sw 0 0
      rw [hrun₂] at hcases
      cases hcases with
      | ok _ _ hstream _ _ =>
        have hnone : c.inflate maxWbits (c.encode m₁ data) = none := hzlib _ hraw.header
        rw [streamOf, availIn_eq henc, hnone] at hstream
        cases hstream
      | failed hresult _ _ _ _ => exact absurd rfl hresult
  · rintro rfl calls₁ calls₂ len₁ len₂ sum₁ sum₂ out₁ hcalloc hsetup hjob hrun₁
    have hcases := compressFile_cases c calls₁ data .compress m₁ len₁ sum₁
    rw [hrun₁] at hcases
    cases hcases with
    | ok _ _ hstream _ hout =>
      rw [hstream₁] at hstream
      obtain rfl := Option.some.inj hstream
      rw [hout.read]
      have hstream₂ : streamOf c .decompress .hw (c.encode m₁ data) = some data := hraw.inflate
      obtain ⟨out₂, hrun₂, hout₂⟩ := compressFile_ok len₂ sum₂ hcalloc hsetup hjob hstream₂
        ⟨hfit₂, fun h => by cases h⟩
      exact ⟨out₂, hrun₂, hout₂.read, hout₂.len, hout₂.checksum.trans hout.checksum.symm⟩
    | failed hresult _ _ _ _ => exact absurd rfl hresult

/-- Stored blocks: one block of at most 65535 bytes, as deflate writes what it cannot compress. -/
def storedBlock (data : List UInt8) : List UInt8 :=
  0x01 :: UInt8.ofNat data.length :: UInt8.ofNat (data.length / 256) :: ~~~UInt8.ofNat data.length ::
    ~~~UInt8.ofNat (data.length / 256) :: data

/-- The header of a zlib stream: compression method 8, a window of at most 32K, the check bits, no
    preset dictionary. -/
def deflateHeader : List UInt8 → Bool
  | cmf :: flg :: _ =>
    cmf.toNat % 16 == 8 && decide (cmf.toNat / 16 ≤ 7) && (cmf.toNat * 256 + flg.toNat) % 31 == 0 &&
      flg.toNat / 32 % 2 == 0
  | _ => false

/-- An encoder of stored blocks, with streams that zlib takes as they are or behind a header. -/
def storedCodec : Codec where
  encodeRaw := storedBlock
  inflateRaw stream := if storedBlock (stream.drop 5) = stream then some (stream.drop 5) else none
  deflate windowBits data := if windowBits < 0 then storedBlock data else 0x78 :: 0x9C :: storedBlock data
  inflate windowBits stream :=
    if windowBits < 0 then (if storedBlock (stream.drop 5) = stream then some (stream.drop 5) else none)
    else if deflateHeader stream then
      (if storedBlock (stream.drop 7) = stream.drop 2 then some (stream.drop 7) else none)
    else none
  zlibHeader := deflateHeader
  adler32 data := data.foldl (fun sum x => sum + x.toUInt32) 1
  crc32 data := data.foldl (fun sum x => sum ^^^ x.toUInt32) 0

theorem takesZlib_storedCodec : storedCodec.TakesZlib := by
  intro stream h
  have hheader : deflateHeader stream = false := h
  have hpos : ¬ maxWbits < 0 := by decide
  simp only [storedCodec, if_neg hpos, hheader]
  rfl

theorem methods_interoperate_stored :
    (Interoperates storedCodec .sw .hw [0x61, 0x62] ↔ CompressMethod.hw = .hw) ∧
      (Interoperates storedCodec .sw .sw [0x61, 0x62] ↔ CompressMethod.sw = .hw) := by
  have hraw : storedCodec.RawStream (storedCodec.encode .sw [0x61, 0x62]) [0x61, 0x62] := ⟨by decide, by decide⟩
  exact ⟨methods_interoperate takesZlib_storedCodec hraw (by decide) (by decide), methods_interoperate takesZlib_storedCodec hraw (by decide) (by decide)⟩

/-- What zlib compresses, zlib does not decompress. -/
theorem zlib_not_own_stream : storedCodec.inflateRaw (storedCodec.encode .sw [0x61, 0x62]) = some [0x61, 0x62] ∧
    ¬ Interoperates storedCodec .sw .sw [0x61, 0x62] := by
  refine ⟨by decide, ?_⟩
  intro h
  have hrun : ∃ out, compressFile storedCodec {} [0x61, 0x62] .compress .sw 0 0 = (.success, out) ∧
      out.buf.read 0 out.len = storedBlock [0x61, 0x62] := by
    refine ⟨_, rfl, ?_⟩
    decide +kernel
  obtain ⟨out₁, hrun₁, hread⟩ := hrun
  obtain ⟨out₂, hrun₂, _⟩ := h {} {} 0 0 0 0 out₁ rfl rfl rfl hrun₁
  rw [hread] at hrun₂
  have hbad : (compressFile storedCodec {} (storedBlock [0x61, 0x62]) .decompress .sw 0 0).1 = .badState := by
    decide +kernel
  rw [hrun₂] at hbad
  cases hbad

end FlexBSO.Compress

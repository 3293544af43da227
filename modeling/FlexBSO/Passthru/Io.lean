import FlexBSO.Compress.Core

/- The compressing vbdev: `vbdev_passthru_submit_request` for writes and
   `_pt_complete_io` for reads, over the iovecs of the request. An iovec is its bytes;
   the bytes of all of them are the `num_blocks * blocklen` bytes of the request.
   `do_compress` is true throughout and `match_checksum` false. A copy that leaves
   the iovec it writes or the buffer it reads is recorded, and takes what memory
   holds there. -/
namespace FlexBSO.Passthru

open Compress

def ENOMEM : Int := 12

/-- `enum spdk_bdev_io_status`, as far as the vbdev sets it -/
inductive IoStatus where
  | success | failed
  deriving DecidableEq, Repr

/-- Conversion of a `size_t` to `int` -/
def toInt (n : Nat) : Int := Int.bmod n (2 ^ 32)

/-- The bytes of the request -/
def dataSize (iovs : List (List UInt8)) : Nat := (iovs.map List.length).sum

/-- All iovecs gathered in one buffer; a single one is taken as it is. -/
def gather (iovs : List (List UInt8)) : List UInt8 :=
  match iovs with
  | [iov] => iov
  | _ => iovs.foldl (fun data iov => data ++ iov) []

/-! ## Copies into iovecs -/

/-- An iovec after `memset` to zero and `memcpy` of bytes of a buffer into it. -/
structure Copied where
  iov : List UInt8
  /-- more bytes were copied than the iovec has -/
  overrun : Bool
  /-- bytes behind the buffer were read -/
  overread : Bool
  deriving DecidableEq, Repr

/-- `memset(iov_base, 0, iov_len)` and `memcpy(iov_base, buf + off, n)` -/
def fillIov (buf : Buf) (off n : Nat) (iov : List UInt8) : Copied where
  iov := buf.read off (min n iov.length) ++ List.replicate (iov.length - n) 0
  overrun := decide (iov.length < n)
  overread := decide (0 < n ∧ buf.size < off + n)

/-- The loop that spreads the encoding over several iovecs; `rest` bytes are left, from `off` on. -/
def scatterCompressed (buf : Buf) : List (List UInt8) → Nat → Nat → List Copied
  | [], _, _ => []
  | iov :: iovs, off, rest =>
    if iov.length < rest then
      fillIov buf off iov.length iov :: scatterCompressed buf iovs (off + iov.length) (rest - iov.length)
    else fillIov buf off rest iov :: scatterCompressed buf iovs (off + 0) 0

/-- The loop that spreads the decoded bytes over several iovecs: it fills each of them. -/
def scatterDecompressed (buf : Buf) : List (List UInt8) → Nat → List Copied
  | [], _ => []
  | iov :: iovs, off => fillIov buf off iov.length iov :: scatterDecompressed buf iovs (off + iov.length)

/-! ## Writes -/

/-- What one call of `vbdev_passthru_submit_request` gets from the calls it makes: those of
    `compress_file`, what `compressed_file_len` holds before, the result of
    `spdk_bdev_writev_blocks`, and that of `spdk_bdev_queue_io_wait`. -/
structure Attempt where
  calls : Calls := {}
  len : Nat := 0
  rc : Int := 0
  queueRc : Int := 0

/-- The write request's iovecs with the encoding of their bytes in place of these. -/
def compressIovs (c : Codec) (a : Attempt) (iovs : List (List UInt8)) : DocaError × List Copied :=
  let (result, out) := compressFile c a.calls (gather iovs) .compress .hw a.len 0
  match iovs with
  | [iov] => (result, [fillIov out.buf 0 out.len iov])
  | _ => (result, scatterCompressed out.buf iovs 0 out.len)

/-- Where a write request is. -/
inductive Submitted where
  /-- the base bdev took it with these iovecs -/
  | accepted (iovs : List (List UInt8))
  /-- it waits to be submitted again -/
  | queued (iovs : List (List UInt8))
  /-- it was completed with `SPDK_BDEV_IO_STATUS_FAILED` -/
  | failed
  deriving DecidableEq, Repr

/-- A write request after some calls of the submit function: where it is, the results of its
    compression jobs and the copies they made. -/
structure WriteRun where
  submitted : Submitted
  results : List DocaError
  copies : List Copied
  deriving DecidableEq, Repr

/-- `vbdev_passthru_submit_request` of a write, and, after each `-ENOMEM`, of the queued request
    again: one attempt a call. -/
def submitWrite (c : Codec) : List Attempt → List (List UInt8) → WriteRun
  | [], iovs => ⟨.queued iovs, [], []⟩
  | a :: rest, iovs =>
    let (result, copies) := compressIovs c a iovs
    let iovs := copies.map (·.iov)
    if a.rc = 0 then ⟨.accepted iovs, [result], copies⟩
    else if a.rc = -ENOMEM ∧ a.queueRc = 0 then
      let run := submitWrite c rest iovs
      ⟨run.submitted, result :: run.results, copies ++ run.copies⟩
    else ⟨.failed, [result], copies⟩

/-- The status a write request is completed with, once it is: an accepted one with that of the base
    bdev. -/
def writeStatus (run : WriteRun) (success : Bool) : Option IoStatus :=
  match run.submitted with
  | .accepted _ => some (if success then .success else .failed)
  | .queued _ => none
  | .failed => some .failed

/-! ## Reads -/

/-- The inner loop that trims one iovec: `i` is one more than the index it looks at. -/
def trimIov (iov : List UInt8) : Nat → Nat
  | 0 => 0
  | i + 1 => if iov.getD i 0 = 0 then trimIov iov i + 1 else 0

/-- How many null characters the loops trim off an iovec. -/
def trimmed (iov : List UInt8) : Nat := trimIov iov (toInt (iov.length + (2 ^ 64 - 1)) + 1).toNat

/-- `compressed_file_len` after the trimming loops, which start at the last iovec. -/
def compressedFileLen (iovs : List (List UInt8)) : Nat :=
  iovs.foldr (fun iov len => len - trimmed iov) (dataSize iovs)

/-- What the decompression of a read gets from the calls it makes, what `decompressed_file_len`
    holds before, and what memory holds behind a first iovec of length zero. -/
structure ReadCalls where
  calls : Calls := {}
  len : Nat := 0
  first : UInt8 := 0

/-- The first character of the first iovec -/
def firstChar (r : ReadCalls) (iovs : List (List UInt8)) : UInt8 := (iovs.headD []).headD r.first

/-- A completed read: its status, the result of the decompression where there was one, the copies
    made, and the bytes in the caller's iovecs. -/
structure ReadRun where
  status : IoStatus
  result : Option DocaError
  copies : List Copied
  iovs : List (List UInt8)
  deriving DecidableEq, Repr

/-- The read request's iovecs with the decoded bytes in place of theirs. -/
def decompressIovs (c : Codec) (r : ReadCalls) (iovs : List (List UInt8)) : DocaError × List Copied :=
  let data := (gather iovs).take (compressedFileLen iovs)
  let (result, out) := compressFile c r.calls data .decompress .hw r.len 0
  match iovs with
  | [iov] => (result, [fillIov out.buf 0 out.len iov])
  | _ => (result, scatterDecompressed out.buf iovs 0)

/-- `_pt_complete_io` of a read, with the bytes the base bdev put into the iovecs. -/
def ptCompleteRead (c : Codec) (r : ReadCalls) (success : Bool) (iovs : List (List UInt8)) : ReadRun :=
  let status := if success then .success else .failed
  if firstChar r iovs = 0 then ⟨status, none, [], iovs⟩
  else
    let (result, copies) := decompressIovs c r iovs
    ⟨status, some result, copies, copies.map (·.iov)⟩

end FlexBSO.Passthru

import FlexBSO.Raid5f.State

/- The functions of raid5f.c, each run up to its next call into another layer, and
   the machine they make (`step`). An event is one function of the thread going on
   (`call`, with what the layers below answer), or something the environment does:
   a request submitted, a base bdev or the accel framework moving data, a completion
   callback, an io-wait entry called back. Callbacks are delivered by the poller, so
   only when the thread has nothing to run; requests may also be submitted from the
   completion callback of another one. `none` is what the source leaves undefined:
   an I/O on a channel that is `NULL`, a scatter list read past its end. -/
namespace FlexBSO.Raid5f
open FlexBSO.Lib

/-- What the layers below answer in one step: the return code of the submission
    made, if any, whether `realloc` succeeds for a chunk, and whether `rand` hits. -/
structure Answer where
  rc : Int
  alloc : Nat → Bool
  poison : Bool

/-- `a - b` in `uint64_t` -/
def sub64 (a b : Nat) : Nat := (a + 2 ^ 64 - b % 2 ^ 64) % 2 ^ 64

section functions
variable (c : RaidChannel)

/-! ## bdev_raid.c -/

/-- `raid_bdev_io_complete`: the upper layer's callback runs next. -/
def raidBdevIoComplete (s : State) (io : Nat) (status : IoStatus) : State :=
  (s.setIo io fun x => { x with completions := x.completions ++ [status] }).push (.userCb io)

/-- `raid_bdev_io_complete_part`; `onDone` is what the caller does when it returns true. -/
def raidBdevIoCompletePart (s : State) (io completed : Nat) (status : IoStatus) (onDone : List Call) :
    State :=
  let remaining := sub64 (s.ios io).baseBdevIoRemaining completed
  let status := if status ≠ .success then status else (s.ios io).baseBdevIoStatus
  let s := s.setIo io fun x => { x with baseBdevIoRemaining := remaining, baseBdevIoStatus := status }
  if remaining = 0 then raidBdevIoComplete (s.pushAll onDone) io status else s

/-- `raid_bdev_queue_io_wait` -/
def raidBdevQueueIoWait (s : State) (io : Nat) (cb : WaitCb) : State :=
  s.setIo io fun x => { x with waits := x.waits ++ [cb] }

/-! ## Stripe requests -/

/-- `raid5f_stripe_request_release` -/
def stripeRequestRelease (s : State) (r : Nat) : State :=
  s.setCh fun ch => match (s.reqs r).type with
    | .write => { ch with freeWrite := r :: ch.freeWrite }
    | .reconstruct => { ch with freeReconstruct := r :: ch.freeReconstruct }

/-- `raid5f_stripe_request_init` -/
def stripeRequestInit (s : State) (r io stripeIndex : Nat) : State :=
  s.setReq r fun q =>
    { q with
      raidIo := io
      stripeIndex := stripeIndex
      parityChunk := c.stripeParityChunkIndex stripeIndex
      poisoned := false
      xorCalls := 0
      xorCbRuns := 0 }

/-- The loop of `raid5f_stripe_request_submit_chunks` from a chunk on. -/
def submitChunksFrom (r k : Nat) : List Call :=
  if k < c.numBaseBdevs then [.submitChunks r k] else []

/-- `raid5f_stripe_request_submit_chunks` -/
def stripeRequestSubmitChunks (s : State) (r : Nat) : State :=
  s.pushAll (submitChunksFrom c r (s.ios (s.reqs r).raidIo).baseBdevIoSubmitted)

/-- `raid5f_chunk_set_iovcnt`; `none` is `-ENOMEM`. -/
def chunkSetIovcnt (ck : Chunk) (iovcnt : Nat) (alloc : Bool) : Option Chunk :=
  if ck.iovcntMax < iovcnt then
    if alloc then some { ck with iovcntMax := iovcnt } else none
  else some ck

/-! ## XOR -/

/-- `raid5f_stripe_write_request_xor_done` -/
def stripeWriteRequestXorDone (s : State) (r : Nat) (status : Int) : State :=
  if status ≠ 0 then
    raidBdevIoComplete (stripeRequestRelease s r) (s.reqs r).raidIo .failed
  else stripeRequestSubmitChunks c s r

/-- `raid5f_stripe_request_reconstruct_xor_done` -/
def stripeRequestReconstructXorDone (s : State) (r : Nat) (status : Int) : State :=
  raidBdevIoCompletePart (stripeRequestRelease s r) (s.reqs r).raidIo 1
    (if status = 0 then .success else .failed) []

/-- `raid5f_xor_stripe_done`: `xor.cb`, then the retry queue. -/
def xorStripeDone (s : State) (r : Nat) : State :=
  let s := (s.push .xorRetryQueuePop).setReq r fun q => { q with xorCbRuns := q.xorCbRuns + 1 }
  match (s.reqs r).xorCb with
  | .writeRequestXorDone => stripeWriteRequestXorDone c s r (s.reqs r).xorStatus
  | .reconstructXorDone => stripeRequestReconstructXorDone s r (s.reqs r).xorStatus

/-- The end of `raid5f_xor_stripe_done` with `raid5f_xor_stripe_retry`. -/
def xorRetryQueuePop (s : State) : State :=
  match s.ch.xorRetryQueue with
  | [] => s
  | r :: rest =>
    let s := s.setCh fun ch => { ch with xorRetryQueue := rest }
    if (s.reqs r).xorRemainingMd ≠ 0 then s.push (.xorStripe r (s.reqs r).xorCb)
    else s.push (.xorStripeContinue r)

def xorRetryQueueInsert (s : State) (r : Nat) : State :=
  s.setCh fun ch => { ch with xorRetryQueue := r :: ch.xorRetryQueue }

/-- `raid5f_xor_stripe_continue` -/
def xorStripeContinue (s : State) (r : Nat) (a : Answer) : State :=
  let srcs := s.ch.chunkXorBuffers.take c.stripeDataChunksNum
  let dst := s.ch.chunkXorBuffers.getD c.stripeDataChunksNum NULL
  let s := s.setReq r fun q => { q with chunkXorBuffers := srcs }
  if a.rc = 0 then
    s.setReq r fun q => { q with dataXors := q.dataXors ++ [⟨dst, srcs, q.xorLen, false⟩] }
  else if a.rc = -ENOMEM then xorRetryQueueInsert s r
  else (s.setReq r fun q => { q with xorStatus := a.rc }).push (.xorStripeDone r)

/-- Chunk a stripe request's XOR is stored to: the parity or the one to reconstruct. -/
def StripeRequest.destChunk (q : StripeRequest) : Nat :=
  match q.type with
  | .write => q.parityChunk
  | .reconstruct => q.reconstructChunk

/-- Its sources, in index order. -/
def srcChunks (q : StripeRequest) : List Nat := others q.destChunk c.chunkIndices

/-- `num_blocks` of `raid5f_xor_stripe` -/
def xorNumBlocks (s : State) (r : Nat) : Nat :=
  match (s.reqs r).type with
  | .write => c.stripSize
  | .reconstruct => (s.ios (s.reqs r).raidIo).numBlocks

/-- `spdk_ioviter_nextv` into the buffers of the channel, for stripe request `r`. It is SPDK's, documented
    to hand out the longest segment that lies in one piece in every list, which `nextv_spec` leaves no
    choice about. -/
def ioviterNextv (s : State) (r : Nat) (its : List (List IoVec)) : State :=
  match nextv NULL its with
  | none => s.setReq r fun q => { q with xorLen := 0, chunkIovIters := its }
  | some (len, out, its') =>
    (s.setReq r fun q => { q with xorLen := len, chunkIovIters := its' }).setCh fun ch =>
      { ch with chunkXorBuffers := out, chunkXorOwner := some r }

/-- `raid5f_xor_stripe` up to the metadata: the scatter lists and their first segment. -/
def xorStripeFirst (s : State) (r : Nat) (cb : XorCb) : State :=
  let q := s.reqs r
  let remaining := xorNumBlocks c s r <<< c.blocklenShift
  let its := (srcChunks c q ++ [q.destChunk]).map fun i => (q.chunks i).iovs
  (ioviterNextv (s.setCh fun ch => { ch with chunkXorIovs := its }) r its).setReq r fun q =>
    { q with xorRemaining := remaining, xorStatus := 0, xorCb := cb }

/-- The metadata XOR of `raid5f_xor_stripe`, of `len` bytes. -/
def xorStripeMd (s : State) (r len : Nat) (a : Answer) : State :=
  let srcs := (srcChunks c (s.reqs r)).map fun i => ((s.reqs r).chunks i).mdBuf
  let dst := ((s.reqs r).chunks (s.reqs r).destChunk).mdBuf
  let s := s.setReq r fun q => { q with xorRemainingMd := len, chunkXorMdBuffers := srcs }
  if a.rc = 0 then
    (s.setReq r fun q => { q with mdXors := q.mdXors ++ [⟨dst, srcs, len, false⟩] }).push (.xorStripeContinue r)
  else if a.rc = -ENOMEM then xorRetryQueueInsert s r
  else (s.setReq r fun q => { q with xorStatus := a.rc }).push (.xorStripeDone r)

/-- `raid5f_xor_stripe` -/
def xorStripe (s : State) (r : Nat) (cb : XorCb) (a : Answer) : State :=
  if (s.ios (s.reqs r).raidIo).mdBuf ≠ NULL then
    xorStripeMd c (xorStripeFirst c s r cb) r (xorNumBlocks c s r * c.mdSize) a
  else (xorStripeFirst c s r cb).push (.xorStripeContinue r)

/-- `_raid5f_xor_stripe_cb` -/
def xorStripeCbTail (s : State) (r : Nat) (status : Int) : State :=
  let s := if status ≠ 0 then s.setReq r fun q => { q with xorStatus := status } else s
  if ((s.reqs r).xorRemaining + (s.reqs r).xorRemainingMd) % 2 ^ 64 = 0 then s.push (.xorStripeDone r) else s

/-- `raid5f_xor_stripe_cb` -/
def xorStripeCb (s : State) (r : Nat) (status : Int) : State :=
  let s := s.setReq r fun q => { q with xorRemaining := sub64 q.xorRemaining q.xorLen }
  if 0 < (s.reqs r).xorRemaining then
    ((ioviterNextv s r (s.reqs r).chunkIovIters).push (.xorStripeCbTail r status)).push (.xorStripeContinue r)
  else xorStripeCbTail s r status

/-- `raid5f_xor_stripe_md_cb` -/
def xorStripeMdCb (s : State) (r : Nat) (status : Int) : State :=
  xorStripeCbTail (s.setReq r fun q => { q with xorRemainingMd := 0 }) r status

/-! ## Chunk I/O -/

/-- `raid5f_stripe_request_chunk_write_complete` -/
def stripeRequestChunkWriteComplete (s : State) (r : Nat) (status : IoStatus) : State :=
  raidBdevIoCompletePart s (s.reqs r).raidIo 1 status [.stripeRequestRelease r]

/-- `raid5f_stripe_request_chunk_read_complete` -/
def stripeRequestChunkReadComplete (s : State) (r : Nat) (status : IoStatus) : State :=
  let io := (s.reqs r).raidIo
  if (s.ios io).baseBdevIoRemaining = 1 then
    if (s.ios io).baseBdevIoStatus = .success ∧ status = .success then
      (s.setReq r fun q => { q with xorCalls := q.xorCalls + 1 }).push (.xorStripe r .reconstructXorDone)
    else raidBdevIoCompletePart (stripeRequestRelease s r) io 1 status []
  else raidBdevIoCompletePart s io 1 status []

/-- `raid5f_chunk_complete_bdev_io` -/
def chunkCompleteBdevIo (s : State) (r : Nat) (success : Bool) : State :=
  let status := if success then IoStatus.success else .failed
  let s := { s with freed := s.freed + 1 }
  match (s.reqs r).type with
  | .write => stripeRequestChunkWriteComplete s r status
  | .reconstruct => stripeRequestChunkReadComplete s r status

/-- The part of `raid5f_chunk_submit` after a submission that returned `ret`; `next` is what
    the caller does when it returns 0. -/
def chunkSubmitDone (s : State) (r : Nat) (child : Nat × Child) (ret : Int) (next : List Call) : State :=
  let q := s.reqs r
  let io := q.raidIo
  if ret = 0 then (s.setReq r fun q => { q with children := q.children ++ [child] }).pushAll next
  else
    let s := s.setIo io fun x => { x with baseBdevIoSubmitted := x.baseBdevIoSubmitted - 1 }
    if ret = -ENOMEM then raidBdevQueueIoWait s io .chunkSubmitRetry
    else
      let chunks := match q.type with
        | .write => c.numBaseBdevs
        | .reconstruct => c.stripeDataChunksNum
      raidBdevIoCompletePart s io (chunks - (s.ios io).baseBdevIoSubmitted) .failed [.stripeRequestRelease r]

/-- The poisoning in `raid5f_chunk_submit`: the first byte of the chunk is spoiled, once. -/
def poisonChunk (s : State) (r k : Nat) (poison : Bool) : State :=
  let p := headPtr NULL ((s.reqs r).chunks k).iovs
  if (s.reqs r).poisoned = false ∧ poison = true then
    (s.setReq r fun q => { q with poisoned := true }).setMem (Function.update s.mem p (s.mem p ^^^ 1))
  else s

/-- `raid5f_chunk_submit` -/
def chunkSubmit (s : State) (r k : Nat) (a : Answer) (next : List Call) : Option State :=
  let q := s.reqs r
  let ck := q.chunks k
  let base := c.baseOffsetBlocks q.stripeIndex 0
  let s := s.setIo q.raidIo fun x => { x with baseBdevIoSubmitted := x.baseBdevIoSubmitted + 1 }
  match q.type with
  | .write =>
    if c.baseChannel k = false then some (raidBdevIoCompletePart (s.pushAll next) q.raidIo 1 .success [])
    else
      some (chunkSubmitDone c (poisonChunk s r k a.poison) r
        (k, ⟨.write, k, ck.iovs, base, c.stripSize, ck.mdBuf, false⟩) a.rc next)
  | .reconstruct =>
    if k = q.reconstructChunk then some (raidBdevIoCompletePart (s.pushAll next) q.raidIo 1 .success [])
    else if c.baseChannel k = false then none
    else
      some (chunkSubmitDone c s r (k, ⟨.read, k, ck.iovs, base + q.reconstructChunkOffset,
        (s.ios q.raidIo).numBlocks, ck.mdBuf, false⟩) a.rc next)

/-- One turn of the loop of `raid5f_stripe_request_submit_chunks`. -/
def submitChunks (s : State) (r k : Nat) (a : Answer) : Option State :=
  chunkSubmit c s r k a (submitChunksFrom c r (k + 1))

/-! ## Writes -/

/-- Where `raid5f_stripe_request_map_iovecs` stands in the request's iovecs:
    `raid_io_iov_idx`, `raid_io_offset` and `raid_io_iov_offset`. -/
structure MapPos where
  iovIdx : Nat
  offset : Nat
  iovOffset : Nat

/-- The first inner loop: how many iovecs a chunk needs, from `off` up to `lim`. -/
def mapCount : List IoVec → (off lim : Nat) → Nat
  | [], _, _ => 0
  | v :: vs, off, lim => if lim ≤ off + v.len then 1 else mapCount vs (off + v.len) lim + 1

/-- The second inner loop: the chunk's iovecs, `len` bytes of it still to map. -/
def mapFill (iovs : List IoVec) : (cnt : Nat) → MapPos → (len : Nat) → Option (List IoVec × MapPos × Nat)
  | 0, p, len => some ([], p, len)
  | cnt + 1, p, len => do
    let v ← iovs[p.iovIdx]?
    let chunkIovOffset := p.offset - p.iovOffset
    let l := min len (v.len - chunkIovOffset)
    let q : MapPos := if p.iovOffset + v.len ≤ p.offset + l then ⟨p.iovIdx + 1, p.offset + l, p.iovOffset + v.len⟩
      else ⟨p.iovIdx, p.offset + l, p.iovOffset⟩
    let (rest, q, left) ← mapFill iovs cnt q (len - l)
    some (⟨v.base.add chunkIovOffset, l⟩ :: rest, q, left)

/-- The loop over the data chunks of `raid5f_stripe_request_map_iovecs`. -/
def mapChunks (io : RaidIo) (alloc : Nat → Bool) :
    List Nat → MapPos → (Nat → Chunk) → Option ((Nat → Chunk) × Int)
  | [], _, cs => some (cs, 0)
  | i :: rest, p, cs =>
    let len := c.stripSize <<< c.blocklenShift
    let cnt := mapCount (io.iovs.drop p.iovIdx) p.iovOffset (p.offset + len)
    match chunkSetIovcnt (cs i) cnt (alloc i) with
    | none => some (cs, -ENOMEM)
    | some ck => do
      let mdBuf := if io.mdBuf ≠ NULL then io.mdBuf.add ((p.offset >>> c.blocklenShift) * c.mdSize) else ck.mdBuf
      let (iovs, q, left) ← mapFill io.iovs cnt p len
      let cs := Function.update cs i { ck with iovs := iovs, mdBuf := mdBuf }
      if 0 < left then some (cs, -EINVAL) else mapChunks io alloc rest q cs

/-- `raid5f_stripe_request_map_iovecs` -/
def stripeRequestMapIovecs (s : State) (r : Nat) (a : Answer) : Option (State × Int) := do
  let q := s.reqs r
  let io := s.ios q.raidIo
  let (cs, ret) ← mapChunks c io a.alloc (others q.parityChunk c.chunkIndices) ⟨0, 0, 0⟩ q.chunks
  if ret ≠ 0 then some (s.setReq r fun q => { q with chunks := cs }, ret)
  else
    let parity := { cs q.parityChunk with
      iovs := [⟨⟨.parity r, 0⟩, c.stripSize <<< c.blocklenShift⟩]
      mdBuf := if c.mdSize ≠ 0 then ⟨.parityMd r, 0⟩ else NULL }
    some (s.setReq r fun q => { q with chunks := Function.update cs q.parityChunk parity }, 0)

/-- `raid5f_submit_write_request` -/
def submitWriteRequest (s : State) (io stripeIndex : Nat) (a : Answer) : Option (State × Int) :=
  match s.ch.freeWrite with
  | [] => some (s, -ENOMEM)
  | r :: rest => do
    let (s, ret) ← stripeRequestMapIovecs c (stripeRequestInit c s r io stripeIndex) r a
    if ret ≠ 0 then some (s, ret)
    else
      let s := s.setCh fun ch => { ch with freeWrite := rest }
      let s := s.setIo io fun x => { x with modulePrivate := some r, baseBdevIoRemaining := c.numBaseBdevs }
      if c.baseChannel (s.reqs r).parityChunk then
        some ((s.setReq r fun q => { q with xorCalls := q.xorCalls + 1 }).push
          (.xorStripe r .writeRequestXorDone), 0)
      else some (stripeWriteRequestXorDone c s r 0, 0)

/-! ## Reads -/

/-- The loop over the chunks in `raid5f_submit_reconstruct_read`: chunk `i` when it is
    not the one to reconstruct. -/
def reconstructSource (io : RaidIo) (r chunkIdx i : Nat) (ck : Chunk) : Chunk :=
  let bufIdx := if i < chunkIdx then i else i - 1
  { ck with
    iovs := [⟨⟨.chunk r bufIdx, 0⟩, io.numBlocks <<< c.blocklenShift⟩]
    mdBuf := if io.mdBuf ≠ NULL then ⟨.chunkMd r bufIdx, 0⟩ else ck.mdBuf }

/-- `raid5f_submit_reconstruct_read` -/
def submitReconstructRead (s : State) (io stripeIndex chunkIdx chunkOffset : Nat) (readIovs : List IoVec)
    (a : Answer) : State × Int :=
  match s.ch.freeReconstruct with
  | [] => (s, -ENOMEM)
  | r :: rest =>
    let x := s.ios io
    let s := (stripeRequestInit c s r io stripeIndex).setReq r fun q =>
      { q with
        reconstructChunk := chunkIdx
        reconstructChunkOffset := chunkOffset
        savedIovs := if readIovs ≠ [] then readIovs else q.savedIovs }
    let cs := (s.reqs r).chunks
    match chunkSetIovcnt (cs chunkIdx) x.iovs.length (a.alloc chunkIdx) with
    | none =>
      (s.setReq r fun q =>
        { q with chunks := fun i => if i < chunkIdx then reconstructSource c x r chunkIdx i (cs i) else cs i },
        -ENOMEM)
    | some ck =>
      let s := s.setReq r fun q =>
        { q with chunks := fun i => if i = chunkIdx then { ck with iovs := x.iovs, mdBuf := x.mdBuf }
          else reconstructSource c x r chunkIdx i (cs i) }
      let s := s.setIo io fun x => { x with modulePrivate := some r, baseBdevIoRemaining := c.numBaseBdevs }
      let s := s.setCh fun ch => { ch with freeReconstruct := rest }
      (stripeRequestSubmitChunks c s r, 0)

/-- `raid5f_chunk_read_complete` -/
def chunkReadComplete (s : State) (io : Nat) (arg : ReadCbArg) (child : Child) (success : Bool) (a : Answer) :
    State :=
  if success = false then raidBdevIoComplete s io .failed
  else
    -- the return value of raid5f_submit_reconstruct_read is dropped
    let s := (submitReconstructRead c s io arg.stripeIndex (c.chunkIdx arg.stripeIndex arg.stripeOffset)
      (c.chunkOffset arg.stripeOffset) child.iovs a).1
    { s with freed := s.freed + 1 }

/-- `raid5f_submit_read_request` -/
def submitReadRequest (s : State) (io stripeIndex stripeOffset : Nat) (a : Answer) : State × Int :=
  let x := s.ios io
  let chunkIdx := c.chunkIdx stripeIndex stripeOffset
  let chunkOffset := c.chunkOffset stripeOffset
  if c.baseChannel chunkIdx = false then submitReconstructRead c s io stripeIndex chunkIdx chunkOffset [] a
  else
    let child : Child := ⟨.read, chunkIdx, x.iovs, c.baseOffsetBlocks stripeIndex chunkOffset, x.numBlocks,
      x.mdBuf, false⟩
    if a.rc = 0 then
      (s.setIo io fun x => { x with reads := x.reads ++ [(⟨stripeIndex, stripeOffset⟩, child)] }, 0)
    else if a.rc = -ENOMEM then (raidBdevQueueIoWait s io .submitRwRequest, 0)
    else (s, a.rc)

/-- `raid5f_submit_rw_request` -/
def submitRwRequest (s : State) (io : Nat) (a : Answer) : Option State :=
  let x := s.ios io
  let stripeIndex := x.offsetBlocks / c.stripeBlocks
  let stripeOffset := x.offsetBlocks % c.stripeBlocks
  let submitted := match x.type with
    | .read => some (submitReadRequest c s io stripeIndex stripeOffset a)
    | .write => submitWriteRequest c s io stripeIndex a
  submitted.map fun (s, ret) =>
    if ret ≠ 0 then raidBdevIoComplete s io (if ret = -ENOMEM then .nomem else .failed) else s

/-! ## The layers below and above -/

/-- A base bdev moves the data of a child I/O, and its metadata. -/
def moveChild (s : State) (ch : Child) : State :=
  let len := ch.numBlocks * c.blocklen
  let off := c.byteOffset ch.bdev ch.offsetBlocks
  let mdLen := if ch.metadata = NULL then 0 else ch.numBlocks * c.mdSize
  let mdOff := (c.dataOffset ch.bdev + ch.offsetBlocks) * c.mdSize
  match ch.type with
  | .read =>
    let md := (List.range mdLen).map fun j => s.diskMd ch.bdev (mdOff + j)
    let data := (List.range len).map fun j => s.disk ch.bdev (off + j)
    s.setMem (store (store s.mem (ch.metadata.span mdLen) md) (addrs ch.iovs) data)
  | .write =>
    { s with
      disk := Function.update s.disk ch.bdev fun x =>
        if off ≤ x ∧ x < off + len then (((addrs ch.iovs)[x - off]?).map s.mem).getD 0 else s.disk ch.bdev x
      diskMd := Function.update s.diskMd ch.bdev fun x =>
        if mdOff ≤ x ∧ x < mdOff + mdLen then s.mem (ch.metadata.add (x - mdOff)) else s.diskMd ch.bdev x }

/-- The accel framework stores the XOR of the sources. -/
def storeXor (s : State) (x : AccelXor) : State :=
  s.setMem (store s.mem (x.dst.span x.len)
    ((List.range x.len).map fun j => xorMap x.srcs fun p => s.mem (p.add j)))

/-- A request of the upper layer: the lengths of its iovecs, each in a buffer of its own. -/
structure Request where
  type : IoType
  offsetBlocks : Nat
  numBlocks : Nat
  iovLens : List Nat
  md : Bool
  deriving DecidableEq, Repr

def Request.iovs (q : Request) (io : Nat) : List IoVec := q.iovLens.mapIdx fun k len => ⟨⟨.user io k, 0⟩, len⟩

/-- What the bdev layer lets through: blocks of the array, buffers of their size, reads
    inside a strip (`optimal_io_boundary`) and writes of one stripe (`write_unit_size`). -/
def Request.Valid (q : Request) : Prop :=
  0 < q.numBlocks ∧ q.offsetBlocks + q.numBlocks ≤ c.blockcnt ∧
  q.iovLens.sum = q.numBlocks * c.blocklen ∧ (q.md = true → 0 < c.mdSize) ∧
  (q.type = .read → q.offsetBlocks % c.stripSize + q.numBlocks ≤ c.stripSize) ∧
  (q.type = .write → q.offsetBlocks % c.stripeBlocks = 0 ∧ q.numBlocks = c.stripeBlocks)

instance (q : Request) : Decidable (q.Valid c) := by
  unfold Request.Valid
  infer_instance

/-- `raid_bdev_submit_request` -/
def raidBdevSubmitRequest (s : State) (q : Request) : State :=
  let io := s.nios
  let s := s.setIo io fun _ =>
    { type := q.type, offsetBlocks := q.offsetBlocks, numBlocks := q.numBlocks, iovs := q.iovs io
      mdBuf := if q.md then ⟨.userMd io, 0⟩ else NULL
      baseBdevIoRemaining := 0, baseBdevIoSubmitted := 0, baseBdevIoStatus := .success
      modulePrivate := none, reads := [], waits := [], completions := [] }
  { s with nios := io + 1 }.push (.submitRwRequest io)

inductive Event where
  | call (a : Answer)
  | submit (q : Request)
  | readMove (io j : Nat)
  | readComplete (io j : Nat) (success : Bool) (a : Answer)
  | chunkMove (r j : Nat)
  | chunkComplete (r j : Nat) (success : Bool)
  | xorStore (r j : Nat)
  | xorComplete (r j : Nat) (status : Int)
  | mdXorStore (r j : Nat)
  | mdXorComplete (r j : Nat) (status : Int)
  | ioWait (io j : Nat)

/-- The function on top of the stack runs. -/
def runCall (s : State) (call : Call) (a : Answer) : Option State :=
  match call with
  | .submitRwRequest io => submitRwRequest c s io a
  | .submitChunks r k => submitChunks c s r k a
  | .xorStripe r cb => some (xorStripe c s r cb a)
  | .xorStripeContinue r => some (xorStripeContinue c s r a)
  | .xorStripeDone r => some (xorStripeDone c s r)
  | .xorRetryQueuePop => some (xorRetryQueuePop s)
  | .xorStripeCbTail r status => some (xorStripeCbTail s r status)
  | .stripeRequestRelease r => some (stripeRequestRelease s r)
  | .userCb _ => some s

/-- A request may come when the thread is idle or runs a completion callback. -/
def State.acceptsRequests (s : State) : Bool :=
  match s.stack with
  | [] => true
  | .userCb _ :: _ => true
  | _ => false

/-- An io-wait entry is called back. -/
def ioWaitCall (s : State) (io : Nat) : WaitCb → Option State
  | .submitRwRequest => some (s.push (.submitRwRequest io))
  | .chunkSubmitRetry => (s.ios io).modulePrivate.map fun r => stripeRequestSubmitChunks c s r

def step (s : State) : Event → Option State
  | .call a =>
    match s.stack with
    | [] => none
    | call :: rest => runCall c { s with stack := rest } call a
  | .submit q => if s.acceptsRequests ∧ q.Valid c then some (raidBdevSubmitRequest s q) else none
  | .readMove io j => do
    let (arg, ch) ← (s.ios io).reads[j]?
    if ch.moved then none
    else some ((moveChild c s ch).setIo io fun x =>
      { x with reads := x.reads.set j (arg, { ch with moved := true }) })
  | .readComplete io j success a => do
    let (arg, ch) ← (s.ios io).reads[j]?
    if s.stack = [] ∧ (success = true → ch.moved = true) then
      some (chunkReadComplete c (s.setIo io fun x => { x with reads := x.reads.eraseIdx j }) io arg ch success a)
    else none
  | .chunkMove r j => do
    let (k, ch) ← (s.reqs r).children[j]?
    if ch.moved then none
    else some ((moveChild c s ch).setReq r fun q =>
      { q with children := q.children.set j (k, { ch with moved := true }) })
  | .chunkComplete r j success => do
    let (_, ch) ← (s.reqs r).children[j]?
    if s.stack = [] ∧ (success = true → ch.moved = true) then
      some (chunkCompleteBdevIo (s.setReq r fun q => { q with children := q.children.eraseIdx j }) r success)
    else none
  | .xorStore r j => do
    let x ← (s.reqs r).dataXors[j]?
    if x.stored then none
    else some ((storeXor s x).setReq r fun q => { q with dataXors := q.dataXors.set j { x with stored := true } })
  | .xorComplete r j status => do
    let x ← (s.reqs r).dataXors[j]?
    if s.stack = [] ∧ (status = 0 → x.stored = true) then
      some (xorStripeCb (s.setReq r fun q => { q with dataXors := q.dataXors.eraseIdx j }) r status)
    else none
  | .mdXorStore r j => do
    let x ← (s.reqs r).mdXors[j]?
    if x.stored then none
    else some ((storeXor s x).setReq r fun q => { q with mdXors := q.mdXors.set j { x with stored := true } })
  | .mdXorComplete r j status => do
    let x ← (s.reqs r).mdXors[j]?
    if s.stack = [] ∧ (status = 0 → x.stored = true) then
      some (xorStripeMdCb (s.setReq r fun q => { q with mdXors := q.mdXors.eraseIdx j }) r status)
    else none
  | .ioWait io j => do
    let cb ← (s.ios io).waits[j]?
    if s.stack = [] then
      ioWaitCall c (s.setIo io fun x => { x with waits := x.waits.eraseIdx j }) io cb
    else none

/-! ## The channel after its creation -/

/-- Maximum concurrent full stripe writes per io channel -/
def RAID5F_MAX_STRIPES : Nat := 32

/-- `raid5f_stripe_request_alloc` -/
def stripeRequestAlloc (type : StripeRequestType) : StripeRequest :=
  { type := type, poisoned := false, savedIovs := [], raidIo := 0, stripeIndex := 0, parityChunk := 0
    reconstructChunk := 0, reconstructChunkOffset := 0, chunkIovIters := [], chunkXorBuffers := []
    chunkXorMdBuffers := [], xorLen := 0, xorRemaining := 0, xorRemainingMd := 0, xorStatus := 0
    xorCb := .writeRequestXorDone, chunks := fun _ => ⟨[], 4, NULL⟩, children := [], dataXors := []
    mdXors := [], xorCalls := 0, xorCbRuns := 0 }

/-- No request yet. -/
def RaidIo.empty : RaidIo :=
  { type := .read, offsetBlocks := 0, numBlocks := 0, iovs := [], mdBuf := NULL, baseBdevIoRemaining := 0
    baseBdevIoSubmitted := 0, baseBdevIoStatus := .success, modulePrivate := none, reads := [], waits := []
    completions := [] }

/-- `raid5f_ioch_create` over base bdevs that hold `disk`; write stripe requests are the
    ids below `RAID5F_MAX_STRIPES`, reconstruct ones the next as many. -/
def State.init (disk diskMd : Nat → Nat → Byte) (mem : Mem Buf Byte) : State :=
  { ios := fun _ => RaidIo.empty
    nios := 0
    reqs := fun r => stripeRequestAlloc (if r < RAID5F_MAX_STRIPES then .write else .reconstruct)
    ch :=
      { freeWrite := (List.range RAID5F_MAX_STRIPES).reverse
        freeReconstruct := ((List.range RAID5F_MAX_STRIPES).map (RAID5F_MAX_STRIPES + ·)).reverse
        xorRetryQueue := []
        chunkXorBuffers := List.replicate c.numBaseBdevs NULL
        chunkXorIovs := List.replicate c.numBaseBdevs []
        chunkXorOwner := none }
    mem := mem, disk := disk, diskMd := diskMd, stack := [], freed := 0 }

end functions

end FlexBSO.Raid5f

import FlexBSO.Raid5f.Step
import FlexBSO.Lib.Machine
import Mathlib.Data.List.Count

/- The invariant of a raid5f channel. Every stripe request is in one phase, and the
   phase says where the one thing that will advance it is: a call on the stack, a
   child or an XOR in flight, an entry in the io-wait or the xor retry queue. Every
   request of the upper layer is starting, owned by one stripe request, or done. Two
   states are losses: a request nothing will advance (`lost`) and a stripe request
   whose count can no longer reach zero (`stuck`); the parameter `lossy` says whether
   they may occur, so that one proof serves the runs that avoid them and those that
   do not. -/
namespace FlexBSO.Raid5f
open FlexBSO.Lib

/-- The call carries stripe request `r` on. -/
def Call.about (r : Nat) : Call → Bool
  | .submitChunks x _ => x == r
  | .xorStripe x _ => x == r
  | .xorStripeContinue x => x == r
  | .xorStripeDone x => x == r
  | .stripeRequestRelease x => x == r
  | _ => false

namespace State

/-- The calls on the stack that carry `r` on. -/
def callsOf (s : State) (r : Nat) : List Call := s.stack.filter (Call.about r)

/-- A callback for `r` is still to end that was called with an error. -/
def failing (s : State) (r : Nat) : Bool :=
  s.stack.any fun
    | .xorStripeCbTail x status => x == r && status != 0
    | _ => false

section
variable (s : State) (io r x : Nat) (f : RaidIo → RaidIo) (h : StripeRequest → StripeRequest) (k : IoChannel → IoChannel)

@[simp] theorem callsOf_setIo : (s.setIo io f).callsOf x = s.callsOf x := rfl
@[simp] theorem callsOf_setReq : (s.setReq r h).callsOf x = s.callsOf x := rfl
@[simp] theorem callsOf_setCh : (s.setCh k).callsOf x = s.callsOf x := rfl
@[simp] theorem failing_setIo : (s.setIo io f).failing x = s.failing x := rfl
@[simp] theorem failing_setReq : (s.setReq r h).failing x = s.failing x := rfl
@[simp] theorem failing_setCh : (s.setCh k).failing x = s.failing x := rfl
end

/-- Whatever is to start request `io`: its submission, its direct read, its io-wait entry. -/
def starts (s : State) (io : Nat) : Nat :=
  s.stack.count (.submitRwRequest io) + (s.ios io).reads.length + (s.ios io).waits.count .submitRwRequest

end State

inductive Phase where
  | free | chunks | xor | releasing | orphan | stuck
  deriving DecidableEq, Repr

/-- The stripe request still works for its `raid_io`. -/
def Phase.live : Phase → Bool
  | .chunks => true
  | .xor => true
  | _ => false

/-- It may still touch its `raid_io`. -/
def Phase.owns : Phase → Bool
  | .stuck => true
  | p => p.live

theorem Phase.owns_of_live {p : Phase} (h : p.live = true) : p.owns = true := by
  cases p <;> simp_all [owns, live]

/-- All the invariant of stripe request `r` reads of a state. -/
structure View where
  q : StripeRequest
  /-- its `raid_io` -/
  x : RaidIo
  calls : List Call
  /-- how often it is in the free lists and in the xor retry queue -/
  freeWrite : Nat
  freeReconstruct : Nat
  queue : Nat
  /-- `chunk_xor_buffers`, while it was last set to this request's segments -/
  seg : Option (List Addr)
  failing : Bool

def State.view (s : State) (r : Nat) : View where
  q := s.reqs r
  x := s.ios (s.reqs r).raidIo
  calls := s.callsOf r
  freeWrite := s.ch.freeWrite.count r
  freeReconstruct := s.ch.freeReconstruct.count r
  queue := s.ch.xorRetryQueue.count r
  seg := if s.ch.chunkXorOwner = some r then some s.ch.chunkXorBuffers else none
  failing := s.failing r

/-- The callback that goes with the type of a stripe request. -/
def StripeRequestType.xorCb : StripeRequestType → XorCb
  | .write => .writeRequestXorDone
  | .reconstruct => .reconstructXorDone

/-- The type of the `raid_io` it serves. -/
def StripeRequestType.ioType : StripeRequestType → IoType
  | .write => .write
  | .reconstruct => .read

section invariant
variable (c : RaidChannel) (lossy iso : Prop) (v : View) (r : Nat)

/-- Blocks of each operand of the XOR. -/
def View.numBlocks : Nat :=
  match v.q.type with
  | .write => c.stripSize
  | .reconstruct => v.x.numBlocks

/-- Bytes of each operand of the XOR. -/
def View.total : Nat := v.numBlocks c * c.blocklen

/-- The scatter lists of the XOR, the destination last. -/
def View.lists : List (List IoVec) :=
  (srcChunks c v.q ++ [v.q.destChunk]).map fun i => (v.q.chunks i).iovs

/-- In no free list. -/
def NotFree : Prop := v.freeWrite = 0 ∧ v.freeReconstruct = 0

/-- No XOR in flight and none waiting. -/
structure NoXor : Prop where
  queue : v.queue = 0
  data : v.q.dataXors = []
  md : v.q.mdXors = []

/-- The chunks of a reconstruct request: the read's own iovecs for the chunk it addresses,
    for each other chunk a buffer of the stripe request. -/
def ReadSetup : Prop :=
  v.q.reconstructChunk = c.chunkIdx v.q.stripeIndex (v.x.offsetBlocks % c.stripeBlocks) ∧
  v.q.reconstructChunkOffset = c.chunkOffset (v.x.offsetBlocks % c.stripeBlocks) ∧
  (v.q.chunks v.q.reconstructChunk).iovs = v.x.iovs ∧
  ∀ i < c.numBaseBdevs, i ≠ v.q.reconstructChunk → (v.q.chunks i).iovs =
    [⟨⟨.chunk r (if i < v.q.reconstructChunk then i else i - 1), 0⟩, v.x.numBlocks <<< c.blocklenShift⟩]

/-- Every base bdev but that of chunk `k` has a channel. -/
def SourcesPresent (k : Nat) : Prop := ∀ i ∈ others k c.chunkIndices, c.baseChannel i = true

instance (c : RaidChannel) (k : Nat) : Decidable (SourcesPresent c k) :=
  inferInstanceAs (Decidable (∀ i ∈ others k c.chunkIndices, c.baseChannel i = true))

/-- The base bdevs a reconstruct request reads have channels. -/
def Sources : Prop := v.q.type = .reconstruct → SourcesPresent c v.q.reconstructChunk

/-- Bytes of a strip. -/
def stripBytes : Nat := c.stripSize <<< c.blocklenShift

/-- The chunks of a write request: slices of the write's iovecs in the order of the data
    chunks, and for the parity a buffer of the stripe request. -/
def WriteSetup : Prop :=
  v.q.parityChunk = c.stripeParityChunkIndex v.q.stripeIndex ∧
  (v.q.chunks v.q.parityChunk).iovs = [⟨⟨.parity r, 0⟩, stripBytes c⟩] ∧
  ∀ j i, (others v.q.parityChunk c.chunkIndices)[j]? = some i →
    addrs (v.q.chunks i).iovs = ((addrs v.x.iovs).drop (j * stripBytes c)).take (stripBytes c)

/-- The stripe request is set up for the request it works for. -/
def Setup : Prop :=
  v.q.stripeIndex = v.x.offsetBlocks / c.stripeBlocks ∧
  (v.q.type = .reconstruct → ReadSetup c v r) ∧ (v.q.type = .write → WriteSetup c v r)

/-- The stripe request works for a request that is not completed. -/
structure Owner : Prop where
  not_free : NotFree v
  priv : v.x.modulePrivate = some r
  reads : v.x.reads = []
  completions : v.x.completions = []
  dest_lt : v.q.destChunk < c.numBaseBdevs
  io_type : v.x.type = v.q.type.ioType
  lists : ∀ i < c.numBaseBdevs, (addrs (v.q.chunks i).iovs).length = v.total c
  setup : Setup c v r

/-- Where the chunk phase stands: in the loop, waiting to go on with it, or past it. -/
inductive ChunkStage : Prop where
  | loop (calls : v.calls = [.submitChunks r v.x.baseBdevIoSubmitted])
      (waits : v.x.waits = [])
      (lt : v.x.baseBdevIoSubmitted < c.numBaseBdevs)
      (le : v.q.children.length ≤ v.x.baseBdevIoSubmitted)
      (count : v.x.baseBdevIoRemaining + v.x.baseBdevIoSubmitted = c.numBaseBdevs + v.q.children.length)
      (skip : v.q.type = .reconstruct → v.x.baseBdevIoSubmitted = v.q.reconstructChunk →
        v.x.baseBdevIoSubmitted = 0 ∨ 0 < v.q.children.length)
  | wait (calls : v.calls = [])
      (waits : v.x.waits = [.chunkSubmitRetry])
      (lt : v.x.baseBdevIoSubmitted < c.numBaseBdevs)
      (le : v.q.children.length ≤ v.x.baseBdevIoSubmitted)
      (count : v.x.baseBdevIoRemaining + v.x.baseBdevIoSubmitted = c.numBaseBdevs + v.q.children.length)
      (skip : v.q.type = .reconstruct → v.x.baseBdevIoSubmitted ≠ v.q.reconstructChunk)
  | past (calls : v.calls = [])
      (waits : v.x.waits = [])
      (count : v.x.baseBdevIoRemaining = v.q.children.length)
      (pos : 0 < v.q.children.length)
      (le : v.q.children.length ≤ c.numBaseBdevs)

/-- `xor.len` bytes at the start of what is left of every list are the segment last taken,
    which starts at `out`, and the iterators stand past it. -/
def XorPos (out : List Addr) : Prop :=
  v.q.xorRemaining ≤ v.total c ∧
  ∃ cur, nextv NULL cur = some (v.q.xorLen, out, v.q.chunkIovIters) ∧
    cur.map addrs = (v.lists c).map fun l => (addrs l).drop (v.total c - v.q.xorRemaining)

/-- An XOR that has started and whose data is not done. -/
structure Running : Prop where
  md : v.q.mdXors.length ≤ 1
  cb : v.q.xorCb = v.q.type.xorCb
  left : 0 < v.q.xorRemaining
  mdLt : v.q.xorRemainingMd < 2 ^ 63
  pos : ∃ out, XorPos c v out ∧ ∀ b, v.seg = some b → b = out

/-- The data XOR `x` works on the segment last taken. -/
def OnSegment (x : AccelXor) : Prop :=
  ∃ out, XorPos c v out ∧ x.srcs = out.take c.stripeDataChunksNum ∧ x.dst = out.getD c.stripeDataChunksNum NULL

/-- Where the XOR stands. The metadata XOR, when there is one, runs next to the data XOR
    and is told by `xor.remaining_md`. -/
inductive XorStage : Prop where
  | start (calls : v.calls = [.xorStripe r v.q.type.xorCb]) (no : NoXor v)
  | cont (calls : v.calls = [.xorStripeContinue r]) (queue : v.queue = 0) (data : v.q.dataXors = [])
      (leftMd : 0 < v.q.xorRemainingMd ↔ v.q.mdXors ≠ []) (run : Running c v)
  | retry (calls : v.calls = []) (queue : v.queue = 1) (data : v.q.dataXors = [])
      (leftMd : v.q.mdXors ≠ [] → 0 < v.q.xorRemainingMd) (run : Running c v)
  | inFlight (calls : v.calls = []) (queue : v.queue = 0)
      (data : ∃ x, v.q.dataXors = [x] ∧ x.len = v.q.xorLen ∧ (iso → OnSegment c v x))
      (leftMd : 0 < v.q.xorRemainingMd ↔ v.q.mdXors ≠ []) (run : Running c v)
  | mdInFlight (calls : v.calls = []) (queue : v.queue = 0) (data : v.q.dataXors = [])
      (md : v.q.mdXors.length = 1)
      (cb : v.q.xorCb = v.q.type.xorCb)
      (left : v.q.xorRemaining = 0)
  | done (calls : v.calls = [.xorStripeDone r]) (no : NoXor v)
      (cb : v.q.xorCb = v.q.type.xorCb)

/-- What holds of a stripe request in each phase. -/
inductive PhaseInv : Phase → Prop where
  | free (calls : v.calls = []) (no : NoXor v) (children : v.q.children = [])
      (write : v.freeWrite = if v.q.type = .write then 1 else 0)
      (reconstruct : v.freeReconstruct = if v.q.type = .write then 0 else 1)
      (cbRuns : v.q.xorCbRuns = v.q.xorCalls) (xorCalls : v.q.xorCalls ≤ 1) : PhaseInv .free
  | chunks (owner : Owner c v r) (no : NoXor v) (cbRuns : v.q.xorCbRuns = v.q.xorCalls)
      (xorCalls : v.q.xorCalls ≤ if v.q.type = .write then 1 else 0)
      (stage : ChunkStage c v r) (sources : lossy ∨ Sources c v) : PhaseInv .chunks
  | xor (owner : Owner c v r) (children : v.q.children = []) (waits : v.x.waits = [])
      (xorCalls : v.q.xorCalls = 1) (cbRuns : v.q.xorCbRuns = 0)
      (write : v.q.type = .write → v.x.baseBdevIoRemaining = c.numBaseBdevs ∧ v.x.baseBdevIoSubmitted = 0)
      (reconstruct : v.q.type = .reconstruct → v.x.baseBdevIoRemaining = 1 ∧ v.x.baseBdevIoStatus = .success)
      (stage : XorStage c iso v r) : PhaseInv .xor
  | releasing (calls : v.calls = [.stripeRequestRelease r]) (not_free : NotFree v) (no : NoXor v)
      (children : v.q.children = []) (cbRuns : v.q.xorCbRuns = v.q.xorCalls) (xorCalls : v.q.xorCalls ≤ 1) :
      PhaseInv .releasing
  | orphan (calls : v.calls = []) (not_free : NotFree v) (no : NoXor v)
      (children : v.q.children = []) (cbRuns : v.q.xorCbRuns = v.q.xorCalls) (xorCalls : v.q.xorCalls ≤ 1) :
      PhaseInv .orphan
  | stuck (lossy : lossy) (calls : v.calls = []) (owner : Owner c v r) (no : NoXor v)
      (type : v.q.type = .reconstruct) (cbRuns : v.q.xorCbRuns = v.q.xorCalls) (xorCalls : v.q.xorCalls ≤ 1)
      (waits : v.x.waits = [])
      (count : v.x.baseBdevIoRemaining = v.q.children.length + 1)
      (le : v.q.children.length ≤ c.numBaseBdevs) : PhaseInv .stuck

/-- No stripe request owns `io`. -/
def Unowned (s : State) (ph : Nat → Phase) (io : Nat) : Prop :=
  ∀ r, (ph r).owns = true → (s.reqs r).raidIo ≠ io

/-- A read at the base bdev of the chunk a request addresses, into its own buffers. -/
structure DirectRead (x : RaidIo) (arg : ReadCbArg) (ch : Child) : Prop where
  arg_eq : arg = ⟨x.offsetBlocks / c.stripeBlocks, x.offsetBlocks % c.stripeBlocks⟩
  io_type : x.type = .read
  type : ch.type = .read
  iovs : ch.iovs = x.iovs
  metadata : ch.metadata = x.mdBuf

/-- What holds of a request of the upper layer. -/
inductive IoInv (s : State) (ph : Nat → Phase) (io : Nat) : Prop where
  | unborn (ge : s.nios ≤ io) (starts : s.starts io = 0) (waits : (s.ios io).waits = [])
      (completions : (s.ios io).completions = []) (unowned : Unowned s ph io)
  | starting (lt : io < s.nios) (completions : (s.ios io).completions = []) (starts : s.starts io = 1)
      (waits : (s.ios io).waits.count .chunkSubmitRetry = 0)
      (submitted : (s.ios io).baseBdevIoSubmitted = 0) (status : (s.ios io).baseBdevIoStatus = .success)
      (reads : ∀ p ∈ (s.ios io).reads, DirectRead c (s.ios io) p.1 p.2) (unowned : Unowned s ph io)
  | owned (r : Nat) (lt : io < s.nios) (live : (ph r).live = true) (io_eq : (s.reqs r).raidIo = io)
      (starts : s.stack.count (.submitRwRequest io) = 0)
  | done (lt : io < s.nios) (completions : (s.ios io).completions.length = 1) (starts : s.starts io = 0)
      (waits : (s.ios io).waits = []) (unowned : Unowned s ph io)
  | lost (lossy : lossy) (lt : io < s.nios) (completions : (s.ios io).completions = []) (starts : s.starts io = 0)
      (waits : (s.ios io).waits = []) (unowned : ∀ r, (ph r).live = true → (s.reqs r).raidIo ≠ io)

/-- The request of the upper layer a `raid_bdev_io` carries. -/
structure Carries (x : RaidIo) (io : Nat) (q : Request) : Prop where
  type : x.type = q.type
  offsetBlocks : x.offsetBlocks = q.offsetBlocks
  numBlocks : x.numBlocks = q.numBlocks
  iovs : x.iovs = q.iovs io
  mdBuf : x.mdBuf = if q.md then ⟨.userMd io, 0⟩ else NULL

/-- A callback that is still to end (`raid5f_xor_stripe_cb` past the next segment's
    submission) finds more to do. -/
def Tails (s : State) : Prop :=
  ∀ r status, .xorStripeCbTail r status ∈ s.stack →
    ((s.reqs r).xorRemaining + (s.reqs r).xorRemainingMd) % 2 ^ 64 ≠ 0

structure Inv (s : State) (ph : Nat → Phase) : Prop where
  phase : ∀ r, PhaseInv c lossy iso (s.view r) r (ph r)
  io : ∀ io, IoInv c lossy s ph io
  carries : ∀ io < s.nios, ∃ q : Request, q.Valid c ∧ Carries (s.ios io) io q
  tails : Tails s

end invariant

end FlexBSO.Raid5f

import FlexBSO.Raid5f.Layout
import Mathlib.Logic.Function.Basic

/- The state of one raid5f I/O channel and of the requests on it. Records keep the
   source's fields under its words. What SPDK keeps outside the module is kept next
   to the request it belongs to: the child I/O a request has at the base bdevs, its
   entries in an io-wait queue, the XORs it has at the accel framework and the
   statuses it was completed with. The call stack of the thread is explicit
   (`Call`): one entry per C function that still has to run or to go on, so that a
   step runs one function up to its next call into another layer, and a completion
   callback of the upper layer (`userCb`) may submit requests of its own. -/
namespace FlexBSO.Raid5f
open FlexBSO.Lib

abbrev Byte := BitVec 8

/-- `errno` values the module tells apart. -/
def ENOMEM : Int := 12
def EINVAL : Int := 22

/-- `SPDK_BDEV_IO_STATUS_*` -/
inductive IoStatus where
  | success | failed | nomem
  deriving DecidableEq, Repr

inductive IoType where
  | read | write
  deriving DecidableEq, Repr

/-- Buffers of one channel: those of the upper layer, per request and iovec, and those
    `raid5f_stripe_request_alloc` allocates, per stripe request. -/
inductive Buf where
  | null
  | user (io k : Nat)
  | userMd (io : Nat)
  | parity (r : Nat)
  | parityMd (r : Nat)
  | chunk (r i : Nat)
  | chunkMd (r i : Nat)
  deriving DecidableEq, Repr

/-- Separate metadata goes to buffers of its own. -/
def Buf.isMd : Buf → Bool
  | .user _ _ => false
  | .parity _ => false
  | .chunk _ _ => false
  | _ => true

abbrev Addr := Ptr Buf
abbrev IoVec := Iov Buf

def NULL : Addr := ⟨.null, 0⟩

/-- A child I/O submitted to base bdev `bdev`. -/
structure Child where
  type : IoType
  bdev : Nat
  iovs : List IoVec
  offsetBlocks : Nat
  numBlocks : Nat
  metadata : Addr
  /-- The base bdev has moved the data. -/
  moved : Bool
  deriving DecidableEq, Repr

/-- `struct read_cb_arg` -/
structure ReadCbArg where
  stripeIndex : Nat
  stripeOffset : Nat
  deriving DecidableEq, Repr

/-- `waitq_entry.cb_fn`: `_raid5f_submit_rw_request` or `raid5f_chunk_submit_retry`. -/
inductive WaitCb where
  | submitRwRequest | chunkSubmitRetry
  deriving DecidableEq, Repr

/-- `struct raid_bdev_io`, with the part of its `bdev_io` the level reads. -/
structure RaidIo where
  type : IoType
  offsetBlocks : Nat
  numBlocks : Nat
  iovs : List IoVec
  mdBuf : Addr
  baseBdevIoRemaining : Nat
  baseBdevIoSubmitted : Nat
  baseBdevIoStatus : IoStatus
  /-- `module_private`: the stripe request. -/
  modulePrivate : Option Nat
  /-- Direct reads in flight, with their callback argument. -/
  reads : List (ReadCbArg × Child)
  /-- Entries in io-wait queues. -/
  waits : List WaitCb
  /-- Statuses `spdk_bdev_io_complete` was called with. -/
  completions : List IoStatus

structure Chunk where
  iovs : List IoVec
  iovcntMax : Nat
  mdBuf : Addr

/-- A request to the accel framework. -/
structure AccelXor where
  dst : Addr
  srcs : List Addr
  len : Nat
  /-- The accel framework has stored the result. -/
  stored : Bool
  deriving DecidableEq

/-- `stripe_req_xor_cb`: `raid5f_stripe_write_request_xor_done` or
    `raid5f_stripe_request_reconstruct_xor_done`. -/
inductive XorCb where
  | writeRequestXorDone | reconstructXorDone
  deriving DecidableEq, Repr

inductive StripeRequestType where
  | write | reconstruct
  deriving DecidableEq, Repr

structure StripeRequest where
  type : StripeRequestType
  poisoned : Bool
  savedIovs : List IoVec
  raidIo : Nat
  stripeIndex : Nat
  parityChunk : Nat
  reconstructChunk : Nat
  reconstructChunkOffset : Nat
  chunkIovIters : List (List IoVec)
  chunkXorBuffers : List Addr
  chunkXorMdBuffers : List Addr
  xorLen : Nat
  xorRemaining : Nat
  xorRemainingMd : Nat
  xorStatus : Int
  xorCb : XorCb
  chunks : Nat → Chunk
  /-- Chunk I/O in flight, with the chunk's index. -/
  children : List (Nat × Child)
  /-- XORs in flight that call back `raid5f_xor_stripe_cb`. -/
  dataXors : List AccelXor
  /-- XORs in flight that call back `raid5f_xor_stripe_md_cb`. -/
  mdXors : List AccelXor
  /-- History since `raid5f_stripe_request_init`: calls of `raid5f_xor_stripe` by the
      write and reconstruct paths, and invocations of `xor.cb`. -/
  xorCalls : Nat
  xorCbRuns : Nat

/-- `struct raid5f_io_channel` -/
structure IoChannel where
  freeWrite : List Nat
  freeReconstruct : List Nat
  xorRetryQueue : List Nat
  chunkXorBuffers : List Addr
  chunkXorIovs : List (List IoVec)
  /-- History: the stripe request whose segments `chunk_xor_buffers` was last set to. -/
  chunkXorOwner : Option Nat

/-- What is left to run on the thread of the channel. -/
inductive Call where
  | submitRwRequest (io : Nat)
  | submitChunks (r k : Nat)
  | xorStripe (r : Nat) (cb : XorCb)
  | xorStripeContinue (r : Nat)
  | xorStripeDone (r : Nat)
  | xorRetryQueuePop
  | xorStripeCbTail (r : Nat) (status : Int)
  | stripeRequestRelease (r : Nat)
  | userCb (io : Nat)
  deriving DecidableEq, Repr

/-- The array and the channel of it: which of its base channels are there. -/
structure RaidChannel extends Geometry where
  baseChannel : Nat → Bool

structure State where
  ios : Nat → RaidIo
  /-- Requests submitted so far: the ids below it. -/
  nios : Nat
  reqs : Nat → StripeRequest
  ch : IoChannel
  mem : Mem Buf Byte
  disk : Nat → Nat → Byte
  diskMd : Nat → Nat → Byte
  stack : List Call
  /-- Calls of `spdk_bdev_free_io`. -/
  freed : Nat

namespace State

def setIo (s : State) (io : Nat) (f : RaidIo → RaidIo) : State :=
  { s with ios := Function.update s.ios io (f (s.ios io)) }

def setReq (s : State) (r : Nat) (f : StripeRequest → StripeRequest) : State :=
  { s with reqs := Function.update s.reqs r (f (s.reqs r)) }

def setCh (s : State) (f : IoChannel → IoChannel) : State := { s with ch := f s.ch }

def setMem (s : State) (m : Mem Buf Byte) : State := { s with mem := m }

/-- `c` runs next. -/
def push (s : State) (c : Call) : State := { s with stack := c :: s.stack }

/-- The calls run next, in order. -/
def pushAll (s : State) (calls : List Call) : State := { s with stack := calls ++ s.stack }

variable (s : State) (io r : Nat) (f : RaidIo → RaidIo) (h : StripeRequest → StripeRequest)
  (k : IoChannel → IoChannel) (c : Call) (cs : List Call)

@[simp] theorem setIo_ios_self : (s.setIo io f).ios io = f (s.ios io) := by simp [setIo]
@[simp] theorem setIo_nios : (s.setIo io f).nios = s.nios := rfl
@[simp] theorem setIo_reqs : (s.setIo io f).reqs = s.reqs := rfl
@[simp] theorem setIo_ch : (s.setIo io f).ch = s.ch := rfl
@[simp] theorem setIo_mem : (s.setIo io f).mem = s.mem := rfl
@[simp] theorem setIo_disk : (s.setIo io f).disk = s.disk := rfl
@[simp] theorem setIo_stack : (s.setIo io f).stack = s.stack := rfl

theorem setIo_ios_of_ne {s : State} {io x : Nat} {f : RaidIo → RaidIo} (hx : x ≠ io) :
    (s.setIo io f).ios x = s.ios x := by simp [setIo, hx]

@[simp] theorem setReq_reqs_self : (s.setReq r h).reqs r = h (s.reqs r) := by simp [setReq]
@[simp] theorem setReq_ios : (s.setReq r h).ios = s.ios := rfl
@[simp] theorem setReq_nios : (s.setReq r h).nios = s.nios := rfl
@[simp] theorem setReq_ch : (s.setReq r h).ch = s.ch := rfl
@[simp] theorem setReq_mem : (s.setReq r h).mem = s.mem := rfl
@[simp] theorem setReq_disk : (s.setReq r h).disk = s.disk := rfl
@[simp] theorem setReq_stack : (s.setReq r h).stack = s.stack := rfl

theorem setReq_reqs_of_ne {s : State} {r x : Nat} {h : StripeRequest → StripeRequest} (hx : x ≠ r) :
    (s.setReq r h).reqs x = s.reqs x := by simp [setReq, hx]

@[simp] theorem setCh_ch : (s.setCh k).ch = k s.ch := rfl
@[simp] theorem setCh_ios : (s.setCh k).ios = s.ios := rfl
@[simp] theorem setCh_nios : (s.setCh k).nios = s.nios := rfl
@[simp] theorem setCh_reqs : (s.setCh k).reqs = s.reqs := rfl
@[simp] theorem setCh_mem : (s.setCh k).mem = s.mem := rfl
@[simp] theorem setCh_disk : (s.setCh k).disk = s.disk := rfl
@[simp] theorem setCh_stack : (s.setCh k).stack = s.stack := rfl

@[simp] theorem setMem_mem {m : Mem Buf Byte} : (s.setMem m).mem = m := rfl
@[simp] theorem setMem_ios {m : Mem Buf Byte} : (s.setMem m).ios = s.ios := rfl
@[simp] theorem setMem_nios {m : Mem Buf Byte} : (s.setMem m).nios = s.nios := rfl
@[simp] theorem setMem_reqs {m : Mem Buf Byte} : (s.setMem m).reqs = s.reqs := rfl
@[simp] theorem setMem_ch {m : Mem Buf Byte} : (s.setMem m).ch = s.ch := rfl
@[simp] theorem setMem_disk {m : Mem Buf Byte} : (s.setMem m).disk = s.disk := rfl
@[simp] theorem setMem_stack {m : Mem Buf Byte} : (s.setMem m).stack = s.stack := rfl

@[simp] theorem push_stack : (s.push c).stack = c :: s.stack := rfl
@[simp] theorem push_ios : (s.push c).ios = s.ios := rfl
@[simp] theorem push_nios : (s.push c).nios = s.nios := rfl
@[simp] theorem push_reqs : (s.push c).reqs = s.reqs := rfl
@[simp] theorem push_ch : (s.push c).ch = s.ch := rfl
@[simp] theorem push_mem : (s.push c).mem = s.mem := rfl
@[simp] theorem push_disk : (s.push c).disk = s.disk := rfl

@[simp] theorem pushAll_stack : (s.pushAll cs).stack = cs ++ s.stack := rfl
@[simp] theorem pushAll_ios : (s.pushAll cs).ios = s.ios := rfl
@[simp] theorem pushAll_nios : (s.pushAll cs).nios = s.nios := rfl
@[simp] theorem pushAll_reqs : (s.pushAll cs).reqs = s.reqs := rfl
@[simp] theorem pushAll_ch : (s.pushAll cs).ch = s.ch := rfl
@[simp] theorem pushAll_mem : (s.pushAll cs).mem = s.mem := rfl
@[simp] theorem pushAll_disk : (s.pushAll cs).disk = s.disk := rfl

end State

end FlexBSO.Raid5f

import FlexBSO.Raid5f.Frame

/- The life of one stripe request: every move it can make, as a relation between what
   the invariant sees of it before and after (`Move`). The moves say what a step of the
   machine changes and under which condition; what a move keeps is proved once for each
   of them and never from the functions of the source again. -/
namespace FlexBSO.Raid5f
open FlexBSO.Lib

section moves
variable (c : RaidChannel) (lossy iso : Prop) (r : Nat)

/-- The I/O `raid5f_chunk_submit` makes for chunk `k`. -/
def View.child (v : View) (k : Nat) : Child :=
  match v.q.type with
  | .write => ⟨.write, k, (v.q.chunks k).iovs, c.baseOffsetBlocks v.q.stripeIndex 0, c.stripSize,
      (v.q.chunks k).mdBuf, false⟩
  | .reconstruct => ⟨.read, k, (v.q.chunks k).iovs,
      c.baseOffsetBlocks v.q.stripeIndex 0 + v.q.reconstructChunkOffset, v.x.numBlocks, (v.q.chunks k).mdBuf, false⟩

/-- The status a request has after one more part of it. -/
def IoStatus.part (st : IoStatus) (ok : Bool) : IoStatus := if ok then st else .failed

/-- The xor status after one more callback. -/
def xorStatusAfter (st status : Int) : Int := if status ≠ 0 then status else st

/-- A stripe request after the first segment of its XOR. -/
def StripeRequest.started (q : StripeRequest) (cb : XorCb) (total len : Nat) (its : List (List IoVec)) :
    StripeRequest :=
  { q with xorLen := len, chunkIovIters := its, xorRemaining := total, xorStatus := 0, xorCb := cb }

/-- `w` is `v` after the request's own fields, its `raid_io` and its calls were set. -/
def View.set (v : View) (q : StripeRequest) (x : RaidIo) (calls : List Call) : View :=
  { v with q := q, x := x, calls := calls }

@[simp] theorem View.set_q (v : View) (q : StripeRequest) (x : RaidIo) (k : List Call) : (v.set q x k).q = q := rfl
@[simp] theorem View.set_x (v : View) (q : StripeRequest) (x : RaidIo) (k : List Call) : (v.set q x k).x = x := rfl

/-- The request has chunk I/O to make or to wait for. -/
def Phase.counts : Phase → Bool
  | .chunks => true
  | .stuck => true
  | _ => false

/-- What the metadata does at the start of an XOR: there is none, its XOR is accepted,
    put off or refused. -/
inductive MdStart (v : View) (q : StripeRequest) : View → Prop where
  | none {w : View} (md : v.x.mdBuf = NULL) (left : v.q.xorRemainingMd = 0)
      (hw : w = v.set q v.x [.xorStripeContinue r]) : MdStart v q w
  | accepted {w : View} (srcs : List Addr) (x : AccelXor) (md : v.x.mdBuf ≠ NULL)
      (dst : x.dst = (q.chunks q.destChunk).mdBuf)
      (hw : w = v.set { q with xorRemainingMd := v.numBlocks c * c.mdSize, chunkXorMdBuffers := srcs
                               mdXors := q.mdXors ++ [x] } v.x [.xorStripeContinue r]) : MdStart v q w
  | deferred {w : View} (srcs : List Addr) (md : v.x.mdBuf ≠ NULL)
      (hw : w = { v.set { q with xorRemainingMd := v.numBlocks c * c.mdSize, chunkXorMdBuffers := srcs } v.x []
                  with queue := v.queue + 1 }) : MdStart v q w
  | refused {w : View} (srcs : List Addr) (status : Int) (hs : status ≠ 0) (md : v.x.mdBuf ≠ NULL)
      (hw : w = v.set { q with xorRemainingMd := v.numBlocks c * c.mdSize, chunkXorMdBuffers := srcs
                               xorStatus := status } v.x [.xorStripeDone r]) : MdStart v q w

/-- The metadata buffers of a stripe request are metadata buffers. -/
def StripeRequest.MdBufs (q : StripeRequest) : Prop := ∀ i, (q.chunks i).mdBuf.buf.isMd = true

/-- A request taken from the free list: put back at once, or set up. -/
inductive BeginMove (v : View) : Phase → View → Prop where
  | prepared {w : View} (inv : PhaseInv c lossy iso w r .free) (md : v.q.MdBufs → w.q.MdBufs) : BeginMove v .free w
  | beginChunks {w : View} (inv : PhaseInv c lossy iso w r .chunks) (md : v.q.MdBufs → w.q.MdBufs)
      (children : w.q.children = []) (submitted : w.x.baseBdevIoSubmitted = 0)
      (status : w.x.baseBdevIoStatus = .success) (calls : w.calls = [.submitChunks r 0]) : BeginMove v .chunks w
  | beginXor {w : View} (inv : PhaseInv c lossy iso w r .xor) (md : v.q.MdBufs → w.q.MdBufs)
      (type : w.q.type = .write) (calls : w.calls = [.xorStripe r .writeRequestXorDone]) : BeginMove v .xor w

/-- A turn of the loop over the chunks, and the loop taken up again. -/
inductive LoopMove (v : View) : Phase → View → Prop where
  | sent {w : View} (k : Nat) (b : Bool) (calls : v.calls = [.submitChunks r k])
      (other : v.q.type = .reconstruct → k ≠ v.q.reconstructChunk)
      (hw : w = v.set { v.q with poisoned := b, children := v.q.children ++ [(k, v.child c k)] }
        { v.x with baseBdevIoSubmitted := v.x.baseBdevIoSubmitted + 1 } (submitChunksFrom c r (k + 1))) :
      LoopMove v .chunks w
  | skipped {w : View} (k : Nat) (calls : v.calls = [.submitChunks r k])
      (why : v.q.type = .reconstruct → k = v.q.reconstructChunk) (more : 1 < v.x.baseBdevIoRemaining)
      (hw : w = v.set v.q { v.x with baseBdevIoSubmitted := v.x.baseBdevIoSubmitted + 1
                                     baseBdevIoRemaining := v.x.baseBdevIoRemaining - 1 }
        (submitChunksFrom c r (k + 1))) : LoopMove v .chunks w
  | skippedLast {w : View} (k : Nat) (calls : v.calls = [.submitChunks r k]) (type : v.q.type = .write)
      (last : v.x.baseBdevIoRemaining = 1)
      (hw : w = v.set v.q { v.x with baseBdevIoSubmitted := v.x.baseBdevIoSubmitted + 1, baseBdevIoRemaining := 0
                                     completions := v.x.completions ++ [v.x.baseBdevIoStatus] } []) :
      LoopMove v .orphan w
  | deferred {w : View} (k : Nat) (b : Bool) (calls : v.calls = [.submitChunks r k])
      (other : v.q.type = .reconstruct → k ≠ v.q.reconstructChunk)
      (hw : w = v.set { v.q with poisoned := b } { v.x with waits := v.x.waits ++ [.chunkSubmitRetry] } []) :
      LoopMove v .chunks w
  | refused {w : View} (k : Nat) (b : Bool) (calls : v.calls = [.submitChunks r k]) (type : v.q.type = .write)
      (more : v.q.children ≠ [])
      (hw : w = v.set { v.q with poisoned := b }
        { v.x with baseBdevIoRemaining := v.x.baseBdevIoRemaining - (c.numBaseBdevs - k)
                   baseBdevIoStatus := .failed } []) : LoopMove v .chunks w
  | refusedLast {w : View} (k : Nat) (b : Bool) (calls : v.calls = [.submitChunks r k])
      (type : v.q.type = .write) (last : v.q.children = [])
      (hw : w = v.set { v.q with poisoned := b }
        { v.x with baseBdevIoRemaining := 0, baseBdevIoStatus := .failed
                   completions := v.x.completions ++ [.failed] } [.stripeRequestRelease r]) :
      LoopMove v .releasing w
  | refusedRead {w : View} (k : Nat) (lossy : lossy) (calls : v.calls = [.submitChunks r k])
      (type : v.q.type = .reconstruct)
      (hw : w = v.set v.q
        { v.x with baseBdevIoRemaining := v.x.baseBdevIoRemaining - (c.stripeDataChunksNum - k)
                   baseBdevIoStatus := .failed } []) : LoopMove v .stuck w
  | resumed {w : View} (waits : v.x.waits = [.chunkSubmitRetry])
      (hw : w = v.set v.q { v.x with waits := [] } [.submitChunks r v.x.baseBdevIoSubmitted]) :
      LoopMove v .chunks w

/-- A chunk's I/O moves its data (`true`) or completes. -/
inductive ChunkMove : Bool → Phase → View → Phase → View → Prop where
  | chunkMoved {v w : View} {p : Phase} (counts : p.counts = true) (j k : Nat) (child : Child)
      (get : v.q.children[j]? = some (k, child)) (fresh : child.moved = false)
      (hw : w = v.set { v.q with children := v.q.children.set j (k, { child with moved := true }) } v.x v.calls) :
      ChunkMove true p v p w
  | chunkPart {v w : View} {p : Phase} (counts : p.counts = true) (j k : Nat) (child : Child) (ok : Bool)
      (get : v.q.children[j]? = some (k, child)) (moved : ok = true → child.moved = true)
      (idle : v.calls = []) (more : 1 < v.x.baseBdevIoRemaining)
      (hw : w = v.set { v.q with children := v.q.children.eraseIdx j }
        { v.x with baseBdevIoRemaining := v.x.baseBdevIoRemaining - 1
                   baseBdevIoStatus := v.x.baseBdevIoStatus.part ok } []) : ChunkMove false p v p w
  | chunkLast {v w : View} (j k : Nat) (child : Child) (ok : Bool)
      (get : v.q.children[j]? = some (k, child)) (moved : ok = true → child.moved = true)
      (idle : v.calls = []) (type : v.q.type = .write) (last : v.x.baseBdevIoRemaining = 1)
      (hw : w = v.set { v.q with children := v.q.children.eraseIdx j }
        { v.x with baseBdevIoRemaining := 0, baseBdevIoStatus := v.x.baseBdevIoStatus.part ok
                   completions := v.x.completions ++ [v.x.baseBdevIoStatus.part ok] }
        [.stripeRequestRelease r]) : ChunkMove false .chunks v .releasing w
  | chunkXor {v w : View} (j k : Nat) (child : Child)
      (get : v.q.children[j]? = some (k, child)) (moved : child.moved = true)
      (idle : v.calls = []) (type : v.q.type = .reconstruct) (last : v.x.baseBdevIoRemaining = 1)
      (status : v.x.baseBdevIoStatus = .success)
      (hw : w = v.set { v.q with children := v.q.children.eraseIdx j, xorCalls := v.q.xorCalls + 1 } v.x
        [.xorStripe r .reconstructXorDone]) : ChunkMove false .chunks v .xor w
  | chunkFail {v w : View} (j k : Nat) (child : Child) (ok : Bool)
      (get : v.q.children[j]? = some (k, child)) (idle : v.calls = [])
      (type : v.q.type = .reconstruct) (last : v.x.baseBdevIoRemaining = 1)
      (status : v.x.baseBdevIoStatus.part ok ≠ .success)
      (hw : w = { v.set { v.q with children := v.q.children.eraseIdx j }
        { v.x with baseBdevIoRemaining := 0, baseBdevIoStatus := v.x.baseBdevIoStatus.part ok
                   completions := v.x.completions ++ [v.x.baseBdevIoStatus.part ok] } []
        with freeReconstruct := v.freeReconstruct + 1 }) : ChunkMove false .chunks v .free w

/-- The XOR goes on; `true` when the accel framework stores a result. -/
inductive XorMove (v : View) : Bool → View → Prop where
  | xorStart {w : View} (cb : XorCb) (len : Nat) (out : List Addr) (its : List (List IoVec))
      (calls : v.calls = [.xorStripe r cb])
      (walk : nextv NULL (v.lists c) = some (len, out, its))
      (md : MdStart c r { v with seg := some out } (v.q.started cb (v.total c) len its) w) : XorMove v false w
  | xorAccepted {w : View} (x : AccelXor) (calls : v.calls = [.xorStripeContinue r])
      (len : x.len = v.q.xorLen) (fresh : x.stored = false) (mine : iso → v.seg ≠ none)
      (ops : ∀ b, v.seg = some b → x.srcs = b.take c.stripeDataChunksNum ∧ x.dst = b.getD c.stripeDataChunksNum NULL)
      (hw : w = v.set { v.q with chunkXorBuffers := x.srcs, dataXors := v.q.dataXors ++ [x] } v.x []) :
      XorMove v false w
  | xorDeferred {w : View} (srcs : List Addr) (calls : v.calls = [.xorStripeContinue r])
      (hw : w = { v.set { v.q with chunkXorBuffers := srcs } v.x [] with queue := v.queue + 1 }) :
      XorMove v false w
  | xorRefused {w : View} (srcs : List Addr) (status : Int) (calls : v.calls = [.xorStripeContinue r])
      (hs : status ≠ 0) (md : v.q.mdXors = [])
      (hw : w = v.set { v.q with chunkXorBuffers := srcs, xorStatus := status } v.x [.xorStripeDone r]) :
      XorMove v false w
  | xorRetried {w : View} (queue : v.queue = 1)
      (hw : w = { v with queue := 0, calls := [.xorStripeContinue r] }) (left : v.q.xorRemainingMd = 0) :
      XorMove v false w
  | xorRestarted {w : View} (queue : v.queue = 1) (md : v.q.mdXors = [])
      (hw : w = { v with queue := 0, calls := [.xorStripe r v.q.xorCb] }) : XorMove v false w
  | xorStored {w : View} (j : Nat) (x : AccelXor) (get : v.q.dataXors[j]? = some x)
      (hw : w = v.set { v.q with dataXors := v.q.dataXors.set j { x with stored := true } } v.x v.calls) :
      XorMove v true w
  | mdStored {w : View} (j : Nat) (x : AccelXor) (get : v.q.mdXors[j]? = some x)
      (hw : w = v.set { v.q with mdXors := v.q.mdXors.set j { x with stored := true } } v.x v.calls) :
      XorMove v true w
  | xorSegment {w : View} (x : AccelXor) (status : Int) (len : Nat) (out : List Addr) (its : List (List IoVec))
      (data : v.q.dataXors = [x]) (stored : status = 0 → x.stored = true) (idle : v.calls = [])
      (more : v.q.xorLen < v.q.xorRemaining)
      (walk : nextv NULL v.q.chunkIovIters = some (len, out, its))
      (hw : w = { v.set { v.q with dataXors := [], xorRemaining := v.q.xorRemaining - v.q.xorLen, xorLen := len
                                   chunkIovIters := its } v.x [.xorStripeContinue r]
        with seg := some out, failing := status != 0 }) : XorMove v false w
  | xorData {w : View} (x : AccelXor) (status : Int)
      (data : v.q.dataXors = [x]) (stored : status = 0 → x.stored = true) (idle : v.calls = [])
      (quiet : v.failing = false) (last : v.q.xorRemaining = v.q.xorLen)
      (hw : w = v.set { v.q with dataXors := [], xorRemaining := 0, xorStatus := xorStatusAfter v.q.xorStatus status }
        v.x (if v.q.xorRemainingMd = 0 then [.xorStripeDone r] else [])) : XorMove v false w
  | xorMd {w : View} (x : AccelXor) (status : Int) (md : v.q.mdXors = [x]) (idle : v.calls = [])
      (quiet : v.failing = false)
      (hw : w = v.set { v.q with mdXors := [], xorRemainingMd := 0
                                 xorStatus := xorStatusAfter v.q.xorStatus status }
        v.x (if v.q.xorRemaining = 0 then [.xorStripeDone r] else [])) : XorMove v false w

/-- The XOR is over. -/
inductive EndMove (v : View) : Phase → View → Prop where
  | wrote {w : View} (calls : v.calls = [.xorStripeDone r]) (type : v.q.type = .write) (status : v.q.xorStatus = 0)
      (hw : w = v.set { v.q with xorCbRuns := v.q.xorCbRuns + 1 } v.x [.submitChunks r 0]) :
      EndMove v .chunks w
  | writeFail {w : View} (calls : v.calls = [.xorStripeDone r]) (type : v.q.type = .write)
      (hw : w = { v.set { v.q with xorCbRuns := v.q.xorCbRuns + 1 }
        { v.x with completions := v.x.completions ++ [.failed] } [] with freeWrite := v.freeWrite + 1 }) :
      EndMove v .free w
  | reconstructed {w : View} (calls : v.calls = [.xorStripeDone r]) (type : v.q.type = .reconstruct)
      (hw : w = { v.set { v.q with xorCbRuns := v.q.xorCbRuns + 1 }
        { v.x with baseBdevIoRemaining := 0, baseBdevIoStatus := v.x.baseBdevIoStatus.part (v.q.xorStatus == 0)
                   completions := v.x.completions ++ [v.x.baseBdevIoStatus.part (v.q.xorStatus == 0)] } []
        with freeReconstruct := v.freeReconstruct + 1 }) : EndMove v .free w

/-- A move of stripe request `r` from phase to phase; `true` when it is data that moves. -/
inductive Move : Bool → Phase → View → Phase → View → Prop where
  | begin {v w : View} {p : Phase} (m : BeginMove c lossy iso r v p w) : Move false .free v p w
  | loop {v w : View} {p : Phase} (m : LoopMove c lossy r v p w) : Move false .chunks v p w
  | chunk {v w : View} {p p' : Phase} {d : Bool} (m : ChunkMove r d p v p' w) : Move d p v p' w
  | xor {v w : View} {d : Bool} (m : XorMove c iso r v d w) : Move d .xor v .xor w
  | finish {v w : View} {p : Phase} (m : EndMove r v p w) : Move false .xor v p w
  | callback {v w : View} {p : Phase} (st : Int) (f : Bool)
      (keep : st = 0 → f = false → v.q.xorStatus = 0 ∧ v.failing = false)
      (hw : w = { v with q := { v.q with xorStatus := st }, failing := f }) : Move false p v p w
  | released {v w : View} (calls : v.calls = [.stripeRequestRelease r])
      (hw : w = { v with
        calls := []
        freeWrite := v.freeWrite + if v.q.type = .write then 1 else 0
        freeReconstruct := v.freeReconstruct + if v.q.type = .write then 0 else 1 }) : Move false .releasing v .free w

end moves

/-! ## What a move keeps -/

/-- The two are set up for the same work. -/
structure SameWork (q q' : StripeRequest) : Prop where
  type : q'.type = q.type
  raidIo : q'.raidIo = q.raidIo
  stripeIndex : q'.stripeIndex = q.stripeIndex
  parityChunk : q'.parityChunk = q.parityChunk
  reconstructChunk : q'.reconstructChunk = q.reconstructChunk
  reconstructChunkOffset : q'.reconstructChunkOffset = q.reconstructChunkOffset
  chunks : q'.chunks = q.chunks

theorem SameWork.self (q : StripeRequest) : SameWork q q := ⟨rfl, rfl, rfl, rfl, rfl, rfl, rfl⟩

/-- What the request behind a stripe request guarantees: it covers some of a strip, and
    separate metadata is there only when the array has it. -/
structure View.Sane (c : RaidChannel) (v : View) : Prop where
  blocks_pos : 0 < v.numBlocks c
  blocks_le : v.numBlocks c ≤ c.stripSize
  md : v.x.mdBuf ≠ NULL → 0 < c.mdSize

section keep
variable {c : RaidChannel} {lossy iso : Prop} {r : Nat} {v w : View} {p p' : Phase} {d : Bool}

theorem View.Sane.total_pos (h : v.Sane c) : 0 < v.total c := Nat.mul_pos h.blocks_pos c.blocklen_pos

theorem View.Sane.mdLen_lt (h : v.Sane c) : v.numBlocks c * c.mdSize < 2 ^ 63 := by
  have h1 : c.numBaseBdevs * c.stripSize ≤ 2 ^ 31 := c.chunk_shift_fits
  have h2 := c.base_bdevs_min
  have h3 : 3 * c.stripSize ≤ c.numBaseBdevs * c.stripSize := Nat.mul_le_mul_right _ h2
  have h4 := h.blocks_le
  have h5 := c.md_size_fits
  calc v.numBlocks c * c.mdSize ≤ 2 ^ 31 * c.mdSize := Nat.mul_le_mul_right _ (by omega)
    _ < 2 ^ 31 * 2 ^ 32 := Nat.mul_lt_mul_of_pos_left h5 (by decide)
    _ = 2 ^ 63 := by decide

theorem View.Sane.total_lt (h : v.Sane c) : v.total c < 2 ^ 32 := by
  have h1 : v.total c ≤ c.stripSize * c.blocklen := Nat.mul_le_mul_right _ h.blocks_le
  have h2 : c.stripSize * c.blocklen = 2 ^ (c.stripSizeShift + c.blocklenShift) := (Nat.pow_add 2 _ _).symm
  have h3 : 2 ^ (c.stripSizeShift + c.blocklenShift) < 2 ^ 32 :=
    Nat.pow_lt_pow_right (by decide) c.strip_bytes_fit
  omega

/-- Each scatter list of the XOR covers all of it. -/
theorem Owner.length_lists (h : Owner c v r) {l : List IoVec} (hl : l ∈ v.lists c) :
    (addrs l).length = v.total c := by
  obtain ⟨i, hi, rfl⟩ := List.mem_map.mp hl
  apply h.lists
  rcases List.mem_append.mp hi with hi | hi
  · exact c.mem_chunkIndices.mp (mem_others.mp hi).1
  · exact List.mem_singleton.mp hi ▸ h.dest_lt

theorem View.lists_ne_nil : v.lists c ≠ [] := by simp [View.lists]

/-- The length of the segment last taken is within what is left. -/
theorem XorPos.len_le {out : List Addr} (h : XorPos c v out) (ho : Owner c v r) :
    v.q.xorLen ≤ v.q.xorRemaining := by
  obtain ⟨hle, cur, hw, hc⟩ := h
  obtain ⟨-, -, hl⟩ := nextv_spec hw
  have hne : cur ≠ [] := by
    rintro rfl
    exact v.lists_ne_nil (List.map_eq_nil_iff.mp hc.symm)
  obtain ⟨l, hlc⟩ := List.exists_mem_of_ne_nil _ hne
  have h1 : addrs l ∈ (v.lists c).map fun l => (addrs l).drop (v.total c - v.q.xorRemaining) :=
    hc ▸ List.mem_map_of_mem hlc
  obtain ⟨l', hl', he⟩ := List.mem_map.mp h1
  have h2 := (hl l hlc).2.2
  rw [← he, List.length_drop, ho.length_lists hl'] at h2
  omega

/-- The segments before and after a step of the walk. -/
theorem XorPos.next {out out' : List Addr} {len : Nat} {its : List (List IoVec)} (h : XorPos c v out)
    (walk : nextv NULL v.q.chunkIovIters = some (len, out', its)) (hl : v.q.xorLen ≤ v.q.xorRemaining)
    (hq : w.q = { v.q with dataXors := [], xorRemaining := v.q.xorRemaining - v.q.xorLen, xorLen := len
                           chunkIovIters := its }) (hx : w.x = v.x) : XorPos c w out' := by
  obtain ⟨hle, cur, hw, hc⟩ := h
  obtain ⟨-, hits, hl'⟩ := nextv_spec hw
  have ht : w.total c = v.total c := by simp only [View.total, View.numBlocks, hq, hx]
  have hls : w.lists c = v.lists c := by simp only [View.lists, hq]; rfl
  refine ⟨by rw [hq, ht]; simp only; omega, v.q.chunkIovIters, by rw [hq]; exact walk, ?_⟩
  rw [hits, List.map_map, ht, hls, hq]
  calc cur.map (addrs ∘ advance v.q.xorLen) = (cur.map addrs).map (List.drop v.q.xorLen) := by
        rw [List.map_map]
        exact List.map_congr_left fun l hlc => (hl' l hlc).2.1
    _ = _ := by
        rw [hc, List.map_map]
        apply List.map_congr_left
        intro l _
        simp only [Function.comp, List.drop_drop]
        congr 1
        omega

theorem mem_submitChunksFrom {k : Nat} (h : k < c.numBaseBdevs) : submitChunksFrom c r k = [.submitChunks r k] :=
  if_pos h

theorem submitChunksFrom_nil {k : Nat} (h : c.numBaseBdevs ≤ k) : submitChunksFrom c r k = [] :=
  if_neg (by omega)

/-! ### The chunk phase -/

/-- The loop over the chunks stands before chunk `k`. -/
structure Looping (c : RaidChannel) (lossy : Prop) (v : View) (r k : Nat) : Prop where
  owner : Owner c v r
  no : NoXor v
  cbRuns : v.q.xorCbRuns = v.q.xorCalls
  xorCalls : v.q.xorCalls ≤ if v.q.type = .write then 1 else 0
  waits : v.x.waits = []
  submitted : v.x.baseBdevIoSubmitted = k
  lt : k < c.numBaseBdevs
  le : v.q.children.length ≤ k
  count : v.x.baseBdevIoRemaining + k = c.numBaseBdevs + v.q.children.length
  skip : v.q.type = .reconstruct → k = v.q.reconstructChunk → k = 0 ∨ 0 < v.q.children.length
  sources : lossy ∨ Sources c v

theorem PhaseInv.looping {k : Nat} (h : PhaseInv c lossy iso v r .chunks) (hc : v.calls = [.submitChunks r k]) :
    Looping c lossy v r k := by
  cases h with
  | chunks owner no cbRuns xorCalls stage sources =>
    cases stage with
    | loop calls waits lt le count skip =>
      obtain rfl : v.x.baseBdevIoSubmitted = k := by simpa using calls.symm.trans hc
      exact ⟨owner, no, cbRuns, xorCalls, waits, rfl, lt, le, count, skip, sources⟩
    | wait calls => rw [calls] at hc; cases hc
    | past calls => rw [calls] at hc; cases hc

theorem Looping.xorCalls_le {k : Nat} (h : Looping c lossy v r k) : v.q.xorCalls ≤ 1 := by
  have := h.xorCalls
  split at this <;> omega

/-- The stage after a chunk was taken care of. -/
theorem ChunkStage.next (calls : w.calls = submitChunksFrom c r w.x.baseBdevIoSubmitted)
    (waits : w.x.waits = []) (hle : w.x.baseBdevIoSubmitted ≤ c.numBaseBdevs)
    (le : w.q.children.length ≤ w.x.baseBdevIoSubmitted)
    (count : w.x.baseBdevIoRemaining + w.x.baseBdevIoSubmitted = c.numBaseBdevs + w.q.children.length)
    (pos : w.x.baseBdevIoSubmitted < c.numBaseBdevs ∨ 0 < w.q.children.length)
    (skip : w.q.type = .reconstruct → w.x.baseBdevIoSubmitted = w.q.reconstructChunk →
      w.x.baseBdevIoSubmitted = 0 ∨ 0 < w.q.children.length) : ChunkStage c w r := by
  by_cases hlt : w.x.baseBdevIoSubmitted < c.numBaseBdevs
  · exact .loop (calls.trans (mem_submitChunksFrom hlt)) waits hlt le count skip
  · refine .past (calls.trans (submitChunksFrom_nil (by omega))) waits (by omega) ?_ (by omega)
    exact pos.resolve_left hlt

theorem LoopMove.phaseInv (m : LoopMove c lossy r v p w) (h : PhaseInv c lossy iso v r .chunks) :
    PhaseInv c lossy iso w r p := by
  cases m with
  | sent k b calls other hw =>
    have l := h.looping calls
    have hk := l.submitted
    have hc := l.count
    have hle := l.le
    have hlt := l.lt
    subst hw
    refine .chunks ⟨l.owner.not_free, l.owner.priv, l.owner.reads, l.owner.completions, l.owner.dest_lt,
      l.owner.io_type, l.owner.lists, l.owner.setup⟩ ⟨l.no.queue, l.no.data, l.no.md⟩ l.cbRuns l.xorCalls (.next ?_ l.waits ?_ ?_ ?_ ?_ ?_) l.sources
    · simp [View.set, hk]
    all_goals simp only [View.set, List.length_append, List.length_singleton]
    · omega
    · omega
    · omega
    · right; omega
    · intro _ _
      right; omega
  | skipped k calls why more hw =>
    have l := h.looping calls
    have hk := l.submitted
    have hc := l.count
    have hle := l.le
    have hlt := l.lt
    subst hw
    refine .chunks ⟨l.owner.not_free, l.owner.priv, l.owner.reads, l.owner.completions, l.owner.dest_lt,
      l.owner.io_type, l.owner.lists, l.owner.setup⟩ ⟨l.no.queue, l.no.data, l.no.md⟩ l.cbRuns l.xorCalls (.next ?_ l.waits ?_ ?_ ?_ ?_ ?_) l.sources
    · simp [View.set, hk]
    all_goals simp only [View.set]
    · omega
    · omega
    · omega
    · omega
    · intro ht hr
      have := why ht
      omega
  | skippedLast k calls type last hw =>
    have l := h.looping calls
    have hc := l.count
    have hlt := l.lt
    subst hw
    refine .orphan rfl l.owner.not_free ⟨l.no.queue, l.no.data, l.no.md⟩ ?_ l.cbRuns l.xorCalls_le
    exact List.length_eq_zero_iff.mp (by omega : v.q.children.length = 0)
  | deferred k b calls other hw =>
    have l := h.looping calls
    have hk := l.submitted
    subst hw
    refine .chunks ⟨l.owner.not_free, l.owner.priv, l.owner.reads, l.owner.completions, l.owner.dest_lt,
      l.owner.io_type, l.owner.lists, l.owner.setup⟩ ⟨l.no.queue, l.no.data, l.no.md⟩ l.cbRuns l.xorCalls (.wait rfl ?_ ?_ ?_ ?_ ?_) l.sources
    all_goals simp only [View.set, hk]
    · simp [l.waits]
    · exact l.lt
    · exact l.le
    · exact l.count
    · exact other
  | refused k b calls type more hw =>
    have l := h.looping calls
    have hc := l.count
    have hle := l.le
    have hlt := l.lt
    have hpos : 0 < v.q.children.length := List.length_pos_iff.mpr more
    subst hw
    refine .chunks ⟨l.owner.not_free, l.owner.priv, l.owner.reads, l.owner.completions, l.owner.dest_lt,
      l.owner.io_type, l.owner.lists, l.owner.setup⟩ ⟨l.no.queue, l.no.data, l.no.md⟩ l.cbRuns l.xorCalls (.past rfl l.waits ?_ hpos ?_) l.sources
    all_goals simp only [View.set]
    · omega
    · omega
  | refusedLast k b calls type last hw =>
    have l := h.looping calls
    subst hw
    exact .releasing rfl l.owner.not_free ⟨l.no.queue, l.no.data, l.no.md⟩ last l.cbRuns l.xorCalls_le
  | refusedRead k hlossy calls type hw =>
    have l := h.looping calls
    have hc := l.count
    have hle := l.le
    have hlt := l.lt
    subst hw
    refine .stuck hlossy rfl ⟨l.owner.not_free, l.owner.priv, l.owner.reads, l.owner.completions, l.owner.dest_lt,
      l.owner.io_type, l.owner.lists, l.owner.setup⟩ ⟨l.no.queue, l.no.data, l.no.md⟩ type l.cbRuns l.xorCalls_le l.waits ?_ ?_
    all_goals simp only [View.set, Geometry.stripeDataChunksNum]
    · omega
    · omega
  | resumed waits hw =>
    cases h with
    | chunks owner no cbRuns xorCalls stage sources =>
      subst hw
      refine .chunks ⟨owner.not_free, owner.priv, owner.reads, owner.completions, owner.dest_lt,
        owner.io_type, owner.lists, owner.setup⟩ ⟨no.queue, no.data, no.md⟩ cbRuns xorCalls ?_ sources
      cases stage with
      | loop calls w => rw [w] at waits; cases waits
      | past calls w => rw [w] at waits; cases waits
      | wait calls _ lt le count skip =>
        exact .loop rfl rfl lt le count fun ht hr => absurd hr (skip ht)

/-- Chunk I/O that completes outside the loop: the counts of both stages without calls, and
    of a request that lost one. -/
theorem PhaseInv.counting (h : PhaseInv c lossy iso v r p) (hp : p.counts = true) :
    Owner c v r ∧ NoXor v ∧ v.q.xorCbRuns = v.q.xorCalls ∧ v.q.xorCalls ≤ 1 := by
  cases h with
  | chunks owner no cbRuns xorCalls =>
    refine ⟨owner, no, cbRuns, ?_⟩
    split at xorCalls <;> omega
  | stuck _ _ owner no _ cbRuns xorCalls => exact ⟨owner, no, cbRuns, xorCalls⟩
  | _ => cases hp

/-- A phase with chunk I/O left says nothing of a child but that it is there. -/
theorem ChunkStage.replace (h : ChunkStage c v r) (hw : w = v.set { v.q with children := w.q.children } v.x v.calls)
    (hl : w.q.children.length = v.q.children.length) : ChunkStage c w r := by
  generalize hcs : w.q.children = cs at hw hl
  subst hw
  cases h with
  | loop calls waits lt le count skip =>
    refine .loop calls waits lt ?_ ?_ ?_
    all_goals simpa only [View.set, hl]
  | wait calls waits lt le count skip =>
    refine .wait calls waits lt ?_ ?_ skip
    all_goals simpa only [View.set, hl]
  | past calls waits count pos le =>
    refine .past calls waits ?_ ?_ ?_
    all_goals simpa only [View.set, hl]

/-- The last part of a chunk phase is that of its last child. -/
theorem ChunkStage.last (h : ChunkStage c v r) (hc : v.calls = []) (hr : v.x.baseBdevIoRemaining = 1)
    (hp : v.q.children ≠ []) : v.q.children.length = 1 ∧ v.x.waits = [] := by
  have hp := List.length_pos_iff.mpr hp
  cases h with
  | loop calls => rw [calls] at hc; cases hc
  | wait _ _ lt le count => omega
  | past _ waits count => exact ⟨by omega, waits⟩

/-- An XOR phase whose call is known. -/
theorem XorStage.running_of_cont (h : XorStage c iso v r) (hc : v.calls = [.xorStripeContinue r]) :
    v.queue = 0 ∧ v.q.dataXors = [] ∧ (0 < v.q.xorRemainingMd ↔ v.q.mdXors ≠ []) ∧ Running c v := by
  cases h with
  | cont _ queue data leftMd run => exact ⟨queue, data, leftMd, run⟩
  | _ calls => rw [calls] at hc; cases hc

theorem ChunkMove.phaseInv (m : ChunkMove r d p v p' w) (h : PhaseInv c lossy iso v r p) :
    PhaseInv c lossy iso w r p' := by
  have erase {j k : Nat} {child : Child} (get : v.q.children[j]? = some (k, child)) :
      (v.q.children.eraseIdx j).length + 1 = v.q.children.length := by
    obtain ⟨hj, -⟩ := List.getElem?_eq_some_iff.mp get
    rw [List.length_eraseIdx_of_lt hj]
    omega
  cases m with
  | chunkMoved counts j k child get fresh hw =>
    have hl : w.q.children.length = v.q.children.length := by simp [hw, View.set]
    obtain ⟨o, no, -, -⟩ := h.counting counts
    have hno : NoXor w := by subst hw; exact ⟨no.queue, no.data, no.md⟩
    have ho : Owner c w r := by
      subst hw
      exact ⟨o.not_free, o.priv, o.reads, o.completions, o.dest_lt, o.io_type, o.lists, o.setup⟩
    cases h with
    | chunks owner no cbRuns xorCalls stage sources =>
      have hs := stage.replace (w := w) (by subst hw; rfl) hl
      subst hw
      exact .chunks ho hno cbRuns xorCalls hs sources
    | stuck hlossy calls owner no type cbRuns xorCalls waits count le =>
      subst hw
      exact .stuck hlossy calls ho hno type cbRuns xorCalls waits (hl ▸ count) (hl ▸ le)
    | _ => cases counts
  | chunkPart counts j k child ok get moved idle more hw =>
    have he := erase get
    obtain ⟨o, no, -, -⟩ := h.counting counts
    have hno : NoXor w := by subst hw; exact ⟨no.queue, no.data, no.md⟩
    have ho : Owner c w r := by
      subst hw
      exact ⟨o.not_free, o.priv, o.reads, o.completions, o.dest_lt, o.io_type, o.lists, o.setup⟩
    subst hw
    cases h with
    | chunks owner no cbRuns xorCalls stage sources =>
      refine .chunks ho hno cbRuns xorCalls ?_ sources
      cases stage with
      | loop calls => rw [calls] at idle; cases idle
      | wait calls waits lt le count skip =>
        refine .wait rfl waits lt ?_ ?_ skip
        all_goals simp only [View.set]
        all_goals omega
      | past calls waits count pos le =>
        refine .past rfl waits ?_ ?_ ?_
        all_goals simp only [View.set]
        all_goals omega
    | stuck hlossy calls owner no type cbRuns xorCalls waits count le =>
      refine .stuck hlossy rfl ho hno type cbRuns xorCalls waits ?_ ?_
      all_goals simp only [View.set]
      all_goals omega
    | _ => cases counts
  | chunkLast j k child ok get moved idle type last hw =>
    have he := erase get
    cases h with
    | chunks owner no cbRuns xorCalls stage =>
      obtain ⟨hl, -⟩ := stage.last idle last (by rintro h; simp [h] at get)
      subst hw
      refine .releasing rfl owner.not_free ⟨no.queue, no.data, no.md⟩ ?_ cbRuns ?_
      · exact List.length_eq_zero_iff.mp (by simp only [View.set]; omega)
      · simpa [View.set, type] using xorCalls
  | chunkXor j k child get moved idle type last status hw =>
    have he := erase get
    cases h with
    | chunks owner no cbRuns xorCalls stage =>
      obtain ⟨hl, hwt⟩ := stage.last idle last (by rintro h; simp [h] at get)
      have hz : v.q.xorCalls = 0 := by simpa [type] using xorCalls
      subst hw
      refine .xor ⟨owner.not_free, owner.priv, owner.reads, owner.completions, owner.dest_lt,
        owner.io_type, owner.lists, owner.setup⟩ ?_ hwt ?_ (cbRuns.trans hz) ?_ (fun _ => ⟨last, status⟩) (.start ?_ ⟨no.queue, no.data, no.md⟩)
      all_goals simp only [View.set, type]
      · exact List.length_eq_zero_iff.mp (by omega)
      · omega
      · rintro ⟨⟩
      · rfl
  | chunkFail j k child ok get idle type last status hw =>
    have he := erase get
    cases h with
    | chunks owner no cbRuns xorCalls stage =>
      obtain ⟨hl, -⟩ := stage.last idle last (by rintro h; simp [h] at get)
      have hf := owner.not_free
      subst hw
      refine .free rfl ⟨no.queue, no.data, no.md⟩ ?_ ?_ ?_ cbRuns ?_
      all_goals simp only [View.set, type]
      · exact List.length_eq_zero_iff.mp (by omega)
      · exact hf.1
      · exact congrArg (· + 1) hf.2
      · simpa [type] using xorCalls.trans (by simp [type])

/-! ### The XOR -/

theorem MdStart.keeps {q : StripeRequest} (m : MdStart c r v q w) :
    w.x = v.x ∧ w.freeWrite = v.freeWrite ∧ w.freeReconstruct = v.freeReconstruct ∧
    w.q = { q with
      chunkXorMdBuffers := w.q.chunkXorMdBuffers, xorRemainingMd := w.q.xorRemainingMd
      xorStatus := w.q.xorStatus, mdXors := w.q.mdXors } := by
  cases m <;> subst w <;> exact ⟨rfl, rfl, rfl, rfl⟩

/-- The XOR works on its own fields of the stripe request. -/
theorem XorMove.keeps (m : XorMove c iso r v d w) :
    w.x = v.x ∧ w.freeWrite = v.freeWrite ∧ w.freeReconstruct = v.freeReconstruct ∧
    w.q = { v.q with
      chunkIovIters := w.q.chunkIovIters, chunkXorBuffers := w.q.chunkXorBuffers
      chunkXorMdBuffers := w.q.chunkXorMdBuffers, xorLen := w.q.xorLen, xorRemaining := w.q.xorRemaining
      xorRemainingMd := w.q.xorRemainingMd, xorStatus := w.q.xorStatus, xorCb := w.q.xorCb
      dataXors := w.q.dataXors, mdXors := w.q.mdXors } := by
  cases m with
  | xorStart cb len out its calls walk md =>
    obtain ⟨hx, hw, hr, hq⟩ := md.keeps
    refine ⟨hx, hw, hr, ?_⟩
    rw [hq]
    rfl
  | _ => subst w; exact ⟨rfl, rfl, rfl, rfl⟩

theorem XorMove.owner (m : XorMove c iso r v d w) (h : Owner c v r) : Owner c w r := by
  obtain ⟨hx, hw, hr, hq⟩ := m.keeps
  refine ⟨⟨hw.trans h.not_free.1, hr.trans h.not_free.2⟩, hx ▸ h.priv, hx ▸ h.reads, hx ▸ h.completions, ?_, ?_, ?_, ?_⟩
  · rw [hq]; exact h.dest_lt
  · rw [hq, hx]; exact h.io_type
  · have ht : w.total c = v.total c := by simp only [View.total, View.numBlocks, hx]; rw [hq]
    rw [ht, hq]
    exact h.lists
  · have hs := h.setup
    unfold Setup ReadSetup WriteSetup at hs ⊢
    rw [hq, hx]
    exact hs

/-- The first segment of an XOR. -/
theorem XorPos.first {len : Nat} {out : List Addr} {its : List (List IoVec)}
    (walk : nextv NULL (v.lists c) = some (len, out, its))
    (hq : w.q.type = v.q.type ∧ w.q.chunks = v.q.chunks ∧ w.q.parityChunk = v.q.parityChunk ∧
      w.q.reconstructChunk = v.q.reconstructChunk)
    (hs : w.q.xorLen = len ∧ w.q.chunkIovIters = its ∧ w.q.xorRemaining = v.total c) (hx : w.x = v.x) :
    XorPos c w out := by
  obtain ⟨h1, h2, h3, h4⟩ := hq
  obtain ⟨h5, h6, h7⟩ := hs
  have ht : w.total c = v.total c := by simp only [View.total, View.numBlocks, hx, h1]
  have hd : w.q.destChunk = v.q.destChunk := by simp only [StripeRequest.destChunk, h1, h3, h4]
  have hl : w.lists c = v.lists c := by simp only [View.lists, srcChunks, hd, h2]
  refine ⟨by rw [h7, ht], v.lists c, by rw [h5, h6, walk], ?_⟩
  rw [hl, ht, h7, Nat.sub_self]
  rfl

theorem XorMove.stage (m : XorMove c iso r v d w) (h : XorStage c iso v r) (ho : Owner c v r) (hs : v.Sane c) :
    XorStage c iso w r := by
  cases m with
  | xorStart cb len out its calls walk md =>
    obtain ⟨hno, hcb⟩ : NoXor v ∧ cb = v.q.type.xorCb := by
      cases h with
      | start hc no =>
        rw [hc] at calls
        simp only [List.cons.injEq, Call.xorStripe.injEq, true_and, and_true] at calls
        exact ⟨no, calls.symm⟩
      | _ hc => rw [hc] at calls; cases calls
    have hpos := hs.total_pos
    have hlt := hs.total_lt
    have hmd := hs.mdLen_lt
    have hp : XorPos c { v with q := v.q.started cb (v.total c) len its } out :=
      .first walk ⟨rfl, rfl, rfl, rfl⟩ ⟨rfl, rfl, rfl⟩ rfl
    have hseg : ∀ b, some out = some b → b = out := fun b hb => (Option.some.inj hb).symm
    cases md with
    | none md left hw =>
      have left : v.q.xorRemainingMd = 0 := left
      subst hw
      refine .cont rfl hno.queue hno.data ?_ ⟨by simp [View.set, StripeRequest.started, hno.md], hcb, hpos, ?_, out, hp, hseg⟩
      · simp [View.set, StripeRequest.started, left, hno.md]
      · simp [View.set, StripeRequest.started, left]
    | accepted srcs x md dst hw =>
      subst hw
      have h0 : 0 < v.numBlocks c * c.mdSize := Nat.mul_pos hs.blocks_pos (hs.md md)
      refine .cont rfl hno.queue hno.data ?_ ⟨by simp [View.set, StripeRequest.started, hno.md], hcb, hpos, hmd, out, hp, hseg⟩
      refine ⟨fun _ => ?_, fun _ => h0⟩
      simp [View.set]
    | deferred srcs md hw =>
      subst hw
      have h0 : 0 < v.numBlocks c * c.mdSize := Nat.mul_pos hs.blocks_pos (hs.md md)
      exact .retry rfl (by simp [hno.queue]) hno.data (fun _ => h0)
        ⟨by simp [View.set, StripeRequest.started, hno.md], hcb, hpos, hmd, out, hp, hseg⟩
    | refused srcs status hst md hw =>
      subst hw
      exact .done rfl ⟨hno.queue, hno.data, hno.md⟩ hcb
  | xorAccepted x calls len fresh mine ops hw =>
    obtain ⟨queue, data, leftMd, run⟩ := h.running_of_cont calls
    obtain ⟨out, hp, hseg⟩ := run.pos
    subst hw
    refine .inFlight rfl queue ⟨x, by simp [View.set, data], len, ?_⟩ leftMd ⟨run.md, run.cb, run.left, run.mdLt, out, hp, hseg⟩
    intro hi
    obtain ⟨b, hb⟩ := Option.ne_none_iff_exists'.mp (mine hi)
    obtain ⟨h1, h2⟩ := ops b hb
    exact ⟨out, hp, hseg b hb ▸ h1, hseg b hb ▸ h2⟩
  | xorDeferred srcs calls hw =>
    obtain ⟨queue, data, leftMd, run⟩ := h.running_of_cont calls
    obtain ⟨out, hp, hseg⟩ := run.pos
    subst hw
    exact .retry rfl (by simp [queue]) data leftMd.mpr ⟨run.md, run.cb, run.left, run.mdLt, out, hp, hseg⟩
  | xorRefused srcs status calls hst md hw =>
    obtain ⟨queue, data, leftMd, run⟩ := h.running_of_cont calls
    subst hw
    exact .done rfl ⟨queue, data, md⟩ run.cb
  | xorRetried queue hw left =>
    cases h with
    | retry calls _ data leftMd run =>
      obtain ⟨out, hp, hseg⟩ := run.pos
      subst hw
      refine .cont rfl rfl data ?_ ⟨run.md, run.cb, run.left, run.mdLt, out, hp, hseg⟩
      simp only [left, Nat.lt_irrefl, false_iff, not_not]
      by_contra hne
      have := leftMd hne
      omega
    | start _ no => rw [no.queue] at queue; cases queue
    | done _ no => rw [no.queue] at queue; cases queue
    | _ _ q => rw [q] at queue; cases queue
  | xorRestarted queue md hw =>
    cases h with
    | retry calls _ data leftMd run =>
      subst hw
      exact .start (by rw [run.cb]) ⟨rfl, data, md⟩
    | start _ no => rw [no.queue] at queue; cases queue
    | done _ no => rw [no.queue] at queue; cases queue
    | _ _ q => rw [q] at queue; cases queue
  | xorStored j x get hw =>
    cases h with
    | inFlight calls queue data leftMd run =>
      obtain ⟨y, hy, hlen, hon⟩ := data
      obtain ⟨out, hp, hseg⟩ := run.pos
      obtain ⟨rfl, rfl⟩ : j = 0 ∧ x = y := by
        rw [hy] at get
        cases j <;> simp_all
      subst hw
      refine .inFlight calls queue ⟨{ x with stored := true }, by simp [View.set, hy], hlen, ?_⟩ leftMd
        ⟨run.md, run.cb, run.left, run.mdLt, out, hp, hseg⟩
      intro hi
      obtain ⟨out', hp', h1, h2⟩ := hon hi
      exact ⟨out', hp', h1, h2⟩
    | start _ no => simp [no.data] at get
    | done _ no => simp [no.data] at get
    | cont _ _ data => simp [data] at get
    | retry _ _ data => simp [data] at get
    | mdInFlight _ _ data => simp [data] at get
  | mdStored j x get hw =>
    have hne {k : List AccelXor} : k.set j { x with stored := true } ≠ [] ↔ k ≠ [] := by simp
    subst hw
    cases h with
    | start _ no => simp [no.md] at get
    | done _ no => simp [no.md] at get
    | cont calls queue data leftMd run =>
      obtain ⟨out, hp, hseg⟩ := run.pos
      exact .cont calls queue data (leftMd.trans hne.symm)
        ⟨by simpa [View.set] using run.md, run.cb, run.left, run.mdLt, out, hp, hseg⟩
    | retry calls queue data leftMd run =>
      obtain ⟨out, hp, hseg⟩ := run.pos
      exact .retry calls queue data (fun h => leftMd (hne.mp h))
        ⟨by simpa [View.set] using run.md, run.cb, run.left, run.mdLt, out, hp, hseg⟩
    | inFlight calls queue data leftMd run =>
      obtain ⟨y, hy, hlen, hon⟩ := data
      obtain ⟨out, hp, hseg⟩ := run.pos
      exact .inFlight calls queue ⟨y, hy, hlen, hon⟩ (leftMd.trans hne.symm)
        ⟨by simpa [View.set] using run.md, run.cb, run.left, run.mdLt, out, hp, hseg⟩
    | mdInFlight calls queue data md cb left =>
      exact .mdInFlight calls queue data (by simpa [View.set] using md) cb left
  | xorSegment x status len out its data stored idle more walk hw =>
    cases h with
    | inFlight calls queue _ leftMd run =>
      obtain ⟨out', hp, -⟩ := run.pos
      subst hw
      refine .cont rfl queue rfl leftMd ⟨run.md, run.cb, ?_, run.mdLt, out, ?_, ?_⟩
      · simp only [View.set]
        omega
      · exact hp.next walk (hp.len_le ho) rfl rfl
      · intro b hb
        exact (Option.some.inj hb).symm
    | start _ no => simp [no.data] at data
    | done _ no => simp [no.data] at data
    | cont _ _ d => simp [d] at data
    | retry _ _ d => simp [d] at data
    | mdInFlight _ _ d => simp [d] at data
  | xorData x status data stored idle quiet last hw =>
    cases h with
    | inFlight calls queue _ leftMd run =>
      subst hw
      by_cases hz : v.q.xorRemainingMd = 0
      · have hmd : v.q.mdXors = [] := by
          by_contra hne
          have := leftMd.mpr hne
          omega
        exact .done (by simp [View.set, hz]) ⟨queue, rfl, hmd⟩ run.cb
      · have hmd : v.q.mdXors.length = 1 := by
          have h1 := run.md
          have h2 := List.length_pos_iff.mpr (leftMd.mp (by omega))
          omega
        exact .mdInFlight (by simp [View.set, hz]) queue rfl hmd run.cb rfl
    | start _ no => simp [no.data] at data
    | done _ no => simp [no.data] at data
    | cont _ _ d => simp [d] at data
    | retry _ _ d => simp [d] at data
    | mdInFlight _ _ d => simp [d] at data
  | xorMd x status md idle quiet hw =>
    subst hw
    cases h with
    | start _ no => simp [no.md] at md
    | done _ no => simp [no.md] at md
    | cont calls => rw [calls] at idle; cases idle
    | retry calls queue data leftMd run =>
      obtain ⟨out, hp, hseg⟩ := run.pos
      have hl := run.left
      exact .retry (by simp [View.set]; omega) queue data (fun h => absurd rfl h)
        ⟨by simp [View.set], run.cb, run.left, by simp [View.set], out, hp, hseg⟩
    | inFlight calls queue data leftMd run =>
      obtain ⟨y, hy, hlen, hon⟩ := data
      obtain ⟨out, hp, hseg⟩ := run.pos
      have hl := run.left
      exact .inFlight (by simp [View.set]; omega) queue ⟨y, hy, hlen, hon⟩ (by simp [View.set])
        ⟨by simp [View.set], run.cb, run.left, by simp [View.set], out, hp, hseg⟩
    | mdInFlight calls queue data _ cb left =>
      exact .done (by simp [View.set, left]) ⟨queue, data, rfl⟩ cb

/-- After the start of an XOR all of it is left. -/
theorem XorMove.start_left {cb : XorCb} (m : XorMove c iso r v d w) (h : PhaseInv c lossy iso v r .xor) (hs : v.Sane c)
    (hc : v.calls = [.xorStripe r cb]) : w.q.xorRemaining = v.total c ∧ w.q.xorRemainingMd < 2 ^ 63 := by
  have hno : NoXor v := by
    cases h with
    | xor _ _ _ _ _ _ _ stage =>
      cases stage with
      | start _ no => exact no
      | _ calls => rw [calls] at hc; cases hc
  have hlt := hs.mdLen_lt
  cases m with
  | xorStart cb len out its calls walk md =>
    cases md with
    | none _ left hw =>
      have left : v.q.xorRemainingMd = 0 := left
      subst hw
      exact ⟨rfl, by simp [View.set, StripeRequest.started, left]⟩
    | accepted _ _ _ _ hw => subst hw; exact ⟨rfl, hlt⟩
    | deferred _ _ hw => subst hw; exact ⟨rfl, hlt⟩
    | refused _ _ _ _ hw => subst hw; exact ⟨rfl, hlt⟩
  | xorAccepted _ calls => rw [calls] at hc; cases hc
  | xorDeferred _ calls => rw [calls] at hc; cases hc
  | xorRefused _ _ calls => rw [calls] at hc; cases hc
  | xorRetried queue => rw [hno.queue] at queue; cases queue
  | xorRestarted queue => rw [hno.queue] at queue; cases queue
  | xorStored _ _ get => simp [hno.data] at get
  | mdStored _ _ get => simp [hno.md] at get
  | xorSegment _ _ _ _ _ data => simp [hno.data] at data
  | xorData _ _ data => simp [hno.data] at data
  | xorMd _ _ md => simp [hno.md] at md

theorem XorMove.phaseInv (m : XorMove c iso r v d w) (h : PhaseInv c lossy iso v r .xor) (hs : v.Sane c) :
    PhaseInv c lossy iso w r .xor := by
  cases h with
  | xor owner children waits xorCalls cbRuns write reconstruct stage =>
    obtain ⟨hx, -, -, hq⟩ := m.keeps
    refine .xor (m.owner owner) ?_ (hx ▸ waits) ?_ ?_ ?_ ?_ (m.stage stage owner hs)
    · rw [hq]; exact children
    · rw [hq]; exact xorCalls
    · rw [hq]; exact cbRuns
    · rw [hq, hx]; exact write
    · rw [hq, hx]; exact reconstruct

/-! ### The end, and moves of any phase -/

/-- `xor.cb` is about to run. -/
structure Finishing (c : RaidChannel) (v : View) (r : Nat) : Prop where
  owner : Owner c v r
  no : NoXor v
  children : v.q.children = []
  waits : v.x.waits = []
  xorCalls : v.q.xorCalls = 1
  cbRuns : v.q.xorCbRuns = 0
  write : v.q.type = .write → v.x.baseBdevIoRemaining = c.numBaseBdevs ∧ v.x.baseBdevIoSubmitted = 0
  reconstruct : v.q.type = .reconstruct → v.x.baseBdevIoRemaining = 1 ∧ v.x.baseBdevIoStatus = .success
  cb : v.q.xorCb = v.q.type.xorCb

theorem PhaseInv.finishing (h : PhaseInv c lossy iso v r .xor) (hc : v.calls = [.xorStripeDone r]) :
    Finishing c v r := by
  cases h with
  | xor owner children waits xorCalls cbRuns write reconstruct stage =>
    cases stage with
    | done _ no cb => exact ⟨owner, no, children, waits, xorCalls, cbRuns, write, reconstruct, cb⟩
    | _ calls => rw [calls] at hc; cases hc

theorem EndMove.phaseInv (m : EndMove r v p w) (h : PhaseInv c lossy iso v r .xor) :
    PhaseInv c lossy iso w r p := by
  cases m with
  | wrote calls type status hw =>
    have f := h.finishing calls
    have o := f.owner
    obtain ⟨hr, hs⟩ := f.write type
    have hn := c.base_bdevs_min
    subst hw
    refine .chunks ⟨o.not_free, o.priv, o.reads, o.completions, o.dest_lt, o.io_type, o.lists, o.setup⟩
      ⟨f.no.queue, f.no.data, f.no.md⟩ ?_ ?_ (.loop ?_ f.waits ?_ ?_ ?_ ?_) (.inr fun h => ?_)
    all_goals simp only [View.set, f.cbRuns, f.xorCalls, type, hr, hs, f.children, List.length_nil]
    · simp
    · omega
    · omega
    · rintro ⟨⟩
    · cases type.symm.trans h
  | writeFail calls type hw =>
    have f := h.finishing calls
    have hf := f.owner.not_free
    subst hw
    refine .free rfl ⟨f.no.queue, f.no.data, f.no.md⟩ f.children ?_ ?_ ?_ ?_
    all_goals simp only [View.set, f.cbRuns, f.xorCalls, type]
    · exact congrArg (· + 1) hf.1
    · exact hf.2
    · omega
  | reconstructed calls type hw =>
    have f := h.finishing calls
    have hf := f.owner.not_free
    subst hw
    refine .free rfl ⟨f.no.queue, f.no.data, f.no.md⟩ f.children ?_ ?_ ?_ ?_
    all_goals simp only [View.set, f.cbRuns, f.xorCalls, type]
    · exact hf.1
    · exact congrArg (· + 1) hf.2
    · omega

/-- The invariant does not read the xor status. -/
theorem PhaseInv.callback {st : Int} {f : Bool} (h : PhaseInv c lossy iso v r p) :
    PhaseInv c lossy iso { v with q := { v.q with xorStatus := st }, failing := f } r p := by
  have howner (o : Owner c v r) : Owner c { v with q := { v.q with xorStatus := st }, failing := f } r :=
    ⟨o.not_free, o.priv, o.reads, o.completions, o.dest_lt, o.io_type, o.lists, o.setup⟩
  have hno (no : NoXor v) : NoXor { v with q := { v.q with xorStatus := st }, failing := f } :=
    ⟨no.queue, no.data, no.md⟩
  have hrun (run : Running c v) : Running c { v with q := { v.q with xorStatus := st }, failing := f } := by
    obtain ⟨out, hp, hseg⟩ := run.pos
    exact ⟨run.md, run.cb, run.left, run.mdLt, out, hp, hseg⟩
  cases h with
  | free calls no children write reconstruct cbRuns xorCalls =>
    exact .free calls (hno no) children write reconstruct cbRuns xorCalls
  | chunks owner no cbRuns xorCalls stage sources =>
    exact .chunks (howner owner) (hno no) cbRuns xorCalls (by
      cases stage with
      | loop calls waits lt le count skip => exact .loop calls waits lt le count skip
      | wait calls waits lt le count skip => exact .wait calls waits lt le count skip
      | past calls waits count pos le => exact .past calls waits count pos le) sources
  | xor owner children waits xorCalls cbRuns write reconstruct stage =>
    exact .xor (howner owner) children waits xorCalls cbRuns write reconstruct (by
      cases stage with
      | start calls no => exact .start calls (hno no)
      | cont calls queue data leftMd run => exact .cont calls queue data leftMd (hrun run)
      | retry calls queue data leftMd run => exact .retry calls queue data leftMd (hrun run)
      | inFlight calls queue data leftMd run => exact .inFlight calls queue data leftMd (hrun run)
      | mdInFlight calls queue data md cb left => exact .mdInFlight calls queue data md cb left
      | done calls no cb => exact .done calls (hno no) cb)
  | releasing calls not_free no children cbRuns xorCalls =>
    exact .releasing calls not_free (hno no) children cbRuns xorCalls
  | orphan calls not_free no children cbRuns xorCalls =>
    exact .orphan calls not_free (hno no) children cbRuns xorCalls
  | stuck hlossy calls owner no type cbRuns xorCalls waits count le =>
    exact .stuck hlossy calls (howner owner) (hno no) type cbRuns xorCalls waits count le

theorem BeginMove.phaseInv (m : BeginMove c lossy iso r v p w) : PhaseInv c lossy iso w r p := by
  cases m with
  | prepared inv => exact inv
  | beginChunks inv => exact inv
  | beginXor inv => exact inv

/-- Every move keeps the invariant of its stripe request. -/
theorem Move.phaseInv (m : Move c lossy iso r d p v p' w) (h : PhaseInv c lossy iso v r p)
    (hs : p = .xor → v.Sane c) : PhaseInv c lossy iso w r p' := by
  cases m with
  | begin m => exact m.phaseInv
  | loop m => exact m.phaseInv h
  | chunk m => exact m.phaseInv h
  | xor m => exact m.phaseInv h (hs rfl)
  | finish m => exact m.phaseInv h
  | callback st f keep hw => exact hw ▸ h.callback
  | released calls hw =>
    cases h with
    | releasing _ not_free no children cbRuns xorCalls =>
      subst hw
      refine .free rfl ⟨no.queue, no.data, no.md⟩ children ?_ ?_ cbRuns xorCalls
      · simp only [not_free.1, Nat.zero_add]
      · simp only [not_free.2, Nat.zero_add]

theorem XorMove.sameWork (m : XorMove c iso r v d w) : SameWork v.q w.q := by
  cases m with
  | xorStart cb len out its calls walk md =>
    cases md with
    | none _ _ hw => exact hw ▸ ⟨rfl, rfl, rfl, rfl, rfl, rfl, rfl⟩
    | accepted _ _ _ _ hw => exact hw ▸ ⟨rfl, rfl, rfl, rfl, rfl, rfl, rfl⟩
    | deferred _ _ hw => exact hw ▸ ⟨rfl, rfl, rfl, rfl, rfl, rfl, rfl⟩
    | refused _ _ _ _ hw => exact hw ▸ ⟨rfl, rfl, rfl, rfl, rfl, rfl, rfl⟩
  | xorAccepted _ _ _ _ _ _ hw => exact hw ▸ ⟨rfl, rfl, rfl, rfl, rfl, rfl, rfl⟩
  | xorDeferred _ _ hw => exact hw ▸ ⟨rfl, rfl, rfl, rfl, rfl, rfl, rfl⟩
  | xorRefused _ _ _ _ _ hw => exact hw ▸ ⟨rfl, rfl, rfl, rfl, rfl, rfl, rfl⟩
  | xorRetried _ hw => exact hw ▸ .self _
  | xorRestarted _ _ hw => exact hw ▸ .self _
  | xorStored _ _ _ hw => exact hw ▸ ⟨rfl, rfl, rfl, rfl, rfl, rfl, rfl⟩
  | mdStored _ _ _ hw => exact hw ▸ ⟨rfl, rfl, rfl, rfl, rfl, rfl, rfl⟩
  | xorSegment _ _ _ _ _ _ _ _ _ _ hw => exact hw ▸ ⟨rfl, rfl, rfl, rfl, rfl, rfl, rfl⟩
  | xorData _ _ _ _ _ _ _ hw => exact hw ▸ ⟨rfl, rfl, rfl, rfl, rfl, rfl, rfl⟩
  | xorMd _ _ _ _ _ hw => exact hw ▸ ⟨rfl, rfl, rfl, rfl, rfl, rfl, rfl⟩

/-- A stripe request is set up once, when it is taken from its free list. -/
theorem Move.sameWork (m : Move c lossy iso r d p v p' w) (hp : p ≠ .free) : SameWork v.q w.q := by
  cases m with
  | begin m => exact absurd rfl hp
  | loop m =>
    cases m with
    | sent _ _ _ _ hw => exact hw ▸ ⟨rfl, rfl, rfl, rfl, rfl, rfl, rfl⟩
    | skipped _ _ _ _ hw => exact hw ▸ .self _
    | skippedLast _ _ _ _ hw => exact hw ▸ .self _
    | deferred _ _ _ _ hw => exact hw ▸ ⟨rfl, rfl, rfl, rfl, rfl, rfl, rfl⟩
    | refused _ _ _ _ _ hw => exact hw ▸ ⟨rfl, rfl, rfl, rfl, rfl, rfl, rfl⟩
    | refusedLast _ _ _ _ _ hw => exact hw ▸ ⟨rfl, rfl, rfl, rfl, rfl, rfl, rfl⟩
    | refusedRead _ _ _ _ hw => exact hw ▸ .self _
    | resumed _ hw => exact hw ▸ .self _
  | chunk m =>
    cases m with
    | chunkMoved _ _ _ _ _ _ hw => exact hw ▸ ⟨rfl, rfl, rfl, rfl, rfl, rfl, rfl⟩
    | chunkPart _ _ _ _ _ _ _ _ _ hw => exact hw ▸ ⟨rfl, rfl, rfl, rfl, rfl, rfl, rfl⟩
    | chunkLast _ _ _ _ _ _ _ _ _ hw => exact hw ▸ ⟨rfl, rfl, rfl, rfl, rfl, rfl, rfl⟩
    | chunkXor _ _ _ _ _ _ _ _ _ hw => exact hw ▸ ⟨rfl, rfl, rfl, rfl, rfl, rfl, rfl⟩
    | chunkFail _ _ _ _ _ _ _ _ _ hw => exact hw ▸ ⟨rfl, rfl, rfl, rfl, rfl, rfl, rfl⟩
  | xor m => exact m.sameWork
  | finish m =>
    cases m with
    | wrote _ _ _ hw => exact hw ▸ ⟨rfl, rfl, rfl, rfl, rfl, rfl, rfl⟩
    | writeFail _ _ hw => exact hw ▸ ⟨rfl, rfl, rfl, rfl, rfl, rfl, rfl⟩
    | reconstructed _ _ hw => exact hw ▸ ⟨rfl, rfl, rfl, rfl, rfl, rfl, rfl⟩
  | callback _ _ _ hw => exact hw ▸ ⟨rfl, rfl, rfl, rfl, rfl, rfl, rfl⟩
  | released _ hw => exact hw ▸ .self _

/-- A request that is let go by its stripe request was completed once. -/
theorem Move.completed (m : Move c lossy iso r d p v p' w) (h : PhaseInv c lossy iso v r p)
    (ho : p.live = true) (ho' : p'.owns = false) :
    w.x.completions.length = 1 ∧ w.x.reads = [] ∧ w.x.waits = [] := by
  cases m with
  | begin m => cases ho
  | loop m =>
    cases m with
    | skippedLast k calls type last hw =>
      have l := h.looping calls
      subst hw
      exact ⟨by simp [View.set, l.owner.completions], l.owner.reads, l.waits⟩
    | refusedLast k b calls type last hw =>
      have l := h.looping calls
      subst hw
      exact ⟨by simp [View.set, l.owner.completions], l.owner.reads, l.waits⟩
    | _ => cases ho'
  | chunk m =>
    cases m with
    | chunkLast j k child ok get moved idle type last hw =>
      cases h with
      | chunks owner no cbRuns xorCalls stage =>
        obtain ⟨-, hwt⟩ := stage.last idle last (by rintro h; simp [h] at get)
        subst hw
        exact ⟨by simp [View.set, owner.completions], owner.reads, hwt⟩
    | chunkFail j k child ok get idle type last status hw =>
      cases h with
      | chunks owner no cbRuns xorCalls stage =>
        obtain ⟨-, hwt⟩ := stage.last idle last (by rintro h; simp [h] at get)
        subst hw
        exact ⟨by simp [View.set, owner.completions], owner.reads, hwt⟩
    | chunkMoved => rw [Phase.owns_of_live ho] at ho'; cases ho'
    | chunkPart => rw [Phase.owns_of_live ho] at ho'; cases ho'
    | chunkXor => cases ho'
  | xor m => cases ho'
  | finish m =>
    cases m with
    | wrote => cases ho'
    | writeFail calls type hw =>
      have f := h.finishing calls
      subst hw
      exact ⟨by simp [View.set, f.owner.completions], f.owner.reads, f.waits⟩
    | reconstructed calls type hw =>
      have f := h.finishing calls
      subst hw
      exact ⟨by simp [View.set, f.owner.completions], f.owner.reads, f.waits⟩
  | callback st f keep hw => rw [Phase.owns_of_live ho] at ho'; cases ho'
  | released calls hw => cases ho

end keep

end FlexBSO.Raid5f

import FlexBSO.Raid5f.Invariant

/- What a function of raid5f leaves alone. Each works on one stripe request and one
   request of the upper layer (`Frame s t r io`); the calls it pops and pushes are
   theirs, and in the lists of the channel only `r` comes and goes. Frames compose, so
   the frame of a function is the chain of its updates. What the invariant says of any
   other request survives a frame (`Inv.frame`). -/
namespace FlexBSO.Raid5f
open FlexBSO.Lib

/-- The call is of a stripe request other than `r`, or starts a request. -/
def Call.foreign (r : Nat) : Call → Bool
  | .submitRwRequest _ => true
  | .submitChunks x _ => x != r
  | .xorStripe x _ => x != r
  | .xorStripeContinue x => x != r
  | .xorStripeDone x => x != r
  | .xorRetryQueuePop => false
  | .xorStripeCbTail x _ => x != r
  | .stripeRequestRelease x => x != r
  | .userCb _ => false

/-- The two carry the same request of the upper layer. -/
structure SameRequest (x y : RaidIo) : Prop where
  type : x.type = y.type
  offsetBlocks : x.offsetBlocks = y.offsetBlocks
  numBlocks : x.numBlocks = y.numBlocks
  iovs : x.iovs = y.iovs
  mdBuf : x.mdBuf = y.mdBuf

theorem SameRequest.self (x : RaidIo) : SameRequest x x := ⟨rfl, rfl, rfl, rfl, rfl⟩

structure Frame (s t : State) (r io : Nat) : Prop where
  nios : t.nios = s.nios
  ios : ∀ x ≠ io, t.ios x = s.ios x
  request : SameRequest (t.ios io) (s.ios io)
  reqs : ∀ x ≠ r, t.reqs x = s.reqs x
  stack : t.stack.filter (Call.foreign r) = s.stack.filter (Call.foreign r)
  freeWrite : ∀ x ≠ r, t.ch.freeWrite.count x = s.ch.freeWrite.count x
  freeReconstruct : ∀ x ≠ r, t.ch.freeReconstruct.count x = s.ch.freeReconstruct.count x
  queue : ∀ x ≠ r, t.ch.xorRetryQueue.count x = s.ch.xorRetryQueue.count x
  seg : t.ch.chunkXorOwner = some r ∨
    t.ch.chunkXorOwner = s.ch.chunkXorOwner ∧ t.ch.chunkXorBuffers = s.ch.chunkXorBuffers

namespace Frame
variable {s t u : State} {r io : Nat}

theorem refl : Frame s s r io where
  nios := rfl
  ios _ _ := rfl
  request := .self _
  reqs _ _ := rfl
  stack := rfl
  freeWrite _ _ := rfl
  freeReconstruct _ _ := rfl
  queue _ _ := rfl
  seg := .inr ⟨rfl, rfl⟩

theorem trans (h : Frame s t r io) (h' : Frame t u r io) : Frame s u r io where
  nios := h'.nios.trans h.nios
  ios x hx := (h'.ios x hx).trans (h.ios x hx)
  request := ⟨h'.request.type.trans h.request.type, h'.request.offsetBlocks.trans h.request.offsetBlocks,
    h'.request.numBlocks.trans h.request.numBlocks, h'.request.iovs.trans h.request.iovs,
    h'.request.mdBuf.trans h.request.mdBuf⟩
  reqs x hx := (h'.reqs x hx).trans (h.reqs x hx)
  stack := h'.stack.trans h.stack
  freeWrite x hx := (h'.freeWrite x hx).trans (h.freeWrite x hx)
  freeReconstruct x hx := (h'.freeReconstruct x hx).trans (h.freeReconstruct x hx)
  queue x hx := (h'.queue x hx).trans (h.queue x hx)
  seg := by
    rcases h'.seg with h2 | ⟨h2, h3⟩
    · exact .inl h2
    · rcases h.seg with h0 | ⟨h0, h1⟩
      · exact .inl (h2.trans h0)
      · exact .inr ⟨h2.trans h0, h3.trans h1⟩

/-! ## Updates -/

theorem setIo {f : RaidIo → RaidIo} (hf : SameRequest (f (s.ios io)) (s.ios io)) :
    Frame s (s.setIo io f) r io where
  __ := (refl : Frame s s r io)
  ios _ hx := State.setIo_ios_of_ne hx
  request := by simpa using hf

theorem setReq {f : StripeRequest → StripeRequest} : Frame s (s.setReq r f) r io where
  __ := (refl : Frame s s r io)
  reqs _ hx := State.setReq_reqs_of_ne hx

/-- A change of the channel that leaves its lists alone where `r` is not. -/
theorem setCh {f : IoChannel → IoChannel}
    (hw : ∀ x ≠ r, (f s.ch).freeWrite.count x = s.ch.freeWrite.count x)
    (hr : ∀ x ≠ r, (f s.ch).freeReconstruct.count x = s.ch.freeReconstruct.count x)
    (hq : ∀ x ≠ r, (f s.ch).xorRetryQueue.count x = s.ch.xorRetryQueue.count x)
    (hs : (f s.ch).chunkXorOwner = some r ∨
      (f s.ch).chunkXorOwner = s.ch.chunkXorOwner ∧ (f s.ch).chunkXorBuffers = s.ch.chunkXorBuffers) :
    Frame s (s.setCh f) r io where
  __ := (refl : Frame s s r io)
  freeWrite := hw
  freeReconstruct := hr
  queue := hq
  seg := hs

theorem setStack {k : List Call} (h : k.filter (Call.foreign r) = s.stack.filter (Call.foreign r)) :
    Frame s { s with stack := k } r io where
  __ := (refl : Frame s s r io)
  stack := h

theorem push {call : Call} (h : call.foreign r = false) : Frame s (s.push call) r io where
  __ := (refl : Frame s s r io)
  stack := by simp [h]

theorem pushAll {k : List Call} (h : k.filter (Call.foreign r) = []) : Frame s (s.pushAll k) r io where
  __ := (refl : Frame s s r io)
  stack := by simp [List.filter_append, h]

theorem pop {call : Call} {rest : List Call} (hs : s.stack = call :: rest)
    (h : call.foreign r = false) : Frame s { s with stack := rest } r io :=
  setStack (by simp [hs, h])

theorem setMem {m : Mem Buf Byte} : Frame s (s.setMem m) r io where
  __ := (refl : Frame s s r io)

theorem freed : Frame s { s with freed := s.freed + 1 } r io where
  __ := (refl : Frame s s r io)

/-! ## Functions -/

variable (c : RaidChannel)

theorem raidBdevIoComplete {st : IoStatus} : Frame s (raidBdevIoComplete s io st) r io :=
  (setIo ⟨rfl, rfl, rfl, rfl, rfl⟩).trans (push rfl)

theorem raidBdevIoCompletePart {k : Nat} {st : IoStatus} {onDone : List Call}
    (h : onDone.filter (Call.foreign r) = []) :
    Frame s (raidBdevIoCompletePart s io k st onDone) r io := by
  unfold Raid5f.raidBdevIoCompletePart
  dsimp only
  split
  · exact (setIo ⟨rfl, rfl, rfl, rfl, rfl⟩).trans ((pushAll h).trans raidBdevIoComplete)
  · exact setIo ⟨rfl, rfl, rfl, rfl, rfl⟩

theorem raidBdevQueueIoWait {cb : WaitCb} : Frame s (raidBdevQueueIoWait s io cb) r io :=
  setIo ⟨rfl, rfl, rfl, rfl, rfl⟩

theorem count_cons_of_ne {x : Nat} {l : List Nat} (h : x ≠ r) : (r :: l).count x = l.count x :=
  List.count_cons_of_ne (Ne.symm h)

theorem stripeRequestRelease : Frame s (stripeRequestRelease s r) r io := by
  unfold Raid5f.stripeRequestRelease
  apply setCh
  · intro x hx
    cases (s.reqs r).type
    · exact count_cons_of_ne hx
    · rfl
  · intro x hx
    cases (s.reqs r).type
    · rfl
    · exact count_cons_of_ne hx
  · intro x hx
    cases (s.reqs r).type <;> rfl
  · cases (s.reqs r).type <;> exact .inr ⟨rfl, rfl⟩

theorem submitChunksFrom {k : Nat} : (submitChunksFrom c r k).filter (Call.foreign r) = [] := by
  unfold Raid5f.submitChunksFrom
  split <;> simp [Call.foreign]

theorem stripeRequestSubmitChunks : Frame s (stripeRequestSubmitChunks c s r) r io :=
  pushAll (submitChunksFrom c)

theorem stripeWriteRequestXorDone {st : Int} (hio : (s.reqs r).raidIo = io) :
    Frame s (stripeWriteRequestXorDone c s r st) r io := by
  unfold Raid5f.stripeWriteRequestXorDone
  rw [hio]
  split
  · exact stripeRequestRelease.trans raidBdevIoComplete
  · exact stripeRequestSubmitChunks c

theorem stripeRequestReconstructXorDone {st : Int} (hio : (s.reqs r).raidIo = io) :
    Frame s (stripeRequestReconstructXorDone s r st) r io := by
  unfold Raid5f.stripeRequestReconstructXorDone
  rw [hio]
  exact stripeRequestRelease.trans (raidBdevIoCompletePart rfl)

theorem xorStripeDone (hio : (s.reqs r).raidIo = io) : Frame s (xorStripeDone c s r) r io := by
  have h1 : Frame s ((s.push .xorRetryQueuePop).setReq r fun q => { q with xorCbRuns := q.xorCbRuns + 1 }) r io :=
    (push rfl).trans setReq
  unfold Raid5f.xorStripeDone
  dsimp only
  split
  · exact h1.trans (stripeWriteRequestXorDone c (by simpa using hio))
  · exact h1.trans (stripeRequestReconstructXorDone (by simpa using hio))

theorem xorRetryQueueInsert : Frame s (xorRetryQueueInsert s r) r io :=
  setCh (fun _ _ => rfl) (fun _ _ => rfl) (fun _ hx => count_cons_of_ne hx) (.inr ⟨rfl, rfl⟩)

theorem xorRetryQueuePop {rest : List Nat} (h : s.ch.xorRetryQueue = r :: rest) :
    Frame s (xorRetryQueuePop s) r io := by
  have h1 : Frame s (s.setCh fun ch => { ch with xorRetryQueue := rest }) r io :=
    setCh (fun _ _ => rfl) (fun _ _ => rfl) (fun x hx => by rw [h, count_cons_of_ne hx]) (.inr ⟨rfl, rfl⟩)
  unfold Raid5f.xorRetryQueuePop
  rw [h]
  dsimp only
  split
  · exact h1.trans (push (by simp [Call.foreign]))
  · exact h1.trans (push (by simp [Call.foreign]))

theorem xorStripeContinue {a : Answer} : Frame s (xorStripeContinue c s r a) r io := by
  unfold Raid5f.xorStripeContinue
  dsimp only
  split
  · exact setReq.trans setReq
  · split
    · exact setReq.trans xorRetryQueueInsert
    · exact setReq.trans (setReq.trans (push (by simp [Call.foreign])))

theorem ioviterNextv {its : List (List IoVec)} : Frame s (ioviterNextv s r its) r io := by
  unfold Raid5f.ioviterNextv
  split
  · exact setReq
  · exact setReq.trans (setCh (fun _ _ => rfl) (fun _ _ => rfl) (fun _ _ => rfl) (.inl rfl))

theorem xorStripeFirst {cb : XorCb} : Frame s (xorStripeFirst c s r cb) r io := by
  have h1 (its : List (List IoVec)) : Frame s (s.setCh fun ch => { ch with chunkXorIovs := its }) r io :=
    setCh (fun _ _ => rfl) (fun _ _ => rfl) (fun _ _ => rfl) (.inr ⟨rfl, rfl⟩)
  unfold Raid5f.xorStripeFirst
  exact (h1 _).trans (ioviterNextv.trans setReq)

theorem xorStripeMd {len : Nat} {a : Answer} : Frame s (xorStripeMd c s r len a) r io := by
  unfold Raid5f.xorStripeMd
  dsimp only
  split
  · exact setReq.trans (setReq.trans (push (by simp [Call.foreign])))
  · split
    · exact setReq.trans xorRetryQueueInsert
    · exact setReq.trans (setReq.trans (push (by simp [Call.foreign])))

theorem xorStripe {cb : XorCb} {a : Answer} : Frame s (xorStripe c s r cb a) r io := by
  unfold Raid5f.xorStripe
  split
  · exact (xorStripeFirst c).trans (xorStripeMd c)
  · exact (xorStripeFirst c).trans (push (by simp [Call.foreign]))

theorem xorStripeCbTail {st : Int} : Frame s (xorStripeCbTail s r st) r io := by
  have h1 : Frame s (if st ≠ 0 then s.setReq r fun q => { q with xorStatus := st } else s) r io := by
    split
    · exact setReq
    · exact refl
  unfold Raid5f.xorStripeCbTail
  dsimp only
  generalize (if st ≠ 0 then s.setReq r fun q => { q with xorStatus := st } else s) = s₁ at h1 ⊢
  refine h1.trans ?_
  split
  · exact push (by simp [Call.foreign])
  · exact refl

theorem xorStripeCb {st : Int} : Frame s (xorStripeCb s r st) r io := by
  unfold Raid5f.xorStripeCb
  dsimp only
  split
  · exact setReq.trans
      (ioviterNextv.trans ((push (by simp [Call.foreign])).trans (push (by simp [Call.foreign]))))
  · exact setReq.trans xorStripeCbTail

theorem xorStripeMdCb {st : Int} : Frame s (xorStripeMdCb s r st) r io :=
  setReq.trans xorStripeCbTail

theorem stripeRequestChunkWriteComplete {st : IoStatus} (hio : (s.reqs r).raidIo = io) :
    Frame s (stripeRequestChunkWriteComplete s r st) r io := by
  unfold Raid5f.stripeRequestChunkWriteComplete
  rw [hio]
  exact raidBdevIoCompletePart (by simp [Call.foreign])

theorem stripeRequestChunkReadComplete {st : IoStatus} (hio : (s.reqs r).raidIo = io) :
    Frame s (stripeRequestChunkReadComplete s r st) r io := by
  unfold Raid5f.stripeRequestChunkReadComplete
  dsimp only
  rw [hio]
  split
  · split
    · exact setReq.trans (push (by simp [Call.foreign]))
    · exact stripeRequestRelease.trans (raidBdevIoCompletePart rfl)
  · exact raidBdevIoCompletePart rfl

theorem chunkCompleteBdevIo {ok : Bool} (hio : (s.reqs r).raidIo = io) :
    Frame s (chunkCompleteBdevIo s r ok) r io := by
  have h1 : Frame s { s with freed := s.freed + 1 } r io := freed
  unfold Raid5f.chunkCompleteBdevIo
  cases h : (s.reqs r).type with
  | write =>
    simp only [h]
    exact h1.trans (stripeRequestChunkWriteComplete hio)
  | reconstruct =>
    simp only [h]
    exact h1.trans (stripeRequestChunkReadComplete hio)

theorem chunkSubmitDone {child : Nat × Child} {ret : Int} {next : List Call} (hio : (s.reqs r).raidIo = io)
    (hn : next.filter (Call.foreign r) = []) : Frame s (chunkSubmitDone c s r child ret next) r io := by
  have h1 : Frame s (s.setIo io fun x => { x with baseBdevIoSubmitted := x.baseBdevIoSubmitted - 1 }) r io :=
    setIo ⟨rfl, rfl, rfl, rfl, rfl⟩
  unfold Raid5f.chunkSubmitDone
  dsimp only
  rw [hio]
  split
  · exact setReq.trans (pushAll hn)
  · split
    · exact h1.trans raidBdevQueueIoWait
    · exact h1.trans (raidBdevIoCompletePart (by simp [Call.foreign]))

theorem poisonChunk {k : Nat} {b : Bool} : Frame s (poisonChunk s r k b) r io := by
  unfold Raid5f.poisonChunk
  dsimp only
  split
  · exact setReq.trans setMem
  · exact refl

theorem poisonChunk_raidIo {k : Nat} {b : Bool} : ((Raid5f.poisonChunk s r k b).reqs r).raidIo = (s.reqs r).raidIo := by
  unfold Raid5f.poisonChunk
  dsimp only
  split
  · simp
  · rfl

theorem chunkSubmit {k : Nat} {a : Answer} {next : List Call} (hio : (s.reqs r).raidIo = io)
    (hn : next.filter (Call.foreign r) = []) (h : chunkSubmit c s r k a next = some t) : Frame s t r io := by
  have h2 : Frame s (s.setIo io fun x => { x with baseBdevIoSubmitted := x.baseBdevIoSubmitted + 1 }) r io ∧
      ((s.setIo io fun x => { x with baseBdevIoSubmitted := x.baseBdevIoSubmitted + 1 }).reqs r).raidIo = io :=
    ⟨setIo ⟨rfl, rfl, rfl, rfl, rfl⟩, hio⟩
  unfold Raid5f.chunkSubmit at h
  dsimp only at h
  rw [hio] at h
  generalize (s.setIo io fun x => { x with baseBdevIoSubmitted := x.baseBdevIoSubmitted + 1 }) = s₁ at h h2
  obtain ⟨h1, hio₁⟩ := h2
  split at h
  · split at h
    · obtain rfl := Option.some.inj h
      exact h1.trans ((pushAll hn).trans (raidBdevIoCompletePart rfl))
    · obtain rfl := Option.some.inj h
      exact h1.trans (poisonChunk.trans (chunkSubmitDone c (poisonChunk_raidIo.trans hio₁) hn))
  · split at h
    · obtain rfl := Option.some.inj h
      exact h1.trans ((pushAll hn).trans (raidBdevIoCompletePart rfl))
    · split at h
      · cases h
      · obtain rfl := Option.some.inj h
        exact h1.trans (chunkSubmitDone c hio₁ hn)

theorem submitChunks {k : Nat} {a : Answer} (hio : (s.reqs r).raidIo = io)
    (h : submitChunks c s r k a = some t) : Frame s t r io :=
  chunkSubmit c hio (submitChunksFrom c) h

/-! ## What a frame leaves to the others -/

theorem count_submit (h : Frame s t r io) (x : Nat) :
    t.stack.count (.submitRwRequest x) = s.stack.count (.submitRwRequest x) := by
  have hf : Call.foreign r (.submitRwRequest x) = true := rfl
  rw [← List.count_filter hf, h.stack, List.count_filter hf]

theorem callsOf (h : Frame s t r io) {x : Nat} (hx : x ≠ r) : t.callsOf x = s.callsOf x := by
  have hf (k : List Call) : k.filter (Call.about x) = (k.filter (Call.foreign r)).filter (Call.about x) := by
    rw [List.filter_filter]
    apply List.filter_congr
    intro call _
    cases call <;> simp [Call.about, Call.foreign] <;> rintro rfl <;> exact hx
  unfold State.callsOf
  rw [hf t.stack, h.stack, ← hf]

theorem failing (h : Frame s t r io) {x : Nat} (hx : x ≠ r) : t.failing x = s.failing x := by
  have hf (k : List Call) (p : Call → Bool) (hp : ∀ call, p call = true → call.foreign r = true) :
      k.any p = (k.filter (Call.foreign r)).any p := by
    rw [Bool.eq_iff_iff]
    simp only [List.any_eq_true, List.mem_filter]
    constructor
    · rintro ⟨call, hk, hc⟩
      exact ⟨call, ⟨hk, hp call hc⟩, hc⟩
    · rintro ⟨call, ⟨hk, -⟩, hc⟩
      exact ⟨call, hk, hc⟩
  unfold State.failing
  rw [hf t.stack, h.stack, ← hf] <;>
  · intro call hc
    cases call <;> simp_all [Call.foreign]

end Frame

/-- `w` is `v` but for the request of the upper layer and for segments lost to another. -/
structure View.Like (v w : View) : Prop where
  q : w.q = v.q
  calls : w.calls = v.calls
  freeWrite : w.freeWrite = v.freeWrite
  freeReconstruct : w.freeReconstruct = v.freeReconstruct
  queue : w.queue = v.queue
  seg : w.seg = v.seg ∨ w.seg = none
  failing : w.failing = v.failing

theorem Frame.like {s t : State} {r io x : Nat} (h : Frame s t r io) (hx : x ≠ r) :
    (s.view x).Like (t.view x) where
  q := h.reqs x hx
  calls := h.callsOf hx
  freeWrite := h.freeWrite x hx
  freeReconstruct := h.freeReconstruct x hx
  queue := h.queue x hx
  failing := h.failing hx
  seg := by
    simp only [State.view]
    rcases h.seg with ho | ⟨ho, hb⟩
    · right
      rw [ho, if_neg (by simpa using Ne.symm hx)]
    · left
      rw [ho, hb]

section congr
variable {c : RaidChannel} {lossy iso : Prop} {v w : View} {r : Nat} {p : Phase}

theorem XorPos.like {out : List Addr} (h : XorPos c v out) (l : v.Like w) (hx : w.x = v.x) : XorPos c w out := by
  simpa only [XorPos, View.total, View.numBlocks, View.lists, l.q, hx] using h

theorem OnSegment.like {x : AccelXor} (h : OnSegment c v x) (l : v.Like w) (hx : w.x = v.x) :
    OnSegment c w x := by
  obtain ⟨out, hp, he⟩ := h
  exact ⟨out, hp.like l hx, he⟩

theorem Running.like (h : Running c v) (l : v.Like w) (hx : w.x = v.x) : Running c w := by
  obtain ⟨out, hp, hs⟩ := h.pos
  refine ⟨l.q ▸ h.md, l.q ▸ h.cb, l.q ▸ h.left, l.q ▸ h.mdLt, out, hp.like l hx, ?_⟩
  intro b hb
  rcases l.seg with e | e
  · exact hs b (e ▸ hb)
  · rw [e] at hb
    cases hb

theorem Owner.like (h : Owner c v r) (l : v.Like w) (hx : w.x = v.x) : Owner c w r where
  not_free := ⟨l.freeWrite.trans h.not_free.1, l.freeReconstruct.trans h.not_free.2⟩
  priv := hx ▸ h.priv
  reads := hx ▸ h.reads
  completions := hx ▸ h.completions
  dest_lt := l.q ▸ h.dest_lt
  io_type := by rw [hx, l.q]; exact h.io_type
  lists := by simpa only [View.total, View.numBlocks, l.q, hx] using h.lists
  setup := by simpa only [Setup, ReadSetup, WriteSetup, l.q, hx] using h.setup

theorem NoXor.like (h : NoXor v) (l : v.Like w) : NoXor w :=
  ⟨l.queue.trans h.queue, l.q ▸ h.data, l.q ▸ h.md⟩

theorem ChunkStage.like (h : ChunkStage c v r) (l : v.Like w) (hx : w.x = v.x) : ChunkStage c w r := by
  cases h with
  | loop calls waits lt le count skip =>
    refine .loop ?_ ?_ ?_ ?_ ?_ ?_
    all_goals simpa only [l.q, l.calls, hx]
  | wait calls waits lt le count skip =>
    refine .wait ?_ ?_ ?_ ?_ ?_ ?_
    all_goals simpa only [l.q, l.calls, hx]
  | past calls waits count pos le =>
    refine .past ?_ ?_ ?_ ?_ ?_
    all_goals simpa only [l.q, l.calls, hx]

theorem XorStage.like (h : XorStage c iso v r) (l : v.Like w) (hx : w.x = v.x) : XorStage c iso w r := by
  cases h with
  | start calls no => exact .start (by rw [l.calls, l.q]; exact calls) (no.like l)
  | cont calls queue data leftMd run =>
    exact .cont (l.calls.trans calls) (l.queue.trans queue) (l.q ▸ data) (l.q ▸ leftMd) (run.like l hx)
  | retry calls queue data leftMd run =>
    exact .retry (l.calls.trans calls) (l.queue.trans queue) (l.q ▸ data) (l.q ▸ leftMd) (run.like l hx)
  | inFlight calls queue data leftMd run =>
    obtain ⟨x, hd, hl, ho⟩ := data
    exact .inFlight (l.calls.trans calls) (l.queue.trans queue)
      ⟨x, l.q ▸ hd, l.q ▸ hl, fun hi => (ho hi).like l hx⟩ (l.q ▸ leftMd) (run.like l hx)
  | mdInFlight calls queue data md cb left =>
    exact .mdInFlight (l.calls.trans calls) (l.queue.trans queue) (l.q ▸ data) (l.q ▸ md) (l.q ▸ cb) (l.q ▸ left)
  | done calls no cb => exact .done (l.calls.trans calls) (no.like l) (l.q ▸ cb)

/-- A phase that does not own its request does not read it. -/
theorem PhaseInv.like (h : PhaseInv c lossy iso v r p) (l : v.Like w) (hx : p.owns = true → w.x = v.x) :
    PhaseInv c lossy iso w r p := by
  cases h with
  | free calls no children write reconstruct cbRuns xorCalls =>
    exact .free (l.calls.trans calls) (no.like l) (l.q ▸ children) (by rw [l.freeWrite, l.q]; exact write)
      (by rw [l.freeReconstruct, l.q]; exact reconstruct) (l.q ▸ cbRuns) (l.q ▸ xorCalls)
  | chunks owner no cbRuns xorCalls stage sources =>
    have hx := hx rfl
    exact .chunks (owner.like l hx) (no.like l) (l.q ▸ cbRuns) (l.q ▸ xorCalls) (stage.like l hx)
      (by unfold Sources; rw [l.q]; exact sources)
  | xor owner children waits xorCalls cbRuns write reconstruct stage =>
    have hx := hx rfl
    exact .xor (owner.like l hx) (l.q ▸ children) (hx ▸ waits) (l.q ▸ xorCalls) (l.q ▸ cbRuns)
      (by rw [l.q, hx]; exact write) (by rw [l.q, hx]; exact reconstruct) (stage.like l hx)
  | releasing calls not_free no children cbRuns xorCalls =>
    exact .releasing (l.calls.trans calls) ⟨l.freeWrite.trans not_free.1, l.freeReconstruct.trans not_free.2⟩
      (no.like l) (l.q ▸ children) (l.q ▸ cbRuns) (l.q ▸ xorCalls)
  | orphan calls not_free no children cbRuns xorCalls =>
    exact .orphan (l.calls.trans calls) ⟨l.freeWrite.trans not_free.1, l.freeReconstruct.trans not_free.2⟩
      (no.like l) (l.q ▸ children) (l.q ▸ cbRuns) (l.q ▸ xorCalls)
  | stuck lossy calls owner no type cbRuns xorCalls waits count le =>
    have hx := hx rfl
    exact .stuck lossy (l.calls.trans calls) (owner.like l hx) (no.like l) (l.q ▸ type) (l.q ▸ cbRuns)
      (l.q ▸ xorCalls) (hx ▸ waits) (by rw [hx, l.q]; exact count) (l.q ▸ le)

end congr

section inv
variable {c : RaidChannel} {lossy iso : Prop} {s t : State} {ph : Nat → Phase} {r io : Nat} {p : Phase}

/-- A request of the upper layer no stripe request comes to or leaves. -/
theorem IoInv.congr {ph' : Nat → Phase} {x : Nat} (h : IoInv c lossy s ph x) (hn : x < t.nios ↔ x < s.nios)
    (hx : t.ios x = s.ios x) (hs : t.stack.count (.submitRwRequest x) = s.stack.count (.submitRwRequest x))
    (hr : ∀ y, ph' y = ph y ∧ t.reqs y = s.reqs y ∨
      ((ph y).owns = true → (s.reqs y).raidIo ≠ x) ∧ ((ph' y).owns = true → (t.reqs y).raidIo ≠ x)) :
    IoInv c lossy t ph' x := by
  have hst : t.starts x = s.starts x := by rw [State.starts, hs, hx]; rfl
  have hu (P : Phase → Prop) (hP : ∀ p, P p → p.owns = true) (h : ∀ y, P (ph y) → (s.reqs y).raidIo ≠ x) :
      ∀ y, P (ph' y) → (t.reqs y).raidIo ≠ x := by
    intro y hy
    rcases hr y with ⟨hp, hq⟩ | ⟨-, hq⟩
    · exact hq ▸ h y (hp ▸ hy)
    · exact hq (hP _ hy)
  have hu' := hu (·.owns = true) (fun _ h => h)
  cases h with
  | unborn ge starts waits completions unowned =>
    exact .unborn (Nat.le_of_not_lt fun h => absurd (hn.mp h) (Nat.not_lt.mpr ge)) (hst.trans starts) (hx ▸ waits) (hx ▸ completions) (hu' unowned)
  | starting lt completions starts waits submitted status reads unowned =>
    exact .starting (hn.mpr lt) (hx ▸ completions) (hst.trans starts) (hx ▸ waits) (hx ▸ submitted) (hx ▸ status)
      (by rw [hx]; exact reads) (hu' unowned)
  | owned y lt live io_eq starts =>
    rcases hr y with ⟨hp, hq⟩ | ⟨hq, -⟩
    · exact .owned y (hn.mpr lt) (hp ▸ live) (hq ▸ io_eq) (hs.trans starts)
    · exact absurd io_eq (hq (Phase.owns_of_live live))
  | done lt completions starts waits unowned =>
    exact .done (hn.mpr lt) (hx ▸ completions) (hst.trans starts) (hx ▸ waits) (hu' unowned)
  | lost lossy lt completions starts waits unowned =>
    exact .lost lossy (hn.mpr lt) (hx ▸ completions) (hst.trans starts) (hx ▸ waits)
      (hu (·.live = true) (fun _ h => Phase.owns_of_live h) unowned)

/-- The invariant but for what it says of `io`, and of unfinished callbacks. -/
structure InvBut (c : RaidChannel) (lossy iso : Prop) (s : State) (ph : Nat → Phase) (io : Nat) : Prop where
  phase : ∀ r, PhaseInv c lossy iso (s.view r) r (ph r)
  io : ∀ x ≠ io, IoInv c lossy s ph x
  carries : ∀ io < s.nios, ∃ q : Request, q.Valid c ∧ Carries (s.ios io) io q

theorem Inv.but (hi : Inv c lossy iso s ph) (io : Nat) : InvBut c lossy iso s ph io :=
  ⟨hi.phase, fun x _ => hi.io x, hi.carries⟩

/-- The call that starts a request is popped. -/
theorem InvBut.pop {rest : List Call} (hi : InvBut c lossy iso s ph io) (hs : s.stack = .submitRwRequest io :: rest) :
    InvBut c lossy iso { s with stack := rest } ph io where
  phase x := by
    have h : State.view { s with stack := rest } x = s.view x := by
      simp [State.view, State.callsOf, State.failing, hs, Call.about]
    rw [h]
    exact hi.phase x
  io x hx := by
    refine (hi.io x hx).congr Iff.rfl rfl ?_ fun y => .inl ⟨rfl, rfl⟩
    have : (Call.submitRwRequest io == Call.submitRwRequest x) = false := by simpa using Ne.symm hx
    simp [hs, List.count_cons, this]
  carries := hi.carries

/-- What is left to show. -/
theorem InvBut.inv (hi : InvBut c lossy iso s ph io) (hio : IoInv c lossy s ph io) (tails : Tails s) :
    Inv c lossy iso s ph where
  phase := hi.phase
  io x := by
    by_cases hx : x = io
    · exact hx ▸ hio
    · exact hi.io x hx
  carries := hi.carries
  tails := tails

/-- The call that starts a request is pushed. -/
theorem InvBut.push (hi : InvBut c lossy iso s ph io) : InvBut c lossy iso (s.push (.submitRwRequest io)) ph io where
  phase x := by
    have hc : (s.push (.submitRwRequest io)).callsOf x = s.callsOf x := by simp [State.callsOf, Call.about]
    have hf : (s.push (.submitRwRequest io)).failing x = s.failing x := by simp [State.failing]
    have h : (s.push (.submitRwRequest io)).view x = s.view x := by
      simp only [State.view, hc, hf]
      rfl
    rw [h]
    exact hi.phase x
  io x hx := by
    refine (hi.io x hx).congr Iff.rfl rfl ?_ fun y => .inl ⟨rfl, rfl⟩
    have : (Call.submitRwRequest io == Call.submitRwRequest x) = false := by simpa using Ne.symm hx
    simp [List.count_cons, this]
  carries := hi.carries

theorem InvBut.carries_frame (hi : InvBut c lossy iso s ph io) (hf : Frame s t r io) :
    ∀ x < t.nios, ∃ q : Request, q.Valid c ∧ Carries (t.ios x) x q := by
  intro x hx
  obtain ⟨q, hv, hc⟩ := hi.carries x (hf.nios ▸ hx)
  refine ⟨q, hv, ?_⟩
  by_cases hxi : x = io
  · subst hxi
    have h := hf.request
    exact ⟨h.type.trans hc.type, h.offsetBlocks.trans hc.offsetBlocks, h.numBlocks.trans hc.numBlocks,
      h.iovs.trans hc.iovs, h.mdBuf.trans hc.mdBuf⟩
  · rwa [hf.ios x hxi]

/-- A step that works on `r` and `io` keeps the invariant when it does so for these two. -/
theorem InvBut.frame (hi : InvBut c lossy iso s ph io) (hf : Frame s t r io)
    (hr : (ph r).owns = true → (s.reqs r).raidIo = io)
    (others : ∀ x ≠ r, (ph x).owns = true → (s.reqs x).raidIo ≠ io)
    (hp : PhaseInv c lossy iso (t.view r) r p) (hr' : p.owns = true → (t.reqs r).raidIo = io)
    (hio : IoInv c lossy t (Function.update ph r p) io) (tails : Tails t) :
    Inv c lossy iso t (Function.update ph r p) where
  phase x := by
    by_cases hx : x = r
    · subst hx
      rwa [Function.update_self]
    · rw [Function.update_of_ne hx]
      refine (hi.phase x).like (hf.like hx) ?_
      intro ho
      simp only [State.view, hf.reqs x hx]
      exact hf.ios _ (others x hx ho)
  io x := by
    by_cases hx : x = io
    · exact hx ▸ hio
    · refine (hi.io x hx).congr (by rw [hf.nios]) (hf.ios x hx) (hf.count_submit x) fun y => ?_
      by_cases hy : y = r
      · subst hy
        rw [Function.update_self]
        exact .inr ⟨fun h => hr h ▸ Ne.symm hx, fun h => hr' h ▸ Ne.symm hx⟩
      · exact .inl ⟨Function.update_of_ne hy _ _, hf.reqs y hy⟩
  carries := hi.carries_frame hf
  tails := tails

/-- A step that works on `io` only, before any stripe request is its own or after. -/
theorem InvBut.frameIo (hi : InvBut c lossy iso s ph io) (hf : ∀ r, Frame s t r io) (hu : Unowned s ph io)
    (hio : IoInv c lossy t ph io) (tails : Tails t) : Inv c lossy iso t ph where
  phase x := by
    refine (hi.phase x).like ((hf (x + 1)).like (by omega)) ?_
    intro ho
    simp only [State.view, (hf (x + 1)).reqs x (by omega)]
    exact (hf x).ios _ (hu x ho)
  io x := by
    by_cases hx : x = io
    · exact hx ▸ hio
    · exact (hi.io x hx).congr (by rw [(hf 0).nios]) ((hf 0).ios x hx) ((hf 0).count_submit x) fun y =>
        .inl ⟨rfl, (hf (y + 1)).reqs y (by omega)⟩
  carries := hi.carries_frame (hf 0)
  tails := tails

end inv

end FlexBSO.Raid5f

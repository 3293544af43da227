import FlexBSO.Raid5f.Setup

/- Every step of the channel keeps the invariant, and is a move of at most one stripe
   request or of one request of the upper layer (`step_inv`). The steps where the code
   itself breaks it are kept out by a condition on the state and the event (`Guard`):
   `XorSafe` where retry and error handling of the XOR go wrong, `OwnSegments` where the
   segments in the channel's array may be another request's, `NoLoss` where a request
   is lost. -/
namespace FlexBSO.Raid5f
open FlexBSO.Lib

/-- The chunk a read addresses. -/
def RaidChannel.readChunk (c : RaidChannel) (x : RaidIo) : Nat :=
  c.chunkIdx (x.offsetBlocks / c.stripeBlocks) (x.offsetBlocks % c.stripeBlocks)

/-- The hazards of the XOR of a request with separate metadata do not occur: a request popped
    from the retry queue with metadata left has no metadata XOR in flight, a data XOR
    fails for good only then, and no count is left over from an earlier use. -/
def Call.XorSafe (s : State) (a : Answer) : Call → Prop
  | .xorRetryQueuePop => ∀ r ∈ s.ch.xorRetryQueue.head?, (s.reqs r).xorRemainingMd ≠ 0 → (s.reqs r).mdXors = []
  | .xorStripeContinue r => a.rc ≠ 0 → a.rc ≠ -ENOMEM → (s.reqs r).mdXors = []
  | .xorStripe r _ => (s.ios (s.reqs r).raidIo).mdBuf = NULL → (s.reqs r).xorRemainingMd = 0
  | _ => True

/-- A data XOR is accepted only while the channel's array holds its stripe request's segments. -/
def Call.OwnSegments (s : State) (a : Answer) : Call → Prop
  | .xorStripeContinue r => a.rc = 0 → s.ch.chunkXorOwner = some r
  | _ => True

/-- Base bdevs take the reads of a reconstruct request or put them off, and a read of a chunk
    that has no base channel finds those of the others. -/
def Call.NoLoss (c : RaidChannel) (s : State) (a : Answer) : Call → Prop
  | .submitRwRequest io => (s.ios io).type = .read → c.baseChannel (c.readChunk (s.ios io)) = false →
      SourcesPresent c (c.readChunk (s.ios io))
  | .submitChunks r k => (s.reqs r).type = .reconstruct → k ≠ (s.reqs r).reconstructChunk → a.rc = 0 ∨ a.rc = -ENOMEM
  | _ => True

def XorSafe (s : State) : Event → Prop
  | .call a => ∀ call ∈ s.stack.head?, call.XorSafe s a
  | _ => True

def OwnSegments (s : State) : Event → Prop
  | .call a => ∀ call ∈ s.stack.head?, call.OwnSegments s a
  | _ => True

/-- Nor does a direct read complete while a base channel of another chunk is missing, no reconstruct
    request is free, or its iovecs cannot be had. -/
def NoLoss (c : RaidChannel) (s : State) : Event → Prop
  | .call a => ∀ call ∈ s.stack.head?, call.NoLoss c s a
  | .readComplete io j success a => success = true → ∀ p ∈ (s.ios io).reads[j]?,
      SourcesPresent c (c.chunkIdx p.1.stripeIndex p.1.stripeOffset) ∧ ∃ r ∈ s.ch.freeReconstruct.head?,
      (chunkSetIovcnt ((s.reqs r).chunks (c.chunkIdx p.1.stripeIndex p.1.stripeOffset)) (s.ios io).iovs.length
        (a.alloc (c.chunkIdx p.1.stripeIndex p.1.stripeOffset))).isSome
  | _ => True

instance (s : State) (a : Answer) : ∀ call, Decidable (Call.XorSafe s a call)
  | .xorRetryQueuePop => inferInstanceAs (Decidable (∀ r ∈ s.ch.xorRetryQueue.head?, _ → _))
  | .xorStripeContinue _ => inferInstanceAs (Decidable (_ → _))
  | .xorStripe _ _ => inferInstanceAs (Decidable (_ → _))
  | .submitRwRequest _ | .submitChunks _ _ | .xorStripeDone _ | .xorStripeCbTail _ _ | .stripeRequestRelease _
  | .userCb _ => isTrue trivial

instance (s : State) (a : Answer) : ∀ call, Decidable (Call.OwnSegments s a call)
  | .xorStripeContinue _ => inferInstanceAs (Decidable (_ → _))
  | .xorRetryQueuePop | .xorStripe _ _ | .submitRwRequest _ | .submitChunks _ _ | .xorStripeDone _ | .xorStripeCbTail _ _
  | .stripeRequestRelease _ | .userCb _ => isTrue trivial

instance (c : RaidChannel) (s : State) (a : Answer) : ∀ call, Decidable (Call.NoLoss c s a call)
  | .submitRwRequest _ => inferInstanceAs (Decidable (_ → _))
  | .submitChunks _ _ => inferInstanceAs (Decidable (_ → _))
  | .xorRetryQueuePop | .xorStripe _ _ | .xorStripeContinue _ | .xorStripeDone _
  | .xorStripeCbTail _ _ | .stripeRequestRelease _ | .userCb _ => isTrue trivial

instance (s : State) : ∀ e, Decidable (XorSafe s e)
  | .call a => inferInstanceAs (Decidable (∀ call ∈ s.stack.head?, call.XorSafe s a))
  | .submit _ | .readMove _ _ | .readComplete _ _ _ _ | .chunkMove _ _ | .chunkComplete _ _ _ | .xorStore _ _
  | .xorComplete _ _ _ | .mdXorStore _ _ | .mdXorComplete _ _ _ | .ioWait _ _ => isTrue trivial

instance (s : State) : ∀ e, Decidable (OwnSegments s e)
  | .call a => inferInstanceAs (Decidable (∀ call ∈ s.stack.head?, call.OwnSegments s a))
  | .submit _ | .readMove _ _ | .readComplete _ _ _ _ | .chunkMove _ _ | .chunkComplete _ _ _ | .xorStore _ _
  | .xorComplete _ _ _ | .mdXorStore _ _ | .mdXorComplete _ _ _ | .ioWait _ _ => isTrue trivial

instance (c : RaidChannel) (s : State) : ∀ e, Decidable (NoLoss c s e)
  | .call a => inferInstanceAs (Decidable (∀ call ∈ s.stack.head?, call.NoLoss c s a))
  | .readComplete io j _ _ => inferInstanceAs (Decidable (_ → ∀ p ∈ (s.ios io).reads[j]?, _))
  | .submit _ | .readMove _ _ | .chunkMove _ _ | .chunkComplete _ _ _ | .xorStore _ _
  | .xorComplete _ _ _ | .mdXorStore _ _ | .mdXorComplete _ _ _ | .ioWait _ _ => isTrue trivial

structure Guard (c : RaidChannel) (lossy iso : Prop) (s : State) (e : Event) : Prop where
  xor : XorSafe s e
  own : iso → OwnSegments s e
  loss : lossy ∨ NoLoss c s e

/-- Nothing was completed, or something without success. -/
def NoSuccess (x y : RaidIo) : Prop :=
  y.completions = x.completions ∨ ∃ st ≠ IoStatus.success, y.completions = x.completions ++ [st]

/-- What a step does: a stripe request moves, with the request it serves or comes to serve;
    or a request of the upper layer goes on by itself. -/
inductive Evolves (c : RaidChannel) (lossy iso : Prop) (d : Bool) (s t : State) (ph ph' : Nat → Phase) : Prop where
  | request (r io : Nat) (rest : ∀ x ≠ r, ph' x = ph x) (like : ∀ x ≠ r, (s.view x).Like (t.view x))
      (ios : ∀ x ≠ io, t.ios x = s.ios x) (same : SameRequest (t.ios io) (s.ios io))
      (own : (ph r).owns = true → (s.reqs r).raidIo = io) (own' : (ph' r).owns = true → (t.reqs r).raidIo = io)
      (others : ∀ x ≠ r, (ph x).owns = true → (s.reqs x).raidIo ≠ io)
      (result : (ph r).owns = true ∨ NoSuccess (s.ios io) (t.ios io))
      (move : Move c lossy iso r d (ph r) (s.view r) (ph' r) (t.view r))
  | io (io : Nat) (rest : ph' = ph) (like : ∀ x, (s.view x).Like (t.view x)) (ios : ∀ x ≠ io, t.ios x = s.ios x)
      (same : io < s.nios → SameRequest (t.ios io) (s.ios io)) (unowned : Unowned s ph io)
      (result : NoSuccess (s.ios io) (t.ios io))

/-- The state after a step keeps the invariant, and the step is one of those. -/
def Stepped (c : RaidChannel) (lossy iso : Prop) (d : Bool) (s t : State) (ph : Nat → Phase) : Prop :=
  ∃ ph', Inv c lossy iso t ph' ∧ Evolves c lossy iso d s t ph ph'

section step
variable {c : RaidChannel} {lossy iso : Prop} {s t : State} {ph : Nat → Phase} {r io : Nat} {p' : Phase} {d : Bool}

/-! ## Whose request it is -/

theorem PhaseInv.owner {v : View} {p : Phase} (h : PhaseInv c lossy iso v r p) (ho : p.owns = true) : Owner c v r := by
  cases h with
  | chunks owner => exact owner
  | xor owner => exact owner
  | stuck _ _ owner => exact owner
  | _ => cases ho

/-- A request is served by one stripe request at most. -/
theorem Inv.owner_unique (hi : Inv c lossy iso s ph) {x y : Nat} (hx : (ph x).owns = true) (hy : (ph y).owns = true)
    (h : (s.reqs x).raidIo = (s.reqs y).raidIo) : x = y := by
  have h1 := ((hi.phase x).owner hx).priv
  have h2 := ((hi.phase y).owner hy).priv
  simp only [State.view] at h1 h2
  rw [h, h2] at h1
  exact (Option.some.inj h1).symm

theorem Inv.others (hi : Inv c lossy iso s ph) (ho : (ph r).owns = true) (hr : (s.reqs r).raidIo = io) :
    ∀ x ≠ r, (ph x).owns = true → (s.reqs x).raidIo ≠ io := by
  intro x hx hox h
  exact hx (hi.owner_unique hox ho (h.trans hr.symm))

/-- A request that is served was submitted and starts no more. -/
theorem Inv.served (hi : Inv c lossy iso s ph) (ho : (ph r).owns = true) (hr : (s.reqs r).raidIo = io) :
    io < s.nios ∧ s.stack.count (.submitRwRequest io) = 0 := by
  cases hi.io io with
  | unborn _ _ _ _ unowned => exact absurd hr (unowned r ho)
  | starting _ _ _ _ _ _ _ unowned => exact absurd hr (unowned r ho)
  | owned _ lt _ _ starts => exact ⟨lt, starts⟩
  | done _ _ _ _ unowned => exact absurd hr (unowned r ho)
  | lost _ lt _ starts =>
    unfold State.starts at starts
    exact ⟨lt, by omega⟩

/-- The request behind a stripe request covers some of a strip. -/
theorem Inv.sane (hi : Inv c lossy iso s ph) (ho : (ph r).owns = true) : (s.view r).Sane c := by
  have howner := (hi.phase r).owner ho
  obtain ⟨hlt, -⟩ := hi.served ho rfl
  obtain ⟨q, hv, hc⟩ := hi.carries _ hlt
  have htype := howner.io_type
  have hx : (s.view r).x = s.ios (s.reqs r).raidIo := rfl
  obtain ⟨hpos, -, -, hmd, hread, -⟩ := hv
  refine ⟨?_, ?_, ?_⟩
  · unfold View.numBlocks
    cases (s.view r).q.type with
    | write => exact c.stripSize_pos
    | reconstruct => simpa only [hx, hc.numBlocks] using hpos
  · unfold View.numBlocks
    cases ht : (s.view r).q.type with
    | write => exact Nat.le_refl _
    | reconstruct =>
      rw [ht, hx, hc.type] at htype
      have := hread htype
      simp only [hx, hc.numBlocks]
      omega
  · intro h
    apply hmd
    by_contra hq
    rw [hx, hc.mdBuf, if_neg hq] at h
    exact h rfl

/-! ## Steps of a stripe request at work -/

/-- A stripe request that lost a child stays as it is. -/
theorem Move.of_stuck {v w : View} (m : Move c lossy iso r d .stuck v p' w) : p' = .stuck := by
  cases m with
  | chunk m => cases m <;> rfl
  | callback => rfl

/-- After a move, with the phase it ends in. -/
theorem Inv.moveTo (hi : Inv c lossy iso s ph) (hf : Frame s t r io) (ho : (ph r).owns = true)
    (hr : (s.reqs r).raidIo = io) (m : Move c lossy iso r d (ph r) (s.view r) p' (t.view r)) (tails : Tails t) :
    Inv c lossy iso t (Function.update ph r p') ∧ Evolves c lossy iso d s t ph (Function.update ph r p') := by
  have hr' : (t.reqs r).raidIo = io := by
    have h := (m.sameWork (by rintro h; rw [h] at ho; cases ho)).raidIo
    exact h.trans hr
  obtain ⟨hlt, hcount⟩ := hi.served ho hr
  have hothers := hi.others ho hr
  have hp := m.phaseInv (hi.phase r) (fun _ => hi.sane ho)
  have hx : (t.view r).x = t.ios io := by simp only [State.view, hr']
  have hcount' : t.stack.count (.submitRwRequest io) = 0 := (hf.count_submit io).trans hcount
  have hrest (P : Phase → Bool) (hP : P p' = false) (hPo : ∀ p, P p = true → p.owns = true) :
      ∀ y, P (Function.update ph r p' y) = true → (t.reqs y).raidIo ≠ io := by
    intro y hy
    by_cases hyr : y = r
    · rw [hyr, Function.update_self, hP] at hy
      cases hy
    · rw [Function.update_of_ne hyr] at hy
      rw [hf.reqs y hyr]
      exact hothers y hyr (hPo _ hy)
  have hio : IoInv c lossy t (Function.update ph r p') io := by
    by_cases hlive : p'.live = true
    · exact .owned r (hf.nios ▸ hlt) (by rw [Function.update_self]; exact hlive) hr' hcount'
    · rw [Bool.not_eq_true] at hlive
      by_cases hown : p'.owns = true
      · -- the request lost a child
        obtain rfl : p' = .stuck := by cases p' <;> simp_all [Phase.owns, Phase.live]
        cases hp with
        | stuck hlossy _ owner _ _ _ _ waits =>
          refine .lost hlossy (hf.nios ▸ hlt) (hx ▸ owner.completions) ?_ (hx ▸ waits) ?_
          · have h1 := owner.reads
            rw [hx] at h1 waits
            simp [State.starts, hcount', h1, waits]
          · exact hrest Phase.live rfl (fun _ => Phase.owns_of_live)
      · rw [Bool.not_eq_true] at hown
        have hl : (ph r).live = true := by
          by_contra hl
          have hs : ph r = .stuck := by cases h : ph r <;> simp_all [Phase.owns, Phase.live]
          rw [hs] at m
          rw [m.of_stuck] at hown
          cases hown
        obtain ⟨hc, hreads, hwaits⟩ := m.completed (hi.phase r) hl hown
        rw [hx] at hc hreads hwaits
        refine .done (hf.nios ▸ hlt) hc ?_ hwaits ?_
        · simp [State.starts, hcount', hreads, hwaits]
        · exact hrest Phase.owns hown (fun _ h => h)
  refine ⟨(hi.but io).frame hf (fun _ => hr) hothers hp (fun _ => hr') hio tails, ?_⟩
  refine .request r io (fun x hx => Function.update_of_ne hx _ _) (fun x hx => hf.like hx) hf.ios hf.request
    (fun _ => hr) (fun _ => hr') hothers (.inl ho) ?_
  rw [Function.update_self]
  exact m

theorem Inv.move (hi : Inv c lossy iso s ph) (hf : Frame s t r io) (ho : (ph r).owns = true)
    (hr : (s.reqs r).raidIo = io) (m : Move c lossy iso r d (ph r) (s.view r) p' (t.view r)) (tails : Tails t) :
    Stepped c lossy iso d s t ph :=
  ⟨_, hi.moveTo hf ho hr m tails⟩

/-- What was freed is nothing the invariant sees. -/
theorem Stepped.freed (h : Stepped c lossy iso d s t ph) {n : Nat} : Stepped c lossy iso d s { t with freed := n } ph := by
  obtain ⟨ph', ⟨hphase, hio, hcarries, htails⟩, he⟩ := h
  refine ⟨ph', ⟨hphase, fun io => ?_, hcarries, htails⟩, ?_⟩
  · exact (hio io).congr Iff.rfl rfl rfl fun y => .inl ⟨rfl, rfl⟩
  · cases he with
    | request r io rest like ios same own own' others result move =>
      exact .request r io rest like ios same own own' others result move
    | io io rest like ios same unowned result => exact .io io rest like ios same unowned result

/-! ## Steps that serve no request -/

/-- No request past the last one submitted is served. -/
theorem Inv.unowned_nios (hi : Inv c lossy iso s ph) : Unowned s ph s.nios := by
  intro x hx h
  have := (hi.served hx h).1
  omega

theorem NoSuccess.self (x : RaidIo) : NoSuccess x x := .inl rfl

/-- A stripe request at no work moves. -/
theorem Inv.moveFree (hi : Inv c lossy iso s ph) (hf : Frame s t r s.nios) (hios : t.ios = s.ios)
    (ho : (ph r).owns = false) (ho' : p'.owns = false)
    (m : Move c lossy iso r d (ph r) (s.view r) p' (t.view r)) (tails : Tails t) : Stepped c lossy iso d s t ph := by
  have hnot {p : Phase} (h : p.owns = false) {P : Prop} (h' : p.owns = true) : P := by
    rw [h] at h'
    cases h'
  have hp := m.phaseInv (hi.phase r) (fun h => by rw [h] at ho; cases ho)
  have hothers : ∀ x ≠ r, (ph x).owns = true → (s.reqs x).raidIo ≠ s.nios := fun x _ h => hi.unowned_nios x h
  have hio : IoInv c lossy t (Function.update ph r p') s.nios := by
    refine (hi.io s.nios).congr (by rw [hf.nios]) (by rw [hios]) (hf.count_submit _) fun y => ?_
    by_cases hy : y = r
    · right
      subst hy
      rw [Function.update_self]
      exact ⟨hnot ho, hnot ho'⟩
    · exact .inl ⟨Function.update_of_ne hy _ _, hf.reqs y hy⟩
  refine ⟨Function.update ph r p', (hi.but _).frame hf (hnot ho) hothers hp (by exact hnot ho') hio tails, ?_⟩
  refine .request r s.nios (fun x hx => Function.update_of_ne hx _ _) (fun x hx => hf.like hx) hf.ios hf.request
    (hnot ho) ?_ hothers (.inr (by rw [hios]; exact .self _)) ?_
  all_goals rw [Function.update_self]
  · exact hnot ho'
  · exact m

/-- A step that changes nothing a request sees. -/
theorem Inv.idle (hi : Inv c lossy iso s ph) (hf : ∀ r, Frame s t r s.nios) (hios : t.ios = s.ios) (tails : Tails t) :
    Stepped c lossy iso d s t ph := by
  refine ⟨ph, (hi.but _).frameIo hf hi.unowned_nios ?_ tails, ?_⟩
  · exact (hi.io s.nios).congr (by rw [(hf 0).nios]) (by rw [hios]) ((hf 0).count_submit _) fun y =>
      .inl ⟨rfl, (hf (y + 1)).reqs y (by omega)⟩
  · exact .io s.nios rfl (fun x => (hf (x + 1)).like (by omega)) (fun x _ => by rw [hios]) (fun h => absurd h (by omega))
      hi.unowned_nios (by rw [hios]; exact .self _)

/-! ## Steps of a request that starts -/

theorem View.Like.trans {u v w : View} (h : u.Like v) (h' : v.Like w) : u.Like w where
  q := h'.q.trans h.q
  calls := h'.calls.trans h.calls
  freeWrite := h'.freeWrite.trans h.freeWrite
  freeReconstruct := h'.freeReconstruct.trans h.freeReconstruct
  queue := h'.queue.trans h.queue
  failing := h'.failing.trans h.failing
  seg := by
    rcases h'.seg with h2 | h2
    · rcases h.seg with h1 | h1
      · exact .inl (h2.trans h1)
      · exact .inr (h2.trans h1)
    · exact .inr h2

/-- In `s'` the call, the read or the io-wait entry that is to start `io` is taken from `s`. -/
structure Ready (c : RaidChannel) (lossy iso : Prop) (s s' : State) (ph : Nat → Phase) (io : Nat) : Prop where
  like : ∀ x, (s.view x).Like (s'.view x)
  ios : ∀ x ≠ io, s'.ios x = s.ios x
  same : SameRequest (s'.ios io) (s.ios io)
  before : (s.ios io).completions = []
  but : InvBut c lossy iso s' ph io
  lt : io < s'.nios
  fresh : Fresh c s' io
  unowned : Unowned s ph io
  count : s'.stack.count (.submitRwRequest io) = 0
  tails : Tails s'

namespace Ready
variable {s' : State}

theorem unowned' (h : Ready c lossy iso s s' ph io) : Unowned s' ph io := by
  intro x hx
  have hq : s'.reqs x = s.reqs x := (h.like x).q
  rw [hq]
  exact h.unowned x hx

/-- It goes on without a stripe request. -/
theorem again (h : Ready c lossy iso s s' ph io) (hf : ∀ r, Frame s' t r io) (hio : IoInv c lossy t ph io)
    (hres : NoSuccess (s.ios io) (t.ios io)) (tails : Tails t) : Stepped c lossy iso false s t ph := by
  refine ⟨ph, h.but.frameIo hf h.unowned' hio tails, ?_⟩
  have hsame := (hf 0).request
  exact .io io rfl (fun x => (h.like x).trans ((hf (x + 1)).like (by omega)))
    (fun x hx => ((hf 0).ios x hx).trans (h.ios x hx))
    (fun _ => ⟨hsame.type.trans h.same.type, hsame.offsetBlocks.trans h.same.offsetBlocks,
      hsame.numBlocks.trans h.same.numBlocks, hsame.iovs.trans h.same.iovs, hsame.mdBuf.trans h.same.mdBuf⟩)
    h.unowned hres

theorem tails_push (h : Tails s') {call : Call} (hc : call.plain = true) : Tails (s'.push call) := by
  intro x status hx
  rcases List.mem_cons.mp hx with rfl | hx
  · cases hc
  · exact h x status hx

theorem starts_zero (h : Ready c lossy iso s s' ph io) (hf : Frame s' t r io)
    (hreads : (t.ios io).reads = []) (hwaits : (t.ios io).waits = []) : t.starts io = 0 := by
  simp [State.starts, hf.count_submit, h.count, hreads, hwaits]

/-- It is completed without success. -/
theorem complete (h : Ready c lossy iso s s' ph io) {st : IoStatus} (hst : st ≠ .success) :
    Stepped c lossy iso false s (raidBdevIoComplete s' io st) ph := by
  have hf (r : Nat) : Frame s' (raidBdevIoComplete s' io st) r io := Frame.raidBdevIoComplete
  have hx : (raidBdevIoComplete s' io st).ios io =
      { s'.ios io with completions := (s'.ios io).completions ++ [st] } := by simp [raidBdevIoComplete]
  refine h.again hf (.done h.lt ?_ (h.starts_zero (hf 0) ?_ ?_) ?_ h.unowned') (.inr ⟨st, hst, ?_⟩)
    (tails_push h.tails rfl)
  all_goals rw [hx]
  · simp [h.fresh.completions]
  · exact h.fresh.reads
  · exact h.fresh.waits
  · exact h.fresh.waits
  · simp [h.fresh.completions, h.before]

/-- What setting up does depends on the stripe request only. -/
theorem beginMove {v v' w : View} {p : Phase} (m : BeginMove c lossy iso r v p w) (hq : v.q = v'.q) :
    BeginMove c lossy iso r v' p w := by
  cases m with
  | prepared inv md => exact .prepared inv (hq ▸ md)
  | beginChunks inv md children submitted status calls => exact .beginChunks inv (hq ▸ md) children submitted status calls
  | beginXor inv md type calls => exact .beginXor inv (hq ▸ md) type calls

/-- A stripe request was touched for it. -/
theorem request (h : Ready c lossy iso s s' ph io) (hf : Frame s' t r io) (hfree : ph r = .free) {p : Phase}
    (m : BeginMove c lossy iso r (s'.view r) p (t.view r)) (hown : p.owns = true → (t.reqs r).raidIo = io)
    (hio : IoInv c lossy t (Function.update ph r p) io) (hres : NoSuccess (s.ios io) (t.ios io)) (tails : Tails t) :
    Stepped c lossy iso false s t ph := by
  have hnot {P : Prop} (h' : (ph r).owns = true) : P := by
    rw [hfree] at h'
    cases h'
  refine ⟨Function.update ph r p, h.but.frame hf hnot (fun x _ hx => h.unowned' x hx) m.phaseInv hown hio tails, ?_⟩
  have hsame := hf.request
  refine .request r io (fun x hx => Function.update_of_ne hx _ _) (fun x hx => (h.like x).trans (hf.like hx))
    (fun x hx => (hf.ios x hx).trans (h.ios x hx))
    ⟨hsame.type.trans h.same.type, hsame.offsetBlocks.trans h.same.offsetBlocks,
      hsame.numBlocks.trans h.same.numBlocks, hsame.iovs.trans h.same.iovs, hsame.mdBuf.trans h.same.mdBuf⟩
    hnot ?_ (fun x _ hx => h.unowned x hx) (.inr hres) ?_
  all_goals rw [Function.update_self]
  · exact hown
  · rw [hfree]
    exact .begin (beginMove m (h.like r).q)

/-- No stripe request serves it after one was touched and put back. -/
theorem unowned_update (h : Ready c lossy iso s s' ph io) (hf : Frame s' t r io) {p : Phase} (hp : p.owns = false) :
    Unowned t (Function.update ph r p) io := by
  intro x hx
  by_cases hxr : x = r
  · subst hxr
    rw [Function.update_self, hp] at hx
    cases hx
  · rw [Function.update_of_ne hxr] at hx
    rw [hf.reqs x hxr]
    exact h.unowned' x hx

/-- A stripe request was set up for it. -/
theorem begun (h : Ready c lossy iso s s' ph io) (hf : Frame s' t r io) (hfree : ph r = .free) {p : Phase}
    (m : BeginMove c lossy iso r (s'.view r) p (t.view r)) (hlive : p.live = true) (hr : (t.reqs r).raidIo = io)
    (tails : Tails t) : Stepped c lossy iso false s t ph := by
  have hlt : io < t.nios := hf.nios ▸ h.lt
  refine h.request hf hfree m (fun _ => hr) ?_ (.inl ?_) tails
  · exact .owned r hlt (by rw [Function.update_self]; exact hlive) hr ((hf.count_submit io).trans h.count)
  · have hc := (m.phaseInv.owner (Phase.owns_of_live hlive)).completions
    simp only [State.view, hr] at hc
    rw [hc, h.before]

/-- A stripe request was touched for it and put back, and it is completed. -/
theorem back (h : Ready c lossy iso s s' ph io) (hf : Frame s' t r io) (hfree : ph r = .free)
    (m : BeginMove c lossy iso r (s'.view r) .free (t.view r)) (hios : t.ios = s'.ios) (tails : Tails t)
    {st : IoStatus} (hst : st ≠ .success) : Stepped c lossy iso false s (raidBdevIoComplete t io st) ph := by
  have hf' : Frame s' (raidBdevIoComplete t io st) r io := hf.trans Frame.raidBdevIoComplete
  have hx : (raidBdevIoComplete t io st).ios io =
      { s'.ios io with completions := (s'.ios io).completions ++ [st] } := by simp [raidBdevIoComplete, hios]
  have hm : BeginMove c lossy iso r (s'.view r) .free ((raidBdevIoComplete t io st).view r) := by
    cases m with
    | prepared inv md =>
      have hl : (t.view r).Like ((raidBdevIoComplete t io st).view r) :=
        ⟨rfl, by simp [raidBdevIoComplete, State.view, State.callsOf, Call.about, State.push, State.setIo], rfl, rfl, rfl,
          .inl rfl, by simp [raidBdevIoComplete, State.view, State.failing, State.push, State.setIo]⟩
      exact .prepared (inv.like hl (by rintro ⟨⟩)) md
  refine h.request hf' hfree hm (by rintro ⟨⟩) ?_ (.inr ⟨st, hst, ?_⟩) tails.complete
  · refine .done (hf'.nios ▸ h.lt) ?_ (h.starts_zero hf' ?_ ?_) ?_ (h.unowned_update hf' rfl)
    all_goals rw [hx]
    · simp [h.fresh.completions]
    · exact h.fresh.reads
    · exact h.fresh.waits
    · exact h.fresh.waits
  · rw [hx]
    simp [h.fresh.completions, h.before]

/-- Nothing will ever advance it again. -/
theorem lost (h : Ready c lossy iso s s' ph io) (hlossy : lossy) (hf : Frame s' t r io) (hfree : ph r = .free)
    (m : BeginMove c lossy iso r (s'.view r) .free (t.view r)) (hios : t.ios = s'.ios) (tails : Tails t) :
    Stepped c lossy iso false s t ph := by
  refine h.request hf hfree m (by rintro ⟨⟩) ?_ (.inl ?_) tails
  · refine .lost hlossy (hf.nios ▸ h.lt) ?_ (h.starts_zero hf ?_ ?_) ?_ ?_
    · rw [hios]; exact h.fresh.completions
    · rw [hios]; exact h.fresh.reads
    · rw [hios]; exact h.fresh.waits
    · rw [hios]; exact h.fresh.waits
    · exact fun x hx => h.unowned_update hf rfl x (Phase.owns_of_live hx)
  · rw [hios, h.fresh.completions, h.before]

end Ready

theorem length_waits (k : List WaitCb) : k.length = k.count .submitRwRequest + k.count .chunkSubmitRetry := by
  induction k with
  | nil => rfl
  | cons w k ih => cases w <;> simp [ih] <;> omega

theorem waits_nil {k : List WaitCb} (h1 : k.count .submitRwRequest = 0) (h2 : k.count .chunkSubmitRetry = 0) : k = [] := by
  apply List.length_eq_zero_iff.mp
  rw [length_waits, h1, h2]

/-- A request with anything that is to start it is in no other state. -/
theorem Inv.starting (hi : Inv c lossy iso s ph) (h : 0 < s.starts io) :
    io < s.nios ∧ (s.ios io).completions = [] ∧ s.starts io = 1 ∧ (s.ios io).waits.count .chunkSubmitRetry = 0 ∧
      (s.ios io).baseBdevIoSubmitted = 0 ∧ (s.ios io).baseBdevIoStatus = .success ∧
      (∀ p ∈ (s.ios io).reads, DirectRead c (s.ios io) p.1 p.2) ∧ Unowned s ph io := by
  cases hi.io io with
  | unborn _ starts => omega
  | starting lt completions starts waits submitted status reads unowned =>
    exact ⟨lt, completions, starts, waits, submitted, status, reads, unowned⟩
  | owned r lt live io_eq starts =>
    have howner := (hi.phase r).owner (Phase.owns_of_live live)
    have hwaits : (s.ios io).waits.count .submitRwRequest = 0 := by
      have hp := hi.phase r
      have hx : (s.view r).x = s.ios io := by simp only [State.view, io_eq]
      generalize ph r = p at hp live
      cases hp with
      | chunks _ _ _ _ stage =>
        cases stage with
        | loop _ waits => rw [← hx, waits]; rfl
        | wait _ waits => rw [← hx, waits]; rfl
        | past _ waits => rw [← hx, waits]; rfl
      | xor _ _ waits => rw [← hx, waits]; rfl
      | _ => cases live
    have hreads := howner.reads
    simp only [State.view, io_eq] at hreads
    simp [State.starts, starts, hreads, hwaits] at h
  | done _ _ starts => omega
  | lost _ _ _ starts => omega

/-- The call that starts a request is taken from the stack. -/
theorem Inv.ready_call (hi : Inv c lossy iso s ph) {rest : List Call} (hs : s.stack = .submitRwRequest io :: rest) :
    Ready c lossy iso s { s with stack := rest } ph io := by
  have hcount : s.stack.count (.submitRwRequest io) = rest.count (.submitRwRequest io) + 1 := by simp [hs]
  obtain ⟨lt, completions, starts, waits, submitted, status, reads, unowned⟩ := hi.starting (show 0 < s.starts io from by
    unfold State.starts
    omega)
  unfold State.starts at starts
  have hreads : (s.ios io).reads = [] := List.length_eq_zero_iff.mp (by omega)
  have hwaits : (s.ios io).waits = [] := waits_nil (by omega) waits
  refine ⟨fun x => ?_, fun _ _ => rfl, .self _, completions, (hi.but io).pop hs, lt,
    ⟨completions, hreads, hwaits, submitted, status, hi.carries io lt⟩, unowned, by simp only; omega, hi.tails.pop hs⟩
  have h : State.view { s with stack := rest } x = s.view x := by
    simp [State.view, State.callsOf, State.failing, hs, Call.about]
  rw [h]
  exact ⟨rfl, rfl, rfl, rfl, rfl, .inl rfl, rfl⟩

/-- The view of a request of the upper layer that is not its own is nothing to a stripe request. -/
theorem like_setIo (f : RaidIo → RaidIo) (x : Nat) : (s.view x).Like ((s.setIo io f).view x) :=
  ⟨rfl, rfl, rfl, rfl, rfl, .inl rfl, rfl⟩

/-- A change of a request that starts, but for what is to start it. -/
theorem Inv.ready_setIo (hi : Inv c lossy iso s ph) {f : RaidIo → RaidIo} (hstack : s.stack = [])
    (hstart : 0 < s.starts io) (hf : SameRequest (f (s.ios io)) (s.ios io))
    (hreads : (f (s.ios io)).reads = []) (hwaits : (f (s.ios io)).waits = [])
    (hsame : (f (s.ios io)).completions = (s.ios io).completions ∧
      (f (s.ios io)).baseBdevIoSubmitted = (s.ios io).baseBdevIoSubmitted ∧
      (f (s.ios io)).baseBdevIoStatus = (s.ios io).baseBdevIoStatus) :
    Ready c lossy iso s (s.setIo io f) ph io := by
  obtain ⟨lt, completions, starts, waits, submitted, status, reads, unowned⟩ := hi.starting hstart
  have hframe : Frame s (s.setIo io f) 0 io := Frame.setIo hf
  refine ⟨like_setIo f, hframe.ios, hframe.request, completions, ⟨fun x => ?_, fun x hx => ?_,
    (hi.but io).carries_frame hframe⟩, lt, ?_, unowned, by simp [hstack], hi.tails.setIo⟩
  · refine (hi.phase x).like (like_setIo f x) fun ho => ?_
    simp only [State.view, State.setIo_reqs]
    exact hframe.ios _ (unowned x ho)
  · exact (hi.io x).congr Iff.rfl (hframe.ios x hx) rfl fun y => .inl ⟨rfl, rfl⟩
  · refine ⟨?_, ?_, ?_, ?_, ?_, (hi.but io).carries_frame hframe io lt⟩
    all_goals rw [State.setIo_ios_self]
    · exact hsame.1.trans completions
    · exact hreads
    · exact hwaits
    · exact hsame.2.1.trans submitted
    · exact hsame.2.2.trans status

/-! ## The start of a request -/

/-- Nothing will ever advance it again, and no stripe request was touched. -/
theorem Ready.lostAtOnce {s' : State} (h : Ready c lossy iso s s' ph io) (hlossy : lossy) : Stepped c lossy iso false s s' ph := by
  refine h.again (fun _ => Frame.refl) (.lost hlossy h.lt h.fresh.completions ?_ h.fresh.waits ?_) (.inl ?_) h.tails
  · exact h.starts_zero (r := 0) Frame.refl h.fresh.reads h.fresh.waits
  · exact fun x hx => h.unowned' x (Phase.owns_of_live hx)
  · rw [h.fresh.completions, h.before]

/-- `raid5f_submit_reconstruct_read` for a request made ready for it: it is served, or the
    caller gets an error, which it has to turn into a completion or else loses it. -/
theorem Ready.reconstruct {s' : State} (h : Ready c lossy iso s s' ph io) (readIovs : List IoVec) (a : Answer) (htype : (s'.ios io).type = .read)
    {si so : Nat} (hsi : si = (s'.ios io).offsetBlocks / c.stripeBlocks)
    (hso : so = (s'.ios io).offsetBlocks % c.stripeBlocks) (hsrc : lossy ∨ SourcesPresent c (c.chunkIdx si so))
    {ret : Int}
    (ht : submitReconstructRead c s' io si (c.chunkIdx si so) (c.chunkOffset so) readIovs a = (t, ret)) :
    (ret = 0 → Stepped c lossy iso false s t ph) ∧
    (ret ≠ 0 → ∀ st ≠ .success, Stepped c lossy iso false s (raidBdevIoComplete t io st) ph) ∧
    (ret ≠ 0 → lossy → Stepped c lossy iso false s t ph) := by
  have htails : Tails t := by
    have h1 : Tails (submitReconstructRead c s' io si (c.chunkIdx si so) (c.chunkOffset so) readIovs a).1 :=
      Tails.submitReconstructRead h.tails
    rwa [ht] at h1
  cases hq : s'.ch.freeReconstruct with
  | nil =>
    simp only [submitReconstructRead, hq, Prod.mk.injEq] at ht
    obtain ⟨rfl, rfl⟩ := ht
    exact ⟨fun h0 => absurd h0 (by decide), fun _ st hst => h.complete hst, fun _ hl => h.lostAtOnce hl⟩
  | cons r rest =>
    have hphase := h.but.phase r
    obtain ⟨hfree, -⟩ := phase_of_freeReconstruct hphase hq
    have hbegin := reconstruct_begin readIovs a (hfree ▸ hphase) hq h.fresh htype hsi hso hsrc
    rw [ht] at hbegin
    obtain ⟨hf, hb⟩ := hbegin
    cases hb with
    | back hret hios hstack move =>
      exact ⟨fun h0 => absurd h0 hret, fun _ st hst => h.back hf hfree move hios htails hst,
        fun _ hl => h.lost hl hf hfree move hios htails⟩
    | begun p hret live raidIo move =>
      exact ⟨fun _ => h.begun hf hfree move live raidIo htails, fun h0 => absurd hret h0, fun h0 => absurd hret h0⟩

/-- A direct read or an io-wait entry is what will advance it now. -/
theorem Ready.waiting {s' : State} (h : Ready c lossy iso s s' ph io) {f : RaidIo → RaidIo}
    (hf : SameRequest (f (s'.ios io)) (s'.ios io))
    (hstart : (f (s'.ios io)).reads.length + (f (s'.ios io)).waits.count .submitRwRequest = 1)
    (hwaits : (f (s'.ios io)).waits.count .chunkSubmitRetry = 0)
    (hreads : ∀ p ∈ (f (s'.ios io)).reads, DirectRead c (f (s'.ios io)) p.1 p.2)
    (hsame : (f (s'.ios io)).completions = (s'.ios io).completions ∧
      (f (s'.ios io)).baseBdevIoSubmitted = (s'.ios io).baseBdevIoSubmitted ∧
      (f (s'.ios io)).baseBdevIoStatus = (s'.ios io).baseBdevIoStatus) :
    Stepped c lossy iso false s (s'.setIo io f) ph := by
  have hframe (r : Nat) : Frame s' (s'.setIo io f) r io := Frame.setIo hf
  refine h.again hframe (.starting h.lt ?_ ?_ ?_ ?_ ?_ ?_ h.unowned') (.inl ?_) h.tails.setIo
  all_goals simp only [State.starts, State.setIo_ios_self, State.setIo_stack, h.count]
  · exact hsame.1.trans h.fresh.completions
  · omega
  · exact hwaits
  · exact hsame.2.1.trans h.fresh.submitted
  · exact hsame.2.2.trans h.fresh.status
  · exact hreads
  · rw [hsame.1, h.fresh.completions, h.before]

/-- `raid5f_submit_rw_request` -/
theorem Inv.submitRwRequest (hi : Inv c lossy iso s ph) {rest : List Call} {a : Answer}
    (hs : s.stack = .submitRwRequest io :: rest) (hloss : lossy ∨ (Call.submitRwRequest io).NoLoss c s a)
    (h : submitRwRequest c { s with stack := rest } io a = some t) : Stepped c lossy iso false s t ph := by
  have hr := hi.ready_call hs
  have hloss : lossy ∨ (Call.submitRwRequest io).NoLoss c { s with stack := rest } a := hloss
  generalize ({ s with stack := rest } : State) = s' at hr h hloss
  have hfail {ret : Int} : (if ret = -ENOMEM then IoStatus.nomem else .failed) ≠ .success := by split <;> simp
  unfold Raid5f.submitRwRequest at h
  dsimp only at h
  obtain ⟨⟨t', ret⟩, hm, h⟩ := Option.map_eq_some_iff.mp h
  dsimp only at h
  have hend (h1 : ret = 0 → Stepped c lossy iso false s t' ph)
      (h2 : ret ≠ 0 → ∀ st ≠ .success, Stepped c lossy iso false s (raidBdevIoComplete t' io st) ph) :
      Stepped c lossy iso false s t ph := by
    subst h
    by_cases h0 : ret = 0
    · rw [if_neg (by simpa using h0)]
      exact h1 h0
    · rw [if_pos h0]
      exact h2 h0 _ hfail
  cases htype : (s'.ios io).type with
  | read =>
    rw [htype] at hm
    dsimp only at hm
    unfold submitReadRequest at hm
    dsimp only at hm
    split at hm
    · next hch =>
      obtain ⟨h1, h2, -⟩ := hr.reconstruct [] a htype rfl rfl (hloss.imp_right fun hl => hl htype hch)
        (Option.some.inj hm)
      exact hend h1 h2
    · split at hm
      · obtain ⟨rfl, rfl⟩ := Prod.mk.inj (Option.some.inj hm)
        refine hend (fun _ => hr.waiting ⟨rfl, rfl, rfl, rfl, rfl⟩ ?_ ?_ ?_ ⟨rfl, rfl, rfl⟩) (by simp)
        · simp [hr.fresh.reads, hr.fresh.waits]
        · simp [hr.fresh.waits]
        · intro p hp
          simp only [hr.fresh.reads, List.nil_append, List.mem_singleton] at hp
          subst hp
          exact ⟨rfl, htype, rfl, rfl, rfl⟩
      · split at hm
        · obtain ⟨rfl, rfl⟩ := Prod.mk.inj (Option.some.inj hm)
          refine hend (fun _ => hr.waiting ⟨rfl, rfl, rfl, rfl, rfl⟩ ?_ ?_ ?_ ⟨rfl, rfl, rfl⟩) (by simp)
          · simp [hr.fresh.reads, hr.fresh.waits]
          · simp [hr.fresh.waits]
          · intro p hp
            simp only [hr.fresh.reads] at hp
            cases hp
        · next h0 _ =>
          obtain ⟨rfl, rfl⟩ := Prod.mk.inj (Option.some.inj hm)
          exact hend (fun h => absurd h h0) (fun _ st hst => hr.complete hst)
  | write =>
    rw [htype] at hm
    dsimp only at hm
    have htails : Tails t' := hr.tails.submitWriteRequest hm
    cases hq : s'.ch.freeWrite with
    | nil =>
      simp only [submitWriteRequest, hq, Option.some.injEq, Prod.mk.injEq] at hm
      obtain ⟨rfl, rfl⟩ := hm
      exact hend (fun h0 => absurd h0 (by decide)) (fun _ st hst => hr.complete hst)
    | cons r rest =>
      have hphase := hr.but.phase r
      obtain ⟨hfree, -⟩ := phase_of_freeWrite hphase hq
      obtain ⟨hf, hb⟩ := write_begin (hfree ▸ hphase) hq hr.fresh htype rfl hm
      cases hb with
      | back hret hios hstack move =>
        exact hend (fun h0 => absurd h0 hret) (fun _ st hst => hr.back hf hfree move hios htails hst)
      | begun p hret live raidIo move =>
        exact hend (fun _ => hr.begun hf hfree move live raidIo htails) (fun h0 => absurd hret h0)

/-- `raid5f_chunk_read_complete` -/
theorem Inv.readComplete (hi : Inv c lossy iso s ph) {j : Nat} {p : ReadCbArg × Child} {ok : Bool} {a : Answer}
    (hstack : s.stack = []) (hg : (s.ios io).reads[j]? = some p)
    (hloss : lossy ∨ (ok = true → SourcesPresent c (c.chunkIdx p.1.stripeIndex p.1.stripeOffset) ∧
      ∃ r ∈ s.ch.freeReconstruct.head?,
      (chunkSetIovcnt ((s.reqs r).chunks (c.chunkIdx p.1.stripeIndex p.1.stripeOffset)) (s.ios io).iovs.length
        (a.alloc (c.chunkIdx p.1.stripeIndex p.1.stripeOffset))).isSome)) :
    Stepped c lossy iso false s (chunkReadComplete c
      (s.setIo io fun x => { x with reads := x.reads.eraseIdx j }) io p.1 p.2 ok a) ph := by
  have hmem : p ∈ (s.ios io).reads := List.mem_of_getElem? hg
  have hlen : 0 < (s.ios io).reads.length := List.length_pos_of_mem hmem
  have hstart : 0 < s.starts io := by
    unfold State.starts
    omega
  obtain ⟨lt, completions, starts, waits, submitted, status, reads, unowned⟩ := hi.starting hstart
  unfold State.starts at starts
  have hone : (s.ios io).reads = [p] ∧ j = 0 := by
    cases hr : (s.ios io).reads with
    | nil => simp [hr] at hg
    | cons y k =>
      rw [hr] at hg starts hlen
      simp only [List.length_cons] at starts
      obtain rfl : k = [] := List.length_eq_zero_iff.mp (by omega)
      cases j <;> simp_all
  obtain ⟨hone, rfl⟩ := hone
  have hwaits : (s.ios io).waits = [] := waits_nil (by omega) waits
  have hr := hi.ready_setIo (f := fun x => { x with reads := x.reads.eraseIdx 0 }) hstack hstart
    ⟨rfl, rfl, rfl, rfl, rfl⟩ (by simp [hone]) hwaits ⟨rfl, rfl, rfl⟩
  have hd := reads p hmem
  have hx : (s.setIo io fun x => { x with reads := x.reads.eraseIdx 0 }).ios io =
      { s.ios io with reads := (s.ios io).reads.eraseIdx 0 } := State.setIo_ios_self ..
  have hch : (s.setIo io fun x => { x with reads := x.reads.eraseIdx 0 }).ch = s.ch := rfl
  have hreqs : (s.setIo io fun x => { x with reads := x.reads.eraseIdx 0 }).reqs = s.reqs := rfl
  generalize (s.setIo io fun x => { x with reads := x.reads.eraseIdx 0 }) = s' at hr hx hch hreqs ⊢
  unfold chunkReadComplete
  by_cases hok : ok = false
  · rw [if_pos hok]
    exact hr.complete (by decide)
  · rw [if_neg hok]
    dsimp only
    have htype : (s'.ios io).type = .read := by rw [hx]; exact hd.io_type
    have harg := hd.arg_eq
    obtain ⟨h1, -, h3⟩ := hr.reconstruct p.2.iovs a htype
      (show p.1.stripeIndex = _ by rw [harg, hx]) (show p.1.stripeOffset = _ by rw [harg, hx])
      (hloss.imp_right fun hl => (hl (by simpa using hok)).1) rfl
    have hst : Stepped c lossy iso false s (submitReconstructRead c s' io p.1.stripeIndex
        (c.chunkIdx p.1.stripeIndex p.1.stripeOffset) (c.chunkOffset p.1.stripeOffset) p.2.iovs a).1 ph := by
      by_cases h0 : (submitReconstructRead c s' io p.1.stripeIndex
        (c.chunkIdx p.1.stripeIndex p.1.stripeOffset) (c.chunkOffset p.1.stripeOffset) p.2.iovs a).2 = 0
      · exact h1 h0
      · refine h3 h0 (hloss.resolve_right ?_)
        intro hl
        obtain ⟨-, r, hr, halloc⟩ := hl (by simpa using hok)
        apply h0
        obtain ⟨rest, hrest⟩ : ∃ rest, s'.ch.freeReconstruct = r :: rest := by
          rw [hch]
          cases hc : s.ch.freeReconstruct with
          | nil => simp [hc] at hr
          | cons y k =>
            rw [hc] at hr
            exact ⟨k, by simpa using hr⟩
        obtain ⟨ck, hck⟩ := Option.isSome_iff_exists.mp halloc
        have hiovs : (s'.ios io).iovs = (s.ios io).iovs := by rw [hx]
        have hchunks : ∀ f, (((stripeRequestInit c s' r io p.1.stripeIndex).setReq r f).reqs r) =
            f ((stripeRequestInit c s' r io p.1.stripeIndex).reqs r) := fun f => State.setReq_reqs_self ..
        have hinit : ((stripeRequestInit c s' r io p.1.stripeIndex).reqs r).chunks = (s.reqs r).chunks := by
          simp [stripeRequestInit, hreqs]
        simp only [submitReconstructRead, hrest, hchunks, hinit, hiovs, hck]
    exact hst.freed

end step

end FlexBSO.Raid5f

import FlexBSO.Raid5f.Control

/- The steps of the channel one by one: each event is a move of the stripe request it
   is about, or takes a request of the upper layer on. `step_inv` puts them together
   and `reach_inv` carries the invariant over whole runs. -/
namespace FlexBSO.Raid5f
open FlexBSO.Lib

/-- The phase a stripe request is in while the call is to run for it. -/
def Call.phase : Call → Phase
  | .submitChunks _ _ => .chunks
  | .xorStripe _ _ => .xor
  | .xorStripeContinue _ => .xor
  | .xorStripeDone _ => .xor
  | .stripeRequestRelease _ => .releasing
  | _ => .free

section steps
variable {c : RaidChannel} {lossy iso : Prop} {s t : State} {ph : Nat → Phase} {r io : Nat}

/-! ## The call on top of the stack -/

/-- At most one call carries a stripe request on, and it tells the phase. -/
theorem PhaseInv.of_call {v : View} {p : Phase} {call : Call} {k : List Call} (h : PhaseInv c lossy iso v r p)
    (hc : v.calls = call :: k) : k = [] ∧ p = call.phase := by
  have hend {call' : Call} (he : v.calls = [call']) (hp : p = call'.phase) : k = [] ∧ p = call.phase := by
    rw [he] at hc
    obtain ⟨rfl, rfl⟩ := List.cons.inj hc
    exact ⟨rfl, hp⟩
  have hnot (he : v.calls = []) : k = [] ∧ p = call.phase := by
    rw [he] at hc
    cases hc
  cases h with
  | free calls => exact hnot calls
  | chunks _ _ _ _ stage =>
    cases stage with
    | loop calls => exact hend calls rfl
    | wait calls => exact hnot calls
    | past calls => exact hnot calls
  | xor _ _ _ _ _ _ _ stage =>
    cases stage with
    | start calls => exact hend calls rfl
    | cont calls => exact hend calls rfl
    | retry calls => exact hnot calls
    | inFlight calls => exact hnot calls
    | mdInFlight calls => exact hnot calls
    | done calls => exact hend calls rfl
  | releasing calls => exact hend calls rfl
  | orphan calls => exact hnot calls
  | stuck _ calls => exact hnot calls

/-- What is known when a call of a stripe request is popped. -/
structure Popped (c : RaidChannel) (lossy iso : Prop) (s : State) (rest : List Call) (ph : Nat → Phase) (r : Nat)
    (call : Call) : Prop where
  calls : (s.view r).calls = [call]
  phase : ph r = call.phase
  view : State.view { s with stack := rest } r = { s.view r with calls := [] }
  frame : ∀ io, Frame s { s with stack := rest } r io
  tails : Tails { s with stack := rest }

theorem Inv.popped (hi : Inv c lossy iso s ph) {call : Call} {rest : List Call} (hs : s.stack = call :: rest)
    (ha : call.about r = true) (hp : call.plain = true) (hf : call.foreign r = false) :
    Popped c lossy iso s rest ph r call := by
  have hcalls : (s.view r).calls = call :: rest.filter (Call.about r) := by
    simp [State.view, State.callsOf, hs, ha]
  obtain ⟨hrest, hphase⟩ := (hi.phase r).of_call hcalls
  rw [hrest] at hcalls
  refine ⟨hcalls, hphase, view_pop hs hp ?_, fun io => Frame.pop hs hf, hi.tails.pop hs⟩
  rw [hcalls]
  simp [ha]

theorem xorStripeCbTail_ios {status : Int} : (xorStripeCbTail s r status).ios = s.ios := by
  unfold xorStripeCbTail
  dsimp only
  split <;> split <;> rfl

/-- The function on top of the stack runs. -/
theorem Inv.call (hi : Inv c lossy iso s ph) {call : Call} {rest : List Call} {a : Answer}
    (g : Guard c lossy iso s (.call a)) (hs : s.stack = call :: rest)
    (h : runCall c { s with stack := rest } call a = some t) : Stepped c lossy iso false s t ph := by
  obtain ⟨hxor, hown, hloss⟩ := g
  have hxor := hxor call (by simp [hs])
  have hown (hi : iso) := hown hi call (by simp [hs])
  have hloss : lossy ∨ call.NoLoss c s a := hloss.imp_right fun hl => hl call (by simp [hs])
  cases call with
  | submitRwRequest io => exact hi.submitRwRequest hs hloss h
  | submitChunks r k =>
    have hp := hi.popped (r := r) hs (by simp [Call.about]) rfl (by simp [Call.foreign])
    have hphase : ph r = .chunks := hp.phase
    obtain ⟨p, m⟩ := submitChunks_move ((hphase ▸ hi.phase r).looping hp.calls) hp.view hp.calls
      (by
        intro ht hk h0 h1
        refine hloss.resolve_right fun hl => ?_
        exact (hl ht hk).elim h0 h1) h
    have hm : Move c lossy iso r false (ph r) (s.view r) p (t.view r) := hphase ▸ .loop m
    exact hi.move ((hp.frame _).trans (Frame.submitChunks c rfl h)) (by rw [hphase]; rfl) rfl hm (hp.tails.submitChunks h)
  | xorStripe r cb =>
    have hp := hi.popped (r := r) hs (by simp [Call.about]) rfl (by simp [Call.foreign])
    have hphase : ph r = .xor := hp.phase
    have howns : (ph r).owns = true := by rw [hphase]; rfl
    obtain rfl := Option.some.inj h
    have hx := hphase ▸ hi.phase r
    have hm : Move c lossy iso r false (ph r) (s.view r) .xor ((Raid5f.xorStripe c { s with stack := rest } r cb a).view r) := by
      rw [hphase]
      exact .xor (xorStripe_move hx (hi.sane howns) hp.view hp.calls hxor)
    exact hi.move ((hp.frame _).trans (Frame.xorStripe c)) howns rfl hm
      (hp.tails.xorStripe hx (hi.sane howns) hp.view hp.calls hxor)
  | xorStripeContinue r =>
    have hp := hi.popped (r := r) hs (by simp [Call.about]) rfl (by simp [Call.foreign])
    have hphase : ph r = .xor := hp.phase
    obtain rfl := Option.some.inj h
    have hm : Move c lossy iso r false (ph r) (s.view r) .xor ((Raid5f.xorStripeContinue c { s with stack := rest } r a).view r) := by
      rw [hphase]
      exact .xor (xorContinue_move hp.view hp.calls hown hxor)
    exact hi.move ((hp.frame _).trans (Frame.xorStripeContinue c)) (by rw [hphase]; rfl) rfl hm hp.tails.xorContinue
  | xorStripeDone r =>
    have hp := hi.popped (r := r) hs (by simp [Call.about]) rfl (by simp [Call.foreign])
    have hphase : ph r = .xor := hp.phase
    obtain rfl := Option.some.inj h
    obtain ⟨p, m⟩ := xorDone_move (hphase ▸ hi.phase r) hp.view hp.calls
    have hm : Move c lossy iso r false (ph r) (s.view r) p ((Raid5f.xorStripeDone c { s with stack := rest } r).view r) := by
      rw [hphase]
      exact .finish m
    exact hi.move ((hp.frame _).trans (Frame.xorStripeDone c rfl)) (by rw [hphase]; rfl) rfl hm hp.tails.xorDone
  | xorRetryQueuePop =>
    obtain rfl := Option.some.inj h
    have htails := hi.tails.pop hs
    have hview (x : Nat) : State.view { s with stack := rest } x = s.view x := by
      simp [State.view, State.callsOf, State.failing, hs, Call.about]
    have hframe (x io : Nat) : Frame s { s with stack := rest } x io := Frame.pop hs rfl
    cases hq : s.ch.xorRetryQueue with
    | nil =>
      have ht : xorRetryQueuePop { s with stack := rest } = { s with stack := rest } := by
        simp [xorRetryQueuePop, hq]
      rw [ht]
      exact hi.idle (fun x => hframe x _) rfl htails
    | cons r k =>
      have hphase : ph r = .xor := by
        have hp := hi.phase r
        have hpos : 0 < (s.view r).queue := by simp [State.view, hq]
        generalize ph r = p at hp
        cases hp with
        | xor => rfl
        | free _ no => rw [no.queue] at hpos; cases hpos
        | chunks _ no => rw [no.queue] at hpos; cases hpos
        | releasing _ _ no => rw [no.queue] at hpos; cases hpos
        | orphan _ _ no => rw [no.queue] at hpos; cases hpos
        | stuck _ _ _ no => rw [no.queue] at hpos; cases hpos
      have hm : Move c lossy iso r false (ph r) (s.view r) .xor ((Raid5f.xorRetryQueuePop { s with stack := rest }).view r) := by
        rw [hphase]
        exact .xor (retryPop_move (hphase ▸ hi.phase r) (hview r) hq (hxor r (by simp [hq])))
      exact hi.move ((hframe _ _).trans (Frame.xorRetryQueuePop hq)) (by rw [hphase]; rfl) rfl hm htails.retryPop
  | xorStripeCbTail r status =>
    obtain rfl := Option.some.inj h
    have htail := hi.tails r status (by simp [hs])
    have m : Move c lossy iso r false (ph r) (s.view r) (ph r) ((xorStripeCbTail { s with stack := rest } r status).view r) :=
      callbackTail_move hs rfl htail
    have htails : Tails (xorStripeCbTail { s with stack := rest } r status) := (hi.tails.pop hs).xorStripeCbTail
    have hf (io : Nat) : Frame s (xorStripeCbTail { s with stack := rest } r status) r io :=
      (Frame.pop hs (by simp [Call.foreign])).trans Frame.xorStripeCbTail
    by_cases ho : (ph r).owns = true
    · exact hi.move (hf _) ho rfl m htails
    · rw [Bool.not_eq_true] at ho
      exact hi.moveFree (hf _) xorStripeCbTail_ios ho ho m htails
  | stripeRequestRelease r =>
    have hp := hi.popped (r := r) hs (by simp [Call.about]) rfl (by simp [Call.foreign])
    have hphase : ph r = .releasing := hp.phase
    obtain rfl := Option.some.inj h
    have hm : Move c lossy iso r false (ph r) (s.view r) .free ((Raid5f.stripeRequestRelease { s with stack := rest } r).view r) :=
      hphase ▸ release_move hp.view hp.calls
    exact hi.moveFree ((hp.frame _).trans Frame.stripeRequestRelease) rfl (by rw [hphase]; rfl) rfl hm hp.tails.release
  | userCb io =>
    obtain rfl := Option.some.inj h
    exact hi.idle (fun x => Frame.pop hs rfl) rfl (hi.tails.pop hs)

/-! ## What the environment does -/

/-- A stripe request with chunk I/O in flight counts it. -/
theorem PhaseInv.counts_of_child {v : View} {p : Phase} {j : Nat} {x : Nat × Child}
    (h : PhaseInv c lossy iso v r p) (get : v.q.children[j]? = some x) : p.counts = true := by
  have hnot (he : v.q.children = []) : p.counts = true := by simp [he] at get
  cases h with
  | chunks => rfl
  | stuck => rfl
  | free _ _ children => exact hnot children
  | xor _ children => exact hnot children
  | releasing _ _ _ children => exact hnot children
  | orphan _ _ _ children => exact hnot children

theorem Phase.owns_of_counts {p : Phase} (h : p.counts = true) : p.owns = true := by
  cases p <;> simp_all [counts, owns, live]

/-- Only the XOR of a stripe request is at the accel framework. -/
theorem PhaseInv.xor_of_noXor {v : View} {p : Phase} (h : PhaseInv c lossy iso v r p) (hno : ¬NoXor v) : p = .xor := by
  cases h with
  | xor => rfl
  | free _ no => exact absurd no hno
  | chunks _ no => exact absurd no hno
  | releasing _ _ no => exact absurd no hno
  | orphan _ _ no => exact absurd no hno
  | stuck _ _ _ no => exact absurd no hno

theorem PhaseInv.running_of_data {v : View} (h : PhaseInv c lossy iso v r .xor) (hd : v.q.dataXors ≠ []) : Running c v := by
  cases h with
  | xor _ _ _ _ _ _ _ stage =>
    cases stage with
    | inFlight _ _ _ _ run => exact run
    | start _ no => exact absurd no.data hd
    | done _ no => exact absurd no.data hd
    | cont _ _ data => exact absurd data hd
    | retry _ _ data => exact absurd data hd
    | mdInFlight _ _ data => exact absurd data hd

theorem moveChild_frame {ch : Child} : Frame s (moveChild c s ch) r io := by
  unfold moveChild
  dsimp only
  split
  · exact Frame.setMem
  · exact { (Frame.refl : Frame s s r io) with }

theorem view_moveChild {ch : Child} : (moveChild c s ch).view r = s.view r := by
  unfold moveChild
  dsimp only
  split <;> rfl

theorem Tails.moveChild {ch : Child} (h : Tails s) : Tails (moveChild c s ch) := by
  unfold Raid5f.moveChild
  dsimp only
  split
  · exact h.setMem
  · exact h

theorem Inv.submit (hi : Inv c lossy iso s ph) {q : Request} (hq : q.Valid c) :
    Stepped c lossy iso false s (raidBdevSubmitRequest s q) ph := by
  have hu := hi.unowned_nios
  have hborn : (s.ios s.nios).completions = [] ∧ s.starts s.nios = 0 := by
    cases hi.io s.nios with
    | unborn ge starts waits completions unowned => exact ⟨completions, starts⟩
    | starting lt => omega
    | owned r lt => omega
    | done lt => omega
    | lost _ lt => omega
  have hcount : s.stack.count (.submitRwRequest s.nios) = 0 := by
    have := hborn.2
    unfold State.starts at this
    omega
  unfold raidBdevSubmitRequest
  dsimp only
  generalize hx : (fun _ : RaidIo => ({ type := q.type, offsetBlocks := q.offsetBlocks, numBlocks := q.numBlocks, iovs := q.iovs s.nios
                                        mdBuf := if q.md then ⟨.userMd s.nios, 0⟩ else NULL
                                        baseBdevIoRemaining := 0, baseBdevIoSubmitted := 0, baseBdevIoStatus := .success
                                        modulePrivate := none, reads := [], waits := [], completions := [] } : RaidIo)) = f
  have hios (x : Nat) (hx : x ≠ s.nios) : (s.setIo s.nios f).ios x = s.ios x := State.setIo_ios_of_ne hx
  have hnew : (s.setIo s.nios f).ios s.nios = f (s.ios s.nios) := State.setIo_ios_self ..
  have hbut : InvBut c lossy iso { s.setIo s.nios f with nios := s.nios + 1 } ph s.nios := by
    refine ⟨fun x => ?_, fun x hx => ?_, fun x hx => ?_⟩
    · refine (hi.phase x).like (like_setIo f x) fun ho => ?_
      simp only [State.view, State.setIo_reqs]
      exact hios _ (hu x ho)
    · refine (hi.io x).congr ?_ (hios x hx) rfl fun y => .inl ⟨rfl, rfl⟩
      simp only
      omega
    · simp only at hx ⊢
      by_cases he : x = s.nios
      · subst he
        rw [hnew, ← ‹_ = f›]
        exact ⟨q, hq, rfl, rfl, rfl, rfl, rfl⟩
      · rw [hios x he]
        exact hi.carries x (by omega)
  refine ⟨ph, hbut.push.inv ?_ ?_, .io s.nios rfl ?_ hios ?_ hu (.inl ?_)⟩
  · refine .starting ?_ ?_ ?_ ?_ ?_ ?_ ?_ hu
    all_goals simp [State.starts, ← hx, hcount]
  · exact Tails.push hi.tails rfl
  · intro x
    refine ⟨rfl, ?_, rfl, rfl, rfl, .inl rfl, ?_⟩
    · simp [State.view, State.callsOf, Call.about]
    · simp [State.view, State.failing]
  · intro h
    omega
  · simp [← hx, hborn]

/-- A step of a request that goes on by itself. -/
theorem Inv.alone {d : Bool} (hi : Inv c lossy iso s ph) (hf : ∀ r, Frame s t r io) (hu : Unowned s ph io)
    (hio : IoInv c lossy t ph io) (hres : NoSuccess (s.ios io) (t.ios io)) (tails : Tails t) :
    Stepped c lossy iso d s t ph :=
  ⟨ph, (hi.but io).frameIo hf hu hio tails,
    .io io rfl (fun x => (hf (x + 1)).like (by omega)) (hf 0).ios (fun _ => (hf 0).request) hu hres⟩

theorem Inv.readMove (hi : Inv c lossy iso s ph) {j : Nat} {arg : ReadCbArg} {ch : Child}
    (get : (s.ios io).reads[j]? = some (arg, ch)) :
    Stepped c lossy iso true s ((moveChild c s ch).setIo io fun x =>
      { x with reads := x.reads.set j (arg, { ch with moved := true }) }) ph := by
  have hmem : (arg, ch) ∈ (s.ios io).reads := List.mem_of_getElem? get
  have hlen : 0 < (s.ios io).reads.length := List.length_pos_of_mem hmem
  obtain ⟨lt, completions, starts, waits, submitted, status, reads, unowned⟩ := hi.starting (show 0 < s.starts io from by
    unfold State.starts
    omega)
  have hm : (moveChild c s ch).ios io = s.ios io := by
    unfold moveChild
    dsimp only
    split <;> rfl
  have hf (r : Nat) : Frame s ((moveChild c s ch).setIo io fun x =>
      { x with reads := x.reads.set j (arg, { ch with moved := true }) }) r io :=
    moveChild_frame.trans (Frame.setIo ⟨rfl, rfl, rfl, rfl, rfl⟩)
  have hcount := (hf 0).count_submit io
  unfold State.starts at starts
  refine hi.alone hf unowned (.starting ((hf 0).nios ▸ lt) ?_ ?_ ?_ ?_ ?_ ?_ ?_) (.inl ?_) hi.tails.moveChild.setIo
  · simp [hm, completions]
  · simp only [State.starts, hcount, State.setIo_ios_self, hm, List.length_set]
    exact starts
  · simp [hm, waits]
  · simp [hm, submitted]
  · simp [hm, status]
  · intro p hp
    simp only [State.setIo_ios_self, hm] at hp ⊢
    rcases List.mem_or_eq_of_mem_set hp with hp | rfl
    · have hd := reads p hp
      exact ⟨hd.arg_eq, hd.io_type, hd.type, hd.iovs, hd.metadata⟩
    · have hd := reads _ hmem
      exact ⟨hd.arg_eq, hd.io_type, hd.type, hd.iovs, hd.metadata⟩
  · intro r ho
    rw [(hf (r + 1)).reqs r (by omega)]
    exact unowned r ho
  · simp [hm]

theorem Inv.chunkMove (hi : Inv c lossy iso s ph) {j k : Nat} {ch : Child}
    (get : (s.reqs r).children[j]? = some (k, ch)) (fresh : ch.moved = false) :
    Stepped c lossy iso true s ((moveChild c s ch).setReq r fun q =>
      { q with children := q.children.set j (k, { ch with moved := true }) }) ph := by
  have hcounts : (ph r).counts = true := (hi.phase r).counts_of_child get
  refine hi.move (moveChild_frame.trans Frame.setReq) (Phase.owns_of_counts hcounts) rfl
    (.chunk (.chunkMoved hcounts j k ch get fresh ?_)) (hi.tails.moveChild.setReq ⟨rfl, rfl⟩)
  rw [view_setReq rfl, view_moveChild]
  rfl

theorem Inv.chunkComplete (hi : Inv c lossy iso s ph) {j k : Nat} {ch : Child} {ok : Bool} (hs : s.stack = [])
    (get : (s.reqs r).children[j]? = some (k, ch)) (moved : ok = true → ch.moved = true) :
    Stepped c lossy iso false s
      (chunkCompleteBdevIo (s.setReq r fun q => { q with children := q.children.eraseIdx j }) r ok) ph := by
  have hcounts : (ph r).counts = true := (hi.phase r).counts_of_child get
  have hidle : (s.view r).calls = [] := by simp [State.view, State.callsOf, hs]
  obtain ⟨p, m⟩ := chunkComplete_move (s := s.setReq r fun q => { q with children := q.children.eraseIdx j })
    (hi.phase r) hcounts get moved hidle (view_setReq rfl)
  exact hi.move (Frame.setReq.trans (Frame.chunkCompleteBdevIo (by simp))) (Phase.owns_of_counts hcounts) rfl
    (.chunk m) (Tails.chunkCompleteBdevIo (hi.tails.setReq ⟨rfl, rfl⟩))

theorem Inv.xorStore (hi : Inv c lossy iso s ph) {j : Nat} {x : AccelXor} (get : (s.reqs r).dataXors[j]? = some x) :
    Stepped c lossy iso true s ((storeXor s x).setReq r fun q =>
      { q with dataXors := q.dataXors.set j { x with stored := true } }) ph := by
  have hphase : ph r = .xor := by
    refine (hi.phase r).xor_of_noXor fun no => ?_
    have hd : (s.reqs r).dataXors = [] := no.data
    simp [hd] at get
  have hm : Move c lossy iso r true (ph r) (s.view r) .xor
      (((storeXor s x).setReq r fun q => { q with dataXors := q.dataXors.set j { x with stored := true } }).view r) := by
    rw [hphase]
    refine .xor (.xorStored j x get ?_)
    rw [view_setReq rfl]
    rfl
  exact hi.move (Frame.setMem.trans Frame.setReq) (by rw [hphase]; rfl) rfl hm (hi.tails.setMem.setReq ⟨rfl, rfl⟩)

theorem Inv.mdXorStore (hi : Inv c lossy iso s ph) {j : Nat} {x : AccelXor} (get : (s.reqs r).mdXors[j]? = some x) :
    Stepped c lossy iso true s ((storeXor s x).setReq r fun q =>
      { q with mdXors := q.mdXors.set j { x with stored := true } }) ph := by
  have hphase : ph r = .xor := by
    refine (hi.phase r).xor_of_noXor fun no => ?_
    have hd : (s.reqs r).mdXors = [] := no.md
    simp [hd] at get
  have hm : Move c lossy iso r true (ph r) (s.view r) .xor
      (((storeXor s x).setReq r fun q => { q with mdXors := q.mdXors.set j { x with stored := true } }).view r) := by
    rw [hphase]
    refine .xor (.mdStored j x get ?_)
    rw [view_setReq rfl]
    rfl
  exact hi.move (Frame.setMem.trans Frame.setReq) (by rw [hphase]; rfl) rfl hm (hi.tails.setMem.setReq ⟨rfl, rfl⟩)

theorem Inv.xorComplete (hi : Inv c lossy iso s ph) {j : Nat} {x : AccelXor} {status : Int} (hs : s.stack = [])
    (get : (s.reqs r).dataXors[j]? = some x) (stored : status = 0 → x.stored = true) :
    Stepped c lossy iso false s (xorStripeCb (s.setReq r fun q => { q with dataXors := q.dataXors.eraseIdx j }) r status) ph := by
  have hphase : ph r = .xor := by
    refine (hi.phase r).xor_of_noXor fun no => ?_
    have hd : (s.reqs r).dataXors = [] := no.data
    simp [hd] at get
  have howns : (ph r).owns = true := by rw [hphase]; rfl
  have hm : Move c lossy iso r false (ph r) (s.view r) .xor
      ((xorStripeCb (s.setReq r fun q => { q with dataXors := q.dataXors.eraseIdx j }) r status).view r) := by
    rw [hphase]
    exact .xor (xorCb_move (hphase ▸ hi.phase r) (hi.sane howns) get stored hs (view_setReq rfl))
  have hx := hphase ▸ hi.phase r
  have hrun : Running c (s.view r) := hx.running_of_data (List.ne_nil_of_mem (List.mem_of_getElem? get))
  have hle : (s.reqs r).xorLen ≤ (s.reqs r).xorRemaining := by
    obtain ⟨out, hpos, -⟩ := hrun.pos
    exact hpos.len_le ((hi.phase r).owner howns)
  have hlt : (s.reqs r).xorRemaining < 2 ^ 63 := by
    obtain ⟨out, hpos, -⟩ := hrun.pos
    have h1 : (s.reqs r).xorRemaining ≤ (s.view r).total c := hpos.1
    have h2 := (hi.sane howns).total_lt
    omega
  refine hi.move (Frame.setReq.trans Frame.xorStripeCb) howns rfl hm (Tails.xorStripeCb hs ?_ ?_ ?_)
  all_goals rw [State.setReq_reqs_self]
  · exact hlt
  · exact hrun.mdLt
  · exact hle

theorem Inv.mdXorComplete (hi : Inv c lossy iso s ph) {j : Nat} {x : AccelXor} {status : Int} (hs : s.stack = [])
    (get : (s.reqs r).mdXors[j]? = some x) :
    Stepped c lossy iso false s (xorStripeMdCb (s.setReq r fun q => { q with mdXors := q.mdXors.eraseIdx j }) r status) ph := by
  have hphase : ph r = .xor := by
    refine (hi.phase r).xor_of_noXor fun no => ?_
    have hd : (s.reqs r).mdXors = [] := no.md
    simp [hd] at get
  have howns : (ph r).owns = true := by rw [hphase]; rfl
  have hm : Move c lossy iso r false (ph r) (s.view r) .xor
      ((xorStripeMdCb (s.setReq r fun q => { q with mdXors := q.mdXors.eraseIdx j }) r status).view r) := by
    rw [hphase]
    exact .xor (xorMdCb_move (hphase ▸ hi.phase r) (hi.sane howns) get hs (view_setReq rfl))
  exact hi.move (Frame.setReq.trans Frame.xorStripeMdCb) howns rfl hm (Tails.xorStripeMdCb hs)

/-- A request whose chunk submission waits is served, and waits for nothing else. -/
theorem Inv.waiting (hi : Inv c lossy iso s ph) (h : .chunkSubmitRetry ∈ (s.ios io).waits) :
    ∃ r, ph r = .chunks ∧ (s.reqs r).raidIo = io ∧ (s.ios io).waits = [.chunkSubmitRetry] ∧
      (s.ios io).modulePrivate = some r := by
  have hpos := List.count_pos_iff.mpr h
  have hnot {P : Prop} (he : (s.ios io).waits = []) : P := by simp [he] at h
  cases hi.io io with
  | unborn _ _ waits => exact hnot waits
  | starting _ _ _ waits => omega
  | done _ _ _ waits => exact hnot waits
  | lost _ _ _ _ waits => exact hnot waits
  | owned r lt live io_eq starts =>
    have hp := hi.phase r
    have hx : (s.view r).x = s.ios io := by simp only [State.view, io_eq]
    have howner := hp.owner (Phase.owns_of_live live)
    refine ⟨r, ?_⟩
    generalize ph r = p at hp live
    cases hp with
    | chunks _ _ _ _ stage =>
      cases stage with
      | loop _ waits => exact hnot (hx ▸ waits)
      | past _ waits => exact hnot (hx ▸ waits)
      | wait _ waits => exact ⟨rfl, io_eq, hx ▸ waits, hx ▸ howner.priv⟩
    | xor _ _ waits => exact hnot (hx ▸ waits)
    | _ => cases live

theorem Inv.ioWait (hi : Inv c lossy iso s ph) {j : Nat} {cb : WaitCb} (hs : s.stack = [])
    (get : (s.ios io).waits[j]? = some cb)
    (h : ioWaitCall c (s.setIo io fun x => { x with waits := x.waits.eraseIdx j }) io cb = some t) :
    Stepped c lossy iso false s t ph := by
  have hmem := List.mem_of_getElem? get
  cases cb with
  | submitRwRequest =>
    obtain rfl := Option.some.inj h
    have hpos := List.count_pos_iff.mpr hmem
    have hstart : 0 < s.starts io := by
      unfold State.starts
      omega
    obtain ⟨lt, completions, starts, waits, submitted, status, reads, unowned⟩ := hi.starting hstart
    unfold State.starts at starts
    have hreads : (s.ios io).reads = [] := List.length_eq_zero_iff.mp (by omega)
    have hwaits : (s.ios io).waits.eraseIdx j = [] := by
      have hone : (s.ios io).waits.length = 1 := by
        rw [length_waits, waits]
        omega
      obtain ⟨hj, -⟩ := List.getElem?_eq_some_iff.mp get
      exact List.eraseIdx_eq_nil_iff.mpr (.inr ⟨hone, by omega⟩)
    have hr := hi.ready_setIo (f := fun x => { x with waits := x.waits.eraseIdx j }) hs hstart
      ⟨rfl, rfl, rfl, rfl, rfl⟩ hreads hwaits ⟨rfl, rfl, rfl⟩
    generalize (s.setIo io fun x => { x with waits := x.waits.eraseIdx j }) = s' at hr
    refine ⟨ph, hr.but.push.inv ?_ (Tails.push hr.tails rfl), .io io rfl ?_ hr.ios (fun _ => hr.same) unowned (.inl ?_)⟩
    · refine .starting hr.lt hr.fresh.completions ?_ ?_ hr.fresh.submitted hr.fresh.status ?_ hr.unowned'
      · simp [State.starts, hr.count, hr.fresh.reads, hr.fresh.waits]
      · simp [hr.fresh.waits]
      · simp [hr.fresh.reads]
    · intro x
      refine (hr.like x).trans ⟨rfl, ?_, rfl, rfl, rfl, .inl rfl, ?_⟩
      · simp [State.view, State.callsOf, Call.about]
      · simp [State.view, State.failing]
    · rw [State.push_ios, hr.fresh.completions, hr.before]
  | chunkSubmitRetry =>
    obtain ⟨r, hphase, hraid, hwaits, hpriv⟩ := hi.waiting hmem
    have hj : (s.ios io).waits.eraseIdx j = [] := by
      rw [hwaits] at get ⊢
      cases j with
      | zero => rfl
      | succ j => cases get
    have hx : (s.view r).x = s.ios io := by simp only [State.view, hraid]
    have hv := view_setIo (s := s) (f := fun x => { x with waits := x.waits.eraseIdx j }) hraid
    rw [hx, hj] at hv
    unfold ioWaitCall at h
    dsimp only at h
    rw [State.setIo_ios_self] at h
    simp only [hpriv, Option.map_some, Option.some.injEq] at h
    subst h
    have hm : Move c lossy iso r false (ph r) (s.view r) .chunks
        ((stripeRequestSubmitChunks c (s.setIo io fun x => { x with waits := x.waits.eraseIdx j }) r).view r) := by
      rw [hphase]
      exact .loop (resume_move (hphase ▸ hi.phase r) (hx ▸ hwaits) (by rw [hv, hx]))
    exact hi.move ((Frame.setIo ⟨rfl, rfl, rfl, rfl, rfl⟩).trans (Frame.stripeRequestSubmitChunks c))
      (by rw [hphase]; rfl) hraid hm hi.tails.setIo.stripeRequestSubmitChunks

/-! ## Every step -/

/-- The event moves data. -/
def Event.moves : Event → Bool
  | .readMove _ _ => true
  | .chunkMove _ _ => true
  | .xorStore _ _ => true
  | .mdXorStore _ _ => true
  | _ => false

/-- Every step keeps the invariant and is a move. -/
theorem step_inv {e : Event} (hi : Inv c lossy iso s ph) (g : Guard c lossy iso s e) (h : step c s e = some t) :
    Stepped c lossy iso e.moves s t ph := by
  cases e with
  | call a =>
    unfold step at h
    cases hs : s.stack with
    | nil => rw [hs] at h; cases h
    | cons call rest =>
      rw [hs] at h
      exact hi.call g hs h
  | submit q =>
    unfold step at h
    dsimp only at h
    split at h
    · next hq =>
      obtain rfl := Option.some.inj h
      exact hi.submit hq.2
    · cases h
  | readMove io j =>
    obtain ⟨⟨arg, ch⟩, get, h⟩ := Option.bind_eq_some_iff.mp h
    dsimp only at h
    split at h
    · cases h
    · obtain rfl := Option.some.inj h
      exact hi.readMove get
  | readComplete io j ok a =>
    obtain ⟨⟨arg, ch⟩, get, h⟩ := Option.bind_eq_some_iff.mp h
    dsimp only at h
    split at h
    · next hc =>
      have hloss : lossy ∨ (ok = true → SourcesPresent c (c.chunkIdx arg.stripeIndex arg.stripeOffset) ∧
          ∃ r ∈ s.ch.freeReconstruct.head?,
          (chunkSetIovcnt ((s.reqs r).chunks (c.chunkIdx arg.stripeIndex arg.stripeOffset)) (s.ios io).iovs.length
            (a.alloc (c.chunkIdx arg.stripeIndex arg.stripeOffset))).isSome) := by
        exact g.loss.imp_right fun hl hok => hl hok (arg, ch) get
      exact Option.some.inj h ▸ hi.readComplete (p := (arg, ch)) hc.1 get hloss
    · cases h
  | chunkMove r j =>
    obtain ⟨⟨k, ch⟩, get, h⟩ := Option.bind_eq_some_iff.mp h
    dsimp only at h
    split at h
    · cases h
    · next hf =>
      obtain rfl := Option.some.inj h
      exact hi.chunkMove get (by simpa using hf)
  | chunkComplete r j ok =>
    obtain ⟨⟨k, ch⟩, get, h⟩ := Option.bind_eq_some_iff.mp h
    dsimp only at h
    split at h
    · next hc =>
      obtain rfl := Option.some.inj h
      exact hi.chunkComplete hc.1 get hc.2
    · cases h
  | xorStore r j =>
    obtain ⟨x, get, h⟩ := Option.bind_eq_some_iff.mp h
    split at h
    · cases h
    · obtain rfl := Option.some.inj h
      exact hi.xorStore get
  | xorComplete r j status =>
    obtain ⟨x, get, h⟩ := Option.bind_eq_some_iff.mp h
    split at h
    · next hc =>
      obtain rfl := Option.some.inj h
      exact hi.xorComplete hc.1 get hc.2
    · cases h
  | mdXorStore r j =>
    obtain ⟨x, get, h⟩ := Option.bind_eq_some_iff.mp h
    split at h
    · cases h
    · obtain rfl := Option.some.inj h
      exact hi.mdXorStore get
  | mdXorComplete r j status =>
    obtain ⟨x, get, h⟩ := Option.bind_eq_some_iff.mp h
    split at h
    · next hc =>
      obtain rfl := Option.some.inj h
      exact hi.mdXorComplete hc.1 get
    · cases h
  | ioWait io j =>
    obtain ⟨cb, get, h⟩ := Option.bind_eq_some_iff.mp h
    split at h
    · next hc => exact hi.ioWait hc get h
    · cases h

end steps

end FlexBSO.Raid5f

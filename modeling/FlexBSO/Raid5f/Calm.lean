import FlexBSO.Raid5f.Stores

/- Runs in which requests and XORs do not get in each other's way (`Calm`): a request
   comes when those it shares a block with are completed, unless they all read, no data
   XOR is accepted over another request's segments, and none of the hazards of the XOR
   with metadata occurs. What is known of the data of the requests at work (`WorkInv`)
   is kept by every step, and a step is one of three kinds (`CalmStep`). The first thing
   that follows is that a request that is completed gets its buffers back for good
   (`completed_buffers`). -/
namespace FlexBSO.Raid5f
open FlexBSO.Lib

section reasons
variable {c : RaidChannel} {s t : State} {ph : Nat → Phase} {r k : Nat} {e : Event}

theorem State.not_failing (hi : Inv c True True s ph) (h0 : (s.reqs r).xorRemaining = 0) (h1 : (s.reqs r).xorRemainingMd = 0) :
    s.failing r = false := by
  by_contra hf
  obtain ⟨call, hin, hcall⟩ := List.any_eq_true.mp (Bool.not_eq_false _ ▸ hf)
  cases call with
  | xorStripeCbTail x status =>
    obtain rfl : x = r := by simpa using (Bool.and_eq_true_iff.mp hcall).1
    have := hi.tails x status hin
    rw [h0, h1] at this
    exact this rfl
  | _ => cases hcall

/-- What the step says of a move that the view does not tell. -/
theorem step_reasons (hi : Inv c True True s ph) (h : step c s e = some t) (hm : e.moves = false) (hp : NoPoison e)
    (r : Nat) : Reasons c (ph r) (s.view r) (t.view r) r := by
  have hsubmit {P : Prop} {q : Request} (he : e = .submit q) (hP : t.reqs = s.reqs → t.stack = .submitRwRequest s.nios :: s.stack → P) :
      P := by
    subst he
    obtain ⟨-, h⟩ := Option.ite_none_right_eq_some.mp h
    obtain rfl := Option.some.inj h
    exact hP rfl rfl
  have hcall {call : Call} (hc : (s.view r).calls = [call]) : call ∈ s.stack := (State.mem_stack_of_calls hc).1
  refine ⟨fun k hk hnot => ?_, fun hfree hk htype => ?_, fun hdone hst => ?_, fun hdone h0 h1 => ?_, fun hne hnil => ?_⟩
  · have habout : Call.about r (.submitChunks r k) = true := by simp [Call.about]
    have hnot : .submitChunks r k ∉ t.stack := fun hin => hnot (List.mem_filter.mpr ⟨hin, habout⟩)
    obtain ⟨a, rest, rfl, hs⟩ := step_stack h hp (hcall hk) hnot
    have h : submitChunks c { s with stack := rest } r k a = some t := by
      unfold step at h
      rw [hs] at h
      exact h
    have hpop := hi.popped hs habout rfl (by simp [Call.foreign])
    have hphase : ph r = .chunks := hpop.phase
    have hl := (hphase ▸ hi.phase r).looping hpop.calls
    obtain ⟨p, m⟩ : ∃ p, LoopMove c True r _ p (t.view r) := submitChunks_move hl hpop.view hpop.calls (fun _ _ _ _ => trivial) h
    have hm : Move c True True r false .chunks (s.view r) p (t.view r) := .loop m
    have hio : (t.reqs r).raidIo = (s.reqs r).raidIo := (hm.sameWork (by decide)).raidIo
    refine ⟨fun htype hne => submitChunks_read_channel h htype hne, fun htype hc => ?_⟩
    have hx : (t.view r).x = t.ios (s.reqs r).raidIo := by rw [State.view, hio]
    rw [hx]
    have hsent := submitChunks_write_channel h htype hc
    exact hsent
  · have hin : .submitChunks r 0 ∈ t.stack := (State.mem_stack_of_calls hk).1
    exact unready_parity hi h hm hfree hin htype
  · by_cases hnew : ∃ q, e = .submit q
    · obtain ⟨q, he⟩ := hnew
      exact hsubmit he fun hreqs _ => by
        have hq : (t.view r).q = (s.view r).q := congrFun hreqs r
        rwa [hq] at hst
    · have hhead (cb : XorCb) : s.stack.head? ≠ some (.xorStripe r cb) := by
        intro hhead
        have hin : Call.xorStripe r cb ∈ (s.view r).calls :=
          List.mem_filter.mpr ⟨List.mem_of_head? hhead, by simp [Call.about]⟩
        rw [hdone] at hin
        cases List.mem_singleton.mp hin
      have hquiet := (step_quiet h hm hp (fun q hq => hnew ⟨q, hq⟩) hhead).status hst
      cases e with
      | xorComplete x j status =>
        have hq : ((s.popped (.xorComplete x j status)).reqs r).xorStatus = (s.reqs r).xorStatus := by
          by_cases hr : r = x
          · subst hr
            unfold State.popped
            rw [State.setReq_reqs_self]
          · unfold State.popped
            rw [State.setReq_reqs_of_ne hr]
        exact hq ▸ hquiet
      | _ => exact hquiet
  · exact State.not_failing hi h0 h1
  · have hne : (s.reqs r).dataXors ≠ [] := hne
    have hnil : (t.reqs r).dataXors = [] := hnil
    by_cases hidle : s.stack = []
    · simp [State.view, State.failing, hidle]
    · exfalso
      by_cases hnew : ∃ q, e = .submit q
      · obtain ⟨q, he⟩ := hnew
        exact hsubmit he fun hreqs _ => hne (by rw [← congrFun hreqs r]; exact hnil)
      · have hhead (cb : XorCb) : s.stack.head? ≠ some (.xorStripe r cb) := by
          intro hhead
          obtain ⟨rest, hs⟩ := List.head?_eq_some_iff.mp hhead
          have hpop := hi.popped (r := r) hs (by simp [Call.about]) rfl (by simp [Call.foreign])
          have hphase : ph r = .xor := hpop.phase
          cases hphase ▸ hi.phase r with
          | xor _ _ _ _ _ _ _ stage =>
            cases stage with
            | start _ no | done _ no => exact hne no.data
            | cont calls | retry calls | inFlight calls | mdInFlight calls => cases calls.symm.trans hpop.calls
        have hdata := (step_quiet h hm hp (fun q hq => hnew ⟨q, hq⟩) hhead).data
        rw [hnil, List.prefix_nil] at hdata
        cases e with
        | xorComplete x j status =>
          obtain ⟨y, -, h⟩ := Option.bind_eq_some_iff.mp h
          obtain ⟨⟨hstack, -⟩, -⟩ := Option.ite_none_right_eq_some.mp h
          exact hidle hstack
        | _ => exact hne hdata

end reasons

/-! ## What a step does to the requests of the upper layer -/

section evolves
variable {c : RaidChannel} {s t : State} {ph ph' : Nat → Phase} {r io : Nat}

theorem SameRequest.refl {x y : RaidIo} (h : x = y) : SameRequest x y := h ▸ .self _

theorem Inv.completions_le (hi : Inv c True True s ph) (io : Nat) : (s.ios io).completions.length ≤ 1 := by
  cases hi.io io with
  | unborn _ _ _ completions | starting _ completions | lost _ _ completions =>
    rw [completions]
    exact Nat.zero_le 1
  | owned r _ live io_eq =>
    have hnil : (s.ios (s.reqs r).raidIo).completions = [] := ((hi.phase r).owner (Phase.owns_of_live live)).completions
    rw [← io_eq, hnil]
    exact Nat.zero_le 1
  | done _ completions => exact Nat.le_of_eq completions

theorem Evolves.same (he : Evolves c True True false s t ph ph') (hlt : io < s.nios) : SameRequest (t.ios io) (s.ios io) := by
  cases he with
  | request r io' rest like ios same =>
    by_cases hio : io = io'
    · exact hio ▸ same
    · exact .refl (ios io hio)
  | io io' rest like ios same =>
    by_cases hio : io = io'
    · subst hio
      exact same hlt
    · exact .refl (ios io hio)

/-- A request is completed once. -/
theorem Evolves.completed (he : Evolves c True True false s t ph ph') (hi : Inv c True True s ph)
    (hi' : Inv c True True t ph') (hne : (s.ios io).completions ≠ []) : (t.ios io).completions = (s.ios io).completions := by
  have hpos := List.length_pos_iff.mpr hne
  have hresult (h : NoSuccess (s.ios io) (t.ios io)) : (t.ios io).completions = (s.ios io).completions := by
    rcases h with h | ⟨st, -, h⟩
    · exact h
    · have := hi'.completions_le io
      rw [h, List.length_append, List.length_singleton] at this
      omega
  cases he with
  | request r io' rest like ios same own own' others result =>
    by_cases hio : io = io'
    · subst hio
      rcases result with ho | result
      · have hnil : (s.ios (s.reqs r).raidIo).completions = [] := ((hi.phase r).owner ho).completions
        rw [own ho] at hnil
        exact absurd hnil hne
      · exact hresult result
    · rw [ios io hio]
  | io io' rest like ios same unowned result =>
    by_cases hio : io = io'
    · subst hio
      exact hresult result
    · rw [ios io hio]

/-- A request that comes to be completed with success is one a stripe request works for. -/
theorem Evolves.succeeded (he : Evolves c True True false s t ph ph')
    (hi' : Inv c True True t ph') (hs : (s.ios io).completions ≠ [.success]) (ht : (t.ios io).completions = [.success]) :
    ∃ r, (ph r).live = true ∧ (s.reqs r).raidIo = io ∧ (t.view r).x = t.ios io ∧
      Move c True True r false (ph r) (s.view r) (ph' r) (t.view r) := by
  have hnever {P : Prop} (h : NoSuccess (s.ios io) (t.ios io)) : P := by
    rcases h with h | ⟨st, hst, h⟩
    · exact absurd (h.symm.trans ht) hs
    · have hone := h.symm.trans ht
      have hlast : st = .success := by simpa using congrArg List.getLast? hone
      exact absurd hlast hst
  cases he with
  | request r io' rest like ios same own own' others result move =>
    by_cases hio : io = io'
    · subst hio
      rcases result with ho | result
      · have hr := own ho
        have hnf : ph r ≠ .free := by
          intro hf
          rw [hf] at ho
          cases ho
        have hx : (t.view r).x = t.ios io := by
          have hwork : (t.reqs r).raidIo = (s.reqs r).raidIo := (move.sameWork hnf).raidIo
          rw [State.view, hwork, hr]
        refine ⟨r, ?_, hr, hx, move⟩
        by_contra hl
        have hstuck : ph r = .stuck := by
          cases hp : ph r <;> simp_all [Phase.owns, Phase.live]
        rw [hstuck] at move
        have howner := (hi'.phase r).owner (by rw [move.of_stuck]; rfl)
        have hnil := howner.completions
        rw [hx, ht] at hnil
        cases hnil
      · exact hnever result
    · rw [ios io hio] at ht
      exact absurd ht hs
  | io io' rest like ios same unowned result =>
    by_cases hio : io = io'
    · subst hio
      exact hnever result
    · rw [ios io hio] at ht
      exact absurd ht hs

/-- Control moves, and the data of every stripe request stays as its phase says. -/
theorem Evolves.data (he : Evolves c True True false s t ph ph') (hi : Inv c True True s ph) (hi' : Inv c True True t ph')
    (hd : ∀ r, ReqData c s.mem s.disk (s.view r) r (ph r)) (hmem : t.mem = s.mem) (hdisk : t.disk = s.disk)
    (why : ∀ r, Reasons c (ph r) (s.view r) (t.view r) r) (r : Nat) : ReqData c t.mem t.disk (t.view r) r (ph' r) := by
  rw [hmem, hdisk]
  have hlike {x : Nat} (l : (s.view x).Like (t.view x)) (hp : ph' x = ph x)
      (hx : (ph x).owns = true → t.ios (s.reqs x).raidIo = s.ios (s.reqs x).raidIo) :
      ReqData c s.mem s.disk (t.view x) x (ph' x) := by
    rw [hp]
    refine (hd x).congr l (fun ho => ⟨hi.working ho, ?_⟩) (fun _ _ _ => rfl) fun _ _ _ _ _ => rfl
    have hq : t.reqs x = s.reqs x := l.q
    rw [State.view, hq]
    exact hx ho
  cases he with
  | request r' io rest like ios same own own' others result move =>
    by_cases hr : r = r'
    · subst hr
      refine (hd r).move move (hi.phase r) (hi'.phase r) (why r) fun hp => ?_
      have hio : (t.reqs r).raidIo = (s.reqs r).raidIo := (move.sameWork hp).raidIo
      have hx : (t.view r).x = t.ios (s.reqs r).raidIo := by rw [State.view, hio]
      rw [hx]
      by_cases h : (s.reqs r).raidIo = io
      · rw [h]
        exact same.numBlocks.trans (by rw [State.view, h])
      · rw [ios _ h]
        rfl
    · exact hlike (like r hr) (rest r hr) fun ho => ios _ (others r hr ho)
  | io io rest like ios same unowned =>
    exact hlike (like r) (by rw [rest]) fun ho => ios _ (unowned r ho)

end evolves

/-! ## Calm steps -/

/-- The state after a request has come: it is the last one, and not completed. -/
structure Submitted (s t : State) (q : Request) : Prop where
  nios : t.nios = s.nios + 1
  mem : t.mem = s.mem
  disk : t.disk = s.disk
  old : ∀ x ≠ s.nios, t.ios x = s.ios x
  type : (t.ios s.nios).type = q.type
  offset : (t.ios s.nios).offsetBlocks = q.offsetBlocks
  blocks : (t.ios s.nios).numBlocks = q.numBlocks
  completions : (t.ios s.nios).completions = []

section calm
variable (c : RaidChannel) (s : State)

/-- A request comes when those that share a block with it are completed, or they and it all read. -/
def NoOverlap : Event → Prop
  | .submit q => ∀ io < s.nios, (s.ios io).completions = [] → q.offsetBlocks < (s.ios io).offsetBlocks + (s.ios io).numBlocks →
      (s.ios io).offsetBlocks < q.offsetBlocks + q.numBlocks → (s.ios io).type = .read ∧ q.type = .read
  | _ => True

/-- Requests do not get in each other's way, and neither do XORs; no chunk is spoiled. -/
structure Calm (e : Event) : Prop where
  xor : XorSafe s e
  own : OwnSegments s e
  poison : NoPoison e
  overlap : NoOverlap s e

/-- What holds of the requests at work in every state of a calm run. -/
structure WorkInv (ph : Nat → Phase) : Prop where
  reqs : ∀ r, ReqData c s.mem s.disk (s.view r) r (ph r)
  ordered : Ordered c s

/-- A step of a calm run: data moves, a request comes or control moves. -/
inductive CalmStep (t : State) (ph ph' : Nat → Phase) : Prop where
  | moved (h : Moved c s t ph) (same : ph' = ph)
  | submitted (q : Request) (h : Submitted s t q)
  | passed (he : Evolves c True True false s t ph ph') (nios : t.nios = s.nios) (mem : t.mem = s.mem)
      (disk : t.disk = s.disk) (why : ∀ r, Reasons c (ph r) (s.view r) (t.view r) r)

end calm

instance (s : State) : ∀ e, Decidable (NoOverlap s e)
  | .submit _ => inferInstanceAs (Decidable (∀ io < s.nios, _ → _ → _ → _))
  | .call _ | .readMove _ _ | .readComplete _ _ _ _ | .chunkMove _ _ | .chunkComplete _ _ _ | .xorStore _ _
  | .xorComplete _ _ _ | .mdXorStore _ _ | .mdXorComplete _ _ _ | .ioWait _ _ => isTrue trivial

instance (s : State) (e : Event) : Decidable (Calm s e) :=
  decidable_of_iff (XorSafe s e ∧ OwnSegments s e ∧ NoPoison e ∧ NoOverlap s e)
    ⟨fun h => ⟨h.1, h.2.1, h.2.2.1, h.2.2.2⟩, fun h => ⟨h.xor, h.own, h.poison, h.overlap⟩⟩

section keeps
variable {c : RaidChannel} {s t : State} {ph ph' : Nat → Phase} {r io : Nat}

theorem Ordered.congr (h : Ordered c s) (nios : t.nios = s.nios) (same : ∀ x < s.nios, SameRequest (t.ios x) (s.ios x))
    (done : ∀ x < s.nios, (t.ios x).completions = [] → (s.ios x).completions = []) : Ordered c t := by
  intro a b hab hb hnone hsi
  rw [nios] at hb
  have ha : a < s.nios := Nat.lt_trans hab hb
  rw [stripeOf, stripeOf, (same a ha).offsetBlocks, (same b hb).offsetBlocks] at hsi
  rw [(same a ha).type, (same b hb).type]
  exact h a b hab hb (done a ha hnone) hsi

/-- No write comes to the stripe of a request that is not completed. -/
theorem Ordered.no_later (h : Ordered c s) (hnone : (s.ios io).completions = []) {x : Nat} (hx : io < x) (hlt : x < s.nios)
    (htype : (s.ios x).type = .write) : stripeOf c (s.ios x) ≠ stripeOf c (s.ios io) := by
  intro hsi
  have hread := (h io x hx hlt hnone hsi.symm).2
  rw [htype] at hread
  cases hread

/-- The addresses of a request are in its own buffers. -/
theorem Inv.own_buffers (hi : Inv c True True s ph) (hlt : io < s.nios) {a : Addr} (ha : a ∈ addrs (s.ios io).iovs) :
    ∃ k off, a = ⟨.user io k, off⟩ := by
  obtain ⟨q, -, hc⟩ := hi.carries io hlt
  rw [hc.iovs] at ha
  obtain ⟨k, hk⟩ := (q.iovs_apart io).2 a ha
  exact ⟨k, a.off, by rw [← hk]⟩

/-- Data moves. -/
theorem WorkInv.moved (hd : WorkInv c s ph) (hm : Moved c s t ph) : WorkInv c t ph :=
  ⟨hm.reqs, hd.ordered.congr hm.nios (fun x _ => hm.same x) fun x _ hx => (hm.completions x).symm.trans hx⟩

/-- Control moves. -/
theorem WorkInv.passed (hd : WorkInv c s ph) (hi : Inv c True True s ph) (hi' : Inv c True True t ph')
    (he : Evolves c True True false s t ph ph') (hnios : t.nios = s.nios) (hmem : t.mem = s.mem) (hdisk : t.disk = s.disk)
    (why : ∀ r, Reasons c (ph r) (s.view r) (t.view r) r) : WorkInv c t ph' := by
  refine ⟨he.data hi hi' hd.reqs hmem hdisk why, hd.ordered.congr hnios (fun x hx => he.same hx) fun x _ hnone => ?_⟩
  by_contra hne
  rw [he.completed hi hi' hne] at hnone
  exact hne hnone

theorem submitted_of (s : State) (q : Request) : Submitted s (raidBdevSubmitRequest s q) q := by
  refine ⟨rfl, rfl, rfl, fun x hx => ?_, ?_, ?_, ?_, ?_⟩
  · simp [raidBdevSubmitRequest, State.setIo_ios_of_ne hx]
  all_goals simp [raidBdevSubmitRequest]

theorem Submitted.same {q : Request} (h : Submitted s t q) {x : Nat} (hx : x < s.nios) : SameRequest (t.ios x) (s.ios x) :=
  .refl (h.old x (by omega))

/-- Requests to one stripe share a block, unless both read. -/
theorem Submitted.ordered {q : Request} (h : Submitted s t q) (hord : Ordered c s) (hi : Inv c True True s ph)
    (hi' : Inv c True True t ph') (hq : q.Valid c) (hover : NoOverlap s (.submit q)) : Ordered c t := by
  intro a b hab hb hnone hsi
  have hn := h.nios
  have ha : a < s.nios := by omega
  by_cases hbn : b = s.nios
  · subst hbn
    have hoff := h.offset
    have hblocks := h.blocks
    rw [h.old a (by omega)] at hnone hsi ⊢
    rw [stripeOf, stripeOf] at hsi
    obtain ⟨qa, hva, hca⟩ := hi.carries a ha
    have hposa : 0 < (s.ios a).numBlocks := hca.numBlocks ▸ hva.1
    have hposq := hq.1
    have hpos : 0 < c.stripeBlocks := Nat.zero_lt_of_lt (offset_mod_lt 0)
    have hda := Nat.div_add_mod' (s.ios a).offsetBlocks c.stripeBlocks
    have hdq := Nat.div_add_mod' (t.ios s.nios).offsetBlocks c.stripeBlocks
    have hma := Nat.mod_lt (s.ios a).offsetBlocks hpos
    have hmq := Nat.mod_lt (t.ios s.nios).offsetBlocks hpos
    rw [hsi] at hda
    have hboth (h1 : q.offsetBlocks < (s.ios a).offsetBlocks + (s.ios a).numBlocks)
        (h2 : (s.ios a).offsetBlocks < q.offsetBlocks + q.numBlocks) :
        (s.ios a).type = .read ∧ (t.ios s.nios).type = .read := by
      obtain ⟨hra, hrq⟩ := hover a ha hnone h1 h2
      exact ⟨hra, h.type.trans hrq⟩
    cases h1 : (s.ios a).type with
    | write =>
      have hw := hi.stripeWrite ha h1
      have hsize := hw.blocks
      have hstart := hw.offset
      rw [stripeOf, hsi] at hstart
      obtain ⟨hread, -⟩ := hboth (by omega) (by omega)
      rw [h1] at hread
      cases hread
    | read =>
      cases h2 : (t.ios s.nios).type with
      | read => exact ⟨rfl, rfl⟩
      | write =>
        have hw := hi'.stripeWrite (by omega) h2
        have hsize := hw.blocks
        have hstart := hw.offset
        rw [stripeOf] at hstart
        obtain ⟨-, hread⟩ := hboth (by omega) (by omega)
        rw [h2] at hread
        cases hread
  · rw [h.old a (by omega)] at hnone hsi ⊢
    rw [h.old b hbn] at hsi ⊢
    exact hord a b hab (by omega) hnone hsi

/-- A request comes. -/
theorem WorkInv.submitted (hd : WorkInv c s ph) (hi : Inv c True True s ph) {q : Request} (h : Submitted s t q)
    (hq : q.Valid c) (hover : NoOverlap s (.submit q)) (hi' : Inv c True True t ph')
    (he : Evolves c True True false s t ph ph') (why : ∀ r, Reasons c (ph r) (s.view r) (t.view r) r) : WorkInv c t ph' :=
  ⟨he.data hi hi' hd.reqs h.mem h.disk why, h.ordered hd.ordered hi hi' hq hover⟩

/-- Every step keeps it. -/
theorem WorkInv.step {e : Event} (hd : WorkInv c s ph) (hi : Inv c True True s ph) (hc : Calm s e)
    (h : step c s e = some t) : ∃ ph', Inv c True True t ph' ∧ WorkInv c t ph' ∧ CalmStep c s t ph ph' := by
  obtain ⟨ph', hi', he⟩ := step_inv hi ⟨hc.xor, fun _ => hc.own, .inl trivial⟩ h
  refine ⟨ph', hi', ?_⟩
  cases hm : e.moves with
  | true =>
    have hphase : ph' = ph := by
      funext x
      rw [hm] at he
      cases he with
      | request r io rest like ios same own own' others result move =>
        by_cases hx : x = r
        · subst hx
          generalize hp : ph x = p at move
          generalize hp' : ph' x = p' at move
          cases move with
          | chunk mv => cases mv; rfl
          | xor => rfl
        · exact rest x hx
      | io io rest => rw [rest]
    have hmoved := step_moved hi hd.reqs hd.ordered hm h
    exact ⟨hphase ▸ hd.moved hmoved, .moved hmoved hphase⟩
  | false =>
    rw [hm] at he
    have why := step_reasons hi h hm hc.poison
    by_cases hnew : ∃ q, e = .submit q
    · obtain ⟨q, rfl⟩ := hnew
      obtain ⟨⟨-, hq⟩, h⟩ := Option.ite_none_right_eq_some.mp h
      obtain rfl := Option.some.inj h
      have hsub := submitted_of s q
      exact ⟨hd.submitted hi hsub hq hc.overlap hi' he why, .submitted q hsub⟩
    · obtain ⟨r, hr⟩ := xorStripe_other s
      have hquiet := step_quiet h hm hc.poison (fun q hq => hnew ⟨q, hq⟩) hr
      have hnios := hquiet.nios.trans (s.popped_nios e)
      have hmem := hquiet.mem.trans (s.popped_mem e)
      have hdisk := hquiet.disk.trans (s.popped_disk e)
      exact ⟨hd.passed hi hi' he hnios hmem hdisk why, .passed he hnios hmem hdisk why⟩

theorem WorkInv.init {disk diskMd : Nat → Nat → Byte} {mem : Mem Buf Byte} :
    WorkInv c (State.init c disk diskMd mem) initPhase where
  reqs r := by
    have hno : NoXor ((State.init c disk diskMd mem).view r) := ⟨rfl, rfl, rfl⟩
    exact .over (fun _ => rfl) hno (initPhase_owns r)
  ordered a b _ hb := absurd hb (Nat.not_lt_zero b)

end keeps

/-! ## Buffers are given back -/

section runs
variable {c : RaidChannel} {disk diskMd : Nat → Nat → Byte} {mem : Mem Buf Byte} {s t : State} {io : Nat}

theorem run_work (h : Run c disk diskMd mem Calm s) : ∃ ph, Inv c True True s ph ∧ WorkInv c s ph := by
  refine h.invariant (I := fun s => ∃ ph, Inv c True True s ph ∧ WorkInv c s ph) ⟨initPhase, init_inv, .init⟩ ?_
  intro s e t ⟨ph, hi, hd⟩ hc ht
  obtain ⟨ph', hi', hd', -⟩ := hd.step hi hc ht
  exact ⟨ph', hi', hd'⟩

/-- Once a request is completed nothing is stored in its buffers any more, and nothing ever in those of
    a write: whatever else goes on, and whichever way the request has ended. -/
theorem completed_buffers (h : Run c disk diskMd mem Calm s) (h' : Reach (step c) Calm s t) (hlt : io < s.nios)
    (hdone : (s.ios io).completions ≠ [] ∨ (s.ios io).type = .write) (k off : Nat) :
    t.mem ⟨.user io k, off⟩ = s.mem ⟨.user io k, off⟩ := by
  obtain ⟨ph, hi, hd⟩ := run_work h
  suffices hall : ∃ ph, Inv c True True t ph ∧ WorkInv c t ph ∧ io < t.nios ∧
      ((t.ios io).completions ≠ [] ∨ (t.ios io).type = .write) ∧ t.mem ⟨.user io k, off⟩ = s.mem ⟨.user io k, off⟩ by
    obtain ⟨-, -, -, -, -, hmem⟩ := hall
    exact hmem
  refine h'.invariant (I := fun t => ∃ ph, Inv c True True t ph ∧ WorkInv c t ph ∧ io < t.nios ∧
      ((t.ios io).completions ≠ [] ∨ (t.ios io).type = .write) ∧ t.mem ⟨.user io k, off⟩ = s.mem ⟨.user io k, off⟩)
    ⟨ph, hi, hd, hlt, hdone, rfl⟩ ?_
  intro u e w ⟨ph, hi, hd, hlt, hdone, hmem⟩ hc hw
  obtain ⟨ph', hi', hd', hstep⟩ := hd.step hi hc hw
  refine ⟨ph', hi', hd', ?_⟩
  cases hstep with
  | moved hm =>
    rw [hm.nios, hm.completions, (hm.same io).type]
    refine ⟨hlt, hdone, ?_⟩
    rcases hm.user io k off with hu | ⟨-, hread, hnone⟩
    · exact hu.trans hmem
    · rcases hdone with hne | hwrite
      · exact absurd hnone hne
      · rw [hread] at hwrite
        cases hwrite
  | submitted q hs =>
    rw [hs.nios, hs.old io (by omega), hs.mem]
    exact ⟨by omega, hdone, hmem⟩
  | passed he nios hmem' =>
    rw [nios, hmem', (he.same hlt).type]
    refine ⟨hlt, hdone.imp_left fun hne => ?_, hmem⟩
    rw [he.completed hi hi' hne]
    exact hne

end runs

/-- A write of the first stripe, and a read of its second block once the write is completed. -/
def writeThenRead : List Event :=
  [.submit ⟨.write, 0, 4, [2048], false⟩, .call (.code 0), .call (.code 0), .call (.code 0), .xorStore 31 0,
    .xorComplete 31 0 0, .call (.code 0), .call (.code 0), .call (.code 0), .call (.code 0), .call (.code 0),
    .chunkMove 31 0, .chunkMove 31 1, .chunkMove 31 2, .chunkComplete 31 0 true, .chunkComplete 31 0 true,
    .chunkComplete 31 0 true, .call (.code 0), .call (.code 0),
    .submit ⟨.read, 1, 1, [512], false⟩, .call (.code 0), .readMove 1 0, .readComplete 1 0 true (.code 0),
    .call (.code 0), .call (.code 0), .call (.code 0), .chunkMove 63 0, .chunkMove 63 1, .chunkComplete 63 0 true,
    .chunkComplete 63 0 true, .call (.code 0), .call (.code 0), .xorStore 63 0, .xorComplete 63 0 0, .call (.code 0)]

/-- The write's buffers while the read goes on. -/
theorem completed_buffers_write : ∃ s t : State, (s.ios 0).completions = [.success] ∧ (t.ios 1).completions = [.success] ∧
    ∀ k off, t.mem ⟨.user 0 k, off⟩ = s.mem ⟨.user 0 k, off⟩ := by
  have hm : ((smallRun (fun _ => true) (fun _ _ => 0) Calm (writeThenRead.take 19)).bind fun s =>
      (execIf (step (smallArray fun _ => true)) Calm s (writeThenRead.drop 19)).map fun t =>
        decide (0 < s.nios ∧ (s.ios 0).completions = [.success] ∧ (t.ios 1).completions = [.success])) = some true := by
    decide +kernel
  obtain ⟨s, hs, hm⟩ := Option.bind_eq_some_iff.mp hm
  obtain ⟨t, ht, hv⟩ := Option.map_eq_some_iff.mp hm
  obtain ⟨hn, hwrite, hread⟩ := of_decide_eq_true hv
  have hne : (s.ios 0).completions ≠ [] := by
    rw [hwrite]
    decide
  exact ⟨s, t, hwrite, hread, completed_buffers (smallRun_run hs) (Reach.ofRun _ .init ht) hn (.inl hne)⟩

end FlexBSO.Raid5f

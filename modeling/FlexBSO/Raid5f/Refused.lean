import FlexBSO.Raid5f.Runs

/- What becomes of a reconstruct read one of whose chunk reads is refused for good.
   `raid5f_chunk_submit` completes the chunks not yet submitted at once, but counts them
   against the data chunks, while the request counts all chunks: the read is left one
   part short (`refused_read_hangs`), for every number of base bdevs, every chunk that
   is reconstructed and every chunk whose read is refused. -/
namespace FlexBSO.Raid5f
open FlexBSO.Lib

/-- The chunk read of chunk `k` of reconstruct request `r` is about to be refused for good. -/
structure RefusesRead (s : State) (r k : Nat) (a : Answer) : Prop where
  top : s.stack.head? = some (.submitChunks r k)
  type : (s.reqs r).type = .reconstruct
  other : k ≠ (s.reqs r).reconstructChunk
  refused : a.rc ≠ 0 ∧ a.rc ≠ -ENOMEM

/-- The refused read is accounted for: nothing is left of it, it was completed once and without
    success, and its stripe request is free again. -/
structure Accounted (s : State) (r io : Nat) : Prop where
  remaining : (s.ios io).baseBdevIoRemaining = 0
  completed : ∃ st, st ≠ IoStatus.success ∧ (s.ios io).completions = [st]
  released : s.ch.freeReconstruct.count r = 1

/-- One part of read `io` will never be completed. -/
structure Hung (s : State) (r io : Nat) : Prop where
  remaining : (s.ios io).baseBdevIoRemaining = (s.reqs r).children.length + 1
  waits : (s.ios io).waits = []
  completions : (s.ios io).completions = []
  taken : s.ch.freeReconstruct.count r = 0

theorem Hung.not_accounted {s : State} {r io : Nat} (h : Hung s r io) : ¬Accounted s r io := by
  intro ha
  have := h.remaining
  have := ha.remaining
  omega

section refused
variable {c : RaidChannel} {lossy iso : Prop} {s t : State} {ph : Nat → Phase} {r io k : Nat} {a : Answer}

/-- The stripe request of a refused read stays with it. -/
def StuckWith (c : RaidChannel) (s : State) (r io : Nat) : Prop :=
  ∃ ph, Inv c True False s ph ∧ ph r = .stuck ∧ (s.reqs r).raidIo = io

theorem StuckWith.hung (h : StuckWith c s r io) : Hung s r io := by
  obtain ⟨ph, hi, hp, rfl⟩ := h
  have hphase := hi.phase r
  rw [hp] at hphase
  cases hphase with
  | stuck _ _ owner _ _ _ _ waits count => exact ⟨count, waits, owner.completions, owner.not_free.2⟩

/-- No step takes it away. -/
theorem StuckWith.next {e : Event} (h : StuckWith c s r io) (hx : XorSafe s e) (hs : step c s e = some t) :
    StuckWith c t r io := by
  obtain ⟨ph, hi, hp, hr⟩ := h
  obtain ⟨ph', hi', hev⟩ := step_inv hi ⟨hx, False.elim, .inl trivial⟩ hs
  refine ⟨ph', hi', ?_⟩
  cases hev with
  | request r' io' rest like ios same own own' others result move =>
    by_cases hrr : r = r'
    · subst hrr
      rw [hp] at move
      have hstuck := move.of_stuck
      have howns : (ph r).owns = true := by rw [hp]; rfl
      have howns' : (ph' r).owns = true := by rw [hstuck]; rfl
      exact ⟨hstuck, (own' howns').trans ((own howns).symm.trans hr)⟩
    · have hq : t.reqs r = s.reqs r := (like r hrr).q
      rw [rest r hrr, hq]
      exact ⟨hp, hr⟩
  | io io' rest like =>
    have hq : t.reqs r = s.reqs r := (like r).q
    rw [rest, hq]
    exact ⟨hp, hr⟩

theorem StuckWith.reach {u : State} (h : StuckWith c t r io) (hr : Reach (step c) XorSafe t u) : StuckWith c u r io :=
  hr.invariant (I := fun u => StuckWith c u r io) h fun _ _ _ hi hx hs => hi.next hx hs

theorem raidBdevIoCompletePart_ios (s : State) (io completed : Nat) (status : IoStatus) (onDone : List Call) :
    ((raidBdevIoCompletePart s io completed status onDone).ios io).baseBdevIoSubmitted =
      (s.ios io).baseBdevIoSubmitted ∧
    ((raidBdevIoCompletePart s io completed status onDone).ios io).waits = (s.ios io).waits := by
  rw [raidBdevIoCompletePart]
  -- no reduction may look into the 64-bit count
  generalize sub64 (s.ios io).baseBdevIoRemaining completed = remaining
  by_cases h : remaining = 0
  · simp [h, raidBdevIoComplete]
  · simp [h]

/-- A refusal touches neither the count of those submitted nor the waits. -/
theorem chunkSubmitDone_refused {child : Nat × Child} {next : List Call} (h0 : a.rc ≠ 0) (h1 : a.rc ≠ -ENOMEM) :
    ((chunkSubmitDone c s r child a.rc next).ios (s.reqs r).raidIo).baseBdevIoSubmitted =
      (s.ios (s.reqs r).raidIo).baseBdevIoSubmitted - 1 ∧
    ((chunkSubmitDone c s r child a.rc next).ios (s.reqs r).raidIo).waits = (s.ios (s.reqs r).raidIo).waits := by
  unfold chunkSubmitDone
  rw [if_neg h0]
  dsimp only
  rw [if_neg h1]
  rw [(raidBdevIoCompletePart_ios _ _ _ _ _).1, (raidBdevIoCompletePart_ios _ _ _ _ _).2, State.setIo_ios_self]
  exact ⟨rfl, rfl⟩

/-- The refusal leaves the request stuck. -/
theorem Inv.refuse (hi : Inv c True False s ph) (h : RefusesRead s r k a) (hs : step c s (.call a) = some t) :
    StuckWith c t r (s.reqs r).raidIo := by
  obtain ⟨htop, htype, hother, h0, h1⟩ := h
  obtain ⟨rest, hstack⟩ : ∃ rest, s.stack = .submitChunks r k :: rest := by
    cases hst : s.stack with
    | nil => simp [hst] at htop
    | cons call rest =>
      rw [hst] at htop
      exact ⟨rest, by rw [Option.some.inj htop]⟩
  have hrun : submitChunks c { s with stack := rest } r k a = some t := by
    unfold step at hs
    rw [hstack] at hs
    exact hs
  have hp := hi.popped (r := r) hstack (by simp [Call.about]) rfl (by simp [Call.foreign])
  have hphase : ph r = .chunks := hp.phase
  have hl := (hphase ▸ hi.phase r).looping hp.calls
  obtain ⟨p, m⟩ : ∃ p, LoopMove c True r _ p (t.view r) :=
    submitChunks_move hl hp.view hp.calls (fun _ _ _ _ => trivial) hrun
  have hm : Move c True False r false (ph r) (s.view r) p (t.view r) := hphase ▸ .loop m
  have howns : (ph r).owns = true := by rw [hphase]; rfl
  obtain ⟨hi', -⟩ := hi.moveTo ((hp.frame _).trans (Frame.submitChunks c rfl hrun)) howns rfl hm (hp.tails.submitChunks hrun)
  have hwork := hm.sameWork (by rw [hphase]; rintro ⟨⟩)
  have hio : (t.reqs r).raidIo = (s.reqs r).raidIo := hwork.raidIo
  -- the counts tell which turn of the loop this was
  have hcounts : ((t.view r).x).baseBdevIoSubmitted = (s.view r).x.baseBdevIoSubmitted ∧
      ((t.view r).x).waits = (s.view r).x.waits := by
    unfold submitChunks chunkSubmit at hrun
    dsimp only at hrun
    rw [htype] at hrun
    dsimp only at hrun
    rw [if_neg hother] at hrun
    split at hrun
    · cases hrun
    · obtain rfl := Option.some.inj hrun
      have hx : ∀ u : State, (u.reqs r).raidIo = (s.reqs r).raidIo → (u.view r).x = u.ios (s.reqs r).raidIo := by
        intro u hu
        rw [State.view, hu]
      rw [hx _ hio, hx s rfl]
      obtain ⟨hsub, hwaits⟩ := chunkSubmitDone_refused (c := c) (r := r) (a := a)
        (s := State.setIo { s with stack := rest } (s.reqs r).raidIo
          fun x => { x with baseBdevIoSubmitted := x.baseBdevIoSubmitted + 1 })
        h0 h1
      refine ⟨hsub.trans ?_, hwaits.trans ?_⟩
      · simp
      · simp
  have hstuck : p = .stuck := by
    cases m with
    | sent k' b calls other hw =>
      have := hcounts.1
      rw [hw] at this
      simp only [View.set_x] at this
      omega
    | skipped k' calls why =>
      have hk : k' = k := by simpa using calls.symm.trans hp.calls
      exact absurd (hk ▸ why htype) hother
    | skippedLast k' calls type => exact absurd (type.symm.trans htype) (by decide)
    | deferred k' b calls other hw =>
      have := hcounts.2
      rw [hw] at this
      simp at this
    | refused k' b calls type => exact absurd (type.symm.trans htype) (by decide)
    | refusedLast k' b calls type => exact absurd (type.symm.trans htype) (by decide)
    | refusedRead => rfl
    | resumed waits =>
      rw [hl.waits] at waits
      cases waits
  exact ⟨_, hi', by rw [Function.update_self, hstuck], hio⟩

/-- A refused chunk read leaves its read one part short for ever: whatever happens before and after,
    once no chunk read is in flight one part remains, the read is not completed and the stripe request
    is in no free list. -/
theorem refused_read_hangs {disk diskMd : Nat → Nat → Byte} {mem : Mem Buf Byte} {u : State}
    (hrun : Run c disk diskMd mem XorSafe s) (hrefuses : RefusesRead s r k a) (hstep : step c s (.call a) = some t)
    (hafter : Reach (step c) XorSafe t u) :
    Hung u r (s.reqs r).raidIo ∧ ¬Accounted u r (s.reqs r).raidIo := by
  obtain ⟨ph, hi⟩ := run_inv True False (hrun.mono fun s e hx => ⟨hx, False.elim, .inl trivial⟩)
  have hhung := ((hi.refuse hrefuses hstep).reach hafter).hung
  exact ⟨hhung, hhung.not_accounted⟩

/-- A read of a missing chunk, up to the first chunk read: this one is refused with `-EIO`. -/
theorem refused_first : ∃ s t, Run (smallArray fun i => i != 0) (fun _ _ => 0) (fun _ _ => 0) (fun _ => 0) XorSafe s ∧
    RefusesRead s 63 1 (.code (-5)) ∧ (s.reqs 63).raidIo = 0 ∧
    step (smallArray fun i => i != 0) s (.call (.code (-5))) = some t := by
  have hm : (smallRun (fun i => i != 0) (fun _ _ => 0) XorSafe [.submit ⟨.read, 0, 1, [512], false⟩, .call (.code 0),
      .call (.code 0)]).map (fun s => decide (s.stack.head? = some (.submitChunks 63 1) ∧
        (s.reqs 63).type = .reconstruct ∧ (s.reqs 63).reconstructChunk = 0 ∧ (s.reqs 63).raidIo = 0 ∧
        (step (smallArray fun i => i != 0) s (.call (.code (-5)))).isSome = true)) = some true := by
    decide +kernel
  obtain ⟨s, hs, hv⟩ := Option.map_eq_some_iff.mp hm
  obtain ⟨htop, htype, hchunk, hio, hsome⟩ := of_decide_eq_true hv
  obtain ⟨t, ht⟩ := Option.isSome_iff_exists.mp hsome
  exact ⟨s, t, smallRun_run hs, ⟨htop, htype, by rw [hchunk]; decide, by decide⟩, hio, ht⟩

theorem refused_read_hangs_first : ∃ u, Hung u 63 0 ∧ ¬Accounted u 63 0 := by
  obtain ⟨s, t, hrun, hrefuses, hio, hstep⟩ := refused_first
  refine ⟨t, ?_⟩
  rw [← hio]
  exact refused_read_hangs hrun hrefuses hstep .init

/-- Nothing is in flight for that read and nothing waits, but it is not accounted for. -/
theorem refused_read_unaccounted : ¬∀ (c : RaidChannel) (disk diskMd : Nat → Nat → Byte) (mem : Mem Buf Byte)
    (s t : State) (r k : Nat) (a : Answer), Run c disk diskMd mem (fun _ _ => True) s → RefusesRead s r k a →
    step c s (.call a) = some t → (t.reqs r).children = [] → (t.ios (t.reqs r).raidIo).waits = [] →
    Accounted t r (t.reqs r).raidIo := by
  intro h
  have hm : (smallRun (fun i => i != 0) (fun _ _ => 0) (fun _ _ => True) [.submit ⟨.read, 0, 1, [512], false⟩,
      .call (.code 0), .call (.code 0)]).map (fun s => ((step (smallArray fun i => i != 0) s (.call (.code (-5)))).map
        fun t => decide ((s.stack.head? = some (.submitChunks 63 1) ∧ (s.reqs 63).type = .reconstruct ∧
          (s.reqs 63).reconstructChunk = 0) ∧ (t.reqs 63).children = [] ∧
          (t.ios (t.reqs 63).raidIo).waits = [] ∧ (t.ios (t.reqs 63).raidIo).baseBdevIoRemaining = 1))) =
      some (some true) := by
    decide +kernel
  obtain ⟨s, hs, hv⟩ := Option.map_eq_some_iff.mp hm
  obtain ⟨t, ht, hv⟩ := Option.map_eq_some_iff.mp hv
  obtain ⟨⟨htop, htype, hchunk⟩, hchildren, hwaits, hleft⟩ := of_decide_eq_true hv
  have hrefuses : RefusesRead s 63 1 (.code (-5)) := ⟨htop, htype, by rw [hchunk]; decide, by decide⟩
  have := (h _ _ _ _ s t 63 1 _ (smallRun_run hs) hrefuses ht hchildren hwaits).remaining
  omega

end refused

end FlexBSO.Raid5f

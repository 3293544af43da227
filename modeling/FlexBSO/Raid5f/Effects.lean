import FlexBSO.Raid5f.Lifecycle

/- What the functions of raid5f do to the view of the stripe request they work on. -/
namespace FlexBSO.Raid5f
open FlexBSO.Lib

theorem sub64_eq {a b : Nat} (h : b ≤ a) (ha : a < 2 ^ 64) : sub64 a b = a - b := by
  unfold sub64
  rw [Nat.mod_eq_of_lt (by omega : b < 2 ^ 64), show a + 2 ^ 64 - b = a - b + 2 ^ 64 by omega, Nat.add_mod_right]
  exact Nat.mod_eq_of_lt (by omega)

section view
variable {s : State} {r io : Nat} {lossy iso : Prop}

theorem view_setIo {f : RaidIo → RaidIo} (h : (s.reqs r).raidIo = io) :
    (s.setIo io f).view r = { s.view r with x := f (s.view r).x } := by
  subst h
  simp only [State.view, State.setIo_reqs, State.setIo_ios_self, State.setIo_ch]
  rfl

theorem view_setReq {f : StripeRequest → StripeRequest} (h : (f (s.reqs r)).raidIo = (s.reqs r).raidIo) :
    (s.setReq r f).view r = { s.view r with q := f (s.view r).q } := by
  simp only [State.view, State.setReq_reqs_self, State.setReq_ios, State.setReq_ch, h]
  rfl

/-- Every call but an unfinished callback. -/
def Call.plain : Call → Bool
  | .xorStripeCbTail _ _ => false
  | _ => true

theorem failing_pushAll {k : List Call} (h : ∀ call ∈ k, call.plain = true) :
    (s.pushAll k).failing r = s.failing r := by
  unfold State.failing
  rw [State.pushAll_stack, List.any_append, Bool.or_eq_right_iff_imp]
  intro hk
  obtain ⟨call, hc, ht⟩ := List.any_eq_true.mp hk
  have := h call hc
  cases call <;> simp_all [Call.plain]

theorem view_pushAll {k : List Call} (h : ∀ call ∈ k, call.plain = true) :
    (s.pushAll k).view r = { s.view r with calls := k.filter (Call.about r) ++ (s.view r).calls } := by
  simp only [State.view, failing_pushAll h, State.callsOf, State.pushAll_stack, List.filter_append]
  rfl

theorem view_push {call : Call} (h : call.plain = true) :
    (s.push call).view r = { s.view r with calls := [call].filter (Call.about r) ++ (s.view r).calls } :=
  view_pushAll (k := [call]) (by simpa using h)

theorem view_pop {call : Call} {rest : List Call} (hs : s.stack = call :: rest) (h : call.plain = true)
    (hc : (s.view r).calls = [call].filter (Call.about r)) :
    State.view { s with stack := rest } r = { s.view r with calls := [] } := by
  have hv : s.view r = { State.view { s with stack := rest } r with
      calls := [call].filter (Call.about r) ++ (State.view { s with stack := rest } r).calls } := by
    have := view_push (s := { s with stack := rest }) (r := r) h
    rwa [show State.push { s with stack := rest } call = s by simp [State.push, ← hs]] at this
  have hn : (State.view { s with stack := rest } r).calls = [] := by
    have h1 := congrArg View.calls hv
    simp only [hc] at h1
    simpa using h1.symm
  rw [hv]
  simp only [← hn]

theorem view_setMem {m : Mem Buf Byte} : (s.setMem m).view r = s.view r := rfl

/-! ## Functions -/

variable (c : RaidChannel)

theorem view_complete {st : IoStatus} (h : (s.reqs r).raidIo = io) :
    (raidBdevIoComplete s io st).view r =
      { s.view r with x := { (s.view r).x with completions := (s.view r).x.completions ++ [st] } } := by
  unfold raidBdevIoComplete
  rw [view_push rfl, view_setIo h]
  rfl

/-- The status of a request one part of which ended with `st`. -/
theorem part_eq (st : IoStatus) (ok : Bool) :
    (if (if ok then IoStatus.success else .failed) ≠ .success then (if ok then IoStatus.success else .failed) else st) =
      st.part ok := by
  cases ok <;> simp [IoStatus.part]

/-- A part that is not the last. -/
theorem completePart_more {k : Nat} {st : IoStatus} {onDone : List Call} (h : (s.reqs r).raidIo = io)
    (hk : k < (s.view r).x.baseBdevIoRemaining) (hr : (s.view r).x.baseBdevIoRemaining < 2 ^ 64) :
    (raidBdevIoCompletePart s io k st onDone).view r =
      { s.view r with x := { (s.view r).x with
        baseBdevIoRemaining := (s.view r).x.baseBdevIoRemaining - k
        baseBdevIoStatus := if st ≠ .success then st else (s.view r).x.baseBdevIoStatus } } ∧
    (raidBdevIoCompletePart s io k st onDone).stack = s.stack := by
  have hx : (s.view r).x = s.ios io := by simp [State.view, h]
  unfold raidBdevIoCompletePart
  rw [hx] at hk hr
  simp only [sub64_eq hk.le hr, if_neg (by omega : ¬(s.ios io).baseBdevIoRemaining - k = 0)]
  refine ⟨?_, rfl⟩
  rw [view_setIo h, hx]

/-- The last part. -/
theorem completePart_last {k : Nat} {st : IoStatus} {onDone : List Call} (h : (s.reqs r).raidIo = io)
    (hk : k = (s.view r).x.baseBdevIoRemaining) (hr : (s.view r).x.baseBdevIoRemaining < 2 ^ 64)
    (hp : ∀ call ∈ onDone, call.plain = true) :
    (raidBdevIoCompletePart s io k st onDone).view r =
      { s.view r with
        x := { (s.view r).x with
          baseBdevIoRemaining := 0
          baseBdevIoStatus := if st ≠ .success then st else (s.view r).x.baseBdevIoStatus
          completions := (s.view r).x.completions ++ [if st ≠ .success then st else (s.view r).x.baseBdevIoStatus] }
        calls := onDone.filter (Call.about r) ++ (s.view r).calls } ∧
    (raidBdevIoCompletePart s io k st onDone).stack = .userCb io :: onDone ++ s.stack := by
  have hx : (s.view r).x = s.ios io := by simp [State.view, h]
  unfold raidBdevIoCompletePart
  rw [hx] at hk hr
  simp only [sub64_eq hk.le hr, if_pos (by omega : (s.ios io).baseBdevIoRemaining - k = 0)]
  constructor
  · rw [view_complete (by simpa using h), view_pushAll hp, view_setIo h, hx]
    simp only [show (s.ios io).baseBdevIoRemaining - k = 0 by omega]
  · rfl

theorem plain_submitChunksFrom {k : Nat} : ∀ call ∈ submitChunksFrom c r k, call.plain = true := by
  unfold submitChunksFrom
  split <;> simp [Call.plain]

theorem about_submitChunksFrom {k : Nat} :
    (submitChunksFrom c r k).filter (Call.about r) = submitChunksFrom c r k := by
  unfold submitChunksFrom
  split <;> simp [Call.about]

variable {c}

/-- What the view says of the state, read backwards. -/
theorem view_q {v : View} (hv : s.view r = v) : s.reqs r = v.q := congrArg View.q hv

theorem view_x {v : View} (hv : s.view r = v) : s.ios (s.reqs r).raidIo = v.x := congrArg View.x hv

theorem view_poison {k : Nat} {b : Bool} :
    ∃ b', (poisonChunk s r k b).view r = { s.view r with q := { (s.view r).q with poisoned := b' } } := by
  unfold poisonChunk
  dsimp only
  split
  · refine ⟨true, ?_⟩
    rw [view_setMem, view_setReq rfl]
  · exact ⟨(s.reqs r).poisoned, rfl⟩

/-- The end of a turn of the loop. -/
theorem chunkSubmitDone_move {v : View} {t : State} {k : Nat} {b : Bool} (ret : Int)
    (hl : Looping c lossy v r k)
    (hv : s.view r = { v with
      q := { v.q with poisoned := b }, x := { v.x with baseBdevIoSubmitted := v.x.baseBdevIoSubmitted + 1 }
      calls := [] })
    (hc : v.calls = [.submitChunks r k]) (hb : v.q.type = .reconstruct → b = v.q.poisoned)
    (other : v.q.type = .reconstruct → k ≠ v.q.reconstructChunk)
    (loss : v.q.type = .reconstruct → ret ≠ 0 → ret ≠ -ENOMEM → lossy)
    (h : t = chunkSubmitDone c s r (k, v.child c k) ret (submitChunksFrom c r (k + 1))) :
    ∃ p, LoopMove c lossy r v p (t.view r) := by
  have hq := view_q hv
  have hx := view_x hv
  have hsub := hl.submitted
  have hcount := hl.count
  have hle := hl.le
  have hlt := hl.lt
  have hn := c.num_base_bdevs_le
  subst h
  unfold chunkSubmitDone
  dsimp only
  by_cases h0 : ret = 0
  · rw [if_pos h0]
    refine ⟨_, .sent k b hc other ?_⟩
    rw [view_pushAll (plain_submitChunksFrom c), view_setReq rfl, about_submitChunksFrom, hv]
    simp [View.set]
  · rw [if_neg h0]
    have hv1 : (s.setIo (s.reqs r).raidIo fun x => { x with baseBdevIoSubmitted := x.baseBdevIoSubmitted - 1 }).view r =
        { v with q := { v.q with poisoned := b }, calls := [] } := by
      rw [view_setIo rfl, hv]
      simp
    by_cases h1 : ret = -ENOMEM
    · rw [if_pos h1]
      refine ⟨_, .deferred k b hc other ?_⟩
      unfold raidBdevQueueIoWait
      rw [view_setIo (by simp), hv1]
      rfl
    · rw [if_neg h1]
      have hs1 : ((s.setIo (s.reqs r).raidIo fun x =>
          { x with baseBdevIoSubmitted := x.baseBdevIoSubmitted - 1 }).ios (s.reqs r).raidIo).baseBdevIoSubmitted = k := by
        rw [State.setIo_ios_self, hx]
        simp [hsub]
      rw [hs1]
      have hr1 : (State.view (s.setIo (s.reqs r).raidIo fun x =>
          { x with baseBdevIoSubmitted := x.baseBdevIoSubmitted - 1 }) r).x.baseBdevIoRemaining =
          v.x.baseBdevIoRemaining := by rw [hv1]
      rw [hq]
      dsimp only
      cases ht : v.q.type with
      | write =>
        dsimp only
        by_cases hcs : v.q.children = []
        · have hlen : v.q.children.length = 0 := by simp [hcs]
          refine ⟨_, .refusedLast k b hc ht hcs ?_⟩
          rw [← congrArg StripeRequest.raidIo hq,
            (completePart_last (by simp) (by rw [hr1]; omega) (by rw [hr1]; omega) (by simp [Call.plain])).1, hv1]
          simp [View.set, Call.about]
        · have hlen : 0 < v.q.children.length := List.length_pos_iff.mpr hcs
          refine ⟨_, .refused k b hc ht hcs ?_⟩
          rw [← congrArg StripeRequest.raidIo hq,
            (completePart_more (by simp) (by rw [hr1]; omega) (by rw [hr1]; omega)).1, hv1]
          simp [View.set]
      | reconstruct =>
        dsimp only
        have hn1 : c.stripeDataChunksNum = c.numBaseBdevs - 1 := rfl
        refine ⟨_, .refusedRead k (loss ht h0 h1) hc ht ?_⟩
        rw [← congrArg StripeRequest.raidIo hq,
          (completePart_more (by simp) (by rw [hr1]; omega) (by rw [hr1]; omega)).1, hv1, hb ht]
        simp [View.set]

/-- A chunk that is skipped. -/
theorem skip_move {v : View} {k : Nat} (hl : Looping c lossy v r k)
    (hio : (s.reqs r).raidIo = io)
    (hv : s.view r = { v with
      x := { v.x with baseBdevIoSubmitted := v.x.baseBdevIoSubmitted + 1 }, calls := [] })
    (hc : v.calls = [.submitChunks r k]) (why : v.q.type = .reconstruct → k = v.q.reconstructChunk) :
    ∃ p, LoopMove c lossy r v p
      ((raidBdevIoCompletePart (s.pushAll (submitChunksFrom c r (k + 1))) io 1 .success []).view r) := by
  have hv1 : (s.pushAll (submitChunksFrom c r (k + 1))).view r = { v with
      x := { v.x with baseBdevIoSubmitted := v.x.baseBdevIoSubmitted + 1 }, calls := submitChunksFrom c r (k + 1) } := by
    rw [view_pushAll (plain_submitChunksFrom c), about_submitChunksFrom, hv]
    simp
  have hsub := hl.submitted
  have hcount := hl.count
  have hle := hl.le
  have hlt := hl.lt
  have hn := c.num_base_bdevs_le
  have hn3 := c.base_bdevs_min
  by_cases hr : v.x.baseBdevIoRemaining = 1
  · have ht : v.q.type = .write := by
      cases ht : v.q.type with
      | write => rfl
      | reconstruct =>
        have := hl.skip ht (why ht)
        omega
    refine ⟨_, .skippedLast k hc ht hr ?_⟩
    rw [(completePart_last (by simpa using hio) (by rw [hv1]; exact hr.symm) (by rw [hv1]; simp only; omega) (by simp)).1, hv1,
      submitChunksFrom_nil (by omega)]
    simp [View.set]
  · refine ⟨_, .skipped k hc why (by omega) ?_⟩
    rw [(completePart_more (by simpa using hio) (by rw [hv1]; simp only; omega) (by rw [hv1]; simp only; omega)).1, hv1]
    simp [View.set]

/-- A turn of the loop over the chunks. -/
theorem submitChunks_move {v : View} {k : Nat} {a : Answer} {t : State} (hl : Looping c lossy v r k)
    (hv : s.view r = { v with calls := [] }) (hc : v.calls = [.submitChunks r k])
    (loss : v.q.type = .reconstruct → k ≠ v.q.reconstructChunk → a.rc ≠ 0 → a.rc ≠ -ENOMEM → lossy)
    (h : submitChunks c s r k a = some t) : ∃ p, LoopMove c lossy r v p (t.view r) := by
  have hq := view_q hv
  have hx := view_x hv
  have hv1 : (s.setIo (s.reqs r).raidIo fun x => { x with baseBdevIoSubmitted := x.baseBdevIoSubmitted + 1 }).view r =
      { v with x := { v.x with baseBdevIoSubmitted := v.x.baseBdevIoSubmitted + 1 }, calls := [] } := by
    rw [view_setIo rfl, hv]
  unfold submitChunks chunkSubmit at h
  dsimp only at h hq
  cases ht : v.q.type with
  | write =>
    rw [hq, ht] at h
    dsimp only at h
    split at h
    · obtain rfl := Option.some.inj h
      exact skip_move hl (by simp [hq]) (by rw [← hv1, hq]) hc (by rw [ht]; rintro ⟨⟩)
    · obtain ⟨b, hp⟩ := view_poison (s := s.setIo (s.reqs r).raidIo fun x =>
        { x with baseBdevIoSubmitted := x.baseBdevIoSubmitted + 1 }) (r := r) (k := k) (b := a.poison)
      rw [hv1] at hp
      refine chunkSubmitDone_move (b := b) a.rc hl hp hc (by rw [ht]; rintro ⟨⟩) (by rw [ht]; rintro ⟨⟩)
        (by rw [ht]; rintro ⟨⟩) ?_
      rw [← Option.some.inj h]
      simp only [View.child, ht, hq]
  | reconstruct =>
    rw [hq, ht] at h
    dsimp only at h
    split at h
    · next hk =>
      obtain rfl := Option.some.inj h
      exact skip_move hl (by simp [hq]) (by rw [← hv1, hq]) hc (fun _ => hk)
    · next hk =>
      split at h
      · cases h
      · refine chunkSubmitDone_move (b := v.q.poisoned) a.rc hl hv1 hc (fun _ => rfl) (fun _ => hk)
          (fun _ => loss ht hk) ?_
        rw [← Option.some.inj h]
        have hn : (s.ios v.q.raidIo).numBlocks = v.x.numBlocks := by rw [← hx, hq]
        simp only [View.child, ht, hq, State.setIo_ios_self, hn]

/-! ## Completed chunks -/

theorem view_release :
    (stripeRequestRelease s r).view r = { s.view r with
      freeWrite := (s.view r).freeWrite + if (s.view r).q.type = .write then 1 else 0
      freeReconstruct := (s.view r).freeReconstruct + if (s.view r).q.type = .write then 0 else 1 } := by
  have hq : (s.view r).q.type = (s.reqs r).type := rfl
  unfold stripeRequestRelease
  rw [hq]
  cases (s.reqs r).type
  all_goals
    simp only [State.view, State.setCh_reqs, State.setCh_ios, State.setCh_ch, State.callsOf, State.failing,
      State.setCh_stack, List.count_cons_self, if_true, reduceCtorEq, if_false, Nat.add_zero]
    rfl

/-- A chunk's I/O completes. -/
theorem chunkComplete_move {v : View} {p : Phase} {j k : Nat} {child : Child} {ok : Bool}
    (hp : PhaseInv c lossy iso v r p) (hcounts : p.counts = true)
    (get : v.q.children[j]? = some (k, child)) (moved : ok = true → child.moved = true) (idle : v.calls = [])
    (hv : s.view r = v.set { v.q with children := v.q.children.eraseIdx j } v.x v.calls) :
    ∃ p', ChunkMove r false p v p' ((chunkCompleteBdevIo s r ok).view r) := by
  have hq := view_q hv
  have hn := c.num_base_bdevs_le
  have hlen : 0 < v.q.children.length := List.length_pos_iff.mpr (by rintro h; simp [h] at get)
  have hrem : 0 < v.x.baseBdevIoRemaining ∧ v.x.baseBdevIoRemaining < 2 ^ 64 ∧
      (p = .stuck → 1 < v.x.baseBdevIoRemaining ∧ v.q.type = .reconstruct) := by
    cases hp with
    | chunks owner no cbRuns xorCalls stage =>
      refine ⟨?_, ?_, by rintro ⟨⟩⟩
      all_goals cases stage <;> omega
    | stuck _ _ _ _ type _ _ _ count le => exact ⟨by omega, by omega, fun _ => ⟨by omega, type⟩⟩
    | _ => cases hcounts
  obtain ⟨hpos, hlt, hstuck⟩ := hrem
  have hv1 : State.view { s with freed := s.freed + 1 } r =
      v.set { v.q with children := v.q.children.eraseIdx j } v.x v.calls := hv
  have hraid : (State.reqs { s with freed := s.freed + 1 } r).raidIo = (s.reqs r).raidIo := rfl
  unfold chunkCompleteBdevIo
  have htype : (s.reqs r).type = v.q.type := by rw [hq]; rfl
  dsimp only
  rw [htype]
  generalize ({ s with freed := s.freed + 1 } : State) = s₁ at hv1 hraid ⊢
  have hq1 := view_q hv1
  have hx1 := view_x hv1
  by_cases hmore : 1 < v.x.baseBdevIoRemaining
  · refine ⟨p, .chunkPart hcounts j k child ok get moved idle hmore ?_⟩
    have hm (onDone : List Call) :
        (raidBdevIoCompletePart s₁ (s₁.reqs r).raidIo 1 (if ok then .success else .failed) onDone).view r = _ :=
      (completePart_more rfl (by rw [hv1]; exact hmore) (by rw [hv1]; exact hlt)).1
    cases v.q.type with
    | write =>
      dsimp only [stripeRequestChunkWriteComplete]
      rw [hm, hv1]
      simp only [View.set, part_eq, idle]
    | reconstruct =>
      dsimp only [stripeRequestChunkReadComplete]
      rw [hx1, View.set_x, if_neg (by omega), hm, hv1]
      simp only [View.set, part_eq, idle]
  · have hone : v.x.baseBdevIoRemaining = 1 := by omega
    obtain rfl : p = .chunks := by
      cases p with
      | chunks => rfl
      | stuck => exact absurd (hstuck rfl).1 hmore
      | _ => cases hcounts
    cases ht : v.q.type with
    | write =>
      refine ⟨_, .chunkLast j k child ok get moved idle ht hone ?_⟩
      dsimp only [stripeRequestChunkWriteComplete]
      rw [(completePart_last rfl (by rw [hv1]; exact hone.symm) (by rw [hv1]; exact hlt) (by simp [Call.plain])).1, hv1]
      simp only [View.set, part_eq, idle]
      simp [Call.about]
    | reconstruct =>
      dsimp only [stripeRequestChunkReadComplete]
      rw [hx1, View.set_x, if_pos hone]
      by_cases hok : v.x.baseBdevIoStatus = .success ∧ (if ok then IoStatus.success else .failed) = .success
      · rw [if_pos hok]
        have hok' : ok = true := by
          cases ok with
          | true => rfl
          | false => cases hok.2
        refine ⟨_, .chunkXor j k child get (moved hok') idle ht hone hok.1 ?_⟩
        rw [view_push rfl, view_setReq rfl, hv1]
        simp [View.set, Call.about, idle]
      · rw [if_neg hok]
        refine ⟨_, .chunkFail j k child ok get idle ht hone ?_ ?_⟩
        · intro h
          apply hok
          cases ok with
          | true => exact ⟨h, rfl⟩
          | false => cases h
        · have hvr : (stripeRequestRelease s₁ r).view r = { v.set { v.q with children := v.q.children.eraseIdx j } v.x v.calls
              with freeReconstruct := v.freeReconstruct + 1 } := by
            rw [view_release, hv1]
            simp [View.set, ht]
          have hrel : (s₁.reqs r).raidIo = ((stripeRequestRelease s₁ r).reqs r).raidIo := rfl
          rw [hrel, (completePart_last rfl (by rw [hvr]; exact hone.symm) (by rw [hvr]; exact hlt) (by simp)).1, hvr]
          simp only [View.set, part_eq, idle]
          simp

/-! ## The XOR -/

theorem view_queueInsert : (xorRetryQueueInsert s r).view r = { s.view r with queue := (s.view r).queue + 1 } := by
  unfold xorRetryQueueInsert
  simp only [State.view, State.setCh_reqs, State.setCh_ios, State.setCh_ch, State.callsOf, State.failing,
    State.setCh_stack, List.count_cons_self]
  rfl

theorem view_ioviter {its its' : List (List IoVec)} {len : Nat} {out : List Addr}
    (walk : nextv NULL its = some (len, out, its')) :
    (ioviterNextv s r its).view r = { s.view r with
      q := { (s.view r).q with xorLen := len, chunkIovIters := its' }
      seg := some out } := by
  unfold ioviterNextv
  rw [walk]
  simp only [State.view, State.setCh_reqs, State.setCh_ios, State.setCh_ch, State.callsOf, State.failing,
    State.setCh_stack, State.setReq_reqs_self, State.setReq_ios, State.setReq_ch, State.setReq_stack, if_true]

/-- The walk goes on while every list has bytes left. -/
theorem walk_isSome {its : List (List IoVec)} (h : ∀ l ∈ its, 0 < (addrs l).length) :
    ∃ len out its', nextv NULL its = some (len, out, its') := by
  have hne : ∀ l ∈ its, l ≠ [] := by
    intro l hl he
    subst he
    exact absurd (h _ hl) (by simp)
  obtain ⟨⟨len, out, its'⟩, hw⟩ := nextv_isSome (d := NULL) hne
  exact ⟨len, out, its', hw⟩

theorem view_numBlocks {v : View} (hq : s.reqs r = v.q) (hx : s.ios v.q.raidIo = v.x) :
    xorNumBlocks c s r = v.numBlocks c := by
  unfold xorNumBlocks View.numBlocks
  rw [hq]
  cases v.q.type with
  | write => rfl
  | reconstruct => exact congrArg (·.numBlocks) hx

theorem view_xorStripeFirst {v : View} (cb : XorCb) {len : Nat} {out : List Addr} {its : List (List IoVec)}
    (hv : s.view r = { v with calls := [] }) (walk : nextv NULL (v.lists c) = some (len, out, its)) :
    (xorStripeFirst c s r cb).view r =
      { v with q := v.q.started cb (v.total c) len its, calls := [], seg := some out } := by
  have hq := view_q hv
  have hx := view_x hv
  dsimp only at hq hx
  rw [hq] at hx
  have hl : ((srcChunks c v.q ++ [v.q.destChunk]).map fun i => (v.q.chunks i).iovs) = v.lists c := rfl
  have hv1 (its : List (List IoVec)) :
      (s.setCh fun ch => { ch with chunkXorIovs := its }).view r = s.view r := rfl
  unfold xorStripeFirst
  dsimp only
  rw [hq, hl, view_numBlocks hq hx, Nat.shiftLeft_eq, view_setReq rfl, view_ioviter walk, hv1, hv]
  rfl

/-- `raid5f_xor_stripe` -/
theorem xorStripe_move {v : View} {cb : XorCb} {a : Answer} (hp : PhaseInv c lossy iso v r .xor) (hs : v.Sane c)
    (hv : s.view r = { v with calls := [] }) (hc : v.calls = [.xorStripe r cb])
    (hmd : v.x.mdBuf = NULL → v.q.xorRemainingMd = 0) :
    XorMove c iso r v false ((xorStripe c s r cb a).view r) := by
  have hq := view_q hv
  have hx := view_x hv
  dsimp only at hq hx
  rw [hq] at hx
  obtain ⟨len, out, its, walk⟩ : ∃ len out its, nextv NULL (v.lists c) = some (len, out, its) := by
    apply walk_isSome
    cases hp with
    | xor owner =>
      intro l hl
      rw [owner.length_lists hl]
      exact hs.total_pos
  have hfirst := view_xorStripeFirst cb hv walk
  have hqf := view_q hfirst
  refine .xorStart cb len out its hc walk ?_
  unfold xorStripe
  rw [hq, hx, view_numBlocks hq hx]
  by_cases hm : v.x.mdBuf = NULL
  · rw [if_neg (by simpa using hm)]
    refine .none hm (hmd hm) ?_
    rw [view_push rfl, hfirst]
    simp [View.set, Call.about]
  · rw [if_pos hm]
    unfold xorStripeMd
    dsimp only
    generalize hsrcs : ((srcChunks c ((xorStripeFirst c s r cb).reqs r)).map fun i =>
      (((xorStripeFirst c s r cb).reqs r).chunks i).mdBuf) = srcs
    generalize hdst : (((xorStripeFirst c s r cb).reqs r).chunks ((xorStripeFirst c s r cb).reqs r).destChunk).mdBuf = dst
    by_cases h0 : a.rc = 0
    · rw [if_pos h0]
      refine .accepted srcs ⟨dst, srcs, v.numBlocks c * c.mdSize, false⟩ hm (by rw [← hdst, hqf]) ?_
      rw [view_push rfl, view_setReq rfl, view_setReq rfl, hfirst]
      simp only [View.set, StripeRequest.started, List.filter_cons, Call.about, beq_self_eq_true, if_true,
        List.filter_nil, List.append_nil]
      rfl
    · rw [if_neg h0]
      by_cases h1 : a.rc = -ENOMEM
      · rw [if_pos h1]
        refine .deferred srcs hm ?_
        rw [view_queueInsert, view_setReq rfl, hfirst]
        rfl
      · rw [if_neg h1]
        refine .refused srcs a.rc h0 hm ?_
        rw [view_push rfl, view_setReq rfl, view_setReq rfl, hfirst]
        simp only [View.set, StripeRequest.started, List.filter_cons, Call.about, beq_self_eq_true, if_true,
          List.filter_nil, List.append_nil]
        rfl

/-- `raid5f_xor_stripe_continue` -/
theorem xorContinue_move {v : View} {a : Answer} (hv : s.view r = { v with calls := [] })
    (hc : v.calls = [.xorStripeContinue r]) (mine : iso → a.rc = 0 → s.ch.chunkXorOwner = some r)
    (hmd : a.rc ≠ 0 → a.rc ≠ -ENOMEM → v.q.mdXors = []) :
    XorMove c iso r v false ((xorStripeContinue c s r a).view r) := by
  have hseg : v.seg = if s.ch.chunkXorOwner = some r then some s.ch.chunkXorBuffers else none :=
    (congrArg View.seg hv).symm
  have hq := view_q hv
  unfold xorStripeContinue
  dsimp only
  by_cases h0 : a.rc = 0
  · rw [if_pos h0]
    refine .xorAccepted ⟨s.ch.chunkXorBuffers.getD c.stripeDataChunksNum NULL,
      s.ch.chunkXorBuffers.take c.stripeDataChunksNum, v.q.xorLen, false⟩ hc rfl rfl ?_ ?_ ?_
    · intro hi
      rw [hseg, if_pos (mine hi h0)]
      exact Option.some_ne_none _
    · intro b hb
      rw [hseg] at hb
      split at hb
      · obtain rfl := Option.some.inj hb
        exact ⟨rfl, rfl⟩
      · cases hb
    · rw [view_setReq rfl, view_setReq rfl, hv]
      rfl
  · rw [if_neg h0]
    by_cases h1 : a.rc = -ENOMEM
    · rw [if_pos h1]
      refine .xorDeferred (s.ch.chunkXorBuffers.take c.stripeDataChunksNum) hc ?_
      rw [view_queueInsert, view_setReq rfl, hv]
      rfl
    · rw [if_neg h1]
      refine .xorRefused (s.ch.chunkXorBuffers.take c.stripeDataChunksNum) a.rc hc h0 (hmd h0 h1) ?_
      rw [view_push rfl, view_setReq rfl, view_setReq rfl, hv]
      simp [View.set, Call.about]

theorem view_status (s : State) (r : Nat) (status : Int) :
    (if status ≠ 0 then s.setReq r fun q => { q with xorStatus := status } else s).view r =
      { s.view r with q := { (s.view r).q with xorStatus := xorStatusAfter (s.view r).q.xorStatus status } } := by
  unfold xorStatusAfter
  split
  · rw [view_setReq rfl]
  · rfl

/-- `_raid5f_xor_stripe_cb` while something is left of the XOR. -/
theorem view_xorStripeCbTail_more {status : Int}
    (h : ((s.view r).q.xorRemaining + (s.view r).q.xorRemainingMd) % 2 ^ 64 ≠ 0) :
    (xorStripeCbTail s r status).view r = { s.view r with
      q := { (s.view r).q with xorStatus := xorStatusAfter (s.view r).q.xorStatus status } } := by
  have hv1 := view_status s r status
  unfold xorStripeCbTail
  dsimp only
  generalize (if status ≠ 0 then s.setReq r fun q => { q with xorStatus := status } else s) = s₁ at hv1 ⊢
  rw [view_q hv1, if_neg h, hv1]

/-- `_raid5f_xor_stripe_cb`, which ends the XOR when nothing is left of it. -/
theorem view_xorStripeCbTail {status : Int}
    (hb : (s.view r).q.xorRemaining + (s.view r).q.xorRemainingMd < 2 ^ 64) :
    (xorStripeCbTail s r status).view r = { s.view r with
      q := { (s.view r).q with xorStatus := xorStatusAfter (s.view r).q.xorStatus status }
      calls := (if (s.view r).q.xorRemaining = 0 ∧ (s.view r).q.xorRemainingMd = 0 then [.xorStripeDone r] else []) ++
        (s.view r).calls } := by
  have hv1 := view_status s r status
  unfold xorStripeCbTail
  dsimp only
  generalize (if status ≠ 0 then s.setReq r fun q => { q with xorStatus := status } else s) = s₁ at hv1 ⊢
  rw [view_q hv1, Nat.mod_eq_of_lt hb]
  by_cases hz : (s.view r).q.xorRemaining + (s.view r).q.xorRemainingMd = 0
  · rw [if_pos hz, if_pos (by omega), view_push rfl, hv1]
    simp [Call.about]
  · rw [if_neg hz, if_neg (by omega), hv1]
    rfl

theorem view_pushTail {status : Int} (h : s.stack = []) :
    (s.push (.xorStripeCbTail r status)).view r = { s.view r with failing := status != 0 } := by
  have h1 : (s.push (.xorStripeCbTail r status)).failing r = (status != 0) := by simp [State.failing, h]
  have h2 : (s.push (.xorStripeCbTail r status)).callsOf r = s.callsOf r := by simp [State.callsOf, h, Call.about]
  simp only [State.view, h1, h2]
  rfl

/-- `raid5f_xor_stripe_cb` -/
theorem xorCb_move {v : View} {j : Nat} {x : AccelXor} {status : Int} (hp : PhaseInv c lossy iso v r .xor) (hs : v.Sane c)
    (get : v.q.dataXors[j]? = some x) (stored : status = 0 → x.stored = true) (idle : s.stack = [])
    (hv : s.view r = v.set { v.q with dataXors := v.q.dataXors.eraseIdx j } v.x v.calls) :
    XorMove c iso r v false ((xorStripeCb s r status).view r) := by
  have hcalls : v.calls = [] := by
    have h1 := congrArg View.calls hv
    simp only [View.set] at h1
    rw [← h1]
    simp [State.view, State.callsOf, idle]
  have hfail : v.failing = false := by
    have h1 := congrArg View.failing hv
    simp only [View.set] at h1
    rw [← h1]
    simp [State.view, State.failing, idle]
  cases hp with
  | xor owner _ _ _ _ _ _ stage =>
    cases stage with
    | inFlight _ _ data leftMd run =>
      obtain ⟨y, hy, hlen, -⟩ := data
      obtain ⟨out, hpos, -⟩ := run.pos
      obtain ⟨rfl, rfl⟩ : j = 0 ∧ x = y := by
        rw [hy] at get
        cases j <;> simp_all
      have hle := hpos.len_le owner
      have hlt := hs.total_lt
      have hrem := hpos.1
      have hmd := run.mdLt
      rw [hy] at hv
      have hv1 : (s.setReq r fun q => { q with xorRemaining := sub64 q.xorRemaining q.xorLen }).view r =
          v.set { v.q with dataXors := [], xorRemaining := v.q.xorRemaining - v.q.xorLen } v.x [] := by
        rw [view_setReq rfl, hv, hcalls]
        simp only [View.set, sub64_eq hle (by omega), List.eraseIdx_cons_zero]
      have hq1 := view_q hv1
      unfold xorStripeCb
      dsimp only
      have hst : (s.setReq r fun q => { q with xorRemaining := sub64 q.xorRemaining q.xorLen }).stack = [] := idle
      generalize (s.setReq r fun q => { q with xorRemaining := sub64 q.xorRemaining q.xorLen }) = s₁ at hv1 hq1 hst ⊢
      have hrem1 : (s₁.reqs r).xorRemaining = v.q.xorRemaining - v.q.xorLen := by rw [hq1]; rfl
      have hits1 : (s₁.reqs r).chunkIovIters = v.q.chunkIovIters := by rw [hq1]; rfl
      rw [hrem1, hits1]
      by_cases hmore : 0 < v.q.xorRemaining - v.q.xorLen
      · rw [if_pos hmore]
        obtain ⟨len, out', its, walk⟩ : ∃ len out its, nextv NULL v.q.chunkIovIters = some (len, out, its) := by
          obtain ⟨-, cur, hw, hc⟩ := hpos
          obtain ⟨-, hits, hl⟩ := nextv_spec hw
          apply walk_isSome
          intro l hl'
          rw [hits] at hl'
          obtain ⟨l₀, hl₀, rfl⟩ := List.mem_map.mp hl'
          obtain ⟨l₁, hl₁, he⟩ := List.mem_map.mp (hc ▸ List.mem_map_of_mem (f := addrs) hl₀)
          rw [(hl l₀ hl₀).2.1, ← he, List.length_drop, List.length_drop, owner.length_lists hl₁]
          omega
        refine .xorSegment x status len out' its hy stored hcalls (by omega) walk ?_
        have hst2 : (ioviterNextv s₁ r v.q.chunkIovIters).stack = [] := by
          simp [ioviterNextv, walk, hst]
        have hvi := view_ioviter (s := s₁) (r := r) walk
        rw [view_push rfl, view_pushTail hst2, hvi, hv1]
        simp [View.set, Call.about]
      · rw [if_neg hmore]
        have hz : v.q.xorRemaining - v.q.xorLen = 0 := by omega
        refine .xorData x status hy stored hcalls hfail (by omega) ?_
        rw [view_xorStripeCbTail (by rw [hv1]; simp only [View.set]; omega), hv1]
        simp only [View.set, hz, true_and, List.append_nil]
    | start _ no => simp [no.data] at get
    | done _ no => simp [no.data] at get
    | cont _ _ d => simp [d] at get
    | retry _ _ d => simp [d] at get
    | mdInFlight _ _ d => simp [d] at get

/-- `raid5f_xor_stripe_md_cb` -/
theorem xorMdCb_move {v : View} {j : Nat} {x : AccelXor} {status : Int} (hp : PhaseInv c lossy iso v r .xor) (hs : v.Sane c)
    (get : v.q.mdXors[j]? = some x) (idle : s.stack = [])
    (hv : s.view r = v.set { v.q with mdXors := v.q.mdXors.eraseIdx j } v.x v.calls) :
    XorMove c iso r v false ((xorStripeMdCb s r status).view r) := by
  have hcalls : v.calls = [] := by
    have h1 := congrArg View.calls hv
    simp only [View.set] at h1
    rw [← h1]
    simp [State.view, State.callsOf, idle]
  have hfail : v.failing = false := by
    have h1 := congrArg View.failing hv
    simp only [View.set] at h1
    rw [← h1]
    simp [State.view, State.failing, idle]
  have hone (h : v.q.mdXors.length ≤ 1) : v.q.mdXors = [x] ∧ j = 0 := by
    cases hm : v.q.mdXors with
    | nil => simp [hm] at get
    | cons y k =>
      rw [hm] at h get
      obtain rfl : k = [] := by
        rw [← List.length_eq_zero_iff]
        simp only [List.length_cons] at h
        omega
      cases j <;> simp_all
  have hmd : v.q.mdXors.length ≤ 1 ∧ v.q.xorRemaining < 2 ^ 64 := by
    have hlt := hs.total_lt
    cases hp with
    | xor owner _ _ _ _ _ _ stage =>
      cases stage with
      | start _ no => simp [no.md] at get
      | done _ no => simp [no.md] at get
      | mdInFlight _ _ _ md _ left => exact ⟨by omega, by omega⟩
      | cont _ _ _ _ run =>
        obtain ⟨out, hpos, -⟩ := run.pos
        have := hpos.1
        exact ⟨run.md, by omega⟩
      | retry _ _ _ _ run =>
        obtain ⟨out, hpos, -⟩ := run.pos
        have := hpos.1
        exact ⟨run.md, by omega⟩
      | inFlight _ _ _ _ run =>
        obtain ⟨out, hpos, -⟩ := run.pos
        have := hpos.1
        exact ⟨run.md, by omega⟩
  obtain ⟨hx, rfl⟩ := hone hmd.1
  have hrem := hmd.2
  rw [hx] at hv
  have hv1 : (s.setReq r fun q => { q with xorRemainingMd := 0 }).view r =
      v.set { v.q with mdXors := [], xorRemainingMd := 0 } v.x [] := by
    rw [view_setReq rfl, hv, hcalls]
    rfl
  refine .xorMd x status hx hcalls hfail ?_
  unfold xorStripeMdCb
  rw [view_xorStripeCbTail (by rw [hv1]; simpa [View.set] using hrem), hv1]
  simp only [View.set, and_true, List.append_nil]

/-- The end of a callback that found more to do. -/
theorem callbackTail_move {v : View} {p : Phase} {status : Int} {rest : List Call}
    (hstack : s.stack = .xorStripeCbTail r status :: rest) (hv : s.view r = v)
    (htail : ((s.reqs r).xorRemaining + (s.reqs r).xorRemainingMd) % 2 ^ 64 ≠ 0) :
    Move c lossy iso r false p v p ((xorStripeCbTail { s with stack := rest } r status).view r) := by
  have hfail : v.failing = (status != 0 || State.failing { s with stack := rest } r) := by
    rw [← hv]
    simp [State.view, State.failing, hstack]
  have hrest : State.view { s with stack := rest } r = { v with failing := State.failing { s with stack := rest } r } := by
    rw [← hv]
    simp only [State.view, State.callsOf, hstack, List.filter_cons, Call.about]
    rfl
  refine .callback (xorStatusAfter v.q.xorStatus status) (State.failing { s with stack := rest } r) ?_ ?_
  · intro h0 hf
    have hst : status = 0 := by
      by_contra hne
      rw [xorStatusAfter, if_pos hne] at h0
      exact hne h0
    rw [xorStatusAfter, if_neg (by simpa using hst)] at h0
    refine ⟨h0, ?_⟩
    rw [hfail, hst, hf]
    rfl
  · rw [view_xorStripeCbTail_more (by rw [hrest, ← hv]; exact htail), hrest]

/-! ## The end of an XOR -/

/-- `raid5f_xor_stripe_done` up to the retry queue. -/
theorem xorDone_move {v : View} (hp : PhaseInv c lossy iso v r .xor) (hv : s.view r = { v with calls := [] })
    (hc : v.calls = [.xorStripeDone r]) : ∃ p, EndMove r v p ((xorStripeDone c s r).view r) := by
  have f := hp.finishing hc
  have hn3 := c.base_bdevs_min
  have hv1 : ((s.push .xorRetryQueuePop).setReq r fun q => { q with xorCbRuns := q.xorCbRuns + 1 }).view r =
      v.set { v.q with xorCbRuns := v.q.xorCbRuns + 1 } v.x [] := by
    rw [view_setReq rfl, view_push rfl, hv]
    rfl
  unfold xorStripeDone
  dsimp only
  generalize ((s.push .xorRetryQueuePop).setReq r fun q => { q with xorCbRuns := q.xorCbRuns + 1 }) = s₁ at hv1 ⊢
  have hq1 := view_q hv1
  have hx1 := view_x hv1
  have hcb : (s₁.reqs r).xorCb = v.q.type.xorCb := by rw [hq1]; exact f.cb
  have hst : (s₁.reqs r).xorStatus = v.q.xorStatus := by rw [hq1]; rfl
  rw [hcb, hst]
  cases ht : v.q.type with
  | write =>
    obtain ⟨-, hsub⟩ := f.write ht
    dsimp only [StripeRequestType.xorCb, stripeWriteRequestXorDone]
    by_cases h0 : v.q.xorStatus = 0
    · rw [if_neg (by simpa using h0)]
      refine ⟨_, .wrote hc ht h0 ?_⟩
      unfold stripeRequestSubmitChunks
      rw [hx1]
      simp only [View.set_x, hsub]
      rw [view_pushAll (plain_submitChunksFrom c), hv1, about_submitChunksFrom, mem_submitChunksFrom (by omega)]
      rfl
    · rw [if_pos h0]
      refine ⟨_, .writeFail hc ht ?_⟩
      have hrel : (s₁.reqs r).raidIo = ((stripeRequestRelease s₁ r).reqs r).raidIo := rfl
      rw [hrel, view_complete rfl, view_release, hv1]
      simp [View.set, ht]
  | reconstruct =>
    obtain ⟨hrem, -⟩ := f.reconstruct ht
    dsimp only [StripeRequestType.xorCb, stripeRequestReconstructXorDone]
    refine ⟨_, .reconstructed hc ht ?_⟩
    have hvr : (stripeRequestRelease s₁ r).view r = { v.set { v.q with xorCbRuns := v.q.xorCbRuns + 1 } v.x []
        with freeReconstruct := v.freeReconstruct + 1 } := by
      rw [view_release, hv1]
      simp [View.set, ht]
    have hrel : (s₁.reqs r).raidIo = ((stripeRequestRelease s₁ r).reqs r).raidIo := rfl
    have hok : (if v.q.xorStatus = 0 then IoStatus.success else .failed) =
        if (v.q.xorStatus == 0) = true then .success else .failed := by simp
    rw [hrel, hok, (completePart_last rfl (by rw [hvr]; exact hrem.symm) (by rw [hvr, View.set_x, hrem]; decide) (by simp)).1, hvr]
    simp only [View.set, part_eq]
    simp

/-- The head of the retry queue is taken up again. -/
theorem retryPop_move {v : View} {rest : List Nat} (hp : PhaseInv c lossy iso v r .xor) (hv : s.view r = v)
    (hq : s.ch.xorRetryQueue = r :: rest) (hmd : v.q.xorRemainingMd ≠ 0 → v.q.mdXors = []) :
    XorMove c iso r v false ((xorRetryQueuePop s).view r) := by
  have hqueue : v.queue = 1 ∧ v.calls = [] := by
    have h1 : 0 < v.queue := by
      rw [← hv]
      simp [State.view, hq]
    cases hp with
    | xor _ _ _ _ _ _ _ stage =>
      cases stage with
      | start _ no => have := no.queue; omega
      | done _ no => have := no.queue; omega
      | retry calls queue => exact ⟨queue, calls⟩
      | cont _ queue => omega
      | inFlight _ queue => omega
      | mdInFlight _ queue => omega
  have hcount : rest.count r = 0 := by
    have h1 : s.ch.xorRetryQueue.count r = 1 := (congrArg View.queue hv).trans hqueue.1
    simpa [hq] using h1
  have hv1 : (s.setCh fun ch => { ch with xorRetryQueue := rest }).view r = { v with queue := 0 } := by
    rw [← hv, ← hcount]
    rfl
  have hreq : (s.setCh fun ch => { ch with xorRetryQueue := rest }).reqs r = v.q := view_q (s := s) hv
  unfold xorRetryQueuePop
  rw [hq]
  dsimp only
  rw [hreq]
  by_cases h0 : v.q.xorRemainingMd = 0
  · rw [if_neg (by simpa using h0)]
    refine .xorRetried hqueue.1 ?_ h0
    rw [view_push rfl, hv1, hqueue.2]
    simp [Call.about]
  · rw [if_pos h0]
    refine .xorRestarted hqueue.1 (hmd h0) ?_
    rw [view_push rfl, hv1, hqueue.2]
    simp [Call.about]

/-- `raid5f_stripe_request_release` from a completed part. -/
theorem release_move {v : View} (hv : s.view r = { v with calls := [] }) (hc : v.calls = [.stripeRequestRelease r]) :
    Move c lossy iso r false .releasing v .free ((stripeRequestRelease s r).view r) := by
  refine .released hc ?_
  rw [view_release, hv]

/-- `raid5f_chunk_submit_retry` -/
theorem resume_move {v : View} (hp : PhaseInv c lossy iso v r .chunks) (hw : v.x.waits = [.chunkSubmitRetry])
    (hv : s.view r = { v with x := { v.x with waits := [] } }) :
    LoopMove c lossy r v .chunks ((stripeRequestSubmitChunks c s r).view r) := by
  have hlt : v.calls = [] ∧ v.x.baseBdevIoSubmitted < c.numBaseBdevs := by
    cases hp with
    | chunks _ _ _ _ stage =>
      cases stage with
      | loop _ waits => rw [waits] at hw; cases hw
      | past _ waits => rw [waits] at hw; cases hw
      | wait calls _ lt => exact ⟨calls, lt⟩
  have hx := view_x hv
  refine .resumed hw ?_
  unfold stripeRequestSubmitChunks
  rw [hx, mem_submitChunksFrom hlt.2, view_pushAll (by simp [Call.plain]), hv, hlt.1]
  simp [View.set, Call.about]

/-! ## Unfinished callbacks -/

namespace Tails

theorem setIo {f : RaidIo → RaidIo} (h : Tails s) : Tails (s.setIo io f) := h

theorem setCh {f : IoChannel → IoChannel} (h : Tails s) : Tails (s.setCh f) := h

theorem setMem {m : Mem Buf Byte} (h : Tails s) : Tails (s.setMem m) := h

theorem setReq {f : StripeRequest → StripeRequest} (h : Tails s)
    (hf : (f (s.reqs r)).xorRemaining = (s.reqs r).xorRemaining ∧
      (f (s.reqs r)).xorRemainingMd = (s.reqs r).xorRemainingMd) : Tails (s.setReq r f) := by
  intro x status hx
  by_cases hxr : x = r
  · subst hxr
    rw [State.setReq_reqs_self, hf.1, hf.2]
    exact h x status hx
  · rw [State.setReq_reqs_of_ne hxr]
    exact h x status hx

theorem pushAll {k : List Call} (h : Tails s) (hk : ∀ call ∈ k, call.plain = true) : Tails (s.pushAll k) := by
  intro x status hx
  rcases List.mem_append.mp hx with hx | hx
  · cases hk _ hx
  · exact h x status hx

theorem push {call : Call} (h : Tails s) (hc : call.plain = true) : Tails (s.push call) :=
  h.pushAll (k := [call]) (by simpa using hc)

theorem pop {call : Call} {rest : List Call} (h : Tails s) (hs : s.stack = call :: rest) :
    Tails { s with stack := rest } := fun x status hx => h x status (hs ▸ List.mem_cons_of_mem _ hx)

theorem of_idle (h : s.stack = []) : Tails s := by
  intro x status hx
  rw [h] at hx
  cases hx

variable {c : RaidChannel}

theorem complete {st : IoStatus} (h : Tails s) : Tails (raidBdevIoComplete s io st) := h.setIo.push rfl

theorem completePart {k : Nat} {st : IoStatus} {onDone : List Call} (h : Tails s)
    (hk : ∀ call ∈ onDone, call.plain = true) : Tails (raidBdevIoCompletePart s io k st onDone) := by
  unfold raidBdevIoCompletePart
  dsimp only
  split
  · exact (h.setIo.pushAll hk).complete
  · exact h.setIo

theorem release (h : Tails s) : Tails (stripeRequestRelease s r) := h.setCh

theorem stripeRequestSubmitChunks (h : Tails s) : Tails (stripeRequestSubmitChunks c s r) :=
  h.pushAll (plain_submitChunksFrom c)

theorem chunkSubmitDone {child : Nat × Child} {ret : Int} {next : List Call} (h : Tails s)
    (hn : ∀ call ∈ next, call.plain = true) : Tails (chunkSubmitDone c s r child ret next) := by
  unfold Raid5f.chunkSubmitDone
  dsimp only
  split
  · exact (h.setReq (r := r) ⟨rfl, rfl⟩).pushAll hn
  · split
    · exact h.setIo.setIo
    · exact h.setIo.completePart (by simp [Call.plain])

theorem submitChunks {k : Nat} {a : Answer} {t : State} (h : Tails s) (ht : submitChunks c s r k a = some t) : Tails t := by
  have hn := plain_submitChunksFrom c (r := r) (k := k + 1)
  have h1 : Tails (s.setIo (s.reqs r).raidIo fun x => { x with baseBdevIoSubmitted := x.baseBdevIoSubmitted + 1 }) :=
    h.setIo
  unfold Raid5f.submitChunks chunkSubmit at ht
  dsimp only at ht
  generalize (s.setIo (s.reqs r).raidIo fun x => { x with baseBdevIoSubmitted := x.baseBdevIoSubmitted + 1 }) = s₁ at h1 ht
  split at ht
  · split at ht
    · obtain rfl := Option.some.inj ht
      exact (h1.pushAll hn).completePart (by simp)
    · obtain rfl := Option.some.inj ht
      refine chunkSubmitDone ?_ hn
      unfold poisonChunk
      dsimp only
      split
      · exact (h1.setReq (r := r) ⟨rfl, rfl⟩).setMem
      · exact h1
  · split at ht
    · obtain rfl := Option.some.inj ht
      exact (h1.pushAll hn).completePart (by simp)
    · split at ht
      · cases ht
      · obtain rfl := Option.some.inj ht
        exact chunkSubmitDone h1 hn

theorem xorContinue {a : Answer} (h : Tails s) : Tails (xorStripeContinue c s r a) := by
  unfold xorStripeContinue
  dsimp only
  split
  · exact (h.setReq (r := r) ⟨rfl, rfl⟩).setReq ⟨rfl, rfl⟩
  · split
    · exact (h.setReq (r := r) ⟨rfl, rfl⟩).setCh
    · exact ((h.setReq (r := r) ⟨rfl, rfl⟩).setReq ⟨rfl, rfl⟩).push rfl

theorem xorDone (h : Tails s) : Tails (xorStripeDone c s r) := by
  have h1 : Tails ((s.push .xorRetryQueuePop).setReq r fun q => { q with xorCbRuns := q.xorCbRuns + 1 }) :=
    (h.push rfl).setReq ⟨rfl, rfl⟩
  unfold xorStripeDone stripeWriteRequestXorDone stripeRequestReconstructXorDone
  dsimp only
  split
  · split
    · exact h1.release.complete
    · exact h1.stripeRequestSubmitChunks
  · exact h1.release.completePart (by simp)

theorem retryPop (h : Tails s) : Tails (xorRetryQueuePop s) := by
  unfold xorRetryQueuePop
  split
  · exact h
  · dsimp only
    split
    · exact h.setCh.push rfl
    · exact h.setCh.push rfl

theorem xorStripeCbTail {status : Int} (h : Tails s) : Tails (xorStripeCbTail s r status) := by
  have h1 : Tails (if status ≠ 0 then s.setReq r fun q => { q with xorStatus := status } else s) := by
    split
    · exact h.setReq ⟨rfl, rfl⟩
    · exact h
  unfold Raid5f.xorStripeCbTail
  dsimp only
  generalize (if status ≠ 0 then s.setReq r fun q => { q with xorStatus := status } else s) = s₁ at h1 ⊢
  split
  · exact h1.push rfl
  · exact h1

theorem ioviterNextv_keeps (s : State) (r : Nat) (its : List (List IoVec)) : (ioviterNextv s r its).stack = s.stack ∧
    ((ioviterNextv s r its).reqs r).xorRemaining = (s.reqs r).xorRemaining ∧
    ((ioviterNextv s r its).reqs r).xorRemainingMd = (s.reqs r).xorRemainingMd := by
  unfold ioviterNextv
  split
  · simp
  · simp

/-- The callback that goes on with the next segment has something left. -/
theorem xorStripeCb {status : Int} (h : s.stack = []) (hl : (s.reqs r).xorRemaining < 2 ^ 63)
    (hm : (s.reqs r).xorRemainingMd < 2 ^ 63) (hle : (s.reqs r).xorLen ≤ (s.reqs r).xorRemaining) :
    Tails (xorStripeCb s r status) := by
  have hsub : sub64 (s.reqs r).xorRemaining (s.reqs r).xorLen = (s.reqs r).xorRemaining - (s.reqs r).xorLen :=
    sub64_eq hle (by omega)
  have h0 : (s.setReq r fun q => { q with xorRemaining := sub64 q.xorRemaining q.xorLen }).stack = [] := h
  have h1 : (s.setReq r fun q => { q with xorRemaining := sub64 q.xorRemaining q.xorLen }).reqs r =
      { s.reqs r with xorRemaining := sub64 (s.reqs r).xorRemaining (s.reqs r).xorLen } := State.setReq_reqs_self ..
  unfold Raid5f.xorStripeCb
  dsimp only
  generalize (s.setReq r fun q => { q with xorRemaining := sub64 q.xorRemaining q.xorLen }) = s₁ at h0 h1 ⊢
  split
  · next hpos =>
    obtain ⟨hk, hr, hrm⟩ := ioviterNextv_keeps s₁ r (s₁.reqs r).chunkIovIters
    intro x st hx
    simp only [State.push_stack, hk, h0, List.mem_cons, List.not_mem_nil, or_false, reduceCtorEq, false_or,
      Call.xorStripeCbTail.injEq] at hx
    obtain ⟨rfl, -⟩ := hx
    simp only [State.push_reqs, hr, hrm]
    rw [h1] at hpos ⊢
    simp only at hpos ⊢
    omega
  · exact (Tails.of_idle h0).xorStripeCbTail

theorem xorStripeMdCb {status : Int} (h : s.stack = []) : Tails (xorStripeMdCb s r status) :=
  (Tails.of_idle (s := s.setReq r fun q => { q with xorRemainingMd := 0 }) h).xorStripeCbTail

theorem chunkCompleteBdevIo {ok : Bool} (h : Tails s) : Tails (chunkCompleteBdevIo s r ok) := by
  have h1 : Tails { s with freed := s.freed + 1 } := h
  unfold Raid5f.chunkCompleteBdevIo stripeRequestChunkWriteComplete stripeRequestChunkReadComplete
  dsimp only
  generalize (if ok = true then IoStatus.success else .failed) = st
  split
  · exact h1.completePart (by simp [Call.plain])
  · split
    · split
      · have h2 := h1.setReq (r := r) (f := fun q => { q with xorCalls := q.xorCalls + 1 }) ⟨rfl, rfl⟩
        exact h2.push rfl
      · exact h1.release.completePart (by simp)
    · exact h1.completePart (by simp)

/-- The start of an XOR leaves all of it to do. -/
theorem xorStripe {v : View} {cb : XorCb} {a : Answer} (h : Tails s) (hp : PhaseInv c lossy iso v r .xor)
    (hs : v.Sane c) (hv : s.view r = { v with calls := [] }) (hc : v.calls = [.xorStripe r cb])
    (hmd : v.x.mdBuf = NULL → v.q.xorRemainingMd = 0) : Tails (xorStripe c s r cb a) := by
  have hstart := (xorStripe_move (a := a) hp hs hv hc hmd).start_left hp hs hc
  have hpos := hs.total_pos
  have hlt := hs.total_lt
  have hfr : Frame s (Raid5f.xorStripe c s r cb a) r s.nios := Frame.xorStripe c
  intro x st hx
  by_cases hxr : x = r
  · subst hxr
    have h1 : ((Raid5f.xorStripe c s x cb a).reqs x).xorRemaining = v.total c := hstart.1
    have h2 : ((Raid5f.xorStripe c s x cb a).reqs x).xorRemainingMd < 2 ^ 63 := hstart.2
    omega
  · rw [hfr.reqs x hxr]
    apply h x st
    have hmem : Call.xorStripeCbTail x st ∈ (Raid5f.xorStripe c s r cb a).stack.filter (Call.foreign r) :=
      List.mem_filter.mpr ⟨hx, by simpa [Call.foreign] using hxr⟩
    rw [hfr.stack] at hmem
    exact (List.mem_filter.mp hmem).1

end Tails

end view

end FlexBSO.Raid5f

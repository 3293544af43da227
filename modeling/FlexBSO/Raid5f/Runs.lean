import FlexBSO.Raid5f.Steps

/- Whole runs of a channel from its creation, and what the invariant says of them:
   the XOR of a stripe request completes once (`xor_once`), no read is lost
   (`reads_pending`), and XORs stay in the buffers of their own request (`xor_isolated`).
   Each holds in every run whose steps avoid one of the defects of the source, and
   each comes with a run that does not and breaks it. -/
namespace FlexBSO.Raid5f
open FlexBSO.Lib

section init
variable {c : RaidChannel} {lossy iso : Prop} {disk diskMd : Nat → Nat → Byte} {mem : Mem Buf Byte}

/-- The stripe requests of the channel are free; there are no others. -/
def initPhase (r : Nat) : Phase := if r < 2 * RAID5F_MAX_STRIPES then .free else .orphan

theorem initPhase_owns (r : Nat) : (initPhase r).owns = false := by
  unfold initPhase
  split <;> rfl

theorem count_freeWrite (c : RaidChannel) (disk diskMd : Nat → Nat → Byte) (mem : Mem Buf Byte) (r : Nat) : ((State.init c disk diskMd mem).ch.freeWrite.count r) =
    if r < RAID5F_MAX_STRIPES then 1 else 0 := by
  have h : (List.range RAID5F_MAX_STRIPES).Nodup := List.nodup_range
  simp only [State.init, List.count_reverse, h.count, List.mem_range]

theorem count_freeReconstruct (c : RaidChannel) (disk diskMd : Nat → Nat → Byte) (mem : Mem Buf Byte) (r : Nat) : ((State.init c disk diskMd mem).ch.freeReconstruct.count r) =
    if RAID5F_MAX_STRIPES ≤ r ∧ r < 2 * RAID5F_MAX_STRIPES then 1 else 0 := by
  have h : ((List.range RAID5F_MAX_STRIPES).map (RAID5F_MAX_STRIPES + ·)).Nodup :=
    List.nodup_range.map (fun _ _ h => Nat.add_left_cancel h)
  have hm : r ∈ (List.range RAID5F_MAX_STRIPES).map (RAID5F_MAX_STRIPES + ·) ↔
      RAID5F_MAX_STRIPES ≤ r ∧ r < 2 * RAID5F_MAX_STRIPES := by
    simp only [List.mem_map, List.mem_range]
    constructor
    · intro ⟨a, ha, he⟩
      omega
    · intro hr
      exact ⟨r - RAID5F_MAX_STRIPES, by omega, by omega⟩
  simp only [State.init, List.count_reverse, h.count, hm]

theorem init_inv : Inv c lossy iso (State.init c disk diskMd mem) initPhase where
  phase r := by
    have hno : NoXor ((State.init c disk diskMd mem).view r) := ⟨rfl, rfl, rfl⟩
    have hw := count_freeWrite c disk diskMd mem r
    have hr := count_freeReconstruct c disk diskMd mem r
    have htype : ((State.init c disk diskMd mem).view r).q.type = if r < RAID5F_MAX_STRIPES then .write else .reconstruct := rfl
    unfold initPhase
    by_cases h : r < 2 * RAID5F_MAX_STRIPES
    · rw [if_pos h]
      refine .free rfl hno rfl ?_ ?_ rfl (Nat.zero_le 1)
      · rw [htype]
        refine hw.trans ?_
        by_cases h1 : r < RAID5F_MAX_STRIPES <;> simp [h1]
      · rw [htype]
        refine hr.trans ?_
        by_cases h1 : r < RAID5F_MAX_STRIPES
        · simp [h1]
        · simp [h1, h]
    · rw [if_neg h]
      refine .orphan rfl ⟨hw.trans (if_neg (by omega)), hr.trans (if_neg (by omega))⟩ hno rfl rfl (Nat.zero_le 1)
  io io := by
    refine .unborn (Nat.zero_le io) rfl rfl rfl fun r h => ?_
    rw [initPhase_owns] at h
    cases h
  carries io h := absurd h (Nat.not_lt_zero io)
  tails r status h := by cases h

end init

section runs
variable (c : RaidChannel) (disk diskMd : Nat → Nat → Byte) (mem : Mem Buf Byte)

/-- Some run of the channel leads to `s`, every step of it allowed by `ok`. -/
abbrev Run (ok : State → Event → Prop) (s : State) : Prop := Reach (step c) ok (State.init c disk diskMd mem) s

variable {c disk diskMd mem} {lossy iso : Prop} {s : State}

/-- The invariant holds in every state of a guarded run. -/
theorem run_inv (lossy iso : Prop) (h : Run c disk diskMd mem (Guard c lossy iso) s) : ∃ ph, Inv c lossy iso s ph := by
  refine h.invariant (I := fun s => ∃ ph, Inv c lossy iso s ph) ⟨initPhase, init_inv⟩ ?_
  intro s e t ⟨ph, hi⟩ hg hs
  obtain ⟨ph', ht, -⟩ := step_inv hi hg hs
  exact ⟨ph', ht⟩

/-! ## The XOR completes once -/

/-- The stripe request is in a free list. -/
def State.released (s : State) (r : Nat) : Prop := r ∈ s.ch.freeWrite ∨ r ∈ s.ch.freeReconstruct

/-- The XOR of a stripe request is asked for at most once from its init to its release, `xor.cb` is
    invoked once for it, and only after all of its XORs have called back. -/
structure XorOnce (s : State) (r : Nat) : Prop where
  once : (s.reqs r).xorCbRuns ≤ (s.reqs r).xorCalls ∧ (s.reqs r).xorCalls ≤ 1
  pending : (s.reqs r).xorCbRuns < (s.reqs r).xorCalls → (s.reqs r).dataXors ≠ [] ∨ (s.reqs r).mdXors ≠ [] ∨
    r ∈ s.ch.xorRetryQueue ∨ ∃ call ∈ s.stack, call.about r = true
  after : s.stack.head? = some (.xorStripeDone r) → (s.reqs r).dataXors = [] ∧ (s.reqs r).mdXors = []
  released : s.released r → (s.reqs r).xorCbRuns = (s.reqs r).xorCalls
  late : s.released r → (s.reqs r).dataXors = [] ∧ (s.reqs r).mdXors = []

theorem NotFree.not_released {r : Nat} (h : NotFree (s.view r)) : ¬s.released r := by
  intro hr
  rcases hr with hr | hr
  · have := List.count_pos_iff.mpr hr
    have h1 : s.ch.freeWrite.count r = 0 := h.1
    omega
  · have := List.count_pos_iff.mpr hr
    have h1 : s.ch.freeReconstruct.count r = 0 := h.2
    omega

/-- While an XOR goes on, something will call back or call it. -/
theorem XorStage.pending {r : Nat} (h : XorStage c iso (s.view r) r) : (s.reqs r).dataXors ≠ [] ∨ (s.reqs r).mdXors ≠ [] ∨
    r ∈ s.ch.xorRetryQueue ∨ ∃ call ∈ s.stack, call.about r = true := by
  have hcall {call : Call} (hc : (s.view r).calls = [call]) : ∃ call ∈ s.stack, call.about r = true := by
    have hm : call ∈ s.callsOf r := by
      show call ∈ (s.view r).calls
      simp [hc]
    obtain ⟨h1, h2⟩ := List.mem_filter.mp hm
    exact ⟨call, h1, h2⟩
  cases h with
  | start calls => exact .inr (.inr (.inr (hcall calls)))
  | cont calls => exact .inr (.inr (.inr (hcall calls)))
  | retry _ queue =>
    refine .inr (.inr (.inl (List.count_pos_iff.mp ?_)))
    have : s.ch.xorRetryQueue.count r = 1 := queue
    omega
  | inFlight _ _ data =>
    obtain ⟨x, hx, -⟩ := data
    have hd : (s.reqs r).dataXors = [x] := hx
    exact .inl (by simp [hd])
  | mdInFlight _ _ _ md =>
    have hm : (s.reqs r).mdXors.length = 1 := md
    exact .inr (.inl (List.length_pos_iff.mp (by omega)))
  | done calls => exact .inr (.inr (.inr (hcall calls)))

theorem PhaseInv.xorOnce {r : Nat} {p : Phase} (h : PhaseInv c lossy iso (s.view r) r p) : XorOnce s r := by
  have hafter (hd : s.stack.head? = some (.xorStripeDone r)) : NoXor (s.view r) := by
    obtain ⟨rest, hs⟩ : ∃ rest, s.stack = .xorStripeDone r :: rest := by
      cases hs : s.stack with
      | nil => simp [hs] at hd
      | cons call rest =>
        rw [hs] at hd
        exact ⟨rest, by rw [Option.some.inj hd]⟩
    have hc : (s.view r).calls = .xorStripeDone r :: rest.filter (Call.about r) := by
      simp [State.view, State.callsOf, hs, Call.about]
    obtain ⟨hrest, rfl⟩ := h.of_call hc
    rw [hrest] at hc
    exact (h.finishing hc).no
  have hno (no : NoXor (s.view r)) : (s.reqs r).dataXors = [] ∧ (s.reqs r).mdXors = [] := ⟨no.data, no.md⟩
  have heq {x y : Nat} {P : Prop} (he : x = y) (hlt : x < y) : P := absurd he (by omega)
  cases h with
  | free _ no _ _ _ cbRuns xorCalls =>
    exact ⟨⟨Nat.le_of_eq cbRuns, xorCalls⟩, heq cbRuns, fun hd => hno (hafter hd), fun _ => cbRuns, fun _ => hno no⟩
  | chunks owner no cbRuns xorCalls =>
    refine ⟨⟨Nat.le_of_eq cbRuns, ?_⟩, heq cbRuns, fun hd => hno (hafter hd), fun _ => cbRuns, fun _ => hno no⟩
    refine Nat.le_trans xorCalls ?_
    split <;> decide
  | xor owner _ _ xorCalls cbRuns _ _ stage =>
    have h1 : (s.reqs r).xorCalls = 1 := xorCalls
    have h2 : (s.reqs r).xorCbRuns = 0 := cbRuns
    exact ⟨by omega, fun _ => stage.pending, fun hd => hno (hafter hd),
      fun hr => absurd hr owner.not_free.not_released, fun hr => absurd hr owner.not_free.not_released⟩
  | releasing _ not_free no _ cbRuns xorCalls =>
    exact ⟨⟨Nat.le_of_eq cbRuns, xorCalls⟩, heq cbRuns, fun hd => hno (hafter hd), fun _ => cbRuns, fun _ => hno no⟩
  | orphan _ not_free no _ cbRuns xorCalls =>
    exact ⟨⟨Nat.le_of_eq cbRuns, xorCalls⟩, heq cbRuns, fun hd => hno (hafter hd), fun _ => cbRuns, fun _ => hno no⟩
  | stuck _ _ owner no _ cbRuns xorCalls =>
    exact ⟨⟨Nat.le_of_eq cbRuns, xorCalls⟩, heq cbRuns, fun hd => hno (hafter hd), fun _ => cbRuns, fun _ => hno no⟩

/-- In a run that avoids the hazards of the XOR with metadata, every XOR completes once. -/
theorem xor_once (h : Run c disk diskMd mem XorSafe s) (r : Nat) : XorOnce s r := by
  obtain ⟨ph, hi⟩ := run_inv True False
    (h.mono fun s e hx => ⟨hx, False.elim, .inl trivial⟩)
  exact (hi.phase r).xorOnce

/-- Three base bdevs, strips of two blocks of 512 bytes, 8 bytes of metadata a block. -/
def smallArray (baseChannel : Nat → Bool) : RaidChannel where
  numBaseBdevs := 3
  stripSizeShift := 1
  blocklenShift := 9
  mdSize := 8
  totalStripes := 8
  dataOffset := fun _ => 0
  base_bdevs_min := by decide
  num_base_bdevs_le := by decide
  chunk_shift_fits := by decide
  strip_bytes_fit := by decide
  md_size_fits := by decide
  blockcnt_lt := by decide
  baseChannel := baseChannel

/-- The layers below answer with a return code, and nothing else goes wrong. -/
def Answer.code (rc : Int) : Answer := ⟨rc, fun _ => true, false⟩

/-- The state such an array is in after a list of events, each of them allowed. -/
def smallRun (baseChannel : Nat → Bool) (disk : Nat → Nat → Byte) (ok : State → Event → Prop)
    [∀ s e, Decidable (ok s e)] (es : List Event) : Option State :=
  execIf (step (smallArray baseChannel)) ok (State.init (smallArray baseChannel) disk (fun _ _ => 0) fun _ => 0) es

theorem smallRun_run {b : Nat → Bool} {ok : State → Event → Prop} [∀ s e, Decidable (ok s e)] {es : List Event}
    (h : smallRun b disk ok es = some s) : Run (smallArray b) disk (fun _ _ => 0) (fun _ => 0) ok s :=
  Reach.ofRun es .init h

/-- A full-stripe write with metadata, while its data and its metadata XOR are in flight. -/
theorem xor_once_write : ∃ s, Run (smallArray fun _ => true) (fun _ _ => 0) (fun _ _ => 0) (fun _ => 0) XorSafe s ∧
    (s.reqs 31).dataXors.length = 1 ∧ (s.reqs 31).mdXors.length = 1 ∧ XorOnce s 31 := by
  have hm : (smallRun (fun _ => true) (fun _ _ => 0) XorSafe [.submit ⟨.write, 0, 4, [2048], true⟩, .call (.code 0),
      .call (.code 0), .call (.code 0)]).map
      (fun s => decide ((s.reqs 31).dataXors.length = 1 ∧ (s.reqs 31).mdXors.length = 1)) = some true := by
    decide +kernel
  obtain ⟨s, hs, hv⟩ := Option.map_eq_some_iff.mp hm
  obtain ⟨hd, hmd⟩ := of_decide_eq_true hv
  exact ⟨s, smallRun_run hs, hd, hmd, xor_once (smallRun_run hs) 31⟩

/-- A full-stripe write whose metadata XOR is accepted and whose data XOR is refused with `-EIO`:
    `xor.cb` is invoked with the metadata XOR in flight. -/
theorem xor_not_once : ¬∀ (c : RaidChannel) (disk diskMd : Nat → Nat → Byte) (mem : Mem Buf Byte) (s : State),
    Run c disk diskMd mem (fun _ _ => True) s → ∀ r, XorOnce s r := by
  intro h
  have hm : (smallRun (fun _ => true) (fun _ _ => 0) (fun _ _ => True) [.submit ⟨.write, 0, 4, [2048], true⟩, .call (.code 0), .call (.code 0), .call (.code (-5))]).map
      (fun s => (s.stack.head?, (s.reqs 31).mdXors.length)) = some (some (.xorStripeDone 31), 1) := by
    decide +kernel
  obtain ⟨s, hs, hv⟩ := Option.map_eq_some_iff.mp hm
  obtain ⟨hhead, hlen⟩ := Prod.mk.inj hv
  have hmd := ((h _ _ _ _ s (smallRun_run hs) 31).after hhead).2
  simp [hmd] at hlen

/-! ## No read is lost -/

/-- The function runs through, whatever the layers below answer: it does not submit to a base bdev
    that has no channel. -/
def Call.CanRun (c : RaidChannel) (s : State) (call : Call) : Prop := ∀ a, (runCall c s call a).isSome = true

/-- Something is under way that will take request `io` on: its submission, its direct read, an entry in
    an io-wait queue, or a call, a child, an XOR or an entry in the retry queue of its stripe request. -/
def Pending (c : RaidChannel) (s : State) (io : Nat) : Prop :=
  .submitRwRequest io ∈ s.stack ∧ (Call.submitRwRequest io).CanRun c s ∨
  (s.ios io).reads ≠ [] ∨ (s.ios io).waits ≠ [] ∨
  ∃ r, (s.ios io).modulePrivate = some r ∧ (s.reqs r).raidIo = io ∧
    ((s.reqs r).children ≠ [] ∨ (s.reqs r).dataXors ≠ [] ∨ (s.reqs r).mdXors ≠ [] ∨ r ∈ s.ch.xorRetryQueue ∨
      ∃ call ∈ s.stack, call.about r = true ∧ call ≠ .stripeRequestRelease r ∧ call.CanRun c s)

/-- Every read that was submitted is completed, once, or will be taken on. -/
def NoReadLost (c : RaidChannel) (s : State) : Prop :=
  ∀ io < s.nios, (s.ios io).type = .read →
    (s.ios io).completions.length ≤ 1 ∧ ((s.ios io).completions = [] → Pending c s io)

theorem canRun_submitRwRequest {io : Nat} (h : (s.ios io).type = .read) : (Call.submitRwRequest io).CanRun c s := by
  intro a
  simp [runCall, submitRwRequest, h]

/-- A reconstruct request whose sources are present submits each of its chunks. -/
theorem Sources.canRun {r k : Nat} (h : Sources c (s.view r)) (hk : k < c.numBaseBdevs) :
    (Call.submitChunks r k).CanRun c s := by
  intro a
  have hq : (s.view r).q = s.reqs r := rfl
  simp only [Sources, hq] at h
  simp only [runCall, submitChunks, chunkSubmit]
  cases ht : (s.reqs r).type with
  | write =>
    dsimp only
    split <;> rfl
  | reconstruct =>
    dsimp only
    split
    · rfl
    · next hne =>
      have hch := h ht k (mem_others.mpr ⟨c.mem_chunkIndices.mpr hk, hne⟩)
      simp [hch]

/-- The calls of an XOR run through. -/
theorem XorStage.canRun {r : Nat} {call : Call} (h : XorStage c iso (s.view r) r) (hm : call ∈ s.callsOf r) :
    call.CanRun c s ∧ call ≠ .stripeRequestRelease r := by
  have hcalls : call ∈ (s.view r).calls := hm
  have hone {x : Call} (hx : (s.view r).calls = [x]) : call = x := List.mem_singleton.mp (hx ▸ hcalls)
  cases h with
  | start calls =>
    rw [hone calls]
    exact ⟨fun _ => rfl, by simp⟩
  | cont calls =>
    rw [hone calls]
    exact ⟨fun _ => rfl, by simp⟩
  | retry calls => simp [calls] at hcalls
  | inFlight calls => simp [calls] at hcalls
  | mdInFlight calls => simp [calls] at hcalls
  | done calls =>
    rw [hone calls]
    exact ⟨fun _ => rfl, by simp⟩

theorem State.mem_stack_of_calls {call : Call} {r : Nat} (hc : (s.view r).calls = [call]) :
    call ∈ s.stack ∧ call.about r = true := by
  have hm : call ∈ s.callsOf r := by
    show call ∈ (s.view r).calls
    simp [hc]
  exact List.mem_filter.mp hm

/-- A stripe request at work has something under way. -/
theorem PhaseInv.pending {r : Nat} {p : Phase} (h : PhaseInv c False iso (s.view r) r p) (hl : p.live = true) :
    Pending c s (s.reqs r).raidIo := by
  have hpriv : (s.ios (s.reqs r).raidIo).modulePrivate = some r := (h.owner (Phase.owns_of_live hl)).priv
  cases h with
  | chunks _ _ _ _ stage sources =>
    cases stage with
    | loop calls _ lt =>
      obtain ⟨hm, ha⟩ := State.mem_stack_of_calls calls
      exact .inr (.inr (.inr ⟨r, hpriv, rfl, .inr (.inr (.inr (.inr ⟨_, hm, ha, by simp,
        (sources.resolve_left id).canRun lt⟩)))⟩))
    | wait _ waits =>
      have hw : (s.ios (s.reqs r).raidIo).waits = [.chunkSubmitRetry] := waits
      exact .inr (.inr (.inl (by simp [hw])))
    | past _ _ _ pos =>
      exact .inr (.inr (.inr ⟨r, hpriv, rfl, .inl (List.length_pos_iff.mp pos)⟩))
  | xor _ _ _ _ _ _ _ stage =>
    rcases stage.pending with hd | hm | hq | ⟨call, hcs, hab⟩
    · exact .inr (.inr (.inr ⟨r, hpriv, rfl, .inr (.inl hd)⟩))
    · exact .inr (.inr (.inr ⟨r, hpriv, rfl, .inr (.inr (.inl hm))⟩))
    · exact .inr (.inr (.inr ⟨r, hpriv, rfl, .inr (.inr (.inr (.inl hq)))⟩))
    · obtain ⟨hrun, hne⟩ := stage.canRun (List.mem_filter.mpr ⟨hcs, hab⟩)
      exact .inr (.inr (.inr ⟨r, hpriv, rfl, .inr (.inr (.inr (.inr ⟨call, hcs, hab, hne, hrun⟩)))⟩))
  | free => cases hl
  | releasing => cases hl
  | orphan => cases hl
  | stuck => cases hl

/-- In a run in which a reconstruct request and the base channels of the other chunks are there when a
    read is to be rebuilt and no chunk read is refused for good, no read is lost. -/
theorem reads_pending (h : Run c disk diskMd mem (fun s e => XorSafe s e ∧ NoLoss c s e) s) : NoReadLost c s := by
  obtain ⟨ph, hi⟩ := run_inv False False (h.mono fun s e hx => ⟨hx.1, False.elim, .inr hx.2⟩)
  intro io hlt htype
  cases hi.io io with
  | unborn ge => omega
  | starting _ completions starts =>
    refine ⟨by simp [completions], fun _ => ?_⟩
    unfold State.starts at starts
    by_cases h1 : (s.ios io).reads = []
    · by_cases h2 : (s.ios io).waits = []
      · refine .inl ⟨List.count_pos_iff.mp ?_, canRun_submitRwRequest htype⟩
        simp only [h1, h2, List.length_nil, List.count_nil] at starts
        omega
      · exact .inr (.inr (.inl h2))
    · exact .inr (.inl h1)
  | owned r _ live io_eq =>
    have hc : (s.ios (s.reqs r).raidIo).completions = [] := ((hi.phase r).owner (Phase.owns_of_live live)).completions
    refine ⟨by simp [← io_eq, hc], fun _ => ?_⟩
    rw [← io_eq]
    exact (hi.phase r).pending live
  | done _ completions =>
    refine ⟨Nat.le_of_eq completions, fun he => ?_⟩
    simp [he] at completions
  | lost lossy => exact lossy.elim

/-- A read whose direct read has completed, while its chunk reads are in flight. -/
theorem reads_pending_read : ∃ s, Run (smallArray fun _ => true) (fun _ _ => 0) (fun _ _ => 0) (fun _ => 0)
    (fun s e => XorSafe s e ∧ NoLoss (smallArray fun _ => true) s e) s ∧ (s.reqs 63).children.length = 2 ∧
    NoReadLost (smallArray fun _ => true) s := by
  have hm : (smallRun (fun _ => true) (fun _ _ => 0) (fun s e => XorSafe s e ∧ NoLoss (smallArray fun _ => true) s e)
      [.submit ⟨.read, 2, 1, [512], false⟩, .call (.code 0), .readMove 0 0, .readComplete 0 0 true (.code 0),
        .call (.code 0), .call (.code 0), .call (.code 0)]).map (fun s => decide ((s.reqs 63).children.length = 2)) = some true := by
    decide +kernel
  obtain ⟨s, hs, hv⟩ := Option.map_eq_some_iff.mp hm
  exact ⟨s, smallRun_run hs, of_decide_eq_true hv, reads_pending (smallRun_run hs)⟩

/-- Reads of one block, the chunk reads of each put off once it has a reconstruct request: the read
    that completes when none is left is lost. -/
theorem read_lost : ¬∀ (c : RaidChannel) (disk diskMd : Nat → Nat → Byte) (mem : Mem Buf Byte) (s : State),
    Run c disk diskMd mem (fun _ _ => True) s → NoReadLost c s := by
  intro h
  have hm : (smallRun (fun _ => true) (fun _ _ => 0) (fun _ _ => True) ((List.range (RAID5F_MAX_STRIPES + 1)).flatMap fun io => [.submit ⟨.read, 2, 1, [512], false⟩, .call (.code 0), .readMove io 0,
        .readComplete io 0 true (.code 0)] ++ if io < RAID5F_MAX_STRIPES then [.call (.code (-ENOMEM))] else [])).map
      (fun s => decide (32 < s.nios ∧ s.stack = [] ∧ (s.ios 32).type = .read ∧ (s.ios 32).completions = [] ∧
        (s.ios 32).reads.length = 0 ∧ (s.ios 32).waits = [] ∧ (s.ios 32).modulePrivate = none)) = some true := by
    decide +kernel
  obtain ⟨s, hs, hv⟩ := Option.map_eq_some_iff.mp hm
  obtain ⟨hn, hstack, htype, hc, hr, hw, hp⟩ := of_decide_eq_true hv
  rcases (h _ _ _ _ s (smallRun_run hs) 32 hn htype).2 hc with ⟨hl, -⟩ | hl | hl | ⟨r, hl, -⟩
  · simp [hstack] at hl
  · exact hl (List.length_eq_zero_iff.mp hr)
  · exact hl hw
  · simp [hp] at hl

/-! ## XORs stay in the buffers of their request -/

/-- The operands of the XOR, the destination last, are the segments the stripe request's iterators
    stand at: each the next `len` bytes of one of its chunks. -/
def OwnOperands (c : RaidChannel) (v : View) (x : AccelXor) : Prop :=
  (x.srcs ++ [x.dst]).map (fun p => p.span x.len) =
    (v.lists c).map fun l => ((addrs l).drop (v.total c - v.q.xorRemaining)).take x.len

instance (v : View) (x : AccelXor) : Decidable (OwnOperands c v x) :=
  inferInstanceAs (Decidable (_ = _))

/-- Every data XOR in flight works on the segments of its own stripe request. -/
def XorIsolated (c : RaidChannel) (s : State) : Prop :=
  ∀ r, ∀ x ∈ (s.reqs r).dataXors, OwnOperands c (s.view r) x

theorem length_srcChunks {q : StripeRequest} (h : q.destChunk < c.numBaseBdevs) :
    (srcChunks c q).length = c.stripeDataChunksNum := by
  have hm : q.destChunk ∈ c.chunkIndices := c.mem_chunkIndices.mpr h
  have he : srcChunks c q = c.chunkIndices.erase q.destChunk := by
    unfold srcChunks others
    rw [c.nodup_chunkIndices.erase_eq_filter]
    apply List.filter_congr
    intro i _
    by_cases hi : i = q.destChunk <;> simp [hi]
  rw [he, List.length_erase_of_mem hm]
  simp [Geometry.chunkIndices, Geometry.stripeDataChunksNum]

theorem OnSegment.ownOperands {r : Nat} {v : View} {x : AccelXor} (h : OnSegment c v x) (ho : Owner c v r)
    (hlen : x.len = v.q.xorLen) : OwnOperands c v x := by
  obtain ⟨out, ⟨-, cur, hw, hcur⟩, hs, hd⟩ := h
  obtain ⟨hout, -, hspec⟩ := nextv_spec hw
  have hl : cur.length = c.stripeDataChunksNum + 1 := by
    rw [← List.length_map (f := addrs), hcur]
    simp [View.lists, length_srcChunks ho.dest_lt]
  have hops : x.srcs ++ [x.dst] = out := by
    have ho : out.length = c.stripeDataChunksNum + 1 := by rw [hout, List.length_map, hl]
    rw [hs, hd, List.getD_eq_getElem?_getD, List.getElem?_eq_getElem (by omega), Option.getD_some,
      ← List.take_succ_eq_append_getElem (by omega), List.take_of_length_le (by omega)]
  unfold OwnOperands
  rw [hops, hout, List.map_map, hlen]
  calc cur.map ((fun p => p.span v.q.xorLen) ∘ headPtr NULL)
      = (cur.map addrs).map (List.take v.q.xorLen) := by
        rw [List.map_map]
        exact List.map_congr_left fun l hl => (hspec l hl).1.symm
    _ = _ := by
        rw [hcur, List.map_map]
        rfl

/-- In a run in which no data XOR is accepted while the channel's array holds other segments, XORs
    stay in the buffers of their request. -/
theorem xor_isolated (h : Run c disk diskMd mem (fun s e => XorSafe s e ∧ OwnSegments s e) s) : XorIsolated c s := by
  obtain ⟨ph, hi⟩ := run_inv True True (h.mono fun s e hx => ⟨hx.1, fun _ => hx.2, .inl trivial⟩)
  intro r x hx
  have hphase : ph r = .xor := by
    refine (hi.phase r).xor_of_noXor fun no => ?_
    have hd : (s.reqs r).dataXors = [] := no.data
    simp [hd] at hx
  have hp := hphase ▸ hi.phase r
  cases hp with
  | xor owner _ _ _ _ _ _ stage =>
    have hnot (hd : (s.view r).q.dataXors = []) : OwnOperands c (s.view r) x := by
      have hd : (s.reqs r).dataXors = [] := hd
      simp [hd] at hx
    cases stage with
    | inFlight _ _ data =>
      obtain ⟨y, hy, hlen, hon⟩ := data
      have hy : (s.reqs r).dataXors = [y] := hy
      obtain rfl : x = y := by simpa [hy] using hx
      exact (hon trivial).ownOperands owner hlen
    | start _ no => exact hnot no.data
    | done _ no => exact hnot no.data
    | cont _ _ data => exact hnot data
    | retry _ _ data => exact hnot data
    | mdInFlight _ _ data => exact hnot data

/-- Two writes, both of their XORs in flight. -/
theorem xor_isolated_writes : ∃ s, Run (smallArray fun _ => true) (fun _ _ => 0) (fun _ _ => 0) (fun _ => 0)
    (fun s e => XorSafe s e ∧ OwnSegments s e) s ∧ (s.reqs 31).dataXors.length = 1 ∧ (s.reqs 30).dataXors.length = 1 ∧
    XorIsolated (smallArray fun _ => true) s := by
  have hm : (smallRun (fun _ => true) (fun _ _ => 0) (fun s e => XorSafe s e ∧ OwnSegments s e)
      [.submit ⟨.write, 0, 4, [2048], false⟩, .call (.code 0), .call (.code 0), .call (.code 0),
        .submit ⟨.write, 4, 4, [2048], false⟩, .call (.code 0), .call (.code 0), .call (.code 0)]).map
      (fun s => decide ((s.reqs 31).dataXors.length = 1 ∧ (s.reqs 30).dataXors.length = 1)) = some true := by
    decide +kernel
  obtain ⟨s, hs, hv⟩ := Option.map_eq_some_iff.mp hm
  obtain ⟨h1, h2⟩ := of_decide_eq_true hv
  exact ⟨s, smallRun_run hs, h1, h2, xor_isolated (smallRun_run hs)⟩

/-- Two writes: the XOR of the first is put off, the second takes the array over, and when its XOR
    is done the first is retried with the second's segments. -/
theorem xor_not_isolated : ¬∀ (c : RaidChannel) (disk diskMd : Nat → Nat → Byte) (mem : Mem Buf Byte) (s : State),
    Run c disk diskMd mem (fun _ _ => True) s → XorIsolated c s := by
  intro h
  have hm : (smallRun (fun _ => true) (fun _ _ => 0) (fun _ _ => True) [.submit ⟨.write, 0, 4, [2048], false⟩, .call (.code 0), .call (.code 0), .call (.code (-ENOMEM)),
        .submit ⟨.write, 4, 4, [2048], false⟩, .call (.code 0), .call (.code 0), .call (.code 0),
        .xorComplete 30 0 (-5), .call (.code 0), .call (.code 0), .call (.code 0), .call (.code 0)]).map
      (fun s => decide (∃ x ∈ (s.reqs 31).dataXors, ¬OwnOperands (smallArray fun _ => true) (s.view 31) x)) = some true := by
    decide +kernel
  obtain ⟨s, hs, hv⟩ := Option.map_eq_some_iff.mp hm
  obtain ⟨x, hx, hne⟩ := of_decide_eq_true hv
  exact hne (h _ _ _ _ s (smallRun_run hs) 31 x hx)

end runs

end FlexBSO.Raid5f

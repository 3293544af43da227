import FlexBSO.Raid5f.Content

/- What one stripe request has done with its data, phase by phase (`ReqData`): the
   chunks whose I/O is done hold what is on the base bdevs, and the XOR has stored as
   much as its counters say. A move of control keeps it over the same buffers and
   blocks (`ReqData.move`), and at its end it says what the request is completed with
   (`Move.wrote`, `Move.readBack`). What control alone does not tell is why a chunk was
   skipped and why there is no XOR; that comes from the step (`Reasons`). -/
namespace FlexBSO.Raid5f
open FlexBSO.Lib

section data
variable (c : RaidChannel) (m : Mem Buf Byte) (d : Nat → Nat → Byte) (v : View) (r : Nat) (p : Phase)

/-- Chunk `k` is one the request moves data of. -/
structure View.Active (k : Nat) : Prop where
  lt : k < c.numBaseBdevs
  write : v.q.type = .write → c.baseChannel k = true
  other : v.q.type = .reconstruct → k ≠ v.q.reconstructChunk

/-- The I/O of chunk `k` was made and its data has moved. -/
structure View.Settled (k : Nat) : Prop where
  active : v.Active c k
  handled : k < v.handled c
  moved : ∀ x ∈ v.q.children, x.1 = k → x.2.moved = true

/-- What holds of the data of a stripe request in each phase. -/
structure ReqData : Prop where
  mdBufs : v.q.MdBufs
  mdXors : ∀ x ∈ v.q.mdXors, x.dst.buf.isMd = true
  children : p.counts = true → ∀ x ∈ v.q.children, (∃ b, x.2 = { v.child c x.1 with moved := b }) ∧
    x.1 < c.numBaseBdevs ∧ (v.q.type = .reconstruct → x.1 ≠ v.q.reconstructChunk)
  channels : p = .chunks ∨ p = .xor → v.q.type = .reconstruct →
    ∀ k < c.numBaseBdevs, k < v.handled c → k ≠ v.q.reconstructChunk → c.baseChannel k = true
  synced : p = .chunks ∨ p = .xor ∧ v.q.type = .reconstruct → v.x.baseBdevIoStatus = .success →
    ∀ k, v.Settled c k → Synced c m d v k
  parity : p = .chunks → v.q.type = .write → c.baseChannel v.q.parityChunk = true → Xored c m v (v.total c)
  progress : p = .xor → (∀ cb, v.calls ≠ [.xorStripe r cb]) → v.q.xorStatus = 0 → v.failing = false →
    Xored c m v (v.total c - v.q.xorRemaining) ∧
    ∀ x ∈ v.q.dataXors, x.stored = true → Xored c m v (v.total c - v.q.xorRemaining + v.q.xorLen)
  done : p = .xor → v.calls = [.xorStripeDone r] → v.q.xorStatus = 0 → v.q.xorRemaining = 0 ∧ v.q.xorRemainingMd = 0

/-- Why a move was made, as far as the view does not tell. -/
structure Reasons (p : Phase) (v w : View) (r : Nat) : Prop where
  sent : ∀ k, v.calls = [.submitChunks r k] → .submitChunks r k ∉ w.calls →
    (v.q.type = .reconstruct → k ≠ v.q.reconstructChunk → c.baseChannel k = true) ∧
    (v.q.type = .write → c.baseChannel k = true → w.q.children ≠ v.q.children ∨
      w.x.baseBdevIoSubmitted = v.x.baseBdevIoSubmitted)
  parity : p = .free → w.calls = [.submitChunks r 0] → w.q.type = .write → c.baseChannel w.q.parityChunk = false
  status : v.calls = [.xorStripeDone r] → w.q.xorStatus = 0 → v.q.xorStatus = 0
  quiet : v.calls = [.xorStripeDone r] → v.q.xorRemaining = 0 → v.q.xorRemainingMd = 0 → v.failing = false
  called : v.q.dataXors ≠ [] → w.q.dataXors = [] → v.failing = false

end data

section same
variable {c : RaidChannel} {m : Mem Buf Byte} {d : Nat → Nat → Byte} {v w : View} {r k : Nat}

/-- The two work on the same chunks of the same blocks. -/
structure SameChunks (v w : View) : Prop where
  work : SameWork v.q w.q
  blocks : w.x.numBlocks = v.x.numBlocks

namespace SameChunks

theorem child (h : SameChunks v w) : w.child c k = v.child c k := by
  obtain ⟨⟨htype, -, hsi, -, -, hoff, hchunks⟩, hblocks⟩ := h
  simp only [View.child, htype, hsi, hoff, hchunks, hblocks]

theorem total (h : SameChunks v w) : w.total c = v.total c := by
  simp only [View.total, View.numBlocks, h.work.type, h.blocks]

theorem dest (h : SameChunks v w) : w.q.destChunk = v.q.destChunk := by
  simp only [StripeRequest.destChunk, h.work.type, h.work.parityChunk, h.work.reconstructChunk]

theorem firstByte (h : SameChunks v w) : w.firstByte c = v.firstByte c := by
  simp only [View.firstByte, h.work.type, h.work.reconstructChunkOffset]

theorem active (h : SameChunks v w) (ha : w.Active c k) : v.Active c k :=
  ⟨ha.lt, fun ht => ha.write (h.work.type.trans ht), fun ht => h.work.reconstructChunk ▸ ha.other (h.work.type.trans ht)⟩

theorem synced (h : SameChunks v w) (hs : Synced c m d v k) : Synced c m d w k := by
  unfold Synced
  rw [h.work.chunks, h.work.stripeIndex, h.firstByte]
  exact hs

theorem xored (h : SameChunks v w) {n : Nat} (hx : Xored c m v n) : Xored c m w n := by
  have hbyte : w.xorByte c m = v.xorByte c m := by
    funext b
    unfold View.xorByte srcChunks
    rw [h.dest, h.work.chunks]
  unfold Xored
  rw [hbyte, h.dest, h.work.chunks]
  exact hx

theorem mdBufs (h : SameChunks v w) (hb : v.q.MdBufs) : w.q.MdBufs := by
  unfold StripeRequest.MdBufs
  rw [h.work.chunks]
  exact hb

end SameChunks

theorem handled_loop (hc : v.calls = [.submitChunks r k]) : v.handled c = k := by
  unfold View.handled
  rw [hc]

/-- After a turn of the loop one more chunk is handled. -/
theorem handled_next (hc : v.calls = submitChunksFrom c r (k + 1)) {j : Nat}
    (hj : j < c.numBaseBdevs) (h : j < v.handled c) : j < k + 1 := by
  by_cases hk : k + 1 < c.numBaseBdevs
  · rw [mem_submitChunksFrom hk] at hc
    rwa [handled_loop hc] at h
  · omega

theorem handled_all (hc : ∀ r k, v.calls ≠ [.submitChunks r k]) (hw : v.x.waits = []) : v.handled c = c.numBaseBdevs := by
  unfold View.handled
  split
  · next hcalls => exact absurd hcalls (hc _ _)
  · exact if_pos hw

theorem handled_wait (hc : ∀ r k, v.calls ≠ [.submitChunks r k]) (hw : v.x.waits ≠ []) :
    v.handled c = v.x.baseBdevIoSubmitted := by
  unfold View.handled
  split
  · next hcalls => exact absurd hcalls (hc _ _)
  · exact if_neg hw

theorem handled_congr (hc : w.calls = v.calls) (hx : w.x.waits = v.x.waits)
    (hs : w.x.baseBdevIoSubmitted = v.x.baseBdevIoSubmitted) : w.handled c = v.handled c := by
  unfold View.handled
  rw [hc, hx, hs]

end same

section moves
variable {c : RaidChannel} {m : Mem Buf Byte} {d : Nat → Nat → Byte} {v w : View} {r : Nat} {p p' : Phase} {b : Bool}

/-- A stripe request at no work. -/
theorem ReqData.over (hb : w.q.MdBufs) (no : NoXor w) (hp : p'.owns = false) : ReqData c m d w r p' where
  mdBufs := hb
  mdXors x hx := by
    rw [no.md] at hx
    cases hx
  children h := by cases p' <;> simp_all [Phase.counts, Phase.owns, Phase.live]
  channels h := by rcases h with rfl | rfl <;> cases hp
  synced h := by rcases h with rfl | ⟨rfl, -⟩ <;> cases hp
  parity h := by subst h; cases hp
  progress h := by subst h; cases hp
  done h := by subst h; cases hp

/-- From one point of the chunk phase to another. -/
theorem ReqData.chunks (hd : ReqData c m d v r .chunks) (same : SameChunks v w) (md : w.q.mdXors = v.q.mdXors)
    (children : ∀ x ∈ w.q.children, x ∈ v.q.children ∨ ∃ k, x = (k, v.child c k) ∧ k < c.numBaseBdevs ∧
      (v.q.type = .reconstruct → k ≠ v.q.reconstructChunk))
    (channels : v.q.type = .reconstruct → ∀ k < c.numBaseBdevs, k < w.handled c → k ≠ v.q.reconstructChunk →
      k < v.handled c ∨ c.baseChannel k = true)
    (synced : w.x.baseBdevIoStatus = .success → v.x.baseBdevIoStatus = .success ∧
      ∀ k, v.Active c k → w.Settled c k → v.Settled c k) : ReqData c m d w r .chunks where
  mdBufs := same.mdBufs hd.mdBufs
  mdXors := md ▸ hd.mdXors
  children _ x hx := by
    rw [same.child, same.work.type, same.work.reconstructChunk]
    rcases children x hx with hx | ⟨k, rfl, hk, hother⟩
    · exact hd.children rfl x hx
    · refine ⟨⟨false, ?_⟩, hk, hother⟩
      unfold View.child
      split <;> rfl
  channels _ htype k hk hh hne := by
    rw [same.work.type] at htype
    rw [same.work.reconstructChunk] at hne
    rcases channels htype k hk hh hne with h | h
    · exact hd.channels (.inl rfl) htype k hk h hne
    · exact h
  synced _ hst k hk := by
    obtain ⟨hst', hsettled⟩ := synced hst
    exact same.synced (hd.synced (.inl rfl) hst' k (hsettled k (same.active hk.active) hk))
  parity _ htype hch := by
    rw [same.work.parityChunk] at hch
    rw [same.total]
    exact same.xored (hd.parity rfl (same.work.type.symm.trans htype) hch)
  progress h := by cases h
  done h := by cases h

theorem BeginMove.data (mv : BeginMove c True True r v p w) (hd : ReqData c m d v r .free)
    (why : Reasons c .free v w r) : ReqData c m d w r p := by
  cases mv with
  | prepared inv md => exact .over (md hd.mdBufs) inv.of_free.2.1 rfl
  | beginChunks inv md children submitted status calls =>
    have l := inv.looping calls
    have hnone {k : Nat} {P : Prop} (hk : k < w.handled c) : P := by
      rw [handled_loop calls] at hk
      cases hk
    refine ⟨md hd.mdBufs, ?_, ?_, fun _ _ k _ hk => hnone hk, fun _ _ k hk => hnone hk.handled, ?_, nofun, nofun⟩
    · rw [l.no.md]
      exact nofun
    · rw [children]
      exact nofun
    · intro _ htype hch
      rw [why.parity rfl calls htype] at hch
      cases hch
  | beginXor inv md type calls =>
    have hread {P : Prop} (htype : w.q.type = .reconstruct) : P := by
      rw [type] at htype
      cases htype
    cases inv with
    | xor _ children _ _ _ _ _ stage =>
      have hno : NoXor w := by
        cases stage with
        | start _ no => exact no
        | done _ no => exact no
        | cont hc | retry hc | inFlight hc | mdInFlight hc =>
          rw [hc] at calls
          cases calls
      refine ⟨md hd.mdBufs, ?_, nofun, fun _ ht => hread ht, ?_, nofun, fun _ hc => absurd calls (hc _), ?_⟩
      · rw [hno.md]
        exact nofun
      · rintro (h | ⟨-, h⟩)
        · cases h
        · exact hread h
      · intro _ hc
        rw [calls] at hc
        cases hc

theorem LoopMove.data (mv : LoopMove c True r v p w) (h : PhaseInv c True True v r .chunks)
    (h' : PhaseInv c True True w r p) (hd : ReqData c m d v r .chunks) (why : Reasons c .chunks v w r)
    (same : SameChunks v w) : ReqData c m d w r p := by
  have hnever {x k : Nat} (hcalls : w.calls = submitChunksFrom c x (k + 1)) : .submitChunks x k ∉ w.calls := by
    rw [hcalls]
    unfold submitChunksFrom
    split <;> simp
  cases mv with
  | sent k b calls other hw =>
    have l := h.looping calls
    have hcalls : w.calls = submitChunksFrom c r (k + 1) := by rw [hw]; rfl
    have hwaits : w.x.waits = [] := by rw [hw]; exact l.waits
    have hchildren : w.q.children = v.q.children ++ [(k, v.child c k)] := by rw [hw]; rfl
    refine hd.chunks same (by rw [hw]; rfl) ?_ ?_ ?_
    · intro x hx
      rw [hchildren] at hx
      rcases List.mem_append.mp hx with hx | hx
      · exact .inl hx
      · exact .inr ⟨k, List.mem_singleton.mp hx, l.lt, other⟩
    · intro htype j hj hh hne
      rw [handled_loop calls]
      rcases Nat.lt_or_ge j k with hlt | hge
      · exact .inl hlt
      · obtain rfl : j = k := by
          have := handled_next hcalls hj hh
          omega
        exact .inr ((why.sent j calls (hnever hcalls)).1 htype hne)
    · intro hst
      refine ⟨by rw [hw] at hst; exact hst, fun j ha hj => ⟨ha, ?_, ?_⟩⟩
      · rw [handled_loop calls]
        have hlt := handled_next hcalls hj.active.lt hj.handled
        have hne : j ≠ k := by
          intro he
          have := hj.moved (k, v.child c k) (by rw [hchildren]; simp) he.symm
          unfold View.child at this
          split at this <;> cases this
        omega
      · exact fun x hx => hj.moved x (by rw [hchildren]; exact List.mem_append_left _ hx)
  | skipped k calls hwhy more hw =>
    have l := h.looping calls
    have hcalls : w.calls = submitChunksFrom c r (k + 1) := by rw [hw]; rfl
    have hchildren : w.q.children = v.q.children := by rw [hw]; rfl
    have hsub : w.x.baseBdevIoSubmitted = v.x.baseBdevIoSubmitted + 1 := by rw [hw]; rfl
    refine hd.chunks same (by rw [hw]; rfl) (fun x hx => .inl (hchildren ▸ hx)) ?_ ?_
    · intro htype j hj hh hne
      have hlt := handled_next hcalls hj hh
      rw [handled_loop calls]
      have hjk : j ≠ k := fun he => hne (he.trans (hwhy htype))
      exact .inl (by omega)
    · intro hst
      refine ⟨by rw [hw] at hst; exact hst, fun j ha hj => ⟨ha, ?_, hchildren ▸ hj.moved⟩⟩
      rw [handled_loop calls]
      have hlt := handled_next hcalls hj.active.lt hj.handled
      -- the chunk just passed over is not active: a write has no base channel for it
      have hjk : j ≠ k := by
        rintro rfl
        cases htype : v.q.type with
        | reconstruct => exact ha.other htype (hwhy htype)
        | write =>
          rcases (why.sent j calls (hnever hcalls)).2 htype (ha.write htype) with hne | heq
          · exact hne hchildren
          · omega
      omega
  | skippedLast k calls type last hw =>
    exact .over (same.mdBufs hd.mdBufs) (by cases h'; assumption) rfl
  | deferred k b calls other hw =>
    have l := h.looping calls
    have hhandled : w.handled c = v.handled c := by
      rw [handled_loop calls, handled_wait (by rw [hw]; exact nofun) (by rw [hw]; simp), hw]
      exact l.submitted
    have hchildren : w.q.children = v.q.children := by rw [hw]; rfl
    refine hd.chunks same (by rw [hw]; rfl) (fun x hx => .inl (hchildren ▸ hx)) ?_ ?_
    · exact fun _ j _ hh _ => .inl (hhandled ▸ hh)
    · exact fun hst => ⟨by rw [hw] at hst; exact hst, fun j ha hj => ⟨ha, hhandled ▸ hj.handled, hchildren ▸ hj.moved⟩⟩
  | refused k b calls type more hw =>
    have hchildren : w.q.children = v.q.children := by rw [hw]; rfl
    refine hd.chunks same (by rw [hw]; rfl) (fun x hx => .inl (hchildren ▸ hx)) ?_ ?_
    · intro htype
      rw [type] at htype
      cases htype
    · intro hst
      rw [hw] at hst
      cases hst
  | refusedLast k b calls type last hw =>
    exact .over (same.mdBufs hd.mdBufs) (by cases h'; assumption) rfl
  | refusedRead k lossy calls type hw =>
    have hq : w.q = v.q := by rw [hw]; rfl
    refine ⟨same.mdBufs hd.mdBufs, hq ▸ hd.mdXors, ?_, ?_, ?_, nofun, nofun, nofun⟩
    · intro _ x hx
      rw [same.child, hq] at *
      exact hd.children rfl x hx
    · rintro (h | h) <;> cases h
    · rintro (h | ⟨h, -⟩) <;> cases h
  | resumed waits hw =>
    have hq : w.q = v.q := by rw [hw]; rfl
    have hcalls : w.calls = [.submitChunks r v.x.baseBdevIoSubmitted] := by rw [hw]; rfl
    have hidle : v.calls = [] := by
      cases h with
      | chunks _ _ _ _ stage =>
        cases stage with
        | loop _ hwt | past _ hwt =>
          rw [hwt] at waits
          cases waits
        | wait hc => exact hc
    have hhandled : w.handled c = v.handled c := by
      rw [handled_loop hcalls, handled_wait (by rw [hidle]; exact nofun) (by rw [waits]; simp)]
    refine hd.chunks same (by rw [hq]) (fun x hx => .inl (hq ▸ hx)) ?_ ?_
    · exact fun _ j _ hh _ => .inl (hhandled ▸ hh)
    · exact fun hst => ⟨by rw [hw] at hst; exact hst, fun j ha hj => ⟨ha, hhandled ▸ hj.handled, hq ▸ hj.moved⟩⟩

/-- In the chunk phase, once the loop has been through, all chunks are handled. -/
theorem ChunkStage.handled_last (h : ChunkStage c v r) (idle : v.calls = []) (last : v.x.baseBdevIoRemaining = 1)
    {j : Nat} {x : Nat × Child} (get : v.q.children[j]? = some x) :
    v.handled c = c.numBaseBdevs ∧ v.q.children = [x] ∧ v.x.waits = [] := by
  obtain ⟨hlen, hwaits⟩ := h.last idle last (by rintro hnil; simp [hnil] at get)
  refine ⟨handled_all (by rw [idle]; exact nofun) hwaits, ?_, hwaits⟩
  obtain ⟨y, hy⟩ := List.length_eq_one_iff.mp hlen
  rw [hy] at get ⊢
  cases j with
  | zero => exact congrArg (fun y => [y]) (Option.some.inj get)
  | succ j => cases get

/-- A child whose I/O has completed with success is no hindrance. -/
theorem View.Settled.of_erase {j i : Nat} {child : Child} (get : v.q.children[j]? = some (i, child))
    (moved : child.moved = true) {k : Nat} (ha : v.Active c k) (hh : k < v.handled c)
    (hk : ∀ x ∈ v.q.children.eraseIdx j, x.1 = k → x.2.moved = true) : v.Settled c k := by
  refine ⟨ha, hh, fun x hx hxk => ?_⟩
  obtain ⟨n, hn⟩ := List.mem_iff_getElem?.mp hx
  by_cases hnj : n = j
  · subst hnj
    obtain rfl := Option.some.inj (get.symm.trans hn)
    exact moved
  · apply hk x _ hxk
    rw [List.mem_eraseIdx_iff_getElem?]
    exact ⟨n, hnj, hn⟩

theorem IoStatus.part_success {st : IoStatus} {ok : Bool} (h : st.part ok = .success) : st = .success ∧ ok = true := by
  unfold IoStatus.part at h
  cases ok with
  | true => exact ⟨h, rfl⟩
  | false => cases h

theorem ChunkMove.data (mv : ChunkMove r false p v p' w) (h : PhaseInv c True True v r p)
    (h' : PhaseInv c True True w r p') (hd : ReqData c m d v r p) (same : SameChunks v w) : ReqData c m d w r p' := by
  cases mv with
  | chunkPart counts j k child ok get moved idle more hw =>
    have hchildren : w.q.children = v.q.children.eraseIdx j := by rw [hw]; rfl
    have hsub : ∀ x ∈ w.q.children, x ∈ v.q.children := fun x hx => List.mem_of_mem_eraseIdx (hchildren ▸ hx)
    have hhandled : w.handled c = v.handled c := handled_congr (by rw [hw]; exact idle.symm) (by rw [hw]; rfl) (by rw [hw]; rfl)
    cases p with
    | chunks =>
      refine hd.chunks same (by rw [hw]; rfl) (fun x hx => .inl (hsub x hx)) ?_ ?_
      · exact fun _ j _ hh _ => .inl (hhandled ▸ hh)
      · intro hst
        rw [hw] at hst
        obtain ⟨hst, hok⟩ := IoStatus.part_success hst
        exact ⟨hst, fun i ha hi => .of_erase get (moved hok) ha (hhandled ▸ hi.handled) (hchildren ▸ hi.moved)⟩
    | stuck =>
      refine ⟨same.mdBufs hd.mdBufs, (by rw [hw]; exact hd.mdXors), ?_, ?_, ?_, nofun, nofun, nofun⟩
      · intro _ x hx
        rw [same.child, same.work.type, same.work.reconstructChunk]
        exact hd.children rfl x (hsub x hx)
      · rintro (h | h) <;> cases h
      · rintro (h | ⟨h, -⟩) <;> cases h
    | free | xor | releasing | orphan => cases counts
  | chunkLast j k child ok get moved idle type last hw =>
    exact .over (same.mdBufs hd.mdBufs) (by cases h'; assumption) rfl
  | chunkFail j k child ok get idle type last status hw =>
    exact .over (same.mdBufs hd.mdBufs) (by cases h'; assumption) rfl
  | chunkXor j k child get moved idle type last status hw =>
    cases h with
    | chunks owner no cbRuns xorCalls stage =>
      obtain ⟨hhandled, hone, hwaits⟩ := stage.handled_last idle last get
      have hcalls : w.calls = [.xorStripe r .reconstructXorDone] := by rw [hw]; rfl
      refine ⟨same.mdBufs hd.mdBufs, (by rw [hw]; exact hd.mdXors), nofun, ?_, ?_, nofun, ?_, ?_⟩
      · intro _ _ i hi _ hne
        rw [same.work.reconstructChunk] at hne
        exact hd.channels (.inl rfl) type i hi (hhandled ▸ hi) hne
      · intro _ _ i hi
        have hsettled : v.Settled c i := by
          refine .of_erase get moved (same.active hi.active) (hhandled ▸ hi.active.lt) fun x hx => ?_
          rw [hw] at hi
          exact hi.moved x hx
        exact same.synced (hd.synced (.inl rfl) status i hsettled)
      · exact fun _ hne => absurd hcalls (hne _)
      · intro _ hdone
        rw [hcalls] at hdone
        cases hdone

/-! ### The XOR -/

/-- No chunk is being submitted while an XOR goes on. -/
theorem XorStage.not_loop {iso : Prop} (h : XorStage c iso v r) (x k : Nat) : v.calls ≠ [.submitChunks x k] := by
  intro hc
  cases h with
  | start calls | cont calls | retry calls | inFlight calls | mdInFlight calls | done calls =>
    rw [calls] at hc
    cases hc

theorem PhaseInv.handled_xor {lossy iso : Prop} (h : PhaseInv c lossy iso v r .xor) :
    v.handled c = c.numBaseBdevs ∧ v.q.children = [] := by
  cases h with
  | xor _ children waits _ _ _ _ stage => exact ⟨handled_all stage.not_loop waits, children⟩

/-- From one point of the XOR to another. -/
theorem ReqData.xorStep (hd : ReqData c m d v r .xor) (h : PhaseInv c True True v r .xor) (h' : PhaseInv c True True w r .xor)
    (same : SameChunks v w) (hx : w.x = v.x) (md : ∀ x ∈ w.q.mdXors, x.dst.buf.isMd = true)
    (progress : (∀ cb, w.calls ≠ [.xorStripe r cb]) → w.q.xorStatus = 0 → w.failing = false →
      Xored c m v (v.total c - w.q.xorRemaining) ∧
      ∀ x ∈ w.q.dataXors, x.stored = true → Xored c m v (v.total c - w.q.xorRemaining + w.q.xorLen))
    (done : w.calls = [.xorStripeDone r] → w.q.xorStatus = 0 → w.q.xorRemaining = 0 ∧ w.q.xorRemainingMd = 0) :
    ReqData c m d w r .xor := by
  obtain ⟨hhandled, hchildren⟩ := h.handled_xor
  obtain ⟨hhandled', -⟩ := h'.handled_xor
  refine ⟨same.mdBufs hd.mdBufs, md, nofun, ?_, ?_, nofun, ?_, fun _ => done⟩
  · intro _ htype k hk _ hne
    rw [same.work.reconstructChunk] at hne
    exact hd.channels (.inr rfl) (same.work.type.symm.trans htype) k hk (hhandled ▸ hk) hne
  · rintro (hp | ⟨-, htype⟩)
    · cases hp
    · intro hst k hk
      refine same.synced (hd.synced (.inr ⟨rfl, same.work.type.symm.trans htype⟩) (hx ▸ hst) k ⟨same.active hk.active, ?_, ?_⟩)
      · exact hhandled ▸ hk.active.lt
      · rw [hchildren]
        exact nofun
  · intro _ hcalls hst hf
    rw [same.total]
    obtain ⟨hdone, hstored⟩ := progress hcalls hst hf
    exact ⟨same.xored hdone, fun x hx' hs => same.xored (hstored x hx' hs)⟩

theorem MdStart.mdXors {q : StripeRequest} (mv : MdStart c r v q w) (hb : q.MdBufs) (no : q.mdXors = []) :
    ∀ x ∈ w.q.mdXors, x.dst.buf.isMd = true := by
  cases mv with
  | none _ _ hw | deferred _ _ hw | refused _ _ _ _ hw =>
    intro x hx
    have hnil : w.q.mdXors = [] := by rw [hw]; exact no
    rw [hnil] at hx
    cases hx
  | accepted srcs x md dst hw =>
    intro y hy
    have hone : w.q.mdXors = [x] := by
      rw [hw]
      exact congrArg (· ++ [x]) no
    rw [hone] at hy
    rw [List.mem_singleton.mp hy, dst]
    exact hb _

/-- The start of the metadata leaves all of the data to do. -/
theorem MdStart.left {q : StripeRequest} (mv : MdStart c r v q w) : w.q.xorRemaining = q.xorRemaining ∧
    w.q.dataXors = q.dataXors ∧ (w.calls = [.xorStripeDone r] → w.q.xorStatus ≠ 0) := by
  cases mv with
  | none _ _ hw =>
    subst hw
    exact ⟨rfl, rfl, nofun⟩
  | accepted _ _ _ _ hw =>
    subst hw
    exact ⟨rfl, rfl, nofun⟩
  | deferred _ _ hw =>
    subst hw
    exact ⟨rfl, rfl, nofun⟩
  | refused _ status hs _ hw =>
    subst hw
    exact ⟨rfl, rfl, fun _ => hs⟩

theorem xorStatusAfter_zero {st status : Int} (h : xorStatusAfter st status = 0) : status = 0 ∧ st = 0 := by
  unfold xorStatusAfter at h
  split at h
  · next hne => exact absurd h hne
  · next heq => exact ⟨by simpa using heq, h⟩

theorem XorMove.data (mv : XorMove c True r v false w) (h : PhaseInv c True True v r .xor) (h' : PhaseInv c True True w r .xor)
    (hd : ReqData c m d v r .xor) (why : Reasons c .xor v w r) : ReqData c m d w r .xor := by
  have same : SameChunks v w := ⟨mv.sameWork, by rw [mv.keeps.1]⟩
  have hnone {l : List AccelXor} {P : AccelXor → Prop} (hl : l = []) : ∀ x ∈ l, P x := by
    rw [hl]
    exact fun _ hx => absurd hx List.not_mem_nil
  cases h with
  | xor owner children waits xorCalls cbRuns write reconstruct stage =>
    have h : PhaseInv c True True v r .xor := .xor owner children waits xorCalls cbRuns write reconstruct stage
    have hstep := hd.xorStep h h' same mv.keeps.1
    cases mv with
    | xorStart cb len out its calls walk md =>
      have no : NoXor v := by
        cases stage with
        | start _ no => exact no
        | done _ no => exact no
        | cont hc | retry hc | inFlight hc | mdInFlight hc =>
          rw [hc] at calls
          cases calls
      obtain ⟨hrem, hdata, hdone⟩ := md.left
      have hnil : w.q.dataXors = [] := hdata.trans no.data
      apply hstep (md.mdXors hd.mdBufs no.md)
      · intro _ _ _
        have hzero : v.total c - w.q.xorRemaining = 0 := by
          rw [hrem]
          exact Nat.sub_self _
        refine ⟨?_, hnone hnil⟩
        rw [hzero]
        exact fun _ _ hj => absurd hj (Nat.not_lt_zero _)
      · exact fun hc hst => absurd hst (hdone hc)
    | xorAccepted x calls len fresh mine ops hw =>
      obtain ⟨-, hdata, -⟩ := stage.running_of_cont calls
      apply hstep (by rw [hw]; exact hd.mdXors)
      · intro _ hst hf
        rw [hw] at hst hf ⊢
        obtain ⟨hdone, -⟩ := hd.progress rfl (by simp [calls]) hst hf
        refine ⟨hdone, fun y hy hstored => ?_⟩
        have hone : y ∈ [x] := by simpa [View.set, hdata] using hy
        rw [List.mem_singleton.mp hone, fresh] at hstored
        cases hstored
      · intro hc
        rw [hw] at hc
        cases hc
    | xorDeferred srcs calls hw =>
      apply hstep (by rw [hw]; exact hd.mdXors)
      · intro _ hst hf
        rw [hw] at hst hf ⊢
        exact hd.progress rfl (by simp [calls]) hst hf
      · intro hc
        rw [hw] at hc
        cases hc
    | xorRefused srcs status calls hs md hw =>
      apply hstep (by rw [hw]; exact hd.mdXors)
      · intro _ hst
        rw [hw] at hst
        exact absurd hst hs
      · intro _ hst
        rw [hw] at hst
        exact absurd hst hs
    | xorRetried queue hw left =>
      have hidle : v.calls = [] := by
        cases stage with
        | retry hc => exact hc
        | start _ no | done _ no =>
          rw [no.queue] at queue
          cases queue
        | cont _ hq | inFlight _ hq | mdInFlight _ hq =>
          rw [hq] at queue
          cases queue
      apply hstep (by rw [hw]; exact hd.mdXors)
      · intro _ hst hf
        rw [hw] at hst hf ⊢
        exact hd.progress rfl (by simp [hidle]) hst hf
      · intro hc
        rw [hw] at hc
        cases hc
    | xorRestarted queue md hw =>
      apply hstep (by rw [hw]; exact hd.mdXors)
      · intro hne
        rw [hw] at hne
        exact absurd rfl (hne v.q.xorCb)
      · intro hc
        rw [hw] at hc
        cases hc
    | xorSegment x status len out its data stored idle more walk hw =>
      have hlen : v.q.xorRemaining ≤ v.total c := by
        cases stage with
        | inFlight _ _ _ _ run =>
          obtain ⟨out', hpos, -⟩ := run.pos
          exact hpos.1
        | start _ no | done _ no =>
          rw [no.data] at data
          cases data
        | cont _ _ hnil | retry _ _ hnil | mdInFlight _ _ hnil =>
          rw [hnil] at data
          cases data
      have hcalled := why.called (by rw [data]; simp) (by rw [hw]; rfl)
      apply hstep (by rw [hw]; exact hd.mdXors)
      · intro _ hst hf
        rw [hw] at hst hf ⊢
        have hzero : status = 0 := by simpa using hf
        obtain ⟨-, hnext⟩ := hd.progress rfl (by simp [idle]) hst hcalled
        have hseg := hnext x (by rw [data]; simp) (stored hzero)
        refine ⟨?_, hnone rfl⟩
        have heq : v.total c - (v.q.xorRemaining - v.q.xorLen) = v.total c - v.q.xorRemaining + v.q.xorLen := by omega
        exact heq ▸ hseg
      · intro hc
        rw [hw] at hc
        cases hc
    | xorData x status data stored idle quiet last hw =>
      apply hstep (by rw [hw]; exact hd.mdXors)
      · intro _ hst hf
        rw [hw] at hst hf ⊢
        obtain ⟨hzero, hst⟩ := xorStatusAfter_zero hst
        obtain ⟨-, hnext⟩ := hd.progress rfl (by simp [idle]) hst quiet
        have hseg := hnext x (by rw [data]; simp) (stored hzero)
        refine ⟨?_, hnone rfl⟩
        intro j p hj
        exact hseg j p (by
          have : j < v.total c - 0 := hj
          omega)
      · intro hc hst
        rw [hw] at hc ⊢
        refine ⟨rfl, ?_⟩
        by_contra hne
        have hne : ¬v.q.xorRemainingMd = 0 := hne
        simp [View.set, hne] at hc
    | xorMd x status md idle quiet hw =>
      apply hstep (by rw [hw]; exact fun _ hx => absurd hx List.not_mem_nil)
      · intro _ hst hf
        rw [hw] at hst hf ⊢
        exact hd.progress rfl (by simp [idle]) (xorStatusAfter_zero hst).2 quiet
      · intro hc hst
        rw [hw] at hc ⊢
        refine ⟨?_, rfl⟩
        by_contra hne
        have hne : ¬v.q.xorRemaining = 0 := hne
        simp [View.set, hne] at hc

/-! ### All moves of control -/

theorem EndMove.data (mv : EndMove r v p w) (h : PhaseInv c True True v r .xor) (h' : PhaseInv c True True w r p)
    (hd : ReqData c m d v r .xor) (why : Reasons c .xor v w r) (same : SameChunks v w) : ReqData c m d w r p := by
  cases mv with
  | wrote calls type status hw =>
    have hcalls : w.calls = [.submitChunks r 0] := by rw [hw]; rfl
    have hchildren : w.q.children = [] := by rw [hw]; exact h.handled_xor.2
    refine ⟨same.mdBufs hd.mdBufs, (by rw [hw]; exact hd.mdXors), ?_, ?_, ?_, ?_, nofun, nofun⟩
    · rw [hchildren]
      exact nofun
    · intro _ htype
      rw [same.work.type, type] at htype
      cases htype
    · intro _ _ k hk
      have := hk.handled
      rw [handled_loop hcalls] at this
      cases this
    · intro _ _ _
      obtain ⟨hleft, hleftMd⟩ := hd.done rfl calls status
      obtain ⟨hdone, -⟩ := hd.progress rfl (by rw [calls]; exact nofun) status (why.quiet calls hleft hleftMd)
      rw [hleft, Nat.sub_zero] at hdone
      rw [same.total]
      exact same.xored hdone
  | writeFail calls type hw =>
    exact .over (same.mdBufs hd.mdBufs) (by cases h'; assumption) rfl
  | reconstructed calls type hw =>
    exact .over (same.mdBufs hd.mdBufs) (by cases h'; assumption) rfl

/-- Every move of control keeps what holds of the data. -/
theorem ReqData.move (mv : Move c True True r false p v p' w) (h : PhaseInv c True True v r p)
    (h' : PhaseInv c True True w r p') (hd : ReqData c m d v r p) (why : Reasons c p v w r)
    (hblocks : p ≠ .free → w.x.numBlocks = v.x.numBlocks) : ReqData c m d w r p' := by
  have same (hp : p ≠ .free) : SameChunks v w := ⟨mv.sameWork hp, hblocks hp⟩
  cases mv with
  | begin mv => exact mv.data hd why
  | loop mv => exact mv.data h h' hd why (same nofun)
  | chunk mv =>
    refine mv.data h h' hd (same ?_)
    rintro rfl
    cases mv with
    | chunkPart counts => cases counts
  | xor mv => exact mv.data h h' hd why
  | finish mv => exact mv.data h h' hd why (same nofun)
  | callback st f keep hw =>
    have same : SameChunks v w := by
      rw [hw]
      exact ⟨⟨rfl, rfl, rfl, rfl, rfl, rfl, rfl⟩, rfl⟩
    have hhandled : w.handled c = v.handled c := handled_congr (by rw [hw]) (by rw [hw]) (by rw [hw])
    refine ⟨same.mdBufs hd.mdBufs, (by rw [hw]; exact hd.mdXors), ?_, ?_, ?_, ?_, ?_, ?_⟩
    · intro hp x hx
      rw [same.child, same.work.type, same.work.reconstructChunk]
      rw [hw] at hx
      exact hd.children hp x hx
    · intro hp htype k hk hh hne
      rw [same.work.reconstructChunk] at hne
      exact hd.channels hp (same.work.type.symm.trans htype) k hk (hhandled ▸ hh) hne
    · intro hp hst k hk
      rw [same.work.type] at hp
      rw [hw] at hst
      refine same.synced (hd.synced hp hst k ⟨same.active hk.active, hhandled ▸ hk.handled, fun x hx => ?_⟩)
      exact hk.moved x (by rw [hw]; exact hx)
    · intro hp htype hch
      rw [same.work.parityChunk] at hch
      rw [same.total]
      exact same.xored (hd.parity hp (same.work.type.symm.trans htype) hch)
    · intro hp hcalls hst hf
      rw [hw] at hcalls hst hf ⊢
      obtain ⟨hzero, hquiet⟩ := keep hst hf
      exact hd.progress hp hcalls hzero hquiet
    · intro hp hcalls hst
      have hcalls' : v.calls = [.xorStripeDone r] := by rw [hw] at hcalls; exact hcalls
      have hzero := why.status hcalls' hst
      rw [hw]
      exact hd.done hp hcalls' hzero
  | released calls hw =>
    exact .over ((same nofun).mdBufs hd.mdBufs) (by cases h'; assumption) rfl

/-! ### The end of a request -/

/-- A write that is completed with success: every chunk with a base channel is on its base bdev, and the
    parity is the xor of the data. -/
theorem Move.wrote (mv : Move c True True r false p v p' w) (h : PhaseInv c True True v r p) (hlive : p.live = true)
    (hd : ReqData c m d v r p) (why : Reasons c p v w r) (htype : v.q.type = .write)
    (hdone : w.x.completions = [.success]) :
    (∀ k < c.numBaseBdevs, c.baseChannel k = true → Synced c m d v k) ∧
    (c.baseChannel v.q.parityChunk = true → Xored c m v (v.total c)) := by
  have hread {P : Prop} (ht : v.q.type = .reconstruct) : P := by
    rw [htype] at ht
    cases ht
  have hnone := (h.owner (Phase.owns_of_live hlive)).completions
  have hsame {P : Prop} (hx : w.x.completions = v.x.completions) : P := by
    rw [hx, hnone] at hdone
    cases hdone
  have hlast {st : IoStatus} (hx : w.x.completions = v.x.completions ++ [st]) : st = .success := by
    rw [hx, hnone] at hdone
    exact List.singleton_inj.mp hdone
  have hactive {k : Nat} (hk : k < c.numBaseBdevs) (hc : c.baseChannel k = true) : v.Active c k :=
    ⟨hk, fun _ => hc, fun ht => hread ht⟩
  cases mv with
  | begin | released => cases hlive
  | loop mv =>
    cases mv with
    | sent _ _ _ _ hw | skipped _ _ _ _ hw | deferred _ _ _ _ hw | refused _ _ _ _ _ hw | refusedRead _ _ _ _ hw
    | resumed _ hw => exact hsame (by rw [hw]; rfl)
    | refusedLast _ _ _ _ _ hw => cases hlast (by rw [hw]; rfl)
    | skippedLast k calls type last hw =>
      have l := h.looping calls
      have hcount := l.count
      have hlt := l.lt
      have hst : v.x.baseBdevIoStatus = .success := hlast (by rw [hw]; rfl)
      have hchildren : v.q.children = [] := List.length_eq_zero_iff.mp (by omega)
      refine ⟨fun i hi hc => ?_, hd.parity rfl htype⟩
      have hik : i ≠ k := by
        rintro rfl
        have hsent := (why.sent i calls (by rw [hw]; exact nofun)).2 htype hc
        rcases hsent with hne | heq
        · exact hne (by rw [hw]; rfl)
        · have : w.x.baseBdevIoSubmitted = v.x.baseBdevIoSubmitted + 1 := by rw [hw]; rfl
          omega
      apply hd.synced (.inl rfl) hst i
      refine ⟨hactive hi hc, ?_, by rw [hchildren]; exact nofun⟩
      rw [handled_loop calls]
      rw [hchildren, List.length_nil] at hcount
      omega
  | chunk mv =>
    cases mv with
    | chunkPart _ _ _ _ _ _ _ _ _ hw | chunkXor _ _ _ _ _ _ _ _ _ hw => exact hsame (by rw [hw]; rfl)
    | chunkFail _ _ _ _ _ _ type => exact hread type
    | chunkLast j k child ok get moved idle type last hw =>
      cases h with
      | chunks owner no cbRuns xorCalls stage =>
        obtain ⟨hst, hok⟩ := IoStatus.part_success (hlast (by rw [hw]; rfl))
        obtain ⟨hhandled, hone, -⟩ := stage.handled_last idle last get
        refine ⟨fun i hi hc => ?_, hd.parity rfl htype⟩
        apply hd.synced (.inl rfl) hst i
        refine ⟨hactive hi hc, hhandled ▸ hi, fun x hx _ => ?_⟩
        rw [hone] at hx
        rw [List.mem_singleton.mp hx]
        exact moved hok
  | xor mv => exact hsame (by rw [mv.keeps.1])
  | finish mv =>
    cases mv with
    | wrote _ _ _ hw => exact hsame (by rw [hw]; rfl)
    | writeFail _ _ hw => cases hlast (by rw [hw]; rfl)
    | reconstructed _ type => exact hread type
  | callback _ _ _ hw => exact hsame (by rw [hw])

/-- A read that is completed with success: every other chunk was read, and their xor is in its buffers. -/
theorem Move.readBack (mv : Move c True True r false p v p' w) (h : PhaseInv c True True v r p) (hlive : p.live = true)
    (hd : ReqData c m d v r p) (why : Reasons c p v w r) (htype : v.q.type = .reconstruct)
    (hdone : w.x.completions = [.success]) :
    (∀ k < c.numBaseBdevs, k ≠ v.q.reconstructChunk → c.baseChannel k = true ∧ Synced c m d v k) ∧
    Xored c m v (v.total c) := by
  have hwrite {P : Prop} (ht : v.q.type = .write) : P := by
    rw [htype] at ht
    cases ht
  have hnone := (h.owner (Phase.owns_of_live hlive)).completions
  have hsame {P : Prop} (hx : w.x.completions = v.x.completions) : P := by
    rw [hx, hnone] at hdone
    cases hdone
  have hlast {st : IoStatus} (hx : w.x.completions = v.x.completions ++ [st]) : st = .success := by
    rw [hx, hnone] at hdone
    exact List.singleton_inj.mp hdone
  cases mv with
  | begin | released => cases hlive
  | loop mv =>
    cases mv with
    | sent _ _ _ _ hw | skipped _ _ _ _ hw | deferred _ _ _ _ hw | refused _ _ _ _ _ hw | refusedRead _ _ _ _ hw
    | resumed _ hw => exact hsame (by rw [hw]; rfl)
    | refusedLast _ _ _ type => exact hwrite type
    | skippedLast _ _ type => exact hwrite type
  | chunk mv =>
    cases mv with
    | chunkPart _ _ _ _ _ _ _ _ _ hw | chunkXor _ _ _ _ _ _ _ _ _ hw => exact hsame (by rw [hw]; rfl)
    | chunkFail _ _ _ _ _ _ _ _ status hw => exact absurd (hlast (by rw [hw]; rfl)) status
    | chunkLast _ _ _ _ _ _ _ type => exact hwrite type
  | xor mv => exact hsame (by rw [mv.keeps.1])
  | finish mv =>
    cases mv with
    | wrote _ type => exact hwrite type
    | writeFail _ type => exact hwrite type
    | reconstructed calls type hw =>
      have f := h.finishing calls
      obtain ⟨hhandled, hchildren⟩ := h.handled_xor
      obtain ⟨-, hst⟩ := IoStatus.part_success (hlast (by rw [hw]; rfl))
      have hst : v.q.xorStatus = 0 := by simpa using hst
      obtain ⟨hleft, hleftMd⟩ := hd.done rfl calls hst
      obtain ⟨hxored, -⟩ := hd.progress rfl (by rw [calls]; exact nofun) hst (why.quiet calls hleft hleftMd)
      rw [hleft, Nat.sub_zero] at hxored
      refine ⟨fun k hk hne => ⟨hd.channels (.inr rfl) type k hk (hhandled ▸ hk) hne, ?_⟩, hxored⟩
      apply hd.synced (.inr ⟨rfl, type⟩) (f.reconstruct type).2 k
      refine ⟨⟨hk, fun ht => hwrite ht, fun _ => hne⟩, hhandled ▸ hk, ?_⟩
      rw [hchildren]
      exact nofun
  | callback _ _ _ hw => exact hsame (by rw [hw])

end moves

end FlexBSO.Raid5f

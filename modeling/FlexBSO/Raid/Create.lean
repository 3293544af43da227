import FlexBSO.Raid.Moves

/- `bdev_raid_create` served to its end. While the handler runs, nothing else
   happens; `rpcBdevRaidCreate` is its whole run, for any results of the calls it
   makes, and `reach_create` says that it is a run of the machine. All turns but
   the last only touch the raid bdev the handler created, so that when the handler
   deletes it again nothing is left of the request. -/
namespace FlexBSO.Raid

/-- At most `n` turns of the loop of `rpc_bdev_raid_create`; `answers` are the results of the calls
    made for each slot. -/
def createTurns (answers : Nat → Answer) : Nat → State → State
  | 0, s => s
  | n + 1, s =>
    match s.rpc with
    | none => s
    | some p =>
      match p.error, p.baseBdevs with
      | some rc, _ => createTurns answers n (s.rpcCreateFail p rc)
      | none, name :: rest => createTurns answers n (s.rpcCreateAdd p name rest (answers p.slot))
      | none, [] => s

/-- `rpc_bdev_raid_create` -/
def rpcBdevRaidCreate (s : State) (request : Nat) (req : CreateRequest) (alloc : Bool) (answers : Nat → Answer) :
    State :=
  createTurns answers (req.baseBdevs.length + 1) (s.rpcCreateStart request req alloc)

open State

variable {threads : List Nat} {ok : State → Event → Prop} {s t u : State}

/-- The turns are steps of the machine. -/
theorem reach_turns (answers : Nat → Answer) (n : Nat) (s : State) :
    Lib.Reach (step threads) (fun u _ => u.rpc ≠ none) s (createTurns answers n s) := by
  induction n generalizing s with
  | zero => exact .init
  | succ n ih =>
    cases hrpc : s.rpc with
    | none =>
      simp only [createTurns, hrpc]
      exact .init
    | some p =>
      have hturn : ∀ e t, step threads s e = some t →
          Lib.Reach (step threads) (fun u _ => u.rpc ≠ none) s (createTurns answers n t) := by
        intro e t hstep
        have hbusy : s.rpc ≠ none := by
          rw [hrpc]
          exact Option.some_ne_none p
        have hfirst : Lib.Reach (step threads) (fun u _ => u.rpc ≠ none) s t := .next .init hbusy hstep
        exact hfirst.trans (ih t)
      cases herr : p.error with
      | some rc =>
        simp only [createTurns, hrpc, herr]
        exact hturn .rpcCreateFail _ (by simp only [step, hrpc, herr])
      | none =>
        cases hbase : p.baseBdevs with
        | nil =>
          simp only [createTurns, hrpc, herr, hbase]
          exact .init
        | cons name rest =>
          simp only [createTurns, hrpc, herr, hbase]
          exact hturn (.rpcCreateAdd (answers p.slot)) _ (by simp only [step, hrpc, herr, hbase])

/-- The whole request is a run of the machine. -/
theorem reach_create (hidle : s.rpc = none) (request : Nat) {req : CreateRequest}
    (hn : req.baseBdevs.length ≤ rpcMaxBaseBdevs) (alloc : Bool) (answers : Nat → Answer) :
    Lib.Reach (step threads) (fun _ _ => True) s (rpcBdevRaidCreate s request req alloc answers) := by
  have hstep : step threads s (.rpcCreate request req alloc) = some (s.rpcCreateStart request req alloc) := by
    simp only [step, hidle, stepIdle, if_pos hn]
  have hfirst : Lib.Reach (step threads) (fun _ _ => True) s (s.rpcCreateStart request req alloc) :=
    .next .init trivial hstep
  exact hfirst.trans ((reach_turns answers _ _).mono fun _ _ _ => trivial)

/-! ## What the turns leave -/

/-- The turns so far touched only the raid bdev the request created. -/
structure Serves (s : State) (request : Nat) (u : State) (p : CreateRpc) : Prop where
  accounts : Accounts u
  rpc : u.rpc = some p
  request : p.request = request
  raid : p.raid = s.next
  mem : ∀ r, r ≠ s.next → u.mem r = s.mem r
  list : u.gRaidBdevList = s.gRaidBdevList ++ [s.next]
  replies : u.replies = s.replies
  destroyStarted : (u.raid s.next).destroyStarted = false
  error : ∀ rc, p.error = some rc → rc ≠ 0

/-- The request is answered; an error leaves the module as it was. -/
structure Served (s : State) (request : Nat) (t : State) : Prop where
  rpc : t.rpc = none
  answered : ∃ rc, t.replies = s.replies ++ [(request, rc)] ∧
    (rc ≠ 0 → Acct t ∧ t.gRaidBdevList = s.gRaidBdevList ∧ (∀ r, r ≠ s.next → t.mem r = s.mem r) ∧
      ∀ i, (t.info s.next i).desc = none)

theorem served_error (hs : Acct s) (hidle : s.rpc = none) (request : Nat) (rc : Int) :
    Served s request (s.reply (some request) rc) := by
  refine ⟨hidle, rc, rfl, fun _ => ⟨(quiet_reply _ rc).acct hs, rfl, fun _ _ => rfl, ?_⟩⟩
  intro i
  show ((s.raid s.next).slot i).desc = none
  rw [RaidBdev.slot_of_ge]
  rw [RaidBdev.numBaseBdevs, hs.fresh s.next (Nat.le_refl _)]
  exact Nat.zero_le _

/-- Deleting a raid bdev that is configuring closes all its slots. -/
theorem desc_deleting {o : RaidObject} (hconf : o.bdev.state = .configuring) (i : Nat) :
    ((o.deleting 0).dispose.bdev.slot i).desc = none := by
  by_cases hi : i < (o.deleting 0).dispose.bdev.numBaseBdevs
  · obtain ⟨info, _, heq⟩ := List.mem_map.mp (RaidBdev.slot_mem hi)
    rw [← heq, deleteSlot, if_pos (by rw [hconf]; decide)]
    rfl
  · rw [RaidBdev.slot_of_ge (Nat.le_of_not_lt hi)]

/-- The error path deletes the raid bdev, which is still configuring. -/
theorem Serves.fail {request : Nat} {p : CreateRpc} (hs : Acct s) (h : Serves s request u p) (rc : Int) :
    Served s request (u.rpcCreateFail p rc) := by
  have hmoved : Moved [] p.raid (.delete none) u (u.raidBdevDelete p.raid none) := moved_delete h.accounts.acct none
  have hacct : Acct (u.rpcCreateFail p rc) :=
    (quiet_reply _ rc).acct (acct_rpc (acct_delete h.accounts.acct none) none)
  have hconf : (u.mem p.raid).bdev.state = .configuring := (h.accounts.serving p h.rpc).state
  obtain ⟨out, hmove, hreplies⟩ := hmoved.move
  have hmem : (u.raidBdevDelete p.raid none).mem p.raid = ((u.mem p.raid).deleting 0).dispose ∧ out = [] := by
    have hstart : (u.mem p.raid).bdev.destroyStarted = false := by
      rw [h.raid]
      exact h.destroyStarted
    generalize (u.raidBdevDelete p.raid none).mem p.raid = o at hmove
    cases hmove with
    | deleteAgain hd => rw [hstart] at hd; cases hd
    | deleted _ _ => exact ⟨rfl, rfl⟩
    | deleteOffline _ _ hs' _ => rw [hconf] at hs'; cases hs'
    | deleteBusy _ _ hs' _ => rw [hconf] at hs'; cases hs'
  obtain ⟨hmem, rfl⟩ := hmem
  refine ⟨rfl, rc, ?_, fun _ => ⟨hacct, ?_, ?_, ?_⟩⟩
  · show (u.raidBdevDelete p.raid none).replies ++ [(p.request, rc)] = _
    rw [hreplies, List.append_nil, h.replies, h.request]
  · show (u.raidBdevDelete p.raid none).gRaidBdevList = _
    have hlt : (u.mem p.raid).freed < ((u.raidBdevDelete p.raid none).mem p.raid).freed := by
      rw [hmem]
      exact Nat.lt_succ_self _
    have hfresh : s.next ∉ s.gRaidBdevList := fun hmem => Nat.lt_irrefl _ (hs.listed s.next hmem)
    rw [hmoved.list, if_pos hlt, h.list, h.raid, List.erase_append_right _ hfresh]
    simp
  · intro r hr
    show (u.raidBdevDelete p.raid none).mem r = s.mem r
    rw [hmoved.frame.mem r (by rw [h.raid]; exact hr)]
    exact h.mem r hr
  · intro i
    show (((u.raidBdevDelete p.raid none).mem s.next).bdev.slot i).desc = none
    rw [← h.raid, hmem]
    exact desc_deleting hconf i

theorem Serves.add {request : Nat} {p : CreateRpc} (h : Serves s request u p) (herr : p.error = none)
    {name : String} {rest : List String} (hbase : p.baseBdevs = name :: rest) (a : Answer) :
    Served s request (u.rpcCreateAdd p name rest a) ∨
    ∃ p', Serves s request (u.rpcCreateAdd p name rest a) p' ∧
      (p'.error ≠ none ∨ (p'.error = none ∧ p'.baseBdevs = rest)) := by
  have hserv := h.accounts.serving p h.rpc
  have haccounts := accounts_rpcCreateAdd h.accounts.acct hserv herr hbase a
  have hadd := addBase_effect h.accounts.acct hserv herr name a
  unfold rpcCreateAdd at haccounts ⊢
  generalize u.raidBdevAddBaseDevice p.raid name p.slot a = out at hadd haccounts
  obtain ⟨v, rc⟩ := out
  dsimp only at hadd haccounts ⊢
  have hmem : ∀ r, r ≠ s.next → v.mem r = s.mem r := by
    intro r hr
    rw [hadd.only.mem r (by rw [h.raid]; exact hr)]
    exact h.mem r hr
  have hlist : v.gRaidBdevList = s.gRaidBdevList ++ [s.next] := hadd.only.gRaidBdevList.trans h.list
  have hreplies : v.replies = s.replies := hadd.only.replies.trans h.replies
  have hstart : (v.raid s.next).destroyStarted = false := by
    have hbuilt := hadd.built.bdev.destroyStarted
    rw [h.raid] at hbuilt
    exact hbuilt.trans h.destroyStarted
  split
  · next hrc =>
    rw [if_pos hrc] at haccounts
    refine .inr ⟨{ p with error := some rc }, ⟨haccounts, rfl, h.request, h.raid, hmem, hlist, hreplies, hstart, ?_⟩,
      .inl (Option.some_ne_none rc)⟩
    intro rc' hrc'
    obtain rfl := Option.some.inj hrc'
    exact hrc.2
  · next hrc =>
    rw [if_neg hrc] at haccounts
    split
    · left
      refine ⟨rfl, 0, ?_, fun hne => absurd rfl hne⟩
      show v.replies ++ [(p.request, 0)] = _
      rw [hreplies, h.request]
    · next hrest =>
      rw [if_neg hrest] at haccounts
      refine .inr ⟨_, ⟨haccounts, rfl, h.request, h.raid, hmem, hlist, hreplies, hstart, ?_⟩, .inr ⟨herr, rfl⟩⟩
      intro rc' hrc'
      have hrc'' : p.error = some rc' := hrc'
      rw [herr] at hrc''
      cases hrc''

/-- The loop comes to its end: each turn adds a base bdev or is the last but one. -/
theorem Serves.turns {request : Nat} (hs : Acct s) (answers : Nat → Answer) (n : Nat) : ∀ {u : State} {p : CreateRpc},
    Serves s request u p → (p.error = none → p.baseBdevs.length < n) → 0 < n →
    Served s request (createTurns answers n u) := by
  induction n with
  | zero =>
    intro u p _ _ hn
    exact absurd hn (Nat.lt_irrefl 0)
  | succ n ih =>
    intro u p h hlen _
    cases herr : p.error with
    | some rc =>
      simp only [createTurns, h.rpc, herr]
      have hserved := h.fail hs rc
      have hend : createTurns answers n (u.rpcCreateFail p rc) = u.rpcCreateFail p rc := by
        cases n with
        | zero => rfl
        | succ n => simp only [createTurns, hserved.rpc]
      rw [hend]
      exact hserved
    | none =>
      have hne := ((h.accounts.serving p h.rpc).slots herr).1
      cases hbase : p.baseBdevs with
      | nil => exact absurd hbase hne
      | cons name rest =>
        simp only [createTurns, h.rpc, herr, hbase]
        have hlen' := hlen herr
        rw [hbase, List.length_cons] at hlen'
        rcases h.add herr hbase (answers p.slot) with hserved | ⟨p', hp', hnext⟩
        · have hend : createTurns answers n (u.rpcCreateAdd p name rest (answers p.slot)) =
              u.rpcCreateAdd p name rest (answers p.slot) := by
            cases n with
            | zero => rfl
            | succ n => simp only [createTurns, hserved.rpc]
          rw [hend]
          exact hserved
        · refine ih hp' ?_ (by omega)
          intro herr'
          rcases hnext with hne' | ⟨_, hrest⟩
          · exact absurd herr' hne'
          · rw [hrest]
            omega

theorem served_create (hs : Acct s) (hidle : s.rpc = none) (request : Nat) {req : CreateRequest}
    (hn : req.baseBdevs.length ≤ rpcMaxBaseBdevs) (alloc : Bool) (answers : Nat → Answer) :
    Served s request (rpcBdevRaidCreate s request req alloc answers) := by
  have haccounts := accounts_rpcCreateStart hs hidle request alloc hn
  unfold rpcBdevRaidCreate
  unfold rpcCreateStart at haccounts ⊢
  rcases create_cases req alloc (s := s) with ⟨rc, _, heq⟩ | ⟨b, hmake, _, heq⟩
  · rw [heq]
    have hserved := served_error hs hidle request rc
    have hend : createTurns answers (req.baseBdevs.length + 1) (s.reply (some request) rc) =
        s.reply (some request) rc := by
      simp only [createTurns, hserved.rpc]
    dsimp only
    rw [hend]
    exact hserved
  · rw [heq] at haccounts ⊢
    dsimp only at haccounts ⊢
    have hserves : Serves s request
        { s.created b with rpc := some { request, raid := s.next, baseBdevs := req.baseBdevs } }
        { request, raid := s.next, baseBdevs := req.baseBdevs } := by
      refine ⟨haccounts, rfl, rfl, rfl, ?_, rfl, rfl, ?_, ?_⟩
      · intro r hr
        exact Function.update_of_ne hr _ _
      · have hraid : (s.created b).raid s.next = b := by
          simp only [State.raid, State.created, Function.update_self]
        obtain ⟨hb, _⟩ := make_eq hmake
        show ((s.created b).raid s.next).destroyStarted = false
        rw [hraid, hb]
      · intro rc hrc
        cases hrc
    exact hserves.turns hs answers _ (fun _ => Nat.lt_succ_self _) (Nat.succ_pos _)

/-- `bdev_raid_create` is atomic: in every reachable state of the module, whatever the request and
    whatever its calls return, it ends with one answer, and an error answer leaves the list of raid
    bdevs, the claims of the module, the open descriptors and all other raid bdevs as they were. -/
theorem create_atomic (h : Run threads ok s) (hidle : s.rpc = none) (request : Nat) {req : CreateRequest}
    (hn : req.baseBdevs.length ≤ rpcMaxBaseBdevs) (alloc : Bool) (answers : Nat → Answer) :
    (rpcBdevRaidCreate s request req alloc answers).rpc = none ∧
    ∃ rc, (rpcBdevRaidCreate s request req alloc answers).replies = s.replies ++ [(request, rc)] ∧ (rc ≠ 0 →
      (rpcBdevRaidCreate s request req alloc answers).gRaidBdevList = s.gRaidBdevList ∧
      (∀ b, (rpcBdevRaidCreate s request req alloc answers).claim b = .raid ↔ s.claim b = .raid) ∧
      (rpcBdevRaidCreate s request req alloc answers).descs = s.descs ∧
      ∀ r, r ≠ s.next → (rpcBdevRaidCreate s request req alloc answers).mem r = s.mem r) := by
  have hs := (run_accounts h).acct
  have hserved := served_create hs hidle request hn alloc answers
  generalize rpcBdevRaidCreate s request req alloc answers = t at hserved
  obtain ⟨rc, hreplies, hundone⟩ := hserved.answered
  refine ⟨hserved.rpc, rc, hreplies, ?_⟩
  intro hrc
  obtain ⟨ht, hlist, hmem, hclosed⟩ := hundone hrc
  -- the slots hold the same base bdevs, so the claims and descriptors are the same
  have hdesc : ∀ r i, (t.info r i).desc = (s.info r i).desc := by
    intro r i
    by_cases hr : r = s.next
    · have hnew : ((s.raid s.next).slot i).desc = none := by
        rw [RaidBdev.slot_of_ge]
        rw [RaidBdev.numBaseBdevs, hs.fresh s.next (Nat.le_refl _)]
        exact Nat.zero_le _
      rw [hr, hclosed i]
      exact hnew.symm
    · rw [info_eq, info_eq, State.raid, State.raid, hmem r hr]
  have hclaim : ∀ b, t.claim b = .raid ↔ s.claim b = .raid := by
    intro b
    constructor
    · intro hb
      obtain ⟨r, i, hi⟩ := ht.claimed b hb
      rw [hdesc] at hi
      exact hs.held r i b hi
    · intro hb
      obtain ⟨r, i, hi⟩ := hs.claimed b hb
      rw [← hdesc] at hi
      exact ht.held r i b hi
  refine ⟨hlist, hclaim, ?_, hmem⟩
  funext b
  rw [ht.descs b, hs.descs b]
  exact if_congr (hclaim b) rfl rfl

/-- A request for a raid1 array over a base bdev and itself fails at its second slot, after the
    first base bdev was claimed. -/
def twiceRequest : CreateRequest :=
  { name := "r", stripSizeKb := 0, level := .raid1, baseBdevs := ["n0", "n0"], uuid := 0, superblockEnabled := false }

theorem create_atomic_twice : ∃ s rc, Run [0, 1] (fun _ _ => True) s ∧ rc ≠ 0 ∧
    (rpcBdevRaidCreate s 0 twiceRequest true fun _ => {}).replies = [(0, rc)] ∧
    (rpcBdevRaidCreate s 0 twiceRequest true fun _ => {}).gRaidBdevList = [] ∧
    (rpcBdevRaidCreate s 0 twiceRequest true fun _ => {}).claim 0 ≠ .raid := by
  let s := State.init fourNames fourBdevs fun _ => false
  have hrun : Run [0, 1] (fun _ _ => True) s := ⟨_, _, _, .init⟩
  obtain ⟨_, rc, hreplies, hundone⟩ :=
    create_atomic hrun rfl 0 (show twiceRequest.baseBdevs.length ≤ rpcMaxBaseBdevs by decide) true fun _ => {}
  have hanswer : (rpcBdevRaidCreate s 0 twiceRequest true fun _ => {}).replies = [(0, -EPERM)] := by decide +kernel
  have hrc : rc = -EPERM := by
    rw [hreplies] at hanswer
    exact congrArg Prod.snd (List.head_eq_of_cons_eq hanswer)
  have hne : rc ≠ 0 := by
    rw [hrc]
    decide
  obtain ⟨hlist, hclaim, _⟩ := hundone hne
  refine ⟨s, rc, hrun, hne, hreplies, hlist, ?_⟩
  intro hb
  have hb' : s.claim 0 = .raid := (hclaim 0).mp hb
  cases hb'

end FlexBSO.Raid

import FlexBSO.Raid.Lifetime

/- What no interleaving of requests, base bdev events and callbacks can break. The list of
   raid bdevs has every name once and every base bdev in one slot, so that a lookup finds
   what it is asked for (`lookups_exact`). An array of a level that needs all its base bdevs
   is never online without one of them, and no removal of one is ever under way
   (`online_complete`). What the module claims is open in a raid bdev on the list, so nothing
   is left behind when the last one goes (`claims_listed`). -/
namespace FlexBSO.Raid

open State

/-! ## Lookups -/

section

variable {threads : List Nat} {shutdown : Bool} {ok : State → Event → Prop} {s t : State} {e : Event} {r i b : Nat}
  {o o' : RaidObject} {a : Act} {out : List (Nat × Int)}

/-- No act renames a raid bdev. -/
theorem Move.name (m : Move threads shutdown o a o' out) : o'.bdev.name = o.bdev.name := by
  cases m with
  | filled hb => exact hb.bdev.name
  | resized hb => exact hb.name
  | destruct hr =>
    rw [RaidObject.stopDone_bdev]
    rfl
  | stopDone hr =>
    rw [RaidObject.stopDone_bdev]
    rfl
  | _ => rfl

/-- The names on the list -/
def listedNames (s : State) : List String := s.gRaidBdevList.map fun r => (s.raid r).name

/-- A step adds a name only when no raid bdev on the list has it. -/
theorem listedNames_step (hn : (listedNames s).Nodup) (hs : Accounts s) (h : step threads s e = some t) :
    (listedNames t).Nodup := by
  have hsame (hname : ∀ x, (t.raid x).name = (s.raid x).name) (hsub : t.gRaidBdevList.Sublist s.gRaidBdevList) :
      (listedNames t).Nodup := by
    have heq : listedNames t = t.gRaidBdevList.map fun x => (s.raid x).name := by
      apply List.map_congr_left
      intro x _
      exact hname x
    rw [heq]
    exact hn.sublist (hsub.map _)
  cases step_moves hs h with
  | @act r a out extra htarget hkept hmem hmove hlist =>
    refine hsame (fun x => ?_) ?_
    · by_cases hx : x = r
      · rw [hx]
        exact hmove.name
      · rw [raid, hmem x hx, raid]
    · rw [hlist]
      split
      · exact List.erase_sublist
      · exact List.Sublist.refl _
  | idle htarget hkept hmem hlist =>
    refine hsame (fun x => by rw [raid, hmem, raid]) ?_
    rw [hlist]
  | examined htarget hrequest hkept hmem hlist =>
    refine hsame (fun x => ?_) ?_
    · rcases hmem x with heq | ⟨-, -, hb, -⟩
      · rw [raid, heq, raid]
      · exact hb.bdev.name
    · rw [hlist]
  | @created request req alloc b he hmake hname heq =>
    subst heq
    have hold : (s.gRaidBdevList.map fun x => ((s.created b).raid x).name) = listedNames s := by
      apply List.map_congr_left
      intro x hx
      have hne : x ≠ s.next := Nat.ne_of_lt (hs.acct.listed x hx)
      have hmem : (s.created b).mem x = s.mem x := Function.update_of_ne hne _ _
      rw [raid, hmem, raid]
    have hnew : ((s.created b).raid s.next).name = req.name := by
      have hmem : (s.created b).mem s.next = { bdev := b } := Function.update_self _ _ _
      rw [raid, hmem, (make_eq hmake).1]
    show ((s.gRaidBdevList ++ [s.next]).map fun x => ((s.created b).raid x).name).Nodup
    rw [List.map_append, hold, List.map_singleton, hnew]
    refine List.nodup_append.mpr ⟨hn, List.nodup_singleton _, fun x hx y hy hxy => ?_⟩
    -- the name was looked up before
    rw [List.mem_singleton.mp hy] at hxy
    obtain ⟨r, hr, rfl⟩ := List.mem_map.mp hx
    have hno := List.find?_eq_none.mp hname r hr
    exact hno (beq_iff_eq.mpr hxy)

/-- Two raid bdevs on the list have different names. -/
theorem eq_of_name (hn : (listedNames s).Nodup) {x : Nat} (hr : r ∈ s.gRaidBdevList) (hx : x ∈ s.gRaidBdevList)
    (heq : (s.raid r).name = (s.raid x).name) : r = x := List.inj_on_of_nodup_map hn hr hx heq

/-- A slot that has a base bdev open is found by it. -/
theorem findIdx_desc (hs : Acct s) (hd : (s.info r i).desc = some b) :
    ((s.raid r).baseBdevInfo.findIdx? fun info => info.desc == some b) = some i := by
  have hd' : ((s.raid r).slot i).desc = some b := hd
  have hin := RaidBdev.slot_mem (RaidBdev.lt_of_desc hd')
  cases hfind : (s.raid r).baseBdevInfo.findIdx? fun info => info.desc == some b with
  | none =>
    have hno := List.findIdx?_eq_none_iff.mp hfind _ hin
    rw [hd', beq_self_eq_true] at hno
    cases hno
  | some j =>
    obtain ⟨hlt, hj, -⟩ := List.findIdx?_eq_some_iff_getElem.mp hfind
    have hdj : (s.info r j).desc = some b := by
      rw [info_eq, RaidBdev.slot_eq_getElem hlt]
      exact eq_of_beq hj
    rw [(hs.unique r j r i b hdj hd).2]

theorem run_listedNames (h : Run threads ok s) : (listedNames s).Nodup := by
  obtain ⟨names, bdevs, claimed, hreach⟩ := h
  have hinv : Accounts s ∧ (listedNames s).Nodup := by
    refine hreach.invariant (I := fun s => Accounts s ∧ (listedNames s).Nodup) ⟨accounts_init .., List.nodup_nil⟩ ?_
    rintro s e t ⟨hs, hn⟩ - hstep
    exact ⟨accounts_step hs hstep, listedNames_step hn hs hstep⟩
  exact hinv.2

/-- In every run, whatever is created, removed and deleted in between: the names on the list of raid
    bdevs are all different and a raid bdev on the list is the one found under its name, so a name
    answers to what was created under it; and the slot that has a base bdev open is the one found for
    the base bdev. -/
theorem lookups_exact (h : Run threads ok s) : (listedNames s).Nodup ∧ ∀ r ∈ s.gRaidBdevList,
    s.raidBdevFindByName (s.raid r).name = some r ∧
    ∀ i b, (s.info r i).desc = some b → s.raidBdevFindBaseInfoByBdev b = some (r, i) := by
  have hn := run_listedNames h
  have hs := run_accounts h
  refine ⟨hn, fun r hr => ⟨?_, fun i b hd => ?_⟩⟩
  · cases hfind : s.raidBdevFindByName (s.raid r).name with
    | none =>
      have hno := List.find?_eq_none.mp hfind r hr
      exact absurd (beq_self_eq_true _) hno
    | some x =>
      have hname := List.find?_some hfind
      have hx : x ∈ s.gRaidBdevList := List.mem_of_find?_eq_some hfind
      rw [eq_of_name hn hx hr (eq_of_beq hname)]
  · cases hfind : s.raidBdevFindBaseInfoByBdev b with
    | none =>
      have hno := List.findSome?_eq_none_iff.mp hfind r hr
      rw [findIdx_desc hs.acct hd] at hno
      cases hno
    | some slot =>
      obtain ⟨x, j⟩ := slot
      obtain ⟨rfl, rfl⟩ := hs.acct.unique x j r i b (find_listed hfind).2 hd
      rfl

end

/-- Two arrays, each found under its name and by its base bdevs. -/
theorem lookups_exact_two : ∃ s : State, s.gRaidBdevList = [0, 1] ∧ s.raidBdevFindByName "q" = some 1 ∧
    s.raidBdevFindBaseInfoByBdev 2 = some (1, 0) := by
  have hm : (smallRun (fun _ _ => True) (smallCreate .raid1 2 ++
      [.rpcCreate 1 { name := "q", stripSizeKb := 4, level := .raid0, baseBdevs := ["n2"], uuid := 0, superblockEnabled := false } true,
        .rpcCreateAdd {}])).map (fun s =>
      decide (s.gRaidBdevList = [0, 1] ∧ (s.raid 1).name = "q" ∧ (s.info 1 0).desc = some 2)) = some true := by
    decide +kernel
  obtain ⟨s, hs, hv⟩ := Option.map_eq_some_iff.mp hm
  obtain ⟨hlist, hname, hdesc⟩ := of_decide_eq_true hv
  have hin : 1 ∈ s.gRaidBdevList := by
    rw [hlist]
    exact List.mem_cons_of_mem _ (List.mem_singleton_self _)
  obtain ⟨hfind, hslot⟩ := (lookups_exact (smallRun_run hs)).2 1 hin
  rw [hname] at hfind
  exact ⟨s, hlist, hfind, hslot 0 2 hdesc⟩

/-! ## Arrays without redundancy -/

/-- What every act keeps of a raid bdev that needs all its base bdevs. -/
structure RaidObject.Whole (shutdown : Bool) (o : RaidObject) : Prop where
  sized : o.bdev.minBaseBdevsOperational = o.bdev.level.module.minOperational o.bdev.numBaseBdevs
  calls : o.bdev.minBaseBdevsOperational = o.bdev.numBaseBdevs → ∀ d ∈ o.callbacks, d.slot = none
  full : o.bdev.minBaseBdevsOperational = o.bdev.numBaseBdevs → o.bdev.state = .online →
    o.bdev.numBaseBdevsDiscovered = o.bdev.numBaseBdevs
  known : .destruct ∈ o.callbacks → o.bdev.state ≠ .configuring
  leaves : .destruct ∈ o.callbacks → o.bdev.state = .online → shutdown = true

section

variable {threads : List Nat} {shutdown shutdown' : Bool} {ok : State → Event → Prop} {s t : State} {e : Event} {r : Nat}
  {o o' : RaidObject} {a : Act} {out : List (Nat × Int)}

theorem RaidObject.Whole.mono (h : o.Whole shutdown) (hs : shutdown = true → shutdown' = true) : o.Whole shutdown' :=
  ⟨h.sized, h.calls, h.full, h.known, fun hd hon => hs (h.leaves hd hon)⟩

/-- The state, the descriptors and the size stay; callbacks that are added are of no removal. -/
theorem RaidObject.Whole.keep (h : o.Whole shutdown)
    (hsize : o'.bdev.minBaseBdevsOperational = o.bdev.minBaseBdevsOperational ∧ o'.bdev.level = o.bdev.level ∧
      o'.bdev.numBaseBdevs = o.bdev.numBaseBdevs)
    (hs : o'.bdev.state = o.bdev.state) (hd : o.bdev.state = .online →
      o'.bdev.numBaseBdevsDiscovered = o.bdev.numBaseBdevsDiscovered)
    (hc : ∀ d ∈ o'.callbacks, d ∈ o.callbacks ∨ (d ≠ .destruct ∧ d.slot = none)) : o'.Whole shutdown := by
  obtain ⟨hmin, hlevel, hn⟩ := hsize
  have hdestruct (hin : .destruct ∈ o'.callbacks) : .destruct ∈ o.callbacks := by
    rcases hc _ hin with hin | ⟨hne, -⟩
    · exact hin
    · exact absurd rfl hne
  refine ⟨by rw [hmin, hlevel, hn]; exact h.sized, fun heq d hin => ?_, fun heq hon => ?_, fun hin => ?_, fun hin hon => ?_⟩
  · rw [hmin, hn] at heq
    rcases hc d hin with hin | ⟨-, hnone⟩
    · exact h.calls heq d hin
    · exact hnone
  · rw [hmin, hn] at heq
    rw [hs] at hon
    rw [hd hon, hn]
    exact h.full heq hon
  · rw [hs]
    exact h.known (hdestruct hin)
  · exact h.leaves (hdestruct hin) (hs.symm.trans hon)

/-- The raid bdev is offline. -/
theorem RaidObject.Whole.offline (h : o.Whole shutdown)
    (hsize : o'.bdev.minBaseBdevsOperational = o.bdev.minBaseBdevsOperational ∧ o'.bdev.level = o.bdev.level ∧
      o'.bdev.numBaseBdevs = o.bdev.numBaseBdevs)
    (hs : o'.bdev.state = .offline) (hc : ∀ d ∈ o'.callbacks, d ∈ o.callbacks ∨ d.slot = none) : o'.Whole shutdown := by
  obtain ⟨hmin, hlevel, hn⟩ := hsize
  have hne {x : RaidBdevState} (hx : .offline ≠ x) : o'.bdev.state ≠ x := by
    rw [hs]
    exact hx
  have honline {P : Prop} (hon : o'.bdev.state = .online) : P := absurd hon (hne (by decide))
  refine ⟨by rw [hmin, hlevel, hn]; exact h.sized, fun heq d hin => ?_, fun _ => honline, fun _ => hne (by decide), fun _ => honline⟩
  rw [hmin, hn] at heq
  rcases hc d hin with hin | hnone
  · exact h.calls heq d hin
  · exact hnone

theorem RaidObject.Whole.move (h : o.Whole shutdown) (hst : o.Steady) (hacc : o'.bdev.Accounted) (m : Move threads shutdown o a o' out) :
    o'.Whole shutdown := by
  have hsame : ∀ d ∈ o.callbacks, d ∈ o.callbacks ∨ (d ≠ .destruct ∧ d.slot = none) := fun _ hd => .inl hd
  have hsame' : ∀ d ∈ o.callbacks, d ∈ o.callbacks ∨ d.slot = none := fun _ hd => .inl hd
  have hdestruct : ∀ d ∈ o.callbacks ++ [.destruct], d ∈ o.callbacks ∨ d.slot = none := by
    intro d hd
    rcases List.mem_append.mp hd with hd | hd
    · exact .inl hd
    · rw [List.mem_singleton.mp hd]
      exact .inr rfl
  have hless (d' : Deferred) : ∀ d ∈ o.callbacks.erase d', d ∈ o.callbacks ∨ (d ≠ .destruct ∧ d.slot = none) :=
    fun _ hd => .inl (List.mem_of_mem_erase hd)
  have hmap (g : RaidBaseBdevInfo → RaidBaseBdevInfo) : (o.bdev.baseBdevInfo.map g).length = o.bdev.numBaseBdevs := List.length_map g
  have hmod {i : Nat} {f : RaidBaseBdevInfo → RaidBaseBdevInfo} : (o.bdev.modSlot i f).numBaseBdevs = o.bdev.numBaseBdevs :=
    RaidBdev.numBaseBdevs_modSlot
  have hclosed {i : Nat} {f : RaidBaseBdevInfo → RaidBaseBdevInfo} :
      ((o.bdev.modSlot i f).freeSlot i).numBaseBdevs = o.bdev.numBaseBdevs := RaidBdev.numBaseBdevs_freeSlot.trans hmod
  have hdown {P : Prop} (hs : o.bdev.state ≠ .online) (hon : o.bdev.state = .online) : P := absurd hon hs
  -- an array that needs all its base bdevs has no callback of a removal
  have hremoval {d : Deferred} {x : RaidObject} (hin : d ∈ o.callbacks) (hd : d.slot ≠ none)
      (hsize : x.bdev.minBaseBdevsOperational = o.bdev.minBaseBdevsOperational ∧ x.bdev.level = o.bdev.level ∧
        x.bdev.numBaseBdevs = o.bdev.numBaseBdevs)
      (hs : x.bdev.state = o.bdev.state) (hc : .destruct ∈ x.callbacks → .destruct ∈ o.callbacks) : x.Whole shutdown := by
    obtain ⟨hmin, hlevel, hn⟩ := hsize
    have hno {P : Prop} (heq : x.bdev.minBaseBdevsOperational = x.bdev.numBaseBdevs) : P := by
      rw [hmin, hn] at heq
      exact absurd (h.calls heq d hin) hd
    refine ⟨by rw [hmin, hlevel, hn]; exact h.sized, fun heq => hno heq, fun heq => hno heq, fun hin => ?_, fun hin hon => ?_⟩
    · rw [hs]
      exact h.known (hc hin)
    · exact h.leaves (hc hin) (hs.symm.trans hon)
  have hgives {d d' : Deferred} (hd' : d' ≠ .destruct) (hin : .destruct ∈ o.callbacks.erase d ++ [d']) : .destruct ∈ o.callbacks := by
    rcases List.mem_append.mp hin with hin | hin
    · exact List.mem_of_mem_erase hin
    · exact absurd (List.mem_singleton.mp hin).symm hd'
  have hstop {d : Deferred} {x : RaidObject} (hx : x.callbacks = o.callbacks.erase d) :
      ∀ y ∈ x.stopDone.callbacks, y ∈ o.callbacks ∨ (y ≠ .destruct ∧ y.slot = none) := by
    intro y hy
    unfold stopDone at hy
    split at hy
    · rcases List.mem_append.mp hy with hy | hy
      · rw [hx] at hy
        exact .inl (List.mem_of_mem_erase hy)
      · rw [List.mem_singleton.mp hy]
        exact .inr ⟨by simp, rfl⟩
    · rw [hx] at hy
      exact .inl (List.mem_of_mem_erase hy)
  cases m with
  | filled hb hstops hs =>
    have hcall {n : Nat} : ∀ d ∈ o.callbacks ++ List.replicate n .moduleStopDone, d ∈ o.callbacks ∨ (d ≠ .destruct ∧ d.slot = none) := by
      intro d hd
      rcases List.mem_append.mp hd with hd | hd
      · exact .inl hd
      · rw [(List.mem_replicate.mp hd).2]
        exact .inr ⟨by simp, rfl⟩
    have hsize := And.intro hb.bdev.min (And.intro hb.bdev.level hb.bdev.numBaseBdevs)
    rcases hb.outcome with ⟨hstate, -, -, n, hn⟩ | ⟨honline, -, -, ⟨n, hn⟩, hfull⟩
    · refine h.keep hsize hstate (fun hon => ?_) (hn ▸ hcall)
      cases hs.symm.trans hon
    · have hno (hin : .destruct ∈ o'.callbacks) : False := by
        rw [hn] at hin
        rcases hcall _ hin with hin | ⟨hne, -⟩
        · exact h.known hin hs
        · exact hne rfl
      refine ⟨by rw [hb.bdev.min, hb.bdev.level, hb.bdev.numBaseBdevs]; exact h.sized, fun heq d hd => ?_, fun _ _ => ?_,
        fun hin => (hno hin).elim, fun hin => (hno hin).elim⟩
      · rw [hb.bdev.min, hb.bdev.numBaseBdevs] at heq
        rw [hn] at hd
        rcases hcall d hd with hd | ⟨-, hnone⟩
        · exact h.calls heq d hd
        · exact hnone
      · rw [hacc.count]
        exact RaidBdev.opened_eq_iff.mpr hfull
  | resized hb => exact h.keep ⟨hb.min, hb.level, hb.numBaseBdevs⟩ hb.state (fun _ => hb.discovered) hsame
  | scheduled hf => exact h
  | closed hf hs hd => exact h.keep ⟨rfl, rfl, hclosed⟩ rfl (hdown hs) hsame
  | closedLast hf hs hd => exact h.keep ⟨rfl, rfl, hclosed⟩ rfl (hdown hs) hsame
  | offline hf hs hm hb => exact h.offline ⟨rfl, rfl, hmod⟩ rfl hdestruct
  | offlineBusy hf hs hm hb => exact h.offline ⟨rfl, rfl, hmod⟩ rfl hsame'
  | quiesceRefused hf hs hm hrc => exact h.keep ⟨rfl, rfl, hmod⟩ rfl (fun _ => rfl) hsame
  | @quiescing i cb rc hf hs hm hrc =>
    -- it has more base bdevs than it needs
    have hno {P : Prop} (heq : o.bdev.minBaseBdevsOperational = (o.bdev.modSlot i (scheduleSlot cb)).numBaseBdevs) : P := by
      rw [hmod] at heq
      exact absurd ((h.full heq hs).trans heq.symm) hm
    have hold (hin : .destruct ∈ o.callbacks ++ [.quiesced i]) : .destruct ∈ o.callbacks := by
      rcases List.mem_append.mp hin with hin | hin
      · exact hin
      · cases List.mem_singleton.mp hin
    have hsized : o.bdev.minBaseBdevsOperational =
        o.bdev.level.module.minOperational (o.bdev.modSlot i (scheduleSlot cb)).numBaseBdevs := by
      rw [hmod]
      exact h.sized
    exact ⟨hsized, fun heq => hno heq, fun heq => hno heq, fun hin => h.known (hold hin), fun hin => h.leaves (hold hin)⟩
  | deleteAgain hd => exact h
  | deleted hd hs =>
    refine h.keep ⟨rfl, rfl, hmap _⟩ rfl (fun hon => ?_) hsame
    rcases hs with hs | hz
    · exact hdown hs hon
    · exact hz.symm
  | deleteOffline hd hn hs hb => exact h.offline ⟨rfl, rfl, hmap _⟩ rfl hdestruct
  | deleteBusy hd hn hs hb => exact h.offline ⟨rfl, rfl, hmap _⟩ rfl hsame'
  | @destructStops rc n hr =>
    have hcall : ∀ d ∈ (o.took .destruct).callbacks ++ [.moduleStopDone], d ∈ o.callbacks ∨ (d ≠ .destruct ∧ d.slot = none) := by
      intro d hd
      rcases List.mem_append.mp hd with hd | hd
      · exact .inl (List.mem_of_mem_erase hd)
      · rw [List.mem_singleton.mp hd]
        exact .inr ⟨by simp, rfl⟩
    cases hshut : shutdown with
    | true => exact (hshut ▸ h).offline ⟨rfl, rfl, hmap _⟩ rfl fun d hd => (hcall d hd).imp id And.right
    | false =>
      refine (hshut ▸ h).keep ⟨rfl, rfl, hmap _⟩ rfl (fun hon => ?_) hcall
      cases hshut.symm.trans (h.leaves hr.1 hon)
  | @destruct rc n hr =>
    have hb := ((o.took .destruct).destructed shutdown n).stopDone_bdev
    have hcall := hstop (d := .destruct) (x := (o.took .destruct).destructed shutdown n) rfl
    have hsize : ((o.took .destruct).destructed shutdown n).stopDone.bdev.minBaseBdevsOperational = o.bdev.minBaseBdevsOperational ∧
        ((o.took .destruct).destructed shutdown n).stopDone.bdev.level = o.bdev.level ∧
        ((o.took .destruct).destructed shutdown n).stopDone.bdev.numBaseBdevs = o.bdev.numBaseBdevs := by
      rw [hb]
      exact ⟨rfl, rfl, hmap _⟩
    have hstate : ((o.took .destruct).destructed shutdown n).stopDone.bdev.state =
        if shutdown = true then .offline else o.bdev.state := by
      rw [hb]
      rfl
    by_cases hshut : shutdown = true
    · rw [if_pos hshut] at hstate
      exact h.offline hsize hstate fun d hd => (hcall d hd).imp id And.right
    · rw [if_neg hshut] at hstate
      exact h.keep hsize hstate (fun hon => absurd (h.leaves hr.1 hon) hshut) hcall
  | stopDone hr =>
    have hb := (o.took .moduleStopDone).stopDone_bdev
    have hbdev : (o.took .moduleStopDone).stopDone.bdev = o.bdev := hb
    exact h.keep (by rw [hbdev]; exact ⟨rfl, rfl, rfl⟩) (by rw [hbdev]) (fun _ => by rw [hbdev]) (hstop rfl)
  | unregistered hr hd => exact h.keep ⟨rfl, rfl, rfl⟩ rfl (fun _ => rfl) (hless _)
  | unregisteredLast hr hd => exact h.keep ⟨rfl, rfl, rfl⟩ rfl (fun _ => rfl) (hless _)
  | quiesceFailed hr hrc | unquiesceFailed hr hrc =>
    exact hremoval hr.1 (Option.some_ne_none _) ⟨rfl, rfl, hmod⟩ rfl List.mem_of_mem_erase
  | quiesced hr hrc | allVisited hr hrc =>
    exact hremoval hr.1 (Option.some_ne_none _) ⟨rfl, rfl, rfl⟩ rfl (hgives (by simp))
  | visited hr => exact hremoval hr.1 (Option.some_ne_none _) ⟨rfl, rfl, rfl⟩ rfl (hgives (by simp))
  | unquiesceRefused hr hrc => exact hremoval hr.1 (Option.some_ne_none _) ⟨rfl, rfl, rfl⟩ rfl List.mem_of_mem_erase
  | unquiesced hr hrc => exact hremoval hr.1 (Option.some_ne_none _) ⟨rfl, rfl, hclosed⟩ rfl List.mem_of_mem_erase
  | channelFailed => exact h
  | channelCreated ht ho hc => exact h.keep ⟨rfl, rfl, rfl⟩ rfl (fun _ => rfl) hsame
  | channelDestroyed => exact h.keep ⟨rfl, rfl, rfl⟩ rfl (fun _ => rfl) hsame
  | unregister hs hb =>
    refine ⟨h.sized, fun heq d hd => ?_, h.full, fun _ => ?_, fun _ _ => hs⟩
    · rcases hdestruct d hd with hd | hnone
      · exact h.calls heq d hd
      · exact hnone
    · intro hc
      cases hb.symm.trans (hst.young hc)

/-- What holds of the raid bdevs in every state. -/
structure Everywhere (s : State) : Prop where
  accounts : Accounts s
  steady : s.Steady
  whole : ∀ r, (s.mem r).Whole s.gShutdownStarted

theorem new_whole {b : RaidBdev} (hmin : b.minBaseBdevsOperational = b.level.module.minOperational b.numBaseBdevs)
    (hs : b.state = .configuring) : RaidObject.Whole shutdown { bdev := b } := by
  have hno {P : Prop} {d : Deferred} (hd : d ∈ ([] : List Deferred)) : P := absurd hd List.not_mem_nil
  refine ⟨hmin, fun _ _ hd => hno hd, fun _ hon => ?_, fun hd => hno hd, fun hd => hno hd⟩
  cases hs.symm.trans hon

theorem Everywhere.step (h : Everywhere s) (hstep : step threads s e = some t) : Everywhere t := by
  have hacc := accounts_step h.accounts hstep
  refine ⟨hacc, h.steady.step h.accounts hstep, fun x => ?_⟩
  cases step_moves h.accounts hstep with
  | @act r a out extra htarget hkept hmem hmove =>
    by_cases hx : x = r
    · rw [hx]
      exact ((h.whole r).move (h.steady.mem r).1 (hacc.acct.raids r) hmove).mono hkept.shutdown
    · rw [hmem x hx]
      exact (h.whole x).mono hkept.shutdown
  | idle htarget hkept hmem =>
    rw [hmem]
    exact (h.whole x).mono hkept.shutdown
  | examined htarget hrequest hkept hmem =>
    rcases hmem x with heq | ⟨-, ⟨i, hwait⟩, hb, hstops⟩
    · rw [heq]
      exact (h.whole x).mono hkept.shutdown
    · have m : Move threads s.gShutdownStarted (s.mem x) .fill (t.mem x) [] := .filled hb hstops hwait.state
      exact ((h.whole x).move (h.steady.mem x).1 (hacc.acct.raids x) m).mono hkept.shutdown
  | @created request req alloc b he hmake hname heq =>
    subst heq
    show ((s.created b).mem x).Whole s.gShutdownStarted
    by_cases hx : x = s.next
    · have hnew : (s.created b).mem x = { bdev := b } := hx ▸ Function.update_self _ _ _
      rw [hnew]
      obtain ⟨rfl, -⟩ := make_eq hmake
      refine new_whole ?_ rfl
      show _ = req.level.module.minOperational (List.replicate req.baseBdevs.length ({} : RaidBaseBdevInfo)).length
      rw [List.length_replicate]
    · have hold : (s.created b).mem x = s.mem x := Function.update_of_ne hx _ _
      rw [hold]
      exact h.whole x

theorem run_everywhere (h : Run threads ok s) : Everywhere s := by
  obtain ⟨names, bdevs, claimed, hreach⟩ := h
  have hstart : Everywhere (State.init names bdevs claimed) :=
    ⟨accounts_init .., steady_init .., fun _ => new_whole rfl rfl⟩
  exact hreach.invariant hstart fun _ _ _ h _ hstep => h.step hstep

/-- In every run, whatever is removed and deleted at the same time: a raid0 or concat array that is
    online has a base bdev in every slot, and no callback of a removal of one is to come. -/
theorem online_complete (h : Run threads ok s) (hlevel : (s.raid r).level = .raid0 ∨ (s.raid r).level = .concat)
    (hs : (s.raid r).state = .online) :
    (∀ i < (s.raid r).numBaseBdevs, (s.info r i).desc ≠ none) ∧ ∀ d ∈ (s.mem r).callbacks, d.slot = none := by
  have he := run_everywhere h
  have hw := he.whole r
  have hmin : (s.raid r).minBaseBdevsOperational = (s.raid r).numBaseBdevs := by
    have hsized : (s.raid r).minBaseBdevsOperational = (s.raid r).level.module.minOperational (s.raid r).numBaseBdevs := hw.sized
    rcases hlevel with hl | hl
    · rw [hsized, hl]
      rfl
    · rw [hsized, hl]
      rfl
  refine ⟨fun i hi => ?_, hw.calls hmin⟩
  have hopened : (s.raid r).opened = (s.raid r).numBaseBdevs := (he.accounts.acct.raids r).count.symm.trans (hw.full hmin hs)
  exact Option.isSome_iff_ne_none.mp (RaidBdev.opened_eq_iff.mp hopened _ (RaidBdev.slot_mem hi))

end

/-- A concat array, after a base bdev of another array was removed and that array with it. -/
theorem online_complete_concat : ∃ s : State, (s.raid 0).state = .online ∧ (s.raid 1).state = .offline ∧
    (s.raid 0).numBaseBdevs = 2 ∧ (s.info 0 1).desc ≠ none := by
  have hm : (smallRun (fun _ _ => True) (smallCreate .concat 2 ++
      [.rpcCreate 1 { name := "q", stripSizeKb := 4, level := .concat, baseBdevs := ["n2", "n3"], uuid := 1
                      superblockEnabled := false } true, .rpcCreateAdd {}, .rpcCreateAdd {},
        .rpcRemove 2 "n2" 0 0])).map (fun s =>
      decide ((s.raid 0).level = .concat ∧ (s.raid 0).state = .online ∧ (s.raid 1).state = .offline ∧
        (s.raid 0).numBaseBdevs = 2)) = some true := by
    decide +kernel
  obtain ⟨s, hs, hv⟩ := Option.map_eq_some_iff.mp hm
  obtain ⟨hlevel, honline, hoffline, hn⟩ := of_decide_eq_true hv
  have hlt : 1 < (s.raid 0).numBaseBdevs := by
    rw [hn]
    exact Nat.lt_succ_self 1
  exact ⟨s, honline, hoffline, hn, (online_complete (smallRun_run hs) (.inr hlevel) honline).1 1 hlt⟩

/-! ## Nothing is left behind -/

/-- A raid bdev that is not on the list has no base bdev open; the request in its loop has its raid bdev there. -/
structure State.Tidy (s : State) : Prop where
  unlisted : ∀ r, r ∉ s.gRaidBdevList → (s.raid r).opened = 0
  serving : ∀ p, s.rpc = some p → p.raid ∈ s.gRaidBdevList

section

variable {threads : List Nat} {shutdown : Bool} {ok : State → Event → Prop} {s t : State} {e : Event} {r : Nat}
  {o o' : RaidObject} {a : Act} {out : List (Nat × Int)} {b : RaidBdev}

theorem opened_map_le {g : RaidBaseBdevInfo → RaidBaseBdevInfo} {l : List RaidBaseBdevInfo}
    (hg : ∀ info, (g info).desc.isSome = true → info.desc.isSome = true) :
    (l.map g).countP (·.desc.isSome) ≤ l.countP (·.desc.isSome) := by
  rw [List.countP_map]
  exact List.countP_mono_left fun info _ h => hg info h

theorem opened_modSlot_eq {f : RaidBaseBdevInfo → RaidBaseBdevInfo} {i : Nat}
    (hf : ∀ info, (f info).name = info.name ∧ (f info).desc = info.desc) : (b.modSlot i f).opened = b.opened :=
  (RaidBdev.quiet_modSlot hf).opened

theorem opened_freeSlot_le {i : Nat} : (b.freeSlot i).opened ≤ b.opened := by
  have h := b.opened_freeSlot (i := i)
  omega

/-- Only filling a slot opens a base bdev, and a raid bdev that is freed has none open. -/
theorem Move.closes (m : Move threads shutdown o a o' out) (hacc : o'.bdev.Accounted) (ha : a ≠ .fill) :
    o'.bdev.opened ≤ o.bdev.opened ∧ (o.freed < o'.freed → o'.bdev.opened = 0) := by
  have hstays {x : RaidObject} (hx : x.bdev.opened ≤ o.bdev.opened) (hf : x.freed = o.freed) :
      x.bdev.opened ≤ o.bdev.opened ∧ (o.freed < x.freed → x.bdev.opened = 0) :=
    ⟨hx, fun hlt => absurd hlt (hf ▸ Nat.lt_irrefl _)⟩
  have hgoes (hx : o'.bdev.opened ≤ o.bdev.opened) (hz : o'.bdev.numBaseBdevsDiscovered = 0) :
      o'.bdev.opened ≤ o.bdev.opened ∧ (o.freed < o'.freed → o'.bdev.opened = 0) :=
    ⟨hx, fun _ => hacc.count.symm.trans hz⟩
  have hschedule {i : Nat} {cb : Option Nat} : (o.bdev.modSlot i (scheduleSlot cb)).opened = o.bdev.opened :=
    opened_modSlot_eq fun _ => ⟨rfl, rfl⟩
  have hcancel {i : Nat} : (o.bdev.modSlot i cancelSlot).opened = o.bdev.opened := opened_modSlot_eq fun _ => ⟨rfl, rfl⟩
  have hclear (info : RaidBaseBdevInfo) (h : (clearSlot info).desc.isSome = true) : info.desc.isSome = true := by cases h
  have hdelete : (o.bdev.baseBdevInfo.map (deleteSlot o.bdev.state)).countP (·.desc.isSome) ≤ o.bdev.opened := by
    refine opened_map_le fun info h => ?_
    unfold deleteSlot at h
    dsimp only at h
    split at h
    · cases h
    · exact h
  have hdestruct : (o.bdev.baseBdevInfo.map (destructSlot shutdown)).countP (·.desc.isSome) ≤ o.bdev.opened := by
    refine opened_map_le fun info h => ?_
    unfold destructSlot at h
    split at h
    · exact hclear info h
    · exact h
  cases m with
  | filled hb => exact absurd rfl ha
  | resized hb => exact hstays (Nat.le_of_eq hb.quiet.opened) rfl
  | closed hf hs hd => exact hstays (opened_freeSlot_le.trans (Nat.le_of_eq hschedule)) rfl
  | closedLast hf hs hd => exact hgoes (opened_freeSlot_le.trans (Nat.le_of_eq hschedule)) hd
  | offline hf hs hm hb | offlineBusy hf hs hm hb | quiescing hf hs hm hb => exact hstays (Nat.le_of_eq hschedule) rfl
  | quiesceRefused hf hs hm hrc => exact hstays (Nat.le_of_eq (opened_modSlot_eq fun _ => ⟨rfl, rfl⟩)) rfl
  | deleted hd hs => exact hgoes hdelete rfl
  | deleteOffline hd hn hs hb | deleteBusy hd hn hs hb => exact hstays hdelete rfl
  | destructStops hr => exact hstays hdestruct rfl
  | destruct hr =>
    refine hstays ?_ (RaidObject.stopDone_freed _)
    rw [RaidObject.stopDone_bdev]
    exact hdestruct
  | stopDone hr =>
    refine hstays ?_ (RaidObject.stopDone_freed _)
    rw [RaidObject.stopDone_bdev]
    exact Nat.le_refl _
  | unregisteredLast hr hd => exact hgoes (Nat.le_refl _) hd
  | quiesceFailed hr hrc | unquiesceFailed hr hrc => exact hstays (Nat.le_of_eq hcancel) rfl
  | unquiesced hr hrc => exact hstays (opened_freeSlot_le.trans (Nat.le_of_eq hcancel)) rfl
  | _ => exact hstays (Nat.le_refl _) rfl

theorem State.Tidy.step (h : s.Tidy) (hs : Accounts s) (hstep : step threads s e = some t) : t.Tidy := by
  have hacc := accounts_step hs hstep
  cases step_moves hs hstep with
  | @act r a out extra htarget hkept hmem hmove hlist =>
    refine ⟨fun x hx => ?_, fun p hp => ?_⟩
    · by_cases hxr : x = r
      · subst hxr
        by_cases hfill : a = .fill
        · -- the raid bdev that is filled is on the list, and stays there
          subst hfill
          obtain ⟨p, hp, rfl, -⟩ := target_fill hstep htarget
          cases hmove with
          | filled hb =>
            rw [hlist, hb.freed, if_neg (Nat.lt_irrefl _)] at hx
            exact absurd (h.serving p hp) hx
        · obtain ⟨hle, hgone⟩ := hmove.closes (hacc.acct.raids x) hfill
          by_cases hfreed : (s.mem x).freed < (t.mem x).freed
          · exact hgone hfreed
          · rw [hlist, if_neg hfreed] at hx
            have hzero : (s.mem x).bdev.opened = 0 := h.unlisted x hx
            exact Nat.le_zero.mp (hle.trans (Nat.le_of_eq hzero))
      · have hold : x ∉ s.gRaidBdevList := by
          intro hin
          apply hx
          rw [hlist]
          split
          · exact (List.mem_erase_of_ne hxr).mpr hin
          · exact hin
        rw [raid, hmem x hxr]
        exact h.unlisted x hold
    · obtain ⟨p₀, hp₀, hraid⟩ := hkept.rpc p hp
      rcases step_serving hstep hp₀ with ⟨ht, -⟩ | ⟨-, hdone⟩
      · obtain ⟨rfl, rfl⟩ := Prod.mk.inj (Option.some.inj (htarget.symm.trans ht))
        cases hmove with
        | filled hb =>
          rw [hlist, hb.freed, if_neg (Nat.lt_irrefl _), hraid]
          exact h.serving p₀ hp₀
      · cases hp.symm.trans hdone
  | idle htarget hkept hmem hlist hrpc =>
    refine ⟨fun x hx => ?_, fun p hp => ?_⟩
    · rw [raid, hmem]
      exact h.unlisted x (hlist ▸ hx)
    · rw [hlist]
      exact h.serving p (hrpc ▸ hp)
  | examined htarget hrequest hkept hmem hlist hrpc =>
    refine ⟨fun x hx => ?_, fun p hp => ?_⟩
    · rw [hlist] at hx
      rcases hmem x with heq | ⟨hin, -⟩
      · rw [raid, heq]
        exact h.unlisted x hx
      · exact absurd hin hx
    · rw [hlist]
      exact h.serving p (hrpc ▸ hp)
  | @created request req alloc b he hmake hname heq =>
    subst heq
    refine ⟨fun x hx => ?_, fun p hp => ?_⟩
    · have hx : x ∉ s.gRaidBdevList ++ [s.next] := hx
      rw [List.mem_append, List.mem_singleton, not_or] at hx
      have hmem : (s.created b).mem x = s.mem x := Function.update_of_ne hx.2 _ _
      show ((s.created b).mem x).bdev.opened = 0
      rw [hmem]
      exact h.unlisted x hx.1
    · obtain rfl := Option.some.inj hp
      exact List.mem_append_right _ (List.mem_singleton_self _)

/-- In every run, whatever goes wrong in it: a base bdev is claimed by the module exactly if a raid bdev
    on the list has it open. So when the list is empty nothing is claimed, and nothing is open. -/
theorem claims_listed (h : Run threads ok s) :
    (∀ d, s.claim d = .raid ↔ ∃ r ∈ s.gRaidBdevList, ∃ i, (s.info r i).desc = some d) ∧
    (s.gRaidBdevList = [] → ∀ d, s.claim d ≠ .raid ∧ s.descs d = 0) := by
  have hs := run_accounts h
  have htidy : s.Tidy := by
    obtain ⟨names, bdevs, claimed, hreach⟩ := h
    have hstart : Accounts (State.init names bdevs claimed) ∧ (State.init names bdevs claimed).Tidy :=
      ⟨accounts_init .., ⟨fun _ _ => rfl, fun p hp => by cases hp⟩⟩
    refine (hreach.invariant (I := fun s => Accounts s ∧ s.Tidy) hstart ?_).2
    rintro s e t ⟨hs, htidy⟩ - hstep
    exact ⟨accounts_step hs hstep, htidy.step hs hstep⟩
  have hiff (d : Nat) : s.claim d = .raid ↔ ∃ r ∈ s.gRaidBdevList, ∃ i, (s.info r i).desc = some d := by
    constructor
    · intro hd
      obtain ⟨r, i, hi⟩ := hs.acct.claimed d hd
      refine ⟨r, ?_, i, hi⟩
      by_contra hr
      have hi' : ((s.raid r).slot i).desc = some d := hi
      have hno := List.countP_eq_zero.mp (htidy.unlisted r hr) _ (RaidBdev.slot_mem (RaidBdev.lt_of_desc hi'))
      rw [hi'] at hno
      exact hno rfl
    · rintro ⟨r, -, i, hi⟩
      exact hs.acct.held r i d hi
  refine ⟨hiff, fun hnil d => ?_⟩
  have hno : s.claim d ≠ .raid := by
    intro hd
    obtain ⟨r, hr, -⟩ := (hiff d).mp hd
    rw [hnil] at hr
    cases hr
  refine ⟨hno, ?_⟩
  rw [hs.acct.descs d, if_neg hno]

end

/-- Deleting an array of three base bdevs lets all of them go. -/
theorem claims_listed_deleted : ∃ s : State, s.gRaidBdevList = [] ∧ s.replies = [(0, 0), (1, 0)] ∧
    s.claim 2 ≠ .raid ∧ s.descs 2 = 0 := by
  have hm : (smallRun (fun _ _ => True) smallDeletion).map (fun s =>
      decide (s.gRaidBdevList = [] ∧ s.replies = [(0, 0), (1, 0)])) = some true := by
    decide +kernel
  obtain ⟨s, hs, hv⟩ := Option.map_eq_some_iff.mp hm
  obtain ⟨hnil, hreplies⟩ := of_decide_eq_true hv
  exact ⟨s, hnil, hreplies, (claims_listed (smallRun_run hs)).2 hnil 2⟩

end FlexBSO.Raid

import FlexBSO.Raid.Answers
import FlexBSO.Raid.Lifetime

/- What the callbacks of a raid bdev come to. In orderly runs, once no thread has a
   channel of it, one of them can always be delivered, and each lowers the work that is
   left (`Move.works`); so after a bounded number of them none is to come, every request
   that waited is answered, and a raid bdev that was being deleted is freed
   (`callbacks_settle`). -/
namespace FlexBSO.Raid

open State

/-! ## The work that is left -/

/-- How many callbacks a callback leads to, itself included: a removal visits `n` threads. -/
def Deferred.work (n : Nat) : Deferred → Nat
  | .destruct => 3
  | .moduleStopDone => 2
  | .ioDeviceUnregister => 1
  | .quiesced _ => n + 3
  | .channelRemove _ threads => threads.length + 2
  | .unquiesced _ => 1

theorem Deferred.work_pos (n : Nat) (d : Deferred) : 0 < d.work n := by
  cases d <;> exact Nat.succ_pos _

namespace RaidObject

/-- How many callbacks of the raid bdev are to come, with those they lead to. -/
def work (n : Nat) (o : RaidObject) : Nat := (o.callbacks.map (Deferred.work n)).sum

section

variable {o o' : RaidObject} {d : Deferred} {l : List Deferred} {n : Nat}

theorem work_took (hd : d ∈ o.callbacks) (hc : o'.callbacks = o.callbacks.erase d ++ l) :
    o'.work n + d.work n = o.work n + (l.map (Deferred.work n)).sum := by
  have hperm : o.callbacks.Perm (d :: o.callbacks.erase d) := List.perm_cons_erase hd
  have hsum := (hperm.map (Deferred.work n)).sum_nat
  rw [List.map_cons, List.sum_cons] at hsum
  rw [work, work, hc, List.map_append, List.sum_append_nat, hsum]
  omega

theorem took_work {x : RaidObject} (hd : d ∈ o.callbacks) (hx : x.callbacks = o.callbacks.erase d) :
    x.work n + d.work n = o.work n := work_took hd (hx.trans (List.append_nil _).symm)

theorem work_stopDone : o.stopDone.work n ≤ o.work n + 1 := by
  unfold stopDone
  split
  · show ((o.callbacks ++ [Deferred.ioDeviceUnregister]).map (Deferred.work n)).sum ≤ _
    rw [List.map_append, List.sum_append_nat]
    exact Nat.le_refl _
  · exact Nat.le_succ _

theorem work_eq_zero (h : o.work n = 0) : o.callbacks = [] := by
  rw [work, List.sum_eq_zero_iff_forall_eq_nat] at h
  apply List.eq_nil_iff_forall_not_mem.mpr
  intro d hd
  have hz := h _ (List.mem_map_of_mem hd)
  have hpos := Deferred.work_pos n d
  omega

end

end RaidObject

section

variable {threads : List Nat} {shutdown : Bool} {o o' : RaidObject} {d : Deferred} {out : List (Nat × Int)}

/-- A callback with a good result leads to less work, and opens no channel. -/
theorem Move.works (m : Move threads shutdown o (.callback d 0) o' out) :
    o'.work threads.length < o.work threads.length ∧ (o.Idle threads → o'.Idle threads) ∧
      o'.bdev.destroyStarted = o.bdev.destroyStarted := by
  have hwork {l : List Deferred} (hd : d ∈ o.callbacks) (hc : o'.callbacks = o.callbacks.erase d ++ l)
      (hl : (l.map (Deferred.work threads.length)).sum < d.work threads.length) :
      o'.work threads.length < o.work threads.length := by
    have := RaidObject.work_took (n := threads.length) hd hc
    omega
  have hnil : o.callbacks.erase d = o.callbacks.erase d ++ [] := (List.append_nil _).symm
  have hstop {x : RaidObject} : x.stopDone.channels = x.channels := by
    unfold RaidObject.stopDone
    split <;> rfl
  cases m with
  | destructStops hr => exact ⟨hwork hr.1 rfl (by simp [Deferred.work]), id, rfl⟩
  | @destruct _ n hr =>
    have hb := ((o.took .destruct).destructed shutdown n).stopDone_bdev
    have hle : ((o.took .destruct).destructed shutdown n).stopDone.work threads.length < o.work threads.length := by
      have hstop := RaidObject.work_stopDone (o := (o.took .destruct).destructed shutdown n) (n := threads.length)
      have htook := RaidObject.took_work (n := threads.length) (x := (o.took .destruct).destructed shutdown n) hr.1 rfl
      rw [Deferred.work] at htook
      omega
    refine ⟨hle, fun hi t ht => ?_, ?_⟩
    · rw [hstop]
      exact hi t ht
    · rw [hb]
      rfl
  | stopDone hr =>
    have hb := (o.took .moduleStopDone).stopDone_bdev
    have hle : (o.took .moduleStopDone).stopDone.work threads.length < o.work threads.length := by
      have hstop := RaidObject.work_stopDone (o := o.took .moduleStopDone) (n := threads.length)
      have htook := RaidObject.took_work (n := threads.length) (x := o.took .moduleStopDone) hr.1 rfl
      rw [Deferred.work] at htook
      omega
    refine ⟨hle, fun hi t ht => ?_, congrArg RaidBdev.destroyStarted hb⟩
    rw [hstop]
    exact hi t ht
  | unregistered hr hd => exact ⟨hwork hr.1 hnil (by simp [Deferred.work]), id, rfl⟩
  | unregisteredLast hr hd => exact ⟨hwork hr.1 hnil (by simp [Deferred.work]), id, rfl⟩
  | quiesceFailed hr hrc | unquiesceFailed hr hrc | unquiesceRefused hr hrc => exact absurd rfl hrc
  | quiesced hr hrc => exact ⟨hwork hr.1 rfl (by simp [Deferred.work]), id, rfl⟩
  | @visited i thread rest _ hr =>
    refine ⟨hwork hr.1 rfl (by simp [Deferred.work]), fun hi t ht => ?_, rfl⟩
    have hnone : o.channels t = none := Option.isNone_iff_eq_none.mp (hi t ht)
    show (Function.update o.channels thread ((o.channels thread).map _) t).isNone = true
    by_cases he : t = thread
    · rw [he, Function.update_self, ← he, hnone]
      rfl
    · rw [Function.update_of_ne he, hnone]
      rfl
  | allVisited hr hrc => exact ⟨hwork hr.1 rfl (by simp [Deferred.work]), id, rfl⟩
  | unquiesced hr hrc => exact ⟨hwork hr.1 hnil (by simp [Deferred.work]), id, rfl⟩

/-- Once no thread has a channel, any callback that is to come can be delivered. -/
theorem Life.ready (h : Life shutdown o) (hi : o.Idle threads) (hd : d ∈ o.callbacks) : o.Ready threads d := by
  refine ⟨hd, fun _ => hi, fun he => ⟨hi, ?_⟩⟩
  rw [he] at hd
  rw [(h.of_ioDeviceUnregister hd).callbacks]
  rfl

end

/-! ## Until nothing is to come -/

/-- A callback of raid bdev `r`, with a good result. -/
def Event.Delivers (r : Nat) (e : Event) : Prop := ∃ d, e = .callback r d 0

/-- What stays while the callbacks of raid bdev `r` are delivered. -/
structure Settling (threads : List Nat) (r : Nat) (s₀ s : State) : Prop where
  well : s.Well threads
  rpc : s.rpc = none
  lt : r < s.next
  idle : (s.mem r).Idle threads
  destroy : (s.mem r).bdev.destroyStarted = (s₀.mem r).bdev.destroyStarted
  answers : ∀ q, (s.mem r).owed q + answersTo q s.replies = (s₀.mem r).owed q + answersTo q s₀.replies

section

variable {threads : List Nat} {s s₀ t : State} {r : Nat}

/-- A callback of the raid bdev is delivered, and less work is left. -/
theorem Settling.deliver (h : Settling threads r s₀ s) (hne : (s.mem r).callbacks ≠ []) :
    ∃ e t, Event.Delivers r e ∧ step threads s e = some t ∧ Settling threads r s₀ t ∧
      (t.mem r).work threads.length < (s.mem r).work threads.length := by
  obtain ⟨d, hd⟩ := List.exists_mem_of_ne_nil _ hne
  have hready := (h.well.lives.life r h.lt).1.ready h.idle hd
  obtain ⟨t, ht⟩ : ∃ t, step threads s (.callback r d 0) = some t := by
    refine ⟨(s.take r d).runCallback threads r d 0, ?_⟩
    unfold step
    rw [h.rpc]
    exact if_pos hready
  have hord : Orderly s (.callback r d 0) := by
    intro p hp
    obtain rfl := Option.some.inj hp
    exact trivial
  refine ⟨.callback r d 0, t, ⟨d, rfl⟩, ht, ?_, ?_⟩
  · cases step_moves h.well.accounts ht with
    | @act x a out extra htarget hkept hmem hmove hlist hturned hreplies hused =>
      obtain ⟨rfl, rfl⟩ := Prod.mk.inj (Option.some.inj htarget)
      obtain ⟨hwork, hidle, hdestroy⟩ := hmove.works
      have hanswers := fun q => hmove.answers (q := q) (h.well.steady.mem r).1 trivial
      have hextra : t.rpc = none ∧ extra = [] := by
        rw [h.rpc] at hturned
        generalize t.rpc = q at hturned
        cases hturned
        exact ⟨rfl, rfl⟩
      refine ⟨h.well.step hord ht, hextra.1, hkept.next ▸ h.lt, hidle h.idle, hdestroy.trans h.destroy, fun q => ?_⟩
      have hlost : (Act.callback d 0).lost (s.mem r) = none := by
        cases d with
        | channelRemove i ts =>
          cases ts with
          | nil => rfl
          | cons => rfl
        | _ => rfl
      have hq := hanswers q
      have hold := h.answers q
      have hasks : (Act.callback d 0).asks = none := rfl
      rw [hlost, hasks, due_none] at hq
      rw [hreplies, hextra.2, List.append_nil, answersTo_append]
      omega
    | idle htarget => cases htarget
    | examined htarget => cases htarget
    | created he => cases he
  · cases step_moves h.well.accounts ht with
    | @act x a out extra htarget hkept hmem hmove =>
      obtain ⟨rfl, rfl⟩ := Prod.mk.inj (Option.some.inj htarget)
      exact hmove.works.1
    | idle htarget => cases htarget
    | examined htarget => cases htarget
    | created he => cases he

/-- What is left of a raid bdev when no callback is to come: one that was being deleted is freed. -/
theorem Life.settled {shutdown : Bool} {o : RaidObject} (h : Life shutdown o) (hc : o.callbacks = [])
    (hd : o.bdev.destroyStarted = true) : o.freed = 1 := by
  by_cases hl : o.freed = 0
  · rcases h.idle hl hc with hy | hon | hdown
    · cases hd.symm.trans hy.destroy
    · cases hd.symm.trans hon.destroy
    · cases hd.symm.trans hdown.destroy
  · cases h with
    | gone h => exact h.freed
    | young h => exact absurd h.live hl
    | online h => exact absurd h.live hl
    | unregistering h => exact absurd h.live hl
    | stopping h | closing h => exact absurd h.live hl
    | down h => exact absurd h.live hl

/-- Every state of an orderly run, for a raid bdev of which no thread has a channel: delivering its
    callbacks ends, in at most as many steps as the callbacks are worth; then each request that waited
    for the raid bdev has its answer, and a raid bdev that was being deleted is freed and off the list. -/
theorem callbacks_settle (h : Run threads Orderly s) (hrpc : s.rpc = none) (hr : r < s.next)
    (hidle : (s.mem r).Idle threads) :
    ∃ es t, (∀ e ∈ es, Event.Delivers r e) ∧ es.length ≤ (s.mem r).work threads.length ∧
      Lib.exec (step threads) s es = some t ∧ (t.mem r).callbacks = [] ∧
      (∀ q, answersTo q t.replies = answersTo q s.replies + (s.mem r).owed q) ∧
      ((s.mem r).bdev.destroyStarted = true → (t.mem r).freed = 1 ∧ r ∉ t.gRaidBdevList) := by
  have hstart : Settling threads r s s := ⟨run_well h, hrpc, hr, hidle, rfl, fun _ => rfl⟩
  have hdrain : ∀ u, Settling threads r s u → (u.mem r).work threads.length ≠ 0 → ∃ e v, Event.Delivers r e ∧
      step threads u e = some v ∧ Settling threads r s v ∧ (v.mem r).work threads.length < (u.mem r).work threads.length := by
    intro u hu hwork
    refine hu.deliver fun hc => hwork ?_
    rw [RaidObject.work, hc]
    rfl
  obtain ⟨es, t, hes, hlen, ht, hsettled, hzero⟩ := Lib.exec_drain hdrain hstart
  have hc := RaidObject.work_eq_zero hzero
  obtain ⟨hlife, -⟩ := hsettled.well.lives.life r hsettled.lt
  refine ⟨es, t, hes, hlen, ht, hc, fun q => ?_, fun hd => ?_⟩
  · have hq := hsettled.answers q
    have hzero := (hsettled.well.steady.mem r).2.owed_zero (q := q) hc
    omega
  · have hfreed := hlife.settled hc (hsettled.destroy.trans hd)
    refine ⟨hfreed, fun hin => ?_⟩
    have hlive := ((hsettled.well.lives.listed r).mp hin).2
    omega

/-- A raid1 array that is being deleted: three callbacks free it and answer request 1. -/
theorem callbacks_settle_deletion : ∃ (s : State) (es : List Event) (t : State), s.replies = [(0, 0)] ∧ es.length ≤ 3 ∧
    Lib.exec (step [0, 1]) s es = some t ∧ answersTo 1 t.replies = 1 ∧ (t.mem 0).freed = 1 := by
  have hm : (smallRun Orderly (smallCreate .raid1 3 ++ [.rpcDelete 1 "r"])).map (fun s =>
      decide (s.next = 1 ∧ s.rpc = none ∧ (s.mem 0).Idle [0, 1] ∧ (s.mem 0).callbacks = [.destruct] ∧
        (s.mem 0).bdev.destroyStarted = true ∧ (s.mem 0).owed 1 = 1 ∧ s.replies = [(0, 0)])) = some true := by
    decide +kernel
  obtain ⟨s, hs, hv⟩ := Option.map_eq_some_iff.mp hm
  obtain ⟨hnext, hrpc, hidle, hcallbacks, hdestroy, howed, hreplies⟩ := of_decide_eq_true hv
  have hzero : 0 < s.next := by
    rw [hnext]
    exact Nat.one_pos
  obtain ⟨es, t, -, hlen, ht, -, hanswers, hfreed⟩ := callbacks_settle (smallRun_run hs) hrpc hzero hidle
  have hone := hanswers 1
  rw [RaidObject.work, hcallbacks] at hlen
  rw [howed, hreplies] at hone
  exact ⟨s, es, t, hreplies, hlen, ht, hone, (hfreed hdestroy).1⟩

end

end FlexBSO.Raid

import Mathlib.Data.List.Basic

/- Machines whose every choice is in the event: `step s e` is the state after
   event `e`, or `none` where `e` cannot happen in `s`. `Reach step ok s₀ s` is
   reachability through events that `ok` allows in the state before them; with
   `ok` left open a result speaks of every run at once, and a condition on a run
   is a condition on its steps. `Reach.invariant` is the only induction the
   developments over it need; `Reach.ofRun` turns a run given as a list of events
   into reachability, so that a concrete run can be evaluated. -/
namespace FlexBSO.Lib

variable {σ ε : Type}

/-- Reachability from `s₀` through events allowed by `ok`. -/
inductive Reach (step : σ → ε → Option σ) (ok : σ → ε → Prop) (s₀ : σ) : σ → Prop where
  | init : Reach step ok s₀ s₀
  | next {s t : σ} {e : ε} : Reach step ok s₀ s → ok s e → step s e = some t → Reach step ok s₀ t

/-- The state after a list of events. -/
def exec (step : σ → ε → Option σ) : σ → List ε → Option σ
  | s, [] => some s
  | s, e :: es => (step s e).bind fun t => exec step t es

/-- The state after a list of events, each allowed in the state it happens in. -/
def execIf (step : σ → ε → Option σ) (ok : σ → ε → Prop) [∀ s e, Decidable (ok s e)] : σ → List ε → Option σ
  | s, [] => some s
  | s, e :: es => if ok s e then (step s e).bind fun t => execIf step ok t es else none

/-- Every event of the list is allowed in the state it happens in. -/
def Allowed (step : σ → ε → Option σ) (ok : σ → ε → Prop) : σ → List ε → Prop
  | _, [] => True
  | s, e :: es => ok s e ∧ ∀ t, step s e = some t → Allowed step ok t es

namespace Reach

variable {step : σ → ε → Option σ} {ok ok' : σ → ε → Prop} {s₀ s t : σ}

/-- What holds at the start and survives every allowed step holds everywhere. -/
theorem invariant {I : σ → Prop} (h : Reach step ok s₀ s) (h0 : I s₀)
    (hs : ∀ s e t, I s → ok s e → step s e = some t → I t) : I s := by
  induction h with
  | init => exact h0
  | next _ hok hst ih => exact hs _ _ _ ih hok hst

theorem mono (h : Reach step ok s₀ s) (hok : ∀ s e, ok s e → ok' s e) : Reach step ok' s₀ s := by
  induction h with
  | init => exact .init
  | next _ ho hst ih => exact .next ih (hok _ _ ho) hst

theorem trans (h : Reach step ok s₀ s) (h' : Reach step ok s t) : Reach step ok s₀ t := by
  induction h' with
  | init => exact h
  | next _ ho hst ih => exact .next ih ho hst

/-- A run given as a list of events leads to a reachable state. -/
theorem ofRun [∀ s e, Decidable (ok s e)] : ∀ {s : σ} (es : List ε), Reach step ok s₀ s →
    execIf step ok s es = some t → Reach step ok s₀ t
  | s, [], h, he => by
    obtain rfl := Option.some.inj he
    exact h
  | s, e :: es, h, he => by
    unfold execIf at he
    split at he
    · next hok =>
      obtain ⟨u, hu, hrest⟩ := Option.bind_eq_some_iff.mp he
      exact ofRun es (.next h hok hu) hrest
    · cases he

end Reach

/-- What allows `n` more steps and allows less after each of them: no allowed run is longer than `n`. -/
theorem run_length_le {step : σ → ε → Option σ} {ok : σ → ε → Prop} {I : Nat → σ → Prop}
    (hstep : ∀ n s e t, I n s → ok s e → step s e = some t → ∃ m, m < n ∧ I m t) :
    ∀ (es : List ε) {n : Nat} {s t : σ}, I n s → Allowed step ok s es → exec step s es = some t → es.length ≤ n := by
  intro es
  induction es with
  | nil => exact fun _ _ _ => Nat.zero_le _
  | cons e es ih =>
    intro n s t hs ha he
    obtain ⟨u, hu, hrest⟩ := Option.bind_eq_some_iff.mp he
    obtain ⟨m, hm, hi⟩ := hstep n s e u hs ha.1 hu
    have hlen := ih hi (ha.2 u hu) hrest
    rw [List.length_cons]
    omega

/-- From there some run ends in a state that allows no event. -/
theorem run_ends {step : σ → ε → Option σ} {ok : σ → ε → Prop} {I : Nat → σ → Prop}
    (hstep : ∀ n s e t, I n s → ok s e → step s e = some t → ∃ m, m < n ∧ I m t) {n : Nat} {s : σ} (h : I n s) :
    ∃ t, Reach step ok s t ∧ ∀ e u, ok t e → step t e ≠ some u := by
  induction n using Nat.strongRecOn generalizing s with
  | ind n ih =>
    by_cases hmore : ∃ e t, ok s e ∧ step s e = some t
    · obtain ⟨e, t, hok, ht⟩ := hmore
      obtain ⟨m, hm, hi⟩ := hstep n s e t h hok ht
      obtain ⟨u, hu, hend⟩ := ih m hm hi
      exact ⟨u, (Reach.next .init hok ht).trans hu, hend⟩
    · exact ⟨s, .init, fun e u hok hu => hmore ⟨e, u, hok, hu⟩⟩

/-- What some event of kind `P` lowers, as long as it is not zero, is run down to zero by such events. -/
theorem exec_drain {step : σ → ε → Option σ} {P : ε → Prop} {I : σ → Prop} {m : σ → Nat}
    (hstep : ∀ s, I s → m s ≠ 0 → ∃ e t, P e ∧ step s e = some t ∧ I t ∧ m t < m s) :
    ∀ {s : σ}, I s → ∃ es t, (∀ e ∈ es, P e) ∧ es.length ≤ m s ∧ exec step s es = some t ∧ I t ∧ m t = 0 := by
  intro s
  induction hn : m s using Nat.strongRecOn generalizing s with
  | ind n ih =>
    intro hs
    by_cases hz : m s = 0
    · exact ⟨[], s, fun _ h => absurd h List.not_mem_nil, Nat.zero_le _, rfl, hs, hz⟩
    · -- the event that lowers it, then the run from there
      obtain ⟨e, u, he, hu, hi, hlt⟩ := hstep s hs hz
      obtain ⟨es, t, hes, hlen, ht, hit, hzero⟩ := ih (m u) (hn ▸ hlt) rfl hi
      refine ⟨e :: es, t, ?_, ?_, ?_, hit, hzero⟩
      · intro x hx
        rcases List.mem_cons.mp hx with rfl | hx
        · exact he
        · exact hes x hx
      · rw [List.length_cons]
        omega
      · rw [exec, hu]
        exact ht

end FlexBSO.Lib

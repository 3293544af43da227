import FlexBSO.Raid.Raid1
import Mathlib.Data.List.Basic

/- A write of raid1 and its legs. The legs a write skips because their base channel is
   missing, those it hands a child, and those it gives up after an error all come off
   one count; another count says where to go on after an `-ENOMEM`. The counts are right in
   every run, so that a write is completed once. But skipping counts as success, and a
   write that skips every leg succeeds: `write_stored_iff`. -/
namespace FlexBSO.Raid

open RaidBdev (IoChannel)
open FlexBSO.Lib

/-- A step of one write, on base channels that stay as they are: none is taken away before the
    requests of the raid bdev are quiesced. -/
def writeStep (r : RaidBdev) (ch : IoChannel) (s : Raid1Io) (e : Raid1Io.Event) : Option Raid1Io :=
  (Raid1Io.step r ch s e).map (·.2)

/-- The states of a write, from its submission on. -/
def WriteRun (r : RaidBdev) (ch : IoChannel) (request : RaidIo) (s : Raid1Io) : Prop :=
  ∃ rets s₀, Raid1Io.raid1SubmitRwRequest r ch rets { request } = some (ch, s₀) ∧
    Reach (writeStep r ch) (fun _ _ => True) s₀ s

/-- A write is completed once, after its children, and not forgotten; when it succeeds, it is stored
    on a leg, and on all whose base channel is there. -/
structure WriteStored (r : RaidBdev) (ch : IoChannel) (s : Raid1Io) : Prop where
  once : s.completions.length ≤ 1
  last : s.completions ≠ [] → s.children = [] ∧ s.waits = 0
  ends : s.children = [] → s.waits = 0 → s.completions.length = 1
  stored : .success ∈ s.completions → s.successful ≠ [] ∧
    ∀ idx, idx < r.numBaseBdevs → ch.baseChannel idx = true → idx ∈ s.accepted ∧ idx ∈ s.successful

/-- The legs the write has come to, and what became of their children. -/
structure LegsAt (ch : IoChannel) (s : Raid1Io) : Prop where
  accepted : s.accepted = (List.range s.baseBdevIoSubmitted).filter ch.baseChannel
  kept : s.baseBdevIoStatus = .success → ∀ idx ∈ s.accepted, idx ∈ s.children ∨ idx ∈ s.successful

/-- The write is not through its legs: those left and the children in flight are still counted. -/
structure Going (n : Nat) (ch : IoChannel) (s : Raid1Io) : Prop where
  le : s.baseBdevIoSubmitted ≤ n
  count : s.baseBdevIoRemaining + s.baseBdevIoSubmitted = n + s.children.length
  children_le : s.children.length ≤ s.baseBdevIoSubmitted
  completions : s.completions = []
  legs : LegsAt ch s

/-- Where a write stands: waiting to go on with its legs, waiting for its children, or completed. -/
inductive WriteStage (n : Nat) (ch : IoChannel) (s : Raid1Io) : Prop where
  | wait (going : Going n ch s) (more : s.baseBdevIoSubmitted < n) (waits : s.waits = 1)
  | past (waits : s.waits = 0) (completions : s.completions = [])
      (count : s.baseBdevIoRemaining = s.children.length) (pos : 0 < s.children.length)
      (le : s.children.length ≤ n) (legs : LegsAt ch s)
      (full : s.baseBdevIoStatus = .success → s.baseBdevIoSubmitted = n)
  | done (waits : s.waits = 0) (children : s.children = []) (completions : s.completions = [s.baseBdevIoStatus])
      (legs : LegsAt ch s) (full : s.baseBdevIoStatus = .success → s.baseBdevIoSubmitted = n)

section legs
variable {r : RaidBdev} {ch : IoChannel} {n : Nat} {s t : Raid1Io}

/-- What stands after all runs of a write to an array with a leg. -/
theorem WriteStage.stored (h : WriteStage r.numBaseBdevs ch s)
    (hleg : ∃ idx, idx < r.numBaseBdevs ∧ ch.baseChannel idx = true) : WriteStored r ch s := by
  cases h with
  | wait going more waits =>
    refine ⟨by simp [going.completions], fun hc => absurd going.completions hc, fun _ hw => by omega, ?_⟩
    rw [going.completions]
    intro hc
    cases hc
  | past waits completions count pos le legs full =>
    refine ⟨by simp [completions], fun hc => absurd completions hc, fun hc _ => by simp [hc] at pos, ?_⟩
    rw [completions]
    intro hc
    cases hc
  | done waits children completions legs full =>
    refine ⟨by simp [completions], fun _ => ⟨children, waits⟩, fun _ _ => by simp [completions], fun hc => ?_⟩
    rw [completions, List.mem_singleton] at hc
    have hall : ∀ idx, idx < r.numBaseBdevs → ch.baseChannel idx = true →
        idx ∈ s.accepted ∧ idx ∈ s.successful := by
      intro idx hidx hch
      have hacc : idx ∈ s.accepted := by
        rw [legs.accepted, full hc.symm]
        exact List.mem_filter.mpr ⟨List.mem_range.mpr hidx, hch⟩
      refine ⟨hacc, ?_⟩
      rcases legs.kept hc.symm idx hacc with hin | hin
      · rw [children] at hin
        cases hin
      · exact hin
    obtain ⟨idx, hidx, hch⟩ := hleg
    exact ⟨List.ne_nil_of_mem (hall idx hidx hch).2, hall⟩

/-- A part that is not the last. -/
theorem Raid1Io.completePart_more {completed : Nat} {status : IoStatus} (h : completed < s.baseBdevIoRemaining)
    (hlt : s.baseBdevIoRemaining < 2 ^ 64) :
    s.raidBdevIoCompletePart completed status = { s with
      baseBdevIoRemaining := s.baseBdevIoRemaining - completed
      baseBdevIoStatus := if status ≠ .success then status else s.baseBdevIoStatus } := by
  rw [raidBdevIoCompletePart, sub64_of_le (by omega) hlt]
  exact if_neg (by omega)

/-- The last part. -/
theorem Raid1Io.completePart_last {completed : Nat} {status : IoStatus} (h : s.baseBdevIoRemaining = completed)
    (hlt : completed < 2 ^ 64) :
    s.raidBdevIoCompletePart completed status = { s with
      baseBdevIoRemaining := 0
      baseBdevIoStatus := if status ≠ .success then status else s.baseBdevIoStatus
      completions := s.completions ++ [if status ≠ .success then status else s.baseBdevIoStatus] } := by
  rw [raidBdevIoCompletePart, h, sub64_of_le (Nat.le_refl _) hlt, Nat.sub_self]
  exact if_pos rfl

/-- The legs after one more that is missing, or that accepts its child. -/
theorem LegsAt.next (h : LegsAt ch s) (hs : t.baseBdevIoSubmitted = s.baseBdevIoSubmitted + 1)
    (hacc : t.accepted = s.accepted ++ if ch.baseChannel s.baseBdevIoSubmitted = true then
      [s.baseBdevIoSubmitted] else [])
    (hkept : t.baseBdevIoStatus = .success → s.baseBdevIoStatus = .success)
    (hin : ∀ idx ∈ t.accepted, idx ∈ s.accepted ∨ idx ∈ t.children) (hch : ∀ idx ∈ s.children, idx ∈ t.children)
    (hsuc : t.successful = s.successful) : LegsAt ch t := by
  constructor
  · rw [hacc, hs, List.range_succ, List.filter_append, h.accepted]
    congr 1
    by_cases hp : ch.baseChannel s.baseBdevIoSubmitted = true
    · simp [hp]
    · simp [hp]
  · intro hst idx hidx
    rcases hin idx hidx with hidx | hidx
    · rcases h.kept (hkept hst) idx hidx with hc | hc
      · exact .inl (hch idx hc)
      · exact .inr (hsuc ▸ hc)
    · exact .inl hidx

/-- The loop over the legs, from any of them on: induction over those left. -/
theorem Going.loop (rets : Nat → Int) (hn : r.numBaseBdevs ≤ 255) (m : Nat) : ∀ {s : Raid1Io}, Going r.numBaseBdevs ch s → s.waits = 0 →
    s.baseBdevIoSubmitted + m = r.numBaseBdevs → s.baseBdevIoRemaining ≠ 0 →
    WriteStage r.numBaseBdevs ch
      (Raid1Io.raid1WriteLoop r ch rets s (List.range' s.baseBdevIoSubmitted m)).1 ∧
    ((Raid1Io.raid1WriteLoop r ch rets s (List.range' s.baseBdevIoSubmitted m)).2 = true →
      (Raid1Io.raid1WriteLoop r ch rets s (List.range' s.baseBdevIoSubmitted m)).1.baseBdevIoSubmitted =
        r.numBaseBdevs) := by
  induction m with
  | zero =>
    intro s h hw hm hrem
    have hcount := h.count
    have hle := h.children_le
    have hfull : s.baseBdevIoSubmitted = r.numBaseBdevs := by omega
    have hpast : WriteStage r.numBaseBdevs ch s :=
      .past hw h.completions (by omega) (by omega) (by omega) h.legs fun _ => hfull
    exact ⟨hpast, fun _ => hfull⟩
  | succ m ih =>
    intro s h hw hm hrem
    have hcount := h.count
    have hle := h.children_le
    have hu8 : u8 (s.baseBdevIoSubmitted + 1) = s.baseBdevIoSubmitted + 1 := Nat.mod_eq_of_lt (by omega)
    rw [List.range'_succ, Raid1Io.raid1WriteLoop]
    by_cases hmiss : ch.baseChannel s.baseBdevIoSubmitted = false
    · -- a missing leg is passed over
      rw [if_pos hmiss]
      have hnot : ¬ ch.baseChannel s.baseBdevIoSubmitted = true := by rw [hmiss]; decide
      by_cases hlast : s.baseBdevIoRemaining = 1
      · -- nothing is in flight any more, and this was the last leg
        obtain rfl : m = 0 := by omega
        have hchildren : s.children = [] := List.eq_nil_of_length_eq_zero (by omega)
        rw [Raid1Io.completePart_last (s := s.countSubmitted) hlast (by norm_num)]
        have hlegs : LegsAt ch { s.countSubmitted with
            baseBdevIoRemaining := 0, completions := s.completions ++ [s.baseBdevIoStatus] } :=
          h.legs.next hu8 (by rw [if_neg hnot, List.append_nil]; rfl) id (fun idx hidx => .inl hidx)
            (fun idx hidx => hidx) rfl
        refine ⟨.done hw hchildren ?_ hlegs fun _ => ?_, fun _ => ?_⟩
        · show s.completions ++ [s.baseBdevIoStatus] = [s.baseBdevIoStatus]
          rw [h.completions]
          rfl
        all_goals
          show u8 (s.baseBdevIoSubmitted + 1) = r.numBaseBdevs
          omega
      · rw [Raid1Io.completePart_more (s := s.countSubmitted) (show 1 < s.baseBdevIoRemaining by omega)
          (show s.baseBdevIoRemaining < 2 ^ 64 by omega), ← hu8]
        refine ih (s := { s.countSubmitted with baseBdevIoRemaining := s.baseBdevIoRemaining - 1 }) ?_ hw ?_ ?_
        · refine ⟨?_, ?_, ?_, h.completions, ?_⟩
          · show u8 (s.baseBdevIoSubmitted + 1) ≤ r.numBaseBdevs
            omega
          · show s.baseBdevIoRemaining - 1 + u8 (s.baseBdevIoSubmitted + 1) = r.numBaseBdevs + s.children.length
            omega
          · show s.children.length ≤ u8 (s.baseBdevIoSubmitted + 1)
            omega
          · exact h.legs.next hu8 (by rw [if_neg hnot, List.append_nil]; rfl) id (fun idx hidx => .inl hidx)
              (fun idx hidx => hidx) rfl
        · show u8 (s.baseBdevIoSubmitted + 1) + m = r.numBaseBdevs
          omega
        · show s.baseBdevIoRemaining - 1 ≠ 0
          omega
    · rw [if_neg hmiss]
      have hpresent : ch.baseChannel s.baseBdevIoSubmitted = true := by simpa using hmiss
      by_cases h0 : rets s.baseBdevIoSubmitted = 0
      · -- the leg accepts its child
        rw [if_pos h0, ← hu8]
        refine ih (s := (s.accept s.baseBdevIoSubmitted).countSubmitted) ?_ hw ?_ hrem
        · refine ⟨?_, ?_, ?_, h.completions, ?_⟩
          · show u8 (s.baseBdevIoSubmitted + 1) ≤ r.numBaseBdevs
            omega
          · show s.baseBdevIoRemaining + u8 (s.baseBdevIoSubmitted + 1) =
              r.numBaseBdevs + (s.children ++ [s.baseBdevIoSubmitted]).length
            rw [List.length_append, List.length_singleton]
            omega
          · show (s.children ++ [s.baseBdevIoSubmitted]).length ≤ u8 (s.baseBdevIoSubmitted + 1)
            rw [List.length_append, List.length_singleton]
            omega
          · refine h.legs.next hu8 (by rw [if_pos hpresent]; rfl) id ?_ ?_ rfl
            · intro idx hidx
              rcases List.mem_append.mp hidx with hidx | hidx
              · exact .inl hidx
              · exact .inr (List.mem_append_right _ hidx)
            · intro idx hidx
              exact List.mem_append_left _ hidx
        · show u8 (s.baseBdevIoSubmitted + 1) + m = r.numBaseBdevs
          omega
      · rw [if_neg h0]
        by_cases h1 : rets s.baseBdevIoSubmitted = -ENOMEM
        · rw [if_pos h1]
          refine ⟨.wait ⟨h.le, h.count, h.children_le, h.completions, h.legs.accepted, h.legs.kept⟩ ?_ ?_, fun hc => by cases hc⟩
          · show s.baseBdevIoSubmitted < r.numBaseBdevs
            omega
          · show s.waits + 1 = 1
            omega
        · -- the legs not submitted are given up, all at once
          rw [if_neg h1]
          refine ⟨?_, fun hc => by cases hc⟩
          have hsub : sub64 r.numBaseBdevs s.baseBdevIoSubmitted = r.numBaseBdevs - s.baseBdevIoSubmitted :=
            sub64_of_le (by omega) (by omega)
          rw [hsub]
          by_cases hlast : s.children = []
          · have hnil : s.children.length = 0 := by rw [hlast]; rfl
            rw [Raid1Io.completePart_last (by omega) (by omega)]
            refine .done hw hlast ?_ ⟨h.legs.accepted, fun hc => by cases hc⟩ fun hc => by cases hc
            show s.completions ++ [IoStatus.failed] = [IoStatus.failed]
            rw [h.completions]
            rfl
          · have hpos : 0 < s.children.length := List.length_pos_iff.mpr hlast
            rw [Raid1Io.completePart_more (by omega) (by omega)]
            refine .past hw h.completions ?_ hpos (Nat.le_trans hle h.le) ⟨h.legs.accepted, fun hc => by cases hc⟩
              fun hc => by cases hc
            show s.baseBdevIoRemaining - (r.numBaseBdevs - s.baseBdevIoSubmitted) = s.children.length
            omega

/-- A submission, the first one or after an `-ENOMEM`. -/
theorem Going.submit (rets : Nat → Int) (hn : 1 ≤ r.numBaseBdevs) (hn' : r.numBaseBdevs ≤ 255) (h : Going r.numBaseBdevs ch s)
    (hmore : s.baseBdevIoSubmitted < r.numBaseBdevs) (hw : s.waits = 0) (htype : s.request.type = .write) :
    ∃ t, Raid1Io.raid1SubmitRwRequest r ch rets s = some (ch, t) ∧ WriteStage r.numBaseBdevs ch t := by
  have hcount := h.count
  have hle := h.children_le
  have hfirst : (if s.baseBdevIoSubmitted = 0 then { s with baseBdevIoRemaining := r.numBaseBdevs } else s) = s := by
    split
    · have hrem : r.numBaseBdevs = s.baseBdevIoRemaining := by omega
      rw [hrem]
    · rfl
  obtain ⟨hstage, hended⟩ := h.loop rets hn' (r.numBaseBdevs - s.baseBdevIoSubmitted) hw (by omega) (by omega)
  refine ⟨_, ?_, hstage⟩
  unfold Raid1Io.raid1SubmitRwRequest Raid1Io.raid1SubmitWriteRequest
  rw [htype, hfirst]
  dsimp only
  rw [if_neg (fun hc => by have := hended hc.1; omega)]
  rfl

theorem mem_eraseIdx_or {l : List Nat} {j idx : Nat} (hj : j < l.length) (h : idx ∈ l) :
    idx ∈ l.eraseIdx j ∨ idx = l.getD j 0 := by
  obtain ⟨k, hk, rfl⟩ := List.mem_iff_getElem.mp h
  by_cases hkj : k = j
  · subst hkj
    rw [List.getD_eq_getElem?_getD, List.getElem?_eq_getElem hk]
    exact .inr rfl
  · exact .inl (List.mem_eraseIdx_iff_getElem.mpr ⟨k, hk, hkj, rfl⟩)

/-- The legs after a child completed, whatever else was counted. -/
theorem LegsAt.complete {j : Nat} {success : Bool} (h : LegsAt ch s) (hj : j < s.children.length)
    (hs : t.baseBdevIoSubmitted = s.baseBdevIoSubmitted) (hacc : t.accepted = s.accepted)
    (hch : t.children = s.children.eraseIdx j)
    (hsuc : t.successful = if success then s.successful ++ [s.children.getD j 0] else s.successful)
    (hst : t.baseBdevIoStatus = .success → success = true ∧ s.baseBdevIoStatus = .success) : LegsAt ch t := by
  refine ⟨by rw [hacc, hs, h.accepted], fun hok idx hidx => ?_⟩
  obtain ⟨rfl, hok⟩ := hst hok
  rw [hacc] at hidx
  rw [hch, hsuc, if_pos rfl]
  rcases h.kept hok idx hidx with hin | hin
  · rcases mem_eraseIdx_or hj hin with hin | rfl
    · exact .inl hin
    · exact .inr (List.mem_append_right _ (List.mem_singleton_self _))
  · exact .inr (List.mem_append_left _ hin)

theorem status_of_part {success : Bool} {status : IoStatus}
    (h : (if (if success then IoStatus.success else .failed) ≠ .success then
      (if success then IoStatus.success else .failed) else status) = .success) :
    success = true ∧ status = .success := by
  cases success with
  | true => exact ⟨rfl, h⟩
  | false => cases h

/-- A child completes. -/
theorem WriteStage.complete {j : Nat} {success : Bool} (h : WriteStage n ch s) (hn : n ≤ 255)
    (hj : j < s.children.length) : WriteStage n ch (s.raid1BdevIoCompletion j success) := by
  have hlen : (s.children.eraseIdx j).length = s.children.length - 1 := List.length_eraseIdx_of_lt hj
  have hmore (hm : 1 < s.baseBdevIoRemaining) (hlt : s.baseBdevIoRemaining < 2 ^ 64) :
      s.raid1BdevIoCompletion j success = _ := Raid1Io.completePart_more (s := { s with
    children := s.children.eraseIdx j
    successful := if success then s.successful ++ [s.children.getD j 0] else s.successful }) hm hlt
  have hone (hm : s.baseBdevIoRemaining = 1) :
      s.raid1BdevIoCompletion j success = _ := Raid1Io.completePart_last (s := { s with
    children := s.children.eraseIdx j
    successful := if success then s.successful ++ [s.children.getD j 0] else s.successful }) hm (by norm_num)
  cases h with
  | wait going more waits =>
    have hcount := going.count
    have hle := going.children_le
    rw [hmore (by omega) (by omega)]
    refine .wait ⟨going.le, ?_, ?_, going.completions, ?_⟩ more waits
    · show s.baseBdevIoRemaining - 1 + s.baseBdevIoSubmitted = n + (s.children.eraseIdx j).length
      omega
    · show (s.children.eraseIdx j).length ≤ s.baseBdevIoSubmitted
      omega
    · exact going.legs.complete hj rfl rfl rfl rfl status_of_part
  | past waits completions count pos le legs full =>
    by_cases hlast : s.children.length = 1
    · rw [hone (by omega)]
      refine .done waits ?_ ?_ (legs.complete hj rfl rfl rfl rfl status_of_part) fun hst => full (status_of_part hst).2
      · show s.children.eraseIdx j = []
        exact List.eq_nil_of_length_eq_zero (by omega)
      · show s.completions ++ [_] = [_]
        rw [completions]
        rfl
    · rw [hmore (by omega) (by omega)]
      refine .past waits completions ?_ ?_ ?_ (legs.complete hj rfl rfl rfl rfl status_of_part) fun hst =>
        full (status_of_part hst).2
      · show s.baseBdevIoRemaining - 1 = (s.children.eraseIdx j).length
        omega
      · show 0 < (s.children.eraseIdx j).length
        omega
      · show (s.children.eraseIdx j).length ≤ n
        omega
  | done waits children =>
    rw [children] at hj
    cases hj

theorem completePart_request (completed : Nat) (status : IoStatus) :
    (s.raidBdevIoCompletePart completed status).request = s.request := by
  rw [Raid1Io.raidBdevIoCompletePart]
  generalize sub64 s.baseBdevIoRemaining completed = remaining
  by_cases h : remaining = 0
  · simp [h, Raid1Io.raidBdevIoComplete]
  · simp [h]

theorem bdevIoCompletion_request (j : Nat) (success : Bool) :
    (s.raid1BdevIoCompletion j success).request = s.request := by
  rw [Raid1Io.raid1BdevIoCompletion, completePart_request]

theorem writeLoop_request (rets : Nat → Int) (legs : List Nat) : ∀ s : Raid1Io,
    (Raid1Io.raid1WriteLoop r ch rets s legs).1.request = s.request := by
  induction legs with
  | nil =>
    intro s
    rfl
  | cons idx legs ih =>
    intro s
    rw [Raid1Io.raid1WriteLoop]
    split
    · rw [ih, completePart_request]
      rfl
    split
    · rw [ih]
      rfl
    split
    · rfl
    · exact completePart_request _ _

theorem submitWriteRequest_request (rets : Nat → Int) : (Raid1Io.raid1SubmitWriteRequest r ch rets s).1.request = s.request := by
  unfold Raid1Io.raid1SubmitWriteRequest
  dsimp only
  rw [writeLoop_request]
  split <;> rfl

/-- A submission keeps the request. -/
theorem submitRwRequest_request {rets : Nat → Int} (h : Raid1Io.raid1SubmitRwRequest r ch rets s = some (ch, t))
    (htype : s.request.type = .write) : t.request = s.request := by
  have hreq : (Raid1Io.raid1SubmitWriteRequest r ch rets s).1.request = s.request := submitWriteRequest_request rets
  unfold Raid1Io.raid1SubmitRwRequest at h
  rw [htype] at h
  dsimp only [Option.map_some] at h
  generalize Raid1Io.raid1SubmitWriteRequest r ch rets s = out at h hreq
  obtain rfl := congrArg Prod.snd (Option.some.inj h)
  by_cases hret : out.2 = 0
  · simp [hret, hreq]
  · simp [hret, hreq, Raid1Io.raidBdevIoComplete]

/-- Every state of a write is at one of the stages. -/
theorem WriteRun.stage {request : RaidIo} (hn : 1 ≤ r.numBaseBdevs) (hn' : r.numBaseBdevs ≤ 255)
    (hw : request.type = .write) (h : WriteRun r ch request s) : WriteStage r.numBaseBdevs ch s := by
  obtain ⟨rets, s₀, hsubmit, hreach⟩ := h
  have hstart : Going r.numBaseBdevs ch { request, baseBdevIoRemaining := r.numBaseBdevs } :=
    ⟨Nat.zero_le _, rfl, Nat.le_refl _, rfl, ⟨rfl, fun _ _ hidx => by cases hidx⟩⟩
  have hinv : WriteStage r.numBaseBdevs ch s ∧ s.request = request := by
    refine hreach.invariant (I := fun s => WriteStage r.numBaseBdevs ch s ∧ s.request = request) ?_ ?_
    · obtain ⟨t, ht, hstage⟩ := hstart.submit rets hn hn' hn rfl hw
      -- the first submission sets the count itself
      have hsame : Raid1Io.raid1SubmitRwRequest r ch rets { request, baseBdevIoRemaining := r.numBaseBdevs } =
          Raid1Io.raid1SubmitRwRequest r ch rets { request } := by
        unfold Raid1Io.raid1SubmitRwRequest Raid1Io.raid1SubmitWriteRequest
        rw [hw]
        rfl
      rw [hsame, hsubmit] at ht
      obtain rfl : s₀ = t := congrArg Prod.snd (Option.some.inj ht)
      exact ⟨hstage, submitRwRequest_request hsubmit hw⟩
    · intro s e t hi _ hst
      obtain ⟨hstage, hreq⟩ := hi
      have hwrite : s.request.type = .write := by rw [hreq, hw]
      obtain ⟨⟨ch', t'⟩, hs, ht⟩ := Option.map_eq_some_iff.mp hst
      cases ht
      cases e with
      | ioWait rets =>
        unfold Raid1Io.step at hs
        dsimp only at hs
        obtain ⟨hpos, hs⟩ := Option.ite_none_right_eq_some.mp hs
        cases hstage with
        | wait going more waits =>
          have hgo : Going r.numBaseBdevs ch { s with waits := s.waits - 1 } :=
            ⟨going.le, going.count, going.children_le, going.completions, going.legs.accepted, going.legs.kept⟩
          obtain ⟨u, hu, hstage'⟩ := hgo.submit rets hn hn' more
            (by show s.waits - 1 = 0; omega) hwrite
          have hut := Option.some.inj (hu.symm.trans hs)
          cases hut
          exact ⟨hstage', (submitRwRequest_request hu hwrite).trans hreq⟩
        | past waits => omega
        | done waits => omega
      | complete j success =>
        unfold Raid1Io.step Raid1Io.childComplete at hs
        rw [hwrite] at hs
        dsimp only at hs
        obtain ⟨hj, hs⟩ := Option.ite_none_right_eq_some.mp hs
        obtain ⟨-, hdone⟩ := Prod.mk.inj (Option.some.inj hs)
        dsimp only
        rw [← hdone]
        exact ⟨hstage.complete hn' hj, (bdevIoCompletion_request j success).trans hreq⟩
  exact hinv.1

/-- A write that finds no leg passes over all of them, and succeeds. -/
theorem writeLoop_missing (rets : Nat → Int) (m : Nat) : ∀ s : Raid1Io,
    (∀ idx, idx < s.baseBdevIoSubmitted + m → ch.baseChannel idx = false) → s.baseBdevIoSubmitted + m ≤ 255 →
    0 < m → s.baseBdevIoRemaining = m → s.completions = [] → s.baseBdevIoStatus = .success →
    ∃ t, Raid1Io.raid1WriteLoop r ch rets s (List.range' s.baseBdevIoSubmitted m) = (t, true) ∧
      t.completions = [.success] ∧ t.successful = s.successful ∧
      t.baseBdevIoSubmitted = s.baseBdevIoSubmitted + m := by
  induction m with
  | zero =>
    intro s _ _ hpos
    exact absurd hpos (Nat.lt_irrefl 0)
  | succ m ih =>
    intro s hmiss hle _ hrem hc hst
    have hu8 : u8 (s.baseBdevIoSubmitted + 1) = s.baseBdevIoSubmitted + 1 := Nat.mod_eq_of_lt (by omega)
    rw [List.range'_succ, Raid1Io.raid1WriteLoop, if_pos (hmiss _ (by omega))]
    rcases Nat.eq_zero_or_pos m with rfl | hm
    · rw [Raid1Io.completePart_last (s := s.countSubmitted) (show s.baseBdevIoRemaining = 1 from hrem) (by norm_num)]
      refine ⟨_, rfl, ?_, rfl, hu8⟩
      show s.completions ++ [s.baseBdevIoStatus] = [.success]
      rw [hc, hst]
      rfl
    · rw [Raid1Io.completePart_more (s := s.countSubmitted) (show 1 < s.baseBdevIoRemaining by omega)
        (show s.baseBdevIoRemaining < 2 ^ 64 by omega), ← hu8]
      obtain ⟨t, ht, h1, h2, h3⟩ := ih { s.countSubmitted with baseBdevIoRemaining := s.baseBdevIoRemaining - 1 }
        (by
          show ∀ idx, idx < u8 (s.baseBdevIoSubmitted + 1) + m → ch.baseChannel idx = false
          intro idx hidx
          exact hmiss idx (by omega))
        (by show u8 (s.baseBdevIoSubmitted + 1) + m ≤ 255; omega) hm
        (by show s.baseBdevIoRemaining - 1 = m; omega) hc hst
      refine ⟨t, ht, h1, h2, h3.trans ?_⟩
      show u8 (s.baseBdevIoSubmitted + 1) + m = s.baseBdevIoSubmitted + (m + 1)
      omega

/-- The write to a channel without base channels. -/
theorem write_without_legs (rets : Nat → Int) (request : RaidIo) (hn : 1 ≤ r.numBaseBdevs) (hn' : r.numBaseBdevs ≤ 255)
    (hw : request.type = .write) (hmiss : ∀ idx, idx < r.numBaseBdevs → ch.baseChannel idx = false) :
    ∃ t, Raid1Io.raid1SubmitRwRequest r ch rets { request } = some (ch, t) ∧ t.completions = [.success] ∧
      t.successful = [] := by
  obtain ⟨t, ht, h1, h2, h3⟩ := writeLoop_missing (r := r) rets r.numBaseBdevs
    { request, baseBdevIoRemaining := r.numBaseBdevs } (by simpa using hmiss) (by simpa using hn') hn rfl rfl rfl
  refine ⟨t, ?_, h1, h2⟩
  have ht' : Raid1Io.raid1WriteLoop r ch rets { request, baseBdevIoRemaining := r.numBaseBdevs }
      (List.range' 0 (r.numBaseBdevs - 0)) = (t, true) := ht
  unfold Raid1Io.raid1SubmitRwRequest Raid1Io.raid1SubmitWriteRequest
  rw [hw, if_pos rfl]
  dsimp only
  rw [ht']
  dsimp only
  rw [if_neg (fun hc => by have := h3.symm.trans hc.2; simp at this; omega)]
  rfl

end legs

/-- A successful write is stored. Whatever the submissions return and in whatever order the children
    complete, a write keeps what it promises exactly if it finds one of its legs. -/
theorem write_stored_iff {r : RaidBdev} {ch : IoChannel} {request : RaidIo} (hn : 1 ≤ r.numBaseBdevs)
    (hn' : r.numBaseBdevs ≤ 255) (hw : request.type = .write) :
    (∀ s, WriteRun r ch request s → WriteStored r ch s) ↔
      ∃ idx, idx < r.numBaseBdevs ∧ ch.baseChannel idx = true := by
  constructor
  · intro h
    by_contra hnone
    have hmiss : ∀ idx, idx < r.numBaseBdevs → ch.baseChannel idx = false := by
      intro idx hidx
      by_contra hc
      exact hnone ⟨idx, hidx, by simpa using hc⟩
    obtain ⟨t, ht, hcompletions, hsuccessful⟩ := write_without_legs (fun _ => 0) request hn hn' hw hmiss
    have hstored := (h t ⟨_, t, ht, .init⟩).stored (by rw [hcompletions]; exact List.mem_singleton_self _)
    exact hstored.1 hsuccessful
  · intro hleg s hs
    exact (hs.stage hn hn' hw).stored hleg

/-- Two legs, of which the first is missing. -/
theorem write_stored_one_leg :
    (∀ s, WriteRun { smallArray with baseBdevInfo := [{}, {}] } ⟨fun idx => idx == 1, fun _ => 0⟩ ⟨.write, 0, 8⟩ s →
      WriteStored { smallArray with baseBdevInfo := [{}, {}] } ⟨fun idx => idx == 1, fun _ => 0⟩ s) ↔
      ∃ idx, idx < 2 ∧ (idx == 1) = true :=
  write_stored_iff (r := { smallArray with baseBdevInfo := [{}, {}] })
    (by decide) (by decide) rfl

/-- Two legs, both missing: the write succeeds at once, and nothing is stored. -/
theorem write_stored_nowhere :
    (∃ s, WriteRun { smallArray with baseBdevInfo := [{}, {}] } ⟨fun _ => false, fun _ => 0⟩ ⟨.write, 0, 8⟩ s ∧
      s.completions = [.success] ∧ s.successful = []) ∧
    ¬∀ (r : RaidBdev) (ch : IoChannel) (request : RaidIo) (s : Raid1Io), 1 ≤ r.numBaseBdevs → r.numBaseBdevs ≤ 255 →
      request.type = .write → WriteRun r ch request s → WriteStored r ch s := by
  obtain ⟨t, ht, hcompletions, hsuccessful⟩ := write_without_legs (r := { smallArray with baseBdevInfo := [{}, {}] })
    (fun _ => 0) ⟨.write, 0, 8⟩ (by decide) (by decide) rfl
    (show ∀ idx, idx < 2 → (⟨fun _ => false, fun _ => 0⟩ : IoChannel).baseChannel idx = false from fun _ _ => rfl)
  have hrun := (⟨_, t, ht, .init⟩ : WriteRun _ _ _ t)
  refine ⟨⟨t, hrun, hcompletions, hsuccessful⟩, fun h => ?_⟩
  have hstored := (h _ _ _ _ (by decide) (by decide) rfl hrun).stored (by rw [hcompletions]; exact List.mem_singleton_self _)
  exact hstored.1 hsuccessful

end FlexBSO.Raid

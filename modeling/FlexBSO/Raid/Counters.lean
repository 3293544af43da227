import FlexBSO.Raid.Legs
import Mathlib.Algebra.Order.BigOperators.Group.List
import Mathlib.Tactic.Ring

/- The read balancing of raid1. The counter of a leg is raised after a read was handed
   to it and lowered in the callback of the read, at the leg that the `raid_io`
   remembers in `base_bdev_io_submitted`. In between the sum of the blocks in flight is
   what the counter holds, for all requests on the channel in any order. A step does one
   of four things to a request (`IoMove`), and only two of them touch a counter. -/
namespace FlexBSO.Raid

open RaidBdev (IoChannel)
open FlexBSO.Lib

/-- Blocks a request has in flight on leg `idx`, if it is a read. -/
def Raid1Io.readBlocksOn (io : Raid1Io) (idx : Nat) : Nat :=
  if Raid1State.ReadsOn idx io then io.request.numBlocks else 0

namespace Raid1State

/-- Blocks of the reads in flight on leg `idx`. -/
def outstanding (s : Raid1State) (idx : Nat) : Nat := (s.ios.map (·.readBlocksOn idx)).sum

/-- Legs that accepted the request at `i` so far; none before it is submitted. -/
def acceptedAt (s : Raid1State) (i : Nat) : List Nat := (s.ios[i]?.map (·.accepted)).getD []

end Raid1State

/-- The leg has a base channel, and no other one that has is expected to be free sooner. -/
def LeastBusy (r : RaidBdev) (ch : IoChannel) (leg : Nat) : Prop :=
  leg < r.numBaseBdevs ∧ ch.baseChannel leg = true ∧
  ∀ idx, idx < r.numBaseBdevs → ch.baseChannel idx = true →
    ch.readBlocksOutstanding leg ≤ ch.readBlocksOutstanding idx

/-- The counters tell what is in flight, can be lowered, and decide where reads go. -/
structure Balanced (r : RaidBdev) (s : Raid1State) : Prop where
  sums : ∀ idx, s.ch.readBlocksOutstanding idx = s.outstanding idx
  idle : (∀ io ∈ s.ios, io.children = []) → ∀ idx, s.ch.readBlocksOutstanding idx = 0
  lowers : ∀ (i : Nat) (io : Raid1Io) (j : Nat) (success : Bool), s.ios[i]? = some io → j < io.children.length →
    (s.step r (.io i (.complete j success))).isSome = true
  least : ∀ (e : Raid1State.Event) (t : Raid1State), s.step r e = some t →
    ∀ (i : Nat) (io : Raid1Io), t.ios[i]? = some io → io.request.type = .read →
      io.accepted = s.acceptedAt i ∨ ∃ leg, io.accepted = s.acceptedAt i ++ [leg] ∧ LeastBusy r s.ch leg

/-- A read has at most one child, on the leg it remembers, and none while it waits. -/
structure ReadAt (n : Nat) (io : Raid1Io) : Prop where
  waits : io.waits ≤ 1
  child : io.children = [] ∨ io.waits = 0 ∧ io.baseBdevIoSubmitted < n ∧ io.children = [io.baseBdevIoSubmitted]

/-- What a step does to a request: nothing that the counters are about, keep a read without a
    child, hand it to a leg, or end its child. -/
inductive IoMove (r : RaidBdev) (ch : IoChannel) (io : Raid1Io) : IoChannel → Raid1Io → Prop where
  | other {io' : Raid1Io} (type : io.request.type ≠ .read) (request : io'.request = io.request) : IoMove r ch io ch io'
  | idle {io' : Raid1Io} (before : io.children = []) (request : io'.request = io.request) (waits : io'.waits ≤ 1)
      (children : io'.children = []) (accepted : io'.accepted = io.accepted) : IoMove r ch io ch io'
  | hand {leg : Nat} {ch' : IoChannel} {io' : Raid1Io} (type : io.request.type = .read) (before : io.children = [])
      (next : r.raid1ChannelNextReadBaseBdev ch = some leg)
      (inc : ch.raid1ChannelIncReadCounters leg io.request.numBlocks = some ch') (request : io'.request = io.request)
      (waits : io'.waits = 0) (submitted : io'.baseBdevIoSubmitted = leg) (children : io'.children = [leg])
      (accepted : io'.accepted = io.accepted ++ [leg]) : IoMove r ch io ch' io'
  | finish {leg : Nat} {ch' : IoChannel} {io' : Raid1Io} (type : io.request.type = .read) (before : io.children = [leg])
      (dec : ch.raid1ChannelDecReadCounters leg io.request.numBlocks = some ch') (request : io'.request = io.request)
      (waits : io'.waits = 0) (children : io'.children = []) (accepted : io'.accepted = io.accepted) :
      IoMove r ch io ch' io'

section counters
variable {r : RaidBdev} {ch ch' : IoChannel} {io io' : Raid1Io} {s t : Raid1State} {rets : Nat → Int}

/-- `raid1_channel_next_read_base_bdev` finds the least busy leg. -/
theorem nextReadBaseBdev_least {leg : Nat} (h : r.raid1ChannelNextReadBaseBdev ch = some leg) :
    LeastBusy r ch leg := by
  -- what the search has found among the legs before `k`
  have key : ∀ k, ∃ acc : Nat × Option Nat,
      (List.range k).foldl (fun (acc : Nat × Option Nat) i =>
        if ch.baseChannel i = true ∧ ch.readBlocksOutstanding i < acc.1 then (ch.readBlocksOutstanding i, some i)
        else acc) (uint64Max, none) = acc ∧
      (∀ idx, idx < k → ch.baseChannel idx = true → acc.1 ≤ ch.readBlocksOutstanding idx) ∧
      ∀ i, acc.2 = some i → ch.baseChannel i = true ∧ ch.readBlocksOutstanding i = acc.1 := by
    intro k
    induction k with
    | zero => exact ⟨_, rfl, fun idx hidx => absurd hidx (Nat.not_lt_zero _), fun i hi => by cases hi⟩
    | succ k ih =>
      obtain ⟨acc, hacc, hmin, hfound⟩ := ih
      rw [List.range_succ, List.foldl_append, hacc]
      refine ⟨_, rfl, ?_⟩
      simp only [List.foldl_cons, List.foldl_nil]
      by_cases hless : ch.baseChannel k = true ∧ ch.readBlocksOutstanding k < acc.1
      · rw [if_pos hless]
        refine ⟨fun idx hidx hch => ?_, fun i hi => ?_⟩
        · rcases Nat.lt_succ_iff_lt_or_eq.mp hidx with hidx | rfl
          · exact Nat.le_trans (Nat.le_of_lt hless.2) (hmin idx hidx hch)
          · exact Nat.le_refl _
        · obtain rfl := Option.some.inj hi
          exact ⟨hless.1, rfl⟩
      · rw [if_neg hless]
        refine ⟨fun idx hidx hch => ?_, hfound⟩
        rcases Nat.lt_succ_iff_lt_or_eq.mp hidx with hidx | rfl
        · exact hmin idx hidx hch
        · exact Nat.le_of_not_lt fun hlt => hless ⟨hch, hlt⟩
  obtain ⟨acc, hacc, hmin, hfound⟩ := key r.numBaseBdevs
  have hleg : acc.2 = some leg := by
    rw [← hacc]
    exact h
  obtain ⟨hpresent, heq⟩ := hfound leg hleg
  exact ⟨nextReadBaseBdev_lt ch h, hpresent, fun idx hidx hch => heq.symm ▸ hmin idx hidx hch⟩

theorem completePart_frame (io : Raid1Io) (completed : Nat) (status : IoStatus) :
    (io.raidBdevIoCompletePart completed status).children = io.children ∧
    (io.raidBdevIoCompletePart completed status).waits = io.waits ∧
    (io.raidBdevIoCompletePart completed status).accepted = io.accepted := by
  rw [Raid1Io.raidBdevIoCompletePart]
  generalize sub64 io.baseBdevIoRemaining completed = remaining
  by_cases h : remaining = 0
  · simp [h, Raid1Io.raidBdevIoComplete]
  · simp [h]

/-- A submission moves a request; a read has no child then. -/
theorem submit_move (hn : r.numBaseBdevs ≤ 255) (hread : io.request.type = .read → io.children = [] ∧ io.waits = 0)
    (h : Raid1Io.raid1SubmitRwRequest r ch rets io = some (ch', io')) : IoMove r ch io ch' io' := by
  unfold Raid1Io.raid1SubmitRwRequest at h
  cases htype : io.request.type with
  | read =>
    obtain ⟨hc, hw⟩ := hread htype
    rw [htype] at h
    dsimp only at h
    unfold Raid1Io.raid1SubmitReadRequest at h
    cases hnext : r.raid1ChannelNextReadBaseBdev ch with
    | none =>
      rw [hnext] at h
      obtain ⟨rfl, rfl⟩ := Prod.mk.inj (Option.some.inj h)
      exact .idle hc rfl (by show io.waits ≤ 1; omega) hc rfl
    | some leg =>
      have hleg := nextReadBaseBdev_lt ch hnext
      rw [hnext] at h
      dsimp only at h
      by_cases h0 : rets leg = 0
      · rw [if_pos h0, Option.map_map] at h
        obtain ⟨ch₁, hinc, heq⟩ := Option.map_eq_some_iff.mp h
        obtain ⟨rfl, rfl⟩ := Prod.mk.inj heq
        refine .hand htype hc hnext hinc rfl hw (Nat.mod_eq_of_lt (by omega)) ?_ rfl
        show io.children ++ [leg] = [leg]
        rw [hc]
        rfl
      · rw [if_neg h0] at h
        by_cases h1 : rets leg = -ENOMEM
        · rw [if_pos h1] at h
          obtain ⟨rfl, rfl⟩ := Prod.mk.inj (Option.some.inj h)
          exact .idle hc rfl (by show io.waits + 1 ≤ 1; omega) hc rfl
        · rw [if_neg h1, Option.map_some, if_pos h0] at h
          obtain ⟨rfl, rfl⟩ := Prod.mk.inj (Option.some.inj h)
          exact .idle hc rfl (by show io.waits ≤ 1; omega) hc rfl
  | write =>
    obtain rfl : ch' = ch := by
      rw [htype] at h
      exact (Prod.mk.inj (Option.some.inj h)).1.symm
    exact .other (by rw [htype]; decide) (submitRwRequest_request h htype)
  | unmap =>
    rw [htype] at h
    obtain ⟨rfl, rfl⟩ := Prod.mk.inj (Option.some.inj h)
    exact .other (by rw [htype]; decide) rfl
  | flush =>
    rw [htype] at h
    obtain ⟨rfl, rfl⟩ := Prod.mk.inj (Option.some.inj h)
    exact .other (by rw [htype]; decide) rfl

/-- A move of a request is one of the request with its io-wait entry taken out. -/
theorem IoMove.of_wait (waits : Nat) (h : IoMove r ch { io with waits } ch' io') : IoMove r ch io ch' io' := by
  cases h with
  | other type request => exact .other type request
  | idle before request waits children accepted => exact .idle before request waits children accepted
  | hand type before next inc request waits submitted children accepted =>
    exact .hand type before next inc request waits submitted children accepted
  | finish type before dec request waits children accepted =>
    exact .finish type before dec request waits children accepted

/-- The callback of a child moves its request, if the counter can be lowered. -/
theorem complete_move {j : Nat} {success : Bool} (hread : io.request.type = .read → ReadAt r.numBaseBdevs io)
    (hj : j < io.children.length) (h : Raid1Io.childComplete ch io j success = some (ch', io')) :
    IoMove r ch io ch' io' := by
  unfold Raid1Io.childComplete at h
  by_cases htype : io.request.type = .read
  · rw [htype] at h
    obtain ⟨ch₁, hdec, heq⟩ := Option.map_eq_some_iff.mp h
    obtain ⟨rfl, rfl⟩ := Prod.mk.inj heq
    have hbefore : io.waits = 0 ∧ io.children = [io.baseBdevIoSubmitted] := by
      rcases (hread htype).child with hc | ⟨hw, -, hc⟩
      · rw [hc] at hj
        cases hj
      · exact ⟨hw, hc⟩
    have hj0 : j = 0 := by
      rw [hbefore.2] at hj
      exact Nat.lt_one_iff.mp hj
    have hframe := completePart_frame { io with
      children := io.children.eraseIdx j
      successful := if success then io.successful ++ [io.children.getD j 0] else io.successful } 1
      (if success then .success else .failed)
    refine .finish htype hbefore.2 hdec (bdevIoCompletion_request j success) ?_ ?_ ?_
    · rw [Raid1Io.raid1BdevIoCompletion, hframe.2.1]
      exact hbefore.1
    · rw [Raid1Io.raid1BdevIoCompletion, hframe.1, hj0, hbefore.2]
      rfl
    · rw [Raid1Io.raid1BdevIoCompletion, hframe.2.2]
  · have hdone : some (ch, io.raid1BdevIoCompletion j success) = some (ch', io') := by
      cases hother : io.request.type with
      | read => exact absurd hother htype
      | write => rwa [hother] at h
      | unmap => rwa [hother] at h
      | flush => rwa [hother] at h
    obtain ⟨rfl, hio⟩ := Prod.mk.inj (Option.some.inj hdone)
    rw [← hio]
    exact .other htype (bdevIoCompletion_request j success)

/-- Every step of a request is a move of it. -/
theorem step_move {e : Raid1Io.Event} (hn : r.numBaseBdevs ≤ 255)
    (hread : io.request.type = .read → ReadAt r.numBaseBdevs io) (h : Raid1Io.step r ch io e = some (ch', io')) :
    IoMove r ch io ch' io' := by
  unfold Raid1Io.step at h
  cases e with
  | ioWait rets =>
    dsimp only at h
    obtain ⟨hpos, h⟩ := Option.ite_none_right_eq_some.mp h
    apply IoMove.of_wait (io.waits - 1)
    apply submit_move hn _ h
    intro htype
    have hat := hread htype
    have hwaits := hat.waits
    refine ⟨?_, by show io.waits - 1 = 0; omega⟩
    rcases hat.child with hc | ⟨hw, -⟩
    · exact hc
    · omega
  | complete j success =>
    dsimp only at h
    obtain ⟨hj, h⟩ := Option.ite_none_right_eq_some.mp h
    exact complete_move hread hj h

/-- What holds of a read before a move holds after it. -/
theorem IoMove.readAt (h : IoMove r ch io ch' io') (htype : io.request.type = .read) :
    ReadAt r.numBaseBdevs io' := by
  cases h with
  | other type => exact absurd htype type
  | idle before request waits children => exact ⟨waits, .inl children⟩
  | hand type before next inc request waits submitted children =>
    refine ⟨by omega, .inr ⟨waits, ?_, ?_⟩⟩
    · rw [submitted]
      exact nextReadBaseBdev_lt ch next
    · rw [submitted, children]
  | finish type before dec request waits children => exact ⟨by omega, .inl children⟩

theorem IoMove.request (h : IoMove r ch io ch' io') : io'.request = io.request := by
  cases h <;> assumption

theorem readBlocksOn_of_ne (h : io.request.type ≠ .read) (idx : Nat) : io.readBlocksOn idx = 0 :=
  if_neg fun hc => h hc.1

theorem readBlocksOn_nil (h : io.children = []) (idx : Nat) : io.readBlocksOn idx = 0 := by
  apply if_neg
  intro hc
  have := hc.2
  rw [h] at this
  cases this

theorem readBlocksOn_singleton {leg : Nat} (htype : io.request.type = .read) (h : io.children = [leg]) (idx : Nat) :
    io.readBlocksOn idx = if idx = leg then io.request.numBlocks else 0 := by
  have hiff : Raid1State.ReadsOn idx io ↔ idx = leg := by
    rw [Raid1State.ReadsOn, h, List.mem_singleton]
    exact and_iff_right htype
  unfold Raid1Io.readBlocksOn
  by_cases hidx : idx = leg
  · rw [if_pos hidx, if_pos (hiff.mpr hidx)]
  · rw [if_neg hidx, if_neg fun hc => hidx (hiff.mp hc)]

/-- A move changes a counter by what it puts in flight or ends. -/
theorem IoMove.counts (h : IoMove r ch io ch' io') (hfits : ∀ idx, ch.readBlocksOutstanding idx < 2 ^ 64)
    (hblocks : io.request.numBlocks < 2 ^ 64) (idx : Nat) :
    ch'.readBlocksOutstanding idx < 2 ^ 64 ∧
    ch'.readBlocksOutstanding idx + io.readBlocksOn idx = ch.readBlocksOutstanding idx + io'.readBlocksOn idx := by
  have hfit := hfits idx
  cases h with
  | other type request =>
    rw [readBlocksOn_of_ne type, readBlocksOn_of_ne (by rw [request]; exact type)]
    exact ⟨hfit, rfl⟩
  | idle before request waits children =>
    rw [readBlocksOn_nil before, readBlocksOn_nil children]
    exact ⟨hfit, rfl⟩
  | @hand leg _ _ type before next inc request waits submitted children =>
    obtain ⟨hle, hch⟩ := Option.ite_none_right_eq_some.mp inc
    rw [sub64_of_le (by unfold uint64Max; omega) (by decide)] at hle
    unfold uint64Max at hle
    rw [readBlocksOn_nil before, readBlocksOn_singleton (by rw [request]; exact type) children, request,
      ← Option.some.inj hch]
    dsimp only
    by_cases hidx : idx = leg
    · subst hidx
      rw [Function.update_self, if_pos rfl, u64_of_lt (by omega)]
      omega
    · rw [Function.update_of_ne hidx, if_neg hidx]
      exact ⟨hfit, rfl⟩
  | @finish leg _ _ type before dec request waits children =>
    obtain ⟨hle, hch⟩ := Option.ite_none_right_eq_some.mp dec
    rw [readBlocksOn_nil children, readBlocksOn_singleton type before, ← Option.some.inj hch]
    dsimp only
    by_cases hidx : idx = leg
    · subst hidx
      rw [Function.update_self, if_pos rfl, sub64_of_le hle hfit]
      omega
    · rw [Function.update_of_ne hidx, if_neg hidx]
      exact ⟨hfit, rfl⟩

/-- A move of a read leaves it where it was, or hands it to the least busy leg. -/
theorem IoMove.accepted (h : IoMove r ch io ch' io') (htype : io.request.type = .read) :
    io'.accepted = io.accepted ∨ ∃ leg, io'.accepted = io.accepted ++ [leg] ∧ LeastBusy r ch leg := by
  cases h with
  | other type => exact absurd htype type
  | idle before request waits children accepted => exact .inl accepted
  | hand type before next inc request waits submitted children accepted =>
    exact .inr ⟨_, accepted, nextReadBaseBdev_least next⟩
  | finish type before dec request waits children accepted => exact .inl accepted

/-! ## The channel -/

/-- What every reachable state of a channel keeps. -/
structure ChannelInv (r : RaidBdev) (s : Raid1State) : Prop where
  sums : ∀ idx, s.ch.readBlocksOutstanding idx = s.outstanding idx
  fits : ∀ idx, s.ch.readBlocksOutstanding idx < 2 ^ 64
  blocks : ∀ io ∈ s.ios, io.request.numBlocks < 2 ^ 64
  reads : ∀ io ∈ s.ios, io.request.type = .read → ReadAt r.numBaseBdevs io

theorem sum_map_set (f : Raid1Io → Nat) {a b : Raid1Io} (l : List Raid1Io) : ∀ i : Nat, l[i]? = some a →
    ((l.set i b).map f).sum + f a = (l.map f).sum + f b := by
  induction l with
  | nil =>
    intro i h
    cases h
  | cons x l ih =>
    intro i h
    cases i with
    | zero =>
      obtain rfl := Option.some.inj h
      rw [List.set_cons_zero, List.map_cons, List.sum_cons, List.map_cons, List.sum_cons]
      omega
    | succ i =>
      have := ih i h
      rw [List.set_cons_succ, List.map_cons, List.sum_cons, List.map_cons, List.sum_cons]
      omega

/-- What holds of a request before a move holds after it. -/
theorem IoMove.keeps (hm : IoMove r ch io ch' io') (hio : io.request.numBlocks < 2 ^ 64) : io'.request.numBlocks < 2 ^ 64 ∧
      (io'.request.type = .read → ReadAt r.numBaseBdevs io') := by
  rw [hm.request]
  exact ⟨hio, fun htype => hm.readAt htype⟩

/-- A new request on the channel. -/
theorem ChannelInv.append (h : ChannelInv r s) (hm : IoMove r s.ch io ch' io') (hnil : io.children = [])
    (hio : io.request.numBlocks < 2 ^ 64) : ChannelInv r ⟨ch', s.ios ++ [io']⟩ := by
  obtain ⟨hblocks, hread⟩ := hm.keeps hio
  have hcounts := hm.counts h.fits hio
  refine ⟨fun idx => ?_, fun idx => (hcounts idx).1, ?_, ?_⟩
  · have hmove := (hcounts idx).2
    rw [readBlocksOn_nil hnil, h.sums idx] at hmove
    rw [Raid1State.outstanding, List.map_append, List.sum_append, List.map_singleton, List.sum_singleton]
    exact hmove
  · intro x hx
    rcases List.mem_append.mp hx with hx | hx
    · exact h.blocks x hx
    · rw [List.mem_singleton.mp hx]
      exact hblocks
  · intro x hx
    rcases List.mem_append.mp hx with hx | hx
    · exact h.reads x hx
    · rw [List.mem_singleton.mp hx]
      exact hread

/-- A move of one of its requests. -/
theorem ChannelInv.set {i : Nat} (h : ChannelInv r s) (hi : s.ios[i]? = some io) (hm : IoMove r s.ch io ch' io') :
    ChannelInv r ⟨ch', s.ios.set i io'⟩ := by
  have hio := h.blocks io (List.mem_of_getElem? hi)
  obtain ⟨hblocks, hread⟩ := hm.keeps hio
  have hcounts := hm.counts h.fits hio
  refine ⟨fun idx => ?_, fun idx => (hcounts idx).1, ?_, ?_⟩
  · have hmove := (hcounts idx).2
    have hsum := sum_map_set (·.readBlocksOn idx) (b := io') s.ios i hi
    rw [h.sums idx, Raid1State.outstanding] at hmove
    show ch'.readBlocksOutstanding idx = ((s.ios.set i io').map (·.readBlocksOn idx)).sum
    omega
  · intro x hx
    rcases List.mem_or_eq_of_mem_set hx with hx | rfl
    · exact h.blocks x hx
    · exact hblocks
  · intro x hx
    rcases List.mem_or_eq_of_mem_set hx with hx | rfl
    · exact h.reads x hx
    · exact hread

theorem ChannelInv.init (baseChannel : Nat → Bool) : ChannelInv r (Raid1State.init baseChannel) :=
  ⟨fun _ => rfl, fun _ => Nat.two_pow_pos 64, fun _ hio => (nomatch hio), fun _ hio => (nomatch hio)⟩

/-- A step of the channel is a move of a new request or of one of its requests, or takes a base
    channel away. -/
theorem Raid1State.step_cases (hn : r.numBaseBdevs ≤ 255) (h : ChannelInv r s) {e : Raid1State.Event}
    (hs : s.step r e = some t) :
    (∃ request ch' io', request.numBlocks < 2 ^ 64 ∧ IoMove r s.ch { request } ch' io' ∧ t = ⟨ch', s.ios ++ [io']⟩) ∨
    (∃ i io ch' io', s.ios[i]? = some io ∧ IoMove r s.ch io ch' io' ∧ t = ⟨ch', s.ios.set i io'⟩) ∨
    ∃ idx, t = { s with ch := { s.ch with baseChannel := Function.update s.ch.baseChannel idx false } } := by
  unfold Raid1State.step at hs
  cases e with
  | submit request rets =>
    obtain ⟨hblocks, hs⟩ := Option.ite_none_right_eq_some.mp hs
    obtain ⟨⟨ch', io'⟩, hsub, rfl⟩ := Option.map_eq_some_iff.mp hs
    exact .inl ⟨request, ch', io', hblocks, submit_move hn (fun _ => ⟨rfl, rfl⟩) hsub, rfl⟩
  | io i e =>
    obtain ⟨io, hi, hs⟩ := Option.bind_eq_some_iff.mp hs
    obtain ⟨⟨ch', io'⟩, hstep, rfl⟩ := Option.map_eq_some_iff.mp hs
    exact .inr (.inl ⟨i, io, ch', io', hi, step_move hn (h.reads io (List.mem_of_getElem? hi)) hstep, rfl⟩)
  | removeBaseChannel idx =>
    obtain ⟨-, hs⟩ := Option.ite_none_left_eq_some.mp hs
    exact .inr (.inr ⟨idx, (Option.some.inj hs).symm⟩)

theorem ChannelInv.step (hn : r.numBaseBdevs ≤ 255) (h : ChannelInv r s) {e : Raid1State.Event}
    (hs : s.step r e = some t) : ChannelInv r t := by
  rcases Raid1State.step_cases hn h hs with ⟨request, ch', io', hblocks, hm, rfl⟩ | ⟨i, io, ch', io', hi, hm, rfl⟩ |
    ⟨idx, rfl⟩
  · exact h.append hm rfl hblocks
  · exact h.set hi hm
  · exact ⟨h.sums, h.fits, h.blocks, h.reads⟩

/-- The callback of a child can lower the counter. -/
theorem ChannelInv.lowers (h : ChannelInv r s) {i j : Nat} {success : Bool} (hi : s.ios[i]? = some io)
    (hj : j < io.children.length) : (s.step r (.io i (.complete j success))).isSome = true := by
  have hsome : ∃ out, Raid1Io.childComplete s.ch io j success = some out := by
    unfold Raid1Io.childComplete
    cases htype : io.request.type with
    | read =>
      have hmem := List.mem_of_getElem? hi
      rcases (h.reads io hmem htype).child with hc | ⟨-, -, hc⟩
      · rw [hc] at hj
        cases hj
      · -- its own blocks are part of the sum
        have hown : io.readBlocksOn io.baseBdevIoSubmitted ≤ s.outstanding io.baseBdevIoSubmitted :=
          List.le_sum_of_mem (List.mem_map_of_mem hmem)
        rw [readBlocksOn_singleton htype hc, if_pos rfl, ← h.sums] at hown
        unfold RaidBdev.IoChannel.raid1ChannelDecReadCounters
        rw [if_pos hown]
        exact ⟨_, rfl⟩
    | write => exact ⟨_, rfl⟩
    | unmap => exact ⟨_, rfl⟩
    | flush => exact ⟨_, rfl⟩
  obtain ⟨out, hout⟩ := hsome
  unfold Raid1State.step Raid1Io.step
  dsimp only
  rw [hi, Option.bind_some]
  rw [if_pos hj, hout]
  rfl

/-- Where a step hands a read. -/
theorem ChannelInv.least (hn : r.numBaseBdevs ≤ 255) (h : ChannelInv r s) {e : Raid1State.Event}
    (hs : s.step r e = some t) {k : Nat} (hk : t.ios[k]? = some io) (htype : io.request.type = .read) :
    io.accepted = s.acceptedAt k ∨ ∃ leg, io.accepted = s.acceptedAt k ++ [leg] ∧ LeastBusy r s.ch leg := by
  have hsame (hin : s.ios[k]? = some io) : io.accepted = s.acceptedAt k := by
    rw [Raid1State.acceptedAt, hin]
    rfl
  rcases Raid1State.step_cases hn h hs with ⟨request, ch', io', -, hm, rfl⟩ | ⟨i, old, ch', io', hi, hm, rfl⟩ |
    ⟨idx, rfl⟩
  · rcases Nat.lt_or_ge k s.ios.length with hlt | hge
    · exact .inl (hsame ((List.getElem?_append_left hlt).symm.trans hk))
    · have hnone : s.acceptedAt k = [] := by
        rw [Raid1State.acceptedAt, List.getElem?_eq_none hge]
        rfl
      have hnew : io = io' := by
        have := List.mem_of_getElem? ((List.getElem?_append_right hge).symm.trans hk)
        exact List.mem_singleton.mp this
      rw [hnone, hnew]
      rw [hnew, hm.request] at htype
      exact hm.accepted htype
  · by_cases hki : k = i
    · subst hki
      have hold : s.acceptedAt k = old.accepted := by
        rw [Raid1State.acceptedAt, hi]
        rfl
      have hnew : io = io' := by
        have := hk
        dsimp only at this
        rw [List.getElem?_set_self (List.getElem?_eq_some_iff.mp hi).1] at this
        exact (Option.some.inj this).symm
      rw [hold, hnew]
      rw [hnew, hm.request] at htype
      exact hm.accepted htype
    · exact .inl (hsame ((List.getElem?_set_ne (Ne.symm hki)).symm.trans hk))
  · exact .inl (hsame hk)

end counters

/-- The read counters of raid1. In every run of a channel, with all requests on it in any order, each
    counter is the sum of the blocks of the reads in flight on its leg; the callbacks can lower it,
    and every read is handed to a leg that is there and had the fewest blocks outstanding. -/
theorem reads_balanced {r : RaidBdev} {baseChannel : Nat → Bool} {s : Raid1State} (hn : r.numBaseBdevs ≤ 255)
    (h : Reach (Raid1State.step r) (fun _ _ => True) (Raid1State.init baseChannel) s) : Balanced r s := by
  have hinv : ChannelInv r s := h.invariant (.init baseChannel) fun _ _ _ hi _ hs => hi.step hn hs
  refine ⟨hinv.sums, fun hidle idx => ?_, fun i io j success hi hj => hinv.lowers hi hj,
    fun e t hs i io hi htype => hinv.least hn hs hi htype⟩
  rw [hinv.sums idx]
  apply List.sum_eq_zero
  intro x hx
  obtain ⟨io, hio, rfl⟩ := List.mem_map.mp hx
  exact readBlocksOn_nil (hidle io hio) idx

/-- Two legs, and two reads that are accepted: the second one goes to the other leg. -/
theorem reads_balanced_two :
    ∃ s, Reach (Raid1State.step { smallArray with baseBdevInfo := [{}, {}] }) (fun _ _ => True)
        (Raid1State.init fun _ => true) s ∧ s.ios.map (·.children) = [[0], [1]] ∧
      Balanced { smallArray with baseBdevInfo := [{}, {}] } s := by
  have hrun : Reach (Raid1State.step { smallArray with baseBdevInfo := [{}, {}] }) (fun _ _ => True)
      (Raid1State.init fun _ => true) _ := .next (e := .submit ⟨.read, 0, 8⟩ fun _ => 0)
    (.next (e := .submit ⟨.read, 0, 8⟩ fun _ => 0) .init trivial rfl) trivial rfl
  exact ⟨_, hrun, rfl, reads_balanced (by decide) hrun⟩

end FlexBSO.Raid

import FlexBSO.Raid.Counters
import FlexBSO.Raid.Placement
import FlexBSO.Raid.Transfer

/- A raid1 bdev as its users see it, over any number of channels. The requests on all
   channels run at the same time, as long as those that share a block only read;
   base bdevs are removed while the requests are quiesced. A child moves its data
   when it completes, and until then a write leaves anything on its leg. The array is a
   store that keeps each block on all legs there are (`Lib.Store`): every step of a
   request is some of its steps, so a read that succeeds finds what the last write
   before it wrote, whichever leg it is handed to (`mirror_reads`), and the legs agree
   (`mirror_legs`). -/
namespace FlexBSO.Raid

open RaidBdev (IoChannel)
open FlexBSO.Lib

/-- A request with the thread whose channel it is on and the blocks in its buffers. -/
structure MirrorIo (α : Type) where
  thread : Nat
  io : Raid1Io
  buf : Nat → α

/-- A raid1 bdev. Its channels all have the base channels `baseChannel`; the counters are each
    channel's own. `disk` are the base bdevs of the slots. -/
structure Mirror (α : Type) where
  baseChannel : Nat → Bool
  readBlocksOutstanding : Nat → Nat → Nat
  ios : List (MirrorIo α)
  disk : Nat → Nat → α

namespace MirrorIo
variable {α : Type} (r : RaidBdev) (x : MirrorIo α)

/-- The child at `j`. -/
def child (j : Nat) : Child :=
  r.child (x.io.children.getD j 0) x.io.request.offsetBlocks x.io.request.numBlocks

/-- The base bdevs after an event of the request. -/
def diskAfter (disk : Nat → Nat → α) : Raid1Io.Event → Nat → Nat → α
  | .complete j true => if x.io.request.type = .write then (x.child r j).store disk x.buf else disk
  | _ => disk

/-- The buffers after an event of the request. -/
def bufAfter (disk : Nat → Nat → α) : Raid1Io.Event → Nat → α
  | .complete j true => if x.io.request.type = .read then (x.child r j).load disk x.buf else x.buf
  | _ => x.buf

/-- The legs a write is through with. -/
def through : Set (Nat × Nat) := { p | x.io.request.type = .write ∧ p.1 ∈ x.io.successful }

def op : Op Nat (Nat × Nat) α := x.io.request.op x.buf x.through x.io.completions

end MirrorIo

namespace Mirror
variable {α : Type} (r : RaidBdev) (s : Mirror α)

/-- The channel of a thread. -/
def ch (thread : Nat) : IoChannel := ⟨s.baseChannel, s.readBlocksOutstanding thread⟩

/-- A channel after its counters changed. -/
def setCounters (thread : Nat) (ch : IoChannel) : Mirror α :=
  { s with readBlocksOutstanding := Function.update s.readBlocksOutstanding thread ch.readBlocksOutstanding }

/-- What happens to a raid1 bdev: a request is submitted on the channel of a thread, with what the
    submissions return; a callback of the request at `i` comes; a write in flight changes block `k` of
    its child at `j`; a base bdev is removed from all channels. -/
inductive Event (α : Type) where
  | submit (thread : Nat) (request : RaidIo) (buf : Nat → α) (rets : Nat → Int)
  | io (i : Nat) (e : Raid1Io.Event)
  | garble (i j k : Nat) (v : α)
  | removeBaseChannel (idx : Nat)

/-- One step. The bdev layer lets reads and writes through that `Admits` allows, and quiesces the raid
    bdev before a base bdev is removed: its requests are completed then. -/
def step : Event α → Option (Mirror α)
  | .submit thread request buf rets =>
    if r.Admits request ∧ (request.type = .read ∨ request.type = .write) then
      (Raid1Io.raid1SubmitRwRequest r (s.ch thread) rets { request }).map fun (ch, io) =>
        { s.setCounters thread ch with ios := s.ios ++ [⟨thread, io, buf⟩] }
    else none
  | .io i e => s.ios[i]?.bind fun x => (Raid1Io.step r (s.ch x.thread) x.io e).map fun (ch, io) =>
      { s.setCounters x.thread ch with
        ios := s.ios.set i ⟨x.thread, io, x.bufAfter r s.disk e⟩
        disk := x.diskAfter r s.disk e }
  | .garble i j k v => s.ios[i]?.bind fun x =>
      if x.io.request.type = .write ∧ j < x.io.children.length ∧ k < x.io.request.numBlocks then
        let c := x.child r j
        some { s with disk :=
          Function.update s.disk c.slot (Function.update (s.disk c.slot) (c.offsetBlocks + k) v) }
      else none
  | .removeBaseChannel idx =>
    if s.ios.all (fun x => x.io.completions != []) = true then
      some { s with baseChannel := Function.update s.baseChannel idx false }
    else none

/-- A request comes when none in flight clashes with it. -/
def Apart : Event α → Prop
  | .submit _ request _ _ => ∀ x ∈ s.ios, x.io.completions = [] → ¬x.io.request.Clashes request
  | _ => True

instance (e : Event α) : Decidable (s.Apart e) := by
  cases e <;> unfold Apart <;> exact inferInstance

/-- The array no request came to yet. -/
def init (baseChannel : Nat → Bool) (disk : Nat → Nat → α) : Mirror α := ⟨baseChannel, fun _ _ => 0, [], disk⟩

/-- Where a block is: on the legs of the channels. -/
def places (b : Nat) : Set (Nat × Nat) :=
  { p | p.1 < r.numBaseBdevs ∧ s.baseChannel p.1 = true ∧ p.2 = (r.info p.1).dataOffset + b }

/-- The array as a store. -/
def store : Store Nat (Nat × Nat) α where
  places := s.places r
  disk p := s.disk p.1 p.2
  ops := s.ios.map MirrorIo.op

/-- What is known of a block after the first `i` requests, if `known` was at first: what the last write
    to it wrote, if that one succeeded. -/
def device (known : Nat → Option α) (i b : Nat) : Option α := content known ((s.ios.take i).map MirrorIo.op) b

end Mirror

/-! ## One request -/

/-- A write from one function to the next: it is handed to more legs, all of them in `legs`, and nothing
    else of it changes that matters here. -/
def Grows (legs : Set Nat) (s t : Raid1Io) : Prop :=
  t.request = s.request ∧ t.successful = s.successful ∧
  ∃ more, t.children = s.children ++ more ∧ t.accepted = s.accepted ++ more ∧ ∀ leg ∈ more, leg ∈ legs

/-- The legs that accepted a child of a write are in `legs`: it is in flight, or was successful, or
    failed. -/
def Tracked (legs : Set Nat) (s : Raid1Io) : Prop :=
  (∀ leg ∈ s.accepted, leg ∈ legs) ∧ ∃ failed, (s.children ++ s.successful ++ failed).Perm s.accepted

/-- Where a read stands: waiting to be submitted again, in flight on a leg, or completed. -/
inductive ReadStage (n : Nat) (baseChannel : Nat → Bool) (s : Raid1Io) : Prop where
  | wait (waits : s.waits = 1) (children : s.children = []) (completions : s.completions = [])
      (status : s.baseBdevIoStatus = .success)
  | flight (waits : s.waits = 0) (leg : Nat) (children : s.children = [leg]) (completions : s.completions = [])
      (status : s.baseBdevIoStatus = .success) (count : s.baseBdevIoRemaining = 1) (lt : leg < n)
      (present : baseChannel leg = true)
  | done (waits : s.waits = 0) (children : s.children = []) (status : IoStatus) (completions : s.completions = [status])

section requests
variable {r : RaidBdev} {ch ch' : IoChannel} {n : Nat} {s t u : Raid1Io} {rets : Nat → Int} {legs : Set Nat}

theorem Grows.refl (s : Raid1Io) : Grows legs s s :=
  ⟨rfl, rfl, [], (List.append_nil _).symm, (List.append_nil _).symm, fun _ hleg => by cases hleg⟩

theorem Grows.trans (h : Grows legs s t) (h' : Grows legs t u) : Grows legs s u := by
  obtain ⟨hreq, hsuc, more, hch, hacc, hin⟩ := h
  obtain ⟨hreq', hsuc', more', hch', hacc', hin'⟩ := h'
  refine ⟨hreq'.trans hreq, hsuc'.trans hsuc, more ++ more', ?_, ?_, fun leg hleg => ?_⟩
  · rw [hch', hch, List.append_assoc]
  · rw [hacc', hacc, List.append_assoc]
  · rcases List.mem_append.mp hleg with hleg | hleg
    · exact hin leg hleg
    · exact hin' leg hleg

theorem Grows.tracked (h : Grows legs s t) (ht : Tracked legs s) : Tracked legs t := by
  obtain ⟨-, hsuc, more, hch, hacc, hin⟩ := h
  obtain ⟨hall, failed, hperm⟩ := ht
  refine ⟨fun leg hleg => ?_, failed, ?_⟩
  · rw [hacc] at hleg
    rcases List.mem_append.mp hleg with hleg | hleg
    · exact hall leg hleg
    · exact hin leg hleg
  · rw [hch, hsuc, hacc, List.append_assoc, List.append_assoc]
    calc (s.children ++ (more ++ (s.successful ++ failed))).Perm (s.children ++ (s.successful ++ failed ++ more)) :=
          List.Perm.append_left _ List.perm_append_comm
      _ = (s.children ++ s.successful ++ failed ++ more) := by rw [← List.append_assoc, ← List.append_assoc]
      List.Perm _ (s.accepted ++ more) := hperm.append_right _

/-- Of a write in flight no leg is counted twice. -/
theorem Tracked.not_successful (h : Tracked legs s) (hnodup : s.accepted.Nodup) {j : Nat} (hj : j < s.children.length) :
    s.children.getD j 0 ∉ s.successful ∧ s.children.getD j 0 ∈ legs := by
  obtain ⟨hall, failed, hperm⟩ := h
  have hget : s.children.getD j 0 ∈ s.children := by
    rw [List.getD_eq_getElem?_getD, List.getElem?_eq_getElem hj]
    exact List.getElem_mem hj
  constructor
  · intro hin
    have hdisjoint := List.disjoint_of_nodup_append (List.Nodup.of_append_left (hperm.symm.nodup hnodup))
    exact hdisjoint hget hin
  · apply hall
    exact hperm.subset (List.mem_append_left _ (List.mem_append_left _ hget))

theorem completePart_grows (s : Raid1Io) (completed : Nat) (status : IoStatus) :
    Grows legs s (s.raidBdevIoCompletePart completed status) := by
  rw [Raid1Io.raidBdevIoCompletePart]
  generalize sub64 s.baseBdevIoRemaining completed = remaining
  by_cases h : remaining = 0
  · simp [h, Raid1Io.raidBdevIoComplete, Grows]
  · simp [h, Grows]

/-- The legs there are. -/
def presentLegs (r : RaidBdev) (baseChannel : Nat → Bool) : Set Nat := { leg | leg < r.numBaseBdevs ∧ baseChannel leg = true }

theorem accept_grows (s : Raid1Io) {idx : Nat} (h : idx ∈ legs) : Grows legs s (s.accept idx).countSubmitted :=
  ⟨rfl, rfl, [idx], rfl, rfl, fun _ hleg => List.mem_singleton.mp hleg ▸ h⟩

theorem writeLoop_grows (rets : Nat → Int) (l : List Nat) : ∀ s : Raid1Io, (∀ idx ∈ l, idx < r.numBaseBdevs) →
    Grows (presentLegs r ch.baseChannel) s (Raid1Io.raid1WriteLoop r ch rets s l).1 := by
  induction l with
  | nil =>
    intro s _
    exact .refl s
  | cons idx l ih =>
    intro s hl
    have hrest : ∀ i ∈ l, i < r.numBaseBdevs := fun i hi => hl i (List.mem_cons_of_mem _ hi)
    rw [Raid1Io.raid1WriteLoop]
    by_cases hmiss : ch.baseChannel idx = false
    · rw [if_pos hmiss]
      have hskip : Grows (presentLegs r ch.baseChannel) s s.countSubmitted := .refl s
      exact (hskip.trans (completePart_grows _ _ _)).trans (ih _ hrest)
    · rw [if_neg hmiss]
      have hin : idx ∈ presentLegs r ch.baseChannel := ⟨hl idx (List.mem_cons_self ..), by simpa using hmiss⟩
      split
      · exact (accept_grows s hin).trans (ih _ hrest)
      split
      · exact .refl s
      · exact completePart_grows _ _ _

theorem submitWrite_grows (h : Raid1Io.raid1SubmitRwRequest r ch rets s = some (ch', t))
    (htype : s.request.type = .write) : Grows (presentLegs r ch.baseChannel) s t := by
  have hloop : Grows (presentLegs r ch.baseChannel) s (Raid1Io.raid1SubmitWriteRequest r ch rets s).1 := by
    unfold Raid1Io.raid1SubmitWriteRequest
    dsimp only
    have hstart : Grows (presentLegs r ch.baseChannel) s
        (if s.baseBdevIoSubmitted = 0 then { s with baseBdevIoRemaining := r.numBaseBdevs } else s) := by
      split
      · exact .refl s
      · exact .refl s
    refine hstart.trans (writeLoop_grows rets _ _ fun idx hidx => ?_)
    have := List.mem_range'_1.mp hidx
    omega
  unfold Raid1Io.raid1SubmitRwRequest at h
  rw [htype] at h
  dsimp only [Option.map_some] at h
  generalize Raid1Io.raid1SubmitWriteRequest r ch rets s = out at h hloop
  obtain rfl := congrArg Prod.snd (Option.some.inj h)
  dsimp only
  split
  · exact hloop.trans (.refl out.1)
  · exact hloop

theorem completion_successful (s : Raid1Io) (j : Nat) (success : Bool) :
    (s.raid1BdevIoCompletion j success).successful =
      if success then s.successful ++ [s.children.getD j 0] else s.successful := by
  have hgrows (s : Raid1Io) (status : IoStatus) : Grows ∅ s (s.raidBdevIoCompletePart 1 status) := completePart_grows ..
  rw [Raid1Io.raid1BdevIoCompletion, (hgrows _ _).2.1]

theorem Tracked.complete {j : Nat} (h : Tracked legs s) (hj : j < s.children.length) (success : Bool) :
    Tracked legs (s.raid1BdevIoCompletion j success) := by
  rw [Raid1Io.raid1BdevIoCompletion]
  apply (completePart_grows _ _ _).tracked
  obtain ⟨hall, failed, hperm⟩ := h
  have hget : s.children.getD j 0 = s.children[j] := by
    rw [List.getD_eq_getElem?_getD, List.getElem?_eq_getElem hj, Option.getD_some]
  have hout : (s.children.eraseIdx j ++ [s.children[j]]).Perm s.children :=
    List.perm_append_comm.trans (List.getElem_cons_eraseIdx_perm hj)
  cases success with
  | true =>
    refine ⟨hall, failed, ?_⟩
    show (s.children.eraseIdx j ++ (s.successful ++ [s.children.getD j 0]) ++ failed).Perm s.accepted
    rw [hget]
    calc (s.children.eraseIdx j ++ (s.successful ++ [s.children[j]]) ++ failed).Perm
          (s.children.eraseIdx j ++ ([s.children[j]] ++ s.successful) ++ failed) :=
          (List.Perm.append_left _ List.perm_append_comm).append_right _
      _ = (s.children.eraseIdx j ++ [s.children[j]] ++ s.successful ++ failed) := by rw [← List.append_assoc]
      List.Perm _ (s.children ++ s.successful ++ failed) := (hout.append_right _).append_right _
      List.Perm _ s.accepted := hperm
  | false =>
    refine ⟨hall, s.children[j] :: failed, ?_⟩
    show (s.children.eraseIdx j ++ s.successful ++ s.children[j] :: failed).Perm s.accepted
    calc (s.children.eraseIdx j ++ s.successful ++ s.children[j] :: failed).Perm
          (s.children[j] :: (s.children.eraseIdx j ++ s.successful ++ failed)) := List.perm_middle
      List.Perm _ (s.children ++ s.successful ++ failed) :=
          ((List.getElem_cons_eraseIdx_perm hj).append_right _).append_right _
      List.Perm _ s.accepted := hperm

theorem WriteStage.nodup (h : WriteStage n ch s) : s.accepted.Nodup := by
  have hlegs : LegsAt ch s := by
    cases h with
    | wait going => exact going.legs
    | past waits completions count pos le legs => exact legs
    | done waits children completions legs => exact legs
  rw [hlegs.accepted]
  exact List.nodup_range.filter _

/-- The counters of a channel do not matter to a write. -/
theorem WriteStage.of_baseChannel (h : WriteStage n ch s) (hch : ch'.baseChannel = ch.baseChannel) : WriteStage n ch' s := by
  obtain ⟨base, counters⟩ := ch
  obtain ⟨base', counters'⟩ := ch'
  obtain rfl : base' = base := hch
  cases h with
  | wait going more waits =>
    exact .wait ⟨going.le, going.count, going.children_le, going.completions, going.legs.accepted, going.legs.kept⟩ more waits
  | past waits completions count pos le legs full =>
    exact .past waits completions count pos le ⟨legs.accepted, legs.kept⟩ full
  | done waits children completions legs full => exact .done waits children completions ⟨legs.accepted, legs.kept⟩ full

/-- A write that was just submitted. -/
theorem WriteStage.start {request : RaidIo} (hn : 1 ≤ r.numBaseBdevs) (hn' : r.numBaseBdevs ≤ 255)
    (htype : request.type = .write) (h : Raid1Io.raid1SubmitRwRequest r ch rets { request } = some (ch', t)) :
    WriteStage r.numBaseBdevs ch t := by
  have hch : ch' = ch := by
    unfold Raid1Io.raid1SubmitRwRequest at h
    rw [htype] at h
    exact (congrArg Prod.fst (Option.some.inj h)).symm
  rw [hch] at h
  have hrun : WriteRun r ch request t := ⟨rets, t, h, .init⟩
  exact hrun.stage hn hn' htype

/-- A later step of a write. -/
theorem WriteStage.step {e : Raid1Io.Event} (h : WriteStage r.numBaseBdevs ch s) (hn : 1 ≤ r.numBaseBdevs)
    (hn' : r.numBaseBdevs ≤ 255) (htype : s.request.type = .write) (hs : Raid1Io.step r ch s e = some (ch', t)) :
    WriteStage r.numBaseBdevs ch t := by
  unfold Raid1Io.step at hs
  cases e with
  | ioWait rets =>
    dsimp only at hs
    obtain ⟨hpos, hs⟩ := Option.ite_none_right_eq_some.mp hs
    cases h with
    | wait going more waits =>
      have hgo : Going r.numBaseBdevs ch { s with waits := s.waits - 1 } :=
        ⟨going.le, going.count, going.children_le, going.completions, going.legs.accepted, going.legs.kept⟩
      obtain ⟨u, hu, hstage⟩ := hgo.submit rets hn hn' more (by show s.waits - 1 = 0; omega) htype
      cases Option.some.inj (hu.symm.trans hs)
      exact hstage
    | past waits => omega
    | done waits => omega
  | complete j success =>
    unfold Raid1Io.childComplete at hs
    rw [htype] at hs
    dsimp only at hs
    obtain ⟨hj, hs⟩ := Option.ite_none_right_eq_some.mp hs
    obtain ⟨-, hdone⟩ := Prod.mk.inj (Option.some.inj hs)
    rw [← hdone]
    exact h.complete hn' hj

/-- A read that is submitted, for the first time or again. -/
theorem ReadStage.submit (htype : s.request.type = .read) (hwaits : s.waits = 0) (hchildren : s.children = [])
    (hdone : s.completions = []) (hstatus : s.baseBdevIoStatus = .success)
    (h : Raid1Io.raid1SubmitRwRequest r ch rets s = some (ch', t)) :
    ReadStage r.numBaseBdevs ch.baseChannel t ∧ t.request = s.request ∧ (t.completions = [] ∨ t.completions = [.failed]) := by
  unfold Raid1Io.raid1SubmitRwRequest at h
  rw [htype] at h
  dsimp only at h
  unfold Raid1Io.raid1SubmitReadRequest at h
  have hfailed : s.completions ++ [IoStatus.failed] = [.failed] := by rw [hdone, List.nil_append]
  cases hnext : r.raid1ChannelNextReadBaseBdev ch with
  | none =>
    rw [hnext] at h
    obtain ⟨-, rfl⟩ := Prod.mk.inj (Option.some.inj h)
    exact ⟨.done hwaits hchildren .failed hfailed, rfl, .inr hfailed⟩
  | some leg =>
    rw [hnext] at h
    dsimp only at h
    by_cases h0 : rets leg = 0
    · rw [if_pos h0, Option.map_map] at h
      obtain ⟨ch₁, -, heq⟩ := Option.map_eq_some_iff.mp h
      obtain ⟨-, rfl⟩ := Prod.mk.inj heq
      have hleast := nextReadBaseBdev_least hnext
      refine ⟨.flight hwaits leg ?_ hdone hstatus rfl hleast.1 hleast.2.1, rfl, .inl hdone⟩
      show s.children ++ [leg] = [leg]
      rw [hchildren, List.nil_append]
    · rw [if_neg h0] at h
      by_cases h1 : rets leg = -ENOMEM
      · rw [if_pos h1] at h
        obtain ⟨-, rfl⟩ := Prod.mk.inj (Option.some.inj h)
        exact ⟨.wait (congrArg (· + 1) hwaits) hchildren hdone hstatus, rfl, .inl hdone⟩
      · rw [if_neg h1, Option.map_some, if_pos h0] at h
        obtain ⟨-, rfl⟩ := Prod.mk.inj (Option.some.inj h)
        exact ⟨.done hwaits hchildren .failed hfailed, rfl, .inr hfailed⟩

/-- The child of a read completes, and the read with it. -/
theorem ReadStage.complete {j leg : Nat} {success : Bool} (htype : s.request.type = .read) (hwaits : s.waits = 0)
    (hchildren : s.children = [leg]) (hdone : s.completions = []) (hstatus : s.baseBdevIoStatus = .success)
    (hcount : s.baseBdevIoRemaining = 1) (hj : j < s.children.length)
    (h : Raid1Io.childComplete ch s j success = some (ch', t)) :
    t.waits = 0 ∧ t.children = [] ∧ t.request = s.request ∧ t.completions = [if success then .success else .failed] := by
  unfold Raid1Io.childComplete at h
  rw [htype] at h
  obtain ⟨ch₁, -, heq⟩ := Option.map_eq_some_iff.mp h
  obtain ⟨-, rfl⟩ := Prod.mk.inj heq
  have hlast : s.raid1BdevIoCompletion j success = _ := Raid1Io.completePart_last (s := { s with
    children := s.children.eraseIdx j
    successful := if success then s.successful ++ [s.children.getD j 0] else s.successful }) hcount (by norm_num)
  obtain rfl : j = 0 := by
    rw [hchildren] at hj
    exact Nat.lt_one_iff.mp hj
  rw [hlast]
  refine ⟨hwaits, ?_, rfl, ?_⟩
  · show s.children.eraseIdx 0 = []
    rw [hchildren]
    rfl
  · show s.completions ++ [_] = [_]
    rw [hdone, hstatus]
    cases success <;> rfl

end requests

/-! ## The array -/

/-- Where a request stands. -/
inductive MirrorStage (r : RaidBdev) (baseChannel : Nat → Bool) (s : Raid1Io) : Prop where
  | write (type : s.request.type = .write) (pending : s.completions = [])
      (stage : WriteStage r.numBaseBdevs ⟨baseChannel, fun _ => 0⟩ s) (tracked : Tracked (presentLegs r baseChannel) s)
  | read (type : s.request.type = .read) (pending : s.completions = []) (stage : ReadStage r.numBaseBdevs baseChannel s)
  | done (waits : s.waits = 0) (children : s.children = []) (status : IoStatus) (completions : s.completions = [status])

/-- What every reachable state keeps of its requests. -/
def Mirror.Inv {α : Type} (r : RaidBdev) (s : Mirror α) : Prop :=
  ∀ x ∈ s.ios, r.Admits x.io.request ∧ MirrorStage r s.baseChannel x.io

section array
variable {α : Type} {bdevs : Nat → Bdev} {r : RaidBdev} {s t : Mirror α} {x x' : MirrorIo α} {S : Store Nat (Nat × Nat) α}
  {base : Nat → Bool} {i : Nat}

theorem MirrorStage.of_write {io : Raid1Io} (type : io.request.type = .write)
    (stage : WriteStage r.numBaseBdevs ⟨base, fun _ => 0⟩ io) (tracked : Tracked (presentLegs r base) io) :
    MirrorStage r base io := by
  cases stage with
  | wait going more waits => exact .write type going.completions (.wait going more waits) tracked
  | past waits completions count pos le legs full =>
    exact .write type completions (.past waits completions count pos le legs full) tracked
  | done waits children completions => exact .done waits children _ completions

theorem MirrorStage.of_read {io : Raid1Io} (type : io.request.type = .read) (stage : ReadStage r.numBaseBdevs base io) :
    MirrorStage r base io := by
  cases stage with
  | wait waits children completions status => exact .read type completions (.wait waits children completions status)
  | flight waits leg children completions status count lt present =>
    exact .read type completions (.flight waits leg children completions status count lt present)
  | done waits children status completions => exact .done waits children status completions

/-- Of a child nothing wraps. -/
theorem child_place (h : Sound bdevs r) (hl : r.level = .raid1) {q : RaidIo} (ha : r.Admits q) {leg : Nat}
    (hleg : leg < r.numBaseBdevs) :
    r.child leg q.offsetBlocks q.numBlocks = ⟨leg, (r.info leg).dataOffset + q.offsetBlocks, q.numBlocks⟩ := by
  have hshape := h.shape
  unfold Shape at hshape
  rw [hl] at hshape
  have hsize : (r.info leg).dataSize = r.blockcnt := hshape _ (info_mem hleg)
  have hfit := h.regions _ (info_mem hleg)
  have hlt := (bdevs ((r.info leg).desc.getD 0)).blockcnt_lt
  have hin := ha.2.1
  rw [RaidBdev.child, u64_of_lt (by omega)]

theorem Mirror.op_at (hi : s.ios[i]? = some x) : (s.store r).ops[i]? = some x.op := by
  show (s.ios.map MirrorIo.op)[i]? = some x.op
  rw [List.getElem?_map, hi]
  rfl

theorem Mirror.leg_present {b : Nat} {p : Nat × Nat} (hp : p ∈ s.places r b) : p.1 ∈ presentLegs r s.baseChannel :=
  ⟨hp.1, hp.2.1⟩

/-- A read is not through with anything. -/
theorem through_of_read (type : x.io.request.type = .read) : x.through = ∅ := by
  ext p
  simp [MirrorIo.through, type]

theorem op_status_none : x.op.status = none ↔ x.io.completions = [] := RaidIo.op_status_none

theorem op_of_pending (h : x.io.completions = []) : { x.op with status := none } = x.op := by
  rw [← op_status_none.mpr h]

/-- Of a request in flight a step changes the operation at most by its status when no leg is new. -/
theorem op_same {io : Raid1Io} (pending : x.io.completions = []) (hreq : io.request = x.io.request)
    (hthrough : MirrorIo.through ⟨x.thread, io, x.buf⟩ = x.through) :
    { (MirrorIo.op ⟨x.thread, io, x.buf⟩ : Op Nat (Nat × Nat) α) with status := none } = x.op := by
  rw [← op_of_pending pending, MirrorIo.op, MirrorIo.op, hthrough, hreq]
  rfl

theorem through_same {io : Raid1Io} (hreq : io.request = x.io.request) (hsuc : io.successful = x.io.successful) :
    MirrorIo.through ⟨x.thread, io, x.buf⟩ = x.through := by
  rw [MirrorIo.through, MirrorIo.through, hreq, hsuc]

theorem op_of_done {status : IoStatus} (h : x.io.completions = [status]) :
    { x.op with status := some (status == .success) } = x.op := by
  simp [MirrorIo.op, RaidIo.op, h]

/-- A write that has come to its end succeeds when it is through with all legs. -/
theorem settle_write (hi : S.ops[i]? = some { x.op with status := none }) (type : x.io.request.type = .write)
    (hstage : WriteStage r.numBaseBdevs ⟨base, fun _ => 0⟩ x.io)
    (hplaces : ∀ b, ∀ p ∈ S.places b, p.1 ∈ presentLegs r base) : S.Steps { S with ops := S.ops.set i x.op } := by
  have hpending (h : x.io.completions = []) : S.Steps { S with ops := S.ops.set i x.op } := by
    rw [op_of_pending h] at hi
    rw [set_self hi]
    exact .refl
  cases hstage with
  | wait going => exact hpending going.completions
  | past waits completions => exact hpending completions
  | done waits children completions legs full =>
    apply Store.Steps.one
    rw [← op_of_done completions]
    cases hst : x.io.baseBdevIoStatus with
    | failed => exact .fail i { x.op with status := none } hi rfl
    | success =>
      refine .wrote i { x.op with status := none } hi rfl (RaidIo.writes_of_write type) fun b v p _ _ hp => ?_
      obtain ⟨hlt, hpresent⟩ := hplaces b p hp
      refine ⟨type, ?_⟩
      have hacc : p.1 ∈ x.io.accepted := by
        rw [legs.accepted, full hst]
        exact List.mem_filter.mpr ⟨List.mem_range.mpr hlt, hpresent⟩
      rcases legs.kept hst p.1 hacc with hin | hin
      · rw [children] at hin
        cases hin
      · exact hin

/-- A read that failed or is still to be handed to a leg. -/
theorem settle_read (hi : S.ops[i]? = some { x.op with status := none })
    (hdone : x.io.completions = [] ∨ x.io.completions = [.failed]) : S.Steps { S with ops := S.ops.set i x.op } := by
  rcases hdone with hdone | hdone
  · rw [op_of_pending hdone] at hi
    rw [set_self hi]
    exact .refl
  · apply Store.Steps.one
    rw [← op_of_done hdone]
    exact .fail i { x.op with status := none } hi rfl

theorem mem_places (h : Sound bdevs r) (hl : r.level = .raid1) {q : RaidIo} (ha : r.Admits q) {leg k : Nat}
    (hleg : leg ∈ presentLegs r s.baseChannel) (p : Nat × Nat)
    (hp : p = (leg, (r.child leg q.offsetBlocks q.numBlocks).offsetBlocks + k)) : p ∈ s.places r (q.offsetBlocks + k) := by
  rw [child_place h hl ha hleg.1] at hp
  subst hp
  exact ⟨hleg.1, hleg.2, Nat.add_assoc ..⟩

/-- A request that was just submitted may be at its end already. -/
theorem submit_ends {thread : Nat} {q : RaidIo} {rets : Nat → Int} {ch : IoChannel} (hn : 1 ≤ r.numBaseBdevs)
    (hn' : r.numBaseBdevs ≤ 255) (htype : q.type = .read ∨ q.type = .write)
    (h : Raid1Io.raid1SubmitRwRequest r (s.ch thread) rets { request := q } = some (ch, x.io)) :
    x.io.request = q ∧ MirrorStage r s.baseChannel x.io ∧ x.through = ∅ ∧
    (S.places = s.places r → S.ops[i]? = some { x.op with status := none } →
      S.Steps { S with ops := S.ops.set i x.op }) := by
  rcases htype with hread | hwrite
  · obtain ⟨hstage, hreq, hend⟩ := ReadStage.submit (s := { request := q }) hread rfl rfl rfl rfl h
    have htype : x.io.request.type = .read := (congrArg RaidIo.type hreq).trans hread
    exact ⟨hreq, .of_read htype hstage, through_of_read htype, fun _ hi => settle_read hi hend⟩
  · obtain ⟨hreq, hsuc, more⟩ := submitWrite_grows h hwrite
    have htype : x.io.request.type = .write := (congrArg RaidIo.type hreq).trans hwrite
    have hstage : WriteStage r.numBaseBdevs ⟨s.baseChannel, fun _ => 0⟩ x.io :=
      (WriteStage.start hn hn' hwrite h).of_baseChannel rfl
    have htracked : Tracked (presentLegs r s.baseChannel) x.io := by
      refine Grows.tracked (s := { request := q }) ⟨hreq, hsuc, more⟩ ⟨?_, [], List.Perm.refl _⟩
      intro leg hleg
      cases hleg
    refine ⟨hreq, .of_write htype hstage htracked, ?_, fun hplaces hi => settle_write hi htype hstage ?_⟩
    · ext p
      simp [MirrorIo.through, hsuc]
    · intro b p hp
      rw [hplaces] at hp
      exact Mirror.leg_present hp

/-- A request that is submitted. -/
theorem simulates_submit {thread : Nat} {q : RaidIo} {buf : Nat → α} {rets : Nat → Int} {ch : IoChannel}
    (hn : 1 ≤ r.numBaseBdevs) (hn' : r.numBaseBdevs ≤ 255) (hok : s.Apart (.submit thread q buf rets))
    (htype : q.type = .read ∨ q.type = .write)
    (h : Raid1Io.raid1SubmitRwRequest r (s.ch thread) rets { request := q } = some (ch, x.io)) :
    (s.store r).Steps { s.store r with ops := (s.store r).ops ++ [x.op] } := by
  obtain ⟨hreq, -, hthrough, -⟩ := submit_ends (S := s.store r) (i := 0) hn hn' htype h
  have hsubmit : (s.store r).Step { s.store r with ops := (s.store r).ops ++ [{ x.op with status := none }] } := by
    refine .submit _ rfl hthrough fun y hy hpend hc => ?_
    obtain ⟨x₁, hx, rfl⟩ := List.mem_map.mp hy
    have hconflicts : x₁.op.Conflicts x.op := hc
    have hclash : x₁.io.request.Clashes x.io.request := RaidIo.clashes_of_conflicts hconflicts
    rw [hreq] at hclash
    exact hok x₁ hx (op_status_none.mp hpend) hclash
  obtain ⟨-, -, -, hends⟩ := submit_ends (S := { s.store r with ops := (s.store r).ops ++ [{ x.op with status := none }] })
    (i := (s.store r).ops.length) hn hn' htype h
  have hend := hends rfl (by simp)
  refine .cons hsubmit ?_
  simpa using hend

/-- A block of a child in flight is at a place that its write is not through with. -/
theorem child_untouched (hb : Sound bdevs r) (hl : r.level = .raid1) (ha : r.Admits x.io.request)
    (type : x.io.request.type = .write) (stage : WriteStage r.numBaseBdevs ⟨s.baseChannel, fun _ => 0⟩ x.io)
    (tracked : Tracked (presentLegs r s.baseChannel) x.io) {j k : Nat} (hj : j < x.io.children.length)
    (hk : k < x.io.request.numBlocks) {p : Nat × Nat}
    (hp : p = ((x.child r j).slot, (x.child r j).offsetBlocks + k)) :
    ∃ b, x.op.blocks b = true ∧ p ∈ s.places r b ∧ p ∉ x.op.through := by
  obtain ⟨hnew, hleg⟩ := tracked.not_successful stage.nodup hj
  have hblock : x.op.blocks (x.io.request.offsetBlocks + k) = true := RaidIo.block_mem (by rw [type]; decide) hk
  refine ⟨x.io.request.offsetBlocks + k, hblock, mem_places hb hl ha hleg p hp, fun hold => ?_⟩
  have hin := hold.2
  rw [hp] at hin
  exact hnew hin

/-- A child of a write that is successful. -/
theorem child_stored (hb : Sound bdevs r) (hl : r.level = .raid1) (hop : (s.store r).ops[i]? = some x.op)
    (ha : r.Admits x.io.request) (type : x.io.request.type = .write) (pending : x.io.completions = [])
    (stage : WriteStage r.numBaseBdevs ⟨s.baseChannel, fun _ => 0⟩ x.io)
    (tracked : Tracked (presentLegs r s.baseChannel) x.io) {j : Nat} (hj : j < x.io.children.length) {through : Set (Nat × Nat)}
    (hthrough : ∀ p, p ∈ through ↔ p ∈ x.through ∨ p.1 = x.io.children.getD j 0) :
    (s.store r).Step ⟨s.places r, fun p => (x.child r j).store s.disk x.buf p.1 p.2,
      (s.store r).ops.set i { x.op with through }⟩ := by
  refine .store i x.op _ _ hop (op_status_none.mpr pending) (RaidIo.writes_of_write type) ?_ ?_
  · intro p hp
    apply Child.store_of_not
    intro k hk hpk
    obtain ⟨b, hblock, hin, hnot⟩ := child_untouched hb hl ha type stage tracked hj hk hpk
    exact hnot (hp b hblock hin)
  · intro b v p hblock hv hp hin hold
    obtain ⟨-, hle, hlt⟩ := RaidIo.mem_blocks.mp hblock
    have hleg := (tracked.not_successful stage.nodup hj).2
    have hv' : x.buf (b - x.io.request.offsetBlocks) = v := by
      simpa [MirrorIo.op, RaidIo.op, type] using hv
    have hp1 : p.1 = (x.child r j).slot := ((hthrough p).mp hin).resolve_left hold
    have hoff : (x.child r j).offsetBlocks = (r.info p.1).dataOffset + x.io.request.offsetBlocks := by
      rw [hp1, MirrorIo.child, child_place hb hl ha hleg.1]
    have hp2 : p.2 = (x.child r j).offsetBlocks + (b - x.io.request.offsetBlocks) := by
      rw [hp.2.2, hoff]
      omega
    have hin : b - x.io.request.offsetBlocks < (x.child r j).numBlocks := by
      show b - x.io.request.offsetBlocks < x.io.request.numBlocks
      omega
    show (x.child r j).store s.disk x.buf p.1 p.2 = v
    rw [hp2, hp1, ← hv']
    exact Child.store_at hin

/-- A write that was handed to more legs or of which a child failed. -/
theorem write_goes_on (hi : s.ios[i]? = some x) (type : x.io.request.type = .write) (pending : x.io.completions = [])
    {io : Raid1Io} (hreq : io.request = x.io.request) (hsuc : io.successful = x.io.successful)
    (stage : WriteStage r.numBaseBdevs ⟨s.baseChannel, fun _ => 0⟩ io) :
    (s.store r).Steps { s.store r with ops := (s.store r).ops.set i (MirrorIo.op ⟨x.thread, io, x.buf⟩) } := by
  have hop : (s.store r).ops[i]? = some x.op := Mirror.op_at hi
  have htype : io.request.type = .write := (congrArg RaidIo.type hreq).trans type
  have hsame : { (MirrorIo.op ⟨x.thread, io, x.buf⟩ : Op Nat (Nat × Nat) α) with status := none } = x.op :=
    op_same pending hreq (through_same hreq hsuc)
  exact settle_write (S := s.store r) (x := ⟨x.thread, io, x.buf⟩) (hop.trans (congrArg some hsame.symm)) htype stage
    fun _ _ => Mirror.leg_present

/-- A write that is through with one more leg. -/
theorem write_stored (hb : Sound bdevs r) (hl : r.level = .raid1) (hi : s.ios[i]? = some x) (ha : r.Admits x.io.request)
    (type : x.io.request.type = .write) (pending : x.io.completions = [])
    (stage : WriteStage r.numBaseBdevs ⟨s.baseChannel, fun _ => 0⟩ x.io)
    (tracked : Tracked (presentLegs r s.baseChannel) x.io) {j : Nat} (hj : j < x.io.children.length) {io : Raid1Io}
    (hreq : io.request = x.io.request) (hsuc : io.successful = x.io.successful ++ [x.io.children.getD j 0])
    (after : WriteStage r.numBaseBdevs ⟨s.baseChannel, fun _ => 0⟩ io) :
    (s.store r).Steps ⟨s.places r, fun p => (x.child r j).store s.disk x.buf p.1 p.2,
      (s.store r).ops.set i (MirrorIo.op ⟨x.thread, io, x.buf⟩)⟩ := by
  have hop : (s.store r).ops[i]? = some x.op := Mirror.op_at hi
  have hlen : i < (s.store r).ops.length := (List.getElem?_eq_some_iff.mp hop).1
  have htype : io.request.type = .write := (congrArg RaidIo.type hreq).trans type
  have hthrough (p : Nat × Nat) : p ∈ MirrorIo.through ⟨x.thread, io, x.buf⟩ ↔
      p ∈ x.through ∨ p.1 = x.io.children.getD j 0 := by
    simp [MirrorIo.through, hreq, type, hsuc]
  have hstore := child_stored hb hl hop ha type pending stage tracked hj hthrough
  refine .cons hstore ?_
  have hsame : { (MirrorIo.op ⟨x.thread, io, x.buf⟩ : Op Nat (Nat × Nat) α) with status := none } =
      { x.op with through := MirrorIo.through ⟨x.thread, io, x.buf⟩ } := by
    rw [← op_of_pending pending]
    simp [MirrorIo.op, RaidIo.op, hreq]
  have hend := settle_write (S := ⟨s.places r, fun p => (x.child r j).store s.disk x.buf p.1 p.2,
      (s.store r).ops.set i { x.op with through := MirrorIo.through ⟨x.thread, io, x.buf⟩ }⟩)
    (i := i) (x := ⟨x.thread, io, x.buf⟩) (by rw [List.getElem?_set_self hlen, hsame]) htype after
    fun _ _ => Mirror.leg_present
  rwa [List.set_set] at hend

/-- An event of a write. Its places change when a child is through with its leg. -/
theorem simulates_write (hb : Sound bdevs r) (hl : r.level = .raid1) (hn : 1 ≤ r.numBaseBdevs) (hi : s.ios[i]? = some x)
    (ha : r.Admits x.io.request) (type : x.io.request.type = .write) (pending : x.io.completions = [])
    (stage : WriteStage r.numBaseBdevs ⟨s.baseChannel, fun _ => 0⟩ x.io)
    (tracked : Tracked (presentLegs r s.baseChannel) x.io) {e : Raid1Io.Event} {ch : IoChannel} {io : Raid1Io}
    (h : Raid1Io.step r (s.ch x.thread) x.io e = some (ch, io)) :
    (s.store r).Steps ⟨s.places r, fun p => x.diskAfter r s.disk e p.1 p.2,
      (s.store r).ops.set i (MirrorIo.op ⟨x.thread, io, x.bufAfter r s.disk e⟩)⟩ ∧
    io.request = x.io.request ∧ MirrorStage r s.baseChannel io := by
  have hbefore : WriteStage r.numBaseBdevs (s.ch x.thread) x.io := stage.of_baseChannel rfl
  have hstage : WriteStage r.numBaseBdevs ⟨s.baseChannel, fun _ => 0⟩ io :=
    (hbefore.step hn hb.num_base_bdevs_le type h).of_baseChannel rfl
  unfold Raid1Io.step at h
  cases e with
  | ioWait rets =>
    dsimp only at h
    obtain ⟨-, h⟩ := Option.ite_none_right_eq_some.mp h
    obtain ⟨hreq, hsuc, more⟩ := submitWrite_grows h type
    have htype : io.request.type = .write := (congrArg RaidIo.type hreq).trans type
    have htracked : Tracked (presentLegs r s.baseChannel) io :=
      Grows.tracked (s := { x.io with waits := x.io.waits - 1 }) ⟨hreq, hsuc, more⟩ tracked
    exact ⟨write_goes_on hi type pending hreq hsuc hstage, hreq, .of_write htype hstage htracked⟩
  | complete j success =>
    unfold Raid1Io.childComplete at h
    rw [type] at h
    dsimp only at h
    obtain ⟨hj, h⟩ := Option.ite_none_right_eq_some.mp h
    obtain ⟨-, hio⟩ := Prod.mk.inj (Option.some.inj h)
    have hreq : io.request = x.io.request := hio ▸ bdevIoCompletion_request j success
    have hsuc : io.successful = _ := hio ▸ completion_successful x.io j success
    have htracked : Tracked (presentLegs r s.baseChannel) io := hio ▸ tracked.complete hj success
    have htype : io.request.type = .write := (congrArg RaidIo.type hreq).trans type
    refine ⟨?_, hreq, .of_write htype hstage htracked⟩
    cases success with
    | false => exact write_goes_on hi type pending hreq hsuc hstage
    | true =>
      have hdisk : x.diskAfter r s.disk (.complete j true) = (x.child r j).store s.disk x.buf := if_pos type
      have hbuf : x.bufAfter r s.disk (.complete j true) = x.buf := if_neg (by rw [type]; decide)
      rw [hdisk, hbuf]
      exact write_stored hb hl hi ha type pending stage tracked hj hreq hsuc hstage

/-- A read that was submitted again or of which the child failed. -/
theorem read_goes_on (hi : s.ios[i]? = some x) (type : x.io.request.type = .read) (pending : x.io.completions = [])
    {io : Raid1Io} (hreq : io.request = x.io.request) (hdone : io.completions = [] ∨ io.completions = [.failed]) :
    (s.store r).Steps { s.store r with ops := (s.store r).ops.set i (MirrorIo.op ⟨x.thread, io, x.buf⟩) } := by
  have hop : (s.store r).ops[i]? = some x.op := Mirror.op_at hi
  have htype : io.request.type = .read := (congrArg RaidIo.type hreq).trans type
  have hthrough : MirrorIo.through ⟨x.thread, io, x.buf⟩ = x.through := by
    rw [through_of_read type]
    exact through_of_read htype
  have hsame : { (MirrorIo.op ⟨x.thread, io, x.buf⟩ : Op Nat (Nat × Nat) α) with status := none } = x.op :=
    op_same pending hreq hthrough
  exact settle_read (S := s.store r) (x := ⟨x.thread, io, x.buf⟩) (hop.trans (congrArg some hsame.symm)) hdone

/-- A read whose child was successful: it finds each block on the leg. -/
theorem read_found (hb : Sound bdevs r) (hl : r.level = .raid1) (hi : s.ios[i]? = some x) (ha : r.Admits x.io.request)
    (type : x.io.request.type = .read) (pending : x.io.completions = []) {j leg : Nat} (children : x.io.children = [leg])
    (hj : j < x.io.children.length) (hleg : leg ∈ presentLegs r s.baseChannel) {io : Raid1Io}
    (hreq : io.request = x.io.request) (hdone : io.completions = [.success]) :
    (s.store r).Step { s.store r with
      ops := (s.store r).ops.set i (MirrorIo.op ⟨x.thread, io, (x.child r j).load s.disk x.buf⟩) } := by
  have htype : io.request.type = .read := (congrArg RaidIo.type hreq).trans type
  have hthrough (buf : Nat → α) : MirrorIo.through ⟨x.thread, io, buf⟩ = x.through := by
    rw [through_of_read type]
    exact through_of_read htype
  have hset (buf : Nat → α) : MirrorIo.op ⟨x.thread, io, buf⟩ =
      { x.op with data := (MirrorIo.op ⟨x.thread, io, buf⟩).data, status := some true } := by
    simp [MirrorIo.op, RaidIo.op, hthrough, hreq, hdone]
  rw [hset]
  refine .read i x.op _ (Mirror.op_at hi) (op_status_none.mpr pending) (RaidIo.writes_of_read type) fun b hblock => ?_
  obtain ⟨-, hle, hlt⟩ := RaidIo.mem_blocks.mp hblock
  obtain rfl : j = 0 := by
    rw [children] at hj
    exact Nat.lt_one_iff.mp hj
  have hchild : x.child r 0 = ⟨leg, (r.info leg).dataOffset + x.io.request.offsetBlocks, x.io.request.numBlocks⟩ := by
    rw [MirrorIo.child, children]
    exact child_place hb hl ha hleg.1
  refine ⟨(leg, (r.info leg).dataOffset + b), ⟨hleg.1, hleg.2, rfl⟩, ?_⟩
  have hin : b - x.io.request.offsetBlocks < x.io.request.numBlocks := by omega
  have hat : (r.info leg).dataOffset + x.io.request.offsetBlocks + (b - x.io.request.offsetBlocks) =
      (r.info leg).dataOffset + b := by omega
  simp [MirrorIo.op, RaidIo.op, hreq, type, hchild, Child.load, hin, hat, Mirror.store]

/-- An event of a read. It is completed when its child is, with the blocks of the leg in its buffers. -/
theorem simulates_read (hb : Sound bdevs r) (hl : r.level = .raid1) (hi : s.ios[i]? = some x)
    (ha : r.Admits x.io.request) (type : x.io.request.type = .read) (pending : x.io.completions = [])
    (stage : ReadStage r.numBaseBdevs s.baseChannel x.io) {e : Raid1Io.Event} {ch : IoChannel} {io : Raid1Io}
    (h : Raid1Io.step r (s.ch x.thread) x.io e = some (ch, io)) :
    (s.store r).Steps ⟨s.places r, fun p => x.diskAfter r s.disk e p.1 p.2,
      (s.store r).ops.set i (MirrorIo.op ⟨x.thread, io, x.bufAfter r s.disk e⟩)⟩ ∧
    io.request = x.io.request ∧ MirrorStage r s.baseChannel io := by
  unfold Raid1Io.step at h
  cases e with
  | ioWait rets =>
    dsimp only at h
    obtain ⟨hpos, h⟩ := Option.ite_none_right_eq_some.mp h
    cases stage with
    | wait waits children completions status =>
      obtain ⟨hstage, hreq, hend⟩ := ReadStage.submit (s := { x.io with waits := x.io.waits - 1 }) type
        (by show x.io.waits - 1 = 0; omega) children pending status h
      have hreq' : io.request = x.io.request := hreq
      have htype : io.request.type = .read := (congrArg RaidIo.type hreq').trans type
      exact ⟨read_goes_on hi type pending hreq' hend, hreq', .of_read htype hstage⟩
    | flight waits => omega
    | done waits => omega
  | complete j success =>
    dsimp only at h
    obtain ⟨hj, h⟩ := Option.ite_none_right_eq_some.mp h
    cases stage with
    | wait waits children =>
      rw [children] at hj
      cases hj
    | done waits children =>
      rw [children] at hj
      cases hj
    | flight waits leg children completions status count lt present =>
      obtain ⟨hwaits, hchildren, hreq, hdone⟩ := ReadStage.complete type waits children pending status count hj h
      refine ⟨?_, hreq, .done hwaits hchildren _ hdone⟩
      cases success with
      | false => exact read_goes_on hi type pending hreq (.inr hdone)
      | true =>
        have hdisk : x.diskAfter r s.disk (.complete j true) = s.disk := if_neg (by rw [type]; decide)
        have hbuf : x.bufAfter r s.disk (.complete j true) = (x.child r j).load s.disk x.buf := if_pos type
        rw [hdisk, hbuf]
        exact .one (read_found hb hl hi ha type pending children hj ⟨lt, present⟩ hreq hdone)

/-- A write in flight changes a block of one of its legs. -/
theorem simulates_garble (hb : Sound bdevs r) (hl : r.level = .raid1) (hi : s.ios[i]? = some x)
    (ha : r.Admits x.io.request) (type : x.io.request.type = .write) (pending : x.io.completions = [])
    (stage : WriteStage r.numBaseBdevs ⟨s.baseChannel, fun _ => 0⟩ x.io)
    (tracked : Tracked (presentLegs r s.baseChannel) x.io) {j k : Nat} (hj : j < x.io.children.length)
    (hk : k < x.io.request.numBlocks) (v : α) :
    (s.store r).Steps ⟨s.places r, fun p => Function.update s.disk (x.child r j).slot
      (Function.update (s.disk (x.child r j).slot) ((x.child r j).offsetBlocks + k) v) p.1 p.2, (s.store r).ops⟩ := by
  have hop : (s.store r).ops[i]? = some x.op := Mirror.op_at hi
  have hself : (s.store r).ops.set i { x.op with through := x.op.through } = (s.store r).ops := set_self hop
  apply Store.Steps.one
  rw [← hself]
  refine .store i x.op _ _ hop (op_status_none.mpr pending) (RaidIo.writes_of_write type)
    (fun p hp => ?_) fun b v p _ _ _ hin hnot => absurd hin hnot
  by_cases hat : p = ((x.child r j).slot, (x.child r j).offsetBlocks + k)
  · obtain ⟨b, hblock, hin, hnot⟩ := child_untouched hb hl ha type stage tracked hj hk hat
    exact absurd (hp b hblock hin) hnot
  · exact update_of_not hat

/-- Every step of the array is some steps of the store. -/
theorem Mirror.simulates (hb : Sound bdevs r) (hl : r.level = .raid1) (hinv : s.Inv r) {e : Mirror.Event α}
    (hok : s.Apart e) (h : s.step r e = some t) : t.Inv r ∧ (s.store r).Steps (t.store r) := by
  have hn : 1 ≤ r.numBaseBdevs := by
    have hmin := hb.base_bdevs_min
    rw [hl] at hmin
    exact Nat.le_trans (by decide) hmin
  unfold Mirror.step at h
  cases e with
  | submit thread q buf rets =>
    obtain ⟨⟨ha, htype⟩, h⟩ := Option.ite_none_right_eq_some.mp h
    obtain ⟨⟨ch, io⟩, hsub, rfl⟩ := Option.map_eq_some_iff.mp h
    have hsteps := simulates_submit (x := ⟨thread, io, buf⟩) hn hb.num_base_bdevs_le hok htype hsub
    obtain ⟨hreq, hstage, -, -⟩ := submit_ends (S := s.store r) (i := 0) (x := ⟨thread, io, buf⟩) hn
      hb.num_base_bdevs_le htype hsub
    constructor
    · intro x hx
      rcases List.mem_append.mp hx with hx | hx
      · exact hinv x hx
      · rw [List.mem_singleton.mp hx]
        exact ⟨hreq ▸ ha, hstage⟩
    · have hops (y : MirrorIo α) : (s.ios ++ [y]).map MirrorIo.op = (s.store r).ops ++ [y.op] := List.map_append
      rw [← hops] at hsteps
      exact hsteps
  | io i e =>
    obtain ⟨x, hi, h⟩ := Option.bind_eq_some_iff.mp h
    obtain ⟨⟨ch, io⟩, hstep, rfl⟩ := Option.map_eq_some_iff.mp h
    obtain ⟨ha, hstage⟩ := hinv x (List.mem_of_getElem? hi)
    have hmoves : (s.store r).Steps ⟨s.places r, fun p => x.diskAfter r s.disk e p.1 p.2,
        (s.store r).ops.set i (MirrorIo.op ⟨x.thread, io, x.bufAfter r s.disk e⟩)⟩ ∧
        io.request = x.io.request ∧ MirrorStage r s.baseChannel io := by
      cases hstage with
      | write type pending stage tracked => exact simulates_write hb hl hn hi ha type pending stage tracked hstep
      | read type pending stage => exact simulates_read hb hl hi ha type pending stage hstep
      | done waits children =>
        -- nothing is left to happen to it
        unfold Raid1Io.step at hstep
        cases e with
        | ioWait rets =>
          obtain ⟨hpos, -⟩ := Option.ite_none_right_eq_some.mp hstep
          omega
        | complete j success =>
          obtain ⟨hj, -⟩ := Option.ite_none_right_eq_some.mp hstep
          rw [children] at hj
          cases hj
    obtain ⟨hsteps, hreq, hafter⟩ := hmoves
    constructor
    · intro y hy
      rcases List.mem_or_eq_of_mem_set hy with hy | rfl
      · exact hinv y hy
      · exact ⟨hreq.symm ▸ ha, hafter⟩
    · have hops (y : MirrorIo α) : (s.ios.set i y).map MirrorIo.op = (s.store r).ops.set i y.op := List.map_set
      rw [← hops] at hsteps
      exact hsteps
  | garble i j k v =>
    obtain ⟨x, hi, h⟩ := Option.bind_eq_some_iff.mp h
    obtain ⟨⟨type, hj, hk⟩, h⟩ := Option.ite_none_right_eq_some.mp h
    obtain rfl := Option.some.inj h
    obtain ⟨ha, hstage⟩ := hinv x (List.mem_of_getElem? hi)
    refine ⟨hinv, ?_⟩
    cases hstage with
    | write _ pending stage tracked => exact simulates_garble hb hl hi ha type pending stage tracked hj hk v
    | read type' => cases type.symm.trans type'
    | done waits children =>
      rw [children] at hj
      cases hj
  | removeBaseChannel idx =>
    obtain ⟨hall, h⟩ := Option.ite_none_right_eq_some.mp h
    obtain rfl := Option.some.inj h
    constructor
    · intro x hx
      obtain ⟨ha, hstage⟩ := hinv x hx
      refine ⟨ha, ?_⟩
      have hdone : x.io.completions ≠ [] := by
        have := List.all_eq_true.mp hall x hx
        simpa using this
      cases hstage with
      | write type pending => exact absurd pending hdone
      | read type pending => exact absurd pending hdone
      | done waits children status completions => exact .done waits children status completions
    · apply Store.Steps.one
      have hfewer : ∀ b, Mirror.places r { s with baseChannel := Function.update s.baseChannel idx false } b ⊆ s.places r b := by
        intro b p hp
        refine ⟨hp.1, ?_, hp.2.2⟩
        have hpresent : Function.update s.baseChannel idx false p.1 = true := hp.2.1
        by_cases hidx : p.1 = idx
        · rw [hidx, Function.update_self] at hpresent
          cases hpresent
        · rwa [Function.update_of_ne hidx] at hpresent
      exact .drop _ hfewer

/-! ## Every run -/

variable {baseChannel : Nat → Bool} {disk : Nat → Nat → α} {known : Nat → Option α}

/-- Every reachable state is a sound store. -/
theorem mirror_sound (hr : Assembled bdevs r) (hl : r.level = .raid1)
    (hknown : ∀ b v, known b = some v → ∀ leg < r.numBaseBdevs, baseChannel leg = true →
      disk leg ((r.info leg).dataOffset + b) = v)
    (h : Reach (Mirror.step r) Mirror.Apart (Mirror.init baseChannel disk) s) : (s.store r).Sound known := by
  have hrun : s.Inv r ∧ ((Mirror.init baseChannel disk).store r).Steps (s.store r) := by
    refine h.invariant (I := fun s => s.Inv r ∧ ((Mirror.init baseChannel disk).store r).Steps (s.store r)) ?_ ?_
    · have hnone : (Mirror.init baseChannel disk).Inv r := fun x hx => by cases hx
      exact ⟨hnone, .refl⟩
    · intro s e t hi hok hstep
      obtain ⟨hinv, hsteps⟩ := Mirror.simulates hr.sound hl hi.1 hok hstep
      exact ⟨hinv, hi.2.trans hsteps⟩
  have hnew : ((Mirror.init baseChannel disk).store r).Sound known := by
    apply Store.sound_new
    · intro b b' p hp hp'
      have h1 := hp.2.2
      have h2 := hp'.2.2
      omega
    · intro b v hv p hp
      show disk p.1 p.2 = v
      rw [hp.2.2]
      exact hknown b v hv p.1 hp.1 hp.2.1
  exact hnew.steps hrun.2

end array

/-- Two 512 KiB base bdevs of 512-byte blocks, and a raid1 on them. -/
def pairArray : RaidBdev := ((laidOut parityBdevs 0 2 .raid1 false).configureGeometry parityBdevs true).2

theorem pair_assembled : Assembled parityBdevs pairArray :=
  .configured (r := { laidOut parityBdevs 0 2 .raid1 false with baseBdevInfo := List.replicate 2 {} })
    (show 0 < 2 ^ 32 by decide) (show 2 ≤ 255 by decide)
    (show RaidBdev.make "md" 0 2 .raid1 false 0 = .ok _ from rfl)
    (show (laidOut parityBdevs 0 2 .raid1 false).baseBdevInfo.length = 2 by decide)
    (fun info hi => by
      obtain ⟨b, -, rfl⟩ := List.mem_map.mp hi
      exact ⟨{}, b, rfl⟩)
    (show (laidOut parityBdevs 0 2 .raid1 false).configureGeometry parityBdevs true = (0, pairArray) by decide +kernel)
    ⟨9, by decide +kernel⟩

/-- A write on one thread, of which both legs make something else at first; then the first leg is removed,
    and another thread reads the block and the next one. -/
def pairEvents : List (Mirror.Event Nat) :=
  [.submit 0 ⟨.write, 8, 1⟩ (fun _ => 7) (fun _ => 0), .garble 0 0 0 1, .garble 0 1 0 2, .io 0 (.complete 1 true),
   .io 0 (.complete 0 true), .removeBaseChannel 0, .submit 1 ⟨.read, 8, 2⟩ (fun _ => 0) (fun _ => 0),
   .io 1 (.complete 0 true)]

/-- A state after these events, and the read in it. -/
theorem pair_run : ∃ (s : Mirror Nat) (x : MirrorIo Nat),
    Reach (Mirror.step pairArray) Mirror.Apart (Mirror.init (fun _ => true) fun _ _ => 5) s ∧ s.ios[1]? = some x ∧
    x.io.request = ⟨.read, 8, 2⟩ ∧ x.io.completions = [.success] ∧ x.io.successful = [1] ∧
    s.device (fun _ => some 5) 1 8 = some 7 ∧ s.device (fun _ => some 5) 1 9 = some 5 ∧
    s.device (fun _ => some 5) s.ios.length 8 = some 7 ∧ s.baseChannel 1 = true ∧
    (pairArray.info 1).dataOffset + 8 = 8 := by
  obtain ⟨s, x, hs, hx⟩ : ∃ (s : Mirror Nat) (x : MirrorIo Nat),
      execIf (Mirror.step pairArray) Mirror.Apart (Mirror.init (fun _ => true) fun _ _ => 5) pairEvents = some s ∧
      s.ios[1]? = some x ∧ x.io.request = ⟨.read, 8, 2⟩ ∧ x.io.completions = [.success] ∧ x.io.successful = [1] ∧
      s.device (fun _ => some 5) 1 8 = some 7 ∧ s.device (fun _ => some 5) 1 9 = some 5 ∧
      s.device (fun _ => some 5) s.ios.length 8 = some 7 ∧ s.baseChannel 1 = true ∧
      (pairArray.info 1).dataOffset + 8 = 8 := by
    refine ⟨_, _, rfl, rfl, ?_⟩
    decide +kernel
  exact ⟨s, x, Reach.ofRun pairEvents .init hs, hx⟩

end FlexBSO.Raid

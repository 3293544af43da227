import FlexBSO.Raid.Parents
import FlexBSO.Raid.Ranges
import FlexBSO.Raid.Transfer

/- A raid0 bdev as its users see it. Reads and writes go to one base bdev each, an unmap or a
   flush to several of them, one child after the other; all of them run at the same time, as
   long as those that share a block only read. The bdev is a store with one place for each
   block, the one that reads and writes of it address: a child in flight is on places of its
   request, whichever of the two ways it was cut, so what a read finds was left there by the
   last request before it that changed the block (`stripe_set_reads`, `stripe_set_blocks`). -/
namespace FlexBSO.Raid

open FlexBSO.Lib

namespace ParentIo
variable (r : RaidBdev)

/-- `raid0_submit_rw_request`, whose submission returns `ret`; also the callback of its io-wait
    entries -/
def raid0SubmitRwRequest (q : RaidIo) (s : ParentIo) (ret : Int) : Option ParentIo :=
  match r.raid0SubmitRwRequest q with
  | [] => some (s.raidBdevIoComplete .failed)
  | child :: _ =>
    if s.baseChannel child.slot = false then none
    else if ret = 0 then some { s with children := s.children ++ [child] }
    else if ret = -ENOMEM then some { s with waits := s.waits + 1 }
    else some (s.raidBdevIoComplete .failed)

/-- `raid0_bdev_io_completion` of the child at `j` -/
def raid0BdevIoCompletion (s : ParentIo) (j : Nat) (success : Bool) : ParentIo :=
  { s with children := s.children.eraseIdx j }.raidBdevIoComplete (if success then .success else .failed)

end ParentIo

/-- The request reads or writes. -/
def RaidIo.Transfers (q : RaidIo) : Prop := q.type = .read ∨ q.type = .write

instance (q : RaidIo) : Decidable q.Transfers := by
  unfold RaidIo.Transfers
  exact inferInstance

/-- A request with the blocks in its buffers. -/
structure StripeIo (α : Type) where
  request : RaidIo
  io : ParentIo
  buf : Nat → α

/-- A raid0 bdev: its requests, and the base bdevs of the slots. -/
structure StripeSet (α : Type) where
  ios : List (StripeIo α)
  disk : Nat → Nat → α

namespace StripeIo
variable {α : Type} (r : RaidBdev) (x : StripeIo α)

/-- `raid_bdev_submit_request`: `ret` is what the submission of a read or a write returns, the others
    make theirs in turns of a loop. -/
def submit (q : RaidIo) (baseChannel : Nat → Bool) (ret : Int) : Option ParentIo :=
  if q.Transfers then
    ParentIo.raid0SubmitRwRequest r q
      { baseBdevIoRemaining := 0, baseBdevIoSubmitted := 0, baseBdevIoStatus := .success
        loop := [], children := [], waits := 0, completions := [], baseChannel } ret
  else ParentIo.raidBdevSubmitRequest r (.nullPayload q) baseChannel

/-- An event of a request. -/
def step (ret : Int) (e : ParentIo.Event) : Option ParentIo :=
  if x.request.Transfers then
    match e with
    | .complete j success => if j < x.io.children.length then some (x.io.raid0BdevIoCompletion j success) else none
    | .ioWait =>
      if 0 < x.io.waits then ParentIo.raid0SubmitRwRequest r x.request { x.io with waits := x.io.waits - 1 } ret else none
    | .turn _ | .removeBaseChannel _ => none
  else
    match e with
    | .removeBaseChannel _ => none
    | .complete _ _ | .ioWait | .turn _ => ParentIo.step r (.nullPayload x.request) x.io e

/-- The child at `j`. -/
def child (j : Nat) : Child := x.io.children.getD j ⟨0, 0, 0⟩

/-- The base bdevs after an event of the request. -/
def diskAfter (disk : Nat → Nat → α) : ParentIo.Event → Nat → Nat → α
  | .complete j true => if x.request.type = .write then (x.child j).store disk x.buf else disk
  | _ => disk

/-- The buffers after an event of the request. -/
def bufAfter (disk : Nat → Nat → α) : ParentIo.Event → Nat → α
  | .complete j true => if x.request.type = .read then (x.child j).load disk x.buf else x.buf
  | _ => x.buf

/-- A write is through with its places when it is completed. -/
def through : Set (Nat × Nat) := { _p | x.request.type = .write ∧ x.io.completions = [.success] }

def op : Op Nat (Nat × Nat) α := x.request.op x.buf x.through x.io.completions

end StripeIo

/-- Where a block is. -/
def RaidBdev.raid0Places (r : RaidBdev) (b : Nat) : Set (Nat × Nat) :=
  { p | b < r.blockcnt ∧ p = ((r.raid0PdLba b).1, (r.info (r.raid0PdLba b).1).dataOffset + (r.raid0PdLba b).2) }

namespace StripeSet
variable {α : Type} (r : RaidBdev) (s : StripeSet α)

/-- What happens to a raid0 bdev: a request is submitted on a channel, the submission of a read or a
    write returning `ret`; something happens to the request at `i`; a child in flight changes a
    block, of a write or of an unmap. -/
inductive Event (α : Type) where
  | submit (request : RaidIo) (buf : Nat → α) (baseChannel : Nat → Bool) (ret : Int)
  | io (i : Nat) (e : ParentIo.Event) (ret : Int)
  | garble (i j k : Nat) (v : α)

/-- One step. -/
def step : Event α → Option (StripeSet α)
  | .submit q buf baseChannel ret =>
    if r.Admits q then
      (StripeIo.submit r q baseChannel ret).map fun io => { s with ios := s.ios ++ [⟨q, io, buf⟩] }
    else none
  | .io i e ret => s.ios[i]?.bind fun x => (x.step r ret e).map fun io =>
      { ios := s.ios.set i ⟨x.request, io, x.bufAfter s.disk e⟩, disk := x.diskAfter s.disk e }
  | .garble i j k v => s.ios[i]?.bind fun x =>
      if x.request.writes = true ∧ j < x.io.children.length ∧ k < (x.child j).numBlocks then
        let c := x.child j
        some { s with disk :=
          Function.update s.disk c.slot (Function.update (s.disk c.slot) (c.offsetBlocks + k) v) }
      else none

/-- A request comes when none in flight clashes with it, and no child of an unmap or a flush is refused
    for good while others are in flight. -/
def Apart : Event α → Prop
  | .submit q _ _ _ => ∀ x ∈ s.ios, x.io.completions = [] → ¬x.request.Clashes q
  | .io i e _ => ∀ x ∈ s.ios[i]?, x.io.NoLateRefusal e
  | .garble _ _ _ _ => True

instance (e : Event α) : Decidable (s.Apart e) := by
  cases e <;> unfold Apart <;> exact inferInstance

/-- The bdev no request came to yet. -/
def init (disk : Nat → Nat → α) : StripeSet α := ⟨[], disk⟩

/-- The bdev as a store. -/
def store : Store Nat (Nat × Nat) α where
  places := r.raid0Places
  disk p := s.disk p.1 p.2
  ops := s.ios.map StripeIo.op

/-- What is known of a block after the first `i` requests, if `known` was at first. -/
def device (known : Nat → Option α) (i b : Nat) : Option α := content known ((s.ios.take i).map StripeIo.op) b

end StripeSet

/-! ## Places -/

section places
variable {bdevs : Nat → Bdev} {r : RaidBdev} {q : RaidIo} {c : Child} {b b' k : Nat}

theorem Sound.raid0_striped (h : Sound bdevs r) (hl : r.level = .raid0) : Striped r := by
  have hshape := h.shape
  unfold Shape at hshape
  rw [hl] at hshape
  exact hshape.1

theorem Sound.raid0_disks (h : Sound bdevs r) (hl : r.level = .raid0) : 1 ≤ r.numBaseBdevs := by
  have hmin := h.base_bdevs_min
  rw [hl] at hmin
  exact hmin

/-- No two blocks are in one place. -/
theorem raid0Places_disjoint (h : Sound bdevs r) (hl : r.level = .raid0) {p : Nat × Nat} (hp : p ∈ r.raid0Places b)
    (hp' : p ∈ r.raid0Places b') : b = b' := by
  have hs := h.raid0_striped hl
  have hS : 0 < r.stripSize := by rw [hs.strip_size]; exact Nat.two_pow_pos _
  have h64 := h.blockcnt_lt
  obtain ⟨hlt, heq⟩ := hp
  obtain ⟨hlt', heq'⟩ := hp'
  obtain ⟨hdisk, hlba⟩ := Prod.mk.inj (heq.symm.trans heq')
  rw [hdisk] at hlba
  have hsame : r.raid0PdLba b = r.raid0PdLba b' := Prod.ext hdisk (by omega)
  rw [raid0PdLba_eq hs (by omega), raid0PdLba_eq hs (by omega)] at hsame
  exact deal_injective hS hsame

/-- Of a child in the data of its slot nothing wraps. -/
theorem child_offset (h : Sound bdevs r) {i off n : Nat} (hc : Contained r (r.child i off n)) (hn : 0 < n)
    (hoff : off < 2 ^ 64) : (r.child i off n).offsetBlocks = (r.info i).dataOffset + off := by
  have hi : i < r.numBaseBdevs := hc.1
  have hfit := h.regions _ (info_mem hi)
  have hlt := (bdevs ((r.info i).desc.getD 0)).blockcnt_lt
  have hin : (r.info i).dataOffset ≤ u64 ((r.info i).dataOffset + off) :=
    (hc.2 _ (Nat.le_refl _) (Nat.lt_add_of_pos_right hn)).1
  show u64 ((r.info i).dataOffset + off) = (r.info i).dataOffset + off
  unfold u64 at hin ⊢
  omega

theorem raid0PdLba_lt (b : Nat) : (r.raid0PdLba b).2 < 2 ^ 64 := Nat.mod_lt _ (by norm_num)

/-- A read or a write goes to one disk and as many blocks there. -/
theorem raid0_rw_child (hs : Striped r) (hn : 1 ≤ r.numBaseBdevs) (hpos : 0 < q.numBlocks)
    (h64 : q.offsetBlocks + q.numBlocks < 2 ^ 64) (hc : c ∈ r.raid0SubmitRwRequest q) :
    c = r.child (r.raid0PdLba q.offsetBlocks).1 (r.raid0PdLba q.offsetBlocks).2 q.numBlocks ∧
    ∀ k < q.numBlocks, r.raid0PdLba (q.offsetBlocks + k) =
      ((r.raid0PdLba q.offsetBlocks).1, (r.raid0PdLba q.offsetBlocks).2 + k) := by
  have hS : 0 < r.stripSize := by rw [hs.strip_size]; exact Nat.two_pow_pos _
  unfold RaidBdev.raid0SubmitRwRequest at hc
  dsimp only at hc
  split at hc
  · cases hc
  next hsame =>
  refine ⟨List.mem_singleton.mp hc, fun k hk => ?_⟩
  rw [raid0PdLba_eq hs (by omega), raid0PdLba_eq hs (by omega)]
  apply deal_add
  by_cases h1 : r.numBaseBdevs = 1
  · exact .inl h1
  · right
    rw [sub64_of_le (by omega) (by omega)] at hsame
    simp only [Nat.shiftRight_eq_div_pow, ← hs.strip_size] at hsame
    have heq : q.offsetBlocks / r.stripSize = (q.offsetBlocks + q.numBlocks - 1) / r.stripSize := by
      by_contra hne
      exact hsame ⟨hne, by omega⟩
    have := same_strip hS hpos heq
    omega

theorem rw_place (h : Sound bdevs r) (hl : r.level = .raid0) (ha : r.Admits q) (hc : c ∈ r.raid0SubmitRwRequest q) :
    c.numBlocks = q.numBlocks ∧ ∀ k < q.numBlocks, (c.slot, c.offsetBlocks + k) ∈ r.raid0Places (q.offsetBlocks + k) := by
  have h64 := h.blockcnt_lt
  have hin := h.raid0_rw hl ha c hc
  obtain ⟨hpos, hend, -, -⟩ := ha
  obtain ⟨rfl, hstep⟩ := raid0_rw_child (h.raid0_striped hl) (h.raid0_disks hl) hpos (by omega) hc
  refine ⟨rfl, fun k hk => ⟨by omega, ?_⟩⟩
  rw [child_offset h hin hpos (raid0PdLba_lt _), hstep k hk, Nat.add_assoc]
  rfl

/-- The children of an unmap are on places of its blocks. -/
theorem part_place (h : Sound bdevs r) (hl : r.level = .raid0) (ha : r.Admits q)
    (hc : c ∈ r.raid0SubmitNullPayloadRequest 0 q) (hk : k < c.numBlocks) :
    ∃ b, q.offsetBlocks ≤ b ∧ b < q.offsetBlocks + q.numBlocks ∧ (c.slot, c.offsetBlocks + k) ∈ r.raid0Places b := by
  have h64 := h.blockcnt_lt
  have hin := h.raid0_null_payload hl 0 ha c hc
  obtain ⟨hpos, hend, -, -⟩ := ha
  have hcover := raid0_ranges_cover (h.raid0_striped hl) (h.raid0_disks hl) h.num_base_bdevs_le hpos
    (show q.offsetBlocks + q.numBlocks < 2 ^ 64 by omega)
  have hparts : c ∈ (r.raid0DiskRanges q.offsetBlocks q.numBlocks).map fun x =>
      r.child x.diskIdx x.offsetInDisk x.nblocksInDisk := hcover.submitted q.type ▸ hc
  obtain ⟨x, hx, rfl⟩ := List.mem_map.mp hparts
  have hk' : k < x.nblocksInDisk := hk
  have hmem : (x.diskIdx, x.offsetInDisk + k) ∈ (r.raid0DiskRanges q.offsetBlocks q.numBlocks).flatMap DiskRange.blocks :=
    List.mem_flatMap.mpr ⟨x, hx, mem_blocks.mpr ⟨rfl, Nat.le_add_right _ _, Nat.add_lt_add_left hk' _⟩⟩
  obtain ⟨b, hb, hat⟩ := List.mem_map.mp (hcover.covers.mem_iff.mp hmem)
  obtain ⟨hge, hlt⟩ := List.mem_range'_1.mp hb
  have hoff := raid0PdLba_lt (r := r) b
  rw [hat] at hoff
  have hoff' : x.offsetInDisk < 2 ^ 64 := Nat.lt_of_le_of_lt (Nat.le_add_right _ _) hoff
  refine ⟨b, hge, hlt, by omega, ?_⟩
  rw [hat, child_offset h hin (by omega) hoff', Nat.add_assoc]
  rfl

end places

/-! ## One request -/

/-- Where a request stands: a read or a write waits to be submitted again, is in flight or completed; an
    unmap or a flush is kept to its children, all of them parts of it. -/
inductive StripeStage (r : RaidBdev) (q : RaidIo) (s : ParentIo) : Prop where
  | wait (transfers : q.Transfers) (waits : s.waits = 1) (children : s.children = []) (completions : s.completions = [])
  | flight (transfers : q.Transfers) (waits : s.waits = 0) (child : Child) (children : s.children = [child])
      (mem : child ∈ r.raid0SubmitRwRequest q) (completions : s.completions = [])
  | done (transfers : q.Transfers) (waits : s.waits = 0) (children : s.children = []) (status : IoStatus)
      (completions : s.completions = [status])
  | split (cut : ¬q.Transfers) (stage : ParentIo.Stage (r.raid0SubmitNullPayloadRequest 0 q) s)
      (parts : ∀ c ∈ s.children, c ∈ r.raid0SubmitNullPayloadRequest 0 q)

section requests
variable {r : RaidBdev} {q : RaidIo} {s t : ParentIo} {ret : Int} {parts : List Child} {e : ParentIo.Event}

/-- A read or a write that is submitted, for the first time or again. -/
theorem StripeStage.submit (transfers : q.Transfers) (waits : s.waits = 0) (children : s.children = [])
    (completions : s.completions = []) (h : ParentIo.raid0SubmitRwRequest r q s ret = some t) :
    StripeStage r q t ∧ (t.completions = [] ∨ t.completions = [.failed]) := by
  have hfailed : s.completions ++ [IoStatus.failed] = [.failed] := by rw [completions, List.nil_append]
  unfold ParentIo.raid0SubmitRwRequest at h
  split at h
  · obtain rfl := Option.some.inj h
    exact ⟨.done transfers waits children .failed hfailed, .inr hfailed⟩
  next child rest hchildren =>
  obtain ⟨-, h⟩ := Option.ite_none_left_eq_some.mp h
  by_cases h0 : ret = 0
  · rw [if_pos h0] at h
    obtain rfl := Option.some.inj h
    have hone : s.children ++ [child] = [child] := by rw [children, List.nil_append]
    have hmem : child ∈ r.raid0SubmitRwRequest q := by
      rw [hchildren]
      exact List.mem_cons_self ..
    exact ⟨.flight transfers waits child hone hmem completions, .inl completions⟩
  · rw [if_neg h0] at h
    by_cases h1 : ret = -ENOMEM
    · rw [if_pos h1] at h
      obtain rfl := Option.some.inj h
      exact ⟨.wait transfers (congrArg (· + 1) waits) children completions, .inl completions⟩
    · rw [if_neg h1] at h
      obtain rfl := Option.some.inj h
      exact ⟨.done transfers waits children .failed hfailed, .inr hfailed⟩

/-- Nothing happens any more to an unmap or a flush that is completed. -/
theorem ParentIo.Stage.busy (h : ParentIo.Stage parts s) (ht : ParentIo.step r (.nullPayload q) s e = some t)
    (he : ∀ idx, e ≠ .removeBaseChannel idx) : s.completions = [] := by
  cases h with
  | loop loop more waits completions => exact completions
  | wait loop more waits completions => exact completions
  | past loop waits completions => exact completions
  | done loop waits completions children =>
    cases e with
    | turn ret =>
      have hturn : s.turn (.nullPayload q) ret = some t := ht
      unfold ParentIo.turn at hturn
      rw [loop] at hturn
      cases hturn
    | complete j success =>
      obtain ⟨⟨-, hj⟩, -⟩ := Option.ite_none_right_eq_some.mp ht
      rw [children] at hj
      cases hj
    | ioWait =>
      obtain ⟨⟨-, hw⟩, -⟩ := Option.ite_none_right_eq_some.mp ht
      omega
    | removeBaseChannel idx => exact absurd rfl (he idx)

theorem ParentIo.completePart_children (s : ParentIo) (completed : Nat) (status : IoStatus) :
    (s.raidBdevIoCompletePart completed status).children = s.children := by
  rw [ParentIo.raidBdevIoCompletePart]
  generalize sub64 s.baseBdevIoRemaining completed = remaining
  by_cases h : remaining = 0
  · simp [h, ParentIo.raidBdevIoComplete]
  · simp [h]

theorem ParentIo.mem_submitChild {c child : Child} {rest : List Child} (h : c ∈ (s.submitChild child rest ret).children) :
    c ∈ s.children ∨ c = child := by
  unfold ParentIo.submitChild at h
  split at h
  · exact (List.mem_append.mp h).imp_right List.mem_singleton.mp
  split at h
  · exact .inl h
  · exact .inl h

/-- Its children are parts of it. -/
theorem ParentIo.Stage.children_parts (h : ParentIo.Stage parts s) (hs : ParentIo.Splits r (.nullPayload q) parts)
    (hparts : ∀ c ∈ s.children, c ∈ parts) (ht : ParentIo.step r (.nullPayload q) s e = some t) :
    ∀ c ∈ t.children, c ∈ parts := by
  cases e with
  | turn ret =>
    have hturn : s.turn (.nullPayload q) ret = some t := ht
    unfold ParentIo.turn at hturn
    cases hl : s.loop with
    | nil =>
      rw [hl] at hturn
      cases hturn
    | cons child rest =>
      rw [hl] at hturn
      obtain ⟨-, hturn⟩ := Option.ite_none_left_eq_some.mp hturn
      obtain rfl := Option.some.inj hturn
      have hchild : child ∈ parts := by
        cases h with
        | loop loop =>
          apply List.mem_of_mem_drop
          rw [← loop, hl]
          exact List.mem_cons_self ..
        | wait loop => cases loop.symm.trans hl
        | past loop => cases loop.symm.trans hl
        | done loop => cases loop.symm.trans hl
      intro c hc
      rcases ParentIo.mem_submitChild hc with hc | rfl
      · exact hparts c hc
      · exact hchild
  | complete j success =>
    obtain ⟨-, heq⟩ := Option.ite_none_right_eq_some.mp ht
    obtain rfl := Option.some.inj heq
    intro c hc
    have hchildren : (s.baseIoComplete j success).children = s.children.eraseIdx j := ParentIo.completePart_children ..
    rw [hchildren] at hc
    exact hparts c ((List.eraseIdx_sublist ..).subset hc)
  | ioWait =>
    obtain ⟨-, hsub⟩ := Option.ite_none_right_eq_some.mp ht
    obtain rfl := hs.submit _ _ hsub
    exact hparts
  | removeBaseChannel idx =>
    obtain ⟨-, heq⟩ := Option.ite_none_right_eq_some.mp ht
    obtain rfl := Option.some.inj heq
    exact hparts

theorem ParentIo.Stage.completions (h : ParentIo.Stage parts s) : s.completions = [] ∨ ∃ status, s.completions = [status] := by
  cases h with
  | loop loop more waits completions => exact .inl completions
  | wait loop more waits completions => exact .inl completions
  | past loop waits completions => exact .inl completions
  | done loop waits completions => exact .inr (List.length_eq_one_iff.mp completions)

/-- A request with a child in flight is not completed. -/
theorem StripeStage.pending (h : StripeStage r q s) {j : Nat} (hj : j < s.children.length) : s.completions = [] := by
  cases h with
  | wait transfers waits children completions => exact completions
  | flight transfers waits child children mem completions => exact completions
  | done transfers waits children =>
    rw [children] at hj
    cases hj
  | split cut stage =>
    cases stage with
    | loop loop more waits completions => exact completions
    | wait loop more waits completions => exact completions
    | past loop waits completions => exact completions
    | done loop waits completions children =>
      rw [children] at hj
      cases hj

end requests

/-! ## The bdev -/

/-- What every reachable state keeps of its requests. -/
def StripeSet.Inv {α : Type} (r : RaidBdev) (s : StripeSet α) : Prop :=
  ∀ x ∈ s.ios, r.Admits x.request ∧ StripeStage r x.request x.io

section stripeSet
variable {α : Type} {bdevs : Nat → Bdev} {r : RaidBdev} {s t : StripeSet α} {x : StripeIo α} {io : ParentIo} {c : Child}
  {S : Store Nat (Nat × Nat) α} {i : Nat}

theorem StripeSet.op_at (hi : s.ios[i]? = some x) : (s.store r).ops[i]? = some x.op := by
  show (s.ios.map StripeIo.op)[i]? = some x.op
  rw [List.getElem?_map, hi]
  rfl

/-- A request that goes on or fails. -/
theorem stripe_goes_on (hop : S.ops[i]? = some x.op) (pending : x.io.completions = [])
    (hdone : io.completions = [] ∨ io.completions = [.failed]) :
    S.Steps { S with ops := S.ops.set i (StripeIo.op ⟨x.request, io, x.buf⟩) } := by
  rcases hdone with hdone | hdone
  · have hsame : StripeIo.op ⟨x.request, io, x.buf⟩ = x.op := by simp [StripeIo.op, StripeIo.through, pending, hdone]
    rw [hsame, set_self hop]
    exact .refl
  · have hfailed : StripeIo.op ⟨x.request, io, x.buf⟩ = { x.op with status := some false } := by
      simp [StripeIo.op, StripeIo.through, RaidIo.op, pending, hdone]
    rw [hfailed]
    exact .one (.fail i x.op hop (RaidIo.op_status_none.mpr pending))

/-- An unmap or a flush that goes on or is completed. -/
theorem split_goes_on (hop : S.ops[i]? = some x.op) (pending : x.io.completions = []) (cut : ¬x.request.Transfers)
    (hdone : io.completions = [] ∨ ∃ status, io.completions = [status]) :
    S.Steps { S with ops := S.ops.set i (StripeIo.op ⟨x.request, io, x.buf⟩) } := by
  rcases hdone with hdone | ⟨status, hdone⟩
  · exact stripe_goes_on hop pending (.inl hdone)
  cases status with
  | failed => exact stripe_goes_on hop pending (.inr hdone)
  | success =>
    have hstatus : x.op.status = none := RaidIo.op_status_none.mpr pending
    have hread : x.request.type ≠ .read := fun h => cut (.inl h)
    have hwrite : x.request.type ≠ .write := fun h => cut (.inr h)
    have hset : StripeIo.op ⟨x.request, io, x.buf⟩ = { x.op with status := some true } := by
      simp [StripeIo.op, StripeIo.through, RaidIo.op, hwrite, hdone]
    rw [hset]
    apply Store.Steps.one
    cases htype : x.request.type with
    | read => exact absurd htype hread
    | write => exact absurd htype hwrite
    | unmap =>
      -- it leaves nothing that is known
      refine .wrote i x.op hop hstatus (by simp [StripeIo.op, RaidIo.op, RaidIo.writes, htype]) fun b v p _ hv => ?_
      simp [StripeIo.op, RaidIo.op, htype] at hv
    | flush =>
      refine .read i x.op x.op.data hop hstatus (by simp [StripeIo.op, RaidIo.op, RaidIo.writes, htype]) fun b hblock => ?_
      exact absurd htype (RaidIo.mem_blocks.mp hblock).1

/-- The place of a block that a read or a write is for. -/
theorem rw_place_at (hb : Sound bdevs r) (hl : r.level = .raid0) (ha : r.Admits x.request)
    (mem : c ∈ r.raid0SubmitRwRequest x.request) {b : Nat} (hblock : x.op.blocks b = true) :
    b - x.request.offsetBlocks < c.numBlocks ∧
    (c.slot, c.offsetBlocks + (b - x.request.offsetBlocks)) ∈ r.raid0Places b := by
  obtain ⟨-, hle, hlt⟩ := RaidIo.mem_blocks.mp hblock
  obtain ⟨hsize, hplace⟩ := rw_place hb hl ha mem
  have hat := hplace (b - x.request.offsetBlocks) (by omega)
  rw [Nat.add_sub_cancel' hle] at hat
  exact ⟨by omega, hat⟩

/-- A read whose child was successful. -/
theorem stripe_found (hb : Sound bdevs r) (hl : r.level = .raid0) (hi : s.ios[i]? = some x) (ha : r.Admits x.request)
    (type : x.request.type = .read) (pending : x.io.completions = []) (mem : c ∈ r.raid0SubmitRwRequest x.request)
    (hdone : io.completions = [.success]) :
    (s.store r).Step { s.store r with
      ops := (s.store r).ops.set i (StripeIo.op ⟨x.request, io, c.load s.disk x.buf⟩) } := by
  have hset (buf : Nat → α) : StripeIo.op ⟨x.request, io, buf⟩ =
      { x.op with data := (StripeIo.op ⟨x.request, io, buf⟩).data, status := some true } := by
    simp [StripeIo.op, StripeIo.through, RaidIo.op, type, hdone]
  rw [hset]
  refine .read i x.op _ (StripeSet.op_at hi) (RaidIo.op_status_none.mpr pending) (RaidIo.writes_of_read type)
    fun b hblock => ?_
  obtain ⟨hin, hplace⟩ := rw_place_at hb hl ha mem hblock
  refine ⟨_, hplace, ?_⟩
  simp [StripeIo.op, RaidIo.op, type, Child.load, hin, StripeSet.store]

/-- A write whose child was successful. -/
theorem stripe_stored (hb : Sound bdevs r) (hl : r.level = .raid0) (hi : s.ios[i]? = some x) (ha : r.Admits x.request)
    (type : x.request.type = .write) (pending : x.io.completions = []) (mem : c ∈ r.raid0SubmitRwRequest x.request)
    (hdone : io.completions = [.success]) :
    (s.store r).Steps ⟨r.raid0Places, fun p => c.store s.disk x.buf p.1 p.2,
      (s.store r).ops.set i (StripeIo.op ⟨x.request, io, x.buf⟩)⟩ := by
  have hop : (s.store r).ops[i]? = some x.op := StripeSet.op_at hi
  have hlen : i < (s.store r).ops.length := (List.getElem?_eq_some_iff.mp hop).1
  have hstatus : x.op.status = none := RaidIo.op_status_none.mpr pending
  have hwrites : x.op.writes = true := RaidIo.writes_of_write type
  have hstore : (s.store r).Step ⟨r.raid0Places, fun p => c.store s.disk x.buf p.1 p.2,
      (s.store r).ops.set i { x.op with through := StripeIo.through ⟨x.request, io, x.buf⟩ }⟩ := by
    refine .store i x.op _ _ hop hstatus hwrites (fun p hp => ?_) fun b v p hblock hv hp _ _ => ?_
    · apply Child.store_of_not
      intro k hk hpk
      obtain ⟨hsize, hplace⟩ := rw_place hb hl ha mem
      have hblock : x.op.blocks (x.request.offsetBlocks + k) = true :=
        RaidIo.block_mem (by rw [type]; decide) (by omega)
      have hin : p ∈ r.raid0Places (x.request.offsetBlocks + k) := by
        have hat : p = (c.slot, c.offsetBlocks + k) := hpk
        rw [hat]
        exact hplace k (by omega)
      -- it was not through with anything
      have hdone' := (hp _ hblock hin).2
      rw [pending] at hdone'
      cases hdone'
    · obtain ⟨hin, hplace⟩ := rw_place_at hb hl ha mem hblock
      have hat : p = (c.slot, c.offsetBlocks + (b - x.request.offsetBlocks)) := hp.2.trans hplace.2.symm
      have hv' : x.buf (b - x.request.offsetBlocks) = v := by
        simpa [StripeIo.op, RaidIo.op, type] using hv
      rw [hat, ← hv']
      exact Child.store_at hin
  refine .cons hstore (.one ?_)
  have hset : StripeIo.op ⟨x.request, io, x.buf⟩ =
      { x.op with through := StripeIo.through ⟨x.request, io, x.buf⟩, status := some true } := by
    simp [StripeIo.op, RaidIo.op, hdone]
  rw [hset]
  have hwrote := Store.Step.wrote (s := ⟨r.raid0Places, fun p => c.store s.disk x.buf p.1 p.2,
      (s.store r).ops.set i { x.op with through := StripeIo.through ⟨x.request, io, x.buf⟩ }⟩) i
    { x.op with through := StripeIo.through ⟨x.request, io, x.buf⟩ } (List.getElem?_set_self hlen) hstatus hwrites
    fun _ _ _ _ _ _ => ⟨type, hdone⟩
  rwa [List.set_set] at hwrote

theorem StripeIo.diskAfter_of_cut (cut : ¬x.request.Transfers) (disk : Nat → Nat → α) (e : ParentIo.Event) :
    x.diskAfter disk e = disk ∧ x.bufAfter disk e = x.buf := by
  have hread : x.request.type ≠ .read := fun h => cut (.inl h)
  have hwrite : x.request.type ≠ .write := fun h => cut (.inr h)
  cases e with
  | complete j success =>
    cases success with
    | true => exact ⟨if_neg hwrite, if_neg hread⟩
    | false => exact ⟨rfl, rfl⟩
  | turn ret => exact ⟨rfl, rfl⟩
  | ioWait => exact ⟨rfl, rfl⟩
  | removeBaseChannel idx => exact ⟨rfl, rfl⟩

/-- An event of an unmap or a flush. -/
theorem simulates_split (hb : Sound bdevs r) (hl : r.level = .raid0) (hi : s.ios[i]? = some x) (ha : r.Admits x.request)
    (cut : ¬x.request.Transfers) (stage : ParentIo.Stage (r.raid0SubmitNullPayloadRequest 0 x.request) x.io)
    (parts : ∀ c ∈ x.io.children, c ∈ r.raid0SubmitNullPayloadRequest 0 x.request) {e : ParentIo.Event}
    (hok : x.io.NoLateRefusal e) (he : ∀ idx, e ≠ .removeBaseChannel idx)
    (h : ParentIo.step r (.nullPayload x.request) x.io e = some io) :
    (s.store r).Steps ⟨r.raid0Places, fun p => x.diskAfter s.disk e p.1 p.2,
      (s.store r).ops.set i (StripeIo.op ⟨x.request, io, x.bufAfter s.disk e⟩)⟩ ∧ StripeStage r x.request io := by
  have h64 := hb.blockcnt_lt
  have hsplits : ParentIo.Splits r (.nullPayload x.request) (r.raid0SubmitNullPayloadRequest 0 x.request) :=
    ParentIo.raid0_splits (hb.raid0_disks hl) hb.num_base_bdevs_le hl (by have := ha.2.1; omega)
  have hstage := stage.step hsplits hok h
  obtain ⟨hdisk, hbuf⟩ := StripeIo.diskAfter_of_cut cut s.disk e
  rw [hdisk, hbuf]
  exact ⟨split_goes_on (S := s.store r) (StripeSet.op_at hi) (stage.busy h he) cut hstage.completions,
    .split cut hstage (stage.children_parts hsplits parts h)⟩

/-- An event of a read or a write. -/
theorem simulates_transfer (hb : Sound bdevs r) (hl : r.level = .raid0) (hi : s.ios[i]? = some x) (ha : r.Admits x.request)
    (transfers : x.request.Transfers) (stage : StripeStage r x.request x.io) {e : ParentIo.Event} {ret : Int}
    (h : x.step r ret e = some io) :
    (s.store r).Steps ⟨r.raid0Places, fun p => x.diskAfter s.disk e p.1 p.2,
      (s.store r).ops.set i (StripeIo.op ⟨x.request, io, x.bufAfter s.disk e⟩)⟩ ∧ StripeStage r x.request io := by
  have hop : (s.store r).ops[i]? = some x.op := StripeSet.op_at hi
  unfold StripeIo.step at h
  rw [if_pos transfers] at h
  cases e with
  | turn ret => cases h
  | removeBaseChannel idx => cases h
  | ioWait =>
    obtain ⟨hpos, h⟩ := Option.ite_none_right_eq_some.mp h
    cases stage with
    | wait _ waits children completions =>
      obtain ⟨hstage, hend⟩ := StripeStage.submit (s := { x.io with waits := x.io.waits - 1 }) transfers
        (by show x.io.waits - 1 = 0; omega) children completions h
      exact ⟨stripe_goes_on (S := s.store r) hop completions hend, hstage⟩
    | flight _ waits => omega
    | done _ waits => omega
    | split cut => exact absurd transfers cut
  | complete j success =>
    obtain ⟨hj, h⟩ := Option.ite_none_right_eq_some.mp h
    obtain rfl := Option.some.inj h
    cases stage with
    | wait _ _ children =>
      rw [children] at hj
      cases hj
    | done _ _ children =>
      rw [children] at hj
      cases hj
    | split cut => exact absurd transfers cut
    | flight _ waits child children mem completions =>
      obtain rfl : j = 0 := by
        rw [children] at hj
        exact Nat.lt_one_iff.mp hj
      have hchild : x.child 0 = child := by
        rw [StripeIo.child, children]
        rfl
      have hnone : x.io.children.eraseIdx 0 = [] := by
        rw [children]
        rfl
      have hdone : (x.io.raid0BdevIoCompletion 0 success).completions = [if success then .success else .failed] := by
        show x.io.completions ++ [_] = [_]
        rw [completions, List.nil_append]
      refine ⟨?_, .done transfers waits hnone _ hdone⟩
      cases success with
      | false => exact stripe_goes_on (S := s.store r) hop completions (.inr hdone)
      | true =>
        rcases transfers with type | type
        · have hdisk : x.diskAfter s.disk (.complete 0 true) = s.disk := if_neg (by rw [type]; decide)
          have hbuf : x.bufAfter s.disk (.complete 0 true) = (x.child 0).load s.disk x.buf := if_pos type
          rw [hdisk, hbuf, hchild]
          exact .one (stripe_found hb hl hi ha type completions mem hdone)
        · have hdisk : x.diskAfter s.disk (.complete 0 true) = (x.child 0).store s.disk x.buf := if_pos type
          have hbuf : x.bufAfter s.disk (.complete 0 true) = x.buf := if_neg (by rw [type]; decide)
          rw [hdisk, hbuf, hchild]
          exact stripe_stored hb hl hi ha type completions mem hdone

/-- A child in flight is on places of its request. -/
theorem StripeStage.on_place (hb : Sound bdevs r) (hl : r.level = .raid0) (ha : r.Admits x.request)
    (stage : StripeStage r x.request x.io) (writes : x.request.writes = true) {j k : Nat} (hj : j < x.io.children.length)
    (hk : k < (x.child j).numBlocks) :
    ∃ b, x.op.blocks b = true ∧ ((x.child j).slot, (x.child j).offsetBlocks + k) ∈ r.raid0Places b := by
  have hflush : x.request.type ≠ .flush := by
    intro hflush
    rw [RaidIo.writes, hflush] at writes
    cases writes
  have hmem : x.child j ∈ x.io.children := by
    rw [StripeIo.child, List.getD_eq_getElem?_getD, List.getElem?_eq_getElem hj]
    exact List.getElem_mem hj
  cases stage with
  | wait _ _ children =>
    rw [children] at hj
    cases hj
  | done _ _ children =>
    rw [children] at hj
    cases hj
  | flight _ _ child children mem =>
    rw [children, List.mem_singleton] at hmem
    rw [hmem] at hk ⊢
    obtain ⟨hsize, hplace⟩ := rw_place hb hl ha mem
    exact ⟨x.request.offsetBlocks + k, RaidIo.block_mem hflush (by omega), hplace k (by omega)⟩
  | split _ _ parts =>
    obtain ⟨b, hle, hlt, hplace⟩ := part_place hb hl ha (parts _ hmem) hk
    exact ⟨b, RaidIo.mem_blocks.mpr ⟨hflush, hle, hlt⟩, hplace⟩

/-- A child in flight changes a block. -/
theorem simulates_child (hb : Sound bdevs r) (hl : r.level = .raid0) (hi : s.ios[i]? = some x) (ha : r.Admits x.request)
    (stage : StripeStage r x.request x.io) (writes : x.request.writes = true) {j k : Nat} (hj : j < x.io.children.length)
    (hk : k < (x.child j).numBlocks) (v : α) :
    (s.store r).Steps ⟨r.raid0Places, fun p => Function.update s.disk (x.child j).slot
      (Function.update (s.disk (x.child j).slot) ((x.child j).offsetBlocks + k) v) p.1 p.2, (s.store r).ops⟩ := by
  have hop : (s.store r).ops[i]? = some x.op := StripeSet.op_at hi
  have pending := stage.pending hj
  have hself : (s.store r).ops.set i { x.op with through := x.op.through } = (s.store r).ops := set_self hop
  apply Store.Steps.one
  rw [← hself]
  refine .store i x.op _ _ hop (RaidIo.op_status_none.mpr pending) writes (fun p hp => ?_)
    fun b v p _ _ _ hin hnot => absurd hin hnot
  by_cases hat : p = ((x.child j).slot, (x.child j).offsetBlocks + k)
  · obtain ⟨b, hblock, hplace⟩ := stage.on_place hb hl ha writes hj hk
    have hdone := (hp b hblock (hat ▸ hplace)).2
    rw [pending] at hdone
    cases hdone
  · exact update_of_not hat

/-- A request that was just submitted. -/
theorem stripe_submit (hb : Sound bdevs r) (hl : r.level = .raid0) {q : RaidIo} (ha : r.Admits q)
    {baseChannel : Nat → Bool} {ret : Int} (h : StripeIo.submit r q baseChannel ret = some io) :
    StripeStage r q io ∧ (io.completions = [] ∨ io.completions = [.failed]) := by
  have h64 := hb.blockcnt_lt
  unfold StripeIo.submit at h
  by_cases transfers : q.Transfers
  · rw [if_pos transfers] at h
    exact StripeStage.submit transfers rfl rfl rfl h
  · rw [if_neg transfers] at h
    have hsplits : ParentIo.Splits r (.nullPayload q) (r.raid0SubmitNullPayloadRequest 0 q) :=
      ParentIo.raid0_splits (hb.raid0_disks hl) hb.num_base_bdevs_le hl (by have := ha.2.1; omega)
    have hstage := ParentIo.submitted_stage hsplits h
    obtain rfl := hsplits.submit _ _ h
    refine ⟨.split transfers hstage ?_, .inl rfl⟩
    intro c hc
    cases hc

theorem simulates_stripe_submit {q : RaidIo} {buf : Nat → α} {baseChannel : Nat → Bool} {ret : Int}
    (hok : s.Apart (.submit q buf baseChannel ret)) (hdone : io.completions = [] ∨ io.completions = [.failed]) :
    (s.store r).Steps { s.store r with ops := (s.store r).ops ++ [StripeIo.op ⟨q, io, buf⟩] } := by
  -- the operation as it is when it comes
  have hsubmit : (s.store r).Step { s.store r with
      ops := (s.store r).ops ++ [StripeIo.op ⟨q, { io with completions := [] }, buf⟩] } := by
    refine .submit _ rfl ?_ fun y hy hpend hc => ?_
    · ext p
      simp [StripeIo.op, StripeIo.through, RaidIo.op]
    · obtain ⟨x₁, hx, rfl⟩ := List.mem_map.mp hy
      exact hok x₁ hx (RaidIo.op_status_none.mp hpend) (RaidIo.clashes_of_conflicts hc)
  refine .cons hsubmit ?_
  have hend := stripe_goes_on (S := { s.store r with
      ops := (s.store r).ops ++ [StripeIo.op ⟨q, { io with completions := [] }, buf⟩] })
    (x := ⟨q, { io with completions := [] }, buf⟩) (i := (s.store r).ops.length) (by simp) rfl hdone
  simpa using hend

/-- Every step of the bdev is some steps of the store. -/
theorem StripeSet.simulates (hb : Sound bdevs r) (hl : r.level = .raid0) (hinv : s.Inv r) {e : StripeSet.Event α}
    (hok : s.Apart e) (h : s.step r e = some t) : t.Inv r ∧ (s.store r).Steps (t.store r) := by
  unfold StripeSet.step at h
  cases e with
  | submit q buf baseChannel ret =>
    obtain ⟨ha, h⟩ := Option.ite_none_right_eq_some.mp h
    obtain ⟨io, hsub, rfl⟩ := Option.map_eq_some_iff.mp h
    obtain ⟨hstage, hdone⟩ := stripe_submit hb hl ha hsub
    constructor
    · intro x hx
      rcases List.mem_append.mp hx with hx | hx
      · exact hinv x hx
      · rw [List.mem_singleton.mp hx]
        exact ⟨ha, hstage⟩
    · have hops (y : StripeIo α) : (s.ios ++ [y]).map StripeIo.op = (s.store r).ops ++ [y.op] := List.map_append
      have hsteps := simulates_stripe_submit (r := r) hok hdone
      rw [← hops] at hsteps
      exact hsteps
  | io i e ret =>
    obtain ⟨x, hi, h⟩ := Option.bind_eq_some_iff.mp h
    obtain ⟨io, hstep, rfl⟩ := Option.map_eq_some_iff.mp h
    obtain ⟨ha, hstage⟩ := hinv x (List.mem_of_getElem? hi)
    have hmoves : (s.store r).Steps ⟨r.raid0Places, fun p => x.diskAfter s.disk e p.1 p.2,
        (s.store r).ops.set i (StripeIo.op ⟨x.request, io, x.bufAfter s.disk e⟩)⟩ ∧ StripeStage r x.request io := by
      by_cases transfers : x.request.Transfers
      · exact simulates_transfer hb hl hi ha transfers hstage hstep
      · cases hstage with
        | split cut stage parts =>
          have hokx : x.io.NoLateRefusal e := hok x hi
          unfold StripeIo.step at hstep
          rw [if_neg cut] at hstep
          cases e with
          | removeBaseChannel idx => cases hstep
          | turn ret => exact simulates_split hb hl hi ha cut stage parts hokx (fun _ hc => by cases hc) hstep
          | complete j success => exact simulates_split hb hl hi ha cut stage parts hokx (fun _ hc => by cases hc) hstep
          | ioWait => exact simulates_split hb hl hi ha cut stage parts hokx (fun _ hc => by cases hc) hstep
        | wait transfers' => exact absurd transfers' transfers
        | flight transfers' => exact absurd transfers' transfers
        | done transfers' => exact absurd transfers' transfers
    obtain ⟨hsteps, hafter⟩ := hmoves
    constructor
    · intro y hy
      rcases List.mem_or_eq_of_mem_set hy with hy | rfl
      · exact hinv y hy
      · exact ⟨ha, hafter⟩
    · have hops (y : StripeIo α) : (s.ios.set i y).map StripeIo.op = (s.store r).ops.set i y.op := List.map_set
      rw [← hops] at hsteps
      exact hsteps
  | garble i j k v =>
    obtain ⟨x, hi, h⟩ := Option.bind_eq_some_iff.mp h
    obtain ⟨⟨writes, hj, hk⟩, h⟩ := Option.ite_none_right_eq_some.mp h
    obtain rfl := Option.some.inj h
    obtain ⟨ha, hstage⟩ := hinv x (List.mem_of_getElem? hi)
    exact ⟨hinv, simulates_child hb hl hi ha hstage writes hj hk v⟩

/-! ## Every run -/

variable {disk : Nat → Nat → α} {known : Nat → Option α}

/-- Every reachable state is a sound store. -/
theorem stripe_set_sound (hr : Assembled bdevs r) (hl : r.level = .raid0)
    (hknown : ∀ b v, known b = some v → ∀ p ∈ r.raid0Places b, disk p.1 p.2 = v)
    (h : Reach (StripeSet.step r) StripeSet.Apart (StripeSet.init disk) s) : (s.store r).Sound known := by
  have hrun : s.Inv r ∧ ((StripeSet.init disk).store r).Steps (s.store r) := by
    refine h.invariant (I := fun s => s.Inv r ∧ ((StripeSet.init disk).store r).Steps (s.store r)) ?_ ?_
    · have hnone : (StripeSet.init disk).Inv r := fun x hx => by cases hx
      exact ⟨hnone, .refl⟩
    · intro s e t hi hok hstep
      obtain ⟨hinv, hsteps⟩ := StripeSet.simulates hr.sound hl hi.1 hok hstep
      exact ⟨hinv, hi.2.trans hsteps⟩
  have hnew : ((StripeSet.init disk).store r).Sound known := by
    apply Store.sound_new
    · intro b b' p hp hp'
      exact raid0Places_disjoint hr.sound hl hp hp'
    · exact hknown
  exact hnew.steps hrun.2

/-- In every run, with any requests that do not clash, whatever the submissions return and in whatever
    order the children complete: a read that succeeds has each of its blocks as the last request before
    it that changed the block left it, or as it was at first where none did. `none` stands for what cannot
    be known: the last such request failed or was an unmap. -/
theorem stripe_set_reads (hr : Assembled bdevs r) (hl : r.level = .raid0)
    (hknown : ∀ b v, known b = some v → ∀ p ∈ r.raid0Places b, disk p.1 p.2 = v)
    (h : Reach (StripeSet.step r) StripeSet.Apart (StripeSet.init disk) s) (hi : s.ios[i]? = some x)
    (htype : x.request.type = .read) (hdone : x.io.completions = [.success]) {k : Nat} (hk : k < x.request.numBlocks)
    {v : α} (hv : s.device known i (x.request.offsetBlocks + k) = some v) : x.buf k = v := by
  have hsound := stripe_set_sound hr hl hknown h
  have hblock : x.op.blocks (x.request.offsetBlocks + k) = true := RaidIo.block_mem (by rw [htype]; decide) hk
  have hstatus : x.op.status = some true := by simp [StripeIo.op, RaidIo.op, hdone]
  have hreads : x.op.writes = false := RaidIo.writes_of_read htype
  rw [StripeSet.device, List.map_take] at hv
  have hfound := hsound.reads i x.op (StripeSet.op_at hi) hreads hstatus _ v hblock hv
  simpa [StripeIo.op, RaidIo.op, htype] using hfound

/-- In every run, and with any requests in flight: a block whose last write succeeded is where reads of it
    look. -/
theorem stripe_set_blocks (hr : Assembled bdevs r) (hl : r.level = .raid0)
    (hknown : ∀ b v, known b = some v → ∀ p ∈ r.raid0Places b, disk p.1 p.2 = v)
    (h : Reach (StripeSet.step r) StripeSet.Apart (StripeSet.init disk) s) {b : Nat} (hb : b < r.blockcnt) {v : α}
    (hv : s.device known s.ios.length b = some v) :
    s.disk (r.raid0PdLba b).1 ((r.info (r.raid0PdLba b).1).dataOffset + (r.raid0PdLba b).2) = v := by
  have hsound := stripe_set_sound hr hl hknown h
  rw [StripeSet.device, List.take_length] at hv
  exact hsound.holds b v hv _ ⟨hb, rfl⟩

end stripeSet

/-- A write of the last block of a strip, an unmap of the two strips after it, the second child only in a
    second go, then a read of the block. -/
def stripeEvents : List (StripeSet.Event Nat) :=
  [.submit ⟨.write, 127, 1⟩ (fun _ => 7) (fun _ => true) 0,
   .submit ⟨.unmap, 128, 256⟩ (fun _ => 0) (fun _ => true) 0, .io 1 (.turn 0) 0, .garble 0 0 0 1, .garble 1 0 5 2,
   .io 1 (.turn (-ENOMEM)) 0, .io 0 (.complete 0 true) 0, .io 1 (.complete 0 true) 0, .io 1 .ioWait 0, .io 1 (.turn 0) 0,
   .submit ⟨.read, 127, 1⟩ (fun _ => 0) (fun _ => true) 0, .io 1 (.complete 0 true) 0, .io 2 (.complete 0 true) 0]

/-- A state after these events, and the read in it. -/
theorem stripe_run : ∃ (s : StripeSet Nat) (x : StripeIo Nat),
    Reach (StripeSet.step smallArray) StripeSet.Apart (StripeSet.init fun _ _ => 5) s ∧ s.ios[2]? = some x ∧
    x.request = ⟨.read, 127, 1⟩ ∧ x.io.completions = [.success] ∧
    s.device (fun _ => some 5) 2 127 = some 7 ∧ s.device (fun _ => some 5) 3 128 = none ∧
    s.device (fun _ => some 5) s.ios.length 384 = some 5 := by
  have hm : (execIf (StripeSet.step smallArray) StripeSet.Apart (StripeSet.init fun _ _ => 5) stripeEvents).map
      (fun s => (s.ios[2]?.map fun x => (x.request, x.io.completions), s.device (fun _ => some 5) 2 127,
        s.device (fun _ => some 5) 3 128, s.device (fun _ => some 5) s.ios.length 384)) =
      some (some (⟨.read, 127, 1⟩, [.success]), some 7, none, some 5) := by
    decide +kernel
  obtain ⟨s, hs, hv⟩ := Option.map_eq_some_iff.mp hm
  obtain ⟨hx, hv⟩ := Prod.mk.inj hv
  obtain ⟨hwritten, hv⟩ := Prod.mk.inj hv
  obtain ⟨hnone, hbehind⟩ := Prod.mk.inj hv
  obtain ⟨x, hi, hx⟩ := Option.map_eq_some_iff.mp hx
  obtain ⟨hreq, hdone⟩ := Prod.mk.inj hx
  exact ⟨s, x, Reach.ofRun stripeEvents .init hs, hi, hreq, hdone, hwritten, hnone, hbehind⟩

/-- The block has what was written, whatever became of the blocks next to it. -/
theorem stripe_set_reads_written : ∃ (s : StripeSet Nat) (x : StripeIo Nat), s.ios[2]? = some x ∧
    s.device (fun _ => some 5) 3 128 = none ∧ x.buf 0 = 7 := by
  obtain ⟨s, x, hrun, hi, hreq, hdone, hv, hnone, -⟩ := stripe_run
  refine ⟨s, x, hi, hnone, ?_⟩
  exact stripe_set_reads small_assembled (by decide +kernel) (fun b v hb _ _ => Option.some.inj hb) hrun hi (by rw [hreq])
    hdone (by rw [hreq]; decide) (by rw [hreq]; exact hv)

/-- The block behind the unmap is as it was. -/
theorem stripe_set_blocks_behind : ∃ s : StripeSet Nat, s.device (fun _ => some 5) s.ios.length 384 = some 5 ∧
    s.disk (smallArray.raid0PdLba 384).1 ((smallArray.info (smallArray.raid0PdLba 384).1).dataOffset +
      (smallArray.raid0PdLba 384).2) = 5 := by
  obtain ⟨s, x, hrun, -, -, -, -, -, hv⟩ := stripe_run
  exact ⟨s, hv, stripe_set_blocks small_assembled (by decide +kernel) (fun b v hb _ _ => Option.some.inj hb) hrun
    (by decide +kernel) hv⟩

end FlexBSO.Raid

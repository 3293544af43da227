import FlexBSO.Passthru.Io

/- The passthru vbdevs the module knows: `g_bdev_names`, which vbdev is wanted on which
   base bdev, and `g_pt_nodes`, the vbdevs there are, with the descriptors and claims
   they hold. `bdev_passthru_external_create_disk` puts an association on the first list
   and attaches every association of that base bdev; results of the bdev layer and of the
   allocators are arguments. -/
namespace FlexBSO.Passthru

def ENODEV : Int := 19
def EEXIST : Int := 17

/-- `struct bdev_names` -/
structure BdevName where
  vbdevName : String
  bdevName : String
  deriving DecidableEq, Repr

/-- `struct vbdev_passthru`, at address `node` -/
structure PtNode where
  node : Nat
  name : String
  baseBdev : String
  deriving DecidableEq, Repr

/-- A bdev, as a claim names it: a base bdev, or the `pt_bdev` of a node. -/
inductive Bdev where
  | base (name : String)
  | pt (node : Nat)
  deriving DecidableEq, Repr

/-- The state of the module. -/
structure Vbdevs where
  /-- `g_bdev_names` -/
  bdevNames : List BdevName
  /-- `g_pt_nodes` -/
  ptNodes : List PtNode
  /-- Open descriptors: the node that holds it and the base bdev it is of. -/
  baseDescs : List (Nat × String)
  /-- Bdevs claimed by this module. -/
  claimed : List Bdev
  /-- Nodes registered as I/O devices. -/
  ioDevices : List Nat

/-- What is answered while one association is attached: the address `calloc` returns, if any,
    whether `strdup` succeeds, and the results of `spdk_bdev_open_ext`,
    `spdk_bdev_module_claim_bdev` and `spdk_bdev_register`. -/
structure Attach where
  calloc : Option Nat
  strdup : Bool
  openRc : Int
  claimRc : Int
  registerRc : Int

/-- The first error of an attachment, 0 if there is none. -/
def Attach.rc (t : Attach) : Int :=
  if t.calloc = none ∨ t.strdup = false then -ENOMEM
  else if t.openRc ≠ 0 then t.openRc
  else if t.claimRc ≠ 0 then t.claimRc
  else t.registerRc

namespace Vbdevs
variable (s : Vbdevs)

/-- `vbdev_passthru_insert_name`; `alloc` is whether its allocations succeed. -/
def insertName (bdevName vbdevName : String) (alloc : Bool) : Int × Vbdevs :=
  if s.bdevNames.any (·.vbdevName == vbdevName) then (-EEXIST, s)
  else if alloc = false then (-ENOMEM, s)
  else (0, { s with bdevNames := s.bdevNames ++ [⟨vbdevName, bdevName⟩] })

/-- `spdk_bdev_module_release_bdev`. The module calls it with the vbdev where it gives up a claim on
    a base bdev. -/
def releaseBdev (bdev : Bdev) : Vbdevs := { s with claimed := s.claimed.erase bdev }

/-- The descriptor, the node and its I/O device are given up. -/
def dropNode (n : PtNode) : Vbdevs :=
  { s with
    baseDescs := s.baseDescs.erase (n.node, n.baseBdev)
    ptNodes := s.ptNodes.erase n
    ioDevices := s.ioDevices.erase n.node }

/-- One turn of the loop of `vbdev_passthru_register`, for an association of the base bdev. -/
def attach (bdevName vbdevName : String) (t : Attach) : Int × Vbdevs :=
  match t.calloc with
  | none => (-ENOMEM, s)
  | some node =>
    if t.strdup = false then (-ENOMEM, s)
    else if t.openRc ≠ 0 then (t.openRc, s)
    else
      let n : PtNode := ⟨node, vbdevName, bdevName⟩
      let s := { s with
        baseDescs := s.baseDescs ++ [(node, bdevName)]
        ptNodes := s.ptNodes ++ [n]
        ioDevices := s.ioDevices ++ [node] }
      if t.claimRc ≠ 0 then (t.claimRc, s.dropNode n)
      else
        let s := { s with claimed := s.claimed ++ [.base bdevName] }
        if t.registerRc ≠ 0 then (t.registerRc, (s.releaseBdev (.pt node)).dropNode n)
        else (0, s)

/-- The loop of `vbdev_passthru_register` over `names`; `attaches k` answers the `k`-th association of
    the base bdev. -/
def registerNames (bdevName : String) (attaches : Nat → Attach) : List BdevName → Nat → Vbdevs → Int × Vbdevs
  | [], _, s => (0, s)
  | name :: names, k, s =>
    if name.bdevName ≠ bdevName then registerNames bdevName attaches names k s
    else
      let (rc, s) := s.attach bdevName name.vbdevName (attaches k)
      if rc ≠ 0 then (rc, s) else registerNames bdevName attaches names (k + 1) s

/-- `vbdev_passthru_register` -/
def register (bdevName : String) (attaches : Nat → Attach) : Int × Vbdevs :=
  registerNames bdevName attaches s.bdevNames 0 s

/-- `bdev_passthru_external_create_disk` -/
def createDisk (bdevName vbdevName : String) (alloc : Bool) (attaches : Nat → Attach) : Int × Vbdevs :=
  let (rc, s) := s.insertName bdevName vbdevName alloc
  if rc ≠ 0 then (rc, s)
  else
    let (rc, s) := s.register bdevName attaches
    (if rc = -ENODEV then 0 else rc, s)

end Vbdevs

/-! ## What a creation leaves -/

/-- The first error of `n` attachments from the `k`-th on, 0 if there is none. -/
def attachRc (attaches : Nat → Attach) : (n k : Nat) → Int
  | 0, _ => 0
  | n + 1, k => if (attaches k).rc ≠ 0 then (attaches k).rc else attachRc attaches n (k + 1)

/-- As far as a later creation and its users can tell, `t` is `s`. -/
structure Unchanged (s t : Vbdevs) : Prop where
  bdevNames : t.bdevNames = s.bdevNames
  ptNodes : ∀ n, n ∈ t.ptNodes ↔ n ∈ s.ptNodes
  baseDescs : ∀ d, d ∈ t.baseDescs ↔ d ∈ s.baseDescs
  claimed : ∀ b, .base b ∈ t.claimed ↔ .base b ∈ s.claimed
  later : ∀ bdevName vbdevName alloc attaches,
    (t.createDisk bdevName vbdevName alloc attaches).1 = (s.createDisk bdevName vbdevName alloc attaches).1

theorem Unchanged.refl (s : Vbdevs) : Unchanged s s :=
  ⟨rfl, fun _ => Iff.rfl, fun _ => Iff.rfl, fun _ => Iff.rfl, fun _ _ _ _ => rfl⟩

section register
variable {s : Vbdevs} {bdevName vbdevName : String} {attaches : Nat → Attach}

theorem attach_rc (t : Attach) : (s.attach bdevName vbdevName t).1 = t.rc := by
  unfold Vbdevs.attach Attach.rc
  cases t.calloc with
  | none => simp
  | some node =>
    dsimp only
    by_cases hd : t.strdup = false
    · rw [if_pos hd, if_pos (.inr hd)]
    · have hnot : ¬(some node = none ∨ t.strdup = false) := by
        rintro (h | h)
        · cases h
        · exact hd h
      rw [if_neg hd, if_neg hnot]
      by_cases ho : t.openRc ≠ 0
      · rw [if_pos ho, if_pos ho]
      · rw [if_neg ho, if_neg ho]
        by_cases hc : t.claimRc ≠ 0
        · rw [if_pos hc, if_pos hc]
        · rw [if_neg hc, if_neg hc]
          by_cases hr : t.registerRc ≠ 0
          · rw [if_pos hr]
          · rw [if_neg hr]
            exact (not_not.mp hr).symm

theorem attach_bdevNames (t : Attach) : (s.attach bdevName vbdevName t).2.bdevNames = s.bdevNames := by
  unfold Vbdevs.attach
  split
  · rfl
  · split
    · rfl
    · split
      · rfl
      · dsimp only
        split
        · rfl
        · split <;> rfl

/-- The loop ends with the first error, and puts no association on the list nor takes one off. -/
theorem registerNames_spec (bdevName : String) (attaches : Nat → Attach) (names : List BdevName) : ∀ (k : Nat) (s : Vbdevs),
    (Vbdevs.registerNames bdevName attaches names k s).1 =
      attachRc attaches (names.countP (·.bdevName == bdevName)) k ∧
    (Vbdevs.registerNames bdevName attaches names k s).2.bdevNames = s.bdevNames := by
  induction names with
  | nil =>
    intro k s
    exact ⟨rfl, rfl⟩
  | cons name names ih =>
    intro k s
    rw [Vbdevs.registerNames]
    by_cases hname : name.bdevName = bdevName
    · rw [if_neg (not_not_intro hname), List.countP_cons_of_pos (by simpa using hname), attachRc]
      have hrc : (s.attach bdevName name.vbdevName (attaches k)).1 = (attaches k).rc := attach_rc _
      have hnames : (s.attach bdevName name.vbdevName (attaches k)).2.bdevNames = s.bdevNames := attach_bdevNames _
      generalize s.attach bdevName name.vbdevName (attaches k) = out at hrc hnames ⊢
      obtain ⟨rc, u⟩ := out
      dsimp only at hrc hnames ⊢
      subst hrc
      split
      · exact ⟨rfl, hnames⟩
      · obtain ⟨h1, h2⟩ := ih (k + 1) u
        exact ⟨h1, h2.trans hnames⟩
    · rw [if_pos hname, List.countP_cons_of_neg (by simpa using hname)]
      exact ih k s

/-- Where the name can be put on the list, what the creation returns is up to the attachments. -/
theorem createDisk_inserted (bdevName : String) (attaches : Nat → Attach)
    (hnew : s.bdevNames.any (·.vbdevName == vbdevName) = false) :
    (s.createDisk bdevName vbdevName true attaches).2.bdevNames = s.bdevNames ++ [⟨vbdevName, bdevName⟩] ∧
    (s.createDisk bdevName vbdevName true attaches).1 =
      if attachRc attaches (s.bdevNames.countP (·.bdevName == bdevName) + 1) 0 = -ENODEV then 0
      else attachRc attaches (s.bdevNames.countP (·.bdevName == bdevName) + 1) 0 := by
  have hspec := registerNames_spec bdevName attaches (s.bdevNames ++ [⟨vbdevName, bdevName⟩]) 0
    { s with bdevNames := s.bdevNames ++ [⟨vbdevName, bdevName⟩] }
  rw [List.countP_append, List.countP_singleton, if_pos (by simp)] at hspec
  unfold Vbdevs.createDisk Vbdevs.insertName Vbdevs.register
  rw [hnew, if_neg (by decide), if_neg (by decide)]
  dsimp only
  rw [if_neg (by decide)]
  generalize Vbdevs.registerNames bdevName attaches _ 0 _ = out at hspec ⊢
  obtain ⟨rc, u⟩ := out
  obtain ⟨rfl, h2⟩ := hspec
  exact ⟨h2, rfl⟩

/-- Where it cannot, nothing happens. -/
theorem createDisk_refused {alloc : Bool} (h : s.bdevNames.any (·.vbdevName == vbdevName) = true ∨ alloc = false) :
    (s.createDisk bdevName vbdevName alloc attaches).2 = s := by
  unfold Vbdevs.createDisk Vbdevs.insertName
  by_cases hname : s.bdevNames.any (·.vbdevName == vbdevName) = true
  · rw [if_pos hname]
    rfl
  · rw [if_neg hname, if_pos (h.resolve_left hname)]
    rfl

/-- A failed creation changes nothing exactly if it fails to put the name on the list, or does not
    fail: an error of an attachment, other than a missing base bdev, leaves the name behind. -/
theorem failed_create_unchanged (s : Vbdevs) (bdevName vbdevName : String) (alloc : Bool) (attaches : Nat → Attach) :
    ((s.createDisk bdevName vbdevName alloc attaches).1 ≠ 0 →
      Unchanged s (s.createDisk bdevName vbdevName alloc attaches).2) ↔
    s.bdevNames.any (·.vbdevName == vbdevName) = true ∨ alloc = false ∨
      attachRc attaches (s.bdevNames.countP (·.bdevName == bdevName) + 1) 0 = 0 ∨
      attachRc attaches (s.bdevNames.countP (·.bdevName == bdevName) + 1) 0 = -ENODEV := by
  constructor
  · intro h
    by_contra hnot
    push Not at hnot
    obtain ⟨hname, halloc, h0, hnodev⟩ := hnot
    obtain rfl : alloc = true := by simpa using halloc
    obtain ⟨hnames, hrc⟩ := createDisk_inserted bdevName attaches (Bool.eq_false_iff.mpr hname)
    rw [if_neg hnodev] at hrc
    have hsame := (h (by rw [hrc]; exact h0)).bdevNames
    rw [hnames] at hsame
    have := congrArg List.length hsame
    rw [List.length_append, List.length_singleton] at this
    omega
  · intro h hfail
    by_cases hrefused : s.bdevNames.any (·.vbdevName == vbdevName) = true ∨ alloc = false
    · rw [createDisk_refused hrefused]
      exact .refl s
    · -- the creation succeeds
      push Not at hrefused
      obtain ⟨hname, halloc⟩ := hrefused
      obtain rfl : alloc = true := by simpa using halloc
      obtain ⟨-, hrc⟩ := createDisk_inserted bdevName attaches (Bool.eq_false_iff.mpr hname)
      rw [hrc] at hfail
      rcases h with h | h | h | h
      · exact absurd h hname
      · cases h
      · rw [if_neg (by rw [h]; decide), h] at hfail
        exact absurd rfl hfail
      · rw [if_pos h] at hfail
        exact absurd rfl hfail

end register

/-- No vbdev yet. -/
def Vbdevs.empty : Vbdevs := ⟨[], [], [], [], []⟩

/-- Every call succeeds but `spdk_bdev_module_claim_bdev` and `spdk_bdev_register`, which return these. -/
def Attach.upTo (claimRc registerRc : Int) : Attach := ⟨some 0, true, 0, claimRc, registerRc⟩

/-- A base bdev another module has claimed (`-EPERM`): the name stays, and the next creation of the
    same vbdev is told that it exists. Where `spdk_bdev_register` fails, the base bdev also stays claimed. -/
theorem failed_create_remains :
    (Vbdevs.empty.createDisk "b" "v" true fun _ => .upTo (-1) 0).1 = -1 ∧
    ((Vbdevs.empty.createDisk "b" "v" true fun _ => .upTo (-1) 0).2.createDisk "b" "v" true fun _ => .upTo 0 0).1 = -EEXIST ∧
    (Vbdevs.empty.createDisk "b" "v" true fun _ => .upTo 0 (-12)).2.claimed = [.base "b"] ∧
    ¬∀ (s : Vbdevs) (bdevName vbdevName : String) (alloc : Bool) (attaches : Nat → Attach),
      (s.createDisk bdevName vbdevName alloc attaches).1 ≠ 0 →
      Unchanged s (s.createDisk bdevName vbdevName alloc attaches).2 := by
  refine ⟨by decide, by decide, by decide, fun h => ?_⟩
  have hsame := (h .empty "b" "v" true (fun _ => .upTo (-1) 0) (by decide)).bdevNames
  exact absurd hsame (by decide)

end FlexBSO.Passthru

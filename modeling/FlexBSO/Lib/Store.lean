import Mathlib.Data.Set.Basic
import Mathlib.Logic.Relation

/- A store that keeps each block in several places, and requests on it that take their
   time. While a write is in flight the places of its blocks hold anything, but for those
   it is through with; a read takes each block from some place. The requests in flight do
   not conflict, otherwise they come and end in any order. From outside this is a flat
   device: a block has what the last write to it wrote (`content`). `Store.Sound` is what
   every step keeps. -/
namespace FlexBSO.Lib

/-- A request on the blocks `blocks`. `data` is what a write leaves in a block, nothing certain if
    `none`, or what a read found in it; `through` are the places a write is through with. -/
structure Op (β π α : Type) where
  writes : Bool
  blocks : β → Bool
  data : β → Option α
  through : Set π := ∅
  /-- Whether it succeeded, once it is completed. -/
  status : Option Bool := none

namespace Op
variable {β π α : Type}

/-- The request writes the block. -/
def Writes (o : Op β π α) (b : β) : Prop := o.writes = true ∧ o.blocks b = true

instance (o : Op β π α) (b : β) : Decidable (o.Writes b) := by
  unfold Writes
  exact inferInstance

/-- The requests have a block in common and do not both read. -/
def Conflicts (o o' : Op β π α) : Prop := (o.writes = true ∨ o'.writes = true) ∧ ∃ b, o.blocks b = true ∧ o'.blocks b = true

/-- What is known of a block after the request, if `v` was known before it. -/
def leaves (o : Op β π α) (b : β) (v : Option α) : Option α :=
  if o.Writes b then (if o.status = some true then o.data b else none) else v

end Op

/-- What is known of a block after the requests, in the order they came: what the last write to it
    wrote, and nothing if that one failed or is in flight. -/
def content {β π α : Type} (init : β → Option α) (ops : List (Op β π α)) (b : β) : Option α :=
  ops.foldl (fun v o => o.leaves b v) (init b)

/-- The store: where the blocks are kept, what the places hold, and the requests so far. -/
structure Store (β π α : Type) where
  places : β → Set π
  disk : π → α
  ops : List (Op β π α)

namespace Store
variable {β π α : Type}

/-- What can happen. -/
inductive Step (s : Store β π α) : Store β π α → Prop where
  | submit (o : Op β π α) (pending : o.status = none) (untouched : o.through = ∅)
      (apart : ∀ x ∈ s.ops, x.status = none → ¬x.Conflicts o) : Step s { s with ops := s.ops ++ [o] }
  /-- Places of a write change, and the write is through with some of them. -/
  | store (i : Nat) (o : Op β π α) (disk : π → α) (through : Set π) (at_i : s.ops[i]? = some o)
      (pending : o.status = none) (writes : o.writes = true)
      (others : ∀ p, (∀ b, o.blocks b = true → p ∈ s.places b → p ∈ o.through) → disk p = s.disk p)
      (stored : ∀ b v p, o.blocks b = true → o.data b = some v → p ∈ s.places b → p ∈ through → p ∉ o.through →
        disk p = v) : Step s { s with disk, ops := s.ops.set i { o with through } }
  /-- A write that is through with all its places succeeds. -/
  | wrote (i : Nat) (o : Op β π α) (at_i : s.ops[i]? = some o) (pending : o.status = none)
      (writes : o.writes = true)
      (all : ∀ b v p, o.blocks b = true → o.data b = some v → p ∈ s.places b → p ∈ o.through) :
      Step s { s with ops := s.ops.set i { o with status := some true } }
  | read (i : Nat) (o : Op β π α) (data : β → Option α) (at_i : s.ops[i]? = some o) (pending : o.status = none)
      (reads : o.writes = false)
      (found : ∀ b, o.blocks b = true → ∃ p ∈ s.places b, data b = some (s.disk p)) :
      Step s { s with ops := s.ops.set i { o with data, status := some true } }
  | fail (i : Nat) (o : Op β π α) (at_i : s.ops[i]? = some o) (pending : o.status = none) :
      Step s { s with ops := s.ops.set i { o with status := some false } }
  /-- Some places are given up. -/
  | drop (places : β → Set π) (fewer : ∀ b, places b ⊆ s.places b) : Step s { s with places }

/-- Runs of the store. -/
def Steps : Store β π α → Store β π α → Prop := Relation.ReflTransGen Step

theorem Steps.one {s t : Store β π α} (h : Step s t) : Steps s t := .single h

theorem Steps.cons {s t u : Store β π α} (h : Step s t) (h' : Steps t u) : Steps s u := .head h h'

/-- What holds of a store that was `init` at first. A block whose content is known is the same in all its
    places, and that is what the reads of it found. -/
structure Sound (init : β → Option α) (s : Store β π α) : Prop where
  disjoint : ∀ b b' p, p ∈ s.places b → p ∈ s.places b' → b = b'
  apart : ∀ (i j : Nat) (o o' : Op β π α), i < j → s.ops[i]? = some o → s.ops[j]? = some o' → o.status = none → ¬o.Conflicts o'
  through : ∀ (i : Nat) (o : Op β π α), s.ops[i]? = some o → o.status = none → o.writes = true → ∀ b v p, o.blocks b = true →
    o.data b = some v → p ∈ s.places b → p ∈ o.through → s.disk p = v
  holds : ∀ b v, content init s.ops b = some v → ∀ p ∈ s.places b, s.disk p = v
  reads : ∀ (i : Nat) (o : Op β π α), s.ops[i]? = some o → o.writes = false → o.status = some true → ∀ b v, o.blocks b = true →
    content init (s.ops.take i) b = some v → o.data b = some v

end Store

/-! ## Contents -/

section content
variable {β π α : Type} {init : β → Option α} {l l' : List (Op β π α)} {o o' : Op β π α} {b : β} {i : Nat}

theorem content_append : content init (l ++ [o]) b = o.leaves b (content init l b) := by
  rw [content, List.foldl_append]
  rfl

theorem leaves_of_not (h : ¬o.Writes b) (v : Option α) : o.leaves b v = v := if_neg h

theorem leaves_of_writes (h : o.Writes b) (v : Option α) :
    o.leaves b v = if o.status = some true then o.data b else none := if_pos h

/-- Requests that do not write the block do not change it. -/
theorem foldl_leaves {v : Option α} : (∀ o ∈ l, ¬o.Writes b) → l.foldl (fun v o => o.leaves b v) v = v := by
  induction l generalizing v with
  | nil =>
    intro _
    rfl
  | cons o l ih =>
    intro h
    rw [List.foldl_cons, leaves_of_not (h o (List.mem_cons_self ..))]
    exact ih fun x hx => h x (List.mem_cons_of_mem _ hx)

theorem split_at (h : l[i]? = some o) : l = l.take i ++ o :: l.drop (i + 1) := by
  obtain ⟨hlt, rfl⟩ := List.getElem?_eq_some_iff.mp h
  rw [← List.drop_eq_getElem_cons hlt, List.take_append_drop]

theorem set_split (h : l[i]? = some o) : l.set i o' = l.take i ++ o' :: l.drop (i + 1) :=
  List.set_eq_take_append_cons_drop.trans (if_pos (List.getElem?_eq_some_iff.mp h).1)

/-- The content of a block that only earlier requests wrote, and the one at `i`. -/
theorem content_set (h : l[i]? = some o) (later : ∀ (j : Nat) (x : Op β π α), i < j → l[j]? = some x → ¬x.Writes b) :
    content init (l.set i o') b = o'.leaves b (content init (l.take i) b) := by
  rw [set_split h, content, List.foldl_append, List.foldl_cons]
  apply foldl_leaves
  intro x hx
  obtain ⟨k, hk⟩ := List.mem_iff_getElem?.mp hx
  rw [List.getElem?_drop] at hk
  exact later (i + 1 + k) x (by omega) hk

theorem set_self (h : l[i]? = some o) : l.set i o = l := by
  rw [set_split h, ← split_at h]

theorem content_at (h : l[i]? = some o) (later : ∀ (j : Nat) (x : Op β π α), i < j → l[j]? = some x → ¬x.Writes b) :
    content init l b = o.leaves b (content init (l.take i) b) := by
  rw [← content_set h later, set_self h]

theorem content_set_ok (h : l[i]? = some o) (later : ∀ (j : Nat) (x : Op β π α), i < j → l[j]? = some x → ¬x.Writes b)
    (hw : o'.Writes b) (hok : o'.status = some true) : content init (l.set i o') b = o'.data b := by
  rw [content_set h later, leaves_of_writes hw, if_pos hok]

theorem content_set_none (h : l[i]? = some o) (later : ∀ (j : Nat) (x : Op β π α), i < j → l[j]? = some x → ¬x.Writes b)
    (hw : o'.Writes b) (hok : o'.status ≠ some true) : content init (l.set i o') b = none := by
  rw [content_set h later, leaves_of_writes hw, if_neg hok]

/-- Of a request that does not write the block nothing matters. -/
theorem content_set_of_not (h : l[i]? = some o) (ho : ¬o.Writes b) (ho' : ¬o'.Writes b) :
    content init (l.set i o') b = content init l b := by
  conv_rhs => rw [split_at h]
  rw [set_split h, content, content, List.foldl_append, List.foldl_append, List.foldl_cons, List.foldl_cons,
    leaves_of_not ho, leaves_of_not ho']

end content

/-! ## What a step keeps -/

namespace Store
variable {β π α : Type} {init : β → Option α} {s t : Store β π α} {o o' : Op β π α} {i j : Nat} {b : β}

/-- No request after one in flight writes a block of it. -/
theorem Sound.not_later (h : s.Sound init) (hi : s.ops[i]? = some o) (hpend : o.status = none)
    (hb : o.blocks b = true) (j : Nat) (x : Op β π α) (hij : i < j) (hj : s.ops[j]? = some x) : ¬x.Writes b := by
  intro hx
  exact h.apart i j o x hij hi hj hpend ⟨.inr hx.1, b, hb, hx.2⟩

/-- Nor does one at all of a write in flight have a block of it. -/
theorem Sound.not_shared (h : s.Sound init) (hi : s.ops[i]? = some o) (hpend : o.status = none)
    (hw : o.writes = true) (hb : o.blocks b = true) (hij : i < j) (hj : s.ops[j]? = some o') : o'.blocks b ≠ true := by
  intro hb'
  exact h.apart i j o o' hij hi hj hpend ⟨.inl hw, b, hb, hb'⟩

theorem getElem?_set_cases {l : List (Op β π α)} {x : Op β π α} (h : (l.set i o')[j]? = some x) :
    (j = i ∧ x = o' ∧ i < l.length) ∨ (j ≠ i ∧ l[j]? = some x) := by
  by_cases hij : j = i
  · subst hij
    have hlt : j < l.length := by
      have := (List.getElem?_eq_some_iff.mp h).1
      rwa [List.length_set] at this
    rw [List.getElem?_set_self hlt] at h
    exact .inl ⟨rfl, (Option.some.inj h).symm, hlt⟩
  · rw [List.getElem?_set_ne (Ne.symm hij)] at h
    exact .inr ⟨hij, h⟩

/-- What is known before a completed read does not change any more when a request in flight does. -/
theorem Sound.before_read (h : s.Sound init) {r : Op β π α} {v : Option α}
    (hv : content init ((s.ops.set i o').take j) b = v) (hi : s.ops[i]? = some o) (hpend : o.status = none)
    (hwrites : o'.writes = o.writes) (hblocks : o'.blocks = o.blocks) (hj : s.ops[j]? = some r) (hb : r.blocks b = true) :
    content init (s.ops.take j) b = v := by
  rw [List.take_set] at hv
  rcases Nat.lt_or_ge i j with hij | hji
  · have htake : (s.ops.take j)[i]? = some o := by rw [List.getElem?_take_of_lt hij, hi]
    have hnot : ¬o.Writes b := by
      intro hw
      exact h.not_shared hi hpend hw.1 hw.2 hij hj hb
    have hnot' : ¬o'.Writes b := by
      rw [Op.Writes, hwrites, hblocks]
      exact hnot
    rw [← content_set_of_not htake hnot hnot', hv]
  · rwa [List.set_eq_of_length_le (Nat.le_trans (List.length_take_le ..) hji)] at hv

/-- The order of the requests is kept when the request at `i` keeps its blocks and is not in flight
    again. -/
theorem Sound.apart_set (h : s.Sound init) (hi : s.ops[i]? = some o) (hwrites : o'.writes = o.writes)
    (hblocks : o'.blocks = o.blocks) (hpend : o'.status = none → o.status = none) (j k : Nat) (x y : Op β π α) (hjk : j < k)
    (hj : (s.ops.set i o')[j]? = some x) (hk : (s.ops.set i o')[k]? = some y) (hx : x.status = none) :
    ¬x.Conflicts y := by
  have hsame : ∀ z, o'.Conflicts z = o.Conflicts z ∧ z.Conflicts o' = z.Conflicts o := by
    intro z
    rw [Op.Conflicts, Op.Conflicts, Op.Conflicts, Op.Conflicts, hwrites, hblocks]
    exact ⟨rfl, rfl⟩
  rcases getElem?_set_cases hj with ⟨rfl, rfl, -⟩ | ⟨-, hj'⟩
  · rcases getElem?_set_cases hk with ⟨rfl, -, -⟩ | ⟨-, hk'⟩
    · omega
    · rw [(hsame y).1]
      exact h.apart j k o y hjk hi hk' (hpend hx)
  · rcases getElem?_set_cases hk with ⟨rfl, rfl, -⟩ | ⟨-, hk'⟩
    · rw [(hsame x).2]
      exact h.apart j k x o hjk hj' hi hx
    · exact h.apart j k x y hjk hj' hk' hx

theorem Sound.submit (h : s.Sound init) (pending : o.status = none) (untouched : o.through = ∅)
    (apart : ∀ x ∈ s.ops, x.status = none → ¬x.Conflicts o) : Sound init { s with ops := s.ops ++ [o] } := by
  have hcases {k : Nat} {x : Op β π α} (hk : (s.ops ++ [o])[k]? = some x) :
      s.ops[k]? = some x ∨ x = o ∧ k = s.ops.length := by
    rcases Nat.lt_or_ge k s.ops.length with hlt | hge
    · exact .inl ((List.getElem?_append_left hlt).symm.trans hk)
    · rw [List.getElem?_append_right hge] at hk
      obtain ⟨hlt, hx⟩ := List.getElem?_eq_some_iff.mp hk
      rw [List.length_singleton] at hlt
      refine .inr ⟨?_, by omega⟩
      rw [← hx, List.getElem_singleton]
  constructor
  · exact h.disjoint
  · intro i j x y hij hi hj hx
    rcases hcases hi with hi' | ⟨rfl, rfl⟩
    · rcases hcases hj with hj' | ⟨rfl, rfl⟩
      · exact h.apart i j x y hij hi' hj' hx
      · exact apart x (List.mem_of_getElem? hi') hx
    · have := (List.getElem?_eq_some_iff.mp hj).1
      rw [List.length_append, List.length_singleton] at this
      omega
  · intro i x hi hx hw b v p hb hv hp hin
    rcases hcases hi with hi' | ⟨rfl, rfl⟩
    · exact h.through i x hi' hx hw b v p hb hv hp hin
    · rw [untouched] at hin
      exact hin.elim
  · intro b v hv p hp
    refine h.holds b v ?_ p hp
    by_cases hw : o.Writes b
    · rw [content_append, leaves_of_writes hw, pending] at hv
      cases hv
    · rwa [content_append, leaves_of_not hw] at hv
  · intro i x hi hw hok b v hb hv
    rcases hcases hi with hi' | ⟨rfl, rfl⟩
    · refine h.reads i x hi' hw hok b v hb ?_
      rwa [List.take_append_of_le_length (Nat.le_of_lt (List.getElem?_eq_some_iff.mp hi').1)] at hv
    · rw [pending] at hok
      cases hok

theorem Sound.store (h : s.Sound init) {disk : π → α} {through : Set π} (hi : s.ops[i]? = some o) (pending : o.status = none)
    (writes : o.writes = true)
    (others : ∀ p, (∀ b, o.blocks b = true → p ∈ s.places b → p ∈ o.through) → disk p = s.disk p)
    (stored : ∀ b v p, o.blocks b = true → o.data b = some v → p ∈ s.places b → p ∈ through → p ∉ o.through →
      disk p = v) : Sound init { s with disk, ops := s.ops.set i { o with through } } := by
  -- places of other blocks stay as they are
  have hother {b : β} {p : π} (hb : o.blocks b ≠ true) (hp : p ∈ s.places b) : disk p = s.disk p := by
    refine others p fun b' hb' hp' => ?_
    obtain rfl := h.disjoint b b' p hp hp'
    exact absurd hb' hb
  constructor
  · exact h.disjoint
  · exact h.apart_set hi rfl rfl id
  · intro j x hj hx hw b v p hb hv hp hin
    rcases getElem?_set_cases hj with ⟨rfl, rfl, -⟩ | ⟨hji, hj'⟩
    · by_cases hold : p ∈ o.through
      · have hsame : disk p = s.disk p := others p fun _ _ _ => hold
        rw [← h.through j o hi pending writes b v p hb hv hp hold, ← hsame]
      · exact stored b v p hb hv hp hin hold
    · have hnot : o.blocks b ≠ true := by
        intro hob
        rcases Nat.lt_or_gt_of_ne hji with hlt | hgt
        · exact h.not_shared hj' hx hw hb hlt hi hob
        · exact h.not_shared hi pending writes hob hgt hj' hb
      rw [← h.through j x hj' hx hw b v p hb hv hp hin]
      exact hother hnot hp
  · intro b v hv p hp
    by_cases hw : o.Writes b
    · have hnone : content init (s.ops.set i { o with through }) b = none := by
        refine content_set_none hi (h.not_later hi pending hw.2) hw fun hc => ?_
        cases pending.symm.trans hc
      cases hnone.symm.trans hv
    · have hsame : content init (s.ops.set i { o with through }) b = content init s.ops b :=
        content_set_of_not hi hw hw
      rw [hsame] at hv
      rw [← h.holds b v hv p hp]
      exact hother (fun hb => hw ⟨writes, hb⟩) hp
  · intro j x hj hw hok b v hb hv
    rcases getElem?_set_cases hj with ⟨rfl, rfl, -⟩ | ⟨-, hj'⟩
    · rw [show o.writes = false from hw] at writes
      cases writes
    · exact h.reads j x hj' hw hok b v hb (h.before_read hv hi pending rfl rfl hj' hb)

/-- A request in flight is completed as `o'`. What it wrote has to be in all places of its blocks, and a
    read has to have found what was known. -/
theorem Sound.settle (h : s.Sound init) (hi : s.ops[i]? = some o) (pending : o.status = none)
    (hwrites : o'.writes = o.writes) (hblocks : o'.blocks = o.blocks) (hdone : o'.status ≠ none)
    (wrote : ∀ b v, o'.Writes b → o'.status = some true → o'.data b = some v → ∀ p ∈ s.places b, s.disk p = v)
    (found : o'.writes = false → o'.status = some true → ∀ b v, o'.blocks b = true →
      content init (s.ops.take i) b = some v → o'.data b = some v) : Sound init { s with ops := s.ops.set i o' } := by
  have hiff (b : β) : o'.Writes b ↔ o.Writes b := by rw [Op.Writes, Op.Writes, hwrites, hblocks]
  constructor
  · exact h.disjoint
  · exact h.apart_set hi hwrites hblocks fun hc => absurd hc hdone
  · intro j x hj hx
    rcases getElem?_set_cases hj with ⟨rfl, rfl, -⟩ | ⟨-, hj'⟩
    · exact absurd hx hdone
    · exact h.through j x hj' hx
  · intro b v hv p hp
    by_cases hw : o'.Writes b
    · have hlater := h.not_later hi pending ((hiff b).mp hw).2
      by_cases hok : o'.status = some true
      · have hdata : content init (s.ops.set i o') b = o'.data b := content_set_ok hi hlater hw hok
        rw [hdata] at hv
        exact wrote b v hw hok hv p hp
      · have hnone : content init (s.ops.set i o') b = none := content_set_none hi hlater hw hok
        cases hnone.symm.trans hv
    · have hsame : content init (s.ops.set i o') b = content init s.ops b :=
        content_set_of_not hi (fun hc => hw ((hiff b).mpr hc)) hw
      rw [hsame] at hv
      exact h.holds b v hv p hp
  · intro j x hj hw hok b v hb hv
    rcases getElem?_set_cases hj with ⟨rfl, rfl, -⟩ | ⟨-, hj'⟩
    · have hb' : o.blocks b = true := hblocks ▸ hb
      exact found hw hok b v hb (h.before_read hv hi pending hwrites hblocks hi hb')
    · exact h.reads j x hj' hw hok b v hb (h.before_read hv hi pending hwrites hblocks hj' hb)

theorem Sound.wrote (h : s.Sound init) (hi : s.ops[i]? = some o) (pending : o.status = none)
    (writes : o.writes = true)
    (all : ∀ b v p, o.blocks b = true → o.data b = some v → p ∈ s.places b → p ∈ o.through) :
    Sound init { s with ops := s.ops.set i { o with status := some true } } := by
  refine h.settle hi pending rfl rfl (fun hc => by cases hc) ?_ ?_
  · intro b v hw _ hv p hp
    exact h.through i o hi pending writes b v p hw.2 hv hp (all b v p hw.2 hv hp)
  · intro hw
    cases writes.symm.trans hw

theorem Sound.fail (h : s.Sound init) (hi : s.ops[i]? = some o) (pending : o.status = none) :
    Sound init { s with ops := s.ops.set i { o with status := some false } } := by
  refine h.settle hi pending rfl rfl (fun hc => by cases hc) ?_ ?_
  · intro b v _ hok
    cases hok
  · intro _ hok
    cases hok

theorem Sound.read (h : s.Sound init) {data : β → Option α} (hi : s.ops[i]? = some o) (pending : o.status = none)
    (reads : o.writes = false) (found : ∀ b, o.blocks b = true → ∃ p ∈ s.places b, data b = some (s.disk p)) :
    Sound init { s with ops := s.ops.set i { o with data, status := some true } } := by
  refine h.settle hi pending rfl rfl (fun hc => by cases hc) ?_ ?_
  · intro b v hw
    cases reads.symm.trans hw.1
  · intro _ _ b v hb hv
    -- no later request wrote what it found
    obtain ⟨p, hp, hd⟩ := found b hb
    have hnot : ¬o.Writes b := by
      intro hw
      cases reads.symm.trans hw.1
    have hnow : content init s.ops b = some v := by
      rw [content_at hi (h.not_later hi pending hb), leaves_of_not hnot]
      exact hv
    show data b = some v
    rw [hd, h.holds b v hnow p hp]

theorem Sound.drop (h : s.Sound init) {places : β → Set π} (fewer : ∀ b, places b ⊆ s.places b) :
    Sound init { s with places } := by
  constructor
  · intro b b' p hp hp'
    exact h.disjoint b b' p (fewer b hp) (fewer b' hp')
  · exact h.apart
  · intro i o hi hx hw b v p hb hv hp
    exact h.through i o hi hx hw b v p hb hv (fewer b hp)
  · intro b v hv p hp
    exact h.holds b v hv p (fewer b hp)
  · exact h.reads

/-- Every step keeps it. -/
theorem Sound.step (h : s.Sound init) (hs : Step s t) : t.Sound init := by
  cases hs with
  | submit o pending untouched apart => exact h.submit pending untouched apart
  | store i o disk through at_i pending writes others stored => exact h.store at_i pending writes others stored
  | wrote i o at_i pending writes all => exact h.wrote at_i pending writes all
  | read i o data at_i pending reads found => exact h.read at_i pending reads found
  | fail i o at_i pending => exact h.fail at_i pending
  | drop places fewer => exact h.drop fewer

theorem Sound.steps (h : s.Sound init) (hs : Steps s t) : t.Sound init := by
  induction hs with
  | refl => exact h
  | tail _ hstep ih => exact ih.step hstep

/-- A store no request was made of, whose known blocks are the same in all their places. -/
theorem sound_new {places : β → Set π} {disk : π → α} (disjoint : ∀ b b' p, p ∈ places b → p ∈ places b' → b = b')
    (holds : ∀ b v, init b = some v → ∀ p ∈ places b, disk p = v) : Sound init ⟨places, disk, []⟩ := by
  constructor
  · exact disjoint
  · intro i j o o' _ hi
    cases hi
  · intro i o hi
    cases hi
  · exact holds
  · intro i o hi
    cases hi

end Store

end FlexBSO.Lib

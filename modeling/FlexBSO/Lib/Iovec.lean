import Mathlib.Data.List.Nodup
import Mathlib.Data.List.Range
import Mathlib.Logic.Function.Basic
import Mathlib.Tactic.Ring

/- Byte memory addressed by a buffer and an offset in it, scatter lists over it,
   and the lockstep walk of several scatter lists. A scatter list is read through
   the list of its addresses (`addrs`), so that gathering is `List.map` and every
   fact about a byte of a scatter list is a fact about one list element. `nextv`
   is the walk: it hands out the longest segment that lies inside the current
   element of every list, and moves all of them past it. Over any type of buffer
   names and any type of bytes. -/
namespace FlexBSO.Lib

variable {β α : Type}

/-- A buffer and an offset in it. -/
structure Ptr (β : Type) where
  buf : β
  off : Nat
  deriving DecidableEq, Repr

def Ptr.add (p : Ptr β) (n : Nat) : Ptr β := ⟨p.buf, p.off + n⟩

/-- The `len` addresses from `p` on. -/
def Ptr.span (p : Ptr β) (len : Nat) : List (Ptr β) := (List.range len).map p.add

/-- One element of a scatter list. -/
structure Iov (β : Type) where
  base : Ptr β
  len : Nat
  deriving DecidableEq, Repr

/-- The addresses a scatter list covers, in its order. -/
def addrs (iovs : List (Iov β)) : List (Ptr β) := iovs.flatMap fun v => v.base.span v.len

abbrev Mem (β α : Type) := Ptr β → α

section store
variable [DecidableEq β]

/-- `bytes` stored at `ps`, one by one. -/
def store (m : Mem β α) : List (Ptr β) → List α → Mem β α
  | p :: ps, a :: as => store (Function.update m p a) ps as
  | _, _ => m

theorem store_of_notMem : ∀ (m : Mem β α) (ps : List (Ptr β)) (as : List α) {q : Ptr β},
    q ∉ ps → store m ps as q = m q
  | _, [], _, _, _ => rfl
  | _, _ :: _, [], _, _ => rfl
  | m, p :: ps, a :: as, q, h => by
    simp only [List.mem_cons, not_or] at h
    rw [store, store_of_notMem _ ps as h.2, Function.update_of_ne h.1]

/-- Reading back what was stored. -/
theorem map_store : ∀ (m : Mem β α) (ps : List (Ptr β)) (as : List α),
    ps.Nodup → ps.length = as.length → ps.map (store m ps as) = as
  | _, [], [], _, _ => rfl
  | m, p :: ps, a :: as, hd, hl => by
    rw [List.nodup_cons] at hd
    have ih := map_store (Function.update m p a) ps as hd.2 (by simpa using hl)
    simp only [List.map_cons, store]
    rw [ih, store_of_notMem _ _ _ hd.1, Function.update_self]

theorem store_getElem? {m : Mem β α} {ps : List (Ptr β)} {as : List α} (hd : ps.Nodup)
    (hl : ps.length = as.length) {j : Nat} {p : Ptr β} {a : α} (hp : ps[j]? = some p)
    (ha : as[j]? = some a) : store m ps as p = a := by
  have h := congrArg (fun l => l[j]?) (map_store m ps as hd hl)
  simpa [hp, ha] using h

/-- The first `n` of the addresses hold these values. -/
def Written (m : Mem β α) (ps : List (Ptr β)) (val : Nat → α) (n : Nat) : Prop :=
  ∀ j p, j < n → ps[j]? = some p → m p = val j

/-- The next `len` of the values are stored. -/
theorem Written.store {m : Mem β α} {ps : List (Ptr β)} {val : Nat → α} {n len : Nat} (h : Written m ps val n)
    (hd : ps.Nodup) (hlen : n + len ≤ ps.length) :
    Written (Lib.store m ((ps.drop n).take len) ((List.range len).map fun j => val (n + j))) ps val (n + len) := by
  intro j p hj hp
  rcases Nat.lt_or_ge j n with hlt | hge
  · -- an address of an earlier segment, which is not stored to
    have hnot : p ∉ (ps.drop n).take len := by
      intro hmem
      obtain ⟨i, hi⟩ := List.mem_iff_getElem?.mp (List.mem_of_mem_take hmem)
      rw [List.getElem?_drop] at hi
      have := (List.getElem?_inj (List.getElem?_eq_some_iff.mp hp).1 hd).mp (hp.trans hi.symm)
      omega
    rw [store_of_notMem m _ _ hnot]
    exact h j p hlt hp
  · obtain ⟨k, rfl⟩ := Nat.exists_eq_add_of_le hge
    have hk : k < len := by omega
    have hdk : ((ps.drop n).take len)[k]? = some p := by
      rw [List.getElem?_take_of_lt hk, List.getElem?_drop]
      exact hp
    have hvk : ((List.range len).map fun j => val (n + j))[k]? = some (val (n + k)) := by
      rw [List.getElem?_map, List.getElem?_range hk]
      rfl
    have hdn : ((ps.drop n).take len).Nodup := (hd.sublist (List.drop_sublist n ps)).sublist (List.take_sublist len _)
    have hll : ((ps.drop n).take len).length = ((List.range len).map fun j => val (n + j)).length := by
      rw [List.length_take, List.length_drop, List.length_map, List.length_range]
      omega
    exact store_getElem? hdn hll hdk hvk

end store

/-! ## Addresses -/

@[simp] theorem Ptr.add_buf (p : Ptr β) (n : Nat) : (p.add n).buf = p.buf := rfl

@[simp] theorem Ptr.add_off (p : Ptr β) (n : Nat) : (p.add n).off = p.off + n := rfl

@[simp] theorem Ptr.add_zero (p : Ptr β) : p.add 0 = p := rfl

@[simp] theorem Ptr.length_span (p : Ptr β) (len : Nat) : (p.span len).length = len := by
  simp [Ptr.span]

@[simp] theorem Ptr.getElem_span (p : Ptr β) (len j : Nat) (h : j < (p.span len).length) :
    (p.span len)[j] = p.add j := by
  simp [Ptr.span]

theorem Ptr.nodup_span (p : Ptr β) (len : Nat) : (p.span len).Nodup := by
  refine List.Nodup.map ?_ List.nodup_range
  intro a b h
  simpa [Ptr.add] using h

theorem Ptr.mem_span {p q : Ptr β} {len : Nat} :
    q ∈ p.span len ↔ q.buf = p.buf ∧ p.off ≤ q.off ∧ q.off < p.off + len := by
  simp only [Ptr.span, List.mem_map, List.mem_range]
  constructor
  · rintro ⟨j, hj, rfl⟩
    exact ⟨rfl, by simp, by simpa using hj⟩
  · rintro ⟨hb, h1, h2⟩
    refine ⟨q.off - p.off, by omega, ?_⟩
    cases q
    simp only [Ptr.add, Ptr.mk.injEq] at hb h1 ⊢
    exact ⟨hb.symm, by omega⟩

/-- A span cut in two. -/
theorem Ptr.span_add (p : Ptr β) (m n : Nat) : p.span (m + n) = p.span m ++ (p.add m).span n := by
  simp only [Ptr.span, List.range_add, List.map_append, List.map_map, List.append_cancel_left_eq]
  apply List.map_congr_left
  intro j _
  simp [Ptr.add, Nat.add_assoc]

@[simp] theorem addrs_nil : addrs ([] : List (Iov β)) = [] := rfl

@[simp] theorem addrs_cons (v : Iov β) (vs : List (Iov β)) :
    addrs (v :: vs) = v.base.span v.len ++ addrs vs := rfl

theorem addrs_append (vs ws : List (Iov β)) : addrs (vs ++ ws) = addrs vs ++ addrs ws := by
  simp [addrs]

theorem length_addrs (vs : List (Iov β)) : (addrs vs).length = (vs.map Iov.len).sum := by
  induction vs with
  | nil => rfl
  | cons v vs ih => simp [ih]

theorem mem_addrs {vs : List (Iov β)} {q : Ptr β} :
    q ∈ addrs vs ↔ ∃ v ∈ vs, q ∈ v.base.span v.len := by
  simp [addrs]

/-- Elements in different buffers cover different addresses. -/
theorem nodup_addrs {vs : List (Iov β)} (h : (vs.map fun v => v.base.buf).Nodup) :
    (addrs vs).Nodup := by
  induction vs with
  | nil => simp
  | cons v vs ih =>
    simp only [List.map_cons, List.nodup_cons] at h
    rw [addrs_cons, List.nodup_append]
    refine ⟨Ptr.nodup_span _ _, ih h.2, ?_⟩
    rintro p hp _ hq rfl
    obtain ⟨v', hv', hq⟩ := mem_addrs.mp hq
    rw [Ptr.mem_span] at hp hq
    exact h.1 (List.mem_map.mpr ⟨v', hv', hq.1.symm.trans hp.1⟩)

/-! ## The lockstep walk -/

/-- A scatter list moved past `len` bytes of its first element. -/
def advance (len : Nat) : List (Iov β) → List (Iov β)
  | [] => []
  | v :: vs => if v.len = len then vs else ⟨v.base.add len, v.len - len⟩ :: vs

/-- The address a scatter list stands at, `d` at its end. -/
def headPtr (d : Ptr β) (vs : List (Iov β)) : Ptr β := (vs.head?.map Iov.base).getD d

/-- The length of the shortest first element. -/
def minLen : List (List (Iov β)) → Nat
  | [] => 0
  | [its] => (its.head?.map Iov.len).getD 0
  | its :: its' :: rest => min ((its.head?.map Iov.len).getD 0) (minLen (its' :: rest))

/-- One step of the walk: the length of the common segment, where it starts in
    each list, and the lists past it. A list that is at its end ends the walk. -/
def nextv (d : Ptr β) (its : List (List (Iov β))) : Option (Nat × List (Ptr β) × List (List (Iov β))) :=
  if its.any List.isEmpty then none
  else some (minLen its, its.map (headPtr d), its.map (advance (minLen its)))

theorem minLen_le {its : List (List (Iov β))} {l : List (Iov β)} (h : l ∈ its) :
    minLen its ≤ (l.head?.map Iov.len).getD 0 := by
  induction its with
  | nil => simp at h
  | cons a rest ih =>
    cases rest with
    | nil =>
      simp only [List.mem_singleton] at h
      simp [minLen, h]
    | cons b rest =>
      rw [minLen]
      rcases List.mem_cons.mp h with rfl | h
      · exact Nat.min_le_left _ _
      · exact (Nat.min_le_right _ _).trans (ih h)

theorem minLen_mem : ∀ {its : List (List (Iov β))}, its ≠ [] →
    ∃ l ∈ its, minLen its = (l.head?.map Iov.len).getD 0
  | [a], _ => ⟨a, by simp, by simp [minLen]⟩
  | a :: b :: rest, _ => by
    obtain ⟨l, hl, e⟩ := minLen_mem (List.cons_ne_nil b rest)
    rw [minLen]
    rcases Nat.le_total ((a.head?.map Iov.len).getD 0) (minLen (b :: rest)) with h | h
    · exact ⟨a, by simp, Nat.min_eq_left h⟩
    · exact ⟨l, List.mem_cons_of_mem _ hl, by rw [Nat.min_eq_right h, e]⟩

/-- The segment of a list: its first `len` addresses start at its head. -/
theorem addrs_take {len : Nat} {v : Iov β} {vs : List (Iov β)} (h : len ≤ v.len) :
    (addrs (v :: vs)).take len = v.base.span len := by
  rw [addrs_cons, List.take_append_of_le_length (by simpa using h)]
  have e : v.len = len + (v.len - len) := by omega
  rw [e, Ptr.span_add]
  simp

/-- Moving past a segment drops its addresses. -/
theorem addrs_advance {len : Nat} {v : Iov β} {vs : List (Iov β)} (h : len ≤ v.len) :
    addrs (advance len (v :: vs)) = (addrs (v :: vs)).drop len := by
  have e : v.len = len + (v.len - len) := by omega
  rw [advance]
  split
  · next hv => rw [addrs_cons, hv, List.drop_left' (by simp)]
  · rw [addrs_cons, addrs_cons]
    conv => rhs; rw [e, Ptr.span_add, List.append_assoc, List.drop_left' (by simp)]

/-- What a step of the walk hands out, list by list. -/
theorem nextv_spec {d : Ptr β} {its its' : List (List (Iov β))} {len : Nat} {out : List (Ptr β)}
    (h : nextv d its = some (len, out, its')) :
    out = its.map (headPtr d) ∧ its' = its.map (advance len) ∧
      ∀ l ∈ its, (addrs l).take len = (headPtr d l).span len ∧
        addrs (advance len l) = (addrs l).drop len ∧ len ≤ (addrs l).length := by
  unfold nextv at h
  split at h
  · cases h
  · next hne =>
    simp only [Option.some.injEq, Prod.mk.injEq] at h
    obtain ⟨rfl, rfl, rfl⟩ := h
    refine ⟨rfl, rfl, ?_⟩
    intro l hl
    have hle := minLen_le hl
    cases l with
    | nil =>
      simp only [List.any_eq_true, not_exists, not_and, Bool.not_eq_true] at hne
      simpa using hne [] hl
    | cons v vs =>
      have hle : minLen its ≤ v.len := by simpa using hle
      refine ⟨?_, addrs_advance hle, ?_⟩
      · rw [addrs_take hle]
        rfl
      · rw [addrs_cons, List.length_append, Ptr.length_span]
        omega

/-- No element is empty. -/
def Full (l : List (Iov β)) : Prop := ∀ v ∈ l, 0 < v.len

/-- Over lists of elements that are not empty, no segment is. -/
theorem minLen_pos {its : List (List (Iov β))} (hne : its ≠ []) (h : ∀ l ∈ its, l ≠ [] ∧ Full l) : 0 < minLen its := by
  obtain ⟨l, hl, hlen⟩ := minLen_mem hne
  obtain ⟨hcons, hfull⟩ := h l hl
  cases l with
  | nil => exact absurd rfl hcons
  | cons v vs =>
    rw [hlen]
    exact hfull v List.mem_cons_self

/-- Moving past a segment leaves no empty element. -/
theorem Full.advance {len : Nat} {l : List (Iov β)} (h : Full l) (hle : ∀ v ∈ l.head?, len ≤ v.len) :
    Full (advance len l) := by
  cases l with
  | nil => exact h
  | cons v vs =>
    have hv : len ≤ v.len := hle v rfl
    intro w hw
    rw [Lib.advance] at hw
    by_cases heq : v.len = len
    · rw [if_pos heq] at hw
      exact h w (List.mem_cons_of_mem v hw)
    · rw [if_neg heq] at hw
      rcases List.mem_cons.mp hw with rfl | hw
      · show 0 < v.len - len
        omega
      · exact h w (List.mem_cons_of_mem v hw)

/-- The walk goes on as long as every list has elements. -/
theorem nextv_isSome {d : Ptr β} {its : List (List (Iov β))} (h : ∀ l ∈ its, l ≠ []) :
    ∃ r, nextv d its = some r := by
  unfold nextv
  rw [if_neg]
  · exact ⟨_, rfl⟩
  · simp only [List.any_eq_true, not_exists, not_and, Bool.not_eq_true]
    intro l hl
    simpa using h l hl

end FlexBSO.Lib

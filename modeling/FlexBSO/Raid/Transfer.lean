import FlexBSO.Lib.Store
import FlexBSO.Raid.Parents

/- The data that goes with requests and children. A child that succeeds has moved its
   blocks between the buffers of its request and its base bdev; a request is an operation
   of a store of blocks, each of them kept on some slots. -/
namespace FlexBSO.Raid
open FlexBSO.Lib

variable {α : Type}

namespace Child

/-- The base bdevs after a write, `buf` being its buffers. -/
def store (c : Child) (disk : Nat → Nat → α) (buf : Nat → α) (slot p : Nat) : α :=
  if slot = c.slot ∧ c.offsetBlocks ≤ p ∧ p < c.offsetBlocks + c.numBlocks then buf (p - c.offsetBlocks) else disk slot p

/-- The buffers after a read. -/
def load (c : Child) (disk : Nat → Nat → α) (buf : Nat → α) (k : Nat) : α :=
  if k < c.numBlocks then disk c.slot (c.offsetBlocks + k) else buf k

theorem store_of_not {c : Child} {disk : Nat → Nat → α} {buf : Nat → α} {slot p : Nat}
    (h : ∀ k < c.numBlocks, (slot, p) ≠ (c.slot, c.offsetBlocks + k)) : c.store disk buf slot p = disk slot p := by
  apply if_neg
  rintro ⟨rfl, hle, hlt⟩
  apply h (p - c.offsetBlocks) (by omega)
  rw [Nat.add_sub_cancel' hle]

theorem store_at {c : Child} {disk : Nat → Nat → α} {buf : Nat → α} {k : Nat} (hk : k < c.numBlocks) :
    c.store disk buf c.slot (c.offsetBlocks + k) = buf k := by
  rw [store, if_pos ⟨rfl, by omega, by omega⟩, Nat.add_sub_cancel_left]

end Child

/-- Blocks at other places stay as they are when one changes. -/
theorem update_of_not {disk : Nat → Nat → α} {slot block : Nat} {v : α} {p : Nat × Nat} (h : p ≠ (slot, block)) :
    Function.update disk slot (Function.update (disk slot) block v) p.1 p.2 = disk p.1 p.2 := by
  by_cases hslot : p.1 = slot
  · have hblock : p.2 ≠ block := fun hc => h (Prod.ext hslot hc)
    rw [hslot, Function.update_self, Function.update_of_ne hblock]
  · rw [Function.update_of_ne hslot]

namespace RaidIo

/-- The request changes its blocks. -/
def writes (q : RaidIo) : Bool := q.type == .write || q.type == .unmap

/-- The blocks a request reads or changes; a flush does neither. -/
def blocks (q : RaidIo) (b : Nat) : Bool :=
  q.type != .flush && (decide (q.offsetBlocks ≤ b) && decide (b < q.offsetBlocks + q.numBlocks))

/-- Two requests have a block in common and one of them changes it. -/
def Clashes (q q' : RaidIo) : Prop :=
  (q.writes = true ∨ q'.writes = true) ∧ q.type ≠ .flush ∧ q'.type ≠ .flush ∧
  max q.offsetBlocks q'.offsetBlocks < min (q.offsetBlocks + q.numBlocks) (q'.offsetBlocks + q'.numBlocks)

instance (q q' : RaidIo) : Decidable (q.Clashes q') := by
  unfold Clashes
  exact inferInstance

/-- The request as an operation on the blocks of the array. What is in a block after an unmap is up
    to the base bdev. -/
def op (q : RaidIo) (buf : Nat → α) (through : Set (Nat × Nat)) (completions : List IoStatus) : Op Nat (Nat × Nat) α where
  writes := q.writes
  blocks := q.blocks
  data b := if q.type = .unmap then none else some (buf (b - q.offsetBlocks))
  through := through
  status := completions.head?.map (· == .success)

variable {q q' : RaidIo} {b : Nat}

theorem mem_blocks : q.blocks b = true ↔ q.type ≠ .flush ∧ q.offsetBlocks ≤ b ∧ b < q.offsetBlocks + q.numBlocks := by
  simp [blocks]

theorem block_mem (h : q.type ≠ .flush) {k : Nat} (hk : k < q.numBlocks) : q.blocks (q.offsetBlocks + k) = true :=
  mem_blocks.mpr ⟨h, by omega, by omega⟩

theorem writes_of_write (h : q.type = .write) : q.writes = true := by simp [writes, h]

theorem writes_of_read (h : q.type = .read) : q.writes = false := by simp [writes, h]

theorem op_status_none {buf : Nat → α} {through : Set (Nat × Nat)} {completions : List IoStatus} :
    (q.op buf through completions).status = none ↔ completions = [] := by
  rw [op, Option.map_eq_none_iff, List.head?_eq_none_iff]

theorem clashes_of_conflicts {buf buf' : Nat → α} {through through' : Set (Nat × Nat)} {cs cs' : List IoStatus}
    (h : (q.op buf through cs).Conflicts (q'.op buf' through' cs')) : q.Clashes q' := by
  obtain ⟨hwrites, b, hb, hb'⟩ := h
  obtain ⟨hq, hle, hlt⟩ := mem_blocks.mp hb
  obtain ⟨hq', hle', hlt'⟩ := mem_blocks.mp hb'
  exact ⟨hwrites, hq, hq', by omega⟩

end RaidIo

end FlexBSO.Raid

import FlexBSO.Lib.Iovec
import FlexBSO.Lib.Xor
import Mathlib.Tactic.Ring
import Mathlib.Tactic.Linarith

/- Where raid5f puts a logical block. The arithmetic is the source's, at the C
   types' widths: chunk indices are `uint8_t`, offsets `uint64_t`, and a chunk
   index shifted by the strip size shift is an `int` first. Under the bounds a
   configured array meets (the fields of `Geometry`) none of it wraps, and the
   clean forms at the end are what the rest of the development uses. -/
namespace FlexBSO.Raid5f
open FlexBSO.Lib

/-- What raid5f reads of `struct raid_bdev` and `struct raid5f_info`. The bounds are
    those of the C types: the count of base bdevs is a `uint8_t`, a strip in bytes is a
    `uint32_t` (`strip_size` is `strip_size_kb * 1024 / blocklen` in 32 bits) and so is the
    metadata size, a chunk index shifted by the strip size shift fits an `int`, and
    `blockcnt` is a `uint64_t`. -/
structure Geometry where
  numBaseBdevs : Nat
  stripSizeShift : Nat
  blocklenShift : Nat
  /-- `spdk_bdev_get_md_size` of the array, zero without separate metadata. -/
  mdSize : Nat
  totalStripes : Nat
  /-- `base_bdev_info[i].data_offset` -/
  dataOffset : Nat → Nat
  base_bdevs_min : 3 ≤ numBaseBdevs
  num_base_bdevs_le : numBaseBdevs ≤ 255
  chunk_shift_fits : numBaseBdevs * 2 ^ stripSizeShift ≤ 2 ^ 31
  strip_bytes_fit : stripSizeShift + blocklenShift < 32
  md_size_fits : mdSize < 2 ^ 32
  blockcnt_lt : (numBaseBdevs - 1) * 2 ^ stripSizeShift * totalStripes < 2 ^ 64

namespace Geometry
variable (g : Geometry)

/-- `strip_size`, in blocks -/
def stripSize : Nat := 2 ^ g.stripSizeShift

/-- `blocklen`, in bytes -/
def blocklen : Nat := 2 ^ g.blocklenShift

/-- `raid5f_stripe_data_chunks_num`: `min_base_bdevs_operational`, one less than the base bdevs. -/
def stripeDataChunksNum : Nat := g.numBaseBdevs - 1

/-- `r5f_info->stripe_blocks` -/
def stripeBlocks : Nat := g.stripSize * g.stripeDataChunksNum

/-- `bdev.blockcnt` -/
def blockcnt : Nat := g.stripeBlocks * g.totalStripes

/-- `raid5f_stripe_parity_chunk_index` -/
def stripeParityChunkIndex (stripeIndex : Nat) : Nat :=
  (g.stripeDataChunksNum - stripeIndex % g.numBaseBdevs) % 2 ^ 8

/-- `x << k` where `x` is promoted to `int`, converted to `uint64_t`. -/
def shlInt (x k : Nat) : Nat :=
  let v := (x <<< k) % 2 ^ 32
  if v < 2 ^ 31 then v else v + (2 ^ 64 - 2 ^ 32)

/-- `chunk_data_idx` of `raid5f_submit_read_request` and `raid5f_chunk_read_complete` -/
def chunkDataIdx (stripeOffset : Nat) : Nat := (stripeOffset >>> g.stripSizeShift) % 2 ^ 8

/-- `chunk_idx`: data chunks are numbered past the parity chunk. -/
def chunkIdx (stripeIndex stripeOffset : Nat) : Nat :=
  if g.chunkDataIdx stripeOffset < g.stripeParityChunkIndex stripeIndex then g.chunkDataIdx stripeOffset
  else (g.chunkDataIdx stripeOffset + 1) % 2 ^ 8

/-- `chunk_offset` -/
def chunkOffset (stripeOffset : Nat) : Nat :=
  (stripeOffset + 2 ^ 64 - shlInt (g.chunkDataIdx stripeOffset) g.stripSizeShift) % 2 ^ 64

/-- `base_offset_blocks` of a chunk at an offset in it -/
def baseOffsetBlocks (stripeIndex chunkOffset : Nat) : Nat :=
  ((stripeIndex <<< g.stripSizeShift) % 2 ^ 64 + chunkOffset) % 2 ^ 64

/-- Byte address on base bdev `i` of a block of the raid's data region, as
    `raid_bdev_readv_blocks_ext` and `raid_bdev_writev_blocks_ext` place it. -/
def byteOffset (i offsetBlocks : Nat) : Nat := (g.dataOffset i + offsetBlocks) * g.blocklen

/-- The indices of all chunks of a stripe. -/
def chunkIndices : List Nat := List.range g.numBaseBdevs

variable {g}

theorem stripSize_pos : 0 < g.stripSize := Nat.two_pow_pos _

theorem blocklen_pos : 0 < g.blocklen := Nat.two_pow_pos _

theorem dataChunks_lt : g.stripeDataChunksNum < g.numBaseBdevs := by
  have := g.base_bdevs_min
  unfold stripeDataChunksNum
  omega

theorem mem_chunkIndices {i : Nat} : i ∈ g.chunkIndices ↔ i < g.numBaseBdevs := by
  simp [chunkIndices]

theorem nodup_chunkIndices : g.chunkIndices.Nodup := List.nodup_range

theorem parity_eq (si : Nat) :
    g.stripeParityChunkIndex si = g.stripeDataChunksNum - si % g.numBaseBdevs := by
  have := g.num_base_bdevs_le
  unfold stripeParityChunkIndex stripeDataChunksNum
  apply Nat.mod_eq_of_lt
  omega

theorem parity_lt (si : Nat) : g.stripeParityChunkIndex si < g.numBaseBdevs := by
  rw [parity_eq]
  have := g.dataChunks_lt
  omega

/-- An offset inside a stripe lies in one of its data chunks. -/
theorem div_lt_dataChunks {so : Nat} (h : so < g.stripeBlocks) :
    so / g.stripSize < g.stripeDataChunksNum := by
  rw [stripeBlocks] at h
  exact Nat.div_lt_of_lt_mul h

theorem chunkDataIdx_eq {so : Nat} (h : so < g.stripeBlocks) :
    g.chunkDataIdx so = so / g.stripSize := by
  have h1 := g.div_lt_dataChunks h
  have h2 := g.num_base_bdevs_le
  have h3 := g.dataChunks_lt
  unfold chunkDataIdx
  rw [Nat.shiftRight_eq_div_pow]
  exact Nat.mod_eq_of_lt (by unfold stripSize at h1; omega)

theorem chunkIdx_eq {si so : Nat} (h : so < g.stripeBlocks) :
    g.chunkIdx si so = if so / g.stripSize < g.stripeParityChunkIndex si then so / g.stripSize
      else so / g.stripSize + 1 := by
  have h1 := g.div_lt_dataChunks h
  have h2 := g.num_base_bdevs_le
  have h3 := g.dataChunks_lt
  unfold chunkIdx
  rw [chunkDataIdx_eq h]
  split
  · rfl
  · exact Nat.mod_eq_of_lt (by omega)

/-- A data block's chunk is one of the stripe's, and never the parity chunk. -/
theorem chunkIdx_lt {si so : Nat} (h : so < g.stripeBlocks) : g.chunkIdx si so < g.numBaseBdevs := by
  have h1 := g.div_lt_dataChunks h
  have h3 := g.dataChunks_lt
  rw [chunkIdx_eq h]
  split
  · omega
  · unfold stripeDataChunksNum at h1
    omega

theorem chunkIdx_ne_parity {si so : Nat} (h : so < g.stripeBlocks) :
    g.chunkIdx si so ≠ g.stripeParityChunkIndex si := by
  rw [chunkIdx_eq h]
  split <;> omega

theorem shlInt_eq {x : Nat} (h : x < g.numBaseBdevs) :
    shlInt x g.stripSizeShift = x * g.stripSize := by
  have h1 : x * g.stripSize < 2 ^ 31 :=
    Nat.lt_of_lt_of_le (Nat.mul_lt_mul_of_pos_right h g.stripSize_pos) g.chunk_shift_fits
  unfold shlInt
  rw [Nat.shiftLeft_eq, show x * 2 ^ g.stripSizeShift = x * g.stripSize from rfl,
    Nat.mod_eq_of_lt (by omega)]
  exact if_pos h1

theorem chunkOffset_eq {so : Nat} (h : so < g.stripeBlocks) (hb : so < 2 ^ 64) :
    g.chunkOffset so = so % g.stripSize := by
  have h1 := g.div_lt_dataChunks h
  have h3 := g.dataChunks_lt
  have hd := Nat.div_add_mod so g.stripSize
  have hm : g.stripSize * (so / g.stripSize) = so / g.stripSize * g.stripSize := Nat.mul_comm _ _
  unfold chunkOffset
  rw [chunkDataIdx_eq h, shlInt_eq (by omega)]
  rw [show so + 2 ^ 64 - so / g.stripSize * g.stripSize = so % g.stripSize + 2 ^ 64 by omega,
    Nat.add_mod_right]
  exact Nat.mod_eq_of_lt (by omega)

/-- No stripe of the array reaches past 64 bits. -/
theorem baseOffsetBlocks_eq {si co : Nat} (hs : si < g.totalStripes) (hc : co < g.stripSize) :
    g.baseOffsetBlocks si co = si * g.stripSize + co := by
  have h1 : (si + 1) * g.stripSize ≤ g.totalStripes * g.stripSize :=
    Nat.mul_le_mul_right _ (by omega)
  have h2 : g.totalStripes * g.stripSize ≤ (g.numBaseBdevs - 1) * 2 ^ g.stripSizeShift * g.totalStripes := by
    have hn : 1 ≤ g.numBaseBdevs - 1 := by have := g.base_bdevs_min; omega
    calc g.totalStripes * g.stripSize = 1 * 2 ^ g.stripSizeShift * g.totalStripes := by
          unfold stripSize; ring
      _ ≤ _ := Nat.mul_le_mul_right _ (Nat.mul_le_mul_right _ hn)
  have h3 := g.blockcnt_lt
  rw [Nat.add_mul, Nat.one_mul] at h1
  have e : (si <<< g.stripSizeShift) % 2 ^ 64 = si * g.stripSize := by
    rw [Nat.shiftLeft_eq]
    exact Nat.mod_eq_of_lt (show si * g.stripSize < 2 ^ 64 by omega)
  rw [baseOffsetBlocks, e]
  exact Nat.mod_eq_of_lt (by omega)

end Geometry

end FlexBSO.Raid5f

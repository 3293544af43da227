import Mathlib.Data.List.Basic
import Mathlib.Data.Nat.Log
import Mathlib.Tactic.Ring

/- The data of the raid module: what it reads of a base bdev, the slots and the
   fields of a `struct raid_bdev`, and the four level modules' descriptors.
   Descriptors and claims are held on base bdevs named by a number, which stands
   for the address of the `struct spdk_bdev`. Integers are the source's at their
   C width, cut by `u32` and `u64` where the source's arithmetic can wrap. -/
namespace FlexBSO.Raid

/-- Conversion to `uint8_t`, `uint32_t` and `uint64_t`. -/
def u8 (n : Nat) : Nat := n % 2 ^ 8
def u32 (n : Nat) : Nat := n % 2 ^ 32
def u64 (n : Nat) : Nat := n % 2 ^ 64

/-- `a - b` in `uint64_t` -/
def sub64 (a b : Nat) : Nat := u64 (a + 2 ^ 64 - b)

/-! Three functions of SPDK's util.h, which is not part of the repository, each with what it is
    documented to do; that leaves no other function. -/

/-- `spdk_u32_is_pow2` -/
def spdkU32IsPow2 (x : Nat) : Bool := x != 0 && 2 ^ x.log2 == x

/-- `spdk_u32log2`: zero of zero -/
def spdkU32Log2 (x : Nat) : Nat := x.log2

/-- `spdk_divide_round_up` -/
def spdkDivideRoundUp (num divisor : Nat) : Nat := (num + divisor - 1) / divisor

theorem spdkU32IsPow2_iff {x : Nat} : spdkU32IsPow2 x = true ↔ ∃ k, x = 2 ^ k := by
  unfold spdkU32IsPow2
  simp only [bne_iff_ne, ne_eq, Bool.and_eq_true, beq_iff_eq]
  constructor
  · exact fun ⟨_, h⟩ => ⟨x.log2, h.symm⟩
  · rintro ⟨k, rfl⟩
    exact ⟨(Nat.two_pow_pos k).ne', by rw [Nat.log2_two_pow]⟩

/-- The logarithm, rounded down. -/
theorem spdkU32Log2_eq_iff {x k : Nat} (hx : x ≠ 0) : spdkU32Log2 x = k ↔ 2 ^ k ≤ x ∧ x < 2 ^ (k + 1) :=
  Nat.log2_eq_iff hx

@[simp] theorem spdkU32Log2_two_pow (k : Nat) : spdkU32Log2 (2 ^ k) = k := Nat.log2_two_pow

/-- The least number of divisors that make up `num`. -/
theorem spdkDivideRoundUp_le_iff {num divisor q : Nat} (h : 0 < divisor) :
    spdkDivideRoundUp num divisor ≤ q ↔ num ≤ q * divisor := by
  unfold spdkDivideRoundUp
  rw [← Nat.lt_succ_iff, Nat.div_lt_iff_lt_mul h, Nat.succ_mul]
  omega

/-- `errno` values the module returns or tells apart. -/
def EPERM : Int := 1
def ENOMEM : Int := 12
def EBUSY : Int := 16
def EEXIST : Int := 17
def ENODEV : Int := 19
def EINVAL : Int := 22
def EALREADY : Int := 114

/-- `enum raid_level` without `INVALID_RAID_LEVEL` -/
inductive RaidLevel where
  | raid0 | raid1 | raid5f | concat
  deriving DecidableEq, Repr

/-- `enum raid_bdev_state` -/
inductive RaidBdevState where
  | online | configuring | offline
  deriving DecidableEq, Repr

/-- What the module reads of the `struct spdk_bdev` of a base bdev, with the bounds of its
    64-bit and 32-bit fields. -/
structure Bdev where
  name : String
  blockcnt : Nat
  blocklen : Nat
  optimalIoBoundary : Nat := 0
  /-- `spdk_bdev_get_dif_type`, zero for `SPDK_DIF_DISABLE` -/
  difType : Nat := 0
  mdSize : Nat := 0
  mdInterleave : Bool := false
  blockcnt_lt : blockcnt < 2 ^ 64 := by decide
  blocklen_lt : blocklen < 2 ^ 32 := by decide
  boundary_lt : optimalIoBoundary < 2 ^ 32 := by decide
  deriving DecidableEq, Repr

/-! Bounds of the base bdevs that the examples are made of. -/

theorem blockcnt_1024_lt : 1024 < 2 ^ 64 := by decide
theorem blockcnt_65536_lt : 65536 < 2 ^ 64 := by decide
theorem blocklen_512_lt : 512 < 2 ^ 32 := by decide
theorem boundary_zero_lt : 0 < 2 ^ 32 := by decide

/-- `struct raid_base_bdev_info`. `desc` is the base bdev the descriptor is open on; `removeCb`
    is the request `remove_cb` and `remove_cb_ctx` answer. -/
structure RaidBaseBdevInfo where
  name : Option String := none
  desc : Option Nat := none
  dataOffset : Nat := 0
  dataSize : Nat := 0
  removeScheduled : Bool := false
  removeCb : Option Nat := none
  blockcnt : Nat := 0
  deriving DecidableEq, Repr

/-- `struct concat_block_range` -/
structure ConcatBlockRange where
  start : Nat
  length : Nat
  deriving DecidableEq, Repr

/-- `module_private`, as each level's `start` leaves it. -/
inductive ModulePrivate where
  | none
  | concat (blockRange : List ConcatBlockRange)
  | raid1
  | raid5f (stripeBlocks totalStripes : Nat)
  deriving DecidableEq, Repr

/-- What the bdev layer knows of the raid bdev itself: whether it is registered, or being
    unregistered with its descriptors still to be closed, or past that and handed to `destruct`.
    `unregisterCb` is the request `unregister_cb` answers. -/
inductive BdevStatus where
  | unregistered
  | ready
  | unregistering (unregisterCb : Option Nat)
  | destructing (unregisterCb : Option Nat)
  deriving DecidableEq, Repr

/-- `struct raid_bdev`. `num_base_bdevs` is the length of the array `base_bdev_info`, which is
    allocated with it. The fields after `blocklenShift` are those of the embedded `struct
    spdk_bdev`, the last one is kept by the bdev layer. -/
structure RaidBdev where
  name : String
  uuid : Nat
  baseBdevInfo : List RaidBaseBdevInfo
  stripSize : Nat := 0
  stripSizeKb : Nat
  stripSizeShift : Nat := 0
  blocklenShift : Nat := 0
  state : RaidBdevState := .configuring
  numBaseBdevsDiscovered : Nat := 0
  minBaseBdevsOperational : Nat
  level : RaidLevel
  destroyStarted : Bool := false
  superblockEnabled : Bool
  modulePrivate : ModulePrivate := .none
  blocklen : Nat := 0
  blockcnt : Nat := 0
  mdLen : Nat := 0
  mdInterleave : Bool := false
  optimalIoBoundary : Nat := 0
  splitOnOptimalIoBoundary : Bool := false
  writeUnitSize : Nat := 0
  splitOnWriteUnit : Bool := false
  status : BdevStatus := .unregistered
  deriving DecidableEq, Repr

/-- `num_base_bdevs` -/
def RaidBdev.numBaseBdevs (r : RaidBdev) : Nat := r.baseBdevInfo.length

/-- `base_bdevs_constraint` -/
inductive Constraint where
  | unset
  | maxBaseBdevsRemoved (value : Nat)
  | minBaseBdevsOperational (value : Nat)
  deriving DecidableEq, Repr

/-- `module->stop`: missing, done when it returns, or done in a later callback. -/
inductive Stop where
  | missing | sync | async
  deriving DecidableEq, Repr

/-- `struct raid_bdev_module`, without its function pointers: `start` and the submit functions
    are chosen by the level where they are called. -/
structure RaidBdevModule where
  baseBdevsMin : Nat
  baseBdevsConstraint : Constraint := .unset
  stop : Stop := .missing
  /-- `submit_null_payload_request` is not NULL -/
  nullPayload : Bool := false
  /-- `resize` is not NULL -/
  resize : Bool := false
  deriving DecidableEq, Repr

/-- `raid_bdev_module_find`: every level of the enumeration has a registered module. -/
def RaidLevel.module : RaidLevel → RaidBdevModule
  | .raid0 => { baseBdevsMin := 1, nullPayload := true, resize := true }
  | .raid1 => { baseBdevsMin := 2, baseBdevsConstraint := .minBaseBdevsOperational 1, stop := .async }
  | .raid5f => { baseBdevsMin := 3, baseBdevsConstraint := .maxBaseBdevsRemoved 1, stop := .async }
  | .concat => { baseBdevsMin := 1, stop := .sync, nullPayload := true }

/-- `min_operational` of `raid_bdev_create` -/
def RaidBdevModule.minOperational (m : RaidBdevModule) (numBaseBdevs : Nat) : Nat :=
  match m.baseBdevsConstraint with
  | .maxBaseBdevsRemoved v => u8 (numBaseBdevs + 2 ^ 8 - v)
  | .minBaseBdevsOperational v => v
  | .unset => numBaseBdevs

/-- The raid bdev `raid_bdev_create` builds, or its error. The duplicate name, the allocations
    and the list of raid bdevs are the caller's. -/
def RaidBdev.make (name : String) (stripSize numBaseBdevs : Nat) (level : RaidLevel)
    (superblockEnabled : Bool) (uuid : Nat) : Except Int RaidBdev :=
  if level = .raid1 ∧ stripSize ≠ 0 then .error (-EINVAL)
  else if level ≠ .raid1 ∧ spdkU32IsPow2 stripSize = false then .error (-EINVAL)
  else if numBaseBdevs < level.module.baseBdevsMin then .error (-EINVAL)
  else
    let minOperational := level.module.minOperational numBaseBdevs
    if minOperational = 0 ∨ numBaseBdevs < minOperational then .error (-EINVAL)
    else .ok {
      name, uuid, level, superblockEnabled, stripSizeKb := stripSize
      baseBdevInfo := List.replicate numBaseBdevs {}
      minBaseBdevsOperational := minOperational }

end FlexBSO.Raid

import FlexBSO.Lib.Stripe
import FlexBSO.Raid5f.Quiet

/- What the data of a channel should be. To its users the array is a flat device
   (`deviceAt`): the writes in the order they were submitted, each putting the bytes of
   its buffers where it is addressed. A stripe of the base bdevs holds its part of that
   device with the parity next to it (`stripeContent`). Below that are the facts about
   the buffers and blocks of one stripe request: a chunk whose I/O has moved (`Synced`)
   and as much of the XOR as is stored (`Xored`). -/
namespace FlexBSO.Raid5f
open FlexBSO.Lib

section content
variable (c : RaidChannel)

/-! ## The flat device -/

def stripeOf (x : RaidIo) : Nat := x.offsetBlocks / c.stripeBlocks

/-- The first byte of the device a request addresses. -/
def RaidIo.firstByte (x : RaidIo) : Nat := x.offsetBlocks * c.blocklen

/-- It writes the byte at `a`. -/
def RaidIo.Writes (x : RaidIo) (a : Nat) : Prop :=
  x.type = .write ∧ x.firstByte c ≤ a ∧ a < x.firstByte c + x.numBlocks * c.blocklen

instance (x : RaidIo) (a : Nat) : Decidable (x.Writes c a) := by
  unfold RaidIo.Writes
  infer_instance

/-- Byte `a` of the device after the requests below `n`, its writes taken from the buffers `mem`. -/
def deviceAt (init : Nat → Byte) (mem : Mem Buf Byte) (ios : Nat → RaidIo) : Nat → Nat → Byte
  | 0, a => init a
  | n + 1, a =>
    if (ios n).Writes c a then mem ((addrs (ios n).iovs).getD (a - (ios n).firstByte c) NULL)
    else deviceAt init mem ios n a

/-! ## Stripes on the base bdevs -/

/-- Where base bdev `i` keeps byte `b` of its strip of a stripe. -/
def stripByte (si i b : Nat) : Nat := c.byteOffset i (si * c.stripSize) + b

/-- The bytes of the device in a stripe. -/
def stripeBytes : Nat := c.stripeDataChunksNum * stripBytes c

/-- Data chunks are numbered without the parity chunk. -/
def dataIdx (p i : Nat) : Nat := if i < p then i else i - 1

/-- The byte of the device that is byte `b` of data chunk `i`. -/
def chunkByte (si i b : Nat) : Nat :=
  si * stripeBytes c + dataIdx (c.stripeParityChunkIndex si) i * stripBytes c + b

/-- What the chunks of a stripe hold at byte `b` when the device holds `dev`. -/
def stripeContent (dev : Nat → Byte) (si b i : Nat) : Byte :=
  withParity (c.stripeParityChunkIndex si) c.chunkIndices (fun i => dev (chunkByte c si i b)) i

/-- The byte of the device that the base bdevs hold, wherever raid5f places it. -/
def placed (disk : Nat → Nat → Byte) (a : Nat) : Byte :=
  let block := a / c.blocklen
  let si := block / c.stripeBlocks
  let so := block % c.stripeBlocks
  disk (c.chunkIdx si so) (c.byteOffset (c.chunkIdx si so) (c.baseOffsetBlocks si (c.chunkOffset so)) + a % c.blocklen)

/-- Every stripe sums to zero. -/
def Consistent (disk : Nat → Nat → Byte) : Prop :=
  ∀ si < c.totalStripes, ∀ b < stripBytes c, xorMap c.chunkIndices (fun i => disk i (stripByte c si i b)) = 0

/-! ## One stripe request -/

/-- The first byte of its strips it works on. -/
def View.firstByte (v : View) : Nat :=
  match v.q.type with
  | .write => 0
  | .reconstruct => v.q.reconstructChunkOffset * c.blocklen

/-- The buffers of chunk `k` and its blocks hold the same. -/
def Synced (m : Mem Buf Byte) (d : Nat → Nat → Byte) (v : View) (k : Nat) : Prop :=
  ∀ b p, (addrs (v.q.chunks k).iovs)[b]? = some p → m p = d k (stripByte c v.q.stripeIndex k (v.firstByte c + b))

/-- The xor of the bytes the sources have at a position. -/
def View.xorByte (v : View) (m : Mem Buf Byte) (b : Nat) : Byte :=
  xorMap (srcChunks c v.q) fun i => m ((addrs (v.q.chunks i).iovs).getD b NULL)

/-- The destination holds the first `n` bytes of the xor of the sources. -/
def Xored (m : Mem Buf Byte) (v : View) (n : Nat) : Prop :=
  Written m (addrs (v.q.chunks v.q.destChunk).iovs) (v.xorByte c m) n

/-- The chunks below are handled: in flight, done or skipped. -/
def View.handled (v : View) : Nat :=
  match v.calls with
  | [.submitChunks _ k] => k
  | _ => if v.x.waits = [] then c.numBaseBdevs else v.x.baseBdevIoSubmitted

end content

/-! ## The device -/

section device
variable {c : RaidChannel} {init : Nat → Byte} {mem : Mem Buf Byte} {ios ios' : Nat → RaidIo} {n a : Nat}

theorem SameRequest.writes {x y : RaidIo} (h : SameRequest x y) : x.Writes c a ↔ y.Writes c a := by
  unfold RaidIo.Writes RaidIo.firstByte
  rw [h.type, h.offsetBlocks, h.numBlocks]

/-- The device depends on the requests as they were submitted. -/
theorem deviceAt_congr (h : ∀ x < n, SameRequest (ios' x) (ios x)) : deviceAt c init mem ios' n a = deviceAt c init mem ios n a := by
  induction n with
  | zero => rfl
  | succ n ih =>
    have hn := h n (Nat.lt_succ_self n)
    have hfirst : (ios' n).firstByte c = (ios n).firstByte c := by
      unfold RaidIo.firstByte
      rw [hn.offsetBlocks]
    rw [deviceAt, deviceAt, ih fun x hx => h x (Nat.lt_succ_of_lt hx), hfirst, hn.iovs]
    exact if_congr hn.writes rfl rfl

/-- Requests that do not write a byte leave it. -/
theorem deviceAt_untouched {k : Nat} (hk : k ≤ n) (h : ∀ x, k ≤ x → x < n → ¬(ios x).Writes c a) :
    deviceAt c init mem ios n a = deviceAt c init mem ios k a := by
  induction n with
  | zero =>
    obtain rfl : k = 0 := Nat.le_zero.mp hk
    rfl
  | succ n ih =>
    rcases Nat.lt_or_ge n k with hlt | hge
    · obtain rfl : k = n + 1 := by omega
      rfl
    · rw [deviceAt, if_neg (h n hge (Nat.lt_succ_self n))]
      exact ih hge fun x hx hxn => h x hx (Nat.lt_succ_of_lt hxn)

/-- A byte holds what the last request that writes it wrote. -/
theorem deviceAt_last {w : Nat} (hw : w < n) (hwrites : (ios w).Writes c a)
    (h : ∀ x, w < x → x < n → ¬(ios x).Writes c a) :
    deviceAt c init mem ios n a = mem ((addrs (ios w).iovs).getD (a - (ios w).firstByte c) NULL) := by
  rw [deviceAt_untouched hw h, deviceAt, if_pos hwrites]

end device

/-! ## Places -/

section places
variable {c : RaidChannel} {si i b : Nat}

theorem stripBytes_eq : stripBytes c = c.stripSize * c.blocklen := by
  rw [stripBytes, Nat.shiftLeft_eq]
  rfl

theorem stripeBytes_eq : stripeBytes c = c.stripeBlocks * c.blocklen := by
  rw [stripeBytes, stripBytes_eq, Geometry.stripeBlocks]
  ring

theorem stripByte_eq (c : RaidChannel) (si i b : Nat) : stripByte c si i b = c.dataOffset i * c.blocklen + si * stripBytes c + b := by
  rw [stripByte, Geometry.byteOffset, stripBytes_eq]
  ring

theorem stripByte_add (c : RaidChannel) (si i b x : Nat) : stripByte c si i b + x = stripByte c si i (b + x) :=
  Nat.add_assoc _ _ _

/-- Strips of different stripes are apart. -/
theorem stripByte_ne {si' b' : Nat} (hb : b < stripBytes c) (hb' : b' < stripBytes c) (h : si ≠ si') :
    stripByte c si i b ≠ stripByte c si' i b' := by
  intro he
  rw [stripByte_eq, stripByte_eq] at he
  apply h
  have hs := mul_add_div (stripBytes c) si hb
  have hs' := mul_add_div (stripBytes c) si' hb'
  rw [← hs, ← hs', show si * stripBytes c + b = si' * stripBytes c + b' by omega]

/-- The chunks other than one, in order: those before it keep their number. -/
theorem others_range_getElem? {n p i : Nat} (hi : i < n) (hne : i ≠ p) :
    (others p (List.range n))[dataIdx p i]? = some i := by
  have hkeep (l : List Nat) (hl : p ∉ l) : others p l = l := by
    apply List.filter_eq_self.mpr
    intro x hx
    simpa using fun he : x = p => hl (he ▸ hx)
  unfold dataIdx
  split
  · next hlt =>
    have hsplit : List.range n = List.range p ++ (List.range (n - p)).map (p + ·) ∨ n ≤ p := by
      rcases Nat.le_total n p with h | h
      · exact .inr h
      · left
        rw [← List.range_add, Nat.add_sub_cancel' h]
    rcases hsplit with hsplit | hle
    · rw [hsplit, others, List.filter_append, ← others, hkeep _ (by simp),
        List.getElem?_append_left (by simpa using hlt), List.getElem?_range hlt]
    · rw [hkeep _ (by simpa using hle), List.getElem?_range hi]
  · next hge =>
    have hsplit : List.range n = List.range (p + 1) ++ (List.range (n - (p + 1))).map (p + 1 + ·) := by
      rw [← List.range_add, Nat.add_sub_cancel' (by omega)]
    have hfirst : others p (List.range (p + 1)) = List.range p := by
      rw [List.range_succ, others, List.filter_append, ← others, hkeep _ (by simp)]
      simp
    rw [hsplit, others, List.filter_append, ← others, ← others, hfirst, hkeep _ ?_,
      List.getElem?_append_right (by rw [List.length_range]; omega), List.length_range, List.getElem?_map,
      List.getElem?_range (by omega)]
    · exact congrArg some (show p + 1 + (i - 1 - p) = i by omega)
    · intro hmem
      obtain ⟨x, -, hx⟩ := List.mem_map.mp hmem
      omega

theorem dataIdx_lt {p : Nat} (hi : i < c.numBaseBdevs) (hne : i ≠ p) (hp : p < c.numBaseBdevs) :
    dataIdx p i < c.stripeDataChunksNum := by
  unfold dataIdx Geometry.stripeDataChunksNum
  split <;> omega

/-- A byte of a data chunk lies in its stripe. -/
theorem chunkByte_offset_lt {p : Nat} (hi : i < c.numBaseBdevs) (hne : i ≠ p) (hp : p < c.numBaseBdevs)
    (hb : b < stripBytes c) : dataIdx p i * stripBytes c + b < stripeBytes c :=
  mul_add_lt (dataIdx_lt hi hne hp) hb

/-- The first data chunk index past the parity's is the chunk's. -/
theorem dataIdx_chunkIdx {so : Nat} (h : so < c.stripeBlocks) :
    dataIdx (c.stripeParityChunkIndex si) (c.chunkIdx si so) = so / c.stripSize := by
  rw [Geometry.chunkIdx_eq h]
  unfold dataIdx
  split
  · rfl
  · rw [if_neg (by omega), Nat.add_sub_cancel]

/-- The bytes of a block, in the chunk it lies in. -/
theorem chunkByte_block (off : Nat) (b : Nat) :
    chunkByte c (off / c.stripeBlocks) (c.chunkIdx (off / c.stripeBlocks) (off % c.stripeBlocks))
      (off % c.stripeBlocks % c.stripSize * c.blocklen + b) = off * c.blocklen + b := by
  have hso : off % c.stripeBlocks < c.stripeBlocks := offset_mod_lt off
  have hstripe := Nat.div_add_mod' off c.stripeBlocks
  have hstrip := Nat.div_add_mod' (off % c.stripeBlocks) c.stripSize
  rw [chunkByte, dataIdx_chunkIdx hso, stripeBytes_eq, stripBytes_eq]
  generalize off % c.stripeBlocks / c.stripSize = j at *
  generalize off % c.stripeBlocks % c.stripSize = k at *
  calc off / c.stripeBlocks * (c.stripeBlocks * c.blocklen) + j * (c.stripSize * c.blocklen) + (k * c.blocklen + b)
      = (off / c.stripeBlocks * c.stripeBlocks + (j * c.stripSize + k)) * c.blocklen + b := by ring
    _ = off * c.blocklen + b := by rw [hstrip, hstripe]

/-- In the array no offset is out of the range `chunkOffset` is right for. -/
theorem chunkOffset_stripe {so : Nat} (hsi : si < c.totalStripes) (h : so < c.stripeBlocks) :
    c.chunkOffset so = so % c.stripSize := by
  apply Geometry.chunkOffset_eq h
  have h1 : c.stripeBlocks ≤ c.blockcnt := Nat.le_mul_of_pos_right _ (by omega)
  have h2 := c.blockcnt_lt
  have h3 : c.blockcnt = (c.numBaseBdevs - 1) * 2 ^ c.stripSizeShift * c.totalStripes := by
    unfold Geometry.blockcnt Geometry.stripeBlocks Geometry.stripSize Geometry.stripeDataChunksNum
    ring
  omega

/-- The device at first holds what the base bdevs hold. -/
theorem placed_chunkByte (disk : Nat → Nat → Byte) (hsi : si < c.totalStripes) (hi : i < c.numBaseBdevs)
    (hne : i ≠ c.stripeParityChunkIndex si) (hb : b < stripBytes c) :
    placed c disk (chunkByte c si i b) = disk i (stripByte c si i b) := by
  have hp := c.parity_lt si
  have hidx := dataIdx_lt hi hne hp
  generalize hj : dataIdx (c.stripeParityChunkIndex si) i = j at *
  have hmod := Nat.mod_lt b c.blocklen_pos
  have hdiv : b / c.blocklen < c.stripSize := by
    rw [stripBytes_eq] at hb
    exact Nat.div_lt_of_lt_mul (by rwa [Nat.mul_comm])
  have hb' := Nat.div_add_mod' b c.blocklen
  -- the block of the byte, its offset in the stripe and in the strip
  have hso : j * c.stripSize + b / c.blocklen < c.stripeBlocks := by
    rw [Geometry.stripeBlocks, Nat.mul_comm c.stripSize]
    exact mul_add_lt hidx hdiv
  have haddr : chunkByte c si i b =
      (si * c.stripeBlocks + (j * c.stripSize + b / c.blocklen)) * c.blocklen + b % c.blocklen := by
    rw [chunkByte, hj, stripeBytes_eq, stripBytes_eq]
    conv_lhs => rw [← hb']
    ring
  have hblock : chunkByte c si i b / c.blocklen = si * c.stripeBlocks + (j * c.stripSize + b / c.blocklen) := by
    rw [haddr]
    exact mul_add_div _ _ hmod
  have hbyte : chunkByte c si i b % c.blocklen = b % c.blocklen := by
    rw [haddr]
    exact mul_add_mod _ _ hmod
  have hchunk : c.chunkIdx si (j * c.stripSize + b / c.blocklen) = i := by
    rw [Geometry.chunkIdx_eq hso, mul_add_div _ _ hdiv, ← hj]
    unfold dataIdx
    split
    · rfl
    · rw [if_neg (by omega)]
      omega
  have hoffset : c.chunkOffset (j * c.stripSize + b / c.blocklen) = b / c.blocklen := by
    rw [chunkOffset_stripe hsi hso, mul_add_mod _ _ hdiv]
  unfold placed
  dsimp only
  rw [hblock, hbyte, mul_add_div _ _ hso, mul_add_mod _ _ hso]
  rw [hchunk, hoffset, Geometry.baseOffsetBlocks_eq hsi hdiv, stripByte_eq, Geometry.byteOffset, stripBytes_eq]
  congr 1
  conv_rhs => rw [← hb']
  ring

end places

/-! ## Requests -/

section requests
variable {c : RaidChannel} {lossy iso : Prop} {s : State} {ph : Nat → Phase} {io : Nat} {x : RaidIo}

/-- A write of one stripe, from its first block to its last. -/
structure StripeWrite (c : RaidChannel) (x : RaidIo) : Prop where
  type : x.type = .write
  offset : x.offsetBlocks = stripeOf c x * c.stripeBlocks
  blocks : x.numBlocks = c.stripeBlocks
  length : (addrs x.iovs).length = stripeBytes c
  stripe_lt : stripeOf c x < c.totalStripes

/-- A read of blocks of one strip. -/
structure StripRead (c : RaidChannel) (x : RaidIo) : Prop where
  type : x.type = .read
  fits : x.offsetBlocks % c.stripeBlocks % c.stripSize + x.numBlocks ≤ c.stripSize
  length : (addrs x.iovs).length = x.numBlocks * c.blocklen
  stripe_lt : stripeOf c x < c.totalStripes

theorem stripeOf_lt {q : Request} (hv : q.Valid c) (hc : Carries x io q) : stripeOf c x < c.totalStripes := by
  obtain ⟨hpos, hcnt, -⟩ := hv
  rw [stripeOf, hc.offsetBlocks]
  apply Nat.div_lt_of_lt_mul
  show q.offsetBlocks < c.blockcnt
  omega

theorem Inv.stripeWrite (hi : Inv c lossy iso s ph) (hlt : io < s.nios) (htype : (s.ios io).type = .write) :
    StripeWrite c (s.ios io) := by
  obtain ⟨q, hv, hc⟩ := hi.carries io hlt
  have hlt := stripeOf_lt hv hc
  have hlen : (addrs (q.iovs io)).length = q.numBlocks * c.blocklen := length_iovs hv
  obtain ⟨-, -, -, -, -, hw⟩ := hv
  obtain ⟨hmod, hnum⟩ := hw (hc.type.symm.trans htype)
  refine ⟨htype, ?_, hc.numBlocks.trans hnum, ?_, hlt⟩
  · rw [stripeOf, hc.offsetBlocks]
    have := Nat.div_add_mod' q.offsetBlocks c.stripeBlocks
    omega
  · rw [hc.iovs, hlen, hnum, stripeBytes_eq]

theorem Inv.stripRead (hi : Inv c lossy iso s ph) (hlt : io < s.nios) (htype : (s.ios io).type = .read) :
    StripRead c (s.ios io) := by
  obtain ⟨q, hv, hc⟩ := hi.carries io hlt
  have hlt := stripeOf_lt hv hc
  have hlen : (addrs (q.iovs io)).length = q.numBlocks * c.blocklen := length_iovs hv
  obtain ⟨-, -, -, -, hr, -⟩ := hv
  refine ⟨htype, ?_, by rw [hc.iovs, hlen, hc.numBlocks], hlt⟩
  rw [hc.offsetBlocks, hc.numBlocks, Geometry.stripeBlocks, Nat.mod_mul_right_mod]
  exact hr (hc.type.symm.trans htype)

/-- Which bytes of the device a write of a stripe writes. -/
theorem StripeWrite.writes_iff (h : StripeWrite c x) {a : Nat} : x.Writes c a ↔ a / stripeBytes c = stripeOf c x := by
  have hpos : 0 < stripeBytes c := by
    rw [stripeBytes_eq]
    exact Nat.mul_pos (Nat.zero_lt_of_lt (offset_mod_lt 0)) c.blocklen_pos
  have hfirst : x.firstByte c = stripeOf c x * stripeBytes c := by
    rw [RaidIo.firstByte, h.offset, stripeBytes_eq, Nat.mul_assoc]
  have hlen : x.numBlocks * c.blocklen = stripeBytes c := by rw [h.blocks, stripeBytes_eq]
  rw [RaidIo.Writes, hfirst, hlen, Nat.div_eq_iff hpos]
  constructor
  · rintro ⟨-, hge, hlt⟩
    omega
  · intro hr
    exact ⟨h.type, by omega⟩

theorem chunkByte_stripe {si i b : Nat} (hi : i < c.numBaseBdevs) (hne : i ≠ c.stripeParityChunkIndex si)
    (hb : b < stripBytes c) : chunkByte c si i b / stripeBytes c = si := by
  rw [chunkByte, Nat.add_assoc]
  exact mul_add_div _ _ (chunkByte_offset_lt hi hne (c.parity_lt si) hb)

/-- A byte of a stripe after the last write to it. -/
theorem deviceAt_write {init : Nat → Byte} {mem : Mem Buf Byte} {ios : Nat → RaidIo} {n w si i b : Nat}
    (hw : w < n) (hwrite : StripeWrite c (ios w)) (hsi : stripeOf c (ios w) = si)
    (hlast : ∀ x, w < x → x < n → (ios x).type = .write → stripeOf c (ios x) ≠ si)
    (hshape : ∀ x < n, (ios x).type = .write → StripeWrite c (ios x))
    (hi : i < c.numBaseBdevs) (hne : i ≠ c.stripeParityChunkIndex si) (hb : b < stripBytes c) :
    deviceAt c init mem ios n (chunkByte c si i b) =
      mem ((addrs (ios w).iovs).getD (dataIdx (c.stripeParityChunkIndex si) i * stripBytes c + b) NULL) := by
  have hstripe := chunkByte_stripe hi hne hb
  rw [deviceAt_last hw (hwrite.writes_iff.mpr (hstripe.trans hsi.symm)) ?_]
  · congr 2
    rw [RaidIo.firstByte, hwrite.offset, hsi, chunkByte, Nat.mul_assoc, ← stripeBytes_eq]
    omega
  · intro x hwx hxn hwrites
    have hx := hshape x hxn hwrites.1
    exact hlast x hwx hxn hwrites.1 ((hx.writes_iff.mp hwrites).symm.trans hstripe)

/-- A byte of a stripe that no write from `k` on addresses. -/
theorem deviceAt_unwritten {init : Nat → Byte} {mem : Mem Buf Byte} {ios : Nat → RaidIo} {n k si i b : Nat} (hk : k ≤ n)
    (hnone : ∀ x, k ≤ x → x < n → (ios x).type = .write → stripeOf c (ios x) ≠ si)
    (hshape : ∀ x < n, (ios x).type = .write → StripeWrite c (ios x))
    (hi : i < c.numBaseBdevs) (hne : i ≠ c.stripeParityChunkIndex si) (hb : b < stripBytes c) :
    deviceAt c init mem ios n (chunkByte c si i b) = deviceAt c init mem ios k (chunkByte c si i b) := by
  apply deviceAt_untouched hk
  intro x hkx hxn hwrites
  have hx := hshape x hxn hwrites.1
  exact hnone x hkx hxn hwrites.1 ((hx.writes_iff.mp hwrites).symm.trans (chunkByte_stripe hi hne hb))

end requests

end FlexBSO.Raid5f

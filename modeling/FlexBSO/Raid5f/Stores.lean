import FlexBSO.Raid5f.Data
import FlexBSO.Raid5f.Segments

/- What the base bdevs and the accel framework do to the data of the stripe requests:
   a chunk that is read comes to hold what is on its base bdev, a chunk that is written
   comes to be there, and the XOR of a segment makes the XOR longer by that segment.
   Whatever stays in the buffers of one request and in its stripe leaves the others as
   they are (`ReqData.congr`). -/
namespace FlexBSO.Raid5f
open FlexBSO.Lib

/-- Buffers of stripe request `r` and of the request `io` it works for. -/
def OwnBuf (r io : Nat) : Buf → Prop
  | .user x _ => x = io
  | .parity x => x = r
  | .chunk x _ => x = r
  | _ => False

theorem OwnBuf.not_md {r io : Nat} {b : Buf} (h : OwnBuf r io b) : b.isMd = false := by
  cases b with
  | user | parity | chunk => rfl
  | null | userMd | parityMd | chunkMd => exact h.elim

/-- The requests that share a buffer are the same, or work for the same. -/
theorem OwnBuf.unique {r r' io io' : Nat} {b : Buf} (h : OwnBuf r io b) (h' : OwnBuf r' io' b) : r = r' ∨ io = io' := by
  cases b with
  | user => exact .inr (h.symm.trans h')
  | parity | chunk => exact .inl (h.symm.trans h')
  | null | userMd | parityMd | chunkMd => exact h.elim

/-- A stripe request at work, and the request it works for. -/
structure Working (c : RaidChannel) (v : View) (r io : Nat) : Prop where
  owner : Owner c v r
  sane : v.Sane c
  stripe : v.q.stripeIndex = stripeOf c v.x
  write : v.q.type = .write → StripeWrite c v.x
  read : v.q.type = .reconstruct → StripRead c v.x
  nodup : (addrs v.x.iovs).Nodup
  user : ∀ a ∈ addrs v.x.iovs, ∃ k, a.buf = .user io k

theorem mem_srcChunks {c : RaidChannel} {q : StripeRequest} {i : Nat} (h : i ∈ srcChunks c q) :
    i < c.numBaseBdevs ∧ i ≠ q.destChunk :=
  ⟨c.mem_chunkIndices.mp (mem_others.mp h).1, (mem_others.mp h).2⟩

section working
variable {c : RaidChannel} {lossy iso : Prop} {s : State} {ph : Nat → Phase} {v : View} {r io k : Nat}

theorem Inv.working (hi : Inv c lossy iso s ph) (ho : (ph r).owns = true) : Working c (s.view r) r (s.reqs r).raidIo := by
  have owner := (hi.phase r).owner ho
  obtain ⟨hlt, -⟩ := hi.served ho rfl
  obtain ⟨q, -, hc⟩ := hi.carries _ hlt
  obtain ⟨hnodup, huser⟩ := q.iovs_apart (s.reqs r).raidIo
  have htype := owner.io_type
  refine ⟨owner, hi.sane ho, owner.setup.1, fun h => ?_, fun h => ?_, ?_, ?_⟩
  · rw [h] at htype
    exact hi.stripeWrite hlt htype
  · rw [h] at htype
    exact hi.stripRead hlt htype
  · exact hc.iovs ▸ hnodup
  · exact hc.iovs ▸ huser

namespace Working

theorem stripe_lt (h : Working c v r io) : v.q.stripeIndex < c.totalStripes := by
  rw [h.stripe]
  cases htype : v.q.type with
  | write => exact (h.write htype).stripe_lt
  | reconstruct => exact (h.read htype).stripe_lt

/-- Where a read starts in its strip. -/
theorem chunkOffset (h : Working c v r io) (htype : v.q.type = .reconstruct) :
    v.q.reconstructChunkOffset = v.x.offsetBlocks % c.stripeBlocks % c.stripSize ∧
    v.q.reconstructChunkOffset + v.x.numBlocks ≤ c.stripSize := by
  obtain ⟨-, hread, -⟩ := h.owner.setup
  obtain ⟨-, hoff, -⟩ := hread htype
  have hoff := hoff.trans (chunkOffset_stripe h.stripe_lt (offset_mod_lt _))
  exact ⟨hoff, hoff ▸ (h.read htype).fits⟩

/-- The bytes it works on lie in its strips. -/
theorem reach (h : Working c v r io) : v.firstByte c + v.total c ≤ stripBytes c := by
  unfold View.firstByte View.total View.numBlocks
  rw [stripBytes_eq]
  cases htype : v.q.type with
  | write => exact Nat.le_of_eq (Nat.zero_add _)
  | reconstruct =>
    dsimp only
    rw [← Nat.add_mul]
    exact Nat.mul_le_mul_right _ (h.chunkOffset htype).2

/-- The buffers of the chunks that are read for a reconstruct request. -/
theorem source (h : Working c v r io) (htype : v.q.type = .reconstruct) (hk : k < c.numBaseBdevs)
    (hne : k ≠ v.q.reconstructChunk) :
    (v.q.chunks k).iovs = [⟨⟨.chunk r (dataIdx v.q.reconstructChunk k), 0⟩, v.x.numBlocks <<< c.blocklenShift⟩] := by
  obtain ⟨-, hread, -⟩ := h.owner.setup
  exact (hread htype).2.2.2 k hk hne

theorem source_buf (h : Working c v r io) (htype : v.q.type = .reconstruct) (hk : k < c.numBaseBdevs)
    (hne : k ≠ v.q.reconstructChunk) {a : Addr} (ha : a ∈ addrs (v.q.chunks k).iovs) :
    a.buf = .chunk r (dataIdx v.q.reconstructChunk k) := by
  rw [h.source htype hk hne] at ha
  obtain ⟨w, hw, ha⟩ := mem_addrs.mp ha
  rw [List.mem_singleton.mp hw] at ha
  exact (Ptr.mem_span.mp ha).1

/-- The buffer of the parity of a write. -/
theorem parity_buf (h : Working c v r io) (htype : v.q.type = .write) {a : Addr}
    (ha : a ∈ addrs (v.q.chunks v.q.parityChunk).iovs) : a.buf = .parity r := by
  obtain ⟨-, -, hwrite⟩ := h.owner.setup
  rw [(hwrite htype).2.1] at ha
  obtain ⟨w, hw, ha⟩ := mem_addrs.mp ha
  rw [List.mem_singleton.mp hw] at ha
  exact (Ptr.mem_span.mp ha).1

/-- The bytes of a data chunk of a write, in the write's own buffers. -/
theorem data (h : Working c v r io) (htype : v.q.type = .write) (hk : k < c.numBaseBdevs) (hne : k ≠ v.q.parityChunk) :
    addrs (v.q.chunks k).iovs =
      ((addrs v.x.iovs).drop (dataIdx v.q.parityChunk k * stripBytes c)).take (stripBytes c) := by
  obtain ⟨-, -, hwrite⟩ := h.owner.setup
  exact (hwrite htype).2.2 _ k (others_range_getElem? hk hne)

/-- Its chunks lie in its own buffers. -/
theorem bufs (h : Working c v r io) (hk : k < c.numBaseBdevs) {a : Addr} (ha : a ∈ addrs (v.q.chunks k).iovs) :
    OwnBuf r io a.buf := by
  have huser (ha : a ∈ addrs v.x.iovs) : OwnBuf r io a.buf := by
    obtain ⟨j, hj⟩ := h.user a ha
    rw [hj]
    rfl
  cases htype : v.q.type with
  | write =>
    by_cases hp : k = v.q.parityChunk
    · rw [hp] at ha
      rw [h.parity_buf htype ha]
      rfl
    · rw [h.data htype hk hp] at ha
      exact huser (List.mem_of_mem_drop (List.mem_of_mem_take ha))
  | reconstruct =>
    by_cases hp : k = v.q.reconstructChunk
    · obtain ⟨-, hread, -⟩ := h.owner.setup
      rw [hp, (hread htype).2.2.1] at ha
      exact huser ha
    · rw [h.source_buf htype hk hp ha]
      rfl

/-- No chunk covers an address twice. -/
theorem nodup_chunk (h : Working c v r io) (hk : k < c.numBaseBdevs) : (addrs (v.q.chunks k).iovs).Nodup := by
  cases htype : v.q.type with
  | write =>
    by_cases hp : k = v.q.parityChunk
    · obtain ⟨-, -, hwrite⟩ := h.owner.setup
      rw [hp, (hwrite htype).2.1]
      exact nodup_addrs (List.nodup_singleton _)
    · rw [h.data htype hk hp]
      exact (h.nodup.sublist (List.drop_sublist _ _)).sublist (List.take_sublist _ _)
  | reconstruct =>
    by_cases hp : k = v.q.reconstructChunk
    · obtain ⟨-, hread, -⟩ := h.owner.setup
      rw [hp, (hread htype).2.2.1]
      exact h.nodup
    · rw [h.source htype hk hp]
      exact nodup_addrs (List.nodup_singleton _)

/-- The destination of the XOR is apart from its sources. -/
theorem apart (h : Working c v r io) (hk : k < c.numBaseBdevs) (hne : k ≠ v.q.destChunk) {a : Addr}
    (ha : a ∈ addrs (v.q.chunks k).iovs) : a ∉ addrs (v.q.chunks v.q.destChunk).iovs := by
  intro ha'
  cases htype : v.q.type with
  | write =>
    have hdest : v.q.destChunk = v.q.parityChunk := by rw [StripeRequest.destChunk, htype]
    rw [hdest] at hne ha'
    rw [h.data htype hk hne] at ha
    obtain ⟨j, hj⟩ := h.user a (List.mem_of_mem_drop (List.mem_of_mem_take ha))
    cases hj.symm.trans (h.parity_buf htype ha')
  | reconstruct =>
    have hdest : v.q.destChunk = v.q.reconstructChunk := by rw [StripeRequest.destChunk, htype]
    rw [hdest] at hne ha'
    obtain ⟨-, hread, -⟩ := h.owner.setup
    rw [(hread htype).2.2.1] at ha'
    obtain ⟨j, hj⟩ := h.user a ha'
    cases hj.symm.trans (h.source_buf htype hk hne ha)

/-- Its chunk I/O is addressed to the strips of its stripe. -/
theorem place (h : Working c v r io) :
    c.byteOffset k (v.child c k).offsetBlocks = stripByte c v.q.stripeIndex k (v.firstByte c) ∧
    (v.child c k).numBlocks * c.blocklen = v.total c := by
  have hzero := Geometry.baseOffsetBlocks_eq (g := c.toGeometry) h.stripe_lt c.stripSize_pos
  unfold View.child View.firstByte View.total View.numBlocks stripByte Geometry.byteOffset
  cases htype : v.q.type with
  | write =>
    dsimp only
    rw [hzero]
    exact ⟨rfl, rfl⟩
  | reconstruct =>
    dsimp only
    rw [hzero]
    refine ⟨?_, rfl⟩
    ring

end Working

end working

/-! ## Other buffers and other stripes -/

section congr
variable {c : RaidChannel} {m m' : Mem Buf Byte} {d d' : Nat → Nat → Byte} {v w : View} {r io k : Nat} {p : Phase}

theorem Synced.congr (hs : Synced c m d v k) (h : Working c v r io) (hk : k < c.numBaseBdevs)
    (hm : ∀ a ∈ addrs (v.q.chunks k).iovs, m' a = m a)
    (hdisk : ∀ b < stripBytes c, d' k (stripByte c v.q.stripeIndex k b) = d k (stripByte c v.q.stripeIndex k b)) :
    Synced c m' d' v k := by
  intro b a hb
  obtain ⟨hlt, -⟩ := List.getElem?_eq_some_iff.mp hb
  rw [h.owner.lists k hk] at hlt
  have hreach := h.reach
  rw [hm a (List.mem_of_getElem? hb), hdisk _ (by omega)]
  exact hs b a hb

/-- The xor of the sources at a position inside them. -/
theorem Working.xorByte_congr (h : Working c v r io)
    (hm : ∀ i ∈ srcChunks c v.q, ∀ a ∈ addrs (v.q.chunks i).iovs, m' a = m a) {b : Nat} (hb : b < v.total c) :
    v.xorByte c m' b = v.xorByte c m b := by
  apply xorMap_congr
  intro i hi
  have hlen := h.owner.lists i (mem_srcChunks hi).1
  rw [List.getD_eq_getElem?_getD, List.getElem?_eq_getElem (by omega), Option.getD_some]
  exact hm i hi _ (List.getElem_mem _)

theorem Xored.congr {n : Nat} (hx : Xored c m v n) (h : Working c v r io)
    (hm : ∀ i < c.numBaseBdevs, ∀ a ∈ addrs (v.q.chunks i).iovs, m' a = m a) : Xored c m' v n := by
  intro j a hj ha
  obtain ⟨hlt, -⟩ := List.getElem?_eq_some_iff.mp ha
  rw [h.owner.lists _ h.owner.dest_lt] at hlt
  rw [hm _ h.owner.dest_lt a (List.mem_of_getElem? ha), h.xorByte_congr (fun i hi => hm i (mem_srcChunks hi).1) hlt]
  exact hx j a hj ha

theorem Phase.live_of (h : p = .chunks ∨ p = .xor) : p.live = true := by
  rcases h with rfl | rfl <;> rfl

/-- The data of a stripe request does not depend on what is in the buffers of others, nor on what is in
    other stripes. -/
theorem ReqData.congr (hd : ReqData c m d v r p) (l : v.Like w) (h : p.owns = true → Working c v r io ∧ w.x = v.x)
    (hm : p.live = true → ∀ a, OwnBuf r io a.buf → m' a = m a)
    (hdisk : p.live = true → ∀ k < c.numBaseBdevs, ∀ b < stripBytes c,
      d' k (stripByte c v.q.stripeIndex k b) = d k (stripByte c v.q.stripeIndex k b)) : ReqData c m' d' w r p := by
  have hsame (ho : p.owns = true) : SameChunks v w := by
    obtain ⟨-, hx⟩ := h ho
    exact ⟨l.q ▸ .self _, by rw [hx]⟩
  have hhandled (ho : p.owns = true) : w.handled c = v.handled c := by
    obtain ⟨-, hx⟩ := h ho
    exact handled_congr l.calls (by rw [hx]) (by rw [hx])
  have hxored {n : Nat} (hl : p.live = true) (hx : Xored c m v n) : Xored c m' w n := by
    have ho := Phase.owns_of_live hl
    exact (hsame ho).xored (hx.congr (h ho).1 fun i hi a ha => hm hl a ((h ho).1.bufs hi ha))
  refine ⟨l.q ▸ hd.mdBufs, l.q ▸ hd.mdXors, ?_, ?_, ?_, ?_, ?_, ?_⟩
  · intro hp x hx
    rw [(hsame (Phase.owns_of_counts hp)).child, l.q] at *
    exact hd.children hp x hx
  · intro hp htype k hk hh hne
    rw [l.q] at htype hne
    rw [hhandled (Phase.owns_of_live (Phase.live_of hp))] at hh
    exact hd.channels hp htype k hk hh hne
  · intro hp hst k hk
    have hl : p.live = true := Phase.live_of (hp.imp_right fun h => h.1)
    have ho := Phase.owns_of_live hl
    obtain ⟨hw, hx⟩ := h ho
    rw [l.q] at hp
    rw [hx] at hst
    have hsettled : v.Settled c k := ⟨(hsame ho).active hk.active, hhandled ho ▸ hk.handled, l.q ▸ hk.moved⟩
    have hkn := hk.active.lt
    exact (hsame ho).synced ((hd.synced hp hst k hsettled).congr hw hkn (fun a ha => hm hl a (hw.bufs hkn ha)) (hdisk hl k hkn))
  · intro hp htype hch
    have hl : p.live = true := Phase.live_of (.inl hp)
    rw [l.q] at htype hch
    rw [(hsame (Phase.owns_of_live hl)).total]
    exact hxored hl (hd.parity hp htype hch)
  · intro hp hcalls hst hf
    have hl : p.live = true := Phase.live_of (.inr hp)
    rw [l.calls] at hcalls
    rw [l.failing] at hf
    rw [(hsame (Phase.owns_of_live hl)).total]
    rw [l.q] at hst ⊢
    obtain ⟨hdone, hstored⟩ := hd.progress hp hcalls hst hf
    exact ⟨hxored hl hdone, fun x hx hs => hxored hl (hstored x hx hs)⟩
  · intro hp hcalls hst
    rw [l.calls] at hcalls
    rw [l.q] at hst ⊢
    exact hd.done hp hcalls hst

end congr

/-! ## A chunk is moved -/

section moved
variable {c : RaidChannel} {s : State} {ch : Child} {m m' : Mem Buf Byte} {d d' : Nat → Nat → Byte} {v w : View}
  {r io j k : Nat} {p : Phase}

/-- A read puts what is on the base bdev in its buffers, and metadata in metadata buffers. -/
theorem moveChild_read (htype : ch.type = .read) (hmd : ch.metadata.buf.isMd = true) :
    (moveChild c s ch).disk = s.disk ∧
    (∀ a, a.buf.isMd = false → a ∉ addrs ch.iovs → (moveChild c s ch).mem a = s.mem a) ∧
    ((addrs ch.iovs).Nodup → (addrs ch.iovs).length = ch.numBlocks * c.blocklen → ∀ (b : Nat) a,
      (addrs ch.iovs)[b]? = some a → (moveChild c s ch).mem a = s.disk ch.bdev (c.byteOffset ch.bdev ch.offsetBlocks + b)) := by
  unfold moveChild
  dsimp only
  rw [htype]
  refine ⟨rfl, fun a ha hnot => ?_, fun hnodup hlen b a hb => ?_⟩
  · show store (store s.mem _ _) _ _ a = s.mem a
    rw [store_of_notMem _ _ _ hnot]
    apply store_of_notMem
    intro hspan
    rw [(Ptr.mem_span.mp hspan).1, hmd] at ha
    cases ha
  · obtain ⟨hlt, -⟩ := List.getElem?_eq_some_iff.mp hb
    refine store_getElem? hnodup ?_ hb ?_
    · rw [hlen, List.length_map, List.length_range]
    · rw [List.getElem?_map, List.getElem?_range (hlen ▸ hlt)]
      rfl

/-- A write puts what is in its buffers on the base bdev. -/
theorem moveChild_write (htype : ch.type = .write) :
    (moveChild c s ch).mem = s.mem ∧
    (∀ i x, i ≠ ch.bdev ∨ x < c.byteOffset ch.bdev ch.offsetBlocks ∨
      c.byteOffset ch.bdev ch.offsetBlocks + ch.numBlocks * c.blocklen ≤ x → (moveChild c s ch).disk i x = s.disk i x) ∧
    (∀ (b : Nat) a, (addrs ch.iovs)[b]? = some a → b < ch.numBlocks * c.blocklen →
      (moveChild c s ch).disk ch.bdev (c.byteOffset ch.bdev ch.offsetBlocks + b) = s.mem a) := by
  unfold moveChild
  dsimp only
  rw [htype]
  refine ⟨rfl, fun i x h => ?_, fun b a hb hlt => ?_⟩
  · show Function.update s.disk ch.bdev _ i x = _
    by_cases hi : i = ch.bdev
    · subst hi
      rw [Function.update_self, if_neg (by omega)]
    · rw [Function.update_of_ne hi]
  · show Function.update s.disk ch.bdev _ ch.bdev _ = _
    rw [Function.update_self, if_pos (by omega), Nat.add_sub_cancel_left, hb]
    rfl

/-- The data of a chunk has moved: that chunk is settled now, and the others are as they were. -/
theorem ReqData.chunkMoved (hd : ReqData c m d v r p) (hp : p.counts = true) {child : Child}
    (get : v.q.children[j]? = some (k, child))
    (hw : w = v.set { v.q with children := v.q.children.set j (k, { child with moved := true }) } v.x v.calls)
    (hself : Synced c m' d' v k) (hothers : ∀ i ≠ k, v.Active c i → Synced c m d v i → Synced c m' d' v i)
    (hparity : v.q.type = .write → m' = m) : ReqData c m' d' w r p := by
  have hnot {q : Phase} {P : Prop} (hc : q.counts = true) (hq : q = .xor) : P := by
    rw [hq] at hc
    cases hc
  subst hw
  have hchild : ∀ i, View.child c (v.set { v.q with children := v.q.children.set j (k, { child with moved := true }) } v.x v.calls) i =
      v.child c i := fun _ => rfl
  refine ⟨hd.mdBufs, hd.mdXors, ?_, hd.channels, ?_, ?_, fun hq => hnot hp hq, fun hq => hnot hp hq⟩
  · intro _ x hx
    rw [hchild]
    rcases List.mem_or_eq_of_mem_set hx with hx | rfl
    · exact hd.children hp x hx
    · obtain ⟨⟨b, hb⟩, hk⟩ := hd.children hp (k, child) (List.mem_of_getElem? get)
      have hb : child = { v.child c k with moved := b } := hb
      refine ⟨⟨true, ?_⟩, hk⟩
      rw [hb]
  · intro hq hst i hi
    by_cases hik : i = k
    · exact hik ▸ hself
    · have hactive : v.Active c i := ⟨hi.active.lt, hi.active.write, hi.active.other⟩
      have hsettled : v.Settled c i := by
        refine ⟨hactive, hi.handled, fun x hx hxi => hi.moved x ?_ hxi⟩
        obtain ⟨n, hn⟩ := List.mem_iff_getElem?.mp hx
        have hnj : j ≠ n := by
          rintro rfl
          obtain rfl := Option.some.inj (get.symm.trans hn)
          exact hik hxi.symm
        apply List.mem_iff_getElem?.mpr
        exact ⟨n, by rw [View.set_q, List.getElem?_set_ne hnj]; exact hn⟩
      exact hothers i hik hactive (hd.synced hq hst i hsettled)
  · intro hq htype hch
    rw [hparity htype]
    exact hd.parity hq htype hch

/-- What the I/O of a chunk is made of. -/
structure View.ChildOf (c : RaidChannel) (v : View) (k : Nat) (child : Child) : Prop where
  type : child.type = v.q.type.ioType
  bdev : child.bdev = k
  iovs : child.iovs = (v.q.chunks k).iovs
  metadata : child.metadata = (v.q.chunks k).mdBuf
  place : c.byteOffset k child.offsetBlocks = stripByte c v.q.stripeIndex k (v.firstByte c)
  length : child.numBlocks * c.blocklen = v.total c

theorem Working.childOf (h : Working c v r io) {child : Child} {b : Bool} (hb : child = { v.child c k with moved := b }) :
    v.ChildOf c k child := by
  obtain ⟨hplace, hlen⟩ := h.place (k := k)
  subst hb
  have hfields : (v.child c k).type = v.q.type.ioType ∧ (v.child c k).bdev = k ∧
      (v.child c k).iovs = (v.q.chunks k).iovs ∧ (v.child c k).metadata = (v.q.chunks k).mdBuf := by
    unfold View.child
    split
    · next htype => exact ⟨by rw [htype]; rfl, rfl, rfl, rfl⟩
    · next htype => exact ⟨by rw [htype]; rfl, rfl, rfl, rfl⟩
  obtain ⟨htype, hbdev, hiovs, hmd⟩ := hfields
  exact ⟨htype, hbdev, hiovs, hmd, hplace, hlen⟩

/-- A chunk that is read holds what is on its base bdev. -/
theorem View.ChildOf.read {child : Child} (hc : v.ChildOf c k child) (h : Working c v r io)
    (htype : v.q.type = .reconstruct) (hmd : v.q.MdBufs) (hk : k < c.numBaseBdevs) :
    Synced c (moveChild c s child).mem s.disk v k := by
  have hread : child.type = .read := by rw [hc.type, htype]; rfl
  obtain ⟨-, -, hread⟩ := moveChild_read (c := c) (s := s) hread (by rw [hc.metadata]; exact hmd k)
  rw [hc.iovs, hc.length, hc.bdev, hc.place] at hread
  intro x a ha
  rw [hread (h.nodup_chunk hk) (h.owner.lists k hk) x a ha, stripByte_add]

/-- A chunk that is written is on its base bdev. -/
theorem View.ChildOf.written {child : Child} (hc : v.ChildOf c k child) (h : Working c v r io)
    (htype : v.q.type = .write) (hk : k < c.numBaseBdevs) : Synced c s.mem (moveChild c s child).disk v k := by
  have hwrite : child.type = .write := by rw [hc.type, htype]; rfl
  obtain ⟨-, -, hwrite⟩ := moveChild_write (c := c) (s := s) hwrite
  rw [hc.iovs, hc.length, hc.bdev, hc.place] at hwrite
  intro x a ha
  obtain ⟨hlt, -⟩ := List.getElem?_eq_some_iff.mp ha
  rw [h.owner.lists k hk] at hlt
  rw [← stripByte_add]
  exact (hwrite x a ha hlt).symm

/-- A read of a chunk keeps every buffer but those of the chunk and of metadata. -/
theorem View.ChildOf.read_keeps {child : Child} (hc : v.ChildOf c k child) (htype : v.q.type = .reconstruct)
    (hmd : v.q.MdBufs) : (moveChild c s child).disk = s.disk ∧
    ∀ a, a.buf.isMd = false → a ∉ addrs (v.q.chunks k).iovs → (moveChild c s child).mem a = s.mem a := by
  have hread : child.type = .read := by rw [hc.type, htype]; rfl
  obtain ⟨hdisk, hkeep, -⟩ := moveChild_read (c := c) (s := s) hread (by rw [hc.metadata]; exact hmd k)
  rw [hc.iovs] at hkeep
  exact ⟨hdisk, hkeep⟩

/-- A write of a chunk keeps the buffers, other base bdevs and other stripes. -/
theorem View.ChildOf.write_keeps {child : Child} (hc : v.ChildOf c k child) (h : Working c v r io)
    (htype : v.q.type = .write) : (moveChild c s child).mem = s.mem ∧
    (∀ i x, i ≠ k → (moveChild c s child).disk i x = s.disk i x) ∧
    ∀ si b, si ≠ v.q.stripeIndex → b < stripBytes c →
      ∀ i, (moveChild c s child).disk i (stripByte c si i b) = s.disk i (stripByte c si i b) := by
  have hwrite : child.type = .write := by rw [hc.type, htype]; rfl
  obtain ⟨hmem, hdisk, -⟩ := moveChild_write (c := c) (s := s) hwrite
  rw [hc.bdev, hc.place, hc.length] at hdisk
  refine ⟨hmem, fun i x hi => hdisk i x (.inl hi), fun si b hsi hb i => ?_⟩
  apply hdisk
  by_cases hi : i = k
  · subst hi
    right
    -- the bytes written are those of the strip
    by_contra hin
    have hfirst : v.firstByte c = 0 := by
      unfold View.firstByte
      rw [htype]
    have hreach := h.reach
    obtain ⟨x, hx⟩ : ∃ x, stripByte c si i b = stripByte c v.q.stripeIndex i (v.firstByte c) + x :=
      Nat.exists_eq_add_of_le (by omega)
    have hplace : stripByte c v.q.stripeIndex i (v.firstByte c) + x = stripByte c v.q.stripeIndex i x := by
      rw [hfirst, stripByte_add, Nat.zero_add]
    exact stripByte_ne hb (by omega) hsi (hx.trans hplace)
  · exact .inl hi

/-- The base bdev moves the data of a chunk of the stripe request. -/
theorem ReqData.chunkMove (hd : ReqData c s.mem s.disk v r p) (hp : p.counts = true) (h : Working c v r io) {child : Child}
    (get : v.q.children[j]? = some (k, child))
    (hw : w = v.set { v.q with children := v.q.children.set j (k, { child with moved := true }) } v.x v.calls) :
    ReqData c (moveChild c s child).mem (moveChild c s child).disk w r p := by
  obtain ⟨⟨b, hb⟩, hk, hne⟩ := hd.children hp (k, child) (List.mem_of_getElem? get)
  have hc : v.ChildOf c k child := h.childOf hb
  cases htype : v.q.type with
  | write =>
    obtain ⟨hmem, hdisk, -⟩ := hc.write_keeps (s := s) h htype
    refine hd.chunkMoved hp get hw ?_ ?_ fun _ => hmem
    · rw [hmem]
      exact hc.written h htype hk
    · intro i hi ha hs
      rw [hmem]
      exact hs.congr h ha.lt (fun _ _ => rfl) fun b _ => hdisk i _ hi
  | reconstruct =>
    obtain ⟨hdisk, hkeep⟩ := hc.read_keeps (s := s) htype hd.mdBufs
    refine hd.chunkMoved hp get hw ?_ ?_ fun ht => by rw [htype] at ht; cases ht
    · rw [hdisk]
      exact hc.read h htype hd.mdBufs hk
    · intro i hi ha hs
      rw [hdisk]
      refine hs.congr h ha.lt (fun a haddr => ?_) fun _ _ => rfl
      have hbuf := h.source_buf htype ha.lt (ha.other htype) haddr
      refine hkeep a (by rw [hbuf]; rfl) fun haddr' => ?_
      have hbuf' := h.source_buf htype hk (hne htype) haddr'
      have hidx : dataIdx v.q.reconstructChunk i = dataIdx v.q.reconstructChunk k := by
        simpa using hbuf.symm.trans hbuf'
      have h1 := ha.other htype
      have h2 : k ≠ v.q.reconstructChunk := hne htype
      unfold dataIdx at hidx
      split at hidx <;> split at hidx <;> omega

end moved

/-! ## The accel framework stores -/

section stored
variable {c : RaidChannel} {s : State} {m : Mem Buf Byte} {d : Nat → Nat → Byte} {v w : View} {x : AccelXor} {r io j : Nat}

/-- What the operands of a segment's XOR are. -/
theorem OwnOperands.spans (h : OwnOperands c v x) :
    x.srcs.map (fun a => a.span x.len) = (srcChunks c v.q).map (fun i =>
      ((addrs (v.q.chunks i).iovs).drop (v.total c - v.q.xorRemaining)).take x.len) ∧
    x.dst.span x.len = ((addrs (v.q.chunks v.q.destChunk).iovs).drop (v.total c - v.q.xorRemaining)).take x.len := by
  unfold OwnOperands View.lists at h
  rw [List.map_append, List.map_map, List.map_append] at h
  obtain ⟨hsrcs, hdst⟩ := List.append_inj' h rfl
  exact ⟨hsrcs, List.singleton_inj.mp hdst⟩

/-- The next segment of the XOR is stored, and nothing else. -/
theorem OwnOperands.store (hx : OwnOperands c v x) (h : Working c v r io)
    (hle : v.total c - v.q.xorRemaining + x.len ≤ v.total c) :
    (∀ a, a ∉ addrs (v.q.chunks v.q.destChunk).iovs → (storeXor s x).mem a = s.mem a) ∧
    (Xored c s.mem v (v.total c - v.q.xorRemaining) →
      Xored c (storeXor s x).mem v (v.total c - v.q.xorRemaining + x.len)) := by
  obtain ⟨hsrcs, hdst⟩ := hx.spans
  generalize hn : v.total c - v.q.xorRemaining = n at *
  have hbytes : ((List.range x.len).map fun j => xorMap x.srcs fun a => s.mem (a.add j)) =
      (List.range x.len).map fun j => v.xorByte c s.mem (n + j) := by
    apply List.map_congr_left
    intro j hj
    have hj := List.mem_range.mp hj
    calc xorMap x.srcs (fun a => s.mem (a.add j))
        = xorMap (x.srcs.map fun a => a.span x.len) (fun l => s.mem (l.getD j NULL)) := by
          rw [xorMap_map]
          apply xorMap_congr
          intro a _
          rw [List.getD_eq_getElem?_getD, List.getElem?_eq_getElem (by rw [Ptr.length_span]; exact hj), Ptr.getElem_span]
          rfl
      _ = xorMap (srcChunks c v.q) (fun i => s.mem ((((addrs (v.q.chunks i).iovs).drop n).take x.len).getD j NULL)) := by
          rw [hsrcs, xorMap_map]
      _ = v.xorByte c s.mem (n + j) := by
          apply xorMap_congr
          intro i _
          rw [List.getD_eq_getElem?_getD, List.getElem?_take_of_lt hj, List.getElem?_drop, ← List.getD_eq_getElem?_getD]
  have hmem : (storeXor s x).mem = Lib.store s.mem (((addrs (v.q.chunks v.q.destChunk).iovs).drop n).take x.len)
      ((List.range x.len).map fun j => v.xorByte c s.mem (n + j)) := by
    rw [← hbytes, ← hdst]
    rfl
  have hkeep (a : Addr) (ha : a ∉ addrs (v.q.chunks v.q.destChunk).iovs) : (storeXor s x).mem a = s.mem a := by
    rw [hmem]
    exact store_of_notMem _ _ _ fun hin => ha (List.mem_of_mem_drop (List.mem_of_mem_take hin))
  refine ⟨hkeep, fun hdone => ?_⟩
  -- the bytes to be stored are the same before and after
  have hend : n + x.len ≤ (addrs (v.q.chunks v.q.destChunk).iovs).length := by
    rw [h.owner.lists _ h.owner.dest_lt]
    exact hle
  have hstored := hdone.store (h.nodup_chunk h.owner.dest_lt) hend
  rw [← hmem] at hstored
  intro i a hi ha
  rw [hstored i a hi ha]
  refine (h.xorByte_congr (fun k hk a ha => hkeep a ?_) (by omega)).symm
  obtain ⟨hlt, hne⟩ := mem_srcChunks hk
  exact h.apart hlt hne ha

theorem Xored.le {n n' : Nat} (h : Xored c m v n') (hn : n ≤ n') : Xored c m v n :=
  fun i a hi ha => h i a (by omega) ha

/-- The accel framework stores the XOR of the stripe request's segment. -/
theorem ReqData.xorStore (hd : ReqData c s.mem d v r .xor) (h : Working c v r io) (hx : OwnOperands c v x)
    (hlen : x.len = v.q.xorLen) (hle : v.q.xorLen ≤ v.q.xorRemaining)
    (hrem : v.q.xorRemaining ≤ v.total c)
    (hw : w = v.set { v.q with dataXors := v.q.dataXors.set j { x with stored := true } } v.x v.calls) :
    ReqData c (storeXor s x).mem d w r .xor := by
  obtain ⟨hkeep, hstore⟩ := hx.store (s := s) h (by omega)
  subst hw
  refine ⟨hd.mdBufs, hd.mdXors, nofun, hd.channels, ?_, nofun, ?_, hd.done⟩
  · rintro (hp | ⟨-, htype⟩) hst k hk
    · cases hp
    · have hactive : v.Active c k := ⟨hk.active.lt, hk.active.write, hk.active.other⟩
      have hs := hd.synced (.inr ⟨rfl, htype⟩) hst k ⟨hactive, hk.handled, hk.moved⟩
      refine hs.congr h hk.active.lt (fun a ha => hkeep a ?_) fun _ _ => rfl
      have htype : v.q.type = .reconstruct := htype
      apply h.apart hk.active.lt _ ha
      rw [StripeRequest.destChunk, htype]
      exact hactive.other htype
  · intro _ hcalls hst hf
    obtain ⟨hdone, -⟩ := hd.progress rfl hcalls hst hf
    have hstored := hstore hdone
    refine ⟨hstored.le (Nat.le_add_right _ _), fun y hy _ => ?_⟩
    rw [hlen] at hstored
    exact hstored

/-- Metadata is stored in buffers of its own. -/
theorem ReqData.mdStore {y : AccelXor} {p : Phase} (hd : ReqData c m d v r p) (hy : y ∈ v.q.mdXors)
    (hw : w = v.set { v.q with mdXors := v.q.mdXors.set j { y with stored := true } } v.x v.calls) :
    ReqData c m d w r p := by
  subst hw
  refine ⟨hd.mdBufs, fun x hx => ?_, hd.children, hd.channels, ?_, hd.parity, hd.progress, hd.done⟩
  · rcases List.mem_or_eq_of_mem_set hx with hx | rfl
    · exact hd.mdXors x hx
    · exact hd.mdXors y hy
  · intro hp hst k hk
    exact hd.synced hp hst k ⟨⟨hk.active.lt, hk.active.write, hk.active.other⟩, hk.handled, hk.moved⟩

end stored

/-! ## Every event that moves data -/

/-- Of requests to the same stripe a later one waits for the end of an earlier one, unless both read. -/
def Ordered (c : RaidChannel) (s : State) : Prop :=
  ∀ a b, a < b → b < s.nios → (s.ios a).completions = [] → stripeOf c (s.ios a) = stripeOf c (s.ios b) →
    (s.ios a).type = .read ∧ (s.ios b).type = .read

/-- What moves when data does: buffers of a read that is not completed, blocks of the stripe of a write
    that is not. -/
structure Moved (c : RaidChannel) (s t : State) (ph : Nat → Phase) : Prop where
  nios : t.nios = s.nios
  same : ∀ io, SameRequest (t.ios io) (s.ios io)
  completions : ∀ io, (t.ios io).completions = (s.ios io).completions
  user : ∀ io k off, t.mem ⟨.user io k, off⟩ = s.mem ⟨.user io k, off⟩ ∨
    io < s.nios ∧ (s.ios io).type = .read ∧ (s.ios io).completions = []
  disk : ∀ si, (∀ b < stripBytes c, ∀ i, t.disk i (stripByte c si i b) = s.disk i (stripByte c si i b)) ∨
    ∃ io < s.nios, (s.ios io).type = .write ∧ (s.ios io).completions = [] ∧ stripeOf c (s.ios io) = si
  reqs : ∀ r, ReqData c t.mem t.disk (t.view r) r (ph r)

section events
variable {c : RaidChannel} {s t : State} {ph : Nat → Phase} {r io j k : Nat} {ch : Child} {x : AccelXor}

theorem View.Like.refl (v : View) : v.Like v := ⟨rfl, rfl, rfl, rfl, rfl, .inl rfl, rfl⟩

/-- Stripe requests at work on the same stripe both read. -/
theorem Ordered.stripes (h : Ordered c s) (hi : Inv c True True s ph) {r' : Nat} (hne : r ≠ r') (ho : (ph r).owns = true)
    (ho' : (ph r').owns = true) (htype : (s.reqs r).type = .write) : (s.reqs r').stripeIndex ≠ (s.reqs r).stripeIndex := by
  intro hsi
  have hw := hi.working ho
  have hw' := hi.working ho'
  have hio : (s.reqs r).raidIo ≠ (s.reqs r').raidIo := fun he => hne (hi.owner_unique ho ho' he)
  have hstripe : stripeOf c (s.ios (s.reqs r).raidIo) = stripeOf c (s.ios (s.reqs r').raidIo) :=
    hw.stripe.symm.trans (hsi.symm.trans hw'.stripe)
  have hwrite : (s.ios (s.reqs r).raidIo).type = .write := by
    have htype : (s.view r).q.type = .write := htype
    have := hw.owner.io_type
    rw [htype] at this
    exact this
  have hread {P : Prop} (hr : (s.ios (s.reqs r).raidIo).type = .read) : P := by
    rw [hwrite] at hr
    cases hr
  rcases Nat.lt_or_gt_of_ne hio with hlt | hgt
  · exact hread (h _ _ hlt (hi.served ho' rfl).1 hw.owner.completions hstripe).1
  · exact hread (h _ _ hgt (hi.served ho rfl).1 hw'.owner.completions hstripe.symm).2

/-- Buffers of one stripe request are not those of another. -/
theorem Inv.bufs_apart (hi : Inv c True True s ph) {r' : Nat} (hne : r ≠ r') (ho : (ph r).owns = true)
    (ho' : (ph r').owns = true) {b : Buf} (h : OwnBuf r (s.reqs r).raidIo b) : ¬OwnBuf r' (s.reqs r').raidIo b := by
  intro h'
  rcases h.unique h' with he | he
  · exact hne he
  · exact hne (hi.owner_unique ho ho' he)

/-- The other stripe requests keep their data when one stays in its buffers and its stripe. -/
theorem ReqData.other (hi : Inv c True True s ph) (hd : ∀ r, ReqData c s.mem s.disk (s.view r) r (ph r))
    (hord : Ordered c s) (hf : Frame s t r io) (hios : t.ios = s.ios) (ho : (ph r).owns = true)
    (hm : ∀ a, ¬OwnBuf r (s.reqs r).raidIo a.buf → a.buf.isMd = false → t.mem a = s.mem a)
    (hdisk : t.disk = s.disk ∨ (s.reqs r).type = .write ∧ ∀ si b, si ≠ (s.reqs r).stripeIndex → b < stripBytes c →
      ∀ i, t.disk i (stripByte c si i b) = s.disk i (stripByte c si i b)) {r' : Nat} (hne : r' ≠ r) :
    ReqData c t.mem t.disk (t.view r') r' (ph r') := by
  have hx : (t.view r').x = (s.view r').x := by
    simp only [State.view, hf.reqs r' hne, hios]
  refine (hd r').congr (hf.like hne) (fun ho' => ⟨hi.working ho', hx⟩) ?_ ?_
  · intro hl a ha
    exact hm a (hi.bufs_apart hne (Phase.owns_of_live hl) ho ha) ha.not_md
  · intro hl i _ b hb
    rcases hdisk with he | ⟨htype, he⟩
    · rw [he]
    · exact he _ b (hord.stripes hi (Ne.symm hne) ho (Phase.owns_of_live hl) htype) hb i

theorem chunkMove_moved (hi : Inv c True True s ph) (hd : ∀ r, ReqData c s.mem s.disk (s.view r) r (ph r))
    (hord : Ordered c s) (get : (s.reqs r).children[j]? = some (k, ch)) :
    Moved c s ((moveChild c s ch).setReq r fun q => { q with children := q.children.set j (k, { ch with moved := true }) })
      ph := by
  have hcounts : (ph r).counts = true := (hi.phase r).counts_of_child get
  have ho := Phase.owns_of_counts hcounts
  have hw := hi.working ho
  obtain ⟨⟨b, hb⟩, hk, hne⟩ := (hd r).children hcounts (k, ch) (List.mem_of_getElem? get)
  have hc : (s.view r).ChildOf c k ch := hw.childOf hb
  have hios : (moveChild c s ch).ios = s.ios := by
    unfold moveChild
    dsimp only
    split <;> rfl
  generalize ht : (moveChild c s ch).setReq r (fun q => { q with children := q.children.set j (k, { ch with moved := true }) }) = t
  have hf : Frame s t r 0 := ht ▸ moveChild_frame.trans Frame.setReq
  have hmem : t.mem = (moveChild c s ch).mem := by rw [← ht]; rfl
  have hdisk : t.disk = (moveChild c s ch).disk := by rw [← ht]; rfl
  have hios : t.ios = s.ios := by rw [← ht]; exact hios
  have hself : ReqData c t.mem t.disk (t.view r) r (ph r) := by
    rw [hmem, hdisk]
    refine (hd r).chunkMove hcounts hw get ?_
    rw [← ht, view_setReq rfl, view_moveChild]
    rfl
  have hsame (io : Nat) : SameRequest (t.ios io) (s.ios io) := by
    rw [hios]
    exact .self _
  have hreqs (hm : ∀ a, ¬OwnBuf r (s.reqs r).raidIo a.buf → a.buf.isMd = false → t.mem a = s.mem a)
      (hdisk : t.disk = s.disk ∨ (s.reqs r).type = .write ∧ ∀ si b, si ≠ (s.reqs r).stripeIndex → b < stripBytes c →
        ∀ i, t.disk i (stripByte c si i b) = s.disk i (stripByte c si i b)) (r' : Nat) :
      ReqData c t.mem t.disk (t.view r') r' (ph r') := by
    by_cases hr : r' = r
    · exact hr ▸ hself
    · exact .other hi hd hord hf hios ho hm hdisk hr
  cases htype : (s.view r).q.type with
  | write =>
    obtain ⟨hmem', -, hstripes⟩ := hc.write_keeps (s := s) hw htype
    have hmem := hmem.trans hmem'
    rw [← hdisk] at hstripes
    refine ⟨hf.nios, hsame, fun io => by rw [hios], fun io k off => .inl (by rw [hmem]), fun si => ?_, ?_⟩
    · by_cases hsi : si = (s.view r).q.stripeIndex
      · refine .inr ⟨(s.reqs r).raidIo, (hi.served ho rfl).1, ?_, hw.owner.completions, hw.stripe.symm.trans hsi.symm⟩
        have := hw.owner.io_type
        rw [htype] at this
        exact this
      · exact .inl fun b hb i => hstripes si b hsi hb i
    · exact hreqs (fun a _ _ => by rw [hmem]) (.inr ⟨htype, hstripes⟩)
  | reconstruct =>
    obtain ⟨hdisk', hkeep⟩ := hc.read_keeps (s := s) htype (hd r).mdBufs
    have hdisk := hdisk.trans hdisk'
    rw [← hmem] at hkeep
    refine ⟨hf.nios, hsame, fun io => by rw [hios], fun io i off => .inl ?_, fun si => .inl fun b _ i => by rw [hdisk], ?_⟩
    · refine hkeep _ rfl fun ha => ?_
      cases hw.source_buf htype hk (hne htype) ha
    · refine hreqs (fun a ha hmd => hkeep a hmd fun hin => ha (hw.bufs hk hin)) (.inl hdisk)

theorem xorStore_moved (hi : Inv c True True s ph) (hd : ∀ r, ReqData c s.mem s.disk (s.view r) r (ph r))
    (hord : Ordered c s) (get : (s.reqs r).dataXors[j]? = some x) :
    Moved c s ((storeXor s x).setReq r fun q => { q with dataXors := q.dataXors.set j { x with stored := true } }) ph := by
  have hphase : ph r = .xor := by
    refine (hi.phase r).xor_of_noXor fun no => ?_
    have hnil : (s.reqs r).dataXors = [] := no.data
    simp [hnil] at get
  have ho : (ph r).owns = true := by
    rw [hphase]
    rfl
  have hw := hi.working ho
  have hp := hphase ▸ hi.phase r
  obtain ⟨hx, hlen, hle, hrem⟩ : OwnOperands c (s.view r) x ∧ x.len = (s.view r).q.xorLen ∧
      (s.view r).q.xorLen ≤ (s.view r).q.xorRemaining ∧ (s.view r).q.xorRemaining ≤ (s.view r).total c := by
    cases hp with
    | xor owner _ _ _ _ _ _ stage =>
      have hnil {P : Prop} (he : (s.view r).q.dataXors = []) : P := by
        have he : (s.reqs r).dataXors = [] := he
        simp [he] at get
      cases stage with
      | inFlight _ _ data _ run =>
        obtain ⟨y, hy, hlen, hon⟩ := data
        have hy : (s.reqs r).dataXors = [y] := hy
        obtain rfl : x = y := List.mem_singleton.mp (hy ▸ List.mem_of_getElem? get)
        obtain ⟨out, hpos, -⟩ := run.pos
        exact ⟨(hon trivial).ownOperands owner hlen, hlen, hpos.len_le owner, hpos.1⟩
      | start _ no | done _ no => exact hnil no.data
      | cont _ _ data | retry _ _ data | mdInFlight _ _ data => exact hnil data
  obtain ⟨hkeep, -⟩ := hx.store (s := s) hw (by omega)
  generalize ht : (storeXor s x).setReq r (fun q => { q with dataXors := q.dataXors.set j { x with stored := true } }) = t
  have hf : Frame s t r 0 := ht ▸ Frame.setMem.trans Frame.setReq
  have hmem : t.mem = (storeXor s x).mem := by rw [← ht]; rfl
  have hdisk : t.disk = s.disk := by rw [← ht]; rfl
  have hios : t.ios = s.ios := by rw [← ht]; rfl
  rw [← hmem] at hkeep
  have hsame (io : Nat) : SameRequest (t.ios io) (s.ios io) := by
    rw [hios]
    exact .self _
  refine ⟨hf.nios, hsame, fun io => by rw [hios], fun io i off => ?_, fun si => .inl fun b _ i => by rw [hdisk], fun r' => ?_⟩
  · by_cases hin : ⟨.user io i, off⟩ ∈ addrs ((s.view r).q.chunks (s.view r).q.destChunk).iovs
    · right
      cases htype : (s.view r).q.type with
      | write =>
        rw [StripeRequest.destChunk, htype] at hin
        cases hw.parity_buf htype hin
      | reconstruct =>
        obtain ⟨-, hread, -⟩ := hw.owner.setup
        rw [StripeRequest.destChunk, htype] at hin
        dsimp only at hin
        rw [(hread htype).2.2.1] at hin
        obtain ⟨k, hk⟩ := hw.user _ hin
        obtain ⟨rfl, -⟩ := Buf.user.inj hk
        refine ⟨(hi.served ho rfl).1, ?_, hw.owner.completions⟩
        have := hw.owner.io_type
        rw [htype] at this
        exact this
    · exact .inl (hkeep _ hin)
  · by_cases hr : r' = r
    · subst hr
      rw [hmem, hdisk, hphase]
      refine (hphase ▸ hd r').xorStore hw hx hlen hle hrem (j := j) ?_
      rw [← ht, view_setReq rfl]
      rfl
    · exact .other hi hd hord hf hios ho (fun a ha _ => hkeep a fun hin => ha (hw.bufs hw.owner.dest_lt hin)) (.inl hdisk) hr

theorem mdXorStore_moved (hi : Inv c True True s ph) (hd : ∀ r, ReqData c s.mem s.disk (s.view r) r (ph r))
    (get : (s.reqs r).mdXors[j]? = some x) :
    Moved c s ((storeXor s x).setReq r fun q => { q with mdXors := q.mdXors.set j { x with stored := true } }) ph := by
  have hmd : x.dst.buf.isMd = true := (hd r).mdXors x (List.mem_of_getElem? get)
  generalize ht : (storeXor s x).setReq r (fun q => { q with mdXors := q.mdXors.set j { x with stored := true } }) = t
  have hf : Frame s t r 0 := ht ▸ Frame.setMem.trans Frame.setReq
  have hdisk : t.disk = s.disk := by rw [← ht]; rfl
  have hios : t.ios = s.ios := by rw [← ht]; rfl
  have hkeep (a : Addr) (ha : a.buf.isMd = false) : t.mem a = s.mem a := by
    have hmem : t.mem = (storeXor s x).mem := by rw [← ht]; rfl
    rw [hmem]
    apply store_of_notMem
    intro hspan
    rw [(Ptr.mem_span.mp hspan).1, hmd] at ha
    cases ha
  have hsame (io : Nat) : SameRequest (t.ios io) (s.ios io) := by
    rw [hios]
    exact .self _
  refine ⟨hf.nios, hsame, fun io => by rw [hios], fun io i off => .inl (hkeep _ rfl), fun si => .inl fun b _ i => by rw [hdisk],
    fun r' => ?_⟩
  have hkept (w : View) (l : (s.view r').Like w) (hx : w.x = (s.view r').x) : ReqData c t.mem t.disk w r' (ph r') := by
    refine (hd r').congr l (fun ho => ⟨hi.working ho, hx⟩) (fun _ a ha => hkeep a ha.not_md) ?_
    rw [hdisk]
    exact fun _ _ _ _ _ => rfl
  by_cases hr : r' = r
  · subst hr
    refine (hkept _ (.refl _) rfl).mdStore (List.mem_of_getElem? get) (j := j) ?_
    rw [← ht, view_setReq rfl]
    rfl
  · exact hkept _ (hf.like hr) (by simp only [State.view, hf.reqs r' hr, hios])

theorem readMove_moved (hi : Inv c True True s ph) (hd : ∀ r, ReqData c s.mem s.disk (s.view r) r (ph r))
    {arg : ReadCbArg} (get : (s.ios io).reads[j]? = some (arg, ch)) :
    Moved c s ((moveChild c s ch).setIo io fun x => { x with reads := x.reads.set j (arg, { ch with moved := true }) }) ph := by
  have hin : (arg, ch) ∈ (s.ios io).reads := List.mem_of_getElem? get
  have hlen : 0 < (s.ios io).reads.length := List.length_pos_of_mem hin
  obtain ⟨lt, completions, -, -, -, -, reads, unowned⟩ := hi.starting (show 0 < s.starts io from by
    unfold State.starts
    omega)
  have hread := reads _ hin
  obtain ⟨q, -, hc⟩ := hi.carries io lt
  obtain ⟨-, huser⟩ := q.iovs_apart io
  have hmd : ch.metadata.buf.isMd = true := by
    rw [hread.metadata, hc.mdBuf]
    split <;> rfl
  obtain ⟨hdisk, hkeep, -⟩ := moveChild_read (c := c) (s := s) hread.type hmd
  have hios : (moveChild c s ch).ios = s.ios := by
    unfold moveChild
    dsimp only
    split <;> rfl
  generalize ht : (moveChild c s ch).setIo io (fun x => { x with reads := x.reads.set j (arg, { ch with moved := true }) }) = t
  have hf (r : Nat) : Frame s t r io := ht ▸ moveChild_frame.trans (Frame.setIo ⟨rfl, rfl, rfl, rfl, rfl⟩)
  have hmem : t.mem = (moveChild c s ch).mem := by rw [← ht]; rfl
  have hdisk : t.disk = s.disk := by rw [← ht]; exact hdisk
  have hnew : t.ios io = { s.ios io with reads := (s.ios io).reads.set j (arg, { ch with moved := true }) } := by
    rw [← ht, State.setIo_ios_self, hios]
  have hbuf {a : Addr} (ha : a ∈ addrs ch.iovs) : ∃ k, a.buf = .user io k := by
    rw [hread.iovs, hc.iovs] at ha
    exact huser a ha
  rw [← hmem] at hkeep
  refine ⟨(hf 0).nios, fun x => ?_, fun x => ?_, fun x i off => ?_, fun si => .inl fun b _ i => by rw [hdisk], fun r => ?_⟩
  · by_cases hx : x = io
    · rw [hx]
      exact (hf 0).request
    · rw [(hf 0).ios x hx]
      exact .self _
  · by_cases hx : x = io
    · rw [hx, hnew]
    · rw [(hf 0).ios x hx]
  · by_cases hx : x = io
    · rw [hx]
      exact .inr ⟨lt, hread.io_type, completions⟩
    · refine .inl (hkeep _ rfl fun ha => ?_)
      obtain ⟨k, hk⟩ := hbuf ha
      exact hx (Buf.user.inj hk).1
  · refine (hd r).congr ((hf (r + 1)).like (by omega)) (fun ho => ⟨hi.working ho, ?_⟩) ?_ ?_
    · have hq : t.reqs r = s.reqs r := (hf (r + 1)).reqs r (by omega)
      simp only [State.view, hq]
      exact (hf 0).ios _ (unowned r ho)
    · intro hl a ha
      refine hkeep a ha.not_md fun hin => ?_
      obtain ⟨k, hk⟩ := hbuf hin
      rw [hk] at ha
      exact unowned r (Phase.owns_of_live hl) ha.symm
    · rw [hdisk]
      exact fun _ _ _ _ _ => rfl

/-- What an event that moves data does. -/
theorem step_moved {e : Event} (hi : Inv c True True s ph) (hd : ∀ r, ReqData c s.mem s.disk (s.view r) r (ph r))
    (hord : Ordered c s) (hm : e.moves = true) (h : step c s e = some t) : Moved c s t ph := by
  cases e with
  | readMove io j =>
    obtain ⟨⟨arg, ch⟩, get, h⟩ := Option.bind_eq_some_iff.mp h
    obtain ⟨-, h⟩ := Option.ite_none_left_eq_some.mp h
    exact Option.some.inj h ▸ readMove_moved hi hd get
  | chunkMove r j =>
    obtain ⟨⟨k, ch⟩, get, h⟩ := Option.bind_eq_some_iff.mp h
    obtain ⟨-, h⟩ := Option.ite_none_left_eq_some.mp h
    exact Option.some.inj h ▸ chunkMove_moved hi hd hord get
  | xorStore r j =>
    obtain ⟨x, get, h⟩ := Option.bind_eq_some_iff.mp h
    obtain ⟨-, h⟩ := Option.ite_none_left_eq_some.mp h
    exact Option.some.inj h ▸ xorStore_moved hi hd hord get
  | mdXorStore r j =>
    obtain ⟨x, get, h⟩ := Option.bind_eq_some_iff.mp h
    obtain ⟨-, h⟩ := Option.ite_none_left_eq_some.mp h
    exact Option.some.inj h ▸ mdXorStore_moved hi hd get
  | call | submit | readComplete | chunkComplete | xorComplete | mdXorComplete | ioWait => cases hm

end events

end FlexBSO.Raid5f

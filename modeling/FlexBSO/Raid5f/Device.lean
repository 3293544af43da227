import FlexBSO.Raid5f.Calm

/- A channel as its users see it: a flat device (`deviceAt`). As long as requests to
   the same blocks do not run at the same time, unless they are reads, and the hazards
   of the XOR do not occur, a read that succeeds returns what the last write before it
   wrote (`reads_device`), and the base bdevs hold every stripe of the device with its
   parity (`stripes_device`); a stripe whose last write failed is the exception. The
   invariant over the steps is `DataInv`. -/
namespace FlexBSO.Raid5f
open FlexBSO.Lib

/-! ## The device -/

section device
variable (c : RaidChannel) (disk₀ : Nat → Nat → Byte) (mem₀ : Mem Buf Byte) (s : State)

/-- The device after the requests below `n`, on base bdevs that held `disk₀`, the buffers of the upper
    layer as they were at first. -/
def State.device (n : Nat) : Nat → Byte := deviceAt c (placed c disk₀) mem₀ s.ios n

/-- Of the requests below `n` the last write to the stripe was completed with success, if there is one. -/
def LastOk (si n : Nat) : Prop :=
  ∀ w < n, (s.ios w).type = .write → stripeOf c (s.ios w) = si →
    (∀ x, w < x → x < n → (s.ios x).type = .write → stripeOf c (s.ios x) ≠ si) → (s.ios w).completions = [.success]

/-- Every base bdev that is there holds its chunk of the stripe. -/
def Holds (si n : Nat) : Prop :=
  ∀ i < c.numBaseBdevs, c.baseChannel i = true → ∀ b < stripBytes c,
    s.disk i (stripByte c si i b) = stripeContent c (s.device c disk₀ mem₀ n) si b i

/-- The buffers of a read hold its blocks of the device. -/
def Returned (io : Nat) : Prop :=
  ∀ b a, (addrs (s.ios io).iovs)[b]? = some a → s.mem a = s.device c disk₀ mem₀ io ((s.ios io).firstByte c + b)

/-- What holds of the data in every state of a run. -/
structure DataInv (ph : Nat → Phase) : Prop where
  work : WorkInv c s ph
  fresh : ∀ io k off, s.nios ≤ io ∨ (s.ios io).type = .write → s.mem ⟨.user io k, off⟩ = mem₀ ⟨.user io k, off⟩
  stripes : ∀ si < c.totalStripes, LastOk c s si s.nios → Holds c disk₀ mem₀ s si s.nios
  reads : ∀ io < s.nios, (s.ios io).type = .read → (s.ios io).completions = [.success] →
    LastOk c s (stripeOf c (s.ios io)) io → Returned c disk₀ mem₀ s io

end device

section keeps
variable {c : RaidChannel} {disk₀ : Nat → Nat → Byte} {mem₀ : Mem Buf Byte} {s t : State} {ph ph' : Nat → Phase}
  {r io si n : Nat}

theorem LastOk.congr (h : LastOk c t si n) (same : ∀ x < n, SameRequest (t.ios x) (s.ios x))
    (done : ∀ x < n, (s.ios x).type = .write → stripeOf c (s.ios x) = si → (t.ios x).completions = [.success] →
      (s.ios x).completions = [.success]) : LastOk c s si n := by
  have hstripe (x : Nat) (hx : x < n) : stripeOf c (t.ios x) = stripeOf c (s.ios x) := by
    rw [stripeOf, stripeOf, (same x hx).offsetBlocks]
  intro w hw htype hsi hlast
  refine done w hw htype hsi (h w hw ((same w hw).type.trans htype) ((hstripe w hw).trans hsi) fun x hwx hxn hx => ?_)
  rw [hstripe x hxn]
  exact hlast x hwx hxn ((same x hxn).type.symm.trans hx)

theorem Holds.congr (h : Holds c disk₀ mem₀ s si n) (same : ∀ x < n, SameRequest (t.ios x) (s.ios x))
    (hdisk : ∀ b < stripBytes c, ∀ i, t.disk i (stripByte c si i b) = s.disk i (stripByte c si i b)) :
    Holds c disk₀ mem₀ t si n := by
  intro i hi hc b hb
  have hdev : t.device c disk₀ mem₀ n = s.device c disk₀ mem₀ n := by
    funext a
    exact deviceAt_congr same
  rw [hdisk b hb i, hdev]
  exact h i hi hc b hb

theorem Returned.congr (h : Returned c disk₀ mem₀ s io) (same : ∀ x ≤ io, SameRequest (t.ios x) (s.ios x))
    (hmem : ∀ a ∈ addrs (s.ios io).iovs, t.mem a = s.mem a) : Returned c disk₀ mem₀ t io := by
  intro b a ha
  have hdev : t.device c disk₀ mem₀ io = s.device c disk₀ mem₀ io := by
    funext x
    exact deviceAt_congr fun x hx => same x (Nat.le_of_lt hx)
  have hfirst : (t.ios io).firstByte c = (s.ios io).firstByte c := by
    rw [RaidIo.firstByte, RaidIo.firstByte, (same io (Nat.le_refl _)).offsetBlocks]
  rw [(same io (Nat.le_refl _)).iovs] at ha
  rw [hmem a (List.mem_of_getElem? ha), hdev, hfirst]
  exact h b a ha

/-- Nor is the last write to the stripe of a write that is not completed done. -/
theorem Ordered.not_lastOk (h : Ordered c s) (hlt : io < s.nios) (htype : (s.ios io).type = .write)
    (hnone : (s.ios io).completions = []) : ¬LastOk c s (stripeOf c (s.ios io)) s.nios := by
  intro hlast
  have hdone := hlast io hlt htype rfl fun x hx hxn hw => h.no_later hnone hx hxn hw
  rw [hnone] at hdone
  cases hdone

/-- What the chunks of a write hold is what the device holds from then on. -/
theorem DataInv.chunk (hd : DataInv c disk₀ mem₀ s ph) (hi : Inv c True True s ph) (ho : (ph r).owns = true)
    (htype : (s.view r).q.type = .write) {k b : Nat} (hk : k < c.numBaseBdevs)
    (hne : k ≠ (s.view r).q.parityChunk) (hb : b < stripBytes c) :
    s.mem ((addrs ((s.view r).q.chunks k).iovs).getD b NULL) =
      s.device c disk₀ mem₀ s.nios (chunkByte c (s.view r).q.stripeIndex k b) := by
  have hw := hi.working ho
  have hwrite := hw.write htype
  obtain ⟨hlt, -⟩ := hi.served ho rfl
  obtain ⟨-, -, hsetup⟩ := hw.owner.setup
  have hparity := (hsetup htype).1
  have hidx := chunkByte_offset_lt hk hne (hparity ▸ c.parity_lt _) hb
  have hget : (addrs ((s.view r).q.chunks k).iovs).getD b NULL =
      (addrs (s.view r).x.iovs).getD (dataIdx (s.view r).q.parityChunk k * stripBytes c + b) NULL := by
    rw [hw.data htype hk hne, List.getD_eq_getElem?_getD, List.getElem?_take_of_lt hb, List.getElem?_drop,
      ← List.getD_eq_getElem?_getD]
  have hio : (s.ios (s.reqs r).raidIo).type = .write := hwrite.type
  rw [hget, State.device, deviceAt_write hlt hwrite hw.stripe.symm ?_ ?_ hk (hparity ▸ hne) hb, ← hparity]
  · -- the buffers of the write are as they were
    have hin : dataIdx (s.view r).q.parityChunk k * stripBytes c + b < (addrs (s.view r).x.iovs).length := by
      rw [hwrite.length]
      exact hidx
    show s.mem ((addrs (s.view r).x.iovs).getD _ NULL) = mem₀ ((addrs (s.view r).x.iovs).getD _ NULL)
    obtain ⟨a, ha⟩ : ∃ a, (addrs (s.view r).x.iovs)[dataIdx (s.view r).q.parityChunk k * stripBytes c + b]? = some a :=
      ⟨_, List.getElem?_eq_getElem hin⟩
    rw [List.getD_eq_getElem?_getD, ha, Option.getD_some]
    obtain ⟨j, hj⟩ := hw.user a (List.mem_of_getElem? ha)
    obtain ⟨buf, off⟩ := a
    obtain rfl : buf = .user (s.reqs r).raidIo j := hj
    exact hd.fresh _ j off (.inr hio)
  · intro x hx hxn hxt
    rw [hw.stripe]
    exact hd.work.ordered.no_later hw.owner.completions hx hxn hxt
  · exact fun x hx hxt => hi.stripeWrite hx hxt

/-- A write that is completed with success leaves its stripe on the base bdevs. -/
theorem DataInv.wrote (hd : DataInv c disk₀ mem₀ s ph) (hi : Inv c True True s ph) (hl : (ph r).live = true) {p' : Phase}
    {w : View} (mv : Move c True True r false (ph r) (s.view r) p' w) (why : Reasons c (ph r) (s.view r) w r)
    (htype : (s.view r).q.type = .write) (hdone : w.x.completions = [.success]) :
    Holds c disk₀ mem₀ s (s.view r).q.stripeIndex s.nios := by
  have ho := Phase.owns_of_live hl
  have hw := hi.working ho
  obtain ⟨hsynced, hxored⟩ := mv.wrote (hi.phase r) hl (hd.work.reqs r) why htype hdone
  obtain ⟨-, -, hsetup⟩ := hw.owner.setup
  have hparity := (hsetup htype).1
  have htotal : (s.view r).total c = stripBytes c := by
    rw [stripBytes_eq, View.total, View.numBlocks, htype]
  have hfirst : (s.view r).firstByte c = 0 := by
    rw [View.firstByte, htype]
  have hdest : (s.view r).q.destChunk = (s.view r).q.parityChunk := by
    rw [StripeRequest.destChunk, htype]
  intro i hi' hc b hb
  have hlen := hw.owner.lists i hi'
  have hlt : b < (addrs ((s.view r).q.chunks i).iovs).length := by omega
  have hat := List.getElem?_eq_getElem hlt
  have hdisk := hsynced i hi' hc b _ hat
  rw [hfirst, Nat.zero_add] at hdisk
  rw [← hdisk, stripeContent]
  by_cases hip : i = (s.view r).q.parityChunk
  · -- the parity is the xor of what the data chunks hold
    subst hip
    have hx := hxored hc b _ (by omega) (by rw [hdest]; exact hat)
    rw [hx, ← hparity, withParity_parity]
    unfold View.xorByte srcChunks
    rw [hdest]
    apply xorMap_congr
    intro j hj
    obtain ⟨hjn, hjne⟩ := mem_others.mp hj
    exact hd.chunk hi ho htype (c.mem_chunkIndices.mp hjn) hjne hb
  · rw [withParity_of_ne (hparity ▸ hip), ← hd.chunk hi ho htype hi' hip hb, List.getD_eq_getElem?_getD, hat, Option.getD_some]

/-- A read that is completed with success has its blocks of the device in its buffers. -/
theorem DataInv.readBack (hd : DataInv c disk₀ mem₀ s ph) (hi : Inv c True True s ph) (hl : (ph r).live = true) {p' : Phase}
    {w : View} (mv : Move c True True r false (ph r) (s.view r) p' w) (why : Reasons c (ph r) (s.view r) w r)
    (htype : (s.view r).q.type = .reconstruct) (hdone : w.x.completions = [.success])
    (hlast : LastOk c s (stripeOf c (s.ios (s.reqs r).raidIo)) (s.reqs r).raidIo) :
    Returned c disk₀ mem₀ s (s.reqs r).raidIo := by
  have ho := Phase.owns_of_live hl
  have hw := hi.working ho
  have hread := hw.read htype
  obtain ⟨hlt, -⟩ := hi.served ho rfl
  obtain ⟨hchunks, hxored⟩ := mv.readBack (hi.phase r) hl (hd.work.reqs r) why htype hdone
  obtain ⟨-, hsetup, -⟩ := hw.owner.setup
  obtain ⟨hrc, -, hiovs, -⟩ := hsetup htype
  obtain ⟨hrco, hfits⟩ := hw.chunkOffset htype
  have hx : (s.view r).x = s.ios (s.reqs r).raidIo := rfl
  have hnone : (s.ios (s.reqs r).raidIo).completions = [] := hw.owner.completions
  have hdest : (s.view r).q.destChunk = (s.view r).q.reconstructChunk := by
    rw [StripeRequest.destChunk, htype]
  have hfirst : (s.view r).firstByte c = (s.view r).q.reconstructChunkOffset * c.blocklen := by
    rw [View.firstByte, htype]
  have hso : (s.view r).x.offsetBlocks % c.stripeBlocks < c.stripeBlocks := offset_mod_lt _
  have hrcn : (s.view r).q.reconstructChunk < c.numBaseBdevs := hrc ▸ Geometry.chunkIdx_lt hso
  have hrcp : (s.view r).q.reconstructChunk ≠ c.stripeParityChunkIndex (s.view r).q.stripeIndex :=
    hrc ▸ Geometry.chunkIdx_ne_parity hso
  -- no write to the stripe came after the read
  have hlate (x : Nat) (hx : (s.reqs r).raidIo ≤ x) (hxn : x < s.nios) (hxt : (s.ios x).type = .write) :
      stripeOf c (s.ios x) ≠ (s.view r).q.stripeIndex := by
    rw [hw.stripe]
    rcases Nat.eq_or_lt_of_le hx with rfl | hx
    · have htype : (s.ios (s.reqs r).raidIo).type = .read := hread.type
      rw [htype] at hxt
      cases hxt
    · exact hd.work.ordered.no_later hnone hx hxn hxt
  have hholds : Holds c disk₀ mem₀ s (s.view r).q.stripeIndex s.nios := by
    apply hd.stripes _ hw.stripe_lt
    intro x hxn hxt hsi hlater
    have hxlt : x < (s.reqs r).raidIo := by
      by_contra hge
      exact hlate x (by omega) hxn hxt hsi
    exact hlast x hxlt hxt (hsi.trans hw.stripe) fun y hy hyn hyt => by
      have := hlater y hy (by omega) hyt
      rwa [hw.stripe] at this
  intro b a ha
  rw [← hx] at ha
  have hb : b < (s.view r).total c := by
    obtain ⟨hlen, -⟩ := List.getElem?_eq_some_iff.mp ha
    rw [← hiovs] at hlen
    rwa [hw.owner.lists _ hrcn] at hlen
  have hreach := hw.reach
  have hbyte := hxored b a hb (by rw [hdest, hiovs]; exact ha)
  have hplace : chunkByte c (s.view r).q.stripeIndex (s.view r).q.reconstructChunk ((s.view r).firstByte c + b) =
      (s.ios (s.reqs r).raidIo).firstByte c + b := by
    rw [hw.owner.setup.1, hrc, hw.owner.setup.1, hfirst, hrco, chunkByte_block]
    rfl
  calc s.mem a = xorMap (others (s.view r).q.reconstructChunk c.chunkIndices)
        (fun i => s.disk i (stripByte c (s.view r).q.stripeIndex i ((s.view r).firstByte c + b))) := by
        rw [hbyte]
        unfold View.xorByte srcChunks
        rw [hdest]
        apply xorMap_congr
        intro i hi'
        obtain ⟨hin, hine⟩ := mem_others.mp hi'
        have hin := c.mem_chunkIndices.mp hin
        have hlt : b < (addrs ((s.view r).q.chunks i).iovs).length := by
          rw [hw.owner.lists i hin]
          exact hb
        rw [List.getD_eq_getElem?_getD, List.getElem?_eq_getElem hlt, Option.getD_some]
        exact (hchunks i hin hine).2 b _ (List.getElem?_eq_getElem hlt)
    _ = xorMap (others (s.view r).q.reconstructChunk c.chunkIndices)
        (stripeContent c (s.device c disk₀ mem₀ s.nios) (s.view r).q.stripeIndex ((s.view r).firstByte c + b)) := by
        apply xorMap_congr
        intro i hi'
        obtain ⟨hin, hine⟩ := mem_others.mp hi'
        have hin := c.mem_chunkIndices.mp hin
        exact hholds i hin (hchunks i hin hine).1 _ (by omega)
    _ = stripeContent c (s.device c disk₀ mem₀ s.nios) (s.view r).q.stripeIndex ((s.view r).firstByte c + b)
        (s.view r).q.reconstructChunk :=
        xorMap_others_withParity c.nodup_chunkIndices (c.mem_chunkIndices.mpr (c.parity_lt _)) (c.mem_chunkIndices.mpr hrcn)
    _ = s.device c disk₀ mem₀ s.nios
        (chunkByte c (s.view r).q.stripeIndex (s.view r).q.reconstructChunk ((s.view r).firstByte c + b)) :=
        withParity_of_ne hrcp
    _ = s.device c disk₀ mem₀ (s.reqs r).raidIo
        (chunkByte c (s.view r).q.stripeIndex (s.view r).q.reconstructChunk ((s.view r).firstByte c + b)) :=
        deviceAt_unwritten (Nat.le_of_lt hlt) hlate (fun x hx hxt => hi.stripeWrite hx hxt) hrcn hrcp (by omega)
    _ = _ := by rw [hplace]

/-! ## Every step keeps it -/

theorem DataInv.moved (hd : DataInv c disk₀ mem₀ s ph) (hi : Inv c True True s ph) (hm : Moved c s t ph) :
    DataInv c disk₀ mem₀ t ph where
  work := hd.work.moved hm
  fresh := by
    intro io k off h
    rw [hm.nios, (hm.same io).type] at h
    rcases hm.user io k off with hu | ⟨hlt, htype, -⟩
    · exact hu.trans (hd.fresh io k off h)
    · rcases h with h | h
      · omega
      · rw [htype] at h
        cases h
  stripes := by
    intro si hsi hlast
    rw [hm.nios] at hlast ⊢
    have hlast : LastOk c s si s.nios :=
      hlast.congr (fun x _ => hm.same x) fun x _ _ _ hx => (hm.completions x).symm.trans hx
    rcases hm.disk si with hdisk | ⟨io, hlt, htype, hnone, rfl⟩
    · exact (hd.stripes si hsi hlast).congr (fun x _ => hm.same x) hdisk
    · exact absurd hlast (hd.work.ordered.not_lastOk hlt htype hnone)
  reads := by
    intro io hlt htype hdone hlast
    rw [hm.nios] at hlt
    rw [(hm.same io).type] at htype
    rw [hm.completions] at hdone
    have hstripe : stripeOf c (t.ios io) = stripeOf c (s.ios io) := by
      rw [stripeOf, stripeOf, (hm.same io).offsetBlocks]
    rw [hstripe] at hlast
    have hlast := hlast.congr (fun x _ => hm.same x) fun x _ _ _ hx => (hm.completions x).symm.trans hx
    refine (hd.reads io hlt htype hdone hlast).congr (fun x _ => hm.same x) fun a ha => ?_
    obtain ⟨k, off, rfl⟩ := hi.own_buffers hlt ha
    rcases hm.user io k off with hu | ⟨-, -, hnone⟩
    · exact hu
    · rw [hdone] at hnone
      cases hnone

theorem DataInv.passed (hd : DataInv c disk₀ mem₀ s ph) (hi : Inv c True True s ph) (hi' : Inv c True True t ph')
    (he : Evolves c True True false s t ph ph') (hnios : t.nios = s.nios) (hmem : t.mem = s.mem) (hdisk : t.disk = s.disk)
    (why : ∀ r, Reasons c (ph r) (s.view r) (t.view r) r) : DataInv c disk₀ mem₀ t ph' where
  work := hd.work.passed hi hi' he hnios hmem hdisk why
  fresh := by
    intro io k off h
    rw [hmem]
    apply hd.fresh
    by_cases hlt : io < s.nios
    · rw [hnios, (he.same hlt).type] at h
      exact h
    · exact .inl (by omega)
  stripes := by
    intro si hsi hlast
    rw [hnios] at hlast ⊢
    have hsame : ∀ x < s.nios, SameRequest (t.ios x) (s.ios x) := fun x hx => he.same hx
    suffices Holds c disk₀ mem₀ s si s.nios from this.congr hsame fun b _ i => by rw [hdisk]
    by_cases hold : LastOk c s si s.nios
    · exact hd.stripes si hsi hold
    · -- the last write to the stripe has just been completed
      obtain ⟨w, hw, htype, rfl, hs, ht⟩ : ∃ w < s.nios, (s.ios w).type = .write ∧ stripeOf c (s.ios w) = si ∧
          (s.ios w).completions ≠ [.success] ∧ (t.ios w).completions = [.success] := by
        by_contra hnone
        refine hold (hlast.congr hsame fun x hx htype hsi hdone => ?_)
        by_contra hne
        exact hnone ⟨x, hx, htype, hsi, hne, hdone⟩
      obtain ⟨r, hl, rfl, hx, mv⟩ := he.succeeded hi' hs ht
      have hworking := hi.working (Phase.owns_of_live hl)
      have hwrite : (s.view r).q.type = .write := by
        cases hq : (s.view r).q.type with
        | write => rfl
        | reconstruct =>
          have := (hworking.read hq).type
          cases this.symm.trans htype
      have hholds := hd.wrote hi hl mv (why r) hwrite (by rw [hx]; exact ht)
      rwa [hworking.stripe] at hholds
  reads := by
    intro io hlt htype hdone hlast
    rw [hnios] at hlt
    have hsame : ∀ x ≤ io, SameRequest (t.ios x) (s.ios x) := fun x hx => he.same (by omega)
    have hstripe : stripeOf c (t.ios io) = stripeOf c (s.ios io) := by
      rw [stripeOf, stripeOf, (he.same hlt).offsetBlocks]
    rw [(he.same hlt).type] at htype
    rw [hstripe] at hlast
    -- writes to the stripe that came before the read were completed before it came
    have hlast : LastOk c s (stripeOf c (s.ios io)) io := by
      refine hlast.congr (fun x hx => he.same (by omega)) fun x hx hxt hsi hxdone => ?_
      by_cases hnone : (s.ios x).completions = []
      · have hread := (hd.work.ordered x io hx hlt hnone hsi).1
        rw [hxt] at hread
        cases hread
      · exact (he.completed hi hi' hnone).symm.trans hxdone
    refine Returned.congr ?_ hsame fun a _ => by rw [hmem]
    by_cases hold : (s.ios io).completions = [.success]
    · exact hd.reads io hlt htype hold hlast
    · obtain ⟨r, hl, rfl, hx, mv⟩ := he.succeeded hi' hold hdone
      have hworking := hi.working (Phase.owns_of_live hl)
      have hread : (s.view r).q.type = .reconstruct := by
        cases hq : (s.view r).q.type with
        | reconstruct => rfl
        | write =>
          have := (hworking.write hq).type
          cases this.symm.trans htype
      exact hd.readBack hi hl mv (why r) hread (by rw [hx]; exact hdone) hlast

theorem DataInv.submitted (hd : DataInv c disk₀ mem₀ s ph) {q : Request} (h : Submitted s t q)
    (hi' : Inv c True True t ph') (hwork : WorkInv c t ph') : DataInv c disk₀ mem₀ t ph' := by
  have hnios := h.nios
  have hlastOk {si n : Nat} (hn : n ≤ s.nios) (hl : LastOk c t si n) : LastOk c s si n :=
    hl.congr (fun x hx => h.same (by omega)) fun x hx _ _ hs => by rwa [h.old x (by omega)] at hs
  refine ⟨hwork, ?_, ?_, ?_⟩
  · intro io k off hio
    rw [h.mem]
    apply hd.fresh
    by_cases hlt : io < s.nios
    · rw [hnios, h.old io (by omega)] at hio
      exact hio.imp_left fun hio => by omega
    · exact .inl (by omega)
  · intro si hsi hlast
    rw [hnios] at hlast ⊢
    -- the new request is no write to the stripe, or it would be its last
    have hother : (t.ios s.nios).type = .write → stripeOf c (t.ios s.nios) ≠ si := by
      intro htype hst
      have hone := hlast s.nios (Nat.lt_succ_self _) htype hst fun x hx hxn => by omega
      rw [h.completions] at hone
      cases hone
    have hlast : LastOk c s si s.nios := by
      apply hlastOk (Nat.le_refl _)
      intro w hw htype hst hlater
      refine hlast w (by omega) htype hst fun x hx hxn hxt => ?_
      rcases Nat.lt_succ_iff_lt_or_eq.mp hxn with hxn | rfl
      · exact hlater x hx hxn hxt
      · exact hother hxt
    intro i hi'' hc b hb
    have hholds := hd.stripes si hsi hlast i hi'' hc b hb
    rw [h.disk, hholds]
    have hdev (k : Nat) (hk : k < c.numBaseBdevs) (hne : k ≠ c.stripeParityChunkIndex si) :
        t.device c disk₀ mem₀ (s.nios + 1) (chunkByte c si k b) = s.device c disk₀ mem₀ s.nios (chunkByte c si k b) := by
      rw [State.device, deviceAt_unwritten (Nat.le_succ s.nios) (fun x hx hxn hxt => ?_)
        (fun x hx hxt => hi'.stripeWrite (hnios ▸ hx) hxt) hk hne hb]
      · exact deviceAt_congr fun x hx => h.same hx
      · obtain rfl : x = s.nios := by omega
        exact hother hxt
    unfold stripeContent withParity
    split
    · apply xorMap_congr
      intro k hk
      obtain ⟨hkn, hkne⟩ := mem_others.mp hk
      exact (hdev k (c.mem_chunkIndices.mp hkn) hkne).symm
    · next hne => exact (hdev i hi'' hne).symm
  · intro io hio htype hone hlast
    have hne : io ≠ s.nios := by
      rintro rfl
      rw [h.completions] at hone
      cases hone
    have hio : io < s.nios := by omega
    rw [h.old io hne] at htype hone hlast
    have hlast := hlastOk (by omega) hlast
    exact (hd.reads io hio htype hone hlast).congr (fun x hx => h.same (by omega)) fun a _ => by rw [h.mem]

/-- Every step keeps what holds of the data. -/
theorem DataInv.step {e : Event} (hd : DataInv c disk₀ mem₀ s ph) (hi : Inv c True True s ph) (hc : Calm s e)
    (h : step c s e = some t) : ∃ ph', Inv c True True t ph' ∧ DataInv c disk₀ mem₀ t ph' := by
  obtain ⟨ph', hi', hwork, hstep⟩ := hd.work.step hi hc h
  refine ⟨ph', hi', ?_⟩
  cases hstep with
  | moved hm same =>
    subst same
    exact hd.moved hi hm
  | submitted q hsub => exact hd.submitted hsub hi' hwork
  | passed he nios mem disk why => exact hd.passed hi hi' he nios mem disk why

end keeps

/-! ## Runs -/

section runs
variable {c : RaidChannel} {disk diskMd : Nat → Nat → Byte} {mem : Mem Buf Byte} {s : State} {si io : Nat}

/-- A new channel over base bdevs whose stripes sum to zero. -/
theorem DataInv.init (hc : Consistent c disk) : DataInv c disk mem (State.init c disk diskMd mem) initPhase where
  work := .init
  fresh _ _ _ _ := rfl
  stripes si hsi _ i hi _ b hb := by
    have hdata {k : Nat} (hk : k < c.numBaseBdevs) (hne : k ≠ c.stripeParityChunkIndex si) :
        placed c disk (chunkByte c si k b) = disk k (stripByte c si k b) := placed_chunkByte disk hsi hk hne hb
    have hp := c.mem_chunkIndices.mpr (c.parity_lt si)
    calc disk i (stripByte c si i b)
        = withParity (c.stripeParityChunkIndex si) c.chunkIndices (fun k => disk k (stripByte c si k b)) i :=
          (withParity_of_zero c.nodup_chunkIndices hp (hc si hsi b hb) i).symm
      _ = stripeContent c (placed c disk) si b i := by
          unfold stripeContent withParity
          split
          · apply xorMap_congr
            intro k hk
            obtain ⟨hkn, hkne⟩ := mem_others.mp hk
            exact (hdata (c.mem_chunkIndices.mp hkn) hkne).symm
          · next hne => exact (hdata hi hne).symm
  reads io hlt := absurd hlt (Nat.not_lt_zero io)

theorem run_data (h : Run c disk diskMd mem Calm s) (hc : Consistent c disk) :
    ∃ ph, Inv c True True s ph ∧ DataInv c disk mem s ph := by
  refine h.invariant (I := fun s => ∃ ph, Inv c True True s ph ∧ DataInv c disk mem s ph) ⟨initPhase, init_inv, .init hc⟩ ?_
  intro s e t ⟨ph, hi, hd⟩ hcalm ht
  exact hd.step hi hcalm ht

/-- A read that is completed with success has read what the last write to its stripe wrote, or what was
    there at first, if that write was a success: whatever ran in between and next to it. -/
theorem reads_device (h : Run c disk diskMd mem Calm s) (hc : Consistent c disk) (hlt : io < s.nios)
    (htype : (s.ios io).type = .read) (hdone : (s.ios io).completions = [.success])
    (hlast : LastOk c s (stripeOf c (s.ios io)) io) : Returned c disk mem s io := by
  obtain ⟨ph, -, hd⟩ := run_data h hc
  exact hd.reads io hlt htype hdone hlast

/-- Where raid5f looks for a byte of a stripe. -/
theorem exists_chunkByte {a : Nat} (h : a / stripeBytes c = si) : ∃ i b, i < c.numBaseBdevs ∧
    i ≠ c.stripeParityChunkIndex si ∧ b < stripBytes c ∧ a = chunkByte c si i b := by
  have hso : a / c.blocklen % c.stripeBlocks < c.stripeBlocks := offset_mod_lt _
  have hsi : a / c.blocklen / c.stripeBlocks = si := by
    rw [Nat.div_div_eq_div_mul, Nat.mul_comm, ← stripeBytes_eq]
    exact h
  have hplace := chunkByte_block (c := c) (a / c.blocklen) (a % c.blocklen)
  rw [hsi, Nat.div_add_mod'] at hplace
  refine ⟨_, _, Geometry.chunkIdx_lt hso, Geometry.chunkIdx_ne_parity hso, ?_, hplace.symm⟩
  rw [stripBytes_eq]
  exact mul_add_lt (Nat.mod_lt _ c.stripSize_pos) (Nat.mod_lt _ c.blocklen_pos)

/-- A stripe whose last write was a success, or that was never written: each base bdev that is there
    holds its chunk of the device, data or parity. When all are there the stripe sums to zero, and read
    through the addresses of raid5f it is the device. -/
theorem stripes_device (h : Run c disk diskMd mem Calm s) (hc : Consistent c disk) (hsi : si < c.totalStripes)
    (hlast : LastOk c s si s.nios) : Holds c disk mem s si s.nios ∧ ((∀ i < c.numBaseBdevs, c.baseChannel i = true) →
      (∀ b < stripBytes c, xorMap c.chunkIndices (fun i => s.disk i (stripByte c si i b)) = 0) ∧
      ∀ a, a / stripeBytes c = si → placed c s.disk a = s.device c disk mem s.nios a) := by
  obtain ⟨ph, -, hd⟩ := run_data h hc
  have hholds := hd.stripes si hsi hlast
  refine ⟨hholds, fun hall => ⟨fun b hb => ?_, fun a ha => ?_⟩⟩
  · calc xorMap c.chunkIndices (fun i => s.disk i (stripByte c si i b))
        = xorMap c.chunkIndices (stripeContent c (s.device c disk mem s.nios) si b) := by
          apply xorMap_congr
          intro i hi
          have hi := c.mem_chunkIndices.mp hi
          exact hholds i hi (hall i hi) b hb
      _ = 0 := xorMap_withParity c.nodup_chunkIndices (c.mem_chunkIndices.mpr (c.parity_lt si))
  · obtain ⟨i, b, hi, hne, hb, rfl⟩ := exists_chunkByte ha
    rw [placed_chunkByte s.disk hsi hi hne hb, hholds i hi (hall i hi) b hb]
    exact withParity_of_ne hne

end runs

theorem consistent_zero (c : RaidChannel) : Consistent c fun _ _ => 0 := fun _ _ _ _ => xorMap_zero fun _ _ => rfl

/-- The state `writeThenRead` ends in. -/
theorem writeThenRead_end : ∃ s, Run (smallArray fun _ => true) (fun _ _ => 0) (fun _ _ => 0) (fun _ => 0) Calm s ∧
    s.nios = 2 ∧ (s.ios 0).completions = [.success] ∧ (s.ios 1).type = .read ∧ (s.ios 1).completions = [.success] := by
  have hm : (smallRun (fun _ => true) (fun _ _ => 0) Calm writeThenRead).map (fun s => decide (s.nios = 2 ∧
      (s.ios 0).completions = [.success] ∧ (s.ios 1).type = .read ∧ (s.ios 1).completions = [.success])) = some true := by
    decide +kernel
  obtain ⟨s, hs, hv⟩ := Option.map_eq_some_iff.mp hm
  exact ⟨s, smallRun_run hs, of_decide_eq_true hv⟩

theorem reads_device_second : ∃ s, (s.ios 1).completions = [.success] ∧
    Returned (smallArray fun _ => true) (fun _ _ => 0) (fun _ => 0) s 1 := by
  obtain ⟨s, hrun, hn, hwrite, htype, hread⟩ := writeThenRead_end
  refine ⟨s, hread, reads_device hrun (consistent_zero _) (by rw [hn]; decide) htype hread fun w hw _ _ _ => ?_⟩
  obtain rfl : w = 0 := Nat.lt_one_iff.mp hw
  exact hwrite

theorem stripes_device_first : ∃ s, (s.ios 0).completions = [.success] ∧
    Holds (smallArray fun _ => true) (fun _ _ => 0) (fun _ => 0) s 0 2 := by
  obtain ⟨s, hrun, hn, hwrite, htype, -⟩ := writeThenRead_end
  have hlast : LastOk (smallArray fun _ => true) s 0 s.nios := by
    intro w hw hwt _ _
    rw [hn] at hw
    interval_cases w
    · exact hwrite
    · rw [htype] at hwt
      cases hwt
  have hheld := (stripes_device hrun (consistent_zero _) (by decide) hlast).1
  rw [hn] at hheld
  exact ⟨s, hwrite, hheld⟩

end FlexBSO.Raid5f

import Loam.BlockApply

/-!
# Runs of a block device

What a device keeps holds after every event, from a new device on, when the
node's answers name what they say and no whole extent is written while it is
being fetched.
-/

namespace Loam

open CellStore

namespace BlockVolume

variable {body : Digest → Bytes} {N : ℕ} {s s' : BlockVolume} {n i : ℕ}

/-! ## The whole invariant -/

theorem Closed.ledger (h : s.Closed) : s.Ledger body := by
  refine ⟨fun a ha => ?_, fun c hc => ?_⟩
  · rw [h.hist] at ha
    cases ha
  · rw [h.hist] at hc
    cases hc

theorem Closed.inv (h : s.Closed) (hr : s.phase ≠ .ready) (hf : s.phase ≠ .failed) :
    s.Inv body N :=
  ⟨h.ledger, fun he => absurd he hr, fun _ _ => h, fun he => absurd he hf⟩

theorem Inv.told (h : s.Inv body N) : s.Told body := by
  refine ⟨h.ledger, fun i p hp => ?_, h.dead⟩
  by_cases hr : s.phase = .ready
  · exact ((h.live hr).pend i p hp).since_le
  by_cases hf : s.phase = .failed
  · exact (h.dead hf).pend i p hp
  rw [(h.closed hr hf).pending i] at hp
  cases hp

theorem Inv.failWith (h : s.Inv body N) (err : VolErrno) : (s.failWith err).Inv body N :=
  h.told.failWith err

theorem Inv.sound (h : s.Inv body N) (hr : s.phase = .ready) : s.Sound body N :=
  ⟨h.live hr, h.ledger, hr⟩

theorem Closed.core_iff : s.core.Closed ↔ s.Closed :=
  ⟨fun h => ⟨h.slots, h.leaves, h.hist, h.pending, h.commit, h.staged, h.gens, h.job⟩,
    fun h => ⟨h.slots, h.leaves, h.hist, h.pending, h.commit, h.staged, h.gens, h.job⟩⟩

theorem Dead.of_core (hc : s'.core = s.core) (hf : s'.fail = s.fail) (h : s.Dead) : s'.Dead := by
  refine ⟨by rw [hf]; exact h.fail, fun i => ?_, ?_⟩
  · show (s'.core.slots i).state = _
    rw [hc]
    exact h.slots i
  · unfold BlockVolume.pending
    rw [core_queue hc, core_hist hc]
    exact h.pend

/-- What the invariant is about decides it. -/
theorem Inv.of_core (h : s.Inv body N) (hc : s'.core = s.core) (hf : s'.fail = s.fail) :
    s'.Inv body N := by
  have hph := core_phase hc
  refine ⟨h.ledger.of_core hc, fun hr => (h.live (hph ▸ hr)).of_core hc, fun hr hn => ?_,
    fun hd => (h.dead (hph ▸ hd)).of_core hc hf⟩
  exact Closed.core_iff.mp (hc ▸ Closed.core_iff.mpr (h.closed (hph ▸ hr) (hph ▸ hn)))

theorem Inv.turnAway (h : s.Inv body N) : s.turnAway.Inv body N := by
  unfold BlockVolume.turnAway
  split
  · exact h.of_core rfl rfl
  · exact h

theorem new_inv (seeded paramsGood : Bool) (blockSize ttlMs : ℕ) (expectFence : UInt64) :
    (new seeded paramsGood blockSize ttlMs expectFence).Inv body N := by
  cases seeded with
  | false =>
    refine ⟨⟨fun a ha => absurd ha List.not_mem_nil, fun c hc => absurd hc List.not_mem_nil⟩, nofun,
      fun _ hn => absurd rfl hn, fun _ => ⟨⟨_, rfl⟩, fun _ => rfl, fun _ _ hp => nomatch hp⟩⟩
  | true =>
    exact Closed.inv ⟨fun _ => ⟨rfl, rfl⟩, fun _ => rfl, rfl, fun _ => rfl, rfl, rfl, ⟨rfl, rfl⟩,
      .inl rfl⟩ nofun nofun

/-! ## The open -/

theorem Closed.acked (h : s.Closed) : s.acked.Closed :=
  ⟨h.slots, h.leaves, h.hist, h.pending, h.commit, h.staged, h.gens, .inl rfl⟩

/-- A lease answer while the device is being opened. -/
theorem Closed.onLease (h : s.Closed) (hp : s.phase = .lease) (t : ℕ) (status : AdminStatus)
    (fence : UInt64) : (s.acked.onLease t .acquire status fence).Inv body N := by
  have hinv : s.acked.Inv body N :=
    h.acked.inv (fun he => absurd (hp.symm.trans he) nofun) fun he => absurd (hp.symm.trans he) nofun
  unfold BlockVolume.onLease
  cases status with
  | ok =>
    dsimp only
    split
    · exact hinv.failWith _
    exact Closed.inv ⟨h.slots, h.leaves, h.hist, h.pending, h.commit, h.staged, h.gens, .inl rfl⟩
      nofun nofun
  | busy => exact hinv.of_core rfl rfl
  | _ => exact hinv.failWith _

theorem Closed.onLookup (h : s.Closed) (hp : s.phase = .lookup) (status : AdminStatus)
    (binding : Option VolumeBinding) : (s.acked.onLookup status binding).Inv body N := by
  have hinv : s.acked.Inv body N :=
    h.acked.inv (fun he => absurd (hp.symm.trans he) nofun) fun he => absurd (hp.symm.trans he) nofun
  unfold BlockVolume.onLookup
  split
  · split
    · split
      · exact Closed.inv ⟨h.slots, h.leaves, h.hist, h.pending, h.commit, h.staged, h.gens, .inl rfl⟩
          nofun nofun
      · exact hinv.failWith _
    · exact hinv.failWith _
  · exact hinv.failWith _
  · exact hinv.failWith _
  · exact hinv.failWith _
  · exact hinv.failWith _

theorem decodeRoot_geometry {page : Bytes} {root : RootPage} (h : decodeRoot page = some root) :
    selectDepth root.sizeBytes root.extentSize = some root.depth ∧
      coversExactly root.sizeBytes (childSpan root.extentSize root.depth) root.count = true ∧
      root.sizeBytes < 256 ^ 8 := by
  unfold decodeRoot at h
  split at h
  swap
  · cases h
  next hlen =>
  dsimp only at h
  split at h
  swap
  · cases h
  next hok =>
  cases h
  obtain ⟨-, hdepth, -, hcov, hsize⟩ := hok
  refine ⟨hdepth, ?_, ?_⟩
  · have hcount : (page.drop 36).length / 32 = leNat ((page.drop 34).take 2) := by
      rw [List.length_drop, hsize, Nat.add_sub_cancel_left, Nat.mul_div_cancel _ (by decide)]
    unfold RootPage.count
    rw [hcount]
    exact hcov
  · refine Nat.lt_of_lt_of_le (leNat_lt _) (Nat.pow_le_pow_right (by decide) ?_)
    exact (List.length_take_le _ _)

/-- **A device opened over a map has its image.** -/
theorem Closed.opened (h : s.Closed) {page : Bytes} {root : RootPage}
    (hbody : body s.rootDigest = page) (hdec : decodeRoot page = some root)
    (hcap : root.extentSize ≤ extentCap) (hbs : s.blockSize ≤ root.extentSize)
    (hcount : root.sizeBytes / s.blockSize ≠ 0) (hj : s.job = .none) :
    (s.opened root).Sound body N := by
  obtain ⟨hdepth, hcov, hsize⟩ := decodeRoot_geometry hdec
  have hblock : 0 < s.blockSize := Nat.pos_of_ne_zero fun h0 => hcount (by rw [h0, Nat.div_zero])
  have geo : (s.opened root).Geometry := ⟨hdepth, hcov, hsize, rfl, rfl, ⟨hblock, hbs⟩, hcap⟩
  have hwrites : (s.opened root).hist.writes = [] := by
    show s.hist.writes = []
    rw [h.hist]
  have hroot : ∀ pos < (s.opened root).sizeBytes,
      mapImage body s.rootDigest pos = (s.opened root).committedImage body pos := by
    intro pos hpos
    obtain ⟨hx, -, -⟩ := geo.position hpos
    rw [mapImage, hbody, hdec]
    unfold committedImage imageOf
    refine congrArg (fun d => extentByte body d (pos % root.extentSize)) (mapDigest_congr ?_)
    exact (if_pos (geo.child_lt hx)).symm
  have himage (k pos : ℕ) : (s.opened root).image body k pos = mapImage body s.rootDigest pos := by
    unfold BlockVolume.image
    rw [hwrites, List.take_nil]
    rfl
  have hfree (i : ℕ) : ((s.opened root).slots i).state = .free := (h.slots i).1
  refine ⟨⟨geo, ⟨hroot, fun _ k _ hv => ?_⟩, ⟨fun a _ _ _ hfa => absurd (hfree a) hfa,
      fun a _ hfa => absurd (hfree a) hfa, fun a _ hr => ?_, fun idx hx _ j hj => ?_,
      fun a _ hf => ?_, ?_⟩, ?_, ⟨?_, fun w hw => ?_, ?_, fun pos hpos => ?_, ⟨_, _, rfl⟩⟩,
      fun i p hp => ?_, .of_not_fixed (fun hf => hf.1 h.commit) (.of_none hj) fun i _ => (h.slots i).2,
      .of_none hj⟩, ⟨fun a ha => ?_, fun c hc => ?_⟩, rfl⟩
  · exact absurd ((h.leaves k).symm.trans hv) Bool.false_ne_true
  · obtain hr | hr := hr
    · exact absurd ((hfree a).symm.trans hr) (by decide)
    · exact absurd ((hfree a).symm.trans hr) (by decide)
  · rw [← hroot _ (mul_add_lt_size hj)]
    exact (himage _ _).symm
  · exact absurd ((hfree a).symm.trans hf) (by decide)
  · refine Eq.trans (show (s.opened root).staged = 0 from h.staged) (List.countP_eq_zero.mpr ?_).symm
    intro a _
    rw [hfree a]
    decide
  · rw [show (s.opened root).staged = 0 from h.staged]
    exact Nat.zero_le _
  · rw [hwrites]
    exact List.Pairwise.nil
  · rw [hwrites] at hw
    cases hw
  · exact Nat.le_of_eq (h.gens.2.trans h.gens.1.symm)
  · rw [← hroot pos hpos]
    exact (himage _ _).symm
  · exact absurd ((h.pending i).symm.trans hp) (Option.some_ne_none p).symm
  · rw [show (s.opened root).hist.answers = s.hist.answers from rfl, h.hist] at ha
    cases ha
  · cases List.mem_singleton.mp hc
    exact ⟨Nat.zero_le _, fun pos _ => (himage 0 pos).symm⟩

theorem Closed.onRoot {sha : Bytes → Digest} {page : Option Bytes} (h : s.Closed)
    (hp : s.phase = .root) (hb : ∀ b, page = some b → body (sha b) = b) :
    (s.acked.onRoot sha page).Inv body N := by
  have hinv : s.acked.Inv body N :=
    h.acked.inv (fun he => absurd (hp.symm.trans he) nofun) fun he => absurd (hp.symm.trans he) nofun
  unfold BlockVolume.onRoot
  cases page with
  | none => exact hinv.failWith _
  | some b =>
    dsimp only
    split
    · exact hinv.failWith _
    next hsha =>
    have hsha' : sha b = s.acked.rootDigest := not_not.mp hsha
    cases hdec : decodeRoot b with
    | none => exact hinv.failWith _
    | some root =>
      dsimp only
      split
      · exact hinv.failWith _
      next hok =>
      split
      · exact hinv.failWith _
      next hcount =>
      push Not at hok
      exact (h.acked.opened (hsha' ▸ hb b rfl) hdec hok.2.1 hok.2.2 hcount rfl).inv

/-! ## An answer of the node -/

/-- The answer of the exchange in flight is true: the bytes of a digest are
those it names, and a body that is stored is named by its digest. -/
def AckTrue (body : Digest → Bytes) (sha : Bytes → Digest) (s : BlockVolume) (a : AdminAck) : Prop :=
  (∀ b ∈ gotBody a, body (sha b) = b) ∧ ∀ b ∈ putBody s.io, PutTrue body b a

instance (body : Digest → Bytes) (sha : Bytes → Digest) (s : BlockVolume) (a : AdminAck) :
    Decidable (AckTrue body sha s a) := by
  unfold AckTrue
  infer_instance

/-- The end of an exchange that fetches no extent and puts no bodies. -/
theorem Sound.acked (h : s.Sound body N) (hne : s.job ≠ .extent) (hb : s.job ≠ .putBodies) :
    s.acked.Sound body N :=
  ⟨h.1.acked hne hb, h.2.1.of_parts rfl rfl rfl, h.2.2⟩

theorem Sound.failWith (h : s.Sound body N) (err : VolErrno) : (s.failWith err).Inv body N :=
  h.told.failWith err

/-- **What the node says of a commit keeps the device.** -/
theorem Sound.onVolume {t : ℕ} {a : AdminAck} (h : s.Sound body N)
    (hj : s.job = .begin ∧ s.commit = .begin ∨ s.job = .commit ∧ s.commit = .commit ∨
      s.job = .abort ∧ s.commit = .abort) : (s.acked.onVolume N t s.job a).Inv body N := by
  have hjob : s.job ≠ .extent ∧ s.job ≠ .putBodies := by
    obtain ⟨hj, -⟩ | ⟨hj, -⟩ | ⟨hj, -⟩ := hj <;> rw [hj] <;> exact ⟨nofun, nofun⟩
  have hs := h.acked hjob.1 hjob.2
  have hgive : s.acked.giveUp.Inv body N := (hs.giveUp nofun rfl).inv
  unfold BlockVolume.onVolume
  split
  swap
  · exact hs.failWith _
  split
  next hb =>
    obtain ⟨-, hc⟩ | ⟨hj, -⟩ | ⟨hj, -⟩ := hj
    · exact (hs.beginCommit hc rfl).inv
    · exact absurd (hb.symm.trans hj) nofun
    · exact absurd (hb.symm.trans hj) nofun
  · split
    · exact hgive
    · exact hs.inv.of_core rfl rfl
  · exact hs.failWith _
  · exact hgive
  next hb =>
    obtain ⟨hj, -⟩ | ⟨-, hc⟩ | ⟨hj, -⟩ := hj
    · exact absurd (hb.symm.trans hj) nofun
    · exact (hs.applyCommit hc rfl).inv
    · exact absurd (hb.symm.trans hj) nofun
  · exact hs.failWith _
  · exact hgive

theorem Sound.onLease (h : s.Sound body N) (t : ℕ) (status : AdminStatus) (fence : UInt64) :
    (s.onLease t .renew status fence).Inv body N := by
  unfold BlockVolume.onLease
  cases status with
  | ok =>
    dsimp only
    split
    · exact h.inv.of_core rfl rfl
    · exact h.failWith _
  | busy => exact h.inv
  | _ => exact h.failWith _

/-- **An answer keeps a device that is ready.** -/
theorem Sound.onAck {sha : Bytes → Digest} {t : ℕ} {a : AdminAck} (h : s.Sound body N)
    (hne : s.job ≠ .none ∧ s.job ≠ .putBodies) (ha : AckTrue body sha s a) :
    (s.onAck N sha t a).Inv body N := by
  have hfits := h.1.job
  have hinv : (s.acked.failWith .eio).Inv body N := h.told.acked.failWith _
  have hs (hx : s.job ≠ .extent) : s.acked.Sound body N := h.acked hx hne.2
  unfold BlockVolume.onAck
  split
  · exact hinv
  dsimp only
  unfold JobFits at hfits
  cases hj : s.job with
  | none => exact absurd hj hne.1
  | putBodies => exact absurd hj hne.2
  | acquire | lookup | root =>
    rw [hj] at hfits
    exact hfits.elim
  | renew =>
    have hr := hs (by rw [hj]; nofun)
    dsimp only
    split
    · exact hr.onLease _ _ _
    · exact hinv
  | leaf =>
    rw [hj] at hfits
    exact (hs (by rw [hj]; nofun)).onLeaf hfits.2 ha.1
  | extent => exact h.onExtent hj ha.1
  | «begin» =>
    rw [hj] at hfits
    have := h.onVolume (t := t) (a := a) (.inl ⟨hj, hfits⟩)
    rwa [hj] at this
  | commit =>
    rw [hj] at hfits
    have := h.onVolume (t := t) (a := a) (.inr (.inl ⟨hj, hfits⟩))
    rwa [hj] at this
  | abort =>
    rw [hj] at hfits
    have := h.onVolume (t := t) (a := a) (.inr (.inr ⟨hj, hfits⟩))
    rwa [hj] at this
  | putLeaf =>
    rw [hj] at hfits
    have := Names.onPut ⟨h, hfits⟩ hj ha.2
    rw [hj] at this
    exact this.inv
  | putRoot =>
    rw [hj] at hfits
    have := h.onPutRoot hfits hj ha.2
    rw [hj] at this
    exact this.inv
  | release => exact (hs (by rw [hj]; nofun)).withFlags.inv

/-- An answer keeps a device that is being opened. -/
theorem Closed.onAck {sha : Bytes → Digest} {t : ℕ} {a : AdminAck} (h : s.Closed)
    (hr : s.phase ≠ .ready) (hf : s.phase ≠ .failed) (hne : s.job ≠ .none)
    (ha : AckTrue body sha s a) : (s.onAck N sha t a).Inv body N := by
  have hinv : (s.acked.failWith .eio).Inv body N :=
    (h.inv (N := N) hr hf).told.acked.failWith _
  unfold BlockVolume.onAck
  split
  · exact hinv
  dsimp only
  obtain hj | ⟨hp, hj⟩ | ⟨hp, hj⟩ | ⟨hp, hj⟩ := h.job
  · exact absurd hj hne
  · rw [hj]
    dsimp only
    split
    · exact h.onLease hp _ _ _
    · exact hinv
  · rw [hj]
    dsimp only
    split
    · exact h.onLookup hp _ _
    · exact hinv
  · rw [hj]
    exact h.onRoot hp ha.1

/-! ## The schedule -/

theorem Sound.schedule {t : ℕ} (h : s.Sound body N) (hj : s.job = .none) :
    (s.schedule N t).Sound body N := by
  unfold BlockVolume.schedule
  split
  next hp => exact absurd (h.2.2.symm.trans hp) nofun
  next hp => exact absurd (h.2.2.symm.trans hp) nofun
  next hp => exact absurd (h.2.2.symm.trans hp) nofun
  swap
  next hp => exact absurd (h.2.2.symm.trans hp) nofun
  split
  · exact h.issue hj nofun nofun nofun trivial
  split
  · exact h.commitNext hj
  next hc =>
  have hidle : s.commit = .idle := not_not.mp hc
  split
  · exact h.issue hj nofun nofun nofun hidle
  split
  · split
    · -- a commit starts
      have hw : ({ s with
          work.commit := .begin
          exchange.beginSince := t
          exchange.retryAt := 0 } : BlockVolume).Sound body N := by
        refine h.withWork (by rw [hj]; nofun) ?_ (.of_none hj)
        exact .of_not_fixed (fun hf => hf.2 rfl) (.of_none hj) (h.1.quiet hidle)
      exact hw.commitNext hj
    · exact Sound.fetchNext h.withFlags hj hidle
  · exact h.fetchNext hj hidle

/-- The exchange of a device that is being opened. -/
theorem Closed.schedule {t : ℕ} (h : s.Closed) (hr : s.phase ≠ .ready) (hf : s.phase ≠ .failed) :
    (s.schedule N t).Inv body N := by
  unfold BlockVolume.schedule
  cases hp : s.phase with
  | ready => exact absurd hp hr
  | failed => exact absurd hp hf
  | lease =>
    dsimp only
    split
    · exact h.inv hr hf
    exact Closed.inv ⟨h.slots, h.leaves, h.hist, h.pending, h.commit, h.staged, h.gens,
      .inr (.inl ⟨hp, rfl⟩)⟩ hr hf
  | lookup =>
    exact Closed.inv ⟨h.slots, h.leaves, h.hist, h.pending, h.commit, h.staged, h.gens,
      .inr (.inr (.inl ⟨hp, rfl⟩))⟩ hr hf
  | root =>
    exact Closed.inv ⟨h.slots, h.leaves, h.hist, h.pending, h.commit, h.staged, h.gens,
      .inr (.inr (.inr ⟨hp, rfl⟩))⟩ hr hf

/-! ## A device that has failed -/

/-- A completion that nobody waits on a commit for. -/
theorem Ledger.noteAnswer {p : BlockPending} {c : BlockCpl} (h : s.Ledger body)
    (ha : s.AnswerInv body ⟨p.req, p.since, s.hist.writes.length, c⟩) :
    (s.noteAnswer p c).Ledger body := by
  refine ⟨fun a hmem => ?_, h.landed⟩
  obtain hmem | hmem := List.mem_append.mp hmem
  · exact ⟨(h.answers a hmem).since, (h.answers a hmem).seen, (h.answers a hmem).read,
      (h.answers a hmem).wrote, (h.answers a hmem).fence, (h.answers a hmem).preflush,
      (h.answers a hmem).sync⟩
  · cases List.mem_singleton.mp hmem
    exact ⟨ha.since, ha.seen, ha.read, ha.wrote, ha.fence, ha.preflush, ha.sync⟩

theorem run_of_failed {p : BlockPending} (hf : s.phase = .failed) :
    s.run N p = ({ s with flags.told := true }, p, some (bare p.req s.fail)) :=
  if_pos hf

/-- **A device that has failed answers with why.** -/
theorem Dead.serve {i : ℕ} (h : s.Dead) (hl : s.Ledger body) (hf : s.phase = .failed) :
    (s.serve N i).Inv body N := by
  have hinv : s.Inv body N :=
    ⟨hl, fun hr => absurd (hf.symm.trans hr) nofun, fun _ hn => absurd hf hn, fun _ => h⟩
  unfold BlockVolume.serve
  cases hp : s.pending i with
  | none => exact hinv
  | some p =>
    obtain ⟨err, herr⟩ := h.fail
    have hrun : s.run N p = ({ s with flags.told := true }, p, some (bare p.req (some err))) := by
      rw [run_of_failed hf, herr]
    dsimp only
    rw [hrun]
    dsimp only
    refine Inv.of_core ?_ pushDone_core ?_
    · refine ⟨.noteAnswer (hl.of_parts rfl rfl rfl) ?_, fun hr => absurd (hf.symm.trans hr) nofun,
        fun _ hn => absurd hf hn, fun _ => ⟨h.fail, h.slots, fun j q hq => ?_⟩⟩
      · exact .bare (h.pend i p hp) (Nat.le_refl _)
      · obtain hq | hq := put_cases hq
        · cases hq
        · exact h.pend j q hq
    · unfold pushDone
      split
      · rfl
      · rfl

/-! ## A step -/

/-- What a client may ask for is inside the device, and no longer than the
device says it takes. -/
def AdmitsInDevice (admits : BlockCaps → BlockReq → Bool) : Prop :=
  ∀ c r, admits c r = true → r.op = .read ∨ r.op = .write →
    r.lba * c.logicalBlockSize + r.len ≤ c.blockCount * c.logicalBlockSize ∧
      r.len ≤ c.maxBlocks * c.logicalBlockSize

/-- The node's answers are true. -/
def StepTrue (body : Digest → Bytes) (sha : Bytes → Digest) (s : BlockVolume) : VolEvent → Prop
  | .ack _ a => AckTrue body sha s a
  | .bodyAck _ k a => ∀ e ∈ s.pipe[k]?, PutTrue body e.body a
  | _ => True

instance (body : Digest → Bytes) (sha : Bytes → Digest) (s : BlockVolume) (e : VolEvent) :
    Decidable (StepTrue body sha s e) := by
  unfold StepTrue
  split
  · infer_instance
  · infer_instance
  · infer_instance

/-- No whole extent is staged while its fetch is outstanding. -/
def StepRaceFree (admits : BlockCaps → BlockReq → Bool) (N : ℕ) (s : BlockVolume) : VolEvent → Prop
  | .serve i => s.phase = .ready → ∀ p ∈ s.pending i, s.RaceFree N p
  | .exec r | .submit r => s.admitted admits r → s.RaceFree N (s.made r)
  | _ => True

instance (admits : BlockCaps → BlockReq → Bool) (N : ℕ) (s : BlockVolume) (e : VolEvent) :
    Decidable (StepRaceFree admits N s e) := by
  unfold StepRaceFree
  split
  · infer_instance
  · infer_instance
  · infer_instance
  · infer_instance

section Steps

variable {admits : BlockCaps → BlockReq → Bool} {sha : Bytes → Digest}

/-- A request that is let in is about the device. -/
theorem Geometry.inDevice (geo : s.Geometry) (hadm : AdmitsInDevice admits) {r : BlockReq}
    (h : admits s.caps r = true) : s.InDevice r := by
  intro hop
  obtain ⟨hend, hlen⟩ := hadm s.caps r h hop
  have hblocks : s.blockCount * s.blockSize ≤ s.sizeBytes := by
    rw [geo.blocks]
    exact Nat.div_mul_le_self _ _
  have hmax : max (s.extentSize / s.blockSize) 1 * s.blockSize ≤ s.extentSize := by
    rw [Nat.max_eq_left (Nat.div_pos geo.block.2 geo.block.1)]
    exact Nat.div_mul_le_self _ _
  exact ⟨hend.trans hblocks, hlen.trans hmax⟩

theorem Inv.sends (h : s.Inv body N) (hs : s.sending) : s.Sends body N := by
  have hp : s.phase = .ready := by
    by_contra hr
    obtain hj | ⟨-, hj⟩ | ⟨-, hj⟩ | ⟨-, hj⟩ := (h.closed hr hs.1).job
    · exact absurd (hj.symm.trans hs.2) nofun
    · exact absurd (hj.symm.trans hs.2) nofun
    · exact absurd (hj.symm.trans hs.2) nofun
    · exact absurd (hj.symm.trans hs.2) nofun
  have hsound := h.sound hp
  exact ⟨hsound, hsound.1.job.putBodies hs.2, hs.2⟩

/-- A piece of the module's step keeps the device. -/
theorem Inv.tick {e : VolEvent} (h : s.Inv body N) (ht : StepTrue body sha s e)
    (hr : StepRaceFree admits N s e) : (s.tick sha N e).Inv body N := by
  unfold BlockVolume.tick
  split
  · split
    · split
      · exact h.failWith _
      · exact h
    · exact h
  · exact h.failWith _
  · split
    · exact h.of_core rfl rfl
    · exact h
  · split
    next haw =>
      obtain ⟨⟨hf, hne⟩, -⟩ := haw
      by_cases hp : s.phase = .ready
      · exact (h.sound hp).onAck hne ht
      · exact (h.closed hp hf).onAck hp hf hne.1 ht
    · exact h
  · split
    · unfold timeoutCheck
      split
      · exact h.failWith _
      · exact h
    · exact h
  · split
    next hs => exact (h.sends hs).bodiesSend.1.inv
    · exact h
  · split
    next hs => exact (h.sends hs).bodiesAck ht
    · exact h
  · split
    next hs => exact (h.sends hs).bodiesEnd
    · exact h
  · split
    · unfold leaseGuard
      split
      · exact h.failWith _
      · exact h
    · exact h
  · split
    next hq =>
      obtain ⟨-, hp | hp⟩ := hq
      · exact ((h.sound hp).serve (hr hp)).inv
      · exact (h.dead hp).serve h.ledger hp
    · exact h
  · split
    next hq =>
      by_cases hp : s.phase = .ready
      · exact ((h.sound hp).schedule hq.2).inv
      · exact (h.closed hp hq.1).schedule hp hq.1
    · exact h
  · exact h

/-- **Every event keeps the device**, when the node's answers are true and no
whole extent is staged while it is being fetched. -/
theorem Inv.step {e : VolEvent} (hadm : AdmitsInDevice admits) (h : s.Inv body N)
    (he : StepTrue body sha s e ∧ StepRaceFree admits N s e) : (s.step admits sha N e).Inv body N := by
  obtain ⟨ht, hr⟩ := he
  have htick : (if s.reportsDrained then s else s.tick sha N e).Inv body N := by
    split
    · exact h
    · exact h.tick ht hr
  unfold BlockVolume.step
  split
  · split
    next ha =>
      have hs := h.sound ha.2.1
      exact (hs.exec (hs.1.geo.inDevice hadm ha.2.2) (hr ha)).inv
    · exact h.turnAway
  · split
    next ha =>
      have hs := h.sound ha.2.1
      exact (hs.submit (hs.1.geo.inDevice hadm ha.2.2) (hr ha)).inv
    · exact h.turnAway
  · exact h.of_core rfl rfl
  · exact h.of_core rfl rfl
  · exact h.tick ht hr
  · exact htick

/-- **What a device keeps holds in every run**, from a new device. -/
theorem Inv.run (hadm : AdmitsInDevice admits) {es : List VolEvent} (h : s.Inv body N)
    (hall : Run.AllSteps (BlockVolume.step admits sha N)
      (fun s e => StepTrue body sha s e ∧ StepRaceFree admits N s e) s es) :
    (Run.run (BlockVolume.step admits sha N) s es).Inv body N :=
  Run.invariant (fun _ _ hi he => hi.step hadm he) h hall

end Steps

end BlockVolume

end Loam

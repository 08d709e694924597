import Loam.BlockStaging
import Mathlib.Data.List.TakeWhile

/-!
# The requests of a block device

A request that runs keeps the device's invariant. What it is told when it
completes is true of the image and of the roots that landed, and stays true
while the writes and the roots only grow.
-/

namespace Loam

open CellStore

namespace BlockVolume

variable {body : Digest → Bytes} {N : ℕ} {s s' : BlockVolume} {r : BlockReq} {n : ℕ}

/-! ## Growth -/

/-- The writes and the roots of a device only grow. -/
structure Grows (s s' : BlockVolume) : Prop where
  block : s'.blockSize = s.blockSize
  size : s'.sizeBytes = s.sizeBytes
  extent : s'.extentSize = s.extentSize
  writes : ∃ ws, s'.hist.writes = s.hist.writes ++ ws
  landed : ∃ cs, s'.hist.landed = cs ++ s.hist.landed
  opened : s.hist.landed ≠ []

theorem Grows.origin (h : Grows s s') : s'.origin = s.origin := by
  obtain ⟨cs, hcs⟩ := h.landed
  unfold BlockVolume.origin
  rw [hcs, List.getLast?_append_of_ne_nil _ h.opened]

theorem Grows.length_le (h : Grows s s') : s.hist.writes.length ≤ s'.hist.writes.length := by
  obtain ⟨ws, hws⟩ := h.writes
  rw [hws, List.length_append]
  exact Nat.le_add_right _ _

theorem Grows.take (h : Grows s s') (hn : n ≤ s.hist.writes.length) :
    s'.hist.writes.take n = s.hist.writes.take n := by
  obtain ⟨ws, hws⟩ := h.writes
  rw [hws, List.take_append_of_le_length hn]

theorem Grows.image (h : Grows s s') (hn : n ≤ s.hist.writes.length) (pos : ℕ) :
    s'.image body n pos = s.image body n pos := by
  unfold BlockVolume.image
  rw [h.origin, h.block, h.take hn]

theorem MapsTo.grows (h : Grows s s') (hn : n ≤ s.hist.writes.length) {root : Digest}
    (hm : s.MapsTo body root n) : s'.MapsTo body root n := fun pos hpos =>
  (hm pos (h.size ▸ hpos)).trans (h.image hn pos).symm

theorem mem_landed_of_grows (h : Grows s s') {c : LandedRoot} (hc : c ∈ s.hist.landed) :
    c ∈ s'.hist.landed := by
  obtain ⟨cs, hcs⟩ := h.landed
  rw [hcs]
  exact List.mem_append_right cs hc

theorem Covered.grows (h : Grows s s') (hc : s.Covered body n) : s'.Covered body n := by
  obtain ⟨c, hmem, m, hnm, hm, hmap⟩ := hc
  exact ⟨c, mem_landed_of_grows h hmem, m, hnm, hm.trans h.length_le, hmap.grows h hm⟩

theorem WroteIn.grows (h : Grows s s') {a b : ℕ} (hw : s.WroteIn r a b) : s'.WroteIn r a b := by
  obtain ⟨k, hak, hkb, hk⟩ := hw
  obtain ⟨ws, hws⟩ := h.writes
  refine ⟨k, hak, hkb, ?_⟩
  have hlt : k < s.hist.writes.length := by
    by_contra hge
    rw [List.getElem?_eq_none (Nat.not_lt.mp hge)] at hk
    cases hk
  rw [hws, List.getElem?_append_left hlt]
  exact hk

theorem WroteIn.mono {a b b' : ℕ} (hw : s.WroteIn r a b) (h : b ≤ b') : s.WroteIn r a b' := by
  obtain ⟨k, hak, hkb, hk⟩ := hw
  exact ⟨k, hak, Nat.lt_of_lt_of_le hkb h, hk⟩

theorem AnswerInv.grows (h : Grows s s') {a : BlockAnswer} (ha : s.AnswerInv body a) :
    s'.AnswerInv body a where
  since := ha.since
  seen := ha.seen.trans h.length_le
  read := fun hst hop j hj => by
    rw [h.block, h.image ha.seen]
    exact ha.read hst hop j hj
  wrote := fun hst hop => (ha.wrote hst hop).grows h
  fence := fun rv hf => by
    obtain ⟨c, hc, hrev, m, hm, hmw, hown, hmap⟩ := ha.fence rv hf
    exact ⟨c, mem_landed_of_grows h hc, hrev, m, hm, hmw.trans h.length_le,
      fun hop => (hown hop).grows h, hmap.grows h hmw⟩
  preflush := fun hst hp hop => (ha.preflush hst hp hop).grows h
  sync := ha.sync

theorem PendInv.grows (h : Grows s s') {p : BlockPending} (hp : s.PendInv body p) :
    s'.PendInv body p where
  inDevice := by
    unfold InDevice
    rw [h.block, h.size, h.extent]
    exact hp.inDevice
  reach := by
    obtain ⟨m, hm, hmw, hgen, hwrote⟩ := hp.reach
    refine ⟨m, hm, hmw.trans h.length_le, ?_, fun hst hop => (hwrote hst hop).grows h⟩
    rw [h.take hmw]
    exact hgen
  preflush := fun hst hpre => (hp.preflush hst hpre).grows h
  op := hp.op

theorem Ledger.grows (h : Grows s s') (hl : s.Ledger body)
    (hans : s'.hist.answers = s.hist.answers) (hland : s'.hist.landed = s.hist.landed) :
    s'.Ledger body where
  answers := fun a ha => (hl.answers a (hans ▸ ha)).grows h
  landed := fun c hc => by
    obtain ⟨hle, hmap⟩ := hl.landed c (hland ▸ hc)
    exact ⟨hle.trans h.length_le, hmap.grows h hle⟩

/-! ## What does not matter -/

section Core

variable (hc : s'.core = s.core)

include hc

theorem core_hist : s'.hist = s.hist := show s'.core.hist = s.core.hist by rw [hc]

theorem core_work : s'.work = s.work := show s'.core.work = s.core.work by rw [hc]

theorem core_queue : s'.queue = s.queue := show s'.core.queue = s.core.queue by rw [hc]

theorem core_phase : s'.phase = s.phase := show s'.core.phase = s.core.phase by rw [hc]

theorem core_staged : s'.staged = s.staged := show s'.core.staged = s.core.staged by rw [hc]

theorem core_job : s'.job = s.job := show s'.core.job = s.core.job by rw [hc]

end Core

theorem Ledger.core_iff : s.core.Ledger body ↔ s.Ledger body :=
  ⟨fun h => ⟨fun a ha => ⟨(h.answers a ha).since, (h.answers a ha).seen, (h.answers a ha).read,
      (h.answers a ha).wrote, (h.answers a ha).fence, (h.answers a ha).preflush,
      (h.answers a ha).sync⟩, h.landed⟩,
    fun h => ⟨fun a ha => ⟨(h.answers a ha).since, (h.answers a ha).seen, (h.answers a ha).read,
      (h.answers a ha).wrote, (h.answers a ha).fence, (h.answers a ha).preflush,
      (h.answers a ha).sync⟩, h.landed⟩⟩

theorem PendInv.core_iff {p : BlockPending} : s.core.PendInv body p ↔ s.PendInv body p :=
  ⟨fun h => ⟨h.inDevice, h.reach, h.preflush, h.op⟩, fun h => ⟨h.inDevice, h.reach, h.preflush, h.op⟩⟩

theorem CommitInv.core_iff : s.core.CommitInv body N ↔ s.CommitInv body N :=
  ⟨fun h => ⟨h.quiet, h.same, h.gen, h.fresh, h.pipe, h.sending, h.stored, h.depth, h.keys, h.reached,
      h.putLeaf, h.all, h.putRoot, h.newRoot⟩,
    fun h => ⟨h.quiet, h.same, h.gen, h.fresh, h.pipe, h.sending, h.stored, h.depth, h.keys, h.reached,
      h.putLeaf, h.all, h.putRoot, h.newRoot⟩⟩

theorem Live.core_iff : s.core.Live body N ↔ s.Live body N :=
  ⟨fun h => ⟨⟨h.geo.depth, h.geo.covers, h.geo.fits, h.geo.extents, h.geo.blocks, h.geo.block,
      h.geo.cap⟩, ⟨h.map.root, h.map.leaves⟩, SlotsInv.core_iff.mp h.slots, h.room,
      ⟨h.gens.sorted, h.gens.le, h.gens.durable, h.gens.covered, h.gens.head⟩,
      fun i p hp => PendInv.core_iff.mp (h.pend i p hp), CommitInv.core_iff.mp h.commit, h.job⟩,
    fun h => ⟨⟨h.geo.depth, h.geo.covers, h.geo.fits, h.geo.extents, h.geo.blocks, h.geo.block,
      h.geo.cap⟩, ⟨h.map.root, h.map.leaves⟩, SlotsInv.core_iff.mpr h.slots, h.room,
      ⟨h.gens.sorted, h.gens.le, h.gens.durable, h.gens.covered, h.gens.head⟩,
      fun i p hp => PendInv.core_iff.mpr (h.pend i p hp), CommitInv.core_iff.mpr h.commit, h.job⟩⟩

theorem Live.of_core (hc : s'.core = s.core) (h : s.Live body N) : s'.Live body N :=
  Live.core_iff.mp (hc ▸ Live.core_iff.mpr h)

theorem Ledger.of_core (hc : s'.core = s.core) (h : s.Ledger body) : s'.Ledger body :=
  Ledger.core_iff.mp (hc ▸ Ledger.core_iff.mpr h)

theorem PendInv.of_core (hc : s'.core = s.core) {p : BlockPending} (h : s.PendInv body p) :
    s'.PendInv body p :=
  PendInv.core_iff.mp (hc ▸ PendInv.core_iff.mpr h)

/-! ## A write -/

theorem coveredCount_le : s.coveredCount ≤ s.hist.writes.length :=
  (List.takeWhile_prefix _).length_le

/-- What an append of a write adds to the image. -/
theorem image_append (body : Digest → Bytes) {g : ℕ} (hw : s'.hist.writes = s.hist.writes ++ [⟨r, g⟩])
    (ho : s'.origin = s.origin) (hb : s'.blockSize = s.blockSize) (pos : ℕ) :
    s'.now body pos = s.withReq r (s.now body) pos := by
  unfold now image withReq
  rw [hw, ho, hb, List.length_append, List.take_of_length_le (Nat.le_of_eq List.length_append),
    List.map_append, List.map_singleton, valueAt_append_singleton,
    List.take_of_length_le (Nat.le_refl _)]

theorem CommitInv.of_idle (hi : s.commit = .idle) (hj : s.JobFits)
    (hq : ∀ i < N, (s.slots i).committing = false) : s.CommitInv body N where
  quiet := fun _ => hq
  same := fun h => absurd hi h.1
  gen := fun h => absurd hi h.1
  fresh := fun h => by rw [hi] at h; cases h
  pipe := fun h => by rw [hi] at h; cases h
  sending := fun h => by rw [hi] at h; cases h
  stored := fun h => by unfold Stored at h; rw [hi] at h; simp at h
  depth := fun h => by rw [hi] at h; cases h
  keys := fun h => by unfold Stored at h; rw [hi] at h; simp at h
  reached := fun h => by rw [hi] at h; cases h
  putLeaf := fun h => by
    unfold JobFits at hj
    rw [h] at hj
    exact absurd (hi.symm.trans hj) nofun
  all := fun h => by rw [hi] at h; simp at h
  putRoot := fun h => by
    unfold JobFits at hj
    rw [h] at hj
    exact absurd (hi.symm.trans hj) nofun
  newRoot := fun h => by rw [hi] at h; cases h

theorem Live.quiet (h : s.Live body N) (hi : s.commit = .idle) :
    ∀ i < N, (s.slots i).committing = false :=
  h.commit.quiet fun hf => hf.1 hi

theorem Live.landed_ne_nil (h : s.Live body N) : s.hist.landed ≠ [] := by
  obtain ⟨n, cs, hcs⟩ := h.gens.head
  rw [hcs]
  exact List.cons_ne_nil _ _

section Write

variable (h : s.Live body N) (hw : Written body N s r (s.now body) s')

include h hw

theorem Written.grows : Grows s s' where
  block := by rw [hw.only]
  size := by rw [hw.only]
  extent := by rw [hw.only]
  writes := ⟨_, by rw [hw.only]⟩
  landed := ⟨[], by rw [hw.only]; rfl⟩
  opened := h.landed_ne_nil

/-- **A staged write keeps the device.** -/
theorem Written.live (hfits : s.writeFits N r) : s'.Live body N := by
  have hg := hw.grows h
  have hwrites : s'.hist.writes = s.hist.writes ++ [⟨r, s'.writeGen⟩] := by rw [hw.only]
  have hview : s'.view = s.view := by rw [hw.only]
  have hparams : s'.params = s.params := by rw [hw.only]
  have hexch : s'.exchange = s.exchange := by rw [hw.only]
  have hwork : s'.work = s.work := by rw [hw.only]
  have hleaf : s'.leafTable = s.leafTable := by rw [hw.only]
  have hdur : s'.durableGen = s.durableGen := by rw [hw.only]
  have hpend : s'.pending = s.pending := by rw [hw.only]
  have hland : s'.hist.landed = s.hist.landed := by rw [hw.only]
  have hnow := image_append body hwrites hg.origin hg.block
  have hgen : s.writeGen ≤ s'.writeGen := by
    obtain hge | ⟨hge, -⟩ := hw.gen
    · rw [hge]
      exact Nat.le_succ _
    · exact Nat.le_of_eq hge.symm
  have hcommitted (idx : ℕ) : s'.committed body idx = s.committed body idx := by
    unfold committed BlockVolume.sizeBytes BlockVolume.extentSize BlockVolume.depth
      BlockVolume.children
    rw [hview]
  have hcimage (pos : ℕ) : s'.committedImage body pos = s.committedImage body pos := by
    unfold committedImage BlockVolume.extentSize
    rw [hview]
    exact congrArg (fun f => imageOf body s.view.extentSize f pos) (funext hcommitted)
  have hjob : s'.JobFits := by
    have hj := h.job
    unfold JobFits BlockVolume.job BlockVolume.commit BlockVolume.children BlockVolume.jobChild at hj ⊢
    rw [hexch, hwork, hview]
    exact hj
  refine ⟨?_, ?_, ?_, ?_, ?_, ?_, ?_, hjob⟩
  · obtain ⟨h1, h2, h3, h4, h5, h6, h7⟩ := h.geo
    constructor
    all_goals
      unfold BlockVolume.sizeBytes BlockVolume.extentSize BlockVolume.depth BlockVolume.childrenCount
        BlockVolume.extentCount BlockVolume.blockCount BlockVolume.blockSize at *
    · rw [hview]; exact h1
    · rw [hview]; exact h2
    · rw [hview]; exact h3
    · rw [hview]; exact h4
    · rw [hview, hparams]; exact h5
    · rw [hview, hparams]; exact h6
    · rw [hview]; exact h7
  · refine ⟨fun pos hpos => ?_, ?_⟩
    · rw [hcimage]
      unfold BlockVolume.rootDigest
      rw [hview]
      exact h.map.root pos (hg.size ▸ hpos)
    · have hl := h.map.leaves
      unfold BlockVolume.leaves BlockVolume.leafData leafLen BlockVolume.extentCount
        BlockVolume.children BlockVolume.sizeBytes BlockVolume.extentSize BlockVolume.depth at hl ⊢
      rw [hview, hleaf]
      exact hl
  · exact hw.slots.congr fun idx _ j _ => (hnow _).symm
  · rw [hw.staged]
    exact hfits.2.2.1
  · obtain ⟨hsorted, hle, hdurable, hcov, hhead⟩ := h.gens
    refine ⟨?_, ?_, ?_, ?_, ?_⟩
    · rw [hwrites]
      refine List.pairwise_append.mpr ⟨hsorted, List.pairwise_singleton _ _, fun a ha b hb => ?_⟩
      cases List.mem_singleton.mp hb
      exact (hle a ha).trans hgen
    · intro w hmem
      rw [hwrites] at hmem
      obtain hmem | hmem := List.mem_append.mp hmem
      · exact (hle w hmem).trans hgen
      · cases List.mem_singleton.mp hmem
        exact Nat.le_refl _
    · rw [hdur]
      exact hdurable.trans hgen
    · intro pos hpos
      rw [hcimage, hcov pos (hg.size ▸ hpos)]
      by_cases hge : s'.writeGen ≤ s.durableGen
      · -- nothing changed, and everything before is durable
        have hall : s.coveredCount = s.hist.writes.length := by
          unfold coveredCount
          rw [List.takeWhile_eq_self_iff.mpr fun w hmem =>
            decide_eq_true ((hle w hmem).trans (hgen.trans hge))]
        have hall' : s'.coveredCount = s'.hist.writes.length := by
          unfold coveredCount
          rw [hwrites, hdur, List.takeWhile_eq_self_iff.mpr fun w hmem => ?_]
          obtain hmem | hmem := List.mem_append.mp hmem
          · exact decide_eq_true ((hle w hmem).trans (hgen.trans hge))
          · cases List.mem_singleton.mp hmem
            exact decide_eq_true hge
        rw [hall, hall']
        show s.now body pos = s'.now body pos
        rw [hnow]
        obtain hup | ⟨-, hsame⟩ := hw.gen
        · omega
        · exact (hsame pos (hg.size ▸ hpos)).symm
      · have hcount : s'.coveredCount = s.coveredCount := by
          unfold coveredCount
          rw [hwrites, hdur]
          congr 1
          induction s.hist.writes with
          | nil => exact List.takeWhile_cons_of_neg (by simpa using Nat.not_le.mp hge)
          | cons w ws ih =>
            rw [List.cons_append, List.takeWhile_cons, List.takeWhile_cons, ih]
        rw [hcount]
        exact (hg.image coveredCount_le pos).symm
    · unfold BlockVolume.revision BlockVolume.rootDigest
      rw [hland, hview]
      exact hhead
  · intro i p hp
    rw [hpend] at hp
    exact (h.pend i p hp).grows hg
  · refine .of_idle ?_ hjob hw.quiet
    unfold BlockVolume.commit
    rw [hwork]
    exact hfits.1

theorem Written.ledger (hl : s.Ledger body) : s'.Ledger body :=
  hl.grows (hw.grows h) (by rw [hw.only]) (by rw [hw.only])

omit h in
/-- The write is the last of those staged. -/
theorem Written.wroteIn : s'.WroteIn r s.hist.writes.length s'.hist.writes.length := by
  have hwrites : s'.hist.writes = s.hist.writes ++ [⟨r, s'.writeGen⟩] := by rw [hw.only]
  refine ⟨s.hist.writes.length, Nat.le_refl _, ?_, ?_⟩
  · rw [hwrites, List.length_append]
    exact Nat.lt_succ_self _
  · rw [hwrites, List.getElem?_append_right (Nat.le_refl _), Nat.sub_self]
    rfl

end Write

/-! ## A read -/

theorem findExtent_core (hc : s'.core = s.core) (idx : ℕ) : s'.findExtent N idx = s.findExtent N idx :=
  show s'.core.findExtent N idx = s.core.findExtent N idx by rw [hc]

theorem ext_core (hc : s'.core = s.core) : s'.ext = s.ext :=
  show s'.core.ext = s.core.ext by rw [hc]

variable {img : ℕ → UInt8}

/-- The parts of a read, one after another. -/
theorem foldl_copyOut (h : s.SlotsInv body N img) {sp : List BlockSpan}
    (hsp : ∀ p ∈ sp, s.SpanFits r p ∧ (s.findExtent N p.idx).isSome = true) :
    (sp.foldl (copyOut N) (s, r.buf)).1.core = s.core ∧
      (sp.foldl (copyOut N) (s, r.buf)).1.flags = s.flags ∧
      ∀ j, (∃ p ∈ sp, p.off ≤ j ∧ j < p.off + p.take) →
        (sp.foldl (copyOut N) (s, r.buf)).2 j = img (r.lba * s.blockSize + j) := by
  induction sp using List.reverseRecOn with
  | nil => exact ⟨rfl, rfl, fun j ⟨p, hp, _⟩ => absurd hp List.not_mem_nil⟩
  | append_singleton sp q ih =>
    obtain ⟨hcore, hflags, hbuf⟩ := ih fun p hp => hsp p (List.mem_append_left [q] hp)
    rw [List.foldl_append, List.foldl_cons, List.foldl_nil]
    generalize sp.foldl (copyOut N) (s, r.buf) = st at hcore hflags hbuf ⊢
    obtain ⟨hfit, hres⟩ := hsp q (List.mem_append_right sp List.mem_cons_self)
    obtain ⟨i, hi⟩ := Option.isSome_iff_exists.mp hres
    obtain ⟨hiN, hr, hidx⟩ := findExtent_eq_some hi
    unfold copyOut
    rw [findExtent_core hcore, hi]
    refine ⟨touch_core.trans hcore, hflags, fun j hj => ?_⟩
    show patch st.2 q.off q.take (fun k => st.1.ext i (q.inExt + k)) j = _
    by_cases hin : q.off ≤ j ∧ j < q.off + q.take
    · rw [patch_of_mem hin, ext_core hcore]
      have hw := hfit.within
      have hheld := h.holds i hiN hr (q.inExt + (j - q.off)) (by rw [hidx]; omega)
      refine hheld.trans (congrArg img ?_)
      rw [hidx]
      have := hfit.start
      omega
    · rw [patch_of_not_mem hin]
      refine hbuf j ?_
      obtain ⟨p, hp, hpj⟩ := hj
      obtain hp | hp := List.mem_append.mp hp
      · exact ⟨p, hp, hpj⟩
      · exact absurd (List.mem_singleton.mp hp ▸ hpj) hin

/-- **A read that completes has the image's bytes**; one that does not asks for
what is missing. -/
theorem readNow_spec (h : s.SlotsInv body N img) (geo : s.Geometry) (hop : r.op = .read)
    (hdev : s.InDevice r) :
    (s.readNow N r).1.core = s.core ∧
      (s.readNow N r).1.flags = { s.flags with wants := (s.readNow N r).1.wants } ∧
      ∀ buf, (s.readNow N r).2 = some buf → ∀ j < r.len, buf j = img (r.lba * s.blockSize + j) := by
  obtain ⟨hsp, -, hall⟩ := spans_spec geo (.inl hop) hdev
  unfold readNow
  dsimp only
  split
  · refine ⟨?_, ?_, nofun⟩
    all_goals generalize (s.spans r).filter _ = l
    · induction l using List.reverseRecOn with
      | nil => rfl
      | append_singleton l p ih =>
        rw [List.foldl_append, List.foldl_cons, List.foldl_nil]
        refine Eq.trans ?_ ih
        unfold want
        split
        · rfl
        split
        · rfl
        · rfl
    · induction l using List.reverseRecOn with
      | nil => rfl
      | append_singleton l p ih =>
        rw [List.foldl_append, List.foldl_cons, List.foldl_nil]
        generalize l.foldl _ s = s₁ at ih ⊢
        unfold want
        split
        · exact ih
        split
        · exact congrArg (fun f : VolFlags => { f with wants := s₁.wants ++ [p.idx] }) ih
        · exact ih
  next hmiss =>
  have hres : ∀ p ∈ s.spans r, s.SpanFits r p ∧ (s.findExtent N p.idx).isSome = true := fun p hp => by
    refine ⟨hsp p hp, ?_⟩
    rw [not_not, List.filter_eq_nil_iff] at hmiss
    have := hmiss p hp
    rwa [Bool.not_eq_true, Option.isNone_eq_false_iff] at this
  obtain ⟨hcore, hflags, hbuf⟩ := foldl_copyOut h hres
  refine ⟨hcore, hflags.trans ?_, fun buf hb j hj => ?_⟩
  · show s.flags = { s.flags with wants := ((s.spans r).foldl (copyOut N) (s, r.buf)).1.flags.wants }
    rw [hflags]
  · cases hb
    obtain ⟨p, hp, h1, h2⟩ := hall (r.lba * s.blockSize + j) (Nat.le_add_right _ _)
      (Nat.add_lt_add_left hj _)
    have := (hsp p hp).start
    exact hbuf j ⟨p, hp, by omega, by omega⟩

/-! ## What a request is told -/

/-- What is durable is covered by the root that is bound. -/
theorem Live.covers (h : s.Live body N) {m target : ℕ} (hm : m ≤ s.hist.writes.length)
    (hgen : ∀ w ∈ s.hist.writes.take m, w.gen ≤ target) (hd : target ≤ s.durableGen) :
    m ≤ s.coveredCount ∧ ∃ c ∈ s.hist.landed, c.revision = s.revision ∧
      s.MapsTo body c.root s.coveredCount := by
  refine ⟨?_, ?_⟩
  · have hpre : s.hist.writes.take m <+: s.hist.writes.takeWhile fun w => decide (w.gen ≤ s.durableGen) := by
      have hself : (s.hist.writes.take m).takeWhile (fun w => decide (w.gen ≤ s.durableGen))
          = s.hist.writes.take m :=
        List.takeWhile_eq_self_iff.mpr fun w hw => decide_eq_true ((hgen w hw).trans hd)
      rw [← hself]
      conv_rhs => rw [← List.take_append_drop m s.hist.writes]
      rw [List.takeWhile_append, if_pos (by rw [hself]), hself]
      exact List.prefix_append _ _
    have hlen := hpre.length_le
    rwa [List.length_take, Nat.min_eq_left hm] at hlen
  · obtain ⟨n, cs, hcs⟩ := h.gens.head
    refine ⟨_, hcs ▸ List.mem_cons_self, rfl, fun pos hpos => ?_⟩
    exact (h.map.root pos hpos).trans (h.gens.covered pos hpos)

/-- A request that fails is told nothing. -/
theorem AnswerInv.bare {a b : ℕ} {err : VolErrno} (hab : a ≤ b) (hb : b ≤ s.hist.writes.length) :
    s.AnswerInv body ⟨r, a, b, BlockVolume.bare r (some err)⟩ :=
  ⟨hab, hb, nofun, nofun, nofun, nofun, nofun⟩

/-- What running a request comes to. -/
structure RunSpec (body : Digest → Bytes) (N : ℕ) (s : BlockVolume) (p : BlockPending)
    (out : BlockVolume × BlockPending × Option BlockCpl) : Prop where
  live : out.1.Live body N
  ledger : out.1.Ledger body
  grows : Grows s out.1
  request : out.2.1.req = p.req ∧ out.2.1.since = p.since
  pending : out.1.pending = s.pending
  phase : out.1.phase = s.phase
  wait : out.2.2 = none → out.1.PendInv body out.2.1
  done : ∀ c, out.2.2 = some c →
    out.1.AnswerInv body ⟨p.req, p.since, out.1.hist.writes.length, c⟩

theorem Live.grows_of_core (h : s.Live body N) (hc : s'.core = s.core) : Grows s s' where
  block := show s'.core.blockSize = s.core.blockSize by rw [hc]
  size := show s'.core.sizeBytes = s.core.sizeBytes by rw [hc]
  extent := show s'.core.extentSize = s.core.extentSize by rw [hc]
  writes := ⟨[], by rw [core_hist hc, List.append_nil]⟩
  landed := ⟨[], by rw [core_hist hc]; rfl⟩
  opened := h.landed_ne_nil

variable {p p' : BlockPending}

theorem PendInv.since_le (hp : s.PendInv body p) : p.since ≤ s.hist.writes.length := by
  obtain ⟨m, hm, hmw, -⟩ := hp.reach
  exact hm.trans hmw

/-- A request that leaves the device as it is. -/
theorem RunSpec.of_core {out : BlockVolume × BlockPending × Option BlockCpl} (h : s.Live body N)
    (hl : s.Ledger body) (hc : out.1.core = s.core)
    (hreq : out.2.1.req = p.req ∧ out.2.1.since = p.since)
    (hwait : out.2.2 = none → s.PendInv body out.2.1)
    (hdone : ∀ c, out.2.2 = some c → s.AnswerInv body ⟨p.req, p.since, s.hist.writes.length, c⟩) :
    RunSpec body N s p out where
  live := h.of_core hc
  ledger := hl.of_core hc
  grows := h.grows_of_core hc
  request := hreq
  pending := by
    unfold BlockVolume.pending
    rw [core_queue hc]
  phase := core_phase hc
  wait := fun hn => (hwait hn).of_core hc
  done := fun c hcc => by
    rw [core_hist hc]
    exact (hdone c hcc).grows (h.grows_of_core hc)

theorem commitWait_spec (s : BlockVolume) (r : BlockReq) :
    (s.commitWait r).1.core = s.core ∧
      ∀ c, (s.commitWait r).2 = some c → c = BlockVolume.bare r (some .eio) := by
  unfold commitWait
  split
  · exact ⟨rfl, fun c hc => (Option.some.inj hc).symm⟩
  · exact ⟨rfl, nofun⟩

theorem RunSpec.commitWait (h : s.Live body N) (hl : s.Ledger body) (hp : s.PendInv body p)
    (hreq : p.req = p'.req ∧ p.since = p'.since) :
    RunSpec body N s p' ((s.commitWait p.req).1, p, (s.commitWait p.req).2) := by
  obtain ⟨hcore, hc⟩ := commitWait_spec s p.req
  refine .of_core h hl hcore hreq (fun _ => hp) fun c hcc => ?_
  rw [hc c hcc, ← hreq.1, ← hreq.2]
  exact .bare hp.since_le (Nat.le_refl _)

theorem RunSpec.finish (h : s.Live body N) (hl : s.Ledger body) (hp : s.PendInv body p)
    (hst : 2 ≤ p.stage) (hreq : p.req = p'.req ∧ p.since = p'.since) :
    RunSpec body N s p' (s.finish p) := by
  unfold BlockVolume.finish
  split
  next hd =>
    obtain ⟨m, hm, hmw, hgen, hwrote⟩ := hp.reach
    obtain ⟨hmc, c, hc, hrev, hmap⟩ := h.covers hmw hgen hd
    refine .of_core h hl rfl hreq nofun fun c' hc' => ?_
    cases hc'
    rw [← hreq.1, ← hreq.2]
    have hop := hp.op hst
    exact
      { since := hp.since_le
        seen := Nat.le_refl _
        read := fun _ hr => by rw [hr] at hop; simp at hop
        wrote := fun _ hw => (hwrote hst hw).mono hmw
        fence := fun rv hf => by
          cases hf
          exact ⟨c, hc, hrev, s.coveredCount, hm.trans hmc, coveredCount_le,
            fun hw => (hwrote hst hw).mono hmc, hmap⟩
        preflush := fun _ hpre _ => hp.preflush (by omega) hpre
        sync := fun _ _ => ⟨_, rfl⟩ }
  · exact .commitWait h hl hp hreq

/-! ## Running a request -/

/-- A request's write is looked at. -/
def RunsWrite (s : BlockVolume) (p : BlockPending) : Prop :=
  p.req.op = .write ∧
    (p.stage = 1 ∨ p.stage = 0 ∧ ¬ (p.req.preflush = true ∧ s.durableGen < p.target))

instance (s : BlockVolume) (p : BlockPending) : Decidable (s.RunsWrite p) := by
  unfold RunsWrite; infer_instance

/-- A request's write is not staged over a fetch. -/
def RaceFree (N : ℕ) (s : BlockVolume) (p : BlockPending) : Prop := s.RunsWrite p → ¬ s.Races N p.req

instance (N : ℕ) (s : BlockVolume) (p : BlockPending) : Decidable (s.RaceFree N p) := by
  unfold RaceFree; infer_instance

/-- A write that was staged, and what comes after it. -/
theorem RunSpec.after_write {out : BlockVolume × BlockPending × Option BlockCpl} (h : s.Live body N)
    (hw : Written body N s r (s.now body) s') (ho : RunSpec body N s' p out) :
    RunSpec body N s p out where
  live := ho.live
  ledger := ho.ledger
  grows := by
    have h1 := hw.grows h
    obtain ⟨ws, hws⟩ := h1.writes
    obtain ⟨cs, hcs⟩ := h1.landed
    obtain ⟨ws', hws'⟩ := ho.grows.writes
    obtain ⟨cs', hcs'⟩ := ho.grows.landed
    exact ⟨ho.grows.block.trans h1.block, ho.grows.size.trans h1.size,
      ho.grows.extent.trans h1.extent, ⟨ws ++ ws', by rw [hws', hws, List.append_assoc]⟩,
      ⟨cs' ++ cs, by rw [hcs', hcs, List.append_assoc]⟩, h.landed_ne_nil⟩
  request := ho.request
  pending := ho.pending.trans (by rw [hw.only])
  phase := ho.phase.trans (by rw [hw.only])
  wait := ho.wait
  done := ho.done

theorem RunSpec.write (h : s.Live body N) (hl : s.Ledger body) (hp : s.PendInv body p)
    (hst : p.stage = 1) (hop : p.req.op = .write) (hrace : ¬ s.Races N p.req)
    (hreq : p.req = p'.req ∧ p.since = p'.since) : RunSpec body N s p' (s.execute N p) := by
  unfold execute
  rw [hop]
  dsimp only
  by_cases hfits : s.writeFits N p.req
  swap
  · -- it is told to wait, and nothing but flags changes
    obtain ⟨o, f, ho, hwr, -⟩ := writeNow_of_not_fits hfits
    rw [hwr]
    cases o with
    | done => exact absurd rfl ho
    | wait => exact .of_core h hl rfl hreq (fun _ => hp) nofun
    | room =>
      have hc : ({ s with flags := f } : BlockVolume).core = s.core := rfl
      have hwait : RunSpec body N _ p' _ :=
        RunSpec.commitWait (h.of_core hc) (hl.of_core hc) (hp.of_core hc) hreq
      exact .of_core h hl ((commitWait_spec _ _).1.trans hc) hwait.request (fun _ => hp) fun c hcc => by
        rw [(commitWait_spec _ _).2 c hcc, ← hreq.1, ← hreq.2]
        exact .bare hp.since_le (Nat.le_refl _)
  obtain ⟨s', hwr, hw⟩ := writeNow_of_fits h.slots h.geo hop hp.inDevice (h.quiet hfits.1) hfits hrace
  rw [hwr]
  have hlive := hw.live h hfits
  have hled := hw.ledger h hl
  have hg := hw.grows h
  have hp' := hp.grows hg
  have hwrote : s'.WroteIn p.req p.since s'.hist.writes.length := by
    obtain ⟨k, hk, hlt, hget⟩ := hw.wroteIn
    exact ⟨k, hp.since_le.trans hk, hlt, hget⟩
  dsimp only
  split
  next hfua =>
    -- it waits for the commit that makes it durable
    refine .after_write h hw (.finish hlive hled ?_ (Nat.le_refl 2) hreq)
    refine ⟨hp'.inDevice, ⟨s'.hist.writes.length, hp'.since_le, Nat.le_refl _, fun w hmem => ?_,
      fun _ _ => hwrote⟩, fun _ => hp'.preflush (Nat.le_of_eq hst.symm), fun _ => .inl hop⟩
    exact hlive.gens.le w (List.mem_of_mem_take hmem)
  next hfua =>
    refine .after_write h hw (.of_core hlive hled rfl hreq nofun fun c hc => ?_)
    cases hc
    rw [← hreq.1, ← hreq.2]
    exact
      { since := hp'.since_le
        seen := Nat.le_refl _
        read := fun _ hr => by rw [hop] at hr; cases hr
        wrote := fun _ _ => hwrote
        fence := nofun
        preflush := fun _ hpre _ => hp'.preflush (Nat.le_of_eq hst.symm) hpre
        sync := fun _ hs => by
          obtain hs | ⟨-, hs⟩ := hs
          · rw [hop] at hs
            cases hs
          · exact absurd hs hfua }

theorem RunSpec.execute (h : s.Live body N) (hl : s.Ledger body) (hp : s.PendInv body p)
    (hst : p.stage = 1) (hrace : p.req.op = .write → ¬ s.Races N p.req)
    (hreq : p.req = p'.req ∧ p.since = p'.since) : RunSpec body N s p' (s.execute N p) := by
  cases hop : p.req.op with
  | write => exact .write h hl hp hst hop (hrace hop) hreq
  | read =>
    unfold BlockVolume.execute
    rw [hop]
    dsimp only
    obtain ⟨hcore, -, hbuf⟩ := readNow_spec h.slots h.geo hop hp.inDevice
    generalize s.readNow N p.req = st at hcore hbuf ⊢
    obtain ⟨s', buf⟩ := st
    cases buf with
    | none => exact .of_core h hl hcore hreq (fun _ => hp) nofun
    | some buf =>
      refine .of_core h hl hcore hreq nofun fun c hc => ?_
      cases hc
      rw [← hreq.1, ← hreq.2]
      exact
        { since := hp.since_le
          seen := Nat.le_refl _
          read := fun _ _ j hj => hbuf buf rfl j hj
          wrote := fun _ hw => by rw [hop] at hw; cases hw
          fence := nofun
          preflush := fun _ hpre _ => hp.preflush (Nat.le_of_eq hst.symm) hpre
          sync := fun _ hs => by rw [hop] at hs; simp at hs }
  | flush =>
    unfold BlockVolume.execute
    rw [hop]
    refine .finish h hl ?_ (Nat.le_refl 2) hreq
    obtain ⟨m, hm, hmw, hgen, -⟩ := hp.reach
    refine ⟨hp.inDevice, ⟨m, hm, hmw, hgen, fun _ hw => ?_⟩,
      fun _ => hp.preflush (Nat.le_of_eq hst.symm), fun _ => .inr hop⟩
    rw [hop] at hw
    cases hw
  | unknown =>
    unfold BlockVolume.execute
    rw [hop]
    refine .of_core h hl rfl hreq nofun fun c hc => ?_
    cases hc
    rw [← hreq.1, ← hreq.2]
    exact .bare hp.since_le (Nat.le_refl _)

/-- **A request that runs keeps the device**, and what it is told is true. -/
theorem RunSpec.run (h : s.Live body N) (hph : s.phase = .ready) (hl : s.Ledger body)
    (hp : s.PendInv body p) (hrace : s.RaceFree N p) : RunSpec body N s p (s.run N p) := by
  unfold BlockVolume.run
  rw [if_neg (by rw [hph]; nofun)]
  split
  next hst =>
    split
    · exact .commitWait h hl hp ⟨rfl, rfl⟩
    next hpre =>
    refine .execute h hl ?_ rfl (fun hop => hrace ⟨hop, .inr ⟨hst, hpre⟩⟩) ⟨rfl, rfl⟩
    obtain ⟨m, hm, hmw, hgen, -⟩ := hp.reach
    have hone : ¬ 2 ≤ 1 := by decide
    refine ⟨hp.inDevice, ⟨m, hm, hmw, hgen, fun h2 => absurd h2 hone⟩, fun _ hf => ?_,
      fun h2 => absurd h2 hone⟩
    have hd : p.target ≤ s.durableGen := Nat.not_lt.mp fun hlt => hpre ⟨hf, hlt⟩
    obtain ⟨hmc, c, hc, -, hmap⟩ := h.covers hmw hgen hd
    exact ⟨c, hc, s.coveredCount, hm.trans hmc, coveredCount_le, hmap⟩
  next hst => exact .execute h hl hp hst (fun hop => hrace ⟨hop, .inl hst⟩) ⟨rfl, rfl⟩
  next h0 h1 =>
    exact .finish h hl hp (Nat.lt_of_le_of_ne (Nat.one_le_iff_ne_zero.mpr h0) (Ne.symm h1)) ⟨rfl, rfl⟩

/-! ## The queue -/

theorem noteAnswer_grows {c : BlockCpl} (hne : s.hist.landed ≠ []) : Grows s (s.noteAnswer p c) :=
  ⟨rfl, rfl, rfl, ⟨[], (List.append_nil _).symm⟩, ⟨[], rfl⟩, hne⟩

/-- **What a device keeps of the volume** is not about its pending requests, nor
about what it answered, and of the leaves it holds only what they hold. -/
theorem Live.aside {lt : VolLeaves} {f : ℕ → Option BlockPending} {as : List BlockAnswer}
    (h : s.Live body N) (hl : ({ s with leafTable := lt } : BlockVolume).MapInv body)
    (hf : ∀ i p, f i = some p → s.PendInv body p) :
    ({ s with leafTable := lt, queue.pending := f, hist.answers := as } : BlockVolume).Live body N where
  geo := ⟨h.geo.depth, h.geo.covers, h.geo.fits, h.geo.extents, h.geo.blocks, h.geo.block, h.geo.cap⟩
  map := ⟨hl.root, hl.leaves⟩
  slots := ⟨h.slots.uniq, h.slots.inMap, h.slots.holds, h.slots.bare,
    h.slots.fetch, h.slots.count⟩
  room := h.room
  gens := ⟨h.gens.sorted, h.gens.le, h.gens.durable, h.gens.covered, h.gens.head⟩
  pend := fun i p hp =>
    ⟨(hf i p hp).inDevice, (hf i p hp).reach, (hf i p hp).preflush, (hf i p hp).op⟩
  commit := ⟨h.commit.quiet, h.commit.same, h.commit.gen, h.commit.fresh, h.commit.pipe,
    h.commit.sending, h.commit.stored, h.commit.depth, h.commit.keys, h.commit.reached,
    h.commit.putLeaf, h.commit.all, h.commit.putRoot, h.commit.newRoot⟩
  job := h.job

theorem noteAnswer_live {c : BlockCpl} (h : s.Live body N) : (s.noteAnswer p c).Live body N :=
  h.aside h.map h.pend

/-- The history has a true completion more. -/
theorem noteAnswer_ledger {c : BlockCpl} (hl : s.Ledger body) (hne : s.hist.landed ≠ [])
    (ha : s.AnswerInv body ⟨p.req, p.since, s.hist.writes.length, c⟩) :
    (s.noteAnswer p c).Ledger body := by
  have hg : Grows s (s.noteAnswer p c) := noteAnswer_grows hne
  refine ⟨fun a hmem => ?_, fun c' hc => ?_⟩
  · obtain hmem | hmem := List.mem_append.mp hmem
    · exact (hl.answers a hmem).grows hg
    · cases List.mem_singleton.mp hmem
      exact ha.grows hg
  · obtain ⟨hle, hmap⟩ := hl.landed c' hc
    exact ⟨hle, hmap.grows hg hle⟩

theorem pushDone_core {c : BlockCpl} : (s.pushDone c).core = s.core := by
  unfold pushDone
  split
  · rfl
  · rfl

theorem Live.withPending {f : ℕ → Option BlockPending} (h : s.Live body N)
    (hf : ∀ i p, f i = some p → s.PendInv body p) :
    ({ s with queue.pending := f } : BlockVolume).Live body N :=
  h.aside h.map hf

theorem Ledger.withPending {f : ℕ → Option BlockPending} (hl : s.Ledger body) :
    ({ s with queue.pending := f } : BlockVolume).Ledger body :=
  ⟨fun a ha => ⟨(hl.answers a ha).since, (hl.answers a ha).seen, (hl.answers a ha).read,
    (hl.answers a ha).wrote, (hl.answers a ha).fence, (hl.answers a ha).preflush,
    (hl.answers a ha).sync⟩, hl.landed⟩

/-- A device that is ready, and what its clients were told. -/
def Sound (body : Digest → Bytes) (N : ℕ) (s : BlockVolume) : Prop :=
  s.Live body N ∧ s.Ledger body ∧ s.phase = .ready

theorem put_cases {α : Type} {f : ℕ → Option α} {i j : ℕ} {v : Option α} {x : α}
    (h : put f i v j = some x) : v = some x ∨ f j = some x := by
  by_cases hj : j = i
  · rw [hj, put_self] at h
    exact .inl h
  · rw [put_of_ne hj] at h
    exact .inr h

/-- A completion of a request that ran. -/
theorem Sound.answer {out : BlockVolume × BlockPending × Option BlockCpl} {c : BlockCpl}
    (hph : s.phase = .ready) (ho : RunSpec body N s p out) (hc : out.2.2 = some c) :
    (out.1.noteAnswer out.2.1 c).Sound body N := by
  refine ⟨noteAnswer_live ho.live, noteAnswer_ledger ho.ledger ho.live.landed_ne_nil ?_,
    ho.phase.trans hph⟩
  rw [ho.request.1, ho.request.2]
  exact ho.done c hc

theorem Sound.of_core (hc : s'.core = s.core) (h : s.Sound body N) : s'.Sound body N :=
  ⟨h.1.of_core hc, h.2.1.of_core hc, (core_phase hc).trans h.2.2⟩

theorem Sound.withFlags {f : VolFlags} (h : s.Sound body N) :
    ({ s with flags := f } : BlockVolume).Sound body N := by
  refine Sound.of_core ?_ h
  rfl

/-- A queued request keeps the device. -/
theorem Sound.serve {i : ℕ} (h : s.Sound body N)
    (hrace : ∀ p, s.pending i = some p → s.RaceFree N p) : (s.serve N i).Sound body N := by
  unfold BlockVolume.serve
  cases hp : s.pending i with
  | none => exact h
  | some p =>
    have ho := RunSpec.run h.1 h.2.2 h.2.1 (h.1.pend i p hp) (hrace p hp)
    dsimp only
    generalize s.run N p = out at ho ⊢
    obtain ⟨s', p', c⟩ := out
    cases c with
    | none =>
      refine ⟨ho.live.withPending fun j q hq => ?_, ho.ledger.withPending, ho.phase.trans h.2.2⟩
      obtain hq | hq := put_cases hq
      · cases hq
        exact ho.wait rfl
      · exact ho.live.pend j q hq
    | some c =>
      have hs : ({ s' with queue.pending := put s'.pending i none } : BlockVolume).Live body N :=
        ho.live.withPending fun j q hq => by
          obtain hq | hq := put_cases hq
          · cases hq
          · exact ho.live.pend j q hq
      have hans := ho.done c rfl
      refine Sound.of_core pushDone_core ⟨noteAnswer_live hs,
        noteAnswer_ledger ho.ledger.withPending hs.landed_ne_nil ?_, ho.phase.trans h.2.2⟩
      rw [ho.request.1, ho.request.2]
      exact ⟨hans.since, hans.seen, hans.read, hans.wrote, hans.fence, hans.preflush, hans.sync⟩

theorem made_pendInv (h : s.Live body N) (hdev : s.InDevice r) : s.PendInv body (s.made r) :=
  ⟨hdev, ⟨s.hist.writes.length, Nat.le_refl _, Nat.le_refl _,
    fun w hw => h.gens.le w (List.mem_of_mem_take hw), fun h2 => absurd h2 (Nat.not_succ_le_zero 1)⟩,
    fun h1 => absurd h1 (Nat.not_succ_le_zero 0), fun h2 => absurd h2 (Nat.not_succ_le_zero 1)⟩

/-- A request executed inside the call keeps the device. -/
theorem Sound.exec (h : s.Sound body N) (hdev : s.InDevice r) (hrace : s.RaceFree N (s.made r)) :
    (s.exec N r).Sound body N := by
  have ho := RunSpec.run h.1 h.2.2 h.2.1 (made_pendInv h.1 hdev) hrace
  unfold BlockVolume.exec
  generalize s.run N (s.made r) = out at ho ⊢
  obtain ⟨s', p', c⟩ := out
  cases c with
  | none => exact ⟨ho.live, ho.ledger, ho.phase.trans h.2.2⟩
  | some c => exact .answer h.2.2 ho rfl

theorem Sound.submit (h : s.Sound body N) (hdev : s.InDevice r) (hrace : s.RaceFree N (s.made r)) :
    (s.submit N r).Sound body N := by
  have ho := RunSpec.run h.1 h.2.2 h.2.1 (made_pendInv h.1 hdev) hrace
  unfold BlockVolume.submit
  split
  · exact h
  generalize s.run N (s.made r) = out at ho ⊢
  obtain ⟨s', p', c⟩ := out
  cases c with
  | none =>
    dsimp only
    split
    · refine ⟨ho.live.withPending fun j q hq => ?_, ho.ledger.withPending, ho.phase.trans h.2.2⟩
      obtain hq | hq := put_cases hq
      · cases hq
        exact ho.wait rfl
      · exact ho.live.pend j q hq
    · exact ⟨ho.live, ho.ledger, ho.phase.trans h.2.2⟩
  | some c => exact (Sound.answer h.2.2 ho rfl).of_core pushDone_core

/-- The waiters of a commit that gave up are told so. -/
theorem Sound.failWaiters (h : s.Sound body N) : s.failWaiters.Sound body N := by
  unfold BlockVolume.failWaiters
  induction List.range queueDepth generalizing s with
  | nil => exact h
  | cons i l ih =>
    rw [List.foldl_cons]
    refine ih ?_
    unfold failWaiter
    cases hp : s.pending i with
    | none => exact h
    | some p =>
      dsimp only
      split
      · have hs : ({ s with queue.pending := put s.pending i none } : BlockVolume).Live body N :=
          h.1.withPending fun j q hq => by
            obtain hq | hq := put_cases hq
            · cases hq
            · exact h.1.pend j q hq
        have hsound : (({ s with queue.pending := put s.pending i none } : BlockVolume).noteAnswer p
            (BlockVolume.bare p.req (some .eio))).Sound body N :=
          ⟨noteAnswer_live hs, noteAnswer_ledger h.2.1.withPending hs.landed_ne_nil
            (.bare (h.1.pend i p hp).since_le (Nat.le_refl _)), h.2.2⟩
        have hpush := hsound.of_core (pushDone_core (c := BlockVolume.bare p.req (some .eio)))
        exact hpush.withFlags
      · exact h

end BlockVolume

end Loam

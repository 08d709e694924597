import Loam.ProviderLaws

/-!
# The invariant of an instance

`Node.Coherent` is what every event keeps, in whichever order they come: the
tiers are coherent, the compaction in flight captures what it has passed, the
device's slots hold sorted generations and the open one is the one in its
slot. From it come the two facts the rest of the development is built on: an
event that is not a record or a provider call leaves the view as it was
(`Node.Coherent.internal`), and what is recovered after a crash is the
replay of the log over the best slot.
-/

namespace Loam

namespace Compactor

/-- Keys are being captured. -/
def capturing (c : Compactor) : Prop := c.phase = .merge ∨ c.phase = .finish ∨ c.phase = .reopen

/-- A compaction is in flight and its generation not yet adopted. -/
def pending (c : Compactor) : Prop := c.phase = .opening ∨ c.capturing

/-- The merge has passed a key; past its end it has passed them all. -/
def passed (c : Compactor) (k : Key) : Prop := c.phase = .merge → ∃ l ∈ c.last, k ≤ l

theorem passed_of_ne {c : Compactor} (h : c.phase ≠ .merge) (k : Key) : c.passed k :=
  fun hc => absurd hc h

end Compactor

theorem emitTag_ne_zero (generation : ℕ) : emitTag generation ≠ 0 := by
  intro h
  have := congrArg UInt8.toNat h
  simp only [emitTag, UInt8.toNat_ofNat', UInt8.toNat_zero] at this
  omega

namespace Node

variable {L : Limits} {n : Node L}

/-- The generation number of the next compaction. -/
def nextGeneration (n : Node L) : ℕ := (n.ns.snap.map (·.generation + 1)).getD 1

/-- The slot of the next compaction: the one that is not open. -/
def nextSlot (n : Node L) : Bool := n.ns.snap.isSome && !n.snapSlot

/-- **The invariant.** -/
structure Coherent (n : Node L) : Prop where
  sound : n.ns.Sound
  /-- Every slot is one a bind would write. -/
  fits : n.ns.bindings.Fits
  disk : ∀ w, ∀ g ∈ n.disk.slot w, g.Sorted
  opened : ∀ g ∈ n.ns.snap, n.disk.slot n.snapSlot = some g
  /-- Before the first generation the second slot is empty, where a boot opens
  the best. -/
  first : L.snapshotTier = true → n.ns.snap = none → n.disk.slotB = none
  /-- Without a log nothing is kept, and nothing is compacted. -/
  unconfigured : n.walConfigured = false →
    n.disk = ⟨[], none, none⟩ ∧ n.walOpen = false ∧ n.cmp.phase = .idle
  /-- A compaction writes the next generation to the other slot. -/
  target : n.cmp.pending → n.cmp.generation = n.nextGeneration ∧ n.cmp.target = n.nextSlot
  fresh : n.cmp.phase = .opening → n.cmp.last = none ∧ n.cmp.staged = [] ∧ n.cmp.snapIdx = 0
  capture : n.cmp.capturing →
    Captures n.ns (emitTag n.cmp.generation) n.cmp.passed n.cmp.staged
  /-- The old records it has read are those it has passed. -/
  cursor : n.cmp.phase = .merge → ∀ g ∈ n.ns.snap, ∀ i r, g.records[i]? = some r →
    (i < n.cmp.snapIdx ↔ n.cmp.passed r.toKey)
  /-- A generation about to be opened is in its slot. -/
  durable : n.cmp.phase = .reopen → n.disk.slot n.cmp.target = some n.written

/-! ## Boot -/

/-- The replay of a log keeps the tiers coherent, whatever it starts from. -/
theorem replay_sound {ns : Namespace L} (h : ns.Sound) (hf : ns.bindings.Fits)
    (log : List Record) : (ns.replay log).Sound ∧ (ns.replay log).bindings.Fits ∧
      (ns.replay log).snap = ns.snap := by
  induction log generalizing ns with
  | nil => exact ⟨h, hf, rfl⟩
  | cons r log ih =>
    have hstep : (ns.replayApply .allReady r).Sound ∧ (ns.replayApply .allReady r).bindings.Fits ∧
        (ns.replayApply .allReady r).snap = ns.snap := by
      have happly : ∀ r, (ns.applyOp .allReady r).1.Sound ∧
          (ns.applyOp .allReady r).1.bindings.Fits ∧ (ns.applyOp .allReady r).1.snap = ns.snap := by
        intro r
        obtain ⟨a', ok, hp, ho⟩ := h.applyOp_carries r
        exact ⟨h.sound_applyOp _ r, by rw [hp]; exact hf.effect ho, h.snap_applyOp _ r⟩
      cases r with
      | gcReserve o now => exact ⟨h.congr rfl rfl, hf, rfl⟩
      | gcRelease o => exact ⟨h, hf, rfl⟩
      | _ => exact happly _
    obtain ⟨hs, hf', hsnap⟩ := hstep
    obtain ⟨h1, h2, h3⟩ := ih hs hf'
    exact ⟨h1, h2, h3.trans hsnap⟩

theorem sound_opened {snap : Option Snapshot} (h : ∀ g ∈ snap, g.Sorted) :
    ({ Namespace.new L with snap := snap } : Namespace L).Sound :=
  ⟨Arena.sound_new, h, fun k s hl => by
    rw [show ({ Namespace.new L with snap := snap } : Namespace L).bindings = Arena.new L
      from rfl, Arena.lookup_new] at hl
    cases hl⟩

theorem mem_opens {d : Disk} {g : Snapshot} :
    g ∈ opens L d ↔ L.snapshotTier = true ∧ g ∈ d.best := by
  rw [opens]
  split
  · next ht => exact (and_iff_right ht).symm
  · next ht => exact iff_of_false (fun hg => nomatch hg) fun hg => ht hg.1

theorem sorted_opens {d : Disk} (h : ∀ w, ∀ g ∈ d.slot w, g.Sorted) : ∀ g ∈ opens L d, g.Sorted :=
  fun g hg => h d.bestSlot g (mem_opens.mp hg).2

/-- **A boot is coherent** over any device with sorted generations. -/
theorem coherent_boot {d : Disk} (h : ∀ w, ∀ g ∈ d.slot w, g.Sorted) {cfg : Bool}
    (hcfg : cfg = false → d = ⟨[], none, none⟩) : (boot L cfg d).Coherent := by
  have hpend : ¬ (boot L cfg d).cmp.pending := by
    rintro (hc | hc | hc | hc) <;> exact nomatch hc
  have hcap : ¬ (boot L cfg d).cmp.capturing := fun hc => hpend (.inr hc)
  have hns : (boot L cfg d).ns.Sound ∧ (boot L cfg d).ns.bindings.Fits ∧
      (boot L cfg d).ns.snap = opens L d := by
    cases cfg with
    | false => exact ⟨Namespace.sound_new, Arena.fits_new, by rw [hcfg rfl]; exact (ite_self _).symm⟩
    | true => exact replay_sound (sound_opened (sorted_opens h)) Arena.fits_new d.log
  obtain ⟨hsound, hfits, hsnap⟩ := hns
  refine ⟨hsound, hfits, h, fun g hg => ?_, fun ht hn => ?_, fun hc => ?_,
    fun hc => absurd hc hpend, fun hc => (nomatch hc), fun hc => absurd hc hcap,
    fun hc => (nomatch hc), fun hc => (nomatch hc)⟩
  · rw [hsnap, mem_opens] at hg
    rw [show (boot L cfg d).snapSlot = (L.snapshotTier && d.bestSlot) from rfl, hg.1]
    exact hg.2
  · rw [hsnap, opens, if_pos ht] at hn
    have hboth : ∀ a b : Option Snapshot, (Disk.best ⟨[], a, b⟩) = none → b = none := by
      intro a b hab
      cases a <;> cases b <;> simp_all [Disk.best, Disk.bestSlot, Disk.slot]
      split at hab <;> cases hab
    exact hboth d.slotA d.slotB hn
  · exact ⟨hcfg hc, hc, rfl⟩

theorem coherent_init (cfg : Bool) : (init L cfg).Coherent :=
  coherent_boot (fun w g hg => by cases w <;> exact nomatch hg) fun _ => rfl

/-! ## Records and provider calls -/

/-- The namespace may evolve under the compaction. -/
theorem Coherent.evolves (h : n.Coherent) {n' : Node L} (hcmp : n'.cmp = n.cmp)
    (hslotA : n'.disk.slotA = n.disk.slotA) (hslotB : n'.disk.slotB = n.disk.slotB)
    (hopen : n'.snapSlot = n.snapSlot)
    (hun : n'.walConfigured = false → n'.disk = ⟨[], none, none⟩ ∧ n'.walOpen = false ∧
      n'.cmp.phase = .idle)
    (hsound : n'.ns.Sound) (hfits : n'.ns.bindings.Fits)
    (he : n.ns.bindings.Evolves n'.ns.bindings) (hsnap : n'.ns.snap = n.ns.snap) :
    n'.Coherent := by
  have hslot : ∀ w, n'.disk.slot w = n.disk.slot w := by
    intro w
    cases w
    · exact hslotA
    · exact hslotB
  refine ⟨hsound, hfits, fun w g hg => h.disk w g (hslot w ▸ hg), fun g hg => ?_, fun ht hn => ?_,
    hun, fun hc => ?_, fun hc => ?_, fun hc => ?_, fun hc g hg => ?_, fun hc => ?_⟩
  · rw [hslot, hopen]
    exact h.opened g (hsnap ▸ hg)
  · rw [hslotB]
    exact h.first ht (hsnap ▸ hn)
  · rw [hcmp] at hc ⊢
    rw [nextGeneration, nextSlot, hsnap, hopen]
    exact h.target hc
  · rw [hcmp] at hc ⊢
    exact h.fresh hc
  · rw [hcmp] at hc ⊢
    exact (h.capture hc).evolves h.sound (emitTag_ne_zero _) he hsnap
  · rw [hcmp] at hc ⊢
    exact h.cursor hc g (hsnap ▸ hg)
  · rw [hcmp] at hc
    rw [hslot, hcmp, written, hcmp]
    exact h.durable hc

/-- What a fed record leaves: nothing has happened, or the record is in the
log, if there is one, and the namespace is the one judged. -/
theorem feed_cases (n : Node L) (r : Record) (io : ReadEnv) (proof : Option Bool) :
    (n.feed r io proof).1 = n ∨
      ((n.feed r io proof).1.ns = (n.ns.applyOp io r).1 ∧
        (n.feed r io proof).1.cmp = n.cmp ∧ (n.feed r io proof).1.snapSlot = n.snapSlot ∧
        (n.feed r io proof).1.walConfigured = n.walConfigured ∧
        (n.feed r io proof).1.walOpen = n.walOpen ∧
        (n.feed r io proof).1.disk =
          (if n.walOpen then { n.disk with log := n.disk.log ++ [r] } else n.disk) ∧
        (n.feed r io proof).2 = (n.ns.applyOp io r).2) := by
  unfold feed
  split
  · exact .inl rfl
  rcases hp : n.ns.applyOp io r with ⟨ns, v⟩
  cases v with
  | refused f => cases f <;> simp
  | _ => exact .inr ⟨rfl, rfl, rfl, rfl, rfl, rfl, rfl⟩

theorem Coherent.feed (h : n.Coherent) (r : Record) (io : ReadEnv) (proof : Option Bool) :
    (n.feed r io proof).1.Coherent := by
  rcases feed_cases n r io proof with he | ⟨hns, hcmp, hopen, hcfg, hwal, hdisk, -⟩
  · rw [he]
    exact h
  have hfits : (n.ns.applyOp io r).1.bindings.Fits := by
    rcases h.sound.applyOp_cases io r with ⟨f, hf, -⟩ | he
    · rw [hf]
      exact h.fits
    · obtain ⟨a', ok, hp, ho⟩ := h.sound.applyOp_carries r
      rw [he, hp]
      exact h.fits.effect ho
  refine h.evolves hcmp ?_ ?_ hopen (fun hc => ?_) ?_ ?_ ?_ ?_
  · rw [hdisk]
    split <;> rfl
  · rw [hdisk]
    split <;> rfl
  · rw [hcfg] at hc
    obtain ⟨hd, hw, hph⟩ := h.unconfigured hc
    rw [hdisk, hwal, hcmp, hw]
    exact ⟨hd, rfl, hph⟩
  · rw [hns]
    exact h.sound.sound_applyOp io r
  · rw [hns]
    exact hfits
  · rw [hns]
    exact h.sound.applyOp_evolves io r
  · rw [hns]
    exact h.sound.snap_applyOp io r

theorem Coherent.surface (h : n.Coherent) (op : SurfaceOp) (io : ReadEnv) (now : UInt64) :
    ({ n with ns := (surfaceOp n.ns io now op).1 } : Node L).Coherent := by
  have ho := h.sound.surfaceOp_outcome h.fits io now op
  obtain ⟨hns, he⟩ := ho.evolves h.sound
  refine h.evolves rfl rfl rfl rfl h.unconfigured ?_ (ho.fits h.fits) he ?_
  · rw [hns]
    exact h.sound.evolves he
  · rw [hns]

/-! ## The stages of a compaction -/

theorem Disk.slot_setSlot (d : Disk) (w w' : Bool) (g : Option Snapshot) :
    (d.setSlot w g).slot w' = if w' = w then g else d.slot w' := by
  cases w <;> cases w' <;> rfl

/-- No compaction is in flight: its part of the invariant is vacuous. -/
theorem Coherent.of_not_pending (hp : ¬ n.cmp.pending) (hs : n.ns.Sound)
    (hf : n.ns.bindings.Fits) (hd : ∀ w, ∀ g ∈ n.disk.slot w, g.Sorted)
    (ho : ∀ g ∈ n.ns.snap, n.disk.slot n.snapSlot = some g)
    (h1 : L.snapshotTier = true → n.ns.snap = none → n.disk.slotB = none)
    (hu : n.walConfigured = false → n.disk = ⟨[], none, none⟩ ∧ n.walOpen = false ∧
      n.cmp.phase = .idle) : n.Coherent :=
  ⟨hs, hf, hd, ho, h1, hu, fun hc => absurd hc hp, fun hc => absurd (.inl hc) hp,
    fun hc => absurd (.inr hc) hp, fun hc => absurd (.inr (.inl hc)) hp,
    fun hc => absurd (.inr (.inr (.inr hc))) hp⟩

theorem not_pending_idle {c : Compactor} (h : c.phase = .idle ∨ c.phase = .rotate) :
    ¬ c.pending := by
  rintro (hc | hc | hc | hc) <;> rcases h with h | h <;> exact nomatch h.symm.trans hc

/-- Giving a compaction up keeps the invariant. -/
theorem Coherent.abort (h : n.Coherent) : n.abort.Coherent :=
  .of_not_pending (not_pending_idle (.inl rfl)) h.sound h.fits h.disk h.opened h.first
    fun hc => ⟨(h.unconfigured hc).1, (h.unconfigured hc).2.1, rfl⟩

/-- Overwriting the slot that is not open keeps what the device holds. -/
theorem Coherent.setSlot (h : n.Coherent) {g : Option Snapshot} (hg : ∀ g' ∈ g, g'.Sorted)
    (hp : n.cmp.pending) :
    (∀ w, ∀ g' ∈ (n.disk.setSlot n.cmp.target g).slot w, g'.Sorted) ∧
      (∀ g' ∈ n.ns.snap, (n.disk.setSlot n.cmp.target g).slot n.snapSlot = some g') ∧
      (L.snapshotTier = true → n.ns.snap = none →
        (n.disk.setSlot n.cmp.target g).slotB = none) := by
  obtain ⟨-, ht⟩ := h.target hp
  refine ⟨fun w g' hg' => ?_, fun g' hg' => ?_, fun htier hn => ?_⟩
  · rw [Disk.slot_setSlot] at hg'
    split at hg'
    · exact hg g' hg'
    · exact h.disk w g' hg'
  · rw [Disk.slot_setSlot, if_neg, h.opened g' hg']
    rw [ht, nextSlot, Option.mem_def.mp hg']
    cases n.snapSlot <;> simp
  · rw [ht, nextSlot, hn]
    exact h.first htier hn

theorem Coherent.configured (h : n.Coherent) (hp : n.cmp.phase ≠ .idle) :
    n.walConfigured = true := by
  by_contra hc
  exact hp (h.unconfigured (by simpa using hc)).2.2

/-- Arming a compaction keeps the invariant, whatever armed it. -/
theorem Coherent.armed (h : n.Coherent) (hcfg : n.walConfigured = true) :
    ({ n with cmp := ⟨.opening, n.nextGeneration, n.nextSlot, 0, none, []⟩ } : Node L).Coherent := by
  have hno : ∀ c : Compactor, c.phase = .opening → ¬ c.capturing := by
    rintro c ho (hc | hc | hc) <;> exact nomatch ho.symm.trans hc
  refine ⟨h.sound, h.fits, h.disk, h.opened, h.first, fun hc => ?_, fun _ => ⟨rfl, rfl⟩,
    fun _ => ⟨rfl, rfl, rfl⟩, fun hc => absurd hc (hno _ rfl), fun hc => (nomatch hc),
    fun hc => (nomatch hc)⟩
  rw [show n.walConfigured = false from hc] at hcfg
  cases hcfg

theorem Coherent.compactStart (h : n.Coherent) : n.compactStart.Coherent := by
  unfold Node.compactStart
  split
  · next hdue =>
    have hcfg : n.walConfigured = true := by
      have := hdue.2
      simp only [compactionDue, Bool.and_eq_true] at this
      exact this.1.1
    exact h.armed hcfg
  · exact h

theorem Coherent.openDone (h : n.Coherent) : n.openDone.Coherent := by
  unfold Node.openDone
  split
  · next hph =>
    obtain ⟨hd, ho, h1⟩ := h.setSlot (g := none) (fun _ hg => (nomatch hg)) (.inl hph)
    obtain ⟨hlast, hstaged, hidx⟩ := h.fresh hph
    have hpassed : ∀ k, ¬ ({ n.cmp with phase := .merge } : Compactor).passed k := by
      intro k hk
      obtain ⟨l, hl, -⟩ := hk rfl
      rw [show ({ n.cmp with phase := .merge } : Compactor).last = none from hlast] at hl
      cases hl
    refine ⟨h.sound, h.fits, hd, ho, h1, fun hc => ?_, fun _ => h.target (.inl hph),
      fun hc => (nomatch hc), fun _ => ?_, fun _ g hg i r hr => ?_, fun hc => (nomatch hc)⟩
    · exact absurd (h.unconfigured hc).2.2 (by rw [hph]; simp)
    · dsimp only
      rw [hstaged]
      exact .nil hpassed
    · dsimp only
      rw [hidx]
      exact iff_of_false (Nat.not_lt_zero i) (hpassed _)
  · exact h

theorem Coherent.openFailed (h : n.Coherent) (unlinked : Bool) :
    (n.openFailed unlinked).Coherent := by
  unfold Node.openFailed
  split
  · next hph =>
    have hcfg := h.configured (by rw [hph]; simp)
    cases unlinked with
    | false => exact h.abort
    | true =>
      obtain ⟨hd, ho, h1⟩ := h.setSlot (g := none) (fun _ hg => (nomatch hg)) (.inl hph)
      refine .of_not_pending (not_pending_idle (.inl rfl)) h.sound h.fits hd ho h1 fun hc => ?_
      rw [show n.walConfigured = false from hc] at hcfg
      cases hcfg
  · exact h

theorem Coherent.finishDone (h : n.Coherent) : n.finishDone.Coherent := by
  unfold Node.finishDone
  split
  · next hph =>
    have hcap := h.capture (.inr (.inl hph))
    have hsorted : ∀ g ∈ some n.written, g.Sorted := by
      intro g hg
      obtain rfl := Option.mem_some.mp hg
      exact hcap.sorted
    obtain ⟨hd, ho, h1⟩ := h.setSlot hsorted (.inr (.inr (.inl hph)))
    have hall : ∀ k, n.cmp.passed k := n.cmp.passed_of_ne (by rw [hph]; simp)
    refine ⟨h.sound, h.fits, hd, ho, h1, fun hc => ?_, fun _ => h.target (.inr (.inr (.inl hph))),
      fun hc => (nomatch hc), fun _ => ?_, fun hc => (nomatch hc), fun _ => ?_⟩
    · exact absurd (h.unconfigured hc).2.2 (by rw [hph]; simp)
    · exact hcap.congr_passed fun k => iff_of_true (hall k) fun hc => nomatch hc
    · dsimp only
      rw [Disk.slot_setSlot, if_pos rfl]
      rfl
  · exact h

theorem Coherent.finishFailed (h : n.Coherent) (durable : Bool) :
    (n.finishFailed durable).Coherent := by
  unfold Node.finishFailed
  split
  · next hph =>
    have hcfg := h.configured (by rw [hph]; simp)
    cases durable with
    | false => exact h.abort
    | true =>
      have hcap := h.capture (.inr (.inl hph))
      have hsorted : ∀ g ∈ some n.written, g.Sorted := by
        intro g hg
        obtain rfl := Option.mem_some.mp hg
        exact hcap.sorted
      obtain ⟨hd, ho, h1⟩ := h.setSlot hsorted (.inr (.inr (.inl hph)))
      refine .of_not_pending (not_pending_idle (.inl rfl)) h.sound h.fits hd ho h1 fun hc => ?_
      rw [show n.walConfigured = false from hc] at hcfg
      cases hcfg
  · exact h

/-- The namespace a generation about to be opened is switched to. -/
theorem Coherent.reopenDone_ns (h : n.Coherent) (hph : n.cmp.phase = .reopen) :
    n.reopenDone.ns = Captures.adopt n.ns (emitTag n.cmp.generation) n.cmp.generation
      n.cmp.staged := by
  unfold Node.reopenDone
  rw [if_pos hph]
  dsimp only
  rw [h.durable hph]
  rfl

/-- At the end of a merge everything is captured. -/
theorem Coherent.capture_all (h : n.Coherent)
    (hph : n.cmp.phase = .finish ∨ n.cmp.phase = .reopen) :
    Captures n.ns (emitTag n.cmp.generation) (fun _ => True) n.cmp.staged :=
  (h.capture (.inr hph)).congr_passed fun k =>
    iff_of_true (n.cmp.passed_of_ne (by rcases hph with hph | hph <;> rw [hph] <;> simp) k) trivial

theorem Coherent.reopenDone (h : n.Coherent) : n.reopenDone.Coherent := by
  by_cases hph : n.cmp.phase = .reopen
  · have hns := h.reopenDone_ns hph
    have hall := h.capture_all (.inr hph)
    have hdur := h.durable hph
    have hcfg := h.configured (by rw [hph]; simp)
    have hfits : n.reopenDone.ns.bindings.Fits := by
      intro k s hs
      rw [hns] at hs
      have hl := (h.sound.arena.finalizeEmitted_spec (emitTag n.cmp.generation)).2 k
      obtain ⟨t, ht, rfl⟩ := Option.map_eq_some_iff.mp (hl.symm.trans hs)
      rw [Arena.toBinding_promote]
      exact h.fits k t ht
    have hsnap : n.reopenDone.ns.snap = some n.written := by
      rw [hns]
      rfl
    have hrest : n.reopenDone.disk = n.disk ∧ n.reopenDone.snapSlot = n.cmp.target ∧
        n.reopenDone.walConfigured = n.walConfigured ∧
        (n.reopenDone.cmp.phase = .idle ∨ n.reopenDone.cmp.phase = .rotate) := by
      unfold Node.reopenDone
      rw [if_pos hph]
      refine ⟨rfl, rfl, rfl, ?_⟩
      dsimp only
      split
      · exact .inr rfl
      · exact .inl rfl
    obtain ⟨hdisk, hslot, hwc, hidle⟩ := hrest
    refine .of_not_pending (not_pending_idle hidle) ?_ hfits ?_ ?_ ?_ ?_
    · rw [hns]
      exact hall.sound_adopt h.sound _
    · rw [hdisk]
      exact h.disk
    · rw [hdisk, hslot, hsnap, hdur]
      exact fun g hg => hg
    · rw [hsnap]
      exact fun _ hn => nomatch hn
    · rw [hwc, hcfg]
      exact fun hc => nomatch hc
  · unfold Node.reopenDone
    rw [if_neg hph]
    exact h

theorem Coherent.rotate (h : n.Coherent) (outcome : RotateOutcome) :
    (n.rotate outcome).Coherent := by
  unfold Node.rotate
  split
  · next hph =>
    have hcfg := h.configured (by rw [hph]; simp)
    have hcfg' : n.walConfigured ≠ false := by simp [hcfg]
    dsimp only
    split
    · cases outcome with
      | skipped => exact h.abort
      | rotated | lost =>
        exact .of_not_pending (not_pending_idle (.inl rfl)) h.sound h.fits h.disk h.opened
          h.first fun hc => absurd hc hcfg'
    · exact h.abort
  · exact h

/-! ## One record of the merge -/

theorem oldNext_eq_ready {io : ReadEnv} {old : Option SnapRecord}
    (h : n.oldNext io = .ready old) :
    (∀ r ∈ old, ∃ g ∈ n.ns.snap, g.records[n.cmp.snapIdx]? = some r) ∧
      (old = none → ∀ g ∈ n.ns.snap, g.records.length ≤ n.cmp.snapIdx) := by
  unfold oldNext at h
  split at h
  · next hn =>
    cases h
    exact ⟨fun r hr => (nomatch hr), fun _ g hg => by rw [hn] at hg; cases hg⟩
  next g hg =>
  split at h
  · split at h
    · next r hr =>
      cases h
      refine ⟨fun r' hr' => ?_, fun hc => (nomatch hc)⟩
      obtain rfl := Option.mem_some.mp hr'
      exact ⟨g, hg, Snapshot.readAt_eq_ready hr⟩
    · cases h
    · cases h
  · next hlt =>
    cases h
    refine ⟨fun r hr => (nomatch hr), fun _ g' hg' => ?_⟩
    obtain rfl := Option.some.inj (hg.symm.trans hg')
    exact Nat.not_lt.mp hlt

/-- In the merge, the keys passed are those up to the cursor. -/
theorem passed_iff (hph : n.cmp.phase = .merge) (k : Key) :
    n.cmp.passed k ↔ ∃ l ∈ n.cmp.last, k ≤ l := by
  rw [Compactor.passed, hph]
  exact ⟨fun h => h rfl, fun h _ => h⟩

theorem not_passed_iff (hph : n.cmp.phase = .merge) (k : Key) :
    ¬ n.cmp.passed k ↔ ∀ l ∈ n.cmp.last, l < k := by
  rw [passed_iff hph]
  push Not
  exact Iff.rfl

/-- A key not passed has no record before the merge's place in the old
generation. -/
theorem Coherent.snapBinding_eq_none (h : n.Coherent) (hph : n.cmp.phase = .merge) {k : Key}
    (hk : ¬ n.cmp.passed k)
    (hrest : ∀ g ∈ n.ns.snap, ∀ i r, g.records[i]? = some r → n.cmp.snapIdx ≤ i → r.toKey ≠ k) :
    snapBinding n.ns.snap k = none := by
  cases hsn : n.ns.snap with
  | none => rfl
  | some g =>
    rw [snapBinding_some, Option.map_eq_none_iff, Snapshot.find, SortedTable.find_eq_none_iff]
    intro r hr he
    obtain ⟨i, hi⟩ := List.mem_iff_getElem?.mp hr
    rcases Nat.lt_or_ge i n.cmp.snapIdx with hlt | hge
    · exact hk (he ▸ (h.cursor hph g hsn i r hi).mp hlt)
    · exact hrest g hsn i r hi hge he

/-- From its place on, the old generation's records are no smaller than the
next one. -/
theorem Coherent.old_le (h : n.Coherent) {g : Snapshot} (hg : g ∈ n.ns.snap) {r r' : SnapRecord}
    (hr : g.records[n.cmp.snapIdx]? = some r) {i : ℕ} (hi : g.records[i]? = some r')
    (hle : n.cmp.snapIdx ≤ i) : r.toKey ≤ r'.toKey := by
  have hs := h.sound.sorted g hg
  rcases Nat.lt_or_eq_of_le hle with hlt | rfl
  · exact ((SortedTable.Sorted.key_lt_iff hs hr hi).mpr hlt).le
  rw [hr] at hi
  cases hi
  exact le_rfl

/-- A compactor that has moved its cursor to `k`, staging `r`. -/
def advanced (c : Compactor) (r : SnapRecord) (superseded : Bool) : Compactor :=
  { c with
    snapIdx := if superseded then c.snapIdx + 1 else c.snapIdx
    last := some r.toKey
    staged := c.staged ++ [r] }

theorem passed_advanced {r : SnapRecord} {superseded : Bool} (hph : n.cmp.phase = .merge)
    (k : Key) : (advanced n.cmp r superseded).passed k ↔ k ≤ r.toKey := by
  simp [Compactor.passed, advanced, hph]

/-- Where the merge stands after staging `r`, which is above its cursor: the
old records passed are those before its new place. -/
theorem Coherent.cursor_advanced (h : n.Coherent) (hph : n.cmp.phase = .merge)
    {r : SnapRecord} (hr : ¬ n.cmp.passed r.toKey) {superseded : Bool}
    (hnext : ∀ g ∈ n.ns.snap, ∀ i q, g.records[i]? = some q → n.cmp.snapIdx ≤ i →
      (i < (advanced n.cmp r superseded).snapIdx ↔ q.toKey ≤ r.toKey)) :
    ∀ g ∈ n.ns.snap, ∀ i q, g.records[i]? = some q →
      (i < (advanced n.cmp r superseded).snapIdx ↔ (advanced n.cmp r superseded).passed q.toKey) := by
  intro g hg i q hi
  rw [passed_advanced hph]
  rcases Nat.lt_or_ge i n.cmp.snapIdx with hlt | hge
  · have hp := (h.cursor hph g hg i q hi).mp hlt
    obtain ⟨l, hl, hle⟩ := (passed_iff hph _).mp hp
    have hlt' := (not_passed_iff hph _).mp hr l hl
    refine iff_of_true ?_ (hle.trans hlt'.le)
    simp only [advanced]
    split
    · exact Nat.lt_succ_of_lt hlt
    · exact hlt
  · exact hnext g hg i q hi hge

/-- **Staging one more record keeps the invariant.** -/
theorem Coherent.advance (h : n.Coherent) (hph : n.cmp.phase = .merge) {r : SnapRecord}
    {superseded : Bool} {ns' : Namespace L} (hr : ¬ n.cmp.passed r.toKey)
    (hns : ns' = { n.ns with bindings := ns'.bindings }) (hsound : ns'.Sound)
    (hfits : ns'.bindings.Fits)
    (hemit : ∀ s, ns'.bindings.lookup r.toKey = some s →
      s.toBinding = r.toBinding ∧ s.cmpEmitted = emitTag n.cmp.generation)
    (hcarry : ns'.bindings.lookup r.toKey = none →
      snapBinding n.ns.snap r.toKey = some r.toBinding)
    (hsame : ∀ k, k ≠ r.toKey → ns'.bindings.lookup k = n.ns.bindings.lookup k)
    (hskip : ∀ k, k < r.toKey → ¬ n.cmp.passed k → n.ns.bindings.lookup k = none)
    (hold : ∀ g ∈ n.ns.snap, ∀ i q, g.records[i]? = some q → n.cmp.snapIdx ≤ i →
      r.toKey ≤ q.toKey)
    (hnext : ∀ g ∈ n.ns.snap, ∀ i q, g.records[i]? = some q → n.cmp.snapIdx ≤ i →
      (i < (advanced n.cmp r superseded).snapIdx ↔ q.toKey ≤ r.toKey)) :
    ({ n with ns := ns', cmp := advanced n.cmp r superseded } : Node L).Coherent := by
  have hsnap : ns'.snap = n.ns.snap := by rw [hns]
  have hpass := @passed_advanced L n r superseded hph
  have hlt : ∀ k, n.cmp.passed k → k < r.toKey := by
    intro k hk
    obtain ⟨l, hl, hle⟩ := (passed_iff hph _).mp hk
    exact hle.trans_lt ((not_passed_iff hph _).mp hr l hl)
  refine ⟨hsound, hfits, h.disk, fun g hg => h.opened g (hsnap ▸ hg),
    fun ht hn => h.first ht (hsnap ▸ hn), fun hc => ?_, fun _ => ?_, fun hc => ?_, fun _ => ?_,
    fun _ g hg => ?_, fun hc => ?_⟩
  · exact absurd (h.unconfigured hc).2.2 (by rw [hph]; simp)
  · have := h.target (.inr (.inl hph))
    rwa [nextGeneration, nextSlot, ← hsnap] at this
  · exact nomatch hph.symm.trans hc
  · refine (h.capture (.inl hph)).append (fun k hk => (hpass k).mpr (hlt k hk).le)
      ((hpass _).mpr le_rfl) hlt hemit hcarry hsame hsnap fun k hk hn hne => ?_
    have hklt : k < r.toKey := lt_of_le_of_ne ((hpass k).mp hk) hne
    exact ⟨hskip k hklt hn, h.snapBinding_eq_none hph hn fun g hg i q hi hge he =>
      absurd (hold g hg i q hi hge) (not_le_of_gt (he ▸ hklt))⟩
  · exact h.cursor_advanced hph hr hnext g (hsnap ▸ hg)
  · exact nomatch hph.symm.trans hc

/-- Emitting an arena slot, the least above the cursor, no old record being
smaller. -/
theorem Coherent.emitSlot (h : n.Coherent) (hph : n.cmp.phase = .merge) {s : BindingSlot}
    {i : ℕ} {superseded : Bool} (hmin : n.ns.bindings.minKeyAbove n.cmp.last = some (s, i))
    (hold : ∀ g ∈ n.ns.snap, ∀ j q, g.records[j]? = some q → n.cmp.snapIdx ≤ j →
      s.toKey ≤ q.toKey)
    (hnext : ∀ g ∈ n.ns.snap, ∀ j q, g.records[j]? = some q → n.cmp.snapIdx ≤ j →
      (j < (advanced n.cmp s.record superseded).snapIdx ↔ q.toKey ≤ s.toKey)) :
    (n.emitSlot s i superseded).Coherent ∧ (n.emitSlot s i superseded).ns.view = n.ns.view := by
  obtain ⟨hm, habove, hle⟩ := Arena.minKeyAbove_eq_some hmin
  obtain ⟨hsound, hl⟩ := h.sound.arena.markEmitted_spec hm (emitTag n.cmp.generation)
  have hlk := h.sound.arena.lookup_of_mem hm
  have hnot : ¬ n.cmp.passed s.toKey := (not_passed_iff hph _).mpr habove
  have hbind : ∀ k, (n.ns.bindings.markEmitted i (emitTag n.cmp.generation)).binding k
      = n.ns.bindings.binding k := by
    intro k
    rw [Arena.binding, Arena.binding, hl k]
    split
    · next hk =>
      rw [hk, hlk]
      rfl
    · rfl
  refine ⟨?_, Namespace.view_of_binding_eq hbind⟩
  refine @Coherent.advance L n h hph s.record superseded
    { n.ns with bindings := n.ns.bindings.markEmitted i (emitTag n.cmp.generation) }
    hnot rfl ⟨hsound, h.sound.sorted, fun k t ht htn => ?_⟩ (Namespace.fits_of_binding_eq h.fits hbind)
    (fun t ht => ?_) (fun hn => ?_) (fun k hk => (hl k).trans (if_neg hk)) (fun k hk hn => ?_)
    hold hnext
  · have ht' := (hl k).symm.trans ht
    split at ht'
    · next hk =>
      obtain rfl := Option.some.inj ht'
      exact h.sound.covered k s (hk ▸ hlk) htn
    · exact h.sound.covered k t ht' htn
  · have ht' := (hl s.toKey).symm.trans ht
    rw [if_pos rfl] at ht'
    obtain rfl := Option.some.inj ht'
    exact ⟨rfl, rfl⟩
  · have hn' := (hl s.toKey).symm.trans hn
    rw [if_pos rfl] at hn'
    cases hn'
  · rw [Arena.lookup_eq_none_iff]
    rintro t j ht rfl
    exact absurd (hle (t, j) ht ((not_passed_iff hph _).mp hn)) (not_le_of_gt hk)

/-- Carrying the next old record over, the arena holding nothing up to its
key above the cursor. -/
theorem Coherent.emitRecord (h : n.Coherent) (hph : n.cmp.phase = .merge) {g : Snapshot}
    (hg : g ∈ n.ns.snap) {r : SnapRecord} (hr : g.records[n.cmp.snapIdx]? = some r)
    (hempty : ∀ k, k ≤ r.toKey → ¬ n.cmp.passed k → n.ns.bindings.lookup k = none) :
    (n.emitRecord r).Coherent := by
  have hnot : ¬ n.cmp.passed r.toKey := fun hp =>
    absurd ((h.cursor hph g hg _ _ hr).mpr hp) (Nat.lt_irrefl _)
  have hnone := hempty _ le_rfl hnot
  have hold : ∀ g' ∈ n.ns.snap, ∀ i q, g'.records[i]? = some q → n.cmp.snapIdx ≤ i →
      r.toKey ≤ q.toKey := by
    intro g' hg' i q hi hge
    obtain rfl := Option.some.inj (hg.symm.trans hg')
    exact h.old_le hg hr hi hge
  refine @Coherent.advance L n h hph r true n.ns hnot rfl h.sound h.fits
    (fun s hs => nomatch hnone.symm.trans hs) (fun _ => ?_) (fun _ _ => rfl)
    (fun k hk => hempty k hk.le) hold fun g' hg' i q hi hge => ?_
  · rw [Option.mem_def.mp hg, snapBinding_some, Snapshot.find,
      (SortedTable.Sorted.find_eq_some_iff (h.sound.sorted g hg)).mpr
        ⟨List.mem_of_getElem? hr, rfl⟩]
    rfl
  · obtain rfl := Option.some.inj (hg.symm.trans hg')
    have hs := h.sound.sorted g hg
    rw [show (advanced n.cmp r true).snapIdx = n.cmp.snapIdx + 1 from rfl, Nat.lt_succ_iff,
      ← not_lt, ← not_lt, SortedTable.Sorted.key_lt_iff hs hr hi]

/-- **What one record of the merge does**: nothing, or it gives the merge up, or
ends it, or stages the least key left, as the arena or the old generation has it. -/
inductive MergeStep (n : Node L) : Node L → Prop
  | still : MergeStep n n
  | aborted : MergeStep n n.abort
  | ended (hph : n.cmp.phase = .merge)
      (hempty : ∀ k, ¬ n.cmp.passed k → n.ns.bindings.lookup k = none)
      (hspent : ∀ g ∈ n.ns.snap, ∀ j q, g.records[j]? = some q → ¬ n.cmp.snapIdx ≤ j) :
      MergeStep n { n with cmp := { n.cmp with phase := .finish } }
  | slot (s : BindingSlot) (i : ℕ) (superseded : Bool) (hph : n.cmp.phase = .merge)
      (hmin : n.ns.bindings.minKeyAbove n.cmp.last = some (s, i))
      (hold : ∀ g ∈ n.ns.snap, ∀ j q, g.records[j]? = some q → n.cmp.snapIdx ≤ j →
        s.toKey ≤ q.toKey)
      (hnext : ∀ g ∈ n.ns.snap, ∀ j q, g.records[j]? = some q → n.cmp.snapIdx ≤ j →
        (j < (advanced n.cmp s.record superseded).snapIdx ↔ q.toKey ≤ s.toKey)) :
      MergeStep n (n.emitSlot s i superseded)
  | record (g : Snapshot) (r : SnapRecord) (hph : n.cmp.phase = .merge) (hg : g ∈ n.ns.snap)
      (hr : g.records[n.cmp.snapIdx]? = some r)
      (hempty : ∀ k, k ≤ r.toKey → ¬ n.cmp.passed k → n.ns.bindings.lookup k = none) :
      MergeStep n (n.emitRecord r)

theorem Coherent.mergeStep (h : n.Coherent) (io : ReadEnv) : MergeStep n (n.mergeRecord io) := by
  unfold Node.mergeRecord
  split
  swap
  · exact .still
  next hph =>
  cases hold : n.oldNext io with
  | pending => exact .still
  | failed => exact .aborted
  | ready old =>
    obtain ⟨hsome, hnone⟩ := oldNext_eq_ready hold
    have hno : old = none → ∀ g ∈ n.ns.snap, ∀ j q, g.records[j]? = some q →
        ¬ n.cmp.snapIdx ≤ j := by
      intro ho g hg j q hj hge
      have := (List.getElem?_eq_some_iff.mp hj).1
      exact absurd (hnone ho g hg) (by omega)
    dsimp only
    cases hmin : n.ns.bindings.minKeyAbove n.cmp.last with
    | none =>
      have hempty : ∀ k, ¬ n.cmp.passed k → n.ns.bindings.lookup k = none := by
        intro k hk
        rw [Arena.lookup_eq_none_iff]
        rintro t j ht rfl
        exact Arena.minKeyAbove_eq_none hmin ht ((not_passed_iff hph _).mp hk)
      cases old with
      | some r =>
        obtain ⟨g, hg, hr⟩ := hsome r rfl
        exact .record g r hph hg hr fun k _ => hempty k
      | none => exact .ended hph hempty (hno rfl)
    | some p =>
      obtain ⟨s, i⟩ := p
      obtain ⟨-, -, hle⟩ := Arena.minKeyAbove_eq_some hmin
      cases old with
      | none =>
        exact .slot s i false hph hmin (fun g hg j q hj hge => absurd hge (hno rfl g hg j q hj))
          fun g hg j q hj hge => absurd hge (hno rfl g hg j q hj)
      | some r =>
        obtain ⟨g, hg, hr⟩ := hsome r rfl
        have hfrom : ∀ g' ∈ n.ns.snap, ∀ j q, g'.records[j]? = some q → n.cmp.snapIdx ≤ j →
            r.toKey ≤ q.toKey := by
          intro g' hg' j q hj hge
          obtain rfl := Option.some.inj (hg.symm.trans hg')
          exact h.old_le hg hr hj hge
        cases hcmp : keyCmp r.toKey s.toKey with
        | lt =>
          simp only [hcmp]
          refine .record g r hph hg hr fun k hk hn => ?_
          rw [Arena.lookup_eq_none_iff]
          rintro t j ht rfl
          exact absurd (hle (t, j) ht ((not_passed_iff hph _).mp hn))
            (not_le_of_gt (hk.trans_lt (keyCmp_lt_iff.mp hcmp)))
        | gt =>
          have hlt := keyCmp_gt_iff.mp hcmp
          simp only [hcmp]
          refine .slot s i false hph hmin (fun g' hg' j q hj hge => (hlt.trans_le
            (hfrom g' hg' j q hj hge)).le) fun g' hg' j q hj hge => iff_of_false
              (Nat.not_lt.mpr hge) (not_le_of_gt (hlt.trans_le (hfrom g' hg' j q hj hge)))
        | eq =>
          have heq := keyCmp_eq_iff.mp hcmp
          simp only [hcmp]
          refine .slot s i true hph hmin
            (fun g' hg' j q hj hge => heq ▸ hfrom g' hg' j q hj hge)
            fun g' hg' j q hj hge => ?_
          obtain rfl := Option.some.inj (hg.symm.trans hg')
          have hs := h.sound.sorted g hg
          rw [show (advanced n.cmp s.record true).snapIdx = n.cmp.snapIdx + 1 from rfl,
            Nat.lt_succ_iff, ← not_lt, ← not_lt, ← heq,
            SortedTable.Sorted.key_lt_iff hs hr hj]

/-- **One record of the merge keeps the invariant**, and the view. -/
theorem Coherent.mergeRecord (h : n.Coherent) (io : ReadEnv) :
    (n.mergeRecord io).Coherent ∧ (n.mergeRecord io).ns.view = n.ns.view := by
  have hstep := h.mergeStep io
  generalize n.mergeRecord io = n' at hstep ⊢
  cases hstep with
  | still => exact ⟨h, rfl⟩
  | aborted => exact ⟨h.abort, rfl⟩
  | slot s i superseded hph hmin hold hnext => exact h.emitSlot hph hmin hold hnext
  | record g r hph hg hr hempty => exact ⟨h.emitRecord hph hg hr hempty, rfl⟩
  | ended hph hempty hspent =>
    refine ⟨⟨h.sound, h.fits, h.disk, h.opened, h.first, fun hc => ?_,
      fun _ => h.target (.inr (.inl hph)), fun hc => (nomatch hc), fun _ => ?_,
      fun hc => (nomatch hc), fun hc => (nomatch hc)⟩, rfl⟩
    · exact absurd (h.unconfigured hc).2.2 (by rw [hph]; simp)
    · refine ((h.capture (.inl hph)).all fun k hk => ⟨hempty k hk, ?_⟩).congr_passed
        fun k => iff_of_true trivial fun hc => nomatch hc
      exact h.snapBinding_eq_none hph hk fun g hg i q hi hge => absurd hge (hspent g hg i q hi)

/-! ## Every event -/

/-- **The invariant is kept by every event.** -/
theorem Coherent.step (h : n.Coherent) (e : Event) : (n.step e).Coherent := by
  cases e with
  | feed r io proof => exact h.feed r io proof
  | compactStart => exact h.compactStart
  | openDone => exact h.openDone
  | openFailed unlinked => exact h.openFailed unlinked
  | merge io => exact (h.mergeRecord io).1
  | mergeFailed =>
    simp only [Node.step]
    split
    · exact h.abort
    · exact h
  | finishDone => exact h.finishDone
  | finishFailed durable => exact h.finishFailed durable
  | reopenDone => exact h.reopenDone
  | reopenFailed =>
    simp only [Node.step]
    split
    · exact h.abort
    · exact h
  | rotate outcome => exact h.rotate outcome
  | surface op io now => exact h.surface op io now
  | crash => exact coherent_boot h.disk fun hc => (h.unconfigured hc).1

/-- **The compactor changes nothing a record is judged against**: its events
keep the view, the leases and the reservations. -/
theorem Coherent.internal (h : n.Coherent) {e : Event} (he : e.internal = true) :
    (n.step e).ns.view = n.ns.view ∧ (n.step e).ns.leases = n.ns.leases ∧
      (n.step e).ns.gcReserved = n.ns.gcReserved := by
  have hstep := n.internalStep he
  generalize hn : n.step e = n' at hstep ⊢
  cases hstep with
  | compactor | slot | rotate => exact ⟨rfl, rfl, rfl⟩
  | mark io he =>
    subst he
    exact ⟨hn ▸ (h.mergeRecord io).2, rfl, rfl⟩
  | switch he hph =>
    subst he
    rw [← hn, show (n.step .reopenDone).ns = _ from h.reopenDone_ns hph]
    exact ⟨(h.capture_all (.inr hph)).view_adopt h.sound _, rfl, rfl⟩

/-- **Every state an instance reaches is coherent.** -/
theorem coherent_reached (cfg : Bool) (es : List Event) : (reached L cfg es).Coherent :=
  Run.invariant_all (fun _ e hn => hn.step e) (coherent_init cfg) es

end Node

end Loam

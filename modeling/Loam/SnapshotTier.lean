import Loam.Invariant

/-!
# A profile without a snapshot tier

Such a profile is to restart from its log alone: the arena is the whole set,
and the log is the durable record. The flag is asked at boot, which opens no
generation. It is not asked where a compaction is armed: what arms one is the
pressure on the arena, and an arena that fills up is compacted, evicted from
and its log rotated on that profile too. The next boot does not open the
generation that has taken over the bindings.

As long as nothing arms a compaction the profile keeps its promise: no
generation is open, every key stays in the arena, the log only grows, and what
a boot replays is the state that wrote it (`tierless_restarts_exactly`).
-/

namespace Loam

namespace Namespace

variable {L : Limits} {ns : Namespace L}

/-- Where no generation is open, a record is judged from the arena alone. -/
theorem applyOp_of_snap_eq_none (h : ns.snap = none) (io : ReadEnv) (r : Record) :
    ns.applyOp io r = ns.applyOp .allReady r := by
  have hread : ∀ k, ns.read io k = ns.read .allReady k := by
    intro k
    simp only [Namespace.read, current, h]
  cases r with
  | bind m => simp only [applyOp, applyBind, hread]
  | rename m => simp only [applyOp, applyRename, hread]
  | unbind m => simp only [applyOp, applyUnbind, hread]
  | retain m => simp only [applyOp, applyRetain, hread]
  | volume m => simp only [applyOp, applyVolume, hread]
  | bindingRestore m => simp only [applyOp, applyBindingRestore, hread]
  | lease | leaseRestore | gcReserve | gcRelease | undecodable => rfl

end Namespace

namespace Node

variable {L : Limits} {n : Node L} {e : Event}

/-- The event arms a compaction: the compactor is idle and the arena's pressure
asks for one (`compaction_start`). -/
def arms (n : Node L) : Event → Bool
  | .compactStart => decide (n.cmp.phase = .idle) && n.compactionDue
  | _ => false

/-- Nothing is compacted: no compaction is in flight and no generation open. -/
structure LogAlone (n : Node L) : Prop where
  idle : n.cmp.phase = .idle
  snap : n.ns.snap = none

namespace LogAlone

/-- Where nothing is compacted, the compactor's events do nothing. -/
theorem internal (h : n.LogAlone) (he : e.internal = true) (ha : n.arms e = false) :
    n.step e = n := by
  cases e with
  | feed | surface | crash => cases he
  | compactStart =>
    have hdue : ¬ (n.cmp.phase = .idle ∧ n.compactionDue = true) := by
      rintro ⟨hidle, hdue⟩
      simp only [arms, hidle, hdue] at ha
      cases ha
    exact if_neg hdue
  | openDone | openFailed | merge | mergeFailed | finishDone | finishFailed | reopenDone
  | reopenFailed | rotate =>
    refine if_neg ?_
    rw [h.idle]
    exact fun hc => nomatch hc

/-- **Where nothing is compacted, nothing is after an event that arms
nothing.** -/
theorem step (h : n.LogAlone) (hco : n.Coherent) (hL : L.snapshotTier = false)
    (ha : n.arms e = false) : (n.step e).LogAlone := by
  cases e with
  | feed r io proof =>
    show (n.feed r io proof).1.LogAlone
    rcases feed_cases n r io proof with he | ⟨hns, hcmp, -⟩
    · rw [he]
      exact h
    · exact ⟨by rw [hcmp]; exact h.idle, by rw [hns, hco.sound.snap_applyOp]; exact h.snap⟩
  | surface op io now =>
    obtain ⟨hns, -⟩ := (hco.sound.surfaceOp_outcome hco.fits io now op).evolves hco.sound
    refine ⟨h.idle, ?_⟩
    show (surfaceOp n.ns io now op).1.snap = none
    rw [hns]
    exact h.snap
  | crash =>
    refine ⟨rfl, ?_⟩
    have hopens : opens L n.disk = none := if_neg (by rw [hL]; exact Bool.false_ne_true)
    show (boot L n.walConfigured n.disk).ns.snap = none
    cases hcfg : n.walConfigured with
    | false => rfl
    | true =>
      exact (replay_sound (sound_opened (sorted_opens hco.disk)) Arena.fits_new
        n.disk.log).2.2.trans hopens
  | _ =>
    rw [h.internal rfl ha]
    exact h

/-- Where nothing is compacted the log only grows. -/
theorem log_grows (h : n.LogAlone) (ha : n.arms e = false) :
    n.disk.log <+: (n.step e).disk.log := by
  cases e with
  | feed r io proof =>
    show n.disk.log <+: (n.feed r io proof).1.disk.log
    rcases feed_cases n r io proof with he | ⟨-, -, -, -, -, hdisk, -⟩
    · simp only [he, List.prefix_refl]
    rw [hdisk]
    split
    · exact List.prefix_append _ _
    · exact List.prefix_refl _
  | surface | crash => exact List.prefix_refl _
  | _ => simp only [h.internal rfl ha, List.prefix_refl]

/-- Where nothing is compacted no key leaves the arena while the process
runs. -/
theorem keeps_keys (h : n.LogAlone) (hco : n.Coherent) (ha : n.arms e = false) (he : e ≠ .crash)
    {k : Key} (hk : (n.ns.bindings.lookup k).isSome) :
    ((n.step e).ns.bindings.lookup k).isSome := by
  have hkept : ∀ a', n.ns.bindings.Evolves a' → (a'.lookup k).isSome := by
    intro a' hev
    rcases hev.slot k with hsame | ⟨-, s, hs, hsn⟩ | ⟨s, hs, -⟩
    · rw [hsame]
      exact hk
    · exact nomatch (hco.sound.uncovered_of_snap_eq_none h.snap k s hs).symm.trans hsn
    · rw [hs]
      rfl
  cases e with
  | feed r io proof =>
    show ((n.feed r io proof).1.ns.bindings.lookup k).isSome
    rcases feed_cases n r io proof with hsame | ⟨hns, -⟩
    · rw [hsame]
      exact hk
    · rw [hns]
      exact hkept _ (hco.sound.applyOp_evolves io r)
  | surface op io now =>
    exact hkept _ ((hco.sound.surfaceOp_outcome hco.fits io now op).evolves hco.sound).2
  | crash => exact absurd rfl he
  | _ =>
    rw [h.internal rfl ha]
    exact hk

end LogAlone

/-! ## What a boot replays -/

/-- The log has all of the event that a replay needs: it is a record whose
verdict does not turn on the reservations, or the compactor's, or a crash. -/
def Replays (n : Node L) : Event → Prop
  | .feed r _ _ => n.ns.decidedByReservation r = false
  | .surface .. => False
  | _ => True

instance (n : Node L) : DecidablePred n.Replays := fun e =>
  match e with
  | .feed r _ _ => inferInstanceAs (Decidable (n.ns.decidedByReservation r = false))
  | .surface .. => inferInstanceAs (Decidable False)
  | .compactStart | .openDone | .openFailed _ | .merge _ | .mergeFailed | .finishDone
  | .finishFailed _ | .reopenDone | .reopenFailed | .rotate _ | .crash =>
    inferInstanceAs (Decidable True)

/-- The log is open, and its replay is the state that wrote it, but for the
reservations. -/
structure Replayed (n : Node L) : Prop where
  configured : n.walConfigured = true
  opened : n.walOpen = true
  replay : (Namespace.new L).replay n.disk.log = n.ns.withReserved Namespace.noReservations

/-- A boot that opens no generation replays the log from nothing. -/
theorem boot_tierless (hL : L.snapshotTier = false) (d : Disk) :
    (boot L true d).ns = (Namespace.new L).replay d.log := by
  have hopens : opens L d = none := if_neg (by rw [hL]; exact Bool.false_ne_true)
  show ({ Namespace.new L with snap := opens L d } : Namespace L).replay d.log = _
  rw [hopens]
  rfl

/-- **What the log has of the namespace it keeps**, event after event. -/
theorem Replayed.step (h : n.Replayed) (hco : n.Coherent) (halone : n.LogAlone)
    (hL : L.snapshotTier = false) (ha : n.arms e = false) (he : n.Replays e) :
    (n.step e).Replayed := by
  cases e with
  | feed r io proof =>
    show (n.feed r io proof).1.Replayed
    rcases feed_cases n r io proof with hsame | ⟨hns, -, -, hcfg, hopen, hdisk, -⟩
    · rw [hsame]
      exact h
    refine ⟨hcfg.trans h.configured, hopen.trans h.opened, ?_⟩
    rw [hdisk, if_pos h.opened, hns, Namespace.applyOp_of_snap_eq_none halone.snap]
    show (Namespace.new L).replay (n.disk.log ++ [r]) = _
    rw [Namespace.replay, List.foldl_append]
    show ((Namespace.new L).replay n.disk.log).replayApply .allReady r = _
    rw [h.replay]
    exact hco.sound.replayApply_noReservations he
  | surface => exact he.elim
  | crash =>
    have hns : (n.step .crash).ns = (Namespace.new L).replay n.disk.log := by
      show (boot L n.walConfigured n.disk).ns = _
      rw [h.configured]
      exact boot_tierless hL n.disk
    refine ⟨h.configured, h.configured, ?_⟩
    show (Namespace.new L).replay n.disk.log = _
    rw [hns, h.replay]
    rfl
  | _ =>
    rw [halone.internal rfl ha]
    exact h

/-- What a restart must find as it was: every slot of the arena, with its
tombstones and retention, and the leases. -/
structure RestartsExactly (n : Node L) : Prop where
  bindings : (n.step .crash).ns.bindings = n.ns.bindings
  leases : (n.step .crash).ns.leases = n.ns.leases

theorem Replayed.restarts (h : n.Replayed) (hL : L.snapshotTier = false) : n.RestartsExactly := by
  have hns : (n.step .crash).ns = n.ns.withReserved Namespace.noReservations := by
    show (boot L n.walConfigured n.disk).ns = _
    rw [h.configured, boot_tierless hL, h.replay]
  exact ⟨by rw [hns]; rfl, by rw [hns]; rfl⟩

/-! ## Whole runs -/

/-- A run that arms no compaction leaves nothing compacted. -/
theorem logAlone_reached {cfg : Bool} {es : List Event} (hL : L.snapshotTier = false)
    (h : Run.AllSteps step (fun n e => n.arms e = false) (init L cfg) es) :
    (reached L cfg es).LogAlone := by
  have hinit : (init L cfg).LogAlone := by
    refine ⟨rfl, ?_⟩
    cases cfg with
    | false => rfl
    | true =>
      rw [init, boot_tierless hL]
      rfl
  exact (Run.invariant (I := fun n => n.Coherent ∧ n.LogAlone)
    (fun _ e hn ha => ⟨hn.1.step e, hn.2.step hn.1 hL ha⟩) ⟨coherent_init cfg, hinit⟩ h).2

/-- A run that arms no compaction, of records and crashes that a replay can
follow, is in its log. -/
theorem replayed_reached {es : List Event} (hL : L.snapshotTier = false)
    (h : Run.AllSteps step (fun n e => n.arms e = false ∧ n.Replays e) (init L true) es) :
    (reached L true es).Replayed := by
  have hinit : (init L true).Replayed := ⟨rfl, rfl, by rw [init, boot_tierless hL]; rfl⟩
  have hfirst : (reached L true []).LogAlone := logAlone_reached hL trivial
  exact (Run.invariant (I := fun n => n.Coherent ∧ n.LogAlone ∧ n.Replayed)
    (fun _ e hn he => ⟨hn.1.step e, hn.2.1.step hn.1 hL he.1,
      hn.2.2.step hn.1 hn.2.1 hL he.1 he.2⟩) ⟨coherent_init true, hfirst, hinit⟩ h).2.2

/-- **A profile without a snapshot tier restarts exactly while nothing arms a
compaction**: no generation is open, the log only grows and no key leaves the
arena but by a crash; and where a log is kept, the run is of records and
crashes, and no verdict turns on a reservation, a boot replays the bindings and
the leases as they were. -/
theorem tierless_restarts_exactly (hL : L.snapshotTier = false) (cfg : Bool) (es : List Event)
    (h : Run.AllSteps step (fun n e => n.arms e = false) (init L cfg) es) :
    (reached L cfg es).ns.snap = none ∧
      (∀ pre e post, es = pre ++ e :: post →
        (reached L cfg pre).disk.log <+: (reached L cfg (pre ++ [e])).disk.log ∧
        (e ≠ .crash → ∀ k, ((reached L cfg pre).ns.bindings.lookup k).isSome →
          ((reached L cfg (pre ++ [e])).ns.bindings.lookup k).isSome)) ∧
      (cfg = true → Run.AllSteps step Replays (init L cfg) es →
        (reached L cfg es).RestartsExactly) := by
  refine ⟨(logAlone_reached hL h).snap, ?_, ?_⟩
  · rintro pre e post rfl
    obtain ⟨hpre, ha, -⟩ := Run.allSteps_append.mp h
    have halone := logAlone_reached hL hpre
    have hstep : reached L cfg (pre ++ [e]) = (reached L cfg pre).step e := Run.run_append
    rw [hstep]
    exact ⟨halone.log_grows ha,
      fun he k hk => halone.keeps_keys (coherent_reached cfg pre) ha he hk⟩
  · rintro rfl hr
    exact (replayed_reached hL (h.and hr)).restarts hL

/-- An arena of four slots. -/
def fourSlots : Limits := { Limits.embedded with namespaceSlots := 4 }

/-- Binds of as many names. -/
def exampleFiles (count : ℕ) : List Event :=
  (List.range count).map fun i =>
    .feed (.bind ⟨⟨[], [UInt8.ofNat i]⟩, ⟨1, 0, [1], Meta.none⟩, .any, 0⟩) .allReady none

/-- A few names on the smallest profile. -/
theorem tierless_restarts_exactly_few :
    (reached .minimal true (exampleFiles 3 ++ [.compactStart, .crash])).RestartsExactly :=
  (tierless_restarts_exactly (L := .minimal) rfl true (exampleFiles 3 ++ [.compactStart, .crash])
    (by decide)).2.2 rfl (by decide)

/-! Three quarters of the smallest profile's arena are bound. A compaction is
armed and runs through, and the next boot finds none of it. -/

/-- A compaction of as many keys, and the rotation. -/
def exampleCompaction (count : ℕ) : List Event :=
  [.compactStart, .openDone] ++ List.replicate (count + 1) (.merge .allReady)
    ++ [.finishDone, .reopenDone, .rotate .rotated]

/-- **The compaction of a profile without a snapshot tier loses what it
compacts.** -/
theorem compaction_loses_bindings :
    (reached .minimal true (exampleFiles 48)).arms .compactStart = true ∧
      (reached .minimal true (exampleFiles 48 ++ exampleCompaction 48)).ns.snap.isSome ∧
      (reached .minimal true (exampleFiles 48)).disk.log.length = 48 ∧
      (reached .minimal true (exampleFiles 48 ++ exampleCompaction 48)).disk.log = [] ∧
      isLive ((reached .minimal true (exampleFiles 48 ++ exampleCompaction 48)).ns.view
        ⟨[], [0]⟩) = true ∧
      (reached .minimal true (exampleFiles 48 ++ exampleCompaction 48 ++ [.crash])).ns.view
        ⟨[], [0]⟩ = none := by
  decide +kernel

end Node

end Loam

import Loam.Judge
import Loam.Lib.Run

/-!
# Replaying a log from nothing

Every record accepted from the wire is appended to the log and then judged.
With no snapshot generation, a restart replays the whole log from the empty
namespace, the refused records with the applied ones, and must judge each as
it was judged.

It does, except where a deletion reservation decided. Reservations belong to
the process that made them and are not reinstated on replay, so a bind
refused because its object id was reserved, or a volume begin refused because
any reservation stood, is judged again without that reason – and applied.
`Namespace.decidedByReservation` names those steps; where a run has none, the
replayed namespace is the live one up to its reservations
(`liveRun_eq_replay`).
-/

namespace Loam

namespace Namespace

variable {L : Limits} {ns : Namespace L} {g : List UInt64}

/-- The reservations of a process that has made none. -/
def noReservations : List UInt64 := List.replicate gcReserveMax 0

/-- The namespace under other reservations. -/
def withReserved (ns : Namespace L) (g : List UInt64) : Namespace L :=
  { ns with gcReserved := g }

/-- The live half of a step: a record is judged and applied. A namespace
without a generation reads nothing but its arena. -/
def liveStep (ns : Namespace L) (r : Record) : Namespace L := (ns.applyOp .allReady r).1

/-- The namespace a run of records from the empty one ends in. -/
def liveRun (L : Limits) (log : List Record) : Namespace L := Run.run liveStep (new L) log

/-- A record's verdict turns on the reservations: a bind that is otherwise
admitted, or already in place, whose id counts as reserved here and not under
the empty table, or the other way; a volume begin from the live holder while
some reservation stands. -/
def decidedByReservation (ns : Namespace L) : Record → Bool
  | .bind m =>
    (ns.isReserved m.binding.objectId != noReservations.contains (fnv1a64 m.binding.objectId))
      && m.decodes L && m.binding.kind != kindVolume
      && (judgeBind (ns.view m.key) m).toBool
  | .volume m =>
    ns.anyReserved && m.decodes L && m.mode == .start && m.nowMs != 0
      && !m.key.path.isEmpty && (ns.leases.touch m.key m.nowMs).2 == some true
      && (ns.leases.touch m.key m.nowMs).1.holds m.key m.holder m.fence m.nowMs
  | _ => false

/-! ## The reservations and nothing else differ -/

@[simp] theorem view_withReserved : (ns.withReserved g).view = ns.view := rfl

@[simp] theorem isReserved_withReserved (objectId : Bytes) :
    (ns.withReserved g).isReserved objectId = g.contains (fnv1a64 objectId) := rfl

@[simp] theorem leases_withReserved : (ns.withReserved g).leases = ns.leases := rfl

@[simp] theorem anyReserved_withReserved :
    (ns.withReserved g).anyReserved = g.any (· != 0) := rfl

@[simp] theorem read_withReserved (io : ReadEnv) (k : Key) :
    (ns.withReserved g).read io k = ns.read io k := rfl

theorem behindEviction_withReserved (active : Bool)
    (op : Arena L → Except ApplyError (Arena L)) :
    (ns.withReserved g).behindEviction active op
      = ((ns.behindEviction active op).1.withReserved g, (ns.behindEviction active op).2) := by
  simp only [behindEviction, withReserved]
  cases op ns.bindings with
  | ok a => rfl
  | error e =>
    cases e with
    | outOfCapacity =>
      dsimp only
      cases (if active then ns.bindings.evictOneSnapshotted else none) with
      | none => rfl
      | some a =>
        dsimp only
        cases op a <;> rfl
    | _ => rfl

theorem bindBinding_withReserved (k : Key) (b : Binding) :
    (ns.withReserved g).bindBinding k b
      = ((ns.bindBinding k b).1.withReserved g, (ns.bindBinding k b).2) :=
  behindEviction_withReserved _ _

theorem commitBinding_withReserved (k : Key) (b : Binding) :
    (ns.withReserved g).commitBinding k b
      = ((ns.commitBinding k b).1.withReserved g, (ns.commitBinding k b).2) :=
  behindEviction_withReserved _ _

theorem removeBinding_withReserved (k : Key) (revision : UInt64) :
    (ns.withReserved g).removeBinding k revision
      = ((ns.removeBinding k revision).1.withReserved g, (ns.removeBinding k revision).2) :=
  behindEviction_withReserved _ _

theorem renameBinding_withReserved (m : RenameMsg) :
    (ns.withReserved g).renameBinding m
      = ((ns.renameBinding m).1.withReserved g, (ns.renameBinding m).2) := by
  simp only [renameBinding, withReserved]
  cases ns.bindings.rename m.root m.source m.dest m.newRevision with
  | ok a => rfl
  | error e =>
    dsimp only
    by_cases hfull : (ns.snap.isSome && ns.bindings.full) = true
    · simp only [hfull, if_true]
      cases ns.bindings.evictOneSnapshottedSparing (some ⟨m.root, m.source⟩) with
      | none => rfl
      | some a =>
        dsimp only
        cases a.rename m.root m.source m.dest m.newRevision <;> rfl
    · simp only [hfull]
      rfl

theorem written_withReserved (p : Namespace L × Bool) :
    written (p.1.withReserved g, p.2) = ((written p).1.withReserved g, (written p).2) := rfl

/-! ## One record -/

/-- Standing reservations matter to a begin from the live holder and to no
other volume record. -/
theorem judgeVolumeAt_reserved {leases : LeaseTable L} {cur : Option Binding} {m : VolumeMsg}
    (h : m.mode = .start → m.nowMs ≠ 0 → m.key.path ≠ [] →
      (leases.touch m.key m.nowMs).2 = some true →
      (leases.touch m.key m.nowMs).1.holds m.key m.holder m.fence m.nowMs = false) :
    judgeVolumeAt leases false cur m = judgeVolumeAt leases true cur m := by
  simp only [judgeVolumeAt]
  split
  · rfl
  next hreq =>
  obtain ⟨hnow, hpath⟩ := not_or.mp hreq
  split
  · next t ht =>
    rw [ht] at h
    cases hm : m.mode with
    | start => simp [judgeVolumeMode, hm, h hm hnow hpath rfl]
    | _ => simp [judgeVolumeMode, hm]
  · rfl

/-- A record judged without its verdict turning on the reservations does the
same under none, and is refused under none exactly if it is refused. -/
theorem Sound.applyOp_noReservations (h : ns.Sound) {r : Record}
    (hg : ∀ o n, r ≠ .gcReserve o n) (hr : ∀ o, r ≠ .gcRelease o)
    (hd : ns.decidedByReservation r = false) :
    ((ns.withReserved noReservations).applyOp .allReady r).1
        = (ns.applyOp .allReady r).1.withReserved noReservations ∧
      ((ns.withReserved noReservations).applyOp .allReady r).2.isRefusal
        = (ns.applyOp .allReady r).2.isRefusal := by
  cases r with
  | gcReserve o n => exact absurd rfl (hg o n)
  | gcRelease o => exact absurd rfl (hr o)
  | undecodable => exact ⟨rfl, rfl⟩
  | lease m =>
    simp only [applyOp]
    split <;> exact ⟨rfl, rfl⟩
  | leaseRestore e f s =>
    simp only [applyOp, applyLeaseRestore, withReserved]
    cases ns.leases.restore e f s <;> exact ⟨rfl, rfl⟩
  | bindingRestore m =>
    simp only [applyOp, applyBindingRestore, read_withReserved,
      commitBinding_withReserved, removeBinding_withReserved, written_withReserved,
      h.read_allReady]
    split
    · exact ⟨rfl, rfl⟩
    split
    · exact ⟨rfl, rfl⟩
    · split <;> exact ⟨rfl, rfl⟩
  | retain m =>
    simp only [applyOp, applyRetain, read_withReserved, commitBinding_withReserved,
      written_withReserved, h.read_allReady]
    split
    · exact ⟨rfl, rfl⟩
    cases judgeRetain (ns.view m.key) m with
    | error f => exact ⟨rfl, rfl⟩
    | ok w => cases w <;> exact ⟨rfl, rfl⟩
  | unbind m =>
    simp only [applyOp, applyUnbind, read_withReserved, removeBinding_withReserved,
      written_withReserved, h.read_allReady]
    cases judgeUnbind (ns.view m.key) m with
    | error f => exact ⟨rfl, rfl⟩
    | ok w => cases w <;> exact ⟨rfl, rfl⟩
  | rename m =>
    simp only [applyOp, applyRename, read_withReserved, renameBinding_withReserved,
      written_withReserved, h.read_allReady]
    split
    · exact ⟨rfl, rfl⟩
    cases judgeRename (ns.view ⟨m.root, m.source⟩) (ns.view ⟨m.root, m.dest⟩) m <;>
      exact ⟨rfl, rfl⟩
  | bind m =>
    simp only [applyOp, applyBind, read_withReserved, bindBinding_withReserved,
      written_withReserved, isReserved_withReserved, h.read_allReady]
    cases hdec : m.decodes L with
    | false => exact ⟨rfl, rfl⟩
    | true =>
      simp only [Bool.not_true, Bool.false_eq_true, if_false]
      by_cases hpq : ns.isReserved m.binding.objectId
          = noReservations.contains (fnv1a64 m.binding.objectId)
      · rw [← hpq]
        split
        · exact ⟨rfl, rfl⟩
        split
        · exact ⟨rfl, rfl⟩
        cases judgeBind (ns.view m.key) m with
        | error f => exact ⟨rfl, rfl⟩
        | ok w => cases w <;> exact ⟨rfl, rfl⟩
      · -- the reservations disagree, so the bind is refused for another reason too
        by_cases hk : m.binding.kind = kindVolume
        · simp only [hk, if_true]
          split <;> split <;> exact ⟨rfl, rfl⟩
        cases he : judgeBind (ns.view m.key) m with
        | error f =>
          simp only [hk, if_false]
          split <;> split <;> exact ⟨rfl, rfl⟩
        | ok w =>
          have hne := bne_iff_ne.mpr hpq
          rw [decidedByReservation, hdec, he, hne, bne_iff_ne.mpr hk] at hd
          cases hd
  | volume m =>
    simp only [applyOp, applyVolume, read_withReserved, h.read_allReady]
    cases hdec : m.decodes L with
    | false => exact ⟨rfl, rfl⟩
    | true =>
      have hj : judgeVolumeAt ns.leases (noReservations.any (· != 0)) (ns.view m.key) m
          = judgeVolumeAt ns.leases ns.anyReserved (ns.view m.key) m := by
        rw [show noReservations.any (· != 0) = false from rfl]
        cases hres : ns.anyReserved with
        | false => rfl
        | true =>
          refine judgeVolumeAt_reserved fun hmode hnow hpath htouch => ?_
          rw [decidedByReservation, hres, hdec, hmode, bne_iff_ne.mpr hnow, htouch] at hd
          simpa [hpath] using hd
      simp only [Bool.not_true, Bool.false_eq_true, if_false, leases_withReserved,
        anyReserved_withReserved, hj]
      obtain ⟨leases, step⟩ := judgeVolumeAt ns.leases ns.anyReserved (ns.view m.key) m
      cases step with
      | answer status revision => exact ⟨rfl, rfl⟩
      | commit next =>
        have hc := @commitBinding_withReserved L { ns with leases := leases }
          noReservations m.key (m.root next)
        refine ⟨congrArg Prod.fst hc, ?_⟩
        simp only [withReserved] at hc ⊢
        simp only [hc]
      | delete =>
        have hc := @removeBinding_withReserved L { ns with leases := leases }
          noReservations m.key (m.expected + 1)
        refine ⟨congrArg Prod.fst hc, ?_⟩
        simp only [withReserved] at hc ⊢
        simp only [hc]

/-- One record replayed where the same record was judged live. -/
theorem Sound.replayApply_noReservations (h : ns.Sound) {r : Record}
    (hd : ns.decidedByReservation r = false) :
    (ns.withReserved noReservations).replayApply .allReady r
      = (ns.liveStep r).withReserved noReservations := by
  cases r with
  | gcReserve o n => rfl
  | gcRelease o => rfl
  | bind | rename | unbind | retain | volume | lease | leaseRestore | bindingRestore |
    undecodable => exact (h.applyOp_noReservations (by simp) (by simp) hd).1

/-! ## The whole log -/

/-- A run none of whose verdicts turns on the reservations. -/
abbrev ReservationsSilent (L : Limits) (log : List Record) : Prop :=
  Run.AllSteps liveStep (fun ns r => ns.decidedByReservation r = false) (new L) log

/-- The replay of such a run is the run, without its reservations. -/
theorem replay_eq_withReserved {log : List Record} (h : ReservationsSilent L log) :
    (liveRun L log).Sound ∧
      (new L).replay log = (liveRun L log).withReserved noReservations := by
  refine Run.simulation (R := fun ns t => ns.Sound ∧ t = ns.withReserved noReservations)
    ?_ ⟨sound_new, rfl⟩ h
  rintro ns t r ⟨hs, rfl⟩ hd
  exact ⟨hs.sound_applyOp _ r, hs.replayApply_noReservations hd⟩

/-- **A restart from the log alone reaches the state that wrote it**, when no
verdict of the run turned on a deletion reservation: the same bindings,
tombstones and retention, the same lease table, and every record that was
refused is refused again. -/
theorem replay_eq_liveRun (log : List Record) (h : ReservationsSilent L log) :
    ((new L).replay log).bindings = (liveRun L log).bindings ∧
      ((new L).replay log).leases = (liveRun L log).leases ∧
      ∀ pre r post, log = pre ++ r :: post →
        (∀ o n, r ≠ .gcReserve o n) → (∀ o, r ≠ .gcRelease o) →
        (((new L).replay pre).applyOp .allReady r).2.isRefusal
          = ((liveRun L pre).applyOp .allReady r).2.isRefusal := by
  obtain ⟨-, hrep⟩ := replay_eq_withReserved h
  refine ⟨by rw [hrep]; rfl, by rw [hrep]; rfl, ?_⟩
  rintro pre r post rfl hg hr
  obtain ⟨hpre, hd, -⟩ := Run.allSteps_append.mp h
  obtain ⟨hs, hrep'⟩ := replay_eq_withReserved hpre
  rw [hrep']
  exact (hs.applyOp_noReservations hg hr hd).2

/-! A sweep reserves the id `[1]`; a bind of that id is refused, and a restart
binds it. -/

/-- The key the examples bind. -/
def exampleKey : Key := ⟨[], [107]⟩

/-- A bind of `objectId` at the example key. -/
def exampleBind (objectId : Bytes) (revision : UInt64) : Record :=
  .bind ⟨exampleKey, ⟨revision, 0, objectId, Meta.none⟩, .any, 0⟩

/-- A reservation, and the bind it refuses. -/
def reserveThenBind : List Record := [.gcReserve [1] 5, exampleBind [1] 1]

/-- **The bind refused for its reservation is applied by the replay.** -/
theorem replay_binds_reserved :
    (∀ r ∈ reserveThenBind, r.fromWire = true) ∧
      ((liveRun .minimal [.gcReserve [1] 5]).applyOp .allReady (exampleBind [1] 1)).2
        = .refused .reserved ∧
      ((liveRun .minimal reserveThenBind).bindings.binding exampleKey) = none ∧
      (((new .minimal).replay reserveThenBind).bindings.binding exampleKey)
        = some ⟨1, 0, [1], Meta.none⟩ := by
  decide

/-- A run that reserves one id and binds another, takes a lease and commits a
volume under it. -/
def reserveOneBindAnother : List Record :=
  [.gcReserve [1] 5, exampleBind [2] 1, exampleBind [2] 1, .gcRelease [1],
    .lease ⟨1, ⟨[], [118]⟩, [7], 10, 1000⟩,
    .volume ⟨.start, ⟨[], [118]⟩, [], [7], 1, 0, 11⟩,
    .volume ⟨.commit, ⟨[], [118]⟩, [9], [7], 1, 0, 12⟩]

theorem replay_eq_liveRun_witness :
    ((new .minimal).replay reserveOneBindAnother).bindings
        = (liveRun .minimal reserveOneBindAnother).bindings ∧
      ((new .minimal).replay reserveOneBindAnother).leases
        = (liveRun .minimal reserveOneBindAnother).leases ∧
      ∀ pre r post, reserveOneBindAnother = pre ++ r :: post →
        (∀ o n, r ≠ .gcReserve o n) → (∀ o, r ≠ .gcRelease o) →
        (((new .minimal).replay pre).applyOp .allReady r).2.isRefusal
          = ((liveRun .minimal pre).applyOp .allReady r).2.isRefusal :=
  replay_eq_liveRun reserveOneBindAnother (by decide)

end Namespace

end Loam

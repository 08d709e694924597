import Loam.ProposerTable

/-!
# The replay-drained marker

Readers wait for the marker, which is to come once every proposal recovered
from the log is resolved. The proposer counts: the counter starts at the
proposals recovered, and every commit it passes on takes one off. It is right
as long as the commits passed on while it counts are those of recovered
proposals and no recovered proposal is aborted; a fresh proposal's commit
takes off one that is still to come, and an abort takes off none.
-/

namespace Loam

namespace Proposer

/-- The recovered proposals that are pending. -/
def recoveredPending (s : Proposer) : ℕ := s.entries.countP fun o => o.any (·.recovered)

end Proposer

namespace ProposerWorld

variable {cfg : ProposerConfig} {w w' : ProposerWorld} {cid : UInt32} {proof : CommitProof}
  {wr : ChannelWrite}

/-- The Committed of a fresh proposal is passed on while recovered ones are
counted. -/
def CommitsFresh (w : ProposerWorld) (cid : UInt32) (wr : ChannelWrite) : Prop :=
  ∃ e i, w.proposer.findPending cid = some (e, i) ∧ e.recovered = false ∧ wr = .all ∧
    committedHdr + e.inner.length ≤ appendScratch ∧ 0 < w.proposer.replayOutstanding

/-- None of the entries that are answered in turn is such. -/
def RedriveTracks (cfg : ProposerConfig) (w : ProposerWorld) :
    List UInt32 → List ChannelWrite → Prop
  | [], _ => True
  | cid :: cids, wrs =>
    ¬ w.CommitsFresh cid (wrs.headD .none) ∧
      ((w.takeEpoch.emitCommittedFor cid (localProof cfg w.proposer.nextEpoch)
          (wrs.headD .none)).2 = true →
        RedriveTracks cfg (w.takeEpoch.emitCommittedFor cid
          (localProof cfg w.proposer.nextEpoch) (wrs.headD .none)).1 cids wrs.tail)

/-- The event takes the counter with the recovered proposals: no Committed of
a fresh proposal is passed on while it counts, and no recovered proposal is
aborted. -/
def Tracks (cfg : ProposerConfig) (w : ProposerWorld) : ProposerEvent → Prop
  | .result cid _ (.committed _) wr => ¬ w.CommitsFresh cid wr
  | .result cid _ .aborted _ =>
    ∀ e i, w.proposer.findPending cid = some (e, i) → e.recovered = false
  | .propose p _ wr _ => cfg.replicated = false → ∀ s cid,
      w.proposer.reservePending cfg w.proposals.length false p = some (s, cid) →
      ¬ CommitsFresh { w with proposer := s } cid wr
  | .catchUp _ wrs => cfg.replicated = false →
      w.RedriveTracks cfg ((w.proposer.entries.filterMap fun o =>
        o.map PendingEntry.correlationId).take cfg.limits.opsPerStep) wrs
  | _ => True

/-- The counter counts the recovered proposals that are pending, and the
marker has gone out at most once, after the last of them. -/
structure Counts (w : ProposerWorld) : Prop where
  counter : w.proposer.replayOutstanding = w.proposer.recoveredPending
  drained : w.proposer.replayMarkerSent = true → w.proposer.recoveredPending = 0
  once : w.results.count .replayDrained = if w.proposer.replayMarkerSent then 1 else 0

/-! ## What each operation does to the counts -/

/-- The entries, the counter and the flag decide the counts, with the results
on the channel. -/
theorem Counts.congr (h : w.Counts) (he : w'.proposer.entries = w.proposer.entries)
    (ho : w'.proposer.replayOutstanding = w.proposer.replayOutstanding)
    (hm : w'.proposer.replayMarkerSent = w.proposer.replayMarkerSent)
    (hr : w'.results.count .replayDrained = w.results.count .replayDrained) : w'.Counts := by
  have hrec : w'.proposer.recoveredPending = w.proposer.recoveredPending := by
    rw [Proposer.recoveredPending, he]
    rfl
  exact ⟨by rw [ho, hrec]; exact h.counter, by rw [hm, hrec]; exact h.drained,
    by rw [hr, hm]; exact h.once⟩

theorem OnlyForwards.counts (hf : w.OnlyForwards w') (h : w.Counts) : w'.Counts := by
  have heq := hf.eq
  refine h.congr hf.entries ?_ ?_ ?_ <;> rw [heq]

theorem count_landed {r : ResultRecord} (hr : r ≠ .replayDrained) (wr : ChannelWrite) :
    (landed r wr).count .replayDrained = 0 := by
  cases wr with
  | all => simp [landed, hr]
  | part | none => rfl

theorem Counts.write (h : w.Counts) {r : ResultRecord} (hr : r ≠ .replayDrained)
    (wr : ChannelWrite) : (w.write r wr).Counts := by
  refine h.congr (by rw [write_proposer]) (by rw [write_proposer]) (by rw [write_proposer]) ?_
  rw [write_results, List.count_append, count_landed hr, Nat.add_zero]

/-- The recovered entries once one is freed. -/
theorem recoveredPending_freeSlot {s : Proposer} {e : PendingEntry} {i : ℕ}
    (hf : s.findPending cid = some (e, i)) :
    s.recoveredPending = (s.freeSlot i).recoveredPending + if e.recovered then 1 else 0 := by
  obtain ⟨hget, -⟩ := Proposer.mem_of_findPending hf
  obtain ⟨hi, hget⟩ := List.getElem?_eq_some_iff.mp hget
  rw [Proposer.recoveredPending, Proposer.recoveredPending, Proposer.entries_freeSlot,
    List.countP_set hi, hget]
  have hpos : e.recovered = true → 0 < s.entries.countP fun o => o.any (·.recovered) := by
    intro hr
    refine List.countP_pos_iff.mpr ⟨some e, ?_, hr⟩
    rw [← hget]
    exact List.getElem_mem hi
  cases hr : e.recovered with
  | false => simp [hr]
  | true =>
    have := hpos hr
    simp only [Option.any_some, hr, Option.any_none, if_true, Bool.false_eq_true, if_false]
    omega

/-- **A Committed that is not a fresh proposal's** keeps the counts. -/
theorem Counts.emitCommittedFor (h : w.Counts) (proof : CommitProof)
    (hn : ¬ w.CommitsFresh cid wr) :
    (w.emitCommittedFor cid proof wr).1.Counts := by
  rcases w.emitCommittedFor_cases cid proof wr with ⟨e, i, hf, hwr, hlen, he⟩ | he | ⟨-, he⟩
  · rw [he]
    have hfree := recoveredPending_freeSlot hf
    have hcounter := h.counter
    have hfresh : e.recovered = false → w.proposer.replayOutstanding = 0 := fun hr =>
      Nat.eq_zero_of_not_pos fun hpos => hn ⟨e, i, hf, hr, hwr, hlen, hpos⟩
    refine ⟨?_, fun hm => ?_, ?_⟩
    · show w.proposer.replayOutstanding - 1 = (w.proposer.freeSlot i).recoveredPending
      cases hr : e.recovered with
      | false =>
        rw [hr, if_neg Bool.false_ne_true] at hfree
        have := hfresh hr
        omega
      | true =>
        rw [hr, if_pos rfl] at hfree
        omega
    · show (w.proposer.freeSlot i).recoveredPending = 0
      have := h.drained hm
      omega
    · show (w.results ++ [commitRecord e proof]).count .replayDrained = _
      rw [List.count_append, h.once]
      rfl
  · rw [he]
    exact h
  · rw [he]
    exact h.congr rfl rfl rfl (by simp)

theorem Counts.reserve (h : w.Counts) {s : Proposer} {id : ℕ} {p : Propose}
    (hr : w.proposer.reservePending cfg id false p = some (s, cid)) (ids : List ℕ) :
    Counts { w with proposer := s, accepted := ids } := by
  obtain ⟨-, -, i, hi, hent, hs⟩ := Proposer.reservePending_spec hr
  have hlt := (SlotTable.free_eq_some hi).1
  have hnone : (w.proposer.entries[i]).isNone = true := by
    obtain ⟨hi', hn, -⟩ := List.findIdx?_eq_some_iff_getElem.mp hi
    exact hn
  have hrec : s.recoveredPending = w.proposer.recoveredPending := by
    rw [Proposer.recoveredPending, hent, List.countP_set hlt, Option.isNone_iff_eq_none.mp hnone]
    simp [Proposer.recoveredPending, Proposer.reserved]
  have hrest : s.replayOutstanding = w.proposer.replayOutstanding ∧
      s.replayMarkerSent = w.proposer.replayMarkerSent := by
    rw [hs]
    exact ⟨rfl, rfl⟩
  exact ⟨hrest.1.trans (h.counter.trans hrec.symm), fun hm => hrec.trans (h.drained
    (hrest.2.symm.trans hm)), h.once.trans (by rw [hrest.2])⟩

theorem Counts.redriveEach (cids : List UInt32) {wrs : List ChannelWrite} (h : w.Counts)
    (ht : w.RedriveTracks cfg cids wrs) : (w.redriveEach cfg cids wrs).Counts := by
  induction cids generalizing w wrs with
  | nil => exact h
  | cons cid cids ih =>
    obtain ⟨hfresh, hrest⟩ := ht
    have hepoch : w.takeEpoch.Counts := h.congr rfl rfl rfl rfl
    have hone := hepoch.emitCommittedFor (localProof cfg w.proposer.nextEpoch) hfresh
    unfold ProposerWorld.redriveEach
    rcases he : w.takeEpoch.emitCommittedFor cid (localProof cfg w.proposer.nextEpoch)
      (wrs.headD .none) with ⟨w₁, ok⟩
    rw [he] at hone hrest
    cases ok with
    | true => exact ih hone (hrest rfl)
    | false => exact hone

theorem Counts.admitProposal (h : w.Counts) {id : ℕ} {p : Propose} (wr : ChannelWrite)
    (fw : ForwardWrite)
    (ht : cfg.replicated = false → ∀ s cid,
      w.proposer.reservePending cfg id false p = some (s, cid) →
      ¬ CommitsFresh { w with proposer := s } cid wr) :
    (w.admitProposal cfg id p wr fw).Counts := by
  unfold ProposerWorld.admitProposal
  cases hr : w.proposer.reservePending cfg id false p with
  | none =>
    exact Counts.write (w := { w with resolved := w.resolved ++ [id] })
      (h.congr rfl rfl rfl rfl) (by nofun) wr
  | some q =>
    obtain ⟨s, cid⟩ := q
    have hs := h.reserve hr (w.accepted ++ [id])
    dsimp only
    split
    · exact (forwardToClustor_onlyForwards _ cid fw).counts hs
    next hrep =>
    refine Counts.emitCommittedFor
      (w := takeEpoch { w with proposer := s, accepted := w.accepted ++ [id] })
      (hs.congr rfl rfl rfl rfl) (localProof cfg s.nextEpoch) ?_
    exact ht (by simpa using hrep) s cid hr

/-! ## The boot -/

variable (cfg) in
/-- A replayed record leaves the flag and the results, and every entry
recovered. -/
theorem replayRecord_recovered (r : ProposeRecord)
    (h : ∀ o ∈ w.proposer.entries, ∀ e ∈ o, e.recovered = true) :
    (∀ o ∈ (w.replayRecord cfg r).proposer.entries, ∀ e ∈ o, e.recovered = true) ∧
      (w.replayRecord cfg r).proposer.replayMarkerSent = w.proposer.replayMarkerSent ∧
      (w.replayRecord cfg r).results = w.results := by
  unfold replayRecord
  cases hr : r.decoded.bind fun p => w.proposer.reservePending cfg r.id true p with
  | none => exact ⟨h, rfl, rfl⟩
  | some q =>
    obtain ⟨s, cid⟩ := q
    obtain ⟨p, -, hres⟩ := Option.bind_eq_some_iff.mp hr
    obtain ⟨-, -, i, -, hent, hs⟩ := Proposer.reservePending_spec hres
    refine ⟨?_, by rw [hs], rfl⟩
    rw [show ({ w with proposer := s, accepted := w.accepted ++ [r.id] } : ProposerWorld).proposer
      = s from rfl, hent]
    intro o ho e he
    rcases List.mem_or_eq_of_mem_set ho with ho | rfl
    · exact h o ho e he
    cases he
    rfl

/-- **A boot counts what it recovered**, whatever was before. -/
theorem counts_boot (w : ProposerWorld) : (w.boot cfg).Counts := by
  have hempty : (Proposer.new cfg).entries = List.replicate cfg.limits.pending none := by
    simp [Proposer.new, Proposer.entries]
  have hfold : ∀ (rs : List ProposeRecord) (w : ProposerWorld),
      (∀ o ∈ w.proposer.entries, ∀ e ∈ o, e.recovered = true) →
      w.proposer.replayMarkerSent = false → w.results = [] →
      (rs.foldl (replayRecord cfg) w).countReplayed.Counts := by
    intro rs
    induction rs with
    | nil =>
      intro w hrec hm hres
      refine ⟨?_, fun hs => ?_, ?_⟩
      · show w.proposer.inFlight = w.proposer.recoveredPending
        rw [Proposer.inFlight, SlotTable.length_used]
        refine List.countP_congr fun o ho => ?_
        cases o with
        | none => rfl
        | some e => simp [hrec _ ho e rfl]
      · cases hm.symm.trans hs
      · show w.results.count .replayDrained = if w.proposer.replayMarkerSent then 1 else 0
        rw [hres, hm]
        rfl
    | cons r rs ih =>
      intro w hrec hm hres
      obtain ⟨hrec', hm', hres'⟩ := replayRecord_recovered cfg r hrec
      exact ih _ hrec' (hm'.trans hm) (hres'.trans hres)
  have hnone : ∀ o ∈ (Proposer.new cfg).entries, ∀ e ∈ o, e.recovered = true := by
    rw [hempty]
    intro o ho e he
    rw [(List.mem_replicate.mp ho).2] at he
    cases he
  unfold boot
  dsimp only
  split
  · refine ⟨?_, fun hs => absurd hs Bool.false_ne_true, rfl⟩
    show 0 = (Proposer.new cfg).recoveredPending
    rw [Proposer.recoveredPending, hempty, List.countP_replicate]
    rfl
  · exact hfold _ _ hnone rfl rfl

/-! ## The run -/

/-- **Every event that tracks keeps the counts.** -/
theorem Counts.step (h : w.Counts) {e : ProposerEvent} (ht : w.Tracks cfg e) :
    (w.step cfg e).Counts := by
  cases e with
  | propose p append wr fw =>
    have hread : ∀ log ids,
        Counts { w with proposals := w.proposals ++ [some p], log := log, durable := ids } :=
      fun log ids => h.congr rfl rfl rfl rfl
    have hrefused : ∀ log torn, Counts (ProposerWorld.write
        { w with
          proposals := w.proposals ++ [some p]
          log := log
          torn := torn
          resolved := w.resolved ++ [w.proposals.length] }
        (.aborted w.proposals.length p.correlationId) wr) := fun log torn =>
      Counts.write
        (w := { w with
          proposals := w.proposals ++ [some p]
          log := log
          torn := torn
          resolved := w.resolved ++ [w.proposals.length] })
        (h.congr rfl rfl rfl rfl) (by nofun) wr
    simp only [ProposerWorld.step, ProposerWorld.propose]
    split
    · exact hrefused _ _
    split
    · cases append with
      | durable => exact (hread _ _).admitProposal wr fw ht
      | failed left => cases left <;> exact hrefused _ _
    · exact (hread _ _).admitProposal wr fw ht
  | result cid of verdict wr =>
    cases verdict with
    | committed proof => exact h.emitCommittedFor proof ht
    | aborted =>
      simp only [ProposerWorld.step, ProposerWorld.result]
      cases hf : w.proposer.findPending cid with
      | none => exact h
      | some q =>
        obtain ⟨e, i⟩ := q
        have hfree := recoveredPending_freeSlot hf
        rw [ht e i hf, if_neg Bool.false_ne_true, Nat.add_zero] at hfree
        exact Counts.write
          (w := { w with
            proposer := w.proposer.freeSlot i, resolved := w.resolved ++ [e.proposal] })
          ⟨h.counter.trans hfree, fun hm => hfree.symm.trans (h.drained hm), h.once⟩
          (by nofun) wr
  | marker wr =>
    simp only [ProposerWorld.step, ProposerWorld.marker]
    split
    · next hdue =>
      obtain ⟨hdue, -⟩ := hdue
      simp only [markerDue, Bool.and_eq_true, Bool.not_eq_true', beq_iff_eq] at hdue
      refine ⟨h.counter, fun _ => h.counter.symm.trans hdue.2, ?_⟩
      show (w.results ++ [ResultRecord.replayDrained]).count .replayDrained = 1
      rw [List.count_append, h.once, hdue.1]
      rfl
    · exact h
  | rotate outcome =>
    simp only [ProposerWorld.step, ProposerWorld.rotate]
    split
    · cases outcome <;> exact h.congr rfl rfl rfl rfl
    · exact h
  | catchUp fws wrs =>
    by_cases hr : cfg.replicated = true
    · exact (catchUp_onlyForwards hr fws wrs).counts h
    simp only [ProposerWorld.step, ProposerWorld.catchUp]
    rw [if_neg hr]
    exact h.redriveEach _ (ht (by simpa using hr))
  | crash => exact counts_boot w

/-! ## The marker -/

/-- **The marker is exact**: it has gone out at most once, it is out only if no
recovered proposal is pending, and when none is, it is out or due. -/
structure MarkerExact (w : ProposerWorld) : Prop where
  /-- At most once: once if it is noted as sent, and not before. -/
  once : w.results.count .replayDrained = if w.proposer.replayMarkerSent then 1 else 0
  quiet : .replayDrained ∈ w.results → w.proposer.recoveredPending = 0
  /-- It is due once they are, and only then, and goes out when the channel
  takes it. -/
  due : w.proposer.recoveredPending = 0 ↔
    w.proposer.replayMarkerSent = true ∨ w.markerDue = true
  /-- When it is due and the channel takes it, it is out. -/
  sent : w.proposer.recoveredPending = 0 → .replayDrained ∈ (w.marker .all).results

theorem Counts.markerExact (h : w.Counts) : w.MarkerExact := by
  have hdue : w.proposer.recoveredPending = 0 ↔
      w.proposer.replayMarkerSent = true ∨ w.markerDue = true := by
    have hcounter := h.counter
    have hdrained := h.drained
    unfold markerDue
    cases hm : w.proposer.replayMarkerSent with
    | true => simp [hdrained hm]
    | false => simp [hcounter]
  have hout : .replayDrained ∈ w.results ↔ w.proposer.replayMarkerSent = true := by
    rw [← List.count_pos_iff, h.once]
    cases w.proposer.replayMarkerSent with
    | true => exact iff_of_true Nat.one_pos rfl
    | false => exact iff_of_false (Nat.lt_irrefl 0) Bool.false_ne_true
  refine ⟨h.once, fun hmem => h.drained (hout.mp hmem), hdue, fun hz => ?_⟩
  unfold marker
  split
  · exact List.mem_append_right _ (List.mem_singleton.mpr rfl)
  next hno =>
  rcases hdue.mp hz with hm | hd
  · exact hout.mpr hm
  · exact absurd ⟨hd, rfl⟩ hno

/-- **The marker is exact in every run that tracks**: whatever the log, the
order of results and the room of the channel, while the counter counts, no
Committed of a fresh proposal is passed on, and no recovered proposal is
aborted. -/
theorem marker_exact (cfg : ProposerConfig) (log : List (Option Propose))
    (es : List ProposerEvent) (hs : Run.AllSteps (step cfg) (Tracks cfg) (start cfg log) es) :
    (reached cfg log es).MarkerExact :=
  (Run.invariant (I := Counts) (fun _ _ h ht => h.step ht) (counts_boot _) hs).markerExact

/-- A member that recovered one proposal: a fresh one comes, the recovered one
is committed, and the marker goes out. -/
theorem marker_exact_member :
    (reached .member [some ⟨.namespacePlane, 7, [1]⟩]
      [.propose ⟨.namespacePlane, 9, [2]⟩ .durable .all .sent,
        .result 0x01000001 0 (.committed ⟨[], 1, 1, 2, [1]⟩) .all,
        .marker .all]).MarkerExact ∧
      .replayDrained ∈ (reached .member [some ⟨.namespacePlane, 7, [1]⟩]
        [.propose ⟨.namespacePlane, 9, [2]⟩ .durable .all .sent,
          .result 0x01000001 0 (.committed ⟨[], 1, 1, 2, [1]⟩) .all,
          .marker .all]).results := by
  refine ⟨marker_exact _ _ _ ⟨nofun, ?_, trivial, trivial⟩, by decide +kernel⟩
  rintro ⟨e, i, hfind, hrec, -⟩
  have hold : ((start .member [some ⟨.namespacePlane, 7, [1]⟩]).step .member
      (.propose ⟨.namespacePlane, 9, [2]⟩ .durable .all .sent)).proposer.findPending 0x01000001
        = some (⟨.namespacePlane, 0x01000001, 7, [1], 0, true⟩, 0) := by decide +kernel
  cases hold.symm.trans hfind
  cases hrec

/-- **The marker is not exact in every run.** A single replica that recovered a
proposal commits a fresh one before it answers the recovered one, and the
marker goes out while that is pending; a member whose group aborts the
recovered one never sends it. -/
theorem marker_early_and_missing :
    ¬ (reached .lone [some ⟨.namespacePlane, 7, [1]⟩]
        [.propose ⟨.namespacePlane, 9, [2]⟩ .durable .all .refused,
          .marker .all]).MarkerExact ∧
      ¬ (reached .member [some ⟨.namespacePlane, 7, [1]⟩]
        [.result 0x01000001 0 .aborted .all, .marker .all]).MarkerExact := by
  constructor
  · intro h
    have hearly := h.quiet (by decide +kernel)
    exact absurd hearly (by decide +kernel)
  · intro h
    have hmissing := h.due.mp (by decide +kernel)
    exact absurd hmissing (by decide +kernel)

end ProposerWorld

end Loam

import Loam.ProposerReplay

/-!
# Recovered proposals are forwarded again

At the end of a step the entries that wait are forwarded, the first of them
first. With a channel that takes them, as many steps as it takes to go through
the table once forward every entry a boot recovered, before the first of them
is old enough to wait again.
-/

namespace Loam

/-- The steps that forward a full table, a budget at a time. -/
def ProposerLimits.forwardRounds (l : ProposerLimits) : ℕ :=
  (l.pending + l.opsPerStep - 1) / l.opsPerStep

/-- The builds there are. -/
def ProposerLimits.IsBuild (l : ProposerLimits) : Prop := l = .constrained ∨ l = .server

namespace ProposerLimits

variable {l : ProposerLimits}

/-- The ids of a table do not wrap. -/
theorem IsBuild.pending_lt (h : l.IsBuild) : l.pending < 2 ^ 24 := by
  rcases h with rfl | rfl <;> decide

theorem IsBuild.pending_le (h : l.IsBuild) : l.pending ≤ l.forwardRounds * l.opsPerStep := by
  rcases h with rfl | rfl <;> decide

theorem IsBuild.exists_opsPerStep (h : l.IsBuild) : ∃ n, l.opsPerStep = n + 1 := by
  rcases h with rfl | rfl
  · exact ⟨3, rfl⟩
  · exact ⟨7, rfl⟩

/-- And before an entry waits again. -/
theorem IsBuild.rounds_lt (h : l.IsBuild) : l.forwardRounds < forwardRetryTicks := by
  rcases h with rfl | rfl <;> decide

end ProposerLimits

namespace ProposerWorld

variable {cfg : ProposerConfig} {w w' : ProposerWorld} {e : PendingEntry}
  {es rest : List PendingEntry} {id m : ℕ}

/-! ## The entries that wait -/

/-- The entry of a slot, if it waits to be forwarded. -/
def waitingEntry (x : PendingSlot) : Option PendingEntry := if x.forwarded then none else x.entry

/-- The entries that wait, in order. -/
def waitingEntries (w : ProposerWorld) : List PendingEntry :=
  w.proposer.pending.filterMap waitingEntry

/-- What is forwarded for an entry. -/
def forwardedEntry (e : PendingEntry) : ForwardedEntry :=
  ⟨e.plane, e.correlationId, e.inner, e.proposal⟩

theorem waiting_eq (x : PendingSlot) :
    waiting x = (waitingEntry x).map PendingEntry.correlationId := by
  unfold waiting waitingEntry
  split <;> rfl

theorem filterMap_waiting (l : List PendingSlot) :
    l.filterMap waiting = (l.filterMap waitingEntry).map PendingEntry.correlationId := by
  rw [List.map_filterMap]
  exact List.filterMap_congr fun x _ => waiting_eq x

/-- The first entry that waits, and what waits once it is forwarded. -/
theorem exists_of_waiting {l : List PendingSlot} (h : l.filterMap waitingEntry = e :: es) :
    ∃ i x, l[i]? = some x ∧ x.entry = some e ∧
      (l.modify i fun x => { x with forwarded := true, forwardAge := 0 }).filterMap waitingEntry
        = es := by
  induction l with
  | nil => cases h
  | cons x l ih =>
    cases hx : waitingEntry x with
    | none =>
      rw [List.filterMap_cons_none hx] at h
      obtain ⟨i, y, hget, hy, hrest⟩ := ih h
      refine ⟨i + 1, y, hget, hy, ?_⟩
      rw [List.modify_succ_cons, List.filterMap_cons_none hx, hrest]
    | some e' =>
      rw [List.filterMap_cons_some hx, List.cons.injEq] at h
      obtain ⟨rfl, hrest⟩ := h
      refine ⟨0, x, rfl, ?_, ?_⟩
      · unfold waitingEntry at hx
        split at hx
        · cases hx
        · exact hx
      · rw [List.modify_zero_cons, List.filterMap_cons_none (by simp [waitingEntry])]
        exact hrest

/-! ## A round -/

/-- No slot is older than this, and every id has one slot. -/
structure Young (w : ProposerWorld) (m : ℕ) : Prop where
  unique : SlotTable.Unique PendingEntry.correlationId w.proposer.entries
  age : ∀ x ∈ w.proposer.pending, x.forwardAge ≤ m

/-- **The first entry that waits is forwarded**, and waits no more. -/
theorem forwardToClustor_sent (hy : w.Young m) (hw : w.waitingEntries = e :: es) :
    ∃ w', w.forwardToClustor e.correlationId .sent = (w', true) ∧ w'.Young m ∧
      w'.waitingEntries = es ∧ w'.forwarded = w.forwarded ++ [forwardedEntry e] := by
  obtain ⟨i, x, hget, hx, hrest⟩ := exists_of_waiting hw
  have hused : (e, i) ∈ SlotTable.used w.proposer.entries := by
    rw [SlotTable.mem_used, Proposer.entries, List.getElem?_map, hget, Option.map_some, hx]
  have hfind : w.proposer.findPending e.correlationId = some (e, i) :=
    hy.unique.find_eq_some_iff.mpr ⟨hused, rfl⟩
  refine ⟨{ w with
    forwarded := w.forwarded ++ [forwardedEntry e]
    proposer := w.proposer.markForwarded i }, ?_, ⟨?_, fun y hmem => ?_⟩, hrest, rfl⟩
  · rw [forwardToClustor, hfind]
    rfl
  · rw [Proposer.entries_markForwarded]
    exact hy.unique
  · obtain ⟨j, hj⟩ := List.mem_iff_getElem?.mp hmem
    replace hj : (w.proposer.pending.modify i _)[j]? = some y := hj
    rw [List.getElem?_modify, Option.map_eq_map, Option.map_eq_some_iff] at hj
    obtain ⟨z, hz, rfl⟩ := hj
    split
    · exact Nat.zero_le _
    · exact hy.age z (List.mem_of_getElem? hz)

theorem forwardEach_sent (hy : w.Young m) (hw : w.waitingEntries = es ++ rest) (n : ℕ)
    (hn : es.length ≤ n) :
    (w.forwardEach (es.map PendingEntry.correlationId) (List.replicate n .sent)).Young m ∧
      (w.forwardEach (es.map PendingEntry.correlationId)
        (List.replicate n .sent)).waitingEntries = rest ∧
      (w.forwardEach (es.map PendingEntry.correlationId)
        (List.replicate n .sent)).forwarded = w.forwarded ++ es.map forwardedEntry := by
  induction es generalizing w n with
  | nil => exact ⟨hy, hw, (List.append_nil _).symm⟩
  | cons e es ih =>
    obtain ⟨n, rfl⟩ := Nat.exists_eq_add_of_lt (Nat.lt_of_lt_of_le (Nat.succ_pos _) hn)
    obtain ⟨w', hone, hy', hw', hf⟩ := forwardToClustor_sent hy hw
    rw [Nat.zero_add, List.replicate_succ, List.map_cons, forwardEach, List.headD_cons, hone,
      List.tail_cons]
    have hlen : es.length ≤ n := by
      rw [List.length_cons] at hn
      omega
    obtain ⟨h₁, h₂, h₃⟩ := ih hy' hw' n hlen
    refine ⟨h₁, h₂, h₃.trans ?_⟩
    rw [hf, List.map_cons, List.append_assoc]
    rfl

theorem waitingEntry_age (x : PendingSlot) (h : x.forwardAge + 1 < forwardRetryTicks) :
    waitingEntry (age x) = waitingEntry x := by
  unfold age
  split
  · rw [if_neg (Nat.not_le.mpr h)]
    rfl
  · rfl

theorem forwardAge_age (x : PendingSlot) : (age x).forwardAge ≤ x.forwardAge + 1 := by
  unfold age
  split
  · split
    · exact Nat.zero_le _
    · exact Nat.le_refl _
  · exact Nat.le_succ _

/-- The end of a step whose channel takes every entry. -/
def takingAll (cfg : ProposerConfig) : ProposerEvent :=
  .catchUp (List.replicate cfg.limits.opsPerStep .sent) []

/-- **A step forwards the first that wait**, as many as its budget. -/
theorem step_takingAll (hr : cfg.replicated = true) (hy : w.Young m)
    (hm : m + 1 < forwardRetryTicks) :
    (w.step cfg (takingAll cfg)).Young (m + 1) ∧
      (w.step cfg (takingAll cfg)).waitingEntries
        = w.waitingEntries.drop cfg.limits.opsPerStep ∧
      (w.step cfg (takingAll cfg)).forwarded
        = w.forwarded ++ (w.waitingEntries.take cfg.limits.opsPerStep).map forwardedEntry := by
  have haged : Young { w with
      proposer := { w.proposer with pending := w.proposer.pending.map age } } (m + 1) := by
    refine ⟨?_, fun x hx => ?_⟩
    · have hent : (w.proposer.pending.map age).map PendingSlot.entry = w.proposer.entries := by
        rw [List.map_map]
        exact List.map_congr_left fun x _ => age_entry x
      show SlotTable.Unique _ ((w.proposer.pending.map age).map PendingSlot.entry)
      rw [hent]
      exact hy.unique
    · obtain ⟨y, hmem, rfl⟩ := List.mem_map.mp hx
      exact (forwardAge_age y).trans (Nat.succ_le_succ (hy.age y hmem))
  have hwait : (w.proposer.pending.map age).filterMap waitingEntry = w.waitingEntries := by
    rw [List.filterMap_map]
    refine List.filterMap_congr fun x hx => waitingEntry_age x ?_
    exact Nat.lt_of_le_of_lt (Nat.succ_le_succ (hy.age x hx)) hm
  simp only [takingAll, step, catchUp]
  rw [if_pos hr, filterMap_waiting, hwait, ← List.map_take]
  refine forwardEach_sent haged ?_ _ (List.length_take_le _ _)
  exact hwait.trans (List.take_append_drop _ _).symm

/-- Steps in a row go through the entries that wait. -/
theorem run_takingAll (hr : cfg.replicated = true) (n : ℕ) (hy : w.Young m)
    (hm : m + n < forwardRetryTicks) :
    (Run.run (step cfg) w (List.replicate n (takingAll cfg))).forwarded
      = w.forwarded ++ (w.waitingEntries.take (n * cfg.limits.opsPerStep)).map forwardedEntry := by
  induction n generalizing w m with
  | zero => simp
  | succ n ih =>
    obtain ⟨hy', hwait, hfwd⟩ := step_takingAll hr hy (by omega)
    rw [List.replicate_succ, Run.run_cons, ih hy' (by omega), hwait, hfwd, List.append_assoc,
      ← List.map_append, Nat.succ_mul, Nat.add_comm (n * _), List.take_add]

/-! ## A restart -/

theorem filterMap_waitingEntry_new (l : List (Option PendingEntry)) :
    (l.map fun o => (⟨o, false, 0⟩ : PendingSlot)).filterMap waitingEntry
      = l.filterMap fun o => o := by
  rw [List.filterMap_map]
  rfl

theorem waitingEntries_boot (cfg : ProposerConfig) (w : ProposerWorld) :
    (w.boot cfg).waitingEntries
      = ((recoverable cfg w).mapIdx (recoveredEntry cfg)).take cfg.limits.pending := by
  rw [waitingEntries, (replayed_boot cfg w).pending, recoveredTable, filterMap_waitingEntry_new,
    SlotTable.pack, List.filterMap_append, List.filterMap_map]
  simp

/-- After a boot, every id has one slot, and no entry has an age. -/
theorem young_boot (hb : cfg.limits.IsBuild) (w : ProposerWorld) : (w.boot cfg).Young 0 := by
  refine ⟨?_, fun x hx => ?_⟩
  · rw [(replayed_boot cfg w).entries]
    intro a b i j ha hb' he
    obtain ⟨hi, ha⟩ := SlotTable.mem_used_pack.mp ha
    obtain ⟨hj, hb'⟩ := SlotTable.mem_used_pack.mp hb'
    rw [List.getElem?_mapIdx, Option.map_eq_some_iff] at ha hb'
    obtain ⟨s, -, rfl⟩ := ha
    obtain ⟨t, -, rfl⟩ := hb'
    have hlt := hb.pending_lt
    exact Proposer.scopedId_injOn (by omega) (by omega) he
  · rw [(replayed_boot cfg w).pending] at hx
    obtain ⟨o, -, rfl⟩ := List.mem_map.mp hx
    exact Nat.le_refl 0

/-- **A restart here recovers the proposal**: the boot holds it, and in a group
it is forwarded again within the steps that go through a table. -/
def RecoveredAt (cfg : ProposerConfig) (w : ProposerWorld) (id : ℕ) : Prop :=
  ∃ p, w.proposals[id]? = some (some p) ∧ (w.boot cfg).proposer.Holds id p ∧
    (cfg.replicated = true → ∃ x ∈ (Run.run (step cfg) (w.boot cfg)
        (List.replicate cfg.limits.forwardRounds (takingAll cfg))).forwarded.drop
        w.forwarded.length,
      x.proposal = id ∧ x.plane = p.plane ∧ x.inner = p.inner)

theorem forwarded_of_holds (hb : cfg.limits.IsBuild) (hr : cfg.replicated = true) {p : Propose}
    (hp : (w.boot cfg).proposer.Holds id p) :
    ∃ x ∈ (Run.run (step cfg) (w.boot cfg)
        (List.replicate cfg.limits.forwardRounds (takingAll cfg))).forwarded.drop
        w.forwarded.length,
      x.proposal = id ∧ x.plane = p.plane ∧ x.inner = p.inner := by
  obtain ⟨e, i, he, rfl, rfl⟩ := hp
  obtain ⟨-, -, -, -, hfwd, -, -⟩ := boot_keeps cfg w
  rw [run_takingAll hr _ (young_boot hb w) (by rw [Nat.zero_add]; exact hb.rounds_lt), hfwd,
    List.drop_left, waitingEntries_boot cfg, List.take_take, Nat.min_eq_right hb.pending_le]
  refine ⟨forwardedEntry e, List.mem_map_of_mem ?_, rfl, rfl, rfl⟩
  rw [(replayed_boot cfg w).entries, SlotTable.mem_used_pack] at he
  refine List.mem_of_getElem? (i := i) ?_
  rw [List.getElem?_take, if_pos he.1, he.2]

theorem logged_device (cfg : ProposerConfig) (log : List (Option Propose)) :
    (device cfg log).Logged := by
  refine ⟨fun r hr => ?_, ?_, fun r hr => ?_⟩
  · obtain ⟨⟨o, i⟩, hi, rfl⟩ := List.mem_map.mp hr
    rw [List.mem_zipIdx_iff_getElem?] at hi
    exact (List.getElem?_eq_some_iff.mp hi).1
  · show ((log.zipIdx.map fun p => (⟨p.2, p.1⟩ : ProposeRecord)).map ProposeRecord.id).Nodup
    rw [List.map_map, show ProposeRecord.id ∘ (fun p : Option Propose × ℕ =>
      (⟨p.2, p.1⟩ : ProposeRecord)) = Prod.snd from rfl, List.zipIdx_map_snd]
    exact List.nodup_range'
  · obtain ⟨⟨o, i⟩, hi, rfl⟩ := List.mem_map.mp hr
    exact List.mem_zipIdx_iff_getElem?.mp hi

/-- Nothing is unresolved before the first event. -/
theorem keeps_start (cfg : ProposerConfig) (log : List (Option Propose)) :
    (start cfg log).Keeps cfg := by
  have hdevice : (device cfg log).Keeps cfg := by
    refine ⟨logged_device cfg log, fun id hid => absurd hid.1 List.not_mem_nil, ?_⟩
    rintro (ho | hd)
    · simpa [device, Proposer.new] using ho
    · exact absurd rfl hd
  exact hdevice.boot fun id hid => absurd hid.1 List.not_mem_nil

/-- A restart recovers an unresolved proposal exactly when no torn frame and
fewer proposals than there are slots precede it in the log. -/
theorem Keeps.recoveredAt_iff (h : w.Keeps cfg) (hb : cfg.limits.IsBuild) (hu : w.Unresolved id) :
    w.RecoveredAt cfg id ↔ w.Reads id ∧ w.ahead id < cfg.limits.pending := by
  obtain ⟨p, hlog, hlen, -⟩ := h.kept id hu
  have hw := h.opened (.inr (List.ne_nil_of_mem hu.1))
  have hread := h.asRead _ hlog
  have hiff := holds_boot_iff hw hlog h.nodup hlen
  constructor
  · rintro ⟨q, hq, hheld, -⟩
    have hpq : p = q := Option.some.inj (Option.some.inj (hread.symm.trans hq))
    exact hiff.mp (hpq ▸ hheld)
  · intro hlt
    have hheld := hiff.mpr hlt
    exact ⟨p, hread, hheld, fun hr => forwarded_of_holds hb hr hheld⟩

/-- Whatever the restarts, if each recovered everything. -/
theorem keeps_reached {log : List (Option Propose)} {es : List ProposerEvent}
    (hs : Run.AllSteps (step cfg) (Fits cfg) (start cfg log) es) :
    (reached cfg log es).Keeps cfg :=
  Run.invariant (fun _ _ h hf => Keeps.step h hf) (keeps_start cfg log) hs

/-- **When a restart loses no proposal.** After every run whose restarts
recovered everything, a restart recovers an unresolved proposal exactly when
no torn frame and fewer proposals than there are slots precede it in the log –
whether they are resolved or not. -/
theorem recovered_iff (cfg : ProposerConfig) (hb : cfg.limits.IsBuild)
    (log : List (Option Propose)) (es : List ProposerEvent)
    (hs : Run.AllSteps (step cfg) (Fits cfg) (start cfg log) es) (id : ℕ)
    (hu : (reached cfg log es).Unresolved id) :
    (reached cfg log es).RecoveredAt cfg id ↔
      (reached cfg log es).Reads id ∧ (reached cfg log es).ahead id < cfg.limits.pending :=
  (keeps_reached hs).recoveredAt_iff hb hu

/-- A proposal the group's channel refused is recovered. -/
theorem recovered_first :
    (reached .member [] [.propose ⟨.namespacePlane, 7, [1]⟩ .durable .all .refused]).RecoveredAt
      .member 0 :=
  (recovered_iff .member (.inl rfl) []
    [.propose ⟨.namespacePlane, 7, [1]⟩ .durable .all .refused] ⟨trivial, trivial⟩ 0
    ⟨by decide +kernel, by decide +kernel⟩).mpr (by decide +kernel)

/-! ## A proposal that is lost -/

section Lost

variable {n : ℕ} {m : List PendingSlot}

/-- A proposal that is answered at once. -/
def answered : Propose := ⟨.namespacePlane, 7, [1]⟩

/-- A single replica has answered what it has logged: `n` of the same proposal. -/
structure Answered (w : ProposerWorld) (n : ℕ) : Prop where
  pending : ∃ m, w.proposer.pending = ⟨none, false, 0⟩ :: m
  walOpen : w.proposer.walOpen = true
  available : w.proposer.walUnavailable = false
  proposals : w.proposals.length = n
  log : w.log = (List.range n).map fun i => ⟨i, some answered⟩
  resolved : w.resolved = List.range n

/-- The entry of the first slot is answered. -/
theorem emitCommittedFor_head {proof : CommitProof} {cid : UInt32}
    (h : w.proposer.pending = ⟨some e, false, 0⟩ :: m) (hcid : e.correlationId = cid)
    (hlen : committedHdr + e.inner.length ≤ appendScratch) :
    (w.emitCommittedFor cid proof .all).1 =
      { w.write (.committed e.proposal e.plane e.originCorrelationId proof e.inner) .all with
        proposer := { w.proposer.freeSlot 0 with replayOutstanding := w.proposer.replayOutstanding - 1 }
        resolved := w.resolved ++ [e.proposal] } := by
  have hfind : w.proposer.findPending cid = some (e, 0) := by
    rw [Proposer.findPending, Proposer.entries, h]
    exact SlotTable.find_cons_some hcid
  rw [emitCommittedFor, hfind]
  dsimp only
  rw [if_neg (Nat.not_lt.mpr hlen), if_pos rfl]

/-- A channel that takes nothing changes nothing. -/
theorem emitCommittedFor_none {proof : CommitProof} {cid : UInt32} :
    (w.emitCommittedFor cid proof .none).1 = w := by
  unfold emitCommittedFor
  split
  · rfl
  · split <;> rfl

/-- The first slot is taken if it is free. -/
theorem reservePending_head {cfg : ProposerConfig} {s : Proposer} {p : Propose} {id : ℕ} {recovered : Bool}
    (h : s.pending = ⟨none, false, 0⟩ :: m) (hlen : p.inner.length ≤ maxInner) :
    s.reservePending cfg id recovered p =
      some ({ s with
          pending := ⟨some ⟨p.plane, Proposer.scopedId cfg.selfId s.nextCorrelationId, p.correlationId, p.inner,
            id, recovered⟩, false, 0⟩ :: m
          nextCorrelationId := Proposer.succId s.nextCorrelationId },
        Proposer.scopedId cfg.selfId s.nextCorrelationId) := by
  have hfree : s.entries.findIdx? Option.isNone = some 0 := by
    rw [Proposer.entries, h]
    rfl
  rw [Proposer.reservePending, if_neg (Nat.not_lt.mpr hlen), hfree]
  simp only [Option.map_some, Proposer.modifySlot, h]
  rfl

theorem Answered.step (h : w.Answered n) :
    (step .lone w (.propose answered .durable .all .refused)).Answered (n + 1) := by
  obtain ⟨⟨m, hp⟩, ho, ha, hn, hl, hr⟩ := h
  have hread : ProposerWorld.step .lone w (.propose answered .durable .all .refused) =
      admitProposal .lone { w with
        proposals := w.proposals ++ [some answered], log := w.log ++ [⟨n, some answered⟩]
        durable := w.durable ++ [n] } n answered .all .refused := by
    simp only [ProposerWorld.step, propose, ha, ho, Bool.false_eq_true, if_false, if_true, hn]
  rw [hread, admitProposal, reservePending_head hp (by decide)]
  dsimp only
  rw [if_neg (by decide), emitCommittedFor_head (m := m)
    (e := ⟨.namespacePlane, Proposer.scopedId 1 w.proposer.nextCorrelationId, 7, [1], n, false⟩)
    (by rfl) (by rfl) (show committedHdr + 1 ≤ appendScratch by decide)]
  refine ⟨⟨m, rfl⟩, ho, ha, ?_, ?_, ?_⟩
  · show (w.proposals ++ [some answered]).length = n + 1
    rw [List.length_append, hn]
    rfl
  · show w.log ++ [⟨n, some answered⟩] = _
    rw [hl, List.range_succ, List.map_append]
    rfl
  · show w.resolved ++ [n] = _
    rw [hr, List.range_succ]

theorem answered_run (n : ℕ) :
    (reached .lone [] (List.replicate n (.propose answered .durable .all .refused))).Answered n := by
  induction n with
  | zero => exact ⟨⟨List.replicate 255 _, rfl⟩, rfl, rfl, rfl, rfl, rfl⟩
  | succ n ih =>
    rw [List.replicate_succ', reached, Run.run_append]
    exact ih.step

/-- A single replica answers as many proposals as its table has slots, and
logs one more. -/
def answeredThenOne : List ProposerEvent :=
  List.replicate 256 (.propose ⟨.namespacePlane, 7, [1]⟩ .durable .all .refused) ++
    [.propose ⟨.namespacePlane, 9, [2]⟩ .durable .none .refused]

/-- **A restart can lose a proposal.** A single replica logs and answers as
many proposals as its table has slots, and logs one more, which it cannot
answer at once; a restart fills the table with the answered ones. -/
theorem restart_loses_proposal :
    (reached .lone [] answeredThenOne).Unresolved 256 ∧
      ¬ (reached .lone [] answeredThenOne).RecoveredAt .lone 256 := by
  have hrun : Run.AllSteps (ProposerWorld.step .lone) (Fits .lone) (start .lone []) answeredThenOne := by
    refine Run.AllSteps.of_forall fun e he s => ?_
    rcases List.mem_append.mp he with he | he
    · rw [(List.mem_replicate.mp he).2]
      trivial
    · rw [List.mem_singleton.mp he]
      trivial
  obtain ⟨⟨m, hp⟩, ho, ha, hn, hl, hr⟩ := answered_run 256
  have hlast : reached .lone [] answeredThenOne = ProposerWorld.step .lone
      (reached .lone [] (List.replicate 256 (.propose answered .durable .all .refused)))
      (.propose ⟨.namespacePlane, 9, [2]⟩ .durable .none .refused) := by
    unfold reached answeredThenOne
    rw [Run.run_append, Run.run_cons, Run.run_nil]
    rfl
  generalize reached .lone [] (List.replicate 256 (.propose answered .durable .all .refused)) = w at *
  have hread : ProposerWorld.step .lone w (.propose ⟨.namespacePlane, 9, [2]⟩ .durable .none .refused) =
      admitProposal .lone { w with
        proposals := w.proposals ++ [some ⟨.namespacePlane, 9, [2]⟩]
        log := w.log ++ [⟨256, some ⟨.namespacePlane, 9, [2]⟩⟩], durable := w.durable ++ [256] }
        256 ⟨.namespacePlane, 9, [2]⟩ .none .refused := by
    simp only [ProposerWorld.step, propose, ha, ho, Bool.false_eq_true, if_false, if_true, hn]
  rw [hread, admitProposal, reservePending_head hp (by decide)] at hlast
  dsimp only at hlast
  rw [if_neg (by decide), emitCommittedFor_none] at hlast
  have hun : (reached .lone [] answeredThenOne).Unresolved 256 := by
    rw [hlast]
    refine ⟨List.mem_append_right _ (List.mem_singleton_self _), ?_⟩
    show 256 ∉ w.resolved
    rw [hr, List.mem_range]
    exact Nat.lt_irrefl 256
  refine ⟨hun, fun hrec => ?_⟩
  obtain ⟨-, hlt⟩ := ((keeps_reached hrun).recoveredAt_iff (.inl rfl) hun).mp hrec
  rw [hlast] at hlt
  have hahead : ((((List.range 256).map fun i => (⟨i, some answered⟩ : ProposeRecord)) ++
      [(⟨256, some ⟨.namespacePlane, 9, [2]⟩⟩ : ProposeRecord)]).takeWhile fun r => r.id != 256).filterMap
        ProposeRecord.taken = (List.range 256).map fun i => (i, answered) := by
    have hids : ∀ r ∈ (List.range 256).map (fun i => (⟨i, some answered⟩ : ProposeRecord)),
        (r.id != 256) = true := by
      intro r hmem
      obtain ⟨i, hi, rfl⟩ := List.mem_map.mp hmem
      exact bne_iff_ne.mpr (Nat.ne_of_lt (List.mem_range.mp hi))
    rw [List.takeWhile_append_of_pos hids, List.takeWhile_cons_of_neg (by decide), List.append_nil,
      List.filterMap_map]
    exact congrFun List.filterMap_eq_map _
  rw [ahead] at hlt
  change (((w.log ++ _).takeWhile _).filterMap _).length < _ at hlt
  rw [hl, hahead, List.length_map, List.length_range] at hlt
  exact Nat.lt_irrefl 256 hlt

end Lost

end ProposerWorld

end Loam

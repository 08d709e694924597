import Loam.ProposerRestart

/-!
# Every proposal is resolved once

A proposal that was given a slot is to be answered once, to the id its
producer chose: with the Committed of an entry of its own, or its Aborted.
Two things can break that. The ids are a counter of 24 bits over slots that
may be held long, so that an id can come round while a slot still has it, or
while a result for its last holder is on its way. And the channel of results
can be full: a Committed that is not taken leaves its entry pending, but an
Aborted frees its slot all the same, and a record that is taken in part is
neither taken back nor resumed. A payload can also be too long for a Committed
record, while it is not for a Propose.

`Delivers` is the condition, on an event and the state it meets, that none of
this is about to happen.
-/

namespace Loam

/-- The longest payload a Committed record has room for. -/
def maxCommitted : ℕ := appendScratch - committedHdr

namespace ResultRecord

/-- The proposal a record is about. -/
def about : ResultRecord → Option ℕ
  | .committed id .. => some id
  | .aborted id _ => some id
  | .replayDrained => none
  | .torn => none

/-- The record answers a proposal: it goes to the id the producer chose, and
says what was decided of an entry of the proposal. -/
def Answers (D : ℕ → GroupVerdict → Prop) (id : ℕ) (p : Propose) : ResultRecord → Prop
  | .committed id' plane cid proof inner =>
    id' = id ∧ (⟨plane, cid, inner⟩ : Propose) = p ∧ D id (.committed proof)
  | .aborted id' cid => id' = id ∧ cid = p.correlationId ∧ D id .aborted
  | .replayDrained => False
  | .torn => False

variable {D : ℕ → GroupVerdict → Prop} {id : ℕ} {p : Propose} {m : ResultRecord}

theorem Answers.about_eq (h : m.Answers D id p) : m.about = some id := by
  cases m with
  | committed | aborted => exact congrArg some h.1
  | replayDrained | torn => exact h.elim

theorem Answers.ne_torn (h : m.Answers D id p) : m ≠ .torn := by
  rintro rfl
  exact h

end ResultRecord

namespace ProposerWorld

variable {cfg : ProposerConfig} {D : ℕ → GroupVerdict → Prop} {w w' : ProposerWorld}
  {e : PendingEntry} {cid : UInt32} {proof : CommitProof} {wr : ChannelWrite} {fw : ForwardWrite}
  {id i : ℕ} {p : Propose}

/-- The records about a proposal. -/
def messagesOf (w : ProposerWorld) (id : ℕ) : List ResultRecord :=
  w.results.filter fun m => m.about == some id

/-! ## The condition -/

/-- A Propose read here is given a slot, if there is one. -/
def Admits (w : ProposerWorld) (append : AppendOutcome) : Bool :=
  !w.proposer.walUnavailable && (!w.proposer.walOpen || append == .durable)

/-- **Nothing is about to go wrong**: a new id is free and the payload fits a
Committed record; a result is for the proposal whose slot it finds, and an
Aborted is taken whole; and no record is taken in part. -/
def Delivers (cfg : ProposerConfig) (w : ProposerWorld) : ProposerEvent → Prop
  | .propose p append wr _ => wr ≠ .part ∧ (w.Admits append = true → ∀ s cid,
      w.proposer.reservePending cfg w.proposals.length false p = some (s, cid) →
      p.inner.length ≤ maxCommitted ∧
        ∀ e i, (e, i) ∈ SlotTable.used w.proposer.entries → e.correlationId ≠ cid)
  | .result cid id verdict wr =>
    (∃ x ∈ w.forwarded, x.correlationId = cid ∧ x.proposal = id) ∧
      ∀ e i, w.proposer.findPending cid = some (e, i) →
        e.proposal = id ∧ wr ≠ .part ∧ (verdict = .aborted → wr = .all)
  | .catchUp _ wrs => cfg.replicated = false → .part ∉ wrs
  | .crash => ∀ t ∈ (recoverable cfg w).take cfg.limits.pending, t.2.inner.length ≤ maxCommitted
  | _ => True

/-! ## The invariant -/

/-- The accepted proposals are pending, each in one slot under an id of its
own and with no record about it, or answered by one record. -/
structure Answering (D : ℕ → GroupVerdict → Prop) (w : ProposerWorld) : Prop where
  /-- The log is of proposals that were read. -/
  logged : w.Logged
  ids : SlotTable.Unique PendingEntry.correlationId w.proposer.entries
  slots : SlotTable.Unique PendingEntry.proposal w.proposer.entries
  /-- A pending entry is of an accepted proposal, as it was read, that no record
  is about. -/
  pending : ∀ e i, (e, i) ∈ SlotTable.used w.proposer.entries →
    e.proposal ∈ w.accepted ∧ w.proposals[e.proposal]? = some (some e.propose) ∧
      e.inner.length ≤ maxCommitted ∧ w.messagesOf e.proposal = []
  answered : ∀ id ∈ w.accepted,
    (∃ e i, (e, i) ∈ SlotTable.used w.proposer.entries ∧ e.proposal = id) ∨
      ∃ m p, w.proposals[id]? = some (some p) ∧ w.messagesOf id = [m] ∧ m.Answers D id p
  read : ∀ id ∈ w.accepted, id < w.proposals.length
  known : ∀ m ∈ w.results, ∀ id, m.about = some id → id < w.proposals.length
  whole : .torn ∉ w.results

theorem filter_about (ms : List ResultRecord) (hms : ∀ m ∈ ms, m.about ≠ some id) :
    ms.filter (fun m => m.about == some id) = [] := by
  rw [List.filter_eq_nil_iff]
  exact fun m hm ha => hms m hm (beq_iff_eq.mp ha)

/-- There is no record about a proposal not read yet. -/
theorem Answering.messagesOf_eq_nil (h : w.Answering D) (hid : w.proposals.length ≤ id) :
    w.messagesOf id = [] :=
  filter_about _ fun m hm ha => absurd (h.known m hm id ha) (Nat.not_lt.mpr hid)

/-- The invariant is about the entries, what was accepted and read, and the
results. -/
theorem Answering.frame (h : w.Answering D) (hl : w'.Logged)
    (he : w'.proposer.entries = w.proposer.entries) (ha : w'.accepted = w.accepted)
    (hp : w.proposals <+: w'.proposals) (hr : w'.results = w.results) : w'.Answering D := by
  obtain ⟨ps, hps⟩ := hp
  have hmsg : ∀ id, w'.messagesOf id = w.messagesOf id := fun id => by
    rw [messagesOf, hr]
    rfl
  have hlen : w.proposals.length ≤ w'.proposals.length := by
    rw [← hps, List.length_append]
    exact Nat.le_add_right _ _
  have hget : ∀ id o, w.proposals[id]? = some o → w'.proposals[id]? = some o := fun id o ho => by
    rw [← hps, List.getElem?_append_left (List.getElem?_eq_some_iff.mp ho).1, ho]
  refine ⟨hl, he ▸ h.ids, he ▸ h.slots, fun e i hmem => ?_, fun id hid => ?_, fun id hid => ?_,
    fun m hm id hab => ?_, hr ▸ h.whole⟩
  · rw [he] at hmem
    obtain ⟨hacc, hread, hfit, hnone⟩ := h.pending e i hmem
    exact ⟨ha ▸ hacc, hget _ _ hread, hfit, (hmsg _).trans hnone⟩
  · rw [he, hmsg]
    refine (h.answered id (ha ▸ hid)).imp_right ?_
    rintro ⟨m, p, hread, hm, hans⟩
    exact ⟨m, p, hget _ _ hread, hm, hans⟩
  · exact Nat.lt_of_lt_of_le (h.read id (ha ▸ hid)) hlen
  · exact Nat.lt_of_lt_of_le (h.known m (hr ▸ hm) id hab) hlen

theorem write_eq (w : ProposerWorld) (r : ResultRecord) (wr : ChannelWrite) :
    w.write r wr = { w with results := w.results ++ landed r wr } := by
  cases wr with
  | all | part => rfl
  | none =>
    rw [landed, List.append_nil]
    rfl

theorem Answering.aside (h : w.Answering D) {ms : List ResultRecord} (rs : List ℕ)
    (hms : ∀ m ∈ ms, m ≠ .torn ∧
      ∀ id, m.about = some id → id ∉ w.accepted ∧ id < w.proposals.length) :
    Answering D { w with results := w.results ++ ms, resolved := rs } := by
  have hmsg : ∀ id ∈ w.accepted,
      messagesOf { w with results := w.results ++ ms, resolved := rs } id = w.messagesOf id := by
    intro id hid
    show (w.results ++ ms).filter _ = _
    rw [List.filter_append, filter_about ms fun m hm ha => ((hms m hm).2 id ha).1 hid,
      List.append_nil]
    rfl
  refine ⟨h.logged.congr rfl rfl, h.ids, h.slots, fun e i hmem => ?_, fun id hid => ?_, h.read,
    fun m hm id hab => ?_, fun htorn => ?_⟩
  · obtain ⟨hacc, hread, hfit, hnone⟩ := h.pending e i hmem
    exact ⟨hacc, hread, hfit, (hmsg _ hacc).trans hnone⟩
  · rw [hmsg id hid]
    exact h.answered id hid
  · rcases List.mem_append.mp hm with hm | hm
    · exact h.known m hm id hab
    · exact ((hms m hm).2 id hab).2
  · rcases List.mem_append.mp htorn with htorn | htorn
    · exact h.whole htorn
    · exact (hms _ htorn).1 rfl

/-- The Aborted of a proposal that is given no slot. -/
theorem Answering.refused (h : w.Answering D) (hid : id ∉ w.accepted)
    (hlt : id < w.proposals.length) (hwr : wr ≠ .part) (origin : UInt32) :
    (write { w with resolved := w.resolved ++ [id] } (.aborted id origin) wr).Answering D := by
  rw [write_eq]
  refine h.aside _ fun m hm => ?_
  have habout : m = .aborted id origin := by
    cases wr with
    | all => exact List.mem_singleton.mp hm
    | part => exact absurd rfl hwr
    | none => cases hm
  rw [habout]
  refine ⟨nofun, fun id' hid' => ?_⟩
  obtain rfl := Option.some.inj hid'
  exact ⟨hid, hlt⟩

/-! ## What each operation does -/

/-- **A pending proposal is answered**: it leaves its slot, and the record is
the one about it. -/
theorem Answering.answer (h : w.Answering D) (hf : w.proposer.findPending cid = some (e, i))
    {m : ResultRecord} (hm : m.Answers D e.proposal e.propose) (n : ℕ) (rs : List ℕ) :
    Answering D { w with
      results := w.results ++ [m]
      proposer := { w.proposer.freeSlot i with replayOutstanding := n }
      resolved := rs } := by
  have hmem := SlotTable.mem_used.mpr (Proposer.mem_of_findPending hf).1
  have hlt := SlotTable.lt_of_mem_used hmem
  have hentries : (w.proposer.freeSlot i).entries = w.proposer.entries.set i none :=
    Proposer.entries_freeSlot _ _
  have hused : ∀ b j, (b, j) ∈ SlotTable.used (w.proposer.freeSlot i).entries →
      j ≠ i ∧ (b, j) ∈ SlotTable.used w.proposer.entries := fun b j hb => by
    rw [hentries, SlotTable.mem_used_set hlt] at hb
    exact hb.resolve_left fun hnone => nomatch hnone.2
  have hother : ∀ id ≠ e.proposal, (w.results ++ [m]).filter (fun m => m.about == some id)
      = w.messagesOf id := fun id hne => by
    rw [List.filter_append, filter_about [m] fun m' hm' ha => ?_, List.append_nil]
    · rfl
    · rw [List.mem_singleton.mp hm', hm.about_eq] at ha
      exact hne (Option.some.inj ha).symm
  obtain ⟨hacc, hread, -, hnone⟩ := h.pending e i hmem
  refine ⟨h.logged.congr rfl rfl, ?_, ?_, fun b j hb => ?_, fun id hid => ?_, h.read,
    fun m' hm' id hab => ?_, fun htorn => ?_⟩
  · show SlotTable.Unique _ (w.proposer.freeSlot i).entries
    rw [hentries]
    exact h.ids.set_none hlt
  · show SlotTable.Unique _ (w.proposer.freeSlot i).entries
    rw [hentries]
    exact h.slots.set_none hlt
  · obtain ⟨hj, hb⟩ := hused b j hb
    obtain ⟨hbacc, hbread, hfit, hbnone⟩ := h.pending b j hb
    refine ⟨hbacc, hbread, hfit, (hother _ fun hbe => hj (h.slots hb hmem hbe)).trans hbnone⟩
  · by_cases hide : id = e.proposal
    · subst hide
      refine .inr ⟨m, e.propose, hread, ?_, hm⟩
      show (w.results ++ [m]).filter _ = [m]
      have hself : [m].filter (fun m => m.about == some e.proposal) = [m] := by
        simp [hm.about_eq]
      rw [List.filter_append, show w.results.filter _ = _ from hnone, hself, List.nil_append]
    · refine (h.answered id hid).imp ?_ ?_
      · rintro ⟨b, j, hb, rfl⟩
        refine ⟨b, j, ?_, rfl⟩
        show (b, j) ∈ SlotTable.used (w.proposer.freeSlot i).entries
        rw [hentries, SlotTable.mem_used_set hlt]
        refine .inr ⟨fun hj => hide ?_, hb⟩
        have hbe : b = e := SlotTable.eq_of_mem_used (hj ▸ hb) hmem
        exact congrArg PendingEntry.proposal hbe
      · rintro ⟨m', q, hq, hm', hans⟩
        exact ⟨m', q, hq, (hother id hide).trans hm', hans⟩
  · rcases List.mem_append.mp hm' with hm' | hm'
    · exact h.known m' hm' id hab
    rw [List.mem_singleton.mp hm', hm.about_eq] at hab
    rw [← Option.some.inj hab]
    exact h.read _ hacc
  · rcases List.mem_append.mp htorn with htorn | htorn
    · exact h.whole htorn
    · exact hm.ne_torn (List.mem_singleton.mp htorn).symm

/-- **A proposal is given a slot** under an id that none has. -/
theorem Answering.reserve (h : w.Answering D) {s : Proposer}
    (hr : w.proposer.reservePending cfg id false p = some (s, cid)) (hid : id ∉ w.accepted)
    (hnone : w.messagesOf id = []) (hread : w.proposals[id]? = some (some p))
    (hfit : p.inner.length ≤ maxCommitted)
    (hcid : ∀ b j, (b, j) ∈ SlotTable.used w.proposer.entries → b.correlationId ≠ cid) :
    Answering D { w with proposer := s, accepted := w.accepted ++ [id] } := by
  obtain ⟨-, hcideq, i, hi, hent, -⟩ := Proposer.reservePending_spec hr
  obtain ⟨hlt, hfree⟩ := SlotTable.free_eq_some hi
  have hused : ∀ b j, (b, j) ∈ SlotTable.used s.entries →
      (j = i ∧ b = Proposer.reserved cfg w.proposer id false p) ∨
        (b, j) ∈ SlotTable.used w.proposer.entries := fun b j hb => by
    rw [hent, SlotTable.mem_used_set hlt] at hb
    exact hb.imp (fun ⟨hj, hb⟩ => ⟨hj, (Option.some.inj hb).symm⟩) And.right
  refine ⟨h.logged.congr rfl rfl, ?_, ?_, fun b j hb => ?_, fun id' hid' => ?_, fun id' hid' => ?_,
    h.known, h.whole⟩
  · show SlotTable.Unique _ s.entries
    rw [hent]
    exact h.ids.set_some hlt fun b j hb hkey => absurd (hkey.trans hcideq.symm) (hcid b j hb)
  · show SlotTable.Unique _ s.entries
    rw [hent]
    refine h.slots.set_some hlt fun b j hb hkey => ?_
    replace hkey : b.proposal = id := hkey
    exact absurd (hkey ▸ (h.pending b j hb).1) hid
  · rcases hused b j hb with ⟨-, rfl⟩ | hb
    · exact ⟨List.mem_append_right _ (List.mem_singleton.mpr rfl), hread, hfit, hnone⟩
    obtain ⟨hbacc, hrest⟩ := h.pending b j hb
    exact ⟨List.mem_append_left _ hbacc, hrest⟩
  · have hnew : (Proposer.reserved cfg w.proposer id false p, i) ∈ SlotTable.used s.entries := by
      rw [hent, SlotTable.mem_used_set hlt]
      exact .inl ⟨rfl, rfl⟩
    rcases List.mem_append.mp hid' with hid' | hid'
    · refine (h.answered id' hid').imp_left ?_
      rintro ⟨b, j, hb, hbid⟩
      refine ⟨b, j, ?_, hbid⟩
      show (b, j) ∈ SlotTable.used s.entries
      rw [hent, SlotTable.mem_used_set hlt]
      exact .inr ⟨fun hj => hfree b (hj ▸ hb), hb⟩
    · rw [List.mem_singleton.mp hid']
      exact .inl ⟨_, i, hnew, rfl⟩
  · rcases List.mem_append.mp hid' with hid' | hid'
    · exact h.read id' hid'
    rw [List.mem_singleton.mp hid']
    exact (List.getElem?_eq_some_iff.mp hread).1

theorem Answering.emitCommittedFor (h : w.Answering D) (cid : UInt32) (proof : CommitProof)
    (hwr : wr ≠ .part)
    (hd : ∀ e i, w.proposer.findPending cid = some (e, i) → D e.proposal (.committed proof)) :
    (w.emitCommittedFor cid proof wr).1.Answering D := by
  rcases w.emitCommittedFor_cases cid proof wr with ⟨e, i, hf, -, -, he⟩ | he | ⟨hpart, -⟩
  · rw [he]
    have hans : (commitRecord e proof).Answers D e.proposal e.propose := ⟨rfl, rfl, hd e i hf⟩
    exact h.answer hf hans _ _
  · rw [he]
    exact h
  · exact absurd hpart hwr

theorem OnlyForwards.answering (hf : w.OnlyForwards w') (h : w.Answering D) :
    w'.Answering D := by
  have heq := hf.eq
  have hlog : w'.log = w.log := by rw [heq]
  have hprop : w'.proposals = w.proposals := by rw [heq]
  have hread : w.proposals <+: w'.proposals := ⟨[], by rw [List.append_nil, hprop]⟩
  exact h.frame (h.logged.congr hlog hprop) hf.entries (by rw [heq]) hread (by rw [heq])

theorem Answering.takeEpoch (h : w.Answering D) : w.takeEpoch.Answering D :=
  h.frame (h.logged.congr rfl rfl) rfl rfl (List.prefix_refl _) rfl

theorem Answering.redriveEach (hd : ∀ id n, D id (.committed (localProof cfg n)))
    (cids : List UInt32) {wrs : List ChannelWrite} (h : w.Answering D) (hwrs : .part ∉ wrs) :
    (w.redriveEach cfg cids wrs).Answering D := by
  induction cids generalizing w wrs with
  | nil => exact h
  | cons cid cids ih =>
    have hhead : wrs.headD .none ≠ .part := by
      cases wrs with
      | nil => nofun
      | cons wr wrs => exact fun hp => hwrs (hp ▸ List.mem_cons_self)
    have hone := h.takeEpoch.emitCommittedFor cid (localProof cfg w.proposer.nextEpoch) hhead
      fun e _ _ => hd e.proposal _
    unfold ProposerWorld.redriveEach
    rcases he : w.takeEpoch.emitCommittedFor cid (localProof cfg w.proposer.nextEpoch)
      (wrs.headD .none) with ⟨w₁, ok⟩
    rw [he] at hone
    cases ok with
    | true => exact ih hone fun hp => hwrs (List.mem_of_mem_tail hp)
    | false => exact hone

/-- **A proposal is admitted.** -/
theorem Answering.admitProposal (h : w.Answering D) (hid : id ∉ w.accepted)
    (hnone : w.messagesOf id = []) (hread : w.proposals[id]? = some (some p)) (hwr : wr ≠ .part)
    (hlone : cfg.replicated = false → ∀ id n, D id (.committed (localProof cfg n)))
    (hfit : ∀ s cid, w.proposer.reservePending cfg id false p = some (s, cid) →
      p.inner.length ≤ maxCommitted ∧
        ∀ e i, (e, i) ∈ SlotTable.used w.proposer.entries → e.correlationId ≠ cid) :
    (w.admitProposal cfg id p wr fw).Answering D := by
  unfold ProposerWorld.admitProposal
  cases hr : w.proposer.reservePending cfg id false p with
  | none => exact h.refused hid (List.getElem?_eq_some_iff.mp hread).1 hwr _
  | some q =>
    obtain ⟨s, cid⟩ := q
    obtain ⟨hlen, hcid⟩ := hfit s cid hr
    have hs := h.reserve hr hid hnone hread hlen hcid
    dsimp only
    split
    · exact (forwardToClustor_onlyForwards _ cid fw).answering hs
    next hrep =>
    exact hs.takeEpoch.emitCommittedFor cid _ hwr fun e _ _ => hlone (by simpa using hrep) _ _

/-! ## A boot -/

/-- The proposals of the log that take slots are different ones. -/
theorem Logged.nodup_recoverable (h : w.Logged) (cfg : ProposerConfig) :
    ((recoverable cfg w).map Prod.fst).Nodup := by
  unfold recoverable
  split
  · exact List.nodup_nil
  · exact nodup_taken (nodup_readable h.nodup)

theorem Logged.recoverable_read (h : w.Logged) {t : ℕ × Propose} (ht : t ∈ recoverable cfg w) :
    w.proposals[t.1]? = some (some t.2) := by
  unfold recoverable at ht
  split at ht
  · cases ht
  obtain ⟨r, hr, htaken⟩ := List.mem_filterMap.mp ht
  obtain ⟨p, hp, rfl⟩ := Option.map_eq_some_iff.mp htaken
  rw [h.asRead r (List.mem_of_mem_take hr), (Option.filter_eq_some_iff.mp hp).1]

/-- **A boot accepts what it recovers**, each proposal in one slot. -/
theorem answering_boot (hb : cfg.limits.IsBuild) (h : w.Logged) (hf : w.Delivers cfg .crash) :
    (w.boot cfg).Answering D := by
  have hboot := replayed_boot cfg w
  obtain ⟨hlog, hprop, -, -, -, -, hres⟩ := boot_keeps cfg w
  have hused : ∀ e i, (e, i) ∈ SlotTable.used (w.boot cfg).proposer.entries ↔
      i < cfg.limits.pending ∧ ∃ t, (recoverable cfg w)[i]? = some t ∧
        recoveredEntry cfg i t = e := fun e i => by
    rw [hboot.entries, SlotTable.mem_used_pack, List.getElem?_mapIdx, Option.map_eq_some_iff]
  have htake : ∀ i t, i < cfg.limits.pending → (recoverable cfg w)[i]? = some t →
      t ∈ (recoverable cfg w).take cfg.limits.pending := fun i t hi ht =>
    List.mem_of_getElem? (i := i) (by rw [List.getElem?_take, if_pos hi, ht])
  have hmsg : ∀ id, (w.boot cfg).messagesOf id = [] := fun id => by
    rw [messagesOf, hres]
    rfl
  refine ⟨h.congr hlog hprop, (young_boot hb w).unique, ?_, fun e i he => ?_, fun id hid => ?_,
    fun id hid => ?_, ?_, ?_⟩
  · intro a b i j ha hb' heq
    obtain ⟨hi, s, hs, rfl⟩ := (hused a i).mp ha
    obtain ⟨hj, t, ht, rfl⟩ := (hused b j).mp hb'
    refine (List.getElem?_inj ?_ (h.nodup_recoverable cfg)).mp ?_
    · rw [List.length_map]
      exact (List.getElem?_eq_some_iff.mp hs).1
    · rw [List.getElem?_map, List.getElem?_map, hs, ht]
      exact congrArg some heq
  · obtain ⟨hi, t, ht, rfl⟩ := (hused e i).mp he
    refine ⟨?_, ?_, hf t (htake i t hi ht), hmsg _⟩
    · rw [hboot.accepted]
      exact List.mem_map_of_mem (htake i t hi ht)
    · rw [hprop]
      exact h.recoverable_read (List.mem_of_getElem? ht)
  · rw [hboot.accepted] at hid
    obtain ⟨t, ht, rfl⟩ := List.mem_map.mp hid
    obtain ⟨i, hget⟩ := List.mem_iff_getElem?.mp ht
    rw [List.getElem?_take] at hget
    split at hget
    · next hi => exact .inl ⟨_, i, (hused _ i).mpr ⟨hi, t, hget, rfl⟩, rfl⟩
    · cases hget
  · rw [hboot.accepted] at hid
    obtain ⟨t, ht, rfl⟩ := List.mem_map.mp hid
    rw [hprop]
    exact (List.getElem?_eq_some_iff.mp (h.recoverable_read (List.mem_of_mem_take ht))).1
  · rw [hres]
    exact nofun
  · rw [hres]
    exact List.not_mem_nil

/-! ## The run -/

/-- **Every event that delivers keeps the proposals answered.** -/
theorem Answering.step (h : w.Answering D) (hb : cfg.limits.IsBuild) {e : ProposerEvent}
    (hd : w.Delivers cfg e)
    (hD : ∀ cid id v wr, e = .result cid id v wr → D id v)
    (hlone : cfg.replicated = false → ∀ id n, D id (.committed (localProof cfg n))) :
    (w.step cfg e).Answering D := by
  cases e with
  | propose p append wr fw =>
    obtain ⟨hwr, hfit⟩ := hd
    have hread : Answering D { w with proposals := w.proposals ++ [some p] } :=
      h.frame (h.logged.read _) rfl rfl (List.prefix_append _ _) rfl
    have hlogged : Answering D { w with
        proposals := w.proposals ++ [some p]
        log := w.log ++ [⟨w.proposals.length, some p⟩] } :=
      h.frame (h.logged.append _) rfl rfl (List.prefix_append _ _) rfl
    have hid : w.proposals.length ∉ w.accepted := fun hmem => Nat.lt_irrefl _ (h.read _ hmem)
    have hlt : w.proposals.length < (w.proposals ++ [some p]).length := by
      rw [List.length_append]
      exact Nat.lt_succ_self _
    have hnone := h.messagesOf_eq_nil (Nat.le_refl w.proposals.length)
    have hget : (w.proposals ++ [some p])[w.proposals.length]? = some (some p) :=
      List.getElem?_concat_length
    simp only [ProposerWorld.step, ProposerWorld.propose]
    split
    · exact hread.refused hid hlt hwr _
    next hwal =>
    split
    · cases append with
      | durable =>
        have hdurable : Answering D { w with
            proposals := w.proposals ++ [some p]
            log := w.log ++ [⟨w.proposals.length, some p⟩]
            durable := w.durable ++ [w.proposals.length] } :=
          hlogged.frame (hlogged.logged.congr rfl rfl) rfl rfl (List.prefix_refl _) rfl
        exact hdurable.admitProposal hid hnone hget hwr hlone (hfit (by simp [Admits, hwal]))
      | failed left =>
        cases left with
        | whole => exact hlogged.refused hid hlt hwr _
        | part =>
          have htorn : Answering D { w with
              proposals := w.proposals ++ [some p]
              torn := w.torn.or (some w.log.length) } :=
            hread.frame (hread.logged.congr rfl rfl) rfl rfl (List.prefix_refl _) rfl
          exact htorn.refused hid hlt hwr _
        | nothing => exact hread.refused hid hlt hwr _
    · next hopen =>
      exact hread.admitProposal hid hnone hget hwr hlone (hfit (by simp [Admits, hwal, hopen]))
  | result cid id verdict wr =>
    have hD' := hD cid id verdict wr rfl
    cases verdict with
    | committed proof =>
      simp only [ProposerWorld.step, ProposerWorld.result]
      cases hf : w.proposer.findPending cid with
      | none =>
        rw [ProposerWorld.emitCommittedFor, hf]
        exact h
      | some q =>
        obtain ⟨hid, hwr, -⟩ := hd.2 q.1 q.2 hf
        refine h.emitCommittedFor cid proof hwr fun e i he => ?_
        rw [(hd.2 e i he).1]
        exact hD'
    | aborted =>
      simp only [ProposerWorld.step, ProposerWorld.result]
      cases hf : w.proposer.findPending cid with
      | none => exact h
      | some q =>
        obtain ⟨e, i⟩ := q
        obtain ⟨rfl, -, hwr⟩ := hd.2 e i hf
        rw [hwr rfl]
        have hans : (ResultRecord.aborted e.proposal e.originCorrelationId).Answers D e.proposal
            e.propose := ⟨rfl, rfl, hD'⟩
        exact h.answer hf hans w.proposer.replayOutstanding (w.resolved ++ [e.proposal])
  | marker wr =>
    simp only [ProposerWorld.step, ProposerWorld.marker]
    split
    · have hmarked : Answering D { w with results := w.results ++ [ResultRecord.replayDrained] } :=
        h.aside w.resolved fun m hm => by
          rw [List.mem_singleton.mp hm]
          exact ⟨by simp, by simp [ResultRecord.about]⟩
      exact hmarked.frame (h.logged.congr rfl rfl) rfl rfl (List.prefix_refl _) rfl
    · exact h
  | rotate outcome =>
    simp only [ProposerWorld.step, ProposerWorld.rotate]
    split
    · cases outcome with
      | rotated | lost => exact h.frame (.cleared rfl) rfl rfl (List.prefix_refl _) rfl
      | skipped => exact h.frame (h.logged.congr rfl rfl) rfl rfl (List.prefix_refl _) rfl
    · exact h
  | catchUp fws wrs =>
    by_cases hr : cfg.replicated = true
    · exact (catchUp_onlyForwards hr fws wrs).answering h
    have hr' : cfg.replicated = false := by simpa using hr
    simp only [ProposerWorld.step, ProposerWorld.catchUp]
    rw [if_neg hr]
    exact h.redriveEach (hlone hr') _ (hd hr')
  | crash => exact answering_boot hb h.logged hd

/-- What was decided of a proposal in a run: by the group, of an entry of it,
or by a single replica. -/
def Decided (cfg : ProposerConfig) (es : List ProposerEvent) (id : ℕ) : GroupVerdict → Prop
  | .committed proof => (∃ cid wr, .result cid id (.committed proof) wr ∈ es) ∨
      (cfg.replicated = false ∧ ∃ n, proof = localProof cfg n)
  | .aborted => ∃ cid wr, .result cid id .aborted wr ∈ es

/-- **Each accepted proposal is answered once.** -/
structure EachOnce (cfg : ProposerConfig) (D : ℕ → GroupVerdict → Prop) (w : ProposerWorld) :
    Prop where
  distinct : SlotTable.Unique PendingEntry.correlationId w.proposer.entries
  /-- An accepted proposal is pending and no record is about it, or it is not,
  and one record answers it. -/
  once : ∀ id ∈ w.accepted, ∃ p, w.proposals[id]? = some (some p) ∧
    ((w.proposer.Holds id p ∧ w.messagesOf id = []) ∨
      ((∀ q, ¬ w.proposer.Holds id q) ∧ ∃ m, w.messagesOf id = [m] ∧ m.Answers D id p))
  whole : .torn ∉ w.results
  /-- A result for the entry of a pending proposal answers it, if the channel
  has room. -/
  settles : ∀ e i, (e, i) ∈ SlotTable.used w.proposer.entries → ∀ verdict,
    ∃ m, (w.result e.correlationId verdict .all).messagesOf e.proposal = [m]
  /-- A single replica answers the first pending proposal at the end of a step,
  if the channel has room. -/
  redriven : cfg.replicated = false → ∀ e,
    (w.proposer.entries.filterMap fun o => o).head? = some e →
    (w.catchUp cfg [] (List.replicate cfg.limits.opsPerStep .all)).messagesOf e.proposal ≠ []

/-- A Committed that fits is passed on, where the channel has room. -/
theorem emitCommittedFor_all (hf : w.proposer.findPending cid = some (e, i))
    (hfit : e.inner.length ≤ maxCommitted) (proof : CommitProof) :
    (w.emitCommittedFor cid proof .all).1.results = w.results ++ [commitRecord e proof] ∧
      (w.emitCommittedFor cid proof .all).2 = true := by
  have hroom : ¬ appendScratch < committedHdr + e.inner.length := by
    unfold maxCommitted appendScratch committedHdr at *
    omega
  unfold emitCommittedFor
  rw [hf]
  dsimp only
  rw [if_neg hroom]
  exact ⟨rfl, rfl⟩

theorem emitCommittedFor_results (w : ProposerWorld) (cid : UInt32) (proof : CommitProof)
    (wr : ChannelWrite) : w.results <+: (w.emitCommittedFor cid proof wr).1.results := by
  have hof : ∀ q, w.emitCommittedFor cid proof wr = q → w.results <+: q.1.results →
      w.results <+: (w.emitCommittedFor cid proof wr).1.results := fun q hq h => hq.symm ▸ h
  rcases w.emitCommittedFor_cases cid proof wr with ⟨e, i, -, -, -, he⟩ | he | ⟨-, he⟩
  · exact hof _ he (List.prefix_append _ _)
  · exact hof _ he (List.prefix_refl _)
  · exact hof _ he (List.prefix_append _ _)

theorem redriveEach_results (cfg : ProposerConfig) (w : ProposerWorld) (cids : List UInt32)
    (wrs : List ChannelWrite) : w.results <+: (w.redriveEach cfg cids wrs).results := by
  induction cids generalizing w wrs with
  | nil => exact List.prefix_refl _
  | cons cid cids ih =>
    have hone := emitCommittedFor_results w.takeEpoch cid (localProof cfg w.proposer.nextEpoch)
      (wrs.headD .none)
    unfold redriveEach
    rcases he : w.takeEpoch.emitCommittedFor cid (localProof cfg w.proposer.nextEpoch)
      (wrs.headD .none) with ⟨w₁, ok⟩
    rw [he] at hone
    cases ok with
    | true => exact List.IsPrefix.trans hone (ih w₁ wrs.tail)
    | false => exact hone

/-- A result answers a pending proposal where the channel has room. -/
theorem Answering.settles (h : w.Answering D) (he : (e, i) ∈ SlotTable.used w.proposer.entries)
    (verdict : GroupVerdict) :
    ∃ m, (w.result e.correlationId verdict .all).messagesOf e.proposal = [m] := by
  have hf : w.proposer.findPending e.correlationId = some (e, i) :=
    h.ids.find_eq_some_iff.mpr ⟨he, rfl⟩
  obtain ⟨-, -, hfit, hnone⟩ := h.pending e i he
  have hone : ∀ w' : ProposerWorld, ∀ m : ResultRecord, w'.results = w.results ++ [m] →
      m.about = some e.proposal → w'.messagesOf e.proposal = [m] := by
    intro w' m hw' hm
    have hself : [m].filter (fun m => m.about == some e.proposal) = [m] := by simp [hm]
    rw [messagesOf, hw', List.filter_append, show w.results.filter _ = _ from hnone, hself,
      List.nil_append]
  cases verdict with
  | committed proof => exact ⟨_, hone _ _ (emitCommittedFor_all hf hfit proof).1 rfl⟩
  | aborted =>
    refine ⟨.aborted e.proposal e.originCorrelationId, hone _ _ ?_ rfl⟩
    unfold result
    rw [hf]
    rfl

/-- A single replica answers the first pending proposal. -/
theorem Answering.redriven (h : w.Answering D) (hb : cfg.limits.IsBuild)
    (hr : cfg.replicated = false) (he : (w.proposer.entries.filterMap fun o => o).head? = some e) :
    (w.catchUp cfg [] (List.replicate cfg.limits.opsPerStep .all)).messagesOf e.proposal ≠ [] := by
  obtain ⟨es, hes⟩ : ∃ es, w.proposer.entries.filterMap (fun o => o) = e :: es :=
    ⟨_, (List.cons_head?_tail he).symm⟩
  have hmem : e ∈ w.proposer.entries.filterMap fun o => o := hes ▸ List.mem_cons_self
  obtain ⟨o, ho, rfl⟩ := List.mem_filterMap.mp hmem
  obtain ⟨i, hget⟩ := List.mem_iff_getElem?.mp ho
  have hused := SlotTable.mem_used.mpr hget
  obtain ⟨-, -, hfit, -⟩ := h.pending e i hused
  have hf : w.takeEpoch.proposer.findPending e.correlationId = some (e, i) :=
    h.ids.find_eq_some_iff.mpr ⟨hused, rfl⟩
  have hcids : w.proposer.entries.filterMap (fun o => o.map PendingEntry.correlationId)
      = e.correlationId :: es.map PendingEntry.correlationId := by
    rw [← List.map_cons, ← hes, List.map_filterMap]
  obtain ⟨n, hn⟩ : ∃ n, cfg.limits.opsPerStep = n + 1 := hb.exists_opsPerStep
  unfold catchUp
  rw [if_neg (by simp [hr]), hcids, hn, List.take_succ_cons, List.replicate_succ,
    ProposerWorld.redriveEach, List.headD_cons, List.tail_cons]
  obtain ⟨hres, hok⟩ := emitCommittedFor_all hf hfit (localProof cfg w.proposer.nextEpoch)
  rcases hemit : w.takeEpoch.emitCommittedFor e.correlationId
    (localProof cfg w.proposer.nextEpoch) .all with ⟨w₁, ok⟩
  rw [hemit] at hres hok
  obtain rfl : ok = true := hok
  intro hnone
  have hin := (redriveEach_results cfg w₁ ((es.map PendingEntry.correlationId).take n)
    (List.replicate n .all)).subset (hres ▸ List.mem_append_right _ (List.mem_singleton.mpr rfl))
  exact List.filter_eq_nil_iff.mp hnone _ hin (beq_iff_eq.mpr rfl)

theorem Answering.eachOnce (h : w.Answering D) (hb : cfg.limits.IsBuild) : w.EachOnce cfg D where
  distinct := h.ids
  once := fun id hid => by
    rcases h.answered id hid with ⟨e, i, he, rfl⟩ | ⟨m, p, hread, hm, hans⟩
    · obtain ⟨-, hread, -, hnone⟩ := h.pending e i he
      exact ⟨e.propose, hread, .inl ⟨⟨e, i, he, rfl, rfl⟩, hnone⟩⟩
    · refine ⟨p, hread, .inr ⟨fun q hq => ?_, m, hm, hans⟩⟩
      obtain ⟨e, i, he, rfl, -⟩ := hq
      rw [(h.pending e i he).2.2.2] at hm
      cases hm
  whole := h.whole
  settles := fun _ _ he verdict => h.settles he verdict
  redriven := fun hr _ he => h.redriven hb hr he

/-- **Each accepted proposal is answered once**, in every run that delivers:
over any log, in any order of the results, however often and late they come,
and however often entries are forwarded again. -/
theorem each_once (cfg : ProposerConfig) (hb : cfg.limits.IsBuild) (log : List (Option Propose))
    (es : List ProposerEvent)
    (hs : Run.AllSteps (step cfg) (Delivers cfg) (device cfg log) (.crash :: es)) :
    (reached cfg log es).EachOnce cfg (Decided cfg es) := by
  have hempty : SlotTable.used (device cfg log).proposer.entries = [] := by
    have hnew : (Proposer.new cfg).entries = List.replicate cfg.limits.pending none := by
      simp [Proposer.new, Proposer.entries]
    exact hnew ▸ SlotTable.used_replicate _
  have hdevice : (device cfg log).Answering (Decided cfg es) := by
    refine ⟨logged_device cfg log, ?_, ?_, ?_, ?_, ?_, ?_, List.not_mem_nil⟩
    · intro a b i j ha
      rw [hempty] at ha
      cases ha
    · intro a b i j ha
      rw [hempty] at ha
      cases ha
    · intro e i he
      rw [hempty] at he
      cases he
    all_goals
      intro a ha
      cases ha
  have hrun := Run.invariant (I := Answering (Decided cfg es))
    (fun w e h hp => h.step hb hp.1 ?_ fun hr id n => .inr ⟨hr, n, rfl⟩) hdevice
    (hs.and_forall (R := fun e => e ∈ ProposerEvent.crash :: es) fun _ he => he)
  · exact Answering.eachOnce hrun hb
  · rintro cid id v wr rfl
    have hmem : ProposerEvent.result cid id v wr ∈ es :=
      (List.mem_cons.mp hp.2).resolve_left fun h => by cases h
    cases v with
    | committed proof => exact .inl ⟨cid, wr, hmem⟩
    | aborted => exact ⟨cid, wr, hmem⟩

/-- A member whose proposal is committed, with the result coming twice. -/
def committedTwice : List ProposerEvent :=
  [.propose ⟨.namespacePlane, 7, [1]⟩ .durable .none .sent,
    .result 0x01000001 0 (.committed ⟨[], 1, 1, 2, [1]⟩) .all,
    .result 0x01000001 0 (.committed ⟨[], 1, 1, 2, [1]⟩) .all]

/-- The second result finds no slot. -/
theorem each_once_committedTwice :
    (reached .member [] committedTwice).EachOnce .member (Decided .member committedTwice) := by
  have hboot : (recoverable .member (device .member [])).take 256 = [] := by decide +kernel
  have hfree : SlotTable.used (start .member []).proposer.entries = [] := by decide +kernel
  have hheld : (reached .member [] (committedTwice.take 1)).proposer.findPending 0x01000001
      = some (⟨.namespacePlane, 0x01000001, 7, [1], 0, false⟩, 0) := by decide +kernel
  have hgone : (reached .member [] (committedTwice.take 2)).proposer.findPending 0x01000001
      = none := by decide +kernel
  refine each_once .member (.inl rfl) [] committedTwice
    ⟨fun t ht => ?_, ⟨nofun, fun _ s cid hres => ⟨?_, fun e i he => ?_⟩⟩,
      ⟨⟨⟨.namespacePlane, 0x01000001, [1], 0⟩, by decide +kernel, rfl, rfl⟩, fun e i hf => ?_⟩,
      ⟨⟨⟨.namespacePlane, 0x01000001, [1], 0⟩, by decide +kernel, rfl, rfl⟩, fun e i hf => ?_⟩,
      trivial⟩
  · exact absurd (hboot ▸ ht) List.not_mem_nil
  · decide
  · exact absurd (hfree ▸ he) List.not_mem_nil
  · cases hheld.symm.trans hf
    exact ⟨rfl, nofun, nofun⟩
  · cases hgone.symm.trans hf

/-- **Not every accepted proposal is answered.** The group aborts a proposal
while the channel of results is full: its slot is freed, and no record is
about it. -/
theorem aborted_proposal_unanswered :
    ¬ (reached .member [] [.propose ⟨.namespacePlane, 7, [1]⟩ .durable .none .sent,
      .result 0x01000001 0 .aborted .none]).EachOnce .member
      (Decided .member [.propose ⟨.namespacePlane, 7, [1]⟩ .durable .none .sent,
        .result 0x01000001 0 .aborted .none]) := by
  intro h
  obtain ⟨p, -, ⟨⟨e, i, he, -⟩, -⟩ | ⟨-, m, hm, -⟩⟩ := h.once 0 (by decide +kernel)
  · have hfree : SlotTable.used (reached .member [] [
        .propose ⟨.namespacePlane, 7, [1]⟩ .durable .none .sent,
        .result 0x01000001 0 .aborted .none]).proposer.entries = [] := by decide +kernel
    exact absurd (hfree ▸ he) List.not_mem_nil
  · have hnone : (reached .member [] [.propose ⟨.namespacePlane, 7, [1]⟩ .durable .none .sent,
        .result 0x01000001 0 .aborted .none]).messagesOf 0 = [] := by decide +kernel
    cases hnone.symm.trans hm

end ProposerWorld

end Loam

import Loam.Proposer

/-!
# The pending table

What the operations of the proposer do to the entries of its table: a
reservation writes the first free slot, a result frees one, and whatever only
forwards leaves the entries as they are.
-/

namespace Loam

namespace Proposer

variable {cfg : ProposerConfig} {s s' : Proposer} {cid : UInt32} {e : PendingEntry} {i id : ℕ}
  {p : Propose} {recovered : Bool}

@[simp] theorem entries_modifySlot (s : Proposer) (i : ℕ) (f : PendingSlot → PendingSlot)
    (o : Option PendingEntry) (hf : ∀ x, (f x).entry = o) :
    (s.modifySlot i f).entries = s.entries.set i o := by
  refine List.ext_getElem? fun j => ?_
  simp only [entries, modifySlot, List.getElem?_map, List.getElem?_modify, List.getElem?_set,
    List.length_map]
  by_cases hij : i = j
  · subst hij
    cases hx : s.pending[i]? with
    | none =>
      have hlen := List.getElem?_eq_none_iff.mp hx
      rw [if_pos rfl, if_neg (Nat.not_lt.mpr hlen)]
      rfl
    | some x =>
      have hlen := (List.getElem?_eq_some_iff.mp hx).1
      simp [hlen, hf]
  · simp [hij]

theorem entries_freeSlot (s : Proposer) (i : ℕ) :
    (s.freeSlot i).entries = s.entries.set i none :=
  entries_modifySlot s i _ none fun _ => rfl

/-- Noting that an entry was forwarded leaves the entries. -/
theorem entries_markForwarded (s : Proposer) (i : ℕ) :
    (s.markForwarded i).entries = s.entries := by
  refine List.ext_getElem? fun j => ?_
  simp only [entries, markForwarded, modifySlot, List.getElem?_map, List.getElem?_modify]
  cases s.pending[j]? with
  | none => rfl
  | some x =>
    simp only [Option.map_some]
    split <;> rfl

/-- The entry a reservation writes. -/
def reserved (cfg : ProposerConfig) (s : Proposer) (id : ℕ) (recovered : Bool) (p : Propose) :
    PendingEntry :=
  ⟨p.plane, scopedId cfg.selfId s.nextCorrelationId, p.correlationId, p.inner, id, recovered⟩

/-- **A reservation writes the first free slot**, and nothing else of the
state but the counter of ids. -/
theorem reservePending_spec (h : s.reservePending cfg id recovered p = some (s', cid)) :
    p.inner.length ≤ maxInner ∧ cid = scopedId cfg.selfId s.nextCorrelationId ∧
      ∃ i, s.entries.findIdx? Option.isNone = some i ∧
        s'.entries = s.entries.set i (some (reserved cfg s id recovered p)) ∧
        s' = { s with
          pending := s'.pending
          nextCorrelationId := succId s.nextCorrelationId } := by
  unfold reservePending at h
  split at h
  · cases h
  next hlen =>
  obtain ⟨i, hi, h⟩ := Option.map_eq_some_iff.mp h
  cases h
  refine ⟨Nat.not_lt.mp hlen, rfl, i, hi, ?_, rfl⟩
  exact entries_modifySlot s i _ (some (reserved cfg s id recovered p)) fun _ => rfl

theorem mem_of_findPending (h : s.findPending cid = some (e, i)) :
    s.entries[i]? = some (some e) ∧ e.correlationId = cid := by
  obtain ⟨hm, hk⟩ := SlotTable.mem_of_find h
  exact ⟨SlotTable.mem_used.mp hm, hk⟩

end Proposer

namespace ProposerWorld

variable {cfg : ProposerConfig} {w w' : ProposerWorld} {cid : UInt32} {proof : CommitProof}
  {wr : ChannelWrite} {fw : ForwardWrite}

@[simp] theorem write_proposer (w : ProposerWorld) (r : ResultRecord) (wr : ChannelWrite) :
    (w.write r wr).proposer = w.proposer := by cases wr <;> rfl

@[simp] theorem write_log (w : ProposerWorld) (r : ResultRecord) (wr : ChannelWrite) :
    (w.write r wr).log = w.log := by cases wr <;> rfl

@[simp] theorem write_proposals (w : ProposerWorld) (r : ResultRecord) (wr : ChannelWrite) :
    (w.write r wr).proposals = w.proposals := by cases wr <;> rfl

@[simp] theorem write_durable (w : ProposerWorld) (r : ResultRecord) (wr : ChannelWrite) :
    (w.write r wr).durable = w.durable := by cases wr <;> rfl

@[simp] theorem write_resolved (w : ProposerWorld) (r : ResultRecord) (wr : ChannelWrite) :
    (w.write r wr).resolved = w.resolved := by cases wr <;> rfl

/-- The record that lands, if one does. -/
def landed (r : ResultRecord) : ChannelWrite → List ResultRecord
  | .all => [r]
  | .part => [.torn]
  | .none => []

theorem write_results (w : ProposerWorld) (r : ResultRecord) (wr : ChannelWrite) :
    (w.write r wr).results = w.results ++ landed r wr := by
  cases wr with
  | all | part => rfl
  | none => exact (List.append_nil _).symm

/-- The Committed record of an entry. -/
def commitRecord (e : PendingEntry) (proof : CommitProof) : ResultRecord :=
  .committed e.proposal e.plane e.originCorrelationId proof e.inner

/-- **Answering an entry as committed**: it was pending and its record is
whole on the channel, and it has left the table; or the state is as it was,
but for the front of a record. -/
theorem emitCommittedFor_cases (w : ProposerWorld) (cid : UInt32) (proof : CommitProof)
    (wr : ChannelWrite) :
    (∃ e i, w.proposer.findPending cid = some (e, i) ∧ wr = .all ∧
        committedHdr + e.inner.length ≤ appendScratch ∧
        w.emitCommittedFor cid proof wr =
          ({ w with
              results := w.results ++ [commitRecord e proof]
              proposer :=
                { w.proposer.freeSlot i with
                  replayOutstanding := w.proposer.replayOutstanding - 1 }
              resolved := w.resolved ++ [e.proposal] }, true)) ∨
      w.emitCommittedFor cid proof wr = (w, false) ∨
      (wr = .part ∧ w.emitCommittedFor cid proof wr
        = ({ w with results := w.results ++ [.torn] }, false)) := by
  unfold emitCommittedFor
  cases hf : w.proposer.findPending cid with
  | none => exact .inr (.inl rfl)
  | some p =>
    obtain ⟨e, i⟩ := p
    dsimp only
    split
    · exact .inr (.inl rfl)
    next hlen =>
    cases wr with
    | all => exact .inl ⟨e, i, rfl, rfl, Nat.not_lt.mp hlen, rfl⟩
    | part => exact .inr (.inr ⟨rfl, rfl⟩)
    | none => exact .inr (.inl rfl)

/-- Forwarding an entry leaves the entries, the log and the results. -/
theorem forwardToClustor_keeps (w : ProposerWorld) (cid : UInt32) (fw : ForwardWrite) :
    (w.forwardToClustor cid fw).1 =
        { w with
          proposer := { w.proposer with pending := (w.forwardToClustor cid fw).1.proposer.pending }
          forwarded := (w.forwardToClustor cid fw).1.forwarded } ∧
      (w.forwardToClustor cid fw).1.proposer.entries = w.proposer.entries := by
  unfold forwardToClustor
  cases hf : w.proposer.findPending cid with
  | none => exact ⟨rfl, rfl⟩
  | some p =>
    obtain ⟨e, i⟩ := p
    cases fw with
    | sent => exact ⟨rfl, Proposer.entries_markForwarded _ _⟩
    | owed | refused => exact ⟨rfl, rfl⟩

/-! ## What only forwards -/

/-- `w'` is `w` with entries forwarded or aged, and nothing else. -/
structure OnlyForwards (w w' : ProposerWorld) : Prop where
  /-- Only the slots and what was forwarded differ. -/
  eq : w' = { w with
    proposer := { w.proposer with pending := w'.proposer.pending }
    forwarded := w'.forwarded }
  entries : w'.proposer.entries = w.proposer.entries

theorem OnlyForwards.refl (w : ProposerWorld) : w.OnlyForwards w := ⟨rfl, rfl⟩

theorem OnlyForwards.trans {w'' : ProposerWorld} (h : w.OnlyForwards w')
    (h' : w'.OnlyForwards w'') : w.OnlyForwards w'' := by
  refine ⟨?_, h'.entries.trans h.entries⟩
  rw [h'.eq, h.eq]

theorem forwardToClustor_onlyForwards (w : ProposerWorld) (cid : UInt32) (fw : ForwardWrite) :
    w.OnlyForwards (w.forwardToClustor cid fw).1 :=
  ⟨(w.forwardToClustor_keeps cid fw).1, (w.forwardToClustor_keeps cid fw).2⟩

theorem forwardEach_onlyForwards (cids : List UInt32) (fws : List ForwardWrite) :
    w.OnlyForwards (w.forwardEach cids fws) := by
  induction cids generalizing w fws with
  | nil => exact .refl w
  | cons cid cids ih =>
    have hone := w.forwardToClustor_onlyForwards cid (fws.headD .refused)
    unfold forwardEach
    rcases hf : w.forwardToClustor cid (fws.headD .refused) with ⟨w₁, ok⟩
    rw [hf] at hone
    cases ok with
    | true => exact hone.trans (ih fws.tail)
    | false => exact hone

theorem age_entry (x : PendingSlot) : (age x).entry = x.entry := by
  unfold age
  split
  · split <;> rfl
  · rfl

/-- In a group, the end of a step only forwards. -/
theorem catchUp_onlyForwards (hr : cfg.replicated = true) (fws : List ForwardWrite)
    (wrs : List ChannelWrite) : w.OnlyForwards (w.catchUp cfg fws wrs) := by
  have haged : w.OnlyForwards
      { w with proposer := { w.proposer with pending := w.proposer.pending.map age } } := by
    refine ⟨rfl, ?_⟩
    simp only [Proposer.entries, List.map_map]
    exact List.map_congr_left fun x _ => age_entry x
  unfold catchUp
  rw [if_pos hr]
  exact haged.trans (forwardEach_onlyForwards _ _)

end ProposerWorld

end Loam

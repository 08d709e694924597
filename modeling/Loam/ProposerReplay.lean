import Loam.ProposerTable

/-!
# What a restart recovers

The log holds the proposals appended to it since it was last rotated, resolved
ones with the others. A boot reads it from the front, up to a torn frame if it
has one, into a table of fixed size, so that the first proposals of the log take
the slots: a proposal without a result is held again exactly when no torn frame
and fewer than that many proposals precede it.
-/

namespace Loam

/-- What a replayed record takes a slot with, if it does: the proposal's number
and the proposal. -/
def ProposeRecord.taken (r : ProposeRecord) : Option (ℕ × Propose) :=
  (r.decoded.filter fun p => decide (p.inner.length ≤ maxInner)).map fun p => (r.id, p)

/-- The table has an entry of that proposal. -/
def Proposer.Holds (s : Proposer) (id : ℕ) (p : Propose) : Prop :=
  ∃ e i, (e, i) ∈ SlotTable.used s.entries ∧ e.proposal = id ∧ e.propose = p

namespace Proposer

/-! ## The counter of ids -/

theorem toNat_and_mask (n : UInt32) : (n &&& 0x00FFFFFF).toNat = n.toNat % 2 ^ 24 := by
  rw [UInt32.toNat_and]
  exact Nat.and_two_pow_sub_one_eq_mod n.toNat 24

theorem succId_ofNat {n : ℕ} (h : n + 1 < 2 ^ 24) :
    succId (UInt32.ofNat n) = UInt32.ofNat (n + 1) := by
  have hsum : UInt32.ofNat n + 1 = UInt32.ofNat (n + 1) := by
    rw [UInt32.ofNat_add]
    rfl
  have hnat : (UInt32.ofNat (n + 1)).toNat = n + 1 :=
    UInt32.toNat_ofNat_of_lt' (by change n + 1 < 2 ^ 32; omega)
  have hmask : UInt32.ofNat (n + 1) &&& 0x00FFFFFF = UInt32.ofNat (n + 1) := by
    refine UInt32.toNat_inj.mp ?_
    rw [toNat_and_mask, hnat, Nat.mod_eq_of_lt h]
  have hpos : UInt32.ofNat (n + 1) ≠ 0 := fun h0 => by
    rw [h0] at hnat
    exact absurd hnat (by simp)
  rw [succId, hsum, hmask, if_neg hpos]

/-- The ids of a boot, until the counter wraps. -/
theorem iterate_succId {n : ℕ} (h : n + 1 < 2 ^ 24) : succId^[n] 1 = UInt32.ofNat (n + 1) := by
  induction n with
  | zero => rfl
  | succ n ih => rw [Function.iterate_succ_apply', ih (by omega), succId_ofNat h]

/-- The counter is read off the id. -/
theorem scopedId_and (a : UInt8) (n : UInt32) :
    scopedId a n &&& 0x00FFFFFF = n &&& 0x00FFFFFF := by
  refine UInt32.toBitVec_inj.mp (BitVec.eq_of_getLsbD_eq fun i hi => ?_)
  have hmask : (16777215#32).getLsbD i = decide (i < 24) := by
    revert i
    decide
  unfold scopedId
  by_cases h : i < 24 <;> simp [hmask, h]

/-- The ids of a boot are different until the counter wraps. -/
theorem scopedId_injOn {a : UInt8} {m n : ℕ} (hm : m + 1 < 2 ^ 24) (hn : n + 1 < 2 ^ 24)
    (h : scopedId a (succId^[m] 1) = scopedId a (succId^[n] 1)) : m = n := by
  have hmask := congrArg (fun x => (x &&& 0x00FFFFFF : UInt32).toNat) h
  simp only [scopedId_and, toNat_and_mask, iterate_succId hm, iterate_succId hn] at hmask
  rw [UInt32.toNat_ofNat_of_lt' (by change m + 1 < 2 ^ 32; omega),
    UInt32.toNat_ofNat_of_lt' (by change n + 1 < 2 ^ 32; omega), Nat.mod_eq_of_lt hm,
    Nat.mod_eq_of_lt hn] at hmask
  omega

end Proposer

namespace ProposerWorld

variable {cfg : ProposerConfig} {w w' : ProposerWorld} {ts : List (ℕ × Propose)} {id : ℕ}

/-! ## The replay -/

/-- The entry of the `i`-th proposal a boot recovers. -/
def recoveredEntry (cfg : ProposerConfig) (i : ℕ) (t : ℕ × Propose) : PendingEntry :=
  ⟨t.2.plane, Proposer.scopedId cfg.selfId (Proposer.succId^[i] 1), t.2.correlationId, t.2.inner,
    t.1, true⟩

/-- The table that holds the first of these, none of them forwarded. -/
def recoveredTable (cfg : ProposerConfig) (ts : List (ℕ × Propose)) : List PendingSlot :=
  (SlotTable.pack cfg.limits.pending (ts.mapIdx (recoveredEntry cfg))).map
    fun o => ⟨o, false, 0⟩

/-- A boot that has replayed these. -/
structure Replayed (cfg : ProposerConfig) (ts : List (ℕ × Propose)) (w : ProposerWorld) :
    Prop where
  pending : w.proposer.pending = recoveredTable cfg ts
  next : w.proposer.nextCorrelationId = Proposer.succId^[min ts.length cfg.limits.pending] 1
  accepted : w.accepted = (ts.take cfg.limits.pending).map Prod.fst

theorem entries_recoveredTable (ts : List (ℕ × Propose)) :
    (recoveredTable cfg ts).map PendingSlot.entry
      = SlotTable.pack cfg.limits.pending (ts.mapIdx (recoveredEntry cfg)) := by
  simp [recoveredTable, Function.comp_def]

theorem Replayed.entries (h : w.Replayed cfg ts) :
    w.proposer.entries = SlotTable.pack cfg.limits.pending (ts.mapIdx (recoveredEntry cfg)) := by
  rw [Proposer.entries, h.pending, entries_recoveredTable]

theorem modify_map_mk (l : List (Option PendingEntry)) (i : ℕ) (e : PendingEntry) :
    (l.map fun o => (⟨o, false, 0⟩ : PendingSlot)).modify i (fun x => { x with entry := some e })
      = (l.set i (some e)).map fun o => ⟨o, false, 0⟩ := by
  refine List.ext_getElem? fun j => ?_
  rw [List.getElem?_modify, List.getElem?_map, List.getElem?_map, List.getElem?_set]
  by_cases hij : i = j
  · subst hij
    cases hl : l[i]? with
    | none => simp [List.getElem?_eq_none_iff.mp hl]
    | some o => simp [(List.getElem?_eq_some_iff.mp hl).1]
  · simp [hij]

/-- **One record more**: it takes the next slot, or, when it is no proposal or
there is no slot, none. -/
theorem Replayed.replayRecord (h : w.Replayed cfg ts) (r : ProposeRecord) :
    (w.replayRecord cfg r).Replayed cfg (ts ++ r.taken.toList) := by
  unfold ProposerWorld.replayRecord ProposeRecord.taken
  cases hr : r.decoded with
  | none => simpa using h
  | some p =>
    rw [Option.bind_some, Option.filter_some]
    unfold Proposer.reservePending
    by_cases hlen : p.inner.length ≤ maxInner
    · rw [if_neg (Nat.not_lt.mpr hlen), if_pos (decide_eq_true hlen), h.entries,
        SlotTable.findIdx?_pack, List.length_mapIdx]
      by_cases hroom : ts.length < cfg.limits.pending
      · rw [if_pos hroom, Option.map_some]
        have hnext : w.proposer.nextCorrelationId = Proposer.succId^[ts.length] 1 := by
          rw [h.next, Nat.min_eq_left hroom.le]
        refine ⟨?_, ?_, ?_⟩
        · show w.proposer.pending.modify ts.length _ = _
          rw [h.pending, recoveredTable, modify_map_mk, recoveredTable, Option.toList_some,
            List.mapIdx_concat]
          congr 1
          have hlt : (ts.mapIdx (recoveredEntry cfg)).length < cfg.limits.pending := by
            simpa using hroom
          rw [← SlotTable.set_pack hlt, List.length_mapIdx, recoveredEntry, ← hnext]
        · show Proposer.succId w.proposer.nextCorrelationId = _
          have hmin : min (ts ++ [(r.id, p)]).length cfg.limits.pending = ts.length + 1 := by
            rw [List.length_append, List.length_singleton]
            omega
          rw [hnext, Option.toList_some, hmin, Function.iterate_succ_apply']
        · show w.accepted ++ [r.id] = _
          rw [h.accepted, Option.toList_some, List.take_of_length_le hroom.le,
            List.take_of_length_le (by simpa [Nat.succ_le_iff] using hroom), List.map_append]
          rfl
      · rw [if_neg hroom, Option.map_none]
        have hfull : cfg.limits.pending ≤ (ts.mapIdx (recoveredEntry cfg)).length := by
          simpa using hroom
        refine ⟨?_, ?_, ?_⟩
        · show w.proposer.pending = _
          rw [h.pending, recoveredTable, recoveredTable, Option.map_some, Option.toList_some,
            List.mapIdx_concat, SlotTable.pack_append_of_le hfull]
        · show w.proposer.nextCorrelationId = _
          have hmin : min (ts ++ [(r.id, p)]).length cfg.limits.pending
              = min ts.length cfg.limits.pending := by
            rw [List.length_append, List.length_singleton]
            omega
          rw [h.next, Option.map_some, Option.toList_some, hmin]
        · show w.accepted = _
          rw [h.accepted, List.take_append_of_le_length (by simpa using hfull)]
    · rw [if_pos (Nat.lt_of_not_le hlen), if_neg (by simpa using hlen)]
      simpa using h

/-- The proposals of the log that take slots at a boot. -/
def recoverable (cfg : ProposerConfig) (w : ProposerWorld) : List (ℕ × Propose) :=
  if cfg.walPath.isEmpty then [] else w.readable.filterMap ProposeRecord.taken

theorem recoverable_eq (hw : cfg.walPath.isEmpty = false) :
    recoverable cfg w = w.readable.filterMap ProposeRecord.taken := by simp [recoverable, hw]

/-- **A boot holds the first proposals of the log**, as many as the table has
slots for, in order, under consecutive ids. -/
theorem replayed_boot (cfg : ProposerConfig) (w : ProposerWorld) :
    (w.boot cfg).Replayed cfg (recoverable cfg w) := by
  have hfold : ∀ (rs : List ProposeRecord) (ts : List (ℕ × Propose)) (w : ProposerWorld),
      w.Replayed cfg ts → (rs.foldl (ProposerWorld.replayRecord cfg) w).Replayed cfg
        (ts ++ rs.filterMap ProposeRecord.taken) := by
    intro rs
    induction rs with
    | nil => intro ts w h; simpa using h
    | cons r rs ih =>
      intro ts w h
      have hrest := ih _ _ (h.replayRecord r)
      cases hr : r.taken with
      | none => simpa [List.filterMap_cons, hr] using hrest
      | some t => simpa [List.filterMap_cons, hr] using hrest
  have hfresh : Replayed cfg [] { w with proposer := .new cfg, results := [], accepted := [] } := by
    refine ⟨?_, ?_, ?_⟩
    · show List.replicate cfg.limits.pending _ = _
      simp [recoveredTable]
    · simp [Proposer.new]
    · rw [List.take_nil]
      rfl
  unfold boot recoverable
  dsimp only
  split
  · exact hfresh
  obtain ⟨hpending, hnext, haccepted⟩ := hfold w.readable [] _ hfresh
  exact ⟨hpending, hnext, haccepted⟩

/-! ## What an operation does to the proposals held -/

/-- The operation leaves the log and what was read and appended, and every
entry of the table, but those whose proposal is resolved by then. -/
structure Settles (w w' : ProposerWorld) : Prop where
  log : w'.log = w.log
  proposals : w'.proposals = w.proposals
  durable : w'.durable = w.durable
  walOpen : w'.proposer.walOpen = w.proposer.walOpen
  resolved : w.resolved ⊆ w'.resolved
  held : ∀ e i, (e, i) ∈ SlotTable.used w.proposer.entries →
    e.proposal ∈ w'.resolved ∨ (e, i) ∈ SlotTable.used w'.proposer.entries

theorem Settles.refl (w : ProposerWorld) : w.Settles w :=
  ⟨rfl, rfl, rfl, rfl, fun _ h => h, fun _ _ h => .inr h⟩

theorem Settles.trans {w'' : ProposerWorld} (h : w.Settles w') (h' : w'.Settles w'') :
    w.Settles w'' where
  log := h'.log.trans h.log
  proposals := h'.proposals.trans h.proposals
  durable := h'.durable.trans h.durable
  walOpen := h'.walOpen.trans h.walOpen
  resolved := fun _ hx => h'.resolved (h.resolved hx)
  held := fun e i he => (h.held e i he).elim (fun hr => .inl (h'.resolved hr)) (h'.held e i)

theorem OnlyForwards.settles (h : w.OnlyForwards w') : w.Settles w' := by
  have heq := h.eq
  refine ⟨by rw [heq], by rw [heq], by rw [heq], by rw [heq], ?_, fun e i he => .inr ?_⟩
  · rw [heq]
    exact fun _ hx => hx
  · rwa [h.entries]

theorem settles_write (w : ProposerWorld) (r : ResultRecord) (wr : ChannelWrite) :
    w.Settles (w.write r wr) := by
  refine ⟨write_log .., write_proposals .., write_durable .., by rw [write_proposer], ?_,
    fun e i he => .inr ?_⟩
  · rw [write_resolved]
    exact fun _ hx => hx
  · rwa [write_proposer]

/-- The entry found leaves the table, its proposal resolved. -/
theorem settles_free {cid : UInt32} {e : PendingEntry} {i : ℕ}
    (hf : w.proposer.findPending cid = some (e, i)) (rs : List ResultRecord) (n : ℕ) :
    w.Settles { w with
      results := rs
      proposer := { w.proposer.freeSlot i with replayOutstanding := n }
      resolved := w.resolved ++ [e.proposal] } := by
  have hmem := SlotTable.mem_used.mpr (Proposer.mem_of_findPending hf).1
  refine ⟨rfl, rfl, rfl, rfl, fun _ hx => List.mem_append_left _ hx, fun b j hb => ?_⟩
  show b.proposal ∈ w.resolved ++ [e.proposal] ∨
    (b, j) ∈ SlotTable.used (w.proposer.freeSlot i).entries
  rw [Proposer.entries_freeSlot, SlotTable.mem_used_set (SlotTable.lt_of_mem_used hmem)]
  by_cases hj : j = i
  · subst hj
    rw [SlotTable.eq_of_mem_used hb hmem]
    exact .inl (List.mem_append_right _ (List.mem_singleton.mpr rfl))
  · exact .inr (.inr ⟨hj, hb⟩)

theorem settles_emitCommittedFor (w : ProposerWorld) (cid : UInt32) (proof : CommitProof)
    (wr : ChannelWrite) : w.Settles (w.emitCommittedFor cid proof wr).1 := by
  rcases w.emitCommittedFor_cases cid proof wr with ⟨e, i, hf, -, -, he⟩ | he | ⟨-, he⟩
  · rw [he]
    exact settles_free hf _ _
  · rw [he]
    exact .refl w
  · rw [he]
    exact settles_write w .torn .all

theorem settles_result (w : ProposerWorld) (cid : UInt32) (verdict : GroupVerdict)
    (wr : ChannelWrite) : w.Settles (w.result cid verdict wr) := by
  cases verdict with
  | committed proof => exact settles_emitCommittedFor w cid proof wr
  | aborted =>
    unfold result
    cases hf : w.proposer.findPending cid with
    | none => exact .refl w
    | some q =>
      obtain ⟨e, i⟩ := q
      exact (settles_free hf w.results w.proposer.replayOutstanding).trans (settles_write _ _ wr)

theorem settles_redriveEach (cids : List UInt32) (wrs : List ChannelWrite) :
    w.Settles (w.redriveEach cfg cids wrs) := by
  induction cids generalizing w wrs with
  | nil => exact .refl w
  | cons cid cids ih =>
    have hepoch : w.Settles w.takeEpoch :=
      ⟨rfl, rfl, rfl, rfl, fun _ h => h, fun _ _ h => .inr h⟩
    have hone := hepoch.trans (settles_emitCommittedFor w.takeEpoch cid
      (localProof cfg w.proposer.nextEpoch) (wrs.headD .none))
    unfold redriveEach
    rcases he : w.takeEpoch.emitCommittedFor cid (localProof cfg w.proposer.nextEpoch)
      (wrs.headD .none) with ⟨w₁, ok⟩
    rw [he] at hone
    cases ok with
    | true => exact hone.trans (ih wrs.tail)
    | false => exact hone

theorem settles_catchUp (w : ProposerWorld) (fws : List ForwardWrite) (wrs : List ChannelWrite) :
    w.Settles (w.catchUp cfg fws wrs) := by
  by_cases hr : cfg.replicated = true
  · exact (catchUp_onlyForwards hr fws wrs).settles
  unfold catchUp
  rw [if_neg hr]
  exact settles_redriveEach _ _

variable (cfg) in
/-- **A proposal that is admitted is held or resolved** after it, with whatever
was held before. -/
theorem settles_admitProposal (w : ProposerWorld) (id : ℕ) (p : Propose) (wr : ChannelWrite)
    (fw : ForwardWrite) :
    w.Settles (w.admitProposal cfg id p wr fw) ∧
      (id ∈ (w.admitProposal cfg id p wr fw).resolved ∨
        p.inner.length ≤ maxInner ∧
          (w.admitProposal cfg id p wr fw).proposer.Holds id p) := by
  unfold admitProposal
  cases hr : w.proposer.reservePending cfg id false p with
  | none =>
    have hnoted : w.Settles { w with resolved := w.resolved ++ [id] } :=
      ⟨rfl, rfl, rfl, rfl, fun _ h => List.mem_append_left _ h, fun _ _ h => .inr h⟩
    refine ⟨hnoted.trans (settles_write _ _ wr), .inl ?_⟩
    dsimp only
    rw [write_resolved]
    exact List.mem_append_right _ (List.mem_singleton.mpr rfl)
  | some q =>
    obtain ⟨s, cid⟩ := q
    obtain ⟨hlen, -, i, hi, hent, hs⟩ := Proposer.reservePending_spec hr
    obtain ⟨hlt, hfree⟩ := SlotTable.free_eq_some hi
    have hreserved : w.Settles { w with proposer := s, accepted := w.accepted ++ [id] } := by
      refine ⟨rfl, rfl, rfl, by rw [hs], fun _ h => h, fun b j hb => .inr ?_⟩
      show (b, j) ∈ SlotTable.used s.entries
      rw [hent, SlotTable.mem_used_set hlt]
      exact .inr ⟨fun hj => hfree b (hj ▸ hb), hb⟩
    have hnew : (Proposer.reserved cfg w.proposer id false p, i) ∈ SlotTable.used s.entries := by
      rw [hent, SlotTable.mem_used_set hlt]
      exact .inl ⟨rfl, rfl⟩
    have hrest : ∀ w' : ProposerWorld,
        Settles { w with proposer := s, accepted := w.accepted ++ [id] } w' →
        w.Settles w' ∧
          (id ∈ w'.resolved ∨ p.inner.length ≤ maxInner ∧ w'.proposer.Holds id p) := by
      intro w' hw'
      refine ⟨hreserved.trans hw', (hw'.held _ i hnew).imp_right fun hheld => ?_⟩
      exact ⟨hlen, _, i, hheld, rfl, rfl⟩
    dsimp only
    split
    · exact hrest _ (forwardToClustor_onlyForwards _ cid fw).settles
    refine hrest _ (Settles.trans ?_ (settles_emitCommittedFor _ cid _ wr))
    exact ⟨rfl, rfl, rfl, rfl, fun _ h => h, fun _ _ h => .inr h⟩

/-! ## The proposals of the log -/

/-- The proposal is durable, and its commit or abort has not been seen. -/
def Unresolved (w : ProposerWorld) (id : ℕ) : Prop := id ∈ w.durable ∧ id ∉ w.resolved

/-- The proposals that precede it in the log, resolved ones with the others. -/
def ahead (w : ProposerWorld) (id : ℕ) : ℕ :=
  ((w.log.takeWhile fun r => r.id != id).filterMap ProposeRecord.taken).length

/-- A replay comes to it: no torn frame stands before it. -/
def Reads (w : ProposerWorld) (id : ℕ) : Prop := id ∈ w.readable.map ProposeRecord.id

instance (w : ProposerWorld) (id : ℕ) : Decidable (w.Reads id) :=
  inferInstanceAs (Decidable (_ ∈ _))

/-- The log has proposals that were read. -/
structure Logged (w : ProposerWorld) : Prop where
  fresh : ∀ r ∈ w.log, r.id < w.proposals.length
  nodup : (w.log.map ProposeRecord.id).Nodup
  asRead : ∀ r ∈ w.log, w.proposals[r.id]? = some r.decoded

/-- **The log and the table account for every unresolved proposal**: it is in
the log, once, as it was read, and the table holds it. -/
structure Keeps (cfg : ProposerConfig) (w : ProposerWorld) : Prop extends Logged w where
  kept : ∀ id, w.Unresolved id → ∃ p, ⟨id, some p⟩ ∈ w.log ∧
    p.inner.length ≤ maxInner ∧ w.proposer.Holds id p
  /-- There is no log where none is configured. -/
  opened : w.proposer.walOpen = true ∨ w.durable ≠ [] → cfg.walPath.isEmpty = false

theorem Settles.holds (h : w.Settles w') {p : Propose} (hid : id ∉ w'.resolved)
    (hp : w.proposer.Holds id p) : w'.proposer.Holds id p := by
  obtain ⟨e, i, he, rfl, hp⟩ := hp
  exact ⟨e, i, (h.held e i he).resolve_left hid, rfl, hp⟩

theorem Logged.congr (h : w.Logged) (hlog : w'.log = w.log) (hprop : w'.proposals = w.proposals) :
    w'.Logged := by
  refine ⟨?_, ?_, ?_⟩
  · rw [hlog, hprop]
    exact h.fresh
  · rw [hlog]
    exact h.nodup
  · rw [hlog, hprop]
    exact h.asRead

theorem Logged.read (h : w.Logged) (o : Option Propose) :
    Logged { w with proposals := w.proposals ++ [o] } := by
  refine ⟨fun r hr => ?_, h.nodup, fun r hr => ?_⟩
  · rw [List.length_append]
    exact Nat.lt_add_right _ (h.fresh r hr)
  · rw [List.getElem?_append_left (h.fresh r hr)]
    exact h.asRead r hr

/-- A proposal is read, and its record is in the log. -/
theorem Logged.append (h : w.Logged) (o : Option Propose) :
    Logged { w with
      proposals := w.proposals ++ [o]
      log := w.log ++ [⟨w.proposals.length, o⟩] } := by
  have hread := h.read o
  refine ⟨fun r hr => ?_, ?_, fun r hr => ?_⟩
  · rcases List.mem_append.mp hr with hr | hr
    · exact hread.fresh r hr
    rw [List.mem_singleton.mp hr, List.length_append]
    exact Nat.lt_succ_self _
  · rw [List.map_append, List.nodup_append]
    refine ⟨h.nodup, List.nodup_singleton _, fun a ha b hb => ?_⟩
    obtain ⟨r, hr, rfl⟩ := List.mem_map.mp ha
    rw [List.mem_singleton.mp hb]
    exact (h.fresh r hr).ne
  · rcases List.mem_append.mp hr with hr | hr
    · exact hread.asRead r hr
    rw [List.mem_singleton.mp hr]
    exact List.getElem?_concat_length

theorem Logged.cleared (h : w.log = []) : w.Logged := by
  refine ⟨?_, ?_, ?_⟩ <;> rw [h]
  · exact nofun
  · exact List.nodup_nil
  · exact nofun

theorem Keeps.settles (h : w.Keeps cfg) (hs : w.Settles w') : w'.Keeps cfg := by
  refine ⟨h.toLogged.congr hs.log hs.proposals, fun id hid => ?_, ?_⟩
  · obtain ⟨hdur, hres⟩ := hid
    rw [hs.durable] at hdur
    obtain ⟨p, hlog, hlen, hp⟩ := h.kept id ⟨hdur, fun hr => hres (hs.resolved hr)⟩
    exact ⟨p, hs.log ▸ hlog, hlen, hs.holds hres hp⟩
  · rw [hs.walOpen, hs.durable]
    exact h.opened

theorem Keeps.read (h : w.Keeps cfg) (o : Option Propose) :
    Keeps cfg { w with proposals := w.proposals ++ [o] } :=
  ⟨h.toLogged.read o, h.kept, h.opened⟩

theorem Keeps.logged (h : w.Keeps cfg) (o : Option Propose) :
    Keeps cfg { w with
      proposals := w.proposals ++ [o]
      log := w.log ++ [⟨w.proposals.length, o⟩] } := by
  refine ⟨h.toLogged.append o, fun id hid => ?_, h.opened⟩
  obtain ⟨p, hlog, hp⟩ := h.kept id hid
  exact ⟨p, List.mem_append_left _ hlog, hp⟩

theorem Keeps.admitDurable (h : w.Keeps cfg) {p : Propose} (hw : cfg.walPath.isEmpty = false)
    (hlog : ⟨id, some p⟩ ∈ w.log) (wr : ChannelWrite) (fw : ForwardWrite) :
    (admitProposal cfg { w with durable := w.durable ++ [id] } id p wr fw).Keeps cfg := by
  obtain ⟨hs, hnew⟩ :=
    settles_admitProposal cfg { w with durable := w.durable ++ [id] } id p wr fw
  refine ⟨h.toLogged.congr hs.log hs.proposals, fun id' hid => ?_, fun _ => hw⟩
  obtain ⟨hdur, hres⟩ := hid
  rw [hs.durable] at hdur
  rw [hs.log]
  rcases List.mem_append.mp hdur with hdur | hdur
  · obtain ⟨q, hq, hlen, hp⟩ := h.kept id' ⟨hdur, fun hr => hres (hs.resolved hr)⟩
    exact ⟨q, hq, hlen, hs.holds hres hp⟩
  · obtain rfl := List.mem_singleton.mp hdur
    obtain ⟨hlen, hp⟩ := hnew.resolve_left hres
    exact ⟨p, hlog, hlen, hp⟩

theorem Keeps.refused (h : w.Keeps cfg) (id : ℕ) (r : ResultRecord) (wr : ChannelWrite) :
    (write { w with resolved := w.resolved ++ [id] } r wr).Keeps cfg :=
  have hnoted : w.Settles { w with resolved := w.resolved ++ [id] } :=
    ⟨rfl, rfl, rfl, rfl, fun _ hx => List.mem_append_left _ hx, fun _ _ he => .inr he⟩
  h.settles (hnoted.trans (settles_write _ r wr))

/-! ## A boot -/

variable (cfg) in
theorem foldl_replayRecord_keeps (rs : List ProposeRecord) :
    (rs.foldl (replayRecord cfg) w).log = w.log ∧
      (rs.foldl (replayRecord cfg) w).proposals = w.proposals ∧
      (rs.foldl (replayRecord cfg) w).durable = w.durable ∧
      (rs.foldl (replayRecord cfg) w).resolved = w.resolved ∧
      (rs.foldl (replayRecord cfg) w).forwarded = w.forwarded ∧
      (rs.foldl (replayRecord cfg) w).proposer.walOpen = w.proposer.walOpen ∧
      (rs.foldl (replayRecord cfg) w).results = w.results := by
  induction rs generalizing w with
  | nil => exact ⟨rfl, rfl, rfl, rfl, rfl, rfl, rfl⟩
  | cons r rs ih =>
    obtain ⟨hlog, hprop, hdur, hres, hfwd, hopen, hresults⟩ := ih (w := w.replayRecord cfg r)
    have hone : w.replayRecord cfg r = { w with
        proposer := (w.replayRecord cfg r).proposer
        accepted := (w.replayRecord cfg r).accepted } ∧
        (w.replayRecord cfg r).proposer.walOpen = w.proposer.walOpen := by
      unfold replayRecord
      cases hr : r.decoded.bind fun p => w.proposer.reservePending cfg r.id true p with
      | none => exact ⟨rfl, rfl⟩
      | some q =>
        obtain ⟨p, -, hp⟩ := Option.bind_eq_some_iff.mp hr
        obtain ⟨-, -, -, -, -, hs⟩ := Proposer.reservePending_spec hp
        refine ⟨rfl, ?_⟩
        show q.1.walOpen = _
        rw [hs]
    rw [List.foldl_cons, hlog, hprop, hdur, hres, hfwd, hopen, hresults, hone.2]
    rw [hone.1]
    exact ⟨rfl, rfl, rfl, rfl, rfl, rfl, rfl⟩

variable (cfg) in
/-- A boot leaves the device and the history. -/
theorem boot_keeps (w : ProposerWorld) :
    (w.boot cfg).log = w.log ∧ (w.boot cfg).proposals = w.proposals ∧
      (w.boot cfg).durable = w.durable ∧ (w.boot cfg).resolved = w.resolved ∧
      (w.boot cfg).forwarded = w.forwarded ∧
      (w.boot cfg).proposer.walOpen = (!cfg.walPath.isEmpty) ∧ (w.boot cfg).results = [] := by
  unfold boot
  dsimp only
  split
  · exact ⟨rfl, rfl, rfl, rfl, rfl, rfl, rfl⟩
  exact foldl_replayRecord_keeps cfg w.readable
    (w := { w with proposer := .new cfg, results := [], accepted := [] })

/-- Where a proposal that is read comes among those that take slots. -/
theorem getElem?_ahead {p : Propose} (hlog : ⟨id, some p⟩ ∈ w.readable)
    (hnodup : (w.log.map ProposeRecord.id).Nodup) (hlen : p.inner.length ≤ maxInner) :
    (w.readable.filterMap ProposeRecord.taken)[w.ahead id]? = some (id, p) := by
  obtain ⟨pre, post, hsplit⟩ := List.append_of_mem hlog
  obtain ⟨rest, hrest⟩ : w.readable <+: w.log := List.take_prefix _ _
  rw [hsplit, List.append_assoc, List.cons_append] at hrest
  have hpre : ∀ r ∈ pre, r.id ≠ id := by
    rw [← hrest, List.map_append, List.map_cons, List.nodup_append] at hnodup
    exact fun r hr => hnodup.2.2 r.id (List.mem_map_of_mem hr) id List.mem_cons_self
  have hahead : w.log.takeWhile (fun r => r.id != id) = pre := by
    rw [← hrest, List.takeWhile_append_of_pos fun r hr => bne_iff_ne.mpr (hpre r hr)]
    simp
  have htaken : (⟨id, some p⟩ : ProposeRecord).taken = some (id, p) := by
    simp [ProposeRecord.taken, hlen]
  rw [ahead, hahead, hsplit, List.filterMap_append, List.filterMap_cons_some htaken,
    List.getElem?_append_right (Nat.le_refl _), Nat.sub_self]
  rfl

/-- A record is of the proposal it takes a slot for. -/
theorem id_of_taken {r : ProposeRecord} {t : ℕ × Propose} (h : r.taken = some t) : t.1 = r.id := by
  unfold ProposeRecord.taken at h
  obtain ⟨p, -, rfl⟩ := Option.map_eq_some_iff.mp h
  rfl

/-- The proposals that take slots are different ones. -/
theorem nodup_taken {rs : List ProposeRecord} (h : (rs.map ProposeRecord.id).Nodup) :
    ((rs.filterMap ProposeRecord.taken).map Prod.fst).Nodup := by
  have hids : (rs.filterMap ProposeRecord.taken).map Prod.fst
      = (rs.filter fun r => r.taken.isSome).map ProposeRecord.id := by
    clear h
    induction rs with
    | nil => rfl
    | cons r rs ih =>
      cases hr : r.taken with
      | none => rw [List.filterMap_cons_none hr, ih, List.filter_cons_of_neg (by simp [hr])]
      | some t =>
        rw [List.filterMap_cons_some hr, List.map_cons, ih,
          List.filter_cons_of_pos (by simp [hr]), List.map_cons, id_of_taken hr]
  rw [hids]
  exact h.sublist ((List.filter_sublist).map _)

theorem nodup_readable (h : (w.log.map ProposeRecord.id).Nodup) :
    (w.readable.map ProposeRecord.id).Nodup :=
  h.sublist ((List.take_sublist _ _).map ProposeRecord.id)

/-- A proposal is at one place among those that take slots. -/
theorem ahead_of_getElem? {p : Propose} (hlog : ⟨id, some p⟩ ∈ w.readable)
    (hnodup : (w.log.map ProposeRecord.id).Nodup) (hlen : p.inner.length ≤ maxInner) {i : ℕ}
    {q : Propose} (hi : (w.readable.filterMap ProposeRecord.taken)[i]? = some (id, q)) :
    i = w.ahead id := by
  have hat := getElem?_ahead hlog hnodup hlen
  have hlt := (List.getElem?_eq_some_iff.mp hi).1
  refine (List.getElem?_inj (by simpa using hlt) (nodup_taken (nodup_readable hnodup))).mp ?_
  rw [List.getElem?_map, List.getElem?_map, hi, hat]
  rfl

/-- **What a boot holds**: a proposal of the log is held again exactly when no
torn frame and fewer than the slots precede it. -/
theorem holds_boot_iff {p : Propose} (hw : cfg.walPath.isEmpty = false)
    (hlog : ⟨id, some p⟩ ∈ w.log) (hnodup : (w.log.map ProposeRecord.id).Nodup)
    (hlen : p.inner.length ≤ maxInner) :
    (w.boot cfg).proposer.Holds id p ↔ w.Reads id ∧ w.ahead id < cfg.limits.pending := by
  have hread : w.Reads id → ⟨id, some p⟩ ∈ w.readable := by
    intro h
    obtain ⟨r, hr, hid⟩ := List.mem_map.mp h
    have hmem : r ∈ w.log := List.mem_of_mem_take hr
    rwa [← List.inj_on_of_nodup_map hnodup hmem hlog hid]
  unfold Proposer.Holds
  rw [(replayed_boot cfg w).entries, recoverable_eq hw]
  constructor
  · rintro ⟨e, i, he, rfl, -⟩
    obtain ⟨hi, hget⟩ := SlotTable.mem_used_pack.mp he
    rw [List.getElem?_mapIdx] at hget
    obtain ⟨⟨id', q⟩, hq, rfl⟩ := Option.map_eq_some_iff.mp hget
    obtain ⟨r, hr, ht⟩ := List.mem_filterMap.mp (List.mem_of_getElem? hq)
    have hreads : w.Reads id' := List.mem_map.mpr ⟨r, hr, (id_of_taken ht).symm⟩
    refine ⟨hreads, ?_⟩
    rwa [← ahead_of_getElem? (hread hreads) hnodup hlen hq]
  · rintro ⟨hreads, hlt⟩
    have hat := getElem?_ahead (hread hreads) hnodup hlen
    refine ⟨recoveredEntry cfg (w.ahead id) (id, p), w.ahead id, ?_, rfl, rfl⟩
    refine SlotTable.mem_used_pack.mpr ⟨hlt, ?_⟩
    rw [List.getElem?_mapIdx, hat, Option.map_some]

/-! ## The run -/

/-- A restart here recovers everything: no torn frame and fewer proposals than
there are slots precede an unresolved one in the log. -/
def Fits (cfg : ProposerConfig) (w : ProposerWorld) : ProposerEvent → Prop
  | .crash => ∀ id, w.Unresolved id → w.Reads id ∧ w.ahead id < cfg.limits.pending
  | _ => True

theorem Keeps.boot (h : w.Keeps cfg) (hf : w.Fits cfg .crash) : (w.boot cfg).Keeps cfg := by
  obtain ⟨hlog, hprop, hdur, hres, -, hopen, -⟩ := boot_keeps cfg w
  refine ⟨h.toLogged.congr hlog hprop, fun id hid => ?_, ?_⟩
  · have hun : w.Unresolved id := by
      rw [Unresolved, hdur, hres] at hid
      exact hid
    obtain ⟨p, hp, hlen, -⟩ := h.kept id hun
    have hw := h.opened (.inr (List.ne_nil_of_mem hun.1))
    rw [hlog]
    exact ⟨p, hp, hlen, (holds_boot_iff hw hp h.nodup hlen).mpr (hf id hun)⟩
  · rw [hopen, hdur]
    rintro (ho | hd)
    · simpa using ho
    · exact h.opened (.inr hd)

/-- **Every event keeps them accounted for**, if a restart recovers
everything. -/
theorem Keeps.step (h : w.Keeps cfg) {e : ProposerEvent} (hf : w.Fits cfg e) :
    (w.step cfg e).Keeps cfg := by
  cases e with
  | propose p append wr fw =>
    simp only [ProposerWorld.step, ProposerWorld.propose]
    split
    · exact (h.read _).refused _ _ wr
    split
    · next hopen =>
      cases append with
      | durable =>
        exact (h.logged (some p)).admitDurable (h.opened (.inl hopen))
          (List.mem_append_right _ (List.mem_singleton.mpr rfl)) wr fw
      | failed left =>
        cases left with
        | whole => exact (h.logged _).refused _ _ wr
        | part =>
          have htorn : Keeps cfg { w with
              proposals := w.proposals ++ [some p]
              torn := w.torn.or (some w.log.length) } :=
            (h.read _).settles ⟨rfl, rfl, rfl, rfl, fun _ h => h, fun _ _ h => .inr h⟩
          exact htorn.refused _ _ wr
        | nothing => exact (h.read _).refused _ _ wr
    · exact (h.read _).settles (settles_admitProposal cfg _ _ p wr fw).1
  | result cid of verdict wr => exact h.settles (settles_result w cid verdict wr)
  | marker wr =>
    simp only [ProposerWorld.step, ProposerWorld.marker]
    split
    · exact h.settles ⟨rfl, rfl, rfl, rfl, fun _ h => h, fun _ _ h => .inr h⟩
    · exact h
  | rotate outcome =>
    simp only [ProposerWorld.step, ProposerWorld.rotate]
    split
    · next hidle =>
      -- Nothing is pending, so nothing is unresolved, and the log may go.
      have hnone : ∀ id, ¬ w.Unresolved id := by
        intro id hid
        obtain ⟨-, -, -, e, i, he, -⟩ := h.kept id hid
        simp only [Bool.and_eq_true, beq_iff_eq, Proposer.inFlight] at hidle
        rw [List.eq_nil_of_length_eq_zero hidle.2] at he
        cases he
      have hpath := fun (hd : w.durable ≠ []) => h.opened (.inr hd)
      cases outcome with
      | rotated =>
        exact ⟨.cleared rfl, fun id hid => absurd hid (hnone id), h.opened⟩
      | skipped => exact ⟨h.toLogged.congr rfl rfl, h.kept, h.opened⟩
      | lost =>
        refine ⟨.cleared rfl, fun id hid => absurd hid (hnone id), ?_⟩
        rintro (ho | hd)
        · cases ho
        · exact hpath hd
    · exact h
  | catchUp fws wrs => exact h.settles (settles_catchUp w fws wrs)
  | crash => exact h.boot hf

end ProposerWorld

end Loam

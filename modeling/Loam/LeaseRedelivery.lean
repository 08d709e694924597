import Loam.LeaseFences

/-!
# Lease records judged again

A log that is replayed hands back records that were judged before. Where the table
still has the volume, its stamp says so, and where the volume's entry was recycled, the
floor does. A record that left no stamp behind is one that was refused: a renewal or a
release of a volume without an entry, or an acquire that found no entry to recycle. It
is refused again: whatever has been judged since has a later stamp, so no entry is the
volume's at an earlier one, and none can be recycled for it that could not before
(`Spent`).
-/

namespace Loam

/-- The stamp of the record that a call is made for. -/
def LeaseCall.stamp : LeaseCall → Option UInt64
  | .apply _ _ _ now _ | .touch _ now | .endExpiredFlushes now => some now
  | .setFlushing .. => none

/-- The stamp an event brings. -/
def LeaseEvent.stamp : LeaseEvent → Option UInt64
  | .call c => c.stamp
  | .rotate | .replay => none

namespace LeaseTable

variable {L : Limits} {t t' : LeaseTable L} {k : Key} {e e' : LeaseEntry} {i : ℕ} {now : UInt64}

/-! ## What later records do to the entries -/

/-- Two entries of a volume that are held alike, and judged alike. -/
structure Alike (e e' : LeaseEntry) : Prop where
  key : e'.key = e.key
  live : e'.live = e.live
  expiresAt : e'.expiresAt = e.expiresAt
  stamp : e'.stamp = e.stamp

theorem Alike.refl (e : LeaseEntry) : Alike e e := ⟨rfl, rfl, rfl, rfl⟩

theorem Alike.heldAt (h : Alike e e') (now : UInt64) : e'.heldAt now = e.heldAt now := by
  rw [LeaseEntry.heldAt, LeaseEntry.heldAt, h.live, h.expiresAt]

/-- What records past a stamp leave of a table: no volume is judged at an earlier stamp,
no entry becomes free, and one that is not past the stamp is as it was. -/
structure Overlaid (now : UInt64) (t t' : LeaseTable L) : Prop where
  stamp : ∀ k, t.lastStamp k ≤ t'.lastStamp k
  full : t.unused = none → t'.unused = none
  entry : ∀ e' i, (e', i) ∈ SlotTable.used t'.entries →
    now < e'.stamp ∨ ∃ e, (e, i) ∈ SlotTable.used t.entries ∧ Alike e e'

theorem Overlaid.refl (now : UInt64) (t : LeaseTable L) : Overlaid now t t :=
  ⟨fun _ => UInt64.le_refl _, id, fun e' _ h => .inr ⟨e', h, .refl e'⟩⟩

theorem full_iff {l : List (Option LeaseEntry)} :
    l.findIdx? Option.isNone = none ↔ ∀ o ∈ l, o.isSome = true := by
  rw [List.findIdx?_eq_none_iff]
  simp only [Option.isNone_eq_false_iff]

theorem Overlaid.set (hs : ∀ k, t.lastStamp k ≤ t'.lastStamp k) (hi : i < t.entries.length)
    (he : t'.entries = t.entries.set i (some e'))
    (h : now < e'.stamp ∨ ∃ e, (e, i) ∈ SlotTable.used t.entries ∧ Alike e e') :
    Overlaid now t t' where
  stamp := hs
  full hf := by
    rw [unused, full_iff] at hf ⊢
    rw [he]
    intro o ho
    rcases List.mem_or_eq_of_mem_set ho with ho | rfl
    · exact hf o ho
    · rfl
  entry b j hb := by
    rw [he, SlotTable.mem_used_set hi] at hb
    rcases hb with ⟨rfl, hb⟩ | ⟨-, hb⟩
    · cases hb
      exact h
    · exact .inr ⟨b, hb, .refl b⟩

/-- All of them are rewritten, but for their flushes. -/
theorem Overlaid.map (hs : ∀ k, t.lastStamp k ≤ t'.lastStamp k) {f : LeaseEntry → LeaseEntry}
    (he : t'.entries = t.entries.map (Option.map f)) (hf : ∀ e, Alike e (f e)) :
    Overlaid now t t' where
  stamp := hs
  full hfull := by
    rw [unused, full_iff] at hfull ⊢
    rw [he]
    intro o ho
    obtain ⟨o', ho', rfl⟩ := List.mem_map.mp ho
    rw [Option.isSome_map]
    exact hfull o' ho'
  entry b j hb := by
    rw [he, SlotTable.mem_used_map] at hb
    obtain ⟨e, hm, rfl⟩ := hb
    exact .inr ⟨e, hm, hf e⟩

theorem used_of_find (hf : t.find k = some (e, i)) :
    (e, i) ∈ SlotTable.used t.entries ∧ i < t.entries.length :=
  ⟨(SlotTable.mem_of_find hf).1, SlotTable.lt_of_mem_used (SlotTable.mem_of_find hf).1⟩

/-- **What a lease record of a volume without an entry does**: nothing, where it is late,
asks for no entry or can claim none; or it enters the volume, and its slot was free or
is recycled. -/
theorem Regular.applyAbsent_cases (h : t.Regular) (op : LeaseOp) (holder : Bytes)
    (now expires : UInt64) :
    ((t.applyAbsent op k holder now expires).1 = t ∧
        (now ≤ t.stampFloor ∨ op ≠ .acquire ∨ t.claimSlot now = none)) ∨
      ((t.applyAbsent op k holder now expires).2.status = .granted ∧
        ∃ i e', i < t.entries.length ∧ e'.stamp = now ∧
          (t.applyAbsent op k holder now expires).1.entries = t.entries.set i (some e')) := by
  unfold applyAbsent
  split
  · next hle => exact .inl ⟨rfl, .inl hle⟩
  next hlate =>
  have hnow := UInt64.not_le.mp hlate
  have hfloor := UInt64.lt_of_le_of_lt h.floor_le hnow
  split
  · next hop => exact .inl ⟨rfl, .inr (.inl hop)⟩
  cases hclaim : t.claimSlot now with
  | none => exact .inl ⟨rfl, .inr (.inr rfl)⟩
  | some p =>
    obtain ⟨t₁, i⟩ := p
    dsimp only
    -- No fence is past its stamp, so there is a next one.
    have hclaimed : i < t.entries.length ∧ t₁.fenceFloor < now ∧
        ∀ o, t₁.entries.set i o = t.entries.set i o := by
      unfold claimSlot at hclaim
      split at hclaim
      · next j hu =>
        cases hclaim
        exact ⟨(SlotTable.free_eq_some hu).1, hfloor, fun _ => rfl⟩
      obtain ⟨⟨e, j⟩, hc, hclaim⟩ := Option.map_eq_some_iff.mp hclaim
      cases hclaim
      have hm := List.mem_of_find?_eq_some hc
      have hold := List.find?_some (p := fun p : LeaseEntry × ℕ =>
        !p.1.heldAt now && decide (p.1.stamp < now)) hc
      simp only [Bool.and_eq_true, decide_eq_true_eq] at hold
      have hraised : (t.raiseFloors e.fence e.stamp).fenceFloor < now :=
        raiseFloors_lt.1.mpr ⟨hfloor, UInt64.lt_of_le_of_lt (h.fence_le e j hm) hold.2⟩
      refine ⟨SlotTable.lt_of_mem_used hm, hraised, fun o => ?_⟩
      show ((t.raiseFloors e.fence e.stamp).entries.set j none).set j o = _
      rw [List.set_set]
      rfl
    obtain ⟨hi, hlt, hset⟩ := hclaimed
    obtain ⟨fence, hs, -⟩ := checkedSucc_of_lt hlt
    rw [hs]
    exact .inr ⟨rfl, i, ⟨k, true, holder, fence, expires, now, false⟩, hi, rfl, hset _⟩

/-- A lease record changes nothing in any table, or it is judged in every one. -/
theorem apply_cases (L : Limits) (mode : UInt8) (k : Key) (holder : Bytes) (now ttlMs : UInt64) :
    (∀ t : LeaseTable L, (t.apply mode k holder now ttlMs).1 = t) ∨
      ∃ op expires, ∀ t : LeaseTable L,
        (t.find k = none → t.apply mode k holder now ttlMs = t.applyAbsent op k holder now expires) ∧
        ∀ e i, t.find k = some (e, i) → t.apply mode k holder now ttlMs =
          if now ≤ e.stamp then (t, .bare .stale)
          else (t.setEntry i (some (applyEntry { e with stamp := now } op holder now expires).1),
            (applyEntry { e with stamp := now } op holder now expires).2) := by
  cases hop : LeaseOp.fromU8 mode with
  | none => exact .inl fun t => by simp only [apply, hop]
  | some op =>
    by_cases hbad : (now = 0 || !L.keyFits k.root k.path [] || k.path.isEmpty) = true
    · exact .inl fun t => by simp only [apply, hop, if_pos hbad]
    by_cases httl : (op ≠ .release && (ttlMs = 0 || decide (L.leaseTtlMaxMs < ttlMs))) = true
    · exact .inl fun t => by simp only [apply, hop, if_neg hbad, if_pos httl]
    refine .inr ⟨op, saturatingAdd now ttlMs, fun t => ⟨fun hf => ?_, fun e i hf => ?_⟩⟩
    · simp only [apply, hop, if_neg hbad, if_neg httl, hf]
    · simp only [apply, hop, if_neg hbad, if_neg httl, hf]

/-- **A call for a record past a stamp overlays the table.** -/
theorem Regular.overlaid_call (h : t.Regular) {c : LeaseCall} (hc : ∀ s ∈ c.stamp, now < s) :
    Overlaid now t (t.call c) := by
  cases c with
  | apply mode k holder s ttlMs =>
    have hs : now < s := hc s rfl
    have hstamps := (h.sound.apply_follows mode k holder s ttlMs).1.stamp
    show Overlaid now t (t.apply mode k holder s ttlMs).1
    rcases apply_cases L mode k holder s ttlMs with hkeep | ⟨op, expires, hjudge⟩
    · rw [hkeep t]
      exact .refl now t
    cases hf : t.find k with
    | none =>
      have happly := (hjudge t).1 hf
      rw [happly] at hstamps ⊢
      rcases h.applyAbsent_cases op holder s expires with ⟨hkeep, -⟩ | ⟨-, i, e', hi, he', hentries⟩
      · rw [hkeep]
        exact .refl now t
      · exact .set hstamps hi hentries (.inl (by rw [he']; exact hs))
    | some p =>
      obtain ⟨e, i⟩ := p
      have happly := (hjudge t).2 e i hf
      rw [happly] at hstamps ⊢
      split
      · exact .refl now t
      next hlate =>
      rw [if_neg hlate] at hstamps
      refine .set hstamps (used_of_find hf).2 rfl (.inl ?_)
      rw [(applyEntry_key_stamp _ op holder s expires).2]
      exact hs
  | touch k s =>
    have hs : now < s := hc s rfl
    have hstamps := (h.sound.touch_follows k s).1.stamp
    show Overlaid now t (t.touch k s).1
    unfold touch at hstamps ⊢
    split
    · exact .refl now t
    next e i hf =>
    rw [hf] at hstamps
    dsimp only at hstamps
    split
    · exact .refl now t
    next hlate =>
    rw [if_neg hlate] at hstamps
    exact .set hstamps (used_of_find hf).2 rfl (.inl hs)
  | setFlushing k holder opened =>
    have hstamps := (h.sound.setFlushing_follows k holder opened).stamp
    show Overlaid now t (t.setFlushing k holder opened)
    unfold setFlushing at hstamps ⊢
    split
    · next e i hf =>
      rw [hf] at hstamps
      dsimp only at hstamps
      split
      · next hmine =>
        rw [if_pos hmine] at hstamps
        exact .set hstamps (used_of_find hf).2 rfl
          (.inr ⟨e, (used_of_find hf).1, rfl, rfl, rfl, rfl⟩)
      · exact .refl now t
    · exact .refl now t
  | endExpiredFlushes s =>
    have hstamps := (h.sound.endExpiredFlushes_follows s).stamp
    show Overlaid now t (t.endExpiredFlushes s)
    by_cases hz : s = 0
    · rw [endExpiredFlushes, if_pos hz]
      exact .refl now t
    · refine .map hstamps (endExpiredFlushes_entries t s hz) fun e => ?_
      unfold endFlush
      split <;> exact ⟨rfl, rfl, rfl, rfl⟩

/-! ## A record that is spent -/

/-- The table refuses the record: its volume has been judged at that stamp or later, or
has no entry, and then the record asks for none or finds none to recycle. -/
def Spent (t : LeaseTable L) (op : LeaseOp) (k : Key) (now : UInt64) : Prop :=
  now ≤ t.lastStamp k ∨ t.find k = none ∧ (op = .acquire → t.unused = none ∧
    ∀ e i, (e, i) ∈ SlotTable.used t.entries → e.heldAt now = true ∨ now ≤ e.stamp)

/-- Later records do not make it good. -/
theorem Spent.overlaid {op : LeaseOp} (h : t.Spent op k now) (ho : Overlaid now t t') :
    t'.Spent op k now := by
  rcases h with hle | ⟨hf, hacq⟩
  · exact .inl (UInt64.le_trans hle (ho.stamp k))
  cases hf' : t'.find k with
  | some p =>
    obtain ⟨e', i⟩ := p
    rcases ho.entry e' i (used_of_find hf').1 with hlt | ⟨e, hm, halike⟩
    · refine .inl ?_
      rw [lastStamp_of_find hf']
      exact UInt64.le_of_lt hlt
    · -- an entry as it was would have been the volume's before
      have hkey : e.key = k := halike.key.symm.trans (SlotTable.mem_of_find hf').2
      exact absurd hkey (SlotTable.find_eq_none_iff.mp hf e i hm)
  | none =>
    refine .inr ⟨hf', fun hop => ?_⟩
    obtain ⟨hfull, hheld⟩ := hacq hop
    refine ⟨ho.full hfull, fun e' i hm' => ?_⟩
    rcases ho.entry e' i hm' with hlt | ⟨e, hm, halike⟩
    · exact .inr (UInt64.le_of_lt hlt)
    rw [halike.heldAt, halike.stamp]
    exact hheld e i hm

/-- A spent record of a volume without an entry changes nothing. -/
theorem Spent.applyAbsent {op : LeaseOp} (h : t.Spent op k now) (hf : t.find k = none)
    (holder : Bytes) (expires : UInt64) : (t.applyAbsent op k holder now expires).1 = t := by
  unfold LeaseTable.applyAbsent
  split
  · rfl
  next hlate =>
  split
  · rfl
  next hop =>
  rcases h with hle | ⟨-, hacq⟩
  · rw [lastStamp_of_find_none hf] at hle
    exact absurd hle hlate
  obtain ⟨hfull, hheld⟩ := hacq (not_not.mp hop)
  have hnone : t.claimSlot now = none := by
    simp only [claimSlot, hfull]
    rw [Option.map_eq_none_iff, List.find?_eq_none]
    rintro ⟨e, i⟩ hm hc
    simp only [Bool.and_eq_true, Bool.not_eq_true', decide_eq_true_eq] at hc
    rcases hheld e i hm with hh | hge
    · rw [hh] at hc
      exact absurd hc.1 (by decide)
    · exact absurd hge (UInt64.not_le.mpr hc.2)
  rw [hnone]

/-- **A record that was judged is spent.** -/
theorem Regular.spent_applyAbsent (h : t.Regular) (hf : t.find k = none) (op : LeaseOp)
    (holder : Bytes) (expires : UInt64) :
    (t.applyAbsent op k holder now expires).1.Spent op k now := by
  rcases h.applyAbsent_cases (k := k) op holder now expires with ⟨hkeep, hwhy⟩ | ⟨hgranted, -⟩
  · rw [hkeep]
    rcases hwhy with hle | hop | hclaim
    · exact .inl (by rw [lastStamp_of_find_none hf]; exact hle)
    · exact .inr ⟨hf, fun hc => absurd hc hop⟩
    · refine .inr ⟨hf, fun _ => ?_⟩
      unfold claimSlot at hclaim
      split at hclaim
      · cases hclaim
      next hfull =>
      rw [Option.map_eq_none_iff, List.find?_eq_none] at hclaim
      refine ⟨hfull, fun e i hm => ?_⟩
      have hno := hclaim (e, i) hm
      simp only [Bool.and_eq_true, Bool.not_eq_true', decide_eq_true_eq, not_and] at hno
      cases hheld : e.heldAt now with
      | true => exact .inl rfl
      | false => exact .inr (UInt64.not_lt.mp (hno hheld))
  · exact .inl ((h.sound.applyAbsent_follows hf op holder now expires).2 hgranted)

/-! ## Redelivery -/

/-- A lease record, and what may come of it: it never does anything, or it is judged and
spent, and while it is spent it does nothing. -/
theorem Regular.apply_spent (h : t.Regular) (mode : UInt8) (k : Key) (holder : Bytes)
    (now ttlMs : UInt64) :
    ∃ P : LeaseTable L → Prop, P (t.apply mode k holder now ttlMs).1 ∧
      (∀ t t', P t → Overlaid now t t' → P t') ∧
      ∀ t, P t → (t.apply mode k holder now ttlMs).1 = t := by
  rcases apply_cases L mode k holder now ttlMs with hkeep | ⟨op, expires, hjudge⟩
  · exact ⟨fun _ => True, trivial, fun _ _ _ _ => trivial, fun t _ => hkeep t⟩
  refine ⟨fun t => t.Spent op k now, ?_, fun t t' hs ho => hs.overlaid ho, fun t hs => ?_⟩
  · cases hf : t.find k with
    | none =>
      rw [(hjudge t).1 hf]
      exact h.spent_applyAbsent hf op holder expires
    | some p =>
      obtain ⟨e, i⟩ := p
      rw [(hjudge t).2 e i hf]
      split
      · next hle => exact .inl (by rw [lastStamp_of_find hf]; exact hle)
      next hlate =>
      obtain ⟨hkey, hstamp⟩ := applyEntry_key_stamp { e with stamp := now } op holder now expires
      have hadv := (h.sound.advance hf hkey
        (hstamp ▸ UInt64.le_of_lt (UInt64.not_le.mp hlate))).2
      exact .inl (UInt64.le_of_eq (hstamp.symm.trans hadv.symm))
  · cases hf : t.find k with
    | none =>
      rw [(hjudge t).1 hf]
      exact hs.applyAbsent hf holder expires
    | some p =>
      obtain ⟨e, i⟩ := p
      rcases hs with hle | ⟨hnone, -⟩
      · exact apply_of_le_lastStamp hle
      rw [hf] at hnone
      cases hnone

/-- Two tables answer every later request alike: its verdict, whether a stamp is judged,
who holds a volume, and whose flush is open. -/
def AnswersAlike (t t' : LeaseTable L) : Prop :=
  ∀ cs : List LeaseCall,
    (∀ mode k holder now ttlMs,
      ((Run.run call t' cs).apply mode k holder now ttlMs).2
        = ((Run.run call t cs).apply mode k holder now ttlMs).2) ∧
    (∀ k now, ((Run.run call t' cs).touch k now).2 = ((Run.run call t cs).touch k now).2) ∧
    (∀ k holder fence now,
      (Run.run call t' cs).holds k holder fence now = (Run.run call t cs).holds k holder fence now) ∧
    (∀ k holder, (Run.run call t' cs).isFlushing k holder = (Run.run call t cs).isFlushing k holder) ∧
    (Run.run call t' cs).anyFlushing = (Run.run call t cs).anyFlushing

theorem AnswersAlike.of_eq (h : t' = t) : t.AnswersAlike t' := by
  subst h
  exact fun _ => ⟨fun _ _ _ _ _ => rfl, fun _ _ => rfl, fun _ _ _ _ => rfl, fun _ _ => rfl, rfl⟩

end LeaseTable

namespace LeaseLog

variable {L : Limits} {s : LeaseLog L}

theorem Kept.overlaid (h : s.Kept) {P : LeaseTable L → Prop} {now : UInt64}
    (hkeep : ∀ t t', P t → LeaseTable.Overlaid now t t' → P t') (hp : P s.table)
    {es : List LeaseEvent} (hes : ∀ x ∈ es.filterMap LeaseEvent.stamp, now < x) :
    P (Run.run LeaseLog.step s es).table := by
  induction es generalizing s with
  | nil => exact hp
  | cons e es ih =>
    have hrest : ∀ x ∈ es.filterMap LeaseEvent.stamp, now < x := fun x hx => by
      obtain ⟨e', he', hs'⟩ := List.mem_filterMap.mp hx
      exact hes x (List.mem_filterMap.mpr ⟨e', List.mem_cons_of_mem e he', hs'⟩)
    refine ih (h.step e).1 ?_ hrest
    cases e with
    | call c =>
      refine hkeep s.table _ hp (h.regular.overlaid_call fun x hx => ?_)
      exact hes x (List.mem_filterMap.mpr ⟨.call c, List.mem_cons_self, hx⟩)
    | rotate => exact hp
    | replay =>
      have htable : (s.step .replay).table = s.table := h.replays
      rw [htable]
      exact hp

/-- **Lease records survive redelivery and rotation.** After a history whose records have
strictly rising stamps, a lease record of it that is applied again changes nothing,
whatever became of its volume's entry; and the table that is written out and replayed
into an empty one answers every later request as the original. -/
theorem records_survive (L : Limits) (es : List LeaseEvent)
    (hes : (es.filterMap LeaseEvent.stamp).Pairwise (· < ·)) :
    (∀ mode k holder now ttlMs, .call (.apply mode k holder now ttlMs) ∈ es →
      ((after L es).table.apply mode k holder now ttlMs).1 = (after L es).table) ∧
    (after L es).table.AnswersAlike
      (Run.run LeaseTable.line (.new L) (after L es).table.seedLines) := by
  refine ⟨fun mode k holder now ttlMs hmem => ?_,
    .of_eq (kept_after es).regular.run_seedLines⟩
  obtain ⟨es₁, es₂, rfl⟩ := List.mem_iff_append.mp hmem
  have hkept := kept_after (L := L) es₁
  obtain ⟨P, hp, hkeep, hsame⟩ := hkept.regular.apply_spent mode k holder now ttlMs
  have hlater : ∀ x ∈ es₂.filterMap LeaseEvent.stamp, now < x := by
    rw [List.filterMap_append, List.pairwise_append] at hes
    exact (List.pairwise_cons.mp hes.2.1).1
  have hrun : after L (es₁ ++ .call (.apply mode k holder now ttlMs) :: es₂) =
      Run.run LeaseLog.step ((after L es₁).step (.call (.apply mode k holder now ttlMs))) es₂ :=
    Run.run_append
  rw [hrun]
  have hstep := (hkept.step (.call (.apply mode k holder now ttlMs))).1
  exact hsame _ (hstep.overlaid hkeep hp hlater)

/-- One volume more than the table has entries for, each acquired for less than the time
to the next: the last is entered where the first was. -/
def turnover : List LeaseEvent :=
  (List.range 17).map fun i =>
    .call (.apply 1 ⟨[], [UInt8.ofNat i]⟩ [7] (10 * UInt64.ofNat i + 10) 5)

/-- The first volume's record is judged again once its entry is recycled. -/
theorem records_survive_turnover :
    (after .minimal turnover).table.lease ⟨[], [0]⟩ = none ∧
      ((after .minimal turnover).table.apply 1 ⟨[], [0]⟩ [7] 10 5).1 = (after .minimal turnover).table :=
  ⟨by decide +kernel,
    (records_survive .minimal turnover (by decide +kernel)).1 1 ⟨[], [0]⟩ [7] 10 5
      (List.mem_map.mpr ⟨0, by decide, rfl⟩)⟩

end LeaseLog

end Loam

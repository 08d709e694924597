import Loam.Lease

/-!
# Stamps of the lease table

The table answers a record by its stamp before anything else: one no later
than the last it judged of that volume changes nothing. The last stamp of a
volume (`LeaseTable.lastStamp`) is its entry's, or the floor's where the
volume has no entry; it never goes back, whatever is judged and whichever
entry is recycled, so a record judged once is stale from then on.
-/

namespace Loam

namespace LeaseTable

variable {L : Limits} {t t' t'' : LeaseTable L} {k : Key} {now : UInt64}
  {e e' : LeaseEntry} {i : ℕ}

/-- A volume has one entry. -/
def Sound (t : LeaseTable L) : Prop := SlotTable.Unique LeaseEntry.key t.entries

/-- The stamp of the last record judged of a volume, as far as the table
remembers. -/
def lastStamp (t : LeaseTable L) (k : Key) : UInt64 :=
  ((t.lease k).map LeaseEntry.stamp).getD t.stampFloor

theorem lastStamp_of_find (h : t.find k = some (e, i)) : t.lastStamp k = e.stamp := by
  simp [lastStamp, lease, h]

theorem lastStamp_of_find_none (h : t.find k = none) : t.lastStamp k = t.stampFloor := by
  simp [lastStamp, lease, h]

theorem sound_new : (new L).Sound := SlotTable.Unique.replicate _

/-- `t'` follows `t`: it is sound, and no volume's last stamp is earlier. -/
structure Follows (t t' : LeaseTable L) : Prop where
  sound : t'.Sound
  stamp : ∀ k, t.lastStamp k ≤ t'.lastStamp k

theorem Sound.follows_refl (h : t.Sound) : t.Follows t := ⟨h, fun _ => UInt64.le_refl _⟩

theorem Follows.trans (h : t.Follows t') (h' : t'.Follows t'') : t.Follows t'' :=
  ⟨h'.sound, fun k => UInt64.le_trans (h.stamp k) (h'.stamp k)⟩

/-! ## Writing an entry -/

/-- A volume's own entry is rewritten. -/
theorem Sound.setEntry_found (h : t.Sound) (hf : t.find k = some (e, i)) (hk : e'.key = e.key) :
    (t.setEntry i (some e')).Sound ∧
      ∀ k', (t.setEntry i (some e')).lease k' = if k' = k then some e' else t.lease k' := by
  obtain ⟨hm, rfl⟩ := SlotTable.mem_of_find hf
  have hi := SlotTable.lt_of_mem_used hm
  have hkey : ∀ b j, (b, j) ∈ SlotTable.used t.entries → b.key = e'.key → j = i :=
    fun b j hb hbk => h hb hm (hbk.trans hk)
  refine ⟨SlotTable.Unique.set_some h hi hkey, fun k' => ?_⟩
  rw [← hk]
  exact SlotTable.Unique.entry_set_some h hi hkey
    (fun b hb => (congrArg LeaseEntry.key (SlotTable.eq_of_mem_used hb hm)).trans hk.symm) k'

/-- An entry is written where none was, for a volume that has none. -/
theorem Sound.setEntry_free (h : t.Sound) (hi : i < t.entries.length)
    (hfree : ∀ b, (b, i) ∉ SlotTable.used t.entries) (hk : t.lease e.key = none) :
    (t.setEntry i (some e)).Sound ∧
      ∀ k', (t.setEntry i (some e)).lease k' = if k' = e.key then some e else t.lease k' := by
  have hkey : ∀ b j, (b, j) ∈ SlotTable.used t.entries → b.key = e.key → j = i :=
    fun b j hb hbk => absurd hbk (SlotTable.entry_eq_none_iff.mp hk b j hb)
  exact ⟨SlotTable.Unique.set_some h hi hkey,
    SlotTable.Unique.entry_set_some h hi hkey fun b hb => absurd hb (hfree b)⟩

theorem lastStamp_setEntry {o : Option LeaseEntry}
    (hl : ∀ k', (t.setEntry i o).lease k' = if k' = k then some e else t.lease k') (k' : Key) :
    (t.setEntry i o).lastStamp k' = if k' = k then e.stamp else t.lastStamp k' := by
  rw [lastStamp, hl k']
  split
  · rfl
  · rfl

/-- An entry is rewritten at no earlier a stamp. -/
theorem Sound.advance (h : t.Sound) (hf : t.find k = some (e, i)) (hk : e'.key = e.key)
    (hs : e.stamp ≤ e'.stamp) : t.Follows (t.setEntry i (some e')) ∧
      (t.setEntry i (some e')).lastStamp k = e'.stamp := by
  obtain ⟨hsound, hl⟩ := h.setEntry_found hf hk
  refine ⟨⟨hsound, fun k' => ?_⟩, by rw [lastStamp_setEntry hl, if_pos rfl]⟩
  rw [lastStamp_setEntry hl]
  split
  · next hk' =>
    rw [hk', lastStamp_of_find hf]
    exact hs
  · exact UInt64.le_refl _

/-! ## Claiming an entry -/

/-- The floors after a volume's entry is recycled. -/
theorem Sound.recycle (h : t.Sound) (hm : (e, i) ∈ SlotTable.used t.entries) :
    t.Follows ((t.raiseFloors e.fence e.stamp).setEntry i none) ∧
      ∀ k, t.lease k = none → ((t.raiseFloors e.fence e.stamp).setEntry i none).lease k = none := by
  have hlease : ∀ k, ((t.raiseFloors e.fence e.stamp).setEntry i none).lease k
      = if k = e.key then none else t.lease k := SlotTable.Unique.entry_set_none h hm
  have hfloor : t.stampFloor ≤ (t.raiseFloors e.fence e.stamp).stampFloor ∧
      e.stamp ≤ (t.raiseFloors e.fence e.stamp).stampFloor := by
    simp only [raiseFloors]
    split
    · next hlt => exact ⟨UInt64.le_of_lt hlt, UInt64.le_refl _⟩
    · next hge => exact ⟨UInt64.le_refl _, UInt64.not_lt.mp hge⟩
  refine ⟨⟨SlotTable.Unique.set_none h (SlotTable.lt_of_mem_used hm), fun k => ?_⟩, fun k hk => ?_⟩
  · rw [lastStamp, lastStamp, hlease k]
    split
    · next hk =>
      rw [hk, show t.lease e.key = some e from SlotTable.Unique.entry_of_mem h hm]
      exact hfloor.2
    · cases t.lease k with
      | none => exact hfloor.1
      | some e' => exact UInt64.le_refl _
  · rw [hlease k]
    split
    · rfl
    · exact hk

/-- **A claimed entry is free**, and what it held is in the floors. -/
theorem Sound.claimSlot_spec (h : t.Sound) (hc : t.claimSlot now = some (t', i)) :
    t.Follows t' ∧ i < t'.entries.length ∧ (∀ b, (b, i) ∉ SlotTable.used t'.entries) ∧
      (t.stampFloor ≤ now → t'.stampFloor ≤ now) ∧
      ∀ k, t.lease k = none → t'.lease k = none := by
  unfold claimSlot at hc
  split at hc
  · next j hj =>
    cases hc
    obtain ⟨hi, hfree⟩ := SlotTable.free_eq_some hj
    exact ⟨h.follows_refl, hi, hfree, id, fun _ => id⟩
  dsimp only at hc
  obtain ⟨⟨e, j⟩, hf, hc⟩ := Option.map_eq_some_iff.mp hc
  cases hc
  have hm := List.mem_of_find?_eq_some hf
  have hi := SlotTable.lt_of_mem_used hm
  have hold := List.find?_some (p := fun p : LeaseEntry × ℕ =>
    !p.1.heldAt now && decide (p.1.stamp < now)) hf
  simp only [Bool.and_eq_true, decide_eq_true_eq] at hold
  obtain ⟨hfollows, hnone⟩ := h.recycle hm
  refine ⟨hfollows, by simpa [setEntry, raiseFloors] using hi, fun b hb => ?_, fun hle => ?_, hnone⟩
  · rcases (SlotTable.mem_used_set (l := (t.raiseFloors e.fence e.stamp).entries) hi).mp hb
      with ⟨-, hb⟩ | ⟨hne, -⟩
    · cases hb
    · exact hne rfl
  · show (if t.stampFloor < e.stamp then e.stamp else t.stampFloor) ≤ now
    split
    · exact UInt64.le_of_lt hold.2
    · exact hle

/-! ## What each operation does to the stamps -/

/-- A judged record of a volume without an entry. -/
theorem Sound.applyAbsent_follows (h : t.Sound) (hn : t.find k = none) (op : LeaseOp)
    (holder : Bytes) (now expires : UInt64) :
    t.Follows (t.applyAbsent op k holder now expires).1 ∧
      ((t.applyAbsent op k holder now expires).2.status = .granted →
        now ≤ (t.applyAbsent op k holder now expires).1.lastStamp k) := by
  unfold applyAbsent
  split
  · exact ⟨h.follows_refl, fun hg => nomatch hg⟩
  next hlate =>
  split
  · exact ⟨h.follows_refl, fun hg => nomatch hg⟩
  split
  · exact ⟨h.follows_refl, fun hg => nomatch hg⟩
  next t₁ i hc =>
  obtain ⟨hfollows, hi, hfree, hfloor, hnone⟩ := h.claimSlot_spec hc
  split
  · exact ⟨hfollows, fun hg => nomatch hg⟩
  next fence hfence =>
  have hk : t₁.lease k = none := hnone k (by rw [lease, hn]; rfl)
  obtain ⟨hsound, hl⟩ := hfollows.sound.setEntry_free (e := ⟨k, true, holder, fence, expires, now, false⟩)
    hi hfree hk
  have hstamp := lastStamp_setEntry hl
  refine ⟨hfollows.trans ⟨hsound, fun k' => ?_⟩, fun _ => ?_⟩
  · rw [hstamp]
    split
    · next hk' =>
      rw [hk', lastStamp, hk]
      exact hfloor (UInt64.le_of_lt (UInt64.not_le.mp hlate))
    · exact UInt64.le_refl _
  · rw [hstamp, if_pos rfl]
    exact UInt64.le_refl _

theorem applyEntry_key_stamp (e : LeaseEntry) (op : LeaseOp) (holder : Bytes)
    (now expires : UInt64) : (applyEntry e op holder now expires).1.key = e.key ∧
      (applyEntry e op holder now expires).1.stamp = e.stamp := by
  cases op <;> simp only [applyEntry] <;> repeat' split
  all_goals exact ⟨rfl, rfl⟩

/-- **A lease record follows**, and one that is granted is remembered. -/
theorem Sound.apply_follows (h : t.Sound) (mode : UInt8) (k : Key) (holder : Bytes)
    (now ttlMs : UInt64) :
    t.Follows (t.apply mode k holder now ttlMs).1 ∧
      ((t.apply mode k holder now ttlMs).2.status = .granted →
        now ≤ (t.apply mode k holder now ttlMs).1.lastStamp k) := by
  unfold apply
  split
  · exact ⟨h.follows_refl, fun hg => nomatch hg⟩
  next op _ =>
  split
  · exact ⟨h.follows_refl, fun hg => nomatch hg⟩
  split
  · exact ⟨h.follows_refl, fun hg => nomatch hg⟩
  dsimp only
  split
  · next hf => exact h.applyAbsent_follows hf op holder now _
  next e i hf =>
  split
  · exact ⟨h.follows_refl, fun hg => nomatch hg⟩
  next hlate =>
  obtain ⟨hkey, hstamp⟩ :=
    applyEntry_key_stamp { e with stamp := now } op holder now (saturatingAdd now ttlMs)
  obtain ⟨hfollows, hlast⟩ := h.advance hf hkey
    (hstamp ▸ UInt64.le_of_lt (UInt64.not_le.mp hlate))
  exact ⟨hfollows, fun _ => UInt64.le_of_eq (hstamp.symm.trans hlast.symm)⟩

/-- Judging a stamp follows; a stamp that is judged is remembered. -/
theorem Sound.touch_follows (h : t.Sound) (k : Key) (now : UInt64) :
    t.Follows (t.touch k now).1 ∧
      ((t.touch k now).2 = some true → now ≤ (t.touch k now).1.lastStamp k) := by
  unfold touch
  split
  · exact ⟨h.follows_refl, fun hg => nomatch hg⟩
  next e i hf =>
  split
  · exact ⟨h.follows_refl, fun hg => nomatch hg⟩
  next hlate =>
  obtain ⟨hfollows, hlast⟩ := @Sound.advance L t k e { e with stamp := now } i h hf rfl
    (UInt64.le_of_lt (UInt64.not_le.mp hlate))
  exact ⟨hfollows, fun _ => UInt64.le_of_eq hlast.symm⟩

theorem Sound.setFlushing_follows (h : t.Sound) (k : Key) (holder : Bytes) (opened : Bool) :
    t.Follows (t.setFlushing k holder opened) := by
  unfold setFlushing
  split
  · next e i hf =>
    split
    · exact (@Sound.advance L t k e { e with flushing := opened } i h hf rfl
        (UInt64.le_refl _)).1
    · exact h.follows_refl
  · exact h.follows_refl

theorem Sound.endExpiredFlushes_follows (h : t.Sound) (now : UInt64) :
    t.Follows (t.endExpiredFlushes now) := by
  unfold endExpiredFlushes
  split
  · exact h.follows_refl
  refine ⟨SlotTable.Unique.map h fun e => by split <;> rfl, fun k => UInt64.le_of_eq ?_⟩
  rw [lastStamp, lastStamp, lease, lease, find, find]
  rw [show (SlotTable.find LeaseEntry.key k (t.entries.map _)).map Prod.fst
    = _ from SlotTable.Unique.entry_map h (fun e => by split <;> rfl) k, SlotTable.entry]
  cases SlotTable.find LeaseEntry.key k t.entries with
  | none => rfl
  | some p =>
    simp only [Option.map_some, Option.getD_some]
    split <;> rfl

/-- A restored entry is there, its flush ended, and the others are as they
were. -/
theorem Sound.restore_spec (h : t.Sound) {fenceFloor stampFloor : UInt64}
    (hr : t.restore e fenceFloor stampFloor = some t') :
    t'.Sound ∧ ∀ k, t'.lease k = if k = e.key then some { e with flushing := false } else t.lease k := by
  unfold LeaseTable.restore at hr
  split at hr
  · cases hr
  have hraised : (t.raiseFloors fenceFloor stampFloor).Sound := h
  dsimp only at hr
  cases hf : t.find e.key with
  | some p =>
    rw [hf] at hr
    cases hr
    exact @Sound.setEntry_found L _ e.key p.1 { e with flushing := false } p.2 hraised hf
      (SlotTable.mem_of_find hf).2.symm
  | none =>
    rw [hf] at hr
    dsimp only at hr
    obtain ⟨j, hj, hr⟩ := Option.map_eq_some_iff.mp hr
    cases hr
    obtain ⟨hi, hfree⟩ := SlotTable.free_eq_some hj
    exact @Sound.setEntry_free L _ { e with flushing := false } j hraised hi hfree
      (by simp [lease, show (t.raiseFloors fenceFloor stampFloor).find e.key = none from hf])

/-! ## Records judged before -/

/-- **A lease record judged before changes nothing.** -/
theorem apply_of_le_lastStamp {mode : UInt8} {holder : Bytes} {ttlMs : UInt64}
    (h : now ≤ t.lastStamp k) : (t.apply mode k holder now ttlMs).1 = t := by
  unfold apply
  split
  · rfl
  split
  · rfl
  split
  · rfl
  dsimp only
  split
  · next hf =>
    rw [lastStamp_of_find_none hf] at h
    rw [applyAbsent, if_pos h]
  · next e i hf =>
    rw [lastStamp_of_find hf] at h
    rw [if_pos h]

/-- **A volume record judged before is not judged again.** -/
theorem touch_of_le_lastStamp (h : now ≤ t.lastStamp k) :
    (t.touch k now).1 = t ∧ (t.touch k now).2 ≠ some true := by
  unfold touch
  split
  · exact ⟨rfl, fun hg => nomatch hg⟩
  next e i hf =>
  rw [lastStamp_of_find hf] at h
  rw [if_pos h]
  exact ⟨rfl, fun hg => nomatch hg⟩

end LeaseTable

end Loam

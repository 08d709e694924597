import Loam.Lib.Run
import Loam.LeaseLaws

/-!
# Fences of the lease table

The next fence of a volume is counted from its entry's, or from the floor's
where the volume has no entry. The last fence of a volume
(`LeaseTable.lastFence`) never goes back, and an entry at the last fence is
still its holder's: whatever is judged, and whichever entry is recycled.

The table is fed by calls that a log records, the log is rotated to one line
for each entry, and a boot replays it. `LeaseLog` is that system; the
replayed table is the one that was lost (`LeaseLog.Kept`), so what holds of
the calls holds over restarts. It rests on the table having no gaps and on no
fence being past its stamp: an entry is always recycled into the slot of the
one that takes its place.
-/

namespace Loam

/-! ## Calls and the log -/

/-- A call that a record makes on the lease table. -/
inductive LeaseCall where
  | apply (mode : UInt8) (k : Key) (holder : Bytes) (now ttlMs : UInt64)
  /-- The stamp of a volume record is judged. -/
  | touch (k : Key) (now : UInt64)
  | setFlushing (k : Key) (holder : Bytes) (opened : Bool)
  | endExpiredFlushes (now : UInt64)
deriving DecidableEq

/-- A line of the log, as the table sees it. -/
inductive LeaseLine where
  | call (c : LeaseCall)
  /-- An entry a rotated log recorded, with the floors. -/
  | restore (e : LeaseEntry) (fenceFloor stampFloor : UInt64)
deriving DecidableEq

namespace LeaseTable

variable {L : Limits}

/-- The table after a call. -/
def call (t : LeaseTable L) : LeaseCall → LeaseTable L
  | .apply mode k holder now ttlMs => (t.apply mode k holder now ttlMs).1
  | .touch k now => (t.touch k now).1
  | .setFlushing k holder opened => t.setFlushing k holder opened
  | .endExpiredFlushes now => t.endExpiredFlushes now

/-- The flush a call opens, if its holder has the entry. -/
def opens : LeaseCall → Option (Key × Bytes)
  | .setFlushing k holder true => some (k, holder)
  | _ => none

/-- The table after a line: a restored entry gets the flush it had open. -/
def line (t : LeaseTable L) : LeaseLine → LeaseTable L
  | .call c => t.call c
  | .restore e fenceFloor stampFloor =>
    match t.restore e fenceFloor stampFloor with
    | none => t
    | some t' => if e.flushing then t'.setFlushing e.key e.holder true else t'

/-- The lines a rotated log opens with (`seed_lease`). -/
def seedLines (t : LeaseTable L) : List LeaseLine :=
  t.entries.filterMap fun o => o.map fun e => .restore e t.fenceFloor t.stampFloor

end LeaseTable

/-- A lease table and its log. -/
structure LeaseLog (L : Limits) where
  table : LeaseTable L
  log : List LeaseLine
deriving DecidableEq

/-- An event of the table's life. -/
inductive LeaseEvent where
  | call (c : LeaseCall)
  | rotate
  | replay
deriving DecidableEq

namespace LeaseLog

variable {L : Limits}

/-- The first boot. -/
def init (L : Limits) : LeaseLog L := ⟨.new L, []⟩

/-- One event. -/
def step (s : LeaseLog L) : LeaseEvent → LeaseLog L
  | .call c => ⟨s.table.call c, s.log ++ [.call c]⟩
  | .rotate => ⟨s.table, s.table.seedLines⟩
  | .replay => ⟨Run.run LeaseTable.line (.new L) s.log, s.log⟩

end LeaseLog

/-! ## What a call grants and accepts -/

/-- Someone taken for the holder of a volume, under a fence, at a stamp. -/
structure Tenancy where
  key : Key
  holder : Bytes
  fence : UInt64
  now : UInt64
deriving DecidableEq

namespace LeaseTable

variable {L : Limits}

/-- The lease record is granted: its caller has, or ends, the volume's
lease. -/
def Grants (t : LeaseTable L) (mode : UInt8) (ttlMs : UInt64) (y : Tenancy) : Prop :=
  (t.apply mode y.key y.holder y.now ttlMs).2.status = .granted ∧
    (t.apply mode y.key y.holder y.now ttlMs).2.fence = y.fence

/-- The volume record is judged, and its sender has the lease under its
fence. -/
def Admits (t : LeaseTable L) (y : Tenancy) : Prop :=
  (t.touch y.key y.now).2 = some true ∧
    (t.touch y.key y.now).1.holds y.key y.holder y.fence y.now = true

/-- The call accepts that tenancy. -/
def Accepts (t : LeaseTable L) (y : Tenancy) : LeaseCall → Prop
  | .apply mode k holder now ttlMs =>
    (k = y.key ∧ holder = y.holder ∧ now = y.now) ∧ t.Grants mode ttlMs y
  | .touch k now => (k = y.key ∧ now = y.now) ∧ t.Admits y
  | _ => False

/-- A tenure of the volume starts with the call: an acquire is granted to one
who does not have the lease. -/
def Opens (t : LeaseTable L) (y : Tenancy) : LeaseCall → Prop
  | .apply mode k holder now ttlMs =>
    (k = y.key ∧ holder = y.holder ∧ now = y.now) ∧ t.Grants mode ttlMs y ∧
      LeaseOp.fromU8 mode = some .acquire ∧
      (t.lease k).any (fun e => e.heldAt now && e.holder == holder) = false
  | _ => False

/-- The fence of the last tenure of a volume, as far as the table
remembers. -/
def lastFence (t : LeaseTable L) (k : Key) : UInt64 :=
  ((t.lease k).map LeaseEntry.fence).getD t.fenceFloor

/-! ## What a call can do -/

/-- The key can be in the table. -/
def KeyFits (L : Limits) (k : Key) : Prop :=
  (!L.keyFits k.root k.path [] || k.path.isEmpty) = false

/-- A table that was built by calls alone. -/
structure Regular (t : LeaseTable L) : Prop where
  sound : t.Sound
  packed : SlotTable.Packed t.entries
  fits : ∀ e i, (e, i) ∈ SlotTable.used t.entries → KeyFits L e.key
  fence_le : ∀ e i, (e, i) ∈ SlotTable.used t.entries → e.fence ≤ e.stamp
  floor_le : t.fenceFloor ≤ t.stampFloor
  floors : SlotTable.used t.entries = [] → t.fenceFloor = 0 ∧ t.stampFloor = 0

variable {t t' t'' : LeaseTable L} {k : Key} {e e' : LeaseEntry} {i : ℕ} {now : UInt64}

/-- What a call can do to the table, `opened` being the volume and holder
whose flush it may open. -/
inductive Change (t : LeaseTable L) (opened : Option (Key × Bytes)) : LeaseTable L → Prop where
  | keep : Change t opened t
  /-- The entry of a volume is rewritten, at no earlier a stamp: it stays the
  holder's under its fence, or it is under the next and no flush is open. -/
  | update (k : Key) (e e' : LeaseEntry) (i : ℕ) :
      t.find k = some (e, i) → e'.key = e.key → e.stamp ≤ e'.stamp →
      (e'.fence = e.fence ∧ e'.holder = e.holder ∧
          (e'.flushing = true → e.flushing = true ∨ opened = some (k, e.holder))) ∨
        (e.stamp < e'.stamp ∧ checkedSucc e.fence = some e'.fence ∧ e'.flushing = false) →
      Change t opened (t.setEntry i (some e'))
  | enter (e' : LeaseEntry) (i : ℕ) :
      t.find e'.key = none → KeyFits L e'.key → e'.flushing = false → t.unused = some i →
      t.stampFloor < e'.stamp → checkedSucc t.fenceFloor = some e'.fence →
      Change t opened (t.setEntry i (some e'))
  /-- A volume enters the slot of a recycled entry. -/
  | recycle (e e' : LeaseEntry) (i : ℕ) :
      t.find e'.key = none → KeyFits L e'.key → e'.flushing = false →
      (e, i) ∈ SlotTable.used t.entries → t.stampFloor < e'.stamp → e.stamp < e'.stamp →
      checkedSucc (t.raiseFloors e.fence e.stamp).fenceFloor = some e'.fence →
      Change t opened ((t.raiseFloors e.fence e.stamp).setEntry i (some e'))
  /-- An entry is recycled, and no fence is left to give its slot away. -/
  | forget (e : LeaseEntry) (i : ℕ) (now : UInt64) :
      (e, i) ∈ SlotTable.used t.entries → t.stampFloor < now → e.stamp < now →
      checkedSucc (t.raiseFloors e.fence e.stamp).fenceFloor = none →
      Change t opened ((t.raiseFloors e.fence e.stamp).setEntry i none)
  | ends (now : UInt64) : Change t opened (t.endExpiredFlushes now)

theorem raiseFloors_lt {fence stamp b : UInt64} :
    ((t.raiseFloors fence stamp).fenceFloor < b ↔ t.fenceFloor < b ∧ fence < b) ∧
      ((t.raiseFloors fence stamp).stampFloor < b ↔ t.stampFloor < b ∧ stamp < b) := by
  constructor
  · show (if t.fenceFloor < fence then fence else t.fenceFloor) < b ↔ _
    split <;> grind
  · show (if t.stampFloor < stamp then stamp else t.stampFloor) < b ↔ _
    split <;> grind

/-- A floor is raised to at least each of two values. -/
theorem le_raiseFloors (t : LeaseTable L) (fence stamp : UInt64) :
    (t.fenceFloor ≤ (t.raiseFloors fence stamp).fenceFloor ∧
      fence ≤ (t.raiseFloors fence stamp).fenceFloor) ∧
    (t.stampFloor ≤ (t.raiseFloors fence stamp).stampFloor ∧
      stamp ≤ (t.raiseFloors fence stamp).stampFloor) := by
  refine ⟨⟨?_, ?_⟩, ?_, ?_⟩
  · show _ ≤ if t.fenceFloor < fence then fence else t.fenceFloor
    split <;> grind
  · show _ ≤ if t.fenceFloor < fence then fence else t.fenceFloor
    split <;> grind
  · show _ ≤ if t.stampFloor < stamp then stamp else t.stampFloor
    split <;> grind
  · show _ ≤ if t.stampFloor < stamp then stamp else t.stampFloor
    split <;> grind

/-- The successor of a fence below a stamp is at most the stamp, and there
is one. -/
theorem checkedSucc_of_lt {a b : UInt64} (h : a < b) : ∃ c, checkedSucc a = some c ∧ c ≤ b := by
  refine ⟨a + 1, ?_, by grind⟩
  rw [checkedSucc, if_neg (by grind)]

theorem checkedSucc_le {a b c : UInt64} (hs : checkedSucc a = some c) (h : a < b) : c ≤ b := by
  obtain ⟨c', hc', hle⟩ := checkedSucc_of_lt h
  obtain rfl := Option.some.inj (hs.symm.trans hc')
  exact hle

theorem applyAbsent_change (hf : t.find k = none) (hk : KeyFits L k) (op : LeaseOp)
    (holder : Bytes) (now expires : UInt64) :
    t.Change none (t.applyAbsent op k holder now expires).1 := by
  unfold applyAbsent
  split
  · exact .keep
  next hlate =>
  have hnow := UInt64.not_le.mp hlate
  split
  · exact .keep
  unfold claimSlot
  cases hu : t.unused with
  | some i =>
    dsimp only
    cases hs : checkedSucc t.fenceFloor with
    | none => exact .keep
    | some fence => exact .enter ⟨k, true, holder, fence, expires, now, false⟩ i hf hk rfl hu hnow hs
  | none =>
    dsimp only
    cases hc : (SlotTable.used t.entries).find? fun p => !p.1.heldAt now && decide (p.1.stamp < now)
      with
    | none => exact .keep
    | some p =>
      obtain ⟨e, i⟩ := p
      have hm := List.mem_of_find?_eq_some hc
      have hold := List.find?_some hc
      simp only [Bool.and_eq_true, decide_eq_true_eq] at hold
      simp only [Option.map_some]
      rw [show ((t.raiseFloors e.fence e.stamp).setEntry i none).fenceFloor
        = (t.raiseFloors e.fence e.stamp).fenceFloor from rfl]
      cases hs : checkedSucc (t.raiseFloors e.fence e.stamp).fenceFloor with
      | none => exact .forget e i now hm hnow hold.2 hs
      | some fence =>
        have hset : ((t.raiseFloors e.fence e.stamp).setEntry i none).setEntry i
            (some ⟨k, true, holder, fence, expires, now, false⟩)
            = (t.raiseFloors e.fence e.stamp).setEntry i
              (some ⟨k, true, holder, fence, expires, now, false⟩) := by
          simp only [setEntry, List.set_set]
        show t.Change none (((t.raiseFloors e.fence e.stamp).setEntry i none).setEntry i _)
        rw [hset]
        exact .recycle e ⟨k, true, holder, fence, expires, now, false⟩ i hf hk rfl hm hnow hold.2 hs

/-- What a verdict on a record of an existing entry does to it. -/
theorem applyEntry_fence (e : LeaseEntry) (op : LeaseOp) (holder : Bytes) (now expires : UInt64) :
    ((applyEntry e op holder now expires).1.fence = e.fence ∧
        (applyEntry e op holder now expires).1.holder = e.holder ∧
        ((applyEntry e op holder now expires).1.flushing = true → e.flushing = true)) ∨
      (checkedSucc e.fence = some (applyEntry e op holder now expires).1.fence ∧
        (applyEntry e op holder now expires).1.flushing = false) := by
  cases op with
  | acquire =>
    simp only [applyEntry]
    split
    · exact .inl ⟨rfl, rfl, id⟩
    split
    · exact .inl ⟨rfl, rfl, id⟩
    cases checkedSucc e.fence with
    | none => exact .inl ⟨rfl, rfl, id⟩
    | some fence => exact .inr ⟨rfl, rfl⟩
  | renew =>
    simp only [applyEntry]
    split <;> exact .inl ⟨rfl, rfl, id⟩
  | release =>
    simp only [applyEntry]
    split
    · exact .inl ⟨rfl, rfl, fun h => absurd h Bool.false_ne_true⟩
    · exact .inl ⟨rfl, rfl, id⟩

theorem apply_change (t : LeaseTable L) (mode : UInt8) (k : Key) (holder : Bytes)
    (now ttlMs : UInt64) : t.Change none (t.apply mode k holder now ttlMs).1 := by
  unfold apply
  split
  · exact .keep
  next op _ =>
  split
  · exact .keep
  next hfit =>
  have hk : KeyFits L k := by
    unfold KeyFits
    simp only [Bool.or_eq_true, not_or, Bool.not_eq_true] at hfit
    rw [hfit.1.2, hfit.2]
    rfl
  split
  · exact .keep
  dsimp only
  split
  · next hf => exact applyAbsent_change hf hk op holder now _
  next e i hf =>
  split
  · exact .keep
  next hlate =>
  have hnow := UInt64.not_le.mp hlate
  obtain ⟨hkey, hstamp⟩ :=
    applyEntry_key_stamp { e with stamp := now } op holder now (saturatingAdd now ttlMs)
  have hfence := applyEntry_fence { e with stamp := now } op holder now (saturatingAdd now ttlMs)
  refine .update k e _ i hf hkey (hstamp ▸ UInt64.le_of_lt hnow) ?_
  rw [hstamp]
  exact hfence.imp (fun hs => ⟨hs.1, hs.2.1, fun hfl => .inl (hs.2.2 hfl)⟩)
    fun hs => ⟨hnow, hs⟩

theorem touch_change (t : LeaseTable L) (k : Key) (now : UInt64) :
    t.Change none (t.touch k now).1 := by
  unfold touch
  split
  · exact .keep
  next e i hf =>
  split
  · exact .keep
  next hlate =>
  exact .update k e _ i hf rfl (UInt64.le_of_lt (UInt64.not_le.mp hlate))
    (.inl ⟨rfl, rfl, .inl⟩)

theorem setFlushing_change (t : LeaseTable L) (k : Key) (holder : Bytes) (opened : Bool) :
    t.Change (opens (.setFlushing k holder opened)) (t.setFlushing k holder opened) := by
  unfold setFlushing
  split
  · next e i hf =>
    split
    · next hm =>
      refine .update k e _ i hf rfl (UInt64.le_refl _) (.inl ⟨rfl, rfl, fun hfl => .inr ?_⟩)
      rw [show opened = true from hfl, opens, eq_of_beq hm]
    · exact .keep
  · exact .keep

/-- **Every call is one of the changes.** -/
theorem call_change (t : LeaseTable L) (c : LeaseCall) : t.Change (opens c) (t.call c) := by
  cases c with
  | apply mode k holder now ttlMs => exact t.apply_change mode k holder now ttlMs
  | touch k now => exact t.touch_change k now
  | setFlushing k holder opened => exact t.setFlushing_change k holder opened
  | endExpiredFlushes now => exact .ends now

/-! ## What a change keeps -/

theorem regular_new : (new L).Regular where
  sound := sound_new
  packed := .replicate _
  fits e i hm := by
    rw [show (new L).entries = List.replicate L.leaseSlots none from rfl,
      SlotTable.used_replicate] at hm
    cases hm
  fence_le e i hm := by
    rw [show (new L).entries = List.replicate L.leaseSlots none from rfl,
      SlotTable.used_replicate] at hm
    cases hm
  floor_le := UInt64.le_refl _
  floors _ := ⟨rfl, rfl⟩

/-- Ending flushes, written as a map of the entries. -/
def endFlush (now : UInt64) (e : LeaseEntry) : LeaseEntry :=
  if e.flushing && !e.heldAt now then { e with flushing := false } else e

@[simp] theorem endFlush_key (now : UInt64) (e : LeaseEntry) : (endFlush now e).key = e.key := by
  unfold endFlush
  split <;> rfl

@[simp] theorem endFlush_fence (now : UInt64) (e : LeaseEntry) :
    (endFlush now e).fence = e.fence := by
  unfold endFlush
  split <;> rfl

@[simp] theorem endFlush_stamp (now : UInt64) (e : LeaseEntry) :
    (endFlush now e).stamp = e.stamp := by
  unfold endFlush
  split <;> rfl

@[simp] theorem endFlush_holder (now : UInt64) (e : LeaseEntry) :
    (endFlush now e).holder = e.holder := by
  unfold endFlush
  split <;> rfl

theorem flushing_of_endFlush {now : UInt64} {e : LeaseEntry}
    (h : (endFlush now e).flushing = true) : e.flushing = true := by
  unfold endFlush at h
  split at h
  · cases h
  · exact h

theorem endExpiredFlushes_entries (t : LeaseTable L) (now : UInt64) (hn : now ≠ 0) :
    (t.endExpiredFlushes now).entries = t.entries.map (Option.map (endFlush now)) := by
  rw [endExpiredFlushes, if_neg hn]
  rfl

theorem Sound.lease_endExpiredFlushes (h : t.Sound) (hn : now ≠ 0) (k : Key) :
    (t.endExpiredFlushes now).lease k = (t.lease k).map (endFlush now) := by
  show SlotTable.entry LeaseEntry.key k (t.endExpiredFlushes now).entries = _
  rw [t.endExpiredFlushes_entries now hn]
  exact SlotTable.Unique.entry_map h (endFlush_key now) k

theorem Regular.set_used {t₁ : LeaseTable L} (h : t.Regular) (ht : t₁.entries = t.entries)
    (hm : (e, i) ∈ SlotTable.used t.entries)
    (hsound : (t₁.setEntry i (some e')).Sound) (hk : KeyFits L e'.key)
    (hle : e'.fence ≤ e'.stamp) (hfloor : t₁.fenceFloor ≤ t₁.stampFloor) :
    (t₁.setEntry i (some e')).Regular := by
  have hi := SlotTable.lt_of_mem_used hm
  have hentries : (t₁.setEntry i (some e')).entries = t.entries.set i (some e') :=
    congrArg (fun l => l.set i (some e')) ht
  refine ⟨hsound, ?_, fun b j hb => ?_, fun b j hb => ?_, hfloor, fun hnil => ?_⟩
  · rw [hentries]
    exact h.packed.set_used hm
  · rw [hentries] at hb
    rcases (SlotTable.mem_used_set hi).mp hb with ⟨-, hb⟩ | ⟨-, hb⟩
    · cases hb
      exact hk
    · exact h.fits b j hb
  · rw [hentries] at hb
    rcases (SlotTable.mem_used_set hi).mp hb with ⟨-, hb⟩ | ⟨-, hb⟩
    · cases hb
      exact hle
    · exact h.fence_le b j hb
  · have hin : (e', i) ∈ SlotTable.used (t₁.setEntry i (some e')).entries := by
      rw [hentries]
      exact (SlotTable.mem_used_set hi).mpr (.inl ⟨rfl, rfl⟩)
    rw [hnil] at hin
    cases hin

/-- **A change keeps the table regular.** -/
theorem Regular.of_change (h : t.Regular) {o : Option (Key × Bytes)} (hc : t.Change o t') : t'.Regular := by
  cases hc with
  | keep => exact h
  | update k e e' i hf hk hs hw =>
    obtain ⟨hm, rfl⟩ := SlotTable.mem_of_find hf
    have hle : e'.fence ≤ e'.stamp := by
      rcases hw with ⟨hw, -⟩ | ⟨hlt, hw, -⟩
      · rw [hw]
        exact UInt64.le_trans (h.fence_le e i hm) hs
      · exact checkedSucc_le hw (UInt64.lt_of_le_of_lt (h.fence_le e i hm) hlt)
    exact h.set_used rfl hm (h.sound.setEntry_found hf hk).1 (hk ▸ h.fits e i hm) hle h.floor_le
  | enter e' i hf hk _ hu hs hw =>
    obtain ⟨hi, hfree⟩ := SlotTable.free_eq_some hu
    have hle : e'.fence ≤ e'.stamp := checkedSucc_le hw (UInt64.lt_of_le_of_lt h.floor_le hs)
    have hsound := (h.sound.setEntry_free hi hfree (by rw [lease, hf]; rfl)).1
    have hin : (e', i) ∈ SlotTable.used (t.entries.set i (some e')) :=
      (SlotTable.mem_used_set hi).mpr (.inl ⟨rfl, rfl⟩)
    refine ⟨hsound, h.packed.set_free hu, fun b j hb => ?_, fun b j hb => ?_, h.floor_le,
      fun hnil => ?_⟩
    · rcases (SlotTable.mem_used_set hi).mp hb with ⟨-, hb⟩ | ⟨-, hb⟩
      · cases hb
        exact hk
      · exact h.fits b j hb
    · rcases (SlotTable.mem_used_set hi).mp hb with ⟨-, hb⟩ | ⟨-, hb⟩
      · cases hb
        exact hle
      · exact h.fence_le b j hb
    · rw [show SlotTable.used (t.entries.set i (some e')) = [] from hnil] at hin
      cases hin
  | recycle e e' i hf hk _ hm hs hs' hw =>
    have hi := SlotTable.lt_of_mem_used hm
    have hle : e'.fence ≤ e'.stamp := checkedSucc_le hw (raiseFloors_lt.1.mpr
      ⟨UInt64.lt_of_le_of_lt h.floor_le hs, UInt64.lt_of_le_of_lt (h.fence_le e i hm) hs'⟩)
    have hkey : ∀ b j, (b, j) ∈ SlotTable.used t.entries → b.key = e'.key → j = i :=
      fun b j hb hbk => absurd hbk (SlotTable.find_eq_none_iff.mp hf b j hb)
    have hsound : ((t.raiseFloors e.fence e.stamp).setEntry i (some e')).Sound :=
      SlotTable.Unique.set_some h.sound hi hkey
    have hfloor : (t.raiseFloors e.fence e.stamp).fenceFloor
        ≤ (t.raiseFloors e.fence e.stamp).stampFloor := by
      obtain ⟨-, hs₁, hs₂⟩ := t.le_raiseFloors e.fence e.stamp
      have hle := h.fence_le e i hm
      have hfl := h.floor_le
      show (if t.fenceFloor < e.fence then e.fence else t.fenceFloor) ≤ _
      split
      · exact UInt64.le_trans hle hs₂
      · exact UInt64.le_trans hfl hs₁
    exact h.set_used rfl hm hsound hk hle hfloor
  | forget e i now hm hs hs' hw =>
    -- a floor below a stamp has a successor
    obtain ⟨c, hc, -⟩ := checkedSucc_of_lt (raiseFloors_lt.1.mpr
      ⟨UInt64.lt_of_le_of_lt h.floor_le hs, UInt64.lt_of_le_of_lt (h.fence_le e i hm) hs'⟩)
    cases hw.symm.trans hc
  | ends now =>
    by_cases hn : now = 0
    · rw [endExpiredFlushes, if_pos hn]
      exact h
    have hentries := t.endExpiredFlushes_entries now hn
    have hfloors : (t.endExpiredFlushes now).fenceFloor = t.fenceFloor ∧
        (t.endExpiredFlushes now).stampFloor = t.stampFloor := by
      rw [endExpiredFlushes, if_neg hn]
      exact ⟨rfl, rfl⟩
    refine ⟨(h.sound.endExpiredFlushes_follows now).sound, ?_, fun b j hb => ?_, fun b j hb => ?_,
      by rw [hfloors.1, hfloors.2]; exact h.floor_le, fun hnil => ?_⟩
    · rw [hentries]
      exact h.packed.map _
    · rw [hentries] at hb
      obtain ⟨a, ha, rfl⟩ := SlotTable.mem_used_map.mp hb
      rw [endFlush_key]
      exact h.fits a j ha
    · rw [hentries] at hb
      obtain ⟨a, ha, rfl⟩ := SlotTable.mem_used_map.mp hb
      rw [endFlush_fence, endFlush_stamp]
      exact h.fence_le a j ha
    · rw [hfloors.1, hfloors.2]
      refine h.floors (List.eq_nil_iff_forall_not_mem.mpr ?_)
      rintro ⟨a, j⟩ ha
      have hin := SlotTable.mem_used_map (f := endFlush now).mpr ⟨a, ha, rfl⟩
      rw [← hentries, hnil] at hin
      cases hin

/-! ## Fences do not go back -/

/-- `t'` is later than `t`: no volume's last fence is lower, and an entry
that is not past the last fence is the one that was there, its holder's
still. -/
structure Later (t t' : LeaseTable L) : Prop where
  fence : ∀ k, t.lastFence k ≤ t'.lastFence k
  holder : ∀ k e', t'.lease k = some e' →
    t.lastFence k < e'.fence ∨
      ∃ e, t.lease k = some e ∧ e.fence = e'.fence ∧ e.holder = e'.holder

theorem Later.refl (t : LeaseTable L) : t.Later t :=
  ⟨fun _ => UInt64.le_refl _, fun _ e' he => .inr ⟨e', he, rfl, rfl⟩⟩

theorem Later.trans (h : t.Later t') (h' : t'.Later t'') : t.Later t'' where
  fence k := UInt64.le_trans (h.fence k) (h'.fence k)
  holder k e'' he := by
    rcases h'.holder k e'' he with hlt | ⟨e', he', hf, hh⟩
    · exact .inl (UInt64.lt_of_le_of_lt (h.fence k) hlt)
    rcases h.holder k e' he' with hlt | ⟨e, he, hf', hh'⟩
    · exact .inl (hf ▸ hlt)
    · exact .inr ⟨e, he, hf'.trans hf, hh'.trans hh⟩

theorem lastFence_of_lease (h : t.lease k = some e) : t.lastFence k = e.fence := by
  rw [lastFence, h]
  rfl

theorem lastFence_of_lease_none (h : t.lease k = none) : t.lastFence k = t.fenceFloor := by
  rw [lastFence, h]
  rfl

/-- The map of the table after an entry is recycled. -/
theorem Sound.lease_recycle (h : t.Sound) (hm : (e, i) ∈ SlotTable.used t.entries)
    (hf : t.find e'.key = none) (k : Key) :
    ((t.raiseFloors e.fence e.stamp).setEntry i (some e')).lease k
      = if k = e'.key then some e' else if k = e.key then none else t.lease k := by
  have hi := SlotTable.lt_of_mem_used hm
  have hcleared : ∀ k, SlotTable.entry LeaseEntry.key k (t.entries.set i none)
      = if k = e.key then none else t.lease k := SlotTable.Unique.entry_set_none h hm
  have hset : t.entries.set i (some e') = (t.entries.set i none).set i (some e') := by
    rw [List.set_set]
  have hu : SlotTable.Unique LeaseEntry.key (t.entries.set i none) := SlotTable.Unique.set_none h hi
  have hkey : ∀ b j, (b, j) ∈ SlotTable.used (t.entries.set i none) → b.key = e'.key → j = i := by
    intro b j hb hbk
    rcases (SlotTable.mem_used_set hi).mp hb with ⟨-, hb⟩ | ⟨-, hb⟩
    · cases hb
    · exact absurd hbk (SlotTable.find_eq_none_iff.mp hf b j hb)
  show SlotTable.entry LeaseEntry.key k (t.entries.set i (some e')) = _
  rw [hset, hu.entry_set_some (by simpa using hi) hkey, hcleared]
  intro b hb
  rcases (SlotTable.mem_used_set hi).mp hb with ⟨-, hb⟩ | ⟨hne, -⟩
  · cases hb
  · exact absurd rfl hne

/-- **A change makes the table later.** -/
theorem Sound.later_of_change (h : t.Sound) {o : Option (Key × Bytes)} (hc : t.Change o t') :
    t.Later t' := by
  cases hc with
  | keep => exact .refl t
  | update k e e' i hf hk hs hw =>
    have hl := (h.setEntry_found hf hk).2
    have hlease : t.lease k = some e := by rw [lease, hf]; rfl
    refine ⟨fun k' => ?_, fun k' b hb => ?_⟩
    · rw [lastFence, lastFence, hl k']
      split
      · next hk' =>
        rw [hk', hlease]
        rcases hw with ⟨hw, -⟩ | ⟨-, hw, -⟩
        · exact UInt64.le_of_eq hw.symm
        · exact UInt64.le_of_lt (checkedSucc_eq_some hw).2
      · exact UInt64.le_refl _
    · rw [hl k'] at hb
      split at hb
      · next hk' =>
        obtain rfl := Option.some.inj hb
        rw [hk', lastFence_of_lease hlease]
        rcases hw with ⟨hw, hw', -⟩ | ⟨-, hw, -⟩
        · exact .inr ⟨e, hlease, hw.symm, hw'.symm⟩
        · exact .inl (checkedSucc_eq_some hw).2
      · exact .inr ⟨b, hb, rfl, rfl⟩
  | enter e' i hf hk _ hu hs hw =>
    obtain ⟨hi, hfree⟩ := SlotTable.free_eq_some hu
    have hlt := (checkedSucc_eq_some hw).2
    have hnone : t.lease e'.key = none := by rw [lease, hf]; rfl
    have hl := (h.setEntry_free hi hfree hnone).2
    refine ⟨fun k' => ?_, fun k' b hb => ?_⟩
    · rw [lastFence, lastFence, hl k']
      split
      · next hk' =>
        rw [hk', hnone]
        exact UInt64.le_of_lt hlt
      · exact UInt64.le_refl _
    · rw [hl k'] at hb
      split at hb
      · next hk' =>
        obtain rfl := Option.some.inj hb
        rw [hk', lastFence_of_lease_none hnone]
        exact .inl hlt
      · exact .inr ⟨b, hb, rfl, rfl⟩
  | forget e i now hm hs hs' hw =>
    have hl : ∀ k, ((t.raiseFloors e.fence e.stamp).setEntry i none).lease k
        = if k = e.key then none else t.lease k := SlotTable.Unique.entry_set_none h hm
    obtain ⟨⟨hfloor, hfence⟩, -⟩ := t.le_raiseFloors e.fence e.stamp
    refine ⟨fun k' => ?_, fun k' b hb => ?_⟩
    · rw [lastFence, lastFence, hl k']
      split
      · next hk' =>
        rw [hk', show t.lease e.key = some e from SlotTable.Unique.entry_of_mem h hm]
        exact hfence
      · cases t.lease k' with
        | none => exact hfloor
        | some b => exact UInt64.le_refl _
    · rw [hl k'] at hb
      split at hb
      · cases hb
      · exact .inr ⟨b, hb, rfl, rfl⟩
  | recycle e e' i hf hk _ hm hs hs' hw =>
    have hlt := (checkedSucc_eq_some hw).2
    have hnone : t.lease e'.key = none := by rw [lease, hf]; rfl
    have hl := h.lease_recycle hm hf
    obtain ⟨⟨hfloor, hfence⟩, -⟩ := t.le_raiseFloors e.fence e.stamp
    refine ⟨fun k' => ?_, fun k' b hb => ?_⟩
    · rw [lastFence, lastFence, hl k']
      split
      · next hk' =>
        rw [hk', hnone]
        exact UInt64.le_of_lt (UInt64.lt_of_le_of_lt hfloor hlt)
      split
      · next hk' =>
        rw [hk', show t.lease e.key = some e from SlotTable.Unique.entry_of_mem h hm]
        exact hfence
      · cases t.lease k' with
        | none => exact hfloor
        | some b => exact UInt64.le_refl _
    · rw [hl k'] at hb
      split at hb
      · next hk' =>
        obtain rfl := Option.some.inj hb
        rw [hk', lastFence_of_lease_none hnone]
        exact .inl (UInt64.lt_of_le_of_lt hfloor hlt)
      · split at hb
        · cases hb
        · exact .inr ⟨b, hb, rfl, rfl⟩
  | ends now =>
    by_cases hn : now = 0
    · rw [endExpiredFlushes, if_pos hn]
      exact .refl t
    have hl := h.lease_endExpiredFlushes hn
    have hfloor : (t.endExpiredFlushes now).fenceFloor = t.fenceFloor := by
      rw [endExpiredFlushes, if_neg hn]
    refine ⟨fun k' => UInt64.le_of_eq ?_, fun k' b hb => ?_⟩
    · rw [lastFence, lastFence, hl k', hfloor]
      cases t.lease k' with
      | none => rfl
      | some e => exact (endFlush_fence now e).symm
    · rw [hl k'] at hb
      obtain ⟨e, he, rfl⟩ := Option.map_eq_some_iff.mp hb
      exact .inr ⟨e, he, (endFlush_fence now e).symm, (endFlush_holder now e).symm⟩

/-! ## Accepted calls -/

/-- What an accepted call leaves: its caller's entry under its fence, judged
at its stamp. -/
structure Accepted (t t' : LeaseTable L) (y : Tenancy) : Prop where
  entry : ∃ e, t'.lease y.key = some e ∧ e.holder = y.holder ∧ e.fence = y.fence
  fresh : t.lastStamp y.key < y.now
  judged : y.now ≤ t'.lastStamp y.key

@[simp] theorem standing_status (e : LeaseEntry) (status : LeaseStatus) (now : UInt64) :
    (e.standing status now).status = status := by
  unfold LeaseEntry.standing
  split <;> rfl

/-- A granted record of an existing entry is its holder's, under its fence. -/
theorem applyEntry_granted {op : LeaseOp} {holder : Bytes} {expires : UInt64}
    (h : (applyEntry e op holder now expires).2.status = .granted) :
    (applyEntry e op holder now expires).1.holder = holder ∧
      (applyEntry e op holder now expires).1.fence
        = (applyEntry e op holder now expires).2.fence := by
  cases op with
  | acquire =>
    simp only [applyEntry] at h ⊢
    split at h
    · simp at h
    split at h
    · next hn hm =>
      rw [if_neg hn, if_pos hm]
      simp only [Bool.and_eq_true, beq_iff_eq] at hm
      exact ⟨hm.1.2, rfl⟩
    next hn hm =>
    rw [if_neg hn, if_neg hm]
    cases hc : checkedSucc e.fence with
    | none =>
      rw [hc] at h
      cases h
    | some fence => exact ⟨rfl, rfl⟩
  | renew =>
    simp only [applyEntry] at h ⊢
    split at h
    · next hm =>
      rw [if_pos hm]
      simp only [Bool.and_eq_true, beq_iff_eq] at hm
      exact ⟨hm.1.2, rfl⟩
    · simp at h
  | release =>
    simp only [applyEntry] at h ⊢
    split at h
    · next hm =>
      rw [if_pos hm]
      simp only [Bool.and_eq_true, beq_iff_eq] at hm
      exact ⟨hm.2, rfl⟩
    · simp at h

/-- An acquire granted to one who does not have the lease gets a new fence. -/
theorem applyEntry_opens {holder : Bytes} {expires : UInt64}
    (h : (applyEntry e .acquire holder now expires).2.status = .granted)
    (hn : (e.heldAt now && e.holder == holder) = false) :
    e.fence < (applyEntry e .acquire holder now expires).2.fence := by
  simp only [applyEntry] at h ⊢
  split at h
  · simp at h
  next hfree =>
  split at h
  · next hm =>
    simp only [Bool.and_eq_true] at hm
    rw [hm.2, hm.1.2] at hn
    cases hn
  next hm =>
  rw [if_neg hfree, if_neg hm]
  cases hc : checkedSucc e.fence with
  | none =>
    rw [hc] at h
    cases h
  | some fence => exact (checkedSucc_eq_some hc).2

/-- A granted record of a volume without an entry. -/
theorem Sound.applyAbsent_granted (h : t.Sound) (hf : t.find k = none) {op : LeaseOp}
    {holder : Bytes} {expires : UInt64}
    (hg : (t.applyAbsent op k holder now expires).2.status = .granted) :
    t.stampFloor < now ∧ t.fenceFloor < (t.applyAbsent op k holder now expires).2.fence ∧
      ∃ e, (t.applyAbsent op k holder now expires).1.lease k = some e ∧ e.holder = holder ∧
        e.fence = (t.applyAbsent op k holder now expires).2.fence := by
  unfold applyAbsent at hg ⊢
  split at hg
  · cases hg
  next hlate =>
  split at hg
  · cases hg
  next hop =>
  rw [if_neg hlate, if_neg hop]
  cases hc : t.claimSlot now with
  | none =>
    rw [hc] at hg
    cases hg
  | some p =>
    obtain ⟨t₁, i⟩ := p
    rw [hc] at hg
    dsimp only at hg ⊢
    obtain ⟨hfollows, hi, hfree, -, hnone⟩ := h.claimSlot_spec hc
    have hfloor : t.fenceFloor ≤ t₁.fenceFloor := by
      unfold claimSlot at hc
      split at hc
      · cases hc
        exact UInt64.le_refl _
      · obtain ⟨p, -, hp⟩ := Option.map_eq_some_iff.mp hc
        cases hp
        exact (t.le_raiseFloors p.1.fence p.1.stamp).1.1
    cases hs : checkedSucc t₁.fenceFloor with
    | none =>
      rw [hs] at hg
      cases hg
    | some fence =>
      have hk : t₁.lease k = none := hnone k (by rw [lease, hf]; rfl)
      refine ⟨UInt64.not_le.mp hlate,
        UInt64.lt_of_le_of_lt hfloor (checkedSucc_eq_some hs).2,
        ⟨k, true, holder, fence, expires, now, false⟩, ?_, rfl, rfl⟩
      have hl := (hfollows.sound.setEntry_free (e := ⟨k, true, holder, fence, expires, now, false⟩)
        hi hfree hk).2 k
      rw [if_pos rfl] at hl
      exact hl

/-- A granted lease record was judged against the floors or against its
volume's entry. -/
theorem apply_granted {mode : UInt8} {holder : Bytes} {ttlMs : UInt64}
    (hg : (t.apply mode k holder now ttlMs).2.status = .granted) :
    ∃ op, LeaseOp.fromU8 mode = some op ∧
      ((t.find k = none ∧ t.apply mode k holder now ttlMs
          = t.applyAbsent op k holder now (saturatingAdd now ttlMs)) ∨
        ∃ e i, t.find k = some (e, i) ∧ e.stamp < now ∧ t.apply mode k holder now ttlMs
          = (t.setEntry i (some
              (applyEntry { e with stamp := now } op holder now (saturatingAdd now ttlMs)).1),
            (applyEntry { e with stamp := now } op holder now (saturatingAdd now ttlMs)).2)) := by
  unfold apply at hg ⊢
  cases hop : LeaseOp.fromU8 mode with
  | none =>
    rw [hop] at hg
    cases hg
  | some op =>
    rw [hop] at hg
    dsimp only at hg ⊢
    refine ⟨op, rfl, ?_⟩
    split at hg
    · cases hg
    next h₁ =>
    split at hg
    · cases hg
    next h₂ =>
    rw [if_neg h₁, if_neg h₂]
    cases hf : t.find k with
    | none => exact .inl ⟨rfl, rfl⟩
    | some p =>
      obtain ⟨e, i⟩ := p
      rw [hf] at hg
      dsimp only at hg ⊢
      split at hg
      · cases hg
      next hlate =>
      rw [if_neg hlate]
      exact .inr ⟨e, i, rfl, UInt64.not_le.mp hlate, rfl⟩

/-- **A granted lease record** is judged at a new stamp, and leaves its
caller's entry under the fence it answers. -/
theorem Sound.accepted_of_grants (h : t.Sound) {mode : UInt8} {ttlMs : UInt64} {y : Tenancy}
    (hg : t.Grants mode ttlMs y) :
    t.Accepted (t.apply mode y.key y.holder y.now ttlMs).1 y := by
  obtain ⟨hstatus, hfence⟩ := hg
  have hjudged := (h.apply_follows mode y.key y.holder y.now ttlMs).2 hstatus
  obtain ⟨op, -, ⟨hf, he⟩ | ⟨e, i, hf, hlt, he⟩⟩ := apply_granted hstatus
  · rw [he] at hstatus hfence hjudged ⊢
    obtain ⟨hstamp, -, e, hlease, hholder, hef⟩ := h.applyAbsent_granted hf hstatus
    exact ⟨⟨e, hlease, hholder, hef.trans hfence⟩,
      (lastStamp_of_find_none hf).symm ▸ hstamp, hjudged⟩
  · rw [he] at hstatus hfence hjudged ⊢
    obtain ⟨hholder, hef⟩ := applyEntry_granted hstatus
    have hkey := (applyEntry_key_stamp { e with stamp := y.now } op y.holder y.now
      (saturatingAdd y.now ttlMs)).1
    have hl := (h.setEntry_found hf hkey).2 y.key
    rw [if_pos rfl] at hl
    exact ⟨⟨_, hl, hholder, hef.trans hfence⟩, (lastStamp_of_find hf).symm ▸ hlt, hjudged⟩

theorem Sound.accepted_of_admits (h : t.Sound) {y : Tenancy} (ha : t.Admits y) :
    t.Accepted (t.touch y.key y.now).1 y := by
  obtain ⟨htouch, hholds⟩ := ha
  have hjudged := (h.touch_follows y.key y.now).2 htouch
  obtain ⟨e, hlease, he⟩ := (Option.any_eq_true _ _).mp hholds
  simp only [Bool.and_eq_true, beq_iff_eq] at he
  refine ⟨⟨e, hlease, he.1.2, he.2⟩, ?_, hjudged⟩
  unfold touch at htouch
  split at htouch
  · cases htouch
  next hf =>
  split at htouch
  · cases htouch
  next hlate =>
  exact (lastStamp_of_find hf).symm ▸ UInt64.not_le.mp hlate

/-- **An accepted call** leaves its caller's entry, judged at a new stamp. -/
theorem Sound.accepted (h : t.Sound) {y : Tenancy} {c : LeaseCall} (ha : t.Accepts y c) :
    t.Accepted (t.call c) y := by
  cases c with
  | apply mode k holder now ttlMs =>
    obtain ⟨⟨rfl, rfl, rfl⟩, hg⟩ := ha
    exact h.accepted_of_grants hg
  | touch k now =>
    obtain ⟨⟨rfl, rfl⟩, ha⟩ := ha
    exact h.accepted_of_admits ha
  | setFlushing | endExpiredFlushes => exact ha.elim

/-- **A tenure opens past every fence of its volume.** -/
theorem Sound.lastFence_lt_of_opens (h : t.Sound) {y : Tenancy} {c : LeaseCall}
    (ho : t.Opens y c) : t.lastFence y.key < y.fence := by
  cases c with
  | apply mode k holder now ttlMs =>
    obtain ⟨⟨rfl, rfl, rfl⟩, ⟨hstatus, hfence⟩, hop, hn⟩ := ho
    obtain ⟨op, hop', ⟨hf, he⟩ | ⟨e, i, hf, hlt, he⟩⟩ := apply_granted hstatus
    · rw [he] at hstatus hfence
      rw [← hfence, lastFence_of_lease_none (by rw [lease, hf]; rfl)]
      exact (h.applyAbsent_granted hf hstatus).2.1
    · obtain rfl : op = .acquire := Option.some.inj (hop'.symm.trans hop)
      have hlease : t.lease y.key = some e := by rw [lease, hf]; rfl
      rw [he] at hstatus hfence
      rw [hlease, Option.any_some] at hn
      rw [← hfence, lastFence_of_lease hlease]
      exact @applyEntry_opens { e with stamp := y.now } y.now y.holder _ hstatus hn
  | touch | setFlushing | endExpiredFlushes => exact ho.elim

/-! ## Replay -/

theorem eq_of_fields {t t' : LeaseTable L} (he : t.entries = t'.entries)
    (hf : t.fenceFloor = t'.fenceFloor) (hs : t.stampFloor = t'.stampFloor) : t = t' := by
  cases t
  cases t'
  simp only [mk.injEq]
  exact ⟨he, hf, hs⟩

/-- A restored line takes the next free slot, its flush as it was, and raises
the floors. -/
theorem Sound.line_restore {b : LeaseEntry} {as : List LeaseEntry} {n : ℕ}
    (h : t.Sound) (hentries : t.entries = as.map some ++ List.replicate (n + 1) none)
    (hnew : ∀ a ∈ as, a.key ≠ b.key) (hfit : KeyFits L b.key) (fenceFloor stampFloor : UInt64) :
    t.line (.restore b fenceFloor stampFloor)
      = (t.raiseFloors fenceFloor stampFloor).setEntry as.length (some b) := by
  have hfind : t.find b.key = none := by
    rw [find, SlotTable.find_eq_none_iff, hentries]
    exact fun a i hm => hnew a (SlotTable.Packed.mem_used_iff.mp ⟨i, hm⟩)
  have hunused : t.unused = some as.length := by
    have hnone : (as.map some).findIdx? Option.isNone = none := by
      simp [List.findIdx?_eq_none_iff]
    rw [unused, hentries, List.findIdx?_append, hnone]
    simp [List.replicate_succ, List.findIdx?_cons]
  have hrestore : t.restore b fenceFloor stampFloor
      = some ((t.raiseFloors fenceFloor stampFloor).setEntry as.length
        (some { b with flushing := false })) := by
    rw [LeaseTable.restore, if_neg (Bool.eq_false_iff.mp hfit), hfind]
    simp only [hunused, Option.map_some]
  have hsound := (h.restore_spec hrestore).1
  have hlen : as.length < t.entries.length := by
    rw [hentries]
    simp
  simp only [line, hrestore]
  split
  · next hopen =>
    have hfound : ((t.raiseFloors fenceFloor stampFloor).setEntry as.length
        (some { b with flushing := false })).find b.key
          = some ({ b with flushing := false }, as.length) :=
      (SlotTable.Unique.find_eq_some_iff hsound).mpr
        ⟨(SlotTable.mem_used_set hlen).mpr (.inl ⟨rfl, rfl⟩), rfl⟩
    have hb : ({ b with flushing := true } : LeaseEntry) = b := by
      cases b
      simp_all
    simp only [setFlushing, hfound, BEq.rfl, if_true, hb]
    exact eq_of_fields (List.set_set ..) rfl rfl
  · next hclosed =>
    have hb : ({ b with flushing := false } : LeaseEntry) = b := by
      cases b
      simp_all
    rw [hb]

/-- The floors are raised to the ones restored. -/
theorem raiseFloors_of_le {fence stamp : UInt64} (hf : t.fenceFloor ≤ fence)
    (hs : t.stampFloor ≤ stamp) : (t.raiseFloors fence stamp).fenceFloor = fence ∧
      (t.raiseFloors fence stamp).stampFloor = stamp := by
  constructor
  · show (if t.fenceFloor < fence then fence else t.fenceFloor) = fence
    split <;> grind
  · show (if t.stampFloor < stamp then stamp else t.stampFloor) = stamp
    split <;> grind

/-- Restoring the entries of a table one after another. -/
theorem Sound.run_restore (fenceFloor stampFloor : UInt64) {n : ℕ} (bs : List LeaseEntry) :
    ∀ {t : LeaseTable L} (as : List LeaseEntry), t.Sound →
      t.entries = as.map some ++ List.replicate (bs.length + n) none →
      ((as ++ bs).map LeaseEntry.key).Nodup → (∀ b ∈ bs, KeyFits L b.key) →
      t.fenceFloor ≤ fenceFloor → t.stampFloor ≤ stampFloor →
      (Run.run line t (bs.map fun b => .restore b fenceFloor stampFloor)).entries
          = (as ++ bs).map some ++ List.replicate n none ∧
        (bs ≠ [] → (Run.run line t (bs.map fun b => .restore b fenceFloor stampFloor)).fenceFloor
            = fenceFloor ∧
          (Run.run line t (bs.map fun b => .restore b fenceFloor stampFloor)).stampFloor
            = stampFloor) := by
  induction bs with
  | nil =>
    intro t as h hentries _ _ _ _
    exact ⟨by simpa using hentries, fun hne => absurd rfl hne⟩
  | cons b bs ih =>
    intro t as h hentries hnd hfit hff hsf
    have hnew : ∀ a ∈ as, a.key ≠ b.key := by
      intro a ha hab
      rw [List.map_append, List.nodup_append] at hnd
      exact hnd.2.2 a.key (List.mem_map_of_mem ha) b.key (by simp) hab
    have hentries' : t.entries = as.map some ++ List.replicate (bs.length + n + 1) none := by
      rw [hentries, List.length_cons, Nat.add_right_comm]
    have hline := h.line_restore hentries' hnew (hfit b List.mem_cons_self) fenceFloor stampFloor
    obtain ⟨hf', hs'⟩ := raiseFloors_of_le hff hsf
    have hset : (t.line (.restore b fenceFloor stampFloor)).entries
        = (as ++ [b]).map some ++ List.replicate (bs.length + n) none := by
      rw [hline]
      show t.entries.set as.length (some b) = _
      rw [hentries', List.set_append_right _ _ (by simp)]
      simp [List.replicate_succ]
    have hsound : (t.line (.restore b fenceFloor stampFloor)).Sound := by
      rw [hline]
      refine SlotTable.Unique.set_some (l := t.entries) h ?_ fun a j ha hab => ?_
      · rw [hentries']
        simp
      · rw [hentries'] at ha
        exact absurd hab (hnew a (SlotTable.Packed.mem_used_iff.mp ⟨j, ha⟩))
    have hfloors : (t.line (.restore b fenceFloor stampFloor)).fenceFloor = fenceFloor ∧
        (t.line (.restore b fenceFloor stampFloor)).stampFloor = stampFloor := by
      rw [hline]
      exact ⟨hf', hs'⟩
    obtain ⟨hent, hfl⟩ := ih (as ++ [b]) hsound hset (by simpa using hnd)
      (fun c hc => hfit c (List.mem_cons_of_mem b hc)) (UInt64.le_of_eq hfloors.1)
      (UInt64.le_of_eq hfloors.2)
    simp only [List.map_cons, Run.run_cons]
    refine ⟨by simpa using hent, fun _ => ?_⟩
    cases bs with
    | nil => exact hfloors
    | cons c bs => exact hfl (List.cons_ne_nil c bs)

/-- **A rotated log replays to the table it was written from.** -/
theorem Regular.run_seedLines (h : t.Regular) : Run.run line (new L) t.seedLines = t := by
  obtain ⟨as, n, hentries⟩ := h.packed
  have hlen : as.length + n = L.leaseSlots := by
    rw [← t.length_entries, hentries]
    simp
  have hseeds : t.seedLines = as.map fun b => .restore b t.fenceFloor t.stampFloor := by
    rw [seedLines, hentries, List.filterMap_append, List.filterMap_map]
    simp
  have hsound := h.sound
  unfold Sound at hsound
  rw [hentries] at hsound
  obtain ⟨hent, hfl⟩ := Sound.run_restore t.fenceFloor t.stampFloor (n := n) as []
    (sound_new (L := L)) (by rw [hlen]; rfl) hsound.nodup_of_packed
    (fun b hb => by
      obtain ⟨i, hi⟩ := (SlotTable.Packed.mem_used_iff (n := n)).mpr hb
      exact h.fits b i (hentries ▸ hi))
    UInt64.zero_le UInt64.zero_le
  rw [hseeds]
  by_cases has : as = []
  · have hnil : SlotTable.used t.entries = [] := by
      rw [hentries, has]
      exact SlotTable.used_replicate n
    obtain ⟨hf, hs⟩ := h.floors hnil
    subst has
    exact eq_of_fields (hent.trans hentries.symm) hf.symm hs.symm
  · obtain ⟨hf, hs⟩ := hfl has
    exact eq_of_fields (hent.trans hentries.symm) hf hs

end LeaseTable

/-- A volume has one holder at a time, under one fence. -/
theorem LeaseTable.holds_unique {L : Limits} {t : LeaseTable L} {k : Key} {holder holder' : Bytes}
    {fence fence' now now' : UInt64} (h : t.holds k holder fence now = true)
    (h' : t.holds k holder' fence' now' = true) : holder = holder' ∧ fence = fence' := by
  obtain ⟨e, he, hp⟩ := (Option.any_eq_true _ _).mp h
  obtain ⟨e', he', hp'⟩ := (Option.any_eq_true _ _).mp h'
  obtain rfl := Option.some.inj (he.symm.trans he')
  simp only [Bool.and_eq_true, beq_iff_eq] at hp hp'
  exact ⟨hp.1.2.symm.trans hp'.1.2, hp.2.symm.trans hp'.2⟩

/-! ## The table over its life -/

namespace LeaseLog

variable {L : Limits} {s : LeaseLog L}

/-- The table is regular, and the log has it. -/
structure Kept (s : LeaseLog L) : Prop where
  regular : s.table.Regular
  replays : Run.run LeaseTable.line (.new L) s.log = s.table

theorem kept_init : (init L).Kept := ⟨LeaseTable.regular_new, rfl⟩

/-- One event keeps the log, and makes the table later. -/
theorem Kept.step (h : s.Kept) (e : LeaseEvent) :
    (s.step e).Kept ∧ s.table.Later (s.step e).table := by
  cases e with
  | call c =>
    have hc := s.table.call_change c
    refine ⟨⟨h.regular.of_change hc, ?_⟩, h.regular.sound.later_of_change hc⟩
    show Run.run LeaseTable.line (.new L) (s.log ++ [.call c]) = s.table.call c
    rw [Run.run_append, h.replays]
    rfl
  | rotate => exact ⟨⟨h.regular, h.regular.run_seedLines⟩, .refl _⟩
  | replay =>
    have htable : (s.step .replay).table = s.table := h.replays
    refine ⟨⟨htable ▸ h.regular, rfl⟩, htable ▸ .refl _⟩

/-- A run keeps the log, and makes the table later. -/
theorem Kept.run (h : s.Kept) (es : List LeaseEvent) :
    (Run.run LeaseLog.step s es).Kept ∧
      s.table.Later (Run.run LeaseLog.step s es).table := by
  induction es generalizing s with
  | nil => exact ⟨h, .refl _⟩
  | cons e es ih =>
    obtain ⟨hstep, hlater⟩ := h.step e
    obtain ⟨hrun, hlater'⟩ := ih hstep
    exact ⟨hrun, hlater.trans hlater'⟩

/-- The stamps a run has judged stay judged. -/
theorem Kept.lastStamp_step (h : s.Kept) (e : LeaseEvent) (k : Key) :
    s.table.lastStamp k ≤ (s.step e).table.lastStamp k := by
  cases e with
  | call c =>
    cases c with
    | apply mode k' holder now ttlMs =>
      exact (h.regular.sound.apply_follows mode k' holder now ttlMs).1.stamp k
    | touch k' now => exact (h.regular.sound.touch_follows k' now).1.stamp k
    | setFlushing k' holder opened =>
      exact (h.regular.sound.setFlushing_follows k' holder opened).stamp k
    | endExpiredFlushes now => exact (h.regular.sound.endExpiredFlushes_follows now).stamp k
  | rotate => exact UInt64.le_refl _
  | replay =>
    have htable : (s.step .replay).table = s.table := h.replays
    exact UInt64.le_of_eq (by rw [htable])

theorem Kept.lastStamp_run (h : s.Kept) (es : List LeaseEvent) (k : Key) :
    s.table.lastStamp k ≤ (Run.run LeaseLog.step s es).table.lastStamp k := by
  induction es generalizing s with
  | nil => exact UInt64.le_refl _
  | cons e es ih => exact UInt64.le_trans (h.lastStamp_step e k) (ih (h.step e).1)

/-- The table and its log after a run. -/
def after (L : Limits) (es : List LeaseEvent) : LeaseLog L := Run.run step (init L) es

theorem kept_after (es : List LeaseEvent) : (after L es).Kept := (kept_init.run es).1

/-- **No fence is issued twice.** Of two calls accepted for one volume, the
later is accepted at a later stamp and under no lower a fence; under the same
fence it is the same holder's; and if it opens a tenure, its fence is past
the earlier one's. A single call accepts one tenancy, and a single table
takes one for the holder. -/
theorem fences_never_reissued (L : Limits) (es : List LeaseEvent) (c : LeaseCall) (y : Tenancy)
    (h : (after L es).table.Accepts y c) :
    (∀ k now holder fence holder' fence', (after L es).table.holds k holder fence now = true →
        (after L es).table.holds k holder' fence' now = true → holder = holder' ∧ fence = fence') ∧
      (∀ y', (after L es).table.Accepts y' c → y'.key = y.key → y' = y) ∧
      ∀ es' c' y', (after L (es ++ .call c :: es')).table.Accepts y' c' → y'.key = y.key →
        y.now < y'.now ∧ y.fence ≤ y'.fence ∧ (y.fence = y'.fence → y.holder = y'.holder) ∧
          ((after L (es ++ .call c :: es')).table.Opens y' c' → y.fence < y'.fence) := by
  have hkept := kept_after (L := L) es
  have hacc := hkept.regular.sound.accepted h
  obtain ⟨e, hlease, hholder, hfence⟩ := hacc.entry
  refine ⟨fun _ _ _ _ _ _ hh hh' => LeaseTable.holds_unique hh hh', fun y' h' hk => ?_,
    fun es' c' y' h' hk => ?_⟩
  · obtain ⟨e', hlease', hholder', hfence'⟩ := (hkept.regular.sound.accepted h').entry
    have he : e' = e := by
      rw [hk, hlease] at hlease'
      exact (Option.some.inj hlease').symm
    have hnow : y'.now = y.now := by
      cases c with
      | apply mode k holder now ttlMs => exact h'.1.2.2.symm.trans h.1.2.2
      | touch k now => exact h'.1.2.symm.trans h.1.2
      | setFlushing | endExpiredFlushes => exact h.elim
    rw [he] at hholder' hfence'
    cases y
    cases y'
    simp_all
  · have hrun : after L (es ++ .call c :: es')
        = Run.run LeaseLog.step ((after L es).step (.call c)) es' := Run.run_append
    rw [hrun] at h' ⊢
    have hkept' := (hkept.step (.call c)).1
    obtain ⟨hlast, hlater⟩ := hkept'.run es'
    have hstamp := hkept'.lastStamp_run es' y.key
    have hacc' := hlast.regular.sound.accepted h'
    obtain ⟨e', hlease', hholder', hfence'⟩ := hacc'.entry
    have hlater' := hlater.trans
      (hlast.regular.sound.later_of_change (LeaseTable.call_change _ c'))
    have hfirst : ((after L es).step (.call c)).table.lastFence y.key = y.fence :=
      (LeaseTable.lastFence_of_lease hlease).trans hfence
    rw [hk] at hlease'
    have hfresh := hacc'.fresh
    rw [hk] at hfresh
    refine ⟨UInt64.lt_of_le_of_lt (UInt64.le_trans hacc.judged hstamp) hfresh, ?_, fun heq => ?_,
      fun ho => ?_⟩
    · have hle := hlater'.fence y.key
      rw [hfirst, LeaseTable.lastFence_of_lease hlease', hfence'] at hle
      exact hle
    · rcases hlater'.holder y.key e' hlease' with hlt | ⟨b, hb, -, hbh⟩
      · rw [hfirst, hfence', heq] at hlt
        exact absurd hlt (UInt64.lt_irrefl _)
      · have hbe : b = e := Option.some.inj (hb.symm.trans hlease)
        rw [← hholder, ← hbe, hbh, hholder']
    · have hlt := hlast.regular.sound.lastFence_lt_of_opens ho
      have hle := hlater.fence y.key
      rw [hfirst] at hle
      rw [hk] at hlt
      exact UInt64.lt_of_le_of_lt hle hlt

/-- A volume of the examples. -/
def sampleVolume : Key := ⟨[114], [118]⟩

/-- The tenures of two writers that take turns. -/
def firstTenure : Tenancy := ⟨sampleVolume, [1], 1, 10⟩

def secondTenure : Tenancy := ⟨sampleVolume, [2], 2, 20⟩

/-- They take turns over a rotation and a restart: the second's fence is past the
first's. -/
theorem fences_never_reissued_turns :
    (after .minimal []).table.Opens firstTenure (.apply 1 sampleVolume [1] 10 5) ∧
      (after .minimal [.call (.apply 1 sampleVolume [1] 10 5), .rotate, .replay]).table.Opens
        secondTenure (.apply 1 sampleVolume [2] 20 5) ∧
      firstTenure.fence < secondTenure.fence :=
  have hfirst : (after .minimal []).table.Opens firstTenure (.apply 1 sampleVolume [1] 10 5) :=
    ⟨⟨rfl, rfl, rfl⟩, ⟨by decide, by decide⟩, rfl, by decide⟩
  have hsecond : (after .minimal [.call (.apply 1 sampleVolume [1] 10 5), .rotate, .replay]).table.Opens
      secondTenure (.apply 1 sampleVolume [2] 20 5) :=
    ⟨⟨rfl, rfl, rfl⟩, ⟨by decide, by decide⟩, rfl, by decide⟩
  ⟨hfirst, hsecond, ((fences_never_reissued .minimal [] (.apply 1 sampleVolume [1] 10 5) firstTenure
    ⟨hfirst.1, hfirst.2.1⟩).2.2 [.rotate, .replay] (.apply 1 sampleVolume [2] 20 5) secondTenure
    ⟨hsecond.1, hsecond.2.1⟩ rfl).2.2.2 hsecond⟩

/-- The calls of two tenures, the second under fence 2, and a restore of the
entry under fence 1. -/
def restoredBack : List LeaseLine :=
  [.call (.apply 1 sampleVolume [1] 10 5), .call (.apply 3 sampleVolume [1] 12 5),
    .call (.apply 1 sampleVolume [2] 20 5), .call (.apply 3 sampleVolume [2] 22 5),
    .restore ⟨sampleVolume, false, [1], 1, 15, 12, false⟩ 0 0]

/-- **A restore of an older entry has a fence issued again**: it reinstates
what it is given, and a rotated log gives it what the table had. -/
theorem fence_reissued_after_restore :
    ¬ ∀ (ls ls' : List LeaseLine) (c c' : LeaseCall) (y y' : Tenancy),
      (Run.run LeaseTable.line (.new .minimal) ls).Opens y c →
      (Run.run LeaseTable.line (.new .minimal) (ls ++ .call c :: ls')).Opens y' c' →
      y'.key = y.key → y.fence < y'.fence := by
  intro h
  have hfirst : (Run.run LeaseTable.line (.new .minimal) (restoredBack.take 2)).Opens
      ⟨sampleVolume, [2], 2, 20⟩ (.apply 1 sampleVolume [2] 20 5) :=
    ⟨⟨rfl, rfl, rfl⟩, ⟨by decide, by decide⟩, rfl, by decide⟩
  have hsecond : (Run.run LeaseTable.line (.new .minimal) restoredBack).Opens
      ⟨sampleVolume, [3], 2, 30⟩ (.apply 1 sampleVolume [3] 30 5) :=
    ⟨⟨rfl, rfl, rfl⟩, ⟨by decide, by decide⟩, rfl, by decide⟩
  exact absurd (h (restoredBack.take 2) (restoredBack.drop 3) _ _ _ _ hfirst hsecond rfl)
    (by decide)

end LeaseLog

end Loam

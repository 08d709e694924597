import Loam.Arena

/-!
# The arena as a map

Every operation of the arena scans an array; what it means is a change to
the map `Arena.lookup` from keys to slots. This module says which. The
invariant that makes the reading possible is `Arena.Sound`: no two slots
share a key, and no slot is locked – the code defines a lock but no record
and no request sets one.

The writing operations share one outcome, `Arena.WriteSpec`: the key or the
binding exceeds its ceiling, or the key is not resident and every slot is
taken, or the new map is the old one with the key rewritten and uncovered
(`Arena.Writes`).
-/

namespace Loam

namespace BindingSlot

/-- With the hashes computed from the key, a match is equality of keys. -/
theorem matchesKey_iff {s : BindingSlot} {k : Key} :
    s.matchesKey (fnv1a64 k.root) (fnv1a64 k.path) k = true ↔ s.toKey = k := by
  cases k with | mk root path =>
  simp only [matchesKey, Bool.and_eq_true, beq_iff_eq]
  constructor
  · rintro ⟨⟨-, hr⟩, hp⟩
    rw [← hr, ← hp]
  · rintro h
    have hr : s.root = root := congrArg Key.root h
    have hp : s.path = path := congrArg Key.path h
    exact ⟨⟨⟨hr ▸ s.key_hashed.1, hp ▸ s.key_hashed.2⟩, hr⟩, hp⟩

/-- A slot as a write leaves it: holding `b` under `k`, covered by nothing,
unlocked. -/
structure Dirty (s : BindingSlot) (k : Key) (b : Binding) : Prop where
  key : s.toKey = k
  binding : s.toBinding = b
  snapshotted : s.snapshotted = false
  cmpEmitted : s.cmpEmitted = 0
  locked : s.locked = false

theorem dirty_fresh (k : Key) (b : Binding) (o c : UInt64) (h) :
    (fresh k b o c h).Dirty k b := ⟨rfl, rfl, rfl, rfl, rfl⟩

theorem dirty_rewrite {s : BindingSlot} (hs : s.locked = false) (b : Binding)
    (o c : UInt64) (h) : (s.rewrite b o c h).Dirty s.toKey b := ⟨rfl, rfl, rfl, rfl, hs⟩

theorem dirty_bury {s : BindingSlot} (hs : s.locked = false) (r c : UInt64) :
    (s.bury r c).Dirty s.toKey (.tombstone r) := ⟨rfl, rfl, rfl, rfl, hs⟩

/-- An expiry is no part of the binding or of its coverage. -/
theorem Dirty.withExpiry {s : BindingSlot} {k : Key} {b : Binding} (h : s.Dirty k b)
    (e : UInt64) : ({ s with expiresAt := e } : BindingSlot).Dirty k b :=
  ⟨h.key, h.binding, h.snapshotted, h.cmpEmitted, h.locked⟩

end BindingSlot

namespace Arena

variable {L : Limits} {a a' : Arena L} {k : Key} {s t : BindingSlot} {i j : ℕ}

/-! ## Occupied slots -/

theorem mem_occupied : (s, i) ∈ a.occupied ↔ a.slots[i]? = some (some s) :=
  SlotTable.mem_used

theorem lt_of_mem_occupied (h : (s, i) ∈ a.occupied) : i < L.namespaceSlots :=
  a.length_slots ▸ SlotTable.lt_of_mem_used h

theorem eq_of_mem_occupied (hs : (s, i) ∈ a.occupied) (ht : (t, i) ∈ a.occupied) :
    s = t := SlotTable.eq_of_mem_used hs ht

theorem mem_occupied_setSlot {o : Option BindingSlot} (hi : i < L.namespaceSlots) :
    (t, j) ∈ (a.setSlot i o).occupied ↔
      (j = i ∧ o = some t) ∨ (j ≠ i ∧ (t, j) ∈ a.occupied) :=
  SlotTable.mem_used_set (a.length_slots ▸ hi)

@[simp] theorem occupied_stamped (q : UInt64) : (a.stamped q).occupied = a.occupied := rfl

@[simp] theorem occupied_forgetChange (q : UInt64) :
    (a.forgetChange q).occupied = a.occupied := by
  unfold forgetChange
  split <;> rfl

/-! ## The invariant -/

/-- **The arena's invariant**: a key has one slot, and no slot is locked. -/
structure Sound (a : Arena L) : Prop where
  keys_unique : SlotTable.Unique BindingSlot.toKey a.slots
  unlocked : ∀ {s : BindingSlot} {i : ℕ}, (s, i) ∈ a.occupied → s.locked = false

theorem not_mem_occupied_new {p : BindingSlot × ℕ} : p ∉ (new L).occupied := by
  rw [occupied, new, SlotTable.used_replicate]
  exact List.not_mem_nil

theorem sound_new : (new L).Sound :=
  ⟨.replicate _, fun h => absurd h not_mem_occupied_new⟩

/-- `Sound` reads nothing but the occupied slots. -/
theorem Sound.of_occupied_eq (h : a.Sound) (he : a'.occupied = a.occupied) : a'.Sound where
  keys_unique := fun s t i j hs ht =>
    h.keys_unique (show (s, i) ∈ a.occupied from he ▸ hs) (show (t, j) ∈ a.occupied from he ▸ ht)
  unlocked := fun hs => h.unlocked (he ▸ hs)

/-! ## Looking a key up -/

/-- The scan for a key, whose matches are those of the key. -/
theorem locate_eq_find : a.locate k = SlotTable.find BindingSlot.toKey k a.slots := by
  have hp : (fun p : BindingSlot × ℕ => p.1.matchesKey (fnv1a64 k.root) (fnv1a64 k.path) k)
      = fun p => decide (p.1.toKey = k) := by
    funext p
    rw [Bool.eq_iff_iff, BindingSlot.matchesKey_iff, decide_eq_true_iff]
  rw [locate, hp]
  rfl

theorem lookup_eq_entry : a.lookup k = SlotTable.entry BindingSlot.toKey k a.slots := by
  rw [lookup, locate_eq_find, SlotTable.entry]

theorem Sound.locate_eq_some_iff (h : a.Sound) :
    a.locate k = some (s, i) ↔ (s, i) ∈ a.occupied ∧ s.toKey = k := by
  rw [locate_eq_find]
  exact h.keys_unique.find_eq_some_iff

theorem Sound.lookup_eq_some_iff (h : a.Sound) :
    a.lookup k = some s ↔ ∃ i, (s, i) ∈ a.occupied ∧ s.toKey = k := by
  rw [lookup_eq_entry]
  exact h.keys_unique.entry_eq_some_iff

theorem lookup_eq_none_iff :
    a.lookup k = none ↔ ∀ s i, (s, i) ∈ a.occupied → s.toKey ≠ k := by
  rw [lookup_eq_entry]
  exact SlotTable.entry_eq_none_iff

theorem lookup_eq_none_iff_locate : a.lookup k = none ↔ a.locate k = none := by
  rw [lookup, Option.map_eq_none_iff]

theorem Sound.lookup_of_mem (h : a.Sound) (hm : (s, i) ∈ a.occupied) :
    a.lookup s.toKey = some s := h.lookup_eq_some_iff.mpr ⟨i, hm, rfl⟩

/-- What `lookup` answers is stored under the key it was asked for. -/
theorem toKey_of_lookup (h : a.lookup k = some s) : s.toKey = k :=
  SlotTable.key_of_entry (lookup_eq_entry.symm.trans h)

theorem Sound.unlocked_of_lookup (h : a.Sound) (hl : a.lookup k = some s) :
    s.locked = false := by
  obtain ⟨i, hm, -⟩ := h.lookup_eq_some_iff.mp hl
  exact h.unlocked hm

@[simp] theorem lookup_new : (new L).lookup k = none :=
  lookup_eq_none_iff.mpr fun _ _ hm => absurd hm not_mem_occupied_new

/-- The map is determined by the occupied slots. -/
theorem lookup_congr (he : a'.occupied = a.occupied) : a'.lookup = a.lookup := by
  funext k
  simp only [lookup, locate, he]

@[simp] theorem lookup_stamped (q : UInt64) : (a.stamped q).lookup = a.lookup :=
  lookup_congr rfl

@[simp] theorem lookup_forgetChange (q : UInt64) : (a.forgetChange q).lookup = a.lookup :=
  lookup_congr (occupied_forgetChange q)

/-! ## Capacity -/

/-- The arena is full exactly when a scan finds no free slot. -/
theorem full_iff_freeSlot : a.full = true ↔ a.freeSlot = none := by
  rw [full, beq_iff_eq, ← a.length_slots]
  exact SlotTable.length_used_eq_iff

theorem freeSlot_eq_some (h : a.freeSlot = some i) :
    i < L.namespaceSlots ∧ ∀ t, (t, i) ∉ a.occupied :=
  a.length_slots ▸ SlotTable.free_eq_some h

/-- **An arena whose keys are among another's, with one to spare, has a free
slot.** -/
theorem Sound.not_full_of_subset {b : Arena L} (h : a.Sound)
    (hsub : ∀ k, a.lookup k ≠ none → b.lookup k ≠ none)
    (hk : a.lookup k = none) (hkb : b.lookup k ≠ none) : a.full = false := by
  simp only [lookup_eq_entry] at hsub hk hkb
  have hlt := h.keys_unique.length_lt_of_subset hsub hk hkb
  have hle := SlotTable.length_used_le (l := b.slots)
  rw [b.length_slots] at hle
  rw [full, beq_eq_false_iff_ne]
  exact (lt_of_lt_of_le hlt hle).ne

/-! ## What is done to the slots -/

/-- An entry as it is written: its key, what that is bound to, and its slot. -/
structure SlotWrite where
  key : Key
  binding : Binding
  slot : ℕ
deriving DecidableEq

/-- **What is done to the slots**, and the entries that are written, the last one first: a slot
is written under the next number, uncovered, free or of the same key before; a slot is amended,
its key, its binding and its coverage as they were; or a covered slot is freed, and the horizon
moved past its number. -/
inductive Trace (a : Arena L) : List SlotWrite → Arena L → Prop where
  | nothing : Trace a [] a
  | stamp {ws : List SlotWrite} {i : ℕ} {b : Arena L} {s : BindingSlot} : Trace a ws b →
      i < L.namespaceSlots → s.changeRev = b.changeSeq + 1 → s.snapshotted = false →
      (∀ t, (t, i) ∈ b.occupied → t.toKey = s.toKey) →
      Trace a (⟨s.toKey, s.toBinding, i⟩ :: ws)
        ((b.setSlot i (some s)).stamped (b.changeSeq + 1))
  | amend {ws : List SlotWrite} {i : ℕ} {b : Arena L} {s t : BindingSlot} : Trace a ws b →
      (s, i) ∈ b.occupied → t.changeRev = s.changeRev → t.toKey = s.toKey →
      t.toBinding = s.toBinding → t.snapshotted = s.snapshotted →
      Trace a ws (b.setSlot i (some t))
  | free {ws : List SlotWrite} {i : ℕ} {b : Arena L} {s : BindingSlot} : Trace a ws b →
      (s, i) ∈ b.occupied → s.snapshotted = true →
      Trace a ws ((b.setSlot i none).forgetChange s.changeRev)

theorem Trace.trans {ws ws' : List SlotWrite} {a'' : Arena L} (h : a.Trace ws a')
    (h' : a'.Trace ws' a'') : a.Trace (ws' ++ ws) a'' := by
  induction h' with
  | nothing => exact h
  | stamp _ hi hs hc hk ih => exact .stamp ih hi hs hc hk
  | amend _ hm hr hk hb hc ih => exact .amend ih hm hr hk hb hc
  | free _ hm hs ih => exact .free ih hm hs

/-- A slot holds what it held, or the entry that was written to it. -/
theorem Trace.lands {ws : List SlotWrite} (h : a.Trace ws a') (hm : (s, i) ∈ a'.occupied) :
    (∃ t, (t, i) ∈ a.occupied ∧ t.toKey = s.toKey ∧ t.toBinding = s.toBinding) ∨
      ⟨s.toKey, s.toBinding, i⟩ ∈ ws := by
  induction h generalizing s i with
  | nothing => exact .inl ⟨s, hm, rfl, rfl⟩
  | stamp _ hi _ _ _ ih =>
    rcases (mem_occupied_setSlot hi).mp hm with ⟨rfl, hs⟩ | ⟨-, hm⟩
    · cases hs
      exact .inr List.mem_cons_self
    · exact (ih hm).imp_right (List.mem_cons_of_mem _)
  | amend _ hb _ hk hbind _ ih =>
    rcases (mem_occupied_setSlot (lt_of_mem_occupied hb)).mp hm with ⟨rfl, hs⟩ | ⟨-, hm⟩
    · cases hs
      rw [hk, hbind]
      exact ih hb
    · exact ih hm
  | free _ hb _ ih =>
    rw [occupied_forgetChange, mem_occupied_setSlot (lt_of_mem_occupied hb)] at hm
    exact ih (hm.resolve_left fun h => Option.some_ne_none s h.2.symm).2

/-- What is written to the keys' own slots leaves each slot its key. -/
theorem Trace.own {ws : List SlotWrite} (h : a.Trace ws a')
    (hws : ∀ w ∈ ws, ∃ t, (t, w.slot) ∈ a.occupied ∧ t.toKey = w.key)
    (hm : (s, i) ∈ a'.occupied) : ∃ t, (t, i) ∈ a.occupied ∧ t.toKey = s.toKey := by
  rcases h.lands hm with ⟨t, ht, hk, -⟩ | hw
  · exact ⟨t, ht, hk⟩
  · exact hws _ hw

/-- The slot a key is written to: its own, or the first free one. -/
def place (a : Arena L) (k : Key) : Option ℕ := ((a.locate k).map Prod.snd).or a.freeSlot

theorem Sound.place_of_mem (h : a.Sound) (hm : (s, i) ∈ a.occupied) (hk : s.toKey = k) :
    a.place k = some i := by
  rw [place, h.locate_eq_some_iff.mpr ⟨hm, hk⟩]
  rfl

theorem mem_of_place (hp : a.place k = some i) (hk : a.lookup k ≠ none) :
    ∃ s, (s, i) ∈ a.occupied ∧ s.toKey = k := by
  obtain ⟨⟨s, j⟩, hl⟩ := Option.ne_none_iff_exists'.mp (mt lookup_eq_none_iff_locate.mpr hk)
  rw [place, hl] at hp
  cases hp
  rw [locate_eq_find] at hl
  exact ⟨s, SlotTable.mem_of_find hl⟩

theorem place_of_free (hk : a.lookup k = none) (hf : a.freeSlot = some i) :
    a.place k = some i := by
  rw [place, lookup_eq_none_iff_locate.mp hk, hf]
  rfl

/-- The slot a key is written to behind an eviction: its place, or its place once an entry is
evicted. -/
def slotFor (a : Arena L) (k : Key) (spare : Option Key) : Option ℕ :=
  (a.place k).or ((a.evictOneSnapshottedSparing spare).bind fun e => e.place k)

theorem slotFor_of_place {spare : Option Key} (h : a.place k = some i) :
    a.slotFor k spare = some i := by
  rw [slotFor, h, Option.some_or]

theorem slotFor_of_evict {spare : Option Key} {e : Arena L} (hk : a.lookup k = none)
    (hfull : a.full = true) (he : a.evictOneSnapshottedSparing spare = some e)
    (h : e.place k = some i) : a.slotFor k spare = some i := by
  rw [slotFor, place, lookup_eq_none_iff_locate.mp hk, full_iff_freeSlot.mp hfull, he]
  exact h

/-! ## Writing one slot -/

/-- Writing a slot where nothing else has its key keeps the arena sound. -/
theorem Sound.setSlot_some (h : a.Sound) (hi : i < L.namespaceSlots)
    (hs : s.locked = false)
    (hkey : ∀ t j, (t, j) ∈ a.occupied → t.toKey = s.toKey → j = i) :
    (a.setSlot i (some s)).Sound where
  keys_unique := h.keys_unique.set_some (a.length_slots ▸ hi) hkey
  unlocked := by
    intro t j ht
    rw [mem_occupied_setSlot hi] at ht
    rcases ht with ⟨-, hst⟩ | ⟨-, ht⟩
    · cases hst
      exact hs
    · exact h.unlocked ht

/-- The map after a slot is written: one key is rewritten. The index was free
or already the key's own. -/
theorem Sound.lookup_setSlot_some (h : a.Sound) (hi : i < L.namespaceSlots)
    (hkey : ∀ t j, (t, j) ∈ a.occupied → t.toKey = s.toKey → j = i)
    (hold : ∀ t, (t, i) ∈ a.occupied → t.toKey = s.toKey) (k : Key) :
    (a.setSlot i (some s)).lookup k = if k = s.toKey then some s else a.lookup k := by
  rw [lookup_eq_entry, lookup_eq_entry]
  exact h.keys_unique.entry_set_some (a.length_slots ▸ hi) hkey hold k

/-- Freeing a slot keeps the arena sound. -/
theorem Sound.setSlot_none (h : a.Sound) (hi : i < L.namespaceSlots) :
    (a.setSlot i none).Sound where
  keys_unique := h.keys_unique.set_none (a.length_slots ▸ hi)
  unlocked := by
    intro t j ht
    rw [mem_occupied_setSlot hi] at ht
    rcases ht with ⟨-, ht⟩ | ⟨-, ht⟩
    · cases ht
    · exact h.unlocked ht

/-- The map after a slot is freed: its key is gone. -/
theorem Sound.lookup_setSlot_none (h : a.Sound) (hm : (s, i) ∈ a.occupied) (k : Key) :
    (a.setSlot i none).lookup k = if k = s.toKey then none else a.lookup k := by
  rw [lookup_eq_entry, lookup_eq_entry]
  exact h.keys_unique.entry_set_none hm k

/-! ## What the writing operations do -/

/-- `a'` is `a` with `k` rewritten to `b`, the slot uncovered. -/
structure Writes (a a' : Arena L) (k : Key) (b : Binding) : Prop where
  sound : a'.Sound
  trace : ∃ i, a.place k = some i ∧ a.Trace [⟨k, b, i⟩] a'
  slot : ∃ s : BindingSlot, s.Dirty k b ∧
    ∀ k', a'.lookup k' = if k' = k then some s else a.lookup k'

/-- The three outcomes of writing `b` at `k`, whose lengths are in range when
`fits` says so. -/
inductive WriteSpec (a : Arena L) (k : Key) (b : Binding) (fits : Bool) :
    Except ApplyError (Arena L) → Prop where
  | tooLong : fits = false → WriteSpec a k b fits (.error .keyTooLong)
  /-- The key is not resident and no slot is free. -/
  | noRoom : fits = true → a.lookup k = none → a.full = true →
      WriteSpec a k b fits (.error .outOfCapacity)
  | wrote (a' : Arena L) : fits = true → (a.lookup k = none → a.full = false) →
      a.Writes a' k b → WriteSpec a k b fits (.ok a')

theorem trace_stamp {b : Binding} (hi : i < L.namespaceSlots) (ht : t.Dirty k b)
    (hc : t.changeRev = a.changeSeq + 1) (hold : ∀ u, (u, i) ∈ a.occupied → u.toKey = t.toKey) :
    a.Trace [⟨k, b, i⟩] ((a.setSlot i (some t)).stamped (a.changeSeq + 1)) := by
  rw [← ht.key, ← ht.binding]
  exact .stamp .nothing hi hc ht.snapshotted hold

/-- **A slot that is written in its place** changes the map at its key alone. -/
theorem Sound.rewritten (h : a.Sound) (hm : (s, i) ∈ a.occupied) (ht : t.toKey = s.toKey)
    (hul : t.locked = false) : (a.setSlot i (some t)).Sound ∧
      ∀ k, (a.setSlot i (some t)).lookup k = if k = s.toKey then some t else a.lookup k := by
  have hi := lt_of_mem_occupied hm
  have hkey : ∀ u j, (u, j) ∈ a.occupied → u.toKey = t.toKey → j = i := fun u j hu he =>
    h.keys_unique hu hm (he.trans ht)
  have hold : ∀ u, (u, i) ∈ a.occupied → u.toKey = t.toKey := fun u hu =>
    (congrArg _ (eq_of_mem_occupied hu hm)).trans ht.symm
  refine ⟨h.setSlot_some hi hul hkey, fun k => ?_⟩
  rw [h.lookup_setSlot_some hi hkey hold, ht]

theorem Sound.rewritten_stamped (h : a.Sound) (hm : (s, i) ∈ a.occupied) (ht : t.toKey = s.toKey)
    (hul : t.locked = false) (q : UInt64) : ((a.setSlot i (some t)).stamped q).Sound ∧
      ∀ k, ((a.setSlot i (some t)).stamped q).lookup k =
        if k = s.toKey then some t else a.lookup k :=
  ⟨(h.rewritten hm ht hul).1.of_occupied_eq rfl, (h.rewritten hm ht hul).2⟩

theorem Sound.writes_located (h : a.Sound) (hm : (s, i) ∈ a.occupied) {b : Binding}
    (ht : t.Dirty s.toKey b) (hc : t.changeRev = a.changeSeq + 1) :
    a.Writes ((a.setSlot i (some t)).stamped (a.changeSeq + 1)) s.toKey b := by
  obtain ⟨hsound, hl⟩ := h.rewritten_stamped hm ht.key ht.locked (a.changeSeq + 1)
  have hold : ∀ u, (u, i) ∈ a.occupied → u.toKey = t.toKey := fun u hu =>
    (congrArg _ (eq_of_mem_occupied hu hm)).trans ht.key.symm
  exact ⟨hsound, ⟨i, h.place_of_mem hm rfl, trace_stamp (lt_of_mem_occupied hm) ht hc hold⟩, t, ht, hl⟩

theorem Sound.fill_spec (h : a.Sound) (hk : a.lookup k = none) (b : Binding)
    (o : UInt64) (ho) : WriteSpec a k b true (a.fill k b o ho) := by
  simp only [fill]
  cases hf : a.freeSlot with
  | none => exact .noRoom rfl hk (full_iff_freeSlot.mpr hf)
  | some i =>
    obtain ⟨hi, hfree⟩ := freeSlot_eq_some hf
    have hnot : a.full = false := by
      rw [← Bool.not_eq_true, full_iff_freeSlot, hf]
      simp
    refine .wrote _ rfl (fun _ => hnot) ?_
    have hd := BindingSlot.dirty_fresh k b o (a.changeSeq + 1) ho
    have hkey : ∀ u j, (u, j) ∈ a.occupied → u.toKey = k → j = i := fun u j hu he =>
      absurd he (lookup_eq_none_iff.mp hk u j hu)
    refine ⟨(h.setSlot_some hi hd.locked hkey).of_occupied_eq rfl,
      ⟨i, place_of_free hk hf, trace_stamp hi hd rfl fun u hu => absurd hu (hfree u)⟩,
      _, hd, fun k' => ?_⟩
    rw [lookup_stamped, h.lookup_setSlot_some hi hkey
      (fun u hu => absurd hu (hfree u))]
    rfl

/-- **A bind past the resident revision writes.** -/
theorem Sound.bind_spec (h : a.Sound) {objectId : Bytes} {kind : UInt8}
    {revision : UInt64} {m : Meta}
    (hrev : ∀ s, a.lookup k = some s → s.revision < revision) :
    WriteSpec a k ⟨revision, kind, objectId, m⟩ (bindFits L k objectId m)
      (a.bind k objectId kind revision m) := by
  simp only [bind]
  cases hfit : bindFits L k objectId m with
  | false => exact .tooLong rfl
  | true =>
    cases hl : a.locate k with
    | none => exact h.fill_spec (lookup_eq_none_iff_locate.mpr hl) _ _ _
    | some p =>
      obtain ⟨s, i⟩ := p
      obtain ⟨hm, rfl⟩ := h.locate_eq_some_iff.mp hl
      have hlook := h.lookup_of_mem hm
      have hlt := hrev s hlook
      have hne : (revision == s.revision) = false := by
        rw [beq_eq_false_iff_ne]
        grind
      simp only [h.unlocked hm, hne, Bool.false_and, Bool.not_true, Bool.false_eq_true,
        if_false, if_pos hlt]
      refine .wrote _ rfl (fun hn => ?_) (h.writes_located hm
        (BindingSlot.dirty_rewrite (h.unlocked hm) _ _ _ _) rfl)
      rw [hlook] at hn
      cases hn

/-- **A committed bind writes**, whatever revision the key holds. -/
theorem Sound.commitBind_spec (h : a.Sound) (k : Key) (objectId : Bytes) (kind : UInt8)
    (revision : UInt64) (m : Meta) :
    WriteSpec a k ⟨revision, kind, objectId, m⟩ (bindFits L k objectId m)
      (a.commitBind k objectId kind revision m) := by
  simp only [commitBind]
  cases hfit : bindFits L k objectId m with
  | false => exact .tooLong rfl
  | true =>
    cases hl : a.locate k with
    | none =>
      have hk := lookup_eq_none_iff_locate.mpr hl
      have hb := @Sound.bind_spec L a k h objectId kind revision m fun s hs => by
        rw [hk] at hs; cases hs
      rwa [hfit] at hb
    | some p =>
      obtain ⟨s, i⟩ := p
      obtain ⟨hm, rfl⟩ := h.locate_eq_some_iff.mp hl
      simp only [h.unlocked hm, Bool.not_true, Bool.false_eq_true, if_false]
      refine .wrote _ rfl (fun hn => ?_) (h.writes_located hm
        ((BindingSlot.dirty_rewrite (h.unlocked hm) _ _ _ _).withExpiry 0) rfl)
      rw [h.lookup_of_mem hm] at hn
      cases hn

/-- **A tombstone writes**, whatever revision the key holds. -/
theorem Sound.tombstone_spec (h : a.Sound) (k : Key) (revision : UInt64) :
    WriteSpec a k (.tombstone revision) (L.keyFits k.root k.path [])
      (a.tombstone k revision) := by
  simp only [tombstone]
  cases hfit : L.keyFits k.root k.path [] with
  | false => exact .tooLong rfl
  | true =>
    cases hl : a.locate k with
    | none => exact h.fill_spec (lookup_eq_none_iff_locate.mpr hl) _ _ _
    | some p =>
      obtain ⟨s, i⟩ := p
      obtain ⟨hm, rfl⟩ := h.locate_eq_some_iff.mp hl
      simp only [h.unlocked hm, Bool.not_true, Bool.false_eq_true, if_false]
      refine .wrote _ rfl (fun hn => ?_)
        (h.writes_located hm (BindingSlot.dirty_bury (h.unlocked hm) _ _) rfl)
      rw [h.lookup_of_mem hm] at hn
      cases hn

/-! ## Rename -/

/-- `a'` is `a` with the binding at `source` moved to `dest`: two keys are
rewritten, both uncovered. -/
structure Moves (a a' : Arena L) (root source dest : Bytes) (newRevision : UInt64)
    (src : BindingSlot) : Prop where
  sound : a'.Sound
  trace : ∃ i j, a.place ⟨root, source⟩ = some i ∧ a.place ⟨root, dest⟩ = some j ∧
    a.Trace [⟨⟨root, source⟩, .tombstone newRevision, i⟩, ⟨⟨root, dest⟩, { src.toBinding with
      revision := pastTombstone newRevision (a.lookup ⟨root, dest⟩) }, j⟩] a'
  slots : ∃ d t : BindingSlot,
    d.Dirty ⟨root, dest⟩ { src.toBinding with
      revision := pastTombstone newRevision (a.lookup ⟨root, dest⟩) } ∧
    t.Dirty ⟨root, source⟩ (.tombstone newRevision) ∧
    ∀ k', a'.lookup k' = if k' = ⟨root, source⟩ then some t
      else if k' = ⟨root, dest⟩ then some d else a.lookup k'

/-- The outcomes of an arena rename between two different names. -/
inductive RenameSpec (a : Arena L) (root source dest : Bytes) (newRevision : UInt64) :
    Except ApplyError (Arena L) → Prop where
  | tooLong : (L.keyFits root source [] && L.keyFits root dest []) = false →
      RenameSpec a root source dest newRevision (.error .keyTooLong)
  | occupied : (L.keyFits root source [] && L.keyFits root dest []) = true →
      (a.lookup ⟨root, dest⟩).any (·.live) = true →
      RenameSpec a root source dest newRevision (.error .destinationOccupied)
  | notBound : (L.keyFits root source [] && L.keyFits root dest []) = true →
      (a.lookup ⟨root, dest⟩).any (·.live) = false →
      (a.lookup ⟨root, source⟩).any (·.live) = false →
      RenameSpec a root source dest newRevision (.error .notBound)
  /-- The destination needs a slot and there is none. -/
  | noRoom (src : BindingSlot) :
      (L.keyFits root source [] && L.keyFits root dest []) = true →
      (a.lookup ⟨root, dest⟩).any (·.live) = false →
      a.lookup ⟨root, source⟩ = some src → src.live = true →
      a.lookup ⟨root, dest⟩ = none → a.full = true →
      RenameSpec a root source dest newRevision (.error .outOfCapacity)
  | moved (a' : Arena L) (src : BindingSlot) :
      (L.keyFits root source [] && L.keyFits root dest []) = true →
      (a.lookup ⟨root, dest⟩).any (·.live) = false →
      a.lookup ⟨root, source⟩ = some src → src.live = true →
      (a.lookup ⟨root, dest⟩ = none → a.full = false) →
      a.Moves a' root source dest newRevision src →
      RenameSpec a root source dest newRevision (.ok a')

/-- Writing the destination and then burying the source moves the binding. The
destination index `j` is free or the destination's own. -/
theorem Sound.moves (h : a.Sound) {root source dest : Bytes} (hne : source ≠ dest)
    {src : BindingSlot} (hm : (src, i) ∈ a.occupied) (hk : src.toKey = ⟨root, source⟩)
    (hj : j < L.namespaceSlots)
    (hown : ∀ u l, (u, l) ∈ a.occupied → u.toKey = ⟨root, dest⟩ → l = j)
    (hold : ∀ u, (u, j) ∈ a.occupied → u.toKey = ⟨root, dest⟩)
    (hplace : a.place ⟨root, dest⟩ = some j) (newRevision : UInt64) :
    a.Moves
      (((a.setSlot j (some (src.moveTo dest
          (pastTombstone newRevision (a.lookup ⟨root, dest⟩)) (a.changeSeq + 1)))).setSlot i
        (some (src.vacate newRevision (a.changeSeq + 1 + 1)))).stamped (a.changeSeq + 1 + 1))
      root source dest newRevision src := by
  have hroot : src.root = root := congrArg Key.root hk
  have hul := h.unlocked hm
  have hkey : (⟨root, source⟩ : Key) ≠ ⟨root, dest⟩ := fun he => hne (congrArg Key.path he)
  set d := src.moveTo dest (pastTombstone newRevision (a.lookup ⟨root, dest⟩)) (a.changeSeq + 1)
  set t := src.vacate newRevision (a.changeSeq + 1 + 1)
  have hdd : d.Dirty ⟨root, dest⟩ { src.toBinding with
      revision := pastTombstone newRevision (a.lookup ⟨root, dest⟩) } :=
    ⟨by rw [← hroot]; rfl, rfl, rfl, rfl, hul⟩
  have htd : t.Dirty ⟨root, source⟩ (.tombstone newRevision) :=
    hk ▸ (BindingSlot.dirty_bury hul newRevision _).withExpiry 0
  have hown' : ∀ u l, (u, l) ∈ a.occupied → u.toKey = d.toKey → l = j := by
    rw [hdd.key]
    exact hown
  have hold' : ∀ u, (u, j) ∈ a.occupied → u.toKey = d.toKey := by
    rw [hdd.key]
    exact hold
  set b := (a.setSlot j (some d)).stamped (a.changeSeq + 1)
  have hs1 : b.Sound := (h.setSlot_some hj hdd.locked hown').of_occupied_eq rfl
  have hl1 : ∀ k', b.lookup k' = if k' = d.toKey then some d else a.lookup k' :=
    h.lookup_setSlot_some hj hown' hold'
  have hij : i ≠ j := by
    rintro rfl
    exact hkey (hk.symm.trans (hold src hm))
  have hm1 : (src, i) ∈ b.occupied := (mem_occupied_setSlot hj).mpr (.inr ⟨hij, hm⟩)
  have hw := hs1.writes_located hm1 (hk ▸ htd) rfl
  rw [hk] at hw
  have htrace := (trace_stamp hj hdd rfl hold').trans (trace_stamp (lt_of_mem_occupied hm) htd rfl
    fun u hu => (congrArg _ (eq_of_mem_occupied hu hm1)).trans (hk.trans htd.key.symm))
  obtain ⟨hs2, -, t', ht', hl2⟩ := hw
  have htt : t' = t := by
    have h1 := hl2 ⟨root, source⟩
    rw [if_pos rfl, lookup_stamped] at h1
    have hs3 : (b.setSlot i (some t)).Sound := hs2.of_occupied_eq rfl
    have h2 := hs3.lookup_of_mem (s := t) (i := i)
        ((mem_occupied_setSlot (lt_of_mem_occupied hm)).mpr (.inl ⟨rfl, rfl⟩))
    rw [htd.key, h1] at h2
    exact Option.some.inj h2
  subst htt
  refine ⟨hs2, ⟨i, j, h.place_of_mem hm hk, hplace, htrace⟩, d, t, hdd, htd, fun k' => ?_⟩
  rw [← hdd.key, ← hl1]
  exact hl2 k'

/-- **An arena rename moves the binding**, or is refused leaving nothing
changed. -/
theorem Sound.rename_spec (h : a.Sound) {root source dest : Bytes} (hne : source ≠ dest)
    (newRevision : UInt64) :
    RenameSpec a root source dest newRevision (a.rename root source dest newRevision) := by
  have hany : ∀ k, (a.locate k).any (·.1.live) = (a.lookup k).any (·.live) := by
    intro k
    rw [lookup]
    cases a.locate k <;> rfl
  simp only [rename, if_neg hne, hany]
  cases hfit : (L.keyFits root source [] && L.keyFits root dest []) with
  | false =>
    have hor : (!L.keyFits root source [] || !L.keyFits root dest []) = true := by
      rw [← Bool.not_and, hfit]
      rfl
    rw [if_pos hor]
    exact .tooLong hfit
  | true =>
    have hor : ¬ (!L.keyFits root source [] || !L.keyFits root dest []) = true := by
      rw [← Bool.not_and, hfit]
      simp
    rw [if_neg hor]
    cases hocc : (a.lookup ⟨root, dest⟩).any (·.live) with
    | true => exact .occupied hfit hocc
    | false =>
      simp only [Bool.false_eq_true, if_false]
      cases hs : a.locate ⟨root, source⟩ with
      | none =>
        dsimp only
        refine .notBound hfit hocc ?_
        rw [lookup, hs]
        rfl
      | some p =>
        obtain ⟨src, i⟩ := p
        obtain ⟨hm, hk⟩ := h.locate_eq_some_iff.mp hs
        have hlook : a.lookup ⟨root, source⟩ = some src := hk ▸ h.lookup_of_mem hm
        dsimp only
        cases hlive : src.live with
        | false =>
          simp only [Bool.not_false, if_true]
          refine .notBound hfit hocc ?_
          rw [hlook]
          exact hlive
        | true =>
          simp only [Bool.not_true, Bool.false_eq_true, if_false, h.unlocked hm]
          cases hd : a.locate ⟨root, dest⟩ with
          | some q =>
            obtain ⟨d, j⟩ := q
            obtain ⟨hdm, hdk⟩ := h.locate_eq_some_iff.mp hd
            have hdl : a.lookup ⟨root, dest⟩ = some d := hdk ▸ h.lookup_of_mem hdm
            refine .moved _ src hfit hocc hlook hlive (fun hn => ?_) ?_
            · rw [hdl] at hn
              cases hn
            · have := h.moves hne hm hk (lt_of_mem_occupied hdm)
                (fun u l hu he => h.keys_unique hu hdm (he.trans hdk.symm))
                (fun u hu => (congrArg _ (eq_of_mem_occupied hu hdm)).trans hdk)
                (h.place_of_mem hdm hdk) newRevision
              rw [hdl] at this
              exact this
          | none =>
            have hdl := lookup_eq_none_iff_locate.mpr hd
            cases hf : a.freeSlot with
            | none =>
              exact .noRoom src hfit hocc hlook hlive hdl (full_iff_freeSlot.mpr hf)
            | some j =>
              obtain ⟨hj, hfree⟩ := freeSlot_eq_some hf
              refine .moved _ src hfit hocc hlook hlive (fun _ => ?_) ?_
              · rw [← Bool.not_eq_true, full_iff_freeSlot, hf]
                simp
              · have := h.moves hne hm hk hj
                  (fun u l hu he => absurd he (lookup_eq_none_iff.mp hdl u l hu))
                  (fun u hu => absurd hu (hfree u)) (place_of_free hdl hf) newRevision
                rw [hdl] at this
                exact this

/-! ## Expiry -/

/-- Setting an expiry changes nothing else of the slot. -/
theorem Sound.setExpiry_spec (h : a.Sound) {e : UInt64} (he : a.setExpiry k e = .ok a') :
    ∃ s, a.lookup k = some s ∧ a'.Sound ∧ a.Trace [] a' ∧
      ∀ k', a'.lookup k' = if k' = k then some { s with expiresAt := e } else a.lookup k' := by
  unfold setExpiry at he
  split at he
  · next s i hl =>
    split at he
    · cases he
      obtain ⟨hm, rfl⟩ := h.locate_eq_some_iff.mp hl
      have hul : s.locked = false := h.unlocked hm
      obtain ⟨hsound, hlook⟩ := h.rewritten (t := { s with expiresAt := e }) hm rfl hul
      exact ⟨s, h.lookup_of_mem hm, hsound, .amend .nothing hm rfl rfl rfl rfl, hlook⟩
    · cases he
  · cases he

/-! ## Eviction -/

/-- An eviction forgets one covered slot, not the spared one, and leaves a
free one. -/
structure Evicts (a a' : Arena L) (spare : Option Key) : Prop where
  sound : a'.Sound
  trace : a.Trace [] a'
  victim : ∃ s : BindingSlot, a.lookup s.toKey = some s ∧ s.snapshotted = true ∧
    spare ≠ some s.toKey ∧
    ∀ k, a'.lookup k = if k = s.toKey then none else a.lookup k
  room : a'.full = false

theorem Sound.evicts (h : a.Sound) {spare : Option Key}
    (he : a.evictOneSnapshottedSparing spare = some a') : a.Evicts a' spare := by
  obtain ⟨⟨s, i⟩, hv, rfl⟩ := Option.map_eq_some_iff.mp he
  have hm : (s, i) ∈ a.occupied := List.mem_of_find?_eq_some hv
  have hp := List.find?_some hv
  simp only [Bool.and_eq_true, Bool.not_eq_true'] at hp
  have hi := lt_of_mem_occupied hm
  have hs := h.setSlot_none (a := a) hi
  refine ⟨hs.of_occupied_eq (occupied_forgetChange _), .free .nothing hm hp.2,
    ⟨s, h.lookup_of_mem hm, hp.2, ?_, fun k => ?_⟩, ?_⟩
  · rintro rfl
    have hself := BindingSlot.matchesKey_iff (s := s) (k := s.toKey).mpr rfl
    rw [Option.any_some, hself] at hp
    exact absurd hp.1.1 (by simp)
  · rw [lookup_forgetChange, h.lookup_setSlot_none hm]
  · rw [← Bool.not_eq_true, full_iff_freeSlot, freeSlot, List.findIdx?_eq_none_iff]
    intro hall
    have hslots : ((a.setSlot i none).forgetChange s.changeRev).slots
        = a.slots.set i none := by
      unfold forgetChange
      split <;> rfl
    have := hall none (hslots ▸ List.mem_set (a.length_slots ▸ hi) none)
    cases this

/-- With nothing evicted, every slot but the spared one is uncovered. -/
theorem Sound.not_snapshotted_of_evict_eq_none (h : a.Sound) {spare : Option Key}
    (he : a.evictOneSnapshottedSparing spare = none) (hl : a.lookup k = some s)
    (hsp : spare ≠ some k) : s.snapshotted = false := by
  obtain ⟨i, hm, rfl⟩ := h.lookup_eq_some_iff.mp hl
  have hn := List.find?_eq_none.mp (Option.map_eq_none_iff.mp he) (s, i) hm
  simp only [Bool.and_eq_true, Bool.not_eq_true', not_and, Bool.not_eq_true] at hn
  refine hn ⟨?_, h.unlocked hm⟩
  cases spare with
  | none => rfl
  | some k' =>
    rw [Option.any_some, ← Bool.not_eq_true, BindingSlot.matchesKey_iff]
    exact fun hk => hsp (congrArg some hk.symm)

/-! ## The compactor's operations -/

/-- Marking a slot emitted changes its tag and nothing else. -/
theorem Sound.markEmitted_spec (h : a.Sound) (hm : (s, i) ∈ a.occupied) (tag : UInt8) :
    (a.markEmitted i tag).Sound ∧ ∀ k, (a.markEmitted i tag).lookup k
      = if k = s.toKey then some { s with cmpEmitted := tag } else a.lookup k := by
  have he : a.markEmitted i tag = a.setSlot i (some { s with cmpEmitted := tag }) := by
    rw [markEmitted, mem_occupied.mp hm]
    rfl
  have hul : s.locked = false := h.unlocked hm
  rw [he]
  exact h.rewritten hm rfl hul

@[simp] theorem toKey_promote (tag : UInt8) : (s.promote tag).toKey = s.toKey := by
  unfold BindingSlot.promote
  split <;> rfl

@[simp] theorem toBinding_promote (tag : UInt8) :
    (s.promote tag).toBinding = s.toBinding := by
  unfold BindingSlot.promote
  split <;> rfl

@[simp] theorem locked_promote (tag : UInt8) : (s.promote tag).locked = s.locked := by
  unfold BindingSlot.promote
  split <;> rfl

theorem mem_occupied_finalizeEmitted {tag : UInt8} :
    (t, i) ∈ (a.finalizeEmitted tag).occupied ↔
      ∃ s, (s, i) ∈ a.occupied ∧ s.promote tag = t := SlotTable.mem_used_map

/-- Finishing a generation covers the slots emitted into it; the map changes
in nothing else. -/
theorem Sound.finalizeEmitted_spec (h : a.Sound) (tag : UInt8) :
    (a.finalizeEmitted tag).Sound ∧
      ∀ k, (a.finalizeEmitted tag).lookup k = (a.lookup k).map (BindingSlot.promote tag) := by
  refine ⟨⟨h.keys_unique.map fun s => toKey_promote (s := s) tag, fun {s i} hs => ?_⟩,
    fun k => ?_⟩
  · obtain ⟨s', hs', rfl⟩ := mem_occupied_finalizeEmitted.mp hs
    rw [locked_promote]
    exact h.unlocked hs'
  · rw [lookup_eq_entry, lookup_eq_entry]
    exact h.keys_unique.entry_map (fun s => toKey_promote (s := s) tag) k

/-- Folding `lesserKey` over a list keeps the least key seen. -/
theorem foldl_lesserKey (l : List (BindingSlot × ℕ)) (best : Option (BindingSlot × ℕ)) :
    (∀ p, l.foldl lesserKey best = some p → (best = some p ∨ p ∈ l) ∧
      (∀ q, best = some q → p.1.toKey ≤ q.1.toKey) ∧ ∀ q ∈ l, p.1.toKey ≤ q.1.toKey) ∧
    (l.foldl lesserKey best = none → best = none ∧ l = []) := by
  induction l generalizing best with
  | nil =>
    refine ⟨fun p hp => ⟨.inl hp, fun q hq => ?_, fun q hq => by cases hq⟩, fun h => ⟨h, rfl⟩⟩
    rw [List.foldl_nil, hq] at hp
    cases hp
    exact le_rfl
  | cons x l ih =>
    obtain ⟨ihs, ihn⟩ := ih (lesserKey best x)
    constructor
    · intro p hp
      obtain ⟨hmem, hbest, hl⟩ := ihs p hp
      cases best with
      | none =>
        have hx := hbest x rfl
        refine ⟨?_, fun _ hq => (nomatch hq), fun q hq => ?_⟩
        · rcases hmem with he | hm
          · obtain rfl := Option.some.inj he
            exact .inr (List.mem_cons_self)
          · exact .inr (List.mem_cons_of_mem _ hm)
        · rcases List.mem_cons.mp hq with rfl | hq
          · exact hx
          · exact hl q hq
      | some b =>
        by_cases hlt : keyCmp x.1.toKey b.1.toKey = .lt
        · have hstep : lesserKey (some b) x = some x := if_pos hlt
          rw [hstep] at hmem hbest
          have hx := hbest x rfl
          refine ⟨?_, fun q hq => ?_, fun q hq => ?_⟩
          · rcases hmem with he | hm
            · obtain rfl := Option.some.inj he
              exact .inr (List.mem_cons_self)
            · exact .inr (List.mem_cons_of_mem _ hm)
          · obtain rfl := Option.some.inj hq
            exact hx.trans (keyCmp_lt_iff.mp hlt).le
          · rcases List.mem_cons.mp hq with rfl | hq
            · exact hx
            · exact hl q hq
        · have hstep : lesserKey (some b) x = some b := if_neg hlt
          rw [hstep] at hmem hbest
          have hb := hbest b rfl
          have hbx : b.1.toKey ≤ x.1.toKey := le_of_not_gt fun h => hlt (keyCmp_lt_iff.mpr h)
          refine ⟨?_, fun q hq => ?_, fun q hq => ?_⟩
          · rcases hmem with he | hm
            · exact .inl he
            · exact .inr (List.mem_cons_of_mem _ hm)
          · obtain rfl := Option.some.inj hq
            exact hb
          · rcases List.mem_cons.mp hq with rfl | hq
            · exact hb.trans hbx
            · exact hl q hq
    · intro hn
      obtain ⟨hb, -⟩ := ihn hn
      cases best with
      | none => cases hb
      | some b =>
        rw [lesserKey] at hb
        split at hb <;> exact nomatch hb

theorem mem_filter_above {after : Option Key} {p : BindingSlot × ℕ} :
    p ∈ a.occupied.filter (fun p => after.all fun k => keyCmp p.1.toKey k == .gt) ↔
      p ∈ a.occupied ∧ ∀ k ∈ after, k < p.1.toKey := by
  rw [List.mem_filter]
  refine and_congr_right fun _ => ?_
  cases after with
  | none => simp
  | some k => simp [keyCmp_gt_iff]

/-- **The compactor's scan finds the least key above its cursor.** -/
theorem minKeyAbove_eq_some {after : Option Key} {p : BindingSlot × ℕ}
    (h : a.minKeyAbove after = some p) :
    p ∈ a.occupied ∧ (∀ k ∈ after, k < p.1.toKey) ∧
      ∀ q ∈ a.occupied, (∀ k ∈ after, k < q.1.toKey) → p.1.toKey ≤ q.1.toKey := by
  obtain ⟨hmem, -, hle⟩ := (foldl_lesserKey _ none).1 p h
  obtain ⟨hm, hk⟩ := mem_filter_above.mp (hmem.resolve_left fun hc => by cases hc)
  exact ⟨hm, hk, fun q hq hqk => hle q (mem_filter_above.mpr ⟨hq, hqk⟩)⟩

/-- The scan finds nothing when the arena holds nothing above the cursor. -/
theorem minKeyAbove_eq_none {after : Option Key} (h : a.minKeyAbove after = none)
    {q : BindingSlot × ℕ} (hq : q ∈ a.occupied) : ¬ ∀ k ∈ after, k < q.1.toKey := by
  obtain ⟨-, hnil⟩ := (foldl_lesserKey _ none).2 h
  intro hk
  have := mem_filter_above.mpr ⟨hq, hk⟩
  rw [hnil] at this
  cases this

end Arena

end Loam

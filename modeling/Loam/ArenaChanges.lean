import Loam.ArenaNumbers

/-!
# What the arena accounts for

A reader of the change stream asks what was changed past a number. The arena answers with the
slots that have a higher number, or that it cannot say: a slot that was freed took its number
with it, and moved the horizon to it. So of every change past a number the arena keeps one of
the two, however its slots are written, amended and freed after it (`Trace.accounts`), and no
event of a running instance changes what the namespace holds for a key without leaving such a
change (`Node.Room.accounted`).
-/

namespace Loam

namespace Arena

variable {L : Limits} {a a' a'' : Arena L} {s t : BindingSlot} {i j m : ℕ} {k : Key} {q : UInt64}

/-- **A change of the key past `q` is accounted for**: its slot has a number past it, or the
horizon is. -/
def Accounts (a : Arena L) (q : UInt64) (k : Key) : Prop :=
  q < a.changeHorizon ∨ ∃ s i, (s, i) ∈ a.occupied ∧ s.toKey = k ∧ q < s.changeRev

/-- What is held for a key is what was, but for a covered slot that is gone. -/
structure Keeps (a a' : Arena L) (k : Key) : Prop where
  old : ∀ s i, (s, i) ∈ a'.occupied → s.toKey = k → ∃ t, (t, i) ∈ a.occupied ∧ t.toKey = k ∧
    t.toBinding = s.toBinding ∧ t.snapshotted = s.snapshotted
  kept : ∀ t i, (t, i) ∈ a.occupied → t.toKey = k → t.snapshotted = true ∨
    ∃ s, (s, i) ∈ a'.occupied ∧ s.toKey = k ∧ s.toBinding = t.toBinding ∧
      s.snapshotted = t.snapshotted

theorem Keeps.refl (a : Arena L) (k : Key) : Keeps a a k :=
  ⟨fun s _ hs hk => ⟨s, hs, hk, rfl, rfl⟩, fun t _ ht hk => .inr ⟨t, ht, hk, rfl, rfl⟩⟩

theorem Keeps.trans (h : Keeps a a' k) (h' : Keeps a' a'' k) : Keeps a a'' k where
  old := fun s i hs hk => by
    obtain ⟨t, ht, htk, htb, htc⟩ := h'.old s i hs hk
    obtain ⟨u, hu, huk, hub, huc⟩ := h.old t i ht htk
    exact ⟨u, hu, huk, hub.trans htb, huc.trans htc⟩
  kept := fun u i hu huk => by
    obtain hc | ⟨t, ht, htk, htb, htc⟩ := h.kept u i hu huk
    · exact .inl hc
    · obtain hc | ⟨s, hs, hsk, hsb, hsc⟩ := h'.kept t i ht htk
      · exact .inl (htc ▸ hc)
      · exact .inr ⟨s, hs, hsk, hsb.trans htb, hsc.trans htc⟩

/-! ## A slot that is written -/

theorem accounts_stamp (hn : a.Numbered) (hroom : a.changeSeq.toNat + 1 < 2 ^ 64)
    (hi : i < L.namespaceSlots) (hs : s.changeRev = a.changeSeq + 1)
    (hk : ∀ t, (t, i) ∈ a.occupied → t.toKey = s.toKey) (h : a.Accounts q k) :
    ((a.setSlot i (some s)).stamped (a.changeSeq + 1)).Accounts q k := by
  obtain hq | ⟨t, j, ht, rfl, hq⟩ := h
  · exact .inl hq
  by_cases hji : j = i
  · -- The slot is written anew, under a higher number.
    subst hji
    refine .inr ⟨s, j, ?_, (hk t ht).symm, ?_⟩
    · rw [occupied_stamped, mem_occupied_setSlot hi]
      exact .inl ⟨rfl, rfl⟩
    · have hle := UInt64.le_iff_toNat_le.mp (hn.bounded t j ht)
      have hnext := toNat_next hroom
      rw [UInt64.lt_iff_toNat_lt] at hq ⊢
      rw [hs, hnext]
      omega
  · refine .inr ⟨t, j, ?_, rfl, hq⟩
    rw [occupied_stamped, mem_occupied_setSlot hi]
    exact .inr ⟨hji, ht⟩

/-- The key that is written is accounted for past the number before. -/
theorem accounts_written (hroom : a.changeSeq.toNat + 1 < 2 ^ 64) (hi : i < L.namespaceSlots)
    (hs : s.changeRev = a.changeSeq + 1) (hq : q ≤ a.changeSeq) :
    ((a.setSlot i (some s)).stamped (a.changeSeq + 1)).Accounts q s.toKey := by
  refine .inr ⟨s, i, ?_, rfl, ?_⟩
  · rw [occupied_stamped, mem_occupied_setSlot hi]
    exact .inl ⟨rfl, rfl⟩
  · have hnext := toNat_next hroom
    rw [UInt64.le_iff_toNat_le] at hq
    rw [UInt64.lt_iff_toNat_lt, hs, hnext]
    omega

theorem keeps_stamp (hi : i < L.namespaceSlots)
    (hk : ∀ t, (t, i) ∈ a.occupied → t.toKey = s.toKey) (hne : s.toKey ≠ k) :
    Keeps a ((a.setSlot i (some s)).stamped q) k where
  old := fun x j hx hxk => by
    rw [occupied_stamped, mem_occupied_setSlot hi] at hx
    obtain ⟨-, hx⟩ | ⟨-, hx⟩ := hx
    · cases hx
      exact absurd hxk hne
    · exact ⟨x, hx, hxk, rfl, rfl⟩
  kept := fun t j ht htk => by
    refine .inr ⟨t, ?_, htk, rfl, rfl⟩
    rw [occupied_stamped, mem_occupied_setSlot hi]
    refine .inr ⟨?_, ht⟩
    rintro rfl
    exact hne ((hk t ht).symm.trans htk)

/-! ## A slot that is amended -/

theorem accounts_amend (hm : (s, i) ∈ a.occupied) (hr : t.changeRev = s.changeRev)
    (hk : t.toKey = s.toKey) (h : a.Accounts q k) : (a.setSlot i (some t)).Accounts q k := by
  have hi := lt_of_mem_occupied hm
  obtain hq | ⟨x, j, hx, rfl, hq⟩ := h
  · exact .inl hq
  by_cases hji : j = i
  · subst hji
    obtain rfl := eq_of_mem_occupied hx hm
    exact .inr ⟨t, j, (mem_occupied_setSlot hi).mpr (.inl ⟨rfl, rfl⟩), hk, hr ▸ hq⟩
  · exact .inr ⟨x, j, (mem_occupied_setSlot hi).mpr (.inr ⟨hji, hx⟩), rfl, hq⟩

theorem keeps_amend (hm : (s, i) ∈ a.occupied) (hk : t.toKey = s.toKey)
    (hb : t.toBinding = s.toBinding) (hc : t.snapshotted = s.snapshotted) (k : Key) :
    Keeps a (a.setSlot i (some t)) k where
  old := fun x j hx hxk => by
    rw [mem_occupied_setSlot (lt_of_mem_occupied hm)] at hx
    obtain ⟨rfl, hx⟩ | ⟨-, hx⟩ := hx
    · cases hx
      exact ⟨s, hm, hk.symm.trans hxk, hb.symm, hc.symm⟩
    · exact ⟨x, hx, hxk, rfl, rfl⟩
  kept := fun x j hx hxk => by
    by_cases hji : j = i
    · subst hji
      obtain rfl := eq_of_mem_occupied hx hm
      exact .inr ⟨t, (mem_occupied_setSlot (lt_of_mem_occupied hm)).mpr (.inl ⟨rfl, rfl⟩),
        hk.trans hxk, hb, hc⟩
    · exact .inr ⟨x, (mem_occupied_setSlot (lt_of_mem_occupied hm)).mpr (.inr ⟨hji, hx⟩), hxk,
        rfl, rfl⟩

/-! ## A slot that is freed -/

theorem changeHorizon_forgetChange (a : Arena L) (q : UInt64) :
    a.changeHorizon ≤ (a.forgetChange q).changeHorizon ∧ q ≤ (a.forgetChange q).changeHorizon := by
  unfold forgetChange
  split
  · next h => exact ⟨UInt64.le_of_lt h, UInt64.le_refl q⟩
  · next h => exact ⟨UInt64.le_refl _, UInt64.not_lt.mp h⟩

theorem mem_occupied_freed (hi : i < L.namespaceSlots) :
    (t, j) ∈ ((a.setSlot i none).forgetChange q).occupied ↔ j ≠ i ∧ (t, j) ∈ a.occupied := by
  rw [occupied_forgetChange, mem_occupied_setSlot hi]
  exact ⟨fun h => h.resolve_left fun h => Option.some_ne_none t h.2.symm, .inr⟩

theorem accounts_free (hm : (s, i) ∈ a.occupied) (h : a.Accounts q k) :
    ((a.setSlot i none).forgetChange s.changeRev).Accounts q k := by
  have hi := lt_of_mem_occupied hm
  obtain ⟨hhor, hrev⟩ := changeHorizon_forgetChange (a.setSlot i none) s.changeRev
  obtain hq | ⟨t, j, ht, rfl, hq⟩ := h
  · exact .inl (UInt64.lt_of_lt_of_le hq hhor)
  by_cases hji : j = i
  · -- The number that goes with the slot is the horizon's, or below it.
    subst hji
    obtain rfl := eq_of_mem_occupied ht hm
    exact .inl (UInt64.lt_of_lt_of_le hq hrev)
  · exact .inr ⟨t, j, (mem_occupied_freed hi).mpr ⟨hji, ht⟩, rfl, hq⟩

theorem keeps_free (hm : (s, i) ∈ a.occupied) (hs : s.snapshotted = true) (k : Key) :
    Keeps a ((a.setSlot i none).forgetChange q) k where
  old := fun x j hx hxk =>
    ⟨x, ((mem_occupied_freed (lt_of_mem_occupied hm)).mp hx).2, hxk, rfl, rfl⟩
  kept := fun t j ht htk => by
    by_cases hji : j = i
    · subst hji
      obtain rfl := eq_of_mem_occupied ht hm
      exact .inl hs
    · exact .inr ⟨t, (mem_occupied_freed (lt_of_mem_occupied hm)).mpr ⟨hji, ht⟩, htk, rfl, rfl⟩

/-! ## What is done to the slots -/

/-- **What the arena accounts for stays accounted for**, and a key that is not kept as it was is
accounted for past the number from before. -/
theorem Trace.accounts {ws : List SlotWrite} (h : a.Trace ws a') (hn : a.Numbered)
    (hroom : a.changeSeq.toNat + ws.length < 2 ^ 64) :
    (∀ q k, a.Accounts q k → a'.Accounts q k) ∧ a.changeSeq ≤ a'.changeSeq ∧
      ∀ k, Keeps a a' k ∨ a'.Accounts a.changeSeq k := by
  induction h with
  | nothing => exact ⟨fun _ _ h => h, UInt64.le_refl _, fun k => .inl (.refl a k)⟩
  | @stamp ws i b s hd hi hs _ hk ih =>
    rw [List.length_cons] at hroom
    obtain ⟨hacc, hseq, hkeeps⟩ := ih (by omega)
    obtain ⟨hb, hle⟩ := hd.takes hn (by omega)
    have hnext : b.changeSeq.toNat + 1 < 2 ^ 64 := by omega
    have hstays := fun q k => accounts_stamp (q := q) (k := k) hb hnext hi hs hk
    refine ⟨fun q k h => hstays q k (hacc q k h), ?_, fun k => ?_⟩
    · show a.changeSeq ≤ b.changeSeq + 1
      rw [UInt64.le_iff_toNat_le] at hseq ⊢
      rw [toNat_next hnext]
      exact Nat.le_succ_of_le hseq
    · by_cases hsk : s.toKey = k
      · exact .inr (hsk ▸ accounts_written hnext hi hs hseq)
      · exact (hkeeps k).imp (fun h => h.trans (keeps_stamp hi hk hsk)) (hstays _ k)
  | amend hd hm hr hk hb hc ih =>
    obtain ⟨hacc, hseq, hkeeps⟩ := ih hroom
    have hstays := fun q k => accounts_amend (q := q) (k := k) hm hr hk
    exact ⟨fun q k h => hstays q k (hacc q k h), hseq, fun k =>
      (hkeeps k).imp (fun h => h.trans (keeps_amend hm hk hb hc k)) (hstays _ k)⟩
  | @free ws i b s hd hm hs ih =>
    obtain ⟨hacc, hseq, hkeeps⟩ := ih hroom
    have hstays := fun q k => accounts_free (q := q) (k := k) hm
    refine ⟨fun q k h => hstays q k (hacc q k h), ?_, fun k =>
      (hkeeps k).imp (fun h => h.trans (keeps_free hm hs k)) (hstays _ k)⟩
    have hsame : ((b.setSlot i none).forgetChange s.changeRev).changeSeq = b.changeSeq := by
      unfold forgetChange
      split <;> rfl
    exact hsame ▸ hseq

/-- A generation that is finished leaves the numbers as they are. -/
theorem accounts_finalizeEmitted (tag : UInt8) (h : a.Accounts q k) :
    (a.finalizeEmitted tag).Accounts q k := by
  obtain hq | ⟨s, i, hs, hk, hq⟩ := h
  · exact .inl hq
  · refine .inr ⟨s.promote tag, i, mem_occupied_finalizeEmitted.mpr ⟨s, hs, rfl⟩,
      (toKey_promote tag).trans hk, ?_⟩
    unfold BindingSlot.promote
    split <;> exact hq

end Arena

namespace Namespace

variable {L : Limits} {ns ns' : Namespace L} {k : Key}

/-- What is held for the key is seen as it was: a covered slot that is gone is in the
generation. -/
theorem Sound.view_keeps (h : ns.Sound) (h' : ns'.Sound) (hsnap : ns'.snap = ns.snap)
    (hk : ns.bindings.Keeps ns'.bindings k) : ns'.view k = ns.view k := by
  cases hl' : ns'.bindings.lookup k with
  | some s =>
    obtain ⟨i, hs, hsk⟩ := h'.arena.lookup_eq_some_iff.mp hl'
    obtain ⟨t, ht, htk, htb, -⟩ := hk.old s i hs hsk
    rw [view_of_lookup hl', view_of_lookup (h.arena.lookup_eq_some_iff.mpr ⟨i, ht, htk⟩), htb]
  | none =>
    rw [view_of_lookup_none hl', hsnap]
    cases hl : ns.bindings.lookup k with
    | none => rw [view_of_lookup_none hl]
    | some t =>
      obtain ⟨i, ht, htk⟩ := h.arena.lookup_eq_some_iff.mp hl
      obtain hc | ⟨s, hs, hsk, -⟩ := hk.kept t i ht htk
      · rw [view_of_lookup hl]
        exact h.covered k t hl hc
      · exact absurd hsk (Arena.lookup_eq_none_iff.mp hl' s i hs)

end Namespace

namespace Node

variable {L : Limits} {n : Node L} {e : Event}

/-- What an instance changed it accounts for. -/
structure Accounted (n n' : Node L) : Prop where
  stays : ∀ q k, n.ns.bindings.Accounts q k → n'.ns.bindings.Accounts q k
  seq : n.ns.bindings.changeSeq ≤ n'.ns.bindings.changeSeq
  /-- A key with another binding is accounted for past the number from before. -/
  changed : ∀ k, n'.ns.view k = n.ns.view k ∨ n'.ns.bindings.Accounts n.ns.bindings.changeSeq k

/-- **No event of a running instance changes a key without accounting for it.** -/
theorem Room.accounted (h : n.Coherent) (hn : n.ns.bindings.Numbered) (hroom : n.Room e)
    (he : e ≠ .crash) : Accounted n (n.step e) := by
  by_cases hi : e.internal = true
  · -- the view is as it was
    have hview := fun k => Or.inl (b := (n.step e).ns.bindings.Accounts n.ns.bindings.changeSeq k)
      (congrFun (h.internal hi).1 k)
    obtain ht | ⟨tag, hf⟩ := n.trace_internal hi
    · obtain ⟨hacc, hseq, -⟩ := ht.accounts hn (UInt64.toNat_lt _)
      exact ⟨hacc, hseq, hview⟩
    · refine ⟨fun q k hq => ?_, ?_, hview⟩
      · rw [hf]
        exact Arena.accounts_finalizeEmitted tag hq
      · rw [hf]
        exact UInt64.le_refl _
  · obtain ⟨ws, ht, hle, -⟩ | ⟨hi', -⟩ := h.trace he
    · have hlt := hroom.lt he
      obtain ⟨hacc, hseq, hkeeps⟩ := ht.accounts hn (by omega)
      refine ⟨hacc, hseq, fun k => (hkeeps k).imp_left
        (h.sound.view_keeps (h.step e).sound ?_)⟩
      cases e with
      | feed r io proof =>
        show (n.feed r io proof).1.ns.snap = _
        obtain hf | ⟨hf, -⟩ := feed_cases n r io proof
        · rw [hf]
        · rw [hf]
          exact h.sound.snap_applyOp io r
      | surface op io now =>
        show (surfaceOp n.ns io now op).1.snap = _
        rw [((h.sound.surfaceOp_outcome h.fits io now op).evolves h.sound).1]
      | crash => exact absurd rfl he
      | _ => exact absurd rfl hi
    · exact absurd hi' hi

/-- An event changes what the namespace holds for the key. -/
def Changes (k : Key) (n : Node L) (e : Event) : Prop := (n.step e).ns.view k ≠ n.ns.view k

/-- **A key that some event of a run changed is accounted for** past the number the run began
with. -/
theorem accounts_run {k : Key} {q : UInt64} {es : List Event} (h : n.Coherent)
    (hn : n.ns.bindings.Numbered) (hroom : Run.AllSteps step Room n es)
    (hes : ∀ e ∈ es, e ≠ .crash) (hq : q ≤ n.ns.bindings.changeSeq)
    (hk : n.ns.bindings.Accounts q k ∨ Run.SomeStep step (Changes k) n es) :
    (n.run es).ns.bindings.Accounts q k := by
  induction es generalizing n with
  | nil => exact hk.resolve_right not_false
  | cons e es ih =>
    obtain ⟨hr, hrest⟩ := hroom
    have hacc := Room.accounted h hn hr (hes e List.mem_cons_self)
    refine ih (h.step e) (Room.numbered h hn hr) hrest
      (fun e' he' => hes e' (List.mem_cons_of_mem e he')) (UInt64.le_trans hq hacc.seq) ?_
    obtain hk | hk | hk := hk
    · exact .inl (hacc.stays q k hk)
    · obtain hbind | hrev | ⟨s, i, hs, hsk, hrev⟩ := hacc.changed k
      · exact absurd hbind hk
      · exact .inl (.inl (UInt64.lt_of_le_of_lt hq hrev))
      · exact .inl (.inr ⟨s, i, hs, hsk, UInt64.lt_of_le_of_lt hq hrev⟩)
    · exact .inr hk

end Node

end Loam

import Loam.Node

/-!
# What a compaction captures

While records keep arriving, the compactor writes the next generation key by
key. `Captures` is the invariant of that merge: of the keys it has passed, a
slot still tagged is staged as it stands, a covered slot is tagged, and a key
the arena does not hold is staged as the old generation has it. It says
nothing of the keys above the cursor, nor of a passed key rewritten since:
such a slot has lost its tag and is not covered by what is being written.

Everything the namespace does to its arena in the meantime is an
`Arena.Evolves` step – each slot stays, is evicted if covered, or comes out
dirty – and every such step keeps the capture.
-/

namespace Loam

namespace Arena

variable {L : Limits} {a a' a'' : Arena L} {k : Key}

/-! ## How an arena evolves between two slices -/

/-- Every slot stays as it is, or is evicted, covered, or comes out
rewritten. -/
structure Evolves (a a' : Arena L) : Prop where
  sound : a'.Sound
  slot : ∀ k, a'.lookup k = a.lookup k ∨
    (a'.lookup k = none ∧ ∃ s, a.lookup k = some s ∧ s.snapshotted = true) ∨
    ∃ s, a'.lookup k = some s ∧ s.snapshotted = false ∧ s.cmpEmitted = 0

theorem Sound.evolves_refl (h : a.Sound) : a.Evolves a := ⟨h, fun _ => .inl rfl⟩

theorem Evolves.trans (h : a.Evolves a') (h' : a'.Evolves a'') : a.Evolves a'' := by
  refine ⟨h'.sound, fun k => ?_⟩
  rcases h'.slot k with he | ⟨hn, s, hs, hsn⟩ | hd
  · rw [he]
    exact h.slot k
  · rcases h.slot k with he | ⟨hn', -⟩ | ⟨t, ht, htn, -⟩
    · exact .inr (.inl ⟨hn, s, he ▸ hs, hsn⟩)
    · rw [hs] at hn'
      cases hn'
    · rw [hs] at ht
      cases ht
      rw [hsn] at htn
      cases htn
  · exact .inr (.inr hd)

theorem Shrinks.evolves {spare : Option Key} (h : a.Shrinks a' spare) : a.Evolves a' :=
  ⟨h.sound, fun k => (h.slot k).imp_right fun ⟨hn, _, hs⟩ => .inl ⟨hn, hs⟩⟩

theorem Writes.evolves {b : Binding} (h : a.Writes a' k b) : a.Evolves a' := by
  obtain ⟨hs, -, s, hd, hl⟩ := h
  refine ⟨hs, fun k' => ?_⟩
  rw [hl k']
  split
  · exact .inr (.inr ⟨s, rfl, hd.snapshotted, hd.cmpEmitted⟩)
  · exact .inl rfl

theorem Moves.evolves {root source dest : Bytes} {newRevision : UInt64} {src : BindingSlot}
    (h : a.Moves a' root source dest newRevision src) : a.Evolves a' := by
  obtain ⟨hs, -, d, t, hd, ht, hl⟩ := h
  refine ⟨hs, fun k' => ?_⟩
  rw [hl k']
  split
  · exact .inr (.inr ⟨t, rfl, ht.snapshotted, ht.cmpEmitted⟩)
  split
  · exact .inr (.inr ⟨d, rfl, hd.snapshotted, hd.cmpEmitted⟩)
  · exact .inl rfl

theorem PutOutcome.evolves {b : Binding} {ok : Bool} (ha : a.Sound)
    (h : a.PutOutcome k b a' ok) : a.Evolves a' := by
  cases h with
  | tooLong | noRoom => exact ha.evolves_refl
  | wrote a₁ _ _ hs _ hw => exact hs.evolves.trans hw.evolves

theorem MoveOutcome.evolves {m : RenameMsg} {ok : Bool} (h : a.MoveOutcome m a' ok) :
    a.Evolves a' := by
  cases h with
  | refused _ hs => exact hs.evolves
  | moved a₁ _ _ _ _ hs _ _ _ _ hm => exact hs.evolves.trans hm.evolves

theorem EffectOutcome.evolves {e : Effect} {ok : Bool} (ha : a.Sound)
    (h : a.EffectOutcome e a' ok) : a.Evolves a' := by
  cases h with
  | keep => exact ha.evolves_refl
  | put hp => exact hp.evolves ha
  | move hm => exact hm.evolves

end Arena

namespace Namespace

variable {L : Limits} {ns : Namespace L}

/-- The tiers stay coherent as the arena evolves. -/
theorem Sound.evolves (h : ns.Sound) {a' : Arena L} (he : ns.bindings.Evolves a') :
    ({ ns with bindings := a' } : Namespace L).Sound := by
  refine ⟨he.sound, h.sorted, fun k s hs hsn => ?_⟩
  rcases he.slot k with he | ⟨hn, -⟩ | ⟨t, ht, htn, -⟩
  · exact h.covered k s (he ▸ hs) hsn
  · exact nomatch hn.symm.trans hs
  · obtain rfl := Option.some.inj (ht.symm.trans hs)
    exact nomatch htn.symm.trans hsn

/-- A record evolves the arena, and touches the generation not at all. -/
theorem Sound.applyOp_evolves (h : ns.Sound) (io : ReadEnv) (r : Record) :
    ns.bindings.Evolves (ns.applyOp io r).1.bindings := by
  rcases h.applyOp_cases io r with ⟨f, hf, -⟩ | he
  · rw [hf]
    exact h.arena.evolves_refl
  · obtain ⟨a', ok, hp, ho⟩ := h.applyOp_carries r
    rw [he, hp]
    exact ho.evolves h.arena

end Namespace

/-! ## The capture -/

/-- The binding staged for a key. -/
def stagedBinding (staged : List SnapRecord) (k : Key) : Option Binding :=
  (SortedTable.find SnapRecord.toKey k staged).map SnapRecord.toBinding

/-- **The invariant of a merge** that has passed the keys of `passed`, tags
with `tag` and has staged `staged`. -/
structure Captures {L : Limits} (ns : Namespace L) (tag : UInt8) (passed : Key → Prop)
    (staged : List SnapRecord) : Prop where
  sorted : SortedTable.Sorted SnapRecord.toKey staged
  passed_of_mem : ∀ r ∈ staged, passed r.toKey
  /-- A tagged slot is staged as it stands. -/
  emitted : ∀ k s, ns.bindings.lookup k = some s → passed k → s.cmpEmitted = tag →
    stagedBinding staged k = some s.toBinding
  covered : ∀ k s, ns.bindings.lookup k = some s → passed k → s.snapshotted = true →
    s.cmpEmitted = tag
  /-- A key the arena does not hold is staged as the old generation has it. -/
  carried : ∀ k, ns.bindings.lookup k = none → passed k →
    stagedBinding staged k = snapBinding ns.snap k

namespace Captures

variable {L : Limits} {ns ns' : Namespace L} {tag : UInt8} {passed passed' : Key → Prop}
  {staged : List SnapRecord} {k : Key} {s : BindingSlot}

theorem nil (h : ∀ k, ¬ passed k) : Captures ns tag passed [] where
  sorted := SortedTable.sorted_nil
  passed_of_mem := fun _ hr => (nomatch hr)
  emitted := fun k _ _ hk => absurd hk (h k)
  covered := fun k _ _ hk => absurd hk (h k)
  carried := fun k _ hk => absurd hk (h k)

theorem congr_passed (h : Captures ns tag passed staged) (hp : ∀ k, passed k ↔ passed' k) :
    Captures ns tag passed' staged := by
  obtain rfl : passed = passed' := funext fun k => propext (hp k)
  exact h

/-- **The capture is kept while the arena evolves.** -/
theorem evolves (h : Captures ns tag passed staged) (hs : ns.Sound) (htag : tag ≠ 0)
    (he : ns.bindings.Evolves ns'.bindings) (hsnap : ns'.snap = ns.snap) :
    Captures ns' tag passed staged where
  sorted := h.sorted
  passed_of_mem := h.passed_of_mem
  emitted := fun k s hl hk ht => by
    rcases he.slot k with he | ⟨hn, -⟩ | ⟨t, ht', -, htc⟩
    · exact h.emitted k s (he ▸ hl) hk ht
    · exact nomatch hn.symm.trans hl
    · obtain rfl := Option.some.inj (ht'.symm.trans hl)
      exact absurd (ht.symm.trans htc) htag
  covered := fun k s hl hk hsn => by
    rcases he.slot k with he | ⟨hn, -⟩ | ⟨t, ht', htn, -⟩
    · exact h.covered k s (he ▸ hl) hk hsn
    · exact nomatch hn.symm.trans hl
    · obtain rfl := Option.some.inj (ht'.symm.trans hl)
      exact nomatch htn.symm.trans hsn
  carried := fun k hl hk => by
    rw [hsnap]
    rcases he.slot k with he | ⟨-, s, hls, hsn⟩ | ⟨t, ht', -⟩
    · exact h.carried k (he ▸ hl) hk
    · -- evicted: its slot was covered, so tagged, so staged as both tiers had it
      rw [h.emitted k s hls hk (h.covered k s hls hk hsn), hs.covered k s hls hsn]
    · exact nomatch ht'.symm.trans hl

theorem stagedBinding_eq_none (h : Captures ns tag passed staged) (hk : ¬ passed k) :
    stagedBinding staged k = none := by
  rw [stagedBinding, Option.map_eq_none_iff, SortedTable.find_eq_none_iff]
  rintro r hr rfl
  exact hk (h.passed_of_mem r hr)

theorem stagedBinding_append (h : Captures ns tag passed staged) {r : SnapRecord}
    (hr : ¬ passed r.toKey) :
    stagedBinding (staged ++ [r]) k
      = if k = r.toKey then some r.toBinding else stagedBinding staged k := by
  have hnone := h.stagedBinding_eq_none hr
  rw [stagedBinding, Option.map_eq_none_iff] at hnone
  rw [stagedBinding, SortedTable.find_append_singleton hnone]
  split <;> rfl

/-- Staging one more record, above everything passed: the new capture holds if
it does of the keys newly passed. -/
theorem append (h : Captures ns tag passed staged) {r : SnapRecord}
    (hmono : ∀ k, passed k → passed' k) (hr : passed' r.toKey)
    (hlt : ∀ k, passed k → k < r.toKey)
    (hemit : ∀ s, ns'.bindings.lookup r.toKey = some s →
      s.toBinding = r.toBinding ∧ s.cmpEmitted = tag)
    (hcarry : ns'.bindings.lookup r.toKey = none → snapBinding ns.snap r.toKey = some r.toBinding)
    (hsame : ∀ k, k ≠ r.toKey → ns'.bindings.lookup k = ns.bindings.lookup k)
    (hsnap : ns'.snap = ns.snap)
    (hskip : ∀ k, passed' k → ¬ passed k → k ≠ r.toKey →
      ns.bindings.lookup k = none ∧ snapBinding ns.snap k = none) :
    Captures ns' tag passed' (staged ++ [r]) := by
  have hnot : ¬ passed r.toKey := fun hp => lt_irrefl _ (hlt _ hp)
  have hmem : ∀ q ∈ staged, q.toKey < r.toKey := fun q hq => hlt _ (h.passed_of_mem q hq)
  refine ⟨h.sorted.append_singleton hmem, fun q hq => ?_, fun k s hl hk ht => ?_,
    fun k s hl hk hsn => ?_, fun k hl hk => ?_⟩
  · rcases List.mem_append.mp hq with hq | hq
    · exact hmono _ (h.passed_of_mem q hq)
    rw [List.mem_singleton.mp hq]
    exact hr
  · rw [h.stagedBinding_append hnot]
    by_cases hkr : k = r.toKey
    · rw [if_pos hkr, (hemit s (hkr ▸ hl)).1]
    rw [if_neg hkr]
    rw [hsame k hkr] at hl
    by_cases hp : passed k
    · exact h.emitted k s hl hp ht
    · exact nomatch (hskip k hk hp hkr).1.symm.trans hl
  · by_cases hkr : k = r.toKey
    · exact (hemit s (hkr ▸ hl)).2
    rw [hsame k hkr] at hl
    by_cases hp : passed k
    · exact h.covered k s hl hp hsn
    · exact nomatch (hskip k hk hp hkr).1.symm.trans hl
  · rw [h.stagedBinding_append hnot, hsnap]
    by_cases hkr : k = r.toKey
    · rw [if_pos hkr, hkr, hcarry (hkr ▸ hl)]
    rw [if_neg hkr]
    rw [hsame k hkr] at hl
    by_cases hp : passed k
    · exact h.carried k hl hp
    · rw [h.stagedBinding_eq_none hp, (hskip k hk hp hkr).2]

/-- With nothing left above the cursor, every key is passed. -/
theorem all (h : Captures ns tag passed staged)
    (hskip : ∀ k, ¬ passed k → ns.bindings.lookup k = none ∧ snapBinding ns.snap k = none) :
    Captures ns tag (fun _ => True) staged where
  sorted := h.sorted
  passed_of_mem := fun _ _ => trivial
  emitted := fun k s hl _ ht => by
    by_cases hp : passed k
    · exact h.emitted k s hl hp ht
    · exact nomatch (hskip k hp).1.symm.trans hl
  covered := fun k s hl _ hsn => by
    by_cases hp : passed k
    · exact h.covered k s hl hp hsn
    · exact nomatch (hskip k hp).1.symm.trans hl
  carried := fun k hl _ => by
    by_cases hp : passed k
    · exact h.carried k hl hp
    · rw [h.stagedBinding_eq_none hp, (hskip k hp).2]

/-! ## Switching to the generation -/

/-- The namespace switched to the generation staged. -/
def adopt (ns : Namespace L) (tag : UInt8) (generation : ℕ) (staged : List SnapRecord) :
    Namespace L :=
  { ns with
    bindings := ns.bindings.finalizeEmitted tag
    snap := some ⟨generation, staged⟩ }

/-- **A finished capture is a coherent lower tier.** -/
theorem sound_adopt (h : Captures ns tag (fun _ => True) staged) (hs : ns.Sound)
    (generation : ℕ) : (adopt ns tag generation staged).Sound := by
  obtain ⟨ha, hl⟩ := hs.arena.finalizeEmitted_spec tag
  refine ⟨ha, fun g hg => ?_, fun k s hks hsn => ?_⟩
  · cases hg
    exact h.sorted
  · have hks' : (ns.bindings.lookup k).map (BindingSlot.promote tag) = some s := by
      rw [← hl k]
      exact hks
    obtain ⟨t, ht, rfl⟩ := Option.map_eq_some_iff.mp hks'
    rw [Arena.toBinding_promote]
    refine h.emitted k t ht trivial ?_
    by_contra hne
    refine hne (h.covered k t ht trivial ?_)
    unfold BindingSlot.promote at hsn
    rwa [if_neg hne] at hsn

/-- **Switching generations does not change the view.** -/
theorem view_adopt (h : Captures ns tag (fun _ => True) staged) (hs : ns.Sound)
    (generation : ℕ) : (adopt ns tag generation staged).view = ns.view := by
  obtain ⟨-, hl⟩ := hs.arena.finalizeEmitted_spec tag
  funext k
  cases hk : ns.bindings.lookup k with
  | some s =>
    have hk' : (adopt ns tag generation staged).bindings.lookup k = some (s.promote tag) := by
      rw [show (adopt ns tag generation staged).bindings = ns.bindings.finalizeEmitted tag
        from rfl, hl k, hk]
      rfl
    rw [Namespace.view_of_lookup hk, Namespace.view_of_lookup hk', Arena.toBinding_promote]
  | none =>
    have hk' : (adopt ns tag generation staged).bindings.lookup k = none := by
      rw [show (adopt ns tag generation staged).bindings = ns.bindings.finalizeEmitted tag
        from rfl, hl k, hk]
      rfl
    rw [Namespace.view_of_lookup_none hk, Namespace.view_of_lookup_none hk']
    exact h.carried k hk trivial

end Captures

end Loam

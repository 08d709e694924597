import Loam.Seeds
import Mathlib.Data.List.Induction

/-!
# A merge from its beginning to its end

A compaction merges the arena, in key order, with the old generation, while
records and provider calls go on changing the arena. What comes out is not the
arena at any one instant: each record is its key's binding *at the step that
emitted it*, and what was written after that step is for the rotated log to
carry. Which slots those are is what the tags say, and the tags speak of what
happened since: a slot written after it was emitted has lost its tag, even if
it was written back to the revision, or to the very binding, that the
generation holds. So the slots counted as covered are those emitted and
untouched since (`Node.UntouchedSince`), and not all whose revision the
generation holds.

`Stages` is what one event of a merge does, and everything is derived from it
over the events since the merge began (`MergeTrace`).
-/

namespace Loam

namespace Node

variable {L : Limits} {n m : Node L} {es : List Event} {e : Event} {k : Key}

/-! ## One event of a merge -/

/-- What an event of a merge stages. The keys the cursor moves over are in
neither tier, but for the one staged. -/
inductive Stages (n m : Node L) : Prop where
  | nothing : m.cmp.staged = n.cmp.staged → n.ns.bindings.Evolves m.ns.bindings →
      (∀ k, m.cmp.passed k →
        n.cmp.passed k ∨ m.ns.bindings.lookup k = none ∧ n.ns.view k = none) →
      Stages n m
  | slot (s : BindingSlot) : m.cmp.staged = n.cmp.staged ++ [s.record] →
      n.ns.bindings.lookup s.toKey = some s →
      (∀ k, m.ns.bindings.lookup k = if k = s.toKey then
        some { s with cmpEmitted := emitTag n.cmp.generation } else n.ns.bindings.lookup k) →
      (∀ k, m.cmp.passed k → n.cmp.passed k ∨ k = s.toKey ∨ n.ns.view k = none) →
      Stages n m
  /-- A record of the old generation, of a key the arena does not hold. -/
  | record (r : SnapRecord) (g : Snapshot) : m.cmp.staged = n.cmp.staged ++ [r] →
      n.ns.bindings.lookup r.toKey = none → g ∈ n.ns.snap → r ∈ g.records →
      m.ns.bindings = n.ns.bindings →
      (∀ k, m.cmp.passed k → n.cmp.passed k ∨ k = r.toKey ∨ n.ns.view k = none) →
      Stages n m

/-- An event that leaves the instance as it is stages nothing. -/
theorem Coherent.stages_self (h : n.Coherent) : Stages n n :=
  .nothing rfl h.sound.arena.evolves_refl fun _ hk => .inl hk

/-- A key the cursor moves over is in neither tier. -/
theorem Coherent.view_eq_none (h : n.Coherent) (hph : n.cmp.phase = .merge)
    (hk : ¬ n.cmp.passed k) (hl : n.ns.bindings.lookup k = none)
    (hrest : ∀ g ∈ n.ns.snap, ∀ i r, g.records[i]? = some r → n.cmp.snapIdx ≤ i → r.toKey ≠ k) :
    n.ns.view k = none := by
  rw [Namespace.view_of_lookup_none hl]
  exact h.snapBinding_eq_none hph hk hrest

theorem Coherent.stages_slot (h : n.Coherent) (hph : n.cmp.phase = .merge) {s : BindingSlot}
    {i : ℕ} {superseded : Bool} (hmin : n.ns.bindings.minKeyAbove n.cmp.last = some (s, i))
    (hold : ∀ g ∈ n.ns.snap, ∀ j q, g.records[j]? = some q → n.cmp.snapIdx ≤ j →
      s.toKey ≤ q.toKey) : Stages n (n.emitSlot s i superseded) := by
  obtain ⟨hm, -, hle⟩ := Arena.minKeyAbove_eq_some hmin
  obtain ⟨-, hl⟩ := h.sound.arena.markEmitted_spec hm (emitTag n.cmp.generation)
  refine .slot s rfl (h.sound.arena.lookup_of_mem hm) hl fun k hk => ?_
  have hks : k ≤ s.toKey := (@passed_advanced L n s.record superseded hph k).mp hk
  by_cases hp : n.cmp.passed k
  · exact .inl hp
  by_cases hne : k = s.toKey
  · exact .inr (.inl hne)
  have hlt : k < s.toKey := lt_of_le_of_ne hks hne
  refine .inr (.inr (h.view_eq_none hph hp ?_ fun g hg j q hj hge he => ?_))
  · rw [Arena.lookup_eq_none_iff]
    rintro t j ht rfl
    exact absurd (hle (t, j) ht ((not_passed_iff hph _).mp hp)) (not_le_of_gt hlt)
  · exact absurd (hold g hg j q hj hge) (not_le_of_gt (he ▸ hlt))

theorem Coherent.stages_record (h : n.Coherent) (hph : n.cmp.phase = .merge) {g : Snapshot}
    (hg : g ∈ n.ns.snap) {r : SnapRecord} (hr : g.records[n.cmp.snapIdx]? = some r)
    (hempty : ∀ k, k ≤ r.toKey → ¬ n.cmp.passed k → n.ns.bindings.lookup k = none) :
    Stages n (n.emitRecord r) := by
  have hnot : ¬ n.cmp.passed r.toKey := fun hp =>
    absurd ((h.cursor hph g hg _ _ hr).mpr hp) (Nat.lt_irrefl _)
  refine .record r g rfl (hempty _ le_rfl hnot) hg (List.mem_of_getElem? hr) rfl fun k hk => ?_
  have hkr : k ≤ r.toKey := (@passed_advanced L n r true hph k).mp hk
  by_cases hp : n.cmp.passed k
  · exact .inl hp
  by_cases hne : k = r.toKey
  · exact .inr (.inl hne)
  have hlt : k < r.toKey := lt_of_le_of_ne hkr hne
  refine .inr (.inr (h.view_eq_none hph hp (hempty k hkr hp) fun g' hg' j q hj hge he => ?_))
  obtain rfl := Option.some.inj (hg.symm.trans hg')
  exact absurd (h.old_le hg hr hj hge) (not_le_of_gt (he ▸ hlt))

/-- **One record of the merge**: unless it is given up, it stages a slot, a
record or nothing. -/
theorem Coherent.mergeRecord_stages (h : n.Coherent) (io : ReadEnv)
    (hc : (n.mergeRecord io).cmp.phase ≠ .idle) :
    (n.mergeRecord io).ns.snap = n.ns.snap ∧
      (n.mergeRecord io).cmp.generation = n.cmp.generation ∧ Stages n (n.mergeRecord io) := by
  have hstep := h.mergeStep io
  generalize n.mergeRecord io = n' at hstep hc ⊢
  cases hstep with
  | still => exact ⟨rfl, rfl, h.stages_self⟩
  | aborted => exact absurd rfl hc
  | slot s i superseded hph hmin hold hnext => exact ⟨rfl, rfl, h.stages_slot hph hmin hold⟩
  | record g r hph hg hr hempty => exact ⟨rfl, rfl, h.stages_record hph hg hr hempty⟩
  | ended hph hempty hspent =>
    refine ⟨rfl, rfl, .nothing rfl h.sound.arena.evolves_refl fun k _ => ?_⟩
    by_cases hp : n.cmp.passed k
    · exact .inl hp
    exact .inr ⟨hempty k hp, h.view_eq_none hph hp (hempty k hp) fun g hg i q hi hge =>
      absurd hge (hspent g hg i q hi)⟩

/-- **What an event does while keys are being captured.** -/
theorem Coherent.stages (h : n.Coherent) (hc : n.cmp.capturing) (hc' : (n.step e).cmp.capturing) :
    (n.step e).ns.snap = n.ns.snap ∧ (n.step e).cmp.generation = n.cmp.generation ∧
      Stages n (n.step e) := by
  have hself : n.step e = n → (n.step e).ns.snap = n.ns.snap ∧
      (n.step e).cmp.generation = n.cmp.generation ∧ Stages n (n.step e) := by
    intro he
    rw [he]
    exact ⟨rfl, rfl, h.stages_self⟩
  have hidle : ∀ c : Compactor, c.capturing → c.phase ≠ .idle := by
    rintro c (hp | hp | hp) hi <;> rw [hp] at hi <;> cases hi
  have hno : n.cmp.phase ≠ .idle ∧ n.cmp.phase ≠ .opening ∧ n.cmp.phase ≠ .rotate := by
    rcases hc with hp | hp | hp <;> rw [hp] <;> refine ⟨?_, ?_, ?_⟩ <;> intro hi <;> cases hi
  cases e with
  | feed r io proof =>
    rcases feed_cases n r io proof with he | ⟨hns, hcmp, -⟩
    · exact hself he
    simp only [Node.step]
    refine ⟨by rw [hns, h.sound.snap_applyOp], by rw [hcmp], .nothing (by rw [hcmp]) ?_ ?_⟩
    · rw [hns]
      exact h.sound.applyOp_evolves io r
    · rw [hcmp]
      exact fun k hk => .inl hk
  | surface op io now =>
    obtain ⟨hns, he⟩ := (h.sound.surfaceOp_outcome h.fits io now op).evolves h.sound
    refine ⟨?_, rfl, .nothing rfl he fun k hk => .inl hk⟩
    show (surfaceOp n.ns io now op).1.snap = n.ns.snap
    rw [hns]
  | merge io => exact h.mergeRecord_stages io (hidle _ hc')
  | compactStart => exact hself (if_neg fun hp => hno.1 hp.1)
  | openDone => exact hself (if_neg hno.2.1)
  | openFailed unlinked => exact hself (if_neg hno.2.1)
  | rotate outcome => exact hself (if_neg hno.2.2)
  | crash => exact absurd rfl (hidle _ hc')
  | finishDone =>
    by_cases hp : n.cmp.phase = .finish
    · rw [show n.step .finishDone = n.finishDone from rfl] at hc' ⊢
      unfold Node.finishDone at hc' ⊢
      rw [if_pos hp]
      exact ⟨rfl, rfl, .nothing rfl h.sound.arena.evolves_refl fun k _ =>
        .inl (n.cmp.passed_of_ne (hp ▸ by decide) k)⟩
    · exact hself (if_neg hp)
  | mergeFailed =>
    by_cases hp : n.cmp.phase = .merge
    · rw [show n.step .mergeFailed = n.abort from if_pos hp] at hc'
      exact absurd rfl (hidle _ hc')
    · exact hself (if_neg hp)
  | finishFailed durable =>
    by_cases hp : n.cmp.phase = .finish
    · simp only [Node.step, Node.finishFailed, if_pos hp] at hc'
      exact absurd rfl (hidle _ hc')
    · exact hself (if_neg hp)
  | reopenDone =>
    by_cases hp : n.cmp.phase = .reopen
    · simp only [Node.step, Node.reopenDone, if_pos hp] at hc'
      rcases hc' with hq | hq | hq <;> dsimp only at hq <;> split at hq <;> cases hq
    · exact hself (if_neg hp)
  | reopenFailed =>
    by_cases hp : n.cmp.phase = .reopen
    · rw [show n.step .reopenFailed = n.abort from if_pos hp] at hc'
      exact absurd rfl (hidle _ hc')
    · exact hself (if_neg hp)

/-! ## The events since the merge began -/

/-- Keys are being captured all along. -/
def Merging (n : Node L) (es : List Event) : Prop :=
  ∀ pre, pre <+: es → (n.run pre).cmp.capturing

/-- The event emits the record. -/
def Emits (n : Node L) (e : Event) (r : SnapRecord) : Prop :=
  (n.step e).cmp.staged = n.cmp.staged ++ [r]

/-- The record is its key's slot in the arena, or a record of the old
generation of which the arena holds no slot. -/
def Current (n : Node L) (r : SnapRecord) : Prop :=
  (∃ s, n.ns.bindings.lookup r.toKey = some s ∧ s.record = r) ∨
    n.ns.bindings.lookup r.toKey = none ∧ ∃ g ∈ n.ns.snap, r ∈ g.records

/-- One of the events emitted the record, as the tiers then held it. -/
def EmittedIn (n : Node L) (es : List Event) (r : SnapRecord) : Prop :=
  ∃ pre e post, es = pre ++ e :: post ∧ (n.run pre).Emits e r ∧ (n.run pre).Current r

/-- One of the events emitted the key's slot, and no event has touched the slot
since. -/
def UntouchedSince (n : Node L) (es : List Event) (k : Key) : Prop :=
  ∃ pre e post s, es = pre ++ e :: post ∧ (n.run pre).ns.bindings.lookup k = some s ∧
    (n.run pre).Emits e s.record ∧ ∀ mid, mid <+: post →
      (n.run (pre ++ e :: mid)).ns.bindings.lookup k = (n.run (pre ++ [e])).ns.bindings.lookup k

theorem run_concat (es : List Event) (e : Event) : n.run (es ++ [e]) = (n.run es).step e :=
  Run.run_append

theorem Coherent.run (h : n.Coherent) (es : List Event) : (n.run es).Coherent :=
  Run.invariant_all (fun _ e hn => hn.step e) h es

theorem Merging.of_concat (h : n.Merging (es ++ [e])) : n.Merging es :=
  fun pre hp => h pre (hp.trans (List.prefix_append es [e]))

theorem Merging.last (h : n.Merging es) : (n.run es).cmp.capturing := h es (List.prefix_refl es)

theorem EmittedIn.concat {r : SnapRecord} (h : n.EmittedIn es r) (e : Event) :
    n.EmittedIn (es ++ [e]) r := by
  obtain ⟨pre, f, post, rfl, hf⟩ := h
  exact ⟨pre, f, post ++ [e], by simp, hf⟩

/-- A slot untouched stays so over an event that keeps it. -/
theorem UntouchedSince.concat (h : n.UntouchedSince es k)
    (hk : (n.run (es ++ [e])).ns.bindings.lookup k = (n.run es).ns.bindings.lookup k) :
    n.UntouchedSince (es ++ [e]) k := by
  obtain ⟨pre, f, post, s, rfl, hl, hf, hsame⟩ := h
  refine ⟨pre, f, post ++ [e], s, by simp, hl, hf, fun mid hm => ?_⟩
  rcases List.prefix_concat_iff.mp hm with rfl | hm
  · rw [show pre ++ f :: (post ++ [e]) = pre ++ f :: post ++ [e] by simp, hk]
    exact hsame post (List.prefix_refl post)
  · exact hsame mid hm

/-- A key of either tier stays in one while the arena evolves. -/
theorem view_ne_none_of_evolves {ns ns' : Namespace L} (h : ns.Sound)
    (he : ns.bindings.Evolves ns'.bindings) (hsnap : ns'.snap = ns.snap)
    (hk : ns.view k ≠ none) : ns'.view k ≠ none := by
  rcases he.slot k with hsame | ⟨hn, s, hs, hsn⟩ | ⟨s, hs, -⟩
  · rwa [Namespace.view, Arena.binding, hsame, hsnap]
  · rw [Namespace.view_of_lookup_none hn, hsnap, h.covered k s hs hsn]
    exact Option.some_ne_none _
  · rw [Namespace.view_of_lookup hs]
    exact Option.some_ne_none _

/-- **What is known of a merge from the events since it began.** -/
structure MergeTrace (n : Node L) (es : List Event) : Prop where
  /-- The old generation is open still. -/
  snap : (n.run es).ns.snap = n.ns.snap
  generation : (n.run es).cmp.generation = n.cmp.generation
  /-- A key held as the merge began is held still, and staged once passed. -/
  kept : ∀ k, n.ns.view k ≠ none → (n.run es).ns.view k ≠ none ∧
    ((n.run es).cmp.passed k → ∃ q ∈ (n.run es).cmp.staged, q.toKey = k)
  values : ∀ r ∈ (n.run es).cmp.staged, n.EmittedIn es r
  /-- A tagged slot that was passed is untouched since it was emitted. -/
  since : ∀ k s, (n.run es).ns.bindings.lookup k = some s → (n.run es).cmp.passed k →
    s.cmpEmitted = emitTag n.cmp.generation → n.UntouchedSince es k

namespace MergeTrace

theorem nil (hs : n.cmp.staged = []) (hp : ∀ k, ¬ n.cmp.passed k) : n.MergeTrace [] where
  snap := rfl
  generation := rfl
  kept := fun k hk => ⟨hk, fun hc => absurd hc (hp k)⟩
  values := fun r hr => by
    rw [show (n.run []).cmp.staged = n.cmp.staged from rfl, hs] at hr
    cases hr
  since := fun k _ _ hc => absurd hc (hp k)

theorem kept_append (h : n.MergeTrace es) {r : SnapRecord}
    (hst : m.cmp.staged = (n.run es).cmp.staged ++ [r])
    (hpass : ∀ k, m.cmp.passed k →
      (n.run es).cmp.passed k ∨ k = r.toKey ∨ (n.run es).ns.view k = none)
    (hk : n.ns.view k ≠ none) (hp : m.cmp.passed k) : ∃ q ∈ m.cmp.staged, q.toKey = k := by
  rw [hst]
  rcases hpass k hp with hp | rfl | hn
  · obtain ⟨q, hq, he⟩ := (h.kept k hk).2 hp
    exact ⟨q, List.mem_append_left _ hq, he⟩
  · exact ⟨r, List.mem_append_right _ (List.mem_singleton_self r), rfl⟩
  · exact absurd hn (h.kept k hk).1

theorem values_append (h : n.MergeTrace es) {r : SnapRecord}
    (hst : ((n.run es).step e).cmp.staged = (n.run es).cmp.staged ++ [r])
    (hr : (n.run es).Current r) :
    ∀ q ∈ ((n.run es).step e).cmp.staged, n.EmittedIn (es ++ [e]) q := by
  intro q hq
  rw [hst] at hq
  rcases List.mem_append.mp hq with hq | hq
  · exact (h.values q hq).concat e
  rw [List.mem_singleton.mp hq]
  exact ⟨es, e, [], rfl, hst, hr⟩

/-- **One more event of the merge.** -/
theorem concat (h : n.MergeTrace es) (hco : (n.run es).Coherent)
    (hc : (n.run es).cmp.capturing) (hc' : ((n.run es).step e).cmp.capturing) :
    n.MergeTrace (es ++ [e]) := by
  obtain ⟨hsnap, hgen, hst⟩ := hco.stages hc hc'
  rw [← run_concat] at hsnap hgen hst
  have hsame : ∀ k s, (n.run (es ++ [e])).ns.bindings.lookup k = some s →
      (n.run es).ns.bindings.lookup k = some s → (n.run es).cmp.passed k →
      s.cmpEmitted = emitTag n.cmp.generation → n.UntouchedSince (es ++ [e]) k :=
    fun k s hl hl' hp ht => (h.since k s hl' hp ht).concat (hl.trans hl'.symm)
  cases hst with
  | nothing hstaged he hpass =>
    refine ⟨hsnap.trans h.snap, hgen.trans h.generation, fun k hk => ?_, fun r hr => ?_,
      fun k s hl hp ht => ?_⟩
    · obtain ⟨hv, hin⟩ := h.kept k hk
      refine ⟨view_ne_none_of_evolves hco.sound he hsnap hv, fun hp => ?_⟩
      rw [hstaged]
      rcases hpass k hp with hp | ⟨-, hn⟩
      · exact hin hp
      · exact absurd hn hv
    · rw [hstaged] at hr
      exact (h.values r hr).concat e
    · rcases hpass k hp with hp | ⟨hn, -⟩
      · rcases he.slot k with heq | ⟨hn, -⟩ | ⟨t, ht', -, hzero⟩
        · exact hsame k s hl (heq ▸ hl) hp ht
        · exact nomatch hn.symm.trans hl
        · obtain rfl := Option.some.inj (ht'.symm.trans hl)
          exact absurd (ht.symm.trans hzero) (emitTag_ne_zero _)
      · exact nomatch hn.symm.trans hl
  | slot s hstaged hls hmap hpass =>
    have hview : ∀ k, (n.run es).ns.view k ≠ none → (n.run (es ++ [e])).ns.view k ≠ none := by
      intro k hk
      by_cases hks : k = s.toKey
      · rw [Namespace.view_of_lookup ((hmap k).trans (if_pos hks))]
        exact Option.some_ne_none _
      · rwa [Namespace.view, Arena.binding, hmap k, if_neg hks, hsnap]
    refine ⟨hsnap.trans h.snap, hgen.trans h.generation, fun k hk =>
      ⟨hview k (h.kept k hk).1, h.kept_append hstaged hpass hk⟩, ?_, fun k t hl hp ht => ?_⟩
    · rw [run_concat] at hstaged ⊢
      exact h.values_append hstaged (.inl ⟨s, hls, rfl⟩)
    · by_cases hks : k = s.toKey
      · refine ⟨es, e, [], s, rfl, hks ▸ hls, by rwa [run_concat] at hstaged, fun mid hm => ?_⟩
        rw [List.prefix_nil.mp hm]
      have hl' := (hmap k).symm.trans hl
      rw [if_neg hks] at hl'
      rcases hpass k hp with hp | hk | hn
      · exact hsame k t hl hl' hp ht
      · exact absurd hk hks
      · rw [Namespace.view_of_lookup hl'] at hn
        cases hn
  | record r g hstaged hlr hg hr hb hpass =>
    have hview : (n.run (es ++ [e])).ns.view = (n.run es).ns.view := by
      funext k
      rw [Namespace.view, Namespace.view, hb, hsnap]
    refine ⟨hsnap.trans h.snap, hgen.trans h.generation, fun k hk =>
      ⟨by rw [hview]; exact (h.kept k hk).1, h.kept_append hstaged hpass hk⟩, ?_,
      fun k t hl hp ht => ?_⟩
    · rw [run_concat] at hstaged ⊢
      exact h.values_append hstaged (.inr ⟨hlr, g, hg, hr⟩)
    · have hl' : (n.run es).ns.bindings.lookup k = some t := hb ▸ hl
      rcases hpass k hp with hp | rfl | hn
      · exact hsame k t hl hl' hp ht
      · exact nomatch hlr.symm.trans hl'
      · rw [Namespace.view_of_lookup hl'] at hn
        cases hn

/-- **The trace of a merge.** -/
theorem of_merging (h : n.Coherent) (hs : n.cmp.staged = []) (hp : ∀ k, ¬ n.cmp.passed k)
    (hm : n.Merging es) : n.MergeTrace es := by
  induction es using List.reverseRecOn with
  | nil => exact nil hs hp
  | append_singleton es e ih =>
    refine (ih hm.of_concat).concat (h.run es) hm.of_concat.last ?_
    rw [← run_concat]
    exact hm.last

end MergeTrace

/-- A slot untouched since it was emitted carries the tag. -/
theorem UntouchedSince.tagged (hu : n.UntouchedSince es k) (h : n.Coherent) (hm : n.Merging es)
    (ht : ∀ pre, pre <+: es → (n.run pre).cmp.generation = n.cmp.generation) :
    ∃ s, (n.run es).ns.bindings.lookup k = some s ∧ s.cmpEmitted = emitTag n.cmp.generation := by
  obtain ⟨pre, e, post, s, rfl, hl, hst, hsame⟩ := hu
  have hpre : pre <+: pre ++ e :: post := List.prefix_append _ _
  have hone : pre ++ [e] <+: pre ++ e :: post := ⟨post, by simp⟩
  have hc' := hm _ hone
  rw [run_concat] at hc'
  obtain ⟨-, -, hstages⟩ := (h.run pre).stages (hm _ hpre) hc'
  have hks : s.record.toKey = k := Arena.toKey_of_lookup hl
  have hlast := hsame post (List.prefix_refl post)
  rw [run_concat] at hlast
  rw [hlast]
  cases hstages with
  | nothing he => exact absurd (hst.symm.trans he) (by simp)
  | slot t he hlt hmap =>
    have hrec : t.record = s.record := by simpa using List.append_cancel_left (he.symm.trans hst)
    have hkt : t.toKey = k := (congrArg SnapRecord.toKey hrec).trans hks
    refine ⟨_, (hmap k).trans (if_pos hkt.symm), ?_⟩
    dsimp only
    rw [ht _ hpre]
  | record r g he hlr =>
    have hrec : r = s.record := by simpa using List.append_cancel_left (he.symm.trans hst)
    rw [hrec, hks, hl] at hlr
    cases hlr

/-! ## The end of a merge -/

/-- What the generation of a merge that has ended holds. `n` is the instance as
the merge began, `es` the events since. -/
structure MergeCorrect (n : Node L) (es : List Event) : Prop where
  sorted : SortedTable.Sorted SnapRecord.toKey (n.run es).written.records
  old_kept : ∀ g ∈ n.ns.snap, ∀ r ∈ g.records,
    ∃ q ∈ (n.run es).written.records, q.toKey = r.toKey
  /-- It has every key the arena held as the merge began. -/
  arena_kept : ∀ k, n.ns.bindings.lookup k ≠ none →
    ∃ q ∈ (n.run es).written.records, q.toKey = k
  /-- A record is its key's slot as it was emitted, or the old generation's. -/
  values : ∀ r ∈ (n.run es).written.records, n.EmittedIn es r

/-- What holds once the generation is open. -/
structure ReopenCorrect (n : Node L) (es : List Event) : Prop where
  opened : (n.run es).reopenDone.ns.snap = some (n.run es).written
  /-- The slots covered are those emitted and untouched since. -/
  covered_iff : ∀ k s, (n.run es).reopenDone.ns.bindings.lookup k = some s →
    (s.snapshotted = true ↔ n.UntouchedSince es k)
  /-- A slot covered is in the generation as it stands. -/
  recorded : ∀ k s, (n.run es).reopenDone.ns.bindings.lookup k = some s → s.snapshotted = true →
    snapBinding (n.run es).reopenDone.ns.snap k = some s.toBinding
  /-- The rest, as the seeds of the rotated log, lose nothing that is past the
  generation's revision. -/
  reseeded : (∀ s ∈ (n.run es).reopenDone.uncovered, s.PastOrSame (n.run es).reopenDone.ns.snap) →
    ∀ k, seen ((n.run es).reopenDone.reseeded.view k) = seen ((n.run es).reopenDone.ns.view k)

/-- **A merge is correct**, over every arena and every old generation, whatever
records and provider calls come between its slices. -/
theorem merge_correct (h : n.Coherent) (hph : n.cmp.phase = .opening)
    (hm : n.openDone.Merging es) :
    ((n.openDone.run es).cmp.phase ≠ .merge → n.openDone.MergeCorrect es) ∧
      ((n.openDone.run es).cmp.phase = .reopen → n.openDone.ReopenCorrect es) := by
  have hco := h.openDone
  have hopen : n.openDone.cmp.phase = .merge ∧ n.openDone.cmp.last = none ∧
      n.openDone.cmp.staged = [] := by
    obtain ⟨hlast, hstaged, -⟩ := h.fresh hph
    rw [Node.openDone, if_pos hph]
    exact ⟨rfl, hlast, hstaged⟩
  obtain ⟨hmerge, hlast, hstaged⟩ := hopen
  have hnone : ∀ k, ¬ n.openDone.cmp.passed k := fun k hk => by
    obtain ⟨l, hl, -⟩ := (passed_iff hmerge k).mp hk
    rw [hlast] at hl
    cases hl
  have hrun := hco.run es
  have htrace := MergeTrace.of_merging hco hstaged hnone hm
  refine ⟨fun hend => ?_, fun hre => ?_⟩
  · have hall : ∀ k, n.openDone.ns.view k ≠ none →
        ∃ q ∈ (n.openDone.run es).cmp.staged, q.toKey = k := fun k hk =>
      (htrace.kept k hk).2 (Compactor.passed_of_ne hend k)
    refine ⟨(hrun.capture hm.last).sorted, fun g hg r hr => hall _ ?_, fun k hk => hall k ?_,
      htrace.values⟩
    · cases hl : n.openDone.ns.bindings.lookup r.toKey with
      | some s =>
        rw [Namespace.view_of_lookup hl]
        exact Option.some_ne_none _
      | none =>
        rw [Namespace.view_of_lookup_none hl, Option.mem_def.mp hg, snapBinding_some,
          Snapshot.find, ((hco.sound.sorted g hg).find_eq_some_iff).mpr ⟨hr, rfl⟩]
        exact Option.some_ne_none _
    · obtain ⟨s, hs⟩ := Option.ne_none_iff_exists'.mp hk
      rw [Namespace.view_of_lookup hs]
      exact Option.some_ne_none _
  · have hns := hrun.reopenDone_ns hre
    have hcap := hrun.capture_all (.inr hre)
    have hback : (n.openDone.run es).reopenDone.Coherent := hrun.reopenDone
    have hmap := (hrun.sound.arena.finalizeEmitted_spec
      (emitTag (n.openDone.run es).cmp.generation)).2
    have hpromote : ∀ k s, (n.openDone.run es).reopenDone.ns.bindings.lookup k = some s →
        ∃ t, (n.openDone.run es).ns.bindings.lookup k = some t ∧
          t.promote (emitTag n.openDone.cmp.generation) = s := by
      intro k s hs
      rw [hns] at hs
      rw [← htrace.generation]
      exact Option.map_eq_some_iff.mp ((hmap k).symm.trans hs)
    refine ⟨by rw [hns]; rfl, fun k s hs => ⟨fun hsn => ?_, fun hu => ?_⟩,
      fun k s hs => hback.sound.covered k s hs, fun hpast k => hback.reseeded_seen hpast k⟩
    · obtain ⟨t, ht, rfl⟩ := hpromote k s hs
      have hpassed : (n.openDone.run es).cmp.passed k :=
        Compactor.passed_of_ne (hre ▸ by decide) k
      refine htrace.since k t ht hpassed ?_
      by_contra hne
      rw [BindingSlot.promote, if_neg hne] at hsn
      refine hne ?_
      rw [← htrace.generation]
      exact hcap.covered k t ht trivial hsn
    · obtain ⟨t, ht, rfl⟩ := hpromote k s hs
      have hgen : ∀ pre, pre <+: es →
          (n.openDone.run pre).cmp.generation = n.openDone.cmp.generation := fun pre hp =>
        (MergeTrace.of_merging hco hstaged hnone fun p hpp => hm p (hpp.trans hp)).generation
      obtain ⟨u, hu, htag⟩ := hu.tagged hco hm hgen
      obtain rfl := Option.some.inj (ht.symm.trans hu)
      rw [BindingSlot.promote, if_pos htag]

/-! A provider rename that is refused after the merge has emitted its source:
the source is put back as it was. -/

/-- The slots covered are those whose revision the open generation holds. -/
def CoversRecorded (n : Node L) : Prop :=
  ∀ k s, n.ns.bindings.lookup k = some s →
    (s.snapshotted = true ↔ ∃ g ∈ n.ns.snap, ∃ r ∈ g.records, r.toKey = k ∧ r.revision = s.revision)

instance (c : Compactor) : Decidable c.capturing := inferInstanceAs (Decidable (_ ∨ _))

/-- Keys are captured all along if they are from the start and after each
event. -/
theorem merging_of_allSteps (hc : n.cmp.capturing)
    (h : Run.AllSteps step (fun m e => (m.step e).cmp.capturing) n es) : n.Merging es := by
  rintro pre ⟨post, rfl⟩
  exact Run.invariant (I := fun m : Node L => m.cmp.capturing) (fun _ _ _ hc => hc) hc
    (Run.allSteps_append.mp h).1

/-- Another name is bound. -/
def exampleBind (name : UInt8) (revision : UInt64) : Event :=
  fed (.bind ⟨⟨[], [name]⟩, ⟨revision, 0, [2], Meta.none⟩, .any, 0⟩)

/-- An instance of which three slots of the four are in use, about to compact. -/
def exampleArmed : Node fourSlots :=
  reached fourSlots true (exampleBound ++ [exampleBind 97 1, exampleBind 200 1, .compactStart])

/-- The merge emits two bindings; a rename of the second to a name past the ceiling
is refused, and the first is bound anew; the merge goes on to its end. -/
def examplePutBack : List Event :=
  [.merge .allReady, .merge .allReady,
    .surface (.rename examplePath (List.replicate 161 1)) .allReady 9, exampleBind 97 2,
    .merge .allReady, .merge .allReady, .finishDone]

theorem coherent_exampleArmed : exampleArmed.Coherent := coherent_reached true _

theorem merging_examplePutBack : exampleArmed.openDone.Merging examplePutBack :=
  merging_of_allSteps (by decide +kernel) (by decide +kernel)

/-- **The slot put back is not covered**, though the generation holds its very
revision. -/
theorem put_back_uncovered :
    exampleArmed.Coherent ∧ exampleArmed.cmp.phase = .opening ∧
      exampleArmed.openDone.Merging examplePutBack ∧
      (exampleArmed.openDone.run examplePutBack).cmp.phase = .reopen ∧
      ¬ (exampleArmed.openDone.run examplePutBack).reopenDone.CoversRecorded := by
  refine ⟨coherent_exampleArmed, by decide +kernel, merging_examplePutBack, by decide +kernel,
    fun h => ?_⟩
  have hslot : ((exampleArmed.openDone.run examplePutBack).reopenDone.ns.bindings.lookup
      ⟨[], examplePath⟩).map (fun s => (s.snapshotted, s.revision)) = some (false, 5) := by
    decide +kernel
  have hsnap : ∃ g ∈ (exampleArmed.openDone.run examplePutBack).reopenDone.ns.snap,
      ⟨⟨[], examplePath⟩, ⟨5, 0, [1], Meta.none⟩⟩ ∈ g.records := by decide +kernel
  obtain ⟨s, hs, he⟩ := Option.map_eq_some_iff.mp hslot
  obtain ⟨hsn, hrev⟩ := Prod.mk.inj he
  obtain ⟨g, hg, hmem⟩ := hsnap
  have hcov := (h _ s hs).mpr ⟨g, hg, _, hmem, rfl, hrev.symm⟩
  exact nomatch hsn.symm.trans hcov

theorem merge_correct_witness :
    ((exampleArmed.openDone.run examplePutBack).cmp.phase ≠ .merge →
        exampleArmed.openDone.MergeCorrect examplePutBack) ∧
      ((exampleArmed.openDone.run examplePutBack).cmp.phase = .reopen →
        exampleArmed.openDone.ReopenCorrect examplePutBack) :=
  merge_correct coherent_exampleArmed (by decide +kernel) merging_examplePutBack

end Node

end Loam

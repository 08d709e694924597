import Loam.Listing

/-!
# What a walk takes

A walk in name order takes every live binding beyond its cursor once, in
ascending order, whichever tier holds it (`Namespace.Sound.walkOrdered`). At
each turn what it picks is the least key that awaits in either tier, with the
binding the view has of it (`Namespace.Next`), and where it stands in the
snapshot is behind no record that awaits (`Namespace.Stands`).
-/

namespace Loam

open Arena (Awaits)

/-! ## What a walk takes -/

/-- What `take` makes of entries in a row: it stops at the first it does not
take. -/
def takeAll {σ : Type} (take : σ → Listed → Option σ) : List Listed → σ → Bool × σ
  | [], w => (false, w)
  | e :: es, w =>
    match take w e with
    | none => (true, w)
    | some w => takeAll take es w

/-- The path and binding of an entry. -/
def Listed.entry (e : Listed) : Bytes × Binding := (e.path, e.binding)

namespace Arena

variable {root pre after after' : Bytes} {k : Key}

instance (root pre after : Bytes) : DecidablePred (Awaits root pre after) := fun _ =>
  inferInstanceAs (Decidable (_ ∧ _ ∧ _))

/-- What awaits beyond a later cursor awaits beyond an earlier one. -/
theorem Awaits.mono (h : Awaits root pre after' k)
    (hle : (⟨root, after⟩ : Key) ≤ ⟨root, after'⟩) : Awaits root pre after k :=
  ⟨h.1, h.2.1, hle.trans_lt h.2.2⟩

theorem Awaits.eq (h : Awaits root pre after k) : k = ⟨root, k.path⟩ := by
  obtain ⟨rfl, -⟩ := h
  rfl

end Arena

/-- Filtering by less leaves less, if an element is lost. -/
theorem length_filter_lt {α : Type} {p q : α → Bool} {l : List α} {a : α}
    (hqp : ∀ x ∈ l, q x = true → p x = true) (ha : a ∈ l) (hp : p a = true) (hq : q a = false) :
    (l.filter q).length < (l.filter p).length := by
  have hle : (l.filter q).length ≤ (l.filter p).length := by
    simp only [← List.countP_eq_length_filter]
    exact List.countP_mono_left hqp
  have hsub : List.Sublist (l.filter q) (l.filter p) := by
    have hqq : l.filter q = (l.filter p).filter q := by
      rw [List.filter_filter]
      refine List.filter_congr fun x hx => ?_
      cases hx' : q x with
      | false => rfl
      | true => simp [hqp x hx hx']
    rw [hqq]
    exact List.filter_sublist
  refine lt_of_le_of_ne hle fun he => ?_
  have hmem : a ∈ l.filter q := by
    rw [hsub.eq_of_length he]
    exact List.mem_filter.mpr ⟨ha, hp⟩
  rw [List.mem_filter, hq] at hmem
  exact nomatch hmem.2

namespace Namespace

variable {L : Limits} {ns : Namespace L} {io : ReadEnv} {root pre after start : Bytes} {σ : Type}

/-! ## What there is to list -/

/-- **The live bindings a listing is to give**, in strictly ascending order of
path. -/
structure IsListing (ns : Namespace L) (root pre after : Bytes) (es : List (Bytes × Binding)) :
    Prop where
  sorted : es.Pairwise fun e e' => (⟨root, e.1⟩ : Key) < ⟨root, e'.1⟩
  mem_iff : ∀ e, e ∈ es ↔ pre <+: e.1 ∧ (⟨root, after⟩ : Key) < ⟨root, e.1⟩ ∧
    ns.view ⟨root, e.1⟩ = some e.2 ∧ e.2.live = true

theorem snapBinding_eq_some {g : Snapshot} (hg : g.Sorted) {r : SnapRecord} (hr : r ∈ g.records) :
    snapBinding (some g) r.toKey = some r.toBinding := by
  rw [snapBinding_some, Snapshot.find, (SortedTable.Sorted.find_eq_some_iff hg).mpr ⟨hr, rfl⟩]
  rfl

theorem exists_of_snapBinding {k : Key} {b : Binding} (h : snapBinding ns.snap k = some b) :
    ∃ g ∈ ns.snap, ∃ r ∈ g.records, r.toKey = k ∧ r.toBinding = b := by
  cases hs : ns.snap with
  | none =>
    rw [hs] at h
    cases h
  | some g =>
    rw [hs, snapBinding_some] at h
    obtain ⟨r, hr, rfl⟩ := Option.map_eq_some_iff.mp h
    exact ⟨g, rfl, r, SortedTable.mem_of_find hr, SortedTable.key_of_find hr, rfl⟩

/-- A key of either tier is among the candidates. -/
theorem Sound.mem_candidates (h : ns.Sound) {k : Key} (hk : ns.view k ≠ none) :
    k ∈ ns.candidates := by
  rw [candidates, List.mem_append]
  cases hl : ns.bindings.lookup k with
  | some s =>
    obtain ⟨i, hm, rfl⟩ := h.arena.lookup_eq_some_iff.mp hl
    exact .inl (List.mem_map.mpr ⟨(s, i), hm, rfl⟩)
  | none =>
    rw [view_of_lookup_none hl] at hk
    obtain ⟨b, hb⟩ := Option.ne_none_iff_exists'.mp hk
    obtain ⟨g, hg, r, hr, rfl, -⟩ := exists_of_snapBinding hb
    rw [Option.mem_def.mp hg]
    exact .inr (List.mem_map_of_mem hr)

/-- The next entry of a walk, as the tiers have it: the least key that awaits,
with its binding. -/
structure Next (ns : Namespace L) (root pre after : Bytes) (e : Listed) : Prop where
  awaits : Awaits root pre after ⟨root, e.path⟩
  view : ns.view ⟨root, e.path⟩ = some e.binding
  least : ∀ k, Awaits root pre after k → ns.view k ≠ none → ⟨root, e.path⟩ ≤ k

theorem Next.cons {e : Listed} (hn : ns.Next root pre after e) {es : List (Bytes × Binding)}
    (h : ns.IsListing root pre e.path es) :
    ns.IsListing root pre after (if e.binding.live then e.entry :: es else es) := by
  have hrest : ∀ x : Bytes × Binding, ((⟨root, after⟩ : Key) < ⟨root, x.1⟩ ∧ pre <+: x.1 ∧
      ns.view ⟨root, x.1⟩ = some x.2 ∧ x.2.live = true) ↔
        (x = e.entry ∧ e.binding.live = true) ∨ x ∈ es := by
    intro x
    constructor
    · rintro ⟨hlt, hpre, hv, hlive⟩
      rcases eq_or_lt_of_le (hn.least ⟨root, x.1⟩ ⟨rfl, hpre, hlt⟩ (by simp [hv])) with heq | hlt'
      · have hp : e.path = x.1 := congrArg Key.path heq
        have hb : e.binding = x.2 := Option.some.inj (hn.view.symm.trans (hp ▸ hv))
        exact .inl ⟨Prod.ext hp.symm hb.symm, hb ▸ hlive⟩
      · exact .inr ((h.mem_iff x).mpr ⟨hpre, hlt', hv, hlive⟩)
    · rintro (⟨rfl, hlive⟩ | hx)
      · exact ⟨hn.awaits.2.2, hn.awaits.2.1, hn.view, hlive⟩
      · obtain ⟨hpre, hlt, hv, hlive⟩ := (h.mem_iff x).mp hx
        exact ⟨hn.awaits.2.2.trans hlt, hpre, hv, hlive⟩
  split
  · next hlive =>
    refine ⟨List.pairwise_cons.mpr ⟨fun x hx => ((h.mem_iff x).mp hx).2.1, h.sorted⟩, fun x => ?_⟩
    rw [List.mem_cons]
    have := hrest x
    tauto
  · next hlive =>
    refine ⟨h.sorted, fun x => ?_⟩
    have := hrest x
    tauto

theorem isListing_nil (h : ∀ k, Awaits root pre after k → ns.view k = none) :
    ns.IsListing root pre after [] :=
  ⟨List.Pairwise.nil, fun e => iff_of_false List.not_mem_nil fun ⟨hpre, hlt, hv, _⟩ =>
    nomatch (h ⟨root, e.1⟩ ⟨rfl, hpre, hlt⟩).symm.trans hv⟩

/-! ## One turn of the walk -/

/-- Where a walk stands in the snapshot: its records from the index on are
above the walk's start, and none before it awaits. -/
structure Stands (ns : Namespace L) (root pre start after : Bytes) (idx : ℕ) : Prop where
  above : ∀ g ∈ ns.snap, ∀ j r, g.records[j]? = some r → idx ≤ j →
    (⟨root, start⟩ : Key) < r.toKey
  before : ∀ g ∈ ns.snap, g.NoneBefore root pre after idx

/-- The walk's next record, every read deciding. -/
theorem Stands.nextRecord {idx : ℕ} (h : ns.Stands root pre start after idx) (hs : ns.Sound) :
    ∃ b idx', ns.nextRecord .allReady root pre after idx = .ready (b, idx') ∧
      ns.Stands root pre start after idx' ∧
      (∀ r ∈ b, ∃ g ∈ ns.snap, g.records[idx']? = some r ∧ Awaits root pre after r.toKey ∧
        ∀ q ∈ g.records, Awaits root pre after q.toKey → r.toKey ≤ q.toKey) ∧
      (b = none → ∀ g ∈ ns.snap, ∀ q ∈ g.records, ¬ Awaits root pre after q.toKey) := by
  unfold Namespace.nextRecord
  cases hg : ns.snap with
  | none => exact ⟨none, idx, rfl, h, nofun, fun _ g hc => nomatch hc⟩
  | some g =>
    have hsort := hs.sorted g hg
    obtain ⟨⟨b, idx'⟩, hb⟩ := g.exists_nextListed_allReady root pre after (g.count - idx) idx
    obtain ⟨hle, hbefore, hsome, hnone⟩ := hsort.nextListed_eq_ready (g.count - idx) idx
      (h.above g hg) (h.before g hg) le_rfl hb
    refine ⟨b, idx', hb, ⟨fun g' hg' j r hj hij => h.above g' hg' j r hj (hle.trans hij),
      fun g' hg' => ?_⟩, fun r hr => ?_, fun hn g' hg' => ?_⟩
    · obtain rfl := Option.some.inj (hg.symm.trans hg')
      exact hbefore
    · obtain ⟨hr, haw⟩ := hsome r hr
      refine ⟨g, rfl, hr, haw, fun q hq hqa => ?_⟩
      obtain ⟨j, hj⟩ := List.mem_iff_getElem?.mp hq
      by_contra hlt
      refine hbefore j q hj ?_ hqa
      exact (SortedTable.Sorted.key_lt_iff hsort hj hr).mp (not_le.mp hlt)
    · obtain rfl := Option.some.inj hg'
      exact hnone hn

/-- Moving the cursor to a key passed keeps the records before the index
behind. -/
theorem Stands.advance {idx : ℕ} (h : ns.Stands root pre start after idx) {path : Bytes}
    (hlt : (⟨root, after⟩ : Key) < ⟨root, path⟩) : ns.Stands root pre start path idx :=
  ⟨h.above, fun g hg j r hj hji haw => h.before g hg j r hj hji (haw.mono hlt.le)⟩

/-- And so does passing the record of that key. -/
theorem Stands.pass {idx : ℕ} (h : ns.Stands root pre start after idx) {g : Snapshot}
    (hg : g ∈ ns.snap) {r : SnapRecord} (hr : g.records[idx]? = some r) {path : Bytes}
    (hk : r.toKey = ⟨root, path⟩) (hlt : (⟨root, after⟩ : Key) < ⟨root, path⟩) :
    ns.Stands root pre start path (idx + 1) := by
  refine ⟨fun g' hg' j q hj hij => h.above g' hg' j q hj (by omega), fun g' hg' j q hj hji haw => ?_⟩
  rcases Nat.lt_succ_iff_lt_or_eq.mp hji with hji | rfl
  · exact h.before g' hg' j q hj hji (haw.mono hlt.le)
  obtain rfl := Option.some.inj (hg.symm.trans hg')
  rw [hr] at hj
  obtain rfl := Option.some.inj hj
  exact absurd haw.2.2 (hk ▸ lt_irrefl _)

/-- **One turn**: there is nothing left to list, or the entry picked is the
next, and the walk stands behind it. -/
theorem Stands.turn {idx : ℕ} (h : ns.Stands root pre start after idx) (hs : ns.Sound) :
    ∃ b idx', ns.nextRecord .allReady root pre after idx = .ready (b, idx') ∧
      ((ns.pickListed ((ns.bindings.nextListed root pre after).map Prod.fst) b = none ∧
          ∀ k, Awaits root pre after k → ns.view k = none) ∨
        ∃ e behind, ns.pickListed ((ns.bindings.nextListed root pre after).map Prod.fst) b
            = some (e, behind) ∧ ns.Next root pre after e ∧
          ns.Stands root pre start e.path (if behind then idx' + 1 else idx')) := by
  obtain ⟨b, idx', hb, hst, hsome, hnone⟩ := h.nextRecord hs
  refine ⟨b, idx', hb, ?_⟩
  have harena : ∀ {k : Key} {s : BindingSlot}, ns.bindings.lookup k = some s →
      ∃ i, (s, i) ∈ ns.bindings.occupied ∧ s.toKey = k := fun hl =>
    hs.arena.lookup_eq_some_iff.mp hl
  cases ha : ns.bindings.nextListed root pre after with
  | none =>
    have hempty : ∀ k, Awaits root pre after k → ns.bindings.lookup k = none := by
      intro k hk
      by_contra hc
      obtain ⟨s, hs'⟩ := Option.ne_none_iff_exists'.mp hc
      obtain ⟨i, hm, rfl⟩ := harena hs'
      exact Arena.nextListed_eq_none ha hm hk
    cases b with
    | none =>
      refine .inl ⟨rfl, fun k hk => ?_⟩
      rw [view_of_lookup_none (hempty k hk)]
      by_contra hc
      obtain ⟨b, hb⟩ := Option.ne_none_iff_exists'.mp hc
      obtain ⟨g, hg, r, hr, rfl, -⟩ := exists_of_snapBinding hb
      exact hnone rfl g hg r hr hk
    | some r =>
      obtain ⟨g, hg, hr, haw, hle⟩ := hsome r rfl
      have hk := haw.eq
      refine .inr ⟨ns.recordListed r, true, rfl, ⟨hk ▸ haw, ?_, fun k hka hv => ?_⟩,
        hst.pass hg hr hk (hk ▸ haw.2.2)⟩
      · rw [show (⟨root, (ns.recordListed r).path⟩ : Key) = r.toKey from hk.symm,
          view_of_lookup_none (hempty _ haw), Option.mem_def.mp hg,
          snapBinding_eq_some (hs.sorted g hg) (List.mem_of_getElem? hr)]
        rfl
      · rw [show (⟨root, (ns.recordListed r).path⟩ : Key) = r.toKey from hk.symm]
        rw [view_of_lookup_none (hempty k hka)] at hv
        obtain ⟨b, hb⟩ := Option.ne_none_iff_exists'.mp hv
        obtain ⟨g', hg', q, hq, rfl, -⟩ := exists_of_snapBinding hb
        obtain rfl := Option.some.inj (hg.symm.trans hg')
        exact hle q hq hka
  | some p =>
    obtain ⟨s, i⟩ := p
    obtain ⟨hm, haw, hle⟩ := Arena.nextListed_eq_some ha
    have hk := haw.eq
    have hleast : ∀ k, Awaits root pre after k → ∀ t, ns.bindings.lookup k = some t →
        s.toKey ≤ k := by
      intro k hka t ht
      obtain ⟨j, hmt, rfl⟩ := harena ht
      exact hle (t, j) hmt hka
    have hview : ns.view ⟨root, s.path⟩ = some s.toBinding := by
      rw [show (⟨root, s.path⟩ : Key) = s.toKey from hk.symm]
      exact view_of_lookup (hs.arena.lookup_of_mem hm)
    have hlow : (∀ g ∈ ns.snap, ∀ q ∈ g.records, Awaits root pre after q.toKey →
        s.toKey ≤ q.toKey) → ns.Next root pre after (slotListed s) := by
      intro hq
      refine ⟨hk ▸ haw, hview, fun k hka hv => ?_⟩
      rw [show (⟨root, (slotListed s).path⟩ : Key) = s.toKey from hk.symm]
      cases hl : ns.bindings.lookup k with
      | some t => exact hleast k hka t hl
      | none =>
        rw [view_of_lookup_none hl] at hv
        obtain ⟨b, hb⟩ := Option.ne_none_iff_exists'.mp hv
        obtain ⟨g, hg, q, hqm, rfl, -⟩ := exists_of_snapBinding hb
        exact hq g hg q hqm hka
    have hadv : (⟨root, after⟩ : Key) < ⟨root, s.path⟩ := hk ▸ haw.2.2
    cases b with
    | none =>
      exact .inr ⟨slotListed s, false, rfl,
        hlow fun g hg q hq hqa => absurd hqa (hnone rfl g hg q hq), hst.advance hadv⟩
    | some r =>
      obtain ⟨g, hg, hr, hrw, hrle⟩ := hsome r rfl
      have hkr := hrw.eq
      have hmin : s.toKey ≤ r.toKey → ns.Next root pre after (slotListed s) := fun hsr =>
        hlow fun g' hg' q hq hqa => by
          obtain rfl := Option.some.inj (hg.symm.trans hg')
          exact hsr.trans (hrle q hq hqa)
      have hcmp : keyCmp s.toKey r.toKey = bytesCmp s.path r.path := by
        rw [keyCmp, haw.1, hrw.1, bytesCmp_eq_iff.mpr rfl]
      simp only [pickListed, Option.map_some]
      cases ho : bytesCmp s.path r.path with
      | lt =>
        exact .inr ⟨slotListed s, false, rfl, hmin (keyCmp_lt_iff.mp (hcmp.trans ho)).le,
          hst.advance hadv⟩
      | eq =>
        have heq : s.toKey = r.toKey := keyCmp_eq_iff.mp (hcmp.trans ho)
        exact .inr ⟨slotListed s, true, rfl, hmin heq.le,
          hst.pass hg hr (heq.symm.trans hk) hadv⟩
      | gt =>
        have hgt : r.toKey < s.toKey := keyCmp_gt_iff.mp (hcmp.trans ho)
        have hnot : ns.bindings.lookup r.toKey = none := by
          by_contra hc
          obtain ⟨t, ht⟩ := Option.ne_none_iff_exists'.mp hc
          exact absurd (hleast _ hrw t ht) (not_le.mpr hgt)
        refine .inr ⟨ns.recordListed r, true, rfl, ⟨hkr ▸ hrw, ?_, fun k hka hv => ?_⟩,
          hst.pass hg hr hkr (hkr ▸ hrw.2.2)⟩
        · rw [show (⟨root, (ns.recordListed r).path⟩ : Key) = r.toKey from hkr.symm,
            view_of_lookup_none hnot, Option.mem_def.mp hg,
            snapBinding_eq_some (hs.sorted g hg) (List.mem_of_getElem? hr)]
          rfl
        · rw [show (⟨root, (ns.recordListed r).path⟩ : Key) = r.toKey from hkr.symm]
          cases hl : ns.bindings.lookup k with
          | some t => exact hgt.le.trans (hleast k hka t hl)
          | none =>
            rw [view_of_lookup_none hl] at hv
            obtain ⟨b, hb⟩ := Option.ne_none_iff_exists'.mp hv
            obtain ⟨g', hg', q, hq, rfl, -⟩ := exists_of_snapBinding hb
            obtain rfl := Option.some.inj (hg.symm.trans hg')
            exact hrle q hq hka

/-! ## The whole walk -/

/-- **A walk from where it stands** takes a listing, whatever takes it. -/
theorem Stands.walkLoop {idx : ℕ} (h : ns.Stands root pre start after idx) (hs : ns.Sound)
    (fuel : ℕ) (hf : (ns.candidates.filter (Awaits root pre after)).length < fuel) :
    ∃ es : List Listed, ns.IsListing root pre after (es.map Listed.entry) ∧
      ∀ (σ : Type) (take : σ → Listed → Option σ) (w : σ),
        ns.walkLoop .allReady root pre take fuel after idx w = .ready (takeAll take es w) := by
  induction fuel generalizing after idx with
  | zero => exact absurd hf (Nat.not_lt_zero _)
  | succ fuel ih =>
    obtain ⟨b, idx', hb, ⟨hp, hnone⟩ | ⟨e, behind, hp, hnext, hst⟩⟩ := h.turn hs
    · refine ⟨[], isListing_nil hnone, fun σ take w => ?_⟩
      rw [Namespace.walkLoop, hb]
      dsimp only
      rw [hp]
      rfl
    · have hless : (ns.candidates.filter (Awaits root pre e.path)).length
          < (ns.candidates.filter (Awaits root pre after)).length := by
        refine length_filter_lt (a := ⟨root, e.path⟩) (fun k _ hk => ?_)
          (hs.mem_candidates (by simp [hnext.view])) (by simpa using hnext.awaits) ?_
        · simp only [decide_eq_true_eq] at hk ⊢
          exact hk.mono hnext.awaits.2.2.le
        · simp [Awaits]
      obtain ⟨es, hes, hwalk⟩ := ih hst (by omega)
      refine ⟨if e.binding.live then e :: es else es, ?_, fun σ take w => ?_⟩
      · have hmap : (if e.binding.live then e :: es else es).map Listed.entry
            = if e.binding.live then e.entry :: es.map Listed.entry else es.map Listed.entry := by
          split <;> rfl
        rw [hmap]
        exact hnext.cons hes
      · rw [Namespace.walkLoop, hb]
        dsimp only
        rw [hp]
        dsimp only
        cases e.binding.live with
        | false => exact hwalk σ take w
        | true =>
          simp only [if_true, takeAll]
          cases take w e with
          | none => rfl
          | some w' => exact hwalk σ take w'

theorem Sound.walkStart (hs : ns.Sound) : ∃ idx, ns.walkStart .allReady root after = .ready idx ∧
    ns.Stands root pre after after idx := by
  unfold Namespace.walkStart
  cases hg : ns.snap with
  | none => exact ⟨0, rfl, fun g hc => (nomatch hg.symm.trans hc), fun g hc =>
      nomatch hg.symm.trans hc⟩
  | some g =>
    dsimp only
    have hsame : ∀ g' ∈ ns.snap, g' = g := fun g' hg' => (Option.some.inj (hg.symm.trans hg')).symm
    split
    · obtain ⟨i, hi⟩ := g.exists_seekLoop_allReady (k := ⟨root, after⟩) (g.count + 1) 0 g.count le_rfl
      have hseek : g.seekAfter .allReady ⟨root, after⟩ = .ready i := hi
      have hspec := (hs.sorted g hg).seekAfter_eq_ready hseek
      refine ⟨i, hseek, fun g' hg' j r hj hij => ?_, fun g' hg' j r hj hji haw => ?_⟩
      · rw [hsame g' hg'] at hj
        exact (hspec j r hj).mp hij
      · rw [hsame g' hg'] at hj
        exact absurd ((hspec j r hj).mpr haw.2.2) (Nat.not_le.mpr hji)
    · next hcount =>
      have hempty : ∀ j r, g.records[j]? ≠ some r := fun j r hj =>
        hcount (Nat.lt_of_le_of_lt (Nat.zero_le j) (List.getElem?_eq_some_iff.mp hj).1)
      exact ⟨0, rfl, fun g' hg' j r hj => absurd (hsame g' hg' ▸ hj) (hempty j r),
        fun g' hg' j r hj => absurd (hsame g' hg' ▸ hj) (hempty j r)⟩

/-- **A walk takes the listing beyond its cursor**, every read deciding. -/
theorem Sound.walkOrdered (hs : ns.Sound) (root pre after : Bytes) :
    ∃ es : List Listed, ns.IsListing root pre after (es.map Listed.entry) ∧
      ∀ (σ : Type) (take : σ → Listed → Option σ) (w : σ),
        ns.walkOrdered .allReady root pre after take w = .ready (takeAll take es w) := by
  obtain ⟨idx, hidx, hst⟩ := @Sound.walkStart L ns root pre after hs
  obtain ⟨es, hes, hwalk⟩ := hst.walkLoop hs (ns.candidates.length + 1)
    (Nat.lt_succ_of_le (List.length_filter_le _ _))
  refine ⟨es, hes, fun σ take w => ?_⟩
  rw [Namespace.walkOrdered, hidx]
  exact hwalk σ take w

/-- A walk that is decided took what it would have with every read deciding. -/
theorem walkOrdered_allReady_of_ready {take : σ → Listed → Option σ} {w : σ} {x : Bool × σ}
    (h : ns.walkOrdered io root pre after take w = .ready x) :
    ns.walkOrdered .allReady root pre after take w = .ready x := by
  have hrecord : ∀ after idx p, ns.nextRecord io root pre after idx = .ready p →
      ns.nextRecord .allReady root pre after idx = .ready p := by
    intro after idx p hp
    unfold nextRecord at hp ⊢
    split at hp
    · exact hp
    · exact Snapshot.nextListed_allReady_of_ready _ _ hp
  have hloop : ∀ fuel after idx w, ns.walkLoop io root pre take fuel after idx w = .ready x →
      ns.walkLoop .allReady root pre take fuel after idx w = .ready x := by
    intro fuel
    induction fuel with
    | zero => exact fun _ _ _ h => h
    | succ fuel ih =>
      intro after idx w h
      rw [walkLoop] at h ⊢
      cases hb : ns.nextRecord io root pre after idx with
      | pending =>
        rw [hb] at h
        cases h
      | failed =>
        rw [hb] at h
        cases h
      | ready p =>
        rw [hb] at h
        rw [hrecord _ _ _ hb]
        dsimp only at h ⊢
        cases hp : ns.pickListed ((ns.bindings.nextListed root pre after).map Prod.fst) p.1 with
        | none =>
          rw [hp] at h
          exact h
        | some q =>
          rw [hp] at h
          dsimp only at h ⊢
          cases htake : (if q.1.binding.live then take w q.1 else some w) with
          | none =>
            rw [htake] at h
            exact h
          | some w' =>
            rw [htake] at h
            exact ih _ _ _ h
  unfold walkOrdered at h ⊢
  cases hidx : ns.walkStart io root after with
  | pending =>
    rw [hidx] at h
    cases h
  | failed =>
    rw [hidx] at h
    cases h
  | ready idx =>
    have hready : ns.walkStart .allReady root after = .ready idx := by
      unfold walkStart at hidx ⊢
      split at hidx
      · exact hidx
      split at hidx
      · next hc =>
        rw [if_pos hc]
        exact Snapshot.seekLoop_allReady_of_ready _ _ _ hidx
      · next hc =>
        rw [if_neg hc]
        exact hidx
    rw [hidx] at h
    rw [hready]
    exact hloop _ _ _ _ h

end Namespace

end Loam

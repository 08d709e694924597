import Loam.ApplyOp

/-!
# The two tiers as one map

A key's current binding is the arena's if the arena holds the key, and the
snapshot's otherwise. `Namespace.view` is that overlay, the map a namespace
is for, and `Namespace.Sound` is what keeps the tiers coherent: the arena is
sound, the open generation is sorted, and a slot marked covered by the
snapshot is indeed recorded there. Under it an eviction does not change the
view (`Namespace.Sound.view_shrinks`), and every judge's read is a reading of
the view (`Namespace.Sound.read_eq_ok`).

The namespace's writes – a put behind an eviction, a rename behind an
eviction – are then described by what they do to the arena
(`Arena.PutOutcome`, `Arena.MoveOutcome`) and so to the view.
-/

namespace Loam

/-- The binding a generation records for a key, none without a
generation. -/
def snapBinding (snap : Option Snapshot) (k : Key) : Option Binding :=
  (snap.bind fun g => g.find k).map SnapRecord.toBinding

@[simp] theorem snapBinding_some (g : Snapshot) (k : Key) :
    snapBinding (some g) k = (g.find k).map SnapRecord.toBinding := rfl

namespace Arena

variable {L : Limits} {a a' a'' : Arena L} {k : Key} {b : Binding}

/-- The binding the arena holds for a key. -/
def binding (a : Arena L) (k : Key) : Option Binding := (a.lookup k).map (·.toBinding)

/-! ## Losing covered slots -/

/-- `a'` is `a` less some slots the snapshot covers, none of them `spare`'s. -/
structure Shrinks (a a' : Arena L) (spare : Option Key) : Prop where
  sound : a'.Sound
  trace : a.Trace [] a'
  /-- A key keeps its slot, or had a covered one and lost it. -/
  slot : ∀ k, a'.lookup k = a.lookup k ∨
    a'.lookup k = none ∧ spare ≠ some k ∧ ∃ s, a.lookup k = some s ∧ s.snapshotted = true

theorem Sound.shrinks_refl (h : a.Sound) (spare : Option Key) : a.Shrinks a spare :=
  ⟨h, .nothing, fun _ => .inl rfl⟩

theorem Evicts.shrinks {spare : Option Key} (h : a.Evicts a' spare) :
    a.Shrinks a' spare := by
  obtain ⟨hs, ht, ⟨s, hl, hsn, hsp, hmap⟩, -⟩ := h
  refine ⟨hs, ht, fun k => ?_⟩
  rw [hmap k]
  split
  · next hk =>
    subst hk
    exact .inr ⟨rfl, hsp, s, hl, hsn⟩
  · exact .inl rfl

/-- What a shrunk arena still holds, the arena held. -/
theorem Shrinks.lookup_of_some {spare : Option Key} (h : a.Shrinks a' spare)
    {s : BindingSlot} (hs : a'.lookup k = some s) : a.lookup k = some s := by
  rcases h.slot k with he | ⟨hn, -⟩
  · rwa [he] at hs
  rw [hn] at hs
  cases hs

theorem Shrinks.lookup_of_none {spare : Option Key} (h : a.Shrinks a' spare)
    (hs : a.lookup k = none) : a'.lookup k = none := by
  rcases h.slot k with he | ⟨hn, -⟩
  · rwa [he]
  · exact hn

/-- The spared key keeps its slot. -/
theorem Shrinks.lookup_spare (h : a.Shrinks a' (some k)) : a'.lookup k = a.lookup k :=
  (h.slot k).resolve_right fun hc => hc.2.1 rfl

theorem Shrinks.lookup_dirty {spare : Option Key} (h : a.Shrinks a' spare)
    {s : BindingSlot} (hs : a.lookup k = some s) (hd : s.snapshotted = false) :
    a'.lookup k = some s := by
  rcases h.slot k with he | ⟨-, -, t, ht, htd⟩
  · rw [he, hs]
  rw [hs] at ht
  cases ht
  rw [hd] at htd
  cases htd

/-! ## Outcomes behind an eviction -/

/-- No slot of the arena is covered by the snapshot. -/
def Uncovered (a : Arena L) : Prop :=
  ∀ k s, a.lookup k = some s → s.snapshotted = false

/-- With no slot covered, nothing is evicted. -/
theorem Sound.evict_eq_none (h : a.Sound) (hu : a.Uncovered) {spare : Option Key} :
    a.evictOneSnapshottedSparing spare = none := by
  cases he : a.evictOneSnapshottedSparing spare with
  | none => rfl
  | some a' =>
    obtain ⟨s, hl, hsn, -⟩ := (h.evicts he).victim
    exact nomatch hsn.symm.trans (hu _ s hl)

/-- The outcome of writing `b` at `k` behind an eviction: refused because it
does not fit or because neither a free slot nor a covered one is left; or
written. -/
inductive PutOutcome (a : Arena L) (k : Key) (b : Binding) : Arena L → Bool → Prop where
  | tooLong : bindFits L k b.objectId b.metadata = false → PutOutcome a k b a false
  | noRoom : bindFits L k b.objectId b.metadata = true → a.lookup k = none →
      a.full = true → a.Uncovered → PutOutcome a k b a false
  | wrote (a₁ a' : Arena L) : bindFits L k b.objectId b.metadata = true →
      a.Shrinks a₁ none → (∀ i, a₁.place k = some i → a.slotFor k none = some i) →
      a₁.Writes a' k b → PutOutcome a k b a' true

/-- The outcome of moving a binding behind an eviction: refused, at most a
covered slot the poorer, or moved. -/
inductive MoveOutcome (a : Arena L) (m : RenameMsg) : Arena L → Bool → Prop where
  /-- The binding is not moved: it is not live in the arena, or a name is too
  long, or the new name needs a slot and none can be had. -/
  | refused (a' : Arena L) : a.Shrinks a' (some ⟨m.root, m.source⟩) →
      ((a.binding ⟨m.root, m.source⟩).any Binding.live = false ∨
        (L.keyFits m.root m.source [] && L.keyFits m.root m.dest []) = false ∨
        (a.lookup ⟨m.root, m.dest⟩ = none ∧ a.full = true ∧
          a.evictOneSnapshottedSparing (some ⟨m.root, m.source⟩) = none)) →
      MoveOutcome a m a' false
  | moved (a₁ a' : Arena L) (src : BindingSlot) :
      (L.keyFits m.root m.source [] && L.keyFits m.root m.dest []) = true →
      m.source ≠ m.dest →
      a.Shrinks a₁ (some ⟨m.root, m.source⟩) →
      a.lookup ⟨m.root, m.source⟩ = some src → src.live = true →
      a₁.lookup ⟨m.root, m.dest⟩ = a.lookup ⟨m.root, m.dest⟩ →
      (∀ i, a₁.place ⟨m.root, m.dest⟩ = some i →
        a.slotFor ⟨m.root, m.dest⟩ (some ⟨m.root, m.source⟩) = some i) →
      a₁.Moves a' m.root m.source m.dest m.newRevision src →
      MoveOutcome a m a' true

end Arena

namespace Namespace

variable {L : Limits} {ns : Namespace L} {k : Key} {b : Binding} {io : ReadEnv}

/-- **The current binding of a key**, wherever it lives. -/
def view (ns : Namespace L) (k : Key) : Option Binding :=
  (ns.bindings.binding k).or (snapBinding ns.snap k)

/-- **The coherence of the two tiers.** -/
structure Sound (ns : Namespace L) : Prop where
  arena : ns.bindings.Sound
  sorted : ∀ g ∈ ns.snap, g.Sorted
  /-- A slot marked covered is recorded in the open generation. -/
  covered : ∀ k s, ns.bindings.lookup k = some s → s.snapshotted = true →
    snapBinding ns.snap k = some s.toBinding

theorem view_of_lookup {s : BindingSlot} (h : ns.bindings.lookup k = some s) :
    ns.view k = some s.toBinding := by
  simp [view, Arena.binding, h]

theorem view_of_lookup_none (h : ns.bindings.lookup k = none) :
    ns.view k = snapBinding ns.snap k := by
  simp [view, Arena.binding, h]

theorem sound_new : (new L).Sound :=
  ⟨Arena.sound_new, fun _ h => (nomatch h), fun k s h => by
    rw [show (new L).bindings = Arena.new L from rfl, Arena.lookup_new] at h
    cases h⟩

/-! ## Reads are readings of the view -/

/-- A decided read is the view's binding. -/
theorem Sound.current_eq_ready (h : ns.Sound) {c : Option Current}
    (hc : ns.current io k = .ready c) : c.map Current.binding = ns.view k := by
  unfold current at hc
  split at hc
  · next s hs =>
    cases hc
    rw [view_of_lookup hs]
    rfl
  next hs =>
  rw [view_of_lookup_none hs]
  split at hc
  · next hn =>
    cases hc
    rw [hn]
    rfl
  next g hg =>
  split at hc
  · next r hr =>
    cases hc
    rw [(h.sorted g hg).search_eq_ready hr, hg, snapBinding_some, Option.map_map]
    rfl
  · cases hc
  · cases hc

theorem Sound.read_eq_ok (h : ns.Sound) {cur : Option Binding}
    (hr : ns.read io k = .ok cur) : cur = ns.view k := by
  unfold read at hr
  split at hr
  · next c hc =>
    cases hr
    exact h.current_eq_ready hc
  · cases hr
  · cases hr

/-- With every read deciding, a judge reads the view. -/
theorem Sound.read_allReady (h : ns.Sound) (k : Key) :
    ns.read .allReady k = .ok (ns.view k) := by
  have hex : ∃ c, ns.current .allReady k = .ready c := by
    unfold current
    split
    · exact ⟨_, rfl⟩
    split
    · exact ⟨_, rfl⟩
    next g hg =>
    rw [(h.sorted g hg).search_allReady]
    exact ⟨_, rfl⟩
  obtain ⟨c, hc⟩ := hex
  rw [read, hc, ← h.current_eq_ready hc]

/-- A key the arena holds is read without the snapshot. -/
theorem read_of_lookup {s : BindingSlot} (h : ns.bindings.lookup k = some s)
    (io : ReadEnv) : ns.read io k = .ok (some s.toBinding) := by
  simp [read, current, h, Current.binding]

/-! ## What a change of the arena does to the view -/

/-- Losing covered slots does not change the view. -/
theorem Sound.view_shrinks (h : ns.Sound) {a' : Arena L} {spare : Option Key}
    (hs : ns.bindings.Shrinks a' spare) :
    ({ ns with bindings := a' } : Namespace L).view = ns.view := by
  funext k
  rcases hs.slot k with he | ⟨hn, -, s, hs', hsn⟩
  · simp only [view, Arena.binding, he]
  rw [view_of_lookup hs', @view_of_lookup_none L { ns with bindings := a' } _ hn]
  exact h.covered k s hs' hsn

theorem Sound.shrinks (h : ns.Sound) {a' : Arena L} {spare : Option Key}
    (hs : ns.bindings.Shrinks a' spare) :
    ({ ns with bindings := a' } : Namespace L).Sound :=
  ⟨hs.sound, h.sorted, fun _ _ hl => h.covered _ _ (hs.lookup_of_some hl)⟩

/-- A write rewrites the view at its key. -/
theorem view_writes {a' : Arena L} (hw : ns.bindings.Writes a' k b) :
    ({ ns with bindings := a' } : Namespace L).view = Function.update ns.view k (some b) := by
  obtain ⟨-, -, s, hs, hl⟩ := hw
  funext k'
  by_cases hk : k' = k
  · subst hk
    rw [Function.update_self, @view_of_lookup L { ns with bindings := a' } _ s
      ((hl k').trans (if_pos rfl)), hs.binding]
  · rw [Function.update_of_ne hk]
    simp only [view, Arena.binding, hl k', if_neg hk]

theorem Sound.writes (h : ns.Sound) {a' : Arena L} (hw : ns.bindings.Writes a' k b) :
    ({ ns with bindings := a' } : Namespace L).Sound := by
  obtain ⟨hs, -, s, hd, hl⟩ := hw
  refine ⟨hs, h.sorted, fun k' t ht htn => ?_⟩
  rw [show ({ ns with bindings := a' } : Namespace L).bindings.lookup k' = a'.lookup k'
    from rfl, hl k'] at ht
  split at ht
  · cases ht
    rw [hd.snapshotted] at htn
    cases htn
  · exact h.covered k' t ht htn

/-- The binding a rename leaves at the new name. -/
def movedBinding (ns : Namespace L) (m : RenameMsg) (src : Binding) : Binding :=
  { src with revision :=
      Arena.pastTombstone m.newRevision (ns.bindings.lookup ⟨m.root, m.dest⟩) }

/-- A rename rewrites the view at both its names. -/
theorem view_moves {a' : Arena L} {m : RenameMsg} {src : BindingSlot}
    (hm : ns.bindings.Moves a' m.root m.source m.dest m.newRevision src) :
    ({ ns with bindings := a' } : Namespace L).view =
      Function.update (Function.update ns.view ⟨m.root, m.dest⟩
        (some (ns.movedBinding m src.toBinding)))
        ⟨m.root, m.source⟩ (some (.tombstone m.newRevision)) := by
  obtain ⟨-, -, d, t, hd, ht, hl⟩ := hm
  funext k'
  by_cases hs : k' = ⟨m.root, m.source⟩
  · subst hs
    rw [Function.update_self, @view_of_lookup L { ns with bindings := a' } _ t
      ((hl _).trans (if_pos rfl)), ht.binding]
  rw [Function.update_of_ne hs]
  by_cases hk : k' = ⟨m.root, m.dest⟩
  · subst hk
    rw [Function.update_self, @view_of_lookup L { ns with bindings := a' } _ d
      ((hl _).trans ((if_neg hs).trans (if_pos rfl))), hd.binding]
    rfl
  · rw [Function.update_of_ne hk]
    simp only [view, Arena.binding, hl k', if_neg hs, if_neg hk]

theorem Sound.moves (h : ns.Sound) {a' : Arena L} {root source dest : Bytes}
    {newRevision : UInt64} {src : BindingSlot}
    (hm : ns.bindings.Moves a' root source dest newRevision src) :
    ({ ns with bindings := a' } : Namespace L).Sound := by
  obtain ⟨hs, -, d, t, hd, ht, hl⟩ := hm
  refine ⟨hs, h.sorted, fun k' u hu hun => ?_⟩
  rw [show ({ ns with bindings := a' } : Namespace L).bindings.lookup k' = a'.lookup k'
    from rfl, hl k'] at hu
  split at hu
  · cases hu
    rw [ht.snapshotted] at hun
    cases hun
  split at hu
  · cases hu
    rw [hd.snapshotted] at hun
    cases hun
  · exact h.covered k' u hu hun

/-! ## The namespace's writes -/

/-- Without a generation nothing is covered. -/
theorem Sound.uncovered_of_snap_eq_none (h : ns.Sound) (hn : ns.snap = none) :
    ns.bindings.Uncovered := by
  intro k s hs
  by_contra hc
  have := h.covered k s hs (by simpa using hc)
  rw [hn] at this
  cases this

/-- The shape of every put: an arena write that fits when `b` does, tried
again behind one eviction. -/
theorem Sound.behindEviction_spec (h : ns.Sound) {active : Bool}
    {op : Arena L → Except ApplyError (Arena L)} (hact : ns.snap.isSome = true → active = true)
    (hop : ∀ a, ns.bindings.Shrinks a none →
      a.WriteSpec k b (Arena.bindFits L k b.objectId b.metadata) (op a)) :
    ∃ a' ok, ns.behindEviction active op = ({ ns with bindings := a' }, ok) ∧
      ns.bindings.PutOutcome k b a' ok := by
  have hself := hop ns.bindings (h.arena.shrinks_refl none)
  unfold behindEviction
  cases hr : op ns.bindings with
  | ok a' =>
    rw [hr] at hself
    cases hself with
    | wrote _ hf _ hw => exact ⟨_, _, rfl, .wrote _ _ hf (h.arena.shrinks_refl none)
      (fun _ => Arena.slotFor_of_place) hw⟩
  | error e =>
    rw [hr] at hself
    cases hself with
    | tooLong hf => exact ⟨ns.bindings, false, rfl, .tooLong hf⟩
    | noRoom hf hk hfull =>
      dsimp only
      cases hev : (if active then ns.bindings.evictOneSnapshotted else none) with
      | none =>
        refine ⟨ns.bindings, false, rfl, .noRoom hf hk hfull ?_⟩
        cases hsn : ns.snap with
        | none => exact h.uncovered_of_snap_eq_none hsn
        | some g =>
          rw [if_pos (hact (by rw [hsn]; rfl))] at hev
          exact fun k' s hs => h.arena.not_snapshotted_of_evict_eq_none hev hs (by simp)
      | some e =>
        have he : ns.bindings.evictOneSnapshotted = some e := by
          split at hev
          · exact hev
          · cases hev
        have hevs := h.arena.evicts he
        have hsh := hevs.shrinks
        have hagain := hop e hsh
        dsimp only
        cases hr' : op e with
        | ok a' =>
          rw [hr'] at hagain
          cases hagain with
          | wrote _ _ _ hw => exact ⟨_, _, rfl, .wrote _ _ hf hsh
            (fun _ => Arena.slotFor_of_evict hk hfull he) hw⟩
        | error e' =>
          -- the eviction has left a free slot, and the lengths are in range
          rw [hr'] at hagain
          cases hagain with
          | tooLong hf' =>
            rw [hf] at hf'
            cases hf'
          | noRoom _ _ hfull' =>
            rw [hevs.room] at hfull'
            cases hfull'

theorem Sound.bindBinding_spec (h : ns.Sound)
    (hrev : ∀ s, ns.bindings.lookup k = some s → s.revision < b.revision) :
    ∃ a' ok, ns.bindBinding k b = ({ ns with bindings := a' }, ok) ∧
      ns.bindings.PutOutcome k b a' ok :=
  h.behindEviction_spec id fun _ hs =>
    hs.sound.bind_spec fun s hl => hrev s (hs.lookup_of_some hl)

theorem Sound.commitBinding_spec (h : ns.Sound) (k : Key) (b : Binding) :
    ∃ a' ok, ns.commitBinding k b = ({ ns with bindings := a' }, ok) ∧
      ns.bindings.PutOutcome k b a' ok :=
  h.behindEviction_spec id fun _ hs => hs.sound.commitBind_spec k _ _ _ _

/-- A tombstone has nothing to be too long but its key. -/
theorem bindFits_tombstone (k : Key) (revision : UInt64) :
    Arena.bindFits L k (Binding.tombstone revision).objectId
      (Binding.tombstone revision).metadata = L.keyFits k.root k.path [] := by
  simp [Arena.bindFits, Binding.tombstone, Meta.none]

theorem Sound.removeBinding_spec (h : ns.Sound) (k : Key) (revision : UInt64) :
    ∃ a' ok, ns.removeBinding k revision = ({ ns with bindings := a' }, ok) ∧
      ns.bindings.PutOutcome k (.tombstone revision) a' ok :=
  h.behindEviction_spec (fun _ => rfl) fun _ hs => by
    rw [bindFits_tombstone]
    exact hs.sound.tombstone_spec k revision

/-- A rename whose source the arena does not hold live is refused. -/
theorem rename_eq_error {a : Arena L} {root source dest : Bytes}
    {newRevision : UInt64} (hs : (a.binding ⟨root, source⟩).any Binding.live = false) :
    ∃ e, a.rename root source dest newRevision = .error e := by
  have hloc : ∀ s i, a.locate ⟨root, source⟩ = some (s, i) → s.live = false := by
    intro s i hl
    have : a.lookup ⟨root, source⟩ = some s := by rw [Arena.lookup, hl]; rfl
    rw [Arena.binding, this] at hs
    exact hs
  unfold Arena.rename
  dsimp only
  generalize (if source = dest then none else a.locate ⟨root, dest⟩) = dstAt
  split
  · exact ⟨_, rfl⟩
  split
  · exact ⟨_, rfl⟩
  cases hl : a.locate ⟨root, source⟩ with
  | none => exact ⟨_, rfl⟩
  | some p => exact ⟨.notBound, by simp [hloc p.1 p.2 hl]⟩

theorem Sound.renameBinding_spec (h : ns.Sound) {m : RenameMsg}
    (hd : isLive (ns.view ⟨m.root, m.dest⟩) = false) :
    ∃ a' ok, ns.renameBinding m = ({ ns with bindings := a' }, ok) ∧
      ns.bindings.MoveOutcome m a' ok := by
  have ha := h.arena
  have hdl : (ns.bindings.lookup ⟨m.root, m.dest⟩).any (·.live) = false := by
    cases hl : ns.bindings.lookup ⟨m.root, m.dest⟩ with
    | none => rfl
    | some s =>
      rw [view_of_lookup hl] at hd
      exact hd
  let why : Prop := (ns.bindings.binding ⟨m.root, m.source⟩).any Binding.live = false ∨
    (L.keyFits m.root m.source [] && L.keyFits m.root m.dest []) = false ∨
    (ns.bindings.lookup ⟨m.root, m.dest⟩ = none ∧ ns.bindings.full = true ∧
      ns.bindings.evictOneSnapshottedSparing (some ⟨m.root, m.source⟩) = none)
  -- the retry: an eviction sparing the source, and what the rename makes of it
  have hretry : ∀ (e₀ : ApplyError), ns.bindings.rename m.root m.source m.dest m.newRevision
        = .error e₀ →
      (∀ e, ns.bindings.evictOneSnapshottedSparing (some ⟨m.root, m.source⟩) = some e →
        ns.bindings.Evicts e (some ⟨m.root, m.source⟩) →
        ((∃ e', e.rename m.root m.source m.dest m.newRevision = .error e') ∧ why) ∨
        ∃ a', e.rename m.root m.source m.dest m.newRevision = .ok a' ∧
          ns.bindings.MoveOutcome m a' true) →
      ((if ns.snap.isSome && ns.bindings.full then
          ns.bindings.evictOneSnapshottedSparing (some ⟨m.root, m.source⟩) else none) = none →
        why) →
      ∃ a' ok, ns.renameBinding m = ({ ns with bindings := a' }, ok) ∧
        ns.bindings.MoveOutcome m a' ok := by
    intro e₀ he₀ hagain hwhy
    unfold renameBinding
    rw [he₀]
    dsimp only
    cases hev : (if ns.snap.isSome && ns.bindings.full then
        ns.bindings.evictOneSnapshottedSparing (some ⟨m.root, m.source⟩) else none) with
    | none => exact ⟨ns.bindings, false, rfl, .refused _ (ha.shrinks_refl _) (hwhy hev)⟩
    | some e =>
      have he : ns.bindings.evictOneSnapshottedSparing (some ⟨m.root, m.source⟩) = some e := by
        split at hev
        · exact hev
        · cases hev
      have hevs := ha.evicts he
      rcases hagain e he hevs with ⟨⟨e', he'⟩, hw⟩ | ⟨a', ha', hout⟩
      · simp only [he']
        exact ⟨e, false, rfl, .refused _ hevs.shrinks hw⟩
      · simp only [ha']
        exact ⟨a', true, rfl, hout⟩
  by_cases hlive : (ns.bindings.binding ⟨m.root, m.source⟩).any Binding.live = false
  · obtain ⟨e₀, he₀⟩ := rename_eq_error (L := L) hlive
    refine hretry e₀ he₀ (fun e _ hevs => .inl ⟨rename_eq_error ?_, .inl hlive⟩) fun _ => .inl hlive
    rw [Arena.binding, hevs.shrinks.lookup_spare]
    exact hlive
  have hne : m.source ≠ m.dest := by
    intro he
    rw [Arena.binding, he] at hlive
    cases hl : ns.bindings.lookup ⟨m.root, m.dest⟩ with
    | none => exact hlive (by rw [hl]; rfl)
    | some s =>
      rw [hl] at hdl hlive
      exact hlive hdl
  have hspec := @Arena.Sound.rename_spec L _ ha m.root _ _ hne m.newRevision
  cases hr : ns.bindings.rename m.root m.source m.dest m.newRevision with
  | ok a' =>
    rw [hr] at hspec
    cases hspec with
    | moved _ src hfit _ hl hsl _ hm =>
      refine ⟨a', true, ?_, .moved _ a' src hfit hne (ha.shrinks_refl _) hl hsl rfl
        (fun _ => Arena.slotFor_of_place) hm⟩
      rw [renameBinding, hr]
  | error e₀ =>
    rw [hr] at hspec
    cases hspec with
    | tooLong hfit =>
      refine hretry _ hr (fun e _ hevs => .inl ⟨?_, .inr (.inl hfit)⟩) fun _ => .inr (.inl hfit)
      have hspec' := @Arena.Sound.rename_spec L _ hevs.sound m.root _ _ hne m.newRevision
      cases hr' : e.rename m.root m.source m.dest m.newRevision with
      | error e' => exact ⟨e', rfl⟩
      | ok a' =>
        rw [hr'] at hspec'
        cases hspec' with
        | moved _ _ hfit' =>
          rw [hfit] at hfit'
          cases hfit'
    | occupied _ hocc =>
      rw [hdl] at hocc
      cases hocc
    | notBound _ _ hn =>
      exact absurd (by rw [Arena.binding, Option.any_map]; exact hn) hlive
    | noRoom src hfit _ hl hsl hdn hfull =>
      refine hretry _ hr (fun e he hevs => .inr ?_) fun hev => .inr (.inr ⟨hdn, hfull, ?_⟩)
      · -- behind the eviction there is room, so the rename is done
        have hsh := hevs.shrinks
        have hdn' := hsh.lookup_of_none hdn
        have hspec' := @Arena.Sound.rename_spec L _ hevs.sound m.root _ _ hne m.newRevision
        cases hr' : e.rename m.root m.source m.dest m.newRevision with
        | ok a' =>
          rw [hr'] at hspec'
          cases hspec' with
          | moved _ src' _ _ hl' _ _ hm =>
            rw [hsh.lookup_spare, hl] at hl'
            cases hl'
            exact ⟨a', rfl, .moved e a' src hfit hne hsh hl hsl (hdn'.trans hdn.symm)
              (fun _ => Arena.slotFor_of_evict hdn hfull he) hm⟩
        | error e' =>
          rw [hr'] at hspec'
          cases hspec' with
          | tooLong hfit' => exact nomatch hfit.symm.trans hfit'
          | occupied _ hocc =>
            rw [hdn'] at hocc
            cases hocc
          | notBound _ _ hn =>
            rw [hsh.lookup_spare, hl] at hn
            exact nomatch hsl.symm.trans hn
          | noRoom _ _ _ _ _ _ hfull' => exact nomatch hevs.room.symm.trans hfull'
      · cases hsn : ns.snap with
        | none => exact ha.evict_eq_none (h.uncovered_of_snap_eq_none hsn)
        | some g =>
          rw [hsn, hfull] at hev
          exact hev

end Namespace

end Loam

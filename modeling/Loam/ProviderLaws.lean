import Loam.Compaction

/-!
# What a provider call does

`Namespace.SurfaceOutcome` is the specification of the provider surface: a
call is refused and leaves the view as it was, or it has done one thing to
it. Only the path of a failed rename has something to undo, and putting the
old name back needs the slot it was moved from to be one a bind would write;
that every slot is such a slot is the invariant `Arena.Fits`.
-/

namespace Loam

namespace Arena

variable {L : Limits} {a a' : Arena L} {k : Key}

/-- Every slot is one a bind would write. -/
def Fits (a : Arena L) : Prop :=
  ∀ k s, a.lookup k = some s → bindFits L k s.objectId s.metadata = true

theorem fits_new : (new L).Fits := fun k s h => by
  rw [lookup_new] at h
  cases h

theorem Fits.shrinks (h : a.Fits) {spare : Option Key} (hs : a.Shrinks a' spare) : a'.Fits :=
  fun k s hl => h k s (hs.lookup_of_some hl)

theorem Fits.writes (h : a.Fits) {b : Binding}
    (hb : bindFits L k b.objectId b.metadata = true) (hw : a.Writes a' k b) : a'.Fits := by
  obtain ⟨-, -, s, hd, hl⟩ := hw
  intro k' t ht
  rw [hl k'] at ht
  split at ht
  · next hk =>
    obtain rfl := Option.some.inj ht
    rw [hk, hd.binding]
    exact hb
  · exact h k' t ht

theorem bindFits_iff {objectId : Bytes} {m : Meta} :
    bindFits L k objectId m = true ↔ L.keyFits k.root k.path [] = true ∧
      objectId.length ≤ L.maxObjectId ∧ m.contentType.length ≤ L.contentTypeMax ∧
        m.keyRef.length ≤ L.keyRefMax := by
  simp [bindFits, Limits.keyFits, and_assoc]

theorem Fits.moves (h : a.Fits) {root source dest : Bytes} {newRevision : UInt64}
    {src : BindingSlot} (hsrc : a.lookup ⟨root, source⟩ = some src)
    (hfit : (L.keyFits root source [] && L.keyFits root dest []) = true)
    (hm : a.Moves a' root source dest newRevision src) : a'.Fits := by
  obtain ⟨-, -, d, t, hd, ht, hl⟩ := hm
  obtain ⟨hs, hdst⟩ := Bool.and_eq_true_iff.mp hfit
  have hb := bindFits_iff.mp (h _ _ hsrc)
  intro k' u hu
  rw [hl k'] at hu
  split at hu
  · next hk =>
    obtain rfl := Option.some.inj hu
    rw [hk, ht.binding]
    simpa [bindFits, Binding.tombstone, Meta.none] using hs
  split at hu
  · next hk =>
    obtain rfl := Option.some.inj hu
    rw [hk, hd.binding]
    exact bindFits_iff.mpr ⟨hdst, hb.2⟩
  · exact h k' u hu

theorem Fits.effect (h : a.Fits) {e : Effect} {ok : Bool} (ho : a.EffectOutcome e a' ok) :
    a'.Fits := by
  cases ho with
  | keep => exact h
  | put hp =>
    cases hp with
    | tooLong | noRoom => exact h
    | wrote a₁ _ hf hs _ hw => exact (h.shrinks hs).writes hf hw
  | move hm =>
    cases hm with
    | refused _ hs => exact h.shrinks hs
    | moved a₁ _ src hf _ hs hl _ _ _ hmv =>
      refine (h.shrinks hs).moves ?_ hf hmv
      rw [hs.lookup_spare, hl]

end Arena

/-- The numbers a provider call may take. -/
def SurfaceOp.numbers : SurfaceOp → ℕ
  | .lookup _ => 0
  | .bind .. | .delete _ => 1
  | .rename .. => 2

namespace Namespace

variable {L : Limits} {ns : Namespace L} {io : ReadEnv} {now : UInt64} {path : Bytes}

/-! ## What the surface asks -/

theorem lookup_of_liveSlot {s : BindingSlot} {i : ℕ}
    (hl : ns.liveSlot path = some (s, i)) :
    ns.bindings.lookup (surfaceKey path) = some s ∧ s.live = true := by
  obtain ⟨hloc, hlive⟩ := Option.filter_eq_some_iff.mp hl
  exact ⟨by rw [Arena.lookup, hloc]; rfl, hlive⟩

theorem liveSlot_eq_none_iff :
    ns.liveSlot path = none ↔
      ∀ s, ns.bindings.lookup (surfaceKey path) = some s → s.live = false := by
  simp only [liveSlot, Option.filter_eq_none_iff, Arena.lookup, Option.map_eq_some_iff]
  constructor
  · rintro hn s ⟨⟨t, i⟩, hl, rfl⟩
    simpa using hn _ hl
  · intro hn p hp
    simpa using hn p.1 ⟨p, hp, rfl⟩

/-- The call's gates on a path: it is no volume and not retained. -/
def OpenTo (ns : Namespace L) (path : Bytes) (now : UInt64) : Prop :=
  isVolume (ns.view (surfaceKey path)) = false ∧
    isRetained (ns.view (surfaceKey path)) now = false

theorem Sound.surfaceRead_eq_ok (h : ns.Sound) {cur : Option Binding}
    (hr : ns.surfaceRead io path = .ok cur) : cur = ns.view (surfaceKey path) := by
  unfold surfaceRead at hr
  split at hr
  · next cur' hr' =>
    cases hr
    exact h.read_eq_ok hr'
  · cases hr
  · cases hr

theorem Sound.liveVolume_eq_ok (h : ns.Sound) {b : Bool}
    (hr : ns.liveVolume io path = .ok b) : b = isVolume (ns.view (surfaceKey path)) := by
  unfold liveVolume at hr
  cases hrd : ns.surfaceRead io path with
  | error e =>
    rw [hrd] at hr
    cases hr
  | ok cur =>
    rw [hrd] at hr
    cases hr
    rw [h.surfaceRead_eq_ok hrd]

theorem Sound.surfaceRetained_eq_ok (h : ns.Sound) {b : Bool}
    (hr : ns.surfaceRetained io path now = .ok b) :
    b = isRetained (ns.view (surfaceKey path)) now := by
  unfold surfaceRetained at hr
  cases hrd : ns.surfaceRead io path with
  | error e =>
    rw [hrd] at hr
    cases hr
  | ok cur =>
    rw [hrd] at hr
    cases hr
    rw [h.surfaceRead_eq_ok hrd]

/-- The revision the surface gives a bind of a resident key is past its own,
up to the wrap. -/
theorem surfaceRevision_eq_ok {replace : Bool} {rev : UInt64}
    {s : BindingSlot} (hr : ns.surfaceRevision path replace = .ok rev)
    (hs : ns.bindings.lookup (surfaceKey path) = some s) : rev = s.revision + 1 := by
  unfold surfaceRevision at hr
  split at hr
  · next t i ht =>
    obtain ⟨hl, -⟩ := lookup_of_liveSlot ht
    obtain rfl := Option.some.inj (hs.symm.trans hl)
    split at hr
    · cases hr
      rfl
    · cases hr
  · next hn =>
    have hdead := liveSlot_eq_none_iff.mp hn s hs
    cases hr
    simp [tombstoneRev, hs, Option.filter, hdead]

/-- The revision a rename's new name takes. -/
def surfaceDestRev (ns : Namespace L) (dest : Bytes) (newRev : UInt64) : UInt64 :=
  match ns.tombstoneRev dest with
  | some t => if newRev ≤ t then t + 1 else newRev
  | none => newRev

/-! ## The outcome of a call -/

/-- What a call may come to. What a refused one wrote, it wrote to its keys' own slots. -/
inductive SurfaceOutcome (ns : Namespace L) (now : UInt64) :
    SurfaceOp → Namespace L → Except Errno Unit → Prop where
  /-- It is refused, and the view is as it was. -/
  | refused (op : SurfaceOp) (e : Errno) (a' : Arena L) : ns.bindings.Evolves a' → a'.Fits →
      ({ ns with bindings := a' } : Namespace L).view = ns.view →
      (∃ ws, ns.bindings.Trace ws a' ∧ ws.length ≤ op.numbers ∧
        ∀ w ∈ ws, ∃ s, (s, w.slot) ∈ ns.bindings.occupied ∧ s.toKey = w.key) →
      SurfaceOutcome ns now op { ns with bindings := a' } (.error e)
  | found (path : Bytes) (s : BindingSlot) :
      ns.bindings.lookup (surfaceKey path) = some s → s.live = true →
      SurfaceOutcome ns now (.lookup path) ns (.ok ())
  | bound (path : Bytes) (kind : UInt8) (replace : Bool) (target : Bytes) (rev : UInt64)
      (a' : Arena L) : kind ≠ kindVolume → ns.OpenTo path now →
      ns.surfaceRevision path replace = .ok rev →
      (∀ s, ns.bindings.lookup (surfaceKey path) = some s → s.revision < rev) →
      Arena.bindFits L (surfaceKey path) target Meta.none = true →
      ns.bindings.Writes a' (surfaceKey path) ⟨rev, kind, target, Meta.none⟩ →
      SurfaceOutcome ns now (.bind path kind replace target) { ns with bindings := a' } (.ok ())
  | deleted (path : Bytes) (s : BindingSlot) (a' : Arena L) : ns.OpenTo path now →
      ns.bindings.lookup (surfaceKey path) = some s → s.live = true →
      ns.bindings.Writes a' (surfaceKey path) (.tombstone (s.revision + 1)) →
      SurfaceOutcome ns now (.delete path) { ns with bindings := a' } (.ok ())
  | renamed (source dest : Bytes) (src : BindingSlot) (a' : Arena L) :
      source ≠ dest → ns.OpenTo source now →
      isRetained (ns.view (surfaceKey dest)) now = false →
      ns.bindings.lookup (surfaceKey source) = some src → src.live = true →
      (∀ s, ns.bindings.lookup (surfaceKey dest) = some s → s.live = false) →
      ns.bindings.Evolves a' → a'.Fits →
      ({ ns with bindings := a' } : Namespace L).view =
        Function.update
          (Function.update ns.view (surfaceKey source) (some (.tombstone (src.revision + 1))))
          (surfaceKey dest)
          (some { src.toBinding with revision := ns.surfaceDestRev dest (src.revision + 1) }) →
      (∃ i j, ns.bindings.place (surfaceKey source) = some i ∧
        (ns.removeBinding (surfaceKey source) (src.revision + 1)).1.bindings.slotFor
          (surfaceKey dest) none = some j ∧
        ns.bindings.Trace [⟨surfaceKey dest, { src.toBinding with
            revision := ns.surfaceDestRev dest (src.revision + 1) }, j⟩,
          ⟨surfaceKey source, .tombstone (src.revision + 1), i⟩] a') →
      SurfaceOutcome ns now (.rename source dest) { ns with bindings := a' } (.ok ())

theorem Sound.refused_self (h : ns.Sound) (hf : ns.bindings.Fits) (op : SurfaceOp) (e : Errno) :
    ns.SurfaceOutcome now op ns (.error e) :=
  .refused op e ns.bindings h.arena.evolves_refl hf rfl
    ⟨[], .nothing, Nat.zero_le _, fun _ hw => absurd hw List.not_mem_nil⟩

theorem Sound.surfaceLookup_outcome (h : ns.Sound) (hf : ns.bindings.Fits) (path : Bytes) :
    ns.SurfaceOutcome now (.lookup path) ns ((ns.surfaceLookup path).map fun _ => ()) := by
  unfold surfaceLookup
  split
  · next s i hs =>
    obtain ⟨hl, hlive⟩ := lookup_of_liveSlot hs
    exact .found path s hl hlive
  · exact h.refused_self hf _ _

/-- A bind older than what the name holds is refused, and not for want of room. -/
theorem bind_stale {a : Arena L} (h : a.Sound) {k : Key} {s : BindingSlot}
    (hs : a.lookup k = some s) (target : Bytes) (kind : UInt8) (m : Meta) {rev : UInt64}
    (hlt : rev < s.revision) :
    ∃ e, e ≠ .outOfCapacity ∧ a.bind k target kind rev m = .error e := by
  obtain ⟨⟨t, i⟩, hloc, rfl⟩ := Option.map_eq_some_iff.mp hs
  have hul : t.locked = false := h.unlocked_of_lookup hs
  have hne : (rev == t.revision) = false := beq_eq_false_iff_ne.mpr (UInt64.ne_of_lt hlt)
  unfold Arena.bind
  split
  · exact ⟨.keyTooLong, by simp, rfl⟩
  simp only [hloc, hul, hne, Bool.false_and, Bool.false_eq_true, if_false,
    if_neg (UInt64.not_lt.mpr (UInt64.le_of_lt hlt))]
  exact ⟨.alreadyBound, by simp, rfl⟩

theorem Sound.surfaceBind_outcome (h : ns.Sound) (hf : ns.bindings.Fits) (io : ReadEnv)
    (now : UInt64) (path : Bytes) (kind : UInt8) (replace : Bool) (target : Bytes) :
    ns.SurfaceOutcome now (.bind path kind replace target)
      (ns.surfaceBind io now path kind replace target).1
      (ns.surfaceBind io now path kind replace target).2 := by
  unfold surfaceBind
  split
  · exact h.refused_self hf _ _
  next hk =>
  split
  · exact h.refused_self hf _ _
  · exact h.refused_self hf _ _
  next hv =>
  split
  · exact h.refused_self hf _ _
  · exact h.refused_self hf _ _
  next hr =>
  split
  · exact h.refused_self hf _ _
  next rev hrev =>
  have hopen : ns.OpenTo path now :=
    ⟨(h.liveVolume_eq_ok hv).symm, (h.surfaceRetained_eq_ok hr).symm⟩
  by_cases hlt : ∀ s, ns.bindings.lookup (surfaceKey path) = some s → s.revision < rev
  · have hspec := @Arena.Sound.bind_spec L _ (surfaceKey path) h.arena target kind rev Meta.none hlt
    cases hb : ns.bindings.bind (surfaceKey path) target kind rev Meta.none with
    | error e =>
      cases e <;> exact h.refused_self hf _ _
    | ok a' =>
      rw [hb] at hspec
      cases hspec with
      | wrote _ hfit _ hw => exact .bound path kind replace target rev a' hk hopen hrev hlt hfit hw
  · -- the revision has wrapped: the arena refuses the bind
    push Not at hlt
    obtain ⟨s, hs, hle⟩ := hlt
    have hrv := surfaceRevision_eq_ok hrev hs
    obtain ⟨e, -, he⟩ := bind_stale h.arena hs target kind Meta.none (show rev < s.revision by grind)
    rw [he]
    cases e <;> exact h.refused_self hf _ _

theorem Sound.surfaceDelete_outcome (h : ns.Sound) (hf : ns.bindings.Fits) (io : ReadEnv)
    (now : UInt64) (path : Bytes) :
    ns.SurfaceOutcome now (.delete path) (ns.surfaceDelete io now path).1
      (ns.surfaceDelete io now path).2 := by
  unfold surfaceDelete
  split
  · exact h.refused_self hf _ _
  · exact h.refused_self hf _ _
  next hv =>
  split
  · exact h.refused_self hf _ _
  · exact h.refused_self hf _ _
  next hr =>
  split
  · exact h.refused_self hf _ _
  next s i hs =>
  obtain ⟨hl, hlive⟩ := lookup_of_liveSlot hs
  have hspec := h.arena.tombstone_spec (surfaceKey path) (s.revision + 1)
  cases ht : ns.bindings.tombstone (surfaceKey path) (s.revision + 1) with
  | error e => cases e <;> exact h.refused_self hf _ _
  | ok a' =>
    rw [ht] at hspec
    cases hspec with
    | wrote _ _ _ hw =>
      exact .deleted path s a'
        ⟨(h.liveVolume_eq_ok hv).symm, (h.surfaceRetained_eq_ok hr).symm⟩ hl hlive hw

/-! ### Rename -/

/-- Carrying an expiry onto a dirty slot changes no binding. -/
theorem carryExpiry_spec {a : Arena L} (h : a.Sound) (path : Bytes) (e : UInt64)
    (hd : ∀ s, a.lookup (surfaceKey path) = some s → s.snapshotted = false ∧ s.cmpEmitted = 0) :
    a.Evolves (carryExpiry a path e) ∧ a.Trace [] (carryExpiry a path e) ∧
      ∀ k, (carryExpiry a path e).binding k = a.binding k := by
  unfold carryExpiry
  split
  · exact ⟨h.evolves_refl, .nothing, fun _ => rfl⟩
  cases hs : a.setExpiry (surfaceKey path) e with
  | error _ => exact ⟨h.evolves_refl, .nothing, fun _ => rfl⟩
  | ok a' =>
    obtain ⟨s, hl, hsound, htrace, hl'⟩ := h.setExpiry_spec hs
    obtain ⟨hsn, hce⟩ := hd s hl
    refine ⟨⟨hsound, fun k => ?_⟩, htrace, fun k => ?_⟩
    · rw [hl' k]
      split
      · exact .inr (.inr ⟨_, rfl, hsn, hce⟩)
      · exact .inl rfl
    · simp only [Arena.binding, hl' k]
      split
      · next hk =>
        rw [hk, hl]
        rfl
      · rfl

theorem fits_of_binding_eq {a a' : Arena L} (h : a.Fits)
    (hb : ∀ k, a'.binding k = a.binding k) : a'.Fits := by
  intro k s hs
  have hbk := hb k
  rw [Arena.binding, hs, Arena.binding] at hbk
  obtain ⟨t, ht, hts⟩ := Option.map_eq_some_iff.mp hbk.symm
  have := h k t ht
  rwa [hts] at this

theorem view_of_binding_eq {a a' : Arena L} (hb : ∀ k, a'.binding k = a.binding k) :
    ({ ns with bindings := a' } : Namespace L).view
      = ({ ns with bindings := a } : Namespace L).view :=
  funext fun k => by simp only [view, hb k]

/-- A write followed by carrying an expiry onto what it wrote. -/
theorem writes_carryExpiry (hf : ns.bindings.Fits) {b : Binding}
    {a' : Arena L} (hb : Arena.bindFits L (surfaceKey path) b.objectId b.metadata = true)
    (hw : ns.bindings.Writes a' (surfaceKey path) b) (e : UInt64) :
    ns.bindings.Evolves (carryExpiry a' path e) ∧ (carryExpiry a' path e).Fits ∧
      (∃ i, ns.bindings.place (surfaceKey path) = some i ∧
        ns.bindings.Trace [⟨surfaceKey path, b, i⟩] (carryExpiry a' path e)) ∧
      ({ ns with bindings := carryExpiry a' path e } : Namespace L).view
        = Function.update ns.view (surfaceKey path) (some b) := by
  have hdirty : ∀ s, a'.lookup (surfaceKey path) = some s →
      s.snapshotted = false ∧ s.cmpEmitted = 0 := by
    obtain ⟨-, -, t, hd, hl⟩ := hw
    intro s hs
    rw [hl, if_pos rfl] at hs
    obtain rfl := Option.some.inj hs
    exact ⟨hd.snapshotted, hd.cmpEmitted⟩
  obtain ⟨he, htrace, hbind⟩ := carryExpiry_spec hw.sound path e hdirty
  obtain ⟨i, hi, ht⟩ := hw.trace
  refine ⟨hw.evolves.trans he, fits_of_binding_eq (hf.writes hb hw) hbind,
    ⟨i, hi, ht.trans htrace⟩, ?_⟩
  rw [view_of_binding_eq hbind, view_writes hw]

/-- The old name put back over its own tombstone: the view is as it was. -/
theorem putBack_spec (hf : ns.bindings.Fits) {src : BindingSlot}
    {a : Arena L} (hl : ns.bindings.lookup (surfaceKey path) = some src)
    (he : ns.bindings.Evolves a) (hfa : a.Fits) (hres : a.lookup (surfaceKey path) ≠ none)
    (hview : ∃ b, ({ ns with bindings := a } : Namespace L).view
      = Function.update ns.view (surfaceKey path) b) :
    ns.bindings.Evolves (putBack a src path) ∧ (putBack a src path).Fits ∧
      (∃ i, a.place (surfaceKey path) = some i ∧
        a.Trace [⟨surfaceKey path, src.toBinding, i⟩] (putBack a src path)) ∧
      ({ ns with bindings := putBack a src path } : Namespace L).view = ns.view := by
  unfold putBack
  have hfit := hf _ _ hl
  have hspec := he.sound.commitBind_spec (surfaceKey path) src.objectId src.kind src.revision
    src.metadata
  cases hc : a.commitBind (surfaceKey path) src.objectId src.kind src.revision src.metadata with
  | error e =>
    rw [hc] at hspec
    cases hspec with
    | tooLong hn =>
      rw [hfit] at hn
      cases hn
    | noRoom _ hn => exact absurd hn hres
  | ok a' =>
    rw [hc] at hspec
    cases hspec with
    | wrote _ _ _ hw =>
      obtain ⟨he', hf', ht, hv'⟩ := @writes_carryExpiry L { ns with bindings := a } _ hfa _ _ hfit hw
        src.expiresAt
      refine ⟨he.trans he', hf', ht, ?_⟩
      obtain ⟨b, hb⟩ := hview
      rw [hv', hb, Function.update_idem]
      exact Function.update_eq_self_iff.mpr (view_of_lookup hl).symm

theorem tombstoneRev_of_lookup {s : BindingSlot}
    (hs : ns.bindings.lookup (surfaceKey path) = some s) (hdead : s.live = false) :
    ns.tombstoneRev path = some s.revision := by
  simp [tombstoneRev, hs, Option.filter, hdead]

/-- The arena with a rename's old name buried where it was, in slot `i`. -/
structure Buried (ns : Namespace L) (source : Bytes) (rev : UInt64) (i : ℕ) (a : Arena L) :
    Prop where
  evolves : ns.bindings.Evolves a
  fits : a.Fits
  trace : ns.bindings.Trace [⟨surfaceKey source, .tombstone rev, i⟩] a
  resident : ∃ t, a.lookup (surfaceKey source) = some t ∧ t.snapshotted = false
  view : ({ ns with bindings := a } : Namespace L).view
    = Function.update ns.view (surfaceKey source) (some (.tombstone rev))

section Buried

variable {source dest : Bytes} {rev : UInt64} {i : ℕ} {src : BindingSlot} {a a' : Arena L}

/-- An eviction leaves the tombstone: it is covered by no snapshot. -/
theorem Buried.shrinks (h : ns.Sound) (hb : ns.Buried source rev i a) (hs : a.Shrinks a' none) :
    ns.Buried source rev i a' := by
  obtain ⟨t, ht, htn⟩ := hb.resident
  have hview := @Sound.view_shrinks L { ns with bindings := a } (h.evolves hb.evolves) _ _ hs
  exact ⟨hb.evolves.trans hs.evolves, hb.fits.shrinks hs, hb.trace.trans hs.trace,
    ⟨t, hs.lookup_dirty ht htn, htn⟩, hview.trans hb.view⟩

/-- A failure puts the old name back. -/
theorem Buried.back (hb : ns.Buried source rev i a) (hf : ns.bindings.Fits)
    (hl : ns.bindings.lookup (surfaceKey source) = some src)
    (hi : ns.bindings.place (surfaceKey source) = some i) (e : Errno) :
    ns.SurfaceOutcome now (.rename source dest)
      { ns with bindings := putBack a src source } (.error e) := by
  obtain ⟨t, ht, -⟩ := hb.resident
  have hres : a.lookup (surfaceKey source) ≠ none := by simp [ht]
  have hown : ∀ w ∈ [(⟨surfaceKey source, .tombstone rev, i⟩ : Arena.SlotWrite)],
      ∃ s, (s, w.slot) ∈ ns.bindings.occupied ∧ s.toKey = w.key := fun w hw => by
    obtain rfl := List.mem_singleton.mp hw
    exact Arena.mem_of_place hi (by simp [hl])
  obtain ⟨hev, hfits, ⟨j, hj, hback⟩, hview⟩ :=
    putBack_spec hf hl hb.evolves hb.fits hres ⟨_, hb.view⟩
  refine .refused _ e _ hev hfits hview ⟨_, hb.trace.trans hback, le_refl 2, fun w hw => ?_⟩
  rcases List.mem_cons.mp hw with rfl | hw
  · obtain ⟨u, hu, huk⟩ := Arena.mem_of_place hj hres
    obtain ⟨v, hv, hvk⟩ := hb.trace.own hown hu
    exact ⟨v, hv, hvk.trans huk⟩
  · exact hown w hw

/-- A bind of the new name leaves the binding there. -/
theorem Buried.carried (hb : ns.Buried source rev i a) {b : Binding}
    (hfit : Arena.bindFits L (surfaceKey dest) b.objectId b.metadata = true)
    (hw : a.Writes a' (surfaceKey dest) b) (e : UInt64) :
    ns.bindings.Evolves (carryExpiry a' dest e) ∧ (carryExpiry a' dest e).Fits ∧
      ({ ns with bindings := carryExpiry a' dest e } : Namespace L).view =
        Function.update
          (Function.update ns.view (surfaceKey source) (some (.tombstone rev)))
          (surfaceKey dest) (some b) ∧
      ∃ j, a.place (surfaceKey dest) = some j ∧
        ns.bindings.Trace [⟨surfaceKey dest, b, j⟩, ⟨surfaceKey source, .tombstone rev, i⟩]
          (carryExpiry a' dest e) := by
  obtain ⟨hev, hfits, ⟨j, hj, htrace⟩, hview⟩ :=
    @writes_carryExpiry L { ns with bindings := a } _ hb.fits b _ hfit hw e
  refine ⟨hb.evolves.trans hev, hfits, ?_, j, hj, hb.trace.trans htrace⟩
  rw [hview, hb.view]

end Buried

theorem Sound.surfaceMove_outcome (h : ns.Sound) (hf : ns.bindings.Fits) {source dest : Bytes}
    {src : BindingSlot} (hne : source ≠ dest) (hopen : ns.OpenTo source now)
    (hret : isRetained (ns.view (surfaceKey dest)) now = false)
    (hl : ns.bindings.lookup (surfaceKey source) = some src) (hlive : src.live = true)
    (hdst : ∀ s, ns.bindings.lookup (surfaceKey dest) = some s → s.live = false) :
    ns.SurfaceOutcome now (.rename source dest)
      (ns.surfaceMove src source dest (src.revision + 1)
        (ns.surfaceDestRev dest (src.revision + 1))).1
      (ns.surfaceMove src source dest (src.revision + 1)
        (ns.surfaceDestRev dest (src.revision + 1))).2 := by
  have hkne : surfaceKey dest ≠ surfaceKey source := fun he => hne (congrArg Key.path he).symm
  set newRev := src.revision + 1
  set toRev := ns.surfaceDestRev dest newRev with htoRev
  obtain ⟨a₁, ok, hrem, hput⟩ := h.removeBinding_spec (surfaceKey source) newRev
  unfold surfaceMove
  rw [hrem]
  cases hput with
  | tooLong => exact h.refused_self hf _ _
  | noRoom => exact h.refused_self hf _ _
  | wrote a₀ _ hfit₁ hs₁ hp₁ hw₁ =>
    dsimp only
    -- the old name is buried where it is
    obtain ⟨i, hi₁, htrace⟩ := hw₁.trace
    obtain ⟨i', hm, hkey⟩ := h.arena.lookup_eq_some_iff.mp hl
    have hi := h.arena.place_of_mem hm hkey
    obtain rfl : i' = i := Option.some.inj ((Arena.slotFor_of_place hi).symm.trans (hp₁ i hi₁))
    have hbur : ns.Buried source newRev i' a₁ := by
      refine ⟨hs₁.evolves.trans hw₁.evolves, (hf.shrinks hs₁).writes hfit₁ hw₁,
        hs₁.trace.trans htrace, ?_, ?_⟩
      · obtain ⟨-, -, t, hd, hlk⟩ := hw₁
        exact ⟨t, by rw [hlk, if_pos rfl], hd.snapshotted⟩
      · rw [← h.view_shrinks hs₁]
        exact @view_writes L { ns with bindings := a₀ } _ _ _ hw₁
    -- a success leaves the binding at the new name
    have hdone : ∀ a a', ns.Buried source newRev i' a →
        (∀ j, a.place (surfaceKey dest) = some j → a₁.slotFor (surfaceKey dest) none = some j) →
        Arena.bindFits L (surfaceKey dest) src.objectId src.metadata = true →
        a.Writes a' (surfaceKey dest) ⟨toRev, src.kind, src.objectId, src.metadata⟩ →
        ns.SurfaceOutcome now (.rename source dest)
          { ns with bindings := carryExpiry a' dest src.expiresAt } (.ok ()) := by
      intro a a' hb hslot hfit hw
      obtain ⟨hev, hfits, hview, j, hj, ht⟩ := @Buried.carried L _ _ _ _ _ a a' hb
        { src.toBinding with revision := toRev } hfit hw src.expiresAt
      exact .renamed source dest src _ hne hopen hret hl hlive hdst hev hfits hview
        ⟨i', j, hi, by rw [hrem]; exact hslot j hj, ht⟩
    by_cases hlt : ∀ d, a₁.lookup (surfaceKey dest) = some d → d.revision < toRev
    · have hspec := @Arena.Sound.bind_spec L _ (surfaceKey dest) hw₁.sound src.objectId src.kind
        toRev src.metadata hlt
      cases hb : a₁.bind (surfaceKey dest) src.objectId src.kind toRev src.metadata with
      | ok a' =>
        rw [hb] at hspec
        cases hspec with
        | wrote _ hfit _ hw => exact hdone a₁ a' hbur (fun _ => Arena.slotFor_of_place) hfit hw
      | error e =>
        rw [hb] at hspec
        cases hspec with
        | tooLong => exact hbur.back hf hl hi _
        | noRoom hfit hn hfull =>
          dsimp only
          cases hev : a₁.evictOneSnapshotted with
          | none => exact hbur.back hf hl hi _
          | some a =>
            have hsa := (hw₁.sound.evicts hev).shrinks
            have hspec' := @Arena.Sound.bind_spec L _ (surfaceKey dest) hsa.sound src.objectId
              src.kind toRev src.metadata
              fun d hd => hlt d (hsa.lookup_of_some hd)
            dsimp only
            cases hb' : a.bind (surfaceKey dest) src.objectId src.kind toRev src.metadata with
            | ok a' =>
              rw [hb'] at hspec'
              cases hspec' with
              | wrote _ hfit' _ hw =>
                exact hdone a a' (hbur.shrinks h hsa)
                  (fun _ => Arena.slotFor_of_evict hn hfull hev) hfit' hw
            | error e => exact (hbur.shrinks h hsa).back hf hl hi _
    · -- the tombstone's revision has wrapped: the bind is refused
      push Not at hlt
      obtain ⟨d, hd, hle⟩ := hlt
      have hd₀ : ns.bindings.lookup (surfaceKey dest) = some d := by
        obtain ⟨-, -, t, -, hlk⟩ := hw₁
        rw [hlk, if_neg hkne] at hd
        exact hs₁.lookup_of_some hd
      have hrv : toRev = d.revision + 1 ∨ d.revision < toRev := by
        rw [htoRev, surfaceDestRev, tombstoneRev_of_lookup hd₀ (hdst d hd₀)]
        dsimp only
        split
        · exact .inl rfl
        · next hc => exact .inr (UInt64.not_le.mp hc)
      obtain ⟨e, hne', he⟩ := bind_stale hw₁.sound hd src.objectId src.kind src.metadata
        (show toRev < d.revision by grind)
      simp only [he]
      cases e with
      | outOfCapacity => exact absurd rfl hne'
      | _ => exact hbur.back hf hl hi _

theorem Sound.surfaceRename_outcome (h : ns.Sound) (hf : ns.bindings.Fits) (io : ReadEnv)
    (now : UInt64) (source dest : Bytes) :
    ns.SurfaceOutcome now (.rename source dest) (ns.surfaceRename io now source dest).1
      (ns.surfaceRename io now source dest).2 := by
  unfold surfaceRename
  split
  · exact h.refused_self hf _ _
  next src i hs =>
  obtain ⟨hl, hlive⟩ := lookup_of_liveSlot hs
  split
  · exact h.refused_self hf _ _
  · exact h.refused_self hf _ _
  next hv =>
  split
  · exact h.refused_self hf _ _
  · exact h.refused_self hf _ _
  · exact h.refused_self hf _ _
  · exact h.refused_self hf _ _
  next hr hr' =>
  split
  · exact h.refused_self hf _ _
  next hd =>
  split
  · exact h.refused_self hf _ _
  have hdn : ns.liveSlot dest = none := by simpa using hd
  refine h.surfaceMove_outcome hf ?_ ⟨(h.liveVolume_eq_ok hv).symm,
    (h.surfaceRetained_eq_ok hr).symm⟩ (h.surfaceRetained_eq_ok hr').symm hl hlive
    (liveSlot_eq_none_iff.mp hdn)
  rintro rfl
  rw [hs] at hdn
  cases hdn

/-- **Every provider call comes to one of the outcomes.** -/
theorem Sound.surfaceOp_outcome (h : ns.Sound) (hf : ns.bindings.Fits) (io : ReadEnv)
    (now : UInt64) (op : SurfaceOp) :
    ns.SurfaceOutcome now op (Node.surfaceOp ns io now op).1 (Node.surfaceOp ns io now op).2 := by
  cases op with
  | lookup path => exact h.surfaceLookup_outcome hf path
  | bind path kind replace target => exact h.surfaceBind_outcome hf io now path kind replace target
  | delete path => exact h.surfaceDelete_outcome hf io now path
  | rename source dest => exact h.surfaceRename_outcome hf io now source dest

/-! ## What every outcome keeps -/

/-- A call evolves the arena and touches nothing else. -/
theorem SurfaceOutcome.evolves {op : SurfaceOp} {ns' : Namespace L} {res : Except Errno Unit}
    (h : ns.Sound) (ho : ns.SurfaceOutcome now op ns' res) :
    ns' = { ns with bindings := ns'.bindings } ∧ ns.bindings.Evolves ns'.bindings := by
  cases ho with
  | refused op e a' he => exact ⟨rfl, he⟩
  | found => exact ⟨rfl, h.arena.evolves_refl⟩
  | bound _ _ _ _ _ a' _ _ _ _ _ hw => exact ⟨rfl, hw.evolves⟩
  | deleted _ _ a' _ _ _ hw => exact ⟨rfl, hw.evolves⟩
  | renamed _ _ _ a' _ _ _ _ _ _ he => exact ⟨rfl, he⟩

theorem SurfaceOutcome.fits {op : SurfaceOp} {ns' : Namespace L} {res : Except Errno Unit}
    (hf : ns.bindings.Fits) (ho : ns.SurfaceOutcome now op ns' res) : ns'.bindings.Fits := by
  cases ho with
  | refused op e a' _ hf' => exact hf'
  | found => exact hf
  | bound _ _ _ _ _ a' _ _ _ _ hb hw => exact hf.writes hb hw
  | deleted _ s a' _ hl _ hw =>
    refine hf.writes ?_ hw
    have := Arena.bindFits_iff.mp (hf _ _ hl)
    simpa [Arena.bindFits, Binding.tombstone, Meta.none] using this.1
  | renamed _ _ _ a' _ _ _ _ _ _ _ hf' => exact hf'

end Namespace

end Loam

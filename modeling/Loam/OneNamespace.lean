import Loam.Revisions

/-!
# One namespace, two surfaces

The provider surface asks the arena whether a name is bound
(`Namespace.liveSlot`), where the record judge asks both tiers. They agree on
a name exactly when the arena holds it, or the snapshot records nothing live
under it: `Namespace.seesCurrent_iff`. A name that was evicted, or that a
restart left to the snapshot, is not seen – a lookup, a delete and a rename
answer that there is none, and a bind takes it for free.

What the surface then writes is read back as live by both, but for a bind
whose caller asks for the kind byte of a tombstone.
-/

namespace Loam

namespace Namespace

variable {L : Limits} {ns : Namespace L} {path : Bytes}

/-- The live binding of a path, as the record judge's reads have it
(`current`). -/
def liveCurrent (ns : Namespace L) (path : Bytes) : Option Binding :=
  (ns.view (surfaceKey path)).filter Binding.live

/-- **The surface decides a path from its current binding**: whether it is
there, at what revision, and whether it is in the way of a rename. -/
structure SeesCurrent (ns : Namespace L) (path : Bytes) : Prop where
  lookup : (ns.surfaceLookup path).map Prod.snd =
    match ns.liveCurrent path with
    | some b => .ok b.revision
    | none => .error .noent
  /-- BIND is told it exists, or replaces it past its revision. -/
  bind : ∀ replace, match ns.liveCurrent path with
    | some b => ns.surfaceRevision path replace =
      if replace then .ok (b.revision + 1) else .error .exist
    | none => ∃ rev, ns.surfaceRevision path replace = .ok rev
  /-- DELETE buries it past its revision, and says there is none otherwise. -/
  delete : ∀ now, ns.OpenTo path now → match ns.liveCurrent path with
    | some b => (ns.surfaceDelete .allReady now path).2 = .ok () ∧
      (ns.surfaceDelete .allReady now path).1.view (surfaceKey path)
        = some (.tombstone (b.revision + 1))
    | none => (ns.surfaceDelete .allReady now path).2 = .error .noent
  source : ∀ now dest, (ns.surfaceRename .allReady now path dest).2 = .error .noent ↔
    ns.liveCurrent path = none
  /-- RENAME has it for its new name: a live one is in the way. -/
  dest : ∀ now source s, ns.bindings.lookup (surfaceKey source) = some s → s.live = true →
    ns.OpenTo source now → isRetained (ns.view (surfaceKey path)) now = false →
    (ns.liveCurrent path).isSome = true →
    (ns.surfaceRename .allReady now source path).2 = .error .exist

/-- The arena answers for a path: it holds it, or the snapshot records nothing
live under it. -/
def Answers (ns : Namespace L) (path : Bytes) : Prop :=
  ns.bindings.lookup (surfaceKey path) ≠ none ∨
    isLive (snapBinding ns.snap (surfaceKey path)) = false

/-- Where the arena answers for a path, its live slot is its live binding. -/
theorem liveCurrent_eq (h : ns.Answers path) :
    ns.liveCurrent path = (ns.liveSlot path).map fun p => p.1.toBinding := by
  unfold liveCurrent liveSlot
  cases hl : ns.bindings.locate (surfaceKey path) with
  | some p =>
    have hlk : ns.bindings.lookup (surfaceKey path) = some p.1 := by rw [Arena.lookup, hl]; rfl
    rw [view_of_lookup hlk]
    cases hlive : p.1.live with
    | true => simp [Option.filter, hlive]
    | false => simp [Option.filter, hlive]
  | none =>
    have hlk := Arena.lookup_eq_none_iff_locate.mpr hl
    rw [view_of_lookup_none hlk]
    have hdead := h.resolve_left (by simp [hlk])
    cases hs : snapBinding ns.snap (surfaceKey path) with
    | none => rfl
    | some b =>
      rw [hs] at hdead
      rw [isLive_some] at hdead
      simp [Option.filter, hdead]

theorem Sound.surfaceRead_allReady (h : ns.Sound) (path : Bytes) :
    ns.surfaceRead .allReady path = .ok (ns.view (surfaceKey path)) := by
  rw [surfaceRead, h.read_allReady]

theorem Sound.liveVolume_allReady (h : ns.Sound) (path : Bytes) :
    ns.liveVolume .allReady path = .ok (isVolume (ns.view (surfaceKey path))) := by
  rw [liveVolume, h.surfaceRead_allReady]
  rfl

theorem Sound.surfaceRetained_allReady (h : ns.Sound) (path : Bytes) (now : UInt64) :
    ns.surfaceRetained .allReady path now = .ok (isRetained (ns.view (surfaceKey path)) now) := by
  rw [surfaceRetained, h.surfaceRead_allReady]
  rfl

/-- A rename whose old name is live in the arena is refused for some other
reason than its absence. -/
theorem Sound.surfaceMove_ne_noent (h : ns.Sound) (hf : ns.bindings.Fits) {source dest : Bytes}
    {src : BindingSlot} (hl : ns.bindings.lookup (surfaceKey source) = some src)
    (newRev toRev : UInt64) :
    (ns.surfaceMove src source dest newRev toRev).2 ≠ .error .noent := by
  obtain ⟨a₁, ok, hrem, hput⟩ := h.removeBinding_spec (surfaceKey source) newRev
  unfold surfaceMove
  rw [hrem]
  have hfit := (Arena.bindFits_iff.mp (hf _ _ hl)).1
  cases hput with
  | tooLong hn =>
    rw [bindFits_tombstone] at hn
    cases hfit.symm.trans hn
  | noRoom _ hn => cases hn.symm.trans hl
  | wrote a₀ _ _ _ _ =>
    dsimp only
    split
    · simp
    · next e _ => cases e <;> simp

/-- **The surfaces agree on a path exactly when the arena answers for it.** -/
theorem Sound.seesCurrent_iff (h : ns.Sound) (hf : ns.bindings.Fits) :
    ns.SeesCurrent path ↔ ns.Answers path := by
  constructor
  · intro hs
    by_contra hno
    simp only [Answers, not_or, ne_eq, not_not, Bool.not_eq_false] at hno
    obtain ⟨hl, hlive⟩ := hno
    have hslot : ns.liveSlot path = none := liveSlot_eq_none_iff.mpr fun s hs =>
      nomatch hl.symm.trans hs
    have hlook := hs.lookup
    rw [surfaceLookup, hslot, liveCurrent, view_of_lookup_none hl] at hlook
    cases hb : snapBinding ns.snap (surfaceKey path) with
    | none =>
      rw [hb] at hlive
      cases hlive
    | some b =>
      rw [hb] at hlook hlive
      rw [Option.filter_some_pos (isLive_some b ▸ hlive)] at hlook
      cases hlook
  · intro ha
    have hcur := liveCurrent_eq ha
    refine ⟨?_, fun replace => ?_, fun now hopen => ?_, fun now dest => ?_,
      fun now source s hls hlives hopen hret hsome => ?_⟩
    · rw [hcur, surfaceLookup]
      cases ns.liveSlot path <;> rfl
    · rw [hcur, surfaceRevision]
      cases ns.liveSlot path with
      | none => exact ⟨_, rfl⟩
      | some p => rfl
    · rw [hcur, surfaceDelete, h.liveVolume_allReady, h.surfaceRetained_allReady, hopen.1,
        hopen.2]
      dsimp only
      cases hsl : ns.liveSlot path with
      | none => rfl
      | some p =>
        obtain ⟨s, i⟩ := p
        obtain ⟨hl, -⟩ := lookup_of_liveSlot hsl
        have hspec := h.arena.tombstone_spec (surfaceKey path) (s.revision + 1)
        dsimp only [Option.map_some]
        cases ht : ns.bindings.tombstone (surfaceKey path) (s.revision + 1) with
        | error e =>
          rw [ht] at hspec
          cases hspec with
          | tooLong hn => cases (Arena.bindFits_iff.mp (hf _ _ hl)).1.symm.trans hn
          | noRoom _ hn => cases hn.symm.trans hl
        | ok a' =>
          rw [ht] at hspec
          cases hspec with
          | wrote _ _ _ hw =>
            refine ⟨rfl, ?_⟩
            rw [show ({ ns with bindings := a' } : Namespace L).view = _ from view_writes hw,
              Function.update_self]
    · rw [hcur, surfaceRename]
      cases hsl : ns.liveSlot path with
      | none => simp
      | some p =>
        obtain ⟨src, i⟩ := p
        obtain ⟨hl, -⟩ := lookup_of_liveSlot hsl
        have hul := h.arena.unlocked_of_lookup hl
        simp only [Option.map_some, reduceCtorEq, iff_false]
        rw [h.liveVolume_allReady, h.surfaceRetained_allReady, h.surfaceRetained_allReady]
        cases isVolume (ns.view (surfaceKey path)) with
        | true => simp
        | false =>
          cases isRetained (ns.view (surfaceKey path)) now with
          | true => simp
          | false =>
            cases isRetained (ns.view (surfaceKey dest)) now with
            | true => simp
            | false =>
              dsimp only
              split
              · simp
              rw [if_neg (by simp [hul])]
              exact h.surfaceMove_ne_noent hf hl _ _
    · rw [hcur] at hsome
      have hslot : ∃ i, ns.liveSlot source = some (s, i) := by
        obtain ⟨⟨t, i⟩, hloc, rfl⟩ := Option.map_eq_some_iff.mp hls
        exact ⟨i, Option.filter_eq_some_iff.mpr ⟨hloc, hlives⟩⟩
      obtain ⟨i, hsl⟩ := hslot
      have hd : (ns.liveSlot path).isSome = true := by simpa using hsome
      rw [surfaceRename, hsl, h.liveVolume_allReady, h.surfaceRetained_allReady,
        h.surfaceRetained_allReady, hopen.1, hopen.2, hret]
      simp only [hd, if_true]

/-- A provider bind is read back as live, unless its kind byte is a
tombstone's. -/
theorem SurfaceOutcome.live_of_bind {now : UInt64} {kind : UInt8} {replace : Bool}
    {target : Bytes} {ns' : Namespace L}
    (ho : ns.SurfaceOutcome now (.bind path kind replace target) ns' (.ok ())) :
    isLive (ns'.view (surfaceKey path)) = true ↔ kind ≠ kindTombstone := by
  cases ho with
  | bound _ _ _ _ rev a' _ _ _ _ _ hw =>
    rw [view_writes hw, Function.update_self]
    exact bne_iff_ne

/-- What a provider rename leaves at the new name is read back as live. -/
theorem SurfaceOutcome.live_of_rename {now : UInt64} {source dest : Bytes} {ns' : Namespace L}
    (ho : ns.SurfaceOutcome now (.rename source dest) ns' (.ok ())) :
    isLive (ns'.view (surfaceKey dest)) = true := by
  cases ho with
  | renamed _ _ src a' _ _ _ _ hlive _ _ _ hv =>
    rw [hv, Function.update_self]
    exact hlive

end Namespace

namespace Node

variable {L : Limits}

/-- **When the two surfaces see one namespace**: in every reachable state, of
every path exactly when the arena answers for it; and a bind installs what
both read as live exactly when its kind byte is not a tombstone's, a rename
always. -/
theorem surfaces_agree_iff (cfg : Bool) (es : List Event) :
    (∀ path, (reached L cfg es).ns.SeesCurrent path ↔ (reached L cfg es).ns.Answers path) ∧
      (∀ io now path kind replace target,
        (surfaceOp (reached L cfg es).ns io now (.bind path kind replace target)).2 = .ok () →
        (isLive ((surfaceOp (reached L cfg es).ns io now
            (.bind path kind replace target)).1.view (surfaceKey path)) = true
          ↔ kind ≠ kindTombstone)) ∧
      ∀ io now source dest,
        (surfaceOp (reached L cfg es).ns io now (.rename source dest)).2 = .ok () →
        isLive ((surfaceOp (reached L cfg es).ns io now (.rename source dest)).1.view
          (surfaceKey dest)) = true := by
  have h := coherent_reached (L := L) cfg es
  refine ⟨fun path => h.sound.seesCurrent_iff h.fits, fun io now path kind replace target hok => ?_,
    fun io now source dest hok => ?_⟩
  · have ho := h.sound.surfaceOp_outcome h.fits io now (.bind path kind replace target)
    rw [hok] at ho
    exact ho.live_of_bind
  · have ho := h.sound.surfaceOp_outcome h.fits io now (.rename source dest)
    rw [hok] at ho
    exact ho.live_of_rename

/-- A provider bind whose caller asks for the kind byte of a tombstone. -/
def exampleTombstone : SurfaceOp := .bind examplePath kindTombstone false [1]

/-- **The bind is answered as done, and the record judge reads a tombstone**
at the path. -/
theorem surface_bind_tombstone :
    (surfaceOp (reached .minimal true []).ns .allReady 1 exampleTombstone).2 = .ok () ∧
      (surfaceOp (reached .minimal true []).ns .allReady 1 exampleTombstone).1.read .allReady
          (surfaceKey examplePath) = .ok (some ⟨1, kindTombstone, [1], Meta.none⟩) ∧
      isLive (some ⟨1, kindTombstone, [1], Meta.none⟩) = false := by
  decide

end Node

end Loam

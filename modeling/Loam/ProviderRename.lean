import Loam.Invariant
import Loam.Wire

/-!
# A rename that fails

A rename of the provider surface buries the old name before it binds the new one, and when the
bind is refused it puts the old name back, over its own tombstone, with the expiry it had
(`namespace_pic_body.rs`, `NS_OP_RENAME`). Nothing but the old name's slot is written then: an
eviction makes room, and a bind that finds room is not refused. So a rename that fails leaves
every slot with the content it had.
-/

namespace Loam

open Slices

/-- What a slot holds of its key: the binding, its expiry and its lock. -/
def BindingSlot.content (s : BindingSlot) : Binding × UInt64 × Bool :=
  (s.toBinding, s.expiresAt, s.locked)

namespace Arena

variable {L : Limits} {a a' : Arena L} {s t : BindingSlot} {i : ℕ} {k : Key}

/-- What the arena holds of a key. -/
def content (a : Arena L) (k : Key) : Option (Binding × UInt64 × Bool) :=
  (a.lookup k).map BindingSlot.content

/-- A slot that is in the arena is buried in its place. -/
theorem Sound.tombstone_resident (h : a.Sound) (hl : a.lookup k = some s)
    (hfit : L.keyFits k.root k.path [] = true) (revision : UInt64) :
    ∃ a', a.tombstone k revision = .ok a' ∧ a'.Sound ∧
      ∀ k', a'.lookup k' =
        if k' = k then some (s.bury revision (a.changeSeq + 1)) else a.lookup k' := by
  obtain ⟨i, hm, rfl⟩ := h.lookup_eq_some_iff.mp hl
  have hloc := h.locate_eq_some_iff.mpr ⟨hm, rfl⟩
  have hul := h.unlocked hm
  obtain ⟨hsound, hlookup⟩ := h.rewritten_stamped (t := s.bury revision (a.changeSeq + 1)) hm rfl hul
    (a.changeSeq + 1)
  refine ⟨_, ?_, hsound, hlookup⟩
  simp only [tombstone, hfit, hloc, hul, Bool.not_true, Bool.false_eq_true, if_false]

/-- A bind that is refused for want of a slot is not refused when there is one. -/
theorem bind_of_room {b : Arena L} {objectId : Bytes} {kind : UInt8} {revision : UInt64} {m : Meta}
    (hfull : a.bind k objectId kind revision m = .error .outOfCapacity)
    (hsub : a.lookup k = none → b.lookup k = none) (hroom : b.full = false) :
    ∃ c, b.bind k objectId kind revision m = .ok c := by
  unfold bind at hfull ⊢
  cases hfit : bindFits L k objectId m with
  | false =>
    rw [hfit] at hfull
    cases hfull
  | true =>
    rw [hfit] at hfull
    simp only [Bool.not_true, Bool.false_eq_true, if_false] at hfull ⊢
    cases hloc : a.locate k with
    | some p =>
      -- Where the key has a slot, no refusal is for want of one.
      rw [hloc] at hfull
      dsimp only at hfull
      split at hfull
      · cases hfull
      split at hfull
      · cases hfull
      · split at hfull <;> cases hfull
    | none =>
      have hloc' : b.locate k = none :=
        lookup_eq_none_iff_locate.mp (hsub (lookup_eq_none_iff_locate.mpr hloc))
      rw [hloc']
      dsimp only [fill]
      cases hfree : b.freeSlot with
      | none =>
        rw [full_iff_freeSlot.mpr hfree] at hroom
        cases hroom
      | some i => exact ⟨_, rfl⟩

/-- An old name that is put back over its tombstone has the content it had. -/
theorem Sound.putBack_content (h : a.Sound) {src t : BindingSlot} {source : Bytes}
    (hl : a.lookup (surfaceKey source) = some t) (hlive : src.live = true)
    (hul : src.locked = false)
    (hfit : bindFits L (surfaceKey source) src.objectId src.metadata = true) (k : Key) :
    (Namespace.putBack a src source).content k =
      if k = surfaceKey source then some src.content else a.content k := by
  obtain ⟨i, hm, hkey⟩ := h.lookup_eq_some_iff.mp hl
  have hloc := h.locate_eq_some_iff.mpr ⟨hm, hkey⟩
  have htl := h.unlocked hm
  -- The bind is committed, without an expiry.
  obtain ⟨b, hb, hbound⟩ : ∃ b, a.commitBind (surfaceKey source) src.objectId src.kind src.revision
      src.metadata = .ok b ∧ b.Sound ∧ ∃ u : BindingSlot, u.toBinding = src.toBinding ∧
        u.expiresAt = 0 ∧ u.locked = false ∧
        ∀ k, b.lookup k = if k = surfaceKey source then some u else a.lookup k := by
    unfold commitBind
    simp only [hfit, hloc, htl, Bool.not_true, Bool.false_eq_true, if_false]
    set u : BindingSlot := { t.rewrite ⟨src.revision, src.kind, src.objectId, src.metadata⟩
      (fnv1a64 src.objectId) (a.changeSeq + 1) fun _ => rfl with expiresAt := 0 }
    obtain ⟨hsound, hlookup⟩ := h.rewritten_stamped (t := u) hm rfl htl (a.changeSeq + 1)
    rw [hkey] at hlookup
    exact ⟨_, rfl, hsound, u, rfl, rfl, htl, hlookup⟩
  obtain ⟨hsound, u, hu, hexp, hulocked, hlookup⟩ := hbound
  unfold Namespace.putBack Namespace.carryExpiry
  rw [hb]
  dsimp only
  split
  · -- It had no expiry.
    next hzero =>
    rw [content, content, hlookup]
    split
    · rw [Option.map_some, BindingSlot.content, BindingSlot.content, hu, hexp, hulocked, hul, hzero]
    · rfl
  · cases hset : b.setExpiry (surfaceKey source) src.expiresAt with
    | error e =>
      -- The binding is live, and takes an expiry.
      have hself : b.lookup (surfaceKey source) = some u := by rw [hlookup, if_pos rfl]
      obtain ⟨j, hmem, hukey⟩ := hsound.lookup_eq_some_iff.mp hself
      unfold setExpiry at hset
      have hulive : u.live = true := by rw [hu, hlive]
      rw [hsound.locate_eq_some_iff.mpr ⟨hmem, hukey⟩] at hset
      simp only [hulive, if_true] at hset
      cases hset
    | ok b' =>
      obtain ⟨w, hw, -, -, hlookup'⟩ := hsound.setExpiry_spec hset
      rw [hlookup, if_pos rfl] at hw
      cases Option.some.inj hw
      rw [content, content, hlookup', hlookup]
      split
      · show some (u.toBinding, src.expiresAt, u.locked) = some (src.toBinding, _, _)
        rw [hu, hulocked, hul]
      · rfl

end Arena

namespace Namespace

variable {L : Limits} {ns : Namespace L} {io : ReadEnv} {now : UInt64} {path source dest : Bytes}

/-- Two namespaces hold the same of every key, and are alike in all else. -/
structure Same (ns ns' : Namespace L) : Prop where
  content : ns'.bindings.content = ns.bindings.content
  leases : ns'.leases = ns.leases
  gcReserved : ns'.gcReserved = ns.gcReserved
  snap : ns'.snap = ns.snap

theorem Same.refl (ns : Namespace L) : Same ns ns := ⟨rfl, rfl, rfl, rfl⟩

/-- **A move that fails leaves what there was.** -/
theorem Sound.surfaceMove_failed (h : ns.Sound) (hf : ns.bindings.Fits) {src : BindingSlot}
    {newRev toRev : UInt64} {e : Errno} (hl : ns.bindings.lookup (surfaceKey source) = some src)
    (hlive : src.live = true)
    (hfail : (ns.surfaceMove src source dest newRev toRev).2 = .error e) :
    Same ns (ns.surfaceMove src source dest newRev toRev).1 := by
  have hfit := hf _ _ hl
  obtain ⟨a₁, hbury, hsound₁, hlookup₁⟩ := h.arena.tombstone_resident hl
    (Arena.bindFits_iff.mp hfit).1 newRev
  have hself : a₁.lookup (surfaceKey source) = some (src.bury newRev (ns.bindings.changeSeq + 1)) := by
    rw [hlookup₁, if_pos rfl]
  have hrem : ns.removeBinding (surfaceKey source) newRev = ({ ns with bindings := a₁ }, true) := by
    unfold removeBinding behindEviction
    dsimp only
    rw [hbury]
  have hback : (putBack a₁ src source).content = ns.bindings.content := by
    funext k
    rw [hsound₁.putBack_content hself hlive (h.arena.unlocked_of_lookup hl) hfit]
    split
    · next hk =>
      rw [hk, Arena.content, hl]
      rfl
    · next hk => rw [Arena.content, hlookup₁, if_neg hk, Arena.content]
  unfold surfaceMove at hfail ⊢
  rw [hrem] at hfail ⊢
  dsimp only at hfail ⊢
  cases hbind : a₁.bind (surfaceKey dest) src.objectId src.kind toRev src.metadata with
  | ok a' =>
    rw [hbind] at hfail
    cases hfail
  | error err =>
    rw [hbind] at hfail
    cases err with
    | outOfCapacity =>
      dsimp only at hfail ⊢
      cases hev : a₁.evictOneSnapshotted with
      | none => exact ⟨hback, rfl, rfl, rfl⟩
      | some a =>
        -- There is room now, and the bind is not refused.
        have hevicts := hsound₁.evicts hev
        obtain ⟨a', ha'⟩ := Arena.bind_of_room (b := a) hbind (fun hnone => by
          obtain ⟨s, -, -, -, hlk⟩ := hevicts.victim
          rw [hlk, hnone, ite_self]) hevicts.room
        rw [hev] at hfail
        dsimp only at hfail
        rw [ha'] at hfail
        cases hfail
    | _ => exact ⟨hback, rfl, rfl, rfl⟩

theorem Sound.surfaceRename_failed (h : ns.Sound) (hf : ns.bindings.Fits) {e : Errno}
    (hfail : (ns.surfaceRename io now source dest).2 = .error e) :
    Same ns (ns.surfaceRename io now source dest).1 := by
  unfold surfaceRename at hfail ⊢
  cases hs : ns.liveSlot source with
  | none => exact .refl ns
  | some p =>
    obtain ⟨hl, hlive⟩ := lookup_of_liveSlot hs
    rw [hs] at hfail
    dsimp only at hfail ⊢
    cases hv : ns.liveVolume io source with
    | error err => exact .refl ns
    | ok volume =>
      cases volume with
      | true => exact .refl ns
      | false =>
        rw [hv] at hfail
        dsimp only at hfail ⊢
        split
        · exact .refl ns
        · exact .refl ns
        · exact .refl ns
        · exact .refl ns
        · next hret hret' =>
          rw [hret, hret'] at hfail
          dsimp only at hfail
          split
          · exact .refl ns
          next hdest =>
          rw [if_neg hdest] at hfail
          split
          · exact .refl ns
          next hlocked =>
          rw [if_neg hlocked] at hfail
          exact h.surfaceMove_failed hf hl hlive hfail

/-! ## The request -/

/-- The two names of a request, each behind its length. -/
def renameArg (arg : Bytes) : Option (Bytes × Bytes) := do
  guard (2 ≤ arg.length)
  let fromLen := num arg 0 2
  guard (2 + fromLen + 2 ≤ arg.length)
  let toLen := num arg (2 + fromLen) 2
  guard (2 + fromLen + 2 + toLen ≤ arg.length)
  return (slice arg 2 fromLen, slice arg (2 + fromLen + 2) toLen)

/-- A request to rename, with an argument or none (`NS_OP_RENAME`). -/
def nsOpRename (ns : Namespace L) (io : ReadEnv) (now : UInt64) (arg : Option Bytes) :
    Namespace L × Except Errno Unit :=
  match arg.bind renameArg with
  | none => (ns, .error .inval)
  | some (source, dest) => ns.surfaceRename io now source dest

end Namespace

namespace Node

/-- How far the boot is (`BOOT_READY`, `BOOT_FAILED`, or between). -/
inductive Boot where
  | underway
  | failed
  | ready
deriving DecidableEq

variable {L : Limits}

/-- The request as it is dispatched: before the boot is done nothing is asked of the arena. -/
def dispatchRename (n : Node L) (boot : Boot) (io : ReadEnv) (now : UInt64) (arg : Option Bytes) :
    Node L × Except Errno Unit :=
  match boot with
  | .underway => (n, .error .again)
  | .failed => (n, .error .io)
  | .ready =>
    let (ns, res) := n.ns.nsOpRename io now arg
    ({ n with ns := ns }, res)

/-- **A rename is all or nothing.** In every state that is reached, a request that ends in an
error leaves every key with what the arena held of it: object, kind, revision, metadata, expiry
and lock. So a source that was live is live as it was, and each key reads as it did. -/
theorem rename_all_or_nothing (cfg : Bool) (es : List Event) (boot : Boot) (io : ReadEnv)
    (now : UInt64) (arg : Option Bytes) {e : Errno}
    (hfail : ((reached L cfg es).dispatchRename boot io now arg).2 = .error e) :
    let n := reached L cfg es
    let n' := (n.dispatchRename boot io now arg).1
    (∀ k, n'.ns.bindings.content k = n.ns.bindings.content k) ∧ n'.ns.view = n.ns.view ∧
      n' = { n with ns := { n.ns with bindings := n'.ns.bindings } } := by
  have hc := coherent_reached (L := L) cfg es
  generalize reached L cfg es = n at hfail hc
  have hsame : ∀ ns' : Namespace L, Namespace.Same n.ns ns' →
      (∀ k, ns'.bindings.content k = n.ns.bindings.content k) ∧ ns'.view = n.ns.view ∧
        ({ n with ns := ns' } : Node L) =
          { n with ns := { n.ns with bindings := ns'.bindings } } := fun ns' hs => by
    obtain ⟨hcontent, hleases, hgc, hsnap⟩ := hs
    refine ⟨congrFun hcontent, ?_, ?_⟩
    · funext k
      have hbinding : ns'.bindings.binding k = n.ns.bindings.binding k := by
        have hk := congrArg (·.map Prod.fst) (congrFun hcontent k)
        dsimp only [Arena.content] at hk
        rw [Option.map_map, Option.map_map] at hk
        exact hk
      rw [Namespace.view, Namespace.view, hbinding, hsnap]
    · cases ns'
      cases hleases
      cases hgc
      cases hsnap
      rfl
  cases boot with
  | underway => exact hsame n.ns (.refl _)
  | failed => exact hsame n.ns (.refl _)
  | ready =>
    refine hsame (n.ns.nsOpRename io now arg).1 ?_
    change (n.ns.nsOpRename io now arg).2 = .error e at hfail
    unfold Namespace.nsOpRename at hfail ⊢
    cases harg : arg.bind Namespace.renameArg with
    | none => exact .refl _
    | some names =>
      rw [harg] at hfail
      exact hc.sound.surfaceRename_failed hc.fits hfail

/-- A name is moved to one that is too long. -/
theorem rename_all_or_nothing_tooLong :
    let n := reached .minimal false [.surface (.bind [107] 0 false [1]) .allReady 5]
    let n' := (n.dispatchRename .ready .allReady 6
      (some ([1, 0, 107] ++ [161, 0] ++ List.replicate 161 97))).1
    (∀ k, n'.ns.bindings.content k = n.ns.bindings.content k) ∧ n'.ns.view = n.ns.view ∧
      n' = { n with ns := { n.ns with bindings := n'.ns.bindings } } :=
  rename_all_or_nothing (e := .inval) false _ .ready .allReady 6 _ (by decide +kernel)

end Node

end Loam

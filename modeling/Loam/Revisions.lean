import Loam.Effects

/-!
# Revisions

A key's revision is what orders the records about it, so it must not go back,
whichever tier holds the key. Most operations are gated on it; this module
says which are not, and what follows where they are not carried out.

By design, a volume commit does not look at a tombstone: a volume made anew
over a deleted one starts at revision 1, below the tombstone. A rename and
the provider surface gate on less than the key's current binding, and
`Node.gated` names the calls they then get wrong: a rename to a revision not
past both its names, a provider bind or rename onto a name only the snapshot
records, and the revisions that wrap.
-/

namespace Loam

/-- A key's revision does not go back, and is raised if its binding
changes. -/
def Rises (b b' : Option Binding) : Prop :=
  curRevision b ≤ curRevision b' ∧ (b' ≠ b → curRevision b < curRevision b')

theorem Rises.refl (b : Option Binding) : Rises b b := ⟨UInt64.le_refl _, fun h => absurd rfl h⟩

theorem Rises.of_eq {b b' : Option Binding} (h : b' = b) : Rises b b' := h ▸ Rises.refl b

theorem Rises.of_lt {b b' : Option Binding} (h : curRevision b < curRevision b') : Rises b b' :=
  ⟨UInt64.le_of_lt h, fun _ => h⟩

/-- The largest revision, which has none past it. -/
def maxRevision : UInt64 := 0xFFFFFFFFFFFFFFFF

theorem lt_succ_of_ne_max {r : UInt64} (h : r ≠ maxRevision) : r < r + 1 := by
  unfold maxRevision at h
  grind

/-- A volume bound anew at a key whose deletion the namespace still
records. -/
def Recreates (m : VolumeMsg) (b b' : Option Binding) : Prop :=
  m.mode = .commit ∧ m.expected = 0 ∧ (∃ t, b = some t ∧ t.live = false) ∧ b' = some (m.root 1)

namespace Namespace

variable {L : Limits} {ns : Namespace L}

/-- A rename's revision is past both its names: past the old one's, and what
the new one takes past what it holds. -/
def RenameRaises (ns : Namespace L) (m : RenameMsg) : Prop :=
  curRevision (ns.view ⟨m.root, m.source⟩) < m.newRevision ∧
    curRevision (ns.view ⟨m.root, m.dest⟩) <
      Arena.pastTombstone m.newRevision (ns.bindings.lookup ⟨m.root, m.dest⟩)

instance (m : RenameMsg) : Decidable (ns.RenameRaises m) :=
  inferInstanceAs (Decidable (_ ∧ _))

/-- A record's revision is gated: what it would write is past what its keys
hold. -/
def Gated (ns : Namespace L) : Record → Prop
  | .rename m =>
    judgeRename (ns.view ⟨m.root, m.source⟩) (ns.view ⟨m.root, m.dest⟩) m = .ok () →
      ns.bindings.canDo (.move m) = true → ns.RenameRaises m
  | .volume m => m.mode = .delete → m.expected ≠ maxRevision
  | _ => True

/-- A provider call's revision is gated: its paths' revisions do not wrap, and
where it writes a name anew the arena holds the name, or nothing does at its
revision. -/
def SurfaceGated (ns : Namespace L) : SurfaceOp → Prop
  | .lookup _ => True
  | .bind path _ _ _ =>
    ns.bindings.lookup (surfaceKey path) ≠ none ∨ curRevision (ns.view (surfaceKey path)) = 0
  | .delete path => curRevision (ns.view (surfaceKey path)) ≠ maxRevision
  | .rename source dest =>
    curRevision (ns.view (surfaceKey source)) ≠ maxRevision ∧
      curRevision (ns.view (surfaceKey dest)) ≠ maxRevision ∧
      (ns.bindings.lookup (surfaceKey dest) ≠ none ∨
        curRevision (ns.view (surfaceKey dest)) < curRevision (ns.view (surfaceKey source)) + 1)

/-! ## One write -/

/-- **What is put at a key is past its revision**, a volume made anew
apart. -/
theorem rises_of_puts {r : Record} {k : Key} {b : Binding} (hw : r.fromWire = true)
    (hg : ns.Gated r) (hp : Puts ns.view ns.leases ns.gcReserved r k b) :
    Rises (ns.view k) (some b) ∨ ∃ m, r = .volume m ∧ k = m.key ∧ Recreates m (ns.view k) (some b) := by
  cases hp with
  | bind m _ _ _ hj => exact .inl (.of_lt (of_judgeBind hj).1)
  | unbind m hj => exact .inl (.of_lt (of_judgeUnbind hj).2.1)
  | retain m b _ hj =>
    obtain ⟨c, hc, -, -, -, hlt, hb, -⟩ := of_judgeRetain hj
    refine .inl (.of_lt ?_)
    rw [hc, hb]
    exact hlt
  | restore => exact nomatch hw
  | delete m leases' _ hj =>
    obtain ⟨⟨c, hc, -, -, hrev⟩, hmode, -⟩ := of_judgeVolumeAt_delete hj
    refine .inl (.of_lt ?_)
    rw [hc, show curRevision (some c) = m.expected from hrev]
    exact lt_succ_of_ne_max (hg hmode)
  | commit m leases' next _ hj =>
    obtain ⟨rfl, hlt, hexp, -, hmode, -⟩ := of_judgeVolumeAt_commit hj
    cases hv : ns.view m.key with
    | none =>
      rw [hv] at hexp
      exact .inl (.of_lt (show (0 : UInt64) < m.expected + 1 by
        rw [show m.expected = 0 from hexp.symm]; decide))
    | some c =>
      rw [hv] at hexp
      cases hlive : c.live with
      | true =>
        rw [Option.filter_some_pos hlive] at hexp
        refine .inl (.of_lt ?_)
        rw [show curRevision (some c) = m.expected from hexp]
        exact hlt
      | false =>
        -- a tombstone: to a volume record the key is not bound
        rw [Option.filter_some_neg (by simp [hlive])] at hexp
        have h0 : m.expected = 0 := hexp.symm
        exact .inr ⟨m, rfl, rfl, hmode, h0, ⟨c, rfl, hlive⟩, by rw [h0]; rfl⟩

/-- What a rename writes is past both its names' revisions. -/
theorem rises_of_renameRaises {m : RenameMsg} (h : ns.RenameRaises m) (k : Key) :
    Rises (ns.view k) (ns.after (.move m) k) := by
  unfold after
  dsimp only
  cases hs : ns.view ⟨m.root, m.source⟩ with
  | none => exact .refl _
  | some src =>
    dsimp only
    by_cases hk : k = ⟨m.root, m.source⟩
    · rw [hk, Function.update_self]
      exact .of_lt h.1
    rw [Function.update_of_ne hk]
    by_cases hd : k = ⟨m.root, m.dest⟩
    · rw [hd, Function.update_self]
      exact .of_lt h.2
    · rw [Function.update_of_ne hd]
      exact .refl _

theorem rises_update {v : Key → Option Binding} {k₀ : Key} {b : Binding}
    (h : Rises (v k₀) (some b)) (k : Key) : Rises (v k) (Function.update v k₀ (some b) k) := by
  by_cases hk : k = k₀
  · rw [hk, Function.update_self]
    exact h
  · rw [Function.update_of_ne hk]
    exact .refl _

/-! ## One provider call -/

/-- **A gated provider call raises what it changes.** -/
theorem SurfaceOutcome.rises {now : UInt64} {op : SurfaceOp} {ns' : Namespace L}
    {res : Except Errno Unit} (ho : ns.SurfaceOutcome now op ns' res) (hg : ns.SurfaceGated op)
    (k : Key) : Rises (ns.view k) (ns'.view k) := by
  cases ho with
  | refused op e a' _ _ hv => exact .of_eq (congrFun hv k)
  | found => exact .refl _
  | bound path kind replace target rev a' _ _ hrev hlt _ hw =>
    rw [view_writes hw]
    refine rises_update (.of_lt ?_) k
    show _ < rev
    cases hl : ns.bindings.lookup (surfaceKey path) with
    | some s =>
      rw [view_of_lookup hl]
      exact hlt s hl
    | none =>
      -- the arena does not hold the name: the bind takes revision 1
      have h0 := hg.resolve_left (by simp [hl])
      have hn : ns.liveSlot path = none := liveSlot_eq_none_iff.mpr fun s hs =>
        nomatch hl.symm.trans hs
      simp only [surfaceRevision, hn, tombstoneRev, hl, Option.filter_none, Option.map_none,
        Option.getD_none] at hrev
      cases hrev
      rw [h0]
      decide
  | deleted path s a' _ hl _ hw =>
    rw [view_writes hw]
    refine rises_update (.of_lt ?_) k
    have hne : curRevision (ns.view (surfaceKey path)) ≠ maxRevision := hg
    rw [view_of_lookup hl] at hne ⊢
    exact lt_succ_of_ne_max hne
  | renamed source dest src a' hne _ _ hl _ hdead _ _ hv =>
    obtain ⟨hsmax, hdmax, hdst⟩ := hg
    have hkne : surfaceKey dest ≠ surfaceKey source := fun he => hne (congrArg Key.path he).symm
    have hcur : curRevision (ns.view (surfaceKey source)) = src.revision := by
      rw [view_of_lookup hl]
      rfl
    rw [hcur] at hsmax hdst
    rw [hv]
    by_cases hd : k = surfaceKey dest
    · rw [hd, Function.update_self]
      refine .of_lt ?_
      show _ < ns.surfaceDestRev dest (src.revision + 1)
      cases hld : ns.bindings.lookup (surfaceKey dest) with
      | none =>
        have := hdst.resolve_left (by simp [hld])
        simpa [surfaceDestRev, tombstoneRev, hld] using this
      | some d =>
        rw [view_of_lookup hld] at hdmax ⊢
        rw [surfaceDestRev, tombstoneRev_of_lookup hld (hdead d hld)]
        dsimp only
        split
        · exact lt_succ_of_ne_max hdmax
        · next hc => exact UInt64.not_le.mp hc
    · rw [Function.update_of_ne hd]
      refine rises_update (.of_lt ?_) k
      rw [hcur]
      exact lt_succ_of_ne_max hsmax

end Namespace

namespace Node

variable {L : Limits} {n : Node L}

/-- An event's revisions are gated. -/
def Gated (n : Node L) : Event → Prop
  | .feed r _ _ => n.ns.Gated r
  | .surface op _ _ => n.ns.SurfaceGated op
  | .crash => False
  | _ => True

theorem Coherent.rises (h : n.Coherent) {e : Event} (hg : n.Gated e) (k : Key) :
    Rises (n.ns.view k) ((n.step e).ns.view k) ∨
      ∃ m io proof, e = .feed (.volume m) io proof ∧ k = m.key ∧
        Recreates m (n.ns.view k) ((n.step e).ns.view k) := by
  cases e with
  | crash => exact hg.elim
  | surface op io now => exact .inl ((h.sound.surfaceOp_outcome h.fits io now op).rises hg k)
  | feed r io proof =>
    show Rises _ ((n.feed r io proof).1.ns.view k) ∨ _
    rcases h.feed_view r io proof with he | ⟨ht, hcan, hv⟩
    · exact .inl (.of_eq (congrFun he k))
    have hw : r.fromWire = true := by
      simp only [takes, Bool.and_eq_true] at ht
      exact ht.1.1
    have hstep : (n.step (.feed r io proof)).ns.view = n.ns.after (n.ns.judged r).effect := hv
    rw [hv]
    cases heff : (n.ns.judged r).effect with
    | keep => exact .inl (.refl _)
    | move m =>
      rw [heff] at hcan
      obtain ⟨rfl, hj⟩ := rename_of_judge heff
      exact .inl (Namespace.rises_of_renameRaises (hg hj hcan) k)
    | put k₀ b =>
      rcases Namespace.rises_of_puts hw hg (puts_of_judge heff) with hr | ⟨m, rfl, rfl, hrec⟩
      · exact .inl (Namespace.rises_update hr k)
      by_cases hk : k = m.key
      · refine .inr ⟨m, io, proof, rfl, hk, ?_⟩
        rw [hstep, heff, hk]
        simpa only [Namespace.after, Function.update_self] using hrec
      · refine .inl (.of_eq ?_)
        exact Function.update_of_ne hk _ _
  | compactStart | openDone | openFailed | merge | mergeFailed | finishDone | finishFailed
  | reopenDone | reopenFailed | rotate =>
    exact .inl (.of_eq (congrFun (h.internal rfl).1 k))

/-- **Revisions never go back**: in every reachable state, every operation
that is gated leaves each key at no lower a revision, and a higher one if it
changes the binding – but a volume commit that expects nothing bound makes
the volume anew, at revision 1, over the tombstone of a deleted one. -/
theorem revision_rises (cfg : Bool) (es : List Event) (e : Event)
    (hg : (reached L cfg es).Gated e) (k : Key) :
    Rises ((reached L cfg es).ns.view k) (((reached L cfg es).step e).ns.view k) ∨
      ∃ m io proof, e = .feed (.volume m) io proof ∧ k = m.key ∧
        Recreates m ((reached L cfg es).ns.view k) (((reached L cfg es).step e).ns.view k) :=
  (coherent_reached cfg es).rises hg k

/-! A volume bound, deleted and bound anew; and a rename that is gated. -/

/-- The path the examples bind. -/
def examplePath : Bytes := [107]

/-- A record fed from a client, its reads deciding. -/
def fed (r : Record) : Event := .feed r .allReady none

/-- A bind at revision 5 and its deletion at 6, then a writer's flush. -/
def deletedThenFlush : List Event :=
  [fed (.bind ⟨⟨[], examplePath⟩, ⟨5, 0, [1], Meta.none⟩, .any, 0⟩),
    fed (.unbind ⟨⟨[], examplePath⟩, 6, 0, .any, 0⟩),
    fed (.lease ⟨1, ⟨[], examplePath⟩, [7], 10, 1000⟩),
    fed (.volume ⟨.start, ⟨[], examplePath⟩, [], [7], 1, 0, 11⟩)]

/-- The commit of that flush, expecting nothing bound. -/
def flushCommit : Event :=
  fed (.volume ⟨.commit, ⟨[], examplePath⟩, [9], [7], 1, 0, 12⟩)

/-- **The commit takes the key from revision 6 back to 1.** -/
theorem commit_lowers_revision :
    curRevision ((reached .minimal true deletedThenFlush).ns.view ⟨[], examplePath⟩) = 6 ∧
      curRevision (((reached .minimal true deletedThenFlush).step flushCommit).ns.view
        ⟨[], examplePath⟩) = 1 := by
  decide

/-- A bind at revision 5. -/
def exampleBound : List Event :=
  [fed (.bind ⟨⟨[], examplePath⟩, ⟨5, 0, [1], Meta.none⟩, .any, 0⟩)]

/-- A rename of it at revision 6. -/
def exampleMove : Event := fed (.rename ⟨[], examplePath, [108], 6, 0⟩)

/-- The rename raises the old name's revision. -/
theorem revision_rises_witness :
    Rises ((reached .minimal true exampleBound).ns.view ⟨[], examplePath⟩)
        (((reached .minimal true exampleBound).step exampleMove).ns.view ⟨[], examplePath⟩) ∨
      ∃ m io proof, exampleMove = .feed (.volume m) io proof ∧ ⟨[], examplePath⟩ = m.key ∧
        Recreates m ((reached .minimal true exampleBound).ns.view ⟨[], examplePath⟩)
          (((reached .minimal true exampleBound).step exampleMove).ns.view
            ⟨[], examplePath⟩) :=
  revision_rises true exampleBound exampleMove (fun _ _ => by decide) ⟨[], examplePath⟩

end Node

end Loam

import Loam.Invariant

/-!
# What an operation does to the view

The effect of a judged record is had or not by the arena's room alone
(`Arena.canDo`), and what it then makes of the view is `Namespace.after`.
With `judge` this makes the view, the leases and the reservations after a
record a function of the same before it – up to `canDo`, and up to the one
place where a rename reads the arena itself.
-/

namespace Loam

namespace Arena

variable {L : Limits} {a a' : Arena L} {k : Key}

/-- A slot can be had for a key: its own, a free one, or one freed by an
eviction that spares `spare`. -/
def hasRoom (a : Arena L) (k : Key) (spare : Option Key) : Bool :=
  (a.lookup k).isSome || !a.full || (a.evictOneSnapshottedSparing spare).isSome

/-- The arena can carry an effect out. -/
def canDo (a : Arena L) : Effect → Bool
  | .keep => true
  | .put k b => bindFits L k b.objectId b.metadata && a.hasRoom k none
  | .move m => (a.binding ⟨m.root, m.source⟩).any Binding.live
      && (L.keyFits m.root m.source [] && L.keyFits m.root m.dest [])
      && a.hasRoom ⟨m.root, m.dest⟩ (some ⟨m.root, m.source⟩)

/-- With nothing to evict, shrinking loses nothing. -/
theorem Shrinks.lookup_eq {spare : Option Key} (ha : a.Sound) (h : a.Shrinks a' spare)
    (hev : a.evictOneSnapshottedSparing spare = none) (k : Key) : a'.lookup k = a.lookup k := by
  rcases h.slot k with he | ⟨-, hsp, s, hs, hsn⟩
  · exact he
  · exact nomatch hsn.symm.trans (ha.not_snapshotted_of_evict_eq_none hev hs hsp)

theorem Sound.hasRoom_of_adds (ha : a.Sound) {spare : Option Key} {a₁ : Arena L}
    (hs : a.Shrinks a₁ spare) (hk : a'.lookup k ≠ none)
    (hadd : ∀ k', a₁.lookup k' ≠ none → a'.lookup k' ≠ none) : a.hasRoom k spare = true := by
  by_contra hno
  simp only [hasRoom, Bool.or_eq_true, Bool.not_eq_true', not_or, Bool.not_eq_true,
    Option.isSome_eq_false_iff, Option.isNone_iff_eq_none, Bool.not_eq_false] at hno
  obtain ⟨⟨hnone, hfull⟩, hev⟩ := hno
  have hroom := ha.not_full_of_subset (b := a') (k := k)
    (fun k' hk' => hadd k' (by rwa [hs.lookup_eq ha hev])) hnone hk
  exact nomatch hfull.symm.trans hroom

theorem PutOutcome.ok_eq {b : Binding} {ok : Bool} (ha : a.Sound) (h : a.PutOutcome k b a' ok) :
    ok = a.canDo (.put k b) := by
  cases h with
  | tooLong hf => simp [canDo, hf]
  | noRoom _ hk hfull hu => simp [canDo, hasRoom, hk, hfull, ha.evict_eq_none hu]
  | wrote a₁ _ hf hs _ hw =>
    obtain ⟨-, -, s, -, hl⟩ := hw
    have hroom := @Sound.hasRoom_of_adds L a a' k ha _ _ hs (by simp [hl]) fun k' hk' => by
      rw [hl k']
      split
      · simp
      · exact hk'
    simp [canDo, hf, hroom]

theorem MoveOutcome.ok_eq {m : RenameMsg} {ok : Bool} (ha : a.Sound)
    (h : a.MoveOutcome m a' ok) : ok = a.canDo (.move m) := by
  cases h with
  | refused _ hs hwhy =>
    rcases hwhy with hl | hf | ⟨hd, hfull, hev⟩
    · simp [canDo, hl]
    · simp [canDo, hf]
    · simp [canDo, hasRoom, hd, hfull, hev]
  | moved a₁ _ src hf _ hs hl hlive hd _ hm =>
    obtain ⟨-, -, d, t, -, -, hmap⟩ := hm
    have hroom := @Sound.hasRoom_of_adds L a a' ⟨m.root, m.dest⟩ ha _ _ hs
      (by rw [hmap]; split <;> simp) fun k' hk' => by
        rw [hmap k']
        split
        · simp
        split
        · simp
        · exact hk'
    simp [canDo, hf, hroom, binding, hl, hlive]

/-- **An effect is carried out exactly when the arena can.** -/
theorem EffectOutcome.ok_eq {e : Effect} {ok : Bool} (ha : a.Sound)
    (h : a.EffectOutcome e a' ok) : ok = a.canDo e := by
  cases h with
  | keep => rfl
  | put hp => exact hp.ok_eq ha
  | move hm => exact hm.ok_eq ha

end Arena

/-! ## Which records have an effect -/

/-- A record that puts `b` at `k`, and what was judged of it. -/
inductive Puts {L : Limits} (v : Key → Option Binding) (leases : LeaseTable L)
    (gcReserved : List UInt64) : Record → Key → Binding → Prop where
  /-- A bind past the key's revision. -/
  | bind (m : BindMsg) : m.decodes L = true →
      gcReserved.contains (fnv1a64 m.binding.objectId) = false → m.binding.kind ≠ kindVolume →
      judgeBind (v m.key) m = .ok true → Puts v leases gcReserved (.bind m) m.key m.binding
  | unbind (m : UnbindMsg) : judgeUnbind (v m.key) m = .ok true →
      Puts v leases gcReserved (.unbind m) m.key (.tombstone m.revision)
  | retain (m : RetainMsg) (b : Binding) : m.decodes L = true →
      judgeRetain (v m.key) m = .ok (some b) → Puts v leases gcReserved (.retain m) m.key b
  | commit (m : VolumeMsg) (leases' : LeaseTable L) (next : UInt64) : m.decodes L = true →
      judgeVolumeAt leases (gcReserved.any (· != 0)) (v m.key) m = (leases', .commit next) →
      Puts v leases gcReserved (.volume m) m.key (m.root next)
  | delete (m : VolumeMsg) (leases' : LeaseTable L) : m.decodes L = true →
      judgeVolumeAt leases (gcReserved.any (· != 0)) (v m.key) m = (leases', .delete) →
      Puts v leases gcReserved (.volume m) m.key (.tombstone (m.expected + 1))
  | restore (m : BindMsg) (b : Binding) : curRevision (v m.key) < m.binding.revision →
      b = (if m.binding.kind = kindTombstone then .tombstone m.binding.revision
        else m.binding) →
      Puts v leases gcReserved (.bindingRestore m) m.key b

section Judge

variable {L : Limits} {v : Key → Option Binding} {leases : LeaseTable L}
  {gcReserved : List UInt64} {r : Record}

/-- **Whatever puts a binding is one of these.** -/
theorem puts_of_judge {k : Key} {b : Binding}
    (h : (judge v leases gcReserved r).effect = .put k b) : Puts v leases gcReserved r k b := by
  cases r with
  | gcReserve | gcRelease | undecodable => cases h
  | lease m =>
    simp only [judge] at h
    split at h <;> cases h
  | leaseRestore e f s =>
    simp only [judge] at h
    split at h <;> cases h
  | rename m =>
    simp only [judge] at h
    split at h <;> cases h
  | bind m =>
    simp only [judge] at h
    split at h
    · cases h
    next hdec =>
    split at h
    · cases h
    next hres =>
    split at h
    · cases h
    next hkind =>
    split at h
    · cases h
    · cases h
    next hj =>
    cases h
    exact .bind m (by simpa using hdec) (by simpa using hres) hkind hj
  | unbind m =>
    simp only [judge] at h
    split at h
    · cases h
    · cases h
    next hj =>
    cases h
    exact .unbind m hj
  | retain m =>
    simp only [judge] at h
    split at h
    · cases h
    next hdec =>
    split at h
    · cases h
    · cases h
    next hj =>
    cases h
    exact .retain m _ (by simpa using hdec) hj
  | volume m =>
    simp only [judge] at h
    split at h
    · cases h
    next hdec =>
    unfold judgeVolumeOp at h
    dsimp only at h
    split at h
    · cases h
    · next leases' next hj =>
      cases h
      exact .commit m leases' next (by simpa using hdec) hj
    · next leases' hj =>
      cases h
      exact .delete m leases' (by simpa using hdec) hj
  | bindingRestore m =>
    simp only [judge] at h
    split at h
    · cases h
    split at h
    · cases h
    next hrev =>
    split at h
    · next hk =>
      cases h
      exact .restore m _ (UInt64.not_le.mp hrev) (if_pos hk).symm
    · next hk =>
      cases h
      exact .restore m _ (UInt64.not_le.mp hrev) (if_neg hk).symm

theorem rename_of_judge {m : RenameMsg} (h : (judge v leases gcReserved r).effect = .move m) :
    r = .rename m ∧ judgeRename (v ⟨m.root, m.source⟩) (v ⟨m.root, m.dest⟩) m = .ok () := by
  cases he : (judge v leases gcReserved r).effect with
  | keep | put => cases he.symm.trans h
  | move m' =>
    cases r with
    | gcReserve | gcRelease | undecodable => cases h
    | rename m' =>
      simp only [judge] at h
      split at h
      · cases h
      next hj =>
      cases h
      exact ⟨rfl, hj⟩
    | bind | unbind | retain | lease | leaseRestore | bindingRestore =>
      simp only [judge] at h
      repeat' split at h
      all_goals cases h
    | volume m =>
      simp only [judge, judgeVolumeOp] at h
      repeat' split at h
      all_goals cases h

/-- An unbind that is to be done is of a live key, past its revision. -/
theorem of_judgeUnbind {cur : Option Binding} {m : UnbindMsg}
    (h : judgeUnbind cur m = .ok true) : isLive cur = true ∧ curRevision cur < m.revision ∧
      isRetained cur m.stampMs = false := by
  unfold judgeUnbind at h
  split at h
  · cases h
  split at h
  · split at h <;> cases h
  next hlive =>
  split at h
  · cases h
  next hrev =>
  split at h
  · cases h
  split at h
  · cases h
  next hret => exact ⟨by simpa using hlive, UInt64.not_le.mp hrev, by simpa using hret⟩

/-- A bind that is to be written replaces nothing retained and no volume. -/
theorem of_judgeBind {cur : Option Binding} {m : BindMsg} (h : judgeBind cur m = .ok true) :
    curRevision cur < m.binding.revision ∧ isVolume cur = false ∧
      isRetained cur m.binding.metadata.stampMs = false := by
  refine ⟨Namespace.lt_of_judgeBind h, ?_⟩
  unfold judgeBind at h
  dsimp only at h
  split at h
  · cases h
  next hv =>
  split at h
  · split at h <;> cases h
  split at h
  · cases h
  split at h
  · cases h
  split at h
  · cases h
  next hret => exact ⟨by simpa using hv, by simpa using hret⟩

theorem of_judgeRetain {cur : Option Binding} {m : RetainMsg} {b : Binding}
    (h : judgeRetain cur m = .ok (some b)) :
    ∃ c, cur = some c ∧ c.live = true ∧ c.kind ≠ kindVolume ∧ c.revision = m.expect ∧
      c.revision < m.revision ∧
      b = { c with
        revision := m.revision
        metadata := { c.metadata with
          retainUntilMs := b.metadata.retainUntilMs, hold := m.hold.apply c.metadata.hold } } ∧
      c.metadata.retainUntilMs ≤ b.metadata.retainUntilMs := by
  unfold judgeRetain at h
  split at h
  · cases h
  next c =>
  dsimp only at h
  split at h
  · cases h
  next hrev =>
  split at h
  · cases h
  next hcond =>
  split at h
  · cases h
  next hvol =>
  split at h
  · cases h
  next hun =>
  have hle : c.metadata.retainUntilMs ≤
      if m.retainUntilMs ≠ 0 then m.retainUntilMs else c.metadata.retainUntilMs := by
    split
    · next hne =>
      by_contra hlt
      exact hun ⟨hne, UInt64.not_le.mp hlt⟩
    · exact UInt64.le_refl _
  generalize (if m.retainUntilMs ≠ 0 then m.retainUntilMs else c.metadata.retainUntilMs)
    = newUntil at h hle
  split at h
  · cases h
  cases h
  obtain ⟨hexp, htomb⟩ := not_or.mp hcond
  exact ⟨c, rfl, by simpa [Binding.live] using htomb, hvol, by simpa using hexp,
    UInt64.not_le.mp hrev, rfl, hle⟩

theorem of_judgeVolumeAt_commit {res : Bool} {cur : Option Binding} {m : VolumeMsg}
    {leases' : LeaseTable L} {next : UInt64}
    (h : judgeVolumeAt leases res cur m = (leases', .commit next)) :
    next = m.expected + 1 ∧ m.expected < next ∧
      curRevision (cur.filter Binding.live) = m.expected ∧
      isRetained (cur.filter Binding.live) m.nowMs = false ∧
      m.mode = .commit ∧ m.objectId ≠ [] ∧
      (∃ t, leases.touch m.key m.nowMs = (t, some true) ∧
        t.holds m.key m.holder m.fence m.nowMs = true ∧ t.isFlushing m.key m.holder = true ∧
        leases' = t.setFlushing m.key m.holder false) := by
  unfold judgeVolumeAt at h
  dsimp only at h
  split at h
  · cases h
  split at h
  swap
  · cases h
  next t ht =>
  cases hm : m.mode with
  | start | abort | delete | other =>
    simp only [judgeVolumeMode, hm] at h
    repeat' split at h
    all_goals cases h
  | commit =>
    simp only [judgeVolumeMode, hm] at h
    split at h
    · cases h
    next hoid =>
    split at h
    · cases h
    next nx hnx =>
    split at h
    · cases h
    split at h
    · cases h
    next hholds =>
    split at h
    · cases h
    next hexp =>
    split at h
    · cases h
    next hfl =>
    split at h
    · cases h
    next hret =>
    cases h
    obtain ⟨rfl, hlt⟩ := checkedSucc_eq_some hnx
    exact ⟨rfl, hlt, by simpa using hexp, by simpa using hret, rfl, by simpa using hoid,
      t, ht, by simpa using hholds, by simpa using hfl, rfl⟩

theorem of_judgeVolumeAt_delete {res : Bool} {cur : Option Binding} {m : VolumeMsg}
    {leases' : LeaseTable L} (h : judgeVolumeAt leases res cur m = (leases', .delete)) :
    (∃ c, cur = some c ∧ c.live = true ∧ c.kind = kindVolume ∧ c.revision = m.expected) ∧
      m.mode = .delete ∧ (∃ t, leases.touch m.key m.nowMs = (t, some true) ∧
        t.holds m.key m.holder m.fence m.nowMs = true ∧
        leases' = t.setFlushing m.key m.holder false) := by
  unfold judgeVolumeAt at h
  dsimp only at h
  split at h
  · cases h
  split at h
  swap
  · cases h
  next t ht =>
  cases hm : m.mode with
  | start | abort | commit | other =>
    simp only [judgeVolumeMode, hm] at h
    repeat' split at h
    all_goals cases h
  | delete =>
    simp only [judgeVolumeMode, hm] at h
    split at h
    · cases h
    next hholds =>
    split at h
    · cases h
    next c hc =>
    split at h
    · next hvol =>
      cases h
      obtain ⟨hcur, hlive⟩ := Option.filter_eq_some_iff.mp hc
      exact ⟨⟨c, hcur, hlive, hvol.1, hvol.2⟩, rfl, t, ht, by simpa using hholds, rfl⟩
    · split at h <;> cases h

end Judge

namespace Namespace

variable {L : Limits} {ns : Namespace L}

/-- The view after an effect is carried out. -/
def after (ns : Namespace L) : Effect → Key → Option Binding
  | .keep => ns.view
  | .put k b => Function.update ns.view k (some b)
  | .move m =>
    match ns.view ⟨m.root, m.source⟩ with
    | none => ns.view
    | some src =>
      Function.update (Function.update ns.view ⟨m.root, m.dest⟩ (some (ns.movedBinding m src)))
        ⟨m.root, m.source⟩ (some (.tombstone m.newRevision))

/-- **The view after an effect**, carried out or not. -/
theorem Sound.view_effect (h : ns.Sound) {e : Effect} {a' : Arena L} {ok : Bool}
    (ho : ns.bindings.EffectOutcome e a' ok) :
    ({ ns with bindings := a' } : Namespace L).view
      = if ns.bindings.canDo e then ns.after e else ns.view := by
  rw [← ho.ok_eq h.arena]
  cases ho with
  | keep => rfl
  | put hp =>
    cases hp with
    | tooLong | noRoom => rfl
    | wrote a₁ _ _ hs _ hw =>
      rw [if_pos rfl, after, ← h.view_shrinks hs]
      exact @view_writes L { ns with bindings := a₁ } _ _ _ hw
  | move hm =>
    cases hm with
    | refused _ hs => exact h.view_shrinks hs
    | moved a₁ _ src _ _ hs hl _ hd _ hmv =>
      have hv := @view_moves L { ns with bindings := a₁ } _ _ _ hmv
      rw [if_pos rfl, after, view_of_lookup hl]
      dsimp only
      rw [show ({ ns with bindings := a' } : Namespace L).view = _ from hv, h.view_shrinks hs]
      simp only [movedBinding, hd]

/-- **What a record does**: nothing, if a read it needs is not decided, and
else what is judged of the view, as far as the arena can. -/
theorem Sound.applyOp_spec (h : ns.Sound) (r : Record) :
    (ns.applyOp .allReady r).1.view
        = (if ns.bindings.canDo (ns.judged r).effect then ns.after (ns.judged r).effect
          else ns.view) ∧
      (ns.applyOp .allReady r).1.leases = (ns.judged r).leases ∧
      (ns.applyOp .allReady r).1.gcReserved = (ns.judged r).gcReserved ∧
      (ns.applyOp .allReady r).2
        = (ns.judged r).answer (ns.bindings.canDo (ns.judged r).effect) := by
  obtain ⟨a', ok, hp, ho⟩ := h.applyOp_carries r
  rw [hp, ← ho.ok_eq h.arena]
  refine ⟨?_, rfl, rfl, rfl⟩
  have := h.view_effect ho
  rw [← ho.ok_eq h.arena] at this
  exact this

end Namespace

namespace Node

variable {L : Limits} {n : Node L}

/-- **What feeding a record does to the namespace**: nothing, and the record is
refused; or, the record having been taken, what is judged of it, as far as the
arena can. -/
theorem Coherent.feed_spec (h : n.Coherent) (r : Record) (io : ReadEnv) (proof : Option Bool) :
    ((n.feed r io proof).1.ns = n.ns ∧ (n.feed r io proof).2.isRefusal = true) ∨
      (n.takes r = true ∧
        (n.feed r io proof).1.ns.view
          = (if n.ns.bindings.canDo (n.ns.judged r).effect then n.ns.after (n.ns.judged r).effect
            else n.ns.view) ∧
        (n.feed r io proof).1.ns.leases = (n.ns.judged r).leases ∧
        (n.feed r io proof).1.ns.gcReserved = (n.ns.judged r).gcReserved ∧
        (n.feed r io proof).2
          = (n.ns.judged r).answer (n.ns.bindings.canDo (n.ns.judged r).effect)) := by
  unfold Node.feed
  split
  · exact .inl ⟨rfl, rfl⟩
  next ht =>
  rcases h.sound.applyOp_cases io r with ⟨f, hf, -⟩ | he
  · rw [hf]
    refine .inl ?_
    cases f <;> exact ⟨rfl, rfl⟩
  rw [he]
  obtain ⟨hv, hl, hg, hans⟩ := h.sound.applyOp_spec r
  rcases hp : n.ns.applyOp .allReady r with ⟨ns, v⟩
  rw [hp] at hv hl hg hans
  have ht : n.takes r = true := by simpa using ht
  cases v with
  | refused f =>
    cases f with
    | pending => exact .inl ⟨rfl, rfl⟩
    | _ => exact .inr ⟨ht, hv, hl, hg, hans⟩
  | _ => exact .inr ⟨ht, hv, hl, hg, hans⟩

/-- **What feeding a record does to the view**: nothing, or what was judged of
it, the record having been taken and the arena able. -/
theorem Coherent.feed_view (h : n.Coherent) (r : Record) (io : ReadEnv) (proof : Option Bool) :
    (n.feed r io proof).1.ns.view = n.ns.view ∨
      (n.takes r = true ∧ n.ns.bindings.canDo (n.ns.judged r).effect = true ∧
        (n.feed r io proof).1.ns.view = n.ns.after (n.ns.judged r).effect) := by
  rcases h.feed_spec r io proof with ⟨he, -⟩ | ⟨ht, hv, -⟩
  · exact .inl (by rw [he])
  cases hc : n.ns.bindings.canDo (n.ns.judged r).effect with
  | false => exact .inl (hv.trans (by rw [hc]; rfl))
  | true => exact .inr ⟨ht, rfl, hv.trans (by rw [hc]; rfl)⟩

end Node

end Loam

import Loam.ArenaNumbers
import Loam.Revisions

/-!
# Handles

A provider LOOKUP opens a handle onto the entry it resolves: the handle pins the
entry's slot of the arena, and the revision that was seen. A STAT on the handle
answers from the slot if it is occupied at that revision, and otherwise that the
handle is stale.

Nothing pins the slot. It can be evicted and taken by another name, whose revisions
are numbers of its own; and the entry of the name itself can be overwritten at the
revision it has, by a rename. A STAT then answers of another binding. What a record or
a call writes, and to which slot, is told from it and the state before it
(`Node.writes`). Where none of it goes to a pinned slot at the pinned revision, what a
STAT answers is the binding that was looked up, and the name is still bound to it
(`stats_true`).
-/

namespace Loam

/-! ## The table -/

/-- The handles there can be (`NS_OPEN_MAX`). -/
def nsOpenMax : ℕ := 16

/-- A handle (`NsOpenSlot`). -/
structure NsOpenSlot where
  slot : ℕ
  revision : UInt64
  /-- The owner record of who opened it: the handle answers it alone. -/
  owner : UInt64
deriving DecidableEq

/-- An open handle, and what its lookup resolved. Nothing reads the latter. -/
structure Opened where
  handle : NsOpenSlot
  path : Bytes
  bound : Binding
deriving DecidableEq

/-- What a call on handles fails with. -/
inductive HandleErrno where
  /-- The arguments do not fit, or the handle is not the caller's (`E_INVAL`). -/
  | inval
  /-- No such name, or the handle is stale (`E_NOENT`). -/
  | noent
  /-- Every handle is in use (`E_MFILE`). -/
  | mfile
deriving DecidableEq

/-- What a STAT writes. -/
structure StatAnswer where
  kind : UInt8
  revision : UInt64
  target : Bytes
deriving DecidableEq

/-- What a STAT writes of a binding. -/
def StatAnswer.of (b : Binding) : StatAnswer := ⟨b.kind, b.revision, b.objectId⟩

/-- The bytes that a STAT of an object writes. -/
def statNeed (target : Bytes) : ℕ := 1 + 8 + 2 + target.length

/-- A namespace instance with its handles. -/
structure HandleWorld (L : Limits) where
  node : Node L
  /-- The handles, `none` one that is not in use. -/
  table : List (Option Opened)

namespace HandleWorld

variable {L : Limits} {w : HandleWorld L}

/-- A first boot. -/
def init (L : Limits) (walConfigured : Bool) : HandleWorld L :=
  ⟨Node.init L walConfigured, List.replicate nsOpenMax none⟩

/-- The handles that are open. -/
def opened (w : HandleWorld L) : List Opened := w.table.filterMap id

/-- The handle, if the caller opened it (`ns_open_by_caller`). The kernel may not name
the caller. -/
def openByCaller (w : HandleWorld L) (caller : Option UInt64) (i : ℕ) : Option Opened :=
  w.table[i]?.join.filter fun o => caller == some o.handle.owner

/-- LOOKUP (`alloc_handle`). -/
def lookup (w : HandleWorld L) (caller : Option UInt64) (path : Bytes) :
    HandleWorld L × Except HandleErrno ℕ :=
  if path = [] then (w, .error .inval)
  else match w.node.ns.liveSlot path, caller with
    | none, _ => (w, .error .noent)
    | some _, none => (w, .error .inval)
    | some (s, i), some owner =>
      match w.table.findIdx? Option.isNone with
      | some j =>
        ({ w with table := w.table.set j (some ⟨⟨i, s.revision, owner⟩, path, s.toBinding⟩) },
          .ok j)
      | none => (w, .error .mfile)

/-- STAT, into so many bytes. -/
def stat (w : HandleWorld L) (caller : Option UInt64) (i argLen : ℕ) :
    Except HandleErrno StatAnswer :=
  match w.openByCaller caller i with
  | none => .error .inval
  | some o =>
    match w.node.ns.bindings.slots[o.handle.slot]?.join with
    | none => .error .noent
    | some s =>
      if s.revision = o.handle.revision then
        if argLen < statNeed s.objectId then .error .inval
        else .ok ⟨s.kind, s.revision, s.objectId⟩
      else .error .noent

/-- CLOSE. -/
def close (w : HandleWorld L) (caller : Option UInt64) (i : ℕ) : HandleWorld L :=
  if (w.openByCaller caller i).isSome then { w with table := w.table.set i none } else w

/-- An owner goes away (`owner_released`). -/
def ownerReleased (w : HandleWorld L) (owner : UInt64) : HandleWorld L :=
  { w with table := w.table.map fun o => o.filter fun o => o.handle.owner != owner }

end HandleWorld

/-- The process ends. -/
def Event.isCrash : Event → Bool
  | .crash => true
  | _ => false

/-- What happens to an instance and its handles. -/
inductive HandleEvent where
  /-- An event of the instance; a process that boots has no handles open. -/
  | node (e : Event)
  | lookup (caller : Option UInt64) (path : Bytes)
  | close (caller : Option UInt64) (i : ℕ)
  | ownerReleased (owner : UInt64)

namespace HandleWorld

variable {L : Limits} {w : HandleWorld L} {o : Opened}

/-- One event. -/
def step (w : HandleWorld L) : HandleEvent → HandleWorld L
  | .node e =>
    ⟨w.node.step e, if e.isCrash then List.replicate nsOpenMax none else w.table⟩
  | .lookup caller path => (w.lookup caller path).1
  | .close caller i => w.close caller i
  | .ownerReleased owner => w.ownerReleased owner

/-- **A step keeps the handles true**: of what it writes, nothing goes to the slot of a
handle that is open at the revision the handle pins, but what was looked up itself. -/
def Keeps (w : HandleWorld L) : HandleEvent → Prop
  | .node e => ∀ o ∈ w.opened, ∀ x ∈ w.node.writes e, x.slot = o.handle.slot →
    x.binding.revision = o.handle.revision → x.key = surfaceKey o.path ∧ x.binding = o.bound
  | _ => True

instance (w : HandleWorld L) : (e : HandleEvent) → Decidable (w.Keeps e)
  | .node e => inferInstanceAs (Decidable (∀ o ∈ w.opened, ∀ x ∈ w.node.writes e, _ → _ → _))
  | .lookup .. | .close .. | .ownerReleased _ => .isTrue trivial

/-- **A STAT is true**: what it answers on an open handle is the binding that was looked
up, which the name still has; and to who opened it, with room for that, it answers this
or that the handle is stale. -/
def StatsTrue (w : HandleWorld L) : Prop :=
  ∀ (i : ℕ) (o : Opened), w.table[i]? = some (some o) → o.bound.revision = o.handle.revision ∧
    (∀ caller argLen ans, w.stat caller i argLen = .ok ans →
      ans = .of o.bound ∧ w.node.ns.view (surfaceKey o.path) = some o.bound) ∧
    ∀ argLen, statNeed o.bound.objectId ≤ argLen →
      w.stat (some o.handle.owner) i argLen = .ok (.of o.bound) ∨
        w.stat (some o.handle.owner) i argLen = .error .noent

/-! ## One step -/

/-- What is known of an open handle: at the revision it pins, its slot holds nothing but
what was looked up. -/
structure Pinned (n : Node L) (o : Opened) : Prop where
  revision : o.bound.revision = o.handle.revision
  slot : ∀ s, (s, o.handle.slot) ∈ n.ns.bindings.occupied → s.revision = o.handle.revision →
    s.toKey = surfaceKey o.path ∧ s.toBinding = o.bound

theorem mem_opened : o ∈ w.opened ↔ ∃ i : ℕ, w.table[i]? = some (some o) := by
  rw [opened, List.mem_filterMap]
  constructor
  · rintro ⟨_, hm, rfl⟩
    exact List.mem_iff_getElem?.mp hm
  · rintro ⟨i, hi⟩
    exact ⟨some o, List.mem_of_getElem? hi, rfl⟩

/-- A slot at the revision of a handle is of its name, and holds what was looked up. -/
theorem Pinned.bound {n : Node L} (h : Pinned n o) (hs : n.ns.Sound) {s : BindingSlot}
    (hslot : n.ns.bindings.slots[o.handle.slot]?.join = some s)
    (hrev : s.revision = o.handle.revision) :
    s.toBinding = o.bound ∧ n.ns.view (surfaceKey o.path) = some o.bound := by
  have hmem : (s, o.handle.slot) ∈ n.ns.bindings.occupied :=
    Arena.mem_occupied.mpr (Option.join_eq_some_iff.mp hslot)
  obtain ⟨hkey, hbound⟩ := h.slot s hmem hrev
  exact ⟨hbound, hbound ▸ Namespace.view_of_lookup (hkey ▸ hs.arena.lookup_of_mem hmem)⟩

theorem StatsTrue.of_pinned (hs : w.node.ns.Sound) (h : ∀ o ∈ w.opened, Pinned w.node o) :
    w.StatsTrue := by
  intro i o hi
  have hpin := h o (mem_opened.mpr ⟨i, hi⟩)
  have hopen : ∀ caller o', w.openByCaller caller i = some o' → o' = o := by
    intro caller o' ho
    rw [openByCaller, hi, Option.filter_eq_some_iff] at ho
    exact (Option.some.inj ho.1).symm
  refine ⟨hpin.revision, fun caller argLen ans hans => ?_, fun argLen hlen => ?_⟩
  · unfold stat at hans
    split at hans
    · cases hans
    next o' ho =>
    obtain rfl := hopen caller o' ho
    split at hans
    · cases hans
    next s hslot =>
    split at hans
    · next hrev =>
      obtain ⟨hb, hview⟩ := hpin.bound hs hslot hrev
      split at hans
      · cases hans
      cases hans
      exact ⟨by rw [← hb]; rfl, hview⟩
    · cases hans
  · have hmine : w.openByCaller (some o.handle.owner) i = some o := by
      simp [openByCaller, hi]
    unfold stat
    rw [hmine]
    dsimp only
    split
    · exact .inr rfl
    next s hslot =>
    split
    · next hrev =>
      obtain ⟨hb, -⟩ := hpin.bound hs hslot hrev
      rw [← hb] at hlen
      rw [if_neg (Nat.not_lt.mpr hlen), ← hb]
      exact .inl rfl
    · exact .inr rfl

/-- What a lookup finds is pinned by its handle. -/
theorem pinned_lookup {n : Node L} (hs : n.ns.Sound) {path : Bytes} {s : BindingSlot} {i : ℕ}
    (hl : n.ns.liveSlot path = some (s, i)) (owner : UInt64) :
    Pinned n ⟨⟨i, s.revision, owner⟩, path, s.toBinding⟩ := by
  obtain ⟨hloc, -⟩ := Option.filter_eq_some_iff.mp hl
  obtain ⟨hmem, hkey⟩ := hs.arena.locate_eq_some_iff.mp hloc
  refine ⟨rfl, fun t ht _ => ?_⟩
  obtain rfl := Arena.eq_of_mem_occupied ht hmem
  exact ⟨hkey, rfl⟩

/-- **What an event of a running instance leaves in a pinned slot** at the revision that is
pinned is what was looked up, if it writes nothing else there. -/
theorem Pinned.step {n : Node L} (h : Pinned n o) (hs : n.Coherent) {e : Event}
    (he : e ≠ .crash) (hk : ∀ x ∈ n.writes e, x.slot = o.handle.slot →
      x.binding.revision = o.handle.revision → x.key = surfaceKey o.path ∧ x.binding = o.bound) :
    Pinned (n.step e) o := by
  refine ⟨h.revision, fun s hm hrev => ?_⟩
  -- a slot that has what it had
  have hold : ∀ t, (t, o.handle.slot) ∈ n.ns.bindings.occupied → t.toKey = s.toKey →
      t.toBinding = s.toBinding → s.toKey = surfaceKey o.path ∧ s.toBinding = o.bound := by
    intro t ht htk htb
    rw [← htk, ← htb]
    exact h.slot t ht ((congrArg Binding.revision htb).trans hrev)
  obtain ⟨ws, htr, -, hws⟩ | ⟨-, tag, hf⟩ := hs.trace he
  · rcases hws with hws | ⟨hview, hown⟩
    · rcases htr.lands hm with ⟨t, ht, htk, htb⟩ | hw
      · exact hold t ht htk htb
      · exact hk _ (hws _ hw) rfl hrev
    -- a call that was refused has put back what it found
    obtain ⟨t, ht, htk⟩ := htr.own hown hm
    have hafter := Namespace.view_of_lookup ((hs.step e).sound.arena.lookup_of_mem hm)
    have hbefore := Namespace.view_of_lookup (hs.sound.arena.lookup_of_mem ht)
    rw [hview, ← htk, hbefore] at hafter
    exact hold t ht htk (Option.some.inj hafter)
  · rw [hf] at hm
    obtain ⟨t, ht, rfl⟩ := Arena.mem_occupied_finalizeEmitted.mp hm
    exact hold t ht (Arena.toKey_promote tag).symm (Arena.toBinding_promote tag).symm

/-- **A step that keeps the handles true keeps them pinned.** -/
theorem pinned_step (hs : w.node.Coherent) (h : ∀ o ∈ w.opened, Pinned w.node o)
    (e : HandleEvent) (hk : w.Keeps e) :
    (w.step e).node.Coherent ∧ ∀ o ∈ (w.step e).opened, Pinned (w.step e).node o := by
  cases e with
  | node e =>
    refine ⟨hs.step e, fun o ho => ?_⟩
    cases hcrash : e.isCrash with
    | true =>
      obtain ⟨i, hi⟩ := mem_opened.mp ho
      simp [step, hcrash, List.getElem?_replicate] at hi
    | false =>
      simp only [opened, step, hcrash, Bool.false_eq_true, if_false] at ho
      exact (h o ho).step hs (by rintro rfl; cases hcrash) (hk o ho)
  | lookup caller path =>
    have hsame : (w.lookup caller path).1.node = w.node := by
      unfold lookup
      split
      · rfl
      split
      · rfl
      · rfl
      · split <;> rfl
    refine ⟨by rw [show (w.step (.lookup caller path)).node = w.node from hsame]; exact hs,
      fun o ho => ?_⟩
    show Pinned (w.lookup caller path).1.node o
    rw [hsame]
    obtain ⟨k, hk⟩ := mem_opened.mp ho
    change (w.lookup caller path).1.table[k]? = _ at hk
    unfold lookup at hk
    split at hk
    · exact h o (mem_opened.mpr ⟨k, hk⟩)
    cases hl : w.node.ns.liveSlot path with
    | none =>
      rw [hl] at hk
      exact h o (mem_opened.mpr ⟨k, hk⟩)
    | some p =>
      cases caller with
      | none =>
        rw [hl] at hk
        exact h o (mem_opened.mpr ⟨k, hk⟩)
      | some owner =>
        simp only [hl] at hk
        split at hk
        · next j hfree =>
          dsimp only at hk
          rw [List.getElem?_set] at hk
          split at hk
          · split at hk
            · cases hk
              exact pinned_lookup hs.sound hl owner
            · cases hk
          · exact h o (mem_opened.mpr ⟨k, hk⟩)
        · exact h o (mem_opened.mpr ⟨k, hk⟩)
  | close caller i =>
    have hsame : (w.close caller i).node = w.node := by
      unfold close
      split <;> rfl
    refine ⟨by rw [show (w.step (.close caller i)).node = w.node from hsame]; exact hs,
      fun o ho => ?_⟩
    show Pinned (w.close caller i).node o
    rw [hsame]
    obtain ⟨k, hk⟩ := mem_opened.mp ho
    change (w.close caller i).table[k]? = _ at hk
    unfold close at hk
    split at hk
    · dsimp only at hk
      rw [List.getElem?_set] at hk
      split at hk
      · split at hk <;> cases hk
      · exact h o (mem_opened.mpr ⟨k, hk⟩)
    · exact h o (mem_opened.mpr ⟨k, hk⟩)
  | ownerReleased owner =>
    refine ⟨hs, fun o ho => ?_⟩
    obtain ⟨k, hk⟩ := mem_opened.mp ho
    simp only [step, ownerReleased, List.getElem?_map, Option.map_eq_some_iff] at hk
    obtain ⟨o', hk', hf⟩ := hk
    obtain ⟨rfl, -⟩ := Option.filter_eq_some_iff.mp hf
    exact h o (mem_opened.mpr ⟨k, hk'⟩)

/-! ## Runs -/

/-- **A handle is pinned to its binding** in every run whose steps keep the handles
true: whatever is written, evicted and taken again, a STAT on a handle answers the
binding that was looked up, at its revision, or that the handle is stale. -/
theorem stats_true (L : Limits) (walConfigured : Bool) (es : List HandleEvent)
    (h : Run.AllSteps step Keeps (init L walConfigured) es) :
    (Run.run step (init L walConfigured) es).StatsTrue := by
  have hinit : ∀ o ∈ (init L walConfigured).opened, Pinned (init L walConfigured).node o := by
    intro o ho
    obtain ⟨i, hi⟩ := mem_opened.mp ho
    simp [init, List.getElem?_replicate] at hi
  have hrun := Run.invariant
    (I := fun w : HandleWorld L => w.node.Coherent ∧ ∀ o ∈ w.opened, Pinned w.node o)
    (fun _ e hi hk => pinned_step hi.1 hi.2 e hk) ⟨Node.coherent_init walConfigured, hinit⟩ h
  exact .of_pinned hrun.1.sound hrun.2

/-! A path is bound at revision 5, and a handle opened onto it. -/

/-- The bind, and the lookup. -/
def exampleOpen : List HandleEvent :=
  [.node (Node.fed (.bind ⟨⟨[], Node.examplePath⟩, ⟨5, 0, [1], Meta.none⟩, .any, 0⟩)),
    .lookup (some 9) Node.examplePath]

/-- Another name is bound at the same revision, and the path again, at revision 6. -/
def exampleLater : List HandleEvent :=
  [.node (Node.fed (.bind ⟨⟨[], [109]⟩, ⟨5, 0, [3], Meta.none⟩, .any, 0⟩)),
    .node (Node.fed (.bind ⟨⟨[], Node.examplePath⟩, ⟨6, 0, [2], Meta.none⟩, .any, 0⟩))]

/-- It is renamed, at the revision it has. -/
def exampleAway : HandleEvent := .node (Node.fed (.rename ⟨[], Node.examplePath, [108], 5, 0⟩))

theorem stats_true_rebound :
    (Run.run step (init .minimal true) (exampleOpen ++ exampleLater)).StatsTrue ∧
      (Run.run step (init .minimal true) (exampleOpen ++ exampleLater.take 1)).stat (some 9) 0 64
        = .ok ⟨0, 5, [1]⟩ ∧
      (Run.run step (init .minimal true) (exampleOpen ++ exampleLater)).stat (some 9) 0 64
        = .error .noent := by
  exact ⟨stats_true .minimal true (exampleOpen ++ exampleLater) (by decide +kernel), by decide,
    by decide⟩

/-- **A STAT answers a deletion**: the rename leaves a tombstone in the slot, at the
revision that the handle pins. -/
theorem stat_of_tombstone :
    (Run.run step (init .minimal true) (exampleOpen ++ [exampleAway])).stat (some 9) 0 64
        = .ok ⟨kindTombstone, 5, []⟩ ∧
      ¬ (Run.run step (init .minimal true) (exampleOpen ++ [exampleAway])).StatsTrue := by
  have hstat : (Run.run step (init .minimal true) (exampleOpen ++ [exampleAway])).stat (some 9) 0 64
      = .ok ⟨kindTombstone, 5, []⟩ := by decide
  have hopen : (Run.run step (init .minimal true) (exampleOpen ++ [exampleAway])).table[0]? =
      some (some ⟨⟨0, 5, 9⟩, Node.examplePath, ⟨5, 0, [1], Meta.none⟩⟩) := by decide
  refine ⟨hstat, fun h => ?_⟩
  -- a true one would answer the object
  have htrue := ((h 0 _ hopen).2.1 _ _ _ hstat).1
  exact absurd htrue (by decide)

end HandleWorld

end Loam

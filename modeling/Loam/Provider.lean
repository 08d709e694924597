import Loam.Judge

/-!
# The provider surface

The namespace is also called directly, over one flat keyspace: the paths of
the empty root. A provider bind, delete or rename reads the clock instead of
a stamp, assigns revisions itself, and writes the arena without passing
through the log.

Its existence questions go through `liveSlot` and `tombstoneRev`, which scan
the arena, while its volume and retention questions read both tiers as the
record judge does.
-/

namespace Loam

/-- What a provider call answers when it fails. -/
inductive Errno where
  /-- The arguments do not fit (`E_INVAL`). -/
  | inval
  /-- No such name (`E_NOENT`). -/
  | noent
  /-- The name is taken (`E_EXIST`). -/
  | exist
  /-- A volume is not this surface's to change (`E_PERM`). -/
  | perm
  /-- The snapshot could not be read (`E_IO`). -/
  | io
  /-- The arena is full (`E_NOMEM`). -/
  | nomem
  /-- A snapshot read is being fetched (`E_AGAIN`). -/
  | again
  /-- The binding is retained or held (`E_RETAINED`). -/
  | retained
deriving DecidableEq

/-- The key of a provider path. -/
def surfaceKey (path : Bytes) : Key := ⟨[], path⟩

namespace Namespace

variable {L : Limits}

/-! ## What the surface asks -/

/-- The live arena slot of a path (`live_slot`). -/
def liveSlot (ns : Namespace L) (path : Bytes) : Option (BindingSlot × ℕ) :=
  (ns.bindings.locate (surfaceKey path)).filter fun p => p.1.live

/-- The revision of the arena's tombstone at a path (`tombstone_rev`). -/
def tombstoneRev (ns : Namespace L) (path : Bytes) : Option UInt64 :=
  ((ns.bindings.lookup (surfaceKey path)).filter fun s => !s.live).map (·.revision)

/-- A read as this surface answers it: ask again, or an I/O error. -/
def surfaceRead (ns : Namespace L) (io : ReadEnv) (path : Bytes) :
    Except Errno (Option Binding) :=
  match ns.read io (surfaceKey path) with
  | .ok cur => .ok cur
  | .error .pending => .error .again
  | .error _ => .error .io

/-- Is the path bound as a volume (`live_volume`)? -/
def liveVolume (ns : Namespace L) (io : ReadEnv) (path : Bytes) : Except Errno Bool :=
  (ns.surfaceRead io path).map isVolume

/-- Does the path's binding refuse change at `now` (`surface_retained`)? -/
def surfaceRetained (ns : Namespace L) (io : ReadEnv) (path : Bytes) (now : UInt64) :
    Except Errno Bool :=
  (ns.surfaceRead io path).map fun cur => isRetained cur now

/-! ## The operations -/

/-- LOOKUP: the slot and revision a handle pins. -/
def surfaceLookup (ns : Namespace L) (path : Bytes) : Except Errno (ℕ × UInt64) :=
  match ns.liveSlot path with
  | some (s, i) => .ok (i, s.revision)
  | none => .error .noent

/-- The revision a bind at a path takes: past the live binding if it may be
replaced, past the arena's tombstone, or 1. -/
def surfaceRevision (ns : Namespace L) (path : Bytes) (replace : Bool) :
    Except Errno UInt64 :=
  match ns.liveSlot path with
  | some (s, _) => if replace then .ok (s.revision + 1) else .error .exist
  | none => .ok (((ns.tombstoneRev path).map (· + 1)).getD 1)

/-- BIND. The kind byte is the caller's, a volume excepted. -/
def surfaceBind (ns : Namespace L) (io : ReadEnv) (now : UInt64) (path : Bytes)
    (kind : UInt8) (replace : Bool) (target : Bytes) : Namespace L × Except Errno Unit :=
  if kind = kindVolume then (ns, .error .perm)
  else match ns.liveVolume io path with
    | .error e => (ns, .error e)
    | .ok true => (ns, .error .perm)
    | .ok false =>
      match ns.surfaceRetained io path now with
      | .error e => (ns, .error e)
      | .ok true => (ns, .error .retained)
      | .ok false =>
        match ns.surfaceRevision path replace with
        | .error e => (ns, .error e)
        | .ok revision =>
          match ns.bindings.bind (surfaceKey path) target kind revision Meta.none with
          | .ok a => ({ ns with bindings := a }, .ok ())
          | .error .keyTooLong => (ns, .error .inval)
          | .error .outOfCapacity => (ns, .error .nomem)
          | .error _ => (ns, .error .exist)

/-- DELETE. -/
def surfaceDelete (ns : Namespace L) (io : ReadEnv) (now : UInt64) (path : Bytes) :
    Namespace L × Except Errno Unit :=
  match ns.liveVolume io path with
  | .error e => (ns, .error e)
  | .ok true => (ns, .error .perm)
  | .ok false =>
    match ns.surfaceRetained io path now with
    | .error e => (ns, .error e)
    | .ok true => (ns, .error .retained)
    | .ok false =>
      match ns.liveSlot path with
      | none => (ns, .error .noent)
      | some (s, _) =>
        match ns.bindings.tombstone (surfaceKey path) (s.revision + 1) with
        | .ok a => ({ ns with bindings := a }, .ok ())
        | .error .keyTooLong => (ns, .error .inval)
        | .error _ => (ns, .error .noent)

/-- Put an expiry on a path, if it has one. -/
def carryExpiry (a : Arena L) (path : Bytes) (expiresAt : UInt64) : Arena L :=
  if expiresAt = 0 then a
  else match a.setExpiry (surfaceKey path) expiresAt with
    | .ok a' => a'
    | .error _ => a

/-- The old name as it was, put back over its own tombstone. -/
def putBack (a : Arena L) (src : BindingSlot) (source : Bytes) : Arena L :=
  let back := match a.commitBind (surfaceKey source) src.objectId src.kind src.revision
      src.metadata with
    | .ok a' => a'
    | .error _ => a
  carryExpiry back source src.expiresAt

/-- The move itself: a tombstone at the old name, then a bind of the new one
behind an eviction; when that fails the old name is put back. -/
def surfaceMove (ns : Namespace L) (src : BindingSlot) (source dest : Bytes)
    (newRev toRev : UInt64) : Namespace L × Except Errno Unit :=
  match ns.removeBinding (surfaceKey source) newRev with
  | (ns, false) => (ns, .error .noent)
  | (ns, true) =>
    let attempt (a : Arena L) :=
      a.bind (surfaceKey dest) src.objectId src.kind toRev src.metadata
    let (a, res) := match attempt ns.bindings with
      | .error .outOfCapacity =>
        match ns.bindings.evictOneSnapshotted with
        | some e => (e, attempt e)
        | none => (ns.bindings, .error .outOfCapacity)
      | r => (ns.bindings, r)
    match res with
    | .ok a' =>
      ({ ns with bindings := carryExpiry a' dest src.expiresAt }, .ok ())
    | .error e =>
      ({ ns with bindings := putBack a src source },
        .error (match e with
          | .keyTooLong => .inval
          | .outOfCapacity => .nomem
          | _ => .exist))

/-- RENAME. -/
def surfaceRename (ns : Namespace L) (io : ReadEnv) (now : UInt64) (source dest : Bytes) :
    Namespace L × Except Errno Unit :=
  match ns.liveSlot source with
  | none => (ns, .error .noent)
  | some (src, _) =>
    match ns.liveVolume io source with
    | .error e => (ns, .error e)
    | .ok true => (ns, .error .perm)
    | .ok false =>
      match ns.surfaceRetained io source now, ns.surfaceRetained io dest now with
      | .ok true, _ => (ns, .error .retained)
      | _, .ok true => (ns, .error .retained)
      | .error e, _ => (ns, .error e)
      | _, .error e => (ns, .error e)
      | .ok false, .ok false =>
        if (ns.liveSlot dest).isSome then (ns, .error .exist)
        else if src.locked then (ns, .error .noent)
        else
          let newRev := src.revision + 1
          let toRev := match ns.tombstoneRev dest with
            | some t => if newRev ≤ t then t + 1 else newRev
            | none => newRev
          ns.surfaceMove src source dest newRev toRev

end Namespace

end Loam

import Loam.Key
import Loam.Lib.SlotTable

/-!
# The binding arena

The namespace keeps its recently written bindings in a fixed array of slots
(`PicNamespaceState`). A slot is free or holds one binding, live or a
tombstone, under the full bytes of its key. The arena is a cache over the
on-disk snapshot: a slot the durable snapshot covers (`snapshotted`) may be
evicted, any mutation makes the slot uncovered again, and a tombstone masks
the snapshot record of its key until a compaction has written it out.

This module is the array and its operations as the code has them. What they
do to the map from keys to slots is stated in `Loam.ArenaLaws`.
-/

namespace Loam

/-! ## Bindings -/

/-- What a binding records besides its target (`Meta`). All of it arrives in
the record that binds, so every replay stores the same values. -/
structure Meta where
  stampMs : UInt64
  size : UInt64
  contentType : Bytes
  /-- The name of the key that sealed the object. -/
  keyRef : Bytes
  /-- The binding refuses change until this time has passed; 0 is none. -/
  retainUntilMs : UInt64
  /-- The binding refuses change until the hold is cleared. -/
  hold : Bool
deriving DecidableEq

/-- No metadata (`Meta::NONE`). -/
def Meta.none : Meta := ⟨0, 0, [], [], 0, false⟩

/-- `kind` marking a deletion that must mask a snapshot record. -/
def kindTombstone : UInt8 := 0xFE

/-- The kind of a volume binding, made and moved by volume records alone. -/
def kindVolume : UInt8 := 3

/-- Whether a binding with this retention and hold refuses change at `now`.
A record stamped 0 has passed nothing. -/
def retainedAt (retainUntilMs : UInt64) (hold : Bool) (now : UInt64) : Bool :=
  hold || (retainUntilMs != 0 && decide (now ≤ retainUntilMs))

/-- What a key is bound to, in whichever tier it is stored: the target, its
kind, the revision that put it there, and its metadata. A tombstone is a
binding of kind `kindTombstone`. -/
structure Binding where
  /-- The producer's per-key version. -/
  revision : UInt64
  kind : UInt8
  /-- The object bound; empty when the binder supplied none. -/
  objectId : Bytes
  metadata : Meta
deriving DecidableEq

namespace Binding

/-- The binding is not a tombstone. -/
def live (b : Binding) : Bool := b.kind != kindTombstone

/-- A live binding that refuses change at `now`. -/
def retainedAt (b : Binding) (now : UInt64) : Bool :=
  b.live && Loam.retainedAt b.metadata.retainUntilMs b.metadata.hold now

/-- The deletion of a key at `revision`. -/
def tombstone (revision : UInt64) : Binding := ⟨revision, kindTombstone, [], Meta.none⟩

@[simp] theorem live_tombstone (revision : UInt64) : (tombstone revision).live = false := rfl

@[simp] theorem revision_tombstone (revision : UInt64) :
    (tombstone revision).revision = revision := rfl

@[simp] theorem retainedAt_tombstone (revision now : UInt64) :
    (tombstone revision).retainedAt now = false := rfl

end Binding

/-- One occupied slot of the arena (`BindingSlot`). The stored hashes are the
hashes of the stored bytes: whatever writes a key or an object id writes its
hash with it, a tombstone alone keeping the id hash 0. -/
structure BindingSlot extends Key, Binding where
  namespaceHash : UInt64
  pathHash : UInt64
  /-- The hash of the object id; 0 for a tombstone. -/
  objectIdHash : UInt64
  /-- The durable snapshot covers the slot's current revision, so the slot
  may be evicted. -/
  snapshotted : Bool
  /-- The tag of the running compaction, once the slot's key has been merged
  into the generation it writes. -/
  cmpEmitted : UInt8
  expiresAt : UInt64
  /-- Object lock: while set, the slot refuses rebind and deletion. -/
  locked : Bool
  /-- Position of the slot's last mutation in the arena's change stream. -/
  changeRev : UInt64
  key_hashed : namespaceHash = fnv1a64 root ∧ pathHash = fnv1a64 path
  /-- A live binding's id hash belongs to its id bytes. -/
  oid_hashed : kind ≠ kindTombstone → objectIdHash = fnv1a64 objectId
deriving DecidableEq

namespace BindingSlot

/-- Hash-narrowed, byte-decided key equality (`matches`). -/
def matchesKey (s : BindingSlot) (namespaceHash pathHash : UInt64) (k : Key) : Bool :=
  s.namespaceHash == namespaceHash && s.pathHash == pathHash
    && s.root == k.root && s.path == k.path

/-- The slot already points at exactly `objectId` with exactly `kind`: by
bytes when the slot keeps them, by hash otherwise. -/
def bindsSame (s : BindingSlot) (objectId : Bytes) (kind : UInt8) : Bool :=
  if s.kind != kind || s.objectIdHash != fnv1a64 objectId then false
  else s.objectId.isEmpty || s.objectId == objectId

/-- A slot with nothing but a key and a binding, as a bind writes into a free
slot. -/
def fresh (k : Key) (b : Binding) (oidHash changeRev : UInt64)
    (h : b.kind ≠ kindTombstone → oidHash = fnv1a64 b.objectId) : BindingSlot where
  toKey := k
  toBinding := b
  namespaceHash := fnv1a64 k.root
  pathHash := fnv1a64 k.path
  objectIdHash := oidHash
  snapshotted := false
  cmpEmitted := 0
  expiresAt := 0
  locked := false
  changeRev := changeRev
  key_hashed := ⟨rfl, rfl⟩
  oid_hashed := h

/-- The slot rewritten with a new binding: its coverage by the snapshot and
by the running compaction is gone, its key, expiry and lock stay. -/
def rewrite (s : BindingSlot) (b : Binding) (oidHash changeRev : UInt64)
    (h : b.kind ≠ kindTombstone → oidHash = fnv1a64 b.objectId) : BindingSlot :=
  { s with
    toBinding := b
    objectIdHash := oidHash
    snapshotted := false
    cmpEmitted := 0
    changeRev := changeRev
    oid_hashed := h }

/-- The slot turned into a tombstone at `revision`. -/
def bury (s : BindingSlot) (revision changeRev : UInt64) : BindingSlot :=
  s.rewrite (.tombstone revision) 0 changeRev fun h => absurd rfl h

/-- The slot a rename leaves at the old name: a tombstone without expiry. -/
def vacate (s : BindingSlot) (revision changeRev : UInt64) : BindingSlot :=
  { s.bury revision changeRev with expiresAt := 0 }

/-- The slot a rename writes at the new name: the content under the new
path. -/
def moveTo (s : BindingSlot) (dest : Bytes) (revision changeRev : UInt64) : BindingSlot :=
  { s with
    path := dest
    pathHash := fnv1a64 dest
    revision := revision
    snapshotted := false
    cmpEmitted := 0
    changeRev := changeRev
    key_hashed := ⟨s.key_hashed.1, rfl⟩ }

/-- A slot emitted into the generation tagged `tag`, once that is durable. -/
def promote (tag : UInt8) (s : BindingSlot) : BindingSlot :=
  if s.cmpEmitted = tag then { s with snapshotted := true, cmpEmitted := 0 } else s

end BindingSlot

/-! ## The array -/

/-- Why an arena operation was refused (`ApplyError`). -/
inductive ApplyError where
  /-- The key is bound at this revision or later. -/
  | alreadyBound
  | notBound
  | destinationOccupied
  | outOfCapacity
  | locked
  | keyTooLong
deriving DecidableEq

/-- The fixed-capacity binding table (`PicNamespaceState`), `none` a free
slot. -/
structure Arena (L : Limits) where
  slots : List (Option BindingSlot)
  changeSeq : UInt64
  /-- The newest change the arena can no longer account for. -/
  changeHorizon : UInt64
  /-- The table has the profile's capacity. -/
  length_slots : slots.length = L.namespaceSlots
deriving DecidableEq

namespace Arena

variable {L : Limits}

/-- The empty arena. -/
def new (L : Limits) : Arena L where
  slots := List.replicate L.namespaceSlots none
  changeSeq := 0
  changeHorizon := 0
  length_slots := List.length_replicate

/-- The occupied slots with their indices, in array order. -/
def occupied (a : Arena L) : List (BindingSlot × ℕ) := SlotTable.used a.slots

/-- The slot of a key and its index: the scan every operation begins with. -/
def locate (a : Arena L) (k : Key) : Option (BindingSlot × ℕ) :=
  a.occupied.find? fun p => p.1.matchesKey (fnv1a64 k.root) (fnv1a64 k.path) k

/-- Resolve a key (`lookup`). -/
def lookup (a : Arena L) (k : Key) : Option BindingSlot := (a.locate k).map Prod.fst

/-- The first free slot. -/
def freeSlot (a : Arena L) : Option ℕ := a.slots.findIdx? Option.isNone

/-- Write one slot. -/
def setSlot (a : Arena L) (i : ℕ) (o : Option BindingSlot) : Arena L where
  slots := a.slots.set i o
  changeSeq := a.changeSeq
  changeHorizon := a.changeHorizon
  length_slots := List.length_set.trans a.length_slots

/-- Advance the change stream. -/
def stamped (a : Arena L) (seq : UInt64) : Arena L := { a with changeSeq := seq }

/-- Slots in use. -/
def occupiedCount (a : Arena L) : ℕ := a.occupied.length

/-- Occupied slots the snapshot does not cover. -/
def dirtyCount (a : Arena L) : ℕ := (a.occupied.filter fun p => !p.1.snapshotted).length

/-- Every slot is in use. -/
def full (a : Arena L) : Bool := a.occupiedCount == L.namespaceSlots

/-! ## Operations -/

/-- The ceilings `bind` and `commit_bind` check on a key and what it is bound
to. -/
def bindFits (L : Limits) (k : Key) (objectId : Bytes) (m : Meta) : Bool :=
  L.keyFits k.root k.path objectId && decide (m.contentType.length ≤ L.contentTypeMax)
    && decide (m.keyRef.length ≤ L.keyRefMax)

/-- Write a binding for a key that no slot holds into the first free slot. -/
def fill (a : Arena L) (k : Key) (b : Binding) (oidHash : UInt64)
    (h : b.kind ≠ kindTombstone → oidHash = fnv1a64 b.objectId) :
    Except ApplyError (Arena L) :=
  let seq := a.changeSeq + 1
  match a.freeSlot with
  | some i => .ok ((a.setSlot i (some (.fresh k b oidHash seq h))).stamped seq)
  | none => .error .outOfCapacity

/-- Rebind-as-upsert, gated on a strictly higher revision. A re-bind at the
same revision to the same object succeeds without mutating. -/
def bind (a : Arena L) (k : Key) (objectId : Bytes) (kind : UInt8) (revision : UInt64)
    (m : Meta) : Except ApplyError (Arena L) :=
  let seq := a.changeSeq + 1
  if !bindFits L k objectId m then .error .keyTooLong
  else match a.locate k with
    | some (s, i) =>
      if s.locked && !s.bindsSame objectId kind then .error .locked
      else if revision == s.revision && s.bindsSame objectId kind then .ok a
      else if s.revision < revision then
        let s' := s.rewrite ⟨revision, kind, objectId, m⟩ (fnv1a64 objectId) seq fun _ => rfl
        .ok ((a.setSlot i (some s')).stamped seq)
      else .error .alreadyBound
    | none => a.fill k ⟨revision, kind, objectId, m⟩ (fnv1a64 objectId) fun _ => rfl

/-- Bind a key at `revision`, replacing whatever the arena holds for it,
whatever its revision: the apply half of a compare-and-set the caller has
already decided. A lock still refuses it. -/
def commitBind (a : Arena L) (k : Key) (objectId : Bytes) (kind : UInt8)
    (revision : UInt64) (m : Meta) : Except ApplyError (Arena L) :=
  let seq := a.changeSeq + 1
  if !bindFits L k objectId m then .error .keyTooLong
  else match a.locate k with
    | some (s, i) =>
      if s.locked then .error .locked
      else
        let s' := s.rewrite ⟨revision, kind, objectId, m⟩ (fnv1a64 objectId) seq fun _ => rfl
        .ok ((a.setSlot i (some { s' with expiresAt := 0 })).stamped seq)
    | none => a.bind k objectId kind revision m

/-- Replace or insert a tombstone at `revision`. -/
def tombstone (a : Arena L) (k : Key) (revision : UInt64) : Except ApplyError (Arena L) :=
  let seq := a.changeSeq + 1
  if !L.keyFits k.root k.path [] then .error .keyTooLong
  else match a.locate k with
    | some (s, i) =>
      if s.locked then .error .locked
      else .ok ((a.setSlot i (some (s.bury revision seq))).stamped seq)
    | none => a.fill k (.tombstone revision) 0 fun h => absurd rfl h

/-- The revision a bind at a name must take: `newRevision`, or one past the
tombstone the name holds. -/
def pastTombstone (newRevision : UInt64) (d : Option BindingSlot) : UInt64 :=
  match d with
  | some d => if newRevision ≤ d.revision then d.revision + 1 else newRevision
  | none => newRevision

/-- Move a binding from one path to another under the same root: `dest` bound
with the binding's content, and a tombstone at `source`. The destination may
be a tombstone, whose revision the new binding steps past; `source` takes
`newRevision` whatever its own revision was. -/
def rename (a : Arena L) (root source dest : Bytes) (newRevision : UInt64) :
    Except ApplyError (Arena L) :=
  let srcAt := a.locate ⟨root, source⟩
  let dstAt := if source = dest then none else a.locate ⟨root, dest⟩
  let seq := a.changeSeq + 1
  if !L.keyFits root source [] || !L.keyFits root dest [] then .error .keyTooLong
  else if dstAt.any (·.1.live) then .error .destinationOccupied
  else match srcAt with
    | none => .error .notBound
    | some (src, i) =>
      if !src.live then .error .notBound
      else if src.locked then .error .locked
      else
        let toRev := pastTombstone newRevision (dstAt.map Prod.fst)
        match (dstAt.map Prod.snd).or a.freeSlot with
        | none => .error .outOfCapacity
        | some j =>
          .ok (((a.setSlot j (some (src.moveTo dest toRev seq))).setSlot i
            (some (src.vacate newRevision (seq + 1)))).stamped (seq + 1))

/-- Set a live binding's expiry. -/
def setExpiry (a : Arena L) (k : Key) (at_ : UInt64) : Except ApplyError (Arena L) :=
  match a.locate k with
  | some (s, i) =>
    if s.live then .ok (a.setSlot i (some { s with expiresAt := at_ })) else .error .notBound
  | none => .error .notBound

/-- Record that a change has left the arena. -/
def forgetChange (a : Arena L) (rev : UInt64) : Arena L :=
  if a.changeHorizon < rev then { a with changeHorizon := rev } else a

/-- Free one slot whose current revision the snapshot covers, never a locked
one and never `spare`'s. `none` when no slot can go. -/
def evictOneSnapshottedSparing (a : Arena L) (spare : Option Key) : Option (Arena L) :=
  let victim := a.occupied.find? fun p =>
    !(spare.any fun k => p.1.matchesKey (fnv1a64 k.root) (fnv1a64 k.path) k)
      && !p.1.locked && p.1.snapshotted
  victim.map fun p => (a.setSlot p.2 none).forgetChange p.1.changeRev

/-- Free one slot the snapshot covers. -/
def evictOneSnapshotted (a : Arena L) : Option (Arena L) := a.evictOneSnapshottedSparing none

/-- Is `objectId` bound by any live slot? A live slot that keeps no id bytes
counts as a reference on its hash alone. -/
def objectIdReferenced (a : Arena L) (objectId : Bytes) : Bool :=
  a.occupied.any fun p => p.1.live && p.1.objectIdHash == fnv1a64 objectId
    && (p.1.objectId.isEmpty || p.1.objectId == objectId)

/-! ## What the compactor asks of the arena -/

/-- The compactor merged slot `i`'s key into the generation tagged `tag`. -/
def markEmitted (a : Arena L) (i : ℕ) (tag : UInt8) : Arena L :=
  match a.slots[i]?.join with
  | some s => a.setSlot i (some { s with cmpEmitted := tag })
  | none => a

/-- The generation tagged `tag` is durable: the slots emitted into it become
snapshot-covered. -/
def finalizeEmitted (a : Arena L) (tag : UInt8) : Arena L where
  slots := a.slots.map (Option.map (BindingSlot.promote tag))
  changeSeq := a.changeSeq
  changeHorizon := a.changeHorizon
  length_slots := List.length_map _ |>.trans a.length_slots

/-- The better of two scan candidates: the earlier one unless the later key
is strictly smaller. -/
def lesserKey (best : Option (BindingSlot × ℕ)) (p : BindingSlot × ℕ) :
    Option (BindingSlot × ℕ) :=
  match best with
  | none => some p
  | some b => if keyCmp p.1.toKey b.1.toKey = .lt then some p else some b

/-- The occupied slot with the smallest key strictly above `after`. -/
def minKeyAbove (a : Arena L) (after : Option Key) : Option (BindingSlot × ℕ) :=
  (a.occupied.filter fun p => after.all fun k => keyCmp p.1.toKey k == .gt).foldl lesserKey none

end Arena

end Loam

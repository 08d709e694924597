import Loam.Lib.Slices
import Loam.Record
import Loam.SnapshotRow

/-!
# The records of the namespace wire

A request of the namespace, and what its log holds, is an opcode, a header of
fixed fields and the strings whose lengths the header says. The encoders write
into a buffer of a caller; what they leave of it is the record. The decoders
look at the front of what they are given, at the offsets of the source
(`loam_wire.rs`), and check in its order.

The encoders refuse a key past its ceilings. Not every decoder does.
-/

namespace Loam

open Slices

/-! ## Errors and checks -/

/-- Why a record is not encoded, or not decoded. -/
inductive WireError where
  | bufferTooSmall (needed actual : ℕ)
  /-- It ends before its fields do. -/
  | truncated
  | badOpcode (observed : UInt8)
  | badKind (observed : UInt8)
  | stringTooLong (len max : ℕ)
deriving DecidableEq

/-- Go on if `c` holds. -/
def require (c : Prop) [Decidable c] (e : WireError) : Except WireError Unit :=
  if c then .ok () else .error e

/-- Refuse a key past its ceilings (`check_key`). -/
def Limits.checkKey (L : Limits) (root path objectId : Bytes) : Except WireError Unit := do
  require (root.length ≤ L.maxRoot) (.stringTooLong root.length L.maxRoot)
  require (path.length ≤ L.maxPath) (.stringTooLong path.length L.maxPath)
  require (objectId.length ≤ L.maxObjectId) (.stringTooLong objectId.length L.maxObjectId)

/-- The record, if the buffer has room for it. -/
def intoRoom (room : ℕ) (record : Bytes) : Except WireError Bytes := do
  require (record.length ≤ room) (.bufferTooSmall record.length room)
  return record

/-! ## Fields -/

/-- The number in the `n` bytes at `a`. -/
def num (src : Bytes) (a n : ℕ) : ℕ := leNat (slice src a n)

/-- The eight-byte number at `a`. -/
def u64At (src : Bytes) (a : ℕ) : UInt64 := UInt64.ofNat (num src a 8)

/-- The four-byte number at `a`. -/
def u32At (src : Bytes) (a : ℕ) : UInt32 := UInt32.ofNat (num src a 4)

/-- A flag's byte. -/
def flagByte (b : Bool) : UInt8 := if b then 1 else 0

/-- The hold of a bind: its byte is 0 or 1. -/
def decodeHold (b : UInt8) : Except WireError Bool :=
  if b = 0 then .ok false else if b = 1 then .ok true else .error (.badKind b)

/-! ## Opcodes and headers -/

def opBind : UInt8 := 1
def opRename : UInt8 := 2
def opUnbind : UInt8 := 3
def opLookup : UInt8 := 4
def opList : UInt8 := 5
def opReferenced : UInt8 := 6
def opGcReserve : UInt8 := 7
def opGcRelease : UInt8 := 8
def opLease : UInt8 := 9
def opLeaseRestore : UInt8 := 10
def opVolume : UInt8 := 11
def opVolumeRoots : UInt8 := 12
def opRetain : UInt8 := 13
def opRetained : UInt8 := 14
def opBindingRestore : UInt8 := 15

/-- The greatest condition (`COND_REVISION`). -/
def condRevision : UInt8 := 2

/-- The greatest change to a hold (`RETAIN_HOLD_CLEAR`). -/
def retainHoldClear : UInt8 := 2

def bindHdr : ℕ := 1 + 2 + 2 + 2 + 1 + 8 + 8 + 8 + 1 + 8 + 1 + 1 + 8 + 1
def renameHdr : ℕ := 1 + 2 + 2 + 2 + 8 + 8
def unbindHdr : ℕ := 1 + 2 + 2 + 8 + 8 + 1 + 8
def retainHdr : ℕ := 1 + 2 + 2 + 8 + 8 + 8 + 8 + 1
def gcReserveHdr : ℕ := 1 + 2 + 8
def retainedHdr : ℕ := 1 + 4 + 2 + 8
def leaseReqHdr : ℕ := 1 + 1 + 2 + 2 + 16 + 8 + 4
def leaseRestoreHdr : ℕ := 1 + 2 + 2 + 16 + 8 + 8 + 8 + 1 + 8 + 8
def volumeReqHdr : ℕ := 1 + 1 + 2 + 2 + 2 + 16 + 8 + 8 + 8

/-! ## Bind -/

/-- A bind, or the reinstatement of a binding, as its record has it. -/
structure DecodedBind where
  key : Key
  /-- The target, its kind, the revision, the metadata. -/
  binding : Binding
  cond : UInt8
  expect : UInt64
deriving DecidableEq

/-- The fields of a bind-shaped record. -/
def bindFields (op : UInt8) (b : DecodedBind) : List Bytes :=
  [[op], leBytes 2 b.key.root.length, leBytes 2 b.key.path.length,
    leBytes 2 b.binding.objectId.length, [b.binding.kind], leBytes 8 b.binding.revision.toNat,
    leBytes 8 b.binding.metadata.stampMs.toNat, leBytes 8 b.binding.metadata.size.toNat, [b.cond],
    leBytes 8 b.expect.toNat, leBytes 1 b.binding.metadata.contentType.length,
    leBytes 1 b.binding.metadata.keyRef.length, leBytes 8 b.binding.metadata.retainUntilMs.toNat,
    [flagByte b.binding.metadata.hold], b.key.root, b.key.path, b.binding.objectId,
    b.binding.metadata.contentType, b.binding.metadata.keyRef]

def encodeBind (L : Limits) (room : ℕ) (b : DecodedBind) : Except WireError Bytes := do
  L.checkKey b.key.root b.key.path b.binding.objectId
  require (b.binding.metadata.contentType.length ≤ L.contentTypeMax)
    (.stringTooLong b.binding.metadata.contentType.length L.contentTypeMax)
  require (b.binding.metadata.keyRef.length ≤ L.keyRefMax)
    (.stringTooLong b.binding.metadata.keyRef.length L.keyRefMax)
  require (b.cond ≤ condRevision) (.badKind b.cond)
  intoRoom room (bindFields opBind b).flatten

/-- The fields of a bind-shaped record, whatever its opcode and kind. -/
def decodeBindFields (L : Limits) (src : Bytes) : Except WireError DecodedBind := do
  require (bindHdr ≤ src.length) .truncated
  let nsLen := num src 1 2
  let pathLen := num src 3 2
  let oidLen := num src 5 2
  let cond := src.getD 32 0
  require (cond ≤ condRevision) (.badKind cond)
  let ctLen := num src 41 1
  require (ctLen ≤ L.contentTypeMax) (.stringTooLong ctLen L.contentTypeMax)
  let keyRefLen := num src 42 1
  require (keyRefLen ≤ L.keyRefMax) (.stringTooLong keyRefLen L.keyRefMax)
  let hold ← decodeHold (src.getD 51 0)
  require (bindHdr + nsLen + pathLen + oidLen + ctLen + keyRefLen ≤ src.length) .truncated
  let ns := slice src bindHdr nsLen
  let path := slice src (bindHdr + nsLen) pathLen
  let oid := slice src (bindHdr + nsLen + pathLen) oidLen
  let contentType := slice src (bindHdr + nsLen + pathLen + oidLen) ctLen
  let keyRef := slice src (bindHdr + nsLen + pathLen + oidLen + ctLen) keyRefLen
  L.checkKey ns path oid
  return {
    key := ⟨ns, path⟩
    binding := {
      revision := u64At src 8
      kind := src.getD 7 0
      objectId := oid
      metadata := {
        stampMs := u64At src 16
        size := u64At src 24
        contentType := contentType
        keyRef := keyRef
        retainUntilMs := u64At src 43
        hold := hold } }
    cond := cond
    expect := u64At src 33 }

def decodeBind (L : Limits) (src : Bytes) : Except WireError DecodedBind := do
  require (src ≠ []) .truncated
  require (src.getD 0 0 = opBind) (.badOpcode (src.getD 0 0))
  let b ← decodeBindFields L src
  require (b.binding.kind ≤ kindSymlink) (.badKind b.binding.kind)
  return b

/-- The record that reinstates one arena entry in a rotated log. -/
def encodeBindingRestore (L : Limits) (room : ℕ) (k : Key) (b : Binding) :
    Except WireError Bytes := do
  let record ← encodeBind L room ⟨k, b, 0, 0⟩
  return record.set 0 opBindingRestore

def decodeBindingRestore (L : Limits) (src : Bytes) : Except WireError DecodedBind := do
  require (src ≠ []) .truncated
  require (src.getD 0 0 = opBindingRestore) (.badOpcode (src.getD 0 0))
  decodeBindFields L src

/-! ## Rename, unbind, retain -/

/-- A rename, as its record has it. -/
abbrev DecodedRename := RenameMsg

def renameFields (m : DecodedRename) : List Bytes :=
  [[opRename], leBytes 2 m.root.length, leBytes 2 m.source.length, leBytes 2 m.dest.length,
    leBytes 8 m.newRevision.toNat, leBytes 8 m.stampMs.toNat, m.root, m.source, m.dest]

def encodeRename (L : Limits) (room : ℕ) (m : DecodedRename) : Except WireError Bytes := do
  L.checkKey m.root m.source []
  L.checkKey m.root m.dest []
  intoRoom room (renameFields m).flatten

/-- The decoder of a rename does not look at the ceilings. -/
def decodeRename (src : Bytes) : Except WireError DecodedRename := do
  require (renameHdr ≤ src.length) .truncated
  require (src.getD 0 0 = opRename) (.badOpcode (src.getD 0 0))
  let nsLen := num src 1 2
  let fromLen := num src 3 2
  let toLen := num src 5 2
  require (renameHdr + nsLen + fromLen + toLen ≤ src.length) .truncated
  return {
    root := slice src renameHdr nsLen
    source := slice src (renameHdr + nsLen) fromLen
    dest := slice src (renameHdr + nsLen + fromLen) toLen
    newRevision := u64At src 7
    stampMs := u64At src 15 }

/-- An unbind, as its record has it. -/
structure DecodedUnbind where
  key : Key
  revision : UInt64
  stampMs : UInt64
  cond : UInt8
  expect : UInt64
deriving DecidableEq

def unbindFields (m : DecodedUnbind) : List Bytes :=
  [[opUnbind], leBytes 2 m.key.root.length, leBytes 2 m.key.path.length, leBytes 8 m.revision.toNat,
    leBytes 8 m.stampMs.toNat, [m.cond], leBytes 8 m.expect.toNat, m.key.root, m.key.path]

def encodeUnbind (L : Limits) (room : ℕ) (m : DecodedUnbind) : Except WireError Bytes := do
  L.checkKey m.key.root m.key.path []
  require (m.cond ≤ condRevision) (.badKind m.cond)
  intoRoom room (unbindFields m).flatten

/-- Nor does that of an unbind. -/
def decodeUnbind (src : Bytes) : Except WireError DecodedUnbind := do
  require (unbindHdr ≤ src.length) .truncated
  require (src.getD 0 0 = opUnbind) (.badOpcode (src.getD 0 0))
  let nsLen := num src 1 2
  let pathLen := num src 3 2
  let cond := src.getD 21 0
  require (cond ≤ condRevision) (.badKind cond)
  require (unbindHdr + nsLen + pathLen ≤ src.length) .truncated
  return {
    key := ⟨slice src unbindHdr nsLen, slice src (unbindHdr + nsLen) pathLen⟩
    revision := u64At src 5
    stampMs := u64At src 13
    cond := cond
    expect := u64At src 22 }

/-- A change of retention, as its record has it. -/
structure DecodedRetain where
  key : Key
  /-- The revision the binding is left at, when this changes it. -/
  revision : UInt64
  stampMs : UInt64
  /-- The revision the binding must hold. -/
  expect : UInt64
  /-- The new retention; 0 leaves it as it is. -/
  retainUntilMs : UInt64
  hold : UInt8
deriving DecidableEq

def retainFields (m : DecodedRetain) : List Bytes :=
  [[opRetain], leBytes 2 m.key.root.length, leBytes 2 m.key.path.length, leBytes 8 m.revision.toNat,
    leBytes 8 m.stampMs.toNat, leBytes 8 m.expect.toNat, leBytes 8 m.retainUntilMs.toNat, [m.hold],
    m.key.root, m.key.path]

def encodeRetain (L : Limits) (room : ℕ) (m : DecodedRetain) : Except WireError Bytes := do
  L.checkKey m.key.root m.key.path []
  require (m.hold ≤ retainHoldClear) (.badKind m.hold)
  intoRoom room (retainFields m).flatten

def decodeRetain (L : Limits) (src : Bytes) : Except WireError DecodedRetain := do
  require (retainHdr ≤ src.length) .truncated
  require (src.getD 0 0 = opRetain) (.badOpcode (src.getD 0 0))
  let nsLen := num src 1 2
  let pathLen := num src 3 2
  let hold := src.getD 37 0
  require (hold ≤ retainHoldClear) (.badKind hold)
  require (retainHdr + nsLen + pathLen ≤ src.length) .truncated
  let ns := slice src retainHdr nsLen
  let path := slice src (retainHdr + nsLen) pathLen
  L.checkKey ns path []
  return {
    key := ⟨ns, path⟩
    revision := u64At src 5
    stampMs := u64At src 13
    expect := u64At src 21
    retainUntilMs := u64At src 29
    hold := hold }

/-! ## The reads -/

def lookupFields (k : Key) : List Bytes :=
  [[opLookup], leBytes 2 k.root.length, leBytes 2 k.path.length, k.root, k.path]

def encodeLookupReq (L : Limits) (room : ℕ) (k : Key) : Except WireError Bytes := do
  L.checkKey k.root k.path []
  intoRoom room (lookupFields k).flatten

/-- Nor does that of a lookup. -/
def decodeLookupReq (src : Bytes) : Except WireError Key := do
  require (5 ≤ src.length) .truncated
  require (src.getD 0 0 = opLookup) (.badOpcode (src.getD 0 0))
  let nsLen := num src 1 2
  let pathLen := num src 3 2
  require (5 + nsLen + pathLen ≤ src.length) .truncated
  return ⟨slice src 5 nsLen, slice src (5 + nsLen) pathLen⟩

/-- A request for a page of a listing. -/
structure DecodedListReq where
  root : Bytes
  pathPrefix : Bytes
  after : Bytes
  max : UInt8
deriving DecidableEq

def listFields (m : DecodedListReq) : List Bytes :=
  [[opList], leBytes 2 m.root.length, leBytes 2 m.pathPrefix.length, leBytes 2 m.after.length, [m.max],
    m.root, m.pathPrefix, m.after]

def encodeListReq (L : Limits) (room : ℕ) (m : DecodedListReq) : Except WireError Bytes := do
  L.checkKey m.root m.pathPrefix []
  L.checkKey m.root m.after []
  intoRoom room (listFields m).flatten

def decodeListReq (L : Limits) (src : Bytes) : Except WireError DecodedListReq := do
  require (8 ≤ src.length) .truncated
  require (src.getD 0 0 = opList) (.badOpcode (src.getD 0 0))
  let rootLen := num src 1 2
  let prefixLen := num src 3 2
  let afterLen := num src 5 2
  require (8 + rootLen + prefixLen + afterLen ≤ src.length) .truncated
  let root := slice src 8 rootLen
  let pathPrefix := slice src (8 + rootLen) prefixLen
  let after := slice src (8 + rootLen + prefixLen) afterLen
  L.checkKey root pathPrefix []
  L.checkKey root after []
  return ⟨root, pathPrefix, after, src.getD 7 0⟩

def referencedFields (cursor : UInt32) (objectId : Bytes) : List Bytes :=
  [[opReferenced], leBytes 4 cursor.toNat, leBytes 2 objectId.length, objectId]

def encodeReferencedReq (L : Limits) (room : ℕ) (cursor : UInt32) (objectId : Bytes) :
    Except WireError Bytes := do
  L.checkKey [] [] objectId
  intoRoom room (referencedFields cursor objectId).flatten

/-- Nor does that of a reference question. -/
def decodeReferencedReq (src : Bytes) : Except WireError (UInt32 × Bytes) := do
  require (7 ≤ src.length) .truncated
  require (src.getD 0 0 = opReferenced) (.badOpcode (src.getD 0 0))
  let len := num src 5 2
  require (7 + len ≤ src.length) .truncated
  return (u32At src 1, slice src 7 len)

def retainedFields (cursor : UInt32) (objectId : Bytes) (now : UInt64) : List Bytes :=
  [[opRetained], leBytes 4 cursor.toNat, leBytes 2 objectId.length, leBytes 8 now.toNat, objectId]

def encodeRetainedReq (L : Limits) (room : ℕ) (cursor : UInt32) (objectId : Bytes) (now : UInt64) :
    Except WireError Bytes := do
  L.checkKey [] [] objectId
  intoRoom room (retainedFields cursor objectId now).flatten

/-- Nor does that of a retention question. -/
def decodeRetainedReq (src : Bytes) : Except WireError (UInt32 × Bytes × UInt64) := do
  require (retainedHdr ≤ src.length) .truncated
  require (src.getD 0 0 = opRetained) (.badOpcode (src.getD 0 0))
  let len := num src 5 2
  require (retainedHdr + len ≤ src.length) .truncated
  return (u32At src 1, slice src retainedHdr len, u64At src 7)

def encodeVolumeRootsReq (room : ℕ) (cursor : UInt32) : Except WireError Bytes :=
  intoRoom room ([opVolumeRoots] ++ leBytes 4 cursor.toNat)

def decodeVolumeRootsReq (src : Bytes) : Except WireError UInt32 := do
  require (5 ≤ src.length) .truncated
  require (src.getD 0 0 = opVolumeRoots) (.badOpcode (src.getD 0 0))
  return u32At src 1

/-! ## Reservations -/

def gcFields (op : UInt8) (objectId : Bytes) (nowMs : UInt64) : List Bytes :=
  [[op], leBytes 2 objectId.length, leBytes 8 nowMs.toNat, objectId]

/-- A reserve or a release (`encode_gc_record`). -/
def encodeGcRecord (L : Limits) (room : ℕ) (op : UInt8) (objectId : Bytes) (nowMs : UInt64) :
    Except WireError Bytes := do
  L.checkKey [] [] objectId
  intoRoom room (gcFields op objectId nowMs).flatten

def encodeGcReserveReq (L : Limits) (room : ℕ) (objectId : Bytes) (nowMs : UInt64) :
    Except WireError Bytes :=
  encodeGcRecord L room opGcReserve objectId nowMs

/-- A release decides nothing about time, so it carries none. -/
def encodeGcReleaseReq (L : Limits) (room : ℕ) (objectId : Bytes) : Except WireError Bytes :=
  encodeGcRecord L room opGcRelease objectId 0

/-- Nor does that of a reservation. -/
def decodeGcReserveReq (src : Bytes) : Except WireError (Bytes × UInt64) := do
  require (gcReserveHdr ≤ src.length) .truncated
  require (src.getD 0 0 = opGcReserve ∨ src.getD 0 0 = opGcRelease) (.badOpcode (src.getD 0 0))
  let len := num src 1 2
  require (gcReserveHdr + len ≤ src.length) .truncated
  return (slice src gcReserveHdr len, u64At src 3)

/-! ## Leases and volumes -/

/-- A lease request, as its record has it. -/
structure DecodedLeaseReq where
  mode : UInt8
  key : Key
  holder : FixedBytes 16
  nowMs : UInt64
  ttlMs : UInt32
deriving DecidableEq

def leaseReqFields (m : DecodedLeaseReq) : List Bytes :=
  [[opLease], [m.mode], leBytes 2 m.key.root.length, leBytes 2 m.key.path.length, m.holder.val,
    leBytes 8 m.nowMs.toNat, leBytes 4 m.ttlMs.toNat, m.key.root, m.key.path]

def encodeLeaseReq (L : Limits) (room : ℕ) (m : DecodedLeaseReq) : Except WireError Bytes := do
  L.checkKey m.key.root m.key.path []
  intoRoom room (leaseReqFields m).flatten

def decodeLeaseReq (L : Limits) (src : Bytes) : Except WireError DecodedLeaseReq := do
  require (leaseReqHdr ≤ src.length) .truncated
  require (src.getD 0 0 = opLease) (.badOpcode (src.getD 0 0))
  let nsLen := num src 2 2
  let pathLen := num src 4 2
  require (leaseReqHdr + nsLen + pathLen ≤ src.length) .truncated
  let ns := slice src leaseReqHdr nsLen
  let path := slice src (leaseReqHdr + nsLen) pathLen
  L.checkKey ns path []
  return {
    mode := src.getD 1 0
    key := ⟨ns, path⟩
    holder := .ofBytes 16 (slice src 6 16)
    nowMs := u64At src 22
    ttlMs := u32At src 30 }

/-- A lease entry and the table's floors, as the record that reinstates them
has them. -/
structure DecodedLeaseRestore where
  key : Key
  holder : FixedBytes 16
  fence : UInt64
  expiresAtMs : UInt64
  stampMs : UInt64
  live : Bool
  fenceFloor : UInt64
  stampFloor : UInt64
deriving DecidableEq

def leaseRestoreFields (m : DecodedLeaseRestore) (flags : UInt8) : List Bytes :=
  [[opLeaseRestore], leBytes 2 m.key.root.length, leBytes 2 m.key.path.length, m.holder.val,
    leBytes 8 m.fence.toNat, leBytes 8 m.expiresAtMs.toNat, leBytes 8 m.stampMs.toNat, [flags],
    leBytes 8 m.fenceFloor.toNat, leBytes 8 m.stampFloor.toNat, m.key.root, m.key.path]

def encodeLeaseRestore (L : Limits) (room : ℕ) (m : DecodedLeaseRestore) :
    Except WireError Bytes := do
  L.checkKey m.key.root m.key.path []
  intoRoom room (leaseRestoreFields m (flagByte m.live)).flatten

/-- Mark an encoded restore as carrying an open volume flush
(`mark_lease_restore_flushing`). -/
def markLeaseRestoreFlushing (record : Bytes) : Bytes × Bool :=
  if record.head? = some opLeaseRestore ∧ 45 < record.length then
    (record.set 45 (record.getD 45 0 ||| 2), true)
  else (record, false)

/-- Does a restore carry an open volume flush? -/
def leaseRestoreFlushing (src : Bytes) : Bool :=
  decide (src.head? = some opLeaseRestore) && decide (45 < src.length)
    && (src.getD 45 0 &&& 2 != 0)

def decodeLeaseRestore (L : Limits) (src : Bytes) : Except WireError DecodedLeaseRestore := do
  require (leaseRestoreHdr ≤ src.length) .truncated
  require (src.getD 0 0 = opLeaseRestore) (.badOpcode (src.getD 0 0))
  let nsLen := num src 1 2
  let pathLen := num src 3 2
  require (leaseRestoreHdr + nsLen + pathLen ≤ src.length) .truncated
  let ns := slice src leaseRestoreHdr nsLen
  let path := slice src (leaseRestoreHdr + nsLen) pathLen
  L.checkKey ns path []
  return {
    key := ⟨ns, path⟩
    holder := .ofBytes 16 (slice src 5 16)
    fence := u64At src 21
    expiresAtMs := u64At src 29
    stampMs := u64At src 37
    live := src.getD 45 0 &&& 1 != 0
    fenceFloor := u64At src 46
    stampFloor := u64At src 54 }

/-- A step of a volume flush, as its record has it. -/
structure DecodedVolumeReq where
  mode : UInt8
  key : Key
  objectId : Bytes
  holder : FixedBytes 16
  fence : UInt64
  expected : UInt64
  nowMs : UInt64
deriving DecidableEq

def volumeReqFields (m : DecodedVolumeReq) : List Bytes :=
  [[opVolume], [m.mode], leBytes 2 m.key.root.length, leBytes 2 m.key.path.length,
    leBytes 2 m.objectId.length, m.holder.val, leBytes 8 m.fence.toNat, leBytes 8 m.expected.toNat,
    leBytes 8 m.nowMs.toNat, m.key.root, m.key.path, m.objectId]

def encodeVolumeReq (L : Limits) (room : ℕ) (m : DecodedVolumeReq) : Except WireError Bytes := do
  L.checkKey m.key.root m.key.path m.objectId
  intoRoom room (volumeReqFields m).flatten

def decodeVolumeReq (L : Limits) (src : Bytes) : Except WireError DecodedVolumeReq := do
  require (volumeReqHdr ≤ src.length) .truncated
  require (src.getD 0 0 = opVolume) (.badOpcode (src.getD 0 0))
  let nsLen := num src 2 2
  let pathLen := num src 4 2
  let oidLen := num src 6 2
  require (volumeReqHdr + nsLen + pathLen + oidLen ≤ src.length) .truncated
  let ns := slice src volumeReqHdr nsLen
  let path := slice src (volumeReqHdr + nsLen) pathLen
  let oid := slice src (volumeReqHdr + nsLen + pathLen) oidLen
  L.checkKey ns path oid
  return {
    mode := src.getD 1 0
    key := ⟨ns, path⟩
    objectId := oid
    holder := .ofBytes 16 (slice src 8 16)
    fence := u64At src 24
    expected := u64At src 32
    nowMs := u64At src 40 }

/-! ## Every record -/

/-- A value of an operation, as it is encoded and decoded. -/
inductive WireRecord where
  | bind (b : DecodedBind)
  | bindingRestore (k : Key) (b : Binding)
  | rename (m : DecodedRename)
  | unbind (m : DecodedUnbind)
  | retain (m : DecodedRetain)
  | lookup (k : Key)
  | list (m : DecodedListReq)
  | referenced (cursor : UInt32) (objectId : Bytes)
  | retained (cursor : UInt32) (objectId : Bytes) (now : UInt64)
  | gcReserve (objectId : Bytes) (nowMs : UInt64)
  | gcRelease (objectId : Bytes)
  | lease (m : DecodedLeaseReq)
  /-- With the flush that is open, if one is. -/
  | leaseRestore (m : DecodedLeaseRestore) (flushing : Bool)
  | volume (m : DecodedVolumeReq)
  | volumeRoots (cursor : UInt32)
deriving DecidableEq

namespace WireRecord

variable (L : Limits)

/-- The encoder of the operation. -/
def encode (room : ℕ) : WireRecord → Except WireError Bytes
  | bind b => encodeBind L room b
  | bindingRestore k b => encodeBindingRestore L room k b
  | rename m => encodeRename L room m
  | unbind m => encodeUnbind L room m
  | retain m => encodeRetain L room m
  | lookup k => encodeLookupReq L room k
  | list m => encodeListReq L room m
  | referenced cursor oid => encodeReferencedReq L room cursor oid
  | retained cursor oid now => encodeRetainedReq L room cursor oid now
  | gcReserve oid now => encodeGcReserveReq L room oid now
  | gcRelease oid => encodeGcReleaseReq L room oid
  | lease m => encodeLeaseReq L room m
  | leaseRestore m flushing => do
    let record ← encodeLeaseRestore L room m
    return if flushing then (markLeaseRestoreFlushing record).1 else record
  | volume m => encodeVolumeReq L room m
  | volumeRoots cursor => encodeVolumeRootsReq room cursor

/-- The decoder of the operation the first byte names. -/
def decode (src : Bytes) : Except WireError WireRecord :=
  if src.head? = some opBind then bind <$> decodeBind L src
  else if src.head? = some opBindingRestore then
    (fun b => bindingRestore b.key b.binding) <$> decodeBindingRestore L src
  else if src.head? = some opRename then rename <$> decodeRename src
  else if src.head? = some opUnbind then unbind <$> decodeUnbind src
  else if src.head? = some opRetain then retain <$> decodeRetain L src
  else if src.head? = some opLookup then lookup <$> decodeLookupReq src
  else if src.head? = some opList then list <$> decodeListReq L src
  else if src.head? = some opReferenced then
    (fun p => referenced p.1 p.2) <$> decodeReferencedReq src
  else if src.head? = some opRetained then
    (fun p => retained p.1 p.2.1 p.2.2) <$> decodeRetainedReq src
  else if src.head? = some opGcReserve then (fun p => gcReserve p.1 p.2) <$> decodeGcReserveReq src
  else if src.head? = some opGcRelease then (fun p => gcRelease p.1) <$> decodeGcReserveReq src
  else if src.head? = some opLease then lease <$> decodeLeaseReq L src
  else if src.head? = some opLeaseRestore then
    (fun m => leaseRestore m (leaseRestoreFlushing src)) <$> decodeLeaseRestore L src
  else if src.head? = some opVolume then volume <$> decodeVolumeReq L src
  else if src.head? = some opVolumeRoots then volumeRoots <$> decodeVolumeRootsReq src
  else
    match src.head? with
    | none => .error .truncated
    | some op => .error (.badOpcode op)

end WireRecord

end Loam

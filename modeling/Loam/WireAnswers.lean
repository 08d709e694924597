import Loam.Wire

/-!
# The answers of the namespace wire

An answer begins with the opcode of its request, or is one byte that refuses
it. A binding that is reported stands with each string behind its own length,
so where a field starts is known only once the strings before it have been
read; a page of a listing is such bindings, each behind its path.

A reader of the stream asks how long the record at its front is, before it has
all of it. The functions that tell (`request_record_len`,
`response_record_len`) read the lengths apart from the decoders.
-/

namespace Loam

open Slices

/-! ## Reading with bounds -/

/-- The `n` bytes at `a`, if they are there. -/
def getField (src : Bytes) (a n : ℕ) : Option Bytes :=
  if a + n ≤ src.length then some (slice src a n) else none

/-- The byte at `a`, if it is there. -/
def getByte (src : Bytes) (a : ℕ) : Option UInt8 :=
  if a < src.length then some (src.getD a 0) else none

/-- The eight-byte number at `a`, if it is there. -/
def getU64 (src : Bytes) (a : ℕ) : Option UInt64 :=
  if a + 8 ≤ src.length then some (u64At src a) else none

/-! ## Write acks -/

/-- The largest fence an ack carries (`ACK_FENCE_MAX`). -/
def ackFenceMax : ℕ := 62

/-- The operations an ack answers (`is_write_op`). -/
def isWriteOp (op : UInt8) : Prop := op = opBind ∨ op = opRename ∨ op = opUnbind ∨ op = opRetain

instance (op : UInt8) : Decidable (isWriteOp op) :=
  inferInstanceAs (Decidable (op = opBind ∨ op = opRename ∨ op = opUnbind ∨ op = opRetain))

def writeAckFields (op : UInt8) (fence : Bytes) : List Bytes :=
  [[op], leBytes 1 fence.length, fence]

def encodeWriteAck (room : ℕ) (op : UInt8) (fence : Bytes) : Except WireError Bytes := do
  require (isWriteOp op) (.badOpcode op)
  require (fence.length ≤ ackFenceMax) (.stringTooLong fence.length ackFenceMax)
  intoRoom room (writeAckFields op fence).flatten

def decodeWriteAck (src : Bytes) : Except WireError (UInt8 × Bytes) := do
  require (1 ≤ src.length) .truncated
  require (isWriteOp (src.getD 0 0)) (.badOpcode (src.getD 0 0))
  require (2 ≤ src.length) .truncated
  let len := num src 1 1
  require (len ≤ ackFenceMax) (.stringTooLong len ackFenceMax)
  require (2 + len ≤ src.length) .truncated
  return (src.getD 0 0, slice src 2 len)

/-! ## A binding as it is reported -/

/-- The fields of a binding, with the byte its hold has. -/
def bindingFields (b : Binding) (hold : UInt8) : List Bytes :=
  [leBytes 1 b.objectId.length, b.objectId, leBytes 8 b.revision.toNat, [b.kind],
    leBytes 8 b.metadata.stampMs.toNat, leBytes 8 b.metadata.size.toNat,
    leBytes 1 b.metadata.contentType.length, b.metadata.contentType,
    leBytes 1 b.metadata.keyRef.length, b.metadata.keyRef,
    leBytes 8 b.metadata.retainUntilMs.toNat, [hold]]

/-- The bytes of a binding (`binding_len`). -/
def bindingLen (b : Binding) : ℕ :=
  1 + b.objectId.length + 8 + 1 + 8 + 8 + 1 + b.metadata.contentType.length + 1
    + b.metadata.keyRef.length + 8 + 1

/-- A binding, written; a length past its byte is cut (`put_binding`). -/
def putBinding (b : Binding) : Bytes := (bindingFields b (flagByte b.metadata.hold)).flatten

/-- The binding at the front, and its length (`take_binding`). -/
def takeBinding (src : Bytes) : Option (Binding × ℕ) := do
  let oidLen ← getByte src 0
  let p := 1
  let objectId ← getField src p oidLen.toNat
  let p := p + oidLen.toNat
  let revision ← getU64 src p
  let p := p + 8
  let kind ← getByte src p
  let p := p + 1
  let stampMs ← getU64 src p
  let p := p + 8
  let size ← getU64 src p
  let p := p + 8
  let ctLen ← getByte src p
  let p := p + 1
  let contentType ← getField src p ctLen.toNat
  let p := p + ctLen.toNat
  let keyRefLen ← getByte src p
  let p := p + 1
  let keyRef ← getField src p keyRefLen.toNat
  let p := p + keyRefLen.toNat
  let retainUntilMs ← getU64 src p
  let p := p + 8
  let hold ← getByte src p
  let p := p + 1
  return ({
    revision := revision
    kind := kind
    objectId := objectId
    metadata := {
      stampMs := stampMs
      size := size
      contentType := contentType
      keyRef := keyRef
      retainUntilMs := retainUntilMs
      hold := hold != 0 } }, p)

/-! ## Lookup answers -/

def lookupFound : UInt8 := 1
def lookupNotFound : UInt8 := 0

/-- The answer to a lookup. -/
inductive DecodedLookupResp where
  | found (b : Binding)
  /-- The key is absent; the revision a write must exceed to bind it. -/
  | notFound (floor : UInt64)
deriving DecidableEq

def encodeLookupFound (L : Limits) (room : ℕ) (b : Binding) : Except WireError Bytes := do
  require (b.objectId.length ≤ 255 ∧ b.metadata.contentType.length ≤ L.contentTypeMax ∧
      b.metadata.keyRef.length ≤ L.keyRefMax)
    (.stringTooLong (max b.objectId.length b.metadata.contentType.length) L.contentTypeMax)
  intoRoom room ([opLookup, lookupFound] ++ putBinding b)

def encodeLookupNotFound (room : ℕ) (floor : UInt64) : Except WireError Bytes :=
  intoRoom room ([opLookup, lookupNotFound] ++ leBytes 8 floor.toNat)

def decodeLookupResp (src : Bytes) : Except WireError DecodedLookupResp := do
  require (2 ≤ src.length) .truncated
  require (src.getD 0 0 = opLookup) (.badOpcode (src.getD 0 0))
  if src.getD 1 0 = lookupNotFound then
    require (10 ≤ src.length) .truncated
    return .notFound (u64At src 2)
  else if src.getD 1 0 = lookupFound then
    match takeBinding (src.drop 2) with
    | some (b, _) => return .found b
    | none => throw .truncated
  else throw (.badKind (src.getD 1 0))

/-! ## Pages of a listing -/

/-- The most entries of a page (`MAX_LIST_PAGE`). -/
def maxListPage : ℕ := 16

/-- The bytes of an entry; a length past its two bytes is cut. -/
def putEntry (path : Bytes) (b : Binding) : Bytes :=
  leBytes 2 path.length ++ path ++ putBinding b

/-- A page being written: the entries that are in the buffer. -/
structure ListWriter where
  room : ℕ
  /-- The bytes of the entries, behind the three of the header. -/
  body : Bytes
  count : UInt8
deriving DecidableEq

namespace ListWriter

/-- Start a page. -/
def new (room : ℕ) : Option ListWriter :=
  if room < 3 then none else some ⟨room, [], 0⟩

/-- Append an entry; refused when it does not fit. -/
def push (w : ListWriter) (path : Bytes) (b : Binding) : Option ListWriter :=
  if w.room < 3 + w.body.length + (2 + path.length + bindingLen b) ∨ maxListPage ≤ w.count.toNat then
    none
  else some ⟨w.room, w.body ++ putEntry path b, w.count + 1⟩

/-- Close the page. -/
def finish (w : ListWriter) (more : Bool) : Bytes :=
  [opList, w.count, flagByte more] ++ w.body

end ListWriter

/-- A page of these entries, if the writer takes them all. -/
def encodeListResp (room : ℕ) (entries : List (Bytes × Binding)) (more : Bool) : Option Bytes := do
  let w ← ListWriter.new room
  let w ← entries.foldlM (fun w e => w.push e.1 e.2) w
  return w.finish more

/-- The entries at the front, in order. -/
def takeEntries : ℕ → Bytes → Option (List (Bytes × Binding))
  | 0, _ => some []
  | n + 1, src => do
    let pathLen ← getField src 0 2
    let path ← getField src 2 (leNat pathLen)
    let (b, len) ← takeBinding (src.drop (2 + leNat pathLen))
    let entries ← takeEntries n (src.drop (2 + leNat pathLen + len))
    return (path, b) :: entries

def decodeListResp (src : Bytes) : Except WireError (List (Bytes × Binding) × Bool) := do
  require (3 ≤ src.length) .truncated
  require (src.getD 0 0 = opList) (.badOpcode (src.getD 0 0))
  let count := (src.getD 1 0).toNat
  require (count ≤ maxListPage) .truncated
  match takeEntries count (src.drop 3) with
  | some entries => return (entries, src.getD 2 0 != 0)
  | none => throw .truncated

/-! ## Answers of fixed fields -/

/-- A flag and what follows it, as three operations answer. -/
def flagFields (op : UInt8) (flag : UInt8) (rest : Bytes) : List Bytes := [[op], [flag], rest]

def encodeGcReserveResp (room : ℕ) (reserved : Bool) : Except WireError Bytes :=
  intoRoom room (flagFields opGcReserve (flagByte reserved) []).flatten

def decodeGcReserveResp (src : Bytes) : Except WireError Bool := do
  require (2 ≤ src.length) .truncated
  require (src.getD 0 0 = opGcReserve) (.badOpcode (src.getD 0 0))
  return src.getD 1 0 != 0

/-- The answer of a scan, with the cursor it goes on from. -/
def encodeScanResp (op : UInt8) (room : ℕ) (flag : Bool) (next : UInt32) : Except WireError Bytes :=
  intoRoom room (flagFields op (flagByte flag) (leBytes 4 next.toNat)).flatten

def decodeScanResp (op : UInt8) (src : Bytes) : Except WireError (Bool × UInt32) := do
  require (6 ≤ src.length) .truncated
  require (src.getD 0 0 = op) (.badOpcode (src.getD 0 0))
  return (src.getD 1 0 != 0, u32At src 2)

def encodeReferencedResp := encodeScanResp opReferenced
def decodeReferencedResp := decodeScanResp opReferenced
def encodeRetainedResp := encodeScanResp opRetained
def decodeRetainedResp := decodeScanResp opRetained

def leaseRespLen : ℕ := 1 + 1 + 8 + 8
def volumeRespLen : ℕ := 1 + 1 + 8

def leaseRespFields (status : UInt8) (fence expiresAtMs : UInt64) : List Bytes :=
  [[opLease], [status], leBytes 8 fence.toNat, leBytes 8 expiresAtMs.toNat]

def encodeLeaseResp (room : ℕ) (status : UInt8) (fence expiresAtMs : UInt64) :
    Except WireError Bytes :=
  intoRoom room (leaseRespFields status fence expiresAtMs).flatten

def decodeLeaseResp (src : Bytes) : Except WireError (UInt8 × UInt64 × UInt64) := do
  require (leaseRespLen ≤ src.length) .truncated
  require (src.getD 0 0 = opLease) (.badOpcode (src.getD 0 0))
  return (src.getD 1 0, u64At src 2, u64At src 10)

def volumeRespFields (status : UInt8) (revision : UInt64) : List Bytes :=
  [[opVolume], [status], leBytes 8 revision.toNat]

def encodeVolumeResp (room : ℕ) (status : UInt8) (revision : UInt64) : Except WireError Bytes :=
  intoRoom room (volumeRespFields status revision).flatten

def decodeVolumeResp (src : Bytes) : Except WireError (UInt8 × UInt64) := do
  require (volumeRespLen ≤ src.length) .truncated
  require (src.getD 0 0 = opVolume) (.badOpcode (src.getD 0 0))
  return (src.getD 1 0, u64At src 2)

/-! ## Volume roots -/

/-- The most root digests of a page (`MAX_VOLUME_ROOTS`). -/
def maxVolumeRoots : ℕ := 6
def volumeRootsHdr : ℕ := 1 + 4 + 8 + 1
def volumeRootDigest : ℕ := 32

def volumeRootsFields (next : UInt32) (view : UInt64) (count : ℕ) (digests : Bytes) : List Bytes :=
  [[opVolumeRoots], leBytes 4 next.toNat, leBytes 8 view.toNat, leBytes 1 count, digests]

def encodeVolumeRootsResp (room : ℕ) (next : UInt32) (view : UInt64) (digests : List (FixedBytes 32)) :
    Except WireError Bytes := do
  require (digests.length ≤ maxVolumeRoots) (.stringTooLong digests.length maxVolumeRoots)
  intoRoom room (volumeRootsFields next view digests.length (digests.map Subtype.val).flatten).flatten

/-- The cursor, the view, and the digests one after another. -/
def decodeVolumeRootsResp (src : Bytes) : Except WireError (UInt32 × UInt64 × Bytes) := do
  require (volumeRootsHdr ≤ src.length) .truncated
  require (src.getD 0 0 = opVolumeRoots) (.badOpcode (src.getD 0 0))
  let count := num src 13 1
  require (count ≤ maxVolumeRoots) (.stringTooLong count maxVolumeRoots)
  require (volumeRootsHdr + count * volumeRootDigest ≤ src.length) .truncated
  return (u32At src 1, u64At src 5, slice src volumeRootsHdr (count * volumeRootDigest))

/-! ## How long the record at the front is -/

/-- The length, once all of it is there. -/
def complete (src : Bytes) (needed : ℕ) : Option ℕ :=
  if src.length < needed then none else some needed

/-- The header of a request, and where in it the lengths stand; 0 is no
field. -/
def requestShape (op : UInt8) : Option (ℕ × List ℕ) :=
  if op = opRename then some (renameHdr, [1, 3, 5])
  else if op = opUnbind then some (unbindHdr, [1, 3, 0])
  else if op = opRetain then some (retainHdr, [1, 3, 0])
  else if op = opLookup then some (5, [1, 3, 0])
  else if op = opList then some (8, [1, 3, 5])
  else if op = opReferenced then some (7, [5, 0, 0])
  else if op = opRetained then some (retainedHdr, [5, 0, 0])
  else if op = opGcReserve ∨ op = opGcRelease then some (gcReserveHdr, [1, 0, 0])
  else if op = opLease then some (leaseReqHdr, [2, 4, 0])
  else if op = opVolume then some (volumeReqHdr, [2, 4, 6])
  else if op = opVolumeRoots then some (5, [0, 0, 0])
  else none

/-- The header, and the strings its lengths say. -/
def recordTotal (src : Bytes) (header : ℕ) (lensAt : List ℕ) : ℕ :=
  lensAt.foldl (fun total p => if p ≠ 0 then total + num src p 2 else total) header

/-- The total is the header and the lengths there are. -/
theorem recordTotal_eq (src : Bytes) (header : ℕ) (lensAt : List ℕ) :
    recordTotal src header lensAt =
      header + ((lensAt.filter (· ≠ 0)).map (num src · 2)).sum := by
  induction lensAt generalizing header with
  | nil => rfl
  | cons p ps ih =>
    refine (ih _).trans ?_
    by_cases hp : p = 0
    · simp [hp]
    · simp [hp, Nat.add_assoc]

/-- The length of the request at the front (`request_record_len`). -/
def requestRecordLen (src : Bytes) : Except WireError (Option ℕ) :=
  match src.head? with
  | none => .ok none
  | some op =>
    if op = opBind then
      if src.length < bindHdr then .ok none
      else .ok (complete src (bindHdr + num src 1 2 + num src 3 2 + num src 5 2 + num src 41 1
        + num src 42 1))
    else
      match requestShape op with
      | none => .error (.badOpcode op)
      | some (header, lensAt) =>
        if src.length < header then .ok none
        else .ok (complete src (recordTotal src header lensAt))

/-- The length of the binding at the front, from its lengths alone
(`binding_record_len`). -/
def bindingRecordLen (src : Bytes) : Option ℕ := do
  let oidLen ← getByte src 0
  let ctAt := 1 + oidLen.toNat + 8 + 1 + 8 + 8
  let ctLen ← getByte src ctAt
  let refAt := ctAt + 1 + ctLen.toNat
  let refLen ← getByte src refAt
  return refAt + 1 + refLen.toNat + 8 + 1

/-- Where the entries from `p` on end. -/
def entriesEnd (src : Bytes) : ℕ → ℕ → Option ℕ
  | 0, p => some p
  | n + 1, p =>
    if src.length < p + 2 then none
    else
      match bindingRecordLen (src.drop (p + 2 + num src p 2)) with
      | none => none
      | some len => entriesEnd src n (p + 2 + num src p 2 + len)

/-- The refusals, and the ack of a release. -/
def bareAnswers : List UInt8 := [opGcRelease, 0xFF, 0xFD, 0xFC, 0xFB, 0xFA, 0xF9]

/-- The length of the answer at the front (`response_record_len`). -/
def responseRecordLen (src : Bytes) : Except WireError (Option ℕ) :=
  match src.head? with
  | none => .ok none
  | some op =>
    if isWriteOp op then
      match getByte src 1 with
      | none => .ok none
      | some l =>
        if ackFenceMax < l.toNat then .error (.stringTooLong l.toNat ackFenceMax)
        else .ok (complete src (2 + l.toNat))
    else if op ∈ bareAnswers then .ok (complete src 1)
    else if op = opGcReserve then .ok (complete src 2)
    else if op = opLease then .ok (complete src leaseRespLen)
    else if op = opVolume then .ok (complete src volumeRespLen)
    else if op = opVolumeRoots then
      match getByte src 13 with
      | none => .ok none
      | some count => .ok (complete src (volumeRootsHdr + count.toNat * volumeRootDigest))
    else if op = opLookup then
      match getByte src 1 with
      | none => .ok none
      | some flag =>
        if flag = lookupNotFound then .ok (complete src 10)
        else
          match bindingRecordLen (src.drop 2) with
          | none => .ok none
          | some n => .ok (complete src (2 + n))
    else if op = opReferenced ∨ op = opRetained then .ok (complete src 6)
    else if op = opList then
      match getByte src 1 with
      | none => .ok none
      | some count =>
        match entriesEnd src count.toNat 3 with
        | none => .ok none
        | some p => .ok (complete src p)
    else .error (.badOpcode op)

/-! ## Every answer -/

/-- An answer, as it is encoded and decoded. -/
inductive WireAnswer where
  | writeAck (op : UInt8) (fence : Bytes)
  | found (b : Binding)
  | notFound (floor : UInt64)
  | page (entries : List (Bytes × Binding)) (more : Bool)
  | gcReserve (reserved : Bool)
  | referenced (flag : Bool) (next : UInt32)
  | retained (flag : Bool) (next : UInt32)
  | lease (status : UInt8) (fence expiresAtMs : UInt64)
  | volume (status : UInt8) (revision : UInt64)
  | volumeRoots (next : UInt32) (view : UInt64) (digests : List (FixedBytes 32))
deriving DecidableEq

namespace WireAnswer

variable (L : Limits)

/-- The encoder of the answer; nothing where it refuses. -/
def encode (room : ℕ) : WireAnswer → Option Bytes
  | writeAck op fence => (encodeWriteAck room op fence).toOption
  | found b => (encodeLookupFound L room b).toOption
  | notFound floor => (encodeLookupNotFound room floor).toOption
  | page entries more => encodeListResp room entries more
  | gcReserve reserved => (encodeGcReserveResp room reserved).toOption
  | referenced flag next => (encodeReferencedResp room flag next).toOption
  | retained flag next => (encodeRetainedResp room flag next).toOption
  | lease status fence expires => (encodeLeaseResp room status fence expires).toOption
  | volume status revision => (encodeVolumeResp room status revision).toOption
  | volumeRoots next view digests => (encodeVolumeRootsResp room next view digests).toOption

/-- The digests of a page, of those one after another. -/
def digests (bytes : Bytes) : List (FixedBytes 32) :=
  (cutAt 0 (List.replicate (bytes.length / 32) 32) bytes).map (FixedBytes.ofBytes 32)

def ofLookup : DecodedLookupResp → WireAnswer
  | .found b => found b
  | .notFound floor => notFound floor

/-- The decoder of the operation the first byte names. -/
def decode (src : Bytes) : Except WireError WireAnswer :=
  if src.head? = some opLookup then
    ofLookup <$> decodeLookupResp src
  else if src.head? = some opList then (fun p => page p.1 p.2) <$> decodeListResp src
  else if src.head? = some opGcReserve then gcReserve <$> decodeGcReserveResp src
  else if src.head? = some opReferenced then
    (fun p => referenced p.1 p.2) <$> decodeReferencedResp src
  else if src.head? = some opRetained then (fun p => retained p.1 p.2) <$> decodeRetainedResp src
  else if src.head? = some opLease then (fun p => lease p.1 p.2.1 p.2.2) <$> decodeLeaseResp src
  else if src.head? = some opVolume then (fun p => volume p.1 p.2) <$> decodeVolumeResp src
  else if src.head? = some opVolumeRoots then
    (fun p => volumeRoots p.1 p.2.1 (digests p.2.2)) <$> decodeVolumeRootsResp src
  else (fun p => writeAck p.1 p.2) <$> decodeWriteAck src

end WireAnswer

end Loam

import Loam.Lease
import Loam.Wire

/-!
# The object index

What is stored under an object's id: its size, its revision and how it is kept,
in a table of slots that is scanned. Beside the slots stands what each root
uses of its quota, which the operations that change the slots change with
them; a put that would cross a root's ceiling is refused before it takes a
slot.

A request is the record a log keeps: `applyToArena` decodes and applies it, and
a request it refuses leaves the index as it was (`applyToArena_refused`).
-/

namespace Loam

open Slices

/-! ## Requests -/

def opObjPut : UInt8 := 4
def opObjUpdate : UInt8 := 5
def opObjRemove : UInt8 := 6

/-- The highest class of data (`DATA_CLASS_REMOTE_CACHED`). -/
def dataClassRemoteCached : UInt8 := 3

/-- A descriptor, as a request has it. -/
structure PutFields where
  id : Bytes
  namespaceRoot : Bytes
  key : Bytes
  contentHash : Bytes
  sizeBytes : UInt64
  revision : UInt64
  dataClass : UInt8
  replicaCount : UInt8
  /-- Its data and parity shards, if it is erasure coded. -/
  erasure : Option (UInt8 × UInt8)
deriving DecidableEq

/-- The bytes before a descriptor's strings (`PUT_HEADER`). -/
def putHeader : ℕ := 1 + 2 + 2 + 2 + 2 + 8 + 8 + 1 + 1 + 1 + 1 + 1

/-- Each string against its own ceiling (`check_put`). -/
def PutFields.fits (L : Limits) (p : PutFields) : Bool :=
  decide (p.id.length ≤ L.maxObjectId) && decide (p.namespaceRoot.length ≤ L.maxRoot)
    && decide (p.key.length ≤ L.maxPath) && decide (p.contentHash.length ≤ L.maxObjectId)

/-- A descriptor under the opcode it is to have (`decode_put_inner`). -/
def decodePutInner (L : Limits) (expectedOp : UInt8) (src : Bytes) : Option PutFields := do
  guard (putHeader ≤ src.length)
  guard (src.getD 0 0 = expectedOp)
  let idLen := num src 1 2
  let nsLen := num src 3 2
  let keyLen := num src 5 2
  let hashLen := num src 7 2
  guard (src.getD 25 0 ≤ dataClassRemoteCached)
  guard (putHeader + (idLen + nsLen + keyLen + hashLen) ≤ src.length)
  let p : PutFields := {
    id := slice src putHeader idLen
    namespaceRoot := slice src (putHeader + idLen) nsLen
    key := slice src (putHeader + idLen + nsLen) keyLen
    contentHash := slice src (putHeader + idLen + nsLen + keyLen) hashLen
    sizeBytes := u64At src 9
    revision := u64At src 17
    dataClass := src.getD 25 0
    replicaCount := src.getD 26 0
    erasure := if src.getD 27 0 ≠ 0 then some (src.getD 28 0, src.getD 29 0) else none }
  guard (p.fits L)
  return p

/-- The id a removal names; its length is not checked (`decode_remove`). -/
def decodeRemove (src : Bytes) : Option Bytes := do
  guard (3 ≤ src.length)
  guard (src.getD 0 0 = opObjRemove)
  guard (3 + num src 1 2 ≤ src.length)
  return slice src 3 (num src 1 2)

/-! ## The table -/

/-- The digest an id is derived from, if it is (`derived_digest`). -/
def derivedDigest (objectId : Bytes) : Option Bytes :=
  if objectId.length = 7 + 64 ∧ objectId.take 7 = idPrefix then hexBytes (objectId.drop 7) else none

/-- A slot of the table. -/
structure ObjectSlot where
  /-- The id's hash: a scan is narrowed by it. -/
  objectIdHash : UInt64
  objectId : Bytes
  namespaceHash : UInt64
  /-- The digest, where the id is derived from one. -/
  contentDigest : Option Bytes
  sizeBytes : UInt64
  revision : UInt64
  dataClass : UInt8
  replicaCount : UInt8
  erasure : Option (UInt8 × UInt8)
  /-- The root itself, of which the slot keeps the hash: nothing reads it. -/
  namespaceRoot : Bytes
  namespace_hashed : namespaceHash = fnv1a64 namespaceRoot
deriving DecidableEq

/-- The slot is this id's. -/
def ObjectSlot.holds (s : ObjectSlot) (idHash : UInt64) (id : Bytes) : Bool :=
  s.objectIdHash == idHash && s.objectId == id

/-- What a root uses, and its ceilings; a ceiling of 0 is none. -/
structure RootUsage where
  namespaceHash : UInt64
  objects : UInt64
  bytes : UInt64
  maxObjects : UInt64
  maxBytes : UInt64
deriving DecidableEq

/-- `a - b`, or 0 (`saturating_sub`). -/
def saturatingSub (a b : UInt64) : UInt64 := if b ≤ a then a - b else 0

/-- One object more, of so many bytes, would cross a ceiling
(`would_exceed`). -/
def RootUsage.wouldExceed (u : RootUsage) (addBytes : UInt64) : Bool :=
  (u.maxObjects != 0 && decide (u.maxObjects < saturatingAdd u.objects 1))
    || (u.maxBytes != 0 && decide (u.maxBytes < saturatingAdd u.bytes addBytes))

/-- The first element of which `f` makes another is replaced by it, if there is
one. -/
def replaceFirst {α : Type} (f : α → Option α) : List α → Option (List α)
  | [] => none
  | a :: as =>
    match f a with
    | some b => some (b :: as)
    | none => (replaceFirst f as).map (a :: ·)

/-- The roots that can be accounted for at once (`MAX_QUOTA_ROOTS`). -/
def maxQuotaRoots : ℕ := 32

/-- The object index. -/
structure ObjectIndex where
  slots : List (Option ObjectSlot)
  roots : List (Option RootUsage)
deriving DecidableEq

/-- Why an operation of the table is refused. -/
inductive ObjectError where
  | idTooLong
  | quotaExceeded
  | alreadyPresent
  | notPresent
  | outOfCapacity
deriving DecidableEq

namespace ObjectIndex

/-- An empty index of so many slots. -/
def new (n : ℕ) : ObjectIndex := ⟨List.replicate n none, List.replicate maxQuotaRoots none⟩

/-- The slot of an id. -/
def lookup (s : ObjectIndex) (id : Bytes) : Option ObjectSlot :=
  s.slots.findSome? fun o => o.filter fun slot => slot.holds (fnv1a64 id) id

/-- Charge a root with one object; a root that has no place is not
accounted for (`credit`). -/
def credit (s : ObjectIndex) (h bytes : UInt64) : ObjectIndex :=
  let charged (u : RootUsage) : RootUsage :=
    { u with objects := saturatingAdd u.objects 1, bytes := saturatingAdd u.bytes bytes }
  match replaceFirst (fun o => match o with
      | some u => if u.namespaceHash = h then some (some (charged u)) else none
      | none => none) s.roots with
  | some roots => { s with roots := roots }
  | none =>
    match replaceFirst (fun o => match o with
        | some _ => none
        | none => some (some (charged ⟨h, 0, 0, 0, 0⟩))) s.roots with
    | some roots => { s with roots := roots }
    | none => s

/-- Discharge it (`debit`). -/
def debit (s : ObjectIndex) (h bytes : UInt64) : ObjectIndex :=
  match replaceFirst (fun o => match o with
      | some u => if u.namespaceHash = h then some (some { u with
          objects := saturatingSub u.objects 1, bytes := saturatingSub u.bytes bytes }) else none
      | none => none) s.roots with
  | some roots => { s with roots := roots }
  | none => s

/-- Insert an object; the same id with the same size is there already
(`put_new`). -/
def putNew (L : Limits) (s : ObjectIndex) (p : PutFields) : ObjectIndex × Except ObjectError Unit :=
  if L.maxObjectId < p.id.length then (s, .error .idTooLong)
  else match s.lookup p.id with
    | some existing =>
      if existing.sizeBytes = p.sizeBytes then (s, .ok ()) else (s, .error .alreadyPresent)
    | none =>
      let nsHash := fnv1a64 p.namespaceRoot
      let usage := s.roots.findSome? fun o => o.filter fun u => u.namespaceHash == nsHash
      if usage.any fun u => u.wouldExceed p.sizeBytes then (s, .error .quotaExceeded)
      else
        match replaceFirst (fun o => match o with
            | some _ => none
            | none => some (some (ObjectSlot.mk (fnv1a64 p.id) p.id nsHash (derivedDigest p.id)
                p.sizeBytes p.revision p.dataClass p.replicaCount p.erasure p.namespaceRoot
                rfl))) s.slots with
        | some slots => ({ s with slots := slots }.credit nsHash p.sizeBytes, .ok ())
        | none => (s, .error .outOfCapacity)

/-- Overwrite an object's descriptor (`update`). -/
def update (s : ObjectIndex) (p : PutFields) : ObjectIndex × Except ObjectError Unit :=
  match s.lookup p.id with
  | none => (s, .error .notPresent)
  | some old =>
    let nsHash := fnv1a64 p.namespaceRoot
    let slots := (replaceFirst (fun o => match o with
        | some slot =>
          if slot.holds (fnv1a64 p.id) p.id then some (some { slot with
            namespaceHash := nsHash
            sizeBytes := p.sizeBytes
            revision := p.revision
            dataClass := p.dataClass
            replicaCount := p.replicaCount
            erasure := p.erasure
            namespaceRoot := p.namespaceRoot
            namespace_hashed := rfl }) else none
        | none => none) s.slots).getD s.slots
    (({ s with slots := slots }.debit old.namespaceHash old.sizeBytes).credit nsHash p.sizeBytes,
      .ok ())

/-- Remove an object (`remove`). -/
def remove (s : ObjectIndex) (id : Bytes) : ObjectIndex × Except ObjectError Unit :=
  match s.lookup id with
  | none => (s, .error .notPresent)
  | some old =>
    let slots := (replaceFirst (fun o => match o with
        | some slot => if slot.holds (fnv1a64 id) id then some none else none
        | none => none) s.slots).getD s.slots
    ({ s with slots := slots }.debit old.namespaceHash old.sizeBytes, .ok ())

/-! ## Applying a request -/

/-- Why a request is refused (`ApplyFault`). -/
inductive ApplyFault where
  | absent
  /-- The root's quota would be crossed. -/
  | quota
  | rejected
deriving DecidableEq

/-- The answer to a refused request (`reply_for`). -/
def replyFor : ApplyFault → UInt8
  | .absent => 0xFE
  | .quota => 0xFD
  | .rejected => 0xFF

/-- The operation's result with its error told as a fault. -/
def faulted (op : UInt8) (fault : ObjectError → ApplyFault) :
    ObjectIndex × Except ObjectError Unit → ObjectIndex × Except ApplyFault UInt8
  | (s, .ok _) => (s, .ok op)
  | (s, .error e) => (s, .error (fault e))

/-- Apply a request (`apply_to_arena`). -/
def applyToArena (L : Limits) (s : ObjectIndex) (payload : Bytes) :
    ObjectIndex × Except ApplyFault UInt8 :=
  if payload.head? = some opObjPut then
    match decodePutInner L opObjPut payload with
    | none => (s, .error .rejected)
    | some p => faulted opObjPut
        (fun e => if e = .quotaExceeded then .quota else .rejected) (s.putNew L p)
  else if payload.head? = some opObjUpdate then
    match decodePutInner L opObjUpdate payload with
    | none => (s, .error .rejected)
    | some p => faulted opObjUpdate (fun _ => .rejected) (s.update p)
  else if payload.head? = some opObjRemove then
    match decodeRemove payload with
    | none => (s, .error .rejected)
    | some id => faulted opObjRemove
        (fun e => if e = .notPresent then .absent else .rejected) (s.remove id)
  else (s, .error .rejected)

variable {L : Limits} {s : ObjectIndex}

theorem putNew_refused {p : PutFields} {e : ObjectError} (h : (s.putNew L p).2 = .error e) :
    (s.putNew L p).1 = s := by
  unfold putNew at h ⊢
  grind

theorem faulted_refused {op : UInt8} {fault : ObjectError → ApplyFault}
    {r : ObjectIndex × Except ObjectError Unit} (hr : ∀ e, r.2 = .error e → r.1 = s)
    {f : ApplyFault} (h : (faulted op fault r).2 = .error f) : (faulted op fault r).1 = s := by
  obtain ⟨s', e | e⟩ := r
  · exact hr e rfl
  · cases h

/-- **A request that is refused leaves the index as it was.** -/
theorem applyToArena_refused {payload : Bytes} {f : ApplyFault}
    (h : (s.applyToArena L payload).2 = .error f) : (s.applyToArena L payload).1 = s := by
  have hupdate : ∀ p e, (s.update p).2 = .error e → (s.update p).1 = s := by
    intro p e he
    unfold update at he ⊢
    cases hl : s.lookup p.id with
    | none => rfl
    | some old =>
      rw [hl] at he
      cases he
  have hremove : ∀ id e, (s.remove id).2 = .error e → (s.remove id).1 = s := by
    intro id e he
    unfold remove at he ⊢
    cases hl : s.lookup id with
    | none => rfl
    | some old =>
      rw [hl] at he
      cases he
  unfold applyToArena at h ⊢
  split
  · next hop =>
    rw [if_pos hop] at h
    cases hd : decodePutInner L opObjPut payload with
    | none => rfl
    | some p =>
      rw [hd] at h
      exact faulted_refused (fun _ => putNew_refused) h
  next hop =>
  rw [if_neg hop] at h
  split
  · next hop =>
    rw [if_pos hop] at h
    cases hd : decodePutInner L opObjUpdate payload with
    | none => rfl
    | some p =>
      rw [hd] at h
      exact faulted_refused (hupdate p) h
  next hop =>
  rw [if_neg hop] at h
  split
  · next hop =>
    rw [if_pos hop] at h
    cases hd : decodeRemove payload with
    | none => rfl
    | some id =>
      rw [hd] at h
      exact faulted_refused (hremove id) h
  · rfl

end ObjectIndex

end Loam

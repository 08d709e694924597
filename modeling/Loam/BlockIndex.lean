import Loam.ObjectIndex

/-!
# The block index

Volumes and how many of their blocks are allocated. An allocation past a
volume's size is refused, and so is a release of more than is allocated; no
block's bytes are here. It is a table of slots like the object index, and keeps
its log as that does.
-/

namespace Loam

open Slices

/-! ## Requests -/

def opCreateVolume : UInt8 := 7
def opAllocate : UInt8 := 8
def opRelease : UInt8 := 9

/-- The highest class of a volume (`CLASS_SNAPSHOT`). -/
def classSnapshot : UInt8 := 4

/-- A request for a volume. -/
structure DecodedCreateVolume where
  volumeId : Bytes
  volumeClass : UInt8
  logicalBytes : UInt64
  blockSize : UInt32
  thinProvisioned : Bool
deriving DecidableEq

/-- The bytes before a created volume's id (`CREATE_HEADER`). -/
def createHeader : ℕ := 1 + 2 + 1 + 8 + 4 + 1

/-- The bytes before a counted volume's id (`COUNT_HEADER`). -/
def countHeader : ℕ := 1 + 2 + 8

/-- A volume to create (`decode_create_volume`). -/
def decodeCreateVolume (src : Bytes) : Option DecodedCreateVolume := do
  guard (createHeader ≤ src.length)
  guard (src.getD 0 0 = opCreateVolume)
  guard (src.getD 3 0 ≤ classSnapshot)
  guard (createHeader + num src 1 2 ≤ src.length)
  return {
    volumeId := slice src createHeader (num src 1 2)
    volumeClass := src.getD 3 0
    logicalBytes := u64At src 4
    blockSize := u32At src 12
    thinProvisioned := src.getD 16 0 != 0 }

/-- A volume and a count of blocks, under the opcode they are to have
(`decode_count_op`). -/
def decodeCountOp (expectedOp : UInt8) (src : Bytes) : Option (Bytes × UInt64) := do
  guard (countHeader ≤ src.length)
  guard (src.getD 0 0 = expectedOp)
  guard (countHeader + num src 1 2 ≤ src.length)
  return (slice src countHeader (num src 1 2), u64At src 3)

/-! ## The table -/

/-- A slot of the table. -/
structure VolumeSlot where
  /-- The id's hash: a scan is narrowed by it. -/
  volumeIdHash : UInt64
  volumeId : Bytes
  logicalBytes : UInt64
  blockSize : UInt32
  allocatedBlocks : UInt64
  volumeClass : UInt8
  thinProvisioned : Bool
deriving DecidableEq

namespace VolumeSlot

/-- The slot is this id's. -/
def holds (s : VolumeSlot) (idHash : UInt64) (id : Bytes) : Bool :=
  s.volumeIdHash == idHash && s.volumeId == id

/-- The blocks of the volume. -/
def logicalBlockCount (s : VolumeSlot) : UInt64 :=
  if s.blockSize = 0 then 0 else s.logicalBytes / s.blockSize.toUInt64

/-- Those not allocated. -/
def freeBlocks (s : VolumeSlot) : UInt64 := saturatingSub s.logicalBlockCount s.allocatedBlocks

end VolumeSlot

/-- The block index. -/
structure BlockIndex where
  slots : List (Option VolumeSlot)
deriving DecidableEq

namespace BlockIndex

/-- An empty index of so many slots. -/
def new (n : ℕ) : BlockIndex := ⟨List.replicate n none⟩

/-- The slot of an id. -/
def lookup (s : BlockIndex) (id : Bytes) : Option VolumeSlot :=
  s.slots.findSome? fun o => o.filter fun slot => slot.holds (fnv1a64 id) id

/-- Overwrite the slot of an id. -/
def setVolume (s : BlockIndex) (id : Bytes) (slot' : VolumeSlot) : BlockIndex :=
  ⟨(replaceFirst (fun o => match o with
    | some slot => if slot.holds (fnv1a64 id) id then some (some slot') else none
    | none => none) s.slots).getD s.slots⟩

/-- Create a volume, unless there is one of its id (`create_volume`). -/
def createVolume (L : Limits) (s : BlockIndex) (d : DecodedCreateVolume) : Option BlockIndex :=
  if L.maxObjectId < d.volumeId.length then none
  else if (s.lookup d.volumeId).isSome then none
  else (replaceFirst (fun o => match o with
    | some _ => none
    | none => some (some (VolumeSlot.mk (fnv1a64 d.volumeId) d.volumeId d.logicalBytes d.blockSize 0
        d.volumeClass d.thinProvisioned))) s.slots).map BlockIndex.mk

/-- Allocate blocks of a volume that has them free (`allocate`). -/
def allocate (s : BlockIndex) (id : Bytes) (count : UInt64) : Option BlockIndex :=
  match s.lookup id with
  | none => none
  | some slot =>
    if slot.freeBlocks < count then none
    else some (s.setVolume id
      { slot with allocatedBlocks := saturatingAdd slot.allocatedBlocks count })

/-- Release blocks that are allocated (`release`). -/
def release (s : BlockIndex) (id : Bytes) (count : UInt64) : Option BlockIndex :=
  match s.lookup id with
  | none => none
  | some slot =>
    if slot.allocatedBlocks < count then none
    else some (s.setVolume id { slot with allocatedBlocks := slot.allocatedBlocks - count })

/-! ## Applying a request -/

/-- The index after an operation, and whether it was applied. -/
def applied (s : BlockIndex) (op : UInt8) : Option BlockIndex → BlockIndex × Except Unit UInt8
  | some s' => (s', .ok op)
  | none => (s, .error ())

/-- Apply a request (`apply_to_arena`). -/
def applyToArena (L : Limits) (s : BlockIndex) (payload : Bytes) : BlockIndex × Except Unit UInt8 :=
  if payload.head? = some opCreateVolume then
    s.applied opCreateVolume ((decodeCreateVolume payload).bind (s.createVolume L))
  else if payload.head? = some opAllocate then
    s.applied opAllocate ((decodeCountOp opAllocate payload).bind fun d => s.allocate d.1 d.2)
  else if payload.head? = some opRelease then
    s.applied opRelease ((decodeCountOp opRelease payload).bind fun d => s.release d.1 d.2)
  else (s, .error ())

/-- **A request that is refused leaves the index as it was.** -/
theorem applyToArena_refused {L : Limits} {s : BlockIndex} {payload : Bytes} {f : Unit}
    (h : (s.applyToArena L payload).2 = .error f) : (s.applyToArena L payload).1 = s := by
  have happlied : ∀ op o, (s.applied op o).2 = .error f → (s.applied op o).1 = s := by
    intro op o ho
    cases o with
    | none => rfl
    | some s' => cases ho
  unfold applyToArena at h ⊢
  split at h
  · next hop =>
    rw [if_pos hop]
    exact happlied _ _ h
  next hop =>
  rw [if_neg hop]
  split at h
  · next hop =>
    rw [if_pos hop]
    exact happlied _ _ h
  next hop =>
  rw [if_neg hop]
  split at h
  · next hop =>
    rw [if_pos hop]
    exact happlied _ _ h
  · next hop => rw [if_neg hop]

end BlockIndex

end Loam

import Loam.Lease
import Loam.Snapshot

/-!
# The mutation records

What is appended to the log, ordered, and judged by `apply_op` is a record of
one of ten kinds. The types below are what decoding yields (`loam_wire.rs`);
each carries the check its decoder makes (`decodes`), since the judge refuses
a record that does not decode before it reads anything. Bytes that are no
record of these kinds at all are `Record.undecodable`.

Two kinds, the restores, are never accepted from outside: a rotated log opens
with them.
-/

namespace Loam

/-- The condition a write carries on the key's state (`COND_*`). -/
inductive Cond where
  | any
  | absent
  | revision
deriving DecidableEq

/-- A bind record (`DecodedBind`), also the shape of a binding restore. -/
structure BindMsg where
  key : Key
  /-- The target, its kind, the revision, the metadata. -/
  binding : Binding
  cond : Cond
  /-- The revision `Cond.revision` expects. -/
  expect : UInt64
deriving DecidableEq

/-- A rename record (`DecodedRename`). -/
structure RenameMsg where
  root : Bytes
  source : Bytes
  dest : Bytes
  newRevision : UInt64
  stampMs : UInt64
deriving DecidableEq

/-- An unbind record (`DecodedUnbind`). -/
structure UnbindMsg where
  key : Key
  revision : UInt64
  stampMs : UInt64
  cond : Cond
  /-- The revision `Cond.revision` expects. -/
  expect : UInt64
deriving DecidableEq

/-- What a retain record does to the hold (`RETAIN_HOLD_*`). -/
inductive RetainHold where
  | leave
  | set
  | clear
deriving DecidableEq

/-- A retain record (`DecodedRetain`). -/
structure RetainMsg where
  key : Key
  /-- The revision the binding is left at, when this changes it. -/
  revision : UInt64
  stampMs : UInt64
  /-- The revision the binding must hold. -/
  expect : UInt64
  /-- The new retention; 0 leaves it as it is. -/
  retainUntilMs : UInt64
  hold : RetainHold
deriving DecidableEq

/-- A lease record (`DecodedLeaseReq`); its mode is judged by the table. -/
structure LeaseMsg where
  mode : UInt8
  key : Key
  holder : Bytes
  nowMs : UInt64
  ttlMs : UInt64
deriving DecidableEq

/-- The steps of a volume flush (`VOLUME_*` modes). -/
inductive VolumeMode where
  | start
  /-- Bind the volume to its new root. -/
  | commit
  /-- End a flush without binding. -/
  | abort
  | delete
  | other
deriving DecidableEq

/-- A volume record (`DecodedVolumeReq`). -/
structure VolumeMsg where
  mode : VolumeMode
  key : Key
  objectId : Bytes
  holder : Bytes
  fence : UInt64
  expected : UInt64
  nowMs : UInt64
deriving DecidableEq

/-- One record of the log. -/
inductive Record where
  | bind (m : BindMsg)
  | rename (m : RenameMsg)
  | unbind (m : UnbindMsg)
  | retain (m : RetainMsg)
  | volume (m : VolumeMsg)
  | lease (m : LeaseMsg)
  | gcReserve (objectId : Bytes) (nowMs : UInt64)
  | gcRelease (objectId : Bytes)
  | leaseRestore (e : LeaseEntry) (fenceFloor stampFloor : UInt64)
  | bindingRestore (m : BindMsg)
  /-- Bytes that decode to none of these. -/
  | undecodable
deriving DecidableEq

/-- The records a client may send: the restores open a rotated log and are
refused from outside. -/
def Record.fromWire : Record → Bool
  | .leaseRestore .. => false
  | .bindingRestore _ => false
  | _ => true

/-- The greatest kind a bind may name (`KIND_SYMLINK`). -/
def kindSymlink : UInt8 := 4

variable (L : Limits)

/-- The checks of `decode_bind_fields`. -/
def BindMsg.decodesFields (m : BindMsg) : Bool :=
  Arena.bindFits L m.key m.binding.objectId m.binding.metadata

/-- The checks of `decode_bind`. -/
def BindMsg.decodes (m : BindMsg) : Bool :=
  m.decodesFields L && decide (m.binding.kind ≤ kindSymlink)

/-- The checks of `decode_retain`. -/
def RetainMsg.decodes (m : RetainMsg) : Bool := L.keyFits m.key.root m.key.path []

/-- The checks of `decode_lease_req`. -/
def LeaseMsg.decodes (m : LeaseMsg) : Bool := L.keyFits m.key.root m.key.path []

/-- The checks of `decode_volume_req`. -/
def VolumeMsg.decodes (m : VolumeMsg) : Bool := L.keyFits m.key.root m.key.path m.objectId

/-! ## Verdicts -/

/-- Why a record was refused (`ApplyFault`). -/
inductive ApplyFault where
  /-- A snapshot read it needs is being fetched: nothing is decided. -/
  | pending
  /-- Refused for no reason the wire names. -/
  | rejected
  | reserved
  /-- The revision is not past the key's. -/
  | stale
  | condition
  /-- The key is, or would become, a volume. -/
  | fenced
  | retained
deriving DecidableEq

/-- The status of a volume record (`VOLUME_*` statuses). -/
inductive VolumeStatus where
  | ok
  /-- Another commit landed first. -/
  | conflict
  | leaseLost
  | reserved
  /-- Malformed, or a commit with no flush open. -/
  | badReq
  /-- The commit would replace a retained binding. -/
  | retained
deriving DecidableEq

/-- What a record is answered. -/
inductive Verdict where
  | ok
  | lease (out : LeaseOutcome)
  | volume (status : VolumeStatus) (revision : UInt64)
  | refused (fault : ApplyFault)
deriving DecidableEq

/-- The record was not applied, nor found in place. -/
def Verdict.isRefusal : Verdict → Bool
  | .ok => false
  | .lease out => out.status != .granted
  | .volume status _ => status != .ok
  | .refused _ => true

end Loam

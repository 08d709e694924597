import Loam.Record
import Loam.ArenaLaws

/-!
# Judging a record

`applyOp` is the function every record goes through, live and on replay. It
reads the key's current state – the arena's entry, else the snapshot's record
– judges the record against it, and writes the arena.

The verdict of each kind of record is a function of its own (`judgeBind`,
`judgeUnbind`, …) of what was read; the code computes these inline, in the
order their branches stand here. A write that finds the arena full is tried
once more behind an eviction.
-/

namespace Loam

/-- What the namespace judges records against: the arena, the leases, the
deletion reservations, and the open snapshot generation if there is one. -/
structure Namespace (L : Limits) where
  bindings : Arena L
  leases : LeaseTable L
  /-- Hashes of the object ids reserved for deletion; 0 is a free slot. -/
  gcReserved : List UInt64
  /-- The generation reads fall through to. -/
  snap : Option Snapshot
deriving DecidableEq

/-- Object ids a sweep may hold reserved at once (`GC_RESERVE_MAX`). -/
def gcReserveMax : ℕ := 4

/-- The reservations with one more id; a full table leaves it unreserved. -/
def reserveHash (reserved : List UInt64) (h : UInt64) : List UInt64 :=
  if reserved.contains h then reserved
  else match reserved.findIdx? (· == 0) with
    | some i => reserved.set i h
    | none => reserved

/-- The reservations with an id released. -/
def releaseHash (reserved : List UInt64) (h : UInt64) : List UInt64 :=
  reserved.map fun x => if x = h then 0 else x

/-! ## The judgement of each kind of record -/

section Judge

/-- The revision a key is at; a key never bound is at 0. -/
def curRevision (cur : Option Binding) : UInt64 := (cur.map Binding.revision).getD 0

/-- The key is bound, live. -/
def isLive (cur : Option Binding) : Bool := cur.any Binding.live

@[simp] theorem isLive_some (b : Binding) : isLive (some b) = b.live := rfl

/-- The key's binding refuses change at `now`. -/
def isRetained (cur : Option Binding) (now : UInt64) : Bool := cur.any (·.retainedAt now)

/-- The key is bound, live, as a volume (`volume_gate`). -/
def isVolume (cur : Option Binding) : Bool := cur.any fun b => b.live && b.kind == kindVolume

/-- A bind against the key's current binding: refused, already in place
(`false`), or to be written (`true`). -/
def judgeBind (cur : Option Binding) (m : BindMsg) : Except ApplyFault Bool :=
  let b := m.binding
  let same := cur.any fun c => c.kind == b.kind && c.objectId == b.objectId
  if isVolume cur then .error .fenced
  else if b.revision ≤ curRevision cur then
    if isLive cur && b.revision == curRevision cur && same then .ok false else .error .stale
  else if m.cond = .absent ∧ isLive cur then .error .condition
  else if m.cond = .revision ∧ curRevision cur ≠ m.expect then .error .condition
  else if isRetained cur b.metadata.stampMs then .error .retained
  else .ok true

/-- An unbind: refused, already done (`false`), or to be done (`true`). -/
def judgeUnbind (cur : Option Binding) (m : UnbindMsg) : Except ApplyFault Bool :=
  if isVolume cur then .error .fenced
  else if !isLive cur then
    if curRevision cur = m.revision ∧ m.revision ≠ 0 then .ok false else .error .rejected
  else if m.revision ≤ curRevision cur then .error .stale
  else if m.cond = .revision ∧ curRevision cur ≠ m.expect then .error .condition
  else if isRetained cur m.stampMs then .error .retained
  else .ok true

/-- The hold a retain leaves. -/
def RetainHold.apply (h : RetainHold) (hold : Bool) : Bool :=
  match h with
  | .leave => hold
  | .set => true
  | .clear => false

/-- A retain: refused, nothing to change (`none`), or the binding it leaves. -/
def judgeRetain (cur : Option Binding) (m : RetainMsg) : Except ApplyFault (Option Binding) :=
  match cur with
  | none => .error .condition
  | some c =>
    let held := c.metadata.retainUntilMs
    if m.revision ≤ c.revision then .error .stale
    else if c.revision ≠ m.expect ∨ c.kind = kindTombstone then .error .condition
    else if c.kind = kindVolume then .error .fenced
    else if m.retainUntilMs ≠ 0 ∧ m.retainUntilMs < held then .error .retained
    else
      let newUntil := if m.retainUntilMs ≠ 0 then m.retainUntilMs else held
      let newHold := m.hold.apply c.metadata.hold
      if newUntil = held ∧ newHold = c.metadata.hold then .ok none
      else .ok (some
        { c with
          revision := m.revision
          metadata := { c.metadata with retainUntilMs := newUntil, hold := newHold } })

/-- A rename, against what both tiers hold at its two names. -/
def judgeRename (src dst : Option Binding) (m : RenameMsg) : Except ApplyFault Unit :=
  if isVolume src || isVolume dst then .error .fenced
  else if isRetained src m.stampMs || isRetained dst m.stampMs then .error .retained
  else if isLive dst then .error .rejected
  else .ok ()

/-- What a volume record asks of the bindings, once judged. -/
inductive VolumeStep where
  | answer (status : VolumeStatus) (revision : UInt64)
  | commit (next : UInt64)
  | delete
deriving DecidableEq

/-- A volume record, its stamp already judged and advanced. `cur` is the
volume's live binding. -/
def judgeVolumeMode {L : Limits} (leases : LeaseTable L) (reserved : Bool)
    (cur : Option Binding) (m : VolumeMsg) : LeaseTable L × VolumeStep :=
  let sameGeneration :=
    (leases.lease m.key).any fun e => e.holder == m.holder && e.fence == m.fence
  let holds := leases.holds m.key m.holder m.fence m.nowMs
  let closed := leases.setFlushing m.key m.holder false
  match m.mode with
  | .start =>
    if !holds then (leases, .answer .leaseLost (curRevision cur))
    else if reserved then (leases, .answer .reserved (curRevision cur))
    else (leases.setFlushing m.key m.holder true, .answer .ok (curRevision cur))
  | .abort =>
    if !sameGeneration then (leases, .answer .leaseLost (curRevision cur))
    else (closed, .answer .ok (curRevision cur))
  | .commit =>
    if m.objectId.isEmpty then (leases, .answer .badReq (curRevision cur))
    else match checkedSucc m.expected with
      | none => (leases, .answer .badReq (curRevision cur))
      | some next =>
        -- the same commit asked again after it landed
        if cur.any fun c => c.kind == kindVolume && c.objectId == m.objectId
            && c.revision == next then (leases, .answer .ok next)
        else if !holds then
          (if sameGeneration then closed else leases, .answer .leaseLost (curRevision cur))
        else if curRevision cur ≠ m.expected then (closed, .answer .conflict (curRevision cur))
        else if !leases.isFlushing m.key m.holder then
          (leases, .answer .badReq (curRevision cur))
        else if isRetained cur m.nowMs then (closed, .answer .retained (curRevision cur))
        else (closed, .commit next)
  | .delete =>
    if !holds then (leases, .answer .leaseLost (curRevision cur))
    else match cur with
      | none => (closed, .answer .conflict (curRevision cur))
      | some c =>
        if c.kind = kindVolume ∧ c.revision = m.expected then (closed, .delete)
        else if c.kind ≠ kindVolume then (closed, .answer .badReq (curRevision cur))
        else (closed, .answer .conflict (curRevision cur))
  | .other => (leases, .answer .badReq (curRevision cur))

/-- A volume record against the binding read for it (`judge_volume_at`). A
tombstone is no binding to it: the revisions of a volume start again at its
creation. -/
def judgeVolumeAt {L : Limits} (leases : LeaseTable L) (reserved : Bool)
    (cur : Option Binding) (m : VolumeMsg) : LeaseTable L × VolumeStep :=
  let cur := cur.filter Binding.live
  if m.nowMs = 0 ∨ m.key.path = [] then (leases, .answer .badReq (curRevision cur))
  else match leases.touch m.key m.nowMs with
    | (leases, some true) => judgeVolumeMode leases reserved cur m
    | (leases, _) => (leases, .answer .leaseLost (curRevision cur))

end Judge

/-- What a volume commit binds. -/
def VolumeMsg.root (m : VolumeMsg) (next : UInt64) : Binding :=
  ⟨next, kindVolume, m.objectId, ⟨m.nowMs, 0, [], [], 0, false⟩⟩

namespace Namespace

variable {L : Limits}

/-- The empty namespace. -/
def new (L : Limits) : Namespace L :=
  ⟨Arena.new L, LeaseTable.new L, List.replicate gcReserveMax 0, none⟩

/-! ## Reading a key -/

/-- Where a key's current state lives (`Current`). -/
inductive Current where
  | arena (s : BindingSlot)
  | snapshot (r : SnapRecord)

/-- What is bound, whichever tier holds it. -/
def Current.binding : Current → Binding
  | .arena s => s.toBinding
  | .snapshot r => r.toBinding

/-- The current state of a key: the arena's entry, else the snapshot's
record (`current`). -/
def current (ns : Namespace L) (io : ReadEnv) (k : Key) : SnapRead (Option Current) :=
  match ns.bindings.lookup k with
  | some s => .ready (some (.arena s))
  | none =>
    match ns.snap with
    | none => .ready none
    | some g =>
      match g.search io k with
      | .ready r => .ready (r.map .snapshot)
      | .pending => .pending
      | .failed => .failed

/-- `current` as a judge reads it: an unreadable snapshot refuses the record,
one being fetched defers it. -/
def read (ns : Namespace L) (io : ReadEnv) (k : Key) : Except ApplyFault (Option Binding) :=
  match ns.current io k with
  | .ready c => .ok (c.map Current.binding)
  | .pending => .error .pending
  | .failed => .error .rejected

/-! ## Reservations -/

/-- Is the id reserved for deletion? -/
def isReserved (ns : Namespace L) (objectId : Bytes) : Bool :=
  ns.gcReserved.contains (fnv1a64 objectId)

/-- Does any reservation stand? -/
def anyReserved (ns : Namespace L) : Bool := ns.gcReserved.any (· != 0)

/-- Reserve an id, after ending the flushes whose lease has expired. -/
def reserve (ns : Namespace L) (objectId : Bytes) (now : UInt64) : Namespace L :=
  { ns with
    leases := ns.leases.endExpiredFlushes now
    gcReserved := reserveHash ns.gcReserved (fnv1a64 objectId) }

/-- Release a reservation. -/
def release (ns : Namespace L) (objectId : Bytes) : Namespace L :=
  { ns with gcReserved := releaseHash ns.gcReserved (fnv1a64 objectId) }

/-! ## Writing behind an eviction -/

/-- Run an arena write, and once more behind one eviction when the arena is
full. `active` is the caller's own condition on evicting. -/
def behindEviction (ns : Namespace L) (active : Bool)
    (op : Arena L → Except ApplyError (Arena L)) : Namespace L × Bool :=
  match op ns.bindings with
  | .ok a => ({ ns with bindings := a }, true)
  | .error .outOfCapacity =>
    match if active then ns.bindings.evictOneSnapshotted else none with
    | none => (ns, false)
    | some e =>
      match op e with
      | .ok a => ({ ns with bindings := a }, true)
      | .error _ => ({ ns with bindings := e }, false)
  | .error _ => (ns, false)

/-- `bind`, behind one eviction when the arena is full. -/
def bindBinding (ns : Namespace L) (k : Key) (b : Binding) : Namespace L × Bool :=
  ns.behindEviction ns.snap.isSome fun a => a.bind k b.objectId b.kind b.revision b.metadata

/-- `commit_bind`, behind one eviction when the arena is full
(`commit_binding`). -/
def commitBinding (ns : Namespace L) (k : Key) (b : Binding) : Namespace L × Bool :=
  ns.behindEviction ns.snap.isSome fun a =>
    a.commitBind k b.objectId b.kind b.revision b.metadata

/-- Tombstone a key, behind one eviction when the arena is full
(`remove_binding`). -/
def removeBinding (ns : Namespace L) (k : Key) (revision : UInt64) : Namespace L × Bool :=
  ns.behindEviction true fun a => a.tombstone k revision

/-- Move a binding in the arena; any refusal by a full arena is tried once
more behind an eviction that spares the binding being moved. -/
def renameBinding (ns : Namespace L) (m : RenameMsg) : Namespace L × Bool :=
  match ns.bindings.rename m.root m.source m.dest m.newRevision with
  | .ok a => ({ ns with bindings := a }, true)
  | .error _ =>
    match if ns.snap.isSome && ns.bindings.full then
        ns.bindings.evictOneSnapshottedSparing (some ⟨m.root, m.source⟩) else none with
    | none => (ns, false)
    | some e =>
      match e.rename m.root m.source m.dest m.newRevision with
      | .ok a => ({ ns with bindings := a }, true)
      | .error _ => ({ ns with bindings := e }, false)

/-- The verdict of a write. -/
def written (p : Namespace L × Bool) : Namespace L × Verdict :=
  (p.1, if p.2 then .ok else .refused .rejected)

/-! ## The records -/

/-- A bind (`OP_BIND`). -/
def applyBind (ns : Namespace L) (io : ReadEnv) (m : BindMsg) : Namespace L × Verdict :=
  if !m.decodes L then (ns, .refused .rejected)
  else if ns.isReserved m.binding.objectId then (ns, .refused .reserved)
  else if m.binding.kind = kindVolume then (ns, .refused .fenced)
  else match ns.read io m.key with
    | .error f => (ns, .refused f)
    | .ok cur =>
      match judgeBind cur m with
      | .error f => (ns, .refused f)
      | .ok false => (ns, .ok)
      | .ok true => written (ns.bindBinding m.key m.binding)

/-- A rename (`OP_RENAME`). -/
def applyRename (ns : Namespace L) (io : ReadEnv) (m : RenameMsg) : Namespace L × Verdict :=
  match ns.read io ⟨m.root, m.source⟩ with
  | .error f => (ns, .refused f)
  | .ok src =>
    -- a volume at the old name refuses before the new name is read
    if isVolume src then (ns, .refused .fenced)
    else match ns.read io ⟨m.root, m.dest⟩ with
      | .error f => (ns, .refused f)
      | .ok dst =>
        match judgeRename src dst m with
        | .error f => (ns, .refused f)
        | .ok () => written (ns.renameBinding m)

/-- An unbind (`OP_UNBIND`). -/
def applyUnbind (ns : Namespace L) (io : ReadEnv) (m : UnbindMsg) : Namespace L × Verdict :=
  match ns.read io m.key with
  | .error f => (ns, .refused f)
  | .ok cur =>
    match judgeUnbind cur m with
    | .error f => (ns, .refused f)
    | .ok false => (ns, .ok)
    | .ok true => written (ns.removeBinding m.key m.revision)

/-- A retain (`apply_retain`). -/
def applyRetain (ns : Namespace L) (io : ReadEnv) (m : RetainMsg) : Namespace L × Verdict :=
  if !m.decodes L then (ns, .refused .rejected)
  else match ns.read io m.key with
    | .error f => (ns, .refused f)
    | .ok cur =>
      match judgeRetain cur m with
      | .error f => (ns, .refused f)
      | .ok none => (ns, .ok)
      | .ok (some b) => written (ns.commitBinding m.key b)

/-- A volume record (`judge_volume`): the binding is read before anything is
judged or touched. -/
def applyVolume (ns : Namespace L) (io : ReadEnv) (m : VolumeMsg) : Namespace L × Verdict :=
  if !m.decodes L then (ns, .refused .rejected)
  else match ns.read io m.key with
    | .error f => (ns, .refused f)
    | .ok cur =>
      let curRev := curRevision (cur.filter Binding.live)
      match judgeVolumeAt ns.leases ns.anyReserved cur m with
      | (leases, .answer status revision) =>
        ({ ns with leases := leases }, .volume status revision)
      | (leases, .commit next) =>
        let p := commitBinding { ns with leases := leases } m.key (m.root next)
        (p.1, if p.2 then .volume .ok next else .volume .badReq curRev)
      | (leases, .delete) =>
        let p := removeBinding { ns with leases := leases } m.key (m.expected + 1)
        (p.1, if p.2 then .volume .ok m.expected else .volume .badReq curRev)

/-- A binding restore (`restore_binding`): the record's revision orders it
like any other's. -/
def applyBindingRestore (ns : Namespace L) (io : ReadEnv) (m : BindMsg) :
    Namespace L × Verdict :=
  if !m.decodesFields L then (ns, .refused .rejected)
  else match ns.read io m.key with
    | .error f => (ns, .refused f)
    | .ok cur =>
      if m.binding.revision ≤ curRevision cur then (ns, .ok)
      else if m.binding.kind = kindTombstone then
        written (ns.removeBinding m.key m.binding.revision)
      else written (ns.commitBinding m.key m.binding)

/-- A lease restore: the entry, the floors, and the flush it had open. -/
def applyLeaseRestore (ns : Namespace L) (e : LeaseEntry) (fenceFloor stampFloor : UInt64) :
    Namespace L × Verdict :=
  match ns.leases.restore e fenceFloor stampFloor with
  | none => (ns, .refused .rejected)
  | some t =>
    ({ ns with leases := if e.flushing then t.setFlushing e.key e.holder true else t }, .ok)

/-- Judge one record and apply it (`apply_op`). -/
def applyOp (ns : Namespace L) (io : ReadEnv) : Record → Namespace L × Verdict
  | .gcReserve objectId now => (ns.reserve objectId now, .ok)
  | .gcRelease objectId => (ns.release objectId, .ok)
  | .lease m =>
    if !m.decodes L then (ns, .refused .rejected)
    else
      let out := ns.leases.apply m.mode m.key m.holder m.nowMs m.ttlMs
      ({ ns with leases := out.1 }, .lease out.2)
  | .leaseRestore e fenceFloor stampFloor => ns.applyLeaseRestore e fenceFloor stampFloor
  | .bindingRestore m => ns.applyBindingRestore io m
  | .retain m => ns.applyRetain io m
  | .volume m => ns.applyVolume io m
  | .bind m => ns.applyBind io m
  | .rename m => ns.applyRename io m
  | .unbind m => ns.applyUnbind io m
  | .undecodable => (ns, .refused .rejected)

/-! ## Replay -/

/-- Apply one replayed record (`replay_apply`). A reservation belongs to a
sweep of the process that made it and is not reinstated; what it decided
about expired flushes is. -/
def replayApply (ns : Namespace L) (io : ReadEnv) : Record → Namespace L
  | .gcReserve _ now => { ns with leases := ns.leases.endExpiredFlushes now }
  | .gcRelease _ => ns
  | r => (ns.applyOp io r).1

/-- Replay a log, every read deciding. -/
def replay (ns : Namespace L) (log : List Record) : Namespace L :=
  log.foldl (fun ns r => ns.replayApply .allReady r) ns

end Namespace

end Loam

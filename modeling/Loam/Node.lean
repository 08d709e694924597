import Loam.Provider
import Loam.LogReplay

/-!
# A namespace instance over time

An instance holds the namespace, the compactor that writes the next snapshot
generation a few records at a time, and what the device keeps: the log and
two generation slots. `Node.step` is one event of its life – a record fed
from a channel, one stage of a compaction, a provider call, a crash and the
boot after it – and a run is a fold of it.

The granularity is that of what can be interleaved. A record is appended,
fenced and judged in one event: the log owns the step in between, and a crash
in between finds the device as a crash just after does. A merge slice is up to
32 `merge` events, and the code may stop before any of them. A rotation is one
event, since intake waits for it and the rename that installs the new log is
atomic. An event whose guard fails leaves the node as it is.
-/

namespace Loam

/-! ## What the device keeps -/

/-- The fenced bytes: the log's records and the two generation slots, a slot
holding no valid generation being `none`. -/
structure Disk where
  log : List Record
  /-- The first generation slot (`<wal>.snapA`). -/
  slotA : Option Snapshot
  /-- The second (`<wal>.snapB`). -/
  slotB : Option Snapshot
deriving DecidableEq

namespace Disk

/-- A slot by its index. -/
def slot (d : Disk) (which : Bool) : Option Snapshot := if which then d.slotB else d.slotA

/-- Overwrite a slot. -/
def setSlot (d : Disk) (which : Bool) (g : Option Snapshot) : Disk :=
  if which then { d with slotB := g } else { d with slotA := g }

/-- The slot of the best generation: the second only if its generation is
strictly higher, or the first holds none (`SnapBestOpener`). -/
def bestSlot (d : Disk) : Bool :=
  match d.slotA, d.slotB with
  | some a, some b => decide (a.generation < b.generation)
  | none, some _ => true
  | _, none => false

/-- The best generation. -/
def best (d : Disk) : Option Snapshot := d.slot d.bestSlot

end Disk

/-! ## The compactor -/

/-- The stage of the compaction in flight (`CMP_*`). -/
inductive CmpPhase where
  | idle
  /-- The target slot is being unlinked and created. -/
  | opening
  | merge
  /-- The generation is being made durable. -/
  | finish
  | reopen
  | rotate
deriving DecidableEq

/-- The compactor's state. -/
structure Compactor where
  phase : CmpPhase
  generation : ℕ
  target : Bool
  /-- The next record of the old generation. -/
  snapIdx : ℕ
  last : Option Key
  staged : List SnapRecord
deriving DecidableEq

/-- No compaction yet. -/
def Compactor.new : Compactor := ⟨.idle, 0, false, 0, none, []⟩

/-- The tag a generation marks emitted slots with. -/
def emitTag (generation : ℕ) : UInt8 := UInt8.ofNat (generation % 251 + 1)

/-- `CMP_TRIGGER_NUM / CMP_TRIGGER_DEN` of the arena in use arms a
compaction. -/
def cmpTriggerNum : ℕ := 3

/-- See `cmpTriggerNum`. -/
def cmpTriggerDen : ℕ := 4

/-! ## The instance -/

/-- A namespace instance and its device. -/
structure Node (L : Limits) where
  ns : Namespace L
  cmp : Compactor
  snapSlot : Bool
  /-- A log was configured (`wal_path_len > 0`). -/
  walConfigured : Bool
  /-- The log is open (`wal_fd >= 0`). -/
  walOpen : Bool
  /-- The last commit applied carried a replicated proof. -/
  replicatedProof : Bool
  disk : Disk
deriving DecidableEq

/-- A provider call. -/
inductive SurfaceOp where
  | lookup (path : Bytes)
  | bind (path : Bytes) (kind : UInt8) (replace : Bool) (target : Bytes)
  | delete (path : Bytes)
  | rename (source dest : Bytes)
deriving DecidableEq

/-- How a rotation of the log ended (`RotateOutcome`). -/
inductive RotateOutcome where
  /-- The new log is in place and open. -/
  | rotated
  | skipped
  /-- The new log is in place and could not be opened. -/
  | lost
deriving DecidableEq

/-- One event of an instance's life. -/
inductive Event where
  /-- A record arrives, as a request or as a commit, which carries a proof
  that is replicated or not. -/
  | feed (r : Record) (io : ReadEnv) (proof : Option Bool)
  | compactStart
  /-- The target slot is unlinked and created. -/
  | openDone
  | openFailed (unlinked : Bool)
  | merge (io : ReadEnv)
  | mergeFailed
  | finishDone
  /-- Making it durable failed, its header having reached the device or
  not. -/
  | finishFailed (durable : Bool)
  | reopenDone
  | reopenFailed
  | rotate (outcome : RotateOutcome)
  /-- A provider call, at this time by the clock. -/
  | surface (op : SurfaceOp) (io : ReadEnv) (now : UInt64)
  /-- The process ends and boots again. -/
  | crash

/-- The event is the compactor's: no record, no provider call, no crash. -/
def Event.internal : Event → Bool
  | .feed .. | .surface .. | .crash => false
  | _ => true

/-- An event is the compactor's, or one of the three others. -/
theorem Event.cases (e : Event) : e.internal = true ∨ e = .crash ∨
    (∃ op io now, e = .surface op io now) ∨ ∃ r io proof, e = .feed r io proof := by
  cases e with
  | crash => exact .inr (.inl rfl)
  | surface op io now => exact .inr (.inr (.inl ⟨op, io, now, rfl⟩))
  | feed r io proof => exact .inr (.inr (.inr ⟨r, io, proof, rfl⟩))
  | _ => exact .inl rfl

namespace Node

variable {L : Limits}

/-! ## Boot -/

/-- The generation a boot opens (`boot_step`): the best, on a profile with a
snapshot tier. The flag is asked here and nowhere else. -/
def opens (L : Limits) (d : Disk) : Option Snapshot := if L.snapshotTier then d.best else none

/-- Boot over a device: the generation is opened and the whole log replayed
over it. -/
def boot (L : Limits) (walConfigured : Bool) (d : Disk) : Node L where
  ns := if walConfigured then { Namespace.new L with snap := opens L d }.replay d.log
    else Namespace.new L
  cmp := .new
  snapSlot := L.snapshotTier && d.bestSlot
  walConfigured := walConfigured
  walOpen := walConfigured
  replicatedProof := false
  disk := d

/-- A first boot, over an empty device. -/
def init (L : Limits) (walConfigured : Bool) : Node L := boot L walConfigured ⟨[], none, none⟩

/-! ## Feeding a record -/

/-- A record is taken from a channel: it is not a restore, no rotation is under
way, and a configured log is not gone. -/
def takes (n : Node L) (r : Record) : Bool :=
  r.fromWire && decide (n.cmp.phase ≠ .rotate) && (!n.walConfigured || n.walOpen)

/-- A record is appended and judged. A record whose reads are pending is asked
again, nothing having changed. -/
def feed (n : Node L) (r : Record) (io : ReadEnv) (proof : Option Bool) : Node L × Verdict :=
  if !n.takes r then (n, .refused .rejected)
  else match n.ns.applyOp io r with
    | (_, .refused .pending) => (n, .refused .pending)
    | (ns, v) =>
      ({ n with
          ns := ns
          replicatedProof := match v with
            | .refused _ => n.replicatedProof
            | _ => proof.getD n.replicatedProof
          disk := if n.walOpen then { n.disk with log := n.disk.log ++ [r] } else n.disk },
        v)

/-! ## Compaction -/

/-- Give up the compaction in flight. -/
def abort (n : Node L) : Node L := { n with cmp := { n.cmp with phase := .idle } }

/-- Whether the arena's pressure arms a compaction (`compaction_start`). -/
def compactionDue (n : Node L) : Bool :=
  let occupied := n.ns.bindings.occupiedCount
  let dirty := n.ns.bindings.dirtyCount
  let cap := L.namespaceSlots
  n.walConfigured
    && decide (cap * cmpTriggerNum ≤ occupied * cmpTriggerDen)
    && (n.ns.snap.isNone || decide (cap ≤ dirty * 8)
      || (decide (occupied = cap) && decide (0 < dirty)))

/-- Arm a compaction: the next generation, into the slot that is not open. -/
def compactStart (n : Node L) : Node L :=
  if n.cmp.phase = .idle ∧ n.compactionDue then
    { n with cmp :=
        { phase := .opening
          generation := (n.ns.snap.map (·.generation + 1)).getD 1
          target := n.ns.snap.isSome && !n.snapSlot
          snapIdx := 0
          last := none
          staged := [] } }
  else n

/-- The target slot is created, an invalid header in it. -/
def openDone (n : Node L) : Node L :=
  if n.cmp.phase = .opening then
    { n with
      cmp := { n.cmp with phase := .merge }
      disk := n.disk.setSlot n.cmp.target none }
  else n

/-- Creating the target slot failed. -/
def openFailed (n : Node L) (unlinked : Bool) : Node L :=
  if n.cmp.phase = .opening then
    abort { n with disk := if unlinked then n.disk.setSlot n.cmp.target none else n.disk }
  else n

/-- The next record of the old generation, if one is left. -/
def oldNext (n : Node L) (io : ReadEnv) : SnapRead (Option SnapRecord) :=
  match n.ns.snap with
  | none => .ready none
  | some g =>
    if n.cmp.snapIdx < g.count then
      match g.readAt io n.cmp.snapIdx with
      | .ready r => .ready (some r)
      | .pending => .pending
      | .failed => .failed
    else .ready none

/-- Emit an arena slot: its record is staged, the slot tagged, the cursor
moved; `superseded` skips the old generation's record of the key. -/
def emitSlot (n : Node L) (s : BindingSlot) (i : ℕ) (superseded : Bool) : Node L :=
  { n with
    ns := { n.ns with bindings := n.ns.bindings.markEmitted i (emitTag n.cmp.generation) }
    cmp := { n.cmp with
      snapIdx := if superseded then n.cmp.snapIdx + 1 else n.cmp.snapIdx
      last := some s.toKey
      staged := n.cmp.staged ++ [s.record] } }

/-- Carry an old record over. -/
def emitRecord (n : Node L) (r : SnapRecord) : Node L :=
  { n with cmp := { n.cmp with
      snapIdx := n.cmp.snapIdx + 1
      last := some r.toKey
      staged := n.cmp.staged ++ [r] } }

/-- One record of the merge (the body of `merge_slice`'s loop). -/
def mergeRecord (n : Node L) (io : ReadEnv) : Node L :=
  if n.cmp.phase = .merge then
    match n.oldNext io with
    | .pending => n
    | .failed => n.abort
    | .ready old =>
      match n.ns.bindings.minKeyAbove n.cmp.last, old with
      | none, none => { n with cmp := { n.cmp with phase := .finish } }
      | some (s, i), none => n.emitSlot s i false
      | some (s, i), some r =>
        match keyCmp r.toKey s.toKey with
        | .lt => n.emitRecord r
        | .eq => n.emitSlot s i true
        | .gt => n.emitSlot s i false
      | none, some r => n.emitRecord r
  else n

/-- The generation written. -/
def written (n : Node L) : Snapshot := ⟨n.cmp.generation, n.cmp.staged⟩

/-- The generation is durable under its name. -/
def finishDone (n : Node L) : Node L :=
  if n.cmp.phase = .finish then
    { n with
      cmp := { n.cmp with phase := .reopen }
      disk := n.disk.setSlot n.cmp.target (some n.written) }
  else n

/-- Making the generation durable failed; its header may have reached the
device. -/
def finishFailed (n : Node L) (durable : Bool) : Node L :=
  if n.cmp.phase = .finish then
    abort { n with
      disk := if durable then n.disk.setSlot n.cmp.target (some n.written) else n.disk }
  else n

/-- The generation is opened and switched to, and what it holds is covered. -/
def reopenDone (n : Node L) : Node L :=
  if n.cmp.phase = .reopen then
    { n with
      ns := { n.ns with
        bindings := n.ns.bindings.finalizeEmitted (emitTag n.cmp.generation)
        snap := n.disk.slot n.cmp.target }
      snapSlot := n.cmp.target
      cmp := { n.cmp with phase := if n.walOpen then .rotate else .idle } }
  else n

/-- The records a rotated log opens with: the leases, and the arena entries
the generation does not cover. -/
def seeds (n : Node L) : List Record :=
  (n.ns.leases.entries.filterMap fun o => o.map fun e =>
    Record.leaseRestore e n.ns.leases.fenceFloor n.ns.leases.stampFloor) ++
  (n.ns.bindings.occupied.filter fun p => !p.1.snapshotted).map fun p =>
    Record.bindingRestore ⟨p.1.toKey, p.1.toBinding, .any, 0⟩

/-- A seed can be encoded; one that cannot abandons the rotation. -/
def encodes (L : Limits) : Record → Bool
  | .leaseRestore e _ _ => L.keyFits e.key.root e.key.path []
  | .bindingRestore m => m.decodesFields L
  | _ => true

/-- The log is rotated. -/
def rotate (n : Node L) (outcome : RotateOutcome) : Node L :=
  if n.cmp.phase = .rotate then
    let n := abort n
    if n.seeds.all (encodes L) then
      match outcome with
      | .rotated => { n with disk := { n.disk with log := n.seeds } }
      | .skipped => n
      | .lost => { n with walOpen := false, disk := { n.disk with log := n.seeds } }
    else n
  else n

/-! ## Provider calls -/

/-- What a provider call does to the namespace, and its answer. -/
def surfaceOp (ns : Namespace L) (io : ReadEnv) (now : UInt64) :
    SurfaceOp → Namespace L × Except Errno Unit
  | .lookup path => (ns, (ns.surfaceLookup path).map fun _ => ())
  | .bind path kind replace target => ns.surfaceBind io now path kind replace target
  | .delete path => ns.surfaceDelete io now path
  | .rename source dest => ns.surfaceRename io now source dest

/-! ## Events -/

/-- One event. -/
def step (n : Node L) : Event → Node L
  | .feed r io proof => (n.feed r io proof).1
  | .compactStart => n.compactStart
  | .openDone => n.openDone
  | .openFailed unlinked => n.openFailed unlinked
  | .merge io => n.mergeRecord io
  | .mergeFailed => if n.cmp.phase = .merge then n.abort else n
  | .finishDone => n.finishDone
  | .finishFailed durable => n.finishFailed durable
  | .reopenDone => n.reopenDone
  | .reopenFailed => if n.cmp.phase = .reopen then n.abort else n
  | .rotate outcome => n.rotate outcome
  | .surface op io now => { n with ns := (surfaceOp n.ns io now op).1 }
  | .crash => boot L n.walConfigured n.disk

/-- **What an event of the compactor does**: it moves the compactor, and may write the slot of a
generation, mark an arena slot, switch to the generation written, or start the log anew. -/
inductive InternalStep (n : Node L) (e : Event) : Node L → Prop
  | compactor (c : Compactor) : InternalStep n e { n with cmp := c }
  | slot (c : Compactor) (which : Bool) (g : Option Snapshot) :
    InternalStep n e { n with cmp := c, disk := n.disk.setSlot which g }
  | mark (io : ReadEnv) (he : e = .merge io) (c : Compactor) (i : ℕ) (tag : UInt8) :
    InternalStep n e { n with ns.bindings := n.ns.bindings.markEmitted i tag, cmp := c }
  | switch (he : e = .reopenDone) (hph : n.cmp.phase = .reopen) (c : Compactor) :
    InternalStep n e { n with
      ns := { n.ns with
        bindings := n.ns.bindings.finalizeEmitted (emitTag n.cmp.generation)
        snap := n.disk.slot n.cmp.target }
      snapSlot := n.cmp.target
      cmp := c }
  | rotate (c : Compactor) (walOpen : Bool) :
    InternalStep n e { n with cmp := c, walOpen := walOpen, disk := { n.disk with log := n.seeds } }

theorem internalStep (n : Node L) {e : Event} (he : e.internal = true) :
    n.InternalStep e (n.step e) := by
  cases e with
  | feed | surface | crash => cases he
  | compactStart =>
    simp only [step, compactStart]
    split <;> exact .compactor _
  | openDone =>
    simp only [step, openDone]
    split
    · exact .slot _ _ _
    · exact .compactor _
  | openFailed unlinked =>
    simp only [step, openFailed]
    split
    · cases unlinked
      · exact .compactor _
      · exact .slot _ _ _
    · exact .compactor _
  | merge io =>
    simp only [step, mergeRecord]
    repeat' split
    all_goals first | exact .compactor _ | exact .mark io rfl _ _ _
  | mergeFailed | reopenFailed =>
    simp only [step]
    split <;> exact .compactor _
  | finishDone =>
    simp only [step, finishDone]
    split
    · exact .slot _ _ _
    · exact .compactor _
  | finishFailed durable =>
    simp only [step, finishFailed]
    split
    · cases durable
      · exact .compactor _
      · exact .slot _ _ _
    · exact .compactor _
  | reopenDone =>
    simp only [step, reopenDone]
    split
    next hph => exact .switch rfl hph _
    · exact .compactor _
  | rotate outcome =>
    simp only [step, rotate]
    split
    · split
      · cases outcome
        · exact .rotate _ n.walOpen
        · exact .compactor _
        · exact .rotate _ _
      · exact .compactor _
    · exact .compactor _

/-- A run of events. -/
def run (n : Node L) (es : List Event) : Node L := Run.run step n es

/-- The node a first boot and a run of events reach. -/
def reached (L : Limits) (walConfigured : Bool) (es : List Event) : Node L :=
  (init L walConfigured).run es

end Node

end Loam

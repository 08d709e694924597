import Loam.BlockMap
import Loam.Lib.CellStore

/-!
# A volume as a block device

The one writer of a volume: it reads through the committed map, stages written
extents in memory, and makes them durable by a commit. This module has its
state and the execution of block requests; `BlockCommit` has the exchanges
with the node, the commit and the schedule.

The geometry is powers of two, so that what the device does with shifts and
masks is stated with products and remainders. The generations and the clock of
the exchanges are natural numbers. `hist` is what a reader of the model sees
of a run: no function of the device reads it.
-/

namespace Loam

open CellStore

/-! ## Constants -/

/-- The largest extent the device holds (`EXTENT_CAP`). -/
def extentCap : ℕ := 32768

/-- Extents staged before a write forces a commit, of so many resident
(`STAGED_MAX`). -/
def stagedMax (N : ℕ) : ℕ := N - 2

/-- Extents a stalled request can ask for (`WANT_SLOTS`). -/
def wantSlots : ℕ := 4

/-- Requests queued, or completed and not reaped (`QUEUE_DEPTH`). -/
def queueDepth : ℕ := 8

/-! ## Requests -/

/-- An errno a request or a device ends with. -/
inductive VolErrno where
  | eio
  | enoent
  | eacces
  | ebusy
  | einval
  deriving DecidableEq

/-- What a request asks for (`blk::op`). -/
inductive BlockOp where
  | read
  | write
  | flush
  | unknown
  deriving DecidableEq

/-- A block request (`Req`). -/
structure BlockReq where
  tag : UInt64
  op : BlockOp
  /-- What was written before it is durable first (`F_PREFLUSH`). -/
  preflush : Bool
  /-- It is durable when it completes (`F_FUA`). -/
  fua : Bool
  lba : ℕ
  len : ℕ
  buf : ℕ → UInt8

/-- How durable a completion is (`Fence`). -/
inductive VolFence where
  | volatile
  | revision (r : UInt64)
  deriving DecidableEq

/-- A completion (`Cpl`), with the request's buffer as it is then. -/
structure BlockCpl where
  tag : UInt64
  status : Option VolErrno
  fence : Option VolFence
  buf : ℕ → UInt8

/-- A queued request and how far it has got (`Pending`). -/
structure BlockPending where
  /-- 0: waiting on its preflush; 1: to execute; 2: executed, waiting for the
  commit that makes it durable. -/
  stage : ℕ
  /-- The write generation that must be durable before it completes. -/
  target : ℕ
  req : BlockReq
  /-- How many writes had been staged as it was made. -/
  since : ℕ

/-! ## What a reader of a run sees -/

/-- A write that was staged. -/
structure StagedWrite where
  req : BlockReq
  gen : ℕ

/-- A request that completed. -/
structure BlockAnswer where
  req : BlockReq
  /-- How many writes had been staged as it was made. -/
  since : ℕ
  seen : ℕ
  cpl : BlockCpl

/-- A root that is the volume's. -/
structure LandedRoot where
  revision : UInt64
  root : Digest
  /-- How many writes had been staged as its content was fixed. -/
  covers : ℕ

/-- What a reader of a run sees. -/
structure BlockHistory where
  writes : List StagedWrite
  /-- The requests completed, oldest first. -/
  answers : List BlockAnswer
  /-- The root opened and the roots committed, newest first. -/
  landed : List LandedRoot

/-! ## The state -/

/-- How far the device has got (`P_*`). -/
inductive VolPhase where
  | lease
  | lookup
  | root
  | ready
  | failed
  deriving DecidableEq

/-- The exchange in flight (`J_*`). -/
inductive VolJob where
  | none
  | acquire
  | renew
  | lookup
  | root
  | leaf
  | extent
  | «begin»
  | putLeaf
  | putRoot
  | commit
  | abort
  | putBodies
  | release
  deriving DecidableEq

/-- How far the commit has got (`C_*`). -/
inductive VolCommit where
  | idle
  | «begin»
  | bodies
  | leaves
  | root
  | commit
  | abort
  deriving DecidableEq

/-- What a slot holds (`S_*`). -/
inductive SlotState where
  | free
  | clean
  | staged
  | fetching
  deriving DecidableEq

/-- One resident extent (`Extent`). -/
structure ExtentSlot where
  state : SlotState
  committing : Bool
  used : UInt32
  idx : ℕ
  /-- Fetching: the digest the bytes must hash to. Committing: the digest the
  store named the staged bytes by. -/
  digest : Digest

/-- One resident leaf page (`Leaf`). -/
structure LeafSlot where
  valid : Bool
  used : UInt32
  child : ℕ
  digest : Digest

/-- A request to the node. -/
inductive AdminAsk where
  | none
  | acquire
  | renew
  | release
  | lookup
  | get (digest : Digest)
  | put (body : Bytes)
  | volumeBegin
  | volumeCommit (root : Digest) (expected : UInt64)
  | volumeAbort

/-- A body sent and not yet acknowledged. -/
structure PipeEntry where
  slot : ℕ
  body : Bytes

/-- The parameters. -/
structure VolParams where
  paramsGood : Bool
  blockSize : ℕ
  ttlMs : ℕ
  /-- The fence the key was released for, 0 for none. -/
  expectFence : UInt64

/-- The lease. -/
structure VolLease where
  leaseFence : UInt64
  /-- When the request behind the live grant was sent. -/
  leaseAt : ℕ

/-- The admin exchange. -/
structure VolExchange where
  job : VolJob
  jobAt : ℕ
  jobSlot : ℕ
  jobChild : ℕ
  retryAt : ℕ
  beginSince : ℕ
  /-- The request built, and whether the client has taken it. -/
  io : AdminAsk
  ioSent : Bool

/-- The committed view. -/
structure VolView where
  revision : UInt64
  rootDigest : Digest
  volumeId : VolumeId
  sizeBytes : ℕ
  extentSize : ℕ
  depth : ℕ
  childrenCount : ℕ
  blockCount : ℕ
  extentCount : ℕ
  children : ℕ → Digest

/-- The resident extents. -/
structure VolExtents where
  clock : UInt32
  staged : ℕ
  slots : ℕ → ExtentSlot
  ext : ℕ → ℕ → UInt8

/-- The resident leaf pages. -/
structure VolLeaves where
  leaves : ℕ → LeafSlot
  leafData : ℕ → ℕ → Digest

/-- The commit. -/
structure VolWork where
  commit : VolCommit
  commitCursor : ℕ
  leafNew : List (ℕ × Digest)
  newRoot : Digest
  commitGen : ℕ
  /-- How many writes the commit in flight covers: for the history. -/
  commitCovers : ℕ
  pipe : List PipeEntry
  pipeRefused : Bool

/-- The requests. -/
structure VolQueue where
  /-- Bumped by every write that changes staged bytes. -/
  writeGen : ℕ
  /-- The write generation the last commit covered. -/
  durableGen : ℕ
  pending : ℕ → Option BlockPending

/-- Flags and queues that no byte of the volume depends on. -/
structure VolFlags where
  /-- Something waits for everything written so far to be durable. -/
  flushWanted : Bool
  draining : Bool
  drained : Bool
  /-- A commit was abandoned and no waiter has been told yet. -/
  refused : Bool
  done : List BlockCpl
  wants : List ℕ
  /-- It failed with an extent staged: for the history. -/
  lost : Bool
  /-- Once it had failed it told a client why: for the history. -/
  told : Bool

/-- The state of the module (`ModuleState`), by its parts. -/
structure BlockVolume where
  phase : VolPhase
  /-- What every request gets once the device has failed. -/
  fail : Option VolErrno
  params : VolParams
  lease : VolLease
  exchange : VolExchange
  view : VolView
  extents : VolExtents
  leafTable : VolLeaves
  work : VolWork
  queue : VolQueue
  flags : VolFlags
  hist : BlockHistory

namespace BlockVolume

/-- A new device (`module_new_impl`); one that drew no seed has failed. -/
def new (seeded paramsGood : Bool) (blockSize ttlMs : ℕ) (expectFence : UInt64) : BlockVolume where
  phase := if seeded then .lease else .failed
  fail := if seeded then none else some .eio
  params := ⟨paramsGood, blockSize, ttlMs, expectFence⟩
  lease := ⟨0, 0⟩
  exchange := ⟨.none, 0, 0, 0, 0, 0, .none, true⟩
  view := ⟨0, .zero, ⟨List.replicate 16 0, rfl⟩, 0, 0, 0, 0, 0, 0, fun _ => .zero⟩
  extents := ⟨0, 0, fun _ => ⟨.free, false, 0, 0, .zero⟩, fun _ _ => 0⟩
  leafTable := ⟨fun _ => ⟨false, 0, 0, .zero⟩, fun _ _ => .zero⟩
  work := ⟨.idle, 0, [], .zero, 0, 0, [], false⟩
  queue := ⟨0, 0, fun _ => none⟩
  flags := ⟨false, false, false, false, [], [], false, false⟩
  hist := ⟨[], [], []⟩

/-! ## The fields, by name -/

section Fields

variable (s : BlockVolume)

abbrev paramsGood : Bool := s.params.paramsGood
abbrev blockSize : ℕ := s.params.blockSize
abbrev ttlMs : ℕ := s.params.ttlMs
abbrev expectFence : UInt64 := s.params.expectFence

abbrev leaseFence : UInt64 := s.lease.leaseFence
abbrev leaseAt : ℕ := s.lease.leaseAt

abbrev job : VolJob := s.exchange.job
abbrev jobAt : ℕ := s.exchange.jobAt
abbrev jobSlot : ℕ := s.exchange.jobSlot
abbrev jobChild : ℕ := s.exchange.jobChild
abbrev retryAt : ℕ := s.exchange.retryAt
abbrev beginSince : ℕ := s.exchange.beginSince
abbrev io : AdminAsk := s.exchange.io
abbrev ioSent : Bool := s.exchange.ioSent

abbrev revision : UInt64 := s.view.revision
abbrev rootDigest : Digest := s.view.rootDigest
abbrev volumeId : VolumeId := s.view.volumeId
abbrev sizeBytes : ℕ := s.view.sizeBytes
abbrev extentSize : ℕ := s.view.extentSize
abbrev depth : ℕ := s.view.depth
abbrev childrenCount : ℕ := s.view.childrenCount
abbrev blockCount : ℕ := s.view.blockCount
abbrev extentCount : ℕ := s.view.extentCount
abbrev children : ℕ → Digest := s.view.children

abbrev clock : UInt32 := s.extents.clock
abbrev staged : ℕ := s.extents.staged
abbrev slots : ℕ → ExtentSlot := s.extents.slots
abbrev ext : ℕ → ℕ → UInt8 := s.extents.ext

abbrev leaves : ℕ → LeafSlot := s.leafTable.leaves
abbrev leafData : ℕ → ℕ → Digest := s.leafTable.leafData

abbrev commit : VolCommit := s.work.commit
abbrev commitCursor : ℕ := s.work.commitCursor
abbrev leafNew : List (ℕ × Digest) := s.work.leafNew
abbrev newRoot : Digest := s.work.newRoot
abbrev commitGen : ℕ := s.work.commitGen
abbrev commitCovers : ℕ := s.work.commitCovers
abbrev pipe : List PipeEntry := s.work.pipe
abbrev pipeRefused : Bool := s.work.pipeRefused

abbrev writeGen : ℕ := s.queue.writeGen
abbrev durableGen : ℕ := s.queue.durableGen
abbrev pending : ℕ → Option BlockPending := s.queue.pending

abbrev flushWanted : Bool := s.flags.flushWanted
abbrev draining : Bool := s.flags.draining
abbrev drained : Bool := s.flags.drained
abbrev refused : Bool := s.flags.refused
abbrev done : List BlockCpl := s.flags.done
abbrev wants : List ℕ := s.flags.wants
abbrev lost : Bool := s.flags.lost
abbrev told : Bool := s.flags.told

end Fields

/-! ## Parts of the state -/

/-- A table with one entry replaced. -/
def put {α : Type} (f : ℕ → α) (i : ℕ) (v : α) : ℕ → α := fun j => if j = i then v else f j

variable (N : ℕ) (s : BlockVolume)

/-- The bytes of an extent: the last of a volume may be short
(`extent_len`). -/
def extentLen (idx : ℕ) : ℕ := min (s.sizeBytes - idx * s.extentSize) s.extentSize

/-- The extents of a leaf (`leaf_len`). -/
def leafLen (child : ℕ) : ℕ := min (s.extentCount - child * pageEntries) pageEntries

/-- A child of the root (`children.get`). -/
def child? (c : ℕ) : Option Digest := if c < pageEntries then some (s.children c) else none

/-- A slot's entry replaced. -/
def setSlot (i : ℕ) (e : ExtentSlot) : BlockVolume := { s with extents.slots := put s.slots i e }

/-- A slot's bytes replaced. -/
def setExt (i : ℕ) (bytes : ℕ → UInt8) : BlockVolume := { s with extents.ext := put s.ext i bytes }

/-- The slot that holds an extent, clean or staged (`find_extent`). -/
def findExtent (idx : ℕ) : Option ℕ :=
  (List.range N).find? fun i =>
    ((s.slots i).state == .clean || (s.slots i).state == .staged) && (s.slots i).idx == idx

/-- An extent is being fetched (`fetching`). -/
def fetching (idx : ℕ) : Bool :=
  (List.range N).any fun i => (s.slots i).state == .fetching && (s.slots i).idx == idx

/-- The rest of the scan for a slot. -/
def allocFrom (keep : List ℕ) : Option ℕ → List ℕ → Option ℕ
  | best, [] => best
  | best, i :: is =>
    if i ∈ keep then allocFrom keep best is
    else
      match (s.slots i).state with
      | .free => some i
      | .clean =>
        if best.all fun b => decide ((s.slots i).used < (s.slots b).used) then
          allocFrom keep (some i) is
        else allocFrom keep best is
      | _ => allocFrom keep best is

/-- A free slot, or the least recently used clean one not in `keep`
(`alloc_slot`). -/
def allocSlot (keep : List ℕ) : Option ℕ := s.allocFrom keep none (List.range N)

/-- A slot is the most recent (`touch`). -/
def touch (i : ℕ) : BlockVolume :=
  { s.setSlot i { s.slots i with used := s.clock + 1 } with extents.clock := s.clock + 1 }

/-- An extent is asked for (`want`). -/
def want (idx : ℕ) : BlockVolume :=
  if idx ∈ s.wants then s
  else if s.wants.length < wantSlots then { s with flags.wants := s.wants ++ [idx] }
  else s

/-- One is not asked for any more (`drop_want`). -/
def dropWant (i : ℕ) : BlockVolume := { s with flags.wants := s.wants.eraseIdx i }

/-! ## The parts of a request -/

end BlockVolume

/-- One extent a request touches: which, where in it, and how much
(`Span`). -/
structure BlockSpan where
  idx : ℕ
  inExt : ℕ
  take : ℕ
  off : ℕ

namespace BlockVolume

variable (N : ℕ) (s : BlockVolume)

/-- The rest of the split of a range. -/
def spanLoop (start len : ℕ) : ℕ → ℕ → List BlockSpan
  | 0, _ => []
  | n + 1, at' =>
    if at' < len then
      let pos := start + at'
      let take := min (s.extentSize - pos % s.extentSize) (len - at')
      ⟨pos / s.extentSize, pos % s.extentSize, take, at'⟩ :: spanLoop start len n (at' + take)
    else []

/-- A request's range at extent boundaries: at most two (`spans`). -/
def spans (r : BlockReq) : List BlockSpan := s.spanLoop (r.lba * s.blockSize) r.len 2 0

/-- A span is a whole extent. -/
def whole (p : BlockSpan) : Bool := p.inExt == 0 && p.take == s.extentLen p.idx

/-- The bytes of a slot under a span are not a request's. -/
def differs (i : ℕ) (p : BlockSpan) (r : BlockReq) : Bool :=
  (List.range p.take).any fun j => s.ext i (p.inExt + j) != r.buf (p.off + j)

/-- One span of a read. -/
def copyOut (st : BlockVolume × (ℕ → UInt8)) (p : BlockSpan) : BlockVolume × (ℕ → UInt8) :=
  match st.1.findExtent N p.idx with
  | some i => (st.1.touch i, patch st.2 p.off p.take fun j => st.1.ext i (p.inExt + j))
  | none => st

/-- A read out of resident extents, or the missing ones asked for
(`read_now`). -/
def readNow (r : BlockReq) : BlockVolume × Option (ℕ → UInt8) :=
  let sp := s.spans r
  let missing := sp.filter fun p => (s.findExtent N p.idx).isNone
  if missing ≠ [] then (missing.foldl (fun s p => s.want p.idx) s, none)
  else
    let (s', buf) := sp.foldl (copyOut N) (s, r.buf)
    (s', some buf)

/-- What became of a write (`W_*`). -/
inductive WriteOutcome where
  | done
  | wait
  | room
  deriving DecidableEq

/-- The spans of a write that wait for a fetch. -/
def missingSpans (r : BlockReq) : List BlockSpan :=
  (s.spans r).filter fun p => (s.findExtent N p.idx).isNone && !s.whole p

/-- A span would be staged anew. -/
def stagesAnew (r : BlockReq) (p : BlockSpan) : Bool :=
  match s.findExtent N p.idx with
  | some i => s.differs i p r && (s.slots i).state == .clean
  | none => s.whole p

/-- How many extents a write stages anew (`new_staged`). -/
def newStaged (r : BlockReq) : ℕ := (s.spans r).countP (s.stagesAnew N r)

/-- How many slots a write takes (`new_slots`). -/
def newSlots (r : BlockReq) : ℕ :=
  (s.spans r).countP fun p => (s.findExtent N p.idx).isNone && s.whole p

/-- The slots that hold what a request touches (`keep`). -/
def keepSlots (r : BlockReq) : List ℕ := (s.spans r).filterMap fun p => s.findExtent N p.idx

/-- How many other slots can be taken (`free`). -/
def freeSlots (r : BlockReq) : ℕ :=
  (List.range N).countP fun i =>
    decide (i ∉ s.keepSlots N r) && ((s.slots i).state == .free || (s.slots i).state == .clean)

/-- A resident extent takes its part of a write. -/
def stageResident (r : BlockReq) (s : BlockVolume) (i : ℕ) (p : BlockSpan) : BlockVolume :=
  if s.differs i p r then
    let s' := s.setExt i (patch (s.ext i) p.inExt p.take fun j => r.buf (p.off + j))
    if (s.slots i).state = .clean then
      { s'.setSlot i { s.slots i with state := .staged } with extents.staged := s.staged + 1 }.touch i
    else s'.touch i
  else s.touch i

/-- A free slot takes a whole extent of a write. -/
def stageInto (r : BlockReq) (s : BlockVolume) (i : ℕ) (p : BlockSpan) : BlockVolume :=
  { (s.setExt i fun j => if j < p.take then r.buf (p.off + j) else 0).setSlot i
      { s.slots i with state := .staged, committing := false, idx := p.idx } with
    extents.staged := s.staged + 1 }.touch i

/-- The spans that are not resident, one slot after another. -/
def stageNew (r : BlockReq) (keep : List ℕ) : BlockVolume → List BlockSpan → BlockVolume × Bool
  | s, [] => (s, true)
  | s, p :: ps =>
    match s.allocSlot N keep with
    | none => ({ s with flags.flushWanted := true }, false)
    | some i => stageNew r keep (stageInto r s i p) ps

/-- What a write stages changes what was there. -/
def changes (r : BlockReq) : Bool :=
  (s.spans r).any fun p =>
    match s.findExtent N p.idx with
    | some i => s.differs i p r
    | none => true

/-- The history has a write. -/
def noteWrite (r : BlockReq) : BlockVolume :=
  { s with hist := { s.hist with writes := s.hist.writes ++ [⟨r, s.writeGen⟩] } }

/-- Every extent of the write is checked before any byte moves. -/
def writeFits (r : BlockReq) : Prop :=
  s.commit = .idle ∧ s.missingSpans N r = [] ∧ s.staged + s.newStaged N r ≤ stagedMax N ∧
    s.newSlots N r ≤ s.freeSlots N r

instance (r : BlockReq) : Decidable (s.writeFits N r) := by unfold writeFits; infer_instance

/-- The bytes of a write go to its extents. -/
def stage (r : BlockReq) : BlockVolume × Bool :=
  let sp := (s.spans r).map fun p => (s.findExtent N p.idx, p)
  let s' := sp.foldl (fun s q => match q.1 with
    | some i => stageResident r s i q.2
    | none => s) s
  stageNew N r (s.keepSlots N r) s' ((sp.filter fun q => q.1.isNone).map Prod.snd)

/-- A write is staged, or told why it must wait: whole or not at all
(`write_now`). -/
def writeNow (r : BlockReq) : BlockVolume × WriteOutcome :=
  if s.commit ≠ .idle then (s, .wait)
  else if s.missingSpans N r ≠ [] then
    ((s.missingSpans N r).foldl (fun s p => s.want p.idx) s, .wait)
  else if stagedMax N < s.staged + s.newStaged N r then ({ s with flags.flushWanted := true }, .room)
  else if s.freeSlots N r < s.newSlots N r then ({ s with flags.flushWanted := true }, .room)
  else
    let (s', ok) := s.stage N r
    if !ok then (s', .room)
    else
      let s'' := if s.changes N r then { s' with queue.writeGen := s'.writeGen + 1 } else s'
      (s''.noteWrite r, .done)

/-! ## Running a request -/

/-- The fence of what is durable (`durable_fence`). -/
def durableFence : VolFence := .revision s.revision

/-- A completion with nothing but a status (`Cpl::bare`). -/
def bare (r : BlockReq) (status : Option VolErrno) : BlockCpl := ⟨r.tag, status, none, r.buf⟩

/-- A completion with a fence (`with_fence`). -/
def withFence (r : BlockReq) (f : VolFence) : BlockCpl := ⟨r.tag, none, some f, r.buf⟩

/-- Wait for a commit, unless the last one was abandoned and nobody has been
told (`commit_wait`). -/
def commitWait (r : BlockReq) : BlockVolume × Option BlockCpl :=
  if s.refused then ({ s with flags.refused := false }, some (bare r (some .eio)))
  else ({ s with flags.flushWanted := true }, none)

/-- The last stage of a request: what it waits for is durable, or is waited
for. -/
def finish (p : BlockPending) : BlockVolume × BlockPending × Option BlockCpl :=
  if p.target ≤ s.durableGen then (s, p, some (withFence p.req s.durableFence))
  else
    let (s', c) := s.commitWait p.req
    (s', p, c)

/-- The second stage of a request. -/
def execute (p : BlockPending) : BlockVolume × BlockPending × Option BlockCpl :=
  match p.req.op with
  | .read =>
    match s.readNow N p.req with
    | (s', some buf) => (s', p, some { bare p.req none with buf := buf })
    | (s', none) => (s', p, none)
  | .write =>
    match s.writeNow N p.req with
    | (s', .done) =>
      if p.req.fua then s'.finish { p with stage := 2, target := s'.writeGen }
      else (s', p, some (withFence p.req .volatile))
    | (s', .room) =>
      let (s'', c) := s'.commitWait p.req
      (s'', p, c)
    | (s', .wait) => (s', p, none)
  | .flush => s.finish { p with stage := 2 }
  | .unknown => (s, p, some (bare p.req (some .einval)))

/-- A request as far as it can go now (`run`). -/
def run (p : BlockPending) : BlockVolume × BlockPending × Option BlockCpl :=
  if s.phase = .failed then ({ s with flags.told := true }, p, some (bare p.req s.fail))
  else
    match p.stage with
    | 0 =>
      if p.req.preflush ∧ s.durableGen < p.target then
        let (s', c) := s.commitWait p.req
        (s', p, c)
      else s.execute N { p with stage := 1 }
    | 1 => s.execute N p
    | _ => s.finish p

/-! ## The queue -/

/-- The history has a completion. -/
def noteAnswer (p : BlockPending) (c : BlockCpl) : BlockVolume :=
  { s with
    hist := { s.hist with
      answers := s.hist.answers ++ [⟨p.req, p.since, s.hist.writes.length, c⟩] } }

/-- A completion waits to be reaped (`push_done`). -/
def pushDone (c : BlockCpl) : BlockVolume :=
  if queueDepth ≤ s.done.length then s else { s with flags.done := s.done ++ [c] }

/-- Requests queued, or completed and not reaped (`queued`). -/
def queued : ℕ := s.done.length + (List.range queueDepth).countP fun i => (s.pending i).isSome

/-- One queued request is stepped (`service`). -/
def serve (i : ℕ) : BlockVolume :=
  match s.pending i with
  | none => s
  | some p =>
    match s.run N p with
    | (s', p', some c) => ({ s' with queue.pending := put s'.pending i none }.noteAnswer p' c).pushDone c
    | (s', p', none) => { s' with queue.pending := put s'.pending i (some p') }

/-- A request made now. -/
def made (r : BlockReq) : BlockPending := ⟨0, s.writeGen, r, s.hist.writes.length⟩

/-- A request executed inside the call (`EXEC`). -/
def exec (r : BlockReq) : BlockVolume :=
  match s.run N (s.made r) with
  | (s', p, some c) => s'.noteAnswer p c
  | (s', _, none) => s'

/-- A request queued (`SUBMIT`). -/
def submit (r : BlockReq) : BlockVolume :=
  if queueDepth ≤ s.queued then s
  else
    match s.run N (s.made r) with
    | (s', p, some c) => (s'.noteAnswer p c).pushDone c
    | (s', p, none) =>
      match (List.range queueDepth).find? fun i => (s'.pending i).isNone with
      | some i => { s' with queue.pending := put s'.pending i (some p) }
      | none => s'

/-- A completion handed back (`REAP`). -/
def reap : BlockVolume := { s with flags.done := s.done.tail }

/-- A request bound to the commit that gave up. -/
def bound (p : BlockPending) : Bool :=
  decide (s.durableGen < p.target) && (p.stage == 2 || (p.stage == 0 && p.req.preflush))

/-- One queued request, when a commit gave up. -/
def failWaiter (s : BlockVolume) (i : ℕ) : BlockVolume :=
  match s.pending i with
  | some p =>
    if s.bound p then
      { (({ s with queue.pending := put s.pending i none }.noteAnswer p (bare p.req (some .eio))).pushDone
          (bare p.req (some .eio))) with flags.refused := false }
    else s
  | none => s

/-- Every request bound to the commit that gave up fails
(`fail_waiters`). -/
def failWaiters : BlockVolume := (List.range queueDepth).foldl failWaiter s

end BlockVolume

end Loam

import Loam.LittleEndian
import Loam.Node

/-!
# The proposer

The proposer stands between the public surfaces and the replica group. A
proposal is appended to the proposer's own log, takes a slot of the pending
table under a correlation id of the proposer's, and is forwarded to the group;
it leaves the table when its result comes back, and the result goes to its
producer under the id the producer chose. Entries whose result does not come
are forwarded again after a while, so one proposal may have several entries in
the group's log. A single replica has no group: it answers its own proposals.

After a restart the log is replayed into the table, and once every proposal
recovered so is resolved a marker tells the readers. The log is rotated once
in a boot, when the marker has been sent and nothing is pending.

`Proposer` is the module's state and `ProposerWorld` what it works on – its
log, the results it has written, the entries it has forwarded – with a number
for every proposal, which the module itself does not have: it is what the
statements about proposals are about.
-/

namespace Loam

/-! ## Records and limits -/

/-- The planes a decision is for. -/
inductive Plane where
  | namespacePlane
  | objectPlane
  | blockPlane
deriving DecidableEq

/-- A Propose record (`DecodedPropose`). -/
structure Propose where
  plane : Plane
  correlationId : UInt32
  inner : Bytes
deriving DecidableEq

/-- What proves a commit (`CommitProof`). -/
structure CommitProof where
  source : Bytes
  term : UInt64
  index : UInt64
  quorum : UInt8
  witness : Bytes
deriving DecidableEq

/-- The longest payload of a record (`MAX_INNER`). -/
def maxInner : ℕ := 4096

/-- The fixed part of a Committed record (`COMMITTED_HDR`). -/
def committedHdr : ℕ := 73

/-- The buffer records are encoded in (`APPEND_SCRATCH`). -/
def appendScratch : ℕ := 4104

/-- A forwarded entry is forwarded again at this age
(`FORWARD_RETRY_TICKS`). -/
def forwardRetryTicks : ℕ := 200

/-- What a build fixes for the proposer. -/
structure ProposerLimits where
  /-- Slots of the pending table (`PROPOSER_PENDING`). -/
  pending : ℕ
  /-- Entries forwarded in a step (`OPS_PER_STEP`). -/
  opsPerStep : ℕ
deriving DecidableEq

/-- The constrained build. -/
def ProposerLimits.constrained : ProposerLimits := ⟨256, 4⟩

/-- The server build. -/
def ProposerLimits.server : ProposerLimits := ⟨1024, 8⟩

/-- How a proposer is set up. -/
structure ProposerConfig where
  limits : ProposerLimits
  /-- There is a replica group (`MODE_REPLICATED`). -/
  replicated : Bool
  selfId : UInt8
  /-- Where the log is; empty where none is configured. -/
  walPath : Bytes
deriving DecidableEq

/-- A single replica of the constrained build. -/
def ProposerConfig.lone : ProposerConfig := ⟨.constrained, false, 1, [119]⟩

/-- A member of a group, of the constrained build. -/
def ProposerConfig.member : ProposerConfig := ⟨.constrained, true, 1, [119]⟩

/-! ## The pending table -/

/-- A pending proposal (`PendingEntry`). -/
structure PendingEntry where
  plane : Plane
  correlationId : UInt32
  originCorrelationId : UInt32
  inner : Bytes
  proposal : ℕ
  recovered : Bool
deriving DecidableEq

/-- The proposal as its producer made it. -/
def PendingEntry.propose (e : PendingEntry) : Propose :=
  ⟨e.plane, e.originCorrelationId, e.inner⟩

/-- A slot of the table. What it says of forwarding stays when its entry
goes. -/
structure PendingSlot where
  entry : Option PendingEntry
  forwarded : Bool
  forwardAge : ℕ
deriving DecidableEq

/-- The proposer's state. -/
structure Proposer where
  pending : List PendingSlot
  nextCorrelationId : UInt32
  /-- The counter of a single replica's commits. -/
  nextEpoch : UInt64
  /-- Recovered proposals not committed yet, as counted. -/
  replayOutstanding : ℕ
  replayMarkerSent : Bool
  walRotated : Bool
  walOpen : Bool
  /-- A configured log is gone, and every proposal is refused. -/
  walUnavailable : Bool
deriving DecidableEq

namespace Proposer

/-- The state a boot starts from. -/
def new (cfg : ProposerConfig) : Proposer where
  pending := List.replicate cfg.limits.pending ⟨none, false, 0⟩
  nextCorrelationId := 1
  nextEpoch := 1
  replayOutstanding := 0
  replayMarkerSent := false
  walRotated := false
  walOpen := !cfg.walPath.isEmpty
  walUnavailable := false

/-- The entries of the table. -/
def entries (s : Proposer) : List (Option PendingEntry) := s.pending.map (·.entry)

/-- The slots in use. -/
def inFlight (s : Proposer) : ℕ := (SlotTable.used s.entries).length

/-- The first entry with that id, and its slot (`find_pending`). -/
def findPending (s : Proposer) (cid : UInt32) : Option (PendingEntry × ℕ) :=
  SlotTable.find PendingEntry.correlationId cid s.entries

/-- Change one slot. -/
def modifySlot (s : Proposer) (i : ℕ) (f : PendingSlot → PendingSlot) : Proposer :=
  { s with pending := s.pending.modify i f }

/-- The entry goes; the slot's forwarding stays. -/
def freeSlot (s : Proposer) (i : ℕ) : Proposer :=
  s.modifySlot i fun x => { x with entry := none }

/-- The entry has been forwarded. -/
def markForwarded (s : Proposer) (i : ℕ) : Proposer :=
  s.modifySlot i fun x => { x with forwarded := true, forwardAge := 0 }

/-- The node's id over the counter. -/
def scopedId (selfId : UInt8) (n : UInt32) : UInt32 :=
  (selfId.toUInt32 <<< 24) ||| (n &&& 0x00FFFFFF)

/-- The counter, one on; it skips zero. -/
def succId (n : UInt32) : UInt32 :=
  if (n + 1) &&& 0x00FFFFFF = 0 then 1 else (n + 1) &&& 0x00FFFFFF

/-- Take a slot for a proposal (`reserve_pending`): the first free one. The
slot's forwarding is left as it is found. -/
def reservePending (cfg : ProposerConfig) (s : Proposer) (id : ℕ) (recovered : Bool)
    (p : Propose) : Option (Proposer × UInt32) :=
  if maxInner < p.inner.length then none
  else (s.entries.findIdx? Option.isNone).map fun i =>
    ({ s.modifySlot i (fun x =>
          { x with
            entry := some
              { plane := p.plane
                correlationId := scopedId cfg.selfId s.nextCorrelationId
                originCorrelationId := p.correlationId
                inner := p.inner
                proposal := id
                recovered := recovered } }) with
        nextCorrelationId := succId s.nextCorrelationId },
      scopedId cfg.selfId s.nextCorrelationId)

end Proposer

/-! ## The world -/

/-- A record of the log: which proposal it is of, and what it decodes to. -/
structure ProposeRecord where
  id : ℕ
  decoded : Option Propose
deriving DecidableEq

/-- A record on the results channel, of a proposal. -/
inductive ResultRecord where
  | committed (id : ℕ) (plane : Plane) (correlationId : UInt32) (proof : CommitProof)
      (inner : Bytes)
  | aborted (id : ℕ) (correlationId : UInt32)
  /-- Every recovered proposal is resolved (`OP_REPLAY_DRAINED`). -/
  | replayDrained
  /-- The front of a record whose rest the channel did not take. -/
  | torn
deriving DecidableEq

/-- An entry forwarded to the group. -/
structure ForwardedEntry where
  plane : Plane
  correlationId : UInt32
  inner : Bytes
  proposal : ℕ
deriving DecidableEq

/-- A proposer and what it works on. -/
structure ProposerWorld where
  proposer : Proposer
  log : List ProposeRecord
  /-- The records before the first torn frame of the log, if it has one. -/
  torn : Option ℕ
  /-- What it has written to the results channel since the boot. -/
  results : List ResultRecord
  forwarded : List ForwardedEntry
  proposals : List (Option Propose)
  durable : List ℕ
  /-- The proposals that were given a slot since the boot. -/
  accepted : List ℕ
  /-- Those whose commit or abort has been seen. -/
  resolved : List ℕ
deriving DecidableEq

/-- How a channel takes a record. -/
inductive ChannelWrite where
  | all
  | part
  | none
deriving DecidableEq

/-- How the group's channel takes an entry: a record it takes a part of is
owed, and resumed. -/
inductive ForwardWrite where
  | sent
  | owed
  | refused
deriving DecidableEq

/-- What an append that failed left of its frame in the log. -/
inductive FrameLeft where
  | nothing
  | part
  | whole
deriving DecidableEq

/-- How an append ended: one that failed is refused, as is one that the end of
the process cuts off. -/
inductive AppendOutcome where
  | durable
  | failed (left : FrameLeft)
deriving DecidableEq

/-- What the group says of an entry. -/
inductive GroupVerdict where
  | committed (proof : CommitProof)
  | aborted
deriving DecidableEq

/-- An event of the proposer's life. -/
inductive ProposerEvent where
  /-- A Propose record is taken off `metadata_ops`. -/
  | propose (p : Propose) (append : AppendOutcome) (wr : ChannelWrite) (fw : ForwardWrite)
  /-- A result comes for an entry of proposal `proposal`. -/
  | result (cid : UInt32) (proposal : ℕ) (verdict : GroupVerdict) (wr : ChannelWrite)
  | marker (wr : ChannelWrite)
  | rotate (outcome : RotateOutcome)
  /-- The end of a step: entries are forwarded, or, by a single replica,
  answered. -/
  | catchUp (fws : List ForwardWrite) (wrs : List ChannelWrite)
  /-- The process ends and boots again. -/
  | crash
deriving DecidableEq

namespace ProposerWorld

/-- What of a record lands on the results channel. -/
def write (w : ProposerWorld) (r : ResultRecord) : ChannelWrite → ProposerWorld
  | .all => { w with results := w.results ++ [r] }
  | .part => { w with results := w.results ++ [.torn] }
  | .none => w

/-- This node's log (`local_source`). -/
def localSource (cfg : ProposerConfig) : Bytes :=
  let a := fnv1a64 cfg.walPath
  let b := fnv1a64 [cfg.selfId] ^^^ ((a <<< 17) ||| (a >>> 47))
  leBytes 8 a.toNat ++ leBytes 8 b.toNat

/-- What proves a single replica's commit (`local_proof`): its own log, one
voter, no witness. -/
def localProof (cfg : ProposerConfig) (index : UInt64) : CommitProof :=
  ⟨localSource cfg, 0, index, 1, List.replicate 32 0⟩

/-- Answer the pending entry with that id as committed
(`emit_committed_for`). It leaves the table once the whole record is
written. -/
def emitCommittedFor (w : ProposerWorld) (cid : UInt32) (proof : CommitProof)
    (wr : ChannelWrite) : ProposerWorld × Bool :=
  match w.proposer.findPending cid with
  | none => (w, false)
  | some (e, i) =>
    if appendScratch < committedHdr + e.inner.length then (w, false)
    else
      let w' := w.write (.committed e.proposal e.plane e.originCorrelationId proof e.inner) wr
      if wr = .all then
        ({ w' with
            proposer :=
              { w.proposer.freeSlot i with
                replayOutstanding := w.proposer.replayOutstanding - 1 }
            resolved := w.resolved ++ [e.proposal] },
          true)
      else (w', false)

/-- Forward the pending entry with that id (`forward_to_clustor`), and note
that it was. -/
def forwardToClustor (w : ProposerWorld) (cid : UInt32) (fw : ForwardWrite) :
    ProposerWorld × Bool :=
  match w.proposer.findPending cid with
  | none => (w, false)
  | some (e, i) =>
    let entry : ForwardedEntry := ⟨e.plane, cid, e.inner, e.proposal⟩
    match fw with
    | .sent =>
      ({ w with
          forwarded := w.forwarded ++ [entry]
          proposer := w.proposer.markForwarded i },
        true)
    | .owed => ({ w with forwarded := w.forwarded ++ [entry] }, false)
    | .refused => (w, false)

/-- The index of a single replica's next commit is taken. -/
def takeEpoch (w : ProposerWorld) : ProposerWorld :=
  { w with proposer := { w.proposer with nextEpoch := w.proposer.nextEpoch + 1 } }

/-- A logged proposal takes a slot and starts downstream, or is aborted
(`admit_proposal`). -/
def admitProposal (cfg : ProposerConfig) (w : ProposerWorld) (id : ℕ) (p : Propose)
    (wr : ChannelWrite) (fw : ForwardWrite) : ProposerWorld :=
  match w.proposer.reservePending cfg id false p with
  | none => write { w with resolved := w.resolved ++ [id] } (.aborted id p.correlationId) wr
  | some (s, cid) =>
    let w := { w with proposer := s, accepted := w.accepted ++ [id] }
    if cfg.replicated then (w.forwardToClustor cid fw).1
    else (w.takeEpoch.emitCommittedFor cid (localProof cfg w.proposer.nextEpoch) wr).1

/-- A Propose record is taken: it is appended, then admitted; it is aborted
where there is no log or it is not durable. -/
def propose (cfg : ProposerConfig) (w : ProposerWorld) (p : Propose) (append : AppendOutcome)
    (wr : ChannelWrite) (fw : ForwardWrite) : ProposerWorld :=
  let id := w.proposals.length
  let read := { w with proposals := w.proposals ++ [some p] }
  let logged := { read with log := read.log ++ [⟨id, some p⟩] }
  let refused (w : ProposerWorld) :=
    write { w with resolved := w.resolved ++ [id] } (.aborted id p.correlationId) wr
  if w.proposer.walUnavailable then refused read
  else if w.proposer.walOpen then
    match append with
    | .durable =>
      admitProposal cfg { logged with durable := logged.durable ++ [id] } id p wr fw
    | .failed .whole => refused logged
    | .failed .part => refused { read with torn := read.torn.or (some read.log.length) }
    | .failed .nothing => refused read
  else read.admitProposal cfg id p wr fw

/-- A result comes from the group. A commit is passed on, and an abort frees
the slot and is passed on. -/
def result (w : ProposerWorld) (cid : UInt32) (verdict : GroupVerdict) (wr : ChannelWrite) :
    ProposerWorld :=
  match verdict with
  | .committed proof => (w.emitCommittedFor cid proof wr).1
  | .aborted =>
    match w.proposer.findPending cid with
    | none => w
    | some (e, i) =>
      write
        { w with
          proposer := w.proposer.freeSlot i
          resolved := w.resolved ++ [e.proposal] }
        (.aborted e.proposal e.originCorrelationId) wr

/-- The marker is due: it has not been sent, and no recovered proposal is
outstanding, as counted. -/
def markerDue (w : ProposerWorld) : Bool :=
  !w.proposer.replayMarkerSent && w.proposer.replayOutstanding == 0

/-- The marker is sent if it is due and the channel takes it. -/
def marker (w : ProposerWorld) (wr : ChannelWrite) : ProposerWorld :=
  if w.markerDue = true ∧ wr = .all then
    { w with
      results := w.results ++ [.replayDrained]
      proposer := { w.proposer with replayMarkerSent := true } }
  else w

/-- The log is rotated once in a boot: the marker has been sent, and nothing
is pending. -/
def rotate (w : ProposerWorld) (outcome : RotateOutcome) : ProposerWorld :=
  let s := w.proposer
  if !s.walRotated && s.replayMarkerSent && s.walOpen && s.inFlight == 0 then
    match outcome with
    | .rotated => { w with proposer := { s with walRotated := true }, log := [], torn := none }
    | .skipped => { w with proposer := { s with walRotated := true } }
    | .lost =>
      { w with
        proposer := { s with walRotated := true, walOpen := false, walUnavailable := true }
        log := []
        torn := none }
  else w

/-- A tick older: an entry forwarded too long ago waits again. -/
def age (x : PendingSlot) : PendingSlot :=
  if x.entry.isSome && x.forwarded then
    if forwardRetryTicks ≤ x.forwardAge + 1 then { x with forwarded := false, forwardAge := 0 }
    else { x with forwardAge := x.forwardAge + 1 }
  else x

/-- The id of an entry that waits to be forwarded. -/
def waiting (x : PendingSlot) : Option UInt32 :=
  if x.forwarded then none else x.entry.map PendingEntry.correlationId

/-- Forward these, one after another, until one is not taken. -/
def forwardEach (w : ProposerWorld) : List UInt32 → List ForwardWrite → ProposerWorld
  | [], _ => w
  | cid :: cids, fws =>
    match w.forwardToClustor cid (fws.headD .refused) with
    | (w', true) => w'.forwardEach cids fws.tail
    | (w', false) => w'

/-- Answer these, one after another, until one is not taken. -/
def redriveEach (cfg : ProposerConfig) (w : ProposerWorld) :
    List UInt32 → List ChannelWrite → ProposerWorld
  | [], _ => w
  | cid :: cids, wrs =>
    match w.takeEpoch.emitCommittedFor cid (localProof cfg w.proposer.nextEpoch)
        (wrs.headD .none) with
    | (w', true) => w'.redriveEach cfg cids wrs.tail
    | (w', false) => w'

/-- The end of a step. In a group: the entries age, and the first that wait
are forwarded. A single replica answers the first that are pending. -/
def catchUp (cfg : ProposerConfig) (w : ProposerWorld) (fws : List ForwardWrite)
    (wrs : List ChannelWrite) : ProposerWorld :=
  if cfg.replicated then
    let aged := { w with proposer := { w.proposer with pending := w.proposer.pending.map age } }
    aged.forwardEach ((aged.proposer.pending.filterMap waiting).take cfg.limits.opsPerStep) fws
  else
    w.redriveEach cfg
      ((w.proposer.entries.filterMap fun o => o.map PendingEntry.correlationId).take
        cfg.limits.opsPerStep) wrs

/-- A record of the log is replayed: it takes a slot, or is counted as an
error. -/
def replayRecord (cfg : ProposerConfig) (w : ProposerWorld) (r : ProposeRecord) :
    ProposerWorld :=
  match r.decoded.bind fun p => w.proposer.reservePending cfg r.id true p with
  | none => w
  | some (s, _) => { w with proposer := s, accepted := w.accepted ++ [r.id] }

/-- Everything pending after the replay was recovered. -/
def countReplayed (w : ProposerWorld) : ProposerWorld :=
  { w with proposer := { w.proposer with replayOutstanding := w.proposer.inFlight } }

/-- The records that a replay reads: those before the first torn frame. -/
def readable (w : ProposerWorld) : List ProposeRecord := w.log.take (w.torn.getD w.log.length)

/-- A boot: the log, if one is configured, is replayed into an empty table. The
results channel is the process's, and starts empty; so do the proposals the
process has accepted. -/
def boot (cfg : ProposerConfig) (w : ProposerWorld) : ProposerWorld :=
  let fresh := { w with proposer := .new cfg, results := [], accepted := [] }
  if cfg.walPath.isEmpty then fresh
  else (w.readable.foldl (replayRecord cfg) fresh).countReplayed

/-- One event. -/
def step (cfg : ProposerConfig) (w : ProposerWorld) : ProposerEvent → ProposerWorld
  | .propose p append wr fw => w.propose cfg p append wr fw
  | .result cid _ verdict wr => w.result cid verdict wr
  | .marker wr => w.marker wr
  | .rotate outcome => w.rotate outcome
  | .catchUp fws wrs => w.catchUp cfg fws wrs
  | .crash => w.boot cfg

/-- The device before the first boot, with a log on it. -/
def device (cfg : ProposerConfig) (log : List (Option Propose)) : ProposerWorld where
  proposer := .new cfg
  log := log.zipIdx.map fun p => ⟨p.2, p.1⟩
  torn := none
  results := []
  forwarded := []
  proposals := log
  durable := []
  accepted := []
  resolved := []

/-- A proposer booted over a log. -/
def start (cfg : ProposerConfig) (log : List (Option Propose)) : ProposerWorld :=
  (device cfg log).boot cfg

/-- A run from there. -/
def reached (cfg : ProposerConfig) (log : List (Option Propose)) (es : List ProposerEvent) :
    ProposerWorld := Run.run (step cfg) (start cfg log) es

end ProposerWorld

end Loam

import Loam.EcRouter

/-!
# The replicating router

The router stores whole bodies on the members a name ranks highest, reads them
by walking those members in rank order, removes them from every one of them,
and heals in the background what a scan finds missing. Streamed writes are
fanned out too: a stream holds, for each of its members, the session that
member opened.

Events are those of the erasure-coding sibling (`EcEvent`), and what was said
there of the queues, the sends (`net`) and the ids holds here. A stream slot
that was freed keeps its members and sessions until it is taken again, as the
code's slots do.
-/

namespace Loam.BodyRouter

/-- A router's replica count and limits. -/
structure Config where
  /-- The replicas of a body (`replica_count`). -/
  replicas : ℕ
  /-- A router that was asked for none keeps one. -/
  pos : 0 < replicas
  members : ℕ
  /-- The members there is room for (`MEMBERS`). -/
  memberCap : ℕ
  /-- The joins there is room for (`ROUTER_JOINS`). -/
  joinCap : ℕ
  /-- The answers that can be awaited (`ROUTER_PENDING`). -/
  pendingCap : ℕ
  /-- The streams there is room for (`ROUTER_STREAMS`). -/
  streamCap : ℕ

/-- What a join is for (`KIND_*`). -/
inductive Kind where
  | client
  | repair
  | scrubScan
  | scrubProbe
  | scrubFetch
  | streamOpen
  | streamAppend
  | streamCommit
  | streamAbort
  | adminScan
deriving DecidableEq

/-- A join (`JoinSlot`). -/
structure Join where
  kind : Kind := .client
  /-- The opcode a good answer repeats. -/
  op : BodyOp
  need : ℕ := 0
  ack : ℕ := 0
  fail : ℕ := 0
  existed : Bool := false
  digestSet : Bool := false
  attempt : ℕ := 0
  /-- The members ranked, in the order asked. -/
  targets : List UInt8 := []
  lastErrno : BodyErr := 0
  /-- The places among the targets that did not have the body. -/
  notFound : List ℕ := []
  present : List ℕ := []
  repairTargets : List UInt8 := []
  /-- The stream it is about, none for an abort nobody asked for. -/
  stream : Option ℕ := none
  upCid : UInt32
  rangeOff : UInt64 := 0
  rangeLen : UInt32 := 0
  digest : Digest := Digest.zero
  keyed : Bool := false
deriving DecidableEq

/-- A streamed write fanned out (`RouterStream`). -/
structure Stream where
  inUse : Bool := false
  targets : List UInt8 := []
  wids : ℕ → UInt8 := fun _ => 0

/-- Where the scrub is. -/
structure Scrub where
  target : ℕ := 0
  cursor : UInt32 := 0
  scanInflight : Bool := false

/-- The members and joins of a router. -/
abbrev Io := Fanout UInt8 BodyReq Join

/-- The router's state. -/
structure State where
  fleet : List UInt8
  io : Io
  streams : ℕ → Stream
  /-- The members that missed a deadline and have not answered since. -/
  quiet : UInt8 → Bool
  scrub : Scrub
  /-- The upstream request being handled. -/
  upCid : UInt32
  up : List (UInt32 × BodyResp)

/-- A router that was just made: the fleet is every member wired. -/
def State.init (C : Config) : State where
  fleet := ((List.range C.members).map UInt8.ofNat).take maxFleet
  io := Fanout.empty
  streams := fun _ => {}
  quiet := fun _ => false
  scrub := {}
  upCid := 0
  up := []

section Router

variable (C : Config) (net : ℕ → Bool)

/-! ## Answers and targets -/

/-- Queue an answer upstream. -/
def State.emit (s : State) (cid : UInt32) (r : BodyResp) : State :=
  { s with up := s.up ++ [(cid, r)] }

/-- Close a join. -/
def State.freeJoin (s : State) (g : ℕ) : State := { s with io := s.io.close g }

/-- Change a join. -/
def State.setJoin (s : State) (g : ℕ) (h : Join → Join) : State :=
  { s with io := s.io.modify g h }

/-- Change a stream slot. -/
def State.setStream (s : State) (sid : ℕ) (h : Stream → Stream) : State :=
  { s with streams := Function.update s.streams sid (h (s.streams sid)) }

/-- Free a stream slot. -/
def State.freeStream (s : State) (sid : ℕ) : State :=
  s.setStream sid fun t => { t with inUse := false }

/-- The first 32 bytes of a body, zero-padded (`body_key_from_bytes`). -/
def bodyKeyFromBytes (body : Bytes) : Digest :=
  ⟨body.take 32 ++ List.replicate (32 - (body.take 32).length) 0, by
    rw [List.length_append, List.length_replicate, List.length_take]
    omega⟩

/-- The members a name is ranked on. -/
def rankTargets (fleet : List UInt8) (key : Digest) : List UInt8 :=
  if min C.replicas fleet.length = 0 then []
  else pickTargets key (min C.replicas fleet.length) (Fleet.fromSlice fleet)

/-- The members that answer before those that are quiet (`quiet_last`). -/
def quietLast (quiet : UInt8 → Bool) (targets : List UInt8) : List UInt8 :=
  if targets.length ≤ C.memberCap then
    (targets.filter fun t => !quiet t) ++ targets.filter quiet
  else targets

/-- The errno of a failed answer. -/
def nakErrno : BodyResp → BodyErr
  | .nak e => e
  | _ => errIo

/-! ## Stores -/

/-- Ask every target the same, for a join, and count those that refused. -/
def askTargets (s : State) (g : ℕ) (questions : List (UInt8 × BodyReq)) : State :=
  let asked := Fanout.askAll C.pendingCap net g questions s.io
  { s with io := asked.1 }.setJoin g fun j => { j with fail := j.fail + asked.2 }

/-- A join whose every question was refused. -/
def failedAll (s : State) (g : ℕ) : Bool :=
  match s.io.join? g with
  | some j => j.fail == j.need
  | none => false

/-- Store a body. Past the ceiling the request does not decode. -/
def handlePut (s : State) (body : Bytes) : State :=
  let targets := rankTargets C s.fleet (bodyKeyFromBytes body)
  if maxBody < body.length then s.emit s.upCid (.nak errBadReq)
  else if targets = [] then s.emit s.upCid (.nak errIo)
  else
    match s.io.start C.joinCap { op := .put, need := targets.length, upCid := s.upCid } with
    | none => s.emit s.upCid (.nak errIo)
    | some (g, io) =>
      let s := askTargets C net { s with io := io } g (targets.map fun t => (t, .put body))
      if failedAll s g then (s.freeJoin g).emit s.upCid (.nak errIo) else s

/-- Store a blob under a key. -/
def handlePutKeyed (s : State) (key : Digest) (blob : Bytes) : State :=
  let targets := rankTargets C s.fleet key
  if maxBody < blob.length then s.emit s.upCid (.nak errBadReq)
  else if targets = [] then s.emit s.upCid (.nak errIo)
  else
    match s.io.start C.joinCap { op := .putKeyed, need := targets.length, upCid := s.upCid
                                 digest := key, digestSet := true } with
    | none => s.emit s.upCid (.nak errIo)
    | some (g, io) =>
      let s := askTargets C net { s with io := io } g (targets.map fun t => (t, .putKeyed key blob))
      if failedAll s g then (s.freeJoin g).emit s.upCid (.nak errIo) else s

/-! ## Reads -/

/-- The question a walk asks its target. -/
def Join.question (j : Join) : BodyReq :=
  match j.op with
  | .range => .range j.digest j.rangeOff j.rangeLen
  | .head => .head j.digest
  | _ => .get j.digest

/-- Ask the targets left, one at a time, until one takes the question. -/
def advanceRead (g : ℕ) : List UInt8 → State → State
  | [], s =>
    match s.io.join? g with
    | none => s
    | some j =>
      let s := s.freeJoin g
      if j.kind = .scrubFetch then s
      else s.emit j.upCid (.nak (if j.lastErrno = 0 then errIo else j.lastErrno))
  | t :: rest, s =>
    match s.io.join? g with
    | none => s
    | some j =>
      let asked := s.io.ask C.pendingCap net g t j.question
      if asked.2 then { s with io := asked.1 }
      else advanceRead g rest ({ s with io := asked.1 }.setJoin g fun j =>
        { j with lastErrno := errIo, attempt := j.attempt + 1 })

/-- The targets a walk has left. -/
def Join.ahead (j : Join) : List UInt8 := j.targets.drop j.attempt

/-- Read a body, its size, or a range of it (`handle_read`,
`handle_range_read`). -/
def handleRead (s : State) (op : BodyOp) (digest : Digest) (off : UInt64) (len : UInt32) : State :=
  let targets := quietLast C s.quiet (rankTargets C s.fleet digest)
  if targets = [] then s.emit s.upCid (.nak errNotFound)
  else
    match s.io.start C.joinCap { op := op, need := 1, targets := targets, upCid := s.upCid
                                 digest := digest, rangeOff := off, rangeLen := len } with
    | none => s.emit s.upCid (.nak errIo)
    | some (g, io) => advanceRead C net g targets { s with io := io }

/-- Remove a body from every replica. -/
def handleDelete (s : State) (digest : Digest) : State :=
  let targets := rankTargets C s.fleet digest
  if targets = [] then s.emit s.upCid (.nak errNotFound)
  else
    match s.io.start C.joinCap { op := .delete, need := targets.length, upCid := s.upCid } with
    | none => s.emit s.upCid (.nak errIo)
    | some (g, io) =>
      let s := askTargets C net { s with io := io } g (targets.map fun t => (t, .delete digest))
      if failedAll s g then (s.freeJoin g).emit s.upCid (.nak errIo) else s

/-! ## Streams -/

/-- The questions that name each member's own session. -/
def Stream.questions (t : Stream) (req : UInt8 → BodyReq) : List (UInt8 × BodyReq) :=
  t.targets.zipIdx.map fun p => (p.1, req (t.wids p.2))

/-- Tell one member to drop its session, for nobody. -/
def abortMember (s : State) (q : UInt8 × BodyReq) : State :=
  match s.io.start C.joinCap { kind := .streamAbort, op := .wabort, need := 1, upCid := s.upCid } with
  | none => s
  | some (g, io) =>
    let asked := io.ask C.pendingCap net g q.1 q.2
    let s := { s with io := asked.1 }
    if asked.2 then s else s.freeJoin g

/-- Tell every member of a stream to drop its session, and free the slot
(`abort_stream_members`). -/
def abortStreamMembers (s : State) (sid : ℕ) : State :=
  (((s.streams sid).questions .wabort).foldl (abortMember C net) s).freeStream sid

/-- The first free stream slot. -/
def freeSlot (s : State) : Option ℕ := (List.range C.streamCap).find? fun i => !(s.streams i).inUse

/-- A join of a stream failed. -/
def failedAny (s : State) (g : ℕ) : Bool :=
  match s.io.join? g with
  | some j => 0 < j.fail
  | none => false

/-- Open a streamed write: the replica set is ranked for the declared
digest. -/
def handleStreamOpen (s : State) (digest : Digest) (total : UInt64) : State :=
  let targets := rankTargets C s.fleet digest
  if targets = [] then s.emit s.upCid (.nak errIo)
  else
    match freeSlot C s with
    | none => s.emit s.upCid (.nak errIo)
    | some sid =>
      let s := s.setStream sid fun _ => { inUse := true, targets := targets }
      match s.io.start C.joinCap { kind := .streamOpen, op := .wopen, need := targets.length
                                   targets := targets, stream := some sid, upCid := s.upCid } with
      | none => (s.freeStream sid).emit s.upCid (.nak errIo)
      | some (g, io) =>
        let s := askTargets C net { s with io := io } g
          (targets.map fun t => (t, .wopen digest total))
        if failedAny s g then (abortStreamMembers C net (s.freeJoin g) sid).emit s.upCid (.nak errIo)
        else s

/-- A slot names a stream. -/
def streamOpen (s : State) (sid : ℕ) : Bool := decide (sid < C.streamCap) && (s.streams sid).inUse

/-- Append a chunk to a stream. -/
def handleStreamAppend (s : State) (sid : ℕ) (chunk : Bytes) : State :=
  if maxBody < chunk.length then s.emit s.upCid (.nak errBadReq)
  else if !streamOpen C s sid then s.emit s.upCid (.nak errBadReq)
  else
    let stream := s.streams sid
    match s.io.start C.joinCap { kind := .streamAppend, op := .wappend, need := stream.targets.length
                                 stream := some sid, upCid := s.upCid } with
    | none => (abortStreamMembers C net s sid).emit s.upCid (.nak errIo)
    | some (g, io) =>
      let s := askTargets C net { s with io := io } g (stream.questions fun w => .wappend w chunk)
      if failedAny s g then (abortStreamMembers C net (s.freeJoin g) sid).emit s.upCid (.nak errIo)
      else s

/-- Publish a stream. -/
def handleStreamCommit (s : State) (sid : ℕ) : State :=
  if !streamOpen C s sid then s.emit s.upCid (.nak errBadReq)
  else
    let stream := s.streams sid
    match s.io.start C.joinCap { kind := .streamCommit, op := .wcommit, need := stream.targets.length
                                 stream := some sid, upCid := s.upCid } with
    | none => (abortStreamMembers C net s sid).emit s.upCid (.nak errIo)
    | some (g, io) =>
      let s := askTargets C net { s with io := io } g (stream.questions .wcommit)
      if failedAny s g then (abortStreamMembers C net (s.freeJoin g) sid).emit s.upCid (.nak errIo)
      else if failedAll s g then ((s.freeJoin g).freeStream sid).emit s.upCid .wabort
      else s

/-- Drop a stream. -/
def handleStreamAbort (s : State) (sid : ℕ) : State :=
  if !streamOpen C s sid then s.emit s.upCid (.nak errBadReq)
  else
    let stream := s.streams sid
    match s.io.start C.joinCap { kind := .streamAbort, op := .wabort, need := stream.targets.length
                                 stream := some sid, upCid := s.upCid } with
    | none => (abortStreamMembers C net s sid).emit s.upCid (.nak errIo)
    | some (g, io) =>
      let s := askTargets C net { s with io := io } g (stream.questions .wabort)
      if failedAll s g then ((s.freeJoin g).freeStream sid).emit s.upCid .wabort else s

/-! ## Repair and scrub -/

/-- Put a body back on one member, best-effort. -/
def repairOne (op : BodyOp) (req : BodyReq) (s : State) (member : UInt8) : State :=
  match s.io.start C.joinCap { kind := .repair, op := op, need := 1, upCid := s.upCid } with
  | none => s
  | some (g, io) =>
    let asked := io.ask C.pendingCap net g member req
    let s := { s with io := asked.1 }
    if asked.2 then s else s.freeJoin g

/-- Put the body an answer carries back on the members that lack it, a keyed
blob under its key. -/
def spawnRepairPuts (s : State) (members : List UInt8) (resp : BodyResp) (keyed : Option Digest) :
    State :=
  match resp with
  | .get (some body) =>
    if maxBody < body.length then s
    else
      match keyed with
      | some key => members.foldl (repairOne C net .putKeyed (.putKeyed key body)) s
      | none => members.foldl (repairOne C net .put (.put body)) s
  | _ => s

/-- The name a repair stores under: its key, if it is one. -/
def Join.repairKey (j : Join) : Option Digest := if j.keyed then some j.digest else none

/-- A page of a member's names, for upstream. -/
def handleAdminScan (s : State) (cursor : UInt32) (max : UInt8) : State :=
  if C.members = 0 then s.emit s.upCid (.nak errNotFound)
  else
    match s.io.start C.joinCap { kind := .adminScan, op := .scan, need := 1, upCid := s.upCid } with
    | none => s.emit s.upCid (.nak errIo)
    | some (g, io) =>
      let asked := io.ask C.pendingCap net g 0 (.scan cursor max)
      let s := { s with io := asked.1 }
      if asked.2 then s else (s.freeJoin g).emit s.upCid (.nak errIo)

/-- The next member to scan. -/
def scrubNextTarget (s : State) : State :=
  let next := s.scrub.target + 1
  { s with scrub := { s.scrub with cursor := 0
                                   target := if C.members = 0 then s.scrub.target
                                     else if C.members ≤ next then 0 else next } }

/-- Scan a page of the next member. -/
def scrubKick (s : State) : State :=
  if C.members = 0 ∨ s.scrub.scanInflight then s
  else
    let target := if C.members ≤ s.scrub.target then 0 else s.scrub.target
    let s := { s with scrub := { s.scrub with target := target } }
    match s.io.start C.joinCap { kind := .scrubScan, op := .scan, need := 1, upCid := s.upCid } with
    | none => s
    | some (g, io) =>
      let asked := io.ask C.pendingCap net g (UInt8.ofNat target)
        (.scan s.scrub.cursor (UInt8.ofNat maxScanDigests))
      let s := { s with io := asked.1 }
      if asked.2 then { s with scrub := { s.scrub with scanInflight := true } }
      else scrubNextTarget C (s.freeJoin g)

/-- Ask every replica of a name whether it has it. -/
def scrubSpawnProbe (s : State) (name : Digest × Bool) : State :=
  let targets := rankTargets C s.fleet name.1
  if targets.length < 2 then s
  else
    match s.io.start C.joinCap { kind := .scrubProbe, op := .head, need := targets.length
                                 targets := targets, upCid := s.upCid, digest := name.1
                                 keyed := name.2 } with
    | none => s
    | some (g, io) =>
      let s := askTargets C net { s with io := io } g (targets.map fun t => (t, .head name.1))
      if failedAll s g then s.freeJoin g else s

/-- A page of names came, or did not. -/
def scrubApplyScan (s : State) (resp : BodyResp) : State :=
  let s := { s with scrub := { s.scrub with scanInflight := false } }
  match resp with
  | .scan (some (next, page)) =>
    let s := { s with scrub := { s.scrub with cursor := next } }
    let s := if next = 0 then scrubNextTarget C s else s
    page.foldl (scrubSpawnProbe C net) s
  | _ => scrubNextTarget C s

/-- Fetch a body from a replica that has it, for those that do not. -/
def scrubSpawnFetch (s : State) (probe : Join) : State :=
  let pick := fun places => (probe.targets.zipIdx.filter fun p => decide (p.2 ∈ places)).map Prod.fst
  match s.io.start C.joinCap { kind := .scrubFetch, op := .get, need := 1, upCid := s.upCid
                               digest := probe.digest, keyed := probe.keyed
                               targets := pick probe.present
                               repairTargets := pick probe.notFound } with
  | none => s
  | some (g, io) => advanceRead C net g (pick probe.present) { s with io := io }

/-- A replica's answer to the probe is noted. -/
def Join.heard (j : Join) (t : UInt8) (resp : BodyResp) : Join :=
  let place := (j.targets.findIdx? fun t' => t' = t).toList
  if resp.op = some .head then { j with ack := j.ack + 1, present := place ++ j.present }
  else { j with fail := j.fail + 1
                notFound := if nakErrno resp = errNotFound then place ++ j.notFound else j.notFound }

/-- A replica answered the probe. -/
def scrubApplyProbe (s : State) (g : ℕ) (j : Join) (t : UInt8) (resp : BodyResp) : State :=
  let j := j.heard t resp
  let s := s.setJoin g fun _ => j
  if j.ack + j.fail ≠ j.need then s
  else
    let s := s.freeJoin g
    if j.notFound = [] ∨ j.present = [] then s else scrubSpawnFetch C net s j

/-! ## Answers -/

/-- The digest a store or a commit answers, from the first answer that carries
one. -/
def Join.noteDigest (j : Join) (d : Option Digest) : Join :=
  if j.digestSet then j
  else
    match d with
    | some d => { j with digest := d, digestSet := true }
    | none => j

/-- The digest an answer carries (`decode_put_resp`, `decode_wcommit_resp`). -/
def respDigest : BodyResp → Option Digest
  | .put d => d
  | .wcommit d => d
  | _ => none

/-- A replica answered a store: all must succeed. -/
def answerPut (s : State) (g : ℕ) (j : Join) (resp : BodyResp) : State :=
  if resp.op = some j.op then
    let j := { j with ack := j.ack + 1 }.noteDigest (respDigest resp)
    if 0 < j.fail then (s.emit j.upCid (.nak (nakErrno resp))).freeJoin g
    else if j.ack = j.need then
      (s.emit j.upCid (if !j.digestSet then .nak errIo
        else if j.op = .putKeyed then .putKeyed (some j.digest) else .put (some j.digest))).freeJoin g
    else s.setJoin g fun _ => j
  else (s.emit j.upCid (.nak (nakErrno resp))).freeJoin g

/-- The targets a walk has found without the body. -/
def Join.missing (j : Join) : List UInt8 :=
  (j.targets.zipIdx.filter fun p => decide (p.2 ∈ j.notFound)).map Prod.fst

/-- A replica answered a read: its answer goes upstream, or the walk goes on. A
read that fell back puts the body where it was missing. -/
def answerRead (s : State) (g : ℕ) (j : Join) (resp : BodyResp) : State :=
  if resp.op = some j.op then
    let s := (s.emit j.upCid resp).freeJoin g
    if j.op = .get ∧ j.notFound ≠ [] then spawnRepairPuts C net s j.missing resp j.repairKey else s
  else
    let j := { j with lastErrno := nakErrno resp, attempt := j.attempt + 1
                      notFound := if nakErrno resp = errNotFound then j.attempt :: j.notFound
                        else j.notFound }
    advanceRead C net g j.ahead (s.setJoin g fun _ => j)

/-- A replica's answer to a removal is counted. -/
def Join.noteDelete (j : Join) (resp : BodyResp) : Join :=
  match resp with
  | .delete existed => { j with ack := j.ack + 1, existed := j.existed || existed }
  | _ => { j with fail := j.fail + 1, lastErrno := nakErrno resp }

/-- A replica answered a removal: one success is one. -/
def answerDelete (s : State) (g : ℕ) (j : Join) (resp : BodyResp) : State :=
  let j := j.noteDelete resp
  if j.ack + j.fail = j.need then
    (s.emit j.upCid (if 0 < j.ack then .delete j.existed
      else .nak (if j.lastErrno = 0 then errIo else j.lastErrno))).freeJoin g
  else s.setJoin g fun _ => j

/-- A member opened its session for a stream. -/
def Stream.opened (t : Stream) (member : UInt8) (targets : List UInt8) (wid : Option UInt8) :
    Stream :=
  match targets.findIdx? fun t' => t' = member with
  | some i => { t with wids := Function.update t.wids i (wid.getD 0) }
  | none => t

/-- The session a member answers an open with is noted. -/
def noteSession (s : State) (j : Join) (sid : ℕ) (t : UInt8) (resp : BodyResp) : State :=
  match resp with
  | .wopen wid => s.setStream sid fun st => st.opened t j.targets wid
  | _ => s

/-- A member's good answer for a stream is counted, with the digest of a
commit. -/
def Join.noteStream (j : Join) (resp : BodyResp) : Join :=
  if j.kind = .streamCommit then { j with ack := j.ack + 1 }.noteDigest (respDigest resp)
  else { j with ack := j.ack + 1 }

/-- Every member answered for a stream. -/
def finishStream (s : State) (g : ℕ) (j : Join) (sid : ℕ) : State :=
  match j.kind with
  | .streamOpen => (s.freeJoin g).emit j.upCid (.wopen (some (UInt8.ofNat sid)))
  | .streamAppend => (s.freeJoin g).emit j.upCid .wappend
  | _ => ((s.freeJoin g).freeStream sid).emit j.upCid (.wcommit (some j.digest))

/-- A member answered for a stream: all must succeed, and a failure drops the
stream. -/
def answerStream (s : State) (g : ℕ) (j : Join) (sid : ℕ) (t : UInt8) (resp : BodyResp) : State :=
  if resp.op = some j.op then
    let s := noteSession s j sid t resp
    let j := j.noteStream resp
    if j.ack = j.need then finishStream s g j sid else s.setJoin g fun _ => j
  else (abortStreamMembers C net (s.freeJoin g) sid).emit j.upCid (.nak (nakErrno resp))

/-- A member answered an abort, whatever it answered. -/
def answerAbort (s : State) (g : ℕ) (j : Join) : State :=
  let j := { j with ack := j.ack + 1 }
  if j.need ≤ j.ack + j.fail then
    let s := s.freeJoin g
    match j.stream with
    | some sid => (s.freeStream sid).emit j.upCid .wabort
    | none => s
  else s.setJoin g fun _ => j

/-- A member's answer, for the join that asked (`apply_join_response`). -/
def applyJoinResponse (s : State) (g : ℕ) (j : Join) (t : UInt8) (resp : BodyResp) : State :=
  match j.kind with
  | .repair => s.freeJoin g
  | .adminScan =>
    (s.freeJoin g).emit j.upCid (if resp.op = some j.op then resp else .nak (nakErrno resp))
  | .scrubScan => scrubApplyScan C net (s.freeJoin g) resp
  | .scrubProbe => scrubApplyProbe C net s g j t resp
  | .scrubFetch =>
    if resp.op = some j.op then
      spawnRepairPuts C net (s.freeJoin g) j.repairTargets resp j.repairKey
    else
      let j := { j with attempt := j.attempt + 1 }
      advanceRead C net g j.ahead (s.setJoin g fun _ => j)
  | .streamOpen | .streamAppend | .streamCommit =>
    match j.stream with
    | some sid => answerStream C net s g j sid t resp
    | none => s
  | .streamAbort => answerAbort s g j
  | .client =>
    match j.op with
    | .put | .putKeyed => answerPut s g j resp
    | .get | .head | .range => answerRead C net s g j resp
    | .delete => answerDelete s g j resp
    | _ => (s.emit j.upCid (.nak errBadReq)).freeJoin g

/-- A ticket was spent: its answer goes to its join, if that is still in hand
(`answer_join`). -/
def answerJoin (s : State) (g : ℕ) (t : UInt8) (resp : BodyResp) : State :=
  match s.io.join? g with
  | none => s
  | some j => applyJoinResponse C net s g j t resp

/-! ## Events -/

/-- A request, by its opcode. -/
def handleRequest (s : State) (req : BodyReq) : State :=
  match req with
  | .put body => handlePut C net s body
  | .putKeyed key blob => handlePutKeyed C net s key blob
  | .get name => handleRead C net s .get name 0 0
  | .head name => handleRead C net s .head name 0 0
  | .range name off len => handleRead C net s .range name off len
  | .delete name => handleDelete C net s name
  | .wopen name total => handleStreamOpen C net s name total
  | .wappend wid chunk => handleStreamAppend C net s wid.toNat chunk
  | .wcommit wid => handleStreamCommit C net s wid.toNat
  | .wabort wid => handleStreamAbort C net s wid.toNat
  | .scan cursor max => handleAdminScan C net s cursor max
  | .malformed => s.emit s.upCid (.nak errBadReq)

/-- What an event shows of the members: one that answered is not quiet, one past
its deadline is. -/
def hear (s : State) : EcEvent → State
  | .answer t _ _ | .oversizeAnswer t _ => { s with quiet := Function.update s.quiet t false }
  | .expire cid =>
    match s.io.lapse cid with
    | some (k, _) => { s with quiet := Function.update s.quiet k.peer true }
    | none => s
  | _ => s

/-- Meet an event. -/
def step (s : State) (e : EcEvent) : State :=
  match e with
  | .fleet members => { s with fleet := members.take maxFleet }
  | .request cid req => handleRequest C net { s with upCid := cid } req
  | .oversize cid => s.emit cid (.nak errTooLarge)
  | .scrub => scrubKick C net s
  | .answer .. | .oversizeAnswer .. | .expire _ =>
    let s := hear s e
    match e.spends s.io with
    | none => s
    | some (k, io, resp) => answerJoin C net { s with io := io } k.join k.peer resp

/-- The state a router that was just made reaches. -/
def runOf (es : List EcEvent) : State := Run.run (step C net) (State.init C) es

end Router

end Loam.BodyRouter

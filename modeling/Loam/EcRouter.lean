import Loam.Placement
import Loam.ShardBlob
import Loam.Lib.Fanout
import Loam.Lib.Run
import Mathlib.Logic.Function.Basic

/-!
# The erasure-coding router

The router stores a body as `k + m` shards, one on each ranked member, and
reads it back from any `k` of them. Every request opens a join that collects
the members' answers; a read also takes the one assembly, where shards are
gathered until there are enough to solve. The scrub walks the members' blobs in
the background, over joins of its own, and borrows the assembly to rebuild what
a member lost.

One event is what the code does between two looks at its channels: a fleet
snapshot, an upstream request, a member's answer, a deadline passed, a scrub
round due. The code takes an event only while the upstream queue has room for
an answer and no member is part-way through taking a frame, and an event
answers upstream at most once, so a push upstream does not fail and a send
fails only for the reasons `net` stands for: the member's channel is not wired,
stalled or broken. Generations and correlation ids do not wrap here.
-/

namespace Loam

/-- A router's geometry and limits. -/
structure EcConfig where
  sha : Bytes → Digest
  k : ℕ
  m : ℕ
  /-- One data shard would be replication. -/
  two_le : 2 ≤ k
  le_max : k + m ≤ maxShards
  members : ℕ
  /-- The joins there is room for (`ROUTER_JOINS`). -/
  joinCap : ℕ
  /-- The answers that can be awaited (`ROUTER_PENDING`). -/
  pendingCap : ℕ

/-- What a join collects answers for (`KIND_*`). -/
inductive EcKind where
  | put
  | get
  | head
  | delete
  | scrubScan
  | scrubIdent
  | scrubProbe
  | scrubFetch
  | scrubRepair
  | scrubCleanup
deriving DecidableEq

/-- The join answers a request from upstream. -/
def EcKind.client : EcKind → Bool
  | .put | .get | .head | .delete => true
  | _ => false

/-- The join gathers shards in the assembly. -/
def EcKind.gathers : EcKind → Bool
  | .get | .scrubFetch => true
  | _ => false

/-- A join (`JoinSlot`). -/
structure EcJoin where
  kind : EcKind
  need : ℕ := 0
  ack : ℕ := 0
  fail : ℕ := 0
  existed : Bool := false
  attempt : ℕ := 0
  /-- The members asked, in rank order. -/
  targets : List UInt8 := []
  lastErrno : BodyErr := 0
  sawNotFound : Bool := false
  upCid : UInt32
  digest : Digest
deriving DecidableEq

/-- The one reassembly (`Assembly`): the shards gathered, by index. -/
structure Assembly where
  busy : Bool
  internal : Bool
  /-- The owner, which the code does not record for a scrub fetch and reads
  nowhere. -/
  join : ℕ
  shards : ℕ → Option Bytes
  /-- Their length, 0 until the first arrives. -/
  shardLen : ℕ
  bodyLen : ℕ
  digest : Digest

/-- Where the scrub is. -/
structure Scrub where
  target : ℕ
  cursor : UInt32
  scanInflight : Bool
  /-- The keys of the page still to work on, the one in hand first. -/
  queue : List Digest
  member : UInt8
  identIndex : ℕ
  shardLen : ℕ
  bodyLen : ℕ
  digest : Digest
  /-- The homes of the body's shards. -/
  ranked : List UInt8
  present : ℕ → Bool
  probeResp : ℕ
  repair : ℕ → Bool
  shard : Bytes

/-- The members and joins of a router. -/
abbrev EcIo := Fanout UInt8 BodyReq EcJoin

/-- The router's state. -/
structure EcState where
  fleet : List UInt8
  io : EcIo
  asm : Assembly
  scrub : Scrub
  /-- The upstream request being handled. -/
  upCid : UInt32
  up : List (UInt32 × BodyResp)

/-- A router that was just made: the fleet is every member wired. -/
def EcState.init (C : EcConfig) : EcState where
  fleet := ((List.range C.members).map UInt8.ofNat).take maxFleet
  io := Fanout.empty
  asm := ⟨false, false, 0, fun _ => none, 0, 0, Digest.zero⟩
  scrub := ⟨0, 0, false, [], 0, 0, 0, 0, Digest.zero, [], fun _ => false, 0, fun _ => false, []⟩
  upCid := 0
  up := []

/-- The stride of the assembly's shards (`SHARD_SLOT`). -/
def shardSlot : ℕ := 30720

/-- The errno of an answer, 0 when it carries none. -/
def BodyResp.errno : BodyResp → BodyErr
  | .nak e => e
  | _ => 0

section Router

variable (C : EcConfig) (net : ℕ → Bool)

/-! ## Answers and targets -/

/-- Queue an answer upstream. -/
def EcState.emit (s : EcState) (cid : UInt32) (r : BodyResp) : EcState :=
  { s with up := s.up ++ [(cid, r)] }

/-- Close a join. -/
def EcState.freeJoin (s : EcState) (g : ℕ) : EcState := { s with io := s.io.close g }

/-- Change a join. -/
def EcState.setJoin (s : EcState) (g : ℕ) (h : EcJoin → EcJoin) : EcState :=
  { s with io := s.io.modify g h }

/-- A read lets the assembly go. -/
def EcState.letGo (s : EcState) : EcState := { s with asm := { s.asm with busy := false } }

/-- A scrub fetch lets the assembly go. -/
def EcState.letGoScrub (s : EcState) : EcState :=
  { s with asm := { s.asm with busy := false, internal := false } }

/-- The `k + m` members a body is ranked on, none if the fleet cannot hold
it. -/
def rankTargets (fleet : List UInt8) (digest : Digest) : List UInt8 :=
  if fleet.length < C.k + C.m then []
  else
    let chosen := pickTargets digest (C.k + C.m) (Fleet.fromSlice fleet)
    if chosen.length = C.k + C.m then chosen else []

/-- One question to each target, about its own shard. -/
def shardQuestions (req : ℕ → BodyReq) (targets : List UInt8) : List (UInt8 × BodyReq) :=
  targets.zipIdx.map fun p => (p.1, req p.2)

/-- The blob of shard `i` of an encoded body. -/
def shardBlob (body : Bytes) (shards : List Bytes) (i : ℕ) : Bytes :=
  encodeShardBlob ⟨C.k, C.m, i, body.length, C.sha body, shardLenFor body.length C.k⟩
    (shards.getD i [])

/-! ## Requests -/

/-- Store a body. Past the ceiling the request does not decode. -/
def handlePut (s : EcState) (body : Bytes) : EcState :=
  let digest := C.sha body
  let targets := rankTargets C s.fleet digest
  if maxBody < body.length then s.emit s.upCid (.nak errBadReq)
  else if s.asm.busy then s.emit s.upCid (.nak errIo)
  else if targets = [] then s.emit s.upCid (.nak errIo)
  else if shardSlot < shardLenFor body.length C.k then s.emit s.upCid (.nak errTooLarge)
  else
    match encode body C.k C.m with
    | none => s.emit s.upCid (.nak errIo)
    | some shards =>
      match s.io.start C.joinCap
          { kind := .put, need := targets.length, upCid := s.upCid, digest := digest } with
      | none => s.emit s.upCid (.nak errIo)
      | some (g, io) =>
        let asked := Fanout.askAll C.pendingCap net g
          (shardQuestions (fun i =>
            .putKeyed (deriveShardKey C.sha digest i) (shardBlob C body shards i)) targets) io
        let s := { s with io := asked.1 }.setJoin g fun j => { j with fail := asked.2 }
        if asked.2 = targets.length then (s.freeJoin g).emit s.upCid (.nak errIo) else s

/-- A read that cannot reach `k` shards. -/
def resolveGetFailure (s : EcState) (g : ℕ) : EcState :=
  match s.io.join? g with
  | none => s
  | some j =>
    let errno := if j.sawNotFound then errNotFound
      else if j.lastErrno ≠ 0 then j.lastErrno else errIo
    ((s.emit j.upCid (.nak errno)).freeJoin g).letGo

/-- Read a body. -/
def handleGet (s : EcState) (digest : Digest) : EcState :=
  let targets := rankTargets C s.fleet digest
  if s.asm.busy then s.emit s.upCid (.nak errIo)
  else if targets = [] then s.emit s.upCid (.nak errNotFound)
  else
    match s.io.start C.joinCap { kind := .get, need := targets.length, targets := targets
                                 upCid := s.upCid, digest := digest } with
    | none => s.emit s.upCid (.nak errIo)
    | some (g, io) =>
      let asked := Fanout.askAll C.pendingCap net g
        (shardQuestions (fun i => .get (deriveShardKey C.sha digest i)) targets) io
      let asm := { s.asm with busy := true, join := g, shards := fun _ => none, shardLen := 0
                              bodyLen := 0, digest := digest }
      let s := { s with io := asked.1, asm := asm }.setJoin g fun j => { j with fail := asked.2 }
      if C.m < asked.2 then resolveGetFailure s g else s

/-- Ask the targets left, one at a time, until one takes the question. -/
def advanceHead (g : ℕ) : List (UInt8 × ℕ) → EcState → EcState
  | [], s =>
    match s.io.join? g with
    | none => s
    | some j =>
      let errno := if j.sawNotFound then errNotFound
        else if j.lastErrno ≠ 0 then j.lastErrno else errIo
      (s.emit j.upCid (.nak errno)).freeJoin g
  | (t, i) :: rest, s =>
    match s.io.join? g with
    | none => s
    | some j =>
      let asked := s.io.ask C.pendingCap net g t (.get (deriveShardKey C.sha j.digest i))
      if asked.2 then { s with io := asked.1 }
      else advanceHead g rest ({ s with io := asked.1 }.setJoin g fun j =>
        { j with lastErrno := errIo, attempt := j.attempt + 1 })

/-- The targets a walk has left. -/
def EcJoin.ahead (j : EcJoin) : List (UInt8 × ℕ) := j.targets.zipIdx.drop j.attempt

/-- Ask a body's size. -/
def handleHead (s : EcState) (digest : Digest) : EcState :=
  let targets := rankTargets C s.fleet digest
  if targets = [] then s.emit s.upCid (.nak errNotFound)
  else
    match s.io.start C.joinCap { kind := .head, need := 1, targets := targets
                                 upCid := s.upCid, digest := digest } with
    | none => s.emit s.upCid (.nak errIo)
    | some (g, io) => advanceHead C net g targets.zipIdx { s with io := io }

/-- Remove a body. -/
def handleDelete (s : EcState) (digest : Digest) : EcState :=
  let targets := rankTargets C s.fleet digest
  if targets = [] then s.emit s.upCid (.nak errNotFound)
  else
    match s.io.start C.joinCap
        { kind := .delete, need := targets.length, upCid := s.upCid, digest := digest } with
    | none => s.emit s.upCid (.nak errIo)
    | some (g, io) =>
      let asked := Fanout.askAll C.pendingCap net g
        (shardQuestions (fun i => .delete (deriveShardKey C.sha digest i)) targets) io
      let s := { s with io := asked.1 }.setJoin g fun j => { j with fail := asked.2 }
      if asked.2 = targets.length then (s.freeJoin g).emit s.upCid (.nak errIo) else s

/-! ## Scrub -/

/-- The next member to scan. -/
def scrubNextMember (s : EcState) : EcState :=
  let next := s.scrub.target + 1
  { s with scrub := { s.scrub with cursor := 0
                                   target := if C.members = 0 then s.scrub.target
                                     else if C.members ≤ next then 0 else next } }

/-- Work on the first of the keys that can be asked for
(`scrub_start_ident`). -/
def startIdent : List Digest → EcState → EcState
  | [], s => { s with scrub := { s.scrub with queue := [] } }
  | key :: rest, s =>
    match s.io.start C.joinCap
        { kind := .scrubIdent, need := 1, upCid := s.upCid, digest := key } with
    | none => startIdent rest s
    | some (g, io) =>
      let asked := io.ask C.pendingCap net g s.scrub.member (.get key)
      let s := { s with io := asked.1, scrub := { s.scrub with queue := key :: rest } }
      if asked.2 then s else startIdent rest (s.freeJoin g)

/-- The next key of the page, or idle. -/
def scrubNextKey (s : EcState) : EcState := startIdent C net s.scrub.queue.tail s

/-- Put one shard back at its home. -/
def scrubDispatchOneRepair (s : EcState) (i : ℕ) (blob : Bytes) : EcState :=
  match s.io.start C.joinCap
      { kind := .scrubRepair, need := 1, upCid := s.upCid, digest := Digest.zero } with
  | none => s
  | some (g, io) =>
    let asked := io.ask C.pendingCap net g (s.scrub.ranked.getD i 0)
      (.putKeyed (deriveShardKey C.sha s.scrub.digest i) blob)
    let s := { s with io := asked.1 }
    if asked.2 then s else s.freeJoin g

/-- Put back the shards that were missing, from a rebuilt body. -/
def scrubDispatchRepairs (shards : List Bytes) (s : EcState) : EcState :=
  (List.range s.scrub.ranked.length).foldl (fun s i =>
    if s.scrub.repair i then
      scrubDispatchOneRepair C net s i (encodeShardBlob
        ⟨C.k, C.m, i, s.asm.bodyLen, s.asm.digest, s.asm.shardLen⟩ (shards.getD i []))
    else s) s

/-- Put the shard in hand at its home. -/
def scrubDispatchRepairFromBuf (s : EcState) : EcState :=
  scrubDispatchOneRepair C net s s.scrub.identIndex (encodeShardBlob
    ⟨C.k, C.m, s.scrub.identIndex, s.scrub.bodyLen, s.scrub.digest, s.scrub.shardLen⟩
    s.scrub.shard)

/-- Drop a stray copy. -/
def scrubDispatchCleanup (s : EcState) (member : UInt8) : EcState :=
  match s.io.start C.joinCap
      { kind := .scrubCleanup, need := 1, upCid := s.upCid, digest := Digest.zero } with
  | none => s
  | some (g, io) =>
    let asked := io.ask C.pendingCap net g member
      (.delete (deriveShardKey C.sha s.scrub.digest s.scrub.identIndex))
    let s := { s with io := asked.1 }
    if asked.2 then s else s.freeJoin g

/-- A fetch that cannot reach `k` shards. -/
def scrubFetchFailed (s : EcState) (g : ℕ) : EcState :=
  scrubNextKey C net (s.freeJoin g).letGoScrub

/-- The assembly taken for a fetch, with the shard in hand in it. -/
def Assembly.seeded (x : Scrub) (g : ℕ) : Assembly where
  busy := true
  internal := true
  join := g
  shards := Function.update (fun _ => none) x.identIndex (some x.shard)
  shardLen := x.shardLen
  bodyLen := x.bodyLen
  digest := x.digest

/-- Fetch the shards the homes have, to rebuild the others. -/
def scrubFetch (s : EcState) (missing : List ℕ) : EcState :=
  let i := s.scrub.identIndex
  let total := s.scrub.ranked.length
  if s.asm.busy then scrubNextKey C net s
  else
    let scrub := { s.scrub with repair := fun r => decide (r ∈ missing) }
    match s.io.start C.joinCap { kind := .scrubFetch, targets := s.scrub.ranked
                                 upCid := s.upCid, digest := s.scrub.digest } with
    | none => scrubNextKey C net
        { s with asm := Assembly.seeded s.scrub s.asm.join, scrub := scrub }.letGoScrub
    | some (g, io) =>
      let homes := (List.range total).filter fun r => r ≠ i ∧ s.scrub.present r
      let asked := Fanout.askAll C.pendingCap net g
        (homes.map fun r =>
          (s.scrub.ranked.getD r 0, .get (deriveShardKey C.sha s.scrub.digest r))) io
      let dispatched := homes.length - asked.2
      let s := { s with io := asked.1, asm := Assembly.seeded s.scrub g, scrub := scrub }.setJoin g
        fun j => { j with need := dispatched }
      if 1 + dispatched < C.k then scrubFetchFailed C net s g else s

/-- Every home answered: decide how to heal. -/
def scrubProbeResolve (s : EcState) : EcState :=
  let i := s.scrub.identIndex
  let missing := (List.range s.scrub.ranked.length).filter fun r => !s.scrub.present r
  if missing = [] then
    let s := if s.scrub.ranked.getD i 0 ≠ s.scrub.member
      then scrubDispatchCleanup C net s s.scrub.member else s
    scrubNextKey C net s
  else if missing = [i] then scrubNextKey C net (scrubDispatchRepairFromBuf C net s)
  else if ((List.range s.scrub.ranked.length).filter fun r => s.scrub.present r || r == i).length
      < C.k then scrubNextKey C net s
  else scrubFetch C net s missing

/-- Ask every home of the body in hand whether it has its shard. -/
def scrubProbe (s : EcState) : EcState :=
  match s.io.start C.joinCap
      { kind := .scrubProbe, need := s.scrub.ranked.length, targets := s.scrub.ranked
        upCid := s.upCid, digest := s.scrub.digest } with
  | none => scrubNextKey C net s
  | some (g, io) =>
    let asked := Fanout.askAll C.pendingCap net g
      (shardQuestions (fun i => .head (deriveShardKey C.sha s.scrub.digest i)) s.scrub.ranked) io
    let s := { s with io := asked.1, scrub := { s.scrub with probeResp := asked.2 } }
    if s.scrub.ranked.length ≤ asked.2 then scrubProbeResolve C net (s.freeJoin g) else s

/-- A shard blob is one of this geometry's, stored under its own key. -/
def ShardHeader.ours (h : ShardHeader) (key : Digest) : Bool :=
  h.k == C.k && h.m == C.m && decide (h.index < C.k + C.m) && h.shardLen != 0
    && decide (h.shardLen ≤ shardSlot) && decide (h.bodyLen ≤ maxBody)
    && decide (h.bodyLen ≤ C.k * h.shardLen) && deriveShardKey C.sha h.bodyDigest h.index == key

/-- The blob behind a key came, or did not: probe its body's homes. -/
def scrubApplyIdent (s : EcState) (key : Digest) (resp : BodyResp) : EcState :=
  match resp with
  | .get (some blob) =>
    match decodeShardHeader blob, shardPayload blob with
    | some hdr, some payload =>
      let ranked := rankTargets C s.fleet hdr.bodyDigest
      if !hdr.ours C key then scrubNextKey C net s
      else if ranked = [] then scrubNextKey C net s
      else
        scrubProbe C net { s with scrub := { s.scrub with
          digest := hdr.bodyDigest, identIndex := hdr.index, shardLen := hdr.shardLen
          bodyLen := hdr.bodyLen, shard := payload, ranked := ranked, present := fun _ => false
          probeResp := 0 } }
    | _, _ => scrubNextKey C net s
  | _ => scrubNextKey C net s

/-- Scan a page of the next member, when a round is due and the scrub is
idle. -/
def scrubKick (s : EcState) : EcState :=
  if C.members = 0 ∨ s.scrub.scanInflight ∨ s.scrub.queue ≠ [] then s
  else
    let target := if C.members ≤ s.scrub.target then 0 else s.scrub.target
    let s := { s with scrub := { s.scrub with target := target } }
    match s.io.start C.joinCap
        { kind := .scrubScan, need := 1, upCid := s.upCid, digest := Digest.zero } with
    | none => s
    | some (g, io) =>
      let asked := io.ask C.pendingCap net g (UInt8.ofNat target)
        (.scan s.scrub.cursor (UInt8.ofNat maxScanDigests))
      let s := { s with io := asked.1 }
      if asked.2 then
        { s with scrub := { s.scrub with scanInflight := true, member := UInt8.ofNat target } }
      else scrubNextMember C (s.freeJoin g)

/-! ## Shards -/

/-- The assembly with one more shard, if the answer is the shard it asked its
sender for. -/
def Assembly.accept (a : Assembly) (targets : List UInt8) (t : UInt8) (payload : Option Bytes) :
    Option Assembly := do
  let idx ← targets.findIdx? fun t' => t' = t
  let blob ← payload
  let hdr ← decodeShardHeader blob
  if hdr.bodyDigest ≠ a.digest ∨ hdr.index ≠ idx ∨ hdr.k ≠ C.k ∨ hdr.m ≠ C.m
      ∨ shardSlot < hdr.shardLen ∨ hdr.shardLen = 0 then none
  else if a.shardLen = 0 then
    if maxBody < hdr.bodyLen ∨ C.k * hdr.shardLen < hdr.bodyLen then none
    else
      some { a with shardLen := hdr.shardLen, bodyLen := hdr.bodyLen
                    shards := Function.update a.shards idx (shardPayload blob) }
  else if hdr.shardLen ≠ a.shardLen ∨ hdr.bodyLen ≠ a.bodyLen then none
  else some { a with shards := Function.update a.shards idx (shardPayload blob) }

/-- The shards gathered. -/
def Assembly.gathered (a : Assembly) : ℕ :=
  ((List.range (C.k + C.m)).filter fun i => (a.shards i).isSome).length

/-- Every shard and the body, if the body has the digest. -/
def Assembly.rebuild (a : Assembly) : Option (List Bytes × Bytes) :=
  match reconstruct ((List.range (C.k + C.m)).map fun i => (a.shards i).getD [])
      (fun i => (a.shards i).isSome) a.shardLen C.k C.m with
  | none => none
  | some shards =>
    let body := bodyOf shards a.bodyLen
    if C.sha body = a.digest then some (shards, body) else none

/-- A shard arrived for the assembly; also whether the assembly was
released. -/
def assemblyTakeShard (s : EcState) (g : ℕ) (j : EcJoin) (t : UInt8) (payload : Option Bytes) :
    EcState × Bool :=
  match s.asm.accept C j.targets t payload with
  | none => (s, false)
  | some asm =>
    let s := { s with asm := asm }
    if asm.gathered C < C.k then (s, false)
    else
      match asm.rebuild C with
      | none => (if asm.internal then scrubFetchFailed C net s g else resolveGetFailure s g, true)
      | some (shards, body) =>
        if asm.internal then
          (scrubNextKey C net (scrubDispatchRepairs C net shards (s.freeJoin g)).letGoScrub, true)
        else (((s.emit j.upCid (.get (some body))).freeJoin g).letGo, true)

/-! ## Answers -/

/-- An errno is remembered, a missing body apart. -/
def EcJoin.noteErrno (j : EcJoin) (e : BodyErr) : EcJoin :=
  if e = errNotFound then { j with sawNotFound := true }
  else if e ≠ 0 then { j with lastErrno := e } else j

/-- A member's answer to a store is counted. -/
def EcJoin.notePut (j : EcJoin) (resp : BodyResp) : EcJoin :=
  if resp.op = some .putKeyed then { j with ack := j.ack + 1 } else { j with fail := j.fail + 1 }

/-- A member's answer to a removal is counted. -/
def EcJoin.noteDelete (j : EcJoin) (resp : BodyResp) : EcJoin :=
  match resp with
  | .delete existed => { j with ack := j.ack + 1, existed := j.existed || existed }
  | _ => { j with fail := j.fail + 1
                  lastErrno := if resp.errno ≠ 0 then resp.errno else j.lastErrno }

/-- A member answered a store. -/
def answerPut (s : EcState) (g : ℕ) (j : EcJoin) (resp : BodyResp) : EcState :=
  let j := j.notePut resp
  let s := s.setJoin g fun _ => j
  if 0 < j.fail then
    (s.emit j.upCid (.nak (if resp.errno ≠ 0 then resp.errno else errIo))).freeJoin g
  else if j.ack = j.need then (s.emit j.upCid (.put (some j.digest))).freeJoin g
  else s

/-- A member answered a read. -/
def answerGet (s : EcState) (g : ℕ) (j : EcJoin) (t : UInt8) (resp : BodyResp) : EcState :=
  match resp with
  | .get payload => (assemblyTakeShard C net s g j t payload).1
  | _ =>
    let s := s.setJoin g fun j => { j with fail := j.fail + 1 }.noteErrno resp.errno
    if C.m < j.fail + 1 then resolveGetFailure s g else s

/-- A member answered a size request. -/
def answerHead (s : EcState) (g : ℕ) (j : EcJoin) (resp : BodyResp) : EcState :=
  match resp with
  | .get payload =>
    match payload.bind decodeShardHeader with
    | some hdr => (s.emit j.upCid (.head (some (UInt64.ofNat hdr.bodyLen)))).freeJoin g
    | none =>
      let j := { j with lastErrno := errIo, attempt := j.attempt + 1 }
      advanceHead C net g j.ahead (s.setJoin g fun _ => j)
  | _ =>
    let j := { j.noteErrno resp.errno with attempt := j.attempt + 1 }
    advanceHead C net g j.ahead (s.setJoin g fun _ => j)

/-- A member answered a removal. -/
def answerDelete (s : EcState) (g : ℕ) (j : EcJoin) (resp : BodyResp) : EcState :=
  let j := j.noteDelete resp
  let s := s.setJoin g fun _ => j
  if j.ack + j.fail = j.need then
    (s.emit j.upCid (if 0 < j.ack then .delete j.existed
      else .nak (if j.lastErrno ≠ 0 then j.lastErrno else errIo))).freeJoin g
  else s

/-- A page of names came, or did not. -/
def answerScan (s : EcState) (g : ℕ) (resp : BodyResp) : EcState :=
  let s := { s.freeJoin g with scrub := { s.scrub with scanInflight := false } }
  match resp with
  | .scan (some (next, page)) =>
    let s := if next = 0 then scrubNextMember C s
      else { s with scrub := { s.scrub with cursor := next } }
    if page = [] then s else startIdent C net (page.map Prod.fst) s
  | _ => scrubNextMember C s

/-- A home's answer to the probe is noted. -/
def Scrub.heard (x : Scrub) (j : EcJoin) (t : UInt8) (resp : BodyResp) : Scrub :=
  let present := match resp.op, j.targets.findIdx? (fun t' => t' = t) with
    | some .head, some r => Function.update x.present r true
    | _, _ => x.present
  { x with present := present, probeResp := x.probeResp + 1 }

/-- A home answered the probe. -/
def answerProbe (s : EcState) (g : ℕ) (j : EcJoin) (t : UInt8) (resp : BodyResp) : EcState :=
  let s := { s with scrub := s.scrub.heard j t resp }
  if j.need ≤ s.scrub.probeResp then scrubProbeResolve C net (s.freeJoin g) else s

/-- Give the body up once the homes left cannot make `k` shards. -/
def scrubFetchCheck (s : EcState) (g : ℕ) : EcState :=
  match s.io.join? g with
  | none => s
  | some j =>
    if s.asm.gathered C + (j.need - (j.ack + j.fail)) < C.k then scrubFetchFailed C net s g else s

/-- A home answered a fetch. -/
def answerFetch (s : EcState) (g : ℕ) (j : EcJoin) (t : UInt8) (resp : BodyResp) : EcState :=
  match resp with
  | .get payload =>
    let taken := assemblyTakeShard C net s g j t payload
    if taken.2 then taken.1
    else scrubFetchCheck C net (taken.1.setJoin g fun j => { j with ack := j.ack + 1 }) g
  | _ => scrubFetchCheck C net (s.setJoin g fun j => { j with fail := j.fail + 1 }) g

/-- A member's answer, for the join that asked (`apply_join_response`). -/
def applyJoinResponse (s : EcState) (g : ℕ) (j : EcJoin) (t : UInt8) (resp : BodyResp) : EcState :=
  match j.kind with
  | .put => answerPut s g j resp
  | .get => answerGet C net s g j t resp
  | .head => answerHead C net s g j resp
  | .delete => answerDelete s g j resp
  | .scrubScan => answerScan C net s g resp
  | .scrubIdent => scrubApplyIdent C net (s.freeJoin g) j.digest resp
  | .scrubProbe => answerProbe C net s g j t resp
  | .scrubFetch => answerFetch C net s g j t resp
  | .scrubRepair | .scrubCleanup => s.freeJoin g

/-- A ticket was spent: its answer goes to its join, if that is still in hand
(`answer_join`). -/
def answerJoin (s : EcState) (g : ℕ) (t : UInt8) (resp : BodyResp) : EcState :=
  match s.io.join? g with
  | none => s
  | some j => applyJoinResponse C net s g j t resp

/-! ## Events -/

/-- What the router meets. -/
inductive EcEvent where
  | fleet (members : List UInt8)
  | request (cid : UInt32) (req : BodyReq)
  /-- An upstream request too large to take. -/
  | oversize (cid : UInt32)
  | answer (t : UInt8) (cid : ℕ) (resp : BodyResp)
  /-- A member's answer too large to take. -/
  | oversizeAnswer (t : UInt8) (cid : ℕ)
  | expire (cid : ℕ)
  | scrub
deriving DecidableEq

/-- A request, by its opcode. -/
def handleRequest (s : EcState) (req : BodyReq) : EcState :=
  match req with
  | .put body => handlePut C net s body
  | .get name => handleGet C net s name
  | .head name => handleHead C net s name
  | .delete name => handleDelete C net s name
  | _ => s.emit s.upCid (.nak errBadReq)

/-- The ticket an event spends, and what it is answered. -/
def EcEvent.spends {J : Type} (io : Fanout UInt8 BodyReq J) :
    EcEvent → Option (Fanout.Ticket UInt8 × Fanout UInt8 BodyReq J × BodyResp)
  | .answer t cid resp => (io.settle t cid).map fun (k, io) => (k, io, resp)
  | .oversizeAnswer t cid => (io.settle t cid).map fun (k, io) => (k, io, .nak errTooLarge)
  | .expire cid => (io.lapse cid).map fun (k, io) => (k, io, .nak errIo)
  | _ => none

/-- Meet an event. -/
def ecStep (s : EcState) (e : EcEvent) : EcState :=
  match e with
  | .fleet members => { s with fleet := members.take maxFleet }
  | .request cid req => handleRequest C net { s with upCid := cid } req
  | .oversize cid => s.emit cid (.nak errTooLarge)
  | .scrub => scrubKick C net s
  | .answer .. | .oversizeAnswer .. | .expire _ =>
    match e.spends s.io with
    | none => s
    | some (k, io, resp) => answerJoin C net { s with io := io } k.join k.peer resp

end Router

end Loam

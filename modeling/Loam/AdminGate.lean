import Loam.AdminScope
import Loam.Lib.Run
import Mathlib.Logic.Function.Basic

/-!
# The admin gate

The gate stands between clients and the admin router (`admin_gate_body.rs`). A
client is a connection of the network or a session of a link; the gate holds a
slot for each, forwards what it admits under a correlation id of its own, and
sends the router's answer to the session that asked, under the client's id.
There is one outbox: while an answer is owed, nothing else is read but the
records of peer identities.

The events are the passes of the source's loops: one record read, one frame
served, one write offered to a channel. A step of the module is a sequence of
them; here they may come in any order, and what a channel takes of a write is
up to the channel.

`next_incarnation` and the number of a slot are kept as they were counted; the
source keeps 32 bits of them, and compares these (`live`). Beside the source's
state a run notes what was asked, what was answered and each byte that went out,
with the session that held its address at that moment.
-/

namespace Loam.AdminGate

open Slices

/-! ## Sessions -/

/-- Where an answer is sent. -/
inductive Addr where
  | net (conn : UInt16)
  | link (l : ℕ) (session : UInt32)
deriving DecidableEq

/-- Where a session lives: the network table, or the link table. -/
inductive Who where
  | net (i : ℕ)
  | link (j : ℕ)
deriving DecidableEq

/-- What one session may do, with the presentations its grants came by. -/
structure SessionAuth where
  grants : List (Bytes × Grant) := []
  streams : List UInt8 := []
  /-- The identity lease holders are bound to. -/
  id : Bytes := []
  bound : Bool := false
deriving DecidableEq

/-- What its requests are authorised by. -/
def SessionAuth.toAuth (a : SessionAuth) : Auth := ⟨a.grants.map Prod.snd, a.streams, a.id⟩

/-- A slot of the network table. -/
structure NetSession where
  inUse : Bool := false
  /-- The transport has announced the session; before that the slot only holds an
  identity that came first. -/
  accepted : Bool := false
  closing : Bool := false
  conn : UInt16 := 0
  gen : UInt16 := 0
  /-- Another for each session the slot is opened for. -/
  incarnation : ℕ := 0
  auth : SessionAuth := {}
  rx : Bytes := []
deriving DecidableEq

/-- A slot of the link table. -/
structure LinkSession where
  inUse : Bool := false
  link : ℕ := 0
  session : UInt32 := 0
  incarnation : ℕ := 0
  auth : SessionAuth := {}
deriving DecidableEq

/-- The session is over: its grants die. -/
def NetSession.ended (s : NetSession) : NetSession := { s with inUse := false, auth := {}, rx := [] }

/-- See `NetSession.ended`. -/
def LinkSession.ended (s : LinkSession) : LinkSession := { s with inUse := false, auth := {} }

/-- The address and the number of the session a slot holds. -/
def NetSession.held (s : NetSession) : Option (Addr × ℕ) :=
  if s.inUse then some (.net s.conn, s.incarnation) else none

/-- See `NetSession.held`. -/
def LinkSession.held (s : LinkSession) : Option (Addr × ℕ) :=
  if s.inUse then some (.link s.link s.session, s.incarnation) else none

/-! ## What is asked and answered -/

/-- A frame that was handled: where it came from, the session that held that
address, and the correlation id it carries. -/
structure Ask where
  addr : Addr
  session : Option ℕ
  cid : Option Bytes
deriving DecidableEq

/-- An answer: the number of the frame it answers, and its bytes. -/
structure Answer where
  request : ℕ
  ask : Ask
  bytes : Bytes
deriving DecidableEq

/-- A byte on its way: where to, who held that address when it was sent, and the
number of the frame it answers. -/
structure SentByte where
  addr : Addr
  holder : Option ℕ
  request : ℕ
  byte : UInt8
deriving DecidableEq

/-- The bytes of an answer, to the session that asked. -/
def Answer.due (x : Answer) : List SentByte :=
  x.bytes.map fun b => ⟨x.ask.addr, x.ask.session, x.request, b⟩

/-- A request that is forwarded and not answered. -/
structure Pending where
  who : Who
  incarnation : ℕ
  gateCid : UInt32
  clientCid : UInt32
  op : UInt8
  request : ℕ
  ask : Ask
deriving DecidableEq

/-- The answer owed: where it goes, its bytes, and how many are sent. -/
structure Outbox where
  addr : Addr
  buf : Bytes
  sent : ℕ
  /-- The connection is closed once the answer has gone out. -/
  closeAfter : Bool
  request : ℕ
  ask : Ask
deriving DecidableEq

/-- The gate. -/
structure Gate where
  net : List NetSession
  links : List LinkSession
  pending : List Pending
  nextCid : UInt32
  /-- How many sessions were opened (`next_incarnation`). -/
  opened : ℕ
  req : Bytes
  out : Option Outbox
  /-- The session last opened at an address. -/
  holder : Addr → Option ℕ
  asked : List Ask
  answers : List Answer
  sent : List SentByte

/-! ## The capability frames -/

/-- What the gate uses of the capability wire, which is outside this repository. -/
structure CapWire where
  present : UInt8
  withdraw : UInt8
  answer : UInt8
  /-- The longest frame a client may send. -/
  frameMax : ℕ
  unauthenticated : UInt8
  refused : UInt8
  grantsFull : UInt8
  /-- The grant a chain proves, or why it does not. -/
  verify : Bytes → Option Clock → Except UInt8 Grant
  /-- The grants with one more, while there is room. -/
  insert : List (Bytes × Grant) → Bytes → Grant → Option (List (Bytes × Grant))
  without : List (Bytes × Grant) → Bytes → List (Bytes × Grant)
  granted : Bytes → Grant → Bytes
  refusal : Bytes → UInt8 → UInt8 → Bytes

/-- What the gate is built with. -/
structure Config where
  limits : Limits
  contract : Contract
  cap : CapWire
  bodyObject : Bytes
  port : UInt16
  netSessions : ℕ
  linkSessions : ℕ
  maxPending : ℕ
  /-- There is a correlation id for each, and one to spare. -/
  pending_fits : maxPending + 1 < 2 ^ 32
  rxMax : ℕ
  /-- The data of one write to the network, at most. -/
  maxCmdData : ℕ
  idMax : ℕ
  linkOut : ℕ → Bool

variable (cfg : Config)

/-- Is the byte the head of a capability frame? -/
def isCapFrame (b : UInt8) : Bool := b == cfg.cap.present || b == cfg.cap.withdraw

/-- The header of a capability frame: its kind, and the length of its payload. -/
def capHdr : ℕ := 3

/-- A capability answer (`cap_answer`). -/
def capAnswer (payload : Bytes) : Bytes := cfg.cap.answer :: leBytes 2 payload.length ++ payload

/-- What a frame leads to. -/
inductive Outcome where
  | ends
  | quiet
  | answer (bytes : Bytes)
  | forward (frame : Bytes)
deriving DecidableEq

/-- What is read while a frame is handled: the clock, once more for a lease, and
whether the router takes the request at once. -/
structure FrameIo where
  clock : Option Clock
  leaseClock : Option Clock
  requestTook : Bool
deriving DecidableEq

/-- A presentation: verify the chain and record the grant (`present`). -/
def present (c : Option Clock) (a : SessionAuth) (p : Bytes) : SessionAuth × Outcome :=
  if p.length < 4 then (a, .ends)
  else if ¬ a.bound then
    (a, .answer (capAnswer cfg (cfg.cap.refusal (p.take 4) cfg.cap.unauthenticated 0)))
  else match cfg.cap.verify (p.drop 4) c with
    | .error r => (a, .answer (capAnswer cfg (cfg.cap.refusal (p.take 4) cfg.cap.refused r)))
    | .ok g => match cfg.cap.insert a.grants (p.take 4) g with
      | some grants =>
        ({ a with grants := grants }, .answer (capAnswer cfg (cfg.cap.granted (p.take 4) g)))
      | none => (a, .answer (capAnswer cfg (cfg.cap.refusal (p.take 4) cfg.cap.grantsFull 0)))

/-- Handle one whole frame (`handle_frame`): a presentation, a withdrawal, or a
request. -/
def handleFrame (io : FrameIo) (a : SessionAuth) (frame : Bytes) : SessionAuth × Outcome :=
  if frame.getD 0 0 = cfg.cap.present then present cfg io.clock a (frame.drop capHdr)
  else if frame.getD 0 0 = cfg.cap.withdraw then
    if (frame.drop capHdr).length ≠ 4 then (a, .ends)
    else ({ a with grants := cfg.cap.without a.grants (frame.drop capHdr) }, .quiet)
  else
    let (auth, answer) := gateRequest cfg.limits cfg.contract cfg.bodyObject a.toAuth io.clock
      io.leaseClock frame
    let a := { a with streams := auth.streams }
    match answer with
    | .closed => (a, .ends)
    | .refused => (a, .answer (refusal frame admStatusForbidden))
    | .forwarded f => (a, .forward f)

/-- The correlation id of a request. A capability frame has its presentation in
that place. -/
def askCid (frame : Bytes) : Option Bytes :=
  if isCapFrame cfg (frame.getD 0 0) ∨ frame.length < 5 then none else some (slice frame 1 4)

/-- What the front of a session's bytes is. -/
inductive Front where
  | more
  | lost
  | unnamed
  | frame (n : ℕ)
deriving DecidableEq

/-- The front of a session's bytes. -/
def front (rx : Bytes) : Front :=
  if isCapFrame cfg (rx.getD 0 0) then
    if rx.length < capHdr then .more
    else if cfg.cap.frameMax < capHdr + num rx 1 2 then .lost
    else .frame (capHdr + num rx 1 2)
  else match requestLen rx with
    | .len n => if cfg.rxMax < n then .lost else .frame n
    | .truncated => .more
    | .badOpcode => .unnamed

/-- Is the record exactly one frame? -/
def whole (frame : Bytes) : Bool :=
  if isCapFrame cfg (frame.getD 0 0) then
    decide (capHdr ≤ frame.length) && capHdr + num frame 1 2 == frame.length
  else requestLen frame == .len frame.length

/-- The answer to a session of a link that the table cannot hold
(`refuse_unsessioned`): a withdrawal has none. -/
def unsessioned (frame : Bytes) : Option Bytes :=
  if frame.head? = some cfg.cap.present ∧ capHdr + 4 ≤ frame.length then
    some (capAnswer cfg (cfg.cap.refusal (slice frame 3 4) cfg.cap.grantsFull 0))
  else if frame.head? = some cfg.cap.withdraw then none
  else some (refusal frame admStatusBusy)

/-! ## Writes -/

/-- What a write to the network has in front of its data: the command, its length and
the connection. -/
def sendHdr : ℕ := 5

/-- What a record of a link has in front: the session. -/
def linkHdr : ℕ := 4

/-- The data of the next write of the owed answer. -/
def Outbox.piece (o : Outbox) : Bytes :=
  match o.addr with
  | .net _ => (o.buf.drop o.sent).take cfg.maxCmdData
  | .link _ _ => o.buf

/-- What it has in front. -/
def Outbox.hdr (o : Outbox) : ℕ :=
  match o.addr with
  | .net _ => sendHdr
  | .link _ _ => linkHdr

/-! ## The session tables -/

/-- The identity of a session of a link: the link it is on. -/
def linkAuth (l : ℕ) : SessionAuth :=
  { id := [108, 105, 110, 107, UInt8.ofNat l], bound := true }

namespace Gate

variable (g : Gate)

/-- The address and the number of the session in a slot, if one is. -/
def slot : Who → Option (Addr × ℕ)
  | .net i => (g.net[i]?).bind NetSession.held
  | .link j => (g.links[j]?).bind LinkSession.held

/-- The address of the session a request came from, if it is there still
(`net_live`, `link_live`): 32 bits of the numbers are compared. -/
def live (p : Pending) : Option Addr :=
  match g.slot p.who with
  | none => none
  | some (a, k) => if k % 2 ^ 32 = p.incarnation % 2 ^ 32 then some a else none

/-- Nothing is owed, to the router or to a client. -/
def idle : Bool := g.req.isEmpty && g.out.isNone

/-- The slot of a connection and generation (`net_find`). -/
def netFind (conn gen : UInt16) : Option ℕ :=
  g.net.findIdx? fun s => s.inUse && s.conn == conn && s.gen == gen

/-- The slot of the session that was accepted on a connection (`net_by_conn`). -/
def netByConn (conn : UInt16) : Option ℕ :=
  g.net.findIdx? fun s => s.inUse && s.accepted && s.conn == conn

/-- The slot of a link's session. -/
def linkFind (l : ℕ) (session : UInt32) : Option ℕ :=
  g.links.findIdx? fun s => s.inUse && s.link == l && s.session == session

/-- A slot for a session of an earlier generation of the connection is stale: the
transport has moved on. -/
def dropStale (conn gen : UInt16) : Gate :=
  { g with
    net := g.net.map fun s => if s.inUse && s.conn == conn && s.gen != gen then s.ended else s
    holder := Function.update g.holder (.net conn) none }

/-- A slot for a new session of a connection (`net_alloc`). -/
def netAlloc (conn gen : UInt16) : Gate × Option ℕ :=
  let g := g.dropStale conn gen
  match g.net.findIdx? fun s => !s.inUse with
  | none => (g, none)
  | some i =>
    ({ g with
        net := g.net.set i { inUse := true, conn := conn, gen := gen, incarnation := g.opened + 1 }
        opened := g.opened + 1
        holder := Function.update g.holder (.net conn) (some (g.opened + 1)) }, some i)

/-- The slot of a connection and generation, a new one if there is none. -/
def netFor (conn gen : UInt16) : Gate × Option ℕ :=
  match g.netFind conn gen with
  | some i => (g, some i)
  | none => g.netAlloc conn gen

/-- A slot for a new session of a link (`link_alloc`). -/
def linkAlloc (l : ℕ) (session : UInt32) : Gate × Option ℕ :=
  match g.links.findIdx? fun s => !s.inUse with
  | none => (g, none)
  | some j =>
    ({ g with
        links := g.links.set j ⟨true, l, session, g.opened + 1, linkAuth l⟩
        opened := g.opened + 1
        holder := Function.update g.holder (.link l session) (some (g.opened + 1)) }, some j)

/-- Forget a network session (`end_net`). -/
def endNet (i : ℕ) : Gate := { g with net := g.net.modify i NetSession.ended }

/-- Forget a session of a link. -/
def endLink (j : ℕ) : Gate := { g with links := g.links.modify j LinkSession.ended }

/-! ## To the router and to the clients -/

/-- The answer to a frame is owed (`stage_dest` and what follows it). -/
def stage (addr : Addr) (request : ℕ) (ask : Ask) (buf : Bytes) (closeAfter : Bool) : Gate :=
  { g with
    out := some ⟨addr, buf, 0, closeAfter, request, ask⟩
    answers := g.answers ++ [⟨request, ask, buf⟩] }

/-- The next correlation id that no request in flight has, and not 0. -/
def freshCid : UInt32 :=
  (((List.range (g.pending.length + 2)).map fun i => g.nextCid + 1 + UInt32.ofNat i).find?
    fun cid => cid != 0 && !(g.pending.map Pending.gateCid).contains cid).getD 0

/-- Forward an admitted request under a correlation id of the gate's (`forward`),
or refuse it where too many are in flight. -/
def forward (who : Who) (addr : Addr) (incarnation request : ℕ) (ask : Ask) (frame : Bytes)
    (took : Bool) : Gate :=
  if cfg.maxPending ≤ g.pending.length then
    g.stage addr request ask (refusal frame admStatusBusy) false
  else
    let cid := g.freshCid
    { g with
      nextCid := cid
      pending := g.pending ++
        [⟨who, incarnation, cid, UInt32.ofNat (num frame 1 4), frame.getD 0 0, request, ask⟩]
      req := if took then [] else overwrite frame 1 (leBytes 4 cid.toNat) }

/-- Offer the request owed to the router (`flush_request`). -/
def flushRequest (took : Bool) : Gate := if took then { g with req := [] } else g

/-- Handle a frame of a session: note that it is asked, and do what it leads to. The
session as it is then, and whether it goes on. -/
def handle (who : Who) (addr : Addr) (incarnation : ℕ) (a : SessionAuth) (frame : Bytes)
    (io : FrameIo) : Gate × SessionAuth × Bool :=
  let ask : Ask := ⟨addr, some incarnation, askCid cfg frame⟩
  let n := g.asked.length
  let g := { g with asked := g.asked ++ [ask] }
  match handleFrame cfg io a frame with
  | (a, .ends) => (g, a, false)
  | (a, .quiet) => (g, a, true)
  | (a, .answer b) => (g.stage addr n ask b false, a, true)
  | (a, .forward f) => (g.forward cfg who addr incarnation n ask f io.requestTook, a, true)

/-! ## The network side -/

/-- The transport has told the peer of a session (`read_identities`). It may tell of a
session before it announces it. -/
def readIdentity (conn gen : UInt16) (fingerprint : Option Bytes) : Gate :=
  match g.netFor conn gen with
  | (g, none) => g
  | (g, some i) =>
    { g with
      net := g.net.modify i fun s =>
        { s with
          auth := match fingerprint with
            | some fp => { s.auth with id := fp.take cfg.idMax, bound := true }
            | none => { s.auth with bound := false } } }

/-- `MSG_ACCEPTED`. -/
def accepted (conn localPort gen : UInt16) : Gate :=
  if ¬ g.idle ∨ localPort ≠ cfg.port then g
  else match g.netFor conn gen with
    | (g, none) => g
    | (g, some i) => { g with net := g.net.modify i fun s => { s with accepted := true } }

/-- `MSG_DATA`: the bytes wait to be served. More than a session may hold, and it is
closed. -/
def data (conn : UInt16) (bytes : Bytes) : Gate :=
  if ¬ g.idle then g
  else match g.netByConn conn with
    | none => g
    | some i =>
      match g.net[i]? with
      | none => g
      | some s =>
        if s.closing then g
        else if cfg.rxMax < s.rx.length + bytes.length then g.endNet i
        else { g with net := g.net.modify i fun s => { s with rx := s.rx ++ bytes } }

/-- `MSG_CLOSED`. -/
def closed (conn : UInt16) : Gate :=
  if ¬ g.idle then g
  else match g.netByConn conn with
    | none => g
    | some i => g.endNet i

/-- Serve one frame at the front of a session's bytes (a pass of `serve_net`). A byte
that names no request is refused under the correlation id behind it, and the
connection is closed. -/
def serve (i : ℕ) (io : FrameIo) : Gate :=
  match g.net[i]? with
  | none => g
  | some s =>
    if ¬ (s.inUse ∧ s.accepted) ∨ s.rx = [] ∨ ¬ g.idle then g
    else match front cfg s.rx with
      | .more => g
      | .lost => g.endNet i
      | .unnamed =>
        if s.rx.length < 5 then g
        else
          let ask : Ask := ⟨.net s.conn, some s.incarnation, askCid cfg s.rx⟩
          let n := g.asked.length
          let g := { g with asked := g.asked ++ [ask] }
          (g.stage (.net s.conn) n ask (refusal (s.rx.take 5) admStatusForbidden) true).endNet i
      | .frame n =>
        if s.rx.length < n then g
        else
          let (g, a, keep) := g.handle cfg (.net i) (.net s.conn) s.incarnation s.auth (s.rx.take n) io
          if keep then
            { g with net := g.net.modify i fun s => { s with auth := a, rx := s.rx.drop n } }
          else g.endNet i

/-! ## The links -/

/-- Handle a record of a session of a link that is in a slot. A record that is not
exactly one frame ends the session, one that names no request after a refusal. -/
def linkFrame (j : ℕ) (frame : Bytes) (io : FrameIo) : Gate :=
  match g.links[j]? with
  | none => g
  | some s =>
    if whole cfg frame then
      let (g, a, keep) := g.handle cfg (.link j) (.link s.link s.session) s.incarnation s.auth frame io
      if keep then { g with links := g.links.modify j fun s => { s with auth := a } }
      else g.endLink j
    else if ¬ isCapFrame cfg (frame.getD 0 0) ∧ 5 ≤ frame.length ∧ requestLen frame = .badOpcode then
      let ask : Ask := ⟨.link s.link s.session, some s.incarnation, askCid cfg frame⟩
      let n := g.asked.length
      let g := { g with asked := g.asked ++ [ask] }
      (g.stage (.link s.link s.session) n ask (refusal frame admStatusForbidden) false).endLink j
    else g.endLink j

/-- One record of a link (a pass of `read_link`). An empty frame ends its session. -/
def record (l : ℕ) (rec : Bytes) (io : FrameIo) : Gate :=
  if ¬ g.idle ∨ rec.length < 4 then g
  else
    let session := UInt32.ofNat (num rec 0 4)
    if rec.length = 4 then
      match g.linkFind l session with
      | none => g
      | some j => g.endLink j
    else match g.linkFind l session with
      | some j => g.linkFrame cfg j (rec.drop 4) io
      | none =>
        match g.linkAlloc l session with
        | (g, some j) => g.linkFrame cfg j (rec.drop 4) io
        | (g, none) =>
          let ask : Ask := ⟨.link l session, g.holder (.link l session), askCid cfg (rec.drop 4)⟩
          let n := g.asked.length
          let g := { g with asked := g.asked ++ [ask] }
          match unsessioned cfg (rec.drop 4) with
          | none => g
          | some b => g.stage (.link l session) n ask b false

/-! ## Answers -/

/-- The request in flight that a record of the router answers. -/
def answering (rec : Bytes) : Option Pending :=
  if rec.length < 5 then none
  else g.pending.find? fun p => p.gateCid == UInt32.ofNat (num rec 1 4)

/-- The session of a slot has opened a stream. -/
def ownStream (pfid : UInt8) : Who → Gate
  | .net i => { g with net := g.net.modify i fun s =>
      { s with auth := { s.auth with streams := pfid :: s.auth.streams } } }
  | .link j => { g with links := g.links.modify j fun s =>
      { s with auth := { s.auth with streams := pfid :: s.auth.streams } } }

/-- One answer of the router (a pass of `read_router`), with the client's
correlation id in place of the gate's. -/
def readRouter (rec : Bytes) : Gate :=
  if g.out.isSome then g
  else match g.answering rec with
    | none => g
    | some p =>
      let bytes := overwrite rec 1 (leBytes 4 p.clientCid.toNat)
      let g := { g with pending := g.pending.eraseP (·.gateCid == p.gateCid) }
      match g.live p with
      | none => g
      | some a =>
        let g := match decodePutFileOpenAck bytes with
          | some (status, pfid) =>
            if p.op = admPutFileOpen ∧ status = admStatusOk then g.ownStream pfid p.who else g
          | none => g
        g.stage a p.request p.ask bytes false

/-- A write of data is offered, and the channel takes some of it: the bytes of the
answer among them are on their way. -/
def wrote (o : Outbox) (took : ℕ) : Gate :=
  { g with
    sent := g.sent ++ ((o.piece cfg).take (took - o.hdr)).map fun b =>
      ⟨o.addr, g.holder o.addr, o.request, b⟩ }

/-- Offer one write of the owed answer (a pass of `flush_answer`): it counts only when
the channel takes it whole. `took` is what the channel has room for. -/
def flushAnswer (took : ℕ) : Gate :=
  match g.out with
  | none => g
  | some o =>
    match o.addr with
    | .net _ =>
      if o.sent < o.buf.length then
        if (o.piece cfg).length + o.hdr ≤ took then
          let o' := { o with sent := o.sent + (o.piece cfg).length }
          { g.wrote cfg o took with
            out := if o'.sent < o'.buf.length ∨ o'.closeAfter then some o' else none }
        else g.wrote cfg o took
      else if o.closeAfter ∧ took < sendHdr then g
      else { g with out := none }
    | .link l _ =>
      if ¬ cfg.linkOut l then { g with out := none }
      else if (o.piece cfg).length + o.hdr ≤ took then
        { g.wrote cfg o took with out := none }
      else g.wrote cfg o took

end Gate

/-! ## Runs -/

/-- What happens at the gate. -/
inductive Event where
  /-- The record of a peer's identity is read. -/
  | identity (conn gen : UInt16) (fingerprint : Option Bytes)
  | router (rec : Bytes)
  | accepted (conn localPort gen : UInt16)
  | data (conn : UInt16) (bytes : Bytes)
  | closed (conn : UInt16)
  | serve (i : ℕ) (io : FrameIo)
  | record (l : ℕ) (rec : Bytes) (io : FrameIo)
  | flushRequest (took : Bool)
  /-- A write of the answer owed is offered to its channel. -/
  | flushAnswer (took : ℕ)

/-- One event. -/
def step (g : Gate) : Event → Gate
  | .identity conn gen fingerprint => g.readIdentity cfg conn gen fingerprint
  | .router rec => g.readRouter rec
  | .accepted conn localPort gen => g.accepted cfg conn localPort gen
  | .data conn bytes => g.data cfg conn bytes
  | .closed conn => g.closed conn
  | .serve i io => g.serve cfg i io
  | .record l rec io => g.record cfg l rec io
  | .flushRequest took => g.flushRequest took
  | .flushAnswer took => g.flushAnswer cfg took

/-- The gate as it is built. -/
def init : Gate where
  net := List.replicate cfg.netSessions {}
  links := List.replicate cfg.linkSessions {}
  pending := []
  nextCid := 0
  opened := 0
  req := []
  out := none
  holder := fun _ => none
  asked := []
  answers := []
  sent := []

/-- The gate after a run of events. -/
def reached (es : List Event) : Gate := Run.run (step cfg) (init cfg) es

end Loam.AdminGate

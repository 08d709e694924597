import Loam.AdminFraming
import Loam.NetFrames

/-!
# A client of the admin plane

A client reaches the gate over a link, record by record, or over the network, as
a stream (`admin_client.rs`). It presents its chains one by one, waits for the
answer to each, and is then ready for requests. What the gate sends is put
together in a buffer: `recv` handles the answers to presentations itself and
hands out the answers to requests, whole, each held until `take`. The buffer has
room for an answer, and behind it for one record of the link or one fragment of
the network, and more is read only while there is that room.

Beside the client a run notes the bytes that came for it, the records it is done
with, the answers its caller has released, and how many chains it has presented.
-/

namespace Loam.AdminClient

open Slices BridgeWorld

/-- What a client uses of the wires outside this repository. -/
structure ClientWire where
  limits : Limits
  net : NetWire
  /-- The kinds of a capability frame: a presentation, and the answer to one. -/
  present : UInt8
  answer : UInt8
  /-- The payload of an answer that refuses, and of one that grants. -/
  answerFixed : ℕ
  answerGranted : ℕ
  granted : UInt8
  unauthenticated : UInt8
  grantsFull : UInt8
  /-- An answer to a presentation is no longer than the longest answer to a request. -/
  granted_fits : netHdr + answerGranted ≤ responseMax

/-- How a client stands. -/
inductive Status where
  | connecting
  | presenting
  | ready
  | failed
deriving DecidableEq

/-- Why a client failed. -/
inductive Why where
  | none
  /-- The connection could not be made, or closed. -/
  | transport
  | refused
  /-- The gate saw no authenticated peer. -/
  | unauthenticated
  /-- The session holds as many grants as it may. -/
  | grantsFull
  /-- The stream carried something no answer can be. -/
  | protocol
  /-- Setup did not finish in time. -/
  | timeout
deriving DecidableEq

/-- How long a setup may take, and the wait before another dial, in milliseconds. -/
def setupTimeoutMs : ℕ := 10000
def dialRetryMs : ℕ := 20

/-- A client. -/
structure Client where
  link : Bool
  status : Status
  why : Why := .none
  refusal : UInt8 := 0
  session : UInt32 := 0
  tag : Bytes := []
  /-- Another owner reads the transport and feeds this client. -/
  shared : Bool := false
  conn : UInt16 := 0
  connected : Bool := false
  dialed : Bool := false
  /-- 1 until the next poll schedules the redial, 2 until `redialAtMs`. -/
  redial : ℕ := 0
  redialAtMs : ℕ := 0
  sinceMs : ℕ := 0
  chains : List Bytes := []
  /-- The next chain to present, and whether its answer is awaited. -/
  presenting : ℕ := 0
  awaiting : Bool := false
  /-- What is left to send of the frame handed over. -/
  tx : Bytes := []
  rx : Bytes := []
  /-- The length of the answer at the front that the caller holds. -/
  held : ℕ := 0
deriving DecidableEq

/-- A client over a link (`init_link`), that has loaded its chains. -/
def Client.ofLink (session : UInt32) (chains : List Bytes) (nowMs : ℕ) : Client :=
  { link := true, status := .presenting, session := session, chains := chains, sinceMs := nowMs }

/-- A client over the network (`init_net`), perhaps over a transport that it shares. -/
def Client.ofNet (tag : Bytes) (shared : Bool) (chains : List Bytes) (nowMs : ℕ) : Client :=
  { link := false, status := .connecting, tag := tag, shared := shared, chains := chains
    sinceMs := nowMs }

/-- A client with what is around it, and what a run notes. -/
structure World where
  c : Client
  net : NetIn := {}
  linkIn : List Bytes := []
  /-- What the transport sent, and what was handed on of it. -/
  arrived : List ClustorFrame := []
  handed : List ClustorFrame := []
  came : Bytes := []
  done : List Bytes := []
  taken : List Bytes := []
  made : ℕ := 0
deriving DecidableEq

variable (W : ClientWire)

/-- The bytes held of the gate's answers (`RX_MAX`). -/
def rxMax : ℕ := 4 + responseMax + W.net.maxFragment

/-- The longest answer to a presentation, framed. -/
def capAnswerFrameMax : ℕ := netHdr + W.answerGranted

/-- Is the record an answer to a presentation? -/
def isCapAnswer (f : Bytes) : Bool := f.head? == some W.answer

namespace Client

variable (c : Client)

def fail (why : Why) : Client := { c with status := .failed, why := why }

/-- The answer to a presentation (`on_cap_answer`). -/
def onCapAnswer (p : Bytes) : Client :=
  if ¬ c.awaiting ∨ p.length < W.answerFixed then c.fail .protocol
  else
    let c := { c with awaiting := false }
    if p.getD 4 0 = W.granted then { c with presenting := c.presenting + 1 }
    else if p.getD 4 0 = W.unauthenticated then c.fail .unauthenticated
    else if p.getD 4 0 = W.grantsFull then c.fail .grantsFull
    else { c with refusal := p.getD 5 0 }.fail .refused

def consume (n : ℕ) : Client := { c with rx := c.rx.drop n }

/-- What a pass of `recv` comes to. -/
inductive Pass where
  /-- Nothing whole, or the client has failed. -/
  | stop
  | handled (f : Bytes)
  | answer (f : Bytes)

/-- A pass of `recv`, where no answer is held. -/
def recvPass : Client × Pass :=
  match c.rx with
  | [] => (c, .stop)
  | b :: _ =>
    if b = W.answer then
      if c.rx.length < netHdr then (c, .stop)
      else
        let n := netHdr + num c.rx 1 2
        if capAnswerFrameMax W < n then (c.fail .protocol, .stop)
        else if c.rx.length < n then (c, .stop)
        else ((c.onCapAnswer W (slice c.rx netHdr (num c.rx 1 2))).consume n, .handled (c.rx.take n))
    else match responseLen c.rx with
      | .ok n =>
        if responseMax < n then (c.fail .protocol, .stop)
        else if n ≤ c.rx.length then ({ c with held := n }, .answer (c.rx.take n))
        else (c, .stop)
      | .error e => if e = .truncated then (c, .stop) else (c.fail .protocol, .stop)

/-- Append answer bytes from the transport (`absorb`). -/
def absorb (data : Bytes) : Option Client :=
  if rxMax W < c.rx.length + data.length then none else some { c with rx := c.rx ++ data }

/-- Is there room for a fragment (`has_room`)? -/
def hasRoom : Bool := decide (c.rx.length + W.net.maxFragment ≤ rxMax W)

/-- Is there room for a record of the link? -/
def hasLinkRoom : Bool := decide (c.rx.length + 4 + responseMax ≤ rxMax W)

/-- Stage a frame, enveloped for a link (`stage`). -/
def stage (frame : Bytes) : Client :=
  { c with tx := (if c.link then leBytes 4 c.session.toNat else []) ++ frame }

/-- Offer the staged frame (`flush`): a link takes it whole, the network as much of it
as goes. -/
def flush (sent : ℕ) : Client :=
  if c.link then if c.tx.length ≤ sent then { c with tx := [] } else c
  else if c.connected then { c with tx := c.tx.drop sent } else c

/-- Hand over one whole request (`send`). -/
def send (frame : Bytes) (sent : ℕ) : Client :=
  if c.status = .ready ∧ c.tx = [] ∧ frame.length ≤ requestMax W.limits then
    (c.stage frame).flush sent
  else c

/-- The frame of a presentation. -/
def presentation (i : ℕ) (chain : Bytes) : Bytes :=
  W.present :: leBytes 2 (4 + chain.length) ++ leBytes 4 (i + 1) ++ chain

end Client

namespace World

variable (w : World)

/-- Passes of `recv`, until one does not handle an answer to a presentation. -/
def recvLoop : ℕ → World → World × Option Bytes
  | 0, w => (w, none)
  | n + 1, w =>
    match w.c.recvPass W with
    | (c, .stop) => ({ w with c := c }, none)
    | (c, .answer f) => ({ w with c := c }, some f)
    | (c, .handled f) =>
      let w := { w with c := c, done := w.done ++ [f] }
      if c.status = .failed then (w, none) else recvLoop n w

/-- The next whole admin answer, held until `take` (`recv`). -/
def recv : World × Option Bytes :=
  if w.c.held ≠ 0 then (w, some (w.c.rx.take w.c.held)) else recvLoop W (w.c.rx.length + 1) w

/-- Release the answer that `recv` returned (`take`). -/
def take : World :=
  if w.c.held = 0 then w
  else
    { w with
      c := { w.c with held := 0 }.consume w.c.held
      done := w.done ++ [w.c.rx.take w.c.held]
      taken := w.taken ++ [w.c.rx.take w.c.held] }

/-- While the client presents, what comes is looked at as it comes. -/
def looked : World := if w.c.status = .presenting then (w.recv W).1 else w

/-- A frame of the transport (`net_event`). -/
def netEvent (f : ClustorFrame) : World :=
  if f.1 = W.net.msgConnected ∧ W.net.connectedFixed ≤ f.2.length then
    if (W.net.connectedParts f.2).2 ≠ w.c.tag ∨ w.c.connected then w
    else
      { w with
        c := { w.c with
          conn := (W.net.connectedParts f.2).1
          connected := true
          status := .presenting } }
  else if f.1 = W.net.msgData ∧ 2 < f.2.length then
    if ¬ w.c.connected ∨ connId f.2 ≠ w.c.conn then w
    else match w.c.absorb W (f.2.drop 2) with
      | none => { w with c := w.c.fail .protocol }
      | some c => { w with c := c, came := w.came ++ f.2.drop 2 }.looked W
  else if f.1 = W.net.msgClosed ∧ 2 ≤ f.2.length then
    if w.c.connected ∧ connId f.2 = w.c.conn ∨ ¬ w.c.connected ∧ w.c.dialed ∧ ¬ w.c.shared then
      { w with c := w.c.fail .transport }
    else w
  else if f.1 = W.net.msgError ∧ 2 < f.2.length then
    let (conn, again, tag) := W.net.errorParts f.2
    if ¬ w.c.connected ∧ tag = w.c.tag ∧ again then
      { w with c := { w.c with dialed := false, redial := 1 } }
    else if ¬ w.c.connected ∧ tag = w.c.tag ∨ w.c.connected ∧ conn = w.c.conn then
      { w with c := w.c.fail .transport }
    else w
  else w

/-- Passes of `net_read`, by what the channel gives in each. -/
def netRead : List ℕ → World → World
  | [], w => w
  | k :: ks, w =>
    if ¬ w.c.hasRoom W then w
    else match w.net.read W.net k with
      | .lost => { w with c := w.c.fail .protocol }
      | .empty => w
      | .more s => netRead ks { w with net := s }
      | .frame f s =>
        let w := { w with net := s, handed := w.handed ++ [f] }.netEvent W f
        if w.c.status = .failed then w else netRead ks w

/-- Passes of `link_poll`, over the records that are there. A record of another session
is passed over. -/
def linkPoll : List Bytes → World → World
  | [], w => { w with linkIn := [] }
  | rec :: recs, w =>
    if ¬ w.c.hasLinkRoom W then { w with linkIn := rec :: recs }
    else if rec.length < 4 then { w with c := w.c.fail .protocol, linkIn := recs }
    else if num rec 0 4 ≠ w.c.session.toNat then linkPoll recs w
    else
      linkPoll recs ({ w with
        c := { w.c with rx := w.c.rx ++ rec.drop 4 }
        came := w.came ++ rec.drop 4 }.looked W)

/-- What is read while a client is polled: the time, whether its authority is one that
can be dialed and the dial is taken, what the channel gives in each pass, and how
much of what is owed goes. -/
structure PollIo where
  nowMs : ℕ
  target : Bool
  dialed : Bool
  reads : List ℕ
  sent : ℕ
deriving DecidableEq

/-- Dial the gate (`net_dial`). -/
def netDial (io : PollIo) : World :=
  if ¬ w.c.connected ∧ ¬ w.c.dialed ∧ w.c.redial = 0 then
    if ¬ io.target then { w with c := w.c.fail .transport }
    else if io.dialed then { w with c := { w.c with dialed := true } }
    else w
  else w

/-- Read what came, of the link or of the network. -/
def readIn (io : PollIo) : World :=
  if w.c.link then w.linkPoll W w.linkIn
  else
    let w := w.netDial io
    if w.c.shared ∨ w.c.status = .failed then w else w.netRead W io.reads

/-- Present the next chain, once the answer to the last is in; with none left, the
client is ready. -/
def presentNext : World :=
  if w.c.status = .presenting ∧ ¬ w.c.awaiting ∧ w.c.tx = [] then
    match w.c.chains[w.c.presenting]? with
    | none => { w with c := { w.c with status := .ready } }
    | some chain =>
      { w with
        c := { w.c.stage (Client.presentation W w.c.presenting chain) with awaiting := true }
        made := w.made + 1 }
  else w

/-- The redial, scheduled and due. -/
def redialed (nowMs : ℕ) : World :=
  if w.c.redial = 1 then { w with c := { w.c with redial := 2, redialAtMs := nowMs + dialRetryMs } }
  else if w.c.redial = 2 ∧ w.c.redialAtMs ≤ nowMs then { w with c := { w.c with redial := 0 } }
  else w

/-- Drive the client: dial, present, send what is owed, read what came (`poll`). -/
def poll (io : PollIo) : World :=
  if w.c.status = .failed then w
  else if w.c.status ≠ .ready ∧ setupTimeoutMs < io.nowMs - w.c.sinceMs then
    { w with c := w.c.fail .timeout }
  else
    let w := (((w.redialed io.nowMs).readIn W io).presentNext W)
    { w with c := w.c.flush io.sent }

/-- What happens at a client. -/
inductive Move where
  | arrive (f : ClustorFrame)
  | record (rec : Bytes)
  /-- The owner of a shared transport hands on a frame: it reads one only while its
  clients have room. -/
  | feed (f : ClustorFrame)
  | poll (io : PollIo)
  /-- The caller hands over a request, asks for an answer, or releases the one it
  has. -/
  | send (frame : Bytes) (sent : ℕ)
  | recv
  | take

/-- One move. -/
def step (w : World) : Move → World
  | .arrive f =>
    { w with
      net := { w.net with unread := w.net.unread ++ envelope.enc f }
      arrived := w.arrived ++ [f] }
  | .record rec => { w with linkIn := w.linkIn ++ [rec] }
  | .feed f =>
    if w.c.shared ∧ w.c.hasRoom W ∧ w.c.status ≠ .failed then w.netEvent W f else w
  | .poll io => w.poll W io
  | .send frame sent => { w with c := w.c.send W frame sent }
  | .recv => (w.recv W).1
  | .take => w.take

end World

end Loam.AdminClient

import Loam.Key
import Loam.Lib.Run

/-!
# The commits of a volume's writer

The writer of a volume stages extents in memory and commits them: it asks to begin, puts the
bodies of the extents, the pages of the map that change and its root, and asks to bind the new
root; when the store refuses something it aborts (`loam_volume_body.rs`). One request is in flight
at a time, but for the bodies: each is handed to the admin client as soon as the one before it was,
and their answers are told apart by correlation ids (`bodies_pump`). The client takes a frame only
when it has sent the one before it, so that a hand-off can be refused, and is made again on a
later step.

What the pages of the map hold is not part of this: of the leaf behind an extent a step is told
what the source would find there (`Page`). Reads, writes and fetches are not either; they wait
while a commit is under way.
-/

namespace Loam.VolumeWriter

/-! ## The writer -/

/-- What a resident extent is. -/
inductive SlotState where
  | free
  | clean
  | staged
  | fetching
deriving DecidableEq

/-- A resident extent. -/
structure Extent where
  state : SlotState
  committing : Bool
  idx : ℕ
  digest : Bytes
  data : Bytes
deriving DecidableEq

/-- The exchange in flight. -/
inductive Job where
  | none
  | renew
  | begin
  | bodies
  | leaf
  | putLeaf
  | putRoot
  | commit
  | abort
deriving DecidableEq

/-- How far a commit is. -/
inductive Phase where
  | idle
  | begin
  | bodies
  | leaves
  | root
  | commit
  | abort
deriving DecidableEq

/-- What an answer comes to, once it is decoded and checked. -/
inductive Reply where
  | ok (digest : Bytes)
  | refused (status : UInt8)
  | undecodable
deriving DecidableEq

/-- An answer to one of the requests that the store has, and has not answered. -/
structure Answer where
  which : ℕ
  reply : Reply
deriving DecidableEq

/-- What is found of the leaf behind an extent of a commit. -/
inductive Page where
  /-- Its new page is put already. -/
  | done
  | missing
  /-- Its new page does not encode. -/
  | unencodable
  /-- Its new page is all zeros, and is no body. -/
  | zero
  | page
deriving DecidableEq

/-- What a volume is opened with. -/
structure Config where
  sizeBytes : ℕ
  extentSize : ℕ
  extentShift : ℕ
  depth : ℕ
  ttlMs : ℕ
  /-- The longest extent that is held (`EXTENT_CAP`). -/
  extentCap : ℕ
  /-- The longest request that is built (`IO_CAP`). -/
  ioCap : ℕ

/-- The writer, its client and the store. -/
structure Writer where
  slots : List Extent
  staged : ℕ
  failed : Bool
  job : Job
  commit : Phase
  cursor : ℕ
  nextCid : UInt32
  jobCid : UInt32
  jobAt : ℕ
  /-- The request that is built and not handed over (`io_sent < io_len`). -/
  inHand : Option UInt32
  /-- The puts that were built for bodies and not answered: their ids and slots. -/
  pipe : List (UInt32 × ℕ)
  pipeRefused : Bool
  abandonStatus : UInt8
  /-- Commits that were abandoned, and whether a waiter is still to be told. -/
  abandoned : ℕ
  refused : Bool
  commits : ℕ
  flushWanted : Bool
  beginSince : ℕ
  retryAt : ℕ
  leaseAt : ℕ
  /-- The client has sent what it took: it takes a frame now. -/
  free : Bool
  /-- Whether it sends the next frames that it takes at once, and takes another. -/
  net : List Bool
  /-- The requests that the client took and the store has not answered. -/
  owed : List UInt32
deriving DecidableEq

/-- The client of the admin plane. -/
inductive ClientState where
  | ready
  | waiting
  | failed
deriving DecidableEq

/-- What a step of the module meets. -/
structure Input where
  now : ℕ
  client : ClientState
  /-- The client takes the request of an exchange that is not about bodies. -/
  taken : Bool
  /-- It takes the first put that it is offered, and then the next ones. -/
  free : Bool
  net : List Bool
  /-- The answers that are there when the exchange in flight is looked at. -/
  answers : List Answer
  /-- The answers that are there when a commit goes on to its bodies. -/
  later : List Answer
  pages : List Page
  flush : Bool
deriving DecidableEq

def ackTimeoutMs : ℕ := 10000
def beginPatienceMs : ℕ := 10000
def retryMs : ℕ := 5
def statusBusy : UInt8 := 3
def statusLeaseLost : UInt8 := 7

namespace Writer

variable (g : Config) (w : Writer)

/-! ## The exchange -/

/-- The device fails: what was staged is dropped (`fail`). -/
def fail : Writer :=
  if w.failed then w
  else
    { w with
      failed := true
      job := .none
      commit := .idle
      staged := 0
      slots := w.slots.map fun e => { e with state := .free, committing := false } }

def takeCid : Writer :=
  { w with jobCid := w.nextCid, nextCid := if w.nextCid + 1 = 0 then 1 else w.nextCid + 1 }

/-- Hand the request that is built to the client, if the client takes it. -/
def hand : Writer :=
  match w.inHand with
  | none => w
  | some cid =>
    if w.free then
      { w with
        inHand := none
        owed := w.owed ++ [cid]
        free := w.net.headD true
        net := w.net.tail }
    else w

/-- Start the exchange of a request. -/
def issue (job : Job) (i : Input) : Writer :=
  let w := w.takeCid
  { w with job := job, inHand := some w.jobCid, jobAt := i.now, free := i.taken }.hand

def timeoutCheck (now : ℕ) : Writer := if ackTimeoutMs < now - w.jobAt then w.fail else w

/-! ## The end of a commit -/

def beginAbort : Writer := { w with commit := .abort }

/-- The commit is abandoned; its writes stay staged. -/
def giveUp : Writer :=
  { w with
    abandoned := w.abandoned + 1
    refused := true
    slots := w.slots.map fun e => { e with committing := false }
    commit := .idle
    flushWanted := false }

/-- The new root is bound. -/
def apply : Writer :=
  { w with
    slots := w.slots.map fun e =>
      if e.committing then { e with state := .clean, committing := false } else e
    staged := 0
    commit := .idle
    flushWanted := false
    commits := w.commits + 1 }

/-! ## The bodies -/

def extentLen (idx : ℕ) : ℕ := min (g.sizeBytes - idx <<< g.extentShift) g.extentSize

/-- The bytes of an extent that its body has. -/
def bodyOf (e : Extent) : Bytes := e.data.take (min (extentLen g e.idx) g.extentCap)

/-- Offer the put that is in hand, unless one was refused. -/
def offered : Writer := if w.pipeRefused then w else w.hand

/-- Pass the slot at the cursor: put its body, if it has one in this commit. -/
def passSlot (e : Extent) : Writer :=
  if e.committing then
    if (bodyOf g e).all (· == 0) then
      { w with
        slots := w.slots.modify w.cursor fun e => { e with digest := List.replicate 32 0 }
        cursor := w.cursor + 1 }
    else
      let w := w.takeCid
      if g.ioCap < 9 + min (extentLen g e.idx) g.extentCap then { w with pipeRefused := true }
      else
        { w with
          pipe := w.pipe ++ [(w.jobCid, w.cursor)]
          cursor := w.cursor + 1
          inHand := some w.jobCid }.hand
  else { w with cursor := w.cursor + 1 }

/-- Send: the put in hand, then the next, as long as the client takes them. -/
def sendBodies : List Extent → Writer → Writer
  | [], w => w.offered
  | e :: rest, w =>
    if w.offered.pipeRefused ∨ w.offered.inHand ≠ none then w.offered
    else sendBodies rest (w.offered.passSlot g e)

/-- The answer to the put with this id and slot. -/
def answered (now : ℕ) (cid : UInt32) (slot : ℕ) (reply : Reply) : Writer :=
  let w :=
    match reply with
    | .ok d => { w with slots := w.slots.modify slot fun e => { e with digest := d } }
    | .refused status =>
      { w with
        abandonStatus := if w.pipeRefused then w.abandonStatus else status
        pipeRefused := true }
    | .undecodable => { w with pipeRefused := true }
  { w with pipe := w.pipe.eraseP fun p => p.1 == cid, jobAt := now }

/-- Receive every answer that is there. -/
def recvBodies (now : ℕ) : List Answer → Writer → Writer
  | [], w => w
  | a :: as, w =>
    match w.owed[a.which]? with
    | none => recvBodies now as w
    | some cid =>
      let w := { w with owed := w.owed.eraseIdx a.which }
      match w.pipe.find? fun p => p.1 == cid with
      | none => w.fail
      | some p => recvBodies now as (w.answered now cid p.2 a.reply)

/-- A body of the commit is still to be sent (`next_body_ahead`). -/
def bodyAhead : Bool := (w.slots.drop w.cursor).any Extent.committing

/-- The bodies are answered: the commit goes on to its pages, or aborts. -/
def finishBodies : Writer :=
  let w := { w with job := .none, inHand := none }
  if w.pipeRefused then w.beginAbort
  else { w with cursor := 0, commit := if g.depth = 2 then .leaves else .root }

/-- Look whether all is sent and answered, else whether the store still answers. -/
def endBodies (now : ℕ) : Writer :=
  if w.failed then w
  else if (w.pipeRefused ∨ (w.inHand = none ∧ w.bodyAhead = false)) ∧ w.pipe = [] then
    w.finishBodies g
  else w.timeoutCheck now

/-- Send and receive. -/
def passBodies (i : Input) (answers : List Answer) : Writer :=
  (sendBodies g (w.slots.drop w.cursor) { w with free := i.free, net := i.net }).recvBodies i.now
    answers

/-- Send, receive, and look how far the bodies are (`bodies_pump`). -/
def bodiesPump (i : Input) (answers : List Answer) : Writer :=
  (w.passBodies g i answers).endBodies g i.now

/-! ## The other exchanges -/

def onPut (job : Job) : Reply → Writer
  | .ok _ =>
    if job = .putLeaf then { w with cursor := w.cursor + 1 } else { w with commit := .commit }
  | .refused status => { w with abandonStatus := status }.beginAbort
  | .undecodable => w.beginAbort

def onVolume (now : ℕ) (job : Job) : Reply → Writer
  | .undecodable => w.fail
  | .ok _ =>
    match job with
    | .begin =>
      { w with
        slots := w.slots.map fun e => if e.state = .staged then { e with committing := true } else e
        cursor := 0
        commit := .bodies }
    | .commit => w.apply
    | _ => w.giveUp
  | .refused status =>
    match job with
    | .begin =>
      if status = statusBusy then
        if beginPatienceMs < now - w.beginSince then { w with abandonStatus := statusBusy }.giveUp
        else { w with retryAt := now + retryMs }
      else if status = statusLeaseLost then w.fail
      else { w with abandonStatus := status }.giveUp
    | .commit => w.fail
    | _ => w.giveUp

def onLease : Reply → Writer
  | .ok _ => { w with leaseAt := w.jobAt }
  | .refused status => if status = statusBusy then w else w.fail
  | .undecodable => w.fail

/-- Handle the answer to the request with this id (`on_ack`). -/
def onAck (now : ℕ) (cid : UInt32) (reply : Reply) : Writer :=
  let job := w.job
  let w := { w with job := .none, inHand := none }
  if cid ≠ w.jobCid then w.fail
  else
    match job with
    | .renew => w.onLease reply
    | .leaf => match reply with | .ok _ => w | _ => w.fail
    | .begin | .commit | .abort => w.onVolume now job reply
    | .putLeaf | .putRoot => w.onPut job reply
    | .none | .bodies => w.fail

/-- Collect the answer of a request that is handed over. -/
def collect (i : Input) : Writer :=
  if w.inHand ≠ none then w.timeoutCheck i.now
  else
    match i.answers with
    | [] => w.timeoutCheck i.now
    | a :: _ =>
      match w.owed[a.which]? with
      | none => w.timeoutCheck i.now
      | some cid => { w with owed := w.owed.eraseIdx a.which }.onAck i.now cid a.reply

/-- Hand over the request, then collect its answer. -/
def pump (i : Input) : Writer :=
  match w.job with
  | .none => w
  | .bodies => w.bodiesPump g i i.answers
  | _ => { w with free := i.taken }.hand.collect i

/-! ## Scheduling -/

/-- The leaves of the commit, from the cursor on: `rest` are the slots there. -/
def leavesNext (i : Input) : List Extent → List Page → Writer → Writer
  | [], _, w => { w with commit := .root }
  | e :: rest, pages, w =>
    if e.committing then
      match pages.headD .page with
      | .done => leavesNext i rest pages.tail { w with cursor := w.cursor + 1 }
      | .missing => w.issue .leaf i
      | .unencodable => w.takeCid.beginAbort
      | .zero => leavesNext i rest pages.tail { w.takeCid with cursor := w.cursor + 1 }
      | .page => w.issue .putLeaf i
    else leavesNext i rest pages { w with cursor := w.cursor + 1 }

def commitNext (i : Input) : Writer :=
  match w.commit with
  | .idle => w
  | .begin => if i.now < w.retryAt then w else w.issue .begin i
  | .bodies =>
    { w with
      job := .bodies
      jobAt := i.now
      inHand := none
      pipe := []
      pipeRefused := false }.bodiesPump g i i.later
  | .leaves => leavesNext i (w.slots.drop w.cursor) i.pages w
  | .root => w.issue .putRoot i
  | .commit => w.issue .commit i
  | .abort => w.issue .abort i

def schedule (i : Input) : Writer :=
  if g.ttlMs / 2 ≤ i.now - w.leaseAt then w.issue .renew i
  else if w.commit ≠ .idle then w.commitNext g i
  else if w.flushWanted then
    if 0 < w.staged then
      { w with
        commit := .begin
        abandonStatus := 0
        beginSince := i.now
        retryAt := 0 }.commitNext g i
    else { w with flushWanted := false }
  else w

/-- Stop before the lease can lapse. -/
def leaseGuard (now : ℕ) : Writer :=
  if w.leaseAt + g.ttlMs - g.ttlMs / 4 ≤ now then w.fail else w

/-- A step of the module. -/
def step (i : Input) : Writer :=
  if w.failed then w
  else
    match i.client with
    | .failed => w.fail
    | .waiting => w
    | .ready =>
      let w := (w.pump g i).leaseGuard g i.now
      let w := { w with flushWanted := w.flushWanted || i.flush }
      if w.failed = false ∧ w.job = .none then w.schedule g i else w

/-- A writer that is open, with extents that are resident and no commit under way. -/
def ready (slots : List Extent) (cid : UInt32) (now : ℕ) : Writer where
  slots := slots.map fun e => { e with committing := false }
  staged := slots.countP fun e => e.state = .staged
  failed := false
  job := .none
  commit := .idle
  cursor := 0
  nextCid := cid
  jobCid := 0
  jobAt := now
  inHand := none
  pipe := []
  pipeRefused := false
  abandonStatus := 0
  abandoned := 0
  refused := false
  commits := 0
  flushWanted := false
  beginSince := 0
  retryAt := 0
  leaseAt := now
  free := true
  net := []
  owed := []

end Writer

end Loam.VolumeWriter

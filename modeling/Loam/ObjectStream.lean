import Loam.ObjectSpool
import Loam.Lib.Run

/-!
# Streamed uploads

A stream takes writes, each decided in the call: it is answered 0, and its bytes
are in the stream's spool or on their way there in the spill, or nothing of it
was taken. Its commit hands the spool, sealed, to an upload, with the total and
the hash of what was written; the upload reads the spool back into the chunk
buffer, which one upload fills at a time, and sends one body, or an open, the
body chunk by chunk, and a commit.

`ObjectWorld` has any number of streams and of uploads, by slot. Beside the
module's state it keeps what the statements are about: the writes of each stream
with their answers, and the requests each upload has sent.

A call that finds no stream of the caller's behind its handle changes nothing,
and is no event.
-/

namespace Loam

/-! ## The state -/

/-- The writes of a stream, and what each was answered. -/
abbrev WriteLog := List (Bytes × WriteAnswer)

/-- The bytes of the writes that were answered 0, in order. -/
def WriteLog.taken (log : WriteLog) : Bytes :=
  ((log.filter fun p => p.2 == .ok).map Prod.fst).flatten

/-- A stream. -/
structure Stream where
  inUse : Bool
  op : Option ℕ
  /-- Its commit is decided (`decided`, `result`). -/
  decided : Option Bool
  /-- Its condition can never be met (`MODE_NEVER`). -/
  never : Bool
  spool : Spool
  written : ℕ
  hash : Bytes
  log : WriteLog
deriving DecidableEq

/-- A write is answered; its bytes are counted and hashed if it is taken. -/
def Stream.answer (st : Stream) (bytes : Bytes) (answer : WriteAnswer) : Stream :=
  if answer = .ok then
    { st with
      written := st.written + bytes.length
      hash := st.hash ++ bytes
      log := st.log ++ [(bytes, .ok)] }
  else { st with log := st.log ++ [(bytes, answer)] }

/-- A free stream. -/
def Stream.free : Stream := ⟨false, none, none, false, .empty, 0, [], []⟩

/-- Where an upload is (`O_FREE` … `O_DECIDED`). -/
inductive OpState where
  | free
  | send
  | sent
  | decided
deriving DecidableEq

/-- What an upload sends next (`U_SINGLE` … `U_COMMIT`). -/
inductive UploadStage where
  | single
  | open
  | chunk
  | commit
deriving DecidableEq

/-- A request of an upload. -/
inductive UploadRequest where
  | putFile (body : Bytes)
  /-- Chunks follow, of so many bytes that hash to this. -/
  | open (digest : Digest) (total : ℕ)
  | chunk (bytes : Bytes)
  | commit
deriving DecidableEq

/-- An upload of a stream's commit. -/
structure Upload where
  state : OpState
  stream : Option ℕ
  stage : UploadStage
  spool : Spool
  total : ℕ
  sent : ℕ
  digest : Digest
  result : Bool
  log : WriteLog
  requests : List UploadRequest
deriving DecidableEq

/-- A free slot. -/
def Upload.free : Upload :=
  ⟨.free, none, .single, .empty, 0, 0, .zero, false, [], []⟩

/-- The module, as far as streams go. -/
structure ObjectWorld where
  streams : ℕ → Stream
  ops : ℕ → Upload
  spill : Spill
  /-- The upload that `chunk` is filled for (`chunk_holder`). -/
  chunkHolder : Option ℕ
  /-- What of it is filled (`chunk[..chunk_len]`). -/
  chunk : Bytes

/-- What the gate answers an upload. -/
inductive UploadAck where
  /-- Done; a body is stored under this digest. -/
  | ok (digest : Option Digest)
  | refused
deriving DecidableEq

/-- The most a stream takes (`MAX_STREAM_TOTAL`). -/
def maxStreamTotal : ℕ := 1024 * 1024 * 1024

/-- What happens. -/
inductive ObjectEvent where
  /-- `PUT_STREAMED_OPEN` into a slot. -/
  | open (i : ℕ) (never : Bool) (turns : PollTurns)
  /-- `PUT_STREAMED_WRITE`; `turn` is of the write that is asked at once. -/
  | write (i : ℕ) (bytes : Bytes) (turns : PollTurns) (turn : FileTurn)
  /-- `PUT_STREAMED_COMMIT`; `o` is the slot that is free for its upload. -/
  | commit (i : ℕ) (o : Option ℕ) (turns : PollTurns)
  /-- The stream is aborted, or its handle or grant released. -/
  | abort (i : ℕ) (ofOp ofStream : PollTurns)
  /-- The step drives a stream's spool. -/
  | driveStream (i : ℕ) (turns : PollTurns)
  /-- The step drives an upload's spool. -/
  | driveOp (o : ℕ) (turns : PollTurns)
  /-- The next request of an upload is staged; `admitted` if its grant stands
  and its key has a root, `encodes` if the record can be made. -/
  | stage (o : ℕ) (admitted encodes : Bool) (turn : FileTurn)
  | answered (o : ℕ) (ack : UploadAck)
  | lapse (o : ℕ)
  /-- Nobody collects a decided upload. -/
  | drop (o : ℕ) (turns : PollTurns)
deriving DecidableEq

namespace ObjectWorld

/-! ## The operations -/

/-- The module as it starts. -/
def new : ObjectWorld := ⟨fun _ => .free, fun _ => .free, .empty, none, []⟩

/-- A stream is replaced. -/
def setStream (w : ObjectWorld) (i : ℕ) (st : Stream) : ObjectWorld :=
  { w with streams := Function.update w.streams i st }

/-- An upload is replaced. -/
def setOp (w : ObjectWorld) (o : ℕ) (u : Upload) : ObjectWorld :=
  { w with ops := Function.update w.ops o u }

/-- A stream's spool is polled. -/
def pollStream (w : ObjectWorld) (i : ℕ) (turns : PollTurns) : ObjectWorld :=
  let st := w.streams i
  let (spool, spill) := st.spool.poll w.spill turns
  { w.setStream i { st with spool := spool } with spill := spill }

/-- An upload's spool is polled. -/
def pollOp (w : ObjectWorld) (o : ℕ) (turns : PollTurns) : ObjectWorld :=
  let u := w.ops o
  let (spool, spill) := u.spool.poll w.spill turns
  { w.setOp o { u with spool := spool } with spill := spill }

/-- A stream is opened, if the slot has none and its old spool is gone
(`stream_open`). -/
def openStream (w : ObjectWorld) (i : ℕ) (never : Bool) (turns : PollTurns) : ObjectWorld :=
  if (w.streams i).inUse || decide ((w.streams i).spool.st ≠ .none) then w
  else
    let (spool, spill) := { Spool.empty with st := .unlink }.poll w.spill turns
    if spool.st = .failed then
      -- Decided now: it holds no file.
      { w.setStream i { w.streams i with spool := .empty } with spill := spill }
    else
      { w.setStream i { Stream.free with inUse := true, never := never, spool := spool } with
        spill := spill }

/-- A write is answered. -/
def answerWrite (w : ObjectWorld) (i : ℕ) (bytes : Bytes) (answer : WriteAnswer) : ObjectWorld :=
  w.setStream i ((w.streams i).answer bytes answer)

/-- The spool of a stream, and the spill, are replaced. -/
def setSpool (w : ObjectWorld) (i : ℕ) (p : Spool × Spill) : ObjectWorld :=
  { w.setStream i { w.streams i with spool := p.1 } with spill := p.2 }

/-- A write (`stream_write`). -/
def writeStream (w : ObjectWorld) (i : ℕ) (bytes : Bytes) (turns : PollTurns) (turn : FileTurn) :
    ObjectWorld :=
  let st := w.streams i
  if !st.inUse then w
  else if st.op.isSome || st.decided.isSome then w.answerWrite i bytes .inval
  else if bytes = [] then w.answerWrite i bytes .ok
  else if maxStreamTotal < st.written + bytes.length then w.answerWrite i bytes .inval
  else
    let w := w.pollStream i turns
    match (w.streams i).spool.st with
    | .failed => w.answerWrite i bytes .io
    | .unlink | .create | .ready =>
      let (p, answer) := (w.streams i).spool.takeWrite w.spill bytes turn
      (w.setSpool i p).answerWrite i bytes answer
    | .none | .reading | .remove => w.answerWrite i bytes .inval

/-- An upload no longer fills the chunk buffer (`release_chunk`). -/
def releaseChunk (w : ObjectWorld) (o : ℕ) : ObjectWorld :=
  if w.chunkHolder = some o then { w with chunkHolder := none, chunk := [] } else w

/-- An upload is decided (`decide`). -/
def decideOp (w : ObjectWorld) (o : ℕ) (result : Bool) : ObjectWorld :=
  (w.releaseChunk o).setOp o { w.ops o with state := .decided, result := result }

/-- An upload's slot is freed (`free_op`). -/
def freeOp (w : ObjectWorld) (o : ℕ) (turns : PollTurns) : ObjectWorld :=
  let w := w.releaseChunk o
  let u := w.ops o
  let (spool, spill) := u.spool.release w.spill turns
  { w.setOp o { u with state := .free, spool := spool } with spill := spill }

/-- An upload's stream no longer waits for it. -/
def leaveOp (w : ObjectWorld) (o : ℕ) (turns : PollTurns) : ObjectWorld :=
  let w := w.setOp o { w.ops o with stream := none }
  if (w.ops o).state = .decided then w.freeOp o turns else w

/-- A stream is freed; an upload that carries its commit runs to its decision
(`free_stream`). -/
def freeStream (w : ObjectWorld) (i : ℕ) (ofOp ofStream : PollTurns) : ObjectWorld :=
  if !(w.streams i).inUse then w
  else
    let st := w.streams i
    let w := w.setStream i { st with inUse := false, op := none }
    let w := st.op.elim w fun o => w.leaveOp o ofOp
    let (spool, spill) := st.spool.release w.spill ofStream
    { w.setStream i { w.streams i with spool := spool } with spill := spill }

/-- The spool goes, sealed, to an upload. -/
def startUpload (sha : Bytes → Digest) (w : ObjectWorld) (i o : ℕ) (turns : PollTurns) :
    ObjectWorld :=
  let st := w.streams i
  let u : Upload :=
    { Upload.free with
      state := .send
      stream := some i
      stage := if st.written ≤ maxBody then .single else .open
      spool := { st.spool with isSealed := true }
      total := st.written
      digest := sha st.hash
      log := st.log }
  let w := w.setStream i { st with op := some o, spool := .empty, hash := [] }
  (w.setOp o u).pollOp o turns

/-- The slot an upload gets: none if the write can never be made, or the spool
is lost, or the slot is not free. -/
def uploadSlot (w : ObjectWorld) (i : ℕ) (slot : Option ℕ) : Option ℕ :=
  if (w.streams i).never || decide ((w.streams i).spool.st = .failed) then none
  else slot.filter fun o => (w.ops o).state = .free && (w.ops o).spool.st = .none

/-- A commit (`stream_commit`). -/
def commitStream (sha : Bytes → Digest) (w : ObjectWorld) (i : ℕ) (slot : Option ℕ)
    (turns : PollTurns) : ObjectWorld :=
  let st := w.streams i
  if !st.inUse || st.decided.isSome then w
  else
    match st.op with
    | some o =>
      if (w.ops o).state = .decided then
        (w.setStream i { st with op := none, decided := some (w.ops o).result }).freeOp o turns
      else w
    | none =>
      match w.uploadSlot i slot with
      | none => w.setStream i { st with decided := some false }
      | some o => w.startUpload sha i o turns

/-- What an upload's next body is. -/
inductive UploadBody where
  | ready (bytes : Bytes)
  | notYet
  | failed

/-- The next `n` bytes of an upload, read from its spool into the chunk buffer
(`upload_bytes`). -/
def uploadBytes (w : ObjectWorld) (o n : ℕ) (turn : FileTurn) : ObjectWorld × UploadBody :=
  if n = 0 then (w, .ready [])
  else
    match (w.ops o).spool.st with
    | .unlink | .create | .ready => (w, .notYet)
    | .none | .failed | .remove => (w, .failed)
    | .reading =>
      if w.chunkHolder.any (· != o) then (w, .notYet)
      else
        let w := { w with chunkHolder := some o }
        if w.chunk.length < n then
          let u := w.ops o
          let (file, reply) := u.spool.file.ask (.read (n - w.chunk.length)) turn
          let w := w.setOp o { u with spool := { u.spool with file := file } }
          match reply with
          | .notYet => (w, .notYet)
          | .failed => (w, .failed)
          | .done bytes =>
            -- The file ended short of what was written.
            if bytes = [] then (w, .failed)
            else
              let chunk := w.chunk ++ bytes
              if chunk.length < n then ({ w with chunk := chunk }, .notYet)
              else ({ w with chunkHolder := none, chunk := [] }, .ready (chunk.take n))
        else ({ w with chunkHolder := none, chunk := [] }, .ready (w.chunk.take n))

/-- A request goes to the gate, if it can be made. -/
def sendRequest (w : ObjectWorld) (o : ℕ) (encodes : Bool) (r : UploadRequest) : ObjectWorld :=
  if encodes then
    w.setOp o { w.ops o with state := .sent, requests := (w.ops o).requests ++ [r] }
  else w.decideOp o false

/-- A body goes to the gate once the spool has given it up. -/
def sendBody (p : ObjectWorld × UploadBody) (o : ℕ) (encodes : Bool)
    (r : Bytes → UploadRequest) : ObjectWorld :=
  match p.2 with
  | .ready bytes => p.1.sendRequest o encodes (r bytes)
  | .notYet => p.1
  | .failed => p.1.decideOp o false

/-- The next request of an upload (`stage_op`). -/
def stageOp (w : ObjectWorld) (o : ℕ) (admitted encodes : Bool) (turn : FileTurn) : ObjectWorld :=
  let u := w.ops o
  if u.state ≠ .send then w
  else if !admitted then w.decideOp o false
  else
    match u.stage with
    | .single => sendBody (w.uploadBytes o u.total turn) o encodes .putFile
    | .open => w.sendRequest o encodes (.open u.digest u.total)
    | .chunk => sendBody (w.uploadBytes o (min (u.total - u.sent) maxBody) turn) o encodes .chunk
    | .commit => w.sendRequest o encodes .commit

/-- The gate answers an upload (`upload_answered`). -/
def answerOp (w : ObjectWorld) (o : ℕ) (ack : UploadAck) : ObjectWorld :=
  let u := w.ops o
  if u.state ≠ .sent then w
  else
    match ack with
    | .refused => w.decideOp o false
    | .ok digest =>
      match u.stage with
      | .open => w.setOp o { u with stage := if u.total = 0 then .commit else .chunk, state := .send }
      | .chunk =>
        let sent := u.sent + min (u.total - u.sent) maxBody
        w.setOp o { u with
          sent := sent
          stage := if u.total ≤ sent then .commit else .chunk
          state := .send }
      -- Stored under another digest, it is not what was hashed.
      | .single | .commit => w.decideOp o (digest == some u.digest)

/-- One event. -/
def step (sha : Bytes → Digest) (w : ObjectWorld) : ObjectEvent → ObjectWorld
  | .open i never turns => w.openStream i never turns
  | .write i bytes turns turn => w.writeStream i bytes turns turn
  | .commit i slot turns => w.commitStream sha i slot turns
  | .abort i ofOp ofStream => w.freeStream i ofOp ofStream
  | .driveStream i turns => w.pollStream i turns
  | .driveOp o turns => w.pollOp o turns
  | .stage o admitted encodes turn => w.stageOp o admitted encodes turn
  | .answered o ack => w.answerOp o ack
  | .lapse o => if (w.ops o).state = .sent then w.decideOp o false else w
  | .drop o turns =>
    if (w.ops o).state = .decided && (w.ops o).stream.isNone then w.freeOp o turns else w

end ObjectWorld

end Loam

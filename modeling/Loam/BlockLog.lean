import Loam.Wal
import Loam.Lib.Run

/-!
# The block log

An append-only log behind a pair of channels: an append is answered with the
offset of its record, and a replay with every record of the log from its head,
and then their number. A record is a frame: the checksum of its payload, the
payload's length, and the payload.

Opening the log, an append and a replay are machines that make a call and go on
with what it answers. One job runs at a time, and no request is read meanwhile.
An event is one call of the job in progress, with what the provider answers it
(`BlockLog.call`); between two calls the module does what needs none, and sends at
most one message. What a step does at most of this is left out: it only says where
the module yields.

An append that is refused leaves the tail where it was, and what it wrote of its
frame stays in the file until another frame is written over it.
-/

namespace Loam

/-! ## Requests and messages -/

/-- The longest payload that is read back (`MAX_RECORD`). -/
def maxRecord : ℕ := 4096

/-- What a request is read into (`READ_BUF`). -/
def logReadBuf : ℕ := 4200

/-- What a frame is put together in (`SCRATCH`). -/
def logScratch : ℕ := 4200

/-- The number of an append (`OP_APPEND_REQ`). -/
def opAppendReq : UInt8 := 0x50

/-- The number of a replay (`OP_REPLAY_REQ`). -/
def opReplayReq : UInt8 := 0x51

/-- A request, as the log decodes it. -/
inductive LogRequest where
  | append (cid : UInt32) (payload : Bytes)
  | replay (cid : UInt32)
  | malformed
deriving DecidableEq

/-- The correlation id of a request. -/
def logCid (src : Bytes) : UInt32 := UInt32.ofNat (leNat ((src.drop 1).take 4))

/-- Decode an append (`decode_append_req`). -/
def decodeAppendReq (src : Bytes) : Option (UInt32 × Bytes) :=
  if src.length < 7 then none
  else if src.head? ≠ some opAppendReq then none
  else if src.length < 7 + leNat ((src.drop 5).take 2) then none
  else some (logCid src, (src.drop 7).take (leNat ((src.drop 5).take 2)))

/-- Decode a replay (`decode_replay_req`). -/
def decodeReplayReq (src : Bytes) : Option UInt32 :=
  if src.length < 5 then none
  else if src.head? ≠ some opReplayReq then none
  else some (logCid src)

/-- What is made of the bytes that were read. -/
def LogRequest.ofBytes (src : Bytes) : LogRequest :=
  if src.head? = some opAppendReq then
    ((decodeAppendReq src).map fun p => .append p.1 p.2).getD .malformed
  else if src.head? = some opReplayReq then ((decodeReplayReq src).map .replay).getD .malformed
  else .malformed

/-- What the log sends. -/
inductive LogMessage where
  | appended (cid : UInt32) (offset : ℕ)
  | refused (cid : UInt32)
  | record (cid : UInt32) (offset : ℕ) (payload : Bytes)
  /-- A replay is over, and so many records were sent. -/
  | ended (cid total : UInt32)
deriving DecidableEq

/-- The frame of a record. -/
def logFrame (payload : Bytes) : Bytes :=
  leBytes 4 (crc32 payload).toNat ++ leBytes 4 payload.length ++ payload

/-- The payload length a frame's header says. -/
def logHeaderLen (header : Bytes) : ℕ := leNat ((header.drop 4).take 4)

/-- The checksum it says. -/
def logHeaderCrc (header : Bytes) : ℕ := leNat (header.take 4)

/-! ## Reading the records -/

/-- Where the reader is (`RD_*`). -/
inductive ReadStage where
  | seek
  | header
  | body
  | rewind
deriving DecidableEq

/-- The record reader, which the boot and a replay share. -/
structure RecordReader where
  stage : ReadStage
  header : Bytes
  /-- The bytes of the current header or payload read so far. -/
  filled : Bytes
  /-- Where the current record starts. -/
  offset : ℕ
  total : UInt32
deriving DecidableEq

namespace RecordReader

/-- No clean record is left. -/
def stop (r : RecordReader) : RecordReader := { r with stage := .rewind }

/-- A whole header: it says the payload's length, or no clean record is left. -/
def takeHeader (r : RecordReader) (header : Bytes) : RecordReader :=
  if logHeaderLen header = 0 ∨ maxRecord < logHeaderLen header then r.stop
  else { r with stage := .body, header := header, filled := [] }

/-- A whole payload: it is a record if its checksum is right. -/
def takePayload (r : RecordReader) (emit : Bool) (payload : Bytes) :
    RecordReader × Option (ℕ × Bytes) :=
  if (crc32 payload).toNat ≠ logHeaderCrc r.header then (r.stop, none)
  else
    ({ r with
        stage := .header, filled := [], offset := r.offset + (8 + payload.length)
        total := if emit then r.total + 1 else r.total },
      some (r.offset, payload))

/-- One call of the reader, and the record it completes (`read_records`,
`read_some`). The end of the file and a read that fails both end the clean
records. -/
def read (r : RecordReader) (emit : Bool) (f : WalFile) (a : FsAnswer) :
    RecordReader × WalFile × Option (ℕ × Bytes) :=
  match r.stage, a with
  | .rewind, _ | _, .again => (r, f, none)
  | .seek, .failed => ({ r with stage := .rewind, filled := [], offset := 0, total := 0 }, f, none)
  | .seek, .done _ => ({ r with stage := .header, filled := [], offset := 0, total := 0 }, f.seek 0, none)
  | _, .failed => (r.stop, f, none)
  | .header, .done n =>
    let (f', bs) := f.read n (8 - r.filled.length)
    if bs = [] then (r.stop, f', none)
    else if (r.filled ++ bs).length < 8 then ({ r with filled := r.filled ++ bs }, f', none)
    else (r.takeHeader (r.filled ++ bs), f', none)
  | .body, .done n =>
    let (f', bs) := f.read n (logHeaderLen r.header - r.filled.length)
    if bs = [] then (r.stop, f', none)
    else if (r.filled ++ bs).length < logHeaderLen r.header then
      ({ r with filled := r.filled ++ bs }, f', none)
    else ((r.takePayload emit (r.filled ++ bs)).1, f', (r.takePayload emit (r.filled ++ bs)).2)

end RecordReader

/-! ## The module -/

/-- How far the boot is (`PHASE_*`). -/
inductive LogPhase where
  | opening
  /-- Whether its name can be fenced is asked. -/
  | caps
  | name
  | scan
  | ready
  /-- It did not open: appends are refused, and a replay is empty. -/
  | failed
deriving DecidableEq

/-- The job in progress (`JOB_*`), and the stage of an append (`AP_*`). -/
inductive LogJob where
  | none
  | appendSeek
  | appendWrite
  | appendFsync
  | replay
deriving DecidableEq

/-- The log. -/
structure BlockLog where
  file : WalFile
  phase : LogPhase
  job : LogJob
  reader : RecordReader
  cid : UInt32
  frame : Bytes
  written : ℕ
  /-- Where the next append lands. -/
  currentOffset : ℕ
  inbox : List Bytes
deriving DecidableEq

/-- What is written over is no longer durable as it was. -/
def WalFile.overwrite (f : WalFile) (bs : Bytes) : WalFile :=
  { f.write bs with fenced := min f.fenced f.offset }

/-- Where a seek goes: an offset is given in four bytes, signed, and where a negative
one leads is the provider's affair. -/
def seekTarget (offset n : ℕ) : ℕ :=
  if offset % 2 ^ 32 < 2 ^ 31 then offset % 2 ^ 32 else n

namespace BlockLog

/-- A log that is started on a file. -/
def start (bytes : Bytes) : BlockLog where
  file := .onDevice bytes
  phase := .opening
  job := .none
  reader := ⟨.seek, [], [], 0, 0⟩
  cid := 0
  frame := []
  written := 0
  currentOffset := 0
  inbox := []

/-- One call of the boot (`boot`). A provider that cannot fence a name fails it. -/
def boot (s : BlockLog) (a : FsAnswer) : BlockLog :=
  match s.phase, a with
  | .opening, .done _ => { s with phase := .caps }
  | .caps, .done 0 => { s with phase := .failed }
  | .caps, .done (_ + 1) => { s with phase := .name }
  | .name, .done _ => { s with phase := .scan, reader := { s.reader with stage := .seek } }
  | .opening, .failed | .name, .failed => { s with phase := .failed }
  | .scan, a =>
    let out := s.reader.read false s.file a
    let s := { s with reader := out.1, file := out.2.1 }
    if out.1.stage = .rewind then { s with phase := .ready, currentOffset := out.1.offset } else s
  | _, _ => s

/-- The next request is read (`handle_append`, `handle_replay`). -/
def take (s : BlockLog) : BlockLog × Option LogMessage :=
  match s.inbox with
  | [] => (s, none)
  | src :: inbox =>
    let s := { s with inbox := inbox }
    match LogRequest.ofBytes (src.take logReadBuf) with
    | .append cid payload =>
      if s.phase = .failed then (s, some (.refused cid))
      else if logScratch < 8 + payload.length then (s, some (.refused cid))
      else ({ s with cid := cid, frame := logFrame payload, written := 0, job := .appendSeek }, none)
    | .replay cid =>
      if s.phase = .failed then (s, some (.ended cid 0))
      else ({ s with cid := cid, reader := { s.reader with stage := .seek }, job := .replay }, none)
    | .malformed => (s, none)

/-- An append is refused, and the tail stays where it was (`append_refused`). -/
def refuse (s : BlockLog) : BlockLog × Option LogMessage :=
  ({ s with job := .none }, some (.refused s.cid))

/-- One call of an append (`drive_append`). -/
def driveAppend (s : BlockLog) (a : FsAnswer) : BlockLog × Option LogMessage :=
  match s.job, a with
  | _, .again => (s, none)
  | _, .failed => s.refuse
  | .appendSeek, .done n =>
    ({ s with file := s.file.seek (seekTarget s.currentOffset n), job := .appendWrite }, none)
  | .appendWrite, .done n =>
    let chunk := (s.frame.drop s.written).take n
    if n = 0 then s.refuse
    else
      ({ s with
          file := s.file.overwrite chunk, written := s.written + chunk.length
          job := if s.frame.length ≤ s.written + chunk.length then .appendFsync else .appendWrite },
        none)
  | _, .done _ =>
    ({ s with
        file := s.file.fence, job := .none, currentOffset := s.currentOffset + s.frame.length },
      some (.appended s.cid s.currentOffset))

/-- One call of a replay (`drive_job`): at the clean tail the descriptor goes back to
where the next append lands. -/
def driveReplay (s : BlockLog) (a : FsAnswer) : BlockLog × Option LogMessage :=
  if s.reader.stage = .rewind then
    match a with
    | .again => (s, none)
    | .failed => ({ s with job := .none }, some (.ended s.cid s.reader.total))
    | .done n =>
      ({ s with file := s.file.seek (seekTarget s.currentOffset n), job := .none },
        some (.ended s.cid s.reader.total))
  else
    let out := s.reader.read true s.file a
    ({ s with reader := out.1, file := out.2.1 }, out.2.2.map fun p => .record s.cid p.1 p.2)

/-- One call of the module, and the message it sends (`module_step_impl`). -/
def call (s : BlockLog) (a : FsAnswer) : BlockLog × Option LogMessage :=
  if s.phase ≠ .ready ∧ s.phase ≠ .failed then (s.boot a, none)
  else
    match s.job with
    | .none => s.take
    | .replay => s.driveReplay a
    | _ => s.driveAppend a

/-- An append is in progress. -/
def Appending (s : BlockLog) : Prop :=
  s.job = .appendSeek ∨ s.job = .appendWrite ∨ s.job = .appendFsync

variable {s : BlockLog}

theorem call_boot (hp : s.phase ≠ .ready ∧ s.phase ≠ .failed) (a : FsAnswer) :
    s.call a = (s.boot a, none) := by
  rw [call, if_pos hp]

theorem call_take (hp : s.phase = .ready ∨ s.phase = .failed) (hj : s.job = .none)
    (a : FsAnswer) : s.call a = s.take := by
  rw [call, if_neg fun hc => hp.elim hc.1 hc.2]
  simp only [hj]

theorem call_append (hp : s.phase = .ready) (hj : s.Appending) (a : FsAnswer) :
    s.call a = s.driveAppend a := by
  rw [call, if_neg fun hc => hc.1 hp]
  rcases hj with hj | hj | hj <;> simp only [hj]

theorem call_replay (hp : s.phase = .ready) (hj : s.job = .replay) (a : FsAnswer) :
    s.call a = s.driveReplay a := by
  rw [call, if_neg fun hc => hc.1 hp]
  simp only [hj]

end BlockLog

/-! ## Its life -/

/-- What happens to the module while it is up. -/
inductive LogStep where
  | arrive (src : Bytes)
  /-- A call is made; the message it leads to, if any, is taken by the channel or not. -/
  | call (a : FsAnswer) (taken : Bool)
deriving DecidableEq

/-- What happens to it over its lives. -/
inductive LogEvent where
  | step (x : LogStep)
  /-- It ends, and what follows the durable bytes of the file is anything; then it is
  started again. -/
  | crash (tail : Bytes)
deriving DecidableEq

/-- The log, and what is known of it. -/
structure LogWorld where
  log : BlockLog
  /-- The records whose append was answered with an offset. -/
  acked : List (ℕ × Bytes)
  /-- The records the replay in progress has sent. -/
  streamed : List (ℕ × Bytes)
  /-- For every replay that has ended, the records then acknowledged and those it
  sent. -/
  ended : List (List (ℕ × Bytes) × List (ℕ × Bytes))
  handled : List LogRequest
  /-- What was sent, and whether the channel took it. -/
  sent : List (LogMessage × Bool)
deriving DecidableEq

namespace LogWorld

/-- A log that is started on a file. -/
def start (bytes : Bytes) : LogWorld := ⟨.start bytes, [], [], [], [], []⟩

/-- What is known once a message is sent. -/
def tell (w : LogWorld) (taken : Bool) : LogMessage → LogWorld
  | .appended cid offset =>
    { w with acked := w.acked ++ [(offset, w.log.frame.drop 8)]
             sent := w.sent ++ [(.appended cid offset, taken)] }
  | .refused cid => { w with sent := w.sent ++ [(.refused cid, taken)] }
  | .record cid offset payload =>
    { w with streamed := w.streamed ++ [(offset, payload)]
             sent := w.sent ++ [(.record cid offset payload, taken)] }
  | .ended cid total =>
    { w with ended := w.ended ++ [(w.acked, w.streamed)], streamed := []
             sent := w.sent ++ [(.ended cid total, taken)] }

/-- The module reads a request next. -/
def reads (s : BlockLog) : Bool :=
  (decide (s.phase = .ready) || decide (s.phase = .failed)) && decide (s.job = .none)

/-- Meet a step. -/
def meet (w : LogWorld) : LogStep → LogWorld
  | .arrive src => { w with log := { w.log with inbox := w.log.inbox ++ [src] } }
  | .call a taken =>
    let out := w.log.call a
    let w' := { w with
      log := out.1
      handled := if reads w.log then
        w.handled ++ (w.log.inbox.head?.map fun src => LogRequest.ofBytes (src.take logReadBuf)).toList
        else w.handled }
    match out.2 with
    | none => w'
    | some m => w'.tell taken m

/-- Meet an event. -/
def step (w : LogWorld) : LogEvent → LogWorld
  | .step x => w.meet x
  | .crash tail =>
    { w with log := .start (w.log.file.bytes.take w.log.file.fenced ++ tail), streamed := [] }

end LogWorld

end Loam

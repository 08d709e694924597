import Loam.LittleEndian
import Loam.Lib.Framing

/-!
# The log file

A record of the log is a frame: the length of its payload, the payload's
checksum, and the payload. The file has no header and no end mark, so that a
frame cut short by a crash is found by reading.

No call to the file system waits, so reading and appending are machines that
make a call and go on with what it answers: a call that is not ready consumes
nothing and is made again, a read may move fewer bytes than asked for, and so
may a write. `WalReplay` reads the frames from the head of the file until there
is no whole one; `WalAppender` writes one frame at the file's end and fences
it.
-/

namespace Loam

/-! ## Checksums -/

/-- A bit of the checksum's shift register. -/
def crc32Bit (c : UInt32) : UInt32 :=
  if c &&& 1 ≠ 0 then (0xEDB88320 : UInt32) ^^^ (c >>> 1) else c >>> 1

/-- The table of checksums of a byte (`build_crc32_table`). -/
def crc32Table : List UInt32 := (List.range 256).map fun i => crc32Bit^[8] (UInt32.ofNat i)

/-- A byte of it. -/
def crc32Byte (crc : UInt32) (b : UInt8) : UInt32 :=
  (crc >>> 8) ^^^ crc32Table.getD ((crc ^^^ b.toUInt32) &&& 0xFF).toNat 0

/-- The checksum of a payload (`crc32`). -/
def crc32 (bytes : Bytes) : UInt32 := bytes.foldl crc32Byte 0xFFFFFFFF ^^^ 0xFFFFFFFF

/-! ## Frames -/

/-- The longest payload (`MAX_WAL_REC`). -/
def maxWalRec : ℕ := 4096

/-- The bytes before the payload. -/
def walHeader : ℕ := 8

/-- The frame of a payload. -/
def walFrame (payload : Bytes) : Bytes :=
  leBytes 4 payload.length ++ leBytes 4 (crc32 payload).toNat ++ payload

/-- The payload length a header says. -/
def headerLen (header : Bytes) : ℕ := leNat (header.take 4)

/-- The checksum a header says. -/
def headerCrc (header : Bytes) : ℕ := leNat ((header.drop 4).take 4)

/-! ## The file system -/

/-- What a call answers. -/
inductive FsAnswer where
  /-- Not ready: nothing is consumed (`EAGAIN`, `EINPROGRESS`). -/
  | again
  | failed
  /-- It is done; a read or a write moves so many bytes at most. -/
  | done (n : ℕ)
deriving DecidableEq

/-- An open file. -/
structure WalFile where
  bytes : Bytes
  offset : ℕ
  /-- The bytes a fence has made durable. -/
  fenced : ℕ
deriving DecidableEq

namespace WalFile

/-- The file as a boot finds it: what is there is durable. -/
def onDevice (bytes : Bytes) : WalFile := ⟨bytes, 0, bytes.length⟩

/-- Move the descriptor (`FS_SEEK`). -/
def seek (f : WalFile) (offset : ℕ) : WalFile := { f with offset := offset }

/-- How many bytes a read moves: one at least, unless the file ends. -/
def readCount (f : WalFile) (n want : ℕ) : ℕ := min (n + 1) (min want (f.bytes.length - f.offset))

/-- Read at most `want` bytes (`FS_READ`). -/
def read (f : WalFile) (n want : ℕ) : WalFile × Bytes :=
  ({ f with offset := f.offset + f.readCount n want },
    (f.bytes.drop f.offset).take (f.readCount n want))

/-- Write bytes where the descriptor is (`FS_WRITE`). -/
def write (f : WalFile) (bs : Bytes) : WalFile :=
  { f with
    bytes := f.bytes.take f.offset ++ bs ++ f.bytes.drop (f.offset + bs.length)
    offset := f.offset + bs.length }

/-- What has been written is durable (`FS_FSYNC`). -/
def fence (f : WalFile) : WalFile := { f with fenced := f.bytes.length }

end WalFile

/-! ## Replay -/

/-- Where a replay is. -/
inductive ReplayPhase where
  | seek
  | header
  | body
  | done
  | failed
deriving DecidableEq

/-- A replay (`WalReplay`). -/
structure WalReplay where
  phase : ReplayPhase
  header : Bytes
  /-- The bytes of the current header or payload read so far. -/
  filled : Bytes
  handed : List Bytes
deriving DecidableEq

namespace WalReplay

/-- A replay that has not started. -/
def new : WalReplay := ⟨.seek, [], [], []⟩

/-- The replay is over, one way or the other. -/
def ended (r : WalReplay) : Bool := r.phase == .done || r.phase == .failed

/-- A whole header: it says the payload's length, or ends the replay. -/
def takeHeader (r : WalReplay) (header : Bytes) : WalReplay :=
  if headerLen header = 0 ∨ maxWalRec < headerLen header then { r with phase := .done }
  else { r with phase := .body, header := header, filled := [] }

/-- A whole payload: it is handed over if its checksum is right. -/
def takePayload (r : WalReplay) (payload : Bytes) : WalReplay :=
  if (crc32 payload).toNat ≠ headerCrc r.header then { r with phase := .done }
  else { r with phase := .header, filled := [], handed := r.handed ++ [payload] }

/-- The bytes a read of so many moved: none is the end of the file, and when
all are there `whole` takes them. -/
def take (r : WalReplay) (want : ℕ) (bs : Bytes) (whole : Bytes → WalReplay) : WalReplay :=
  if bs = [] then { r with phase := .done }
  else if (r.filled ++ bs).length < want then { r with filled := r.filled ++ bs }
  else whole (r.filled ++ bs)

/-- One call, and what the replay does with its answer. -/
def call (r : WalReplay) (f : WalFile) : FsAnswer → WalReplay × WalFile
  | .again => (r, f)
  | .failed => ({ r with phase := .failed }, f)
  | .done n =>
    match r.phase with
    | .seek => ({ r with phase := .header, filled := [] }, f.seek 0)
    | .header =>
      let (f', bs) := f.read n (walHeader - r.filled.length)
      (r.take walHeader bs r.takeHeader, f')
    | .body =>
      let (f', bs) := f.read n (headerLen r.header - r.filled.length)
      (r.take (headerLen r.header) bs r.takePayload, f')
    | .done | .failed => (r, f)

/-- A poll hands over so many payloads at most, and stops where a call is not
ready (`WalReplay::poll`). -/
def poll (budget : ℕ) (r : WalReplay) (f : WalFile) : List FsAnswer → WalReplay × WalFile
  | [] => (r, f)
  | a :: as =>
    if r.ended || (r.phase == .header && budget == 0) then (r, f)
    else
      let (r', f') := r.call f a
      if a = .again then (r', f')
      else poll (budget - (r'.handed.length - r.handed.length)) r' f' as

/-- A boot's replay of a file, poll after poll. -/
def run (bytes : Bytes) (polls : List (ℕ × List FsAnswer)) : WalReplay × WalFile :=
  polls.foldl (fun s p => s.1.poll p.1 s.2 p.2) (new, .onDevice bytes)

end WalReplay

/-- **The boot replays these**: its replay of the file came to the end, and
handed these over. -/
def Replays (bytes : Bytes) (polls : List (ℕ × List FsAnswer)) (handed : List Bytes) : Prop :=
  (WalReplay.run bytes polls).1.phase = .done ∧ (WalReplay.run bytes polls).1.handed = handed

/-! ## Appending -/

/-- Where an append is. -/
inductive AppendPhase where
  | idle
  | seek
  | write
  | submit
  | poll
  | fsync
deriving DecidableEq

/-- An appender (`WalAppender`). -/
structure WalAppender where
  phase : AppendPhase
  /-- A frame may have been left in part: nothing more is appended. -/
  broken : Bool
  payload : Bytes
  written : ℕ
deriving DecidableEq

/-- What an append has come to. -/
inductive AppendState where
  | pending
  | durable
  /-- It is refused or has failed, or nothing was staged. -/
  | failed
deriving DecidableEq

namespace WalAppender

/-- The appender of a file just opened. -/
def new : WalAppender := ⟨.idle, false, [], 0⟩

/-- Stage a record (`begin`). -/
def begin (ap : WalAppender) (payload : Bytes) : WalAppender × AppendState :=
  if ap.broken || ap.phase != .idle || payload.isEmpty || decide (maxWalRec < payload.length) then
    (ap, .failed)
  else ({ ap with phase := .seek, payload := payload, written := 0 }, .pending)

/-- The append failed: once bytes of the frame may be in the file, nothing more
is appended. -/
def fail (ap : WalAppender) : WalAppender :=
  { ap with
    phase := .idle
    broken := ap.broken || decide (0 < ap.written) ||
      (ap.phase != .idle && ap.phase != .seek && ap.phase != .write)
    written := 0 }

/-- The record is durable. -/
def finish (ap : WalAppender) : WalAppender := { ap with phase := .idle, written := 0 }

/-- One call, and what the append does with its answer. `async` is the
provider's pipelined tier. -/
def call (async : Bool) (ap : WalAppender) (f : WalFile) :
    FsAnswer → WalAppender × WalFile × AppendState
  | .again => (ap, f, .pending)
  | .failed => if ap.phase = .idle then (ap, f, .pending) else (ap.fail, f, .failed)
  | .done n =>
    match ap.phase with
    | .idle => (ap, f, .pending)
    -- The size, and the seek to it; a longer file has no offset.
    | .seek =>
      if 2 ^ 31 ≤ f.bytes.length then (ap.fail, f, .failed)
      else ({ ap with phase := .write }, f.seek f.bytes.length, .pending)
    | .write =>
      let chunk := ((walFrame ap.payload).drop ap.written).take n
      let ap' := { ap with written := ap.written + chunk.length }
      if n = 0 then (ap.fail, f, .failed)
      else if ap'.written < (walFrame ap.payload).length then (ap', f.write chunk, .pending)
      else ({ ap' with phase := if async then .submit else .fsync }, f.write chunk, .pending)
    | .submit => ({ ap with phase := .poll }, f, .pending)
    -- A ticket that is not through answers a positive count.
    | .poll => if n = 0 then (ap.finish, f.fence, .durable) else (ap, f, .pending)
    | .fsync => (ap.finish, f.fence, .durable)

end WalAppender

/-! ## A module's log -/

/-- A module that is up, with its log. -/
structure WalWorld where
  file : WalFile
  appender : WalAppender
  /-- The records acknowledged as durable since the boot. -/
  acked : List Bytes
deriving DecidableEq

/-- What happens to it. -/
inductive WalEvent where
  | append (payload : Bytes)
  | io (answer : FsAnswer)
deriving DecidableEq

namespace WalWorld

/-- The module once its boot has replayed the file. It appends at the file's
end. -/
def booted (bytes : Bytes) : WalWorld := ⟨.onDevice bytes, .new, []⟩

/-- One event. -/
def step (async : Bool) (w : WalWorld) : WalEvent → WalWorld
  | .append payload => { w with appender := (w.appender.begin payload).1 }
  | .io answer =>
    let (ap, f, st) := w.appender.call async w.file answer
    { file := f
      appender := ap
      acked := if st = .durable then w.acked ++ [ap.payload] else w.acked }

/-- A crash leaves of the file what was fenced, and what else had reached the
device from the front. -/
def Leaves (w : WalWorld) (bytes : Bytes) : Prop :=
  ∃ n, w.file.fenced ≤ n ∧ bytes = w.file.bytes.take n

end WalWorld

end Loam

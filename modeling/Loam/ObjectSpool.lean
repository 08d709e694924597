import Loam.BodyWire
import Loam.Lib.AsyncFile

/-!
# Spools

A streamed upload is spooled: its bytes go to a scratch file as they arrive, and
are read back from it when the stream is committed. No call to the file system
waits, so a spool is a state that says where its sequence – clear the name,
create the file, write it, go back to its start, read it, remove it – resumes.

Bytes that the file cannot take yet wait in the spill, which one spool holds at
a time; what is written after goes behind them. A poll asks the file system what
is next, as far as it decides now.

The name of a spool's file is its slot's and its generation's, so a file is one
spool's: it is kept with the spool, as the provider has it.
-/

namespace Loam

/-- How far a spool's file is (`SP_NONE` … `SP_REMOVE`). -/
inductive SpoolState where
  | none
  /-- A stale file of its name is being removed. -/
  | unlink
  | create
  | ready
  | reading
  | failed
  | remove
deriving DecidableEq

/-- A spool. -/
structure Spool where
  st : SpoolState
  /-- All its bytes are written: it is read next (`sealed`). -/
  isSealed : Bool
  /-- It was released while its file was being created (`doomed`). -/
  doomed : Bool
  /-- It holds the spill (`spill`). -/
  holds : Bool
  file : AsyncFile UInt8
deriving DecidableEq

/-- The bytes the holder's file has not taken. -/
structure Spill where
  busy : Bool
  /-- How much of `buf` the file has. -/
  off : ℕ
  /-- `buf[..len]`. -/
  buf : Bytes
deriving DecidableEq

/-- One body's worth (`SPILL_MAX`). -/
def spillMax : ℕ := maxBody

/-- Nobody's. -/
def Spill.empty : Spill := ⟨false, 0, []⟩

/-- What is owed to the holder's file. -/
def Spill.rest (spill : Spill) : Bytes := spill.buf.drop spill.off

/-- What the file system makes of the calls of a poll, each if it is asked. -/
structure PollTurns where
  /-- `UNLINK` of a stale file. -/
  unlink : FileTurn
  /-- `OPEN_CREATE`. -/
  create : FileTurn
  /-- `WRITE` of what is owed. -/
  write : FileTurn
  /-- `SEEK` to the start. -/
  seek : FileTurn
  /-- `UNLINK` of a file that is let go. -/
  remove : FileTurn
deriving DecidableEq

/-- What a write is answered. -/
inductive WriteAnswer where
  /-- `0`: it is taken. -/
  | ok
  /-- `EAGAIN`: nothing of it is taken. -/
  | again
  /-- `EIO`: the spool is lost. -/
  | io
  /-- `EINVAL`. -/
  | inval
deriving DecidableEq

namespace Spool

/-- No spool (`spool_none`). -/
def empty : Spool := ⟨.none, false, false, false, .empty⟩

/-- The spill is let go (`spill_release`). -/
def spillRelease (sp : Spool) (spill : Spill) : Spool × Spill :=
  if sp.holds then ({ sp with holds := false }, .empty) else (sp, spill)

/-- Bytes wait behind what the spool holds in the spill (`spill_take`); not if
the spill is another's, or has no room. -/
def spillTake (sp : Spool) (spill : Spill) (bytes : Bytes) : Option (Spool × Spill) :=
  if sp.holds then
    if spill.buf.length + bytes.length ≤ spillMax then
      some (sp, { spill with buf := spill.buf ++ bytes })
    else none
  else if spill.busy then none
  else if bytes.length ≤ spillMax then some ({ sp with holds := true }, ⟨true, 0, bytes⟩)
  else none

/-- The file does not hold what was written (`spool_fail`). -/
def fail (sp : Spool) (spill : Spill) : Spool × Spill :=
  let (sp, spill) := sp.spillRelease spill
  ({ sp with st := .failed }, spill)

/-- The file is closed (`spool_close`). -/
def close (sp : Spool) : Spool := { sp with file := .empty }

/-- The stale file is asked away; whether it was there does not matter. -/
def pollUnlink (sp : Spool) (turn : FileTurn) : Spool :=
  if sp.st = .unlink && !turn.pending then { sp with st := .create } else sp

/-- The file is asked for. One that was let go meanwhile is closed, and removed
next. -/
def pollCreate (sp : Spool) (turn : FileTurn) : Spool :=
  if sp.st = .create && !turn.pending then
    let sp :=
      if turn = .failed then { sp with st := .failed }
      else { sp with st := .ready, file := .empty }
    if sp.doomed then { sp.close with st := .remove } else sp
  else sp

/-- What the spill holds is asked into the file; the rest of a short count
waits. -/
def drain (sp : Spool) (spill : Spill) (turn : FileTurn) : Spool × Spill :=
  if !sp.holds then (sp, spill)
  else if spill.buf.length < spill.off then sp.fail spill
  else
    let (file, reply) := sp.file.ask (.write spill.rest) turn
    let sp := { sp with file := file }
    match reply with
    | .notYet => (sp, spill)
    | .failed => sp.fail spill
    | .done bytes =>
      if bytes = [] then (sp, spill)
      else if spill.buf.length ≤ spill.off + bytes.length then sp.spillRelease spill
      else (sp, { spill with off := spill.off + bytes.length })

/-- A file whose bytes are all written is asked back to its start. -/
def pollSeek (sp : Spool) (turn : FileTurn) : Spool :=
  if sp.st = .ready && !sp.holds && sp.isSealed then
    let (file, reply) := sp.file.ask .rewind turn
    let sp := { sp with file := file }
    match reply with
    | .notYet => sp
    | .failed => { sp with st := .failed }
    | .done _ => { sp with st := .reading }
  else sp

/-- A file that was let go is asked away. -/
def pollRemove (sp : Spool) (turn : FileTurn) : Spool :=
  if sp.st = .remove && !turn.pending then .empty else sp

/-- The file system is asked what is next (`spool_poll`). -/
def poll (sp : Spool) (spill : Spill) (turns : PollTurns) : Spool × Spill :=
  let sp := (sp.pollUnlink turns.unlink).pollCreate turns.create
  if sp.st = .ready then
    let (sp, spill) := sp.drain spill turns.write
    (sp.pollSeek turns.seek, spill)
  else (sp.pollRemove turns.remove, spill)

/-- The spool is let go (`spool_release`). -/
def release (sp : Spool) (spill : Spill) (turns : PollTurns) : Spool × Spill :=
  let (sp, spill) := sp.spillRelease spill
  match sp.st with
  | .none => (sp, spill)
  | .remove => sp.poll spill turns
  -- The create completes all the same: it is asked to its decision.
  | .create => { sp with doomed := true }.poll spill turns
  | .unlink => { sp with st := .remove }.poll spill turns
  | .ready | .reading | .failed => { sp.close with st := .remove }.poll spill turns

/-- A write goes to the file, if it can be asked and nothing waits; what the file
does not take goes to the spill (the second half of `stream_write`). -/
def takeWrite (sp : Spool) (spill : Spill) (bytes : Bytes) (turn : FileTurn) :
    (Spool × Spill) × WriteAnswer :=
  if sp.st = .ready && !sp.holds then
    let (file, reply) := sp.file.ask (.write bytes) turn
    let sp := { sp with file := file }
    match reply with
    | .failed => (sp.fail spill, .io)
    | .notYet =>
      match sp.spillTake spill bytes with
      | some p => (p, .ok)
      | none => ((sp, spill), .again)
    | .done moved =>
      let rest := bytes.drop moved.length
      if rest = [] then ((sp, spill), .ok)
      else
        match sp.spillTake spill rest with
        | some p => (p, .ok)
        | none =>
          if moved = [] then ((sp, spill), .again)
          -- Part is in the file, and the rest has nowhere to wait.
          else (sp.fail spill, .io)
  else
    match sp.spillTake spill bytes with
    | some p => (p, .ok)
    | none => ((sp, spill), .again)

end Spool

end Loam

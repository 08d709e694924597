import Loam.LittleEndian
import Loam.Lib.RingBuffer
import Loam.Lib.Run

/-!
# The framing of body channels

A record travels on a body channel behind a header that gives its length and
its correlation id (`body_frame.rs`). A channel takes of a write what it has
room for, which may be nothing, and gives of a read what it has, so that a
frame is cut anywhere on both sides. A writer keeps what the channel has not
taken: `Sender` one frame, from where its caller staged the record, and `Ring`
a queue of them. An `Inbox` reads towards one record and never past it. A
record it has no room for it reports by its id, and throws its bytes away as
they come.

What a channel takes or gives, call by call, is a list of numbers here; when
it ends the channel takes, or gives, nothing. `FrameWorld` is a writer, a
channel and an inbox. The caller of a sender stages a record only when nothing
is owed and keeps it as it is until it is not, and a reader takes a record
only when `pull` has found one.
-/

namespace Loam.BodyFrame

/-! ## Frames -/

/-- The header: length, then correlation id (`HDR`). -/
def hdrLen : ℕ := 8

/-- `CID_LEN`. -/
def cidLen : ℕ := 4

/-- A frame header for a record of `recordLen` bytes (`header`). -/
def header (cid : UInt32) (recordLen : ℕ) : Bytes :=
  leBytes 4 (cidLen + recordLen) ++ leBytes 4 cid.toNat

/-- A record and its correlation id. The bytes of a frame are counted in 32
bits, and no record is near that. -/
structure Frame where
  cid : UInt32
  record : Bytes
  fits : hdrLen + record.length < 2 ^ 32

/-- The frame as it travels. -/
def Frame.bytes (f : Frame) : Bytes := header f.cid f.record.length ++ f.record

/-- Frames one after another. -/
def frames (fs : List Frame) : Bytes := (fs.map Frame.bytes).flatten

@[simp] theorem frames_nil : frames [] = [] := rfl

@[simp] theorem frames_cons (f : Frame) (fs : List Frame) :
    frames (f :: fs) = f.bytes ++ frames fs := rfl

@[simp] theorem frames_append (fs gs : List Frame) : frames (fs ++ gs) = frames fs ++ frames gs := by
  simp [frames]

@[simp] theorem length_header (cid : UInt32) (n : ℕ) : (header cid n).length = hdrLen := by
  simp [header, hdrLen]

/-! ## Writing -/

/-- The smallest piece a write is cut to (`PIECE_MIN`). -/
def pieceMin : ℕ := 64

/-- Offer `n` bytes: what the channel refuses is offered again in a quarter of
the size. Counts the bytes taken. -/
def offer : List ℕ → ℕ → ℕ × List ℕ
  | [], _ => (0, [])
  | k :: ks, n =>
    if 0 < min k n then (min k n, ks)
    else if n ≤ pieceMin then (0, ks)
    else offer ks (max (n / 4) pieceMin)

/-- One frame owed (`Sender`). -/
structure Sender where
  hdr : Bytes
  len : ℕ
  /-- Bytes of header and record the channel has taken. -/
  sent : ℕ
  owed : Bool
deriving DecidableEq

namespace Sender

/-- Nothing is owed. -/
def new : Sender := ⟨List.replicate hdrLen 0, 0, 0, false⟩

/-- Owe a frame for the record the caller has staged (`stage`). -/
def staged (cid : UInt32) (recordLen : ℕ) : Sender := ⟨header cid recordLen, recordLen, 0, true⟩

/-- What is offered next: the rest of the header, or of the record. -/
def piece (s : Sender) (record : Bytes) : Bytes :=
  if s.sent < hdrLen then s.hdr.drop s.sent
  else (record.drop (s.sent - hdrLen)).take (s.len - (s.sent - hdrLen))

/-- Offer piece after piece, until the frame is taken or a piece is refused. -/
def flushLoop (record : Bytes) : ℕ → Sender → List ℕ → Sender × Bytes
  | 0, s, _ => (s, [])
  | fuel + 1, s, ks =>
    if s.sent < hdrLen + s.len then
      let (took, ks) := offer ks (s.piece record).length
      if took = 0 then (s, [])
      else
        let (s', out) := flushLoop record fuel { s with sent := s.sent + took } ks
        (s', (s.piece record).take took ++ out)
    else ({ s with owed := false, len := 0, sent := 0 }, [])

/-- Offer what is owed; what the channel takes is the second part (`flush`). -/
def flush (s : Sender) (record : Bytes) (ks : List ℕ) : Sender × Bytes :=
  if s.owed then flushLoop record (hdrLen + s.len - s.sent + 1) s ks else (s, [])

/-- What the channel has not taken. -/
def owes (s : Sender) (record : Bytes) : Bytes :=
  if s.owed then (s.hdr ++ record.take s.len).drop s.sent else []

/-- What is owed is there. -/
structure Staged (s : Sender) (record : Bytes) : Prop where
  hdr : s.hdr.length = hdrLen
  len : s.len ≤ record.length
  sent : s.sent ≤ hdrLen + s.len

end Sender

/-- Offer the queued bytes (`Ring::flush`). -/
def ringFlushLoop : ℕ → RingBuffer UInt8 → List ℕ → RingBuffer UInt8 × Bytes
  | 0, r, _ => (r, [])
  | fuel + 1, r, ks =>
    if r.len = 0 then ({ r with head := 0 }, [])
    else
      let (took, ks) := offer ks r.run
      if took = 0 then (r, [])
      else
        let (r', out) := ringFlushLoop fuel (r.advance took) ks
        (r', r.front.take took ++ out)

/-- A writer of frames. -/
inductive Writer where
  /-- One at a time, from where the caller staged its record. -/
  | sender (s : Sender) (record : Bytes)
  | ring (r : RingBuffer UInt8)
deriving DecidableEq

namespace Writer

/-- Send a frame, unless one is owed (`stage`), or there is no room for it
(`Ring::push`). -/
def send (f : Frame) : Writer → Option Writer
  | sender s _ =>
    if s.owed then none else some (sender (.staged f.cid f.record.length) f.record)
  | ring r =>
    if r.free < hdrLen + f.record.length then none
    else some (ring ((r.put (header f.cid f.record.length)).put f.record))

/-- Offer what is owed. -/
def flush (ks : List ℕ) : Writer → Writer × Bytes
  | sender s record => (sender (s.flush record ks).1 record, (s.flush record ks).2)
  | ring r => (ring (ringFlushLoop (r.len + 1) r ks).1, (ringFlushLoop (r.len + 1) r ks).2)

/-- What the channel has not taken. -/
def owes : Writer → Bytes
  | sender s record => s.owes record
  | ring r => r.contents

/-- The writer is as its operations leave it. -/
def Sound : Writer → Prop
  | sender s record => s.owed = true → s.Staged record
  | ring r => r.Fits

end Writer

/-! ## Reading -/

/-- What one `pull` found. -/
inductive Pull where
  | record
  | empty
  /-- A frame announced a record larger than the inbox. -/
  | oversize (cid : UInt32)
  /-- A frame announced a length below its correlation id. -/
  | malformed
deriving DecidableEq

/-- What has arrived of a frame (`Inbox`). -/
structure Inbox where
  hdr : Bytes := []
  /-- A whole record is held and has not been taken. -/
  ready : Bool := false
  /-- The channel delivered a header no frame can have. -/
  broken : Bool := false
  need : ℕ := 0
  /-- Bytes of an oversize record still to discard. -/
  skip : ℕ := 0
  cid : UInt32 := 0
  buf : Bytes := []
deriving DecidableEq

/-- Read towards `want` bytes, at most `piece` at once, until there are that many
or the channel gives none. -/
def fill (piece : ℕ) : List ℕ → ℕ → Bytes → Bytes × Bytes × List ℕ
  | ks, 0, chan => ([], chan, ks)
  | [], _, chan => ([], chan, [])
  | k :: ks, want + 1, chan =>
    let n := min (min k piece) (min (want + 1) chan.length)
    if n = 0 then ([], chan, ks)
    else
      let (got, chan', ks') := fill piece ks (want + 1 - n) (chan.drop n)
      (chan.take n ++ got, chan', ks')

namespace Inbox

variable (cap : ℕ) (x : Inbox)

/-- The last part of `pull`: the record. -/
def pullRecord (chan : Bytes) (ks : List ℕ) : Pull × Inbox × Bytes :=
  let (got, chan, _) := fill x.need ks (x.need - x.buf.length) chan
  let x := { x with buf := x.buf ++ got }
  if x.buf.length < x.need then (.empty, x, chan) else (.record, { x with ready := true }, chan)

/-- The middle part: the header, and what it announces. -/
def pullHeader (chan : Bytes) (ks : List ℕ) : Pull × Inbox × Bytes :=
  let (got, chan, ks) := fill hdrLen ks (hdrLen - x.hdr.length) chan
  let x := { x with hdr := x.hdr ++ got }
  if x.hdr.length < hdrLen then (.empty, x, chan)
  else if x.need = 0 ∧ x.buf = [] then
    let len := leNat (x.hdr.take 4)
    if len < cidLen then (.malformed, { x with broken := true }, chan)
    else
      let x := { x with cid := UInt32.ofNat (leNat (x.hdr.drop 4)) }
      if cap < len - cidLen then
        (.oversize x.cid, { x with skip := len - cidLen, hdr := [] }, chan)
      else if len - cidLen = 0 then (.record, { x with ready := true }, chan)
      else { x with need := len - cidLen }.pullRecord chan ks
  else x.pullRecord chan ks

/-- Read toward the next whole record. -/
def pull (chan : Bytes) (ks : List ℕ) : Pull × Inbox × Bytes :=
  if x.broken then (.malformed, x, chan)
  else if x.ready then (.record, x, chan)
  else
    -- an oversize record already reported: discard the rest of it
    let (got, chan, ks) := fill 256 ks x.skip chan
    let x := { x with skip := x.skip - got.length }
    if x.skip ≠ 0 then (.empty, x, chan) else x.pullHeader cap chan ks

/-- A partly arrived frame is in hand. -/
def busy : Bool := x.ready || !x.hdr.isEmpty || decide (x.skip ≠ 0)

/-- Release the held record. -/
def take : Inbox := { x with ready := false, hdr := [], need := 0, buf := [] }

end Inbox

/-! ## A writer, a channel and an inbox -/

/-- What the reader learns of a frame. -/
inductive Delivery where
  | record (cid : UInt32) (bytes : Bytes)
  | oversize (cid : UInt32)
deriving DecidableEq

/-- What a reader with room for `cap` bytes is to learn of a frame. -/
def Frame.delivery (cap : ℕ) (f : Frame) : Delivery :=
  if cap < f.record.length then .oversize f.cid else .record f.cid f.record

/-- A writer, a channel and an inbox. -/
structure FrameWorld where
  writer : Writer
  channel : Bytes
  inbox : Inbox
  sent : List Frame
  log : List Delivery

/-- One event. -/
inductive FrameEvent where
  /-- A frame is sent, if the writer can take it. -/
  | send (f : Frame)
  | flush (ks : List ℕ)
  /-- The reader reads towards a record. -/
  | pull (ks : List ℕ)
  | take

namespace FrameWorld

variable (cap : ℕ) (w : FrameWorld)

/-- One step. -/
def step (w : FrameWorld) : FrameEvent → FrameWorld
  | .send f =>
    match w.writer.send f with
    | some writer => { w with writer := writer, sent := w.sent ++ [f] }
    | none => w
  | .flush ks =>
    { w with
      writer := (w.writer.flush ks).1
      channel := w.channel ++ (w.writer.flush ks).2 }
  | .pull ks =>
    let (found, inbox, channel) := w.inbox.pull cap w.channel ks
    { w with
      inbox := inbox
      channel := channel
      log := match found with
        | .oversize cid => w.log ++ [.oversize cid]
        | _ => w.log }
  | .take =>
    if w.inbox.ready then
      { w with inbox := w.inbox.take, log := w.log ++ [.record w.inbox.cid w.inbox.buf] }
    else w

/-- A writer that owes nothing, and a reader that has read nothing. -/
def init (writer : Writer) : FrameWorld := ⟨writer, [], {}, [], []⟩

/-- Nothing is under way: nothing is owed, nothing in the channel, and no frame
in hand. -/
def Quiet : Prop := w.writer.owes = [] ∧ w.channel = [] ∧ w.inbox.busy = false

end FrameWorld

end Loam.BodyFrame

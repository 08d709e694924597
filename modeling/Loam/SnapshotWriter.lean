import Loam.SnapshotFile
import Mathlib.Logic.Function.Basic
import Mathlib.Data.List.Forall2

/-!
# Writing a generation

A generation is written into the file that is not in service: the old file is
removed, a header without the mark goes first, then the rows, and the header is
written over it after the rows are fenced. The file's name is fenced last. So
a crash finds the file it was, none, one that is no generation, or all of it.

The device takes writes in any order until a fence. A crash leaves anything of
what stands behind the header when it is not fenced; the header itself is in
one sector, and is left as it was after one of the calls since the last fence.
A name that was removed or made may come back as it was until it is fenced.

Two things reach past this. A provider may take the header in pieces, and a
piece with the mark and the count makes the file a generation, of another
number (`SnapWorld.Torn`). One that does not remove files may leave a generation
there to be written over, and its header is not fenced away before its rows
are.
-/

namespace Loam

/-! ## The file and its name -/

/-- A file that is written. -/
structure SnapFile where
  bytes : Bytes
  offset : ℕ
  /-- What its header has been since the last fence. -/
  heads : List Bytes
  /-- What stands behind the header is fenced. -/
  settled : Bool
deriving DecidableEq

namespace SnapFile

/-- An empty file. -/
def new : SnapFile := ⟨[], 0, [[]], true⟩

/-- The file as a boot finds it. -/
def onDevice (bytes : Bytes) : SnapFile := ⟨bytes, 0, [bytes.take snapHdr], true⟩

/-- Move the descriptor (`FS_SEEK`). -/
def seek (f : SnapFile) (offset : ℕ) : SnapFile := { f with offset := offset }

/-- Write bytes where the descriptor is (`FS_WRITE`). -/
def write (f : SnapFile) (bs : Bytes) : SnapFile :=
  let bytes := f.bytes.take f.offset ++ bs ++ f.bytes.drop (f.offset + bs.length)
  { bytes := bytes
    offset := f.offset + bs.length
    heads := f.heads ++ [bytes.take snapHdr]
    settled := f.settled && decide (f.offset + bs.length ≤ snapHdr) }

/-- What has been written is durable (`FS_FSYNC`). -/
def fence (f : SnapFile) : SnapFile := { f with heads := [f.bytes.take snapHdr], settled := true }

/-- A crash leaves these bytes of it. -/
def Leaves (f : SnapFile) (d : Bytes) : Prop :=
  d.take snapHdr ∈ f.heads ∧ (f.settled = true → d.drop snapHdr = f.bytes.drop snapHdr)

end SnapFile

/-- A path. -/
structure SnapName where
  file : Option SnapFile
  /-- What else a crash may find there. -/
  others : List (Option SnapFile)
deriving DecidableEq

/-- What a crash leaves where there is a file, or none. -/
def LeavesOf : Option SnapFile → Option Bytes → Prop
  | none, d => d = none
  | some f, d => ∃ b, d = some b ∧ f.Leaves b

/-- A crash leaves this at the path. -/
def SnapName.Leaves (n : SnapName) (d : Option Bytes) : Prop :=
  LeavesOf n.file d ∨ ∃ o ∈ n.others, LeavesOf o d

/-! ## The writer -/

/-- Where a writer is. -/
inductive SnapWritePhase where
  | idle
  | unlink
  | create
  /-- Writing a header without the mark. -/
  | placeholder
  | records
  | fsyncRecords
  | seek
  | header
  | fsyncHeader
  | name
deriving DecidableEq

/-- A writer (`SnapWriter`). -/
structure SnapWriter where
  phase : SnapWritePhase
  slot : ℕ
  count : ℕ
  generation : UInt64
  stage : Bytes
  written : ℕ
deriving DecidableEq

/-- A writer that has not started. -/
def SnapWriter.new : SnapWriter := ⟨.idle, 0, 0, 0, [], 0⟩

/-- A generation. -/
structure SnapGen (L : Limits) where
  slot : ℕ
  generation : UInt64
  rows : List (SnapRow L)

namespace SnapGen

variable {L : Limits}

/-- Its header. -/
def header (g : SnapGen L) : Bytes := snapHeader g.rows.length g.generation

/-- The bytes of its rows. -/
def body (g : SnapGen L) : Bytes := g.rows.flatMap SnapRow.encode

/-- Its file. -/
def bytes (g : SnapGen L) : Bytes := g.header ++ g.body

end SnapGen

/-- A writer and the paths. -/
structure SnapWorld (L : Limits) where
  names : ℕ → SnapName
  writer : SnapWriter
  rows : List (SnapRow L)
  fenced : List (SnapGen L)
  /-- The generation that was finished at each path, in a file of its size, and
  has not been written over. -/
  kept : ℕ → Option (SnapGen L)

/-- What happens. -/
inductive SnapEvent (L : Limits) where
  | start (slot : ℕ) (generation : UInt64)
  | io (answer : FsAnswer)
  | stage (row : SnapRow L)
  | finish
  | abandon
  | crash (left : ℕ → Option Bytes)

/-- The placeholder. -/
def snapBlank : Bytes := List.replicate snapHdr 0

namespace SnapWorld

variable {L : Limits}

/-- No file, and nothing written. -/
def boot : SnapWorld L := ⟨fun _ => ⟨none, []⟩, .new, [], [], fun _ => none⟩

/-- The generation being written. -/
def gen (w : SnapWorld L) : SnapGen L := ⟨w.writer.slot, w.writer.generation, w.rows⟩

/-- The path it is written to. -/
def name (w : SnapWorld L) : SnapName := w.names w.writer.slot

/-- That path is otherwise. -/
def setName (w : SnapWorld L) (n : SnapName) : SnapWorld L :=
  { w with names := Function.update w.names w.writer.slot n }

/-- The file there is otherwise. -/
def setFile (w : SnapWorld L) (change : SnapFile → SnapFile) : SnapWorld L :=
  w.setName { w.name with file := w.name.file.map change }

/-- The writer goes on to a phase. -/
def goto (w : SnapWorld L) (phase : SnapWritePhase) : SnapWorld L :=
  { w with writer := { w.writer with phase := phase } }

/-- The writer stages bytes, and goes on to a phase. -/
def owes (w : SnapWorld L) (stage : Bytes) (phase : SnapWritePhase) : SnapWorld L :=
  { w with writer := { w.writer with phase := phase, stage := stage, written := 0 } }

/-- Bytes that are owed are taken, `n` at most (`drain_stage`); when all are it
goes on to the next phase. -/
def write (w : SnapWorld L) (n : ℕ) (next : SnapWritePhase) : SnapWorld L :=
  let chunk := (w.writer.stage.drop w.writer.written).take n
  let w' := w.setFile (SnapFile.write · chunk)
  if w.writer.written + chunk.length < w.writer.stage.length then
    { w' with writer := { w.writer with written := w.writer.written + chunk.length } }
  else w'.owes [] next

/-- The answer to a write of what is owed. Where nothing is, no call is made. -/
def drain (w : SnapWorld L) (next : SnapWritePhase) : FsAnswer → SnapWorld L
  | .again | .failed => w
  | .done n => if w.writer.stage = [] ∨ n = 0 then w else w.write n next

/-- One call, and what the writer does with its answer (`poll_open`, `flush`,
`poll_finish`). A call that fails leaves it where it is, to be given up. -/
def call (w : SnapWorld L) (a : FsAnswer) : SnapWorld L :=
  match w.writer.phase with
  | .idle => w
  | .unlink =>
    match a with
    -- Taken and not decided, it may have been done.
    | .again => w.setName { w.name with others := w.name.others ++ [none] }
    | .failed => w.goto .create
    | .done _ => (w.setName ⟨none, w.name.others ++ [w.name.file]⟩).goto .create
  | .create =>
    match a with
    | .again => w.setName { w.name with others := w.name.others ++ [some .new] }
    | .failed => w.goto .idle
    | .done _ =>
      match w.name.file with
      | none => (w.setName ⟨some .new, w.name.others ++ [none]⟩).owes snapBlank .placeholder
      -- A file that is there is opened as it is.
      | some f => (w.setName ⟨some (f.seek 0), w.name.others⟩).owes snapBlank .placeholder
  | .placeholder => w.drain .records a
  | .records => w.drain .records a
  | .fsyncRecords =>
    match a with
    | .again | .failed => w
    | .done _ => { (w.setFile .fence).goto .seek with fenced := w.fenced ++ [w.gen] }
  | .seek =>
    match a with
    | .again | .failed => w
    | .done _ => (w.setFile (SnapFile.seek · 0)).owes
        (snapHeader w.writer.count w.writer.generation) .header
  | .header => w.drain .fsyncHeader a
  | .fsyncHeader =>
    match a with
    | .again | .failed => w
    | .done _ => (w.setFile .fence).goto .name
  | .name =>
    match a with
    | .again | .failed => w
    | .done _ =>
      { (w.setName { w.name with others := [] }).goto .idle with
        kept := Function.update w.kept w.writer.slot
          (if w.name.file.map SnapFile.bytes = some w.gen.bytes ∧ w.gen.bytes.length < 4294967296
            then some w.gen else none) }

/-- One event. -/
def step (w : SnapWorld L) : SnapEvent L → SnapWorld L
  | .start slot generation =>
    if w.writer.phase ≠ .idle then w
    else
      { w with
        writer := ⟨.unlink, slot, 0, generation, [], 0⟩
        rows := []
        kept := Function.update w.kept slot none }
  | .io a => w.call a
  | .stage r =>
    if w.writer.phase = .records ∧ w.writer.stage = [] then
      { w with
        writer := { w.writer with stage := r.encode, written := 0, count := w.writer.count + 1 }
        rows := w.rows ++ [r] }
    else w
  | .finish =>
    if w.writer.phase = .records ∧ w.writer.stage = [] then w.goto .fsyncRecords else w
  | .abandon => w.owes [] .idle
  | .crash left =>
    { w with names := fun i => ⟨(left i).map .onDevice, []⟩, writer := .new, rows := [] }

/-- A crash leaves what it can. -/
def Possible (w : SnapWorld L) : SnapEvent L → Prop
  | .crash left => ∀ i, (w.names i).Leaves (left i)
  | _ => True

/-! ## What reaches past the header -/

/-- The header when so many bytes of it are written over the placeholder. -/
def headed (h : Bytes) (k : ℕ) : Bytes := h.take k ++ List.replicate (snapHdr - k) 0

/-- It has the mark and the count, and is not the header yet. -/
def Torn (h : Bytes) (k : ℕ) : Prop := headed h k ≠ h ∧ (headed h k).take 8 = h.take 8

instance (h : Bytes) (k : ℕ) : Decidable (Torn h k) := by unfold Torn; infer_instance

/-- No file with the mark is written over, and no header is written in part
that has the mark and the count. -/
def Careful (w : SnapWorld L) : SnapEvent L → Prop
  | .io .failed => w.writer.phase = .unlink → ∀ f, w.name.file = some f →
      f.bytes.take 4 ≠ snapMagic
  | .io (.done n) => w.writer.phase = .header → ¬ Torn w.writer.stage
      (w.writer.written + ((w.writer.stage.drop w.writer.written).take n).length)
  | _ => True

instance decidableCareful (w : SnapWorld L) : ∀ e, Decidable (w.Careful e)
  | .io .failed =>
    match hf : w.name.file with
    | none => .isTrue fun _ f h => by cases hf.symm.trans h
    | some f =>
      decidable_of_iff (w.writer.phase = .unlink → f.bytes.take 4 ≠ snapMagic)
        ⟨fun h hp f' hf' => Option.some.inj (hf.symm.trans hf') ▸ h hp, fun h hp => h hp f hf⟩
  | .io (.done n) => inferInstanceAs (Decidable (w.writer.phase = .header → ¬ Torn _ _))
  | .io .again | .start .. | .stage _ | .finish | .abandon | .crash _ => .isTrue trivial

end SnapWorld

end Loam

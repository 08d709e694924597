import Loam.Arena
import Loam.BlockRuns
import Loam.VolumeGeometry

/-!
# Reading a window of a volume

`volume read` writes a window of a volume's committed image to a file. It resolves the path to a
map root, and walks the map from the window's first byte: the leaf that names the extent it
stands in, unless that is the leaf it has, the extent, and its part of the window. An extent that
was never written is zeros, and so is all of a leaf that was not.

The walk is suspended wherever it asks: for a page or an extent, which the node answers later,
and at every write, of which the file may take some, or none now. What it owes the file, the
bytes staged and the zeros after them, goes before anything else when it resumes.
-/

namespace Loam

/-- The digest an object id names (`digest_of`). -/
def oidDigest (oid : Bytes) : Option Digest :=
  if oid.length ≠ 71 ∨ oid.take 7 ≠ idPrefix then none
  else (hexBytes (oid.drop 7)).bind fun d => if h : d.length = 32 then some ⟨d, h⟩ else none

/-- What a call to the file provider comes to (`Io`, `FdPoll`). -/
inductive Io where
  | done
  | pending
  | failed
deriving DecidableEq

/-- What the provider answers a write. -/
inductive Wrote where
  | took (n : ℕ)
  /-- It can take none now (`EAGAIN`, `EINPROGRESS`). -/
  | pending
  | failed
deriving DecidableEq

/-- What the node answers. -/
inductive NodeReply where
  | found
  | refused
  | garbled
deriving DecidableEq

/-- The node that is read: what the path is bound to, a kind and an object id, and its bodies. -/
structure VolumeNode where
  binding : Option (UInt8 × Bytes)
  body : Digest → Bytes

/-- Where a read stands (`st`). -/
inductive VPhase where
  | lookup
  /-- The file is created (`VREAD_CREATE`). -/
  | create
  | root
  | walk
  | leaf
  | extent
  /-- The file is fenced (`VREAD_SYNC`). -/
  | sync
  /-- The file's name is fenced (`VREAD_NAME`). -/
  | name
deriving DecidableEq

/-- A read. -/
structure VRead where
  phase : VPhase
  /-- The next byte of the volume that is not staged. -/
  off : ℕ
  size : ℕ
  entry : Digest
  page : Bytes
  leaf : Bytes
  leafChild : ℕ
  wanted : Digest
  waiting : Bool
  buf : Bytes
  wrAt : ℕ
  zeroLeft : ℕ
  file : Bytes
  /-- How it ended, if it has: `true` where the bytes were said to be read. -/
  ended : Option Bool

/-- What one step meets: the node's answer, if it has come, and what the file provider answers
each call that is made. -/
structure VTurn where
  reply : Option NodeReply
  create : Io
  /-- The writes, one after another; then it can take none. -/
  writes : List Wrote
  sync : Io
  name : Io

namespace VRead

variable (node : VolumeNode)

/-- The command ends (`finish`, `fail`). -/
def finish (s : VRead) (ok : Bool) : VRead := { s with ended := some ok }

/-- Ask for a body (`send_get_body`). -/
def ask (s : VRead) (phase : VPhase) (d : Digest) : VRead :=
  { s with phase := phase, wanted := d, waiting := true }

/-- Nothing is owed to the file. -/
def drained (s : VRead) : Bool := decide (s.buf.length ≤ s.wrAt) && decide (s.zeroLeft = 0)

/-- Stage zeros, once what was staged is written. -/
def refill (s : VRead) : VRead :=
  if s.buf.length ≤ s.wrAt then
    let n := if s.zeroLeft < maxBody then s.zeroLeft else maxBody
    { s with buf := List.replicate n 0, wrAt := 0, zeroLeft := s.zeroLeft - n }
  else s

/-- The file takes so many of the bytes staged. -/
def took (n : ℕ) (s : VRead) : VRead :=
  let b := s.buf.drop s.wrAt
  let k := min n b.length
  { s with wrAt := s.wrAt + k, file := s.file ++ b.take k }

/-- Offer the file what is owed (`fs_drain`): what came of it, and the writes not asked. -/
def drain : List Wrote → VRead → Io × VRead × List Wrote
  | writes, s =>
    if s.drained then (.done, { s with buf := [], wrAt := 0 }, writes)
    else
      let s := s.refill
      match writes with
      | [] => (.pending, s, [])
      | .pending :: writes => (.pending, s, writes)
      | .failed :: writes => (.failed, s, writes)
      | .took n :: writes =>
        if n = 0 then (.failed, s, writes) else drain writes (s.took n)

/-- Fence the written file's name (`vread_name`). -/
def fenceName (t : VTurn) (s : VRead) : VRead :=
  match t.name with
  | .done => s.finish true
  | .pending => s
  | .failed => s.finish false

/-- Every byte is written: fence the file, and then its name (`vread_sync`). -/
def fence (t : VTurn) (s : VRead) : VRead :=
  match t.sync with
  | .done => { s with phase := .name }.fenceName t
  | .pending => s
  | .failed => s.finish false

/-- What the extent under `off` is: a body, or the leaf to be fetched first; or there is no
answer to that. -/
inductive Under where
  | leaf (child : ℕ) (d : Digest)
  | extent (d : Digest)
  | lost
deriving DecidableEq

/-- What is under `off`. -/
def under (root : RootPage) (s : VRead) : Under :=
  let place := locate root.depth (s.off / root.extentSize)
  match root.child place.1 with
  | none => .lost
  | some cd =>
    if root.depth = 1 then .extent cd
    else if cd = Digest.zero then .extent Digest.zero
    else if s.leaf.length = 0 ∨ s.leafChild ≠ place.1 then .leaf place.1 cd
    else
      match decodeLeaf s.leaf with
      | none => .lost
      | some leaf => .extent ((leaf.digest place.2).getD Digest.zero)

/-- Where the part of the window ends that is in the extent under `off`. -/
def partEnd (extentSize : ℕ) (s : VRead) : ℕ :=
  s.off / extentSize * extentSize + min (s.size - s.off / extentSize * extentSize) extentSize

/-- The walk's loop: ask for what is under `off`, and pass over zeros. -/
def walk (root : RootPage) (t : VTurn) : ℕ → List Wrote → VRead → VRead
  | 0, _, s => s
  | fuel + 1, writes, s =>
    if s.off < s.size then
      match under root s with
      | .lost => s.finish false
      | .leaf child d => { s with leafChild := child, leaf := [] }.ask .leaf d
      | .extent d =>
        if d = Digest.zero then
          let stop := s.partEnd root.extentSize
          let s := { s with zeroLeft := stop - s.off, off := stop, phase := .walk }
          match drain writes s with
          | (.done, s, writes) => walk root t fuel writes s
          | (.pending, s, _) => s
          | (.failed, s, _) => s.finish false
        else s.ask .extent d
    else { s with phase := .sync }.fence t

/-- What is owed goes to the file, and the walk goes on. -/
def goOn (root : RootPage) (t : VTurn) (s : VRead) : VRead :=
  match drain t.writes s with
  | (.done, s, writes) => walk root t (s.size - s.off + 1) writes s
  | (.pending, s, _) => s
  | (.failed, s, _) => s.finish false

/-- A leaf page arrived, or an extent: its part of the window is staged. -/
def arrived (root : RootPage) (b : Bytes) (t : VTurn) (s : VRead) : VRead :=
  match s.phase with
  | .leaf => { s with leaf := b, phase := .walk }.goOn root t
  | _ =>
    let start := s.off - s.off / root.extentSize * root.extentSize
    let stop := min (s.size - s.off / root.extentSize * root.extentSize) root.extentSize
    if b.length < stop ∨ stop < start then s.finish false
    else if maxBody < stop - start then s.finish false
    else
      { s with
        buf := (b.drop start).take (stop - start), wrAt := 0, phase := .walk
        off := s.partEnd root.extentSize }.goOn root t

/-- One step of the walk (`vread_next`). -/
def next (answered : Option Bytes) (t : VTurn) (s : VRead) : VRead :=
  match decodeRoot s.page with
  | none => s.finish false
  | some root =>
    match answered with
    | some b => s.arrived root b t
    | none => s.goOn root t

/-- The root page arrived. -/
def rootArrived (b : Bytes) (t : VTurn) (s : VRead) : VRead :=
  let s := { s with page := b }
  match decodeRoot b with
  | none => s.finish false
  | some root =>
    if s.size ≤ root.sizeBytes then { s with leaf := [], phase := .walk }.next none t
    else s.finish false

/-- The file is created, and the root page asked for. -/
def created (t : VTurn) (s : VRead) : VRead :=
  match t.create with
  | .pending => s
  | .failed => s.finish false
  | .done => s.ask .root s.entry

/-- The path was looked up: it must be bound to a volume, by its root's digest. -/
def lookedUp (t : VTurn) (s : VRead) : VRead :=
  match node.binding with
  | none => s.finish false
  | some (kind, oid) =>
    match if kind = kindVolume then oidDigest oid else none with
    | none => s.finish false
    | some d => { s with entry := d, phase := .create }.created t

/-- An answer is in. -/
def answered (t : VTurn) (s : VRead) : VRead :=
  match s.phase with
  | .lookup => s.lookedUp node t
  | .root => s.rootArrived (node.body s.wanted) t
  | _ => s.next (some (node.body s.wanted)) t

/-- One step of the command, the node's answers being its own (`drive`, `cmd_vread`). -/
def step (s : VRead) (t : VTurn) : VRead :=
  if s.ended.isSome then s
  else if s.waiting then
    match t.reply with
    | none => s
    | some .found => answered node t { s with waiting := false }
    | some _ => { s with waiting := false }.finish false
  else
    match s.phase with
    | .create => s.created t
    | .sync => s.fence t
    | .name => s.fenceName t
    | _ => s.next none t

/-- The command begins: the path is looked up (`cmd_vread`, 0). -/
def begin (off len : ℕ) : VRead where
  phase := .lookup
  off := off
  size := min (off + len) (2 ^ 64 - 1)
  entry := Digest.zero
  page := []
  leaf := []
  leafChild := 0
  wanted := Digest.zero
  waiting := true
  buf := []
  wrAt := 0
  zeroLeft := 0
  file := []
  ended := none

/-- A run of steps. -/
def run (s : VRead) (ts : List VTurn) : VRead := ts.foldl (step node) s

end VRead

end Loam

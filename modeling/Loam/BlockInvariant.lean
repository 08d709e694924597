import Loam.BlockCommit

/-!
# What a block device keeps

The image of the device is the mapped image with the writes staged since over
it (`image`, `now`). What holds of a device that is ready, whatever happened
before: its leaves are the committed map's, every extent is in one slot at
most and a resident one has the image's bytes, an extent that is not staged is
the committed map's, what is durable is covered by the last commit, and the
commit in flight is about to bind the image as it is.

The facts about a run that a client is told are kept apart (`Ledger`): they
hold of a device that has failed too.
-/

namespace Loam

open CellStore

/-- The range of a device a request is about. -/
def BlockReq.range (r : BlockReq) (blockSize : ℕ) : RangeWrite UInt8 :=
  ⟨r.lba * blockSize, r.len, r.buf⟩

namespace BlockVolume

variable (body : Digest → Bytes) (N : ℕ) (s : BlockVolume)

/-! ## The image -/

/-- The root the device was opened at. -/
def origin : Digest := (s.hist.landed.getLast?.map (·.root)).getD Digest.zero

/-- The image after the first `n` writes staged. -/
def image (n pos : ℕ) : UInt8 :=
  valueAt (mapImage body s.origin) ((s.hist.writes.take n).map fun w => w.req.range s.blockSize) pos

/-- The image as it is. -/
def now (pos : ℕ) : UInt8 := s.image body s.hist.writes.length pos

/-- The digest of an extent in the committed map. -/
def committed (idx : ℕ) : Digest :=
  mapDigest body s.sizeBytes s.extentSize s.depth s.children idx

/-- The image of the committed map. -/
def committedImage (pos : ℕ) : UInt8 := imageOf body s.extentSize (s.committed body) pos

/-- A root's map is the image after some writes. -/
def MapsTo (root : Digest) (n : ℕ) : Prop :=
  ∀ pos < s.sizeBytes, mapImage body root pos = s.image body n pos

/-- A root that landed has the first `n` writes. -/
def Covered (n : ℕ) : Prop :=
  ∃ c ∈ s.hist.landed, ∃ m, n ≤ m ∧ m ≤ s.hist.writes.length ∧ s.MapsTo body c.root m

/-- A request is among some writes. -/
def WroteIn (r : BlockReq) (a b : ℕ) : Prop :=
  ∃ k, a ≤ k ∧ k < b ∧ (s.hist.writes[k]?).map (·.req) = some r

/-! ## Slots -/

/-- A slot holds an extent's bytes. -/
def Resident (i : ℕ) : Prop := (s.slots i).state = .clean ∨ (s.slots i).state = .staged

/-- The slots, when the image is `img`. -/
structure SlotsInv (img : ℕ → UInt8) : Prop where
  uniq : ∀ i < N, ∀ j < N, (s.slots i).state ≠ .free → (s.slots j).state ≠ .free →
    (s.slots i).idx = (s.slots j).idx → i = j
  inMap : ∀ i < N, (s.slots i).state ≠ .free → (s.slots i).idx < s.extentCount
  holds : ∀ i < N, s.Resident i → ∀ j < s.extentLen (s.slots i).idx,
    s.ext i j = img ((s.slots i).idx * s.extentSize + j)
  bare : ∀ idx < s.extentCount, (∀ i < N, (s.slots i).state = .staged → (s.slots i).idx ≠ idx) →
    ∀ j < s.extentLen idx,
      s.committedImage body (idx * s.extentSize + j) = img (idx * s.extentSize + j)
  /-- One being fetched is asked for by the committed map's digest. -/
  fetch : ∀ i < N, (s.slots i).state = .fetching →
    ((s.slots i).digest = s.committed body (s.slots i).idx ∧ (s.slots i).digest ≠ Digest.zero) ∧
      s.job = .extent ∧ s.jobSlot = i
  count : s.staged = (List.range N).countP fun i => (s.slots i).state == .staged

/-! ## The map -/

/-- The geometry of an open volume. -/
structure Geometry : Prop where
  depth : selectDepth s.sizeBytes s.extentSize = some s.depth
  covers : coversExactly s.sizeBytes (childSpan s.extentSize s.depth) s.childrenCount = true
  fits : s.sizeBytes < 256 ^ 8
  extents : s.extentCount = (s.sizeBytes + (s.extentSize - 1)) / s.extentSize
  blocks : s.blockCount = s.sizeBytes / s.blockSize
  block : 0 < s.blockSize ∧ s.blockSize ≤ s.extentSize
  cap : s.extentSize ≤ extentCap

/-- The committed view is the bound root's map. -/
structure MapInv : Prop where
  root : ∀ pos < s.sizeBytes, mapImage body s.rootDigest pos = s.committedImage body pos
  leaves : s.depth ≠ 1 → ∀ k < 2, (s.leaves k).valid = true → (s.leaves k).child < pageEntries ∧
    (s.leaves k).digest = s.children (s.leaves k).child ∧
    ∀ i < s.leafLen (s.leaves k).child, s.leafData k i = leafDigest body s.sizeBytes s.extentSize
      (s.children (s.leaves k).child) (s.leaves k).child i

/-! ## Generations -/

/-- How many writes the durable generation has. -/
def coveredCount : ℕ :=
  (s.hist.writes.takeWhile fun w => decide (w.gen ≤ s.durableGen)).length

/-- The generations, and what is durable. -/
structure GensInv : Prop where
  sorted : s.hist.writes.Pairwise fun a b => a.gen ≤ b.gen
  le : ∀ w ∈ s.hist.writes, w.gen ≤ s.writeGen
  durable : s.durableGen ≤ s.writeGen
  covered : ∀ pos < s.sizeBytes, s.committedImage body pos = s.image body s.coveredCount pos
  head : ∃ n cs, s.hist.landed = ⟨s.revision, s.rootDigest, n⟩ :: cs

/-! ## Requests -/

/-- A request is about the device. -/
def InDevice (r : BlockReq) : Prop :=
  r.op = .read ∨ r.op = .write →
    r.lba * s.blockSize + r.len ≤ s.sizeBytes ∧ r.len ≤ s.extentSize

/-- A queued request. -/
structure PendInv (p : BlockPending) : Prop where
  inDevice : s.InDevice p.req
  reach : ∃ m, p.since ≤ m ∧ m ≤ s.hist.writes.length ∧
    (∀ w ∈ s.hist.writes.take m, w.gen ≤ p.target) ∧
    (2 ≤ p.stage → p.req.op = .write → s.WroteIn p.req p.since m)
  preflush : 1 ≤ p.stage → p.req.preflush = true → s.Covered body p.since
  op : 2 ≤ p.stage → p.req.op = .write ∨ p.req.op = .flush

/-- A completed request. -/
structure AnswerInv (a : BlockAnswer) : Prop where
  since : a.since ≤ a.seen
  seen : a.seen ≤ s.hist.writes.length
  read : a.cpl.status = none → a.req.op = .read → ∀ j < a.req.len,
    a.cpl.buf j = s.image body a.seen (a.req.lba * s.blockSize + j)
  /-- A write was staged between its start and its completion. -/
  wrote : a.cpl.status = none → a.req.op = .write → s.WroteIn a.req a.since a.seen
  /-- What a durable completion says is bound at its revision. -/
  fence : ∀ r, a.cpl.fence = some (.revision r) → ∃ c ∈ s.hist.landed, c.revision = r ∧
    ∃ m, a.since ≤ m ∧ m ≤ s.hist.writes.length ∧
      (a.req.op = .write → s.WroteIn a.req a.since m) ∧ s.MapsTo body c.root m
  preflush : a.cpl.status = none → a.req.preflush = true → a.req.op ≠ .unknown →
    s.Covered body a.since
  sync : a.cpl.status = none → a.req.op = .flush ∨ (a.req.op = .write ∧ a.req.fua = true) →
    ∃ r, a.cpl.fence = some (.revision r)

/-- What clients have been told. -/
structure Ledger : Prop where
  answers : ∀ a ∈ s.hist.answers, s.AnswerInv body a
  landed : ∀ c ∈ s.hist.landed, c.covers ≤ s.hist.writes.length ∧ s.MapsTo body c.root c.covers

/-! ## The commit in flight -/

/-- The commit's content is fixed. -/
def Fixed : Prop := s.commit ≠ .idle ∧ s.commit ≠ .begin

/-- The commit's extents are stored. -/
def Stored : Prop := s.commit = .leaves ∨ s.commit = .root ∨ s.commit = .commit

/-- A slot's digest names its bytes. -/
def StoredExt (i : ℕ) : Prop :=
  ∀ j < s.extentLen (s.slots i).idx, extentByte body (s.slots i).digest j = s.ext i j

/-- The digest of an extent in the map about to be bound. -/
def target (idx : ℕ) : Digest :=
  (List.range N).foldl (fun f i =>
    if (s.slots i).committing = true then put f (s.slots i).idx (s.slots i).digest else f)
    (s.committed body) idx

/-- A child's new page has the commit's extents over the committed page. -/
def LeafNamed (child : ℕ) (d : Digest) : Prop :=
  ∀ i < s.leafLen child, leafDigest body s.sizeBytes s.extentSize d child i
    = s.target body N (child * pageEntries + i)

/-- The commit in flight. -/
structure CommitInv : Prop where
  quiet : ¬ s.Fixed → ∀ i < N, (s.slots i).committing = false
  same : s.Fixed → ∀ i < N, ((s.slots i).committing = true ↔ (s.slots i).state = .staged)
  gen : s.Fixed → s.commitGen = s.writeGen ∧ s.commitCovers = s.hist.writes.length
  fresh : s.commit = .bodies → s.job ≠ .putBodies → s.commitCursor = 0
  pipe : s.commit = .bodies → s.job = .putBodies → ∀ e ∈ s.pipe,
    e.slot < N ∧ (s.slots e.slot).committing = true ∧ e.body = s.extentBytes e.slot
  sending : s.commit = .bodies → s.job = .putBodies → s.pipeRefused = false →
    ∀ i < N, (s.slots i).committing = true →
      s.commitCursor ≤ i ∨ (∃ e ∈ s.pipe, e.slot = i) ∨ s.StoredExt body i
  stored : s.Stored → ∀ i < N, (s.slots i).committing = true → s.StoredExt body i
  depth : s.commit = .leaves → s.depth = 2
  keys : s.Stored → s.depth = 2 → (s.leafNew.map Prod.fst).Nodup ∧
    ∀ l ∈ s.leafNew, (∃ i < N, (s.slots i).committing = true ∧ (s.slots i).idx / pageEntries = l.1) ∧
      s.LeafNamed body N l.1 l.2
  reached : s.commit = .leaves → ∀ i < N, i < s.commitCursor → (s.slots i).committing = true →
    (s.slots i).idx / pageEntries ∈ s.leafNew.map Prod.fst
  putLeaf : s.job = .putLeaf → s.commitCursor < N ∧
    (s.slots s.commitCursor).committing = true ∧
    s.jobChild = (s.slots s.commitCursor).idx / pageEntries ∧
    s.jobChild ∉ s.leafNew.map Prod.fst ∧
    ∃ page, s.io = .put page ∧ encodeLeaf (s.jobChild * pageEntries)
      ((List.range (s.leafLen s.jobChild)).map fun i =>
        s.target body N (s.jobChild * pageEntries + i)) = some page
  all : s.commit = .root ∨ s.commit = .commit → s.depth = 2 → ∀ i < N,
    (s.slots i).committing = true → (s.slots i).idx / pageEntries ∈ s.leafNew.map Prod.fst
  putRoot : s.job = .putRoot → ∃ page, s.io = .put page ∧
    encodeRoot s.volumeId s.sizeBytes s.extentSize
      ((List.range (min s.childrenCount pageEntries)).map (s.newChildren N)) = some page
  newRoot : s.commit = .commit → ∀ pos < s.sizeBytes, mapImage body s.newRoot pos = s.now body pos

/-- The exchange in flight is one of the commit's, or of the others. -/
def JobFits : Prop :=
  match s.job with
  | .none | .renew => True
  | .leaf => (s.commit = .idle ∨ s.commit = .leaves) ∧ s.children s.jobChild ≠ Digest.zero
  | .extent | .release => s.commit = .idle
  | .begin => s.commit = .begin
  | .putBodies => s.commit = .bodies
  | .putLeaf => s.commit = .leaves
  | .putRoot => s.commit = .root
  | .commit => s.commit = .commit
  | .abort => s.commit = .abort
  | .acquire | .lookup | .root => False

/-! ## What the invariant is about -/

/-- A state with nothing but what the invariant is about: no times, no recency,
no wants and no flags of the schedule. -/
def core : BlockVolume :=
  { s with
    fail := none
    params := ⟨true, s.blockSize, 0, 0⟩
    lease := ⟨0, 0⟩
    exchange := ⟨s.job, 0, s.jobSlot, s.jobChild, 0, 0, s.io, true⟩
    extents := ⟨0, s.staged, fun i => { s.slots i with used := 0 }, s.ext⟩
    leafTable := ⟨fun k => { s.leaves k with used := 0 }, s.leafData⟩
    flags := ⟨false, false, false, false, [], [], false, false⟩ }

/-! ## The device -/

/-- A device that is ready. -/
structure Live : Prop where
  geo : s.Geometry
  map : s.MapInv body
  slots : s.SlotsInv body N (s.now body)
  room : s.staged ≤ stagedMax N
  gens : s.GensInv body
  pend : ∀ i p, s.pending i = some p → s.PendInv body p
  commit : s.CommitInv body N
  job : s.JobFits

/-- A device that is being opened. -/
structure Closed : Prop where
  slots : ∀ i, (s.slots i).state = .free ∧ (s.slots i).committing = false
  leaves : ∀ k, (s.leaves k).valid = false
  hist : s.hist = ⟨[], [], []⟩
  pending : ∀ i, s.pending i = none
  commit : s.commit = .idle
  staged : s.staged = 0
  gens : s.writeGen = 0 ∧ s.durableGen = 0
  job : s.job = .none ∨ s.phase = .lease ∧ s.job = .acquire ∨ s.phase = .lookup ∧ s.job = .lookup ∨
    s.phase = .root ∧ s.job = .root

/-- A device that has failed. -/
structure Dead : Prop where
  fail : ∃ err, s.fail = some err
  slots : ∀ i, (s.slots i).state = .free
  pend : ∀ i p, s.pending i = some p → p.since ≤ s.hist.writes.length

/-- What a device keeps. -/
structure Inv : Prop where
  ledger : s.Ledger body
  live : s.phase = .ready → s.Live body N
  closed : s.phase ≠ .ready → s.phase ≠ .failed → s.Closed
  dead : s.phase = .failed → s.Dead

end BlockVolume

end Loam

import Loam.BlockVolume
import Loam.Lib.Run

/-!
# The commit of a block device

The device's exchanges with its node: the lease and the open, the fetches, and
the commit, which puts the extents, the leaf pages on changed paths and the
root page, and then binds the root at the next revision. One exchange is in
flight at a time, except that a commit's bodies are sent back to back.

A run is a list of events. What the module's step does in one call, a node's
answer, the lease's deadline, the queued requests one by one and the schedule,
is so many events here, and any order of them is a run.
-/

namespace Loam

/-! ## Answers of the node -/

/-- A status of the admin wire (`STATUS_*`). -/
inductive AdminStatus where
  | ok
  | notFound
  | busy
  | leaseHeld
  | leaseLost
  | forbidden
  | other
  deriving DecidableEq

/-- What a lookup found. -/
structure VolumeBinding where
  isVolume : Bool
  /-- The digest its object id names, if it names one. -/
  digest : Option Digest
  revision : UInt64

/-- An answer of the node. -/
inductive AdminAck where
  | lease (status : AdminStatus) (fence : UInt64)
  | lookup (status : AdminStatus) (binding : Option VolumeBinding)
  | body (status : AdminStatus) (bytes : Option Bytes)
  | put (status : AdminStatus) (digest : Option Digest)
  | volume (status : AdminStatus) (revision : UInt64)
  | garbled
  | foreign

/-- What the device says it takes (`Caps`). -/
structure BlockCaps where
  logicalBlockSize : ℕ
  blockCount : ℕ
  maxBlocks : ℕ

/-- A power of two. -/
def isPowerOfTwo (n : ℕ) : Bool := decide (0 < n) && 2 ^ n.log2 == n

/-- An answer that has not come by then ends the device
(`ACK_TIMEOUT_MS`). -/
def ackTimeoutMs : ℕ := 10000

/-- How long a flush waits for a sweep's reservation
(`BEGIN_PATIENCE_MS`). -/
def beginPatienceMs : ℕ := 10000

namespace BlockVolume

variable (N : ℕ) (s : BlockVolume)

/-! ## Failure and exchanges -/

/-- The device ends (`fail`). -/
def failWith (err : VolErrno) : BlockVolume :=
  if s.phase = .failed then s
  else
    { s with
      phase := .failed
      fail := some err
      exchange.job := .none
      work.commit := .idle
      extents.staged := 0
      extents.slots := fun i => { s.slots i with state := .free, committing := false }
      flags.lost := decide (0 < s.staged) }

/-- An exchange starts (`issue`). -/
def issue (job : VolJob) (io : AdminAsk) (t : ℕ) : BlockVolume :=
  { s with exchange.job := job, exchange.io := io, exchange.ioSent := false, exchange.jobAt := t }

/-- An answer has been long in coming (`timeout_check`). -/
def timeoutCheck (t : ℕ) : BlockVolume :=
  if ackTimeoutMs < t - s.jobAt then s.failWith .eio else s

/-! ## The open -/

/-- What is wrong with the parameters (`open_error`). -/
def openError : Option VolErrno :=
  if s.paramsGood = false then some .einval
  else if s.blockSize < 512 ∨ isPowerOfTwo s.blockSize = false ∨ extentCap < s.blockSize then
    some .einval
  else if s.ttlMs < 100 ∨ 300000 < s.ttlMs then some .einval
  else none

/-- A lease answer (`on_lease`). -/
def onLease (t : ℕ) (job : VolJob) (status : AdminStatus) (fence : UInt64) : BlockVolume :=
  match job, status with
  | .acquire, .ok =>
    if s.expectFence ≠ 0 ∧ fence ≠ s.expectFence then s.failWith .eacces
    else { s with lease.leaseFence := fence, lease.leaseAt := s.jobAt, phase := .lookup }
  | .renew, .ok => if fence = s.leaseFence then { s with lease.leaseAt := s.jobAt } else s.failWith .eio
  | .acquire, .leaseHeld => s.failWith .ebusy
  | .acquire, .busy => { s with exchange.retryAt := t + 50 }
  | .renew, .busy => s
  | _, .forbidden => s.failWith .eacces
  | _, _ => s.failWith .eio

/-- What the path is bound to (`on_lookup`). -/
def onLookup (status : AdminStatus) (binding : Option VolumeBinding) : BlockVolume :=
  match status, binding with
  | .ok, some b =>
    if b.isVolume then
      match b.digest with
      | some d => { s with view.rootDigest := d, view.revision := b.revision, phase := .root }
      | none => s.failWith .eio
    else s.failWith .einval
  | .ok, none => s.failWith .einval
  | .notFound, _ => s.failWith .enoent
  | .forbidden, _ => s.failWith .eacces
  | _, _ => s.failWith .eio

/-- The device is open over a map. -/
def opened (root : RootPage) : BlockVolume :=
  { s with
    view.children := fun i => if i < root.count then (root.child i).getD Digest.zero else s.children i
    view.childrenCount := root.count
    view.volumeId := root.volumeId
    view.sizeBytes := root.sizeBytes
    view.extentSize := root.extentSize
    view.depth := root.depth
    view.blockCount := root.sizeBytes / s.blockSize
    view.extentCount := (root.sizeBytes + (root.extentSize - 1)) / root.extentSize
    phase := .ready
    hist := { s.hist with landed := [⟨s.revision, s.rootDigest, 0⟩] } }

/-- The committed map's root (`on_root`). -/
def onRoot (sha : Bytes → Digest) (page : Option Bytes) : BlockVolume :=
  match page with
  | none => s.failWith .eio
  | some page =>
    if sha page ≠ s.rootDigest then s.failWith .eio
    else
      match decodeRoot page with
      | none => s.failWith .eio
      | some root =>
        if isPowerOfTwo root.extentSize = false ∨ extentCap < root.extentSize ∨
            root.extentSize < s.blockSize then s.failWith .einval
        else if root.sizeBytes / s.blockSize = 0 then s.failWith .einval
        else s.opened root

/-! ## Reads through the map -/

/-- A leaf's slot (`leaf_find`). -/
def leafFind (child : ℕ) : Option ℕ :=
  (s.child? child).bind fun digest =>
    [0, 1].find? fun k =>
      (s.leaves k).valid && (s.leaves k).child == child && (s.leaves k).digest == digest

/-- The slot a leaf takes (`leaf_claim`). -/
def leafClaim : ℕ :=
  if (s.leaves 0).valid = false then 0
  else if (s.leaves 1).valid = false then 1
  else if (s.leaves 1).used < (s.leaves 0).used then 1
  else 0

/-- A leaf takes a slot. -/
def setLeaf (k child : ℕ) (digest : Digest) (used : UInt32) (data : ℕ → Digest) : BlockVolume :=
  { s with
    leafTable.leaves := put s.leaves k ⟨true, used, child, digest⟩
    leafTable.leafData := put s.leafData k data }

/-- Make a leaf resident, or ask for it (`leaf_ready`). -/
def leafReady (child t : ℕ) : BlockVolume × Option ℕ :=
  match s.leafFind child with
  | some k =>
    ({ s with
        extents.clock := s.clock + 1
        leafTable.leaves := put s.leaves k { s.leaves k with used := s.clock + 1 } }, some k)
  | none =>
    match s.child? child with
    | none => (s, none)
    | some digest =>
      let k := s.leafClaim
      if digest = Digest.zero then
        (s.setLeaf k child digest s.clock fun _ => Digest.zero, some k)
      else
        ({ s with
            leafTable.leaves := put s.leaves k { s.leaves k with valid := false }
            exchange.jobSlot := k
            exchange.jobChild := child }.issue .leaf (.get digest) t, none)

/-- A leaf page (`on_leaf`). -/
def onLeaf (sha : Bytes → Digest) (page : Option Bytes) : BlockVolume :=
  match page, s.child? s.jobChild with
  | some page, some digest =>
    if 2 ≤ s.jobSlot ∨ sha page ≠ digest then s.failWith .eio
    else
      match decodeLeaf page with
      | none => s.failWith .eio
      | some leaf =>
        if leafFits leaf s.jobChild s.sizeBytes s.extentSize then
          { s.setLeaf s.jobSlot s.jobChild digest (s.clock + 1) fun i =>
              if i < min leaf.count pageEntries then (leaf.digest i).getD Digest.zero
              else Digest.zero with
            extents.clock := s.clock + 1 }
        else s.failWith .eio
  | _, _ => s.failWith .eio

/-- An extent is given a slot to be fetched into, or read as zeros: whether
the next one can be looked at. -/
def placeFetch (idx : ℕ) (digest : Digest) (t : ℕ) : BlockVolume × Bool :=
  match s.allocSlot N [] with
  | none => ({ s with flags.flushWanted := true }, false)
  | some i =>
    if digest = Digest.zero then
      ((((s.setExt i fun _ => 0).setSlot i
        { s.slots i with state := .clean, committing := false, idx := idx, digest := digest }).touch
          i).dropWant 0, true)
    else
      ({ s.setSlot i
          { s.slots i with state := .fetching, committing := false, idx := idx, digest := digest } with
          exchange.jobSlot := i }.issue .extent (.get digest) t, false)

/-- The rounds of the fetch. -/
def fetchLoop (t : ℕ) : ℕ → BlockVolume → BlockVolume
  | 0, s => s
  | n + 1, s =>
    match s.wants with
    | [] => s
    | idx :: _ =>
      if s.extentCount ≤ idx ∨ (s.findExtent N idx).isSome ∨ s.fetching N idx then
        fetchLoop t n (s.dropWant 0)
      else if s.depth = 1 then
        match s.child? idx with
        | none => fetchLoop t n (s.dropWant 0)
        | some digest =>
          match s.placeFetch N idx digest t with
          | (s', true) => fetchLoop t n s'
          | (s', false) => s'
      else
        match s.leafReady (idx / pageEntries) t with
        | (s', none) => s'
        | (s', some k) =>
          match s'.placeFetch N idx (s'.leafData k (idx % pageEntries)) t with
          | (s'', true) => fetchLoop t n s''
          | (s'', false) => s''

/-- The first wanted extent is fetched (`fetch_next`). -/
def fetchNext (t : ℕ) : BlockVolume := fetchLoop N t wantSlots s

/-- An extent's bytes (`on_extent`). -/
def onExtent (sha : Bytes → Digest) (bytes : Option Bytes) : BlockVolume :=
  let i := s.jobSlot
  if N ≤ i ∨ (s.slots i).state ≠ .fetching then s.failWith .eio
  else
    match bytes with
    | none => s.failWith .eio
    | some b =>
      if s.extentLen (s.slots i).idx < b.length ∨ sha b ≠ (s.slots i).digest then s.failWith .eio
      else
        let s' := ((s.setExt i fun j => b.getD j 0).setSlot i
          { s.slots i with state := .clean }).touch i
        match s'.wants.findIdx? (· == (s.slots i).idx) with
        | some w => s'.dropWant w
        | none => s'

/-! ## The commit's bodies -/

/-- The bytes of a slot that are its extent's. -/
def extentBytes (i : ℕ) : Bytes :=
  (List.range (min (s.extentLen (s.slots i).idx) extentCap)).map (s.ext i)

/-- The rest of the scan for a body to send. -/
def nextBodyFrom : ℕ → BlockVolume → BlockVolume × Option ℕ
  | 0, s => (s, none)
  | n + 1, s =>
    if N ≤ s.commitCursor then (s, none)
    else if (s.slots s.commitCursor).committing = false then
      nextBodyFrom n { s with work.commitCursor := s.commitCursor + 1 }
    else if (s.extentBytes s.commitCursor).all (· == 0) then
      nextBodyFrom n
        { s.setSlot s.commitCursor { s.slots s.commitCursor with digest := Digest.zero } with
          work.commitCursor := s.commitCursor + 1 }
    else (s, some s.commitCursor)

/-- The next committing extent to put: one of zeros is never stored
(`next_body`). -/
def nextBody : BlockVolume × Option ℕ := nextBodyFrom N (N + 1) s

/-- A committing extent is still to be sent (`next_body_ahead`). -/
def bodyAhead : Bool :=
  (List.range N).any fun i => decide (s.commitCursor ≤ i) && (s.slots i).committing

/-- One round of the sending (`bodies_pump`): the put in hand goes out, or the
next is built. -/
def bodiesSend : BlockVolume :=
  if s.pipeRefused then s
  else if s.ioSent = false then { s with exchange.ioSent := true }
  else
    match s.nextBody N with
    | (s', none) => s'
    | (s', some i) =>
      { s' with
        exchange.io := .put (s'.extentBytes i)
        exchange.ioSent := false
        work.pipe := s'.pipe ++ [⟨i, s'.extentBytes i⟩]
        work.commitCursor := s'.commitCursor + 1 }

/-- One acknowledgement (`bodies_pump`). -/
def bodiesAck (t k : ℕ) (a : AdminAck) : BlockVolume :=
  match s.pipe[k]? with
  | none => s.failWith .eio
  | some e =>
    let s' := match a with
      | .put .ok (some d) => s.setSlot e.slot { s.slots e.slot with digest := d }
      | _ => { s with work.pipeRefused := true }
    { s' with work.pipe := s'.pipe.eraseIdx k, exchange.jobAt := t }

/-- Once every put is sent and acknowledged the commit moves on
(`bodies_pump`). -/
def bodiesEnd (t : ℕ) : BlockVolume :=
  if (s.pipeRefused ∨ (s.ioSent ∧ s.bodyAhead N = false)) ∧ s.pipe = [] then
    if s.pipeRefused then { s with exchange.job := .none, exchange.io := .none, exchange.ioSent := true, work.commit := .abort }
    else
      { s with
        exchange.job := .none
        exchange.io := .none
        exchange.ioSent := true
        work.commitCursor := 0
        work.leafNew := []
        work.commit := if s.depth = 2 then .leaves else .root }
  else s.timeoutCheck t

/-! ## The commit's pages -/

/-- A leaf has its new page (`leaf_done`). -/
def leafDone (child : ℕ) : Bool := (s.leafNew.take (stagedMax N)).any fun l => l.1 == child

/-- A leaf's new page (`leaf_new`). -/
def addLeafNew (child : ℕ) (digest : Digest) : BlockVolume :=
  if s.leafNew.length < stagedMax N then { s with work.leafNew := s.leafNew ++ [(child, digest)] } else s

/-- The committing extents of a leaf over its committed page. -/
def overLeaf (child : ℕ) (data : ℕ → Digest) : ℕ → Digest :=
  (List.range N).foldl (fun f i =>
    if (s.slots i).committing ∧ (s.slots i).idx / pageEntries = child then
      put f ((s.slots i).idx % pageEntries) (s.slots i).digest
    else f) data

/-- The committing extents over the root's children. -/
def overExtents (count : ℕ) (children : ℕ → Digest) : ℕ → Digest :=
  (List.range N).foldl (fun f i =>
    if (s.slots i).committing ∧ (s.slots i).idx < count then put f (s.slots i).idx (s.slots i).digest
    else f) children

/-- The new leaves over the root's children. -/
def overLeaves (count : ℕ) (children : ℕ → Digest) : ℕ → Digest :=
  (s.leafNew.take (stagedMax N)).foldl (fun f l => if l.1 < count then put f l.1 l.2 else f) children

/-- The commit's leaves, from its cursor on. -/
def leavesFrom (t : ℕ) : ℕ → BlockVolume → BlockVolume
  | 0, s => s
  | n + 1, s =>
    let i := s.commitCursor
    let child := (s.slots i).idx / pageEntries
    if N ≤ i then { s with work.commit := .root }
    else if (s.slots i).committing = false ∨ s.leafDone N child then
      leavesFrom t n { s with work.commitCursor := i + 1 }
    else
      match s.leafReady child t with
      | (s', none) => s'
      | (s', some k) =>
        let digests := (List.range (s'.leafLen child)).map (s'.overLeaf N child (s'.leafData k))
        match encodeLeaf (child * pageEntries) digests with
        | none => { s' with work.commit := .abort }
        | some page =>
          if digests.all (· == Digest.zero) then
            leavesFrom t n { s'.addLeafNew N child Digest.zero with work.commitCursor := i + 1 }
          else { s' with exchange.jobChild := child }.issue .putLeaf (.put page) t

/-- The children of the commit's root. -/
def newChildren : ℕ → Digest :=
  if s.depth = 1 then s.overExtents N (min s.childrenCount pageEntries) s.children
  else s.overLeaves N (min s.childrenCount pageEntries) s.children

/-- The commit's next exchange (`commit_next`). -/
def commitNext (t : ℕ) : BlockVolume :=
  match s.commit with
  | .begin => if t < s.retryAt then s else s.issue .begin .volumeBegin t
  | .bodies =>
    { s with exchange.job := .putBodies, exchange.jobAt := t, exchange.io := .none, exchange.ioSent := true, work.pipe := [], work.pipeRefused := false }
  | .leaves => leavesFrom N t (N + 1) s
  | .root =>
    match encodeRoot s.volumeId s.sizeBytes s.extentSize
        ((List.range (min s.childrenCount pageEntries)).map (s.newChildren N)) with
    | none => { s with work.commit := .abort }
    | some page => s.issue .putRoot (.put page) t
  | .commit => s.issue .commit (.volumeCommit s.newRoot s.revision) t
  | .abort => s.issue .abort .volumeAbort t
  | .idle => s

/-- A page was stored (`on_put`). -/
def onPut (job : VolJob) (a : AdminAck) : BlockVolume :=
  match a with
  | .put .ok (some d) =>
    if job = .putLeaf then
      { s.addLeafNew N s.jobChild d with work.commitCursor := s.commitCursor + 1 }
    else { s with work.newRoot := d, work.commit := .commit }
  | _ => { s with work.commit := .abort }

/-- The commit is abandoned; its writes stay staged (`give_up`). -/
def giveUp : BlockVolume :=
  failWaiters
    { s with
      flags.refused := true
      extents.slots := fun i => { s.slots i with committing := false }
      work.commit := .idle
      flags.flushWanted := false }

/-- A committed extent, in the committed view. -/
def applySlot (s : BlockVolume) (i : ℕ) : BlockVolume :=
  let e := s.slots i
  if e.committing then
    let s' :=
      if s.depth = 1 then
        if e.idx < pageEntries then { s with view.children := put s.children e.idx e.digest } else s
      else
        { s with
          leafTable.leafData := fun k =>
            if k < 2 ∧ (s.leaves k).valid ∧ (s.leaves k).child = e.idx / pageEntries then
              put (s.leafData k) (e.idx % pageEntries) e.digest
            else s.leafData k }
    s'.setSlot i { e with state := .clean, committing := false }
  else s

/-- A committed leaf, in the committed view. -/
def applyLeaf (s : BlockVolume) (l : ℕ × Digest) : BlockVolume :=
  { s with
    view.children := if l.1 < pageEntries then put s.children l.1 l.2 else s.children
    leafTable.leaves := fun k =>
      if k < 2 ∧ (s.leaves k).valid ∧ (s.leaves k).child = l.1 then { s.leaves k with digest := l.2 }
      else s.leaves k }

/-- The bind landed: the committed view is the new root (`apply`). -/
def applyCommit (revision : UInt64) : BlockVolume :=
  let s₁ := { s with view.revision := revision, view.rootDigest := s.newRoot }
  let s₂ := (List.range N).foldl applySlot s₁
  let s₃ := if s.depth = 2 then (s.leafNew.take (stagedMax N)).foldl applyLeaf s₂ else s₂
  { s₃ with
    extents.staged := 0
    queue.durableGen := s.commitGen
    work.commit := .idle
    flags.flushWanted := false
    hist := { s.hist with landed := ⟨revision, s.newRoot, s.commitCovers⟩ :: s.hist.landed } }

/-- What is staged is the commit's. -/
def beginCommit : BlockVolume :=
  { s with
    extents.slots := fun i => { s.slots i with committing := (s.slots i).state == .staged || (s.slots i).committing }
    work.commitGen := s.writeGen
    work.commitCovers := s.hist.writes.length
    work.commitCursor := 0
    work.commit := .bodies }

/-- A volume answer (`on_volume`). -/
def onVolume (t : ℕ) (job : VolJob) (a : AdminAck) : BlockVolume :=
  match a with
  | .volume status revision =>
    match job, status with
    | .begin, .ok => s.beginCommit
    | .begin, .busy =>
      if beginPatienceMs < t - s.beginSince then s.giveUp else { s with exchange.retryAt := t + 5 }
    | .begin, .leaseLost => s.failWith .eio
    | .begin, _ => s.giveUp
    | .commit, .ok => s.applyCommit N revision
    | .commit, _ => s.failWith .eio
    | _, _ => s.giveUp
  | _ => s.failWith .eio

/-! ## The schedule -/

/-- The bytes of a fetch's answer (`got_body`). -/
def gotBody (a : AdminAck) : Option Bytes :=
  match a with
  | .body .ok (some b) => some b
  | _ => none

/-- A complete answer (`on_ack`). -/
def onAck (sha : Bytes → Digest) (t : ℕ) (a : AdminAck) : BlockVolume :=
  let s' := { s with exchange.job := .none, exchange.io := .none, exchange.ioSent := true }
  match a with
  | .foreign => s'.failWith .eio
  | a =>
    match s.job with
    | .acquire | .renew =>
      match a with
      | .lease status fence => s'.onLease t s.job status fence
      | _ => s'.failWith .eio
    | .lookup =>
      match a with
      | .lookup status binding => s'.onLookup status binding
      | _ => s'.failWith .eio
    | .root => s'.onRoot sha (gotBody a)
    | .leaf => s'.onLeaf sha (gotBody a)
    | .extent => s'.onExtent N sha (gotBody a)
    | .begin | .commit | .abort => s'.onVolume N t s.job a
    | .putLeaf | .putRoot => s'.onPut N s.job a
    | .release => { s' with flags.drained := true }
    | .none | .putBodies => s'.failWith .eio

/-- What is done when no exchange is in flight (`schedule`). -/
def schedule (t : ℕ) : BlockVolume :=
  match s.phase with
  | .lease => if t < s.retryAt then s else s.issue .acquire .acquire t
  | .lookup => s.issue .lookup .lookup t
  | .root => s.issue .root (.get s.rootDigest) t
  | .ready =>
    if s.ttlMs / 2 ≤ t - s.leaseAt then s.issue .renew .renew t
    else if s.commit ≠ .idle then s.commitNext N t
    else if s.draining ∧ s.flushWanted = false ∧ s.queued = 0 then s.issue .release .release t
    else if s.flushWanted then
      if 0 < s.staged then
        { s with work.commit := .begin, exchange.beginSince := t, exchange.retryAt := 0 }.commitNext N t
      else { s with flags.flushWanted := false }.fetchNext N t
    else s.fetchNext N t
  | .failed => s

/-- The device stops before its lease can lapse (`lease_guard`). -/
def leaseGuard (t : ℕ) : BlockVolume :=
  if s.leaseAt + s.ttlMs - s.ttlMs / 4 ≤ t then s.failWith .eio else s

/-- A drain begins (`drain`). -/
def drain : BlockVolume := { s with flags.draining := true, flags.flushWanted := true }

/-- The step says the module is done. -/
def reportsDrained : Prop :=
  s.drained = true ∨ s.draining = true ∧ s.phase ≠ .ready ∧ s.job = .none

instance : Decidable s.reportsDrained := by unfold reportsDrained; infer_instance

/-- What the device takes (`caps_of`). -/
def caps : BlockCaps := ⟨s.blockSize, s.blockCount, max (s.extentSize / s.blockSize) 1⟩

end BlockVolume

/-! ## Runs -/

/-- What happens at a device. -/
inductive VolEvent where
  | openCheck
  | adminFailed (err : VolErrno)
  /-- The client takes the request built. -/
  | hand
  | ack (t : ℕ) (a : AdminAck)
  | timeout (t : ℕ)
  | sendBody
  | bodyAck (t k : ℕ) (a : AdminAck)
  | bodiesEnd (t : ℕ)
  /-- The lease's deadline is looked at. -/
  | guard (t : ℕ)
  | serve (i : ℕ)
  | schedule (t : ℕ)
  | exec (r : BlockReq)
  | submit (r : BlockReq)
  | reap
  | drain

namespace BlockVolume

variable (admits : BlockCaps → BlockReq → Bool) (sha : Bytes → Digest) (N : ℕ)

/-- A request is let in (`admitted`). -/
def admitted (s : BlockVolume) (r : BlockReq) : Prop :=
  s.draining = false ∧ s.phase = .ready ∧ admits s.caps r = true

instance (s : BlockVolume) (r : BlockReq) : Decidable (s.admitted admits r) := by
  unfold admitted; infer_instance

/-- A request that is not let in: a device that has failed says why. -/
def turnAway (s : BlockVolume) : BlockVolume :=
  if s.draining = false ∧ s.phase = .failed then { s with flags.told := true } else s

/-- An exchange with one answer is in flight. -/
def awaits (s : BlockVolume) : Prop :=
  s.phase ≠ .failed ∧ s.job ≠ .none ∧ s.job ≠ .putBodies

instance (s : BlockVolume) : Decidable s.awaits := by unfold awaits; infer_instance

/-- The bodies of a commit are in flight. -/
def sending (s : BlockVolume) : Prop := s.phase ≠ .failed ∧ s.job = .putBodies

instance (s : BlockVolume) : Decidable s.sending := by unfold sending; infer_instance

/-- One piece of the module's step (`module_step_impl`). -/
def tick (s : BlockVolume) : VolEvent → BlockVolume
  | .openCheck =>
    if s.phase = .lease ∧ s.job = .none ∧ s.fail = none then
      match s.openError with
      | some err => s.failWith err
      | none => s
    else s
  | .adminFailed err => s.failWith err
  | .hand => if s.awaits then { s with exchange.ioSent := true } else s
  | .ack t a => if s.awaits ∧ s.ioSent = true then s.onAck N sha t a else s
  | .timeout t => if s.awaits then s.timeoutCheck t else s
  | .sendBody => if s.sending then s.bodiesSend N else s
  | .bodyAck t k a => if s.sending then s.bodiesAck t k a else s
  | .bodiesEnd t => if s.sending then s.bodiesEnd N t else s
  | .guard t => if s.phase = .ready then s.leaseGuard t else s
  | .serve i =>
    if i < queueDepth ∧ (s.phase = .ready ∨ s.phase = .failed) then s.serve N i else s
  | .schedule t => if s.phase ≠ .failed ∧ s.job = .none then s.schedule N t else s
  | _ => s

/-- One event. A module that has reported itself done is stepped no more. -/
def step (s : BlockVolume) : VolEvent → BlockVolume
  | .exec r => if s.admitted admits r then s.exec N r else s.turnAway
  | .submit r => if s.admitted admits r then s.submit N r else s.turnAway
  | .reap => s.reap
  | .drain => s.drain
  | .openCheck => s.tick sha N .openCheck
  | e => if s.reportsDrained then s else s.tick sha N e

/-- The events of one call of the module's step that finds an answer, or
none. -/
def stepEvents (t : ℕ) (pump : List VolEvent) : List VolEvent :=
  pump ++ [.guard t] ++ (List.range queueDepth).map VolEvent.serve ++ [.schedule t, .hand]

end BlockVolume

end Loam

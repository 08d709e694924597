import Loam.ArenaChanges
import Loam.Lib.FreeList

/-!
# Doorbells

A provider SUBSCRIBE is a doorbell: a change under its prefix sets its bit and signals the
subscriber's own kernel event, once until the subscriber takes it. Nothing rings where a key is
written. At the end of every step and of every call the instance asks the arena what has
changed since it last asked, and rings who watches that; where the arena cannot say, it rings
everyone.

The subscriptions are records of a table that grows by pages, and those that are free are
threaded through the table. This module is the table and what rings it, as the code has them.
-/

namespace Loam

/-- The longest prefix (`SUB_PREFIX_MAX`). -/
def subPrefixMax : ℕ := 255

/-- Records a page (`SUB_PAGE_RECORDS`). -/
def subPageRecords : ℕ := 16

/-- Pages at most (`SUB_PAGES_MAX`). -/
def subPagesMax : ℕ := 0x4000 / subPageRecords

/-- An owner's subscriptions, where the instance has no number of its own
(`NAMESPACE_SUB_QUOTA`). -/
def namespaceSubQuota : ℕ := 256

/-- Does the key fall under the prefix? An empty one matches everything (`under_prefix`). -/
def underPrefix (key front : Bytes) : Bool :=
  front.isEmpty || (decide (front.length ≤ key.length) && key.take front.length == front)

/-- A subscription's record. -/
structure SubSlot where
  inUse : Bool
  rung : Bool
  /-- A CHANGES that names it was put off: the next step rings it. -/
  deferred : Bool
  /-- The subscriber's owner record: the handle answers it alone. -/
  owner : UInt64
  module : UInt64
  event : ℤ
  /-- While it is free: the next free record, its index and one, or 0. -/
  nextFree : ℕ
  /-- The keys it watches: those under this prefix. -/
  front : Bytes
deriving DecidableEq

/-- A record of a page that was just taken. -/
def SubSlot.zeroed : SubSlot := ⟨false, false, false, 0, 0, 0, 0, []⟩

/-- A record as it is put on the free list. -/
def SubSlot.freed (r : SubSlot) (next : ℕ) : SubSlot :=
  { r with inUse := false, rung := false, deferred := false, nextFree := next }

/-- What the kernel answers. -/
structure Kernel where
  /-- The module occupancy stands (`MODULE_LIVE`). -/
  moduleLive : UInt64 → Bool
  /-- Whose the event is, if it is allocated (`EVENT_OWNER`). -/
  eventOwner : ℤ → Option UInt64
  /-- A signal to the event is taken (`EVENT_SIGNAL`). -/
  signal : ℤ → Bool

/-- Who calls: the owner record and the module occupancy, if the kernel names them. -/
structure Caller where
  /-- `CALLER_OWNER`. -/
  owner : Option UInt64
  /-- `CALLER_MODULE`. -/
  module : Option UInt64

/-- The subscriptions. -/
structure SubTable where
  recs : List SubSlot
  /-- The first free record, its index and one; 0 when none is free (`sub_free`). -/
  free : ℕ
  /-- Subscriptions dropped as dead (`subs_reaped`). -/
  reaped : UInt32
  /-- Calls refused for want of a record (`subs_refused`). -/
  refused : UInt32
  /-- Of those, for want of a page (`subs_heap_denied`). -/
  heapDenied : UInt32
  /-- The signals the kernel has taken. Nothing reads them. -/
  signalled : List ℤ
deriving DecidableEq

namespace SubTable

/-- The empty table. -/
def new : SubTable := ⟨[], 0, 0, 0, 0, []⟩

/-- The record is a live subscription (`sub_live`). -/
def live (t : SubTable) (i : ℕ) : Bool := t.recs[i]?.any SubSlot.inUse

/-- The free record after this one. -/
def next (t : SubTable) (i : ℕ) : ℕ := (t.recs[i]?.map SubSlot.nextFree).getD 0

/-- The free list. -/
def freeList (t : SubTable) : List ℕ := FreeList.walk t.next t.recs.length t.free

/-- The live subscriptions. -/
def liveList (t : SubTable) : List ℕ := (List.range t.recs.length).filter t.live

/-- Amend a record. -/
def setRec (t : SubTable) (i : ℕ) (r : SubSlot) : SubTable := { t with recs := t.recs.set i r }

/-! ## Releasing -/

/-- End a subscription and put its record on the free list (`release_sub`). -/
def release (t : SubTable) (i : ℕ) : SubTable :=
  match t.recs[i]? with
  | none => t
  | some r =>
    if r.inUse then { t.setRec i (r.freed t.free) with free := i + 1 } else t

/-- Drop a subscription as dead (`reap_sub`). -/
def reap (t : SubTable) (i : ℕ) : SubTable :=
  if t.live i then { t.release i with reaped := t.reaped + 1 } else t

/-- Drop every subscription of the owner (`owner_released`). -/
def ownerReleased (t : SubTable) (owner : UInt64) : SubTable :=
  (List.range t.recs.length).foldl
    (fun t i => if t.recs[i]?.any fun r => r.inUse && r.owner == owner then t.reap i else t) t

/-- Drop every subscription whose module is gone (the sweep of `free_sub`). -/
def sweepDead (k : Kernel) (t : SubTable) : SubTable :=
  (List.range t.recs.length).foldl
    (fun t i => if t.recs[i]?.any fun r => r.inUse && !k.moduleLive r.module then t.reap i
      else t) t

/-- The subscriptions the owner holds, those whose module is gone being dropped
(`owned_subs`). -/
def ownedSubs (k : Kernel) (t : SubTable) (owner : UInt64) : SubTable × ℕ :=
  (List.range t.recs.length).foldl (fun (t, n) i =>
    match t.recs[i]?.filter fun r => r.inUse && r.owner == owner with
    | none => (t, n)
    | some r => if k.moduleLive r.module then (t, n + 1) else (t.reap i, n)) (t, 0)

/-! ## Ringing -/

/-- Ring a subscription, unless it is rung: the kernel must know its module and its event as
that module's, and take the signal, or the subscription is dropped (`ring_sub`, whose answer no
caller reads). -/
def ringSub (k : Kernel) (t : SubTable) (i : ℕ) : SubTable :=
  match t.recs[i]? with
  | none => t
  | some r =>
    if !r.inUse || r.rung then t
    else if !k.moduleLive r.module || k.eventOwner r.event != some r.module
        || !k.signal r.event then t.reap i
    else { t.setRec i { r with rung := true } with signalled := t.signalled ++ [r.event] }

/-- Ring every subscription. -/
def ringAll (k : Kernel) (t : SubTable) : SubTable :=
  (List.range t.recs.length).foldl (ringSub k) t

/-- The subscription watches the key, and is not rung. -/
def watching (t : SubTable) (key : Bytes) (i : ℕ) : Bool :=
  t.recs[i]?.any fun r => r.inUse && !r.rung && underPrefix key r.front

/-- Ring the subscriptions that watch the key. -/
def ringKey (k : Kernel) (key : Bytes) (t : SubTable) : SubTable :=
  (List.range t.recs.length).foldl
    (fun t i => if t.watching key i then t.ringSub k i else t) t

/-- Ring those a CHANGES was put off for (`ring_deferred`). -/
def ringDeferred (k : Kernel) (t : SubTable) : SubTable :=
  (List.range t.recs.length).foldl (fun t i =>
    match t.recs[i]? with
    | none => t
    | some r =>
      if r.inUse && r.deferred then (t.setRec i { r with deferred := false }).ringSub k i
      else t) t

/-! ## Subscribing -/

/-- Take a record off the free list (`pop_free`). -/
def popFree (t : SubTable) : Option (SubTable × ℕ) :=
  match t.free with
  | 0 => none
  | i + 1 => t.recs[i]?.map fun r => ({ t with free := r.nextFree }, i)

/-- Thread the first `p` records from `base` on in front of the free list, the last first. -/
def threadPage (base : ℕ) : ℕ → SubTable → SubTable
  | 0, t => t
  | p + 1, t => threadPage base p
      { t with
        recs := t.recs.modify (base + p) fun r => { r with nextFree := t.free }
        free := base + p + 1 }

/-- A page of the heap. -/
def takePage (t : SubTable) : SubTable :=
  threadPage t.recs.length subPageRecords
    { t with recs := t.recs ++ List.replicate subPageRecords .zeroed }

/-- A free record: off the list; or off it once the dead are swept onto it; or of a new page,
if the heap gives one (`free_sub`). -/
def freeSub (k : Kernel) (heap : Bool) (t : SubTable) : SubTable × Option ℕ :=
  match t.popFree with
  | some (t, i) => (t, some i)
  | none =>
    let t := t.sweepDead k
    match t.popFree with
    | some (t, i) => (t, some i)
    | none =>
      if subPagesMax ≤ t.recs.length / subPageRecords then (t, none)
      else if !heap then ({ t with heapDenied := t.heapDenied + 1 }, none)
      else
        match t.takePage.popFree with
        | some (t, i) => (t, some i)
        | none => (t.takePage, none)

/-- What a SUBSCRIBE asks. -/
structure Req where
  front : Bytes
  event : ℤ
  /-- Ring at once (`FLAG_RING_NOW`). -/
  ringNow : Bool

/-- The subscription that was asked for before. -/
def same (t : SubTable) (owner module : UInt64) (req : Req) : Option ℕ :=
  (List.range t.recs.length).find? fun i => t.recs[i]?.any fun r =>
    r.inUse && r.owner == owner && r.module == module && r.event == req.event
      && r.front == req.front

/-- The bit is cleared and the subscription rung. -/
def ringAgain (k : Kernel) (t : SubTable) (i : ℕ) : SubTable :=
  match t.recs[i]? with
  | none => t
  | some r => (t.setRec i { r with rung := false }).ringSub k i

/-- SUBSCRIBE (`ns_subscribe`), the answer being the record's index. An owner whose slot, the
low two bytes of its record, is 0 is the system's, and has no quota. -/
def subscribe (L : Limits) (k : Kernel) (heap : Bool) (quota : ℕ) (caller : Caller) (req : Req)
    (t : SubTable) : SubTable × Except Errno ℕ :=
  if min subPrefixMax L.maxPath < req.front.length then (t, .error .inval)
  else match caller.owner, caller.module with
    | some owner, some module =>
      if k.eventOwner req.event ≠ some module then (t, .error .inval)
      else match t.same owner module req with
        | some i => (if req.ringNow then t.ringAgain k i else t, .ok i)
        | none =>
          let held := if owner % 65536 = 0 then (t, 0) else t.ownedSubs k owner
          if owner % 65536 ≠ 0 ∧ (if quota = 0 then namespaceSubQuota else quota) ≤ held.2 then
            ({ held.1 with refused := held.1.refused + 1 }, .error .nomem)
          else match held.1.freeSub k heap with
            | (t, none) => ({ t with refused := t.refused + 1 }, .error .nomem)
            | (t, some i) =>
              if t.recs.length ≤ i then (t, .error .nomem)
              else
                let t := t.setRec i ⟨true, false, false, owner, module, req.event, 0, req.front⟩
                (if req.ringNow then t.ringSub k i else t, .ok i)
    | _, _ => (t, .error .inval)

/-! ## Taking, putting off, closing -/

/-- The subscription is rung, the caller's, and on this event. -/
def takes (t : SubTable) (owner module : UInt64) (event : ℤ) (i : ℕ) : Bool :=
  t.recs[i]?.any fun r =>
    r.inUse && r.rung && r.event == event && r.owner == owner && r.module == module

/-- Take the subscriptions of these that have rung, as many as there is room for; and whether
one was left. -/
def takeFrom (owner module : UInt64) (event : ℤ) (room : ℕ) :
    List ℕ → SubTable → List ℕ → SubTable × List ℕ × Bool
  | [], t, out => (t, out, false)
  | i :: is, t, out =>
    if t.takes owner module event i then
      if out.length < room then
        takeFrom owner module event room is
          { t with recs := t.recs.modify i fun r => { r with rung := false } } (out ++ [i])
      else (t, out, true)
    else takeFrom owner module event room is t out

/-- TAKE_RUNG (`ns_take_rung`), into room for so many, if the buffer holds a page at all: what
is left is signalled again. -/
def takeRung (k : Kernel) (caller : Caller) (event : ℤ) (room : Option ℕ) (t : SubTable) :
    SubTable × Except Errno (List ℕ × Bool) :=
  match room, caller.owner, caller.module with
  | none, _, _ => (t, .error .nomem)
  | some room, some owner, some module =>
    let (t, out, more) := takeFrom owner module event room (List.range t.recs.length) t []
    (if more && k.eventOwner event == some module && k.signal event then
        { t with signalled := t.signalled ++ [event] }
      else t, .ok (out, more))
  | _, _, _ => (t, .error .inval)

/-- The handle is the caller's (`sub_by_caller`). -/
def byCaller (t : SubTable) (owner : Option UInt64) (i : ℕ) : Bool :=
  t.recs[i]?.any fun r => r.inUse && owner == some r.owner

/-- A CHANGES that names the subscription is put off. -/
def putOff (t : SubTable) (owner : Option UInt64) (i : ℕ) : SubTable :=
  if t.byCaller owner i then
    { t with recs := t.recs.modify i fun r => { r with deferred := true } }
  else t

/-- CLOSE. -/
def close (t : SubTable) (owner : Option UInt64) (i : ℕ) : SubTable :=
  if t.byCaller owner i then t.release i else t

end SubTable

/-! ## The instance -/

/-- An instance and its subscriptions. -/
structure DoorWorld (L : Limits) where
  node : Node L
  subs : SubTable
  /-- The number up to which they have been rung (`rung_seq`). -/
  rungSeq : UInt64
  /-- What an owner may hold (`sub_quota`). -/
  subQuota : ℕ

/-- The event is part of a step: a record that is fed, or the compactor's. -/
def Event.ofStep : Event → Bool
  | .surface .. | .crash => false
  | _ => true

/-- What happens to an instance and its subscriptions. `k` is what the kernel answers during the
call, `k'` as the changes are rung after it. -/
inductive DoorEvent where
  | step (es : List Event) (k k' : Kernel)
  /-- A provider call that reads or writes names. -/
  | surface (op : SurfaceOp) (io : ReadEnv) (now : UInt64) (k' : Kernel)
  | subscribe (caller : Caller) (req : SubTable.Req) (heap : Bool) (k k' : Kernel)
  | takeRung (caller : Caller) (event : ℤ) (room : Option ℕ) (k k' : Kernel)
  /-- CHANGES, for a subscription or none, and whether it is put off. -/
  | changes (caller : Caller) (sub : Option ℕ) (again : Bool) (k' : Kernel)
  | close (caller : Caller) (i : ℕ) (k' : Kernel)
  | other (k' : Kernel)
  /-- An owner goes away; nothing is rung. -/
  | released (owner : UInt64)
  /-- The process ends and boots again. -/
  | crash (k' : Kernel)

namespace DoorWorld

variable {L : Limits}

/-- Ring for a slot of the arena, if it is of the empty root and its number is past `past` and
not past `head`. -/
def ringSlot (k : Kernel) (past head : UInt64) (t : SubTable) : Option BindingSlot → SubTable
  | none => t
  | some s =>
    if s.root ≠ [] ∨ s.changeRev ≤ past ∨ head < s.changeRev then t else t.ringKey k s.path

/-- Ring for what has changed (`ring_changes`): for the keys of the empty root with a number
past what was rung for; for all, if the horizon is past it. -/
def ringChanges (w : DoorWorld L) (k : Kernel) : DoorWorld L :=
  let a := w.node.ns.bindings
  let head := a.changeSeq
  let past := w.rungSeq
  if head = past ∧ a.changeHorizon ≤ past then w
  else if past < a.changeHorizon then { w with rungSeq := head, subs := w.subs.ringAll k }
  else { w with rungSeq := head, subs := a.slots.foldl (ringSlot k past head) w.subs }

/-- A boot: no subscription, and nothing rung for. What was signalled was signalled. -/
def boot (n : Node L) (quota : ℕ) (signalled : List ℤ) : DoorWorld L :=
  ⟨n, { SubTable.new with signalled := signalled }, 0, quota⟩

/-- A first boot. -/
def init (L : Limits) (walConfigured : Bool) (quota : ℕ) : DoorWorld L :=
  boot (Node.init L walConfigured) quota []

/-- What happens, but for the ringing after it. -/
def perform (w : DoorWorld L) : DoorEvent → DoorWorld L
  | .step es _ _ => { w with node := w.node.run (es.filter Event.ofStep) }
  | .surface op io now _ => { w with node := w.node.step (.surface op io now) }
  | .subscribe caller req heap k _ =>
    { w with subs := (w.subs.subscribe L k heap w.subQuota caller req).1 }
  | .takeRung caller event room k _ =>
    { w with subs := (w.subs.takeRung k caller event room).1 }
  | .changes caller sub again _ =>
    match sub, again with
    | some i, true => { w with subs := w.subs.putOff caller.owner i }
    | _, _ => w
  | .close caller i _ => { w with subs := w.subs.close caller.owner i }
  | .other _ => w
  | .released owner => { w with subs := w.subs.ownerReleased owner }
  | .crash _ => boot (w.node.step .crash) w.subQuota w.subs.signalled

/-- One event (`module_step_impl`, `provider_dispatch_impl`). -/
def step (w : DoorWorld L) (e : DoorEvent) : DoorWorld L :=
  let w := w.perform e
  match e with
  | .step _ k k' =>
    let w := w.ringChanges k
    { w with subs := w.subs.ringDeferred k' }
  | .released _ => w
  | .surface _ _ _ k' | .subscribe _ _ _ _ k' | .takeRung _ _ _ _ k' | .changes _ _ _ k'
  | .close _ _ k' | .other k' | .crash k' => w.ringChanges k'

/-- A run of events. -/
def run (w : DoorWorld L) (es : List DoorEvent) : DoorWorld L := Run.run step w es

end DoorWorld

end Loam

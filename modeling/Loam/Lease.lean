import Loam.Arena

/-!
# Volume writer leases

One writer per volume, named by its key, with a fence token that grows
whenever the writer changes. Everything a verdict depends on is in the record
– the holder, the term, and the stamp `now` – so a replay of the same records
reaches the same table.

Delivery is at least once. Each entry keeps the stamp of the last record it
judged, and a record stamped no later is *stale* and changes nothing; a
volume without an entry is judged against the table's floors, into which the
recycling of an entry folds its fence and stamp.

An entry also says whether its holder has a *flush* open, between a volume
begin and the commit or abort that ends it.
-/

namespace Loam

/-- What a lease record asks for (`LeaseOp`). -/
inductive LeaseOp where
  | acquire
  | renew
  | release
deriving DecidableEq

/-- The wire's codes for the operations. -/
def LeaseOp.fromU8 (b : UInt8) : Option LeaseOp :=
  if b = 1 then some .acquire else if b = 2 then some .renew
  else if b = 3 then some .release else none

/-- The verdict on a lease record (`LeaseStatus`). -/
inductive LeaseStatus where
  /-- The caller has the lease, or has ended it. -/
  | granted
  | held
  | lost
  | busy
  | badRequest
  /-- The record is no later than one already judged. -/
  | stale
deriving DecidableEq

/-- A verdict plus the lease it leaves standing. -/
structure LeaseOutcome where
  status : LeaseStatus
  fence : UInt64
  expiresAt : UInt64
deriving DecidableEq

/-- A verdict with no lease to name. -/
def LeaseOutcome.bare (status : LeaseStatus) : LeaseOutcome := ⟨status, 0, 0⟩

/-- One volume's entry (`LeaseEntry`). It stays after the lease ends, since
the next fence is counted from its own. -/
structure LeaseEntry where
  key : Key
  /-- A holder has the lease until `expiresAt`. -/
  live : Bool
  holder : Bytes
  fence : UInt64
  expiresAt : UInt64
  /-- `now` of the last record judged against the entry. -/
  stamp : UInt64
  flushing : Bool
deriving DecidableEq

namespace LeaseEntry

/-- A holder has it and `now` has not reached its expiry. -/
def heldAt (e : LeaseEntry) (now : UInt64) : Bool := e.live && decide (now < e.expiresAt)

/-- A refusal that names the lease standing at `now`, if one does. -/
def standing (e : LeaseEntry) (status : LeaseStatus) (now : UInt64) : LeaseOutcome :=
  if e.heldAt now then ⟨status, e.fence, e.expiresAt⟩ else .bare status

end LeaseEntry

/-- The lease table (`LeaseTable`), `none` an entry not in use. -/
structure LeaseTable (L : Limits) where
  entries : List (Option LeaseEntry)
  /-- Highest fence carried out with a recycled entry. -/
  fenceFloor : UInt64
  /-- Highest stamp carried out with a recycled entry. -/
  stampFloor : UInt64
  /-- The table has the profile's capacity. -/
  length_entries : entries.length = L.leaseSlots
deriving DecidableEq

/-- `a + b`, or the largest value (`saturating_add`). -/
def saturatingAdd (a b : UInt64) : UInt64 := if a + b < a then 0xFFFFFFFFFFFFFFFF else a + b

/-- `a + 1` unless it overflows (`checked_add(1)`). -/
def checkedSucc (a : UInt64) : Option UInt64 :=
  if a = 0xFFFFFFFFFFFFFFFF then none else some (a + 1)

theorem checkedSucc_eq_some {a b : UInt64} (h : checkedSucc a = some b) :
    b = a + 1 ∧ a < b := by
  unfold checkedSucc at h
  split at h
  · cases h
  next hne =>
  obtain rfl := Option.some.inj h
  exact ⟨rfl, by grind⟩

namespace LeaseTable

variable {L : Limits}

/-- The empty table. -/
def new (L : Limits) : LeaseTable L where
  entries := List.replicate L.leaseSlots none
  fenceFloor := 0
  stampFloor := 0
  length_entries := List.length_replicate

/-- Write one entry. -/
def setEntry (t : LeaseTable L) (i : ℕ) (e : Option LeaseEntry) : LeaseTable L where
  entries := t.entries.set i e
  fenceFloor := t.fenceFloor
  stampFloor := t.stampFloor
  length_entries := List.length_set.trans t.length_entries

/-- The entry of a volume and its index. -/
def find (t : LeaseTable L) (k : Key) : Option (LeaseEntry × ℕ) :=
  SlotTable.find LeaseEntry.key k t.entries

/-- The entry naming `k`, live or not. -/
def lease (t : LeaseTable L) (k : Key) : Option LeaseEntry := (t.find k).map Prod.fst

/-- The first entry not in use. -/
def unused (t : LeaseTable L) : Option ℕ := t.entries.findIdx? Option.isNone

/-- Raise the floors to at least these (`if x > floor { floor = x }`). -/
def raiseFloors (t : LeaseTable L) (fence stamp : UInt64) : LeaseTable L :=
  { t with
    fenceFloor := if t.fenceFloor < fence then fence else t.fenceFloor
    stampFloor := if t.stampFloor < stamp then stamp else t.stampFloor }

/-- A free entry, or the first whose lease has ended or expired at `now` and
whose stamp is earlier, recycled into the floors. -/
def claimSlot (t : LeaseTable L) (now : UInt64) : Option (LeaseTable L × ℕ) :=
  match t.unused with
  | some i => some (t, i)
  | none =>
    let used := SlotTable.used t.entries
    (used.find? fun p => !p.1.heldAt now && decide (p.1.stamp < now)).map fun p =>
      ((t.raiseFloors p.1.fence p.1.stamp).setEntry p.2 none, p.2)

/-- A record naming a volume the table has no entry for. -/
def applyAbsent (t : LeaseTable L) (op : LeaseOp) (k : Key) (holder : Bytes)
    (now expires : UInt64) : LeaseTable L × LeaseOutcome :=
  if now ≤ t.stampFloor then (t, .bare .stale)
  else if op ≠ .acquire then (t, .bare .lost)
  else match t.claimSlot now with
    | none => (t, .bare .busy)
    | some (t, i) =>
      match checkedSucc t.fenceFloor with
      | none => (t, .bare .busy)
      | some fence =>
        (t.setEntry i (some ⟨k, true, holder, fence, expires, now, false⟩),
          ⟨.granted, fence, expires⟩)

/-- The verdict on a record of an existing entry, its stamp already
advanced. -/
def applyEntry (e : LeaseEntry) (op : LeaseOp) (holder : Bytes) (now expires : UInt64) :
    LeaseEntry × LeaseOutcome :=
  let mine := e.live && e.holder == holder
  match op with
  | .acquire =>
    if e.heldAt now && !mine then (e, e.standing .held now)
    else if mine && e.heldAt now then
      ({ e with expiresAt := expires }, ⟨.granted, e.fence, expires⟩)
    else match checkedSucc e.fence with
      | none => (e, .bare .busy)
      | some fence =>
        ({ e with
            fence := fence, holder := holder, live := true, flushing := false,
            expiresAt := expires },
          ⟨.granted, fence, expires⟩)
  | .renew =>
    if mine && e.heldAt now then
      ({ e with expiresAt := expires }, ⟨.granted, e.fence, expires⟩)
    else (e, e.standing .lost now)
  | .release =>
    if mine then ({ e with live := false, flushing := false }, ⟨.granted, e.fence, 0⟩)
    else (e, e.standing .lost now)

/-- Judge one lease record and apply it. A refusal changes no lease, but on
an existing entry it advances the stamp. -/
def apply (t : LeaseTable L) (mode : UInt8) (k : Key) (holder : Bytes)
    (now ttlMs : UInt64) : LeaseTable L × LeaseOutcome :=
  match LeaseOp.fromU8 mode with
  | none => (t, .bare .badRequest)
  | some op =>
    if now = 0 || !L.keyFits k.root k.path [] || k.path.isEmpty then (t, .bare .badRequest)
    else if op ≠ .release && (ttlMs = 0 || decide (L.leaseTtlMaxMs < ttlMs)) then
      (t, .bare .badRequest)
    else
      let expires := saturatingAdd now ttlMs
      match t.find k with
      | none => t.applyAbsent op k holder now expires
      | some (e, i) =>
        if now ≤ e.stamp then (t, .bare .stale)
        else
          let out := applyEntry { e with stamp := now } op holder now expires
          (t.setEntry i (some out.1), out.2)

/-- Judge the stamp of a volume record: `none` without an entry, `false` when
`now` is no later than the last record judged, `true` after advancing the
stamp. -/
def touch (t : LeaseTable L) (k : Key) (now : UInt64) : LeaseTable L × Option Bool :=
  match t.find k with
  | none => (t, none)
  | some (e, i) =>
    if now ≤ e.stamp then (t, some false)
    else (t.setEntry i (some { e with stamp := now }), some true)

/-- End every open flush whose writer's lease has expired at `now`. -/
def endExpiredFlushes (t : LeaseTable L) (now : UInt64) : LeaseTable L :=
  if now = 0 then t
  else
    { entries := t.entries.map fun o => o.map fun e =>
        if e.flushing && !e.heldAt now then { e with flushing := false } else e
      fenceFloor := t.fenceFloor
      stampFloor := t.stampFloor
      length_entries := (List.length_map _).trans t.length_entries }

/-- Does any volume have a flush open? -/
def anyFlushing (t : LeaseTable L) : Bool := t.entries.any fun o => o.any (·.flushing)

/-- `holder` has the volume's live lease under exactly `fence` at `now`. -/
def holds (t : LeaseTable L) (k : Key) (holder : Bytes) (fence now : UInt64) : Bool :=
  (t.lease k).any fun e => e.heldAt now && e.holder == holder && e.fence == fence

/-- `holder`'s flush is open on the volume. -/
def isFlushing (t : LeaseTable L) (k : Key) (holder : Bytes) : Bool :=
  (t.lease k).any fun e => e.flushing && e.holder == holder

/-- Open or end `holder`'s flush; another holder's is left alone. -/
def setFlushing (t : LeaseTable L) (k : Key) (holder : Bytes) (opened : Bool) : LeaseTable L :=
  match t.find k with
  | some (e, i) =>
    if e.holder == holder then t.setEntry i (some { e with flushing := opened }) else t
  | none => t

/-- Reinstate one entry and the table's floors as a rotated log recorded
them. `none` when the key does not fit or the table has no room. -/
def restore (t : LeaseTable L) (e : LeaseEntry) (fenceFloor stampFloor : UInt64) :
    Option (LeaseTable L) :=
  if !L.keyFits e.key.root e.key.path [] || e.key.path.isEmpty then none
  else
    let slot := match t.find e.key with
      | some (_, i) => some i
      | none => t.unused
    slot.map fun i =>
      (t.raiseFloors fenceFloor stampFloor).setEntry i (some { e with flushing := false })

end LeaseTable

end Loam

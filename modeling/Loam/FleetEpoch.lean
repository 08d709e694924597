import Loam.PlacementLaws
import Loam.LittleEndian
import Loam.Lib.Slices
import Loam.BodyRouter

/-!
# The fleet's snapshots

One module owns the table of members: it takes updates from its control
channel, each replacing the table as a whole, and broadcasts the table under a
new epoch when it changed. A router reads the broadcast, keeps what it needs of
it, and places bodies by what it kept.

The broadcast travels a channel of bytes. A write may be taken in part, and is
then made again from its start; a read returns what is there, up to its buffer,
and what it returns is decoded as one snapshot. So a router *receives* a
snapshot when a read begins with the frame of one that was broadcast, and
`FleetWorld.latest` is the last it received: none after a read that decodes as
something nobody broadcast.

A snapshot has three columns, the members, their failure domains and their
states, and all three arrive (`decodeFleetEpoch_encode`). Both routers keep the
first.
-/

namespace Loam

/-! ## The records -/

/-- The opcode of a snapshot (`OP_FLEET_EPOCH`). -/
def opFleetEpoch : UInt8 := 0x60

/-- The opcode of an update (`OP_FLEET_UPDATE`). -/
def opFleetUpdate : UInt8 := 0x61

/-- Why a record was refused (`WireError`). -/
inductive FleetWireError where
  | truncated
  | badOpcode (observed : UInt8)
  | fleetTooLarge (count max : ℕ)
  | bufferTooSmall (needed actual : ℕ)
deriving DecidableEq

/-- The columns of a record (`DecodedFleetUpdate`). -/
structure FleetColumns where
  members : Bytes
  /-- The domain of the member in the same place. -/
  domains : Bytes
  states : Bytes
deriving DecidableEq

/-- A column of `n` entries; what a short one leaves out is 0. -/
def column (n : ℕ) (bs : Bytes) : Bytes := (List.range n).map fun i => bs.getD i 0

/-- A record: its head, the count and the columns, if it fits the buffer. -/
def encodeColumns (room : ℕ) (head : Bytes) (c : FleetColumns) : Except FleetWireError Bytes :=
  let n := c.members.length
  let needed := head.length + 1 + n + n + n
  if maxFleet < n then .error (.fleetTooLarge n maxFleet)
  else if room < needed then .error (.bufferTooSmall needed room)
  else .ok (head ++ UInt8.ofNat n :: (c.members ++ column n c.domains ++ column n c.states))

/-- The columns behind a head of `at` bytes and the count. -/
def decodeColumns (src : Bytes) (head : ℕ) : Except FleetWireError FleetColumns :=
  let count := (src.getD head 0).toNat
  let start := head + 1
  if maxFleet < count then .error (.fleetTooLarge count maxFleet)
  else if src.length < start + count * 3 then .error .truncated
  else .ok ⟨Slices.slice src start count, Slices.slice src (start + count) count,
    Slices.slice src (start + count * 2) count⟩

/-- Write a snapshot (`encode_fleet_epoch`). -/
def encodeFleetEpoch (room : ℕ) (epoch : UInt64) (c : FleetColumns) : Except FleetWireError Bytes :=
  encodeColumns room (opFleetEpoch :: leBytes 8 epoch.toNat) c

/-- Read a snapshot (`decode_fleet_epoch`). -/
def decodeFleetEpoch (src : Bytes) : Except FleetWireError (UInt64 × FleetColumns) :=
  if src.length < 10 then .error .truncated
  else if src.getD 0 0 ≠ opFleetEpoch then .error (.badOpcode (src.getD 0 0))
  else (decodeColumns src 9).map fun c => (UInt64.ofNat (leNat (Slices.slice src 1 8)), c)

/-- Read an update (`decode_fleet_update`). -/
def decodeFleetUpdate (src : Bytes) : Except FleetWireError FleetColumns :=
  if src.length < 2 then .error .truncated
  else if src.getD 0 0 ≠ opFleetUpdate then .error (.badOpcode (src.getD 0 0))
  else decodeColumns src 1

section Wire

variable {room : ℕ} {head frame rest : Bytes} {c : FleetColumns}

@[simp] theorem length_column (n : ℕ) (bs : Bytes) : (column n bs).length = n := by
  rw [column, List.length_map, List.length_range]

theorem encodeColumns_ok (h : encodeColumns room head c = .ok frame) :
    c.members.length ≤ maxFleet ∧
      frame = head ++ [[UInt8.ofNat c.members.length], c.members,
        column c.members.length c.domains, column c.members.length c.states].flatten := by
  unfold encodeColumns at h
  dsimp only at h
  split at h
  · cases h
  next hmax =>
  split at h
  · cases h
  cases h
  exact ⟨Nat.le_of_not_lt hmax, by simp⟩

/-- **A record read back** has every column, whatever follows it. -/
theorem decodeColumns_encode (rest : Bytes) (h : encodeColumns room head c = .ok frame) :
    decodeColumns (frame ++ rest) head.length
      = .ok ⟨c.members, column c.members.length c.domains, column c.members.length c.states⟩ := by
  obtain ⟨hmax, rfl⟩ := encodeColumns_ok h
  have hcut := Slices.cutAt_append_flatten head [[UInt8.ofNat c.members.length], c.members,
    column c.members.length c.domains, column c.members.length c.states] rest
  rw [List.append_assoc]
  have hlen : head.length + 1 + c.members.length * 3 ≤
      (head ++ ([[UInt8.ofNat c.members.length], c.members, column c.members.length c.domains,
        column c.members.length c.states].flatten ++ rest)).length := by
    simp
    omega
  generalize head ++ _ = src at hcut hlen ⊢
  simp only [List.map_cons, List.map_nil, Slices.cutAt, List.length_singleton, length_column,
    List.cons.injEq, and_true] at hcut
  obtain ⟨hcount, hmembers, hdomains, hstates⟩ := hcut
  have hcount := congrArg UInt8.toNat (Slices.getD_eq_of_slice (d := 0) hcount)
  rw [UInt8.toNat_ofNat_of_lt' (Nat.lt_of_le_of_lt hmax (by decide))] at hcount
  have hthird : head.length + 1 + c.members.length * 2
      = head.length + 1 + c.members.length + c.members.length := by omega
  unfold decodeColumns
  dsimp only
  rw [hcount, if_neg (Nat.not_lt.mpr hmax), if_neg (Nat.not_lt.mpr hlen), hmembers, hdomains,
    hthird, hstates]

/-- **A snapshot read back** has every column, whatever follows it. -/
theorem decodeFleetEpoch_encode {epoch : UInt64} (h : encodeFleetEpoch room epoch c = .ok frame) :
    decodeFleetEpoch (frame ++ rest) = .ok (epoch,
      ⟨c.members, column c.members.length c.domains, column c.members.length c.states⟩) := by
  have hcols := decodeColumns_encode rest h
  rw [List.length_cons, length_leBytes] at hcols
  obtain ⟨-, rfl⟩ := encodeColumns_ok h
  have hepoch : leNat (leBytes 8 epoch.toNat) = epoch.toNat := leNat_leBytes epoch.toNat_lt
  have hslice : Slices.slice (opFleetEpoch :: leBytes 8 epoch.toNat ++
      [[UInt8.ofNat c.members.length], c.members, column c.members.length c.domains,
        column c.members.length c.states].flatten ++ rest) 1 8 = leBytes 8 epoch.toNat := by
    rw [List.cons_append, List.cons_append, ← List.singleton_append, ← List.length_singleton
      (a := opFleetEpoch), ← Nat.add_zero [opFleetEpoch].length, Slices.slice_append_right,
      Slices.slice_zero, List.append_assoc, List.take_left' (length_leBytes 8 _)]
  unfold decodeFleetEpoch
  rw [if_neg (by simp; omega), if_neg (by simp), hcols, hslice, hepoch,
    UInt64.ofNat_toNat]
  rfl

end Wire

/-! ## The table of members -/

/-- Take a member into the table, if there is room and it is not there yet. -/
def admitMember (table : List Member) (m : Member) : List Member :=
  if maxFleet ≤ table.length ∨ m.member ∈ table.map Member.member then table else table ++ [m]

/-- The members an update lists, each with the domain and the state in its
place. -/
def FleetColumns.described (c : FleetColumns) : List Member :=
  c.members.zipIdx.map fun p => ⟨p.1, c.domains.getD p.2 0, c.states.getD p.2 0⟩

/-- The table an update describes: of a member listed twice the first place
counts. -/
def FleetColumns.table (c : FleetColumns) : List Member := c.described.foldl admitMember []

/-- The columns of a table. -/
def FleetColumns.ofTable (members : List Member) : FleetColumns :=
  ⟨members.map Member.member, members.map Member.domain, members.map Member.state⟩

theorem nodup_table (c : FleetColumns) :
    (c.table.map Member.member).Nodup ∧ c.table.length ≤ maxFleet := by
  unfold FleetColumns.table
  suffices h : ∀ ms table : List Member, (table.map Member.member).Nodup ∧ table.length ≤ maxFleet →
      ((ms.foldl admitMember table).map Member.member).Nodup ∧
        (ms.foldl admitMember table).length ≤ maxFleet from
    h _ [] ⟨List.nodup_nil, Nat.zero_le _⟩
  intro ms
  induction ms with
  | nil => exact fun table h => h
  | cons m ms ih =>
    intro table ⟨hn, hl⟩
    refine ih _ ?_
    unfold admitMember
    split
    · exact ⟨hn, hl⟩
    next hc =>
    obtain ⟨hroom, hnew⟩ := not_or.mp hc
    refine ⟨?_, by rw [List.length_append, List.length_singleton]; omega⟩
    rw [List.map_append, List.map_singleton]
    exact hn.append (List.nodup_singleton _) (List.disjoint_singleton.mpr hnew)

/-- The module that owns the table (`placement_router`). -/
structure PlacementRouter where
  fleet : Roster
  epoch : UInt64
  /-- The table was broadcast under this epoch. -/
  emitted : Bool

namespace PlacementRouter

/-- The room for a snapshot (`EMIT_BUF`). -/
def emitBuf : ℕ := 64

/-- Replace the table, under a new epoch, unless it is the same
(`apply_fleet_update`). -/
def applyFleetUpdate (p : PlacementRouter) (c : FleetColumns) : PlacementRouter :=
  if c.table = p.fleet.members then p
  else ⟨⟨c.table, (nodup_table c).1, (nodup_table c).2⟩, p.epoch + 1, false⟩

/-- A module with no members. -/
def empty : PlacementRouter := ⟨⟨[], List.nodup_nil, Nat.zero_le _⟩, 0, false⟩

/-- The member list among the fields of a parameter block. -/
def seedField : Bytes → Option Bytes
  | tag :: len :: rest =>
    if tag = 0xFF then none
    else if tag = 1 ∧ len.toNat ≤ rest.length then some (rest.take (min len.toNat maxFleet))
    else seedField (rest.drop len.toNat)
  | _ => none
termination_by params => params.length
decreasing_by
  rw [List.length_drop, List.length_cons, List.length_cons]
  omega

/-- The members a module starts with: a field of the parameters, or all of
them (`decode_seed_params`). -/
def seedMembers (params : Bytes) : Option Bytes :=
  if params = [] then none
  else if 4 ≤ params.length ∧ params.getD 0 0 = 0xFE ∧ params.getD 1 0 = 0x01 then
    seedField (params.drop 4)
  else some (params.take maxFleet)

/-- A module that was just made (`module_new`). -/
def new (params : Bytes) : PlacementRouter :=
  match seedMembers params with
  | some members => empty.applyFleetUpdate ⟨members, [], []⟩
  | none => empty

/-- What one read of the control channel brings. -/
def drain (p : PlacementRouter) (bytes : Bytes) : PlacementRouter :=
  if bytes.head? = some opFleetUpdate then
    match decodeFleetUpdate bytes with
    | .ok c => p.applyFleetUpdate c
    | .error _ => p
  else p

/-- The frame that is due, or none: it is broadcast, or does not encode. -/
def due (p : PlacementRouter) : Option Bytes :=
  if p.emitted then none
  else (encodeFleetEpoch emitBuf p.epoch (.ofTable p.fleet.members)).toOption

/-- The channel took `taken` bytes of a frame. -/
def wrote (p : PlacementRouter) (frame : Bytes) (taken : ℕ) : PlacementRouter :=
  if taken = frame.length then { p with emitted := true } else p

end PlacementRouter

/-! ## A router that follows the broadcasts -/

/-- A placement router, a body router, and the channel between. -/
structure FleetWorld (σ : Type) where
  placement : PlacementRouter
  chan : Bytes
  told : List (Roster × Bytes)
  router : σ
  latest : Option Roster

/-- What happens. -/
inductive FleetEvent where
  /-- The placement router reads its control channel. -/
  | update (bytes : Bytes)
  /-- It offers the snapshot that is due, and the channel takes some bytes of
  it. -/
  | broadcast (taken : ℕ)
  /-- The body router reads its fleet channel, which has so many bytes ready. -/
  | read (ready : ℕ)
  /-- The body router meets something else. -/
  | router (e : EcEvent)

namespace FleetWorld

/-- The room of a read. -/
def readBuf : ℕ := 64

variable {σ : Type} (step : σ → EcEvent → σ)

/-- A world at its start. -/
def init (params : Bytes) (router : σ) : FleetWorld σ := ⟨.new params, [], [], router, none⟩

/-- One read of the fleet channel: what decodes replaces the fleet. -/
def readFleet (w : FleetWorld σ) (bytes : Bytes) : FleetWorld σ :=
  match decodeFleetEpoch bytes with
  | .ok (_, c) =>
    { w with router := step w.router (.fleet c.members)
             latest := (w.told.find? fun t => t.2.isPrefixOf bytes).map Prod.fst }
  | .error _ => w

/-- What happens next. -/
def next (w : FleetWorld σ) : FleetEvent → FleetWorld σ
  | .update bytes => { w with placement := w.placement.drain bytes }
  | .broadcast taken =>
    match w.placement.due with
    | none => w
    | some frame =>
      { w with
        placement := w.placement.wrote frame (min taken frame.length)
        chan := w.chan ++ frame.take taken
        told := if taken < frame.length then w.told else w.told ++ [(w.placement.fleet, frame)] }
  | .read ready =>
    let n := min ready readBuf
    readFleet step { w with chan := w.chan.drop n } (w.chan.take n)
  | .router (.fleet _) => w
  | .router e => { w with router := step w.router e }

/-- The world after a run. -/
def runOf (params : Bytes) (router : σ) (es : List FleetEvent) : FleetWorld σ :=
  Run.run (next step) (init params router) es

end FleetWorld

end Loam

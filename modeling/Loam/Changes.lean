import Loam.Doorbells
import Loam.ListWalk
import Loam.LittleEndian
import Loam.Lib.Follow

/-!
# The pages of the change stream

`CHANGES` answers one page of what changed under a prefix, and a token that says where the next
page begins. No token asks for a relist, every live binding by key; a bare revision for the
changes past it; and a relist that is not done hands out a continuation, which names the
revision it began at and its last key.

The arena has one slot a key, so the slot is the key's newest change and a window of changes is
the slots stamped inside it, read at the present. The page of a window is cut at the highest
revision whose records fit the caller's buffer, found by bisection; a window the arena cannot
vouch for is answered with nothing but that.

What writes a page into the caller's buffer, and what is read of it, is the contract's and not
this program's: it is a parameter here (`ChangesWire`).
-/

namespace Loam

/-- The longest key a record names (`STORAGE_KEY_MAX`). -/
def storageKeyMax : ℕ := 255

/-- The bytes of a bare revision (`REVISION_TOKEN_LEN`). -/
def revisionTokenLen : ℕ := 8

/-- The first byte of a relist's continuation (`T_RELIST`). -/
def tRelist : UInt8 := 1

/-- The longest key a continuation names (`CURSOR_MAX`). -/
def cursorMax (L : Limits) : ℕ := if L.maxPath < storageKeyMax then L.maxPath else storageKeyMax

/-- What a record says of its key. -/
inductive ChangeKind where
  /-- It is there (`KIND_ADDED`). -/
  | added
  /-- It was changed, and is there (`KIND_MODIFIED`). -/
  | modified
  /-- It is gone (`KIND_DELETED`). -/
  | deleted
deriving DecidableEq

/-- A record of a page. -/
structure ChangeRec where
  modRev : UInt64
  kind : ChangeKind
  key : Bytes
  value : Bytes
deriving DecidableEq

/-- What a caller reads of an answer. -/
inductive ChangesReply where
  | lost
  /-- A page: its records, whether there are more, the revision everything before it was
  delivered to, and the token of the next. -/
  | page (recs : List ChangeRec) (more : Bool) (safeRev : UInt64) (token : Bytes)
deriving DecidableEq

/-- Why a call is refused. -/
inductive ChangesErr where
  /-- `E_INVAL`. -/
  | inval
  /-- `E_AGAIN`. -/
  | again
  /-- `E_IO`. -/
  | io
  /-- `E_OVERFLOW`. -/
  | overflow
  /-- `E_NOMEM`. -/
  | nomem
deriving DecidableEq

/-- **The contract's side of `CHANGES`**: how a page is written into a buffer of so many bytes,
and how it is read. -/
structure ChangesWire where
  /-- A page that is being written (`PageWriter`). -/
  Writer : Type
  Page : Type
  /-- The bytes of a page's head (`HEAD_LEN`). -/
  headLen : ℕ
  /-- The bytes of its trailer, but for the token (`TRAILER_FIXED_LEN`). -/
  trailerFixedLen : ℕ
  /-- The bytes of a record, but for its key and its value (`RECORD_FIXED_LEN`). -/
  recordFixedLen : ℕ
  /-- Begin a page in a buffer, its trailer kept for a token of so many bytes. -/
  new : ℕ → ℕ → Option Writer
  push : Writer → ChangeRec → Option Writer
  count : Writer → ℕ
  finish : Writer → Bool → UInt64 → Bytes → Option Page
  writeLost : ℕ → Option Page
  /-- The token of a bare revision (`revision_token`). -/
  revisionToken : UInt64 → Bytes
  /-- The revision of a token (`token_revision`). -/
  tokenRevision : Bytes → Option UInt64
  read : Page → ChangesReply

/-- The bytes of a record. -/
def ChangesWire.recordLen (wire : ChangesWire) (r : ChangeRec) : ℕ :=
  wire.recordFixedLen + r.key.length + r.value.length

/-- **What the program relies on** of the contract: what was put is what is read, in the order
it was put in, and a revision's token is eight bytes it is read back from. -/
structure ChangesWire.Lawful (wire : ChangesWire) : Prop where
  wrote : ∀ {out reserve w w'} {recs : List ChangeRec} {more rev token p},
    wire.new out reserve = some w → recs.foldlM wire.push w = some w' →
    wire.finish w' more rev token = some p → wire.read p = .page recs more rev token
  lost : ∀ {out p}, wire.writeLost out = some p → wire.read p = .lost
  counts : ∀ {out reserve w w'} {recs : List ChangeRec}, wire.new out reserve = some w →
    recs.foldlM wire.push w = some w' → wire.count w' = recs.length
  /-- A page has room for what fits beside its head and its trailer. -/
  room : ∀ {out reserve w} {recs : List ChangeRec}, wire.new out reserve = some w →
    (∀ r ∈ recs, r.key.length ≤ storageKeyMax) →
    (recs.map wire.recordLen).sum ≤ out - (wire.headLen + wire.trailerFixedLen + reserve) →
    ∃ w', recs.foldlM wire.push w = some w' ∧
      ∀ more rev token, token.length ≤ reserve → ∃ p, wire.finish w' more rev token = some p
  token_length : ∀ q, (wire.revisionToken q).length = revisionTokenLen
  token_revision : ∀ q, wire.tokenRevision (wire.revisionToken q) = some q

/-! ## The window -/

namespace Arena

variable {L : Limits}

/-- The slot is a change in `(since, cut]` under the prefix, in the surface's root
(`in_window`). -/
def inWindow (s : BindingSlot) (pre : Bytes) (since cut : UInt64) : Bool :=
  decide (s.path.length ≠ 0) && decide (s.root.length = 0) && decide (since < s.changeRev) &&
    decide (s.changeRev ≤ cut) && underPrefix s.path pre

/-- What the key holds: the bound target, or nothing for a tombstone (`change_value`). -/
def changeValue (s : BindingSlot) : Bytes := if s.kind = kindTombstone then [] else s.objectId

/-- The record of a slot. -/
def changeRec (s : BindingSlot) : ChangeRec :=
  ⟨s.changeRev, if s.kind = kindTombstone then .deleted else .modified, s.path, changeValue s⟩

/-- The slots of the window, in the arena's order. -/
def window (a : Arena L) (pre : Bytes) (since cut : UInt64) : List BindingSlot :=
  (a.occupied.map Prod.fst).filter fun s => inWindow s pre since cut

/-- The record bytes of the window; refused when one of its keys is longer than a record can
name (`window_bytes`). -/
def windowBytes (wire : ChangesWire) (a : Arena L) (pre : Bytes) (since cut : UInt64) :
    Except ChangesErr ℕ :=
  (a.window pre since cut).foldlM (fun n s =>
    if storageKeyMax < s.path.length then .error .overflow
    else .ok (n + (wire.recordFixedLen + s.path.length + (changeValue s).length))) 0

/-- The bisection for the cut: the window up to `lo` fits the budget, the one up to `hi` does
not. -/
def cutLoop (wire : ChangesWire) (a : Arena L) (pre : Bytes) (since : UInt64) (budget : ℕ) :
    ℕ → UInt64 → UInt64 → Except ChangesErr UInt64
  | 0, lo, _ => .ok lo
  | fuel + 1, lo, hi =>
    if 1 < hi - lo then
      let mid := lo + (hi - lo) / 2
      match a.windowBytes wire pre since mid with
      | .error e => .error e
      | .ok n => if n ≤ budget then cutLoop wire a pre since budget fuel mid hi
        else cutLoop wire a pre since budget fuel lo mid
    else .ok lo

/-- The highest cut whose window fits the budget. -/
def cutFor (wire : ChangesWire) (a : Arena L) (pre : Bytes) (since : UInt64) (budget total : ℕ) :
    Except ChangesErr UInt64 :=
  if total ≤ budget then .ok a.changeSeq
  else a.cutLoop wire pre since budget (a.changeSeq - since).toNat since a.changeSeq

/-- One page of the changes after `since` (`delta_page`). -/
def deltaPage (wire : ChangesWire) (a : Arena L) (pre : Bytes) (since : UInt64) (out : ℕ) :
    Except ChangesErr wire.Page :=
  let head := a.changeSeq
  if since < a.changeHorizon ∨ head < since then (wire.writeLost out).elim (.error .nomem) .ok
  else
    let budget := out - (wire.headLen + wire.trailerFixedLen + revisionTokenLen)
    match wire.new out revisionTokenLen with
    | none => .error .nomem
    | some w =>
      match a.windowBytes wire pre since head with
      | .error e => .error e
      | .ok total =>
        match a.cutFor wire pre since budget total with
        | .error e => .error e
        | .ok cut =>
          if cut = since ∧ 0 < total then .error .nomem
          else
            match ((a.window pre since cut).map changeRec).foldlM wire.push w with
            | none => .error .nomem
            | some w =>
              let more := decide (cut < head)
              let rest := if more then cut else head
              (wire.finish w more rest (wire.revisionToken rest)).elim (.error .nomem) .ok

end Arena

/-! ## The relist -/

namespace Namespace

variable {L : Limits}

/-- The loop of `walk_ordered`, for a `take` that keeps something of the entry it stops at. -/
def walkLoopUntil {σ : Type} (ns : Namespace L) (io : ReadEnv) (root pre : Bytes)
    (take : σ → Listed → σ × Bool) : ℕ → Bytes → ℕ → σ → SnapRead (Bool × σ)
  | 0, _, _, w => .ready (false, w)
  | fuel + 1, after, idx, w =>
    match ns.nextRecord io root pre after idx with
    | .pending => .pending
    | .failed => .failed
    | .ready (b, idx) =>
      match ns.pickListed ((ns.bindings.nextListed root pre after).map Prod.fst) b with
      | none => .ready (false, w)
      | some (e, behind) =>
        match if e.binding.live then take w e else (w, true) with
        | (w, false) => .ready (true, w)
        | (w, true) =>
          walkLoopUntil ns io root pre take fuel e.path (if behind then idx + 1 else idx) w

/-- Walk the live bindings in name order with such a `take` (`walk_ordered`). -/
def walkOrderedUntil {σ : Type} (ns : Namespace L) (io : ReadEnv) (root pre after : Bytes)
    (take : σ → Listed → σ × Bool) (w : σ) : SnapRead (Bool × σ) :=
  match ns.walkStart io root after with
  | .pending => .pending
  | .failed => .failed
  | .ready idx => ns.walkLoopUntil io root pre take (ns.candidates.length + 1) after idx w

/-- A relist's page while it is written. -/
structure RelistWrite (wire : ChangesWire) where
  writer : wire.Writer
  last : Bytes
  /-- A key was longer than a continuation can name. -/
  overflow : Bool

/-- Put an entry. -/
def relistTake (wire : ChangesWire) (L : Limits) (st : RelistWrite wire) (e : Listed) :
    RelistWrite wire × Bool :=
  if cursorMax L < e.path.length then ({ st with overflow := true }, false)
  else
    match wire.push st.writer ⟨e.changeRev, .added, e.path, e.binding.objectId⟩ with
    | none => (st, false)
    | some w => (⟨w, e.path, st.overflow⟩, true)

/-- The continuation of a relist that began at a revision, after a key. -/
def relistToken (pinned : UInt64) (last : Bytes) : Bytes :=
  tRelist :: (leBytes 8 pinned.toNat ++ last)

/-- One page of a relist: the live bindings under the prefix, in name order from just past the
cursor (`relist_page`). -/
def relistPage (wire : ChangesWire) (ns : Namespace L) (io : ReadEnv) (pre : Bytes)
    (pinned : UInt64) (cursor : Bytes) (out : ℕ) : Except ChangesErr wire.Page :=
  if cursor.length ≠ 0 ∧ (cursorMax L < cursor.length ∨ ¬ pre <+: cursor) then .error .inval
  else
    match wire.new out (9 + cursorMax L) with
    | none => .error .nomem
    | some w =>
      match ns.walkOrderedUntil io [] pre cursor (relistTake wire L) ⟨w, [], false⟩ with
      | .pending => .error .again
      | .failed => .error .io
      | .ready (more, st) =>
        if st.overflow then .error .overflow
        else if more ∧ wire.count st.writer = 0 then .error .nomem
        else if more then
          (wire.finish st.writer true 0 (relistToken pinned st.last)).elim (.error .nomem) .ok
        else
          (wire.finish st.writer false pinned (wire.revisionToken pinned)).elim
            (.error .nomem) .ok

/-- **`CHANGES`** (`ns_changes`): what the token asks for. -/
def nsChanges (wire : ChangesWire) (ns : Namespace L) (io : ReadEnv) (pre token : Bytes)
    (out : ℕ) : Except ChangesErr wire.Page :=
  if token.length = 0 then ns.relistPage wire io pre ns.bindings.changeSeq [] out
  else if token.length = revisionTokenLen then
    ns.bindings.deltaPage wire pre ((wire.tokenRevision token).getD 0) out
  else if 9 ≤ token.length ∧ token.head? = some tRelist then
    ns.relistPage wire io pre (UInt64.ofNat (leNat ((token.drop 1).take 8))) (token.drop 9) out
  else .error .inval

end Namespace

end Loam

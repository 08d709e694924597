import Loam.Lib.Framing
import Loam.Lib.Run
import Loam.Proposer
import Loam.ReplyOut
import Loam.WireAnswers

/-!
# The consensus bridge

Between the proposer and the replica group stands a bridge. A proposal is framed
and offered to the group; what the group's channel does not take stays owed, and
no other proposal is read before it has gone. A committed entry comes back in a
frame of the consumer facade, and is written to the namespace as a Committed
record with the proof of its commit.

What the commits channel does not take is not kept. A refused write loses the
entry, and a short one leaves the front of its record in the stream. So the
entries come out once, whole and in order exactly in the runs whose writes of
them are all taken whole (`relayed_iff`).

The facade frames, splits the stream and reads an entry, and the digest is
computed, outside this repository: here they are parameters.
-/

namespace Loam

open Slices

/-! ## Decision records -/

/-- Why a decision record is not encoded, or not decoded. -/
inductive DecisionError where
  | bufferTooSmall (needed actual : ℕ)
  /-- It ends before its fields do. -/
  | truncated
  | badOpcode (observed : UInt8)
  | badPlane (observed : UInt8)
  | innerTooLarge (len max : ℕ)
deriving DecidableEq

def opPropose : UInt8 := 0x10
def opCommitted : UInt8 := 0x11
def opAborted : UInt8 := 0x12
def opReplayDrained : UInt8 := 0x13

/-- The plane's byte. -/
def Plane.byte : Plane → UInt8
  | .namespacePlane => 1
  | .objectPlane => 2
  | .blockPlane => 3

/-- The plane of a byte. -/
def Plane.ofByte (b : UInt8) : Option Plane :=
  if b = 1 then some .namespacePlane
  else if b = 2 then some .objectPlane
  else if b = 3 then some .blockPlane
  else none

def decodePropose (src : Bytes) : Except DecisionError Propose :=
  if src.length < 8 then .error .truncated
  else if src.getD 0 0 ≠ opPropose then .error (.badOpcode (src.getD 0 0))
  else match Plane.ofByte (src.getD 1 0) with
    | none => .error (.badPlane (src.getD 1 0))
    | some plane =>
      if src.length < 8 + num src 6 2 then .error .truncated
      else .ok ⟨plane, u32At src 2, slice src 8 (num src 6 2)⟩

/-- The fields of a Committed record. -/
def committedFields (p : Propose) (proof : CommitProof) : List Bytes :=
  [[opCommitted], [p.plane.byte], leBytes 4 p.correlationId.toNat, [proof.quorum], proof.source,
    leBytes 8 proof.term.toNat, leBytes 8 proof.index.toNat, proof.witness,
    leBytes 2 p.inner.length, p.inner]

/-- The Committed record of a proposal. Its plane is one by its type. -/
def encodeCommitted (room : ℕ) (p : Propose) (proof : CommitProof) : Except DecisionError Bytes :=
  if maxInner < p.inner.length then .error (.innerTooLarge p.inner.length maxInner)
  else if room < committedHdr + p.inner.length then
    .error (.bufferTooSmall (committedHdr + p.inner.length) room)
  else .ok (committedFields p proof).flatten

/-- The length of the decision record at the front (`record_len`). -/
def decisionRecordLen (src : Bytes) : Except DecisionError (Option ℕ) :=
  match src.head? with
  | none => .ok none
  | some op =>
    if op = opReplayDrained then .ok (some 1)
    else if op = opAborted then .ok (complete src 5)
    else if op = opPropose then
      .ok (if src.length < 8 then none else complete src (8 + num src 6 2))
    else if op = opCommitted then
      .ok (if src.length < committedHdr then none else complete src (committedHdr + num src 71 2))
    else .error (.badOpcode op)

/-! ## The facade -/

/-- An entry of the group's log, committed. -/
structure CommittedEntry where
  partitionId : UInt16
  term : UInt64
  index : UInt64
  command : Bytes
deriving DecidableEq

/-- A frame of the group's channels: the kind of message, and its payload. -/
abbrev ClustorFrame := UInt8 × Bytes

/-- What the bridge calls and this repository does not hold: the consumer facade,
and the digest. -/
structure Facade where
  /-- The kind of a proposal (`MSG_CLIENT_PROPOSAL`). -/
  msgClientProposal : UInt8
  /-- The kind of a committed entry (`MSG_COMMITTED_ENTRY`). -/
  msgCommittedEntry : UInt8
  frame : ℕ → ClustorFrame → Option Bytes
  nextFrame : Bytes → Option (ClustorFrame × ℕ)
  decodeEntry : Bytes → Option CommittedEntry
  sha256 : Bytes → Bytes

/-- The facade splits a stream into the frames that were written. -/
def Facade.Splits (F : Facade) (E : Framing ClustorFrame UInt8) : Prop :=
  ∀ l, F.nextFrame l = (E.head l).map fun p => (p.1, (E.enc p.1).length)

/-! ## The bridge -/

/-- The buffers of the bridge (`BUF`). -/
def bridgeBuf : ℕ := 4400

/-- What the bridge is configured with. -/
structure BridgeConfig where
  groupId : Bytes
  witnessQuorum : UInt8
  /-- The records one step takes (`OPS_PER_STEP`). -/
  opsPerStep : ℕ
deriving DecidableEq

/-- The identity of a partition's log. -/
def commitSource (groupId : Bytes) (partitionId : UInt16) : Bytes :=
  (groupId.modify 14 (· ^^^ UInt8.ofNat partitionId.toNat)).modify 15
    (· ^^^ UInt8.ofNat (partitionId.toNat / 256))

/-- The bytes of loam-commit-witness, and 1. -/
def witnessDomain : Bytes :=
  [108, 111, 97, 109, 45, 99, 111, 109, 109, 105, 116, 45, 119, 105, 116, 110, 101, 115, 115, 1]

/-- The commitment to an entry. -/
def commitWitness (F : Facade) (source : Bytes) (e : CommittedEntry) : Bytes :=
  F.sha256 (witnessDomain ++ source ++ leBytes 8 e.term.toNat ++ leBytes 8 e.index.toNat
    ++ e.command)

/-- The proof of an entry's commit. -/
def entryProof (F : Facade) (cfg : BridgeConfig) (e : CommittedEntry) : CommitProof where
  source := commitSource cfg.groupId e.partitionId
  term := e.term
  index := e.index
  quorum := cfg.witnessQuorum
  witness := commitWitness F (commitSource cfg.groupId e.partitionId) e

/-- The entry in a frame, if it is a proposal of this side. An entry of another
consumer of the group is not. -/
def loamEntry (F : Facade) (a : ClustorFrame) : Option (CommittedEntry × Propose) :=
  if a.1 = F.msgCommittedEntry then
    match F.decodeEntry a.2 with
    | none => none
    | some e =>
      match decodePropose e.command with
      | .error _ => none
      | .ok p => some (e, p)
  else none

/-- The bridge, what is on its way to it, and what its channels have taken. -/
structure BridgeWorld where
  /-- Proposals read and not yet handled. -/
  reqAsm : Bytes
  /-- Frames read and not yet handled. -/
  asm : Bytes
  outOwed : ReplyOut
  forwarded : UInt32
  committed : UInt32
  errors : UInt32
  proposalsIn : Bytes
  /-- What the facade's channel still holds. -/
  clustorIn : Bytes
  /-- What the group's channel has taken. -/
  clustorOut : Bytes
  commits : Bytes
deriving DecidableEq

/-- What happens around one step: what arrives, how much the channels bring and
what they take of each write, nothing when they refuse. -/
structure BridgeStep where
  proposed : Bytes
  delivered : List ClustorFrame
  /-- What the group's channel takes of the owed proposal. -/
  owedTook : ℕ
  proposalsRead : ℕ
  /-- What the group's channel takes of each proposal. -/
  forwardTook : List ℕ
  committedRead : ℕ
  commitsTook : List ℕ
deriving DecidableEq

namespace BridgeWorld

/-- Nothing has come yet. -/
def new : BridgeWorld := ⟨[], [], .new, 0, 0, 0, [], [], [], []⟩

/-- The owed proposal is offered. -/
def flushed (w : BridgeWorld) (took : ℕ) : BridgeWorld :=
  { w with outOwed := (w.outOwed.flush took).1, clustorOut := w.clustorOut ++ (w.outOwed.flush took).2.1 }

/-- Proposals are read, as many as there is room for. -/
def readProposals (w : BridgeWorld) (count : ℕ) : BridgeWorld :=
  { w with
    reqAsm := w.reqAsm ++ w.proposalsIn.take (min count (bridgeBuf - w.reqAsm.length))
    proposalsIn := w.proposalsIn.drop (min count (bridgeBuf - w.reqAsm.length)) }

/-- Frames are read, as much as there is room for. -/
def readCommitted (w : BridgeWorld) (count : ℕ) : BridgeWorld :=
  { w with
    asm := w.asm ++ w.clustorIn.take (min count (bridgeBuf - w.asm.length))
    clustorIn := w.clustorIn.drop (min count (bridgeBuf - w.asm.length)) }

/-- A proposal is framed and offered. -/
def propose (F : Facade) (w : BridgeWorld) (record : Bytes) (took : ℕ) : BridgeWorld :=
  match F.frame bridgeBuf (F.msgClientProposal, record) with
  | none => { w with errors := w.errors + 1 }
  | some framed =>
    let (out, staged) := w.outOwed.stage bridgeBuf framed
    if staged then
      { w with
        outOwed := (out.flush took).1
        clustorOut := w.clustorOut ++ (out.flush took).2.1
        forwarded := if (out.flush took).2.2 then w.forwarded + 1 else w.forwarded }
    else { w with errors := w.errors + 1 }

/-- The proposal path: at most so many records, until one is owed. -/
def forward (F : Facade) : ℕ → List ℕ → BridgeWorld → BridgeWorld
  | 0, _, w => w
  | n + 1, tooks, w =>
    if w.outOwed.owed then w
    else match decisionRecordLen w.reqAsm with
      | .ok none => w
      | .error _ => forward F n tooks { w with reqAsm := w.reqAsm.drop 1, errors := w.errors + 1 }
      | .ok (some len) =>
        match decodePropose (w.reqAsm.take len) with
        | .error _ =>
          forward F n tooks { w with reqAsm := w.reqAsm.drop len, errors := w.errors + 1 }
        | .ok _ =>
          forward F n tooks.tail
            (propose F { w with reqAsm := w.reqAsm.drop len } (w.reqAsm.take len) (tooks.headD 0))

/-- The whole frames at the front of what is read, and the rest. -/
def splitFrames (F : Facade) : ℕ → Bytes → List ClustorFrame × Bytes
  | 0, l => ([], l)
  | n + 1, l =>
    match F.nextFrame l with
    | none => ([], l)
    | some (a, consumed) =>
      (a :: (splitFrames F n (l.drop consumed)).1, (splitFrames F n (l.drop consumed)).2)

/-- The commit path: each entry is written, and what the channel takes of it is
not asked. -/
def relay (F : Facade) (cfg : BridgeConfig) : List ClustorFrame → List ℕ → BridgeWorld → BridgeWorld
  | [], _, w => w
  | a :: as, tooks, w =>
    match loamEntry F a with
    | none => relay F cfg as tooks w
    | some (e, p) =>
      match encodeCommitted bridgeBuf p (entryProof F cfg e) with
      | .error _ => relay F cfg as tooks { w with errors := w.errors + 1 }
      | .ok record =>
        relay F cfg as tooks.tail
          { w with
            commits := w.commits ++ record.take (tooks.headD 0)
            committed := w.committed + 1 }

/-- Proposals and frames arrive. -/
def arrive (E : Framing ClustorFrame UInt8) (w : BridgeWorld) (t : BridgeStep) : BridgeWorld :=
  { w with
    proposalsIn := w.proposalsIn ++ t.proposed
    clustorIn := w.clustorIn ++ E.frames t.delivered }

/-- A proposal stays owed, and owns the step. -/
def stalled (w : BridgeWorld) (t : BridgeStep) : Bool := !(w.outOwed.flush t.owedTook).2.2

/-- What the commit path finds to split. -/
def beforeCommits (F : Facade) (cfg : BridgeConfig) (E : Framing ClustorFrame UInt8)
    (w : BridgeWorld) (t : BridgeStep) : BridgeWorld :=
  (forward F cfg.opsPerStep t.forwardTook
    (((w.arrive E t).flushed t.owedTook).readProposals t.proposalsRead)).readCommitted
      t.committedRead

/-- A step of the bridge (`module_step`), all its ports wired. -/
def step (F : Facade) (cfg : BridgeConfig) (E : Framing ClustorFrame UInt8) (w : BridgeWorld)
    (t : BridgeStep) : BridgeWorld :=
  if w.stalled t then (w.arrive E t).flushed t.owedTook
  else
    let w := w.beforeCommits F cfg E t
    { relay F cfg (splitFrames F w.asm.length w.asm).1 t.commitsTook w with
      asm := (splitFrames F w.asm.length w.asm).2 }

/-! ## What the commit path leaves alone -/

variable {F : Facade} {cfg : BridgeConfig} {E : Framing ClustorFrame UInt8} {w : BridgeWorld}
  {t : BridgeStep} {as D : List ClustorFrame} {tooks : List ℕ} {n m : ℕ}

/-- The commit side of the bridge: what the proposal path does not touch. -/
def commitSide (w : BridgeWorld) : Bytes × Bytes × Bytes := (w.asm, w.clustorIn, w.commits)

theorem commitSide_propose (record : Bytes) (took : ℕ) :
    (propose F w record took).commitSide = w.commitSide := by
  unfold propose
  cases F.frame bridgeBuf (F.msgClientProposal, record) with
  | none => rfl
  | some framed =>
    dsimp only
    split <;> rfl

theorem commitSide_forward (n : ℕ) (tooks : List ℕ) (w : BridgeWorld) :
    (forward F n tooks w).commitSide = w.commitSide := by
  induction n generalizing tooks w with
  | zero => rfl
  | succ n ih =>
    unfold forward
    split
    · rfl
    split
    · rfl
    · rw [ih]
      rfl
    · split
      · rw [ih]
        rfl
      · rw [ih, commitSide_propose]
        rfl

/-! ## What a step writes -/

/-- The entries of this side in frames, in order. -/
def entries (F : Facade) (as : List ClustorFrame) : List (CommittedEntry × Propose) :=
  as.filterMap (loamEntry F)

/-- The record of an entry, whole. -/
def committedRecord (F : Facade) (cfg : BridgeConfig) (x : CommittedEntry × Propose) : Bytes :=
  (committedFields x.2 (entryProof F cfg x.1)).flatten

/-- **What is to be on the commits channel** once the frames have been handled:
the record of each entry of this side, in order. -/
def records (F : Facade) (cfg : BridgeConfig) (as : List ClustorFrame) : Bytes :=
  ((entries F as).map (committedRecord F cfg)).flatten

/-- Each entry can be encoded, and the channel takes its record whole. -/
def TakesWhole (F : Facade) (cfg : BridgeConfig) :
    List (CommittedEntry × Propose) → List ℕ → Prop
  | [], _ => True
  | x :: xs, tooks =>
    x.2.inner.length ≤ maxInner ∧ (committedRecord F cfg x).length ≤ tooks.headD 0 ∧
      TakesWhole F cfg xs tooks.tail

/-- The commits channel takes whole what the step writes to it. -/
def TakenWhole (F : Facade) (cfg : BridgeConfig) (E : Framing ClustorFrame UInt8)
    (w : BridgeWorld) (t : BridgeStep) : Prop :=
  w.stalled t = false → TakesWhole F cfg
    (entries F (splitFrames F (w.beforeCommits F cfg E t).asm.length (w.beforeCommits F cfg E t).asm).1)
    t.commitsTook

theorem records_append (as bs : List ClustorFrame) :
    records F cfg (as ++ bs) = records F cfg as ++ records F cfg bs := by
  rw [records, entries, List.filterMap_append, List.map_append, List.flatten_append]
  rfl

theorem records_cons_none {a : ClustorFrame} (h : loamEntry F a = none) :
    records F cfg (a :: as) = records F cfg as := by
  rw [records, entries, List.filterMap_cons_none h]
  rfl

theorem records_cons_some {a : ClustorFrame} {x : CommittedEntry × Propose}
    (h : loamEntry F a = some x) :
    records F cfg (a :: as) = committedRecord F cfg x ++ records F cfg as := by
  rw [records, entries, List.filterMap_cons_some h, List.map_cons, List.flatten_cons]
  rfl

theorem committedRecord_pos (F : Facade) (cfg : BridgeConfig) (x : CommittedEntry × Propose) :
    0 < (committedRecord F cfg x).length := by
  rw [committedRecord, committedFields, List.flatten_cons, List.length_append]
  exact Nat.add_pos_left Nat.one_pos _

/-- An event within its ceiling has a record: the buffer has room for it. -/
theorem encodeCommitted_of_le {x : CommittedEntry × Propose} (h : x.2.inner.length ≤ maxInner) :
    encodeCommitted bridgeBuf x.2 (entryProof F cfg x.1) = .ok (committedRecord F cfg x) := by
  have hroom : ¬ bridgeBuf < committedHdr + x.2.inner.length := by
    have hbuf : bridgeBuf = 4400 := rfl
    have hhdr : committedHdr = 73 := rfl
    have hmax : maxInner = 4096 := rfl
    omega
  rw [encodeCommitted, if_neg (Nat.not_lt.mpr h), if_neg hroom]
  rfl

/-- **What a drain writes**: the records of its entries if all are taken whole,
and less than that if one is not. -/
theorem relay_spec (F : Facade) (cfg : BridgeConfig) (as : List ClustorFrame) (tooks : List ℕ) (w : BridgeWorld) :
    ∃ chunk, (relay F cfg as tooks w).commits = w.commits ++ chunk ∧
      (relay F cfg as tooks w).clustorIn = w.clustorIn ∧
      chunk.length ≤ (records F cfg as).length ∧
      (TakesWhole F cfg (entries F as) tooks → chunk = records F cfg as) ∧
      (chunk.length = (records F cfg as).length → TakesWhole F cfg (entries F as) tooks) := by
  induction as generalizing tooks w with
  | nil => exact ⟨[], (List.append_nil _).symm, rfl, Nat.le_refl _, fun _ => rfl, fun _ => trivial⟩
  | cons a as ih =>
    unfold relay
    cases hx : loamEntry F a with
    | none =>
      rw [records_cons_none hx, entries, List.filterMap_cons_none hx]
      exact ih tooks w
    | some x =>
      obtain ⟨e, p⟩ := x
      have hpos := committedRecord_pos F cfg (e, p)
      rw [records_cons_some hx, entries, List.filterMap_cons_some hx, List.length_append]
      dsimp only
      cases henc : encodeCommitted bridgeBuf p (entryProof F cfg e) with
      | error err =>
        -- An entry past the ceiling leaves nothing.
        obtain ⟨chunk, hc, hin, hle, -, -⟩ := ih tooks { w with errors := w.errors + 1 }
        refine ⟨chunk, hc, hin, by omega, fun hwhole => ?_, fun heq => ?_⟩
        · exact nomatch henc.symm.trans (encodeCommitted_of_le (x := (e, p)) hwhole.1)
        · omega
      | ok record =>
        obtain ⟨hinner, rfl⟩ : p.inner.length ≤ maxInner ∧ committedRecord F cfg (e, p) = record := by
          by_cases hinner : p.inner.length ≤ maxInner
          · exact ⟨hinner, Except.ok.inj ((encodeCommitted_of_le (x := (e, p)) hinner).symm.trans henc)⟩
          rw [encodeCommitted, if_pos (Nat.not_le.mp hinner)] at henc
          cases henc
        obtain ⟨chunk, hc, hin, hle, hwhole, heq⟩ := ih tooks.tail
          { w with
            commits := w.commits ++ (committedRecord F cfg (e, p)).take (tooks.headD 0)
            committed := w.committed + 1 }
        refine ⟨(committedRecord F cfg (e, p)).take (tooks.headD 0) ++ chunk, ?_, hin, ?_, ?_, ?_⟩
        · exact hc.trans (List.append_assoc _ _ _)
        · rw [List.length_append, List.length_take]
          omega
        · rintro ⟨-, htook, hrest⟩
          rw [List.take_of_length_le htook, hwhole hrest]
        · intro hlen
          rw [List.length_append, List.length_take] at hlen
          exact ⟨hinner, by omega, heq (by omega)⟩

/-! ## Frames -/

/-- The bridge reads frames as they were written. -/
theorem splitFrames_eq (hF : F.Splits E) (n : ℕ) (l : Bytes) :
    splitFrames F n l = E.readUpTo n l := by
  induction n generalizing l with
  | zero => rfl
  | succ n ih =>
    rw [splitFrames, Framing.readUpTo, hF l]
    cases hh : E.head l with
    | none => rfl
    | some p =>
      obtain ⟨a, r⟩ := p
      obtain ⟨-, rfl⟩ := E.head_eq_some_iff.mp hh
      dsimp only [Option.map_some]
      rw [List.drop_left, ih]

/-! ## Runs -/

/-- **What the bridge has made of the frames delivered**: it has handled so many
of them, and so many bytes of the records of these are not on the commits
channel. -/
structure Handled (F : Facade) (cfg : BridgeConfig) (E : Framing ClustorFrame UInt8)
    (D : List ClustorFrame) (w : BridgeWorld) (n m : ℕ) : Prop where
  le : n ≤ D.length
  rest : w.asm ++ w.clustorIn = E.frames (D.drop n)
  /-- What is read holds no whole frame. -/
  split : E.head w.asm = none
  count : (records F cfg (D.take n)).length = w.commits.length + m
  /-- Where none is missing, the records are there, whole and in order. -/
  whole : m = 0 → w.commits = records F cfg (D.take n)

/-- More is delivered, and the commit path is not reached. -/
theorem Handled.arrive (h : Handled F cfg E D w n m) (w' : BridgeWorld) (as : List ClustorFrame)
    (hasm : w'.asm = w.asm) (hin : w'.clustorIn = w.clustorIn ++ E.frames as)
    (hcommits : w'.commits = w.commits) : Handled F cfg E (D ++ as) w' n m where
  le := h.le.trans (by rw [List.length_append]; exact Nat.le_add_right _ _)
  rest := by
    rw [hasm, hin, ← List.append_assoc, h.rest, List.drop_append_of_le_length h.le,
      Framing.frames_append]
  split := by
    rw [hasm]
    exact h.split
  count := by
    rw [hcommits, List.take_append_of_le_length h.le]
    exact h.count
  whole := by
    rw [hcommits, List.take_append_of_le_length h.le]
    exact h.whole

/-- What is read and what is left of the channel are what was on its way. -/
theorem beforeCommits_spec (F : Facade) (cfg : BridgeConfig) (E : Framing ClustorFrame UInt8)
    (w : BridgeWorld) (t : BridgeStep) :
    (w.beforeCommits F cfg E t).asm ++ (w.beforeCommits F cfg E t).clustorIn
        = w.asm ++ (w.clustorIn ++ E.frames t.delivered) ∧
      (w.beforeCommits F cfg E t).commits = w.commits := by
  unfold beforeCommits
  have hside := commitSide_forward (F := F) cfg.opsPerStep t.forwardTook
    (((w.arrive E t).flushed t.owedTook).readProposals t.proposalsRead)
  generalize forward F cfg.opsPerStep t.forwardTook
    (((w.arrive E t).flushed t.owedTook).readProposals t.proposalsRead) = v at hside ⊢
  obtain ⟨hasm, hrest⟩ := Prod.mk.inj hside
  obtain ⟨hin, hcommits⟩ := Prod.mk.inj hrest
  refine ⟨?_, hcommits⟩
  show v.asm ++ v.clustorIn.take _ ++ v.clustorIn.drop _ = _
  rw [List.append_assoc, List.take_append_drop, hasm, hin]
  rfl

/-- **A step handles what it reads**, and loses something exactly if a record is
not taken whole. -/
theorem Handled.after (hF : F.Splits E) (h : Handled F cfg E D w n m) {t : BridgeStep}
    (hok : ∀ a ∈ D ++ t.delivered, E.Ok a) :
    ∃ n' m', Handled F cfg E (D ++ t.delivered) (w.step F cfg E t) n' m' ∧ m ≤ m' ∧
      (m = m' ↔ w.TakenWhole F cfg E t) := by
  unfold BridgeWorld.step TakenWhole
  cases hstall : w.stalled t with
  | true =>
    exact ⟨n, m, h.arrive _ t.delivered rfl rfl rfl, Nat.le_refl m,
      iff_of_true rfl (fun hf => nomatch hf)⟩
  | false =>
    rw [if_neg Bool.false_ne_true]
    dsimp only
    obtain ⟨hall, hcommits⟩ := beforeCommits_spec F cfg E w t
    generalize w.beforeCommits F cfg E t = v at hall hcommits ⊢
    have hready := h.arrive { w with clustorIn := w.clustorIn ++ E.frames t.delivered }
      t.delivered rfl rfl rfl
    have hon : v.asm ++ v.clustorIn = E.frames ((D ++ t.delivered).drop n) := hall.trans hready.rest
    have hcount := hready.count
    have hcommitted := hready.whole
    have hle := hready.le
    rw [← hcommits] at hcommitted
    generalize D ++ t.delivered = D' at *
    obtain ⟨j, hj, hrecords, hrest⟩ := Framing.records_front
      (fun a ha => hok a (List.mem_of_mem_drop ha)) hon
    have hsplit : splitFrames F v.asm.length v.asm = (E.records v.asm, E.rest v.asm) := by
      rw [splitFrames_eq hF]
      rfl
    rw [hsplit, hrecords]
    obtain ⟨chunk, hc, hin, hlen, hwhole, heq⟩ := relay_spec F cfg
      ((D'.drop n).take j) t.commitsTook v
    have htake : D'.take (n + j) = D'.take n ++ (D'.drop n).take j := List.take_add
    rw [List.length_drop] at hj
    refine ⟨n + j, m + ((records F cfg ((D'.drop n).take j)).length - chunk.length),
      ⟨by omega, ?_, Framing.head_rest _, ?_, fun hz => ?_⟩, Nat.le_add_right _ _, ?_⟩
    · show E.rest v.asm ++ (relay F cfg _ _ v).clustorIn = _
      rw [hin, hrest, List.drop_drop]
    · show _ = (relay F cfg _ _ v).commits.length + _
      rw [htake, records_append, List.length_append, hc, List.length_append, hcommits, hcount]
      show w.commits.length + m + _ = _
      omega
    · show (relay F cfg _ _ v).commits = _
      rw [htake, records_append, hc, hcommitted (by omega), hwhole (heq (by omega))]
    · refine ⟨fun hm _ => heq (by omega), fun ht => ?_⟩
      rw [hwhole (ht rfl)]
      omega

/-- The frames of a run. -/
def delivered (ts : List BridgeStep) : List ClustorFrame := ts.flatMap (·.delivered)

theorem Handled.run (hF : F.Splits E) (h : Handled F cfg E D w n m) (ts : List BridgeStep)
    (hok : ∀ a ∈ D ++ delivered ts, E.Ok a) :
    ∃ n' m', Handled F cfg E (D ++ delivered ts) (Run.run (step F cfg E) w ts) n' m' ∧ m ≤ m' ∧
      (m = m' ↔ Run.AllSteps (step F cfg E) (TakenWhole F cfg E) w ts) := by
  induction ts generalizing D w n m with
  | nil =>
    rw [delivered, List.flatMap_nil, List.append_nil]
    exact ⟨n, m, h, Nat.le_refl m, iff_of_true rfl trivial⟩
  | cons t ts ih =>
    have hall : D ++ delivered (t :: ts) = D ++ t.delivered ++ delivered ts := by
      rw [delivered, List.flatMap_cons, List.append_assoc]
      rfl
    rw [hall] at hok ⊢
    obtain ⟨n₁, m₁, h₁, hle₁, hiff₁⟩ := h.after hF fun a ha => hok a (List.mem_append_left _ ha)
    obtain ⟨n₂, m₂, h₂, hle₂, hiff₂⟩ := ih h₁ hok
    refine ⟨n₂, m₂, h₂, hle₁.trans hle₂, ?_⟩
    rw [Run.allSteps_cons, ← hiff₁, ← hiff₂]
    omega

/-- **Each entry comes out once, whole and in order**: the commits channel has
the records of the first of the frames delivered and nothing else, and the other
frames are on their way. -/
def Relayed (F : Facade) (cfg : BridgeConfig) (E : Framing ClustorFrame UInt8)
    (D : List ClustorFrame) (w : BridgeWorld) : Prop :=
  ∃ n ≤ D.length, w.asm ++ w.clustorIn = E.frames (D.drop n) ∧
    w.commits = records F cfg (D.take n)

/-- **When each committed entry comes out once, whole and in order**: exactly in
the runs whose records are all within their ceiling and are taken whole by the
commits channel. Where moreover no frame is longer than the buffer, the bridge
does not get stuck: there is room to read as long as something is there to be
read, and once all is read, all of the frames delivered have been handled. -/
theorem relayed_iff (F : Facade) (cfg : BridgeConfig) (E : Framing ClustorFrame UInt8)
    (hF : F.Splits E) (ts : List BridgeStep) (hok : ∀ a ∈ delivered ts, E.Ok a) :
    (Relayed F cfg E (delivered ts) (Run.run (step F cfg E) new ts) ↔
      Run.AllSteps (step F cfg E) (TakenWhole F cfg E) new ts) ∧
    ((∀ a ∈ delivered ts, (E.enc a).length ≤ bridgeBuf) →
      ((Run.run (step F cfg E) new ts).clustorIn ≠ [] →
        (Run.run (step F cfg E) new ts).asm.length < bridgeBuf) ∧
      ((Run.run (step F cfg E) new ts).clustorIn = [] →
        Run.AllSteps (step F cfg E) (TakenWhole F cfg E) new ts →
        (Run.run (step F cfg E) new ts).commits = records F cfg (delivered ts))) := by
  have hnew : Handled F cfg E [] new 0 0 := ⟨Nat.le_refl 0, rfl, Framing.head_nil, rfl, fun _ => rfl⟩
  obtain ⟨n, m, h, -, hiff⟩ := hnew.run hF ts hok
  rw [List.nil_append] at h
  generalize Run.run (step F cfg E) new ts = w at h ⊢
  have hdrop : ∀ k, ∀ a ∈ (delivered ts).drop k, E.Ok a := fun k a ha =>
    hok a (List.mem_of_mem_drop ha)
  refine ⟨?_, fun hfit => ⟨fun hin => ?_, fun hin hwhole => ?_⟩⟩
  · rw [← hiff]
    constructor
    · rintro ⟨k, hk, hrest, hcommits⟩
      -- What is on its way tells how many frames have been handled.
      have hsame := congrArg List.length (Framing.frames_inj (hdrop n) (hdrop k) (h.rest.symm.trans hrest))
      rw [List.length_drop, List.length_drop] at hsame
      have hle := h.le
      have hcount := h.count
      rw [show n = k by omega, ← hcommits] at hcount
      omega
    · intro hm
      exact ⟨n, h.le, h.rest, h.whole hm.symm⟩
  · have hrest := h.rest
    have hmem := hdrop n
    cases hd : (delivered ts).drop n with
    | nil =>
      rw [hd] at hrest
      exact absurd (List.append_eq_nil_iff.mp hrest).2 hin
    | cons a as =>
      rw [hd] at hrest hmem
      have ha : a ∈ delivered ts := List.mem_of_mem_drop (hd ▸ List.mem_cons_self)
      exact (Framing.length_lt_of_head h.split (hok a ha) hrest).trans_le (hfit a ha)
  · have hrest := h.rest
    rw [hin, List.append_nil] at hrest
    have hnone : (delivered ts).drop n = [] := by
      cases hd : (delivered ts).drop n with
      | nil => rfl
      | cons a as =>
        have ha : a ∈ delivered ts := List.mem_of_mem_drop (hd ▸ List.mem_cons_self)
        have hsplit := h.split
        rw [hrest, hd, Framing.frames_cons, Framing.head_enc (hok a ha)] at hsplit
        cases hsplit
    rw [h.whole (hiff.mpr hwhole).symm, List.take_of_length_le (List.drop_eq_nil_iff.mp hnone)]

/-! An envelope of three bytes, as the group's channels have it, with a
committed entry of a fixed header. -/

/-- The kind of message, the length of its payload, and the payload. -/
def encodeEnvelope (a : ClustorFrame) : Bytes := [a.1] ++ leBytes 2 a.2.length ++ a.2

/-- The envelope at the front, once it is all there. -/
def envelopeHead (l : Bytes) : Option (ClustorFrame × Bytes) :=
  if 3 + num l 1 2 ≤ l.length then
    some ((l.getD 0 0, slice l 3 (num l 1 2)), l.drop (3 + num l 1 2))
  else none

/-- The payload's length is read back. -/
theorem num_encodeEnvelope {k : UInt8} {p r : Bytes} (hp : p.length < 65536) :
    num (encodeEnvelope (k, p) ++ r) 1 2 = p.length := by
  rw [num, encodeEnvelope, List.append_assoc, List.append_assoc]
  show leNat ((leBytes 2 p.length ++ (p ++ r)).take 2) = _
  rw [List.take_left' (length_leBytes 2 _), leNat_leBytes hp]

/-- A front with its length is its own envelope. -/
theorem encodeEnvelope_slice {l : Bytes} (hlen : 3 + num l 1 2 ≤ l.length) :
    (slice l 3 (num l 1 2)).length < 65536 ∧
      l = encodeEnvelope (l.getD 0 0, slice l 3 (num l 1 2)) ++ l.drop (3 + num l 1 2) := by
  have hsize : (slice l 3 (num l 1 2)).length = num l 1 2 := length_slice (by omega)
  have hwidth : (slice l 1 2).length = 2 := length_slice (by omega)
  have hnum : leBytes 2 (num l 1 2) = slice l 1 2 := by
    have hbytes := leBytes_leNat (slice l 1 2)
    rwa [hwidth] at hbytes
  refine ⟨?_, ?_⟩
  · rw [hsize]
    exact (leNat_lt _).trans_le (by rw [hwidth]; exact Nat.le_refl 65536)
  · show l = [l.getD 0 0] ++ leBytes 2 (slice l 3 (num l 1 2)).length
      ++ slice l 3 (num l 1 2) ++ l.drop (3 + num l 1 2)
    rw [hsize, hnum, ← slice_one_eq (by omega) 0]
    show l = slice l 0 1 ++ slice l (0 + 1) 2 ++ slice l (0 + 3) (num l 1 2) ++ _
    rw [slice_append_slice, slice_append_slice, slice_zero, List.take_append_drop]

theorem envelopeHead_encode {k : UInt8} {p r : Bytes} (hp : p.length < 65536) :
    envelopeHead (encodeEnvelope (k, p) ++ r) = some ((k, p), r) := by
  have hhead : ([k] ++ leBytes 2 p.length).length = 3 := rfl
  have htake : slice (encodeEnvelope (k, p) ++ r) 3 p.length = p := by
    rw [slice, encodeEnvelope, List.append_assoc, List.drop_left' hhead, List.take_left]
  have hdrop : (encodeEnvelope (k, p) ++ r).drop (3 + p.length) = r := by
    refine List.drop_left' ?_
    rw [encodeEnvelope, List.length_append, hhead]
  have hfits : 3 + p.length ≤ (encodeEnvelope (k, p) ++ r).length := by
    rw [List.length_append, encodeEnvelope, List.length_append, hhead]
    exact Nat.le_add_right _ _
  rw [envelopeHead, num_encodeEnvelope hp, if_pos hfits, htake, hdrop]
  rfl

theorem envelopeHead_eq_some_iff {l : Bytes} {a : ClustorFrame} {r : Bytes} :
    envelopeHead l = some (a, r) ↔ a.2.length < 65536 ∧ l = encodeEnvelope a ++ r := by
  constructor
  · intro h
    unfold envelopeHead at h
    split at h
    · next hlen =>
      cases h
      exact encodeEnvelope_slice hlen
    · cases h
  · intro h
    rw [h.2]
    exact envelopeHead_encode h.1

/-- See `encodeEnvelope`. -/
def envelope : Framing ClustorFrame UInt8 where
  enc := encodeEnvelope
  Ok a := a.2.length < 65536
  head := envelopeHead
  head_eq_some_iff := envelopeHead_eq_some_iff
  enc_ne_nil := fun _ => List.cons_ne_nil _ _

/-- A facade with that envelope. -/
def exampleFacade : Facade where
  msgClientProposal := 1
  msgCommittedEntry := 2
  frame room a := if 3 + a.2.length ≤ room then some (envelope.enc a) else none
  nextFrame l := (envelope.head l).map fun p => (p.1, (envelope.enc p.1).length)
  decodeEntry l :=
    if 18 ≤ l.length then
      some ⟨UInt16.ofNat (num l 0 2), u64At l 2, u64At l 10, l.drop 18⟩
    else none
  sha256 _ := List.replicate 32 7

/-- A bridge of three voters. -/
def exampleBridge : BridgeConfig := ⟨List.replicate 16 5, 3, 4⟩

/-- The entry of a proposal of one byte for the namespace. -/
def exampleFrame : ClustorFrame :=
  (2, [0, 0] ++ leBytes 8 1 ++ leBytes 8 9 ++ [opPropose, 1] ++ leBytes 4 77 ++ leBytes 2 1 ++ [42])

/-- The entry is delivered, and the commits channel takes so much of it. -/
def exampleDelivery (took : ℕ) : BridgeStep := ⟨[], [exampleFrame], 0, 0, [], 4400, [took]⟩

/-- Two entries with a frame of another kind between, read in two parts. -/
def exampleFrames : List ClustorFrame := [exampleFrame, (1, []), exampleFrame]

def exampleReads : List BridgeStep :=
  [⟨[], exampleFrames, 0, 0, [], 20, []⟩, ⟨[], [], 0, 0, [], 4400, [74, 74]⟩]

theorem relayed_taken :
    (Run.run (step exampleFacade exampleBridge envelope) new exampleReads).commits
      = records exampleFacade exampleBridge exampleFrames :=
  ((relayed_iff exampleFacade exampleBridge envelope (fun _ => rfl) exampleReads
    (by simp [delivered, exampleReads, exampleFrames, exampleFrame, envelope])).2
    (by decide)).2 (by decide) ⟨fun _ => trivial,
      fun _ => ⟨by decide, by decide, by decide, by decide, trivial⟩, trivial⟩

/-- **An entry whose write is refused is lost**: the channel has nothing of it,
and the bridge nothing either. -/
theorem refused_entry_lost :
    (Run.run (step exampleFacade exampleBridge envelope) new [exampleDelivery 0]).committed = 1 ∧
      (Run.run (step exampleFacade exampleBridge envelope) new [exampleDelivery 0]).commits = [] ∧
      (Run.run (step exampleFacade exampleBridge envelope) new [exampleDelivery 0]).asm = [] ∧
      ¬ Relayed exampleFacade exampleBridge envelope [exampleFrame]
        (Run.run (step exampleFacade exampleBridge envelope) new [exampleDelivery 0]) := by
  refine ⟨by decide, by decide, by decide, ?_⟩
  rintro ⟨n, hn, hrest, hcommits⟩
  match n, hn with
  | 0, _ => exact absurd hrest (by decide)
  | 1, _ => exact absurd hcommits (by decide)

end BridgeWorld

end Loam

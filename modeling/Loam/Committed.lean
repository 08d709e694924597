import Loam.Record
import Loam.Proposer
import Loam.Lib.Run

/-!
# The committed stream

In a group the namespace does not apply a mutation when it is asked to: it
forwards it to the proposer, and applies and answers it when its commit comes
back on the committed stream. An answer carries no request's name: the channel
of answers is read in the order of the requests, so a request that is answered
late, twice or not at all is answered with another's answer.

`Replicated` is what the namespace keeps for this: how many mutations it has
forwarded and not answered, the answer the channel has not taken, and the
commit whose log record or apply is not through. Its histories – what was
forwarded, what became of it, what was answered – are what the statements are
about.

A result is answered as soon as it is applied, whether the last answer has been
taken or not, and any commit is taken for one of ours while one is out.
-/

namespace Loam

/-! ## Requests -/

/-- The requests that are forwarded (`OP_BIND`, `OP_RENAME`, `OP_UNBIND`,
`OP_GC_RESERVE`, `OP_GC_RELEASE`, `OP_LEASE`, `OP_VOLUME`, `OP_RETAIN`). -/
def mutatingOps : List UInt8 := [1, 2, 3, 7, 8, 9, 11, 13]

/-- Records only this module writes (`OP_LEASE_RESTORE`,
`OP_BINDING_RESTORE`). -/
def restoreOps : List UInt8 := [10, 15]

/-- The request begins with one of these. -/
def opIn (ops : List UInt8) (record : Bytes) : Bool := record.head?.any fun op => ops.contains op

/-! ## Results -/

/-- A record of the committed stream; `origin` is the mutation of ours it is the
result of, if one is. -/
inductive StreamRecord where
  | replayDrained
  | aborted (origin : Option ℕ)
  | committed (origin : Option ℕ) (plane : Plane) (proof : CommitProof) (inner : Bytes)
deriving DecidableEq

/-- How logging a commit begins. -/
inductive CommitLog where
  | absent
  | lost
  | durable
  | staged
  | failed
deriving DecidableEq

/-- A commit that is logged, or being logged, and not applied. -/
structure StagedCommit where
  live : Bool
  origin : Option ℕ
  proof : CommitProof
deriving DecidableEq

/-- An answer to a forwarded mutation: the record it was made for, and what it
says. -/
structure CommitReply where
  origin : Option ℕ
  verdict : Verdict
deriving DecidableEq

/-- The answer `0xFF`. -/
def Verdict.nak : Verdict := .refused .rejected

/-- The apply came to something (`Ok`). -/
def Verdict.isOk : Verdict → Bool
  | .refused _ => false
  | _ => true

/-- The namespace in a group. -/
structure Replicated where
  /-- Mutations forwarded and not answered, as counted. -/
  outstanding : ℕ
  /-- The channel has not taken the last answer. -/
  owed : Bool
  staged : Option StagedCommit
  readReady : Bool
  lastProof : Option CommitProof
  forwarded : List Bytes
  settled : List (ℕ × Verdict)
  replies : List CommitReply
deriving DecidableEq

/-- What happens to it. -/
inductive ReplicatedEvent where
  /-- A mutation is read; the proposer's channel takes it or not. -/
  | forward (request : Bytes) (wrote : Bool) (took : Bool)
  | direct (took : Bool)
  /-- A record of the committed stream is drained; `tried` is what its apply
  comes to, if it can be decided. -/
  | record (r : StreamRecord) (log : CommitLog) (tried : Option Verdict) (took : Bool)
  | resolve (durable : Bool) (tried : Option Verdict) (took : Bool)
  /-- The answer owed is offered again. -/
  | flush (took : Bool)
deriving DecidableEq

namespace Replicated

/-- A namespace that has just booted in a group. -/
def new : Replicated := ⟨0, false, none, false, none, [], [], []⟩

/-- An answer that is no commit's; an answer is dropped while another is owed
(`ReplyOut::send`). -/
def respond (s : Replicated) (took : Bool) : Replicated :=
  if s.owed then s else { s with owed := !took }

/-- The answer of a commit. -/
def respondApplied (s : Replicated) (origin : Option ℕ) (v : Verdict) (took : Bool) :
    Replicated :=
  if s.owed then s else { s with replies := s.replies ++ [⟨origin, v⟩], owed := !took }

/-- What became of a mutation, once its result has come. -/
def outcome (s : Replicated) (n : ℕ) : Option Verdict := s.settled.lookup n

/-- The result of a mutation has come; a further one changes nothing. -/
def note (s : Replicated) (origin : Option ℕ) (v : Verdict) : Replicated :=
  match origin with
  | none => s
  | some n =>
    if (s.outcome n).isSome then s else { s with settled := s.settled ++ [(n, v)] }

/-- The result is through: it is answered if one is out. -/
def finish (s : Replicated) (live : Bool) (origin : Option ℕ) (v : Verdict) (took : Bool) :
    Replicated :=
  let s := s.note origin v
  if live then { s with outstanding := s.outstanding - 1 }.respondApplied origin v took else s

/-- A commit was applied. -/
def applied (s : Replicated) (proof : CommitProof) (v : Verdict) : Replicated :=
  if v.isOk then { s with lastProof := some proof } else s

/-- A mutation is forwarded, or refused (the request loop). -/
def forward (s : Replicated) (request : Bytes) (wrote took : Bool) : Replicated :=
  if s.owed || s.staged.isSome then s
  else if opIn mutatingOps request && decide (request.length ≤ maxInner) && wrote then
    { s with outstanding := s.outstanding + 1, forwarded := s.forwarded ++ [request] }
  else s.respond took

/-- A commit of the namespace that is not one of this module's own records. -/
def counted (plane : Plane) (inner : Bytes) : Bool :=
  plane == .namespacePlane && decide (inner.length ≤ maxInner) && !opIn restoreOps inner

/-- A record of the committed stream (`drain_committed`). -/
def drain (s : Replicated) (r : StreamRecord) (log : CommitLog) (tried : Option Verdict)
    (took : Bool) : Replicated :=
  if s.staged.isSome then s
  else
    match r with
    | .replayDrained => { s with readReady := true }
    -- No commit: it is counted as an error and skipped.
    | .aborted origin => s.note origin .nak
    | .committed origin plane proof inner =>
      if !counted plane inner then s.note origin .nak
      else
        let live := decide (0 < s.outstanding)
        match log, tried with
        | .lost, _ | .failed, _ => s.finish live origin .nak took
        | .staged, _ | .durable, none => { s with staged := some ⟨live, origin, proof⟩ }
        | .durable, some v | .absent, some v => (s.applied proof v).finish live origin v took
        -- It stays where it is, and is drained again.
        | .absent, none => s

/-- The staged commit is looked at, once no answer is owed
(`resolve_staged`). -/
def resolve (s : Replicated) (durable : Bool) (tried : Option Verdict) (took : Bool) :
    Replicated :=
  match s.staged with
  | none => s
  | some c =>
    if s.owed then s
    else if durable then
      match tried with
      | none => s
      | some v =>
        ({ s with staged := none }.applied c.proof v).finish c.live c.origin v took
    else { s with staged := none }.finish c.live c.origin .nak took

/-- One event. -/
def step (s : Replicated) : ReplicatedEvent → Replicated
  | .forward request wrote took => s.forward request wrote took
  | .direct took => if s.owed || s.staged.isSome then s else s.respond took
  | .record r log tried took => s.drain r log tried took
  | .resolve durable tried took => s.resolve durable tried took
  | .flush took => if took then { s with owed := false } else s

end Replicated

end Loam

import Mathlib.Data.List.Basic
import Mathlib.Data.List.Infix
import Mathlib.Tactic.Common

/-!
# Files whose calls are asked again

A file of a provider that does not wait. A request is answered *not now*, and
nothing has happened; or *taken*, and it is under way: it is asked again, the
same, and a later answer is its decision; or it is decided, and a count says how
much of it was done. A short count did a prefix.

What is taken completes whether it is asked again or not, so that a request that
is not the one under way is a further one, behind it. Its caller keeps to the
protocol when it asks nothing else meanwhile (`AsyncFile.Agrees`): each decision
is then about what was asked, and the file changes with decisions only
(`AsyncFile.ask_spec`).
-/

/-- What a file is asked. -/
inductive FileRequest (α : Type) where
  | write (bytes : List α)
  | rewind
  | read (n : ℕ)
deriving DecidableEq

/-- What a provider makes of a request. -/
inductive FileTurn where
  | again
  | taken
  | failed
  | moved (n : ℕ)
deriving DecidableEq

/-- It is no decision: the request is asked again. -/
def FileTurn.pending : FileTurn → Bool
  | .again | .taken => true
  | .failed | .moved _ => false

/-- What the caller is told. -/
inductive FileReply (α : Type) where
  | notYet
  | failed
  | done (bytes : List α)
deriving DecidableEq

/-- A file, and the request under way. -/
structure AsyncFile (α : Type) where
  bytes : List α
  /-- Where the next request starts. -/
  pos : ℕ
  underway : Option (FileRequest α)
deriving DecidableEq

namespace AsyncFile

variable {α : Type} {f : AsyncFile α} {r : FileRequest α}

/-- A new file. -/
def empty : AsyncFile α := ⟨[], 0, none⟩

/-- What of a request is done when at most `n` is. -/
def portion (f : AsyncFile α) (n : ℕ) : FileRequest α → List α
  | .write bytes => bytes.take n
  | .rewind => []
  | .read m => ((f.bytes.drop f.pos).take m).take n

/-- At most `n` of a request is done. -/
def perform (f : AsyncFile α) (n : ℕ) : FileRequest α → AsyncFile α
  | .write bytes =>
    { bytes := f.bytes.take f.pos ++ bytes.take n ++ f.bytes.drop (f.pos + (bytes.take n).length)
      pos := f.pos + (bytes.take n).length
      underway := none }
  | .rewind => { f with pos := 0, underway := none }
  | .read m => { f with pos := f.pos + (f.portion n (.read m)).length, underway := none }

/-- All of a request is done. -/
def complete (f : AsyncFile α) : FileRequest α → AsyncFile α
  | .write bytes => f.perform bytes.length (.write bytes)
  | .rewind => f.perform 0 .rewind
  | .read m => f.perform m (.read m)

/-- No other request than this is under way. -/
def Agrees (f : AsyncFile α) (r : FileRequest α) : Prop := ∀ r', f.underway = some r' → r' = r

theorem agrees_of_none (h : f.underway = none) : f.Agrees r := by
  intro r' hr
  cases h.symm.trans hr

instance [DecidableEq α] : Decidable (f.Agrees r) :=
  decidable_of_iff (∀ r' ∈ f.underway, r' = r) Iff.rfl

variable [DecidableEq α]

/-- The file a request meets: one that is under way is completed first, unless
it is the same. -/
def settled (f : AsyncFile α) (r : FileRequest α) : AsyncFile α :=
  match f.underway with
  | none => f
  | some r' => if r' = r then f else f.complete r'

/-- A request is asked. -/
def ask (f : AsyncFile α) (r : FileRequest α) (turn : FileTurn) : AsyncFile α × FileReply α :=
  let f := f.settled r
  match turn with
  | .again => (f, .notYet)
  | .taken => ({ f with underway := some r }, .notYet)
  | .failed => ({ f with underway := none }, .failed)
  | .moved n => (f.perform n r, .done (f.portion n r))

theorem Agrees.settled (h : f.Agrees r) : f.settled r = f := by
  unfold AsyncFile.settled
  split
  · rfl
  next r' hr => rw [if_pos (h r' hr)]

/-- **A file changes with decisions only**, and those are about the request that
is asked. -/
theorem ask_spec (h : f.Agrees r) (turn : FileTurn) :
    ((f.ask r turn).2 = .notYet ∧ (f.ask r turn).1.bytes = f.bytes ∧
        (f.ask r turn).1.pos = f.pos ∧ (f.ask r turn).1.Agrees r) ∨
      ((f.ask r turn).2 = .failed ∧ (f.ask r turn).1 = { f with underway := none }) ∨
      ∃ n, f.ask r turn = (f.perform n r, .done (f.portion n r)) := by
  unfold ask
  rw [h.settled]
  cases turn with
  | again => exact .inl ⟨rfl, rfl, rfl, h⟩
  | taken => exact .inl ⟨rfl, rfl, rfl, fun r' hr => (Option.some.inj hr).symm⟩
  | failed => exact .inr (.inl ⟨rfl, rfl⟩)
  | moved n => exact .inr (.inr ⟨n, rfl⟩)

/-- A file that has gone back to its start. -/
theorem ask_rewind {turn : FileTurn} {bytes : List α}
    (h : (f.ask .rewind turn).2 = .done bytes) :
    (f.ask .rewind turn).1.pos = 0 ∧ (f.ask .rewind turn).1.underway = none := by
  cases turn with
  | moved n => exact ⟨rfl, rfl⟩
  | again | taken | failed => cases h

omit [DecidableEq α]

/-- What is written goes behind what the file holds. -/
theorem perform_write (hpos : f.pos = f.bytes.length) (bytes : List α) (n : ℕ) :
    f.perform n (.write bytes)
      = ⟨f.bytes ++ bytes.take n, (f.bytes ++ bytes.take n).length, none⟩ := by
  simp only [perform, hpos, List.take_length, List.length_append]
  rw [List.drop_eq_nil_of_le (Nat.le_add_right _ _), List.append_nil]

/-- What is read is what the file holds behind the position. -/
theorem portion_read (f : AsyncFile α) (m n : ℕ) :
    f.portion n (.read m) <+: (f.bytes.drop f.pos).take m :=
  List.take_prefix _ _

end AsyncFile

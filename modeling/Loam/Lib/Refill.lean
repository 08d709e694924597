import Mathlib.Data.List.Basic
import Mathlib.Order.Nat
import Mathlib.Tactic.Common

/-!
# Values from a buffer that is refilled

A reader takes one value after another off the front of a buffer of a fixed size. Where no whole
value is there and the buffer can grow it reads on; a read that has no answer yet is asked for
again on a later turn. Whether a value is there does not depend on what is behind it, and a full
buffer is never too short for one (`Lawful`). So a turn takes what stands at the front of the file,
and refuses what has nothing there, however the file is read (`next_spec`). Reading a given number
of values (`walk`) then is something the file says, and a cut of the file says either the same or
that values are missing (`walk_take`).
-/

namespace Refill

variable {α β ε : Type}

/-! ## The file and its buffer -/

/-- What a read is answered: so many symbols after the first, if the file has them, or an error. -/
inductive Answer where
  | symbols (more : ℕ)
  | failed
deriving DecidableEq

/-- The buffer, what is behind it in the file, and whether a read has met the end. -/
structure State (β : Type) where
  buf : List β
  rest : List β
  eof : Bool
  /-- Only a read at the end answers nothing. -/
  rest_eq_nil : eof = true → rest = []

/-- A file that is just opened. -/
def State.opened (l : List β) : State β := ⟨[], l, false, fun h => by cases h⟩

/-- What is not taken yet. -/
def State.front (s : State β) : List β := s.buf ++ s.rest

/-- The reads that can still bring something. -/
def State.left (s : State β) : ℕ := s.rest.length + if s.eof then 0 else 1

/-- What a read of the room that is left answers. -/
def State.answered (s : State β) (cap more : ℕ) : ℕ :=
  min (min (more + 1) (cap - s.buf.length)) s.rest.length

/-- Read on. -/
def fill (cap : ℕ) (s : State β) : Answer → Option (State β)
  | .failed => if s.eof = true ∨ cap ≤ s.buf.length then some s else none
  | .symbols more =>
    if h : s.eof = true ∨ cap ≤ s.buf.length then some s
    else
      some ⟨s.buf ++ s.rest.take (s.answered cap more), s.rest.drop (s.answered cap more),
        decide (s.answered cap more = 0), fun heof => by
          have hzero := of_decide_eq_true heof
          unfold State.answered at hzero
          rw [List.drop_eq_nil_iff]
          omega⟩

/-- What is at the front is taken off. -/
def State.consume (s : State β) (n : ℕ) : State β := ⟨s.buf.drop n, s.rest, s.eof, s.rest_eq_nil⟩

/-! ## A turn -/

/-- What a turn comes to. -/
inductive Outcome (α : Type) where
  | got (a : α)
  | wait
  | refused
  | unread

/-- A turn: look at the front of the buffer, and read on as long as no value is there and the
buffer can grow. The reads of a turn that have an answer are given; the next has none yet. -/
def next (take : List β → Except ε (Option (α × ℕ))) (cap : ℕ) (s : State β)
    (answers : List Answer) : Outcome α × State β :=
  match take s.buf with
  | .error _ => (.refused, s)
  | .ok (some (a, n)) => (.got a, s.consume n)
  | .ok none =>
    if s.eof = false ∧ s.buf.length < cap then
      match answers with
      | [] => (.wait, s)
      | r :: rs =>
        match fill cap s r with
        | none => (.unread, s)
        | some s' => next take cap s' rs
    else (.refused, s)

/-- What is at the front is there whatever is behind it, and a full buffer is enough. -/
structure Lawful (take : List β → Except ε (Option (α × ℕ))) (cap : ℕ) : Prop where
  le_length : ∀ {src a n}, take src = .ok (some (a, n)) → n ≤ src.length
  append : ∀ {src}, take src ≠ .ok none → ∀ t, take (src ++ t) = take src
  ne_none_of_full : ∀ {src}, cap ≤ src.length → take src ≠ .ok none

/-- What a turn does, seen from the file. -/
inductive Turn (take : List β → Except ε (Option (α × ℕ))) (s : State β) (answers : List Answer) :
    Outcome α → State β → Prop where
  | got {a n s'} : take s.front = .ok (some (a, n)) → s'.front = s.front.drop n →
    s'.left ≤ s.left → Turn take s answers (.got a) s'
  | wait {s'} : s'.front = s.front → s'.left + answers.length ≤ s.left →
    Turn take s answers .wait s'
  | refused {s'} : (∀ p, take s.front ≠ .ok (some p)) → Turn take s answers .refused s'
  | unread {s'} : .failed ∈ answers → Turn take s answers .unread s'

variable {take : List β → Except ε (Option (α × ℕ))} {cap : ℕ} {s s' : State β}
  {answers : List Answer} {r : Answer}

/-- A read that has room brings something, and loses nothing. -/
theorem fill_spec (heof : s.eof = false) (hroom : s.buf.length < cap) (h : fill cap s r = some s') :
    s'.front = s.front ∧ s'.left < s.left := by
  have hnot : ¬ (s.eof = true ∨ cap ≤ s.buf.length) := by
    rw [heof]
    rintro (h | h)
    · cases h
    · omega
  cases r with
  | failed =>
    rw [fill, if_neg hnot] at h
    cases h
  | symbols more =>
    rw [fill, dif_neg hnot] at h
    cases h
    refine ⟨?_, ?_⟩
    · simp only [State.front, List.append_assoc, List.take_append_drop]
    · simp only [State.left, List.length_drop, heof, decide_eq_true_eq]
      have : s.answered cap more = 0 ↔ s.rest.length = 0 := by
        unfold State.answered
        omega
      split <;> simp only [Bool.false_eq_true, if_false] <;> omega

theorem failed_of_fill_eq_none (h : fill cap s r = none) : r = .failed := by
  cases r with
  | failed => rfl
  | symbols more =>
    rw [fill] at h
    split at h <;> cases h

/-- A value at the front of the buffer is at the front of the file. -/
theorem Lawful.turn_got (hl : Lawful take cap) {a : α} {n : ℕ}
    (h : take s.buf = .ok (some (a, n))) (answers : List Answer) :
    Turn take s answers (.got a) (s.consume n) := by
  have hfront : take s.front = .ok (some (a, n)) :=
    (hl.append (fun hn => by rw [h] at hn; cases hn) s.rest).trans h
  refine .got hfront ?_ (Nat.le_refl _)
  rw [State.front, State.front, List.drop_append_of_le_length (hl.le_length h)]
  rfl

theorem Lawful.turn_error (hl : Lawful take cap) {e : ε} (h : take s.buf = .error e)
    (answers : List Answer) : Turn take s answers .refused s := by
  refine .refused fun p hp => ?_
  rw [State.front, hl.append (fun hn => by rw [h] at hn; cases hn), h] at hp
  cases hp

/-- A buffer without a value, that cannot grow, is all that is left. -/
theorem Lawful.turn_stopped (hl : Lawful take cap) (h : take s.buf = .ok none)
    (hstop : ¬ (s.eof = false ∧ s.buf.length < cap)) (answers : List Answer) :
    Turn take s answers .refused s := by
  have heof : s.eof = true := by
    by_contra hne
    exact hstop ⟨Bool.eq_false_iff.mpr hne, Nat.lt_of_not_le fun hfull => hl.ne_none_of_full hfull h⟩
  refine .refused fun p hp => ?_
  rw [State.front, s.rest_eq_nil heof, List.append_nil, h] at hp
  cases hp

/-- Reading on does not change what a turn is about. -/
theorem Turn.of_fill {rs : List Answer} {o : Outcome α} {t : State β} (hfront : s'.front = s.front)
    (hleft : s'.left < s.left) (h : Turn take s' rs o t) : Turn take s (r :: rs) o t := by
  cases h with
  | got htake hdrop hle => exact .got (hfront ▸ htake) (hfront ▸ hdrop) (hle.trans hleft.le)
  | wait hsame hle => exact .wait (hsame.trans hfront) (by rw [List.length_cons]; omega)
  | refused hnone => exact .refused (hfront ▸ hnone)
  | unread hmem => exact .unread (List.mem_cons_of_mem r hmem)

/-- **A turn is about the front of the file**, however it is read. -/
theorem next_spec (hl : Lawful take cap) (s : State β) (answers : List Answer) :
    Turn take s answers (next take cap s answers).1 (next take cap s answers).2 := by
  induction answers generalizing s with
  | nil =>
    unfold next
    cases hb : take s.buf with
    | error e => exact hl.turn_error hb []
    | ok o =>
      cases o with
      | some p => exact hl.turn_got hb []
      | none =>
        dsimp only
        split
        · exact .wait rfl (Nat.le_refl _)
        · next hstop => exact hl.turn_stopped hb hstop []
  | cons r rs ih =>
    unfold next
    cases hb : take s.buf with
    | error e => exact hl.turn_error hb (r :: rs)
    | ok o =>
      cases o with
      | some p => exact hl.turn_got hb (r :: rs)
      | none =>
        dsimp only
        split
        · next hgrow =>
          cases hf : fill cap s r with
          | none =>
            cases failed_of_fill_eq_none hf
            exact .unread List.mem_cons_self
          | some s' =>
            obtain ⟨hfront, hleft⟩ := fill_spec hgrow.1 hgrow.2 hf
            exact (ih s').of_fill hfront hleft
        · next hstop => exact hl.turn_stopped hb hstop (r :: rs)

/-! ## A given number of values -/

/-- Read `n` values in a row; `short` is said where no whole value is. What follows them is left. -/
def walk (take : List β → Except ε (Option (α × ℕ))) (short : ε) :
    ℕ → List β → List α × Except ε (List β)
  | 0, l => ([], .ok l)
  | n + 1, l =>
    match take l with
    | .error e => ([], .error e)
    | .ok none => ([], .error short)
    | .ok (some (a, k)) => (a :: (walk take short n (l.drop k)).1, (walk take short n (l.drop k)).2)

variable {short : ε} {n k : ℕ} {l t : List β} {a : α} {as : List α}

theorem walk_got (h : take l = .ok (some (a, k))) : walk take short (n + 1) l =
    (a :: (walk take short n (l.drop k)).1, (walk take short n (l.drop k)).2) := by
  rw [walk, h]

/-- Where no value is, no value is read. -/
theorem walk_refused (h : ∀ p, take l ≠ .ok (some p)) :
    ∃ e, walk take short (n + 1) l = ([], .error e) := by
  unfold walk
  cases ht : take l with
  | error e => exact ⟨e, rfl⟩
  | ok o =>
    cases o with
    | none => exact ⟨short, rfl⟩
    | some p => exact absurd ht (h p)

/-- A reading that succeeds has as many values as it was asked for. -/
theorem length_walk (h : walk take short n l = (as, .ok t)) : as.length = n := by
  induction n generalizing l as with
  | zero =>
    cases h
    rfl
  | succ n ih =>
    unfold walk at h
    split at h
    · cases h
    · cases h
    · next a k ht =>
      obtain ⟨rfl, hok⟩ := Prod.mk.inj h
      rw [List.length_cons, ih (Prod.ext rfl hok)]

/-- **A cut says the same, or that values are missing.** -/
theorem walk_take (hl : Lawful take cap) (h : walk take short n l = (as, .ok t)) (k : ℕ) :
    (∃ t', walk take short n (l.take k) = (as, .ok t')) ∨
      (walk take short n (l.take k)).2 = .error short := by
  induction n generalizing l as k with
  | zero =>
    cases h
    exact .inl ⟨_, rfl⟩
  | succ n ih =>
    unfold walk at h
    by_cases hcut : take (l.take k) = .ok none
    · right
      rw [walk, hcut]
    have hsame := hl.append hcut (l.drop k)
    rw [List.take_append_drop] at hsame
    split at h
    · cases h
    · cases h
    · next a m ht =>
      obtain ⟨rfl, hok⟩ := Prod.mk.inj h
      rw [walk_got (hsame.symm.trans ht), List.drop_take]
      exact (ih (Prod.ext rfl hok) (k - m)).imp
        (fun ⟨t', ht'⟩ => ⟨t', by rw [ht']⟩) id

end Refill

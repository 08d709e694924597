import Mathlib.Data.List.Rotate
import Mathlib.Data.Nat.ModEq
import Mathlib.Tactic.Common

/-!
# A queue in a circular buffer

A buffer of fixed size holds a queue from `head` on, around its end. What is
queued is the buffer rotated to its head, as far as the queue is long
(`RingBuffer.contents`); queueing appends to it where there is room, and
taking from the front drops from it. The front of the queue up to the end of
the buffer is in one piece (`contents_take_run`).
-/

/-- A queue in a buffer. -/
structure RingBuffer (α : Type) where
  buf : List α
  head : ℕ
  len : ℕ
deriving DecidableEq

namespace RingBuffer

variable {α : Type}

/-- An empty queue over `n` cells. -/
def empty (n : ℕ) (a : α) : RingBuffer α := ⟨List.replicate n a, 0, 0⟩

variable (r : RingBuffer α)

/-- The room left. -/
def free : ℕ := r.buf.length - r.len

/-- Write from a cell on, around the end. -/
def writeFrom : List α → ℕ → List α → List α
  | buf, _, [] => buf
  | buf, tail, a :: as =>
    writeFrom (buf.set tail a) (if tail + 1 = buf.length then 0 else tail + 1) as

/-- Queue some values. -/
def put (as : List α) : RingBuffer α :=
  { r with
    buf := writeFrom r.buf ((r.head + r.len) % r.buf.length) as
    len := r.len + as.length }

/-- The length of the front piece. -/
def run : ℕ := min r.len (r.buf.length - r.head)

/-- The front of the queue, up to the end of the buffer. -/
def front : List α := (r.buf.drop r.head).take r.run

/-- Take `k` values from the front. -/
def advance (k : ℕ) : RingBuffer α :=
  { r with head := (r.head + k) % r.buf.length, len := r.len - k }

/-- What is queued. -/
def contents : List α := (r.buf.rotate r.head).take r.len

/-- The queue fits its buffer. -/
structure Fits : Prop where
  head_lt : r.head < r.buf.length
  len_le : r.len ≤ r.buf.length

variable {r} {a : α} {as : List α} {k n : ℕ}

theorem fits_empty (hn : 0 < n) : (empty n a).Fits :=
  ⟨by simpa [empty] using hn, Nat.zero_le _⟩

@[simp] theorem length_contents (h : r.Fits) : r.contents.length = r.len := by
  rw [contents, List.length_take, List.length_rotate]
  exact Nat.min_eq_left h.len_le

theorem length_writeFrom (buf : List α) (tail : ℕ) (as : List α) :
    (writeFrom buf tail as).length = buf.length := by
  induction as generalizing buf tail with
  | nil => rfl
  | cons a as ih => rw [writeFrom, ih, List.length_set]

/-- The cell after another, around the end. -/
theorem next_cell (hn : 0 < n) (x : ℕ) :
    (if x % n + 1 = n then 0 else x % n + 1) = (x + 1) % n := by
  have hlt := Nat.mod_lt x hn
  rw [← Nat.mod_add_mod]
  split
  · next he => rw [he, Nat.mod_self]
  · next he => exact (Nat.mod_eq_of_lt (Nat.lt_of_le_of_ne hlt he)).symm

/-- The cell behind the queue takes its next value. -/
theorem contents_set (h : r.Fits) (hroom : r.len < r.buf.length) :
    ((r.buf.set ((r.head + r.len) % r.buf.length) a).rotate r.head).take (r.len + 1)
      = r.contents ++ [a] := by
  have hpos : 0 < r.buf.length := Nat.zero_lt_of_lt hroom
  refine List.ext_getElem? fun i => ?_
  rw [contents, List.getElem?_take, List.getElem?_append]
  have hlen : ((r.buf.rotate r.head).take r.len).length = r.len := length_contents h
  rw [hlen]
  by_cases hi : i < r.len
  · -- a cell before the one written
    have hlt : i < r.buf.length := Nat.lt_trans hi hroom
    rw [if_pos (Nat.lt_succ_of_lt hi), if_pos hi, List.getElem?_take, if_pos hi,
      List.getElem?_rotate (by rwa [List.length_set]), List.getElem?_rotate hlt, List.length_set,
      List.getElem?_set_ne]
    intro he
    rw [Nat.add_comm i] at he
    have hmod := Nat.ModEq.add_left_cancel' r.head (Nat.ModEq.symm he)
    rw [Nat.ModEq, Nat.mod_eq_of_lt hlt, Nat.mod_eq_of_lt hroom] at hmod
    exact absurd hmod (Nat.ne_of_lt hi)
  · rw [if_neg hi]
    by_cases he : i = r.len
    · subst he
      have hcell : (r.len + r.head) % r.buf.length < r.buf.length := Nat.mod_lt _ hpos
      rw [if_pos (Nat.lt_succ_self _), List.getElem?_rotate (by rwa [List.length_set]),
        List.length_set, Nat.add_comm r.head, List.getElem?_set_self hcell, Nat.sub_self]
      rfl
    · have hgt : r.len < i := Nat.lt_of_le_of_ne (Nat.not_lt.mp hi) (Ne.symm he)
      rw [if_neg (Nat.not_lt.mpr hgt), List.getElem?_eq_none]
      exact Nat.sub_pos_of_lt hgt

/-- **What is queued is appended**, where there is room for it. -/
theorem put_spec (h : r.Fits) (as : List α) (hroom : r.len + as.length ≤ r.buf.length) :
    (r.put as).contents = r.contents ++ as ∧ (r.put as).Fits := by
  induction as generalizing r with
  | nil => exact ⟨(List.append_nil _).symm, h⟩
  | cons a as ih =>
    rw [List.length_cons] at hroom
    have hlt : r.len < r.buf.length := by omega
    have hpos : 0 < r.buf.length := Nat.zero_lt_of_lt hlt
    -- the queue with one value more
    let r₁ : RingBuffer α :=
      ⟨r.buf.set ((r.head + r.len) % r.buf.length) a, r.head, r.len + 1⟩
    have hlen₁ : r₁.buf.length = r.buf.length := List.length_set
    have h₁ : r₁.Fits := ⟨by rw [hlen₁]; exact h.head_lt, by rw [hlen₁]; exact hlt⟩
    have htail : (if (r.head + r.len) % r.buf.length + 1 = r.buf.length then 0
        else (r.head + r.len) % r.buf.length + 1) = (r.head + (r.len + 1)) % r₁.buf.length := by
      rw [hlen₁, ← Nat.add_assoc]
      exact next_cell hpos _
    have hstep : r.put (a :: as) = r₁.put as := by
      have hbuf : writeFrom r.buf ((r.head + r.len) % r.buf.length) (a :: as)
          = writeFrom r₁.buf ((r.head + (r.len + 1)) % r₁.buf.length) as := by
        rw [writeFrom, htail]
      have hlen : r.len + (a :: as).length = r.len + 1 + as.length := by
        rw [List.length_cons]
        omega
      show (⟨writeFrom r.buf ((r.head + r.len) % r.buf.length) (a :: as), r.head,
        r.len + (a :: as).length⟩ : RingBuffer α) = _
      rw [hbuf, hlen]
      rfl
    obtain ⟨hc, hf⟩ := ih h₁ (by rw [hlen₁]; show r.len + 1 + as.length ≤ _; omega)
    have hone : r₁.contents = r.contents ++ [a] := contents_set h hlt
    rw [hstep]
    exact ⟨by rw [hc, hone, List.append_assoc]; rfl, hf⟩

@[simp] theorem length_buf_put : (r.put as).buf.length = r.buf.length := length_writeFrom _ _ _

/-- **Taking from the front drops from what is queued.** -/
theorem advance_spec (h : r.Fits) (hk : k ≤ r.len) :
    (r.advance k).contents = r.contents.drop k ∧ (r.advance k).Fits := by
  have hpos : 0 < r.buf.length := Nat.zero_lt_of_lt h.head_lt
  refine ⟨?_, Nat.mod_lt _ hpos, (Nat.sub_le _ _).trans h.len_le⟩
  have hkN : k ≤ (r.buf.rotate r.head).length := by
    rw [List.length_rotate]
    exact hk.trans h.len_le
  show (r.buf.rotate ((r.head + k) % r.buf.length)).take (r.len - k) = _
  rw [List.rotate_mod, ← List.rotate_rotate, List.rotate_eq_drop_append_take hkN, contents,
    List.drop_take, List.take_append_of_le_length]
  rw [List.length_drop, List.length_rotate]
  exact Nat.sub_le_sub_right h.len_le k

/-- **The front piece is the front of the queue.** -/
theorem contents_take_run (h : r.Fits) : r.contents.take r.run = r.front := by
  have hrun : r.run ≤ r.len := Nat.min_le_left _ _
  rw [contents, List.take_take, Nat.min_eq_left hrun,
    List.rotate_eq_drop_append_take (Nat.le_of_lt h.head_lt), List.take_append_of_le_length]
  · rfl
  · rw [List.length_drop]
    exact Nat.min_le_right _ _

/-- A queue that is not empty has a front. -/
theorem run_pos (h : r.Fits) (hlen : r.len ≠ 0) : 0 < r.run :=
  Nat.lt_min.mpr ⟨Nat.pos_of_ne_zero hlen, Nat.sub_pos_of_lt h.head_lt⟩

theorem run_le_len : r.run ≤ r.len := Nat.min_le_left _ _

end RingBuffer

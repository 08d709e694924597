import Mathlib.Tactic.Common

/-!
# A store of cells written in ranges

The meaning of a random-access store: cells numbered from zero, and writes
that each give new values to a range of them. What a cell holds after some
writes is what the last write over it gave it, or what it held at first
(`valueAt`). A buffer that a range is copied into is the same thing for one
write (`patch`).
-/

namespace CellStore

variable {α : Type}

/-- A write of a range of cells. -/
structure RangeWrite (α : Type) where
  start : ℕ
  len : ℕ
  /-- Their new values, counted from the first. -/
  cell : ℕ → α

namespace RangeWrite

/-- The cells written. -/
def Covers (w : RangeWrite α) (pos : ℕ) : Prop := w.start ≤ pos ∧ pos < w.start + w.len

instance (w : RangeWrite α) : DecidablePred w.Covers := fun pos =>
  inferInstanceAs (Decidable (w.start ≤ pos ∧ pos < w.start + w.len))

/-- The new value of a cell written. -/
def valueOf (w : RangeWrite α) (pos : ℕ) : α := w.cell (pos - w.start)

end RangeWrite

/-- What a cell holds after some writes, oldest first: the value the last
write over it gave, or the value it had. -/
def valueAt (base : ℕ → α) (ws : List (RangeWrite α)) (pos : ℕ) : α :=
  ((ws.reverse.find? fun w => decide (w.Covers pos)).map (·.valueOf pos)).getD (base pos)

/-- A buffer with `len` cells from `start` copied in. -/
def patch (f : ℕ → α) (start len : ℕ) (g : ℕ → α) : ℕ → α := fun j =>
  if start ≤ j ∧ j < start + len then g (j - start) else f j

variable {base f g : ℕ → α} {ws vs : List (RangeWrite α)} {w : RangeWrite α} {pos : ℕ}

theorem valueAt_append_singleton :
    valueAt base (ws ++ [w]) pos = if w.Covers pos then w.valueOf pos else valueAt base ws pos := by
  unfold valueAt
  rw [List.reverse_append, List.reverse_singleton, List.singleton_append]
  by_cases h : w.Covers pos
  · rw [List.find?_cons_of_pos (by simpa using h), if_pos h]
    rfl
  · rw [List.find?_cons_of_neg (by simpa using h), if_neg h]

theorem valueAt_of_not_covers (h : ¬ w.Covers pos) :
    valueAt base (ws ++ [w]) pos = valueAt base ws pos := by
  rw [valueAt_append_singleton, if_neg h]

/-- Writes that all pass a cell by leave it. -/
theorem valueAt_append_of_forall (h : ∀ v ∈ vs, ¬ v.Covers pos) :
    valueAt base (ws ++ vs) pos = valueAt base ws pos := by
  induction vs generalizing ws with
  | nil => rw [List.append_nil]
  | cons v vs ih =>
    rw [List.append_cons, ih fun u hu => h u (List.mem_cons_of_mem v hu)]
    exact valueAt_of_not_covers (h v List.mem_cons_self)

theorem patch_of_mem {start len j : ℕ} (h : start ≤ j ∧ j < start + len) :
    patch f start len g j = g (j - start) :=
  if_pos h

theorem patch_of_not_mem {start len j : ℕ} (h : ¬ (start ≤ j ∧ j < start + len)) :
    patch f start len g j = f j :=
  if_neg h

end CellStore

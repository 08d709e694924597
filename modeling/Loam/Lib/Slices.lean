import Mathlib.Algebra.Ring.Nat
import Mathlib.Data.List.Basic
import Mathlib.Tactic.Common

/-!
# Fields at offsets

A record whose fields stand one after another is read by offset: a field is
the slice of its width behind the fields before it. Cutting a string into
slices of given widths undoes putting fields of these widths in a row
(`cutAt_flatten`), and the slices in a row are the string again
(`flatten_cutAt`). What follows the last field is not looked at.
-/

namespace Slices

variable {α : Type} {a b n : ℕ} {l r : List α} {x : α}

/-- The `n` symbols from `a` on. -/
def slice (l : List α) (a n : ℕ) : List α := (l.drop a).take n

/-- The fields of given widths from `a` on. -/
def cutAt (a : ℕ) : List ℕ → List α → List (List α)
  | [], _ => []
  | w :: ws, l => slice l a w :: cutAt (a + w) ws l

theorem length_slice (h : a + n ≤ l.length) : (slice l a n).length = n := by
  rw [slice, List.length_take, List.length_drop]
  omega

theorem length_slice_le (l : List α) (a n : ℕ) : (slice l a n).length ≤ n :=
  List.length_take_le n _

@[simp] theorem slice_zero (l : List α) (n : ℕ) : slice l 0 n = l.take n := rfl

/-- Two fields in a row are one. -/
theorem slice_append_slice (l : List α) (a n m : ℕ) :
    slice l a n ++ slice l (a + n) m = slice l a (n + m) := by
  rw [slice, slice, slice, ← List.drop_drop, ← List.take_add]

/-- A field does not depend on what is behind it. -/
theorem slice_append_of_le (h : a + n ≤ l.length) : slice (l ++ r) a n = slice l a n := by
  rw [slice, slice, List.drop_append_of_le_length (by omega),
    List.take_append_of_le_length (by rw [List.length_drop]; omega)]

theorem slice_append_right (l r : List α) (a n : ℕ) :
    slice (l ++ r) (l.length + a) n = slice r a n := by
  rw [slice, slice, ← List.drop_drop, List.drop_left]

/-- A field is in the front of the string it ends in. -/
theorem slice_take (h : a + n ≤ b) : slice (l.take b) a n = slice l a n := by
  rw [slice, slice, List.drop_take, List.take_take, Nat.min_eq_left (by omega)]

theorem getD_eq_of_slice {d : α} (h : slice l a 1 = [x]) : l.getD a d = x := by
  have hx : (l.drop a)[0]? = some x := by
    have hget := congrArg (fun m => m[0]?) h
    rwa [slice, List.getElem?_take_of_lt Nat.zero_lt_one] at hget
  rw [List.getElem?_drop, Nat.add_zero] at hx
  rw [List.getD_eq_getElem?_getD, hx]
  rfl

theorem slice_one_eq (h : a < l.length) (d : α) : slice l a 1 = [l.getD a d] := by
  rw [slice, List.drop_eq_getElem_cons h, List.take_succ_cons, List.take_zero,
    List.getD_eq_getElem?_getD, List.getElem?_eq_getElem h]
  rfl

/-- **Fields in a row are read back**, wherever they start. -/
theorem cutAt_append_flatten (p : List α) (fs : List (List α)) (t : List α) :
    cutAt p.length (fs.map List.length) (p ++ (fs.flatten ++ t)) = fs := by
  induction fs generalizing p with
  | nil => rfl
  | cons f fs ih =>
    have hhead : slice (p ++ ((f :: fs).flatten ++ t)) p.length f.length = f := by
      rw [slice, List.drop_left, List.flatten_cons, List.append_assoc, List.take_left]
    have htail := ih (p ++ f)
    rw [List.length_append] at htail
    rw [List.map_cons, cutAt, hhead, List.flatten_cons, List.append_assoc, ← List.append_assoc p,
      htail]

/-- **Fields in a row are read back.** -/
theorem cutAt_flatten (fs : List (List α)) (t : List α) :
    cutAt 0 (fs.map List.length) (fs.flatten ++ t) = fs :=
  cutAt_append_flatten [] fs t

/-- **The fields in a row are the string again.** -/
theorem flatten_cutAt (a : ℕ) (ws : List ℕ) (l : List α) :
    (cutAt a ws l).flatten = slice l a ws.sum := by
  induction ws generalizing a with
  | nil => rw [cutAt, List.sum_nil, slice, List.take_zero]; rfl
  | cons w ws ih => rw [cutAt, List.flatten_cons, ih, slice_append_slice, List.sum_cons]

/-- Where fields end that stand in a row from `a` on. -/
def endAt (a : ℕ) : List (List α) → ℕ
  | [] => a
  | f :: fs => endAt (a + f.length) fs

/-- The fields stand in a row from `a` on. -/
def StandAt (l : List α) (a : ℕ) : List (List α) → Prop
  | [] => True
  | f :: fs => slice l a f.length = f ∧ StandAt l (a + f.length) fs

theorem endAt_eq (a : ℕ) (fs : List (List α)) : endAt a fs = a + fs.flatten.length := by
  induction fs generalizing a with
  | nil => rfl
  | cons f fs ih => rw [endAt, ih, List.flatten_cons, List.length_append, Nat.add_assoc]

theorem standAt_iff {fs : List (List α)} :
    StandAt l a fs ↔ cutAt a (fs.map List.length) l = fs := by
  induction fs generalizing a with
  | nil => exact iff_of_true trivial rfl
  | cons f fs ih => rw [StandAt, List.map_cons, cutAt, List.cons.injEq, ih]

/-- **Fields are a front of a string** when they stand at its front in a row. -/
theorem flatten_prefix_iff {fs : List (List α)} :
    fs.flatten <+: l ↔ endAt 0 fs ≤ l.length ∧ StandAt l 0 fs := by
  rw [endAt_eq, Nat.zero_add, standAt_iff]
  constructor
  · rintro ⟨t, rfl⟩
    exact ⟨by simp, cutAt_flatten fs t⟩
  · rintro ⟨hlen, hcut⟩
    have h := flatten_cutAt 0 (fs.map List.length) l
    rw [hcut, slice_zero, ← List.length_flatten] at h
    rw [h]
    exact List.take_prefix _ _

/-! ## Overwriting a field -/

/-- A string with the symbols from `a` on replaced by others. -/
def overwrite (l : List α) (a : ℕ) (h : List α) : List α := l.take a ++ h ++ l.drop (a + h.length)

variable {h : List α} {i : ℕ}

theorem length_overwrite (hle : a + h.length ≤ l.length) : (overwrite l a h).length = l.length := by
  rw [overwrite, List.length_append, List.length_append, List.length_take, List.length_drop]
  omega

/-- What is in front of the field is as it was. -/
theorem slice_overwrite_left (hle : a ≤ l.length) (hi : i + n ≤ a) :
    slice (overwrite l a h) i n = slice l i n := by
  rw [overwrite, List.append_assoc, slice_append_of_le, slice_take hi]
  rw [List.length_take]
  omega

theorem slice_overwrite_right (hle : a + h.length ≤ l.length) (hi : a + h.length ≤ i) :
    slice (overwrite l a h) i n = slice l i n := by
  obtain ⟨k, rfl⟩ := Nat.exists_eq_add_of_le hi
  have hlen : (l.take a ++ h).length = a + h.length := by
    rw [List.length_append, List.length_take]
    omega
  rw [overwrite, ← hlen, slice_append_right, slice, slice, hlen, List.drop_drop]

theorem slice_overwrite (hle : a ≤ l.length) : slice (overwrite l a h) a h.length = h := by
  have hlen : (l.take a).length = a := by rw [List.length_take, Nat.min_eq_left hle]
  rw [overwrite, List.append_assoc, slice, List.drop_left' hlen, List.take_left]

theorem getD_overwrite_left (hle : a ≤ l.length) (hi : i < a) (d : α) :
    (overwrite l a h).getD i d = l.getD i d := by
  have hlen : i < (l.take a).length := by
    rw [List.length_take]
    omega
  rw [overwrite, List.append_assoc, List.getD_eq_getElem?_getD, List.getElem?_append_left hlen,
    List.getElem?_take_of_lt hi, List.getD_eq_getElem?_getD]

theorem cutAt_overwrite_right (hle : a + h.length ≤ l.length) (hi : a + h.length ≤ i)
    (ws : List ℕ) : cutAt i ws (overwrite l a h) = cutAt i ws l := by
  induction ws generalizing i with
  | nil => rfl
  | cons w ws ih =>
    rw [cutAt, cutAt, slice_overwrite_right hle hi, ih (Nat.le_add_right_of_le hi)]

end Slices

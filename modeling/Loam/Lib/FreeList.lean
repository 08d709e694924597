import Mathlib.Data.List.Nodup
import Mathlib.Data.List.Perm.Basic
import Mathlib.Data.List.Range
import Mathlib.Tactic.Common

/-!
# Free lists

A table of records may keep the ones that are free on a list that runs through the records
themselves: each free record holds the index of the next, its index and one so that 0 ends the
list. `FreeList.Threads` says which indexes a list runs through, and `FreeList.Lists` that they
are those of the free records, each once. A record is put in front when it is released, and
taken from the front when one is wanted; records that are added are threaded in front one after
another. The list, and what is in use, is then always the whole table (`Lists.perm`).
-/

namespace FreeList

variable {next next' : ℕ → ℕ} {used used' : ℕ → Bool} {head i n p : ℕ} {is js : List ℕ}

/-- **The list that begins at `head`** runs through these indexes. -/
inductive Threads (next : ℕ → ℕ) : ℕ → List ℕ → Prop
  | nil : Threads next 0 []
  | cons {i : ℕ} {is : List ℕ} : Threads next (next i) is → Threads next (i + 1) (i :: is)

/-- The indexes the list runs through, so many at most. -/
def walk (next : ℕ → ℕ) : ℕ → ℕ → List ℕ
  | 0, _ => []
  | _ + 1, 0 => []
  | fuel + 1, i + 1 => i :: walk next fuel (next i)

theorem Threads.walk_eq {fuel : ℕ} (h : Threads next head is) (hf : is.length ≤ fuel) :
    walk next fuel head = is := by
  induction h generalizing fuel with
  | nil => cases fuel <;> rfl
  | cons _ ih =>
    obtain ⟨fuel, rfl⟩ := Nat.exists_eq_add_of_le' (Nat.lt_of_lt_of_le (Nat.succ_pos _) hf)
    exact congrArg _ (ih (Nat.le_of_succ_le_succ hf))

/-- Only the records on the list matter. -/
theorem Threads.congr (h : Threads next head is) (hn : ∀ i ∈ is, next' i = next i) :
    Threads next' head is := by
  induction h with
  | nil => exact .nil
  | @cons i is _ ih =>
    refine .cons ?_
    rw [hn i List.mem_cons_self]
    exact ih fun j hj => hn j (List.mem_cons_of_mem i hj)

theorem Threads.uncons (h : Threads next (i + 1) is) :
    ∃ js, is = i :: js ∧ Threads next (next i) js := by
  cases h with
  | cons h => exact ⟨_, rfl, h⟩

/-- A record that is not on the list is put in front. -/
theorem Threads.push (h : Threads next head is) (hi : i ∉ is) (hhead : next' i = head)
    (hn : ∀ j, j ≠ i → next' j = next j) : Threads next' (i + 1) (i :: is) := by
  refine .cons ?_
  rw [hhead]
  exact h.congr fun j hj => hn j fun hji => hi (hji ▸ hj)

/-! ## A table and its free list -/

/-- **The free list of a table** of `n` records lists those that are not used, each once. -/
structure Lists (next : ℕ → ℕ) (used : ℕ → Bool) (n head : ℕ) (is : List ℕ) : Prop where
  threads : Threads next head is
  nodup : is.Nodup
  mem : ∀ i, i ∈ is ↔ i < n ∧ used i = false

/-- **The records in use and the free list are the table.** -/
theorem Lists.perm (h : Lists next used n head is) :
    ((List.range n).filter used ++ is).Perm (List.range n) := by
  have hfree : ((List.range n).filter fun i => !used i).Perm is := by
    rw [List.perm_ext_iff_of_nodup (List.nodup_range.filter _) h.nodup]
    intro i
    rw [List.mem_filter, List.mem_range, h.mem i, Bool.not_eq_true']
  exact (hfree.symm.append_left _).trans (List.filter_append_perm used _)

theorem Lists.walk_eq (h : Lists next used n head is) : walk next n head = is := by
  refine h.threads.walk_eq ?_
  have hlen := h.perm.length_eq
  rw [List.length_append, List.length_range] at hlen
  omega

theorem Lists.congr (h : Lists next used n head is) (hn : ∀ i ∈ is, next' i = next i)
    (hu : ∀ i, i < n → used' i = used i) : Lists next' used' n head is where
  threads := h.threads.congr hn
  nodup := h.nodup
  mem := fun i => by
    rw [h.mem i]
    refine and_congr_right fun hi => ?_
    rw [hu i hi]

/-- **A record is released.** -/
theorem Lists.release (h : Lists next used n head is) (hi : i < n) (hui : used i = true)
    (hhead : next' i = head) (hn : ∀ j, j ≠ i → next' j = next j) (hfree : used' i = false)
    (hu : ∀ j, j ≠ i → used' j = used j) : Lists next' used' n (i + 1) (i :: is) := by
  have hni : i ∉ is := fun hm => by
    rw [h.mem i, hui] at hm
    exact Bool.noConfusion hm.2
  refine ⟨h.threads.push hni hhead hn, List.nodup_cons.mpr ⟨hni, h.nodup⟩, fun j => ?_⟩
  rw [List.mem_cons, h.mem j]
  by_cases hji : j = i
  · subst hji
    simp [hi, hfree]
  · simp [hji, hu j hji]

/-- **A record is taken.** -/
theorem Lists.take (h : Lists next used n (i + 1) is) (hn : ∀ j, j ≠ i → next' j = next j)
    (hui : used' i = true) (hu : ∀ j, j ≠ i → used' j = used j) :
    ∃ js, is = i :: js ∧ Lists next' used' n (next i) js := by
  obtain ⟨js, rfl, ht⟩ := h.threads.uncons
  obtain ⟨hni, hnd⟩ := List.nodup_cons.mp h.nodup
  refine ⟨js, rfl, ht.congr fun j hj => hn j fun hji => hni (hji ▸ hj), hnd, fun j => ?_⟩
  by_cases hji : j = i
  · subst hji
    simp [hni, hui]
  · have hm := h.mem j
    simp only [List.mem_cons, hji, false_or] at hm
    rw [hm, hu j hji]

/-- **Records are added**, and threaded in front. -/
theorem Lists.grow (h : Lists next used n head is) (ht : Threads next' head' (List.range' n p ++ is))
    (hold : ∀ i, i < n → used' i = used i) (hnew : ∀ i, n ≤ i → i < n + p → used' i = false) :
    Lists next' used' (n + p) head' (List.range' n p ++ is) where
  threads := ht
  nodup := by
    refine List.nodup_append'.mpr ⟨List.nodup_range', h.nodup, fun i hi hm => ?_⟩
    have hlt := ((h.mem i).mp hm).1
    rw [List.mem_range'_1] at hi
    omega
  mem := fun i => by
    rw [List.mem_append, List.mem_range'_1, h.mem i]
    by_cases hi : i < n
    · rw [hold i hi]
      constructor
      · rintro (⟨hni, -⟩ | hm)
        · omega
        · exact ⟨by omega, hm.2⟩
      · exact fun hm => .inr ⟨hi, hm.2⟩
    · constructor
      · rintro (hm | ⟨hlt, -⟩)
        · exact ⟨hm.2, hnew i hm.1 hm.2⟩
        · exact absurd hlt hi
      · exact fun hm => .inl ⟨Nat.not_lt.mp hi, hm.1⟩

end FreeList

import Mathlib.Data.List.Pairwise
import Mathlib.Order.Basic
import Mathlib.Order.Lattice
import Mathlib.Order.Defs.LinearOrder
import Mathlib.Data.List.Basic

/-!
# Sorted tables

A table is a list of entries in strictly increasing key order. A key has at
most one entry, positions and keys have the same order, and a bisection that
keeps everything left of its window below the wanted key and everything right
of it above decides the entry of that key.
-/

namespace SortedTable

variable {α κ : Type} [LinearOrder κ] (key : α → κ)

/-- The entries are in strict key order. -/
def Sorted (l : List α) : Prop := l.Pairwise fun a b => key a < key b

/-- The entry of a key. -/
def find (k : κ) (l : List α) : Option α := l.find? fun a => decide (key a = k)

variable {key} {k : κ} {l : List α} {a b : α} {i j lo hi : ℕ}

theorem sorted_nil : Sorted key ([] : List α) := List.Pairwise.nil

theorem key_of_find (h : find key k l = some a) : key a = k := by
  simpa using List.find?_some h

theorem mem_of_find (h : find key k l = some a) : a ∈ l := List.mem_of_find?_eq_some h

theorem find_eq_none_iff : find key k l = none ↔ ∀ a ∈ l, key a ≠ k := by
  simp [find]

namespace Sorted

theorem eq_of_key_eq (h : Sorted key l) (ha : a ∈ l) (hb : b ∈ l) (he : key a = key b) :
    a = b := by
  induction l with
  | nil => cases ha
  | cons c l ih =>
    obtain ⟨hc, hl⟩ := List.pairwise_cons.mp h
    rcases List.mem_cons.mp ha with rfl | ha'
    · rcases List.mem_cons.mp hb with rfl | hb'
      · rfl
      · exact absurd he (hc b hb').ne
    · rcases List.mem_cons.mp hb with rfl | hb'
      · exact absurd he (hc a ha').ne'
      · exact ih hl ha' hb'

theorem find_eq_some_iff (h : Sorted key l) :
    find key k l = some a ↔ a ∈ l ∧ key a = k := by
  refine ⟨fun hf => ⟨mem_of_find hf, key_of_find hf⟩, ?_⟩
  rintro ⟨hm, rfl⟩
  cases hf : find key (key a) l with
  | none => exact absurd rfl (find_eq_none_iff.mp hf a hm)
  | some b => rw [h.eq_of_key_eq (mem_of_find hf) hm (key_of_find hf)]

theorem key_lt_of_lt (h : Sorted key l) (ha : l[i]? = some a) (hb : l[j]? = some b)
    (hij : i < j) : key a < key b := by
  obtain ⟨hi, rfl⟩ := List.getElem?_eq_some_iff.mp ha
  obtain ⟨hj, rfl⟩ := List.getElem?_eq_some_iff.mp hb
  exact List.pairwise_iff_getElem.mp h i j hi hj hij

theorem key_lt_iff (h : Sorted key l) (ha : l[i]? = some a) (hb : l[j]? = some b) :
    key a < key b ↔ i < j := by
  refine ⟨fun hk => ?_, h.key_lt_of_lt ha hb⟩
  rcases Nat.lt_trichotomy i j with hij | rfl | hij
  · exact hij
  · rw [ha] at hb
    cases hb
    exact absurd hk (lt_irrefl _)
  · exact absurd hk (h.key_lt_of_lt hb ha hij).asymm

/-- Appending an entry above the table keeps it sorted. -/
theorem append_singleton (h : Sorted key l) (hb : ∀ a ∈ l, key a < key b) :
    Sorted key (l ++ [b]) :=
  List.pairwise_append.mpr ⟨h, List.pairwise_singleton _ _, fun a ha c hc => by
    rw [List.mem_singleton] at hc
    exact hc ▸ hb a ha⟩

end Sorted

/-- Appending an entry whose key the table lacks gives the key that entry. -/
theorem find_append_singleton (hb : find key (key b) l = none) :
    find key k (l ++ [b]) = if k = key b then some b else find key k l := by
  unfold find at *
  rw [List.find?_append]
  split
  · next hk =>
    subst hk
    simp [hb]
  · next hk =>
    have : decide (key b = k) = false := by simpa using fun h => hk h.symm
    simp [this]

/-! ## Bisection -/

variable (key) in
/-- The window of a bisection for `k`: entries left of `lo` are below `k`,
entries from `hi` on are above. -/
structure Window (l : List α) (k : κ) (lo hi : ℕ) : Prop where
  below : ∀ i a, i < lo → l[i]? = some a → key a < k
  above : ∀ i a, hi ≤ i → l[i]? = some a → k < key a

theorem window_all : Window key l k 0 l.length where
  below := fun _ _ h => absurd h (Nat.not_lt_zero _)
  above := fun _ _ h ha => absurd (List.getElem?_eq_some_iff.mp ha).1 (Nat.not_lt.mpr h)

namespace Window

/-- An empty window decides that the key has no entry. -/
theorem find_eq_none (w : Window key l k lo hi) (h : hi ≤ lo) : find key k l = none := by
  refine find_eq_none_iff.mpr fun a ha => ?_
  obtain ⟨i, hi'⟩ := List.mem_iff_getElem?.mp ha
  rcases Nat.lt_or_ge i lo with hlt | hge
  · exact (w.below i a hlt hi').ne
  · exact (w.above i a (Nat.le_trans h hge) hi').ne'

/-- A probe below the key moves the window's left end past it. -/
theorem right (hs : Sorted key l) (w : Window key l k lo hi) {m : ℕ}
    (hm : l[m]? = some a) (hk : key a < k) : Window key l k (m + 1) hi where
  below := fun i c hi' hc => by
    rcases Nat.lt_succ_iff_lt_or_eq.mp hi' with hlt | rfl
    · exact (hs.key_lt_of_lt hc hm hlt).trans hk
    rw [hc] at hm
    cases hm
    exact hk
  above := w.above

/-- A probe above the key moves the window's right end to it. -/
theorem left (hs : Sorted key l) (w : Window key l k lo hi) {m : ℕ}
    (hm : l[m]? = some a) (hk : k < key a) : Window key l k lo m where
  below := w.below
  above := fun i c hi' hc => by
    rcases Nat.lt_or_eq_of_le hi' with hlt | rfl
    · exact hk.trans (hs.key_lt_of_lt hm hc hlt)
    rw [hc] at hm
    cases hm
    exact hk

end Window

end SortedTable

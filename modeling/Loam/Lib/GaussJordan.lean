import Mathlib.LinearAlgebra.Matrix.Notation
import Mathlib.Algebra.Field.Basic
import Mathlib.Data.Fintype.BigOperators

/-!
# Gauss–Jordan inversion

The elimination carries a second matrix through the row operations of the
first, starting from the identity. What every column preserves is
`GaussJordan.Reduced`: the rows of the one are those of the other times the
matrix to be inverted, the columns done are the identity's, and the kernel is
trivial. The last is what finds a pivot, so that on a matrix of trivial kernel
the elimination never fails and returns an inverse.
-/

namespace GaussJordan

open Matrix

variable {F : Type} [Field F] [DecidableEq F] {n : ℕ}

/-- The first row at or below `col` with a nonzero entry in column `col`. -/
def pivot (A : Matrix (Fin n) (Fin n) F) (col : Fin n) : Option (Fin n) :=
  (List.finRange n).find? fun r => decide (col ≤ r) && decide (A r col ≠ 0)

/-- Swap two rows. -/
def swapRows (A : Matrix (Fin n) (Fin n) F) (i j : Fin n) : Matrix (Fin n) (Fin n) F :=
  fun r => A (Equiv.swap i j r)

/-- Scale a row. -/
def scaleRow (A : Matrix (Fin n) (Fin n) F) (i : Fin n) (a : F) : Matrix (Fin n) (Fin n) F :=
  fun r c => if r = i then A i c * a else A r c

/-- Take multiples of row `i` from the others, each by its own factor. -/
def clearRows (A : Matrix (Fin n) (Fin n) F) (i : Fin n) (f : Fin n → F) :
    Matrix (Fin n) (Fin n) F :=
  fun r c => if r = i ∨ f r = 0 then A r c else A r c - f r * A i c

/-- One column: a pivot is brought to the diagonal, its row scaled, and the
column cleared from every other row, in both matrices. -/
def column (p : Matrix (Fin n) (Fin n) F × Matrix (Fin n) (Fin n) F) (col : Fin n) :
    Option (Matrix (Fin n) (Fin n) F × Matrix (Fin n) (Fin n) F) :=
  (pivot p.1 col).map fun r =>
    let A := swapRows p.1 r col
    let B := swapRows p.2 r col
    let a := (A col col)⁻¹
    let A := scaleRow A col a
    let B := scaleRow B col a
    (clearRows A col fun r => A r col, clearRows B col fun r => A r col)

/-- The inverse of a matrix, none if a column has no pivot. -/
def invert (A : Matrix (Fin n) (Fin n) F) : Option (Matrix (Fin n) (Fin n) F) :=
  ((List.finRange n).foldlM column (A, 1)).map Prod.snd

/-! ## What a column preserves -/

/-- The rows `B` stands for are those of `A`: `B * M = A`; the columns before
`j` are the identity's, and nothing but 0 is taken to 0. -/
structure Reduced (M A B : Matrix (Fin n) (Fin n) F) (j : ℕ) : Prop where
  /-- The rows of `A` are combinations of those of `M`, by `B`. -/
  rows : ∀ r, B r ᵥ* M = A r
  done : ∀ c : Fin n, c.val < j → ∀ r, A r c = if r = c then 1 else 0
  kernel : ∀ v, A *ᵥ v = 0 → v = 0

variable {M A B : Matrix (Fin n) (Fin n) F} {j : ℕ}

omit [DecidableEq F] in
theorem Reduced.init (h : ∀ v, M *ᵥ v = 0 → v = 0) : Reduced M M 1 0 :=
  ⟨fun r => by
    have := congrFun (Matrix.one_mul M) r
    rwa [Matrix.mul_apply_eq_vecMul] at this, fun _ hc => absurd hc (Nat.not_lt_zero _), h⟩

/-- **A trivial kernel has a pivot** in the next column. -/
theorem Reduced.exists_pivot (h : Reduced M A B j) (hj : j < n) :
    ∃ r, pivot A ⟨j, hj⟩ = some r ∧ j ≤ r.val ∧ A r ⟨j, hj⟩ ≠ 0 := by
  cases hp : pivot A ⟨j, hj⟩ with
  | some r =>
    have hr := List.find?_some hp
    simp only [Bool.and_eq_true, decide_eq_true_eq] at hr
    exact ⟨r, rfl, hr.1, hr.2⟩
  | none =>
    exfalso
    have hz : ∀ r : Fin n, j ≤ r.val → A r ⟨j, hj⟩ = 0 := by
      intro r hr
      have := List.find?_eq_none.mp hp r (List.mem_finRange r)
      simp only [Bool.and_eq_true, decide_eq_true_eq, not_and, not_not] at this
      exact this hr
    -- the column is a combination of the columns done, so a vector is taken to 0
    let v : Fin n → F := fun x =>
      if x = ⟨j, hj⟩ then 1 else if x.val < j then -A x ⟨j, hj⟩ else 0
    have hv : A *ᵥ v = 0 := by
      funext r
      have hterm : ∀ x : Fin n, A r x * v x
          = (if x = ⟨j, hj⟩ then A r ⟨j, hj⟩ else 0)
            + (if x = r then (if r.val < j then -A r ⟨j, hj⟩ else 0) else 0) := by
        intro x
        by_cases hx : x = ⟨j, hj⟩
        · subst hx
          have hnr : (⟨j, hj⟩ : Fin n) = r → ¬ r.val < j := by
            rintro rfl
            exact Nat.lt_irrefl j
          simp only [v, if_true, mul_one]
          split
          · next he => rw [if_neg (hnr he), add_zero]
          · rw [add_zero]
        · by_cases hlt : x.val < j
          · simp only [v, if_neg hx, if_pos hlt, h.done x hlt r, zero_add]
            by_cases hrx : r = x
            · subst hrx
              simp [hlt]
            · simp [hrx, Ne.symm hrx]
          · simp only [v, if_neg hx, if_neg hlt, mul_zero, zero_add]
            split
            · next he =>
              subst he
              rw [if_neg hlt]
            · rfl
      simp only [mulVec, dotProduct, hterm, Finset.sum_add_distrib, Finset.sum_ite_eq',
        Finset.mem_univ, if_true, Pi.zero_apply]
      by_cases hr : r.val < j
      · rw [if_pos hr, add_neg_cancel]
      · rw [if_neg hr, add_zero, hz r (Nat.le_of_not_lt hr)]
    have := congrFun (h.kernel v hv) ⟨j, hj⟩
    simp [v] at this

omit [DecidableEq F] in
theorem Reduced.swapRows (h : Reduced M A B j) {p q : Fin n} (hp : j ≤ p.val) (hq : j ≤ q.val) :
    Reduced M (swapRows A p q) (swapRows B p q) j := by
  refine ⟨fun r => h.rows _, fun c hc r => ?_, fun v hv => h.kernel v ?_⟩
  · have hswap : Equiv.swap p q c = c :=
      Equiv.swap_apply_of_ne_of_ne (by rintro rfl; omega) (by rintro rfl; omega)
    rw [GaussJordan.swapRows, h.done c hc]
    by_cases hr : r = c
    · rw [hr, hswap]
    · rw [if_neg hr, if_neg fun he => hr ((Equiv.swap p q).injective (he.trans hswap.symm))]
  · funext r
    have := congrFun hv (Equiv.swap p q r)
    simpa [mulVec, GaussJordan.swapRows] using this

omit [DecidableEq F] in
/-- Scaling a row not done by a unit. -/
theorem Reduced.scaleRow (h : Reduced M A B j) {i : Fin n} (hi : j ≤ i.val) {a : F} (ha : a ≠ 0) :
    Reduced M (scaleRow A i a) (scaleRow B i a) j := by
  refine ⟨fun r => ?_, fun c hc r => ?_, fun v hv => h.kernel v ?_⟩
  · by_cases hr : r = i
    · subst hr
      have hs : ∀ C : Matrix (Fin n) (Fin n) F, GaussJordan.scaleRow C r a r = a • C r := by
        intro C
        funext c
        simp [GaussJordan.scaleRow, mul_comm]
      rw [hs, hs, smul_vecMul, h.rows]
    · have hs : ∀ C : Matrix (Fin n) (Fin n) F, GaussJordan.scaleRow C i a r = C r := by
        intro C
        funext c
        simp [GaussJordan.scaleRow, hr]
      rw [hs, hs, h.rows]
  · by_cases hr : r = i
    · subst hr
      have hne : r ≠ c := by
        rintro rfl
        omega
      simp [GaussJordan.scaleRow, h.done c hc, hne]
    · simp [GaussJordan.scaleRow, hr, h.done c hc]
  · funext r
    have hvr := congrFun hv r
    by_cases hr : r = i
    · subst hr
      have hs : (GaussJordan.scaleRow A r a *ᵥ v) r = a * (A *ᵥ v) r := by
        simp only [mulVec, dotProduct, GaussJordan.scaleRow, if_true, Finset.mul_sum]
        exact Finset.sum_congr rfl fun c _ => by ring
      rw [hs] at hvr
      exact (mul_eq_zero.mp hvr).resolve_left ha
    · simpa [mulVec, dotProduct, GaussJordan.scaleRow, hr] using hvr

/-- Clearing the next column with its scaled row. -/
theorem Reduced.clearRows (h : Reduced M A B j) (hj : j < n)
    (hone : A ⟨j, hj⟩ ⟨j, hj⟩ = 1) :
    Reduced M (clearRows A ⟨j, hj⟩ fun r => A r ⟨j, hj⟩)
      (clearRows B ⟨j, hj⟩ fun r => A r ⟨j, hj⟩) (j + 1) := by
  have hclear : ∀ (C : Matrix (Fin n) (Fin n) F) r, r ≠ ⟨j, hj⟩ →
      GaussJordan.clearRows C ⟨j, hj⟩ (fun r => A r ⟨j, hj⟩) r
        = C r - A r ⟨j, hj⟩ • C ⟨j, hj⟩ := by
    intro C r hr
    funext c
    simp only [GaussJordan.clearRows, hr, false_or, Pi.sub_apply, Pi.smul_apply, smul_eq_mul]
    split
    · next h0 => rw [h0, zero_mul, sub_zero]
    · rfl
  have hself : ∀ C : Matrix (Fin n) (Fin n) F,
      GaussJordan.clearRows C ⟨j, hj⟩ (fun r => A r ⟨j, hj⟩) ⟨j, hj⟩ = C ⟨j, hj⟩ := by
    intro C
    funext c
    simp [GaussJordan.clearRows]
  refine ⟨fun r => ?_, fun c hc r => ?_, fun v hv => h.kernel v ?_⟩
  · by_cases hr : r = ⟨j, hj⟩
    · rw [hr, hself, hself, h.rows]
    · rw [hclear A r hr, hclear B r hr, sub_vecMul, smul_vecMul, h.rows, h.rows]
  · by_cases hr : r = ⟨j, hj⟩
    · rw [hr, hself]
      rcases Nat.lt_succ_iff_lt_or_eq.mp hc with hc | hc
      · rw [h.done c hc]
      obtain rfl : c = ⟨j, hj⟩ := Fin.ext hc
      rw [hone, if_pos rfl]
    · rw [hclear A r hr]
      simp only [Pi.sub_apply, Pi.smul_apply, smul_eq_mul]
      rcases Nat.lt_succ_iff_lt_or_eq.mp hc with hc | hc
      · have hne : (⟨j, hj⟩ : Fin n) ≠ c := by
          rintro rfl
          exact Nat.lt_irrefl _ hc
        rw [h.done c hc, h.done c hc, if_neg hne, mul_zero, sub_zero]
      · obtain rfl : c = ⟨j, hj⟩ := Fin.ext hc
        rw [hone, mul_one, sub_self, if_neg hr]
  · have hpivot : (A *ᵥ v) ⟨j, hj⟩ = 0 := by
      have := congrFun hv ⟨j, hj⟩
      rwa [mulVec, hself] at this
    funext r
    by_cases hr : r = ⟨j, hj⟩
    · rw [hr, hpivot]
      rfl
    have hvr := congrFun hv r
    rw [mulVec, hclear A r hr, sub_dotProduct, smul_dotProduct] at hvr
    have hpivot' : A ⟨j, hj⟩ ⬝ᵥ v = 0 := hpivot
    rw [hpivot', smul_zero, sub_zero] at hvr
    exact hvr

/-- **A column is done.** -/
theorem Reduced.column (h : Reduced M A B j) (hj : j < n) :
    ∃ A' B', column (A, B) ⟨j, hj⟩ = some (A', B') ∧ Reduced M A' B' (j + 1) := by
  obtain ⟨r, hp, hr, hne⟩ := h.exists_pivot hj
  refine ⟨_, _, by rw [GaussJordan.column, hp]; rfl, ?_⟩
  have hdiag : GaussJordan.swapRows A r ⟨j, hj⟩ ⟨j, hj⟩ ⟨j, hj⟩ ≠ 0 := by
    simpa [GaussJordan.swapRows] using hne
  refine ((h.swapRows hr (Nat.le_refl j)).scaleRow (Nat.le_refl j) (inv_ne_zero hdiag)).clearRows hj ?_
  simp only [GaussJordan.scaleRow, if_true]
  exact mul_inv_cancel₀ hdiag

/-- **A matrix of trivial kernel is inverted.** -/
theorem invert_spec (h : ∀ v, M *ᵥ v = 0 → v = 0) : ∃ B, invert M = some B ∧ B * M = 1 := by
  -- the columns from `j` on, done in turn
  suffices hrun : ∀ (cs : List (Fin n)) (j : ℕ) (A B : Matrix (Fin n) (Fin n) F),
      (List.finRange n).drop j = cs → j ≤ n → Reduced M A B j →
      ∃ A' B', cs.foldlM GaussJordan.column (A, B) = some (A', B') ∧ Reduced M A' B' n by
    obtain ⟨A', B', hfold, hred⟩ := hrun _ 0 M 1 rfl (Nat.zero_le n) (.init h)
    refine ⟨B', by rw [invert, show List.finRange n = (List.finRange n).drop 0 from rfl, hfold]; rfl, ?_⟩
    funext r c
    rw [Matrix.mul_apply_eq_vecMul, hred.rows, hred.done c c.isLt, Matrix.one_apply]
  intro cs
  induction cs with
  | nil =>
    intro j A B hdrop hj hred
    have hlen := congrArg List.length hdrop
    rw [List.length_drop, List.length_finRange, List.length_nil] at hlen
    obtain rfl : j = n := by omega
    exact ⟨A, B, rfl, hred⟩
  | cons c cs ih =>
    intro j A B hdrop hj hred
    have hlt : j < n := by
      have hlen := congrArg List.length hdrop
      rw [List.length_drop, List.length_finRange, List.length_cons] at hlen
      omega
    rw [List.drop_eq_getElem_cons (by rwa [List.length_finRange])] at hdrop
    obtain ⟨hc, hcs⟩ := List.cons.inj hdrop
    obtain rfl : c = ⟨j, hlt⟩ := by
      rw [← hc]
      simp
    obtain ⟨A', B', hcol, hred'⟩ := hred.column hlt
    obtain ⟨A'', B'', hfold, hfin⟩ := ih (j + 1) A' B' hcs hlt hred'
    exact ⟨A'', B'', by rw [List.foldlM_cons, hcol]; exact hfold, hfin⟩

end GaussJordan

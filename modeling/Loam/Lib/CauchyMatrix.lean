import Mathlib.LinearAlgebra.Lagrange

/-!
# Independence of Cauchy rows

A combination of the columns `1 / (x j - y i)` that vanishes on as many rows as
there are columns is the zero combination: cleared of denominators it is a
polynomial in `x j` of a degree smaller than its number of roots, and at `y i`
only the `i`-th term of it is left.
-/

open Polynomial Finset

variable {F ι κ : Type} [Field F] [DecidableEq ι]

/-- The combination cleared of its denominators. -/
noncomputable def cauchyNumerator (S : Finset ι) (y v : ι → F) : F[X] :=
  ∑ i ∈ S, C (v i) * ∏ l ∈ S.erase i, (X - C (y l))

variable {S : Finset ι} {T : Finset κ} {x : κ → F} {y v : ι → F}

theorem eval_cauchyNumerator (a : F) :
    (cauchyNumerator S y v).eval a = ∑ i ∈ S, v i * ∏ l ∈ S.erase i, (a - y l) := by
  simp [cauchyNumerator, eval_finsetSum, eval_prod]

theorem degree_cauchyNumerator (h : S.Nonempty) : (cauchyNumerator S y v).degree < S.card := by
  refine lt_of_le_of_lt (degree_sum_le _ _) ((Finset.sup_lt_iff ?_).mpr fun i hi => ?_)
  · exact WithBot.bot_lt_coe _
  · have hC : (C (v i) * ∏ l ∈ S.erase i, (X - C (y l))).degree
        ≤ (∏ l ∈ S.erase i, (X - C (y l))).degree := by
      rw [degree_mul]
      exact add_le_of_nonpos_left degree_C_le
    refine lt_of_le_of_lt hC ?_
    rw [degree_prod]
    simp only [degree_X_sub_C, sum_const, nsmul_eq_mul, mul_one]
    rw [card_erase_of_mem hi]
    exact_mod_cast Nat.sub_lt (card_pos.mpr h) Nat.one_pos

/-- **Cauchy rows are independent.** -/
theorem cauchy_independent (hx : Set.InjOn x T) (hy : Set.InjOn y S)
    (hxy : ∀ j ∈ T, ∀ i ∈ S, x j ≠ y i) (hcard : S.card ≤ T.card)
    (h : ∀ j ∈ T, ∑ i ∈ S, v i * (x j - y i)⁻¹ = 0) : ∀ i ∈ S, v i = 0 := by
  intro i hi
  have hroot : ∀ j ∈ T, (cauchyNumerator S y v).eval (x j) = 0 := by
    intro j hj
    have hterm : ∀ i ∈ S, v i * ∏ l ∈ S.erase i, (x j - y l)
        = (∏ l ∈ S, (x j - y l)) * (v i * (x j - y i)⁻¹) := by
      intro i hi
      rw [← mul_prod_erase S _ hi]
      have hne : x j - y i ≠ 0 := sub_ne_zero.mpr (hxy j hj i hi)
      field_simp
    rw [eval_cauchyNumerator, sum_congr rfl hterm, ← mul_sum, h j hj, mul_zero]
  have hzero : cauchyNumerator S y v = 0 := by
    refine eq_zero_of_degree_lt_of_eval_index_eq_zero T hx ?_ hroot
    exact lt_of_lt_of_le (degree_cauchyNumerator ⟨i, hi⟩) (by exact_mod_cast hcard)
  have heval : v i * ∏ l ∈ S.erase i, (y i - y l) = 0 := by
    have := congrArg (Polynomial.eval (y i)) hzero
    rw [eval_cauchyNumerator, eval_zero, sum_eq_single_of_mem i hi] at this
    · exact this
    · intro l hl hne
      rw [prod_eq_zero (mem_erase.mpr ⟨hne.symm, hi⟩) (sub_self _), mul_zero]
  refine (mul_eq_zero.mp heval).resolve_right (prod_ne_zero_iff.mpr fun l hl => ?_)
  obtain ⟨hne, hl⟩ := mem_erase.mp hl
  exact sub_ne_zero.mpr fun he => hne (hy hl hi he.symm)

import Loam.Key
import Mathlib.Algebra.Field.Basic
import Mathlib.Dynamics.PeriodicPts.Defs
import Mathlib.NumberTheory.Divisors
import Mathlib.Data.Fintype.Card

/-!
# GF(256)

The field the erasure code computes in: bytes, added by exclusive or and
multiplied by tables of powers and logarithms of 2 modulo the polynomial 0x11D.
The field laws come down to three facts about the tables – the cycle closes
after 255 steps, every nonzero byte is met in it, and one step of it is
additive – since multiplying by `EXP[i]` is taking that step `i` times.
-/

namespace Loam

/-! ## The tables -/

/-- One step of the cycle: doubled, and reduced when bit 8 is set. -/
def gfDouble (x : UInt16) : UInt16 :=
  let x := x <<< 1
  if x &&& 0x100 ≠ 0 then x ^^^ 0x11D else x

/-- The powers of 2 from `x` on. -/
def gfPowers (x : UInt16) : ℕ → List UInt8
  | 0 => []
  | n + 1 => x.toUInt8 :: gfPowers (gfDouble x) n

/-- The cycle of powers (`EXP`; the code mirrors it once more, up to 512). -/
def gfCycle : List UInt8 := gfPowers 1 255

/-- `EXP[i]`. -/
def gfExp (i : ℕ) : UInt8 := gfCycle.getD (i % 255) 0

/-- `LOG[a]`, for a nonzero `a`. -/
def gfLog (a : UInt8) : ℕ := gfCycle.idxOf a

/-- The product (`gf_mul`). -/
def gfMul (a b : UInt8) : UInt8 := if a = 0 ∨ b = 0 then 0 else gfExp (gfLog a + gfLog b)

/-- The inverse of a nonzero byte (`gf_inv`). -/
def gfInv (a : UInt8) : UInt8 := gfExp (255 - gfLog a)

/-! ## The cycle -/

/-- One step of the cycle, on bytes. -/
def gfStep (a : UInt8) : UInt8 := (gfDouble a.toUInt16).toUInt8

/-- What holds of the 256 bytes in turn. -/
theorem forall_byte {p : UInt8 → Prop} (h : ∀ i < 256, p (UInt8.ofNat i)) (a : UInt8) : p a := by
  simpa using h a.toNat a.toNat_lt

/-- The step on bytes is the step on words. -/
theorem gfDouble_byte (a : UInt8) : (gfStep a).toUInt16 = gfDouble a.toUInt16 :=
  forall_byte (p := fun a => (gfStep a).toUInt16 = gfDouble a.toUInt16) (by decide +kernel) a

/-- So many powers are made. -/
theorem length_gfPowers (x : UInt16) (n : ℕ) : (gfPowers x n).length = n := by
  induction n generalizing x with
  | zero => rfl
  | succ n ih => rw [gfPowers, List.length_cons, ih]

/-- The powers are the steps taken from the first of them. -/
theorem getElem_gfPowers (a : UInt8) {n i : ℕ} (hi : i < (gfPowers a.toUInt16 n).length) :
    (gfPowers a.toUInt16 n)[i] = gfStep^[i] a := by
  induction n generalizing a i with
  | zero => exact absurd hi (Nat.not_lt_zero i)
  | succ n ih =>
    cases i with
    | zero => simp [gfPowers]
    | succ i =>
      simp only [gfPowers, List.getElem_cons_succ, ← gfDouble_byte, Function.iterate_succ_apply]
      exact ih (gfStep a) (by simpa [gfPowers, ← gfDouble_byte] using hi)

theorem length_gfCycle : gfCycle.length = 255 := length_gfPowers 1 255

theorem getElem_gfCycle {i : ℕ} (hi : i < gfCycle.length) : gfCycle[i] = gfStep^[i] 1 :=
  getElem_gfPowers 1 hi

/-- `EXP[i]` is `i` steps from 1, round the cycle. -/
theorem gfExp_eq (i : ℕ) : gfExp i = gfStep^[i % 255] 1 := by
  have hi : i % 255 < gfCycle.length := by
    rw [length_gfCycle]
    exact Nat.mod_lt i (by decide)
  rw [gfExp, List.getD_eq_getElem?_getD, List.getElem?_eq_getElem hi, getElem_gfCycle]
  rfl

/-- **The cycle closes after 255 steps, and no earlier**: not after a divisor
of 255. -/
theorem minimalPeriod_gfStep : Function.minimalPeriod gfStep 1 = 255 := by
  have hper : Function.IsPeriodicPt gfStep 255 1 := by
    unfold Function.IsPeriodicPt Function.IsFixedPt
    decide +kernel
  have hdvd := hper.minimalPeriod_dvd
  have hsplit : ∀ d ∈ Nat.divisors 255, d = 255 ∨ d ∣ 85 ∨ d ∣ 51 ∨ d ∣ 15 := by
    decide +kernel
  have hnot : ∀ n, gfStep^[n] 1 ≠ 1 → ¬ Function.minimalPeriod gfStep 1 ∣ n := fun n hn hd =>
    hn ((Function.isPeriodicPt_minimalPeriod gfStep 1).trans_dvd hd)
  rcases hsplit _ (Nat.mem_divisors.mpr ⟨hdvd, by decide⟩) with h | h | h | h
  · exact h
  · exact absurd h (hnot 85 (by decide +kernel))
  · exact absurd h (hnot 51 (by decide +kernel))
  · exact absurd h (hnot 15 (by decide +kernel))

theorem gfStep_zero : gfStep 0 = 0 := by decide

/-- No power of 2 is 0. -/
theorem gfSteps_one_ne_zero {i : ℕ} (hi : i ≤ 255) : gfStep^[i] 1 ≠ 0 := by
  intro h
  have hone : gfStep^[255] 1 = 1 := by decide +kernel
  rw [show 255 = (255 - i) + i by omega, Function.iterate_add_apply, h,
    Function.iterate_fixed gfStep_zero] at hone
  exact absurd hone (by decide)

/-- No power is met twice. -/
theorem nodup_gfCycle : gfCycle.Nodup := by
  refine List.nodup_iff_injective_get.mpr fun i j hij => Fin.ext ?_
  have hlt : ∀ i : Fin gfCycle.length, i.val < Function.minimalPeriod gfStep 1 := fun i => by
    rw [minimalPeriod_gfStep, ← length_gfCycle]
    exact i.isLt
  refine Function.iterate_injOn_Iio_minimalPeriod (hlt i) (hlt j) ?_
  simpa [getElem_gfCycle] using hij

/-- Every nonzero byte is met: there are 255 of them. -/
theorem mem_gfCycle {a : UInt8} (h : a ≠ 0) : a ∈ gfCycle := by
  have hnodup : (gfCycle.map UInt8.toNat).Nodup :=
    nodup_gfCycle.map fun _ _ h => UInt8.toNat_inj.mp h
  have hsub : (gfCycle.map UInt8.toNat).toFinset ⊆ Finset.Ico 1 256 := by
    intro b hb
    obtain ⟨c, hc, rfl⟩ := List.mem_map.mp (List.mem_toFinset.mp hb)
    obtain ⟨i, hi, rfl⟩ := List.mem_iff_getElem.mp hc
    rw [getElem_gfCycle]
    rw [length_gfCycle] at hi
    refine Finset.mem_Ico.mpr ⟨Nat.pos_of_ne_zero fun h0 => ?_, UInt8.toNat_lt _⟩
    exact gfSteps_one_ne_zero hi.le (UInt8.toNat_inj.mp h0)
  have hcard : (Finset.Ico 1 256).card ≤ (gfCycle.map UInt8.toNat).toFinset.card := by
    rw [List.toFinset_card_of_nodup hnodup, List.length_map, length_gfCycle, Nat.card_Ico]
  have hmem : a.toNat ∈ (gfCycle.map UInt8.toNat).toFinset := by
    rw [Finset.eq_of_subset_of_card_le hsub hcard]
    refine Finset.mem_Ico.mpr ⟨Nat.pos_of_ne_zero fun h0 => ?_, a.toNat_lt⟩
    exact h (UInt8.toNat_inj.mp h0)
  obtain ⟨b, hb, he⟩ := List.mem_map.mp (List.mem_toFinset.mp hmem)
  rwa [← UInt8.toNat_inj.mp he]

/-- A logarithm is a place of the cycle. -/
theorem gfLog_lt {a : UInt8} (h : a ≠ 0) : gfLog a < 255 := by
  rw [← length_gfCycle]
  exact List.idxOf_lt_length_of_mem (mem_gfCycle h)

/-- `EXP` undoes `LOG`. -/
theorem gfExp_gfLog {a : UInt8} (h : a ≠ 0) : gfExp (gfLog a) = a := by
  have hi := List.idxOf_lt_length_of_mem (mem_gfCycle h)
  rw [gfExp, Nat.mod_eq_of_lt (gfLog_lt h), gfLog, List.getD_eq_getElem?_getD,
    List.getElem?_eq_getElem hi, List.getElem_idxOf]
  rfl

theorem gfExp_mod (i : ℕ) : gfExp (i % 255) = gfExp i := by
  rw [gfExp, Nat.mod_mod, ← gfExp]

/-- `EXP[i + 1]` is a step past `EXP[i]`, round the cycle. -/
theorem gfExp_succ (i : ℕ) : gfExp (i + 1) = gfStep (gfExp i) := by
  have hone : gfStep^[255] 1 = 1 := by decide +kernel
  rw [gfExp_eq, gfExp_eq, ← Function.iterate_succ_apply' gfStep]
  by_cases hi : i % 255 = 254
  · rw [hi, show (i + 1) % 255 = 0 by omega]
    exact hone.symm
  · rw [show (i + 1) % 255 = (i % 255).succ by omega]

theorem gfExp_zero : gfExp 0 = 1 := by decide +kernel

theorem gfExp_ne_zero (i : ℕ) : gfExp i ≠ 0 := by
  rw [gfExp_eq]
  exact gfSteps_one_ne_zero (Nat.mod_lt i (by decide)).le

/-- `LOG` undoes `EXP`, round the cycle. -/
theorem gfLog_gfExp (i : ℕ) : gfLog (gfExp i) = i % 255 := by
  have hi : i % 255 < gfCycle.length := by
    rw [length_gfCycle]
    exact Nat.mod_lt i (by decide)
  rw [gfLog, gfExp, List.getD_eq_getElem?_getD, List.getElem?_eq_getElem hi]
  exact nodup_gfCycle.idxOf_getElem _ hi

/-- Taking a step `i` times. -/
def gfSteps (i : ℕ) (a : UInt8) : UInt8 := gfStep^[i] a

/-- Adding exponents is taking steps. -/
theorem gfExp_add (i j : ℕ) : gfExp (i + j) = gfSteps i (gfExp j) := by
  induction i with
  | zero => rw [Nat.zero_add]; rfl
  | succ i ih =>
    rw [Nat.succ_add, gfExp_succ, ih, gfSteps, gfSteps, Function.iterate_succ_apply']

theorem gfSteps_zero_right (i : ℕ) : gfSteps i 0 = 0 :=
  Function.iterate_fixed gfStep_zero i

/-- **Multiplying by `EXP[i]` is `i` steps.** -/
theorem gfMul_gfExp (i : ℕ) (b : UInt8) : gfMul (gfExp i) b = gfSteps i b := by
  unfold gfMul
  by_cases hb : b = 0
  · rw [if_pos (.inr hb), hb, gfSteps_zero_right]
  rw [if_neg (by simp [gfExp_ne_zero, hb]), gfLog_gfExp]
  calc gfExp (i % 255 + gfLog b)
      = gfExp (i + gfLog b) := by
        rw [← gfExp_mod, ← gfExp_mod (i + gfLog b)]
        congr 1
        omega
    _ = gfSteps i b := by rw [gfExp_add, gfExp_gfLog hb]

/-! ## A step is additive -/

/-- A step as shift and exclusive or. -/
theorem gfStep_eq (a : UInt8) :
    gfStep a = (a <<< 1) ^^^ (if a &&& 0x80 = 0 then 0 else 0x1D) :=
  forall_byte (p := fun a => gfStep a = (a <<< 1) ^^^ (if a &&& 0x80 = 0 then 0 else 0x1D))
    (by decide +kernel) a

theorem and_0x80 (a : UInt8) : a &&& 0x80 = 0 ∨ a &&& 0x80 = 0x80 :=
  forall_byte (p := fun a => a &&& 0x80 = 0 ∨ a &&& 0x80 = 0x80) (by decide +kernel) a

/-- A step distributes over exclusive or. -/
theorem gfStep_xor (a b : UInt8) : gfStep (a ^^^ b) = gfStep a ^^^ gfStep b := by
  have hshift : (a ^^^ b) <<< 1 = (a <<< 1) ^^^ (b <<< 1) := by
    apply UInt8.eq_of_toBitVec_eq
    simp [BitVec.shiftLeft_xor_distrib]
  have hand : (a ^^^ b) &&& 0x80 = (a &&& 0x80) ^^^ (b &&& 0x80) := by
    apply UInt8.eq_of_toBitVec_eq
    ext i
    simp [Bool.and_xor_distrib_right]
  rw [gfStep_eq, gfStep_eq a, gfStep_eq b, hshift, hand]
  rcases and_0x80 a with ha | ha <;> rcases and_0x80 b with hb | hb <;> rw [ha, hb]
  · simp
  · simp only [UInt8.zero_xor, show (0x80 : UInt8) ≠ 0 by decide, if_false, if_true, UInt8.xor_zero,
      UInt8.xor_assoc]
  · simp only [UInt8.xor_zero, show (0x80 : UInt8) ≠ 0 by decide, if_false, if_true]
    ac_rfl
  · simp only [UInt8.xor_self, show (0x80 : UInt8) ≠ 0 by decide, if_false, if_true]
    have hcancel : ∀ x y z : UInt8, (x ^^^ z) ^^^ (y ^^^ z) = x ^^^ y := fun x y z => by
      rw [show (x ^^^ z) ^^^ (y ^^^ z) = (x ^^^ y) ^^^ (z ^^^ z) by ac_rfl, UInt8.xor_self,
        UInt8.xor_zero]
    rw [hcancel, UInt8.xor_zero]

/-- So do several. -/
theorem gfSteps_xor (i : ℕ) (a b : UInt8) :
    gfSteps i (a ^^^ b) = gfSteps i a ^^^ gfSteps i b := by
  unfold gfSteps
  induction i generalizing a b with
  | zero => rfl
  | succ i ih => rw [Function.iterate_succ_apply, gfStep_xor, ih]; rfl

/-! ## The field -/

/-- A byte as an element of the field. -/
@[ext]
structure GF256 where
  byte : UInt8
deriving DecidableEq

namespace GF256

/-- A nonzero element is a power of 2. -/
theorem exists_gfExp {a : UInt8} (h : a ≠ 0) : ∃ i, a = gfExp i := ⟨_, (gfExp_gfLog h).symm⟩

/-- The product commutes. -/
theorem gfMul_comm (a b : UInt8) : gfMul a b = gfMul b a := by
  unfold gfMul
  simp only [Nat.add_comm, or_comm]

theorem gfMul_zero (a : UInt8) : gfMul a 0 = 0 := if_pos (.inr rfl)

/-- The product distributes over exclusive or. -/
theorem gfMul_xor (a b c : UInt8) : gfMul a (b ^^^ c) = gfMul a b ^^^ gfMul a c := by
  by_cases ha : a = 0
  · simp [gfMul, ha]
  obtain ⟨i, rfl⟩ := exists_gfExp ha
  rw [gfMul_gfExp, gfMul_gfExp, gfMul_gfExp, gfSteps_xor]

/-- The product is associative. -/
theorem gfMul_assoc (a b c : UInt8) : gfMul (gfMul a b) c = gfMul a (gfMul b c) := by
  by_cases ha : a = 0
  · simp [gfMul, ha]
  by_cases hb : b = 0
  · simp [gfMul, hb]
  obtain ⟨i, rfl⟩ := exists_gfExp ha
  obtain ⟨j, rfl⟩ := exists_gfExp hb
  rw [gfMul_gfExp, ← gfExp_add, gfMul_gfExp, gfMul_gfExp, gfMul_gfExp]
  exact Function.iterate_add_apply gfStep i j c

theorem gfMul_one (a : UInt8) : gfMul a 1 = a := by
  rw [gfMul_comm, ← gfExp_zero, gfMul_gfExp]
  rfl

/-- A nonzero byte times its inverse is 1. -/
theorem gfMul_gfInv {a : UInt8} (h : a ≠ 0) : gfMul a (gfInv a) = 1 := by
  have hlog := gfLog_lt h
  rw [gfMul, if_neg (by simp [h, gfInv, gfExp_ne_zero]), gfInv, gfLog_gfExp, ← gfExp_mod,
    show (gfLog a + (255 - gfLog a) % 255) % 255 = 0 by omega, gfExp_zero]

instance : Zero GF256 := ⟨⟨0⟩⟩

instance : One GF256 := ⟨⟨1⟩⟩

instance : Add GF256 := ⟨fun a b => ⟨a.byte ^^^ b.byte⟩⟩

instance : Neg GF256 := ⟨id⟩

instance : Mul GF256 := ⟨fun a b => ⟨gfMul a.byte b.byte⟩⟩

instance : Inv GF256 := ⟨fun a => ⟨if a.byte = 0 then 0 else gfInv a.byte⟩⟩

/-- Bytes with exclusive or and the tables' product are a field; `gf_inv` is
asked of nonzero bytes only. -/
instance instField : Field GF256 where
  add_assoc a b c := GF256.ext (UInt8.xor_assoc _ _ _)
  zero_add a := GF256.ext UInt8.zero_xor
  add_zero a := GF256.ext UInt8.xor_zero
  add_comm a b := GF256.ext (UInt8.xor_comm _ _)
  neg_add_cancel a := GF256.ext UInt8.xor_self
  left_distrib a b c := GF256.ext (gfMul_xor _ _ _)
  right_distrib a b c := GF256.ext (by
    change gfMul (a.byte ^^^ b.byte) c.byte = gfMul a.byte c.byte ^^^ gfMul b.byte c.byte
    rw [gfMul_comm, gfMul_xor, gfMul_comm c.byte, gfMul_comm c.byte])
  zero_mul a := GF256.ext ((gfMul_comm 0 a.byte).trans (gfMul_zero a.byte))
  mul_zero a := GF256.ext (gfMul_zero _)
  mul_assoc a b c := GF256.ext (gfMul_assoc _ _ _)
  mul_comm a b := GF256.ext (gfMul_comm _ _)
  one_mul a := GF256.ext ((gfMul_comm _ _).trans (gfMul_one _))
  mul_one a := GF256.ext (gfMul_one _)
  exists_pair_ne := ⟨0, 1, by decide⟩
  mul_inv_cancel a h := GF256.ext (by
    have ha : a.byte ≠ 0 := fun h0 => h (GF256.ext h0)
    change gfMul a.byte (if a.byte = 0 then 0 else gfInv a.byte) = 1
    rw [if_neg ha, gfMul_gfInv ha])
  inv_zero := rfl
  nsmul := nsmulRec
  zsmul := zsmulRec
  nnqsmul := _
  nnqsmul_def := fun _ _ => rfl
  qsmul := _
  qsmul_def := fun _ _ => rfl

@[simp] theorem byte_add (a b : GF256) : (a + b).byte = a.byte ^^^ b.byte := rfl

@[simp] theorem byte_sub (a b : GF256) : (a - b).byte = a.byte ^^^ b.byte := by
  have h : a - b = a + b := sub_eq_add_neg a b
  rw [h, byte_add]

theorem byte_inv {a : GF256} (h : a ≠ 0) : (a⁻¹).byte = gfInv a.byte :=
  if_neg fun h0 => h (GF256.ext h0)

end GF256

end Loam

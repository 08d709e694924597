import Loam.Gf256
import Loam.Lib.GaussJordan
import Loam.Lib.CauchyMatrix

/-!
# The erasure code

A body is split into `k` data shards, zero-padded, and `m` parity shards are
added, each byte of which is a combination of the data bytes at its position.
The coefficients of the combinations form a Cauchy matrix, so any `k` of the
`k + m` shards determine the data (`generator_kernel`), and elimination finds
it (`reconstruct_encode`).

The code keeps the shards in one contiguous buffer; here they are a list of
byte strings of one length.
-/

namespace Loam

/-- The most shards a body is coded in (`MAX_SHARDS`). -/
def maxShards : ℕ := 16

/-- The coefficient of parity row `j` over data column `i`. -/
def cauchy (k j i : ℕ) : UInt8 := gfInv (UInt8.ofNat (k + j) ^^^ UInt8.ofNat i)

/-- The length of each shard of a body split `k` ways. -/
def shardLenFor (bodyLen k : ℕ) : ℕ := if k = 0 then 0 else max ((bodyLen + k - 1) / k) 1

/-- Byte `p` of shard `s`. -/
def byteAt (shards : List Bytes) (s p : ℕ) : UInt8 := (shards.getD s []).getD p 0

/-- The data shards: runs of the body, zero-padded. -/
def dataShards (body : Bytes) (k len : ℕ) : List Bytes :=
  (List.range k).map fun i => (List.range len).map fun p => body.getD (i * len + p) 0

/-- Parity shard `j` of data shards. -/
def parityShard (data : List Bytes) (k len j : ℕ) : Bytes :=
  (List.range len).map fun p =>
    (List.range k).foldl (fun acc i => acc ^^^ gfMul (cauchy k j i) (byteAt data i p)) 0

/-- The parameters a coder takes (`check_params`). -/
def checkParams (k m len : ℕ) : Bool := k != 0 && decide (k + m ≤ maxShards) && len != 0

/-- The shards of a body. -/
def encode (body : Bytes) (k m : ℕ) : Option (List Bytes) :=
  let len := shardLenFor body.length k
  if checkParams k m len && decide (body.length ≤ k * len) then
    let data := dataShards body k len
    some (data ++ (List.range m).map (parityShard data k len))
  else none

/-- Row `s` of the generator over data column `i`: the identity for a data
shard, Cauchy for a parity shard. -/
def generator (k s i : ℕ) : UInt8 :=
  if s < k then (if i = s then 1 else 0) else cauchy k (s - k) i

/-- The first `k` shards present: the basis of the solve. -/
def chosenShards (present : ℕ → Bool) (k m : ℕ) : List ℕ :=
  ((List.range (k + m)).filter present).take k

/-- The generator rows of the shards chosen. -/
def chosenMatrix (chosen : List ℕ) (k : ℕ) : Matrix (Fin k) (Fin k) GF256 :=
  fun r i => ⟨generator k (chosen.getD r 0) i⟩

/-- A data shard from the shards chosen, by a row of the inverse. -/
def solveShard (inv : Fin k → GF256) (shards : List Bytes) (chosen : List ℕ) (len : ℕ) : Bytes :=
  (List.range len).map fun p =>
    (List.finRange k).foldl
      (fun acc r => acc ^^^ gfMul (inv r).byte (byteAt shards (chosen.getD r 0) p)) 0

/-- The data shards, those missing solved for. -/
def rebuildData (shards : List Bytes) (present : ℕ → Bool) (len k m : ℕ) : Option (List Bytes) :=
  if (List.range k).all present then some ((List.range k).map fun i => shards.getD i [])
  else
    let chosen := chosenShards present k m
    (GaussJordan.invert (chosenMatrix chosen k)).map fun inv =>
      (List.finRange k).map fun i : Fin k =>
        if present i then shards.getD i [] else solveShard (inv i) shards chosen len

/-- Every shard, those missing rebuilt (`reconstruct`). -/
def reconstruct (shards : List Bytes) (present : ℕ → Bool) (len k m : ℕ) : Option (List Bytes) :=
  if checkParams k m len && decide (k ≤ ((List.range (k + m)).filter present).length) then
    (rebuildData shards present len k m).map fun data =>
      data ++ (List.range m).map fun j =>
        if present (k + j) then shards.getD (k + j) [] else parityShard data k len j
  else none

/-- The body in the data shards. -/
def bodyOf (shards : List Bytes) (bodyLen : ℕ) : Bytes := shards.flatten.take bodyLen

/-- The body copied out of the data shards, into room for `room` bytes
(`body_from_shards`). -/
def bodyFromShards (shards : List Bytes) (len k bodyLen room : ℕ) : Option Bytes :=
  if k = 0 ∨ len = 0 ∨ k * len < bodyLen then none
  else if shards.flatten.length < k * len ∨ room < bodyLen then none
  else some (bodyOf shards bodyLen)

/-! ## Bytes of the shards -/

section Bytes

variable {k m len : ℕ}

theorem getD_map_range {f : ℕ → UInt8} {n p : ℕ} (hp : p < n) :
    ((List.range n).map f).getD p 0 = f p := by
  simp [List.getD_eq_getElem?_getD, hp]

/-- A fold of products is a sum over the field. -/
theorem foldl_xor {α : Type} (f g : α → UInt8) (l : List α) (acc : UInt8) :
    l.foldl (fun acc a => acc ^^^ gfMul (f a) (g a)) acc
      = ((⟨acc⟩ : GF256) + (l.map fun a => (⟨f a⟩ : GF256) * ⟨g a⟩).sum).byte := by
  induction l generalizing acc with
  | nil => simp
  | cons a l ih =>
    rw [List.foldl_cons, ih, List.map_cons, List.sum_cons, ← add_assoc]
    rfl

theorem foldl_xor_range (f g : ℕ → UInt8) (n : ℕ) :
    (⟨(List.range n).foldl (fun acc i => acc ^^^ gfMul (f i) (g i)) 0⟩ : GF256)
      = ∑ i : Fin n, (⟨f i⟩ : GF256) * ⟨g i⟩ := by
  rw [foldl_xor, show (⟨0⟩ : GF256) = 0 from rfl, zero_add, ← List.map_coe_finRange_eq_range,
    List.map_map, ← List.sum_ofFn, List.ofFn_eq_map]
  rfl

theorem foldl_xor_finRange {n : ℕ} (f g : Fin n → UInt8) :
    (⟨(List.finRange n).foldl (fun acc i => acc ^^^ gfMul (f i) (g i)) 0⟩ : GF256)
      = ∑ i : Fin n, (⟨f i⟩ : GF256) * ⟨g i⟩ := by
  rw [foldl_xor, show (⟨0⟩ : GF256) = 0 from rfl, zero_add, ← List.sum_ofFn, List.ofFn_eq_map]

end Bytes

/-! ## The generator -/

section Generator

variable {k m : ℕ}

/-- The element an index stands for. -/
def point (i : ℕ) : GF256 := ⟨UInt8.ofNat i⟩

theorem point_inj {i j : ℕ} (hi : i < 256) (hj : j < 256) (h : point i = point j) : i = j := by
  have := congrArg (fun a : GF256 => a.byte.toNat) h
  simpa [point, Nat.mod_eq_of_lt hi, Nat.mod_eq_of_lt hj] using this

/-- A Cauchy coefficient is the inverse of a difference of points. -/
theorem cauchy_eq {j i : ℕ} (hj : k + j < 256) (hi : i < k) :
    (⟨cauchy k j i⟩ : GF256) = (point (k + j) - point i)⁻¹ := by
  have hne : point (k + j) - point i ≠ 0 := sub_ne_zero.mpr fun h => by
    have := point_inj hj (by omega) h
    omega
  refine GF256.ext ?_
  rw [GF256.byte_inv hne, GF256.byte_sub]
  rfl

/-- **Any `k` rows of the generator are independent.** -/
theorem generator_kernel (hkm : k + m ≤ maxShards) {chosen : Fin k → ℕ}
    (hinj : Function.Injective chosen) (hlt : ∀ r, chosen r < k + m) {v : Fin k → GF256}
    (h : ∀ r, ∑ i : Fin k, (⟨generator k (chosen r) i⟩ : GF256) * v i = 0) : v = 0 := by
  simp only [maxShards] at hkm
  -- a data shard that is there gives its own entry
  have hdata : ∀ r, (hr : chosen r < k) → v ⟨chosen r, hr⟩ = 0 := by
    intro r hr
    have hsum := h r
    rw [Finset.sum_eq_single ⟨chosen r, hr⟩] at hsum
    · simpa [generator, hr, show (⟨1⟩ : GF256) = 1 from rfl] using hsum
    · intro i _ hne
      have hi : (i : ℕ) ≠ chosen r := fun he => hne (Fin.ext he)
      simp [generator, hr, hi, show (⟨0⟩ : GF256) = 0 from rfl]
    · exact fun hn => absurd (Finset.mem_univ _) hn
  -- the entries left are as many as the parity rows, at most
  let S : Finset (Fin k) := Finset.univ.filter fun i => ∀ r, chosen r ≠ i
  let T : Finset (Fin k) := Finset.univ.filter fun r => k ≤ chosen r
  have hcard : S.card ≤ T.card := by
    have hS : S.card + Sᶜ.card = k := by rw [Finset.card_add_card_compl, Fintype.card_fin]
    have hT : T.card + Tᶜ.card = k := by rw [Finset.card_add_card_compl, Fintype.card_fin]
    have hle : Tᶜ.card ≤ Sᶜ.card := by
      have hT' : ∀ r ∈ Tᶜ, chosen r < k := fun r hr => by simpa [T] using hr
      refine Finset.card_le_card_of_injOn (fun r => if hr : chosen r < k then ⟨chosen r, hr⟩ else r)
        (fun r hr => ?_) fun r hr r' hr' he => hinj ?_
      · simp only [hT' r hr, dif_pos]
        simp only [S, Finset.coe_compl, Set.mem_compl_iff, Finset.mem_coe, Finset.mem_filter,
          Finset.mem_univ, true_and, not_forall, not_not]
        exact ⟨r, rfl⟩
      · simpa [hT' r hr, hT' r' hr'] using he
    omega
  have hS0 : ∀ i ∈ S, v i = 0 := by
    refine cauchy_independent (S := S) (T := T) (x := fun r => point (chosen r)) (y := fun i => point i)
      ?_ ?_ ?_ hcard ?_
    · intro r _ r' _ he
      have := hlt r
      have := hlt r'
      exact hinj (point_inj (by omega) (by omega) he)
    · intro i _ i' _ he
      exact Fin.ext (point_inj (by omega) (by omega) he)
    · intro r hr i _ he
      have hr : k ≤ chosen r := by simpa [T] using hr
      have := hlt r
      have := point_inj (by omega) (by omega) he
      omega
    · intro r hr
      have hr : k ≤ chosen r := by simpa [T] using hr
      have hsum := h r
      rw [← Finset.sum_subset (Finset.subset_univ S)] at hsum
      · rw [← hsum]
        refine Finset.sum_congr rfl fun i _ => ?_
        have := hlt r
        have hc := cauchy_eq (k := k) (j := chosen r - k) (i := i) (by omega) i.isLt
        rw [generator, if_neg (by omega), hc, mul_comm, show k + (chosen r - k) = chosen r by omega]
      · intro i _ hi
        obtain ⟨r', hr'⟩ : ∃ r', chosen r' = i := by simpa [S] using hi
        have : v i = 0 := by
          have := hdata r' (hr' ▸ i.isLt)
          simpa [hr'] using this
        rw [this, mul_zero]
  funext i
  by_cases hi : i ∈ S
  · exact hS0 i hi
  obtain ⟨r, hr⟩ : ∃ r, chosen r = i := by simpa [S] using hi
  have := hdata r (hr ▸ i.isLt)
  simpa [hr] using this

end Generator

/-! ## Encoding -/

section Encode

variable {body : Bytes} {k m : ℕ} {enc : List Bytes}

/-- A body is split into shards that hold it. -/
theorem length_le_shards (hk : k ≠ 0) (n : ℕ) : n ≤ k * shardLenFor n k := by
  rw [shardLenFor, if_neg hk]
  have hdiv := Nat.div_add_mod (n + k - 1) k
  have hmod := Nat.mod_lt (n + k - 1) (Nat.pos_of_ne_zero hk)
  calc n ≤ k * ((n + k - 1) / k) := by omega
    _ ≤ k * max ((n + k - 1) / k) 1 := Nat.mul_le_mul_left k (Nat.le_max_left _ _)

theorem encode_eq_some (h : encode body k m = some enc) :
    checkParams k m (shardLenFor body.length k) = true ∧
      enc = dataShards body k (shardLenFor body.length k)
        ++ (List.range m).map (parityShard (dataShards body k (shardLenFor body.length k)) k
          (shardLenFor body.length k)) := by
  unfold encode at h
  dsimp only at h
  split at h
  · next hc =>
    cases h
    exact ⟨(Bool.and_eq_true_iff.mp hc).1, rfl⟩
  · cases h

theorem encode_isSome (hk : k ≠ 0) (hkm : k + m ≤ maxShards) :
    ∃ enc, encode body k m = some enc := by
  have hlen : shardLenFor body.length k ≠ 0 := by
    rw [shardLenFor, if_neg hk]
    exact Nat.ne_of_gt (Nat.lt_of_lt_of_le Nat.one_pos (Nat.le_max_right _ _))
  have hc : (checkParams k m (shardLenFor body.length k)
      && decide (body.length ≤ k * shardLenFor body.length k)) = true := by
    simp [checkParams, hk, hkm, hlen, length_le_shards hk]
  exact ⟨_, by rw [encode]; exact if_pos hc⟩

theorem length_dataShards (body : Bytes) (k len : ℕ) : (dataShards body k len).length = k := by
  simp [dataShards]

theorem getD_encode_data (h : encode body k m = some enc) {s : ℕ} (hs : s < k) :
    enc.getD s [] = (dataShards body k (shardLenFor body.length k)).getD s [] := by
  obtain ⟨-, rfl⟩ := encode_eq_some h
  rw [List.getD_eq_getElem?_getD, List.getElem?_append_left (by rwa [length_dataShards]),
    ← List.getD_eq_getElem?_getD]

theorem getD_encode_parity (h : encode body k m = some enc) {j : ℕ} (hj : j < m) :
    enc.getD (k + j) [] = parityShard (dataShards body k (shardLenFor body.length k)) k
      (shardLenFor body.length k) j := by
  obtain ⟨-, rfl⟩ := encode_eq_some h
  rw [List.getD_eq_getElem?_getD, List.getElem?_append_right (by simp [length_dataShards]),
    length_dataShards, Nat.add_sub_cancel_left]
  simp [hj]

theorem length_shard_of_encode (h : encode body k m = some enc) {s : ℕ} (hs : s < k + m) :
    (enc.getD s []).length = shardLenFor body.length k := by
  by_cases hk : s < k
  · rw [getD_encode_data h hk]
    simp [dataShards, List.getD_eq_getElem?_getD, hk]
  · obtain ⟨j, rfl⟩ := Nat.exists_eq_add_of_le (Nat.le_of_not_lt hk)
    rw [getD_encode_parity h (by omega)]
    simp [parityShard]

/-- **Every shard is its generator row over the data.** -/
theorem byteAt_encode (h : encode body k m = some enc) {s p : ℕ} (hs : s < k + m)
    (hp : p < shardLenFor body.length k) :
    (⟨byteAt enc s p⟩ : GF256) = ∑ i : Fin k, (⟨generator k s i⟩ : GF256)
      * ⟨byteAt (dataShards body k (shardLenFor body.length k)) i p⟩ := by
  by_cases hk : s < k
  · rw [Finset.sum_eq_single ⟨s, hk⟩]
    · rw [byteAt, getD_encode_data h hk]
      simp [generator, hk, show (⟨1⟩ : GF256) = 1 from rfl, byteAt]
    · intro i _ hne
      have hi : (i : ℕ) ≠ s := fun he => hne (Fin.ext he)
      simp [generator, hk, hi, show (⟨0⟩ : GF256) = 0 from rfl]
    · exact fun hn => absurd (Finset.mem_univ _) hn
  · obtain ⟨j, rfl⟩ := Nat.exists_eq_add_of_le (Nat.le_of_not_lt hk)
    rw [byteAt, getD_encode_parity h (by omega), parityShard, getD_map_range hp, foldl_xor_range]
    refine Finset.sum_congr rfl fun i _ => ?_
    rw [generator, if_neg hk, Nat.add_sub_cancel_left]

/-- The data shards, one after the other, are the body and zeros. -/
theorem flatten_dataShards (body : Bytes) (k len : ℕ) :
    (dataShards body k len).flatten = (List.range (k * len)).map fun q => body.getD q 0 := by
  induction k with
  | zero => simp [dataShards]
  | succ k ih =>
    rw [dataShards, List.range_succ, List.map_append, List.flatten_append, ← dataShards, ih,
      Nat.succ_mul, List.range_add, List.map_append, List.map_map]
    simp [Function.comp_def]

/-- **The body is read back** from its data shards. -/
theorem bodyOf_encode (h : encode body k m = some enc) : bodyOf enc body.length = body := by
  obtain ⟨hc, rfl⟩ := encode_eq_some h
  have hk : k ≠ 0 := by
    simp only [checkParams, Bool.and_eq_true, bne_iff_ne] at hc
    exact hc.1.1
  have hle := length_le_shards hk body.length
  rw [bodyOf, List.flatten_append, flatten_dataShards, List.take_append_of_le_length (by simpa)]
  refine List.ext_getElem (by simpa using hle) fun i hi hi' => ?_
  simp [List.getD_eq_getElem?_getD, hi']

/-- The body is copied out of the shards of its encoding. -/
theorem bodyFromShards_encode (h : encode body k m = some enc) {room : ℕ}
    (hroom : body.length ≤ room) :
    bodyFromShards enc (shardLenFor body.length k) k body.length room = some body := by
  have hbody := bodyOf_encode h
  obtain ⟨hc, rfl⟩ := encode_eq_some h
  simp only [checkParams, Bool.and_eq_true, bne_iff_ne, decide_eq_true_eq] at hc
  obtain ⟨⟨hk, -⟩, hlen⟩ := hc
  have hfits := length_le_shards hk body.length
  have hdata : k * shardLenFor body.length k
      ≤ (dataShards body k (shardLenFor body.length k) ++ (List.range m).map (parityShard
        (dataShards body k (shardLenFor body.length k)) k
        (shardLenFor body.length k))).flatten.length := by
    rw [List.flatten_append, flatten_dataShards, List.length_append, List.length_map,
      List.length_range]
    exact Nat.le_add_right _ _
  rw [bodyFromShards, if_neg, if_neg, hbody]
  · rintro (hshort | hsmall)
    · exact absurd hdata (Nat.not_le.mpr hshort)
    · exact absurd hroom (Nat.not_le.mpr hsmall)
  · rintro (hz | hz | hlong)
    · exact hk hz
    · exact hlen hz
    · exact absurd hfits (Nat.not_le.mpr hlong)

end Encode

/-! ## Reconstruction -/

section Reconstruct

variable {body : Bytes} {k m : ℕ} {enc shards : List Bytes} {present : ℕ → Bool}

theorem chosenShards_spec (hcount : k ≤ ((List.range (k + m)).filter present).length) :
    (chosenShards present k m).length = k ∧ (chosenShards present k m).Nodup ∧
      ∀ s ∈ chosenShards present k m, s < k + m ∧ present s = true := by
  refine ⟨by rw [chosenShards, List.length_take]; omega,
    (List.nodup_range.filter _).sublist (List.take_sublist _ _), fun s hs => ?_⟩
  have hs := List.mem_filter.mp (List.mem_of_mem_take hs)
  exact ⟨List.mem_range.mp hs.1, hs.2⟩

theorem solveShard_eq (henc : encode body k m = some enc)
    (hagree : ∀ s < k + m, present s = true → shards.getD s [] = enc.getD s [])
    (hcount : k ≤ ((List.range (k + m)).filter present).length)
    {inv : Matrix (Fin k) (Fin k) GF256}
    (hinv : inv * chosenMatrix (chosenShards present k m) k = 1) (i : Fin k) :
    solveShard (inv i) shards (chosenShards present k m) (shardLenFor body.length k)
      = (dataShards body k (shardLenFor body.length k)).getD i [] := by
  obtain ⟨hlen, -, hmem⟩ := chosenShards_spec hcount
  have hdata : (dataShards body k (shardLenFor body.length k)).getD i []
      = (List.range (shardLenFor body.length k)).map fun p =>
        byteAt (dataShards body k (shardLenFor body.length k)) i p := by
    refine List.ext_getElem (by simp [dataShards, List.getD_eq_getElem?_getD]) fun p hp hp' => ?_
    rw [List.getElem_map, List.getElem_range, byteAt]
    rw [List.getD_eq_getElem?_getD (i := p), List.getElem?_eq_getElem hp, Option.getD_some]
  rw [hdata, solveShard]
  refine List.map_congr_left fun p hp => ?_
  have hp := List.mem_range.mp hp
  -- the solve, as a sum over the shards chosen
  have hfold := foldl_xor_finRange (fun r => (inv i r).byte) fun r : Fin k =>
    byteAt shards ((chosenShards present k m).getD r 0) p
  have hrow : ∀ r : Fin k, (⟨byteAt shards ((chosenShards present k m).getD r 0) p⟩ : GF256)
      = ∑ i' : Fin k, chosenMatrix (chosenShards present k m) k r i'
        * ⟨byteAt (dataShards body k (shardLenFor body.length k)) i' p⟩ := by
    intro r
    have hr : (chosenShards present k m).getD r 0 ∈ chosenShards present k m := by
      rw [List.getD_eq_getElem?_getD, List.getElem?_eq_getElem (by rw [hlen]; exact r.isLt)]
      exact List.getElem_mem _
    obtain ⟨hlt, hpres⟩ := hmem _ hr
    rw [byteAt, hagree _ hlt hpres]
    exact byteAt_encode henc hlt hp
  have hsolve : ∑ r : Fin k, inv i r * (⟨byteAt shards ((chosenShards present k m).getD r 0) p⟩ : GF256)
      = ⟨byteAt (dataShards body k (shardLenFor body.length k)) i p⟩ := by
    calc ∑ r : Fin k, inv i r * (⟨byteAt shards ((chosenShards present k m).getD r 0) p⟩ : GF256)
        = ∑ i' : Fin k, (inv * chosenMatrix (chosenShards present k m) k) i i'
            * ⟨byteAt (dataShards body k (shardLenFor body.length k)) i' p⟩ := by
          simp only [hrow, Finset.mul_sum, Matrix.mul_apply, Finset.sum_mul, mul_assoc]
          rw [Finset.sum_comm]
      _ = ⟨byteAt (dataShards body k (shardLenFor body.length k)) i p⟩ := by
          rw [hinv]
          simp [Matrix.one_apply]
  exact congrArg GF256.byte (hfold.trans hsolve)

/-- **The elimination meets no column without a pivot**: the rows of any `k`
shards are inverted. -/
theorem invert_chosenMatrix (hkm : k + m ≤ maxShards)
    (hcount : k ≤ ((List.range (k + m)).filter present).length) :
    ∃ inv, GaussJordan.invert (chosenMatrix (chosenShards present k m) k) = some inv ∧
      inv * chosenMatrix (chosenShards present k m) k = 1 := by
  obtain ⟨hlen, hnodup, hmem⟩ := chosenShards_spec hcount
  have hget : ∀ r : Fin k, (chosenShards present k m).getD r 0
      = (chosenShards present k m).get ⟨r.val, by rw [hlen]; exact r.isLt⟩ := fun r => by
    rw [List.getD_eq_getElem?_getD, List.getElem?_eq_getElem (by rw [hlen]; exact r.isLt)]
    rfl
  refine GaussJordan.invert_spec fun v hv => ?_
  refine generator_kernel hkm (fun r r' he => ?_) (fun r => ?_) fun r => congrFun hv r
  · simp only [hget] at he
    exact Fin.ext (hnodup.getElem_inj_iff.mp he)
  · rw [hget]
    exact (hmem _ (List.getElem_mem _)).1

/-- **Any `k` shards give the data back.** -/
theorem rebuildData_encode (henc : encode body k m = some enc)
    (hagree : ∀ s < k + m, present s = true → shards.getD s [] = enc.getD s [])
    (hcount : k ≤ ((List.range (k + m)).filter present).length) :
    rebuildData shards present (shardLenFor body.length k) k m
      = some (dataShards body k (shardLenFor body.length k)) := by
  obtain ⟨hc, -⟩ := encode_eq_some henc
  have hkm : k + m ≤ maxShards := by
    simp only [checkParams, Bool.and_eq_true, decide_eq_true_eq] at hc
    exact hc.1.2
  have hdata : ∀ i < k, present i = true → shards.getD i []
      = (dataShards body k (shardLenFor body.length k)).getD i [] := fun i hi hp =>
    (hagree i (by omega) hp).trans (getD_encode_data henc hi)
  have hlist : dataShards body k (shardLenFor body.length k)
      = (List.finRange k).map fun i : Fin k =>
        (dataShards body k (shardLenFor body.length k)).getD i [] := by
    refine List.ext_getElem (by simp [length_dataShards]) fun i hi hi' => ?_
    simp [List.getD_eq_getElem?_getD, hi]
  unfold rebuildData
  split
  · next hall =>
    rw [hlist]
    refine congrArg some (List.ext_getElem (by simp) fun i hi hi' => ?_)
    have hik : i < k := by simpa using hi
    simpa using hdata i hik (List.all_eq_true.mp hall i (List.mem_range.mpr hik))
  · obtain ⟨inv, hinv, hone⟩ := invert_chosenMatrix hkm hcount
    dsimp only
    rw [hinv, Option.map_some, hlist]
    refine congrArg some ?_
    refine List.map_congr_left fun i _ => ?_
    split
    · next hp => exact hdata i i.isLt hp
    · exact solveShard_eq henc hagree hcount hone i

/-- **Any `k` shards give every shard back.** -/
theorem reconstruct_encode (henc : encode body k m = some enc)
    (hagree : ∀ s < k + m, present s = true → shards.getD s [] = enc.getD s [])
    (hcount : k ≤ ((List.range (k + m)).filter present).length) :
    reconstruct shards present (shardLenFor body.length k) k m = some enc := by
  obtain ⟨hc, heq⟩ := encode_eq_some henc
  rw [reconstruct, if_pos (by simp [hc, hcount]), rebuildData_encode henc hagree hcount, heq]
  refine congrArg (fun l => some (dataShards body k (shardLenFor body.length k) ++ l)) ?_
  refine List.map_congr_left fun j hj => ?_
  have hj := List.mem_range.mp hj
  split
  · next hp => rw [hagree _ (by omega) hp, getD_encode_parity henc hj]
  · rfl

/-- **The code is maximum distance separable**: from any `k` shards of a body,
whatever stands in place of the others, every shard is rebuilt and the body is
read back, and the elimination on the way finds a pivot in every column. -/
theorem any_k_restore (body : Bytes) {k m : ℕ} (hk : k ≠ 0) (hkm : k + m ≤ maxShards) :
    ∃ enc, encode body k m = some enc ∧
      (∀ (shards : List Bytes) (present : ℕ → Bool),
        (∀ s < k + m, present s = true → shards.getD s [] = enc.getD s []) →
        k ≤ ((List.range (k + m)).filter present).length →
        (GaussJordan.invert (chosenMatrix (chosenShards present k m) k)).isSome = true ∧
          reconstruct shards present (shardLenFor body.length k) k m = some enc) ∧
      ∀ room, body.length ≤ room →
        bodyFromShards enc (shardLenFor body.length k) k body.length room = some body := by
  obtain ⟨enc, henc⟩ := encode_isSome hk hkm
  refine ⟨enc, henc, fun shards present hagree hcount => ⟨?_, ?_⟩, fun room hroom => ?_⟩
  · obtain ⟨inv, hinv, -⟩ := invert_chosenMatrix hkm hcount
    rw [hinv]
    rfl
  · exact reconstruct_encode henc hagree hcount
  · exact bodyFromShards_encode henc hroom

/-- Three bytes in two data shards and one of parity. -/
theorem any_k_restore_three :
    (2 ≠ 0 ∧ 2 + 1 ≤ maxShards) ∧ ∃ enc, encode [1, 2, 3] 2 1 = some enc ∧
      (∀ (shards : List Bytes) (present : ℕ → Bool),
        (∀ s < 2 + 1, present s = true → shards.getD s [] = enc.getD s []) →
        2 ≤ ((List.range (2 + 1)).filter present).length →
        (GaussJordan.invert (chosenMatrix (chosenShards present 2 1) 2)).isSome = true ∧
          reconstruct shards present (shardLenFor 3 2) 2 1 = some enc) ∧
      ∀ room, 3 ≤ room → bodyFromShards enc (shardLenFor 3 2) 2 3 room = some [1, 2, 3] :=
  ⟨by decide, any_k_restore [1, 2, 3] (by decide) (by decide)⟩

end Reconstruct

end Loam

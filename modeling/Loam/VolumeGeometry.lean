import Loam.BlockMap
import Loam.Lib.Slices
import Mathlib.Algebra.Order.Floor.Div
import Mathlib.Data.Set.Function

/-!
# The geometry of a volume's map

The code has no division: it asks whether a count of children covers a size by
multiplying (`covers_exactly`), and splits an index with a shift and a mask
(`locate`). What is covered exactly is the quotient, rounded up (`covers_iff`). With
quotients the geometry is stated on its own, and the code is held against it: a
page is taken only with the counts of its geometry, every extent has one place,
and every place one extent.

The products are of 64 bits. Beside the functions of the code stand the same
functions with a product that may not fit (`mul64`), and none ever does.
-/

namespace Loam

open Slices

variable {a b c k size span count sizeBytes extentSize depth : ℕ}

/-! ## Quotients, rounded up -/

/-- **What is covered exactly is the quotient.** -/
theorem covers_iff (hsize : 0 < size) (hspan : 0 < span) :
    coversExactly size span count = true ↔ count = size ⌈/⌉ span := by
  have hle : ∀ n, size ⌈/⌉ span ≤ n ↔ size ≤ n * span := fun n => by
    rw [ceilDiv_le_iff_le_mul hspan, Nat.mul_comm]
  rw [coversExactly_iff]
  constructor
  · rintro ⟨hone, hbelow, hall⟩
    have hup := (hle count).mpr hall
    have hdown : ¬ size ⌈/⌉ span ≤ count - 1 := fun h => Nat.not_le.mpr hbelow ((hle _).mp h)
    omega
  · rintro rfl
    have hpos : 0 < size ⌈/⌉ span := by
      by_contra hzero
      have h := (hle 0).mp (Nat.not_lt.mp hzero)
      omega
    refine ⟨hpos, ?_, (hle _).mp le_rfl⟩
    by_contra hover
    have h := (hle _).mpr (Nat.not_lt.mp hover)
    omega

theorem ceilDiv_ceilDiv (hb : 0 < b) (hc : 0 < c) : (a ⌈/⌉ b) ⌈/⌉ c = a ⌈/⌉ (b * c) := by
  refine eq_of_forall_ge_iff fun n => ?_
  rw [ceilDiv_le_iff_le_mul hc, ceilDiv_le_iff_le_mul hb, ceilDiv_le_iff_le_mul (Nat.mul_pos hb hc),
    Nat.mul_assoc]

/-- The quotient of what is left behind whole parts. -/
theorem ceilDiv_sub_mul (hb : 0 < b) : (a - k * b) ⌈/⌉ b = a ⌈/⌉ b - k := by
  refine eq_of_forall_ge_iff fun n => ?_
  rw [ceilDiv_le_iff_le_mul hb, Nat.sub_le_iff_le_add, Nat.sub_le_iff_le_add,
    ceilDiv_le_iff_le_mul hb, Nat.mul_add, Nat.mul_comm k]

/-! ## The geometry -/

/-- The extents of a volume. -/
def extents (sizeBytes extentSize : ℕ) : ℕ := sizeBytes ⌈/⌉ extentSize

/-- The children of its root: the extents, or a leaf for each page of them. -/
def childCount (depth sizeBytes extentSize : ℕ) : ℕ :=
  if depth = 1 then extents sizeBytes extentSize else extents sizeBytes extentSize ⌈/⌉ pageEntries

/-- The slots of a child: one of an extent, and of a leaf as many as it has extents. -/
def slotCount (depth sizeBytes extentSize child : ℕ) : ℕ :=
  if depth = 1 then 1 else min pageEntries (extents sizeBytes extentSize - child * pageEntries)

/-- The places in a map. -/
def places (depth sizeBytes extentSize : ℕ) : Set (ℕ × ℕ) :=
  {p | p.1 < childCount depth sizeBytes extentSize ∧
    p.2 < slotCount depth sizeBytes extentSize p.1}

/-- The child that has an extent, and the slot in its leaf (`locate`). -/
def locate (depth index : ℕ) : ℕ × ℕ :=
  if depth = 1 then (index, 0) else (index >>> 10, index &&& (pageEntries - 1))

theorem locate_leaf (index : ℕ) (hd : depth ≠ 1) :
    locate depth index = (index / pageEntries, index % pageEntries) := by
  rw [locate, if_neg hd, Nat.shiftRight_eq_div_pow]
  exact congrArg (Prod.mk _) (Nat.and_two_pow_sub_one_eq_mod index 10)

theorem lt_childCount (hd : depth ≠ 1) :
    c < childCount depth sizeBytes extentSize ↔ c * pageEntries < extents sizeBytes extentSize := by
  have hle := ceilDiv_le_iff_le_mul (b := extents sizeBytes extentSize) (c := c)
    (show 0 < pageEntries by decide)
  rw [childCount, if_neg hd, ← Nat.not_le, hle, Nat.mul_comm, Nat.not_le]

/-- **Every extent has one place, and every place one extent.** -/
theorem locate_bijOn (depth sizeBytes extentSize : ℕ) :
    Set.BijOn (locate depth) (Set.Iio (extents sizeBytes extentSize))
      (places depth sizeBytes extentSize) := by
  by_cases hd : depth = 1
  · subst hd
    refine ⟨fun i hi => ⟨hi, Nat.one_pos⟩, fun i _ j _ h => (Prod.mk.inj h).1, fun p hp => ?_⟩
    obtain ⟨i, j⟩ := p
    obtain ⟨hi, hj⟩ := hp
    exact ⟨i, hi, Prod.ext rfl (Nat.lt_one_iff.mp hj).symm⟩
  · have hpos : 0 < pageEntries := by decide
    refine ⟨fun i hi => ?_, fun i _ j _ h => ?_, fun p hp => ?_⟩
    · rw [locate_leaf i hd]
      have hsplit := Nat.div_add_mod' i pageEntries
      have hmod := Nat.mod_lt i hpos
      have hlt : i < extents sizeBytes extentSize := hi
      have hchild : i / pageEntries * pageEntries < extents sizeBytes extentSize := by omega
      refine ⟨(lt_childCount hd).mpr hchild, ?_⟩
      show i % pageEntries < slotCount depth sizeBytes extentSize (i / pageEntries)
      rw [slotCount, if_neg hd, lt_min_iff]
      exact ⟨hmod, by omega⟩
    · rw [locate_leaf i hd, locate_leaf j hd] at h
      obtain ⟨hdiv, hmod⟩ := Prod.mk.inj h
      rw [← Nat.div_add_mod' i pageEntries, hdiv, hmod, Nat.div_add_mod']
    · obtain ⟨child, slot⟩ := p
      obtain ⟨-, hslot⟩ := hp
      dsimp only at hslot
      rw [slotCount, if_neg hd, lt_min_iff] at hslot
      refine ⟨child * pageEntries + slot, ?_, ?_⟩
      · show _ < extents sizeBytes extentSize
        omega
      · rw [locate_leaf _ hd, Nat.mul_comm, Nat.mul_add_div hpos, Nat.mul_add_mod,
          Nat.div_eq_of_lt hslot.1, Nat.mod_eq_of_lt hslot.1, Nat.add_zero]

/-- The children that the code asks for are those of the geometry. -/
theorem covers_childCount (h : selectDepth sizeBytes extentSize = some depth) :
    coversExactly sizeBytes (childSpan extentSize depth) count = true ↔
      count = childCount depth sizeBytes extentSize := by
  obtain ⟨hes, -, hsize, -⟩ := selectDepth_cases h
  by_cases hd : depth = 1
  · rw [childSpan, childCount, if_pos hd, if_pos hd, covers_iff hsize hes, extents]
  rw [childSpan, childCount, if_neg hd, if_neg hd, covers_iff hsize (Nat.mul_pos hes (by decide)),
    extents, ceilDiv_ceilDiv hes (by decide)]

/-! ## Leaves -/

/-- **A leaf fits a child when it is the geometry's.** -/
theorem leafFits_iff {leaf : LeafPage} (h : selectDepth sizeBytes extentSize = some depth)
    (hcount : leaf.count ≤ pageEntries) (child : ℕ) :
    leafFits leaf child sizeBytes extentSize = true ↔
      child < childCount 2 sizeBytes extentSize ∧ leaf.firstIndex = child * pageEntries ∧
        leaf.count = slotCount 2 sizeBytes extentSize child := by
  obtain ⟨hes, -, hsize, -⟩ := selectDepth_cases h
  have hle : ∀ n, extents sizeBytes extentSize ≤ n ↔ sizeBytes ≤ n * extentSize := fun n => by
    rw [extents, ceilDiv_le_iff_le_mul hes, Nat.mul_comm]
  rw [lt_childCount (by decide), slotCount, if_neg (by decide), leafFits]
  simp only [Bool.and_eq_true, Bool.or_eq_true, decide_eq_true_eq, beq_iff_eq]
  constructor
  · rintro ⟨⟨hfirst, hstart⟩, hrest⟩
    have hin : leaf.firstIndex < extents sizeBytes extentSize := by
      by_contra hout
      exact Nat.not_le.mpr hstart ((hle _).mp (Nat.not_lt.mp hout))
    refine ⟨hfirst ▸ hin, hfirst, ?_⟩
    rcases hrest with hcov | ⟨hfull, hmore⟩
    · rw [covers_iff (by omega) hes, ceilDiv_sub_mul hes] at hcov
      rw [← hfirst, hcov]
      exact (Nat.min_eq_right (hcov ▸ hcount)).symm
    have hbig : ¬ extents sizeBytes extentSize ≤ leaf.firstIndex + pageEntries := fun hsmall => by
      have := (hle _).mp hsmall
      rw [Nat.add_mul] at this
      omega
    rw [hfull, ← hfirst, Nat.min_eq_left (by omega)]
  · rintro ⟨hin, hfirst, hcnt⟩
    have hstart : leaf.firstIndex * extentSize < sizeBytes := by
      by_contra hout
      exact Nat.not_le.mpr (hfirst ▸ hin) ((hle _).mpr (Nat.not_lt.mp hout))
    refine ⟨⟨hfirst, hstart⟩, ?_⟩
    by_cases hlast : extents sizeBytes extentSize - leaf.firstIndex ≤ pageEntries
    · refine .inl ?_
      rw [covers_iff (by omega) hes, ceilDiv_sub_mul hes, hcnt, ← hfirst, Nat.min_eq_right hlast]
      rfl
    refine .inr ⟨?_, ?_⟩
    · rw [hcnt, ← hfirst, Nat.min_eq_left (Nat.le_of_not_le hlast)]
    · by_contra hsmall
      have hall : sizeBytes ≤ (leaf.firstIndex + pageEntries) * extentSize := by
        rw [Nat.add_mul]
        omega
      have := (hle _).mpr hall
      omega

/-! ## Writing back what was read -/

/-- A table whose length is that of so many digests is a table of digests. -/
theorem exists_digestTable {n : ℕ} (t : Bytes) (h : t.length = n * 32) :
    ∃ ds : List Digest, ds.length = n ∧ digestTable ds = t := by
  induction n generalizing t with
  | zero => exact ⟨[], rfl, (List.length_eq_zero_iff.mp (h.trans (Nat.zero_mul _))).symm⟩
  | succ n ih =>
    have hhead : (t.take 32).length = 32 := by
      rw [List.length_take]
      omega
    obtain ⟨ds, hlen, htable⟩ := ih (t.drop 32) (by rw [List.length_drop]; omega)
    refine ⟨⟨t.take 32, hhead⟩ :: ds, congrArg Nat.succ hlen, ?_⟩
    show t.take 32 ++ digestTable ds = t
    rw [htable, List.take_append_drop]

/-- A string is a field and what is behind it. -/
theorem drop_eq_field {n : ℕ} (src : Bytes) (h : a + n = b) :
    src.drop a = slice src a n ++ src.drop b := by
  rw [slice, ← h, ← List.drop_drop, List.take_append_drop]

/-- The number in a field, written back. -/
theorem leBytes_field {n : ℕ} {src : Bytes} (h : a + n ≤ src.length) :
    leBytes n (leNat ((src.drop a).take n)) = slice src a n := by
  have hback := leBytes_leNat (slice src a n)
  rwa [length_slice h] at hback

/-- **A root page that is read is what would be written.** -/
theorem encodeRoot_of_decodeRoot {src : Bytes} {r : RootPage} (h : decodeRoot src = some r) :
    ∃ cs : List Digest, digestTable cs = r.children ∧
      encodeRoot r.volumeId r.sizeBytes r.extentSize cs = some src := by
  unfold decodeRoot at h
  split at h
  swap
  · cases h
  next hhdr =>
  dsimp only at h
  split at h
  swap
  · cases h
  next hok =>
  obtain ⟨hlen, hmagic⟩ := hhdr
  obtain ⟨hzero, hdepth, -, hcov, htotal⟩ := hok
  cases Option.some.inj h
  obtain ⟨cs, hcs, htable⟩ := exists_digestTable (src.drop 36) (by
    rw [List.length_drop, htotal, Nat.add_sub_cancel_left])
  refine ⟨cs, htable, ?_⟩
  rw [encodeRoot, hdepth, Option.bind_some, hcs, if_pos hcov, htable, leBytes_field (by omega),
    leBytes_field (by omega), leBytes_field (by omega), UInt8.ofNat_toNat]
  have hbyte : ∀ i, i < src.length → slice src i 1 = [src.getD i 0] := fun i hi => slice_one_eq hi 0
  refine congrArg some ?_
  conv_rhs =>
    rw [← List.take_append_drop 4 src, hmagic, drop_eq_field src (show 4 + 16 = 20 from rfl),
      drop_eq_field src (show 20 + 8 = 28 from rfl), drop_eq_field src (show 28 + 4 = 32 from rfl),
      drop_eq_field src (show 32 + 1 = 33 from rfl), drop_eq_field src (show 33 + 1 = 34 from rfl),
      drop_eq_field src (show 34 + 2 = 36 from rfl), hbyte 32 (by omega), hbyte 33 (by omega), hzero]
  rfl

/-- **A leaf page that is read is what would be written.** -/
theorem encodeLeaf_of_decodeLeaf {src : Bytes} {leaf : LeafPage} (h : decodeLeaf src = some leaf) :
    ∃ ds : List Digest, digestTable ds = leaf.digests ∧ encodeLeaf leaf.firstIndex ds = some src := by
  unfold decodeLeaf at h
  split at h
  swap
  · cases h
  next hhdr =>
  dsimp only at h
  split at h
  swap
  · cases h
  next hok =>
  obtain ⟨hlen, hmagic⟩ := hhdr
  obtain ⟨hsome, hmax, haligned, htotal⟩ := hok
  cases Option.some.inj h
  obtain ⟨ds, hds, htable⟩ := exists_digestTable (src.drop 14) (by
    rw [List.length_drop, htotal, Nat.add_sub_cancel_left])
  refine ⟨ds, htable, ?_⟩
  have hgood : ¬ (ds = [] ∨ pageEntries < ds.length ∨
      leNat ((src.drop 4).take 8) % pageEntries ≠ 0) := by
    rintro (rfl | hbig | hodd)
    · exact hsome hds.symm
    · exact Nat.not_lt.mpr hmax (hds ▸ hbig)
    · exact hodd haligned
  rw [encodeLeaf, if_neg hgood, hds, htable, leBytes_field (by omega), leBytes_field (by omega)]
  refine congrArg some ?_
  conv_rhs =>
    rw [← List.take_append_drop 4 src, hmagic, drop_eq_field src (show 4 + 8 = 12 from rfl),
      drop_eq_field src (show 12 + 2 = 14 from rfl)]

/-- How many digests a leaf that is read has. -/
theorem count_of_decodeLeaf {src : Bytes} {leaf : LeafPage} (h : decodeLeaf src = some leaf) :
    leaf.count ≤ pageEntries := by
  unfold decodeLeaf at h
  split at h
  swap
  · cases h
  dsimp only at h
  split at h
  swap
  · cases h
  next hok =>
  cases Option.some.inj h
  show (src.drop 14).length / 32 ≤ _
  rw [List.length_drop, hok.2.2.2, Nat.add_sub_cancel_left, Nat.mul_div_cancel _ (by decide)]
  exact hok.2.1

/-! ## Products of 64 bits -/

/-- A product, if it has 64 bits. -/
def mul64 (a b : ℕ) : Option ℕ := if a * b < 2 ^ 64 then some (a * b) else none

/-- `select_depth`, by its products. -/
def selectDepth64 (sizeBytes extentSize : ℕ) : Option (Option ℕ) :=
  if sizeBytes = 0 ∨ extentSize = 0 ∨ maxExtentSize < extentSize then some none
  else do
    let one ← mul64 pageEntries extentSize
    if sizeBytes ≤ one then return some 1
    else
      let page ← mul64 pageEntries pageEntries
      let two ← mul64 page extentSize
      return if sizeBytes ≤ two then some 2 else none

/-- The largest volume with extents of a size (`max_volume_size`), by its products. -/
def maxVolumeSize64 (extentSize : ℕ) : Option ℕ := do
  let page ← mul64 pageEntries pageEntries
  mul64 page extentSize

/-- `child_span`, by its product. -/
def childSpan64 (extentSize depth : ℕ) : Option ℕ :=
  if depth = 1 then some extentSize else mul64 extentSize pageEntries

/-- `covers_exactly`, by its products; the second is asked for only behind the first. -/
def coversExactly64 (size span count : ℕ) : Option Bool :=
  if count < 1 then some false
  else do
    let below ← mul64 (count - 1) span
    if below < size then
      let all ← mul64 count span
      return decide (size ≤ all)
    else return false

/-- `leaf_fits`, by its products; a shift drops what has no room. -/
def leafFits64 (leaf : LeafPage) (child sizeBytes extentSize : ℕ) : Option Bool :=
  if leaf.firstIndex ≠ (child <<< 10) % 2 ^ 64 then some false
  else do
    let start ← mul64 leaf.firstIndex extentSize
    if sizeBytes ≤ start then return false
    else
      let covers ← coversExactly64 (sizeBytes - start) extentSize leaf.count
      if covers then return true
      else if leaf.count ≠ pageEntries then return false
      else
        let full ← mul64 pageEntries extentSize
        return decide (full < sizeBytes - start)

theorem mul64_eq (h : a * b < 2 ^ 64) : mul64 a b = some (a * b) := if_pos h

theorem selectDepth64_eq (sizeBytes extentSize : ℕ) :
    selectDepth64 sizeBytes extentSize = some (selectDepth sizeBytes extentSize) := by
  unfold selectDepth64 selectDepth
  by_cases hbad : sizeBytes = 0 ∨ extentSize = 0 ∨ maxExtentSize < extentSize
  · rw [if_pos hbad, if_pos hbad]
  have hmax : extentSize ≤ 61440 := Nat.not_lt.mp fun h => hbad (.inr (.inr h))
  have hone : pageEntries * extentSize < 2 ^ 64 := by
    rw [pageEntries]
    omega
  have htwo : pageEntries * pageEntries * extentSize < 2 ^ 64 := by
    rw [pageEntries]
    omega
  rw [if_neg hbad, if_neg hbad, mul64_eq hone, mul64_eq (by decide : pageEntries * pageEntries < 2 ^ 64)]
  show (if sizeBytes ≤ pageEntries * extentSize then some (some 1)
    else (mul64 (pageEntries * pageEntries) extentSize).bind fun two =>
      some (if sizeBytes ≤ two then some 2 else none)) = _
  rw [mul64_eq htwo, Option.bind_some]
  split <;> rfl

theorem coversExactly64_eq (h : count * span < 2 ^ 64) :
    coversExactly64 size span count = some (coversExactly size span count) := by
  have hbelow : (count - 1) * span < 2 ^ 64 :=
    (Nat.mul_le_mul_right span (Nat.sub_le count 1)).trans_lt h
  unfold coversExactly64 coversExactly
  by_cases hone : count < 1
  · rw [if_pos hone, decide_eq_false (Nat.not_le.mpr hone)]
    rfl
  rw [if_neg hone, mul64_eq hbelow, mul64_eq h, decide_eq_true (Nat.not_lt.mp hone)]
  show (if (count - 1) * span < size then some (decide (size ≤ count * span)) else some false) = _
  by_cases hlt : (count - 1) * span < size
  · rw [if_pos hlt, decide_eq_true hlt]
    rfl
  · rw [if_neg hlt, decide_eq_false hlt]
    rfl

theorem leafFits64_eq {leaf : LeafPage} {child : ℕ} (hes : extentSize ≤ maxExtentSize)
    (hcount : leaf.count ≤ pageEntries) (hchild : child < 2 ^ 38) :
    leafFits64 leaf child sizeBytes extentSize = some (leafFits leaf child sizeBytes extentSize) := by
  have hmax : extentSize ≤ 61440 := hes
  have hcnt : leaf.count ≤ 1024 := hcount
  have hshift : (child <<< 10) % 2 ^ 64 = child * pageEntries := by
    rw [Nat.shiftLeft_eq, pageEntries]
    omega
  unfold leafFits64 leafFits
  rw [hshift]
  dsimp only
  by_cases hfirst : leaf.firstIndex = child * pageEntries
  · have hstart : leaf.firstIndex * extentSize < 2 ^ 64 := by
      have hidx : leaf.firstIndex ≤ 2 ^ 48 := by
        rw [hfirst, pageEntries]
        omega
      calc leaf.firstIndex * extentSize ≤ 2 ^ 48 * 61440 := Nat.mul_le_mul hidx hmax
        _ < 2 ^ 64 := by decide
    have hcov : leaf.count * extentSize < 2 ^ 64 :=
      (Nat.mul_le_mul hcnt hmax).trans_lt (by decide)
    have hfull : pageEntries * extentSize < 2 ^ 64 :=
      (Nat.mul_le_mul_left pageEntries hmax).trans_lt (by decide)
    rw [if_neg (not_not.mpr hfirst), mul64_eq hstart, decide_eq_true hfirst]
    show (if sizeBytes ≤ leaf.firstIndex * extentSize then some false
      else (coversExactly64 (sizeBytes - leaf.firstIndex * extentSize) extentSize leaf.count).bind
        fun covers => if covers then some true
          else if leaf.count ≠ pageEntries then some false
          else (mul64 pageEntries extentSize).bind fun full =>
            some (decide (full < sizeBytes - leaf.firstIndex * extentSize))) = _
    rw [coversExactly64_eq hcov, mul64_eq hfull, Option.bind_some, Option.bind_some]
    by_cases hin : sizeBytes ≤ leaf.firstIndex * extentSize
    · rw [if_pos hin, decide_eq_false (Nat.not_lt.mpr hin)]
      rfl
    rw [if_neg hin, decide_eq_true (Nat.not_le.mp hin)]
    cases coversExactly (sizeBytes - leaf.firstIndex * extentSize) extentSize leaf.count with
    | true => rfl
    | false =>
      by_cases hpage : leaf.count = pageEntries
      · rw [if_neg Bool.false_ne_true, if_neg (not_not.mpr hpage), beq_iff_eq.mpr hpage]
        rfl
      · rw [if_neg Bool.false_ne_true, if_pos hpage, beq_eq_false_iff_ne.mpr hpage]
        rfl
  · rw [if_pos hfirst, decide_eq_false hfirst]
    rfl

/-! ## The codec and its geometry -/

/-- The pages of a volume's map, and the volumes they are of. -/
structure MapExact : Prop where
  /-- A root that is written is read back, each child at its index. -/
  root : ∀ (volumeId : VolumeId) (sizeBytes extentSize : ℕ) (children : List Digest) (page : Bytes),
    sizeBytes < 2 ^ 64 → encodeRoot volumeId sizeBytes extentSize children = some page →
    ∃ depth, selectDepth sizeBytes extentSize = some depth ∧
      decodeRoot page = some ⟨volumeId, sizeBytes, extentSize, depth, digestTable children⟩ ∧
      ∀ i, digestAt (digestTable children) i = children[i]?
  readRoot : ∀ (page : Bytes) (r : RootPage), decodeRoot page = some r →
    ∃ cs : List Digest, digestTable cs = r.children ∧
      encodeRoot r.volumeId r.sizeBytes r.extentSize cs = some page
  leaf : ∀ (firstIndex : ℕ) (digests : List Digest) (page : Bytes), firstIndex < 2 ^ 64 →
    encodeLeaf firstIndex digests = some page →
    decodeLeaf page = some ⟨firstIndex, digestTable digests⟩
  readLeaf : ∀ (page : Bytes) (l : LeafPage), decodeLeaf page = some l →
    ∃ ds : List Digest, digestTable ds = l.digests ∧ encodeLeaf l.firstIndex ds = some page

/-- A volume that a map can describe. -/
structure VolumeExact (sizeBytes extentSize depth : ℕ) : Prop where
  /-- A root is written with the children of the geometry, and with no others. -/
  children : ∀ (volumeId : VolumeId) (cs : List Digest),
    (encodeRoot volumeId sizeBytes extentSize cs).isSome ↔
      cs.length = childCount depth sizeBytes extentSize
  places : Set.BijOn (locate depth) (Set.Iio (extents sizeBytes extentSize))
    (places depth sizeBytes extentSize)
  /-- A leaf that is read fits a child when it is the geometry's. -/
  leaves : ∀ (page : Bytes) (leaf : LeafPage) (child : ℕ), decodeLeaf page = some leaf →
    child < 2 ^ 38 →
    leafFits64 leaf child sizeBytes extentSize = some (decide
      (child < childCount 2 sizeBytes extentSize ∧ leaf.firstIndex = child * pageEntries ∧
        leaf.count = slotCount 2 sizeBytes extentSize child))
  /-- No product of 64 bits overflows, for as many children as a buffer can have. -/
  products : childSpan64 extentSize depth = some (childSpan extentSize depth) ∧
    ∀ count ≤ 2 ^ 38, coversExactly64 sizeBytes (childSpan extentSize depth) count =
      some (coversExactly sizeBytes (childSpan extentSize depth) count)

/-- **The codec of a volume's map is canonical, and its geometry a bijection**: the
pages are read back and written back, every extent of a volume has one place in its
map and every place one extent, a leaf fits where it is the geometry's, and no product
overflows. -/
theorem volume_map_exact :
    MapExact ∧ (∀ sizeBytes extentSize,
      selectDepth64 sizeBytes extentSize = some (selectDepth sizeBytes extentSize)) ∧
      (∀ extentSize < 2 ^ 32,
        maxVolumeSize64 extentSize = some (pageEntries * pageEntries * extentSize)) ∧
      ∀ sizeBytes extentSize depth, selectDepth sizeBytes extentSize = some depth →
        VolumeExact sizeBytes extentSize depth := by
  refine ⟨⟨fun vid size es cs page hsize h => ?_, fun page r h => encodeRoot_of_decodeRoot h,
    fun first ds page hfirst h => decodeLeaf_encodeLeaf hfirst h,
    fun page l h => encodeLeaf_of_decodeLeaf h⟩, selectDepth64_eq, fun es hes => ?_,
    fun size es depth h => ?_⟩
  · cases hd : selectDepth size es with
    | none =>
      rw [encodeRoot, hd] at h
      cases h
    | some depth =>
      exact ⟨depth, rfl, decodeRoot_encodeRoot hsize hd h, digestAt_digestTable cs⟩
  · rw [maxVolumeSize64, mul64_eq (by decide : pageEntries * pageEntries < 2 ^ 64)]
    refine mul64_eq ?_
    rw [pageEntries]
    omega
  · obtain ⟨hes, hmax, -, -⟩ := selectDepth_cases h
    have hmax' : es ≤ 61440 := hmax
    have hspan : es * pageEntries < 2 ^ 64 := by
      rw [pageEntries]
      omega
    have hchild : childSpan es depth ≤ 61440 * 1024 := by
      unfold childSpan
      split
      · omega
      · exact Nat.mul_le_mul_right 1024 hmax'
    refine ⟨fun vid cs => ?_, locate_bijOn depth size es, fun page leaf child hl hc => ?_, ?_,
      fun count hcount => coversExactly64_eq ?_⟩
    · rw [encodeRoot, h, Option.bind_some, ← covers_childCount h]
      split
      · next hcov => exact ⟨fun _ => hcov, fun _ => rfl⟩
      · next hnot => exact ⟨fun hs => Bool.noConfusion hs, fun hcov => absurd hcov hnot⟩
    · have hcnt := count_of_decodeLeaf hl
      rw [leafFits64_eq hmax hcnt hc]
      refine congrArg some (Bool.eq_iff_iff.mpr ?_)
      rw [leafFits_iff h hcnt, decide_eq_true_eq]
    · unfold childSpan64 childSpan
      split
      · rfl
      · exact mul64_eq hspan
    · calc count * childSpan es depth ≤ 2 ^ 38 * (61440 * 1024) := Nat.mul_le_mul hcount hchild
        _ < 2 ^ 64 := by decide

end Loam

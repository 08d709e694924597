import Loam.BodyWire
import Loam.LittleEndian

/-!
# The extent map of a block volume

A volume is a copy-on-write map of content-addressed extents, and the map is
itself made of bodies: a root page whose children are the extents, or leaf
pages of extents. The zero digest means never written and reads as zeros.
Decoding is strict: a page that does not describe exactly one geometry is
refused. The second half of this module says what a map means: the byte a
position of the volume holds under the root that a digest names.
-/

namespace Loam

/-- Digests in a map page (`PAGE_ENTRIES`). -/
def pageEntries : ℕ := 1024

/-- The largest extent (`MAX_EXTENT_SIZE`). -/
def maxExtentSize : ℕ := 61440

/-- The sixteen bytes that name a volume. -/
abbrev VolumeId := { b : Bytes // b.length = 16 }

/-! ## Geometry -/

/-- The smallest depth whose map covers a volume (`select_depth`). -/
def selectDepth (sizeBytes extentSize : ℕ) : Option ℕ :=
  if sizeBytes = 0 ∨ extentSize = 0 ∨ maxExtentSize < extentSize then none
  else if sizeBytes ≤ pageEntries * extentSize then some 1
  else if sizeBytes ≤ pageEntries * pageEntries * extentSize then some 2
  else none

/-- The bytes a root's child covers (`child_span`). -/
def childSpan (extentSize depth : ℕ) : ℕ :=
  if depth = 1 then extentSize else extentSize * pageEntries

/-- The children cover the size, and every one is needed (`covers_exactly`). -/
def coversExactly (size span count : ℕ) : Bool :=
  decide (1 ≤ count) && decide ((count - 1) * span < size) && decide (size ≤ count * span)

/-! ## Pages -/

/-- A run of digests, as bytes. -/
def digestTable (ds : List Digest) : Bytes := ds.flatMap fun d => d.val

/-- One digest of a table (`digest_at`). -/
def digestAt (table : Bytes) (i : ℕ) : Option Digest :=
  if h : ((table.drop (i * 32)).take 32).length = 32 then some ⟨(table.drop (i * 32)).take 32, h⟩
  else none

/-- A decoded root page. -/
structure RootPage where
  volumeId : VolumeId
  sizeBytes : ℕ
  extentSize : ℕ
  depth : ℕ
  children : Bytes

/-- How many children a root has. -/
def RootPage.count (p : RootPage) : ℕ := p.children.length / 32

/-- One child of a root. -/
def RootPage.child (p : RootPage) (i : ℕ) : Option Digest := digestAt p.children i

/-- A decoded leaf page. -/
structure LeafPage where
  firstIndex : ℕ
  digests : Bytes

/-- How many extents a leaf covers. -/
def LeafPage.count (p : LeafPage) : ℕ := p.digests.length / 32

/-- The digest of one extent of a leaf. -/
def LeafPage.digest (p : LeafPage) (i : ℕ) : Option Digest := digestAt p.digests i

/-- `"LVMR"`. -/
def rootMagic : Bytes := [0x4c, 0x56, 0x4d, 0x52]

/-- `"LVML"`. -/
def leafMagic : Bytes := [0x4c, 0x56, 0x4d, 0x4c]

/-- A root page (`encode_root`). -/
def encodeRoot (volumeId : VolumeId) (sizeBytes extentSize : ℕ) (children : List Digest) :
    Option Bytes :=
  (selectDepth sizeBytes extentSize).bind fun depth =>
    if coversExactly sizeBytes (childSpan extentSize depth) children.length then
      some (rootMagic ++ (volumeId.val ++ (leBytes 8 sizeBytes ++ (leBytes 4 extentSize ++
        (UInt8.ofNat depth :: 0 :: (leBytes 2 children.length ++ digestTable children))))))
    else none

/-- A root page read back (`decode_root`). -/
def decodeRoot (src : Bytes) : Option RootPage :=
  if h : 36 ≤ src.length ∧ src.take 4 = rootMagic then
    let sizeBytes := leNat ((src.drop 20).take 8)
    let extentSize := leNat ((src.drop 28).take 4)
    let depth := (src.getD 32 0).toNat
    let count := leNat ((src.drop 34).take 2)
    if src.getD 33 0 = 0 ∧ selectDepth sizeBytes extentSize = some depth ∧ count ≤ pageEntries ∧
        coversExactly sizeBytes (childSpan extentSize depth) count ∧ src.length = 36 + count * 32 then
      some
        { volumeId := ⟨(src.drop 4).take 16, by rw [List.length_take, List.length_drop]; omega⟩
          sizeBytes := sizeBytes
          extentSize := extentSize
          depth := depth
          children := src.drop 36 }
    else none
  else none

/-- A leaf page (`encode_leaf`). -/
def encodeLeaf (firstIndex : ℕ) (digests : List Digest) : Option Bytes :=
  if digests = [] ∨ pageEntries < digests.length ∨ firstIndex % pageEntries ≠ 0 then none
  else some (leafMagic ++ (leBytes 8 firstIndex ++ (leBytes 2 digests.length ++ digestTable digests)))

/-- A leaf page read back (`decode_leaf`). -/
def decodeLeaf (src : Bytes) : Option LeafPage :=
  if 14 ≤ src.length ∧ src.take 4 = leafMagic then
    let firstIndex := leNat ((src.drop 4).take 8)
    let count := leNat ((src.drop 12).take 2)
    if count ≠ 0 ∧ count ≤ pageEntries ∧ firstIndex % pageEntries = 0 ∧
        src.length = 14 + count * 32 then
      some ⟨firstIndex, src.drop 14⟩
    else none
  else none

/-- A leaf is exactly one child of a map over the volume (`leaf_fits`). -/
def leafFits (leaf : LeafPage) (child sizeBytes extentSize : ℕ) : Bool :=
  let start := leaf.firstIndex * extentSize
  decide (leaf.firstIndex = child * pageEntries) && decide (start < sizeBytes) &&
    (coversExactly (sizeBytes - start) extentSize leaf.count ||
      (leaf.count == pageEntries && decide (pageEntries * extentSize < sizeBytes - start)))

/-! ## Reading a page back -/

theorem length_digestTable (ds : List Digest) : (digestTable ds).length = ds.length * 32 := by
  induction ds with
  | nil => rfl
  | cons d ds ih =>
    show (d.val ++ digestTable ds).length = _
    rw [List.length_append, ih, d.property, List.length_cons]
    ring

theorem digestAt_digestTable (ds : List Digest) (i : ℕ) : digestAt (digestTable ds) i = ds[i]? := by
  induction ds generalizing i with
  | nil =>
    unfold digestAt
    simp [digestTable]
  | cons d ds ih =>
    have htable : digestTable (d :: ds) = d.val ++ digestTable ds := rfl
    unfold digestAt at ih ⊢
    cases i with
    | zero =>
      have hhead : ((digestTable (d :: ds)).drop (0 * 32)).take 32 = d.val := by
        rw [htable, Nat.zero_mul, List.drop_zero, List.take_left' d.property]
      rw [dif_pos (by rw [hhead, d.property]), List.getElem?_cons_zero]
      exact congrArg some (Subtype.ext hhead)
    | succ i =>
      have htail : (digestTable (d :: ds)).drop ((i + 1) * 32) = (digestTable ds).drop (i * 32) := by
        rw [htable, Nat.succ_mul, Nat.add_comm, ← List.drop_drop, List.drop_left' d.property]
      rw [List.getElem?_cons_succ, ← ih i]
      simp only [htail]

theorem selectDepth_cases {sizeBytes extentSize depth : ℕ}
    (h : selectDepth sizeBytes extentSize = some depth) :
    0 < extentSize ∧ extentSize ≤ maxExtentSize ∧ 0 < sizeBytes ∧
      (depth = 1 ∧ sizeBytes ≤ pageEntries * extentSize ∨
        depth = 2 ∧ sizeBytes ≤ pageEntries * pageEntries * extentSize) := by
  unfold selectDepth at h
  split at h
  · cases h
  next hok =>
  push Not at hok
  refine ⟨Nat.pos_of_ne_zero hok.2.1, hok.2.2, Nat.pos_of_ne_zero hok.1, ?_⟩
  split at h
  next hone => exact .inl ⟨(Option.some.inj h).symm, hone⟩
  split at h
  next htwo => exact .inr ⟨(Option.some.inj h).symm, htwo⟩
  · cases h

theorem coversExactly_iff {size span count : ℕ} :
    coversExactly size span count = true ↔
      1 ≤ count ∧ (count - 1) * span < size ∧ size ≤ count * span := by
  simp [coversExactly, and_assoc]

/-- A root has at most a page of children. -/
theorem count_le_pageEntries {sizeBytes extentSize depth count : ℕ}
    (hd : selectDepth sizeBytes extentSize = some depth)
    (hc : coversExactly sizeBytes (childSpan extentSize depth) count = true) :
    count ≤ pageEntries := by
  obtain ⟨-, hlt, -⟩ := coversExactly_iff.mp hc
  obtain ⟨hes, -, -, ⟨rfl, hle⟩ | ⟨rfl, hle⟩⟩ := selectDepth_cases hd
  · rw [childSpan, if_pos rfl] at hlt
    have := Nat.lt_of_mul_lt_mul_right (Nat.lt_of_lt_of_le hlt hle)
    omega
  · rw [childSpan, if_neg (by decide)] at hlt
    have hspan : pageEntries * pageEntries * extentSize = pageEntries * (extentSize * pageEntries) := by
      ring
    have := Nat.lt_of_mul_lt_mul_right (Nat.lt_of_lt_of_le hlt (hspan ▸ hle))
    omega

section Fields

variable {a b : Bytes} {n k : ℕ}

theorem drop_field (page : Bytes) (ha : a.length = k) (h : page.drop n = a ++ b) :
    page.drop (n + k) = b := by
  rw [← List.drop_drop, h, List.drop_left' ha]

theorem take_field {page : Bytes} (h : page.drop n = a ++ b) (ha : a.length = k) :
    (page.drop n).take k = a := by
  rw [h, List.take_left' ha]

theorem getD_of_drop {page : Bytes} (h : page.drop n = a) (i : ℕ) (x : UInt8) :
    page.getD (n + i) x = a.getD i x := by
  rw [← h, List.getD_eq_getElem?_getD, List.getD_eq_getElem?_getD, List.getElem?_drop]

end Fields

/-- **A root page reads back as what was written.** -/
theorem decodeRoot_encodeRoot {volumeId : VolumeId} {sizeBytes extentSize depth : ℕ}
    {children : List Digest} {page : Bytes} (hsize : sizeBytes < 256 ^ 8)
    (hdepth : selectDepth sizeBytes extentSize = some depth)
    (h : encodeRoot volumeId sizeBytes extentSize children = some page) :
    decodeRoot page = some ⟨volumeId, sizeBytes, extentSize, depth, digestTable children⟩ := by
  rw [encodeRoot, hdepth, Option.bind_some] at h
  split at h
  swap
  · cases h
  next hcov =>
  have hcount := count_le_pageEntries hdepth hcov
  obtain ⟨-, hes, -, hd⟩ := selectDepth_cases hdepth
  have hd' : (UInt8.ofNat depth).toNat = depth := by
    obtain ⟨rfl, -⟩ | ⟨rfl, -⟩ := hd <;> rfl
  have hsz : leNat (leBytes 8 sizeBytes) = sizeBytes := leNat_leBytes hsize
  have hext : leNat (leBytes 4 extentSize) = extentSize :=
    leNat_leBytes (Nat.lt_of_le_of_lt hes (by decide))
  have hcnt : leNat (leBytes 2 children.length) = children.length :=
    leNat_leBytes (Nat.lt_of_le_of_lt hcount (by decide))
  generalize htable : digestTable children = table at h
  have hlen : table.length = children.length * 32 := htable ▸ length_digestTable children
  cases Option.some.inj h
  generalize hpage : rootMagic ++ _ = page
  -- the fields, from the front
  have h4 : page.drop 4 = _ := hpage ▸ List.drop_left' rfl
  have h20 : page.drop 20 = _ := drop_field page volumeId.property h4
  have h28 : page.drop 28 = _ := drop_field page (length_leBytes 8 sizeBytes) h20
  have h32 : page.drop 32 = [UInt8.ofNat depth, 0] ++ _ :=
    drop_field page (length_leBytes 4 extentSize) h28
  have h34 : page.drop 34 = _ := drop_field page rfl h32
  have h36 : page.drop 36 = table := drop_field page (length_leBytes 2 children.length) h34
  have hdep : (page.getD 32 0).toNat = depth := by
    rw [getD_of_drop h32 0 0]
    exact hd'
  have hlength : page.length = 36 + children.length * 32 := by
    rw [← hpage]
    simp only [List.length_append, List.length_cons, length_leBytes, volumeId.property, hlen]
    show 4 + _ = _
    omega
  have hmagic : page.take 4 = rootMagic := hpage ▸ List.take_left' rfl
  have hgood : page.getD 33 0 = 0 ∧ selectDepth sizeBytes extentSize = some depth ∧
      children.length ≤ pageEntries ∧
      coversExactly sizeBytes (childSpan extentSize depth) children.length = true ∧
      page.length = 36 + children.length * 32 :=
    ⟨by rw [getD_of_drop h32 1 0]; rfl, hdepth, hcount, hcov, hlength⟩
  unfold decodeRoot
  rw [dif_pos ⟨by omega, hmagic⟩, take_field h20 (length_leBytes 8 sizeBytes),
    take_field h28 (length_leBytes 4 extentSize), take_field h34 (length_leBytes 2 children.length),
    hsz, hext, hcnt, hdep]
  dsimp only
  rw [if_pos hgood, h36]
  refine congrArg some ?_
  congr 1
  exact Subtype.ext (take_field h4 volumeId.property)

/-- **A leaf page reads back as what was written.** -/
theorem decodeLeaf_encodeLeaf {firstIndex : ℕ} {digests : List Digest} {page : Bytes}
    (hfirst : firstIndex < 256 ^ 8) (h : encodeLeaf firstIndex digests = some page) :
    decodeLeaf page = some ⟨firstIndex, digestTable digests⟩ := by
  unfold encodeLeaf at h
  split at h
  · cases h
  next hok =>
  push Not at hok
  obtain ⟨hne, hcount, hal⟩ := hok
  have hfst : leNat (leBytes 8 firstIndex) = firstIndex := leNat_leBytes hfirst
  have hcnt : leNat (leBytes 2 digests.length) = digests.length :=
    leNat_leBytes (Nat.lt_of_le_of_lt hcount (by decide))
  generalize htable : digestTable digests = table at h
  have hlen : table.length = digests.length * 32 := htable ▸ length_digestTable digests
  cases Option.some.inj h
  generalize hpage : leafMagic ++ _ = page
  have h4 : page.drop 4 = _ := hpage ▸ List.drop_left' rfl
  have h12 : page.drop 12 = _ := drop_field page (length_leBytes 8 firstIndex) h4
  have h14 : page.drop 14 = table := drop_field page (length_leBytes 2 digests.length) h12
  have hlength : page.length = 14 + digests.length * 32 := by
    rw [← hpage]
    simp only [List.length_append, length_leBytes, hlen]
    show 4 + _ = _
    omega
  have hmagic : page.take 4 = leafMagic := hpage ▸ List.take_left' rfl
  unfold decodeLeaf
  rw [if_pos ⟨by omega, hmagic⟩, take_field h4 (length_leBytes 8 firstIndex),
    take_field h12 (length_leBytes 2 digests.length), hfst, hcnt]
  dsimp only
  rw [if_pos ⟨fun h0 => hne (List.length_eq_zero_iff.mp h0), hcount, hal, hlength⟩, h14]

/-! ## What a map means

`body d` is the body that a digest names. -/

section Meaning

variable (body : Digest → Bytes)

/-- The byte at an offset of the extent a digest names. -/
def extentByte (d : Digest) (j : ℕ) : UInt8 :=
  if d = Digest.zero then 0 else (body d).getD j 0

/-- The digest of one extent of the leaf a digest names. -/
def leafDigest (sizeBytes extentSize : ℕ) (d : Digest) (child i : ℕ) : Digest :=
  if d = Digest.zero then Digest.zero
  else
    match decodeLeaf (body d) with
    | some leaf =>
      if leafFits leaf child sizeBytes extentSize then (leaf.digest i).getD Digest.zero
      else Digest.zero
    | none => Digest.zero

/-- The digest of an extent under children at a depth. -/
def mapDigest (sizeBytes extentSize depth : ℕ) (child : ℕ → Digest) (idx : ℕ) : Digest :=
  if depth = 1 then child idx
  else
    leafDigest body sizeBytes extentSize (child (idx / pageEntries)) (idx / pageEntries)
      (idx % pageEntries)

/-- The byte at a position of a volume whose extents' digests are given. -/
def imageOf (extentSize : ℕ) (digest : ℕ → Digest) (pos : ℕ) : UInt8 :=
  extentByte body (digest (pos / extentSize)) (pos % extentSize)

/-- The image of a volume under the root that a digest names. -/
def mapImage (d : Digest) (pos : ℕ) : UInt8 :=
  match decodeRoot (body d) with
  | some root =>
    imageOf body root.extentSize
      (mapDigest body root.sizeBytes root.extentSize root.depth
        fun c => (root.child c).getD Digest.zero) pos
  | none => 0

theorem extentByte_zero (j : ℕ) : extentByte body Digest.zero j = 0 := if_pos rfl

theorem leafDigest_zero (sizeBytes extentSize child i : ℕ) :
    leafDigest body sizeBytes extentSize Digest.zero child i = Digest.zero :=
  if_pos rfl

end Meaning

end Loam

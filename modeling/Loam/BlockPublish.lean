import Loam.BlockFetch
import Mathlib.Data.List.Perm.Subperm

/-!
# The map a commit binds

The digests the commit in flight is about to bind (`target`) are those of its
extents over the committed map's. When the extents are stored they name the
image as it is, and the pages put, the leaves and then the root, are the map of
those digests.
-/

namespace Loam

open CellStore

namespace BlockVolume

variable {body : Digest → Bytes} {N : ℕ} {s s' : BlockVolume} {n idx i : ℕ}

/-! ## The digests about to be bound -/

theorem Live.committing_unique (h : s.Live body N) (hf : s.Fixed) {j : ℕ} (hi : i < N) (hj : j < N)
    (hci : (s.slots i).committing = true) (hcj : (s.slots j).committing = true)
    (he : (s.slots i).idx = (s.slots j).idx) : i = j := by
  have hsi := (h.commit.same hf i hi).mp hci
  have hsj := (h.commit.same hf j hj).mp hcj
  exact h.slots.uniq i hi j hj (by rw [hsi]; nofun) (by rw [hsj]; nofun) he

theorem Live.target_of_committing (h : s.Live body N) (hf : s.Fixed) (hi : i < N)
    (hc : (s.slots i).committing = true) : s.target body N (s.slots i).idx = (s.slots i).digest := by
  unfold target
  refine foldl_put_of_mem (fun j => (s.slots j).committing = true) (fun j => (s.slots j).idx)
    (fun j => (s.slots j).digest) (List.mem_range.mpr hi) hc fun j hj hcj he => ?_
  rw [h.committing_unique hf (List.mem_range.mp hj) hi hcj hc he]

theorem target_of_not_committing
    (h : ∀ i < N, (s.slots i).committing = true → (s.slots i).idx ≠ idx) :
    s.target body N idx = s.committed body idx := by
  unfold target
  exact foldl_put_of_forall_ne fun j hj hc => h j (List.mem_range.mp hj) hc

theorem Stored.fixed (h : s.Stored) : s.Fixed := by
  unfold Stored at h
  unfold Fixed
  obtain h | h | h := h <;> rw [h] <;> exact ⟨nofun, nofun⟩

/-- **The digests about to be bound name the image as it is.** -/
theorem Live.target_image (h : s.Live body N) (hst : s.Stored) {pos : ℕ} (hpos : pos < s.sizeBytes) :
    imageOf body s.extentSize (s.target body N) pos = s.now body pos := by
  obtain ⟨hx, hj, hdm⟩ := h.geo.position hpos
  have hf := hst.fixed
  unfold imageOf
  by_cases hc : ∃ i < N, (s.slots i).committing = true ∧ (s.slots i).idx = pos / s.extentSize
  · obtain ⟨i, hi, hci, he⟩ := hc
    have hlen : pos % s.extentSize < s.extentLen (s.slots i).idx := by rwa [he]
    rw [← he, h.target_of_committing hf hi hci, h.commit.stored hst i hi hci _ hlen,
      h.slots.holds i hi (.inr ((h.commit.same hf i hi).mp hci)) _ hlen, he, hdm]
  push Not at hc
  have hbare := h.slots.bare _ hx (fun i hi hs => hc i hi ((h.commit.same hf i hi).mpr hs)) _ hj
  rw [hdm] at hbare
  rw [target_of_not_committing hc]
  exact hbare

/-! ## The leaf pages -/

theorem lt_leafLen (hx : idx < s.extentCount) :
    idx % pageEntries < s.leafLen (idx / pageEntries) := by
  have hmod : idx % pageEntries < pageEntries := Nat.mod_lt _ (by decide)
  have hdm : idx / pageEntries * pageEntries + idx % pageEntries = idx := Nat.div_add_mod' idx _
  exact Nat.lt_min.mpr ⟨by omega, hmod⟩

theorem leafLen_le (child : ℕ) : s.leafLen child ≤ pageEntries := Nat.min_le_right _ _

theorem div_mod_page (child : ℕ) (hi : i < pageEntries) :
    (child * pageEntries + i) / pageEntries = child ∧ (child * pageEntries + i) % pageEntries = i := by
  have hpos : 0 < pageEntries := by decide
  constructor
  · rw [Nat.mul_comm, Nat.mul_add_div hpos, Nat.div_eq_of_lt hi, Nat.add_zero]
  · rw [Nat.mul_comm, Nat.mul_add_mod, Nat.mod_eq_of_lt hi]

/-- **A leaf with the commit's extents over it has the digests about to be
bound.** -/
theorem Live.overLeaf_eq (h : s.Live body N) (hf : s.Fixed) (hd : s.depth ≠ 1) {child : ℕ}
    {data : ℕ → Digest} (hl : s.LeafIs body child data) (hi : i < s.leafLen child) :
    s.overLeaf N child data i = s.target body N (child * pageEntries + i) := by
  have hip : i < pageEntries := Nat.lt_of_lt_of_le hi (leafLen_le child)
  obtain ⟨hdiv, hmod⟩ := div_mod_page child hip
  unfold overLeaf
  by_cases hc : ∃ j < N, (s.slots j).committing = true ∧ (s.slots j).idx = child * pageEntries + i
  · obtain ⟨j, hj, hcj, he⟩ := hc
    rw [← he, h.target_of_committing hf hj hcj]
    have hput := foldl_put_of_mem (f := data)
      (fun j => (s.slots j).committing = true ∧ (s.slots j).idx / pageEntries = child)
      (fun j => (s.slots j).idx % pageEntries) (fun j => (s.slots j).digest)
      (List.mem_range.mpr hj) ⟨hcj, by rw [he, hdiv]⟩ fun k hk hck hek => ?_
    · rw [he, hmod] at hput
      exact hput
    · have hdmk := Nat.div_add_mod' (s.slots k).idx pageEntries
      have hdmj := Nat.div_add_mod' (s.slots j).idx pageEntries
      rw [hck.2, hek] at hdmk
      rw [he, hdiv, hmod] at hdmj
      rw [he, hmod] at hdmk
      rw [h.committing_unique hf (List.mem_range.mp hk) hj hck.1 hcj (by omega)]
  · push Not at hc
    rw [target_of_not_committing hc, committed, mapDigest, if_neg hd, hdiv, hmod, ← hl i hi]
    refine foldl_put_of_forall_ne fun j hj hcj hek => hc j (List.mem_range.mp hj) hcj.1 ?_
    have hdmj := Nat.div_add_mod' (s.slots j).idx pageEntries
    rw [hcj.2, hek] at hdmj
    exact hdmj.symm

/-- The children of a root at depth two are pages. -/
theorem Geometry.depth_cases (geo : s.Geometry) :
    s.depth = 1 ∧ s.sizeBytes ≤ pageEntries * s.extentSize ∨
      s.depth = 2 ∧ s.sizeBytes ≤ pageEntries * pageEntries * s.extentSize :=
  (selectDepth_cases geo.depth).2.2.2

/-- **A leaf page put names the digests about to be bound.** -/
theorem Live.leafNamed_of_page (h : s.Live body N) {child : ℕ} {d : Digest} {page : Bytes}
    (hchild : child * pageEntries < s.extentCount) (hz : d ≠ Digest.zero) (hb : body d = page)
    (hpage : encodeLeaf (child * pageEntries) ((List.range (s.leafLen child)).map fun i =>
      s.target body N (child * pageEntries + i)) = some page) : s.LeafNamed body N child d := by
  have hes := h.geo.pos
  have hstart : child * pageEntries * s.extentSize < s.sizeBytes := h.geo.lt_extentCount.mp hchild
  have hfirst : child * pageEntries < 256 ^ 8 := by
    refine Nat.lt_of_le_of_lt ?_ (hstart.trans h.geo.fits)
    exact Nat.le_mul_of_pos_right _ hes
  have hdec := decodeLeaf_encodeLeaf hfirst hpage
  have hcount : (LeafPage.mk (child * pageEntries) (digestTable ((List.range (s.leafLen child)).map
      fun i => s.target body N (child * pageEntries + i)))).count = s.leafLen child := by
    unfold LeafPage.count
    rw [length_digestTable, List.length_map, List.length_range]
    exact Nat.mul_div_cancel _ (by decide)
  have hfit : leafFits (LeafPage.mk (child * pageEntries) (digestTable
      ((List.range (s.leafLen child)).map fun i => s.target body N (child * pageEntries + i)))) child
      s.sizeBytes s.extentSize = true := by
    unfold leafFits
    rw [hcount]
    have hlen : s.leafLen child = min (s.extentCount - child * pageEntries) pageEntries := rfl
    have hcnt (k : ℕ) : child * pageEntries + k < s.extentCount ↔
        (child * pageEntries + k) * s.extentSize < s.sizeBytes := h.geo.lt_extentCount
    have hsplit (k : ℕ) : (child * pageEntries + k) * s.extentSize
        = child * pageEntries * s.extentSize + k * s.extentSize := Nat.add_mul _ _ _
    simp only [decide_true, Bool.true_and, hstart, decide_eq_true_eq, Bool.or_eq_true,
      Bool.and_eq_true, beq_iff_eq, coversExactly_iff]
    by_cases hlast : s.extentCount - child * pageEntries ≤ pageEntries
    · left
      have hle : s.leafLen child = s.extentCount - child * pageEntries := by omega
      have h1 := (hcnt (s.leafLen child - 1)).mp (by omega)
      have h2 := (hcnt (s.leafLen child)).not.mp (by omega)
      rw [hsplit] at h1 h2
      omega
    · right
      have hle : s.leafLen child = pageEntries := by omega
      have h1 := (hcnt pageEntries).mp (by omega)
      rw [hsplit] at h1
      omega
  intro i hi
  unfold leafDigest
  rw [if_neg hz, hb, hdec]
  dsimp only
  rw [if_pos hfit]
  unfold LeafPage.digest
  rw [digestAt_digestTable, List.getElem?_map, List.getElem?_range hi]
  rfl

/-- Leaves that have committing extents are no more than can be staged. -/
theorem Live.length_le_stagedMax (h : s.Live body N) (hf : s.Fixed) {keys : List ℕ}
    (hn : keys.Nodup)
    (hk : ∀ c ∈ keys, ∃ i < N, (s.slots i).committing = true ∧ (s.slots i).idx / pageEntries = c) :
    keys.length ≤ stagedMax N := by
  have hsub : keys ⊆ ((List.range N).filter fun i => (s.slots i).state == .staged).map
      fun i => (s.slots i).idx / pageEntries := by
    intro c hc
    obtain ⟨i, hi, hci, he⟩ := hk c hc
    refine List.mem_map.mpr ⟨i, List.mem_filter.mpr ⟨List.mem_range.mpr hi, ?_⟩, he⟩
    exact beq_iff_eq.mpr ((h.commit.same hf i hi).mp hci)
  have hlen := (List.subperm_of_subset hn hsub).length_le
  rw [List.length_map, ← List.countP_eq_length_filter, ← h.slots.count] at hlen
  exact hlen.trans h.room

theorem Live.leafNew_take (h : s.Live body N) (hst : s.Stored) (hd : s.depth = 2) :
    s.leafNew.take (stagedMax N) = s.leafNew := by
  obtain ⟨hn, hk⟩ := h.commit.keys hst hd
  have hlen := h.length_le_stagedMax hst.fixed hn fun c hc => by
    obtain ⟨l, hl, rfl⟩ := List.mem_map.mp hc
    exact (hk l hl).1
  rw [List.length_map] at hlen
  exact List.take_of_length_le hlen

/-- Leaves put over a root's children: a leaf has its new page, or is the
committed one. -/
theorem foldl_leaves {leaves : List (ℕ × Digest)} (hn : (leaves.map Prod.fst).Nodup) {cnt c : ℕ}
    (hc : c < cnt) (f : ℕ → Digest) :
    (∃ l ∈ leaves, l.1 = c ∧
        (leaves.foldl (fun f l => if l.1 < cnt then put f l.1 l.2 else f) f) c = l.2) ∨
      c ∉ leaves.map Prod.fst ∧
        (leaves.foldl (fun f l => if l.1 < cnt then put f l.1 l.2 else f) f) c = f c := by
  by_cases hmem : c ∈ leaves.map Prod.fst
  · obtain ⟨l, hl, rfl⟩ := List.mem_map.mp hmem
    refine .inl ⟨l, hl, rfl, ?_⟩
    refine foldl_put_of_mem (fun l : ℕ × Digest => l.1 < cnt) Prod.fst Prod.snd hl hc fun b hb _ he => ?_
    rw [List.inj_on_of_nodup_map hn hb hl he]
  · refine .inr ⟨hmem, foldl_put_of_forall_ne fun b hb _ he => hmem ?_⟩
    exact List.mem_map.mpr ⟨b, hb, he⟩

/-- Every leaf that a commit touches has its new page. -/
def LeavesDone (N : ℕ) (s : BlockVolume) : Prop :=
  ∀ i < N, (s.slots i).committing = true → (s.slots i).idx / pageEntries ∈ s.leafNew.map Prod.fst

/-- **The leaves of the root about to be bound** have the digests about to be
bound. -/
theorem Live.leafNamed_child (h : s.Live body N) (hst : s.Stored) (hd : s.depth = 2)
    (hall : s.LeavesDone N) {c : ℕ} {d : Digest}
    (hc : (∃ l ∈ s.leafNew, l.1 = c ∧ d = l.2) ∨ c ∉ s.leafNew.map Prod.fst ∧ d = s.children c) :
    s.LeafNamed body N c d := by
  obtain ⟨l, hl, rfl, rfl⟩ | ⟨hno, rfl⟩ := hc
  · exact ((h.commit.keys hst hd).2 l hl).2
  · intro i hi
    have hip : i < pageEntries := Nat.lt_of_lt_of_le hi (leafLen_le c)
    obtain ⟨hdiv, hmod⟩ := div_mod_page c hip
    rw [target_of_not_committing fun j hj hcj he => hno ?_]
    · rw [committed, mapDigest, if_neg (by rw [hd]; decide), hdiv, hmod]
    · have := hall j hj hcj
      rwa [he, hdiv] at this

/-! ## The root page -/

theorem Geometry.childrenCount_le (geo : s.Geometry) : s.childrenCount ≤ pageEntries :=
  count_le_pageEntries geo.depth geo.covers

theorem Geometry.child_lt (geo : s.Geometry) (hx : idx < s.extentCount) :
    (if s.depth = 1 then idx else idx / pageEntries) < s.childrenCount := by
  have hes := geo.pos
  have hlt := geo.lt_extentCount.mp hx
  obtain ⟨-, -, hle⟩ := coversExactly_iff.mp geo.covers
  unfold childSpan at hle
  split
  next hd =>
    rw [if_pos hd] at hle
    exact Nat.lt_of_mul_lt_mul_right (hlt.trans_le hle)
  next hd =>
    rw [if_neg hd, ← Nat.mul_assoc, Nat.mul_right_comm] at hle
    rw [Nat.div_lt_iff_lt_mul (by decide)]
    exact Nat.lt_of_mul_lt_mul_right (hlt.trans_le hle)

theorem mapDigest_congr {sizeBytes extentSize depth : ℕ} {f g : ℕ → Digest}
    (h : f (if depth = 1 then idx else idx / pageEntries)
      = g (if depth = 1 then idx else idx / pageEntries)) :
    mapDigest body sizeBytes extentSize depth f idx = mapDigest body sizeBytes extentSize depth g idx := by
  unfold mapDigest
  split
  next hd =>
    rw [if_pos hd] at h
    exact h
  next hd =>
    rw [if_neg hd] at h
    rw [h]

/-- The children of a root at depth one, with the commit's extents over them. -/
theorem Live.overExtents_eq (h : s.Live body N) (hf : s.Fixed) (hd : s.depth = 1) {cnt : ℕ}
    (hlt : idx < cnt) : s.overExtents N cnt s.children idx = s.target body N idx := by
  unfold overExtents
  by_cases hc : ∃ j < N, (s.slots j).committing = true ∧ (s.slots j).idx = idx
  · obtain ⟨j, hj, hcj, rfl⟩ := hc
    rw [h.target_of_committing hf hj hcj]
    refine foldl_put_of_mem (fun j => (s.slots j).committing = true ∧ (s.slots j).idx < cnt)
      (fun j => (s.slots j).idx) (fun j => (s.slots j).digest) (List.mem_range.mpr hj) ⟨hcj, hlt⟩ fun k hk hck he => ?_
    rw [h.committing_unique hf (List.mem_range.mp hk) hj hck.1 hcj he]
  · push Not at hc
    rw [target_of_not_committing hc, committed, mapDigest, if_pos hd]
    exact foldl_put_of_forall_ne fun j hj hcj => hc j (List.mem_range.mp hj) hcj.1

/-- **The children of the root about to be bound are a map of the digests
about to be bound.** -/
theorem Live.newChildren_map (h : s.Live body N) (hst : s.Stored)
    (hall : s.depth = 2 → s.LeavesDone N) (hx : idx < s.extentCount) :
    mapDigest body s.sizeBytes s.extentSize s.depth (s.newChildren N) idx = s.target body N idx := by
  have hcnt : min s.childrenCount pageEntries = s.childrenCount := Nat.min_eq_left h.geo.childrenCount_le
  have hlt := h.geo.child_lt hx
  obtain ⟨hd, -⟩ | ⟨hd, -⟩ := h.geo.depth_cases
  · rw [if_pos hd] at hlt
    rw [mapDigest, if_pos hd, newChildren, if_pos hd, hcnt]
    exact h.overExtents_eq hst.fixed hd hlt
  · have hd1 : s.depth ≠ 1 := by rw [hd]; decide
    rw [if_neg hd1] at hlt
    rw [mapDigest, if_neg hd1, newChildren, if_neg hd1, hcnt]
    unfold overLeaves
    rw [h.leafNew_take hst hd]
    have hchild := foldl_leaves (h.commit.keys hst hd).1 hlt s.children
    have hnamed := h.leafNamed_child hst hd (hall hd) hchild _ (lt_leafLen hx)
    rw [Nat.div_add_mod'] at hnamed
    exact hnamed

/-- **A root page put names the image as it is.** -/
theorem Live.newRoot_of_page (h : s.Live body N) (hst : s.Stored)
    (hall : s.depth = 2 → s.LeavesDone N) {d : Digest} {page : Bytes} (hb : body d = page)
    (hpage : encodeRoot s.volumeId s.sizeBytes s.extentSize
      ((List.range (min s.childrenCount pageEntries)).map (s.newChildren N)) = some page) {pos : ℕ}
    (hpos : pos < s.sizeBytes) : mapImage body d pos = s.now body pos := by
  have hdec := decodeRoot_encodeRoot h.geo.fits h.geo.depth hpage
  obtain ⟨hx, -, -⟩ := h.geo.position hpos
  have hcnt : min s.childrenCount pageEntries = s.childrenCount := Nat.min_eq_left h.geo.childrenCount_le
  rw [mapImage, hb, hdec, ← h.target_image hst hpos]
  unfold imageOf
  rw [← h.newChildren_map hst hall hx]
  refine congrArg (fun d => extentByte body d (pos % s.extentSize)) (mapDigest_congr ?_)
  have hlt := h.geo.child_lt hx
  unfold RootPage.child
  rw [digestAt_digestTable, List.getElem?_map, List.getElem?_range (by rw [hcnt]; exact hlt)]
  rfl

end BlockVolume

end Loam

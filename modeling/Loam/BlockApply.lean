import Loam.BlockStages

/-!
# The committed view after a bind

When the node answers that the root is bound, the committed digests become
those that were about to be bound, in the root's children and in the leaves
that are resident, and what was staged is clean.
-/

namespace Loam

open CellStore

namespace BlockVolume

variable {body : Digest → Bytes} {N : ℕ} {s s' : BlockVolume} {n i : ℕ}

/-! ## The two folds -/

theorem overExtents_succ (count : ℕ) (f : ℕ → Digest) :
    s.overExtents (n + 1) count f
      = if (s.slots n).committing = true ∧ (s.slots n).idx < count then
          put (s.overExtents n count f) (s.slots n).idx (s.slots n).digest
        else s.overExtents n count f := by
  unfold overExtents
  rw [List.range_succ, List.foldl_append]
  rfl

theorem overLeaf_succ (child : ℕ) (f : ℕ → Digest) :
    s.overLeaf (n + 1) child f
      = if (s.slots n).committing = true ∧ (s.slots n).idx / pageEntries = child then
          put (s.overLeaf n child f) ((s.slots n).idx % pageEntries) (s.slots n).digest
        else s.overLeaf n child f := by
  unfold overLeaf
  rw [List.range_succ, List.foldl_append]
  rfl

/-- The children, slots and leaf pages replaced. -/
def applied (s : BlockVolume) (children : ℕ → Digest) (slots : ℕ → ExtentSlot)
    (leafData : ℕ → ℕ → Digest) : BlockVolume :=
  { s with
    view.children := children
    extents.slots := slots
    leafTable.leafData := leafData }

/-- The slots before `n` that were committing are clean. -/
def cleanedTo (s : BlockVolume) (n : ℕ) : ℕ → ExtentSlot := fun j =>
  if j < n ∧ (s.slots j).committing = true then { s.slots j with state := .clean, committing := false }
  else s.slots j

/-- The resident leaves have the extents of the slots before `n`. -/
def leavesTo (s : BlockVolume) (n : ℕ) : ℕ → ℕ → Digest := fun k =>
  if s.depth ≠ 1 ∧ k < 2 ∧ (s.leaves k).valid = true then
    s.overLeaf n (s.leaves k).child (s.leafData k)
  else s.leafData k

/-- The children have the extents of the slots before `n`. -/
def childrenTo (s : BlockVolume) (n : ℕ) : ℕ → Digest :=
  if s.depth = 1 then s.overExtents n pageEntries s.children else s.children

theorem cleanedTo_succ : s.cleanedTo (n + 1)
    = if (s.slots n).committing = true then
        put (s.cleanedTo n) n { s.slots n with state := .clean, committing := false }
      else s.cleanedTo n := by
  funext j
  by_cases hj : j = n
  · subst hj
    by_cases hc : (s.slots j).committing = true
    · rw [if_pos hc, put_self]
      exact if_pos ⟨Nat.lt_succ_self j, hc⟩
    · rw [if_neg hc]
      exact (if_neg fun h => hc h.2).trans (if_neg fun h => hc h.2).symm
  · have hlt : j < n + 1 ↔ j < n := by omega
    have hsame : s.cleanedTo (n + 1) j = s.cleanedTo n j := by
      simp only [cleanedTo, hlt]
    rw [hsame]
    split
    · exact (put_of_ne hj).symm
    · rfl

/-- **The committed view takes the commit's extents**, slot by slot. -/
theorem foldl_applySlot (n : ℕ) : (List.range n).foldl applySlot s
    = s.applied (s.childrenTo n) (s.cleanedTo n) (s.leavesTo n) := by
  induction n with
  | zero =>
    have h1 : s.cleanedTo 0 = s.slots := funext fun j => if_neg fun h => absurd h.1 (Nat.not_lt_zero j)
    have h2 : s.leavesTo 0 = s.leafData := funext fun k => by
      unfold leavesTo
      split
      · rfl
      · rfl
    have h3 : s.childrenTo 0 = s.children := by
      unfold childrenTo
      split
      · rfl
      · rfl
    rw [h1, h2, h3]
    rfl
  | succ n ih =>
    rw [List.range_succ, List.foldl_append, ih, List.foldl_cons, List.foldl_nil]
    have hslot : (s.applied (s.childrenTo n) (s.cleanedTo n) (s.leavesTo n)).slots n = s.slots n :=
      if_neg fun h => absurd h.1 (Nat.lt_irrefl n)
    unfold applySlot
    dsimp only
    rw [hslot]
    by_cases hc : (s.slots n).committing = true
    swap
    · have h1 : s.cleanedTo (n + 1) = s.cleanedTo n := by rw [cleanedTo_succ, if_neg hc]
      have h2 : s.leavesTo (n + 1) = s.leavesTo n := funext fun k => by
        simp only [leavesTo, overLeaf_succ, hc, Bool.false_eq_true, false_and, if_false]
      have h3 : s.childrenTo (n + 1) = s.childrenTo n := by
        simp only [childrenTo, overExtents_succ, hc, Bool.false_eq_true, false_and, if_false]
      rw [if_neg hc, h1, h2, h3]
    · have h1 : s.cleanedTo (n + 1)
          = put (s.cleanedTo n) n { s.slots n with state := .clean, committing := false } := by
        rw [cleanedTo_succ, if_pos hc]
      rw [if_pos hc, h1]
      by_cases hd : s.depth = 1
      · have h2 : s.leavesTo (n + 1) = s.leavesTo n := funext fun k => by
          unfold leavesTo
          rw [if_neg fun h => h.1 hd, if_neg fun h => h.1 hd]
        have h3 : s.childrenTo (n + 1) = if (s.slots n).idx < pageEntries then
            put (s.childrenTo n) (s.slots n).idx (s.slots n).digest else s.childrenTo n := by
          unfold childrenTo
          rw [if_pos hd, if_pos hd, overExtents_succ]
          simp only [hc, true_and]
        have hd' : (s.applied (s.childrenTo n) (s.cleanedTo n) (s.leavesTo n)).depth = 1 := hd
        rw [if_pos hd', h2, h3]
        split
        · rfl
        · rfl
      · have h3 : s.childrenTo (n + 1) = s.childrenTo n := by
          unfold childrenTo
          rw [if_neg hd, if_neg hd]
        have h2 : s.leavesTo (n + 1) = fun k =>
            if k < 2 ∧ (s.leaves k).valid = true ∧ (s.leaves k).child = (s.slots n).idx / pageEntries then
              put (s.leavesTo n k) ((s.slots n).idx % pageEntries) (s.slots n).digest
            else s.leavesTo n k := funext fun k => by
          unfold leavesTo
          rw [overLeaf_succ]
          grind
        have hd' : ¬ (s.applied (s.childrenTo n) (s.cleanedTo n) (s.leavesTo n)).depth = 1 := hd
        rw [if_neg hd', h2, h3]
        rfl

/-- The digest of a leaf after the commit's leaves. -/
def namedBy (leaves : List (ℕ × Digest)) (c : ℕ) (d : Digest) : Digest :=
  leaves.foldl (fun d l => if c = l.1 then l.2 else d) d

theorem foldl_put_eq_namedBy (leaves : List (ℕ × Digest)) {cnt c : ℕ} (hc : c < cnt)
    (f : ℕ → Digest) :
    (leaves.foldl (fun f l => if l.1 < cnt then put f l.1 l.2 else f) f) c = namedBy leaves c (f c) := by
  unfold namedBy
  induction leaves generalizing f with
  | nil => rfl
  | cons l ls ih =>
    rw [List.foldl_cons, List.foldl_cons, ih]
    congr 1
    by_cases hl : c = l.1
    · rw [if_pos hl, if_pos (hl ▸ hc), hl, put_self]
    rw [if_neg hl]
    split
    · exact put_of_ne hl
    · rfl

/-- **The committed view takes the commit's leaves.** -/
theorem foldl_applyLeaf (leaves : List (ℕ × Digest)) : leaves.foldl applyLeaf s
    = { s with
        view.children := leaves.foldl (fun f l => if l.1 < pageEntries then put f l.1 l.2 else f) s.children
        leafTable.leaves := fun k =>
          if k < 2 ∧ (s.leaves k).valid = true then
            { s.leaves k with digest := namedBy leaves (s.leaves k).child (s.leaves k).digest }
          else s.leaves k } := by
  induction leaves generalizing s with
  | nil =>
    have h : (fun k => if k < 2 ∧ (s.leaves k).valid = true then
        { s.leaves k with digest := namedBy [] (s.leaves k).child (s.leaves k).digest }
          else s.leaves k) = s.leaves := funext fun k => by
      split
      · rfl
      · rfl
    rw [h]
    rfl
  | cons l ls ih =>
    rw [List.foldl_cons, ih]
    unfold applyLeaf namedBy
    dsimp only [List.foldl_cons]
    congr 2
    funext k
    grind

/-! ## The bind -/

/-- The device after a bind that landed, its children and leaves replaced. -/
def published (s : BlockVolume) (N : ℕ) (revision : UInt64) (children : ℕ → Digest)
    (leaves : ℕ → LeafSlot) : BlockVolume :=
  { s with
    view.revision := revision
    view.rootDigest := s.newRoot
    view.children := children
    extents.slots := s.cleanedTo N
    extents.staged := 0
    leafTable.leaves := leaves
    leafTable.leafData := s.leavesTo N
    queue.durableGen := s.commitGen
    work.commit := .idle
    flags.flushWanted := false
    hist := { s.hist with landed := ⟨revision, s.newRoot, s.commitCovers⟩ :: s.hist.landed } }

/-- A leaf of children, with its digests. -/
structure LeafOf (body : Digest → Bytes) (s : BlockVolume) (children : ℕ → Digest) (e : LeafSlot)
    (f : ℕ → Digest) : Prop where
  child : e.child < pageEntries
  digest : e.digest = children e.child
  data : ∀ i < s.leafLen e.child,
    f i = leafDigest body s.sizeBytes s.extentSize (children e.child) e.child i

/-- **After a bind the committed digests are those that were about to be
bound**, in the children and in the leaves that are resident. -/
theorem Live.applyCommit_eq (h : s.Live body N) (revision : UInt64) (hc : s.commit = .commit) :
    ∃ children leaves, s.applyCommit N revision = s.published N revision children leaves ∧
      (∀ idx < s.extentCount, mapDigest body s.sizeBytes s.extentSize s.depth children idx
        = s.target body N idx) ∧
      (s.depth ≠ 1 → ∀ k < 2, (leaves k).valid = true →
        s.LeafOf body children (leaves k) (s.leavesTo N k)) := by
  have hst : s.Stored := .inr (.inr hc)
  have hf := hst.fixed
  unfold BlockVolume.applyCommit
  dsimp only
  rw [foldl_applySlot]
  obtain ⟨hd, -⟩ | ⟨hd, -⟩ := h.geo.depth_cases
  · have hd2 : ¬ s.depth = 2 := by
      rw [hd]
      decide
    refine ⟨s.childrenTo N, s.leaves, ?_, fun idx hx => ?_, fun hd1 => absurd hd hd1⟩
    · rw [if_neg hd2]
      rfl
    · have hlt := h.geo.child_lt hx
      rw [if_pos hd] at hlt
      rw [mapDigest, if_pos hd, childrenTo, if_pos hd]
      exact h.overExtents_eq hf hd (hlt.trans_le h.geo.childrenCount_le)
  · have hd1 : s.depth ≠ 1 := by
      rw [hd]
      decide
    have hchildren : s.childrenTo N = s.children := if_neg hd1
    have hall := h.commit.all (.inr hc) hd
    have hn := (h.commit.keys hst hd).1
    refine ⟨s.leafNew.foldl (fun f l => if l.1 < pageEntries then put f l.1 l.2 else f) s.children,
      fun k => if k < 2 ∧ (s.leaves k).valid = true then
        { s.leaves k with digest := namedBy s.leafNew (s.leaves k).child (s.leaves k).digest }
        else s.leaves k, ?_, fun idx hx => ?_, fun _ k hk hv => ?_⟩
    · rw [if_pos hd, h.leafNew_take hst hd, foldl_applyLeaf, ← hchildren]
      rfl
    · have hlt := h.geo.child_lt hx
      rw [if_neg hd1] at hlt
      have hchild := foldl_leaves hn (hlt.trans_le h.geo.childrenCount_le) s.children
      have hnamed := h.leafNamed_child hst hd hall hchild _ (lt_leafLen hx)
      rw [Nat.div_add_mod'] at hnamed
      rw [mapDigest, if_neg hd1]
      exact hnamed
    · have hv' : (s.leaves k).valid = true := by
        dsimp only at hv
        split at hv
        · exact hv
        · exact hv
      obtain ⟨hlt, hdig, hdata⟩ := h.map.leafOk hd1 hk hv'
      dsimp only
      rw [if_pos (And.intro hk hv')]
      refine ⟨hlt, ?_, fun i hi => ?_⟩
      · dsimp only
        rw [hdig, foldl_put_eq_namedBy _ hlt]
      · have hleaf : s.leavesTo N k = s.overLeaf N (s.leaves k).child (s.leafData k) :=
          if_pos ⟨hd1, hk, hv'⟩
        rw [hleaf, h.overLeaf_eq hf hd1 hdata hi]
        exact (h.leafNamed_child hst hd hall (foldl_leaves hn hlt s.children) i hi).symm

theorem cleanedTo_state (h : s.Live body N) (hf : s.Fixed) (hne : s.job ≠ .extent) (hi : i < N) :
    (s.cleanedTo N i).idx = (s.slots i).idx ∧ (s.cleanedTo N i).committing = false ∧
      (s.cleanedTo N i).state ≠ .staged ∧ (s.cleanedTo N i).state ≠ .fetching ∧
      ((s.cleanedTo N i).state ≠ .free → (s.slots i).state ≠ .free) ∧
      ((s.cleanedTo N i).state = .clean → s.Resident i) := by
  have hsame := h.commit.same hf i hi
  have hnf := h.not_fetching hne hi
  unfold cleanedTo Resident
  by_cases hc : (s.slots i).committing = true
  · rw [if_pos ⟨hi, hc⟩]
    exact ⟨rfl, rfl, nofun, nofun, fun _ => by rw [hsame.mp hc]; nofun, fun _ => .inr (hsame.mp hc)⟩
  · rw [if_neg fun h => hc h.2]
    exact ⟨rfl, by simpa using hc, fun hs => hc (hsame.mpr hs), hnf, id, fun hcl => .inl hcl⟩

theorem published_grows {revision : UInt64} {children : ℕ → Digest} {leaves : ℕ → LeafSlot}
    (hne : s.hist.landed ≠ []) : Grows s (s.published N revision children leaves) :=
  ⟨rfl, rfl, rfl, ⟨[], (List.append_nil _).symm⟩, ⟨[_], rfl⟩, hne⟩

/-- **A bind that landed keeps the device**: what is committed is the image as
it is. -/
theorem Sound.applyCommit {revision : UInt64} (h : s.Sound body N) (hc : s.commit = .commit)
    (hj : s.job = .none) : (s.applyCommit N revision).Sound body N := by
  have hst : s.Stored := .inr (.inr hc)
  have hf := hst.fixed
  have hne : s.job ≠ .extent := by
    rw [hj]
    nofun
  obtain ⟨children, leaves, heq, hmap, hleaves⟩ := h.1.applyCommit_eq revision hc
  rw [heq]
  have hg : Grows s (s.published N revision children leaves) := published_grows h.1.landed_ne_nil
  have hnow (pos : ℕ) : (s.published N revision children leaves).now body pos = s.now body pos :=
    hg.image (Nat.le_refl _) pos
  have himage : ∀ pos < s.sizeBytes,
      (s.published N revision children leaves).committedImage body pos = s.now body pos := by
    intro pos hpos
    obtain ⟨hx, -, -⟩ := h.1.geo.position hpos
    rw [← h.1.target_image hst hpos]
    unfold imageOf
    rw [← hmap _ hx]
    rfl
  have hstate (i : ℕ) (hi : i < N) := cleanedTo_state h.1 hf hne hi
  have hgen := h.1.commit.gen hf
  refine ⟨⟨⟨h.1.geo.depth, h.1.geo.covers, h.1.geo.fits, h.1.geo.extents, h.1.geo.blocks,
      h.1.geo.block, h.1.geo.cap⟩, ⟨fun pos hpos => ?_, fun hd k hk hv => ?_⟩, ?_, Nat.zero_le _,
      ⟨h.1.gens.sorted, h.1.gens.le, Nat.le_of_eq hgen.1, fun pos hpos => ?_, ⟨_, _, rfl⟩⟩,
      fun i p hp => (h.1.pend i p hp).grows hg,
      .of_not_fixed (fun hf' => hf'.1 rfl) (.of_none hj) fun i hi => (hstate i hi).2.1, .of_none hj⟩,
    ⟨fun a ha => (h.2.1.answers a ha).grows hg, fun c hcm => ?_⟩, h.2.2⟩
  · exact (h.1.commit.newRoot hc pos hpos).trans (himage pos hpos).symm
  · obtain ⟨h1, h2, h3⟩ := hleaves hd k hk hv
    exact ⟨h1, h2, h3⟩
  · refine ⟨fun a ha b hb hfa hfb he => ?_, fun a ha hfa => ?_, fun a ha hra j hjl => ?_,
      fun idx hx _ j hjl => ?_, fun a ha hfa => absurd hfa (hstate a ha).2.2.2.1, ?_⟩
    · refine h.1.slots.uniq a ha b hb ((hstate a ha).2.2.2.2.1 hfa) ((hstate b hb).2.2.2.2.1 hfb) ?_
      exact (hstate a ha).1.symm.trans (he.trans (hstate b hb).1)
    · refine (congrArg (· < s.extentCount) (hstate a ha).1).mpr ?_
      exact h.1.slots.inMap a ha ((hstate a ha).2.2.2.2.1 hfa)
    · change j < s.extentLen (s.cleanedTo N a).idx at hjl
      show s.ext a j = (s.published N revision children leaves).now body
        ((s.cleanedTo N a).idx * s.extentSize + j)
      rw [(hstate a ha).1] at hjl ⊢
      rw [hnow]
      refine h.1.slots.holds a ha ((hstate a ha).2.2.2.2.2 ?_) j hjl
      obtain hcl | hs := hra
      · exact hcl
      · exact absurd hs (hstate a ha).2.2.1
    · rw [hnow]
      exact himage _ (mul_add_lt_size hjl)
    · refine (List.countP_eq_zero.mpr fun a ha => ?_).symm
      rw [beq_iff_eq]
      exact (hstate a (List.mem_range.mp ha)).2.2.1
  · -- every write is of the generation that is durable now
    have hall : (s.published N revision children leaves).coveredCount = s.hist.writes.length := by
      unfold coveredCount
      rw [List.takeWhile_eq_self_iff.mpr fun w hw => decide_eq_true ?_]
      · rfl
      · exact (h.1.gens.le w hw).trans (Nat.le_of_eq hgen.1.symm)
    rw [himage pos hpos, hall]
    exact (hnow pos).symm
  · obtain rfl | hcm := List.mem_cons.mp hcm
    · refine ⟨Nat.le_of_eq hgen.2, fun pos hpos => ?_⟩
      refine (h.1.commit.newRoot hc pos hpos).trans ?_
      show s.now body pos = (s.published N revision children leaves).image body s.commitCovers pos
      rw [hgen.2]
      exact (hnow pos).symm
    · obtain ⟨hle, hm⟩ := h.2.1.landed c hcm
      exact ⟨hle, hm.grows hg hle⟩

end BlockVolume

end Loam

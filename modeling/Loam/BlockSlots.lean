import Loam.BlockInvariant
import Mathlib.Data.List.Induction

/-!
# The slots of a block device

The scans of the slot table, the split of a request at extent boundaries, and
what staging a part of a write does to the slots. A part is staged in a slot
that holds its extent or, when it is the whole extent, in one that is free or
clean: either way the slots are those of the image with the part in it.
-/

namespace Loam

open CellStore

namespace BlockVolume

/-! ## Tables -/

section Tables

variable {α ι : Type} {f g : ℕ → α} {i j : ℕ} {v : α}

@[simp] theorem put_self : put f i v i = v := if_pos rfl

/-- Another place is as it was. -/
theorem put_of_ne (h : j ≠ i) : put f i v j = f j := if_neg h

/-- Putting what is there changes nothing. -/
theorem put_eq_self (h : f i = v) : put f i v = f := by
  funext j
  by_cases hj : j = i
  · rw [hj, put_self, h]
  · rw [put_of_ne hj]

variable {P : ι → Prop} [DecidablePred P] {key : ι → ℕ} {val : ι → α} {l : List ι} {x : ℕ}

/-- A place at which nothing is put is as it was. -/
theorem foldl_put_of_forall_ne (h : ∀ a ∈ l, P a → key a ≠ x) :
    (l.foldl (fun f a => if P a then put f (key a) (val a) else f) f) x = f x := by
  induction l generalizing f with
  | nil => rfl
  | cons a l ih =>
    rw [List.foldl_cons, ih fun b hb => h b (List.mem_cons_of_mem a hb)]
    split
    · next hp => exact put_of_ne (h a List.mem_cons_self hp).symm
    · rfl

/-- One that is put, and nothing else in its place, is there. -/
theorem foldl_put_of_mem (P : ι → Prop) [DecidablePred P] (key : ι → ℕ) (val : ι → α) {a : ι}
    (ha : a ∈ l) (hp : P a)
    (huniq : ∀ b ∈ l, P b → key b = key a → val b = val a) :
    (l.foldl (fun f a => if P a then put f (key a) (val a) else f) f) (key a) = val a := by
  induction l using List.reverseRecOn with
  | nil => cases ha
  | append_singleton l b ih =>
    rw [List.foldl_append, List.foldl_cons, List.foldl_nil]
    have hb : b ∈ l ++ [b] := List.mem_append_right l List.mem_cons_self
    by_cases hpb : P b ∧ key b = key a
    · rw [if_pos hpb.1, hpb.2, put_self]
      exact huniq b hb hpb.1 hpb.2
    have hal : a ∈ l := by
      obtain hal | hab := List.mem_append.mp ha
      · exact hal
      · exact absurd ⟨List.mem_singleton.mp hab ▸ hp, congrArg key (List.mem_singleton.mp hab).symm⟩ hpb
    have hrest := ih hal fun c hc => huniq c (List.mem_append_left [b] hc)
    split
    · next h => rw [put_of_ne fun he => hpb ⟨h, he.symm⟩, hrest]
    · exact hrest

/-- A count over a range, when one index of it stops to count. -/
theorem countP_range_flip {n i : ℕ} {p q : ℕ → Bool} (hi : i < n) (hp : p i = true)
    (hq : q i = false) (h : ∀ j < n, j ≠ i → p j = q j) :
    (List.range n).countP p = (List.range n).countP q + 1 := by
  induction n with
  | zero => exact absurd hi (Nat.not_lt_zero i)
  | succ n ih =>
    rw [List.range_succ, List.countP_append, List.countP_append, List.countP_singleton,
      List.countP_singleton]
    obtain hlt | rfl := Nat.lt_succ_iff_lt_or_eq.mp hi
    · rw [ih hlt fun j hj => h j (Nat.lt_succ_of_lt hj), h n (Nat.lt_succ_self n) (Nat.ne_of_gt hlt)]
      omega
    · rw [List.countP_congr fun j hj => by
        rw [h j (Nat.lt_succ_of_lt (List.mem_range.mp hj)) (Nat.ne_of_lt (List.mem_range.mp hj))], hp, hq]
      rfl

end Tables

/-! ## The scans -/

variable {body : Digest → Bytes} {N : ℕ} {s : BlockVolume} {idx i : ℕ} {keep : List ℕ}

/-- A slot that is found has the extent. -/
theorem findExtent_eq_some (h : s.findExtent N idx = some i) :
    i < N ∧ s.Resident i ∧ (s.slots i).idx = idx := by
  have hp := List.find?_some h
  have hm := List.mem_of_find?_eq_some h
  simp only [Bool.and_eq_true, Bool.or_eq_true, beq_iff_eq] at hp
  exact ⟨List.mem_range.mp hm, hp.1, hp.2⟩

/-- If none is found, none has it. -/
theorem findExtent_eq_none (h : s.findExtent N idx = none) :
    ∀ i < N, s.Resident i → (s.slots i).idx ≠ idx := by
  intro i hi hr he
  have := List.find?_eq_none.mp h i (List.mem_range.mpr hi)
  simp only [Bool.and_eq_true, Bool.or_eq_true, beq_iff_eq] at this
  exact this ⟨hr, he⟩

/-- If it is not being fetched, no slot fetches it. -/
theorem fetching_eq_false (h : s.fetching N idx = false) :
    ∀ i < N, (s.slots i).state = .fetching → (s.slots i).idx ≠ idx := by
  intro i hi hf he
  have := List.any_eq_false.mp h i (List.mem_range.mpr hi)
  simp [hf, he] at this

theorem state_cases (i : ℕ) :
    (s.slots i).state = .free ∨ s.Resident i ∨ (s.slots i).state = .fetching := by
  unfold Resident
  cases (s.slots i).state <;> simp

/-- An extent that is neither resident nor being fetched has no slot. -/
theorem no_slot_of_none (h : s.findExtent N idx = none) (hf : s.fetching N idx = false) :
    ∀ i < N, (s.slots i).state ≠ .free → (s.slots i).idx ≠ idx := by
  intro i hi hne
  obtain hfree | hr | hfe := s.state_cases i
  · exact absurd hfree hne
  · exact findExtent_eq_none h i hi hr
  · exact fetching_eq_false hf i hi hfe

/-- A slot that is allocated was free or clean, and not to be kept. -/
theorem allocFrom_eq_some {best : Option ℕ} {l : List ℕ} (h : s.allocFrom keep best l = some i)
    (hbest : ∀ b, best = some b → b < N ∧ b ∉ keep ∧ (s.slots b).state = .clean)
    (hl : ∀ b ∈ l, b < N) :
    i < N ∧ i ∉ keep ∧ ((s.slots i).state = .free ∨ (s.slots i).state = .clean) := by
  induction l generalizing best with
  | nil =>
    obtain ⟨hN, hk, hc⟩ := hbest i h
    exact ⟨hN, hk, .inr hc⟩
  | cons b l ih =>
    have hl' : ∀ c ∈ l, c < N := fun c hc => hl c (List.mem_cons_of_mem b hc)
    unfold allocFrom at h
    split at h
    · exact ih h hbest hl'
    next hk =>
    split at h
    · next hf =>
      cases h
      exact ⟨hl _ List.mem_cons_self, hk, .inl hf⟩
    · next hc =>
      split at h
      · refine ih h (fun c hcb => ?_) hl'
        cases hcb
        exact ⟨hl _ List.mem_cons_self, hk, hc⟩
      · exact ih h hbest hl'
    · exact ih h hbest hl'

theorem allocSlot_eq_some (h : s.allocSlot N keep = some i) :
    i < N ∧ i ∉ keep ∧ ((s.slots i).state = .free ∨ (s.slots i).state = .clean) :=
  allocFrom_eq_some h nofun fun _ hb => List.mem_range.mp hb

/-- Where one is free or clean, one is allocated. -/
theorem allocFrom_isSome {best : Option ℕ} {l : List ℕ}
    (h : best.isSome = true ∨ ∃ i ∈ l, i ∉ keep ∧
      ((s.slots i).state = .free ∨ (s.slots i).state = .clean)) :
    (s.allocFrom keep best l).isSome = true := by
  induction l generalizing best with
  | nil =>
    obtain h | ⟨i, hi, -⟩ := h
    · exact h
    · cases hi
  | cons b l ih =>
    have hrest (hb : b ∈ keep ∨ (s.slots b).state ≠ .free ∧ (s.slots b).state ≠ .clean) :
        best.isSome = true ∨ ∃ i ∈ l, i ∉ keep ∧
          ((s.slots i).state = .free ∨ (s.slots i).state = .clean) := by
      obtain h | ⟨i, hi, hk, hs⟩ := h
      · exact .inl h
      · obtain rfl | hi := List.mem_cons.mp hi
        · obtain hb | hb := hb
          · exact absurd hb hk
          · exact absurd hs (not_or.mpr hb)
        · exact .inr ⟨i, hi, hk, hs⟩
    unfold allocFrom
    split
    next hk => exact ih (hrest (.inl hk))
    split
    · rfl
    · split
      · exact ih (.inl rfl)
      next hall =>
      refine ih (.inl ?_)
      cases best with
      | none => exact absurd rfl hall
      | some c => rfl
    next hf hc => exact ih (hrest (.inr ⟨hf, hc⟩))

theorem allocSlot_isSome (h : ∃ i < N, i ∉ keep ∧
    ((s.slots i).state = .free ∨ (s.slots i).state = .clean)) : (s.allocSlot N keep).isSome = true := by
  obtain ⟨i, hi, hk⟩ := h
  exact allocFrom_isSome (.inr ⟨i, List.mem_range.mpr hi, hk⟩)

/-! ## The split of a request -/

theorem Geometry.pos (h : s.Geometry) : 0 < s.extentSize := (selectDepth_cases h.depth).1

/-- The extents are those that begin in the volume. -/
theorem Geometry.lt_extentCount (h : s.Geometry) :
    idx < s.extentCount ↔ idx * s.extentSize < s.sizeBytes := by
  rw [h.extents, ← Nat.succ_le_iff, Nat.le_div_iff_mul_le h.pos, Nat.succ_mul]
  have := h.pos
  omega

theorem extentLen_le : s.extentLen idx ≤ s.extentSize := Nat.min_le_right _ _

theorem mul_add_lt_size {j : ℕ} (hj : j < s.extentLen idx) :
    idx * s.extentSize + j < s.sizeBytes := by
  have := Nat.lt_of_lt_of_le hj (Nat.min_le_left _ _)
  omega

/-- A position of the volume is in its extent. -/
theorem lt_extentLen {j : ℕ} (hj : j < s.extentSize) (h : idx * s.extentSize + j < s.sizeBytes) :
    j < s.extentLen idx :=
  Nat.lt_min.mpr ⟨by omega, hj⟩

/-- A position, by its extent and the place in it. -/
theorem Geometry.position (h : s.Geometry) {pos : ℕ} (hpos : pos < s.sizeBytes) :
    pos / s.extentSize < s.extentCount ∧ pos % s.extentSize < s.extentLen (pos / s.extentSize) ∧
      pos / s.extentSize * s.extentSize + pos % s.extentSize = pos := by
  have hdm : pos / s.extentSize * s.extentSize + pos % s.extentSize = pos := Nat.div_add_mod' pos _
  refine ⟨h.lt_extentCount.mpr (by omega), lt_extentLen (Nat.mod_lt _ h.pos) (by omega), hdm⟩

theorem Geometry.div_mod (h : s.Geometry) {j : ℕ} (hj : j < s.extentLen idx) :
    (idx * s.extentSize + j) / s.extentSize = idx ∧ (idx * s.extentSize + j) % s.extentSize = j := by
  have hlt : j < s.extentSize := Nat.lt_of_lt_of_le hj extentLen_le
  constructor
  · rw [Nat.mul_comm, Nat.mul_add_div h.pos, Nat.div_eq_of_lt hlt, Nat.add_zero]
  · rw [Nat.mul_comm, Nat.mul_add_mod, Nat.mod_eq_of_lt hlt]

/-- A part of a request is inside one extent of the volume. -/
structure SpanFits (s : BlockVolume) (r : BlockReq) (p : BlockSpan) : Prop where
  start : p.idx * s.extentSize + p.inExt = r.lba * s.blockSize + p.off
  off : p.off + p.take ≤ r.len
  inMap : p.idx < s.extentCount
  within : p.inExt + p.take ≤ s.extentLen p.idx

/-- The positions of a part. -/
def SpanAt (s : BlockVolume) (p : BlockSpan) (pos : ℕ) : Prop :=
  p.idx * s.extentSize + p.inExt ≤ pos ∧ pos < p.idx * s.extentSize + p.inExt + p.take

/-- The parts of a request no longer than an extent: none, one or two. -/
theorem spans_eq (s : BlockVolume) (r : BlockReq) (hes : 0 < s.extentSize) (hlen : r.len ≤ s.extentSize) :
    r.len = 0 ∧ s.spans r = [] ∨
      0 < r.len ∧ r.lba * s.blockSize % s.extentSize + r.len ≤ s.extentSize ∧
        s.spans r = [⟨r.lba * s.blockSize / s.extentSize, r.lba * s.blockSize % s.extentSize, r.len, 0⟩] ∨
      s.extentSize < r.lba * s.blockSize % s.extentSize + r.len ∧
        s.spans r = [⟨r.lba * s.blockSize / s.extentSize, r.lba * s.blockSize % s.extentSize,
            s.extentSize - r.lba * s.blockSize % s.extentSize, 0⟩,
          ⟨r.lba * s.blockSize / s.extentSize + 1, 0,
            r.len - (s.extentSize - r.lba * s.blockSize % s.extentSize),
            s.extentSize - r.lba * s.blockSize % s.extentSize⟩] := by
  unfold spans
  generalize r.lba * s.blockSize = start
  have hdm : start / s.extentSize * s.extentSize + start % s.extentSize = start :=
    Nat.div_add_mod' start _
  have hmod : start % s.extentSize < s.extentSize := Nat.mod_lt _ hes
  by_cases h0 : r.len = 0
  · exact .inl ⟨h0, by rw [spanLoop, h0, if_neg (Nat.lt_irrefl 0)]⟩
  have hpos : 0 < r.len := Nat.pos_of_ne_zero h0
  by_cases hone : start % s.extentSize + r.len ≤ s.extentSize
  · refine .inr (.inl ⟨hpos, hone, ?_⟩)
    have hmin : min (s.extentSize - start % s.extentSize) r.len = r.len := Nat.min_eq_right (by omega)
    simp only [spanLoop, if_pos hpos, Nat.add_zero, Nat.sub_zero, hmin, Nat.zero_add,
      if_neg (Nat.lt_irrefl r.len)]
  refine .inr (.inr ⟨Nat.not_le.mp hone, ?_⟩)
  have hmin : min (s.extentSize - start % s.extentSize) r.len = s.extentSize - start % s.extentSize :=
    Nat.min_eq_left (by omega)
  have hnext : start + (s.extentSize - start % s.extentSize)
      = s.extentSize * (start / s.extentSize + 1) := by
    rw [Nat.mul_add, Nat.mul_one, Nat.mul_comm]
    omega
  have hmin' : min s.extentSize (r.len - (s.extentSize - start % s.extentSize))
      = r.len - (s.extentSize - start % s.extentSize) := Nat.min_eq_right (by omega)
  have hlt : s.extentSize - start % s.extentSize < r.len := by omega
  simp only [spanLoop, if_pos hpos, Nat.add_zero, Nat.sub_zero, hmin, Nat.zero_add, if_pos hlt,
    hnext, Nat.mul_mod_right, Nat.mul_div_cancel_left _ hes, hmin']

/-- **The parts of a request**: inside the volume, one for each extent, and
all of it. -/
theorem spans_spec (geo : s.Geometry) {r : BlockReq} (hio : r.op = .read ∨ r.op = .write)
    (hdev : s.InDevice r) :
    (∀ p ∈ s.spans r, s.SpanFits r p) ∧ ((s.spans r).map BlockSpan.idx).Nodup ∧
      ∀ pos, r.lba * s.blockSize ≤ pos → pos < r.lba * s.blockSize + r.len →
        ∃ p ∈ s.spans r, s.SpanAt p pos := by
  obtain ⟨hend, hlen⟩ := hdev hio
  have hes := geo.pos
  have hdm : r.lba * s.blockSize / s.extentSize * s.extentSize + r.lba * s.blockSize % s.extentSize
      = r.lba * s.blockSize := Nat.div_add_mod' _ _
  have hmod : r.lba * s.blockSize % s.extentSize < s.extentSize := Nat.mod_lt _ hes
  obtain ⟨h0, hs⟩ | ⟨hpos, hone, hs⟩ | ⟨htwo, hs⟩ := s.spans_eq r hes hlen
  · rw [hs]
    refine ⟨fun p hp => absurd hp List.not_mem_nil, List.nodup_nil, fun pos h1 h2 => ?_⟩
    rw [h0] at h2
    exact absurd h2 (Nat.not_lt.mpr h1)
  all_goals
    rw [hs]
    clear hs
    generalize r.lba * s.blockSize / s.extentSize = q at *
    generalize r.lba * s.blockSize % s.extentSize = m at *
    generalize hstart : r.lba * s.blockSize = start at *
  · refine ⟨fun p hp => ?_, by simp, fun pos h1 h2 =>
      ⟨_, List.mem_singleton_self _, ?_⟩⟩
    · cases List.mem_singleton.mp hp
      refine ⟨hstart ▸ hdm, Nat.le_of_eq (Nat.zero_add _), geo.lt_extentCount.mpr ?_, Nat.le_min.mpr ⟨?_, hone⟩⟩
      · show q * s.extentSize < s.sizeBytes
        omega
      · show m + r.len ≤ s.sizeBytes - q * s.extentSize
        omega
    · show q * s.extentSize + m ≤ pos ∧ pos < q * s.extentSize + m + r.len
      omega
  · have hsucc : (q + 1) * s.extentSize = q * s.extentSize + s.extentSize := Nat.succ_mul _ _
    refine ⟨fun p hp => ?_, ?_, fun pos h1 h2 => ?_⟩
    · obtain rfl | hp := List.mem_cons.mp hp
      · refine ⟨hstart ▸ hdm, ?_, geo.lt_extentCount.mpr ?_, Nat.le_min.mpr ⟨?_, ?_⟩⟩
        · show 0 + (s.extentSize - m) ≤ r.len
          omega
        · show q * s.extentSize < s.sizeBytes
          omega
        · show m + (s.extentSize - m) ≤ s.sizeBytes - q * s.extentSize
          omega
        · show m + (s.extentSize - m) ≤ s.extentSize
          omega
      · cases List.mem_singleton.mp hp
        refine ⟨?_, ?_, geo.lt_extentCount.mpr ?_, Nat.le_min.mpr ⟨?_, ?_⟩⟩
        · show (q + 1) * s.extentSize + 0 = r.lba * s.blockSize + (s.extentSize - m)
          omega
        · show s.extentSize - m + (r.len - (s.extentSize - m)) ≤ r.len
          omega
        · show (q + 1) * s.extentSize < s.sizeBytes
          omega
        · show 0 + (r.len - (s.extentSize - m)) ≤ s.sizeBytes - (q + 1) * s.extentSize
          omega
        · show 0 + (r.len - (s.extentSize - m)) ≤ s.extentSize
          omega
    · exact List.nodup_cons.mpr ⟨by simp, by simp⟩
    · by_cases hlt : pos < q * s.extentSize + s.extentSize
      · refine ⟨_, List.mem_cons_self, ?_⟩
        show q * s.extentSize + m ≤ pos ∧ pos < q * s.extentSize + m + (s.extentSize - m)
        omega
      · refine ⟨_, List.mem_cons_of_mem _ List.mem_cons_self, ?_⟩
        show (q + 1) * s.extentSize + 0 ≤ pos ∧
          pos < (q + 1) * s.extentSize + 0 + (r.len - (s.extentSize - m))
        omega

end BlockVolume

end Loam

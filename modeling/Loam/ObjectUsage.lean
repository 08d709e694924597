import Loam.Lib.Run
import Loam.ObjectIndex
import Mathlib.Data.List.Nodup

/-!
# What each root uses

Beside the slots of the object index stands a table of roots, each with how many objects
it has and how many bytes they are. The operations change the two together: an object that
comes is charged to its root, and one that goes, or moves, is discharged
(`object_pic_state.rs`). So what is recorded of a root is what its slots come to
(`Exact`), as long as no sum is cut at 64 bits; and a root grows past its ceiling only by
an update, which does not ask for it.

A root has a place for good. One for which there was none, when its first object came, never
has one: that is why a root with a place has all its objects charged.
-/

namespace Loam.ObjectIndex

variable {L : Limits} {s s' : ObjectIndex} {h k : UInt64} {u v : RootUsage} {p : PutFields}

/-! ## Operations -/

/-- What is recorded of a root (`usage`). -/
def usage (s : ObjectIndex) (h : UInt64) : Option RootUsage :=
  s.roots.findSome? fun o => o.filter fun u => u.namespaceHash == h

/-- A change to a root in its place. -/
def inPlace (h : UInt64) (f : RootUsage → RootUsage) : Option RootUsage → Option (Option RootUsage)
  | some u => if u.namespaceHash = h then some (some (f u)) else none
  | none => none

/-- A place that is claimed. -/
def claimed (u : RootUsage) : Option RootUsage → Option (Option RootUsage)
  | some _ => none
  | none => some (some u)

/-- Change the root's place, claimed if it has none (`root_slot`). -/
def atRoot (s : ObjectIndex) (h : UInt64) (f : RootUsage → RootUsage) : Option ObjectIndex :=
  match replaceFirst (inPlace h f) s.roots with
  | some roots => some { s with roots := roots }
  | none => (replaceFirst (claimed (f ⟨h, 0, 0, 0, 0⟩)) s.roots).map fun roots =>
      { s with roots := roots }

/-- Set a root's ceilings; 0 is none (`set_quota`). -/
def setQuota (s : ObjectIndex) (namespaceRoot : Bytes) (maxObjects maxBytes : UInt64) :
    ObjectIndex × Except ObjectError Unit :=
  match s.atRoot (fnv1a64 namespaceRoot) fun u =>
      { u with maxObjects := maxObjects, maxBytes := maxBytes } with
  | some s' => (s', .ok ())
  | none => (s, .error .outOfCapacity)

/-- What is asked of the index. -/
inductive Move where
  | put (p : PutFields)
  | update (p : PutFields)
  | remove (id : Bytes)
  | setQuota (namespaceRoot : Bytes) (maxObjects maxBytes : UInt64)
deriving DecidableEq

/-- One operation. -/
def step (L : Limits) (s : ObjectIndex) : Move → ObjectIndex
  | .put p => (s.putNew L p).1
  | .update p => (s.update p).1
  | .remove id => (s.remove id).1
  | .setQuota root maxObjects maxBytes => (s.setQuota root maxObjects maxBytes).1

/-! ## What the slots come to -/

/-- What a slot counts for under a root. -/
def weight (f : ObjectSlot → ℕ) (h : UInt64) : Option ObjectSlot → ℕ
  | some x => if x.namespaceHash = h then f x else 0
  | none => 0

/-- What the slots come to whose root has that hash. -/
def total (f : ObjectSlot → ℕ) (slots : List (Option ObjectSlot)) (h : UInt64) : ℕ :=
  (slots.map (weight f h)).sum

/-- An object is one, and so many bytes. -/
def one : ObjectSlot → ℕ := fun _ => 1

def size (x : ObjectSlot) : ℕ := x.sizeBytes.toNat

/-- What the slots of a root come to. -/
def ofRoot (f : ObjectSlot → ℕ) (slots : List (Option ObjectSlot)) (root : Bytes) : ℕ :=
  (slots.map fun o => (o.filter fun x => x.namespaceRoot == root).elim 0 f).sum

/-- What is recorded in a table of roots. -/
def Records (roots : List (Option RootUsage)) (objects bytes : UInt64 → ℕ) : Prop :=
  ∀ u, some u ∈ roots → u.objects.toNat = objects u.namespaceHash ∧
    u.bytes.toNat = bytes u.namespaceHash

/-- What is recorded of each hash is what its slots come to. -/
def Adds (s : ObjectIndex) : Prop := Records s.roots (total one s.slots) (total size s.slots)

/-- **What is recorded of a root is what its slots come to.** -/
def Exact (s : ObjectIndex) (root : Bytes) : Prop :=
  ∀ u ∈ s.usage (fnv1a64 root),
    u.objects.toNat = ofRoot one s.slots root ∧ u.bytes.toNat = ofRoot size s.slots root

/-- **A root is not left above a ceiling that it was not above.** -/
def KeepsCeilings (s s' : ObjectIndex) (root : Bytes) : Prop :=
  ∀ u ∈ s'.usage (fnv1a64 root),
    (u.maxObjects ≠ 0 → u.maxObjects.toNat < ofRoot one s'.slots root →
      u.maxObjects.toNat < ofRoot one s.slots root) ∧
    (u.maxBytes ≠ 0 → u.maxBytes.toNat < ofRoot size s'.slots root →
      u.maxBytes.toNat < ofRoot size s.slots root)

instance (s : ObjectIndex) : DecidablePred s.Exact := fun root =>
  inferInstanceAs (Decidable (∀ u ∈ s.usage (fnv1a64 root), _))

instance (s s' : ObjectIndex) : DecidablePred (s.KeepsCeilings s') := fun root =>
  inferInstanceAs (Decidable (∀ u ∈ s'.usage (fnv1a64 root), _))

/-- No record is left above a ceiling that it was not above. -/
def WithinCeilings (s s' : ObjectIndex) : Prop :=
  ∀ u, some u ∈ s'.roots →
    (u.maxObjects ≠ 0 → u.maxObjects < u.objects →
      ∃ v, some v ∈ s.roots ∧ v.namespaceHash = u.namespaceHash ∧ u.maxObjects < v.objects) ∧
    (u.maxBytes ≠ 0 → u.maxBytes < u.bytes →
      ∃ v, some v ∈ s.roots ∧ v.namespaceHash = u.namespaceHash ∧ u.maxBytes < v.bytes)

/-- The roots that have a place. -/
def rootHashes (roots : List (Option RootUsage)) : List UInt64 :=
  roots.filterMap fun o => o.map RootUsage.namespaceHash

/-- What is kept. -/
structure Kept (n : ℕ) (s : ObjectIndex) : Prop where
  exact : Adds s
  once : (rootHashes s.roots).Nodup
  /-- While there is room for another root, every object's has its place. -/
  placed : none ∈ s.roots → ∀ x, some x ∈ s.slots →
    ∃ u, some u ∈ s.roots ∧ u.namespaceHash = x.namespaceHash
  slots : s.slots.length = n

/-! ## Replacing an element -/

section Replace

variable {α : Type} {g : α → Option α} {l l' : List α}

theorem replaceFirst_eq_some (hl : replaceFirst g l = some l') :
    ∃ l₁ a b l₂, l = l₁ ++ a :: l₂ ∧ (∀ x ∈ l₁, g x = none) ∧ g a = some b ∧ l' = l₁ ++ b :: l₂ := by
  induction l generalizing l' with
  | nil => cases hl
  | cons a as ih =>
    unfold replaceFirst at hl
    cases hg : g a with
    | some b =>
      rw [hg] at hl
      cases Option.some.inj hl
      exact ⟨[], a, b, as, rfl, nofun, hg, rfl⟩
    | none =>
      rw [hg] at hl
      obtain ⟨as', has, rfl⟩ := Option.map_eq_some_iff.mp hl
      obtain ⟨l₁, x, b, l₂, rfl, hnone, hb, rfl⟩ := ih has
      refine ⟨a :: l₁, x, b, l₂, rfl, fun y hy => ?_, hb, rfl⟩
      rcases List.mem_cons.mp hy with rfl | hy
      · exact hg
      · exact hnone y hy

theorem replaceFirst_split {l₁ l₂ : List α} {a b : α} (hskip : ∀ x ∈ l₁, g x = none)
    (hb : g a = some b) : replaceFirst g (l₁ ++ a :: l₂) = some (l₁ ++ b :: l₂) := by
  induction l₁ with
  | nil =>
    show replaceFirst g (a :: l₂) = _
    rw [replaceFirst, hb]
    rfl
  | cons x xs ih =>
    show replaceFirst g (x :: (xs ++ a :: l₂)) = _
    rw [replaceFirst, hskip x List.mem_cons_self]
    dsimp only
    rw [ih fun y hy => hskip y (List.mem_cons_of_mem _ hy)]
    rfl

theorem replaceFirst_eq_none (hl : replaceFirst g l = none) : ∀ x ∈ l, g x = none := by
  induction l with
  | nil => exact nofun
  | cons a as ih =>
    unfold replaceFirst at hl
    cases hg : g a with
    | some b =>
      rw [hg] at hl
      cases hl
    | none =>
      rw [hg] at hl
      intro x hx
      rcases List.mem_cons.mp hx with rfl | hx
      · exact hg
      · exact ih (Option.map_eq_none_iff.mp hl) x hx

end Replace

/-! ## The place of a root -/

/-- The root's record, or that of a root that has nothing. -/
def rootOf (s : ObjectIndex) (h : UInt64) : RootUsage := (s.usage h).getD ⟨h, 0, 0, 0, 0⟩

theorem rootOf_some (hu : s.usage h = some u) : s.rootOf h = u := by
  rw [rootOf, hu]
  rfl

theorem rootOf_none (hu : s.usage h = none) : s.rootOf h = ⟨h, 0, 0, 0, 0⟩ := by
  rw [rootOf, hu]
  rfl

theorem usage_eq_some (hu : s.usage h = some u) : some u ∈ s.roots ∧ u.namespaceHash = h := by
  obtain ⟨o, ho, hfilter⟩ := List.exists_of_findSome?_eq_some hu
  cases o with
  | none => cases hfilter
  | some w =>
    obtain ⟨hw, heq⟩ := Option.filter_eq_some_iff.mp hfilter
    cases Option.some.inj hw
    exact ⟨ho, beq_iff_eq.mp heq⟩

theorem usage_eq_none (hu : s.usage h = none) : ∀ u, some u ∈ s.roots → u.namespaceHash ≠ h := by
  intro u hmem heq
  have hnone := List.findSome?_eq_none_iff.mp hu (some u) hmem
  rw [Option.filter_eq_none_iff] at hnone
  exact hnone u rfl (beq_iff_eq.mpr heq)

theorem mem_rootHashes {roots : List (Option RootUsage)} :
    h ∈ rootHashes roots ↔ ∃ u, some u ∈ roots ∧ u.namespaceHash = h := by
  rw [rootHashes, List.mem_filterMap]
  constructor
  · rintro ⟨o, ho, heq⟩
    obtain ⟨u, rfl, hu⟩ := Option.map_eq_some_iff.mp heq
    exact ⟨u, ho, hu⟩
  · rintro ⟨u, hu, rfl⟩
    exact ⟨some u, hu, rfl⟩

/-- One place of the table holds a root, and no other holds it. -/
theorem nodup_rootHashes {l₁ l₂ : List (Option RootUsage)} :
    (rootHashes (l₁ ++ some u :: l₂)).Nodup ↔
      (rootHashes (l₁ ++ none :: l₂)).Nodup ∧
        ∀ v, some v ∈ l₁ ∨ some v ∈ l₂ → v.namespaceHash ≠ u.namespaceHash := by
  have hsome : rootHashes (l₁ ++ some u :: l₂) = rootHashes l₁ ++ u.namespaceHash :: rootHashes l₂ :=
    List.filterMap_append
  have hnone : rootHashes (l₁ ++ none :: l₂) = rootHashes l₁ ++ rootHashes l₂ :=
    List.filterMap_append
  rw [hsome, hnone, List.nodup_middle, List.nodup_cons, List.mem_append, and_comm]
  refine and_congr_right fun _ => ⟨fun hnot v hv heq => hnot ?_, fun hall hin => ?_⟩
  · exact hv.imp (fun h => mem_rootHashes.mpr ⟨v, h, heq⟩) fun h => mem_rootHashes.mpr ⟨v, h, heq⟩
  · rcases hin with hin | hin
    · obtain ⟨v, hv, heq⟩ := mem_rootHashes.mp hin
      exact hall v (.inl hv) heq
    · obtain ⟨v, hv, heq⟩ := mem_rootHashes.mp hin
      exact hall v (.inr hv) heq

/-- **A change at a root** changes its record, and those of no others. -/
theorem atRoot_spec (honce : (rootHashes s.roots).Nodup) {f : RootUsage → RootUsage}
    (hf : ∀ u, (f u).namespaceHash = u.namespaceHash) :
    (s.atRoot h f = none ∧ none ∉ s.roots ∧ ∀ u, some u ∈ s.roots → u.namespaceHash ≠ h) ∨
      ∃ s', s.atRoot h f = some s' ∧ s'.slots = s.slots ∧ (rootHashes s'.roots).Nodup ∧
        (none ∈ s'.roots → none ∈ s.roots) ∧ (none ∈ s.roots ∨ h ∈ rootHashes s.roots) ∧
        ∀ u, some u ∈ s'.roots ↔ (u.namespaceHash ≠ h ∧ some u ∈ s.roots) ∨ u = f (s.rootOf h) := by
  unfold atRoot
  cases hfound : replaceFirst (inPlace h f) s.roots with
  | some roots =>
    -- The root has a place.
    obtain ⟨l₁, a, b, l₂, hs, hbefore, hb, rfl⟩ := replaceFirst_eq_some hfound
    cases a with
    | none => cases hb
    | some w =>
      obtain ⟨hw, hb⟩ := Option.ite_none_right_eq_some.mp hb
      cases Option.some.inj hb
      rw [hs, nodup_rootHashes] at honce
      have hroot : s.rootOf h = w := by
        have husage : s.usage h = some w := by
          have hskip : l₁.findSome? (fun o => o.filter fun u => u.namespaceHash == h) = none := by
            rw [List.findSome?_eq_none_iff]
            intro o ho
            rw [Option.filter_eq_none_iff]
            rintro v rfl heq
            have hv := honce.2 v (.inl ho)
            exact hv ((beq_iff_eq.mp heq).trans hw.symm)
          rw [usage, hs, List.findSome?_append, hskip, Option.none_or, List.findSome?_cons,
            Option.filter_some, if_pos (beq_iff_eq.mpr hw)]
        exact rootOf_some husage
      refine .inr ⟨_, rfl, rfl, ?_, fun hroom => ?_, .inr (mem_rootHashes.mpr ⟨w, ?_, hw⟩), fun u => ?_⟩
      · rw [nodup_rootHashes, hf]
        exact honce
      · rw [hs]
        rw [List.mem_append, List.mem_cons] at hroom ⊢
        exact hroom.imp id fun h => h.imp (fun h => nomatch h) id
      · rw [hs]
        exact List.mem_append_right _ List.mem_cons_self
      · rw [hs, hroot, List.mem_append, List.mem_cons, List.mem_append, List.mem_cons,
          Option.some.injEq, Option.some.injEq]
        constructor
        · rintro (hu | rfl | hu)
          · exact .inl ⟨hw ▸ honce.2 u (.inl hu), .inl hu⟩
          · exact .inr rfl
          · exact .inl ⟨hw ▸ honce.2 u (.inr hu), .inr (.inr hu)⟩
        · rintro (⟨hne, hu | rfl | hu⟩ | rfl)
          · exact .inl hu
          · exact absurd hw hne
          · exact .inr (.inr hu)
          · exact .inr (.inl rfl)
  | none =>
    have hother : ∀ u, some u ∈ s.roots → u.namespaceHash ≠ h := fun u hu heq => by
      have hnot := replaceFirst_eq_none hfound (some u) hu
      rw [inPlace, if_pos heq] at hnot
      cases hnot
    have husage : s.rootOf h = ⟨h, 0, 0, 0, 0⟩ := by
      have hnone : s.usage h = none := by
        cases hu : s.usage h with
        | none => rfl
        | some u =>
          obtain ⟨hmem, heq⟩ := usage_eq_some hu
          exact absurd heq (hother u hmem)
      exact rootOf_none hnone
    dsimp only
    cases hroom : replaceFirst (claimed (f ⟨h, 0, 0, 0, 0⟩)) s.roots with
    | none =>
      refine .inl ⟨rfl, fun hmem => ?_, hother⟩
      cases replaceFirst_eq_none hroom none hmem
    | some roots =>
      -- A place is claimed.
      obtain ⟨l₁, a, b, l₂, hs, hbefore, hb, rfl⟩ := replaceFirst_eq_some hroom
      cases a with
      | some w => cases hb
      | none =>
        cases Option.some.inj hb
        rw [hs] at honce hother
        have hfree : none ∈ s.roots := by
          rw [hs]
          exact List.mem_append_right _ List.mem_cons_self
        refine .inr ⟨_, rfl, rfl, ?_, fun _ => hfree, .inl hfree, fun u => ?_⟩
        · rw [nodup_rootHashes, hf]
          refine ⟨honce, fun v hv => hother v (List.mem_append.mpr (hv.imp id fun h => ?_))⟩
          exact List.mem_cons_of_mem _ h
        · rw [hs, husage, List.mem_append, List.mem_cons, List.mem_append, List.mem_cons,
            Option.some.injEq]
          constructor
          · rintro (hu | rfl | hu)
            · exact .inl ⟨hother u (List.mem_append_left _ hu), .inl hu⟩
            · exact .inr rfl
            · exact .inl ⟨hother u (List.mem_append_right _ (List.mem_cons_of_mem _ hu)),
                .inr (.inr hu)⟩
          · rintro (⟨-, hu | hu | hu⟩ | rfl)
            · exact .inl hu
            · cases hu
            · exact .inr (.inr hu)
            · exact .inr (.inl rfl)

/-! ## Charges -/

/-- An object more. -/
def charged (bytes : UInt64) (u : RootUsage) : RootUsage :=
  { u with objects := saturatingAdd u.objects 1, bytes := saturatingAdd u.bytes bytes }

/-- An object less. -/
def discharged (bytes : UInt64) (u : RootUsage) : RootUsage :=
  { u with objects := saturatingSub u.objects 1, bytes := saturatingSub u.bytes bytes }

variable {b : UInt64}

theorem credit_eq : s.credit h b = (s.atRoot h (charged b)).getD s := by
  unfold credit atRoot
  dsimp only
  split
  · next hfound =>
    rw [show replaceFirst (inPlace h (charged b)) s.roots = some _ from hfound]
    rfl
  next hfound =>
  rw [show replaceFirst (inPlace h (charged b)) s.roots = none from hfound]
  dsimp only
  split
  · next hroom =>
    rw [show replaceFirst (claimed (charged b ⟨h, 0, 0, 0, 0⟩)) s.roots = some _ from hroom]
    rfl
  · next hroom =>
    rw [show replaceFirst (claimed (charged b ⟨h, 0, 0, 0, 0⟩)) s.roots = none from hroom]
    rfl

theorem debit_form : s.debit h b =
    ((replaceFirst (inPlace h (discharged b)) s.roots).map fun roots =>
      { s with roots := roots }).getD s := by
  unfold debit
  split
  · next hfound =>
    rw [show replaceFirst (inPlace h (discharged b)) s.roots = some _ from hfound]
    rfl
  · next hfound =>
    rw [show replaceFirst (inPlace h (discharged b)) s.roots = none from hfound]
    rfl

/-- A root that has no place is not discharged. -/
theorem debit_same (hnone : ∀ u, some u ∈ s.roots → u.namespaceHash ≠ h) : s.debit h b = s := by
  rw [debit_form]
  cases hfound : replaceFirst (inPlace h (discharged b)) s.roots with
  | none => rfl
  | some roots =>
    obtain ⟨l₁, a, b, l₂, hs, -, hb, -⟩ := replaceFirst_eq_some hfound
    cases a with
    | none => cases hb
    | some w =>
      obtain ⟨hw, -⟩ := Option.ite_none_right_eq_some.mp hb
      refine absurd hw (hnone w ?_)
      rw [hs]
      exact List.mem_append_right _ List.mem_cons_self

theorem debit_eq (hu : some u ∈ s.roots) (hns : u.namespaceHash = h) :
    s.atRoot h (discharged b) = some (s.debit h b) := by
  rw [debit_form, atRoot]
  cases hfound : replaceFirst (inPlace h (discharged b)) s.roots with
  | some roots => rfl
  | none =>
    have hnot := replaceFirst_eq_none hfound (some u) hu
    rw [inPlace, if_pos hns] at hnot
    cases hnot

theorem toNat_saturatingSub (a b : UInt64) : (saturatingSub a b).toNat = a.toNat - b.toNat := by
  unfold saturatingSub
  split
  · next hle => rw [UInt64.toNat_sub_of_le _ _ hle]
  next hlt =>
  have := UInt64.lt_iff_toNat_lt.mp (UInt64.not_le.mp hlt)
  rw [Nat.sub_eq_zero_of_le (Nat.le_of_lt this)]
  rfl

theorem toNat_saturatingAdd {a b : UInt64} (hsum : a.toNat + b.toNat < 2 ^ 64) :
    (saturatingAdd a b).toNat = a.toNat + b.toNat := by
  have hadd : (a + b).toNat = a.toNat + b.toNat := by
    rw [UInt64.toNat_add, Nat.mod_eq_of_lt hsum]
  unfold saturatingAdd
  rw [if_neg, hadd]
  rw [UInt64.lt_iff_toNat_lt, hadd]
  omega

/-- The root has a place, or can have one. -/
def Tracks (s : ObjectIndex) (h : UInt64) : Prop := none ∈ s.roots ∨ h ∈ rootHashes s.roots

instance (s : ObjectIndex) (h : UInt64) : Decidable (s.Tracks h) :=
  inferInstanceAs (Decidable (_ ∨ _))

/-- What a charge keeps. -/
structure Charge (s s' : ObjectIndex) : Prop where
  slots : s'.slots = s.slots
  once : (rootHashes s'.roots).Nodup
  room : none ∈ s'.roots → none ∈ s.roots
  keeps : ∀ k ∈ rootHashes s.roots, k ∈ rootHashes s'.roots
  ceilings : ∀ u, some u ∈ s'.roots →
    (∃ v, some v ∈ s.roots ∧ v.namespaceHash = u.namespaceHash ∧ v.maxObjects = u.maxObjects ∧
      v.maxBytes = u.maxBytes) ∨ (u.maxObjects = 0 ∧ u.maxBytes = 0)

theorem Charge.refl (honce : (rootHashes s.roots).Nodup) : Charge s s :=
  ⟨rfl, honce, id, fun _ => id, fun u hu => .inl ⟨u, hu, rfl, rfl, rfl⟩⟩

theorem Charge.trans {s'' : ObjectIndex} (h₁ : Charge s s') (h₂ : Charge s' s'') : Charge s s'' where
  slots := h₂.slots.trans h₁.slots
  once := h₂.once
  room hn := h₁.room (h₂.room hn)
  keeps k hk := h₂.keeps k (h₁.keeps k hk)
  ceilings u hu := by
    rcases h₂.ceilings u hu with ⟨v, hv, hns, hobj, hbytes⟩ | hzero
    · rcases h₁.ceilings v hv with ⟨w, hw, hns', hobj', hbytes'⟩ | ⟨hobj', hbytes'⟩
      · exact .inl ⟨w, hw, hns'.trans hns, hobj'.trans hobj, hbytes'.trans hbytes⟩
      · exact .inr ⟨hobj ▸ hobj', hbytes ▸ hbytes'⟩
    · exact .inr hzero

theorem rootOf_hash (s : ObjectIndex) (h : UInt64) : (s.rootOf h).namespaceHash = h := by
  unfold rootOf
  cases hu : s.usage h with
  | none => rfl
  | some u => exact (usage_eq_some hu).2

theorem Charge.atRoot (honce : (rootHashes s.roots).Nodup) {f : RootUsage → RootUsage}
    (hf : ∀ u, (f u).namespaceHash = u.namespaceHash ∧ (f u).maxObjects = u.maxObjects ∧
      (f u).maxBytes = u.maxBytes) (hs : s.atRoot h f = some s') :
    Charge s s' ∧ h ∈ rootHashes s'.roots := by
  rcases atRoot_spec (h := h) honce fun u => (hf u).1 with ⟨hnone, -⟩ |
    ⟨t, ht, hslots, honce', hroom, -, hmem⟩
  · rw [hnone] at hs
    cases hs
  · obtain rfl := Option.some.inj (ht.symm.trans hs)
    have hhash : (f (s.rootOf h)).namespaceHash = h := (hf _).1.trans (rootOf_hash s h)
    have hself : h ∈ rootHashes t.roots := mem_rootHashes.mpr ⟨_, (hmem _).mpr (.inr rfl), hhash⟩
    refine ⟨⟨hslots, honce', hroom, fun k hk => ?_, fun u hu => ?_⟩, hself⟩
    · obtain ⟨u, hu, rfl⟩ := mem_rootHashes.mp hk
      by_cases heq : u.namespaceHash = h
      · exact heq ▸ hself
      · exact mem_rootHashes.mpr ⟨u, (hmem u).mpr (.inl ⟨heq, hu⟩), rfl⟩
    · rcases (hmem u).mp hu with ⟨-, hold⟩ | rfl
      · exact .inl ⟨u, hold, rfl, rfl, rfl⟩
      rw [(hf _).2.1, (hf _).2.2, hhash]
      unfold rootOf
      cases hu : s.usage h with
      | none => exact .inr ⟨rfl, rfl⟩
      | some w =>
        obtain ⟨hw, hns⟩ := usage_eq_some hu
        exact .inl ⟨w, hw, hns, rfl, rfl⟩

/-- A root is charged, if it has a place or there is room for one. -/
theorem credit_charge (honce : (rootHashes s.roots).Nodup) :
    Charge s (s.credit h b) ∧
      (none ∈ (s.credit h b).roots → h ∈ rootHashes (s.credit h b).roots) := by
  rw [credit_eq]
  cases hs : s.atRoot h (charged b) with
  | none =>
    refine ⟨.refl honce, fun hroom => ?_⟩
    rcases atRoot_spec (h := h) (f := charged b) honce fun _ => rfl with ⟨-, hfull, -⟩ | ⟨t, ht, -⟩
    · exact absurd hroom hfull
    rw [hs] at ht
    cases ht
  | some t =>
    obtain ⟨hc, hself⟩ := Charge.atRoot (f := charged b) honce (fun _ => ⟨rfl, rfl, rfl⟩) hs
    exact ⟨hc, fun _ => hself⟩

theorem debit_charge (honce : (rootHashes s.roots).Nodup) : Charge s (s.debit h b) := by
  by_cases hin : h ∈ rootHashes s.roots
  · obtain ⟨u, hu, hns⟩ := mem_rootHashes.mp hin
    exact (Charge.atRoot (f := discharged b) honce (fun _ => ⟨rfl, rfl, rfl⟩) (debit_eq hu hns)).1
  · rw [debit_same fun u hu hns => hin (mem_rootHashes.mpr ⟨u, hu, hns⟩)]
    exact .refl honce

theorem debit_mem (honce : (rootHashes s.roots).Nodup) (hin : h ∈ rootHashes s.roots)
    {u : RootUsage} (hu : some u ∈ (s.debit h b).roots) :
    u.namespaceHash ≠ h ∧ some u ∈ s.roots ∨ u = discharged b (s.rootOf h) := by
  obtain ⟨w, hw, hns⟩ := mem_rootHashes.mp hin
  have hdebit := debit_eq (b := b) hw hns
  rcases atRoot_spec (h := h) (f := discharged b) honce fun _ => rfl with ⟨hnone, -⟩ |
    ⟨t, ht, -, -, -, -, hmem⟩
  · rw [hnone] at hdebit
    cases hdebit
  · obtain rfl := Option.some.inj (ht.symm.trans hdebit)
    exact (hmem u).mp hu

theorem debit_hashes (honce : (rootHashes s.roots).Nodup)
    (hk : k ∈ rootHashes (s.debit h b).roots) : k ∈ rootHashes s.roots := by
  by_cases hin : h ∈ rootHashes s.roots
  · obtain ⟨u, hu, rfl⟩ := mem_rootHashes.mp hk
    rcases debit_mem honce hin hu with ⟨-, hold⟩ | rfl
    · exact mem_rootHashes.mpr ⟨u, hold, rfl⟩
    have hhash : (discharged b (s.rootOf h)).namespaceHash = h := rootOf_hash s h
    exact hhash.symm ▸ hin
  · rwa [debit_same fun u hu hns => hin (mem_rootHashes.mpr ⟨u, hu, hns⟩)] at hk

theorem Records.rootOf {O B : UInt64 → ℕ} (hr : Records s.roots O B)
    (hnew : h ∉ rootHashes s.roots → O h = 0 ∧ B h = 0) :
    (s.rootOf h).objects.toNat = O h ∧ (s.rootOf h).bytes.toNat = B h := by
  unfold ObjectIndex.rootOf
  cases hu : s.usage h with
  | none =>
    obtain ⟨hO, hB⟩ := hnew fun hin => by
      obtain ⟨u, hmem, hns⟩ := mem_rootHashes.mp hin
      exact usage_eq_none hu u hmem hns
    exact ⟨hO.symm, hB.symm⟩
  | some u =>
    obtain ⟨hmem, rfl⟩ := usage_eq_some hu
    exact hr u hmem

/-- **A charge is recorded.** -/
theorem Records.credit {O B O' B' : UInt64 → ℕ} (honce : (rootHashes s.roots).Nodup)
    (hr : Records s.roots O B) (hO : O' h = O h + 1) (hB : B' h = B h + b.toNat)
    (hother : ∀ k, k ≠ h → O' k = O k ∧ B' k = B k)
    (hnew : none ∈ s.roots → h ∉ rootHashes s.roots → O h = 0 ∧ B h = 0)
    (hfit : s.Tracks h → O' h < 2 ^ 64 ∧ B' h < 2 ^ 64) :
    Records (s.credit h b).roots O' B' := by
  rw [credit_eq]
  rcases atRoot_spec (h := h) (f := charged b) honce fun _ => rfl with ⟨hnone, -, hno⟩ |
    ⟨t, ht, -, -, -, htracks, hmem⟩
  · rw [hnone]
    intro u hu
    obtain ⟨hO', hB'⟩ := hother _ (hno u hu)
    rw [hO', hB']
    exact hr u hu
  · rw [ht]
    intro u hu
    rcases (hmem u).mp hu with ⟨hne, hold⟩ | rfl
    · obtain ⟨hO', hB'⟩ := hother _ hne
      rw [hO', hB']
      exact hr u hold
    obtain ⟨hobj, hbytes⟩ := hr.rootOf (h := h) fun hout =>
      hnew (htracks.resolve_right hout) hout
    obtain ⟨hfit₁, hfit₂⟩ := hfit htracks
    have hhash : (charged b (s.rootOf h)).namespaceHash = h := rootOf_hash s h
    rw [hhash, hO, hB]
    have hone : (1 : UInt64).toNat = 1 := rfl
    refine ⟨?_, ?_⟩
    · show (saturatingAdd (s.rootOf h).objects 1).toNat = _
      rw [toNat_saturatingAdd (by rw [hobj, hone, ← hO]; exact hfit₁), hobj, hone]
    · show (saturatingAdd (s.rootOf h).bytes b).toNat = _
      rw [toNat_saturatingAdd (by rw [hbytes, ← hB]; exact hfit₂), hbytes]

/-- **A discharge is recorded.** -/
theorem Records.debit {O B O' B' : UInt64 → ℕ} (honce : (rootHashes s.roots).Nodup)
    (hr : Records s.roots O B) (hO : O h = O' h + 1) (hB : B h = B' h + b.toNat)
    (hother : ∀ k, k ≠ h → O' k = O k ∧ B' k = B k) : Records (s.debit h b).roots O' B' := by
  by_cases hin : h ∈ rootHashes s.roots
  · intro u hu
    rcases debit_mem honce hin hu with ⟨hne, hold⟩ | rfl
    · obtain ⟨hO', hB'⟩ := hother _ hne
      rw [hO', hB']
      exact hr u hold
    obtain ⟨hobj, hbytes⟩ := hr.rootOf (h := h) fun hout => absurd hin hout
    have hhash : (discharged b (s.rootOf h)).namespaceHash = h := rootOf_hash s h
    rw [hhash]
    have hone : (1 : UInt64).toNat = 1 := rfl
    refine ⟨?_, ?_⟩
    · show (saturatingSub (s.rootOf h).objects 1).toNat = _
      rw [toNat_saturatingSub, hobj, hO, hone, Nat.add_sub_cancel]
    · show (saturatingSub (s.rootOf h).bytes b).toNat = _
      rw [toNat_saturatingSub, hbytes, hB, Nat.add_sub_cancel]
  · have hno : ∀ u, some u ∈ s.roots → u.namespaceHash ≠ h := fun u hu hns =>
      hin (mem_rootHashes.mpr ⟨u, hu, hns⟩)
    rw [debit_same hno]
    intro u hu
    obtain ⟨hO', hB'⟩ := hother _ (hno u hu)
    rw [hO', hB']
    exact hr u hu

/-! ## Slots -/

section Slots

variable {f : ObjectSlot → ℕ} {slots l₁ l₂ : List (Option ObjectSlot)} {x : ObjectSlot}

theorem total_split (f : ObjectSlot → ℕ) (l₁ l₂ : List (Option ObjectSlot)) (o : Option ObjectSlot)
    (k : UInt64) : total f (l₁ ++ o :: l₂) k = weight f k o + total f (l₁ ++ none :: l₂) k := by
  simp only [total, List.map_append, List.map_cons, List.sum_append, List.sum_cons, weight]
  omega

/-- A slot counts under its own root. -/
theorem total_some (f : ObjectSlot → ℕ) (l₁ l₂ : List (Option ObjectSlot)) (x : ObjectSlot) :
    total f (l₁ ++ some x :: l₂) x.namespaceHash =
        total f (l₁ ++ none :: l₂) x.namespaceHash + f x ∧
      ∀ k, k ≠ x.namespaceHash →
        total f (l₁ ++ some x :: l₂) k = total f (l₁ ++ none :: l₂) k := by
  refine ⟨?_, fun k hk => ?_⟩
  · rw [total_split, weight, if_pos rfl, Nat.add_comm]
  · rw [total_split, weight, if_neg hk.symm, Nat.zero_add]

theorem total_eq_zero (hnone : ∀ x, some x ∈ slots → x.namespaceHash ≠ k) : total f slots k = 0 := by
  induction slots with
  | nil => rfl
  | cons o os ih =>
    have hrest := ih fun x hx => hnone x (List.mem_cons_of_mem _ hx)
    show weight f k o + total f os k = 0
    rw [hrest, Nat.add_zero]
    cases o with
    | none => rfl
    | some x => exact if_neg (hnone x List.mem_cons_self)

/-- A root has no more objects than there are slots. -/
theorem total_one_le (slots : List (Option ObjectSlot)) (k : UInt64) :
    total one slots k ≤ slots.length := by
  induction slots with
  | nil => exact Nat.le_refl 0
  | cons o os ih =>
    show weight one k o + total one os k ≤ os.length + 1
    have hone : weight one k o ≤ 1 := by
      cases o with
      | none => exact Nat.zero_le 1
      | some x =>
        show (if x.namespaceHash = k then 1 else 0) ≤ 1
        split <;> omega
    omega

theorem lookup_split {id : Bytes} (hl : s.lookup id = some x) :
    ∃ l₁ l₂, s.slots = l₁ ++ some x :: l₂ ∧ x.holds (fnv1a64 id) id = true ∧
      ∀ y, some y ∈ l₁ → y.holds (fnv1a64 id) id = false := by
  obtain ⟨l₁, o, l₂, hs, hfound, hskip⟩ := List.findSome?_eq_some_iff.mp hl
  obtain ⟨rfl, hholds⟩ := Option.filter_eq_some_iff.mp hfound
  refine ⟨l₁, l₂, hs, hholds, fun y hy => ?_⟩
  have hnot := Option.filter_eq_none_iff.mp (hskip (some y) hy)
  exact Bool.eq_false_iff.mpr (hnot y rfl)

end Slots

/-! ## What an operation does to what is kept -/

variable {n : ℕ}

/-- A slot that is there has its root's place, while there is room for another. -/
theorem Kept.nothing (hk : Kept n s) (hroom : none ∈ s.roots) (hout : h ∉ rootHashes s.roots)
    {f : ObjectSlot → ℕ} : total f s.slots h = 0 :=
  total_eq_zero fun x hx heq => by
    obtain ⟨u, hu, hns⟩ := hk.placed hroom x hx
    exact hout (mem_rootHashes.mpr ⟨u, hu, hns.trans heq⟩)

/-- The roots that objects had to have keep their places. -/
theorem Kept.accounted {slots : List (Option ObjectSlot)} (hk : Kept n s)
    (hc : Charge { s with slots := slots } s') (hlen : slots.length = n)
    (hexact : Records s'.roots (total one slots) (total size slots))
    (hplaced : none ∈ s'.roots → ∀ x, some x ∈ slots → some x ∈ s.slots ∨
      x.namespaceHash ∈ rootHashes s'.roots) : Kept n s' where
  exact := by
    rw [Adds, hc.slots]
    exact hexact
  once := hc.once
  placed hroom x hx := by
    rw [hc.slots] at hx
    rcases hplaced hroom x hx with hold | hin
    · obtain ⟨u, hu, hns⟩ := hk.placed (hc.room hroom) x hold
      exact mem_rootHashes.mp (hns ▸ hc.keeps _ (mem_rootHashes.mpr ⟨u, hu, rfl⟩))
    · exact mem_rootHashes.mp hin
  slots := by
    rw [hc.slots]
    exact hlen

/-- A put that takes a slot. -/
def Inserts (L : Limits) (s : ObjectIndex) (p : PutFields) : Prop :=
  p.id.length ≤ L.maxObjectId ∧ s.lookup p.id = none ∧
    (∀ u ∈ s.usage (fnv1a64 p.namespaceRoot), u.wouldExceed p.sizeBytes = false) ∧ none ∈ s.slots

instance (L : Limits) (s : ObjectIndex) (p : PutFields) : Decidable (s.Inserts L p) :=
  inferInstanceAs (Decidable (_ ∧ _ ∧ _ ∧ _))

/-- The slot that a put fills. -/
def slotOf (p : PutFields) : ObjectSlot :=
  ⟨fnv1a64 p.id, p.id, fnv1a64 p.namespaceRoot, derivedDigest p.id, p.sizeBytes, p.revision,
    p.dataClass, p.replicaCount, p.erasure, p.namespaceRoot, rfl⟩

/-- **A put** fills a slot and charges its root, or leaves the index. -/
theorem putNew_cases (L : Limits) (s : ObjectIndex) (p : PutFields) :
    (s.putNew L p).1 = s ∨ s.Inserts L p ∧ ∃ l₁ l₂, s.slots = l₁ ++ none :: l₂ ∧
      (s.putNew L p).1 = ({ s with slots := l₁ ++ some (slotOf p) :: l₂ } : ObjectIndex).credit
        (fnv1a64 p.namespaceRoot) p.sizeBytes := by
  unfold putNew
  split
  · exact .inl rfl
  next hlen =>
  split
  · split <;> exact .inl rfl
  next hlookup =>
  dsimp only
  split
  · exact .inl rfl
  next hquota =>
  split
  · next slots hslots =>
    obtain ⟨l₁, a, b, l₂, hs, -, hb, rfl⟩ := replaceFirst_eq_some hslots
    cases a with
    | some w => cases hb
    | none =>
      cases Option.some.inj hb
      refine .inr ⟨⟨Nat.not_lt.mp hlen, hlookup, fun u hu => ?_, ?_⟩, l₁, l₂, hs, rfl⟩
      · have hu' : s.usage (fnv1a64 p.namespaceRoot) = some u := hu
        have hany : ¬ (s.usage (fnv1a64 p.namespaceRoot)).any
          (fun u => u.wouldExceed p.sizeBytes) = true := hquota
        rw [hu'] at hany
        exact Bool.eq_false_iff.mpr hany
      · rw [hs]
        exact List.mem_append_right _ List.mem_cons_self
  · exact .inl rfl

theorem WithinCeilings.refl (s : ObjectIndex) : WithinCeilings s s := fun u hu =>
  ⟨fun _ hover => ⟨u, hu, rfl, hover⟩, fun _ hover => ⟨u, hu, rfl, hover⟩⟩

/-- Where records are exact, ceilings are kept when the slots of no root pass them. -/
theorem withinCeilings_of (hs : Adds s) (hs' : Adds s')
    (hceil : ∀ u, some u ∈ s'.roots →
      (∃ v, some v ∈ s.roots ∧ v.namespaceHash = u.namespaceHash ∧ v.maxObjects = u.maxObjects ∧
        v.maxBytes = u.maxBytes) ∨ (u.maxObjects = 0 ∧ u.maxBytes = 0))
    (hgrow : ∀ v, some v ∈ s.roots →
      (v.maxObjects ≠ 0 → v.maxObjects.toNat < total one s'.slots v.namespaceHash →
        v.maxObjects.toNat < total one s.slots v.namespaceHash) ∧
      (v.maxBytes ≠ 0 → v.maxBytes.toNat < total size s'.slots v.namespaceHash →
        v.maxBytes.toNat < total size s.slots v.namespaceHash)) : WithinCeilings s s' := by
  intro u hu
  obtain ⟨hobj', hbytes'⟩ := hs' u hu
  rcases hceil u hu with ⟨v, hv, hns, hmo, hmb⟩ | ⟨hmo, hmb⟩
  · obtain ⟨hobj, hbytes⟩ := hs v hv
    obtain ⟨hgo, hgb⟩ := hgrow v hv
    rw [hns] at hobj hbytes hgo hgb
    rw [hmo] at hgo
    rw [hmb] at hgb
    refine ⟨fun hne hover => ⟨v, hv, hns, ?_⟩, fun hne hover => ⟨v, hv, hns, ?_⟩⟩
    · rw [UInt64.lt_iff_toNat_lt] at hover ⊢
      rw [hobj]
      exact hgo hne (hobj' ▸ hover)
    · rw [UInt64.lt_iff_toNat_lt] at hover ⊢
      rw [hbytes]
      exact hgb hne (hbytes' ▸ hover)
  · exact ⟨fun hne => absurd hmo hne, fun hne => absurd hmb hne⟩

/-- A root's record is the one that is found. -/
theorem usage_of_mem (honce : (rootHashes s.roots).Nodup) (hu : some u ∈ s.roots)
    (hns : u.namespaceHash = h) : s.usage h = some u := by
  cases hv : s.usage h with
  | none => exact absurd hns (usage_eq_none hv u hu)
  | some v =>
    obtain ⟨hmem, hns'⟩ := usage_eq_some hv
    obtain ⟨l₁, l₂, hs⟩ := List.append_of_mem hu
    rw [hs, nodup_rootHashes] at honce
    rw [hs, List.mem_append, List.mem_cons] at hmem
    rcases hmem with hin | hself | hin
    · exact absurd (hns'.trans hns.symm) (honce.2 v (.inl hin))
    · exact hself
    · exact absurd (hns'.trans hns.symm) (honce.2 v (.inr hin))

/-- What the other slots of the new root come to, and the object behind it. -/
def afterUpdate (f : ObjectSlot → ℕ) (s : ObjectIndex) (root : Bytes) (old : ObjectSlot) (new : ℕ) : ℕ :=
  ofRoot f s.slots root - (if old.namespaceRoot = root then f old else 0) + new

/-- An update that fits: no sum is cut, and its root is not taken past a ceiling that it is
not past already. -/
def FitsUpdate (s : ObjectIndex) (p : PutFields) (old : ObjectSlot) : Prop :=
  let root := p.namespaceRoot
  let h := fnv1a64 root
  (s.Tracks h → s.afterUpdate size root old p.sizeBytes.toNat < 2 ^ 64) ∧
    ∀ u ∈ s.usage h,
      (u.maxObjects = 0 ∨ s.afterUpdate one root old 1 ≤ u.maxObjects.toNat ∨
        u.maxObjects.toNat < ofRoot one s.slots root) ∧
      (u.maxBytes = 0 ∨ s.afterUpdate size root old p.sizeBytes.toNat ≤ u.maxBytes.toNat ∨
        u.maxBytes.toNat < ofRoot size s.slots root)

instance (s : ObjectIndex) (p : PutFields) (old : ObjectSlot) : Decidable (s.FitsUpdate p old) :=
  inferInstanceAs (Decidable (_ ∧ _))

/-- The root an operation names. -/
def Move.root? : Move → Option Bytes
  | .put p | .update p => some p.namespaceRoot
  | .remove _ => none
  | .setQuota root .. => some root

/-- Where an operation puts an object, the bytes of the root have 64 bits; and see
`FitsUpdate`. -/
def FitsMove (L : Limits) (s : ObjectIndex) : Move → Prop
  | .put p => s.Inserts L p → s.Tracks (fnv1a64 p.namespaceRoot) →
    ofRoot size s.slots p.namespaceRoot + p.sizeBytes.toNat < 2 ^ 64
  | .update p => ∀ old ∈ s.lookup p.id, s.FitsUpdate p old
  | _ => True

instance (L : Limits) (s : ObjectIndex) : (m : Move) → Decidable (s.FitsMove L m)
  | .put _ => inferInstanceAs (Decidable (_ → _ → _))
  | .update _ => inferInstanceAs (Decidable (∀ old ∈ _, _))
  | .remove _ => .isTrue trivial
  | .setQuota .. => .isTrue trivial

/-- **An operation that fits**, and names one of these roots. -/
def Fits (L : Limits) (roots : List Bytes) (s : ObjectIndex) (m : Move) : Prop :=
  (∀ root ∈ m.root?, root ∈ roots) ∧ s.FitsMove L m

instance (L : Limits) (roots : List Bytes) (s : ObjectIndex) : DecidablePred (s.Fits L roots) :=
  fun m => inferInstanceAs (Decidable ((∀ root ∈ m.root?, root ∈ roots) ∧ _))

/-! ## Roots and their hashes -/

/-- The roots of these slots and this one: no two of them have one hash. -/
def Apart (slots : List (Option ObjectSlot)) (root : Bytes) : Prop :=
  ∀ x, some x ∈ slots → x.namespaceHash = fnv1a64 root → x.namespaceRoot = root

variable {root : Bytes}

theorem Apart.own {slots : List (Option ObjectSlot)} (ha : Apart slots root) {x : ObjectSlot}
    (hx : some x ∈ slots) : x.namespaceRoot = root ↔ x.namespaceHash = fnv1a64 root :=
  ⟨fun he => by rw [x.namespace_hashed, he], ha x hx⟩

/-- **What has a root's hash is the root's**, where no other root has it. -/
theorem Apart.ofRoot_eq {slots : List (Option ObjectSlot)} (ha : Apart slots root)
    (f : ObjectSlot → ℕ) : ofRoot f slots root = total f slots (fnv1a64 root) := by
  refine congrArg List.sum (List.map_congr_left fun o ho => ?_)
  cases o with
  | none => rfl
  | some x =>
    rw [Option.filter_some, weight]
    by_cases he : x.namespaceRoot = root
    · rw [if_pos (beq_iff_eq.mpr he), if_pos ((ha.own ho).mp he)]
      rfl
    · rw [if_neg (mt beq_iff_eq.mp he), if_neg (mt (ha.own ho).mpr he)]
      rfl

theorem Kept.put (hn : n < 2 ^ 64) (hk : Kept n s) (ha : Apart s.slots p.namespaceRoot)
    (hfit : s.FitsMove L (.put p)) :
    Kept n (s.putNew L p).1 ∧ WithinCeilings s (s.putNew L p).1 := by
  rcases putNew_cases L s p with hsame | ⟨hins, l₁, l₂, hs, hput⟩
  · rw [hsame]
    exact ⟨hk, .refl s⟩
  rw [hput]
  set h := fnv1a64 p.namespaceRoot with hh
  set t : ObjectIndex := { s with slots := l₁ ++ some (slotOf p) :: l₂ } with ht
  have hlen : (l₁ ++ some (slotOf p) :: l₂).length = n := by
    rw [← hk.slots, hs, List.length_append, List.length_append]
    rfl
  obtain ⟨hc, hself⟩ := credit_charge (s := t) (h := h) (b := p.sizeBytes) hk.once
  have hobj := total_some one l₁ l₂ (slotOf p)
  have hbytes := total_some size l₁ l₂ (slotOf p)
  rw [← hs] at hobj hbytes
  refine ⟨hk.accounted hc hlen ?_ fun hroom x hx => ?_, fun u hu => ?_⟩
  · refine Records.credit (s := t) hk.once hk.exact hobj.1 hbytes.1
      (fun k hk => ⟨hobj.2 k hk, hbytes.2 k hk⟩)
      (fun hroom hout => ⟨hk.nothing hroom hout, hk.nothing hroom hout⟩) fun htracks => ⟨?_, ?_⟩
    · exact (total_one_le _ _).trans_lt (hlen ▸ hn)
    · have := hbytes.1
      rw [show total size (l₁ ++ some (slotOf p) :: l₂) h = _ from hbytes.1]
      exact ha.ofRoot_eq size ▸ hfit hins htracks
  · rw [List.mem_append, List.mem_cons] at hx
    rcases hx with hx | hx | hx
    · exact .inl (hs ▸ List.mem_append_left _ hx)
    · cases Option.some.inj hx
      exact .inr (hself hroom)
    · exact .inl (hs ▸ List.mem_append_right _ (List.mem_cons_of_mem _ hx))
  · -- A root that is charged was asked whether it would go past a ceiling.
    rw [credit_eq] at hu
    rcases atRoot_spec (s := t) (h := h) (f := charged p.sizeBytes) hk.once fun _ => rfl with
      ⟨hnone, -⟩ | ⟨t', ht', -, -, -, -, hmem⟩
    · rw [hnone] at hu
      exact WithinCeilings.refl s u hu
    · rw [ht'] at hu
      rcases (hmem u).mp hu with ⟨-, hold⟩ | rfl
      · exact WithinCeilings.refl s u hold
      cases hw : s.usage h with
      | none =>
        rw [show t.rootOf h = _ from rootOf_none hw]
        exact ⟨fun hne => absurd rfl hne, fun hne => absurd rfl hne⟩
      | some w =>
        have hroot : t.rootOf h = w := rootOf_some hw
        have hasked := hins.2.2.1 w hw
        rw [RootUsage.wouldExceed, Bool.or_eq_false_iff] at hasked
        rw [hroot]
        refine ⟨fun hne hover => ?_, fun hne hover => ?_⟩
        · rw [bne_iff_ne.mpr (show w.maxObjects ≠ 0 from hne), Bool.true_and,
            decide_eq_false_iff_not] at hasked
          exact absurd hover hasked.1
        · rw [bne_iff_ne.mpr (show w.maxBytes ≠ 0 from hne), Bool.true_and,
            decide_eq_false_iff_not] at hasked
          exact absurd hover hasked.2

theorem remove_eq {id : Bytes} {old : ObjectSlot} (hl : s.lookup id = some old) :
    ∃ l₁ l₂, s.slots = l₁ ++ some old :: l₂ ∧
      (s.remove id).1 = ({ s with slots := l₁ ++ none :: l₂ } : ObjectIndex).debit
        old.namespaceHash old.sizeBytes := by
  obtain ⟨l₁, l₂, hs, hholds, hskip⟩ := lookup_split hl
  refine ⟨l₁, l₂, hs, ?_⟩
  unfold remove
  rw [hl]
  dsimp only
  rw [hs, replaceFirst_split (b := none) (fun o ho => ?_) ?_]
  · rfl
  · exact if_pos hholds
  · cases o with
    | none => rfl
    | some y => exact if_neg (Bool.eq_false_iff.mp (hskip y ho))

/-- A slot that is moved. -/
def movedTo (p : PutFields) (old : ObjectSlot) : ObjectSlot :=
  { old with
    namespaceHash := fnv1a64 p.namespaceRoot
    sizeBytes := p.sizeBytes
    revision := p.revision
    dataClass := p.dataClass
    replicaCount := p.replicaCount
    erasure := p.erasure
    namespaceRoot := p.namespaceRoot
    namespace_hashed := rfl }

theorem update_eq {old : ObjectSlot} (hl : s.lookup p.id = some old) :
    ∃ l₁ l₂, s.slots = l₁ ++ some old :: l₂ ∧
      (s.update p).1 = (({ s with slots := l₁ ++ some (movedTo p old) :: l₂ } : ObjectIndex).debit
        old.namespaceHash old.sizeBytes).credit (fnv1a64 p.namespaceRoot) p.sizeBytes := by
  obtain ⟨l₁, l₂, hs, hholds, hskip⟩ := lookup_split hl
  refine ⟨l₁, l₂, hs, ?_⟩
  unfold update
  rw [hl]
  dsimp only
  rw [hs, replaceFirst_split (b := some (movedTo p old)) (fun o ho => ?_) ?_]
  · rfl
  · exact if_pos hholds
  · cases o with
    | none => rfl
    | some y => exact if_neg (Bool.eq_false_iff.mp (hskip y ho))

theorem Kept.remove (hk : Kept n s) (id : Bytes) :
    Kept n (s.remove id).1 ∧ WithinCeilings s (s.remove id).1 := by
  cases hl : s.lookup id with
  | none =>
    have hsame : (s.remove id).1 = s := by
      unfold ObjectIndex.remove
      rw [hl]
    rw [hsame]
    exact ⟨hk, .refl s⟩
  | some old =>
    obtain ⟨l₁, l₂, hs, heq⟩ := remove_eq hl
    rw [heq]
    set t : ObjectIndex := { s with slots := l₁ ++ none :: l₂ } with ht
    have hlen : (l₁ ++ none :: l₂).length = n := by
      rw [← hk.slots, hs, List.length_append, List.length_append]
      rfl
    have hc := debit_charge (s := t) (h := old.namespaceHash) (b := old.sizeBytes) hk.once
    have hobj := total_some one l₁ l₂ old
    have hbytes := total_some size l₁ l₂ old
    rw [← hs] at hobj hbytes
    have hkept : Kept n (t.debit old.namespaceHash old.sizeBytes) := by
      refine hk.accounted hc hlen ?_ fun _ x hx => .inl ?_
      · exact Records.debit (s := t) hk.once hk.exact hobj.1 hbytes.1 fun k hk =>
          ⟨(hobj.2 k hk).symm, (hbytes.2 k hk).symm⟩
      · rw [List.mem_append, List.mem_cons] at hx
        rw [hs, List.mem_append, List.mem_cons]
        exact hx.imp_right fun h => .inr (h.resolve_left nofun)
    refine ⟨hkept, withinCeilings_of hk.exact hkept.exact hc.ceilings fun v _ => ?_⟩
    rw [hc.slots]
    refine ⟨fun _ hover => hover.trans_le ?_, fun _ hover => hover.trans_le ?_⟩
    · rw [hs]
      exact (total_split one l₁ l₂ (some old) _).ge.trans' (Nat.le_add_left _ _)
    · rw [hs]
      exact (total_split size l₁ l₂ (some old) _).ge.trans'
        (Nat.le_add_left _ _)

/-- What an update leaves of a root that is not the new one, and what the new one comes to. -/
theorem total_moved (f : ObjectSlot → ℕ) {l₁ l₂ : List (Option ObjectSlot)} {old : ObjectSlot}
    (hs : s.slots = l₁ ++ some old :: l₂) (ha : Apart s.slots p.namespaceRoot) :
    total f (l₁ ++ some (movedTo p old) :: l₂) (fnv1a64 p.namespaceRoot) =
        s.afterUpdate f p.namespaceRoot old (f (movedTo p old)) ∧
      ∀ k, k ≠ fnv1a64 p.namespaceRoot →
        total f (l₁ ++ some (movedTo p old) :: l₂) k ≤ total f s.slots k := by
  obtain ⟨hself, hother⟩ := total_some f l₁ l₂ (movedTo p old)
  refine ⟨?_, fun k hk => ?_⟩
  · refine hself.trans ?_
    have hold : some old ∈ s.slots := by
      rw [hs]
      exact List.mem_append_right _ List.mem_cons_self
    have hown : (if old.namespaceRoot = p.namespaceRoot then f old else 0) =
        weight f (fnv1a64 p.namespaceRoot) (some old) :=
      if_congr (ha.own hold) rfl rfl
    rw [afterUpdate, hown, ha.ofRoot_eq, hs, total_split f l₁ l₂ (some old),
      Nat.add_sub_cancel_left]
    rfl
  · rw [hother k hk, hs]
    exact (total_split f l₁ l₂ (some old) k).ge.trans' (Nat.le_add_left _ _)

theorem Kept.update (hn : n < 2 ^ 64) (hk : Kept n s) (ha : Apart s.slots p.namespaceRoot)
    (hfit : s.FitsMove L (.update p)) :
    Kept n (s.update p).1 ∧ WithinCeilings s (s.update p).1 := by
  cases hl : s.lookup p.id with
  | none =>
    have hsame : (s.update p).1 = s := by
      unfold ObjectIndex.update
      rw [hl]
    rw [hsame]
    exact ⟨hk, .refl s⟩
  | some old =>
    obtain ⟨hbytesFit, hceilFit⟩ := hfit old hl
    obtain ⟨l₁, l₂, hs, heq⟩ := update_eq hl
    rw [heq]
    set h := fnv1a64 p.namespaceRoot with hh
    set t : ObjectIndex := { s with slots := l₁ ++ some (movedTo p old) :: l₂ } with ht
    have hlen : (l₁ ++ some (movedTo p old) :: l₂).length = n := by
      rw [← hk.slots, hs, List.length_append, List.length_append]
      rfl
    have hc₁ := debit_charge (s := t) (h := old.namespaceHash) (b := old.sizeBytes) hk.once
    obtain ⟨hc₂, hself⟩ := credit_charge (s := t.debit old.namespaceHash old.sizeBytes) (h := h)
      (b := p.sizeBytes) hc₁.once
    have hc := hc₁.trans hc₂
    have hobj := total_some one l₁ l₂ old
    have hbytes := total_some size l₁ l₂ old
    rw [← hs] at hobj hbytes
    have hobj' := total_some one l₁ l₂ (movedTo p old)
    have hbytes' := total_some size l₁ l₂ (movedTo p old)
    have hmovedObj := total_moved one hs ha
    have hmovedBytes := total_moved size hs ha
    have hkept : Kept n ((t.debit old.namespaceHash old.sizeBytes).credit h p.sizeBytes) := by
      refine hk.accounted hc hlen ?_ fun hroom x hx => ?_
      · -- The object is discharged where it was, and charged where it goes.
        have hdebit := Records.debit (s := t) (h := old.namespaceHash) (b := old.sizeBytes)
          hk.once hk.exact hobj.1 hbytes.1 fun k hk => ⟨(hobj.2 k hk).symm, (hbytes.2 k hk).symm⟩
        refine Records.credit hc₁.once hdebit hobj'.1 hbytes'.1
          (fun k hk => ⟨hobj'.2 k hk, hbytes'.2 k hk⟩) (fun hroom hout => ?_) fun htracks => ⟨?_, ?_⟩
        · have hroom' : none ∈ s.roots := hc₁.room hroom
          have hout' : h ∉ rootHashes s.roots := fun hin => hout (hc₁.keeps h hin)
          have hnothing : ∀ f : ObjectSlot → ℕ, total f (l₁ ++ none :: l₂) h = 0 := fun f => by
            have hzero : total f s.slots h = 0 := hk.nothing hroom' hout'
            rw [hs, total_split] at hzero
            exact (Nat.add_eq_zero_iff.mp hzero).2
          exact ⟨hnothing _, hnothing _⟩
        · exact (total_one_le _ _).trans_lt (hlen ▸ hn)
        · refine (hmovedBytes.1 ▸ hbytesFit ?_ : total size _ h < 2 ^ 64)
          rcases htracks with hroom | hin
          · exact .inl (hc₁.room hroom)
          · exact .inr (debit_hashes (s := t) hk.once hin)
      · rw [List.mem_append, List.mem_cons] at hx
        rw [hs, List.mem_append, List.mem_cons]
        rcases hx with hx | hx | hx
        · exact .inl (.inl hx)
        · cases Option.some.inj hx
          exact .inr (hself hroom)
        · exact .inl (.inr (.inr hx))
    refine ⟨hkept, withinCeilings_of hk.exact hkept.exact hc.ceilings fun v hv => ?_⟩
    rw [hc.slots]
    by_cases hns : v.namespaceHash = h
    · obtain ⟨hmo, hmb⟩ := hceilFit v (usage_of_mem hk.once hv hns)
      rw [ha.ofRoot_eq] at hmo hmb
      rw [hns]
      refine ⟨fun hne hover => ?_, fun hne hover => ?_⟩
      · refine (hmo.resolve_left hne).resolve_left (Nat.not_le.mpr ?_)
        exact hmovedObj.1 ▸ hover
      · refine (hmb.resolve_left hne).resolve_left (Nat.not_le.mpr ?_)
        exact hmovedBytes.1 ▸ hover
    · exact ⟨fun _ hover => hover.trans_le (hmovedObj.2 _ hns),
        fun _ hover => hover.trans_le (hmovedBytes.2 _ hns)⟩

theorem Kept.setQuota (hk : Kept n s) (root : Bytes) (maxObjects maxBytes : UInt64) :
    Kept n (s.setQuota root maxObjects maxBytes).1 ∧
      WithinCeilings s (s.setQuota root maxObjects maxBytes).1 := by
  set f : RootUsage → RootUsage := fun u =>
    { u with maxObjects := maxObjects, maxBytes := maxBytes } with hf
  unfold ObjectIndex.setQuota
  rcases atRoot_spec (h := fnv1a64 root) (f := f) hk.once fun _ => rfl with
    ⟨hnone, -⟩ | ⟨t, ht, hslots, honce, hroom, htracks, hmem⟩
  · rw [hnone]
    exact ⟨hk, .refl s⟩
  · rw [ht]
    have hhash : (f (s.rootOf (fnv1a64 root))).namespaceHash = fnv1a64 root := rootOf_hash s _
    have hrecorded := Records.rootOf (s := s) (h := fnv1a64 root) hk.exact fun hout =>
      ⟨hk.nothing (htracks.resolve_right hout) hout, hk.nothing (htracks.resolve_right hout) hout⟩
    refine ⟨⟨?_, honce, fun hfree x hx => ?_, hslots ▸ hk.slots⟩, fun u hu => ?_⟩
    · rw [Adds, hslots]
      intro u hu
      rcases (hmem u).mp hu with ⟨-, hold⟩ | rfl
      · exact hk.exact u hold
      rw [hhash]
      exact hrecorded
    · obtain ⟨u, hu, hns⟩ := hk.placed (hroom hfree) x (hslots ▸ hx)
      by_cases heq : u.namespaceHash = fnv1a64 root
      · exact ⟨_, (hmem _).mpr (.inr rfl), hhash.trans (heq.symm.trans hns)⟩
      · exact ⟨u, (hmem u).mpr (.inl ⟨heq, hu⟩), hns⟩
    · -- The ceilings are new, what they are asked of is not.
      rcases (hmem u).mp hu with ⟨-, hold⟩ | rfl
      · exact WithinCeilings.refl s u hold
      cases hw : s.usage (fnv1a64 root) with
      | some w =>
        obtain ⟨hin, hns⟩ := usage_eq_some hw
        rw [rootOf_some hw]
        exact ⟨fun _ hover => ⟨w, hin, rfl, hover⟩, fun _ hover => ⟨w, hin, rfl, hover⟩⟩
      | none =>
        rw [rootOf_none hw]
        exact ⟨fun _ hover => absurd hover (UInt64.not_lt_zero),
          fun _ hover => absurd hover (UInt64.not_lt_zero)⟩

/-! ## Runs -/

theorem Kept.new (n : ℕ) : Kept n (new n) := by
  have hroots : ∀ u, some u ∉ (ObjectIndex.new n).roots := fun u hu =>
    Option.some_ne_none u (List.eq_of_mem_replicate hu)
  refine ⟨fun u hu => absurd hu (hroots u), ?_, fun _ x hx => ?_, List.length_replicate⟩
  · rw [show rootHashes (ObjectIndex.new n).roots = [] from ?_]
    · exact List.nodup_nil
    · exact List.eq_nil_iff_forall_not_mem.mpr fun k hk =>
        have ⟨u, hu, _⟩ := mem_rootHashes.mp hk
        hroots u hu
  · exact absurd (List.eq_of_mem_replicate hx) (Option.some_ne_none x)

theorem mem_replaced {l₁ l₂ : List (Option ObjectSlot)} {o o' : Option ObjectSlot}
    (hs : s.slots = l₁ ++ o :: l₂) {x : ObjectSlot} (hx : some x ∈ l₁ ++ o' :: l₂) :
    some x ∈ s.slots ∨ some x = o' := by
  rw [List.mem_append, List.mem_cons] at hx
  rw [hs, List.mem_append, List.mem_cons]
  tauto

/-- What is kept, and that every object is under one of these roots. -/
structure Sound (n : ℕ) (roots : List Bytes) (s : ObjectIndex) : Prop extends Kept n s where
  named : ∀ x, some x ∈ s.slots → x.namespaceRoot ∈ roots

/-- No two of the roots have one hash. -/
def HashedApart (roots : List Bytes) : Prop :=
  ∀ r ∈ roots, ∀ r' ∈ roots, fnv1a64 r = fnv1a64 r' → r = r'

instance (roots : List Bytes) : Decidable (HashedApart roots) :=
  inferInstanceAs (Decidable (∀ r ∈ roots, ∀ r' ∈ roots, _))

section Named

variable {roots : List Bytes}

theorem Sound.apart (hk : Sound n roots s) (hd : HashedApart roots) (hr : root ∈ roots) :
    Apart s.slots root := fun x hx he =>
  hd _ (hk.named x hx) _ hr (x.namespace_hashed.symm.trans he)

theorem Sound.exact_root (hk : Sound n roots s) (hd : HashedApart roots) (hr : root ∈ roots) :
    Exact s root := fun u hu => by
  obtain ⟨hmem, hns⟩ := usage_eq_some hu
  obtain ⟨hobj, hbytes⟩ := hk.toKept.exact u hmem
  rw [hns] at hobj hbytes
  exact ⟨hobj.trans ((hk.apart hd hr).ofRoot_eq one).symm,
    hbytes.trans ((hk.apart hd hr).ofRoot_eq size).symm⟩

/-- The ceilings of a root are those of its record. -/
theorem WithinCeilings.keeps (hc : WithinCeilings s s') (hk : Sound n roots s)
    (hk' : Sound n roots s') (hd : HashedApart roots) (hr : root ∈ roots) :
    KeepsCeilings s s' root := fun u hu => by
  obtain ⟨hmem, hns⟩ := usage_eq_some hu
  obtain ⟨hobj', hbytes'⟩ := hk'.exact_root hd hr u hu
  obtain ⟨ho, hb⟩ := hc u hmem
  rw [← hobj', ← hbytes']
  refine ⟨fun hne hover => ?_, fun hne hover => ?_⟩
  · obtain ⟨v, hv, hns', hlt⟩ := ho hne (UInt64.lt_iff_toNat_lt.mpr hover)
    rw [← (hk.exact_root hd hr v (usage_of_mem hk.once hv (hns'.trans hns))).1]
    exact UInt64.lt_iff_toNat_lt.mp hlt
  · obtain ⟨v, hv, hns', hlt⟩ := hb hne (UInt64.lt_iff_toNat_lt.mpr hover)
    rw [← (hk.exact_root hd hr v (usage_of_mem hk.once hv (hns'.trans hns))).2]
    exact UInt64.lt_iff_toNat_lt.mp hlt

/-- An object is under the root it was last put or updated under. -/
theorem Sound.named_step (hk : Sound n roots s) {m : Move} (hm : ∀ r ∈ m.root?, r ∈ roots)
    (x : ObjectSlot) (hx : some x ∈ (s.step L m).slots) : x.namespaceRoot ∈ roots := by
  cases m with
  | put p =>
    rcases putNew_cases L s p with hsame | ⟨-, l₁, l₂, hs, hput⟩
    · exact hk.named x (hsame ▸ hx)
    have hc := (credit_charge (s := { s with slots := l₁ ++ some (slotOf p) :: l₂ })
      (h := fnv1a64 p.namespaceRoot) (b := p.sizeBytes) hk.once).1
    simp only [step, hput, hc.slots] at hx
    rcases mem_replaced hs hx with hold | hnew
    · exact hk.named x hold
    cases hnew
    exact hm _ rfl
  | update p =>
    cases hl : s.lookup p.id with
    | none =>
      simp only [step, ObjectIndex.update, hl] at hx
      exact hk.named x hx
    | some old =>
      obtain ⟨l₁, l₂, hs, heq⟩ := update_eq hl
      have hc₁ := debit_charge (s := { s with slots := l₁ ++ some (movedTo p old) :: l₂ })
        (h := old.namespaceHash) (b := old.sizeBytes) hk.once
      simp only [step, heq, (credit_charge hc₁.once).1.slots, hc₁.slots] at hx
      rcases mem_replaced hs hx with hold | hnew
      · exact hk.named x hold
      cases hnew
      exact hm _ rfl
  | remove id =>
    cases hl : s.lookup id with
    | none =>
      simp only [step, ObjectIndex.remove, hl] at hx
      exact hk.named x hx
    | some old =>
      obtain ⟨l₁, l₂, hs, heq⟩ := remove_eq hl
      simp only [step, heq, (debit_charge (s := { s with slots := l₁ ++ none :: l₂ }) hk.once).slots]
        at hx
      exact hk.named x ((mem_replaced hs hx).resolve_right nofun)
  | setQuota r maxObjects maxBytes =>
    have hslots : (s.setQuota r maxObjects maxBytes).1.slots = s.slots := by
      unfold ObjectIndex.setQuota
      rcases atRoot_spec (h := fnv1a64 r)
          (f := fun u => { u with maxObjects := maxObjects, maxBytes := maxBytes }) hk.once
          fun _ => rfl with ⟨hnone, -⟩ | ⟨t, ht, hslots, -⟩
      · rw [hnone]
      · rw [ht]
        exact hslots
    exact hk.named x (hslots ▸ hx)

/-- **An operation that fits** keeps the records and the ceilings. -/
theorem Sound.step (hn : n < 2 ^ 64) (hd : HashedApart roots) (hk : Sound n roots s) {m : Move}
    (hfit : s.Fits L roots m) : Sound n roots (s.step L m) ∧ WithinCeilings s (s.step L m) := by
  have hkept : Kept n (s.step L m) ∧ WithinCeilings s (s.step L m) := by
    cases m with
    | put p => exact hk.toKept.put hn (hk.apart hd (hfit.1 _ rfl)) hfit.2
    | update p => exact hk.toKept.update hn (hk.apart hd (hfit.1 _ rfl)) hfit.2
    | remove id => exact hk.toKept.remove id
    | setQuota r maxObjects maxBytes => exact hk.toKept.setQuota r maxObjects maxBytes
  exact ⟨⟨hkept.1, hk.named_step hfit.1⟩, hkept.2⟩

/-- **Usage does not drift from the slots, and no root grows past its ceiling**, over a run
of operations that fit and name roots of different hashes. -/
theorem usage_exact (hn : n < 2 ^ 64) (hd : HashedApart roots) {ms : List Move}
    (hfit : Run.AllSteps (ObjectIndex.step L) (Fits L roots) (new n) ms) :
    (∀ r ∈ roots, Exact (Run.run (ObjectIndex.step L) (new n) ms) r) ∧
      Run.AllSteps (ObjectIndex.step L)
        (fun s m => ∀ r ∈ roots, KeepsCeilings s (s.step L m) r) (new n) ms := by
  have hnew : Sound n roots (ObjectIndex.new n) :=
    ⟨.new n, fun x hx => absurd (List.eq_of_mem_replicate hx) (Option.some_ne_none x)⟩
  have hstep : ∀ s m, Sound n roots s → s.Fits L roots m → Sound n roots (s.step L m) :=
    fun _ _ hk hm => (hk.step hn hd hm).1
  refine ⟨fun r hr => (Run.invariant hstep hnew hfit).exact_root hd hr, ?_⟩
  refine hfit.of_invariant hstep (fun _ _ hk hm r hr => ?_) hnew
  obtain ⟨hk', hc⟩ := hk.step hn hd hm
  exact hc.keeps hk hk' hd hr

end Named

section Overflow

/-- An object under a root. -/
def sized (root : Bytes) (id : UInt8) (sizeBytes : UInt64) : PutFields :=
  ⟨[id], root, [], [], sizeBytes, 0, 0, 0, none⟩

/-- An object comes under a root with ceilings, grows, and moves to another root; the first
root's next one is refused. -/
def movedAway : List Move :=
  [.setQuota [97] 1 10, .put (sized [97] 1 4), .update (sized [97] 1 9), .put (sized [97] 2 1),
    .update (sized [98] 1 20), .put (sized [97] 3 2)]

theorem usage_exact_two :
    (∀ r ∈ ([[97], [98]] : List Bytes), Exact (Run.run (step .node) (new 2) movedAway) r) ∧
      Run.AllSteps (step .node)
        (fun s m => ∀ r ∈ ([[97], [98]] : List Bytes), KeepsCeilings s (s.step .node m) r) (new 2)
        movedAway :=
  usage_exact (by decide) (by decide +kernel) (by decide +kernel)

/-- Two roots that have one hash. -/
def collidingRoots : Bytes × Bytes :=
  ([56, 121, 110, 48, 105, 89, 67, 75, 89, 72, 108, 73, 106, 52, 45, 66, 119, 80, 113, 107],
    [71, 82, 101, 76, 85, 114, 77, 52, 119, 77, 113, 102, 103, 57, 121, 122, 86, 51, 75, 81])

/-- A sum is cut at 64 bits, and what is left when an object goes is less than there is; two
roots of one hash are charged to one record; and an update takes a root past its ceiling. -/
theorem usage_drifts :
    ¬ Exact (Run.run (step .node) (new 2)
      [.put (sized [] 1 (0 - 1)), .put (sized [] 2 1), .remove [1]]) [] ∧
    ¬ Exact (Run.run (step .node) (new 2)
      [.put (sized collidingRoots.1 1 5), .put (sized collidingRoots.2 2 7)]) collidingRoots.1 ∧
    ¬ KeepsCeilings (Run.run (step .node) (new 2) [.setQuota [] 0 10, .put (sized [] 1 5)])
      (Run.run (step .node) (new 2)
        [.setQuota [] 0 10, .put (sized [] 1 5), .update (sized [] 1 20)]) [] := by
  decide +kernel

end Overflow

end Loam.ObjectIndex

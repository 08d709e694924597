import Loam.BlockSlots
import Mathlib.Data.List.Nodup

/-!
# Staging a write

A write is staged part by part, and each part leaves the slots of the image
with that part in it. Once all are staged, the slots are those of the image
with the write in it.
-/

namespace Loam

open CellStore

namespace BlockVolume

variable {body : Digest → Bytes} {N : ℕ} {s s' : BlockVolume} {img img' : ℕ → UInt8}
  {r : BlockReq} {p : BlockSpan} {i : ℕ}

/-! ## What the invariant is about -/

@[simp] theorem touch_core : (s.touch i).core = s.core := by
  have hslots : (fun j => { (s.touch i).slots j with used := 0 })
      = fun j => { s.slots j with used := 0 } := by
    funext j
    show { put s.slots i { s.slots i with used := s.clock + 1 } j with used := 0 } = _
    by_cases hj : j = i
    · rw [hj, put_self]
    · rw [put_of_ne hj]
  show { s.core with
    extents := ⟨0, s.staged, fun j => { (s.touch i).slots j with used := 0 }, s.ext⟩ } = s.core
  rw [hslots]
  rfl

theorem SlotsInv.core_iff : s.core.SlotsInv body N img ↔ s.SlotsInv body N img :=
  ⟨fun h => ⟨h.uniq, h.inMap, h.holds, h.bare, h.fetch, h.count⟩,
    fun h => ⟨h.uniq, h.inMap, h.holds, h.bare, h.fetch, h.count⟩⟩

theorem SlotsInv.of_core (hc : s'.core = s.core) (h : s.SlotsInv body N img) :
    s'.SlotsInv body N img :=
  SlotsInv.core_iff.mp (hc ▸ SlotsInv.core_iff.mpr h)

/-- Only the view, the extents and the exchange matter. -/
theorem SlotsInv.of_parts (hv : s'.view = s.view) (he : s'.extents = s.extents)
    (hx : s'.exchange = s.exchange) (h : s.SlotsInv body N img) : s'.SlotsInv body N img := by
  cases s
  cases s'
  cases hv
  cases he
  cases hx
  exact ⟨h.uniq, h.inMap, h.holds, h.bare, h.fetch, h.count⟩

theorem SlotsInv.touch (h : s.SlotsInv body N img) : (s.touch i).SlotsInv body N img :=
  h.of_core touch_core

/-- Only the image inside the volume matters. -/
theorem SlotsInv.congr (h : s.SlotsInv body N img)
    (heq : ∀ idx < s.extentCount, ∀ j < s.extentLen idx,
      img (idx * s.extentSize + j) = img' (idx * s.extentSize + j)) :
    s.SlotsInv body N img' where
  uniq := h.uniq
  inMap := h.inMap
  holds := fun i hi hr j hj =>
    (h.holds i hi hr j hj).trans
      (heq _ (h.inMap i hi (by obtain hr | hr := hr <;> rw [hr] <;> nofun)) j hj)
  bare := fun idx hidx hn j hj => (h.bare idx hidx hn j hj).trans (heq idx hidx j hj)
  fetch := h.fetch
  count := h.count

/-! ## One part -/

/-- An image with a part of a write in it. -/
def withSpan (r : BlockReq) (extentSize : ℕ) (img : ℕ → UInt8) (p : BlockSpan) : ℕ → UInt8 :=
  patch img (p.idx * extentSize + p.inExt) p.take fun k => r.buf (p.off + k)

theorem SpanFits.take_le (hp : s.SpanFits r p) : p.inExt + p.take ≤ s.extentSize :=
  hp.within.trans extentLen_le

theorem SpanFits.outside (hp : s.SpanFits r p) {idx j : ℕ} (hne : idx ≠ p.idx)
    (hj : j < s.extentLen idx) : ¬ s.SpanAt p (idx * s.extentSize + j) := by
  rintro ⟨hlo, hhi⟩
  have hjs : j < s.extentSize := Nat.lt_of_lt_of_le hj extentLen_le
  have htake := hp.take_le
  obtain hlt | hgt := Nat.lt_or_gt_of_ne hne
  · have := Nat.mul_le_mul_right s.extentSize (Nat.succ_le_of_lt hlt)
    rw [Nat.succ_mul] at this
    omega
  · have := Nat.mul_le_mul_right s.extentSize (Nat.succ_le_of_lt hgt)
    rw [Nat.succ_mul] at this
    omega

theorem withSpan_outside {idx j : ℕ} (hp : s.SpanFits r p) (hne : idx ≠ p.idx)
    (hj : j < s.extentLen idx) :
    withSpan r s.extentSize img p (idx * s.extentSize + j) = img (idx * s.extentSize + j) :=
  patch_of_not_mem (hp.outside hne hj)

/-- In its own extent a part is a patch of the extent's bytes. -/
theorem withSpan_inside {f : ℕ → UInt8} {j : ℕ} (hf : f j = img (p.idx * s.extentSize + j)) :
    patch f p.inExt p.take (fun k => r.buf (p.off + k)) j
      = withSpan r s.extentSize img p (p.idx * s.extentSize + j) := by
  unfold withSpan patch
  by_cases h : p.inExt ≤ j ∧ j < p.inExt + p.take
  · rw [if_pos h, if_pos (by omega)]
    show r.buf (p.off + (j - p.inExt)) = r.buf (p.off + _)
    rw [Nat.add_sub_add_left]
  · rw [if_neg h, if_neg (by omega), hf]

theorem SlotsInv.restage (h : s.SlotsInv body N img) (hi : i < N) (hr : s.Resident i)
    (hidx : (s.slots i).idx = p.idx) (hp : s.SpanFits r p) {n : ℕ} {e : ExtentSlot}
    (he : e.state = .staged) (heidx : e.idx = p.idx)
    (hn : n = (List.range N).countP fun k => (put s.slots i e k).state == .staged) :
    ({ s with
        extents.ext := put s.ext i (patch (s.ext i) p.inExt p.take fun k => r.buf (p.off + k))
        extents.slots := put s.slots i e
        extents.staged := n } : BlockVolume).SlotsInv body N (withSpan r s.extentSize img p) := by
  have hocc : (s.slots i).state ≠ .free := by obtain hr | hr := hr <;> rw [hr] <;> nofun
  have hslot (a : ℕ) (ha : (put s.slots i e a).state ≠ .free) :
      (s.slots a).state ≠ .free ∧ (put s.slots i e a).idx = (s.slots a).idx := by
    by_cases hai : a = i
    · rw [hai, put_self]
      exact ⟨hocc, heidx.trans hidx.symm⟩
    · rw [put_of_ne hai] at ha ⊢
      exact ⟨ha, rfl⟩
  refine ⟨fun a ha b hb hfa hfb heq => ?_, fun a ha hfa => ?_, fun a ha hra j hj => ?_,
    fun idx hx hno j hj => ?_, fun a ha hfa => ?_, hn⟩
  · obtain ⟨hfa', hia⟩ := hslot a hfa
    obtain ⟨hfb', hib⟩ := hslot b hfb
    exact h.uniq a ha b hb hfa' hfb' (hia.symm.trans (heq.trans hib))
  · obtain ⟨hfa', hia⟩ := hslot a hfa
    exact (congrArg (· < s.extentCount) hia).mpr (h.inMap a ha hfa')
  · obtain ⟨hfa', hia⟩ := hslot a (by obtain hr | hr := hra <;> rw [hr] <;> nofun)
    show put s.ext i _ a j = withSpan r s.extentSize img p ((put s.slots i e a).idx * s.extentSize + j)
    have hj' : j < s.extentLen (s.slots a).idx := (congrArg (j < s.extentLen ·) hia).mp hj
    rw [hia]
    by_cases hai : a = i
    · rw [hai, put_self, hidx]
      rw [hai, hidx] at hj'
      refine withSpan_inside ?_
      have := h.holds i hi hr j (hidx.symm ▸ hj')
      rwa [hidx] at this
    · rw [put_of_ne hai, withSpan_outside hp ?_ hj']
      · refine h.holds a ha ?_ j hj'
        unfold Resident at hra ⊢
        rwa [show (_ : BlockVolume).slots a = s.slots a from put_of_ne hai] at hra
      · exact fun heq => hai (h.uniq a ha i hi hfa' hocc (heq.trans hidx.symm))
  · have hne : idx ≠ p.idx := fun heq =>
      hno i hi (show (put s.slots i e i).state = _ by rw [put_self, he])
        (show (put s.slots i e i).idx = _ by rw [put_self, heidx, heq])
    show s.committedImage body _ = _
    rw [withSpan_outside hp hne hj]
    refine h.bare idx hx (fun a ha hsa => ?_) j hj
    by_cases hai : a = i
    · rw [hai, hidx]
      exact hne.symm
    · have := hno a ha (show (put s.slots i e a).state = _ by rw [put_of_ne hai, hsa])
      rwa [show (_ : BlockVolume).slots a = s.slots a from put_of_ne hai] at this
  · have hai : a ≠ i := fun hai => by
      rw [show (_ : BlockVolume).slots a = e from hai ▸ put_self, he] at hfa
      cases hfa
    rw [show (_ : BlockVolume).slots a = s.slots a from put_of_ne hai] at hfa ⊢
    exact h.fetch a ha hfa

/-! ## What staging leaves alone -/

/-- Only slots, their bytes and their count change. -/
def StagesOnly (s s' : BlockVolume) : Prop := s' = { s with extents := s'.extents }

theorem StagesOnly.refl (s : BlockVolume) : StagesOnly s s := rfl

theorem StagesOnly.trans {a b c : BlockVolume} (h : StagesOnly a b) (h' : StagesOnly b c) :
    StagesOnly a c :=
  Eq.trans h' (congrArg (fun b : BlockVolume => { b with extents := c.extents }) h)

theorem touch_stagesOnly : StagesOnly s (s.touch i) := rfl

theorem stageResident_stagesOnly : StagesOnly s (stageResident r s i p) := by
  unfold stageResident
  split
  · dsimp only
    split
    · exact rfl
    · exact rfl
  · exact touch_stagesOnly

theorem stageInto_stagesOnly : StagesOnly s (stageInto r s i p) := rfl

theorem StagesOnly.geometry (h : StagesOnly s s') : s'.extentSize = s.extentSize ∧
    s'.sizeBytes = s.sizeBytes ∧ s'.blockSize = s.blockSize ∧ s'.extentCount = s.extentCount :=
  ⟨congrArg (·.extentSize) h, congrArg (·.sizeBytes) h, congrArg (·.blockSize) h,
    congrArg (·.extentCount) h⟩

theorem SpanFits.of_stages (h : StagesOnly s s') (hp : s.SpanFits r p) : s'.SpanFits r p := by
  obtain ⟨hes, hsz, hbs, hec⟩ := h.geometry
  refine ⟨?_, hp.off, ?_, ?_⟩
  · rw [hes, hbs]
    exact hp.start
  · rw [hec]
    exact hp.inMap
  · unfold extentLen
    rw [hes, hsz]
    exact hp.within

theorem touch_slots_of_ne {a : ℕ} (h : a ≠ i) : (s.touch i).slots a = s.slots a := put_of_ne h

theorem touch_slots_self :
    (s.touch i).slots i = { s.slots i with used := s.clock + 1 } := put_self

/-! ## A part in a resident slot -/

theorem stageResident_of_ne {a : ℕ} (h : a ≠ i) :
    (stageResident r s i p).slots a = s.slots a ∧ (stageResident r s i p).ext a = s.ext a := by
  unfold stageResident
  split
  · dsimp only
    split
    · exact ⟨(touch_slots_of_ne h).trans (put_of_ne h), put_of_ne h⟩
    · exact ⟨touch_slots_of_ne h, put_of_ne h⟩
  · exact ⟨touch_slots_of_ne h, rfl⟩

/-- The slot stays its extent's, and is staged when its bytes change. -/
theorem stageResident_self (hr : s.Resident i) :
    ((stageResident r s i p).slots i).idx = (s.slots i).idx ∧
      ((stageResident r s i p).slots i).committing = (s.slots i).committing ∧
      (stageResident r s i p).Resident i ∧
      (stageResident r s i p).staged = s.staged +
        if s.differs i p r = true ∧ (s.slots i).state = .clean then 1 else 0 := by
  unfold stageResident Resident
  by_cases hd : s.differs i p r = true
  · rw [if_pos hd]
    dsimp only
    by_cases hc : (s.slots i).state = .clean
    · rw [if_pos hc, if_pos ⟨hd, hc⟩, touch_slots_self]
      show (put s.slots i _ i).idx = _ ∧ (put s.slots i _ i).committing = _ ∧
        ((put s.slots i _ i).state = _ ∨ (put s.slots i _ i).state = _) ∧ _
      rw [put_self]
      exact ⟨rfl, rfl, .inr rfl, rfl⟩
    · rw [if_neg hc, if_neg fun h => hc h.2, touch_slots_self]
      exact ⟨rfl, rfl, hr, rfl⟩
  · rw [if_neg hd, if_neg fun h => hd h.1, touch_slots_self]
    exact ⟨rfl, rfl, hr, rfl⟩

theorem differs_eq_false (h : s.differs i p r = false) {j : ℕ} (hj : j < p.take) :
    s.ext i (p.inExt + j) = r.buf (p.off + j) := by
  have := List.any_eq_false.mp h j (List.mem_range.mpr hj)
  simpa using this

theorem SlotsInv.stageResident (h : s.SlotsInv body N img) (hi : i < N) (hr : s.Resident i)
    (hidx : (s.slots i).idx = p.idx) (hp : s.SpanFits r p) :
    (stageResident r s i p).SlotsInv body N (withSpan r s.extentSize img p) := by
  unfold BlockVolume.stageResident
  by_cases hd : s.differs i p r = true
  · rw [if_pos hd]
    dsimp only
    by_cases hc : (s.slots i).state = .clean
    · rw [if_pos hc]
      refine SlotsInv.touch (h.restage hi hr hidx hp rfl hidx ?_)
      rw [h.count]
      refine (countP_range_flip hi (by rw [put_self]; rfl) (by rw [hc]; rfl) fun j _ hj => ?_).symm
      rw [put_of_ne hj]
    · rw [if_neg hc]
      have hst : (s.slots i).state = .staged := by
        obtain hr | hr := hr
        · exact absurd hr hc
        · exact hr
      have hsame : put s.slots i (s.slots i) = s.slots := put_eq_self rfl
      have hre := h.restage hi hr hidx hp (n := s.staged) hst hidx (by rw [hsame]; exact h.count)
      rw [hsame] at hre
      exact hre.touch
  · rw [if_neg hd]
    refine SlotsInv.touch (h.congr fun idx hx j hj => ?_)
    by_cases hne : idx = p.idx
    · have hheld := h.holds i hi hr j (by rw [hidx, ← hne]; exact hj)
      rw [hidx, ← hne] at hheld
      rw [hne] at hheld hj ⊢
      rw [← withSpan_inside hheld]
      unfold patch
      split
      next hin =>
        have hsame := differs_eq_false (Bool.not_eq_true _ ▸ hd) (show j - p.inExt < p.take by omega)
        rw [Nat.add_sub_cancel' hin.1] at hsame
        exact hheld.symm.trans hsame
      · exact hheld.symm
    · exact (withSpan_outside hp hne hj).symm

/-! ## A part in a slot of its own -/

theorem stageInto_of_ne {a : ℕ} (h : a ≠ i) : (stageInto r s i p).slots a = s.slots a :=
  (touch_slots_of_ne h).trans (put_of_ne h)

theorem stageInto_self : ((stageInto r s i p).slots i).state = .staged ∧
    ((stageInto r s i p).slots i).idx = p.idx ∧ ((stageInto r s i p).slots i).committing = false := by
  unfold stageInto
  rw [touch_slots_self]
  show (put s.slots i _ i).state = _ ∧ (put s.slots i _ i).idx = _ ∧ (put s.slots i _ i).committing = _
  rw [put_self]
  exact ⟨rfl, rfl, rfl⟩

/-- A whole extent with no slot takes one that is free or clean. -/
theorem SlotsInv.stageInto (h : s.SlotsInv body N img) (hi : i < N)
    (hfree : (s.slots i).state = .free ∨ (s.slots i).state = .clean)
    (hnone : ∀ a < N, (s.slots a).state ≠ .free → (s.slots a).idx ≠ p.idx)
    (hp : s.SpanFits r p) (hw : s.whole p = true) :
    (stageInto r s i p).SlotsInv body N (withSpan r s.extentSize img p) := by
  simp only [whole, Bool.and_eq_true, beq_iff_eq] at hw
  obtain ⟨h0, htake⟩ := hw
  refine SlotsInv.touch ⟨?_, ?_, ?_, ?_, ?_, ?_⟩
  all_goals
    generalize he : ({ s.slots i with state := .staged, committing := false, idx := p.idx } : ExtentSlot)
      = e
    have hes : e.state = .staged := he ▸ rfl
    have hei : e.idx = p.idx := he ▸ rfl
  · intro a ha b hb hfa hfb heq
    change (put s.slots i e a).state ≠ .free at hfa
    change (put s.slots i e b).state ≠ .free at hfb
    change (put s.slots i e a).idx = (put s.slots i e b).idx at heq
    by_cases hai : a = i <;> by_cases hbi : b = i
    · rw [hai, hbi]
    · rw [hai, put_self, hei, put_of_ne hbi] at heq
      rw [put_of_ne hbi] at hfb
      exact absurd heq.symm (hnone b hb hfb)
    · rw [hbi, put_self, hei, put_of_ne hai] at heq
      rw [put_of_ne hai] at hfa
      exact absurd heq (hnone a ha hfa)
    · rw [put_of_ne hai] at hfa heq
      rw [put_of_ne hbi] at hfb heq
      exact h.uniq a ha b hb hfa hfb heq
  · intro a ha hfa
    change (put s.slots i e a).state ≠ .free at hfa
    show (put s.slots i e a).idx < s.extentCount
    by_cases hai : a = i
    · rw [hai, put_self, hei]
      exact hp.inMap
    · rw [put_of_ne hai] at hfa ⊢
      exact h.inMap a ha hfa
  · intro a ha hra j hj
    change (put s.slots i e a).state = .clean ∨ (put s.slots i e a).state = .staged at hra
    change j < s.extentLen (put s.slots i e a).idx at hj
    show put s.ext i _ a j = withSpan r s.extentSize img p ((put s.slots i e a).idx * s.extentSize + j)
    by_cases hai : a = i
    · rw [hai, put_self, hei] at hj
      rw [hai, put_self, put_self, hei]
      unfold withSpan
      rw [patch_of_mem (by rw [h0, htake]; omega), if_pos (htake ▸ hj), h0, Nat.add_zero,
        Nat.add_sub_cancel_left]
    · rw [put_of_ne hai] at hra hj ⊢
      rw [put_of_ne hai, withSpan_outside hp (hnone a ha ?_) hj]
      · exact h.holds a ha hra j hj
      · obtain hr | hr := hra <;> rw [hr] <;> nofun
  · intro idx hx hno j hj
    have hne : idx ≠ p.idx := fun heq =>
      hno i hi (show (put s.slots i e i).state = _ by rw [put_self, hes])
        (show (put s.slots i e i).idx = _ by rw [put_self, hei, heq])
    show s.committedImage body (idx * s.extentSize + j)
      = withSpan r s.extentSize img p (idx * s.extentSize + j)
    rw [withSpan_outside hp hne hj]
    refine h.bare idx hx (fun a ha hsa => ?_) j hj
    have hai : a ≠ i := fun hai => by
      rw [hai] at hsa
      obtain hf | hf := hfree <;> rw [hf] at hsa <;> cases hsa
    have := hno a ha (show (put s.slots i e a).state = _ by rw [put_of_ne hai, hsa])
    rwa [show (_ : BlockVolume).slots a = s.slots a from put_of_ne hai] at this
  · intro a ha hfa
    have hai : a ≠ i := fun hai => by
      rw [show (_ : BlockVolume).slots a = e from hai ▸ put_self, hes] at hfa
      cases hfa
    rw [show (_ : BlockVolume).slots a = s.slots a from put_of_ne hai] at hfa ⊢
    exact h.fetch a ha hfa
  · show s.staged + 1 = (List.range N).countP fun k => (put s.slots i e k).state == .staged
    rw [h.count]
    refine (countP_range_flip hi (by rw [put_self, hes]; rfl)
      (by obtain hf | hf := hfree <;> rw [hf] <;> rfl) fun j _ hj => ?_).symm
    rw [put_of_ne hj]

/-! ## All the resident parts -/

/-- The parts in resident slots, one after another. -/
def stageResidents (r : BlockReq) (s : BlockVolume) (l : List (ℕ × BlockSpan)) : BlockVolume :=
  l.foldl (fun s q => BlockVolume.stageResident r s q.1 q.2) s

variable {l : List (ℕ × BlockSpan)} {ps : List BlockSpan} {keep : List ℕ}

theorem stageResidents_stagesOnly : StagesOnly s (stageResidents r s l) := by
  induction l generalizing s with
  | nil => exact .refl s
  | cons q l ih => exact stageResident_stagesOnly.trans ih

theorem stageResidents_of_not_mem {a : ℕ} (h : a ∉ l.map Prod.fst) :
    (stageResidents r s l).slots a = s.slots a := by
  induction l generalizing s with
  | nil => rfl
  | cons q l ih =>
    obtain ⟨hne, hl⟩ := not_or.mp (mt List.mem_cons.mpr h)
    exact (ih hl).trans (stageResident_of_ne hne).1

/-- A part in a resident slot is there to be staged. -/
def PartAt (N : ℕ) (s : BlockVolume) (r : BlockReq) (q : ℕ × BlockSpan) : Prop :=
  q.1 < N ∧ s.Resident q.1 ∧ (s.slots q.1).idx = q.2.idx ∧ s.SpanFits r q.2

theorem PartAt.after {q q' : ℕ × BlockSpan} (h : s.PartAt N r q') (hne : q'.1 ≠ q.1) :
    (BlockVolume.stageResident r s q.1 q.2).PartAt N r q' := by
  have hslot := (stageResident_of_ne (s := s) (r := r) (p := q.2) hne).1
  refine ⟨h.1, ?_, ?_, h.2.2.2.of_stages stageResident_stagesOnly⟩
  · unfold Resident
    rw [hslot]
    exact h.2.1
  · rw [hslot]
    exact h.2.2.1

theorem SlotsInv.stageResidents (h : s.SlotsInv body N img) (hl : ∀ q ∈ l, s.PartAt N r q)
    (hnd : (l.map Prod.fst).Nodup) :
    (stageResidents r s l).SlotsInv body N
        ((l.map Prod.snd).foldl (withSpan r s.extentSize) img) ∧
      (stageResidents r s l).staged = s.staged +
        l.countP fun q => s.differs q.1 q.2 r && (s.slots q.1).state == .clean := by
  induction l generalizing s img with
  | nil => exact ⟨h, rfl⟩
  | cons q l ih =>
    obtain ⟨hi, hr, hidx, hp⟩ := hl q List.mem_cons_self
    obtain ⟨hnot, hnd'⟩ := List.nodup_cons.mp hnd
    have hne (q' : ℕ × BlockSpan) (hq : q' ∈ l) : q'.1 ≠ q.1 := fun he =>
      hnot (he ▸ List.mem_map_of_mem hq)
    have hone := h.stageResident hi hr hidx hp
    obtain ⟨hinv, hcount⟩ := ih hone
      (fun q' hq => (hl q' (List.mem_cons_of_mem q hq)).after (hne q' hq)) hnd'
    rw [stageResident_stagesOnly.geometry.1] at hinv
    refine ⟨hinv, hcount.trans ?_⟩
    rw [(stageResident_self hr).2.2.2, List.countP_cons, Nat.add_assoc]
    congr 1
    rw [Nat.add_comm]
    congr 1
    · refine List.countP_congr fun q' hq => ?_
      obtain ⟨hs, he⟩ := stageResident_of_ne (s := s) (r := r) (p := q.2) (hne q' hq)
      unfold differs
      rw [hs, he]
    · by_cases hd : s.differs q.1 q.2 r = true ∧ (s.slots q.1).state = .clean
      · rw [if_pos hd, if_pos (by simpa using hd)]
      · rw [if_neg hd, if_neg (by simpa using hd)]

theorem stageResidents_slots (hl : ∀ q ∈ l, s.Resident q.1) (a : ℕ) :
    ((stageResidents r s l).slots a).idx = (s.slots a).idx ∧
      ((stageResidents r s l).slots a).committing = (s.slots a).committing ∧
      (((stageResidents r s l).slots a).state = .free ↔ (s.slots a).state = .free) := by
  induction l generalizing s with
  | nil => exact ⟨rfl, rfl, Iff.rfl⟩
  | cons q l ih =>
    have hr := hl q List.mem_cons_self
    obtain ⟨hidx, hc, hres, -⟩ := stageResident_self (r := r) (p := q.2) hr
    have hone (b : ℕ) : ((BlockVolume.stageResident r s q.1 q.2).slots b).idx = (s.slots b).idx ∧
        ((BlockVolume.stageResident r s q.1 q.2).slots b).committing = (s.slots b).committing ∧
        (((BlockVolume.stageResident r s q.1 q.2).slots b).state = .free ↔
          (s.slots b).state = .free) ∧
        (s.Resident b → (BlockVolume.stageResident r s q.1 q.2).Resident b) := by
      by_cases hb : b = q.1
      · rw [hb]
        refine ⟨hidx, hc, ⟨fun hf => ?_, fun hf => ?_⟩, fun _ => hres⟩
        · obtain h | h := hres <;> rw [hf] at h <;> cases h
        · obtain h | h := hr <;> rw [hf] at h <;> cases h
      · unfold Resident
        rw [(stageResident_of_ne hb).1]
        exact ⟨rfl, rfl, Iff.rfl, id⟩
    obtain ⟨h1, h2, h3⟩ := ih fun q' hq => (hone q'.1).2.2.2 (hl q' (List.mem_cons_of_mem q hq))
    exact ⟨h1.trans (hone a).1, h2.trans (hone a).2.1, h3.trans (hone a).2.2.1⟩

/-! ## The parts that take slots -/

/-- A slot can be taken. -/
def Takes (s : BlockVolume) (keep : List ℕ) (i : ℕ) : Bool :=
  decide (i ∉ keep) && ((s.slots i).state == .free || (s.slots i).state == .clean)

/-- **Every part gets its slot**, when there are as many to take. -/
theorem stageNew_spec (ps : List BlockSpan) (keep : List ℕ) (h : s.SlotsInv body N img)
    (hl : ∀ p ∈ ps, s.SpanFits r p ∧ s.whole p = true ∧
      ∀ a < N, (s.slots a).state ≠ .free → (s.slots a).idx ≠ p.idx)
    (hnd : (ps.map BlockSpan.idx).Nodup)
    (hroom : ps.length ≤ (List.range N).countP (s.Takes keep))
    (hquiet : ∀ a < N, (s.slots a).committing = false) :
    ∃ s', stageNew N r keep s ps = (s', true) ∧
      s'.SlotsInv body N (ps.foldl (withSpan r s.extentSize) img) ∧ StagesOnly s s' ∧
      (∀ a < N, (s'.slots a).committing = false) ∧ s'.staged = s.staged + ps.length := by
  induction ps generalizing s img with
  | nil => exact ⟨s, rfl, h, .refl s, hquiet, rfl⟩
  | cons p ps ih =>
    obtain ⟨hp, hw, hnone⟩ := hl p List.mem_cons_self
    obtain ⟨hnot, hnd'⟩ := List.nodup_cons.mp hnd
    have hpos : 0 < (List.range N).countP (s.Takes keep) :=
      Nat.lt_of_lt_of_le (Nat.succ_pos _) hroom
    obtain ⟨b, hb, htake⟩ := List.countP_pos_iff.mp hpos
    simp only [Takes, Bool.and_eq_true, decide_eq_true_eq, Bool.or_eq_true, beq_iff_eq] at htake
    obtain ⟨i, hi⟩ := Option.isSome_iff_exists.mp
      (allocSlot_isSome (s := s) ⟨b, List.mem_range.mp hb, htake⟩)
    obtain ⟨hiN, hik, hif⟩ := allocSlot_eq_some hi
    obtain ⟨hst, hsi, hsc⟩ := stageInto_self (s := s) (r := r) (p := p) (i := i)
    have hone := h.stageInto hiN hif hnone hp hw
    have hroom' : ps.length ≤ (List.range N).countP ((BlockVolume.stageInto r s i p).Takes keep) := by
      have hflip := countP_range_flip (p := s.Takes keep)
        (q := (BlockVolume.stageInto r s i p).Takes keep) hiN
        (by simpa [Takes, hik] using hif) (by simp [Takes, hst]) fun a _ ha => by
          unfold Takes
          rw [stageInto_of_ne ha]
      rw [hflip] at hroom
      exact Nat.le_of_succ_le_succ hroom
    obtain ⟨s', hs', hinv, honly, hq, hcount⟩ := ih hone (fun p' hp' => by
        obtain ⟨hf, hw', hn⟩ := hl p' (List.mem_cons_of_mem p hp')
        refine ⟨hf.of_stages stageInto_stagesOnly, hw', fun a ha hocc => ?_⟩
        by_cases hai : a = i
        · rw [hai, hsi]
          exact fun he => hnot (he ▸ List.mem_map_of_mem hp')
        · rw [stageInto_of_ne hai] at hocc ⊢
          exact hn a ha hocc) hnd' hroom' fun a ha => by
        by_cases hai : a = i
        · rw [hai, hsc]
        rw [stageInto_of_ne hai]
        exact hquiet a ha
    refine ⟨s', ?_, hinv, stageInto_stagesOnly.trans honly, hq, ?_⟩
    · rw [stageNew, hi]
      exact hs'
    · rw [hcount, List.length_cons]
      show s.staged + 1 + ps.length = _
      omega

/-! ## The image of a write -/

theorem SpanFits.buf (hp : s.SpanFits r p) {pos : ℕ} (h : s.SpanAt p pos) :
    withSpan r s.extentSize img p pos = r.buf (pos - r.lba * s.blockSize) := by
  unfold withSpan
  rw [patch_of_mem h]
  have := hp.start
  have := h.1
  congr 1
  omega

/-- Parts of a write over an image. -/
theorem foldl_withSpan (img : ℕ → UInt8) (ps : List BlockSpan) (hl : ∀ p ∈ ps, s.SpanFits r p) (pos : ℕ) :
    ((∃ p ∈ ps, s.SpanAt p pos) →
        ps.foldl (withSpan r s.extentSize) img pos = r.buf (pos - r.lba * s.blockSize)) ∧
      ((∀ p ∈ ps, ¬ s.SpanAt p pos) → ps.foldl (withSpan r s.extentSize) img pos = img pos) := by
  induction ps using List.reverseRecOn with
  | nil => exact ⟨fun ⟨p, hp, _⟩ => absurd hp List.not_mem_nil, fun _ => rfl⟩
  | append_singleton ps q ih =>
    obtain ⟨hin, hout⟩ := ih fun p hp => hl p (List.mem_append_left [q] hp)
    rw [List.foldl_append, List.foldl_cons, List.foldl_nil]
    have hq := hl q (List.mem_append_right ps List.mem_cons_self)
    by_cases hqp : s.SpanAt q pos
    · refine ⟨fun _ => hq.buf hqp, fun hno => absurd hqp (hno q ?_)⟩
      exact List.mem_append_right ps List.mem_cons_self
    rw [show withSpan r s.extentSize (ps.foldl (withSpan r s.extentSize) img) q pos
      = ps.foldl (withSpan r s.extentSize) img pos from patch_of_not_mem hqp]
    refine ⟨fun ⟨p, hp, hpp⟩ => hin ?_, fun hno => hout fun p hp =>
      hno p (List.mem_append_left [q] hp)⟩
    obtain hp | hp := List.mem_append.mp hp
    · exact ⟨p, hp, hpp⟩
    · exact absurd (List.mem_singleton.mp hp ▸ hpp) hqp

/-! ## A whole write -/

/-- A write would be staged over an extent that is being fetched. -/
def Races (N : ℕ) (s : BlockVolume) (r : BlockReq) : Prop :=
  s.writeFits N r ∧ ∃ p ∈ s.spans r, s.whole p = true ∧ s.fetching N p.idx = true

instance (N : ℕ) (s : BlockVolume) (r : BlockReq) : Decidable (s.Races N r) := by
  unfold Races; infer_instance

/-- The parts of a request in resident slots. -/
def residentParts (N : ℕ) (s : BlockVolume) (r : BlockReq) : List (ℕ × BlockSpan) :=
  (s.spans r).filterMap fun p => (s.findExtent N p.idx).map fun i => (i, p)

/-- The parts with no slot. -/
def newParts (N : ℕ) (s : BlockVolume) (r : BlockReq) : List BlockSpan :=
  (s.spans r).filter fun p => (s.findExtent N p.idx).isNone

theorem stage_eq : s.stage N r
    = stageNew N r (s.keepSlots N r) (stageResidents r s (s.residentParts N r)) (s.newParts N r) := by
  unfold stage residentParts newParts stageResidents
  dsimp only
  congr 1
  · generalize s.spans r = sp
    suffices h : ∀ s₀ : BlockVolume, (sp.map fun p => (s.findExtent N p.idx, p)).foldl
          (fun s q => q.1.elim s fun i => BlockVolume.stageResident r s i q.2) s₀
        = (sp.filterMap fun p => (s.findExtent N p.idx).map fun i => (i, p)).foldl
          (fun s q => BlockVolume.stageResident r s q.1 q.2) s₀ by
      refine Eq.trans (congrArg (fun f => List.foldl f s _) ?_) (h s)
      funext s ⟨o, p⟩
      cases o with
      | none => rfl
      | some i => rfl
    induction sp with
    | nil => exact fun _ => rfl
    | cons p sp ih =>
      intro s₀
      rw [List.map_cons, List.foldl_cons]
      cases hf : s.findExtent N p.idx with
      | none =>
        rw [List.filterMap_cons_none (by rw [hf]; rfl)]
        exact ih s₀
      | some i =>
        rw [List.filterMap_cons_some (b := (i, p)) (by rw [hf]; rfl), List.foldl_cons]
        exact ih _
  · induction s.spans r with
    | nil => rfl
    | cons p sp ih =>
      rw [List.map_cons, List.filter_cons, List.filter_cons]
      split
      · rw [List.map_cons, ih]
      · exact ih

theorem mem_residentParts {q : ℕ × BlockSpan} :
    q ∈ s.residentParts N r ↔ q.2 ∈ s.spans r ∧ s.findExtent N q.2.idx = some q.1 := by
  unfold residentParts
  rw [List.mem_filterMap]
  constructor
  · rintro ⟨p, hp, h⟩
    obtain ⟨i, hi, rfl⟩ := Option.map_eq_some_iff.mp h
    exact ⟨hp, hi⟩
  · rintro ⟨hp, h⟩
    exact ⟨q.2, hp, by rw [h]; rfl⟩

theorem mem_newParts : p ∈ s.newParts N r ↔ p ∈ s.spans r ∧ s.findExtent N p.idx = none := by
  unfold newParts
  rw [List.mem_filter, Option.isNone_iff_eq_none]

theorem map_fst_residentParts : (s.residentParts N r).map Prod.fst = s.keepSlots N r := by
  unfold residentParts keepSlots
  rw [List.map_filterMap]
  congr 1
  funext p
  cases s.findExtent N p.idx <;> rfl

theorem map_snd_residentParts : (s.residentParts N r).map Prod.snd
    = (s.spans r).filter fun p => (s.findExtent N p.idx).isSome := by
  unfold residentParts
  induction s.spans r with
  | nil => rfl
  | cons p sp ih =>
    cases hf : s.findExtent N p.idx with
    | none =>
      rw [List.filterMap_cons_none (by rw [hf]; rfl), List.filter_cons_of_neg (by rw [hf]; nofun)]
      exact ih
    | some i =>
      rw [List.filterMap_cons_some (b := (i, p)) (by rw [hf]; rfl),
        List.filter_cons_of_pos (by rw [hf]; rfl), List.map_cons, ih]

/-- With nothing missing, the counts of the checks are those of the staging. -/
theorem counts_eq (h : s.missingSpans N r = []) :
    s.newSlots N r = (s.newParts N r).length ∧
      s.newStaged N r = ((s.residentParts N r).countP fun q =>
        s.differs q.1 q.2 r && (s.slots q.1).state == .clean) + (s.newParts N r).length := by
  unfold missingSpans newSlots newParts newStaged residentParts stagesAnew at *
  generalize s.spans r = sp at h ⊢
  induction sp with
  | nil => exact ⟨rfl, rfl⟩
  | cons p sp ih =>
    rw [List.filter_cons] at h
    split at h
    · cases h
    next hm =>
    obtain ⟨ih1, ih2⟩ := ih h
    rw [List.countP_cons, List.countP_cons, ih1, ih2]
    cases hf : s.findExtent N p.idx with
    | none =>
      rw [hf] at hm
      simp only [Option.isNone_none, Bool.true_and, Bool.not_eq_true', Bool.not_eq_false] at hm
      rw [List.filterMap_cons_none (by rw [hf]; rfl), List.filter_cons_of_pos (by rw [hf]; rfl),
        List.length_cons]
      simp only [Option.isNone_none, Bool.true_and, hm, if_true, true_and]
      omega
    | some i =>
      rw [List.filterMap_cons_some (b := (i, p)) (by rw [hf]; rfl),
        List.filter_cons_of_neg (by rw [hf]; nofun), List.countP_cons]
      simp only [Option.isNone_some, Bool.false_and, Bool.false_eq_true, if_false, true_and,
        Nat.add_zero]
      omega

/-- The image after a request's bytes went in. -/
def withReq (s : BlockVolume) (r : BlockReq) (img : ℕ → UInt8) (pos : ℕ) : UInt8 :=
  if (r.range s.blockSize).Covers pos then (r.range s.blockSize).valueOf pos else img pos

/-- What a write that was staged did. -/
structure Written (body : Digest → Bytes) (N : ℕ) (s : BlockVolume) (r : BlockReq)
    (img : ℕ → UInt8) (s' : BlockVolume) : Prop where
  only : s' = { s with
    extents := s'.extents
    queue.writeGen := s'.writeGen
    hist.writes := s.hist.writes ++ [⟨r, s'.writeGen⟩] }
  gen : s'.writeGen = s.writeGen + 1 ∨
    s'.writeGen = s.writeGen ∧ ∀ pos < s.sizeBytes, s.withReq r img pos = img pos
  slots : s'.SlotsInv body N (s.withReq r img)
  quiet : ∀ a < N, (s'.slots a).committing = false
  staged : s'.staged = s.staged + s.newStaged N r
  moved : 0 < s.newStaged N r → s'.writeGen = s.writeGen + 1

/-- A write that stages an extent anew changes what was there. -/
theorem changes_of_newStaged (h : 0 < s.newStaged N r) : s.changes N r = true := by
  obtain ⟨p, hp, hnew⟩ := List.countP_pos_iff.mp h
  refine List.any_eq_true.mpr ⟨p, hp, ?_⟩
  unfold stagesAnew at hnew
  cases hf : s.findExtent N p.idx with
  | none => rfl
  | some i =>
    rw [hf] at hnew
    exact (Bool.and_eq_true_iff.mp hnew).1

theorem foldl_spans (geo : s.Geometry) (hop : r.op = .write) (hdev : s.InDevice r)
    {sp : List BlockSpan} (hsp : ∀ p, p ∈ sp ↔ p ∈ s.spans r) (pos : ℕ) :
    sp.foldl (withSpan r s.extentSize) img pos = s.withReq r img pos := by
  obtain ⟨hfits, -, hall⟩ := spans_spec geo (.inr hop) hdev
  obtain ⟨hin, hout⟩ := foldl_withSpan img sp
    (fun p hp => hfits p ((hsp p).mp hp)) pos
  unfold withReq
  split
  next hc =>
    obtain ⟨p, hp, hat⟩ := hall pos hc.1 hc.2
    exact hin ⟨p, (hsp p).mpr hp, hat⟩
  next hc =>
    refine hout fun p hp hat => hc ?_
    have hf := hfits p ((hsp p).mp hp)
    have := hf.start
    have := hf.off
    obtain ⟨h1, h2⟩ := hat
    show r.lba * s.blockSize ≤ pos ∧ pos < r.lba * s.blockSize + r.len
    omega

/-- A write that changes nothing leaves the image. -/
theorem withReq_of_not_changes (h : s.SlotsInv body N img) (geo : s.Geometry) (hop : r.op = .write)
    (hdev : s.InDevice r) (hch : s.changes N r = false) (pos : ℕ) :
    s.withReq r img pos = img pos := by
  unfold withReq
  split
  next hc =>
    obtain ⟨hfits, -, hall⟩ := spans_spec geo (.inr hop) hdev
    obtain ⟨p, hp, hat⟩ := hall pos hc.1 hc.2
    have hf := hfits p hp
    have hno := List.any_eq_false.mp hch p hp
    cases hfind : s.findExtent N p.idx with
    | none =>
      rw [hfind] at hno
      exact absurd rfl hno
    | some i =>
      rw [hfind] at hno
      obtain ⟨hi, hr, hidx⟩ := findExtent_eq_some hfind
      have hw := hf.within
      obtain ⟨h1, h2⟩ := hat
      have hsame := differs_eq_false (Bool.not_eq_true _ ▸ hno)
        (show pos - (p.idx * s.extentSize + p.inExt) < p.take by omega)
      have hheld := h.holds i hi hr (p.inExt + (pos - (p.idx * s.extentSize + p.inExt)))
        (by rw [hidx]; omega)
      rw [hidx] at hheld
      have hpos : p.idx * s.extentSize + (p.inExt + (pos - (p.idx * s.extentSize + p.inExt))) = pos := by
        omega
      rw [hpos, hsame] at hheld
      rw [← hheld]
      have := hf.start
      show r.buf (pos - r.lba * s.blockSize) = _
      congr 1
      omega
  · rfl

/-- **A write that fits is staged.** -/
theorem writeNow_of_fits (h : s.SlotsInv body N img) (geo : s.Geometry) (hop : r.op = .write)
    (hdev : s.InDevice r) (hquiet : ∀ a < N, (s.slots a).committing = false)
    (hfits : s.writeFits N r) (hrace : ¬ s.Races N r) :
    ∃ s', s.writeNow N r = (s', .done) ∧ Written body N s r img s' := by
  obtain ⟨hidle, hmiss, hroom, hfree⟩ := hfits
  obtain ⟨hsp, hnd, -⟩ := spans_spec geo (.inr hop) hdev
  obtain ⟨hslots, hstaged⟩ := counts_eq hmiss
  have hpart : ∀ q ∈ s.residentParts N r, s.PartAt N r q := fun q hq => by
    obtain ⟨hp, hf⟩ := mem_residentParts.mp hq
    obtain ⟨hi, hr, hidx⟩ := findExtent_eq_some hf
    exact ⟨hi, hr, hidx, hsp _ hp⟩
  have hndl : ((s.residentParts N r).map Prod.fst).Nodup := by
    have hidx : (s.residentParts N r).map (fun q => q.2.idx)
        = ((s.residentParts N r).map Prod.fst).map fun i => (s.slots i).idx := by
      rw [List.map_map]
      exact List.map_congr_left fun q hq => (hpart q hq).2.2.1.symm
    refine List.Nodup.of_map (fun i => (s.slots i).idx) (hidx ▸ ?_)
    have hsnd : (s.residentParts N r).map (fun q => q.2.idx)
        = ((s.residentParts N r).map Prod.snd).map BlockSpan.idx := List.map_map.symm
    rw [hsnd, map_snd_residentParts]
    exact (List.filter_sublist.map _).nodup hnd
  -- the resident parts
  obtain ⟨hinv₁, hcount₁⟩ := h.stageResidents hpart hndl
  have honly₁ : StagesOnly s (stageResidents r s (s.residentParts N r)) := stageResidents_stagesOnly
  have hslots₁ := stageResidents_slots (r := r) fun q hq => (hpart q hq).2.1
  generalize hs₁ : stageResidents r s (s.residentParts N r) = s₁ at *
  obtain ⟨hes, hsz, hbs, hec⟩ := honly₁.geometry
  -- the parts that take slots
  obtain ⟨s₂, hs₂, hinv₂, honly₂, hquiet₂, hcount₂⟩ := stageNew_spec (r := r) (s.newParts N r)
    (s.keepSlots N r) hinv₁ (fun p hp => by
      obtain ⟨hp, hf⟩ := mem_newParts.mp hp
      have hw : s.whole p = true := by
        by_contra hw
        have : p ∈ s.missingSpans N r := List.mem_filter.mpr ⟨hp, by simp [hf, hw]⟩
        rw [hmiss] at this
        cases this
      refine ⟨(hsp p hp).of_stages honly₁, ?_, fun a ha hocc => ?_⟩
      · unfold whole extentLen at hw ⊢
        rw [hes, hsz]
        exact hw
      · rw [(hslots₁ a).1]
        refine no_slot_of_none hf (Bool.eq_false_iff.mpr fun hfe => ?_) a ha
          fun hfr => hocc ((hslots₁ a).2.2.mpr hfr)
        exact hrace ⟨⟨hidle, hmiss, hroom, hfree⟩, p, hp, hw, hfe⟩)
    ((List.filter_sublist.map _).nodup hnd) (by
      rw [← hslots]
      refine hfree.trans (Nat.le_of_eq ?_)
      unfold freeSlots
      refine List.countP_congr fun a _ => ?_
      unfold Takes
      by_cases hk : a ∈ s.keepSlots N r
      · simp [hk]
      rw [← map_fst_residentParts] at hk
      rw [← hs₁, stageResidents_of_not_mem hk])
    fun a ha => (hslots₁ a).2.1.trans (hquiet a ha)
  have honly := honly₁.trans honly₂
  have hstage : s.stage N r = (s₂, true) := by
    rw [stage_eq, hs₁]
    exact hs₂
  have hmem : ∀ p, p ∈ (s.residentParts N r).map Prod.snd ++ s.newParts N r ↔ p ∈ s.spans r :=
    fun p => by
      rw [map_snd_residentParts, List.mem_append, mem_newParts, List.mem_filter,
        Option.isSome_iff_ne_none]
      tauto
  have himage : s₂.SlotsInv body N (s.withReq r img) := by
    refine hinv₂.congr fun idx _ j _ => ?_
    rw [hes, ← List.foldl_append]
    exact foldl_spans geo hop hdev hmem _
  have hcount : s₂.staged = s.staged + s.newStaged N r := by
    rw [hcount₂, hcount₁, hstaged, Nat.add_assoc]
  have hgen : s₂.writeGen = s.writeGen := congrArg (·.writeGen) honly
  have hview : s₂.view = s.view := congrArg (·.view) honly
  have hxch : s₂.exchange = s.exchange := congrArg (·.exchange) honly
  have hw : s.writeNow N r
      = ((if s.changes N r then { s₂ with queue.writeGen := s₂.writeGen + 1 } else s₂).noteWrite r,
        .done) := by
    unfold writeNow
    rw [if_neg (not_not.mpr hidle), if_neg (not_not.mpr hmiss), if_neg (Nat.not_lt.mpr hroom),
      if_neg (Nat.not_lt.mpr hfree), hstage]
    rfl
  have honly' (g : ℕ) : ({ s₂ with queue.writeGen := g } : BlockVolume)
      = { s with extents := s₂.extents, queue.writeGen := g } :=
    congrArg (fun t : BlockVolume => { t with queue.writeGen := g }) honly
  refine ⟨_, hw, ?_⟩
  by_cases hch : s.changes N r = true
  · rw [if_pos hch, honly', hgen]
    exact ⟨rfl, .inl rfl, himage.of_parts hview.symm rfl hxch.symm, hquiet₂, hcount, fun _ => rfl⟩
  · rw [if_neg hch, show s₂ = { s with extents := s₂.extents } from honly]
    have hsame := withReq_of_not_changes h geo hop hdev (Bool.not_eq_true _ ▸ hch)
    exact ⟨rfl, .inr ⟨rfl, fun pos _ => hsame pos⟩, himage.of_parts hview.symm rfl hxch.symm, hquiet₂,
      hcount, fun hnew => absurd (changes_of_newStaged hnew) hch⟩

/-- What a request may do to the flags that a drain looks at. -/
structure FlagsKeep (f f' : VolFlags) : Prop where
  draining : f'.draining = f.draining
  drained : f'.drained = f.drained
  flush : f.flushWanted = true → f'.flushWanted = true

theorem FlagsKeep.refl (f : VolFlags) : FlagsKeep f f := ⟨rfl, rfl, id⟩

theorem FlagsKeep.trans {f f' f'' : VolFlags} (h : FlagsKeep f f') (h' : FlagsKeep f' f'') :
    FlagsKeep f f'' :=
  ⟨h'.draining.trans h.draining, h'.drained.trans h.drained, h'.flush ∘ h.flush⟩

/-- A write that does not fit is told to wait. -/
theorem writeNow_of_not_fits (hfits : ¬ s.writeFits N r) :
    ∃ o f, o ≠ .done ∧ s.writeNow N r = ({ s with flags := f }, o) ∧ FlagsKeep s.flags f := by
  have hwants (l : List BlockSpan) : ∀ s₀ : BlockVolume, ∃ f,
      l.foldl (fun s p => s.want p.idx) s₀ = { s₀ with flags := f } ∧ FlagsKeep s₀.flags f := by
    induction l with
    | nil => exact fun s₀ => ⟨s₀.flags, rfl, .refl _⟩
    | cons p l ih =>
      intro s₀
      obtain ⟨f, hf, hk⟩ := ih (s₀.want p.idx)
      have hw : ∃ w, s₀.want p.idx = { s₀ with flags.wants := w } := by
        unfold want
        split
        · exact ⟨s₀.wants, rfl⟩
        split
        · exact ⟨_, rfl⟩
        · exact ⟨s₀.wants, rfl⟩
      obtain ⟨w, hw⟩ := hw
      rw [hw] at hf hk
      exact ⟨f, by rw [List.foldl_cons, hw, hf], ⟨hk.draining, hk.drained, hk.flush⟩⟩
  unfold writeNow
  split
  · exact ⟨.wait, s.flags, nofun, rfl, .refl _⟩
  next hidle =>
  split
  · obtain ⟨f, hf, hk⟩ := hwants (s.missingSpans N r) s
    exact ⟨.wait, f, nofun, by rw [hf], hk⟩
  next hmiss =>
  split
  · exact ⟨.room, _, nofun, rfl, rfl, rfl, fun _ => rfl⟩
  next hroom =>
  split
  · exact ⟨.room, _, nofun, rfl, rfl, rfl, fun _ => rfl⟩
  next hfree =>
  exact absurd ⟨not_not.mp hidle, not_not.mp hmiss, Nat.not_lt.mp hroom, Nat.not_lt.mp hfree⟩ hfits

end BlockVolume

end Loam

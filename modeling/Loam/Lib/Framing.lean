import Mathlib.Data.List.Basic
import Mathlib.Tactic.Common

/-!
# Frames in a row

A framing writes each value as a frame that says where it ends, so that frames
can be written one after another and read back from the front. Reading stops
where no whole frame is: the frames read and the rest are then those of the
string, whatever it is (`frames_append_rest`), and they are determined by
these two properties (`records_eq`).
-/

/-- A framing of values `α` as strings over `β`. -/
structure Framing (α β : Type) where
  enc : α → List β
  Ok : α → Prop
  /-- The frame at the front of a string, and what follows it. -/
  head : List β → Option (α × List β)
  head_eq_some_iff : ∀ {l a r}, head l = some (a, r) ↔ Ok a ∧ l = enc a ++ r
  enc_ne_nil : ∀ {a}, Ok a → enc a ≠ []

namespace Framing

variable {α β : Type} (F : Framing α β) {l t : List β} {a : α} {as : List α} {m n : ℕ}

/-- Frames one after another. -/
def frames (as : List α) : List β := (as.map F.enc).flatten

@[simp] theorem frames_nil : F.frames [] = [] := rfl

@[simp] theorem frames_cons (a : α) (as : List α) :
    F.frames (a :: as) = F.enc a ++ F.frames as := rfl

theorem frames_append (as bs : List α) :
    F.frames (as ++ bs) = F.frames as ++ F.frames bs := by
  simp [frames]

/-- Read at most `n` frames. -/
def readUpTo : ℕ → List β → List α × List β
  | 0, l => ([], l)
  | n + 1, l =>
    match F.head l with
    | none => ([], l)
    | some (a, r) => (a :: (readUpTo n r).1, (readUpTo n r).2)

/-- Values and where their frames start, the first of them at `n`. -/
def placed : ℕ → List α → List (ℕ × α)
  | _, [] => []
  | n, a :: as => (n, a) :: placed (n + (F.enc a).length) as

/-- The values whose frames a string begins with. -/
def records (l : List β) : List α := (F.readUpTo l.length l).1

/-- What follows them. -/
def rest (l : List β) : List β := (F.readUpTo l.length l).2

variable {F}

theorem head_enc (ha : F.Ok a) (r : List β) : F.head (F.enc a ++ r) = some (a, r) :=
  F.head_eq_some_iff.mpr ⟨ha, rfl⟩

theorem head_nil : F.head [] = none := by
  cases hh : F.head [] with
  | none => rfl
  | some p =>
    obtain ⟨ha, he⟩ := F.head_eq_some_iff.mp hh
    exact absurd (List.append_eq_nil_iff.mp he.symm).1 (F.enc_ne_nil ha)

theorem placed_append (n : ℕ) (as bs : List α) :
    F.placed n (as ++ bs) = F.placed n as ++ F.placed (n + (F.frames as).length) bs := by
  induction as generalizing n with
  | nil => rfl
  | cons a as ih =>
    rw [List.cons_append, placed, ih, placed, frames_cons, List.length_append, Nat.add_assoc]
    rfl

/-- A frame starts before the end of the frames. -/
theorem placed_lt (hok : ∀ a ∈ as, F.Ok a) (n : ℕ) :
    ∀ p ∈ F.placed n as, n ≤ p.1 ∧ p.1 < n + (F.frames as).length := by
  induction as generalizing n with
  | nil => nofun
  | cons a as ih =>
    have hpos := List.length_pos_of_ne_nil (F.enc_ne_nil (hok a List.mem_cons_self))
    intro p hp
    rw [frames_cons, List.length_append]
    rcases List.mem_cons.mp hp with rfl | hp
    · exact ⟨Nat.le_refl n, by dsimp only; omega⟩
    obtain ⟨hle, hlt⟩ := ih (fun b hb => hok b (List.mem_cons_of_mem _ hb)) _ p hp
    omega

theorem readUpTo_frames (n : ℕ) (h : F.head t = none) (hok : ∀ a ∈ as, F.Ok a)
    (hn : as.length ≤ n) : F.readUpTo n (F.frames as ++ t) = (as, t) := by
  induction as generalizing n with
  | nil =>
    cases n with
    | zero => rfl
    | succ n => rw [readUpTo, frames_nil, List.nil_append, h]
  | cons a as ih =>
    obtain ⟨n, rfl⟩ := Nat.exists_eq_add_of_lt (Nat.lt_of_lt_of_le (Nat.succ_pos _) hn)
    rw [Nat.zero_add, readUpTo, frames_cons, List.append_assoc,
      head_enc (hok a List.mem_cons_self)]
    have hrest := ih n (fun b hb => hok b (List.mem_cons_of_mem _ hb))
      (by rw [List.length_cons] at hn; omega)
    simp only [hrest]

/-- There are at least as many symbols as frames. -/
theorem length_le_frames (hok : ∀ a ∈ as, F.Ok a) : as.length ≤ (F.frames as).length := by
  induction as with
  | nil => exact Nat.le_refl 0
  | cons a as ih =>
    have hpos := List.length_pos_of_ne_nil (F.enc_ne_nil (hok a List.mem_cons_self))
    have htail := ih fun b hb => hok b (List.mem_cons_of_mem _ hb)
    rw [frames_cons, List.length_append, List.length_cons]
    omega

/-- **What is read is determined**: frames in a row, then no whole frame. -/
theorem records_eq (h : F.head t = none) (hok : ∀ a ∈ as, F.Ok a) :
    F.records (F.frames as ++ t) = as ∧ F.rest (F.frames as ++ t) = t := by
  have hlen : as.length ≤ (F.frames as ++ t).length := by
    rw [List.length_append]
    exact Nat.le_add_right_of_le (length_le_frames hok)
  have hread := readUpTo_frames _ h hok hlen
  exact ⟨congrArg Prod.fst hread, congrArg Prod.snd hread⟩

theorem readUpTo_spec (n : ℕ) (l : List β) (hn : l.length ≤ n) :
    (∀ a ∈ (F.readUpTo n l).1, F.Ok a) ∧
      l = F.frames (F.readUpTo n l).1 ++ (F.readUpTo n l).2 ∧
      F.head (F.readUpTo n l).2 = none := by
  induction n generalizing l with
  | zero =>
    have hnil := List.eq_nil_of_length_eq_zero (Nat.le_zero.mp hn)
    subst hnil
    exact ⟨nofun, rfl, head_nil⟩
  | succ n ih =>
    unfold readUpTo
    cases hh : F.head l with
    | none => exact ⟨nofun, rfl, hh⟩
    | some p =>
      obtain ⟨a, r⟩ := p
      obtain ⟨ha, rfl⟩ := F.head_eq_some_iff.mp hh
      have hpos := List.length_pos_of_ne_nil (F.enc_ne_nil ha)
      rw [List.length_append] at hn
      obtain ⟨hok, hr, hrest⟩ := ih r (by omega)
      refine ⟨fun b hb => ?_, ?_, hrest⟩
      · rcases List.mem_cons.mp hb with rfl | hb
        · exact ha
        · exact hok b hb
      · dsimp only
        rw [frames_cons, List.append_assoc, ← hr]

theorem records_ok (l : List β) : ∀ a ∈ F.records l, F.Ok a :=
  (readUpTo_spec l.length l (Nat.le_refl _)).1

/-- **A string is its frames and the rest.** -/
theorem frames_append_rest (l : List β) : F.frames (F.records l) ++ F.rest l = l :=
  (readUpTo_spec l.length l (Nat.le_refl _)).2.1.symm

theorem head_rest (l : List β) : F.head (F.rest l) = none :=
  (readUpTo_spec l.length l (Nat.le_refl _)).2.2

/-- Frames in front of a string are read before it. -/
theorem records_frames_append (hok : ∀ a ∈ as, F.Ok a) (l : List β) :
    F.records (F.frames as ++ l) = as ++ F.records l := by
  have hall : ∀ a ∈ as ++ F.records l, F.Ok a := fun a ha =>
    (List.mem_append.mp ha).elim (hok a) (records_ok l a)
  have hread := (records_eq (head_rest (F := F) l) hall).1
  rwa [frames_append, List.append_assoc, frames_append_rest] at hread

/-- A string with no whole frame at its front has no records. -/
theorem records_of_head (h : F.head l = none) : F.records l = [] := by
  have hok : ∀ a ∈ ([] : List α), F.Ok a := nofun
  exact (records_eq h hok).1

/-- **The front of frames in a row is read frame by frame**: the first of them,
and what is left with what follows is the others. -/
theorem records_front (hok : ∀ a ∈ as, F.Ok a) (h : l ++ t = F.frames as) :
    ∃ j, j ≤ as.length ∧ F.records l = as.take j ∧ F.rest l ++ t = F.frames (as.drop j) := by
  induction as generalizing l with
  | nil =>
    obtain ⟨rfl, rfl⟩ := List.append_eq_nil_iff.mp h
    exact ⟨0, Nat.le_refl 0, rfl, rfl⟩
  | cons a as ih =>
    cases hh : F.head l with
    | none =>
      have hread := records_eq (t := l) hh (List.forall_mem_nil F.Ok)
      exact ⟨0, Nat.zero_le _, hread.1, by rw [show F.rest l = l from hread.2]; exact h⟩
    | some p =>
      obtain ⟨b, r⟩ := p
      obtain ⟨hb, rfl⟩ := F.head_eq_some_iff.mp hh
      -- The frame at the front of what is there is the first of them all.
      have hwhole := head_enc hb (r ++ t)
      rw [← List.append_assoc, h, frames_cons, head_enc (hok a List.mem_cons_self)] at hwhole
      obtain ⟨rfl, hr⟩ := Prod.mk.inj (Option.some.inj hwhole)
      obtain ⟨j, hj, hrecords, hrest⟩ := ih (fun b hm => hok b (List.mem_cons_of_mem _ hm)) hr.symm
      have hone : ∀ b ∈ a :: F.records r, F.Ok b :=
        List.forall_mem_cons.mpr ⟨hok a List.mem_cons_self, records_ok r⟩
      have hread := records_eq (head_rest r) hone
      rw [frames_cons, List.append_assoc, frames_append_rest] at hread
      exact ⟨j + 1, Nat.succ_le_succ hj, by rw [hread.1, hrecords]; rfl, by rw [hread.2]; exact hrest⟩

/-- Frames in a row say what they are of. -/
theorem frames_inj {bs : List α} (ha : ∀ a ∈ as, F.Ok a) (hb : ∀ a ∈ bs, F.Ok a)
    (h : F.frames as = F.frames bs) : as = bs := by
  have has := (records_eq (F := F) head_nil ha).1
  have hbs := (records_eq (F := F) head_nil hb).1
  rw [List.append_nil] at has hbs
  rw [← has, h, hbs]

/-- What is in front of no whole frame is shorter than the next one. -/
theorem length_lt_of_head (hl : F.head l = none) (ha : F.Ok a) (h : l ++ t = F.frames (a :: as)) :
    l.length < (F.enc a).length := by
  by_contra hge
  have hfront : F.enc a <+: l := List.prefix_of_prefix_length_le
    (by rw [h, frames_cons]; exact List.prefix_append _ _) (List.prefix_append l t)
    (Nat.not_lt.mp hge)
  obtain ⟨r, rfl⟩ := hfront
  rw [head_enc ha] at hl
  cases hl

/-- The front of a frame is no whole frame. -/
theorem head_take (ha : F.Ok a) (hn : n < (F.enc a).length) : F.head ((F.enc a).take n) = none := by
  cases hh : F.head ((F.enc a).take n) with
  | none => rfl
  | some p =>
    obtain ⟨b, r⟩ := p
    obtain ⟨hb, he⟩ := F.head_eq_some_iff.mp hh
    -- The frame read would be at the front of the whole one too.
    have hwhole : F.head (F.enc a) = some (b, r ++ (F.enc a).drop n) := by
      refine F.head_eq_some_iff.mpr ⟨hb, ?_⟩
      rw [← List.append_assoc, ← he, List.take_append_drop]
    have hself := head_enc ha []
    rw [List.append_nil, hwhole] at hself
    have hnil := (Prod.mk.inj (Option.some.inj hself)).2
    have hdrop := (List.append_eq_nil_iff.mp hnil).2
    exact absurd (List.drop_eq_nil_iff.mp hdrop) (Nat.not_le.mpr hn)

/-- What a frame that may be cut holds: its value if it is whole. -/
theorem records_take (ha : F.Ok a) (n : ℕ) :
    F.records ((F.enc a).take n) = if (F.enc a).length ≤ n then [a] else [] := by
  split
  · next hn =>
    rw [List.take_of_length_le hn]
    have hone : ∀ b ∈ [a], F.Ok b := fun b hb => List.mem_singleton.mp hb ▸ ha
    have hread := records_frames_append hone []
    rwa [frames_cons, frames_nil, List.append_nil, List.append_nil,
      show F.records [] = [] from rfl, List.append_nil] at hread
  · next hn => exact records_of_head (head_take ha (Nat.not_le.mp hn))

end Framing

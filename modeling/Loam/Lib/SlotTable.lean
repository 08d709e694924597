import Mathlib.Data.List.Nodup
import Mathlib.Data.List.NodupEquivFin
import Mathlib.Data.List.Perm.Subperm
import Mathlib.Tactic.Common

/-!
# Fixed arrays of optional entries

A slot table is a list of slots, each free or holding an entry under a key.
It is read as a map by scanning for a key (`entry`); with one slot for each
key (`Unique`) the map is that of the entries, and writing a slot, freeing
one and mapping all of them do to the map what they say.
-/

namespace SlotTable

variable {α κ : Type}

/-- The entries with their indices, in array order. -/
def used (l : List (Option α)) : List (α × ℕ) :=
  l.zipIdx.filterMap fun p => p.1.map fun a => (a, p.2)

variable {key : α → κ} {l : List (Option α)} {a b : α} {i j : ℕ} {k : κ}

/-! ## Slots in use -/

theorem mem_used : (a, i) ∈ used l ↔ l[i]? = some (some a) := by
  simp only [used, List.mem_filterMap, Option.map_eq_some_iff, Prod.exists,
    Prod.mk.injEq, List.mem_zipIdx_iff_getElem?]
  constructor
  · rintro ⟨o, j, hj, s', rfl, rfl, rfl⟩
    exact hj
  · intro h
    exact ⟨some a, i, h, a, rfl, rfl, rfl⟩

theorem lt_of_mem_used (h : (a, i) ∈ used l) : i < l.length :=
  (List.getElem?_eq_some_iff.mp (mem_used.mp h)).1

theorem eq_of_mem_used (ha : (a, i) ∈ used l) (hb : (b, i) ∈ used l) : a = b := by
  rw [mem_used] at ha hb
  rw [ha] at hb
  exact Option.some.inj (Option.some.inj hb)

theorem mem_used_set {o : Option α} (hi : i < l.length) :
    (b, j) ∈ used (l.set i o) ↔ (j = i ∧ o = some b) ∨ (j ≠ i ∧ (b, j) ∈ used l) := by
  simp only [mem_used, List.getElem?_set]
  by_cases h : i = j
  · subst h
    simp [hi]
  · simp [h, Ne.symm h]

theorem mem_used_map {f : α → α} :
    (b, i) ∈ used (l.map (Option.map f)) ↔ ∃ a, (a, i) ∈ used l ∧ f a = b := by
  simp only [mem_used, List.getElem?_map, Option.map_eq_some_iff]
  constructor
  · rintro ⟨o, ho, a, rfl, rfl⟩
    exact ⟨a, ho, rfl⟩
  · rintro ⟨a, ha, rfl⟩
    exact ⟨some a, ha, a, rfl, rfl⟩

theorem used_nodup (l : List (Option α)) : (used l).Nodup := by
  have hz : (l.zipIdx.map Prod.snd).Nodup := by
    rw [List.zipIdx_map_snd]
    exact List.nodup_range'
  have hz' : l.zipIdx.Nodup := List.Nodup.of_map _ hz
  refine hz'.filterMap fun x y p hx hy => ?_
  simp only [Option.map_eq_some_iff, Option.mem_def] at hx hy
  obtain ⟨s, hxs, rfl⟩ := hx
  obtain ⟨t, hyt, he⟩ := hy
  obtain ⟨rfl, h2⟩ := Prod.mk.inj he
  exact Prod.ext (hxs.trans hyt.symm) h2.symm

theorem used_replicate (n : ℕ) : used (List.replicate n (none : Option α)) = [] := by
  rw [List.eq_nil_iff_forall_not_mem]
  rintro ⟨a, i⟩ h
  have hm := List.mem_of_getElem? (mem_used.mp h)
  simp [List.mem_replicate] at hm

/-! ## Capacity -/

theorem length_used : (used l).length = l.countP Option.isSome := by
  have hgen : ∀ (l : List (Option α)) (n : ℕ),
      ((l.zipIdx n).filterMap fun p => p.1.map fun a => (a, p.2)).length
        = l.countP Option.isSome := by
    intro l
    induction l with
    | nil => intro n; rfl
    | cons o l ih =>
      intro n
      cases o with
      | none => simpa [List.zipIdx_cons] using ih (n + 1)
      | some s => simpa [List.zipIdx_cons] using ih (n + 1)
  exact hgen l 0

theorem length_used_le : (used l).length ≤ l.length := by
  rw [length_used]
  exact List.countP_le_length

/-- The table is full exactly when a scan finds no free slot. -/
theorem length_used_eq_iff : (used l).length = l.length ↔ l.findIdx? Option.isNone = none := by
  rw [length_used, List.countP_eq_length, List.findIdx?_eq_none_iff]
  simp only [Option.isSome_iff_ne_none, Option.isNone_eq_false_iff]

theorem free_eq_some (h : l.findIdx? Option.isNone = some i) :
    i < l.length ∧ ∀ a, (a, i) ∉ used l := by
  obtain ⟨hi, hn, -⟩ := List.findIdx?_eq_some_iff_getElem.mp h
  refine ⟨hi, fun a ha => ?_⟩
  have he := (List.getElem?_eq_some_iff.mp (mem_used.mp ha)).2
  rw [he] at hn
  cases hn

/-! ## Tables without gaps -/

/-- The entries come first, the free slots after them. -/
def Packed (l : List (Option α)) : Prop :=
  ∃ (as : List α) (n : ℕ), l = as.map some ++ List.replicate n none

namespace Packed

theorem replicate (n : ℕ) : Packed (List.replicate n (none : Option α)) := ⟨[], n, rfl⟩

theorem set_used (h : Packed l) (hm : (a, i) ∈ used l) : Packed (l.set i (some b)) := by
  obtain ⟨as, n, rfl⟩ := h
  have hi : i < as.length := by
    by_contra hge
    have hget := mem_used.mp hm
    rw [List.getElem?_append_right (by simpa using hge), List.getElem?_replicate] at hget
    split at hget
    · cases hget
    · cases hget
  refine ⟨as.set i b, n, ?_⟩
  rw [List.set_append_left _ _ (by simpa using hi), List.map_set]

/-- The first free slot is the one after the entries. -/
theorem set_free (h : Packed l) (hf : l.findIdx? Option.isNone = some i) :
    Packed (l.set i (some a)) := by
  obtain ⟨as, n, rfl⟩ := h
  have hnone : (as.map some).findIdx? Option.isNone = none := by
    simp [List.findIdx?_eq_none_iff]
  rw [List.findIdx?_append, hnone, Option.none_or] at hf
  cases n with
  | zero => simp at hf
  | succ n =>
    obtain rfl : as.length = i := by simpa [List.replicate_succ, List.findIdx?_cons] using hf
    refine ⟨as ++ [a], n, ?_⟩
    rw [List.set_append_right _ _ (by simp)]
    simp [List.replicate_succ]

/-- An entry of a packed table is one of those that come first. -/
theorem mem_used_iff {as : List α} {n : ℕ} :
    (∃ i, (a, i) ∈ used (as.map some ++ List.replicate n none)) ↔ a ∈ as := by
  constructor
  · rintro ⟨i, hm⟩
    have hget := List.mem_of_getElem? (mem_used.mp hm)
    simpa [List.mem_replicate] using hget
  · intro ha
    obtain ⟨i, hi, hget⟩ := List.mem_iff_getElem.mp ha
    refine ⟨i, mem_used.mpr ?_⟩
    rw [List.getElem?_append_left (by simpa using hi)]
    simp [hi, hget]

theorem map (h : Packed l) (f : α → α) : Packed (l.map (Option.map f)) := by
  obtain ⟨as, n, rfl⟩ := h
  exact ⟨as.map f, n, by simp⟩

end Packed

/-! ### The table a list fills -/

/-- The table of `n` slots that the entries of a list fill in order, as many
as it has slots for. -/
def pack (n : ℕ) (as : List α) : List (Option α) :=
  (as.take n).map some ++ List.replicate (n - as.length) none

section Pack

variable {n : ℕ} {as bs : List α}

@[simp] theorem pack_nil (n : ℕ) : pack n ([] : List α) = List.replicate n none := by
  simp [pack]

theorem mem_used_pack : (a, i) ∈ used (pack n as) ↔ i < n ∧ as[i]? = some a := by
  rw [mem_used, pack, List.getElem?_append]
  simp only [List.length_map, List.length_take, List.getElem?_map, List.getElem?_take,
    List.getElem?_replicate]
  by_cases hi : i < min n as.length
  · rw [if_pos hi, if_pos (Nat.lt_of_lt_of_le hi (Nat.min_le_left ..))]
    simp [Nat.lt_of_lt_of_le hi (Nat.min_le_left ..)]
  · rw [if_neg hi]
    refine iff_of_false (by split <;> simp) fun ⟨hn, hget⟩ => ?_
    have := (List.getElem?_eq_some_iff.mp hget).1
    omega

/-- The first free slot is the one after the entries, while there is one. -/
theorem findIdx?_pack :
    (pack n as).findIdx? Option.isNone = if as.length < n then some as.length else none := by
  have hnone : ((as.take n).map some).findIdx? Option.isNone = none := by
    rw [List.findIdx?_eq_none_iff]
    intro o ho
    obtain ⟨a, -, rfl⟩ := List.mem_map.mp ho
    rfl
  rw [pack, List.findIdx?_append, hnone, Option.none_or]
  split
  · next hlt =>
    obtain ⟨m, hm⟩ : ∃ m, n - as.length = m + 1 := ⟨n - as.length - 1, by omega⟩
    rw [hm, List.replicate_succ]
    simp [List.findIdx?_cons, Nat.min_eq_right hlt.le]
  · next hge =>
    rw [Nat.sub_eq_zero_of_le (Nat.not_lt.mp hge)]
    rfl

/-- One entry more, while there is a slot. -/
theorem set_pack (h : as.length < n) : (pack n as).set as.length (some a) = pack n (as ++ [a]) := by
  refine List.ext_getElem? fun j => ?_
  obtain ⟨m, hm⟩ : ∃ m, n - as.length = m + 1 := ⟨n - as.length - 1, by omega⟩
  rw [pack, pack, List.take_of_length_le h.le, List.take_of_length_le (by simpa [Nat.succ_le_iff] using h),
    List.set_append_right _ _ (by simp), List.length_map, Nat.sub_self, hm, List.length_append,
    List.length_singleton, show n - (as.length + 1) = m by omega]
  simp [List.replicate_succ]

/-- A full table takes no more. -/
theorem pack_append_of_le (h : n ≤ as.length) : pack n (as ++ bs) = pack n as := by
  rw [pack, pack, List.take_append_of_le_length h, List.length_append,
    Nat.sub_eq_zero_of_le h, Nat.sub_eq_zero_of_le (Nat.le_add_right_of_le h)]

end Pack

/-! ## Unique keys -/

variable (key) in
/-- A key has one slot. -/
def Unique (l : List (Option α)) : Prop :=
  ∀ ⦃a b : α⦄ ⦃i j : ℕ⦄, (a, i) ∈ used l → (b, j) ∈ used l → key a = key b → i = j

variable (key) in
/-- The keys in use, each once. -/
def keys (l : List (Option α)) : List κ := (used l).map fun p => key p.1

@[simp] theorem length_keys : (keys key l).length = (used l).length := List.length_map _

namespace Unique

theorem replicate (n : ℕ) : Unique key (List.replicate n (none : Option α)) := by
  intro a b i j ha
  rw [used_replicate] at ha
  cases ha

/-- Writing a slot where nothing else has its key. -/
theorem set_some (h : Unique key l) (hi : i < l.length)
    (hkey : ∀ b j, (b, j) ∈ used l → key b = key a → j = i) : Unique key (l.set i (some a)) := by
  intro b c j m hb hc he
  rw [mem_used_set hi] at hb hc
  rcases hb with ⟨rfl, hab⟩ | ⟨hj, hb⟩ <;> rcases hc with ⟨rfl, hac⟩ | ⟨hm, hc⟩
  · rfl
  · cases hab
    exact absurd (hkey c m hc he.symm) hm
  · cases hac
    exact absurd (hkey b j hb he) hj
  · exact h hb hc he

theorem set_none (h : Unique key l) (hi : i < l.length) : Unique key (l.set i none) := by
  intro b c j m hb hc he
  rw [mem_used_set hi] at hb hc
  rcases hb with ⟨-, hb⟩ | ⟨-, hb⟩
  · cases hb
  rcases hc with ⟨-, hc⟩ | ⟨-, hc⟩
  · cases hc
  · exact h hb hc he

theorem map (h : Unique key l) {f : α → α} (hf : ∀ a, key (f a) = key a) :
    Unique key (l.map (Option.map f)) := by
  intro b c i j hb hc he
  obtain ⟨b', hb', rfl⟩ := mem_used_map.mp hb
  obtain ⟨c', hc', rfl⟩ := mem_used_map.mp hc
  rw [hf, hf] at he
  exact h hb' hc' he

/-- The entries of a table without gaps, in order. -/
theorem nodup_of_packed {as : List α} {n : ℕ}
    (h : Unique key (as.map some ++ List.replicate n none)) : (as.map key).Nodup := by
  have hused : ∀ (i : ℕ) (hi : i < as.length),
      (as[i], i) ∈ used (as.map some ++ List.replicate n none) := fun i hi => by
    rw [mem_used, List.getElem?_append_left (by simpa using hi)]
    simp [hi]
  rw [List.Nodup, List.pairwise_iff_getElem]
  intro i j hi hj hij he
  rw [List.length_map] at hi hj
  rw [List.getElem_map, List.getElem_map] at he
  exact hij.ne (h (hused i hi) (hused j hj) he)

theorem keys_nodup (h : Unique key l) : (keys key l).Nodup :=
  (used_nodup l).map_on fun p hp q hq he => by
    obtain ⟨s, i⟩ := p
    obtain ⟨t, j⟩ := q
    obtain rfl := h hp hq he
    rw [eq_of_mem_used hp hq]

end Unique

/-! ## The map of a table -/

section Map

variable [DecidableEq κ]

variable (key) in
/-- The slot of a key and its index. -/
def find (k : κ) (l : List (Option α)) : Option (α × ℕ) :=
  (used l).find? fun p => decide (key p.1 = k)

variable (key) in
/-- The entry of a key. -/
def entry (k : κ) (l : List (Option α)) : Option α := (find key k l).map Prod.fst

theorem find_eq_none_iff : find key k l = none ↔ ∀ a i, (a, i) ∈ used l → key a ≠ k := by
  simp [find, List.find?_eq_none]

/-- The first slot is found first. -/
theorem find_cons_some (h : key a = k) : find key k (some a :: l) = some (a, 0) := by
  simp [find, used, List.zipIdx_cons, h]

theorem mem_of_find (h : find key k l = some (a, i)) : (a, i) ∈ used l ∧ key a = k :=
  ⟨List.mem_of_find?_eq_some h, by simpa using List.find?_some h⟩

theorem entry_eq_none_iff : entry key k l = none ↔ ∀ a i, (a, i) ∈ used l → key a ≠ k := by
  rw [entry, Option.map_eq_none_iff, find_eq_none_iff]

theorem key_of_entry (h : entry key k l = some a) : key a = k := by
  obtain ⟨⟨b, i⟩, hf, rfl⟩ := Option.map_eq_some_iff.mp h
  exact (mem_of_find hf).2

theorem entry_replicate (n : ℕ) : entry key k (List.replicate n none) = none := by
  rw [entry_eq_none_iff, used_replicate]
  exact fun _ _ h => nomatch h

theorem mem_keys_iff : k ∈ keys key l ↔ entry key k l ≠ none := by
  rw [Ne, entry_eq_none_iff]
  simp only [keys, List.mem_map, Prod.exists]
  push Not
  exact Iff.rfl

namespace Unique

theorem find_eq_some_iff (h : Unique key l) :
    find key k l = some (a, i) ↔ (a, i) ∈ used l ∧ key a = k := by
  refine ⟨mem_of_find, ?_⟩
  rintro ⟨hm, hk⟩
  cases hf : find key k l with
  | none => exact absurd hk (find_eq_none_iff.mp hf a i hm)
  | some p =>
    obtain ⟨b, j⟩ := p
    obtain ⟨hb, hbk⟩ := mem_of_find hf
    obtain rfl : i = j := h hm hb (hk.trans hbk.symm)
    rw [eq_of_mem_used hm hb]

theorem entry_eq_some_iff (h : Unique key l) :
    entry key k l = some a ↔ ∃ i, (a, i) ∈ used l ∧ key a = k := by
  simp only [entry, Option.map_eq_some_iff, Prod.exists, exists_and_right,
    exists_eq_right, h.find_eq_some_iff]

theorem entry_of_mem (h : Unique key l) (hm : (a, i) ∈ used l) : entry key (key a) l = some a :=
  h.entry_eq_some_iff.mpr ⟨i, hm, rfl⟩

/-- The map after a slot is written: its key has the entry, and a key the
slot had is gone. -/
theorem entry_set_some (h : Unique key l) (hi : i < l.length)
    (hkey : ∀ b j, (b, j) ∈ used l → key b = key a → j = i)
    (hold : ∀ b, (b, i) ∈ used l → key b = key a) (k : κ) :
    entry key k (l.set i (some a)) = if k = key a then some a else entry key k l := by
  have hu := h.set_some hi hkey
  split
  · next hk =>
    exact hu.entry_eq_some_iff.mpr ⟨i, (mem_used_set hi).mpr (.inl ⟨rfl, rfl⟩), hk.symm⟩
  next hk =>
  refine Option.ext fun b => ?_
  rw [hu.entry_eq_some_iff, h.entry_eq_some_iff]
  refine exists_congr fun j => and_congr_left fun hbk => ?_
  rw [mem_used_set hi]
  constructor
  · rintro (⟨-, hab⟩ | ⟨-, hb⟩)
    · cases hab
      exact absurd hbk.symm hk
    · exact hb
  · intro hb
    refine .inr ⟨?_, hb⟩
    rintro rfl
    exact hk (hbk ▸ hold b hb)

/-- The map after a slot is freed: its key is gone. -/
theorem entry_set_none (h : Unique key l) (hm : (a, i) ∈ used l) (k : κ) :
    entry key k (l.set i none) = if k = key a then none else entry key k l := by
  have hi := lt_of_mem_used hm
  have hu := h.set_none hi
  refine Option.ext fun b => ?_
  rw [hu.entry_eq_some_iff]
  simp only [mem_used_set hi]
  split
  · next hk =>
    simp only [reduceCtorEq, and_false, false_or, iff_false, not_exists, not_and]
    rintro j ⟨hj, hb⟩ hbk
    exact hj (h hb hm (hbk.trans hk))
  next hk =>
  rw [h.entry_eq_some_iff]
  refine exists_congr fun j => and_congr_left fun hbk => ?_
  simp only [reduceCtorEq, and_false, false_or, and_iff_right_iff_imp]
  rintro hb rfl
  exact hk (hbk ▸ congrArg _ (eq_of_mem_used hb hm))

theorem entry_map (h : Unique key l) {f : α → α} (hf : ∀ a, key (f a) = key a) (k : κ) :
    entry key k (l.map (Option.map f)) = (entry key k l).map f := by
  refine Option.ext fun b => ?_
  rw [(h.map hf).entry_eq_some_iff, Option.map_eq_some_iff]
  constructor
  · rintro ⟨i, hb, hk⟩
    obtain ⟨a, ha, rfl⟩ := mem_used_map.mp hb
    rw [hf] at hk
    exact ⟨a, hk ▸ h.entry_of_mem ha, rfl⟩
  · rintro ⟨a, ha, rfl⟩
    obtain ⟨i, hm, hk⟩ := h.entry_eq_some_iff.mp ha
    exact ⟨i, mem_used_map.mpr ⟨a, hm, rfl⟩, (hf a).trans hk⟩

/-- **A table whose keys are among another's, with one to spare, has fewer
entries.** -/
theorem length_lt_of_subset {l' : List (Option α)} (h : Unique key l)
    (hsub : ∀ k, entry key k l ≠ none → entry key k l' ≠ none)
    (hk : entry key k l = none) (hkb : entry key k l' ≠ none) :
    (used l).length < (used l').length := by
  have hnd : (k :: keys key l).Nodup :=
    List.nodup_cons.mpr ⟨fun hm => mem_keys_iff.mp hm hk, h.keys_nodup⟩
  have hss : k :: keys key l ⊆ keys key l' := by
    intro x hx
    rcases List.mem_cons.mp hx with rfl | hx
    · exact mem_keys_iff.mpr hkb
    · exact mem_keys_iff.mpr (hsub x (mem_keys_iff.mp hx))
  have hlen := (List.subperm_of_subset hnd hss).length_le
  rw [List.length_cons, length_keys, length_keys] at hlen
  omega

end Unique

end Map

end SlotTable

import Loam.BodyWire
import Mathlib.Data.List.Perm.Basic
import Mathlib.Data.List.Nodup

/-!
# Placement

Which members of a fleet hold a body is computed, never stored: each member is
weighed against the body's name, the members are sorted by weight, and the
heaviest are taken, one of each failure domain before a second of any.

The sort is the code's selection sort on an array, which is not stable. What
the routers rest on is less than the order: that the result depends on the name
and the fleet alone, that it names members of the fleet, no member twice, and
as many as were asked for where the fleet has them.
-/

namespace Loam

/-- The most members a fleet has (`MAX_FLEET`). -/
def maxFleet : ℕ := 16

/-- A fleet: the members with their failure domains, in the order of the
snapshot. -/
structure Fleet where
  members : List (UInt8 × UInt8)
deriving DecidableEq

/-- A fleet with no topology described: every member in domain 0
(`from_slice`). -/
def Fleet.fromSlice (members : List UInt8) : Fleet :=
  ⟨(members.take maxFleet).map fun m => (m, 0)⟩

/-- The weight of a member for a name: FNV-1a over the name, then the
member. -/
def weight (key : Digest) (member : UInt8) : UInt64 := fnv1a64 (key.val ++ [member])

/-- A member with its weight. -/
structure Weighed where
  weight : UInt64
  member : UInt8
  domain : UInt8
deriving DecidableEq

/-- The weight at an index. -/
def weightAt (ws : List Weighed) (i : ℕ) : UInt64 := ((ws[i]?).map Weighed.weight).getD 0

/-- The heaviest entry from `i` on, the first of equals. -/
def maxIdx (ws : List Weighed) (i : ℕ) : ℕ :=
  (List.range' (i + 1) (ws.length - (i + 1))).foldl
    (fun best j => if weightAt ws best < weightAt ws j then j else best) i

/-- Swap two entries. -/
def swapAt (ws : List Weighed) (i j : ℕ) : List Weighed :=
  match ws[i]?, ws[j]? with
  | some a, some b => (ws.set i b).set j a
  | _, _ => ws

/-- The entries sorted by descending weight. -/
def sortByWeight (ws : List Weighed) : List Weighed :=
  (List.range ws.length).foldl (fun ws i => swapAt ws i (maxIdx ws i)) ws

/-- The first pass: the heaviest member of each domain not yet used, up to
`take`. The domains used are kept beside the members taken. -/
def spread (take : ℕ) (ws : List Weighed) : List UInt8 × List UInt8 :=
  ws.foldl (fun (used, out) w =>
    if out.length = take ∨ w.domain ∈ used then (used, out)
    else (w.domain :: used, out ++ [w.member])) ([], [])

/-- The second pass: fill up in order of weight. -/
def fill (take : ℕ) (ws : List Weighed) (out : List UInt8) : List UInt8 :=
  ws.foldl (fun out w =>
    if out.length = take ∨ w.member ∈ out then out else out ++ [w.member]) out

/-- The members of a fleet, weighed for a name. -/
def Fleet.weighed (fleet : Fleet) (key : Digest) : List Weighed :=
  fleet.members.map fun (m, d) => ⟨weight key m, m, d⟩

/-- The `n` members a name is placed on (`pick_targets`). -/
def pickTargets (key : Digest) (n : ℕ) (fleet : Fleet) : List UInt8 :=
  let take := min n fleet.members.length
  let ws := sortByWeight (fleet.weighed key)
  fill take ws (spread take ws).2

/-! ## The sort is a permutation -/

section Passes

variable {ws : List Weighed} {take : ℕ} {out : List UInt8}

theorem swapAt_perm (ws : List Weighed) (i j : ℕ) : (swapAt ws i j).Perm ws := by
  unfold swapAt
  split
  · next a b ha hb =>
    obtain ⟨hi, rfl⟩ := List.getElem?_eq_some_iff.mp ha
    obtain ⟨hj, rfl⟩ := List.getElem?_eq_some_iff.mp hb
    exact List.set_set_perm hi hj
  · exact List.Perm.refl _

theorem sortByWeight_perm (ws : List Weighed) : (sortByWeight ws).Perm ws := by
  unfold sortByWeight
  generalize List.range ws.length = is
  induction is generalizing ws with
  | nil => exact List.Perm.refl _
  | cons i is ih => exact (ih _).trans (swapAt_perm ws i _)

/-! ## What the passes take -/

/-- The second pass keeps what was taken, takes no member twice, and takes
members of the list only. -/
theorem fill_spec (ws : List Weighed) (take : ℕ) (out : List UInt8) :
    (out.Nodup → (fill take ws out).Nodup) ∧
      (out.length ≤ take → (fill take ws out).length ≤ take) ∧
      ∀ m ∈ fill take ws out, m ∈ out ∨ m ∈ ws.map Weighed.member := by
  unfold fill
  induction ws generalizing out with
  | nil => exact ⟨id, id, fun m hm => .inl hm⟩
  | cons w ws ih =>
    rw [List.foldl_cons]
    split
    · obtain ⟨hn, hl, hm⟩ := ih out
      exact ⟨hn, hl, fun m h => (hm m h).imp_right fun h => List.mem_cons_of_mem _ h⟩
    next hc =>
    obtain ⟨hlen, hnot⟩ := not_or.mp hc
    obtain ⟨hn, hl, hm⟩ := ih (out ++ [w.member])
    refine ⟨fun h => hn ?_, fun h => hl ?_, fun m h => ?_⟩
    · exact List.nodup_append.mpr ⟨h, List.nodup_singleton _, by
        rintro a ha b hb rfl
        exact hnot (List.mem_singleton.mp hb ▸ ha)⟩
    · rw [List.length_append, List.length_singleton]
      omega
    · rcases hm m h with h | h
      · rcases List.mem_append.mp h with h | h
        · exact .inl h
        · exact .inr (by simp [List.mem_singleton.mp h])
      · exact .inr (List.mem_cons_of_mem _ h)

/-- The second pass fills up as far as the list has members. -/
theorem length_fill (ws : List Weighed) {take : ℕ} {out : List UInt8}
    (hnodup : (ws.map Weighed.member).Nodup) (hout : out.length ≤ take)
    (hle : take ≤ out.length + (ws.filter fun w => w.member ∉ out).length) :
    (fill take ws out).length = take := by
  unfold fill
  induction ws generalizing out with
  | nil =>
    simp only [List.filter_nil, List.length_nil, Nat.add_zero] at hle
    simpa using Nat.le_antisymm hout hle
  | cons w ws ih =>
    obtain ⟨hw, hnodup⟩ := List.nodup_cons.mp hnodup
    rw [List.foldl_cons]
    split
    · next hc =>
      refine ih hnodup hout ?_
      rcases hc with hc | hc
      · omega
      · rwa [List.filter_cons_of_neg (by simpa using hc)] at hle
    · next hc =>
      obtain ⟨hlen, hnot⟩ := not_or.mp hc
      rw [List.filter_cons_of_pos (by simpa using hnot), List.length_cons] at hle
      refine ih hnodup (by rw [List.length_append, List.length_singleton]; omega) ?_
      -- taking `w` takes nothing else from what is left
      have hsame : (ws.filter fun v => v.member ∉ out ++ [w.member])
          = ws.filter fun v => v.member ∉ out := by
        refine List.filter_congr fun v hv => ?_
        have hne : v.member ≠ w.member := fun he =>
          hw (he ▸ List.mem_map_of_mem (f := Weighed.member) hv)
        simp [hne]
      rw [hsame, List.length_append, List.length_singleton]
      omega

/-- The first pass takes members of the list, a member of each domain, up to
`take`. -/
theorem spread_spec (ws : List Weighed) (take : ℕ) :
    (spread take ws).2.length ≤ take ∧
      (∀ m ∈ (spread take ws).2, m ∈ ws.map Weighed.member) ∧
      ((ws.map Weighed.member).Nodup → (spread take ws).2.Nodup) ∧
      ((∀ w ∈ ws, w.domain = 0) → (spread take ws).2.length ≤ 1) := by
  -- the state of the loop, with the domains used of those members
  suffices h : ∀ used out : List UInt8, out.length ≤ take →
        let r := ws.foldl (fun (used, out) w =>
          if out.length = take ∨ w.domain ∈ used then (used, out)
          else (w.domain :: used, out ++ [w.member])) (used, out)
        r.2.length ≤ take ∧ (∀ m ∈ r.2, m ∈ out ∨ m ∈ ws.map Weighed.member) ∧
          ((ws.map Weighed.member).Nodup → out.Nodup →
            (∀ m ∈ out, m ∉ ws.map Weighed.member) → r.2.Nodup) ∧
          ((∀ w ∈ ws, w.domain = 0) → (out = [] ∨ out.length ≤ 1 ∧ 0 ∈ used) →
            r.2.length ≤ 1) by
    obtain ⟨hl, hm, hn, hd⟩ := h [] [] (Nat.zero_le _)
    exact ⟨hl, fun m hmem => (hm m hmem).resolve_left (List.not_mem_nil),
      fun h => hn h List.nodup_nil (fun m hm => absurd hm List.not_mem_nil),
      fun h => hd h (.inl rfl)⟩
  induction ws with
  | nil =>
    intro used out hle
    refine ⟨hle, fun m hm => .inl hm, fun _ h _ => h, fun _ h => ?_⟩
    rcases h with rfl | ⟨h, -⟩
    · exact Nat.zero_le _
    · exact h
  | cons w ws ih =>
    intro used out hle
    dsimp only
    rw [List.foldl_cons]
    split
    · obtain ⟨hl, hm, hn, hd⟩ := ih used out hle
      refine ⟨hl, fun m h => (hm m h).imp_right fun h => List.mem_cons_of_mem _ h,
        fun hnd ho hdis => ?_, fun hz ho => hd (fun v hv => hz v (List.mem_cons_of_mem _ hv)) ho⟩
      exact hn (List.nodup_cons.mp hnd).2 ho fun m hmem hin => hdis m hmem (List.mem_cons_of_mem _ hin)
    next hc =>
    obtain ⟨hlen, hnot⟩ := not_or.mp hc
    have hlt : out.length < take := Nat.lt_of_le_of_ne hle hlen
    have hle' : (out ++ [w.member]).length ≤ take := by
      rw [List.length_append, List.length_singleton]
      omega
    obtain ⟨hl, hm, hn, hd⟩ := ih (w.domain :: used) (out ++ [w.member]) hle'
    refine ⟨hl, fun m h => ?_, fun hnd ho hdis => ?_, fun hz ho => ?_⟩
    · rcases hm m h with h | h
      · rcases List.mem_append.mp h with h | h
        · exact .inl h
        · exact .inr (by simp [List.mem_singleton.mp h])
      · exact .inr (List.mem_cons_of_mem _ h)
    · obtain ⟨hw, hnd⟩ := List.nodup_cons.mp hnd
      refine hn hnd ?_ fun m hmem hin => ?_
      · refine List.nodup_append.mpr ⟨ho, List.nodup_singleton _, ?_⟩
        rintro a ha b hb rfl
        exact hdis a ha (by simp [List.mem_singleton.mp hb])
      · rcases List.mem_append.mp hmem with h | h
        · exact hdis m h (List.mem_cons_of_mem _ hin)
        · exact hw (List.mem_singleton.mp h ▸ hin)
    · have hw0 : w.domain = 0 := hz w List.mem_cons_self
      refine hd (fun v hv => hz v (List.mem_cons_of_mem _ hv)) (.inr ?_)
      rcases ho with rfl | ⟨-, h0⟩
      · exact ⟨by simp, by simp [hw0]⟩
      · exact absurd (hw0 ▸ h0) hnot

/-- **The two passes take as many as were asked for**, where there are as
many. -/
theorem length_fill_spread (hnodup : (ws.map Weighed.member).Nodup) (hle : take ≤ ws.length) :
    (fill take ws (spread take ws).2).length = take := by
  obtain ⟨hlen, -, -, -⟩ := spread_spec ws take
  refine length_fill ws hnodup hlen ?_
  -- what the first pass did not take is still there
  have htaken : (ws.filter fun w => w.member ∈ (spread take ws).2).length
      ≤ (spread take ws).2.length := by
    rw [← List.length_map (f := Weighed.member)]
    refine (List.subperm_of_subset (hnodup.sublist (List.filter_sublist.map _)) ?_).length_le
    intro m hm
    obtain ⟨w, hw, rfl⟩ := List.mem_map.mp hm
    simpa using (List.mem_filter.mp hw).2
  have hsplit := List.length_eq_length_filter_add (l := ws)
    (fun w => w.member ∈ (spread take ws).2)
  simp only [decide_not] at *
  omega

end Passes

/-! ## What `pick_targets` gives -/

variable {key : Digest} {n : ℕ} {members : List UInt8}

theorem members_sorted (fleet : Fleet) (key : Digest) :
    ((sortByWeight (fleet.weighed key)).map Weighed.member).Perm (fleet.members.map Prod.fst) := by
  refine ((sortByWeight_perm _).map _).trans ?_
  rw [Fleet.weighed, List.map_map]
  exact List.Perm.of_eq rfl

/-- No more targets than were asked for. -/
theorem length_pickTargets_le (key : Digest) (n : ℕ) (fleet : Fleet) :
    (pickTargets key n fleet).length ≤ min n fleet.members.length :=
  (fill_spec _ _ _).2.1 (spread_spec _ _).1

theorem mem_of_mem_pickTargets {fleet : Fleet} {t : UInt8} (h : t ∈ pickTargets key n fleet) :
    t ∈ fleet.members.map Prod.fst := by
  refine (members_sorted fleet key).mem_iff.mp ?_
  exact ((fill_spec _ _ _).2.2 t h).elim ((spread_spec _ _).2.1 t) id

/-- No target twice, whatever the fleet, where no topology is described. -/
theorem nodup_pickTargets (key : Digest) (n : ℕ) (members : List UInt8) :
    (pickTargets key n (.fromSlice members)).Nodup := by
  refine (fill_spec _ _ _).1 (List.nodup_iff_getElem?_ne_getElem?.mpr fun i j hij hj => ?_)
  have hone := (spread_spec (sortByWeight ((Fleet.fromSlice members).weighed key))
    (min n (Fleet.fromSlice members).members.length)).2.2.2 fun w hw => by
      have hw := (sortByWeight_perm _).mem_iff.mp hw
      obtain ⟨p, hp, rfl⟩ := List.mem_map.mp hw
      obtain ⟨m, -, rfl⟩ := List.mem_map.mp hp
      rfl
  omega

/-- As many targets as were asked for, where the members are distinct and
there are as many. -/
theorem length_pickTargets {fleet : Fleet} (h : (fleet.members.map Prod.fst).Nodup) (key : Digest)
    (n : ℕ) : (pickTargets key n fleet).length = min n fleet.members.length := by
  have hperm := members_sorted fleet key
  refine length_fill_spread (hperm.nodup_iff.mpr h) ?_
  have hcount : (sortByWeight (fleet.weighed key)).length = fleet.members.length := by
    simpa using hperm.length_eq
  rw [hcount]
  exact Nat.min_le_right _ _

end Loam

import Loam.Placement
import Mathlib.Data.List.Dedup
import Mathlib.Data.List.Sort

/-!
# Placement depends on the fleet alone

A router computes where a body goes from the snapshot it has, and another
router has to compute the same from its own: the snapshots list the same
members, in whatever order. The order is nowhere in the result because the
weight tells the members apart: of one name, no two weigh the same
(`weight_injective`). So the sort has one outcome, and leaving a member out
leaves the others as they stand.

The two passes then take members front to back, each step keeping what was
taken before it. A member that is not taken in the end was passed over, and is
passed over by its absence just as well.
-/

namespace Loam

/-! ## Fleets with states -/

/-- The member takes no new writes, for it is leaving (`MEMBER_DRAINING`). -/
def memberDraining : UInt8 := 1

/-- The member takes no new writes, for it is of the cold tier
(`MEMBER_COLD`). -/
def memberCold : UInt8 := 2

/-- A member as a snapshot describes it. -/
structure Member where
  member : UInt8
  domain : UInt8
  /-- Its flags; 0 is a hot member taking writes. -/
  state : UInt8
deriving DecidableEq

/-- **A fleet of distinct members**, in the order of its snapshot. -/
structure Roster where
  members : List Member
  nodup : (members.map Member.member).Nodup
  length_le : members.length ≤ maxFleet

/-- Does the state take new writes? -/
def acceptsWrites (state : UInt8) : Bool := state &&& (memberDraining ||| memberCold) == 0

/-- Does the state take bodies that are demoted? -/
def takesDemotions (state : UInt8) : Bool :=
  state &&& memberCold != 0 && state &&& memberDraining == 0

namespace Roster

/-- The members of the states asked for. -/
def eligible (wanted : UInt8 → Bool) (r : Roster) : List Member :=
  r.members.filter fun m => wanted m.state

/-- The fleet of these members. -/
def fleet (wanted : UInt8 → Bool) (r : Roster) : Fleet :=
  ⟨(r.eligible wanted).map fun m => (m.member, m.domain)⟩

/-- Pick among the members of the states asked for, into a buffer with room for
`room`. -/
def pickFrom (wanted : UInt8 → Bool) (key : Digest) (n : UInt8) (room : ℕ) (r : Roster) :
    List UInt8 :=
  Loam.pickTargets key (min n.toNat room) (r.fleet wanted)

/-- Pick among all members (`pick_targets`). -/
def pickTargets : Digest → UInt8 → ℕ → Roster → List UInt8 := pickFrom fun _ => true

/-- Pick among those taking new writes (`pick_write_targets`). -/
def pickWriteTargets : Digest → UInt8 → ℕ → Roster → List UInt8 := pickFrom acceptsWrites

/-- Pick among those of the cold tier (`pick_cold_targets`). -/
def pickColdTargets : Digest → UInt8 → ℕ → Roster → List UInt8 := pickFrom takesDemotions

/-- The failure domain of a member, or 0 if it is not in the fleet
(`domain_of`). -/
def domainOf (r : Roster) (m : UInt8) : UInt8 :=
  ((r.members.find? fun x => x.member == m).map Member.domain).getD 0

/-- How many failure domains the members span. -/
def spanned (r : Roster) (ts : List UInt8) : ℕ := (ts.map r.domainOf).dedup.length

/-- The fleet without a member. -/
def remove (r : Roster) (m : UInt8) : Roster where
  members := r.members.filter fun x => x.member ≠ m
  nodup := r.nodup.sublist (List.filter_sublist.map _)
  length_le := (List.length_filter_le _ _).trans r.length_le

end Roster

/-! ## Weights tell members apart -/

/-- The prime is odd, so multiplying by it loses nothing. -/
theorem fnvPrime_mul_inj {a b : UInt64}
    (h : a * 0x00000100000001B3 = b * 0x00000100000001B3) : a = b := by
  have hinv : (0x00000100000001B3 : UInt64) * 0xce965057aff6957b = 1 := by decide
  have hmul := congrArg (· * (0xce965057aff6957b : UInt64)) h
  simpa only [UInt64.mul_assoc, hinv, UInt64.mul_one] using hmul

/-- **No two members weigh the same for a name.** -/
theorem weight_injective (key : Digest) : Function.Injective (weight key) := by
  intro a b h
  rw [weight, weight, fnv1a64, fnv1a64, List.foldl_append, List.foldl_append] at h
  have hx := (UInt64.xor_right_inj _).mp (fnvPrime_mul_inj h)
  exact UInt8.toUInt64_inj.mp hx

/-! ## The sort sorts -/

section Sorting

variable {ws ws' : List Weighed} {i j : ℕ}

/-- The index a scan ends with has the greatest weight of those it saw. -/
theorem foldl_heavier (f : ℕ → UInt64) (js : List ℕ) (b : ℕ) :
    js.foldl (fun best j => if f best < f j then j else best) b ∈ b :: js ∧
      ∀ k ∈ b :: js, f k ≤ f (js.foldl (fun best j => if f best < f j then j else best) b) := by
  induction js generalizing b with
  | nil => simp
  | cons j js ih =>
    rw [List.foldl_cons]
    obtain ⟨hmem, hmax⟩ := ih (if f b < f j then j else b)
    have hstep : f b ≤ f (if f b < f j then j else b) ∧ f j ≤ f (if f b < f j then j else b) := by
      split
      · next h => exact ⟨UInt64.le_of_lt h, UInt64.le_refl _⟩
      · next h => exact ⟨UInt64.le_refl _, UInt64.not_lt.mp h⟩
    have hfirst := hmax _ List.mem_cons_self
    refine ⟨?_, fun k hk => ?_⟩
    · rcases List.mem_cons.mp hmem with h | h
      · rw [h]
        split <;> simp
      · simp [h]
    · rcases List.mem_cons.mp hk with rfl | hk
      · exact UInt64.le_trans hstep.1 hfirst
      rcases List.mem_cons.mp hk with rfl | hk
      · exact UInt64.le_trans hstep.2 hfirst
      · exact hmax k (List.mem_cons_of_mem _ hk)

theorem maxIdx_spec (hi : i < ws.length) :
    i ≤ maxIdx ws i ∧ maxIdx ws i < ws.length ∧
      ∀ k, i ≤ k → k < ws.length → weightAt ws k ≤ weightAt ws (maxIdx ws i) := by
  obtain ⟨hmem, hmax⟩ := foldl_heavier (weightAt ws) (List.range' (i + 1) (ws.length - (i + 1))) i
  have hrange : ∀ k, k ∈ i :: List.range' (i + 1) (ws.length - (i + 1)) ↔
      i ≤ k ∧ k < ws.length := by
    intro k
    rw [List.mem_cons, List.mem_range'_1]
    omega
  obtain ⟨hle, hlt⟩ := (hrange _).mp hmem
  exact ⟨hle, hlt, fun k hik hk => hmax k ((hrange k).mpr ⟨hik, hk⟩)⟩

theorem weightAt_swapAt (hi : i < ws.length) (hj : j < ws.length) (k : ℕ) :
    weightAt (swapAt ws i j) k = weightAt ws (Equiv.swap i j k) := by
  rw [swapAt, List.getElem?_eq_getElem hi, List.getElem?_eq_getElem hj, weightAt, weightAt]
  dsimp only
  rw [List.getElem?_set, List.getElem?_set, List.length_set]
  by_cases hkj : k = j
  · subst hkj
    rw [if_pos rfl, if_pos hj, Equiv.swap_apply_right, List.getElem?_eq_getElem hi]
  rw [if_neg (Ne.symm hkj)]
  by_cases hki : k = i
  · subst hki
    rw [if_pos rfl, if_pos hi, Equiv.swap_apply_left, List.getElem?_eq_getElem hj]
  · rw [if_neg (Ne.symm hki), Equiv.swap_apply_of_ne_of_ne hki hkj]

/-- The first `i` entries are the heaviest, in order. -/
def SortedUpTo (i : ℕ) (ws : List Weighed) : Prop :=
  ∀ a b, a < b → a < i → b < ws.length → weightAt ws b ≤ weightAt ws a

/-- A turn of the sort puts one more entry in its place. -/
theorem SortedUpTo.step (h : SortedUpTo i ws) (hi : i < ws.length) :
    SortedUpTo (i + 1) (swapAt ws i (maxIdx ws i)) := by
  obtain ⟨hle, hlt, hmax⟩ := maxIdx_spec hi
  intro a b hab ha hb
  rw [(swapAt_perm ws i _).length_eq] at hb
  rw [weightAt_swapAt hi hlt, weightAt_swapAt hi hlt]
  -- what stands from `i` on stays there
  have hmoved : i ≤ b →
      i ≤ Equiv.swap i (maxIdx ws i) b ∧ Equiv.swap i (maxIdx ws i) b < ws.length := by
    intro hib
    rw [Equiv.swap_apply_def]
    split
    · exact ⟨hle, hlt⟩
    split
    · exact ⟨Nat.le_refl _, hi⟩
    · exact ⟨hib, hb⟩
  rcases Nat.lt_or_ge a i with hai | hai
  · rw [Equiv.swap_apply_of_ne_of_ne (show a ≠ i by omega) (by omega)]
    rcases Nat.lt_or_ge b i with hbi | hbi
    · rw [Equiv.swap_apply_of_ne_of_ne (show b ≠ i by omega) (by omega)]
      exact h a b hab hai hb
    · exact h a _ (Nat.lt_of_lt_of_le hai (hmoved hbi).1) hai (hmoved hbi).2
  · obtain rfl : a = i := by omega
    rw [Equiv.swap_apply_left]
    exact hmax _ (hmoved (Nat.le_of_lt hab)).1 (hmoved (Nat.le_of_lt hab)).2

theorem sortByWeight_pairwise (ws : List Weighed) :
    (sortByWeight ws).Pairwise fun a b => b.weight ≤ a.weight := by
  have hrun : ∀ n ≤ ws.length,
      ((List.range n).foldl (fun ws i => swapAt ws i (maxIdx ws i)) ws).length = ws.length ∧
        SortedUpTo n ((List.range n).foldl (fun ws i => swapAt ws i (maxIdx ws i)) ws) := by
    intro n
    induction n with
    | zero => exact fun _ => ⟨rfl, fun a _ _ ha => absurd ha (Nat.not_lt_zero a)⟩
    | succ n ih =>
      intro hn
      obtain ⟨hlen, hsort⟩ := ih (by omega)
      rw [List.range_succ, List.foldl_append, List.foldl_cons, List.foldl_nil]
      exact ⟨(swapAt_perm _ _ _).length_eq.trans hlen, hsort.step (by omega)⟩
  obtain ⟨hlen, hsort⟩ : (sortByWeight ws).length = ws.length ∧ SortedUpTo ws.length (sortByWeight ws) :=
    hrun ws.length (Nat.le_refl _)
  rw [List.pairwise_iff_getElem]
  intro a b ha hb hab
  have h := hsort a b hab (hlen ▸ ha) hb
  rw [weightAt, weightAt, List.getElem?_eq_getElem ha, List.getElem?_eq_getElem hb] at h
  exact h

/-- The entries that weigh the same are the same. -/
def WeighedApart (ws : List Weighed) : Prop :=
  ∀ a ∈ ws, ∀ b ∈ ws, a.weight = b.weight → a = b

/-- **A sorted list of entries that weigh apart is told from its entries.** -/
theorem eq_sortByWeight (h : WeighedApart ws) (hperm : ws'.Perm ws)
    (hsort : ws'.Pairwise fun a b => b.weight ≤ a.weight) : ws' = sortByWeight ws := by
  have hsorted := sortByWeight_perm ws
  refine List.Perm.eq_of_pairwise (fun a b ha hb hab hba => ?_) hsort (sortByWeight_pairwise ws)
    (hperm.trans hsorted.symm)
  exact h a (hperm.mem_iff.mp ha) b (hsorted.mem_iff.mp hb) (UInt64.le_antisymm hba hab)

/-- **The order of the entries does not show in the sorted list.** -/
theorem sortByWeight_perm_eq (h : WeighedApart ws) (hperm : ws'.Perm ws) :
    sortByWeight ws' = sortByWeight ws :=
  eq_sortByWeight h ((sortByWeight_perm ws').trans hperm) (sortByWeight_pairwise ws')

/-- **Entries left out are left out of the sorted list.** -/
theorem sortByWeight_filter (h : WeighedApart ws) (p : Weighed → Bool) :
    sortByWeight (ws.filter p) = (sortByWeight ws).filter p := by
  refine (eq_sortByWeight ?_ ((sortByWeight_perm ws).filter p)
    ((sortByWeight_pairwise ws).filter p)).symm
  intro a ha b hb
  exact h a (List.mem_of_mem_filter ha) b (List.mem_of_mem_filter hb)

end Sorting

/-- Members of a fleet weigh apart, where the member tells the domain. -/
theorem weighedApart_weighed {fleet : Fleet} (h : (fleet.members.map Prod.fst).Nodup)
    (key : Digest) : WeighedApart (fleet.weighed key) := by
  intro a ha b hb hw
  obtain ⟨p, hp, rfl⟩ := List.mem_map.mp ha
  obtain ⟨q, hq, rfl⟩ := List.mem_map.mp hb
  have hpq : p = q := List.inj_on_of_nodup_map h hp hq (weight_injective key hw)
  rw [hpq]

/-! ## Members passed over -/

section Passes

variable {ws : List Weighed} {take : ℕ} {out : List UInt8} {m : UInt8}

/-- A step of the first pass. -/
def spreadStep (take : ℕ) (s : List UInt8 × List UInt8) (w : Weighed) : List UInt8 × List UInt8 :=
  if s.2.length = take ∨ w.domain ∈ s.1 then s else (w.domain :: s.1, s.2 ++ [w.member])

/-- A step of the second. -/
def fillStep (take : ℕ) (out : List UInt8) (w : Weighed) : List UInt8 :=
  if out.length = take ∨ w.member ∈ out then out else out ++ [w.member]

theorem spread_eq (take : ℕ) (ws : List Weighed) :
    spread take ws = ws.foldl (spreadStep take) ([], []) := rfl

theorem fill_eq (take : ℕ) (ws : List Weighed) (out : List UInt8) :
    fill take ws out = ws.foldl (fillStep take) out := rfl

/-- A pass that keeps what it has taken, and that takes a member unless it
passes over it, does without a member it has not taken in the end. -/
theorem foldl_filter_of_not_taken {σ : Type} {f : σ → Weighed → σ} {taken : σ → List UInt8}
    (hkeep : ∀ s w, taken s ⊆ taken (f s w))
    (hskip : ∀ s w, w.member = m → m ∉ taken (f s w) → f s w = s) (ws : List Weighed) (s : σ)
    (h : m ∉ taken (ws.foldl f s)) :
    (ws.filter fun w => w.member ≠ m).foldl f s = ws.foldl f s := by
  have hrun : ∀ (ws : List Weighed) (s : σ), taken s ⊆ taken (ws.foldl f s) := by
    intro ws
    induction ws with
    | nil => exact fun s => List.Subset.refl _
    | cons w ws ih => exact fun s => List.Subset.trans (hkeep s w) (ih _)
  induction ws generalizing s with
  | nil => rfl
  | cons w ws ih =>
    rw [List.foldl_cons] at h ⊢
    by_cases hw : w.member = m
    · rw [List.filter_cons_of_neg (by simpa using hw), ← ih _ h,
        hskip s w hw fun hmem => h (hrun ws _ hmem)]
    · rw [List.filter_cons_of_pos (by simpa using hw), List.foldl_cons, ih _ h]

theorem subset_spreadStep (s : List UInt8 × List UInt8) (w : Weighed) :
    s.2 ⊆ (spreadStep take s w).2 := by
  rw [spreadStep]
  split
  · exact List.Subset.refl _
  · exact List.subset_append_left _ _

theorem subset_fillStep (out : List UInt8) (w : Weighed) : out ⊆ fillStep take out w := by
  rw [fillStep]
  split
  · exact List.Subset.refl _
  · exact List.subset_append_left _ _

theorem subset_fill (take : ℕ) (ws : List Weighed) (out : List UInt8) : out ⊆ fill take ws out := by
  rw [fill_eq]
  induction ws generalizing out with
  | nil => exact List.Subset.refl _
  | cons w ws ih => exact List.Subset.trans (subset_fillStep out w) (ih _)

theorem spread_filter (h : m ∉ (spread take ws).2) :
    spread take (ws.filter fun w => w.member ≠ m) = spread take ws := by
  have hkeep : ∀ s w, Prod.snd s ⊆ Prod.snd (spreadStep take s w) := subset_spreadStep
  refine foldl_filter_of_not_taken hkeep ?_ ws _ h
  intro s w hw hnot
  rw [spreadStep] at hnot ⊢
  split
  · rfl
  next hc =>
  rw [if_neg hc] at hnot
  exact absurd (List.mem_append_right _ (List.mem_singleton.mpr hw.symm)) hnot

theorem fill_filter (h : m ∉ fill take ws out) :
    fill take (ws.filter fun w => w.member ≠ m) out = fill take ws out := by
  have hkeep : ∀ s w, id s ⊆ id (fillStep take s w) := subset_fillStep
  refine foldl_filter_of_not_taken hkeep ?_ ws _ h
  intro s w hw hnot
  have hnot : m ∉ fillStep take s w := hnot
  rw [fillStep] at hnot ⊢
  split
  · rfl
  next hc =>
  rw [if_neg hc] at hnot
  exact absurd (List.mem_append_right _ (List.mem_singleton.mpr hw.symm)) hnot

/-! ## Domains -/

/-- **The first pass takes no domain twice**, and stops short only when it has
taken them all. -/
theorem spread_domains {dom : UInt8 → UInt8} (hdom : ∀ w ∈ ws, dom w.member = w.domain)
    (take : ℕ) :
    ((spread take ws).2.map dom).Nodup ∧
      ((spread take ws).2.length ≠ take → ∀ w ∈ ws, w.domain ∈ (spread take ws).2.map dom) := by
  -- the domains used are those of the members taken
  suffices h : ∀ s : List UInt8 × List UInt8, (∀ d, d ∈ s.1 ↔ d ∈ s.2.map dom) →
      (s.2.map dom).Nodup →
      let r := ws.foldl (spreadStep take) s
      s.2.map dom ⊆ r.2.map dom ∧ (r.2.map dom).Nodup ∧
        (r.2.length ≠ take → ∀ w ∈ ws, w.domain ∈ r.2.map dom) from
    (h ([], []) (fun d => Iff.rfl) List.nodup_nil).2
  induction ws with
  | nil => exact fun s _ hn => ⟨List.Subset.refl _, hn, fun _ w hw => absurd hw List.not_mem_nil⟩
  | cons w ws ih =>
    intro s hused hn
    have hrest : ∀ v ∈ ws, dom v.member = v.domain := fun v hv => hdom v (List.mem_cons_of_mem _ hv)
    dsimp only
    rw [List.foldl_cons, spreadStep]
    split
    · next hc =>
      obtain ⟨hsub, hnd, hall⟩ := ih hrest s hused hn
      refine ⟨hsub, hnd, fun hne v hv => ?_⟩
      rcases List.mem_cons.mp hv with rfl | hv
      · rcases hc with hc | hc
        · -- full, and full it stays
          have hfull : ∀ ws : List Weighed, ws.foldl (spreadStep take) s = s := by
            intro ws
            induction ws with
            | nil => rfl
            | cons v ws ih => rw [List.foldl_cons, spreadStep, if_pos (.inl hc), ih]
          exact absurd hc (hfull ws ▸ hne)
        · exact hsub ((hused _).mp hc)
      · exact hall hne v hv
    · next hc =>
      obtain ⟨hlen, hnew⟩ := not_or.mp hc
      have hmap : (s.2 ++ [w.member]).map dom = s.2.map dom ++ [w.domain] := by
        rw [List.map_append, List.map_singleton, hdom w List.mem_cons_self]
      obtain ⟨hsub, hnd, hall⟩ := ih hrest (w.domain :: s.1, s.2 ++ [w.member])
        (fun d => by rw [hmap, List.mem_append, List.mem_cons, hused, List.mem_singleton, or_comm])
        (by
          rw [hmap]
          exact hn.append (List.nodup_singleton _)
            (List.disjoint_singleton.mpr fun hd => hnew ((hused _).mpr hd)))
      rw [hmap] at hsub
      refine ⟨fun d hd => hsub (List.mem_append_left _ hd), hnd, fun hne v hv => ?_⟩
      rcases List.mem_cons.mp hv with rfl | hv
      · exact hsub (List.mem_append_right _ (List.mem_singleton_self _))
      · exact hall hne v hv

end Passes

/-! ## What a placement is -/

/-- **A placement**: a choice of members of the states asked for that two
routers agree on. -/
structure IsPlacement (wanted : UInt8 → Bool)
    (pick : Digest → UInt8 → ℕ → Roster → List UInt8) : Prop where
  length : ∀ key n room r,
    (pick key n room r).length = min (min n.toNat (r.eligible wanted).length) room
  nodup : ∀ key n room r, (pick key n room r).Nodup
  mem : ∀ key n room r, pick key n room r ⊆ (r.eligible wanted).map Member.member
  /-- The order of the fleet does not show. -/
  perm : ∀ key n room r r', r.members.Perm r'.members → pick key n room r = pick key n room r'
  /-- No other choice of as many members spans more domains. -/
  spans : ∀ key n room r ts, ts ⊆ (r.eligible wanted).map Member.member →
    ts.length = (pick key n room r).length → r.spanned ts ≤ r.spanned (pick key n room r)
  /-- A member that is not chosen can as well be gone. -/
  remove : ∀ key n room r m, m ∉ pick key n room r →
    pick key n room (r.remove m) = pick key n room r

namespace Roster

variable (wanted : UInt8 → Bool) (key : Digest) (n : UInt8) (room : ℕ) (r : Roster)

theorem map_fst_fleet :
    (r.fleet wanted).members.map Prod.fst = (r.eligible wanted).map Member.member := by
  rw [fleet, List.map_map]
  rfl

theorem length_fleet : (r.fleet wanted).members.length = (r.eligible wanted).length :=
  List.length_map _

theorem nodup_fleet : ((r.fleet wanted).members.map Prod.fst).Nodup := by
  rw [map_fst_fleet]
  exact r.nodup.sublist (List.filter_sublist.map _)

theorem length_pickFrom :
    (pickFrom wanted key n room r).length = min (min n.toNat (r.eligible wanted).length) room := by
  rw [pickFrom, length_pickTargets (r.nodup_fleet wanted), length_fleet]
  omega

theorem nodup_pickFrom : (pickFrom wanted key n room r).Nodup := by
  refine (fill_spec _ _ _).1 ((spread_spec _ _).2.2.1 ?_)
  exact (members_sorted _ key).nodup_iff.mpr (r.nodup_fleet wanted)

theorem pickFrom_subset :
    pickFrom wanted key n room r ⊆ (r.eligible wanted).map Member.member := by
  intro t ht
  rw [← map_fst_fleet]
  exact mem_of_mem_pickTargets ht

variable {wanted key n room r}

/-- **Two snapshots of one fleet place a name alike.** -/
theorem pickFrom_perm {r' : Roster} (h : r.members.Perm r'.members) :
    pickFrom wanted key n room r = pickFrom wanted key n room r' := by
  have hfleet : (r.fleet wanted).members.Perm (r'.fleet wanted).members := (h.filter _).map _
  have hsort : sortByWeight ((r.fleet wanted).weighed key)
      = sortByWeight ((r'.fleet wanted).weighed key) :=
    sortByWeight_perm_eq (weighedApart_weighed (r'.nodup_fleet wanted) key) (hfleet.map _)
  rw [pickFrom, pickFrom, Loam.pickTargets, Loam.pickTargets, hsort, hfleet.length_eq]

/-- The domain of a member of a fleet is its own. -/
theorem domainOf_member {x : Member} (hx : x ∈ r.members) : r.domainOf x.member = x.domain := by
  rw [domainOf]
  cases hf : r.members.find? fun y => y.member == x.member with
  | none => exact absurd (List.find?_eq_none.mp hf x hx) (by simp)
  | some y =>
    have hy := List.mem_of_find?_eq_some hf
    have hm : y.member = x.member := by simpa using List.find?_some hf
    rw [List.inj_on_of_nodup_map r.nodup hy hx hm]
    rfl

/-- The members span no more domains than others that have theirs. -/
theorem spanned_le {ts us : List UInt8} (h : ts.map r.domainOf ⊆ us.map r.domainOf) :
    r.spanned ts ≤ r.spanned us := by
  refine (List.subperm_of_subset (List.nodup_dedup _) fun d hd => ?_).length_le
  exact List.mem_dedup.mpr (h (List.mem_dedup.mp hd))

/-- **No choice of as many members spans more domains.** -/
theorem spanned_le_pickFrom {ts : List UInt8}
    (hts : ts ⊆ (r.eligible wanted).map Member.member)
    (hlen : ts.length = (pickFrom wanted key n room r).length) :
    r.spanned ts ≤ r.spanned (pickFrom wanted key n room r) := by
  let take := min (min n.toNat room) (r.fleet wanted).members.length
  let ws := sortByWeight ((r.fleet wanted).weighed key)
  have hsub : (spread take ws).2 ⊆ pickFrom wanted key n room r := subset_fill _ _ _
  have hws : ∀ w, w ∈ ws ↔ ∃ x ∈ r.eligible wanted,
      (⟨weight key x.member, x.member, x.domain⟩ : Weighed) = w := by
    intro w
    rw [(sortByWeight_perm _).mem_iff, Fleet.weighed, fleet, List.map_map, List.mem_map]
    rfl
  have hdom : ∀ w ∈ ws, r.domainOf w.member = w.domain := by
    intro w hw
    obtain ⟨x, hx, rfl⟩ := (hws w).mp hw
    exact domainOf_member (List.mem_of_mem_filter hx)
  obtain ⟨hnodup, hall⟩ := spread_domains hdom take
  by_cases hfull : (spread take ws).2.length = take
  · -- each member taken is of a domain of its own
    calc r.spanned ts ≤ ts.length := by
          have hmap : (ts.map r.domainOf).length = ts.length := List.length_map _
          rw [spanned, ← hmap]
          exact (List.dedup_sublist _).length_le
      _ ≤ take := by
          rw [hlen]
          exact length_pickTargets_le key _ _
      _ = r.spanned (spread take ws).2 := by
          rw [spanned, hnodup.dedup, List.length_map, hfull]
      _ ≤ r.spanned (pickFrom wanted key n room r) := spanned_le (List.map_subset _ hsub)
  · -- every domain there is has been taken
    refine spanned_le (List.Subset.trans ?_ (List.map_subset _ hsub))
    intro d hd
    obtain ⟨t, ht, rfl⟩ := List.mem_map.mp hd
    obtain ⟨x, hx, rfl⟩ := List.mem_map.mp (hts ht)
    rw [domainOf_member (List.mem_of_mem_filter hx)]
    exact hall hfull _ ((hws _).mpr ⟨x, hx, rfl⟩)

theorem weighed_remove (m : UInt8) :
    ((r.remove m).fleet wanted).weighed key
      = ((r.fleet wanted).weighed key).filter fun w => w.member ≠ m := by
  rw [Fleet.weighed, Fleet.weighed, fleet, fleet, eligible, eligible, remove, List.map_map,
    List.map_map, List.filter_map, List.filter_comm]
  rfl

/-- **A member that is not chosen can as well be gone.** -/
theorem pickFrom_remove {m : UInt8} (h : m ∉ pickFrom wanted key n room r) :
    pickFrom wanted key n room (r.remove m) = pickFrom wanted key n room r := by
  have hapart := weighedApart_weighed (r.nodup_fleet wanted) key
  have hsort := sortByWeight_filter hapart fun w => w.member ≠ m
  rw [← weighed_remove] at hsort
  -- the fleet still has as many as are taken
  have htake : min (min n.toNat room) ((r.remove m).fleet wanted).members.length
      = min (min n.toNat room) (r.fleet wanted).members.length := by
    have hkeep : pickFrom wanted key n room r
        ⊆ ((r.remove m).fleet wanted).members.map Prod.fst := by
      intro t ht
      obtain ⟨x, hx, rfl⟩ := List.mem_map.mp (pickFrom_subset wanted key n room r ht)
      rw [map_fst_fleet]
      refine List.mem_map_of_mem (List.mem_filter.mpr ⟨List.mem_filter.mpr
        ⟨List.mem_of_mem_filter hx, ?_⟩, (List.mem_filter.mp hx).2⟩)
      exact decide_eq_true fun he => h (he ▸ ht)
    have hle := (List.subperm_of_subset (nodup_pickFrom wanted key n room r) hkeep).length_le
    have hless : ((r.remove m).fleet wanted).members.length
        ≤ (r.fleet wanted).members.length := by
      rw [length_fleet, length_fleet]
      exact (List.filter_sublist.filter _).length_le
    rw [length_pickFrom, List.length_map, ← length_fleet] at hle
    omega
  rw [pickFrom, Loam.pickTargets] at h
  rw [pickFrom, pickFrom, Loam.pickTargets, Loam.pickTargets, htake, hsort,
    spread_filter fun hm => h (subset_fill _ _ _ hm), fill_filter h]

/-- **What every pick keeps.** -/
theorem isPlacement_pickFrom (wanted : UInt8 → Bool) : IsPlacement wanted (pickFrom wanted) where
  length := length_pickFrom wanted
  nodup := nodup_pickFrom wanted
  mem := pickFrom_subset wanted
  perm _ _ _ _ _ h := pickFrom_perm h
  spans _ _ _ _ _ hts hlen := spanned_le_pickFrom hts hlen
  remove _ _ _ _ _ h := pickFrom_remove h

end Roster

/-- **Placement is a choice every router makes alike**, of all members, of
those taking new writes, and of the cold tier. -/
theorem placement_of_fleet :
    IsPlacement (fun _ => true) Roster.pickTargets ∧
      IsPlacement acceptsWrites Roster.pickWriteTargets ∧
      IsPlacement takesDemotions Roster.pickColdTargets :=
  ⟨Roster.isPlacement_pickFrom _, Roster.isPlacement_pickFrom _, Roster.isPlacement_pickFrom _⟩

end Loam

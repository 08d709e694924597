import Loam.PlacementLaws

/-!
# Placing by the members alone

What becomes of a placement when the domains and the states of a snapshot are
left out? With one domain for all, the first pass takes a single member and the
second the next in order, so that the heaviest are taken
(`pickTargets_fromSlice`). The write placement of the whole snapshot takes the
heaviest too, as long as they take writes and the first pass has no reason to
look past them: they are all of different domains, or no domain is left that
they do not have. Otherwise it takes a member that is not among the heaviest
(`pickWriteTargets_perm_iff`).
-/

namespace Loam

section Flat

variable {ws vs top rest : List Weighed} {take n : ℕ} {out : List UInt8} {dom : UInt8 → UInt8}

/-! ## One domain -/

theorem fill_full (ws : List Weighed) (h : out.length = take) : fill take ws out = out := by
  rw [fill_eq]
  induction ws with
  | nil => rfl
  | cons w ws ih => rw [List.foldl_cons, fillStep, if_pos (.inl h), ih]

/-- The second pass takes members in order, where none was taken before. -/
theorem fill_eq_append (hnodup : (ws.map Weighed.member).Nodup)
    (hnew : ∀ w ∈ ws, w.member ∉ out) (hle : out.length ≤ take) :
    fill take ws out = out ++ (ws.map Weighed.member).take (take - out.length) := by
  induction ws generalizing out with
  | nil => simp [fill]
  | cons w ws ih =>
    obtain ⟨hw, hnodup⟩ := List.nodup_cons.mp hnodup
    by_cases hfull : out.length = take
    · rw [fill_full _ hfull, hfull, Nat.sub_self, List.take_zero, List.append_nil]
    rw [fill_eq, List.foldl_cons, fillStep,
      if_neg (not_or.mpr ⟨hfull, hnew w List.mem_cons_self⟩), ← fill_eq, ih hnodup ?_ ?_]
    · obtain ⟨d, hd⟩ : ∃ d, take - out.length = d + 1 := ⟨take - out.length - 1, by omega⟩
      have hd' : take - (out ++ [w.member]).length = d := by
        rw [List.length_append, List.length_singleton]
        omega
      rw [hd, hd', List.map_cons, List.take_succ_cons, List.append_assoc, List.singleton_append]
    · intro v hv hmem
      rcases List.mem_append.mp hmem with h | h
      · exact hnew v (List.mem_cons_of_mem _ hv) h
      · exact hw (List.mem_singleton.mp h ▸ List.mem_map_of_mem hv)
    · rw [List.length_append, List.length_singleton]
      omega

/-- The first pass takes one member of one domain, the heaviest. -/
theorem spread_flat (h : ∀ w ∈ ws, w.domain = 0) :
    (spread take ws).2 = (ws.map Weighed.member).take (min 1 take) := by
  cases ws with
  | nil => simp [spread]
  | cons w ws =>
    have hrest : ∀ (vs : List Weighed) (s : List UInt8 × List UInt8), (∀ v ∈ vs, v.domain = 0) →
        (s.2.length = take ∨ 0 ∈ s.1) → vs.foldl (spreadStep take) s = s := by
      intro vs s
      induction vs with
      | nil => exact fun _ _ => rfl
      | cons v vs ih =>
        intro hv hs
        rw [List.foldl_cons, spreadStep,
          if_pos (hs.imp_right fun h0 => hv v List.mem_cons_self ▸ h0),
          ih (fun x hx => hv x (List.mem_cons_of_mem _ hx)) hs]
    have hw := h w List.mem_cons_self
    have hws := fun v hv => h v (List.mem_cons_of_mem w hv)
    rw [spread_eq, List.foldl_cons, spreadStep]
    by_cases htake : take = 0
    · rw [if_pos (.inl htake.symm), hrest ws ([], []) hws (.inl htake.symm), htake]
      rfl
    · rw [if_neg (not_or.mpr ⟨fun h0 => htake h0.symm, List.not_mem_nil⟩),
        hrest ws _ hws (.inr (hw ▸ List.mem_cons_self)), Nat.min_eq_left (by omega)]
      rfl

/-- **In one domain the heaviest are taken.** -/
theorem fill_spread_flat (hnodup : (ws.map Weighed.member).Nodup) (h : ∀ w ∈ ws, w.domain = 0) :
    fill take ws (spread take ws).2 = (ws.map Weighed.member).take take := by
  rw [spread_flat h]
  cases ws with
  | nil => simp [fill]
  | cons w ws =>
    by_cases htake : take = 0
    · subst htake
      exact fill_full _ rfl
    obtain ⟨hw, hnodup⟩ := List.nodup_cons.mp hnodup
    rw [Nat.min_eq_left (by omega), List.map_cons, List.take_succ_cons, List.take_zero, fill_eq,
      List.foldl_cons, fillStep, if_pos (.inr (List.mem_singleton_self _)), ← fill_eq,
      fill_eq_append hnodup ?_ ?_]
    · obtain ⟨d, rfl⟩ : ∃ d, take = d + 1 := ⟨take - 1, by omega⟩
      rfl
    · intro v hv hmem
      exact hw (List.mem_singleton.mp hmem ▸ List.mem_map_of_mem hv)
    · rw [List.length_singleton]
      omega

/-! ## Several domains -/

/-- The first pass has used the domains of what it took. -/
theorem spread_used (hdom : ∀ w ∈ ws, dom w.member = w.domain) (d : UInt8) :
    d ∈ (spread take ws).1 ↔ d ∈ (spread take ws).2.map dom := by
  suffices h : ∀ s : List UInt8 × List UInt8, (d ∈ s.1 ↔ d ∈ s.2.map dom) →
      (d ∈ (ws.foldl (spreadStep take) s).1 ↔ d ∈ (ws.foldl (spreadStep take) s).2.map dom) from
    h ([], []) Iff.rfl
  induction ws with
  | nil => exact fun s h => h
  | cons w ws ih =>
    intro s h
    refine ih (fun v hv => hdom v (List.mem_cons_of_mem _ hv)) _ ?_
    rw [spreadStep]
    split
    · exact h
    rw [List.mem_cons, List.map_append, List.mem_append, List.map_singleton, List.mem_singleton,
      hdom w List.mem_cons_self, h, or_comm]

/-- What stands behind members that are enough, or that have every domain,
is passed over. -/
theorem spread_append (hdom : ∀ w ∈ top, dom w.member = w.domain)
    (h : (spread take top).2.length = take
      ∨ ∀ w ∈ rest, w.domain ∈ (spread take top).2.map dom) :
    spread take (top ++ rest) = spread take top := by
  have hrest : ∀ (vs : List Weighed) (s : List UInt8 × List UInt8),
      (s.2.length = take ∨ ∀ v ∈ vs, v.domain ∈ s.1) → vs.foldl (spreadStep take) s = s := by
    intro vs s
    induction vs with
    | nil => exact fun _ => rfl
    | cons v vs ih =>
      intro hs
      rw [List.foldl_cons, spreadStep, if_pos (hs.imp_right fun hv => hv v List.mem_cons_self)]
      exact ih (hs.imp_right fun hv x hx => hv x (List.mem_cons_of_mem _ hx))
  rw [spread_eq, List.foldl_append]
  exact hrest rest _ (h.imp_right fun hv w hw => (spread_used hdom _).mpr (hv w hw))

/-- **The heaviest are taken exactly when** they are all of different domains, or
have every domain there is. -/
theorem fill_spread_perm_iff (hnodup : ((top ++ rest).map Weighed.member).Nodup)
    (hdom : ∀ w ∈ top ++ rest, dom w.member = w.domain) :
    (fill top.length (top ++ rest) (spread top.length (top ++ rest)).2).Perm
        (top.map Weighed.member)
      ↔ (top.map Weighed.domain).Nodup ∨ ∀ w ∈ rest, w.domain ∈ top.map Weighed.domain := by
  have hdomTop : ∀ w ∈ top, dom w.member = w.domain := fun w hw =>
    hdom w (List.mem_append_left _ hw)
  have hmap : top.map Weighed.domain = (top.map Weighed.member).map dom := by
    rw [List.map_map]
    exact List.map_congr_left fun w hw => (hdomTop w hw).symm
  have htop : (top.map Weighed.member).Nodup := by
    rw [List.map_append] at hnodup
    exact hnodup.of_append_left
  constructor
  · intro hperm
    obtain ⟨hnd, hall⟩ := spread_domains hdom top.length
    -- what the first pass took is among the heaviest
    have hsub : (spread top.length (top ++ rest)).2 ⊆ top.map Weighed.member :=
      fun m hm => hperm.subset (subset_fill _ _ _ hm)
    by_cases hfull : (spread top.length (top ++ rest)).2.length = top.length
    · left
      have hsame : (spread top.length (top ++ rest)).2.Perm (top.map Weighed.member) :=
        (List.subperm_of_subset (List.Nodup.of_map _ hnd) hsub).perm_of_length_le
          (by rw [List.length_map, hfull])
      rw [hmap]
      exact (hsame.map dom).nodup_iff.mp hnd
    · right
      intro w hw
      rw [hmap]
      exact List.map_subset dom hsub (hall hfull w (List.mem_append_right _ hw))
  · intro h
    obtain ⟨hnd, hall⟩ := spread_domains hdomTop top.length
    have henough : (spread top.length top).2.length = top.length
        ∨ ∀ w ∈ rest, w.domain ∈ (spread top.length top).2.map dom := by
      by_cases hfull : (spread top.length top).2.length = top.length
      · exact .inl hfull
      rcases h with h | h
      · -- of different domains, so each of them was taken
        have hle : (top.map Weighed.domain).length ≤ ((spread top.length top).2.map dom).length := by
          refine (List.subperm_of_subset h fun d hd => ?_).length_le
          obtain ⟨w, hw, rfl⟩ := List.mem_map.mp hd
          exact hall hfull w hw
        rw [List.length_map, List.length_map] at hle
        exact absurd (Nat.le_antisymm (spread_spec top top.length).1 hle) hfull
      · refine .inr fun w hw => ?_
        obtain ⟨v, hv, he⟩ := List.mem_map.mp (h w hw)
        exact he ▸ hall hfull v hv
    rw [spread_append hdomTop henough, fill_eq, List.foldl_append, ← fill_eq, ← fill_eq]
    obtain ⟨hle, hmem, hdistinct, -⟩ := spread_spec top top.length
    -- the second pass fills up from the heaviest, and is full then
    have hlen := length_fill_spread htop (Nat.le_refl top.length)
    rw [fill_full rest hlen]
    obtain ⟨hn, -, hin⟩ := fill_spec top top.length (spread top.length top).2
    refine (List.subperm_of_subset (hn (hdistinct htop)) fun m hm => ?_).perm_of_length_le
      (by rw [List.length_map, hlen])
    exact (hin m hm).elim (hmem m) id

end Flat

/-! ## The heaviest of a roster -/

section Heaviest

variable {α : Type} {f : α → UInt64}

/-- Of a list that falls in weight, those with fewer than `n` heavier are the
first `n`. -/
theorem filter_heavier_eq_take {l : List α} (h : l.Pairwise fun x y => f y < f x) (n : ℕ) :
    (l.filter fun x => l.countP (fun y => f x < f y) < n) = l.take n := by
  suffices hrun : ∀ suf pre : List α, (pre ++ suf).Pairwise (fun x y => f y < f x) →
      (suf.filter fun x => (pre ++ suf).countP (fun y => f x < f y) < n)
        = suf.take (n - pre.length) by
    simpa using hrun l [] h
  intro suf
  induction suf with
  | nil => exact fun pre _ => List.take_nil.symm
  | cons x suf ih =>
    intro pre hsort
    obtain ⟨-, hsuf, hpre⟩ := List.pairwise_append.mp hsort
    obtain ⟨hx, -⟩ := List.pairwise_cons.mp hsuf
    -- those before it are heavier, those behind it are not
    have hcount : (pre ++ x :: suf).countP (fun y => f x < f y) = pre.length := by
      have hall : pre.countP (fun y => decide (f x < f y)) = pre.length :=
        List.countP_eq_length.mpr fun y hy => decide_eq_true (hpre y hy x List.mem_cons_self)
      have hnone : (x :: suf).countP (fun y => decide (f x < f y)) = 0 := by
        refine List.countP_eq_zero.mpr fun y hy => ?_
        rw [decide_eq_true_eq]
        rcases List.mem_cons.mp hy with rfl | hy
        · exact UInt64.lt_irrefl _
        · exact UInt64.lt_asymm (hx y hy)
      rw [List.countP_append, hall, hnone, Nat.add_zero]
    have hrest := ih (pre ++ [x]) (by rwa [List.append_assoc])
    rw [List.append_assoc, List.singleton_append, List.length_append, List.length_singleton] at hrest
    rw [List.filter_cons, hcount, hrest]
    by_cases hlt : pre.length < n
    · obtain ⟨d, hd⟩ : ∃ d, n - pre.length = d + 1 := ⟨n - pre.length - 1, by omega⟩
      rw [if_pos (decide_eq_true hlt), hd, List.take_succ_cons, show n - (pre.length + 1) = d by omega]
    · rw [if_neg (by simpa using hlt), show n - (pre.length + 1) = 0 by omega,
        show n - pre.length = 0 by omega, List.take_zero, List.take_zero]

end Heaviest

namespace Roster

/-- How many members are heavier than one, for a name. -/
def heavier (key : Digest) (r : Roster) (x : Member) : ℕ :=
  r.members.countP fun y => weight key x.member < weight key y.member

/-- The `n` heaviest members for a name, whatever their domains and states. -/
def heaviest (key : Digest) (n : ℕ) (r : Roster) : List Member :=
  r.members.filter fun x => r.heavier key x < n

/-- **The members alone place a name as the whole snapshot does**: the heaviest
take new writes, and they are of different domains, or have every domain that
takes new writes. -/
structure FlatSuffices (key : Digest) (n : ℕ) (r : Roster) : Prop where
  takes : ∀ x ∈ r.heaviest key n, acceptsWrites x.state = true
  /-- They are spread as far as they can be. -/
  spread : ((r.heaviest key n).map Member.domain).Nodup ∨
    ∀ y ∈ r.members, acceptsWrites y.state = true → y.domain ∈ (r.heaviest key n).map Member.domain

instance (key : Digest) (n : ℕ) (r : Roster) : Decidable (r.FlatSuffices key n) :=
  decidable_of_iff (_ ∧ _) ⟨fun h => ⟨h.1, h.2⟩, fun h => ⟨h.1, h.2⟩⟩

variable {key : Digest} {n : ℕ} {r : Roster} {L : List Member}

theorem exists_ranked (key : Digest) (r : Roster) :
    ∃ L : List Member, L.Perm r.members ∧
      L.Pairwise fun x y => weight key y.member < weight key x.member := by
  refine ⟨r.members.mergeSort fun x y => weight key y.member ≤ weight key x.member,
    List.mergeSort_perm _ _, ?_⟩
  have hsort := @List.pairwise_mergeSort _
    (fun x y => decide (weight key y.member ≤ weight key x.member))
    (by simpa using fun a b c h h' => UInt64.le_trans h' h)
    (by simpa using fun a b => UInt64.le_total _ _) r.members
  have hnodup : ((r.members.mergeSort fun x y => decide (weight key y.member ≤ weight key x.member)).map
      Member.member).Nodup := ((List.mergeSort_perm _ _).map _).nodup_iff.mpr r.nodup
  refine (hsort.and (List.pairwise_map.mp hnodup)).imp fun ⟨hle, hne⟩ => ?_
  exact UInt64.lt_of_le_of_ne (by simpa using hle) fun he => hne (weight_injective key he).symm

/-- The heaviest come first in the ranking. -/
theorem heaviest_perm (hperm : L.Perm r.members)
    (hsort : L.Pairwise fun x y => weight key y.member < weight key x.member) :
    (r.heaviest key n).Perm (L.take n) := by
  have hcount : ∀ x, r.heavier key x = L.countP fun y => weight key x.member < weight key y.member :=
    fun x => (hperm.countP_eq _).symm
  rw [heaviest, ← filter_heavier_eq_take hsort n]
  simp only [hcount]
  exact (hperm.filter _).symm

theorem sort_weighed (hperm : L.Perm r.members)
    (hsort : L.Pairwise fun x y => weight key y.member < weight key x.member) (p : Member → Bool)
    (d : Member → UInt8) :
    sortByWeight ((Fleet.mk ((r.members.filter p).map fun x => (x.member, d x))).weighed key)
      = (L.filter p).map fun x => ⟨weight key x.member, x.member, d x⟩ := by
  refine (eq_sortByWeight (weighedApart_weighed ?_ key) ?_ ?_).symm
  · rw [List.map_map]
    exact r.nodup.sublist (List.filter_sublist.map _)
  · rw [Fleet.weighed, List.map_map]
    exact (hperm.filter p).map _
  · refine List.pairwise_map.mpr ((hsort.sublist List.filter_sublist).imp fun h => ?_)
    exact UInt64.le_of_lt h

/-- The members alone place a name on the heaviest. -/
theorem pickTargets_fromSlice (hperm : L.Perm r.members)
    (hsort : L.Pairwise fun x y => weight key y.member < weight key x.member)
    (hn : n ≤ r.members.length) :
    Loam.pickTargets key n (.fromSlice (r.members.map Member.member))
      = (L.take n).map Member.member := by
  have hfleet : Fleet.fromSlice (r.members.map Member.member)
      = ⟨(r.members.filter fun _ => true).map fun x => (x.member, 0)⟩ := by
    rw [Fleet.fromSlice, List.take_of_length_le (by rw [List.length_map]; exact r.length_le),
      List.map_map, List.filter_true]
    rfl
  have hmap : (L.map fun x => (⟨weight key x.member, x.member, 0⟩ : Weighed)).map Weighed.member
      = L.map Member.member := by
    rw [List.map_map]
    rfl
  rw [Loam.pickTargets, hfleet, sort_weighed hperm hsort]
  simp only [List.filter_true, List.length_map]
  rw [fill_spread_flat, hmap, List.map_take, Nat.min_eq_left hn]
  · rw [hmap]
    exact (hperm.map _).nodup_iff.mpr r.nodup
  · intro w hw
    obtain ⟨x, -, rfl⟩ := List.mem_map.mp hw
    rfl

/-- **Placing by the members alone** names the members the write placement of
the whole snapshot names exactly when they suffice. -/
theorem pickWriteTargets_perm_iff (key : Digest) (r : Roster) (hn : n ≤ r.members.length) :
    (r.pickWriteTargets key (UInt8.ofNat n) maxFleet).Perm
        (Loam.pickTargets key n (.fromSlice (r.members.map Member.member)))
      ↔ r.FlatSuffices key n := by
  obtain ⟨L, hperm, hsort⟩ := exists_ranked key r
  have hheavy := heaviest_perm (n := n) hperm hsort
  have hlen : n ≤ L.length := hperm.length_eq ▸ hn
  have hLn : (L.map Member.member).Nodup := (hperm.map _).nodup_iff.mpr r.nodup
  have hcast : min (UInt8.ofNat n).toNat maxFleet = n := by
    have := r.length_le
    rw [maxFleet] at this ⊢
    rw [UInt8.toNat_ofNat_of_lt' (Nat.lt_of_le_of_lt (hn.trans this) (by decide))]
    omega
  -- the condition, on the ranking
  have hiff : r.FlatSuffices key n ↔ (∀ x ∈ L.take n, acceptsWrites x.state = true) ∧
      (((L.take n).map Member.domain).Nodup ∨
        ∀ y ∈ L, acceptsWrites y.state = true → y.domain ∈ (L.take n).map Member.domain) := by
    have hdom := hheavy.map Member.domain
    constructor
    · rintro ⟨ht, hs⟩
      exact ⟨fun x hx => ht x (hheavy.mem_iff.mpr hx), hs.imp hdom.nodup_iff.mp fun h y hy ha =>
        hdom.subset (h y (hperm.mem_iff.mp hy) ha)⟩
    · rintro ⟨ht, hs⟩
      exact ⟨fun x hx => ht x (hheavy.mem_iff.mp hx), hs.imp hdom.nodup_iff.mpr fun h y hy ha =>
        hdom.symm.subset (h y (hperm.mem_iff.mpr hy) ha)⟩
  rw [hiff, pickTargets_fromSlice hperm hsort hn, pickWriteTargets, pickFrom, hcast,
    Loam.pickTargets, fleet, eligible, sort_weighed hperm hsort]
  dsimp only
  rw [List.length_map, ← (hperm.filter fun m => acceptsWrites m.state).length_eq]
  -- the members taking writes, as they stand once the heaviest are among them
  have hsplit : (∀ x ∈ L.take n, acceptsWrites x.state = true) →
      L.filter (fun m => acceptsWrites m.state)
        = L.take n ++ (L.drop n).filter fun m => acceptsWrites m.state := by
    intro h
    conv_lhs => rw [← List.take_append_drop n L, List.filter_append]
    rw [List.filter_eq_self.mpr h]
  have htake : (L.take n).length = n := List.length_take_of_le hlen
  let W : Member → Weighed := fun x => ⟨weight key x.member, x.member, x.domain⟩
  have hW : ∀ l : List Member, (l.map W).map Weighed.member = l.map Member.member := by
    intro l
    rw [List.map_map]
    rfl
  have hWd : ∀ l : List Member, (l.map W).map Weighed.domain = l.map Member.domain := by
    intro l
    rw [List.map_map]
    rfl
  -- the passes, once the heaviest take writes
  have hpasses : (∀ x ∈ L.take n, acceptsWrites x.state = true) →
      ((fill (min n (L.filter fun m => acceptsWrites m.state).length)
          ((L.filter fun m => acceptsWrites m.state).map W)
          (spread (min n (L.filter fun m => acceptsWrites m.state).length)
            ((L.filter fun m => acceptsWrites m.state).map W)).2).Perm
          ((L.take n).map Member.member)
        ↔ ((L.take n).map Member.domain).Nodup ∨
          ∀ y ∈ L, acceptsWrites y.state = true → y.domain ∈ (L.take n).map Member.domain) := by
    intro h
    have hmin : min n (L.filter fun m => acceptsWrites m.state).length = ((L.take n).map W).length := by
      rw [hsplit h, List.length_append, htake, List.length_map, htake]
      omega
    have hnd : (((L.take n).map W ++ ((L.drop n).filter fun m => acceptsWrites m.state).map W).map
        Weighed.member).Nodup := by
      rw [← List.map_append, ← hsplit h, hW]
      exact hLn.sublist (List.filter_sublist.map _)
    have hdom : ∀ w ∈ (L.take n).map W ++ ((L.drop n).filter fun m => acceptsWrites m.state).map W,
        r.domainOf w.member = w.domain := by
      intro w hw
      rw [← List.map_append, ← hsplit h] at hw
      obtain ⟨x, hx, rfl⟩ := List.mem_map.mp hw
      exact domainOf_member (hperm.mem_iff.mp (List.mem_of_mem_filter hx))
    rw [hmin, hsplit h, List.map_append, ← hW, fill_spread_perm_iff hnd hdom, hWd]
    refine or_congr_right ⟨fun hall y hy ha => ?_, fun hall w hw => ?_⟩
    · rw [← List.take_append_drop n L] at hy
      rcases List.mem_append.mp hy with hy | hy
      · exact List.mem_map_of_mem hy
      · exact hall (W y) (List.mem_map_of_mem (List.mem_filter.mpr ⟨hy, ha⟩))
    · obtain ⟨y, hy, rfl⟩ := List.mem_map.mp hw
      obtain ⟨hy, ha⟩ := List.mem_filter.mp hy
      exact hall y (List.mem_of_mem_drop hy) ha
  refine ⟨fun h => ?_, fun h => (hpasses h.1).mpr h.2⟩
  -- every member named takes writes
  have ht : ∀ x ∈ L.take n, acceptsWrites x.state = true := by
    intro x hx
    have hmem := h.symm.subset (List.mem_map_of_mem hx)
    have hin : x.member ∈ ((L.filter fun m => acceptsWrites m.state).map W).map Weighed.member :=
      ((fill_spec _ _ _).2.2 _ hmem).elim ((spread_spec _ _).2.1 _) id
    rw [hW] at hin
    obtain ⟨y, hy, he⟩ := List.mem_map.mp hin
    obtain ⟨hy, ha⟩ := List.mem_filter.mp hy
    rwa [List.inj_on_of_nodup_map hLn hy (List.mem_of_mem_take hx) he] at ha
  exact ⟨ht, (hpasses ht).mp h⟩

end Roster

end Loam

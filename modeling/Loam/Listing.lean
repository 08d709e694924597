import Loam.Invariant
import Loam.WireAnswers

/-!
# A walk in name order

A listing goes through the two tiers at once. The arena is not sorted, so its
next entry is a scan for the least path above the cursor; the snapshot is, so
its next record is found by a bisection and then by reading on. Whichever is
lower is taken, the arena's where both have the path, and a tombstone is taken
without being listed, so that it hides the record under it.

The cursor is exclusive and starts at the empty path where a listing starts, so
a binding at the empty path is never listed.
-/

namespace Loam

/-! ## Paths under one root -/

theorem keyCmp_same_root (root p q : Bytes) : keyCmp ⟨root, p⟩ ⟨root, q⟩ = bytesCmp p q := by
  rw [keyCmp, bytesCmp_eq_iff.mpr rfl]

theorem bytesCmp_gt_iff {root p q : Bytes} :
    bytesCmp p q = .gt ↔ (⟨root, q⟩ : Key) < ⟨root, p⟩ := by
  rw [← keyCmp_gt_iff, keyCmp_same_root]

theorem bytesCmp_lt_iff {root p q : Bytes} :
    bytesCmp p q = .lt ↔ (⟨root, p⟩ : Key) < ⟨root, q⟩ := by
  rw [← keyCmp_lt_iff, keyCmp_same_root]

/-- The paths that begin with `pre` are an interval: what is between `pre` and
one of them is another. -/
theorem isPrefix_of_between {pre p q : Bytes} (h : pre <+: q) (hp : bytesCmp p pre ≠ .lt)
    (hq : bytesCmp p q = .lt) : pre <+: p := by
  induction pre generalizing p q with
  | nil => exact List.nil_prefix
  | cons a pre ih =>
    obtain ⟨rest, rfl⟩ := h
    cases p with
    | nil => exact absurd rfl hp
    | cons b p =>
      by_cases hab : b = a
      · subst hab
        simp only [bytesCmp, ne_eq, not_true_eq_false, if_false, List.cons_append] at hp hq
        obtain ⟨tail, rfl⟩ := ih (List.prefix_append pre rest) hp hq
        exact ⟨tail, rfl⟩
      · simp only [bytesCmp, ne_eq, hab, not_false_eq_true, if_true, List.cons_append] at hp hq
        split at hq
        · next hlt => exact absurd (if_pos hlt) hp
        · cases hq

theorem bytesCmp_ne_lt_of_isPrefix {pre p : Bytes} (h : pre <+: p) : bytesCmp p pre ≠ .lt := by
  induction pre generalizing p with
  | nil => cases p <;> exact nofun
  | cons a pre ih =>
    obtain ⟨rest, rfl⟩ := h
    simpa only [bytesCmp, ne_eq, not_true_eq_false, if_false, List.cons_append]
      using ih (List.prefix_append pre rest)

/-- What is between two keys of one root has that root. -/
theorem Key.root_eq_of_between {a b c : Key} (hab : a < b) (hbc : b ≤ c) (h : a.root = c.root) :
    b.root = a.root := by
  rcases Key.lt_iff.mp hab with hr | ⟨hr, -⟩
  · rw [h] at hr
    rcases eq_or_lt_of_le hbc with rfl | hlt
    · exact absurd hr (lt_irrefl _)
    rcases Key.lt_iff.mp hlt with hr' | ⟨hr', -⟩
    · exact absurd (hr.trans hr') (lt_irrefl _)
    · exact absurd hr (hr' ▸ lt_irrefl _)
  · exact (Bytes.rank_injective hr).symm

/-- A path above another is not empty. -/
theorem ne_nil_of_lt {root p q : Bytes} (h : (⟨root, q⟩ : Key) < ⟨root, p⟩) : p ≠ [] := by
  rintro rfl
  rw [← bytesCmp_gt_iff] at h
  cases q <;> cases h

/-! ## The next entry of each tier -/

/-- One entry of a walk: its path and binding, and the position it was last
written at (`Listed`). -/
structure Listed where
  path : Bytes
  binding : Binding
  /-- The arena slot's own position, or the change horizon for a record. -/
  changeRev : UInt64

namespace Arena

variable {L : Limits} {a : Arena L} {root pre after : Bytes}

/-- The better of two candidates of a listing. -/
def lesserPath (best : Option (BindingSlot × ℕ)) (p : BindingSlot × ℕ) :
    Option (BindingSlot × ℕ) :=
  match best with
  | none => some p
  | some b => if bytesCmp p.1.path b.1.path = .lt then some p else some b

/-- The slot under `root` whose path begins with `pre` and sorts strictly after
`after`, least first, tombstones included (`next_listed`). -/
def nextListed (a : Arena L) (root pre after : Bytes) : Option (BindingSlot × ℕ) :=
  (a.occupied.filter fun p => !p.1.path.isEmpty && p.1.root == root && pre.isPrefixOf p.1.path
    && bytesCmp p.1.path after == .gt).foldl lesserPath none

/-- Among slots of one root the lesser path is the lesser key. -/
theorem foldl_lesserPath {l : List (BindingSlot × ℕ)} (h : ∀ p ∈ l, p.1.root = root)
    {best : Option (BindingSlot × ℕ)} (hb : ∀ p ∈ best, p.1.root = root) :
    l.foldl lesserPath best = l.foldl lesserKey best := by
  induction l generalizing best with
  | nil => rfl
  | cons p l ih =>
    have hp := h p List.mem_cons_self
    have hone : lesserPath best p = lesserKey best p := by
      cases best with
      | none => rfl
      | some b =>
        have hcmp : keyCmp p.1.toKey b.1.toKey = bytesCmp p.1.path b.1.path := by
          rw [keyCmp, hp, hb b rfl, bytesCmp_eq_iff.mpr rfl]
        rw [lesserPath, lesserKey, hcmp]
    rw [List.foldl_cons, List.foldl_cons, hone]
    refine ih (fun q hq => h q (List.mem_cons_of_mem p hq)) fun q hq => ?_
    rw [← hone] at hq
    cases best with
    | none =>
      obtain rfl := Option.some.inj hq
      exact hp
    | some b =>
      rw [lesserPath] at hq
      split at hq <;> obtain rfl := Option.some.inj hq
      · exact hp
      · exact hb _ rfl

/-- A slot a listing has yet to take. -/
def Awaits (root pre after : Bytes) (k : Key) : Prop :=
  k.root = root ∧ pre <+: k.path ∧ (⟨root, after⟩ : Key) < k

theorem mem_filter_listed {p : BindingSlot × ℕ} :
    p ∈ a.occupied.filter (fun p => !p.1.path.isEmpty && p.1.root == root
        && pre.isPrefixOf p.1.path && bytesCmp p.1.path after == .gt) ↔
      p ∈ a.occupied ∧ Awaits root pre after p.1.toKey := by
  rw [List.mem_filter]
  refine and_congr_right fun _ => ?_
  simp only [Bool.and_eq_true, Bool.not_eq_true', beq_iff_eq, List.isPrefixOf_iff_prefix,
    List.isEmpty_eq_false_iff, Awaits]
  constructor
  · rintro ⟨⟨⟨-, rfl⟩, hpre⟩, hgt⟩
    exact ⟨rfl, hpre, bytesCmp_gt_iff.mp hgt⟩
  · rintro ⟨rfl, hpre, hlt⟩
    exact ⟨⟨⟨ne_nil_of_lt hlt, rfl⟩, hpre⟩, bytesCmp_gt_iff.mpr hlt⟩

theorem nextListed_eq : a.nextListed root pre after
    = (a.occupied.filter fun p => !p.1.path.isEmpty && p.1.root == root
        && pre.isPrefixOf p.1.path && bytesCmp p.1.path after == .gt).foldl lesserKey none :=
  foldl_lesserPath (fun _ hp => (mem_filter_listed.mp hp).2.1) fun _ hp => nomatch hp

/-- The arena's next entry is the least that awaits. -/
theorem nextListed_eq_some {p : BindingSlot × ℕ} (h : a.nextListed root pre after = some p) :
    p ∈ a.occupied ∧ Awaits root pre after p.1.toKey ∧
      ∀ q ∈ a.occupied, Awaits root pre after q.1.toKey → p.1.toKey ≤ q.1.toKey := by
  rw [nextListed_eq] at h
  obtain ⟨hmem, -, hle⟩ := (foldl_lesserKey _ none).1 p h
  obtain ⟨hm, hk⟩ := mem_filter_listed.mp (hmem.resolve_left fun hc => nomatch hc)
  exact ⟨hm, hk, fun q hq hqk => hle q (mem_filter_listed.mpr ⟨hq, hqk⟩)⟩

theorem nextListed_eq_none (h : a.nextListed root pre after = none) {q : BindingSlot × ℕ}
    (hq : q ∈ a.occupied) : ¬ Awaits root pre after q.1.toKey := by
  rw [nextListed_eq] at h
  obtain ⟨-, hnil⟩ := (foldl_lesserKey _ none).2 h
  intro hk
  have := mem_filter_listed.mpr ⟨hq, hk⟩
  rw [hnil] at this
  cases this

end Arena

open Arena (Awaits)

namespace Snapshot

variable {snap : Snapshot} {io : ReadEnv} {k : Key}

/-- The next record in range from index `idx` on, and its index; `fuel` bounds
the records skipped. -/
def nextListed (snap : Snapshot) (io : ReadEnv) (root pre after : Bytes) :
    ℕ → ℕ → SnapRead (Option SnapRecord × ℕ)
  | 0, idx => .ready (none, idx)
  | fuel + 1, idx =>
    if idx < snap.count then
      match snap.readAt io idx with
      | .pending => .pending
      | .failed => .failed
      | .ready rec =>
        if rec.root ≠ root then .ready (none, idx)
        else if bytesCmp rec.path after ≠ .gt ∨ bytesCmp rec.path pre = .lt then
          nextListed snap io root pre after fuel (idx + 1)
        else if pre.isPrefixOf rec.path then .ready (some rec, idx)
        else .ready (none, idx)
    else .ready (none, idx)

/-- A decided bisection for the first key after `k`. -/
theorem Sorted.seekLoop_eq_ready (hs : snap.Sorted) {i : ℕ} (fuel lo hi : ℕ)
    (hbelow : ∀ j r, j < lo → snap.records[j]? = some r → r.toKey ≤ k)
    (habove : ∀ j r, hi ≤ j → snap.records[j]? = some r → k < r.toKey)
    (hf : hi - lo < fuel) (h : snap.seekLoop io k fuel lo hi = .ready i) :
    ∀ j r, snap.records[j]? = some r → (i ≤ j ↔ k < r.toKey) := by
  induction fuel generalizing lo hi with
  | zero => omega
  | succ fuel ih =>
    rw [seekLoop] at h
    split at h
    · next hlt =>
      dsimp only at h
      split at h
      · cases h
      · cases h
      · next rec hrec =>
        have hm := readAt_eq_ready hrec
        split at h
        · next hgt =>
          have hk := keyCmp_gt_iff.mp hgt
          refine ih lo _ hbelow (fun j r hj hr => ?_) (by omega) h
          rcases Nat.lt_or_eq_of_le hj with hj | rfl
          · exact hk.trans (hs.key_lt_of_lt hm hr hj)
          rw [hm] at hr
          cases hr
          exact hk
        · next hgt =>
          have hk : rec.toKey ≤ k := le_of_not_gt fun hc => hgt (keyCmp_gt_iff.mpr hc)
          refine ih _ hi (fun j r hj hr => ?_) habove (by omega) h
          rcases Nat.lt_succ_iff_lt_or_eq.mp hj with hj | rfl
          · exact (hs.key_lt_of_lt hr hm hj).le.trans hk
          rw [hm] at hr
          cases hr
          exact hk
    · next hlt =>
      obtain rfl := SnapRead.ready.inj h
      intro j r hr
      rcases Nat.lt_or_ge j lo with hj | hj
      · exact iff_of_false (Nat.not_le.mpr hj) (not_lt_of_ge (hbelow j r hj hr))
      · exact iff_of_true hj (habove j r (by omega) hr)

/-- **A decided seek is right.** -/
theorem Sorted.seekAfter_eq_ready (hs : snap.Sorted) {i : ℕ}
    (h : snap.seekAfter io k = .ready i) :
    ∀ j r, snap.records[j]? = some r → (i ≤ j ↔ k < r.toKey) := by
  refine hs.seekLoop_eq_ready _ 0 snap.count (fun j r hj => absurd hj (Nat.not_lt_zero j))
    (fun j r hj hr => ?_) (by simp [count]) h
  exact absurd (List.getElem?_eq_some_iff.mp hr).1 (Nat.not_lt.mpr hj)

theorem exists_seekLoop_allReady (fuel lo hi : ℕ) (hhi : hi ≤ snap.count) :
    ∃ i, snap.seekLoop .allReady k fuel lo hi = .ready i := by
  induction fuel generalizing lo hi with
  | zero => exact ⟨lo, rfl⟩
  | succ fuel ih =>
    rw [seekLoop]
    split
    · next hlt =>
      obtain ⟨r, hr⟩ := @exists_readAt_allReady snap (lo + (hi - lo) / 2) (by omega)
      simp only [hr]
      split
      · exact ih _ _ (by omega)
      · exact ih _ _ hhi
    · exact ⟨lo, rfl⟩

/-- No record before an index awaits. -/
def NoneBefore (snap : Snapshot) (root pre after : Bytes) (idx : ℕ) : Prop :=
  ∀ j r, snap.records[j]? = some r → j < idx → ¬ Awaits root pre after r.toKey

/-- Nothing awaits if nothing does before an index nor from it on. -/
theorem NoneBefore.none {root pre after : Bytes} {idx : ℕ}
    (h : snap.NoneBefore root pre after idx)
    (hfrom : ∀ j r, snap.records[j]? = some r → idx ≤ j → ¬ Awaits root pre after r.toKey) :
    ∀ r ∈ snap.records, ¬ Awaits root pre after r.toKey := by
  intro r hr
  obtain ⟨j, hj⟩ := List.mem_iff_getElem?.mp hr
  rcases Nat.lt_or_ge j idx with hlt | hge
  · exact h j r hj hlt
  · exact hfrom j r hj hge

/-- **The snapshot's next record is the least that awaits**: none before its
index does, and when there is none, none at all does. -/
theorem Sorted.nextListed_eq_ready (hs : snap.Sorted) {root pre after start : Bytes}
    {b : Option SnapRecord} {idx' : ℕ} (fuel idx : ℕ)
    (habove : ∀ j r, snap.records[j]? = some r → idx ≤ j → (⟨root, start⟩ : Key) < r.toKey)
    (hbefore : snap.NoneBefore root pre after idx) (hf : snap.count - idx ≤ fuel)
    (h : snap.nextListed io root pre after fuel idx = .ready (b, idx')) :
    idx ≤ idx' ∧ snap.NoneBefore root pre after idx' ∧
      (∀ r ∈ b, snap.records[idx']? = some r ∧ Awaits root pre after r.toKey) ∧
      (b = none → ∀ r ∈ snap.records, ¬ Awaits root pre after r.toKey) := by
  have hend : ∀ i, snap.count ≤ i → snap.NoneBefore root pre after i →
      ∀ r ∈ snap.records, ¬ Awaits root pre after r.toKey := fun i hi hb =>
    hb.none fun j r hj hge => absurd (List.getElem?_eq_some_iff.mp hj).1
      (Nat.not_lt.mpr (hi.trans hge))
  induction fuel generalizing idx with
  | zero =>
    obtain ⟨rfl, rfl⟩ := Prod.mk.inj (SnapRead.ready.inj h)
    exact ⟨le_rfl, hbefore, nofun, fun _ => hend _ (by omega) hbefore⟩
  | succ fuel ih =>
    rw [nextListed] at h
    split at h
    swap
    · obtain ⟨rfl, rfl⟩ := Prod.mk.inj (SnapRead.ready.inj h)
      exact ⟨le_rfl, hbefore, nofun, fun _ => hend _ (by omega) hbefore⟩
    split at h
    · cases h
    · cases h
    next rec hrec =>
    have hm := readAt_eq_ready hrec
    have hlater : ∀ j r, snap.records[j]? = some r → idx ≤ j → rec.toKey ≤ r.toKey := by
      intro j r hj hge
      rcases Nat.lt_or_eq_of_le hge with hlt | rfl
      · exact (hs.key_lt_of_lt hm hj hlt).le
      rw [hm] at hj
      cases hj
      exact le_rfl
    split at h
    · next hroot =>
      -- the records of the root are over
      obtain ⟨rfl, rfl⟩ := Prod.mk.inj (SnapRead.ready.inj h)
      refine ⟨le_rfl, hbefore, nofun, fun _ => hbefore.none fun j r hj hge haw => hroot ?_⟩
      exact Key.root_eq_of_between (habove _ _ hm le_rfl) (hlater j r hj hge) haw.1.symm
    next hroot =>
    have hroot : rec.root = root := by simpa using hroot
    split at h
    · next hskip =>
      have hnot : ¬ Awaits root pre after rec.toKey := by
        rintro ⟨-, hpre, hlt⟩
        rcases hskip with hc | hc
        · refine hc ((@bytesCmp_gt_iff root _ _).mpr ?_)
          rwa [show (⟨root, rec.path⟩ : Key) = rec.toKey by rw [← hroot]]
        · exact bytesCmp_ne_lt_of_isPrefix hpre hc
      obtain ⟨hle, hrest⟩ := ih (idx + 1) (fun j r hj hge => habove j r hj (by omega))
        (fun j r hj hlt => by
          rcases Nat.lt_succ_iff_lt_or_eq.mp hlt with hlt | rfl
          · exact hbefore j r hj hlt
          rw [hm] at hj
          cases hj
          exact hnot) (by omega) h
      exact ⟨by omega, hrest⟩
    next hin =>
    obtain ⟨hgt, hge⟩ := not_or.mp hin
    split at h
    · next hpre =>
      obtain ⟨rfl, rfl⟩ := Prod.mk.inj (SnapRead.ready.inj h)
      refine ⟨le_rfl, hbefore, fun r hr => ?_, nofun⟩
      obtain rfl := Option.mem_some.mp hr
      refine ⟨hm, hroot, List.isPrefixOf_iff_prefix.mp hpre, ?_⟩
      have := (@bytesCmp_gt_iff root _ _).mp (not_not.mp hgt)
      rwa [show (⟨root, rec.path⟩ : Key) = rec.toKey by rw [← hroot]] at this
    · next hpre =>
      -- the paths that begin with `pre` are over
      obtain ⟨rfl, rfl⟩ := Prod.mk.inj (SnapRead.ready.inj h)
      refine ⟨le_rfl, hbefore, nofun, fun _ => hbefore.none fun j r hj hle haw => hpre ?_⟩
      rw [List.isPrefixOf_iff_prefix]
      rcases eq_or_lt_of_le (hlater j r hj hle) with heq | hlt
      · rw [show rec.path = r.path from congrArg Key.path heq]
        exact haw.2.1
      · refine isPrefix_of_between haw.2.1 hge ((@bytesCmp_lt_iff root _ _).mpr ?_)
        rwa [show (⟨root, rec.path⟩ : Key) = rec.toKey by rw [← hroot],
          show (⟨root, r.path⟩ : Key) = r.toKey by rw [← haw.1]]

theorem exists_nextListed_allReady (root pre after : Bytes) (fuel idx : ℕ) :
    ∃ p, snap.nextListed .allReady root pre after fuel idx = .ready p := by
  induction fuel generalizing idx with
  | zero => exact ⟨_, rfl⟩
  | succ fuel ih =>
    rw [nextListed]
    split
    · next hlt =>
      obtain ⟨r, hr⟩ := exists_readAt_allReady hlt
      simp only [hr]
      split
      · exact ⟨_, rfl⟩
      split
      · exact ih _
      · split <;> exact ⟨_, rfl⟩
    · exact ⟨_, rfl⟩

/-! ## Decided reads are those of a device that answers -/

theorem readAt_allReady_of_ready {idx : ℕ} {r : SnapRecord} (h : snap.readAt io idx = .ready r) :
    snap.readAt .allReady idx = .ready r :=
  readAt_allReady (readAt_eq_ready h)

theorem seekLoop_allReady_of_ready {i : ℕ} (fuel lo hi : ℕ)
    (h : snap.seekLoop io k fuel lo hi = .ready i) :
    snap.seekLoop .allReady k fuel lo hi = .ready i := by
  induction fuel generalizing lo hi with
  | zero => exact h
  | succ fuel ih =>
    rw [seekLoop] at h ⊢
    split at h
    · next hlt =>
      rw [if_pos hlt]
      dsimp only at h ⊢
      split at h
      · cases h
      · cases h
      next rec hrec =>
      rw [readAt_allReady_of_ready hrec]
      dsimp only
      split at h
      · next hgt =>
        rw [if_pos hgt]
        exact ih _ _ h
      · next hgt =>
        rw [if_neg hgt]
        exact ih _ _ h
    · next hlt =>
      rw [if_neg hlt]
      exact h

theorem nextListed_allReady_of_ready {root pre after : Bytes} {p : Option SnapRecord × ℕ}
    (fuel idx : ℕ) (h : snap.nextListed io root pre after fuel idx = .ready p) :
    snap.nextListed .allReady root pre after fuel idx = .ready p := by
  induction fuel generalizing idx with
  | zero => exact h
  | succ fuel ih =>
    rw [nextListed] at h ⊢
    split at h
    · next hlt =>
      rw [if_pos hlt]
      split at h
      · cases h
      · cases h
      next rec hrec =>
      rw [readAt_allReady_of_ready hrec]
      dsimp only
      split at h
      · next hroot =>
        rw [if_pos hroot]
        exact h
      next hroot =>
      rw [if_neg hroot]
      split at h
      · next hskip =>
        rw [if_pos hskip]
        exact ih _ h
      · next hskip =>
        rw [if_neg hskip]
        exact h
    · next hlt =>
      rw [if_neg hlt]
      exact h

end Snapshot

/-! ## The walk -/

namespace Namespace

variable {L : Limits} {ns : Namespace L} {io : ReadEnv} {root pre after start : Bytes} {σ : Type}

/-- The entry of an arena slot. -/
def slotListed (s : BindingSlot) : Listed := ⟨s.path, s.toBinding, s.changeRev⟩

/-- The entry of a snapshot record. -/
def recordListed (ns : Namespace L) (r : SnapRecord) : Listed :=
  ⟨r.path, r.toBinding, ns.bindings.changeHorizon⟩

/-- The entry to take of the next ones of the two tiers, and whether the
snapshot's record is behind the walk then: the lower, and the arena's where
they have one path. -/
def pickListed (ns : Namespace L) : Option BindingSlot → Option SnapRecord → Option (Listed × Bool)
  | none, none => none
  | some s, none => some (slotListed s, false)
  | none, some r => some (ns.recordListed r, true)
  | some s, some r =>
    match bytesCmp s.path r.path with
    | .gt => some (ns.recordListed r, true)
    | .eq => some (slotListed s, true)
    | .lt => some (slotListed s, false)

/-- The snapshot's next record, and its index. -/
def nextRecord (ns : Namespace L) (io : ReadEnv) (root pre after : Bytes) (idx : ℕ) :
    SnapRead (Option SnapRecord × ℕ) :=
  match ns.snap with
  | none => .ready (none, idx)
  | some g => g.nextListed io root pre after (g.count - idx) idx

/-- The loop of `walk_ordered`. A tombstone is taken without being offered;
an entry that is not taken stops the walk. -/
def walkLoop (ns : Namespace L) (io : ReadEnv) (root pre : Bytes)
    (take : σ → Listed → Option σ) : ℕ → Bytes → ℕ → σ → SnapRead (Bool × σ)
  | 0, _, _, w => .ready (false, w)
  | fuel + 1, after, idx, w =>
    match ns.nextRecord io root pre after idx with
    | .pending => .pending
    | .failed => .failed
    | .ready (b, idx) =>
      match ns.pickListed ((ns.bindings.nextListed root pre after).map Prod.fst) b with
      | none => .ready (false, w)
      | some (e, behind) =>
        match if e.binding.live then take w e else some w with
        | none => .ready (true, w)
        | some w => walkLoop ns io root pre take fuel e.path (if behind then idx + 1 else idx) w

/-- Where the walk starts in the snapshot. -/
def walkStart (ns : Namespace L) (io : ReadEnv) (root after : Bytes) : SnapRead ℕ :=
  match ns.snap with
  | none => .ready 0
  | some g => if 0 < g.count then g.seekAfter io ⟨root, after⟩ else .ready 0

/-- The keys of both tiers. -/
def candidates (ns : Namespace L) : List Key :=
  ns.bindings.occupied.map (fun p => p.1.toKey)
    ++ (ns.snap.elim [] fun g => g.records.map SnapRecord.toKey)

/-- Walk the live bindings under `root` whose path begins with `pre` and sorts
after `after`, in name order (`walk_ordered`); whether entries remain. -/
def walkOrdered (ns : Namespace L) (io : ReadEnv) (root pre after : Bytes)
    (take : σ → Listed → Option σ) (w : σ) : SnapRead (Bool × σ) :=
  match ns.walkStart io root after with
  | .pending => .pending
  | .failed => .failed
  | .ready idx => ns.walkLoop io root pre take (ns.candidates.length + 1) after idx w

end Namespace

end Loam

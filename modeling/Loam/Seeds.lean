import Loam.OneNamespace
import Loam.SnapshotTier

/-!
# What a rotated log brings back

A rotated log opens with a restore for every slot the new generation does not
cover. A boot replays it over that generation, and a restore's revision orders
it like any record's: one that is not past what the generation records is
taken for already done. So the seeds bring back every slot whose revision is
past the generation's, and a slot that is at the generation's revision or
below comes back only if it is the very binding the generation holds.

What comes back is the revision and the live binding: of a deletion the
restore carries the revision and nothing else.
-/

namespace Loam

/-- What a client can see of a key: its revision, and its binding if live. -/
def seen (b : Option Binding) : UInt64 × Option Binding := (curRevision b, b.filter Binding.live)

theorem seen_tombstone {b : Binding} (h : b.kind = kindTombstone) :
    seen (some (.tombstone b.revision)) = seen (some b) := by
  have hdead : b.live = false := by simp [Binding.live, h]
  rw [seen, seen, Option.filter_some_neg (by simp), Option.filter_some_neg (by simp [hdead])]
  rfl

/-- The record that restores a slot. -/
def BindingSlot.restore (s : BindingSlot) : Record :=
  .bindingRestore ⟨s.toKey, s.toBinding, .any, 0⟩

/-- The slot's revision is past what the generation records for its key, or
the slot is what it records. -/
def BindingSlot.PastOrSame (snap : Option Snapshot) (s : BindingSlot) : Prop :=
  curRevision (snapBinding snap s.toKey) < s.revision ∨
    snapBinding snap s.toKey = some s.toBinding

namespace Namespace

variable {L : Limits} {ns : Namespace L} {s : BindingSlot}

/-- **One restore** at a key the arena does not hold, and for which it has a
slot. -/
theorem Sound.replay_restore (h : ns.Sound) (hl : ns.bindings.lookup s.toKey = none)
    (hfull : ns.bindings.full = false)
    (hfit : Arena.bindFits L s.toKey s.objectId s.metadata = true) (hs : s.PastOrSame ns.snap) :
    (∀ k, (ns.replayApply .allReady s.restore).bindings.lookup k ≠ none →
        k = s.toKey ∨ ns.bindings.lookup k ≠ none) ∧
      seen ((ns.replayApply .allReady s.restore).view s.toKey) = seen (some s.toBinding) ∧
      ∀ k, k ≠ s.toKey → (ns.replayApply .allReady s.restore).view k = ns.view k := by
  obtain ⟨a', ok, hp, ho⟩ := h.applyOp_carries s.restore
  have hview := (h.applyOp_spec s.restore).1
  rw [show ns.replayApply .allReady s.restore = (ns.applyOp .allReady s.restore).1 from rfl]
  have hput : ∀ b, Arena.bindFits L s.toKey b.objectId b.metadata = true →
      seen (some b) = seen (some s.toBinding) →
      (ns.judged s.restore).effect = .put s.toKey b →
      (∀ k, (ns.applyOp .allReady s.restore).1.bindings.lookup k ≠ none →
        k = s.toKey ∨ ns.bindings.lookup k ≠ none) ∧
      seen ((ns.applyOp .allReady s.restore).1.view s.toKey) = seen (some s.toBinding) ∧
      ∀ k, k ≠ s.toKey → (ns.applyOp .allReady s.restore).1.view k = ns.view k := by
    intro b hb hseen he
    have hcan : ns.bindings.canDo (.put s.toKey b) = true := by
      simp [Arena.canDo, hb, Arena.hasRoom, hfull]
    rw [he, hcan, if_pos rfl] at hview
    refine ⟨fun k hk => ?_, ?_, fun k hk => ?_⟩
    · rw [hp] at hk
      rw [he] at ho
      obtain hp' | hp' := ho
      cases hp' with
      | tooLong | noRoom => exact .inr hk
      | wrote a₁ _ _ hsh _ hw =>
        obtain ⟨-, -, t, -, hmap⟩ := hw
        by_cases hks : k = s.toKey
        · exact .inl hks
        refine .inr fun hn => hk ?_
        rw [show a'.lookup k = _ from hmap k, if_neg hks]
        exact hsh.lookup_of_none hn
    · rw [hview, after, Function.update_self, hseen]
    · rw [hview, after, Function.update_of_ne hk]
  have hkey : BindMsg.decodesFields L ⟨s.toKey, s.toBinding, .any, 0⟩ = true := hfit
  by_cases hrev : s.revision ≤ curRevision (ns.view s.toKey)
  · have hkeep : (ns.judged s.restore).effect = .keep := by
      simp only [judged, BindingSlot.restore, judge, hkey, Bool.not_true, Bool.false_eq_true,
        if_false, if_pos hrev]
      rfl
    rw [hkeep] at hview ho
    have hsame : ns.view s.toKey = some s.toBinding := by
      rw [view_of_lookup_none hl] at hrev ⊢
      exact hs.resolve_left (UInt64.not_lt.mpr hrev)
    refine ⟨fun k hk => .inr ?_, ?_, fun k _ => ?_⟩
    · rw [hp] at hk
      cases ho
      exact hk
    · rw [hview]
      exact congrArg seen hsame
    · rw [hview]
      rfl
  · by_cases hkind : s.kind = kindTombstone
    · refine hput (.tombstone s.revision) ?_ (seen_tombstone hkind) ?_
      · rw [bindFits_tombstone]
        exact (Arena.bindFits_iff.mp hfit).1
      · simp only [judged, BindingSlot.restore, judge, hkey, Bool.not_true, Bool.false_eq_true,
          if_false, if_neg hrev, if_pos hkind]
        rfl
    · refine hput s.toBinding hfit rfl ?_
      simp only [judged, BindingSlot.restore, judge, hkey, Bool.not_true, Bool.false_eq_true,
        if_false, if_neg hrev, if_neg hkind]
      rfl

/-- **The restores of distinct keys of one arena**, over an arena that holds
none of them. -/
theorem Sound.replay_restores (b : Arena L) {l : List BindingSlot} (h : ns.Sound)
    (hd : (l.map BindingSlot.toKey).Nodup)
    (hfit : ∀ s ∈ l, Arena.bindFits L s.toKey s.objectId s.metadata = true)
    (hb : ∀ s ∈ l, b.lookup s.toKey ≠ none)
    (hl : ∀ s ∈ l, ns.bindings.lookup s.toKey = none)
    (hsub : ∀ k, ns.bindings.lookup k ≠ none → b.lookup k ≠ none)
    (hs : ∀ s ∈ l, s.PastOrSame ns.snap) :
    (∀ s ∈ l, seen ((ns.replay (l.map BindingSlot.restore)).view s.toKey)
        = seen (some s.toBinding)) ∧
      ∀ k, (∀ s ∈ l, s.toKey ≠ k) →
        (ns.replay (l.map BindingSlot.restore)).view k = ns.view k := by
  induction l generalizing ns with
  | nil => exact ⟨nofun, fun _ _ => rfl⟩
  | cons s l ih =>
    obtain ⟨hnot, hd'⟩ := List.nodup_cons.mp hd
    have hhead := List.mem_cons_self (a := s) (l := l)
    have htail : ∀ t ∈ l, t ∈ s :: l := fun t ht => List.mem_cons_of_mem s ht
    have hne : ∀ t ∈ l, t.toKey ≠ s.toKey := fun t ht he =>
      hnot (he ▸ List.mem_map_of_mem ht)
    have hroom := h.arena.not_full_of_subset hsub (hl s hhead) (hb s hhead)
    obtain ⟨hkeys, hat, hrest⟩ :=
      h.replay_restore (hl s hhead) hroom (hfit s hhead) (hs s hhead)
    have hsound : (ns.replayApply .allReady s.restore).Sound := h.sound_applyOp _ _
    have hsnap : (ns.replayApply .allReady s.restore).snap = ns.snap := h.snap_applyOp _ _
    obtain ⟨hin, hout⟩ := ih hsound hd' (fun t ht => hfit t (htail t ht))
      (fun t ht => hb t (htail t ht))
      (fun t ht => by
        by_contra hc
        rcases hkeys t.toKey hc with he | hc
        · exact hne t ht he
        · exact hc (hl t (htail t ht)))
      (fun k hk => by
        rcases hkeys k hk with rfl | hk
        · exact hb s hhead
        · exact hsub k hk)
      (fun t ht => hsnap ▸ hs t (htail t ht))
    refine ⟨fun t ht => ?_, fun k hk => ?_⟩
    · rcases List.mem_cons.mp ht with rfl | ht
      · rw [show ns.replay ((t :: l).map BindingSlot.restore)
          = (ns.replayApply .allReady t.restore).replay (l.map BindingSlot.restore) from rfl,
          hout _ hne]
        exact hat
      · exact hin t ht
    · rw [show ns.replay ((s :: l).map BindingSlot.restore)
        = (ns.replayApply .allReady s.restore).replay (l.map BindingSlot.restore) from rfl,
        hout k fun t ht => hk t (htail t ht)]
      exact hrest k (hk s hhead).symm

theorem replay_leases_same {l : List Record}
    (h : ∀ r ∈ l, ∃ e f g, r = .leaseRestore e f g) :
    (ns.replay l).bindings = ns.bindings ∧ (ns.replay l).snap = ns.snap := by
  induction l generalizing ns with
  | nil => exact ⟨rfl, rfl⟩
  | cons r l ih =>
    obtain ⟨e, f, g, rfl⟩ := h r List.mem_cons_self
    have hone : (ns.replayApply .allReady (.leaseRestore e f g)).bindings = ns.bindings ∧
        (ns.replayApply .allReady (.leaseRestore e f g)).snap = ns.snap := by
      simp only [replayApply, applyOp, applyLeaseRestore]
      split <;> exact ⟨rfl, rfl⟩
    obtain ⟨hb, hs⟩ := @ih (ns.replayApply .allReady (.leaseRestore e f g))
      fun r hr => h r (List.mem_cons_of_mem _ hr)
    exact ⟨hb.trans hone.1, hs.trans hone.2⟩

end Namespace

namespace Node

variable {L : Limits} {n : Node L}

/-- The slots the open generation does not cover. -/
def uncovered (n : Node L) : List BindingSlot :=
  (n.ns.bindings.occupied.filter fun p => !p.1.snapshotted).map Prod.fst

theorem mem_uncovered {s : BindingSlot} (h : n.ns.Sound) :
    s ∈ n.uncovered ↔ n.ns.bindings.lookup s.toKey = some s ∧ s.snapshotted = false := by
  simp only [uncovered, List.mem_map, List.mem_filter, Bool.not_eq_true', Prod.exists,
    exists_and_right, exists_eq_right]
  refine and_congr_left fun _ => ?_
  rw [h.arena.lookup_eq_some_iff]
  simp

/-- What a boot over the open generation makes of the seeds. -/
def reseeded (n : Node L) : Namespace L :=
  ({ Namespace.new L with snap := n.ns.snap } : Namespace L).replay n.seeds

/-- **The seeds lose nothing** that is past the generation's revision, or what
the generation holds. -/
theorem Coherent.reseeded_seen (h : n.Coherent)
    (hs : ∀ s ∈ n.uncovered, s.PastOrSame n.ns.snap) (k : Key) :
    seen (n.reseeded.view k) = seen (n.ns.view k) := by
  have hseeds : n.seeds = (n.ns.leases.entries.filterMap fun o => o.map fun e =>
      Record.leaseRestore e n.ns.leases.fenceFloor n.ns.leases.stampFloor) ++
      n.uncovered.map BindingSlot.restore := by
    simp only [seeds, uncovered, List.map_map]
    rfl
  have hlease : ∀ r ∈ n.ns.leases.entries.filterMap (fun o => o.map fun e =>
      Record.leaseRestore e n.ns.leases.fenceFloor n.ns.leases.stampFloor),
      ∃ e f g, r = .leaseRestore e f g := by
    intro r hr
    obtain ⟨o, -, ho⟩ := List.mem_filterMap.mp hr
    obtain ⟨e, -, rfl⟩ := Option.map_eq_some_iff.mp ho
    exact ⟨e, _, _, rfl⟩
  obtain ⟨hb, hsnap⟩ := @Namespace.replay_leases_same L
    { Namespace.new L with snap := n.ns.snap } _ hlease
  rw [reseeded, hseeds, Namespace.replay, List.foldl_append]
  rw [Namespace.replay] at hb hsnap
  generalize List.foldl _ _ (List.filterMap _ n.ns.leases.entries) = booted at hb hsnap ⊢
  have hempty : ∀ k, booted.bindings.lookup k = none := by
    intro k
    rw [hb]
    exact Arena.lookup_new
  have hsnap : booted.snap = n.ns.snap := hsnap
  have hopened : ({ Namespace.new L with snap := n.ns.snap } : Namespace L).Sound :=
    sound_opened h.sound.sorted
  have hsound : booted.Sound := hopened.congr hb hsnap
  have hnodup : (n.uncovered.map BindingSlot.toKey).Nodup := by
    rw [uncovered, List.map_map]
    exact h.sound.arena.keys_unique.keys_nodup.sublist (List.filter_sublist.map _)
  have hlk : ∀ s ∈ n.uncovered, n.ns.bindings.lookup s.toKey = some s := fun s hs =>
    ((mem_uncovered h.sound).mp hs).1
  obtain ⟨hin, hout⟩ := hsound.replay_restores n.ns.bindings hnodup
    (fun s hs => h.fits _ s (hlk s hs)) (fun s hs => by simp [hlk s hs]) (fun s _ => hempty _)
    (fun k hk => absurd (hempty k) hk) (fun s hs' => hsnap ▸ hs s hs')
  have hnone : (∀ s ∈ n.uncovered, s.toKey ≠ k) → snapBinding n.ns.snap k = n.ns.view k →
      seen ((booted.replay (n.uncovered.map BindingSlot.restore)).view k)
        = seen (n.ns.view k) := by
    intro hk hv
    rw [hout k hk, Namespace.view_of_lookup_none (hempty k), hsnap, hv]
  cases hl : n.ns.bindings.lookup k with
  | none =>
    refine hnone (fun s hs he => ?_) (Namespace.view_of_lookup_none hl).symm
    have := hlk s hs
    rw [he, hl] at this
    cases this
  | some s =>
    obtain rfl := Arena.toKey_of_lookup hl
    cases hsn : s.snapshotted with
    | false =>
      rw [Namespace.view_of_lookup hl]
      exact hin s ((mem_uncovered h.sound).mpr ⟨hl, hsn⟩)
    | true =>
      refine hnone (fun t ht he => ?_) ?_
      · obtain ⟨hlt, htn⟩ := (mem_uncovered h.sound).mp ht
        rw [he, hl] at hlt
        obtain rfl := Option.some.inj hlt
        rw [hsn] at htn
        cases htn
      · rw [h.sound.covered _ s hl hsn, Namespace.view_of_lookup hl]

end Node

end Loam

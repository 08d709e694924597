import Loam.ArenaNumbers
import Loam.Sweep
import Loam.VolumeHistory
import Loam.VolumeRead
import Loam.WireAnswers

/-!
# What a sweep proves of the volumes

That no binding names a body is not enough: a volume names its map's root alone, and the pages and
extents under it are bodies too. So the sweep goes on to walk every volume's map. It asks for the
roots a page at a time, first those of the arena and then those of the open generation, and reads
each page of each map. It keeps the body where a map names it, where a page cannot be read, and
where the generation is another than when it began.

A walk that ends has seen every map there is, and will be (`walk_spares`). No volume is bound anew
under the reservation, so what the argument has to follow is where a volume is found while slots
are rewritten, covered and evicted between two pages. A slot that is evicted is in the generation,
whose records come after every slot.
-/

namespace Loam

/-! ## What a map names -/

/-- The table has the digest (`names_digest`). -/
def namesDigest (table : Bytes) (d : Digest) : Bool :=
  (List.range (table.length / 32)).any fun i => digestAt table i == some d

theorem lt_of_digestAt {table : Bytes} {i : ℕ} {d : Digest} (h : digestAt table i = some d) :
    i < table.length / 32 := by
  unfold digestAt at h
  split at h
  · next hlen =>
    rw [List.length_take, List.length_drop] at hlen
    omega
  · cases h

theorem digestAt_ne {table : Bytes} {d : Digest} (h : namesDigest table d = false) (i : ℕ) :
    digestAt table i ≠ some d := by
  intro hi
  have hn := List.any_eq_false.mp h i (List.mem_range.mpr (lt_of_digestAt hi))
  simp [hi] at hn

/-- The digests a root's leaves are read by (`gc_leaves`). -/
def RootPage.leaves (root : RootPage) : List Digest :=
  (List.range pageEntries).filterMap root.child

theorem RootPage.mem_leaves {page : Bytes} {root : RootPage} (h : decodeRoot page = some root)
    {i : ℕ} {l : Digest} (hi : root.child i = some l) : l ∈ root.leaves := by
  obtain ⟨hdepth, hcov, -⟩ := BlockVolume.decodeRoot_geometry h
  exact List.mem_filterMap.mpr
    ⟨i, List.mem_range.mpr ((lt_of_digestAt hi).trans_le (count_le_pageEntries hdepth hcov)), hi⟩

/-- The leaf page does not name the body `c`. -/
def SparedByLeaf (body : Digest → Bytes) (c l : Digest) : Prop :=
  ∀ leaf, decodeLeaf (body l) = some leaf → ∀ i, leaf.digest i ≠ some c

/-- **The map under a root does not name the body `c`**, in the root page or in a leaf. -/
def SparedBy (body : Digest → Bytes) (c d : Digest) : Prop :=
  ∀ root, decodeRoot (body d) = some root → (∀ i, root.child i ≠ some c) ∧
    (root.depth ≠ 1 → ∀ i l, root.child i = some l → l ≠ Digest.zero → SparedByLeaf body c l)

/-! ## The roots, page by page -/

/-- The records that one page looks at (`ROOTS_SCAN_PER_CALL`). -/
def rootsScanPerCall : ℕ := 128

/-- The map root that a binding names, if it is a volume's. -/
def Binding.mapRoot (b : Binding) : Option Digest :=
  if b.kind = kindVolume then oidDigest b.objectId else none

/-- What a page of roots answers. -/
inductive RootsAnswer where
  | again
  | refused
  /-- These are found in the generation `view`, and the next page begins at `next`. -/
  | roots (next view : ℕ) (found : List Digest)
deriving DecidableEq

namespace Namespace

variable {L : Limits} {ns : Namespace L} {io : ReadEnv} {i : ℕ}

/-- The number of the open generation, 0 for none (`snap_gen`). -/
def snapGen (ns : Namespace L) : ℕ := (ns.snap.map (·.generation)).getD 0

/-- What stands at a place: the slots of the arena come first, and then the records. -/
def rootAt (ns : Namespace L) (io : ReadEnv) (i : ℕ) : SnapRead (Option Digest) :=
  if i < L.namespaceSlots then .ready (ns.bindings.slots[i]?.join.bind (·.toBinding.mapRoot))
  else match ns.snap with
    | none => .ready none
    | some g =>
      match g.readAt io (i - L.namespaceSlots) with
      | .pending => .pending
      | .failed => .failed
      | .ready r => .ready r.toBinding.mapRoot

/-- Look for so many roots from a place, and say where it stopped. -/
def rootsFrom (ns : Namespace L) (io : ReadEnv) : ℕ → ℕ → ℕ → SnapRead (ℕ × List Digest)
  | 0, i, _ => .ready (i, [])
  | _ + 1, i, 0 => .ready (i, [])
  | fuel + 1, i, room + 1 =>
    match ns.rootAt io i with
    | .pending => .pending
    | .failed => .failed
    | .ready none => rootsFrom ns io fuel (i + 1) (room + 1)
    | .ready (some d) =>
      match rootsFrom ns io fuel (i + 1) room with
      | .ready (stop, ds) => .ready (stop, d :: ds)
      | r => r

/-- A page of the roots that volumes are bound to (`handle_volume_roots`). -/
def handleVolumeRoots (ns : Namespace L) (io : ReadEnv) (cursor : ℕ) : RootsAnswer :=
  let ends := L.namespaceSlots + (ns.snap.map (·.count)).getD 0
  let stop := min (cursor + rootsScanPerCall) ends
  match ns.rootsFrom io (stop - cursor) cursor maxVolumeRoots with
  | .pending => .again
  | .failed => .refused
  | .ready (i, found) => .roots (if ends ≤ i then 0 else i) ns.snapGen found

/-- What is passed is looked at, and something is passed if there is anything to look at. -/
theorem of_rootsFrom {fuel start room stop : ℕ} {ds : List Digest}
    (h : ns.rootsFrom io fuel start room = .ready (stop, ds)) :
    start ≤ stop ∧ (0 < fuel → 0 < room → start < stop) ∧
      ∀ i, start ≤ i → i < stop → ∃ o, ns.rootAt io i = .ready o ∧ ∀ d ∈ o, d ∈ ds := by
  induction fuel generalizing start room ds with
  | zero =>
    cases h
    exact ⟨Nat.le_refl _, fun h0 => absurd h0 (Nat.lt_irrefl 0), fun i hlo hhi => by omega⟩
  | succ fuel ih =>
    cases room with
    | zero =>
      cases h
      exact ⟨Nat.le_refl _, fun _ h0 => absurd h0 (Nat.lt_irrefl 0), fun i hlo hhi => by omega⟩
    | succ room =>
      unfold rootsFrom at h
      cases hr : ns.rootAt io start with
      | pending =>
        rw [hr] at h
        cases h
      | failed =>
        rw [hr] at h
        cases h
      | ready o =>
        -- The first place is looked at, and the rest are those of the scan that follows.
        have hrest : ∀ {room' ds'}, ns.rootsFrom io fuel (start + 1) room' = .ready (stop, ds') →
            (∀ d ∈ o, d ∈ ds) → ds' ⊆ ds → start ≤ stop ∧ (0 < fuel + 1 → 0 < room + 1 →
              start < stop) ∧ ∀ i, start ≤ i → i < stop →
                ∃ o, ns.rootAt io i = .ready o ∧ ∀ d ∈ o, d ∈ ds := by
          intro room' ds' hs ho hsub
          obtain ⟨hle, -, hseen⟩ := ih hs
          refine ⟨by omega, fun _ _ => hle, fun i hlo hhi => ?_⟩
          obtain rfl | hlt := Nat.eq_or_lt_of_le hlo
          · exact ⟨o, hr, ho⟩
          · obtain ⟨o', ho', hin⟩ := hseen i hlt hhi
            exact ⟨o', ho', fun d hd => hsub (hin d hd)⟩
        cases o with
        | none =>
          rw [hr] at h
          dsimp only at h
          exact hrest h (fun d hd => nomatch hd) (List.Subset.refl _)
        | some d =>
          rw [hr] at h
          dsimp only at h
          split at h
          · next stop' ds' hs =>
            cases h
            exact hrest hs (fun d' hd => Option.some.inj hd ▸ List.mem_cons_self)
              (List.subset_cons_self d ds')
          · next r hno => exact absurd h (hno stop _)

/-- What a page leaves out is past where the next one begins. -/
theorem of_handleVolumeRoots {cursor next view : ℕ} {found : List Digest}
    (h : ns.handleVolumeRoots io cursor = .roots next view found) :
    view = ns.snapGen ∧ ∀ i, cursor ≤ i →
      i < L.namespaceSlots + (ns.snap.map (·.count)).getD 0 →
        (∃ o, ns.rootAt io i = .ready o ∧ ∀ d ∈ o, d ∈ found) ∨ (next ≠ 0 ∧ next ≤ i) := by
  unfold handleVolumeRoots at h
  dsimp only at h
  split at h
  · cases h
  · cases h
  next stop ds hs =>
  cases h
  refine ⟨rfl, fun i hlo hhi => ?_⟩
  obtain ⟨-, hpos, hseen⟩ := of_rootsFrom hs
  by_cases hi : i < stop
  · exact .inl (hseen i hlo hi)
  have hscan : 0 < rootsScanPerCall := by decide
  have hstop := hpos (by omega) (by decide)
  rw [if_neg (by omega)]
  exact .inr ⟨by omega, Nat.le_of_not_lt hi⟩

theorem rootAt_slot {s : BindingSlot} (hs : (s, i) ∈ ns.bindings.occupied) :
    ns.rootAt io i = .ready s.toBinding.mapRoot := by
  unfold rootAt
  rw [if_pos (Arena.lt_of_mem_occupied hs), Arena.mem_occupied.mp hs]
  rfl

theorem rootAt_record {g : Snapshot} (hg : ns.snap = some g) {r : SnapRecord}
    (hr : g.records[i]? = some r) {o : Option Digest}
    (h : ns.rootAt io (L.namespaceSlots + i) = .ready o) : o = r.toBinding.mapRoot := by
  unfold rootAt at h
  rw [if_neg (by omega), hg, Nat.add_sub_cancel_left] at h
  dsimp only at h
  split at h
  · cases h
  · cases h
  next r' hread =>
  have heq := (Snapshot.readAt_eq_ready hread).symm.trans hr
  cases h
  rw [Option.some.inj heq]

/-! ## Where a volume is found -/

/-- The key's binding is a volume over the map at `d`. -/
structure Mounts (ns : Namespace L) (k : Key) (b : Binding) (d : Digest) : Prop where
  view : ns.view k = some b
  root : b.mapRoot = some d

/-- A slot of the key is at a place from the cursor on, or a record of its binding is. -/
def Ahead (ns : Namespace L) (cursor : ℕ) (k : Key) (b : Binding) : Prop :=
  (∃ s i, (s, i) ∈ ns.bindings.occupied ∧ s.toKey = k ∧ cursor ≤ i) ∨
    ∃ g i r, ns.snap = some g ∧ g.records[i]? = some r ∧ r.toBinding = b ∧
      cursor ≤ L.namespaceSlots + i

theorem ahead_of_snapBinding {k : Key} {b : Binding} (h : snapBinding ns.snap k = some b)
    {cursor : ℕ} (hc : cursor ≤ L.namespaceSlots) : ns.Ahead cursor k b := by
  obtain ⟨r, hr, hb⟩ := Option.map_eq_some_iff.mp h
  obtain ⟨g, hg, hfind⟩ := Option.bind_eq_some_iff.mp hr
  obtain ⟨i, hi⟩ := List.mem_iff_getElem?.mp (SortedTable.mem_of_find hfind)
  exact .inr ⟨g, i, r, hg, hi, hb, by omega⟩

/-- **Every binding is ahead of the first page.** -/
theorem Sound.ahead_zero (h : ns.Sound) {k : Key} {b : Binding} (hv : ns.view k = some b) :
    ns.Ahead 0 k b := by
  cases hl : ns.bindings.lookup k with
  | some s =>
    obtain ⟨i, hs, hk⟩ := h.arena.lookup_eq_some_iff.mp hl
    exact .inl ⟨s, i, hs, hk, Nat.zero_le i⟩
  | none => exact ahead_of_snapBinding ((view_of_lookup_none hl).symm.trans hv) (Nat.zero_le _)

/-- **A page finds what was ahead of it, or leaves it ahead of the next.** -/
theorem Sound.found_or_ahead (h : ns.Sound) {cursor next view : ℕ} {found : List Digest}
    (ha : ns.handleVolumeRoots io cursor = .roots next view found) {k : Key} {b : Binding}
    {d : Digest} (hm : ns.Mounts k b d) (hk : ns.Ahead cursor k b) :
    d ∈ found ∨ (next ≠ 0 ∧ ns.Ahead next k b) := by
  obtain ⟨-, hpage⟩ := of_handleVolumeRoots ha
  rcases hk with ⟨s, i, hs, hsk, hlo⟩ | ⟨g, i, r, hg, hr, hb, hlo⟩
  · have hlt := Arena.lt_of_mem_occupied hs
    obtain ⟨o, ho, hin⟩ | ⟨hnext, hle⟩ := hpage i hlo (by omega)
    · have hview := view_of_lookup (h.arena.lookup_eq_some_iff.mpr ⟨i, hs, hsk⟩)
      rw [hm.view, Option.some.injEq] at hview
      rw [rootAt_slot hs, ← hview, hm.root] at ho
      cases ho
      exact .inl (hin d rfl)
    · exact .inr ⟨hnext, .inl ⟨s, i, hs, hsk, hle⟩⟩
  · have hlt : i < g.count := (List.getElem?_eq_some_iff.mp hr).1
    obtain ⟨o, ho, hin⟩ | ⟨hnext, hle⟩ := hpage (L.namespaceSlots + i) hlo (by
      rw [hg, Option.map_some, Option.getD_some]
      omega)
    · rw [rootAt_record hg hr ho, hb] at hin
      exact .inl (hin d hm.root)
    · exact .inr ⟨hnext, .inr ⟨g, i, r, hg, hr, hb, hle⟩⟩

end Namespace

/-! ## What happens between two pages -/

/-- An uncovered slot stays, and stays its key's. -/
theorem Arena.Trace.stays {L : Limits} {a a' : Arena L} {ws : List SlotWrite} {i : ℕ}
    {s : BindingSlot} (h : a.Trace ws a') (hs : (s, i) ∈ a.occupied) (hc : s.snapshotted = false) :
    ∃ t, (t, i) ∈ a'.occupied ∧ t.toKey = s.toKey ∧ t.snapshotted = false := by
  induction h with
  | nothing => exact ⟨s, hs, rfl, hc⟩
  | @stamp ws j b x hd hj hx hxc hk ih =>
    obtain ⟨t, ht, htk, htc⟩ := ih
    by_cases hij : i = j
    · subst hij
      refine ⟨x, ?_, (hk t ht).symm.trans htk, hxc⟩
      rw [occupied_stamped, mem_occupied_setSlot hj]
      exact .inl ⟨rfl, rfl⟩
    · refine ⟨t, ?_, htk, htc⟩
      rw [occupied_stamped, mem_occupied_setSlot hj]
      exact .inr ⟨hij, ht⟩
  | @amend ws j b x y hd hx _ hk _ hyc ih =>
    obtain ⟨t, ht, htk, htc⟩ := ih
    by_cases hij : i = j
    · subst hij
      obtain rfl := eq_of_mem_occupied ht hx
      exact ⟨y, (mem_occupied_setSlot (lt_of_mem_occupied hx)).mpr (.inl ⟨rfl, rfl⟩),
        hk.trans htk, hyc.trans htc⟩
    · exact ⟨t, (mem_occupied_setSlot (lt_of_mem_occupied hx)).mpr (.inr ⟨hij, ht⟩), htk, htc⟩
  | @free ws j b x hd hx hxc ih =>
    obtain ⟨t, ht, htk, htc⟩ := ih
    refine ⟨t, ?_, htk, htc⟩
    rw [occupied_forgetChange, mem_occupied_setSlot (lt_of_mem_occupied hx)]
    refine .inr ⟨?_, ht⟩
    rintro rfl
    rw [eq_of_mem_occupied ht hx, hxc] at htc
    cases htc

namespace Namespace

variable {L : Limits} {ns ns' : Namespace L} {k k' : Key} {b b' : Binding}

/-- A volume that is there after another binding was put was there before. -/
theorem volume_of_update {v : Key → Option Binding}
    (h : Function.update v k' (some b') k = some b) (hb : b.kind = kindVolume)
    (hb' : b'.kind ≠ kindVolume) : v k = some b := by
  by_cases hk : k = k'
  · subst hk
    rw [Function.update_self, Option.some.injEq] at h
    exact absurd (h ▸ hb) hb'
  · rwa [Function.update_of_ne hk] at h

theorem kindTombstone_ne : kindTombstone ≠ kindVolume := by decide

/-- A provider call binds no volume. -/
theorem SurfaceOutcome.volume_of {now : UInt64} {op : SurfaceOp} {res : Except Errno Unit}
    (ho : ns.SurfaceOutcome now op ns' res) (hv : ns'.view k = some b)
    (hb : b.kind = kindVolume) : ns.view k = some b := by
  cases ho with
  | refused op e a' _ _ hsame => rwa [hsame] at hv
  | found => exact hv
  | bound path kind replace target rev a' hkind _ _ _ _ hw =>
    rw [view_writes hw] at hv
    exact volume_of_update hv hb hkind
  | deleted path s a' _ _ _ hw =>
    rw [view_writes hw] at hv
    exact volume_of_update hv hb kindTombstone_ne
  | renamed source dest src a' _ hopen _ hl hlive _ _ _ hsame =>
    rw [hsame] at hv
    refine volume_of_update (volume_of_update hv hb fun hkind => ?_) hb kindTombstone_ne
    have hsrc := hopen.1
    rw [view_of_lookup hl] at hsrc
    change src.kind = kindVolume at hkind
    simp [isVolume, hlive, hkind] at hsrc

/-- Nor does a record, while no flush is open. -/
theorem volume_of_after {r : Record} (hls : ns.leases.Sound) (hq : ns.leases.Quiet)
    (hw : r.fromWire = true) (hv : ns.after (ns.judged r).effect k = some b)
    (hb : b.kind = kindVolume) : ns.view k = some b := by
  by_cases hr : ∀ m, r ≠ .volume m
  · have hvol : isVolume (some b) = true := by
      simp [isVolume, Binding.live, hb, kindTombstone_ne.symm]
    rw [← judged_keepsVolumes hw hr k (.inr (hv ▸ hvol))]
    exact hv
  push Not at hr
  obtain ⟨m, rfl⟩ := hr
  cases he : (ns.judged (.volume m)).effect with
  | keep =>
    rw [he] at hv
    exact hv
  | move m => cases (rename_of_judge he).1
  | put k' b' =>
    rw [he] at hv
    cases puts_of_judge he with
    | delete m leases' hdec hj => exact volume_of_update hv hb kindTombstone_ne
    | commit m leases' next hdec hj =>
      -- A commit needs a flush that is open.
      obtain ⟨-, -, -, -, -, -, t, hto, -, hfl, -⟩ := of_judgeVolumeAt_commit hj
      have hopen := hls.isFlushing_of_touch hto hfl
      rw [hq.isFlushing] at hopen
      cases hopen

end Namespace

namespace Node

variable {L : Limits} {n : Node L} {objectId : Bytes} {e : Event} {k : Key} {b : Binding}

/-- No event but a crash takes an uncovered slot from its key. -/
theorem Coherent.slot_stays (h : n.Coherent) (he : e ≠ .crash) {s : BindingSlot} {i : ℕ}
    (hs : (s, i) ∈ n.ns.bindings.occupied) (hc : s.snapshotted = false) :
    ∃ t, (t, i) ∈ (n.step e).ns.bindings.occupied ∧ t.toKey = s.toKey := by
  obtain ⟨ws, ht, -⟩ | ⟨-, tag, hf⟩ := h.trace he
  · obtain ⟨t, ht, hk, -⟩ := ht.stays hs hc
    exact ⟨t, ht, hk⟩
  · rw [hf]
    exact ⟨s.promote tag, Arena.mem_occupied_finalizeEmitted.mpr ⟨s, hs, rfl⟩,
      Arena.toKey_promote tag⟩

/-- A generation that is switched to has a higher number. -/
theorem Coherent.snap_cases (h : n.Coherent) (hc : e ≠ .crash) :
    (n.step e).ns.snap = n.ns.snap ∨ n.ns.snapGen < (n.step e).ns.snapGen := by
  by_cases hs : e = .reopenDone
  · subst hs
    by_cases hp : n.cmp.phase = .reopen
    · refine .inr ?_
      have hsnap : (n.step .reopenDone).ns.snap = some n.written := by
        show n.reopenDone.ns.snap = _
        unfold Node.reopenDone
        rw [if_pos hp]
        exact h.durable hp
      have hgen := (h.target (.inr (.inr (.inr hp)))).1
      simp only [Namespace.snapGen, hsnap, Option.map_some, Option.getD_some, written, hgen,
        nextGeneration]
      cases n.ns.snap with
      | none => exact Nat.zero_lt_one
      | some g => exact Nat.lt_succ_self _
    · refine .inl ?_
      show n.reopenDone.ns.snap = _
      unfold Node.reopenDone
      rw [if_neg hp]
  · exact .inl (h.snap_step hs hc)

/-- **Under a reservation no volume is bound**, nor is one bound to another root. -/
theorem Guards.volume_of_step (h : n.Guards objectId) (hc : e ≠ .crash)
    (hv : (n.step e).ns.view k = some b) (hb : b.kind = kindVolume) : n.ns.view k = some b := by
  by_cases hi : e.internal = true
  · rwa [(h.coherent.internal hi).1] at hv
  cases e with
  | crash => exact absurd rfl hc
  | surface op io now =>
    exact (h.coherent.sound.surfaceOp_outcome h.coherent.fits io now op).volume_of hv hb
  | feed r io proof =>
    rcases h.coherent.feed_view r io proof with hsame | ⟨ht, -, hsame⟩
    · exact hsame ▸ hv
    simp only [takes, Bool.and_eq_true] at ht
    exact Namespace.volume_of_after h.leases h.quiet ht.1.1 ((congrFun hsame k).symm.trans hv) hb
  | _ => exact absurd rfl hi

/-- A volume is seen as it was, and is ahead if it was, unless the generation is another. -/
theorem Guards.mounts_step (h : n.Guards objectId) (hc : e ≠ .crash) {d : Digest}
    (hm : (n.step e).ns.Mounts k b d) : n.ns.Mounts k b d ∧
      ((n.step e).ns.snap = n.ns.snap → ∀ cursor, n.ns.Ahead cursor k b →
        (n.step e).ns.Ahead cursor k b) := by
  have hb : b.kind = kindVolume := by
    by_contra hne
    have hroot := hm.root
    rw [Binding.mapRoot, if_neg hne] at hroot
    cases hroot
  have hview := h.volume_of_step hc hm.view hb
  refine ⟨⟨hview, hm.root⟩, fun hsnap cursor ha => ?_⟩
  rcases ha with ⟨s, i, hs, hk, hlo⟩ | ⟨g, i, r, hg, hr, hrb, hlo⟩
  · cases hcov : s.snapshotted with
    | false =>
      obtain ⟨t, ht, htk⟩ := h.coherent.slot_stays hc hs hcov
      exact .inl ⟨t, i, ht, htk.trans hk, hlo⟩
    | true =>
      -- The records come after the slot, and have the binding.
      have hl := h.coherent.sound.arena.lookup_eq_some_iff.mpr ⟨i, hs, hk⟩
      have hbind := (Namespace.view_of_lookup hl).symm.trans hview
      have hrec := h.coherent.sound.covered k s hl hcov
      rw [hbind, ← hsnap] at hrec
      exact Namespace.ahead_of_snapBinding hrec
        (hlo.trans (Arena.lt_of_mem_occupied hs).le)
  · exact .inr ⟨g, i, r, hsnap.trans hg, hr, hrb, hlo⟩

theorem Guards.mounts_run (h : n.Guards objectId) (hz : fnv1a64 objectId ≠ 0) {later : List Event}
    (hev : ∀ e ∈ later, e.minds objectId = true ∧ e.releases objectId = false) {d : Digest}
    (hm : (n.run later).ns.Mounts k b d) : n.ns.Mounts k b d := by
  induction later generalizing n with
  | nil => exact hm
  | cons e later ih =>
    obtain ⟨hmind, hrel⟩ := hev e List.mem_cons_self
    have hc : e ≠ .crash := by
      rintro rfl
      exact Bool.false_ne_true hmind
    exact (h.mounts_step hc (ih (h.step hz hmind hrel).1
      (fun e' he' => hev e' (List.mem_cons_of_mem e he')) hm)).1

end Node

/-! ## The walk -/

/-- Where the walk stands. -/
inductive WalkStage where
  /-- The next page of roots is asked for. -/
  | page (cursor : ℕ)
  /-- The map root `d` is read, and then the rest of the page. -/
  | root (d : Digest) (rest : List Digest) (next : ℕ)
  /-- The leaf `l` is read, then the root's other leaves, then the rest of the page. -/
  | leaf (l : Digest) (ls rest : List Digest) (next : ℕ)
  | kept
  /-- Nothing is left: the body is removed. -/
  | done
deriving DecidableEq

/-- The next root of the page, or the next page, or the end (`gc_walk_next_root`). -/
def nextRoot : List Digest → ℕ → WalkStage
  | d :: rest, next => .root d rest next
  | [], 0 => .done
  | [], next + 1 => .page (next + 1)

/-- The next leaf that was written, or the next root (`gc_walk_next_leaf`). -/
def nextLeaf : List Digest → List Digest → ℕ → WalkStage
  | [], rest, next => nextRoot rest next
  | l :: ls, rest, next =>
    if l = Digest.zero then nextLeaf ls rest next else .leaf l ls rest next

/-- A root page is read, or not (`gc_apply_map_root`). -/
def applyMapRoot (candidate : Digest) (page : Option Bytes) (rest : List Digest) (next : ℕ) :
    WalkStage :=
  match page.bind decodeRoot with
  | none => .kept
  | some root =>
    if namesDigest root.children candidate then .kept
    else if root.depth = 1 then nextRoot rest next
    else nextLeaf root.leaves rest next

/-- A leaf page is read, or not (`gc_apply_map_leaf`). -/
def applyMapLeaf (candidate : Digest) (page : Option Bytes) (ls rest : List Digest) (next : ℕ) :
    WalkStage :=
  match page.bind decodeLeaf with
  | none => .kept
  | some leaf =>
    if namesDigest leaf.digests candidate then .kept else nextLeaf ls rest next

/-- A walk for a body that may be removed, and the instance it asks. -/
structure MapWalk (L : Limits) where
  node : Node L
  candidate : Digest
  /-- The generation of the first page (`gc_walk_view`). -/
  view : Option ℕ
  stage : WalkStage

/-- What happens. -/
inductive WalkMove where
  | event (e : Event)
  /-- The page that is asked for is answered. -/
  | page (io : ReadEnv)
  /-- The body that is asked for is answered, or refused. -/
  | body (found : Bool)

namespace MapWalk

variable {L : Limits} {n : Node L} {w : MapWalk L} {objectId : Bytes} {body : Digest → Bytes}
  {c d : Digest}

/-- The sweep has found no name, and begins to walk (`gc_walk_begin`). -/
def begin (n : Node L) (candidate : Digest) : MapWalk L := ⟨n, candidate, none, .page 0⟩

/-- What is made of a page of roots (`gc_apply_roots`). -/
def applyRoots (w : MapWalk L) : RootsAnswer → MapWalk L
  | .again => w
  | .refused => { w with stage := .kept }
  | .roots next view found =>
    if w.view.any (· != view) then { w with stage := .kept }
    else { w with view := some view, stage := nextRoot found next }

/-- One step. -/
def step (body : Digest → Bytes) (w : MapWalk L) : WalkMove → MapWalk L
  | .event e => { w with node := w.node.step e }
  | .page io =>
    match w.stage with
    | .page cursor => w.applyRoots (w.node.ns.handleVolumeRoots io cursor)
    | _ => w
  | .body found =>
    match w.stage with
    | .root d rest next =>
      { w with
        stage := applyMapRoot w.candidate (if found then some (body d) else none) rest next }
    | .leaf l ls rest next =>
      { w with
        stage := applyMapLeaf w.candidate (if found then some (body l) else none) ls rest next }
    | _ => w

/-- An answer, or an event that may come between two: not a crash, not the release of the
reservation, and not a provider bind of the object. -/
def minds (objectId : Bytes) : WalkMove → Bool
  | .event e => e.minds objectId && !e.releases objectId
  | _ => true

/-! ## What a walk has seen -/

/-- The map is seen, or is still to be: it is among the roots of the page, or is spared if the
leaves that are left are. -/
def Sees (body : Digest → Bytes) (c d : Digest) : WalkStage → Prop
  | .page _ => SparedBy body c d
  | .root d' rest _ => SparedBy body c d ∨ d ∈ d' :: rest
  | .leaf l ls rest _ => SparedBy body c d ∨ d ∈ rest ∨
      ((∀ l' ∈ l :: ls, l' ≠ Digest.zero → SparedByLeaf body c l') → SparedBy body c d)
  | .kept => True
  | .done => SparedBy body c d

/-- Where the next page begins, if there is one. -/
def upcoming : WalkStage → Option ℕ
  | .page cursor => some cursor
  | .root _ _ next | .leaf _ _ _ next => if next = 0 then none else some next
  | .kept | .done => none

theorem sees_nextRoot {rest : List Digest} {next : ℕ} (h : SparedBy body c d ∨ d ∈ rest) :
    Sees body c d (nextRoot rest next) := by
  cases rest with
  | nil =>
    have hd := h.resolve_right List.not_mem_nil
    cases next <;> exact hd
  | cons d' rest => exact h

theorem upcoming_nextRoot (rest : List Digest) (next : ℕ) :
    upcoming (nextRoot rest next) = if next = 0 then none else some next := by
  cases rest with
  | nil => cases next <;> rfl
  | cons d' rest => rfl

theorem sees_nextLeaf {ls rest : List Digest} {next : ℕ} (h : SparedBy body c d ∨ d ∈ rest ∨
    ((∀ l ∈ ls, l ≠ Digest.zero → SparedByLeaf body c l) → SparedBy body c d)) :
    Sees body c d (nextLeaf ls rest next) := by
  induction ls with
  | nil =>
    rcases h with h | h | h
    · exact sees_nextRoot (.inl h)
    · exact sees_nextRoot (.inr h)
    · exact sees_nextRoot (.inl (h fun l hl => absurd hl List.not_mem_nil))
  | cons l ls ih =>
    unfold nextLeaf
    split
    · next hz =>
      refine ih (h.imp_right (Or.imp_right fun h' hall => h' fun l' hl' hne => ?_))
      rcases List.mem_cons.mp hl' with rfl | hl'
      · exact absurd hz hne
      · exact hall l' hl' hne
    · exact h

theorem upcoming_nextLeaf (ls rest : List Digest) (next : ℕ) :
    upcoming (nextLeaf ls rest next) = if next = 0 then none else some next := by
  induction ls with
  | nil => exact upcoming_nextRoot rest next
  | cons l ls ih =>
    unfold nextLeaf
    split
    · exact ih
    · rfl

/-- **A root page that is read** is of a map that names the body not, or leaves its leaves. -/
theorem sees_applyMapRoot {d' : Digest} {rest : List Digest} {next : ℕ} (found : Bool)
    (h : Sees body c d (.root d' rest next)) :
    Sees body c d (applyMapRoot c (if found then some (body d') else none) rest next) := by
  cases found with
  | false => exact trivial
  | true =>
    unfold applyMapRoot
    rw [if_pos rfl, Option.bind_some]
    cases hdec : decodeRoot (body d') with
    | none => exact trivial
    | some root =>
      dsimp only
      cases hnames : namesDigest root.children c with
      | true => exact trivial
      | false =>
        have hchild : ∀ i, root.child i ≠ some c := digestAt_ne hnames
        rw [if_neg (by decide)]
        split
        · next hone =>
          refine sees_nextRoot (h.elim .inl fun hd => ?_)
          rcases List.mem_cons.mp hd with rfl | hd
          · refine .inl fun root' hdec' => ?_
            cases hdec.symm.trans hdec'
            exact ⟨hchild, fun hne => absurd hone hne⟩
          · exact .inr hd
        · have hleaves : ∀ i l, root.child i = some l → l ∈ root.leaves :=
            fun i l hl => RootPage.mem_leaves hdec hl
          generalize root.leaves = ls at hleaves
          refine sees_nextLeaf (h.imp_right fun hd => ?_)
          rcases List.mem_cons.mp hd with rfl | hd
          · refine .inr fun hall root' hdec' => ?_
            cases hdec.symm.trans hdec'
            exact ⟨hchild, fun _ i l hl => hall l (hleaves i l hl)⟩
          · exact .inl hd

/-- **A leaf page that is read** does not name the body either. -/
theorem sees_applyMapLeaf {l : Digest} {ls rest : List Digest} {next : ℕ} (found : Bool)
    (h : Sees body c d (.leaf l ls rest next)) :
    Sees body c d (applyMapLeaf c (if found then some (body l) else none) ls rest next) := by
  cases found with
  | false => exact trivial
  | true =>
    unfold applyMapLeaf
    rw [if_pos rfl, Option.bind_some]
    cases hdec : decodeLeaf (body l) with
    | none => exact trivial
    | some leaf =>
      dsimp only
      cases hnames : namesDigest leaf.digests c with
      | true => exact trivial
      | false =>
        rw [if_neg (by decide)]
        refine sees_nextLeaf (h.imp_right (Or.imp_right fun h' hall => h' fun l' hl' hne => ?_))
        rcases List.mem_cons.mp hl' with rfl | hl'
        · intro leaf' hdec'
          cases hdec.symm.trans hdec'
          exact digestAt_ne hnames
        · exact hall l' hl' hne

/-- **What a walk keeps.** Every volume's map is seen, or its root is ahead of the page that is
to come, as long as the generation is the one the walk began with. -/
structure Walks (body : Digest → Bytes) (objectId : Bytes) (w : MapWalk L) : Prop where
  guards : w.node.Guards objectId
  first : w.view = none → w.stage = .page 0 ∨ w.stage = .kept
  behind : ∀ v ∈ w.view, v ≤ w.node.ns.snapGen
  covers : (∀ v ∈ w.view, v = w.node.ns.snapGen) → ∀ k b d, w.node.ns.Mounts k b d →
    Sees body w.candidate d w.stage ∨ ∃ cursor ∈ upcoming w.stage, w.node.ns.Ahead cursor k b
  /-- After the last page it does not matter which generation there is. -/
  ended : upcoming w.stage = none → ∀ k b d, w.node.ns.Mounts k b d →
    Sees body w.candidate d w.stage

theorem walks_begin (h : n.Guards objectId) : Walks body objectId (begin n c) where
  guards := h
  first := fun _ => .inl rfl
  behind := fun _ hv => nomatch hv
  covers := fun _ _ _ _ hm => .inr ⟨0, rfl, h.coherent.sound.ahead_zero hm.view⟩
  ended := fun he => nomatch he

/-- A walk that is given up claims nothing. -/
theorem Walks.keep (h : Walks body objectId w) :
    Walks body objectId { w with stage := .kept } :=
  ⟨h.guards, fun _ => .inr rfl, h.behind, fun _ _ _ _ _ => .inl trivial, fun _ _ _ _ _ => trivial⟩

theorem Walks.event (h : Walks body objectId w) (hz : fnv1a64 objectId ≠ 0) {e : Event}
    (he : minds objectId (.event e) = true) : Walks body objectId (w.step body (.event e)) := by
  simp only [minds, Bool.and_eq_true, Bool.not_eq_true'] at he
  have hc : e ≠ .crash := by
    rintro rfl
    exact Bool.false_ne_true he.1
  have hsound := (h.guards.coherent.step e).sound
  have hmounts := fun {k b d} => h.guards.mounts_step (k := k) (b := b) hc (d := d)
  refine ⟨(h.guards.step hz he.1 he.2).1, h.first, fun v hv => ?_, fun hgen k b d hm => ?_,
    fun hend k b d hm => h.ended hend k b d (hmounts hm).1⟩
  · rcases h.guards.coherent.snap_cases hc with hs | hlt
    · show v ≤ (w.node.step e).ns.snapGen
      rw [Namespace.snapGen, hs]
      exact h.behind v hv
    · exact (h.behind v hv).trans hlt.le
  · obtain ⟨hold, hahead⟩ := hmounts hm
    rcases h.guards.coherent.snap_cases hc with hs | hlt
    · have hsame : (w.node.step e).ns.snapGen = w.node.ns.snapGen := by
        rw [Namespace.snapGen, hs, Namespace.snapGen]
      refine (h.covers (fun v hv => (hgen v hv).trans hsame) k b d hold).imp_right ?_
      rintro ⟨cursor, hcur, ha⟩
      exact ⟨cursor, hcur, hahead hs cursor ha⟩
    · -- Another generation: the walk has not asked yet, or will see that it is another.
      cases hview : w.view with
      | some v =>
        have hle := h.behind v hview
        have heq : v = (w.node.step e).ns.snapGen := hgen v hview
        omega
      | none =>
        rcases h.first hview with hst | hst
        · refine .inr ⟨0, ?_, hsound.ahead_zero hm.view⟩
          show _ ∈ upcoming w.stage
          rw [hst]
          rfl
        · refine .inl ?_
          show Sees body w.candidate d w.stage
          rw [hst]
          trivial

theorem Walks.page (h : Walks body objectId w) (io : ReadEnv) :
    Walks body objectId (w.step body (.page io)) := by
  unfold step
  dsimp only
  split
  swap
  · exact h
  next cursor hst =>
  generalize hans : w.node.ns.handleVolumeRoots io cursor = ans
  cases ans with
  | again => exact h
  | refused => exact h.keep
  | roots next view found =>
    obtain ⟨rfl, -⟩ := Namespace.of_handleVolumeRoots hans
    unfold applyRoots
    dsimp only
    split
    · exact h.keep
    next hany =>
    have hsame : ∀ v ∈ w.view, v = w.node.ns.snapGen := fun v hv => by
      rw [Option.mem_def] at hv
      rw [hv] at hany
      simpa using hany
    have hsees : ∀ k b d, w.node.ns.Mounts k b d →
        Sees body w.candidate d (nextRoot found next) ∨
          (next ≠ 0 ∧ w.node.ns.Ahead next k b) := by
      intro k b d hm
      have hcov := h.covers hsame k b d hm
      rw [hst] at hcov
      rcases hcov with hspared | ⟨cursor', hcur, ha⟩
      · exact .inl (sees_nextRoot (.inl hspared))
      cases hcur
      exact (h.guards.coherent.sound.found_or_ahead hans hm ha).imp_left
        fun hd => sees_nextRoot (.inr hd)
    refine ⟨h.guards, nofun, ?_, fun _ k b d hm => ?_, fun hend k b d hm => ?_⟩
    · rintro v ⟨⟩
      exact Nat.le_refl _
    · refine (hsees k b d hm).imp_right fun ⟨hne, ha⟩ => ⟨next, ?_, ha⟩
      rw [upcoming_nextRoot, if_neg hne]
      rfl
    · refine (hsees k b d hm).resolve_right fun ⟨hne, _⟩ => ?_
      rw [upcoming_nextRoot, if_neg hne] at hend
      cases hend

/-- The walk goes on from one body to the next. -/
theorem Walks.advance (h : Walks body objectId w) {st : WalkStage}
    (hfirst : w.stage ≠ .page 0 ∧ w.stage ≠ .kept)
    (hsees : ∀ d, Sees body w.candidate d w.stage → Sees body w.candidate d st)
    (hup : st = .kept ∨ upcoming st = upcoming w.stage) :
    Walks body objectId { w with stage := st } := by
  obtain rfl | hup := hup
  · exact h.keep
  · refine ⟨h.guards, fun hv => ?_, h.behind, fun hgen k b d hm => ?_, fun hend k b d hm => ?_⟩
    · exact absurd (h.first hv) (by simp [hfirst.1, hfirst.2])
    · refine (h.covers hgen k b d hm).imp (hsees d) fun ⟨cursor, hcur, ha⟩ => ⟨cursor, ?_, ha⟩
      rw [hup]
      exact hcur
    · exact hsees d (h.ended (hup.symm.trans hend) k b d hm)

theorem Walks.answer (h : Walks body objectId w) (found : Bool) :
    Walks body objectId (w.step body (.body found)) := by
  unfold step
  dsimp only
  split
  · next d' rest next hst =>
    refine h.advance ⟨by rw [hst]; nofun, by rw [hst]; nofun⟩ (fun d hs => ?_) ?_
    · rw [hst] at hs
      exact sees_applyMapRoot found hs
    · unfold applyMapRoot
      split
      · exact .inl rfl
      split
      · exact .inl rfl
      split
      · exact .inr (by rw [upcoming_nextRoot, hst]; rfl)
      · exact .inr (by rw [upcoming_nextLeaf, hst]; rfl)
  · next l ls rest next hst =>
    refine h.advance ⟨by rw [hst]; nofun, by rw [hst]; nofun⟩ (fun d hs => ?_) ?_
    · rw [hst] at hs
      exact sees_applyMapLeaf found hs
    · unfold applyMapLeaf
      split
      · exact .inl rfl
      split
      · exact .inl rfl
      · exact .inr (by rw [upcoming_nextLeaf, hst]; rfl)
  · exact h

/-- A run of them. -/
theorem Walks.run (h : Walks body objectId w) (hz : fnv1a64 objectId ≠ 0) {ms : List WalkMove}
    (hms : ∀ m ∈ ms, minds objectId m = true) :
    Walks body objectId (Run.run (step body) w ms) := by
  induction ms generalizing w with
  | nil => exact h
  | cons m ms ih =>
    have hm := hms m List.mem_cons_self
    refine ih ?_ fun m' hm' => hms m' (List.mem_cons_of_mem m hm')
    cases m with
    | event e => exact h.event hz hm
    | page io => exact h.page io
    | body found => exact h.answer found

theorem candidate_run (body : Digest → Bytes) (w : MapWalk L) (ms : List WalkMove) :
    (Run.run (step body) w ms).candidate = w.candidate := by
  refine Run.invariant_all (I := fun w' : MapWalk L => w'.candidate = w.candidate)
    (fun w' m hw => ?_) rfl ms
  unfold step
  split
  · exact hw
  · split
    · unfold applyRoots
      split
      · exact hw
      · exact hw
      · split <;> exact hw
    · exact hw
  · split <;> exact hw

/-- **A body that the walk lets go is in no volume.** From a reachable state in which a reservation
stands and no flush is open, the maps of the volumes are walked for a body. Records, provider calls,
evictions, the steps of a compaction and its switch to another generation may come between the
answers. If the walk comes to its end, no map that a volume is bound to names the body, in its root
page or in a leaf, and none will as long as the reservation stands. -/
theorem walk_spares (body : Digest → Bytes) (cfg : Bool) (es : List Event) (objectId : Bytes)
    (hz : fnv1a64 objectId ≠ 0)
    (hres : (Node.reached L cfg es).ns.isReserved objectId = true)
    (hquiet : (Node.reached L cfg es).ns.leases.anyFlushing = false) (candidate : Digest)
    (ms : List WalkMove) (hms : ∀ m ∈ ms, minds objectId m = true)
    (hdone : (Run.run (step body) (begin (Node.reached L cfg es) candidate) ms).stage = .done)
    (later : List Event)
    (hlater : ∀ e ∈ later, e.minds objectId = true ∧ e.releases objectId = false)
    (k : Key) (b : Binding) (d : Digest)
    (hm : ((Run.run (step body) (begin (Node.reached L cfg es) candidate) ms).node.run
      later).ns.Mounts k b d) : SparedBy body candidate d := by
  have hg : (Node.reached L cfg es).Guards objectId :=
    ⟨Node.coherent_reached cfg es, Node.leases_sound_reached cfg es, hres,
      LeaseTable.anyFlushing_eq_false_iff.mp hquiet⟩
  have hw : Walks body objectId
      (Run.run (step body) (begin (Node.reached L cfg es) candidate) ms) :=
    (walks_begin hg).run hz hms
  have hmount := hw.guards.mounts_run hz hlater hm
  have hseen := hw.ended (by rw [hdone]; rfl) k b d hmount
  rw [hdone, candidate_run] at hseen
  exact hseen

section Sample

/-- A map of depth 2, of which the second leaf was written. -/
def samplePage : Bytes :=
  (encodeRoot ⟨List.replicate 16 9, rfl⟩ 4097 4
    [Digest.zero, ⟨List.replicate 32 0x22, rfl⟩]).getD []

def sampleBody (d : Digest) : Bytes :=
  if d.val = List.replicate 32 0x22 then
    (encodeLeaf 1024 [⟨List.replicate 32 6, rfl⟩]).getD []
  else samplePage

/-- A body that no map names. -/
def sampleId : Bytes := idPrefix ++ List.replicate 64 0x35

/-- The binding of a volume over that map. -/
def sampleVolume : VolumeMsg :=
  ⟨.commit, surfaceKey Node.examplePath, idPrefix ++ List.replicate 64 0x31, [7], 1, 0, 3⟩

/-- A volume is flushed and two names are bound; a generation of the three is
switched to, and the body is reserved. -/
def sampleEvents : List Event :=
  [Node.fed (.lease ⟨1, surfaceKey Node.examplePath, [7], 1, 1000⟩),
    Node.fed (Node.exampleVolume .start 2), Node.fed (.volume sampleVolume)] ++
    Node.exampleFiles 2 ++ Node.exampleCompaction 3 ++ [Node.fed (.gcReserve sampleId 4)]

/-- The generation and the arena both list the volume; between a root and its leaf
a name is deleted. -/
def sampleMoves : List WalkMove :=
  [.page .allReady, .body true, .event (.surface (.delete [1]) .allReady 5), .body true,
    .body true, .body true]

theorem walk_spares_volume :
    SparedBy sampleBody ⟨List.replicate 32 0x55, rfl⟩ ⟨List.replicate 32 0x11, rfl⟩ :=
  walk_spares (L := Node.fourSlots) _ true sampleEvents sampleId (by decide +kernel) (by decide +kernel)
    (by decide +kernel) _ sampleMoves (by decide) (by decide +kernel) [] (by decide)
    sampleVolume.key (sampleVolume.root 1) _ ⟨by decide +kernel, by decide +kernel⟩

end Sample

end MapWalk

end Loam

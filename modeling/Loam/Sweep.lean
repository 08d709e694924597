import Loam.Reservations
import Loam.SnapshotTier

/-!
# What a sweep proves

Before it takes a body away, a sweep asks the namespace whether any binding names it. The arena is
looked through at once and the open generation a page at a time, from a cursor that the answer hands
back. The answer is thus put together from several states of the namespace, between which records
and provider calls are applied, slots are evicted and a compaction goes on.

It is true of the last of them, and stays so (`unreferenced_stays`). The reservation keeps the body
from being bound, no flush is open when the first page is answered, and a name is only ever moved:
what names the body later comes from a record of the generation that some page has read. One thing
does not go with this, a generation that is switched to between two pages. A key that was renamed
before it may be written there behind the cursor.
-/

namespace Loam

/-- The records that one answer looks at (`REF_SCAN_PER_CALL`). -/
def refScanPerCall : ℕ := 128

namespace Snapshot

variable {snap : Snapshot} {io : ReadEnv} {wanted : SnapRecord → Bool}

/-- Look for a record among the next ones from `idx`. -/
def scan (snap : Snapshot) (io : ReadEnv) (wanted : SnapRecord → Bool) : ℕ → ℕ → SnapRead Bool
  | 0, _ => .ready false
  | fuel + 1, idx =>
    match snap.readAt io idx with
    | .pending => .pending
    | .failed => .failed
    | .ready r => if wanted r then .ready true else scan snap io wanted fuel (idx + 1)

/-- A scan that finds none has read them all. -/
theorem of_scan {fuel idx : ℕ} (h : snap.scan io wanted fuel idx = .ready false) {i : ℕ}
    (hlo : idx ≤ i) (hhi : i < idx + fuel) {r : SnapRecord} (hr : snap.records[i]? = some r) :
    wanted r = false := by
  induction fuel generalizing idx with
  | zero => omega
  | succ fuel ih =>
    unfold scan at h
    split at h
    · cases h
    · cases h
    next r' hread =>
    split at h
    · cases h
    next hw =>
    obtain rfl | hlt := Nat.eq_or_lt_of_le hlo
    · rw [readAt_eq_ready hread, Option.some.injEq] at hr
      subst hr
      simpa using hw
    · exact ih h hlt (by omega)

end Snapshot

/-- The record counts as a reference: it is live, and of the object or without the bytes of its
id. -/
def SnapRecord.mayName (objectId : Bytes) (r : SnapRecord) : Bool :=
  r.live && (r.objectId.isEmpty || r.objectId == objectId)

/-- What a page answers. -/
inductive RefAnswer where
  /-- A record is being fetched: the page is asked again. -/
  | again
  | referenced
  /-- Nothing was found, and this is where the next page begins, 0 after the last. -/
  | unreferenced (next : ℕ)
deriving DecidableEq

namespace Namespace

variable {L : Limits} {ns : Namespace L} {objectId : Bytes} {k : Key}

/-- A page of the question whether an object is bound (`handle_referenced`). While a flush is open
every object is: its commit is about to bind bodies that no binding names yet. -/
def handleReferenced (ns : Namespace L) (io : ReadEnv) (cursor : ℕ) (objectId : Bytes) :
    RefAnswer :=
  if ns.leases.anyFlushing || (cursor == 0 && ns.bindings.objectIdReferenced objectId) then
    .referenced
  else match ns.snap with
    | none => .unreferenced 0
    | some g =>
      let stop := min (cursor + refScanPerCall) g.count
      match g.scan io (SnapRecord.mayName objectId) (stop - cursor) cursor with
      | .pending => .again
      -- what cannot be read may name it
      | .failed => .referenced
      | .ready true => .referenced
      | .ready false => .unreferenced (if stop < g.count then stop else 0)

/-- What is read up to a page's end, it having found nothing. -/
theorem of_handleReferenced {io : ReadEnv} {cursor next : ℕ}
    (h : ns.handleReferenced io cursor objectId = .unreferenced next) {g : Snapshot}
    (hg : ns.snap = some g) {i : ℕ} (hlo : cursor ≤ i)
    (hhi : i < if next = 0 then g.count else next) {r : SnapRecord} (hr : g.records[i]? = some r) :
    r.mayName objectId = false := by
  unfold handleReferenced at h
  split at h
  · cases h
  rw [hg] at h
  dsimp only at h
  split at h <;> cases h
  next hscan =>
  have hpage : 0 < refScanPerCall := by decide
  have hcount : i < g.count := (List.getElem?_eq_some_iff.mp hr).1
  refine Snapshot.of_scan hscan hlo ?_ hr
  by_cases hstop : min (cursor + refScanPerCall) g.count < g.count
  · rw [if_pos hstop, if_neg (by omega)] at hhi
    omega
  · omega

/-- A page that does not find it referenced was answered with no flush open. -/
theorem quiet_of_handleReferenced {io : ReadEnv} {cursor : ℕ}
    (h : ns.handleReferenced io cursor objectId ≠ .referenced) : ns.leases.anyFlushing = false := by
  unfold handleReferenced at h
  split at h
  · exact absurd rfl h
  next hf =>
  simp only [Bool.or_eq_true, not_or, Bool.not_eq_true] at hf
  exact hf.1

/-- And the first page with no slot that names it. -/
theorem arena_of_handleReferenced {io : ReadEnv}
    (h : ns.handleReferenced io 0 objectId ≠ .referenced) :
    ns.bindings.objectIdReferenced objectId = false := by
  unfold handleReferenced at h
  split at h
  · exact absurd rfl h
  next hf =>
  simp only [beq_self_eq_true, Bool.true_and, Bool.or_eq_true, not_or, Bool.not_eq_true] at hf
  exact hf.2

/-- **An object that neither tier names has no name.** -/
theorem names_eq_empty (h : ns.Sound) (harena : ns.bindings.objectIdReferenced objectId = false)
    (hsnap : ∀ g, ns.snap = some g → ∀ r ∈ g.records, r.mayName objectId = false) :
    ns.names objectId = ∅ := by
  refine Set.eq_empty_of_forall_notMem ?_
  rintro k ⟨b, hb, hl, ho⟩
  cases hlk : ns.bindings.lookup k with
  | some s =>
    rw [view_of_lookup hlk, Option.some.injEq] at hb
    subst hb
    obtain ⟨i, hs, -⟩ := h.arena.lookup_eq_some_iff.mp hlk
    have hn := List.any_eq_false.mp harena _ hs
    have hhash := s.oid_hashed (by simpa [Binding.live] using hl)
    simp [hl, ho, hhash] at hn
  | none =>
    rw [view_of_lookup_none hlk, snapBinding, Option.map_eq_some_iff] at hb
    obtain ⟨r, hr, rfl⟩ := hb
    obtain ⟨g, hg, hfind⟩ := Option.bind_eq_some_iff.mp hr
    have hn := hsnap g hg r (SortedTable.mem_of_find hfind)
    simp [SnapRecord.mayName, hl, ho] at hn

end Namespace

namespace Node

variable {L : Limits} {n : Node L}

/-- **Only a switch and a boot open another generation.** -/
theorem Coherent.snap_step (h : n.Coherent) {e : Event} (hs : e ≠ .reopenDone) (hc : e ≠ .crash) :
    (n.step e).ns.snap = n.ns.snap := by
  obtain hi | rfl | ⟨op, io, now, rfl⟩ | ⟨r, io, proof, rfl⟩ := e.cases
  · have hstep := n.internalStep hi
    generalize n.step e = n' at hstep ⊢
    cases hstep with
    | switch he => exact absurd he hs
    | _ => rfl
  · exact absurd rfl hc
  · show (surfaceOp n.ns io now op).1.snap = _
    rw [((h.sound.surfaceOp_outcome h.fits io now op).evolves h.sound).1]
  · obtain hf | ⟨hf, -⟩ := feed_cases n r io proof
    · simp only [Node.step, hf]
    · simp only [Node.step, hf]
      exact h.sound.snap_applyOp io r

end Node

/-! ## The sweep -/

/-- A sweep that asks about an object, and the instance it asks. -/
structure Sweep (L : Limits) where
  node : Node L
  objectId : Bytes
  /-- Where the next page begins (`gc_check_cursor`). -/
  cursor : ℕ
  /-- Whether the object is unreferenced, once that is known. -/
  clear : Option Bool

/-- What happens. -/
inductive SweepMove where
  | event (e : Event)
  /-- The next page is asked for, and answered. -/
  | ask (io : ReadEnv)

namespace Sweep

variable {L : Limits} {n : Node L} {s : Sweep L}

/-- The sweep has taken its reservation, and begins to ask. -/
def begin (n : Node L) (objectId : Bytes) : Sweep L := ⟨n, objectId, 0, none⟩

/-- What is made of an answer (`gc_apply_check`). -/
def heard (s : Sweep L) : RefAnswer → Sweep L
  | .again => s
  | .referenced => { s with cursor := 0, clear := some false }
  | .unreferenced 0 => { s with cursor := 0, clear := some true }
  | .unreferenced (next + 1) => { s with cursor := next + 1 }

/-- One step. -/
def step (s : Sweep L) : SweepMove → Sweep L
  | .event e => { s with node := s.node.step e }
  | .ask io =>
    if s.clear.isSome then s else s.heard (s.node.ns.handleReferenced io s.cursor s.objectId)

/-- A page, or an event that may come between two: not a crash, not a provider bind of the object,
not the release of its reservation, and no switch to another generation. -/
def minds (objectId : Bytes) : SweepMove → Bool
  | .event .reopenDone => false
  | .event e => e.minds objectId && !e.releases objectId
  | .ask _ => true

/-- **What a sweep knows** that the first page, answered at `n`, has not stopped: the reservation
guards the object since, the generation is the same, and what the pages have read of it does not
name the object. -/
structure Knows (n : Node L) (objectId : Bytes) (s : Sweep L) : Prop where
  asks : s.objectId = objectId
  guards : s.node.Guards objectId
  gained : NoneGained (n.ns.names objectId) (s.node.ns.names objectId)
  snap : s.node.ns.snap = n.ns.snap
  /-- The pages so far have read the records before the cursor, and all of them in the end. -/
  read : s.clear ≠ some false → ∀ g, n.ns.snap = some g → ∀ i r, g.records[i]? = some r →
    (s.clear = none → i < s.cursor) → r.mayName objectId = false

variable {objectId : Bytes}

/-- An event between two pages. -/
theorem Knows.event (h : Knows n objectId s) (hz : fnv1a64 objectId ≠ 0) {e : Event}
    (he : minds objectId (.event e) = true) : Knows n objectId (s.step (.event e)) := by
  have hswitch : e ≠ .reopenDone := by
    rintro rfl
    cases he
  have hcrash : e ≠ .crash := by
    rintro rfl
    cases he
  have hboth : e.minds objectId = true ∧ e.releases objectId = false := by
    cases e with
    | reopenDone => cases he
    | _ => simpa [minds] using he
  obtain ⟨hg, hn⟩ := h.guards.step hz hboth.1 hboth.2
  exact ⟨h.asks, hg, h.gained.trans hn,
    (h.guards.coherent.snap_step hswitch hcrash).trans h.snap, h.read⟩

/-- A page. -/
theorem Knows.ask (h : Knows n objectId s) (io : ReadEnv) :
    Knows n objectId (s.step (.ask io)) := by
  by_cases hclear : s.clear.isSome = true
  · rwa [show s.step (.ask io) = s from if_pos hclear]
  have hnone : s.clear = none := by simpa using hclear
  rw [show s.step (.ask io) = s.heard (s.node.ns.handleReferenced io s.cursor s.objectId) from
    if_neg hclear, h.asks]
  generalize hans : s.node.ns.handleReferenced io s.cursor objectId = ans
  have hread : ∀ {next : ℕ}, ans = .unreferenced next → ∀ g, n.ns.snap = some g → ∀ i r,
      g.records[i]? = some r → (i < if next = 0 then g.count else next) →
        r.mayName objectId = false := by
    rintro next rfl g hg i r hr hi
    by_cases hlt : i < s.cursor
    · exact h.read (by simp [hnone]) g hg i r hr fun _ => hlt
    · exact Namespace.of_handleReferenced hans (h.snap.trans hg) (Nat.le_of_not_lt hlt) hi hr
  cases ans with
  | again => exact h
  | referenced => exact ⟨h.asks, h.guards, h.gained, h.snap, fun hc => absurd rfl hc⟩
  | unreferenced next =>
    cases next with
    | zero =>
      refine ⟨h.asks, h.guards, h.gained, h.snap, fun _ g hg i r hr _ => ?_⟩
      exact hread rfl g hg i r hr (List.getElem?_eq_some_iff.mp hr).1
    | succ next =>
      refine ⟨h.asks, h.guards, h.gained, h.snap, fun _ g hg i r hr hi => ?_⟩
      exact hread rfl g hg i r hr (hi hnone)

/-- A run of them. -/
theorem Knows.run (h : Knows n objectId s) (hz : fnv1a64 objectId ≠ 0) {ms : List SweepMove}
    (hms : ∀ m ∈ ms, minds objectId m = true) : Knows n objectId (Run.run step s ms) := by
  induction ms generalizing s with
  | nil => exact h
  | cons m ms ih =>
    have hm := hms m List.mem_cons_self
    refine ih ?_ fun m' hm' => hms m' (List.mem_cons_of_mem m hm')
    cases m with
    | event e => exact h.event hz hm
    | ask io => exact h.ask io

/-- The first page, unless it finds the object referenced. -/
theorem knows_begin (h : n.Coherent) (hls : n.ns.leases.Sound)
    (hres : n.ns.isReserved objectId = true) {io : ReadEnv}
    (hans : n.ns.handleReferenced io 0 objectId ≠ .referenced) :
    Knows n objectId (begin n objectId) where
  asks := rfl
  guards := ⟨h, hls, hres,
    LeaseTable.anyFlushing_eq_false_iff.mp (Namespace.quiet_of_handleReferenced hans)⟩
  gained := .of_subset (Set.Subset.refl _)
  snap := rfl
  read := fun _ _ _ _ _ _ hi => absurd (hi rfl) (Nat.not_lt_zero _)

/-- A sweep that is told it is referenced asks no more. -/
theorem kept_run (hs : s.clear = some false) (ms : List SweepMove) :
    (Run.run step s ms).clear = some false := by
  refine Run.invariant_all (I := fun s : Sweep L => s.clear = some false) (fun s m hs => ?_) hs ms
  cases m with
  | event e => exact hs
  | ask io => simp only [step, hs, Option.isSome_some, if_true]

/-- **What a sweep finds unreferenced stays so.** The object is reserved in a reachable state, and
asked about page by page. Records, provider calls, evictions and the steps of a compaction may come
between the pages, but no switch to another generation. If the last page finds nothing, no key is
bound to the object, in either tier, and none will be as long as the reservation stands. -/
theorem unreferenced_stays (cfg : Bool) (es : List Event) (objectId : Bytes)
    (hz : fnv1a64 objectId ≠ 0)
    (hres : (Node.reached L cfg es).ns.isReserved objectId = true) (io : ReadEnv)
    (ms : List SweepMove) (hms : ∀ m ∈ ms, minds objectId m = true)
    (hclear : (Run.run step (begin (Node.reached L cfg es) objectId) (.ask io :: ms)).clear =
      some true)
    (later : List Event)
    (hlater : ∀ e ∈ later, e.minds objectId = true ∧ e.releases objectId = false) :
    ((Run.run step (begin (Node.reached L cfg es) objectId)
      (.ask io :: ms)).node.run later).ns.names objectId = ∅ := by
  have h := Node.coherent_reached (L := L) cfg es
  have hans : (Node.reached L cfg es).ns.handleReferenced io 0 objectId ≠ .referenced := by
    intro hr
    have hfirst : ((begin (Node.reached L cfg es) objectId).step (.ask io)).clear = some false := by
      simp only [begin, step, Option.isSome_none, Bool.false_eq_true, if_false, hr, heard]
    exact absurd ((kept_run hfirst ms).symm.trans hclear) (by decide)
  have hall : ∀ m ∈ SweepMove.ask io :: ms, minds objectId m = true :=
    List.forall_mem_cons.mpr ⟨rfl, hms⟩
  have hk := (knows_begin h (Node.leases_sound_reached cfg es) hres hans).run hz hall
  have hnone : (Node.reached L cfg es).ns.names objectId = ∅ := by
    refine Namespace.names_eq_empty h.sound (Namespace.arena_of_handleReferenced hans) ?_
    intro g hg r hr
    obtain ⟨i, hi⟩ := List.mem_iff_getElem?.mp hr
    exact hk.read (fun hc => absurd (hclear.symm.trans hc) (by decide)) g hg i r hi
      fun hc => absurd (hclear.symm.trans hc) (by decide)
  obtain ⟨f, hf, -⟩ := (hk.gained.trans (hk.guards.run hz hlater).2).exists_injOn
  refine Set.eq_empty_of_forall_notMem fun k hk' => ?_
  have hmem := hf hk'
  rw [hnone] at hmem
  exact hmem

section Paged

/-- An arena of 130 slots. -/
def pagedSlots : Limits := { Limits.embedded with namespaceSlots := 130 }

/-- The merge of a compaction of 129 names, `k` of them staged. -/
def pagedMerge (k : ℕ) : Node pagedSlots :=
  let key := fun i => (⟨[], [UInt8.ofNat i]⟩ : Key)
  let b : Binding := ⟨1, 0, [1], Meta.none⟩
  let n := Node.init pagedSlots true
  { n with
    ns := { n.ns with bindings :=
      { slots := (List.range 129).map (fun i => some
          { BindingSlot.fresh (key i) b (fnv1a64 [1]) (UInt64.ofNat (i + 1)) fun _ => rfl with
            cmpEmitted := if i < k then 2 else 0 }) ++ [none]
        changeSeq := 129
        changeHorizon := 0
        length_slots := rfl } }
    cmp := ⟨.merge, 1, false, 0, if k = 0 then none else some (key (k - 1)),
      (List.range k).map fun i => ⟨key i, b⟩⟩
    disk := { n.disk with log := (List.range 129).map fun i => .bind ⟨key i, b, .any, 0⟩ } }

/-- A generation of 129 records is switched to, and an object is reserved. -/
def pagedEvents : List Event :=
  Node.exampleFiles 129 ++ Node.exampleCompaction 129 ++ [Node.fed (.gcReserve [2] 3)]

/-- The run up to its last merges, a quarter of the merge at a time. -/
theorem reached_paged : Node.reached pagedSlots true pagedEvents =
    (pagedMerge 128).run (List.replicate 2 (.merge .allReady) ++
      [.finishDone, .reopenDone, .rotate .rotated, Node.fed (.gcReserve [2] 3)]) := by
  have hstart : Node.reached pagedSlots true (Node.exampleFiles 129 ++ [.compactStart, .openDone]) =
      pagedMerge 0 := by decide +kernel
  let quarter : List Event := List.replicate 32 (.merge .allReady)
  have h1 : (pagedMerge 0).run quarter = pagedMerge 32 := by decide +kernel
  have h2 : (pagedMerge 32).run quarter = pagedMerge 64 := by decide +kernel
  have h3 : (pagedMerge 64).run quarter = pagedMerge 96 := by decide +kernel
  have h4 : (pagedMerge 96).run quarter = pagedMerge 128 := by decide +kernel
  have hsplit : pagedEvents = Node.exampleFiles 129 ++ [.compactStart, .openDone] ++ quarter ++
      quarter ++ quarter ++ quarter ++ (List.replicate 2 (.merge .allReady) ++
        [.finishDone, .reopenDone, .rotate .rotated, Node.fed (.gcReserve [2] 3)]) := by
    simp only [pagedEvents, Node.exampleCompaction, List.append_assoc, List.append_cancel_left_eq]
    rfl
  unfold Node.reached Node.run at hstart ⊢
  unfold Node.run at h1 h2 h3 h4
  rw [hsplit]
  simp only [Run.run_append]
  rw [← h4, ← h3, ← h2, ← h1, ← hstart]
  simp only [Run.run_append]

/-- Two pages. Between them a key that the first has passed is bound anew and moved. -/
def pagedMoves : List SweepMove :=
  [.ask .allReady,
    .event (Node.fed (.bind ⟨surfaceKey [5], ⟨2, 0, [3], Meta.none⟩, .any, 0⟩)),
    .event (.surface (.rename [5] [200]) .allReady 4), .ask .allReady]

/-- What comes later: the name is deleted. -/
def pagedLater : List Event := [.surface (.delete [200]) .allReady 5]

/-- An object that is reserved, and that no record of the two pages names. -/
theorem unreferenced_stays_paged :
    ((Run.run step (begin (Node.reached pagedSlots true pagedEvents) [2])
      pagedMoves).node.run pagedLater).ns.names [2] = ∅ :=
  have hpaged : (Node.reached pagedSlots true pagedEvents).ns.isReserved [2] = true ∧
      (Run.run step (begin (Node.reached pagedSlots true pagedEvents) [2]) pagedMoves).clear =
        some true := by
    rw [reached_paged]
    decide +kernel
  unreferenced_stays true pagedEvents [2] (by decide) hpaged.1 .allReady pagedMoves.tail (by decide)
    hpaged.2 pagedLater (by decide)

end Paged

end Sweep

end Loam

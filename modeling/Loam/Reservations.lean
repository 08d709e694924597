import Loam.Redelivery
import Mathlib.Data.Set.Function
import Mathlib.Logic.Relation

/-!
# Reservations

A sweep reserves a body's id before it asks whether the id is bound, so that
the answer stays true until the body is gone. The reservation is a side table,
and each way of binding an object has its own relation to it: a record bind
reads it, a rename needs no reading since it only moves a name, a volume flush
is kept from opening while any reservation stands. A commit does not read it.
What keeps a commit harmless is that the flush it needs is older than the
reservation, and that while a flush is open the namespace answers that every
id is referenced.

`NoneGained` is the order the statements are about: a set of names that is
another's up to losses and moves.
-/

section NoneGained

variable {α : Type}

/-- `T` is `S` up to losing elements, or up to that and one element's move. -/
def MovedOne (S T : Set α) : Prop := T ⊆ S ∨ ∃ s ∈ S, ∃ d, T ⊆ insert d (S \ {s})

/-- `T` is `S` up to losing elements and moving them, one after another. -/
def NoneGained : Set α → Set α → Prop := Relation.ReflTransGen MovedOne

variable {S T U : Set α}

theorem NoneGained.of_subset (h : T ⊆ S) : NoneGained S T := .single (.inl h)

theorem NoneGained.trans (h : NoneGained S T) (h' : NoneGained T U) : NoneGained S U :=
  Relation.ReflTransGen.trans h h'

theorem NoneGained.of_move {s d : α} (hs : s ∈ S) (h : ∀ x ∈ T, x ≠ d → x ∈ S ∧ x ≠ s) :
    NoneGained S T := by
  refine .single (.inr ⟨s, hs, d, fun x hx => ?_⟩)
  by_cases hd : x = d
  · exact .inl hd
  · exact .inr (h x hx hd)

/-- One move is one to one. -/
theorem MovedOne.exists_injOn (h : MovedOne S T) : ∃ f : α → α, Set.MapsTo f T S ∧ Set.InjOn f T := by
  classical
  obtain h | ⟨s, hs, d, h⟩ := h
  · exact ⟨id, h, Set.injOn_id T⟩
  have hkeep : ∀ x ∈ T, x ≠ d → x ∈ S ∧ x ≠ s := fun x hx hd => (h hx).resolve_left hd
  refine ⟨fun x => if x = d then s else x, fun x hx => ?_, fun x hx y hy hxy => ?_⟩
  · by_cases hd : x = d
    · simpa [hd] using hs
    · simpa [hd] using (hkeep x hx hd).1
  · by_cases hxd : x = d <;> by_cases hyd : y = d
    · rw [hxd, hyd]
    · simp only [hxd, hyd, if_true, if_false] at hxy
      exact absurd hxy.symm (hkeep y hy hyd).2
    · simp only [hxd, hyd, if_true, if_false] at hxy
      exact absurd hxy (hkeep x hx hxd).2
    · simpa [hxd, hyd] using hxy

/-- **Each element comes from one of its own.** -/
theorem NoneGained.exists_injOn (h : NoneGained S T) :
    ∃ f : α → α, Set.MapsTo f T S ∧ Set.InjOn f T := by
  induction h with
  | refl => exact ⟨id, Set.mapsTo_id S, Set.injOn_id S⟩
  | tail _ hmove ih =>
    obtain ⟨f, hf, hfi⟩ := ih
    obtain ⟨g, hg, hgi⟩ := hmove.exists_injOn
    exact ⟨f ∘ g, hf.comp hg, hfi.comp hgi hg⟩

end NoneGained

namespace Loam

/-! ## Open flushes -/

namespace LeaseTable

variable {L : Limits} {t : LeaseTable L} {e : LeaseEntry} {k : Key} {now : UInt64}

/-- No flush is open. -/
def Quiet (t : LeaseTable L) : Prop := ∀ e, some e ∈ t.entries → e.flushing = false

theorem anyFlushing_eq_false_iff : t.anyFlushing = false ↔ t.Quiet := by
  simp only [anyFlushing, List.any_eq_false, Quiet]
  constructor
  · intro h e he
    simpa using h (some e) he
  · intro h o ho
    cases o with
    | none => simp
    | some e => simp [h e ho]

theorem mem_of_find {i : ℕ} (h : t.find k = some (e, i)) : some e ∈ t.entries := by
  obtain ⟨hm, -⟩ := SlotTable.mem_of_find h
  exact List.mem_of_getElem? (SlotTable.mem_used.mp hm)

/-- Writing an entry that is not flushing opens no flush. -/
theorem Quiet.setEntry (h : t.Quiet) {i : ℕ} {o : Option LeaseEntry}
    (ho : ∀ e, o = some e → e.flushing = false) : (t.setEntry i o).Quiet := by
  intro e he
  rcases List.mem_or_eq_of_mem_set he with hm | heq
  · exact h e hm
  · exact ho e heq.symm

theorem Quiet.claimSlot (h : t.Quiet) {t' : LeaseTable L} {i : ℕ}
    (hc : t.claimSlot now = some (t', i)) : t'.Quiet := by
  unfold LeaseTable.claimSlot at hc
  split at hc
  · cases hc
    exact h
  · obtain ⟨p, -, hp⟩ := Option.map_eq_some_iff.mp hc
    cases hp
    have hr : (t.raiseFloors p.1.fence p.1.stamp).Quiet := h
    exact hr.setEntry fun e he => nomatch he

theorem Quiet.applyAbsent (h : t.Quiet) (op : LeaseOp) (k : Key) (holder : Bytes)
    (now expires : UInt64) : (t.applyAbsent op k holder now expires).1.Quiet := by
  unfold LeaseTable.applyAbsent
  split
  · exact h
  split
  · exact h
  split
  · exact h
  next t' i hc =>
  split
  · exact h.claimSlot hc
  refine (h.claimSlot hc).setEntry fun e he => ?_
  cases he
  rfl

theorem applyEntry_flushing (op : LeaseOp) (holder : Bytes) (now expires : UInt64)
    (h : e.flushing = false) : (applyEntry e op holder now expires).1.flushing = false := by
  cases op <;> simp only [applyEntry] <;> repeat' split
  all_goals first | exact h | rfl

theorem Quiet.apply (h : t.Quiet) (mode : UInt8) (k : Key) (holder : Bytes)
    (now ttlMs : UInt64) : (t.apply mode k holder now ttlMs).1.Quiet := by
  unfold LeaseTable.apply
  split
  · exact h
  split
  · exact h
  split
  · exact h
  dsimp only
  split
  · exact h.applyAbsent _ _ _ _ _
  next e i hf =>
  split
  · exact h
  refine h.setEntry fun e' he' => ?_
  cases he'
  exact applyEntry_flushing _ _ _ _ (h e (mem_of_find hf))

theorem Quiet.touch (h : t.Quiet) (k : Key) (now : UInt64) : (t.touch k now).1.Quiet := by
  unfold LeaseTable.touch
  split
  · exact h
  next e i hf =>
  split
  · exact h
  refine h.setEntry fun e' he' => ?_
  cases he'
  exact h e (mem_of_find hf)

theorem Quiet.closeFlush (h : t.Quiet) (k : Key) (holder : Bytes) :
    (t.setFlushing k holder false).Quiet := by
  unfold setFlushing
  split
  · split
    · refine h.setEntry fun e' he' => ?_
      cases he'
      rfl
    · exact h
  · exact h

theorem Quiet.endExpiredFlushes (h : t.Quiet) (now : UInt64) :
    (t.endExpiredFlushes now).Quiet := by
  unfold LeaseTable.endExpiredFlushes
  split
  · exact h
  intro e he
  obtain ⟨o, ho, hoe⟩ := List.mem_map.mp he
  obtain ⟨e', rfl, rfl⟩ := Option.map_eq_some_iff.mp hoe
  split
  · rfl
  · exact h e' ho

theorem Sound.isFlushing_of_touch (h : t.Sound) {t' : LeaseTable L} {o : Option Bool}
    (ht : t.touch k now = (t', o)) {holder : Bytes} (hfl : t'.isFlushing k holder = true) :
    t.isFlushing k holder = true := by
  unfold LeaseTable.touch at ht
  split at ht
  · cases ht
    exact hfl
  next e i hf =>
  split at ht
  · cases ht
    exact hfl
  · cases ht
    have hk : ({ e with stamp := now } : LeaseEntry).key = e.key := rfl
    rw [LeaseTable.isFlushing, (h.setEntry_found hf hk).2 k, if_pos rfl] at hfl
    simpa [LeaseTable.isFlushing, lease, hf] using hfl

theorem Quiet.isFlushing (h : t.Quiet) (k : Key) (holder : Bytes) :
    t.isFlushing k holder = false := by
  unfold LeaseTable.isFlushing lease
  cases hf : t.find k with
  | none => rfl
  | some p =>
    obtain ⟨e, i⟩ := p
    simp [h e (mem_of_find hf)]

end LeaseTable

/-! ## What keeps a flush from opening -/

section Judge

variable {L : Limits} {v : Key → Option Binding} {leases : LeaseTable L}
  {gcReserved : List UInt64} {r : Record}

/-- A volume record opens no flush while a reservation stands. -/
theorem judgeVolumeAt_quiet (h : leases.Quiet) (cur : Option Binding) (m : VolumeMsg) :
    (judgeVolumeAt leases true cur m).1.Quiet := by
  have htouch := h.touch m.key m.nowMs
  unfold judgeVolumeAt
  dsimp only
  split
  · exact h
  split
  · next t ht =>
    rw [ht] at htouch
    have hclosed := LeaseTable.Quiet.closeFlush htouch m.key m.holder
    cases hm : m.mode with
    | other => simpa only [judgeVolumeMode, hm] using htouch
    | start | abort | commit | delete =>
      simp only [judgeVolumeMode, hm]
      repeat' split
      all_goals first | exact htouch | exact hclosed | contradiction
  · next t o hne ht =>
    rw [ht] at htouch
    exact htouch

/-- **No record from the wire opens a flush while a reservation stands.** -/
theorem judge_quiet (h : leases.Quiet) (hres : gcReserved.any (· != 0) = true)
    (hw : r.fromWire = true) : (judge v leases gcReserved r).leases.Quiet := by
  cases r with
  | leaseRestore | bindingRestore => cases hw
  | gcReserve id now => exact h.endExpiredFlushes now
  | gcRelease | undecodable => exact h
  | lease m =>
    simp only [judge]
    split
    · exact h
    · exact h.apply _ _ _ _ _
  | rename m =>
    simp only [judge]
    split <;> exact h
  | bind | unbind | retain =>
    simp only [judge]
    repeat' split
    all_goals exact h
  | volume m =>
    simp only [judge]
    split
    · exact h
    have hv := judgeVolumeAt_quiet h (v m.key) m
    rw [← hres] at hv
    unfold judgeVolumeOp
    dsimp only
    split <;> next hj => rwa [hj] at hv

/-- The release of an id's hash. -/
def Record.releases (objectId : Bytes) : Record → Bool
  | .gcRelease id => fnv1a64 id == fnv1a64 objectId
  | _ => false

/-- **A reservation stands until it is released.** -/
theorem judge_reserved {objectId : Bytes} (h : fnv1a64 objectId ∈ gcReserved)
    (hz : fnv1a64 objectId ≠ 0) (hr : r.releases objectId = false) :
    fnv1a64 objectId ∈ (judge v leases gcReserved r).gcReserved := by
  cases r with
  | gcReserve id now =>
    change fnv1a64 objectId ∈ reserveHash gcReserved (fnv1a64 id)
    unfold reserveHash
    split
    · exact h
    split
    · next i hi =>
      -- only a free entry is written
      obtain ⟨hlt, hzero, -⟩ := List.findIdx?_eq_some_iff_getElem.mp hi
      obtain ⟨j, hj, hget⟩ := List.mem_iff_getElem.mp h
      refine List.mem_iff_getElem.mpr ⟨j, by simpa using hj, ?_⟩
      rw [List.getElem_set_of_ne, hget]
      rintro rfl
      exact hz (by simpa [hget] using hzero)
    · exact h
  | gcRelease id =>
    refine List.mem_map.mpr ⟨fnv1a64 objectId, h, if_neg ?_⟩
    intro he
    simp [Record.releases, he] at hr
  | leaseRestore e f s =>
    simp only [judge]
    split <;> exact h
  | rename m =>
    simp only [judge]
    split <;> exact h
  | bind | unbind | retain | lease | bindingRestore =>
    simp only [judge]
    repeat' split
    all_goals exact h
  | volume m =>
    simp only [judge, judgeVolumeOp]
    repeat' split
    all_goals exact h
  | undecodable => exact h

end Judge

/-! ## The names of an object -/

namespace Namespace

variable {L : Limits} {ns : Namespace L} {objectId : Bytes} {k : Key}

/-- The keys bound, live, to an object. -/
def names (ns : Namespace L) (objectId : Bytes) : Set Key :=
  {k | ∃ b, ns.view k = some b ∧ b.live = true ∧ b.objectId = objectId}

theorem mem_names_update {v : Key → Option Binding} {ns' : Namespace L} {b : Binding}
    (hv : ns'.view = Function.update v k (some b)) {k' : Key} (h : k' ∈ ns'.names objectId) :
    (k' = k ∧ b.live = true ∧ b.objectId = objectId) ∨
      k' ≠ k ∧ ∃ b', v k' = some b' ∧ b'.live = true ∧ b'.objectId = objectId := by
  obtain ⟨b', hb', hl, ho⟩ := h
  rw [hv] at hb'
  by_cases hk : k' = k
  · subst hk
    rw [Function.update_self] at hb'
    cases hb'
    exact .inl ⟨rfl, hl, ho⟩
  · rw [Function.update_of_ne hk] at hb'
    exact .inr ⟨hk, b', hb', hl, ho⟩

/-- A binding put at a key gains a name only if it names the object there. -/
theorem names_put {ns' : Namespace L} {b : Binding}
    (hv : ns'.view = Function.update ns.view k (some b)) :
    ns'.names objectId ⊆ insert k (ns.names objectId) ∧
      ((b.live = true → b.objectId = objectId → k ∈ ns.names objectId) →
        ns'.names objectId ⊆ ns.names objectId) := by
  constructor
  · intro k' hk'
    rcases mem_names_update hv hk' with ⟨rfl, -⟩ | ⟨-, hn⟩
    · exact Set.mem_insert _ _
    · exact Set.mem_insert_of_mem _ hn
  · intro hb k' hk'
    rcases mem_names_update hv hk' with ⟨rfl, hl, ho⟩ | ⟨-, hn⟩
    · exact hb hl ho
    · exact hn

theorem names_tombstone {ns' : Namespace L} {rev : UInt64}
    (hv : ns'.view = Function.update ns.view k (some (.tombstone rev))) :
    ns'.names objectId ⊆ ns.names objectId :=
  (names_put hv).2 fun hl => nomatch hl

/-- A binding moved to another name gains none. -/
theorem names_move {ns' : Namespace L} {source dest : Key} {src b : Binding} {rev : UInt64}
    (hsrc : ns.view source = some src) (hlive : src.live = true)
    (hid : b.objectId = src.objectId)
    (hv : ns'.view = Function.update
      (Function.update ns.view source (some (.tombstone rev))) dest (some b)) :
    NoneGained (ns.names objectId) (ns'.names objectId) := by
  by_cases hobj : src.objectId = objectId
  · refine .of_move (s := source) (d := dest) ⟨src, hsrc, hlive, hobj⟩ fun k' hk' hkd => ?_
    obtain ⟨hkd', -⟩ | ⟨-, b', hb', hl, ho⟩ := mem_names_update hv hk'
    · exact absurd hkd' hkd
    by_cases hks : k' = source
    · rw [hks, Function.update_self] at hb'
      cases hb'
      cases hl
    · rw [Function.update_of_ne hks] at hb'
      exact ⟨⟨b', hb', hl, ho⟩, hks⟩
  · refine .of_subset fun k' hk' => ?_
    obtain ⟨-, -, ho⟩ | ⟨-, b', hb', hl, ho⟩ := mem_names_update hv hk'
    · exact absurd (hid.symm.trans ho) hobj
    by_cases hks : k' = source
    · rw [hks, Function.update_self] at hb'
      cases hb'
      cases hl
    · rw [Function.update_of_ne hks] at hb'
      exact ⟨b', hb', hl, ho⟩

/-- A commit that is admitted, of a flush that is open. -/
def Commits (ns : Namespace L) (objectId : Bytes) (k : Key) : Record → Prop
  | .volume m => m.mode = .commit ∧ m.objectId = objectId ∧ m.key = k ∧
      ns.leases.isFlushing m.key m.holder = true
  | _ => False

/-- **What an effect does to the names of a reserved object**: it gains none,
unless it is a commit's. -/
theorem names_after {ns' : Namespace L} {r : Record} (hls : ns.leases.Sound) (hw : r.fromWire = true)
    (hres : ns.isReserved objectId = true) (hdo : ns.bindings.canDo (ns.judged r).effect = true)
    (hv : ns'.view = ns.after (ns.judged r).effect) :
    NoneGained (ns.names objectId) (ns'.names objectId) ∨
      ∃ k, ns.Commits objectId k r ∧ ns'.names objectId ⊆ insert k (ns.names objectId) := by
  cases he : (ns.judged r).effect with
  | keep =>
    rw [he] at hv
    refine .inl (.of_subset fun k ⟨b, hb, hl, ho⟩ => ⟨b, ?_, hl, ho⟩)
    rw [← hb, hv]
    rfl
  | put k b =>
    rw [he] at hv
    cases puts_of_judge he with
    | bind m hdec hnres hk hj =>
      refine .inl (.of_subset ((names_put hv).2 fun hl ho => ?_))
      rw [ho] at hnres
      exact absurd (hres.symm.trans hnres) (by decide)
    | unbind m hj => exact .inl (.of_subset (names_tombstone hv))
    | delete m leases' hdec hj => exact .inl (.of_subset (names_tombstone hv))
    | retain m b' hdec hj =>
      refine .inl (.of_subset ((names_put hv).2 fun hl ho => ?_))
      obtain ⟨c, hc, hcl, -, -, -, hb, -⟩ := of_judgeRetain hj
      refine ⟨c, hc, hcl, ?_⟩
      rw [← ho, hb]
    | commit m leases' next hdec hj =>
      obtain ⟨-, -, -, -, hmode, -, t, ht, -, hfl, -⟩ := of_judgeVolumeAt_commit hj
      by_cases hobj : m.objectId = objectId
      · refine .inr ⟨m.key, ⟨hmode, hobj, rfl, ?_⟩, (names_put hv).1⟩
        exact hls.isFlushing_of_touch ht hfl
      · exact .inl (.of_subset ((names_put hv).2 fun _ ho => absurd ho hobj))
    | restore m b' hrev hb => cases hw
  | move m =>
    rw [he] at hv hdo
    obtain ⟨rfl, hj⟩ := rename_of_judge he
    have hdest := not_live_of_judgeRename hj
    simp only [Arena.canDo, Bool.and_eq_true, Option.any_eq_true] at hdo
    obtain ⟨⟨⟨src, hsrc, hlive⟩, -⟩, -⟩ := hdo
    have hview : ns.view ⟨m.root, m.source⟩ = some src := by
      rw [view, hsrc]
      rfl
    have hne : (⟨m.root, m.source⟩ : Key) ≠ ⟨m.root, m.dest⟩ := by
      intro heq
      rw [← heq, hview] at hdest
      exact absurd (hlive.symm.trans hdest) (by decide)
    simp only [after, hview] at hv
    rw [Function.update_comm hne.symm] at hv
    exact .inl (names_move (b := ns.movedBinding m src) hview hlive rfl hv)

end Namespace

/-! ## Events and runs -/

/-- The call binds the object. -/
def SurfaceOp.binds (objectId : Bytes) : SurfaceOp → Bool
  | .bind _ _ _ target => target == objectId
  | _ => false

/-- Any event but a crash and a provider bind of the object. -/
def Event.minds (objectId : Bytes) : Event → Bool
  | .surface op _ _ => !op.binds objectId
  | .crash => false
  | _ => true

/-- The event releases the id's reservation. -/
def Event.releases (objectId : Bytes) : Event → Bool
  | .feed r _ _ => r.releases objectId
  | _ => false

theorem Namespace.SurfaceOutcome.gcReserved {L : Limits} {ns ns' : Namespace L} {now : UInt64}
    {op : SurfaceOp} {res : Except Errno Unit} (h : ns.SurfaceOutcome now op ns' res) :
    ns'.gcReserved = ns.gcReserved := by
  cases h <;> rfl

/-- **A provider call other than a bind of it gains an object no name.** -/
theorem Namespace.SurfaceOutcome.names {L : Limits} {ns ns' : Namespace L} {now : UInt64}
    {op : SurfaceOp} {res : Except Errno Unit} {objectId : Bytes}
    (h : ns.SurfaceOutcome now op ns' res) (hb : op.binds objectId = false) :
    NoneGained (ns.names objectId) (ns'.names objectId) := by
  cases h with
  | refused op e a' _ _ hv =>
    refine .of_subset fun k ⟨b, hb, hl, ho⟩ => ⟨b, ?_, hl, ho⟩
    rw [← hb, hv]
  | found path s hs hl => exact .of_subset (Set.Subset.refl _)
  | bound path kind replace target rev a' _ _ _ _ _ hw =>
    refine .of_subset ((Namespace.names_put (Namespace.view_writes hw)).2 fun _ ho => ?_)
    simp only [SurfaceOp.binds, beq_eq_false_iff_ne] at hb
    exact absurd ho hb
  | deleted path s a' _ _ _ hw =>
    exact .of_subset (Namespace.names_tombstone (Namespace.view_writes hw))
  | renamed source dest src a' _ _ _ hs hlive _ _ _ hv =>
    exact Namespace.names_move (Namespace.view_of_lookup hs) hlive
      (b := { src.toBinding with revision := ns.surfaceDestRev dest (src.revision + 1) }) rfl hv

namespace Node

variable {L : Limits} {n : Node L} {objectId : Bytes}

/-- **What an event does to the names of a reserved object.** -/
theorem Coherent.names_step (h : n.Coherent) (hls : n.ns.leases.Sound)
    (hres : n.ns.isReserved objectId = true) {e : Event} (he : e.minds objectId = true) :
    NoneGained (n.ns.names objectId) ((n.step e).ns.names objectId) ∨
      ∃ r io proof k, e = .feed r io proof ∧ n.ns.Commits objectId k r ∧
        (n.step e).ns.names objectId ⊆ insert k (n.ns.names objectId) := by
  by_cases hi : e.internal = true
  · refine .inl (.of_subset fun k ⟨b, hb, hl, ho⟩ => ⟨b, ?_, hl, ho⟩)
    rw [← hb, (h.internal hi).1]
  cases e with
  | crash => cases he
  | surface op io now =>
    exact .inl ((h.sound.surfaceOp_outcome h.fits io now op).names (by simpa [Event.minds] using he))
  | feed r io proof =>
    rcases h.feed_view r io proof with hv | ⟨ht, hdo, hv⟩
    · refine .inl (.of_subset fun k ⟨b, hb, hl, ho⟩ => ⟨b, ?_, hl, ho⟩)
      rw [← hb]
      exact (congrFun hv k).symm
    · simp only [takes, Bool.and_eq_true] at ht
      rcases Namespace.names_after hls ht.1.1 hres hdo hv with hn | ⟨k, hc, hn⟩
      · exact .inl hn
      · exact .inr ⟨r, io, proof, k, rfl, hc, hn⟩
  | _ => exact absurd rfl hi

/-- The state in which a reservation keeps its promise: the id is held, and no
flush was open when it was taken. -/
structure Guards (n : Node L) (objectId : Bytes) : Prop where
  coherent : n.Coherent
  leases : n.ns.leases.Sound
  held : n.ns.isReserved objectId = true
  quiet : n.ns.leases.Quiet

/-- **A guarded id stays so, and gains no name.** -/
theorem Guards.step (h : n.Guards objectId) (hz : fnv1a64 objectId ≠ 0) {e : Event}
    (he : e.minds objectId = true) (hr : e.releases objectId = false) :
    (n.step e).Guards objectId ∧
      NoneGained (n.ns.names objectId) ((n.step e).ns.names objectId) := by
  have hmem : fnv1a64 objectId ∈ n.ns.gcReserved := List.elem_iff.mp h.held
  have hany : n.ns.gcReserved.any (· != 0) = true :=
    List.any_eq_true.mpr ⟨_, hmem, bne_iff_ne.mpr hz⟩
  constructor
  · have hkeep : (n.step e).ns.isReserved objectId = true ∧ (n.step e).ns.leases.Quiet := by
      by_cases hi : e.internal = true
      · obtain ⟨-, hle, hg⟩ := h.coherent.internal hi
        rw [Namespace.isReserved, hg, hle]
        exact ⟨h.held, h.quiet⟩
      cases e with
      | crash => cases he
      | surface op io now =>
        have ho := h.coherent.sound.surfaceOp_outcome h.coherent.fits io now op
        refine ⟨?_, ?_⟩
        · rw [Namespace.isReserved,
            show (n.step (.surface op io now)).ns.gcReserved = n.ns.gcReserved from ho.gcReserved]
          exact h.held
        · rw [show (n.step (.surface op io now)).ns.leases = n.ns.leases from ho.leases]
          exact h.quiet
      | feed r io proof =>
        rcases h.coherent.feed_spec r io proof with ⟨hs, -⟩ | ⟨ht, -, hlease, hg, -⟩
        · rw [show (n.step (.feed r io proof)).ns = n.ns from hs]
          exact ⟨h.held, h.quiet⟩
        · simp only [takes, Bool.and_eq_true] at ht
          rw [Namespace.isReserved, show (n.step (.feed r io proof)).ns.gcReserved = _ from hg,
            show (n.step (.feed r io proof)).ns.leases = _ from hlease]
          exact ⟨List.elem_iff.mpr (judge_reserved hmem hz hr), judge_quiet h.quiet hany ht.1.1⟩
      | _ => exact absurd rfl hi
    exact ⟨h.coherent.step e, h.coherent.leases_sound h.leases e, hkeep.1, hkeep.2⟩
  · rcases h.coherent.names_step h.leases h.held he with hn | ⟨r, io, proof, k, -, hc, -⟩
    · exact hn
    -- a commit needs an open flush
    cases r with
    | volume m => exact absurd (hc.2.2.2.symm.trans (h.quiet.isFlushing _ _)) (by decide)
    | _ => cases hc

/-- **A guarded id gains no name over a run.** -/
theorem Guards.run (h : n.Guards objectId) (hz : fnv1a64 objectId ≠ 0) {later : List Event}
    (hev : ∀ e ∈ later, e.minds objectId = true ∧ e.releases objectId = false) :
    (n.run later).Guards objectId ∧
      NoneGained (n.ns.names objectId) ((n.run later).ns.names objectId) := by
  induction later generalizing n with
  | nil => exact ⟨h, .of_subset (Set.Subset.refl _)⟩
  | cons e later ih =>
    obtain ⟨hmind, hrel⟩ := hev e List.mem_cons_self
    obtain ⟨hstep, hn⟩ := h.step hz hmind hrel
    obtain ⟨hrun, hn'⟩ := ih hstep fun e' he' => hev e' (List.mem_cons_of_mem e he')
    exact ⟨hrun, hn.trans hn'⟩

/-- **A reserved body gains no reference.** From a reachable state that holds
the reservation, an event other than a crash or a provider bind of the object
gains it no name, unless it commits a flush that is open; and if no flush is,
then none is gained by any run until the release. -/
theorem reserved_gains_none (cfg : Bool) (es : List Event) (objectId : Bytes)
    (hres : (reached L cfg es).ns.isReserved objectId = true) :
    (∀ e : Event, e.minds objectId = true →
      NoneGained ((reached L cfg es).ns.names objectId)
          (((reached L cfg es).step e).ns.names objectId) ∨
        ∃ r io proof k, e = .feed r io proof ∧ (reached L cfg es).ns.Commits objectId k r ∧
          ((reached L cfg es).step e).ns.names objectId
            ⊆ insert k ((reached L cfg es).ns.names objectId)) ∧
      (fnv1a64 objectId ≠ 0 → (reached L cfg es).ns.leases.anyFlushing = false →
        ∀ later : List Event,
          (∀ e ∈ later, e.minds objectId = true ∧ e.releases objectId = false) →
          ((reached L cfg es).run later).ns.isReserved objectId = true ∧
            ((reached L cfg es).run later).ns.leases.anyFlushing = false ∧
            NoneGained ((reached L cfg es).ns.names objectId)
              (((reached L cfg es).run later).ns.names objectId)) := by
  have h := coherent_reached (L := L) cfg es
  have hls := leases_sound_reached (L := L) cfg es
  refine ⟨fun e he => h.names_step hls hres he, fun hz hq later hev => ?_⟩
  have hg : (reached L cfg es).Guards objectId :=
    ⟨h, hls, hres, LeaseTable.anyFlushing_eq_false_iff.mp hq⟩
  obtain ⟨hg', hn⟩ := hg.run hz hev
  exact ⟨hg'.held, LeaseTable.anyFlushing_eq_false_iff.mpr hg'.quiet, hn⟩

/-- A step of a volume's first flush, to root `[1]`. -/
def exampleVolume (mode : VolumeMode) (now : UInt64) : Record :=
  .volume ⟨mode, surfaceKey examplePath, [1], [7], 1, 0, now⟩

/-- A writer takes its lease and opens a flush; then `[1]` is reserved. -/
def flushThenReserve : List Event :=
  [fed (.lease ⟨1, surfaceKey examplePath, [7], 1, 1000⟩), fed (exampleVolume .start 2),
    fed (.gcReserve [1] 3)]

/-- An unbound object that is reserved gains no name. -/
theorem reserved_gains_none_unbound :
    (reached .minimal true [fed (.gcReserve [1] 3)]).ns.isReserved [1] = true ∧
      NoneGained ((reached .minimal true [fed (.gcReserve [1] 3)]).ns.names [1])
        (((reached .minimal true [fed (.gcReserve [1] 3)]).run
          [fed (.bind ⟨surfaceKey examplePath, ⟨1, 0, [1], Meta.none⟩, .any, 0⟩)]).ns.names [1]) :=
  have hres : (reached .minimal true [fed (.gcReserve [1] 3)]).ns.isReserved [1] = true := by decide
  ⟨hres, ((reserved_gains_none true [fed (.gcReserve [1] 3)] [1] hres).2 (by decide) (by decide)
    [fed (.bind ⟨surfaceKey examplePath, ⟨1, 0, [1], Meta.none⟩, .any, 0⟩)] (by decide)).2.2⟩

/-- **The commit of the open flush binds the reserved object**, which no key
named. -/
theorem commit_names_reserved :
    (reached .minimal true flushThenReserve).ns.isReserved [1] = true ∧
      (reached .minimal true flushThenReserve).ns.names [1] = ∅ ∧
      surfaceKey examplePath ∈ ((reached .minimal true flushThenReserve).step
        (fed (exampleVolume .commit 4))).ns.names [1] ∧
      ((reached .minimal true flushThenReserve).step
        (fed (exampleVolume .commit 4))).ns.isReserved [1] = true := by
  refine ⟨by decide, ?_, ⟨⟨1, kindVolume, [1], ⟨4, 0, [], [], 0, false⟩⟩, by decide⟩, by decide⟩
  have harena : (reached .minimal true flushThenReserve).ns.bindings = Arena.new .minimal := by
    decide
  have hsnap : (reached .minimal true flushThenReserve).ns.snap = none := by decide
  refine Set.eq_empty_of_forall_notMem ?_
  rintro k ⟨b, hb, -⟩
  rw [Namespace.view_of_lookup_none (by rw [harena, Arena.lookup_new]), hsnap] at hb
  cases hb

end Node

end Loam

import Loam.DoorbellTable

/-!
# No doorbell is lost

What is rung at the end of a step or a call is decided afterwards, from the numbers of the
arena's slots. Between two passes the arena accounts for every change (`Node.accounts_run`), and
each pass begins where the last one ended, so a live subscription whose prefix covers a key that
was changed has its bit set, and was signalled if it had not (`doorbells_ring`). A subscription
that is made meanwhile, or a record that is used again, begins with the pass that ends its call.

That rests on the numbers rising. Once the counter goes round, a change has a lower number than
what was rung for, and nobody is rung.
-/

namespace Loam

namespace DoorWorld

variable {L : Limits} {w : DoorWorld L} {e : DoorEvent} {k : Kernel}

/-- The key's binding is changed by what happens. A process that ends may lose any. -/
def Touched (w : DoorWorld L) (key : Key) : DoorEvent → Prop
  | .step es _ _ => Run.SomeStep Node.step (Node.Changes key) w.node (es.filter Event.ofStep)
  | .surface op io now _ => Node.Changes key w.node (.surface op io now)
  | .crash _ => True
  | _ => False

/-- **No doorbell is lost** by the event: a live subscription whose prefix covers a key that was
touched is rung, and was rung before or is signalled; and the live subscriptions and the free
list are the table. -/
structure NoneLost (w : DoorWorld L) (e : DoorEvent) : Prop where
  rung : ∀ (i : ℕ) (r : SubSlot) (path : Bytes), (w.step e).subs.recs[i]? = some r →
    r.inUse = true → underPrefix path r.front = true → w.Touched (surfaceKey path) e →
    r.rung = true ∧ (w.subs.recs[i]?.any SubSlot.rung = true ∨
      r.event ∈ (w.step e).subs.signalled.drop w.subs.signalled.length)
  parts : ((w.step e).subs.liveList ++ (w.step e).subs.freeList).Perm
    (List.range (w.step e).subs.recs.length)

/-- The arena's counter does not go round. -/
def Room (w : DoorWorld L) : DoorEvent → Prop
  | .step es _ _ => Run.AllSteps Node.step Node.Room w.node (es.filter Event.ofStep)
  | .surface op io now _ => w.node.Room (.surface op io now)
  | .crash _ => w.node.Room .crash
  | _ => True

instance decidableRoom (w : DoorWorld L) : (e : DoorEvent) → Decidable (w.Room e)
  | .step es _ _ =>
    inferInstanceAs (Decidable (Run.AllSteps Node.step Node.Room w.node (es.filter Event.ofStep)))
  | .surface op io now _ => inferInstanceAs (Decidable (w.node.Room (.surface op io now)))
  | .crash _ => inferInstanceAs (Decidable (w.node.Room .crash))
  | .subscribe .. | .takeRung .. | .changes .. | .close .. | .other _ | .released _ =>
    .isTrue trivial

/-! ## A pass -/

/-- Where a slot is rung for, all who watch its key are settled. -/
theorem rings_ringSlot (k : Kernel) (past head : UInt64) (t : SubTable) (o : Option BindingSlot) :
    t.Rings (ringSlot k past head t o) ∧ ∀ s, o = some s → s.root = [] → past < s.changeRev →
      s.changeRev ≤ head → ∀ i, (ringSlot k past head t o).SettledFor s.path i := by
  cases o with
  | none => exact ⟨.refl t, fun s hs => by cases hs⟩
  | some s =>
    rw [ringSlot]
    split
    · next hskip =>
      refine ⟨.refl t, fun s' hs' hroot hlow hhigh => ?_⟩
      cases hs'
      obtain hskip | hskip | hskip := hskip
      · exact absurd hroot hskip
      · exact absurd hlow (UInt64.not_lt.mpr hskip)
      · exact absurd hskip (UInt64.not_lt.mpr hhigh)
    · obtain ⟨hrings, hsettled⟩ := SubTable.rings_ringKey k s.path t
      refine ⟨hrings, fun s' hs' _ _ _ => ?_⟩
      cases hs'
      exact hsettled

/-- **A pass rings for what the arena accounts for**, and ends at its number. -/
theorem ringChanges_spec (w : DoorWorld L) (k : Kernel) :
    (w.ringChanges k).node = w.node ∧ (w.ringChanges k).rungSeq = w.node.ns.bindings.changeSeq ∧
      w.subs.Rings (w.ringChanges k).subs ∧
      ∀ path, w.node.ns.bindings.Numbered → w.node.ns.bindings.Accounts w.rungSeq (surfaceKey path) →
        ∀ i, (w.ringChanges k).subs.SettledFor path i := by
  unfold ringChanges
  dsimp only
  split
  · next hsame =>
    refine ⟨rfl, hsame.1.symm, .refl _, fun path hn hacc => ?_⟩
    obtain hhor | ⟨s, i, hs, -, hrev⟩ := hacc
    · exact absurd hhor (UInt64.not_lt.mpr hsame.2)
    · refine absurd hrev (UInt64.not_lt.mpr ?_)
      rw [← hsame.1]
      exact hn.bounded s i hs
  split
  · obtain ⟨hrings, hall⟩ := SubTable.rings_ringAll k w.subs
    exact ⟨rfl, rfl, hrings, fun path _ _ i r hr hu _ => hall i r hr hu⟩
  next hhor =>
  have hone := rings_ringSlot k w.rungSeq w.node.ns.bindings.changeSeq
  obtain ⟨hrings, hall⟩ := Run.leaves (R := SubTable.Rings)
    (G := fun (o : Option BindingSlot) t => ∀ s, o = some s → s.root = [] → w.rungSeq < s.changeRev →
      s.changeRev ≤ w.node.ns.bindings.changeSeq → ∀ i, SubTable.SettledFor t s.path i)
    SubTable.Rings.refl (fun _ _ _ => SubTable.Rings.trans) (fun t o => (hone t o).1)
    (fun t o => (hone t o).2)
    (fun _ _ _ hr hg s hs hroot hlow hhigh i => hr.settledFor (hg s hs hroot hlow hhigh i))
    w.subs w.node.ns.bindings.slots
  refine ⟨rfl, rfl, hrings, fun path hn hacc => ?_⟩
  obtain hh | ⟨s, i, hs, hkey, hrev⟩ := hacc
  · exact absurd hh hhor
  · have hmem := List.mem_of_getElem? (Arena.mem_occupied.mp hs)
    have hroot : s.root = [] := congrArg Key.root hkey
    have hpath : s.path = path := congrArg Key.path hkey
    rw [← hpath]
    exact hall (some s) hmem s rfl hroot hrev (hn.bounded s i hs)

/-! ## The invariant -/

/-- What holds between two events: the arena is numbered, the free list is that of the free
records, and everything has been rung for. -/
structure Inv (w : DoorWorld L) : Prop where
  coherent : w.node.Coherent
  numbered : w.node.ns.bindings.Numbered
  /-- The free list is that of the free records. -/
  listed : w.subs.Listed
  rung : w.rungSeq = w.node.ns.bindings.changeSeq

theorem inv_init (cfg : Bool) (quota : ℕ) : (init L cfg quota).Inv where
  coherent := Node.coherent_init cfg
  numbered := Node.numbered_init cfg
  listed := SubTable.listed_new []
  rung := by cases cfg <;> rfl

/-- What an event does before the ringing. -/
theorem Inv.perform (h : w.Inv) (hroom : w.Room e) :
    (w.perform e).node.Coherent ∧ (w.perform e).node.ns.bindings.Numbered ∧
      (w.perform e).subs.Listed := by
  cases e with
  | step es k k' =>
    obtain ⟨hc, hn⟩ := Run.invariant (I := fun n : Node L => n.Coherent ∧ n.ns.bindings.Numbered)
      (fun _ e hn hroom => ⟨hn.1.step e, Node.Room.numbered hn.1 hn.2 hroom⟩)
      ⟨h.coherent, h.numbered⟩ hroom
    exact ⟨hc, hn, h.listed⟩
  | surface op io now k' =>
    exact ⟨h.coherent.step (.surface op io now), Node.Room.numbered h.coherent h.numbered hroom, h.listed⟩
  | crash k' =>
    exact ⟨h.coherent.step .crash, Node.Room.numbered h.coherent h.numbered hroom, SubTable.listed_new _⟩
  | subscribe caller req heap k k' =>
    exact ⟨h.coherent, h.numbered, h.listed.subscribe L heap w.subQuota caller req⟩
  | takeRung caller event room k k' =>
    exact ⟨h.coherent, h.numbered, h.listed.takeRung caller event room⟩
  | changes caller sub again k' =>
    unfold DoorWorld.perform
    dsimp only
    split
    · exact ⟨h.coherent, h.numbered, h.listed.putOff caller.owner _⟩
    · exact ⟨h.coherent, h.numbered, h.listed⟩
  | close caller i k' => exact ⟨h.coherent, h.numbered, h.listed.close caller.owner i⟩
  | other k' => exact ⟨h.coherent, h.numbered, h.listed⟩
  | released owner => exact ⟨h.coherent, h.numbered, h.listed.ownerReleased owner⟩

/-- Every event but a release of an owner ends with a pass, and what was put off is rung after
it. -/
theorem step_eq (w : DoorWorld L) (e : DoorEvent) :
    (∃ owner, e = .released owner ∧ w.step e = w.perform e) ∨
      ∃ k subs, w.step e = { (w.perform e).ringChanges k with subs := subs } ∧
        ((w.perform e).ringChanges k).subs.Rings subs := by
  cases e with
  | step es k k' => exact .inr ⟨k, _, rfl, SubTable.rings_ringDeferred k' _⟩
  | released owner => exact .inl ⟨owner, rfl, rfl⟩
  | surface op io now k' => exact .inr ⟨k', _, rfl, .refl _⟩
  | subscribe caller req heap k k' => exact .inr ⟨k', _, rfl, .refl _⟩
  | takeRung caller event room k k' => exact .inr ⟨k', _, rfl, .refl _⟩
  | changes caller sub again k' => exact .inr ⟨k', _, rfl, .refl _⟩
  | close caller i k' => exact .inr ⟨k', _, rfl, .refl _⟩
  | other k' => exact .inr ⟨k', _, rfl, .refl _⟩
  | crash k' => exact .inr ⟨k', _, rfl, .refl _⟩

theorem Inv.step (h : w.Inv) (hroom : w.Room e) : (w.step e).Inv := by
  obtain ⟨hcoh, hnum, hlisted⟩ := h.perform hroom
  obtain ⟨owner, rfl, he⟩ | ⟨k, subs, he, hsubs⟩ := w.step_eq e
  · rw [he]
    exact ⟨hcoh, hnum, hlisted, h.rung⟩
  · obtain ⟨hnode, hseq, hrings, -⟩ := (w.perform e).ringChanges_spec k
    rw [he]
    refine ⟨?_, ?_, hsubs.listed (hrings.listed hlisted), ?_⟩
    · show ((w.perform e).ringChanges k).node.Coherent
      rw [hnode]
      exact hcoh
    · show ((w.perform e).ringChanges k).node.ns.bindings.Numbered
      rw [hnode]
      exact hnum
    · show ((w.perform e).ringChanges k).rungSeq =
        ((w.perform e).ringChanges k).node.ns.bindings.changeSeq
      rw [hnode]
      exact hseq

/-- What was touched is accounted for past what was rung for. -/
theorem Inv.touched (h : w.Inv) (hroom : w.Room e) {key : Key} (ht : w.Touched key e) :
    (∃ k', e = .crash k') ∨ ((w.perform e).subs = w.subs ∧ (w.perform e).rungSeq = w.rungSeq ∧
      (w.perform e).node.ns.bindings.Accounts w.rungSeq key) := by
  cases e with
  | crash k' => exact .inl ⟨k', rfl⟩
  | step es k k' =>
    refine .inr ⟨rfl, rfl, Node.accounts_run h.coherent h.numbered hroom (fun e he => ?_)
      (h.rung ▸ UInt64.le_refl _) (.inr ht)⟩
    have hof := (List.mem_filter.mp he).2
    rintro rfl
    cases hof
  | surface op io now k' =>
    refine .inr ⟨rfl, rfl, ?_⟩
    show (w.node.run [.surface op io now]).ns.bindings.Accounts w.rungSeq key
    refine Node.accounts_run h.coherent h.numbered ⟨hroom, trivial⟩ (fun e he => ?_)
      (h.rung ▸ UInt64.le_refl _) (.inr (.inl ht))
    rw [List.mem_singleton.mp he]
    exact Event.noConfusion
  | subscribe | takeRung | changes | close | other | released => exact ht.elim

/-- A step of a state that has rung for everything loses no doorbell. -/
theorem Inv.noneLost (h : w.Inv) (hroom : w.Room e) : w.NoneLost e := by
  refine ⟨fun i r path hr hu hfront ht => ?_, (h.step hroom).listed.perm⟩
  obtain ⟨-, hnum, -⟩ := h.perform hroom
  obtain ⟨owner, rfl, -⟩ | ⟨k, subs, he, hsubs⟩ := w.step_eq e
  · exact ht.elim
  obtain ⟨-, -, hrings, hsettled⟩ := (w.perform e).ringChanges_spec k
  have hpass := hrings.trans hsubs
  rw [he] at hr ⊢
  obtain ⟨es, hes, hkept⟩ := hpass.kept
  obtain ⟨r₀, hr₀, -, -, hevent, -, hsig⟩ := hkept i r hr hu
  obtain ⟨k', rfl⟩ | ⟨hsame, hseq, hacc⟩ := h.touched hroom ht
  · -- Nobody is subscribed after a boot.
    cases hr₀
  · have hrung : r.rung = true :=
      hsubs.settledFor (hsettled path hnum (hseq.symm ▸ hacc) i) r hr hu hfront
    refine ⟨hrung, ?_⟩
    rw [hsame] at hes hr₀
    refine (hsig hrung).imp (fun hwas => ?_) fun hmem => ?_
    · rw [hr₀]
      exact hwas
    · show r.event ∈ subs.signalled.drop w.subs.signalled.length
      rw [hes, List.drop_left, hevent]
      exact hmem

/-- **No doorbell is lost** in a run in which the counter does not go round, whatever is
subscribed, taken, closed, released and changed, and in whatever order. -/
theorem doorbells_ring (cfg : Bool) (quota : ℕ) {es : List DoorEvent} {e : DoorEvent}
    (hroom : Run.AllSteps step Room (init L cfg quota) (es ++ [e])) :
    ((init L cfg quota).run es).NoneLost e := by
  obtain ⟨hes, he, -⟩ := Run.allSteps_append.mp hroom
  exact (Run.invariant (I := Inv) (fun _ _ h hroom => h.step hroom) (inv_init cfg quota)
    hes).noneLost he

/-- A kernel with one module, which owns every event. -/
def oneModule : Kernel := ⟨fun _ => true, fun _ => some 1, fun _ => true⟩

/-- That module's name is watched. -/
def watch : DoorEvent := .subscribe ⟨some 1, some 1⟩ ⟨[2], 7, false⟩ true oneModule oneModule

/-- A name is bound anew, over the provider surface. -/
def bindAnew : DoorEvent := .surface (.bind [2] 0 true [1]) .allReady 5 oneModule

theorem doorbells_ring_bind : ((init .minimal true 0).run [watch]).NoneLost bindAnew :=
  doorbells_ring true 0 (by decide +kernel)

section RoundTheCounter

/-- Two names are bound, the second until every number is taken; and then it is watched. -/
def takenRun : List DoorEvent :=
  .surface (.bind [1] 0 false [1]) .allReady 5 oneModule ::
    (List.replicate (2 ^ 64 - 2) bindAnew ++ [watch])

/-- Where no slot is rung for, the table stays. -/
theorem foldl_ringSlot_eq {past head : UInt64} {t : SubTable} {slots : List (Option BindingSlot)}
    (h : ∀ o, ringSlot k past head t o = t) : slots.foldl (ringSlot k past head) t = t := by
  induction slots with
  | nil => rfl
  | cons o slots ih => rw [List.foldl_cons, h o, ih]

/-- With nobody subscribed, a provider call is what it does to the instance. -/
theorem step_surface_new (n : Node L) (seq : UInt64) (q : ℕ) (op : SurfaceOp) (io : ReadEnv)
    (now : UInt64) (k : Kernel) :
    (⟨n, .new, seq, q⟩ : DoorWorld L).step (.surface op io now k) =
      ⟨n.step (.surface op io now), .new,
        (n.step (.surface op io now)).ns.bindings.changeSeq, q⟩ := by
  show (DoorWorld.mk (n.step (.surface op io now)) .new seq q).ringChanges k = _
  unfold ringChanges
  dsimp only
  split
  · next hsame => rw [hsame.1]
  split
  · rfl
  rw [foldl_ringSlot_eq]
  intro o
  cases o with
  | none => rfl
  | some s =>
    rw [ringSlot]
    split <;> rfl

theorem run_replicate_new (j : ℕ) {n : Node .minimal} :
    (⟨n, .new, n.ns.bindings.changeSeq, 0⟩ : DoorWorld .minimal).run (List.replicate j bindAnew) =
      ⟨n.run (List.replicate j Node.rebind), .new,
        (n.run (List.replicate j Node.rebind)).ns.bindings.changeSeq, 0⟩ := by
  induction j generalizing n with
  | zero => rfl
  | succ j ih =>
    have hstep := step_surface_new n n.ns.bindings.changeSeq 0
      (.bind [2] 0 true [1]) .allReady 5 oneModule
    show ((⟨n, .new, n.ns.bindings.changeSeq, 0⟩ : DoorWorld .minimal).step bindAnew).run
      (List.replicate j bindAnew) = _
    rw [bindAnew, hstep, ← bindAnew, ih]
    rfl

/-- The table, once the name is watched. -/
def watchTable : SubTable :=
  (SubTable.new.subscribe .minimal oneModule true 0 ⟨some 1, some 1⟩ ⟨[2], 7, false⟩).1

/-- With every number taken, what is written next has a number that is rung for. -/
theorem ringSlot_last {k : Kernel} {head : UInt64} {t : SubTable} (o : Option BindingSlot) :
    ringSlot k (UInt64.ofNat (2 ^ 64 - 1)) head t o = t := by
  cases o with
  | none => rfl
  | some s =>
    have hle : s.changeRev ≤ UInt64.ofNat (2 ^ 64 - 1) := by
      rw [UInt64.le_iff_toNat_le, UInt64.toNat_ofNat_of_lt' (by decide)]
      have := s.changeRev.toNat_lt
      omega
    exact if_pos (.inr (.inl hle))

/-- With every number taken, nobody is rung for the next change. -/
theorem last_rings_nobody {n : Node .minimal} (h : Node.Rebound (2 ^ 64 - 2) n) :
    ¬ (⟨n, watchTable, n.ns.bindings.changeSeq, 0⟩ : DoorWorld .minimal).NoneLost bindAnew := by
  have hseq : n.ns.bindings.changeSeq = UInt64.ofNat (2 ^ 64 - 1) := h.seq
  have hnext : Node.Rebound (2 ^ 64 - 1) (n.step Node.rebind) := h.step (by decide)
  have hstep : ((⟨n, watchTable, n.ns.bindings.changeSeq, 0⟩ : DoorWorld .minimal).step
      bindAnew).subs = watchTable := by
    show ((DoorWorld.mk (n.step Node.rebind) watchTable n.ns.bindings.changeSeq 0).ringChanges
      oneModule).subs = _
    unfold ringChanges
    dsimp only
    split
    · rfl
    split
    · next hhor =>
      rw [hseq, UInt64.lt_iff_toNat_lt, UInt64.toNat_ofNat_of_lt' (by decide)] at hhor
      have := (n.step Node.rebind).ns.bindings.changeHorizon.toNat_lt
      omega
    · rw [hseq, foldl_ringSlot_eq ringSlot_last]
  have htouched : Node.Changes (surfaceKey [2]) n Node.rebind := by
    intro hsame
    obtain ⟨s, hs, hsb⟩ := Option.map_eq_some_iff.mp h.second
    obtain ⟨s', hs', hsb'⟩ := Option.map_eq_some_iff.mp hnext.second
    rw [Namespace.view_of_lookup hs, Namespace.view_of_lookup hs', hsb, hsb'] at hsame
    exact absurd hsame (by decide)
  intro hlost
  have hrung := (hlost.rung 0 ⟨true, false, false, 1, 1, 7, 0, [2]⟩ [2] (by rw [hstep]; decide) rfl
    (by decide) htouched).1
  cases hrung

/-- Watching a name where everything has been rung for. -/
theorem step_watch {n : Node .minimal}
    (h : n.ns.bindings.changeSeq = UInt64.ofNat (2 ^ 64 - 1)) :
    (⟨n, .new, n.ns.bindings.changeSeq, 0⟩ : DoorWorld .minimal).step watch =
      ⟨n, watchTable, n.ns.bindings.changeSeq, 0⟩ := by
  show (DoorWorld.mk n watchTable n.ns.bindings.changeSeq 0).ringChanges oneModule = _
  unfold ringChanges
  refine if_pos ⟨rfl, ?_⟩
  rw [h, UInt64.le_iff_toNat_le, UInt64.toNat_ofNat_of_lt' (by decide)]
  have := n.ns.bindings.changeHorizon.toNat_lt
  show n.ns.bindings.changeHorizon.toNat ≤ _
  omega

/-- What `j` binds of the second name reach. -/
theorem run_binds (j : ℕ) :
    (init .minimal false 0).run (.surface (.bind [1] 0 false [1]) .allReady 5 oneModule ::
        List.replicate (j + 1) bindAnew) =
      ⟨(Node.reached .minimal false [.surface (.bind [1] 0 false [1]) .allReady 5,
          Node.rebind]).run (List.replicate j Node.rebind), .new,
        ((Node.reached .minimal false [.surface (.bind [1] 0 false [1]) .allReady 5,
          Node.rebind]).run (List.replicate j Node.rebind)).ns.bindings.changeSeq, 0⟩ := by
  have hfirst := step_surface_new (Node.init .minimal false) 0 0
    (.bind [1] 0 false [1]) .allReady 5 oneModule
  show ((init .minimal false 0).step _).run (List.replicate (j + 1) bindAnew) = _
  rw [show (init .minimal false 0).step (.surface (.bind [1] 0 false [1]) .allReady 5 oneModule)
    = _ from hfirst, run_replicate_new]
  rfl

/-- **The counter goes round, and nobody is rung**: the name is bound anew, under a number below
what was rung for. -/
theorem round_rings_nobody : ¬ ((init .minimal false 0).run takenRun).NoneLost bindAnew := by
  have hstart : Node.Rebound 1 (Node.reached .minimal false
      [.surface (.bind [1] 0 false [1]) .allReady 5, Node.rebind]) := by
    have hcoherent := Node.coherent_reached (L := .minimal) false
      [.surface (.bind [1] 0 false [1]) .allReady 5, Node.rebind]
    refine ⟨hcoherent.sound.arena, ?_, by decide +kernel, by decide +kernel⟩
    have hfound : ((Node.reached .minimal false [.surface (.bind [1] 0 false [1]) .allReady 5,
        Node.rebind]).ns.bindings.lookup (surfaceKey [1])).map BindingSlot.changeRev = some 1 := by
      decide +kernel
    exact Option.map_eq_some_iff.mp hfound
  have hcount : 2 ^ 64 - 2 = (2 ^ 64 - 3) + 1 := by decide
  have hsum : 1 + (2 ^ 64 - 3) = 2 ^ 64 - 2 := by decide
  have hall := hstart.run (2 ^ 64 - 3) (by decide)
  rw [hsum] at hall
  have hbinds := run_binds (2 ^ 64 - 3)
  generalize (Node.reached .minimal false [.surface (.bind [1] 0 false [1]) .allReady 5,
    Node.rebind]).run (List.replicate (2 ^ 64 - 3) Node.rebind) = n at hall hbinds
  rw [takenRun, ← List.cons_append, hcount, run, Run.run_append]
  rw [run] at hbinds
  rw [hbinds, Run.run_cons, Run.run_nil]
  have hseq : n.ns.bindings.changeSeq = UInt64.ofNat (2 ^ 64 - 1) := by
    have hnum : 2 ^ 64 - 2 + 1 = 2 ^ 64 - 1 := by decide
    rw [hall.seq, hnum]
  rw [step_watch hseq]
  exact last_rings_nobody hall

end RoundTheCounter

end DoorWorld

end Loam

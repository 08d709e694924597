import Loam.ProviderRename
import Loam.Effects

/-!
# The numbers of the changes

Each change of the arena takes the next number of one counter, and its slot keeps the number of
its last change (`change_rev`, `change_seq`). As long as the counter does not go round, no two
slots have one number and none is past the counter (`Arena.Numbered`). What the arena does to a
slot is one of three things: it writes it under the next number, it amends it under the number
it has, or it frees it (`Arena.Trace`). Each event is a few of these, and what it writes is told
from the record or the call and the state before it (`Node.writes`): the entries, and the slots
they go to. What one of the three keeps is then kept by every event.
-/

namespace Loam

namespace Arena

variable {L : Limits} {a a' a'' : Arena L} {s t : BindingSlot} {i j m n : ℕ} {k : Key}

/-- No two slots have one number, and none is past the counter. -/
structure Numbered (a : Arena L) : Prop where
  distinct : ∀ s t i j, (s, i) ∈ a.occupied → (t, j) ∈ a.occupied →
    s.changeRev = t.changeRev → i = j
  bounded : ∀ s i, (s, i) ∈ a.occupied → s.changeRev ≤ a.changeSeq

/-- **What an arena represents**: a key has one slot, the hashes are those of the bytes, every
slot is found under its key, and the numbers are told apart. -/
structure Represents (a : Arena L) : Prop where
  unique : ∀ s t i j, (s, i) ∈ a.occupied → (t, j) ∈ a.occupied → s.toKey = t.toKey → i = j
  hashed : ∀ s i, (s, i) ∈ a.occupied → s.namespaceHash = fnv1a64 s.root ∧
    s.pathHash = fnv1a64 s.path ∧ (s.live = true → s.objectIdHash = fnv1a64 s.objectId)
  found : ∀ s i, (s, i) ∈ a.occupied → a.lookup s.toKey = some s
  numbered : a.Numbered

/-- At most `m` numbers are taken, if there are as many. -/
def Takes (m : ℕ) (a a' : Arena L) : Prop :=
  a.Numbered → a.changeSeq.toNat + m < 2 ^ 64 →
    a'.Numbered ∧ a'.changeSeq.toNat ≤ a.changeSeq.toNat + m

theorem Takes.refl (a : Arena L) : Takes m a a := fun h _ => ⟨h, Nat.le_add_right _ _⟩

theorem Takes.mono (h : Takes m a a') (hmn : m ≤ n) : Takes n a a' := by
  intro hn hroom
  obtain ⟨hn', hle⟩ := h hn (by omega)
  exact ⟨hn', by omega⟩

theorem Takes.trans (h : Takes m a a') (h' : Takes n a' a'') : Takes (m + n) a a'' := by
  intro hn hroom
  obtain ⟨hn', hle⟩ := h hn (by omega)
  obtain ⟨hn'', hle'⟩ := h' hn' (by omega)
  exact ⟨hn'', by omega⟩

/-! ## What is done to a slot -/

/-- What is read of an arena for its numbers. -/
theorem Takes.of_slots {f : BindingSlot → BindingSlot} (hf : ∀ s, (f s).changeRev = s.changeRev)
    (hslots : a'.slots = a.slots.map (Option.map f)) (hseq : a'.changeSeq = a.changeSeq) :
    Takes 0 a a' := by
  have hmem : ∀ t i, (t, i) ∈ a'.occupied → ∃ s, (s, i) ∈ a.occupied ∧ f s = t := fun t i ht => by
    rw [occupied, hslots] at ht
    exact SlotTable.mem_used_map.mp ht
  intro hn _
  refine ⟨⟨fun s t i j hs ht heq => ?_, fun s i hs => ?_⟩, hseq ▸ Nat.le_refl _⟩
  · obtain ⟨x, hx, rfl⟩ := hmem _ _ hs
    obtain ⟨y, hy, rfl⟩ := hmem _ _ ht
    rw [hf, hf] at heq
    exact hn.distinct x y i j hx hy heq
  · obtain ⟨x, hx, rfl⟩ := hmem _ _ hs
    rw [hf, hseq]
    exact hn.bounded x i hx

theorem toNat_next {q : UInt64} (h : q.toNat + 1 < 2 ^ 64) : (q + 1).toNat = q.toNat + 1 := by
  rw [UInt64.toNat_add]
  exact Nat.mod_eq_of_lt h

/-- A slot that is written under the next number. -/
theorem takes_stamp (hi : i < L.namespaceSlots) (hs : s.changeRev = a.changeSeq + 1) :
    Takes 1 a ((a.setSlot i (some s)).stamped (a.changeSeq + 1)) := by
  intro hn hroom
  have hnext := toNat_next hroom
  have hmem : ∀ t j, (t, j) ∈ ((a.setSlot i (some s)).stamped (a.changeSeq + 1)).occupied →
      (j = i ∧ s = t) ∨ (j ≠ i ∧ (t, j) ∈ a.occupied) := fun t j ht => by
    rw [occupied_stamped, mem_occupied_setSlot hi] at ht
    exact ht.imp_left fun h => ⟨h.1, Option.some.inj h.2⟩
  -- An old number is below the new one.
  have hold : ∀ t j, (t, j) ∈ a.occupied → t.changeRev ≠ a.changeSeq + 1 := fun t j ht heq => by
    have hle := UInt64.le_iff_toNat_le.mp (hn.bounded t j ht)
    rw [heq, hnext] at hle
    omega
  refine ⟨⟨fun x y p q hx hy heq => ?_, fun x p hx => ?_⟩, ?_⟩
  · rcases hmem x p hx with ⟨hp, hx'⟩ | ⟨-, hx'⟩
    · rcases hmem y q hy with ⟨hq, -⟩ | ⟨-, hy'⟩
      · exact hp.trans hq.symm
      · exact absurd (heq.symm.trans (hx' ▸ hs)) (hold y q hy')
    · rcases hmem y q hy with ⟨-, hy'⟩ | ⟨-, hy'⟩
      · exact absurd (heq.trans (hy' ▸ hs)) (hold x p hx')
      · exact hn.distinct x y p q hx' hy' heq
  · show x.changeRev ≤ a.changeSeq + 1
    rcases hmem x p hx with ⟨-, rfl⟩ | ⟨-, hx⟩
    · exact hs ▸ UInt64.le_refl _
    have hle := UInt64.le_iff_toNat_le.mp (hn.bounded x p hx)
    rw [UInt64.le_iff_toNat_le, hnext]
    omega
  · show (a.changeSeq + 1).toNat ≤ _
    rw [hnext]

/-- A slot that is amended under the number it has. -/
theorem takes_amend (hm : (s, i) ∈ a.occupied) (ht : t.changeRev = s.changeRev) :
    Takes 0 a (a.setSlot i (some t)) := by
  intro hn _
  have hmem : ∀ x j, (x, j) ∈ (a.setSlot i (some t)).occupied →
      ∃ y, (y, j) ∈ a.occupied ∧ x.changeRev = y.changeRev := fun x j hx => by
    rw [mem_occupied_setSlot (lt_of_mem_occupied hm)] at hx
    rcases hx with ⟨rfl, hx⟩ | ⟨-, hx⟩
    · cases Option.some.inj hx
      exact ⟨s, hm, ht⟩
    · exact ⟨x, hx, rfl⟩
  refine ⟨⟨fun x y p q hx hy heq => ?_, fun x p hx => ?_⟩, Nat.le_refl _⟩
  · obtain ⟨x', hx', hxr⟩ := hmem x p hx
    obtain ⟨y', hy', hyr⟩ := hmem y q hy
    exact hn.distinct x' y' p q hx' hy' (hxr.symm.trans (heq.trans hyr))
  · obtain ⟨x', hx', hxr⟩ := hmem x p hx
    exact hxr ▸ hn.bounded x' p hx'

theorem takes_free (hi : i < L.namespaceSlots) (q : UInt64) :
    Takes 0 a ((a.setSlot i none).forgetChange q) := by
  intro hn _
  have hmem : ∀ x j, (x, j) ∈ ((a.setSlot i none).forgetChange q).occupied → (x, j) ∈ a.occupied :=
    fun x j hx => by
      rw [occupied_forgetChange, mem_occupied_setSlot hi] at hx
      exact (hx.resolve_left fun h => Option.some_ne_none x h.2.symm).2
  have hseq : ((a.setSlot i none).forgetChange q).changeSeq = a.changeSeq := by
    unfold forgetChange
    split <;> rfl
  refine ⟨⟨fun x y p r hx hy => hn.distinct x y p r (hmem x p hx) (hmem y r hy), fun x p hx => ?_⟩,
    ?_⟩
  · rw [hseq]
    exact hn.bounded x p (hmem x p hx)
  · rw [hseq]
    exact Nat.le_refl _

theorem Trace.takes {ws : List SlotWrite} (h : a.Trace ws a') : Takes ws.length a a' := by
  induction h with
  | nothing => exact .refl a
  | stamp _ hi hs _ _ ih => exact ih.trans (takes_stamp hi hs)
  | amend _ hm hr _ _ _ ih => exact ih.trans (takes_amend hm hr)
  | free _ hm _ ih => exact ih.trans (takes_free (lt_of_mem_occupied hm) _)

/-! ## What the operations do -/

theorem numbered_new : (new L).Numbered :=
  ⟨fun _ _ _ _ hs => absurd hs not_mem_occupied_new, fun _ _ hs => absurd hs not_mem_occupied_new⟩

theorem trace_markEmitted (a : Arena L) (i : ℕ) (tag : UInt8) :
    a.Trace [] (a.markEmitted i tag) := by
  unfold markEmitted
  split
  · next s hs =>
    have hm : (s, i) ∈ a.occupied := mem_occupied.mpr (Option.join_eq_some_iff.mp hs)
    exact .amend .nothing hm rfl rfl rfl rfl
  · exact .nothing

theorem takes_finalizeEmitted (a : Arena L) (tag : UInt8) : Takes 0 a (a.finalizeEmitted tag) :=
  .of_slots (fun s => by unfold BindingSlot.promote; split <;> rfl) rfl rfl

/-- An entry that is written, to the slot there is. -/
def written (k : Key) (b : Binding) (slot : Option ℕ) : List SlotWrite :=
  slot.toList.map fun i => ⟨k, b, i⟩

theorem mem_written {b : Binding} {slot : Option ℕ} (h : slot = some i) :
    ⟨k, b, i⟩ ∈ written k b slot := by
  rw [h]
  exact List.mem_singleton_self _

/-- What carrying out an effect writes. -/
def writes (a : Arena L) : Effect → List SlotWrite
  | .keep => []
  | .put k b => written k b (a.slotFor k none)
  | .move m =>
    match a.lookup ⟨m.root, m.source⟩ with
    | some src =>
      written ⟨m.root, m.source⟩ (.tombstone m.newRevision) (a.place ⟨m.root, m.source⟩) ++
        written ⟨m.root, m.dest⟩
          { src.toBinding with revision := pastTombstone m.newRevision (a.lookup ⟨m.root, m.dest⟩) }
          (a.slotFor ⟨m.root, m.dest⟩ (some ⟨m.root, m.source⟩))
    | none => []

end Arena

/-! ## What a record does -/

/-- The numbers a record may take. -/
def Record.numbers : Record → ℕ
  | .rename _ => 2
  | .bind _ | .unbind _ | .retain _ | .volume _ | .bindingRestore _ => 1
  | _ => 0

/-- The numbers an effect takes. -/
def Effect.numbers : Effect → ℕ
  | .keep => 0
  | .put .. => 1
  | .move _ => 2

theorem Effect.numbers_judge {L : Limits} {ns : Namespace L} {r : Record} :
    (ns.judged r).effect.numbers ≤ r.numbers := by
  cases he : (ns.judged r).effect with
  | keep => exact Nat.zero_le _
  | put k b => cases puts_of_judge he <;> exact le_refl 1
  | move m =>
    obtain ⟨rfl, -⟩ := rename_of_judge he
    exact le_refl 2

namespace Arena

variable {L : Limits} {a a' : Arena L}

/-- **What an effect does to the slots**: if it is carried out it writes its entries, and else
nothing. -/
theorem EffectOutcome.trace {e : Effect} {ok : Bool} (ha : a.Sound) (h : a.EffectOutcome e a' ok) :
    ∃ ws, a.Trace ws a' ∧ ws.length ≤ e.numbers ∧ ∀ w ∈ ws, ok = true ∧ w ∈ a.writes e := by
  have hnone : ∀ {a'' : Arena L}, a.Trace [] a'' → ∃ ws, a.Trace ws a'' ∧ ws.length ≤ e.numbers ∧
      ∀ w ∈ ws, ok = true ∧ w ∈ a.writes e := fun ht =>
    ⟨[], ht, Nat.zero_le _, fun _ hw => absurd hw List.not_mem_nil⟩
  cases h with
  | keep => exact hnone .nothing
  | put hp =>
    cases hp with
    | tooLong | noRoom => exact hnone .nothing
    | wrote a₁ _ _ hs hplace hw =>
      obtain ⟨i, hi, ht⟩ := hw.trace
      refine ⟨_, hs.trace.trans ht, le_refl 1, fun w hw => ⟨rfl, ?_⟩⟩
      obtain rfl := List.mem_singleton.mp hw
      exact mem_written (hplace i hi)
  | move hm =>
    cases hm with
    | refused _ hs => exact hnone hs.trace
    | moved a₁ _ src _ _ hs hl _ hd hplace hmv =>
      obtain ⟨i, j, hi, hj, ht⟩ := hmv.trace
      refine ⟨_, hs.trace.trans ht, le_refl 2, fun w hw => ⟨rfl, ?_⟩⟩
      unfold writes
      dsimp only
      rw [hl]
      rw [hd] at hw
      obtain rfl | hw := List.mem_cons.mp hw
      · -- the old name has its slot from before
        obtain ⟨s, hs', hk⟩ := mem_of_place hi (by rw [hs.lookup_spare, hl]; simp)
        obtain ⟨t, ht', htk⟩ := hs.trace.own (fun _ hw => absurd hw List.not_mem_nil) hs'
        exact List.mem_append_left _ (mem_written (ha.place_of_mem ht' (htk.trans hk)))
      · obtain rfl := List.mem_singleton.mp hw
        exact List.mem_append_right _ (mem_written (hplace j hj))

end Arena

namespace Namespace

variable {L : Limits} {ns : Namespace L}

theorem Sound.trace_applyOp (h : ns.Sound) (io : ReadEnv) (r : Record) :
    ∃ ws, ns.bindings.Trace ws (ns.applyOp io r).1.bindings ∧ ws.length ≤ r.numbers ∧
      ∀ w ∈ ws, ns.applyOp io r = ns.applyOp .allReady r ∧
        ns.bindings.canDo (ns.judged r).effect = true ∧
        w ∈ ns.bindings.writes (ns.judged r).effect := by
  rcases h.applyOp_cases io r with ⟨f, hf, -⟩ | he
  · rw [hf]
    exact ⟨[], .nothing, Nat.zero_le _, fun _ hw => absurd hw List.not_mem_nil⟩
  obtain ⟨a', ok, hp, ho⟩ := h.applyOp_carries r
  obtain ⟨ws, ht, hle, hws⟩ := ho.trace h.arena
  rw [he, hp]
  exact ⟨ws, ht, hle.trans Effect.numbers_judge, fun w hw =>
    ⟨rfl, (ho.ok_eq h.arena).symm.trans (hws w hw).1, (hws w hw).2⟩⟩

theorem Sound.trace_replay (h : ns.Sound) (log : List Record) :
    ∃ ws, ns.bindings.Trace ws (ns.replay log).bindings ∧
      ws.length ≤ (log.map Record.numbers).sum := by
  induction log generalizing ns with
  | nil => exact ⟨[], .nothing, le_refl 0⟩
  | cons r log ih =>
    have hone : (ns.replayApply .allReady r).Sound ∧
        ∃ ws, ns.bindings.Trace ws (ns.replayApply .allReady r).bindings ∧
          ws.length ≤ r.numbers := by
      cases r with
      | gcReserve => exact ⟨h.congr rfl rfl, [], .nothing, Nat.zero_le _⟩
      | gcRelease => exact ⟨h, [], .nothing, Nat.zero_le _⟩
      | _ =>
        obtain ⟨ws, ht, hle, -⟩ := h.trace_applyOp .allReady _
        exact ⟨h.sound_applyOp _ _, ws, ht, hle⟩
    obtain ⟨hs, ws, ht, hle⟩ := hone
    obtain ⟨ws', ht', hle'⟩ := ih hs
    refine ⟨ws' ++ ws, ht.trans ht', ?_⟩
    rw [List.length_append, List.map_cons, List.sum_cons]
    omega

/-! ## What a provider call does -/

/-- What a provider call that is carried out writes. A rename's new name goes where there is
room for it once the old one is buried. -/
def surfaceWrites (ns : Namespace L) : SurfaceOp → List Arena.SlotWrite
  | .lookup _ => []
  | .bind path kind replace target =>
    match ns.surfaceRevision path replace with
    | .ok rev =>
      Arena.written (surfaceKey path) ⟨rev, kind, target, Meta.none⟩
        (ns.bindings.place (surfaceKey path))
    | .error _ => []
  | .delete path =>
    match ns.bindings.lookup (surfaceKey path) with
    | some s =>
      Arena.written (surfaceKey path) (.tombstone (s.revision + 1))
        (ns.bindings.place (surfaceKey path))
    | none => []
  | .rename source dest =>
    match ns.bindings.lookup (surfaceKey source) with
    | some src =>
      Arena.written (surfaceKey source) (.tombstone (src.revision + 1))
          (ns.bindings.place (surfaceKey source)) ++
        Arena.written (surfaceKey dest)
          { src.toBinding with revision := ns.surfaceDestRev dest (src.revision + 1) }
          ((ns.removeBinding (surfaceKey source) (src.revision + 1)).1.bindings.slotFor
            (surfaceKey dest) none)
    | none => []

/-- **What a provider call does to the slots**: it writes its entries; or it is refused, the view
is as it was, and what it wrote it wrote to its keys' own slots. -/
theorem SurfaceOutcome.trace {now : UInt64} {op : SurfaceOp} {ns' : Namespace L}
    {res : Except Errno Unit} (ho : ns.SurfaceOutcome now op ns' res) :
    ∃ ws, ns.bindings.Trace ws ns'.bindings ∧ ws.length ≤ op.numbers ∧
      ((∀ w ∈ ws, res.isOk = true ∧ w ∈ ns.surfaceWrites op) ∨ ns'.view = ns.view ∧
        ∀ w ∈ ws, ∃ s, (s, w.slot) ∈ ns.bindings.occupied ∧ s.toKey = w.key) := by
  cases ho with
  | refused op e a' _ _ hv ht =>
    obtain ⟨ws, ht, hle, hown⟩ := ht
    exact ⟨ws, ht, hle, .inr ⟨hv, hown⟩⟩
  | found => exact ⟨[], .nothing, le_refl 0, .inl fun _ hw => absurd hw List.not_mem_nil⟩
  | bound path kind replace target rev a' _ _ hrev _ _ hw =>
    obtain ⟨i, hi, ht⟩ := hw.trace
    refine ⟨_, ht, le_refl 1, .inl fun w hw => ⟨rfl, ?_⟩⟩
    obtain rfl := List.mem_singleton.mp hw
    unfold surfaceWrites
    dsimp only
    rw [hrev]
    exact Arena.mem_written hi
  | deleted path s a' _ hl _ hw =>
    obtain ⟨i, hi, ht⟩ := hw.trace
    refine ⟨_, ht, le_refl 1, .inl fun w hw => ⟨rfl, ?_⟩⟩
    obtain rfl := List.mem_singleton.mp hw
    unfold surfaceWrites
    dsimp only
    rw [hl]
    exact Arena.mem_written hi
  | renamed source dest src a' _ _ _ hl _ _ _ _ _ ht =>
    obtain ⟨i, j, hi, hj, ht⟩ := ht
    refine ⟨_, ht, le_refl 2, .inl fun w hw => ⟨rfl, ?_⟩⟩
    unfold surfaceWrites
    dsimp only
    rw [hl]
    obtain rfl | hw := List.mem_cons.mp hw
    · exact List.mem_append_right _ (Arena.mem_written hj)
    · obtain rfl := List.mem_singleton.mp hw
      exact List.mem_append_left _ (Arena.mem_written hi)

end Namespace

/-! ## Runs -/

namespace Node

variable {L : Limits} {n : Node L} {e : Event}

/-- **The counter does not go round**: it has the numbers the event may take, and where the
process boots again, the numbers its log may take. -/
def Room (n : Node L) : Event → Prop
  | .feed r _ _ => n.ns.bindings.changeSeq.toNat + r.numbers < 2 ^ 64
  | .surface op _ _ => n.ns.bindings.changeSeq.toNat + op.numbers < 2 ^ 64
  | .crash => (n.disk.log.map Record.numbers).sum < 2 ^ 64
  | _ => True

instance (n : Node L) : (e : Event) → Decidable (n.Room e)
  | .feed .. | .surface .. | .crash => inferInstanceAs (Decidable (_ < _))
  | .compactStart | .openDone | .openFailed _ | .merge _ | .mergeFailed | .finishDone
  | .finishFailed _ | .reopenDone | .reopenFailed | .rotate _ => .isTrue trivial

/-- The numbers an event of a running instance may take. -/
def numbers : Event → ℕ
  | .feed r _ _ => r.numbers
  | .surface op _ _ => op.numbers
  | _ => 0

theorem Room.lt (hroom : n.Room e) (he : e ≠ .crash) :
    n.ns.bindings.changeSeq.toNat + numbers e < 2 ^ 64 := by
  cases e with
  | crash => exact absurd rfl he
  | feed | surface => exact hroom
  | _ => exact UInt64.toNat_lt _

/-- **What an event writes**: a record that is taken, its reads deciding, what it is judged to, as
far as the arena can; a provider call that is carried out its entries. -/
def writes (n : Node L) : Event → List Arena.SlotWrite
  | .feed r io _ =>
    if n.takes r = true ∧ n.ns.applyOp io r = n.ns.applyOp .allReady r ∧
        n.ns.bindings.canDo (n.ns.judged r).effect = true then
      n.ns.bindings.writes (n.ns.judged r).effect
    else []
  | .surface op io now =>
    if (surfaceOp n.ns io now op).2.isOk then n.ns.surfaceWrites op else []
  | _ => []

/-- The compactor marks slots, and marks them covered. -/
theorem trace_internal (n : Node L) (he : e.internal = true) :
    n.ns.bindings.Trace [] (n.step e).ns.bindings ∨
      ∃ tag, (n.step e).ns.bindings = n.ns.bindings.finalizeEmitted tag := by
  have hstep := n.internalStep he
  generalize n.step e = n' at hstep ⊢
  cases hstep with
  | compactor | slot | rotate => exact .inl .nothing
  | mark io he c i tag => exact .inl (Arena.trace_markEmitted _ _ _)
  | switch => exact .inr ⟨_, rfl⟩

/-- **What an event of a running instance does to the slots**: it writes its entries; or the view
is as it was, and what it wrote it wrote to its keys' own slots; or a generation is finished. -/
theorem Coherent.trace (h : n.Coherent) (he : e ≠ .crash) :
    (∃ ws, n.ns.bindings.Trace ws (n.step e).ns.bindings ∧ ws.length ≤ numbers e ∧
      ((∀ w ∈ ws, w ∈ n.writes e) ∨ (n.step e).ns.view = n.ns.view ∧
        ∀ w ∈ ws, ∃ s, (s, w.slot) ∈ n.ns.bindings.occupied ∧ s.toKey = w.key)) ∨
      e.internal = true ∧ ∃ tag, (n.step e).ns.bindings = n.ns.bindings.finalizeEmitted tag := by
  by_cases hi : e.internal = true
  · refine (n.trace_internal hi).imp (fun ht => ?_) fun hf => ⟨hi, hf⟩
    exact ⟨[], ht, Nat.zero_le _, .inl fun _ hw => absurd hw List.not_mem_nil⟩
  cases e with
  | crash => exact absurd rfl he
  | feed r io proof =>
    refine .inl ?_
    show ∃ ws, n.ns.bindings.Trace ws (n.feed r io proof).1.ns.bindings ∧ _
    unfold Node.feed
    split
    · exact ⟨[], .nothing, Nat.zero_le _, .inl fun _ hw => absurd hw List.not_mem_nil⟩
    next htake =>
    obtain ⟨ws, ht, hle, hws⟩ := h.sound.trace_applyOp io r
    split
    · exact ⟨[], .nothing, Nat.zero_le _, .inl fun _ hw => absurd hw List.not_mem_nil⟩
    next hv =>
    rw [hv] at ht
    refine ⟨ws, ht, hle, .inl fun w hw => ?_⟩
    obtain ⟨hio, hcan, hw⟩ := hws w hw
    unfold writes
    dsimp only
    rw [if_pos ⟨by simpa using htake, hio, hcan⟩]
    exact hw
  | surface op io now =>
    refine .inl ?_
    obtain ⟨ws, ht, hle, hws⟩ := (h.sound.surfaceOp_outcome h.fits io now op).trace
    refine ⟨ws, ht, hle, hws.imp_left fun hws w hw => ?_⟩
    unfold writes
    dsimp only
    rw [if_pos (hws w hw).1]
    exact (hws w hw).2
  | _ => exact absurd rfl hi

theorem numbered_boot {cfg : Bool} {d : Disk} (hd : ∀ w, ∀ g ∈ d.slot w, g.Sorted)
    (hroom : (d.log.map Record.numbers).sum < 2 ^ 64) : (boot L cfg d).ns.bindings.Numbered := by
  unfold boot
  dsimp only
  split
  · obtain ⟨ws, ht, hle⟩ := (sound_opened (sorted_opens (L := L) hd)).trace_replay d.log
    refine (ht.takes.mono hle Arena.numbered_new ?_).1
    exact (Nat.zero_add _).symm ▸ hroom
  · exact Arena.numbered_new

theorem numbered_init (cfg : Bool) : (init L cfg).ns.bindings.Numbered :=
  numbered_boot (fun w g hg => by cases w <;> cases hg) (by decide)

theorem Room.numbered (h : n.Coherent) (hn : n.ns.bindings.Numbered) (hroom : n.Room e) :
    (n.step e).ns.bindings.Numbered := by
  by_cases he : e = .crash
  · subst he
    exact numbered_boot h.disk hroom
  · obtain ⟨ws, ht, hle, -⟩ | ⟨-, tag, hf⟩ := h.trace he
    · exact (ht.takes.mono hle hn (hroom.lt he)).1
    · rw [hf]
      exact (Arena.takes_finalizeEmitted _ tag hn (UInt64.toNat_lt _)).1

/-- **The arena represents its bindings** in every state of a run, as long as its counter does
not go round. -/
theorem arena_represents (cfg : Bool) {es : List Event}
    (hroom : Run.AllSteps step Room (init L cfg) es) : (reached L cfg es).ns.bindings.Represents := by
  have hs := (coherent_reached (L := L) cfg es).sound.arena
  refine ⟨fun s t i j hs' ht hk => hs.keys_unique hs' ht hk, fun s i _ => ?_,
    fun s i hm => hs.lookup_of_mem hm, ?_⟩
  · refine ⟨s.key_hashed.1, s.key_hashed.2, fun hlive => s.oid_hashed ?_⟩
    exact bne_iff_ne.mp hlive
  · exact (Run.invariant (I := fun n : Node L => n.Coherent ∧ n.ns.bindings.Numbered)
      (fun _ e hn hroom => ⟨hn.1.step e, Room.numbered hn.1 hn.2 hroom⟩)
      ⟨coherent_init cfg, numbered_init cfg⟩ hroom).2

/-- A log is written, read back at a boot, and written on. -/
theorem arena_represents_boot :
    (reached .minimal true [.surface (.bind [1] 0 false [1]) .allReady 5, .crash,
      .surface (.bind [2] 0 false [1]) .allReady 6]).ns.bindings.Represents :=
  arena_represents true (by decide +kernel)

section RoundTheCounter

/-- A name is bound anew. -/
def rebind : Event := .surface (.bind [2] 0 true [1]) .allReady 5

/-- Two names are bound, and the second as often as its revision can rise. -/
def roundRun : List Event :=
  .surface (.bind [1] 0 false [1]) .allReady 5 :: List.replicate (2 ^ 64 - 1) rebind

/-- What there is after `m` binds of the second name. -/
structure Rebound (m : ℕ) (n : Node L) : Prop where
  sound : n.ns.bindings.Sound
  first : ∃ s, n.ns.bindings.lookup (surfaceKey [1]) = some s ∧ s.changeRev = 1
  second : n.ns.bindings.binding (surfaceKey [2]) = some ⟨UInt64.ofNat m, 0, [1], Meta.none⟩
  seq : n.ns.bindings.changeSeq = UInt64.ofNat (m + 1)

theorem Rebound.step {m : ℕ} {n : Node .minimal} (h : Rebound m n) (hm : m + 1 < 2 ^ 64) :
    Rebound (m + 1) (n.step rebind) := by
  obtain ⟨hsound, ⟨c, hc, hcrev⟩, hsecond, hseq⟩ := h
  obtain ⟨s, hl, hs⟩ := Option.map_eq_some_iff.mp hsecond
  obtain ⟨i, hmem, hkey⟩ := hsound.lookup_eq_some_iff.mp hl
  have hloc := hsound.locate_eq_some_iff.mpr ⟨hmem, hkey⟩
  have hrev : s.revision = UInt64.ofNat m := congrArg Binding.revision hs
  have hread : ∀ io, n.ns.surfaceRead io [2] = .ok (some s.toBinding) := fun io => by
    rw [Namespace.surfaceRead, Namespace.read_of_lookup hl]
  have hlive : s.live = true := by rw [hs]; rfl
  have hnext : UInt64.ofNat m + 1 = UInt64.ofNat (m + 1) := by
    rw [UInt64.ofNat_add]
    rfl
  have hrise : UInt64.ofNat m < UInt64.ofNat (m + 1) := by
    rw [UInt64.lt_iff_toNat_lt, UInt64.toNat_ofNat_of_lt' (Nat.lt_of_succ_lt hm),
      UInt64.toNat_ofNat_of_lt' hm]
    exact Nat.lt_succ_self m
  have hlocked := hsound.unlocked hmem
  set t : BindingSlot := s.rewrite ⟨UInt64.ofNat (m + 1), 0, [1], Meta.none⟩ (fnv1a64 [1])
    (n.ns.bindings.changeSeq + 1) fun _ => rfl with ht
  obtain ⟨hsound', hlookup⟩ := hsound.rewritten_stamped (t := t) hmem rfl hlocked
    (n.ns.bindings.changeSeq + 1)
  set a' := (n.ns.bindings.setSlot i (some t)).stamped (n.ns.bindings.changeSeq + 1) with ha'
  have hbind : n.ns.bindings.bind (surfaceKey [2]) [1] 0 (UInt64.ofNat (m + 1)) Meta.none =
      .ok a' := by
    have hfit : Arena.bindFits .minimal (surfaceKey [2]) [1] Meta.none = true := by decide
    have hne : (UInt64.ofNat (m + 1) == UInt64.ofNat m) = false := by
      rw [beq_eq_false_iff_ne]
      exact (UInt64.ne_of_lt hrise).symm
    unfold Arena.bind
    simp only [hfit, hloc, hlocked, hne, hrev, Bool.not_true, Bool.false_and, Bool.false_eq_true,
      if_false, if_pos hrise]
    rfl
  have hstep : n.step rebind = { n with ns := { n.ns with bindings := a' } } := by
    have hcall : n.ns.surfaceBind .allReady 5 [2] 0 true [1] =
        ({ n.ns with bindings := a' }, .ok ()) := by
      have hvolume : n.ns.liveVolume .allReady [2] = .ok false := by
        rw [Namespace.liveVolume, hread, hs]
        rfl
      have hretained : n.ns.surfaceRetained .allReady [2] 5 = .ok false := by
        rw [Namespace.surfaceRetained, hread, hs]
        rfl
      have hslot : n.ns.liveSlot [2] = some (s, i) := by
        rw [Namespace.liveSlot, hloc, Option.filter_some, if_pos hlive]
      have hrevision : n.ns.surfaceRevision [2] true = .ok (UInt64.ofNat (m + 1)) := by
        rw [Namespace.surfaceRevision, hslot]
        show Except.ok (s.revision + 1) = _
        rw [hrev, hnext]
      unfold Namespace.surfaceBind
      rw [if_neg (by decide), hvolume]
      dsimp only
      rw [hretained]
      dsimp only
      rw [hrevision]
      dsimp only
      rw [hbind]
    show { n with ns := (n.ns.surfaceBind .allReady 5 [2] 0 true [1]).1 } = _
    rw [hcall]
  rw [hstep]
  refine ⟨hsound', ⟨c, ?_, hcrev⟩, ?_, ?_⟩
  · rw [hlookup, hkey, if_neg (by decide)]
    exact hc
  · rw [Arena.binding, hlookup, hkey, if_pos rfl]
    rfl
  · show n.ns.bindings.changeSeq + 1 = _
    rw [hseq, UInt64.ofNat_add (m + 1) 1]
    rfl

theorem Rebound.run {m : ℕ} (j : ℕ) {n : Node .minimal} (h : Rebound m n) (hj : m + j < 2 ^ 64) :
    Rebound (m + j) (n.run (List.replicate j rebind)) := by
  induction j generalizing m n with
  | zero => exact h
  | succ j ih =>
    have hrest := ih (h.step (by omega)) (by omega)
    rw [Nat.add_right_comm] at hrest
    exact hrest

/-- **The counter goes round**, and the first slot's number is past it. -/
theorem counter_goes_round : ¬ (reached .minimal false roundRun).ns.bindings.Represents := by
  have hstart : Rebound 1 ((reached .minimal false [.surface (.bind [1] 0 false [1]) .allReady 5,
      rebind])) := by
    have hcoherent := coherent_reached (L := .minimal) false
      [.surface (.bind [1] 0 false [1]) .allReady 5, rebind]
    refine ⟨hcoherent.sound.arena, ?_, by decide +kernel, by decide +kernel⟩
    have hfound : ((reached .minimal false [.surface (.bind [1] 0 false [1]) .allReady 5,
        rebind]).ns.bindings.lookup (surfaceKey [1])).map BindingSlot.changeRev = some 1 := by
      decide +kernel
    exact Option.map_eq_some_iff.mp hfound
  have hround : ∀ j, reached .minimal false
      (.surface (.bind [1] 0 false [1]) .allReady 5 :: List.replicate (j + 1) rebind) =
        (reached .minimal false [.surface (.bind [1] 0 false [1]) .allReady 5, rebind]).run
          (List.replicate j rebind) := fun j => rfl
  have hrun : Rebound (1 + (2 ^ 64 - 2)) (reached .minimal false roundRun) := by
    have hcount : 2 ^ 64 - 1 = (2 ^ 64 - 2) + 1 := by decide
    rw [roundRun, hcount, hround]
    exact hstart.run _ (by decide)
  intro h
  obtain ⟨s, hs, hrev⟩ := hrun.first
  obtain ⟨i, hm, -⟩ := hrun.sound.lookup_eq_some_iff.mp hs
  have hle := h.numbered.bounded s i hm
  rw [hrev, hrun.seq] at hle
  exact absurd hle (by decide)

end RoundTheCounter

end Node

end Loam

import Loam.AdminGateStream

/-!
# The sessions of the network over an event

A session of the network has a number of its own from when it is opened until it
ends (`Numbered`). An event of the gate touches one slot (`Touches`), or lets the
sessions go on with what waits for them (`Calm`): but for those of an earlier
generation of a connection, which the transport ends when it announces the next.
-/

namespace Loam.AdminGate

open Slices

variable {C : Config} {g g' g'' : Gate} {k i j : ℕ} {s s' : NetSession}
  {conn gen : UInt16}

/-! ## The table of sessions -/

/-- A session that is not announced has no bytes, and none is closing. -/
def NetSession.Waits (s : NetSession) : Prop := s.closing = false ∧ (s.accepted = false → s.rx = [])

/-- The sessions have numbers of their own. -/
structure Numbered (g : Gate) : Prop where
  le : ∀ {k i s}, g.Has k i s → k ≤ g.opened
  inj : ∀ {k i j s t}, g.Has k i s → g.Has k j t → i = j
  waits : ∀ {i : ℕ} {s : NetSession}, g.net[i]? = some s → s.Waits

/-- One slot is touched, and a session there keeps its number or ends. -/
structure Touches (i : ℕ) (g g' : Gate) : Prop where
  opened : g'.opened = g.opened
  others : ∀ j, j ≠ i → g'.net[j]? = g.net[j]?
  self : ∀ s', g'.net[i]? = some s' → ∃ s, g.net[i]? = some s ∧
    (s'.inUse = true → s.inUse = true ∧ s'.incarnation = s.incarnation) ∧ (s.Waits → s'.Waits)

theorem Touches.refl (i : ℕ) (g : Gate) : Touches i g g :=
  ⟨rfl, fun _ _ => rfl, fun s hs => ⟨s, hs, fun h => ⟨h, rfl⟩, id⟩⟩

theorem Touches.modify {f : NetSession → NetSession} (hopened : g'.opened = g.opened)
    (hnet : g'.net = g.net.modify i f)
    (hf : ∀ s, g.net[i]? = some s →
      ((f s).inUse = true → s.inUse = true ∧ (f s).incarnation = s.incarnation) ∧
        (s.Waits → (f s).Waits)) : Touches i g g' where
  opened := hopened
  others j hj := by
    rw [hnet, List.getElem?_modify_ne _ _ (Ne.symm hj)]
  self s' hs' := by
    rw [hnet, List.getElem?_modify_eq] at hs'
    obtain ⟨s, hs, rfl⟩ := Option.map_eq_some_iff.mp hs'
    exact ⟨s, hs, hf s hs⟩

/-- A session that is there was there; only the touched one may differ. -/
theorem Touches.back (h : Touches i g g') (hs' : g'.Has k j s') :
    ∃ s, g.Has k j s ∧ (j ≠ i → s' = s) := by
  by_cases hj : j = i
  · subst hj
    obtain ⟨s, hs, hheld, -⟩ := h.self s' hs'.1
    obtain ⟨huse, hinc⟩ := hheld hs'.2.1
    exact ⟨s, ⟨hs, huse, hinc.symm.trans hs'.2.2⟩, fun hne => absurd rfl hne⟩
  · exact ⟨s', ⟨(h.others j hj) ▸ hs'.1, hs'.2⟩, fun _ => rfl⟩

/-- A session that is not touched is there still. -/
theorem Touches.forth (h : Touches i g g') (hs : g.Has k j s) (hj : j ≠ i) : g'.Has k j s :=
  ⟨(h.others j hj).trans hs.1, hs.2⟩

/-- Touching a session opens none. -/
theorem Numbered.touch (h : Numbered g) (ht : Touches i g g') : Numbered g' where
  le hs' := by
    obtain ⟨s, hs, -⟩ := ht.back hs'
    exact (h.le hs).trans_eq ht.opened.symm
  inj hs' ht' := by
    obtain ⟨s, hs, -⟩ := ht.back hs'
    obtain ⟨t, ht, -⟩ := ht.back ht'
    exact h.inj hs ht
  waits {j s'} hs' := by
    by_cases hj : j = i
    · subst hj
      obtain ⟨s, hs, -, hwaits⟩ := ht.self s' hs'
      exact hwaits (h.waits hs)
    · exact h.waits ((ht.others j hj) ▸ hs')

/-- The sessions go on as they are, but for those of `E`, which may end, and for one
that may be opened. -/
structure Calm (E : NetSession → Prop) (g g' : Gate) : Prop where
  numbered : Numbered g → Numbered g'
  opened : g.opened ≤ g'.opened
  back : ∀ {k i s'}, g'.Has k i s' →
    (∃ s, g.Has k i s ∧ s'.rx = s.rx) ∨ (g.opened < k ∧ s'.rx = [])
  forth : ∀ {k i s}, g.Has k i s → ¬ E s → ∃ s', g'.Has k i s'

/-- No session ends. -/
abbrev Still (g g' : Gate) : Prop := Calm (fun _ => False) g g'

theorem Still.of_eq (hnet : g'.net = g.net) (hopened : g.opened ≤ g'.opened) : Still g g' where
  numbered h :=
    { le := fun hs => (h.le ⟨hnet ▸ hs.1, hs.2⟩).trans hopened
      inj := fun hs ht => h.inj ⟨hnet ▸ hs.1, hs.2⟩ ⟨hnet ▸ ht.1, ht.2⟩
      waits := fun hs => h.waits (hnet ▸ hs) }
  opened := hopened
  back hs := .inl ⟨_, ⟨hnet ▸ hs.1, hs.2⟩, rfl⟩
  forth hs _ := ⟨_, hnet ▸ hs.1, hs.2⟩

theorem Still.modify {f : NetSession → NetSession} (hopened : g'.opened = g.opened)
    (hnet : g'.net = g.net.modify i f) (huse : ∀ s, (f s).inUse = s.inUse)
    (hinc : ∀ s, (f s).incarnation = s.incarnation) (hrx : ∀ s, (f s).rx = s.rx)
    (hwaits : ∀ s, s.Waits → (f s).Waits) : Still g g' where
  numbered h := h.touch (.modify hopened hnet fun s _ =>
    ⟨fun hu => ⟨(huse s).symm.trans hu, hinc s⟩, hwaits s⟩)
  opened := hopened.ge
  back {k j s'} hs' := by
    have hget := hs'.1
    rw [hnet, List.getElem?_modify] at hget
    obtain ⟨s, hs, he⟩ := Option.map_eq_some_iff.mp hget
    split at he
    · subst he
      exact .inl ⟨s, ⟨hs, (huse s).symm.trans hs'.2.1, (hinc s).symm.trans hs'.2.2⟩, hrx s⟩
    · subst he
      exact .inl ⟨s, ⟨hs, hs'.2⟩, rfl⟩
  forth {k j s} hs _ := by
    by_cases hj : i = j
    · refine ⟨f s, ?_, (huse s).trans hs.2.1, (hinc s).trans hs.2.2⟩
      rw [hnet, ← hj, List.getElem?_modify_eq, hj, hs.1]
      rfl
    · refine ⟨s, ?_, hs.2⟩
      rw [hnet, List.getElem?_modify_ne _ _ hj, hs.1]

theorem Calm.trans {E : NetSession → Prop} (h : Calm E g g') (h' : Still g' g'') : Calm E g g'' where
  numbered hn := h'.numbered (h.numbered hn)
  opened := h.opened.trans h'.opened
  back hs := by
    rcases h'.back hs with ⟨t, ht, hrx⟩ | ⟨hlt, hrx⟩
    · rcases h.back ht with ⟨u, hu, hrx'⟩ | ⟨hlt, hrx'⟩
      · exact .inl ⟨u, hu, hrx.trans hrx'⟩
      · exact .inr ⟨hlt, hrx.trans hrx'⟩
    · exact .inr ⟨h.opened.trans_lt hlt, hrx⟩
  forth hs hE := by
    obtain ⟨t, ht⟩ := h.forth hs hE
    exact h'.forth ht not_false

/-- A session of an earlier generation of a connection. -/
def Stale (conn gen : UInt16) (s : NetSession) : Prop := s.conn = conn ∧ s.gen ≠ gen

/-- Dropping the stale ones leaves the others as they are. -/
theorem dropStale_getElem? (hs' : (g.dropStale conn gen).net[i]? = some s') :
    ∃ s, g.net[i]? = some s ∧ (s'.inUse = true → s' = s) ∧ (s.Waits → s'.Waits) := by
  obtain ⟨s, hs, rfl⟩ := Option.map_eq_some_iff.mp ((List.getElem?_map ..).symm.trans hs')
  refine ⟨s, hs, ?_⟩
  split
  · exact ⟨fun hu => (nomatch hu), fun hw => ⟨hw.1, fun _ => rfl⟩⟩
  · exact ⟨fun _ => rfl, id⟩

/-- The stale sessions of a connection are dropped. -/
theorem dropStale_calm (g : Gate) (conn gen : UInt16) :
    Calm (Stale conn gen) g (g.dropStale conn gen) where
  numbered h :=
    { le := fun hs' => by
        obtain ⟨s, hs, heq, -⟩ := dropStale_getElem? hs'.1
        obtain rfl := heq hs'.2.1
        exact h.le ⟨hs, hs'.2⟩
      inj := fun hs' ht' => by
        obtain ⟨s, hs, hseq, -⟩ := dropStale_getElem? hs'.1
        obtain ⟨t, ht, hteq, -⟩ := dropStale_getElem? ht'.1
        obtain rfl := hseq hs'.2.1
        obtain rfl := hteq ht'.2.1
        exact h.inj ⟨hs, hs'.2⟩ ⟨ht, ht'.2⟩
      waits := fun hs' => by
        obtain ⟨s, hs, -, hwaits⟩ := dropStale_getElem? hs'
        exact hwaits (h.waits hs) }
  opened := Nat.le_refl _
  back hs' := by
    obtain ⟨s, hs, heq, -⟩ := dropStale_getElem? hs'.1
    obtain rfl := heq hs'.2.1
    exact .inl ⟨_, ⟨hs, hs'.2⟩, rfl⟩
  forth {k i s} hs hE := by
    refine ⟨s, ?_, hs.2⟩
    show (g.net.map _)[i]? = some s
    rw [List.getElem?_map, hs.1, Option.map_some, if_neg]
    intro hstale
    simp only [Bool.and_eq_true, beq_iff_eq, bne_iff_ne] at hstale
    exact hE ⟨hstale.1.2, hstale.2⟩

/-- A slot for a connection, a new one perhaps. -/
theorem netFor_calm (g : Gate) (conn gen : UInt16) :
    Calm (Stale conn gen) g (g.netFor conn gen).1 := by
  unfold Gate.netFor
  split
  · exact { Still.of_eq rfl (Nat.le_refl _) with
      forth := fun hs _ => ⟨_, hs⟩ }
  have hdrop := dropStale_calm g conn gen
  unfold Gate.netAlloc
  dsimp only
  split
  · exact hdrop
  next new hfree =>
  obtain ⟨hlt, hnew, -⟩ := List.findIdx?_eq_some_iff_getElem.mp hfree
  have hfree : ∀ s, (g.dropStale conn gen).net[new]? = some s → s.inUse = false := by
    intro s hs
    rw [List.getElem?_eq_getElem hlt] at hs
    obtain rfl := Option.some.inj hs
    simpa using hnew
  -- What is in the table is the new session in its slot, and the old ones.
  have hget : ∀ {i s'}, ((g.dropStale conn gen).net.set new
      { inUse := true, conn := conn, gen := gen, incarnation := g.opened + 1 })[i]? = some s' →
      (i = new ∧ s' = { inUse := true, conn := conn, gen := gen, incarnation := g.opened + 1 }) ∨
        (g.dropStale conn gen).net[i]? = some s' := by
    intro i s' hs'
    by_cases hi : new = i
    · subst hi
      rw [List.getElem?_set_self hlt] at hs'
      exact .inl ⟨rfl, (Option.some.inj hs').symm⟩
    · rw [List.getElem?_set_ne hi] at hs'
      exact .inr hs'
  refine ⟨fun hn => ?_, hdrop.opened.trans (Nat.le_succ _), fun hs' => ?_, fun {k i s} hs hE => ?_⟩
  · have hn' := hdrop.numbered hn
    refine ⟨fun hs' => ?_, fun hs' ht' => ?_, fun hs' => ?_⟩
    · rcases hget hs'.1 with ⟨-, rfl⟩ | hold
      · exact hs'.2.2.ge
      · exact (hn'.le ⟨hold, hs'.2⟩).trans (Nat.le_succ _)
    · rcases hget hs'.1 with ⟨rfl, rfl⟩ | hold <;> rcases hget ht'.1 with ⟨rfl, rfl⟩ | hold'
      · rfl
      · have hle := hn'.le ⟨hold', ht'.2⟩
        rw [← hs'.2.2] at hle
        exact absurd hle (Nat.not_succ_le_self _)
      · have hle := hn'.le ⟨hold, hs'.2⟩
        rw [← ht'.2.2] at hle
        exact absurd hle (Nat.not_succ_le_self _)
      · exact hn'.inj ⟨hold, hs'.2⟩ ⟨hold', ht'.2⟩
    · rcases hget hs' with ⟨-, rfl⟩ | hold
      · exact ⟨rfl, fun _ => rfl⟩
      · exact hn'.waits hold
  · rcases hget hs'.1 with ⟨-, rfl⟩ | hold
    · exact .inr ⟨hs'.2.2 ▸ Nat.lt_succ_self _, rfl⟩
    · exact hdrop.back ⟨hold, hs'.2⟩
  · obtain ⟨t, ht⟩ := hdrop.forth hs hE
    have hi : new ≠ i := by
      rintro rfl
      cases (hfree t ht.1).symm.trans ht.2.1
    exact ⟨t, (List.getElem?_set_ne hi).trans ht.1, ht.2⟩

/-! ## Events that are not of the stream -/

/-- A session may be announced, and one of an earlier generation is dropped. -/
theorem accepted_calm (g : Gate) (conn localPort gen : UInt16) :
    Calm (Stale conn gen) g (g.accepted C conn localPort gen) := by
  unfold Gate.accepted
  have hfor := netFor_calm g conn gen
  split
  · exact { Still.of_eq rfl (Nat.le_refl _) with forth := fun hs _ => ⟨_, hs⟩ }
  split
  · next g' heq =>
    rw [heq] at hfor
    exact hfor
  · next g' i heq =>
    rw [heq] at hfor
    exact hfor.trans (.modify rfl rfl (fun _ => rfl) (fun _ => rfl) (fun _ => rfl)
      fun s hw => ⟨hw.1, fun hn => (nomatch hn)⟩)

/-- An identity ends what is stale on its connection. -/
theorem readIdentity_calm (g : Gate) (conn gen : UInt16) (fingerprint : Option Bytes) :
    Calm (Stale conn gen) g (g.readIdentity C conn gen fingerprint) := by
  unfold Gate.readIdentity
  have hfor := netFor_calm g conn gen
  split
  · next g' heq =>
    rw [heq] at hfor
    exact hfor
  · next g' i heq =>
    rw [heq] at hfor
    exact hfor.trans (.modify rfl rfl (fun _ => rfl) (fun _ => rfl) (fun _ => rfl) fun _ hw => hw)

theorem ownStream_still (g : Gate) (pfid : UInt8) (w : Who) : Still g (g.ownStream pfid w) := by
  cases w with
  | net i => exact .modify rfl rfl (fun _ => rfl) (fun _ => rfl) (fun _ => rfl) fun _ hw => hw
  | link j => exact .of_eq rfl (Nat.le_refl _)

theorem stage_still (g : Gate) (a : Addr) (request : ℕ) (ask : Ask) (buf : Bytes) (close : Bool) :
    Still g (g.stage a request ask buf close) := .of_eq rfl (Nat.le_refl _)

/-- The router's record ends no session and opens none. -/
theorem readRouter_still (g : Gate) (rec : Bytes) : Still g (g.readRouter rec) := by
  unfold Gate.readRouter
  have hself : ∀ {g' : Gate}, g'.net = g.net → g'.opened = g.opened → Still g g' :=
    fun hnet hopened => .of_eq hnet hopened.ge
  split
  · exact hself rfl rfl
  split
  · exact hself rfl rfl
  next p _ =>
  have hpending : Still g { g with pending := g.pending.eraseP (·.gateCid == p.gateCid) } :=
    hself rfl rfl
  dsimp only
  split
  · exact hself rfl rfl
  refine hpending.trans (Calm.trans ?_ (stage_still _ _ _ _ _ _))
  split
  · split
    · exact ownStream_still _ _ _
    · exact Still.of_eq rfl (Nat.le_refl _)
  · exact Still.of_eq rfl (Nat.le_refl _)

/-- A frame that is handled leaves the sessions alone. -/
theorem handle_net (g : Gate) (who : Who) (addr : Addr) (inc : ℕ) (a : SessionAuth) (frame : Bytes)
    (io : FrameIo) : (g.handle C who addr inc a frame io).1.net = g.net ∧
      (g.handle C who addr inc a frame io).1.opened = g.opened := by
  unfold Gate.handle
  dsimp only
  split
  · exact ⟨rfl, rfl⟩
  · exact ⟨rfl, rfl⟩
  · exact ⟨rfl, rfl⟩
  · unfold Gate.forward
    split <;> exact ⟨rfl, rfl⟩

theorem linkFrame_net (g : Gate) (j : ℕ) (frame : Bytes) (io : FrameIo) :
    (g.linkFrame C j frame io).net = g.net ∧ (g.linkFrame C j frame io).opened = g.opened := by
  unfold Gate.linkFrame
  split
  · exact ⟨rfl, rfl⟩
  next s _ =>
  split
  · have hhandle := handle_net (C := C) g (.link j) (.link s.link s.session) s.incarnation s.auth
      frame io
    generalize g.handle C (.link j) (.link s.link s.session) s.incarnation s.auth frame io = r
      at hhandle
    obtain ⟨g', a, keep⟩ := r
    dsimp only
    split <;> exact hhandle
  · split <;> exact ⟨rfl, rfl⟩

/-- A link's record ends no session and opens none. -/
theorem record_still (g : Gate) (l : ℕ) (rec : Bytes) (io : FrameIo) :
    Still g (g.record C l rec io) := by
  have hself : ∀ {g' : Gate}, g'.net = g.net → g'.opened = g.opened → Still g g' :=
    fun hnet hopened => .of_eq hnet hopened.ge
  unfold Gate.record
  split
  · exact hself rfl rfl
  dsimp only
  split
  · split <;> exact hself rfl rfl
  split
  · exact hself (linkFrame_net ..).1 (linkFrame_net ..).2
  unfold Gate.linkAlloc
  cases g.links.findIdx? fun s => !s.inUse with
  | none =>
    dsimp only
    split <;> exact hself rfl rfl
  | some j =>
    have hframe := linkFrame_net (C := C) { g with
      links := g.links.set j ⟨true, l, UInt32.ofNat (num rec 0 4), g.opened + 1, linkAuth l⟩
      opened := g.opened + 1
      holder := Function.update g.holder (.link l (UInt32.ofNat (num rec 0 4)))
        (some (g.opened + 1)) } j (rec.drop 4) io
    exact .of_eq hframe.1 ((Nat.le_succ _).trans hframe.2.ge)

/-- An answer written out ends no session and opens none. -/
theorem flushAnswer_still (g : Gate) (took : ℕ) : Still g (g.flushAnswer C took) := by
  unfold Gate.flushAnswer
  split
  · exact .of_eq rfl (Nat.le_refl _)
  split
  · split
    · split <;> exact .of_eq rfl (Nat.le_refl _)
    · split <;> exact .of_eq rfl (Nat.le_refl _)
  · split
    · exact .of_eq rfl (Nat.le_refl _)
    · split <;> exact .of_eq rfl (Nat.le_refl _)

end Loam.AdminGate

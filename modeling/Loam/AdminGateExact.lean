import Loam.AdminGateTurns
import Loam.Lib.Run

/-!
# Every frame once and in order

What the gate has acted on of a session, followed by what waits in its buffer,
is what came for it (`Kept`). Before a frame of the network is read every
session has been served, so what waits is less than a frame (`Short`), and there
is room for a fragment behind it where no frame is longer than the longest
request.
-/

namespace Loam.AdminGate

open Slices BridgeWorld

variable {P : NetConfig} {C : Config} {g g' : Gate} {k i j n : ℕ} {s s' : NetSession}
  {frames acted : List Bytes} {came : Bytes} {w w' : Fed} {io : FrameIo} {ios : ℕ → FrameIo}

/-! ## What is kept of a session -/

/-- What came for session `k` is what was acted on and what waits, and goes along
with the frames. -/
structure Kept (k : ℕ) (frames : List Bytes) (g : Gate) (came : Bytes) (acted : List Bytes) :
    Prop where
  numbered : Numbered g
  along : came <+: frames.flatten
  order : acted <+: frames
  within : acted.flatten <+: came
  split : ∀ {i s}, g.Has k i s → came = acted.flatten ++ s.rx
  unopened : g.opened < k → came = [] ∧ acted = []

/-- What waits of session `k` is less than the next frame. -/
def Short (k : ℕ) (frames : List Bytes) (g : Gate) (acted : List Bytes) : Prop :=
  ∀ i s, g.Has k i s → ∀ f, acted ++ [f] <+: frames → s.rx.length < f.length

/-- What waits goes along with the frames that are not acted on. -/
theorem Kept.rest (h : Kept k frames g came acted) (hs : g.Has k i s) :
    ∃ rest t, acted ++ rest = frames ∧ s.rx ++ t = rest.flatten := by
  obtain ⟨rest, hrest⟩ := h.order
  obtain ⟨t, ht⟩ := h.along
  rw [h.split hs, ← hrest, List.flatten_append, List.append_assoc] at ht
  exact ⟨rest, t, hrest, List.append_cancel_left ht⟩

/-- What is kept stays when the session goes on with what waits for it. -/
theorem Kept.of_back (h : Kept k frames g came acted) (hn : Numbered g') (hopened : g.opened ≤ g'.opened)
    (hback : ∀ {i s'}, g'.Has k i s' →
      (∃ s, g.Has k i s ∧ s'.rx = s.rx) ∨ (g.opened < k ∧ s'.rx = [])) :
    Kept k frames g' came acted where
  numbered := hn
  along := h.along
  order := h.order
  within := h.within
  split hs' := by
    rcases hback hs' with ⟨s, hs, hrx⟩ | ⟨hlt, hrx⟩
    · rw [hrx]
      exact h.split hs
    · obtain ⟨hcame, hacted⟩ := h.unopened hlt
      rw [hcame, hacted, hrx]
      rfl
  unopened hlt := h.unopened (hopened.trans_lt hlt)

theorem Short.of_back (h : Short k frames g acted) (hframes : ∀ f ∈ frames, IsFrame C f)
    (hback : ∀ {i s'}, g'.Has k i s' →
      (∃ s, g.Has k i s ∧ s'.rx = s.rx) ∨ (g.opened < k ∧ s'.rx = [])) :
    Short k frames g' acted := by
  intro i s' hs' f hf
  rcases hback hs' with ⟨s, hs, hrx⟩ | ⟨-, hrx⟩
  · rw [hrx]
    exact h i s hs f hf
  · rw [hrx]
    have hmem : f ∈ frames := hf.subset (List.mem_append_right _ List.mem_cons_self)
    exact List.length_pos_of_ne_nil (hframes f hmem).ne_nil

/-! ## A pass of `serve_net` -/

theorem serve_of_not_idle (h : g.idle = false) : g.serve C i io = g := by
  unfold Gate.serve
  split
  · rfl
  · rw [if_pos (.inr (.inr (by rw [h]; exact Bool.false_ne_true)))]

theorem ended_touch (s : NetSession) :
    (s.ended.inUse = true → s.inUse = true ∧ s.ended.incarnation = s.incarnation) ∧
      (s.Waits → s.ended.Waits) :=
  ⟨fun hu => (nomatch hu), fun hw => ⟨hw.1, fun _ => rfl⟩⟩

/-- A pass touches the slot that it serves. -/
theorem serve_touches (g : Gate) (i : ℕ) (io : FrameIo) : Touches i g (g.serve C i io) := by
  unfold Gate.serve
  cases hs : g.net[i]? with
  | none => exact .refl i g
  | some s =>
    dsimp only
    split
    · exact .refl i g
    next hready =>
    have haccepted : s.accepted = true := (not_not.mp (not_or.mp hready).1).2
    split
    · exact .refl i g
    · exact .modify rfl rfl fun s _ => ended_touch s
    · split
      · exact .refl i g
      · exact .modify rfl rfl fun s _ => ended_touch s
    · split
      · exact .refl i g
      next n _ _ =>
      have hhandle := handle_net (C := C) g (.net i) (.net s.conn) s.incarnation s.auth
        (s.rx.take n) io
      generalize g.handle C (.net i) (.net s.conn) s.incarnation s.auth (s.rx.take n) io = r
        at hhandle ⊢
      obtain ⟨g', a, keep⟩ := r
      obtain ⟨hnet, hopened⟩ := hhandle
      dsimp only at hnet hopened ⊢
      split
      · refine .modify hopened (congrArg (fun l => List.modify l i _) hnet) fun t ht => ?_
        obtain rfl := Option.some.inj (hs.symm.trans ht)
        exact ⟨fun hu => ⟨hu, rfl⟩, fun hw => ⟨hw.1, fun hn => (by
          rw [show s.accepted = false from hn] at haccepted
          cases haccepted)⟩⟩
      · exact .modify hopened (congrArg (fun l => List.modify l i _) hnet) fun s _ => ended_touch s

/-- **A pass on a session whose bytes go along with frames** does nothing where less
than a frame waits, and else acts on the first. -/
theorem serve_own {rest : List Bytes} {t : Bytes} (hs : g.net[i]? = some s)
    (hrest : ∀ f ∈ rest, IsFrame C f) (h : s.rx ++ t = rest.flatten) (io : FrameIo) :
    (g.servable C i = none ∧ g.serve C i io = g ∧
        (g.idle = true → s.inUse = true → s.accepted = true →
          ∀ f ∈ rest.head?, s.rx.length < f.length)) ∨
      ∃ f fs a, rest = f :: fs ∧ g.servable C i = some (s, f) ∧ g.idle = true ∧
        f.length ≤ s.rx.length ∧ s.rx.take f.length = f ∧
        (g.serve C i io).net =
          g.net.modify i fun s => { s with auth := a, rx := s.rx.drop f.length } := by
  unfold Gate.servable Gate.serve
  rw [hs]
  dsimp only
  by_cases hguard : ¬ (s.inUse ∧ s.accepted) ∨ s.rx = [] ∨ ¬ g.idle
  · rw [if_pos hguard, if_pos hguard]
    refine .inl ⟨rfl, rfl, fun hidle huse hacc f hf => ?_⟩
    have hnil : s.rx = [] :=
      ((hguard.resolve_left (not_not.mpr ⟨huse, hacc⟩)).resolve_right (not_not.mpr hidle))
    rw [hnil]
    exact List.length_pos_of_ne_nil (hrest f (List.mem_of_mem_head? hf)).ne_nil
  · rw [if_neg hguard, if_neg hguard]
    obtain ⟨-, hmore⟩ := not_or.mp hguard
    obtain ⟨hne, hidle⟩ := not_or.mp hmore
    cases rest with
    | nil => exact absurd (List.append_eq_nil_iff.mp h).1 hne
    | cons f fs =>
      have hf := hrest f List.mem_cons_self
      rcases hf.along (u := fs.flatten) h with ⟨hlt, hmore | hsaid⟩ | ⟨hle, hsaid, htake⟩
      · rw [hmore]
        exact .inl ⟨rfl, rfl, fun _ _ _ f' hf' => by cases hf'; exact hlt⟩
      · rw [hsaid]
        dsimp only
        rw [if_pos hlt, if_pos hlt]
        exact .inl ⟨rfl, rfl, fun _ _ _ f' hf' => by cases hf'; exact hlt⟩
      · rw [hsaid]
        dsimp only
        rw [if_neg (Nat.not_lt.mpr hle), if_neg (Nat.not_lt.mpr hle), htake]
        have hhandle := handle_net (C := C) g (.net i) (.net s.conn) s.incarnation s.auth f io
        have hkeep : (g.handle C (.net i) (.net s.conn) s.incarnation s.auth f io).2.2 = true := by
          have hgoes := hf.goes_on io s.auth
          unfold Gate.handle
          generalize handleFrame C io s.auth f = r at hgoes
          obtain ⟨a, o⟩ := r
          cases o with
          | ends => exact absurd rfl hgoes
          | quiet => rfl
          | answer => rfl
          | forward => rfl
        generalize g.handle C (.net i) (.net s.conn) s.incarnation s.auth f io = r
          at hhandle hkeep ⊢
        obtain ⟨g', a, keep⟩ := r
        obtain rfl : keep = true := hkeep
        refine .inr ⟨f, fs, a, rfl, rfl, not_not.mp hidle, hle, htake, ?_⟩
        exact congrArg (fun l => List.modify l i _) hhandle.1

namespace Fed

/-- Once something is not owed any more, it was not owed before. -/
theorem idle_of_pass (h : (w.pass P i io).gate.idle = true) : w.gate.idle = true := by
  by_contra hne
  have hbusy := Bool.eq_false_iff.mpr hne
  rw [show (w.pass P i io).gate = w.gate from serve_of_not_idle hbusy] at h
  exact hne h

/-- What is acted on is of the session in the slot. -/
theorem pass_acted (hother : ¬ ∃ s, w.gate.Has k i s) : (w.pass P i io).acted k = w.acted k := by
  unfold pass
  cases hserve : w.gate.servable P.cfg i with
  | none => rfl
  | some p =>
    obtain ⟨s, f⟩ := p
    refine Function.update_of_ne (fun hk => hother ⟨s, ?_⟩) _ _
    unfold Gate.servable at hserve
    split at hserve
    · cases hserve
    next t ht =>
    split at hserve
    · cases hserve
    next hready =>
    have huse : t.inUse = true := (not_not.mp (not_or.mp hready).1).1
    split at hserve
    · split at hserve
      · cases hserve
      cases hserve
      exact ⟨ht, huse, hk.symm⟩
    · cases hserve

/-- Of session `k`, nothing is lost and nothing is acted on twice. -/
structure Serves (k : ℕ) (frames : List Bytes) (w w' : Fed) : Prop where
  same : ∃ g a, w' = { w with gate := g, acted := a }
  kept : Kept k frames w.gate (w.came k) (w.acted k) → Kept k frames w'.gate (w'.came k) (w'.acted k)
  has : Kept k frames w.gate (w.came k) (w.acted k) →
    ∀ i, (∃ s, w'.gate.Has k i s) ↔ ∃ s, w.gate.Has k i s
  swept : Kept k frames w.gate (w.came k) (w.acted k) →
    (w.gate.idle = true → Short k frames w.gate (w.acted k)) →
    w'.gate.idle = true → Short k frames w'.gate (w'.acted k)

theorem Serves.refl (w : Fed) : Serves k frames w w :=
  ⟨⟨w.gate, w.acted, rfl⟩, id, fun _ _ => Iff.rfl, fun _ => id⟩

theorem Serves.trans {w'' : Fed} (h : Serves k frames w w') (h' : Serves k frames w' w'') :
    Serves k frames w w'' where
  same := by
    obtain ⟨g, a, rfl⟩ := h.same
    obtain ⟨g', a', rfl⟩ := h'.same
    exact ⟨g', a', rfl⟩
  kept hk := h'.kept (h.kept hk)
  has hk i := (h'.has (h.kept hk) i).trans (h.has hk i)
  swept hk hs := h'.swept (h.kept hk) (h.swept hk hs)

/-- A pass on the slot of the session itself acts on the next frame, if it is whole. -/
theorem pass_own (hframes : ∀ f ∈ frames, IsFrame P.cfg f)
    (h : Kept k frames w.gate (w.came k) (w.acted k)) (hs : w.gate.Has k i s) (io : FrameIo) :
    (w.gate.servable P.cfg i = none ∧ w.pass P i io = w ∧
        (w.gate.idle = true → Short k frames w.gate (w.acted k))) ∨
      ∃ f s', w.gate.servable P.cfg i = some (s, f) ∧ w.gate.idle = true ∧
        (w.acted k ++ [f]) <+: frames ∧ f.length ≤ s.rx.length ∧ 0 < f.length ∧
        (w.pass P i io).gate.Has k i s' ∧ s'.rx = s.rx.drop f.length ∧
        Kept k frames (w.pass P i io).gate ((w.pass P i io).came k) ((w.pass P i io).acted k) := by
  obtain ⟨rest, t, hrest, hrx⟩ := h.rest hs
  have hof : ∀ f ∈ rest, IsFrame P.cfg f := fun f hf =>
    hframes f (hrest ▸ List.mem_append_right _ hf)
  rcases serve_own hs.1 hof hrx io with ⟨hnone, hsame, hshort⟩ |
    ⟨f, fs, a, rfl, hsome, hidle, hle, htake, hnet⟩
  · refine .inl ⟨hnone, ?_, fun hidle j s' hs' f hf => ?_⟩
    · unfold pass
      rw [hnone, hsame]
    · obtain rfl := h.numbered.inj hs hs'
      obtain rfl := Option.some.inj (hs.1.symm.trans hs'.1)
      have hhead : f ∈ rest.head? := by
        obtain ⟨u, hu⟩ := hf
        rw [← hrest, List.append_assoc, List.append_cancel_left_eq] at hu
        rw [← hu]
        rfl
      by_cases hacc : s.accepted = true
      · exact hshort hidle hs.2.1 hacc f hhead
      rw [(h.numbered.waits hs.1).2 (Bool.eq_false_iff.mpr hacc)]
      exact List.length_pos_of_ne_nil (hof f (List.mem_of_mem_head? hhead)).ne_nil
  · have hacted : (w.pass P i io).acted k = w.acted k ++ [f] := by
      unfold pass
      rw [hsome]
      dsimp only
      rw [hs.2.2, Function.update_self]
    have htouch := serve_touches (C := P.cfg) w.gate i io
    have hget : (w.pass P i io).gate.Has k i { s with auth := a, rx := s.rx.drop f.length } := by
      refine ⟨?_, hs.2⟩
      show (w.gate.serve P.cfg i io).net[i]? = _
      rw [hnet, List.getElem?_modify_eq, hs.1]
      rfl
    have hsplit : w.came k = (w.acted k ++ [f]).flatten ++ s.rx.drop f.length := by
      rw [List.flatten_append, List.flatten_singleton, List.append_assoc]
      conv_rhs => rw [← htake]
      rw [List.length_take, Nat.min_eq_left hle, List.take_append_drop]
      exact h.split hs
    refine .inr ⟨f, _, hsome, hidle, ⟨fs, ?_⟩, hle,
      List.length_pos_of_ne_nil (hof f List.mem_cons_self).ne_nil, hget, rfl, ?_⟩
    · rw [List.append_assoc]
      exact hrest
    · rw [hacted]
      refine ⟨h.numbered.touch htouch, h.along, ⟨fs, ?_⟩, ⟨_, hsplit.symm⟩, fun {j s'} hs' => ?_,
        fun hlt => ?_⟩
      · rw [List.append_assoc]
        exact hrest
      · obtain rfl := (h.numbered.touch htouch).inj hget hs'
        obtain rfl := Option.some.inj (hget.1.symm.trans hs'.1)
        exact hsplit
      · have hle := h.numbered.le hs
        rw [show (w.pass P i io).gate.opened = w.gate.opened from htouch.opened] at hlt
        exact absurd hle (Nat.not_le.mpr hlt)

/-- **A pass serves**, whatever slot it is of. -/
theorem serves_pass (hframes : ∀ f ∈ frames, IsFrame P.cfg f) (i : ℕ) (io : FrameIo) :
    Serves k frames w (w.pass P i io) := by
  have htouch := serve_touches (C := P.cfg) w.gate i io
  refine ⟨⟨_, _, rfl⟩, fun h => ?_, fun h j => ?_, fun h hswept hidle => ?_⟩
  all_goals by_cases hslot : ∃ s, w.gate.Has k i s
  · obtain ⟨s, hs⟩ := hslot
    rcases pass_own hframes h hs io with ⟨-, hsame, -⟩ | ⟨f, s', -, -, -, -, -, -, -, hkept⟩
    · rwa [hsame]
    · exact hkept
  · rw [pass_acted hslot]
    refine h.of_back (h.numbered.touch htouch) htouch.opened.ge fun {j s'} hs' => ?_
    obtain ⟨s, hs, heq⟩ := htouch.back hs'
    have hj : j ≠ i := fun he => hslot ⟨s, he ▸ hs⟩
    exact .inl ⟨s, hs, by rw [heq hj]⟩
  · obtain ⟨s, hs⟩ := hslot
    refine ⟨fun ⟨s', hs'⟩ => ?_, fun ⟨t, ht⟩ => ?_⟩
    · obtain ⟨t, ht, -⟩ := htouch.back hs'
      exact ⟨t, ht⟩
    · obtain rfl := h.numbered.inj hs ht
      rcases pass_own hframes h hs io with ⟨-, hsame, -⟩ | ⟨f, s', -, -, -, -, -, hs', -, -⟩
      · exact ⟨t, by rwa [hsame]⟩
      · exact ⟨s', hs'⟩
  · refine ⟨fun ⟨s', hs'⟩ => ?_, fun ⟨t, ht⟩ => ?_⟩
    · obtain ⟨t, ht, -⟩ := htouch.back hs'
      exact ⟨t, ht⟩
    · exact ⟨t, htouch.forth ht fun he => hslot ⟨t, he ▸ ht⟩⟩
  · obtain ⟨s, hs⟩ := hslot
    rcases pass_own hframes h hs io with ⟨-, hsame, hshort⟩ | ⟨f, s', -, hidle', hnext, hle, -⟩
    · rw [hsame] at hidle ⊢
      exact hshort hidle
    · -- Nothing whole was left.
      exact absurd (hswept hidle' i s hs f hnext) (Nat.not_lt.mpr hle)
  · rw [pass_acted hslot]
    refine (hswept (idle_of_pass hidle)).of_back hframes fun {j s'} hs' => ?_
    obtain ⟨s, hs, heq⟩ := htouch.back hs'
    have hj : j ≠ i := fun he => hslot ⟨s, he ▸ hs⟩
    exact .inl ⟨s, hs, by rw [heq hj]⟩

theorem serves_serveNet (hframes : ∀ f ∈ frames, IsFrame P.cfg f) (i n : ℕ) (ios : ℕ → FrameIo) :
    Serves k frames w (w.serveNet P i n ios) := by
  induction n generalizing w ios with
  | zero => exact .refl w
  | succ n ih =>
    unfold serveNet
    split
    · exact serves_pass hframes i (ios 0)
    · exact (serves_pass hframes i (ios 0)).trans (ih _)

/-- With a pass for each byte, no whole frame is left of the session. -/
theorem serveNet_short (hframes : ∀ f ∈ frames, IsFrame P.cfg f) (hn : s.rx.length < n)
    (h : Kept k frames w.gate (w.came k) (w.acted k)) (hs : w.gate.Has k i s)
    (hidle : (w.serveNet P i n ios).gate.idle = true) :
    Short k frames (w.serveNet P i n ios).gate ((w.serveNet P i n ios).acted k) := by
  induction n generalizing w s ios with
  | zero => exact absurd hn (Nat.not_lt_zero _)
  | succ n ih =>
    unfold serveNet at hidle ⊢
    rcases pass_own hframes h hs (ios 0) with ⟨hnone, hsame, hshort⟩ |
      ⟨f, s', hsome, -, -, hle, hpos, hs', hrx, hkept⟩
    · rw [hnone] at hidle ⊢
      dsimp only at hidle ⊢
      rw [hsame] at hidle ⊢
      exact hshort hidle
    · rw [hsome] at hidle ⊢
      refine ih ?_ hkept hs' hidle
      rw [hrx, List.length_drop]
      omega

theorem serves_serveSession (hframes : ∀ f ∈ frames, IsFrame P.cfg f) (i : ℕ) (ios : ℕ → FrameIo) :
    Serves k frames w (w.serveSession P i ios) :=
  serves_serveNet hframes i _ ios

theorem serveSession_short (hframes : ∀ f ∈ frames, IsFrame P.cfg f)
    (h : Kept k frames w.gate (w.came k) (w.acted k)) (hs : w.gate.Has k i s)
    (hidle : (w.serveSession P i ios).gate.idle = true) :
    Short k frames (w.serveSession P i ios).gate ((w.serveSession P i ios).acted k) := by
  refine serveNet_short hframes ?_ h hs hidle
  rw [hs.1]
  exact Nat.lt_succ_self _

/-- Sessions served one after another: none is left with a whole frame that is among
them. -/
theorem foldl_serveSession (hframes : ∀ f ∈ frames, IsFrame P.cfg f) (ios : ℕ → ℕ → FrameIo)
    (l : List ℕ) :
    Serves k frames w (l.foldl (fun w i => w.serveSession P i (ios i)) w) ∧
      (Kept k frames w.gate (w.came k) (w.acted k) →
        (∀ i s, w.gate.Has k i s → i ∈ l ∨
          (w.gate.idle = true → Short k frames w.gate (w.acted k))) →
        (l.foldl (fun w i => w.serveSession P i (ios i)) w).gate.idle = true →
        Short k frames (l.foldl (fun w i => w.serveSession P i (ios i)) w).gate
          ((l.foldl (fun w i => w.serveSession P i (ios i)) w).acted k)) := by
  induction l generalizing w with
  | nil =>
    refine ⟨.refl w, fun _ hin hidle i s hs => ?_⟩
    exact ((hin i s hs).resolve_left List.not_mem_nil) hidle i s hs
  | cons j l ih =>
    have hone := serves_serveSession (k := k) (w := w) hframes j (ios j)
    obtain ⟨hall, hshort⟩ := ih (w := w.serveSession P j (ios j))
    refine ⟨hone.trans hall, fun h hin => hshort (hone.kept h) fun i s' hs' => ?_⟩
    obtain ⟨s, hs⟩ := (hone.has h i).mp ⟨s', hs'⟩
    rcases hin i s hs with hmem | hswept
    · rcases List.mem_cons.mp hmem with rfl | hmem
      · exact .inr (serveSession_short hframes h hs)
      · exact .inl hmem
    · exact .inr (hone.swept h hswept)

/-- **Every session is served.** -/
theorem serveAll_spec (hframes : ∀ f ∈ frames, IsFrame P.cfg f) (ios : ℕ → ℕ → FrameIo)
    (h : Kept k frames w.gate (w.came k) (w.acted k)) :
    Serves k frames w (w.serveAll P ios) ∧
      ((w.serveAll P ios).gate.idle = true →
        Short k frames (w.serveAll P ios).gate ((w.serveAll P ios).acted k)) := by
  obtain ⟨hserves, hshort⟩ := foldl_serveSession (k := k) (w := w) hframes ios
    (List.range w.gate.net.length)
  refine ⟨hserves, hshort h fun i s hs => .inl (List.mem_range.mpr ?_)⟩
  exact (List.getElem?_eq_some_iff.mp hs.1).1

end Fed

/-! ## A frame of the network -/

variable {conn : UInt16} {f : ClustorFrame} {m : Fed.Move} {ms : List Fed.Move}

theorem netByConn_eq_some (h : g.netByConn conn = some i) :
    ∃ s, g.net[i]? = some s ∧ s.inUse = true ∧ s.accepted = true ∧ s.conn = conn := by
  obtain ⟨hlt, hs, -⟩ := List.findIdx?_eq_some_iff_getElem.mp h
  simp only [Bool.and_eq_true, beq_iff_eq] at hs
  exact ⟨_, List.getElem?_eq_getElem hlt, hs.1.1, hs.1.2, hs.2⟩

theorem data_touches (g : Gate) (hconn : g.netByConn conn = some i) (bytes : Bytes) :
    Touches i g (g.data C conn bytes) := by
  obtain ⟨s, hs, -, hacc, -⟩ := netByConn_eq_some hconn
  unfold Gate.data
  rw [hconn]
  dsimp only
  rw [hs]
  dsimp only
  split
  · exact .refl i g
  split
  · exact .refl i g
  split
  · exact .modify rfl rfl fun s _ => ended_touch s
  refine .modify rfl rfl fun t ht => ?_
  obtain rfl := Option.some.inj (hs.symm.trans ht)
  refine ⟨fun hu => ⟨hu, rfl⟩, fun hw => ⟨hw.1, fun hn => ?_⟩⟩
  cases hacc.symm.trans (show s.accepted = false from hn)

theorem data_of_room (hidle : g.idle = true) (hconn : g.netByConn conn = some i)
    (hs : g.net[i]? = some s) (hw : s.Waits) {bytes : Bytes}
    (hroom : s.rx.length + bytes.length ≤ C.rxMax) :
    (g.data C conn bytes).net = g.net.modify i fun s => { s with rx := s.rx ++ bytes } := by
  unfold Gate.data
  rw [if_neg (not_not.mpr hidle), hconn]
  dsimp only
  rw [hs]
  dsimp only
  rw [hw.1, if_neg Bool.false_ne_true, if_neg (Nat.not_lt.mpr hroom)]

/-- A connection that is closed ends its session. -/
theorem closed_calm (g : Gate) (conn : UInt16) :
    Calm (fun s => s.conn = conn) g (g.closed conn) := by
  have hself : Calm (fun s => s.conn = conn) g g :=
    { Still.of_eq rfl (Nat.le_refl _) with forth := fun hs _ => ⟨_, hs⟩ }
  unfold Gate.closed
  split
  · exact hself
  cases hconn : g.netByConn conn with
  | none => exact hself
  | some i =>
    obtain ⟨t, ht, -, -, htc⟩ := netByConn_eq_some hconn
    have htouch : Touches i g (g.endNet i) := .modify rfl rfl fun s _ => ended_touch s
    refine ⟨fun h => h.touch htouch, Nat.le_refl _, fun {k j s'} hs' => ?_, fun {k j s} hs hE => ?_⟩
    · obtain ⟨s, hs, heq⟩ := htouch.back hs'
      by_cases hj : j = i
      · subst hj
        obtain ⟨u, -, hu⟩ := Option.map_eq_some_iff.mp
          ((List.getElem?_modify_eq ..).symm.trans hs'.1)
        have huse := hs'.2.1
        rw [← hu] at huse
        cases huse
      · exact .inl ⟨s, hs, by rw [heq hj]⟩
    · refine ⟨s, htouch.forth hs fun hj => hE ?_⟩
      subst hj
      obtain rfl := Option.some.inj (ht.symm.trans hs.1)
      exact htc

namespace Fed

/-- What keeps of session `k` between moves. -/
structure Good (P : NetConfig) (k : ℕ) (frames : List Bytes) (w : Fed) : Prop where
  kept : Kept k frames w.gate (w.came k) (w.acted k)
  /-- While frames of the network are read, nothing whole waits. -/
  swept : w.reading = true → w.gate.idle = true → Short k frames w.gate (w.acted k)
  pending : ∃ fs, w.net.Holds P.wire fs ∧ w.arrived = w.handed ++ fs
  lost : w.lost = false

/-- There is room for the data of a frame behind what waits. -/
theorem Kept.room (hmax : ∀ f ∈ frames, f.length ≤ requestMax P.cfg.limits)
    (h : Kept k frames g came acted) (hs : g.Has k i s) (hshort : Short k frames g acted)
    {bytes : Bytes} (hfit : bytes.length ≤ P.wire.maxFragment)
    (hcame : came ++ bytes <+: frames.flatten) : s.rx.length + bytes.length ≤ P.cfg.rxMax := by
  obtain ⟨rest, t, hrest, -⟩ := h.rest hs
  cases rest with
  | nil =>
    -- Every frame has been acted on: no more comes.
    rw [List.append_nil] at hrest
    have hlen := hcame.length_le
    rw [h.split hs, ← hrest, List.length_append, List.length_append] at hlen
    omega
  | cons f fs =>
    have hnext : acted ++ [f] <+: frames := ⟨fs, by rw [List.append_assoc]; exact hrest⟩
    have hlt := hshort i s hs f hnext
    have hlong := hmax f (hnext.subset (List.mem_append_right _ List.mem_cons_self))
    rw [P.rx_eq]
    omega

/-- The sessions go on with what waits for them. -/
theorem calm_kept {E : NetSession → Prop} (hframes : ∀ f ∈ frames, IsFrame P.cfg f)
    (hc : Calm E w.gate g) (h : Kept k frames w.gate (w.came k) (w.acted k)) :
    Kept k frames g (w.came k) (w.acted k) ∧
      (Short k frames w.gate (w.acted k) → Short k frames g (w.acted k)) :=
  ⟨h.of_back (hc.numbered h.numbered) hc.opened hc.back, fun hs => hs.of_back hframes hc.back⟩

/-- **Data are put behind what waits**, and every frame that they complete is acted
on. -/
theorem netData_kept (hframes : ∀ f ∈ frames, IsFrame P.cfg f)
    (hmax : ∀ f ∈ frames, f.length ≤ requestMax P.cfg.limits)
    (h : Kept k frames w.gate (w.came k) (w.acted k)) (hidle : w.gate.idle = true)
    (hshort : Short k frames w.gate (w.acted k)) (hconn : w.gate.netByConn conn = some i)
    {bytes : Bytes} (hfit : bytes.length ≤ P.wire.maxFragment) (w' : Fed)
    (hgate : w'.gate = w.gate.data P.cfg conn bytes)
    (hcame' : w'.came = Function.update w.came
      (((w.gate.net[i]?).map NetSession.incarnation).getD 0)
      (w.came (((w.gate.net[i]?).map NetSession.incarnation).getD 0) ++ bytes))
    (hacted : w'.acted = w.acted) (hcame : w'.came k <+: frames.flatten) :
    Kept k frames w'.gate (w'.came k) (w'.acted k) ∧
      ((∃ s, w'.gate.Has k i s) ∨ Short k frames w'.gate (w'.acted k)) ∧
      ∀ j, (∃ s, w.gate.Has k j s) → ∃ s, w'.gate.Has k j s := by
  obtain ⟨t, ht, huse, -, -⟩ := netByConn_eq_some hconn
  have htouch := data_touches (C := P.cfg) w.gate hconn bytes
  rw [ht, Option.map_some, Option.getD_some] at hcame'
  rw [hgate, hacted]
  by_cases hk : t.incarnation = k
  · -- The data are of the session.
    have hs : w.gate.Has k i t := ⟨ht, huse, hk⟩
    have hnow : w'.came k = w.came k ++ bytes := by
      rw [hcame', hk, Function.update_self]
    rw [hnow] at hcame ⊢
    have hroom := Kept.room (P := P) hmax h hs hshort hfit hcame
    have hnet := data_of_room (C := P.cfg) hidle hconn ht (h.numbered.waits ht) hroom
    have hget : (w.gate.data P.cfg conn bytes).Has k i { t with rx := t.rx ++ bytes } := by
      refine ⟨?_, huse, hk⟩
      rw [hnet, List.getElem?_modify_eq, ht]
      rfl
    refine ⟨⟨h.numbered.touch htouch, hcame, h.order, h.within.trans (List.prefix_append _ _),
      fun {j s'} hs' => ?_, fun hlt => ?_⟩, .inl ⟨_, hget⟩, fun j hj => ?_⟩
    · obtain rfl := (h.numbered.touch htouch).inj hget hs'
      obtain rfl := Option.some.inj (hget.1.symm.trans hs'.1)
      rw [h.split hs, List.append_assoc]
    · rw [htouch.opened] at hlt
      exact absurd (h.numbered.le hs) (Nat.not_le.mpr hlt)
    · obtain ⟨u, hu⟩ := hj
      obtain rfl := h.numbered.inj hs hu
      exact ⟨_, hget⟩
  · -- They are of another.
    have hnow : w'.came k = w.came k := by
      rw [hcame', Function.update_of_ne (Ne.symm hk)]
    have hother : ∀ s, ¬ w.gate.Has k i s := fun s hs =>
      hk ((congrArg NetSession.incarnation (Option.some.inj (ht.symm.trans hs.1))).trans hs.2.2)
    have hback : ∀ {j s'}, (w.gate.data P.cfg conn bytes).Has k j s' →
        (∃ s, w.gate.Has k j s ∧ s'.rx = s.rx) ∨ (w.gate.opened < k ∧ s'.rx = []) := by
      intro j s' hs'
      obtain ⟨s, hs, heq⟩ := htouch.back hs'
      have hj : j ≠ i := fun he => hother s (he ▸ hs)
      exact .inl ⟨s, hs, by rw [heq hj]⟩
    rw [hnow]
    refine ⟨h.of_back (h.numbered.touch htouch) htouch.opened.ge hback,
      .inr (hshort.of_back hframes hback), fun j hj => ?_⟩
    obtain ⟨u, hu⟩ := hj
    exact ⟨u, htouch.forth hu fun he => hother u (he ▸ hu)⟩

/-- A move that the transport ends session `k` by: it closes the connection, or
announces another session on it. -/
def EndsOutside (P : NetConfig) (k : ℕ) (w : Fed) : Move → Prop
  | .aside (.identity conn gen _) => ∃ i s, w.gate.Has k i s ∧ Stale conn gen s
  | .read n _ => ∃ i s f, w.gate.Has k i s ∧ w.net.read? P.wire n = some f ∧
      ((f.1 = P.wire.msgClosed ∧ s.conn = connId f.2) ∨
        (f.1 = P.wire.msgAccepted ∧
          Stale (P.wire.acceptedParts f.2).1 (P.wire.generation f.2) s))
  | _ => False

/-- What a frame of the network does to session `k`. -/
structure Turned (P : NetConfig) (k : ℕ) (frames : List Bytes) (f : ClustorFrame) (w w' : Fed) :
    Prop where
  kept : Kept k frames w'.gate (w'.came k) (w'.acted k)
  swept : w'.gate.idle = true → Short k frames w'.gate (w'.acted k)
  same : w'.net = w.net ∧ w'.lost = w.lost ∧ w'.arrived = w.arrived ∧ w'.handed = w.handed
  has : ∀ i s, w.gate.Has k i s → ¬ (f.1 = P.wire.msgClosed ∧ s.conn = connId f.2) →
    ¬ (f.1 = P.wire.msgAccepted ∧ Stale (P.wire.acceptedParts f.2).1 (P.wire.generation f.2) s) →
    ∃ s', w'.gate.Has k i s'
  came : w'.came k ≠ w.came k → ∃ i s, w.gate.Has k i s

theorem netEvent_turned (hframes : ∀ f ∈ frames, IsFrame P.cfg f)
    (hmax : ∀ f ∈ frames, f.length ≤ requestMax P.cfg.limits)
    (h : Kept k frames w.gate (w.came k) (w.acted k)) (hidle : w.gate.idle = true)
    (hshort : Short k frames w.gate (w.acted k)) (hsend : NetIn.Sends P.wire f)
    (hcame : (w.netEvent P ios f).came k <+: frames.flatten) :
    Turned P k frames f w (w.netEvent P ios f) := by
  have hself : Turned P k frames f w w :=
    ⟨h, fun _ => hshort, ⟨rfl, rfl, rfl, rfl⟩, fun _ s hs _ _ => ⟨s, hs⟩, fun hne => absurd rfl hne⟩
  unfold netEvent at hcame ⊢
  by_cases hacc : f.1 = P.wire.msgAccepted
  · rw [if_pos hacc]
    split
    · exact hself
    have hcalm := accepted_calm (C := P.cfg) w.gate (P.wire.acceptedParts f.2).1
      (P.wire.acceptedParts f.2).2 (P.wire.generation f.2)
    obtain ⟨hkept, hgoes⟩ := calm_kept hframes hcalm h
    exact ⟨hkept, fun _ => hgoes hshort, ⟨rfl, rfl, rfl, rfl⟩,
      fun i s hs _ hstale => hcalm.forth hs fun hE => hstale ⟨hacc, hE⟩, fun hne => absurd rfl hne⟩
  · rw [if_neg hacc] at hcame ⊢
    by_cases hdata : f.1 = P.wire.msgData
    · rw [if_pos hdata] at hcame ⊢
      by_cases hlen : f.2.length < 2
      · rw [if_pos hlen]
        exact hself
      rw [if_neg hlen] at hcame ⊢
      cases hconn : w.gate.netByConn (connId f.2) with
      | none => exact hself
      | some i =>
        rw [hconn] at hcame
        dsimp only at hcame ⊢
        have hfit : (f.2.drop 2).length ≤ P.wire.maxFragment := by
          unfold NetIn.Sends at hsend
          rw [List.length_drop]
          omega
        generalize hw' : ({ w with
          gate := w.gate.data P.cfg (connId f.2) (f.2.drop 2)
          came := Function.update w.came _ _ } : Fed) = w' at hcame ⊢
        have hserves := serves_serveSession (k := k) (w := w') hframes i ios
        obtain ⟨g', a, hsame⟩ := hserves.same
        rw [hsame] at hcame
        obtain ⟨hkept, hready, hhas⟩ := netData_kept hframes hmax h hidle hshort hconn hfit w'
          (hw' ▸ rfl) (hw' ▸ rfl) (hw' ▸ rfl) hcame
        refine ⟨hserves.kept hkept, fun hidle' => ?_, ?_, fun j s hs _ _ => ?_, fun hne => ?_⟩
        · rcases hready with ⟨s, hs⟩ | hs
          · exact serveSession_short hframes hkept hs hidle'
          · exact hserves.swept hkept (fun _ => hs) hidle'
        · rw [hsame, ← hw']
          exact ⟨rfl, rfl, rfl, rfl⟩
        · exact (hserves.has hkept j).mpr (hhas j ⟨s, hs⟩)
        · obtain ⟨t, ht, huse, -, -⟩ := netByConn_eq_some hconn
          refine ⟨i, t, ht, huse, by_contra fun hk => hne ?_⟩
          rw [hsame, ← hw']
          show Function.update w.came _ _ k = w.came k
          rw [ht]
          exact Function.update_of_ne (Ne.symm hk) _ _
    · rw [if_neg hdata] at hcame ⊢
      by_cases hclosed : f.1 = P.wire.msgClosed
      · rw [if_pos hclosed]
        split
        · exact hself
        have hcalm := closed_calm w.gate (connId f.2)
        obtain ⟨hkept, hgoes⟩ := calm_kept hframes hcalm h
        exact ⟨hkept, fun _ => hgoes hshort, ⟨rfl, rfl, rfl, rfl⟩,
          fun i s hs hend _ => hcalm.forth hs fun hE => hend ⟨hclosed, hE⟩,
          fun hne => absurd rfl hne⟩
      · rw [if_neg hclosed]
        exact hself

/-! ## Runs -/

/-- What the gate reads and offers aside leaves what waits of a session, which a new
one on its connection may end. -/
theorem aside_calm (g : Gate) {e : Event} (he : isAside e = true) :
    Calm (fun s => ∃ conn gen fp, e = .identity conn gen fp ∧ Stale conn gen s) g
      (AdminGate.step C g e) := by
  have hstill : ∀ {g' : Gate}, Still g g' →
      Calm (fun s => ∃ conn gen fp, e = .identity conn gen fp ∧ Stale conn gen s) g g' :=
    fun hs => { hs with forth := fun h _ => hs.forth h not_false }
  cases e with
  | identity conn gen fp =>
    have hcalm := readIdentity_calm (C := C) g conn gen fp
    exact { hcalm with forth := fun hs hE => hcalm.forth hs fun hst => hE ⟨conn, gen, fp, rfl, hst⟩ }
  | router rec => exact hstill (readRouter_still g rec)
  | record l rec io => exact hstill (record_still g l rec io)
  | flushRequest took =>
    cases took with
    | false => exact hstill (.of_eq rfl (Nat.le_refl _))
    | true => exact hstill (.of_eq rfl (Nat.le_refl _))
  | flushAnswer took => exact hstill (flushAnswer_still g took)
  | accepted | data | closed | serve => cases he

/-- What has come for a session is not taken back. -/
theorem came_step (w : Fed) (m : Move) : w.came k <+: (w.step P m).came k := by
  have hself := List.prefix_refl (w.came k)
  have hserves : ∀ (w : Fed) (i : ℕ) (ios : ℕ → FrameIo), (w.serveSession P i ios).came = w.came := by
    intro w i ios
    have hs : Serves k [] w (w.serveSession P i ios) := serves_serveSession (by exact nofun) i ios
    obtain ⟨g, a, he⟩ := hs.same
    rw [he]
  cases m with
  | arrive f => exact hself
  | aside e =>
    unfold step
    dsimp only
    split <;> exact hself
  | serveAll ios =>
    have hs : Serves k [] w (w.serveAll P ios) := (foldl_serveSession (by exact nofun) ios _).1
    obtain ⟨g, a, he⟩ := hs.same
    have hcame : (w.serveAll P ios).came k = w.came k := by rw [he]
    exact hcame.symm ▸ hself
  | read n ios =>
    unfold step
    dsimp only
    split
    · exact hself
    split
    · exact hself
    · exact hself
    · exact hself
    · unfold netEvent
      split
      · split <;> exact hself
      split
      · split
        · exact hself
        split
        · exact hself
        next i _ =>
        dsimp only
        rw [hserves]
        dsimp only
        by_cases hk : k = ((w.gate.net[i]?).map NetSession.incarnation).getD 0
        · rw [← hk, Function.update_self]
          exact List.prefix_append _ _
        · exact (Function.update_of_ne hk _ w.came).symm ▸ hself
      · split
        · split <;> exact hself
        · exact hself

theorem came_run (w : Fed) (ms : List Move) : w.came k <+: (Run.run (step P) w ms).came k := by
  induction ms generalizing w with
  | nil => exact List.prefix_refl _
  | cons m ms ih => exact (came_step w m).trans (ih _)

/-- The frames that the transport sends are no longer than a fragment may be, and a record is
read of a link into a buffer for one request (`RECORD_MAX`). -/
def Sent (P : NetConfig) : Move → Prop
  | .arrive f => NetIn.Sends P.wire f
  | .aside (.record _ rec _) => rec.length ≤ linkHdr + requestMax P.cfg.limits
  | _ => True

/-- **One move.** -/
theorem step_good (hframes : ∀ f ∈ frames, IsFrame P.cfg f)
    (hmax : ∀ f ∈ frames, f.length ≤ requestMax P.cfg.limits) (h : Good P k frames w)
    (hsent : Sent P m) (hcame : (w.step P m).came k <+: frames.flatten) :
    Good P k frames (w.step P m) ∧
      (∀ i s, w.gate.Has k i s → ¬ EndsOutside P k w m → ∃ s', (w.step P m).gate.Has k i s') ∧
      ((w.step P m).came k ≠ w.came k → ∃ i s, w.gate.Has k i s) := by
  obtain ⟨fs, hholds, harrived⟩ := h.pending
  cases m with
  | arrive f =>
    refine ⟨⟨h.kept, h.swept, ⟨fs ++ [f], hholds.arrive hsent, ?_⟩, h.lost⟩,
      fun i s hs _ => ⟨s, hs⟩, fun hne => absurd rfl hne⟩
    show w.arrived ++ [f] = w.handed ++ (fs ++ [f])
    rw [harrived, List.append_assoc]
  | aside e =>
    unfold step at hcame ⊢
    by_cases he : isAside e = true
    · dsimp only at hcame ⊢
      rw [if_pos he] at hcame ⊢
      have hcalm := aside_calm (C := P.cfg) w.gate he
      refine ⟨⟨(calm_kept hframes hcalm h.kept).1, fun hr => (nomatch hr), h.pending, h.lost⟩,
        fun i s hs hout => hcalm.forth hs ?_, fun hne => absurd rfl hne⟩
      rintro ⟨conn, gen, fp, rfl, hstale⟩
      exact hout ⟨i, s, hs, hstale⟩
    · dsimp only at hcame ⊢
      rw [if_neg he]
      exact ⟨h, fun i s hs _ => ⟨s, hs⟩, fun hne => absurd rfl hne⟩
  | serveAll ios =>
    obtain ⟨hserves, hshort⟩ := serveAll_spec hframes ios h.kept
    obtain ⟨g', a, hsame⟩ := hserves.same
    refine ⟨⟨hserves.kept h.kept, fun _ => hshort, ⟨fs, ?_, ?_⟩, ?_⟩,
      fun i s hs _ => (hserves.has h.kept i).mpr ⟨s, hs⟩, fun hne => absurd ?_ hne⟩
    · show ((w.serveAll P ios).net).Holds P.wire fs
      rw [hsame]
      exact hholds
    · show (w.serveAll P ios).arrived = (w.serveAll P ios).handed ++ fs
      rw [hsame]
      exact harrived
    · show (w.serveAll P ios).lost = false
      rw [hsame]
      exact h.lost
    · show (w.serveAll P ios).came k = w.came k
      rw [hsame]
  | read n ios =>
    unfold step at hcame ⊢
    dsimp only at hcame ⊢
    by_cases hbusy : ¬ w.reading ∨ w.lost ∨ ¬ w.gate.idle
    · rw [if_pos hbusy]
      exact ⟨h, fun i s hs _ => ⟨s, hs⟩, fun hne => absurd rfl hne⟩
    rw [if_neg hbusy] at hcame ⊢
    have hreading := not_not.mp (not_or.mp hbusy).1
    have hidle := not_not.mp (not_or.mp (not_or.mp hbusy).2).2
    have hshort := h.swept hreading hidle
    rcases NetIn.read_spec hholds n with hread | ⟨s', hread, hholds'⟩ | ⟨f, fs', s', rfl, hread, hholds'⟩
    · rw [hread]
      exact ⟨h, fun i s hs _ => ⟨s, hs⟩, fun hne => absurd rfl hne⟩
    · rw [hread]
      exact ⟨⟨h.kept, h.swept, ⟨fs, hholds', harrived⟩, h.lost⟩, fun i s hs _ => ⟨s, hs⟩,
        fun hne => absurd rfl hne⟩
    · rw [hread] at hcame ⊢
      dsimp only at hcame ⊢
      generalize hw' : ({ w with net := s', handed := w.handed ++ [f] } : Fed) = w' at hcame ⊢
      have hturned : Turned P k frames f w' (w'.netEvent P ios f) := by
        refine netEvent_turned hframes hmax ?_ ?_ ?_ (hholds.sends f List.mem_cons_self) hcame
        · rw [← hw']
          exact h.kept
        · rw [← hw']
          exact hidle
        · rw [← hw']
          exact hshort
      obtain ⟨hnet, hlost, harr, hhand⟩ := hturned.same
      refine ⟨⟨hturned.kept, fun _ => hturned.swept, ⟨fs', ?_, ?_⟩, ?_⟩, fun i s hs hout => ?_,
        fun hne => ?_⟩
      · rw [hnet, ← hw']
        exact hholds'
      · rw [harr, hhand, ← hw']
        show w.arrived = w.handed ++ [f] ++ fs'
        rw [harrived, List.append_assoc]
        rfl
      · rw [hlost, ← hw']
        exact h.lost
      · have hread? : w.net.read? P.wire n = some f := by
          rw [NetIn.read?, hread]
        refine hturned.has i s (hw' ▸ hs) (fun hend => hout ⟨i, s, f, hs, hread?, .inl hend⟩)
          fun hst => hout ⟨i, s, f, hs, hread?, .inr hst⟩
      · obtain ⟨i, s, hs⟩ := hturned.came (hw' ▸ hne)
        exact ⟨i, s, by rw [← hw'] at hs; exact hs⟩

theorem init_good (P : NetConfig) (k : ℕ) (frames : List Bytes) : Good P k frames (init P) := by
  have hnone : ∀ {k i s}, ¬ (AdminGate.init P.cfg).Has k i s := by
    intro k i s hs
    have hmem := List.mem_of_getElem? hs.1
    obtain rfl := List.eq_of_mem_replicate hmem
    cases hs.2.1
  have hwaits : ∀ {i : ℕ} {s : NetSession}, (AdminGate.init P.cfg).net[i]? = some s → s.Waits := by
    intro i s hs
    obtain rfl := List.eq_of_mem_replicate (List.mem_of_getElem? hs)
    exact ⟨rfl, fun _ => rfl⟩
  exact
    { kept := ⟨⟨fun hs => absurd hs hnone, fun hs _ => absurd hs hnone, hwaits⟩, List.nil_prefix,
        List.nil_prefix, List.nil_prefix, fun hs => absurd hs hnone, fun _ => ⟨rfl, rfl⟩⟩
      swept := fun hr => (nomatch hr)
      pending := ⟨[], NetIn.holds_empty P.wire, rfl⟩
      lost := rfl }

/-- The gate acts on exactly the frames of session `k`. -/
structure Exact (P : NetConfig) (k : ℕ) (frames : List Bytes) (ms : List Move) : Prop where
  order : (reached P ms).acted k <+: frames
  within : ((reached P ms).acted k).flatten <+: (reached P ms).came k
  /-- There is room for each where a request is forwarded from (`req`). -/
  fits : ∀ f ∈ (reached P ms).acted k, f.length ≤ requestMax P.cfg.limits
  /-- When more is read, all that has come whole has been acted on. -/
  all : (reached P ms).reading = true → (reached P ms).gate.idle = true →
    ∀ i s, (reached P ms).gate.Has k i s → ∀ n ≤ frames.length,
      (frames.take n).flatten <+: (reached P ms).came k → n ≤ ((reached P ms).acted k).length
  /-- The session goes on, unless the transport ends it. -/
  stays : Run.AllSteps (step P) (fun w m => ¬ EndsOutside P k w m) (init P) ms →
    (reached P ms).came k ≠ [] → ∃ i s, (reached P ms).gate.Has k i s
  /-- What the transport sent has been handed on, or is still to be. -/
  handed : (reached P ms).lost = false ∧ ∃ fs, (reached P ms).net.Holds P.wire fs ∧
    (reached P ms).arrived = (reached P ms).handed ++ fs

/-- A run: what is kept, and that the session goes on. -/
theorem run_good (hframes : ∀ f ∈ frames, IsFrame P.cfg f)
    (hmax : ∀ f ∈ frames, f.length ≤ requestMax P.cfg.limits) (ms : List Move)
    (h : Good P k frames w) (hsent : ∀ m ∈ ms, Sent P m)
    (hcame : (Run.run (step P) w ms).came k <+: frames.flatten) :
    Good P k frames (Run.run (step P) w ms) ∧
      (Run.AllSteps (step P) (fun w m => ¬ EndsOutside P k w m) w ms →
        (w.came k ≠ [] → ∃ i s, w.gate.Has k i s) →
        (Run.run (step P) w ms).came k ≠ [] → ∃ i s, (Run.run (step P) w ms).gate.Has k i s) := by
  induction ms generalizing w with
  | nil => exact ⟨h, fun _ hs hne => hs hne⟩
  | cons m ms ih =>
    obtain ⟨hgood, hhas, hnew⟩ := step_good hframes hmax h (hsent m List.mem_cons_self)
      ((came_run (w.step P m) ms).trans hcame)
    obtain ⟨hrun, hstays⟩ := ih hgood (fun m' hm => hsent m' (List.mem_cons_of_mem _ hm)) hcame
    refine ⟨hrun, fun hall hs => hstays hall.2 fun hne => ?_⟩
    have hslot : ∃ i s, w.gate.Has k i s := by
      by_cases heq : (w.step P m).came k = w.came k
      · exact hs (heq ▸ hne)
      · exact hnew heq
    obtain ⟨i, s, hold⟩ := hslot
    obtain ⟨s', hs'⟩ := hhas i s hold hall.1
    exact ⟨i, s', hs'⟩

/-- **The gate acts on exactly the frames of a session**, however they are cut, where
none is longer than the longest request. -/
theorem exact_of_run (hframes : ∀ f ∈ frames, IsFrame P.cfg f)
    (hmax : ∀ f ∈ frames, f.length ≤ requestMax P.cfg.limits) (ms : List Move)
    (hsent : ∀ m ∈ ms, Sent P m) (hcame : (reached P ms).came k <+: frames.flatten) :
    Exact P k frames ms := by
  obtain ⟨h, hstays⟩ := run_good hframes hmax ms (init_good P k frames) hsent hcame
  refine ⟨h.kept.order, h.kept.within, fun f hf => hmax f (h.kept.order.subset hf), fun hr hidle i s hs n hn hpre => ?_,
    fun hall => hstays hall fun hne => absurd rfl hne, h.lost, h.pending⟩
  by_contra hlt
  obtain ⟨rest, hrest⟩ := h.kept.order
  cases rest with
  | nil =>
    rw [List.append_nil] at hrest
    exact hlt (hrest ▸ hn)
  | cons f fs =>
    have hshort := h.swept hr hidle i s hs f ⟨fs, by rw [List.append_assoc]; exact hrest⟩
    -- The next frame would be among what has come.
    have hnext : (reached P ms).acted k ++ [f] <+: frames.take n := by
      refine (List.prefix_take_iff.mpr ⟨⟨fs, by rw [List.append_assoc]; exact hrest⟩, ?_⟩)
      rw [List.length_append, List.length_singleton]
      exact Nat.not_le.mp hlt
    obtain ⟨u, hu⟩ := hnext
    have hlen := hpre.length_le
    have hsplit : (reached P ms).came k = ((reached P ms).acted k).flatten ++ s.rx := h.kept.split hs
    rw [← hu, hsplit, List.flatten_append, List.flatten_append, List.length_append,
      List.length_append, List.length_append, List.flatten_singleton] at hlen
    omega

end Fed

end Loam.AdminGate

import Loam.BodyRouter

/-!
# What the replicating router's events do

One relation says what an operation may do (`Does`): the joins it leaves alone,
the joins it may open, what it may say upstream, and the streams it may open.
Every operation of the router has one lemma in these terms, and an event has
one: it is about the join whose ticket it spends, and opens at most the join
its request is for, besides the router's own (`Join.Inner`).
-/

namespace Loam.BodyRouter

open Fanout (Same Around Asks Spends Ticket Opens)

/-- What stays of a join while it is in hand. -/
structure Face where
  kind : Kind
  /-- The opcode a good answer repeats. -/
  op : BodyOp
  upCid : UInt32
  stream : Option ℕ
  need : ℕ
  targets : List UInt8
  keyed : Bool

/-- The face of a join. -/
def Join.face (j : Join) : Face := ⟨j.kind, j.op, j.upCid, j.stream, j.need, j.targets, j.keyed⟩

/-- The router opens joins of these kinds by itself. -/
def Kind.inner : Kind → Bool
  | .repair | .scrubScan | .scrubProbe | .scrubFetch | .streamAbort => true
  | _ => false

/-- What an operation may do. -/
structure Allow where
  join : Face → Prop
  say : UInt32 × BodyResp → Prop
  stream : List UInt8 → Prop

/-- An answer that acknowledges neither a store nor a stream. -/
def Quiet (p : UInt32 × BodyResp) : Prop := p.2.op ≠ some .put ∧ p.2.op ≠ some .wcommit

/-- What the router may do by itself. -/
def Allow.own : Allow := ⟨fun x => x.kind.inner = true, Quiet, fun _ => False⟩

/-- One operation may do all that another may. -/
structure Allow.le (A B : Allow) : Prop where
  join : ∀ x, A.join x → B.join x
  say : ∀ p, A.say p → B.say p
  stream : ∀ ts, A.stream ts → B.stream ts

/-- An operation about a join, or about none, does no more than it may. -/
structure Does (A : Allow) (g : Option ℕ) (s s' : State) : Prop where
  io : Around Join.face A.join g s.io s'.io
  up : ∀ p ∈ s'.up, p ∈ s.up ∨ A.say p
  streams : ∀ sid, (s'.streams sid).inUse = true →
    (s.streams sid).inUse = true ∧ (s'.streams sid).targets = (s.streams sid).targets
      ∨ A.stream (s'.streams sid).targets

section Steps

variable {C : Config} {N : ℕ → Bool} {A B : Allow} {s s' s'' : State} {g : ℕ} {o : Option ℕ}
  {j : Join} {io io' : Io} {qs : List (UInt8 × BodyReq)} {new : List (Ticket UInt8)}
  {resp : BodyResp} {t : UInt8} {cap : ℕ}

/-- What is done to the fan-out alone. -/
theorem Does.of_io (h : Around Join.face A.join o s.io io) : Does A o s { s with io := io } :=
  ⟨h, fun _ => .inl, fun _ h => .inl ⟨h, rfl⟩⟩

theorem Does.refl (hs : s.io.Sound) : Does A o s s := Does.of_io (.refl hs)

theorem Does.trans (h : Does A o s s') (h' : Does A o s' s'') : Does A o s s'' where
  io := h.io.trans h'.io
  up := fun p hp => (h'.up p hp).elim (h.up p) .inr
  streams := fun sid hin => by
    rcases h'.streams sid hin with ⟨hin', ht⟩ | ha
    · rw [ht]
      exact h.streams sid hin'
    · exact .inr ha

theorem Does.mono (h : Does A o s s') (hAB : A.le B) : Does B o s s' where
  io := h.io.mono hAB.join
  up := fun p hp => (h.up p hp).imp_right (hAB.say p)
  streams := fun sid hin => (h.streams sid hin).imp_right (hAB.stream _)

theorem Does.any (h : Does A none s s') (o : Option ℕ) : Does A o s s' :=
  ⟨h.io.any o, h.up, h.streams⟩

/-- An operation that goes on about a join it opened is about no other. -/
theorem Does.forget (h : Does A none s s') (h' : Does A (some g) s' s'') (hg : s.io.nextGen ≤ g) :
    Does A none s s'' :=
  have hall := (h.any (some g)).trans h'
  ⟨h.io.forget h'.io hg, hall.up, hall.streams⟩

theorem does_emit (hs : s.io.Sound) {c : UInt32} {r : BodyResp} (h : A.say (c, r)) :
    Does A o s (s.emit c r) := by
  refine ⟨.refl hs, fun p hp => ?_, fun _ h => .inl ⟨h, rfl⟩⟩
  rcases List.mem_append.mp hp with hp | hp
  · exact .inl hp
  · exact .inr (List.mem_singleton.mp hp ▸ h)

theorem quiet_nak (c : UInt32) (e : BodyErr) : Quiet (c, .nak e) := by simp [Quiet, BodyResp.op]

theorem does_free (hs : s.io.Sound) (g : ℕ) : Does A (some g) s (s.freeJoin g) :=
  Does.of_io (Fanout.around_close hs g)

theorem does_set (hs : s.io.Sound) (g : ℕ) {h : Join → Join}
    (hh : ∀ j, s.io.join? g = some j → (h j).face = j.face) : Does A (some g) s (s.setJoin g h) :=
  Does.of_io (Fanout.around_modify hs g hh)

theorem does_answer (hs : s.io.Sound) (g : ℕ) {c : UInt32} {r : BodyResp} (h : A.say (c, r)) :
    Does A (some g) s ((s.emit c r).freeJoin g) := by
  have hemit : Does A (some g) s (s.emit c r) := does_emit hs h
  exact hemit.trans (does_free hemit.io.sound g)

theorem does_freeStream (hs : s.io.Sound) (sid : ℕ) : Does A o s (s.freeStream sid) := by
  refine ⟨.refl hs, fun _ => .inl, fun i hin => ?_⟩
  by_cases hi : i = sid
  · subst hi
    simp [State.freeStream, State.setStream] at hin
  · have hsame : (s.freeStream sid).streams i = s.streams i := Function.update_of_ne hi _ _
    rw [hsame] at hin ⊢
    exact .inl ⟨hin, rfl⟩

theorem does_opened (hs : s.io.Sound) (sid : ℕ) (targets : List UInt8) (wid : Option UInt8) :
    Does A o s (s.setStream sid fun st => st.opened t targets wid) := by
  have hsame : ∀ st : Stream, (st.opened t targets wid).inUse = st.inUse
      ∧ (st.opened t targets wid).targets = st.targets := by
    intro st
    unfold Stream.opened
    split <;> exact ⟨rfl, rfl⟩
  refine ⟨.refl hs, fun _ => .inl, fun i hin => ?_⟩
  by_cases hi : i = sid
  · subst hi
    simp only [State.setStream, Function.update_self] at hin ⊢
    exact .inl ⟨(hsame _).1 ▸ hin, (hsame _).2⟩
  · have heq : (s.setStream sid fun st => st.opened t targets wid).streams i = s.streams i :=
      Function.update_of_ne hi _ _
    rw [heq] at hin ⊢
    exact .inl ⟨hin, rfl⟩

/-! ## Asking -/

/-- A join that was opened asks one member, or is closed again. -/
theorem does_askOne (hs : s.io.Sound) (h : s.io.start C.joinCap j = some (g, io))
    (hj : A.join j.face) (peer : UInt8) (req : BodyReq) :
    Does A none s (if (io.ask C.pendingCap N g peer req).2
      then { s with io := (io.ask C.pendingCap N g peer req).1 }
      else { s with io := (io.ask C.pendingCap N g peer req).1 }.freeJoin g) := by
  obtain ⟨new, hasks, -⟩ := Fanout.ask_spec io C.pendingCap N g peer req
  have ho := (Fanout.opens_start hs h).asks hasks
  have hopen : Does A none s { s with io := (io.ask C.pendingCap N g peer req).1 } :=
    Does.of_io (ho.around hj)
  split
  · exact hopen
  · exact hopen.forget (does_free ho.sound g) (Nat.le_of_eq ho.gen.symm)

variable (qs) in
/-- Asking every target is about the join that asks. -/
theorem does_askTargets (hs : s.io.Sound) (hg : g < s.io.nextGen) :
    Does A (some g) s (askTargets C N s g qs) := by
  obtain ⟨new, hasks, -⟩ := Fanout.askAll_spec C.pendingCap N g qs s.io
  exact (Does.of_io (hasks.around hs hg)).trans
    (does_set (hasks.sound hs hg) g fun _ _ => rfl)

/-- **A walk moves on**, to the target after the one it asked or to its end. -/
theorem does_advanceRead (targets : List UInt8) (hs : s.io.Sound) (hsay : ∀ p, Quiet p → A.say p) :
    Does A (some g) s (advanceRead C N g targets s) := by
  induction targets generalizing s with
  | nil =>
    unfold advanceRead
    split
    · exact .refl hs
    dsimp only
    split
    · exact does_free hs g
    · exact (does_free hs g).trans (does_emit (hs.close g) (hsay _ (quiet_nak _ _)))
  | cons t rest ih =>
    unfold advanceRead
    split
    · exact .refl hs
    next j hj =>
    obtain ⟨new, hasks, -⟩ := Fanout.ask_spec s.io C.pendingCap N g t j.question
    have hg := Fanout.join?_lt hs hj
    have hask : Does A (some g) s { s with io := (s.io.ask C.pendingCap N g t j.question).1 } :=
      Does.of_io (hasks.around hs hg)
    have hs' := hasks.sound hs hg
    dsimp only
    split
    · exact hask
    have hset := hask.trans (does_set hs' g (h := fun j =>
      { j with lastErrno := errIo, attempt := j.attempt + 1 }) fun _ _ => rfl)
    exact hset.trans (ih hset.io.sound)

/-! ## What the router does by itself -/

theorem does_abortMember (hs : s.io.Sound) (q : UInt8 × BodyReq) :
    Does .own none s (abortMember C N s q) := by
  unfold abortMember
  split
  · exact .refl hs
  · next g io hstart => exact does_askOne hs hstart rfl q.1 q.2

/-- A fold of operations about no join. -/
theorem does_foldl {α : Type} (op : State → α → State)
    (hop : ∀ s, s.io.Sound → ∀ a, Does A none s (op s a)) (l : List α) (hs : s.io.Sound) :
    Does A none s (l.foldl op s) := by
  induction l generalizing s with
  | nil => exact .refl hs
  | cons a l ih =>
    have h := hop s hs a
    exact h.trans (ih h.io.sound)

/-- **A stream is given up.** -/
theorem does_abortStreamMembers (hs : s.io.Sound) (sid : ℕ) :
    Does .own none s (abortStreamMembers C N s sid) := by
  have h := does_foldl (A := .own) (abortMember C N) (fun s hs q => does_abortMember hs q)
    ((s.streams sid).questions .wabort) hs
  exact h.trans (does_freeStream h.io.sound sid)

theorem does_repairOne (hs : s.io.Sound) (op : BodyOp) (req : BodyReq) (member : UInt8) :
    Does .own none s (repairOne C N op req s member) := by
  unfold repairOne
  split
  · exact .refl hs
  · next g io hstart => exact does_askOne hs hstart rfl member req

theorem does_spawnRepairPuts (hs : s.io.Sound) (members : List UInt8) (resp : BodyResp) (keyed : Option Digest) :
    Does .own none s (spawnRepairPuts C N s members resp keyed) := by
  unfold spawnRepairPuts
  split
  · split
    · exact .refl hs
    split
    · exact does_foldl _ (fun s hs m => does_repairOne hs _ _ m) members hs
    · exact does_foldl _ (fun s hs m => does_repairOne hs _ _ m) members hs
  · exact .refl hs

theorem does_scrub (hs : s.io.Sound) (x : Scrub) : Does A o s { s with scrub := x } :=
  ⟨.refl hs, fun _ => .inl, fun _ h => .inl ⟨h, rfl⟩⟩

theorem does_scrubKick (hs : s.io.Sound) : Does .own none s (scrubKick C N s) := by
  unfold scrubKick
  split
  · exact .refl hs
  dsimp only
  generalize (if C.members ≤ s.scrub.target then 0 else s.scrub.target) = target
  split
  · exact does_scrub hs _
  next g io hstart =>
  obtain ⟨new, hasks, -⟩ := Fanout.ask_spec io C.pendingCap N g (UInt8.ofNat target)
    (.scan s.scrub.cursor (UInt8.ofNat maxScanDigests))
  have ho := (Fanout.opens_start hs hstart).asks hasks
  have hopen := (does_scrub (A := .own) (o := none) hs { s.scrub with target := target }).trans
    (Does.of_io (ho.around rfl))
  split
  · exact hopen.trans (does_scrub ho.sound _)
  exact (hopen.forget (does_free ho.sound g) (Nat.le_of_eq ho.gen.symm)).trans
    (does_scrub (ho.sound.close g) _)

/-- A join that was opened asks every target, and may be closed again. -/
theorem does_openAsk (hs : s.io.Sound) (h : s.io.start C.joinCap j = some (g, io))
    (hj : A.join j.face) (qs : List (UInt8 × BodyReq)) :
    Does A none s (askTargets C N { s with io := io } g qs) ∧
      Does A none s ((askTargets C N { s with io := io } g qs).freeJoin g) := by
  have ho := Fanout.opens_start hs h
  have hopen : Does A none s { s with io := io } := Does.of_io (ho.around hj)
  have hask := does_askTargets (C := C) (N := N) (A := A) (s := { s with io := io }) qs
    ho.sound ho.lt
  have hall := hopen.forget hask (Nat.le_of_eq ho.gen.symm)
  exact ⟨hall, hall.forget (does_free hall.io.sound g) (Nat.le_of_eq ho.gen.symm)⟩

/-- A name a scan brought is probed. -/
theorem does_scrubSpawnProbe (hs : s.io.Sound) (name : Digest × Bool) :
    Does .own none s (scrubSpawnProbe C N s name) := by
  unfold scrubSpawnProbe
  dsimp only
  split
  · exact .refl hs
  split
  · exact .refl hs
  next g io hstart =>
  have hopen := does_openAsk (N := N) (A := .own) hs hstart rfl
    ((rankTargets C s.fleet name.1).map fun t => (t, .head name.1))
  split
  · exact hopen.2
  · exact hopen.1

theorem does_scrubApplyScan (hs : s.io.Sound) : Does .own none s (scrubApplyScan C N s resp) := by
  unfold scrubApplyScan
  split
  · next next page =>
    have hturn : Does .own none s (if next = 0
        then scrubNextTarget C { s with scrub := { s.scrub with scanInflight := false, cursor := next } }
        else { s with scrub := { s.scrub with scanInflight := false, cursor := next } }) := by
      split <;> exact does_scrub hs _
    exact hturn.trans (does_foldl _ (fun s hs n => does_scrubSpawnProbe hs n) page hturn.io.sound)
  · exact does_scrub hs _

theorem does_scrubSpawnFetch (hs : s.io.Sound) (probe : Join) :
    Does .own none s (scrubSpawnFetch C N s probe) := by
  unfold scrubSpawnFetch
  dsimp only
  split
  · exact .refl hs
  next g io hstart =>
  have ho := Fanout.opens_start hs hstart
  have hopen : Does .own none s { s with io := io } := Does.of_io (ho.around rfl)
  exact hopen.forget (does_advanceRead _ ho.sound fun _ => id) (Nat.le_of_eq ho.gen.symm)

/-! ## Answers -/

/-- What an answer to a join may do: the router's own, and a store or a commit
may be acknowledged by its own join. -/
def Allow.answer (j : Join) : Allow :=
  ⟨fun x => x.kind.inner = true, fun p => Quiet p ∨ (j.kind = .client ∧ j.op = .put)
    ∨ j.kind = .streamCommit, fun _ => False⟩

theorem Allow.own_le_answer (j : Join) : Allow.own.le (.answer j) :=
  ⟨fun _ => id, fun _ => .inl, fun _ => id⟩

theorem face_noteDigest (j : Join) (d : Option Digest) : (j.noteDigest d).face = j.face := by
  unfold Join.noteDigest
  repeat' split
  all_goals rfl

theorem does_note (j' : Join) (hs : s.io.Sound) (hj : s.io.join? g = some j)
    (hf : j'.face = j.face) : Does A (some g) s (s.setJoin g fun _ => j') := by
  refine does_set hs g fun j₀ hj₀ => ?_
  cases hj.symm.trans hj₀
  exact hf

/-- A member answered a store. -/
theorem does_answerPut (hs : s.io.Sound) (hj : s.io.join? g = some j) (hk : j.kind = .client)
    (hop : j.op = .put ∨ j.op = .putKeyed) :
    Does (.answer j) (some g) s (answerPut s g j resp) := by
  have hsay : ∀ r, (j.op = .putKeyed → Quiet (j.upCid, r)) →
      (Allow.answer j).say (j.upCid, r) := by
    intro r hr
    rcases hop with hop | hop
    · exact .inr (.inl ⟨hk, hop⟩)
    · exact .inl (hr hop)
  have hface : (({ j with ack := j.ack + 1 } : Join).noteDigest (respDigest resp)).face = j.face :=
    face_noteDigest { j with ack := j.ack + 1 } _
  have hup : (({ j with ack := j.ack + 1 } : Join).noteDigest (respDigest resp)).upCid = j.upCid :=
    congrArg Face.upCid hface
  have hopf : (({ j with ack := j.ack + 1 } : Join).noteDigest (respDigest resp)).op = j.op :=
    congrArg Face.op hface
  unfold answerPut
  split
  · dsimp only
    rw [hup, hopf]
    split
    · exact does_answer hs g (hsay _ fun _ => quiet_nak _ _)
    split
    · refine does_answer hs g (hsay _ fun hk => ?_)
      rw [hk]
      split <;> simp [Quiet, BodyResp.op]
    · exact does_note _ hs hj hface
  · exact does_answer hs g (hsay _ fun _ => quiet_nak _ _)

/-- A member answered a read: it goes upstream, or the next is asked. -/
theorem does_answerRead (hs : s.io.Sound) (hj : s.io.join? g = some j)
    (hop : j.op = .get ∨ j.op = .head ∨ j.op = .range) :
    Does .own (some g) s (answerRead C N s g j resp) := by
  unfold answerRead
  split
  · next hsame =>
    have hquiet : Quiet (j.upCid, resp) := by
      unfold Quiet
      rw [hsame]
      rcases hop with h | h | h <;> rw [h] <;> simp
    have hans : Does .own (some g) s ((s.emit j.upCid resp).freeJoin g) := does_answer hs g hquiet
    dsimp only
    split
    · exact hans.trans ((does_spawnRepairPuts hans.io.sound _ _ _).any _)
    · exact hans
  · dsimp only
    have hset := does_note (A := .own) { j with
      lastErrno := nakErrno resp, attempt := j.attempt + 1
      notFound := if nakErrno resp = errNotFound then j.attempt :: j.notFound else j.notFound } hs hj
      rfl
    exact hset.trans (does_advanceRead _ hset.io.sound fun _ => id)

theorem face_noteDelete (j : Join) (resp : BodyResp) : (j.noteDelete resp).face = j.face := by
  unfold Join.noteDelete
  split <;> rfl

/-- A member answered a removal. -/
theorem does_answerDelete (hs : s.io.Sound) (hj : s.io.join? g = some j) :
    Does .own (some g) s (answerDelete s g j resp) := by
  have hf := face_noteDelete j resp
  unfold answerDelete
  generalize j.noteDelete resp = j' at hf ⊢
  dsimp only
  split
  · refine does_answer hs g ?_
    split <;> simp [Allow.own, Quiet, BodyResp.op]
  · exact does_note _ hs hj hf

theorem face_noteStream (j : Join) (resp : BodyResp) : (j.noteStream resp).face = j.face := by
  unfold Join.noteStream
  split
  · exact face_noteDigest { j with ack := j.ack + 1 } _
  · rfl

variable (resp) in
theorem does_noteSession (hs : s.io.Sound) (sid : ℕ) :
    Does A o s (noteSession s j sid t resp) ∧ (noteSession s j sid t resp).io = s.io := by
  unfold noteSession
  split
  · exact ⟨does_opened hs sid j.targets _, rfl⟩
  · exact ⟨.refl hs, rfl⟩

theorem does_finishStream (hs : s.io.Sound) (j : Join) (sid : ℕ)
    (hk : j.kind = .streamOpen ∨ j.kind = .streamAppend ∨ j.kind = .streamCommit) :
    Does (.answer j) (some g) s (finishStream s g j sid) := by
  have hfree := does_free (A := .answer j) hs g
  unfold finishStream
  split
  · exact hfree.trans (does_emit hfree.io.sound (.inl (by simp [Quiet, BodyResp.op])))
  · exact hfree.trans (does_emit hfree.io.sound (.inl (by simp [Quiet, BodyResp.op])))
  · next ho ha =>
    have hslot := hfree.trans (does_freeStream hfree.io.sound sid)
    refine hslot.trans (does_emit hslot.io.sound (.inr (.inr ?_)))
    exact (hk.resolve_left ho).resolve_left ha

/-- A member answered for a stream. -/
theorem does_answerStream (hs : s.io.Sound) (hj : s.io.join? g = some j) (sid : ℕ)
    (hk : j.kind = .streamOpen ∨ j.kind = .streamAppend ∨ j.kind = .streamCommit) :
    Does (.answer j) (some g) s (answerStream C N s g j sid t resp) := by
  unfold answerStream
  split
  · obtain ⟨hnote, hio⟩ := does_noteSession (A := .answer j) (o := some g) (j := j) (t := t) resp
      hs sid
    have hf := face_noteStream j resp
    have hkind : (j.noteStream resp).kind = j.kind := congrArg Face.kind hf
    have hop : (j.noteStream resp).op = j.op := congrArg Face.op hf
    dsimp only
    split
    · have hfin := does_finishStream (g := g) hnote.io.sound (j.noteStream resp) sid (hkind ▸ hk)
      refine hnote.trans (hfin.mono ⟨fun _ => id, fun p hp => ?_, fun _ => id⟩)
      rwa [Allow.answer, hkind, hop] at hp
    · exact hnote.trans (does_note _ hnote.io.sound (hio ▸ hj) hf)
  · have hfree := does_free (A := .answer j) hs g
    have habort := ((does_abortStreamMembers (C := C) (N := N) hfree.io.sound sid).mono
      (Allow.own_le_answer j)).any (some g)
    exact (hfree.trans habort).trans (does_emit habort.io.sound (.inl (quiet_nak _ _)))

/-- A member answered an abort. -/
theorem does_answerAbort (hs : s.io.Sound) (hj : s.io.join? g = some j) :
    Does .own (some g) s (answerAbort s g j) := by
  have hfree := does_free (A := .own) hs g
  unfold answerAbort
  dsimp only
  split
  · split
    · next sid _ =>
      have hslot := hfree.trans (does_freeStream hfree.io.sound sid)
      exact hslot.trans (does_emit hslot.io.sound (by simp [Allow.own, Quiet, BodyResp.op]))
    · exact hfree
  · exact does_note _ hs hj rfl

theorem face_heard (j : Join) (t : UInt8) (resp : BodyResp) : (j.heard t resp).face = j.face := by
  unfold Join.heard
  dsimp only
  split <;> rfl

theorem does_scrubApplyProbe (hs : s.io.Sound) (hj : s.io.join? g = some j) :
    Does .own (some g) s (scrubApplyProbe C N s g j t resp) := by
  have hset := does_note (A := .own) _ hs hj (face_heard j t resp)
  unfold scrubApplyProbe
  dsimp only
  split
  · exact hset
  have hfree := hset.trans (does_free hset.io.sound g)
  split
  · exact hfree
  · exact hfree.trans ((does_scrubSpawnFetch hfree.io.sound _).any _)

/-- A scan for upstream awaits a scan. -/
def Face.Sane (x : Face) : Prop := x.kind = .adminScan → x.op = .scan

/-- **What an answer does** is about its join. -/
theorem does_applyJoinResponse (hs : s.io.Sound) (hj : s.io.join? g = some j)
    (hsane : j.face.Sane) : Does (.answer j) (some g) s (applyJoinResponse C N s g j t resp) := by
  have hown : ∀ s', Does .own (some g) s s' → Does (.answer j) (some g) s s' :=
    fun s' h => h.mono (Allow.own_le_answer j)
  have hfree := does_free (A := .own) hs g
  unfold applyJoinResponse
  split
  · exact does_free hs g
  · next hk =>
    refine hown _ (hfree.trans (does_emit hfree.io.sound ?_))
    change Quiet _
    split
    · next hop =>
      rw [show j.op = .scan from hsane hk] at hop
      simp [Quiet, hop]
    · exact quiet_nak _ _
  · exact hown _ (hfree.trans ((does_scrubApplyScan hfree.io.sound).any _))
  · exact hown _ (does_scrubApplyProbe hs hj)
  · split
    · exact hown _ (hfree.trans ((does_spawnRepairPuts hfree.io.sound _ _ _).any _))
    have hset := does_note (A := .own) { j with attempt := j.attempt + 1 } hs hj rfl
    exact hown _ (hset.trans (does_advanceRead _ hset.io.sound fun _ => id))
  · next hk =>
    split
    · exact does_answerStream hs hj _ (.inl hk)
    · exact .refl hs
  · next hk =>
    split
    · exact does_answerStream hs hj _ (.inr (.inl hk))
    · exact .refl hs
  · next hk =>
    split
    · exact does_answerStream hs hj _ (.inr (.inr hk))
    · exact .refl hs
  · exact hown _ (does_answerAbort hs hj)
  · next hk =>
    split
    · next hop => exact does_answerPut hs hj hk (.inl hop)
    · next hop => exact does_answerPut hs hj hk (.inr hop)
    · next hop => exact hown _ (does_answerRead hs hj (.inl hop))
    · next hop => exact hown _ (does_answerRead hs hj (.inr (.inl hop)))
    · next hop => exact hown _ (does_answerRead hs hj (.inr (.inr hop)))
    · exact hown _ (does_answerDelete hs hj)
    · exact hown _ (does_answer hs g (quiet_nak _ _))

/-! ## Requests -/

/-- What a request may do: open a join that stores for a store and one that
commits for a commit, and a stream for an open, on the members ranked for the
name it declares. -/
def Allow.request (C : Config) (fleet : List UInt8) (req : BodyReq) : Allow :=
  ⟨fun x => x.Sane ∧ (x.kind = .client → x.op = .put → ∃ body, req = .put body)
      ∧ (x.kind = .streamCommit → ∃ wid, req = .wcommit wid),
    Quiet, fun ts => ∃ name total, req = .wopen name total ∧ ts = rankTargets C fleet name ∧ ts ≠ []⟩

theorem Allow.own_le_request (fleet : List UInt8) (req : BodyReq) :
    Allow.own.le (.request C fleet req) := by
  refine ⟨fun x hx => ?_, fun _ => id, fun _ h => h.elim⟩
  change x.kind.inner = true at hx
  refine ⟨fun hk => ?_, fun hk => ?_, fun hk => ?_⟩ <;> rw [hk] at hx <;> cases hx

/-- A slot is taken for a stream. -/
theorem does_openStream (hs : s.io.Sound) (sid : ℕ) {ts : List UInt8} (h : A.stream ts) :
    Does A o s (s.setStream sid fun _ => { inUse := true, targets := ts }) := by
  refine ⟨.refl hs, fun _ => .inl, fun i hin => ?_⟩
  by_cases hi : i = sid
  · subst hi
    right
    simpa [State.setStream] using h
  · have heq : (s.setStream sid fun _ => { inUse := true, targets := ts }).streams i = s.streams i :=
      Function.update_of_ne hi _ _
    rw [heq] at hin ⊢
    exact .inl ⟨hin, rfl⟩

/-- A request that asks every target goes on, or is refused. -/
theorem does_openOrNak (hs : s.io.Sound) (h : s.io.start C.joinCap j = some (g, io))
    (hj : A.join j.face) (hsay : ∀ p, Quiet p → A.say p) (qs : List (UInt8 × BodyReq)) :
    Does A none s (if failedAll (askTargets C N { s with io := io } g qs) g
      then ((askTargets C N { s with io := io } g qs).freeJoin g).emit s.upCid (.nak errIo)
      else askTargets C N { s with io := io } g qs) := by
  obtain ⟨hask, hclosed⟩ := does_openAsk (N := N) hs h hj qs
  split
  · exact hclosed.trans (does_emit hclosed.io.sound (hsay _ (quiet_nak _ _)))
  · exact hask

theorem does_handleRead (hs : s.io.Sound) (op : BodyOp) (digest : Digest) (off : UInt64)
    (len : UInt32) (hA : ∀ x : Face, x.kind = .client → x.op = op → A.join x)
    (hsay : ∀ p, Quiet p → A.say p) :
    Does A none s (handleRead C N s op digest off len) := by
  unfold handleRead
  dsimp only
  split
  · exact does_emit hs (hsay _ (quiet_nak _ _))
  split
  · exact does_emit hs (hsay _ (quiet_nak _ _))
  next g io hstart =>
  have ho := Fanout.opens_start hs hstart
  have hopen : Does A none s { s with io := io } := Does.of_io (ho.around (hA _ rfl rfl))
  exact hopen.forget (does_advanceRead _ ho.sound hsay) (Nat.le_of_eq ho.gen.symm)

/-- A stream's request goes on, or drops the stream. -/
theorem does_streamOrNak (hs : s.io.Sound) (h : s.io.start C.joinCap j = some (g, io))
    (hj : A.join j.face) (hA : Allow.own.le A) (sid : ℕ) (qs : List (UInt8 × BodyReq)) :
    Does A none s (askTargets C N { s with io := io } g qs) ∧
      Does A none s ((abortStreamMembers C N ((askTargets C N { s with io := io } g qs).freeJoin g)
        sid).emit s.upCid (.nak errIo)) ∧
      Does A none s ((((askTargets C N { s with io := io } g qs).freeJoin g).freeStream sid).emit
        s.upCid .wabort) := by
  obtain ⟨hask, hclosed⟩ := does_openAsk (N := N) hs h hj qs
  have habort := hclosed.trans
    ((does_abortStreamMembers (C := C) (N := N) hclosed.io.sound sid).mono hA)
  have hfree := hclosed.trans (does_freeStream hclosed.io.sound sid)
  exact ⟨hask, habort.trans (does_emit habort.io.sound (hA.say _ (quiet_nak _ _))),
    hfree.trans (does_emit hfree.io.sound (hA.say _ (by simp [Allow.own, Quiet, BodyResp.op])))⟩

/-- Dropping a stream for a request that finds no room. -/
theorem does_abortOrNak (hs : s.io.Sound) (hA : Allow.own.le A) (sid : ℕ) :
    Does A none s ((abortStreamMembers C N s sid).emit s.upCid (.nak errIo)) := by
  have habort := (does_abortStreamMembers (C := C) (N := N) hs sid).mono hA
  exact habort.trans (does_emit habort.io.sound (hA.say _ (quiet_nak _ _)))

/-- A stream is opened on the members ranked for its digest. -/
theorem does_handleStreamOpen (hs : s.io.Sound) (name : Digest) (total : UInt64) :
    Does (.request C s.fleet (.wopen name total)) none s (handleStreamOpen C N s name total) := by
  unfold handleStreamOpen
  dsimp only
  split
  · exact does_emit hs (quiet_nak _ _)
  next hsome =>
  split
  · exact does_emit hs (quiet_nak _ _)
  next sid _ =>
  have hslot := does_openStream (A := .request C s.fleet (.wopen name total)) (o := none) hs sid
    ⟨name, total, rfl, rfl, hsome⟩
  split
  · have hfree := hslot.trans (does_freeStream hslot.io.sound sid)
    exact hfree.trans (does_emit hfree.io.sound (quiet_nak _ _))
  next hstart =>
  obtain ⟨hask, habort, -⟩ := does_streamOrNak (N := N) hslot.io.sound hstart
    (A := .request C s.fleet (.wopen name total)) ⟨nofun, nofun, nofun⟩
    (Allow.own_le_request _ _) sid ((rankTargets C s.fleet name).map fun t => (t, .wopen name total))
  split
  · exact hslot.trans habort
  · exact hslot.trans hask

/-- A chunk goes to every member of its stream. -/
theorem does_handleStreamAppend (hs : s.io.Sound) (wid : UInt8) (chunk : Bytes) :
    Does (.request C s.fleet (.wappend wid chunk)) none s
      (handleStreamAppend C N s wid.toNat chunk) := by
  unfold handleStreamAppend
  split
  · exact does_emit hs (quiet_nak _ _)
  split
  · exact does_emit hs (quiet_nak _ _)
  dsimp only
  split
  · exact does_abortOrNak hs (Allow.own_le_request _ _) _
  next hstart =>
  obtain ⟨hask, habort, -⟩ := does_streamOrNak (N := N) hs hstart
    (A := .request C s.fleet (.wappend wid chunk)) ⟨nofun, nofun, nofun⟩
    (Allow.own_le_request _ _) wid.toNat ((s.streams wid.toNat).questions fun w => .wappend w chunk)
  split
  · exact habort
  · exact hask

/-- A commit goes to every member of its stream. -/
theorem does_handleStreamCommit (hs : s.io.Sound) (wid : UInt8) :
    Does (.request C s.fleet (.wcommit wid)) none s (handleStreamCommit C N s wid.toNat) := by
  unfold handleStreamCommit
  split
  · exact does_emit hs (quiet_nak _ _)
  dsimp only
  split
  · exact does_abortOrNak hs (Allow.own_le_request _ _) _
  next hstart =>
  obtain ⟨hask, habort, hfree⟩ := does_streamOrNak (N := N) hs hstart
    (A := .request C s.fleet (.wcommit wid)) ⟨nofun, nofun, fun _ => ⟨wid, rfl⟩⟩
    (Allow.own_le_request _ _) wid.toNat ((s.streams wid.toNat).questions .wcommit)
  split
  · exact habort
  split
  · exact hfree
  · exact hask

/-- An abort goes to every member of its stream. -/
theorem does_handleStreamAbort (hs : s.io.Sound) (wid : UInt8) :
    Does (.request C s.fleet (.wabort wid)) none s (handleStreamAbort C N s wid.toNat) := by
  unfold handleStreamAbort
  split
  · exact does_emit hs (quiet_nak _ _)
  dsimp only
  split
  · exact does_abortOrNak hs (Allow.own_le_request _ _) _
  next hstart =>
  obtain ⟨hask, -, hfree⟩ := does_streamOrNak (N := N) hs hstart
    (A := .request C s.fleet (.wabort wid)) ⟨nofun, nofun, nofun⟩
    (Allow.own_le_request _ _) wid.toNat ((s.streams wid.toNat).questions .wabort)
  split
  · exact hfree
  · exact hask

theorem does_handleAdminScan (hs : s.io.Sound) (cursor : UInt32) (max : UInt8) :
    Does (.request C s.fleet (.scan cursor max)) none s (handleAdminScan C N s cursor max) := by
  unfold handleAdminScan
  split
  · exact does_emit hs (quiet_nak _ _)
  split
  · exact does_emit hs (quiet_nak _ _)
  next g io hstart =>
  have hask := does_askOne (N := N) (A := .request C s.fleet (.scan cursor max)) hs hstart
    ⟨fun _ => rfl, nofun, nofun⟩ 0 (.scan cursor max)
  dsimp only
  split
  · next hok => rwa [if_pos hok] at hask
  next hno =>
  rw [if_neg hno] at hask
  exact hask.trans (does_emit hask.io.sound (quiet_nak _ _))

/-- **What a request does.** -/
theorem does_handleRequest (hs : s.io.Sound) (req : BodyReq) :
    Does (.request C s.fleet req) none s (handleRequest C N s req) := by
  have hnak : ∀ e, Does (.request C s.fleet req) none s (s.emit s.upCid (.nak e)) :=
    fun e => does_emit hs (quiet_nak _ _)
  have hsay : ∀ p, Quiet p → (Allow.request C s.fleet req).say p := fun _ => id
  -- a join of another opcode than a store's, or of another kind than a commit's
  have hclient : ∀ x : Face, x.kind = .client → x.op ≠ .put →
      (Allow.request C s.fleet req).join x := by
    intro x hk hop
    refine ⟨fun h => ?_, fun _ h => absurd h hop, fun h => ?_⟩ <;> rw [hk] at h <;> cases h
  have hread : ∀ op digest off len, op ≠ .put →
      Does (.request C s.fleet req) none s (handleRead C N s op digest off len) :=
    fun op digest off len hop =>
      does_handleRead hs _ _ _ _ (fun x hk hx => hclient x hk (hx ▸ hop)) hsay
  cases req with
  | put body =>
    unfold handleRequest handlePut
    dsimp only
    split
    · exact hnak _
    split
    · exact hnak _
    split
    · exact hnak _
    next hstart =>
    exact does_openOrNak (A := .request C s.fleet (.put body)) hs hstart
      ⟨nofun, fun _ _ => ⟨body, rfl⟩, nofun⟩ hsay _
  | putKeyed key blob =>
    unfold handleRequest handlePutKeyed
    dsimp only
    split
    · exact hnak _
    split
    · exact hnak _
    split
    · exact hnak _
    next hstart => exact does_openOrNak hs hstart (hclient _ rfl (by simp [Join.face])) hsay _
  | get name => exact hread _ _ _ _ nofun
  | head name => exact hread _ _ _ _ nofun
  | range name off len => exact hread _ _ _ _ nofun
  | delete name =>
    unfold handleRequest handleDelete
    dsimp only
    split
    · exact hnak _
    split
    · exact hnak _
    next hstart => exact does_openOrNak hs hstart (hclient _ rfl (by simp [Join.face])) hsay _
  | wopen name total => exact does_handleStreamOpen hs name total
  | wappend wid chunk => exact does_handleStreamAppend hs wid chunk
  | wcommit wid => exact does_handleStreamCommit hs wid
  | wabort wid => exact does_handleStreamAbort hs wid
  | scan cursor max => exact does_handleAdminScan hs cursor max
  | malformed => exact hnak _

end Steps

end Loam.BodyRouter

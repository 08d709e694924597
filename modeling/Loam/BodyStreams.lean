import Loam.BodyTable

/-!
# What an operation does to the stream slots

A streamed write holds a slot of the router, and a session on each of its members.
The slot names the sessions as the members answer the open; until then it says
session 0, and once freed it says what it said.

An operation is about one slot or about none (`Stirs`). It may free that slot, and
tell its members to drop what the slot names, but it opens no slot and renames no
session: opens, and what members answer to them, are told apart from the rest.
-/

namespace Loam.BodyRouter

open Fanout (Same Around Asks Spends Ticket Opens Question Sends)

/-- The member session a question names. -/
def session : BodyReq → Option UInt8
  | .wappend wid _ | .wcommit wid | .wabort wid => some wid
  | _ => none

/-- The stream slot a join is about. -/
def Join.slot (j : Join) : Option ℕ :=
  match j.kind with
  | .streamOpen | .streamAppend | .streamCommit | .streamAbort => j.stream
  | _ => none

/-- A join an operation on a slot may open: one about no stream, or one of the
stream's that does not open it. -/
def Face.Of (z : Option ℕ) (x : Face) : Prop :=
  x.kind.streamed = false ∧ x.stream = none ∨
    x.stream ≠ none ∧ x.stream = z ∧ x.kind ≠ .streamOpen ∧ x.op ≠ .wopen

/-- A question an operation on a slot may ask: it names no session, or the one the
slot has for the member asked. -/
def Stream.Names (streams : ℕ → Stream) (z : Option ℕ) (q : Question UInt8 BodyReq) : Prop :=
  ∀ wid, session q.req = some wid → ∃ sid, z = some sid ∧
    ∃ i, (streams sid).targets[i]? = some q.peer ∧ wid = (streams sid).wids i

/-- An operation on one slot, or on none: the others are as they were, and this one
keeps its members and their sessions. -/
structure Stirs (z o : Option ℕ) (s s' : State) : Prop where
  io : Around Join.face (Face.Of z) o s.io s'.io
  others : ∀ i, some i ≠ z → s'.streams i = s.streams i
  keeps : ∀ i, (s'.streams i).targets = (s.streams i).targets ∧
    (s'.streams i).wids = (s.streams i).wids ∧
    ((s'.streams i).inUse = true → (s.streams i).inUse = true)
  sends : Sends (Stream.Names s.streams z) s.io s'.io

section Stirs

variable {C : Config} {N : ℕ → Bool} {s s' s'' : State} {g : ℕ} {o z : Option ℕ} {j : Join}
  {io : Io} {qs : List (UInt8 × BodyReq)} {resp : BodyResp} {t : UInt8} {c : UInt32}

theorem Stirs.of_io (hio : Around Join.face (Face.Of z) o s.io s'.io)
    (hstreams : s'.streams = s.streams) (hsends : Sends (Stream.Names s.streams z) s.io s'.io) :
    Stirs z o s s' := by
  refine ⟨hio, fun i _ => congrFun hstreams i, fun i => ?_, hsends⟩
  rw [hstreams]
  exact ⟨rfl, rfl, id⟩

/-- What leaves the joins and the slots alone. -/
theorem Stirs.of_eq (hs : s.io.Sound) (hio : s'.io = s.io) (hstreams : s'.streams = s.streams) :
    Stirs z o s s' :=
  .of_io (by rw [hio]; exact .refl hs) hstreams (.of_eq (congrArg Fanout.sent hio))

theorem Stirs.refl (hs : s.io.Sound) : Stirs z o s s := .of_eq hs rfl rfl

theorem Stirs.trans (h : Stirs z o s s') (h' : Stirs z o s' s'') : Stirs z o s s'' where
  io := h.io.trans h'.io
  others := fun i hi => (h'.others i hi).trans (h.others i hi)
  keeps := fun i => ⟨(h'.keeps i).1.trans (h.keeps i).1, (h'.keeps i).2.1.trans (h.keeps i).2.1,
    fun hin => (h.keeps i).2.2 ((h'.keeps i).2.2 hin)⟩
  sends := by
    obtain ⟨new, hsent, hnew⟩ := h'.sends
    refine h.sends.trans ⟨new, hsent, fun q hq wid hw => ?_⟩
    obtain ⟨sid, hz, i, ht, hwid⟩ := hnew q hq wid hw
    rw [(h.keeps sid).1] at ht
    rw [(h.keeps sid).2.1] at hwid
    exact ⟨sid, hz, i, ht, hwid⟩

theorem Stirs.any (h : Stirs z none s s') (o : Option ℕ) : Stirs z o s s' :=
  ⟨h.io.any o, h.others, h.keeps, h.sends⟩

/-- An operation that goes on about a join it opened is about no other. -/
theorem Stirs.forget (h : Stirs z none s s') (h' : Stirs z (some g) s' s'')
    (hg : s.io.nextGen ≤ g) : Stirs z none s s'' :=
  have hall := (h.any (some g)).trans h'
  ⟨h.io.forget h'.io hg, hall.others, hall.keeps, hall.sends⟩

theorem stirs_emit (hs : s.io.Sound) (c : UInt32) (r : BodyResp) : Stirs z o s (s.emit c r) :=
  .of_eq hs rfl rfl

theorem stirs_free (hs : s.io.Sound) (g : ℕ) : Stirs z (some g) s (s.freeJoin g) :=
  .of_io (Fanout.around_close hs g) rfl (.of_eq rfl)

/-- A join in hand changes, but not what it is for. -/
theorem stirs_set (hs : s.io.Sound) (g : ℕ) {h : Join → Join}
    (hh : ∀ j, s.io.join? g = some j → (h j).face = j.face) : Stirs z (some g) s (s.setJoin g h) :=
  have hio : Around Join.face (Face.Of z) (some g) s.io (s.setJoin g h).io :=
    Fanout.around_modify hs g hh
  .of_io hio rfl (.of_eq rfl)

theorem stirs_note (hs : s.io.Sound) (hj : s.io.join? g = some j) {j' : Join} (hf : j'.face = j.face) :
    Stirs z (some g) s (s.setJoin g fun _ => j') :=
  stirs_set hs g fun _ hj₀ => hf.trans (congrArg Join.face (Option.some.inj (hj.symm.trans hj₀)))

theorem names_of_none (streams : ℕ → Stream) {q : Question UInt8 BodyReq} (h : session q.req = none) :
    Stream.Names streams z q := by
  intro wid hw
  rw [h] at hw
  cases hw

theorem stirs_start (hs : s.io.Sound) (h : s.io.start C.joinCap j = some (g, io))
    (hj : Face.Of z j.face) : Stirs z none s { s with io := io } :=
  .of_io ((Fanout.opens_start hs h).around hj) rfl (Fanout.sends_start h)

/-- A join in hand asks one member. -/
theorem stirs_ask (hs : s.io.Sound) (hg : g < s.io.nextGen) (peer : UInt8) (req : BodyReq)
    (hq : ∀ cid, Stream.Names s.streams z ⟨cid, peer, req⟩) :
    Stirs z (some g) s { s with io := (s.io.ask C.pendingCap N g peer req).1 } := by
  obtain ⟨new, hasks, -⟩ := Fanout.ask_spec s.io C.pendingCap N g peer req
  exact .of_io (hasks.around hs hg) rfl (Fanout.sends_ask _ _ _ _ _ hq)

theorem stirs_askTargets (hs : s.io.Sound) (hg : g < s.io.nextGen)
    (hq : ∀ p ∈ qs, ∀ cid, Stream.Names s.streams z ⟨cid, p.1, p.2⟩) :
    Stirs z (some g) s (askTargets C N s g qs) := by
  obtain ⟨new, hasks, -⟩ := Fanout.askAll_spec C.pendingCap N g qs s.io
  have hask : Stirs z (some g) s { s with io := (Fanout.askAll C.pendingCap N g qs s.io).1 } :=
    .of_io (hasks.around hs hg) rfl (Fanout.sends_askAll _ _ _ _ hq)
  exact hask.trans (stirs_set hask.io.sound g fun _ _ => rfl)

/-- A join that was opened asks one member, or is closed again. -/
theorem stirs_askOne (hs : s.io.Sound) (h : s.io.start C.joinCap j = some (g, io))
    (hj : Face.Of z j.face) (peer : UInt8) (req : BodyReq)
    (hq : ∀ cid, Stream.Names s.streams z ⟨cid, peer, req⟩) :
    Stirs z none s { s with io := (io.ask C.pendingCap N g peer req).1 } ∧
      Stirs z none s ({ s with io := (io.ask C.pendingCap N g peer req).1 }.freeJoin g) := by
  have ho := Fanout.opens_start hs h
  have hge := Nat.le_of_eq ho.gen.symm
  have hask := (stirs_start hs h hj).forget
    (stirs_ask (C := C) (N := N) (s := { s with io := io }) ho.sound ho.lt peer req hq) hge
  exact ⟨hask, hask.forget (stirs_free hask.io.sound g) hge⟩

/-- A join that was opened asks its targets, and may be closed again. -/
theorem stirs_openAsk (hs : s.io.Sound) (h : s.io.start C.joinCap j = some (g, io))
    (hj : Face.Of z j.face) (hq : ∀ p ∈ qs, ∀ cid, Stream.Names s.streams z ⟨cid, p.1, p.2⟩) :
    Stirs z none s (askTargets C N { s with io := io } g qs) ∧
      Stirs z none s ((askTargets C N { s with io := io } g qs).freeJoin g) := by
  have ho := Fanout.opens_start hs h
  have hge := Nat.le_of_eq ho.gen.symm
  have hask := (stirs_start hs h hj).forget
    (stirs_askTargets (C := C) (N := N) (s := { s with io := io }) ho.sound ho.lt hq) hge
  exact ⟨hask, hask.forget (stirs_free hask.io.sound g) hge⟩

theorem stirs_foldl {α : Type} {op : State → α → State} {P : α → Prop} {streams : ℕ → Stream}
    (hop : ∀ s, s.io.Sound → s.streams = streams → ∀ a, P a → Stirs z none s (op s a) ∧
      (op s a).streams = streams) (l : List α) (hl : ∀ a ∈ l, P a) (hs : s.io.Sound)
    (hstreams : s.streams = streams) :
    Stirs z none s (l.foldl op s) ∧ (l.foldl op s).streams = streams := by
  induction l generalizing s with
  | nil => exact ⟨.refl hs, hstreams⟩
  | cons a l ih =>
    obtain ⟨h, heq⟩ := hop s hs hstreams a (hl a List.mem_cons_self)
    obtain ⟨hrest, heq'⟩ := ih (fun b hb => hl b (List.mem_cons_of_mem a hb)) h.io.sound heq
    exact ⟨h.trans hrest, heq'⟩

/-! ## A stream is given up -/

/-- The questions about a stream name what the slot has. -/
theorem names_questions {sid : ℕ} (req : UInt8 → BodyReq)
    (hreq : ∀ w, session (req w) = some w) :
    ∀ p ∈ (s.streams sid).questions req, ∀ cid,
      Stream.Names s.streams (some sid) ⟨cid, p.1, p.2⟩ := by
  intro p hp cid wid hw
  obtain ⟨⟨t, i⟩, hmem, rfl⟩ := List.mem_map.mp hp
  dsimp only at hw ⊢
  rw [hreq] at hw
  exact ⟨sid, rfl, i, List.mem_zipIdx_iff_getElem?.mp hmem, (Option.some.inj hw).symm⟩

theorem stirs_freeStream (hs : s.io.Sound) (sid : ℕ) : Stirs (some sid) o s (s.freeStream sid) := by
  refine ⟨.refl hs, fun i hi => ?_, fun i => ?_, .of_eq rfl⟩
  · exact Function.update_of_ne (fun he => hi (congrArg some he)) _ _
  · by_cases hi : i = sid
    · subst hi
      simp [State.freeStream, State.setStream]
    · have hsame : (s.freeStream sid).streams i = s.streams i := Function.update_of_ne hi _ _
      rw [hsame]
      exact ⟨rfl, rfl, id⟩

/-- **A stream is given up**: its members are told to drop what its slot names. -/
theorem stirs_abortStreamMembers (hs : s.io.Sound) (sid : ℕ) :
    Stirs (some sid) none s (abortStreamMembers C N s sid) := by
  have hone : ∀ s', s'.io.Sound → s'.streams = s.streams →
      ∀ q ∈ (s.streams sid).questions .wabort, Stirs (some sid) none s' (abortMember C N s' q) ∧
        (abortMember C N s' q).streams = s.streams := by
    intro s' hs' hstreams q hq
    have hnames := names_questions .wabort (fun _ => rfl) q hq
    rw [← hstreams] at hnames
    unfold abortMember
    split
    · exact ⟨.refl hs', hstreams⟩
    next g io hstart =>
    obtain ⟨hask, hfree⟩ := stirs_askOne (N := N) hs' hstart (.inl ⟨rfl, rfl⟩) q.1 q.2 hnames
    dsimp only
    split
    · exact ⟨hask, hstreams⟩
    · exact ⟨hfree, hstreams⟩
  obtain ⟨h, -⟩ := stirs_foldl hone ((s.streams sid).questions .wabort) (fun _ => id) hs rfl
  exact h.trans (stirs_freeStream h.io.sound sid)

/-! ## What is about no stream -/

theorem stirs_advanceRead (l : List UInt8) (hs : s.io.Sound) :
    Stirs none (some g) s (advanceRead C N g l s) := by
  induction l generalizing s with
  | nil =>
    unfold advanceRead
    split
    · exact .refl hs
    dsimp only
    split
    · exact stirs_free hs g
    · exact (stirs_free hs g).trans (stirs_emit (hs.close g) _ _)
  | cons t rest ih =>
    unfold advanceRead
    split
    · exact .refl hs
    next j hj =>
    have hq : session j.question = none := by
      unfold Join.question
      split <;> rfl
    have hask := stirs_ask (C := C) (N := N) (z := none) hs (Fanout.join?_lt hs hj) t j.question
      fun cid => names_of_none s.streams hq
    dsimp only
    split
    · exact hask
    have hnext : Stirs none (some g) s (State.setJoin
        { s with io := (s.io.ask C.pendingCap N g t j.question).1 } g fun j =>
          { j with lastErrno := errIo, attempt := j.attempt + 1 }) :=
      hask.trans (stirs_set hask.io.sound g fun _ _ => rfl)
    exact hnext.trans (ih hnext.io.sound)

theorem stirs_spawnRepairPuts (hs : s.io.Sound) (members : List UInt8) (resp : BodyResp)
    (keyed : Option Digest) : Stirs none none s (spawnRepairPuts C N s members resp keyed) := by
  have hone : ∀ (op : BodyOp) (req : BodyReq), session req = none → ∀ s' : State, s'.io.Sound →
      s'.streams = s.streams → ∀ m, True → Stirs none none s' (repairOne C N op req s' m) ∧
        (repairOne C N op req s' m).streams = s.streams := by
    intro op req hreq s' hs' hstreams m _
    unfold repairOne
    split
    · exact ⟨.refl hs', hstreams⟩
    next g io hstart =>
    obtain ⟨hask, hfree⟩ := stirs_askOne (N := N) hs' hstart (.inl ⟨rfl, rfl⟩) m req
      fun cid => names_of_none s'.streams hreq
    dsimp only
    split
    · exact ⟨hask, hstreams⟩
    · exact ⟨hfree, hstreams⟩
  unfold spawnRepairPuts
  split
  · split
    · exact .refl hs
    split
    · exact (stirs_foldl (hone _ _ rfl) members (fun _ _ => trivial) hs rfl).1
    · exact (stirs_foldl (hone _ _ rfl) members (fun _ _ => trivial) hs rfl).1
  · exact .refl hs

theorem stirs_scrub (hs : s.io.Sound) (x : Scrub) : Stirs z o s { s with scrub := x } :=
  .of_eq hs rfl rfl

theorem stirs_scrubKick (hs : s.io.Sound) : Stirs none none s (scrubKick C N s) := by
  unfold scrubKick
  split
  · exact .refl hs
  dsimp only
  generalize (if C.members ≤ s.scrub.target then 0 else s.scrub.target) = target
  have hturn := stirs_scrub (z := none) (o := none) hs { s.scrub with target := target }
  split
  · exact hturn
  next g io hstart =>
  obtain ⟨hask, hfree⟩ := stirs_askOne (C := C) (N := N) (z := none)
    (s := { s with scrub := { s.scrub with target := target } }) hs hstart (.inl ⟨rfl, rfl⟩)
    (UInt8.ofNat target) (.scan s.scrub.cursor (UInt8.ofNat maxScanDigests))
    fun cid => names_of_none _ rfl
  split
  · exact (hturn.trans hask).trans (stirs_scrub hask.io.sound _)
  · exact (hturn.trans hfree).trans (stirs_scrub hfree.io.sound _)

theorem names_targets (streams : ℕ → Stream) (T : List UInt8) (req : BodyReq)
    (h : session req = none) :
    ∀ p ∈ T.map fun t => (t, req), ∀ cid, Stream.Names streams z ⟨cid, p.1, p.2⟩ := by
  intro p hp cid
  obtain ⟨t, -, rfl⟩ := List.mem_map.mp hp
  exact names_of_none streams h

theorem stirs_scrubSpawnProbe (hs : s.io.Sound) (name : Digest × Bool) :
    Stirs none none s (scrubSpawnProbe C N s name) ∧
      (scrubSpawnProbe C N s name).streams = s.streams := by
  unfold scrubSpawnProbe
  dsimp only
  split
  · exact ⟨.refl hs, rfl⟩
  split
  · exact ⟨.refl hs, rfl⟩
  next g io hstart =>
  obtain ⟨hask, hfree⟩ := stirs_openAsk (N := N) hs hstart (.inl ⟨rfl, rfl⟩)
    (names_targets (z := none) s.streams (rankTargets C s.fleet name.1) (.head name.1) rfl)
  split
  · exact ⟨hfree, rfl⟩
  · exact ⟨hask, rfl⟩

theorem stirs_scrubApplyScan (hs : s.io.Sound) (resp : BodyResp) :
    Stirs none none s (scrubApplyScan C N s resp) := by
  unfold scrubApplyScan
  dsimp only
  split
  · next next page =>
    have hturn : Stirs none none s (if next = 0
        then scrubNextTarget C { s with scrub := { s.scrub with scanInflight := false, cursor := next } }
        else { s with scrub := { s.scrub with scanInflight := false, cursor := next } }) := by
      split <;> exact stirs_scrub hs _
    have hprobe : ∀ s' : State, s'.io.Sound → s'.streams = s.streams → ∀ n, True →
        Stirs none none s' (scrubSpawnProbe C N s' n) ∧
          (scrubSpawnProbe C N s' n).streams = s.streams := by
      intro s' hs' heq n _
      obtain ⟨h, hkept⟩ := stirs_scrubSpawnProbe (C := C) (N := N) hs' n
      exact ⟨h, hkept.trans heq⟩
    refine hturn.trans (stirs_foldl hprobe page (fun _ _ => trivial) hturn.io.sound ?_).1
    split <;> rfl
  · exact stirs_scrub hs _

theorem stirs_scrubSpawnFetch (hs : s.io.Sound) (probe : Join) :
    Stirs none none s (scrubSpawnFetch C N s probe) := by
  unfold scrubSpawnFetch
  dsimp only
  split
  · exact .refl hs
  next g io hstart =>
  have ho := Fanout.opens_start hs hstart
  exact (stirs_start (z := none) hs hstart (.inl ⟨rfl, rfl⟩)).forget
    (stirs_advanceRead (s := { s with io := io }) _ ho.sound) (Nat.le_of_eq ho.gen.symm)

theorem stirs_scrubApplyProbe (hs : s.io.Sound) (hj : s.io.join? g = some j) (t : UInt8)
    (resp : BodyResp) : Stirs none (some g) s (scrubApplyProbe C N s g j t resp) := by
  have hset := stirs_note (z := none) hs hj (face_heard j t resp)
  unfold scrubApplyProbe
  dsimp only
  split
  · exact hset
  have hfree := hset.trans (stirs_free hset.io.sound g)
  split
  · exact hfree
  · exact hfree.trans ((stirs_scrubSpawnFetch hfree.io.sound _).any _)

theorem stirs_answer (hs : s.io.Sound) (g : ℕ) (c : UInt32) (r : BodyResp) :
    Stirs none (some g) s ((s.emit c r).freeJoin g) :=
  have hemit := stirs_emit (z := none) (o := some g) hs c r
  hemit.trans (stirs_free hemit.io.sound g)

theorem stirs_answerPut (hs : s.io.Sound) (hj : s.io.join? g = some j) (resp : BodyResp) :
    Stirs none (some g) s (answerPut s g j resp) := by
  unfold answerPut
  dsimp only
  split
  · split
    · exact stirs_answer hs g _ _
    split
    · exact stirs_answer hs g _ _
    · exact stirs_note hs hj (face_noteDigest { j with ack := j.ack + 1 } _)
  · exact stirs_answer hs g _ _

theorem stirs_answerRead (hs : s.io.Sound) (hj : s.io.join? g = some j) (resp : BodyResp) :
    Stirs none (some g) s (answerRead C N s g j resp) := by
  unfold answerRead
  dsimp only
  split
  · have hans := stirs_answer hs g j.upCid resp
    split
    · exact hans.trans ((stirs_spawnRepairPuts hans.io.sound _ _ _).any _)
    · exact hans
  have hface : ({ j with
      lastErrno := nakErrno resp, attempt := j.attempt + 1
      notFound := if nakErrno resp = errNotFound then j.attempt :: j.notFound
        else j.notFound } : Join).face = j.face := rfl
  have hset := stirs_note (z := none) hs hj hface
  exact hset.trans (stirs_advanceRead _ hset.io.sound)

theorem stirs_answerDelete (hs : s.io.Sound) (hj : s.io.join? g = some j) (resp : BodyResp) :
    Stirs none (some g) s (answerDelete s g j resp) := by
  unfold answerDelete
  dsimp only
  split
  · exact stirs_answer hs g _ _
  · exact stirs_note hs hj (face_noteDelete j resp)

/-! ## Requests -/

/-- A fan-out for a client that is about no slot but one. -/
theorem stirs_fanOut (hs : s.io.Sound) (h : s.io.start C.joinCap j = some (g, io))
    (hj : Face.Of z j.face) (hq : ∀ p ∈ qs, ∀ cid, Stream.Names s.streams z ⟨cid, p.1, p.2⟩)
    (c : UInt32) (r : BodyResp) :
    Stirs z none s
      (if failedAll (askTargets C N { s with io := io } g qs) g
        then ((askTargets C N { s with io := io } g qs).freeJoin g).emit c r
        else askTargets C N { s with io := io } g qs) := by
  obtain ⟨hask, hfree⟩ := stirs_openAsk (N := N) hs h hj hq
  split
  · exact hfree.trans (stirs_emit hfree.io.sound c r)
  · exact hask

theorem stirs_handlePut (hs : s.io.Sound) (body : Bytes) :
    Stirs none none s (handlePut C N s body) := by
  unfold handlePut
  dsimp only
  split
  · exact stirs_emit hs _ _
  split
  · exact stirs_emit hs _ _
  split
  · exact stirs_emit hs _ _
  next g io hstart =>
  exact stirs_fanOut hs hstart (.inl ⟨rfl, rfl⟩) (names_targets s.streams _ _ rfl) _ _

theorem stirs_handlePutKeyed (hs : s.io.Sound) (key : Digest) (blob : Bytes) :
    Stirs none none s (handlePutKeyed C N s key blob) := by
  unfold handlePutKeyed
  dsimp only
  split
  · exact stirs_emit hs _ _
  split
  · exact stirs_emit hs _ _
  split
  · exact stirs_emit hs _ _
  next g io hstart =>
  exact stirs_fanOut hs hstart (.inl ⟨rfl, rfl⟩) (names_targets s.streams _ _ rfl) _ _

theorem stirs_handleDelete (hs : s.io.Sound) (digest : Digest) :
    Stirs none none s (handleDelete C N s digest) := by
  unfold handleDelete
  dsimp only
  split
  · exact stirs_emit hs _ _
  split
  · exact stirs_emit hs _ _
  next g io hstart =>
  exact stirs_fanOut hs hstart (.inl ⟨rfl, rfl⟩) (names_targets s.streams _ _ rfl) _ _

theorem stirs_handleRead (hs : s.io.Sound) (op : BodyOp) (digest : Digest) (off : UInt64)
    (len : UInt32) : Stirs none none s (handleRead C N s op digest off len) := by
  unfold handleRead
  dsimp only
  split
  · exact stirs_emit hs _ _
  split
  · exact stirs_emit hs _ _
  next g io hstart =>
  have ho := Fanout.opens_start hs hstart
  exact (stirs_start (z := none) hs hstart (.inl ⟨rfl, rfl⟩)).forget
    (stirs_advanceRead (s := { s with io := io }) _ ho.sound) (Nat.le_of_eq ho.gen.symm)

theorem stirs_handleAdminScan (hs : s.io.Sound) (cursor : UInt32) (max : UInt8) :
    Stirs none none s (handleAdminScan C N s cursor max) := by
  unfold handleAdminScan
  split
  · exact stirs_emit hs _ _
  split
  · exact stirs_emit hs _ _
  next g io hstart =>
  obtain ⟨hask, hfree⟩ := stirs_askOne (C := C) (N := N) (z := none) hs hstart (.inl ⟨rfl, rfl⟩) 0
    (.scan cursor max) fun cid => names_of_none s.streams rfl
  dsimp only
  split
  · exact hask
  · exact hfree.trans (stirs_emit hfree.io.sound _ _)

theorem of_slot {sid : ℕ} {x : Face} (hx : x.stream = some sid) (hk : x.kind ≠ .streamOpen)
    (hop : x.op ≠ .wopen) : Face.Of (some sid) x :=
  .inr ⟨by rw [hx]; exact nofun, hx, hk, hop⟩

/-- A stream is given up, and its request refused. -/
theorem stirs_abortOrNak (hs : s.io.Sound) (sid : ℕ) {c : UInt32} {r : BodyResp} :
    Stirs (some sid) none s ((abortStreamMembers C N s sid).emit c r) := by
  have h := stirs_abortStreamMembers (C := C) (N := N) hs sid
  exact h.trans (stirs_emit h.io.sound _ _)

theorem stirs_handleStreamAppend (hs : s.io.Sound) (sid : ℕ) (chunk : Bytes) :
    Stirs (some sid) none s (handleStreamAppend C N s sid chunk) := by
  unfold handleStreamAppend
  split
  · exact stirs_emit hs _ _
  split
  · exact stirs_emit hs _ _
  dsimp only
  split
  · exact stirs_abortOrNak hs sid
  next g io hstart =>
  obtain ⟨hask, hfree⟩ := stirs_openAsk (N := N) hs hstart (of_slot rfl nofun nofun)
    (names_questions (fun w => .wappend w chunk) fun _ => rfl)
  split
  · exact hfree.trans (stirs_abortOrNak hfree.io.sound sid)
  · exact hask

theorem stirs_handleStreamCommit (hs : s.io.Sound) (sid : ℕ) :
    Stirs (some sid) none s (handleStreamCommit C N s sid) := by
  unfold handleStreamCommit
  split
  · exact stirs_emit hs _ _
  dsimp only
  split
  · exact stirs_abortOrNak hs sid
  next g io hstart =>
  obtain ⟨hask, hfree⟩ := stirs_openAsk (N := N) hs hstart (of_slot rfl nofun nofun)
    (names_questions .wcommit fun _ => rfl)
  split
  · exact hfree.trans (stirs_abortOrNak hfree.io.sound sid)
  split
  · have h := hfree.trans (stirs_freeStream hfree.io.sound sid)
    exact h.trans (stirs_emit h.io.sound _ _)
  · exact hask

theorem stirs_handleStreamAbort (hs : s.io.Sound) (sid : ℕ) :
    Stirs (some sid) none s (handleStreamAbort C N s sid) := by
  unfold handleStreamAbort
  split
  · exact stirs_emit hs _ _
  dsimp only
  split
  · exact stirs_abortOrNak hs sid
  next g io hstart =>
  obtain ⟨hask, hfree⟩ := stirs_openAsk (N := N) hs hstart (of_slot rfl nofun nofun)
    (names_questions .wabort fun _ => rfl)
  split
  · have h := hfree.trans (stirs_freeStream hfree.io.sound sid)
    exact h.trans (stirs_emit h.io.sound _ _)
  · exact hask

/-- The open slot a number names. -/
def slotOf (C : Config) (s : State) (sid : ℕ) : Option ℕ := if streamOpen C s sid then some sid else none

/-- The open slot a request is about. -/
def aims (C : Config) (s : State) : BodyReq → Option ℕ
  | .wappend wid chunk => if maxBody < chunk.length then none else slotOf C s wid.toNat
  | .wcommit wid | .wabort wid => slotOf C s wid.toNat
  | _ => none

/-- **A request stirs the slot it is about**, unless it opens one. -/
theorem stirs_handleRequest (hs : s.io.Sound) {req : BodyReq} (hreq : ∀ name total, req ≠ .wopen name total) :
    Stirs (aims C s req) none s (handleRequest C N s req) := by
  have hclosed : ∀ {sid}, ¬ streamOpen C s sid = true → slotOf C s sid = none := fun h => if_neg h
  have hopen : ∀ {sid}, streamOpen C s sid = true → slotOf C s sid = some sid := fun h => if_pos h
  cases req with
  | put body => exact stirs_handlePut hs body
  | putKeyed key blob => exact stirs_handlePutKeyed hs key blob
  | get name => exact stirs_handleRead hs _ name _ _
  | head name => exact stirs_handleRead hs _ name _ _
  | range name off len => exact stirs_handleRead hs _ name _ _
  | delete name => exact stirs_handleDelete hs name
  | wopen name total => exact absurd rfl (hreq name total)
  | wappend wid chunk =>
    have h := stirs_handleStreamAppend (C := C) (N := N) hs wid.toNat chunk
    simp only [aims, handleRequest] at h ⊢
    by_cases hlong : maxBody < chunk.length
    · rw [if_pos hlong, handleStreamAppend, if_pos hlong]
      exact stirs_emit hs _ _
    rw [if_neg hlong]
    by_cases hin : streamOpen C s wid.toNat = true
    · rw [hopen hin]
      exact h
    · rw [hclosed hin, handleStreamAppend, if_neg hlong, if_pos (by simpa using hin)]
      exact stirs_emit hs _ _
  | wcommit wid =>
    simp only [aims, handleRequest]
    by_cases hin : streamOpen C s wid.toNat = true
    · rw [hopen hin]
      exact stirs_handleStreamCommit hs wid.toNat
    · rw [hclosed hin, handleStreamCommit, if_pos (by simpa using hin)]
      exact stirs_emit hs _ _
  | wabort wid =>
    simp only [aims, handleRequest]
    by_cases hin : streamOpen C s wid.toNat = true
    · rw [hopen hin]
      exact stirs_handleStreamAbort hs wid.toNat
    · rw [hclosed hin, handleStreamAbort, if_pos (by simpa using hin)]
      exact stirs_emit hs _ _
  | scan cursor max => exact stirs_handleAdminScan hs cursor max
  | malformed => exact stirs_emit hs _ _

/-! ## Answers -/

/-- The answer frees the slot its join is about. -/
def Join.strikes (j : Join) (resp : BodyResp) : Bool :=
  match j.kind with
  | .streamAppend => decide (resp.op ≠ some j.op)
  | .streamCommit => decide (resp.op ≠ some j.op) || decide (j.ack + 1 = j.need)
  | .streamAbort => decide (j.need ≤ j.ack + 1 + j.fail)
  | _ => false

/-- The slot an answer is about, if it frees it. -/
def Join.struck (j : Join) (resp : BodyResp) : Option ℕ := if j.strikes resp then j.slot else none

theorem noteStream_counts (j : Join) (resp : BodyResp) :
    (j.noteStream resp).ack = j.ack + 1 ∧ (j.noteStream resp).need = j.need := by
  unfold Join.noteStream Join.noteDigest
  repeat' split
  all_goals exact ⟨rfl, rfl⟩

/-- **An answer for an open stream**: it is counted, or the slot is freed. -/
theorem stirs_answerStream {sid : ℕ} (hs : s.io.Sound) (hj : s.io.join? g = some j)
    (hkind : j.kind = .streamAppend ∧ j.op ≠ .wopen ∨ j.kind = .streamCommit ∧ j.op ≠ .wopen)
    (hsid : j.stream = some sid) (t : UInt8) (resp : BodyResp) :
    Stirs (j.struck resp) (some g) s (answerStream C N s g j sid t resp) := by
  have hslot : j.slot = some sid := by
    rcases hkind with ⟨hk, -⟩ | ⟨hk, -⟩ <;> simp only [Join.slot, hk, hsid]
  have hfree := stirs_free (z := some sid) hs g
  obtain ⟨hack, hneed⟩ := noteStream_counts j resp
  have hface := face_noteStream j resp
  have hnote := stirs_note (z := none) hs hj hface
  unfold answerStream
  split
  · next hgood =>
    have hsame : noteSession s j sid t resp = s := by
      unfold noteSession
      split
      · next w =>
        have hop : BodyOp.wopen = j.op := Option.some.inj hgood
        rcases hkind with ⟨-, hne⟩ | ⟨-, hne⟩ <;> exact absurd hop.symm hne
      · rfl
    dsimp only
    rw [hsame, hack, hneed]
    have hk : (j.noteStream resp).kind = j.kind := congrArg Face.kind hface
    split
    · next hall =>
      rcases hkind with ⟨hkind, -⟩ | ⟨hkind, -⟩
      · have hst : j.struck resp = none := by simp [Join.struck, Join.strikes, hkind, hgood]
        rw [hst, finishStream, hk, hkind]
        have hfree := stirs_free (z := none) hs g
        exact hfree.trans (stirs_emit hfree.io.sound _ _)
      · have hst : j.struck resp = some sid := by simp [Join.struck, Join.strikes, hkind, hall, hslot]
        rw [hst, finishStream, hk, hkind]
        have h := hfree.trans (stirs_freeStream hfree.io.sound sid)
        exact h.trans (stirs_emit h.io.sound _ _)
    · next hmore =>
      have hst : j.struck resp = none := by
        rcases hkind with ⟨hkind, -⟩ | ⟨hkind, -⟩ <;>
          simp [Join.struck, Join.strikes, hkind, hgood, hmore]
      rw [hst]
      exact hnote
  · next hbad =>
    have hst : j.struck resp = some sid := by
      rcases hkind with ⟨hkind, -⟩ | ⟨hkind, -⟩ <;> simp [Join.struck, Join.strikes, hkind, hbad, hslot]
    rw [hst]
    have h := hfree.trans ((stirs_abortStreamMembers (C := C) (N := N) hfree.io.sound sid).any _)
    exact h.trans (stirs_emit h.io.sound _ _)

theorem stirs_answerAbort (hs : s.io.Sound) (hj : s.io.join? g = some j) (hkind : j.kind = .streamAbort)
    (resp : BodyResp) : Stirs (j.struck resp) (some g) s (answerAbort s g j) := by
  have hslot : j.slot = j.stream := by simp only [Join.slot, hkind]
  unfold answerAbort
  dsimp only
  split
  · next hall =>
    have hst : j.struck resp = j.stream := by simp [Join.struck, Join.strikes, hkind, hall, hslot]
    rw [hst]
    split
    · next sid hsid =>
      rw [hsid]
      have hfree := stirs_free (z := some sid) hs g
      have h := hfree.trans (stirs_freeStream hfree.io.sound sid)
      exact h.trans (stirs_emit h.io.sound _ _)
    · next hnone =>
      rw [hnone]
      exact stirs_free hs g
  · next hmore =>
    have hst : j.struck resp = none := by simp [Join.struck, Join.strikes, hkind, hmore]
    rw [hst]
    exact stirs_note hs hj rfl

/-- **An answer stirs the slot it frees**, unless its join opens one. -/
theorem stirs_applyJoinResponse (hs : s.io.Sound) (hj : s.io.join? g = some j)
    (hstream : j.kind.streamed = true → j.stream ≠ none) (hkind : j.kind ≠ .streamOpen)
    (hop : j.kind.streamed = true → j.op ≠ .wopen) (t : UInt8) (resp : BodyResp) :
    Stirs (j.struck resp) (some g) s (applyJoinResponse C N s g j t resp) := by
  have hstruck : ∀ k, j.kind = k → k ≠ .streamAppend → k ≠ .streamCommit → k ≠ .streamAbort →
      j.struck resp = none := by
    intro k hk h₁ h₂ h₃
    subst hk
    unfold Join.struck Join.strikes
    split <;> first | contradiction | rfl
  by_cases hst : j.kind.streamed = true
  · obtain ⟨sid, hsid⟩ := Option.ne_none_iff_exists'.mp (hstream hst)
    rw [applyJoinResponse_streamed hst hsid]
    refine stirs_answerStream hs hj ?_ hsid t resp
    have hop := hop hst
    unfold Kind.streamed at hst
    split at hst
    · next hk => exact absurd hk hkind
    · next hk => exact .inl ⟨hk, hop⟩
    · next hk => exact .inr ⟨hk, hop⟩
    · cases hst
  have hfree := stirs_free (z := none) hs g
  unfold applyJoinResponse
  split
  · next hk =>
    rw [hstruck _ hk nofun nofun nofun]
    exact hfree
  · next hk =>
    rw [hstruck _ hk nofun nofun nofun]
    exact hfree.trans (stirs_emit hfree.io.sound _ _)
  · next hk =>
    rw [hstruck _ hk nofun nofun nofun]
    exact hfree.trans ((stirs_scrubApplyScan hfree.io.sound _).any _)
  · next hk =>
    rw [hstruck _ hk nofun nofun nofun]
    exact stirs_scrubApplyProbe hs hj t resp
  · next hk =>
    rw [hstruck _ hk nofun nofun nofun]
    split
    · exact hfree.trans ((stirs_spawnRepairPuts hfree.io.sound _ _ _).any _)
    have hset : Stirs none (some g) s (s.setJoin g fun _ => { j with attempt := j.attempt + 1 }) :=
      stirs_note hs hj rfl
    exact hset.trans (stirs_advanceRead _ hset.io.sound)
  · next hk => exact absurd (by rw [hk]; rfl) hst
  · next hk => exact absurd (by rw [hk]; rfl) hst
  · next hk => exact absurd (by rw [hk]; rfl) hst
  · next hk => exact stirs_answerAbort hs hj hk resp
  · next hk =>
    rw [hstruck _ hk nofun nofun nofun]
    split
    · exact stirs_answerPut hs hj resp
    · exact stirs_answerPut hs hj resp
    · exact stirs_answerRead hs hj resp
    · exact stirs_answerRead hs hj resp
    · exact stirs_answerRead hs hj resp
    · exact stirs_answerDelete hs hj resp
    · exact stirs_answer hs g _ _

/-! ## What a new join is about -/

theorem slot_of_face {j' : Join} (h : j'.face = j.face) : j'.slot = j.slot := by
  have hkind : j'.kind = j.kind := congrArg Face.kind h
  have hstream : j'.stream = j.stream := congrArg Face.stream h
  rw [Join.slot, Join.slot, hkind, hstream]

/-- A slot a join is about is the one it says. -/
theorem stream_of_slot {sid : ℕ} (h : j.slot = some sid) : j.stream = some sid := by
  unfold Join.slot at h
  split at h <;> first | exact h | cases h

/-- A new join on no slot, or on the one in work, opens no stream. -/
theorem Stirs.no_open (h : Stirs z o s s') (hg : s.io.nextGen ≤ g)
    (hj : s'.io.join? g = some j) : j.kind ≠ .streamOpen := by
  intro hk
  rcases h.io.fresh g hg j hj with ⟨hst, -⟩ | ⟨-, -, hkind, -⟩
  · have hst : j.kind.streamed = false := hst
    rw [hk] at hst
    cases hst
  · exact hkind hk

/-- A new join with a slot has the one in work. -/
theorem Stirs.slot_eq (h : Stirs z o s s') (hg : s.io.nextGen ≤ g)
    (hj : s'.io.join? g = some j) {sid : ℕ} (hsid : j.slot = some sid) : z = some sid := by
  rcases h.io.fresh g hg j hj with ⟨-, hnone⟩ | ⟨-, hz, -⟩
  · have hstream := stream_of_slot hsid
    rw [show j.stream = none from hnone] at hstream
    cases hstream
  · exact hz.symm.trans (stream_of_slot hsid)

end Stirs

end Loam.BodyRouter

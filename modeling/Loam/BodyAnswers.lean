import Loam.BodyPlacement

/-!
# Every request is answered once

A request is answered at once, or a join is opened that owes its answer. The
join awaits as many answers as it still needs, so that it is not forgotten: each
of them comes or is past its deadline, and the last one closes the join with the
answer it owes. `State.owed` counts the answers given and owed under an id, and
`Books` says what an operation does to the count and to the joins that wait.
-/

namespace Loam.BodyRouter

open Fanout (Same Around Asks Spends Ticket Opens)

/-- The kinds of join that collect answers for an open stream. -/
def Kind.streamed : Kind → Bool
  | .streamOpen | .streamAppend | .streamCommit => true
  | _ => false

/-- The join walks its targets, one at a time. -/
def Join.serial (j : Join) : Bool :=
  match j.kind with
  | .scrubFetch => true
  | .client => j.op = .get || j.op = .head || j.op = .range
  | _ => false

/-- The join owes an answer upstream. -/
def Join.owes (j : Join) : Bool :=
  match j.kind with
  | .client | .adminScan | .streamOpen | .streamAppend | .streamCommit => true
  | .streamAbort => j.stream.isSome
  | _ => false

/-- The join owes the answer to a request. -/
def Join.owesTo (j : Join) (c : UInt32) : Bool := j.owes && decide (j.upCid = c)

/-- The answers given and owed under an id. -/
def State.owed (s : State) (c : UInt32) : ℕ :=
  s.up.countP (fun p => p.1 = c) + s.io.count fun j => j.owesTo c

/-- A join in hand awaits the answers it needs. -/
structure Waits (io : Io) (g : ℕ) (j : Join) : Prop where
  count : j.ack + j.fail + (io.tickets g).length = j.need
  some : io.tickets g ≠ []
  /-- A stream's join names its stream, and no member has failed it. -/
  stream : j.kind.streamed = true → j.fail = 0 ∧ j.stream ≠ none
  serial : j.serial = true → j.need = 1

/-- Every join in hand waits, but for one. -/
def Waiting (o : Option ℕ) (s : State) : Prop :=
  ∀ g j, s.io.join? g = some j → o ≠ some g → Waits s.io g j

/-- One answer under an id. -/
def once (c : UInt32) : UInt32 → ℕ := fun c' => if c = c' then 1 else 0

/-- The answers a join owes when it is opened. -/
def Join.debt (j : Join) : UInt32 → ℕ := fun c => if j.owesTo c then 1 else 0

/-- What an operation does to the books: the answers given and owed grow by
`d`, and the joins that waited wait, but for the one in work. -/
structure Books (o o' : Option ℕ) (d : UInt32 → ℕ) (s s' : State) : Prop where
  /-- Generations and ids stay used once. -/
  sound : s'.io.Sound
  owed : ∀ c, s'.owed c = s.owed c + d c
  waiting : Waiting o s → Waiting o' s'

section Books

variable {C : Config} {N : ℕ → Bool} {s s' s'' : State} {g : ℕ} {o o' o'' : Option ℕ}
  {d d' : UInt32 → ℕ} {j j' : Join} {io io' : Io} {qs : List (UInt8 × BodyReq)}
  {new : List (Ticket UInt8)} {resp : BodyResp} {c : UInt32} {r : BodyResp}

theorem Books.refl (hs : s.io.Sound) : Books o o 0 s s := ⟨hs, fun _ => rfl, id⟩

theorem Books.trans (h : Books o o' d s s') (h' : Books o' o'' d' s' s'') :
    Books o o'' (d + d') s s'' :=
  ⟨h'.sound, fun c => by rw [h'.owed, h.owed, Nat.add_assoc]; rfl, fun hw => h'.waiting (h.waiting hw)⟩

theorem Books.trans_zero (h : Books o o' 0 s s') (h' : Books o' o'' d' s' s'') :
    Books o o'' d' s s'' := zero_add d' ▸ h.trans h'

theorem Books.zero_trans (h : Books o o' d s s') (h' : Books o' o'' 0 s' s'') :
    Books o o'' d s s'' := add_zero d ▸ h.trans h'

/-- What changes neither the joins nor the answers changes nothing here. -/
theorem Books.of_eq (hs : s.io.Sound) (hio : s'.io = s.io) (hup : s'.up = s.up) :
    Books o o 0 s s' := by
  refine ⟨hio ▸ hs, fun c => ?_, fun hw g j hj hne => ?_⟩
  · rw [State.owed, hio, hup]
    rfl
  · rw [hio] at hj ⊢
    exact hw g j hj hne

theorem owed_emit (s : State) (c : UInt32) (r : BodyResp) (c' : UInt32) :
    (s.emit c r).owed c' = s.owed c' + once c c' := by
  simp only [State.owed, State.emit, List.countP_append, List.countP_cons, List.countP_nil, once,
    decide_eq_true_eq]
  omega

theorem books_emit (hs : s.io.Sound) (c : UInt32) (r : BodyResp) : Books o o (once c) s (s.emit c r) :=
  ⟨hs, owed_emit s c r, id⟩

theorem books_free (hs : s.io.Sound) (hj : s.io.join? g = some j) (hno : j.owes = false) :
    Books (some g) none 0 s (s.freeJoin g) := by
  refine ⟨hs.close g, fun c => ?_, fun hw g' j' hj' _ => ?_⟩
  · have hc := Fanout.count_close (p := fun j => j.owesTo c) hs hj
    have hz : j.owesTo c = false := by rw [Join.owesTo, hno, Bool.false_and]
    simp only [hz] at hc
    simp only [State.owed, State.freeJoin] at hc ⊢
    simpa using hc
  · have hne : g' ≠ g := fun he => by
      rw [he, State.freeJoin, Fanout.join?_close] at hj'
      cases hj'
    have hw := hw g' j' (Fanout.join?_of_close hj') (by simpa using Ne.symm hne)
    exact ⟨hw.count, hw.some, hw.stream, hw.serial⟩

/-- **A join that owes an answer gives it**, and is closed. -/
theorem books_answer (hs : s.io.Sound) (hj : s.io.join? g = some j) (howes : j.owes = true)
    (r : BodyResp) : Books (some g) none 0 s ((s.freeJoin g).emit j.upCid r) := by
  refine ⟨hs.close g, fun c => ?_, fun hw g' j' hj' _ => ?_⟩
  · have hc := Fanout.count_close (p := fun j => j.owesTo c) hs hj
    have hz : (if j.owesTo c = true then 1 else 0) = once j.upCid c := by
      rw [Join.owesTo, howes, Bool.true_and, once]
      simp only [decide_eq_true_eq]
    rw [hz] at hc
    rw [owed_emit]
    simp only [State.owed, State.freeJoin, Pi.zero_apply] at hc ⊢
    omega
  · have hne : g' ≠ g := fun he => by
      have hj' : (s.freeJoin g).io.join? g' = some j' := hj'
      rw [he, State.freeJoin, Fanout.join?_close] at hj'
      cases hj'
    have hw := hw g' j' (Fanout.join?_of_close hj') (by simpa using Ne.symm hne)
    exact ⟨hw.count, hw.some, hw.stream, hw.serial⟩

/-- The join in work changes, and owes what it owed. -/
theorem books_set (hs : s.io.Sound) (hj : s.io.join? g = some j) {h : Join → Join}
    (howes : ∀ c, (h j).owesTo c = j.owesTo c) : Books (some g) (some g) 0 s (s.setJoin g h) := by
  refine ⟨hs.modify g h, fun c => ?_, fun hw g' j' hj' hne => ?_⟩
  · have hc := Fanout.count_modify (h := h) (p := fun j => j.owesTo c) hs hj
    rw [howes] at hc
    simp only [State.owed, State.setJoin, Pi.zero_apply]
    omega
  · have hg : g' ≠ g := fun he => hne (congrArg some he).symm
    have hw := hw g' j' ((Fanout.join?_modify_ne hg).symm.trans hj') hne
    exact ⟨hw.count, hw.some, hw.stream, hw.serial⟩

theorem Books.resume (h : Books o (some g) d s s')
    (hw : ∀ j, s'.io.join? g = some j → Waits s'.io g j) : Books o none d s s' := by
  refine ⟨h.sound, h.owed, fun hwait g' j' hj' _ => ?_⟩
  by_cases hg : g' = g
  · subst hg
    exact hw j' hj'
  · exact h.waiting hwait g' j' hj' fun he => hg (Option.some.inj he).symm

theorem books_start (hs : s.io.Sound) (h : s.io.start C.joinCap j = some (g, io)) :
    Books none (some g) j.debt s { s with io := io } := by
  refine ⟨hs.start h, fun c => ?_, fun hw g' j' hj' hne => ?_⟩
  · have hc := Fanout.count_start (p := fun j => j.owesTo c) h
    simp only [State.owed, Join.debt]
    omega
  · have hsame := Fanout.same_start h fun he => hne (congrArg some he).symm
    have hw := hw g' j' (hsame.1.symm.trans hj') (by simp)
    exact ⟨by rw [hsame.2]; exact hw.count, by rw [hsame.2]; exact hw.some, hw.stream, hw.serial⟩

theorem books_asks (hs : s.io.Sound) {cap : ℕ} (ha : Asks cap g qs s.io io new)
    (hg : g < s.io.nextGen) : Books (some g) (some g) 0 s { s with io := io } := by
  refine ⟨ha.sound hs hg, fun c => ?_, fun hw g' j' hj' hne => ?_⟩
  · simp only [State.owed, ha.count, Pi.zero_apply, Nat.add_zero]
  · have hsame := ha.same fun he => hne (congrArg some he).symm
    have hw := hw g' j' (hsame.1.symm.trans hj') hne
    exact ⟨by rw [hsame.2]; exact hw.count, by rw [hsame.2]; exact hw.some, hw.stream, hw.serial⟩

/-- A ticket was spent: its join is in work. -/
theorem books_spends {k : Ticket UInt8} (hs : s.io.Sound) (h : Spends k s.io io) :
    Books none (some k.join) 0 s { s with io := io } := by
  refine ⟨h.sound hs, fun c => ?_, fun hw g' j' hj' hne => ?_⟩
  · simp only [State.owed, h.count, Pi.zero_apply, Nat.add_zero]
  · have hsame := h.same (g := g') hs fun he => hne (congrArg some he).symm
    have hw := hw g' j' (hsame.1.symm.trans hj') (by simp)
    exact ⟨by rw [hsame.2]; exact hw.count, by rw [hsame.2]; exact hw.some, hw.stream, hw.serial⟩

/-- The join in work was none: every join waits. -/
theorem Books.close (h : Books o (some g) d s s') (hnone : s'.io.join? g = none) :
    Books o none d s s' :=
  h.resume fun j hj => by rw [hnone] at hj; cases hj

theorem books_foldl {α : Type} {op : State → α → State}
    (hop : ∀ s, s.io.Sound → ∀ a, Books none none 0 s (op s a)) (l : List α) (hs : s.io.Sound) :
    Books none none 0 s (l.foldl op s) := by
  induction l generalizing s with
  | nil => exact .refl hs
  | cons a l ih =>
    have h := hop s hs a
    exact h.trans_zero (ih h.sound)

/-! ## Joins that were opened -/

theorem owes_of_face (h : j'.face = j.face) : j'.owes = j.owes := by
  have hk : j'.kind = j.kind := congrArg Face.kind h
  have hst : j'.stream = j.stream := congrArg Face.stream h
  rw [Join.owes, Join.owes, hk, hst]

theorem owesTo_of_face (h : j'.face = j.face) (c : UInt32) : j'.owesTo c = j.owesTo c := by
  have hc : j'.upCid = j.upCid := congrArg Face.upCid h
  rw [Join.owesTo, Join.owesTo, owes_of_face h, hc]

theorem debt_of_owes (h : j.owes = true) : j.debt = once j.upCid := by
  funext c
  rw [Join.debt, Join.owesTo, h, Bool.true_and, once]
  simp only [decide_eq_true_eq]

theorem debt_of_not_owes (h : j.owes = false) : j.debt = 0 := by
  funext c
  rw [Join.debt, Join.owesTo, h, Bool.false_and]
  rfl

/-- A join that asks one member waits for it, or is in work still. -/
theorem books_openOne (hs : s.io.Sound) (h : s.io.start C.joinCap j = some (g, io))
    (hneed : j.ack = 0 ∧ j.fail = 0 ∧ j.need = 1) (hstream : j.kind.streamed = false)
    (peer : UInt8) (req : BodyReq) :
    ((io.ask C.pendingCap N g peer req).2 = true →
        Books none none j.debt s { s with io := (io.ask C.pendingCap N g peer req).1 }) ∧
      Books none (some g) j.debt s { s with io := (io.ask C.pendingCap N g peer req).1 } ∧
      (io.ask C.pendingCap N g peer req).1.join? g = some j := by
  obtain ⟨new, hasks, hlen⟩ := Fanout.ask_spec io C.pendingCap N g peer req
  have ho := (Fanout.opens_start hs h).asks hasks
  have hwork := (books_start (s := s) hs h).zero_trans
    (books_asks (s := { s with io := io }) (hs.start h) hasks (Fanout.opens_start hs h).lt)
  refine ⟨fun htaken => hwork.resume fun j' hj' => ?_, hwork, ho.join⟩
  obtain rfl : j = j' := Option.some.inj (ho.join.symm.trans hj')
  obtain ⟨hack, hfail, hone⟩ := hneed
  have htickets : (io.ask C.pendingCap N g peer req).1.tickets g = new := ho.tickets
  rw [htaken, if_pos rfl] at hlen
  refine ⟨by rw [htickets, hack, hfail, hlen, hone], ?_, fun hk => ?_, fun _ => hone⟩
  · rw [htickets]
    exact List.ne_nil_of_length_eq_add_one hlen
  · rw [hstream] at hk
    cases hk

/-- The router asks one member for itself, or lets it be. -/
theorem books_askOwn (hs : s.io.Sound) (h : s.io.start C.joinCap j = some (g, io))
    (hneed : j.ack = 0 ∧ j.fail = 0 ∧ j.need = 1) (hno : j.owes = false)
    (hstream : j.kind.streamed = false) (peer : UInt8) (req : BodyReq) :
    Books none none 0 s (if (io.ask C.pendingCap N g peer req).2
      then { s with io := (io.ask C.pendingCap N g peer req).1 }
      else { s with io := (io.ask C.pendingCap N g peer req).1 }.freeJoin g) := by
  obtain ⟨htaken, hwork, hjoin⟩ := books_openOne (N := N) hs h hneed hstream peer req
  rw [debt_of_not_owes hno] at htaken hwork
  split
  · next ht => exact htaken ht
  · exact hwork.trans_zero (books_free hwork.sound hjoin hno)

/-- A join that asks every target: those that refused are counted, and the rest
are awaited. -/
theorem books_openAll (hs : s.io.Sound) (h : s.io.start C.joinCap j = some (g, io))
    (hnew : j.ack = 0 ∧ j.fail = 0) (hneed : j.need = qs.length) :
    Books none (some g) j.debt s (askTargets C N { s with io := io } g qs) ∧
      ∃ j', (askTargets C N { s with io := io } g qs).io.join? g = some j' ∧ j'.face = j.face ∧
        j'.ack = 0 ∧ j'.fail + ((askTargets C N { s with io := io } g qs).io.tickets g).length
          = j.need := by
  obtain ⟨new, hasks, hlen⟩ := Fanout.askAll_spec C.pendingCap N g qs io
  have ho := (Fanout.opens_start hs h).asks hasks
  have hwork := (books_start (s := s) hs h).zero_trans
    (books_asks (s := { s with io := io }) (hs.start h) hasks (Fanout.opens_start hs h).lt)
  have hset := hwork.zero_trans (books_set (h := fun j =>
    { j with fail := j.fail + (Fanout.askAll C.pendingCap N g qs io).2 }) hwork.sound ho.join
      fun c => owesTo_of_face rfl c)
  refine ⟨hset, { j with fail := j.fail + (Fanout.askAll C.pendingCap N g qs io).2 }, ?_, rfl,
    hnew.1, ?_⟩
  · exact (Fanout.join?_modify _ _ _).trans (congrArg (Option.map _) ho.join)
  · have htickets : ((askTargets C N { s with io := io } g qs).io.tickets g) = new := ho.tickets
    rw [htickets]
    dsimp only
    rw [hnew.2, hneed]
    omega

theorem failedAll_eq (h : s.io.join? g = some j) : failedAll s g = (j.fail == j.need) := by
  rw [failedAll, h]

theorem failedAny_eq (h : s.io.join? g = some j) : failedAny s g = decide (0 < j.fail) := by
  rw [failedAny, h]

/-- A fan-out that was opened waits, unless every member refused. -/
theorem waits_of_opened (hj : s.io.join? g = some j) (hack : j.ack = 0)
    (hcount : j.fail + (s.io.tickets g).length = j.need) (hsome : j.fail ≠ j.need)
    (hstream : j.kind.streamed = true → j.fail = 0 ∧ j.stream ≠ none) (hserial : j.serial = false) :
    ∀ j', s.io.join? g = some j' → Waits s.io g j' := by
  intro j' hj'
  obtain rfl : j = j' := Option.some.inj (hj.symm.trans hj')
  refine ⟨by omega, fun hnil => hsome ?_, hstream, fun h => by rw [hserial] at h; cases h⟩
  rw [hnil, List.length_nil] at hcount
  omega

/-- **A fan-out for a client**: it waits, or is answered at once. -/
theorem books_fanOut (hs : s.io.Sound) (h : s.io.start C.joinCap j = some (g, io))
    (hnew : j.ack = 0 ∧ j.fail = 0) (hneed : j.need = qs.length) (howes : j.owes = true)
    (hstream : j.kind.streamed = false) (hserial : j.serial = false) (c : UInt32)
    (hc : j.upCid = c) (r : BodyResp) :
    Books none none (once c) s
      (if failedAll (askTargets C N { s with io := io } g qs) g
        then ((askTargets C N { s with io := io } g qs).freeJoin g).emit c r
        else askTargets C N { s with io := io } g qs) := by
  obtain ⟨hwork, j', hj', hface, hack, hcount⟩ := books_openAll (N := N) hs h hnew hneed
  have hdebt : j.debt = once c := hc ▸ debt_of_owes howes
  have hcid : j'.upCid = c := (congrArg Face.upCid hface).trans hc
  have hn : j'.need = j.need := congrArg Face.need hface
  have hkind : j'.kind = j.kind := congrArg Face.kind hface
  have hop : j'.op = j.op := congrArg Face.op hface
  rw [hdebt] at hwork
  rw [failedAll_eq hj']
  split
  · have hanswer := books_answer hwork.sound hj' ((owes_of_face hface).trans howes) r
    rw [hcid] at hanswer
    exact hwork.zero_trans hanswer
  next hsome =>
  refine hwork.resume (waits_of_opened hj' hack (hn ▸ hcount) (by simpa using hsome)
    (fun hk => ?_) (by rw [Join.serial, hkind, hop]; exact hserial))
  rw [hkind, hstream] at hk
  cases hk

/-! ## Walks, aborts and repairs -/

/-- **A walk moves on**: it waits for the next target, or is answered. -/
theorem books_advanceRead (targets : List UInt8) (hs : s.io.Sound) (hj : s.io.join? g = some j)
    (hcount : j.ack + j.fail + 1 = j.need) (hone : j.need = 1) (hnil : s.io.tickets g = [])
    (hstream : j.kind.streamed = false) (hkind : j.kind = .scrubFetch ∨ j.owes = true) :
    Books (some g) none 0 s (advanceRead C N g targets s) := by
  induction targets generalizing s j with
  | nil =>
    unfold advanceRead
    rw [hj]
    dsimp only
    split
    · next hk => exact books_free hs hj (by rw [Join.owes, hk])
    · next hk => exact books_answer hs hj (hkind.resolve_left hk) _
  | cons t rest ih =>
    unfold advanceRead
    rw [hj]
    dsimp only
    obtain ⟨new, hasks, hlen⟩ := Fanout.ask_spec s.io C.pendingCap N g t j.question
    have hask := books_asks hs hasks (Fanout.join?_lt hs hj)
    have htickets := hasks.tickets
    have hjoin := (hasks.join? g).trans hj
    rw [hnil, List.nil_append] at htickets
    split
    · next htaken =>
      rw [htaken, if_pos rfl] at hlen
      refine hask.resume fun j' hj' => ?_
      obtain rfl : j = j' := Option.some.inj (hjoin.symm.trans hj')
      refine ⟨by rw [htickets, hlen]; exact hcount, ?_, fun hk => ?_, fun _ => hone⟩
      · rw [htickets]
        exact List.ne_nil_of_length_eq_add_one hlen
      · rw [hstream] at hk
        cases hk
    · next hrefused =>
      rw [if_neg hrefused] at hlen
      have hset := hask.trans_zero (books_set (h := fun j =>
        { j with lastErrno := errIo, attempt := j.attempt + 1 }) hask.sound hjoin
          fun c => owesTo_of_face rfl c)
      refine hset.trans_zero (ih hset.sound ((Fanout.join?_modify _ _ _).trans
        (congrArg (Option.map _) hjoin)) hcount hone ?_ hstream hkind)
      exact htickets.trans (List.eq_nil_of_length_eq_zero hlen)

theorem books_abortMember (hs : s.io.Sound) (q : UInt8 × BodyReq) :
    Books none none 0 s (abortMember C N s q) := by
  unfold abortMember
  split
  · exact .refl hs
  · next g io hstart => exact books_askOwn hs hstart ⟨rfl, rfl, rfl⟩ rfl rfl q.1 q.2

/-- **A stream is given up**: nobody is told. -/
theorem books_abortStreamMembers (hs : s.io.Sound) (sid : ℕ) :
    Books none none 0 s (abortStreamMembers C N s sid) := by
  have h := books_foldl (fun s hs q => books_abortMember (C := C) (N := N) hs q)
    ((s.streams sid).questions .wabort) hs
  exact h.trans_zero (.of_eq h.sound rfl rfl)

theorem books_spawnRepairPuts (hs : s.io.Sound) (members : List UInt8) (resp : BodyResp)
    (keyed : Option Digest) : Books none none 0 s (spawnRepairPuts C N s members resp keyed) := by
  have hone : ∀ (op : BodyOp) (req : BodyReq) (s : State), s.io.Sound → ∀ m,
      Books none none 0 s (repairOne C N op req s m) := by
    intro op req s hs m
    unfold repairOne
    split
    · exact .refl hs
    · next g io hstart => exact books_askOwn hs hstart ⟨rfl, rfl, rfl⟩ rfl rfl m req
  unfold spawnRepairPuts
  split
  · split
    · exact .refl hs
    split
    · exact books_foldl (fun s hs m => hone _ _ s hs m) members hs
    · exact books_foldl (fun s hs m => hone _ _ s hs m) members hs
  · exact .refl hs

theorem books_scrub (hs : s.io.Sound) (x : Scrub) : Books o o 0 s { s with scrub := x } :=
  .of_eq hs rfl rfl

theorem books_scrubKick (hs : s.io.Sound) : Books none none 0 s (scrubKick C N s) := by
  unfold scrubKick
  split
  · exact .refl hs
  dsimp only
  generalize (if C.members ≤ s.scrub.target then 0 else s.scrub.target) = target
  have hturn := books_scrub (o := none) hs { s.scrub with target := target }
  split
  · exact hturn
  next g io hstart =>
  obtain ⟨htaken, hwork, hjoin⟩ := books_openOne (N := N)
    (s := { s with scrub := { s.scrub with target := target } }) hs hstart ⟨rfl, rfl, rfl⟩ rfl
    (UInt8.ofNat target) (.scan s.scrub.cursor (UInt8.ofNat maxScanDigests))
  rw [debt_of_not_owes rfl] at htaken hwork
  split
  · next ht => exact (hturn.trans_zero (htaken ht)).trans_zero (.of_eq hwork.sound rfl rfl)
  have hfree := hwork.trans_zero (books_free hwork.sound hjoin rfl)
  exact (hturn.trans_zero hfree).trans_zero (.of_eq hfree.sound rfl rfl)

theorem books_scrubSpawnProbe (hs : s.io.Sound) (name : Digest × Bool) :
    Books none none 0 s (scrubSpawnProbe C N s name) := by
  unfold scrubSpawnProbe
  dsimp only
  split
  · exact .refl hs
  split
  · exact .refl hs
  next g io hstart =>
  obtain ⟨hwork, j', hj', hface, hack, hcount⟩ := books_openAll (N := N) hs hstart
    ⟨rfl, rfl⟩ (show _ = ((rankTargets C s.fleet name.1).map fun t => (t, .head name.1)).length
      from (List.length_map _).symm)
  rw [debt_of_not_owes rfl] at hwork
  have hno : j'.owes = false := (owes_of_face hface).trans rfl
  have hneed : j'.need = _ := congrArg Face.need hface
  have hkind : j'.kind = .scrubProbe := congrArg Face.kind hface
  rw [failedAll_eq hj']
  split
  · exact hwork.trans_zero (books_free hwork.sound hj' hno)
  next hsome =>
  refine hwork.resume (waits_of_opened hj' hack (hneed ▸ hcount) (by simpa using hsome)
    (fun hk => ?_) (by rw [Join.serial, hkind]))
  rw [hkind] at hk
  cases hk

theorem books_scrubApplyScan (hs : s.io.Sound) (resp : BodyResp) :
    Books none none 0 s (scrubApplyScan C N s resp) := by
  unfold scrubApplyScan
  dsimp only
  split
  · next next page =>
    have hturn : Books none none 0 s (if next = 0
        then scrubNextTarget C { s with scrub := { s.scrub with scanInflight := false, cursor := next } }
        else { s with scrub := { s.scrub with scanInflight := false, cursor := next } }) := by
      split <;> exact books_scrub hs _
    exact hturn.trans_zero (books_foldl (fun s hs n => books_scrubSpawnProbe hs n) page hturn.sound)
  · exact books_scrub hs _

theorem books_scrubSpawnFetch (hs : s.io.Sound) (probe : Join) :
    Books none none 0 s (scrubSpawnFetch C N s probe) := by
  unfold scrubSpawnFetch
  dsimp only
  split
  · exact .refl hs
  next g io hstart =>
  have hopen := books_start (s := s) hs hstart
  rw [debt_of_not_owes rfl] at hopen
  exact hopen.trans_zero (books_advanceRead _ hopen.sound (Fanout.join?_start hs hstart) rfl rfl
    (Fanout.tickets_start hs hstart) rfl (.inl rfl))

/-! ## Requests -/

theorem books_setStream (hs : s.io.Sound) (sid : ℕ) (h : Stream → Stream) :
    Books o o 0 s (s.setStream sid h) := .of_eq hs rfl rfl

/-- A stream fails: its join is answered, and its members are told. -/
theorem books_failStream (hs : s.io.Sound) (hj : s.io.join? g = some j) (howes : j.owes = true)
    (sid : ℕ) (r : BodyResp) :
    Books (some g) none 0 s ((abortStreamMembers C N (s.freeJoin g) sid).emit j.upCid r) := by
  have hanswer := books_answer hs hj howes r
  -- the answer could as well be given before the members are told
  have habort := books_abortStreamMembers (C := C) (N := N) (s := s.freeJoin g) (hs.close g) sid
  refine ⟨habort.sound, fun c => ?_, fun hw => ?_⟩
  · have h := hanswer.owed c
    rw [owed_emit] at h ⊢
    rw [habort.owed]
    exact h
  · exact habort.waiting (hanswer.waiting hw)

/-- A fan-out for a stream, of which no member may refuse: it waits, or is answered
at once. -/
theorem books_fanStream (hs : s.io.Sound) (h : s.io.start C.joinCap j = some (g, io))
    (hnew : j.ack = 0 ∧ j.fail = 0) (hneed : j.need = qs.length) (hpos : qs ≠ [])
    (howes : j.owes = true) (hstream : j.stream ≠ none) (hserial : j.serial = false) (sid : ℕ)
    (c : UInt32) (hc : j.upCid = c) (r : BodyResp) :
    Books none none (once c) s
      (if failedAny (askTargets C N { s with io := io } g qs) g
        then (abortStreamMembers C N ((askTargets C N { s with io := io } g qs).freeJoin g) sid).emit c r
        else askTargets C N { s with io := io } g qs) := by
  obtain ⟨hwork, j', hj', hface, hack, hcount⟩ := books_openAll (N := N) hs h hnew hneed
  have hdebt : j.debt = once c := hc ▸ debt_of_owes howes
  have hcid : j'.upCid = c := (congrArg Face.upCid hface).trans hc
  have hn : j'.need = j.need := congrArg Face.need hface
  have hst : j'.stream = j.stream := congrArg Face.stream hface
  have hkind : j'.kind = j.kind := congrArg Face.kind hface
  have hop : j'.op = j.op := congrArg Face.op hface
  rw [hdebt] at hwork
  rw [failedAny_eq hj']
  split
  · have hfail := books_failStream (C := C) (N := N) hwork.sound hj'
      ((owes_of_face hface).trans howes) sid r
    rw [hcid] at hfail
    exact hwork.zero_trans hfail
  next hsome =>
  have hzero : j'.fail = 0 := by simpa using hsome
  have hlen : 0 < qs.length := List.length_pos_of_ne_nil hpos
  exact hwork.resume (waits_of_opened hj' hack (hn ▸ hcount) (by omega)
    (fun _ => ⟨hzero, hst ▸ hstream⟩) (by rw [Join.serial, hkind, hop]; exact hserial))

theorem questions_ne_nil {t : Stream} (h : t.targets ≠ []) (req : UInt8 → BodyReq) :
    t.questions req ≠ [] := fun he => h <| List.eq_nil_of_length_eq_zero <| by
  have hlen := congrArg List.length he
  rwa [Stream.questions, List.length_map, List.length_zipIdx] at hlen

theorem length_questions (t : Stream) (req : UInt8 → BodyReq) :
    t.targets.length = (t.questions req).length := by
  rw [Stream.questions, List.length_map, List.length_zipIdx]

/-- A stream is given up, and its request refused. -/
theorem books_abortOrNak (hs : s.io.Sound) (sid : ℕ) : Books none none (once s.upCid) s
    ((abortStreamMembers C N s sid).emit s.upCid (.nak errIo)) :=
  have h := books_abortStreamMembers (C := C) (N := N) hs sid
  h.trans_zero (books_emit h.sound _ _)

theorem inUse_of_open {sid : ℕ} (h : ¬ (!streamOpen C s sid) = true) :
    (s.streams sid).inUse = true := by
  have hopen : streamOpen C s sid = true := by simpa using h
  exact ((Bool.and_eq_true _ _).mp hopen).2

/-- A read is answered, or a member is asked. -/
theorem books_handleRead (hs : s.io.Sound) (op : BodyOp) (digest : Digest) (off : UInt64)
    (len : UInt32) : Books none none (once s.upCid) s (handleRead C N s op digest off len) := by
  unfold handleRead
  dsimp only
  split
  · exact books_emit hs _ _
  split
  · exact books_emit hs _ _
  next g io hstart =>
  have hopen := books_start (s := s) hs hstart
  rw [debt_of_owes rfl] at hopen
  exact hopen.zero_trans (books_advanceRead _ hopen.sound (Fanout.join?_start hs hstart) rfl rfl
    (Fanout.tickets_start hs hstart) rfl (.inr rfl))

/-- An open is answered, or owed an answer. -/
theorem books_handleStreamOpen (hs : s.io.Sound) (name : Digest) (total : UInt64) :
    Books none none (once s.upCid) s (handleStreamOpen C N s name total) := by
  unfold handleStreamOpen
  dsimp only
  split
  · exact books_emit hs _ _
  next htargets =>
  split
  · exact books_emit hs _ _
  next sid hslot =>
  have hset := books_setStream (o := none) hs sid
    fun _ => { inUse := true, targets := rankTargets C s.fleet name }
  split
  · have hfreed := hset.trans_zero (books_setStream hset.sound sid fun t => { t with inUse := false })
    exact hfreed.trans_zero (books_emit hfreed.sound _ _)
  next g io hstart =>
  exact hset.trans_zero (books_fanStream hset.sound hstart ⟨rfl, rfl⟩ (List.length_map _).symm
    (fun h => htargets (List.map_eq_nil_iff.mp h)) rfl (by simp) rfl sid s.upCid rfl _)

section OpenStream

variable {sid : ℕ} (hne : (s.streams sid).inUse = true → (s.streams sid).targets ≠ [])

include hne

/-- So is an append. -/
theorem books_handleStreamAppend (hs : s.io.Sound) (chunk : Bytes) :
    Books none none (once s.upCid) s (handleStreamAppend C N s sid chunk) := by
  unfold handleStreamAppend
  dsimp only
  split
  · exact books_emit hs _ _
  split
  · exact books_emit hs _ _
  next hopen =>
  split
  · exact books_abortOrNak hs _
  next g io hstart =>
  exact books_fanStream hs hstart ⟨rfl, rfl⟩ (length_questions _ _)
    (questions_ne_nil (hne (inUse_of_open hopen)) _) rfl (by simp) rfl _ s.upCid rfl _

/-- So is a commit. -/
theorem books_handleStreamCommit (hs : s.io.Sound) :
    Books none none (once s.upCid) s (handleStreamCommit C N s sid) := by
  unfold handleStreamCommit
  dsimp only
  split
  · exact books_emit hs _ _
  next hopen =>
  split
  · exact books_abortOrNak hs _
  next g io hstart =>
  have htargets := hne (inUse_of_open hopen)
  have hbooks := books_fanStream (C := C) (N := N) hs hstart ⟨rfl, rfl⟩ (length_questions _ _)
    (questions_ne_nil htargets .wcommit) rfl (by simp) rfl sid s.upCid rfl (.nak errIo)
  obtain ⟨-, j', hj', hface, -, -⟩ := books_openAll (N := N) hs hstart ⟨rfl, rfl⟩
    (length_questions (s.streams sid) .wcommit)
  rw [failedAny_eq hj'] at hbooks ⊢
  rw [failedAll_eq hj']
  split
  · next hfail =>
    rw [if_pos hfail] at hbooks
    exact hbooks
  next hfail =>
  -- none refused, and there is one
  have hneed : j'.need = (s.streams sid).targets.length := congrArg Face.need hface
  have hpos : 0 < (s.streams sid).targets.length := List.length_pos_of_ne_nil htargets
  have hall : ¬ (j'.fail == j'.need) = true := by
    simp only [decide_eq_true_eq] at hfail
    simp only [beq_iff_eq]
    omega
  rw [if_neg hfail] at hbooks
  rw [if_neg hall]
  exact hbooks

end OpenStream

/-- So is an abort. -/
theorem books_handleStreamAbort (hs : s.io.Sound) (sid : ℕ) :
    Books none none (once s.upCid) s (handleStreamAbort C N s sid) := by
  unfold handleStreamAbort
  dsimp only
  split
  · exact books_emit hs _ _
  next hopen =>
  split
  · exact books_abortOrNak hs _
  next g io hstart =>
  have hbooks := books_fanOut (C := C) (N := N) hs hstart ⟨rfl, rfl⟩
    (length_questions (s.streams sid) .wabort) rfl rfl rfl s.upCid rfl .wabort
  split
  · next hfail =>
    rw [if_pos hfail] at hbooks
    exact hbooks.zero_trans (.of_eq hbooks.sound rfl rfl)
  · next hfail =>
    rw [if_neg hfail] at hbooks
    exact hbooks

/-- So is an operator's scan. -/
theorem books_handleAdminScan (hs : s.io.Sound) (cursor : UInt32) (max : UInt8) :
    Books none none (once s.upCid) s (handleAdminScan C N s cursor max) := by
  unfold handleAdminScan
  dsimp only
  split
  · exact books_emit hs _ _
  split
  · exact books_emit hs _ _
  next g io hstart =>
  obtain ⟨htaken, hwork, hjoin⟩ := books_openOne (N := N) hs hstart ⟨rfl, rfl, rfl⟩ rfl 0
    (.scan cursor max)
  rw [debt_of_owes rfl] at htaken hwork
  split
  · next ht => exact htaken ht
  · exact hwork.zero_trans (books_answer hwork.sound hjoin rfl _)

/-- **A request adds one answer**, given or owed, under its id. -/
theorem books_handleRequest (hs : s.io.Sound)
    (hstreams : ∀ sid, (s.streams sid).inUse = true → (s.streams sid).targets ≠ []) (req : BodyReq) :
    Books none none (once s.upCid) s (handleRequest C N s req) := by
  have hemit : ∀ r, Books none none (once s.upCid) s (s.emit s.upCid r) :=
    fun r => books_emit hs s.upCid r
  cases req with
  | put body =>
    unfold handleRequest handlePut
    dsimp only
    split
    · exact hemit _
    split
    · exact hemit _
    split
    · exact hemit _
    next g io hstart =>
    exact books_fanOut hs hstart ⟨rfl, rfl⟩ (List.length_map _).symm rfl rfl rfl s.upCid rfl _
  | putKeyed key blob =>
    unfold handleRequest handlePutKeyed
    dsimp only
    split
    · exact hemit _
    split
    · exact hemit _
    split
    · exact hemit _
    next g io hstart =>
    exact books_fanOut hs hstart ⟨rfl, rfl⟩ (List.length_map _).symm rfl rfl rfl s.upCid rfl _
  | get name => exact books_handleRead hs _ _ _ _
  | head name => exact books_handleRead hs _ _ _ _
  | range name off len => exact books_handleRead hs _ _ _ _
  | delete name =>
    unfold handleRequest handleDelete
    dsimp only
    split
    · exact hemit _
    split
    · exact hemit _
    next g io hstart =>
    exact books_fanOut hs hstart ⟨rfl, rfl⟩ (List.length_map _).symm rfl rfl rfl s.upCid rfl _
  | wopen name total => exact books_handleStreamOpen hs name total
  | wappend wid chunk => exact books_handleStreamAppend (hstreams _) hs chunk
  | wcommit wid => exact books_handleStreamCommit (hstreams _) hs
  | wabort wid => exact books_handleStreamAbort hs _
  | scan cursor max => exact books_handleAdminScan hs cursor max
  | malformed => exact hemit _

/-! ## Answers -/

/-- A join that has just been answered: one ticket fewer than it needs answers. -/
structure Missing (io : Io) (g : ℕ) (j : Join) : Prop where
  join : io.join? g = some j
  /-- The answer in hand, and those awaited, are missing. -/
  count : j.ack + j.fail + (io.tickets g).length + 1 = j.need
  /-- A stream's join names its stream, and no member has failed it. -/
  stream : j.kind.streamed = true → j.fail = 0 ∧ j.stream ≠ none
  serial : j.serial = true → j.need = 1

/-- A join that has counted its answer, and misses others, waits. -/
theorem books_count (hs : s.io.Sound) (hm : Missing s.io g j) (hface : j'.face = j.face)
    (hcount : j'.ack + j'.fail = j.ack + j.fail + 1) (hmore : j'.ack + j'.fail ≠ j'.need)
    (hfail : j'.kind.streamed = true → j'.fail = 0) (hserial : j.serial = false) :
    Books (some g) none 0 s (s.setJoin g fun _ => j') := by
  have hneed : j'.need = j.need := congrArg Face.need hface
  have hkind : j'.kind = j.kind := congrArg Face.kind hface
  have hop : j'.op = j.op := congrArg Face.op hface
  have hstream : j'.stream = j.stream := congrArg Face.stream hface
  refine (books_set hs hm.join (h := fun _ => j') fun c => owesTo_of_face hface c).resume
    fun j₁ hj₁ => ?_
  have hset : (s.setJoin g fun _ => j').io.join? g = some j' :=
    (Fanout.join?_modify _ _ _).trans (congrArg (Option.map _) hm.join)
  obtain rfl : j' = j₁ := Option.some.inj (hset.symm.trans hj₁)
  have htickets : (s.setJoin g fun _ => j').io.tickets g = s.io.tickets g := rfl
  have hc := hm.count
  refine ⟨by rw [htickets]; omega, fun hnil => hmore ?_, fun hk => ⟨hfail hk, ?_⟩, fun hk => ?_⟩
  · rw [htickets] at hnil
    rw [hnil, List.length_nil] at hc
    omega
  · rw [hstream]
    exact (hm.stream (hkind ▸ hk)).2
  · rw [Join.serial, hkind, hop] at hk
    rw [Join.serial, hk] at hserial
    cases hserial

theorem books_walkOn (hs : s.io.Sound) (hm : Missing s.io g j) (hser : j.serial = true)
    (hk : j.kind = .scrubFetch ∨ j.owes = true) (hst : j.kind.streamed = false)
    (hface : j'.face = j.face) (hcount : j'.ack = j.ack ∧ j'.fail = j.fail) (l : List UInt8) :
    Books (some g) none 0 s (advanceRead C N g l (s.setJoin g fun _ => j')) := by
  obtain ⟨hack, hfail⟩ := hcount
  have hone := hm.serial hser
  have hc := hm.count
  have hneed : j'.need = j.need := congrArg Face.need hface
  have hkind : j'.kind = j.kind := congrArg Face.kind hface
  have hset := books_set hs hm.join (h := fun _ => j') fun c => owesTo_of_face hface c
  have hmiss : j'.ack + j'.fail + 1 = j'.need := by omega
  have hnil : s.io.tickets g = [] := List.eq_nil_of_length_eq_zero (by omega)
  refine hset.trans_zero (books_advanceRead l hset.sound ((Fanout.join?_modify _ _ _).trans
    (congrArg (Option.map _) hm.join)) hmiss (hneed.trans hone) hnil (hkind ▸ hst) ?_)
  rw [hkind, owes_of_face hface]
  exact hk

theorem books_scrubApplyProbe (hs : s.io.Sound) (hm : Missing s.io g j) (hk : j.kind = .scrubProbe)
    (t : UInt8) (resp : BodyResp) : Books (some g) none 0 s (scrubApplyProbe C N s g j t resp) := by
  have hno : j.owes = false := by rw [Join.owes, hk]
  have hface := face_heard j t resp
  have hcount : (j.heard t resp).ack + (j.heard t resp).fail = j.ack + j.fail + 1 := by
    unfold Join.heard
    dsimp only
    split
    · exact Nat.add_right_comm _ _ _
    · exact (Nat.add_assoc _ _ _).symm
  have hkind : (j.heard t resp).kind = .scrubProbe := (congrArg Face.kind hface).trans hk
  unfold scrubApplyProbe
  dsimp only
  split
  · next hmore =>
    refine books_count hs hm hface hcount hmore (fun h => ?_) (by rw [Join.serial, hk])
    rw [hkind] at h
    cases h
  have hset := books_set hs hm.join (h := fun _ => j.heard t resp) fun c => owesTo_of_face hface c
  have hclosed := hset.trans_zero (books_free hset.sound ((Fanout.join?_modify _ _ _).trans
    (congrArg (Option.map _) hm.join)) ((owes_of_face hface).trans hno))
  split
  · exact hclosed
  · exact hclosed.trans_zero (books_scrubSpawnFetch hclosed.sound _)

/-- A store's answer: the join is answered, or counts it. -/
theorem books_answerPut (hs : s.io.Sound) (hm : Missing s.io g j) (howes : j.owes = true)
    (hst : j.kind.streamed = false) (hser : j.serial = false) (resp : BodyResp) :
    Books (some g) none 0 s (answerPut s g j resp) := by
  have hanswer : ∀ r, Books (some g) none 0 s ((s.emit j.upCid r).freeJoin g) :=
    books_answer hs hm.join howes
  unfold answerPut
  split
  · have hface := face_noteDigest { j with ack := j.ack + 1 } (respDigest resp)
    have hcount : (({ j with ack := j.ack + 1 } : Join).noteDigest (respDigest resp)).ack = j.ack + 1
        ∧ (({ j with ack := j.ack + 1 } : Join).noteDigest (respDigest resp)).fail = j.fail := by
      unfold Join.noteDigest
      repeat' split
      all_goals exact ⟨rfl, rfl⟩
    have hcid : (({ j with ack := j.ack + 1 } : Join).noteDigest (respDigest resp)).upCid = j.upCid :=
      congrArg Face.upCid hface
    generalize ({ j with ack := j.ack + 1 } : Join).noteDigest (respDigest resp) = j' at *
    dsimp only
    rw [hcid]
    split
    · exact hanswer _
    next hzero =>
    split
    · exact hanswer _
    next hmore =>
    have hkind : j'.kind = j.kind := congrArg Face.kind hface
    refine books_count hs hm hface (by omega) (by omega) (fun h => ?_) hser
    rw [hkind, hst] at h
    cases h
  · exact hanswer _

theorem books_answerRead (hs : s.io.Sound) (hm : Missing s.io g j) (howes : j.owes = true)
    (hst : j.kind.streamed = false) (hser : j.serial = true) (resp : BodyResp) :
    Books (some g) none 0 s (answerRead C N s g j resp) := by
  unfold answerRead
  split
  · have hans : Books (some g) none 0 s ((s.emit j.upCid resp).freeJoin g) :=
      books_answer hs hm.join howes resp
    dsimp only
    split
    · exact hans.trans_zero (books_spawnRepairPuts hans.sound _ _ _)
    · exact hans
  · have hface : ({ j with
        lastErrno := nakErrno resp, attempt := j.attempt + 1
        notFound := if nakErrno resp = errNotFound then j.attempt :: j.notFound
          else j.notFound } : Join).face = j.face := rfl
    exact books_walkOn hs hm hser (.inr howes) hst hface ⟨rfl, rfl⟩ _

theorem books_answerDelete (hs : s.io.Sound) (hm : Missing s.io g j) (howes : j.owes = true)
    (hst : j.kind.streamed = false) (hser : j.serial = false) (resp : BodyResp) :
    Books (some g) none 0 s (answerDelete s g j resp) := by
  have hface := face_noteDelete j resp
  have hcount : (j.noteDelete resp).ack + (j.noteDelete resp).fail = j.ack + j.fail + 1 := by
    unfold Join.noteDelete
    split
    · exact Nat.add_right_comm _ _ _
    · exact (Nat.add_assoc _ _ _).symm
  have hcid : (j.noteDelete resp).upCid = j.upCid := congrArg Face.upCid hface
  have hkind : (j.noteDelete resp).kind = j.kind := congrArg Face.kind hface
  unfold answerDelete
  generalize j.noteDelete resp = j' at *
  dsimp only
  split
  · rw [hcid]
    exact books_answer hs hm.join howes _
  · next hmore =>
    refine books_count hs hm hface hcount hmore (fun h => ?_) hser
    rw [hkind, hst] at h
    cases h

theorem books_finishStream (hs : s.io.Sound) (hj : s.io.join? g = some j) (howes : j.owes = true)
    (hface : j'.face = j.face) (sid : ℕ) : Books (some g) none 0 s (finishStream s g j' sid) := by
  have hcid : j'.upCid = j.upCid := congrArg Face.upCid hface
  have hanswer : ∀ r, Books (some g) none 0 s ((s.freeJoin g).emit j.upCid r) :=
    books_answer hs hj howes
  unfold finishStream
  rw [hcid]
  split
  · exact hanswer _
  · exact hanswer _
  · exact (hanswer _).trans_zero (.of_eq (hanswer (.wcommit (some j'.digest))).sound rfl rfl)

/-- A stream's answer: the join is answered, or counts it, or fails with its
stream. -/
theorem books_answerStream (hs : s.io.Sound) (hm : Missing s.io g j) (howes : j.owes = true)
    (hst : j.kind.streamed = true) (hser : j.serial = false) (sid : ℕ) (t : UInt8)
    (resp : BodyResp) : Books (some g) none 0 s (answerStream C N s g j sid t resp) := by
  unfold answerStream
  split
  · have hnote : (noteSession s j sid t resp).io = s.io ∧ (noteSession s j sid t resp).up = s.up := by
      unfold noteSession
      split <;> exact ⟨rfl, rfl⟩
    have hsession : Books (some g) (some g) 0 s (noteSession s j sid t resp) :=
      .of_eq hs hnote.1 hnote.2
    have hface := face_noteStream j resp
    have hcount : (j.noteStream resp).ack = j.ack + 1 ∧ (j.noteStream resp).fail = j.fail := by
      unfold Join.noteStream Join.noteDigest
      repeat' split
      all_goals exact ⟨rfl, rfl⟩
    have hm' : Missing (noteSession s j sid t resp).io g j := hnote.1 ▸ hm
    generalize noteSession s j sid t resp = s' at *
    generalize j.noteStream resp = j' at *
    dsimp only
    split
    · exact hsession.trans_zero (books_finishStream hsession.sound hm'.join howes hface sid)
    next hmore =>
    have hzero := (hm.stream hst).1
    exact hsession.trans_zero (books_count hsession.sound hm' hface (by omega) (by omega)
      (fun _ => by omega) hser)
  · exact books_failStream hs hm.join howes sid _

theorem books_answerAbort (hs : s.io.Sound) (hm : Missing s.io g j) (hk : j.kind = .streamAbort) :
    Books (some g) none 0 s (answerAbort s g j) := by
  have hc := hm.count
  have hst : j.kind.streamed = false := by rw [hk]; rfl
  unfold answerAbort
  dsimp only
  split
  · split
    · next sid hsid =>
      have howes : j.owes = true := by rw [Join.owes, hk]; exact congrArg Option.isSome hsid
      have hans : Books (some g) none 0 s ((s.freeJoin g).emit j.upCid .wabort) :=
        books_answer hs hm.join howes .wabort
      exact hans.trans_zero (.of_eq hans.sound rfl rfl)
    · next hnone =>
      exact books_free hs hm.join (by rw [Join.owes, hk]; exact congrArg Option.isSome hnone)
  · next hmore =>
    refine books_count hs hm rfl (Nat.add_right_comm _ _ _) (by dsimp only at hmore ⊢; omega)
      (fun h => ?_) (by rw [Join.serial, hk])
    rw [hst] at h
    cases h

/-- A stream's join owes its answer, and asks all its members at once. -/
theorem owes_of_streamed (h : j.kind.streamed = true) : j.owes = true ∧ j.serial = false := by
  unfold Kind.streamed at h
  split at h
  · next hk => exact ⟨by rw [Join.owes, hk], by rw [Join.serial, hk]⟩
  · next hk => exact ⟨by rw [Join.owes, hk], by rw [Join.serial, hk]⟩
  · next hk => exact ⟨by rw [Join.owes, hk], by rw [Join.serial, hk]⟩
  · cases h

theorem applyJoinResponse_streamed {sid : ℕ} (h : j.kind.streamed = true) (hsid : j.stream = some sid)
    (t : UInt8) : applyJoinResponse C N s g j t resp = answerStream C N s g j sid t resp := by
  unfold Kind.streamed at h
  split at h
  · next hk => simp only [applyJoinResponse, hk, hsid]
  · next hk => simp only [applyJoinResponse, hk, hsid]
  · next hk => simp only [applyJoinResponse, hk, hsid]
  · cases h

/-- **A join is answered, or waits for more**: nothing is answered twice, and
nothing is forgotten. -/
theorem books_applyJoinResponse (hs : s.io.Sound) (hm : Missing s.io g j) (t : UInt8)
    (resp : BodyResp) : Books (some g) none 0 s (applyJoinResponse C N s g j t resp) := by
  have hj := hm.join
  by_cases hst : j.kind.streamed = true
  · obtain ⟨sid, hsid⟩ := Option.ne_none_iff_exists'.mp (hm.stream hst).2
    obtain ⟨howes, hser⟩ := owes_of_streamed hst
    rw [applyJoinResponse_streamed hst hsid]
    exact books_answerStream hs hm howes hst hser sid t resp
  unfold applyJoinResponse
  split
  · next hk => exact books_free hs hj (by rw [Join.owes, hk])
  · next hk => exact books_answer hs hj (by rw [Join.owes, hk]) _
  · next hk =>
    have h := books_free hs hj (by rw [Join.owes, hk])
    exact h.trans_zero (books_scrubApplyScan h.sound resp)
  · next hk => exact books_scrubApplyProbe hs hm hk t resp
  · next hk =>
    split
    · have h := books_free hs hj (by rw [Join.owes, hk])
      exact h.trans_zero (books_spawnRepairPuts h.sound _ _ _)
    · have hface : ({ j with attempt := j.attempt + 1 } : Join).face = j.face := rfl
      exact books_walkOn hs hm (by rw [Join.serial, hk]) (.inl hk) (by rw [hk]; rfl) hface
        ⟨rfl, rfl⟩ _
  · next hk => exact absurd (by rw [hk]; rfl) hst
  · next hk => exact absurd (by rw [hk]; rfl) hst
  · next hk => exact absurd (by rw [hk]; rfl) hst
  · next hk => exact books_answerAbort hs hm hk
  · next hk =>
    have howes : j.owes = true := by rw [Join.owes, hk]
    have hst : j.kind.streamed = false := by rw [hk]; rfl
    have hwalks : ∀ {b}, (decide (j.op = .get) || decide (j.op = .head) || decide (j.op = .range)) = b →
        j.serial = b := by
      intro b hb
      rw [Join.serial, hk]
      exact hb
    split
    · next hop => exact books_answerPut hs hm howes hst (hwalks (by rw [hop]; rfl)) resp
    · next hop => exact books_answerPut hs hm howes hst (hwalks (by rw [hop]; rfl)) resp
    · next hop => exact books_answerRead hs hm howes hst (hwalks (by rw [hop]; rfl)) resp
    · next hop => exact books_answerRead hs hm howes hst (hwalks (by rw [hop]; rfl)) resp
    · next hop => exact books_answerRead hs hm howes hst (hwalks (by rw [hop]; rfl)) resp
    · next hop => exact books_answerDelete hs hm howes hst (hwalks (by rw [hop]; rfl)) resp
    · exact books_answer hs hj howes _

/-! ## Events -/

/-- The requests an event brings under an id. -/
def asks (c : UInt32) : EcEvent → Bool
  | .request cid _ | .oversize cid => cid = c
  | _ => false

/-- The ticket of a join was spent: the join misses its answer. -/
theorem missing_of_waits {k : Ticket UInt8} (hw : Waits s.io k.join j) (hs : s.io.Sound)
    (hk : Spends k s.io io) (hj : s.io.join? k.join = some j) : Missing io k.join j := by
  have hlen := hk.length_tickets hs
  have hc := hw.count
  exact ⟨(hk.join? _).trans hj, by omega, hw.stream, hw.serial⟩

/-- **An event adds the answers of its requests**, given or owed. -/
theorem books_step (hs : s.io.Sound) (hw : Waiting none s)
    (hstreams : ∀ sid, (s.streams sid).inUse = true → (s.streams sid).targets ≠ []) (e : EcEvent) :
    Books none none (fun c => if asks c e then 1 else 0) s (step C N s e) := by
  have hone : ∀ cid : UInt32, (fun c => if decide (cid = c) = true then 1 else 0) = once cid := by
    intro cid
    funext c
    simp only [once, decide_eq_true_eq]
  cases hk : e.spends s.io with
  | some p =>
    obtain ⟨k, io, resp⟩ := p
    obtain ⟨q, hstep⟩ := step_of_spends (C := C) (N := N) hk
    have hspends := spends_spec hk
    have hnone : (fun c => if asks c e then 1 else 0) = (0 : UInt32 → ℕ) := by
      cases e <;> first | rfl | cases hk
    have hquiet : Books (some k.join) (some k.join) 0 { s with io := io }
        { s with io := io, quiet := q } := .of_eq (hspends.sound hs) rfl rfl
    have hspent := (books_spends hs hspends).trans_zero hquiet
    rw [hnone, hstep, answerJoin]
    dsimp only
    rw [hspends.join?]
    cases hj : s.io.join? k.join with
    | none => exact hspent.close ((hspends.join? _).trans hj)
    | some j =>
      have hm := missing_of_waits (hw _ j hj (by simp)) hs hspends hj
      exact hspent.trans_zero (books_applyJoinResponse hspent.sound hm k.peer resp)
  | none =>
    obtain ⟨q, hq⟩ := hear_eq s e
    have hquiet : Books none none 0 s { s with quiet := q } := .of_eq hs rfl rfl
    cases e with
    | fleet members => exact .of_eq hs rfl rfl
    | request cid req =>
      have h := books_handleRequest (C := C) (N := N) (s := { s with upCid := cid }) hs hstreams req
      have hcid : Books none none 0 s { s with upCid := cid } := .of_eq hs rfl rfl
      exact (hone cid).symm ▸ hcid.trans_zero h
    | oversize cid => exact (hone cid).symm ▸ books_emit hs cid (.nak errTooLarge)
    | scrub => exact books_scrubKick hs
    | answer t cid resp =>
      simp only [step, hq, hk]
      exact hquiet
    | oversizeAnswer t cid =>
      simp only [step, hq, hk]
      exact hquiet
    | expire cid =>
      simp only [step, hq, hk]
      exact hquiet

/-- **What a run has answered and owes** is what it was asked, and what is owed is
awaited. -/
theorem account (es : List EcEvent) :
    (∀ c, (runOf C N es).owed c = es.countP (asks c)) ∧ Waiting none (runOf C N es) := by
  induction es using List.reverseRecOn with
  | nil => exact ⟨fun _ => rfl, fun _ _ h => (by cases h)⟩
  | append_singleton es e ih =>
    obtain ⟨howed, hwait⟩ := ih
    have hstreams : ∀ sid, ((runOf C N es).streams sid).inUse = true →
        ((runOf C N es).streams sid).targets ≠ [] := by
      intro sid hin
      obtain ⟨_, _, hon⟩ := streams_run es hin
      exact hon.some
    have h := books_step (C := C) (N := N) (wf_runOf (C := C) (N := N) es).sound hwait hstreams e
    rw [runOf_snoc]
    refine ⟨fun c => ?_, h.waiting hwait⟩
    rw [h.owed, howed, List.countP_append, List.countP_singleton]

end Books

/-! ## A join is answered in the end -/

/-- How often the tickets of a join can be spent: the answers it misses, and the
targets its walk has ahead. -/
def Join.left (j : Join) : ℕ := (j.need - (j.ack + j.fail)) + (j.targets.length - j.attempt)

/-- A join is closed, or has fewer than `m` tickets to spend. -/
def Ends (m g : ℕ) (s : State) : Prop := ∀ j, s.io.join? g = some j → j.left < m

section Ends

variable {C : Config} {N : ℕ → Bool} {A : Allow} {s s' : State} {g m : ℕ} {j j' : Join} {io : Io}
  {k : Ticket UInt8} {resp : BodyResp} {e : EcEvent}

theorem ends_of_none (h : s.io.join? g = none) : Ends m g s := fun j hj => by
  rw [h] at hj
  cases hj

theorem ends_free (s : State) : Ends m g (s.freeJoin g) := ends_of_none (Fanout.join?_close _ _)

theorem ends_set (hj : s.io.join? g = some j) (h : j'.left < m) :
    Ends m g (s.setJoin g fun _ => j') := by
  intro j₁ hj₁
  have hset : (s.setJoin g fun _ => j').io.join? g = some j' :=
    (Fanout.join?_modify _ _ _).trans (congrArg (Option.map _) hj)
  rwa [← Option.some.inj (hset.symm.trans hj₁)]

/-- What is about no join leaves a join's end be. -/
theorem Ends.does (h : Ends m g s) (hd : Does A none s s') (hlt : g < s.io.nextGen) :
    Ends m g s' := by
  intro j hj
  rw [(hd.io.keeps g hlt (by simp)).1] at hj
  exact h j hj

theorem ends_advanceRead (l : List UInt8) (hs : s.io.Sound) (hj : s.io.join? g = some j)
    (hl : l = [] ∨ j.left < m) : Ends m g (advanceRead C N g l s) := by
  induction l generalizing s j with
  | nil =>
    unfold advanceRead
    rw [hj]
    dsimp only
    split
    · exact ends_free s
    · exact ends_free s
  | cons t rest ih =>
    have hlt : j.left < m := hl.resolve_left (by simp)
    unfold advanceRead
    rw [hj]
    dsimp only
    obtain ⟨new, hasks, -⟩ := Fanout.ask_spec s.io C.pendingCap N g t j.question
    have hjoin := (hasks.join? g).trans hj
    split
    · intro j₁ hj₁
      rwa [← Option.some.inj (hjoin.symm.trans hj₁)]
    have hless : ({ j with lastErrno := errIo, attempt := j.attempt + 1 } : Join).left ≤ j.left := by
      simp only [Join.left]
      omega
    have hsound := (hasks.sound hs (Fanout.join?_lt hs hj)).modify g
      fun j => { j with lastErrno := errIo, attempt := j.attempt + 1 }
    exact ih hsound ((Fanout.join?_modify _ _ _).trans (congrArg (Option.map _) hjoin))
      (.inr (Nat.lt_of_le_of_lt hless hlt))

/-- A walk moves on past the target it asked. -/
theorem ends_walkOn (hs : s.io.Sound) (hj : s.io.join? g = some j) (hface : j'.face = j.face)
    (hcount : j'.ack = j.ack ∧ j'.fail = j.fail) (hnext : j'.attempt = j.attempt + 1) :
    Ends j.left g (advanceRead C N g j'.ahead (s.setJoin g fun _ => j')) := by
  have hset : (s.setJoin g fun _ => j').io.join? g = some j' :=
    (Fanout.join?_modify _ _ _).trans (congrArg (Option.map _) hj)
  have htargets : j'.targets = j.targets := congrArg Face.targets hface
  have hneed : j'.need = j.need := congrArg Face.need hface
  have hsound : (s.setJoin g fun _ => j').io.Sound := hs.modify g fun _ => j'
  refine ends_advanceRead _ hsound hset ?_
  rcases Nat.lt_or_ge j.attempt j.targets.length with hlt | hge
  · right
    simp only [Join.left, hcount.1, hcount.2, hneed, htargets, hnext]
    omega
  · left
    exact List.drop_eq_nil_of_le (by rw [htargets, hnext]; omega)

/-- A join that counts an answer has one fewer to come. -/
theorem left_counted (hm : Missing io g j) (hface : j'.face = j.face)
    (hcount : j'.ack + j'.fail = j.ack + j.fail + 1) (hwalk : j'.attempt = j.attempt) :
    j'.left < j.left := by
  have htargets : j'.targets = j.targets := congrArg Face.targets hface
  have hneed : j'.need = j.need := congrArg Face.need hface
  have hc := hm.count
  simp only [Join.left, htargets, hneed, hwalk]
  omega

theorem ends_scrubApplyProbe (hs : s.io.Sound) (hm : Missing s.io g j) (t : UInt8)
    (resp : BodyResp) : Ends j.left g (scrubApplyProbe C N s g j t resp) := by
  have hj := hm.join
  have hface := face_heard j t resp
  have hcount : (j.heard t resp).ack + (j.heard t resp).fail = j.ack + j.fail + 1
      ∧ (j.heard t resp).attempt = j.attempt := by
    unfold Join.heard
    dsimp only
    split
    · exact ⟨Nat.add_right_comm _ _ _, rfl⟩
    · exact ⟨(Nat.add_assoc _ _ _).symm, rfl⟩
  unfold scrubApplyProbe
  dsimp only
  split
  · exact ends_set hj (left_counted hm hface hcount.1 hcount.2)
  have hlt : g < s.io.nextGen := Fanout.join?_lt hs hj
  have hsound : ((s.setJoin g fun _ => j.heard t resp).freeJoin g).io.Sound :=
    (hs.modify g fun _ => j.heard t resp).close g
  split
  · exact ends_free _
  · exact (ends_free _).does (does_scrubSpawnFetch hsound _) hlt

theorem ends_answerPut (hm : Missing s.io g j) (resp : BodyResp) :
    Ends j.left g (answerPut s g j resp) := by
  unfold answerPut
  split
  · have hface := face_counted j (respDigest resp)
    have hcount := counted_ack j (respDigest resp)
    have hwalk : (j.counted (respDigest resp)).attempt = j.attempt := by
      unfold Join.counted Join.noteDigest
      repeat' split
      all_goals rfl
    have hsum : (j.counted (respDigest resp)).ack + (j.counted (respDigest resp)).fail
        = j.ack + j.fail + 1 := by omega
    have hless := left_counted hm hface hsum hwalk
    dsimp only
    split
    · exact ends_free _
    split
    · exact ends_free _
    · exact ends_set hm.join hless
  · exact ends_free _

theorem ends_answerDelete (hm : Missing s.io g j) (resp : BodyResp) :
    Ends j.left g (answerDelete s g j resp) := by
  have hface := face_noteDelete j resp
  have hcount : (j.noteDelete resp).ack + (j.noteDelete resp).fail = j.ack + j.fail + 1
      ∧ (j.noteDelete resp).attempt = j.attempt := by
    unfold Join.noteDelete
    split
    · exact ⟨Nat.add_right_comm _ _ _, rfl⟩
    · exact ⟨(Nat.add_assoc _ _ _).symm, rfl⟩
  unfold answerDelete
  dsimp only
  split
  · exact ends_free _
  · exact ends_set hm.join (left_counted hm hface hcount.1 hcount.2)

theorem ends_answerRead (hs : s.io.Sound) (hj : s.io.join? g = some j) (resp : BodyResp) :
    Ends j.left g (answerRead C N s g j resp) := by
  have hlt : g < s.io.nextGen := Fanout.join?_lt hs hj
  unfold answerRead
  split
  · have hclosed : Ends j.left g ((s.emit j.upCid resp).freeJoin g) := ends_free _
    dsimp only
    split
    · exact hclosed.does (does_spawnRepairPuts (hs.close g) _ _ _) hlt
    · exact hclosed
  · have hface : ({ j with
        lastErrno := nakErrno resp, attempt := j.attempt + 1
        notFound := if nakErrno resp = errNotFound then j.attempt :: j.notFound
          else j.notFound } : Join).face = j.face := rfl
    exact ends_walkOn hs hj hface ⟨rfl, rfl⟩ rfl

theorem ends_answerStream (hs : s.io.Sound) (hm : Missing s.io g j) (sid : ℕ) (t : UInt8)
    (resp : BodyResp) : Ends j.left g (answerStream C N s g j sid t resp) := by
  have hlt : g < s.io.nextGen := Fanout.join?_lt hs hm.join
  unfold answerStream
  split
  · have hio : (noteSession s j sid t resp).io = s.io := by
      unfold noteSession
      split <;> rfl
    have hface := face_noteStream j resp
    have hcount : (j.noteStream resp).ack + (j.noteStream resp).fail = j.ack + j.fail + 1
        ∧ (j.noteStream resp).attempt = j.attempt := by
      unfold Join.noteStream Join.noteDigest
      repeat' split
      all_goals exact ⟨Nat.add_right_comm _ _ _, rfl⟩
    dsimp only
    split
    · unfold finishStream
      split <;> exact ends_free _
    · exact ends_set (hio ▸ hm.join) (left_counted hm hface hcount.1 hcount.2)
  · have habort : Ends j.left g (abortStreamMembers C N (s.freeJoin g) sid) :=
      (ends_free s).does (does_abortStreamMembers (hs.close g) sid) hlt
    exact habort

/-- **A join whose ticket is spent is closed, or has fewer to spend.** -/
theorem ends_applyJoinResponse (hs : s.io.Sound) (hm : Missing s.io g j) (t : UInt8)
    (resp : BodyResp) : Ends j.left g (applyJoinResponse C N s g j t resp) := by
  have hj := hm.join
  have hlt : g < s.io.nextGen := Fanout.join?_lt hs hj
  have hclosed : Ends j.left g (s.freeJoin g) := ends_free s
  by_cases hst : j.kind.streamed = true
  · obtain ⟨sid, hsid⟩ := Option.ne_none_iff_exists'.mp (hm.stream hst).2
    rw [applyJoinResponse_streamed hst hsid]
    exact ends_answerStream hs hm sid t resp
  unfold applyJoinResponse
  split
  · exact hclosed
  · exact hclosed
  · exact hclosed.does (does_scrubApplyScan (hs.close g)) hlt
  · exact ends_scrubApplyProbe hs hm t resp
  · split
    · exact hclosed.does (does_spawnRepairPuts (hs.close g) _ _ _) hlt
    have hface : ({ j with attempt := j.attempt + 1 } : Join).face = j.face := rfl
    exact ends_walkOn hs hj hface ⟨rfl, rfl⟩ rfl
  · next hk => exact absurd (by rw [hk]; rfl) hst
  · next hk => exact absurd (by rw [hk]; rfl) hst
  · next hk => exact absurd (by rw [hk]; rfl) hst
  · unfold answerAbort
    dsimp only
    split
    · split
      · exact ends_free s
      · exact ends_free s
    · exact ends_set hj (left_counted hm rfl (Nat.add_right_comm _ _ _) rfl)
  · split
    · exact ends_answerPut hm resp
    · exact ends_answerPut hm resp
    · exact ends_answerRead hs hj resp
    · exact ends_answerRead hs hj resp
    · exact ends_answerRead hs hj resp
    · exact ends_answerDelete hm resp
    · exact ends_free _

/-- An event that spends a join's ticket closes it, or leaves it fewer to
spend. -/
theorem ends_step (hs : s.io.Sound) (hw : Waiting none s) (hj : s.io.join? g = some j)
    (habout : about s.io e = some g) : Ends j.left g (step C N s e) := by
  obtain ⟨k, io, resp, hk, rfl⟩ := exists_spent habout
  obtain ⟨q, hstep⟩ := step_of_spends (C := C) (N := N) hk
  have hspends := spends_spec hk
  have hm := missing_of_waits (hw _ j hj (by simp)) hs hspends hj
  rw [hstep, answerJoin]
  dsimp only
  rw [hspends.join?, hj]
  exact ends_applyJoinResponse (hspends.sound hs) hm k.peer resp

end Ends

end Loam.BodyRouter

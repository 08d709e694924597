import Loam.BodyAnswers
import Loam.RouterTables

/-!
# What an answer meets in the router's tables

The router keeps a ticket's join by its place in the join table and a 16-bit
stamp, and a question by a 32-bit id. While neither names a later join or a later
question, an answer meets the join that asked, and every request is answered
once. A stamp comes back after 65536 joins, though, and a ticket may wait that
long: then an answer for a join that was closed long ago counts toward the one
that has its place.
-/

namespace Loam.BodyRouter

open Fanout (Same Ticket Question)

section Table

variable (C : Config) (net : ℕ → Bool)

/-- Meet an event, by what the tables tell. -/
def tableStep (s : State) (e : EcEvent) : State :=
  match e with
  | .answer .. | .oversizeAnswer .. | .expire _ =>
    let s := hear s e
    match e.tableSpends s.io with
    | none => s
    | some (k, io, resp) =>
      match io.holder k.join with
      | none => { s with io := io }
      | some g => answerJoin C net { s with io := io } g k.peer resp
  | _ => step C net s e

/-- The state a router that was just made reaches. -/
def tableRun (es : List EcEvent) : State := Run.run (tableStep C net) (State.init C) es

end Table

/-- A run answers every request once. -/
structure AnswersOnce (C : Config) (N : ℕ → Bool) (es : List EcEvent) : Prop where
  /-- Every request is answered or owed an answer, and once. -/
  once : ∀ c, (tableRun C N es).owed c = es.countP (asks c)
  awaits : ∀ g j, (tableRun C N es).io.join? g = some j → (tableRun C N es).io.tickets g ≠ []
  /-- It is closed when as many of its answers have come, or are past their
  deadlines, as it can await. -/
  ends : ∀ es₀ es₁, es = es₀ ++ es₁ → ∀ g j, (tableRun C N es₀).io.join? g = some j →
    j.left ≤ Run.countSteps (tableStep C N) (fun s e => about s.io e = some g) (tableRun C N es₀) es₁ →
      (tableRun C N es).io.join? g = none
  /-- A store is acknowledged when every member ranked for it has stored it. -/
  put : ∀ c p, (c, .put p) ∈ (tableRun C N es).up → ∃ es₀ body T told, p = some told ∧
    RequestAt es es₀ c (.put body) ∧
    T = rankTargets C (tableRun C N es₀).fleet (bodyKeyFromBytes body) ∧ T ≠ [] ∧
    StoredOn (tableRun C N es).io.sent es T (fun _ => .put body) .put told
  /-- A commit is acknowledged when every member of its stream has committed, and
  these are ranked for the digest it declared. -/
  commit : ∀ c p, (c, .wcommit p) ∈ (tableRun C N es).up →
    ∃ es₁ wid told, p = some told ∧ RequestAt es es₁ c (.wcommit wid) ∧
      StoredOn (tableRun C N es).io.sent es ((tableRun C N es₁).streams wid.toNat).targets
        (fun i => .wcommit (((tableRun C N es₁).streams wid.toNat).wids i)) .wcommit told ∧
      ∃ es₀ c₀ digest total, RequestAt es₁ es₀ c₀ (.wopen digest total) ∧
        ((tableRun C N es₁).streams wid.toNat).targets = rankTargets C (tableRun C N es₀).fleet digest ∧
        ((tableRun C N es₁).streams wid.toNat).targets ≠ []
  /-- A join that was closed is not in hand again. -/
  closed : ∀ es₀ es₁, es = es₀ ++ es₁ → ∀ g < (tableRun C N es₀).io.nextGen,
    (tableRun C N es₀).io.join? g = none → (tableRun C N es).io.join? g = none
  /-- An event changes no join but the one its question was asked for. -/
  kept : ∀ es₀ e es₁, es = es₀ ++ e :: es₁ → ∀ g j, (tableRun C N es₀).io.join? g = some j →
    (tableRun C N (es₀ ++ [e])).io.join? g = some j ∨
      ∃ k ∈ (tableRun C N es₀).io.tickets g, e.question = some k.cid

section Runs

variable {C : Config} {N : ℕ → Bool} {s : State} {e : EcEvent} {g : ℕ} {j : Join}
  {k : Ticket UInt8} {io : Io} {resp : BodyResp} {es es₀ es₁ : List EcEvent}

/-- **An event that meets its own does what it should.** -/
theorem tableStep_eq (hs : s.io.Sound) (hown : e.own s.io = true) :
    tableStep C N s e = step C N s e := by
  obtain ⟨q, hq⟩ := hear_eq s e
  have hanswer :
      (match e.tableSpends (hear s e).io with
        | none => hear s e
        | some (k, io, resp) =>
          match io.holder k.join with
          | none => { hear s e with io := io }
          | some g => answerJoin C N { hear s e with io := io } g k.peer resp) =
      match e.spends (hear s e).io with
        | none => hear s e
        | some (k, io, resp) => answerJoin C N { hear s e with io := io } k.join k.peer resp := by
    rw [hq]
    dsimp only
    obtain ⟨ht, hk⟩ | ⟨k, io, resp, ht, hk, hh | ⟨hh, hj⟩⟩ := EcEvent.own_cases hs hown
    · rw [ht, hk]
    · rw [ht, hk]
      dsimp only
      rw [hh]
    · -- no join is there, so the ticket's is not in hand
      rw [ht, hk]
      dsimp only
      rw [hh, answerJoin]
      dsimp only
      rw [hj]
  cases e with
  | answer t cid resp => exact hanswer
  | oversizeAnswer t cid => exact hanswer
  | expire cid => exact hanswer
  | _ => rfl

/-- A run whose answers meet their own is a run of joins that are told apart. -/
theorem tableRun_eq (h : Run.AllSteps (tableStep C N) (fun s e => e.own s.io = true) (State.init C) es) :
    tableRun C N es = runOf C N es := by
  have hstep : ∀ s t e, s = t ∧ s.Wf → e.own s.io = true →
      tableStep C N s e = step C N t e ∧ (tableStep C N s e).Wf := by
    rintro s t e ⟨rfl, hs⟩ hown
    rw [tableStep_eq hs.sound hown]
    exact ⟨rfl, step_wf hs e⟩
  exact (Run.simulation (R := fun s t => s = t ∧ s.Wf) hstep ⟨rfl, wf_init C⟩ h).1

theorem tableRun_front
    (h : Run.AllSteps (tableStep C N) (fun s e => e.own s.io = true) (State.init C) (es₀ ++ es₁)) :
    tableRun C N es₀ = runOf C N es₀ :=
  tableRun_eq (Run.allSteps_append.mp h).1

/-- What the run acknowledged of its stores. -/
theorem put_acked (h : Run.AllSteps (tableStep C N) (fun s e => e.own s.io = true) (State.init C) es)
    {c : UInt32} {p : Option Digest} (hp : (c, .put p) ∈ (tableRun C N es).up) :
    ∃ es₀ body T told, p = some told ∧ RequestAt es es₀ c (.put body) ∧
      T = rankTargets C (tableRun C N es₀).fleet (bodyKeyFromBytes body) ∧ T ≠ [] ∧
      StoredOn (tableRun C N es).io.sent es T (fun _ => .put body) .put told := by
  rw [tableRun_eq h] at hp ⊢
  obtain ⟨es₀, body, T, told, htold, ⟨⟨es₁, rfl⟩, hranked, hsome⟩, hstored⟩ :=
    (stores_run es).acked c p hp
  refine ⟨es₀, body, T, told, htold, ⟨es₁, rfl⟩, ?_, hsome, hstored⟩
  rw [tableRun_front h]
  exact hranked

/-- What the run acknowledged of its streams. -/
theorem commit_acked (h : Run.AllSteps (tableStep C N) (fun s e => e.own s.io = true) (State.init C) es)
    {c : UInt32} {p : Option Digest} (hp : (c, .wcommit p) ∈ (tableRun C N es).up) :
    ∃ es₀ digest T, ∃ wids : ℕ → UInt8, ∃ told, p = some told ∧
      (∃ es₁ wid, RequestAt es es₁ c (.wcommit wid)) ∧
      (∃ c total, RequestAt es es₀ c (.wopen digest total)) ∧
      T = rankTargets C (tableRun C N es₀).fleet digest ∧ T ≠ [] ∧
      StoredOn (tableRun C N es).io.sent es T (fun i => .wcommit (wids i)) .wcommit told := by
  rw [tableRun_eq h] at hp ⊢
  obtain ⟨es₁, wid, told, htold, hon, hstored⟩ := (stores_run es).committed c p hp
  obtain ⟨es₀, digest, hranked⟩ := streams_run _ hon.inUse
  obtain ⟨c₀, total, hopen⟩ := hranked.request
  obtain ⟨es₂, rfl⟩ := hopen.trans hon.request
  refine ⟨es₀, digest, _, _, told, htold, ⟨es₁, wid, hon.request⟩, ⟨c₀, total, es₂, rfl⟩, ?_,
    hranked.some, hstored⟩
  rw [tableRun_front h]
  exact hranked.ranked

/-- A join that was closed is not in hand after an event. -/
theorem closed_step (hs : s.Wf) (hlt : g < s.io.nextGen) (h : s.io.join? g = none) (e : EcEvent) :
    (step C N s e).io.join? g = none := by
  cases hj : (step C N s e).io.join? g with
  | none => rfl
  | some j =>
    obtain ⟨j₀, hj₀, -⟩ := (does_step (C := C) (N := N) hs e).io.like g hlt j hj
    rw [h] at hj₀
    cases hj₀

theorem closed_run (es₁ : List EcEvent) (hlt : g < (runOf C N es₀).io.nextGen)
    (h : (runOf C N es₀).io.join? g = none) : (runOf C N (es₀ ++ es₁)).io.join? g = none := by
  induction es₁ generalizing es₀ with
  | nil => rwa [List.append_nil]
  | cons e es₁ ih =>
    have hs := wf_runOf (C := C) (N := N) es₀
    have hnext : (runOf C N es₀).io.nextGen ≤ (runOf C N (es₀ ++ [e])).io.nextGen := by
      rw [runOf_snoc]
      exact (does_step hs e).io.nextGen
    rw [← List.singleton_append, ← List.append_assoc]
    refine ih (Nat.lt_of_lt_of_le hlt hnext) ?_
    rw [runOf_snoc]
    exact closed_step hs hlt h e

/-- **A join is closed in the end**, when its tickets have been spent. -/
theorem ends_run (es₁ : List EcEvent) (hlt : g < (runOf C N es₀).io.nextGen)
    (hown : Run.AllSteps (tableStep C N) (fun s e => e.own s.io = true) (runOf C N es₀) es₁)
    (h : ∀ j, (runOf C N es₀).io.join? g = some j → j.left ≤
      Run.countSteps (tableStep C N) (fun s e => about s.io e = some g) (runOf C N es₀) es₁) :
    (runOf C N (es₀ ++ es₁)).io.join? g = none := by
  have hwait := (account (C := C) (N := N) es₀).2
  have hs := wf_runOf (C := C) (N := N) es₀
  induction es₁ generalizing es₀ with
  | nil =>
    rw [List.append_nil]
    cases hj : (runOf C N es₀).io.join? g with
    | none => rfl
    | some j =>
      -- a join in hand awaits an answer
      have hw := hwait g j hj (by simp)
      have hc := hw.count
      have hpos := List.length_pos_of_ne_nil hw.some
      have hleft := h j hj
      rw [Run.countSteps, Join.left] at hleft
      omega
  | cons e es₁ ih =>
    have hdoes := does_step (C := C) (N := N) hs e
    have hstep : tableStep C N (runOf C N es₀) e = runOf C N (es₀ ++ [e]) := by
      rw [tableStep_eq hs.sound hown.1, runOf_snoc]
    have hrest := hown.2
    rw [hstep] at hrest
    have hnext : (runOf C N es₀).io.nextGen ≤ (runOf C N (es₀ ++ [e])).io.nextGen := by
      rw [runOf_snoc]
      exact hdoes.io.nextGen
    rw [← List.singleton_append, ← List.append_assoc]
    refine ih (Nat.lt_of_lt_of_le hlt hnext) hrest (fun j' hj' => ?_) (account _).2 (wf_runOf _)
    rw [runOf_snoc] at hj'
    obtain ⟨j, hj, -⟩ := hdoes.io.like g hlt j' hj'
    have hcount := h j hj
    rw [Run.countSteps, hstep] at hcount
    by_cases habout : about (runOf C N es₀).io e = some g
    · have hless := ends_step hs.sound hwait hj habout j' hj'
      rw [decide_eq_true habout, if_pos rfl] at hcount
      omega
    · have hsame := (hdoes.io.keeps g hlt (Ne.symm habout)).1
      obtain rfl : j' = j := Option.some.inj ((hj'.symm.trans hsame).trans hj)
      rw [decide_eq_false habout, if_neg (by simp), Nat.zero_add] at hcount
      exact hcount

/-- **Every request is answered once** in a run whose answers meet their own. -/
theorem answers_once (C : Config) (N : ℕ → Bool) (es : List EcEvent)
    (h : Run.AllSteps (tableStep C N) (fun s e => e.own s.io = true) (State.init C) es) :
    AnswersOnce C N es := by
  have hrun := tableRun_eq h
  have hrequest : ∀ es₀ c req, RequestAt es es₀ c req → tableRun C N es₀ = runOf C N es₀ := by
    rintro es₀ c req ⟨es₁, rfl⟩
    exact tableRun_front h
  refine ⟨fun c => ?_, fun g j hj => ?_, fun es₀ es₁ heq g j hj hleft => ?_, fun c p hp => ?_,
    fun c p hp => ?_, fun es₀ es₁ heq g hlt hno => ?_, fun es₀ e es₁ heq g j hj => ?_⟩
  · rw [hrun]
    exact (account es).1 c
  · rw [hrun] at hj ⊢
    exact ((account es).2 g j hj (by simp)).some
  · subst heq
    have hpre := tableRun_front h
    have hown := (Run.allSteps_append.mp h).2
    change Run.AllSteps _ _ (tableRun C N es₀) es₁ at hown
    rw [hpre] at hj hleft hown
    rw [hrun]
    refine ends_run es₁ (Fanout.join?_lt (wf_runOf es₀).sound hj) hown fun j' hj' => ?_
    rw [← Option.some.inj (hj.symm.trans hj')]
    exact hleft
  · exact put_acked h hp
  · rw [hrun] at hp ⊢
    obtain ⟨es₁, wid, told, hp, hon, hstored⟩ := (stores_run es).committed c p hp
    obtain ⟨es₀, digest, hranked⟩ := streams_run _ hon.inUse
    obtain ⟨c₀, total, hopen⟩ := hranked.request
    have hopened := hrequest _ _ _ (hopen.trans hon.request)
    refine ⟨es₁, wid, told, hp, hon.request, ?_⟩
    rw [hrequest _ _ _ hon.request]
    refine ⟨hstored, es₀, c₀, digest, total, hopen, ?_, hranked.some⟩
    rw [hopened]
    exact hranked.ranked
  · subst heq
    rw [tableRun_front h] at hlt hno
    rw [hrun]
    exact closed_run es₁ hlt hno
  · subst heq
    have hpre := tableRun_front h
    have hsplit : es₀ ++ e :: es₁ = (es₀ ++ [e]) ++ es₁ := by
      rw [List.append_assoc, List.singleton_append]
    have hnext : tableRun C N (es₀ ++ [e]) = runOf C N (es₀ ++ [e]) :=
      tableRun_front (hsplit ▸ h)
    rw [hpre] at hj ⊢
    rw [hnext, runOf_snoc]
    have hs := wf_runOf (C := C) (N := N) es₀
    by_cases habout : about (runOf C N es₀).io e = some g
    · obtain ⟨k, io, resp, hk, rfl⟩ := exists_spent habout
      exact .inr ⟨k, (spends_spec hk).mem_tickets, question_of_spends hk⟩
    · have hlt := Fanout.join?_lt hs.sound hj
      exact .inl (((does_step hs e).io.keeps g hlt (Ne.symm habout)).1.trans hj)

end Runs

/-! ## A late answer -/

/-- A router of two members that keeps two replicas. -/
def twoReplicas : Config where
  replicas := 2
  pos := Nat.two_pos
  members := 2
  memberCap := 16
  joinCap := 32
  pendingCap := 64
  streamCap := 8

/-- A store of `abc` that both members acknowledge. -/
theorem answers_once_abc :
    (7, .put (some abcDigest)) ∈ (tableRun twoReplicas (fun _ => true)
      [.request 7 (.put abc), .answer 0 0 (.put (some abcDigest)),
        .answer 1 1 (.put (some abcDigest))]).up ∧
    AnswersOnce twoReplicas (fun _ => true)
      [.request 7 (.put abc), .answer 0 0 (.put (some abcDigest)),
        .answer 1 1 (.put (some abcDigest))] :=
  ⟨by decide +kernel, answers_once twoReplicas (fun _ => true)
    [.request 7 (.put abc), .answer 0 0 (.put (some abcDigest)), .answer 1 1 (.put (some abcDigest))]
    (by decide +kernel)⟩

/-- A store was given up, and the second member's answer to it is awaited still:
since then `i` reads came and went. -/
structure Late (i : ℕ) (s : State) : Prop where
  joins : s.io.joins = []
  nextGen : s.io.nextGen = i + 1
  awaited : s.io.awaited = [⟨1, 1, 0⟩]
  nextCid : s.io.nextCid = i + 2
  lastId : s.io.lastId = i + 2
  ids : s.io.ids 1 = 2
  slots : s.io.slots 0 = 0
  fleet : s.fleet = [0, 1]
  quiet : s.quiet = fun _ => false

/-- A read, and the first member's answer to it. -/
def readOnce (i : ℕ) : List EcEvent := [.request 2 (.head abcDigest), .answer 0 (i + 2) (.head (some 3))]

/-- A read and its answer leave the answer awaited where it was. -/
theorem late_read {i : ℕ} {s : State} (h : Late i s) (hi : i + 3 < Fanout.idRange) :
    Late (i + 1) (Run.run (tableStep twoReplicas fun _ => true) s (readOnce i)) := by
  have hrank : quietLast twoReplicas (fun _ => false) (rankTargets twoReplicas [0, 1] abcDigest)
      = [0, 1] := by decide +kernel
  have hid : (i + 2 + 1) % Fanout.idRange = i + 3 := Nat.mod_eq_of_lt hi
  have hread : tableStep twoReplicas (fun _ => true) s (.request 2 (.head abcDigest)) =
      { s with
        upCid := 2
        io := { s.io with
          joins := [(i + 1, { op := .head, need := 1, targets := [0, 1], upCid := 2
                              digest := abcDigest })]
          nextGen := i + 2, awaited := [⟨1, 1, 0⟩, ⟨i + 2, 0, i + 1⟩], nextCid := i + 3
          tries := s.io.tries + 1, sent := s.io.sent ++ [⟨i + 2, 0, .head abcDigest⟩]
          slots := Function.update s.io.slots (i + 1) 0
          ids := Function.update s.io.ids (i + 2) (i + 3), lastId := i + 3 } } := by
    simp only [tableStep, step, handleRequest, handleRead, h.fleet, h.quiet, hrank]
    simp [Fanout.start, Fanout.freeSlot, advanceRead, Fanout.join?, Fanout.ask, Fanout.freshId,
      Join.question, hid, h.joins, h.nextGen, h.awaited, h.nextCid, h.lastId, h.ids, twoReplicas,
      List.range_succ]
  have hquiet : Function.update s.quiet 0 false = fun _ => false := by
    rw [h.quiet]
    exact Function.update_eq_self 0 _
  have hanswer : Run.run (tableStep twoReplicas fun _ => true) s (readOnce i) =
      { s with
        upCid := 2, up := s.up ++ [(2, .head (some 3))], quiet := fun _ => false
        io := { s.io with
          joins := [], nextGen := i + 2, awaited := [⟨1, 1, 0⟩], nextCid := i + 3
          tries := s.io.tries + 1, sent := s.io.sent ++ [⟨i + 2, 0, .head abcDigest⟩]
          slots := Function.update s.io.slots (i + 1) 0
          ids := Function.update s.io.ids (i + 2) (i + 3), lastId := i + 3 } } := by
    rw [readOnce, Run.run_cons, hread, Run.run_cons, Run.run_nil]
    simp only [tableStep, hear, EcEvent.tableSpends, Fanout.settleId, hquiet]
    simp [Fanout.holder, answerJoin, Fanout.join?, applyJoinResponse, answerRead, BodyResp.op,
      State.freeJoin, State.emit, Fanout.close]
  rw [hanswer]
  exact ⟨rfl, rfl, rfl, rfl, rfl, by simp [h.ids], by simp [h.slots], h.fleet, rfl⟩

theorem late_reads {s : State} (h : Late 0 s) (n : ℕ) (hn : n + 3 ≤ Fanout.idRange) :
    Late n (Run.run (tableStep twoReplicas fun _ => true) s ((List.range n).flatMap readOnce)) := by
  induction n with
  | zero => exact h
  | succ n ih =>
    rw [List.range_succ, List.flatMap_append, Run.run_append, List.flatMap_singleton]
    exact late_read (ih (by omega)) (by omega)

/-- **A store is opened where the one given up was**, under the same stamp, and the
late answer is counted for it. -/
theorem late_store {n : ℕ} {s : State} (h : Late n s) (hn : n + 1 = Fanout.stampRange)
    (hid : n + 4 < Fanout.idRange) :
    ∃ s' j, tableStep twoReplicas (fun _ => true) s (.request 7 (.put [2])) = s' ∧
      s'.io.join? (n + 1) = some j ∧
      s'.io.tickets (n + 1) = [⟨n + 2, 0, n + 1⟩, ⟨n + 3, 1, n + 1⟩] ∧
      (tableStep twoReplicas (fun _ => true) s' (.answer 1 1 (.put (some abcDigest)))).io.join? (n + 1)
        = some { j with ack := j.ack + 1, digest := abcDigest, digestSet := true } ∧ j.digestSet = false := by
  have hrank : rankTargets twoReplicas [0, 1] (bodyKeyFromBytes [2]) = [0, 1] := by decide +kernel
  have hfirst : (n + 2 + 1) % Fanout.idRange = n + 3 := Nat.mod_eq_of_lt (by omega)
  have hsecond : (n + 3 + 1) % Fanout.idRange = n + 4 := Nat.mod_eq_of_lt hid
  have hfits : ¬ maxBody < 1 := by decide
  have hstore : tableStep twoReplicas (fun _ => true) s (.request 7 (.put [2])) =
      { s with
        upCid := 7
        io := { s.io with
          joins := [(n + 1, { op := .put, need := 2, upCid := 7 })]
          nextGen := n + 2, awaited := [⟨1, 1, 0⟩, ⟨n + 2, 0, n + 1⟩, ⟨n + 3, 1, n + 1⟩]
          nextCid := n + 4, tries := s.io.tries + 1 + 1
          sent := s.io.sent ++ [⟨n + 2, 0, .put [2]⟩] ++ [⟨n + 3, 1, .put [2]⟩]
          slots := Function.update s.io.slots (n + 1) 0
          ids := Function.update (Function.update s.io.ids (n + 2) (n + 3)) (n + 3) (n + 4)
          lastId := n + 4 } } := by
    simp only [tableStep, step, handleRequest, handlePut, h.fleet, hrank]
    simp [Fanout.start, Fanout.freeSlot, askTargets, Fanout.askAll, Fanout.join?, Fanout.ask,
      Fanout.freshId, hfirst, hsecond, h.joins, h.nextGen, h.awaited, h.nextCid, h.lastId, h.ids,
      twoReplicas, List.range_succ, hfits, failedAll, State.setJoin, Fanout.modify]
  refine ⟨_, { op := .put, need := 2, upCid := 7 }, hstore, ?_, ?_, ?_, rfl⟩
  · simp [Fanout.join?]
  · simp [Fanout.tickets]
  have hstamp : Fanout.stamp (n + 1) = Fanout.stamp 0 := by
    rw [Fanout.stamp, Fanout.stamp, hn, Nat.add_mod_left]
  have hquiet : Function.update s.quiet 1 false = fun _ => false := by
    rw [h.quiet]
    exact Function.update_eq_self 1 _
  simp only [tableStep, hear, EcEvent.tableSpends, Fanout.settleId, hquiet]
  simp [Fanout.holder, answerJoin, Fanout.join?, applyJoinResponse, answerPut, BodyResp.op, h.slots, hstamp,
    Join.noteDigest, respDigest, State.setJoin, Fanout.modify]

/-- A store the first member refuses is given up. -/
theorem late_start : Late 0 (tableRun twoReplicas (fun _ => true)
    [.request 1 (.put abc), .answer 0 0 (.nak errIo)]) := by
  refine ⟨by decide +kernel, by decide +kernel, by decide +kernel, by decide +kernel,
    by decide +kernel, by decide +kernel, by decide +kernel, by decide +kernel, ?_⟩
  funext t
  have hquiet : ∀ i < 256, (tableRun twoReplicas (fun _ => true)
      [.request 1 (.put abc), .answer 0 0 (.nak errIo)]).quiet (UInt8.ofNat i) = false := by
    decide +kernel
  have ht := hquiet t.toNat t.toNat_lt
  rwa [UInt8.ofNat_toNat] at ht

/-- **A late answer counts for another store.** A store is refused by the first
member; after 65535 reads another store has its place and its stamp, and the second
member's answer to the first store is counted for it. -/
theorem late_answer_counts :
    ¬ ∀ (C : Config) (N : ℕ → Bool) (es : List EcEvent), AnswersOnce C N es := by
  intro hall
  obtain ⟨n, hn⟩ : ∃ n, n + 1 = Fanout.stampRange :=
    ⟨_, Nat.sub_add_cancel Fanout.stampRange_pos⟩
  have hid : n + 4 < Fanout.idRange := by
    have hlt := Fanout.stampRange_lt_idRange
    omega
  obtain ⟨s', j, hs', hj, htickets, hnext, hset⟩ :=
    late_store (late_reads late_start n (by omega)) hn hid
  have hrun : tableRun twoReplicas (fun _ => true) ([.request 1 (.put abc), .answer 0 0 (.nak errIo)]
      ++ (List.range n).flatMap readOnce ++ [.request 7 (.put [2])]) = s' := by
    rw [tableRun, Run.run_append, Run.run_append]
    exact hs'
  -- the answer is to the first question of the run, and the join asked two others
  rcases (hall twoReplicas (fun _ => true) _).kept _ (.answer 1 1 (.put (some abcDigest))) [] rfl
    (n + 1) j (by rw [hrun]; exact hj) with hkept | ⟨k, hk, hq⟩
  · rw [tableRun, Run.run_append, ← tableRun, hrun] at hkept
    have hsame := Option.some.inj (hnext.symm.trans hkept)
    rw [← hsame] at hset
    cases hset
  · rw [hrun, htickets] at hk
    have hcid : 1 = k.cid := Option.some.inj hq
    simp only [List.mem_cons, List.not_mem_nil, or_false] at hk
    rcases hk with rfl | rfl
    · dsimp only at hcid
      omega
    · dsimp only at hcid
      omega

end Loam.BodyRouter

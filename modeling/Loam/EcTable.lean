import Loam.EcRuns

/-!
# Every erasure-coded request is answered once

Over a run, the answers given and owed under a correlation id are the requests
taken under it; every join that owes one, and the one that holds the assembly,
awaits an answer; and it closes as the last answer it can take comes or times
out (`answered_once`). That is so of a run whose answers meet their own in the
router's tables, and in which no member answers a read with a record the assembly
turns away. A record of that kind – a blob that does not decode, a header that does
not fit – is counted neither as a shard nor as a failure, so a read can spend every
ticket and neither be answered nor let the assembly go (`read_never_answered`).
-/

namespace Loam

section Table

variable (C : EcConfig) (net : ℕ → Bool)

/-- Meet an event, by what the tables tell. -/
def ecTableStep (s : EcState) (e : EcEvent) : EcState :=
  match e with
  | .answer .. | .oversizeAnswer .. | .expire _ =>
    match e.tableSpends s.io with
    | none => s
    | some (k, io, resp) =>
      match io.holder k.join with
      | none => { s with io := io }
      | some g => answerJoin C net { s with io := io } g k.peer resp
  | _ => ecStep C net s e

/-- The state a router that was just made reaches. -/
def ecTableRun (es : List EcEvent) : EcState := Run.run (ecTableStep C net) (EcState.init C) es

end Table

section Runs

variable {C : EcConfig} {N : ℕ → Bool} {s : EcState} {e : EcEvent} {g : ℕ} {j : EcJoin}
  {es es₀ es₁ : List EcEvent}

/-- **An event that meets its own does what it should.** -/
theorem ecTableStep_eq (hs : s.io.Sound) (hown : e.own s.io = true) :
    ecTableStep C N s e = ecStep C N s e := by
  have hanswer :
      (match e.tableSpends s.io with
        | none => s
        | some (k, io, resp) =>
          match io.holder k.join with
          | none => { s with io := io }
          | some g => answerJoin C N { s with io := io } g k.peer resp) =
      match e.spends s.io with
        | none => s
        | some (k, io, resp) => answerJoin C N { s with io := io } k.join k.peer resp := by
    obtain ⟨ht, hk⟩ | ⟨k, io, resp, ht, hk, hh | ⟨hh, hj⟩⟩ := EcEvent.own_cases hs hown
    · rw [ht, hk]
    · rw [ht, hk]
      dsimp only
      rw [hh]
    · -- no join is there, so the ticket's is not in hand
      rw [ht, hk]
      dsimp only
      rw [hh, answerJoin]
      dsimp only
      rw [hj]
  cases e with
  | answer t cid resp => exact hanswer
  | oversizeAnswer t cid => exact hanswer
  | expire cid => exact hanswer
  | _ => rfl

/-- A run whose answers meet their own. -/
abbrev OwnRun (C : EcConfig) (N : ℕ → Bool) (s : EcState) (es : List EcEvent) : Prop :=
  Run.AllSteps (ecTableStep C N) (fun s e => e.own s.io = true) s es

theorem ecTableStep_agrees (s : EcState) (e : EcEvent) (hs : s.Wf C) (hown : e.own s.io = true) :
    ecTableStep C N s e = ecStep C N s e ∧ (ecTableStep C N s e).Wf C := by
  rw [ecTableStep_eq hs.sound hown]
  exact ⟨rfl, ecStep_wf hs e⟩

/-- A run whose answers meet their own is a run of joins that are told apart. -/
theorem ecTableRun_eq (h : OwnRun C N (EcState.init C) es) : ecTableRun C N es = ecRun C N es :=
  Run.run_agree ecTableStep_agrees (wf_init C) h

theorem ecTableRun_front (h : OwnRun C N (EcState.init C) (es₀ ++ es₁)) :
    ecTableRun C N es₀ = ecRun C N es₀ :=
  ecTableRun_eq (Run.allSteps_append.mp h).1

/-- The tickets of a join a run spends. -/
def spentFor (C : EcConfig) (N : ℕ → Bool) (g : ℕ) : EcState → List EcEvent → ℕ
  | _, [] => 0
  | s, e :: es => e.spendsOf g s + spentFor C N g (ecTableStep C N s e) es

/-- A run whose events all meet their own and are all counted. -/
abbrev CountedRun (C : EcConfig) (N : ℕ → Bool) (s : EcState) (es : List EcEvent) : Prop :=
  Run.AllSteps (ecTableStep C N) (fun s e => e.own s.io = true ∧ e.Counted C s) s es

theorem run_inv (hs : s.Inv C) (h : CountedRun C N s es) :
    (Run.run (ecTableStep C N) s es).Inv C := by
  refine Run.invariant (I := EcState.Inv C) (fun s e hs hok => ?_) hs h
  rw [ecTableStep_eq hs.wf.sound hok.1]
  exact ecStep_inv hs hok.2

/-- **Each request is answered or owed**, and once. -/
theorem run_owed (hs : s.Wf C) (h : OwnRun C N s es) (c : UInt32) :
    (Run.run (ecTableStep C N) s es).owed c = s.owed c + requests c es := by
  induction es generalizing s with
  | nil => rfl
  | cons e es ih =>
    obtain ⟨heq, hwf⟩ := ecTableStep_agrees s e hs h.1
    rw [Run.run_cons, ih hwf h.2, heq, ecStep_owed hs e, Nat.add_assoc]
    rfl

theorem run_closed (hs : s.Wf C) (hlt : g < s.io.nextGen) (hn : s.io.join? g = none)
    (h : OwnRun C N s es) : (Run.run (ecTableStep C N) s es).io.join? g = none := by
  induction es generalizing s with
  | nil => exact hn
  | cons e es ih =>
    obtain ⟨hn', hlt'⟩ := ecStep_closed (N := N) (e := e) hs hlt hn
    obtain ⟨heq, hwf⟩ := ecTableStep_agrees s e hs h.1
    rw [← heq] at hn' hlt'
    exact ih hwf hlt' hn' h.2

/-- **A join closes** by the time it has taken the answers it can. -/
theorem run_left (hs : s.Inv C) (hj : s.io.join? g = some j) (hi : ¬j.Inert)
    (h : CountedRun C N s es) (hspent : s.left g ≤ spentFor C N g s es) :
    (Run.run (ecTableStep C N) s es).io.join? g = none := by
  induction es generalizing s j with
  | nil =>
    -- a join in hand can take an answer
    have hc := hs.counts g j hj
    have hpos : 0 < s.left g := by
      rw [EcState.left, hj, Option.map_some, Option.getD_some, EcJoin.left]
      split
      · next hk =>
        have := ((EcJoin.counts_head hk).mp hc).2
        omega
      · exact hc.pos hi
    exact absurd hspent (Nat.not_le.mpr hpos)
  | cons e es ih =>
    obtain ⟨hok, h⟩ := h
    obtain ⟨heq, hwf⟩ := ecTableStep_agrees (N := N) s e hs.wf hok.1
    by_cases hin : (ecStep C N s e).io.join? g = none
    · have hlt : g < (ecStep C N s e).io.nextGen :=
        Nat.lt_of_lt_of_le (Fanout.join?_lt hs.wf.sound hj) (ecStep_nextGen hs.wf e)
      rw [← heq] at hin hlt
      show (Run.run (ecTableStep C N) (ecTableStep C N s e) es).io.join? g = none
      exact run_closed hwf hlt hin (h.mono fun _ _ h => h.1)
    · obtain ⟨hleft, j', hj', hi'⟩ := ecStep_left hs hok.2 hj hi hin
      rw [spentFor] at hspent
      rw [← heq] at hleft hj'
      exact ih (heq ▸ ecStep_inv hs hok.2) hj' hi' h (by omega)

/-- **Every erasure-coded request is answered once**, over every run whose
events all meet their own and are all counted. The answers given and owed under an id are the requests
taken; a join that owes one or holds the assembly awaits an answer and closes
with the last it can take; and the assembly is busy only while such a join
holds it, so that once no answer is awaited every request has been answered and
the assembly is free. -/
theorem answered_once (C : EcConfig) (N : ℕ → Bool) (es : List EcEvent)
    (h : CountedRun C N (EcState.init C) es) :
    (∀ c, (ecTableRun C N es).answered c + (ecTableRun C N es).waiting c = requests c es) ∧
      (∀ g j, (ecTableRun C N es).io.join? g = some j →
        j.kind.client = true ∨ j.kind.gathers = true →
        (ecTableRun C N es).io.tickets g ≠ [] ∧
          ∀ es', CountedRun C N (ecTableRun C N es) es' →
            (ecTableRun C N es).left g ≤ spentFor C N g (ecTableRun C N es) es' →
            (Run.run (ecTableStep C N) (ecTableRun C N es) es').io.join? g = none) ∧
      ((ecTableRun C N es).asm.busy = true →
        ∃ g j, (ecTableRun C N es).io.join? g = some j ∧ j.kind.gathers = true) ∧
      ((ecTableRun C N es).io.awaited = [] →
        (∀ c, (ecTableRun C N es).answered c = requests c es) ∧
          (ecTableRun C N es).asm.busy = false) := by
  have hinv := run_inv (inv_init C) h
  have howed := fun c => run_owed (wf_init C) (h.mono fun _ _ h => h.1) c
  change ∀ c, (ecTableRun C N es).owed c = _ at howed
  change (ecTableRun C N es).Inv C at hinv
  generalize ecTableRun C N es = s at hinv howed
  have hawaits : ∀ g j, s.io.join? g = some j → j.kind.client = true ∨ j.kind.gathers = true →
      s.io.tickets g ≠ [] := fun g j hj hk =>
    List.ne_nil_of_length_pos ((hinv.counts g j hj).pos (not_inert hk))
  have hbusy : s.asm.busy = true → ∃ g j, s.io.join? g = some j ∧ j.kind.gathers = true :=
    fun hb => ⟨s.asm.join, hinv.wf.busy hb⟩
  have hrequests : ∀ c, s.answered c + s.waiting c = requests c es := by
    intro c
    have h0 : (EcState.init C).owed c = 0 := rfl
    have := howed c
    rw [h0, Nat.zero_add] at this
    exact this
  refine ⟨hrequests, fun g j hj hk => ⟨hawaits g j hj hk, fun es' h' hspent =>
    run_left hinv hj (not_inert hk) h' hspent⟩, hbusy, fun hnil => ?_⟩
  have hnone : ∀ g j, s.io.join? g = some j → ¬(j.kind.client = true ∨ j.kind.gathers = true) := by
    intro g j hj hk
    refine hawaits g j hj hk ?_
    rw [Fanout.tickets, hnil]
    rfl
  refine ⟨fun c => ?_, ?_⟩
  · -- no join owes an answer
    have hwait : s.waiting c = 0 := by
      refine List.countP_eq_zero.mpr fun q hq => ?_
      have := hnone q.1 q.2 (Fanout.join?_of_mem hinv.wf.sound hq)
      simp only [not_or] at this
      simp [this.1]
    have := hrequests c
    omega
  · by_contra hb
    obtain ⟨g, j, hj, hg⟩ := hbusy (by simpa using hb)
    exact hnone g j hj (.inr hg)

/-- An event that brings no record a read could be brought is counted. -/
theorem counted_of_ne_get (h : ∀ t cid payload, e ≠ .answer t cid (.get payload)) :
    e.Counted C s := by
  intro k io payload hsp
  unfold EcEvent.spends at hsp
  split at hsp
  · next t cid resp =>
    obtain ⟨p, -, heq⟩ := Option.map_eq_some_iff.mp hsp
    cases heq
    exact absurd rfl (h t cid payload)
  · obtain ⟨p, -, heq⟩ := Option.map_eq_some_iff.mp hsp
    cases heq
  · obtain ⟨p, -, heq⟩ := Option.map_eq_some_iff.mp hsp
    cases heq
  · cases hsp

/-- A read whose members do not have the body, or do not answer. -/
theorem answered_once_missing :
    (ecTableRun threeMembers (fun _ => true) [.request 7 (.get abcDigest), .answer 2 0 (.nak errNotFound),
      .answer 0 1 (.nak errNotFound), .expire 2]).answered 7 = 1 ∧
    (ecTableRun threeMembers (fun _ => true) [.request 7 (.get abcDigest), .answer 2 0 (.nak errNotFound),
      .answer 0 1 (.nak errNotFound), .expire 2]).asm.busy = false := by
  have h := (answered_once threeMembers (fun _ => true) [.request 7 (.get abcDigest),
    .answer 2 0 (.nak errNotFound), .answer 0 1 (.nak errNotFound), .expire 2]
    ⟨⟨rfl, counted_of_ne_get (by simp)⟩, ⟨by decide +kernel, counted_of_ne_get (by simp)⟩,
      ⟨by decide +kernel, counted_of_ne_get (by simp)⟩,
      ⟨by decide +kernel, counted_of_ne_get (by simp)⟩, trivial⟩).2.2.2 (by decide +kernel)
  exact ⟨h.1 7, h.2⟩

/-- **A read can go unanswered for good.** Every member answers it with an empty
blob: no answer is awaited any more, none went upstream, and the assembly stays
busy. -/
theorem read_never_answered :
    ¬∀ (C : EcConfig) (N : ℕ → Bool) (es : List EcEvent), (ecTableRun C N es).io.awaited = [] →
      (∀ c, (ecTableRun C N es).answered c = requests c es) ∧ (ecTableRun C N es).asm.busy = false := by
  intro h
  have h := h threeMembers (fun _ => true) [.request 7 (.get abcDigest), .answer 2 0 (.get (some [])),
    .answer 0 1 (.get (some [])), .answer 1 2 (.get (some []))] (by decide +kernel)
  exact absurd (h.1 7) (by decide +kernel)

end Runs

end Loam

import Loam.Committed

/-!
# Every forwarded mutation is answered once

The `k`-th answer to a commit is read as the answer to the `k`-th mutation
forwarded. It is that mutation's, and says what became of it, as long as the
results come in the order of the mutations: while a mutation is unanswered,
every result drained is the commit of the oldest one, and its answer finds the
channel ready (`Orderly`). The counter is then the number of mutations without
an answer.

The stream promises none of it. A proposal can be refused, and a refused one's
`Aborted` record is skipped without an answer, so that the next commit is
answered in its place (`aborted_shifts_answers`); a commit of another member, or
one that is delivered again, is counted as ours.
-/

namespace Loam

namespace Replicated

variable {s : Replicated} {e : ReplicatedEvent}

/-- **Every mutation is answered once**: the `k`-th answer is that of the `k`-th
mutation and says what became of it, every mutation whose result has come is
answered, and the counter is of those that are not. -/
structure AnswersOnce (s : Replicated) : Prop where
  /-- The answers are in the order of the mutations, each with its own outcome. -/
  own : ∀ k r, s.replies[k]? = some r → r.origin = some k ∧ s.outcome k = some r.verdict
  answered : ∀ n v, s.outcome n = some v → n < s.replies.length
  counter : s.outstanding + s.replies.length = s.forwarded.length

/-- What a record says of a mutation of ours is so: the mutation was forwarded,
and a commit carries what was forwarded. -/
def Genuine (s : Replicated) : ReplicatedEvent → Prop
  | .record (.committed (some n) plane _ inner) .. =>
    plane = .namespacePlane ∧ s.forwarded[n]? = some inner
  | .record (.aborted (some n)) .. => n < s.forwarded.length
  | _ => True

/-- A commit is answered as soon as it is drained. -/
def answersNow : CommitLog → Option Verdict → Bool
  | .lost, _ | .failed, _ => true
  | .durable, tried | .absent, tried => tried.isSome
  | .staged, _ => false

/-- The result that is drained, if one is, is the commit of the oldest mutation
without an answer, and its answer finds the channel ready; without such a
mutation it is one that was answered, or none of ours. -/
def Orderly (s : Replicated) : ReplicatedEvent → Prop
  | .record (.aborted (some n)) .. => s.staged = none → n < s.replies.length
  | .record (.committed origin plane _ inner) log tried _ =>
    s.staged = none → counted plane inner = true → 0 < s.outstanding →
      origin = some s.replies.length ∧ (answersNow log tried = true → s.owed = false)
  | _ => True

instance : DecidablePred s.Genuine := fun e => by
  unfold Genuine
  split <;> infer_instance

instance : DecidablePred s.Orderly := fun e => by
  unfold Orderly
  split <;> infer_instance

/-! ## The answer of a commit -/

/-- The commit is answered next; one that owes no answer is of a mutation that
has its own, or of none. -/
def Due (s : Replicated) (live : Bool) (origin : Option ℕ) : Prop :=
  (live = true → origin = some s.replies.length ∧ 0 < s.outstanding) ∧
    (live = false → ∀ n, origin = some n → n < s.replies.length)

/-- Only the counter and the histories matter. -/
theorem AnswersOnce.congr {s' : Replicated} (h : s.AnswersOnce)
    (ho : s'.outstanding = s.outstanding) (hf : s'.forwarded = s.forwarded)
    (hs : s'.settled = s.settled) (hr : s'.replies = s.replies) : s'.AnswersOnce := by
  have houtcome : ∀ n, s'.outcome n = s.outcome n := fun n => by rw [outcome, hs, outcome]
  refine ⟨fun k r hk => ?_, fun n v hn => ?_, ?_⟩
  · rw [houtcome]
    exact h.own k r (hr ▸ hk)
  · rw [hr]
    exact h.answered n v (houtcome n ▸ hn)
  · rw [ho, hr, hf]
    exact h.counter

/-- The result of a mutation that is answered has come. -/
theorem AnswersOnce.isSome_outcome (h : s.AnswersOnce) {n : ℕ} (hn : n < s.replies.length) :
    (s.outcome n).isSome = true := by
  obtain ⟨-, hr⟩ := h.own n _ (List.getElem?_eq_getElem hn)
  rw [hr]
  rfl

/-- A result that came before changes nothing. -/
theorem AnswersOnce.note_eq (h : s.AnswersOnce) {origin : Option ℕ}
    (ho : ∀ n, origin = some n → n < s.replies.length) (v : Verdict) : s.note origin v = s := by
  cases origin with
  | none => rfl
  | some n => exact if_pos (h.isSome_outcome (ho n rfl))

/-- The outcome that is noted is the mutation's, and no other's. -/
theorem outcome_append (s : Replicated) (n k : ℕ) (v : Verdict) :
    (s.settled ++ [(n, v)]).lookup k = (s.outcome k).or (if k = n then some v else none) := by
  rw [List.lookup_append]
  congr 1
  by_cases hk : k = n
  · rw [hk, if_pos rfl]
    exact List.lookup_cons_self
  · rw [if_neg hk]
    rw [List.lookup_cons, beq_eq_false_iff_ne.mpr hk]
    rfl

/-- **The result of the oldest mutation is its answer.** -/
theorem AnswersOnce.finish (h : s.AnswersOnce) {live : Bool} {origin : Option ℕ}
    (hd : s.Due live origin) (howed : live = true → s.owed = false) (v : Verdict) (took : Bool) :
    (s.finish live origin v took).AnswersOnce := by
  cases live with
  | false =>
    show (s.note origin v).AnswersOnce
    rw [h.note_eq (hd.2 rfl)]
    exact h
  | true =>
    obtain ⟨rfl, hpos⟩ := hd.1 rfl
    have hnew : s.outcome s.replies.length = none :=
      Option.eq_none_iff_forall_ne_some.mpr fun v hv => Nat.lt_irrefl _ (h.answered _ v hv)
    have hnote : s.note (some s.replies.length) v
        = { s with settled := s.settled ++ [(s.replies.length, v)] } := by
      simp only [note, hnew, Option.isSome_none, Bool.false_eq_true, if_false]
    have hfinish : s.finish true (some s.replies.length) v took
        = { s with
            outstanding := s.outstanding - 1
            settled := s.settled ++ [(s.replies.length, v)]
            replies := s.replies ++ [⟨some s.replies.length, v⟩]
            owed := !took } := by
      simp only [Replicated.finish, hnote, if_true, respondApplied, howed rfl,
        Bool.false_eq_true, if_false]
    rw [hfinish]
    refine ⟨fun k r hk => ?_, fun n w hn => ?_, ?_⟩
    · show r.origin = some k ∧ (s.settled ++ [(s.replies.length, v)]).lookup k = some r.verdict
      rw [outcome_append]
      rcases Nat.lt_trichotomy k s.replies.length with hlt | rfl | hgt
      · obtain ⟨hor, hout⟩ := h.own k r (List.getElem?_append_left hlt ▸ hk)
        rw [hout]
        exact ⟨hor, rfl⟩
      · obtain rfl := Option.some.inj (List.getElem?_concat_length.symm.trans hk)
        rw [hnew, if_pos rfl]
        exact ⟨rfl, rfl⟩
      · have hlen : (s.replies ++ [(⟨some s.replies.length, v⟩ : CommitReply)]).length ≤ k := by
          rw [List.length_append]
          exact hgt
        cases (List.getElem?_eq_none hlen).symm.trans hk
    · have hn' : (s.outcome n).or (if n = s.replies.length then some v else none) = some w :=
        outcome_append s _ n v ▸ hn
      show n < (s.replies ++ [_]).length
      rw [List.length_append]
      by_cases hlen : n = s.replies.length
      · exact hlen ▸ Nat.lt_succ_self _
      rw [if_neg hlen, Option.or_none] at hn'
      exact Nat.lt_succ_of_lt (h.answered n w hn')
    · have hcount := h.counter
      show s.outstanding - 1 + (s.replies ++ [_]).length = s.forwarded.length
      rw [List.length_append, List.length_singleton]
      omega

/-! ## One event -/

/-- **What every orderly event keeps.** -/
structure Answering (s : Replicated) : Prop extends AnswersOnce s where
  /-- What is forwarded is a mutation that a commit can carry. -/
  fits : ∀ r ∈ s.forwarded, opIn mutatingOps r = true ∧ r.length ≤ maxInner
  staged : ∀ c, s.staged = some c → s.Due c.live c.origin

/-- A mutation is no record that only this module writes. -/
theorem not_restore {r : Bytes} (h : opIn mutatingOps r = true) : opIn restoreOps r = false := by
  cases r with
  | nil => rfl
  | cons op r =>
    have hop : op ∈ mutatingOps := List.contains_iff_mem.mp h
    have hall : ∀ op ∈ mutatingOps, restoreOps.contains op = false := by
      decide +kernel
    exact hall op hop

/-- The commit of a mutation of ours is not skipped. -/
theorem Answering.counted (h : s.Answering) {n : ℕ} {inner : Bytes}
    (hi : s.forwarded[n]? = some inner) : counted .namespacePlane inner = true := by
  obtain ⟨hop, hlen⟩ := h.fits inner (List.mem_of_getElem? hi)
  simp [Replicated.counted, not_restore hop, hlen]

/-- A result that comes back is that of a mutation that was forwarded. -/
theorem Answering.lt_of_forwarded (h : s.Answering) {n : ℕ} {inner : Bytes}
    (hi : s.forwarded[n]? = some inner) (ho : s.outstanding = 0) : n < s.replies.length := by
  have hn := (List.getElem?_eq_some_iff.mp hi).1
  have hcount := h.counter
  omega

theorem Answering.finish (h : s.Answering) (hs : s.staged = none) {live : Bool}
    {origin : Option ℕ} (hd : s.Due live origin) (howed : live = true → s.owed = false)
    (v : Verdict) (took : Bool) : (s.finish live origin v took).Answering := by
  have hnote : ∀ s' : Replicated, (s'.note origin v).forwarded = s'.forwarded ∧
      (s'.note origin v).staged = s'.staged := by
    intro s'
    unfold note
    split
    · exact ⟨rfl, rfl⟩
    · split <;> exact ⟨rfl, rfl⟩
  have hfinish : (s.finish live origin v took).forwarded = s.forwarded ∧
      (s.finish live origin v took).staged = s.staged := by
    unfold Replicated.finish respondApplied
    dsimp only
    split
    · split <;> exact hnote s
    · exact hnote s
  refine ⟨h.toAnswersOnce.finish hd howed v took, fun r hr => h.fits r (hfinish.1 ▸ hr), ?_⟩
  intro c hc
  rw [hfinish.2, hs] at hc
  cases hc

/-- Other fields than the counter, what is staged and the histories do not
matter. -/
theorem Answering.congr {s' : Replicated} (h : s.Answering)
    (ho : s'.outstanding = s.outstanding) (hf : s'.forwarded = s.forwarded)
    (hs : s'.settled = s.settled) (hr : s'.replies = s.replies)
    (hc : ∀ c, s'.staged = some c → s.Due c.live c.origin) : s'.Answering := by
  refine ⟨h.toAnswersOnce.congr ho hf hs hr, fun r hr => h.fits r (hf ▸ hr), fun c hc' => ?_⟩
  unfold Due
  rw [hr, ho]
  exact hc c hc'

theorem Answering.respond (h : s.Answering) (took : Bool) : (s.respond took).Answering := by
  unfold Replicated.respond
  split
  · exact h
  · exact h.congr rfl rfl rfl rfl h.staged

theorem Answering.applied (h : s.Answering) (proof : CommitProof) (v : Verdict) :
    (s.applied proof v).Answering := by
  unfold Replicated.applied
  split
  · exact h.congr rfl rfl rfl rfl h.staged
  · exact h

theorem Answering.due (h : s.Answering) {origin : Option ℕ} {plane : Plane}
    {proof : CommitProof} {inner : Bytes} {log : CommitLog} {tried : Option Verdict} {took : Bool}
    (hg : s.Genuine (.record (.committed origin plane proof inner) log tried took))
    (hd : s.Orderly (.record (.committed origin plane proof inner) log tried took))
    (hs : s.staged = none) (hc : Replicated.counted plane inner = true) :
    s.Due (decide (0 < s.outstanding)) origin := by
  refine ⟨fun hlive => ?_, fun hlive n hn => ?_⟩
  · have hpos := of_decide_eq_true hlive
    exact ⟨(hd hs hc hpos).1, hpos⟩
  · subst hn
    have hzero := of_decide_eq_false hlive
    exact h.lt_of_forwarded hg.2 (by omega)

/-- **An orderly event keeps the answers in order.** -/
theorem Answering.step (h : s.Answering) (e : ReplicatedEvent) (hg : s.Genuine e)
    (hd : s.Orderly e) : (s.step e).Answering := by
  cases e with
  | forward request wrote took =>
    simp only [Replicated.step, Replicated.forward]
    split
    · exact h
    next hbusy =>
    rw [Bool.or_eq_true, not_or, Bool.not_eq_true, Option.not_isSome_iff_eq_none] at hbusy
    split
    · next hfit =>
      rw [Bool.and_eq_true, Bool.and_eq_true, decide_eq_true_eq] at hfit
      refine ⟨⟨h.own, h.answered, ?_⟩, ?_, ?_⟩
      · have hcount := h.counter
        show s.outstanding + 1 + s.replies.length = (s.forwarded ++ [request]).length
        rw [List.length_append, List.length_singleton]
        omega
      · intro r hr
        rcases List.mem_append.mp hr with hr | hr
        · exact h.fits r hr
        · exact List.mem_singleton.mp hr ▸ hfit.1
      · intro c hc
        cases hbusy.2.symm.trans hc
    · exact h.respond took
  | direct took =>
    simp only [Replicated.step]
    split
    · exact h
    · exact h.respond took
  | flush took =>
    simp only [Replicated.step]
    split
    · exact h.congr rfl rfl rfl rfl h.staged
    · exact h
  | resolve durable tried took =>
    simp only [Replicated.step, Replicated.resolve]
    split
    · exact h
    next c hc =>
    split
    · exact h
    next howed =>
    have hfree : Answering { s with staged := none } := h.congr rfl rfl rfl rfl nofun
    have hready : s.owed = false := Bool.eq_false_of_not_eq_true howed
    split
    · split
      · exact h
      next v =>
      have happlied := hfree.applied c.proof v
      have hkept : ({ s with staged := none }.applied c.proof v).staged = none ∧
          ({ s with staged := none }.applied c.proof v).owed = s.owed ∧
          ({ s with staged := none }.applied c.proof v).Due c.live c.origin := by
        unfold Replicated.applied
        split <;> exact ⟨rfl, rfl, h.staged c hc⟩
      exact happlied.finish hkept.1 hkept.2.2 (fun _ => hkept.2.1.trans hready) v took
    · exact hfree.finish rfl (h.staged c hc) (fun _ => hready) .nak took
  | record r log tried took =>
    simp only [Replicated.step, Replicated.drain]
    split
    · exact h
    next hstaged =>
    rw [Option.not_isSome_iff_eq_none] at hstaged
    cases r with
    | replayDrained => exact h.congr rfl rfl rfl rfl h.staged
    | aborted origin =>
      show (s.note origin .nak).Answering
      rw [h.note_eq fun n hn => ?_]
      · exact h
      · subst hn
        exact hd hstaged
    | committed origin plane proof inner =>
      dsimp only
      split
      · next hskip =>
        rw [Bool.not_eq_true'] at hskip
        rw [h.note_eq fun n hn => ?_]
        · exact h
        · subst hn
          obtain ⟨rfl, hi⟩ := hg
          cases hskip.symm.trans (h.counted hi)
      next hcounted =>
      rw [Bool.not_eq_true', Bool.not_eq_false] at hcounted
      have hdue := h.due hg hd hstaged hcounted
      have hready : answersNow log tried = true → decide (0 < s.outstanding) = true →
          s.owed = false := fun hnow hlive =>
        (hd hstaged hcounted (of_decide_eq_true hlive)).2 hnow
      have hanswer : ∀ v, answersNow log tried = true →
          ((s.applied proof v).finish (decide (0 < s.outstanding)) origin v took).Answering := by
        intro v hnow
        have hkept : (s.applied proof v).staged = none ∧ (s.applied proof v).owed = s.owed ∧
            (s.applied proof v).Due (decide (0 < s.outstanding)) origin := by
          unfold Replicated.applied
          split <;> exact ⟨hstaged, rfl, hdue⟩
        exact (h.applied proof v).finish hkept.1 hkept.2.2
          (fun hlive => hkept.2.1.trans (hready hnow hlive)) v took
      have hstage : Answering
          { s with staged := some ⟨decide (0 < s.outstanding), origin, proof⟩ } := by
        refine h.congr rfl rfl rfl rfl fun c hc => ?_
        obtain rfl := Option.some.inj hc
        exact hdue
      cases log with
      | lost | failed => exact h.finish hstaged hdue (hready rfl) .nak took
      | staged => exact hstage
      | durable =>
        cases tried with
        | none => exact hstage
        | some v => exact hanswer v rfl
      | absent =>
        cases tried with
        | none => exact h
        | some v => exact hanswer v rfl

/-! ## The run -/

theorem answering_new : Answering .new :=
  ⟨⟨nofun, nofun, rfl⟩, nofun, nofun⟩

/-- **In every run whose results come in order every mutation is answered
once.** -/
theorem answered_in_order (es : List ReplicatedEvent)
    (h : Run.AllSteps step (fun s e => s.Genuine e ∧ s.Orderly e) .new es) :
    (Run.run step .new es).AnswersOnce :=
  (Run.invariant (I := Answering) (fun _ e hs he => hs.step e he.1 he.2) answering_new
    h).toAnswersOnce

/-- Two mutations are forwarded; the commit of the first is staged and resolved,
that of the second answered at once. -/
def inOrder : List ReplicatedEvent :=
  [.forward [1] true true, .forward [3] true true,
    .record (.committed (some 0) .namespacePlane ⟨[], 1, 1, 2, []⟩ [1]) .staged none true,
    .resolve true (some .ok) false, .flush true,
    .record (.committed (some 1) .namespacePlane ⟨[], 1, 2, 2, []⟩ [3]) .durable
      (some .ok) true]

theorem answered_inOrder : (Run.run step .new inOrder).AnswersOnce :=
  answered_in_order inOrder (by decide)

/-- Two mutations are forwarded; the first is refused, the second committed. -/
def refusedThenCommitted : List ReplicatedEvent :=
  [.forward [1] true true, .forward [3] true true,
    .record (.aborted (some 0)) .absent none true,
    .record (.committed (some 1) .namespacePlane ⟨[], 1, 1, 2, []⟩ [3]) .durable
      (some .ok) true]

/-- **The mutation that is refused gets the answer of the one behind it.** -/
theorem aborted_shifts_answers :
    Run.AllSteps step Genuine .new refusedThenCommitted ∧
      (Run.run step .new refusedThenCommitted).replies = [⟨some 1, .ok⟩] ∧
      ¬ (Run.run step .new refusedThenCommitted).AnswersOnce := by
  have hreplies : (Run.run step .new refusedThenCommitted).replies = [⟨some 1, .ok⟩] := by
    decide
  refine ⟨by decide, hreplies, fun h => ?_⟩
  obtain ⟨horigin, -⟩ := h.own 0 ⟨some 1, .ok⟩ (by rw [hreplies]; rfl)
  cases horigin

end Replicated

end Loam

import Loam.EcRouter

/-!
# What an answer meets in a router's tables

Both routers keep a ticket's join by its place in the join table and a 16-bit
stamp, and a question by a 32-bit id. A stamp comes back after 65536 joins, an id
after 2^32 questions, so what an answer meets there need not be what asked
(`EcEvent.own`).
-/

namespace Loam

open Fanout (Spends Ticket)

variable {J : Type}

/-- The ticket an event spends, as the router finds it. -/
def EcEvent.tableSpends (io : Fanout UInt8 BodyReq J) :
    EcEvent → Option (Ticket UInt8 × Fanout UInt8 BodyReq J × BodyResp)
  | .answer t cid resp => (io.settleId t cid).map fun (k, io) => (k, io, resp)
  | .oversizeAnswer t cid => (io.settleId t cid).map fun (k, io) => (k, io, .nak errTooLarge)
  | .expire cid => (io.lapse cid).map fun (k, io) => (k, io, .nak errIo)
  | _ => none

/-- The question an event is about. -/
def EcEvent.question : EcEvent → Option ℕ
  | .answer _ cid _ | .oversizeAnswer _ cid | .expire cid => some cid
  | _ => none

/-- An answer meets its own: the ticket its id leads to is its question's, and the
join found where the ticket's was is that join. -/
def EcEvent.own (io : Fanout UInt8 BodyReq J) (e : EcEvent) : Bool :=
  match e.tableSpends io with
  | none => true
  | some (k, io, _) =>
    decide (e.question = some k.cid) && (io.holder k.join).all fun g => decide (g = k.join)

variable {io io' : Fanout UInt8 BodyReq J} {e : EcEvent} {k : Ticket UInt8} {resp : BodyResp}

/-- **What spends a ticket**: its member's answer, which is passed on or is too
long, or its deadline. -/
theorem spends_cases (h : e.spends io = some (k, io', resp)) :
    Spends k io io' ∧ e.question = some k.cid ∧
      (e = .answer k.peer k.cid resp ∨ ∃ x, resp = .nak x) := by
  unfold EcEvent.spends at h
  split at h
  · obtain ⟨⟨k', io'⟩, hset, heq⟩ := Option.map_eq_some_iff.mp h
    cases heq
    obtain ⟨hspends, rfl, rfl⟩ := Fanout.settle_spec hset
    exact ⟨hspends, rfl, .inl rfl⟩
  · obtain ⟨⟨k', io'⟩, hset, heq⟩ := Option.map_eq_some_iff.mp h
    cases heq
    obtain ⟨hspends, -, rfl⟩ := Fanout.settle_spec hset
    exact ⟨hspends, rfl, .inr ⟨_, rfl⟩⟩
  · obtain ⟨⟨k', io'⟩, hlap, heq⟩ := Option.map_eq_some_iff.mp h
    cases heq
    obtain ⟨hspends, rfl⟩ := Fanout.lapse_spec hlap
    exact ⟨hspends, rfl, .inr ⟨_, rfl⟩⟩
  · cases h

theorem spends_spec (h : e.spends io = some (k, io', resp)) : Spends k io io' := (spends_cases h).1

/-- A ticket spent for a member's own answer is spent by that answer. -/
theorem answer_of_spends (h : e.spends io = some (k, io', resp)) (hr : ∀ e, resp ≠ .nak e) :
    e = .answer k.peer k.cid resp :=
  (spends_cases h).2.2.resolve_right fun ⟨x, hx⟩ => hr x hx

/-- The ticket spent is its question's. -/
theorem question_of_spends (h : e.spends io = some (k, io', resp)) : e.question = some k.cid :=
  (spends_cases h).2.1

/-- What the tables lead an answer to that meets its own is what it spends. -/
theorem spends_of_tableSpends (hs : io.Sound) (h : e.tableSpends io = some (k, io', resp))
    (hown : e.question = some k.cid) : e.spends io = some (k, io', resp) := by
  unfold EcEvent.tableSpends at h
  split at h
  · obtain ⟨⟨k', io'⟩, hset, heq⟩ := Option.map_eq_some_iff.mp h
    cases heq
    rw [EcEvent.spends, Fanout.settle_of_settleId hs hset (Option.some.inj hown).symm]
    rfl
  · obtain ⟨⟨k', io'⟩, hset, heq⟩ := Option.map_eq_some_iff.mp h
    cases heq
    rw [EcEvent.spends, Fanout.settle_of_settleId hs hset (Option.some.inj hown).symm]
    rfl
  · exact h
  · cases h

theorem spends_of_tableSpends_none (h : e.tableSpends io = none) : e.spends io = none := by
  unfold EcEvent.tableSpends at h
  split at h
  · rw [EcEvent.spends, Fanout.settle_of_settleId_none (Option.map_eq_none_iff.mp h)]
    rfl
  · rw [EcEvent.spends, Fanout.settle_of_settleId_none (Option.map_eq_none_iff.mp h)]
    rfl
  · exact h
  · next hans hover hexp =>
    unfold EcEvent.spends
    split
    · exact absurd rfl (hans _ _ _)
    · exact absurd rfl (hover _ _)
    · exact absurd rfl (hexp _)
    · rfl

/-- **An event that meets its own** spends what the tables lead it to, and the join
found there is the one that asked, or neither is in hand. -/
theorem EcEvent.own_cases (hs : io.Sound) (hown : e.own io = true) :
    e.tableSpends io = none ∧ e.spends io = none ∨
      ∃ k io' resp, e.tableSpends io = some (k, io', resp) ∧ e.spends io = some (k, io', resp) ∧
        (io'.holder k.join = some k.join ∨ io'.holder k.join = none ∧ io'.join? k.join = none) := by
  cases hk : e.tableSpends io with
  | none => exact .inl ⟨rfl, spends_of_tableSpends_none hk⟩
  | some p =>
    obtain ⟨k, io', resp⟩ := p
    rw [own, hk] at hown
    simp only [Bool.and_eq_true, decide_eq_true_eq] at hown
    refine .inr ⟨k, io', resp, rfl, spends_of_tableSpends hs hk hown.1, ?_⟩
    cases hh : io'.holder k.join with
    | some g =>
      rw [hh, Option.all_some, decide_eq_true_eq] at hown
      exact .inl (congrArg some hown.2)
    | none =>
      refine .inr ⟨rfl, ?_⟩
      cases hj : io'.join? k.join with
      | none => rfl
      | some j => exact absurd hh (Fanout.holder_ne_none hj)

end Loam

import Loam.BodyRuns
import Loam.EcRuns

/-!
# Where bodies are stored

A body is stored on the members its opening bytes rank highest, a streamed body
on those its declared digest ranks highest. A run keeps this of every store and
every stream it has in hand, and of each it acknowledged (`stores_run`).
-/

namespace Loam.BodyRouter

open Fanout (Same Around Asks Spends Ticket Opens Question)

/-- A request of a run, after the events before it. -/
def RequestAt (es es₀ : List EcEvent) (c : UInt32) (req : BodyReq) : Prop :=
  ∃ es₁, es = es₀ ++ .request c req :: es₁

/-- A body the run was asked to store, on every member its opening bytes rank
highest. -/
structure PutOn (C : Config) (N : ℕ → Bool) (es es₀ : List EcEvent) (c : UInt32) (body : Bytes)
    (T : List UInt8) : Prop where
  request : RequestAt es es₀ c (.put body)
  ranked : T = rankTargets C (runOf C N es₀).fleet (bodyKeyFromBytes body)
  some : T ≠ []

/-- A streamed body the run was asked to store, on every member its declared
digest ranks highest. -/
structure StreamOn (C : Config) (N : ℕ → Bool) (es es₀ : List EcEvent) (digest : Digest)
    (T : List UInt8) : Prop where
  request : ∃ c total, RequestAt es es₀ c (.wopen digest total)
  ranked : T = rankTargets C (runOf C N es₀).fleet digest
  some : T ≠ []

section Runs

variable {C : Config} {N : ℕ → Bool} {s s' : State} {e : EcEvent} {g : ℕ} {j j' : Join}
  {k : Ticket UInt8} {io io' : Io} {resp : BodyResp} {es es' es₀ : List EcEvent} {T : List UInt8}
  {c : UInt32} {req : BodyReq} {body : Bytes} {digest : Digest}

theorem RequestAt.snoc (h : RequestAt es es₀ c req) (e : EcEvent) :
    RequestAt (es ++ [e]) es₀ c req := by
  obtain ⟨es₁, rfl⟩ := h
  exact ⟨es₁ ++ [e], by simp⟩

/-- A request of what a run had met at another of its requests. -/
theorem RequestAt.trans {c' : UInt32} {req' : BodyReq} (h : RequestAt es' es₀ c req)
    (h' : RequestAt es es' c' req') : RequestAt es es₀ c req := by
  obtain ⟨es₁, rfl⟩ := h
  obtain ⟨es₂, rfl⟩ := h'
  exact ⟨es₁ ++ .request c' req' :: es₂, by rw [List.append_assoc, List.cons_append]⟩

theorem requestAt_last (es : List EcEvent) (c : UInt32) (req : BodyReq) :
    RequestAt (es ++ [.request c req]) es c req :=
  ⟨[], rfl⟩

theorem PutOn.snoc (h : PutOn C N es es₀ c body T) (e : EcEvent) :
    PutOn C N (es ++ [e]) es₀ c body T :=
  ⟨h.request.snoc e, h.ranked, h.some⟩

theorem StreamOn.snoc (h : StreamOn C N es es₀ digest T) (e : EcEvent) :
    StreamOn C N (es ++ [e]) es₀ digest T := by
  obtain ⟨c, total, hreq⟩ := h.request
  exact ⟨⟨c, total, hreq.snoc e⟩, h.ranked, h.some⟩

/-! ## What an event may open and say -/

theorem inner_of_event (hreq : ∀ c req, e ≠ .request c req) {x : Face}
    (h : (Allow.event C s e).join x) : x.kind.inner = true := by
  cases e with
  | request c req => exact absurd rfl (hreq c req)
  | _ =>
    simp only [Allow.event, Allow.heard] at h
    split at h <;> exact h

/-- Only a store opens a store. -/
theorem put_of_event {x : Face} (h : (Allow.event C s e).join x) (hk : x.kind = .client)
    (hop : x.op = .put) : ∃ c body, e = .request c (.put body) := by
  by_cases hreq : ∃ c req, e = .request c req
  · obtain ⟨c, req, rfl⟩ := hreq
    obtain ⟨body, rfl⟩ := h.2.1 hk hop
    exact ⟨c, body, rfl⟩
  · have hinner := inner_of_event (fun c req he => hreq ⟨c, req, he⟩) h
    rw [hk] at hinner
    cases hinner

theorem commit_of_event {x : Face} (h : (Allow.event C s e).join x) (hk : x.kind = .streamCommit) :
    ∃ c wid, e = .request c (.wcommit wid) := by
  by_cases hreq : ∃ c req, e = .request c req
  · obtain ⟨c, req, rfl⟩ := hreq
    obtain ⟨wid, rfl⟩ := h.2.2 hk
    exact ⟨c, wid, rfl⟩
  · have hinner := inner_of_event (fun c req he => hreq ⟨c, req, he⟩) h
    rw [hk] at hinner
    cases hinner

/-- Only an open takes a stream slot, for the members ranked for its digest. -/
theorem stream_of_event (h : (Allow.event C s e).stream T) :
    ∃ c digest total, e = .request c (.wopen digest total) ∧ T = rankTargets C s.fleet digest
      ∧ T ≠ [] := by
  cases e with
  | request c req =>
    obtain ⟨digest, total, rfl, hT⟩ := h
    exact ⟨c, digest, total, rfl, hT⟩
  | _ =>
    simp only [Allow.event, Allow.heard] at h
    split at h <;> cases h

/-- Only the answer a store or a commit awaits acknowledges one. -/
theorem say_of_event {p : UInt32 × BodyResp} (h : (Allow.event C s e).say p) :
    Quiet p ∨ ∃ k io resp j, e.spends s.io = some (k, io, resp) ∧ s.io.join? k.join = some j ∧
      (j.kind = .client ∧ j.op = .put ∨ j.kind = .streamCommit) := by
  have hother : (Allow.heard ((about s.io e).bind s.io.join?)).say p → Quiet p ∨
      ∃ k io resp j, e.spends s.io = some (k, io, resp) ∧ s.io.join? k.join = some j ∧
        (j.kind = .client ∧ j.op = .put ∨ j.kind = .streamCommit) := by
    intro h
    rw [about] at h
    cases hk : e.spends s.io with
    | none =>
      rw [hk] at h
      exact .inl h
    | some q =>
      obtain ⟨k, io, resp⟩ := q
      rw [hk] at h
      change (Allow.heard (s.io.join? k.join)).say p at h
      cases hj : s.io.join? k.join with
      | none =>
        rw [hj] at h
        exact .inl h
      | some j =>
        rw [hj] at h
        exact h.imp_right fun hack => ⟨k, io, resp, j, rfl, hj, hack⟩
  cases e with
  | request c req => exact .inl h
  | _ => exact hother h

/-! ## What a run has stored -/

/-- **A stream in hand** was declared, and its members are those ranked for its digest. -/
theorem streams_run (es : List EcEvent) {sid : ℕ} (hin : ((runOf C N es).streams sid).inUse = true) :
    ∃ es₀ digest, StreamOn C N es es₀ digest ((runOf C N es).streams sid).targets := by
  induction es using List.reverseRecOn generalizing sid with
  | nil => cases hin
  | append_singleton es e ih =>
    have hdoes := does_step (C := C) (N := N) (wf_runOf (C := C) (N := N) es) e
    rw [runOf_snoc] at hin ⊢
    rcases hdoes.streams sid hin with ⟨hold, htargets⟩ | hnew
    · obtain ⟨es₀, digest, hon⟩ := ih hold
      exact ⟨es₀, digest, htargets ▸ hon.snoc e⟩
    · obtain ⟨c, digest, total, rfl, hT, hsome⟩ := stream_of_event hnew
      exact ⟨es, digest, ⟨c, total, requestAt_last es c _⟩, hT, hsome⟩

/-- A commit of a run, and the stream it is of. -/
structure CommitOf (C : Config) (N : ℕ → Bool) (es es₁ : List EcEvent) (c : UInt32) (wid : UInt8) :
    Prop where
  request : RequestAt es es₁ c (.wcommit wid)
  inUse : ((runOf C N es₁).streams wid.toNat).inUse = true

theorem CommitOf.snoc {c : UInt32} {wid : UInt8} (h : CommitOf C N es es₀ c wid) (e : EcEvent) :
    CommitOf C N (es ++ [e]) es₀ c wid :=
  ⟨h.request.snoc e, h.inUse⟩

/-- What a run keeps of its stores and its commits: those in hand go on, and
those acknowledged are kept. -/
structure Stores (C : Config) (N : ℕ → Bool) (es : List EcEvent) : Prop where
  puts : ∀ g j, (runOf C N es).io.join? g = some j → j.kind = .client → j.op = .put →
    ∃ es₀ body T cids, PutOn C N es es₀ j.upCid body T ∧
      Gathering (runOf C N es).io g j T (fun _ => .put body) .put es cids
  commits : ∀ g j, (runOf C N es).io.join? g = some j → j.kind = .streamCommit →
    j.op = .wcommit ∧ (∃ sid, j.stream = some sid) ∧ ∃ es₁ wid cids, CommitOf C N es es₁ j.upCid wid ∧
      Gathering (runOf C N es).io g j ((runOf C N es₁).streams wid.toNat).targets
        (fun i => .wcommit (((runOf C N es₁).streams wid.toNat).wids i)) .wcommit es cids
  acked : ∀ c p, (c, .put p) ∈ (runOf C N es).up → ∃ es₀ body T told, p = some told ∧
    PutOn C N es es₀ c body T ∧
    StoredOn (runOf C N es).io.sent es T (fun _ => .put body) .put told
  committed : ∀ c p, (c, .wcommit p) ∈ (runOf C N es).up → ∃ es₁ wid told, p = some told ∧
    CommitOf C N es es₁ c wid ∧
    StoredOn (runOf C N es).io.sent es ((runOf C N es₁).streams wid.toNat).targets
      (fun i => .wcommit (((runOf C N es₁).streams wid.toNat).wids i)) .wcommit told

theorem stores_nil : Stores C N [] where
  puts := fun _ _ h => (by cases h)
  commits := fun _ _ h => (by cases h)
  acked := fun _ _ h => (by cases h)
  committed := fun _ _ h => (by cases h)

/-- An event that spends none of a join's tickets leaves its fan-out alone. -/
theorem Gathering.other {good : Option Digest → BodyResp} {reqs : ℕ → BodyReq} {cids : ℕ → ℕ}
    (h : Gathering s.io g j T reqs good es cids) (hs : s.Wf) (hne : about s.io e ≠ some g) :
    Gathering (step C N s e).io g j T reqs good (es ++ [e]) cids := by
  have hdoes := does_step (C := C) (N := N) hs e
  exact h.mono (hdoes.io.keeps g (Fanout.join?_lt hs.sound h.join) (Ne.symm hne)) hdoes.io.sent
    (List.subset_append_left es [e])

theorem exists_spent (h : about s.io e = some g) :
    ∃ k io resp, e.spends s.io = some (k, io, resp) ∧ k.join = g := by
  obtain ⟨⟨k, io, resp⟩, hk, hg⟩ := Option.map_eq_some_iff.mp h
  exact ⟨k, io, resp, hk, hg⟩

/-- **A fan-out in hand meets an event**, and is in hand still. -/
theorem Gathering.goes_on {good : Option Digest → BodyResp} {reqs : ℕ → BodyReq} {cids : ℕ → ℕ}
    (h : Gathering s.io g j T reqs good es cids) (hs : s.Wf)
    (hspent : about s.io e = some g →
      Gathering.Next s (step C N s e) g j T reqs good (es ++ [e]) cids)
    (hj' : (step C N s e).io.join? g = some j') :
    Gathering (step C N s e).io g j' T reqs good (es ++ [e]) cids := by
  by_cases habout : about s.io e = some g
  · rcases hspent habout with ⟨j₁, -, hon, -⟩ | ⟨hclosed, -⟩
    · obtain rfl : j₁ = j' := Option.some.inj (hon.join.symm.trans hj')
      exact hon
    · rw [hclosed] at hj'
      cases hj'
  · have hon := h.other (C := C) (N := N) hs habout
    obtain rfl : j = j' := Option.some.inj (hon.join.symm.trans hj')
    exact hon

/-- A run's stores in hand, an event later. -/
theorem Stores.puts_step (h : Stores C N es) (e : EcEvent)
    (hj : (runOf C N (es ++ [e])).io.join? g = some j) (hk : j.kind = .client) (hop : j.op = .put) :
    ∃ es₀ body T cids, PutOn C N (es ++ [e]) es₀ j.upCid body T ∧
      Gathering (runOf C N (es ++ [e])).io g j T (fun _ => .put body) .put (es ++ [e]) cids := by
  have hs := wf_runOf (C := C) (N := N) es
  have hdoes := does_step (C := C) (N := N) hs e
  rw [runOf_snoc] at hj ⊢
  by_cases hlt : g < (runOf C N es).io.nextGen
  · obtain ⟨j₀, hj₀, hface⟩ := hdoes.io.like g hlt j hj
    have hk₀ : j₀.kind = .client := (congrArg Face.kind hface).symm.trans hk
    have hop₀ : j₀.op = .put := (congrArg Face.op hface).symm.trans hop
    obtain ⟨es₀, body, T, cids, hon, hgather⟩ := h.puts g j₀ hj₀ hk₀ hop₀
    refine ⟨es₀, body, T, cids, ?_, hgather.goes_on hs (fun habout => ?_) hj⟩
    · rw [show j.upCid = j₀.upCid from congrArg Face.upCid hface]
      exact hon.snoc e
    · obtain ⟨k, io, resp, hspends, hg⟩ := exists_spent habout
      exact hgather.put_spent hs.sound hspends hg hk₀ hop₀ hon.some
  · have hge := Nat.le_of_not_lt hlt
    obtain ⟨c, body, rfl⟩ := put_of_event (hdoes.io.fresh g hge j hj) hk hop
    obtain ⟨hcid, -, hsome, cids, hgather⟩ := opened_handlePut
      (s := { runOf C N es with upCid := c }) ⟨hs.sound, hs.sane⟩ hge hj (es ++ [.request c (.put body)])
    exact ⟨es, body, _, cids, ⟨hcid ▸ requestAt_last es c _, rfl, hsome⟩, hgather⟩

/-- A run's commits in hand, an event later. -/
theorem Stores.commits_step (h : Stores C N es) (e : EcEvent)
    (hj : (runOf C N (es ++ [e])).io.join? g = some j) (hk : j.kind = .streamCommit) :
    j.op = .wcommit ∧ (∃ sid, j.stream = some sid) ∧
      ∃ es₁ wid cids, CommitOf C N (es ++ [e]) es₁ j.upCid wid ∧
        Gathering (runOf C N (es ++ [e])).io g j ((runOf C N es₁).streams wid.toNat).targets
          (fun i => .wcommit (((runOf C N es₁).streams wid.toNat).wids i)) .wcommit (es ++ [e])
          cids := by
  have hs := wf_runOf (C := C) (N := N) es
  have hdoes := does_step (C := C) (N := N) hs e
  rw [runOf_snoc] at hj ⊢
  by_cases hlt : g < (runOf C N es).io.nextGen
  · obtain ⟨j₀, hj₀, hface⟩ := hdoes.io.like g hlt j hj
    have hk₀ : j₀.kind = .streamCommit := (congrArg Face.kind hface).symm.trans hk
    have hop : j.op = j₀.op := congrArg Face.op hface
    have hstream : j.stream = j₀.stream := congrArg Face.stream hface
    obtain ⟨hop₀, ⟨sid, hsid⟩, es₁, wid, cids, hon, hgather⟩ := h.commits g j₀ hj₀ hk₀
    refine ⟨hop.trans hop₀, ⟨sid, hstream.trans hsid⟩, es₁, wid, cids, ?_,
      hgather.goes_on hs (fun habout => ?_) hj⟩
    · rw [show j.upCid = j₀.upCid from congrArg Face.upCid hface]
      exact hon.snoc e
    · obtain ⟨k, io, resp, hspends, hg⟩ := exists_spent habout
      obtain ⟨_, _, hranked⟩ := streams_run _ hon.inUse
      exact hgather.commit_spent hs.sound hspends hg hk₀ hop₀ hsid hranked.some
  · have hge := Nat.le_of_not_lt hlt
    obtain ⟨c, wid, rfl⟩ := commit_of_event (hdoes.io.fresh g hge j hj) hk
    obtain ⟨hcid, hop, hsid, hin, cids, hgather⟩ := opened_handleStreamCommit
      (s := { runOf C N es with upCid := c }) ⟨hs.sound, hs.sane⟩ hge hj hk
      (fun hin => by
        obtain ⟨_, _, hon⟩ := streams_run es hin
        exact hon.ranked ▸ nodup_rankTargets) (es ++ [.request c (.wcommit wid)])
    exact ⟨hop, ⟨_, hsid⟩, es, wid, cids, ⟨hcid ▸ requestAt_last es c _, hin⟩, hgather⟩

/-- What an acknowledgement of a fan-out shows. -/
theorem Gathering.Next.acked {good : Option Digest → BodyResp} {reqs : ℕ → BodyReq} {cids : ℕ → ℕ}
    (h : Gathering.Next s s' g j T reqs good es cids) {p : UInt32 × BodyResp} (hp : p ∈ s'.up)
    (hloud : ¬ Quiet p) :
    p ∈ s.up ∨ ∃ told, p = (j.upCid, good (some told)) ∧ StoredOn s'.io.sent es T reqs good told := by
  rcases h with ⟨-, -, -, hup⟩ | ⟨-, hup | ⟨told, hup, hstored⟩⟩
  · exact .inl (hup ▸ hp)
  · exact .inl ((hup p hp).resolve_right hloud)
  · rw [hup] at hp
    refine (List.mem_append.mp hp).imp_right fun hp => ⟨told, ?_, hstored⟩
    exact List.mem_singleton.mp hp

/-- An acknowledgement of a store or a commit was there before the event, or the
event brought its fan-out the last answer. -/
theorem Stores.acked_step (h : Stores C N es) (e : EcEvent) {p : UInt32 × BodyResp}
    (hp : p ∈ (runOf C N (es ++ [e])).up) (hloud : ¬ Quiet p) :
    p ∈ (runOf C N es).up ∨
      (∃ es₀ body T told, p.2 = .put (some told) ∧ PutOn C N (es ++ [e]) es₀ p.1 body T ∧
        StoredOn (runOf C N (es ++ [e])).io.sent (es ++ [e]) T (fun _ => .put body) .put told) ∨
      ∃ es₁ wid told, p.2 = .wcommit (some told) ∧ CommitOf C N (es ++ [e]) es₁ p.1 wid ∧
        StoredOn (runOf C N (es ++ [e])).io.sent (es ++ [e])
          ((runOf C N es₁).streams wid.toNat).targets
          (fun i => .wcommit (((runOf C N es₁).streams wid.toNat).wids i)) .wcommit told := by
  have hs := wf_runOf (C := C) (N := N) es
  have hdoes := does_step (C := C) (N := N) hs e
  rw [runOf_snoc] at hp ⊢
  rcases hdoes.up p hp with hold | hsay
  · exact .inl hold
  obtain ⟨k, io, resp, j, hspends, hj, hput | hcommit⟩ := (say_of_event hsay).resolve_left hloud
  · obtain ⟨es₀, body, T, cids, hon, hgather⟩ := h.puts _ j hj hput.1 hput.2
    refine ((hgather.put_spent (N := N) hs.sound hspends rfl hput.1 hput.2 hon.some).acked hp
      hloud).imp_right ?_
    rintro ⟨told, rfl, hstored⟩
    exact .inl ⟨es₀, body, T, told, rfl, hon.snoc e, hstored⟩
  · obtain ⟨hop, ⟨sid, hsid⟩, es₁, wid, cids, hon, hgather⟩ := h.commits _ j hj hcommit
    obtain ⟨_, _, hranked⟩ := streams_run _ hon.inUse
    refine ((hgather.commit_spent (N := N) hs.sound hspends rfl hcommit hop hsid
      hranked.some).acked hp hloud).imp_right ?_
    rintro ⟨told, rfl, hstored⟩
    exact .inr ⟨es₁, wid, told, rfl, hon.snoc e, hstored⟩

/-- **A run keeps its stores.** -/
theorem stores_run (es : List EcEvent) : Stores C N es := by
  induction es using List.reverseRecOn with
  | nil => exact stores_nil
  | append_singleton es e ih =>
    have hdoes := does_step (C := C) (N := N) (wf_runOf (C := C) (N := N) es) e
    have hsub : es ⊆ es ++ [e] := List.subset_append_left es [e]
    have hsent : (runOf C N es).io.sent <+: (runOf C N (es ++ [e])).io.sent := by
      rw [runOf_snoc]
      exact hdoes.io.sent
    refine ⟨fun g j => ih.puts_step e, fun g j => ih.commits_step e, fun c p h => ?_, fun c p h => ?_⟩
    · rcases ih.acked_step e h (by simp [Quiet, BodyResp.op]) with
        hold | ⟨es₀, body, T, told, hp, hon, hstored⟩ | ⟨_, _, _, hp, -⟩
      · obtain ⟨es₀, body, T, told, hp, hon, hstored⟩ := ih.acked c p hold
        exact ⟨es₀, body, T, told, hp, hon.snoc e, hstored.mono hsent hsub⟩
      · cases hp
        exact ⟨es₀, body, T, told, rfl, hon, hstored⟩
      · cases hp
    · rcases ih.acked_step e h (by simp [Quiet, BodyResp.op]) with
        hold | ⟨_, _, _, _, hp, -⟩ | ⟨es₁, wid, told, hp, hon, hstored⟩
      · obtain ⟨es₁, wid, told, hp, hon, hstored⟩ := ih.committed c p hold
        exact ⟨es₁, wid, told, hp, hon.snoc e, hstored.mono hsent hsub⟩
      · cases hp
      · cases hp
        exact ⟨es₁, wid, told, rfl, hon, hstored⟩

end Runs

/-- A router over `m` members that keeps one replica. -/
def oneReplica (m : ℕ) : Config where
  replicas := 1
  pos := Nat.one_pos
  members := m
  memberCap := 16
  joinCap := 32
  pendingCap := 64
  streamCap := 8

end Loam.BodyRouter

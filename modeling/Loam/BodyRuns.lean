import Loam.BodyRouterSteps
import Loam.RouterTables

/-!
# Runs of the replicating router

A store and a commit are acknowledged only when every member asked has
answered that it did as it was told: while the join is in hand each of them
either is awaited or has answered (`Gathering`). So of every acknowledgement of
a run one can say which members keep the body, and what each of them was asked
(`StoredOn`).
-/

namespace Loam.BodyRouter

open Fanout (Same Around Asks Spends Ticket Opens Question)

/-- The join an event is about: the one whose ticket it spends. -/
def about (io : Io) (e : EcEvent) : Option ℕ := (e.spends io).map fun p => p.1.join

/-- What an answer may do, to a join in hand or to none. -/
def Allow.heard : Option Join → Allow
  | some j => .answer j
  | none => .own

/-- What an event may do. -/
def Allow.event (C : Config) (s : State) (e : EcEvent) : Allow :=
  match e with
  | .request _ req => .request C s.fleet req
  | _ => .heard ((about s.io e).bind s.io.join?)

/-- The joins in hand are told apart, and their opcodes fit their kinds. -/
structure State.Wf (s : State) : Prop where
  /-- Generations and ids are used once. -/
  sound : s.io.Sound
  /-- A scan for upstream awaits a scan. -/
  sane : ∀ g j, s.io.join? g = some j → j.face.Sane

theorem nodup_rankTargets {C : Config} {fleet : List UInt8} {key : Digest} :
    (rankTargets C fleet key).Nodup := by
  unfold rankTargets
  split
  · exact List.nodup_nil
  · exact nodup_pickTargets _ _ _

section Events

variable {C : Config} {N : ℕ → Bool} {A : Allow} {s s' : State} {e : EcEvent} {g : ℕ}
  {o : Option ℕ} {j : Join} {k : Ticket UInt8} {io : Io} {resp : BodyResp} {es : List EcEvent}

/-- What an event shows of the members is nothing but that. -/
theorem hear_eq (s : State) (e : EcEvent) : ∃ q, hear s e = { s with quiet := q } := by
  unfold hear
  split
  · exact ⟨_, rfl⟩
  · exact ⟨_, rfl⟩
  · split <;> exact ⟨_, rfl⟩
  · exact ⟨_, rfl⟩

theorem does_quiet (hs : s.io.Sound) (q : UInt8 → Bool) : Does A o s { s with quiet := q } :=
  ⟨.refl hs, fun _ => .inl, fun _ h => .inl ⟨h, rfl⟩⟩

/-- An event that spends a ticket brings its answer to its join. -/
theorem step_of_spends (h : e.spends s.io = some (k, io, resp)) :
    ∃ q, step C N s e = answerJoin C N { s with io := io, quiet := q } k.join k.peer resp := by
  obtain ⟨q, hq⟩ := hear_eq s e
  refine ⟨q, ?_⟩
  cases e with
  | answer t cid resp => simp only [step, hq, h]
  | oversizeAnswer t cid => simp only [step, hq, h]
  | expire cid => simp only [step, hq, h]
  | fleet members => cases h
  | request cid req => cases h
  | oversize cid => cases h
  | scrub => cases h

/-- An event that spends a ticket is about its join. -/
theorem does_spent (hs : s.Wf) (hk : e.spends s.io = some (k, io, resp)) :
    Does (.event C s e) (some k.join) s (step C N s e) := by
  obtain ⟨q, hstep⟩ := step_of_spends (C := C) (N := N) hk
  have hspends := spends_spec hk
  have hspent : Does (.event C s e) (some k.join) s { s with io := io, quiet := q } :=
    (Does.of_io (hspends.around hs.sound)).trans (does_quiet (hspends.sound hs.sound) q)
  have hallow : Allow.event C s e = .heard (s.io.join? k.join) := by
    cases e <;> first | cases hk | simp only [Allow.event, about, hk, Option.map_some, Option.bind_some]
  rw [hstep, answerJoin]
  dsimp only
  rw [hspends.join?]
  cases hj : s.io.join? k.join with
  | none => exact hspent
  | some j =>
    rw [hallow, hj] at hspent ⊢
    exact hspent.trans (does_applyJoinResponse (hspends.sound hs.sound)
      ((hspends.join? _).trans hj) (hs.sane _ _ hj))

/-- **What an event does**, to the join it is about. -/
theorem does_step (hs : s.Wf) (e : EcEvent) :
    Does (.event C s e) (about s.io e) s (step C N s e) := by
  cases hk : e.spends s.io with
  | some p =>
    have h := does_spent (C := C) (N := N) hs hk
    rwa [about, hk]
  | none =>
    obtain ⟨q, hq⟩ := hear_eq s e
    cases e with
    | fleet members => exact ⟨.refl hs.sound, fun _ => .inl, fun _ h => .inl ⟨h, rfl⟩⟩
    | request cid req =>
      have h := does_handleRequest (C := C) (N := N) (s := { s with upCid := cid }) hs.sound req
      exact ⟨h.io, h.up, h.streams⟩
    | oversize cid => exact does_emit hs.sound (quiet_nak _ _)
    | scrub => exact does_scrubKick hs.sound
    | answer t cid resp =>
      simp only [step, hq, hk]
      exact does_quiet hs.sound q
    | oversizeAnswer t cid =>
      simp only [step, hq, hk]
      exact does_quiet hs.sound q
    | expire cid =>
      simp only [step, hq, hk]
      exact does_quiet hs.sound q

theorem Allow.event_sane {x : Face} (h : (Allow.event C s e).join x) : x.Sane := by
  have hinner : ∀ x : Face, x.kind.inner = true → x.Sane := fun x hx hk => by
    rw [hk] at hx
    cases hx
  unfold Allow.event at h
  split at h
  · exact h.1
  unfold Allow.heard at h
  split at h <;> exact hinner x h

theorem step_wf (hs : s.Wf) (e : EcEvent) : (step C N s e).Wf := by
  have h := does_step (C := C) (N := N) hs e
  refine ⟨h.io.sound, fun g j hj => ?_⟩
  by_cases hlt : g < s.io.nextGen
  · obtain ⟨j₀, hj₀, hf⟩ := h.io.like g hlt j hj
    exact hf ▸ hs.sane g j₀ hj₀
  · exact Allow.event_sane (h.io.fresh g (Nat.le_of_not_lt hlt) j hj)

theorem wf_init (C : Config) : (State.init C).Wf :=
  ⟨Fanout.sound_empty, fun _ _ h => (by cases h)⟩

theorem wf_runOf (es : List EcEvent) : (runOf C N es).Wf :=
  Run.invariant_all (I := State.Wf) (fun _ e h => step_wf h e) (wf_init C) es

theorem runOf_snoc (es : List EcEvent) (e : EcEvent) :
    runOf C N (es ++ [e]) = step C N (runOf C N es) e := by
  rw [runOf, Run.run_append]
  rfl

end Events

/-! ## Fan-outs of which every answer must be good -/

/-- Every one of the members `T` was asked, and answered well; the digest told
is the one they answer with, if they agree on one. -/
def StoredOn (sent : List (Question UInt8 BodyReq)) (es : List EcEvent) (T : List UInt8)
    (req : ℕ → BodyReq) (good : Option Digest → BodyResp) (told : Digest) : Prop :=
  ∃ cids : ℕ → ℕ,
    (∀ i t, T[i]? = some t → ⟨cids i, t, req i⟩ ∈ sent ∧ ∃ r, .answer t (cids i) (good r) ∈ es) ∧
    ∀ d, (∀ i t r, T[i]? = some t → .answer t (cids i) (good r) ∈ es → r = some d) → told = d

/-- A fan-out in hand: it misses as many answers as it has tickets, and unless a
member refused the question each is awaited or has answered well. -/
structure Gathering (io : Io) (g : ℕ) (j : Join) (T : List UInt8) (req : ℕ → BodyReq)
    (good : Option Digest → BodyResp) (es : List EcEvent) (cids : ℕ → ℕ) : Prop where
  join : io.join? g = some j
  counts : j.ack + j.fail + (io.tickets g).length = j.need
  sent : j.fail = 0 → ∀ i t, T[i]? = some t → ⟨cids i, t, req i⟩ ∈ io.sent
  heard : j.fail = 0 → ∀ i t, T[i]? = some t →
    (∃ k ∈ io.tickets g, k.peer = t ∧ k.cid = cids i) ∨
      ∃ r, .answer t (cids i) (good r) ∈ es ∧ (j.digestSet = false → r = none)
  mine : j.fail = 0 → ∀ k ∈ io.tickets g, ∃ i, T[i]? = some k.peer ∧ k.cid = cids i
  digest : j.fail = 0 → j.digestSet = true →
    ∃ i t, T[i]? = some t ∧ .answer t (cids i) (good (some j.digest)) ∈ es

section Gathering

variable {C : Config} {N : ℕ → Bool} {s s' : State} {e : EcEvent} {g : ℕ} {j j' : Join}
  {k : Ticket UInt8} {io io' : Io} {resp : BodyResp} {es es' : List EcEvent} {T : List UInt8}
  {req : ℕ → BodyReq} {good : Option Digest → BodyResp} {cids : ℕ → ℕ} {told : Digest}

theorem StoredOn.mono {sent sent' : List (Question UInt8 BodyReq)}
    (h : StoredOn sent es T req good told) (hsent : sent <+: sent') (hes : es ⊆ es') :
    StoredOn sent' es' T req good told := by
  obtain ⟨cids, hall, htold⟩ := h
  refine ⟨cids, fun i t hi => ⟨hsent.subset (hall i t hi).1, ?_⟩, fun d hd => htold d ?_⟩
  · obtain ⟨r, hr⟩ := (hall i t hi).2
    exact ⟨r, hes hr⟩
  · exact fun i t r hi hr => hd i t r hi (hes hr)

/-- A fan-out that an event leaves alone goes on. -/
theorem Gathering.mono (h : Gathering io g j T req good es cids) (hsame : Same g io io')
    (hsent : io.sent <+: io'.sent) (hes : es ⊆ es') : Gathering io' g j T req good es' cids where
  join := hsame.1.trans h.join
  counts := by rw [hsame.2]; exact h.counts
  sent := fun hz i t hi => hsent.subset (h.sent hz i t hi)
  heard := fun hz i t hi => by
    rw [hsame.2]
    exact (h.heard hz i t hi).imp_right fun ⟨r, hr, hn⟩ => ⟨r, hes hr, hn⟩
  mine := by rw [hsame.2]; exact h.mine
  digest := fun hz hd => by
    obtain ⟨i, t, hi, hr⟩ := h.digest hz hd
    exact ⟨i, t, hi, hes hr⟩

/-- **Nothing more is awaited**: every member has answered well. -/
theorem Gathering.stored (h : Gathering io g j T req good es cids) (hz : j.fail = 0)
    (hnil : io.tickets g = []) (hT : T ≠ []) : StoredOn io.sent es T req good j.digest := by
  have heard : ∀ i t, T[i]? = some t →
      ∃ r, .answer t (cids i) (good r) ∈ es ∧ (j.digestSet = false → r = none) := by
    intro i t hi
    refine (h.heard hz i t hi).resolve_left ?_
    rw [hnil]
    rintro ⟨k, hk, -⟩
    cases hk
  refine ⟨cids, fun i t hi => ⟨h.sent hz i t hi, ?_⟩, fun d hd => ?_⟩
  · obtain ⟨r, hr, -⟩ := heard i t hi
    exact ⟨r, hr⟩
  · cases hset : j.digestSet with
    | true =>
      obtain ⟨i, t, hi, hr⟩ := h.digest hz hset
      exact Option.some.inj (hd i t _ hi hr)
    | false =>
      -- a member that answered without a digest agrees on none
      have hpos : 0 < T.length := List.length_pos_of_ne_nil hT
      have hi : T[0]? = some T[0] := List.getElem?_eq_getElem hpos
      obtain ⟨r, hr, hnone⟩ := heard 0 T[0] hi
      have := hd 0 T[0] r hi hr
      rw [hnone hset] at this
      cases this

/-- A good answer, counted. -/
def Join.counted (j : Join) (r : Option Digest) : Join := { j with ack := j.ack + 1 }.noteDigest r

theorem face_counted (j : Join) (r : Option Digest) : (j.counted r).face = j.face :=
  face_noteDigest { j with ack := j.ack + 1 } r

theorem counted_ack (j : Join) (r : Option Digest) :
    (j.counted r).ack = j.ack + 1 ∧ (j.counted r).fail = j.fail ∧ (j.counted r).need = j.need := by
  unfold Join.counted Join.noteDigest
  repeat' split
  all_goals exact ⟨rfl, rfl, rfl⟩

/-- The digest told is the first that came. -/
theorem counted_digest (j : Join) (r : Option Digest) :
    (j.digestSet = true ∧ (j.counted r).digestSet = true ∧ (j.counted r).digest = j.digest) ∨
    (j.digestSet = false ∧ ∃ d, r = some d ∧ (j.counted r).digestSet = true ∧ (j.counted r).digest = d) ∨
    (j.digestSet = false ∧ r = none ∧ (j.counted r).digestSet = false ∧ (j.counted r).digest = j.digest) := by
  unfold Join.counted Join.noteDigest
  cases j.digestSet <;> cases r <;> simp

/-- **A good answer to a fan-out is counted.** -/
theorem Gathering.counted {r : Option Digest} (h : Gathering s.io g j T req good es cids)
    (hs : s.io.Sound) (hk : e.spends s.io = some (k, io, good r)) (hg : k.join = g)
    (hnak : ∀ err, good r ≠ .nak err) :
    Gathering (io.modify g fun _ => j.counted r) g (j.counted r) T req good (es ++ [e]) cids := by
  subst hg
  have hspends := spends_spec hk
  have hcount := hspends.length_tickets hs
  have hcounts := h.counts
  obtain ⟨hack, hfail, hneed⟩ := counted_ack j r
  have hsub : es ⊆ es ++ [e] := List.subset_append_left es [e]
  have hans : .answer k.peer k.cid (good r) ∈ es ++ [e] := by
    rw [answer_of_spends hk hnak]
    exact List.mem_append_right _ (List.mem_singleton_self _)
  have hsent : io.sent = s.io.sent := by rw [hspends.eq]
  refine ⟨?_, ?_, fun hz i t hi => ?_, fun hz i t hi => ?_, fun hz k' hk' => ?_, fun hz hset => ?_⟩
  · rw [Fanout.join?_modify, hspends.join?, h.join, Option.map_some]
  · rw [hack, hfail, hneed, Fanout.tickets_modify]
    omega
  · rw [Fanout.sent_modify, hsent]
    exact h.sent (hfail ▸ hz) i t hi
  · rw [Fanout.tickets_modify]
    rcases h.heard (hfail ▸ hz) i t hi with ⟨k', hk', hpeer, hcid⟩ | ⟨r', hr', hnone⟩
    · by_cases heq : k'.cid = k.cid
      · -- the ticket spent was the member's
        have hsame := hspends.eq_of_cid hs (Fanout.mem_tickets.mp hk').1 heq
        subst hsame
        refine .inr ⟨r, hpeer ▸ hcid ▸ hans, fun hd => ?_⟩
        rcases counted_digest j r with ⟨-, hset, -⟩ | ⟨-, d, -, hset, -⟩ | ⟨-, hr, -⟩
        · rw [hset] at hd
          cases hd
        · rw [hset] at hd
          cases hd
        · exact hr
      · refine .inl ⟨k', ?_, hpeer, hcid⟩
        rw [hspends.tickets]
        simp [hk', heq]
    · refine .inr ⟨r', hsub hr', fun hd => hnone ?_⟩
      rcases counted_digest j r with ⟨-, hset, -⟩ | ⟨hset, -⟩ | ⟨hset, -⟩
      · rw [hset] at hd
        cases hd
      · exact hset
      · exact hset
  · rw [Fanout.tickets_modify, hspends.tickets] at hk'
    exact h.mine (hfail ▸ hz) k' (List.mem_filter.mp hk').1
  · rcases counted_digest j r with ⟨hold, -, hd⟩ | ⟨-, d, hr, -, hd⟩ | ⟨-, -, hno, -⟩
    · obtain ⟨i, t, hi, hr⟩ := h.digest (hfail ▸ hz) hold
      exact ⟨i, t, hi, hd ▸ hsub hr⟩
    · obtain ⟨i, hi, hcid⟩ := h.mine (hfail ▸ hz) k hspends.mem_tickets
      refine ⟨i, k.peer, hi, ?_⟩
      rw [hd, ← hr, ← hcid]
      exact hans
    · rw [hno] at hset
      cases hset

/-- What a fan-out comes to when its ticket is spent: it goes on, or closes
refused, or closes acknowledged with every member having answered well. -/
def Gathering.Next (s s' : State) (g : ℕ) (j : Join) (T : List UInt8) (req : ℕ → BodyReq)
    (good : Option Digest → BodyResp) (es : List EcEvent) (cids : ℕ → ℕ) : Prop :=
  (∃ j', j'.face = j.face ∧ Gathering s'.io g j' T req good es cids ∧ s'.up = s.up) ∨
    s'.io.join? g = none ∧ ((∀ p ∈ s'.up, p ∈ s.up ∨ Quiet p) ∨
      ∃ told, s'.up = s.up ++ [(j.upCid, good (some told))] ∧
        StoredOn s'.io.sent es T req good told)

theorem mem_emit_quiet {c : UInt32} {r : BodyResp} (h : Quiet (c, r)) :
    ∀ p ∈ (s.emit c r).up, p ∈ s.up ∨ Quiet p := by
  intro p hp
  refine (List.mem_append.mp hp).imp_right fun hp => ?_
  rw [List.mem_singleton.mp hp]
  exact h

/-- The members have all answered when as many have as were asked. -/
theorem Gathering.finished (h : Gathering io g j T req good es cids) (hall : j.ack = j.need)
    (hT : T ≠ []) : StoredOn io.sent es T req good j.digest := by
  have hcounts := h.counts
  exact h.stored (by omega) (List.eq_nil_of_length_eq_zero (by omega)) hT

theorem put_of_op (h : resp.op = some .put) : resp = .put (respDigest resp) := by
  cases resp <;> cases h
  rfl

theorem wcommit_of_op (h : resp.op = some .wcommit) : resp = .wcommit (respDigest resp) := by
  cases resp <;> cases h
  rfl

/-- A store's answer, in terms of what it makes of the join. -/
theorem answerPut_good (s : State) (g : ℕ) (h : resp.op = some j.op) :
    answerPut s g j resp =
      if 0 < (j.counted (respDigest resp)).fail then
        (s.emit (j.counted (respDigest resp)).upCid (.nak (nakErrno resp))).freeJoin g
      else if (j.counted (respDigest resp)).ack = (j.counted (respDigest resp)).need then
        (s.emit (j.counted (respDigest resp)).upCid
          (if !(j.counted (respDigest resp)).digestSet then .nak errIo
            else if (j.counted (respDigest resp)).op = .putKeyed
              then .putKeyed (some (j.counted (respDigest resp)).digest)
            else .put (some (j.counted (respDigest resp)).digest))).freeJoin g
      else s.setJoin g fun _ => j.counted (respDigest resp) :=
  if_pos h

/-- **A store's ticket is spent.** -/
theorem Gathering.put_spent (h : Gathering s.io g j T req .put es cids) (hs : s.io.Sound)
    (hk : e.spends s.io = some (k, io, resp)) (hg : k.join = g) (hkind : j.kind = .client)
    (hop : j.op = .put) (hT : T ≠ []) :
    Gathering.Next s (step C N s e) g j T req .put (es ++ [e]) cids := by
  obtain ⟨q, hstep⟩ := step_of_spends (C := C) (N := N) hk
  have hj : io.join? g = some j := ((spends_spec hk).join? _).trans h.join
  have hanswer : step C N s e = answerPut { s with io := io, quiet := q } g j resp := by
    rw [hstep, answerJoin, hg]
    dsimp only
    rw [hj]
    dsimp only
    rw [applyJoinResponse, hkind]
    dsimp only
    rw [hop]
  rw [hanswer]
  by_cases hgood : resp.op = some .put
  · obtain ⟨r, rfl⟩ : ∃ r, resp = .put r := ⟨_, put_of_op hgood⟩
    have hon := h.counted hs hk hg (by simp)
    have hface := face_counted j r
    have hcid : (j.counted r).upCid = j.upCid := congrArg Face.upCid hface
    have hput : (j.counted r).op = .put := (congrArg Face.op hface).trans hop
    rw [answerPut_good _ g (hop ▸ hgood)]
    change Gathering.Next s (if 0 < (j.counted r).fail then _ else if _ = _ then _ else _) g j T req
      .put (es ++ [e]) cids
    simp only [respDigest, hcid, hput]
    generalize j.counted r = j' at hon hface ⊢
    split
    · exact .inr ⟨Fanout.join?_close _ _, .inl (mem_emit_quiet (quiet_nak _ _))⟩
    split
    · next hall =>
      have hstored := hon.finished hall hT
      refine .inr ⟨Fanout.join?_close _ _, ?_⟩
      cases hset : j'.digestSet with
      | false => exact .inl (mem_emit_quiet (by simp [Quiet, BodyResp.op]))
      | true => exact .inr ⟨j'.digest, by simp [State.freeJoin, State.emit], hstored⟩
    · exact .inl ⟨j', hface, hon, rfl⟩
  · rw [answerPut, hop, if_neg hgood]
    exact .inr ⟨Fanout.join?_close _ _, .inl (mem_emit_quiet (quiet_nak _ _))⟩

/-- Dropping a stream's members leaves a closed join closed, and says nothing of
its own. -/
theorem abort_closed (hs : s.io.Sound) (hg : g < s.io.nextGen) (sid : ℕ) {c : UInt32}
    {r : BodyResp} (hr : Quiet (c, r)) :
    ((abortStreamMembers C N (s.freeJoin g) sid).emit c r).io.join? g = none ∧
      ∀ p ∈ ((abortStreamMembers C N (s.freeJoin g) sid).emit c r).up, p ∈ s.up ∨ Quiet p := by
  have habort := does_abortStreamMembers (C := C) (N := N) (s := s.freeJoin g) (hs.close g) sid
  refine ⟨?_, fun p hp => ?_⟩
  · exact (habort.io.keeps g hg (by simp)).1.trans (Fanout.join?_close _ _)
  · exact (mem_emit_quiet hr p hp).elim (habort.up p) .inr

/-- **A commit's ticket is spent.** -/
theorem Gathering.commit_spent (h : Gathering s.io g j T req .wcommit es cids) (hs : s.io.Sound)
    (hk : e.spends s.io = some (k, io, resp)) (hg : k.join = g) (hkind : j.kind = .streamCommit)
    (hop : j.op = .wcommit) {sid : ℕ} (hsid : j.stream = some sid) (hT : T ≠ []) :
    Gathering.Next s (step C N s e) g j T req .wcommit (es ++ [e]) cids := by
  obtain ⟨q, hstep⟩ := step_of_spends (C := C) (N := N) hk
  have hspends := spends_spec hk
  have hj : io.join? g = some j := (hspends.join? _).trans h.join
  have hlt : g < io.nextGen := Fanout.join?_lt (hspends.sound hs) hj
  have hanswer : step C N s e =
      answerStream C N { s with io := io, quiet := q } g j sid k.peer resp := by
    rw [hstep, answerJoin, hg]
    dsimp only
    rw [hj]
    dsimp only
    rw [applyJoinResponse, hkind]
    dsimp only
    rw [hsid]
  rw [hanswer, answerStream, hop]
  by_cases hgood : resp.op = some .wcommit
  · obtain ⟨r, rfl⟩ : ∃ r, resp = .wcommit r := ⟨_, wcommit_of_op hgood⟩
    have hon := h.counted hs hk hg (by simp)
    have hface := face_counted j r
    have hnote : j.noteStream (.wcommit r) = j.counted r := if_pos hkind
    have hcid : (j.counted r).upCid = j.upCid := congrArg Face.upCid hface
    have hcommit : (j.counted r).kind = .streamCommit := (congrArg Face.kind hface).trans hkind
    rw [if_pos hgood, hnote]
    generalize j.counted r = j' at hon hface hcid hcommit ⊢
    dsimp only [noteSession]
    split
    · next hall =>
      have hstored := hon.finished hall hT
      rw [finishStream, hcommit]
      exact .inr ⟨Fanout.join?_close _ _, .inr ⟨j'.digest, by rw [hcid]; rfl, hstored⟩⟩
    · exact .inl ⟨j', hface, hon, rfl⟩
  · rw [if_neg hgood]
    obtain ⟨hclosed, hup⟩ := abort_closed (C := C) (N := N)
      (s := { s with io := io, quiet := q }) (hspends.sound hs) hlt sid (quiet_nak j.upCid (nakErrno resp))
    exact .inr ⟨hclosed, .inl hup⟩

/-- What every member of a fan-out is asked, in order. -/
def questionsOf (T : List UInt8) (req : ℕ → BodyReq) : List (UInt8 × BodyReq) :=
  T.zipIdx.map fun p => (p.1, req p.2)

theorem map_eq_questionsOf (T : List UInt8) (r : BodyReq) :
    (T.map fun t => (t, r)) = questionsOf T fun _ => r := by
  conv_lhs => rw [← List.zipIdx_map_fst 0 T, List.map_map]
  rfl

theorem map_fst_questionsOf (T : List UInt8) (req : ℕ → BodyReq) :
    (questionsOf T req).map Prod.fst = T := by
  rw [questionsOf, List.map_map]
  exact List.zipIdx_map_fst 0 T

theorem mem_questionsOf {q : UInt8 × BodyReq} (h : q ∈ questionsOf T req) :
    ∃ i, T[i]? = some q.1 ∧ q.2 = req i := by
  obtain ⟨⟨t, i⟩, hp, rfl⟩ := List.mem_map.mp h
  exact ⟨i, List.mem_zipIdx_iff_getElem?.mp hp, rfl⟩

variable (req good) in
/-- **A fan-out opens**: each member is awaited, unless one refused the
question. -/
theorem gathering_open (hs : s.io.Sound) (hstart : s.io.start C.joinCap j = some (g, io))
    (hnew : j.ack = 0 ∧ j.fail = 0 ∧ j.digestSet = false) (hneed : j.need = T.length)
    (hnodup : T.Nodup) (es : List EcEvent) :
    ∃ s' j' cids, askTargets C N { s with io := io } g (questionsOf T req) = s' ∧ s'.io.Sound ∧
      (∀ g' j', s.io.nextGen ≤ g' → s'.io.join? g' = some j' → g' = g) ∧ j'.face = j.face ∧
      Gathering s'.io g j' T req good es cids := by
  obtain ⟨hack, hfail, hset⟩ := hnew
  obtain ⟨new, hasks, hcount⟩ := Fanout.askAll_spec C.pendingCap N g (questionsOf T req) io
  have ho := (Fanout.opens_start hs hstart).asks hasks
  have hall := ho.modify fun j => { j with fail := j.fail +
    (Fanout.askAll C.pendingCap N g (questionsOf T req) io).2 }
  rw [List.nil_append] at hall
  have hlen : (questionsOf T req).length = T.length := by
    rw [← List.length_map (f := Prod.fst), map_fst_questionsOf]
  -- where nobody refused, the tickets are the members', in order
  have hpeers : j.fail + (Fanout.askAll C.pendingCap N g (questionsOf T req) io).2 = 0 →
      new.map Ticket.peer = T := fun hz => by
    have hsub := hasks.peers
    rw [map_fst_questionsOf] at hsub
    exact hsub.eq_of_length (by rw [List.length_map]; omega)
  have hat : new.map Ticket.peer = T → ∀ (i : ℕ) (t : UInt8), T[i]? = some t →
      ∃ k : Ticket UInt8, new[i]? = some k ∧ k.peer = t := by
    intro hp i t hi
    rw [← hp, List.getElem?_map] at hi
    exact Option.map_eq_some_iff.mp hi
  refine ⟨_, { j with fail := j.fail + (Fanout.askAll C.pendingCap N g (questionsOf T req) io).2 },
    fun i => ((new[i]?).map Ticket.cid).getD 0, rfl, hall.sound,
    fun g' j' hge hj' => (hall.only hge hj').1, rfl, hall.join, ?_, fun hz i t hi => ?_,
    fun hz i t hi => ?_, fun hz k hk => ?_, fun _ hd => ?_⟩
  · rw [askTargets, State.setJoin]
    dsimp only
    rw [hall.tickets]
    omega
  · obtain ⟨k, hk, rfl⟩ := hat (hpeers hz) i t hi
    obtain ⟨q, hq, hpeer, hsent⟩ := hasks.asked k (List.mem_of_getElem? hk)
    obtain ⟨i', hi', hreq⟩ := mem_questionsOf hq
    have hsame : i = i' := by
      obtain ⟨hlt, -⟩ := List.getElem?_eq_some_iff.mp hi
      rw [hpeer] at hi'
      exact (List.getElem?_inj hlt hnodup).mp (hi.trans hi'.symm)
    subst hsame
    simp only [hk, Option.map_some, Option.getD_some]
    rw [hpeer, hreq] at hsent
    exact hsent
  · obtain ⟨k, hk, rfl⟩ := hat (hpeers hz) i t hi
    refine .inl ⟨k, ?_, rfl, by simp [hk]⟩
    exact hall.tickets ▸ List.mem_of_getElem? hk
  · have hk' : k ∈ new := hall.tickets ▸ hk
    obtain ⟨i, hlt, hi⟩ := List.getElem_of_mem hk'
    have hi' : new[i]? = some k := List.getElem?_eq_some_iff.mpr ⟨hlt, hi⟩
    refine ⟨i, ?_, by simp [hi']⟩
    rw [← hpeers hz, List.getElem?_map, hi']
    rfl
  · rw [show j.digestSet = false from hset] at hd
    cases hd

/-- No join is newer than the generations given out. -/
theorem State.Wf.none_ge (hs : s.Wf) (hge : s.io.nextGen ≤ g) : s.io.join? g = none := by
  cases hj : s.io.join? g with
  | none => rfl
  | some j => exact absurd (Fanout.join?_lt hs.sound hj) (Nat.not_lt.mpr hge)

/-- A store that leaves a new join in hand opened its fan-out. -/
theorem opened_handlePut (hs : s.Wf) (hge : s.io.nextGen ≤ g) {body : Bytes}
    (hj : (handlePut C N s body).io.join? g = some j) (es : List EcEvent) :
    j.upCid = s.upCid ∧ body.length ≤ maxBody ∧
      rankTargets C s.fleet (bodyKeyFromBytes body) ≠ [] ∧
      ∃ cids, Gathering (handlePut C N s body).io g j
        (rankTargets C s.fleet (bodyKeyFromBytes body)) (fun _ => .put body) .put es cids := by
  have hnone := hs.none_ge hge
  unfold handlePut at hj ⊢
  dsimp only at hj ⊢
  split at hj
  · exact absurd (hj.symm.trans hnone) (by simp)
  next hfits =>
  rw [if_neg hfits]
  split at hj
  · exact absurd (hj.symm.trans hnone) (by simp)
  next htargets =>
  rw [if_neg htargets]
  split at hj
  · exact absurd (hj.symm.trans hnone) (by simp)
  next g' io hstart =>
  obtain ⟨s', j', cids, heq, -, honly, hface, hgather⟩ := gathering_open (C := C) (N := N)
    (fun _ => .put body) .put hs.sound hstart ⟨rfl, rfl, rfl⟩ rfl
    nodup_rankTargets es
  rw [map_eq_questionsOf, heq] at hj ⊢
  split at hj
  · -- every member refused: the join is gone
    obtain rfl := honly g j hge (Fanout.join?_of_close hj)
    exact absurd (hj.symm.trans (Fanout.join?_close _ _)) (by simp)
  next hsome =>
  rw [if_neg hsome]
  obtain rfl := honly g j hge hj
  obtain rfl : j' = j := Option.some.inj (hgather.join.symm.trans hj)
  exact ⟨congrArg Face.upCid hface, Nat.le_of_not_lt hfits, htargets, cids, hgather⟩

theorem abort_opens_none (hs : s.io.Sound) (hno : s.io.join? g = none) (hk : j.kind = .streamCommit)
    (sid : ℕ) : (abortStreamMembers C N s sid).io.join? g ≠ some j := by
  intro hj
  have h := does_abortStreamMembers (C := C) (N := N) hs sid
  by_cases hlt : g < s.io.nextGen
  · rw [(h.io.keeps g hlt (by simp)).1, hno] at hj
    cases hj
  · have hinner : j.kind.inner = true := h.io.fresh g (Nat.le_of_not_lt hlt) j hj
    rw [hk] at hinner
    cases hinner

/-- A commit that leaves a new join in hand opened its fan-out, to the members of
the stream and the session each of them opened. -/
theorem opened_handleStreamCommit (hs : s.Wf) (hge : s.io.nextGen ≤ g) {sid : ℕ}
    (hj : (handleStreamCommit C N s sid).io.join? g = some j) (hk : j.kind = .streamCommit)
    (hnodup : (s.streams sid).inUse = true → (s.streams sid).targets.Nodup) (es : List EcEvent) :
    j.upCid = s.upCid ∧ j.op = .wcommit ∧ j.stream = some sid ∧ (s.streams sid).inUse = true ∧
      ∃ cids, Gathering (handleStreamCommit C N s sid).io g j (s.streams sid).targets
        (fun i => .wcommit ((s.streams sid).wids i)) .wcommit es cids := by
  have hnone := hs.none_ge hge
  unfold handleStreamCommit at hj ⊢
  dsimp only at hj ⊢
  split at hj
  · exact absurd (hj.symm.trans hnone) (by simp)
  next hopen =>
  rw [if_neg hopen]
  split at hj
  · exact absurd hj (abort_opens_none hs.sound hnone hk sid)
  next g' io hstart =>
  have hin : (s.streams sid).inUse = true := by
    simp only [streamOpen, Bool.not_eq_true', Bool.not_eq_false, Bool.and_eq_true] at hopen
    exact hopen.2
  obtain ⟨s', j', cids, heq, hsound, honly, hface, hgather⟩ := gathering_open (C := C) (N := N)
    (fun i => .wcommit ((s.streams sid).wids i)) .wcommit hs.sound hstart
    ⟨rfl, rfl, rfl⟩ rfl (hnodup hin) es
  rw [show (s.streams sid).questions .wcommit =
    questionsOf (s.streams sid).targets fun i => .wcommit ((s.streams sid).wids i) from rfl,
    heq] at hj ⊢
  -- the join that was opened is gone once it is closed
  have hclosed : (s'.freeJoin g').io.join? g = none := by
    cases hj' : (s'.freeJoin g').io.join? g with
    | none => rfl
    | some j₁ =>
      obtain rfl := honly g j₁ hge (Fanout.join?_of_close hj')
      exact hj'.symm.trans (Fanout.join?_close _ _)
  split at hj
  · exact absurd hj (abort_opens_none (hsound.close g') hclosed hk sid)
  next hany =>
  rw [if_neg hany]
  split at hj
  · exact absurd (hj.symm.trans hclosed) (by simp)
  next hall =>
  rw [if_neg hall]
  obtain rfl := honly g j hge hj
  obtain rfl : j' = j := Option.some.inj (hgather.join.symm.trans hj)
  exact ⟨congrArg Face.upCid hface, congrArg Face.op hface, congrArg Face.stream hface, hin,
    cids, hgather⟩

end Gathering

end Loam.BodyRouter

import Loam.EcRuns

/-!
# What goes upstream, and whose request it answers

A store is acknowledged only by the join that stored it, and a read answers
only with a body the assembly checked against its digest; everything else the
router says upstream is a refusal, a size or a removal (`Quiet`). A join that
stores or reads was opened by a request of the run, and keeps that request's id
and digest (`Asked`): so what is answered is what was asked.
-/

namespace Loam

open Fanout (Same Grows Asks Spends Ticket Opens)

/-- An answer that is neither a store's nor a read's. -/
def BodyResp.Quiet (r : BodyResp) : Prop := (∀ p, r ≠ .put p) ∧ ∀ p, r ≠ .get p

theorem quiet_nak (e : BodyErr) : (BodyResp.nak e).Quiet := ⟨by simp, by simp⟩

theorem quiet_head (n : Option UInt64) : (BodyResp.head n).Quiet := ⟨by simp, by simp⟩

theorem quiet_delete (b : Bool) : (BodyResp.delete b).Quiet := ⟨by simp, by simp⟩

/-- What was said upstream between two states is what `P` allows. -/
def Says (P : UInt32 × BodyResp → Prop) (s s' : EcState) : Prop := ∀ p ∈ s'.up, p ∈ s.up ∨ P p

section Upstream

variable {C : EcConfig} {N : ℕ → Bool} {s s' s'' : EcState} {g : ℕ} {j : EcJoin}
  {t : UInt8} {resp : BodyResp} {payload : Option Bytes} {P Q : UInt32 × BodyResp → Prop}

theorem says_of_up (h : s'.up = s.up) : Says P s s' := by
  intro p hp
  exact .inl (h ▸ hp)

theorem Says.trans (h : Says P s s') (h' : Says P s' s'') : Says P s s'' := by
  intro p hp
  exact (h' p hp).elim (h p) .inr

theorem Says.mono (h : Says P s s') (hPQ : ∀ p, P p → Q p) : Says Q s s' := by
  intro p hp
  exact (h p hp).imp_right (hPQ p)

theorem says_emit {c : UInt32} {r : BodyResp} (h : P (c, r)) : Says P s (s.emit c r) := by
  intro p hp
  rcases List.mem_append.mp hp with hp | hp
  · exact .inl hp
  · exact .inr (List.mem_singleton.mp hp ▸ h)

/-! ## The scrub says nothing -/

@[simp] theorem up_freeJoin : (s.freeJoin g).up = s.up := rfl
@[simp] theorem up_setJoin (h : EcJoin → EcJoin) : (s.setJoin g h).up = s.up := rfl
@[simp] theorem up_letGo : s.letGo.up = s.up := rfl
@[simp] theorem up_letGoScrub : s.letGoScrub.up = s.up := rfl
@[simp] theorem up_scrubNextMember : (scrubNextMember C s).up = s.up := rfl

@[simp] theorem up_startIdent (keys : List Digest) : (startIdent C N keys s).up = s.up := by
  induction keys generalizing s with
  | nil => rfl
  | cons key rest ih =>
    rw [startIdent]
    split
    · exact ih
    dsimp only
    split
    · rfl
    rw [ih]
    rfl

@[simp] theorem up_scrubNextKey : (scrubNextKey C N s).up = s.up := up_startIdent _

@[simp] theorem up_oneRepair (i : ℕ) (blob : Bytes) :
    (scrubDispatchOneRepair C N s i blob).up = s.up := by
  unfold scrubDispatchOneRepair
  split
  · rfl
  dsimp only
  split <;> rfl

@[simp] theorem up_repairs (shards : List Bytes) :
    (scrubDispatchRepairs C N shards s).up = s.up := by
  unfold scrubDispatchRepairs
  generalize List.range s.scrub.ranked.length = is
  induction is generalizing s with
  | nil => rfl
  | cons i is ih =>
    rw [List.foldl_cons, ih]
    split
    · exact up_oneRepair i _
    · rfl

@[simp] theorem up_cleanup (member : UInt8) : (scrubDispatchCleanup C N s member).up = s.up := by
  unfold scrubDispatchCleanup
  split
  · rfl
  dsimp only
  split <;> rfl

@[simp] theorem up_fetchFailed : (scrubFetchFailed C N s g).up = s.up := up_scrubNextKey

@[simp] theorem up_fetch (missing : List ℕ) : (scrubFetch C N s missing).up = s.up := by
  unfold scrubFetch
  dsimp only
  split
  · exact up_scrubNextKey
  split
  · exact up_scrubNextKey
  split
  · exact up_fetchFailed
  · rfl

@[simp] theorem up_probeResolve : (scrubProbeResolve C N s).up = s.up := by
  unfold scrubProbeResolve
  dsimp only
  split
  · split <;> simp
  split
  · simp [scrubDispatchRepairFromBuf]
  · split <;> simp

@[simp] theorem up_probe : (scrubProbe C N s).up = s.up := by
  unfold scrubProbe
  split
  · exact up_scrubNextKey
  dsimp only
  split
  · exact up_probeResolve
  · rfl

@[simp] theorem up_applyIdent (key : Digest) : (scrubApplyIdent C N s key resp).up = s.up := by
  unfold scrubApplyIdent
  split
  · split
    · dsimp only
      split
      · exact up_scrubNextKey
      split
      · exact up_scrubNextKey
      · exact up_probe
    · exact up_scrubNextKey
  · exact up_scrubNextKey

@[simp] theorem up_kick : (scrubKick C N s).up = s.up := by
  unfold scrubKick
  split
  · rfl
  dsimp only
  generalize (if C.members ≤ s.scrub.target then 0 else s.scrub.target) = target
  split
  · rfl
  · split <;> rfl

@[simp] theorem up_answerScan : (answerScan C N s g resp).up = s.up := by
  unfold answerScan
  dsimp only
  split
  · next next page =>
    split <;> split <;> simp
  · rfl

@[simp] theorem up_answerProbe : (answerProbe C N s g j t resp).up = s.up := by
  unfold answerProbe
  dsimp only
  split
  · exact up_probeResolve
  · rfl

@[simp] theorem up_fetchCheck : (scrubFetchCheck C N s g).up = s.up := by
  unfold scrubFetchCheck
  split
  · rfl
  split
  · exact up_fetchFailed
  · rfl

/-! ## What the answers say -/

theorem says_resolveGetFailure : Says (fun p => p.2.Quiet) s (resolveGetFailure s g) := by
  unfold resolveGetFailure
  split
  · exact says_of_up rfl
  · exact (says_emit (quiet_nak _)).trans (says_of_up rfl)

theorem says_advanceHead (targets : List (UInt8 × ℕ)) :
    Says (fun p => p.2.Quiet) s (advanceHead C N g targets s) := by
  induction targets generalizing s with
  | nil =>
    unfold advanceHead
    split
    · exact says_of_up rfl
    · exact (says_emit (quiet_nak _)).trans (says_of_up rfl)
  | cons p rest ih =>
    unfold advanceHead
    split
    · exact says_of_up rfl
    dsimp only
    split
    · exact says_of_up rfl
    · exact (says_of_up rfl).trans ih

theorem rebuild_eq_some {a : Assembly} {shards : List Bytes} {body : Bytes}
    (h : a.rebuild C = some (shards, body)) : C.sha body = a.digest := by
  unfold Assembly.rebuild at h
  split at h
  · cases h
  dsimp only at h
  split at h
  · next hd =>
    cases h
    exact hd
  · cases h

/-- A shard for the assembly says nothing, or the body of a read. -/
theorem says_takeShard :
    Says (fun p => p.2.Quiet ∨ s.asm.internal = false
        ∧ ∃ body, C.sha body = s.asm.digest ∧ p = (j.upCid, .get (some body)))
      s (assemblyTakeShard C N s g j t payload).1 := by
  unfold assemblyTakeShard
  split
  · exact says_of_up rfl
  next a haccept =>
  obtain ⟨i, hdr, shard, htakes⟩ := accept_eq_some haccept
  have hsame : a.internal = s.asm.internal ∧ a.digest = s.asm.digest := by
    rw [htakes.eq]
    exact ⟨rfl, rfl⟩
  dsimp only
  split
  · exact says_of_up rfl
  split
  · split
    · exact says_of_up (by simp)
    exact Says.trans (by exact fun p => .inl) ((says_resolveGetFailure
      (s := { s with asm := a })).mono fun p => .inl)
  next shards body hbody =>
  split
  · exact says_of_up (by simp)
  next hint =>
  refine (says_emit (.inr ⟨?_, body, ?_, rfl⟩)).trans (says_of_up rfl)
  · rw [← hsame.1]
    simpa using hint
  · rw [← hsame.2]
    exact rebuild_eq_some hbody

/-- What an answer may say upstream: a store is acknowledged by its join, and a
read answered with a body that has the assembly's digest. -/
def Answered (C : EcConfig) (s : EcState) (j : EcJoin) (p : UInt32 × BodyResp) : Prop :=
  p.2.Quiet ∨ j.kind = .put ∧ p = (j.upCid, .put (some j.digest))
    ∨ j.kind = .get ∧ ∃ body, C.sha body = s.asm.digest ∧ p = (j.upCid, .get (some body))

theorem says_answerPut (hk : j.kind = .put) :
    Says (Answered C s j) s (answerPut s g j resp) := by
  have hnote : (j.notePut resp).upCid = j.upCid ∧ (j.notePut resp).digest = j.digest := by
    unfold EcJoin.notePut
    split <;> exact ⟨rfl, rfl⟩
  unfold answerPut
  dsimp only
  split
  · exact (says_of_up rfl).trans ((says_emit (.inl (quiet_nak _))).trans (says_of_up rfl))
  split
  · refine (says_of_up rfl).trans ((says_emit ?_).trans (says_of_up rfl))
    rw [hnote.1, hnote.2]
    exact .inr (.inl ⟨hk, rfl⟩)
  · exact says_of_up rfl

theorem says_answerGet (hk : j.kind = .get) :
    Says (Answered C s j) s (answerGet C N s g j t resp) := by
  unfold answerGet
  split
  · exact says_takeShard.mono fun p hp => hp.imp_right fun h => .inr ⟨hk, h.2⟩
  dsimp only
  split
  · exact (says_of_up rfl).trans (says_resolveGetFailure.mono fun p => .inl)
  · exact says_of_up rfl

theorem says_answerHead : Says (fun p => p.2.Quiet) s (answerHead C N s g j resp) := by
  unfold answerHead
  split
  · split
    · exact (says_emit (quiet_head _)).trans (says_of_up rfl)
    · exact (says_of_up rfl).trans (says_advanceHead _)
  · exact (says_of_up rfl).trans (says_advanceHead _)

theorem says_answerDelete : Says (fun p => p.2.Quiet) s (answerDelete s g j resp) := by
  unfold answerDelete
  dsimp only
  split
  · refine (says_of_up rfl).trans ((says_emit ?_).trans (says_of_up rfl))
    split
    · exact quiet_delete _
    · exact quiet_nak _
  · exact says_of_up rfl

theorem says_answerFetch (hint : s.asm.internal = true) :
    Says (fun p => p.2.Quiet) s (answerFetch C N s g j t resp) := by
  have htake : ∀ payload, Says (fun p => p.2.Quiet) s (assemblyTakeShard C N s g j t payload).1 := by
    intro payload
    refine says_takeShard.mono fun p hp => hp.elim id fun h => ?_
    rw [hint] at h
    cases h.1
  unfold answerFetch
  split
  · next payload =>
    dsimp only
    split
    · exact htake payload
    · exact (htake payload).trans (says_of_up (by simp))
  · exact says_of_up (by simp)

/-- **What a member's answer says upstream.** -/
theorem says_applyJoinResponse (hs : s.Wf C) (hj : s.io.join? g = some j) :
    Says (Answered C s j) s (applyJoinResponse C N s g j t resp) := by
  unfold applyJoinResponse
  split
  · next hk => exact says_answerPut hk
  · next hk => exact says_answerGet hk
  · exact says_answerHead.mono fun p => .inl
  · exact says_answerDelete.mono fun p => .inl
  · exact says_of_up (by simp)
  · exact says_of_up (by simp)
  · exact says_of_up (by simp)
  · next hk =>
    have hint : s.asm.internal = true := by
      rw [(hs.owner g j hj (by rw [hk]; rfl)).2.2, hk]
      rfl
    exact (says_answerFetch hint).mono fun p => .inl
  · exact says_of_up rfl
  · exact says_of_up rfl

/-! ## What the requests say -/

variable {e : EcEvent} {k : Ticket UInt8} {io : EcIo}

theorem says_handleRequest (hs : s.io.Sound) (req : BodyReq) :
    Says (fun p => p.2.Quiet) s (handleRequest C N s req) := by
  have hnak : ∀ e, Says (fun p => p.2.Quiet) s (s.emit s.upCid (.nak e)) :=
    fun e => says_emit (quiet_nak e)
  unfold handleRequest
  split
  · next body =>
    obtain ⟨e, heq⟩ | ⟨enc, g, new, fail, s', hput, heq⟩ :=
      handlePut_cases (C := C) (N := N) hs body
    · exact heq ▸ hnak e
    · rw [heq]
      split
      · exact (says_of_up hput.rest.2.1).trans
          ((says_of_up rfl).trans (says_emit (quiet_nak _)))
      · exact says_of_up hput.rest.2.1
  · next name =>
    obtain ⟨e, heq⟩ | ⟨g, new, fail, s', hget, heq⟩ :=
      handleGet_cases (C := C) (N := N) hs name
    · exact heq ▸ hnak e
    · rw [heq]
      split
      · exact (says_of_up hget.rest.1).trans says_resolveGetFailure
      · exact says_of_up hget.rest.1
  · unfold handleHead
    dsimp only
    split
    · exact hnak _
    split
    · exact hnak _
    · exact (says_of_up rfl).trans (says_advanceHead _)
  · unfold handleDelete
    dsimp only
    split
    · exact hnak _
    split
    · exact hnak _
    split
    · exact (says_of_up rfl).trans (says_emit (quiet_nak _))
    · exact says_of_up rfl
  · exact hnak _

/-- **What an event says upstream**: a store or a read is answered only as the
join whose ticket was spent. -/
theorem says_ecStep (hs : s.Wf C) (e : EcEvent) :
    Says (fun p => p.2.Quiet ∨ ∃ k io resp j, e.spends s.io = some (k, io, resp)
        ∧ s.io.join? k.join = some j ∧ Answered C s j p) s (ecStep C N s e) := by
  cases h : e.spends s.io with
  | some p =>
    obtain ⟨k, io, resp⟩ := p
    have hspends := spends_spec h
    rw [ecStep_of_spends h, answerJoin]
    split
    · exact says_of_up rfl
    next j hj =>
    intro p hp
    refine (says_applyJoinResponse (about_spends hs hspends).wf hj p hp).imp_right fun h' => ?_
    exact .inr ⟨k, io, resp, j, rfl, (hspends.join? _).symm.trans hj, h'⟩
  | none =>
    have hstale : ecStep C N s e = s → Says (fun p => p.2.Quiet ∨
        ∃ (k : Ticket UInt8) (io : EcIo) (resp : BodyResp) (j : EcJoin), none = some (k, io, resp)
          ∧ s.io.join? k.join = some j ∧ Answered C s j p) s (ecStep C N s e) :=
      fun heq => says_of_up (by rw [heq])
    cases e with
    | fleet members => exact says_of_up rfl
    | request cid req =>
      have hreq := says_handleRequest (C := C) (N := N) (s := { s with upCid := cid }) hs.sound req
      intro p hp
      exact (hreq p hp).imp_right .inl
    | oversize cid => exact says_emit (.inl (quiet_nak _))
    | scrub => exact says_of_up up_kick
    | answer t cid resp => exact hstale (by simp only [ecStep, h])
    | oversizeAnswer t cid => exact hstale (by simp only [ecStep, h])
    | expire cid => exact hstale (by simp only [ecStep, h])

/-! ## Whose request a join answers -/

/-- A join that stores or reads, as the request that opened it has it. -/
def EcJoin.AsksFor (C : EcConfig) (j : EcJoin) (req : BodyReq) : Prop :=
  (j.kind = .put ∧ ∃ body, req = .put body ∧ C.sha body = j.digest)
    ∨ j.kind = .get ∧ req = .get j.digest

theorem handlePut_opened (hs : s.Wf C) (body : Bytes) (hge : s.io.nextGen ≤ g)
    (hj : (handlePut C N s body).io.join? g = some j) :
    g = s.io.nextGen ∧ j.upCid = s.upCid ∧ j.kind = .put ∧ C.sha body = j.digest := by
  obtain ⟨e, heq⟩ | ⟨enc, g₁, new, fail, s', hput, heq⟩ :=
    handlePut_cases (C := C) (N := N) hs.sound body
  · exact (hs.none_ge hge (show s.io.join? g = some j by rw [heq] at hj; exact hj)).elim
  · have hin : s'.io.join? g = some j := by
      rw [heq] at hj
      split at hj
      · exact Fanout.join?_of_close hj
      · exact hj
    obtain ⟨rfl, rfl⟩ := hput.opens.only hge hin
    exact ⟨hput.opens.gen, rfl, rfl, rfl⟩

/-- A read opens a join that reads, and takes the assembly for its digest. -/
theorem handleGet_opened (hs : s.Wf C) (digest : Digest) (hge : s.io.nextGen ≤ g)
    (hj : (handleGet C N s digest).io.join? g = some j) :
    g = s.io.nextGen ∧ j.upCid = s.upCid ∧ j.kind = .get ∧ j.digest = digest
      ∧ (handleGet C N s digest).asm.digest = digest := by
  obtain ⟨e, heq⟩ | ⟨g₁, new, fail, s', hget, heq⟩ :=
    handleGet_cases (C := C) (N := N) hs.sound digest
  · exact (hs.none_ge hge (show s.io.join? g = some j by rw [heq] at hj; exact hj)).elim
  · rw [heq] at hj ⊢
    have hin : s'.io.join? g = some j := by
      split at hj
      · unfold resolveGetFailure at hj
        rw [hget.opens.join] at hj
        exact Fanout.join?_of_close hj
      · exact hj
    obtain ⟨rfl, rfl⟩ := hget.opens.only hge hin
    refine ⟨hget.opens.gen, rfl, rfl, rfl, ?_⟩
    split
    · unfold resolveGetFailure
      rw [hin]
      exact congrArg Assembly.digest hget.asm
    · exact congrArg Assembly.digest hget.asm

/-- A size request opens no join of another kind. -/
theorem handleHead_opened (hs : s.Wf C) (digest : Digest) (hge : s.io.nextGen ≤ g)
    (hj : (handleHead C N s digest).io.join? g = some j) (hc : j.kind.client = true) :
    j.kind = .head := by
  unfold handleHead at hj
  dsimp only at hj
  split at hj
  · exact (hs.none_ge hge hj).elim
  split at hj
  · exact (hs.none_ge hge hj).elim
  next g₁ io hstart =>
  have ho := Fanout.opens_start hs.sound hstart
  have hopen := about_client { s with io := io } hs ho rfl (.inl ⟨rfl, rfl⟩)
    (fun h => by cases h) rfl rfl rfl
  obtain ⟨habout, -⟩ := advanceHead_spec (N := N) (rankTargets C s.fleet digest).zipIdx
    hopen.wf ho.join rfl rfl
  by_cases hg : g < io.nextGen
  · -- the walk keeps the join it is about
    have heq : g = g₁ := by
      have := ho.nextGen
      have := ho.gen
      omega
    obtain ⟨j', hj', hl⟩ := habout.like (heq ▸ hg) j (heq ▸ hj)
    cases ho.join.symm.trans hj'
    exact hl.kind
  · exact absurd rfl (habout.clients g (Nat.le_of_not_lt hg) j hj hc)

theorem handleDelete_opened (hs : s.Wf C) (digest : Digest) (hge : s.io.nextGen ≤ g)
    (hj : (handleDelete C N s digest).io.join? g = some j) : j.kind = .delete := by
  unfold handleDelete at hj
  dsimp only at hj
  split at hj
  · exact (hs.none_ge hge hj).elim
  split at hj
  · exact (hs.none_ge hge hj).elim
  next g₁ io hstart =>
  generalize hqs : shardQuestions (fun i => .delete (deriveShardKey C.sha digest i))
    (rankTargets C s.fleet digest) = qs at hj
  obtain ⟨new, hasks, -⟩ := Fanout.askAll_spec C.pendingCap N g₁ qs io
  generalize Fanout.askAll C.pendingCap N g₁ qs io = asked at hasks hj
  have ho := ((Fanout.opens_start hs.sound hstart).asks hasks).modify fun j =>
    { j with fail := asked.2 }
  have hin : (asked.1.modify g₁ fun j => { j with fail := asked.2 }).join? g = some j := by
    split at hj
    · exact Fanout.join?_of_close hj
    · exact hj
  obtain ⟨-, rfl⟩ := ho.only hge hin
  rfl

/-- **A join that stores or reads is opened by its request**, and a read's takes
the assembly for its digest. -/
theorem handleRequest_opened (hs : s.Wf C) (req : BodyReq) (hge : s.io.nextGen ≤ g)
    (hj : (handleRequest C N s req).io.join? g = some j) (hk : j.kind = .put ∨ j.kind = .get) :
    g = s.io.nextGen ∧ j.upCid = s.upCid ∧ j.AsksFor C req
      ∧ (j.kind = .get → (handleRequest C N s req).asm.digest = j.digest) := by
  unfold handleRequest at hj ⊢
  cases req with
  | put body =>
    obtain ⟨hg, hcid, hput, hd⟩ := handlePut_opened hs body hge hj
    exact ⟨hg, hcid, .inl ⟨hput, body, rfl, hd⟩, fun h => absurd (hput.symm.trans h) (by simp)⟩
  | get digest =>
    obtain ⟨hg, hcid, hget, rfl, hasm⟩ := handleGet_opened hs digest hge hj
    exact ⟨hg, hcid, .inr ⟨hget, rfl⟩, fun _ => hasm⟩
  | head digest =>
    have := handleHead_opened hs digest hge hj (by rcases hk with h | h <;> rw [h] <;> rfl)
    simp [this] at hk
  | delete digest =>
    have := handleDelete_opened hs digest hge hj
    simp [this] at hk
  | _ => exact (hs.none_ge hge hj).elim

/-- A step opens a join that stores or reads only for a request. -/
theorem ecStep_opened (hs : s.Wf C) (e : EcEvent) (hge : s.io.nextGen ≤ g)
    (hj : (ecStep C N s e).io.join? g = some j) (hk : j.kind = .put ∨ j.kind = .get) :
    g = s.io.nextGen ∧ ∃ req, e = .request j.upCid req ∧ j.AsksFor C req
      ∧ (j.kind = .get → (ecStep C N s e).asm.digest = j.digest) := by
  have hc : j.kind.client = true := by rcases hk with h | h <;> rw [h] <;> rfl
  obtain ⟨g', hg'⟩ := exists_spender s e
  have hasks := (ecStep_about (N := N) hs e hg').clients g (by simpa using hge) j hj hc
  cases e with
  | request cid req =>
    have hs' : EcState.Wf C { s with upCid := cid } :=
      ⟨hs.sound, hs.owner, hs.busy, hs.idle, hs.ident, hs.reads⟩
    obtain ⟨hg, rfl, hfor, hasm⟩ := handleRequest_opened hs' req hge hj hk
    exact ⟨hg, req, rfl, hfor, hasm⟩
  | oversize cid => exact (hs.none_ge hge hj).elim
  | _ => exact absurd rfl hasks

/-- A join that stores or reads was opened by a request of the run. -/
def Asked (C : EcConfig) (N : ℕ → Bool) (es : List EcEvent) (g : ℕ) (j : EcJoin) : Prop :=
  ∃ es₀ req es₁, es = es₀ ++ .request j.upCid req :: es₁ ∧ (ecRun C N es₀).io.nextGen = g
    ∧ j.AsksFor C req

theorem Asked.snoc {es : List EcEvent} {j' : EcJoin} (h : Asked C N es g j) (hl : j.Like j')
    (e : EcEvent) : Asked C N (es ++ [e]) g j' := by
  obtain ⟨es₀, req, es₁, rfl, hg, hfor⟩ := h
  refine ⟨es₀, req, es₁ ++ [e], by rw [hl.upCid]; simp, hg, ?_⟩
  rw [EcJoin.AsksFor, hl.kind, hl.digest]
  exact hfor

/-- An answer to a read keeps the digest its body is checked against, and asks
nobody. -/
theorem answerGet_keeps (hs : s.Wf C) (hj : s.io.join? g = some j) (hk : j.kind = .get) :
    (answerGet C N s g j t resp).asm.digest = s.asm.digest ∧
      (answerGet C N s g j t resp).io.awaited = s.io.awaited := by
  have hfailed : ∀ s : EcState, (resolveGetFailure s g).asm.digest = s.asm.digest ∧
      (resolveGetFailure s g).io.awaited = s.io.awaited := by
    intro s
    unfold resolveGetFailure
    split <;> exact ⟨rfl, rfl⟩
  have hint : s.asm.internal = false := by
    rw [(hs.owner g j hj (by rw [hk]; rfl)).2.2, hk]
    rfl
  unfold answerGet
  split
  · unfold assemblyTakeShard
    split
    · exact ⟨rfl, rfl⟩
    next a haccept =>
    obtain ⟨i, hdr, shard, htakes⟩ := accept_eq_some haccept
    have hsame : a.internal = s.asm.internal ∧ a.digest = s.asm.digest := by
      rw [htakes.eq]
      exact ⟨rfl, rfl⟩
    rw [hint] at hsame
    dsimp only
    split
    · exact ⟨hsame.2, rfl⟩
    split <;> simp only [hsame.1, Bool.false_eq_true, if_false]
    · exact ⟨(hfailed _).1.trans hsame.2, (hfailed _).2⟩
    · exact ⟨hsame.2, rfl⟩
  · dsimp only
    split
    · exact ⟨(hfailed _).1, (hfailed _).2⟩
    · exact ⟨rfl, rfl⟩

/-- While a read is in hand the assembly keeps its digest. -/
theorem ecStep_digest (hs : s.Wf C) (e : EcEvent) (hj : s.io.join? g = some j)
    (hk : j.kind = .get) : (ecStep C N s e).asm.digest = s.asm.digest := by
  by_cases hspent : ∃ k io resp, e.spends s.io = some (k, io, resp) ∧ k.join = g
  · obtain ⟨k, io, resp, h, rfl⟩ := hspent
    have hspends := spends_spec h
    have hj' : io.join? k.join = some j := (hspends.join? _).trans hj
    rw [ecStep_of_spends h, answerJoin]
    simp only [hj', applyJoinResponse, hk]
    exact (answerGet_keeps (about_spends hs hspends).wf hj' hk).1
  · obtain ⟨hbusy, hown, -⟩ := hs.owner g j hj (by rw [hk]; rfl)
    exact congrArg Assembly.digest ((ecStep_same hs (Fanout.join?_lt hs.sound hj)
      fun k io resp h hk => hspent ⟨k, io, resp, h, hk⟩).2 hbusy hown)

/-- What a run keeps of its stores and reads. -/
structure Heard (C : EcConfig) (N : ℕ → Bool) (es : List EcEvent) : Prop where
  wf : (ecRun C N es).Wf C
  asked : ∀ g j, (ecRun C N es).io.join? g = some j → j.kind = .put ∨ j.kind = .get →
    Asked C N es g j
  /-- The assembly is for the digest its read asked for. -/
  digest : ∀ g j, (ecRun C N es).io.join? g = some j → j.kind = .get →
    (ecRun C N es).asm.digest = j.digest

theorem ecRun_snoc (es : List EcEvent) (e : EcEvent) :
    ecRun C N (es ++ [e]) = ecStep C N (ecRun C N es) e :=
  Run.run_append

/-- **A run keeps it.** -/
theorem heard_run (es : List EcEvent) : Heard C N es := by
  induction es using List.reverseRecOn with
  | nil => exact ⟨wf_init C, fun g j hj => (by cases hj), fun g j hj => (by cases hj)⟩
  | append_singleton es e ih =>
    have hwf := ecStep_wf (N := N) ih.wf e
    refine ⟨ecRun_snoc es e ▸ hwf, fun g j hj hk => ?_, fun g j hj hk => ?_⟩
    · rw [ecRun_snoc] at hj
      by_cases hlt : g < (ecRun C N es).io.nextGen
      · obtain ⟨j₀, hj₀, hl⟩ := ecStep_like ih.wf e hlt hj
        exact (ih.asked g j₀ hj₀ (hl.kind ▸ hk)).snoc hl e
      · obtain ⟨rfl, req, rfl, hfor, -⟩ := ecStep_opened ih.wf e (Nat.le_of_not_lt hlt) hj hk
        exact ⟨es, req, [], rfl, rfl, hfor⟩
    · rw [ecRun_snoc] at hj ⊢
      by_cases hlt : g < (ecRun C N es).io.nextGen
      · obtain ⟨j₀, hj₀, hl⟩ := ecStep_like ih.wf e hlt hj
        rw [ecStep_digest ih.wf e hj₀ (hl.kind ▸ hk), hl.digest]
        exact ih.digest g j₀ hj₀ (hl.kind ▸ hk)
      · obtain ⟨-, req, -, -, hasm⟩ := ecStep_opened ih.wf e (Nat.le_of_not_lt hlt) hj (.inr hk)
        exact hasm hk

/-- **A read answers a body that has the digest it was asked for.** -/
theorem read_of_up {es : List EcEvent} {c : UInt32} {p : Option Bytes}
    (h : (c, .get p) ∈ (ecRun C N es).up) :
    ∃ digest body, .request c (.get digest) ∈ es ∧ p = some body ∧ C.sha body = digest := by
  induction es using List.reverseRecOn with
  | nil => cases h
  | append_singleton es e ih =>
    have hheard := heard_run (C := C) (N := N) es
    rw [ecRun_snoc] at h
    rcases says_ecStep hheard.wf e _ h with h | h | ⟨k, io, resp, j, -, hj, h⟩
    · obtain ⟨digest, body, hmem, hp, hd⟩ := ih h
      exact ⟨digest, body, List.mem_append_left _ hmem, hp, hd⟩
    · exact absurd rfl (h.2 p)
    · rcases h with h | ⟨-, h⟩ | ⟨hk, body, hd, h⟩
      · exact absurd rfl (h.2 p)
      · cases h
      · cases h
        obtain ⟨es₀, req, es₁, rfl, -, hfor⟩ := hheard.asked _ j hj (.inr hk)
        rcases hfor with ⟨hput, -⟩ | ⟨-, rfl⟩
        · rw [hk] at hput
          cases hput
        · exact ⟨j.digest, body, by simp, rfl, hd.trans (hheard.digest _ j hj hk)⟩

end Upstream

end Loam

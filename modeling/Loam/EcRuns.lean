import Loam.EcAnswers
import Loam.RouterTables

/-!
# Runs of the erasure-coding router

What an event leaves of the joins and the assembly: each join that owes an answer,
and the one that holds the assembly, can still take as many answers as it awaits
(`EcState.Inv`), as long as no member answers a read with a record the assembly
turns away (`EcEvent.Counted`).
-/

namespace Loam

open Fanout (Same Grows Asks Spends Ticket Opens)

/-! ## Requests -/

section Requests

variable {C : EcConfig} {N : ℕ → Bool} {s s' : EcState} {fleet : List UInt8} {digest : Digest}

theorem length_rankTargets (h : rankTargets C fleet digest ≠ []) :
    (rankTargets C fleet digest).length = C.k + C.m := by
  unfold rankTargets at h ⊢
  dsimp only at h ⊢
  split at h
  · exact absurd rfl h
  split at h
  · next hlen hchosen =>
    rw [if_neg hlen, if_pos hchosen]
    exact hchosen
  · exact absurd rfl h

theorem nodup_rankTargets : (rankTargets C fleet digest).Nodup := by
  unfold rankTargets
  dsimp only
  split
  · exact List.nodup_nil
  split
  · exact nodup_pickTargets _ _ _
  · exact List.nodup_nil

theorem map_fst_shardQuestions (req : ℕ → BodyReq) (targets : List UInt8) :
    (shardQuestions req targets).map Prod.fst = targets := by
  rw [shardQuestions, List.map_map]
  exact List.zipIdx_map_fst 0 targets

theorem length_shardQuestions (req : ℕ → BodyReq) (targets : List UInt8) :
    (shardQuestions req targets).length = targets.length := by
  simp [shardQuestions]

variable (s') in
theorem about_client {g : ℕ} {j : EcJoin} {new : List (Ticket UInt8)} (hs : s.Wf C)
    (ho : Opens g j new s.io s'.io) (hj : j.kind.client = true)
    (hasm : j.kind.gathers = false ∧ s'.asm = s.asm ∨ j.kind.gathers = true ∧ s.asm.busy = false
      ∧ s'.asm.busy = true ∧ s'.asm.join = g ∧ s'.asm.internal = decide (j.kind = .scrubFetch))
    (hread : j.kind = .get → j.targets.length = C.k + C.m ∧ (new.map Ticket.peer).Nodup
      ∧ ∀ i, s'.asm.shards i = none)
    (hup : s'.up = s.up) (hfleet : s'.fleet = s.fleet)
    (hident : s'.scrub.identIndex = s.scrub.identIndex) : About C g (single j.upCid) s s' := by
  have h := about_opened s' hs ho hasm hread hup hfleet hident
  have hd : (fun c => if (j.kind.client && j.upCid == c) = true then 1 else 0) = single j.upCid := by
    funext c
    simp [hj, single]
  rwa [hd] at h

/-- A store opened a join and asked its targets. -/
structure OpensPut (C : EcConfig) (s : EcState) (body : Bytes) (enc : List Bytes) (g : ℕ)
    (new : List (Ticket UInt8)) (fail : ℕ) (s' : EcState) : Prop where
  coded : encode body C.k C.m = some enc
  fits : body.length ≤ maxBody
  targets : rankTargets C s.fleet (C.sha body) ≠ []
  opens : Opens g { kind := .put, need := (rankTargets C s.fleet (C.sha body)).length, fail := fail
                    upCid := s.upCid, digest := C.sha body } new s.io s'.io
  /-- The targets that took the question, and those that refused. -/
  count : new.length + fail = (rankTargets C s.fleet (C.sha body)).length
  peers : (new.map Ticket.peer).Sublist (rankTargets C s.fleet (C.sha body))
  asked : ∀ t ∈ new, ∃ i, (rankTargets C s.fleet (C.sha body))[i]? = some t.peer ∧
    (⟨t.cid, t.peer, .putKeyed (deriveShardKey C.sha (C.sha body) i) (shardBlob C body enc i)⟩ :
      Fanout.Question UInt8 BodyReq) ∈ s'.io.sent
  rest : s'.asm = s.asm ∧ s'.up = s.up ∧ s'.fleet = s.fleet ∧ s'.scrub = s.scrub

theorem mem_shardQuestions {req : ℕ → BodyReq} {targets : List UInt8} {q : UInt8 × BodyReq}
    (h : q ∈ shardQuestions req targets) : ∃ i, targets[i]? = some q.1 ∧ q.2 = req i := by
  obtain ⟨⟨t, i⟩, hp, rfl⟩ := List.mem_map.mp h
  exact ⟨i, by simpa using List.mem_zipIdx_iff_getElem?.mp hp, rfl⟩

theorem handlePut_cases (hs : s.io.Sound) (body : Bytes) :
    (∃ e, handlePut C N s body = s.emit s.upCid (.nak e)) ∨
      ∃ enc g new fail s', OpensPut C s body enc g new fail s' ∧ handlePut C N s body =
        if fail = (rankTargets C s.fleet (C.sha body)).length
          then (s'.freeJoin g).emit s.upCid (.nak errIo) else s' := by
  unfold handlePut
  dsimp only
  split
  · exact .inl ⟨_, rfl⟩
  next hfits =>
  split
  · exact .inl ⟨_, rfl⟩
  split
  · exact .inl ⟨_, rfl⟩
  next htargets =>
  split
  · exact .inl ⟨_, rfl⟩
  split
  · exact .inl ⟨_, rfl⟩
  next enc henc =>
  split
  · exact .inl ⟨_, rfl⟩
  next g io hstart =>
  refine .inr ⟨enc, g, ?_⟩
  generalize hqs : shardQuestions (fun i =>
    .putKeyed (deriveShardKey C.sha (C.sha body) i) (shardBlob C body enc i))
      (rankTargets C s.fleet (C.sha body)) = qs
  obtain ⟨new, hasks, hcount⟩ := Fanout.askAll_spec C.pendingCap N g qs io
  generalize Fanout.askAll C.pendingCap N g qs io = asked at hasks hcount ⊢
  refine ⟨new, asked.2, EcState.setJoin { s with io := asked.1 } g
    fun j => { j with fail := asked.2 }, ⟨henc, Nat.le_of_not_lt hfits, htargets,
    ((Fanout.opens_start hs hstart).asks hasks).modify fun j =>
      { j with fail := asked.2 }, ?_, ?_, fun t ht => ?_, rfl, rfl, rfl, rfl⟩, rfl⟩
  · rw [hcount, ← hqs, length_shardQuestions]
  · have := hasks.peers
    rwa [← hqs, map_fst_shardQuestions] at this
  · obtain ⟨q, hq, hpeer, hsent⟩ := hasks.asked t ht
    obtain ⟨i, hi, hreq⟩ := mem_shardQuestions (hqs ▸ hq)
    exact ⟨i, hpeer ▸ hi, by rw [← hpeer, ← hreq]; exact hsent⟩

/-- **A store is taken**: refused at once, or a join waits for its targets. -/
theorem handlePut_spec (hs : s.Wf C) (body : Bytes) (g : ℕ) :
    About C g (single s.upCid) s (handlePut C N s body) := by
  obtain ⟨e, heq⟩ | ⟨enc, g₁, new, fail, s', hput, heq⟩ :=
    handlePut_cases (C := C) (N := N) hs.sound body
  · exact heq ▸ about_emit hs s.upCid _
  · obtain ⟨hasm, hup, hfleet, hscrub⟩ := hput.rest
    have hopen := about_client s' hs hput.opens rfl (.inl ⟨rfl, hasm⟩) (fun h => by cases h) hup hfleet
      (by rw [hscrub])
    rw [heq]
    split
    · have hanswer := about_answer hopen.wf hput.opens.join rfl rfl (.nak errIo)
      exact (hopen.trans hanswer).forget hs (Nat.le_of_eq hput.opens.gen.symm)
        (countsAt_of_closed closed_free) g
    next hsome =>
    refine hopen.forget hs (Nat.le_of_eq hput.opens.gen.symm) (countsAt_of_opens hput.opens
      ((EcJoin.counts_put rfl).mpr ?_)) g
    have hcount := hput.count
    change 0 < new.length ∧ 0 + fail + new.length = (rankTargets C s.fleet (C.sha body)).length
    omega

/-- A read opened a join, took the assembly and asked its targets. -/
structure OpensGet (C : EcConfig) (s : EcState) (digest : Digest) (g : ℕ)
    (new : List (Ticket UInt8)) (fail : ℕ) (s' : EcState) : Prop where
  idle : s.asm.busy = false
  targets : rankTargets C s.fleet digest ≠ []
  opens : Opens g { kind := .get, need := (rankTargets C s.fleet digest).length, fail := fail
                    targets := rankTargets C s.fleet digest, upCid := s.upCid, digest := digest }
    new s.io s'.io
  /-- The targets that took the question, and those that refused. -/
  count : new.length + fail = (rankTargets C s.fleet digest).length
  peers : (new.map Ticket.peer).Sublist (rankTargets C s.fleet digest)
  asked : ∀ t ∈ new, ∃ i, (rankTargets C s.fleet digest)[i]? = some t.peer ∧
    (⟨t.cid, t.peer, .get (deriveShardKey C.sha digest i)⟩ : Fanout.Question UInt8 BodyReq)
      ∈ s'.io.sent
  asm : s'.asm = { s.asm with busy := true, join := g, shards := fun _ => none, shardLen := 0
                              bodyLen := 0, digest := digest }
  rest : s'.up = s.up ∧ s'.fleet = s.fleet ∧ s'.scrub = s.scrub

theorem handleGet_cases (hs : s.io.Sound) (digest : Digest) :
    (∃ e, handleGet C N s digest = s.emit s.upCid (.nak e)) ∨
      ∃ g new fail s', OpensGet C s digest g new fail s' ∧
        handleGet C N s digest = if C.m < fail then resolveGetFailure s' g else s' := by
  unfold handleGet
  dsimp only
  split
  · exact .inl ⟨_, rfl⟩
  next hidle =>
  split
  · exact .inl ⟨_, rfl⟩
  next htargets =>
  split
  · exact .inl ⟨_, rfl⟩
  next g io hstart =>
  refine .inr ⟨g, ?_⟩
  generalize hqs : shardQuestions (fun i => .get (deriveShardKey C.sha digest i))
    (rankTargets C s.fleet digest) = qs
  obtain ⟨new, hasks, hcount⟩ := Fanout.askAll_spec C.pendingCap N g qs io
  generalize Fanout.askAll C.pendingCap N g qs io = asked at hasks hcount ⊢
  refine ⟨new, asked.2, EcState.setJoin { s with
      io := asked.1
      asm := { s.asm with busy := true, join := g, shards := fun _ => none, shardLen := 0
                          bodyLen := 0, digest := digest } } g
    fun j => { j with fail := asked.2 }, ⟨by simpa using hidle, htargets,
      ((Fanout.opens_start hs hstart).asks hasks).modify fun j =>
        { j with fail := asked.2 }, ?_, ?_, fun t ht => ?_, rfl, rfl, rfl, rfl⟩, rfl⟩
  · rw [hcount, ← hqs, length_shardQuestions]
  · have := hasks.peers
    rwa [← hqs, map_fst_shardQuestions] at this
  · obtain ⟨q, hq, hpeer, hsent⟩ := hasks.asked t ht
    obtain ⟨i, hi, hreq⟩ := mem_shardQuestions (hqs ▸ hq)
    exact ⟨i, hpeer ▸ hi, by rw [← hpeer, ← hreq]; exact hsent⟩

/-- The read's join waits for its targets, unless too many refused. -/
theorem OpensGet.counts {g fail : ℕ} {new : List (Ticket UInt8)}
    (h : OpensGet C s digest g new fail s') (hfew : fail ≤ C.m) : s'.CountsAt C g := by
  have hzero : s'.asm.gathered C = 0 := by simp [Assembly.gathered, h.asm]
  have htwo := C.two_le
  have hcount := h.count
  rw [length_rankTargets h.targets] at hcount
  refine countsAt_of_opens h.opens ((EcJoin.counts_get rfl).mpr ?_)
  rw [hzero]
  change 0 < C.k ∧ fail ≤ C.m ∧ 0 + fail + new.length = C.k + C.m
  omega

theorem OpensGet.about {g fail : ℕ} {new : List (Ticket UInt8)}
    (h : OpensGet C s digest g new fail s') (hs : s.Wf C) : About C g (single s.upCid) s s' := by
  obtain ⟨hup, hfleet, hscrub⟩ := h.rest
  refine about_client _ hs h.opens rfl (.inr ⟨rfl, h.idle, ?_⟩) (fun _ => ⟨length_rankTargets h.targets,
    h.peers.nodup nodup_rankTargets, fun i => ?_⟩) hup hfleet (by rw [hscrub])
  · rw [h.asm]
    exact ⟨rfl, rfl, hs.idle h.idle⟩
  · rw [h.asm]

/-- **A read is taken**: refused at once, or it takes the assembly. -/
theorem handleGet_spec (hs : s.Wf C) (digest : Digest) (g : ℕ) :
    About C g (single s.upCid) s (handleGet C N s digest) := by
  obtain ⟨e, heq⟩ | ⟨g₁, new, fail, s', hget, heq⟩ :=
    handleGet_cases (C := C) (N := N) hs.sound digest
  · exact heq ▸ about_emit hs s.upCid _
  · have hopen := hget.about hs
    rw [heq]
    split
    · obtain ⟨habout, hclosed⟩ := resolveGetFailure_spec hopen.wf hget.opens.join rfl
      exact (hopen.trans habout).forget hs (Nat.le_of_eq hget.opens.gen.symm)
        (countsAt_of_closed hclosed) g
    · next hfew =>
      exact hopen.forget hs (Nat.le_of_eq hget.opens.gen.symm)
        (hget.counts (Nat.le_of_not_lt hfew)) g

/-- **A size request is taken**: refused at once, or the walk starts. -/
theorem handleHead_spec (hs : s.Wf C) (digest : Digest) (g : ℕ) :
    About C g (single s.upCid) s (handleHead C N s digest) := by
  have hemit : ∀ r, About C g (single s.upCid) s (s.emit s.upCid r) := about_emit hs s.upCid
  unfold handleHead
  dsimp only
  split
  · exact hemit _
  split
  · exact hemit _
  next g₁ io hstart =>
  generalize rankTargets C s.fleet digest = targets at hstart ⊢
  have ho := Fanout.opens_start hs.sound hstart
  have hopen := about_client { s with io := io } hs ho rfl (.inl ⟨rfl, rfl⟩)
    (fun h => by cases h) rfl rfl rfl
  obtain ⟨habout, hwaits⟩ := advanceHead_spec (N := N) targets.zipIdx hopen.wf ho.join rfl rfl
  exact (hopen.trans habout).forget hs (Nat.le_of_eq ho.gen.symm)
    (fun j hj => (hwaits _ (Nat.lt_succ_self _) j hj).1) g

/-- **A removal is taken**: refused at once, or a join waits for its targets. -/
theorem handleDelete_spec (hs : s.Wf C) (digest : Digest) (g : ℕ) :
    About C g (single s.upCid) s (handleDelete C N s digest) := by
  have hemit : ∀ r, About C g (single s.upCid) s (s.emit s.upCid r) := about_emit hs s.upCid
  unfold handleDelete
  dsimp only
  split
  · exact hemit _
  split
  · exact hemit _
  next g₁ io hstart =>
  generalize rankTargets C s.fleet digest = targets at hstart ⊢
  generalize hqs : shardQuestions (fun i => .delete (deriveShardKey C.sha digest i)) targets = qs
  have hlen : qs.length = targets.length := hqs ▸ length_shardQuestions _ _
  obtain ⟨new, hasks, hcount⟩ := Fanout.askAll_spec C.pendingCap N g₁ qs io
  generalize Fanout.askAll C.pendingCap N g₁ qs io = asked at hasks hcount
  have ho := ((Fanout.opens_start hs.sound hstart).asks hasks).modify fun j =>
    { j with fail := asked.2 }
  have hopen := about_client (EcState.setJoin { s with io := asked.1 } g₁
    fun j => { j with fail := asked.2 }) hs ho rfl (.inl ⟨rfl, rfl⟩)
      (fun h => by cases h) rfl rfl rfl
  split
  · have hanswer := about_answer hopen.wf ho.join rfl rfl (.nak errIo)
    exact (hopen.trans hanswer).forget hs (Nat.le_of_eq ho.gen.symm)
      (countsAt_of_closed closed_free) g
  refine hopen.forget hs (Nat.le_of_eq ho.gen.symm) (countsAt_of_opens ho
    ((EcJoin.counts_delete rfl).mpr ?_)) g
  change 0 < ([] ++ new).length ∧ 0 + asked.2 + ([] ++ new).length = targets.length
  rw [List.nil_append]
  omega

theorem handleRequest_spec (hs : s.Wf C) (req : BodyReq) (g : ℕ) :
    About C g (single s.upCid) s (handleRequest C N s req) := by
  unfold handleRequest
  split
  · exact handlePut_spec hs _ g
  · exact handleGet_spec hs _ g
  · exact handleHead_spec hs _ g
  · exact handleDelete_spec hs _ g
  · exact about_emit hs _ _

end Requests

/-! ## Events -/

section Events

/-- The requests an event takes under an id. -/
def EcEvent.asks (c : UInt32) : EcEvent → ℕ
  | .request cid _ | .oversize cid => single cid c
  | _ => 0

/-- The requests a run takes under an id. -/
def requests (c : UInt32) (es : List EcEvent) : ℕ := (es.map (EcEvent.asks c)).sum

/-- An event is counted: it is no answer to a read whose record the assembly
turns away. -/
def EcEvent.Counted (C : EcConfig) (s : EcState) (e : EcEvent) : Prop :=
  ∀ k io payload, e.spends s.io = some (k, io, .get payload) →
    ∀ j, s.io.join? k.join = some j → j.kind = .get →
      (s.asm.accept C j.targets k.peer payload).isSome

/-- The tickets of a join an event spends: one or none. -/
def EcEvent.spendsOf (g : ℕ) (s : EcState) (e : EcEvent) : ℕ :=
  match e.spends s.io with
  | some (k, _) => if k.join = g then 1 else 0
  | none => 0

variable {C : EcConfig} {N : ℕ → Bool} {s s' : EcState} {e : EcEvent} {g : ℕ} {j : EcJoin}
  {k : Ticket UInt8} {io : EcIo} {resp : BodyResp}

/-- An event that spends a ticket hands its answer to the join. -/
theorem ecStep_of_spends (h : e.spends s.io = some (k, io, resp)) :
    ecStep C N s e = answerJoin C N { s with io := io } k.join k.peer resp := by
  unfold ecStep
  cases e <;> simp only [h] <;> simp [EcEvent.spends] at h

theorem about_spends (hs : s.Wf C) (h : Spends k s.io io) :
    About C k.join 0 s { s with io := io } := by
  have hwf : EcState.Wf C { s with io := io } := by
    refine ⟨h.sound hs.sound, fun g' j' hj' => hs.owner g' j' ((h.join? g').symm.trans hj'),
      fun hb => ?_, hs.idle, hs.ident, fun g' j' hj' hk => ?_⟩
    · obtain ⟨j', hj', hg⟩ := hs.busy hb
      exact ⟨j', (h.join? _).trans hj', hg⟩
    · obtain ⟨hlen, hnodup, hunseen⟩ := hs.reads g' j' ((h.join? g').symm.trans hj') hk
      have hsub : (io.tickets g').Sublist (s.io.tickets g') := by
        by_cases heq : g' = k.join
        · rw [heq, h.tickets]
          exact List.filter_sublist
        · rw [(h.same hs.sound heq).2]
      exact ⟨hlen, hnodup.sublist (hsub.map _), fun t ht => hunseen t (hsub.subset ht)⟩
  have hgen : io.nextGen = s.io.nextGen := by rw [h.eq]
  exact ⟨hwf, Nat.le_of_eq hgen.symm, fun g' _ hne => h.same hs.sound hne,
    fun g' hge _ => hwf.countsAt_ge (hgen.symm ▸ hge), fun _ _ => rfl,
    fun c => congrArg (s.answered c + ·) h.count, rfl,
    fun _ j' hj' => ⟨j', (h.join? _).symm.trans hj', .refl j'⟩,
    fun g' hge _ hj' => (hwf.none_ge (hgen.symm ▸ hge) hj').elim, by rw [h.eq]⟩

/-- The peer of a spent ticket is awaited no more, and its shard is new. -/
theorem EcState.Wf.spent (hs : s.Wf C) (h : Spends k s.io io) (hj : s.io.join? k.join = some j)
    (hk : j.kind = .get) : k.peer ∉ (io.tickets k.join).map Ticket.peer ∧
      ∀ i, j.targets.findIdx? (fun t' => t' = k.peer) = some i → s.asm.shards i = none := by
  obtain ⟨-, hnodup, hunseen⟩ := hs.reads k.join j hj hk
  refine ⟨fun hmem => ?_, hunseen k h.mem_tickets⟩
  obtain ⟨t, ht, hpeer⟩ := List.mem_map.mp hmem
  rw [h.tickets] at ht
  obtain ⟨ht, hne⟩ := List.mem_filter.mp ht
  have := List.inj_on_of_nodup_map hnodup ht h.mem_tickets hpeer
  simp [this] at hne

/-- **A spent ticket** is about its join, which goes on as it should if the
event is counted. -/
theorem answer_spec (hs : s.Wf C) (h : e.spends s.io = some (k, io, resp)) :
    About C k.join 0 s (ecStep C N s e) ∧
      (s.CountsAt C k.join → e.Counted C s → (ecStep C N s e).CountsAt C k.join ∧
        ∀ j, s.io.join? k.join = some j → ¬j.Inert →
          (ecStep C N s e).Waits C k.join (s.left k.join)) := by
  have hspends := spends_spec h
  have hspent := about_spends hs hspends
  rw [ecStep_of_spends h, answerJoin]
  split
  · next hnone =>
    exact ⟨hspent, fun _ _ => ⟨countsAt_of_closed hnone, fun _ _ _ => waits_of_closed hnone⟩⟩
  next j hj =>
  have hj₀ : s.io.join? k.join = some j := (hspends.join? _).symm.trans hj
  obtain ⟨habout, hwaits⟩ := applyJoinResponse_spec (N := N) (t := k.peer) resp
    hspent.wf hj (fun hk => (hs.spent hspends hj₀ hk).1) fun hk => (hs.spent hspends hj₀ hk).2
  refine ⟨hspent.trans habout, fun hc hok => ?_⟩
  have hlen := hspends.length_tickets hs.sound
  have hc' := hc j hj₀
  rw [← hlen] at hc'
  obtain ⟨hon, hcounts⟩ := hwaits hc' fun hk payload hp => hok k io payload (hp ▸ h) j hj₀ hk
  refine ⟨hcounts, fun j' hj' hi => ?_⟩
  rw [hj₀] at hj'
  cases hj'
  rw [EcState.left, hj₀, Option.map_some, Option.getD_some, ← hlen]
  exact hon hi

/-- The state an event is met in: a snapshot has replaced the fleet. -/
def EcEvent.meets (s : EcState) : EcEvent → EcState
  | .fleet members => { s with fleet := members.take maxFleet }
  | _ => s

@[simp] theorem io_meets (s : EcState) (e : EcEvent) : (e.meets s).io = s.io := by cases e <;> rfl

@[simp] theorem asm_meets (s : EcState) (e : EcEvent) : (e.meets s).asm = s.asm := by cases e <;> rfl

@[simp] theorem owed_meets (s : EcState) (e : EcEvent) (c : UInt32) :
    (e.meets s).owed c = s.owed c := by cases e <;> rfl

theorem EcState.Wf.meets (hs : s.Wf C) (e : EcEvent) : (e.meets s).Wf C := by
  cases e <;> first | exact hs | exact ⟨hs.sound, hs.owner, hs.busy, hs.idle, hs.ident, hs.reads⟩

/-- **What one event does**: it is about the join whose ticket it spends, if it
spends one, and about no other. -/
theorem ecStep_about (hs : s.Wf C) (e : EcEvent)
    (hg : ∀ k io resp, e.spends s.io = some (k, io, resp) → k.join = g) :
    About C g (fun c => e.asks c) (e.meets s) (ecStep C N s e) := by
  have hticket : ∀ k io resp, e.spends s.io = some (k, io, resp) → e.meets s = s →
      (fun c => e.asks c) = 0 → About C g (fun c => e.asks c) (e.meets s) (ecStep C N s e) := by
    intro k io resp h hm hz
    rw [hm, hz, ← hg k io resp h]
    exact (answer_spec hs h).1
  have hstale : e.spends s.io = none → ecStep C N s e = s → e.meets s = s →
      (fun c => e.asks c) = 0 → About C g (fun c => e.asks c) (e.meets s) (ecStep C N s e) := by
    intro _ heq hm hz
    rw [hm, hz, heq]
    exact .refl hs
  cases e with
  | fleet members => exact .refl (hs.meets (.fleet members))
  | request cid req =>
    have hs' : EcState.Wf C { s with upCid := cid } :=
      ⟨hs.sound, hs.owner, hs.busy, hs.idle, hs.ident, hs.reads⟩
    have h := handleRequest_spec (N := N) hs' req g
    exact ⟨h.wf, h.nextGen, h.keeps, h.fresh, h.asm, h.owed, h.fleet, h.like, h.clients, h.sent⟩
  | oversize cid => exact about_emit hs cid _
  | scrub => exact (extra_kick hs.sound).about hs
  | answer t cid resp =>
    cases h : (EcEvent.answer t cid resp).spends s.io with
    | none => exact hstale h (by simp only [ecStep, h]) rfl rfl
    | some p => exact hticket _ _ _ h rfl rfl
  | oversizeAnswer t cid =>
    cases h : (EcEvent.oversizeAnswer t cid).spends s.io with
    | none => exact hstale h (by simp only [ecStep, h]) rfl rfl
    | some p => exact hticket _ _ _ h rfl rfl
  | expire cid =>
    cases h : (EcEvent.expire cid).spends s.io with
    | none => exact hstale h (by simp only [ecStep, h]) rfl rfl
    | some p => exact hticket _ _ _ h rfl rfl

/-- The joins are told apart, and each waits for what it should. -/
structure EcState.Inv (C : EcConfig) (s : EcState) : Prop where
  wf : s.Wf C
  counts : ∀ g, s.CountsAt C g

theorem wf_init (C : EcConfig) : (EcState.init C).Wf C := by
  refine ⟨Fanout.sound_empty, fun g j hj => ?_, fun h => ?_, fun _ => rfl, ?_, fun g j hj => ?_⟩
  · cases hj
  · cases h
  · have := C.two_le
    change 0 < C.k + C.m
    omega
  · cases hj

theorem inv_init (C : EcConfig) : (EcState.init C).Inv C :=
  ⟨wf_init C, fun _ _ hj => by cases hj⟩

theorem ecStep_wf (hs : s.Wf C) (e : EcEvent) : (ecStep C N s e).Wf C := by
  cases h : e.spends s.io with
  | none => exact (ecStep_about (g := 0) hs e fun _ _ _ h' => by rw [h] at h'; cases h').wf
  | some p => exact (answer_spec hs h).1.wf

/-- A join an event spends no ticket of goes on as it did. -/
theorem countsAt_of_about {d : UInt32 → ℕ} {g' : ℕ} (hs : s.Inv C)
    (h : About C g d (e.meets s) s') (hne : g' ≠ g) : s'.CountsAt C g' := by
  by_cases hlt : g' < s.io.nextGen
  · have hmeets : (e.meets s).CountsAt C g' :=
      (hs.counts g').of_same ⟨by simp, by simp⟩ fun _ _ _ => asm_meets s e
    refine hmeets.of_same (h.keeps g' (by simpa using hlt) hne) fun j hj hgat => ?_
    obtain ⟨hb, hown, -⟩ := (hs.wf.meets e).owner g' j hj hgat
    exact h.asm hb (hown ▸ hne)
  · exact h.fresh g' (by simpa using hlt) hne

/-- **A counted event keeps every join waiting for what it should.** -/
theorem ecStep_inv (hs : s.Inv C) (hok : e.Counted C s) : (ecStep C N s e).Inv C := by
  refine ⟨ecStep_wf hs.wf e, fun g' => ?_⟩
  cases h : e.spends s.io with
  | none =>
    exact countsAt_of_about hs (ecStep_about (g := g' + 1) hs.wf e fun _ _ _ h' => by
      rw [h] at h'; cases h') (Nat.ne_of_lt (Nat.lt_succ_self _))
  | some p =>
    obtain ⟨k, io, resp⟩ := p
    by_cases heq : g' = k.join
    · rw [heq]
      exact ((answer_spec hs.wf h).2 (hs.counts _) hok).1
    · refine countsAt_of_about hs (ecStep_about (g := k.join) hs.wf e fun k' io' resp' h' => ?_) heq
      rw [h] at h'
      cases h'
      rfl

/-- An event spends the tickets of one join at most. -/
theorem exists_spender (s : EcState) (e : EcEvent) :
    ∃ g, ∀ k io resp, e.spends s.io = some (k, io, resp) → k.join = g := by
  cases h : e.spends s.io with
  | none => exact ⟨0, fun _ _ _ h' => by cases h'⟩
  | some p => exact ⟨p.1.join, fun _ _ _ h' => by cases h'; rfl⟩

theorem ecStep_owed (hs : s.Wf C) (e : EcEvent) (c : UInt32) :
    (ecStep C N s e).owed c = s.owed c + e.asks c := by
  obtain ⟨g, hg⟩ := exists_spender s e
  rw [(ecStep_about hs e hg).owed, owed_meets]

theorem ecStep_nextGen (hs : s.Wf C) (e : EcEvent) :
    s.io.nextGen ≤ (ecStep C N s e).io.nextGen := by
  obtain ⟨g, hg⟩ := exists_spender s e
  exact io_meets s e ▸ (ecStep_about hs e hg).nextGen

theorem ecStep_sent (hs : s.Wf C) (e : EcEvent) : s.io.sent <+: (ecStep C N s e).io.sent := by
  obtain ⟨g, hg⟩ := exists_spender s e
  exact io_meets s e ▸ (ecStep_about hs e hg).sent

/-- **A join whose ticket an event does not spend** is left alone, and so is the
assembly if the join owns it. -/
theorem ecStep_same (hs : s.Wf C) (hlt : g < s.io.nextGen)
    (hne : ∀ k io resp, e.spends s.io = some (k, io, resp) → k.join ≠ g) :
    Same g s.io (ecStep C N s e).io ∧
      (s.asm.busy = true → s.asm.join = g → (ecStep C N s e).asm = s.asm) := by
  -- what the event is about is another join, or none: then any other will do
  obtain ⟨g', hg', hother⟩ : ∃ g', (∀ k io resp, e.spends s.io = some (k, io, resp) → k.join = g') ∧
      g ≠ g' := by
    cases h : e.spends s.io with
    | none => exact ⟨g + 1, fun _ _ _ h' => (by cases h'), Nat.ne_of_lt (Nat.lt_succ_self _)⟩
    | some p => exact ⟨p.1.join, fun _ _ _ h' => (by cases h'; rfl), (hne _ _ _ h).symm⟩
  have habout := ecStep_about (N := N) hs e hg'
  have hkeep := habout.keeps g (by simpa using hlt) hother
  rw [io_meets] at hkeep
  refine ⟨hkeep, fun hb hjoin => ?_⟩
  have hasm := habout.asm (by simpa using hb) (by simpa [hjoin] using hother)
  rwa [asm_meets] at hasm

/-- A join in hand after a step was in hand before, and changed no more than its
counters. -/
theorem ecStep_like (hs : s.Wf C) (e : EcEvent) (hlt : g < s.io.nextGen)
    (hj : (ecStep C N s e).io.join? g = some j) : ∃ j₀, s.io.join? g = some j₀ ∧ j₀.Like j := by
  obtain ⟨g', hg'⟩ := exists_spender s e
  have habout := ecStep_about (N := N) hs e hg'
  by_cases heq : g = g'
  · subst heq
    simpa using habout.like (by simpa using hlt) j hj
  · have hsame := habout.keeps g (by simpa using hlt) heq
    rw [io_meets] at hsame
    exact ⟨j, hsame.1 ▸ hj, .refl j⟩

theorem ecStep_closed (hs : s.Wf C) (hlt : g < s.io.nextGen) (hn : s.io.join? g = none) :
    (ecStep C N s e).io.join? g = none ∧ g < (ecStep C N s e).io.nextGen := by
  refine ⟨?_, Nat.lt_of_lt_of_le hlt (ecStep_nextGen hs e)⟩
  by_cases hspent : ∃ k io resp, e.spends s.io = some (k, io, resp) ∧ k.join = g
  · obtain ⟨k, io, resp, h, rfl⟩ := hspent
    have hnone : io.join? k.join = none := ((spends_spec h).join? _).trans hn
    rw [ecStep_of_spends h, answerJoin]
    simp only [hnone]
  · exact (ecStep_same hs hlt fun k io resp h hk => hspent ⟨k, io, resp, h, hk⟩).1.1.trans hn

/-- **A join can take one answer fewer for each ticket spent**, while it is in
hand. -/
theorem ecStep_left (hs : s.Inv C) (hok : e.Counted C s) (hj : s.io.join? g = some j)
    (hi : ¬j.Inert) (hin : (ecStep C N s e).io.join? g ≠ none) :
    (ecStep C N s e).left g + e.spendsOf g s ≤ s.left g ∧
      ∃ j', (ecStep C N s e).io.join? g = some j' ∧ ¬j'.Inert := by
  by_cases hspent : ∃ k io resp, e.spends s.io = some (k, io, resp) ∧ k.join = g
  · obtain ⟨k, io, resp, h, rfl⟩ := hspent
    obtain ⟨j', hj'⟩ := Option.ne_none_iff_exists'.mp hin
    obtain ⟨-, hlt, hi'⟩ := ((answer_spec (N := N) hs.wf h).2 (hs.counts _) hok).2 j hj hi j' hj'
    refine ⟨?_, j', hj', hi'⟩
    simp only [EcEvent.spendsOf, h, if_true]
    rw [EcState.left, hj', Option.map_some, Option.getD_some]
    exact hlt
  · have hother : ∀ k io resp, e.spends s.io = some (k, io, resp) → k.join ≠ g :=
      fun k io resp h hk => hspent ⟨k, io, resp, h, hk⟩
    have hsame := (ecStep_same (N := N) hs.wf (Fanout.join?_lt hs.wf.sound hj) hother).1
    have hzero : e.spendsOf g s = 0 := by
      unfold EcEvent.spendsOf
      split
      · next k p h => exact if_neg (hother _ _ _ h)
      · rfl
    rw [hzero, EcState.left, EcState.left, hsame.1, hsame.2]
    exact ⟨Nat.le_refl _, j, hj, hi⟩

/-- The state a router that was just made reaches. -/
def ecRun (C : EcConfig) (N : ℕ → Bool) (es : List EcEvent) : EcState :=
  Run.run (ecStep C N) (EcState.init C) es

/-! ### Three members -/

/-- The body `abc`. -/
def abc : Bytes := [97, 98, 99]

/-- Its SHA-256. -/
def abcDigest : Digest :=
  ⟨[186, 120, 22, 191, 143, 1, 207, 234, 65, 65, 64, 222, 93, 174, 34, 35, 176, 3, 97, 163, 150, 23,
    122, 156, 180, 16, 255, 97, 242, 0, 21, 173], rfl⟩

/-- The keys of its three shards. -/
def abcKeys : List Digest :=
  [⟨[200, 146, 39, 20, 96, 227, 64, 23, 154, 16, 26, 24, 165, 186, 245, 103, 9, 47, 126, 45, 12, 24,
      119, 42, 155, 15, 196, 134, 237, 32, 237, 24], rfl⟩,
    ⟨[61, 47, 83, 27, 4, 22, 162, 181, 173, 80, 7, 72, 8, 222, 252, 23, 93, 24, 59, 79, 245, 18, 217,
      222, 87, 188, 209, 103, 232, 116, 182, 56], rfl⟩,
    ⟨[61, 194, 117, 216, 247, 134, 43, 134, 248, 210, 54, 30, 172, 86, 138, 231, 152, 25, 89, 238, 166,
      133, 90, 181, 255, 13, 114, 196, 189, 64, 13, 87], rfl⟩]

/-- SHA-256 of `abc` and of what its shards' keys are derived from. -/
def abcSha (b : Bytes) : Digest :=
  if b = abc then abcDigest
  else if b = keyTag ++ abcDigest.val ++ [0] then abcKeys.getD 0 Digest.zero
  else if b = keyTag ++ abcDigest.val ++ [1] then abcKeys.getD 1 Digest.zero
  else if b = keyTag ++ abcDigest.val ++ [2] then abcKeys.getD 2 Digest.zero
  else Digest.zero

/-- Three members, for two data shards and one parity shard. -/
def threeMembers : EcConfig where
  sha := abcSha
  k := 2
  m := 1
  two_le := Nat.le_refl _
  le_max := by decide
  members := 3
  joinCap := 32
  pendingCap := 96

end Events

end Loam

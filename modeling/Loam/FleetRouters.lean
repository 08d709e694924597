import Loam.FleetEpoch
import Loam.FleetTargets
import Loam.EcRuns
import Loam.BodyPlacement

/-!
# What the routers make of a snapshot

A router writes a new body to the members it ranks for the body's name. It
ranks the members its last snapshot listed, every one in one domain and none
draining, for members are all it kept of the snapshot. The write placement of
the whole snapshot spreads over domains and passes over the members that are
draining or cold. The two name the same members exactly when the heaviest
members suffice (`Roster.FlatSuffices`).
-/

namespace Loam

/-! ## The fleet a router has -/

namespace BodyRouter

section Fleet

variable (C : Config) (N : ℕ → Bool) (s : State)

@[simp] theorem fleet_emit (c : UInt32) (r : BodyResp) : (s.emit c r).fleet = s.fleet := rfl
@[simp] theorem fleet_freeJoin (g : ℕ) : (s.freeJoin g).fleet = s.fleet := rfl
@[simp] theorem fleet_setJoin (g : ℕ) (h : Join → Join) : (s.setJoin g h).fleet = s.fleet := rfl
@[simp] theorem fleet_freeStream (sid : ℕ) : (s.freeStream sid).fleet = s.fleet := rfl
@[simp] theorem fleet_setStream (sid : ℕ) (h : Stream → Stream) :
    (s.setStream sid h).fleet = s.fleet := rfl
@[simp] theorem fleet_askTargets (g : ℕ) (qs : List (UInt8 × BodyReq)) :
    (askTargets C N s g qs).fleet = s.fleet := rfl
@[simp] theorem fleet_scrubNextTarget : (scrubNextTarget C s).fleet = s.fleet := rfl

/-- A loop whose rounds leave the fleet alone leaves it alone. -/
theorem fleet_foldl {α : Type} {f : State → α → State} (h : ∀ s a, (f s a).fleet = s.fleet)
    (l : List α) (s : State) : (l.foldl f s).fleet = s.fleet := by
  induction l generalizing s with
  | nil => rfl
  | cons a l ih => rw [List.foldl_cons, ih, h]

@[simp] theorem fleet_advanceRead (g : ℕ) (ts : List UInt8) (s : State) :
    (advanceRead C N g ts s).fleet = s.fleet := by
  induction ts generalizing s with
  | nil =>
    unfold advanceRead
    split
    · rfl
    dsimp only
    split <;> rfl
  | cons t ts ih =>
    unfold advanceRead
    split
    · rfl
    dsimp only
    split
    · rfl
    · exact ih _

@[simp] theorem fleet_abortMember (q : UInt8 × BodyReq) : (abortMember C N s q).fleet = s.fleet := by
  unfold abortMember
  split
  · rfl
  dsimp only
  split <;> rfl

@[simp] theorem fleet_abortStreamMembers (sid : ℕ) :
    (abortStreamMembers C N s sid).fleet = s.fleet :=
  fleet_foldl (fleet_abortMember C N) _ _

@[simp] theorem fleet_repairOne (op : BodyOp) (req : BodyReq) (m : UInt8) :
    (repairOne C N op req s m).fleet = s.fleet := by
  unfold repairOne
  split
  · rfl
  dsimp only
  split <;> rfl

@[simp] theorem fleet_spawnRepairPuts (ms : List UInt8) (resp : BodyResp) (k : Option Digest) :
    (spawnRepairPuts C N s ms resp k).fleet = s.fleet := by
  unfold spawnRepairPuts
  split
  · split
    · rfl
    split
    · exact fleet_foldl (fun s m => fleet_repairOne C N s _ _ m) _ _
    · exact fleet_foldl (fun s m => fleet_repairOne C N s _ _ m) _ _
  · rfl

@[simp] theorem fleet_scrubSpawnProbe (name : Digest × Bool) :
    (scrubSpawnProbe C N s name).fleet = s.fleet := by
  unfold scrubSpawnProbe
  dsimp only
  split
  · rfl
  split
  · rfl
  · split <;> rfl

@[simp] theorem fleet_scrubApplyScan (resp : BodyResp) :
    (scrubApplyScan C N s resp).fleet = s.fleet := by
  unfold scrubApplyScan
  dsimp only
  split
  · rw [fleet_foldl (fleet_scrubSpawnProbe C N)]
    split <;> rfl
  · rfl

@[simp] theorem fleet_scrubApplyProbe (g : ℕ) (j : Join) (t : UInt8) (resp : BodyResp) :
    (scrubApplyProbe C N s g j t resp).fleet = s.fleet := by
  unfold scrubApplyProbe scrubSpawnFetch
  dsimp only
  split
  · rfl
  split
  · rfl
  split
  · rfl
  rw [fleet_advanceRead]
  rfl

theorem fleet_handleRequest (req : BodyReq) : (handleRequest C N s req).fleet = s.fleet := by
  cases req <;>
    simp only [handleRequest, handlePut, handlePutKeyed, handleRead, handleDelete,
      handleStreamOpen, handleStreamAppend, handleStreamCommit, handleStreamAbort,
      handleAdminScan] <;>
    repeat' split
  all_goals simp

theorem fleet_scrubKick : (scrubKick C N s).fleet = s.fleet := by
  unfold scrubKick
  dsimp only
  repeat' split
  all_goals rfl

@[simp] theorem fleet_noteSession (j : Join) (sid : ℕ) (t : UInt8) (resp : BodyResp) :
    (noteSession s j sid t resp).fleet = s.fleet := by
  unfold noteSession
  split <;> rfl

theorem fleet_applyJoinResponse (g : ℕ) (j : Join) (t : UInt8) (resp : BodyResp) :
    (applyJoinResponse C N s g j t resp).fleet = s.fleet := by
  unfold applyJoinResponse answerStream answerAbort answerPut answerRead answerDelete finishStream
  repeat' split
  all_goals first | rfl | simp
  all_goals repeat' split
  all_goals first | rfl | simp

/-- **Only a snapshot changes the fleet.** -/
theorem fleet_step {e : EcEvent} (he : ∀ ms, e ≠ .fleet ms) : (step C N s e).fleet = s.fleet := by
  have hspent : ∀ (s : State) (g : ℕ) (t : UInt8) (resp : BodyResp),
      (answerJoin C N s g t resp).fleet = s.fleet := by
    intro s g t resp
    unfold answerJoin
    split
    · rfl
    · exact fleet_applyJoinResponse C N s g _ t resp
  cases hk : e.spends s.io with
  | some p =>
    obtain ⟨k, io, resp⟩ := p
    obtain ⟨q, hstep⟩ := step_of_spends (C := C) (N := N) hk
    rw [hstep]
    exact hspent _ _ _ _
  | none =>
    obtain ⟨q, hq⟩ := hear_eq s e
    cases e with
    | fleet ms => exact absurd rfl (he ms)
    | request cid req => exact fleet_handleRequest C N _ req
    | oversize cid => rfl
    | scrub => exact fleet_scrubKick C N s
    | answer t cid resp => simp only [step, hq, hk]
    | oversizeAnswer t cid => simp only [step, hq, hk]
    | expire cid => simp only [step, hq, hk]

end Fleet

end BodyRouter

/-- Only a snapshot changes the fleet of the erasure-coding router. -/
theorem ecStep_fleet {C : EcConfig} {N : ℕ → Bool} {s : EcState} (hs : s.Wf C) {e : EcEvent}
    (he : ∀ ms, e ≠ .fleet ms) : (ecStep C N s e).fleet = s.fleet := by
  have hmeets : (e.meets s).fleet = s.fleet := by
    cases e with
    | fleet ms => exact absurd rfl (he ms)
    | _ => rfl
  rw [← hmeets]
  cases h : e.spends s.io with
  | none =>
    refine (ecStep_about (g := 0) hs e fun k io resp h' => ?_).fleet
    rw [h] at h'
    cases h'
  | some p =>
    refine (ecStep_about (g := p.1.join) hs e fun k io resp h' => ?_).fleet
    rw [h] at h'
    cases h'
    rfl

namespace FleetWorld

section Runs

variable {σ : Type} {step : σ → EcEvent → σ} {fleet : σ → List UInt8} {P : σ → Prop}

/-- A router follows its snapshots: one replaces its fleet, and nothing else
does. -/
structure Follows (step : σ → EcEvent → σ) (fleet : σ → List UInt8) (P : σ → Prop) : Prop where
  keeps : ∀ s e, P s → P (step s e)
  set : ∀ s ms, fleet (step s (.fleet ms)) = ms.take maxFleet
  other : ∀ s e, P s → (∀ ms, e ≠ .fleet ms) → fleet (step s e) = fleet s

/-- What holds of a world at every moment. -/
structure Inv (fleet : σ → List UInt8) (P : σ → Prop) (w : FleetWorld σ) : Prop where
  /-- The router's state is one it can reach. -/
  router : P w.router
  /-- Each frame broadcast is the frame of its snapshot. -/
  told : ∀ t ∈ w.told, ∃ epoch,
    encodeFleetEpoch PlacementRouter.emitBuf epoch (.ofTable t.1.members) = .ok t.2
  /-- The router has the members of the last snapshot it received. -/
  latest : ∀ r, w.latest = some r → fleet w.router = r.members.map Member.member

theorem inv_next (hf : Follows step fleet P) {w : FleetWorld σ} (hw : w.Inv fleet P)
    (e : FleetEvent) : (w.next step e).Inv fleet P := by
  cases e with
  | update bytes => exact ⟨hw.router, hw.told, hw.latest⟩
  | broadcast taken =>
    rw [next]
    cases hdue : w.placement.due with
    | none => exact hw
    | some frame =>
      refine ⟨hw.router, ?_, hw.latest⟩
      dsimp only
      split
      · exact hw.told
      intro t ht
      rcases List.mem_append.mp ht with ht | ht
      · exact hw.told t ht
      rw [List.mem_singleton.mp ht]
      unfold PlacementRouter.due at hdue
      split at hdue
      · cases hdue
      refine ⟨w.placement.epoch, ?_⟩
      cases henc : encodeFleetEpoch PlacementRouter.emitBuf w.placement.epoch
          (.ofTable w.placement.fleet.members) with
      | error _ => rw [henc] at hdue; cases hdue
      | ok f => rw [henc] at hdue; cases hdue; rfl
  | read ready =>
    rw [next]
    generalize w.chan.take (min ready readBuf) = bytes
    rw [readFleet]
    cases hdec : decodeFleetEpoch bytes with
    | error _ => exact ⟨hw.router, hw.told, hw.latest⟩
    | ok p =>
      refine ⟨hf.keeps _ _ hw.router, hw.told, fun r hr => ?_⟩
      obtain ⟨t, ht, rfl⟩ := Option.map_eq_some_iff.mp hr
      obtain ⟨epoch, henc⟩ := hw.told t (List.mem_of_find?_eq_some ht)
      obtain ⟨rest, rfl⟩ : t.2 <+: bytes := by simpa using List.find?_some ht
      -- the read begins with the frame, so it decodes as the snapshot
      rw [decodeFleetEpoch_encode henc] at hdec
      cases hdec
      rw [hf.set]
      exact List.take_of_length_le ((List.length_map _).trans_le t.1.length_le)
  | router e =>
    cases e with
    | fleet ms => exact hw
    | _ => exact ⟨hf.keeps _ _ hw.router, hw.told, fun r hr =>
        (hf.other _ _ hw.router fun ms => by simp).trans (hw.latest r hr)⟩

/-- **A router has the members of the snapshot it received last.** -/
theorem inv_runOf (hf : Follows step fleet P) {router : σ} (hP : P router) (params : Bytes)
    (es : List FleetEvent) : (runOf step params router es).Inv fleet P := by
  unfold runOf
  have hinit : (init params router).Inv fleet P :=
    ⟨hP, fun t ht => absurd ht List.not_mem_nil, fun r hr => by cases hr⟩
  generalize init params router = w at hinit ⊢
  induction es generalizing w with
  | nil => exact hinit
  | cons e es ih => exact ih _ (inv_next hf hinit e)

end Runs

end FleetWorld

/-! ## The members asked to store -/

/-- What is asked between two states that send to some peers only. -/
theorem asked_subset {μ ρ J : Type} {f f' : Fanout μ ρ J} {T : List μ}
    (h : Fanout.Sends (fun q => q.peer ∈ T) f f') :
    (f'.sent.drop f.sent.length).map Fanout.Question.peer ⊆ T := by
  intro t ht
  obtain ⟨q, hq, rfl⟩ := List.mem_map.mp ht
  exact h.of_mem_drop hq

/-- Who was asked at first is among those asked in the end. -/
theorem subset_asked {μ ρ J : Type} {f f' f'' : Fanout μ ρ J} {T : List μ}
    (h : f'.sent.map Fanout.Question.peer = f.sent.map Fanout.Question.peer ++ T)
    (h' : f'.sent <+: f''.sent) :
    T ⊆ (f''.sent.drop f.sent.length).map Fanout.Question.peer := by
  obtain ⟨more, hmore⟩ := h'
  rw [← hmore, List.map_drop, List.map_append, h, List.append_assoc,
    List.drop_left' (List.length_map _)]
  exact List.subset_append_left T _

namespace BodyRouter

/-- The members asked at an event. -/
def asked (C : Config) (N : ℕ → Bool) (s : State) (e : EcEvent) : List UInt8 :=
  ((step C N s e).io.sent.drop s.io.sent.length).map Fanout.Question.peer

/-- The name a request that stores a new body places it by. -/
def storeKey : BodyReq → Option Digest
  | .put body => if maxBody < body.length then none else some (bodyKeyFromBytes body)
  | .putKeyed key blob => if maxBody < blob.length then none else some key
  | .wopen name _ => some name
  | _ => none

/-- There is room for a request that stores. -/
structure HasRoom (C : Config) (s : State) : Prop where
  joins : s.io.joins.length < C.joinCap
  /-- As many answers as there are members can be awaited. -/
  pending : s.io.awaited.length + maxFleet ≤ C.pendingCap
  slot : freeSlot C s ≠ none

/-- The members the write placement of a snapshot names, as many as there are
replicas. -/
def selected (C : Config) (r : Roster) (key : Digest) : List UInt8 :=
  r.pickWriteTargets key (UInt8.ofNat (min C.replicas r.members.length)) maxFleet

/-- **A request to store is placed as the snapshot says**: no other member is
asked, whatever the network does, and where nothing refuses every one is. -/
structure Honours (C : Config) (s : State) (r : Roster) (c : UInt32) (req : BodyReq)
    (key : Digest) : Prop where
  only : ∀ N, asked C N s (.request c req) ⊆ selected C r key
  all : HasRoom C s → selected C r key ⊆ asked C (fun _ => true) s (.request c req)

variable {C : Config} {N : ℕ → Bool} {s : State} {req : BodyReq} {key : Digest} {c : UInt32}

theorem sends_askTargets (C : Config) (N : ℕ → Bool) (s : State) (g : ℕ) (T : List UInt8)
    (r : BodyReq) :
    Fanout.Sends (fun q => q.peer ∈ T) s.io (askTargets C N s g (T.map fun t => (t, r))).io := by
  refine (Fanout.sends_askAll _ _ _ _ fun p hp cid => ?_).trans (.of_eq rfl)
  obtain ⟨t, ht, rfl⟩ := List.mem_map.mp hp
  exact ht

theorem sends_abortStreamMembers (sid : ℕ) :
    Fanout.Sends (fun q => q.peer ∈ (s.streams sid).targets) s.io
      (abortStreamMembers C N s sid).io := by
  have hpeer : ∀ q ∈ (s.streams sid).questions .wabort, q.1 ∈ (s.streams sid).targets := by
    intro q hq
    obtain ⟨p, hp, rfl⟩ := List.mem_map.mp hq
    exact (List.mem_zipIdx' hp).2 ▸ List.getElem_mem _
  have hfold : ∀ (qs : List (UInt8 × BodyReq)) (s' : State),
      (∀ q ∈ qs, q.1 ∈ (s.streams sid).targets) →
      Fanout.Sends (fun q => q.peer ∈ (s.streams sid).targets) s'.io
        (qs.foldl (abortMember C N) s').io := by
    intro qs
    induction qs with
    | nil => exact fun s' _ => .of_eq rfl
    | cons q qs ih =>
      intro s' hqs
      refine Fanout.Sends.trans ?_ (ih _ fun q' hq' => hqs q' (List.mem_cons_of_mem _ hq'))
      unfold abortMember
      split
      · exact .of_eq rfl
      next g io hstart =>
      have hask := (Fanout.sends_start (P := fun q => q.peer ∈ (s.streams sid).targets)
        hstart).trans (Fanout.sends_ask C.pendingCap N g q.1 q.2 fun _ => hqs q List.mem_cons_self)
      dsimp only
      split
      · exact hask
      · exact hask.trans (.of_eq rfl)
  exact hfold _ s hpeer

/-- **A request to store asks the members ranked for its name**, and no
other. -/
theorem sends_store (h : storeKey req = some key) :
    Fanout.Sends (fun q => q.peer ∈ rankTargets C s.fleet key) s.io
      (handleRequest C N s req).io := by
  cases req with
  | put body =>
    rw [storeKey] at h
    split at h
    · cases h
    cases h
    unfold handleRequest handlePut
    dsimp only
    split
    · exact .of_eq rfl
    split
    · exact .of_eq rfl
    split
    · exact .of_eq rfl
    next g io hstart =>
    have hask := (Fanout.sends_start hstart).trans (sends_askTargets C N { s with io := io } g
      (rankTargets C s.fleet (bodyKeyFromBytes body)) (.put body))
    split
    · exact hask.trans (.of_eq rfl)
    · exact hask
  | putKeyed key' blob =>
    rw [storeKey] at h
    split at h
    · cases h
    cases h
    unfold handleRequest handlePutKeyed
    dsimp only
    split
    · exact .of_eq rfl
    split
    · exact .of_eq rfl
    split
    · exact .of_eq rfl
    next g io hstart =>
    have hask := (Fanout.sends_start hstart).trans (sends_askTargets C N { s with io := io } g
      (rankTargets C s.fleet key) (.putKeyed key blob))
    split
    · exact hask.trans (.of_eq rfl)
    · exact hask
  | wopen name total =>
    cases h
    unfold handleRequest handleStreamOpen
    dsimp only
    split
    · exact .of_eq rfl
    split
    · exact .of_eq rfl
    next sid hslot =>
    split
    · exact .of_eq rfl
    next g io hstart =>
    have hask := (Fanout.sends_start hstart).trans (sends_askTargets C N
      { s.setStream sid fun _ => { inUse := true, targets := rankTargets C s.fleet key } with io := io }
      g (rankTargets C s.fleet key) (.wopen key total))
    split
    · -- the members told to drop their session are those of the stream
      have habort := sends_abortStreamMembers (C := C) (N := N) (s := (askTargets C N
        { s.setStream sid fun _ => { inUse := true, targets := rankTargets C s.fleet key } with
          io := io } g ((rankTargets C s.fleet key).map fun t => (t, .wopen key total))).freeJoin g) sid
      have htargets : (((askTargets C N
          { s.setStream sid fun _ => { inUse := true, targets := rankTargets C s.fleet key } with
            io := io } g ((rankTargets C s.fleet key).map fun t => (t, .wopen key total))).freeJoin
              g).streams sid).targets = rankTargets C s.fleet key := by
        show (Function.update s.streams sid _ sid).targets = _
        rw [Function.update_self]
      rw [htargets] at habort
      exact hask.trans (Fanout.Sends.trans (.of_eq rfl) habort)
    · exact hask
  | _ => cases h

/-- **Where there is room and nothing refuses**, every member ranked is asked. -/
theorem ranked_subset_asked (h : storeKey req = some key) (hroom : HasRoom C s) (c : UInt32) :
    rankTargets C s.fleet key ⊆ asked C (fun _ => true) s (.request c req) := by
  have hlen : (rankTargets C s.fleet key).length ≤ maxFleet := by
    unfold rankTargets
    split
    · exact Nat.zero_le _
    refine (length_pickTargets_le _ _ _).trans ((Nat.min_le_right _ _).trans ?_)
    rw [Fleet.fromSlice, List.length_map, List.length_take]
    exact Nat.min_le_left _ _
  -- a join is free, and the network takes every question
  have hasks : ∀ (j : Join) (r : BodyReq), ∃ g io, s.io.start C.joinCap j = some (g, io) ∧
      ∀ s' : State, s'.io = io →
        (askTargets C (fun _ => true) s' g ((rankTargets C s.fleet key).map fun t => (t, r))).io.sent.map
            Fanout.Question.peer
          = s.io.sent.map Fanout.Question.peer ++ rankTargets C s.fleet key := by
    intro j r
    refine ⟨s.io.nextGen, _, if_pos hroom.joins, fun s' hs' => ?_⟩
    have hopen := (Fanout.askAll_taken (f := s'.io) C.pendingCap (fun _ => true) s.io.nextGen
      ((rankTargets C s.fleet key).map fun t => (t, r)) (by
        rw [hs', List.length_map]
        exact (Nat.add_le_add_left hlen _).trans hroom.pending) fun _ _ => rfl).2
    rw [List.map_map, hs'] at hopen
    refine (congrArg (List.map Fanout.Question.peer) ?_).trans (hopen.trans ?_)
    · rw [← hs']
      rfl
    · exact congrArg _ (List.map_id _)
  by_cases hnone : rankTargets C s.fleet key = []
  · rw [hnone]
    exact List.nil_subset _
  cases req with
  | put body =>
    rw [storeKey] at h
    split at h
    · cases h
    next hbig =>
    cases h
    obtain ⟨g, io, hstart, hsent⟩ := hasks
      { op := .put, need := (rankTargets C s.fleet (bodyKeyFromBytes body)).length, upCid := c }
      (.put body)
    refine subset_asked (hsent { s with upCid := c, io := io } rfl) ?_
    unfold step handleRequest handlePut
    dsimp only
    rw [if_neg hbig, if_neg hnone, hstart]
    dsimp only
    split <;> exact List.prefix_rfl
  | putKeyed key' blob =>
    rw [storeKey] at h
    split at h
    · cases h
    next hbig =>
    cases h
    obtain ⟨g, io, hstart, hsent⟩ := hasks
      { op := .putKeyed, need := (rankTargets C s.fleet key).length, upCid := c
        digest := key, digestSet := true }
      (.putKeyed key blob)
    refine subset_asked (hsent { s with upCid := c, io := io } rfl) ?_
    unfold step handleRequest handlePutKeyed
    dsimp only
    rw [if_neg hbig, if_neg hnone, hstart]
    dsimp only
    split <;> exact List.prefix_rfl
  | wopen name total =>
    cases h
    obtain ⟨sid, hslot⟩ := Option.ne_none_iff_exists'.mp hroom.slot
    obtain ⟨g, io, hstart, hsent⟩ := hasks
      { kind := .streamOpen, op := .wopen, need := (rankTargets C s.fleet key).length
        targets := rankTargets C s.fleet key, stream := some sid, upCid := c }
      (.wopen key total)
    have hslot' : freeSlot C { s with upCid := c } = some sid := hslot
    unfold asked step handleRequest handleStreamOpen
    dsimp only
    rw [if_neg hnone, hslot']
    dsimp only
    generalize hopened : State.setStream { s with upCid := c } sid _ = s₁
    have hio : s₁.io = s.io := hopened ▸ rfl
    have hcid : c = s₁.upCid := hopened ▸ rfl
    rw [hcid] at hstart
    rw [hio, hstart]
    refine subset_asked (hsent { s₁ with io := io } rfl) ?_
    dsimp only
    split
    · -- a stream that fails is asked for once more at the same members
      obtain ⟨more, hmore, -⟩ := sends_abortStreamMembers (C := C) (N := fun _ => true)
        (s := (askTargets C (fun _ => true) { s₁ with io := io } g
          ((rankTargets C s.fleet key).map fun t => (t, .wopen key total))).freeJoin g) sid
      exact ⟨more, hmore.symm⟩
    · exact List.prefix_rfl
  | _ => cases h

theorem rankTargets_eq (fleet : List UInt8) (key : Digest) :
    rankTargets C fleet key
      = pickTargets key (min C.replicas fleet.length) (Fleet.fromSlice fleet) := by
  unfold rankTargets
  split
  · next h =>
    rw [h]
    exact (List.eq_nil_of_length_eq_zero
      (Nat.le_zero.mp ((length_pickTargets_le _ _ _).trans (Nat.min_le_left _ _)))).symm
  · rfl

/-- **A router honours a snapshot** where its members alone suffice; and only
there, if it has room to take a request. -/
theorem honours_iff {r : Roster} (hfleet : s.fleet = r.members.map Member.member)
    (h : storeKey req = some key) (c : UInt32) :
    (r.FlatSuffices key (min C.replicas r.members.length) → Honours C s r c req key) ∧
      (HasRoom C s → Honours C s r c req key →
        r.FlatSuffices key (min C.replicas r.members.length)) := by
  have hranked : rankTargets C s.fleet key
      = pickTargets key (min C.replicas r.members.length)
          (Fleet.fromSlice (r.members.map Member.member)) := by
    rw [rankTargets_eq, hfleet, List.length_map]
  have hiff := Roster.pickWriteTargets_perm_iff key r
    (Nat.min_le_right C.replicas r.members.length)
  rw [← hranked] at hiff
  have honly : ∀ N, asked C N s (.request c req) ⊆ rankTargets C s.fleet key :=
    fun N => asked_subset (sends_store (s := { s with upCid := c }) h)
  refine ⟨fun hflat => ?_, fun hroom hhon => hiff.mp ?_⟩
  · have hperm := hiff.mpr hflat
    exact ⟨fun N => List.Subset.trans (honly N) hperm.symm.subset,
      fun hroom => List.Subset.trans hperm.subset (ranked_subset_asked h hroom c)⟩
  · have hnodup : (rankTargets C s.fleet key).Nodup := hranked ▸ nodup_pickTargets _ _ _
    refine (List.perm_ext_iff_of_nodup (Roster.nodup_pickFrom _ _ _ _ _) hnodup).mpr fun t => ?_
    exact ⟨fun ht => honly _ (hhon.all hroom ht),
      fun ht => hhon.only _ (ranked_subset_asked h hroom c ht)⟩

end BodyRouter

namespace EcRouting

/-- The members asked at an event. -/
def asked (C : EcConfig) (N : ℕ → Bool) (s : EcState) (e : EcEvent) : List UInt8 :=
  ((ecStep C N s e).io.sent.drop s.io.sent.length).map Fanout.Question.peer

/-- There is room for the shards of a body. -/
structure HasRoom (C : EcConfig) (s : EcState) (body : Bytes) : Prop where
  small : body.length ≤ maxBody
  shards : shardLenFor body.length C.k ≤ shardSlot
  codes : encode body C.k C.m ≠ none
  idle : s.asm.busy = false
  joins : s.io.joins.length < C.joinCap
  /-- As many answers as there are members can be awaited. -/
  pending : s.io.awaited.length + maxFleet ≤ C.pendingCap

/-- The members the write placement of a snapshot names, if it names as many as
there are shards. -/
def selected (C : EcConfig) (r : Roster) (digest : Digest) : List UInt8 :=
  let chosen := r.pickWriteTargets digest (UInt8.ofNat (C.k + C.m)) maxFleet
  if chosen.length = C.k + C.m then chosen else []

/-- **A body is placed as the snapshot says**: no other member is asked, whatever
the network does, and where nothing refuses every one is. -/
structure Honours (C : EcConfig) (s : EcState) (r : Roster) (c : UInt32) (body : Bytes) : Prop where
  only : ∀ N, asked C N s (.request c (.put body)) ⊆ selected C r (C.sha body)
  all : HasRoom C s body →
    selected C r (C.sha body) ⊆ asked C (fun _ => true) s (.request c (.put body))

variable {C : EcConfig} {N : ℕ → Bool} {s : EcState} {body : Bytes} {c : UInt32}

/-- **A body's shards go to the members ranked for it**, and to no other. -/
theorem sends_put :
    Fanout.Sends (fun q => q.peer ∈ rankTargets C s.fleet (C.sha body)) s.io
      (handlePut C N s body).io := by
  unfold handlePut
  dsimp only
  split
  · exact .of_eq rfl
  split
  · exact .of_eq rfl
  split
  · exact .of_eq rfl
  split
  · exact .of_eq rfl
  split
  · exact .of_eq rfl
  next enc henc =>
  split
  · exact .of_eq rfl
  next g io hstart =>
  have hask := (Fanout.sends_start (P := fun q => q.peer ∈ rankTargets C s.fleet (C.sha body))
    hstart).trans (Fanout.sends_askAll C.pendingCap N g
      (shardQuestions (fun i => .putKeyed (deriveShardKey C.sha (C.sha body) i)
        (shardBlob C body enc i)) (rankTargets C s.fleet (C.sha body))) fun p hp cid => ?_)
  · split
    · exact hask.trans (.of_eq rfl)
    · exact hask.trans (.of_eq rfl)
  · exact map_fst_shardQuestions _ (rankTargets C s.fleet (C.sha body)) ▸ List.mem_map_of_mem hp

/-- **Where there is room and nothing refuses**, every member ranked is asked. -/
theorem ranked_subset_asked (hroom : HasRoom C s body) (c : UInt32) :
    rankTargets C s.fleet (C.sha body) ⊆ asked C (fun _ => true) s (.request c (.put body)) := by
  have hlen : (rankTargets C s.fleet (C.sha body)).length ≤ maxFleet := by
    by_cases h : rankTargets C s.fleet (C.sha body) = []
    · rw [h]
      exact Nat.zero_le _
    · rw [length_rankTargets h]
      exact C.le_max
  by_cases hnone : rankTargets C s.fleet (C.sha body) = []
  · rw [hnone]
    exact List.nil_subset _
  obtain ⟨enc, henc⟩ := Option.ne_none_iff_exists'.mp hroom.codes
  obtain ⟨g, io, hstart⟩ : ∃ g io, s.io.start C.joinCap
      { kind := .put, need := (rankTargets C s.fleet (C.sha body)).length, upCid := c
        digest := C.sha body } = some (g, io) := ⟨_, _, if_pos hroom.joins⟩
  have hio : io.awaited = s.io.awaited ∧ io.sent = s.io.sent := by
    obtain ⟨-, rfl⟩ := Fanout.start_eq_some hstart
    exact ⟨rfl, rfl⟩
  have hopen := (Fanout.askAll_taken (f := io) C.pendingCap (fun _ => true) g
    (shardQuestions (fun i => .putKeyed (deriveShardKey C.sha (C.sha body) i)
      (shardBlob C body enc i)) (rankTargets C s.fleet (C.sha body))) (by
        rw [hio.1, shardQuestions, List.length_map, List.length_zipIdx]
        exact (Nat.add_le_add_left hlen _).trans hroom.pending) fun _ _ => rfl).2
  rw [hio.2] at hopen
  rw [map_fst_shardQuestions] at hopen
  refine subset_asked (f := s.io) hopen ?_
  unfold ecStep handleRequest handlePut
  dsimp only
  rw [if_neg (Nat.not_lt.mpr hroom.small), if_neg (by simp [hroom.idle]), if_neg hnone,
    if_neg (Nat.not_lt.mpr hroom.shards), henc, hstart]
  dsimp only
  split <;> exact List.prefix_rfl

/-- The members ranked are those selected where the members alone suffice, or
there are too few. -/
theorem selected_perm_iff {r : Roster} {digest : Digest} :
    (selected C r digest).Perm (rankTargets C (r.members.map Member.member) digest)
      ↔ r.members.length < C.k + C.m ∨ r.FlatSuffices digest (C.k + C.m) := by
  have hcast : (UInt8.ofNat (C.k + C.m)).toNat = C.k + C.m :=
    UInt8.toNat_ofNat_of_lt' (Nat.lt_of_le_of_lt C.le_max (by decide))
  have hcount := Roster.length_pickFrom acceptsWrites digest (UInt8.ofNat (C.k + C.m)) maxFleet r
  have heligible : (r.eligible acceptsWrites).length ≤ r.members.length := List.length_filter_le _ _
  rw [hcast] at hcount
  unfold selected rankTargets
  dsimp only
  rw [List.length_map]
  by_cases hshort : r.members.length < C.k + C.m
  · -- neither names a member
    have hnot : (r.pickWriteTargets digest (UInt8.ofNat (C.k + C.m)) maxFleet).length
        ≠ C.k + C.m := by
      rw [Roster.pickWriteTargets, hcount]
      omega
    rw [if_pos hshort, if_neg hnot]
    exact iff_of_true (List.Perm.refl _) (.inl hshort)
  · have hle : C.k + C.m ≤ r.members.length := Nat.le_of_not_lt hshort
    have hmembers : ((Fleet.fromSlice (r.members.map Member.member)).members.map Prod.fst)
        = r.members.map Member.member := by
      rw [Fleet.fromSlice, List.take_of_length_le (by rw [List.length_map]; exact r.length_le),
        List.map_map]
      exact List.map_id _
    have hflat : (pickTargets digest (C.k + C.m) (Fleet.fromSlice
        (r.members.map Member.member))).length = C.k + C.m := by
      have hlen := congrArg List.length hmembers
      rw [List.length_map, List.length_map] at hlen
      rw [length_pickTargets (hmembers.symm ▸ r.nodup), hlen]
      exact Nat.min_eq_left hle
    rw [if_neg hshort, if_pos hflat, or_iff_right hshort, ← Roster.pickWriteTargets_perm_iff _ _ hle]
    split
    · exact Iff.rfl
    next hne =>
    refine iff_of_false (fun h => ?_) fun h => hne (h.length_eq.trans hflat)
    have hlen := h.length_eq
    rw [hflat] at hlen
    have := C.two_le
    simp only [List.length_nil] at hlen
    omega

/-- **A router honours a snapshot** where its members alone suffice, or there are
too few; and only there, if it has room for the body. -/
theorem honours_iff {r : Roster} (hfleet : s.fleet = r.members.map Member.member) (c : UInt32) :
    (r.members.length < C.k + C.m ∨ r.FlatSuffices (C.sha body) (C.k + C.m) →
        Honours C s r c body) ∧
      (HasRoom C s body → Honours C s r c body →
        r.members.length < C.k + C.m ∨ r.FlatSuffices (C.sha body) (C.k + C.m)) := by
  have honly : ∀ N, asked C N s (.request c (.put body)) ⊆ rankTargets C s.fleet (C.sha body) :=
    fun N => asked_subset (sends_put (s := { s with upCid := c }))
  -- the two placements, as lists
  have hperm : (selected C r (C.sha body)).Perm (rankTargets C s.fleet (C.sha body))
      ↔ r.members.length < C.k + C.m ∨ r.FlatSuffices (C.sha body) (C.k + C.m) :=
    hfleet ▸ selected_perm_iff
  have hsel : (selected C r (C.sha body)).Nodup := by
    unfold selected
    dsimp only
    split
    · exact Roster.nodup_pickFrom _ _ _ _ _
    · exact List.nodup_nil
  refine ⟨fun hflat => ?_, fun hroom hhon => hperm.mp ?_⟩
  · have hsame := hperm.mpr hflat
    exact ⟨fun N => List.Subset.trans (honly N) hsame.symm.subset,
      fun hroom => List.Subset.trans hsame.subset (ranked_subset_asked hroom c)⟩
  · refine (List.perm_ext_iff_of_nodup hsel nodup_rankTargets).mpr fun t => ?_
    exact ⟨fun ht => honly _ (hhon.all hroom ht),
      fun ht => hhon.only _ (ranked_subset_asked hroom c ht)⟩

end EcRouting

/-! ## Every snapshot received -/

theorem follows_step (C : BodyRouter.Config) (N : ℕ → Bool) :
    FleetWorld.Follows (BodyRouter.step C N) BodyRouter.State.fleet fun _ => True :=
  ⟨fun _ _ _ => trivial, fun _ _ => rfl, fun s _ _ he => BodyRouter.fleet_step C N s he⟩

theorem follows_ecStep (C : EcConfig) (N : ℕ → Bool) :
    FleetWorld.Follows (ecStep C N) EcState.fleet (EcState.Wf C) :=
  ⟨fun _ e h => ecStep_wf h e, fun _ _ => rfl, fun _ _ h he => ecStep_fleet h he⟩

/-- **Routers honour a snapshot where the members alone suffice.** In every run of
the placement router and a body router, whatever it updates, broadcasts and
reads, and for every request that stores a new body after a snapshot was
received: the members written to are those the write placement names on the
whole snapshot, if the heaviest members take writes and are of different domains
or have every domain there is; and only then, if there is room for the
request. -/
theorem targets_of_snapshot (N : ℕ → Bool) (params : Bytes) (es : List FleetEvent) (r : Roster) :
    (∀ C : BodyRouter.Config,
      (FleetWorld.runOf (BodyRouter.step C N) params (.init C) es).latest = some r →
      ∀ (c : UInt32) (req : BodyReq) (key : Digest), BodyRouter.storeKey req = some key →
        let s := (FleetWorld.runOf (BodyRouter.step C N) params (.init C) es).router
        (r.FlatSuffices key (min C.replicas r.members.length) →
            BodyRouter.Honours C s r c req key) ∧
          (BodyRouter.HasRoom C s → BodyRouter.Honours C s r c req key →
            r.FlatSuffices key (min C.replicas r.members.length))) ∧
    (∀ C : EcConfig,
      (FleetWorld.runOf (ecStep C N) params (.init C) es).latest = some r →
      ∀ (c : UInt32) (body : Bytes),
        let s := (FleetWorld.runOf (ecStep C N) params (.init C) es).router
        (r.members.length < C.k + C.m ∨ r.FlatSuffices (C.sha body) (C.k + C.m) →
            EcRouting.Honours C s r c body) ∧
          (EcRouting.HasRoom C s body → EcRouting.Honours C s r c body →
            r.members.length < C.k + C.m ∨ r.FlatSuffices (C.sha body) (C.k + C.m))) :=
  ⟨fun C hr c _ _ hreq => BodyRouter.honours_iff
      ((FleetWorld.inv_runOf (follows_step C N) trivial params es).latest r hr) hreq c,
    fun C hr c _ => EcRouting.honours_iff
      ((FleetWorld.inv_runOf (follows_ecStep C N) (wf_init C) params es).latest r hr) c⟩

/-- A router that keeps one replica, after a snapshot of members 0 and 1, each
in a domain of its own, in these states. -/
def twoMembers (a b : UInt8) : FleetWorld BodyRouter.State :=
  FleetWorld.runOf (BodyRouter.step (BodyRouter.oneReplica 2) fun _ => true) []
    (.init (BodyRouter.oneReplica 2))
    [.update [0x61, 2, 0, 1, 0, 1, a, b], .broadcast 64, .read 64]

theorem nodup_pair : (([⟨0, 0, 0⟩, ⟨1, 1, 0⟩] : List Member).map Member.member).Nodup := by decide

theorem length_pair : ([⟨0, 0, 0⟩, ⟨1, 1, 0⟩] : List Member).length ≤ maxFleet := by decide

/-- Two members, in domains 0 and 1. -/
def twoDomains : Roster := ⟨[⟨0, 0, 0⟩, ⟨1, 1, 0⟩], nodup_pair, length_pair⟩

theorem nodup_triple :
    (([⟨0, 0, 0⟩, ⟨1, 1, 0⟩, ⟨2, 2, 0⟩] : List Member).map Member.member).Nodup := by decide

theorem length_triple : ([⟨0, 0, 0⟩, ⟨1, 1, 0⟩, ⟨2, 2, 0⟩] : List Member).length ≤ maxFleet := by
  decide

/-- Three members, each in a domain of its own. -/
def threeDomains : Roster := ⟨[⟨0, 0, 0⟩, ⟨1, 1, 0⟩, ⟨2, 2, 0⟩], nodup_triple, length_triple⟩

/-- A router that keeps two data shards and a parity, after a snapshot of them. -/
def ecThree : FleetWorld EcState :=
  FleetWorld.runOf (ecStep threeMembers fun _ => true) [] (.init threeMembers)
    [.update [0x61, 3, 0, 1, 2, 0, 1, 2, 0, 0, 0], .broadcast 64, .read 64]

theorem eq_some_of_members {o : Option Roster} {r : Roster}
    (h : o.map Roster.members = some r.members) : o = some r := by
  obtain ⟨⟨ms, hnodup, hlen⟩, rfl, hm⟩ := Option.map_eq_some_iff.mp h
  cases r
  cases hm
  rfl

/-- Of two members that take writes, the heavier one is written to; and a shard is
written to each of three. -/
theorem targets_of_snapshot_two :
    BodyRouter.Honours (BodyRouter.oneReplica 2) (twoMembers 0 0).router twoDomains 7
        (.putKeyed Digest.zero []) Digest.zero ∧
      EcRouting.Honours threeMembers ecThree.router threeDomains 7 [1] :=
  ⟨((targets_of_snapshot (fun _ => true) []
      [.update [0x61, 2, 0, 1, 0, 1, 0, 0], .broadcast 64, .read 64] twoDomains).1
      (BodyRouter.oneReplica 2) (eq_some_of_members (by decide +kernel)) 7
      (.putKeyed Digest.zero []) Digest.zero rfl).1 (by decide +kernel),
    ((targets_of_snapshot (fun _ => true) []
      [.update [0x61, 3, 0, 1, 2, 0, 1, 2, 0, 0, 0], .broadcast 64, .read 64] threeDomains).2
      threeMembers (eq_some_of_members (by decide +kernel)) 7 [1]).1 (.inr (by decide +kernel))⟩

/-- **A draining member is written to.** Member 0 is the heavier one for the
name and is draining; the router asks it to store. -/
theorem draining_written :
    ¬ ∀ (C : BodyRouter.Config) (N : ℕ → Bool) (params : Bytes) (es : List FleetEvent) (r : Roster),
      (FleetWorld.runOf (BodyRouter.step C N) params (.init C) es).latest = some r →
      ∀ (c : UInt32) (req : BodyReq) (key : Digest), BodyRouter.storeKey req = some key →
        BodyRouter.Honours C (FleetWorld.runOf (BodyRouter.step C N) params (.init C) es).router
          r c req key := by
  intro h
  obtain ⟨r, hr, hm⟩ := Option.map_eq_some_iff.mp
    (show (twoMembers 1 0).latest.map Roster.members = some [⟨0, 0, 1⟩, ⟨1, 1, 0⟩] by
      decide +kernel)
  have hhon := h (BodyRouter.oneReplica 2) (fun _ => true) []
    [.update [0x61, 2, 0, 1, 0, 1, 1, 0], .broadcast 64, .read 64] r hr 7
    (.putKeyed Digest.zero []) Digest.zero rfl
  -- member 0 is asked, and is not among those that take writes
  have hasked : 0 ∈ BodyRouter.asked (BodyRouter.oneReplica 2) (fun _ => true) (twoMembers 1 0).router
      (.request 7 (.putKeyed Digest.zero [])) := by decide +kernel
  have hin := Roster.pickFrom_subset _ _ _ _ _ (hhon.only (fun _ => true) hasked)
  rw [Roster.eligible, hm] at hin
  exact absurd hin (by decide)

end Loam

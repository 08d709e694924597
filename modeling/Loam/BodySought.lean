import Loam.BodyTable

/-!
# Where bodies are sought

A read, a removal and a scrub of a digest ask the members ranked for it, whatever
becomes of the members in between. So in a run whose answers meet their own, what
was stored is sought on the members that keep it (`placement_agrees`) when a
body's opening bytes rank the members its digest ranks. They need not: a body can
be stored on one member and sought on another (`placement_disagrees`).
-/

namespace Loam.BodyRouter

open Fanout (Ticket)

/-! ## Where a body is sought -/

/-- A read of a body, its size, or a range of it. -/
def Reads (digest : Digest) (req : BodyReq) : Prop :=
  req = .get digest ∨ req = .head digest ∨ ∃ off len, req = .range digest off len

/-- A fan-out that asks every one of the members `T` the same: each is awaited or
refused the question. -/
structure AsksAll (io : Io) (g : ℕ) (j : Join) (T : List UInt8) (req : BodyReq) : Prop where
  counts : (io.tickets g).length + j.fail = T.length
  nodup : ((io.tickets g).map Ticket.peer).Nodup
  /-- They are of the members, and each was asked. -/
  asked : ∀ k ∈ io.tickets g, k.peer ∈ T ∧ ⟨k.cid, k.peer, req⟩ ∈ io.sent

/-- An event brings a join the body. -/
def Brings (g : ℕ) (body : Bytes) (s : State) (e : EcEvent) : Prop :=
  ∃ k io, e.spends s.io = some (k, io, .get (some body)) ∧ k.join = g

/-- Of the good answers to a read a join takes, an event's is the body. -/
def Fair (g : ℕ) (body : Bytes) (s : State) (e : EcEvent) : Prop :=
  ∀ k io x, e.spends s.io = some (k, io, .get x) → k.join = g → x = some body

/-- An event of a run closes a join with the answer `p`. -/
def ClosesWith (C : Config) (N : ℕ → Bool) (g : ℕ) (p : UInt32 × BodyResp) :
    State → List EcEvent → Prop :=
  Run.SomeStep (tableStep C N) fun s e => s.io.join? g ≠ none ∧
    (tableStep C N s e).io.join? g = none ∧ (tableStep C N s e).up = s.up ++ [p]

/-- In a state, what is about a body is addressed to the members `T`. -/
structure Seeks (C : Config) (N : ℕ → Bool) (s : State) (T : List UInt8) (digest : Digest) :
    Prop where
  read : ∀ req, Reads digest req → ∀ c j s', s' = tableStep C N s (.request c req) →
    s'.io.join? s.io.nextGen = some j →
    j.targets.Perm T ∧ ∀ es, Run.AllSteps (tableStep C N) (fun s₁ e => e.own s₁.io = true) s' es →
      ∀ k ∈ (Run.run (tableStep C N) s' es).io.tickets s.io.nextGen,
        k.peer ∈ T ∧ ⟨k.cid, k.peer, req⟩ ∈ (Run.run (tableStep C N) s' es).io.sent
  /-- A member that answers a read with the body answers it. -/
  get : ∀ c j body s', s' = tableStep C N s (.request c (.get digest)) →
    s'.io.join? s.io.nextGen = some j → ∀ es,
    Run.AllSteps (tableStep C N) (fun s₁ e => e.own s₁.io = true ∧ Fair s.io.nextGen body s₁ e) s' es →
    Run.SomeStep (tableStep C N) (Brings s.io.nextGen body) s' es →
    ClosesWith C N s.io.nextGen (c, .get (some body)) s' es
  delete : ∀ c j s', s' = tableStep C N s (.request c (.delete digest)) →
    s'.io.join? s.io.nextGen = some j → AsksAll s'.io s.io.nextGen j T (.delete digest)
  /-- So does the probe of a scrub, whatever else is on the page that names the
  body. -/
  probe : ∀ s' : State, s'.io.Sound → s'.fleet = s.fleet → ∀ keyed j,
    (scrubSpawnProbe C N s' (digest, keyed)).io.join? s'.io.nextGen = some j →
    j.targets.Perm T ∧
      AsksAll (scrubSpawnProbe C N s' (digest, keyed)).io s'.io.nextGen j T (.head digest)

section Seeks

variable {C : Config} {N : ℕ → Bool} {s s' : State} {e : EcEvent} {g : ℕ} {j j' : Join}
  {k : Ticket UInt8} {io io' : Io} {resp : BodyResp} {es es' : List EcEvent} {T : List UInt8}
  {c : UInt32} {req : BodyReq} {body : Bytes} {digest : Digest}

/-- A read in hand: its targets are the members, and it answers the request. -/
structure Join.Walks (j : Join) (T : List UInt8) (req : BodyReq) (c : UInt32) : Prop where
  kind : j.kind = .client
  op : j.op = .get ∨ j.op = .head ∨ j.op = .range
  question : j.question = req
  targets : j.targets.Perm T
  upCid : j.upCid = c

/-- A walk goes on: one member at most is awaited. -/
structure Walking (s : State) (g : ℕ) (T : List UInt8) (req : BodyReq) (c : UInt32) : Prop where
  join : ∃ j, s.io.join? g = some j ∧ j.Walks T req c
  one : (s.io.tickets g).length ≤ 1
  asked : ∀ k ∈ s.io.tickets g, k.peer ∈ T ∧ ⟨k.cid, k.peer, req⟩ ∈ s.io.sent

/-- A join is gone, and awaits nothing. -/
structure Gone (s : State) (g : ℕ) : Prop where
  lt : g < s.io.nextGen
  join : s.io.join? g = none
  tickets : s.io.tickets g = []

/-- **A walk moves on**, or ends. -/
theorem walking_advanceRead (l : List UInt8) (hs : s.io.Sound) (hj : s.io.join? g = some j)
    (hw : j.Walks T req c) (hnil : s.io.tickets g = []) (hl : l ⊆ T) :
    Walking (advanceRead C N g l s) g T req c ∨ Gone (advanceRead C N g l s) g := by
  induction l generalizing s j with
  | nil =>
    right
    have hlt := Fanout.join?_lt hs hj
    unfold advanceRead
    rw [hj]
    dsimp only
    rw [if_neg (by rw [hw.kind]; simp)]
    exact ⟨hlt, Fanout.join?_close _ _, hnil⟩
  | cons t rest ih =>
    obtain ⟨new, hasks, hlen⟩ := Fanout.ask_spec s.io C.pendingCap N g t j.question
    have hlt := Fanout.join?_lt hs hj
    have hs' := hasks.sound hs hlt
    have htickets := hasks.tickets
    rw [hnil, List.nil_append] at htickets
    unfold advanceRead
    rw [hj]
    dsimp only
    split
    · next hok =>
      rw [if_pos hok] at hlen
      refine .inl ⟨⟨j, (hasks.join? g).trans hj, hw⟩, ?_, fun k hk => ?_⟩
      · exact Nat.le_of_eq ((congrArg List.length htickets).trans hlen)
      · obtain ⟨q, hq, hpeer, hsent⟩ := hasks.asked k (htickets ▸ hk)
        rw [List.mem_singleton.mp hq] at hpeer hsent
        refine ⟨hpeer ▸ hl List.mem_cons_self, ?_⟩
        rw [← hw.question, ← hpeer]
        exact hsent
    · next hno =>
      -- the member refused the question
      rw [if_neg hno] at hlen
      have hnew : new = [] := List.eq_nil_of_length_eq_zero hlen
      refine ih (j := { j with lastErrno := errIo, attempt := j.attempt + 1 }) ?_ ?_
        ⟨hw.kind, hw.op, hw.question, hw.targets, hw.upCid⟩ ?_ fun t ht => hl (List.mem_cons_of_mem _ ht)
      · exact hs'.modify g fun j => { j with lastErrno := errIo, attempt := j.attempt + 1 }
      · rw [State.setJoin, Fanout.join?_modify, hasks.join?, hj]
        rfl
      · rw [State.setJoin, Fanout.tickets_modify, htickets, hnew]

/-- What is about no join leaves one that is gone so. -/
theorem Gone.does {A : Allow} (h : Gone s g) (hd : Does A none s s') : Gone s' g := by
  obtain ⟨hjoin, htickets⟩ := hd.io.keeps g h.lt (by simp)
  exact ⟨Nat.lt_of_lt_of_le h.lt hd.io.nextGen, hjoin.trans h.join, htickets.trans h.tickets⟩

theorem about_ne (hnil : s.io.tickets g = []) : about s.io e ≠ some g := by
  intro habout
  obtain ⟨k, io, resp, hk, rfl⟩ := exists_spent habout
  have hmem := (spends_spec hk).mem_tickets
  rw [hnil] at hmem
  cases hmem

theorem Gone.meets (h : Gone s g) (hs : s.Wf) (e : EcEvent) : Gone (step C N s e) g := by
  have hdoes := does_step (C := C) (N := N) hs e
  obtain ⟨hjoin, htickets⟩ := hdoes.io.keeps g h.lt (Ne.symm (about_ne h.tickets))
  exact ⟨Nat.lt_of_lt_of_le h.lt hdoes.io.nextGen, hjoin.trans h.join, htickets.trans h.tickets⟩

theorem step_of_walk (hk : e.spends s.io = some (k, io, resp)) (hg : k.join = g)
    (hj : s.io.join? g = some j) (hw : j.Walks T req c) :
    ∃ q, step C N s e = answerRead C N { s with io := io, quiet := q } g j resp := by
  obtain ⟨q, hstep⟩ := step_of_spends (C := C) (N := N) hk
  refine ⟨q, ?_⟩
  rw [hstep, answerJoin, hg]
  dsimp only
  rw [(spends_spec hk).join?, hj]
  dsimp only
  rw [applyJoinResponse, hw.kind]
  dsimp only
  rcases hw.op with hop | hop | hop <;> rw [hop]

/-- **A walk meets an event**: it goes on, or is gone. -/
theorem Walking.meets (h : Walking s g T req c) (hs : s.Wf) (e : EcEvent) :
    Walking (step C N s e) g T req c ∨ Gone (step C N s e) g := by
  obtain ⟨j, hj, hw⟩ := h.join
  have hlt := Fanout.join?_lt hs.sound hj
  by_cases habout : about s.io e = some g
  · obtain ⟨k, io, resp, hk, hg⟩ := exists_spent habout
    obtain ⟨q, hstep⟩ := step_of_walk (C := C) (N := N) hk hg hj hw
    have hspends := spends_spec hk
    have hs' := hspends.sound hs.sound
    have hj' : io.join? g = some j := (hspends.join? _).trans hj
    have hlt' : g < io.nextGen := Fanout.join?_lt hs' hj'
    have hnil : io.tickets g = [] := by
      have hcount := hspends.length_tickets hs.sound
      have hone := h.one
      rw [hg] at hcount
      exact List.eq_nil_of_length_eq_zero (by omega)
    rw [hstep, answerRead]
    split
    · -- its answer went upstream
      have hgone : Gone ((State.emit { s with io := io, quiet := q } j.upCid resp).freeJoin g) g :=
        ⟨hlt', Fanout.join?_close _ _, hnil⟩
      right
      dsimp only
      split
      · exact hgone.does (does_spawnRepairPuts (hs'.close g) _ _ _)
      · exact hgone
    · -- the next of its targets is asked
      have hnext : ∀ j' : Join, j'.Walks T req c →
          Walking (advanceRead C N g j'.ahead
              (State.setJoin { s with io := io, quiet := q } g fun _ => j')) g T req c ∨
            Gone (advanceRead C N g j'.ahead
              (State.setJoin { s with io := io, quiet := q } g fun _ => j')) g := fun j' hw' =>
        walking_advanceRead j'.ahead (hs'.modify g fun _ => j')
          ((Fanout.join?_modify io g _).trans (congrArg (Option.map fun _ => j') hj')) hw' hnil
          fun t ht => hw'.targets.subset (List.mem_of_mem_drop ht)
      exact hnext _ ⟨hw.kind, hw.op, hw.question, hw.targets, hw.upCid⟩
  · have hdoes := does_step (C := C) (N := N) hs e
    obtain ⟨hjoin, htickets⟩ := hdoes.io.keeps g hlt (Ne.symm habout)
    refine .inl ⟨⟨j, hjoin.trans hj, hw⟩, htickets ▸ h.one, fun k hk => ?_⟩
    rw [htickets] at hk
    exact ⟨(h.asked k hk).1, hdoes.io.sent.subset (h.asked k hk).2⟩

theorem up_repairOne (op : BodyOp) (req : BodyReq) (s : State) (member : UInt8) :
    (repairOne C N op req s member).up = s.up := by
  unfold repairOne
  split
  · rfl
  dsimp only
  split <;> rfl

theorem up_repairs (op : BodyOp) (req : BodyReq) (members : List UInt8) (s : State) :
    (members.foldl (repairOne C N op req) s).up = s.up := by
  induction members generalizing s with
  | nil => rfl
  | cons m ms ih => exact (ih _).trans (up_repairOne op req s m)

theorem up_spawnRepairPuts (s : State) (members : List UInt8) (resp : BodyResp)
    (keyed : Option Digest) : (spawnRepairPuts C N s members resp keyed).up = s.up := by
  unfold spawnRepairPuts
  split
  · split
    · rfl
    · split <;> exact up_repairs _ _ _ _
  · rfl

/-- **The body is brought**, and answered. -/
theorem Walking.brought (h : Walking s g T (.get digest) c) (hs : s.Wf) (hb : Brings g body s e) :
    (step C N s e).io.join? g = none ∧ (step C N s e).up = s.up ++ [(c, .get (some body))] := by
  obtain ⟨k, io, hk, hg⟩ := hb
  obtain ⟨j, hj, hw⟩ := h.join
  have hspends := spends_spec hk
  have hs' := hspends.sound hs.sound
  have hlt : g < io.nextGen := Fanout.join?_lt hs' ((hspends.join? _).trans hj)
  have hop : j.op = .get := by
    have hq := hw.question
    rcases hw.op with hop | hop | hop <;> rw [Join.question, hop] at hq <;> first | exact hop | cases hq
  obtain ⟨q, hstep⟩ := step_of_walk (C := C) (N := N) hk hg hj hw
  rw [hstep, answerRead, if_pos (by rw [hop]; rfl), hw.upCid]
  dsimp only
  split
  · refine ⟨?_, up_spawnRepairPuts _ _ _ _⟩
    have hdoes := does_spawnRepairPuts (C := C) (N := N)
      (s := (State.emit { s with io := io, quiet := q } c (.get (some body))).freeJoin g)
      (hs'.close g) j.missing (.get (some body)) j.repairKey
    exact (hdoes.io.keeps g hlt (by simp)).1.trans (Fanout.join?_close _ _)
  · exact ⟨Fanout.join?_close _ _, rfl⟩

/-- A walk asks its members, whatever happens. -/
theorem walking_run (h : Walking s g T req c ∨ Gone s g) (hs : s.Wf)
    (hown : Run.AllSteps (tableStep C N) (fun s e => e.own s.io = true) s es) :
    Walking (Run.run (tableStep C N) s es) g T req c ∨ Gone (Run.run (tableStep C N) s es) g := by
  refine (Run.invariant (I := fun s => s.Wf ∧ (Walking s g T req c ∨ Gone s g))
    (fun s e h hown => ?_) ⟨hs, h⟩ hown).2
  rw [tableStep_eq h.1.sound hown]
  exact ⟨step_wf h.1 e, h.2.elim (fun hw => hw.meets h.1 e) fun hg => .inr (hg.meets h.1 e)⟩

theorem Gone.not_brought (h : Gone s g) (hs : s.Wf)
    (hown : Run.AllSteps (tableStep C N) (fun s e => e.own s.io = true ∧ Fair g body s e) s es) :
    ¬ Run.SomeStep (tableStep C N) (Brings g body) s es := by
  induction es generalizing s with
  | nil => exact id
  | cons e es ih =>
    have hstep := tableStep_eq (C := C) (N := N) hs.sound hown.1.1
    rintro (⟨k, io, hk, hg⟩ | hlater)
    · exact about_ne h.tickets (by rw [about, hk, ← hg]; rfl)
    · exact ih (hstep ▸ h.meets hs e) (hstep ▸ step_wf hs e) hown.2 hlater

/-- **A read is answered with the body** once a member brings it, whoever failed
before. -/
theorem Walking.answered (h : Walking s g T (.get digest) c) (hs : s.Wf)
    (hfair : Run.AllSteps (tableStep C N) (fun s e => e.own s.io = true ∧ Fair g body s e) s es)
    (hb : Run.SomeStep (tableStep C N) (Brings g body) s es) :
    ClosesWith C N g (c, .get (some body)) s es := by
  induction es generalizing s with
  | nil => exact hb.elim
  | cons e es ih =>
    have hstep := tableStep_eq (C := C) (N := N) hs.sound hfair.1.1
    by_cases hnow : Brings g body s e
    · obtain ⟨hclosed, hup⟩ := h.brought (C := C) (N := N) hs hnow
      obtain ⟨j, hj, -⟩ := h.join
      exact .inl ⟨by simp [hj], hstep ▸ hclosed, hstep ▸ hup⟩
    have hs' : (tableStep C N s e).Wf := hstep ▸ step_wf hs e
    rcases h.meets (C := C) (N := N) hs e with hon | hgone
    · exact .inr (ih (hstep ▸ hon) hs' hfair.2 (hb.resolve_left hnow))
    rw [← hstep] at hgone
    exact absurd (hb.resolve_left hnow) (hgone.not_brought hs' hfair.2)

/-- Quiet members are asked last, and no others. -/
theorem quietLast_perm (C : Config) (quiet : UInt8 → Bool) (targets : List UInt8) :
    (quietLast C quiet targets).Perm targets := by
  unfold quietLast
  split
  · have h := List.filter_append_perm (fun t => !quiet t) targets
    simpa using h
  · exact .refl _

/-- A read that was opened walks the members ranked for the digest. -/
theorem walking_opened (op : BodyOp) (off : UInt64) (len : UInt32) (hs : s.Wf)
    (hperm : (rankTargets C s.fleet digest).Perm T) (hop : op = .get ∨ op = .head ∨ op = .range)
    (hreq : ∀ j : Join, j.op = op → j.digest = digest → j.rangeOff = off → j.rangeLen = len →
      j.question = req)
    (hj : (handleRead C N s op digest off len).io.join? s.io.nextGen = some j) :
    Walking (handleRead C N s op digest off len) s.io.nextGen T req s.upCid := by
  have hnone := hs.none_ge (Nat.le_refl s.io.nextGen)
  unfold handleRead at hj ⊢
  dsimp only at hj ⊢
  split at hj
  · exact absurd (hj.symm.trans hnone) (by simp)
  next hsome =>
  rw [if_neg hsome]
  split at hj
  · exact absurd (hj.symm.trans hnone) (by simp)
  next g io hstart =>
  have hopen := Fanout.opens_start hs.sound hstart
  have hg : g = s.io.nextGen := hopen.gen
  have hall := (quietLast_perm C s.quiet (rankTargets C s.fleet digest)).trans hperm
  rw [← hg] at hj ⊢
  refine (walking_advanceRead (s := { s with io := io }) _ hopen.sound hopen.join
    ⟨rfl, hop, hreq _ rfl rfl rfl rfl, hall, rfl⟩ hopen.tickets hall.subset).resolve_right ?_
  intro hgone
  exact absurd (hj.symm.trans hgone.join) (by simp)

theorem asksAll_open (hs : s.io.Sound) (hstart : s.io.start C.joinCap j = some (g, io))
    (hfail : j.fail = 0) {T' : List UInt8} (hperm : T'.Perm T) (hnodup : T.Nodup) (req : BodyReq) :
    ∃ s' j', askTargets C N { s with io := io } g (T'.map fun t => (t, req)) = s' ∧
      (∀ g' j', s.io.nextGen ≤ g' → s'.io.join? g' = some j' → g' = g) ∧
      s'.io.join? g = some j' ∧ j'.face = j.face ∧ AsksAll s'.io g j' T req := by
  obtain ⟨new, hasks, hcount⟩ :=
    Fanout.askAll_spec C.pendingCap N g (T'.map fun t => (t, req)) io
  have ho := (Fanout.opens_start hs hstart).asks hasks
  rw [List.nil_append] at ho
  have hall := ho.modify fun j => { j with fail := j.fail +
    (Fanout.askAll C.pendingCap N g (T'.map fun t => (t, req)) io).2 }
  rw [List.length_map, hperm.length_eq] at hcount
  have hpeers : (new.map Ticket.peer).Sublist T' := by
    have hsub := hasks.peers
    rwa [List.map_map, show (Prod.fst ∘ fun t : UInt8 => (t, req)) = id from rfl, List.map_id] at hsub
  refine ⟨_, _, rfl, fun g' j' hge hj' => (hall.only hge hj').1, hall.join, rfl, ?_, ?_,
    fun k hk => ?_⟩
  · rw [askTargets, State.setJoin]
    dsimp only
    rw [hall.tickets, hfail, Nat.zero_add, hcount]
  · rw [askTargets, State.setJoin]
    dsimp only
    rw [hall.tickets]
    exact (hperm.nodup_iff.mpr hnodup).sublist hpeers
  · have hk' : k ∈ new := hall.tickets ▸ hk
    refine ⟨hperm.subset (hpeers.subset (List.mem_map_of_mem hk')), ?_⟩
    obtain ⟨q, hq, hpeer, hsent⟩ := hasks.asked k hk'
    obtain ⟨t, -, rfl⟩ := List.mem_map.mp hq
    rw [← hpeer]
    exact hsent

/-- A removal that was opened asks all the members ranked for the digest. -/
theorem asksAll_delete (hs : s.Wf) (hperm : (rankTargets C s.fleet digest).Perm T)
    (hj : (handleDelete C N s digest).io.join? s.io.nextGen = some j) :
    AsksAll (handleDelete C N s digest).io s.io.nextGen j T (.delete digest) := by
  have hnone := hs.none_ge (Nat.le_refl s.io.nextGen)
  unfold handleDelete at hj ⊢
  dsimp only at hj ⊢
  split at hj
  · exact absurd (hj.symm.trans hnone) (by simp)
  next hsome =>
  rw [if_neg hsome]
  split at hj
  · exact absurd (hj.symm.trans hnone) (by simp)
  next g io hstart =>
  obtain ⟨s', j', heq, honly, hj', -, hasks⟩ := asksAll_open (C := C) (N := N) hs.sound hstart rfl
    hperm (hperm.nodup_iff.mp nodup_rankTargets) (.delete digest)
  rw [heq] at hj ⊢
  split at hj
  · -- every member refused: the join is gone
    obtain rfl := honly _ j (Nat.le_refl _) (Fanout.join?_of_close hj)
    exact absurd (hj.symm.trans (Fanout.join?_close _ _)) (by simp)
  next hon =>
  rw [if_neg hon]
  obtain rfl := honly _ j (Nat.le_refl _) hj
  obtain rfl : j' = j := Option.some.inj (hj'.symm.trans hj)
  exact hasks

/-- A probe that was opened asks all the members ranked for the name. -/
theorem asksAll_probe (hs : s.io.Sound) (hperm : (rankTargets C s.fleet digest).Perm T)
    (keyed : Bool)
    (hj : (scrubSpawnProbe C N s (digest, keyed)).io.join? s.io.nextGen = some j) :
    j.targets.Perm T ∧
      AsksAll (scrubSpawnProbe C N s (digest, keyed)).io s.io.nextGen j T (.head digest) := by
  have hnone : s.io.join? s.io.nextGen ≠ some j := fun h =>
    absurd (Fanout.join?_lt hs h) (Nat.lt_irrefl _)
  unfold scrubSpawnProbe at hj ⊢
  dsimp only at hj ⊢
  split at hj
  · exact absurd hj hnone
  next hsome =>
  rw [if_neg hsome]
  split at hj
  · exact absurd hj hnone
  next g io hstart =>
  obtain ⟨s', j', heq, honly, hj', hface, hasks⟩ := asksAll_open (C := C) (N := N) hs hstart rfl
    hperm (hperm.nodup_iff.mp nodup_rankTargets) (.head digest)
  rw [heq] at hj ⊢
  split at hj
  · obtain rfl := honly _ j (Nat.le_refl _) (Fanout.join?_of_close hj)
    exact absurd (hj.symm.trans (Fanout.join?_close _ _)) (by simp)
  next hon =>
  rw [if_neg hon]
  obtain rfl := honly _ j (Nat.le_refl _) hj
  obtain rfl : j' = j := Option.some.inj (hj'.symm.trans hj)
  exact ⟨(show j'.targets = rankTargets C s.fleet digest from congrArg Face.targets hface) ▸ hperm,
    hasks⟩

/-- A read of any kind that was opened walks the members ranked for the digest. -/
theorem walking_read (hs : s.Wf) (hperm : (rankTargets C s.fleet digest).Perm T)
    (hreq : Reads digest req)
    (hj : (step C N s (.request c req)).io.join? s.io.nextGen = some j) :
    Walking (step C N s (.request c req)) s.io.nextGen T req c := by
  have hs' : State.Wf { s with upCid := c } := ⟨hs.sound, hs.sane⟩
  rcases hreq with rfl | rfl | ⟨off, len, rfl⟩
  · exact walking_opened .get 0 0 hs' hperm (.inl rfl)
      (fun j h1 h2 _ _ => by rw [Join.question, h1, h2]) hj
  · exact walking_opened .head 0 0 hs' hperm (.inr (.inl rfl))
      (fun j h1 h2 _ _ => by rw [Join.question, h1, h2]) hj
  · exact walking_opened .range off len hs' hperm (.inr (.inr rfl))
      (fun j h1 h2 h3 h4 => by rw [Join.question, h1, h2, h3, h4]) hj

/-- **What is ranked the same is sought there.** -/
theorem seeks_of_perm (hs : s.Wf) (hperm : (rankTargets C s.fleet digest).Perm T) :
    Seeks C N s T digest where
  read := by
    rintro req hreq c j _ rfl hj
    have hwalk := walking_read (N := N) hs hperm hreq hj
    refine ⟨?_, fun es hown k hk => ?_⟩
    · obtain ⟨j', hj', hw⟩ := hwalk.join
      obtain rfl : j' = j := Option.some.inj (hj'.symm.trans hj)
      exact hw.targets
    · rcases walking_run (.inl hwalk) (step_wf hs _) hown with hon | hgone
      · exact hon.asked k hk
      · exact absurd (hgone.tickets ▸ hk) List.not_mem_nil
  get := by
    rintro c j body _ rfl hj es hfair hb
    exact (walking_read (N := N) hs hperm (.inl rfl) hj).answered (step_wf hs _) hfair hb
  delete := by
    rintro c j _ rfl hj
    exact asksAll_delete (s := { s with upCid := c }) ⟨hs.sound, hs.sane⟩ hperm hj
  probe := fun s' hs' hfleet keyed j hj => asksAll_probe hs' (hfleet ▸ hperm) keyed hj

end Seeks

/-! ## Both agree -/

/-- A store's members are those ranked for the digest: its opening bytes rank the
same. -/
def SamePlace (C : Config) (sha : Bytes → Digest) (s : State) : EcEvent → Prop
  | .request _ (.put body) =>
    (rankTargets C s.fleet (sha body)).Perm (rankTargets C s.fleet (bodyKeyFromBytes body))
  | _ => True

/-- Write and read placement agree in a run: what it acknowledged is kept by
members that are, as long as the fleet is as it was then, those every request
about it and every scrub of it are addressed to. -/
structure PlacementAgrees (C : Config) (sha : Bytes → Digest) (N : ℕ → Bool) (es : List EcEvent) :
    Prop where
  put : ∀ c p, (c, .put p) ∈ (tableRun C N es).up → ∃ es₀ body T told, p = some told ∧
    RequestAt es es₀ c (.put body) ∧
    T = rankTargets C (tableRun C N es₀).fleet (bodyKeyFromBytes body) ∧ T ≠ [] ∧
    StoredOn (tableRun C N es).io.sent es T (fun _ => .put body) .put told ∧
    ∀ es₁, Run.AllSteps (tableStep C N) (fun s e => e.own s.io = true) (tableRun C N es) es₁ →
      (tableRun C N (es ++ es₁)).fleet = (tableRun C N es₀).fleet →
      Seeks C N (tableRun C N (es ++ es₁)) T (sha body)
  stream : ∀ c p, (c, .wcommit p) ∈ (tableRun C N es).up →
    ∃ es₀ digest T, ∃ wids : ℕ → UInt8, ∃ told, p = some told ∧
      (∃ es₁ wid, RequestAt es es₁ c (.wcommit wid)) ∧
      (∃ c total, RequestAt es es₀ c (.wopen digest total)) ∧
      T = rankTargets C (tableRun C N es₀).fleet digest ∧ T ≠ [] ∧
      StoredOn (tableRun C N es).io.sent es T (fun i => .wcommit (wids i)) .wcommit told ∧
      ∀ es₁, Run.AllSteps (tableStep C N) (fun s e => e.own s.io = true) (tableRun C N es) es₁ →
        (tableRun C N (es ++ es₁)).fleet = (tableRun C N es₀).fleet →
        Seeks C N (tableRun C N (es ++ es₁)) T digest

theorem wf_tableRun {C : Config} {N : ℕ → Bool} {es : List EcEvent}
    (h : Run.AllSteps (tableStep C N) (fun s e => e.own s.io = true) (State.init C) es) :
    (tableRun C N es).Wf := by
  rw [tableRun_eq h]
  exact wf_runOf es

/-- **Write and read placement agree** in a run whose answers meet their own, and
whose stores are of bodies whose opening bytes rank the members their digests
rank. -/
theorem placement_agrees (C : Config) (sha : Bytes → Digest) (N : ℕ → Bool) (es : List EcEvent)
    (h : Run.AllSteps (tableStep C N) (fun s e => e.own s.io = true ∧ SamePlace C sha s e)
      (State.init C) es) : PlacementAgrees C sha N es := by
  have hown := h.mono fun _ _ h => h.1
  have hlater : ∀ es₁, Run.AllSteps (tableStep C N) (fun s e => e.own s.io = true) (tableRun C N es) es₁ →
      (tableRun C N (es ++ es₁)).Wf := fun es₁ h₁ =>
    wf_tableRun (Run.allSteps_append.mpr ⟨hown, h₁⟩)
  refine ⟨fun c p hp => ?_, fun c p hp => ?_⟩
  · obtain ⟨es₀, body, T, told, htold, ⟨es', rfl⟩, hranked, hsome, hstored⟩ := put_acked hown hp
    refine ⟨es₀, body, T, told, htold, ⟨es', rfl⟩, hranked, hsome, hstored, fun es₁ h₁ hfleet =>
      seeks_of_perm (hlater es₁ h₁) ?_⟩
    rw [hfleet, hranked]
    exact (Run.allSteps_append.mp h).2.1.2
  · obtain ⟨es₀, digest, T, wids, told, htold, hreq, hopen, hranked, hsome, hstored⟩ :=
      commit_acked hown hp
    refine ⟨es₀, digest, T, wids, told, htold, hreq, hopen, hranked, hsome, hstored,
      fun es₁ h₁ hfleet => seeks_of_perm (hlater es₁ h₁) ?_⟩
    rw [hfleet, hranked]

/-- Of three members, the one that stores `abc` is the one that is asked for
it. -/
theorem placement_agrees_abc :
    (7, .put (some abcDigest)) ∈ (tableRun (oneReplica 3) (fun _ => true)
      [.request 7 (.put abc), .answer 2 0 (.put (some abcDigest))]).up ∧
    PlacementAgrees (oneReplica 3) abcSha (fun _ => true)
      [.request 7 (.put abc), .answer 2 0 (.put (some abcDigest))] :=
  ⟨by decide +kernel, placement_agrees (oneReplica 3) abcSha (fun _ => true)
    [.request 7 (.put abc), .answer 2 0 (.put (some abcDigest))]
    ⟨⟨rfl, by rw [SamePlace]; decide +kernel⟩, ⟨by decide +kernel, trivial⟩, trivial⟩⟩

/-- **A stored body can be sought elsewhere.** Of five members the fifth stores
`abc`, and a read of its digest asks the third. -/
theorem placement_disagrees :
    ¬ ∀ (C : Config) (sha : Bytes → Digest) (N : ℕ → Bool) (es : List EcEvent),
      PlacementAgrees C sha N es := by
  intro h
  obtain ⟨es₀, body, T, told, -, ⟨es₁, hes⟩, hranked, -, -, hseeks⟩ :=
    (h (oneReplica 5) abcSha (fun _ => true)
      [.request 7 (.put abc), .answer 4 0 (.put (some abcDigest))]).put 7 (some abcDigest)
      (by decide +kernel)
  -- the run takes one request only
  obtain ⟨rfl, rfl⟩ : es₀ = [] ∧ body = abc := by
    rcases es₀ with _ | ⟨e₀, _ | ⟨e₁, es₀⟩⟩ <;> simp at hes
    exact ⟨rfl, hes.1.symm⟩
  have hread := fun j hj =>
    ((hseeks [] trivial (by decide +kernel)).read (.get abcDigest) (.inl rfl) 8 j _ rfl hj).1
  have hperm := hread { op := .get, need := 1, targets := [2], upCid := 8, digest := abcDigest }
    (by decide +kernel)
  rw [hranked] at hperm
  exact absurd hperm (by decide +kernel)

end Loam.BodyRouter

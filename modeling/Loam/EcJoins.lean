import Loam.EcRouter

/-!
# What the router's events do to its joins

A step of the router is about one join at most: the one whose ticket it spends,
or the one a request opens. Every other join keeps its fields and its tickets,
and while it owns the assembly it keeps that too (`Step`). Around it the scrub
opens and closes joins of its own, which answer nobody and gather nothing
(`Extra`).

What a join waits for is counted. A store or a removal has as many tickets as
it misses answers; a fetch has enough tickets to reach `k` shards; and a read
has a ticket, a shard or a failure for each of its `k + m` targets – as long
as no member answers it with a record the assembly turns away, which the code
counts as neither.
-/

namespace Loam

open Fanout (Same Grows Asks Spends Ticket)

/-- A join that answers nobody and gathers nothing. -/
def EcJoin.Inert (j : EcJoin) : Prop := j.kind.client = false ∧ j.kind.gathers = false

/-- The answers given under a correlation id. -/
def EcState.answered (s : EcState) (c : UInt32) : ℕ := s.up.countP fun p => p.1 = c

/-- The joins that owe an answer under a correlation id. -/
def EcState.waiting (s : EcState) (c : UInt32) : ℕ :=
  s.io.count fun j => j.kind.client && j.upCid == c

/-- The answers given and owed under a correlation id. -/
def EcState.owed (s : EcState) (c : UInt32) : ℕ := s.answered c + s.waiting c

section Invariant

variable (C : EcConfig)

/-- The joins are told apart, and the assembly is busy exactly while a join that
gathers shards owns it. -/
structure EcState.Wf (s : EcState) : Prop where
  /-- Generations and ids are used once. -/
  sound : s.io.Sound
  owner : ∀ g j, s.io.join? g = some j → j.kind.gathers = true →
    s.asm.busy = true ∧ s.asm.join = g ∧ s.asm.internal = decide (j.kind = .scrubFetch)
  busy : s.asm.busy = true →
    ∃ j, s.io.join? s.asm.join = some j ∧ j.kind.gathers = true
  /-- An assembly nobody owns is not a scrub's. -/
  idle : s.asm.busy = false → s.asm.internal = false
  /-- The shard the scrub has in hand is one of the code's. -/
  ident : s.scrub.identIndex < C.k + C.m
  /-- A read asked each of its targets once, and has the shard of none it still
  awaits. -/
  reads : ∀ g j, s.io.join? g = some j → j.kind = .get →
    j.targets.length = C.k + C.m ∧ ((s.io.tickets g).map Ticket.peer).Nodup
      ∧ ∀ t ∈ s.io.tickets g, ∀ i, j.targets.findIdx? (fun t' => t' = t.peer) = some i →
        s.asm.shards i = none

/-- What a join with `n` tickets waits for, when `gathered` shards are in the
assembly. -/
def EcJoin.Counts (n gathered : ℕ) (j : EcJoin) : Prop :=
  match j.kind with
  | .put | .delete => 0 < n ∧ j.ack + j.fail + n = j.need
  | .get => gathered < C.k ∧ j.fail ≤ C.m ∧ gathered + j.fail + n = C.k + C.m
  | .head => 0 < n ∧ j.attempt < j.targets.length
  | .scrubFetch => gathered < C.k ∧ C.k ≤ gathered + n ∧ j.ack + j.fail + n = j.need
  | _ => True

/-- The join of a generation, if in hand, waits for what it should. -/
def EcState.CountsAt (s : EcState) (g : ℕ) : Prop :=
  ∀ j, s.io.join? g = some j → j.Counts C (s.io.tickets g).length (s.asm.gathered C)

variable {C} {s s' s'' : EcState} {g : ℕ} {j : EcJoin} {n gathered : ℕ}

section Counts

theorem EcJoin.counts_put (hk : j.kind = .put) :
    j.Counts C n gathered ↔ 0 < n ∧ j.ack + j.fail + n = j.need := by
  rw [EcJoin.Counts, hk]

theorem EcJoin.counts_delete (hk : j.kind = .delete) :
    j.Counts C n gathered ↔ 0 < n ∧ j.ack + j.fail + n = j.need := by
  rw [EcJoin.Counts, hk]

theorem EcJoin.counts_get (hk : j.kind = .get) :
    j.Counts C n gathered ↔
      gathered < C.k ∧ j.fail ≤ C.m ∧ gathered + j.fail + n = C.k + C.m := by
  rw [EcJoin.Counts, hk]

theorem EcJoin.counts_head (hk : j.kind = .head) :
    j.Counts C n gathered ↔ 0 < n ∧ j.attempt < j.targets.length := by
  rw [EcJoin.Counts, hk]

theorem EcJoin.counts_fetch (hk : j.kind = .scrubFetch) :
    j.Counts C n gathered ↔
      gathered < C.k ∧ C.k ≤ gathered + n ∧ j.ack + j.fail + n = j.need := by
  rw [EcJoin.Counts, hk]

end Counts

theorem EcJoin.Inert.counts (h : j.Inert) : j.Counts C n gathered := by
  obtain ⟨hc, hg⟩ := h
  unfold EcJoin.Counts
  cases hk : j.kind <;> simp_all [EcKind.client, EcKind.gathers]

/-- A join in hand that gathers or answers somebody awaits an answer. -/
theorem EcJoin.Counts.pos (h : j.Counts C n gathered) (hj : ¬j.Inert) : 0 < n := by
  unfold EcJoin.Counts at h
  unfold EcJoin.Inert at hj
  cases hk : j.kind <;> simp only [hk, EcKind.client, EcKind.gathers] at h hj <;>
    first | exact h.1 | omega | simp at hj

theorem EcJoin.Counts.of_gathered (h : j.Counts C n gathered) (hj : j.kind.gathers = false)
    (gathered' : ℕ) : j.Counts C n gathered' := by
  unfold EcJoin.Counts at h ⊢
  cases hk : j.kind <;> simp_all [EcKind.gathers]

/-- A join that was left alone waits for what it did. -/
theorem EcState.CountsAt.of_same (h : s.CountsAt C g) (hs : Same g s.io s'.io)
    (ha : ∀ j, s.io.join? g = some j → j.kind.gathers = true → s'.asm = s.asm) :
    s'.CountsAt C g := by
  intro j hj
  rw [hs.1] at hj
  rw [hs.2]
  by_cases hg : j.kind.gathers = true
  · rw [ha j hj hg]
    exact h j hj
  · exact (h j hj).of_gathered (by simpa using hg) _

/-! ## What the scrub does around the joins -/

/-- An operation over joins of the scrub's own. -/
structure Extra (s s' : EcState) : Prop where
  /-- The joins that were in hand are as they were. -/
  io : Grows EcJoin.Inert s.io s'.io
  asm : s'.asm = s.asm
  up : s'.up = s.up
  fleet : s'.fleet = s.fleet
  ident : s'.scrub.identIndex = s.scrub.identIndex

theorem Extra.refl (hs : s.io.Sound) : Extra s s := ⟨.refl hs, rfl, rfl, rfl, rfl⟩

theorem Extra.trans (h : Extra s s') (h' : Extra s' s'') : Extra s s'' :=
  ⟨h.io.trans h'.io, h'.asm.trans h.asm, h'.up.trans h.up, h'.fleet.trans h.fleet,
    h'.ident.trans h.ident⟩

theorem Extra.owed (h : Extra s s') (c : UInt32) : s'.owed c = s.owed c := by
  have hcount := h.io.count (fun j => j.kind.client && j.upCid == c) fun j hj => by simp [hj.1]
  rw [EcState.owed, EcState.owed, EcState.answered, EcState.waiting, h.up, hcount]
  rfl

theorem Extra.wf (h : Extra s s') (hs : s.Wf C) : s'.Wf C := by
  -- a join that is not inert was in hand before
  have hold : ∀ g j, s'.io.join? g = some j → j.kind.gathers = true →
      Same g s.io s'.io ∧ s.io.join? g = some j := by
    intro g j hj hg
    by_cases hlt : g < s.io.nextGen
    · exact ⟨h.io.keeps g hlt, (h.io.keeps g hlt).1 ▸ hj⟩
    have := (h.io.fresh g j (Nat.le_of_not_lt hlt) hj).2
    rw [hg] at this
    cases this
  refine ⟨h.io.sound, fun g j hj hg => ?_, fun hb => ?_, fun hb => ?_, h.ident ▸ hs.ident,
    fun g j hj hk => ?_⟩
  · rw [h.asm]
    exact hs.owner g j (hold g j hj hg).2 hg
  · rw [h.asm] at hb ⊢
    obtain ⟨j, hj, hg⟩ := hs.busy hb
    exact ⟨j, (h.io.keeps _ (Fanout.join?_lt hs.sound hj)).1.trans hj, hg⟩
  · rw [h.asm] at hb ⊢
    exact hs.idle hb
  · obtain ⟨hsame, hj'⟩ := hold g j hj (by rw [hk]; rfl)
    rw [hsame.2, h.asm]
    exact hs.reads g j hj' hk

/-- A join that was closed is not opened again. -/
theorem Extra.closed (h : Extra s s') (hlt : g < s.io.nextGen) (hn : s.io.join? g = none) :
    s'.io.join? g = none :=
  (h.io.keeps g hlt).1.trans hn

/-- A fresh join of the scrub's waits for nothing that matters. -/
theorem Extra.countsAt (h : Extra s s') (hs : s.CountsAt C g) : s'.CountsAt C g := by
  by_cases hlt : g < s.io.nextGen
  · exact hs.of_same (h.io.keeps g hlt) fun _ _ _ => h.asm
  · exact fun j hj => (h.io.fresh g j (Nat.le_of_not_lt hlt) hj).counts

variable {N : ℕ → Bool} {io io' : EcIo} {qs : List (UInt8 × BodyReq)} {cap : ℕ}
  {new : List (Ticket UInt8)}

theorem extra_asked (hs : s.io.Sound) (hj : j.Inert) (h : s.io.start C.joinCap j = some (g, io))
    (ha : Asks cap g qs io io' new) {x : Scrub} (hx : x.identIndex = s.scrub.identIndex) :
    Extra s { s with io := io', scrub := x } :=
  ⟨((Fanout.opens_start hs h).asks ha).grows hs hj, rfl, rfl, rfl, hx⟩

/-- A join of the scrub's was opened for nothing. -/
theorem extra_closed (hs : s.io.Sound) (h : s.io.start C.joinCap j = some (g, io))
    (ha : Asks cap g qs io io' new) {x : Scrub} (hx : x.identIndex = s.scrub.identIndex) :
    Extra s { s with io := io'.close g, scrub := x } :=
  ⟨((Fanout.opens_start hs h).asks ha).grows_close hs, rfl, rfl, rfl, hx⟩

theorem extra_scrub (hs : s.io.Sound) {x : Scrub} (hx : x.identIndex = s.scrub.identIndex) :
    Extra s { s with scrub := x } :=
  ⟨.refl hs, rfl, rfl, rfl, hx⟩

/-- The keys of a page open joins of the scrub's. -/
theorem extra_startIdent (keys : List Digest) (hs : s.io.Sound) :
    Extra s (startIdent C N keys s) := by
  induction keys generalizing s with
  | nil => exact extra_scrub hs rfl
  | cons key rest ih =>
    rw [startIdent]
    split
    · exact ih hs
    next g io hstart =>
    obtain ⟨new, hask, -⟩ := Fanout.ask_spec io C.pendingCap N g s.scrub.member (.get key)
    dsimp only
    split
    · exact extra_asked hs ⟨rfl, rfl⟩ hstart hask rfl
    have hclosed := extra_closed hs hstart hask (x := { s.scrub with queue := key :: rest }) rfl
    exact hclosed.trans (ih hclosed.io.sound)

theorem extra_scrubNextKey (hs : s.io.Sound) : Extra s (scrubNextKey C N s) :=
  extra_startIdent _ hs

theorem extra_oneRepair (hs : s.io.Sound) (i : ℕ) (blob : Bytes) :
    Extra s (scrubDispatchOneRepair C N s i blob) := by
  unfold scrubDispatchOneRepair
  split
  · exact .refl hs
  next g io hstart =>
  obtain ⟨new, hask, -⟩ := Fanout.ask_spec io C.pendingCap N g (s.scrub.ranked.getD i 0)
    (.putKeyed (deriveShardKey C.sha s.scrub.digest i) blob)
  dsimp only
  split
  · exact extra_asked hs ⟨rfl, rfl⟩ hstart hask rfl
  · exact extra_closed hs hstart hask rfl

theorem extra_repairs (hs : s.io.Sound) (shards : List Bytes) :
    Extra s (scrubDispatchRepairs C N shards s) := by
  unfold scrubDispatchRepairs
  generalize List.range s.scrub.ranked.length = is
  induction is generalizing s with
  | nil => exact .refl hs
  | cons i is ih =>
    rw [List.foldl_cons]
    split
    · have hone := extra_oneRepair (C := C) (N := N) hs i (encodeShardBlob
        ⟨C.k, C.m, i, s.asm.bodyLen, s.asm.digest, s.asm.shardLen⟩ (shards.getD i []))
      exact hone.trans (ih hone.io.sound)
    · exact ih hs

theorem extra_cleanup (hs : s.io.Sound) (member : UInt8) :
    Extra s (scrubDispatchCleanup C N s member) := by
  unfold scrubDispatchCleanup
  split
  · exact .refl hs
  next g io hstart =>
  obtain ⟨new, hask, -⟩ := Fanout.ask_spec io C.pendingCap N g member
    (.delete (deriveShardKey C.sha s.scrub.digest s.scrub.identIndex))
  dsimp only
  split
  · exact extra_asked hs ⟨rfl, rfl⟩ hstart hask rfl
  · exact extra_closed hs hstart hask rfl

theorem extra_nextMember (hs : s.io.Sound) : Extra s (scrubNextMember C s) := extra_scrub hs rfl

theorem extra_kick (hs : s.io.Sound) : Extra s (scrubKick C N s) := by
  unfold scrubKick
  split
  · exact .refl hs
  dsimp only
  generalize (if C.members ≤ s.scrub.target then 0 else s.scrub.target) = target
  split
  · exact extra_scrub hs rfl
  next g io hstart =>
  obtain ⟨new, hask, -⟩ := Fanout.ask_spec io C.pendingCap N g (UInt8.ofNat target)
    (.scan s.scrub.cursor (UInt8.ofNat maxScanDigests))
  split
  · exact extra_asked hs ⟨rfl, rfl⟩ hstart hask rfl
  have hclosed := extra_closed hs hstart hask (x := { s.scrub with target := target }) rfl
  exact hclosed.trans (extra_nextMember hclosed.io.sound)

end Invariant

/-! ## What an operation about one join does -/

/-- A join changed no more than its counters. -/
structure EcJoin.Like (j j' : EcJoin) : Prop where
  kind : j'.kind = j.kind
  upCid : j'.upCid = j.upCid
  digest : j'.digest = j.digest
  targets : j'.targets = j.targets
  need : j'.need = j.need

theorem EcJoin.Like.refl (j : EcJoin) : j.Like j := ⟨rfl, rfl, rfl, rfl, rfl⟩

theorem EcJoin.Like.trans {j j' j'' : EcJoin} (h : j.Like j') (h' : j'.Like j'') : j.Like j'' :=
  ⟨h'.kind.trans h.kind, h'.upCid.trans h.upCid, h'.digest.trans h.digest,
    h'.targets.trans h.targets, h'.need.trans h.need⟩

/-- An operation about join `g`: it answers, or opens, a request under the ids
`d` counts, and leaves every other join as it was. -/
structure About (C : EcConfig) (g : ℕ) (d : UInt32 → ℕ) (s s' : EcState) : Prop where
  /-- The joins stay told apart. -/
  wf : s'.Wf C
  /-- Generations only go up. -/
  nextGen : s.io.nextGen ≤ s'.io.nextGen
  /-- Every other join in hand is as it was. -/
  keeps : ∀ g' < s.io.nextGen, g' ≠ g → Same g' s.io s'.io
  /-- Every other new join waits for what it should. -/
  fresh : ∀ g', s.io.nextGen ≤ g' → g' ≠ g → s'.CountsAt C g'
  /-- An assembly another join owns is as it was. -/
  asm : s.asm.busy = true → s.asm.join ≠ g → s'.asm = s.asm
  owed : ∀ c, s'.owed c = s.owed c + d c
  fleet : s'.fleet = s.fleet
  /-- The join, if it is still in hand, changed no more than its counters. -/
  like : g < s.io.nextGen → ∀ j', s'.io.join? g = some j' →
    ∃ j, s.io.join? g = some j ∧ j.Like j'
  /-- A join is opened for a client only by a request. -/
  clients : ∀ g', s.io.nextGen ≤ g' → ∀ j', s'.io.join? g' = some j' →
    j'.kind.client = true → d ≠ 0
  sent : s.io.sent <+: s'.io.sent

section About

variable {C : EcConfig} {N : ℕ → Bool} {s s' s'' : EcState} {g g' : ℕ} {j j' : EcJoin}
  {d : UInt32 → ℕ} {io io' : EcIo} {qs : List (UInt8 × BodyReq)} {cap : ℕ}
  {new : List (Ticket UInt8)} {r : BodyResp}

theorem EcState.Wf.join_lt (hs : s.Wf C) (hb : s.asm.busy = true) : s.asm.join < s.io.nextGen := by
  obtain ⟨j, hj, -⟩ := hs.busy hb
  exact Fanout.join?_lt hs.sound hj

/-- A join not given out yet waits for nothing. -/
theorem EcState.Wf.countsAt_ge (hs : s.Wf C) (hg : s.io.nextGen ≤ g) : s.CountsAt C g :=
  fun _ hj => absurd (Fanout.join?_lt hs.sound hj) (Nat.not_lt.mpr hg)

theorem EcState.Wf.none_ge (hs : s.Wf C) (hg : s.io.nextGen ≤ g) (hj : s.io.join? g = some j) :
    False :=
  Nat.not_lt.mpr hg (Fanout.join?_lt hs.sound hj)

theorem About.refl (hs : s.Wf C) : About C g 0 s s :=
  ⟨hs, Nat.le_refl _, fun g _ _ => .refl g _, fun _ hg _ => hs.countsAt_ge hg, fun _ _ => rfl,
    fun _ => rfl, rfl, fun _ j hj => ⟨j, hj, .refl j⟩,
    fun _ hg _ hj => (hs.none_ge hg hj).elim, List.prefix_rfl⟩

theorem About.trans (h : About C g d s s') (h' : About C g 0 s' s'') : About C g d s s'' where
  wf := h'.wf
  nextGen := Nat.le_trans h.nextGen h'.nextGen
  keeps := fun g' hg hne =>
    (h.keeps g' hg hne).trans (h'.keeps g' (Nat.lt_of_lt_of_le hg h.nextGen) hne)
  fresh := fun g' hg hne => by
    by_cases hlt : g' < s'.io.nextGen
    · refine (h.fresh g' hg hne).of_same (h'.keeps g' hlt hne) fun j hj hgat => ?_
      obtain ⟨hb, hown, -⟩ := h.wf.owner g' j hj hgat
      exact h'.asm hb (hown ▸ hne)
    · exact h'.fresh g' (Nat.le_of_not_lt hlt) hne
  asm := fun hb hne => by
    have heq := h.asm hb hne
    rw [h'.asm (heq ▸ hb) (heq ▸ hne), heq]
  owed := fun c => by rw [h'.owed, h.owed]; rfl
  fleet := h'.fleet.trans h.fleet
  like := fun hg j'' hj'' => by
    obtain ⟨j', hj', hl'⟩ := h'.like (Nat.lt_of_lt_of_le hg h.nextGen) j'' hj''
    obtain ⟨j, hj, hl⟩ := h.like hg j' hj'
    exact ⟨j, hj, hl.trans hl'⟩
  clients := fun g' hg j'' hj'' hc => by
    by_cases hlt : g' < s'.io.nextGen
    · by_cases heq : g' = g
      · obtain ⟨j', hj', hl⟩ := h'.like (heq ▸ hlt) j'' (heq ▸ hj'')
        exact h.clients g (heq ▸ hg) j' hj' (hl.kind ▸ hc)
      · exact h.clients g' hg j'' ((h'.keeps g' hlt heq).1 ▸ hj'') hc
    · exact absurd rfl (h'.clients g' (Nat.le_of_not_lt hlt) j'' hj'' hc)
  sent := h.sent.trans h'.sent

theorem Extra.about (h : Extra s s') (hs : s.Wf C) : About C g 0 s s' where
  wf := h.wf hs
  nextGen := h.io.nextGen
  keeps := fun g' hg _ => h.io.keeps g' hg
  fresh := fun _ hg _ => h.countsAt (hs.countsAt_ge hg)
  asm := fun _ _ => h.asm
  owed := h.owed
  fleet := h.fleet
  like := fun hg j' hj' => ⟨j', (h.io.keeps g hg).1 ▸ hj', .refl j'⟩
  clients := fun g' hg j' hj' hc => by
    rw [(h.io.fresh g' j' hg hj').1] at hc
    cases hc
  sent := h.io.sent

/-- An operation about a join it opened itself is about any other join. -/
theorem About.forget (h : About C g d s s') (hs : s.Wf C) (hg : s.io.nextGen ≤ g)
    (hc : s'.CountsAt C g) (g' : ℕ) : About C g' d s s' where
  wf := h.wf
  nextGen := h.nextGen
  keeps := fun g'' hlt _ => h.keeps g'' hlt (by omega)
  fresh := fun g'' hge _ => by
    by_cases heq : g'' = g
    · exact heq ▸ hc
    · exact h.fresh g'' hge heq
  asm := fun hb _ => h.asm hb (by have := hs.join_lt hb; omega)
  owed := h.owed
  fleet := h.fleet
  like := fun hlt j' hj' => ⟨j', (h.keeps g' hlt (by omega)).1 ▸ hj', .refl j'⟩
  clients := h.clients
  sent := h.sent

/-! ### Changing and closing the join -/

theorem owed_free (hs : s.io.Sound) (hj : s.io.join? g = some j) (hc : j.kind.client = false)
    (c : UInt32) : (s.freeJoin g).owed c = s.owed c := by
  have hcount := Fanout.count_close (p := fun j : EcJoin => j.kind.client && j.upCid == c) hs hj
  simp only [hc, Bool.false_and, Bool.false_eq_true, if_false, Nat.add_zero] at hcount
  exact congrArg (s.answered c + ·) hcount

theorem owed_answer (hs : s.io.Sound) (hj : s.io.join? g = some j) (hc : j.kind.client = true)
    (r : BodyResp) (c : UInt32) : ((s.emit j.upCid r).freeJoin g).owed c = s.owed c := by
  have hcount := Fanout.count_close (p := fun j : EcJoin => j.kind.client && j.upCid == c) hs hj
  simp only [hc, Bool.true_and, beq_iff_eq] at hcount
  have hup : ((s.emit j.upCid r).freeJoin g).answered c
      = s.answered c + if j.upCid = c then 1 else 0 := by
    simp [EcState.answered, EcState.emit, EcState.freeJoin, List.countP_append, List.countP_cons]
  have hwait : ((s.emit j.upCid r).freeJoin g).waiting c + (if j.upCid = c then 1 else 0)
      = s.waiting c := hcount
  rw [EcState.owed, EcState.owed, hup, ← hwait]
  omega

/-- Closing a join that does not gather keeps the others. -/
theorem EcState.Wf.free (hs : s.Wf C) (hj : s.io.join? g = some j)
    (hg : j.kind.gathers = false) : (s.freeJoin g).Wf C := by
  have hne : ∀ g' j', (s.freeJoin g).io.join? g' = some j' → g' ≠ g ∧ s.io.join? g' = some j' := by
    intro g' j' hj'
    have hg' : g' ≠ g := by
      rintro rfl
      rw [show (s.freeJoin g').io.join? g' = none from Fanout.join?_close _ _] at hj'
      cases hj'
    exact ⟨hg', (Fanout.join?_close_ne hg').symm.trans hj'⟩
  refine ⟨hs.sound.close g, fun g' j' hj' => hs.owner g' j' (hne g' j' hj').2, fun hb => ?_, hs.idle,
    hs.ident, fun g' j' hj' => hs.reads g' j' (hne g' j' hj').2⟩
  obtain ⟨j', hj', hgat⟩ := hs.busy hb
  have hg' : s.asm.join ≠ g := by
    intro he
    rw [he, hj] at hj'
    cases hj'
    rw [hg] at hgat
    cases hgat
  exact ⟨j', (Fanout.join?_close_ne hg').trans hj', hgat⟩

theorem about_free (hs : s.Wf C) (hj : s.io.join? g = some j) (hi : j.Inert) :
    About C g 0 s (s.freeJoin g) where
  wf := hs.free hj hi.2
  nextGen := Nat.le_refl _
  keeps := fun _ _ hne => Fanout.same_close hne
  fresh := fun _ hg _ => (hs.free hj hi.2).countsAt_ge hg
  asm := fun _ _ => rfl
  owed := owed_free hs.sound hj hi.1
  fleet := rfl
  like := fun _ j' hj' => by
    rw [show (s.freeJoin g).io.join? g = none from Fanout.join?_close _ _] at hj'
    cases hj'
  clients := fun _ hg _ hj' => ((hs.free hj hi.2).none_ge hg hj').elim
  sent := List.prefix_rfl

theorem EcState.Wf.emit (hs : s.Wf C) (c : UInt32) (r : BodyResp) : (s.emit c r).Wf C :=
  ⟨hs.sound, hs.owner, hs.busy, hs.idle, hs.ident, hs.reads⟩

theorem about_answer (hs : s.Wf C) (hj : s.io.join? g = some j) (hc : j.kind.client = true)
    (hg : j.kind.gathers = false) (r : BodyResp) :
    About C g 0 s ((s.emit j.upCid r).freeJoin g) := by
  have hwf := (hs.emit j.upCid r).free hj hg
  refine ⟨hwf, Nat.le_refl _, fun _ _ hne => Fanout.same_close hne,
    fun _ hge _ => hwf.countsAt_ge hge, fun _ _ => rfl, owed_answer hs.sound hj hc r, rfl,
    fun _ j' hj' => ?_, fun _ hge _ hj' => (hwf.none_ge hge hj').elim, List.prefix_rfl⟩
  rw [show ((s.emit j.upCid r).freeJoin g).io.join? g = none from Fanout.join?_close _ _] at hj'
  cases hj'

/-- The owner of the assembly was closed and the assembly released. -/
theorem about_release (hs : s.Wf C) (hj : s.io.join? g = some j) (hg : j.kind.gathers = true)
    (hio : s'.io = s.io.close g) (hb : s'.asm.busy = false) (hi : s'.asm.internal = false)
    (howed : ∀ c, s'.owed c = s.owed c) (hfleet : s'.fleet = s.fleet)
    (hident : s'.scrub.identIndex = s.scrub.identIndex) : About C g 0 s s' := by
  have hown := hs.owner g j hj hg
  -- nobody else gathers
  have hnone : ∀ g' j', s'.io.join? g' = some j' → j'.kind.gathers = false := by
    intro g' j' hj'
    by_cases heq : g' = g
    · rw [hio, heq, Fanout.join?_close] at hj'
      cases hj'
    · rw [hio, Fanout.join?_close_ne heq] at hj'
      by_contra hgat
      have := (hs.owner g' j' hj' (by simpa using hgat)).2.1
      exact heq (this.symm.trans hown.2.1)
  have hwf : s'.Wf C := by
    refine ⟨hio ▸ hs.sound.close g, fun g' j' hj' hgat => ?_, fun h => ?_, fun _ => hi,
      hident ▸ hs.ident, fun g' j' hj' hk => ?_⟩
    · rw [hnone g' j' hj'] at hgat
      cases hgat
    · rw [hb] at h
      cases h
    · have := hnone g' j' hj'
      rw [hk] at this
      cases this
  have hge : ∀ g', s.io.nextGen ≤ g' → s'.io.nextGen ≤ g' := fun g' h => by rw [hio]; exact h
  refine ⟨hwf, by rw [hio]; exact Nat.le_refl _, fun g' _ hne => hio ▸ Fanout.same_close hne,
    fun g' h _ => hwf.countsAt_ge (hge g' h), fun _ hne => absurd hown.2.1 hne,
    howed, hfleet, fun _ j' hj' => ?_, fun g' h _ hj' => (hwf.none_ge (hge g' h) hj').elim,
    by rw [hio]; exact List.prefix_rfl⟩
  rw [hio, Fanout.join?_close] at hj'
  cases hj'

theorem about_set (hs : s.Wf C) (hj : s.io.join? g = some j) {h : EcJoin → EcJoin}
    (hl : j.Like (h j)) : About C g 0 s (s.setJoin g h) := by
  have hk := hl.kind
  have ht := hl.targets
  have hu := hl.upCid
  have hjoin : ∀ g' j', (s.setJoin g h).io.join? g' = some j' →
      ∃ j₀, s.io.join? g' = some j₀ ∧ j'.kind = j₀.kind ∧ j'.targets = j₀.targets := by
    intro g' j' hj'
    by_cases heq : g' = g
    · rw [heq, show (s.setJoin g h).io.join? g = some (h j) from
        (Fanout.join?_modify _ _ _).trans (by rw [hj]; rfl)] at hj'
      cases hj'
      exact ⟨j, heq ▸ hj, hk, ht⟩
    · exact ⟨j', (Fanout.join?_modify_ne heq).symm.trans hj', rfl, rfl⟩
  have hwf : (s.setJoin g h).Wf C := by
    refine ⟨hs.sound.modify g h, fun g' j' hj' hgat => ?_, fun hb => ?_, hs.idle, hs.ident,
      fun g' j' hj' hkind => ?_⟩
    · obtain ⟨j₀, hj₀, hk', -⟩ := hjoin g' j' hj'
      have := hs.owner g' j₀ hj₀ (hk' ▸ hgat)
      rw [hk']
      exact this
    · obtain ⟨j', hj', hgat⟩ := hs.busy hb
      by_cases heq : s.asm.join = g
      · rw [heq, hj] at hj'
        cases hj'
        exact ⟨h j, by rw [show (s.setJoin g h).asm = s.asm from rfl, heq]
                       exact (Fanout.join?_modify _ _ _).trans (by rw [hj]; rfl), hk ▸ hgat⟩
      · exact ⟨j', (Fanout.join?_modify_ne heq).trans hj', hgat⟩
    · obtain ⟨j₀, hj₀, hk', ht'⟩ := hjoin g' j' hj'
      rw [ht']
      exact hs.reads g' j₀ hj₀ (hk' ▸ hkind)
  refine ⟨hwf, Nat.le_refl _, fun g' _ hne => Fanout.same_modify hne, fun _ hg _ => hwf.countsAt_ge hg,
    fun _ _ => rfl, fun c => ?_, rfl, fun _ j' hj' => ?_, fun _ hg _ hj' => (hwf.none_ge hg hj').elim,
    List.prefix_rfl⟩
  swap
  · rw [show (s.setJoin g h).io.join? g = some (h j) from
      (Fanout.join?_modify _ _ _).trans (by rw [hj]; rfl)] at hj'
    cases hj'
    exact ⟨j, hj, hl⟩
  have hcount := Fanout.count_modify (p := fun j : EcJoin => j.kind.client && j.upCid == c)
    (h := h) hs.sound hj
  rw [hk, hu] at hcount
  exact congrArg (s.answered c + ·) (Nat.add_right_cancel hcount)

theorem join?_setJoin (hj : s.io.join? g = some j) (h : EcJoin → EcJoin) :
    (s.setJoin g h).io.join? g = some (h j) :=
  (Fanout.join?_modify _ _ _).trans (by rw [hj]; rfl)

/-- A question was asked for a join that reads no shards. -/
theorem about_asks (hs : s.Wf C) (hj : s.io.join? g = some j) (hk : j.kind ≠ .get)
    (ha : Asks cap g qs s.io io' new) : About C g 0 s { s with io := io' } := by
  have hwf : EcState.Wf C { s with io := io' } := by
    refine ⟨ha.sound hs.sound (Fanout.join?_lt hs.sound hj), fun g' j' hj' => ?_, fun hb => ?_, hs.idle,
      hs.ident, fun g' j' hj' hk' => ?_⟩
    · exact hs.owner g' j' ((ha.join? g').symm.trans hj')
    · obtain ⟨j', hj', hg⟩ := hs.busy hb
      exact ⟨j', (ha.join? _).trans hj', hg⟩
    · have hj' := (ha.join? g').symm.trans hj'
      have hne : g' ≠ g := by
        rintro rfl
        rw [hj] at hj'
        cases hj'
        exact hk hk'
      rw [show EcState.io { s with io := io' } = io' from rfl, (ha.same hne).2]
      exact hs.reads g' j' hj' hk'
  have hge : ∀ g', s.io.nextGen ≤ g' → io'.nextGen ≤ g' := fun g' hg => ha.nextGen ▸ hg
  exact ⟨hwf, Nat.le_of_eq ha.nextGen.symm, fun g' _ hne => ha.same hne,
    fun g' hg _ => hwf.countsAt_ge (hge g' hg), fun _ _ => rfl,
    fun c => congrArg (s.answered c + ·) ha.count, rfl,
    fun _ j' hj' => ⟨j', (ha.join? g).symm.trans hj', .refl j'⟩,
    fun g' hg _ hj' => (hwf.none_ge (hge g' hg) hj').elim, ha.sent⟩

/-- One request, under an id. -/
def single (c : UInt32) (c' : UInt32) : ℕ := if c = c' then 1 else 0

theorem about_emit (hs : s.Wf C) (c : UInt32) (r : BodyResp) :
    About C g (single c) s (s.emit c r) where
  wf := hs.emit c r
  nextGen := Nat.le_refl _
  keeps := fun g' _ _ => .refl g' _
  fresh := fun _ hge _ => (hs.emit c r).countsAt_ge hge
  asm := fun _ _ => rfl
  owed := fun c' => by
    have hup : (s.emit c r).answered c' = s.answered c' + single c c' := by
      simp [EcState.answered, EcState.emit, List.countP_append, List.countP_cons, single]
    rw [EcState.owed, hup, Nat.add_right_comm]
    rfl
  fleet := rfl
  like := fun _ j hj => ⟨j, hj, .refl j⟩
  clients := fun _ hge _ hj => ((hs.emit c r).none_ge hge hj).elim
  sent := List.prefix_rfl

/-- A join that was opened waits for what it should. -/
theorem countsAt_of_opens (ho : Fanout.Opens g j new s.io s'.io)
    (hc : j.Counts C new.length (s'.asm.gathered C)) : s'.CountsAt C g := by
  intro j' hj'
  rw [ho.join] at hj'
  cases hj'
  rw [ho.tickets]
  exact hc

theorem countsAt_of_closed (h : s.io.join? g = none) : s.CountsAt C g := by
  intro j hj
  rw [h] at hj
  cases hj

variable (s') in
/-- **A join was opened**, and the assembly taken if it gathers. -/
theorem about_opened (hs : s.Wf C) (ho : Fanout.Opens g j new s.io s'.io)
    (hasm : j.kind.gathers = false ∧ s'.asm = s.asm ∨ j.kind.gathers = true ∧ s.asm.busy = false
      ∧ s'.asm.busy = true ∧ s'.asm.join = g ∧ s'.asm.internal = decide (j.kind = .scrubFetch))
    (hread : j.kind = .get → j.targets.length = C.k + C.m ∧ (new.map Ticket.peer).Nodup
      ∧ ∀ i, s'.asm.shards i = none)
    (hup : s'.up = s.up) (hfleet : s'.fleet = s.fleet)
    (hident : s'.scrub.identIndex = s.scrub.identIndex) :
    About C g (fun c => if j.kind.client && j.upCid == c then 1 else 0) s s' := by
  -- where the assembly was busy, it is as it was and the new join does not gather
  have hbusy : s.asm.busy = true → j.kind.gathers = false ∧ s'.asm = s.asm := by
    intro hb
    rcases hasm with h | ⟨-, hidle, -⟩
    · exact h
    rw [hb] at hidle
    cases hidle
  have hold : ∀ g' j', s'.io.join? g' = some j' → g' ≠ g →
      s.io.join? g' = some j' ∧ s'.io.tickets g' = s.io.tickets g' := fun g' j' hj' hne =>
    ⟨(ho.keeps g' hne).1 ▸ hj', (ho.keeps g' hne).2⟩
  have hwf : s'.Wf C := by
    refine ⟨ho.sound, fun g' j' hj' hgat => ?_, fun hb => ?_, fun hb => ?_, hident ▸ hs.ident,
      fun g' j' hj' hk => ?_⟩
    · by_cases heq : g' = g
      · rw [heq, ho.join] at hj'
        cases hj'
        rcases hasm with ⟨h, -⟩ | ⟨-, -, h⟩
        · rw [hgat] at h
          cases h
        · exact heq ▸ h
      · have hj := (hold g' j' hj' heq).1
        have hown := hs.owner g' j' hj hgat
        rw [(hbusy hown.1).2]
        exact hown
    · rcases hasm with ⟨-, he⟩ | ⟨h, -, -, hown, -⟩
      · rw [he] at hb ⊢
        obtain ⟨j', hj', hgat⟩ := hs.busy hb
        have hne : s.asm.join ≠ g := by
          have := Fanout.join?_lt hs.sound hj'
          have := ho.gen
          omega
        exact ⟨j', (ho.keeps _ hne).1.trans hj', hgat⟩
      · exact ⟨j, hown ▸ ho.join, h⟩
    · rcases hasm with ⟨-, he⟩ | ⟨-, -, h, -⟩
      · rw [he] at hb ⊢
        exact hs.idle hb
      · rw [hb] at h
        cases h
    · by_cases heq : g' = g
      · rw [heq, ho.join] at hj'
        cases hj'
        obtain ⟨hlen, hnodup, hnone⟩ := hread hk
        rw [heq, ho.tickets]
        exact ⟨hlen, hnodup, fun _ _ i _ => hnone i⟩
      · obtain ⟨hj, ht⟩ := hold g' j' hj' heq
        rw [ht, (hbusy (hs.owner g' j' hj (by rw [hk]; rfl)).1).2]
        exact hs.reads g' j' hj hk
  refine ⟨hwf, by rw [ho.nextGen]; exact Nat.le_succ _, fun g' _ hne => ho.keeps g' hne,
    fun g' hge hne => hwf.countsAt_ge ?_, fun hb _ => (hbusy hb).2, fun c => ?_, hfleet,
    fun hlt => absurd ho.gen (Nat.ne_of_lt hlt), fun g' hge j' hj' hc hd => ?_, ho.sent⟩
  · rw [ho.nextGen]
    have := ho.gen
    omega
  · rw [EcState.owed, EcState.owed, EcState.answered, EcState.waiting, hup, ho.count, ← Nat.add_assoc]
    rfl
  · -- the one join opened
    have heq : g' = g := by
      have := Fanout.join?_lt ho.sound hj'
      rw [ho.nextGen] at this
      have := ho.gen
      omega
    rw [heq, ho.join] at hj'
    cases hj'
    have := congrFun hd j.upCid
    simp [hc] at this

end About

end Loam

import Loam.BlockTruth
import Loam.BlockFrames

/-!
# What a flush means

A root that landed maps the image as it was when the commit's content was
fixed, and a request that is told a revision has what came before it in a root
bound at that revision. A commit that fails lands nothing, so nothing is told
of it. An extent in two slots breaks this as it breaks reads: both are put, and
the root has the digest of the one that is looked at last.
-/

namespace Loam

open CellStore

namespace BlockVolume

/-- **What a flush means**, of the roots that landed and of what was told. -/
structure FlushMeans (body : Digest → Bytes) (s : BlockVolume) : Prop where
  /-- A root that landed maps the writes staged before its content was
  fixed, and no others. -/
  landed : ∀ c ∈ s.hist.landed, c.covers ≤ s.hist.writes.length ∧ s.MapsTo body c.root c.covers
  /-- The committed view is the root that landed last. -/
  bound : s.phase = .ready → (∃ n cs, s.hist.landed = ⟨s.revision, s.rootDigest, n⟩ :: cs) ∧
    ∀ pos < s.sizeBytes, mapImage body s.rootDigest pos = s.committedImage body pos
  /-- A request told of a revision has every write staged before it was made,
  and its own, in a root bound at that revision. -/
  fence : ∀ a ∈ s.hist.answers, ∀ r, a.cpl.fence = some (.revision r) →
    ∃ c ∈ s.hist.landed, c.revision = r ∧ ∃ m, a.since ≤ m ∧ m ≤ s.hist.writes.length ∧
      (a.req.op = .write → s.WroteIn a.req a.since m) ∧ s.MapsTo body c.root m
  /-- A flush, and a write that asked to be durable, are told of one. -/
  sync : ∀ a ∈ s.hist.answers, a.cpl.status = none →
    a.req.op = .flush ∨ a.req.op = .write ∧ a.req.fua = true → ∃ r, a.cpl.fence = some (.revision r)
  /-- What asked for what came before it to be durable first has it in a root
  that landed. -/
  preflush : ∀ a ∈ s.hist.answers, a.cpl.status = none → a.req.preflush = true →
    a.req.op ≠ .unknown → s.Covered body a.since

/-- A root lands when the device is opened, and when the node answers that the
bind landed. -/
def LandsBy (s s' : BlockVolume) (e : VolEvent) : Prop :=
  s'.hist.landed = s.hist.landed ∨
    s.hist.landed = [] ∧ s'.hist.landed = [⟨s.revision, s.rootDigest, 0⟩] ∨
    ∃ t r, e = .ack t (.volume .ok r) ∧ s.job = .commit ∧
      s'.hist.landed = ⟨r, s.newRoot, s.commitCovers⟩ :: s.hist.landed

section

variable {body : Digest → Bytes} {N : ℕ} {s s' : BlockVolume} {t : ℕ}
  {admits : BlockCaps → BlockReq → Bool} {sha : Bytes → Digest}

theorem Inv.flushMeans (h : s.Inv body N) : s.FlushMeans body where
  landed := h.ledger.landed
  bound := fun hr => ⟨(h.live hr).gens.head, (h.live hr).map.root⟩
  fence := fun a ha => (h.ledger.answers a ha).fence
  sync := fun a ha => (h.ledger.answers a ha).sync
  preflush := fun a ha => (h.ledger.answers a ha).preflush

/-- A device whose root is being read has landed nothing. -/
theorem Inv.landed_of_root (h : s.Inv body N) (hf : s.phase ≠ .failed) (hj : s.job = .root) :
    s.hist.landed = [] := by
  have hr : s.phase ≠ .ready := fun hr => by
    have hfits := (h.live hr).job
    unfold JobFits at hfits
    rw [hj] at hfits
    exact hfits
  rw [(h.closed hr hf).hist]

theorem giveUp_landed (s : BlockVolume) : s.giveUp.hist.landed = s.hist.landed := by
  unfold giveUp
  exact (failWaiters_keeps _).1

theorem turnAway_landed (s : BlockVolume) : s.turnAway.hist.landed = s.hist.landed := by
  unfold turnAway
  split
  · rfl
  · rfl

/-- An answer lands a root, or none. -/
theorem Inv.landsBy_ack {a : AdminAck} (h : s.Inv body N) (hp : s.phase ≠ .failed) :
    LandsBy s (s.onAck N sha t a) (.ack t a) := by
  obtain hk | ⟨-, _, _, heq⟩ | ⟨root, hj, heq⟩ | ⟨heq, -⟩ | ⟨r, rfl, hj, heq⟩ | ⟨-, heq⟩ :=
    onAck_cases (N := N) (t := t) sha hp a
  · exact .inl hk.landed
  · refine .inl ?_
    rw [heq]
    exact congrArg _ (onLookup_frame (s := s.acked) hp _ _).1
  · refine .inr (.inl ⟨h.landed_of_root hp hj, ?_⟩)
    rw [heq]
    rfl
  · refine .inl ?_
    rw [heq]
    exact giveUp_landed _
  · refine .inr (.inr ⟨t, r, rfl, hj, ?_⟩)
    rw [heq]
    exact (applyCommit_frame _ r).1
  · refine .inl ?_
    rw [heq]
    rfl

theorem Inv.landed_serve {i : ℕ} (h : s.Inv body N) (hp : s.phase = .ready ∨ s.phase = .failed)
    (hrace : StepRaceFree admits N s (.serve i)) : (s.serve N i).hist.landed = s.hist.landed := by
  obtain hr | hf := hp
  · cases hi : s.pending i with
    | none =>
      unfold serve
      rw [hi]
    | some p => exact ((h.sound hr).serve_keeps hi (hrace hr p hi)).landed
  · exact congrArg (·.2.1) (serve_of_failed hf).2.1

/-- **A root lands by the node's answer**, or as the device is opened. -/
theorem Inv.landsBy {e : VolEvent} (hadm : AdmitsInDevice admits) (h : s.Inv body N)
    (hrace : StepRaceFree admits N s e) : LandsBy s (s.step admits sha N e) e := by
  have htick : LandsBy s (if s.reportsDrained then s else s.tick sha N e) e := by
    split
    · exact .inl rfl
    by_cases hack : ∃ t a, e = .ack t a
    · obtain ⟨t, a, rfl⟩ := hack
      unfold BlockVolume.tick
      dsimp only
      split
      next haw => exact h.landsBy_ack haw.1.1
      · exact .inl rfl
    by_cases hsched : ∃ t, e = .schedule t
    · obtain ⟨t, rfl⟩ := hsched
      unfold BlockVolume.tick
      dsimp only
      split
      · obtain hk | ⟨-, -, -, -, -, heq⟩ | ⟨-, -, hk⟩ := schedule_cases (N := N) s t
        · exact .inl hk.landed
        · rw [heq]
          exact .inl rfl
        · exact .inl hk.landed
      · exact .inl rfl
    by_cases hserve : ∃ i, e = .serve i
    · obtain ⟨i, rfl⟩ := hserve
      unfold BlockVolume.tick
      dsimp only
      split
      next hq => exact .inl (h.landed_serve hq.2 hrace)
      · exact .inl rfl
    · exact .inl (tick_keeps sha (fun t a he => hack ⟨t, a, he⟩) (fun t he => hsched ⟨t, he⟩)
        fun i he => hserve ⟨i, he⟩).landed
  unfold BlockVolume.step
  split
  · split
    next ha =>
      have hs := h.sound ha.2.1
      exact .inl (hs.exec_keeps (hs.1.geo.inDevice hadm ha.2.2) (hrace ha)).landed
    · exact .inl (turnAway_landed s)
  · split
    next ha =>
      have hs := h.sound ha.2.1
      exact .inl (hs.submit_keeps (hs.1.geo.inDevice hadm ha.2.2) (hrace ha)).landed
    · exact .inl (turnAway_landed s)
  · exact .inl rfl
  · exact .inl rfl
  · exact .inl (tick_keeps (e := .openCheck) sha nofun nofun nofun).landed
  · exact htick

end

/-- **A flush means what it says**, in every run in which no whole extent is
staged while its fetch is outstanding, and the next event lands a root by the
node's answer only. -/
theorem flush_tells_truth {body : Digest → Bytes} {sha : Bytes → Digest}
    {admits : BlockCaps → BlockReq → Bool} (hadm : AdmitsInDevice admits) {N : ℕ}
    (seeded paramsGood : Bool) (blockSize ttlMs : ℕ) (expectFence : UInt64) {es : List VolEvent}
    (hall : Run.AllSteps (step admits sha N)
      (fun s e => StepTrue body sha s e ∧ StepRaceFree admits N s e)
      (new seeded paramsGood blockSize ttlMs expectFence) es) :
    (Run.run (step admits sha N) (new seeded paramsGood blockSize ttlMs expectFence) es).FlushMeans
        body ∧
      ∀ e, StepRaceFree admits N
          (Run.run (step admits sha N) (new seeded paramsGood blockSize ttlMs expectFence) es) e →
        LandsBy (Run.run (step admits sha N) (new seeded paramsGood blockSize ttlMs expectFence) es)
          ((Run.run (step admits sha N) (new seeded paramsGood blockSize ttlMs expectFence) es).step
            admits sha N e) e := by
  have hinv : (Run.run (step admits sha N) (new seeded paramsGood blockSize ttlMs expectFence) es).Inv
      body N := (new_inv seeded paramsGood blockSize ttlMs expectFence).run hadm hall
  exact ⟨hinv.flushMeans, fun e he => hinv.landsBy hadm he⟩

/-- Both slots of a split extent are staged and put: the root has the digest
of the older write. -/
def lateFlush : List VolEvent :=
  lateFetch ++ [.exec (writeAll 5), .exec flushAll] ++ stepEvents 0 [] ++
    stepEvents 0 [.ack 0 (.volume .ok 0)] ++
    stepEvents 0 [.sendBody, .sendBody, .sendBody, .sendBody, .sendBody,
      .bodyAck 0 0 (.put .ok (some (digestOf 5))), .bodyAck 0 0 (.put .ok (some (digestOf 9))),
      .bodiesEnd 0] ++
    stepEvents 0 [.ack 0 (.put .ok (some (digestOf 7)))] ++ stepEvents 0 [.ack 0 (.volume .ok 5)] ++
    [.exec flushAll]

/-- A commit of one slot, and a flush told of it. -/
def plainFlush : List VolEvent :=
  fetchFirst ++ [.exec flushAll] ++ stepEvents 0 [] ++ stepEvents 0 [.ack 0 (.volume .ok 0)] ++
    stepEvents 0 [.sendBody, .sendBody, .sendBody, .bodyAck 0 0 (.put .ok (some (digestOf 9))),
      .bodiesEnd 0] ++
    stepEvents 0 [.ack 0 (.put .ok (some (digestOf 7)))] ++ stepEvents 0 [.ack 0 (.volume .ok 5)] ++
    [.exec flushAll]

/-- A split extent breaks a flush: it is told of a revision whose root maps
what an older write left. -/
theorem late_fetch_breaks_flush :
    Run.AllSteps (step insideCaps digestFor 8) (StepTrue bodyOf digestFor) smallDevice lateFlush ∧
      ¬ (Run.run (step insideCaps digestFor 8) smallDevice lateFlush).FlushMeans bodyOf := by
  refine ⟨by decide +kernel, fun h => ?_⟩
  -- the root bound at revision 5 is to map both writes
  have hmap := (h.landed _ (List.head_mem (by decide +kernel))).2 0 (by decide +kernel)
  exact absurd hmap (by decide +kernel)

theorem flush_means_plainFlush :
    (Run.run (step insideCaps digestFor 8) smallDevice plainFlush).FlushMeans bodyOf ∧
      (Run.run (step insideCaps digestFor 8) smallDevice plainFlush).hist.landed.map
        (fun c => (c.revision, c.covers, mapImage bodyOf c.root 0)) = [(5, 1, 9), (4, 0, 3)] :=
  ⟨(flush_tells_truth admitsInDevice_insideCaps true true 512 30000 0 (by decide +kernel)).1,
    by decide +kernel⟩

end BlockVolume

end Loam

import Loam.BlockFlush

/-!
# A drain

A drain asks for a flush, and when the flush is decided and nothing is queued
the lease goes back. The flush is decided when nothing asks for one any more,
which a commit that lands says of what was staged before it, and one that is
abandoned of nothing: so a write that was queued while a commit ran, and one
that an abandoned commit leaves staged, go with the lease.
-/

namespace Loam

namespace BlockVolume

/-- An answer is none that an open device goes on with. -/
def AckEnds (sha : Bytes → Digest) (N : ℕ) (s : BlockVolume) (a : AdminAck) : Prop :=
  a = .foreign ∨
    match s.job with
    | .renew =>
      match a with
      | .lease status fence => status ≠ .busy ∧ (status = .ok → fence ≠ s.leaseFence)
      | _ => True
    | .leaf => ∀ page ∈ gotBody a, ∀ digest ∈ s.child? s.jobChild, ∀ leaf ∈ decodeLeaf page,
      ¬ (s.jobSlot < 2 ∧ sha page = digest ∧
        leafFits leaf s.jobChild s.sizeBytes s.extentSize = true)
    | .extent => ∀ b ∈ gotBody a,
      ¬ (s.jobSlot < N ∧ (s.slots s.jobSlot).state = .fetching ∧
        b.length ≤ s.extentLen (s.slots s.jobSlot).idx ∧ sha b = (s.slots s.jobSlot).digest)
    | .begin =>
      match a with
      | .volume status _ => status = .leaseLost
      | _ => True
    | .commit =>
      match a with
      | .volume status _ => status ≠ .ok
      | _ => True
    | .abort =>
      match a with
      | .volume .. => False
      | _ => True
    | .putLeaf | .putRoot | .release => False
    | _ => True

/-- An event ends an open device: the plane's connection fails, an answer is
late or none it goes on with, or the lease runs out. -/
def Ends (sha : Bytes → Digest) (N : ℕ) (s : BlockVolume) : VolEvent → Prop
  | .adminFailed _ => True
  | .ack _ a => s.awaits ∧ s.ioSent = true ∧ s.AckEnds sha N a
  | .timeout t => s.awaits ∧ ackTimeoutMs < t - s.jobAt
  | .bodyAck _ k _ => s.sending ∧ s.pipe.length ≤ k
  | .bodiesEnd t => s.sending ∧ ackTimeoutMs < t - s.jobAt ∧
    ¬ ((s.pipeRefused = true ∨ s.ioSent = true ∧ s.bodyAhead N = false) ∧ s.pipe = [])
  | .guard t => s.leaseAt + s.ttlMs - s.ttlMs / 4 ≤ t
  | _ => False

/-- While the device drains no commit is abandoned, and no write stages an
extent that nothing is going to flush; and as the drain begins, a device that
ended with an extent staged has said so. -/
def FlushStays (N : ℕ) (s : BlockVolume) : VolEvent → Prop
  | .ack t a => s.draining = true → ¬ s.Abandons t a
  | .serve i => s.draining = true → s.phase = .ready → s.flushWanted = false → ∀ p ∈ s.pending i,
      s.RunsWrite p → s.writeFits N p.req → 0 < s.newStaged N p.req →
        p.req.fua = true ∧ s.refused = false
  | .drain => s.phase = .failed → s.lost = true → s.told = true
  | _ => True

/-- While the device drains its flush stays wanted until it lands, and the
device does not end with an extent staged. -/
def StepDrains (sha : Bytes → Digest) (N : ℕ) (s : BlockVolume) (e : VolEvent) : Prop :=
  s.FlushStays N e ∧ (s.draining = true → s.phase = .ready → 0 < s.staged → ¬ s.Ends sha N e)

instance : (a : AdminAck) → Decidable (a = .foreign)
  | .foreign => isTrue rfl
  | .lease .. | .lookup .. | .body .. | .put .. | .volume .. | .garbled => isFalse nofun

instance (sha : Bytes → Digest) (N : ℕ) (s : BlockVolume) (a : AdminAck) :
    Decidable (s.AckEnds sha N a) := by
  refine @instDecidableOr _ _ inferInstance ?_
  exact match s.job with
    | .renew | .begin | .commit | .abort =>
      match a with
      | .lease .. | .lookup .. | .body .. | .put .. | .volume .. | .garbled | .foreign =>
        inferInstance
    | .leaf | .extent | .putLeaf | .putRoot | .release | .none | .acquire | .lookup | .root
    | .putBodies => inferInstance

instance (sha : Bytes → Digest) (N : ℕ) (s : BlockVolume) :
    (e : VolEvent) → Decidable (s.Ends sha N e)
  | .ack .. | .timeout _ | .bodyAck .. | .bodiesEnd _ | .guard _ => by
    unfold Ends; infer_instance
  | .adminFailed _ => .isTrue trivial
  | .openCheck | .hand | .sendBody | .serve _ | .schedule _ | .exec _ | .submit _ | .reap
  | .drain => .isFalse id

instance (N : ℕ) (s : BlockVolume) : (e : VolEvent) → Decidable (s.FlushStays N e)
  | .ack .. | .serve _ | .drain => by unfold FlushStays; infer_instance
  | .openCheck | .adminFailed _ | .hand | .timeout _ | .sendBody | .bodyAck .. | .bodiesEnd _
  | .guard _ | .schedule _ | .exec _ | .submit _ | .reap => .isTrue trivial

instance (sha : Bytes → Digest) (N : ℕ) (s : BlockVolume) (e : VolEvent) :
    Decidable (s.StepDrains sha N e) := by
  unfold StepDrains
  infer_instance

/-- Nothing is staged, and the bound root maps every write. -/
def Flushed (body : Digest → Bytes) (N : ℕ) (s : BlockVolume) : Prop :=
  (∀ i < N, (s.slots i).state ≠ .staged) ∧
    (s.hist.writes = [] ∨
      (∃ n cs, s.hist.landed = ⟨s.revision, s.rootDigest, n⟩ :: cs) ∧
        s.MapsTo body s.rootDigest s.hist.writes.length)

/-- **A drain loses nothing**: as the module says it is done, or gives its
lease back, it has failed and said so, or nothing is staged and the bound root
maps every write. -/
def DrainsClean (body : Digest → Bytes) (N : ℕ) (s : BlockVolume) : Prop :=
  s.reportsDrained ∨ s.job = .release →
    s.phase = .failed ∧ s.told = true ∨ s.Flushed body N

/-- What a device that drains keeps. -/
structure DrainInv (body : Digest → Bytes) (N : ℕ) (s : BlockVolume) : Prop where
  /-- What is staged is being committed, or is going to be. -/
  wanted : s.phase = .ready → s.draining = true → 0 < s.staged →
    s.flushWanted = true ∨ s.commit ≠ .idle
  drains : s.job = .release ∨ s.drained = true → s.draining = true
  /-- As the lease goes back nothing is staged, and nothing is queued. -/
  released : s.phase ≠ .failed → s.job = .release ∨ s.drained = true →
    s.staged = 0 ∧ ∀ i < queueDepth, s.pending i = none
  kept : s.phase = .failed → s.lost = false → s.Flushed body N
  said : s.phase = .failed → s.draining = true → s.lost = true → s.told = true

section

variable {body : Digest → Bytes} {N : ℕ} {s s' : BlockVolume} {t i : ℕ}
  {admits : BlockCaps → BlockReq → Bool} {sha : Bytes → Digest}

theorem Inv.staged_of_not_ready (h : s.Inv body N) (hr : s.phase ≠ .ready) (hf : s.phase ≠ .failed) :
    s.staged = 0 :=
  (h.closed hr hf).staged

/-- A device that is up with nothing staged has every write in its map. -/
theorem Inv.flushed (hi : s.Inv body N) (hf : s.phase ≠ .failed) (hstaged : s.staged = 0) :
    s.Flushed body N := by
  by_cases hr : s.phase = .ready
  swap
  · -- it was never opened
    have hc := hi.closed hr hf
    refine ⟨fun i _ hs => ?_, .inl ?_⟩
    · exact absurd ((hc.slots i).1.symm.trans hs) nofun
    · rw [hc.hist]
  · have hlive := hi.live hr
    have hnone : ∀ i < N, (s.slots i).state ≠ .staged := by
      intro i hiN hs
      have hcount := hlive.slots.count
      rw [hstaged] at hcount
      have := List.countP_eq_zero.mp hcount.symm i (List.mem_range.mpr hiN)
      rw [beq_iff_eq] at this
      exact this hs
    refine ⟨hnone, .inr ⟨hlive.gens.head, fun pos hpos => ?_⟩⟩
    obtain ⟨hx, hj, hdm⟩ := hlive.geo.position hpos
    have hbare := hlive.slots.bare _ hx (fun i hiN hs => absurd hs (hnone i hiN)) _ hj
    rw [hdm] at hbare
    exact (hlive.map.root pos hpos).trans hbare

/-- A device that has failed stages nothing, and its map is what it was. -/
theorem Flushed.of_seen (h : s.Flushed body N) (hk : Seen s s') (hd : s'.Dead) :
    s'.Flushed body N := by
  refine ⟨fun i _ hs => absurd ((hd.slots i).symm.trans hs) nofun, ?_⟩
  obtain ⟨_, _, _, _, _, _, _, _, _, _, _, ⟨_, _, _⟩⟩ := s
  obtain ⟨_, _, _, _, _, _, _, _, _, _, _, ⟨_, _, _⟩⟩ := s'
  cases hk
  exact h.2

/-- **What a drain keeps, as the module says it is done.** -/
theorem DrainInv.clean (h : s.DrainInv body N) (hi : s.Inv body N) : s.DrainsClean body N := by
  intro hd
  by_cases hf : s.phase = .failed
  · cases hl : s.lost with
    | false => exact .inr (h.kept hf hl)
    | true =>
      refine .inl ⟨hf, h.said hf ?_ hl⟩
      obtain (hd | hd) | hd := hd
      · exact h.drains (.inr hd)
      · exact hd.1
      · exact h.drains (.inl hd)
  refine .inr (hi.flushed hf ?_)
  obtain (hd | ⟨-, hr, -⟩) | hd := hd
  · exact (h.released hf (.inr hd)).1
  · exact hi.staged_of_not_ready hr hf
  · exact (h.released hf (.inl hd)).1

/-- An exchange that ends no commit keeps it, when a device that drains does not
end with an extent staged. -/
theorem DrainInv.of_keeps (h : s.DrainInv body N) (hi : s.Inv body N) (hk : Keeps s s')
    (hi' : s'.Inv body N)
    (hgo : s.draining = true → s.phase = .ready → 0 < s.staged → s'.phase ≠ .failed) :
    s'.DrainInv body N := by
  refine ⟨fun hr hd hn => ?_, fun hrel => ?_, fun hf hrel => ?_, fun hf hl => ?_, fun hf hd hl => ?_⟩
  · have hf' : s'.phase ≠ .failed := fun hf => absurd (hr.symm.trans hf) nofun
    obtain ⟨hst, -, hfl, hc⟩ := hk.going hf'
    have hf : s.phase ≠ .failed := fun hf => hf' (hk.failed hf)
    rw [hst] at hn
    by_cases hready : s.phase = .ready
    · obtain hw | hw := h.wanted hready (hk.draining ▸ hd) hn
      · exact .inl (hfl hw)
      · exact .inr (hc hw)
    · rw [hi.staged_of_not_ready hready hf] at hn
      exact absurd hn (Nat.lt_irrefl 0)
  · exact hk.draining.trans (h.drains (hrel.imp hk.job fun hd => hk.drained ▸ hd))
  · obtain ⟨hst, hp, -, -⟩ := hk.going hf
    obtain ⟨h2, h3⟩ := h.released (fun hf' => hf (hk.failed hf'))
      (hrel.imp hk.job fun hd => hk.drained ▸ hd)
    exact ⟨hst.trans h2, by rw [hp]; exact h3⟩
  · have hlost := hk.lost hf
    rw [hl] at hlost
    refine Flushed.of_seen ?_ hk.sees (hi'.dead hf)
    by_cases hsf : s.phase = .failed
    · rw [if_pos hsf] at hlost
      exact h.kept hsf hlost.symm
    · rw [if_neg hsf] at hlost
      exact hi.flushed hsf (Nat.eq_zero_of_not_pos (of_decide_eq_false hlost.symm))
  · have hlost := hk.lost hf
    have hd' : s.draining = true := hk.draining ▸ hd
    rw [hl] at hlost
    by_cases hsf : s.phase = .failed
    · rw [if_pos hsf] at hlost
      exact hk.told.trans (h.said hsf hd' hlost.symm)
    rw [if_neg hsf] at hlost
    have hpos := of_decide_eq_true hlost.symm
    by_cases hr : s.phase = .ready
    · exact absurd hf (hgo hd' hr hpos)
    rw [hi.staged_of_not_ready hr hsf] at hpos
    exact absurd hpos (Nat.lt_irrefl 0)

/-- Nothing is staged, and no lease goes back. -/
theorem DrainInv.of_none (hf : s.phase ≠ .failed) (hn : s.staged = 0) (hj : s.job ≠ .release)
    (hd : s.drained = false) : s.DrainInv body N := by
  have hnot : ¬ (s.job = .release ∨ s.drained = true) := by simp [hj, hd]
  exact ⟨fun _ _ h => absurd hn (Nat.ne_of_gt h), fun h => absurd h hnot, fun _ h => absurd h hnot,
    fun h => absurd h hf, fun h => absurd h hf⟩

theorem DrainInv.of_not_draining (hf : s.phase ≠ .failed) (hn : s.draining = false)
    (hj : s.job ≠ .release) (hd : s.drained = false) : s.DrainInv body N := by
  have hnot : ¬ (s.job = .release ∨ s.drained = true) := by simp [hj, hd]
  refine ⟨fun _ h => ?_, fun h => absurd h hnot, fun _ h => absurd h hnot, fun h => absurd h hf,
    fun h => absurd h hf⟩
  rw [hn] at h
  cases h

/-- An answer that an open device goes on with does not end it. -/
theorem Inv.onAck_going {a : AdminAck} (hi : s.Inv body N) (hr : s.phase = .ready)
    (haw : s.awaits) (he : ¬ s.AckEnds sha N a) : (s.onAck N sha t a).phase ≠ .failed := by
  have hready {u : BlockVolume} (h : u.phase = s.phase) : u.phase ≠ .failed := fun hf =>
    absurd (hr.symm.trans (h.symm.trans hf)) nofun
  have hfits := (hi.live hr).job
  unfold JobFits at hfits
  have hgive : s.acked.giveUp.phase ≠ .failed := by
    unfold giveUp
    exact hready (failWaiters_keeps _).2.2.2
  obtain ⟨hfor, he⟩ := not_or.mp he
  unfold BlockVolume.onAck
  split
  · exact absurd rfl hfor
  dsimp only
  cases hj : s.job with
  | none => exact absurd hj haw.2.1
  | putBodies => exact absurd hj haw.2.2
  | acquire | lookup | root =>
    rw [hj] at hfits
    exact hfits.elim
  | renew =>
    rw [hj] at he
    cases a with
    | lease status fence =>
      change (s.acked.onLease t .renew status fence).phase ≠ .failed
      unfold onLease
      cases status with
      | ok =>
        have hfence : fence = s.leaseFence := by simpa using he
        dsimp only
        rw [if_pos (show fence = s.acked.leaseFence from hfence)]
        exact hready rfl
      | busy => exact hready rfl
      | _ => exact absurd ⟨nofun, nofun⟩ he
    | _ => exact absurd trivial he
  | leaf =>
    rw [hj] at he
    dsimp only at he
    push Not at he
    obtain ⟨page, hpage, digest, hdig, leaf, hleaf, hslot, hsha, hok⟩ := he
    change (s.acked.onLeaf sha (gotBody a)).phase ≠ .failed
    unfold onLeaf
    rw [hpage, show s.acked.child? s.acked.jobChild = some digest from hdig]
    dsimp only
    rw [if_neg fun h => h.elim (Nat.not_le.mpr hslot) fun h => h hsha, hleaf]
    dsimp only
    rw [if_pos (show leafFits leaf s.acked.jobChild s.acked.sizeBytes s.acked.extentSize = true from hok)]
    exact hready rfl
  | extent =>
    rw [hj] at he
    dsimp only at he
    push Not at he
    obtain ⟨b, hb, hslot, hfetch, hlen, hsha⟩ := he
    change (s.acked.onExtent N sha (gotBody a)).phase ≠ .failed
    unfold onExtent
    rw [hb]
    dsimp only
    rw [if_neg fun h => h.elim (Nat.not_le.mpr hslot) fun h => h hfetch, if_neg fun h => h.elim (Nat.not_lt.mpr hlen) fun h => h hsha]
    split
    · exact hready rfl
    · exact hready rfl
  | «begin» =>
    rw [hj] at he
    cases a with
    | volume status revision =>
      change (s.acked.onVolume N t .begin (.volume status revision)).phase ≠ .failed
      unfold onVolume
      cases status with
      | ok => exact hready rfl
      | leaseLost => exact absurd rfl he
      | busy =>
        dsimp only
        split
        · exact hgive
        · exact hready rfl
      | _ => exact hgive
    | _ => exact absurd trivial he
  | commit =>
    rw [hj] at he
    cases a with
    | volume status revision =>
      obtain rfl := not_not.mp he
      exact hready (applyCommit_frame (N := N) s.acked revision).2.2.2.2.2
    | _ => exact absurd trivial he
  | abort =>
    rw [hj] at he
    cases a with
    | volume status revision =>
      change (s.acked.onVolume N t .abort (.volume status revision)).phase ≠ .failed
      unfold onVolume
      exact hgive
    | _ => exact absurd trivial he
  | putLeaf =>
    change (s.acked.onPut N .putLeaf a).phase ≠ .failed
    exact hready (onPut_phase (s := s.acked) _ _)
  | putRoot =>
    change (s.acked.onPut N .putRoot a).phase ≠ .failed
    exact hready (onPut_phase (s := s.acked) _ _)
  | release => exact hready rfl

theorem DrainInv.onAck {a : AdminAck} (h : s.DrainInv body N) (hi : s.Inv body N) (haw : s.awaits)
    (hnd : ¬ s.reportsDrained) (hi' : (s.onAck N sha t a).Inv body N)
    (hgo : s.draining = true → s.phase = .ready → 0 < s.staged → ¬ s.AckEnds sha N a)
    (hab : s.draining = true → ¬ s.Abandons t a) : (s.onAck N sha t a).DrainInv body N := by
  have hdr : s.drained = false := Bool.eq_false_iff.mpr fun hd => hnd (.inl hd)
  obtain hk | ⟨hj, status, b, heq⟩ | ⟨root, hj, heq⟩ | ⟨heq, hgive⟩ | ⟨r, rfl, hj, heq⟩ | ⟨hj, heq⟩ :=
    onAck_cases (N := N) (t := t) sha haw.1 a
  · exact h.of_keeps hi hk hi' fun hd hr hn => hi.onAck_going hr haw (hgo hd hr hn)
  · rw [heq] at hi' ⊢
    -- nothing was written before the device is open
    have hph : s.phase ≠ .ready := fun hr => by
      have hfits := (hi.live hr).job
      unfold JobFits at hfits
      rw [hj] at hfits
      exact hfits.elim
    obtain ⟨hhist, hdrained, hjob, hready, hlost⟩ := onLookup_frame (s := s.acked) haw.1 status b
    have hnot : ¬ ((s.acked.onLookup status b).job = .release ∨
        (s.acked.onLookup status b).drained = true) := by
      rw [hjob rfl, hdrained.trans hdr]
      nofun
    have hlost' (hf : (s.acked.onLookup status b).phase = .failed) :
        (s.acked.onLookup status b).lost = false := by
      refine (hlost hf).trans (decide_eq_false ?_)
      show ¬ 0 < s.staged
      rw [hi.staged_of_not_ready hph haw.1]
      exact Nat.lt_irrefl 0
    refine ⟨fun hr => absurd hr hready, fun h => absurd h hnot, fun _ h => absurd h hnot,
      fun hf _ => ⟨fun i _ hs => absurd (((hi'.dead hf).slots i).symm.trans hs) nofun, .inl ?_⟩,
      fun hf _ hl => absurd ((hlost' hf).symm.trans hl) nofun⟩
    rw [hhist]
    exact congrArg (·.writes) (hi.closed hph haw.1).hist
  · rw [heq]
    refine .of_none nofun ?_ nofun hdr
    by_cases hr : s.phase = .ready
    · have hfits := (hi.live hr).job
      unfold JobFits at hfits
      rw [hj] at hfits
      exact hfits.elim
    · exact hi.staged_of_not_ready hr haw.1
  · rw [heq]
    -- a commit is abandoned only while the device does not drain
    have hnot : s.draining = false := Bool.eq_false_iff.mpr fun hd => hab hd hgive
    unfold giveUp
    obtain ⟨-, hf, hj, hph⟩ := failWaiters_keeps { s.acked with
      flags.refused := true
      extents.slots := fun i => { s.acked.slots i with committing := false }
      work.commit := .idle
      flags.flushWanted := false }
    refine .of_not_draining ?_ (hf.draining.trans hnot) ?_ (hf.drained.trans hdr)
    · rw [hph]
      exact haw.1
    · rw [hj]
      nofun
  · rw [heq]
    obtain ⟨-, hx, -, hd, hn, hph⟩ := applyCommit_frame (N := N) s.acked r
    refine .of_none ?_ hn ?_ (hd.trans hdr)
    · rw [hph]
      exact haw.1
    · unfold BlockVolume.job
      rw [hx]
      nofun
  · rw [heq]
    have hdrain := h.drains (.inl hj)
    obtain ⟨h2, h3⟩ := h.released haw.1 (.inl hj)
    exact ⟨fun _ _ hn => absurd h2 (Nat.ne_of_gt hn), fun _ => hdrain, fun _ _ => ⟨h2, h3⟩,
      fun hf => absurd hf haw.1, fun hf => absurd hf haw.1⟩

theorem DrainInv.schedule (h : s.DrainInv body N) (hi : s.Inv body N) (hf : s.phase ≠ .failed)
    (hj : s.job = .none) (hnd : ¬ s.reportsDrained) (hi' : (s.schedule N t).Inv body N) :
    (s.schedule N t).DrainInv body N := by
  have hgo (hr : s.phase = .ready) : (s.schedule N t).phase ≠ .failed := by
    rw [((hi.sound hr).schedule (N := N) (t := t) hj).2.2]
    nofun
  have hdr : s.drained = false := Bool.eq_false_iff.mpr fun hd => hnd (.inl hd)
  obtain hk | ⟨hp, hc, hd, hw, hq, heq⟩ | ⟨hr, hn, hk⟩ := schedule_cases (N := N) s t
  · exact h.of_keeps hi hk hi' fun _ hr _ => hgo hr
  · rw [heq]
    have hstaged : s.staged = 0 := by
      by_contra hne
      obtain hf | hf := h.wanted hp hd (Nat.pos_of_ne_zero hne)
      · rw [hw] at hf
        cases hf
      · exact hf hc
    refine ⟨fun _ _ hn => absurd hstaged (Nat.ne_of_gt hn), fun _ => hd,
      fun _ _ => ⟨hstaged, fun i hi => ?_⟩, fun h => absurd h hf, fun h => absurd h hf⟩
    have hcount := (Nat.add_eq_zero_iff.mp hq).2
    have := List.countP_eq_zero.mp hcount i (List.mem_range.mpr hi)
    exact Option.not_isSome_iff_eq_none.mp this
  · obtain ⟨hst, -⟩ := hk.going (hgo hr)
    refine .of_none (hgo hr) (hst.trans hn) (fun hrel => ?_) (hk.drained.trans hdr)
    exact absurd (hj.symm.trans (hk.job hrel)) nofun

theorem DrainInv.serve (h : s.DrainInv body N) (hi : s.Inv body N) (hq : i < queueDepth)
    (hp : s.phase = .ready ∨ s.phase = .failed) (hrace : StepRaceFree admits N s (.serve i))
    (hdrain : s.draining = true → s.phase = .ready → s.flushWanted = false → ∀ p ∈ s.pending i,
      s.RunsWrite p → s.writeFits N p.req → 0 < s.newStaged N p.req →
        p.req.fua = true ∧ s.refused = false) : (s.serve N i).DrainInv body N := by
  obtain hr | hf := hp
  swap
  · obtain ⟨hf', hseen, hx, htold, hd, hdr, hl⟩ := serve_of_failed (N := N) (i := i) hf
    have hdead := ((hi.dead hf).serve (N := N) (i := i) hi.ledger hf).dead hf'
    refine ⟨fun hr => absurd (hr.symm.trans hf') nofun, fun hrel => ?_, fun hn => absurd hf' hn,
      fun _ hl' => (h.kept hf (hl ▸ hl')).of_seen hseen hdead,
      fun _ hd' hl' => htold (h.said hf (hd ▸ hd') (hl ▸ hl'))⟩
    refine hd.trans (h.drains (hrel.imp (fun hj => ?_) fun hd => hdr.symm.trans hd))
    unfold BlockVolume.job at hj
    rwa [hx] at hj
  cases hpi : s.pending i with
  | none =>
    unfold BlockVolume.serve
    rw [hpi]
    exact h
  | some p =>
    have hk := (hi.sound hr).serve_keeps hpi (hrace hr p hpi)
    have hr' := ((hi.sound hr).serve (N := N) (i := i) (hrace hr)).2.2
    have hnf : s.phase ≠ .failed := fun hf => absurd (hr.symm.trans hf) nofun
    have hrel' (hrel : (s.serve N i).job = .release ∨ (s.serve N i).drained = true) :
        s.job = .release ∨ s.drained = true :=
      hrel.imp (fun hj => hk.job.symm.trans hj) fun hd => hk.flags.drained.symm.trans hd
    refine ⟨fun _ hd hn => ?_, fun hrel => hk.flags.draining.trans (h.drains (hrel' hrel)),
      fun _ hrel => ?_, fun hf => absurd (hr'.symm.trans hf) nofun,
      fun hf => absurd (hr'.symm.trans hf) nofun⟩
    · have hd' : s.draining = true := hk.flags.draining.symm.trans hd
      obtain hst | ⟨hruns, hfits, hst, hfua⟩ := hk.staged
      · rw [hst] at hn
        obtain hw | hw := h.wanted hr hd' hn
        · exact .inl (hk.flags.flush hw)
        · exact .inr (hk.commit ▸ hw)
      · by_cases hw : s.flushWanted = true
        · exact .inl (hk.flags.flush hw)
        -- nothing was staged, so what is staged now is new
        have hnone : s.staged = 0 := by
          by_contra hne
          obtain hw' | hc := h.wanted hr hd' (Nat.pos_of_ne_zero hne)
          · exact hw hw'
          · exact hc hfits.1
        have hnew : 0 < s.newStaged N p.req := by
          rw [hst, hnone, Nat.zero_add] at hn
          exact hn
        obtain ⟨hf, href⟩ := hdrain hd' hr (Bool.not_eq_true _ ▸ hw) p hpi hruns hfits hnew
        exact .inl (hfua hf href hnew)
    · rw [(h.released hnf (hrel' hrel)).2 i hq] at hpi
      cases hpi

/-- A request inside the call is let in only while the device does not drain. -/
theorem DrainInv.ran {p : BlockPending} (h : s.DrainInv body N) (hd : s.draining = false)
    (hk : RunKeeps N s p s') (hr : s'.phase = .ready) : s'.DrainInv body N := by
  have hnot : ¬ (s.job = .release ∨ s.drained = true) := fun hrel => by
    rw [h.drains hrel] at hd
    cases hd
  rw [not_or] at hnot
  refine .of_not_draining (fun hf => absurd (hr.symm.trans hf) nofun) (hk.flags.draining.trans hd)
    (fun hj => hnot.1 (hk.job.symm.trans hj)) (hk.flags.drained.trans (Bool.eq_false_iff.mpr hnot.2))

theorem DrainInv.turnAway (h : s.DrainInv body N) : s.turnAway.DrainInv body N := by
  unfold BlockVolume.turnAway
  split
  · exact ⟨h.wanted, h.drains, h.released, h.kept, fun _ _ _ => rfl⟩
  · exact h

/-- A piece of the module's step that does not end an open device. -/
theorem Inv.tick_going {e : VolEvent} (hi : s.Inv body N) (hr : s.phase = .ready)
    (hack : ∀ t a, e ≠ .ack t a) (hsched : ∀ t, e ≠ .schedule t) (hserve : ∀ i, e ≠ .serve i)
    (he : ¬ s.Ends sha N e) : (s.tick sha N e).phase ≠ .failed := by
  have hready {u : BlockVolume} (h : u.phase = s.phase) : u.phase ≠ .failed := fun hf =>
    absurd (hr.symm.trans (h.symm.trans hf)) nofun
  cases e with
  | ack t a => exact absurd rfl (hack t a)
  | schedule t => exact absurd rfl (hsched t)
  | serve i => exact absurd rfl (hserve i)
  | openCheck =>
    unfold BlockVolume.tick
    dsimp only
    rw [if_neg fun h => VolPhase.noConfusion (hr.symm.trans h.1)]
    exact hready rfl
  | adminFailed err => exact absurd trivial he
  | hand =>
    unfold BlockVolume.tick
    dsimp only
    split
    · exact hready rfl
    · exact hready rfl
  | timeout t =>
    unfold BlockVolume.tick timeoutCheck
    dsimp only
    split
    next haw =>
      rw [if_neg fun hlate => he ⟨haw, hlate⟩]
      exact hready rfl
    · exact hready rfl
  | sendBody =>
    unfold BlockVolume.tick
    dsimp only
    split
    next hs => exact hready ((hi.sends hs).bodiesSend.1.2.2.trans hr.symm)
    · exact hready rfl
  | bodyAck t k a =>
    unfold BlockVolume.tick bodiesAck
    dsimp only
    split
    next hs =>
      split
      next hn => exact absurd ⟨hs, List.getElem?_eq_none_iff.mp hn⟩ he
      · split
        · exact hready rfl
        · exact hready rfl
    · exact hready rfl
  | bodiesEnd t =>
    unfold BlockVolume.tick bodiesEnd timeoutCheck
    dsimp only
    split
    next hs =>
      split
      · split
        · exact hready rfl
        · exact hready rfl
      next hnot =>
        rw [if_neg fun hlate => he ⟨hs, hlate, hnot⟩]
        exact hready rfl
    · exact hready rfl
  | guard t =>
    unfold BlockVolume.tick leaseGuard
    dsimp only
    rw [if_pos hr, if_neg (show ¬ s.leaseAt + s.ttlMs - s.ttlMs / 4 ≤ t from he)]
    exact hready rfl
  | exec r => exact hready rfl
  | submit r => exact hready rfl
  | reap => exact hready rfl
  | drain => exact hready rfl

/-- **Every event keeps it**, when an open device does not end with an extent
staged while it drains, no commit is abandoned then and no write stages behind
the flush. -/
theorem DrainInv.step {e : VolEvent} (hadm : AdmitsInDevice admits) (h : s.DrainInv body N)
    (hi : s.Inv body N) (htrue : StepTrue body sha s e) (hrace : StepRaceFree admits N s e)
    (hdrain : StepDrains sha N s e) : (s.step admits sha N e).DrainInv body N := by
  obtain ⟨hcase, hgo⟩ := hdrain
  have htick : (if s.reportsDrained then s else s.tick sha N e).DrainInv body N := by
    split
    · exact h
    next hnd =>
      have hi' := hi.tick htrue hrace
      by_cases hack : ∃ t a, e = .ack t a
      · obtain ⟨t, a, rfl⟩ := hack
        unfold BlockVolume.tick at hi' ⊢
        dsimp only at hi' ⊢
        split
        next haw =>
          rw [if_pos haw] at hi'
          exact h.onAck hi haw.1 hnd hi' (fun hd hr hn he => hgo hd hr hn ⟨haw.1, haw.2, he⟩) hcase
        · exact h
      by_cases hsched : ∃ t, e = .schedule t
      · obtain ⟨t, rfl⟩ := hsched
        unfold BlockVolume.tick at hi' ⊢
        dsimp only at hi' ⊢
        split
        next hq =>
          rw [if_pos hq] at hi'
          exact h.schedule hi hq.1 hq.2 hnd hi'
        · exact h
      by_cases hserve : ∃ i, e = .serve i
      · obtain ⟨i, rfl⟩ := hserve
        unfold BlockVolume.tick
        dsimp only
        split
        next hq => exact h.serve hi hq.1 hq.2 hrace hcase
        · exact h
      have hack' : ∀ t a, e ≠ .ack t a := fun t a he => hack ⟨t, a, he⟩
      have hsched' : ∀ t, e ≠ .schedule t := fun t he => hsched ⟨t, he⟩
      have hserve' : ∀ i, e ≠ .serve i := fun i he => hserve ⟨i, he⟩
      exact h.of_keeps hi (tick_keeps sha hack' hsched' hserve') hi' fun hd hr hn =>
        hi.tick_going hr hack' hsched' hserve' (hgo hd hr hn)
  unfold BlockVolume.step
  split
  · split
    next ha =>
      have hs := hi.sound ha.2.1
      have hdev := hs.1.geo.inDevice hadm ha.2.2
      exact h.ran ha.1 (hs.exec_keeps hdev (hrace ha)) (hs.exec hdev (hrace ha)).2.2
    · exact h.turnAway
  · split
    next ha =>
      have hs := hi.sound ha.2.1
      have hdev := hs.1.geo.inDevice hadm ha.2.2
      exact h.ran ha.1 (hs.submit_keeps hdev (hrace ha)) (hs.submit hdev (hrace ha)).2.2
    · exact h.turnAway
  · exact ⟨h.wanted, h.drains, h.released, h.kept, h.said⟩
  · exact ⟨fun _ _ _ => .inl rfl, fun _ => rfl, h.released, h.kept, fun hf _ hl => hcase hf hl⟩
  · exact h.of_keeps hi (tick_keeps (e := .openCheck) sha nofun nofun nofun) (hi.tick htrue hrace)
      fun hd hr hn => hi.tick_going hr nofun nofun nofun (hgo hd hr hn)
  · exact htick

end

/-- **A drain loses no acknowledged write**, in every run in which no whole
extent is staged while its fetch is outstanding, and in which, while the device
drains, it does not end with an extent staged, no commit is abandoned and no
write stages behind the flush. -/
theorem drain_loses_nothing {body : Digest → Bytes} {sha : Bytes → Digest}
    {admits : BlockCaps → BlockReq → Bool} (hadm : AdmitsInDevice admits) {N : ℕ}
    (seeded paramsGood : Bool) (blockSize ttlMs : ℕ) (expectFence : UInt64) {es : List VolEvent}
    (hall : Run.AllSteps (step admits sha N)
      (fun s e => StepTrue body sha s e ∧ StepRaceFree admits N s e ∧ StepDrains sha N s e)
      (new seeded paramsGood blockSize ttlMs expectFence) es) :
    (Run.run (step admits sha N) (new seeded paramsGood blockSize ttlMs expectFence) es).DrainsClean
      body N := by
  have hnew : (new seeded paramsGood blockSize ttlMs expectFence).Inv body N ∧
      (new seeded paramsGood blockSize ttlMs expectFence).DrainInv body N := by
    refine ⟨new_inv seeded paramsGood blockSize ttlMs expectFence, ?_⟩
    cases seeded with
    | false =>
      exact ⟨nofun, fun h => h.elim nofun nofun, fun h => absurd rfl h,
        fun _ _ => ⟨fun _ _ => nofun, .inl rfl⟩, fun _ _ => nofun⟩
    | true => exact .of_none nofun rfl nofun rfl
  obtain ⟨hi, hd⟩ := Run.invariant (I := fun s => s.Inv body N ∧ s.DrainInv body N)
    (fun s e hs he => ⟨hs.1.step hadm ⟨he.1, he.2.1⟩, hs.2.step hadm hs.1 he.1 he.2.1 he.2.2⟩) hnew hall
  exact hd.clean hi

/-- A write is staged, the device drains, and a sweep's reservation outlasts
the patience of the flush. -/
def refusedDrain : List VolEvent :=
  fetchFirst ++ [.drain] ++ stepEvents 0 [] ++ stepEvents 11000 [.ack 11000 (.volume .busy 4)]

/-- The flush is opened and its root bound before the lease goes back. -/
def cleanDrain : List VolEvent :=
  fetchFirst ++ [.drain] ++ stepEvents 0 [] ++ stepEvents 0 [.ack 0 (.volume .ok 0)] ++
    stepEvents 0 [.sendBody, .sendBody, .sendBody, .bodyAck 0 0 (.put .ok (some (digestOf 9))),
      .bodiesEnd 0] ++
    stepEvents 0 [.ack 0 (.put .ok (some (digestOf 7)))] ++ stepEvents 0 [.ack 0 (.volume .ok 5)]

/-- A commit abandoned while the device drains: the lease goes back with the
write still staged. -/
theorem refused_flush_loses_write :
    Run.AllSteps (step insideCaps digestFor 8)
        (fun s e => StepTrue bodyOf digestFor s e ∧ StepRaceFree insideCaps 8 s e) smallDevice
        refusedDrain ∧
      ¬ (Run.run (step insideCaps digestFor 8) smallDevice refusedDrain).DrainsClean bodyOf 8 := by
  refine ⟨by decide +kernel, fun h => ?_⟩
  obtain ⟨hf, -⟩ | ⟨hnone, -⟩ := h (.inr (by decide +kernel))
  · exact absurd hf (by decide +kernel)
  · exact absurd (hnone 0 (by decide)) (by decide +kernel)

theorem drain_loses_nothing_cleanDrain :
    (Run.run (step insideCaps digestFor 8) smallDevice cleanDrain).DrainsClean bodyOf 8 ∧
      (Run.run (step insideCaps digestFor 8) smallDevice cleanDrain).job = .release :=
  ⟨drain_loses_nothing admitsInDevice_insideCaps true true 512 30000 0 (by decide +kernel),
    by decide +kernel⟩

end BlockVolume

end Loam

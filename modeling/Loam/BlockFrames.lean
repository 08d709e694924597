import Loam.BlockRuns

/-!
# What an exchange of a block device leaves alone

An exchange that ends no commit changes none of what a drain looks at: what is
staged, what is queued and whether it is draining. The roots that landed are
changed by the open and by a bind that the node says landed, and by nothing
else.
-/

namespace Loam

namespace BlockVolume

variable {body : Digest → Bytes} {N : ℕ} {s s' s'' : BlockVolume} {n i t : ℕ}

/-- What an exchange that ends no commit leaves as it was. -/
structure Keeps (s s' : BlockVolume) : Prop where
  seen : (s'.hist, s'.view, s'.params) = (s.hist, s.view, s.params)
  draining : s'.draining = s.draining
  drained : s'.drained = s.drained
  told : s'.told = s.told
  job : s'.job = .release → s.job = .release
  failed : s.phase = .failed → s'.phase = .failed
  lost : s'.phase = .failed → s'.lost = if s.phase = .failed then s.lost else decide (0 < s.staged)
  going : s'.phase ≠ .failed → s'.staged = s.staged ∧ s'.pending = s.pending ∧
    (s.flushWanted = true → s'.flushWanted = true) ∧ (s.commit ≠ .idle → s'.commit ≠ .idle)

namespace Keeps

theorem landed (h : Keeps s s') : s'.hist.landed = s.hist.landed :=
  congrArg (fun p => p.1.landed) h.seen

theorem refl (s : BlockVolume) : Keeps s s :=
  ⟨rfl, rfl, rfl, rfl, id, id, fun hf => (if_pos hf).symm, fun _ => ⟨rfl, rfl, id, id⟩⟩

theorem trans (h : Keeps s s') (h' : Keeps s' s'') : Keeps s s'' where
  seen := h'.seen.trans h.seen
  draining := h'.draining.trans h.draining
  drained := h'.drained.trans h.drained
  told := h'.told.trans h.told
  job := h.job ∘ h'.job
  failed := fun hf => h'.failed (h.failed hf)
  lost := fun hf => by
    rw [h'.lost hf]
    split
    next hf' => exact h.lost hf'
    next hf' => rw [if_neg fun hf => hf' (h.failed hf), (h.going hf').1]
  going := fun hf => by
    obtain ⟨h1, h2, h3, h4⟩ := h'.going hf
    obtain ⟨k1, k2, k3, k4⟩ := h.going fun hf' => hf (h'.failed hf')
    exact ⟨h1.trans k1, h2.trans k2, h3 ∘ k3, h4 ∘ k4⟩

theorem of_phase (hh : (s'.hist, s'.view, s'.params) = (s.hist, s.view, s.params))
    (hp : s'.phase = s.phase) (hd : s'.draining = s.draining) (hd' : s'.drained = s.drained)
    (ht : s'.told = s.told) (hl : s'.lost = s.lost) (hn : s'.staged = s.staged)
    (hq : s'.pending = s.pending) (hf : s.flushWanted = true → s'.flushWanted = true)
    (hc : s.commit ≠ .idle → s'.commit ≠ .idle) (hj : s'.job = .release → s.job = .release) :
    Keeps s s' :=
  ⟨hh, hd, hd', ht, hj, hp.trans, fun h => hl.trans (if_pos (hp.symm.trans h)).symm,
    fun _ => ⟨hn, hq, hf, hc⟩⟩

theorem of_same (hh : (s'.hist, s'.view, s'.params) = (s.hist, s.view, s.params))
    (hf : s'.flags = s.flags) (hn : s'.staged = s.staged) (hq : s'.queue = s.queue)
    (hp : s'.phase = .failed ↔ s.phase = .failed) (hc : s.commit ≠ .idle → s'.commit ≠ .idle)
    (hj : s'.job = .release → s.job = .release) : Keeps s s' := by
  cases s
  cases s'
  cases hh
  cases hf
  cases hq
  exact ⟨rfl, rfl, rfl, rfl, hj, hp.mpr, fun h => (if_pos (hp.mp h)).symm, fun _ => ⟨hn, rfl, id, hc⟩⟩

theorem failWith (s : BlockVolume) (err : VolErrno) : Keeps s (s.failWith err) := by
  unfold BlockVolume.failWith
  split
  · exact .refl s
  next hf => exact ⟨rfl, rfl, rfl, rfl, nofun, fun _ => rfl, fun _ => (if_neg hf).symm, fun hf => absurd rfl hf⟩

theorem acked (s : BlockVolume) : Keeps s s.acked := of_same rfl rfl rfl rfl .rfl id nofun

theorem issue {job : VolJob} {io : AdminAsk} (s : BlockVolume) (hj : job ≠ .release) :
    Keeps s (s.issue job io t) :=
  of_same rfl rfl rfl rfl .rfl id fun h => absurd h hj

theorem timeoutCheck (s : BlockVolume) (t : ℕ) : Keeps s (s.timeoutCheck t) := by
  unfold BlockVolume.timeoutCheck
  split
  · exact .failWith s _
  · exact .refl s

theorem withFlush (s : BlockVolume) : Keeps s { s with flags.flushWanted := true } :=
  of_phase rfl rfl rfl rfl rfl rfl rfl rfl (fun _ => rfl) id id

theorem dropWant (s : BlockVolume) (i : ℕ) : Keeps s (s.dropWant i) :=
  of_phase rfl rfl rfl rfl rfl rfl rfl rfl id id id

/-! ## The open -/

theorem onLease (hs : s.phase ≠ .failed) (job : VolJob) (status : AdminStatus)
    (fence : UInt64) : Keeps s (s.onLease t job status fence) := by
  unfold BlockVolume.onLease
  split
  · split
    · exact .failWith s _
    · exact of_same rfl rfl rfl rfl ⟨nofun, fun h => absurd h hs⟩ id id
  · split
    · exact of_same rfl rfl rfl rfl .rfl id id
    · exact .failWith s _
  · exact .failWith s _
  · exact of_same rfl rfl rfl rfl .rfl id id
  · exact .refl s
  · exact .failWith s _
  · exact .failWith s _

/-! ## The fetches -/

theorem leafReady (s : BlockVolume) (child t : ℕ) : Keeps s (s.leafReady child t).1 := by
  unfold BlockVolume.leafReady
  split
  · exact of_same rfl rfl rfl rfl .rfl id id
  split
  · exact .refl s
  dsimp only
  split
  · exact of_same rfl rfl rfl rfl .rfl id id
  · exact of_same rfl rfl rfl rfl .rfl id nofun

theorem onLeaf (s : BlockVolume) (sha : Bytes → Digest) (page : Option Bytes) :
    Keeps s (s.onLeaf sha page) := by
  unfold BlockVolume.onLeaf
  split
  · split
    · exact .failWith s _
    split
    · exact .failWith s _
    split
    · exact of_same rfl rfl rfl rfl .rfl id id
    · exact .failWith s _
  · exact .failWith s _

theorem placeFetch (s : BlockVolume) (idx : ℕ) (digest : Digest) (t : ℕ) :
    Keeps s (s.placeFetch N idx digest t).1 := by
  unfold BlockVolume.placeFetch
  split
  · exact .withFlush s
  split
  · unfold BlockVolume.dropWant BlockVolume.touch BlockVolume.setSlot BlockVolume.setExt
    exact of_phase rfl rfl rfl rfl rfl rfl rfl rfl id id id
  · unfold BlockVolume.setSlot BlockVolume.issue
    exact of_same rfl rfl rfl rfl .rfl id nofun

theorem fetchLoop (k : ℕ) : Keeps s (fetchLoop N t k s) := by
  induction k generalizing s with
  | zero => exact .refl s
  | succ k ih =>
    have hdrop : Keeps s (BlockVolume.fetchLoop N t k (s.dropWant 0)) := (dropWant s 0).trans ih
    unfold BlockVolume.fetchLoop
    split
    · exact .refl s
    next idx _ _ =>
    split
    · exact hdrop
    split
    · split
      · exact hdrop
      next digest _ =>
        have hp := placeFetch (N := N) s idx digest t
        generalize s.placeFetch N idx digest t = out at hp ⊢
        obtain ⟨s', b⟩ := out
        cases b with
        | true => exact hp.trans ih
        | false => exact hp
    · have hl := leafReady s (idx / pageEntries) t
      generalize s.leafReady (idx / pageEntries) t = out at hl ⊢
      obtain ⟨s', o⟩ := out
      cases o with
      | none => exact hl
      | some k' =>
        dsimp only at hl ⊢
        have hp := placeFetch (N := N) s' idx (s'.leafData k' (idx % pageEntries)) t
        generalize s'.placeFetch N idx _ t = out at hp ⊢
        obtain ⟨s'', b⟩ := out
        cases b with
        | true => exact (hl.trans hp).trans ih
        | false => exact hl.trans hp

theorem onExtent (s : BlockVolume) (sha : Bytes → Digest) (bytes : Option Bytes) :
    Keeps s (s.onExtent N sha bytes) := by
  unfold BlockVolume.onExtent
  dsimp only
  split
  · exact .failWith s _
  split
  · exact .failWith s _
  next b =>
  split
  · exact .failWith s _
  have hread : Keeps s (((s.setExt s.jobSlot fun j => b.getD j 0).setSlot s.jobSlot
      { s.slots s.jobSlot with state := .clean }).touch s.jobSlot) :=
    of_same rfl rfl rfl rfl .rfl id id
  split
  · exact hread.trans (dropWant _ _)
  · exact hread

/-! ## The commit -/

theorem nextBodyFrom (k : ℕ) : Keeps s (nextBodyFrom N k s).1 := by
  induction k generalizing s with
  | zero => exact .refl s
  | succ k ih =>
    unfold BlockVolume.nextBodyFrom
    split
    · exact .refl s
    split
    · refine trans ?_ ih
      exact of_same rfl rfl rfl rfl .rfl id id
    split
    · refine trans ?_ ih
      exact of_same rfl rfl rfl rfl .rfl id id
    · exact .refl s

theorem bodiesSend (s : BlockVolume) : Keeps s (s.bodiesSend N) := by
  unfold BlockVolume.bodiesSend
  split
  · exact .refl s
  split
  · exact of_same rfl rfl rfl rfl .rfl id id
  have hn := nextBodyFrom (N := N) (s := s) (N + 1)
  unfold nextBody
  generalize BlockVolume.nextBodyFrom N (N + 1) s = out at hn ⊢
  obtain ⟨s', o⟩ := out
  cases o with
  | none => exact hn
  | some i => exact hn.trans (of_same rfl rfl rfl rfl .rfl id id)

theorem bodiesAck (s : BlockVolume) (t k : ℕ) (a : AdminAck) : Keeps s (s.bodiesAck t k a) := by
  unfold BlockVolume.bodiesAck
  split
  · exact .failWith s _
  dsimp only
  split
  · exact of_same rfl rfl rfl rfl .rfl id id
  · exact of_same rfl rfl rfl rfl .rfl id id

theorem bodiesEnd (s : BlockVolume) (t : ℕ) : Keeps s (s.bodiesEnd N t) := by
  unfold BlockVolume.bodiesEnd
  split
  · split
    · exact of_same rfl rfl rfl rfl .rfl (fun _ h => VolCommit.noConfusion h) nofun
    refine of_same rfl rfl rfl rfl .rfl (fun _ => ?_) nofun
    show (if s.depth = 2 then VolCommit.leaves else VolCommit.root) ≠ .idle
    split
    · nofun
    · nofun
  · exact .timeoutCheck s t

theorem addLeafNew (s : BlockVolume) (child : ℕ) (d : Digest) : Keeps s (s.addLeafNew N child d) := by
  unfold BlockVolume.addLeafNew
  split
  · exact of_same rfl rfl rfl rfl .rfl id id
  · exact .refl s

theorem leavesFrom (k : ℕ) : Keeps s (leavesFrom N t k s) := by
  induction k generalizing s with
  | zero => exact .refl s
  | succ k ih =>
    unfold BlockVolume.leavesFrom
    dsimp only
    split
    · exact of_same rfl rfl rfl rfl .rfl (fun _ h => VolCommit.noConfusion h) id
    split
    · refine trans ?_ ih
      exact of_same rfl rfl rfl rfl .rfl id id
    have hl := leafReady s ((s.slots s.commitCursor).idx / pageEntries) t
    generalize s.leafReady ((s.slots s.commitCursor).idx / pageEntries) t = out at hl ⊢
    obtain ⟨s', o⟩ := out
    cases o with
    | none => exact hl
    | some k' =>
      dsimp only at hl ⊢
      split
      · exact hl.trans (of_same rfl rfl rfl rfl .rfl (fun _ h => VolCommit.noConfusion h) id)
      split
      · have hadd := addLeafNew (N := N) s' ((s.slots s.commitCursor).idx / pageEntries) Digest.zero
        generalize s'.addLeafNew N _ Digest.zero = u at hadd ⊢
        refine (hl.trans hadd).trans (trans ?_ ih)
        exact of_same rfl rfl rfl rfl .rfl id id
      · exact hl.trans (of_same rfl rfl rfl rfl .rfl id nofun)

theorem commitNext (s : BlockVolume) (t : ℕ) : Keeps s (s.commitNext N t) := by
  unfold BlockVolume.commitNext
  split
  · split
    · exact .refl s
    · exact .issue s nofun
  · exact of_same rfl rfl rfl rfl .rfl id nofun
  · exact .leavesFrom _
  · split
    · exact of_same rfl rfl rfl rfl .rfl (fun _ h => VolCommit.noConfusion h) id
    · exact .issue s nofun
  · exact .issue s nofun
  · exact .issue s nofun
  · exact .refl s

theorem onPut (s : BlockVolume) (job : VolJob) (a : AdminAck) : Keeps s (s.onPut N job a) := by
  unfold BlockVolume.onPut
  split
  · split
    · exact (addLeafNew s _ _).trans (of_same rfl rfl rfl rfl .rfl id id)
    · exact of_same rfl rfl rfl rfl .rfl (fun _ h => VolCommit.noConfusion h) id
  · exact of_same rfl rfl rfl rfl .rfl (fun _ h => VolCommit.noConfusion h) id

theorem beginCommit (s : BlockVolume) : Keeps s s.beginCommit :=
  of_same rfl rfl rfl rfl .rfl (fun _ h => VolCommit.noConfusion h) id

end Keeps

/-! ## The requests -/

/-- What running a request leaves as it was. -/
structure RunKeeps (N : ℕ) (s : BlockVolume) (p : BlockPending) (s' : BlockVolume) : Prop where
  landed : s'.hist.landed = s.hist.landed
  flags : FlagsKeep s.flags s'.flags
  job : s'.job = s.job
  commit : s'.commit = s.commit
  /-- Only a write that fits stages extents; one that is durable when it
  completes has them flushed, unless it is told of a commit that gave up. -/
  staged : s'.staged = s.staged ∨ s.RunsWrite p ∧ s.writeFits N p.req ∧
    s'.staged = s.staged + s.newStaged N p.req ∧
    (p.req.fua = true → s.refused = false → 0 < s.newStaged N p.req → s'.flushWanted = true)

theorem RunKeeps.of_core {p : BlockPending} (hc : s'.core = s.core) (hf : FlagsKeep s.flags s'.flags) :
    RunKeeps N s p s' where
  landed := by rw [core_hist hc]
  flags := hf
  job := core_job hc
  commit := by
    unfold BlockVolume.commit
    rw [core_work hc]
  staged := .inl (core_staged hc)

theorem commitWait_flags (s : BlockVolume) (r : BlockReq) :
    FlagsKeep s.flags (s.commitWait r).1.flags := by
  unfold commitWait
  split
  · exact ⟨rfl, rfl, id⟩
  · exact ⟨rfl, rfl, fun _ => rfl⟩

theorem finish_keeps {p q : BlockPending} : RunKeeps N s q (s.finish p).1 := by
  unfold finish
  split
  · exact .of_core rfl (.refl _)
  · exact .of_core (commitWait_spec s p.req).1 (commitWait_flags s p.req)

/-- A write that is looked at, and what it stages. -/
theorem Live.write_keeps {p q : BlockPending} (h : s.Live body N) (hop : p.req.op = .write)
    (hreq : q.req = p.req) (hdev : s.InDevice p.req) (hrace : ¬ s.Races N p.req)
    (hruns : s.RunsWrite q) : RunKeeps N s q (s.execute N p).1 := by
  unfold execute
  rw [hop]
  dsimp only
  by_cases hfits : s.writeFits N p.req
  swap
  · obtain ⟨o, f, ho, hwr, hk⟩ := writeNow_of_not_fits hfits
    rw [hwr]
    cases o with
    | done => exact absurd rfl ho
    | wait => exact .of_core rfl hk
    | room =>
      have hc := (commitWait_spec { s with flags := f } p.req).1
      exact .of_core (hc.trans rfl) (hk.trans (commitWait_flags { s with flags := f } p.req))
  obtain ⟨s', hwr, hw⟩ := writeNow_of_fits h.slots h.geo hop hdev (h.quiet hfits.1) hfits hrace
  rw [hwr]
  have hland : s'.hist.landed = s.hist.landed := by rw [hw.only]
  have hflags : s'.flags = s.flags := by rw [hw.only]
  have hjob : s'.job = s.job := by
    unfold BlockVolume.job
    rw [hw.only]
  have hcommit : s'.commit = s.commit := by
    unfold BlockVolume.commit
    rw [hw.only]
  have hdur : s'.durableGen = s.durableGen := by rw [hw.only]
  dsimp only
  split
  next hfua =>
    -- it waits for a commit, which it asks for
    have hk := finish_keeps (N := N) (s := s') (p := { p with stage := 2, target := s'.writeGen }) (q := q)
    refine ⟨hk.landed.trans hland, ⟨hk.flags.draining.trans (congrArg _ hflags),
      hk.flags.drained.trans (congrArg _ hflags), fun hf => hk.flags.flush (by rw [hflags]; exact hf)⟩,
      hk.job.trans hjob, hk.commit.trans hcommit, .inr ⟨hruns, hreq.symm ▸ hfits, ?_, ?_⟩⟩
    · have hst : (s'.finish { p with stage := 2, target := s'.writeGen }).1.staged = s'.staged := by
        unfold finish
        split
        · rfl
        · exact core_staged (commitWait_spec _ _).1
      rw [hst, hw.staged, hreq]
    · intro _ href hnew
      rw [hreq] at hnew
      unfold finish
      have hgen := hw.moved hnew
      have hle := h.gens.durable
      rw [if_neg (by rw [hdur]; show ¬ s'.writeGen ≤ s.durableGen; omega)]
      unfold commitWait
      rw [if_neg (by
        unfold BlockVolume.refused
        rw [hflags]
        show ¬ s.refused = true
        rw [href]
        nofun)]
  next hfua =>
    refine ⟨hland, hflags ▸ .refl _, hjob, hcommit, .inr ⟨hruns, hreq.symm ▸ hfits, ?_, ?_⟩⟩
    · rw [hreq]
      exact hw.staged
    · intro hf
      rw [hreq] at hf
      exact absurd hf hfua

/-- **What running a request leaves as it was.** -/
theorem Live.run_keeps {p : BlockPending} (h : s.Live body N) (hp : s.PendInv body p)
    (hrace : s.RaceFree N p) : RunKeeps N s p (s.run N p).1 := by
  have hexec (q : BlockPending) (hreq : q.req = p.req) (hdev : s.InDevice q.req)
      (hruns : p.req.op = .write → s.RunsWrite p) : RunKeeps N s p (s.execute N q).1 := by
    cases hop : q.req.op with
    | write =>
      have hop' : p.req.op = .write := hreq ▸ hop
      exact h.write_keeps hop hreq.symm hdev (hreq ▸ hrace (hruns hop')) (hruns hop')
    | read =>
      unfold execute
      rw [hop]
      dsimp only
      obtain ⟨hcore, hflags, -⟩ := readNow_spec h.slots h.geo hop hdev
      generalize s.readNow N q.req = st at hcore hflags ⊢
      obtain ⟨s', buf⟩ := st
      dsimp only at hcore hflags
      have hk : RunKeeps N s p s' := .of_core hcore (by rw [hflags]; exact ⟨rfl, rfl, id⟩)
      cases buf with
      | none => exact hk
      | some buf => exact hk
    | flush =>
      unfold execute
      rw [hop]
      exact finish_keeps
    | unknown =>
      unfold execute
      rw [hop]
      exact .of_core rfl (.refl _)
  unfold run
  split
  · exact .of_core rfl ⟨rfl, rfl, id⟩
  split
  next hst =>
    split
    · exact .of_core (commitWait_spec s p.req).1 (commitWait_flags s p.req)
    next hpre => exact hexec { p with stage := 1 } rfl hp.inDevice fun hop => ⟨hop, .inr ⟨hst, hpre⟩⟩
  next hst => exact hexec p rfl hp.inDevice fun hop => ⟨hop, .inl hst⟩
  · exact finish_keeps

/-- A completion that is pushed leaves it so. -/
theorem RunKeeps.pushDone {p : BlockPending} (hk : RunKeeps N s p s') (c : BlockCpl) :
    RunKeeps N s p (s'.pushDone c) := by
  unfold BlockVolume.pushDone
  split
  · exact hk
  exact ⟨hk.landed, ⟨hk.flags.draining, hk.flags.drained, hk.flags.flush⟩, hk.job, hk.commit,
    hk.staged⟩

/-- What stepping a queued request leaves as it was. -/
theorem Sound.serve_keeps {p : BlockPending} (h : s.Sound body N) (hi : s.pending i = some p)
    (hrace : s.RaceFree N p) : RunKeeps N s p (s.serve N i) := by
  have hk := h.1.run_keeps (h.1.pend i p hi) hrace
  unfold BlockVolume.serve
  rw [hi]
  dsimp only
  generalize s.run N p = out at hk ⊢
  obtain ⟨s', p', c⟩ := out
  cases c with
  | none => exact ⟨hk.landed, hk.flags, hk.job, hk.commit, hk.staged⟩
  | some c =>
    refine RunKeeps.pushDone ?_ c
    exact ⟨hk.landed, hk.flags, hk.job, hk.commit, hk.staged⟩

theorem Sound.exec_keeps {r : BlockReq} (h : s.Sound body N) (hdev : s.InDevice r)
    (hrace : s.RaceFree N (s.made r)) : RunKeeps N s (s.made r) (s.exec N r) := by
  have hk := h.1.run_keeps (made_pendInv h.1 hdev) hrace
  unfold BlockVolume.exec
  generalize s.run N (s.made r) = out at hk ⊢
  obtain ⟨s', p', c⟩ := out
  cases c with
  | none => exact hk
  | some c => exact ⟨hk.landed, hk.flags, hk.job, hk.commit, hk.staged⟩

theorem Sound.submit_keeps {r : BlockReq} (h : s.Sound body N) (hdev : s.InDevice r)
    (hrace : s.RaceFree N (s.made r)) : RunKeeps N s (s.made r) (s.submit N r) := by
  have hk := h.1.run_keeps (made_pendInv h.1 hdev) hrace
  unfold BlockVolume.submit
  split
  · exact .of_core rfl (.refl _)
  generalize s.run N (s.made r) = out at hk ⊢
  obtain ⟨s', p', c⟩ := out
  cases c with
  | none =>
    dsimp only
    split
    · exact ⟨hk.landed, hk.flags, hk.job, hk.commit, hk.staged⟩
    · exact hk
  | some c =>
    refine RunKeeps.pushDone ?_ c
    exact ⟨hk.landed, hk.flags, hk.job, hk.commit, hk.staged⟩

/-- What telling the waiters of a commit leaves as it was. -/
theorem failWaiters_keeps (s : BlockVolume) : s.failWaiters.hist.landed = s.hist.landed ∧
    FlagsKeep s.flags s.failWaiters.flags ∧ s.failWaiters.job = s.job ∧
      s.failWaiters.phase = s.phase := by
  unfold failWaiters
  induction List.range queueDepth generalizing s with
  | nil => exact ⟨rfl, .refl _, rfl, rfl⟩
  | cons i l ih =>
    rw [List.foldl_cons]
    obtain ⟨h1, h2, h3, h4⟩ := ih (s.failWaiter i)
    have hone : (s.failWaiter i).hist.landed = s.hist.landed ∧
        FlagsKeep s.flags (s.failWaiter i).flags ∧ (s.failWaiter i).job = s.job ∧
          (s.failWaiter i).phase = s.phase := by
      unfold failWaiter
      split
      · split
        · unfold pushDone
          split
          · exact ⟨rfl, ⟨rfl, rfl, id⟩, rfl, rfl⟩
          · exact ⟨rfl, ⟨rfl, rfl, id⟩, rfl, rfl⟩
        · exact ⟨rfl, .refl _, rfl, rfl⟩
      · exact ⟨rfl, .refl _, rfl, rfl⟩
    exact ⟨h1.trans hone.1, hone.2.1.trans h2, h3.trans hone.2.2.1, h4.trans hone.2.2.2⟩

/-! ## What an answer and the schedule do -/

/-- An answer makes the device abandon its commit. -/
def Abandons (s : BlockVolume) (t : ℕ) : AdminAck → Prop
  | .volume status _ => s.job = .abort ∨ s.job = .begin ∧ status ≠ .ok ∧ status ≠ .leaseLost ∧
      (status = .busy → beginPatienceMs < t - s.beginSince)
  | _ => False

instance (s : BlockVolume) (t : ℕ) (a : AdminAck) : Decidable (s.Abandons t a) := by
  unfold Abandons
  split
  · infer_instance
  · infer_instance

theorem onVolume_cases (hj : s.job = .begin ∨ s.job = .commit ∨ s.job = .abort) (a : AdminAck) :
    Keeps s (s.acked.onVolume N t s.job a) ∨
      s.acked.onVolume N t s.job a = s.acked.giveUp ∧ s.Abandons t a ∨
      ∃ r, a = .volume .ok r ∧ s.job = .commit ∧
        s.acked.onVolume N t s.job a = s.acked.applyCommit N r := by
  have hfail (err : VolErrno) : Keeps s (s.acked.failWith err) := (Keeps.acked s).trans (.failWith _ err)
  cases a with
  | volume status r =>
    unfold onVolume
    dsimp only
    obtain hj | hj | hj := hj
    · rw [hj]
      cases status with
      | ok => exact .inl ((Keeps.acked s).trans (.beginCommit _))
      | busy =>
        dsimp only
        split
        next hlate => exact .inr (.inl ⟨rfl, .inr ⟨hj, nofun, nofun, fun _ => hlate⟩⟩)
        · exact .inl ((Keeps.acked s).trans (.of_same rfl rfl rfl rfl .rfl id id))
      | leaseLost => exact .inl (hfail _)
      | _ => exact .inr (.inl ⟨rfl, .inr ⟨hj, nofun, nofun, nofun⟩⟩)
    · rw [hj]
      cases status with
      | ok => exact .inr (.inr ⟨r, rfl, rfl, rfl⟩)
      | _ => exact .inl (hfail _)
    · rw [hj]
      exact .inr (.inl ⟨rfl, .inl hj⟩)
  | _ => exact .inl (hfail _)

theorem onRoot_cases (sha : Bytes → Digest) (page : Option Bytes) :
    Keeps s (s.onRoot sha page) ∨ ∃ root, s.onRoot sha page = s.opened root := by
  unfold onRoot
  split
  · exact .inl (.failWith s _)
  split
  · exact .inl (.failWith s _)
  split
  · exact .inl (.failWith s _)
  next root _ =>
    split
    · exact .inl (.failWith s _)
    split
    · exact .inl (.failWith s _)
    · exact .inr ⟨root, rfl⟩

/-- **What an answer does**, but for what it keeps: it names the root or opens
the device, abandons or ends the commit, or ends the drain. -/
theorem onAck_cases (sha : Bytes → Digest) (hp : s.phase ≠ .failed) (a : AdminAck) :
    Keeps s (s.onAck N sha t a) ∨
      (s.job = .lookup ∧ ∃ status b, s.onAck N sha t a = s.acked.onLookup status b) ∨
      (∃ root, s.job = .root ∧ s.onAck N sha t a = s.acked.opened root) ∨
      s.onAck N sha t a = s.acked.giveUp ∧ s.Abandons t a ∨
      (∃ r, a = .volume .ok r ∧ s.job = .commit ∧ s.onAck N sha t a = s.acked.applyCommit N r) ∨
      s.job = .release ∧ s.onAck N sha t a = { s.acked with flags.drained := true } := by
  have hfail (err : VolErrno) : Keeps s (s.acked.failWith err) := (Keeps.acked s).trans (.failWith _ err)
  generalize hout : s.onAck N sha t a = s'
  unfold onAck at hout
  split at hout
  · rw [← hout]
    exact .inl (hfail _)
  next hfor =>
  dsimp only at hout
  by_cases hv : s.job = .begin ∨ s.job = .commit ∨ s.job = .abort
  · have hcases := onVolume_cases (N := N) (t := t) hv a
    have heq : s.acked.onVolume N t s.job a = s' := by
      obtain hj | hj | hj := hv
      · rw [hj] at hout ⊢
        exact hout
      · rw [hj] at hout ⊢
        exact hout
      · rw [hj] at hout ⊢
        exact hout
    rw [heq] at hcases
    obtain h | h | h := hcases
    · exact .inl h
    · exact .inr (.inr (.inr (.inl h)))
    · exact .inr (.inr (.inr (.inr (.inl h))))
  cases hj : s.job with
  | none | putBodies =>
    rw [hj] at hout
    rw [← hout]
    exact .inl (hfail _)
  | acquire | renew =>
    rw [hj] at hout
    dsimp only at hout
    split at hout
    · rw [← hout]
      exact .inl ((Keeps.acked s).trans (.onLease (s := s.acked) hp _ _ _))
    · rw [← hout]
      exact .inl (hfail _)
  | lookup =>
    rw [hj] at hout
    dsimp only at hout
    split at hout
    · exact .inr (.inl ⟨rfl, _, _, hout.symm⟩)
    rw [← hout]
    exact .inl (hfail _)
  | root =>
    rw [hj] at hout
    change s.acked.onRoot sha (gotBody a) = s' at hout
    obtain h | ⟨root, h⟩ := onRoot_cases (s := s.acked) sha (gotBody a)
    · exact .inl (hout ▸ (Keeps.acked s).trans h)
    · exact .inr (.inr (.inl ⟨root, rfl, hout.symm.trans h⟩))
  | leaf =>
    rw [hj] at hout
    rw [← hout]
    exact .inl ((Keeps.acked s).trans (.onLeaf _ _ _))
  | extent =>
    rw [hj] at hout
    rw [← hout]
    exact .inl ((Keeps.acked s).trans (.onExtent _ _ _))
  | putLeaf | putRoot =>
    rw [hj] at hout
    rw [← hout]
    exact .inl ((Keeps.acked s).trans (.onPut _ _ _))
  | release =>
    rw [hj] at hout
    exact .inr (.inr (.inr (.inr (.inr ⟨rfl, hout.symm⟩))))
  | «begin» => exact absurd (.inl hj) hv
  | commit => exact absurd (.inr (.inl hj)) hv
  | abort => exact absurd (.inr (.inr hj)) hv

/-- **What the schedule does**, but for what it keeps: it ends a drain, or
finds nothing to flush. -/
theorem schedule_cases (s : BlockVolume) (t : ℕ) :
    Keeps s (s.schedule N t) ∨
      (s.phase = .ready ∧ s.commit = .idle ∧ s.draining = true ∧ s.flushWanted = false ∧ s.queued = 0 ∧
        s.schedule N t = s.issue .release .release t) ∨
      s.phase = .ready ∧ s.staged = 0 ∧ Keeps { s with flags.flushWanted := false } (s.schedule N t) := by
  generalize hout : s.schedule N t = s'
  unfold schedule at hout
  split at hout
  · split at hout
    · exact .inl (hout ▸ .refl s)
    · exact .inl (hout ▸ .issue s nofun)
  · exact .inl (hout ▸ .issue s nofun)
  · exact .inl (hout ▸ .issue s nofun)
  next hp =>
    split at hout
    · exact .inl (hout ▸ .issue s nofun)
    split at hout
    · exact .inl (hout ▸ .commitNext s t)
    next hc =>
    split at hout
    next hd => exact .inr (.inl ⟨hp, not_not.mp hc, hd.1, hd.2.1, hd.2.2, hout.symm⟩)
    split at hout
    · split at hout
      · refine .inl (hout ▸ Keeps.trans ?_ (.commitNext _ t))
        exact .of_same rfl rfl rfl rfl .rfl (fun _ h => VolCommit.noConfusion h) id
      next hn => exact .inr (.inr ⟨hp, Nat.eq_zero_of_not_pos hn, hout ▸ .fetchLoop _⟩)
    · exact .inl (hout ▸ .fetchLoop _)
  · exact .inl (hout ▸ .refl s)

/-- A piece of the module's step that is not an answer, a schedule or a
request. -/
theorem tick_keeps (sha : Bytes → Digest) {e : VolEvent} (hack : ∀ t a, e ≠ .ack t a)
    (hsched : ∀ t, e ≠ .schedule t) (hserve : ∀ i, e ≠ .serve i) : Keeps s (s.tick sha N e) := by
  cases e with
  | ack t a => exact absurd rfl (hack t a)
  | schedule t => exact absurd rfl (hsched t)
  | serve i => exact absurd rfl (hserve i)
  | openCheck =>
    unfold tick
    dsimp only
    split
    · split
      · exact .failWith s _
      · exact .refl s
    · exact .refl s
  | adminFailed err => exact .failWith s _
  | hand =>
    unfold tick
    dsimp only
    split
    · exact .of_same rfl rfl rfl rfl .rfl id id
    · exact .refl s
  | timeout t =>
    unfold tick
    dsimp only
    split
    · exact .timeoutCheck s t
    · exact .refl s
  | sendBody =>
    unfold tick
    dsimp only
    split
    · exact .bodiesSend s
    · exact .refl s
  | bodyAck t k a =>
    unfold tick
    dsimp only
    split
    · exact .bodiesAck s t k a
    · exact .refl s
  | bodiesEnd t =>
    unfold tick
    dsimp only
    split
    · exact .bodiesEnd s t
    · exact .refl s
  | guard t =>
    unfold tick
    dsimp only
    split
    · unfold leaseGuard
      split
      · exact .failWith s _
      · exact .refl s
    · exact .refl s
  | exec r => exact .refl s
  | submit r => exact .refl s
  | reap => exact .refl s
  | drain => exact .refl s

/-- What the map of a device and its history of writes are read from. -/
def Seen (s s' : BlockVolume) : Prop :=
  (s'.hist.writes, s'.hist.landed, s'.view, s'.params) = (s.hist.writes, s.hist.landed, s.view, s.params)

theorem Keeps.sees (h : Keeps s s') : Seen s s' :=
  congrArg (fun p : BlockHistory × VolView × VolParams => (p.1.writes, p.1.landed, p.2.1, p.2.2)) h.seen

/-- A queued request of a device that has failed. -/
theorem serve_of_failed (hf : s.phase = .failed) :
    (s.serve N i).phase = .failed ∧ Seen s (s.serve N i) ∧ (s.serve N i).exchange = s.exchange ∧
      (s.told = true → (s.serve N i).told = true) ∧ (s.serve N i).draining = s.draining ∧
      (s.serve N i).drained = s.drained ∧ (s.serve N i).lost = s.lost := by
  unfold serve
  cases hi : s.pending i with
  | none => exact ⟨hf, rfl, rfl, id, rfl, rfl, rfl⟩
  | some p =>
    dsimp only
    rw [run_of_failed hf]
    dsimp only
    unfold pushDone
    split
    · exact ⟨hf, rfl, rfl, fun _ => rfl, rfl, rfl, rfl⟩
    · exact ⟨hf, rfl, rfl, fun _ => rfl, rfl, rfl, rfl⟩

/-- What a lookup's answer leaves of it: the device goes on to its root, or ends. -/
theorem onLookup_frame (hf : s.phase ≠ .failed) (status : AdminStatus) (b : Option VolumeBinding) :
    (s.onLookup status b).hist = s.hist ∧ (s.onLookup status b).drained = s.drained ∧
      (s.job = .none → (s.onLookup status b).job = .none) ∧ (s.onLookup status b).phase ≠ .ready ∧
      ((s.onLookup status b).phase = .failed → (s.onLookup status b).lost = decide (0 < s.staged)) := by
  generalize hout : s.onLookup status b = s'
  have hfail (err : VolErrno) (h : s.failWith err = s') : s'.hist = s.hist ∧ s'.drained = s.drained ∧
      (s.job = .none → s'.job = .none) ∧ s'.phase ≠ .ready ∧
      (s'.phase = .failed → s'.lost = decide (0 < s.staged)) := by
    unfold failWith at h
    rw [if_neg hf] at h
    rw [← h]
    exact ⟨rfl, rfl, fun _ => rfl, nofun, fun _ => rfl⟩
  unfold onLookup at hout
  split at hout
  · split at hout
    · split at hout
      · rw [← hout]
        exact ⟨rfl, rfl, id, nofun, nofun⟩
      · exact hfail _ hout
    · exact hfail _ hout
  · exact hfail _ hout
  · exact hfail _ hout
  · exact hfail _ hout
  · exact hfail _ hout

theorem onPut_phase (job : VolJob) (a : AdminAck) : (s.onPut N job a).phase = s.phase := by
  unfold onPut addLeafNew
  split
  · split
    · dsimp only
      split
      · rfl
      · rfl
    · rfl
  · rfl

/-- What a bind that landed leaves of what a drain looks at. -/
theorem applyCommit_frame (s : BlockVolume) (r : UInt64) :
    (s.applyCommit N r).hist.landed = ⟨r, s.newRoot, s.commitCovers⟩ :: s.hist.landed ∧
      (s.applyCommit N r).exchange = s.exchange ∧ (s.applyCommit N r).draining = s.draining ∧
      (s.applyCommit N r).drained = s.drained ∧ (s.applyCommit N r).staged = 0 ∧
      (s.applyCommit N r).phase = s.phase := by
  unfold applyCommit
  dsimp only
  rw [foldl_applySlot]
  refine ⟨rfl, ?_⟩
  split
  · rw [foldl_applyLeaf]
    exact ⟨rfl, rfl, rfl, rfl, rfl⟩
  · exact ⟨rfl, rfl, rfl, rfl, rfl⟩

end BlockVolume

end Loam

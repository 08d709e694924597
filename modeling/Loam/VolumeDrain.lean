import Loam.VolumePipelineRuns

/-!
# A commit that aborts

When a put is refused nothing more is sent, and the commit aborts once nothing that it sent is owed
an answer. A put that was built and that the client has not taken is in the pipe all the same, and
is not sent any more: then the pipe does not empty, and the device fails when it has waited long
enough (`put_in_hand_never_drains`). A state without such a put keeps all that is promised
(`drains_of_unhanded`), and there is none where the client takes every put (`commit_drains`).
-/

namespace Loam.VolumeWriter

open Writer

variable {g : Config} {w : Writer} {i : Input} {as : List Answer}

/-! ## A put that was refused -/

/-- Once a put was refused nothing more is sent. -/
theorem sendBodies_of_refused (h : w.pipeRefused = true) (rest : List Extent) :
    sendBodies g rest w = w := by
  have hoff : w.offered = w := by rw [offered, if_pos h]
  cases rest with
  | nil => exact hoff
  | cons e rest =>
    unfold sendBodies
    rw [hoff, if_pos (.inl h)]

/-- What a pump does once a put was refused: it takes the answers that are there, and goes on to
the abort when none is owed any more. -/
theorem bodiesPump_of_refused (hflow : Flow w) (href : w.pipeRefused = true) (as : List Answer) :
    (w.bodiesPump g i as).failed = true ∨
      w.inHand = none ∧ (w.bodiesPump g i as).commit = .abort ∧ (w.bodiesPump g i as).pipe = [] ∨
      Steady w (w.bodiesPump g i as) ∧ (w.bodiesPump g i as).pipeRefused = true ∧
        (w.bodiesPump g i as).inHand = w.inHand ∧
        (w.bodiesPump g i as).owed.length ≤ w.owed.length ∧
        ∀ a as', as = a :: as' → a.which < w.owed.length →
          (w.bodiesPump g i as).owed.length < w.owed.length := by
  have hflow₀ : Flow { w with free := i.free, net := i.net } := ⟨hflow.perm, hflow.length_le⟩
  obtain ⟨hflow', hsteady, hhand, howed, href'⟩ := recvBodies_spec hflow₀ i.now as
  have hlt : ∀ a as', as = a :: as' → a.which < w.owed.length →
      ({ w with free := i.free, net := i.net }.recvBodies i.now as).owed.length < w.owed.length :=
    fun a as' heq ha => heq ▸ recvBodies_lt hflow₀ i.now ha as'
  have hsent : sendBodies g (w.slots.drop w.cursor) { w with free := i.free, net := i.net } =
      { w with free := i.free, net := i.net } :=
    sendBodies_of_refused (w := { w with free := i.free, net := i.net }) href _
  have hpass : w.passBodies g i as = { w with free := i.free, net := i.net }.recvBodies i.now as :=
    congrArg (recvBodies i.now as) hsent
  unfold bodiesPump
  rw [hpass]
  generalize { w with free := i.free, net := i.net }.recvBodies i.now as = w' at *
  unfold endBodies
  split
  · next hf => exact .inl hf
  split
  · next hdone =>
    have hperm := hflow'.perm
    rw [hdone.2] at hperm
    have hnone : w'.inHand = none :=
      Option.toList_eq_nil_iff.mp (List.append_eq_nil_iff.mp hperm.eq_nil).2
    refine .inr (.inl ⟨hhand.symm.trans hnone, ?_⟩)
    rw [finishBodies]
    dsimp only
    rw [if_pos (href' href)]
    exact ⟨rfl, hdone.2⟩
  · rcases timeoutCheck_eq w' i.now with heq | heq
    · rw [heq]
      exact .inr (.inr ⟨⟨hsteady.extents, hsteady.staged, hsteady.failed, hsteady.job, hsteady.commit,
        hsteady.commits⟩, href' href, hhand, howed, hlt⟩)
    · rw [heq]
      exact .inl (failed_fail w')

theorem issue_eq (w : Writer) (job : Job) (i : Input) : (w.issue job i).commit = w.commit ∧
    (w.issue job i).pipe = w.pipe ∧ Same w (w.issue job i) := by
  obtain ⟨inHand, owed, free, net, heq, -⟩ := hand_eq { w.takeCid with
    job := job, inHand := some w.takeCid.jobCid, jobAt := i.now, free := i.taken }
  have hissue : w.issue job i = _ := heq
  rw [hissue]
  exact ⟨rfl, rfl, rfl, rfl⟩

/-- A commit that aborts goes on to ask for it, or to renew the lease before. -/
theorem schedule_of_abort (habort : w.commit = .abort) (i : Input) :
    (w.schedule g i).commit = .abort ∧ (w.schedule g i).pipe = w.pipe := by
  have hissue : ∀ job, (w.issue job i).commit = .abort ∧ (w.issue job i).pipe = w.pipe := fun job =>
    ⟨(issue_eq w job i).1.trans habort, (issue_eq w job i).2.1⟩
  unfold schedule
  split
  · exact hissue .renew
  rw [if_pos (by rw [habort]; decide), commitNext, habort]
  exact hissue .abort

/-- **A step that meets a refused put**: it takes the answers that are there, and goes on to the
abort when none is owed any more. -/
theorem step_of_refused (h : Inv w) (hf : w.failed = false) (hjob : w.job = .bodies)
    (href : w.pipeRefused = true) (i : Input) :
    (w.step g i).failed = true ∨
      w.inHand = none ∧ (w.step g i).commit = .abort ∧ (w.step g i).pipe = [] ∨
      (w.step g i).failed = false ∧ (w.step g i).job = .bodies ∧ (w.step g i).pipeRefused = true ∧
        (w.step g i).inHand = w.inHand ∧ (w.step g i).owed.length ≤ w.owed.length ∧
        ∀ a as, i.client = .ready → i.answers = a :: as → a.which < w.owed.length →
          (w.step g i).owed.length < w.owed.length := by
  unfold step
  rw [if_neg (by rw [hf]; decide)]
  cases hc : i.client with
  | failed => exact .inl (failed_fail w)
  | waiting => exact .inr (.inr ⟨hf, hjob, href, rfl, Nat.le_refl _, fun _ _ hr => by cases hr⟩)
  | ready =>
    have hpump : w.pump g i = w.bodiesPump g i i.answers := by rw [pump, hjob]
    have hcase := bodiesPump_of_refused (g := g) (i := i) ((h.outstanding hf).bodies hjob).1 href i.answers
    dsimp only
    rw [hpump]
    generalize w.bodiesPump g i i.answers = w' at hcase
    have hguard : w'.leaseGuard g i.now = w' ∨ (w'.leaseGuard g i.now).failed = true := by
      unfold leaseGuard
      split
      · exact .inr (failed_fail w')
      · exact .inl rfl
    have hdead : ∀ w'' : Writer, w''.failed = true →
        (if w''.failed = false ∧ w''.job = .none then w''.schedule g i else w'').failed = true := by
      intro w'' hf''
      rw [if_neg (fun hn => by rw [hf''] at hn; cases hn.1)]
      exact hf''
    rcases hguard with hg | hg
    · rw [hg]
      rcases hcase with hf' | ⟨hnone, habort, hpipe⟩ | ⟨hsteady, href', hhand, howed, hlt⟩
      · exact .inl (hdead { w' with flushWanted := w'.flushWanted || i.flush } hf')
      · refine .inr (.inl ⟨hnone, ?_⟩)
        split
        · obtain ⟨hcommit, hpipe'⟩ := schedule_of_abort (g := g)
            (w := { w' with flushWanted := w'.flushWanted || i.flush }) habort i
          exact ⟨hcommit, hpipe'.trans hpipe⟩
        · exact ⟨habort, hpipe⟩
      · rw [if_neg (fun hn => by cases (hsteady.job.trans hjob).symm.trans hn.2)]
        exact .inr (.inr ⟨hsteady.failed.trans hf, hsteady.job.trans hjob, href', hhand, howed,
          fun a as _ => hlt a as⟩)
    · exact .inl (hdead { w'.leaseGuard g i.now with
        flushWanted := (w'.leaseGuard g i.now).flushWanted || i.flush } hg)

/-! ## The end of an abort -/

/-- Between two commits at most another is asked for. -/
theorem schedule_of_idle (hidle : w.commit = .idle) (i : Input) :
    ((w.schedule g i).commit = .idle ∨ (w.schedule g i).commit = .begin) ∧
      Same w (w.schedule g i) := by
  unfold schedule
  split
  · obtain ⟨hcommit, -, hsame⟩ := issue_eq w .renew i
    exact ⟨.inl (hcommit.trans hidle), hsame⟩
  rw [if_neg (not_not.mpr hidle)]
  split
  · split
    · obtain ⟨hcommit, -, hsame⟩ := issue_eq { w with
        commit := .begin, abandonStatus := 0, beginSince := i.now, retryAt := 0 } .begin i
      refine ⟨.inr hcommit, ?_⟩
      exact ⟨hsame.contents, hsame.commits⟩
    · exact ⟨.inl hidle, rfl, rfl⟩
  · exact ⟨.inl hidle, rfl, rfl⟩

/-- **An abort that is answered ends the commit**: what was staged is staged, and can be committed
again. -/
theorem step_of_abort (h : Inv w) (hf : w.failed = false) (hjob : w.job = .abort)
    (hhand : w.inHand = none) (hready : i.client = .ready) {a : Answer} (has : i.answers = a :: as)
    (ha : a.which < w.owed.length) : (w.step g i).failed = true ∨
      ((w.step g i).commit = .idle ∨ (w.step g i).commit = .begin) ∧ Same w (w.step g i) := by
  have hpump : (w.pump g i).failed = true ∨
      (w.pump g i).commit = .idle ∧ (w.pump g i).failed = false ∧ Same w (w.pump g i) := by
    have hone := (h.outstanding hf).exchange (by rw [hjob]; decide) (by rw [hjob]; decide)
    rw [hhand, Option.toList_none, List.append_nil] at hone
    have hwhich : w.owed[a.which]? = some w.jobCid := by
      rw [hone, List.length_singleton, Nat.lt_one_iff] at ha
      rw [hone, ha]
      rfl
    have hhand' : { w with free := i.taken }.hand = { w with free := i.taken } := by
      rw [hand, hhand]
    have hack : w.pump g i = { w with free := i.taken, owed := w.owed.eraseIdx a.which }.onAck i.now
        w.jobCid a.reply := by
      rw [pump_of_exchange (by rw [hjob]; decide) (by rw [hjob]; decide), hhand', collect,
        if_neg (not_not.mpr hhand), has]
      dsimp only
      rw [hwhich]
    have hanswer : w.pump g i = { w with
        free := i.taken, owed := w.owed.eraseIdx a.which, job := .none, inHand := none }.onVolume i.now
          .abort a.reply := by
      rw [hack]
      unfold onAck
      dsimp only
      rw [if_neg (not_not.mpr rfl), hjob]
    rw [hanswer]
    have hmap := (map_staged (f := fun e => { e with committing := false }) (fun _ => ⟨rfl, rfl, rfl⟩)
      w.slots).2
    cases a.reply with
    | ok d => exact .inr ⟨rfl, hf, hmap, rfl⟩
    | refused status => exact .inr ⟨rfl, hf, hmap, rfl⟩
    | undecodable => exact .inl (failed_fail _)
  have hdead : ∀ w' : Writer, w'.failed = true →
      (if w'.failed = false ∧ w'.job = .none then w'.schedule g i else w').failed = true := by
    intro w' hf'
    rw [if_neg (fun hn => by rw [hf'] at hn; cases hn.1)]
    exact hf'
  unfold step
  rw [if_neg (by rw [hf]; decide), hready]
  dsimp only
  generalize w.pump g i = w' at hpump
  rcases hpump with hf' | ⟨hidle, hf', hsame⟩
  · exact .inl (hdead { w'.leaseGuard g i.now with
      flushWanted := (w'.leaseGuard g i.now).flushWanted || i.flush } (leaseGuard_of_failed hf' i.now))
  unfold leaseGuard
  split
  · exact .inl (hdead { w'.fail with flushWanted := w'.fail.flushWanted || i.flush } (failed_fail w'))
  split
  · obtain ⟨hcommit, hsame'⟩ := schedule_of_idle (g := g)
      (w := { w' with flushWanted := w'.flushWanted || i.flush }) hidle i
    exact .inr ⟨hcommit, hsame'.contents.trans hsame.contents, hsame'.commits.trans hsame.commits⟩
  · exact .inr ⟨.inl hidle, hsame.contents, hsame.commits⟩

/-! ## The claim about a commit -/

/-- The writer after the steps of a run. -/
def reached (g : Config) (slots : List Extent) (cid : UInt32) (now : ℕ) (is : List Input) : Writer :=
  Run.run (Writer.step g) (Writer.ready slots cid now) is

/-- The pipe is as long as the puts are that the store has, and has not answered. -/
def Conserved (w : Writer) : Prop :=
  w.failed = false → w.pipe.length = if w.job = .bodies then w.owed.length else 0

/-- A step that the store has an answer for. -/
def Answers (w : Writer) (i : Input) : Prop :=
  i.Takes ∧ i.client = .ready ∧
    (w.job = .bodies → ∃ a as, i.answers = a :: as ∧ a.which < w.owed.length)

/-- What is promised of a writer. -/
structure Drains (g : Config) (w : Writer) : Prop where
  /-- The pipe is as long as what is owed. -/
  conserved : Conserved w
  /-- After a refused put the writer waits only as long as something is owed. -/
  waits : w.failed = false → w.job = .bodies → w.pipeRefused = true → w.owed ≠ []
  /-- When all of it is answered the pipe is empty, and the commit aborts or the device fails. -/
  drains : w.failed = false → w.job = .bodies → w.pipeRefused = true → ∀ is,
    Run.AllSteps (Writer.step g) Answers w is → w.owed.length ≤ is.length →
    ∃ k ≤ is.length, (Run.run (Writer.step g) w (is.take k)).failed = true ∨
      (Run.run (Writer.step g) w (is.take k)).commit = .abort ∧
        (Run.run (Writer.step g) w (is.take k)).pipe = []
  /-- When the abort is answered the device is usable, with all that was staged, or it fails. -/
  aborts : w.failed = false → w.job = .abort → w.inHand = none → ∀ i a as, i.client = .ready →
    i.answers = a :: as → a.which < w.owed.length → (w.step g i).failed = true ∨
      ((w.step g i).commit = .idle ∨ (w.step g i).commit = .begin) ∧
        (w.step g i).contents = w.contents
  accounted : w.staged = w.contents.length
  /-- A step keeps them, unless it commits all of them, or the device fails. -/
  keeps : ∀ i, Progress w (w.step g i)

variable {slots : List Extent} {cid : UInt32} {now : ℕ} {is : List Input}

theorem reached_inv (g : Config) (slots : List Extent) (cid : UInt32) (now : ℕ) (is : List Input) :
    Inv (reached g slots cid now is) :=
  Run.invariant_all (I := Inv) (fun _ i h => (step_kept h i).inv) (ready_inv slots cid now) is

/-- **The pipe is what is owed, and the put in hand.** -/
theorem conserved_iff (h : Inv w) : Conserved w ↔ Unhanded w := by
  have hlen : w.failed = false → w.job = .bodies →
      w.pipe.length = w.owed.length + w.inHand.toList.length := by
    intro hf hj
    have hperm := (((h.outstanding hf).bodies hj).1.perm).length_eq
    rwa [List.length_append, List.length_map, eq_comm] at hperm
  constructor
  · intro hc hf hj
    have hpipe := hc hf
    rw [if_pos hj, hlen hf hj] at hpipe
    cases hw : w.inHand with
    | none => rfl
    | some c =>
      rw [hw] at hpipe
      simp at hpipe
  · intro hu hf
    split
    · next hj =>
      rw [hlen hf hj, hu hf hj]
      rfl
    · next hj =>
      rw [(h.outstanding hf).pipe hj]
      rfl

/-- **A refused put drains the pipe**, if none was in hand: the answers that are owed come, and
nothing else is waited for. -/
theorem drains_of_refused (h : Inv w) (hf : w.failed = false) (hjob : w.job = .bodies)
    (href : w.pipeRefused = true) (hhand : w.inHand = none)
    (hans : Run.AllSteps (Writer.step g) Answers w is) (hlen : w.owed.length ≤ is.length) :
    ∃ k ≤ is.length, (Run.run (Writer.step g) w (is.take k)).failed = true ∨
      (Run.run (Writer.step g) w (is.take k)).commit = .abort ∧
        (Run.run (Writer.step g) w (is.take k)).pipe = [] := by
  have hpipe := (((h.outstanding hf).bodies hjob).2 href)
  have hperm := ((h.outstanding hf).bodies hjob).1.perm
  induction is generalizing w with
  | nil =>
    have howed := List.eq_nil_of_length_eq_zero (Nat.le_zero.mp hlen)
    rw [howed, hhand] at hperm
    exact absurd (List.map_eq_nil_iff.mp hperm.nil_eq.symm) hpipe
  | cons i is ih =>
    obtain ⟨⟨htakes, hready, hanswer⟩, hrest⟩ := hans
    obtain ⟨a, as, has, ha⟩ := hanswer hjob
    have hkept := step_kept (g := g) h i
    rcases step_of_refused (g := g) h hf hjob href i with
      hf' | ⟨-, habort⟩ | ⟨hf', hjob', href', hhand', -, hlt⟩
    · exact ⟨1, Nat.succ_le_succ (Nat.zero_le _), .inl hf'⟩
    · exact ⟨1, Nat.succ_le_succ (Nat.zero_le _), .inr habort⟩
    · have hless := hlt a as hready has ha
      rw [List.length_cons] at hlen
      obtain ⟨k, hk, hend⟩ := ih hkept.inv hf' hjob' href' (hhand'.trans hhand) hrest (by omega)
        (((hkept.inv.outstanding hf').bodies hjob').2 href')
        ((hkept.inv.outstanding hf').bodies hjob').1.perm
      exact ⟨k + 1, Nat.succ_le_succ hk, hend⟩

theorem drains_of_unhanded (h : Inv w) (hu : Unhanded w) : Drains g w where
  conserved := (conserved_iff h).mpr hu
  waits hf hjob href hnil := by
    have hb := (h.outstanding hf).bodies hjob
    have hperm := hb.1.perm
    rw [hnil, hu hf hjob] at hperm
    exact hb.2 href (List.map_eq_nil_iff.mp hperm.nil_eq.symm)
  drains hf hjob href is hans hlen := drains_of_refused h hf hjob href (hu hf hjob) hans hlen
  aborts hf hjob hhand i a as hready has ha :=
    (step_of_abort h hf hjob hhand hready has ha).imp id fun hs => ⟨hs.1, hs.2.contents⟩
  accounted := by
    rw [h.accounted.staged, contents, List.length_map, List.countP_eq_length_filter]
  keeps i := (step_kept h i).progress

/-- **A commit drains just where no put is left in hand**; and none is if the client takes every put
that it is offered. -/
theorem commit_drains (g : Config) (slots : List Extent) (cid : UInt32) (now : ℕ) (is : List Input) :
    ((∀ i ∈ is, i.Takes) → Drains g (reached g slots cid now is)) ∧
      (Drains g (reached g slots cid now is) ↔ Unhanded (reached g slots cid now is)) := by
  have hinv := reached_inv g slots cid now is
  refine ⟨fun htakes => ?_, fun hd => (conserved_iff hinv).mp hd.conserved, drains_of_unhanded hinv⟩
  have hall : Run.AllSteps (Writer.step g) (fun _ i => i.Takes) (Writer.ready slots cid now) is :=
    Run.AllSteps.of_forall fun i hi _ => htakes i hi
  have hrun := Run.invariant (I := fun w => Inv w ∧ Unhanded w)
    (fun w i hw hi => ⟨(step_kept hw.1 i).inv, (step_kept hw.1 i).unhanded hi hw.2⟩)
    ⟨ready_inv slots cid now, fun _ hj => by cases hj⟩ hall
  exact drains_of_unhanded hrun.1 hrun.2

/-- A put that is in hand when another is refused is never handed over, whatever comes. -/
theorem stuck_run (h : Inv w) (hf : w.failed = false) (hjob : w.job = .bodies)
    (href : w.pipeRefused = true) (hhand : w.inHand ≠ none) (is : List Input) :
    (Run.run (Writer.step g) w is).failed = true ∨ (Run.run (Writer.step g) w is).job = .bodies ∧
      (Run.run (Writer.step g) w is).pipe ≠ [] := by
  induction is generalizing w with
  | nil => exact .inr ⟨hjob, ((h.outstanding hf).bodies hjob).2 href⟩
  | cons i is ih =>
    have hinv := (step_kept (g := g) h i).inv
    rcases step_of_refused (g := g) h hf hjob href i with hf' | ⟨hnone, -⟩ | ⟨hf', hjob', href', hhand', -, -⟩
    · have hstays : ∀ (w' : Writer) (is : List Input), w'.failed = true →
          (Run.run (Writer.step g) w' is).failed = true := fun w' is =>
        fun hw => Run.invariant_all (I := fun w' : Writer => w'.failed = true)
          (fun w' i hw => by rw [step, if_pos hw]; exact hw) hw is
      exact .inl (hstays _ is hf')
    · exact absurd hnone hhand
    · exact ih hinv hf' hjob' href' (hhand'.symm ▸ hhand)

/-! ## Three extents -/

/-- A volume of depth 1, with extents of 512 bytes. -/
def smallVolume : Config := ⟨1536, 512, 9, 1, 30000, 32768, 32864⟩

/-- An extent that is staged. -/
def stagedExtent (idx : ℕ) : Extent := ⟨.staged, false, idx, [], [1]⟩

/-- A step in which the client takes so many puts, and these answers are there. -/
def stepWith (free : Bool) (answers : List Answer) : Input :=
  ⟨1, .ready, true, free, [false], answers, [], [], true⟩

/-- The first put is refused while the third waits for the client. -/
def refusedRun : List Input :=
  [stepWith true [], stepWith true [⟨0, .ok []⟩], stepWith true [], stepWith false [⟨0, .refused 4⟩],
    stepWith true [⟨0, .ok []⟩]]

/-- Every put is taken, and the second is refused. -/
def takenRun : List Input :=
  [stepWith true [], stepWith true [⟨0, .ok []⟩], stepWith true [⟨0, .ok []⟩, ⟨0, .refused 4⟩]].map
    fun i => { i with net := [] }

/-- The writer of three extents after a run. -/
def afterRun (is : List Input) : Writer :=
  reached smallVolume [stagedExtent 0, stagedExtent 1, stagedExtent 2] 1 0 is

/-- **A put that the client has not taken when another is refused stays in the pipe**: nothing is
owed, and the writer waits for it until it fails, which drops what was staged. -/
theorem put_in_hand_never_drains :
    ((afterRun refusedRun).failed = false ∧ (afterRun refusedRun).staged = 3 ∧
      (afterRun refusedRun).pipe.length = 1 ∧ (afterRun refusedRun).owed = []) ∧
    ¬ Drains smallVolume (afterRun refusedRun) ∧
    ∀ is, (afterRun (refusedRun ++ is)).failed = true ∨ (afterRun (refusedRun ++ is)).pipe ≠ [] := by
  have hf : (afterRun refusedRun).failed = false := by decide
  have hjob : (afterRun refusedRun).job = .bodies := by decide
  have href : (afterRun refusedRun).pipeRefused = true := by decide
  have howed : (afterRun refusedRun).owed = [] := by decide
  refine ⟨⟨hf, by decide, by decide, howed⟩, fun hd => hd.waits hf hjob href howed, fun is => ?_⟩
  have hrun : afterRun (refusedRun ++ is) = Run.run (Writer.step smallVolume) (afterRun refusedRun) is :=
    Run.run_append
  rw [hrun]
  exact (stuck_run (reached_inv _ _ _ _ _) hf hjob href (by decide) is).imp id And.right

theorem taken_run_drains : Drains smallVolume (afterRun takenRun) :=
  (commit_drains smallVolume _ 1 0 takenRun).1 fun i hi => by
    simp only [takenRun, List.map_cons, List.map_nil, List.mem_cons, List.not_mem_nil, or_false] at hi
    rcases hi with rfl | rfl | rfl <;> exact ⟨rfl, fun b hb => by cases hb⟩

end Loam.VolumeWriter

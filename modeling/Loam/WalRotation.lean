import Loam.WalInverse

/-!
# Rotating a log

A log that has served is replaced by one that holds a few seed records. The
replacement is written beside it, fenced, and renamed over it, so that a crash
finds the one or the other. Each stage may be undecided and may fail. A
rotation that fails before the rename is decided leaves the old log in service,
with its descriptor and its appender as they were (`RotatePoll.skipped`).
One that cannot open the log again after the rename has no descriptor to go
back to, and says so (`RotatePoll.lost`).

A request that is refused has had no effect, and a rename is durable when it is
decided: this is what the provider owes.
-/

namespace Loam

/-! ## Opening -/

/-- Where an open is. -/
inductive OpenPhase where
  | file
  /-- Asking what the provider can do. -/
  | caps
  | name
deriving DecidableEq

/-- What an open has come to. -/
inductive OpenPoll where
  | pending (phase : OpenPhase)
  | ready
  | failed
deriving DecidableEq

/-- One call of an open that may create the file (`WalOpener::poll`). The answer
to what the provider can do is whether it fences names; it is asked again until
there is one. -/
def walOpenCall : OpenPhase → FsAnswer → OpenPoll
  | .file, .again => .pending .file
  | .file, .failed => .failed
  | .file, .done _ => .pending .caps
  | .caps, .again | .caps, .failed => .pending .caps
  | .caps, .done n => if n = 0 then .failed else .pending .name
  | .name, .again => .pending .name
  | .name, .failed => .failed
  | .name, .done _ => .ready

/-! ## Seeds -/

/-- A seed record, framed into room for so many bytes: empty when the seed skips
it, none when the rotation is given up (`frame_seed_record`). -/
def frameSeedRecord (room : ℕ) (seed : Option Bytes) : Option Bytes :=
  if room < walHeader then none
  else
    match seed with
    | none => none
    | some p =>
      if p = [] then some []
      else if maxWalRec < p.length ∨ room < walHeader + p.length then none
      else some (walFrame p)

/-- The records of the first seeds. -/
def seeded (seeds : ℕ → Option Bytes) (count : ℕ) : List Bytes :=
  ((List.range count).filterMap seeds).filter (· ≠ [])

/-! ## The rotation -/

/-- Where a rotation is. -/
inductive RotatePhase where
  | idle
  /-- Asking what the provider can do. -/
  | caps
  | clear
  | create
  | seed
  | fsync
  | rename
  | reopen
  /-- Given up: removing the staging log. -/
  | discard
deriving DecidableEq

/-- What a rotation has come to. -/
inductive RotatePoll where
  | pending
  | rotated
  /-- The old log is still in service. -/
  | skipped
  | lost
deriving DecidableEq

/-- A rotation (`WalRotator`). -/
structure WalRotator where
  phase : RotatePhase
  framed : Option Bytes
  seedAt : ℕ
  written : ℕ
  opener : OpenPhase
deriving DecidableEq

/-- A module's log while it is rotated. -/
structure RotateWorld where
  live : WalWorld
  isOpen : Bool
  stage : Option WalFile
  placed : Option WalFile
  rotator : WalRotator
  outcome : RotatePoll
deriving DecidableEq

namespace RotateWorld

/-- A rotation begins; a crashed one may have left a file beside the log. -/
def start (live : WalWorld) (stage : Option WalFile) : RotateWorld :=
  ⟨live, true, stage, none, ⟨.caps, none, 0, 0, .file⟩, .pending⟩

/-- It goes on to another phase. -/
def goto (w : RotateWorld) (phase : RotatePhase) : RotateWorld :=
  { w with rotator := { w.rotator with phase := phase } }

/-- It has come to something. -/
def ends (w : RotateWorld) (outcome : RotatePoll) : RotateWorld :=
  { w.goto .idle with outcome := outcome }

/-- The next seed is framed, or skipped; or all are written. -/
def frame (w : RotateWorld) (seeds : ℕ → Option Bytes) (count room : ℕ) : RotateWorld :=
  if count ≤ w.rotator.seedAt then w.goto .fsync
  else
    match frameSeedRecord room (seeds w.rotator.seedAt) with
    | none => w.goto .discard
    | some [] => { w with rotator := { w.rotator with seedAt := w.rotator.seedAt + 1 } }
    | some (b :: bs) => { w with rotator := { w.rotator with framed := some (b :: bs), written := 0 } }

/-- Bytes of a frame are written; `n` at most. -/
def write (w : RotateWorld) (fr : Bytes) (n : ℕ) : RotateWorld :=
  let chunk := (fr.drop w.rotator.written).take n
  let w := { w with stage := w.stage.map (WalFile.write · chunk) }
  if w.rotator.written + chunk.length < fr.length then
    { w with rotator := { w.rotator with written := w.rotator.written + chunk.length } }
  else { w with rotator := { w.rotator with framed := none, seedAt := w.rotator.seedAt + 1 } }

/-- One turn of the rotation's loop: the call it makes, and what it does with
the answer (`WalRotator::rotate_seeded`). Framing a seed makes no call. -/
def turn (seeds : ℕ → Option Bytes) (count room : ℕ) (w : RotateWorld) (a : FsAnswer) :
    RotateWorld :=
  match w.rotator.phase with
  | .idle => w
  | .caps =>
    match a with
    | .again | .failed => w
    | .done n => if n = 0 then w.ends .skipped else w.goto .clear
  | .clear =>
    match a with
    | .again => w
    | .failed => w.ends .skipped
    | .done _ => { w with stage := none }.goto .create
  | .create =>
    match a with
    | .again => w
    | .failed => w.ends .skipped
    -- A file that is there is opened as it is.
    | .done _ => { w with stage := some ((w.stage.getD ⟨[], 0, 0⟩).seek 0) }.goto .seed
  | .seed =>
    match w.rotator.framed with
    | none => w.frame seeds count room
    | some fr =>
      match a with
      | .again => w
      | .failed => w.goto .discard
      | .done n => if n = 0 then w.goto .discard else w.write fr n
  | .fsync =>
    match a with
    | .again => w
    | .failed => w.goto .discard
    | .done _ => { w with stage := w.stage.map WalFile.fence }.goto .rename
  | .rename =>
    match a with
    | .again => w
    | .failed => w.goto .discard
    | .done _ => { w with placed := w.stage, stage := none, isOpen := false }.goto .reopen
  | .reopen =>
    match walOpenCall w.rotator.opener a with
    | .pending phase => { w with rotator := { w.rotator with opener := phase } }
    | .ready => w.ends .rotated
    | .failed => w.ends .lost
  | .discard =>
    match a with
    | .again => w
    | .failed => w.ends .skipped
    | .done _ => { w with stage := none }.ends .skipped

/-- What a crash leaves of a file. -/
def LeavesFile (f : WalFile) (bytes : Bytes) : Prop :=
  ∃ n, f.fenced ≤ n ∧ bytes = f.bytes.take n

/-- A crash leaves at the log's path what it leaves of the file that has that
name; while a rename is undecided it is the one or the other. -/
def Leaves (w : RotateWorld) (bytes : Bytes) : Prop :=
  match w.placed with
  | some f => LeavesFile f bytes
  | none => w.live.Leaves bytes ∨
      (w.rotator.phase = .rename ∧ ∃ f, w.stage = some f ∧ LeavesFile f bytes)

/-- The rotation of a log after so many answers. -/
def after (seeds : ℕ → Option Bytes) (count room : ℕ) (live : WalWorld) (stage : Option WalFile)
    (answers : List FsAnswer) : RotateWorld :=
  Run.run (turn seeds count room) (start live stage) answers

/-! ## What stands beside the log -/

variable {seeds : ℕ → Option Bytes} {count room k : ℕ} {w : RotateWorld} {live : WalWorld}

theorem seeded_succ (seeds : ℕ → Option Bytes) (k : ℕ) :
    seeded seeds (k + 1) = seeded seeds k ++ (seeds k).toList.filter (· ≠ []) := by
  unfold seeded
  rw [List.range_succ, List.filterMap_append, List.filter_append]
  cases h : seeds k <;> simp [h]

/-- A seed that is framed is a record; one that is skipped is none. -/
theorem seeded_frame {fr : Bytes} (h : frameSeedRecord room (seeds k) = some fr) :
    (fr = [] ∧ seeded seeds (k + 1) = seeded seeds k) ∨
      ∃ p, WalOk p ∧ fr = walFrame p ∧ seeded seeds (k + 1) = seeded seeds k ++ [p] := by
  rw [seeded_succ]
  unfold frameSeedRecord at h
  split at h
  · cases h
  split at h
  · cases h
  next p hp =>
  rw [hp]
  split at h
  · next hnil =>
    refine .inl ⟨(Option.some.inj h).symm, ?_⟩
    rw [hnil]
    exact List.append_nil _
  next hne =>
  split at h
  · cases h
  next hfit =>
  refine .inr ⟨p, ⟨List.length_pos_of_ne_nil hne, ?_⟩, (Option.some.inj h).symm, ?_⟩
  · exact Nat.not_lt.mp fun hlt => hfit (.inl hlt)
  · simp [hne]

/-- A file that has the seeds, fenced. -/
structure Built (seeds : ℕ → Option Bytes) (count : ℕ) (f : WalFile) : Prop where
  bytes : f.bytes = walFraming.frames (seeded seeds count)
  fenced : f.fenced = f.bytes.length
  ok : ∀ p ∈ seeded seeds count, WalOk p

/-- A crash leaves it whole, and a replay reads the seeds. -/
theorem Built.leaves {f : WalFile} (h : Built seeds count f) {bytes : Bytes}
    (hl : LeavesFile f bytes) :
    bytes = walFraming.frames (seeded seeds count) ∧ walRecords bytes = seeded seeds count := by
  obtain ⟨n, hn, rfl⟩ := hl
  rw [h.fenced] at hn
  rw [List.take_of_length_le hn, h.bytes]
  refine ⟨rfl, ?_⟩
  have hread := walFraming.records_frames_append h.ok []
  have hempty : walFraming.records [] = [] :=
    walFraming.records_of_head (walHead_of_short (l := []) walHeader_pos)
  rw [List.append_nil, hempty, List.append_nil] at hread
  exact hread

/-- The staging log while the seeds are written: the frames of the first, and
what is written of the next. -/
structure Seeding (seeds : ℕ → Option Bytes) (count : ℕ) (r : WalRotator) (f : WalFile) : Prop where
  le : r.seedAt ≤ count
  ok : ∀ p ∈ seeded seeds r.seedAt, WalOk p
  offset : f.offset = f.bytes.length
  between : r.framed = none → f.bytes = walFraming.frames (seeded seeds r.seedAt)
  within : ∀ fr, r.framed = some fr → ∃ p, WalOk p ∧ fr = walFrame p ∧ r.seedAt < count ∧
    seeded seeds (r.seedAt + 1) = seeded seeds r.seedAt ++ [p] ∧ r.written < fr.length ∧
    f.bytes = walFraming.frames (seeded seeds r.seedAt) ++ fr.take r.written

/-- What there is in each phase. -/
def Stands (seeds : ℕ → Option Bytes) (count : ℕ) (w : RotateWorld) : RotatePhase → Prop
  | .caps | .clear => w.placed = none ∧ w.rotator.framed = none ∧ w.rotator.seedAt = 0
  | .create => w.placed = none ∧ w.rotator.framed = none ∧ w.rotator.seedAt = 0 ∧ w.stage = none
  | .seed => w.placed = none ∧ ∃ f, w.stage = some f ∧ Seeding seeds count w.rotator f
  | .fsync => w.placed = none ∧ ∃ f, w.stage = some f ∧
      f.bytes = walFraming.frames (seeded seeds count) ∧ ∀ p ∈ seeded seeds count, WalOk p
  | .rename => w.placed = none ∧ ∃ f, w.stage = some f ∧ Built seeds count f
  | .reopen => ∃ f, w.placed = some f ∧ Built seeds count f
  | .discard => w.placed = none
  | .idle => (w.outcome = .skipped ∧ w.placed = none) ∨
      ((w.outcome = .rotated ∨ w.outcome = .lost) ∧ ∃ f, w.placed = some f ∧ Built seeds count f)

/-- **Where a rotation is.** -/
structure At (seeds : ℕ → Option Bytes) (count : ℕ) (live : WalWorld) (w : RotateWorld) : Prop where
  live : w.live = live
  opened : w.isOpen = w.placed.isNone
  /-- It has come to nothing before its end. -/
  going : w.rotator.phase ≠ .idle → w.outcome = .pending
  stands : w.Stands seeds count w.rotator.phase

theorem at_start (live : WalWorld) (stage : Option WalFile) :
    At seeds count live (start live stage) :=
  ⟨rfl, rfl, fun _ => rfl, rfl, rfl, rfl⟩

theorem At.goto (h : At seeds count live w) (hp : w.rotator.phase ≠ .idle) {phase : RotatePhase}
    (hs : (w.goto phase).Stands seeds count phase) : At seeds count live (w.goto phase) :=
  ⟨h.live, h.opened, fun _ => h.going hp, hs⟩

theorem At.skip (h : At seeds count live w) (hn : w.placed = none) :
    At seeds count live (w.ends .skipped) :=
  ⟨h.live, h.opened, fun hne => absurd rfl hne, .inl ⟨rfl, hn⟩⟩

theorem At.frame (h : At seeds count live w) (hp : w.rotator.phase = .seed)
    (hf : w.rotator.framed = none) : At seeds count live (w.frame seeds count room) := by
  have hbusy : w.rotator.phase ≠ .idle := by rw [hp]; nofun
  have hs := h.stands
  rw [hp] at hs
  obtain ⟨hn, f, hstage, hseed⟩ := hs
  have hbytes := hseed.between hf
  unfold RotateWorld.frame
  split
  · next hall =>
    refine h.goto hbusy ⟨hn, f, hstage, ?_⟩
    rw [← Nat.le_antisymm hseed.le hall]
    exact ⟨hbytes, hseed.ok⟩
  next hmore =>
  split
  · exact h.goto hbusy hn
  · next hskip =>
    obtain ⟨-, heq⟩ | ⟨p, -, hfr, -⟩ := seeded_frame hskip
    · refine ⟨h.live, h.opened, h.going, ?_⟩
      show Stands seeds count _ w.rotator.phase
      rw [hp]
      refine ⟨hn, f, hstage, Nat.lt_of_not_le hmore, ?_, hseed.offset, fun _ => ?_, ?_⟩
      · rw [heq]
        exact hseed.ok
      · rw [heq]
        exact hbytes
      · intro fr hfr
        cases hf.symm.trans hfr
    · have hlen := congrArg List.length hfr
      rw [length_walFrame, List.length_nil, walHeader] at hlen
      omega
  · next b bs hframe =>
    obtain ⟨hnil, -⟩ | ⟨p, hok, hfr, heq⟩ := seeded_frame hframe
    · cases hnil
    · refine ⟨h.live, h.opened, h.going, ?_⟩
      show Stands seeds count _ w.rotator.phase
      rw [hp]
      refine ⟨hn, f, hstage, hseed.le, hseed.ok, hseed.offset, nofun, fun fr hfr' => ?_⟩
      obtain rfl := Option.some.inj hfr'
      refine ⟨p, hok, hfr, Nat.lt_of_not_le hmore, heq, Nat.succ_pos _, ?_⟩
      rw [hbytes]
      exact (List.append_nil _).symm

/-- Bytes of a seed's frame are written. -/
theorem At.write (h : At seeds count live w) (hp : w.rotator.phase = .seed) {fr : Bytes}
    (hf : w.rotator.framed = some fr) (n : ℕ) : At seeds count live (w.write fr n) := by
  have hs := h.stands
  rw [hp] at hs
  obtain ⟨hn, f, hstage, hseed⟩ := hs
  obtain ⟨p, hok, rfl, hmore, hsucc, hlt, hbytes⟩ := hseed.within fr hf
  obtain ⟨hwrite, hoff⟩ := WalWorld.write_at_end hseed.offset
    (((walFrame p).drop w.rotator.written).take n)
  have hchunk : (walFrame p).take (w.rotator.written +
        (((walFrame p).drop w.rotator.written).take n).length)
      = (walFrame p).take w.rotator.written ++ ((walFrame p).drop w.rotator.written).take n := by
    rw [List.take_add]
    congr 1
    rw [List.length_take]
    exact List.take_eq_take_min.symm
  unfold RotateWorld.write
  dsimp only
  generalize hc : ((walFrame p).drop w.rotator.written).take n = chunk at *
  have hfile : (f.write chunk).bytes = walFraming.frames (seeded seeds w.rotator.seedAt)
      ++ (walFrame p).take (w.rotator.written + chunk.length) := by
    rw [hwrite, hbytes, hchunk, List.append_assoc]
  have hstage' : w.stage.map (WalFile.write · chunk) = some (f.write chunk) := by
    rw [hstage]
    rfl
  split
  · next hshort =>
    refine ⟨h.live, h.opened, h.going, ?_⟩
    show Stands seeds count _ w.rotator.phase
    rw [hp]
    refine ⟨hn, _, hstage', hseed.le, hseed.ok, hoff, fun hnone => ?_, fun fr' hfr' => ?_⟩
    · cases hf.symm.trans hnone
    · obtain rfl := Option.some.inj (hf.symm.trans hfr')
      exact ⟨p, hok, rfl, hmore, hsucc, hshort, hfile⟩
  · next hfull =>
    rw [List.take_of_length_le (Nat.not_lt.mp hfull)] at hfile
    refine ⟨h.live, h.opened, h.going, ?_⟩
    show Stands seeds count _ w.rotator.phase
    rw [hp]
    refine ⟨hn, _, hstage', hmore, ?_, hoff, fun _ => ?_, nofun⟩
    · show ∀ q ∈ seeded seeds (w.rotator.seedAt + 1), WalOk q
      rw [hsucc]
      intro q hq
      obtain hq | hq := List.mem_append.mp hq
      · exact hseed.ok q hq
      · exact List.mem_singleton.mp hq ▸ hok
    · show (f.write chunk).bytes = walFraming.frames (seeded seeds (w.rotator.seedAt + 1))
      rw [hfile, hsucc, walFraming.frames_append]
      exact congrArg _ (List.append_nil _).symm

/-- **Every turn keeps the rotation where it is.** -/
theorem At.turn (h : At seeds count live w) (a : FsAnswer) :
    At seeds count live (w.turn seeds count room a) := by
  have hs := h.stands
  unfold RotateWorld.turn
  cases hp : w.rotator.phase with
  | idle => exact h
  | caps =>
    rw [hp] at hs
    have hbusy : w.rotator.phase ≠ .idle := by rw [hp]; nofun
    cases a with
    | again | failed => exact h
    | done n =>
      dsimp only
      split
      · exact h.skip hs.1
      · exact h.goto hbusy hs
  | clear =>
    rw [hp] at hs
    have hbusy : w.rotator.phase ≠ .idle := by rw [hp]; nofun
    cases a with
    | again => exact h
    | failed => exact h.skip hs.1
    | done n => exact ⟨h.live, h.opened, fun _ => h.going hbusy, hs.1, hs.2.1, hs.2.2, rfl⟩
  | create =>
    rw [hp] at hs
    have hbusy : w.rotator.phase ≠ .idle := by rw [hp]; nofun
    obtain ⟨hn, hframed, hzero, hnone⟩ := hs
    cases a with
    | again => exact h
    | failed => exact h.skip hn
    | done n =>
      refine ⟨h.live, h.opened, fun _ => h.going hbusy, hn, _, rfl, ?_⟩
      rw [hnone]
      refine ⟨?_, ?_, rfl, fun _ => ?_, fun fr hfr => ?_⟩
      · exact Nat.le_trans (Nat.le_of_eq hzero) (Nat.zero_le count)
      · show ∀ p ∈ seeded seeds w.rotator.seedAt, WalOk p
        rw [hzero]
        exact nofun
      · show ([] : Bytes) = walFraming.frames (seeded seeds w.rotator.seedAt)
        rw [hzero]
        rfl
      · cases hframed.symm.trans hfr
  | seed =>
    have hbusy : w.rotator.phase ≠ .idle := by rw [hp]; nofun
    rw [hp] at hs
    dsimp only
    cases hf : w.rotator.framed with
    | none => exact h.frame hp hf
    | some fr =>
      cases a with
      | again => exact h
      | failed => exact h.goto hbusy hs.1
      | done n =>
        dsimp only
        split
        · exact h.goto hbusy hs.1
        · exact h.write hp hf n
  | fsync =>
    rw [hp] at hs
    have hbusy : w.rotator.phase ≠ .idle := by rw [hp]; nofun
    obtain ⟨hn, f, hstage, hbytes, hok⟩ := hs
    cases a with
    | again => exact h
    | failed => exact h.goto hbusy hn
    | done n =>
      refine ⟨h.live, h.opened, fun _ => h.going hbusy, hn, f.fence, ?_, hbytes, rfl, hok⟩
      show w.stage.map WalFile.fence = some f.fence
      rw [hstage]
      rfl
  | rename =>
    rw [hp] at hs
    have hbusy : w.rotator.phase ≠ .idle := by rw [hp]; nofun
    obtain ⟨hn, f, hstage, hbuilt⟩ := hs
    cases a with
    | again => exact h
    | failed => exact h.goto hbusy hn
    | done n =>
      refine ⟨h.live, ?_, fun _ => h.going hbusy, f, hstage, hbuilt⟩
      show false = w.stage.isNone
      rw [hstage]
      rfl
  | reopen =>
    rw [hp] at hs
    have hbusy : w.rotator.phase ≠ .idle := by rw [hp]; nofun
    dsimp only
    split
    · refine ⟨h.live, h.opened, h.going, ?_⟩
      show Stands seeds count _ w.rotator.phase
      rw [hp]
      exact hs
    · exact ⟨h.live, h.opened, fun hne => absurd rfl hne, .inr ⟨.inl rfl, hs⟩⟩
    · exact ⟨h.live, h.opened, fun hne => absurd rfl hne, .inr ⟨.inr rfl, hs⟩⟩
  | discard =>
    rw [hp] at hs
    cases a with
    | again => exact h
    | failed => exact h.skip hs
    | done n => exact ⟨h.live, h.opened, fun hne => absurd rfl hne, .inl ⟨rfl, hs⟩⟩

theorem at_after (live : WalWorld) (stage : Option WalFile) (answers : List FsAnswer) :
    At seeds count live (after seeds count room live stage answers) :=
  Run.invariant_all (I := At seeds count live) (fun _ a h => h.turn a) (at_start live stage) answers

/-! ## What a rotation comes to -/

/-- A crash leaves the old log as it would without a rotation, or the seeds. -/
theorem At.leaves (h : At seeds count live w) {bytes : Bytes} (hl : w.Leaves bytes) :
    (w.placed = none ∧ live.Leaves bytes) ∨
      (bytes = walFraming.frames (seeded seeds count) ∧ walRecords bytes = seeded seeds count) := by
  have hs := h.stands
  unfold RotateWorld.Leaves at hl
  cases hplaced : w.placed with
  | none =>
    rw [hplaced] at hl
    obtain hold | ⟨hphase, f, hstage, hfile⟩ := hl
    · exact .inl ⟨rfl, h.live ▸ hold⟩
    · rw [hphase] at hs
      obtain ⟨-, g, hstage', hbuilt⟩ := hs
      obtain rfl := Option.some.inj (hstage.symm.trans hstage')
      exact .inr (hbuilt.leaves hfile)
  | some f =>
    rw [hplaced] at hl
    refine .inr ?_
    cases hp : w.rotator.phase with
    | reopen =>
      rw [hp] at hs
      obtain ⟨g, hg, hbuilt⟩ := hs
      obtain rfl := Option.some.inj (hplaced.symm.trans hg)
      exact hbuilt.leaves hl
    | idle =>
      rw [hp] at hs
      obtain ⟨-, hn⟩ | ⟨-, g, hg, hbuilt⟩ := hs
      · cases hplaced.symm.trans hn
      · obtain rfl := Option.some.inj (hplaced.symm.trans hg)
        exact hbuilt.leaves hl
    | caps | clear | create | seed | fsync | rename =>
      rw [hp] at hs
      cases hplaced.symm.trans hs.1
    | discard =>
      rw [hp] at hs
      cases hplaced.symm.trans hs

/-- A rotation that has come to something is over. -/
theorem At.ended (h : At seeds count live w) (ho : w.outcome ≠ .pending) :
    w.rotator.phase = .idle ∧ ((w.outcome = .skipped ∧ w.placed = none) ∨
      ((w.outcome = .rotated ∨ w.outcome = .lost) ∧
        ∃ f, w.placed = some f ∧ Built seeds count f)) := by
  have hidle : w.rotator.phase = .idle := by
    by_contra hne
    exact ho (h.going hne)
  have hs := h.stands
  rw [hidle] at hs
  exact ⟨hidle, hs⟩

end RotateWorld

namespace WalWorld

/-- A crash between two appends leaves all of a log that has not failed. -/
theorem Leaves.eq_file {async : Bool} {first bytes : Bytes} {es : List WalEvent}
    (hl : (Run.run (step async) (booted first) es).Leaves bytes)
    (hnone : (Run.run (step async) (booted first) es).inFlight = [])
    (hwhole : (Run.run (step async) (booted first) es).appender.broken = false) :
    bytes = (Run.run (step async) (booted first) es).file.bytes := by
  have h := appends_inOrder async first es
  obtain ⟨part, hb, -, hpart⟩ := h.file
  obtain ⟨n, hn, rfl⟩ := hl
  refine List.take_of_length_le (Nat.le_trans ?_ hn)
  refine Nat.le_trans (Nat.le_of_eq ?_) h.fenced
  rw [hb, hpart hnone hwhole, List.append_nil]

end WalWorld

namespace RotateWorld

/-- **A boot over the bytes reads the records**: a replay that comes to its end
has handed them over, and one whose polls make progress comes to it. -/
structure HandsOver (bytes : Bytes) (records : List Bytes) : Prop where
  only : ∀ polls handed, Replays bytes polls handed → handed = records
  ends : ∀ polls, (∀ p ∈ polls, WalReplay.Progress p) → bytes.length + 2 ≤ polls.length →
    Replays bytes polls records

theorem handsOver_of_records {bytes : Bytes} {records : List Bytes}
    (h : walRecords bytes = records) : HandsOver bytes records := by
  subst h
  exact ⟨fun _ _ hr => hr.eq, fun polls => WalReplay.replays_of_progress bytes polls⟩

/-- **What a rotation owes the log.** -/
structure Atomic (async : Bool) (first : Bytes) (es : List WalEvent) (seeds : ℕ → Option Bytes)
    (count : ℕ) (live : WalWorld) (w : RotateWorld) : Prop where
  /-- A crash leaves what it leaves of the old log (all of it, when no append
  was in flight and none had failed), or the seeds and no more. -/
  crash : ∀ bytes, w.Leaves bytes →
    (live.Leaves bytes ∧
      (live.inFlight = [] → live.appender.broken = false → bytes = live.file.bytes)) ∨
    HandsOver bytes (seeded seeds count)
  /-- One that was skipped leaves the old log, its descriptor and its appender
  as they were, and appends go on in order. -/
  skipped : w.outcome = .skipped → w.live = live ∧ w.isOpen = true ∧
    (∀ bytes, w.Leaves bytes → live.Leaves bytes) ∧
    ∀ es', WalWorld.AppendsInOrder async first (es ++ es') (Run.run (WalWorld.step async) w.live es')
  replaced : w.outcome = .rotated ∨ w.outcome = .lost → w.isOpen = false ∧
    ∀ bytes, w.Leaves bytes → HandsOver bytes (seeded seeds count)

/-- A rotation that fails may leave no descriptor: the open after the rename
has failed. -/
theorem fails_not_open : ¬ ∀ (seeds : ℕ → Option Bytes) (count room : ℕ) (live : WalWorld)
    (stage : Option WalFile) (answers : List FsAnswer),
    (after seeds count room live stage answers).outcome ≠ .pending →
    (after seeds count room live stage answers).outcome ≠ .rotated →
    (after seeds count room live stage answers).isOpen = true := by
  intro h
  have hopen := h (fun _ => none) 0 walHeader (WalWorld.booted []) none
    [.done 1, .done 0, .done 0, .again, .done 0, .done 0, .failed] (by decide) (by decide)
  exact absurd hopen (by decide)

end RotateWorld

/-- **A rotation is crash atomic.** Whatever the seeds, the answers and the file
an earlier rotation left, a crash at any point leaves the old log, or a log that
hands over exactly the seeds. One that is skipped leaves the old log in
service; one that cannot open the log again has replaced it. -/
theorem rotation_atomic (async : Bool) (first : Bytes) (es : List WalEvent)
    (seeds : ℕ → Option Bytes) (count room : ℕ) (stage : Option WalFile)
    (answers : List FsAnswer) :
    RotateWorld.Atomic async first es seeds count (Run.run (WalWorld.step async) (.booted first) es)
      (RotateWorld.after seeds count room (Run.run (WalWorld.step async) (.booted first) es) stage
        answers) := by
  have h := @RotateWorld.at_after seeds count room
    (Run.run (WalWorld.step async) (.booted first) es) stage answers
  refine ⟨fun bytes hl => ?_, fun ho => ?_, fun ho => ?_⟩
  · obtain ⟨-, hold⟩ | ⟨-, hread⟩ := h.leaves hl
    · exact .inl ⟨hold, fun hnone hwhole => hold.eq_file hnone hwhole⟩
    · exact .inr (RotateWorld.handsOver_of_records hread)
  · obtain ⟨hidle, ⟨-, hn⟩ | ⟨ho' | ho', -⟩⟩ := h.ended (by rw [ho]; nofun)
    · refine ⟨h.live, by rw [h.opened, hn]; rfl, fun bytes hl => ?_, fun es' => ?_⟩
      · unfold RotateWorld.Leaves at hl
        rw [hn] at hl
        obtain hold | ⟨hphase, -⟩ := hl
        · exact h.live ▸ hold
        · cases hidle.symm.trans hphase
      · rw [h.live, ← Run.run_append]
        exact WalWorld.appends_inOrder async first (es ++ es')
    · cases ho.symm.trans ho'
    · cases ho.symm.trans ho'
  · have hover : (RotateWorld.after seeds count room
        (Run.run (WalWorld.step async) (.booted first) es) stage answers).outcome ≠ .pending := by
      obtain ho | ho := ho <;> rw [ho] <;> nofun
    obtain ⟨-, ⟨ho', -⟩ | ⟨-, f, hf, hbuilt⟩⟩ := h.ended hover
    · obtain ho | ho := ho <;> cases ho.symm.trans ho'
    · refine ⟨by rw [h.opened, hf]; rfl, fun bytes hl => ?_⟩
      unfold RotateWorld.Leaves at hl
      rw [hf] at hl
      exact RotateWorld.handsOver_of_records (hbuilt.leaves hl).2

end Loam

import Loam.BlockIndex
import Loam.WalTear

/-!
# An index and its log

The object and the block index keep themselves alike. A request that would
change one is appended to its log before it is judged, and is applied and
answered once the record is durable; one the index then refuses stays in the
log. A boot replays the log into an empty index, and judges every record as it
was judged before, since a refused one changed nothing.

An append that fails is answered with a refusal, and the file cannot be cut
back. Where bytes of its frame were not all written, the next replay stops in
front of it. Where they were and only the fence failed, the file holds the
whole record, and the next boot applies what was refused.
-/

namespace Loam

/-- An index that a log is kept of. -/
structure LoggedIndex (σ : Type) where
  empty : σ
  mutating : List UInt8
  /-- Apply a record, and the byte it is answered with. -/
  apply : σ → Bytes → σ × Except UInt8 UInt8
  apply_refused : ∀ {s r b}, (apply s r).2 = .error b → (apply s r).1 = s

namespace LoggedIndex

variable {σ : Type} (I : LoggedIndex σ)

/-- What a boot makes of a log's records. -/
def replay (records : List Bytes) : σ := records.foldl (fun s r => (I.apply s r).1) I.empty

theorem replay_append (xs ys : List Bytes) :
    I.replay (xs ++ ys) = ys.foldl (fun s r => (I.apply s r).1) (I.replay xs) :=
  List.foldl_append

end LoggedIndex

/-- The object index of a profile, with so many slots. -/
def objectIndex (L : Limits) (n : ℕ) : LoggedIndex ObjectIndex where
  empty := .new n
  mutating := [opObjPut, opObjUpdate, opObjRemove]
  apply s r := ((s.applyToArena L r).1, (s.applyToArena L r).2.mapError ObjectIndex.replyFor)
  apply_refused := fun {s r _} h => by
    cases ho : (s.applyToArena L r).2 with
    | error f => exact ObjectIndex.applyToArena_refused ho
    | ok op =>
      rw [ho] at h
      cases h

/-- The block index. -/
def blockIndex (L : Limits) (n : ℕ) : LoggedIndex BlockIndex where
  empty := .new n
  mutating := [opCreateVolume, opAllocate, opRelease]
  apply s r := ((s.applyToArena L r).1, (s.applyToArena L r).2.mapError fun _ => 0xFF)
  apply_refused := fun {s r _} h => by
    cases ho : (s.applyToArena L r).2 with
    | error f => exact BlockIndex.applyToArena_refused ho
    | ok op =>
      rw [ho] at h
      cases h

/-! ## A module that keeps one -/

/-- How a request that would change an index is answered. -/
inductive IndexAnswer where
  /-- It was judged, and this is the byte it is answered with. -/
  | judged (answer : Except UInt8 UInt8)
  /-- Its append failed. On the wire that is a refusal. -/
  | unlogged
deriving DecidableEq

/-- A module whose boot has replayed its log. -/
structure IndexWorld (σ : Type) where
  wal : WalWorld
  index : σ
  answered : List (Bytes × IndexAnswer)

/-- What happens to it. -/
inductive IndexEvent where
  /-- A whole request is taken off the channel. -/
  | request (r : Bytes)
  | io (answer : FsAnswer)
deriving DecidableEq

namespace IndexWorld

variable {σ : Type} {I : LoggedIndex σ} {async : Bool} {first part : Bytes} {w : IndexWorld σ}

/-- The module once its boot has replayed the file. -/
def booted (I : LoggedIndex σ) (bytes : Bytes) : IndexWorld σ :=
  ⟨.booted bytes, I.replay (walRecords bytes), []⟩

/-- The requests that were judged. -/
def judged (w : IndexWorld σ) : List Bytes :=
  w.answered.filterMap fun p => match p.2 with
    | .judged _ => some p.1
    | .unlogged => none

/-- Those that were applied: what was acknowledged. -/
def acknowledged (w : IndexWorld σ) : List Bytes :=
  w.answered.filterMap fun p => match p.2 with
    | .judged (.ok _) => some p.1
    | _ => none

/-- One event. A staged append owns the module until it is resolved; a request
that changes nothing is answered and leaves no trace. -/
def step (I : LoggedIndex σ) (async : Bool) (w : IndexWorld σ) : IndexEvent → IndexWorld σ
  | .request r =>
    if w.wal.appender.phase ≠ .idle ∨ ¬ (r.head?.any I.mutating.contains) then w
    else match (w.wal.appender.begin r).2 with
      | .failed => { w with answered := w.answered ++ [(r, .unlogged)] }
      | _ => { w with wal := w.wal.step async (.append r) }
  | .io answer =>
    let r := w.wal.appender.payload
    let wal := w.wal.step async (.io answer)
    match (w.wal.appender.call async w.wal.file answer).2.2 with
    | .pending => { w with wal := wal }
    | .failed => { w with wal := wal, answered := w.answered ++ [(r, .unlogged)] }
    | .durable => {
        wal := wal
        index := (I.apply w.index r).1
        answered := w.answered ++ [(r, .judged (I.apply w.index r).2)] }

/-- The event fails an append whose frame is whole in the file: its fence. -/
def fenceFails (w : IndexWorld σ) : IndexEvent → Bool
  | .io .failed => w.wal.appender.phase == .submit || w.wal.appender.phase == .poll
      || w.wal.appender.phase == .fsync
  | _ => false

/-- **What a restart is to make of an index**: whatever a crash leaves, the boot
after it replays the requests that were judged, and at most the one that was
being appended; the index it makes of them is that of the acknowledged ones. -/
structure RestartsExactly (I : LoggedIndex σ) (first : Bytes) (w : IndexWorld σ) : Prop where
  live : w.index = I.replay (walRecords first ++ w.acknowledged)
  rebuilt : ∀ left, w.wal.Leaves left → ∃ inProgress : List Bytes,
    (inProgress = [] ∨ w.wal.appender.phase ≠ .idle ∧ inProgress = [w.wal.appender.payload]) ∧
      (∀ polls handed, Replays left polls handed →
        handed = walRecords first ++ w.judged ++ inProgress ∧
          I.replay handed = I.replay (walRecords first ++ w.acknowledged ++ inProgress)) ∧
      ∀ polls, (∀ p ∈ polls, WalReplay.Progress p) → left.length + 2 ≤ polls.length →
        ∃ handed, Replays left polls handed

/-! ## What one call of an append does -/

/-- A call of a staged append leaves it pending, or durable by its fence, or
failed. -/
theorem call_cases {ap : WalAppender} (hp : ap.phase ≠ .idle) (f : WalFile) (a : FsAnswer) :
    ((ap.call async f a).2.2 = .pending ∧ (ap.call async f a).1.phase ≠ .idle) ∨
      (ap.call async f a = (ap.finish, f.fence, .durable) ∧
        (ap.phase = .poll ∨ ap.phase = .fsync)) ∨
      (ap.call async f a = (ap.fail, f, .failed) ∧
        (a = .failed ∨ ap.phase = .seek ∨ ap.phase = .write)) := by
  cases a with
  | again => exact .inl ⟨rfl, hp⟩
  | failed => exact .inr (.inr ⟨if_neg hp, .inl rfl⟩)
  | done n =>
    unfold WalAppender.call
    cases hph : ap.phase with
    | idle => exact absurd hph hp
    | seek =>
      dsimp only
      split
      · exact .inr (.inr ⟨rfl, .inr (.inl rfl)⟩)
      · exact .inl ⟨rfl, fun hc => by cases hc⟩
    | write =>
      dsimp only
      split
      · exact .inr (.inr ⟨rfl, .inr (.inr rfl)⟩)
      split
      · exact .inl ⟨rfl, fun hc => by cases hc⟩
      refine .inl ⟨rfl, ?_⟩
      cases async <;> exact fun hc => by cases hc
    | submit => exact .inl ⟨rfl, fun hc => by cases hc⟩
    | poll =>
      dsimp only
      split
      · exact .inr (.inl ⟨rfl, .inl rfl⟩)
      · exact .inl ⟨rfl, hp⟩
    | fsync => exact .inr (.inl ⟨rfl, .inr rfl⟩)

/-! ## The invariant -/

/-- Where a module is whose fences hold. -/
structure Logged (I : LoggedIndex σ) (first : Bytes) (w : IndexWorld σ) (part : Bytes) : Prop where
  log : WalWorld.At first w.wal part
  acked : w.wal.acked = w.judged
  index : w.index = I.replay (walRecords first ++ w.judged)
  live : w.index = I.replay (walRecords first ++ w.acknowledged)
  /-- A frame that no append is writing is not whole. -/
  cut : w.wal.appender.phase = .idle → part = [] ∨
    ∃ p n, WalOk p ∧ n < (walFrame p).length ∧ part = (walFrame p).take n

/-- A failed append, unless its frame is whole. -/
theorem Logged.fail (h : Logged I first w part) (hp : w.wal.appender.phase ≠ .idle)
    (hw : w.wal.appender.phase = .seek ∨ w.wal.appender.phase = .write) :
    Logged I first { w with
      wal := { w.wal with appender := w.wal.appender.fail }
      answered := w.answered ++ [(w.wal.appender.payload, .unlogged)] } part := by
  refine ⟨h.log.fail hp, ?_, ?_, ?_, fun _ => ?_⟩
  · simpa [judged] using h.acked
  · simpa [judged] using h.index
  · simpa [acknowledged] using h.live
  · rcases hw with hs | hw
    · exact .inl (h.log.clean (.inl hs)).1
    obtain ⟨hpart, hlt, -⟩ := h.log.writing hw
    exact .inr ⟨_, _, (h.log.staged hp).1, hlt, hpart⟩

theorem Logged.finish (h : Logged I first w part)
    (hp : w.wal.appender.phase = .poll ∨ w.wal.appender.phase = .fsync) :
    Logged I first {
      wal := { file := w.wal.file.fence
               appender := w.wal.appender.finish
               acked := w.wal.acked ++ [w.wal.appender.payload] }
      index := (I.apply w.index w.wal.appender.payload).1
      answered := w.answered ++ [(w.wal.appender.payload,
        .judged (I.apply w.index w.wal.appender.payload).2)] } [] := by
  have hne : w.wal.appender.phase ≠ .idle := by
    rcases hp with hp | hp <;> rw [hp] <;> exact fun hc => by cases hc
  have hwhole := h.log.whole (.inr hp)
  subst hwhole
  refine ⟨h.log.finish hne, ?_, ?_, ?_, fun _ => .inl rfl⟩
  · simpa [judged] using h.acked
  · simp only [judged, List.filterMap_append, List.filterMap_cons, List.filterMap_nil]
    rw [← List.append_assoc, I.replay_append, ← judged, ← h.index]
    rfl
  · cases hr : (I.apply w.index w.wal.appender.payload).2 with
    | error b =>
      rw [I.apply_refused hr]
      simpa [acknowledged] using h.live
    | ok op =>
      simp only [acknowledged, List.filterMap_append, List.filterMap_cons, List.filterMap_nil]
      rw [← List.append_assoc, I.replay_append, ← acknowledged, ← h.live]
      rfl

/-- **Every event keeps it**, unless a fence fails. -/
theorem Logged.step (h : Logged I first w part) (e : IndexEvent) (he : w.fenceFails e = false) :
    ∃ part', Logged I first (w.step I async e) part' := by
  cases e with
  | request r =>
    simp only [IndexWorld.step]
    split
    · exact ⟨part, h⟩
    split
    · refine ⟨part, h.log, ?_, ?_, ?_, h.cut⟩
      · simpa [judged] using h.acked
      · simpa [judged] using h.index
      · simpa [acknowledged] using h.live
    next hgo =>
    obtain ⟨part', hat⟩ := @WalWorld.At.step async first w.wal part h.log (.append r)
    refine ⟨part', hat, h.acked, h.index, h.live, fun hidle => absurd hidle ?_⟩
    show (w.wal.appender.begin r).1.phase ≠ .idle
    unfold WalAppender.begin at hgo ⊢
    split
    · next hc =>
      rw [if_pos hc] at hgo
      exact absurd rfl hgo
    · exact fun hc => by cases hc
  | io answer =>
    by_cases hp : w.wal.appender.phase = .idle
    · refine ⟨part, ?_⟩
      have hcall : w.wal.appender.call async w.wal.file answer
          = (w.wal.appender, w.wal.file, .pending) := by
        cases answer <;> simp [WalAppender.call, hp]
      simp only [IndexWorld.step, WalWorld.step, hcall]
      exact h
    · rcases @call_cases async _ hp w.wal.file answer with ⟨hst, hph⟩ | ⟨hcall, hph⟩ |
        ⟨hcall, hph⟩
      · obtain ⟨part', hat⟩ := @WalWorld.At.step async first w.wal part h.log (.io answer)
        refine ⟨part', ?_⟩
        simp only [IndexWorld.step, hst]
        refine ⟨hat, ?_, h.index, h.live, fun hidle => absurd hidle hph⟩
        simp only [WalWorld.step, hst]
        exact h.acked
      · refine ⟨[], ?_⟩
        simp only [IndexWorld.step, WalWorld.step, hcall]
        exact h.finish hph
      · refine ⟨part, ?_⟩
        simp only [IndexWorld.step, WalWorld.step, hcall]
        refine h.fail hp ?_
        rcases hph with rfl | hph
        · have hw : w.wal.appender.phase ≠ .submit ∧ w.wal.appender.phase ≠ .poll ∧
              w.wal.appender.phase ≠ .fsync := by simpa [fenceFails, and_assoc] using he
          cases hph : w.wal.appender.phase <;> simp_all
        · exact hph

/-- What a crash leaves of a frame is no record, unless it is being appended. -/
theorem Logged.records_part (h : Logged I first w part) (k : ℕ) :
    walRecords (part.take k) = [] ∨ w.wal.appender.phase ≠ .idle ∧
      walRecords (part.take k) = [w.wal.appender.payload] := by
  have hcut : ∀ p n, WalOk p → n < (walFrame p).length →
      walRecords (((walFrame p).take n).take k) = [] := by
    intro p n hok hn
    rw [List.take_take]
    exact (walFraming.records_take hok _).trans (if_neg (by
      show ¬ (walFrame p).length ≤ _
      omega))
  have hnil : walRecords (List.take k []) = [] := by
    rw [List.take_nil]
    rfl
  cases hp : w.wal.appender.phase with
  | idle =>
    rcases h.cut hp with rfl | ⟨p, n, hok, hn, rfl⟩
    · exact .inl hnil
    · exact .inl (hcut p n hok hn)
  | seek =>
    obtain ⟨rfl, -⟩ := h.log.clean (.inl hp)
    exact .inl hnil
  | write =>
    obtain ⟨hpart, hlt, -⟩ := h.log.writing hp
    rw [hpart]
    exact .inl (hcut _ _ (h.log.staged (by rw [hp]; exact fun hc => by cases hc)).1 hlt)
  | submit | poll | fsync =>
    obtain rfl := h.log.whole (by simp [hp])
    have hread : walRecords ((walFrame w.wal.appender.payload).take k) = if _ then _ else _ :=
      walFraming.records_take (h.log.staged (by rw [hp]; exact fun hc => by cases hc)).1 k
    rw [hread]
    split
    · exact .inr ⟨fun hc => (by cases hc), rfl⟩
    · exact .inl rfl

/-- **From the invariant, an exact restart.** -/
theorem Logged.restarts (h : Logged I first w part) (hfirst : walTear first = []) :
    w.RestartsExactly I first := by
  refine ⟨h.live, fun left hl => ?_⟩
  obtain ⟨k, rfl⟩ := hl.eq h.log
  have hrec := h.log.records hfirst (part.take k)
  rw [h.acked] at hrec
  refine ⟨walRecords (part.take k), ?_, fun polls handed hr => ?_, fun polls hp hlen =>
    ⟨_, WalReplay.replays_of_progress _ polls hp hlen⟩⟩
  · exact h.records_part k
  · have heq := hr.eq
    rw [h.acked] at heq
    rw [heq, hrec]
    refine ⟨rfl, ?_⟩
    rw [I.replay_append, ← h.index, h.live, ← I.replay_append]

theorem restartsExactly_run (hfirst : walTear first = []) {es : List IndexEvent}
    (h : Run.AllSteps (step I async) (fun w e => w.fenceFails e = false) (booted I first) es) :
    (Run.run (step I async) (booted I first) es).RestartsExactly I first := by
  have hbooted : Logged I first (booted I first) [] := by
    refine ⟨WalWorld.at_booted first, rfl, ?_, ?_, fun _ => .inl rfl⟩ <;>
      exact congrArg I.replay (List.append_nil _).symm
  obtain ⟨part, hlog⟩ := Run.invariant (I := fun w : IndexWorld σ => ∃ part, Logged I first w part)
    (fun w e ⟨_, hw⟩ he => hw.step e he) ⟨[], hbooted⟩ h
  exact hlog.restarts hfirst

/-- **The object and the block index restart exactly** while no fence fails:
whatever is asked of a module that booted on a log without a tear, and wherever
it crashes, the next boot makes the index of the requests acknowledged, and at
most of the one that was being appended. -/
theorem indexes_restart_exactly (L : Limits) (n m : ℕ) (async : Bool) (first : Bytes)
    (hfirst : walTear first = []) (es : List IndexEvent) :
    (Run.AllSteps (step (objectIndex L n) async) (fun w e => w.fenceFails e = false)
        (booted (objectIndex L n) first) es →
      (Run.run (step (objectIndex L n) async) (booted (objectIndex L n) first) es).RestartsExactly
        (objectIndex L n) first) ∧
      (Run.AllSteps (step (blockIndex L m) async) (fun w e => w.fenceFails e = false)
          (booted (blockIndex L m) first) es →
        (Run.run (step (blockIndex L m) async) (booted (blockIndex L m) first) es).RestartsExactly
          (blockIndex L m) first) :=
  ⟨restartsExactly_run hfirst, restartsExactly_run hfirst⟩

/-- A put of one object, `a`, of no bytes. -/
def examplePut : Bytes :=
  [4, 1, 0, 0, 0, 0, 0, 0, 0] ++ List.replicate 17 0 ++ [1, 0, 0, 0, 97]

/-- It is appended and its fence answers with `answer`. -/
def putThenFence (answer : FsAnswer) : List IndexEvent :=
  [.request examplePut, .io (.done 0), .io (.done 39), .io answer]

/-- A volume `v` of one block, the write of whose frame is short at first. -/
def createVolume : List IndexEvent :=
  [.request [7, 1, 0, 0, 0, 16, 0, 0, 0, 0, 0, 0, 0, 4, 0, 0, 1, 118], .io (.done 0),
    .io (.done 5), .io .again, .io (.done 21), .io (.done 0)]

theorem indexes_restart_exactly_put :
    (Run.run (step (objectIndex .minimal 64) false) (booted (objectIndex .minimal 64) [])
        (putThenFence (.done 0))).RestartsExactly (objectIndex .minimal 64) [] ∧
      (Run.run (step (blockIndex .minimal 64) false) (booted (blockIndex .minimal 64) [])
        createVolume).RestartsExactly (blockIndex .minimal 64) [] :=
  ⟨(indexes_restart_exactly .minimal 64 64 false [] rfl (putThenFence (.done 0))).1
      (by decide +kernel),
    (indexes_restart_exactly .minimal 64 64 false [] rfl createVolume).2 (by decide +kernel)⟩

/-- **A put whose fence fails is refused, and is there after a restart.** -/
theorem failed_fence_restarts :
    (Run.run (step (objectIndex .minimal 64) false) (booted (objectIndex .minimal 64) [])
        (putThenFence .failed)).answered = [(examplePut, .unlogged)] ∧
      (((objectIndex .minimal 64).replay [examplePut]).lookup [97]).isSome = true ∧
      ¬ (Run.run (step (objectIndex .minimal 64) false) (booted (objectIndex .minimal 64) [])
        (putThenFence .failed)).RestartsExactly (objectIndex .minimal 64) [] := by
  have hw : (Run.run (step (objectIndex .minimal 64) false) (booted (objectIndex .minimal 64) [])
      (putThenFence .failed)).answered = [(examplePut, .unlogged)] ∧
      (Run.run (step (objectIndex .minimal 64) false) (booted (objectIndex .minimal 64) [])
        (putThenFence .failed)).wal = ⟨⟨walFrame examplePut, 39, 0⟩, ⟨.idle, true, examplePut, 0⟩, []⟩ := by
    decide +kernel
  generalize Run.run (step (objectIndex .minimal 64) false) (booted (objectIndex .minimal 64) [])
    (putThenFence .failed) = w at hw
  obtain ⟨hans, hwal⟩ := hw
  refine ⟨hans, by decide +kernel, fun h => ?_⟩
  -- the whole frame is left, and the boot replays it
  have hleft : w.wal.Leaves (walFrame examplePut) := ⟨39, by rw [hwal]; exact Nat.zero_le _, by rw [hwal]; rfl⟩
  obtain ⟨inProgress, hin, hreplays, -⟩ := h.rebuilt _ hleft
  rw [hwal] at hin
  obtain rfl : inProgress = [] := hin.elim id fun hc => absurd rfl hc.1
  have hread : walRecords (walFrame examplePut) = [examplePut] := by
    have hok : WalOk examplePut := ⟨by decide, by decide⟩
    have htake := walFraming.records_take hok (walFraming.enc examplePut).length
    rw [List.take_length, if_pos le_rfl] at htake
    exact htake
  have hrun := WalReplay.replays_of_progress (walFrame examplePut)
    (List.replicate ((walFrame examplePut).length + 2) (1, [.done 0]))
    (fun p hp => by
      rw [(List.mem_replicate.mp hp).2]
      exact ⟨Nat.one_pos, ⟨0, [], rfl⟩, by decide⟩)
    (Nat.le_of_eq (List.length_replicate).symm)
  have hhanded := (hreplays _ _ hrun).1
  rw [hread, judged, hans] at hhanded
  cases hhanded

end IndexWorld

end Loam

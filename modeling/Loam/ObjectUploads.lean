import Loam.ObjectStream
import Loam.ObjectSpoolLaws
import Loam.EcRuns

/-!
# A streamed upload sends what was written

Whatever is open at the same time, and whatever the file system makes of the
calls, an upload sends the bytes of the writes of its stream that were answered
0, in order, and declares their total and their hash – as long as a file is asked
nothing else while a write of it is under way (`ObjectWorld.Steady`): no write
goes into the spill behind one that is, a write that was answered `EAGAIN` with
the file having taken it is the next one, and the stream is not committed before
it.

The module keeps this rule for the calls of a poll, and breaks it for the spill:
a write is appended to what waits though the file has taken what waits and not
decided it, so that the next poll asks for a longer write
(`written_twice`).
-/

namespace Loam

/-! ## What is sent -/

/-- The bytes of a request. -/
def UploadRequest.body : UploadRequest → Bytes
  | .putFile body => body
  | .chunk bytes => bytes
  | .open .. => []
  | .commit => []

/-- The bytes of the requests, in order. -/
def bodyBytes (rs : List UploadRequest) : Bytes := (rs.map UploadRequest.body).flatten

/-- **An upload sends what was written**: the bodies are of the bytes taken, all
of them once it is complete, and the total and the hash are theirs. -/
structure Upload.Sends (sha : Bytes → Digest) (u : Upload) : Prop where
  sent : bodyBytes u.requests <+: u.log.taken
  whole : ∀ body, .putFile body ∈ u.requests → bodyBytes u.requests = u.log.taken
  complete : .commit ∈ u.requests → bodyBytes u.requests = u.log.taken
  /-- And when the upload was decided for the stream. -/
  stored : u.result = true → bodyBytes u.requests = u.log.taken
  opened : ∀ digest total, .open digest total ∈ u.requests →
    digest = sha u.log.taken ∧ total = u.log.taken.length
  /-- What the upload compares the gate's answer with. -/
  declared : u.state ≠ .free → u.digest = sha u.log.taken ∧ u.total = u.log.taken.length

/-- The stream takes writes. -/
def Stream.Taking (st : Stream) : Prop := st.inUse = true ∧ st.op = none ∧ st.decided = none

/-- The upload is not decided. -/
def Upload.Runs (u : Upload) : Prop := u.state = .send ∨ u.state = .sent

namespace ObjectWorld

/-- **The module sends what was written**: every upload does, it carries the
writes of its stream, and no file has bytes that its stream did not take. -/
structure SendsWritten (sha : Bytes → Digest) (w : ObjectWorld) : Prop where
  uploads : ∀ o, (w.ops o).Sends sha
  carried : ∀ i o, (w.streams i).op = some o → (w.ops o).log.taken = (w.streams i).log.taken
  streamFiles : ∀ i, (w.streams i).Taking → (w.streams i).spool.st = .ready →
    (w.streams i).spool.file.bytes <+: (w.streams i).log.taken
  uploadFiles : ∀ o, (w.ops o).Runs →
    (w.ops o).spool.st = .ready ∨ (w.ops o).spool.st = .reading →
      (w.ops o).spool.file.bytes <+: (w.ops o).log.taken

/-- No file is asked anything else while a write of it is under way. -/
def Steady (w : ObjectWorld) : ObjectEvent → Prop
  | .write i bytes turns _ =>
    (w.streams i).Taking → bytes ≠ [] →
      (w.streams i).written + bytes.length ≤ maxStreamTotal →
        ((w.pollStream i turns).streams i).spool.Clear (w.pollStream i turns).spill bytes
  | .commit i slot _ =>
    (w.streams i).Taking → (w.uploadSlot i slot).isSome = true →
      (w.streams i).spool.st = .ready → (w.streams i).spool.holds = false →
        (w.streams i).spool.file.underway = none
  | _ => True

instance (st : Stream) : Decidable st.Taking := by
  unfold Stream.Taking
  infer_instance

instance (w : ObjectWorld) : DecidablePred w.Steady := fun e => by
  unfold Steady
  split <;> infer_instance

/-! ## One spool and the others -/

/-- The spools. -/
inductive SpoolId where
  | stream (i : ℕ)
  | op (o : ℕ)
deriving DecidableEq

/-- A spool. -/
def spool (w : ObjectWorld) : SpoolId → Spool
  | .stream i => (w.streams i).spool
  | .op o => (w.ops o).spool

/-- One spool has the spill, and it is busy then. -/
structure Exclusive (w : ObjectWorld) : Prop where
  one : ∀ a b, (w.spool a).holds = true → (w.spool b).holds = true → a = b
  busy : ∀ a, (w.spool a).holds = true → w.spill.busy = true

variable {w : ObjectWorld} {i j o : ℕ}

theorem streams_setStream_self (w : ObjectWorld) (i : ℕ) (st : Stream) :
    (w.setStream i st).streams i = st := Function.update_self ..

theorem streams_setStream_ne (st : Stream) (h : j ≠ i) :
    (w.setStream i st).streams j = w.streams j := Function.update_of_ne h ..

theorem ops_setOp_self (w : ObjectWorld) (o : ℕ) (u : Upload) : (w.setOp o u).ops o = u :=
  Function.update_self ..

theorem ops_setOp_ne (u : Upload) (h : j ≠ o) : (w.setOp o u).ops j = w.ops j :=
  Function.update_of_ne h ..

/-- What is done with one spool leaves the others what they keep. -/
theorem Exclusive.touch (w' : ObjectWorld) (h : w.Exclusive) {a : SpoolId} {q : Spool × Spill}
    (hq : (w.spool a).Touches w.spill q) (hother : ∀ b, b ≠ a → w'.spool b = w.spool b)
    (ha : w'.spool a = q.1) (hs : w'.spill = q.2) :
    w'.Exclusive ∧ ∀ b, b ≠ a → ∀ W, (w.spool b).Keeps w.spill W →
      (w'.spool b).Keeps w'.spill W := by
  have hnot : ∀ b, b ≠ a → (w.spool b).holds = true → q.1.holds = false ∧ q.2 = w.spill := by
    intro b hb hholds
    refine hq.others (Bool.eq_false_of_not_eq_true fun hh => hb (h.one b a hholds hh)) ?_
    exact h.busy b hholds
  refine ⟨⟨fun b c hb hc => ?_, fun b hb => ?_⟩, fun b hb W hk => ?_⟩
  · by_cases hba : b = a
    · by_cases hca : c = a
      · rw [hba, hca]
      rw [hba, ha] at hb
      rw [hother c hca] at hc
      cases (hnot c hca hc).1.symm.trans hb
    · rw [hother b hba] at hb
      by_cases hca : c = a
      · rw [hca, ha] at hc
        cases (hnot b hba hb).1.symm.trans hc
      · rw [hother c hca] at hc
        exact h.one b c hb hc
  · rw [hs]
    by_cases hba : b = a
    · rw [hba, ha] at hb
      exact hq.own (h.busy a) hb
    · rw [hother b hba] at hb
      rw [(hnot b hba hb).2]
      exact h.busy b hb
  · rw [hother b hb, hs]
    by_cases hh : (w.spool b).holds = true
    · rw [(hnot b hb hh).2]
      exact hk
    · exact hk.congr (Bool.eq_false_of_not_eq_true hh)

end ObjectWorld

/-! ## The invariant -/

/-- **What a stream that takes writes keeps.** -/
structure Stream.Good (st : Stream) (spill : Spill) : Prop where
  keeps : st.spool.Keeps spill st.log.taken
  unsealed : st.spool.isSealed = false
  unread : st.spool.st ≠ .reading
  written : st.written = st.log.taken.length
  hash : st.hash = st.log.taken

theorem WriteLog.taken_append (log : WriteLog) (bytes : Bytes) (answer : WriteAnswer) :
    WriteLog.taken (log ++ [(bytes, answer)]) = log.taken ++ Spool.added bytes answer := by
  simp only [WriteLog.taken, Spool.added, List.filter_append, List.map_append, List.flatten_append]
  congr 1
  cases answer <;> simp

theorem Stream.taken_answer (st : Stream) (bytes : Bytes) (answer : WriteAnswer) :
    (st.answer bytes answer).log.taken = st.log.taken ++ Spool.added bytes answer := by
  rw [← WriteLog.taken_append]
  unfold Stream.answer
  split
  · next h => rw [h]
  · rfl

@[simp] theorem Stream.spool_answer (st : Stream) (bytes : Bytes) (answer : WriteAnswer) :
    (st.answer bytes answer).spool = st.spool := by
  unfold Stream.answer
  split <;> rfl

@[simp] theorem Stream.op_answer (st : Stream) (bytes : Bytes) (answer : WriteAnswer) :
    (st.answer bytes answer).op = st.op := by
  unfold Stream.answer
  split <;> rfl

theorem Stream.taking_answer {st : Stream} {bytes : Bytes} {answer : WriteAnswer} :
    (st.answer bytes answer).Taking ↔ st.Taking := by
  unfold Stream.answer
  split <;> exact Iff.rfl

/-- A write that is answered is in the spool if it is taken. -/
theorem Stream.Good.answer {st : Stream} {p : Spool × Spill} {spill : Spill}
    (h : st.Good spill) {bytes : Bytes} {answer : WriteAnswer}
    (hk : p.1.Keeps p.2 (st.log.taken ++ Spool.added bytes answer))
    (hp : p.1.phase = st.spool.phase) :
    ({ st with spool := p.1 }.answer bytes answer).Good p.2 := by
  have hsealed : p.1.isSealed = false := (congrArg Prod.fst hp).trans h.unsealed
  have hunread : p.1.st ≠ .reading := fun hr =>
    h.unread (of_decide_eq_true ((congrArg Prod.snd hp).symm.trans (decide_eq_true hr)))
  by_cases ha : answer = .ok
  · subst ha
    have htaken := Stream.taken_answer { st with spool := p.1 } bytes .ok
    refine ⟨?_, hsealed, hunread, ?_, ?_⟩
    · rw [htaken]
      exact hk
    · rw [htaken, List.length_append, ← h.written]
      rfl
    · rw [htaken, ← h.hash]
      rfl
  · have htaken := Stream.taken_answer { st with spool := p.1 } bytes answer
    have hnil : Spool.added bytes answer = [] := if_neg ha
    have hanswer : { st with spool := p.1 }.answer bytes answer
        = { st with spool := p.1, log := st.log ++ [(bytes, answer)] } := if_neg ha
    rw [hnil, List.append_nil] at htaken hk
    rw [hanswer] at htaken ⊢
    refine ⟨?_, hsealed, hunread, ?_, ?_⟩
    · rw [htaken]
      exact hk
    · rw [htaken]
      exact h.written
    · rw [htaken]
      exact h.hash

namespace Upload

/-- How much of the body the next request takes. -/
def want (u : Upload) : ℕ :=
  match u.stage with
  | .single => u.total
  | .chunk => min (u.total - u.sent) maxBody
  | .open => 0
  | .commit => 0

/-- What is sent at each stage. -/
def AtStage (u : Upload) : Prop :=
  match u.stage with
  | .single =>
    (u.state = .send → u.requests = []) ∧ (u.state = .sent → bodyBytes u.requests = u.log.taken)
  | .open => bodyBytes u.requests = [] ∧ u.sent = 0
  | .chunk =>
    u.sent < u.total ∧
      bodyBytes u.requests = u.log.taken.take (if u.state = .send then u.sent else u.sent + u.want)
  | .commit => bodyBytes u.requests = u.log.taken

/-- **What an upload that runs keeps**; `got` is what the chunk buffer has for
it, if it fills it. -/
structure Running (sha : Bytes → Digest) (u : Upload) (spill : Spill) (got : Option Bytes) :
    Prop where
  keeps : u.spool.Keeps spill u.log.taken
  isSealed : u.spool.isSealed = true
  total : u.total = u.log.taken.length
  digest : u.digest = sha u.log.taken
  stage : u.AtStage
  before : u.spool.st ≠ .reading → bodyBytes u.requests = [] ∧ got = none
  /-- The file is read as far as it was sent, or is in the chunk buffer. -/
  reading : u.spool.st = .reading →
    u.spool.file.pos = (bodyBytes u.requests).length + (got.getD []).length
  /-- Only what fills the chunk buffer is read. -/
  idle : u.spool.st = .reading → got = none → u.spool.file.underway = none
  filling : ∀ chunk, got = some chunk → u.state = .send ∧ chunk.length < u.want ∧
    chunk <+: u.log.taken.drop (bodyBytes u.requests).length ∧
      u.spool.file.Agrees (.read (u.want - chunk.length))

/-- **A poll keeps an upload going**; a file that is read then is read from its
start. -/
theorem Running.poll {sha : Bytes → Digest} {u : Upload} {spill : Spill} {got : Option Bytes}
    (h : u.Running sha spill got) (turns : PollTurns) :
    Running sha { u with spool := (u.spool.poll spill turns).1 } (u.spool.poll spill turns).2
      got := by
  by_cases hst : u.spool.st = .reading
  · rw [Spool.poll_of_reading hst]
    exact ⟨h.keeps, h.isSealed, h.total, h.digest, h.stage, h.before, h.reading, h.idle, h.filling⟩
  obtain ⟨hnil, rfl⟩ := h.before hst
  refine ⟨h.keeps.poll turns, (h.keeps.isSealed_poll turns).trans h.isSealed, h.total, h.digest,
    h.stage, fun _ => ⟨hnil, rfl⟩, fun hr => ?_, fun hr _ => (h.keeps.starts hst turns hr).2.2, nofun⟩
  show (u.spool.poll spill turns).1.file.pos = (bodyBytes u.requests).length + 0
  rw [hnil, (h.keeps.starts hst turns hr).2.1]
  rfl

end Upload

namespace ObjectWorld

variable {sha : Bytes → Digest} {w : ObjectWorld} {i o : ℕ}

/-- What the chunk buffer has for an upload. -/
def got (w : ObjectWorld) (o : ℕ) : Option Bytes :=
  if w.chunkHolder = some o then some w.chunk else none

/-- **What every steady event keeps.** -/
structure Sound (sha : Bytes → Digest) (w : ObjectWorld) : Prop where
  exclusive : w.Exclusive
  streams : ∀ i, (w.streams i).Taking → (w.streams i).Good w.spill
  ops : ∀ o, (w.ops o).Runs → (w.ops o).Running sha w.spill (w.got o)
  sends : ∀ o, (w.ops o).Sends sha
  carried : ∀ i o, (w.streams i).op = some o →
    (w.ops o).state ≠ .free ∧ (w.ops o).stream = some i ∧
      (w.ops o).log.taken = (w.streams i).log.taken
  /-- The chunk buffer is filled for an upload that sends. -/
  holder : ∀ o, w.chunkHolder = some o → (w.ops o).state = .send
  vacant : w.chunkHolder = none → w.chunk = []

theorem Sound.sendsWritten (h : w.Sound sha) : w.SendsWritten sha where
  uploads := h.sends
  carried i o hi := (h.carried i o hi).2.2
  streamFiles i ht hst := ⟨_, ((h.streams i ht).keeps.writing hst).2⟩
  uploadFiles o hr hst := by
    rcases hst with hst | hst
    · exact ⟨_, ((h.ops o hr).keeps.writing hst).2⟩
    · rw [((h.ops o hr).keeps.reading hst).2]

theorem sound_new (sha : Bytes → Digest) : (new).Sound sha := by
  have hsend : Upload.free.Sends sha :=
    ⟨List.nil_prefix, nofun, nofun, nofun, nofun, fun h => absurd rfl h⟩
  have hruns : ¬ Upload.free.Runs := fun h => by rcases h with h | h <;> cases h
  have hfree : ∀ a, (new.spool a).holds = false := fun a => by cases a <;> rfl
  refine ⟨⟨fun a b ha => ?_, fun a ha => ?_⟩, fun i h => ?_, fun o h => absurd h hruns,
    fun _ => hsend, nofun, nofun, fun _ => rfl⟩
  · cases (hfree a).symm.trans ha
  · cases (hfree a).symm.trans ha
  · cases h.1

theorem Sound.setStream (h : w.Sound sha) {st : Stream} {spill : Spill}
    (hq : (w.streams i).spool.Touches w.spill (st.spool, spill))
    (hgood : st.Taking → st.Good spill)
    (hcarried : ∀ o, st.op = some o → (w.ops o).state ≠ .free ∧ (w.ops o).stream = some i ∧
      (w.ops o).log.taken = st.log.taken) :
    Sound sha { w.setStream i st with spill := spill } := by
  have hne : ∀ {j}, j ≠ i → ({ w.setStream i st with spill := spill } : ObjectWorld).streams j
      = w.streams j := fun hj => streams_setStream_ne st hj
  have hself : ({ w.setStream i st with spill := spill } : ObjectWorld).streams i = st :=
    w.streams_setStream_self i st
  have hother : ∀ b, b ≠ .stream i →
      ({ w.setStream i st with spill := spill } : ObjectWorld).spool b = w.spool b := by
    intro b hb
    cases b with
    | stream j => exact congrArg Stream.spool (hne fun hj => hb (congrArg SpoolId.stream hj))
    | op o => rfl
  obtain ⟨hexcl, hkeep⟩ := h.exclusive.touch (a := .stream i) { w.setStream i st with spill := spill }
    hq hother (congrArg Stream.spool hself) rfl
  refine ⟨hexcl, fun j hj => ?_, fun o ho => ?_, h.sends, fun j o hj => ?_, h.holder, h.vacant⟩
  · by_cases hji : j = i
    · subst hji
      rw [hself] at hj ⊢
      exact hgood hj
    have hk := hkeep (.stream j) (fun hs => hji (SpoolId.stream.inj hs))
    rw [hne hji] at hj ⊢
    have hold := h.streams j hj
    have hkept := hk _ hold.keeps
    rw [spool, hne hji] at hkept
    exact ⟨hkept, hold.unsealed, hold.unread, hold.written, hold.hash⟩
  · have hold := h.ops o ho
    exact { hold with keeps := hkeep (.op o) nofun _ hold.keeps }
  · by_cases hji : j = i
    · subst hji
      rw [hself] at hj ⊢
      exact hcarried o hj
    · rw [hne hji] at hj ⊢
      exact h.carried j o hj

/-- The chunk buffer after something is done for upload `o`: it is `o`'s, or
nobody's, or as it was. -/
def Refills (w : ObjectWorld) (o : ℕ) (holder : Option ℕ) (chunk : Bytes) : Prop :=
  (holder = w.chunkHolder ∧ chunk = w.chunk) ∨
    ((∀ o', w.chunkHolder = some o' → o' = o) ∧ ∀ o', holder = some o' → o' = o)

theorem Refills.got_eq {holder : Option ℕ} {chunk : Bytes} (h : w.Refills o holder chunk)
    {o' : ℕ} (ho : o' ≠ o) : (if holder = some o' then some chunk else none) = w.got o' := by
  rcases h with ⟨rfl, rfl⟩ | ⟨hold, hnew⟩
  · rfl
  · rw [if_neg fun hh => ho (hnew o' hh), got, if_neg fun hh => ho (hold o' hh)]

/-- An upload is changed, and its spool and the chunk buffer with it. -/
theorem Sound.setOp (h : w.Sound sha) {u : Upload} {spill : Spill} {holder : Option ℕ}
    {chunk : Bytes} (hq : (w.ops o).spool.Touches w.spill (u.spool, spill))
    (hr : w.Refills o holder chunk)
    (hrun : u.Runs → u.Running sha spill (if holder = some o then some chunk else none))
    (hsends : u.Sends sha)
    (hcarried : ∀ i, (w.streams i).op = some o → u.state ≠ .free ∧ u.stream = some i ∧
      u.log.taken = (w.streams i).log.taken)
    (hholder : holder = some o → u.state = .send) (hvacant : holder = none → chunk = []) :
    Sound sha { w.setOp o u with spill := spill, chunkHolder := holder, chunk := chunk } := by
  have hne : ∀ {j}, j ≠ o → (w.setOp o u).ops j = w.ops j := fun hj => ops_setOp_ne u hj
  have hself := w.ops_setOp_self o u
  have hother : ∀ b, b ≠ .op o →
      ({ w.setOp o u with
        spill := spill, chunkHolder := holder, chunk := chunk } : ObjectWorld).spool b
        = w.spool b := by
    intro b hb
    cases b with
    | stream j => rfl
    | op j => exact congrArg Upload.spool (hne fun hj => hb (congrArg SpoolId.op hj))
  obtain ⟨hexcl, hkeep⟩ := h.exclusive.touch (a := .op o)
    { w.setOp o u with spill := spill, chunkHolder := holder, chunk := chunk } hq hother
    (congrArg Upload.spool hself) rfl
  refine ⟨hexcl, fun j hj => ?_, fun j hj => ?_, fun j => ?_, fun i j hj => ?_, fun j hj => ?_,
    hvacant⟩
  · have hold := h.streams j hj
    exact { hold with keeps := hkeep (.stream j) nofun _ hold.keeps }
  · show ((w.setOp o u).ops j).Running sha spill (if holder = some j then some chunk else none)
    replace hj : ((w.setOp o u).ops j).Runs := hj
    by_cases hjo : j = o
    · subst hjo
      rw [hself] at hj ⊢
      exact hrun hj
    rw [hne hjo] at hj ⊢
    have hold := h.ops j hj
    rw [hr.got_eq hjo]
    have hkept := hkeep (.op j) (fun hs => hjo (SpoolId.op.inj hs)) _ hold.keeps
    rw [hother (.op j) fun hs => hjo (SpoolId.op.inj hs)] at hkept
    exact { hold with keeps := hkept }
  · show ((w.setOp o u).ops j).Sends sha
    by_cases hjo : j = o
    · rw [hjo, hself]
      exact hsends
    · rw [hne hjo]
      exact h.sends j
  · show ((w.setOp o u).ops j).state ≠ .free ∧ ((w.setOp o u).ops j).stream = some i ∧
      ((w.setOp o u).ops j).log.taken = (w.streams i).log.taken
    by_cases hjo : j = o
    · rw [hjo, hself]
      exact hcarried i (hjo ▸ hj)
    · rw [hne hjo]
      exact h.carried i j hj
  · show ((w.setOp o u).ops j).state = .send
    by_cases hjo : j = o
    · rw [hjo, hself]
      exact hholder (hjo ▸ hj)
    · rw [hne hjo]
      rcases hr with ⟨hh, -⟩ | ⟨-, hnew⟩
      · exact h.holder j (hh ▸ hj)
      · exact absurd (hnew j hj) hjo

/-! ## The streams -/

theorem Sound.pollStream (h : w.Sound sha) (i : ℕ) (turns : PollTurns) :
    (w.pollStream i turns).Sound sha := by
  refine h.setStream (Spool.touches_poll _ _ turns) (fun ht => ?_) (h.carried i)
  have hg := h.streams i ht
  refine ⟨hg.keeps.poll turns, (hg.keeps.isSealed_poll turns).trans hg.unsealed, fun hr => ?_,
    hg.written, hg.hash⟩
  cases hg.unsealed.symm.trans (hg.keeps.starts hg.unread turns hr).1

theorem Sound.openStream (h : w.Sound sha) (i : ℕ) (never : Bool) (turns : PollTurns) :
    (w.openStream i never turns).Sound sha := by
  unfold ObjectWorld.openStream
  split
  · exact h
  next hfree =>
  simp only [Bool.or_eq_true, decide_eq_true_eq, not_or, Bool.not_eq_true] at hfree
  have htouch := Spool.touches_poll { Spool.empty with st := .unlink } w.spill turns
  have hkeeps : Spool.Keeps { Spool.empty with st := .unlink } w.spill [] := by
    refine ⟨rfl, by simp, nofun, fun _ => rfl, ?_, ?_, ?_, ?_⟩ <;> simp
  have hstarts := hkeeps.starts (by simp) turns
  dsimp only
  split
  · refine h.setStream ⟨fun _ => nofun, fun _ hb => ⟨rfl, (htouch.others rfl hb).2⟩⟩ (fun ht => ?_)
      (h.carried i)
    cases hfree.1.symm.trans ht.1
  · refine h.setStream ⟨fun _ => htouch.own nofun, fun _ => htouch.others rfl⟩ (fun _ => ?_) nofun
    refine ⟨hkeeps.poll turns, hkeeps.isSealed_poll turns, fun hr => ?_, rfl, rfl⟩
    cases (hstarts hr).1

theorem Sound.answerWrite (h : w.Sound sha) (i : ℕ) (bytes : Bytes) {answer : WriteAnswer}
    (ha : Spool.added bytes answer = []) : (w.answerWrite i bytes answer).Sound sha := by
  have htaken : ((w.streams i).answer bytes answer).log.taken = (w.streams i).log.taken := by
    rw [Stream.taken_answer, ha, List.append_nil]
  refine h.setStream (.of_eq (by simp) rfl) (fun ht => ?_) fun o ho => ?_
  · have hg := h.streams i (Stream.taking_answer.mp ht)
    refine hg.answer (p := ((w.streams i).spool, w.spill)) ?_ rfl
    rw [ha, List.append_nil]
    exact hg.keeps
  · rw [htaken]
    exact h.carried i o ((w.streams i).op_answer bytes answer ▸ ho)

theorem Sound.writeStream (h : w.Sound sha) {i : ℕ} {bytes : Bytes} {turns : PollTurns}
    {turn : FileTurn} (hs : w.Steady (.write i bytes turns turn)) :
    (w.writeStream i bytes turns turn).Sound sha := by
  unfold ObjectWorld.writeStream
  dsimp only
  split
  · exact h
  next huse =>
  split
  · exact h.answerWrite i bytes rfl
  next hbusy =>
  split
  · next hnil => exact h.answerWrite i bytes hnil
  next hne =>
  split
  · exact h.answerWrite i bytes rfl
  next hfits =>
  have ht : (w.streams i).Taking := by
    rw [Bool.not_eq_true', Bool.not_eq_false] at huse
    rw [Bool.or_eq_true, not_or, Option.not_isSome_iff_eq_none, Option.not_isSome_iff_eq_none]
      at hbusy
    exact ⟨huse, hbusy⟩
  have hpolled := h.pollStream i turns
  have hclear := hs ht hne (Nat.not_lt.mp hfits)
  have hst : (w.pollStream i turns).streams i = { w.streams i with
      spool := ((w.streams i).spool.poll w.spill turns).1 } := w.streams_setStream_self i _
  have ht' : ((w.pollStream i turns).streams i).Taking := by
    rw [hst]
    exact ht
  generalize w.pollStream i turns = w' at hpolled hclear ht' ⊢
  have hg := hpolled.streams i ht'
  have htake : ∀ hst : (w'.streams i).spool.st = .unlink ∨ (w'.streams i).spool.st = .create ∨
      (w'.streams i).spool.st = .ready,
      ((w'.setSpool i ((w'.streams i).spool.takeWrite w'.spill bytes turn).1).answerWrite i bytes
        ((w'.streams i).spool.takeWrite w'.spill bytes turn).2).Sound sha := by
    intro hst
    generalize hw : (w'.streams i).spool.takeWrite w'.spill bytes turn = r
    obtain ⟨q, answer⟩ := r
    have htouch := Spool.touches_takeWrite (w'.streams i).spool w'.spill bytes turn
    have hkeeps := hg.keeps.takeWrite hst hg.unsealed hclear turn
    have hphase := Spool.phase_takeWrite (w'.streams i).spool w'.spill bytes turn
    rw [hw] at htouch hkeeps hphase
    have hworld : (w'.setSpool i q).answerWrite i bytes answer
        = { w'.setStream i ({ w'.streams i with spool := q.1 }.answer bytes answer) with
            spill := q.2 } := by
      simp only [ObjectWorld.answerWrite, setSpool, ObjectWorld.setStream, Function.update_self,
        Function.update_idem]
    rw [hworld]
    refine hpolled.setStream ?_ (fun _ => hg.answer hkeeps hphase) fun o ho => ?_
    · rw [Stream.spool_answer]
      exact htouch
    · rw [Stream.op_answer] at ho
      cases ht'.2.1.symm.trans ho
  split
  · exact hpolled.answerWrite i bytes rfl
  · next hst => exact htake (.inl hst)
  · next hst => exact htake (.inr (.inl hst))
  · next hst => exact htake (.inr (.inr hst))
  all_goals exact hpolled.answerWrite i bytes rfl

/-! ## The uploads -/

theorem Sound.pollOp (h : w.Sound sha) (o : ℕ) (turns : PollTurns) :
    (w.pollOp o turns).Sound sha := by
  have hs := h.sends o
  exact h.setOp (Spool.touches_poll _ _ turns) (.inl ⟨rfl, rfl⟩)
    (fun hr => (h.ops o hr).poll turns) ⟨hs.sent, hs.whole, hs.complete, hs.stored, hs.opened,
      hs.declared⟩ (fun i hi => h.carried i o hi) (h.holder o) h.vacant

theorem releaseChunk_spill (w : ObjectWorld) (o : ℕ) : (w.releaseChunk o).spill = w.spill := by
  unfold releaseChunk
  split <;> rfl

theorem releaseChunk_ops (w : ObjectWorld) (o : ℕ) : (w.releaseChunk o).ops = w.ops := by
  unfold releaseChunk
  split <;> rfl

/-- An upload that is decided, or freed, is not the one the chunk buffer is
filled for. -/
theorem Sound.setIdle (h : w.Sound sha) {u : Upload} {spill : Spill}
    (hq : (w.ops o).spool.Touches w.spill (u.spool, spill)) (hrun : ¬ u.Runs)
    (hsends : u.Sends sha)
    (hcarried : ∀ i, (w.streams i).op = some o → u.state ≠ .free ∧ u.stream = some i ∧
      u.log.taken = (w.streams i).log.taken) :
    Sound sha { (w.releaseChunk o).setOp o u with spill := spill } := by
  unfold releaseChunk
  split
  · next hh =>
    refine h.setOp hq (.inr ⟨fun o' ho' => ?_, nofun⟩) (fun hr => absurd hr hrun) hsends hcarried
      nofun fun _ => rfl
    exact (Option.some.inj (hh.symm.trans ho')).symm
  · next hh =>
    exact h.setOp hq (.inl ⟨rfl, rfl⟩) (fun hr => absurd hr hrun) hsends hcarried
      (fun ho => absurd ho hh) h.vacant

theorem Sound.decideOp (h : w.Sound sha) (hr : (w.ops o).Runs) {result : Bool}
    (hres : result = true → bodyBytes (w.ops o).requests = (w.ops o).log.taken) :
    (w.decideOp o result).Sound sha := by
  have hs := h.sends o
  have hfree : (w.ops o).state ≠ .free := fun hf => by
    rcases hr with hr | hr
    all_goals cases hr.symm.trans hf
  refine h.setIdle (.of_eq rfl (w.releaseChunk_spill o)) (fun hd => ?_) ⟨hs.sent, hs.whole,
    hs.complete, hres, hs.opened, fun _ => hs.declared hfree⟩ fun i hi => ⟨nofun, (h.carried i o hi).2⟩
  rcases hd with hd | hd
  all_goals cases hd

theorem Sound.freeOp (h : w.Sound sha) (hfree : ∀ i, (w.streams i).op ≠ some o)
    (turns : PollTurns) : (w.freeOp o turns).Sound sha := by
  have hs := h.sends o
  unfold ObjectWorld.freeOp
  dsimp only
  rw [w.releaseChunk_spill o, w.releaseChunk_ops o]
  refine h.setIdle (Spool.touches_release _ _ turns) (fun hd => ?_) ⟨hs.sent, hs.whole,
    hs.complete, hs.stored, hs.opened, nofun⟩ fun i hi => absurd hi (hfree i)
  rcases hd with hd | hd
  all_goals cases hd

theorem prefix_drop_append {T chunk bytes : Bytes} {b : ℕ} (h : chunk <+: T.drop b)
    (hb : bytes <+: T.drop (b + chunk.length)) : chunk ++ bytes <+: T.drop b := by
  obtain ⟨r, hr⟩ := h
  have hdrop : T.drop (b + chunk.length) = r := by
    rw [← List.drop_drop, ← hr]
    exact List.drop_left
  obtain ⟨s, hs⟩ := hdrop ▸ hb
  exact ⟨s, by rw [List.append_assoc, hs, hr]⟩

/-- The upload, with its file read further. -/
def readFile (u : Upload) (file : AsyncFile UInt8) : Upload :=
  { u with spool := { u.spool with file := file } }

/-- A body an upload has read whole. -/
structure Whole (w : ObjectWorld) (o : ℕ) (file : AsyncFile UInt8) (holder : Option ℕ)
    (chunk bytes : Bytes) : Prop where
  /-- It is as long as the next request takes. -/
  length : bytes.length = (w.ops o).want
  next : bytes <+: (w.ops o).log.taken.drop (bodyBytes (w.ops o).requests).length
  read : (w.ops o).spool.st = .reading → file.bytes = (w.ops o).spool.file.bytes ∧
    file.pos = (bodyBytes (w.ops o).requests).length + bytes.length ∧ file.underway = none
  /-- A file that is not read yet gives nothing. -/
  unread : (w.ops o).spool.st ≠ .reading → file = (w.ops o).spool.file ∧ bytes = []
  refills : w.Refills o holder chunk
  free : holder ≠ some o
  vacant : holder = none → chunk = []

/-- The module, with an upload's file read further, and the chunk buffer. -/
def readOn (w : ObjectWorld) (o : ℕ) (file : AsyncFile UInt8) (holder : Option ℕ)
    (chunk : Bytes) : ObjectWorld :=
  { w.setOp o (readFile (w.ops o) file) with chunkHolder := holder, chunk := chunk }

theorem ops_readOn (w : ObjectWorld) (o : ℕ) (file : AsyncFile UInt8) (holder : Option ℕ)
    (chunk : Bytes) : (w.readOn o file holder chunk).ops o = readFile (w.ops o) file :=
  Function.update_self ..

theorem setOp_readOn (w : ObjectWorld) (o : ℕ) (file : AsyncFile UInt8) (holder : Option ℕ)
    (chunk : Bytes) (u : Upload) : (w.readOn o file holder chunk).setOp o u
      = { w.setOp o u with chunkHolder := holder, chunk := chunk } := by
  simp only [readOn, setOp, Function.update_idem]

theorem readOn_self (w : ObjectWorld) (o : ℕ) :
    w.readOn o (w.ops o).spool.file w.chunkHolder w.chunk = w := by
  show { w with ops := Function.update w.ops o (w.ops o) } = w
  rw [Function.update_eq_self]

/-- A request without a body reads nothing. -/
theorem Sound.whole_nil (h : w.Sound sha) (hst : (w.ops o).state = .send)
    (hzero : (w.ops o).want = 0) :
    w.Whole o (w.ops o).spool.file w.chunkHolder w.chunk [] := by
  have hrun := h.ops o (.inl hst)
  have hgot : w.got o = none := by
    cases hg : w.got o with
    | none => rfl
    | some chunk =>
      obtain ⟨-, hlt, -⟩ := hrun.filling chunk hg
      rw [hzero] at hlt
      cases hlt
  have hfree : w.chunkHolder ≠ some o := fun hh => by
    rw [got, if_pos hh] at hgot
    cases hgot
  refine ⟨hzero.symm, List.nil_prefix, fun hr => ⟨rfl, ?_, hrun.idle hr hgot⟩,
    fun _ => ⟨rfl, rfl⟩, .inl ⟨rfl, rfl⟩, hfree, h.vacant⟩
  rw [hrun.reading hr, hgot]
  rfl

/-- An upload fills the chunk buffer further. -/
theorem Sound.fillChunk (h : w.Sound sha) (hst : (w.ops o).state = .send)
    (hread : (w.ops o).spool.st = .reading) (hmine : ∀ o', w.chunkHolder = some o' → o' = o)
    (file : AsyncFile UInt8) (chunk : Bytes) (hb : file.bytes = (w.ops o).spool.file.bytes)
    (hp : file.pos = (bodyBytes (w.ops o).requests).length + chunk.length)
    (hlt : chunk.length < (w.ops o).want)
    (hpre : chunk <+: (w.ops o).log.taken.drop (bodyBytes (w.ops o).requests).length)
    (hag : file.Agrees (.read ((w.ops o).want - chunk.length))) :
    (w.readOn o file (some o) chunk).Sound sha := by
  have hs := h.sends o
  have hrun := h.ops o (.inl hst)
  refine h.setOp (.of_eq rfl rfl) (.inr ⟨hmine, fun o' ho' => (Option.some.inj ho').symm⟩)
    (fun _ => ?_) ⟨hs.sent, hs.whole, hs.complete, hs.stored, hs.opened, hs.declared⟩
    (fun i hi => h.carried i o hi) (fun _ => hst) nofun
  rw [if_pos rfl]
  refine ⟨hrun.keeps.readFile hread hb, hrun.isSealed, hrun.total, hrun.digest, hrun.stage,
    fun hn => absurd hread hn, fun _ => hp, nofun, fun c hc => ?_⟩
  obtain rfl := Option.some.inj hc
  exact ⟨hst, hlt, hpre, hag⟩

/-- **The bytes of an upload come whole, in order, or not yet, or never.** -/
theorem Sound.uploadBytes (h : w.Sound sha) (hst : (w.ops o).state = .send) (turn : FileTurn) :
    ((w.uploadBytes o (w.ops o).want turn).2 = .notYet ∧
        (w.uploadBytes o (w.ops o).want turn).1.Sound sha) ∨
      ((w.uploadBytes o (w.ops o).want turn).2 = .failed ∧
        (w.uploadBytes o (w.ops o).want turn).1.Sound sha ∧
          ((w.uploadBytes o (w.ops o).want turn).1.ops o).Runs) ∨
      ∃ file holder chunk bytes, w.Whole o file holder chunk bytes ∧
        w.uploadBytes o (w.ops o).want turn
          = (w.readOn o file holder chunk, .ready bytes) := by
  have hruns : (w.ops o).Runs := .inl hst
  have hrun := h.ops o hruns
  unfold ObjectWorld.uploadBytes
  split
  · next hzero =>
    exact .inr (.inr ⟨(w.ops o).spool.file, w.chunkHolder, w.chunk, [], h.whole_nil hst hzero,
      by rw [w.readOn_self o]⟩)
  next hpos =>
  split
  · exact .inl ⟨rfl, h⟩
  · exact .inl ⟨rfl, h⟩
  · exact .inl ⟨rfl, h⟩
  · exact .inr (.inl ⟨rfl, h, hruns⟩)
  · exact .inr (.inl ⟨rfl, h, hruns⟩)
  · exact .inr (.inl ⟨rfl, h, hruns⟩)
  next hread =>
  split
  · exact .inl ⟨rfl, h⟩
  next hother =>
  have hmine : ∀ o', w.chunkHolder = some o' → o' = o := fun o' ho' => by
    rw [ho'] at hother
    simpa using hother
  obtain ⟨hlt, hpre, hag⟩ : w.chunk.length < (w.ops o).want ∧
      w.chunk <+: (w.ops o).log.taken.drop (bodyBytes (w.ops o).requests).length ∧
      (w.ops o).spool.file.Agrees (.read ((w.ops o).want - w.chunk.length)) := by
    cases hh : w.chunkHolder with
    | none =>
      have hgot : w.got o = none := by rw [got, hh]; rfl
      rw [h.vacant hh]
      exact ⟨Nat.pos_of_ne_zero hpos, List.nil_prefix,
        AsyncFile.agrees_of_none (hrun.idle hread hgot)⟩
    | some o' =>
      obtain rfl := hmine o' hh
      exact (hrun.filling w.chunk (if_pos hh)).2
  have hfilepos : (w.ops o).spool.file.pos
      = (bodyBytes (w.ops o).requests).length + w.chunk.length := by
    rw [hrun.reading hread]
    cases hh : w.chunkHolder with
    | none =>
      rw [h.vacant hh, got, hh]
      rfl
    | some o' =>
      obtain rfl := hmine o' hh
      rw [got, if_pos hh]
      rfl
  have hfill := h.fillChunk hst hread hmine
  have hstill : ∀ file, (Function.update w.ops o (readFile (w.ops o) file) o).Runs := fun file => by
    rw [Function.update_self]
    exact hruns
  dsimp only
  rw [if_pos hlt]
  rcases AsyncFile.ask_spec hag turn with
    ⟨hreply, hb, hp, hag'⟩ | ⟨hreply, hfile⟩ | ⟨k, hask⟩
  · rw [hreply]
    exact .inl ⟨rfl, hfill _ w.chunk hb (hp.trans hfilepos) hlt hpre hag'⟩
  · rw [hreply]
    refine .inr (.inl ⟨rfl, hfill _ w.chunk (by rw [hfile]) (by rw [hfile]; exact hfilepos) hlt hpre
      (AsyncFile.agrees_of_none (by rw [hfile])), ?_⟩)
    exact hstill _
  · rw [hask]
    dsimp only
    have hbytes : (w.ops o).spool.file.bytes = (w.ops o).log.taken := (hrun.keeps.reading hread).2
    generalize hpart : (w.ops o).spool.file.portion k (.read ((w.ops o).want - w.chunk.length))
      = part
    have hread' := AsyncFile.portion_read (w.ops o).spool.file
      ((w.ops o).want - w.chunk.length) k
    rw [hpart, hbytes, hfilepos] at hread'
    have hnext : w.chunk ++ part <+:
        (w.ops o).log.taken.drop (bodyBytes (w.ops o).requests).length :=
      prefix_drop_append hpre (hread'.trans (List.take_prefix _ _))
    have hlen : (w.chunk ++ part).length ≤ (w.ops o).want := by
      have hle := hread'.length_le
      rw [List.length_take] at hle
      rw [List.length_append]
      omega
    have hpos' : ((w.ops o).spool.file.perform k (.read ((w.ops o).want - w.chunk.length))).pos
        = (bodyBytes (w.ops o).requests).length + (w.chunk ++ part).length := by
      show (w.ops o).spool.file.pos + _ = _
      rw [hpart, hfilepos, List.length_append, Nat.add_assoc]
    split
    · next hnil =>
      rw [hnil, List.append_nil] at hpos'
      exact .inr (.inl ⟨rfl, hfill _ w.chunk rfl hpos' hlt hpre (AsyncFile.agrees_of_none rfl),
        hstill _⟩)
    split
    · next hpartial =>
      exact .inl ⟨rfl, hfill _ (w.chunk ++ part) rfl hpos' hpartial hnext
        (AsyncFile.agrees_of_none rfl)⟩
    next hwhole =>
    have hall : (w.chunk ++ part).length = (w.ops o).want :=
      Nat.le_antisymm hlen (Nat.not_lt.mp hwhole)
    have htake : (w.chunk ++ part).take (w.ops o).want = w.chunk ++ part := by
      rw [← hall, List.take_length]
    refine .inr (.inr ⟨(w.ops o).spool.file.perform k _, none, [], w.chunk ++ part, ?_,
      Prod.ext rfl (congrArg UploadBody.ready htake)⟩)
    exact ⟨hall, hnext, fun _ => ⟨rfl, hpos', rfl⟩, fun hn => absurd hread hn,
      .inr ⟨hmine, nofun⟩, nofun, fun _ => rfl⟩

theorem bodyBytes_append (rs : List UploadRequest) (r : UploadRequest) :
    bodyBytes (rs ++ [r]) = bodyBytes rs ++ r.body := by
  simp [bodyBytes]

/-- The request says what was written. -/
structure Tells (sha : Bytes → Digest) (u : Upload) (r : UploadRequest) : Prop where
  closes : (r = .commit ∨ ∃ body, r = .putFile body) →
    bodyBytes (u.requests ++ [r]) = u.log.taken
  opens : ∀ digest total, r = .open digest total →
    digest = sha u.log.taken ∧ total = u.log.taken.length

/-- **A request is sent, or cannot be made.** -/
theorem Sound.sendRequest (h : w.Sound sha) (hst : (w.ops o).state = .send)
    {file : AsyncFile UInt8} {holder : Option ℕ} {chunk bytes : Bytes}
    (hw : w.Whole o file holder chunk bytes) {r : UploadRequest} (hbody : r.body = bytes)
    (ht : Tells sha (w.ops o) r)
    (hstage : { w.ops o with
      state := .sent, requests := (w.ops o).requests ++ [r] }.AtStage) (encodes : Bool) :
    ((w.readOn o file holder chunk).sendRequest o encodes r).Sound sha := by
  have hs := h.sends o
  have hrun := h.ops o (.inl hst)
  have hfree : (w.ops o).state ≠ .free := fun hf => by cases hst.symm.trans hf
  have hkeeps : (readFile (w.ops o) file).spool.Keeps w.spill (w.ops o).log.taken := by
    by_cases hread : (w.ops o).spool.st = .reading
    · exact hrun.keeps.readFile hread (hw.read hread).1
    obtain ⟨rfl, -⟩ := hw.unread hread
    exact hrun.keeps
  have hbodies := bodyBytes_append (w.ops o).requests r
  rw [hbody] at hbodies
  -- what is complete stays so: nothing comes behind it
  have hend : bodyBytes (w.ops o).requests = (w.ops o).log.taken →
      bodyBytes ((w.ops o).requests ++ [r]) = (w.ops o).log.taken := fun hall => by
    have hnext := hw.next
    rw [hall, List.drop_length, List.prefix_nil] at hnext
    rw [hbodies, hnext, List.append_nil, hall]
  unfold ObjectWorld.sendRequest
  split
  · rw [ops_readOn, setOp_readOn]
    refine h.setOp (.of_eq rfl rfl) hw.refills (fun _ => ?_) ?_ (fun i hi => ?_)
      (fun hh => absurd hh hw.free) hw.vacant
    · rw [if_neg hw.free]
      refine ⟨hkeeps, hrun.isSealed, hrun.total, hrun.digest, hstage, fun hn => ?_, fun hr => ?_,
        fun hr _ => (hw.read hr).2.2, nofun⟩
      · obtain ⟨-, hnil⟩ := hw.unread hn
        refine ⟨?_, rfl⟩
        show bodyBytes ((w.ops o).requests ++ [r]) = []
        rw [hbodies, hnil, (hrun.before hn).1]
        rfl
      · show file.pos = (bodyBytes ((w.ops o).requests ++ [r])).length + 0
        rw [hbodies, List.length_append, (hw.read hr).2.1]
        rfl
    · have hmem : ∀ {r'}, r' ∈ (w.ops o).requests ++ [r] → r' ∈ (w.ops o).requests ∨ r = r' :=
        fun hr' => (List.mem_append.mp hr').imp_right fun h' => (List.mem_singleton.mp h').symm
      refine ⟨?_, fun body hb => ?_, fun hc => ?_, fun hr => hend (hs.stored hr),
        fun digest total ho => ?_, fun _ => hs.declared hfree⟩
      · show bodyBytes ((w.ops o).requests ++ [r]) <+: (w.ops o).log.taken
        rw [hbodies]
        exact prefix_drop_append (b := 0) hs.sent (by rw [Nat.zero_add]; exact hw.next)
      · rcases hmem hb with hb | hb
        · exact hend (hs.whole body hb)
        · exact ht.closes (.inr ⟨body, hb⟩)
      · rcases hmem hc with hc | hc
        · exact hend (hs.complete hc)
        · exact ht.closes (.inl hc)
      · rcases hmem ho with ho | ho
        · exact hs.opened digest total ho
        · exact ht.opens digest total ho
    · exact ⟨nofun, (h.carried i o hi).2⟩
  · have hother : (w.readOn o file holder chunk).chunkHolder ≠ some o := hw.free
    unfold ObjectWorld.decideOp releaseChunk
    rw [if_neg hother, ops_readOn, setOp_readOn]
    refine h.setOp (.of_eq rfl rfl) hw.refills (fun hd => ?_) ⟨hs.sent, hs.whole, hs.complete, nofun,
      hs.opened, fun _ => hs.declared hfree⟩ (fun i hi => ⟨nofun, (h.carried i o hi).2⟩)
      (fun hh => absurd hh hw.free) hw.vacant
    rcases hd with hd | hd
    all_goals cases hd

/-- A body is sent once it has come whole. -/
theorem Sound.sendBody (h : w.Sound sha) (hst : (w.ops o).state = .send)
    {mk : Bytes → UploadRequest} (hbody : ∀ bytes, (mk bytes).body = bytes)
    (hsend : ∀ bytes, bytes.length = (w.ops o).want →
      bytes <+: (w.ops o).log.taken.drop (bodyBytes (w.ops o).requests).length →
        Tells sha (w.ops o) (mk bytes) ∧
          { w.ops o with state := .sent, requests := (w.ops o).requests ++ [mk bytes] }.AtStage)
    (encodes : Bool) (turn : FileTurn) :
    (ObjectWorld.sendBody (w.uploadBytes o (w.ops o).want turn) o encodes mk).Sound sha := by
  unfold ObjectWorld.sendBody
  rcases h.uploadBytes hst turn with ⟨hreply, hs⟩ | ⟨hreply, hs, hr⟩ |
    ⟨file, holder, chunk, bytes, hw, heq⟩
  · rw [hreply]
    exact hs
  · rw [hreply]
    exact hs.decideOp hr nofun
  · rw [heq]
    obtain ⟨htell, hstage⟩ := hsend bytes hw.length hw.next
    exact h.sendRequest hst hw (hbody bytes) htell hstage encodes

theorem Sound.stageOp (h : w.Sound sha) (o : ℕ) (admitted encodes : Bool) (turn : FileTurn) :
    (w.stageOp o admitted encodes turn).Sound sha := by
  unfold ObjectWorld.stageOp
  dsimp only
  split
  · exact h
  next hst =>
  rw [not_not] at hst
  split
  · exact h.decideOp (.inl hst) nofun
  have hrun := h.ops o (.inl hst)
  have hat := hrun.stage
  -- a request without a body
  have hempty : ∀ r : UploadRequest, r.body = [] → (w.ops o).want = 0 → Tells sha (w.ops o) r →
      { w.ops o with state := .sent, requests := (w.ops o).requests ++ [r] }.AtStage →
        (w.sendRequest o encodes r).Sound sha := by
    intro r hr hzero htell hstage
    have hsent := h.sendRequest hst (h.whole_nil hst hzero) hr htell hstage encodes
    rwa [w.readOn_self o] at hsent
  have hsame : ∀ r : UploadRequest, r.body = [] →
      bodyBytes ((w.ops o).requests ++ [r]) = bodyBytes (w.ops o).requests := fun r hr => by
    rw [bodyBytes_append, hr, List.append_nil]
  split
  · next hstage =>
    have hwant : (w.ops o).want = (w.ops o).total := by rw [Upload.want, hstage]
    rw [← hwant]
    unfold Upload.AtStage at hat
    rw [hstage] at hat
    refine h.sendBody hst (fun _ => rfl) (fun bytes hlen hnext => ?_) encodes turn
    rw [hat.1 hst] at hnext ⊢
    have hall : bytes = (w.ops o).log.taken :=
      hnext.eq_of_length (hlen.trans (hwant.trans hrun.total))
    have hbody : bodyBytes [UploadRequest.putFile bytes] = (w.ops o).log.taken := by
      rw [← hall]
      exact List.append_nil bytes
    refine ⟨⟨fun _ => by rw [hat.1 hst]; exact hbody, nofun⟩, ?_⟩
    unfold Upload.AtStage
    rw [hstage]
    exact ⟨nofun, fun _ => hbody⟩
  · next hstage =>
    unfold Upload.AtStage at hat
    rw [hstage] at hat
    refine hempty _ rfl (by rw [Upload.want, hstage]) ⟨?_, ?_⟩ ?_
    · rintro (hr | ⟨body, hr⟩) <;> cases hr
    · intro digest total ho
      cases ho
      exact ⟨hrun.digest, hrun.total⟩
    · unfold Upload.AtStage
      rw [hstage]
      exact ⟨(hsame _ rfl).trans hat.1, hat.2⟩
  · next hstage =>
    have hwant : (w.ops o).want = min ((w.ops o).total - (w.ops o).sent) maxBody := by
      rw [Upload.want, hstage]
    rw [← hwant]
    unfold Upload.AtStage at hat
    rw [hstage, hst, if_pos rfl] at hat
    obtain ⟨hlt, hsent⟩ := hat
    refine h.sendBody hst (fun _ => rfl) (fun bytes hlen hnext => ?_) encodes turn
    refine ⟨⟨?_, nofun⟩, ?_⟩
    · rintro (hr | ⟨body, hr⟩) <;> cases hr
    unfold Upload.AtStage
    rw [hstage]
    refine ⟨hlt, ?_⟩
    show bodyBytes ((w.ops o).requests ++ [.chunk bytes])
      = (w.ops o).log.taken.take ((w.ops o).sent + (w.ops o).want)
    have hle : (w.ops o).sent ≤ (w.ops o).log.taken.length := hrun.total ▸ hlt.le
    rw [hsent, List.length_take, Nat.min_eq_left hle] at hnext
    rw [bodyBytes_append, hsent, List.take_add, ← hlen, ← List.prefix_iff_eq_take.mp hnext]
    rfl
  · next hstage =>
    unfold Upload.AtStage at hat
    rw [hstage] at hat
    have hall := (hsame .commit rfl).trans hat
    refine hempty _ rfl (by rw [Upload.want, hstage]) ⟨fun _ => hall, nofun⟩ ?_
    unfold Upload.AtStage
    rw [hstage]
    exact hall

theorem Sound.answerOp (h : w.Sound sha) (o : ℕ) (ack : UploadAck) :
    (w.answerOp o ack).Sound sha := by
  unfold ObjectWorld.answerOp
  dsimp only
  split
  · exact h
  next hst =>
  rw [not_not] at hst
  have hrun := h.ops o (.inr hst)
  have hs := h.sends o
  have hat := hrun.stage
  split
  · exact h.decideOp (.inr hst) nofun
  next digest =>
  have hfree : w.chunkHolder ≠ some o := fun hh => by cases hst.symm.trans (h.holder o hh)
  have hgot : w.got o = none := if_neg hfree
  -- the upload goes on to its next request
  have hnext : ∀ (sent : ℕ) (stage : UploadStage),
      { w.ops o with sent := sent, stage := stage, state := .send }.AtStage →
        (w.setOp o { w.ops o with sent := sent, stage := stage, state := .send }).Sound sha := by
    intro sent stage hstage
    refine h.setOp (.of_eq rfl rfl) (.inl ⟨rfl, rfl⟩) (fun _ => ?_) ⟨hs.sent, hs.whole, hs.complete,
      hs.stored, hs.opened, fun _ => ⟨hrun.digest, hrun.total⟩⟩
      (fun i hi => ⟨nofun, (h.carried i o hi).2⟩) (fun hh => absurd hh hfree) h.vacant
    rw [if_neg hfree]
    have hread := hrun.reading
    have hidle := hrun.idle
    rw [hgot] at hread hidle
    exact ⟨hrun.keeps, hrun.isSealed, hrun.total, hrun.digest, hstage,
      fun hn => ⟨(hrun.before hn).1, rfl⟩, hread, hidle, nofun⟩
  unfold Upload.AtStage at hat
  split
  · next hstage =>
    rw [hstage] at hat
    refine hnext _ _ ?_
    unfold Upload.AtStage
    by_cases hzero : (w.ops o).total = 0
    · rw [if_pos hzero]
      have hnil : (w.ops o).log.taken = [] :=
        List.length_eq_zero_iff.mp (hrun.total.symm.trans hzero)
      exact hat.1.trans hnil.symm
    rw [if_neg hzero]
    refine ⟨?_, ?_⟩
    · show (w.ops o).sent < (w.ops o).total
      rw [hat.2]
      exact Nat.pos_of_ne_zero hzero
    · show bodyBytes (w.ops o).requests = (w.ops o).log.taken.take (w.ops o).sent
      rw [hat.1, hat.2]
      rfl
  · next hstage =>
    have hwant : (w.ops o).want = min ((w.ops o).total - (w.ops o).sent) maxBody := by
      rw [Upload.want, hstage]
    rw [hstage, hst, if_neg OpState.noConfusion] at hat
    obtain ⟨hlt, hsent⟩ := hat
    refine hnext _ _ ?_
    rw [← hwant]
    unfold Upload.AtStage
    by_cases hdone : (w.ops o).total ≤ (w.ops o).sent + (w.ops o).want
    · rw [if_pos hdone]
      show bodyBytes (w.ops o).requests = (w.ops o).log.taken
      rw [hsent, List.take_of_length_le (hrun.total ▸ hdone)]
    · rw [if_neg hdone]
      exact ⟨Nat.not_le.mp hdone, hsent⟩
  · next hstage =>
    rw [hstage] at hat
    exact h.decideOp (.inr hst) fun _ => hat.2 hst
  · next hstage =>
    rw [hstage] at hat
    exact h.decideOp (.inr hst) fun _ => hat

/-! ## Commits -/

theorem streams_freeOp (w : ObjectWorld) (o : ℕ) (turns : PollTurns) :
    (w.freeOp o turns).streams = w.streams := by
  unfold freeOp releaseChunk
  split <;> rfl

theorem streams_leaveOp (w : ObjectWorld) (o : ℕ) (turns : PollTurns) :
    (w.leaveOp o turns).streams = w.streams := by
  unfold leaveOp
  dsimp only
  split
  · exact streams_freeOp _ o turns
  · rfl

/-- A stream that no longer waits for an upload leaves it to nobody. -/
theorem Sound.unclaimed (h : w.Sound sha) {st : Stream} (hi : (w.streams i).op = some o)
    (hst : st.op = none) (j : ℕ) : ((w.setStream i st).streams j).op ≠ some o := by
  intro hj
  by_cases hji : j = i
  · rw [hji, streams_setStream_self, hst] at hj
    cases hj
  · rw [streams_setStream_ne st hji] at hj
    exact hji (Option.some.inj ((h.carried j o hj).2.1.symm.trans (h.carried i o hi).2.1))

theorem Sound.leaveOp (h : w.Sound sha) (hfree : ∀ i, (w.streams i).op ≠ some o)
    (turns : PollTurns) : (w.leaveOp o turns).Sound sha := by
  have hs := h.sends o
  have hleft : (w.setOp o { w.ops o with stream := none }).Sound sha :=
    h.setOp (.of_eq rfl rfl) (.inl ⟨rfl, rfl⟩)
      (fun hr => by
        have hrun := h.ops o hr
        exact ⟨hrun.keeps, hrun.isSealed, hrun.total, hrun.digest, hrun.stage, hrun.before,
          hrun.reading, hrun.idle, hrun.filling⟩)
      ⟨hs.sent, hs.whole, hs.complete, hs.stored, hs.opened, hs.declared⟩
      (fun i hi => absurd hi (hfree i)) (h.holder o) h.vacant
  unfold ObjectWorld.leaveOp
  dsimp only
  split
  · exact hleft.freeOp hfree turns
  · exact hleft

theorem Sound.freeStream (h : w.Sound sha) (i : ℕ) (ofOp ofStream : PollTurns) :
    (w.freeStream i ofOp ofStream).Sound sha := by
  unfold ObjectWorld.freeStream
  split
  · exact h
  dsimp only
  have hclosed : (w.setStream i { w.streams i with inUse := false, op := none }).Sound sha :=
    h.setStream (.of_eq rfl rfl) (fun ht => by cases ht.1) nofun
  have hstream : (w.setStream i { w.streams i with inUse := false, op := none }).streams i
      = { w.streams i with inUse := false, op := none } := w.streams_setStream_self i _
  have hrelease : ∀ w' : ObjectWorld, w'.Sound sha →
      w'.streams i = { w.streams i with inUse := false, op := none } →
        Sound sha { w'.setStream i { w'.streams i with
          spool := ((w.streams i).spool.release w'.spill ofStream).1 } with
            spill := ((w.streams i).spool.release w'.spill ofStream).2 } := by
    intro w' hw' hst
    refine hw'.setStream ?_ (fun ht => ?_) fun o ho => ?_
    · rw [hst]
      exact Spool.touches_release _ _ _
    · rw [hst] at ht
      cases ht.1
    · rw [hst] at ho
      cases ho
  cases hop : (w.streams i).op with
  | none => exact hrelease _ hclosed hstream
  | some o =>
    refine hrelease _ (hclosed.leaveOp (h.unclaimed hop rfl) ofOp) ?_
    show (ObjectWorld.leaveOp _ o ofOp).streams i = _
    rw [streams_leaveOp]
    exact hstream

/-- The spill goes with the spool it waits for. -/
theorem Exclusive.move (h : w.Exclusive) {st : Stream} {u : Upload}
    (hst : st.spool.holds = false) (hu : u.spool.holds = (w.streams i).spool.holds) :
    ((w.setStream i st).setOp o u).Exclusive := by
  -- where the holder of the spill had it
  have hwas : ∀ a, (((w.setStream i st).setOp o u).spool a).holds = true →
      (a = .op o ∧ (w.spool (.stream i)).holds = true) ∨
        (a ≠ .op o ∧ a ≠ .stream i ∧ (w.spool a).holds = true) := by
    intro a ha
    cases a with
    | stream j =>
      by_cases hji : j = i
      · replace ha : ((w.setStream i st).streams j).spool.holds = true := ha
        rw [hji, streams_setStream_self, hst] at ha
        cases ha
      · replace ha : ((w.setStream i st).streams j).spool.holds = true := ha
        rw [streams_setStream_ne st hji] at ha
        exact .inr ⟨nofun, fun hj => hji (SpoolId.stream.inj hj), ha⟩
    | op j =>
      by_cases hjo : j = o
      · replace ha : ((w.setOp o u).ops j).spool.holds = true := ha
        rw [hjo, ops_setOp_self, hu] at ha
        exact .inl ⟨congrArg SpoolId.op hjo, ha⟩
      · replace ha : ((w.setOp o u).ops j).spool.holds = true := ha
        rw [ops_setOp_ne u hjo] at ha
        exact .inr ⟨fun hj => hjo (SpoolId.op.inj hj), nofun, ha⟩
  refine ⟨fun a b ha hb => ?_, fun a ha => ?_⟩
  · rcases hwas a ha with ⟨hao, hi⟩ | ⟨-, hai, ha⟩
    · rcases hwas b hb with ⟨hbo, -⟩ | ⟨-, hbi, hb⟩
      · rw [hao, hbo]
      · exact absurd (h.one _ _ hb hi) hbi
    · rcases hwas b hb with ⟨-, hi⟩ | ⟨-, -, hb⟩
      · exact absurd (h.one _ _ ha hi) hai
      · exact h.one a b ha hb
  · rcases hwas a ha with ⟨-, hi⟩ | ⟨-, -, ha⟩
    · exact h.busy _ hi
    · exact h.busy a ha

theorem Sound.startUpload (h : w.Sound sha) (ht : (w.streams i).Taking)
    (hfree : (w.ops o).state = .free)
    (hclear : (w.streams i).spool.st = .ready → (w.streams i).spool.holds = false →
      (w.streams i).spool.file.underway = none) (turns : PollTurns) :
    (w.startUpload sha i o turns).Sound sha := by
  have hg := h.streams i ht
  unfold ObjectWorld.startUpload
  dsimp only
  refine Sound.pollOp ?_ o turns
  generalize hst : ({ w.streams i with op := some o, spool := .empty, hash := [] } : Stream) = st
  generalize hu : ({ Upload.free with
      state := .send
      stream := some i
      stage := if (w.streams i).written ≤ maxBody then .single else .open
      spool := { (w.streams i).spool with isSealed := true }
      total := (w.streams i).written
      digest := sha (w.streams i).hash
      log := (w.streams i).log } : Upload) = u
  have hexcl : ((w.setStream i st).setOp o u).Exclusive := by
    refine h.exclusive.move ?_ ?_
    · rw [← hst]
      rfl
    · rw [← hu]
  have hholder : w.chunkHolder ≠ some o := fun hh => by cases hfree.symm.trans (h.holder o hh)
  have hkeeps : u.spool.Keeps w.spill u.log.taken := by
    rw [← hu]
    have hk := hg.keeps
    exact ⟨hk.doomed, hk.stands, hk.fits, hk.clearing, hk.writing, hk.waits,
      fun hr hh _ => AsyncFile.agrees_of_none (hclear hr hh), hk.reading⟩
  refine ⟨hexcl, fun j hj => ?_, fun j hj => ?_, fun j => ?_, fun j k hj => ?_, fun j hj => ?_,
    h.vacant⟩
  · replace hj : ((w.setStream i st).streams j).Taking := hj
    show ((w.setStream i st).streams j).Good w.spill
    by_cases hji : j = i
    · rw [hji, streams_setStream_self, ← hst] at hj
      cases hj.2.1
    · rw [streams_setStream_ne st hji] at hj ⊢
      exact h.streams j hj
  · replace hj : ((w.setOp o u).ops j).Runs := hj
    show ((w.setOp o u).ops j).Running sha w.spill (w.got j)
    by_cases hjo : j = o
    · have hgot : w.got o = none := if_neg hholder
      rw [hjo, ops_setOp_self, hgot]
      refine ⟨hkeeps, ?_, ?_, ?_, ?_, fun _ => ⟨?_, rfl⟩, fun hr => ?_, fun hr => ?_, nofun⟩
      · rw [← hu]
      · rw [← hu]
        exact hg.written
      · rw [← hu]
        exact congrArg sha hg.hash
      · rw [← hu]
        unfold Upload.AtStage
        by_cases hsize : (w.streams i).written ≤ maxBody
        · rw [if_pos hsize]
          exact ⟨fun _ => rfl, nofun⟩
        · rw [if_neg hsize]
          exact ⟨rfl, rfl⟩
      · rw [← hu]
        rfl
      all_goals
        rw [← hu] at hr
        exact absurd hr hg.unread
    · rw [ops_setOp_ne u hjo] at hj ⊢
      exact h.ops j hj
  · show ((w.setOp o u).ops j).Sends sha
    by_cases hjo : j = o
    · rw [hjo, ops_setOp_self, ← hu]
      exact ⟨List.nil_prefix, nofun, nofun, nofun, nofun,
        fun _ => ⟨congrArg sha hg.hash, hg.written⟩⟩
    · rw [ops_setOp_ne u hjo]
      exact h.sends j
  · replace hj : ((w.setStream i st).streams j).op = some k := hj
    show ((w.setOp o u).ops k).state ≠ .free ∧ ((w.setOp o u).ops k).stream = some j ∧
      ((w.setOp o u).ops k).log.taken = ((w.setStream i st).streams j).log.taken
    by_cases hji : j = i
    · subst hji
      rw [streams_setStream_self, ← hst] at hj
      obtain rfl := Option.some.inj hj
      rw [ops_setOp_self, streams_setStream_self, ← hu, ← hst]
      exact ⟨nofun, rfl, rfl⟩
    · rw [streams_setStream_ne st hji] at hj ⊢
      have hc := h.carried j k hj
      have hko : k ≠ o := fun hk => hc.1 (hk ▸ hfree)
      rw [ops_setOp_ne u hko]
      exact hc
  · show ((w.setOp o u).ops j).state = .send
    replace hj : w.chunkHolder = some j := hj
    have hjo : j ≠ o := fun hk => hholder (hk ▸ hj)
    rw [ops_setOp_ne u hjo]
    exact h.holder j hj

theorem Sound.commitStream (h : w.Sound sha) {i : ℕ} {slot : Option ℕ} {turns : PollTurns}
    (hs : w.Steady (.commit i slot turns)) : (w.commitStream sha i slot turns).Sound sha := by
  unfold ObjectWorld.commitStream
  dsimp only
  split
  · exact h
  next huse =>
  rw [Bool.or_eq_true, not_or, Bool.not_eq_true', Bool.not_eq_false,
    Option.not_isSome_iff_eq_none] at huse
  split
  · next o hop =>
    split
    · refine Sound.freeOp ?_ (h.unclaimed hop rfl) turns
      exact h.setStream (.of_eq rfl rfl) (fun ht => by cases ht.2.2) nofun
    · exact h
  next hop =>
  split
  · exact h.setStream (.of_eq rfl rfl) (fun ht => by cases ht.2.2) (h.carried i)
  next o hslot =>
  have ht : (w.streams i).Taking := ⟨huse.1, hop, huse.2⟩
  refine h.startUpload ht ?_ (hs ht (by rw [hslot]; rfl)) turns
  unfold uploadSlot at hslot
  split at hslot
  · cases hslot
  obtain ⟨-, hfree⟩ := Option.filter_eq_some_iff.mp hslot
  rw [Bool.and_eq_true, decide_eq_true_eq] at hfree
  exact hfree.1

/-! ## The run -/

/-- **Every steady event keeps the module sound.** -/
theorem Sound.step (h : w.Sound sha) {e : ObjectEvent} (hs : w.Steady e) :
    (w.step sha e).Sound sha := by
  cases e with
  | «open» i never turns => exact h.openStream i never turns
  | write i bytes turns turn => exact h.writeStream hs
  | commit i slot turns => exact h.commitStream hs
  | abort i ofOp ofStream => exact h.freeStream i ofOp ofStream
  | driveStream i turns => exact h.pollStream i turns
  | driveOp o turns => exact h.pollOp o turns
  | stage o admitted encodes turn => exact h.stageOp o admitted encodes turn
  | answered o ack => exact h.answerOp o ack
  | lapse o =>
    simp only [ObjectWorld.step]
    split
    · next hst => exact h.decideOp (.inr hst) nofun
    · exact h
  | drop o turns =>
    simp only [ObjectWorld.step]
    split
    · next hst =>
      rw [Bool.and_eq_true, Option.isNone_iff_eq_none] at hst
      refine h.freeOp (fun i hi => ?_) turns
      cases hst.2.symm.trans (h.carried i o hi).2.1
    · exact h

/-- **In every run that is steady, every upload sends what was written.** -/
theorem uploads_send_written (sha : Bytes → Digest) (es : List ObjectEvent)
    (h : Run.AllSteps (step sha) Steady new es) : (Run.run (step sha) new es).SendsWritten sha :=
  (Run.invariant (fun _ _ hw he => hw.step he) (sound_new sha) h).sendsWritten

/-- A file that is made at once. -/
def madeNow : PollTurns := ⟨.moved 0, .moved 0, .again, .again, .again⟩

/-- Of `ab` the file takes `a`, and `c` goes behind `b` in the spill, where a write
of another stream finds no room until the file has taken both; the file is read
back. -/
def shortCounts : List ObjectEvent :=
  [.open 0 false madeNow, .open 1 false madeNow, .write 0 [97, 98] madeNow (.moved 1),
    .write 1 [120] madeNow .again, .write 0 [99] madeNow .again,
    .driveStream 0 ⟨.again, .again, .moved 2, .again, .again⟩, .write 1 [121] madeNow .again,
    .commit 0 (some 0) ⟨.again, .again, .again, .moved 0, .again⟩,
    .driveStream 1 ⟨.again, .again, .moved 1, .again, .again⟩,
    .stage 0 true true (.moved 2), .stage 0 true true .taken, .stage 0 true true (.moved 1),
    .answered 0 (.ok (some abcDigest))]

theorem uploads_send_written_short :
    (Run.run (step abcSha) new shortCounts).SendsWritten abcSha :=
  uploads_send_written abcSha shortCounts (by decide +kernel)

/-- The file takes the write of `ab` and does not decide it, and `ab` waits in the
spill; `c` goes behind it, and the next poll asks for a write of `abc`. -/
def behindUnderway : List ObjectEvent :=
  [.open 0 false madeNow, .write 0 [97, 98] madeNow .taken,
    .write 0 [99] ⟨.again, .again, .taken, .again, .again⟩ .again,
    .driveStream 0 ⟨.again, .again, .moved 3, .again, .again⟩,
    .commit 0 (some 0) ⟨.again, .again, .again, .moved 0, .again⟩,
    .stage 0 true true (.moved 3)]

/-- **`abc` is uploaded as `aba`**: the file has `ab` of the write under way and
`abc` of the longer one. -/
theorem written_twice :
    ((Run.run (step abcSha) new behindUnderway).ops 0).log = [([97, 98], .ok), ([99], .ok)] ∧
      ((Run.run (step abcSha) new behindUnderway).ops 0).requests = [.putFile [97, 98, 97]] ∧
        ¬ (Run.run (step abcSha) new behindUnderway).SendsWritten abcSha := by
  have hlog : ((Run.run (step abcSha) new behindUnderway).ops 0).log
      = [([97, 98], .ok), ([99], .ok)] := by decide +kernel
  have hsent : ((Run.run (step abcSha) new behindUnderway).ops 0).requests
      = [.putFile [97, 98, 97]] := by decide +kernel
  refine ⟨hlog, hsent, fun h => ?_⟩
  have hwhole := (h.uploads 0).whole [97, 98, 97] (by rw [hsent]; exact List.mem_singleton_self _)
  rw [hsent, hlog] at hwhole
  exact absurd hwhole (by decide)

end ObjectWorld

end Loam

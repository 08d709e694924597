import Loam.CommittedReplies
import Loam.RequestReaders

/-!
# The order of the answers

An answer of the namespace carries no request's name. The admin router keeps
its unanswered requests in a queue, and takes each answer for that of the
oldest, so that an answer which overtakes another is taken for it, and so is
the next one where bytes are answered that are no request, or where the router
drops an answer it cannot tell the length of.

Alone, the namespace answers each request before it reads the next: a request
whose log record or snapshot read is not through holds up those behind it. In a
group a mutation is forwarded, and answered when its commit comes back, while
what is answered on the spot – a read, a record that is refused – is answered
at once. It overtakes whatever is out (`lookup_overtakes`). The answers are in
order in the runs in which the router sends whole requests, nothing is answered
on the spot while a mutation is out, no read before the replay has drained, and
each commit that is drained while one is out is the oldest mutation's
(`answers_in_order`).
-/

namespace Loam

/-- The requests that are reads (`OP_LOOKUP`, `OP_LIST`, `OP_REFERENCED`,
`OP_VOLUME_ROOTS`, `OP_RETAINED`). -/
def readOps : List UInt8 := [4, 5, 6, 12, 14]

/-- A record that is logged, or being logged, and not applied. -/
inductive StagedRecord where
  | request (n : ℕ)
  /-- A commit; `live` when its answer is owed to a request. -/
  | commit (live : Bool) (origin : Option ℕ)
deriving DecidableEq

/-- What the step meets when it reads a request. -/
structure RequestTurn where
  /-- A snapshot read that the answer needs is being fetched. -/
  fetching : Bool
  rotating : Bool
  /-- The proposer's channel takes the proposal. -/
  wrote : Bool
  log : CommitLog
  /-- What the apply comes to, if it can be decided. -/
  tried : Option Verdict
  took : Bool
deriving DecidableEq

/-- An answer: the request it was made for, if it was made for one of the
router's, and whether `response_record_len` takes it. It does not take NOT_READY
(0xFE), the answer of a read before the replay has drained. -/
structure NsAnswer where
  origin : Option ℕ
  framed : Bool
deriving DecidableEq

/-- The namespace and the admin router before it. Requests are numbered as the
router sends them. -/
structure Answers where
  replicated : Bool
  readReady : Bool
  /-- Mutations forwarded and not answered, as counted. -/
  outstanding : ℕ
  /-- The channel has not taken the last answer. -/
  owed : Bool
  staged : Option StagedRecord
  /-- The request stream, from where it is read on. -/
  stream : Bytes
  /-- What is skipped is no request, and was answered (`req_resyncing`). -/
  resyncing : Bool
  asked : ℕ
  answers : List NsAnswer
  heard : ℕ
  sent : ℕ
  pending : List ℕ
  /-- For what request each answer was taken, and for what it was made. -/
  paired : List (ℕ × Option ℕ)
deriving DecidableEq

/-- What happens. -/
inductive AnswersEvent where
  | ask (record : Bytes)
  | request (turn : RequestTurn)
  /-- A commit is drained: that of a request, or of another member. -/
  | committed (origin : Option ℕ) (plane : Plane) (inner : Bytes) (log : CommitLog)
      (tried : Option Verdict) (took : Bool)
  /-- A record of the stream that is no commit. -/
  | aborted (origin : Option ℕ)
  | replayDrained
  | resolve (durable : Bool) (tried : Option Verdict) (took : Bool)
  /-- The answer owed is offered again. -/
  | flush (took : Bool)
  /-- The router takes an answer; so many behind it are in its buffer. -/
  | take (buffered : ℕ)
deriving DecidableEq

namespace Answers

/-- Both have just booted. -/
def new (replicated : Bool) : Answers :=
  ⟨replicated, false, 0, false, none, [], false, 0, [], 0, 0, [], []⟩

/-- An answer is made; it is dropped while another is owed. -/
def answer (s : Answers) (a : NsAnswer) (took : Bool) : Answers :=
  if s.owed then s else { s with answers := s.answers ++ [a], owed := !took }

/-- A request is sent: its pending entry is queued with it
(`enqueue_pending`). -/
def ask (s : Answers) (record : Bytes) : Answers :=
  { s with
    stream := s.stream ++ record
    sent := s.sent + 1
    pending := s.pending ++ [s.sent] }

/-- The next answer is taken for the oldest request (`dequeue_pending`); one
that is no record is dropped, with all that is buffered behind it. -/
def take (s : Answers) (buffered : ℕ) : Answers :=
  if s.heard + (if s.owed then 1 else 0) < s.answers.length then
    match s.answers.getD s.heard ⟨none, false⟩, s.pending with
    | ⟨_, false⟩, _ =>
      { s with
        heard := min (s.heard + 1 + buffered) (s.answers.length - if s.owed then 1 else 0) }
    | _, [] => { s with heard := s.heard + 1 }
    | ⟨origin, true⟩, n :: pending =>
      { s with heard := s.heard + 1, pending := pending, paired := s.paired ++ [(n, origin)] }
  else s

/-- The request loop: one request, or the first that waits, or one byte that
begins no request. -/
def request (s : Answers) (t : RequestTurn) : Answers :=
  if s.owed || s.staged.isSome then s
  else
    match requestRecordLen s.stream with
    | .ok none => s
    | .error _ =>
      let skipped := { s with stream := s.stream.drop 1, resyncing := true }
      if s.resyncing then skipped else skipped.answer ⟨none, true⟩ t.took
    | .ok (some n) =>
      let record := s.stream.take n
      let synced := { s with resyncing := false }
      let read := { synced with stream := s.stream.drop n, asked := s.asked + 1 }
      if opIn readOps record then
        if s.replicated && !s.readReady then read.answer ⟨some s.asked, false⟩ t.took
        else if t.fetching then synced
        else read.answer ⟨some s.asked, true⟩ t.took
      else if opIn mutatingOps record then
        if t.rotating then synced
        else if s.replicated then
          if decide (record.length ≤ maxInner) && t.wrote then
            { read with outstanding := s.outstanding + 1 }
          else read.answer ⟨some s.asked, true⟩ t.took
        else
          match t.log, t.tried with
          | .lost, _ | .failed, _ => read.answer ⟨some s.asked, true⟩ t.took
          | .staged, _ | .durable, none => { read with staged := some (.request s.asked) }
          | .durable, some _ | .absent, some _ => read.answer ⟨some s.asked, true⟩ t.took
          -- It goes back to the head of the stream, and is asked again.
          | .absent, none => synced
      else read.answer ⟨some s.asked, true⟩ t.took

/-- The result is through: it is answered if a mutation is out. -/
def finish (s : Answers) (live : Bool) (origin : Option ℕ) (took : Bool) : Answers :=
  if live then { s with outstanding := s.outstanding - 1 }.answer ⟨origin, true⟩ took else s

/-- A commit is drained (`drain_committed`). -/
def drain (s : Answers) (origin : Option ℕ) (plane : Plane) (inner : Bytes) (log : CommitLog)
    (tried : Option Verdict) (took : Bool) : Answers :=
  if s.staged.isSome || !s.replicated || !Replicated.counted plane inner then s
  else
    let live := decide (0 < s.outstanding)
    match log, tried with
    | .lost, _ | .failed, _ => s.finish live origin took
    | .staged, _ | .durable, none => { s with staged := some (.commit live origin) }
    | .durable, some _ | .absent, some _ => s.finish live origin took
    | .absent, none => s

/-- The staged record is looked at, once no answer is owed
(`resolve_staged`). -/
def resolve (s : Answers) (durable : Bool) (tried : Option Verdict) (took : Bool) : Answers :=
  if s.owed || (durable && tried.isNone) then s
  else
    match s.staged with
    | none => s
    | some (.request n) => { s with staged := none }.answer ⟨some n, true⟩ took
    | some (.commit live origin) => { s with staged := none }.finish live origin took

/-- One event. -/
def step (s : Answers) : AnswersEvent → Answers
  | .ask record => s.ask record
  | .request turn => s.request turn
  | .committed origin plane inner log tried took => s.drain origin plane inner log tried took
  | .aborted _ => s
  | .replayDrained => { s with readReady := true }
  | .resolve durable tried took => s.resolve durable tried took
  | .flush took => if took then { s with owed := false } else s
  | .take buffered => s.take buffered

/-! ## What the answers are taken for -/

/-- **No answer overtakes another**: the `k`-th answer is that of the `k`-th
request, and the router takes each for the request it was made for. -/
structure InOrder (s : Answers) : Prop where
  own : ∀ (k : ℕ) (a : NsAnswer), s.answers[k]? = some a → a.origin = some k
  taken : ∀ p ∈ s.paired, p.2 = some p.1

/-- A request that the reader takes whole. -/
def Whole (record : Bytes) : Prop := requestRecordLen record = .ok (some record.length)

instance (record : Bytes) : Decidable (Whole record) := inferInstanceAs (Decidable (_ = _))

/-- The request at the front of the stream. -/
def front (s : Answers) : Option Bytes :=
  match requestRecordLen s.stream with
  | .ok (some n) => some (s.stream.take n)
  | _ => none

/-- The next request is answered in the step that reads it. -/
def onTheSpot (s : Answers) (t : RequestTurn) : Bool :=
  s.front.any fun record =>
    if opIn readOps record then !s.readReady || !t.fetching
    else if opIn mutatingOps record then
      !t.rotating && !(decide (record.length ≤ maxInner) && t.wrote)
    else true

/-- The router sends whole requests. In a group, nothing is answered on the spot
while a mutation is out, and no read before the replay has drained; and a commit
that is drained while one is out is the oldest one's, and finds no answer owed
if it is answered at once. -/
def Orderly (s : Answers) : AnswersEvent → Prop
  | .ask record => Whole record
  | .request t => s.replicated = true → s.staged = none → s.owed = false →
    (s.onTheSpot t = true → s.outstanding = 0) ∧
      (s.front.any (opIn readOps) = true → s.readReady = true)
  | .committed origin plane inner log tried _ =>
    s.replicated = true → s.staged = none → Replicated.counted plane inner = true →
      0 < s.outstanding → origin = some s.answers.length ∧
        (Replicated.answersNow log tried = true → s.owed = false)
  | _ => True

instance (s : Answers) : DecidablePred s.Orderly := fun e => by
  unfold Orderly
  split <;> infer_instance

variable {s : Answers} {e : AnswersEvent}

/-- The staged record is answered next, if it is. -/
def Due (s : Answers) : StagedRecord → Prop
  | .request n => n = s.answers.length ∧ s.asked = s.answers.length + 1 ∧ s.outstanding = 0
  | .commit live origin => s.asked = s.answers.length + s.outstanding ∧
      (live = true → origin = some s.answers.length ∧ 0 < s.outstanding)

/-- The answers so far, and what the router makes of them. -/
structure Base (s : Answers) : Prop extends InOrder s where
  framed : ∀ a ∈ s.answers, a.framed = true
  heard : s.heard ≤ s.answers.length
  queue : s.pending = List.range' s.heard s.pending.length
  waiting : s.heard + s.pending.length = s.sent
  /-- What is not yet read is whole requests. -/
  sent : ∃ rs : List Bytes, s.stream = rs.flatten ∧ (∀ r ∈ rs, Whole r) ∧
    s.sent = s.asked + rs.length
  alone : s.replicated = false → s.outstanding = 0

/-- **What every orderly event keeps.** -/
structure Lined (s : Answers) : Prop extends Base s where
  due : ∀ r, s.staged = some r → s.Due r
  /-- When none is, the requests read are answered or out. -/
  count : s.staged = none → s.asked = s.answers.length + s.outstanding

/-- A whole request is told from what follows it. -/
theorem Whole.append {r : Bytes} (h : Whole r) (t : Bytes) :
    requestRecordLen (r ++ t) = .ok (some r.length) := by
  have hlaw := RequestStream.reader_lawful .minimal false .namespaceRouter
  have hlen := hlaw.len_eq r
  rw [show (RequestStream.namespaceRouter.reader Profile.minimal.limits false).len r
    = .ok (some r.length) from h] at hlen
  have hdecl : (RequestStream.namespaceRouter.reader Profile.minimal.limits false).declared r
      = .ok (some r.length) := by
    generalize (RequestStream.namespaceRouter.reader Profile.minimal.limits false).declared r = d at hlen
    unfold Reassembly.whole at hlen
    split at hlen
    · split at hlen
      · cases hlen
      · exact congrArg _ (Except.ok.inj hlen.symm)
    · cases hlen
    · cases hlen
  refine (hlaw.len_eq (r ++ t)).trans ?_
  rw [hlaw.settled r t (by rw [hdecl]; nofun), hdecl]
  simp [Reassembly.whole]

theorem lined_new (replicated : Bool) : (new replicated).Lined :=
  ⟨⟨⟨nofun, nofun⟩, nofun, Nat.le_refl 0, rfl, rfl, ⟨[], rfl, nofun, rfl⟩, fun _ => rfl⟩, nofun,
    fun _ => rfl⟩

/-- **The next answer**, made when none is owed. -/
theorem Base.answer (h : s.Base) (hn : s.staged = none) (ho : s.owed = false)
    (hc : s.asked = s.answers.length + 1 + s.outstanding) {origin : Option ℕ}
    (horigin : origin = some s.answers.length) (took : Bool) :
    (s.answer ⟨origin, true⟩ took).Lined := by
  have hanswer : s.answer ⟨origin, true⟩ took
      = { s with answers := s.answers ++ [⟨origin, true⟩], owed := !took } :=
    if_neg (by rw [ho]; nofun)
  rw [hanswer, horigin]
  refine ⟨⟨⟨fun k a hk => ?_, h.taken⟩, fun a ha => ?_, ?_, h.queue, h.waiting, h.sent, h.alone⟩,
    fun r hr => ?_, fun _ => ?_⟩
  · rcases Nat.lt_trichotomy k s.answers.length with hlt | rfl | hgt
    · exact h.own k a (List.getElem?_append_left hlt ▸ hk)
    · rw [← Option.some.inj (List.getElem?_concat_length.symm.trans hk)]
    · have hlen : (s.answers ++ [(⟨some s.answers.length, true⟩ : NsAnswer)]).length ≤ k := by
        rw [List.length_append]
        exact hgt
      cases (List.getElem?_eq_none hlen).symm.trans hk
  · rcases List.mem_append.mp ha with ha | ha
    · exact h.framed a ha
    · rw [List.mem_singleton.mp ha]
  · show s.heard ≤ (s.answers ++ [_]).length
    rw [List.length_append]
    exact Nat.le_succ_of_le h.heard
  · cases hn.symm.trans hr
  · show s.asked = (s.answers ++ [_]).length + s.outstanding
    rw [List.length_append]
    exact hc

/-- The front of the stream is one whole request, or there is none. -/
theorem Base.front_cases (h : s.Base) :
    requestRecordLen s.stream = .ok none ∨
      ∃ record, requestRecordLen s.stream = .ok (some record.length) ∧
        s.stream.take record.length = record ∧
        ∀ resyncing, Base { s with
          stream := s.stream.drop record.length, resyncing := resyncing, asked := s.asked + 1 } := by
  obtain ⟨rs, hstream, hwhole, hsent⟩ := h.sent
  cases rs with
  | nil =>
    rw [hstream]
    exact .inl rfl
  | cons record rs =>
    rw [List.flatten_cons] at hstream
    refine .inr ⟨record, ?_, ?_, fun _ => ⟨⟨h.own, h.taken⟩, h.framed, h.heard, h.queue, h.waiting,
      ⟨rs, ?_, fun r hr => hwhole r (List.mem_cons_of_mem _ hr), ?_⟩, h.alone⟩⟩
    · rw [hstream]
      exact (hwhole record List.mem_cons_self).append _
    · rw [hstream, List.take_left]
    · show s.stream.drop record.length = rs.flatten
      rw [hstream, List.drop_left]
    · rw [List.length_cons] at hsent
      show s.sent = s.asked + 1 + rs.length
      omega

/-- The request that is read is answered in the same step. -/
theorem Lined.answerRead (h : s.Lined) (hn : s.staged = none) (ho : s.owed = false)
    {stream : Bytes} (hread : Base { s with
      stream := stream, resyncing := false, asked := s.asked + 1 }) (hnone : s.outstanding = 0)
    (took : Bool) :
    (answer { s with stream := stream, resyncing := false, asked := s.asked + 1 }
      ⟨some s.asked, true⟩ took).Lined := by
  have hcount := h.count hn
  rw [hnone] at hcount
  refine hread.answer hn ho ?_ (congrArg some hcount) took
  show s.asked + 1 = s.answers.length + 1 + s.outstanding
  omega

theorem Lined.synced (h : s.Lined) : Lined { s with resyncing := false } :=
  ⟨⟨⟨h.own, h.taken⟩, h.framed, h.heard, h.queue, h.waiting, h.sent, h.alone⟩, h.due, h.count⟩

theorem Base.finish (h : s.Base) (hn : s.staged = none) {live : Bool} {origin : Option ℕ}
    (ho : live = true → s.owed = false) (hd : s.Due (.commit live origin)) (took : Bool) :
    (s.finish live origin took).Lined := by
  obtain ⟨hcount, hlive⟩ := hd
  cases live with
  | false => exact ⟨h, fun r hr => absurd (hn.symm.trans hr) nofun, fun _ => hcount⟩
  | true =>
    obtain ⟨horigin, hpos⟩ := hlive rfl
    have hbase : Base { s with outstanding := s.outstanding - 1 } :=
      ⟨⟨h.own, h.taken⟩, h.framed, h.heard, h.queue, h.waiting, h.sent,
        fun hr => by rw [h.alone hr]⟩
    refine hbase.answer hn (ho rfl) ?_ horigin took
    show s.asked = s.answers.length + 1 + (s.outstanding - 1)
    omega

theorem Lined.ask (h : s.Lined) {record : Bytes} (hw : Whole record) : (s.ask record).Lined := by
  obtain ⟨rs, hstream, hwhole, hsent⟩ := h.sent
  refine ⟨⟨⟨h.own, h.taken⟩, h.framed, h.heard, ?_, ?_, ⟨rs ++ [record], ?_, fun r hr => ?_, ?_⟩,
    h.alone⟩, h.due, h.count⟩
  · show s.pending ++ [s.sent] = List.range' s.heard (s.pending ++ [s.sent]).length
    rw [List.length_append, List.length_singleton, List.range'_concat, ← h.queue, ← h.waiting,
      Nat.one_mul]
  · show s.heard + (s.pending ++ [_]).length = s.sent + 1
    rw [List.length_append, ← h.waiting]
    rfl
  · show s.stream ++ record = _
    rw [hstream, List.flatten_append, List.flatten_singleton]
  · rcases List.mem_append.mp hr with hr | hr
    · exact hwhole r hr
    · rwa [List.mem_singleton.mp hr]
  · show s.sent + 1 = s.asked + (rs ++ [record]).length
    rw [List.length_append, hsent]
    rfl

/-- The answer that is taken is that of the oldest request. -/
theorem Lined.take (h : s.Lined) (buffered : ℕ) : (s.take buffered).Lined := by
  unfold Answers.take
  by_cases hlt : s.heard + (if s.owed then 1 else 0) < s.answers.length
  swap
  · rw [if_neg hlt]
    exact h
  rw [if_pos hlt]
  have hheard : s.heard < s.answers.length := Nat.lt_of_le_of_lt (Nat.le_add_right _ _) hlt
  obtain ⟨a, ha⟩ : ∃ a, s.answers[s.heard]? = some a := ⟨_, List.getElem?_eq_getElem hheard⟩
  have hgetD : s.answers.getD s.heard ⟨none, false⟩ = ⟨some s.heard, true⟩ := by
    rw [List.getD_eq_getElem?_getD, ha, Option.getD_some, ← h.own _ _ ha,
      ← h.framed a (List.mem_of_getElem? ha)]
  rw [hgetD]
  cases hp : s.pending with
  | nil =>
    -- there are at least as many requests as answers
    obtain ⟨rs, -, -, hsent⟩ := h.sent
    have hwaiting := h.waiting
    have hasked : s.answers.length ≤ s.asked := by
      cases hs : s.staged with
      | none =>
        rw [h.count hs]
        exact Nat.le_add_right _ _
      | some r =>
        have hdue := h.due r hs
        cases r with
        | request n => exact hdue.2.1 ▸ Nat.le_succ _
        | commit live origin => exact hdue.1 ▸ Nat.le_add_right _ _
    rw [hp, List.length_nil] at hwaiting
    omega
  | cons n pending =>
    have hqueue := h.queue
    rw [hp, List.length_cons, List.range'_succ] at hqueue
    obtain ⟨rfl, hrest⟩ := List.cons.inj hqueue
    refine ⟨⟨⟨h.own, fun p hmem => ?_⟩, h.framed, hheard, hrest, ?_, h.sent, h.alone⟩, h.due, h.count⟩
    · rcases List.mem_append.mp hmem with hmem | hmem
      · exact h.taken p hmem
      · rw [List.mem_singleton.mp hmem]
    · have hwaiting := h.waiting
      rw [hp, List.length_cons] at hwaiting
      show s.heard + 1 + pending.length = s.sent
      omega

/-! ## One event -/

/-- **A request that is read keeps the answers in order.** -/
theorem Lined.request (h : s.Lined) (t : RequestTurn) (ho : s.Orderly (.request t)) :
    (s.request t).Lined := by
  unfold Answers.request
  split
  · exact h
  next hbusy =>
  rw [Bool.or_eq_true, not_or, Bool.not_eq_true, Option.not_isSome_iff_eq_none] at hbusy
  obtain ⟨howed, hn⟩ := hbusy
  obtain hlen | ⟨record, hlen, htake, hread⟩ := h.toBase.front_cases
  · rw [hlen]
    exact h
  rw [hlen]
  dsimp only
  have hfront : s.front = some record := by
    simp only [front, hlen, htake]
  rw [htake]
  have hread := hread false
  -- what is answered on the spot finds nothing out
  have hspot : s.onTheSpot t = true → s.outstanding = 0 := by
    intro hs
    cases hr : s.replicated with
    | false => exact h.alone hr
    | true => exact (ho hr hn howed).1 hs
  have hanswer (hs : s.onTheSpot t = true) := h.answerRead hn howed hread (hspot hs) t.took
  unfold onTheSpot at hanswer
  rw [hfront, Option.any_some] at hanswer
  split
  · next hop =>
    rw [if_pos hop] at hanswer
    split
    · next hnot =>
      obtain ⟨hr, hnr⟩ := Bool.and_eq_true_iff.mp hnot
      have hready := (ho hr hn howed).2 (by rw [hfront]; exact hop)
      rw [hready] at hnr
      cases hnr
    split
    · exact h.synced
    · next hf => exact hanswer (by simp [hf])
  next hop =>
  rw [if_neg hop] at hanswer
  split
  · next hmut =>
    rw [if_pos hmut] at hanswer
    split
    · exact h.synced
    next hrot =>
    split
    · next hr =>
      split
      · refine ⟨⟨⟨h.own, h.taken⟩, h.framed, h.heard, h.queue, h.waiting, hread.sent, fun hf => ?_⟩,
          fun r hs => absurd (hn.symm.trans hs) nofun, fun _ => ?_⟩
        · cases hf.symm.trans hr
        · have hcount := h.count hn
          show s.asked + 1 = s.answers.length + (s.outstanding + 1)
          omega
      · next hfit => exact hanswer (by simp [hrot, hfit])
    · next hr =>
      -- alone, nothing is out
      have hnone : s.outstanding = 0 := h.alone (Bool.eq_false_of_not_eq_true hr)
      have hans := h.answerRead hn howed hread hnone t.took
      have hcount := h.count hn
      rw [hnone] at hcount
      have hstage : Lined { s with
          stream := s.stream.drop record.length
          resyncing := false
          asked := s.asked + 1
          staged := some (.request s.asked) } := by
        refine ⟨⟨⟨h.own, h.taken⟩, h.framed, h.heard, h.queue, h.waiting, hread.sent, h.alone⟩,
          fun r hs => ?_, nofun⟩
        obtain rfl := Option.some.inj hs
        exact ⟨hcount, congrArg (· + 1) hcount, hnone⟩
      cases t.log with
      | lost | failed => exact hans
      | staged => exact hstage
      | durable =>
        cases t.tried with
        | none => exact hstage
        | some v => exact hans
      | absent =>
        cases t.tried with
        | none => exact h.synced
        | some v => exact hans
  · next hmut =>
    rw [if_neg hmut] at hanswer
    exact hanswer rfl

theorem Lined.drain (h : s.Lined) {origin : Option ℕ} {plane : Plane} {inner : Bytes}
    {log : CommitLog} {tried : Option Verdict} {took : Bool}
    (ho : s.Orderly (.committed origin plane inner log tried took)) :
    (s.drain origin plane inner log tried took).Lined := by
  unfold Answers.drain
  split
  · exact h
  next hgo =>
  simp only [Bool.or_eq_true, Bool.not_eq_true', not_or, Bool.not_eq_false] at hgo
  obtain ⟨⟨hn, hr⟩, hcounted⟩ := hgo
  rw [Option.not_isSome_iff_eq_none] at hn
  have hord := ho hr hn hcounted
  have hdue : s.Due (.commit (decide (0 < s.outstanding)) origin) :=
    ⟨h.count hn, fun hlive => ⟨(hord (of_decide_eq_true hlive)).1, of_decide_eq_true hlive⟩⟩
  have hfinish : Replicated.answersNow log tried = true →
      (s.finish (decide (0 < s.outstanding)) origin took).Lined := fun hnow =>
    h.toBase.finish hn (fun hlive => (hord (of_decide_eq_true hlive)).2 hnow) hdue took
  have hstage : Lined { s with staged := some (.commit (decide (0 < s.outstanding)) origin) } := by
    refine ⟨⟨⟨h.own, h.taken⟩, h.framed, h.heard, h.queue, h.waiting, h.sent, h.alone⟩, fun r hs => ?_, nofun⟩
    obtain rfl := Option.some.inj hs
    exact hdue
  cases log with
  | lost | failed => exact hfinish rfl
  | staged => exact hstage
  | durable =>
    cases tried with
    | none => exact hstage
    | some v => exact hfinish rfl
  | absent =>
    cases tried with
    | none => exact h
    | some v => exact hfinish rfl

theorem Lined.resolve (h : s.Lined) (durable : Bool) (tried : Option Verdict) (took : Bool) :
    (s.resolve durable tried took).Lined := by
  unfold Answers.resolve
  split
  · exact h
  next hgo =>
  rw [Bool.or_eq_true, not_or, Bool.not_eq_true] at hgo
  have hbase : Base { s with staged := none } :=
    ⟨⟨h.own, h.taken⟩, h.framed, h.heard, h.queue, h.waiting, h.sent, h.alone⟩
  cases hs : s.staged with
  | none => exact h
  | some r =>
    have hdue := h.due r hs
    cases r with
    | request n =>
      obtain ⟨rfl, hasked, hnone⟩ := hdue
      refine hbase.answer rfl hgo.1 ?_ rfl took
      show s.asked = s.answers.length + 1 + s.outstanding
      rw [hasked, hnone]
    | commit live origin => exact hbase.finish rfl (fun _ => hgo.1) hdue took

theorem Lined.step (h : s.Lined) (e : AnswersEvent) (ho : s.Orderly e) : (s.step e).Lined := by
  cases e with
  | ask record => exact h.ask ho
  | request t => exact h.request t ho
  | committed origin plane inner log tried took => exact h.drain ho
  | aborted origin => exact h
  | replayDrained => exact ⟨⟨⟨h.own, h.taken⟩, h.framed, h.heard, h.queue, h.waiting, h.sent, h.alone⟩, h.due, h.count⟩
  | resolve durable tried took => exact h.resolve durable tried took
  | flush took =>
    simp only [Answers.step]
    split
    · exact ⟨⟨⟨h.own, h.taken⟩, h.framed, h.heard, h.queue, h.waiting, h.sent, h.alone⟩, h.due, h.count⟩
    · exact h
  | take buffered => exact h.take buffered

/-! ## The run -/

/-- **No answer overtakes another in an orderly run**, and the router takes each
for the request it was made for. -/
theorem answers_in_order (replicated : Bool) (es : List AnswersEvent)
    (h : Run.AllSteps step Orderly (new replicated) es) :
    (Run.run step (new replicated) es).InOrder :=
  (Run.invariant (I := Lined) (fun _ e hs he => hs.step e he) (lined_new replicated)
    h).toInOrder

/-- What is met by a request that nothing holds up. -/
def plainTurn : RequestTurn := ⟨false, false, true, .absent, some .ok, true⟩

/-- A lookup of the empty path. -/
def lookupRecord : Bytes := [4, 0, 0, 0, 0]

/-- An unbind of it. -/
def unbindRecord : Bytes := 3 :: List.replicate (unbindHdr - 1) 0

/-- A lookup, then a mutation that is forwarded and committed. -/
def lookupThenUnbind : List AnswersEvent :=
  [.replayDrained, .ask lookupRecord, .ask unbindRecord, .request plainTurn, .request plainTurn,
    .take 0, .committed (some 1) .namespacePlane unbindRecord .absent (some .ok) true, .take 0]

theorem lookupThenUnbind_in_order : (Run.run step (new true) lookupThenUnbind).InOrder :=
  answers_in_order true lookupThenUnbind (by decide)

/-- A mutation that is forwarded, then a lookup. -/
def unbindThenLookup : List AnswersEvent :=
  [.replayDrained, .ask unbindRecord, .ask lookupRecord, .request plainTurn, .request plainTurn,
    .take 0]

/-- **The answer of the lookup is taken for that of the mutation** it
overtook. -/
theorem lookup_overtakes :
    (Run.run step (new true) unbindThenLookup).paired = [(0, some 1)] ∧
      ¬ (Run.run step (new true) unbindThenLookup).InOrder := by
  have hpaired : (Run.run step (new true) unbindThenLookup).paired = [(0, some 1)] := by decide
  refine ⟨hpaired, fun h => ?_⟩
  have htaken := h.taken (0, some 1) (by rw [hpaired]; exact List.mem_singleton.mpr rfl)
  exact absurd htaken (by decide)

end Answers

end Loam

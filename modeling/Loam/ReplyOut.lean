import Loam.Key
import Loam.Lib.Run

/-!
# Replies under backpressure

A channel takes a write in whole, in part or not at all, and what it does not
take stays with the writer. `ReplyOut` holds the one record that is owed, and
offers its rest until the channel has taken it. A record that is staged while
another is owed is not taken, so that whoever produces replies has to look
first.

A step of the namespace produces replies in three places. The staged record
comes after the owed reply has gone, and the request loop looks before each
request. The committed stream is drained behind both, and does not look: its
replies are dropped from the first one the channel refuses to the end of the
drain. What has reached the channel is all replies, whole and in order, exactly
when no drain has met an owed reply (`ReplyWorld.whole_iff`).
-/

namespace Loam

/-- The record that is owed (`ReplyOut`): `buf[..len]`. -/
structure ReplyOut where
  buf : Bytes
  sent : ℕ
deriving DecidableEq

namespace ReplyOut

/-- None is owed. -/
def new : ReplyOut := ⟨[], 0⟩

/-- A record is owed. -/
def owed (r : ReplyOut) : Bool := decide (r.sent < r.buf.length)

/-- What the channel has not taken of it. -/
def rest (r : ReplyOut) : Bytes := r.buf.drop r.sent

/-- Take a record, of at most `room` bytes. -/
def stage (room : ℕ) (r : ReplyOut) (bytes : Bytes) : ReplyOut × Bool :=
  if r.owed || bytes.isEmpty || decide (room < bytes.length) then (r, false)
  else (⟨bytes, 0⟩, true)

/-- Offer the record. The channel takes `took` bytes of it at most, none when it
refuses; those it takes are the second part, and the third says that nothing is
owed. -/
def flush (r : ReplyOut) (took : ℕ) : ReplyOut × Bytes × Bool :=
  if !r.owed then (r, [], true)
  else if took = 0 then (r, [], false)
  else
    let sent := min (r.sent + took) r.buf.length
    if sent < r.buf.length then ({ r with sent := sent }, r.rest.take took, false)
    else (new, r.rest.take took, true)

/-- Take a record and offer it. -/
def send (room : ℕ) (r : ReplyOut) (bytes : Bytes) (took : ℕ) : ReplyOut × Bytes × Bool :=
  let (r, staged) := r.stage room bytes
  if staged then r.flush took else (r, [], false)

end ReplyOut

/-! ## The namespace's replies -/

/-- A reply, which the room is made for. -/
structure Reply (room : ℕ) where
  bytes : Bytes
  ne_nil : bytes ≠ []
  fits : bytes.length ≤ room
deriving DecidableEq

/-- The replies a step comes to, and how many bytes of each the channel takes
when it is offered. -/
structure StepReplies (room : ℕ) where
  /-- What the channel takes of the owed reply. -/
  flushed : ℕ
  resolved : Option (Reply room × ℕ)
  requests : List (Reply room × ℕ)
  committed : List (Reply room × ℕ)
deriving DecidableEq

/-- The replies of a run. -/
structure ReplyWorld where
  out : ReplyOut
  channel : Bytes
  made : List Bytes
deriving DecidableEq

namespace ReplyWorld

variable {room : ℕ}

/-- Nothing is produced yet. -/
def new : ReplyWorld := ⟨.new, [], []⟩

/-- The owed reply is offered. -/
def flush (w : ReplyWorld) (took : ℕ) : ReplyWorld :=
  { w with out := (w.out.flush took).1, channel := w.channel ++ (w.out.flush took).2.1 }

/-- A reply is produced and sent. -/
def send (w : ReplyWorld) (r : Reply room × ℕ) : ReplyWorld :=
  { out := (w.out.send room r.1.bytes r.2).1
    channel := w.channel ++ (w.out.send room r.1.bytes r.2).2.1
    made := w.made ++ [r.1.bytes] }

/-- The request loop: a request is read when no reply is owed. -/
def request (w : ReplyWorld) (r : Reply room × ℕ) : ReplyWorld :=
  if w.out.owed then w else w.send r

/-- A step up to the committed stream: nothing is done before the owed reply has
gone. -/
def beforeDrain (w : ReplyWorld) (t : StepReplies room) : ReplyWorld :=
  t.requests.foldl request (match t.resolved with
    | none => w.flush t.flushed
    | some r => (w.flush t.flushed).send r)

/-- A step of the namespace (`step_body`, `drain_committed`). -/
def step (w : ReplyWorld) (t : StepReplies room) : ReplyWorld :=
  if (w.flush t.flushed).out.owed then w.flush t.flushed
  else t.committed.foldl send (w.beforeDrain t)

/-- The replies of the commits find none owed. -/
def Clear (w : ReplyWorld) (t : StepReplies room) : Prop :=
  (w.flush t.flushed).out.owed = false →
    Run.AllSteps send (fun w _ => w.out.owed = false) (w.beforeDrain t) t.committed

/-- **Each reply is written once, whole and in order**, but for the last, if it
is owed: of it the channel has the front. -/
def Whole (w : ReplyWorld) : Prop :=
  ∃ before, w.made = before ++ (if w.out.owed then [w.out.buf] else []) ∧
    w.channel = before.flatten ++ w.out.buf.take w.out.sent

/-! ## The reply holder -/

end ReplyWorld

namespace ReplyOut

variable {r : ReplyOut} {room : ℕ}

/-- A holder that owes nothing is empty. -/
def Idle (r : ReplyOut) : Prop := r.owed = false → r = new

theorem idle_new : new.Idle := fun _ => rfl

/-- **What the channel takes is the front of what is owed.** -/
theorem flush_spec (h : r.Idle) (took : ℕ) :
    (r.flush took).1.Idle ∧ r.rest = (r.flush took).2.1 ++ (r.flush took).1.rest ∧
      ((r.flush took).1.owed = true → (r.flush took).1.buf = r.buf ∧
        r.buf.take (r.flush took).1.sent = r.buf.take r.sent ++ (r.flush took).2.1) := by
  unfold flush
  split
  · exact ⟨h, rfl, fun _ => ⟨rfl, (List.append_nil _).symm⟩⟩
  split
  · exact ⟨h, rfl, fun _ => ⟨rfl, (List.append_nil _).symm⟩⟩
  dsimp only
  split
  · next hmore =>
    have hmin : min (r.sent + took) r.buf.length = r.sent + took := by omega
    rw [hmin] at hmore ⊢
    refine ⟨fun ho => ?_, ?_, fun _ => ⟨rfl, ?_⟩⟩
    · exact absurd hmore (of_decide_eq_false ho)
    · show r.buf.drop r.sent = r.rest.take took ++ r.buf.drop (r.sent + took)
      rw [← List.drop_drop, ← rest, List.take_append_drop]
    · exact List.take_add
  · next hall =>
    refine ⟨idle_new, ?_, nofun⟩
    have hlen : r.rest.length ≤ took := by
      rw [rest, List.length_drop]
      omega
    show r.rest = r.rest.take took ++ []
    rw [List.take_of_length_le hlen, List.append_nil]

theorem stage_of_idle (h : r.owed = false) (b : Reply room) :
    r.stage room b.bytes = (⟨b.bytes, 0⟩, true) := by
  refine if_neg ?_
  simp [h, b.ne_nil, b.fits]

/-- A reply is dropped when another is owed. -/
theorem stage_of_owed (h : r.owed = true) (bytes : Bytes) : r.stage room bytes = (r, false) :=
  if_pos (by rw [h]; rfl)

theorem owed_held (b : Reply room) : (⟨b.bytes, 0⟩ : ReplyOut).owed = true :=
  decide_eq_true (List.length_pos_of_ne_nil b.ne_nil)

end ReplyOut

namespace ReplyWorld

variable {room : ℕ} {w : ReplyWorld} {n : ℕ}

/-! ## What is lost -/

/-- So many bytes of the replies are neither written nor owed. -/
structure Lost (n : ℕ) (w : ReplyWorld) : Prop where
  /-- A holder that owes nothing is empty. -/
  idle : w.out.Idle
  count : w.made.flatten.length = w.channel.length + w.out.rest.length + n

theorem lost_new : Lost 0 new := ⟨ReplyOut.idle_new, rfl⟩

theorem Lost.flush (h : Lost n w) (took : ℕ) : Lost n (w.flush took) := by
  obtain ⟨hidle, hrest, -⟩ := ReplyOut.flush_spec h.idle took
  refine ⟨hidle, ?_⟩
  have hcount := h.count
  show w.made.flatten.length = (w.channel ++ (w.out.flush took).2.1).length + _ + n
  rw [hrest, List.length_append] at hcount
  rw [hcount, List.length_append]
  exact congrArg (· + n) (Nat.add_assoc _ _ _).symm

/-- A reply is held, when none is owed. -/
def hold (w : ReplyWorld) (b : Bytes) : ReplyWorld :=
  { w with out := ⟨b, 0⟩, made := w.made ++ [b] }

theorem send_of_idle (h : w.out.owed = false) (r : Reply room × ℕ) :
    w.send r = (w.hold r.1.bytes).flush r.2 := by
  unfold send ReplyOut.send
  rw [ReplyOut.stage_of_idle h]
  rfl

theorem send_of_owed (h : w.out.owed = true) (r : Reply room × ℕ) :
    w.send r = { w with made := w.made ++ [r.1.bytes] } := by
  unfold send ReplyOut.send
  rw [ReplyOut.stage_of_owed h]
  show (⟨w.out, w.channel ++ [], _⟩ : ReplyWorld) = _
  rw [List.append_nil]

theorem Lost.hold (h : Lost n w) (ho : w.out.owed = false) (r : Reply room) :
    Lost n (w.hold r.bytes) := by
  refine ⟨fun hf => ?_, ?_⟩
  · cases (ReplyOut.owed_held r).symm.trans hf
  · have hcount := h.count
    rw [h.idle ho] at hcount
    show (w.made ++ [r.bytes]).flatten.length = w.channel.length + r.bytes.length + n
    rw [List.flatten_append, List.length_append, hcount, List.flatten_singleton]
    show w.channel.length + 0 + n + r.bytes.length = _
    omega

/-- **What is sent while a reply is owed is lost**, and nothing else is. -/
theorem Lost.send (h : Lost n w) (r : Reply room × ℕ) :
    Lost (n + if w.out.owed then r.1.bytes.length else 0) (w.send r) := by
  cases ho : w.out.owed with
  | false =>
    rw [send_of_idle ho]
    exact (h.hold ho r.1).flush r.2
  | true =>
    rw [send_of_owed ho]
    refine ⟨h.idle, ?_⟩
    have hcount := h.count
    show (w.made ++ [r.1.bytes]).flatten.length = _ + _ + (n + r.1.bytes.length)
    rw [List.flatten_append, List.length_append, hcount, List.flatten_singleton, Nat.add_assoc]

theorem Lost.request (h : Lost n w) (r : Reply room × ℕ) : Lost n (w.request r) := by
  unfold ReplyWorld.request
  split
  · exact h
  next ho =>
  have hs := h.send r
  rw [if_neg ho] at hs
  exact hs

theorem Lost.requests (h : Lost n w) (rs : List (Reply room × ℕ)) :
    Lost n (rs.foldl ReplyWorld.request w) := by
  induction rs generalizing w with
  | nil => exact h
  | cons r rs ih => exact ih (h.request r)

theorem Lost.beforeDrain (h : Lost n w) {t : StepReplies room}
    (ho : (w.flush t.flushed).out.owed = false) : Lost n (w.beforeDrain t) := by
  refine Lost.requests ?_ t.requests
  cases t.resolved with
  | none => exact h.flush _
  | some r =>
    have hs := (h.flush t.flushed).send r
    rw [ho] at hs
    exact hs

/-- A drain loses something exactly when a reply of it finds another owed. -/
theorem Lost.drain (h : Lost n w) (rs : List (Reply room × ℕ)) :
    ∃ m, Lost m (rs.foldl ReplyWorld.send w) ∧ n ≤ m ∧
      (n = m ↔ Run.AllSteps ReplyWorld.send (fun w _ => w.out.owed = false) w rs) := by
  induction rs generalizing w n with
  | nil => exact ⟨n, h, Nat.le_refl n, iff_of_true rfl trivial⟩
  | cons r rs ih =>
    obtain ⟨m, hm, hle, hiff⟩ := ih (h.send r)
    have hpos := List.length_pos_of_ne_nil r.1.ne_nil
    refine ⟨m, hm, (Nat.le_add_right _ _).trans hle, ?_⟩
    rw [Run.allSteps_cons, ← hiff]
    cases ho : w.out.owed with
    | false => simp
    | true =>
      rw [ho, if_pos rfl] at hle
      simp only [Bool.true_eq_false, false_and, iff_false]
      omega

theorem Lost.step (h : Lost n w) (t : StepReplies room) :
    ∃ m, Lost m (w.step t) ∧ n ≤ m ∧ (n = m ↔ w.Clear t) := by
  unfold ReplyWorld.step Clear
  split
  · next ho => exact ⟨n, h.flush _, Nat.le_refl n, iff_of_true rfl fun hf => absurd (ho.symm.trans hf) nofun⟩
  next ho =>
  have hf : (w.flush t.flushed).out.owed = false := Bool.eq_false_of_not_eq_true ho
  obtain ⟨m, hm, hle, hiff⟩ := (h.beforeDrain hf).drain t.committed
  exact ⟨m, hm, hle, hiff.trans ⟨fun hall _ => hall, fun hall => hall hf⟩⟩

theorem Lost.run (h : Lost n w) (ts : List (StepReplies room)) :
    ∃ m, Lost m (Run.run ReplyWorld.step w ts) ∧ n ≤ m ∧
      (n = m ↔ Run.AllSteps ReplyWorld.step Clear w ts) := by
  induction ts generalizing w n with
  | nil => exact ⟨n, h, Nat.le_refl n, iff_of_true rfl trivial⟩
  | cons t ts ih =>
    obtain ⟨m, hm, hle, hiff⟩ := h.step t
    obtain ⟨m', hm', hle', hiff'⟩ := ih hm
    refine ⟨m', hm', hle.trans hle', ?_⟩
    rw [Run.allSteps_cons, ← hiff, ← hiff']
    omega

/-! ## What is whole -/

theorem Whole.lost (h : w.Whole) (hidle : w.out.Idle) : Lost 0 w := by
  obtain ⟨before, hm, hc⟩ := h
  refine ⟨hidle, ?_⟩
  rw [hm, hc, List.flatten_append, List.length_append, List.length_append, ReplyOut.rest]
  cases ho : w.out.owed with
  | false =>
    rw [hidle ho]
    rfl
  | true =>
    rw [if_pos rfl, List.flatten_singleton, List.length_take, List.length_drop]
    have hlt : w.out.sent < w.out.buf.length := of_decide_eq_true ho
    omega

theorem Whole.flush (h : w.Whole) (hidle : w.out.Idle) (took : ℕ) : (w.flush took).Whole := by
  obtain ⟨before, hm, hc⟩ := h
  obtain ⟨hidle', hrest, hmore⟩ := ReplyOut.flush_spec hidle took
  cases ho : w.out.owed with
  | false =>
    have hflush : w.flush took = w := by
      unfold ReplyWorld.flush ReplyOut.flush
      rw [ho]
      show (⟨w.out, w.channel ++ [], w.made⟩ : ReplyWorld) = w
      rw [List.append_nil]
    rw [hflush]
    exact ⟨before, hm, hc⟩
  | true =>
    rw [ho, if_pos rfl] at hm
    cases ho' : (w.out.flush took).1.owed with
    | true =>
      obtain ⟨hbuf, htake⟩ := hmore ho'
      refine ⟨before, ?_, ?_⟩
      · show w.made = before ++ (if (w.out.flush took).1.owed then [(w.out.flush took).1.buf] else [])
        rw [ho', hbuf, hm]
        rfl
      · show w.channel ++ _ = before.flatten ++ (w.out.flush took).1.buf.take (w.out.flush took).1.sent
        rw [hbuf, htake, hc, List.append_assoc]
    | false =>
      -- the channel has taken the whole reply
      have hnone : (w.out.flush took).1.rest = [] := by
        rw [hidle' ho']
        rfl
      rw [hnone, List.append_nil] at hrest
      refine ⟨w.made, ?_, ?_⟩
      · show w.made = w.made ++ (if (w.out.flush took).1.owed then _ else [])
        rw [ho']
        exact (List.append_nil _).symm
      · show w.channel ++ (w.out.flush took).2.1
          = w.made.flatten ++ (w.out.flush took).1.buf.take (w.out.flush took).1.sent
        rw [hidle' ho', ← hrest, hc, hm, List.append_assoc, List.flatten_append,
          List.flatten_singleton]
        show before.flatten ++ (w.out.buf.take w.out.sent ++ w.out.buf.drop w.out.sent)
          = before.flatten ++ w.out.buf ++ []
        rw [List.take_append_drop, List.append_nil]

theorem Whole.hold (h : w.Whole) (hidle : w.out.Idle) (ho : w.out.owed = false) (r : Reply room) :
    (w.hold r.bytes).Whole := by
  obtain ⟨before, hm, hc⟩ := h
  rw [ho] at hm
  rw [hidle ho] at hc
  refine ⟨w.made, ?_, ?_⟩
  · show w.made ++ [r.bytes] = w.made ++ (if (⟨r.bytes, 0⟩ : ReplyOut).owed then [r.bytes] else [])
    rw [ReplyOut.owed_held r]
    rfl
  · show w.channel = w.made.flatten ++ r.bytes.take 0
    rw [hc, hm]
    exact congrArg (· ++ []) (congrArg List.flatten (List.append_nil before).symm)

/-- **A reply that finds none owed is written in its place.** -/
theorem Whole.send (h : w.Whole) (hl : Lost n w) (ho : w.out.owed = false) (r : Reply room × ℕ) :
    (w.send r).Whole := by
  rw [send_of_idle ho]
  exact (h.hold hl.idle ho r.1).flush (hl.hold ho r.1).idle r.2

theorem Whole.requests (h : w.Whole) (hl : Lost n w) (rs : List (Reply room × ℕ)) :
    (rs.foldl ReplyWorld.request w).Whole := by
  induction rs generalizing w with
  | nil => exact h
  | cons r rs ih =>
    refine ih ?_ (hl.request r)
    unfold ReplyWorld.request
    split
    · exact h
    · next ho => exact h.send hl (Bool.eq_false_of_not_eq_true ho) r

theorem Whole.beforeDrain (h : w.Whole) (hl : Lost n w) {t : StepReplies room}
    (ho : (w.flush t.flushed).out.owed = false) : (w.beforeDrain t).Whole := by
  have hf := h.flush hl.idle t.flushed
  have hlf := hl.flush t.flushed
  unfold ReplyWorld.beforeDrain
  cases t.resolved with
  | none => exact hf.requests hlf t.requests
  | some r => exact (hf.send hlf ho r).requests (hlf.send r) t.requests

theorem Whole.drain (h : w.Whole) (hl : Lost n w) {rs : List (Reply room × ℕ)}
    (hall : Run.AllSteps ReplyWorld.send (fun w _ => w.out.owed = false) w rs) :
    (rs.foldl ReplyWorld.send w).Whole := by
  induction rs generalizing w n with
  | nil => exact h
  | cons r rs ih => exact ih (h.send hl hall.1 r) (hl.send r) hall.2

theorem Whole.step (h : w.Whole) (hl : Lost n w) {t : StepReplies room} (hc : w.Clear t) :
    (w.step t).Whole := by
  unfold ReplyWorld.step
  split
  · exact h.flush hl.idle t.flushed
  next ho =>
  have hf : (w.flush t.flushed).out.owed = false := Bool.eq_false_of_not_eq_true ho
  exact (h.beforeDrain hl hf).drain (hl.beforeDrain hf) (hc hf)

/-- **When no reply is dropped**: exactly in the runs whose drains of the
committed stream never meet an owed reply. -/
theorem whole_iff (room : ℕ) (ts : List (StepReplies room)) :
    (Run.run step new ts).Whole ↔ Run.AllSteps step Clear new ts := by
  obtain ⟨m, hm, -, hiff⟩ := Lost.run lost_new ts
  rw [← hiff]
  constructor
  · intro h
    have hzero := (h.lost hm.idle).count
    rw [hm.count] at hzero
    omega
  · intro hz
    have hall := hiff.mp hz
    clear hm hiff hz
    have hnew : new.Whole := ⟨[], rfl, rfl⟩
    have hlost := lost_new
    generalize new = w at hall hnew hlost ⊢
    generalize 0 = n at hlost
    induction ts generalizing w n with
    | nil => exact hnew
    | cons t ts ih =>
      obtain ⟨k, hk, -⟩ := hlost.step t
      exact ih _ hall.2 (hnew.step hlost hall.1) k hk

/-- Two commits are answered in one drain, and the channel refuses the first
answer. -/
def refusedDrain : StepReplies 16 :=
  ⟨0, none, [], [(⟨[1], nofun, by decide⟩, 0), (⟨[3], nofun, by decide⟩, 1)]⟩

/-- **The second answer is dropped**: when the first has been taken, the channel
has nothing of it, and nothing is owed. -/
theorem drain_drops_reply :
    ¬ (Run.run step new [refusedDrain, ⟨1, none, [], []⟩]).Whole ∧
      (Run.run step new [refusedDrain, ⟨1, none, [], []⟩]).channel = [1] ∧
      (Run.run step new [refusedDrain, ⟨1, none, [], []⟩]).out.owed = false ∧
      (Run.run step new [refusedDrain, ⟨1, none, [], []⟩]).made = [[1], [3]] := by
  refine ⟨fun h => ?_, by decide, by decide, by decide⟩
  obtain ⟨before, hm, hc⟩ := h
  have hnew : (Run.run step new [refusedDrain, ⟨1, none, [], []⟩]).out = .new := by decide
  have hmade : (Run.run step new [refusedDrain, ⟨1, none, [], []⟩]).made = [[1], [3]] := by decide
  have hchannel : (Run.run step new [refusedDrain, ⟨1, none, [], []⟩]).channel = [1] := by decide
  rw [hnew] at hm hc
  rw [hmade] at hm
  rw [hchannel] at hc
  have hbefore : [[1], [3]] = before := hm.trans (List.append_nil before)
  rw [← hbefore] at hc
  exact absurd hc (by decide)

end ReplyWorld

end Loam

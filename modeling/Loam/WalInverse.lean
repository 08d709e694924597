import Loam.WalTear

/-!
# Appending and replaying

An append writes its frame in pieces and a replay reads frames in pieces, as
the provider moves them. Neither depends on the pieces: the file has the frames
of the records in the order they were taken, each once, and a replay hands over
the records the file begins with, each once and in order. A replay comes to its
end as soon as enough of its polls move anything at all, whatever polls that
move nothing stand between them.
-/

namespace Loam

/-! ## What was taken -/

namespace WalWorld

variable {async : Bool} {first : Bytes} {w : WalWorld}

/-- The record an event stages. -/
def stages (w : WalWorld) : WalEvent → List Bytes
  | .append payload => if (w.appender.begin payload).2 = .pending then [payload] else []
  | .io _ => []

/-- The records a run stages, in order. -/
def taken (async : Bool) : WalWorld → List WalEvent → List Bytes
  | _, [] => []
  | w, e :: es => w.stages e ++ taken async (w.step async e) es

/-- The record that is staged and not decided. -/
def inFlight (w : WalWorld) : List Bytes :=
  if w.appender.phase = .idle then [] else [w.appender.payload]

/-- A call does not make the append fail. -/
def Goes (async : Bool) (w : WalWorld) : WalEvent → Prop
  | .append _ => True
  | .io answer => (w.appender.call async w.file answer).2.2 ≠ .failed

theorem begin_cases (ap : WalAppender) (payload : Bytes) :
    ap.begin payload = (ap, .failed) ∨
      (ap.phase = .idle ∧ ap.broken = false ∧
        ap.begin payload = ({ ap with phase := .seek, payload := payload, written := 0 }, .pending)) := by
  unfold WalAppender.begin
  split
  · exact .inl rfl
  next hgo =>
  simp only [Bool.or_eq_true, bne_iff_ne, ne_eq, decide_eq_true_eq, not_or, not_not,
    Bool.not_eq_true] at hgo
  exact .inr ⟨hgo.1.1.2, hgo.1.1.1, rfl⟩

/-- What an append can come to by a call. -/
inductive Comes (ap : WalAppender) : WalAppender → AppendState → Prop where
  | goes {ap' : WalAppender} (hpayload : ap'.payload = ap.payload)
      (hidle : ap'.phase = .idle ↔ ap.phase = .idle) (hbroken : ap'.broken = ap.broken) :
      Comes ap ap' .pending
  | durable (hstaged : ap.phase ≠ .idle) : Comes ap ap.finish .durable
  | fails (hstaged : ap.phase ≠ .idle) : Comes ap ap.fail .failed

theorem comes (ap : WalAppender) (f : WalFile) (a : FsAnswer) :
    Comes ap (ap.call async f a).1 (ap.call async f a).2.2 := by
  cases a with
  | again => exact .goes rfl Iff.rfl rfl
  | failed =>
    by_cases hp : ap.phase = .idle
    · rw [show ap.call async f .failed = (ap, f, .pending) from if_pos hp]
      exact .goes rfl Iff.rfl rfl
    · rw [show ap.call async f .failed = (ap.fail, f, .failed) from if_neg hp]
      exact .fails hp
  | done n =>
    unfold WalAppender.call
    cases hp : ap.phase with
    | idle => exact .goes rfl Iff.rfl rfl
    | seek =>
      have hstaged : ap.phase ≠ .idle := by rw [hp]; nofun
      dsimp only
      split
      · exact .fails hstaged
      · exact .goes rfl (by simp [hp]) rfl
    | write =>
      have hstaged : ap.phase ≠ .idle := by rw [hp]; nofun
      dsimp only
      split
      · exact .fails hstaged
      split
      · exact .goes rfl (by simp [hp]) rfl
      · exact .goes rfl (by cases async <;> simp [hp]) rfl
    | submit => exact .goes rfl (by simp [hp]) rfl
    | poll =>
      have hstaged : ap.phase ≠ .idle := by rw [hp]; nofun
      dsimp only
      split
      · exact .durable hstaged
      · exact .goes rfl Iff.rfl rfl
    | fsync => exact .durable (by rw [hp]; nofun)

/-- Every record is acknowledged or in flight. -/
structure Settled (w : WalWorld) (taken : List Bytes) : Prop where
  all : taken = w.acked ++ w.inFlight
  whole : w.appender.broken = false

theorem inFlight_of_idle (h : w.appender.phase = .idle) : w.inFlight = [] := if_pos h

theorem inFlight_of_staged (h : w.appender.phase ≠ .idle) : w.inFlight = [w.appender.payload] :=
  if_neg h

theorem step_append (w : WalWorld) (payload : Bytes) :
    (w.stages (.append payload) = [] ∧ w.step async (.append payload) = w) ∨
      (w.stages (.append payload) = [payload] ∧ w.inFlight = [] ∧
        (w.step async (.append payload)).inFlight = [payload] ∧
        (w.step async (.append payload)).acked = w.acked ∧
        w.appender.broken = (w.step async (.append payload)).appender.broken) := by
  obtain hb | ⟨hidle, hbroken, hb⟩ := begin_cases w.appender payload
  · refine .inl ⟨if_neg (by rw [hb]; nofun), ?_⟩
    show { w with appender := (w.appender.begin payload).1 } = w
    rw [hb]
  · refine .inr ⟨if_pos (by rw [hb]), inFlight_of_idle hidle, ?_, rfl, ?_⟩
    · rw [inFlight_of_staged]
      · show [(w.appender.begin payload).1.payload] = _
        rw [hb]
      · show (w.appender.begin payload).1.phase ≠ .idle
        rw [hb]
        nofun
    · show _ = (w.appender.begin payload).1.broken
      rw [hb]

/-- A call leaves the records in flight as they are, or acknowledges the one
there is, or gives it up. -/
theorem step_io (w : WalWorld) (a : FsAnswer) :
    ((w.step async (.io a)).acked ++ (w.step async (.io a)).inFlight = w.acked ++ w.inFlight ∧
        (w.step async (.io a)).appender.broken = w.appender.broken) ∨
      (¬ w.Goes async (.io a) ∧ (w.step async (.io a)).acked = w.acked ∧
        (w.step async (.io a)).inFlight = []) := by
  have hc := @comes async w.appender w.file a
  have hacked : (w.step async (.io a)).acked
      = if (w.appender.call async w.file a).2.2 = .durable
        then w.acked ++ [(w.appender.call async w.file a).1.payload] else w.acked := rfl
  have happ : (w.step async (.io a)).appender = (w.appender.call async w.file a).1 := rfl
  have hgoes : w.Goes async (.io a) ↔ (w.appender.call async w.file a).2.2 ≠ .failed := Iff.rfl
  rw [hgoes, hacked, happ]
  unfold inFlight
  rw [happ]
  generalize (w.appender.call async w.file a).1 = ap' at *
  generalize (w.appender.call async w.file a).2.2 = st at *
  cases hc with
  | goes hpayload hidle hbroken =>
    refine .inl ⟨?_, hbroken⟩
    rw [if_neg nofun, hpayload]
    simp only [hidle]
  | durable hstaged =>
    refine .inl ⟨?_, rfl⟩
    rw [if_pos rfl, if_pos (show w.appender.finish.phase = .idle from rfl), if_neg hstaged]
    exact List.append_nil _
  | fails hstaged => exact .inr ⟨fun h => h rfl, if_neg nofun, if_pos rfl⟩

/-- **The records acknowledged are those taken**, in order, but for those given
up and the one in flight. -/
theorem order_run (es : List WalEvent) {before : List Bytes}
    (h : (w.acked ++ w.inFlight).Sublist before) :
    ((Run.run (step async) w es).acked ++ (Run.run (step async) w es).inFlight).Sublist
      (before ++ taken async w es) := by
  induction es generalizing w before with
  | nil =>
    rw [show taken async w [] = [] from rfl, List.append_nil]
    exact h
  | cons e es ih =>
    have hone : ((w.step async e).acked ++ (w.step async e).inFlight).Sublist
        (before ++ w.stages e) := by
      cases e with
      | append payload =>
        obtain ⟨hs, hw⟩ | ⟨hs, hnone, hin, hacked, -⟩ := step_append w payload
        · rw [hs, hw, List.append_nil]
          exact h
        · rw [hnone, List.append_nil] at h
          rw [hs, hin, hacked]
          exact h.append (List.Sublist.refl _)
      | io a =>
        show List.Sublist _ (before ++ [])
        rw [List.append_nil]
        obtain ⟨heq, -⟩ | ⟨-, hacked, hin⟩ := step_io w a
        · rw [heq]
          exact h
        · rw [hacked, hin, List.append_nil]
          exact (List.sublist_append_left _ _).trans h
    have hrest := ih hone
    rw [List.append_assoc] at hrest
    exact hrest

/-- **None is given up when no call fails.** -/
theorem settled_run (es : List WalEvent) {before : List Bytes} (h : w.Settled before)
    (hgo : Run.AllSteps (step async) (Goes async) w es) :
    (Run.run (step async) w es).Settled (before ++ taken async w es) := by
  induction es generalizing w before with
  | nil =>
    rw [show taken async w [] = [] from rfl, List.append_nil]
    exact h
  | cons e es ih =>
    have hone : (w.step async e).Settled (before ++ w.stages e) := by
      cases e with
      | append payload =>
        obtain ⟨hs, hw⟩ | ⟨hs, hnone, hin, hacked, hb⟩ := step_append w payload
        · rw [hs, hw, List.append_nil]
          exact h
        · refine ⟨?_, hb ▸ h.whole⟩
          rw [hs, hin, hacked, h.all, hnone, List.append_nil]
      | io a =>
        show Settled _ (before ++ [])
        rw [List.append_nil]
        obtain ⟨heq, hb⟩ | ⟨hno, -⟩ := step_io w a
        · exact ⟨h.all.trans heq.symm, hb.trans h.whole⟩
        · exact absurd hgo.1 hno
    have hrest := ih hone hgo.2
    rw [List.append_assoc] at hrest
    exact hrest

/-- An append is durable by the fence behind its frame. -/
theorem durable_cases {ap : WalAppender} {f : WalFile} {a : FsAnswer}
    (hd : (ap.call async f a).2.2 = .durable) :
    (ap.phase = .poll ∨ ap.phase = .fsync) ∧ (ap.call async f a).2.1 = f.fence ∧
      (ap.call async f a).1.payload = ap.payload := by
  cases a with
  | again => cases hd
  | failed =>
    by_cases hp : ap.phase = .idle
    · rw [show ap.call async f .failed = (ap, f, .pending) from if_pos hp] at hd
      cases hd
    · rw [show ap.call async f .failed = (ap.fail, f, .failed) from if_neg hp] at hd
      cases hd
  | done n =>
    unfold WalAppender.call at hd ⊢
    cases hp : ap.phase with
    | idle | submit => simp only [hp] at hd; cases hd
    | seek =>
      simp only [hp] at hd
      split at hd <;> cases hd
    | write =>
      simp only [hp] at hd
      repeat' split at hd
      all_goals cases hd
    | poll =>
      dsimp only at hd ⊢
      rw [hp] at hd
      dsimp only at hd
      split at hd
      · next hn => exact ⟨.inl rfl, by rw [if_pos hn], by rw [if_pos hn]; rfl⟩
      · cases hd
    | fsync => exact ⟨.inr rfl, rfl, rfl⟩

/-- A record is acknowledged once it stands in the file, whole and fenced. -/
theorem At.durable {part : Bytes} (h : At first w part) {a : FsAnswer}
    (hd : (w.appender.call async w.file a).2.2 = .durable) :
    (w.step async (.io a)).file.bytes
        = first ++ walFraming.frames (w.acked ++ [w.appender.payload]) ∧
      (w.step async (.io a)).file.fenced = (w.step async (.io a)).file.bytes.length := by
  obtain ⟨hp, hfile, -⟩ := durable_cases hd
  have hpart : part = walFrame w.appender.payload := h.whole (.inr hp)
  have hstep : (w.step async (.io a)).file = w.file.fence := hfile
  rw [hstep]
  refine ⟨?_, rfl⟩
  show w.file.bytes = _
  rw [h.bytes, hpart, walFraming.frames_append, List.append_assoc]
  exact congrArg _ (congrArg _ (List.append_nil _).symm)

/-- What stands behind the acknowledged records is the front of the frame in
flight, and nothing when there is none and nothing has failed. -/
theorem At.behind {part : Bytes} (h : At first w part) :
    (∀ p ∈ w.inFlight, part <+: walFrame p) ∧
      (w.inFlight = [] → w.appender.broken = false → part = []) := by
  constructor
  · intro p hmem
    cases hp : w.appender.phase with
    | idle =>
      rw [inFlight_of_idle hp] at hmem
      cases hmem
    | seek =>
      rw [(h.clean (.inl hp)).1]
      exact List.nil_prefix
    | write =>
      rw [inFlight_of_staged (by rw [hp]; nofun)] at hmem
      rw [List.mem_singleton.mp hmem, (h.writing hp).1]
      exact List.take_prefix _ _
    | submit | poll | fsync =>
      rw [inFlight_of_staged (by rw [hp]; nofun)] at hmem
      have hall := h.whole (by rw [hp]; simp)
      rw [List.mem_singleton.mp hmem]
      exact hall ▸ List.prefix_refl _
  · intro hnone hbroken
    have hidle : w.appender.phase = .idle := by
      by_contra hne
      rw [inFlight_of_staged hne] at hnone
      cases hnone
    exact (h.clean (.inr ⟨hidle, hbroken⟩)).1

/-! ## Each the other's inverse -/

/-- **Each frame stands in the file once, in order**, and is acknowledged after
all of it is there and fenced. -/
structure AppendsInOrder (async : Bool) (first : Bytes) (es : List WalEvent) (w : WalWorld) :
    Prop where
  /-- Behind what was found stand the frames of the acknowledged records, then
  what is written of the one in flight. -/
  file : ∃ part, w.file.bytes = first ++ walFraming.frames w.acked ++ part ∧
    (∀ p ∈ w.inFlight, part <+: walFrame p) ∧
      (w.inFlight = [] → w.appender.broken = false → part = [])
  fenced : (first ++ walFraming.frames w.acked).length ≤ w.file.fenced
  /-- The next is acknowledged when its frame is there to its end, and all is
  fenced. -/
  durable : ∀ a, (w.appender.call async w.file a).2.2 = .durable →
    (w.step async (.io a)).file.bytes
        = first ++ walFraming.frames (w.acked ++ [w.appender.payload]) ∧
      (w.step async (.io a)).file.fenced = (w.step async (.io a)).file.bytes.length
  order : (w.acked ++ w.inFlight).Sublist (taken async (booted first) es)
  all : Run.AllSteps (step async) (Goes async) (booted first) es →
    taken async (booted first) es = w.acked ++ w.inFlight ∧ w.appender.broken = false

theorem appends_inOrder (async : Bool) (first : Bytes) (es : List WalEvent) :
    AppendsInOrder async first es (Run.run (step async) (booted first) es) := by
  obtain ⟨part, h⟩ := at_run async first es
  refine ⟨⟨part, h.bytes, h.behind⟩, h.fenced, fun a hd => h.durable hd, ?_, fun hgo => ?_⟩
  · have hnone : ((booted first).acked ++ (booted first).inFlight).Sublist [] :=
      List.nil_sublist _
    exact order_run es hnone
  · have hs : (booted first).Settled [] := ⟨rfl, rfl⟩
    obtain ⟨hall, hwhole⟩ := settled_run es hs hgo
    exact ⟨hall, hwhole⟩

/-- A log that was found empty, when nothing is in flight or failed, has the
records taken and no more. -/
theorem AppendsInOrder.records {es : List WalEvent} (h : AppendsInOrder async [] es w)
    (hok : ∀ p ∈ w.acked, WalOk p) (hnone : w.inFlight = []) (hwhole : w.appender.broken = false) :
    walRecords w.file.bytes = w.acked := by
  obtain ⟨part, hb, -, hpart⟩ := h.file
  rw [hb, hpart hnone hwhole, List.append_nil, List.nil_append]
  have hread := walFraming.records_frames_append hok []
  rw [List.append_nil] at hread
  have hempty : walFraming.records [] = [] :=
    walFraming.records_of_head (walHead_of_short (l := []) walHeader_pos)
  rw [walRecords, hread, hempty, List.append_nil]

end WalWorld

end Loam

import Loam.WalReplay
import Loam.Lib.Run

/-!
# A torn tail

A crash may leave the front of a frame at the end of the log, and the replay
stops there. The appender does not know: it seeks to the size of the file, so
that the next frame stands after the torn one, where no replay comes. A log
keeps what is acknowledged exactly when the last crash tore nothing – or when
it is so long that nothing more is appended.
-/

namespace Loam

/-! ## What a run appends -/

namespace WalWorld

variable {async : Bool} {first : Bytes} {w : WalWorld}

/-- What stands behind the acknowledged records: nothing, or what was written of
a frame. -/
def Part (part : Bytes) : Prop := part = [] ∨ ∃ p n, WalOk p ∧ part = (walFrame p).take n

/-- Where a module that booted over `first` is: behind what it found, the file
has the acknowledged records, and the front of the staged one. -/
structure At (first : Bytes) (w : WalWorld) (part : Bytes) : Prop where
  bytes : w.file.bytes = first ++ walFraming.frames w.acked ++ part
  ok : ∀ p ∈ w.acked, WalOk p
  fenced : (first ++ walFraming.frames w.acked).length ≤ w.file.fenced
  front : Part part
  staged : w.appender.phase ≠ .idle → WalOk w.appender.payload ∧ w.appender.broken = false
  clean : w.appender.phase = .seek ∨ (w.appender.phase = .idle ∧ w.appender.broken = false) →
    part = [] ∧ w.appender.written = 0
  writing : w.appender.phase = .write →
    part = (walFrame w.appender.payload).take w.appender.written ∧
      w.appender.written < (walFrame w.appender.payload).length ∧
      w.file.offset = w.file.bytes.length
  whole : w.appender.phase = .submit ∨ w.appender.phase = .poll ∨ w.appender.phase = .fsync →
    part = walFrame w.appender.payload

/-- A failed append: the log goes on only if nothing was written. -/
theorem At.fail {part : Bytes} (h : At first w part) (hp : w.appender.phase ≠ .idle) :
    At first { w with appender := w.appender.fail } part := by
  refine ⟨h.bytes, h.ok, h.fenced, h.front, fun hne => absurd rfl hne, ?_, nofun, nofun⟩
  rintro (hs | ⟨-, hb⟩)
  · exact absurd hs nofun
  · refine ⟨?_, rfl⟩
    simp only [WalAppender.fail, Bool.or_eq_false_iff, decide_eq_false_iff_not,
      Nat.not_lt, Nat.le_zero, Bool.and_eq_false_iff, bne_eq_false_iff_eq] at hb
    obtain ⟨⟨-, hw⟩, hph⟩ := hb
    rcases hph with (hi | hs) | hwr
    · exact absurd hi hp
    · exact (h.clean (.inl hs)).1
    · rw [(h.writing hwr).1, hw, List.take_zero]

theorem At.finish (h : At first w (walFrame w.appender.payload))
    (hp : w.appender.phase ≠ .idle) :
    At first { w with
      file := w.file.fence
      appender := w.appender.finish
      acked := w.acked ++ [w.appender.payload] } [] := by
  obtain ⟨hok, hbroken⟩ := h.staged hp
  have hframes : walFraming.frames (w.acked ++ [w.appender.payload])
      = walFraming.frames w.acked ++ walFrame w.appender.payload := by
    rw [walFraming.frames_append]
    exact congrArg _ (List.append_nil _)
  have hbytes : w.file.bytes = first ++ walFraming.frames (w.acked ++ [w.appender.payload]) := by
    rw [h.bytes, hframes, List.append_assoc]
  refine ⟨?_, fun p hmem => ?_, ?_, .inl rfl, fun hne => absurd rfl hne, fun _ => ⟨rfl, rfl⟩,
    nofun, nofun⟩
  · rw [List.append_nil]
    exact hbytes
  · rcases List.mem_append.mp hmem with hmem | hmem
    · exact h.ok p hmem
    · exact List.mem_singleton.mp hmem ▸ hok
  · exact Nat.le_of_eq (congrArg List.length hbytes.symm)

theorem write_at_end {f : WalFile} (ho : f.offset = f.bytes.length) (chunk : Bytes) :
    (f.write chunk).bytes = f.bytes ++ chunk ∧
      (f.write chunk).offset = (f.write chunk).bytes.length := by
  have hbytes : (f.write chunk).bytes = f.bytes ++ chunk := by
    unfold WalFile.write
    rw [ho, List.take_length, List.drop_eq_nil_of_le (Nat.le_add_right _ _), List.append_nil]
  refine ⟨hbytes, ?_⟩
  rw [hbytes, List.length_append]
  show f.offset + chunk.length = _
  rw [ho]

theorem At.write {part : Bytes} (h : At first w part) (hp : w.appender.phase = .write) {n : ℕ}
    (hn : n ≠ 0) : ∃ part', At first (w.step async (.io (.done n))) part' := by
  obtain ⟨hpart, hlt, hoff⟩ := h.writing hp
  obtain ⟨hok, hbroken⟩ := h.staged (by rw [hp]; nofun)
  have hchunk : (walFrame w.appender.payload).take (w.appender.written +
        (((walFrame w.appender.payload).drop w.appender.written).take n).length)
      = part ++ ((walFrame w.appender.payload).drop w.appender.written).take n := by
    rw [List.take_add, ← hpart]
    congr 1
    rw [List.length_take]
    exact List.take_eq_take_min.symm
  obtain ⟨hbytes, hoff'⟩ := write_at_end hoff
    (((walFrame w.appender.payload).drop w.appender.written).take n)
  generalize hc : ((walFrame w.appender.payload).drop w.appender.written).take n = chunk at *
  have hfile : (w.file.write chunk).bytes
      = first ++ walFraming.frames w.acked ++ (part ++ chunk) := by
    rw [hbytes, h.bytes, List.append_assoc]
  have hfenced : (first ++ walFraming.frames w.acked).length ≤ (w.file.write chunk).fenced :=
    h.fenced
  have hfront : Part (part ++ chunk) := .inr ⟨_, _, hok, hchunk.symm⟩
  refine ⟨part ++ chunk, ?_⟩
  simp only [step, WalAppender.call, hp, hc, if_neg hn]
  by_cases hmore : w.appender.written + chunk.length < (walFrame w.appender.payload).length
  · rw [if_pos hmore]
    exact ⟨hfile, h.ok, hfenced, hfront, fun _ => ⟨hok, hbroken⟩, nofun,
      fun _ => ⟨hchunk.symm, hmore, hoff'⟩, nofun⟩
  rw [if_neg hmore]
  have hall : part ++ chunk = walFrame w.appender.payload := by
    rw [← hchunk, List.take_of_length_le (Nat.not_lt.mp hmore)]
  refine ⟨hfile, h.ok, hfenced, hfront, fun _ => ⟨hok, hbroken⟩, ?_, ?_, fun _ => hall⟩
  · cases async <;> nofun
  · cases async <;> nofun

/-- **Every event keeps the log in order.** -/
theorem At.step {part : Bytes} (h : At first w part) (e : WalEvent) :
    ∃ part', At first (w.step async e) part' := by
  cases e with
  | append payload =>
    simp only [WalWorld.step, WalAppender.begin]
    split
    · exact ⟨part, h⟩
    next hgo =>
    simp only [Bool.or_eq_true, bne_iff_ne, ne_eq, decide_eq_true_eq, not_or, not_not,
      Bool.not_eq_true, Nat.not_lt] at hgo
    obtain ⟨⟨⟨hbroken, hidle⟩, hempty⟩, hmax⟩ := hgo
    obtain ⟨rfl, -⟩ := h.clean (.inr ⟨hidle, hbroken⟩)
    have hok : WalOk payload := by
      refine ⟨List.length_pos_of_ne_nil fun hnil => ?_, hmax⟩
      rw [hnil] at hempty
      cases hempty
    exact ⟨[], h.bytes, h.ok, h.fenced, h.front, fun _ => ⟨hok, hbroken⟩, fun _ => ⟨rfl, rfl⟩,
      nofun, nofun⟩
  | io answer =>
    cases hp : w.appender.phase with
    | idle =>
      refine ⟨part, ?_⟩
      cases answer <;> simp only [WalWorld.step, WalAppender.call, hp, if_true] <;> exact h
    | seek =>
      cases answer with
      | again => exact ⟨part, h⟩
      | failed =>
        refine ⟨part, ?_⟩
        simp only [WalWorld.step, WalAppender.call, hp]
        exact h.fail (by rw [hp]; nofun)
      | done n =>
        obtain ⟨rfl, hwritten⟩ := h.clean (.inl hp)
        obtain ⟨hok, hbroken⟩ := h.staged (by rw [hp]; nofun)
        simp only [WalWorld.step, WalAppender.call, hp]
        split
        · exact ⟨[], h.fail (by rw [hp]; nofun)⟩
        refine ⟨[], h.bytes, h.ok, h.fenced, h.front, fun _ => ⟨hok, hbroken⟩, nofun,
          fun _ => ⟨?_, ?_, rfl⟩, nofun⟩
        · rw [hwritten, List.take_zero]
        · show w.appender.written < _
          rw [hwritten, length_walFrame]
          exact Nat.add_pos_left walHeader_pos _
    | write =>
      cases answer with
      | again => exact ⟨part, h⟩
      | failed =>
        refine ⟨part, ?_⟩
        simp only [WalWorld.step, WalAppender.call, hp]
        exact h.fail (by rw [hp]; nofun)
      | done n =>
        by_cases hn : n = 0
        · refine ⟨part, ?_⟩
          simp only [WalWorld.step, WalAppender.call, hp, if_pos hn]
          exact h.fail (by rw [hp]; nofun)
        · exact h.write hp hn
    | submit =>
      have hwhole := h.whole (.inl hp)
      obtain ⟨hok, hbroken⟩ := h.staged (by rw [hp]; nofun)
      refine ⟨part, ?_⟩
      cases answer with
      | again => exact h
      | failed =>
        simp only [WalWorld.step, WalAppender.call, hp]
        exact h.fail (by rw [hp]; nofun)
      | done n =>
        simp only [WalWorld.step, WalAppender.call, hp]
        exact ⟨h.bytes, h.ok, h.fenced, h.front, fun _ => ⟨hok, hbroken⟩, nofun, nofun,
          fun _ => hwhole⟩
    | poll =>
      obtain rfl := h.whole (.inr (.inl hp))
      cases answer with
      | again => exact ⟨_, h⟩
      | failed =>
        refine ⟨walFrame w.appender.payload, ?_⟩
        simp only [WalWorld.step, WalAppender.call, hp]
        exact h.fail (by rw [hp]; nofun)
      | done n =>
        by_cases hn : n = 0
        · refine ⟨[], ?_⟩
          simp only [WalWorld.step, WalAppender.call, hp, if_pos hn]
          exact h.finish (by rw [hp]; nofun)
        · refine ⟨walFrame w.appender.payload, ?_⟩
          simp only [WalWorld.step, WalAppender.call, hp, if_neg hn]
          exact h
    | fsync =>
      obtain rfl := h.whole (.inr (.inr hp))
      cases answer with
      | again => exact ⟨_, h⟩
      | failed =>
        refine ⟨walFrame w.appender.payload, ?_⟩
        simp only [WalWorld.step, WalAppender.call, hp]
        exact h.fail (by rw [hp]; nofun)
      | done n =>
        refine ⟨[], ?_⟩
        simp only [WalWorld.step, WalAppender.call, hp]
        exact h.finish (by rw [hp]; nofun)

theorem at_booted (first : Bytes) : At first (booted first) [] := by
  refine ⟨?_, nofun, ?_, .inl rfl, fun hne => absurd rfl hne, fun _ => ⟨rfl, rfl⟩, nofun, nofun⟩
  · rw [List.append_nil]
    exact (List.append_nil first).symm
  · exact Nat.le_of_eq (congrArg List.length (List.append_nil first))

theorem at_run (async : Bool) (first : Bytes) (es : List WalEvent) :
    ∃ part, At first (Run.run (step async) (booted first) es) part :=
  Run.invariant_all (I := fun w : WalWorld => ∃ part, At first w part)
    (fun _ e ⟨_, h⟩ => h.step e) ⟨[], at_booted first⟩ es

theorem Part.take {part : Bytes} (h : Part part) (k : ℕ) : Part (part.take k) := by
  rcases h with rfl | ⟨p, m, hok, rfl⟩
  · exact .inl List.take_nil
  · exact .inr ⟨p, min k m, hok, List.take_take⟩

/-- **What a crash leaves**: what was found, the acknowledged records, and the
front of what stands behind them. -/
theorem Leaves.eq {part left : Bytes} (h : At first w part) (hl : w.Leaves left) :
    ∃ k, left = first ++ walFraming.frames w.acked ++ part.take k := by
  obtain ⟨n, hn, rfl⟩ := hl
  obtain ⟨k, rfl⟩ := Nat.exists_eq_add_of_le (h.fenced.trans hn)
  exact ⟨k, by rw [h.bytes, List.take_length_add_append]⟩

/-- The records of a log without a tear, with more behind it. -/
theorem At.records {part : Bytes} (h : At first w part) (hfirst : walTear first = []) (t : Bytes) :
    walRecords (first ++ walFraming.frames w.acked ++ t)
      = walRecords first ++ w.acked ++ walRecords t := by
  have hframes : first = walFraming.frames (walRecords first) := by
    conv_lhs => rw [← walFraming.frames_append_rest first]
    rw [show walFraming.rest first = [] from hfirst, List.append_nil]
    rfl
  have hleft : first ++ walFraming.frames w.acked
      = walFraming.frames (walRecords first ++ w.acked) := by
    rw [walFraming.frames_append, ← hframes]
  rw [hleft]
  refine walFraming.records_frames_append (fun p hp => ?_) t
  exact (List.mem_append.mp hp).elim (walFraming.records_ok first p) (h.ok p)

/-! ## What survives -/

/-- **What is acknowledged survives**: whatever a module that booted over the
file appends, and wherever it crashes, the next boot replays the records of the
file, then every acknowledged one, and at most the one that was staged. -/
def Survives (async : Bool) (first : Bytes) : Prop :=
  ∀ (es : List WalEvent) (left : Bytes), (Run.run (step async) (booted first) es).Leaves left →
    ∃ staged : List Bytes, staged.length ≤ 1 ∧
      (∀ polls handed, Replays left polls handed →
        handed = walRecords first ++ (Run.run (step async) (booted first) es).acked ++ staged) ∧
      ∀ polls, (∀ p ∈ polls, WalReplay.Progress p) → left.length + 2 ≤ polls.length →
        Replays left polls
          (walRecords first ++ (Run.run (step async) (booted first) es).acked ++ staged)

/-- It is what the records of the file the crash leaves say. -/
theorem survives_of_records
    (h : ∀ es left, (Run.run (step async) (booted first) es).Leaves left →
      ∃ staged : List Bytes, staged.length ≤ 1 ∧ walRecords left
        = walRecords first ++ (Run.run (step async) (booted first) es).acked ++ staged) :
    Survives async first := by
  intro es left hl
  obtain ⟨staged, hone, hrec⟩ := h es left hl
  refine ⟨staged, hone, fun polls handed hr => hr.eq.trans hrec, fun polls hp hlen => ?_⟩
  rw [← hrec]
  exact WalReplay.replays_of_progress left polls hp hlen

theorem records_part {t : Bytes} (h : Part t) : (walRecords t).length ≤ 1 := by
  rcases h with rfl | ⟨p, n, hok, rfl⟩
  · exact Nat.zero_le 1
  have hread : walRecords ((walFrame p).take n)
      = if (walFrame p).length ≤ n then [p] else [] := walFraming.records_take hok n
  rw [hread]
  split
  · exact Nat.le_refl 1
  · exact Nat.zero_le 1

/-- A log without a tear keeps what is acknowledged. -/
theorem survives_of_whole (h : walTear first = []) : Survives async first := by
  refine survives_of_records fun es left hl => ?_
  obtain ⟨part, hat⟩ := at_run async first es
  obtain ⟨k, rfl⟩ := hl.eq hat
  exact ⟨_, records_part (hat.front.take k), hat.records h _⟩

/-- A file too long for an offset is appended nothing. -/
structure Full (first : Bytes) (w : WalWorld) : Prop where
  bytes : w.file.bytes = first
  fenced : first.length ≤ w.file.fenced
  acked : w.acked = []
  phase : w.appender.phase = .idle ∨ w.appender.phase = .seek

theorem Full.step (h : Full first w) (hlong : 2 ^ 31 ≤ first.length) (e : WalEvent) :
    Full first (w.step async e) := by
  cases e with
  | append payload =>
    simp only [WalWorld.step, WalAppender.begin]
    split
    · exact h
    · exact ⟨h.bytes, h.fenced, h.acked, .inr rfl⟩
  | io answer =>
    rcases h.phase with hp | hp
    · cases answer <;> simp only [WalWorld.step, WalAppender.call, hp, if_true] <;> exact h
    cases answer with
    | again => exact h
    | failed =>
      simp only [WalWorld.step, WalAppender.call, hp]
      exact ⟨h.bytes, h.fenced, h.acked, .inl rfl⟩
    | done n =>
      have hsize : 2 ^ 31 ≤ w.file.bytes.length := h.bytes ▸ hlong
      simp only [WalWorld.step, WalAppender.call, hp, if_pos hsize]
      exact ⟨h.bytes, h.fenced, h.acked, .inl rfl⟩

theorem survives_of_long (hlong : 2 ^ 31 ≤ first.length) : Survives async first := by
  refine survives_of_records fun es left hl => ⟨[], Nat.zero_le 1, ?_⟩
  have hfull : Full first (Run.run (step async) (booted first) es) :=
    Run.invariant_all (I := Full first) (fun _ e h => h.step hlong e)
      ⟨rfl, Nat.le_refl _, rfl, .inl rfl⟩ es
  obtain ⟨n, hn, rfl⟩ := hl
  rw [hfull.bytes, hfull.acked, List.take_of_length_le (hfull.fenced.trans hn)]
  simp

/-! ### A record after a tear -/

/-- One record is appended and acknowledged. -/
def appendsZero : List WalEvent :=
  [.append [0], .io (.done 0), .io (.done 9), .io (.done 0), .io (.done 0)]

theorem walFrame_zero : walFrame [0] = [1, 0, 0, 0, 0x8D, 0xEF, 0x02, 0xD2, 0] := by
  decide +kernel

theorem run_appendsZero (async : Bool) (hshort : first.length < 2 ^ 31) :
    (Run.run (step async) (booted first) appendsZero).file.bytes = first ++ walFrame [0] ∧
      (Run.run (step async) (booted first) appendsZero).acked = [[0]] := by
  have hlen : ¬ 2 ^ 31 ≤ first.length := Nat.not_le.mpr hshort
  have hchunk : ((walFrame [0]).drop 0).take 9 = walFrame [0] := by rw [walFrame_zero]; rfl
  have hnine : (walFrame [0]).length = 9 := by rw [walFrame_zero]; rfl
  have hwrite : ((WalFile.onDevice first).seek first.length).write (walFrame [0])
      = ⟨first ++ walFrame [0], first.length + 9, first.length⟩ := by
    unfold WalFile.write WalFile.seek WalFile.onDevice
    dsimp only
    rw [List.take_length, List.drop_eq_nil_of_le (Nat.le_add_right _ _), List.append_nil, hnine]
  have hseek : step async (step async (booted first) (.append [0])) (.io (.done 0))
      = ⟨(WalFile.onDevice first).seek first.length, ⟨.write, false, [0], 0⟩, []⟩ := by
    show step async ⟨WalFile.onDevice first, ⟨.seek, false, [0], 0⟩, []⟩ (.io (.done 0)) = _
    simp only [step, WalAppender.call]
    rw [if_neg (show ¬ 2 ^ 31 ≤ (WalFile.onDevice first).bytes.length from hlen)]
    rfl
  have hwritten : step async ⟨(WalFile.onDevice first).seek first.length,
        ⟨.write, false, [0], 0⟩, []⟩ (.io (.done 9))
      = ⟨⟨first ++ walFrame [0], first.length + 9, first.length⟩,
        ⟨if async then .submit else .fsync, false, [0], 9⟩, []⟩ := by
    simp only [step, WalAppender.call, hchunk, hnine, hwrite]
    rfl
  have hrun : Run.run (step async) (booted first) appendsZero
      = step async (step async (step async (step async (step async (booted first)
        (.append [0])) (.io (.done 0))) (.io (.done 9))) (.io (.done 0))) (.io (.done 0)) := rfl
  rw [hrun, hseek, hwritten]
  cases async <;> exact ⟨rfl, rfl⟩

/-- The frame is not the front of itself behind some of its own bytes. -/
theorem walFrame_zero_aperiodic :
    ∀ k < 9, 0 < k → ¬ ((walFrame [0]).take k ++ walFrame [0]).take 9 = walFrame [0] := by
  rw [walFrame_zero]
  decide

/-- **A record after a tear is not replayed.** -/
theorem not_survives (htear : walTear first ≠ []) (hshort : first.length < 2 ^ 31) :
    ¬ Survives async first := by
  intro h
  obtain ⟨hbytes, hacked⟩ := run_appendsZero async hshort
  obtain ⟨staged, -, hrec, -⟩ := h appendsZero (first ++ walFrame [0])
    ⟨(Run.run (step async) (booted first) appendsZero).file.bytes.length
      + (Run.run (step async) (booted first) appendsZero).file.fenced,
      Nat.le_add_left _ _, by rw [List.take_of_length_le (Nat.le_add_right _ _), hbytes]⟩
  have hread := hrec _ _ (WalReplay.replays_of_progress (first ++ walFrame [0])
    (List.replicate ((first ++ walFrame [0]).length + 2) (1, [.done 0]))
    (fun p hp => by
      rw [(List.mem_replicate.mp hp).2]
      exact ⟨Nat.one_pos, ⟨0, [], rfl⟩, by decide⟩)
    (Nat.le_of_eq (List.length_replicate).symm))
  -- The records behind those of the file are read off the tear and the frame.
  have hsplit : walRecords (first ++ walFrame [0])
      = walRecords first ++ walRecords (walTear first ++ walFrame [0]) := by
    conv_lhs => rw [← walFraming.frames_append_rest first, List.append_assoc]
    exact walFraming.records_frames_append (walFraming.records_ok first) _
  rw [hacked, hsplit, List.append_assoc] at hread
  have hbehind := List.append_cancel_left hread
  have hfront : walTear first ++ walFrame [0] = walFrame [0] ++
      (walFraming.frames staged ++ walFraming.rest (walTear first ++ walFrame [0])) := by
    conv_lhs => rw [← walFraming.frames_append_rest (walTear first ++ walFrame [0])]
    rw [show walFraming.records (walTear first ++ walFrame [0]) = [[0]] ++ staged from hbehind,
      walFraming.frames_append, List.append_assoc]
    exact congrArg (· ++ _) (List.append_nil _)
  have hnine : (walFrame [0]).length = 9 := by rw [walFrame_zero]; rfl
  by_cases hk : (walTear first).length < 9
  · have htake : walTear first = (walFrame [0]).take (walTear first).length := by
      have hcut := congrArg (List.take (walTear first).length) hfront
      rwa [List.take_left' rfl, List.take_append_of_le_length (by rw [hnine]; exact hk.le)] at hcut
    refine walFrame_zero_aperiodic _ hk (List.length_pos_of_ne_nil htear) ?_
    rw [← htake, hfront]
    exact List.take_left' hnine
  · -- The tear would begin with a whole frame.
    have hwhole : walTear first = walFrame [0] ++ (walTear first).drop 9 := by
      have hcut := congrArg (List.take 9) hfront
      rw [List.take_append_of_le_length (Nat.not_lt.mp hk), List.take_left' hnine] at hcut
      rw [← hcut, List.take_append_drop]
    have hhead : walHead (walTear first) = some ([0], (walTear first).drop 9) :=
      walHead_eq_some_iff.mpr ⟨⟨by decide, by decide⟩, hwhole⟩
    exact absurd (hhead.symm.trans (walFraming.head_rest first)) nofun

/-- **When what is acknowledged survives a torn tail**: exactly when the tear
left no byte behind the last whole frame – or the file is too long for
anything to be appended. -/
theorem survives_iff (async : Bool) (first : Bytes) :
    Survives async first ↔ walTear first = [] ∨ 2 ^ 31 ≤ first.length := by
  constructor
  · intro h
    by_contra hno
    obtain ⟨htear, hshort⟩ := not_or.mp hno
    exact not_survives htear (Nat.not_le.mp hshort) h
  · rintro (h | h)
    · exact survives_of_whole h
    · exact survives_of_long h

/-- **A log that was torn after three bytes of a header** loses what is
acknowledged after the next boot. -/
theorem torn_header_loses : ¬ Survives false [1, 0, 0] :=
  not_survives (by decide +kernel) (by decide)

end WalWorld

end Loam

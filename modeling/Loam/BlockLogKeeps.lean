import Loam.BlockLogRecords

/-!
# What the block log keeps

A record whose append was answered with an offset is to be sent by every later
replay. It is not if it is empty or longer than a record that is read back, since
the reader takes its header for the tail; nor if a call fails while the reader is in
front of it, since the reader takes that for the tail too; nor if the log does not
open again; and a write may go anywhere once the tail is at an offset of 2³¹.

What is kept is said of the records before the tail (`Placed`), and of the job in
progress (`Mode`). In a run that meets none of these, every replay sends all that is
acknowledged (`replays_keep`).
-/

namespace Loam

open LogWorld

/-- The boot gives the log up. -/
def BlockLog.givesUp (s : BlockLog) (a : FsAnswer) : Bool :=
  match s.phase, a with
  | .opening, .failed | .caps, .done 0 | .name, .failed => true
  | _, _ => false

/-- The record reader makes the next call, before its end. -/
def BlockLog.reading (s : BlockLog) : Bool :=
  (decide (s.phase = .scan) || (decide (s.phase = .ready) && decide (s.job = .replay)))
    && decide (s.reader.stage ≠ .rewind)

namespace LogWorld

/-- An acknowledged record is ahead of the reader. -/
def Ahead (w : LogWorld) : Prop :=
  ∃ p ∈ w.acked, w.log.reader.stage = .seek ∨ w.log.reader.offset ≤ p.1

instance (w : LogWorld) : Decidable w.Ahead :=
  inferInstanceAs (Decidable (∃ p ∈ w.acked, _))

/-- **A step may lose a record**: the log is given up while one is acknowledged, a
call fails with one ahead of the reader, or an append goes to an offset that no seek
goes to, or is acknowledged and of a length that is not read back. -/
def Loses (w : LogWorld) : LogEvent → Prop
  | .step (.call a _) =>
    (w.log.givesUp a = true ∧ w.acked ≠ []) ∨
    (a = .failed ∧ w.log.reading = true ∧ w.Ahead) ∨
    (w.log.phase = .ready ∧ w.log.job = .appendSeek ∧ 2 ^ 31 ≤ w.log.currentOffset) ∨
    (w.log.phase = .ready ∧ w.log.job = .appendFsync ∧ a ≠ .again ∧ a ≠ .failed ∧
      ¬ WalOk (w.log.frame.drop 8))
  | _ => False

instance (p : Bytes) : Decidable (WalOk p) := inferInstanceAs (Decidable (_ ∧ _))

instance (w : LogWorld) (e : LogEvent) : Decidable (w.Loses e) :=
  match e with
  | .step (.call _ _) => inferInstanceAs (Decidable (_ ∨ _ ∨ _ ∨ _))
  | .step (.arrive _) => inferInstanceAs (Decidable False)
  | .crash _ => inferInstanceAs (Decidable False)

/-- Every replay that has ended sent all that was acknowledged, in order. -/
def ReplaysKeep (w : LogWorld) : Prop := ∀ p ∈ w.ended, p.1.Sublist p.2

instance (w : LogWorld) : Decidable w.ReplaysKeep :=
  inferInstanceAs (Decidable (∀ p ∈ w.ended, _))

end LogWorld

/-! ## What is kept -/

/-- The records before the tail are in the file for good, and all that is
acknowledged is among them. -/
structure Placed (f : WalFile) (acked : List (ℕ × Bytes)) (as : List Bytes) : Prop where
  ok : ∀ p ∈ as, WalOk p
  front : logFraming.frames as <+: f.bytes
  fenced : (logFraming.frames as).length ≤ f.fenced
  acked : acked.Sublist (logFraming.placed 0 as)

/-- What is known of the job in progress, with so much acknowledged and sent. -/
inductive Mode (s : BlockLog) (acked streamed : List (ℕ × Bytes)) (as : List Bytes) : Prop
  | booting (hp : s.phase ≠ .ready ∧ s.phase ≠ .failed) (hj : s.job = .none)
    (hf : s.file.fenced = s.file.bytes.length) (hs : streamed = [])
    (scan : s.phase = .scan → s.reader.stage ≠ .rewind ∧ ∃ bs, s.reader.At s.file bs)
  | failed (hp : s.phase = .failed) (hj : s.job = .none) (ha : acked = []) (hs : streamed = [])
  | idle (hp : s.phase = .ready) (hj : s.job = .none)
    (ho : s.currentOffset = (logFraming.frames as).length) (hs : streamed = [])
  | seeking (hp : s.phase = .ready) (hj : s.job = .appendSeek)
    (ho : s.currentOffset = (logFraming.frames as).length) (hs : streamed = [])
    (hf : s.frame = logFrame (s.frame.drop 8)) (hw : s.written = 0)
  | writing (hp : s.phase = .ready) (hj : s.job = .appendWrite ∨ s.job = .appendFsync)
    (ho : s.currentOffset = (logFraming.frames as).length) (hs : streamed = [])
    (hf : s.frame = logFrame (s.frame.drop 8))
    (hoff : s.file.offset = (logFraming.frames as ++ s.frame.take s.written).length)
    (hle : s.written ≤ s.frame.length)
    (hpre : logFraming.frames as ++ s.frame.take s.written <+: s.file.bytes)
    (hall : s.job = .appendFsync → s.written = s.frame.length)
  | reading (bs : List Bytes) (hp : s.phase = .ready) (hj : s.job = .replay)
    (ho : s.currentOffset = (logFraming.frames as).length) (hr : s.reader.stage ≠ .rewind)
    (hat : s.reader.At s.file bs) (hs : streamed = logFraming.placed 0 bs)
  | rewinding (hp : s.phase = .ready) (hj : s.job = .replay)
    (ho : s.currentOffset = (logFraming.frames as).length) (hr : s.reader.stage = .rewind)
    (hs : acked.Sublist streamed)

namespace LogWorld

/-- What every step that loses nothing keeps. -/
def Kept (w : LogWorld) : Prop :=
  w.ReplaysKeep ∧ ∃ as, Placed w.log.file w.acked as ∧ Mode w.log w.acked w.streamed as

end LogWorld

/-- What is in two lists in a row, and not in the second, is in the first. -/
theorem sublist_left {α : Type} {l l₁ l₂ : List α} (h : l.Sublist (l₁ ++ l₂))
    (hnot : ∀ x ∈ l, x ∉ l₂) : l.Sublist l₁ := by
  obtain ⟨r₁, r₂, rfl, h₁, h₂⟩ := List.sublist_append_iff.mp h
  have hnil : r₂ = [] := List.eq_nil_iff_forall_not_mem.mpr fun x hx =>
    hnot x (List.mem_append_right _ hx) (h₂.subset hx)
  rw [hnil, List.append_nil]
  exact h₁

namespace Placed

variable {f f' : WalFile} {acked : List (ℕ × Bytes)} {as bs : List Bytes}

/-- What is acknowledged is among the records of the file. -/
theorem acked_records (h : Placed f acked as) :
    acked.Sublist (logFraming.placed 0 (logRecords f.bytes)) := by
  obtain ⟨t, ht⟩ := h.front
  rw [← ht, logRecords, logFraming.records_frames_append h.ok, logFraming.placed_append]
  exact h.acked.trans (List.sublist_append_left _ _)

/-- **A reader at its end has handed over what is acknowledged**, if it has come to
the tail or no acknowledged record is ahead of it. -/
theorem acked_read (h : Placed f acked as) (hok : ∀ p ∈ bs, WalOk p)
    (hfront : logFraming.frames bs <+: f.bytes)
    (hstop : bs = logRecords f.bytes ∨ ∀ p ∈ acked, p.1 < (logFraming.frames bs).length) :
    acked.Sublist (logFraming.placed 0 bs) := by
  have hall := h.acked_records
  rcases hstop with rfl | hnone
  · exact hall
  obtain ⟨t, ht⟩ := hfront
  rw [← ht, logRecords, logFraming.records_frames_append hok, logFraming.placed_append] at hall
  refine sublist_left hall fun p hp hmem => ?_
  have hrest : ∀ q ∈ logFraming.records t, logFraming.Ok q := logFraming.records_ok t
  have hge := (logFraming.placed_lt hrest _ p hmem).1
  exact absurd (hnone p hp) (by omega)

theorem congr (h : Placed f acked as) (hf : f'.bytes = f.bytes ∧ f'.fenced = f.fenced) :
    Placed f' acked as :=
  ⟨h.ok, by rw [hf.1]; exact h.front, by rw [hf.2]; exact h.fenced, h.acked⟩

/-- A write at the tail leaves the records before it. -/
theorem overwrite (h : Placed f acked as) {more : Bytes}
    (hoff : f.offset = (logFraming.frames as ++ more).length)
    (hpre : logFraming.frames as ++ more <+: f.bytes) (chunk : Bytes) :
    Placed (f.overwrite chunk) acked as ∧
      logFraming.frames as ++ (more ++ chunk) <+: (f.overwrite chunk).bytes := by
  obtain ⟨t, ht⟩ := hpre
  have hbytes : (f.overwrite chunk).bytes =
      logFraming.frames as ++ (more ++ chunk) ++ f.bytes.drop (f.offset + chunk.length) := by
    show f.bytes.take f.offset ++ chunk ++ _ = _
    have htake : f.bytes.take f.offset = logFraming.frames as ++ more := by
      rw [← ht, hoff]
      exact List.take_left' rfl
    rw [htake, List.append_assoc (logFraming.frames as)]
  have hfront : logFraming.frames as ++ (more ++ chunk) <+: (f.overwrite chunk).bytes :=
    ⟨_, hbytes.symm⟩
  refine ⟨⟨h.ok, (List.prefix_append _ _).trans hfront, ?_, h.acked⟩, hfront⟩
  show _ ≤ min f.fenced f.offset
  rw [hoff, List.length_append]
  exact Nat.le_min.mpr ⟨h.fenced, Nat.le_add_right _ _⟩

/-- A frame that is fenced at the tail is one more record. -/
theorem acknowledge (h : Placed f acked as) {p : Bytes} (hp : WalOk p)
    (hpre : logFraming.frames as ++ logFrame p <+: f.bytes) :
    Placed f.fence (acked ++ [((logFraming.frames as).length, p)]) (as ++ [p]) := by
  have hframes : logFraming.frames (as ++ [p]) = logFraming.frames as ++ logFrame p := by
    rw [logFraming.frames_append]
    exact congrArg _ (List.append_nil _)
  refine ⟨fun q hq => ?_, by rw [hframes]; exact hpre, ?_, ?_⟩
  · rcases List.mem_append.mp hq with hq | hq
    · exact h.ok q hq
    · exact List.mem_singleton.mp hq ▸ hp
  · rw [hframes]
    exact hpre.length_le
  · rw [logFraming.placed_append, Nat.zero_add]
    exact h.acked.append (List.Sublist.refl _)

theorem crash (h : Placed f acked as) (tail : Bytes) :
    Placed (.onDevice (f.bytes.take f.fenced ++ tail)) acked as := by
  have hfront : logFraming.frames as <+: f.bytes.take f.fenced ++ tail := by
    refine List.IsPrefix.trans ?_ (List.prefix_append _ _)
    rw [List.prefix_iff_eq_take.mp h.front]
    exact List.take_prefix_take_left h.fenced
  exact ⟨h.ok, hfront, hfront.length_le, h.acked⟩

end Placed

/-! ## One call -/

namespace LogWorld

variable {w : LogWorld} {a : FsAnswer} {taken : Bool} {s : BlockLog}

theorem meet_quiet (h : w.log.call a = (s, none)) (taken : Bool) :
    (w.meet (.call a taken)).log = s ∧ (w.meet (.call a taken)).acked = w.acked ∧
      (w.meet (.call a taken)).streamed = w.streamed ∧
      (w.meet (.call a taken)).ended = w.ended := by
  simp [meet, h]

theorem meet_refused {cid : UInt32} (h : w.log.call a = (s, some (.refused cid))) (taken : Bool) :
    (w.meet (.call a taken)).log = s ∧ (w.meet (.call a taken)).acked = w.acked ∧
      (w.meet (.call a taken)).streamed = w.streamed ∧
      (w.meet (.call a taken)).ended = w.ended := by
  simp [meet, h, tell]

theorem meet_appended {cid : UInt32} {o : ℕ} (h : w.log.call a = (s, some (.appended cid o)))
    (taken : Bool) :
    (w.meet (.call a taken)).log = s ∧
      (w.meet (.call a taken)).acked = w.acked ++ [(o, s.frame.drop 8)] ∧
      (w.meet (.call a taken)).streamed = w.streamed ∧
      (w.meet (.call a taken)).ended = w.ended := by
  simp [meet, h, tell]

theorem meet_record {cid : UInt32} {o : ℕ} {p : Bytes}
    (h : w.log.call a = (s, some (.record cid o p))) (taken : Bool) :
    (w.meet (.call a taken)).log = s ∧ (w.meet (.call a taken)).acked = w.acked ∧
      (w.meet (.call a taken)).streamed = w.streamed ++ [(o, p)] ∧
      (w.meet (.call a taken)).ended = w.ended := by
  simp [meet, h, tell]

theorem meet_ended {cid total : UInt32} (h : w.log.call a = (s, some (.ended cid total)))
    (taken : Bool) :
    (w.meet (.call a taken)).log = s ∧ (w.meet (.call a taken)).acked = w.acked ∧
      (w.meet (.call a taken)).streamed = [] ∧
      (w.meet (.call a taken)).ended = w.ended ++ [(w.acked, w.streamed)] := by
  simp [meet, h, tell]

/-- A step that sends nothing of what is acknowledged keeps it if the log does. -/
theorem Kept.of_log {w' : LogWorld} {s : BlockLog} (h : w.ReplaysKeep) {as : List Bytes}
    (heq : w'.log = s ∧ w'.acked = w.acked ∧ w'.streamed = w.streamed ∧ w'.ended = w.ended)
    (hplaced : Placed s.file w.acked as) (hmode : Mode s w.acked w.streamed as) : w'.Kept := by
  obtain ⟨h₁, h₂, h₃, h₄⟩ := heq
  rw [Kept, ReplaysKeep, h₁, h₂, h₃, h₄]
  exact ⟨h, as, hplaced, hmode⟩

/-- A replay that ends keeps what is acknowledged if it has sent it. -/
theorem Kept.of_ended {w' : LogWorld} {s : BlockLog} (h : w.ReplaysKeep) {as : List Bytes}
    (heq : w'.log = s ∧ w'.acked = w.acked ∧ w'.streamed = [] ∧
      w'.ended = w.ended ++ [(w.acked, w.streamed)])
    (hsent : w.acked.Sublist w.streamed) (hplaced : Placed s.file w.acked as)
    (hmode : Mode s w.acked [] as) : w'.Kept := by
  obtain ⟨h₁, h₂, h₃, h₄⟩ := heq
  rw [Kept, ReplaysKeep, h₁, h₂, h₃, h₄]
  refine ⟨fun p hp => ?_, as, hplaced, hmode⟩
  rcases List.mem_append.mp hp with hp | hp
  · exact h p hp
  rw [List.mem_singleton.mp hp]
  exact hsent

end LogWorld

namespace LogWorld

variable {w : LogWorld} {a : FsAnswer} {taken : Bool} {as : List Bytes}

/-- The reader stops where nothing that is acknowledged is left. -/
theorem none_ahead {bs bs' : List Bytes} {emit : Bool} (hat : w.log.reader.At w.log.file bs)
    (hr : w.log.reading = true) (hl : ¬ w.Loses (.step (.call a taken)))
    (hreads : RecordReader.Reads w.log.file a bs (w.log.reader.read emit w.log.file a) bs')
    (hstop : (w.log.reader.read emit w.log.file a).1.stage = .rewind) :
    bs' = logRecords w.log.file.bytes ∨
      ∀ p ∈ w.acked, p.1 < (logFraming.frames bs').length := by
  rcases hreads.stops hstop with hall | hfail
  · exact .inl hall
  have hnone : ¬ w.Ahead := fun hc => hl (.inr (.inl ⟨hfail, hr, hc⟩))
  refine .inr fun p hp => ?_
  have hseek : w.log.reader.stage ≠ .seek := fun hc => hnone ⟨p, hp, .inl hc⟩
  rw [hreads.fails hfail, ← hat.offset hseek]
  exact Nat.not_le.mp fun hc => hnone ⟨p, hp, .inr hc⟩

/-- **The boot.** -/
theorem Kept.boot (h : w.ReplaysKeep) (hplaced : Placed w.log.file w.acked as)
    (hl : ¬ w.Loses (.step (.call a taken)))
    (hp : w.log.phase ≠ .ready ∧ w.log.phase ≠ .failed) (hj : w.log.job = .none)
    (hf : w.log.file.fenced = w.log.file.bytes.length) (hs : w.streamed = [])
    (scan : w.log.phase = .scan →
      w.log.reader.stage ≠ .rewind ∧ ∃ bs, w.log.reader.At w.log.file bs) :
    (w.meet (.call a taken)).Kept := by
  have hcall : w.log.call a = (w.log.boot a, none) := BlockLog.call_boot hp a
  have heq := meet_quiet hcall taken
  have hgive : w.log.givesUp a = true → w.acked = [] := fun hg =>
    Classical.not_not.mp fun hne => hl (.inl ⟨hg, hne⟩)
  have hstay : w.log.boot a = w.log → (w.meet (.call a taken)).Kept := fun hb => by
    rw [hb] at heq
    exact .of_log h heq hplaced (.booting hp hj hf hs scan)
  cases hphase : w.log.phase with
  | opening =>
    cases a with
    | again => exact hstay (by simp only [BlockLog.boot, hphase])
    | failed =>
      rw [show w.log.boot .failed = { w.log with phase := .failed } by
        simp only [BlockLog.boot, hphase]] at heq
      exact .of_log h heq hplaced
        (.failed rfl hj (hgive (by simp only [BlockLog.givesUp, hphase])) hs)
    | done n =>
      rw [show w.log.boot (.done n) = { w.log with phase := .caps } by
        simp only [BlockLog.boot, hphase]] at heq
      exact .of_log h heq hplaced (.booting ⟨nofun, nofun⟩ hj hf hs nofun)
  | caps =>
    cases a with
    | again => exact hstay (by simp only [BlockLog.boot, hphase])
    | failed => exact hstay (by simp only [BlockLog.boot, hphase])
    | done n =>
      cases n with
      | zero =>
        rw [show w.log.boot (.done 0) = { w.log with phase := .failed } by
          simp only [BlockLog.boot, hphase]] at heq
        exact .of_log h heq hplaced
          (.failed rfl hj (hgive (by simp only [BlockLog.givesUp, hphase])) hs)
      | succ n =>
        rw [show w.log.boot (.done (n + 1)) = { w.log with phase := .name } by
          simp only [BlockLog.boot, hphase]] at heq
        exact .of_log h heq hplaced (.booting ⟨nofun, nofun⟩ hj hf hs nofun)
  | name =>
    cases a with
    | again => exact hstay (by simp only [BlockLog.boot, hphase])
    | failed =>
      rw [show w.log.boot .failed = { w.log with phase := .failed } by
        simp only [BlockLog.boot, hphase]] at heq
      exact .of_log h heq hplaced
        (.failed rfl hj (hgive (by simp only [BlockLog.givesUp, hphase])) hs)
    | done n =>
      rw [show w.log.boot (.done n) =
          { w.log with phase := .scan, reader := { w.log.reader with stage := .seek } } by
        simp only [BlockLog.boot, hphase]] at heq
      exact .of_log h heq hplaced
        (.booting ⟨nofun, nofun⟩ hj hf hs fun _ => ⟨nofun, [], .start rfl⟩)
  | scan =>
    obtain ⟨hr, bs, hat⟩ := scan hphase
    obtain ⟨bs', hreads⟩ := hat.read hr false a
    have hreading : w.log.reading = true := by simp [BlockLog.reading, hphase, hr]
    by_cases hstop : (w.log.reader.read false w.log.file a).1.stage = .rewind
    · -- The clean tail: all that is acknowledged is before it.
      have hfront := hreads.goes.front
      rw [hreads.file.1] at hfront
      have hkept := hplaced.acked_read hreads.goes.ok hfront
        (none_ahead hat hreading hl hreads hstop)
      rw [show w.log.boot a =
          { w.log with
            reader := (w.log.reader.read false w.log.file a).1
            file := (w.log.reader.read false w.log.file a).2.1, phase := .ready
            currentOffset := (w.log.reader.read false w.log.file a).1.offset } by
        simp only [BlockLog.boot, hphase, if_pos hstop]] at heq
      have hoffset := hreads.goes.offset (by rw [hstop]; nofun)
      have hplaced' : Placed (w.log.reader.read false w.log.file a).2.1 w.acked bs' := by
        refine ⟨hreads.goes.ok, hreads.goes.front, ?_, hkept⟩
        rw [hreads.file.2, hf, ← hreads.file.1]
        exact hreads.goes.front.length_le
      exact .of_log h heq hplaced' (.idle rfl hj hoffset hs)
    · rw [show w.log.boot a =
          { w.log with
            reader := (w.log.reader.read false w.log.file a).1
            file := (w.log.reader.read false w.log.file a).2.1 } by
        simp only [BlockLog.boot, hphase, if_neg hstop]] at heq
      refine .of_log h heq (hplaced.congr hreads.file) (.booting hp hj ?_ hs fun _ =>
        ⟨hstop, bs', hreads.goes⟩)
      dsimp only
      rw [hreads.file.2, hf, hreads.file.1]
  | ready => exact absurd hphase hp.1
  | failed => exact absurd hphase hp.2

/-- **A request is read**, by a log that did not open. -/
theorem Kept.takeFailed (h : w.ReplaysKeep) (hplaced : Placed w.log.file w.acked as)
    (hp : w.log.phase = .failed) (hj : w.log.job = .none) (ha : w.acked = [])
    (hs : w.streamed = []) (taken : Bool) : (w.meet (.call a taken)).Kept := by
  have hcall : w.log.call a = w.log.take := BlockLog.call_take (.inr hp) hj a
  cases hin : w.log.inbox with
  | nil =>
    have htake : w.log.take = (w.log, none) := by simp only [BlockLog.take, hin]
    exact .of_log h (meet_quiet (hcall.trans htake) taken) hplaced (.failed hp hj ha hs)
  | cons src inbox =>
    cases hreq : LogRequest.ofBytes (src.take logReadBuf) with
    | append cid payload =>
      have htake : w.log.take = ({ w.log with inbox := inbox }, some (.refused cid)) := by
        simp only [BlockLog.take, hin, hreq, hp, if_true]
      exact .of_log h (meet_refused (hcall.trans htake) taken) hplaced (.failed hp hj ha hs)
    | replay cid =>
      have htake : w.log.take = ({ w.log with inbox := inbox }, some (.ended cid 0)) := by
        simp only [BlockLog.take, hin, hreq, hp, if_true]
      exact .of_ended h (meet_ended (hcall.trans htake) taken) (by rw [ha]; exact List.nil_sublist _)
        hplaced (.failed hp hj ha rfl)
    | malformed =>
      have htake : w.log.take = ({ w.log with inbox := inbox }, none) := by
        simp only [BlockLog.take, hin, hreq]
      exact .of_log h (meet_quiet (hcall.trans htake) taken) hplaced (.failed hp hj ha hs)

/-- **A request is read**, by a log that is open. -/
theorem Kept.take (h : w.ReplaysKeep) (hplaced : Placed w.log.file w.acked as)
    (hp : w.log.phase = .ready) (hj : w.log.job = .none)
    (ho : w.log.currentOffset = (logFraming.frames as).length) (hs : w.streamed = [])
    (taken : Bool) : (w.meet (.call a taken)).Kept := by
  have hnot : w.log.phase ≠ .failed := by rw [hp]; nofun
  have hcall : w.log.call a = w.log.take := BlockLog.call_take (.inl hp) hj a
  cases hin : w.log.inbox with
  | nil =>
    have htake : w.log.take = (w.log, none) := by simp only [BlockLog.take, hin]
    exact .of_log h (meet_quiet (hcall.trans htake) taken) hplaced (.idle hp hj ho hs)
  | cons src inbox =>
    cases hreq : LogRequest.ofBytes (src.take logReadBuf) with
    | append cid payload =>
      by_cases hbig : logScratch < 8 + payload.length
      · have htake : w.log.take = ({ w.log with inbox := inbox }, some (.refused cid)) := by
          simp only [BlockLog.take, hin, hreq, if_neg hnot, if_pos hbig]
        exact .of_log h (meet_refused (hcall.trans htake) taken) hplaced (.idle hp hj ho hs)
      have htake : w.log.take =
          ({ w.log with
            inbox := inbox, cid := cid, frame := logFrame payload, written := 0
            job := .appendSeek }, none) := by
        simp only [BlockLog.take, hin, hreq, if_neg hnot, if_neg hbig]
      exact .of_log h (meet_quiet (hcall.trans htake) taken) hplaced
        (.seeking hp rfl ho hs (by rw [drop_logFrame]) rfl)
    | replay cid =>
      have htake : w.log.take =
          ({ w.log with
            inbox := inbox, cid := cid, reader := { w.log.reader with stage := .seek }
            job := .replay }, none) := by
        simp only [BlockLog.take, hin, hreq, if_neg hnot]
      exact .of_log h (meet_quiet (hcall.trans htake) taken) hplaced
        (.reading [] hp rfl ho nofun (.start rfl) hs)
    | malformed =>
      have htake : w.log.take = ({ w.log with inbox := inbox }, none) := by
        simp only [BlockLog.take, hin, hreq]
      exact .of_log h (meet_quiet (hcall.trans htake) taken) hplaced (.idle hp hj ho hs)

/-- An append that is refused leaves the records as they were. -/
theorem Kept.refuse (h : w.ReplaysKeep) (hplaced : Placed w.log.file w.acked as)
    (hp : w.log.phase = .ready) (ho : w.log.currentOffset = (logFraming.frames as).length)
    (hs : w.streamed = []) (hcall : w.log.call a = w.log.refuse) (taken : Bool) :
    (w.meet (.call a taken)).Kept :=
  .of_log h (meet_refused hcall taken) hplaced (.idle hp rfl ho hs)

theorem seekTarget_eq {offset : ℕ} (h : offset < 2 ^ 31) (n : ℕ) : seekTarget offset n = offset := by
  rw [seekTarget, Nat.mod_eq_of_lt (Nat.lt_trans h (by decide)), if_pos h]

/-- **The seek of an append.** -/
theorem Kept.seek (h : w.ReplaysKeep) (hplaced : Placed w.log.file w.acked as)
    (hl : ¬ w.Loses (.step (.call a taken)))
    (hp : w.log.phase = .ready) (hj : w.log.job = .appendSeek)
    (ho : w.log.currentOffset = (logFraming.frames as).length) (hs : w.streamed = [])
    (hf : w.log.frame = logFrame (w.log.frame.drop 8)) (hw : w.log.written = 0) :
    (w.meet (.call a taken)).Kept := by
  have hcall : w.log.call a = w.log.driveAppend a := BlockLog.call_append hp (.inl hj) a
  cases a with
  | again =>
    have hdrive : w.log.driveAppend .again = (w.log, none) := by
      simp only [BlockLog.driveAppend]
    exact .of_log h (meet_quiet (hcall.trans hdrive) taken) hplaced (.seeking hp hj ho hs hf hw)
  | failed =>
    exact .refuse h hplaced hp ho hs (hcall.trans (by simp only [BlockLog.driveAppend])) taken
  | done n =>
    have hshort : w.log.currentOffset < 2 ^ 31 :=
      Nat.not_le.mp fun hc => hl (.inr (.inr (.inl ⟨hp, hj, hc⟩)))
    have hdrive : w.log.driveAppend (.done n) =
        ({ w.log with file := w.log.file.seek w.log.currentOffset, job := .appendWrite }, none) := by
      simp only [BlockLog.driveAppend, hj, seekTarget_eq hshort]
    have hnone : w.log.frame.take w.log.written = [] := by rw [hw]; rfl
    refine .of_log h (meet_quiet (hcall.trans hdrive) taken) (hplaced.congr ⟨rfl, rfl⟩)
      (.writing hp (.inl rfl) ho hs hf ?_ (by rw [hw]; exact Nat.zero_le _) ?_ nofun)
    · dsimp only
      rw [hnone, List.append_nil]
      exact ho
    · dsimp only
      rw [hnone, List.append_nil]
      exact hplaced.front

/-- **A write of an append**, and its fence. -/
theorem Kept.write (h : w.ReplaysKeep) (hplaced : Placed w.log.file w.acked as)
    (hl : ¬ w.Loses (.step (.call a taken)))
    (hp : w.log.phase = .ready) (hj : w.log.job = .appendWrite ∨ w.log.job = .appendFsync)
    (ho : w.log.currentOffset = (logFraming.frames as).length) (hs : w.streamed = [])
    (hf : w.log.frame = logFrame (w.log.frame.drop 8))
    (hoff : w.log.file.offset =
      (logFraming.frames as ++ w.log.frame.take w.log.written).length)
    (hle : w.log.written ≤ w.log.frame.length)
    (hpre : logFraming.frames as ++ w.log.frame.take w.log.written <+: w.log.file.bytes)
    (hall : w.log.job = .appendFsync → w.log.written = w.log.frame.length) :
    (w.meet (.call a taken)).Kept := by
  have hcall : w.log.call a = w.log.driveAppend a := BlockLog.call_append hp (.inr hj) a
  cases a with
  | again =>
    have hdrive : w.log.driveAppend .again = (w.log, none) := by
      simp only [BlockLog.driveAppend]
    exact .of_log h (meet_quiet (hcall.trans hdrive) taken) hplaced
      (.writing hp hj ho hs hf hoff hle hpre hall)
  | failed =>
    have hdrive : w.log.driveAppend .failed = w.log.refuse := by
      simp only [BlockLog.driveAppend]
    exact .refuse h hplaced hp ho hs (hcall.trans hdrive) taken
  | done n =>
    rcases hj with hj | hj
    · by_cases hn : n = 0
      · have hdrive : w.log.driveAppend (.done n) = w.log.refuse := by
          simp only [BlockLog.driveAppend, hj, if_pos hn]
        exact .refuse h hplaced hp ho hs (hcall.trans hdrive) taken
      have hdrive : w.log.driveAppend (.done n) =
          ({ w.log with
            file := w.log.file.overwrite ((w.log.frame.drop w.log.written).take n)
            written := w.log.written + ((w.log.frame.drop w.log.written).take n).length
            job := if w.log.frame.length ≤
                w.log.written + ((w.log.frame.drop w.log.written).take n).length
              then .appendFsync else .appendWrite }, none) := by
        simp only [BlockLog.driveAppend, hj, if_neg hn]
      generalize hchunk : (w.log.frame.drop w.log.written).take n = chunk at hdrive
      have htake : w.log.frame.take w.log.written ++ chunk
          = w.log.frame.take (w.log.written + chunk.length) := by
        rw [List.take_add, ← hchunk, List.length_take, ← List.take_eq_take_min]
      obtain ⟨hplaced', hpre'⟩ := hplaced.overwrite hoff hpre chunk
      rw [htake] at hpre'
      have hlen : chunk.length ≤ w.log.frame.length - w.log.written := by
        rw [← hchunk, List.length_take, List.length_drop]
        omega
      refine .of_log h (meet_quiet (hcall.trans hdrive) taken) hplaced'
        (.writing hp ?_ ho hs hf ?_ (by dsimp only; omega) hpre' fun hc => ?_)
      · dsimp only
        split
        · exact .inr rfl
        · exact .inl rfl
      · dsimp only
        rw [← htake, ← List.append_assoc, List.length_append, ← hoff]
        rfl
      · dsimp only at hc ⊢
        split at hc
        · omega
        · cases hc
    · have hok : WalOk (w.log.frame.drop 8) := Classical.not_not.mp fun hc =>
        hl (.inr (.inr (.inr ⟨hp, hj, nofun, nofun, hc⟩)))
      have hdrive : w.log.driveAppend (.done n) =
          ({ w.log with
            file := w.log.file.fence, job := .none
            currentOffset := w.log.currentOffset + w.log.frame.length },
            some (.appended w.log.cid w.log.currentOffset)) := by
        simp only [BlockLog.driveAppend, hj]
      obtain ⟨h₁, h₂, h₃, h₄⟩ := meet_appended (hcall.trans hdrive) taken
      rw [hall hj, List.take_of_length_le (Nat.le_refl _), hf] at hpre
      have hplaced' := hplaced.acknowledge hok hpre
      rw [← ho] at hplaced'
      rw [Kept, ReplaysKeep, h₁, h₂, h₃, h₄]
      refine ⟨h, _, hplaced', .idle hp rfl ?_ hs⟩
      dsimp only
      rw [ho, logFraming.frames_append, List.length_append, hf, drop_logFrame]
      exact congrArg _ (congrArg _ (List.append_nil _).symm)

/-- **A call of a replay**, before its end. -/
theorem Kept.read (h : w.ReplaysKeep) (hplaced : Placed w.log.file w.acked as)
    (hl : ¬ w.Loses (.step (.call a taken))) {bs : List Bytes}
    (hp : w.log.phase = .ready) (hj : w.log.job = .replay)
    (ho : w.log.currentOffset = (logFraming.frames as).length)
    (hr : w.log.reader.stage ≠ .rewind) (hat : w.log.reader.At w.log.file bs)
    (hs : w.streamed = logFraming.placed 0 bs) : (w.meet (.call a taken)).Kept := by
  obtain ⟨bs', hreads⟩ := hat.read hr true a
  have hreading : w.log.reading = true := by simp [BlockLog.reading, hp, hj, hr]
  have hcall : w.log.call a =
      ({ w.log with
        reader := (w.log.reader.read true w.log.file a).1
        file := (w.log.reader.read true w.log.file a).2.1 },
        (w.log.reader.read true w.log.file a).2.2.map fun p => .record w.log.cid p.1 p.2) := by
    rw [BlockLog.call_replay hp hj]
    simp only [BlockLog.driveReplay, if_neg hr]
  have hplaced' := hplaced.congr hreads.file
  -- What has been sent now.
  have hkept : ∀ streamed, streamed = logFraming.placed 0 bs' →
      Mode { w.log with
        reader := (w.log.reader.read true w.log.file a).1
        file := (w.log.reader.read true w.log.file a).2.1 } w.acked streamed as := by
    rintro _ rfl
    by_cases hstop : (w.log.reader.read true w.log.file a).1.stage = .rewind
    · have hfront := hreads.goes.front
      rw [hreads.file.1] at hfront
      exact .rewinding hp hj ho hstop (hplaced.acked_read hreads.goes.ok hfront
        (none_ahead hat hreading hl hreads hstop))
    · exact .reading bs' hp hj ho hstop hreads.goes rfl
  have hhanded := hreads.handed
  cases hout : (w.log.reader.read true w.log.file a).2.2 with
  | none =>
    rw [hout] at hcall hhanded
    refine .of_log h (meet_quiet hcall taken) hplaced' (hkept _ ?_)
    rw [hs, hhanded]
    exact (List.append_nil _).symm
  | some p =>
    rw [hout] at hcall hhanded
    obtain ⟨h₁, h₂, h₃, h₄⟩ := meet_record hcall taken
    rw [Kept, ReplaysKeep, h₁, h₂, h₃, h₄]
    refine ⟨h, as, hplaced', hkept _ ?_⟩
    rw [hs, hhanded]
    rfl

/-- **The end of a replay.** -/
theorem Kept.rewind (h : w.ReplaysKeep) (hplaced : Placed w.log.file w.acked as)
    (hp : w.log.phase = .ready) (hj : w.log.job = .replay)
    (ho : w.log.currentOffset = (logFraming.frames as).length)
    (hr : w.log.reader.stage = .rewind) (hs : w.acked.Sublist w.streamed) (taken : Bool) :
    (w.meet (.call a taken)).Kept := by
  have hcall : w.log.call a = w.log.driveReplay a := BlockLog.call_replay hp hj a
  cases a with
  | again =>
    have hdrive : w.log.driveReplay .again = (w.log, none) := by
      simp only [BlockLog.driveReplay, if_pos hr]
    exact .of_log h (meet_quiet (hcall.trans hdrive) taken) hplaced (.rewinding hp hj ho hr hs)
  | failed =>
    have hdrive : w.log.driveReplay .failed =
        ({ w.log with job := .none }, some (.ended w.log.cid w.log.reader.total)) := by
      simp only [BlockLog.driveReplay, if_pos hr]
    exact .of_ended h (meet_ended (hcall.trans hdrive) taken) hs hplaced (.idle hp rfl ho rfl)
  | done n =>
    have hdrive : w.log.driveReplay (.done n) =
        ({ w.log with file := w.log.file.seek (seekTarget w.log.currentOffset n), job := .none },
          some (.ended w.log.cid w.log.reader.total)) := by
      simp only [BlockLog.driveReplay, if_pos hr]
    exact .of_ended h (meet_ended (hcall.trans hdrive) taken) hs (hplaced.congr ⟨rfl, rfl⟩)
      (.idle hp rfl ho rfl)

/-! ## Runs -/

/-- **Every step that loses nothing keeps what is acknowledged.** -/
theorem Kept.step (h : w.Kept) (e : LogEvent) (hl : ¬ w.Loses e) : (w.step e).Kept := by
  obtain ⟨hends, as, hplaced, hmode⟩ := h
  match e with
  | .crash tail => exact ⟨hends, as, hplaced.crash tail, .booting ⟨nofun, nofun⟩ rfl rfl rfl nofun⟩
  | .step (.arrive src) =>
    refine ⟨hends, as, hplaced, ?_⟩
    cases hmode with
    | booting hp hj hf hs scan => exact .booting hp hj hf hs scan
    | failed hp hj ha hs => exact .failed hp hj ha hs
    | idle hp hj ho hs => exact .idle hp hj ho hs
    | seeking hp hj ho hs hf hw => exact .seeking hp hj ho hs hf hw
    | writing hp hj ho hs hf hoff hle hpre hall =>
      exact .writing hp hj ho hs hf hoff hle hpre hall
    | reading bs hp hj ho hr hat hs => exact .reading bs hp hj ho hr hat hs
    | rewinding hp hj ho hr hs => exact .rewinding hp hj ho hr hs
  | .step (.call a taken) =>
    cases hmode with
    | booting hp hj hf hs scan => exact .boot hends hplaced hl hp hj hf hs scan
    | failed hp hj ha hs => exact .takeFailed hends hplaced hp hj ha hs taken
    | idle hp hj ho hs => exact .take hends hplaced hp hj ho hs taken
    | seeking hp hj ho hs hf hw => exact .seek hends hplaced hl hp hj ho hs hf hw
    | writing hp hj ho hs hf hoff hle hpre hall =>
      exact .write hends hplaced hl hp hj ho hs hf hoff hle hpre hall
    | reading bs hp hj ho hr hat hs => exact .read hends hplaced hl hp hj ho hr hat hs
    | rewinding hp hj ho hr hs => exact .rewind hends hplaced hp hj ho hr hs taken

theorem kept_start (bytes : Bytes) : (start bytes).Kept :=
  ⟨nofun, [], ⟨nofun, List.nil_prefix, Nat.zero_le _, List.Sublist.refl _⟩,
    .booting ⟨nofun, nofun⟩ rfl rfl rfl nofun⟩

/-- **The block log keeps what it acknowledges**: whatever the file is at first, in a
run in which no step loses anything, every replay that ends has sent all the records
whose appends were answered with an offset, with their payloads and in their
order. -/
theorem replays_keep (bytes : Bytes) (es : List LogEvent)
    (h : Run.AllSteps step (fun w e => ¬ w.Loses e) (start bytes) es) :
    (Run.run step (start bytes) es).ReplaysKeep :=
  (Run.invariant (I := Kept) (fun _ e hk hl => hk.step e hl) (kept_start bytes) h).1

/-! A log is opened on an empty file, and takes an append and a replay. -/

/-- Calls that are answered, by so much. -/
def answers (ns : List ℕ) : List LogEvent := ns.map fun n => .step (.call (.done n) true)

/-- The log opens on an empty file: the open, what it can do, the fence of its name,
the seek to the head, and a read that finds nothing. -/
def opens : List LogEvent := answers [3, 1, 0, 0, 0]

/-- An append: it is read, and its frame written at the tail and fenced. -/
def appends (payload : Bytes) : List LogEvent :=
  .step (.arrive ([opAppendReq, 1, 0, 0, 0] ++ leBytes 2 payload.length ++ payload)) ::
    answers [0, 0, 8 + payload.length, 0]

/-- A replay, of so many reads. -/
def replays (reads : ℕ) : List LogEvent :=
  .step (.arrive [opReplayReq, 2, 0, 0, 0]) :: answers (List.replicate (reads + 3) 7)

/-- Two records with a failed append between, replayed before a crash that leaves a
torn tail and after it. -/
def tornAppends : List LogEvent :=
  opens ++ appends [7] ++ (appends [9]).take 3 ++ [.step (.call .failed true)] ++ appends [8] ++
    replays 6 ++ [.crash [1, 0]] ++ answers ([3, 1, 0, 0] ++ List.replicate 9 7) ++ replays 6

theorem replays_keep_torn :
    (Run.run step (start []) tornAppends).ReplaysKeep ∧
      (Run.run step (start []) tornAppends).ended =
        List.replicate 2 ([(0, [7]), (9, [8])], [(0, [7]), (9, [8])]) :=
  ⟨replays_keep [] _ (by decide +kernel), by decide +kernel⟩

/-- An empty record is acknowledged; it hides the next one, and neither is
replayed. -/
theorem empty_record_hides :
    (Run.run step (start []) (opens ++ appends [] ++ appends [7] ++ replays 1)).ended =
        [([(0, []), (8, [7])], [])] ∧
      ¬ (Run.run step (start []) (opens ++ appends [] ++ appends [7] ++ replays 1)).ReplaysKeep := by
  decide +kernel

end LogWorld

end Loam

import Loam.ObjectSpool

/-!
# What a spool keeps

A spool keeps the bytes it was given, in order: those the file has, then those
in the spill (`Spool.Keeps`). Polling it moves them along and changes neither
(`Spool.Keeps.poll`), as long as the write that is under way is the one the
spill would ask next.

The spill is one spool's: what is done with another leaves it as it is
(`Spool.Touches`).
-/

namespace Loam

namespace Spool

variable {sp : Spool} {spill : Spill} {p q : Spool × Spill} {W : Bytes}

/-! ## The spill -/

/-- What is done with a spool: it has the spill afterwards only if the spill is
busy with it, and it leaves another's alone. -/
structure Touches (sp : Spool) (spill : Spill) (q : Spool × Spill) : Prop where
  own : (sp.holds = true → spill.busy = true) → q.1.holds = true → q.2.busy = true
  others : sp.holds = false → spill.busy = true → q.1.holds = false ∧ q.2 = spill

theorem Touches.of_eq (hh : p.1.holds = sp.holds) (hs : p.2 = spill) : sp.Touches spill p where
  own h hq := by
    rw [hs]
    exact h (hh ▸ hq)
  others h _ := ⟨hh.trans h, hs⟩

theorem Touches.of_not_holds (hh : p.1.holds = false) (hs : sp.holds = false → p.2 = spill) :
    sp.Touches spill p where
  own _ hq := by cases hh.symm.trans hq
  others h _ := ⟨hh, hs h⟩

theorem Touches.trans (h : sp.Touches spill p) (h' : p.1.Touches p.2 q) :
    sp.Touches spill q where
  own hb := h'.own (h.own hb)
  others hn hb := by
    obtain ⟨hp, hs⟩ := h.others hn hb
    rw [← hs]
    exact h'.others hp (hs ▸ hb)

/-- Only whether the spool has the spill matters. -/
theorem Touches.after {sp' : Spool} (h : sp'.Touches spill q) (hh : sp'.holds = sp.holds) :
    sp.Touches spill q :=
  ⟨fun hb => h.own fun hs => hb (hh ▸ hs), fun hn => h.others (hh.trans hn)⟩

theorem holds_spillRelease (sp : Spool) (spill : Spill) :
    (sp.spillRelease spill).1.holds = false := by
  unfold spillRelease
  split
  · rfl
  next h => exact Bool.eq_false_of_not_eq_true h

theorem touches_spillRelease (sp : Spool) (spill : Spill) :
    sp.Touches spill (sp.spillRelease spill) := by
  refine .of_not_holds (sp.holds_spillRelease spill) fun h => ?_
  unfold spillRelease
  rw [h]
  rfl

theorem touches_fail (sp : Spool) (spill : Spill) : sp.Touches spill (sp.fail spill) :=
  (sp.touches_spillRelease spill).trans (.of_eq rfl rfl)

theorem touches_spillTake {bytes : Bytes} (h : sp.spillTake spill bytes = some p) :
    sp.Touches spill p := by
  unfold spillTake at h
  split at h
  · next hh =>
    split at h
    · obtain rfl := Option.some.inj h
      exact ⟨fun hb _ => hb hh, fun hn => absurd (hh.symm.trans hn) Bool.noConfusion⟩
    · cases h
  split at h
  · cases h
  next hfree =>
  split at h
  · obtain rfl := Option.some.inj h
    exact ⟨fun _ _ => rfl, fun _ hb => absurd hb hfree⟩
  · cases h

theorem holds_pollUnlink (sp : Spool) (turn : FileTurn) : (sp.pollUnlink turn).holds = sp.holds := by
  unfold pollUnlink
  split <;> rfl

theorem holds_pollCreate (sp : Spool) (turn : FileTurn) : (sp.pollCreate turn).holds = sp.holds := by
  unfold pollCreate
  split
  · dsimp only
    split <;> split <;> rfl
  · rfl

theorem holds_pollSeek (sp : Spool) (turn : FileTurn) : (sp.pollSeek turn).holds = sp.holds := by
  unfold pollSeek
  split
  · dsimp only
    split <;> rfl
  · rfl

theorem touches_drain (sp : Spool) (spill : Spill) (turn : FileTurn) :
    sp.Touches spill (sp.drain spill turn) := by
  unfold drain
  split
  · exact .of_eq rfl rfl
  next hh =>
  have hholds : sp.holds = true := by simpa using hh
  split
  · exact sp.touches_fail spill
  dsimp only
  split
  · exact .of_eq rfl rfl
  · exact .after (touches_fail _ _) rfl
  · split
    · exact .of_eq rfl rfl
    split
    · exact .after (touches_spillRelease _ _) rfl
    · exact ⟨fun hb _ => hb hholds, fun hn => absurd (hholds.symm.trans hn) Bool.noConfusion⟩

theorem touches_poll (sp : Spool) (spill : Spill) (turns : PollTurns) :
    sp.Touches spill (sp.poll spill turns) := by
  unfold poll
  dsimp only
  refine .after ?_ ((holds_pollCreate _ turns.create).trans (sp.holds_pollUnlink turns.unlink))
  split
  · exact (touches_drain _ _ _).trans (.of_eq (holds_pollSeek _ _) rfl)
  unfold pollRemove
  split
  · exact .of_not_holds rfl fun _ => rfl
  · exact .of_eq rfl rfl

theorem touches_release (sp : Spool) (spill : Spill) (turns : PollTurns) :
    sp.Touches spill (sp.release spill turns) := by
  unfold release
  dsimp only
  refine (sp.touches_spillRelease spill).trans ?_
  split
  · exact .of_eq rfl rfl
  all_goals exact .after (touches_poll _ _ _) rfl

/-! ## The bytes -/

/-- What the spill owes the spool's file. -/
def owed (sp : Spool) (spill : Spill) : Bytes := if sp.holds then spill.rest else []

/-- **A spool keeps `W`**: what its file has and what is owed to it is `W`, and no
other call is under way than the one that is asked next. A spool whose file
failed keeps nothing, and one that is gone is none. -/
structure Keeps (sp : Spool) (spill : Spill) (W : Bytes) : Prop where
  doomed : sp.doomed = false
  stands : sp.st ≠ .none ∧ sp.st ≠ .remove
  /-- The file has at most what it was given. -/
  fits : sp.holds = true → spill.off ≤ spill.buf.length
  /-- Before there is a file, all of it waits. -/
  clearing : sp.st = .unlink ∨ sp.st = .create → sp.owed spill = W
  writing : sp.st = .ready →
    sp.file.pos = sp.file.bytes.length ∧ sp.file.bytes ++ sp.owed spill = W
  waits : sp.st = .ready → sp.holds = true → sp.file.Agrees (.write spill.rest)
  /-- When nothing waits, a file that is written is going back to its start. -/
  rewinds : sp.st = .ready → sp.holds = false → sp.isSealed = true → sp.file.Agrees .rewind
  reading : sp.st = .reading → sp.holds = false ∧ sp.file.bytes = W

theorem Keeps.of_failed (hd : sp.doomed = false) (h : sp.st = .failed)
    (hf : sp.holds = true → spill.off ≤ spill.buf.length) : sp.Keeps spill W := by
  refine ⟨hd, ?_, hf, ?_, ?_, ?_, ?_, ?_⟩ <;> simp [h]

/-- The spill does not matter to a spool that does not have it. -/
theorem Keeps.congr {spill' : Spill} (h : sp.Keeps spill W) (hh : sp.holds = false) :
    sp.Keeps spill' W := by
  have howed : sp.owed spill' = sp.owed spill := by rw [owed, owed, hh]; rfl
  refine ⟨h.doomed, h.stands, fun hs => ?_, howed ▸ h.clearing, howed ▸ h.writing, fun _ hs => ?_,
    h.rewinds, h.reading⟩
  all_goals cases hh.symm.trans hs

/-- What a spool keeps when it has a file to be written. -/
theorem Keeps.of_ready (hd : sp.doomed = false) (hst : sp.st = .ready)
    (hf : sp.holds = true → spill.off ≤ spill.buf.length) (hpos : sp.file.pos = sp.file.bytes.length) (hbytes : sp.file.bytes ++ sp.owed spill = W)
    (hw : sp.holds = true → sp.file.Agrees (.write spill.rest))
    (hr : sp.holds = false → sp.isSealed = true → sp.file.Agrees .rewind) : sp.Keeps spill W := by
  refine ⟨hd, ?_, hf, ?_, fun _ => ⟨hpos, hbytes⟩, fun _ => hw, fun _ => hr, ?_⟩ <;> simp [hst]

theorem Keeps.pollUnlink (h : sp.Keeps spill W) (turn : FileTurn) :
    (sp.pollUnlink turn).Keeps spill W := by
  unfold Spool.pollUnlink
  split
  · next hst =>
    rw [Bool.and_eq_true, decide_eq_true_eq] at hst
    refine ⟨h.doomed, by simp, h.fits, fun _ => h.clearing (.inl hst.1), ?_, ?_, ?_, ?_⟩ <;> simp
  · exact h

theorem Keeps.pollCreate (h : sp.Keeps spill W) (turn : FileTurn) :
    (sp.pollCreate turn).Keeps spill W := by
  unfold Spool.pollCreate
  split
  · next hst =>
    rw [Bool.and_eq_true, decide_eq_true_eq] at hst
    dsimp only
    split
    · rw [if_neg (by simp [h.doomed])]
      exact .of_failed h.doomed rfl h.fits
    · rw [if_neg (by simp [h.doomed])]
      exact .of_ready h.doomed rfl h.fits rfl (h.clearing (.inr hst.1))
        (fun _ => AsyncFile.agrees_of_none rfl) fun _ _ => AsyncFile.agrees_of_none rfl
  · exact h

theorem spillRelease_eq (h : sp.holds = true) :
    sp.spillRelease spill = ({ sp with holds := false }, .empty) := if_pos h

theorem keeps_fail (hd : sp.doomed = false) : (sp.fail spill).1.Keeps (sp.fail spill).2 W := by
  refine .of_failed ?_ rfl fun hs => ?_
  · show (sp.spillRelease spill).1.doomed = false
    unfold spillRelease
    split <;> exact hd
  · cases (holds_spillRelease sp spill).symm.trans hs

/-- **What is owed goes into the file.** -/
theorem Keeps.drain (h : sp.Keeps spill W) (hst : sp.st = .ready) (turn : FileTurn) :
    (sp.drain spill turn).1.Keeps (sp.drain spill turn).2 W := by
  unfold Spool.drain
  split
  · exact h
  next hh =>
  have hholds : sp.holds = true := by simpa using hh
  split
  · exact keeps_fail h.doomed
  obtain ⟨hpos, hbytes⟩ := h.writing hst
  have howed : sp.owed spill = spill.rest := if_pos hholds
  rw [howed] at hbytes
  dsimp only
  rcases AsyncFile.ask_spec (h.waits hst hholds) turn with
    ⟨hreply, hb, hp, hag⟩ | ⟨hreply, -⟩ | ⟨n, hask⟩
  · rw [hreply]
    refine .of_ready h.doomed hst h.fits ?_ ?_ (fun _ => hag) fun hn => ?_
    · show (sp.file.ask _ turn).1.pos = (sp.file.ask _ turn).1.bytes.length
      rw [hb, hp, hpos]
    · show (sp.file.ask _ turn).1.bytes ++ (if sp.holds then spill.rest else []) = W
      rw [hb, if_pos hholds, hbytes]
    · cases hholds.symm.trans hn
  · rw [hreply]
    exact keeps_fail h.doomed
  · rw [hask, AsyncFile.perform_write hpos]
    dsimp only
    have hmoved : sp.file.portion n (.write spill.rest) = spill.rest.take n := rfl
    rw [hmoved]
    split
    · next hnil =>
      refine .of_ready h.doomed hst h.fits rfl ?_ (fun _ => AsyncFile.agrees_of_none rfl)
        fun _ _ => AsyncFile.agrees_of_none rfl
      show sp.file.bytes ++ spill.rest.take n ++ (if sp.holds then spill.rest else []) = W
      rw [hnil, List.append_nil, if_pos hholds, hbytes]
    split
    · next hall =>
      have hlen : spill.rest.length ≤ (spill.rest.take n).length := by
        rw [Spill.rest, List.length_drop]
        exact Nat.sub_le_of_le_add (Nat.add_comm _ _ ▸ hall)
      have htake : spill.rest.take n = spill.rest := (List.take_prefix _ _).eq_of_length_le hlen
      rw [spillRelease_eq]
      · refine .of_ready h.doomed hst nofun rfl ?_ nofun fun _ _ => AsyncFile.agrees_of_none rfl
        show sp.file.bytes ++ spill.rest.take n ++ [] = W
        rw [htake, List.append_nil, hbytes]
      · exact hholds
    next hpart =>
      refine .of_ready h.doomed hst (fun _ => (Nat.not_le.mp hpart).le) rfl ?_
        (fun _ => AsyncFile.agrees_of_none rfl) fun _ _ => AsyncFile.agrees_of_none rfl
      have hrest : spill.buf.drop (spill.off + (spill.rest.take n).length)
          = spill.rest.drop (spill.rest.take n).length := by
        rw [Spill.rest, List.drop_drop]
      show sp.file.bytes ++ spill.rest.take n ++ (if sp.holds then
        spill.buf.drop (spill.off + (spill.rest.take n).length) else []) = W
      rw [if_pos hholds, hrest, List.append_assoc]
      have hsplit : spill.rest.take n ++ spill.rest.drop (spill.rest.take n).length
          = spill.rest := by
        have htake : spill.rest.take n = spill.rest.take (spill.rest.take n).length := by
          rw [List.length_take, List.take_eq_take_iff]
          omega
        rw [htake]
        simp
      rw [hsplit, hbytes]

/-- **A file that is written goes back to its start.** -/
theorem Keeps.pollSeek (h : sp.Keeps spill W) (turn : FileTurn) :
    (sp.pollSeek turn).Keeps spill W := by
  unfold Spool.pollSeek
  split
  · next hst =>
    simp only [Bool.and_eq_true, decide_eq_true_eq, Bool.not_eq_true'] at hst
    obtain ⟨⟨hready, hfree⟩, hsealed⟩ := hst
    obtain ⟨hpos, hbytes⟩ := h.writing hready
    have howed : sp.owed spill = [] := by rw [owed, hfree]; rfl
    rw [howed, List.append_nil] at hbytes
    dsimp only
    rcases AsyncFile.ask_spec (h.rewinds hready hfree hsealed) turn with
      ⟨hreply, hb, hp, hag⟩ | ⟨hreply, -⟩ | ⟨n, hask⟩
    · rw [hreply]
      refine .of_ready h.doomed hready h.fits ?_ ?_ (fun hn => ?_) fun _ _ => hag
      · show (sp.file.ask _ turn).1.pos = (sp.file.ask _ turn).1.bytes.length
        rw [hb, hp, hpos]
      · show (sp.file.ask _ turn).1.bytes ++ (if sp.holds then spill.rest else []) = W
        rw [hb, hfree, hbytes]
        exact List.append_nil W
      · cases hfree.symm.trans hn
    · rw [hreply]
      exact .of_failed h.doomed rfl h.fits
    · rw [hask]
      refine ⟨h.doomed, by simp, h.fits, ?_, ?_, ?_, ?_, fun _ => ⟨hfree, hbytes⟩⟩ <;> simp
  · exact h

/-- A file that is not let go is not removed. -/
theorem Keeps.pollRemove (h : sp.Keeps spill W) (turn : FileTurn) :
    sp.pollRemove turn = sp := if_neg (by simp [h.stands.2])

/-- **A poll keeps what the spool keeps.** -/
theorem Keeps.poll (h : sp.Keeps spill W) (turns : PollTurns) :
    (sp.poll spill turns).1.Keeps (sp.poll spill turns).2 W := by
  have hcreate := (h.pollUnlink turns.unlink).pollCreate turns.create
  unfold Spool.poll
  dsimp only
  split
  · next hst => exact (hcreate.drain hst turns.write).pollSeek turns.seek
  rw [hcreate.pollRemove]
  exact hcreate

/-! ## A write -/

/-- What waits goes behind what waited. -/
theorem spillTake_spec {bytes : Bytes} (hf : sp.holds = true → spill.off ≤ spill.buf.length)
    (h : sp.spillTake spill bytes = some p) :
    p.1 = { sp with holds := true } ∧ p.2.rest = sp.owed spill ++ bytes ∧
      p.2.off ≤ p.2.buf.length := by
  unfold spillTake at h
  split at h
  · next hh =>
    split at h
    · obtain rfl := Option.some.inj h
      refine ⟨by rw [← hh], ?_, ?_⟩
      · show (spill.buf ++ bytes).drop spill.off = sp.owed spill ++ bytes
        rw [List.drop_append_of_le_length (hf hh), owed, if_pos hh, Spill.rest]
      · show spill.off ≤ (spill.buf ++ bytes).length
        rw [List.length_append]
        exact Nat.le_add_right_of_le (hf hh)
    · cases h
  next hh =>
  split at h
  · cases h
  split at h
  · obtain rfl := Option.some.inj h
    refine ⟨rfl, ?_, Nat.zero_le _⟩
    rw [owed, if_neg hh]
    rfl
  · cases h

/-- **What waits is kept.** -/
theorem Keeps.spillTake {bytes : Bytes} (h : sp.Keeps spill W)
    (hst : (sp.st = .unlink ∨ sp.st = .create) ∨
      sp.st = .ready ∧ sp.file.Agrees (.write (sp.owed spill ++ bytes)))
    (hp : sp.spillTake spill bytes = some p) : p.1.Keeps p.2 (W ++ bytes) := by
  obtain ⟨hsp, hrest, hoff⟩ := spillTake_spec h.fits hp
  have howed : p.1.owed p.2 = sp.owed spill ++ bytes := by
    rw [owed, if_pos (by rw [hsp]), hrest]
  rcases hst with hst | ⟨hst, hag⟩
  · refine ⟨by rw [hsp]; exact h.doomed, by rw [hsp]; exact h.stands, fun _ => hoff, fun _ => ?_,
      ?_, ?_, ?_, ?_⟩
    · rw [howed, h.clearing hst]
    all_goals
      intro hr
      rw [hsp] at hr
      rcases hst with hst | hst
      all_goals cases hst.symm.trans hr
  · obtain ⟨hpos, hbytes⟩ := h.writing hst
    refine .of_ready (by rw [hsp]; exact h.doomed) (by rw [hsp]; exact hst) (fun _ => hoff)
      (by rw [hsp]; exact hpos) ?_ (fun _ => ?_) fun hn => ?_
    · rw [howed, ← List.append_assoc, hsp]
      exact congrArg (· ++ bytes) hbytes
    · rw [hrest, hsp]
      exact hag
    · rw [hsp] at hn
      cases hn

/-- The write that is to come finds no other under way: what waits takes it only
if nothing is, and the file is asked for it only if it is the one that is. -/
def Clear (sp : Spool) (spill : Spill) (bytes : Bytes) : Prop :=
  sp.st = .ready →
    (sp.holds = true → sp.file.underway = none ∨ sp.spillTake spill bytes = none) ∧
      (sp.holds = false → sp.file.Agrees (.write bytes))

instance (bytes : Bytes) : Decidable (sp.Clear spill bytes) := by
  unfold Clear
  infer_instance

/-- The bytes a write adds. -/
def added (bytes : Bytes) (answer : WriteAnswer) : Bytes := if answer = .ok then bytes else []

/-- **A write adds its bytes if it is answered 0, and nothing if not.** -/
theorem Keeps.takeWrite {bytes : Bytes} (h : sp.Keeps spill W)
    (hst : sp.st = .unlink ∨ sp.st = .create ∨ sp.st = .ready) (hu : sp.isSealed = false)
    (hc : sp.Clear spill bytes) (turn : FileTurn) :
    (sp.takeWrite spill bytes turn).1.1.Keeps (sp.takeWrite spill bytes turn).1.2
      (W ++ added bytes (sp.takeWrite spill bytes turn).2) := by
  have hnone : ∀ answer, answer ≠ WriteAnswer.ok → W ++ added bytes answer = W := fun a ha => by
    rw [added, if_neg ha, List.append_nil]
  have hopen : ∀ (file : AsyncFile UInt8) (V : Bytes), sp.st = .ready → sp.holds = false →
      file.pos = file.bytes.length → file.bytes = V → Keeps { sp with file := file } spill V := by
    intro file V hr hh hpos hV
    refine .of_ready h.doomed hr h.fits hpos ?_ (fun hn => ?_) fun _ hs => ?_
    · show file.bytes ++ (if sp.holds then spill.rest else []) = V
      rw [hh, hV]
      exact List.append_nil V
    · cases hh.symm.trans hn
    · cases hu.symm.trans hs
  unfold Spool.takeWrite
  split
  · next hdirect =>
    rw [Bool.and_eq_true, decide_eq_true_eq, Bool.not_eq_true'] at hdirect
    obtain ⟨hready, hfree⟩ := hdirect
    obtain ⟨hpos, hbytes⟩ := h.writing hready
    have howed : ∀ file, owed { sp with file := file } spill = [] := fun _ => by
      rw [owed, if_neg (by simp [hfree])]
    rw [show sp.owed spill = [] from howed sp.file, List.append_nil] at hbytes
    dsimp only
    rcases AsyncFile.ask_spec ((hc hready).2 hfree) turn with
      ⟨hreply, hb, hp, hag⟩ | ⟨hreply, -⟩ | ⟨n, hask⟩
    · rw [hreply]
      dsimp only
      have hkept := hopen _ _ hready hfree (by rw [hb, hp, hpos]) (hb.trans hbytes)
      split
      · next q hq =>
        exact hkept.spillTake (.inr ⟨hready, by rw [howed]; exact hag⟩) hq
      · rw [hnone _ WriteAnswer.noConfusion]
        exact hkept
    · rw [hreply]
      exact keeps_fail h.doomed
    · rw [hask, AsyncFile.perform_write hpos]
      have hmoved : sp.file.portion n (.write bytes) = bytes.take n := rfl
      dsimp only
      rw [hmoved]
      have hkept := hopen
        ⟨sp.file.bytes ++ bytes.take n, (sp.file.bytes ++ bytes.take n).length, none⟩
        (W ++ bytes.take n) hready hfree rfl (by rw [hbytes])
      have hsplit : bytes.take n ++ bytes.drop (bytes.take n).length = bytes := by
        have htake : bytes.take n = bytes.take (bytes.take n).length := by
          rw [List.length_take, List.take_eq_take_iff]
          omega
        rw [htake]
        simp
      split
      · next hall =>
        rw [hall, List.append_nil] at hsplit
        rw [added, if_pos rfl]
        simp only [hsplit] at hkept ⊢
        exact hkept
      split
      · next q hq =>
        have htaken := hkept.spillTake (.inr ⟨hready, AsyncFile.agrees_of_none rfl⟩) hq
        rw [List.append_assoc, hsplit] at htaken
        exact htaken
      split
      · next hnil =>
        rw [hnone _ WriteAnswer.noConfusion]
        simp only [hnil, List.append_nil] at hkept ⊢
        exact hkept
      · exact keeps_fail h.doomed
  · next hwaits =>
    split
    · next q hq =>
      refine h.spillTake ?_ hq
      rcases hst with hst | hst | hst
      · exact .inl (.inl hst)
      · exact .inl (.inr hst)
      · have hholds : sp.holds = true := by simpa [hst] using hwaits
        refine .inr ⟨hst, ?_⟩
        rcases (hc hst).1 hholds with hnone | hfull
        · exact AsyncFile.agrees_of_none hnone
        · cases hfull.symm.trans hq
    · rw [hnone _ WriteAnswer.noConfusion]
      exact h

theorem touches_takeWrite (sp : Spool) (spill : Spill) (bytes : Bytes) (turn : FileTurn) :
    sp.Touches spill (sp.takeWrite spill bytes turn).1 := by
  unfold takeWrite
  split
  · dsimp only
    split
    · exact .after (touches_fail _ _) rfl
    · split
      · next q hq => exact .after (touches_spillTake hq) rfl
      · exact .of_eq rfl rfl
    · split
      · exact .of_eq rfl rfl
      split
      · next q hq => exact .after (touches_spillTake hq) rfl
      split
      · exact .of_eq rfl rfl
      · exact .after (touches_fail _ _) rfl
  · split
    · next q hq => exact touches_spillTake hq
    · exact .of_eq rfl rfl

/-! ## Reading -/

/-- The seal, and whether the file is read, as a spool has them. -/
def phase (sp : Spool) : Bool × Bool := (sp.isSealed, decide (sp.st = .reading))

theorem phase_spillRelease (sp : Spool) (spill : Spill) :
    (sp.spillRelease spill).1.phase = sp.phase := by
  unfold spillRelease
  split <;> rfl

theorem phase_fail (hst : sp.st = .ready) : (sp.fail spill).1.phase = sp.phase := by
  have hs : (sp.spillRelease spill).1.isSealed = sp.isSealed :=
    congrArg Prod.fst (sp.phase_spillRelease spill)
  simp [phase, fail, hs, hst]

theorem phase_spillTake {bytes : Bytes} (h : sp.spillTake spill bytes = some p) :
    p.1.phase = sp.phase := by
  unfold spillTake at h
  split at h
  · split at h
    · exact congrArg (fun q => q.1.phase) (Option.some.inj h).symm
    · cases h
  split at h
  · cases h
  split at h
  · exact congrArg (fun q => q.1.phase) (Option.some.inj h).symm
  · cases h

theorem phase_pollUnlink (sp : Spool) (turn : FileTurn) : (sp.pollUnlink turn).phase = sp.phase := by
  unfold pollUnlink
  split
  · next hst =>
    rw [Bool.and_eq_true, decide_eq_true_eq] at hst
    simp [phase, hst.1]
  · rfl

theorem Keeps.phase_pollCreate (h : sp.Keeps spill W) (turn : FileTurn) :
    (sp.pollCreate turn).phase = sp.phase := by
  unfold Spool.pollCreate
  split
  · next hst =>
    rw [Bool.and_eq_true, decide_eq_true_eq] at hst
    dsimp only
    split <;> simp [phase, hst.1, h.doomed]
  · rfl

theorem phase_drain (spill : Spill) (hst : sp.st = .ready) (turn : FileTurn) :
    (sp.drain spill turn).1.phase = sp.phase := by
  unfold drain
  split
  · rfl
  split
  · exact phase_fail hst
  dsimp only
  split
  · rfl
  · exact phase_fail hst
  · split
    · rfl
    split
    · exact phase_spillRelease _ _
    · rfl

theorem Keeps.isSealed_poll (h : sp.Keeps spill W) (turns : PollTurns) :
    (sp.poll spill turns).1.isSealed = sp.isSealed := by
  have hu := h.pollUnlink turns.unlink
  have hfirst : ((sp.pollUnlink turns.unlink).pollCreate turns.create).isSealed = sp.isSealed :=
    congrArg Prod.fst ((hu.phase_pollCreate turns.create).trans (sp.phase_pollUnlink _))
  unfold Spool.poll
  dsimp only
  split
  · next hst =>
    refine Eq.trans ?_ ((congrArg Prod.fst (phase_drain spill hst turns.write)).trans
      hfirst)
    unfold Spool.pollSeek
    split
    · dsimp only
      split <;> rfl
    · rfl
  · rw [(hu.pollCreate turns.create).pollRemove]
    exact hfirst

theorem Keeps.readFile (h : sp.Keeps spill W) (hst : sp.st = .reading) {file : AsyncFile UInt8}
    (hb : file.bytes = sp.file.bytes) : Keeps { sp with file := file } spill W := by
  obtain ⟨hfree, hbytes⟩ := h.reading hst
  refine ⟨h.doomed, h.stands, h.fits, h.clearing, fun hr => ?_, fun hr => ?_, fun hr => ?_,
    fun _ => ⟨hfree, hb.trans hbytes⟩⟩
  all_goals cases hst.symm.trans hr

/-- A file that is read is not asked for anything. -/
theorem poll_of_reading (h : sp.st = .reading) (turns : PollTurns) :
    sp.poll spill turns = (sp, spill) := by
  simp [poll, pollUnlink, pollCreate, pollRemove, h]

/-- **A file is read from its start**, and only if it is sealed. -/
theorem Keeps.starts (h : sp.Keeps spill W) (hst : sp.st ≠ .reading) (turns : PollTurns)
    (hr : (sp.poll spill turns).1.st = .reading) :
    sp.isSealed = true ∧ (sp.poll spill turns).1.file.pos = 0 ∧
      (sp.poll spill turns).1.file.underway = none := by
  have hu := h.pollUnlink turns.unlink
  have hfirst : ((sp.pollUnlink turns.unlink).pollCreate turns.create).phase = sp.phase :=
    (hu.phase_pollCreate turns.create).trans (sp.phase_pollUnlink _)
  unfold Spool.poll at hr ⊢
  dsimp only at hr ⊢
  split at hr
  · next hready =>
    rw [if_pos hready]
    have hdrain := (phase_drain spill hready turns.write).trans hfirst
    generalize Spool.drain _ spill turns.write = d at hr hdrain ⊢
    dsimp only at hr ⊢
    have hnot : d.1.st ≠ .reading := fun hd =>
      hst (of_decide_eq_true ((congrArg Prod.snd hdrain).symm.trans (decide_eq_true hd)))
    have hseal : d.1.isSealed = sp.isSealed := congrArg Prod.fst hdrain
    unfold Spool.pollSeek at hr ⊢
    split at hr
    · next hseek =>
      rw [if_pos hseek]
      simp only [Bool.and_eq_true, decide_eq_true_eq, Bool.not_eq_true'] at hseek
      refine ⟨hseal ▸ hseek.2, ?_⟩
      dsimp only at hr ⊢
      split at hr
      · exact absurd hr hnot
      · cases hr
      · next bytes hdone => exact AsyncFile.ask_rewind hdone
    · exact absurd hr hnot
  · rw [(hu.pollCreate turns.create).pollRemove] at hr
    exact absurd (of_decide_eq_true ((congrArg Prod.snd hfirst).symm.trans (decide_eq_true hr))) hst

theorem phase_takeWrite (sp : Spool) (spill : Spill) (bytes : Bytes) (turn : FileTurn) :
    (sp.takeWrite spill bytes turn).1.1.phase = sp.phase := by
  unfold takeWrite
  split
  · next hdirect =>
    rw [Bool.and_eq_true, decide_eq_true_eq] at hdirect
    dsimp only
    split
    · exact phase_fail hdirect.1
    · split
      · next q hq => exact (phase_spillTake hq).trans rfl
      · rfl
    · split
      · rfl
      split
      · next q hq => exact (phase_spillTake hq).trans rfl
      split
      · rfl
      · exact phase_fail hdirect.1
  · split
    · next q hq => exact phase_spillTake hq
    · rfl

end Spool

end Loam

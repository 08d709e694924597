import Loam.BlockLog
import Loam.WalReplay

/-!
# What the block log reads back

A frame of the block log has the words of the write-ahead log's header the other
way round, so its frames are a framing for the same reasons. The record reader
hands over the records of the file, each with the offset of its frame, in order
from the head (`RecordReader.At.read`): until none is left, or a call fails.
-/

namespace Loam

/-! ## The framing -/

/-- A string with its first two words the other way round. -/
def swapWords (l : Bytes) : Bytes := (l.drop 4).take 4 ++ l.take 4 ++ l.drop 8

theorem swapWords_append {a b t : Bytes} (ha : a.length = 4) (hb : b.length = 4) :
    swapWords (a ++ b ++ t) = b ++ a ++ t := by
  have hdrop : (a ++ b ++ t).drop 8 = t := List.drop_left' (by rw [List.length_append, ha, hb])
  rw [swapWords, hdrop, List.append_assoc a, List.drop_left' ha, List.take_left' ha,
    List.take_left' hb]

/-- A string of two words and more. -/
theorem exists_words {l : Bytes} (h : 8 ≤ l.length) :
    ∃ a b t, l = a ++ b ++ t ∧ a.length = 4 ∧ b.length = 4 := by
  refine ⟨l.take 4, (l.drop 4).take 4, l.drop 8, ?_, ?_, ?_⟩
  · rw [List.append_assoc, ← List.drop_drop (i := 4) (j := 4), List.take_append_drop,
      List.take_append_drop]
  · rw [List.length_take]
    omega
  · rw [List.length_take, List.length_drop]
    omega

theorem swapWords_swapWords {l : Bytes} (h : 8 ≤ l.length) : swapWords (swapWords l) = l := by
  obtain ⟨a, b, t, rfl, ha, hb⟩ := exists_words h
  rw [swapWords_append ha hb, swapWords_append hb ha]

@[simp] theorem length_swapWords (l : Bytes) : (swapWords l).length = l.length := by
  simp only [swapWords, List.length_append, List.length_take, List.length_drop]
  omega

theorem logFrame_eq (p : Bytes) : logFrame p = swapWords (walFrame p) := by
  rw [walFrame, swapWords_append (length_leBytes 4 _) (length_leBytes 4 _), logFrame]

@[simp] theorem length_logFrame (p : Bytes) : (logFrame p).length = 8 + p.length := by
  rw [logFrame_eq, length_swapWords, length_walFrame, walHeader]

theorem drop_logFrame (p : Bytes) : (logFrame p).drop 8 = p := by
  have hlen : (leBytes 4 (crc32 p).toNat ++ leBytes 4 p.length).length = 8 := by simp
  rw [logFrame, List.drop_left' hlen]

theorem logHeaderLen_eq {header : Bytes} (h : header.length = 8) :
    logHeaderLen header = headerLen (swapWords header) := by
  obtain ⟨a, b, t, rfl, ha, hb⟩ := exists_words (Nat.le_of_eq h.symm)
  rw [swapWords_append ha hb, logHeaderLen, headerLen, List.append_assoc, List.drop_left' ha,
    List.take_left' hb, List.append_assoc, List.take_left' hb]

theorem logHeaderCrc_eq {header : Bytes} (h : header.length = 8) :
    logHeaderCrc header = headerCrc (swapWords header) := by
  obtain ⟨a, b, t, rfl, ha, hb⟩ := exists_words (Nat.le_of_eq h.symm)
  rw [swapWords_append ha hb, logHeaderCrc, headerCrc, List.append_assoc, List.take_left' ha,
    List.append_assoc, List.drop_left' hb, List.take_left' ha]

/-- The frame at the front of a string. -/
def logHead (l : Bytes) : Option (Bytes × Bytes) := walHead (swapWords l)

theorem logHead_eq_some_iff {l a r : Bytes} :
    logHead l = some (a, r) ↔ WalOk a ∧ l = logFrame a ++ r := by
  have hframe : swapWords (walFrame a ++ r) = logFrame a ++ r := by
    have hcrc := length_leBytes 4 (crc32 a).toNat
    have hassoc : walFrame a ++ r =
        leBytes 4 a.length ++ leBytes 4 (crc32 a).toNat ++ (a ++ r) := by
      rw [walFrame, List.append_assoc]
    rw [hassoc, swapWords_append (length_leBytes 4 _) hcrc, logFrame, ← List.append_assoc]
  rw [logHead, walHead_eq_some_iff]
  refine and_congr_right fun _ => ⟨fun h => ?_, fun h => ?_⟩
  · have hlen : 8 ≤ l.length := by
      rw [← length_swapWords, h, List.length_append, length_walFrame, walHeader]
      omega
    rw [← hframe, ← h, swapWords_swapWords hlen]
  · have hlen : 8 ≤ (walFrame a ++ r).length := by
      rw [List.length_append, length_walFrame, walHeader]
      omega
    rw [h, ← hframe, swapWords_swapWords hlen]

theorem logFrame_ne_nil (a : Bytes) : logFrame a ≠ [] := by
  intro h
  have hlen := length_logFrame a
  rw [h, List.length_nil] at hlen
  omega

/-- The frames of the block log. -/
def logFraming : Framing Bytes UInt8 where
  enc := logFrame
  Ok := WalOk
  head := logHead
  head_eq_some_iff := logHead_eq_some_iff
  enc_ne_nil := fun {a} _ => logFrame_ne_nil a

/-- Fewer bytes than a header are no frame. -/
theorem logHead_of_short {l : Bytes} (h : l.length < 8) : logHead l = none :=
  walHead_of_short (by rwa [length_swapWords])

/-- A header that is not followed by its payload is no frame. -/
theorem logHead_of_header {header t : Bytes} (hl : header.length = 8)
    (h : ¬ (0 < logHeaderLen header ∧ logHeaderLen header ≤ maxRecord ∧
      logHeaderLen header ≤ t.length ∧
      (crc32 (t.take (logHeaderLen header))).toNat = logHeaderCrc header)) :
    logHead (header ++ t) = none := by
  rw [logHeaderLen_eq hl, logHeaderCrc_eq hl] at h
  obtain ⟨a, b, t', rfl, ha, hb⟩ := exists_words (Nat.le_of_eq hl.symm)
  have hswap : swapWords (a ++ b ++ t' ++ t) = swapWords (a ++ b ++ t') ++ t := by
    rw [List.append_assoc, swapWords_append ha hb, swapWords_append ha hb, List.append_assoc,
      List.append_assoc, List.append_assoc]
  rw [logHead, hswap]
  exact walHead_of_header (by rw [length_swapWords, hl]; rfl) h

/-- A header is that of the payload whose length and checksum it says. -/
theorem logFrame_of_header {header p : Bytes} (hl : header.length = 8)
    (hlen : logHeaderLen header = p.length) (hcrc : (crc32 p).toNat = logHeaderCrc header) :
    header ++ p = logFrame p := by
  rw [logHeaderLen_eq hl] at hlen
  rw [logHeaderCrc_eq hl] at hcrc
  have hhead := eq_walHeaderOf (by rw [length_swapWords, hl]; rfl) hlen hcrc
  have hback := congrArg swapWords hhead
  rw [swapWords_swapWords (Nat.le_of_eq hl.symm)] at hback
  obtain ⟨a, b, t, ht, ha, hb⟩ := exists_words (Nat.le_of_eq (length_walHeaderOf p).symm)
  have hnil : t = [] := by
    have hall := length_walHeaderOf p
    rw [ht, List.length_append, List.length_append, ha, hb, walHeader] at hall
    exact List.eq_nil_of_length_eq_zero (by omega)
  rw [hback, logFrame_eq, walFrame_eq, ht, hnil, List.append_nil, ← List.append_nil (a ++ b),
    swapWords_append ha hb, List.append_nil, List.append_nil, swapWords_append ha hb]

/-- **The records of a file**: the payloads of the frames it begins with. -/
def logRecords (bytes : Bytes) : List Bytes := logFraming.records bytes

/-! ## The record reader -/

namespace RecordReader

variable {r : RecordReader} {f : WalFile} {bs : List Bytes} {emit : Bool}

/-- Where the reader is in a file: it has handed over the frames before the
descriptor, but for what it has read of the next one. -/
structure At (r : RecordReader) (f : WalFile) (bs : List Bytes) : Prop where
  ok : ∀ p ∈ bs, WalOk p
  front : logFraming.frames bs <+: f.bytes
  seeking : r.stage = .seek → bs = []
  /-- Where the next record starts. -/
  offset : r.stage ≠ .seek → r.offset = (logFraming.frames bs).length
  inHeader : r.stage = .header → r.filled.length < 8 ∧ ∃ tail,
    f.bytes = (logFraming.frames bs ++ r.filled) ++ tail ∧
      f.offset = (logFraming.frames bs ++ r.filled).length
  inBody : r.stage = .body → r.header.length = 8 ∧ 0 < logHeaderLen r.header ∧
    logHeaderLen r.header ≤ maxRecord ∧ r.filled.length < logHeaderLen r.header ∧ ∃ tail,
      f.bytes = (logFraming.frames bs ++ (r.header ++ r.filled)) ++ tail ∧
        f.offset = (logFraming.frames bs ++ (r.header ++ r.filled)).length

/-- Before its seek the reader has handed nothing over. -/
theorem At.start {r : RecordReader} {f : WalFile} (h : r.stage = .seek) :
    r.At f [] where
  ok := nofun
  front := List.nil_prefix
  seeking _ := rfl
  offset hc := absurd h hc
  inHeader hc := absurd (h.symm.trans hc) nofun
  inBody hc := absurd (h.symm.trans hc) nofun

/-- What a call comes to: it may hand over one more record, and stops when there is
none left, or when it fails. -/
structure Reads (f : WalFile) (a : FsAnswer) (bs : List Bytes)
    (out : RecordReader × WalFile × Option (ℕ × Bytes)) (bs' : List Bytes) : Prop where
  file : out.2.1.bytes = f.bytes ∧ out.2.1.fenced = f.fenced
  goes : At out.1 out.2.1 bs'
  handed : logFraming.placed 0 bs' = logFraming.placed 0 bs ++ out.2.2.toList
  stops : out.1.stage = .rewind → bs' = logRecords f.bytes ∨ a = .failed
  /-- A call that fails hands nothing over. -/
  fails : a = .failed → bs' = bs

/-- The reader stops in front of no whole frame. -/
theorem At.stops (h : At r f bs) (hs : r.stage ≠ .seek) {t : Bytes}
    (hb : f.bytes = logFraming.frames bs ++ t) (ht : logHead t = none) {f' : WalFile}
    (hf : f'.bytes = f.bytes ∧ f'.fenced = f.fenced) (a : FsAnswer) :
    Reads f a bs (r.stop, f', none) bs where
  file := hf
  goes := ⟨h.ok, by rw [hf.1]; exact h.front, nofun, fun _ => h.offset hs, nofun, nofun⟩
  handed := (List.append_nil _).symm
  stops _ := .inl (by rw [hb]; exact (logFraming.records_eq ht h.ok).1.symm)
  fails _ := rfl

theorem read_header (hs : r.stage = .header) (n : ℕ) {f' : WalFile} {cs : Bytes}
    (hread : f.read n (8 - r.filled.length) = (f', cs)) :
    r.read emit f (.done n) =
      if cs = [] then (r.stop, f', none)
      else if (r.filled ++ cs).length < 8 then ({ r with filled := r.filled ++ cs }, f', none)
      else (r.takeHeader (r.filled ++ cs), f', none) := by
  simp only [read, hs, hread]

theorem At.readHeader (h : At r f bs) (hs : r.stage = .header) (n : ℕ) :
    Reads f (.done n) bs (r.read emit f (.done n)) bs := by
  obtain ⟨hlt, tail, hb, ho⟩ := h.inHeader hs
  have hseek : r.stage ≠ .seek := by rw [hs]; nofun
  obtain ⟨tail', htail, hle, heof, hbytes, hoff⟩ :=
    WalFile.read_spec hb ho n (Nat.sub_pos_of_lt hlt)
  have hfenced : (f.read n (8 - r.filled.length)).1.fenced = f.fenced := rfl
  rcases hread : f.read n (8 - r.filled.length) with ⟨f', cs⟩
  rw [hread] at htail hle heof hbytes hoff hfenced
  dsimp only at htail hle heof hbytes hoff hfenced
  rw [read_header hs n hread]
  have hall : f.bytes = (logFraming.frames bs ++ (r.filled ++ cs)) ++ tail' := by
    rw [hb, htail]
    simp only [List.append_assoc]
  have hoff' : f'.offset = (logFraming.frames bs ++ (r.filled ++ cs)).length := by
    rw [hoff, List.append_assoc]
  have hfront : logFraming.frames bs <+: f'.bytes := by rw [hbytes]; exact h.front
  split
  · next hnil =>
    refine h.stops hseek (t := r.filled) ?_ (logHead_of_short hlt) ⟨hbytes, hfenced⟩ _
    rw [hb, heof hnil, List.append_nil]
  split
  · next hshort =>
    refine ⟨⟨hbytes, hfenced⟩, ⟨h.ok, hfront, fun hc => absurd hc hseek, fun _ => h.offset hseek,
      fun _ => ⟨hshort, tail', hbytes.trans hall, hoff'⟩, fun hc => ?_⟩,
      (List.append_nil _).symm, fun hc => ?_, nofun⟩
    · exact absurd (hs.symm.trans hc) nofun
    · exact absurd (hs.symm.trans hc) nofun
  next hfull =>
  have hwhole : (r.filled ++ cs).length = 8 := by
    rw [List.length_append] at hfull ⊢
    omega
  unfold takeHeader
  split
  · next hbad =>
    refine h.stops hseek (t := r.filled ++ cs ++ tail') ?_ ?_ ⟨hbytes, hfenced⟩ _
    · rw [hall, List.append_assoc]
    · refine logHead_of_header hwhole fun hc => ?_
      rcases hbad with hz | hbig
      · exact absurd hc.1 (by omega)
      · exact absurd hc.2.1 (Nat.not_le.mpr hbig)
  · next hgood =>
    obtain ⟨hpos, hmax⟩ := not_or.mp hgood
    refine ⟨⟨hbytes, hfenced⟩, ⟨h.ok, hfront, nofun, fun _ => h.offset hseek, nofun, fun _ =>
      ⟨hwhole, Nat.pos_of_ne_zero hpos, Nat.not_lt.mp hmax, Nat.pos_of_ne_zero hpos, tail', ?_, ?_⟩⟩,
      (List.append_nil _).symm, nofun, nofun⟩
    · rw [List.append_nil]
      exact hbytes.trans hall
    · rw [List.append_nil]
      exact hoff'

theorem read_body (hs : r.stage = .body) (n : ℕ) {f' : WalFile} {cs : Bytes}
    (hread : f.read n (logHeaderLen r.header - r.filled.length) = (f', cs)) :
    r.read emit f (.done n) =
      if cs = [] then (r.stop, f', none)
      else if (r.filled ++ cs).length < logHeaderLen r.header then
        ({ r with filled := r.filled ++ cs }, f', none)
      else ((r.takePayload emit (r.filled ++ cs)).1, f',
        (r.takePayload emit (r.filled ++ cs)).2) := by
  simp only [read, hs, hread]

/-- A whole payload with its checksum is a record. -/
theorem At.takesPayload (h : At r f bs) (hs : r.stage = .body) {p tail : Bytes}
    (hlen : logHeaderLen r.header = p.length) (hcrc : (crc32 p).toNat = logHeaderCrc r.header)
    {f' : WalFile} (hf : f'.bytes = f.bytes ∧ f'.fenced = f.fenced)
    (hall : f.bytes = (logFraming.frames bs ++ (r.header ++ p)) ++ tail)
    (hoff : f'.offset = (logFraming.frames bs ++ (r.header ++ p)).length) (n : ℕ) :
    Reads f (.done n) bs ((r.takePayload emit p).1, f', (r.takePayload emit p).2) (bs ++ [p]) := by
  obtain ⟨hhdr, hpos, hmax, -⟩ := h.inBody hs
  have hseek : r.stage ≠ .seek := by rw [hs]; nofun
  have hok : WalOk p := ⟨hlen ▸ hpos, hlen ▸ hmax⟩
  have hframe : r.header ++ p = logFrame p := logFrame_of_header hhdr hlen hcrc
  have hframes : logFraming.frames (bs ++ [p]) = logFraming.frames bs ++ (r.header ++ p) := by
    rw [logFraming.frames_append, hframe]
    exact congrArg _ (List.append_nil _)
  rw [← hframes] at hall hoff
  rw [takePayload, if_neg (not_not.mpr hcrc)]
  refine ⟨hf, ⟨fun q hq => ?_, ⟨tail, (hf.1.trans hall).symm⟩, nofun, fun _ => ?_, fun _ =>
    ⟨by simp, tail, ?_, ?_⟩, nofun⟩, ?_, nofun, nofun⟩
  · rcases List.mem_append.mp hq with hq | hq
    · exact h.ok q hq
    · exact List.mem_singleton.mp hq ▸ hok
  · dsimp only
    rw [h.offset hseek, logFraming.frames_append, List.length_append]
    exact congrArg _ ((length_logFrame p).symm.trans (congrArg _ (List.append_nil _).symm))
  · rw [List.append_nil]
    exact hf.1.trans hall
  · rw [List.append_nil]
    exact hoff
  · rw [logFraming.placed_append, Nat.zero_add, h.offset hseek]
    rfl

theorem At.readBody (h : At r f bs) (hs : r.stage = .body) (n : ℕ) :
    ∃ bs', Reads f (.done n) bs (r.read emit f (.done n)) bs' := by
  obtain ⟨hhdr, hpos, hmax, hlt, tail, hb, ho⟩ := h.inBody hs
  have hseek : r.stage ≠ .seek := by rw [hs]; nofun
  obtain ⟨tail', htail, hle, heof, hbytes, hoff⟩ :=
    WalFile.read_spec hb ho n (Nat.sub_pos_of_lt hlt)
  have hfenced : (f.read n (logHeaderLen r.header - r.filled.length)).1.fenced = f.fenced := rfl
  rcases hread : f.read n (logHeaderLen r.header - r.filled.length) with ⟨f', cs⟩
  rw [hread] at htail hle heof hbytes hoff hfenced
  dsimp only at htail hle heof hbytes hoff hfenced
  rw [read_body hs n hread]
  have hall : f.bytes = (logFraming.frames bs ++ (r.header ++ (r.filled ++ cs))) ++ tail' := by
    rw [hb, htail]
    simp only [List.append_assoc]
  have hoff' : f'.offset = (logFraming.frames bs ++ (r.header ++ (r.filled ++ cs))).length := by
    rw [hoff]
    simp only [List.append_assoc]
  have hfront : logFraming.frames bs <+: f'.bytes := by rw [hbytes]; exact h.front
  split
  · next hnil =>
    refine ⟨bs, h.stops hseek (t := r.header ++ r.filled) ?_ ?_ ⟨hbytes, hfenced⟩ _⟩
    · rw [hb, heof hnil, List.append_nil]
    · exact logHead_of_header hhdr fun hc => absurd hc.2.2.1 (Nat.not_le.mpr hlt)
  split
  · next hshort =>
    refine ⟨bs, ⟨hbytes, hfenced⟩, ⟨h.ok, hfront, fun hc => absurd hc hseek,
      fun _ => h.offset hseek, fun hc => ?_, fun _ =>
      ⟨hhdr, hpos, hmax, hshort, tail', hbytes.trans hall, hoff'⟩⟩, (List.append_nil _).symm,
      fun hc => ?_, nofun⟩
    · exact absurd (hs.symm.trans hc) nofun
    · exact absurd (hs.symm.trans hc) nofun
  next hfull =>
  have hwhole : logHeaderLen r.header = (r.filled ++ cs).length := by
    rw [List.length_append] at hfull ⊢
    omega
  by_cases hcrc : (crc32 (r.filled ++ cs)).toNat = logHeaderCrc r.header
  · exact ⟨_, h.takesPayload hs hwhole hcrc ⟨hbytes, hfenced⟩ hall hoff' _⟩
  rw [takePayload, if_pos hcrc]
  refine ⟨bs, h.stops hseek (t := r.header ++ (r.filled ++ cs ++ tail')) ?_ ?_
    ⟨hbytes, hfenced⟩ _⟩
  · rw [hall]
    simp only [List.append_assoc]
  · refine logHead_of_header hhdr fun hc => ?_
    rw [hwhole, List.take_left' rfl, ← hwhole] at hc
    exact hcrc hc.2.2.2

/-- **Every call of the reader** that is before its end. -/
theorem At.read (h : At r f bs) (hs : r.stage ≠ .rewind) (emit : Bool) (a : FsAnswer) :
    ∃ bs', Reads f a bs (r.read emit f a) bs' := by
  have hstay : r.read emit f .again = (r, f, none) := by
    unfold RecordReader.read
    cases r.stage <;> rfl
  cases a with
  | again =>
    rw [hstay]
    exact ⟨bs, ⟨rfl, rfl⟩, h, (List.append_nil _).symm, fun hc => absurd hc hs, fun _ => rfl⟩
  | failed =>
    cases hstage : r.stage with
    | seek =>
      have hnil := h.seeking hstage
      subst hnil
      have hread : r.read emit f .failed =
          ({ r with stage := .rewind, filled := [], offset := 0, total := 0 }, f, none) := by
        simp only [RecordReader.read, hstage]
      rw [hread]
      exact ⟨[], ⟨rfl, rfl⟩, ⟨nofun, h.front, nofun, fun _ => rfl, nofun, nofun⟩, rfl,
        fun _ => .inr rfl, fun _ => rfl⟩
    | header | body =>
      have hseek : r.stage ≠ .seek := by rw [hstage]; nofun
      have hread : r.read emit f .failed = (r.stop, f, none) := by
        simp only [RecordReader.read, hstage]
      rw [hread]
      exact ⟨bs, ⟨rfl, rfl⟩, ⟨h.ok, h.front, nofun, fun _ => h.offset hseek, nofun, nofun⟩,
        (List.append_nil _).symm, fun _ => .inr rfl, fun _ => rfl⟩
    | rewind => exact absurd hstage hs
  | done n =>
    cases hstage : r.stage with
    | seek =>
      have hnil := h.seeking hstage
      subst hnil
      have hread : r.read emit f (.done n) =
          ({ r with stage := .header, filled := [], offset := 0, total := 0 }, f.seek 0, none) := by
        simp only [RecordReader.read, hstage]
      rw [hread]
      exact ⟨[], ⟨rfl, rfl⟩, ⟨nofun, h.front, nofun, fun _ => rfl, fun _ =>
        ⟨by simp, f.bytes, rfl, rfl⟩, nofun⟩, rfl, nofun, nofun⟩
    | header => exact ⟨bs, h.readHeader hstage n⟩
    | body => exact h.readBody hstage n
    | rewind => exact absurd hstage hs

end RecordReader

end Loam

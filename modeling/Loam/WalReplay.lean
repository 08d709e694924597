import Loam.Wal

/-!
# What a replay reads

The frames of the log are a framing of its payloads, and a replay that comes to
its end has handed over the records of the file: the payloads of the frames the
file begins with. It comes to its end if each poll makes some progress.
-/

namespace Loam

/-! ## The framing -/

/-- The frame at the front of a string. -/
def walHead (l : Bytes) : Option (Bytes × Bytes) :=
  if walHeader ≤ l.length ∧ 0 < headerLen (l.take walHeader) ∧
      headerLen (l.take walHeader) ≤ maxWalRec ∧
      walHeader + headerLen (l.take walHeader) ≤ l.length ∧
      (crc32 ((l.drop walHeader).take (headerLen (l.take walHeader)))).toNat
        = headerCrc (l.take walHeader) then
    some ((l.drop walHeader).take (headerLen (l.take walHeader)),
      l.drop (walHeader + headerLen (l.take walHeader)))
  else none

/-- A payload a record can have. -/
def WalOk (payload : Bytes) : Prop := 0 < payload.length ∧ payload.length ≤ maxWalRec

/-- The header of a payload. -/
def walHeaderOf (payload : Bytes) : Bytes :=
  leBytes 4 payload.length ++ leBytes 4 (crc32 payload).toNat

@[simp] theorem length_walHeaderOf (p : Bytes) : (walHeaderOf p).length = walHeader := by
  simp [walHeaderOf, walHeader]

theorem walHeader_pos : 0 < walHeader := Nat.succ_pos 7

theorem walFrame_eq (p : Bytes) : walFrame p = walHeaderOf p ++ p := rfl

@[simp] theorem length_walFrame (p : Bytes) : (walFrame p).length = walHeader + p.length := by
  rw [walFrame_eq, List.length_append, length_walHeaderOf]

theorem headerLen_walHeaderOf {p : Bytes} (h : WalOk p) : headerLen (walHeaderOf p) = p.length := by
  have hlt : p.length < 256 ^ 4 := Nat.lt_of_le_of_lt h.2 (by decide)
  rw [headerLen, walHeaderOf, List.take_left' (length_leBytes 4 _), leNat_leBytes hlt]

theorem headerCrc_walHeaderOf (p : Bytes) : headerCrc (walHeaderOf p) = (crc32 p).toNat := by
  have hlt : (crc32 p).toNat < 256 ^ 4 := (crc32 p).toNat_lt
  rw [headerCrc, walHeaderOf, List.drop_left' (length_leBytes 4 _),
    List.take_of_length_le (Nat.le_of_eq (length_leBytes 4 _)), leNat_leBytes hlt]

/-- A header is that of the payload whose length and checksum it says. -/
theorem eq_walHeaderOf {header p : Bytes} (hl : header.length = walHeader)
    (hlen : headerLen header = p.length) (hcrc : (crc32 p).toNat = headerCrc header) :
    header = walHeaderOf p := by
  have hfst : (header.take 4).length = 4 := by
    rw [List.length_take, hl]
    rfl
  have hsnd : ((header.drop 4).take 4).length = 4 := by
    rw [List.length_take, List.length_drop, hl]
    rfl
  have hwhole : (header.drop 4).take 4 = header.drop 4 :=
    List.take_of_length_le (by rw [List.length_drop, hl]; decide)
  have hbytes := leBytes_leNat (header.take 4)
  have hbytes' := leBytes_leNat ((header.drop 4).take 4)
  rw [hfst] at hbytes
  rw [hsnd] at hbytes'
  rw [walHeaderOf, ← hlen, hcrc, headerLen, headerCrc, hbytes, hbytes', hwhole,
    List.take_append_drop]

theorem walHead_eq_some_iff {l a r : Bytes} :
    walHead l = some (a, r) ↔ WalOk a ∧ l = walFrame a ++ r := by
  constructor
  · intro h
    unfold walHead at h
    split at h
    · next hc =>
      obtain ⟨hhead, hpos, hmax, hlen, hcrc⟩ := hc
      obtain ⟨ha, hr⟩ := Prod.mk.inj (Option.some.inj h)
      have htake : (l.take walHeader).length = walHeader := List.length_take_of_le hhead
      have halen : a.length = headerLen (l.take walHeader) := by
        rw [← ha, List.length_take, List.length_drop]
        omega
      refine ⟨⟨halen ▸ hpos, halen ▸ hmax⟩, ?_⟩
      rw [walFrame_eq, ← eq_walHeaderOf htake halen.symm (ha ▸ hcrc), ← hr, List.append_assoc,
        ← List.drop_drop]
      conv_lhs => rw [← List.take_append_drop walHeader l,
        ← List.take_append_drop (headerLen (l.take walHeader)) (l.drop walHeader)]
      rw [ha]
    · cases h
  · rintro ⟨hok, rfl⟩
    have htake : (walFrame a ++ r).take walHeader = walHeaderOf a := by
      rw [walFrame_eq, List.append_assoc]
      exact List.take_left' (length_walHeaderOf a)
    have hdrop : (walFrame a ++ r).drop walHeader = a ++ r := by
      rw [walFrame_eq, List.append_assoc]
      exact List.drop_left' (length_walHeaderOf a)
    have hlen : walHeader + a.length ≤ (walFrame a ++ r).length := by
      rw [List.length_append, length_walFrame]
      exact Nat.le_add_right _ _
    have hpay : (a ++ r).take a.length = a := List.take_left' rfl
    have hrest : (walFrame a ++ r).drop (walHeader + a.length) = r :=
      List.drop_left' (length_walFrame a)
    rw [walHead, htake, headerLen_walHeaderOf hok, hdrop, hpay, headerCrc_walHeaderOf, hrest,
      if_pos ⟨Nat.le_trans (Nat.le_add_right _ _) hlen, hok.1, hok.2, hlen, rfl⟩]

/-- The frames of the log. -/
def walFraming : Framing Bytes UInt8 where
  enc := walFrame
  Ok := WalOk
  head := walHead
  head_eq_some_iff := walHead_eq_some_iff
  enc_ne_nil := fun {a} _ h => by
    have hlen := length_walFrame a
    rw [h, List.length_nil, walHeader] at hlen
    omega

/-- **The records of a file**: the payloads of the frames it begins with. -/
def walRecords (bytes : Bytes) : List Bytes := walFraming.records bytes

/-- What follows them: nothing, or a frame that was cut short. -/
def walTear (bytes : Bytes) : Bytes := walFraming.rest bytes

theorem walHead_of_short {l : Bytes} (h : l.length < walHeader) : walHead l = none := by
  rw [walHead, if_neg]
  exact fun hc => absurd hc.1 (Nat.not_le.mpr h)

/-- A header that is not followed by its payload is no frame. -/
theorem walHead_of_header {header t : Bytes} (hl : header.length = walHeader)
    (h : ¬ (0 < headerLen header ∧ headerLen header ≤ maxWalRec ∧ headerLen header ≤ t.length ∧
      (crc32 (t.take (headerLen header))).toNat = headerCrc header)) :
    walHead (header ++ t) = none := by
  have htake : (header ++ t).take walHeader = header := List.take_left' hl
  have hdrop : (header ++ t).drop walHeader = t := List.drop_left' hl
  rw [walHead, htake, hdrop, if_neg]
  rintro ⟨-, hpos, hmax, hlen, hcrc⟩
  rw [List.length_append, hl] at hlen
  exact h ⟨hpos, hmax, by omega, hcrc⟩

/-! ## A call -/

namespace WalFile

/-- A read takes the next bytes of the file, and none only at its end. -/
theorem read_spec {f : WalFile} {pre tail : Bytes} (hb : f.bytes = pre ++ tail)
    (ho : f.offset = pre.length) (n : ℕ) {want : ℕ} (hw : 0 < want) :
    ∃ tail', tail = (f.read n want).2 ++ tail' ∧ (f.read n want).2.length ≤ want ∧
      ((f.read n want).2 = [] → tail = []) ∧ (f.read n want).1.bytes = f.bytes ∧
      (f.read n want).1.offset = (pre ++ (f.read n want).2).length := by
  have hdrop : f.bytes.drop f.offset = tail := by
    rw [hb, ho]
    exact List.drop_left' rfl
  have hleft : f.bytes.length - f.offset = tail.length := by
    rw [hb, ho, List.length_append, Nat.add_sub_cancel_left]
  have hcount : f.readCount n want ≤ tail.length ∧ f.readCount n want ≤ want := by
    unfold readCount
    omega
  have hread : (f.read n want).2 = tail.take (f.readCount n want) := by
    rw [read, hdrop]
  refine ⟨tail.drop (f.readCount n want), ?_, ?_, fun hnil => ?_, rfl, ?_⟩
  · rw [hread, List.take_append_drop]
  · rw [hread, List.length_take]
    omega
  · rw [hread, List.take_eq_nil_iff] at hnil
    rcases hnil with hzero | hnil
    · refine List.eq_nil_of_length_eq_zero ?_
      unfold readCount at hzero
      omega
    · exact hnil
  · rw [List.length_append, hread, List.length_take_of_le hcount.1]
    show f.offset + _ = _
    rw [ho]

end WalFile

namespace WalReplay

variable {bytes : Bytes} {r : WalReplay} {f : WalFile}

/-- Where a replay of the file is: it has handed over the frames before the
descriptor, but for what it has read of the next one. -/
structure At (bytes : Bytes) (r : WalReplay) (f : WalFile) : Prop where
  file : f.bytes = bytes
  ok : ∀ p ∈ r.handed, WalOk p
  seeking : r.phase = .seek → r.handed = []
  inHeader : r.phase = .header → r.filled.length < walHeader ∧ ∃ tail,
    bytes = (walFraming.frames r.handed ++ r.filled) ++ tail ∧
      f.offset = (walFraming.frames r.handed ++ r.filled).length
  inBody : r.phase = .body → r.header.length = walHeader ∧
    0 < headerLen r.header ∧ headerLen r.header ≤ maxWalRec ∧
    r.filled.length < headerLen r.header ∧ ∃ tail,
      bytes = (walFraming.frames r.handed ++ (r.header ++ r.filled)) ++ tail ∧
        f.offset = (walFraming.frames r.handed ++ (r.header ++ r.filled)).length
  atEnd : r.phase = .done → r.handed = walRecords bytes

/-- The end of a replay: what it has handed over, and then no whole frame. -/
theorem At.done (h : At bytes r f) {t : Bytes} (hb : bytes = walFraming.frames r.handed ++ t)
    (ht : walHead t = none) (f' : WalFile) (hf : f'.bytes = bytes) :
    At bytes { r with phase := .done } f' := by
  refine ⟨hf, h.ok, nofun, nofun, nofun, fun _ => ?_⟩
  rw [hb, walRecords]
  exact ((walFraming.records_eq ht h.ok).1).symm

theorem At.callHeader (h : At bytes r f) (hp : r.phase = .header) (n : ℕ) :
    At bytes (r.call f (.done n)).1 (r.call f (.done n)).2 := by
  obtain ⟨hlt, tail, hb, ho⟩ := h.inHeader hp
  obtain ⟨tail', htail, hle, heof, hbytes, hoff⟩ :=
    WalFile.read_spec (h.file.trans hb) ho n (Nat.sub_pos_of_lt hlt)
  have hcall : r.call f (.done n) =
      (r.take walHeader (f.read n (walHeader - r.filled.length)).2 r.takeHeader,
        (f.read n (walHeader - r.filled.length)).1) := by
    simp only [call, hp]
  rw [hcall]
  generalize hbs : (f.read n (walHeader - r.filled.length)).2 = bs at *
  generalize (f.read n (walHeader - r.filled.length)).1 = f' at *
  have hf' : f'.bytes = bytes := hbytes.trans h.file
  have hall : bytes = (walFraming.frames r.handed ++ (r.filled ++ bs)) ++ tail' := by
    rw [hb, htail]
    simp only [List.append_assoc]
  have hoff' : f'.offset = (walFraming.frames r.handed ++ (r.filled ++ bs)).length := by
    rw [hoff, List.append_assoc]
  unfold take
  split
  · next hnil =>
    refine h.done (t := r.filled) ?_ (walHead_of_short hlt) f' hf'
    rw [hb, heof hnil, List.append_nil]
  split
  · next hshort =>
    exact ⟨hf', h.ok, fun hs => absurd (hp.symm.trans hs) nofun, fun _ => ⟨hshort, tail', hall, hoff'⟩,
      fun hs => absurd (hp.symm.trans hs) nofun, fun hs => absurd (hp.symm.trans hs) nofun⟩
  next hfull =>
  have hwhole : (r.filled ++ bs).length = walHeader := by
    rw [List.length_append] at hfull ⊢
    omega
  unfold takeHeader
  split
  · next hbad =>
    refine h.done (t := r.filled ++ bs ++ tail') ?_ ?_ f' hf'
    · rw [hall, List.append_assoc]
    · refine walHead_of_header hwhole fun hc => ?_
      rcases hbad with hz | hbig
      · exact absurd hc.1 (by omega)
      · exact absurd hc.2.1 (Nat.not_le.mpr hbig)
  · next hgood =>
    refine ⟨hf', h.ok, nofun, nofun, fun _ => ⟨hwhole, ?_, ?_, ?_, tail', ?_, ?_⟩, nofun⟩
    · exact Nat.pos_of_ne_zero fun hz => hgood (.inl hz)
    · exact Nat.not_lt.mp fun hb => hgood (.inr hb)
    · exact Nat.pos_of_ne_zero fun hz => hgood (.inl hz)
    · rw [List.append_nil]
      exact hall
    · rw [List.append_nil]
      exact hoff'

theorem At.callBody (h : At bytes r f) (hp : r.phase = .body) (n : ℕ) :
    At bytes (r.call f (.done n)).1 (r.call f (.done n)).2 := by
  obtain ⟨hhdr, hpos, hmax, hlt, tail, hb, ho⟩ := h.inBody hp
  obtain ⟨tail', htail, hle, heof, hbytes, hoff⟩ :=
    WalFile.read_spec (h.file.trans hb) ho n (Nat.sub_pos_of_lt hlt)
  have hcall : r.call f (.done n) =
      (r.take (headerLen r.header) (f.read n (headerLen r.header - r.filled.length)).2
          r.takePayload,
        (f.read n (headerLen r.header - r.filled.length)).1) := by
    simp only [call, hp]
  rw [hcall]
  generalize hbs : (f.read n (headerLen r.header - r.filled.length)).2 = bs at *
  generalize (f.read n (headerLen r.header - r.filled.length)).1 = f' at *
  have hf' : f'.bytes = bytes := hbytes.trans h.file
  have hall : bytes =
      (walFraming.frames r.handed ++ (r.header ++ (r.filled ++ bs))) ++ tail' := by
    rw [hb, htail]
    simp only [List.append_assoc]
  have hoff' : f'.offset
      = (walFraming.frames r.handed ++ (r.header ++ (r.filled ++ bs))).length := by
    rw [hoff]
    simp only [List.append_assoc]
  unfold take
  split
  · next hnil =>
    refine h.done (t := r.header ++ r.filled) ?_ ?_ f' hf'
    · rw [hb, heof hnil, List.append_nil]
    · exact walHead_of_header hhdr fun hc => absurd hc.2.2.1 (Nat.not_le.mpr hlt)
  split
  · next hshort =>
    exact ⟨hf', h.ok, fun hs => absurd (hp.symm.trans hs) nofun, fun hs => absurd (hp.symm.trans hs) nofun,
      fun _ => ⟨hhdr, hpos, hmax, hshort, tail', hall, hoff'⟩,
      fun hs => absurd (hp.symm.trans hs) nofun⟩
  next hfull =>
  have hwhole : headerLen r.header = (r.filled ++ bs).length := by
    rw [List.length_append] at hfull ⊢
    omega
  unfold takePayload
  split
  · next hbad =>
    refine h.done (t := r.header ++ (r.filled ++ bs ++ tail')) ?_ ?_ f' hf'
    · rw [hall]
      simp only [List.append_assoc]
    · refine walHead_of_header hhdr fun hc => ?_
      rw [hwhole, List.take_left' rfl, ← hwhole] at hc
      exact hbad hc.2.2.2
  · next hgood =>
    have hcrc := not_not.mp hgood
    have hok : WalOk (r.filled ++ bs) := ⟨hwhole ▸ hpos, hwhole ▸ hmax⟩
    have hframe : r.header ++ (r.filled ++ bs) = walFrame (r.filled ++ bs) := by
      rw [walFrame_eq, ← eq_walHeaderOf hhdr hwhole hcrc]
    have hframes : walFraming.frames (r.handed ++ [r.filled ++ bs])
        = walFraming.frames r.handed ++ (r.header ++ (r.filled ++ bs)) := by
      rw [walFraming.frames_append, hframe]
      exact congrArg _ (List.append_nil _)
    refine ⟨hf', fun p hmem => ?_, nofun, fun _ => ⟨walHeader_pos, tail', ?_, ?_⟩, nofun, nofun⟩
    · rcases List.mem_append.mp hmem with hmem | hmem
      · exact h.ok p hmem
      · exact List.mem_singleton.mp hmem ▸ hok
    · rw [List.append_nil, hframes]
      exact hall
    · rw [List.append_nil, hframes]
      exact hoff'

/-- **Every call keeps the replay where it is.** -/
theorem At.call (h : At bytes r f) (a : FsAnswer) :
    At bytes (r.call f a).1 (r.call f a).2 := by
  cases a with
  | again => exact h
  | failed => exact ⟨h.file, h.ok, nofun, nofun, nofun, nofun⟩
  | done n =>
    cases hp : r.phase with
    | seek =>
      have hnone := h.seeking hp
      have hcall : r.call f (.done n) = ({ r with phase := .header, filled := [] }, f.seek 0) := by
        simp only [WalReplay.call, hp]
      rw [hcall]
      refine ⟨h.file, h.ok, nofun, fun _ => ⟨walHeader_pos, bytes, ?_, ?_⟩, nofun, nofun⟩
      · dsimp only
        rw [hnone]
        rfl
      · dsimp only
        rw [hnone]
        rfl
    | header => exact h.callHeader hp n
    | body => exact h.callBody hp n
    | done | failed =>
      have hcall : r.call f (.done n) = (r, f) := by simp only [WalReplay.call, hp]
      rw [hcall]
      exact h

theorem At.poll (as : List FsAnswer) (budget : ℕ) (h : At bytes r f) :
    At bytes (r.poll budget f as).1 (r.poll budget f as).2 := by
  induction as generalizing budget r f with
  | nil => exact h
  | cons a as ih =>
    unfold WalReplay.poll
    split
    · exact h
    dsimp only
    split
    · exact h.call a
    · exact ih _ (h.call a)

theorem at_run (bytes : Bytes) (polls : List (ℕ × List FsAnswer)) :
    At bytes (run bytes polls).1 (run bytes polls).2 := by
  have hnew : At bytes new (.onDevice bytes) :=
    ⟨rfl, nofun, fun _ => rfl, nofun, nofun, nofun⟩
  unfold run
  generalize new = r at *
  generalize WalFile.onDevice bytes = f at *
  induction polls generalizing r f with
  | nil => exact hnew
  | cons p polls ih => exact ih _ _ (hnew.poll p.2 p.1)

end WalReplay

/-- **A replay that comes to the end has handed over the records of the
file**, however the calls were answered. -/
theorem Replays.eq {bytes : Bytes} {polls : List (ℕ × List FsAnswer)} {handed : List Bytes}
    (h : Replays bytes polls handed) : handed = walRecords bytes :=
  h.2.symm.trans ((WalReplay.at_run bytes polls).atEnd h.1)

/-! ## The end of a replay -/

namespace WalReplay

variable {bytes : Bytes} {r : WalReplay} {f : WalFile}

/-- Calls that may still move something. -/
def left (r : WalReplay) (f : WalFile) : ℕ :=
  match r.phase with
  | .seek => f.bytes.length + 2
  | .header | .body => f.bytes.length - f.offset + 1
  | .done | .failed => 0

theorem left_eq_zero_iff : r.left f = 0 ↔ r.ended = true := by
  unfold left ended
  cases r.phase <;> simp

theorem left_take_le (f : WalFile) (want : ℕ) (bs : Bytes) (hp : r.phase ≠ .seek) :
    ((r.take want bs r.takeHeader).left f ≤ f.bytes.length - f.offset + 1 ∧
      (r.take want bs r.takePayload).left f ≤ f.bytes.length - f.offset + 1) ∧
    (bs = [] → (r.take want bs r.takeHeader).left f = 0 ∧
      (r.take want bs r.takePayload).left f = 0) := by
  have hself : ∀ x, ({ r with filled := x } : WalReplay).left f ≤ f.bytes.length - f.offset + 1 := by
    intro x
    unfold left
    cases hr : r.phase with
    | seek => exact absurd hr hp
    | header | body => exact Nat.le_refl _
    | done | failed => exact Nat.zero_le _
  unfold take
  by_cases hbs : bs = []
  · rw [if_pos hbs, if_pos hbs]
    exact ⟨⟨Nat.zero_le _, Nat.zero_le _⟩, fun _ => ⟨rfl, rfl⟩⟩
  rw [if_neg hbs, if_neg hbs]
  refine ⟨?_, fun h => absurd h hbs⟩
  by_cases hshort : (r.filled ++ bs).length < want
  · rw [if_pos hshort, if_pos hshort]
    exact ⟨hself _, hself _⟩
  rw [if_neg hshort, if_neg hshort]
  unfold takeHeader takePayload
  constructor
  · split
    · exact Nat.zero_le _
    · exact Nat.le_refl _
  · split
    · exact Nat.zero_le _
    · exact Nat.le_refl _

theorem At.left_call_lt (h : At bytes r f) (ho : r.ended = false) (n : ℕ) :
    (r.call f (.done n)).1.left (r.call f (.done n)).2 < r.left f := by
  have hread : ∀ {pre tail : Bytes} {want : ℕ}, f.bytes = pre ++ tail → f.offset = pre.length →
      0 < want → (f.read n want).2 ≠ [] →
      (f.read n want).1.bytes.length - (f.read n want).1.offset + 1
        < f.bytes.length - f.offset + 1 := by
    intro pre tail want hb ho hw hne
    obtain ⟨tail', htail, -, -, hbytes, hoff⟩ := WalFile.read_spec hb ho n hw
    have hpos := List.length_pos_of_ne_nil hne
    rw [hbytes, hoff, ho, hb, List.length_append, List.length_append]
    conv_lhs => rw [htail]
    conv_rhs => rw [htail]
    rw [List.length_append]
    omega
  cases hp : r.phase with
  | seek =>
    simp only [WalReplay.call, hp]
    show f.bytes.length - 0 + 1 < r.left f
    unfold left
    rw [hp]
    exact Nat.lt_succ_self _
  | header =>
    obtain ⟨hlt, tail, hb, hoff⟩ := h.inHeader hp
    simp only [WalReplay.call, hp]
    obtain ⟨⟨hle, -⟩, hnil⟩ := left_take_le (f.read n (walHeader - r.filled.length)).1 walHeader
      (f.read n (walHeader - r.filled.length)).2 (r := r) (by rw [hp]; nofun)
    have hself : r.left f = f.bytes.length - f.offset + 1 := by
      unfold left
      rw [hp]
    rw [hself]
    by_cases hbs : (f.read n (walHeader - r.filled.length)).2 = []
    · rw [(hnil hbs).1]
      exact Nat.succ_pos _
    · exact Nat.lt_of_le_of_lt hle
        (hread (h.file.trans hb) hoff (Nat.sub_pos_of_lt hlt) hbs)
  | body =>
    obtain ⟨-, -, -, hlt, tail, hb, hoff⟩ := h.inBody hp
    simp only [WalReplay.call, hp]
    obtain ⟨⟨-, hle⟩, hnil⟩ := left_take_le (f.read n (headerLen r.header - r.filled.length)).1
      (headerLen r.header) (f.read n (headerLen r.header - r.filled.length)).2 (r := r)
      (by rw [hp]; nofun)
    have hself : r.left f = f.bytes.length - f.offset + 1 := by
      unfold left
      rw [hp]
    rw [hself]
    by_cases hbs : (f.read n (headerLen r.header - r.filled.length)).2 = []
    · rw [(hnil hbs).2]
      exact Nat.succ_pos _
    · exact Nat.lt_of_le_of_lt hle
        (hread (h.file.trans hb) hoff (Nat.sub_pos_of_lt hlt) hbs)
  | done | failed =>
    unfold ended at ho
    rw [hp] at ho
    cases ho

theorem At.left_call_le (h : At bytes r f) (a : FsAnswer) :
    (r.call f a).1.left (r.call f a).2 ≤ r.left f := by
  cases a with
  | again => exact Nat.le_refl _
  | failed => exact Nat.zero_le _
  | done n =>
    cases ho : r.ended with
    | false => exact (h.left_call_lt ho n).le
    | true =>
      have hcall : r.call f (.done n) = (r, f) := by
        unfold ended at ho
        cases hp : r.phase with
        | seek | header | body => rw [hp] at ho; cases ho
        | done | failed => simp only [WalReplay.call, hp]
      rw [hcall]

theorem At.left_poll_le (as : List FsAnswer) (budget : ℕ) (h : At bytes r f) :
    (r.poll budget f as).1.left (r.poll budget f as).2 ≤ r.left f := by
  induction as generalizing budget r f with
  | nil => exact Nat.le_refl _
  | cons a as ih =>
    unfold WalReplay.poll
    split
    · exact Nat.le_refl _
    dsimp only
    split
    · exact h.left_call_le a
    · exact (ih _ (h.call a)).trans (h.left_call_le a)

/-- A poll that is given a budget and an answer, and no error. -/
def Progress (p : ℕ × List FsAnswer) : Prop :=
  0 < p.1 ∧ (∃ n as, p.2 = .done n :: as) ∧ .failed ∉ p.2

theorem phase_call_ne_failed (hr : r.phase ≠ .failed) {a : FsAnswer} (ha : a ≠ .failed) :
    (r.call f a).1.phase ≠ .failed := by
  have htake : ∀ want bs, (r.take want bs r.takeHeader).phase ≠ .failed ∧
      (r.take want bs r.takePayload).phase ≠ .failed := by
    intro want bs
    unfold take takeHeader takePayload
    constructor
    · split
      · nofun
      split
      · exact hr
      split <;> nofun
    · split
      · nofun
      split
      · exact hr
      split <;> nofun
  cases a with
  | again => exact hr
  | failed => exact absurd rfl ha
  | done n =>
    cases hp : r.phase with
    | seek =>
      simp only [call, hp]
      nofun
    | header =>
      simp only [call, hp]
      exact (htake _ _).1
    | body =>
      simp only [call, hp]
      exact (htake _ _).2
    | done | failed =>
      simp only [call, hp]
      exact hp ▸ hr

theorem phase_poll_ne_failed (as : List FsAnswer) (budget : ℕ) (hr : r.phase ≠ .failed)
    (has : .failed ∉ as) : (r.poll budget f as).1.phase ≠ .failed := by
  induction as generalizing budget r f with
  | nil => exact hr
  | cons a as ih =>
    have ha : a ≠ .failed := fun he => has (he ▸ List.mem_cons_self)
    replace has : .failed ∉ as := fun hm => has (List.mem_cons_of_mem a hm)
    have hcall := phase_call_ne_failed (f := f) hr ha
    unfold WalReplay.poll
    split
    · exact hr
    dsimp only
    split
    · exact hcall
    · exact ih _ hcall has

theorem At.left_poll_lt (h : At bytes r f) (ho : r.ended = false) {p : ℕ × List FsAnswer}
    (hp : Progress p) : (r.poll p.1 f p.2).1.left (r.poll p.1 f p.2).2 < r.left f := by
  obtain ⟨hb, ⟨n, as, has⟩, -⟩ := hp
  have hbudget : ¬ p.1 = 0 := hb.ne'
  rw [has]
  unfold WalReplay.poll
  rw [if_neg (by simp [ho, hbudget])]
  dsimp only
  rw [if_neg nofun]
  exact Nat.lt_of_le_of_lt ((h.call _).left_poll_le as _) (h.left_call_lt ho n)

/-- A poll that is given a budget and is answered. -/
def moves (p : ℕ × List FsAnswer) : Bool :=
  decide (0 < p.1) && match p.2 with
    | .done _ :: _ => true
    | _ => false

theorem progress_of_moves {p : ℕ × List FsAnswer} (hm : moves p = true) (hf : .failed ∉ p.2) :
    Progress p := by
  obtain ⟨budget, as⟩ := p
  unfold moves at hm
  obtain ⟨hb, ha⟩ := Bool.and_eq_true_iff.mp hm
  cases as with
  | nil => cases ha
  | cons a as =>
    cases a with
    | again | failed => cases ha
    | done n => exact ⟨of_decide_eq_true hb, ⟨n, as, rfl⟩, hf⟩

/-- A replay comes to its end once enough of its polls move something. -/
theorem At.ends {s : WalReplay × WalFile} (h : At bytes s.1 s.2) (hne : s.1.phase ≠ .failed)
    {polls : List (ℕ × List FsAnswer)} (hf : ∀ p ∈ polls, .failed ∉ p.2)
    (hle : s.1.left s.2 ≤ polls.countP moves) :
    (polls.foldl (fun s p => s.1.poll p.1 s.2 p.2) s).1.phase = .done := by
  induction polls generalizing s with
  | nil =>
    have hover := left_eq_zero_iff.mp (Nat.le_zero.mp hle)
    unfold ended at hover
    cases hph : s.1.phase with
    | done => exact hph
    | failed => exact absurd hph hne
    | seek | header | body => rw [hph] at hover; cases hover
  | cons p polls ih =>
    have hone := hf p List.mem_cons_self
    refine ih (h.poll p.2 p.1) (phase_poll_ne_failed p.2 p.1 hne hone)
      (fun q hq => hf q (List.mem_cons_of_mem p hq)) ?_
    have hle' := h.left_poll_le p.2 p.1
    rw [List.countP_cons] at hle
    split at hle
    · next hm =>
      cases ho : s.1.ended with
      | false =>
        have hlt := h.left_poll_lt ho (progress_of_moves hm hone)
        exact Nat.le_of_lt_succ (Nat.lt_of_lt_of_le hlt hle)
      | true =>
        rw [left_eq_zero_iff.mpr ho] at hle'
        exact hle'.trans (Nat.zero_le _)
    · exact hle'.trans hle

/-- **A replay comes to its end**, and has handed over the records of the file,
once enough of its polls move something. -/
theorem replays_of_moves (bytes : Bytes) {polls : List (ℕ × List FsAnswer)}
    (hf : ∀ p ∈ polls, .failed ∉ p.2) (hlen : bytes.length + 2 ≤ polls.countP moves) :
    Replays bytes polls (walRecords bytes) := by
  have hdone : (run bytes polls).1.phase = .done :=
    (at_run bytes []).ends (s := (new, .onDevice bytes)) nofun hf hlen
  exact ⟨hdone, (at_run bytes polls).atEnd hdone⟩

theorem moves_of_progress {p : ℕ × List FsAnswer} (h : Progress p) : moves p = true := by
  obtain ⟨hb, ⟨n, as, has⟩, -⟩ := h
  unfold moves
  rw [has, decide_eq_true hb]
  rfl

/-- **A replay whose polls make progress comes to its end.** -/
theorem replays_of_progress (bytes : Bytes) (polls : List (ℕ × List FsAnswer))
    (hp : ∀ p ∈ polls, Progress p) (hlen : bytes.length + 2 ≤ polls.length) :
    Replays bytes polls (walRecords bytes) := by
  refine replays_of_moves bytes (fun p hmem => (hp p hmem).2.2) (hlen.trans (Nat.le_of_eq ?_))
  exact (List.countP_eq_length.mpr fun p hmem => moves_of_progress (hp p hmem)).symm

end WalReplay

end Loam

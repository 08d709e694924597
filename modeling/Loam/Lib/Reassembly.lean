import Loam.Lib.Run
import Mathlib.Data.List.Basic
import Mathlib.Order.Nat

/-!
# A reader with a bounded buffer

A reader of a stream puts what it reads behind what it has, as long as a whole read has room,
and takes the record at its front, whose length is told from the first bytes of it; a front that
no record begins with is refused, and one byte is left out. Where it takes records does not
depend on how the stream is cut into reads (`Front`, `run_front`). A reader whose buffer has no
room for a read, and whose front is not all there, is stuck for good; this does not happen, and
no record is taken or waited for that is too long, exactly on the streams all of whose fronts
are of a length that they can be of (`flows_iff`).
-/

namespace Reassembly

variable {β ε : Type}

/-- A reader: the length of the record at the front, once it is all there, and as it is told
before; the buffer, and a read. -/
structure Reader (β ε : Type) where
  len : List β → Except ε (Option ℕ)
  declared : List β → Except ε (Option ℕ)
  cap : ℕ
  readBuf : ℕ

/-- As much as is surely buffered: less than that leaves room for a read. -/
def Reader.window (R : Reader β ε) : ℕ := R.cap - R.readBuf + 1

/-- The length that is told, once the record is all there. -/
def whole (src : List β) : Except ε (Option ℕ) → Except ε (Option ℕ)
  | .ok (some n) => .ok (if src.length < n then none else some n)
  | .ok none => .ok none
  | .error e => .error e

/-- The length is told from so many bytes, and stands when more come. -/
structure Reader.Lawful (R : Reader β ε) (header : ℕ) : Prop where
  len_eq : ∀ src, R.len src = whole src (R.declared src)
  nil : R.declared [] = .ok none
  settled : ∀ src t, R.declared src ≠ .ok none → R.declared (src ++ t) = R.declared src
  told : ∀ src, header ≤ src.length → R.declared src ≠ .ok none
  header_le : header ≤ R.window
  room : R.readBuf ≤ R.cap
  reads : 0 < R.readBuf

/-- What the reader has, and what is left of the stream. -/
structure State (β : Type) where
  asm : List β
  rest : List β

/-- A read of at most so many bytes, or a look at the front. -/
inductive Event where
  | read (n : ℕ)
  | take

/-- One event. -/
def step (R : Reader β ε) (s : State β) : Event → State β
  | .read n =>
    if s.asm.length + R.readBuf ≤ R.cap then
      ⟨s.asm ++ s.rest.take (min n R.readBuf), s.rest.drop (min n R.readBuf)⟩
    else s
  | .take =>
    match R.len s.asm with
    | .error _ => ⟨s.asm.drop 1, s.rest⟩
    | .ok (some n) => ⟨s.asm.drop n, s.rest⟩
    | .ok none => s

/-- The state after a run over a stream. -/
def reached (R : Reader β ε) (bs : List β) (es : List Event) : State β :=
  Run.run (step R) ⟨[], bs⟩ es

/-- **Where the reader takes records**, whatever the reads are. -/
inductive Front (R : Reader β ε) (bs : List β) : List β → Prop where
  | start : Front R bs bs
  | refused {f : List β} {e : ε} : Front R bs f → R.declared f = .error e → Front R bs (f.drop 1)
  | taken {f : List β} {n : ℕ} : Front R bs f → R.declared f = .ok (some n) → n ≤ f.length →
    Front R bs (f.drop n)

/-- **The reader flows on a stream**, however it is cut: a record that is waited for has room in
the buffer, a reader that waits can read on, and no record is longer than it can be. -/
structure Flows (R : Reader β ε) (limit : List β → ℕ) (bs : List β) : Prop where
  fits : ∀ es n, R.len (reached R bs es).asm = .ok none →
    R.declared (reached R bs es).asm = .ok (some n) → n ≤ R.cap
  reads_on : ∀ es, R.len (reached R bs es).asm = .ok none →
    (reached R bs es).asm.length + R.readBuf ≤ R.cap
  sized : ∀ es n, R.declared (reached R bs es).asm = .ok (some n) →
    n ≤ limit (reached R bs es).asm

/-- Every front tells a length that it can be of. -/
def WellSized (R : Reader β ε) (limit : List β → ℕ) (bs : List β) : Prop :=
  ∀ f, Front R bs f → ∀ n, R.declared f = .ok (some n) → n ≤ limit f

variable {R : Reader β ε} {header n m : ℕ} {bs f src t : List β} {s : State β}
  {limit : List β → ℕ} {es : List Event}

theorem Reader.Lawful.len_error (hR : R.Lawful header) {e : ε} (h : R.len src = .error e) :
    R.declared src = .error e := by
  rw [hR.len_eq] at h
  cases hd : R.declared src with
  | error e' =>
    rw [hd] at h
    exact h
  | ok o =>
    rw [hd] at h
    cases o with
    | none => cases h
    | some n => cases h

theorem Reader.Lawful.len_some (hR : R.Lawful header) (h : R.len src = .ok (some n)) :
    R.declared src = .ok (some n) ∧ n ≤ src.length := by
  rw [hR.len_eq] at h
  cases hd : R.declared src with
  | error e' =>
    rw [hd] at h
    cases h
  | ok o =>
    rw [hd] at h
    cases o with
    | none => cases h
    | some k =>
      have h' := Except.ok.inj h
      by_cases hlt : src.length < k
      · rw [if_pos hlt] at h'
        cases h'
      · rw [if_neg hlt] at h'
        cases Option.some.inj h'
        exact ⟨rfl, Nat.not_lt.mp hlt⟩

/-- What is told of a buffer is told of the stream behind it. -/
theorem Reader.Lawful.declared_append (hR : R.Lawful header) {x : Except ε (Option ℕ)}
    (h : R.declared src = x) (hx : x ≠ .ok none) (t : List β) : R.declared (src ++ t) = x :=
  (hR.settled src t (h ▸ hx)).trans h

/-- An event leaves the reader where it takes a record, or brings it there. -/
theorem Front.step (hR : R.Lawful header) (h : Front R bs (s.asm ++ s.rest)) (e : Event) :
    Front R bs ((step R s e).asm ++ (step R s e).rest) := by
  cases e with
  | read n =>
    unfold Reassembly.step
    dsimp only
    split
    · rw [List.append_assoc, List.take_append_drop]
      exact h
    · exact h
  | take =>
    unfold Reassembly.step
    cases hlen : R.len s.asm with
    | error e =>
      have hd := hR.len_error hlen
      have hne : s.asm ≠ [] := fun hnil => by
        rw [hnil, hR.nil] at hd
        cases hd
      have hfront := h.refused (hR.declared_append hd (fun h => by cases h) s.rest)
      rwa [List.drop_append_of_le_length (List.length_pos_iff.mpr hne)] at hfront
    | ok o =>
      cases o with
      | none => exact h
      | some n =>
        obtain ⟨hd, hle⟩ := hR.len_some hlen
        have hfront := h.taken (hR.declared_append hd (fun h => by cases h) s.rest)
          (hle.trans (List.length_append ▸ Nat.le_add_right _ _))
        rwa [List.drop_append_of_le_length hle] at hfront

/-- **A reader stands at a front of the stream**, however it was cut. -/
theorem run_front (hR : R.Lawful header) (bs : List β) (es : List Event) :
    Front R bs ((reached R bs es).asm ++ (reached R bs es).rest) :=
  Run.invariant_all (I := fun s : State β => Front R bs (s.asm ++ s.rest))
    (fun _ e h => h.step hR e) .start es

theorem step_of_stuck (hwait : R.len s.asm = .ok none) (hfull : R.cap < s.asm.length + R.readBuf)
    (e : Event) : step R s e = s := by
  cases e with
  | read n => exact if_neg (Nat.not_le.mpr hfull)
  | take =>
    unfold step
    rw [hwait]

theorem run_of_stuck (hwait : R.len s.asm = .ok none) (hfull : R.cap < s.asm.length + R.readBuf)
    (es : List Event) : Run.run (step R) s es = s := by
  induction es with
  | nil => rfl
  | cons e es ih => rw [Run.run_cons, step_of_stuck hwait hfull, ih]

/-- The buffer is filled, byte by byte. -/
theorem fill (hR : R.Lawful header) (hs : s.asm ++ s.rest = f) (hlen : m ≤ f.length)
    (hm : m ≤ R.window) : ∃ es, (Run.run (step R) s es).asm ++ (Run.run (step R) s es).rest = f ∧
      m ≤ (Run.run (step R) s es).asm.length := by
  induction hk : m - s.asm.length generalizing s with
  | zero => exact ⟨[], hs, Nat.sub_eq_zero_iff_le.mp hk⟩
  | succ k ih =>
    have hshort : s.asm.length < m := by omega
    have hroom : s.asm.length + R.readBuf ≤ R.cap := by
      have := hR.room
      unfold Reader.window at hm
      omega
    have hone : min 1 R.readBuf = 1 := Nat.min_eq_left hR.reads
    have hstep : step R s (.read 1) = ⟨s.asm ++ s.rest.take 1, s.rest.drop 1⟩ := by
      unfold step
      dsimp only
      rw [if_pos hroom, hone]
    have hlen' : (s.rest.take 1).length = 1 := by
      rw [← hs, List.length_append] at hlen
      rw [List.length_take]
      omega
    obtain ⟨es, hes, hle⟩ := ih (s := step R s (.read 1))
      (by rw [hstep, List.append_assoc, List.take_append_drop, hs])
      (by rw [hstep, List.length_append, hlen']; omega)
    exact ⟨.read 1 :: es, hes, hle⟩

/-- A buffer that has the header, or all that is left, tells what the stream tells. -/
theorem declared_of_filled (hR : R.Lawful header) (hs : s.asm ++ s.rest = f)
    (hfilled : min header f.length ≤ s.asm.length) : R.declared s.asm = R.declared f := by
  by_cases hh : header ≤ s.asm.length
  · rw [← hs]
    exact (hR.settled _ _ (hR.told _ hh)).symm
  have hall : s.rest = [] := by
    rw [← List.length_eq_zero_iff]
    rw [← hs, List.length_append] at hfilled
    omega
  rw [← hs, hall, List.append_nil]

/-- A front is reached, and the buffer tells what the stream tells there. -/
theorem told_at (hR : R.Lawful header) (hreach : ∃ es, (reached R bs es).asm ++
    (reached R bs es).rest = f) : ∃ es, (reached R bs es).asm ++ (reached R bs es).rest = f ∧
      R.declared (reached R bs es).asm = R.declared f := by
  obtain ⟨es, hes⟩ := hreach
  obtain ⟨es', hes', hle⟩ := fill hR hes (Nat.min_le_right header f.length)
    ((Nat.min_le_left _ _).trans hR.header_le)
  refine ⟨es ++ es', ?_, ?_⟩
  · rw [reached, Run.run_append]
    exact hes'
  · rw [reached, Run.run_append]
    exact declared_of_filled hR hes' hle

/-- The limit is told from the first byte of a front. -/
theorem limit_eq (hlimit : ∀ src t, src ≠ [] → limit (src ++ t) = limit src) (hR : R.Lawful header)
    (hs : s.asm ++ s.rest = f) (hd : R.declared s.asm = .ok (some n)) :
    limit s.asm = limit f := by
  rw [← hs, hlimit]
  rintro hnil
  rw [hnil, hR.nil] at hd
  cases hd

theorem Flows.reaches (hR : R.Lawful header)
    (hroom : ∀ src, limit src ≤ R.window) (h : Flows R limit bs) (hf : Front R bs f) :
    ∃ es, (reached R bs es).asm ++ (reached R bs es).rest = f := by
  induction hf with
  | start => exact ⟨[], rfl⟩
  | @refused f e hf he ih =>
    obtain ⟨es, hes, hd⟩ := told_at hR ih
    refine ⟨es ++ [.take], ?_⟩
    rw [he] at hd
    have hlen : R.len (reached R bs es).asm = .error e := by
      rw [hR.len_eq, hd]
      rfl
    have hne : (reached R bs es).asm ≠ [] := fun hnil => by
      rw [hnil, hR.nil] at hd
      cases hd
    have hstep : reached R bs (es ++ [.take]) =
        ⟨(reached R bs es).asm.drop 1, (reached R bs es).rest⟩ := by
      rw [reached, Run.run_append]
      show step R (reached R bs es) .take = _
      unfold step
      rw [hlen]
    rw [hstep, ← hes, List.drop_append_of_le_length (List.length_pos_iff.mpr hne)]
  | @taken f n hf hn hle ih =>
    obtain ⟨es, hes, hd⟩ := told_at hR ih
    rw [hn] at hd
    have hbound : n ≤ R.window := (h.sized es n hd).trans (hroom _)
    -- The buffer is filled with the record, and no less than the header.
    obtain ⟨es', hes', hfilled⟩ := fill hR hes (Nat.max_le.mpr ⟨hle, Nat.min_le_right header _⟩)
      (Nat.max_le.mpr ⟨hbound, (Nat.min_le_left _ _).trans hR.header_le⟩)
    obtain ⟨hlong, hheader⟩ := Nat.max_le.mp hfilled
    refine ⟨(es ++ es') ++ [.take], ?_⟩
    have hreached : Run.run (step R) (reached R bs es) es' = reached R bs (es ++ es') :=
      Run.run_append.symm
    rw [hreached] at hes' hlong hheader
    have hd' : R.declared (reached R bs (es ++ es')).asm = .ok (some n) :=
      (declared_of_filled hR hes' hheader).trans hn
    have hlen : R.len (reached R bs (es ++ es')).asm = .ok (some n) := by
      rw [hR.len_eq, hd', whole, if_neg (Nat.not_lt.mpr hlong)]
    have hstep : reached R bs ((es ++ es') ++ [.take]) =
        ⟨(reached R bs (es ++ es')).asm.drop n, (reached R bs (es ++ es')).rest⟩ := by
      rw [reached, Run.run_append]
      show step R (reached R bs (es ++ es')) .take = _
      unfold step
      rw [hlen]
    rw [hstep, ← hes', List.drop_append_of_le_length hlong]

/-- **A reader flows on a stream** exactly when every front of it is of a length that it can be
of, if all these have room in what is surely buffered. -/
theorem flows_iff (hR : R.Lawful header) (hlimit : ∀ src t, src ≠ [] → limit (src ++ t) = limit src)
    (hroom : ∀ src, limit src ≤ R.window) : Flows R limit bs ↔ WellSized R limit bs := by
  constructor
  · intro h f hf n hn
    obtain ⟨es, hes, hd⟩ := told_at hR (h.reaches hR hroom hf)
    rw [hn] at hd
    rw [← limit_eq hlimit hR hes hd]
    exact h.sized es n hd
  · intro h
    have hsized : ∀ es n, R.declared (reached R bs es).asm = .ok (some n) →
        n ≤ limit (reached R bs es).asm := fun es n hd => by
      rw [limit_eq hlimit hR rfl hd]
      exact h _ (run_front hR bs es) n (hR.declared_append hd (fun h => by cases h) _)
    refine ⟨fun es n _ hd => ?_, fun es hwait => ?_, hsized⟩
    · have hle := (hsized es n hd).trans (hroom _)
      have := hR.reads
      have := hR.room
      unfold Reader.window at hle
      omega
    · by_contra hfull
      have hlong : R.window ≤ (reached R bs es).asm.length := by
        have := hR.room
        unfold Reader.window
        omega
      have htold := hR.told _ (hR.header_le.trans hlong)
      rw [hR.len_eq] at hwait
      cases hd : R.declared (reached R bs es).asm with
      | error e =>
        rw [hd] at hwait
        cases hwait
      | ok o =>
        cases o with
        | none => exact htold hd
        | some n =>
          rw [hd] at hwait
          have hle := ((hsized es n hd).trans (hroom _)).trans hlong
          rw [whole, if_neg (Nat.not_lt.mpr hle)] at hwait
          cases hwait

end Reassembly

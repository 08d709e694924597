import Mathlib.Data.List.Basic
import Mathlib.Tactic.Common

/-!
# Records on a stream

A reader of a stream keeps what it has read and not yet handed on, and asks of
it how long the record at its front is. The question has three answers: the
length, that more has to be read to tell, or that no record begins so. A record
is delimited when the answer is its length once all of it is there, whatever
follows, and that more is needed before (`Delimits`). A stream of delimited
records is then read record by record, however it is cut (`feedAll_flatten`).
-/

namespace Delimited

variable {β ε : Type}

/-- The record is told from what follows it, and from every front of it. -/
structure Delimits (len : List β → Except ε (Option ℕ)) (r : List β) : Prop where
  nonempty : r ≠ []
  whole : ∀ t, len (r ++ t) = .ok (some r.length)
  front : ∀ k < r.length, len (r.take k) = .ok none

/-- **A record is delimited** when of every string that goes along with it, the
question is answered by its length alone. -/
theorem Delimits.of_fronts {len : List β → Except ε (Option ℕ)} {r : List β} (hne : r ≠ [])
    (h : ∀ s src, r <+: s → src <+: s →
      len src = .ok (if src.length < r.length then none else some r.length)) : Delimits len r where
  nonempty := hne
  whole t := by
    rw [h (r ++ t) (r ++ t) (List.prefix_append r t) (List.prefix_refl _), if_neg]
    rw [List.length_append]
    exact Nat.not_lt.mpr (Nat.le_add_right _ _)
  front k hk := by
    have hlen : (r.take k).length < r.length :=
      Nat.lt_of_le_of_lt (List.length_take_le k r) hk
    rw [h r (r.take k) (List.prefix_refl r) (List.take_prefix k r), if_pos hlen]

/-- The whole records at the front, and what is kept. -/
def drain (len : List β → Except ε (Option ℕ)) : ℕ → List β → Except ε (List (List β) × List β)
  | 0, buf => .ok ([], buf)
  | n + 1, buf =>
    match len buf with
    | .error e => .error e
    | .ok none => .ok ([], buf)
    | .ok (some k) =>
      match drain len n (buf.drop k) with
      | .error e => .error e
      | .ok (rs, rest) => .ok (buf.take k :: rs, rest)

/-- A read puts a chunk behind what is kept, and hands on what is whole. -/
def feed (len : List β → Except ε (Option ℕ)) (s : List (List β) × List β) (chunk : List β) :
    Except ε (List (List β) × List β) :=
  match drain len (s.2 ++ chunk).length (s.2 ++ chunk) with
  | .error e => .error e
  | .ok (rs, rest) => .ok (s.1 ++ rs, rest)

/-- The chunks of a stream, read one after another. -/
def feedAll (len : List β → Except ε (Option ℕ)) (chunks : List (List β)) :
    Except ε (List (List β) × List β) :=
  chunks.foldlM (feed len) ([], [])

variable {len : List β → Except ε (Option ℕ)} {rs : List (List β)} {read buf chunk t : List β}
  {n : ℕ}

/-- What a reader has made of a front of a stream of records: the whole ones,
and the front of the next. -/
structure Cut (rs : List (List β)) (read buf : List β) (n : ℕ) : Prop where
  le : n ≤ rs.length
  eq : read = (rs.take n).flatten ++ buf
  /-- What is kept is not the whole of the next. -/
  short : ∀ r ∈ rs[n]?, buf.length < r.length
  ended : n = rs.length → buf = []

theorem drain_front (hnil : len [] = .ok none) (hall : ∀ r ∈ rs, Delimits len r)
    (h : rs.flatten = buf ++ t) {k : ℕ} (hk : buf.length ≤ k) :
    ∃ n rest, drain len k buf = .ok (rs.take n, rest) ∧ Cut rs buf rest n := by
  have hempty : Cut rs ([] : List β) [] 0 :=
    ⟨Nat.zero_le _, rfl, fun r hr =>
      List.length_pos_of_ne_nil (hall r (List.mem_of_getElem? hr)).nonempty, fun _ => rfl⟩
  induction k generalizing buf rs with
  | zero =>
    obtain rfl := List.eq_nil_of_length_eq_zero (Nat.le_zero.mp hk)
    exact ⟨0, [], rfl, hempty⟩
  | succ k ih =>
    cases rs with
    | nil =>
      obtain rfl := (List.append_eq_nil_iff.mp h.symm).1
      exact ⟨0, [], by rw [drain, hnil, List.take_zero], hempty⟩
    | cons r rs =>
      have hr := hall r List.mem_cons_self
      rw [List.flatten_cons] at h
      by_cases hlt : buf.length < r.length
      · -- the next record is not yet whole
        have hfront : buf = r.take buf.length := by
          have htake := congrArg (List.take buf.length) h
          rwa [List.take_left, List.take_append_of_le_length (Nat.le_of_lt hlt), eq_comm] at htake
        refine ⟨0, buf, ?_, Nat.zero_le _, rfl, fun r' hr' => ?_, nofun⟩
        · rw [drain, hfront, hr.front _ hlt, List.take_zero]
        · cases hr'
          exact hlt
      · -- it is handed on, and the rest is drained
        obtain ⟨buf', rfl⟩ : ∃ buf', buf = r ++ buf' := by
          have htake := congrArg (List.take r.length) h
          rw [List.take_left, List.take_append_of_le_length (Nat.not_lt.mp hlt)] at htake
          have hsplit := List.take_append_drop r.length buf
          rw [← htake] at hsplit
          exact ⟨buf.drop r.length, hsplit.symm⟩
        rw [List.append_assoc, List.append_cancel_left_eq] at h
        have hpos := List.length_pos_of_ne_nil hr.nonempty
        rw [List.length_append] at hk
        have hall' : ∀ r' ∈ rs, Delimits len r' := fun r' hr' => hall r' (List.mem_cons_of_mem r hr')
        obtain ⟨n, rest, hd, hc⟩ := ih hall' h (by omega)
          ⟨Nat.zero_le _, rfl, fun r' hr' =>
            List.length_pos_of_ne_nil (hall' r' (List.mem_of_getElem? hr')).nonempty, fun _ => rfl⟩
        refine ⟨n + 1, rest, ?_, Nat.succ_le_succ hc.le, ?_, hc.short, fun he => ?_⟩
        · rw [drain, hr.whole, List.take_succ_cons]
          dsimp only
          rw [List.drop_left, hd, List.take_left]
        · rw [List.take_succ_cons, List.flatten_cons, List.append_assoc, ← hc.eq]
        · exact hc.ended (Nat.succ.inj he)

/-- **A read hands on the records that it makes whole**, and keeps the front of
the next. -/
theorem Cut.feed (hnil : len [] = .ok none) (hall : ∀ r ∈ rs, Delimits len r)
    (hc : Cut rs read buf n) (h : rs.flatten = read ++ chunk ++ t) :
    ∃ m buf', Delimited.feed len (rs.take n, buf) chunk = .ok (rs.take m, buf') ∧
      Cut rs (read ++ chunk) buf' m := by
  have hrest : (rs.drop n).flatten = buf ++ chunk ++ t := by
    have hsplit : (rs.take n).flatten ++ (rs.drop n).flatten = rs.flatten := by
      rw [← List.flatten_append, List.take_append_drop]
    rw [h, hc.eq, List.append_assoc, List.append_assoc, List.append_cancel_left_eq] at hsplit
    rw [hsplit, List.append_assoc]
  obtain ⟨m, rest, hd, hm⟩ := drain_front hnil
    (fun r hr => hall r (List.mem_of_mem_drop hr)) hrest (Nat.le_refl _)
  have htake : rs.take n ++ (rs.drop n).take m = rs.take (n + m) := List.take_add.symm
  refine ⟨n + m, rest, ?_, ?_, ?_, fun r hr => hm.short r ?_, fun he => hm.ended ?_⟩
  · rw [Delimited.feed, hd]
    dsimp only
    rw [htake]
  · have hle := hm.le
    have hn := hc.le
    rw [List.length_drop] at hle
    omega
  · rw [hc.eq, List.append_assoc, hm.eq, ← List.append_assoc, ← List.flatten_append, htake]
  · rwa [List.getElem?_drop]
  · rw [List.length_drop]
    omega

/-- What has been read of a stream of records, however it was cut. -/
theorem feedAll_front (hnil : len [] = .ok none) (hall : ∀ r ∈ rs, Delimits len r)
    {chunks : List (List β)} (h : rs.flatten = chunks.flatten ++ t) :
    ∃ n buf, feedAll len chunks = .ok (rs.take n, buf) ∧ Cut rs chunks.flatten buf n := by
  -- the chunks still to come, from any point of the stream on
  suffices hstep : ∀ (chunks : List (List β)) (read buf : List β) (n : ℕ), Cut rs read buf n →
      rs.flatten = read ++ chunks.flatten ++ t →
      ∃ m buf', chunks.foldlM (Delimited.feed len) (rs.take n, buf) = .ok (rs.take m, buf') ∧
        Cut rs (read ++ chunks.flatten) buf' m by
    have hempty : Cut rs ([] : List β) [] 0 :=
      ⟨Nat.zero_le _, rfl, fun r hr =>
        List.length_pos_of_ne_nil (hall r (List.mem_of_getElem? hr)).nonempty, fun _ => rfl⟩
    exact hstep chunks [] [] 0 hempty h
  intro chunks
  induction chunks with
  | nil =>
    intro read buf n hc _
    refine ⟨n, buf, rfl, ?_⟩
    rwa [List.flatten_nil, List.append_nil]
  | cons chunk chunks ih =>
    intro read buf n hc h
    rw [List.flatten_cons, ← List.append_assoc] at h
    obtain ⟨m, buf', hf, hm⟩ := hc.feed hnil hall (h.trans (List.append_assoc _ _ _))
    obtain ⟨m', buf'', hrun, hm'⟩ := ih (read ++ chunk) buf' m hm h
    refine ⟨m', buf'', ?_, ?_⟩
    · rw [List.foldlM_cons, hf]
      exact hrun
    · rwa [List.flatten_cons, ← List.append_assoc]

/-- **A stream of records is read record by record**, however it is cut. -/
theorem feedAll_flatten (hnil : len [] = .ok none) (hall : ∀ r ∈ rs, Delimits len r)
    {chunks : List (List β)} (h : chunks.flatten = rs.flatten) :
    feedAll len chunks = .ok (rs, []) := by
  obtain ⟨n, buf, hf, hc⟩ := feedAll_front hnil hall (t := []) (by rw [h, List.append_nil])
  have hn : n = rs.length := by
    by_contra hne
    -- a record left would be longer than what is kept of it
    have hlt : n < rs.length := Nat.lt_of_le_of_ne hc.le hne
    have hshort := hc.short rs[n] (List.getElem?_eq_getElem hlt)
    have hbuf : (rs.drop n).flatten = buf := by
      have heq := h.symm.trans hc.eq
      rw [← List.take_append_drop n rs, List.flatten_append, List.take_append_drop,
        List.append_cancel_left_eq] at heq
      exact heq
    rw [List.drop_eq_getElem_cons hlt, List.flatten_cons] at hbuf
    rw [← hbuf, List.length_append] at hshort
    omega
  rw [hf, hc.ended hn, hn, List.take_length]

end Delimited

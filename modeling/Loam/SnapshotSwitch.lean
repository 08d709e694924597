import Loam.SnapshotWriter
import Loam.Lib.Run

/-!
# Switching generations

What a crash can leave at a path is no generation until its rows are fenced and
its header is whole (`SnapWorld.Inv`). So what a boot opens was finished, and it
serves the rows that were staged.
-/

namespace Loam

/-! ## Headers -/

theorem length_snapHeader (count : ℕ) (generation : UInt64) :
    (snapHeader count generation).length = snapHdr := by
  simp [snapHeader, snapMagic, snapHdr]

theorem snapHeader_mark (count : ℕ) (generation : UInt64) :
    (snapHeader count generation).take 4 = snapMagic := rfl

theorem snapHeader_count (count : ℕ) (generation : UInt64) :
    ((snapHeader count generation).drop 4).take 4 = leBytes 4 count :=
  List.take_left' (length_leBytes 4 count)

theorem snapHeader_generation (count : ℕ) (generation : UInt64) :
    ((snapHeader count generation).drop 8).take 8 = leBytes 8 generation.toNat := by
  have hdrop : (snapHeader count generation).drop 8 = leBytes 8 generation.toNat :=
    List.drop_left' (show (snapMagic ++ leBytes 4 count).length = 8 by simp [snapMagic])
  rw [hdrop]
  exact List.take_of_length_le (Nat.le_of_eq (length_leBytes 8 _))

/-- Smaller bytes make a smaller number. -/
theorem leNat_mono {a b : Bytes} (h : List.Forall₂ (· ≤ ·) a b) : leNat a ≤ leNat b := by
  induction h with
  | nil => exact Nat.le_refl _
  | cons hle _ ih =>
    have hb := UInt8.le_iff_toNat_le.mp hle
    unfold leNat
    omega

theorem eq_of_leNat_eq {a b : Bytes} (hlen : a.length = b.length) (h : leNat a = leNat b) : a = b := by
  rw [← leBytes_leNat a, ← leBytes_leNat b, hlen, h]

namespace SnapWorld

variable {L : Limits} {h : Bytes} {j k : ℕ}

theorem length_headed (hl : h.length = snapHdr) (hk : k ≤ snapHdr) :
    (headed h k).length = snapHdr := by
  rw [headed, List.length_append, List.length_take, List.length_replicate, hl]
  omega

theorem headed_full (hl : h.length = snapHdr) : headed h snapHdr = h := by
  rw [headed, Nat.sub_self, List.replicate_zero, List.append_nil]
  exact List.take_of_length_le (Nat.le_of_eq hl)

/-- It is the header where it is written, and zero behind. -/
theorem headed_le (hl : h.length = snapHdr) (k : ℕ) :
    List.Forall₂ (· ≤ ·) (headed h k) h := by
  have hzero (l : Bytes) : List.Forall₂ (· ≤ ·) (List.replicate l.length (0 : UInt8)) l := by
    induction l with
    | nil => exact .nil
    | cons b l ih => exact .cons (UInt8.le_iff_toNat_le.mpr (Nat.zero_le _)) ih
  have hrefl (l : Bytes) : List.Forall₂ (· ≤ ·) l l :=
    List.forall₂_same.mpr fun b _ => UInt8.le_refl b
  have hrest : snapHdr - k = (h.drop k).length := by
    rw [List.length_drop, hl]
  conv_rhs => rw [← List.take_append_drop k h]
  rw [headed, hrest]
  exact List.rel_append (hrefl _) (hzero _)

theorem write_headed (hl : h.length = snapHdr) (hk : k ≤ snapHdr) {chunk rest : Bytes} {n : ℕ}
    (hc : chunk = (h.drop k).take n) {f : SnapFile} (hb : f.bytes = headed h k ++ rest)
    (ho : f.offset = k) :
    (f.write chunk).bytes = headed h (k + chunk.length) ++ rest ∧
      k + chunk.length ≤ snapHdr ∧ (f.write chunk).offset = k + chunk.length := by
  have hle : k + chunk.length ≤ snapHdr := by
    rw [hc, List.length_take, List.length_drop, hl]
    omega
  refine ⟨?_, hle, congrArg (· + chunk.length) ho⟩
  have htake : h.take (k + chunk.length) = h.take k ++ chunk := by
    rw [List.take_add, hc, List.length_take]
    exact congrArg _ List.take_eq_take_min.symm
  have hlen : (h.take k).length = k := List.length_take_of_le (by rw [hl]; exact hk)
  show f.bytes.take f.offset ++ chunk ++ f.bytes.drop (f.offset + chunk.length) = _
  rw [ho, hb, headed, headed, htake, List.append_assoc (h.take k), List.take_left' hlen,
    ← List.drop_drop, List.drop_left' hlen, List.drop_append_of_le_length,
    List.drop_replicate, Nat.sub_sub, List.append_assoc, List.append_assoc, List.append_assoc]
  rw [List.length_replicate]
  omega

theorem headed_mark (count : ℕ) (generation : UInt64) (hk : k ≤ snapHdr) :
    (headed (snapHeader count generation) k).take 4 = snapMagic ↔ 4 ≤ k := by
  constructor
  · intro hm
    by_contra hlt
    obtain rfl | rfl | rfl | rfl : k = 0 ∨ k = 1 ∨ k = 2 ∨ k = 3 := by omega
    all_goals simp [headed, snapHeader, snapMagic, snapHdr, List.replicate_succ] at hm
  · intro hle
    have hlen : 4 ≤ ((snapHeader count generation).take k).length := by
      rw [List.length_take, length_snapHeader]
      omega
    rw [headed, List.take_append_of_le_length hlen, List.take_take, Nat.min_eq_left hle]
    rfl

end SnapWorld

/-! ## What is a generation -/

namespace SnapGen

variable {L : Limits} {g : SnapGen L}

theorem length_header (g : SnapGen L) : g.header.length = snapHdr := length_snapHeader _ _

theorem length_body (g : SnapGen L) : g.body.length = g.rows.length * recSize L := by
  unfold body
  induction g.rows with
  | nil => exact (Nat.zero_mul _).symm
  | cons r rows ih =>
    rw [List.flatMap_cons, List.length_append, SnapRow.length_encode, ih, List.length_cons,
      Nat.succ_mul, Nat.add_comm]

/-- How a boot has it open. -/
def opened (g : SnapGen L) : OpenSnapshot := ⟨g.rows.length, g.generation⟩

end SnapGen

section Opens

variable {L : Limits} {g : SnapGen L} {s : OpenSnapshot} {d : Bytes}

theorem opensAs_eq_some (h : opensAs L d = some s) :
    d.take 4 = snapMagic ∧ d.length < 4294967296 ∧
      d.length = snapHdr + leNat ((d.drop 4).take 4) * recSize L ∧
      s = ⟨leNat ((d.drop 4).take 4), UInt64.ofNat (leNat ((d.drop 8).take 8))⟩ := by
  have hfour : (d.take snapHdr).take 4 = d.take 4 := List.take_take
  have hcount : ((d.take snapHdr).drop 4).take 4 = (d.drop 4).take 4 := by
    rw [List.drop_take, List.take_take]
    rfl
  have hnum : ((d.take snapHdr).drop 8).take 8 = (d.drop 8).take 8 := by
    rw [List.drop_take, List.take_take]
    rfl
  unfold opensAs at h
  split at h
  · cases h
  unfold OpenSnapshot.ofHeader at h
  rw [hfour, hcount, hnum] at h
  dsimp only at h
  split at h
  · cases h
  next hmark =>
  split at h
  · cases h
  next hsize =>
  split at h
  · cases h
  next hfit =>
  exact ⟨not_not.mp hmark, Nat.not_le.mp hsize, not_not.mp hfit, (Option.some.inj h).symm⟩

/-- A file is no generation without the mark. -/
theorem opensAs_unmarked (h : d.take 4 ≠ snapMagic) : opensAs L d = none := by
  cases hs : opensAs L d with
  | none => rfl
  | some s => exact absurd (opensAs_eq_some hs).1 h

/-- **A file of fenced rows is no generation but its own**, as long as no part
of the header has the mark and the count. -/
theorem opensAs_headed {k : ℕ} {tail : Bytes} (hk : k ≤ snapHdr)
    (ht : ¬ SnapWorld.Torn g.header k)
    (h : opensAs L (SnapWorld.headed g.header k ++ (g.body ++ tail)) = some s) :
    SnapWorld.headed g.header k ++ (g.body ++ tail) = g.bytes ∧ s = g.opened := by
  generalize hx : SnapWorld.headed g.header k = x at *
  have hlen : x.length = snapHdr := by
    rw [← hx]
    exact SnapWorld.length_headed g.length_header hk
  obtain ⟨hmark, hsize, hfit, hs⟩ := opensAs_eq_some h
  have htake (n : ℕ) (hn : n ≤ snapHdr) : (x ++ (g.body ++ tail)).take n = x.take n :=
    List.take_append_of_le_length (by rw [hlen]; exact hn)
  have hdrop (n : ℕ) (hn : n + 4 ≤ snapHdr) :
      ((x ++ (g.body ++ tail)).drop n).take 4 = (x.drop n).take 4 := by
    rw [List.drop_append_of_le_length (by omega)]
    exact List.take_append_of_le_length (by rw [List.length_drop, hlen]; omega)
  rw [htake 4 (by decide)] at hmark
  rw [hdrop 4 (by decide)] at hfit hs
  simp only [List.length_append, hlen, g.length_body] at hfit hsize
  have hpos := recSize_pos L
  have hrows : g.rows.length < 256 ^ 4 := by
    have : g.rows.length ≤ g.rows.length * recSize L := Nat.le_mul_of_pos_right _ hpos
    omega
  have hcount : (g.header.drop 4).take 4 = leBytes 4 g.rows.length := snapHeader_count _ _
  have hle : leNat ((x.drop 4).take 4) ≤ g.rows.length := by
    have hmono := leNat_mono (List.forall₂_take 4
      (List.forall₂_drop 4 (SnapWorld.headed_le g.length_header k)))
    rw [hx, hcount, leNat_leBytes hrows] at hmono
    exact hmono
  have heq : leNat ((x.drop 4).take 4) = g.rows.length := by
    refine Nat.le_antisymm hle (Nat.le_of_mul_le_mul_right ?_ hpos)
    omega
  have htail : tail = [] := by
    refine List.eq_nil_of_length_eq_zero ?_
    rw [heq] at hfit
    omega
  have hfour : (x.drop 4).take 4 = (g.header.drop 4).take 4 := by
    rw [hcount]
    refine eq_of_leNat_eq ?_ ?_
    · rw [List.length_take, List.length_drop, hlen, length_leBytes]
      rfl
    · rw [leNat_leBytes hrows, heq]
  have height : x.take 8 = g.header.take 8 := by
    rw [show 8 = 4 + 4 from rfl, List.take_add, List.take_add, hfour, hmark]
    rfl
  have hwhole : x = g.header := by
    by_contra hne
    exact ht ⟨by rw [hx]; exact hne, by rw [hx]; exact height⟩
  have hgen : ((g.bytes).drop 8).take 8 = leBytes 8 g.generation.toNat := by
    have : g.bytes.drop 8 = leBytes 8 g.generation.toNat ++ g.body :=
      List.drop_left' (show (snapMagic ++ leBytes 4 g.rows.length).length = 8 by simp [snapMagic])
    rw [this]
    exact List.take_left' (length_leBytes 8 _)
  have hbytes : x ++ (g.body ++ tail) = g.bytes := by
    rw [htail, List.append_nil, hwhole]
    rfl
  refine ⟨hbytes, ?_⟩
  rw [hbytes, hgen, heq, leNat_leBytes (UInt64.toNat_lt _), UInt64.ofNat_toNat] at hs
  exact hs

/-- **A generation's bytes open as it.** -/
theorem opensAs_bytes (g : SnapGen L) (hsize : g.bytes.length < 4294967296) :
    opensAs L g.bytes = some g.opened := by
  have hlen : g.bytes.length = snapHdr + g.rows.length * recSize L := by
    rw [SnapGen.bytes, List.length_append, g.length_header, g.length_body]
  have hrows : g.rows.length < 256 ^ 4 := by
    have : g.rows.length ≤ g.rows.length * recSize L := Nat.le_mul_of_pos_right _ (recSize_pos L)
    omega
  have htake : g.bytes.take snapHdr = g.header := List.take_left' g.length_header
  have hcount : (g.header.drop 4).take 4 = leBytes 4 g.rows.length := snapHeader_count _ _
  have hnum : (g.header.drop 8).take 8 = leBytes 8 g.generation.toNat := snapHeader_generation _ _
  have hmark : g.header.take 4 = snapMagic := snapHeader_mark _ _
  unfold opensAs
  rw [if_neg (by omega), htake]
  unfold OpenSnapshot.ofHeader
  rw [hcount, hnum, leNat_leBytes hrows, leNat_leBytes (UInt64.toNat_lt _), UInt64.ofNat_toNat]
  dsimp only
  rw [if_neg (not_not.mpr hmark), if_neg (Nat.not_le.mpr hsize), if_neg (not_not.mpr hlen)]
  rfl

theorem body_drop_take {idx : ℕ} {r : SnapRow L} {rows : List (SnapRow L)}
    (h : rows[idx]? = some r) :
    ∃ t, (rows.flatMap SnapRow.encode).drop (idx * recSize L) = r.encode ++ t := by
  induction idx generalizing rows with
  | zero =>
    cases rows with
    | nil => cases h
    | cons r' rows =>
      obtain rfl := Option.some.inj h
      rw [Nat.zero_mul, List.drop_zero, List.flatMap_cons]
      exact ⟨_, rfl⟩
  | succ idx ih =>
    cases rows with
    | nil => cases h
    | cons r' rows =>
      rw [Nat.succ_mul, Nat.add_comm, List.flatMap_cons, ← List.drop_drop,
        List.drop_left' r'.length_encode]
      exact ih h

/-- **A generation serves its rows**, each in its place: those that can be read
back are, and nothing else is. -/
structure Serves (L : Limits) (d : Bytes) (s : OpenSnapshot) (rows : List (SnapRow L)) : Prop where
  count : s.count = rows.length
  read : ∀ idx answers r, snapReadAt L d s idx answers = .ready r → rows[idx]? = some r
  reads : ∀ idx r, rows[idx]? = some r → r.Fits →
    snapReadAt L d s idx [.done 0, .done (recSize L)] = .ready r

/-- **A generation's bytes serve its rows.** -/
theorem serves_bytes (g : SnapGen L) : Serves L g.bytes g.opened g.rows := by
  have hlen : g.bytes.length = snapHdr + g.rows.length * recSize L := by
    rw [SnapGen.bytes, List.length_append, g.length_header, g.length_body]
  have hfit {idx : ℕ} (hidx : idx < g.rows.length) :
      snapHdr + idx * recSize L + recSize L ≤ g.bytes.length := by
    have := Nat.mul_le_mul_right (recSize L) (Nat.succ_le_of_lt hidx)
    rw [Nat.succ_mul] at this
    omega
  have hrow {idx : ℕ} {r : SnapRow L} (hr : g.rows[idx]? = some r) :
      SnapRow.decode L ((g.bytes.drop (snapHdr + idx * recSize L)).take (recSize L))
        = if r.Fits then some r else none := by
    obtain ⟨t, ht⟩ := body_drop_take hr
    rw [SnapGen.bytes, ← List.drop_drop, List.drop_left' g.length_header, SnapGen.body, ht,
      List.take_left' r.length_encode]
    have := r.decode_encode []
    rw [List.append_nil] at this
    exact this
  refine ⟨rfl, fun idx answers r h => ?_, fun idx r hr hfits => ?_⟩
  · have hidx : idx < g.rows.length := by
      by_contra hge
      unfold snapReadAt at h
      rw [if_pos (show g.opened.count ≤ idx from Nat.not_lt.mp hge)] at h
      cases h
    have hbound := hfit hidx
    obtain ⟨-, hdec⟩ := snapReadAt_eq_ready (by omega) h
    have hsome := List.getElem?_eq_getElem hidx
    rw [hrow hsome] at hdec
    rw [hsome]
    split at hdec
    · exact hdec
    · cases hdec
  · have hidx : idx < g.rows.length := (List.getElem?_eq_some_iff.mp hr).1
    refine snapReadAt_moved hidx (hfit hidx) ?_
    rw [hrow hr, if_pos hfits]

end Opens

/-! ## What stands at a path -/

namespace SnapFile

/-- No crash leaves the mark. -/
structure Blank (f : SnapFile) : Prop where
  bytes : f.bytes.take 4 ≠ snapMagic
  heads : ∀ x ∈ f.heads, x.take 4 ≠ snapMagic

/-- The rows of a generation are fenced, and so much of its header is written. -/
structure Sealed {L : Limits} (g : SnapGen L) (k : ℕ) (f : SnapFile) : Prop where
  le : k ≤ snapHdr
  bytes : ∃ tail, f.bytes = SnapWorld.headed g.header k ++ (g.body ++ tail)
  settled : f.settled = true
  heads : ∀ x ∈ f.heads, ∃ j ≤ k, x = SnapWorld.headed g.header j ∧ ¬ SnapWorld.Torn g.header j

end SnapFile

section Names

variable {L : Limits} {g : SnapGen L} {f : SnapFile} {d : Bytes} {fenced : List (SnapGen L)} {i : ℕ}

/-- What is opened was fenced. -/
def Good (fenced : List (SnapGen L)) (i : ℕ) (d : Bytes) : Prop :=
  ∀ s, opensAs L d = some s → ∃ g ∈ fenced, g.slot = i ∧ d = g.bytes ∧ s = g.opened

/-- More may have been fenced. -/
theorem Good.mono {fenced' : List (SnapGen L)} (h : Good fenced i d) (hsub : fenced ⊆ fenced') :
    Good fenced' i d := by
  intro s hs
  obtain ⟨g, hg, hrest⟩ := h s hs
  exact ⟨g, hsub hg, hrest⟩

/-- What has no mark does not open. -/
theorem good_unmarked (h : d.take 4 ≠ snapMagic) : Good fenced i d := by
  intro s hs
  rw [opensAs_unmarked h] at hs
  cases hs

theorem SnapFile.Blank.good (h : f.Blank) (hl : f.Leaves d) : Good fenced i d := by
  refine good_unmarked fun hmark => h.heads _ hl.1 ?_
  rw [List.take_take]
  exact hmark

theorem SnapFile.Sealed.good {k : ℕ} (h : f.Sealed g k) (hg : g ∈ fenced) (hl : f.Leaves d) :
    Good fenced g.slot d := by
  obtain ⟨tail, hb⟩ := h.bytes
  obtain ⟨j, hj, hhead, ht⟩ := h.heads _ hl.1
  have hrest : d.drop snapHdr = g.body ++ tail := by
    rw [hl.2 h.settled, hb]
    exact List.drop_left' (SnapWorld.length_headed g.length_header h.le)
  have hd : d = SnapWorld.headed g.header j ++ (g.body ++ tail) := by
    rw [← hhead, ← hrest, List.take_append_drop]
  intro s hs
  rw [hd] at hs
  obtain ⟨hbytes, hopened⟩ := opensAs_headed (hj.trans h.le) ht hs
  exact ⟨g, hg, rfl, hd.trans hbytes, hopened⟩

theorem SnapFile.blank_new : SnapFile.new.Blank := by
  refine ⟨by decide, fun x hx => ?_⟩
  rw [List.mem_singleton.mp hx]
  decide

theorem good_leavesOf_none (h : LeavesOf none (some d)) : Good fenced i d := by cases h

theorem leavesOf_some (h : LeavesOf (some f) (some d)) : f.Leaves d := by
  obtain ⟨b, hb, hl⟩ := h
  exact Option.some.inj hb ▸ hl

/-- Every generation that a crash can leave at a path was fenced. -/
def SnapName.Good (fenced : List (SnapGen L)) (i : ℕ) (n : SnapName) : Prop :=
  ∀ d, n.Leaves (some d) → Loam.Good fenced i d

theorem SnapName.Good.other {n : SnapName} (h : n.Good fenced i) :
    ∀ o ∈ n.others, ∀ d, LeavesOf o (some d) → Loam.Good fenced i d :=
  fun o ho _ hl => h _ (.inr ⟨o, ho, hl⟩)

/-- What is found at a path is its file or one of the others. -/
theorem SnapName.good_of {file : Option SnapFile} {others : List (Option SnapFile)}
    (hfile : ∀ d, LeavesOf file (some d) → Loam.Good fenced i d)
    (hothers : ∀ o ∈ others, ∀ d, LeavesOf o (some d) → Loam.Good fenced i d) :
    SnapName.Good fenced i ⟨file, others⟩ := by
  intro d hl
  obtain hl | ⟨o, ho, hl⟩ := hl
  · exact hfile d hl
  · exact hothers o ho d hl

theorem forall_mem_append_singleton {α : Type} {P : α → Prop} {l : List α} {a : α}
    (hl : ∀ x ∈ l, P x) (ha : P a) : ∀ x ∈ l ++ [a], P x := by
  intro x hx
  obtain hx | hx := List.mem_append.mp hx
  · exact hl x hx
  · exact List.mem_singleton.mp hx ▸ ha

/-- The generation is what a crash leaves, whatever it does. -/
def SnapName.Holds (n : SnapName) (g : SnapGen L) : Prop :=
  ∃ f, n = ⟨some f, []⟩ ∧ f.settled = true ∧ f.heads = [g.header] ∧ f.bytes = g.bytes

theorem SnapName.Holds.leaves {n : SnapName} (h : n.Holds g) {o : Option Bytes}
    (hl : n.Leaves o) : o = some g.bytes := by
  obtain ⟨f, rfl, hsettled, hheads, hb⟩ := h
  obtain ⟨b, rfl, hhead, hrest⟩ | ⟨o', ho', -⟩ := hl
  · rw [hheads] at hhead
    have hdrop := hrest hsettled
    rw [hb, SnapGen.bytes, List.drop_left' g.length_header] at hdrop
    rw [← List.take_append_drop snapHdr b, List.mem_singleton.mp hhead, hdrop]
    rfl
  · cases ho'

/-- A crash leaves a file that has not been written since the boot as it is. -/
theorem SnapName.leaves_onDevice {o o' : Option Bytes}
    (hl : (⟨o.map .onDevice, []⟩ : SnapName).Leaves o') : o' = o := by
  obtain hl | ⟨o'', ho, -⟩ := hl
  · cases o with
    | none => exact hl
    | some b =>
      obtain ⟨b', rfl, hhead, hrest⟩ := hl
      have hhead : b'.take snapHdr = b.take snapHdr := List.mem_singleton.mp hhead
      have hrest : b'.drop snapHdr = b.drop snapHdr := hrest rfl
      rw [← List.take_append_drop snapHdr b', hhead, hrest, List.take_append_drop]
  · cases ho

theorem SnapName.holds_onDevice (g : SnapGen L) : (⟨some (.onDevice g.bytes), []⟩ : SnapName).Holds g :=
  ⟨_, rfl, rfl, congrArg (fun x => [x]) (List.take_left' g.length_header), rfl⟩

end Names

/-! ## Writes -/

namespace SnapFile

variable {L : Limits} {f : SnapFile} {g : SnapGen L} {k : ℕ}

/-- A write where the descriptor is goes over what stands there. -/
theorem write_at {pre rest : Bytes} (hb : f.bytes = pre ++ rest) (ho : f.offset = pre.length)
    (chunk : Bytes) : (f.write chunk).bytes = pre ++ chunk ++ rest.drop chunk.length := by
  show f.bytes.take f.offset ++ chunk ++ f.bytes.drop (f.offset + chunk.length) = _
  rw [hb, ho, List.take_left, ← List.drop_drop, List.drop_left]

theorem Blank.write {chunk : Bytes} (h : f.Blank)
    (hm : (f.write chunk).bytes.take 4 ≠ snapMagic) : (f.write chunk).Blank := by
  refine ⟨hm, fun x hx => ?_⟩
  obtain hx | hx := List.mem_append.mp hx
  · exact h.heads x hx
  · rw [List.mem_singleton.mp hx, List.take_take]
    exact hm

/-- A blank file stays blank on the device. -/
theorem Blank.fence (h : f.Blank) : f.fence.Blank := by
  refine ⟨h.bytes, fun x hx => ?_⟩
  rw [List.mem_singleton.mp hx, List.take_take]
  exact h.bytes

theorem Sealed.write {n : ℕ} (h : f.Sealed g k) (ho : f.offset = k)
    (ht : ¬ SnapWorld.Torn g.header (k + ((g.header.drop k).take n).length)) :
    (f.write ((g.header.drop k).take n)).Sealed g (k + ((g.header.drop k).take n).length) ∧
      (f.write ((g.header.drop k).take n)).offset = k + ((g.header.drop k).take n).length := by
  obtain ⟨tail, hb⟩ := h.bytes
  obtain ⟨hbytes, hle, hoff⟩ := SnapWorld.write_headed g.length_header h.le rfl hb ho (n := n)
  generalize (g.header.drop k).take n = chunk at *
  refine ⟨⟨hle, ⟨tail, hbytes⟩, ?_, fun x hx => ?_⟩, hoff⟩
  · show (f.settled && decide (f.offset + chunk.length ≤ snapHdr)) = true
    rw [h.settled, ho, decide_eq_true hle]
    rfl
  · obtain hx | hx := List.mem_append.mp hx
    · obtain ⟨j, hj, hhead⟩ := h.heads x hx
      exact ⟨j, hj.trans (Nat.le_add_right _ _), hhead⟩
    · refine ⟨_, le_refl _, ?_, ht⟩
      have hlast : x = (f.write chunk).bytes.take snapHdr := List.mem_singleton.mp hx
      rw [hlast, hbytes]
      exact List.take_left' (SnapWorld.length_headed g.length_header hle)

/-- Rows that are fenced behind a placeholder. -/
theorem sealed_fence {tail : Bytes} (hb : f.bytes = snapBlank ++ (g.body ++ tail)) :
    f.fence.Sealed g 0 := by
  refine ⟨Nat.zero_le _, ⟨tail, hb⟩, rfl, fun x hx => ⟨0, le_refl 0, ?_, ?_⟩⟩
  · have hx : x = f.bytes.take snapHdr := List.mem_singleton.mp hx
    rw [hx, hb]
    exact List.take_left' (List.length_replicate ..)
  · intro htorn
    have hbyte := congrArg List.head? htorn.2
    cases hbyte

/-- A header that is whole is fenced whole. -/
theorem Sealed.fence (h : f.Sealed g snapHdr) :
    f.fence.Sealed g snapHdr ∧ f.fence.heads = [g.header] := by
  obtain ⟨tail, hb⟩ := h.bytes
  have hfull := SnapWorld.headed_full g.length_header
  have hhead : f.bytes.take snapHdr = g.header := by
    rw [hb, hfull]
    exact List.take_left' g.length_header
  have hheads : f.fence.heads = [g.header] := congrArg (fun x => [x]) hhead
  refine ⟨⟨h.le, ⟨tail, hb⟩, rfl, fun x hx => ⟨snapHdr, le_refl _, ?_, fun ht => ht.1 hfull⟩⟩, hheads⟩
  rw [hheads] at hx
  rw [hfull]
  exact List.mem_singleton.mp hx

/-- Without the mark its header has been without it. -/
theorem Sealed.blank (h : f.Sealed g k) (hm : f.bytes.take 4 ≠ snapMagic) : f.Blank := by
  refine ⟨hm, fun x hx hmark => hm ?_⟩
  obtain ⟨tail, hb⟩ := h.bytes
  obtain ⟨j, hj, rfl, -⟩ := h.heads x hx
  have hfour := (SnapWorld.headed_mark _ _ (hj.trans h.le)).mp hmark
  have hlen := SnapWorld.length_headed g.length_header h.le
  rw [hb, List.take_append_of_le_length (by rw [hlen]; decide)]
  exact (SnapWorld.headed_mark _ _ h.le).mpr (hfour.trans hj)

end SnapFile

/-! ## The invariant -/

namespace SnapWorld

variable {L : Limits} {w w' : SnapWorld L}

/-- What there is in each phase. -/
def Stands (w : SnapWorld L) : SnapWritePhase → Prop
  | .idle => True
  | .unlink => w.rows = []
  | .create => w.rows = [] ∧ ∀ f, w.name.file = some f → f.Blank
  | .placeholder => w.rows = [] ∧ w.writer.stage = snapBlank ∧ w.writer.written < snapHdr ∧
      ∃ f rest, w.name.file = some f ∧ f.Blank ∧
        f.bytes = snapBlank.take w.writer.written ++ rest ∧ f.offset = w.writer.written
  | .records => (w.writer.stage ≠ [] → w.writer.written < w.writer.stage.length) ∧
      ∃ f rows tail, w.name.file = some f ∧ f.Blank ∧ f.bytes = snapBlank ++ rows ++ tail ∧
        f.offset = (snapBlank ++ rows).length ∧
        w.gen.body = rows ++ w.writer.stage.drop w.writer.written
  | .fsyncRecords => ∃ f tail, w.name.file = some f ∧ f.Blank ∧
      f.bytes = snapBlank ++ (w.gen.body ++ tail)
  | .seek => w.gen ∈ w.fenced ∧ ∃ f, w.name.file = some f ∧ f.Sealed w.gen 0
  | .header => w.gen ∈ w.fenced ∧ w.writer.stage = w.gen.header ∧ w.writer.written < snapHdr ∧
      ∃ f, w.name.file = some f ∧ f.Sealed w.gen w.writer.written ∧ f.offset = w.writer.written
  | .fsyncHeader => w.gen ∈ w.fenced ∧ ∃ f, w.name.file = some f ∧ f.Sealed w.gen snapHdr
  | .name => w.gen ∈ w.fenced ∧ ∃ f, w.name.file = some f ∧ f.Sealed w.gen snapHdr ∧
      f.heads = [w.gen.header]

/-- **No crash leaves a generation that was not fenced.** -/
structure Inv (w : SnapWorld L) : Prop where
  good : ∀ i, (w.names i).Good w.fenced i
  marks : ∀ i f, (w.names i).file = some f → f.bytes.take 4 ≠ snapMagic → f.Blank
  count : w.writer.count = w.rows.length
  /-- A finished generation stays at its path. -/
  kept : ∀ i g, w.kept i = some g → (w.writer.phase ≠ .idle → w.writer.slot ≠ i) ∧
    (w.names i).Holds g ∧ g.bytes.length < 4294967296
  stands : w.Stands w.writer.phase

/-- A node that boots has no generation. -/
theorem inv_boot : (boot : SnapWorld L).Inv := by
  refine ⟨fun i d hl => ?_, nofun, rfl, nofun, trivial⟩
  obtain hl | ⟨o, ho, -⟩ := hl
  · exact good_leavesOf_none hl
  · cases ho

/-- The slot being written gets another name. -/
theorem Inv.set (h : w.Inv) (hbusy : w.writer.phase ≠ .idle) (n : SnapName)
    (hnames : w'.names = Function.update w.names w.writer.slot n) (hfenced : w.fenced ⊆ w'.fenced)
    (hkept : w'.kept = w.kept) (hslot : w'.writer.slot = w.writer.slot)
    (hcount : w'.writer.count = w'.rows.length) (hgood : n.Good w'.fenced w.writer.slot)
    (hmarks : ∀ f, n.file = some f → f.bytes.take 4 ≠ snapMagic → f.Blank)
    (hstands : w'.Stands w'.writer.phase) : w'.Inv := by
  refine ⟨fun i => ?_, fun i => ?_, hcount, fun i g hg => ?_, hstands⟩
  · rw [hnames]
    by_cases hi : i = w.writer.slot
    · subst hi
      rw [Function.update_self]
      exact hgood
    · rw [Function.update_of_ne hi]
      exact fun d hl => (h.good i d hl).mono hfenced
  · rw [hnames]
    by_cases hi : i = w.writer.slot
    · subst hi
      rw [Function.update_self]
      exact hmarks
    · rw [Function.update_of_ne hi]
      exact h.marks i
  · rw [hkept] at hg
    obtain ⟨hne, hholds, hsize⟩ := h.kept i g hg
    rw [hnames, hslot, Function.update_of_ne (hne hbusy).symm]
    exact ⟨fun _ => hne hbusy, hholds, hsize⟩

/-- The names are as they were. -/
theorem Inv.same (h : w.Inv) (hnames : w'.names = w.names) (hfenced : w'.fenced = w.fenced)
    (hkept : w'.kept = w.kept) (hslot : w'.writer.slot = w.writer.slot)
    (hphase : w.writer.phase = .idle → w'.writer.phase = .idle)
    (hcount : w'.writer.count = w'.rows.length) (hstands : w'.Stands w'.writer.phase) : w'.Inv := by
  refine ⟨fun i => ?_, fun i => ?_, hcount, fun i g hg => ?_, hstands⟩
  · rw [hnames, hfenced]
    exact h.good i
  · rw [hnames]
    exact h.marks i
  · rw [hkept] at hg
    obtain ⟨hne, hholds⟩ := h.kept i g hg
    rw [hnames, hslot]
    exact ⟨fun hbusy => hne fun hidle => hbusy (hphase hidle), hholds⟩

/-- The writer's file is otherwise, under the same name. -/
theorem Inv.setFile (h : w.Inv) (hbusy : w.writer.phase ≠ .idle) {f : SnapFile}
    {change : SnapFile → SnapFile} (hf : w.name.file = some f)
    (hnames : w'.names = (w.setFile change).names) (hfenced : w.fenced ⊆ w'.fenced)
    (hkept : w'.kept = w.kept) (hslot : w'.writer.slot = w.writer.slot)
    (hcount : w'.writer.count = w'.rows.length)
    (hgood : ∀ d, (change f).Leaves d → Good w'.fenced w.writer.slot d)
    (hmark : (change f).bytes.take 4 ≠ snapMagic → (change f).Blank)
    (hstands : (w'.name.file = some (change f)) → w'.Stands w'.writer.phase) : w'.Inv := by
  have hfile : w.name.file.map change = some (change f) := congrArg (Option.map change) hf
  refine h.set hbusy _ hnames hfenced hkept hslot hcount ?_ (fun f' hf' => ?_) (hstands ?_)
  · refine SnapName.good_of (fun d hl => ?_) fun o ho d hl => ?_
    · rw [hfile] at hl
      exact hgood d (leavesOf_some hl)
    · exact ((h.good _).other o ho d hl).mono hfenced
  · obtain rfl := Option.some.inj (hfile.symm.trans hf')
    exact hmark
  · rw [name, hnames, hslot]
    show (Function.update w.names w.writer.slot _ w.writer.slot).file = _
    rw [Function.update_self]
    exact hfile

/-- Zeros are written where the header will stand. -/
theorem Inv.writePlaceholder (h : w.Inv) (hp : w.writer.phase = .placeholder) {n : ℕ} (hn : n ≠ 0) :
    (w.write n .records).Inv := by
  have hbusy : w.writer.phase ≠ .idle := by rw [hp]; nofun
  have hs := h.stands
  rw [hp] at hs
  obtain ⟨hrows, hstage, hlt, f, rest, hf, hblank, hb, ho⟩ := hs
  have hlen : snapBlank.length = snapHdr := List.length_replicate ..
  have hpre : (snapBlank.take w.writer.written).length = w.writer.written :=
    List.length_take_of_le (by rw [hlen]; exact Nat.le_of_lt hlt)
  have hbytes := SnapFile.write_at hb (ho.trans hpre.symm) ((snapBlank.drop w.writer.written).take n)
  have htake : snapBlank.take w.writer.written ++ (snapBlank.drop w.writer.written).take n
      = snapBlank.take (w.writer.written + ((snapBlank.drop w.writer.written).take n).length) := by
    rw [List.take_add, List.length_take]
    exact congrArg _ List.take_eq_take_min
  have hc : 0 < ((snapBlank.drop w.writer.written).take n).length := by
    rw [List.length_take, List.length_drop, hlen]
    omega
  have hle : w.writer.written + ((snapBlank.drop w.writer.written).take n).length ≤ snapHdr := by
    rw [List.length_take, List.length_drop, hlen]
    omega
  rw [htake] at hbytes
  have hmark : (f.write ((snapBlank.drop w.writer.written).take n)).bytes.take 4 ≠ snapMagic := by
    intro hm
    obtain ⟨m, hm'⟩ := Nat.exists_eq_succ_of_ne_zero (Nat.pos_iff_ne_zero.mp hc)
    rw [hbytes, hm', Nat.add_succ, show snapBlank = 0 :: List.replicate 15 0 from rfl,
      List.take_succ_cons] at hm
    cases hm
  have hblank' := hblank.write hmark
  unfold write
  dsimp only
  rw [hstage]
  generalize (snapBlank.drop w.writer.written).take n = chunk at *
  split
  · next hshort =>
    rw [hlen] at hshort
    refine h.setFile hbusy hf rfl (List.Subset.refl _) rfl rfl h.count (fun d hl => hblank'.good hl)
      (fun _ => hblank') fun hf' => ?_
    show Stands _ w.writer.phase
    rw [hp]
    exact ⟨hrows, rfl, hshort, _, _, hf', hblank', hbytes, congrArg (· + chunk.length) ho⟩
  · next hfull =>
    rw [hlen] at hfull
    refine h.setFile hbusy hf rfl (List.Subset.refl _) rfl rfl h.count (fun d hl => hblank'.good hl)
      (fun _ => hblank') fun hf' => ?_
    rw [List.take_of_length_le (by rw [hlen]; exact Nat.not_lt.mp hfull)] at hbytes
    refine ⟨fun hne => absurd rfl hne, _, [], rest.drop chunk.length, hf', hblank', ?_, ?_, ?_⟩
    · rw [hbytes, List.append_nil]
    · show f.offset + chunk.length = (snapBlank ++ []).length
      rw [ho, List.append_nil, hlen]
      exact Nat.le_antisymm hle (Nat.not_lt.mp hfull)
    · show w.rows.flatMap SnapRow.encode = []
      rw [hrows]
      rfl

/-- A part of the rows is written. -/
theorem Inv.writeRecords (h : w.Inv) (hp : w.writer.phase = .records) (n : ℕ) :
    (w.write n .records).Inv := by
  have hbusy : w.writer.phase ≠ .idle := by rw [hp]; nofun
  have hs := h.stands
  rw [hp] at hs
  obtain ⟨-, f, rows, tail, hf, hblank, hb, ho, hbody⟩ := hs
  have hbytes := SnapFile.write_at hb ho ((w.writer.stage.drop w.writer.written).take n)
  have hsplit : (w.writer.stage.drop w.writer.written).take n
        ++ w.writer.stage.drop (w.writer.written
          + ((w.writer.stage.drop w.writer.written).take n).length)
      = w.writer.stage.drop w.writer.written := by
    rw [← List.drop_drop, List.length_take]
    conv_rhs => rw [← List.take_append_drop n (w.writer.stage.drop w.writer.written)]
    congr 1
    obtain hle | hle := Nat.le_total n (w.writer.stage.drop w.writer.written).length
    · rw [Nat.min_eq_left hle]
    · rw [Nat.min_eq_right hle, List.drop_length, List.drop_eq_nil_of_le hle]
  have hmark : (f.write ((w.writer.stage.drop w.writer.written).take n)).bytes.take 4
      ≠ snapMagic := by
    rw [hbytes, List.append_assoc, List.append_assoc,
      List.take_append_of_le_length (show 4 ≤ snapBlank.length by decide)]
    decide
  have hblank' := hblank.write hmark
  unfold write
  dsimp only
  generalize (w.writer.stage.drop w.writer.written).take n = chunk at *
  have hoff : f.offset + chunk.length = (snapBlank ++ (rows ++ chunk)).length := by
    rw [ho, ← List.append_assoc]
    exact List.length_append.symm
  have hbytes' : (f.write chunk).bytes = snapBlank ++ (rows ++ chunk) ++ tail.drop chunk.length := by
    rw [hbytes, ← List.append_assoc snapBlank rows chunk]
  split
  · next hshort =>
    refine h.setFile hbusy hf rfl (List.Subset.refl _) rfl rfl h.count (fun d hl => hblank'.good hl)
      (fun _ => hblank') fun hf' => ?_
    show Stands _ w.writer.phase
    rw [hp]
    refine ⟨fun _ => hshort, _, _, _, hf', hblank', hbytes', hoff, ?_⟩
    show w.gen.body = rows ++ chunk ++ w.writer.stage.drop (w.writer.written + chunk.length)
    rw [hbody, List.append_assoc, hsplit]
  · next hfull =>
    refine h.setFile hbusy hf rfl (List.Subset.refl _) rfl rfl h.count (fun d hl => hblank'.good hl)
      (fun _ => hblank') fun hf' => ?_
    refine ⟨fun hne => absurd rfl hne, _, _, _, hf', hblank', hbytes', hoff, ?_⟩
    show w.gen.body = rows ++ chunk ++ []
    rw [hbody, ← hsplit, List.drop_eq_nil_of_le (Nat.not_lt.mp hfull), List.append_assoc]

/-- A part of the header is written, whose mark is not torn. -/
theorem Inv.writeHeader (h : w.Inv) (hp : w.writer.phase = .header) {n : ℕ}
    (ht : ¬ Torn w.writer.stage
      (w.writer.written + ((w.writer.stage.drop w.writer.written).take n).length)) :
    (w.write n .fsyncHeader).Inv := by
  have hbusy : w.writer.phase ≠ .idle := by rw [hp]; nofun
  have hs := h.stands
  rw [hp] at hs
  obtain ⟨hmem, hstage, hlt, f, hf, hsealed, ho⟩ := hs
  rw [hstage] at ht
  obtain ⟨hsealed', ho'⟩ := hsealed.write ho ht
  have hlen := w.gen.length_header
  unfold write
  dsimp only
  rw [hstage]
  generalize (w.gen.header.drop w.writer.written).take n = chunk at *
  split
  · next hshort =>
    rw [hlen] at hshort
    refine h.setFile hbusy hf rfl (List.Subset.refl _) rfl rfl h.count
      (fun d hl => hsealed'.good hmem hl) (fun hm => hsealed'.blank hm) fun hf' => ?_
    show Stands _ w.writer.phase
    rw [hp]
    exact ⟨hmem, rfl, hshort, _, hf', hsealed', ho'⟩
  · next hfull =>
    rw [hlen] at hfull
    refine h.setFile hbusy hf rfl (List.Subset.refl _) rfl rfl h.count
      (fun d hl => hsealed'.good hmem hl) (fun hm => hsealed'.blank hm) fun hf' => ?_
    rw [Nat.le_antisymm hsealed'.le (Nat.not_lt.mp hfull)] at hsealed'
    exact ⟨hmem, _, hf', hsealed'⟩

/-- A write moves something, or nothing happens. -/
theorem drain_cases (w : SnapWorld L) (next : SnapWritePhase) (a : FsAnswer) :
    w.drain next a = w ∨ ∃ n, a = .done n ∧ n ≠ 0 ∧ w.drain next a = w.write n next := by
  cases a with
  | again | failed => exact .inl rfl
  | done n =>
    by_cases hno : w.writer.stage = [] ∨ n = 0
    · exact .inl (if_pos hno)
    · exact .inr ⟨n, rfl, fun hzero => hno (.inr hzero), if_neg hno⟩

/-- The name is freed, or is as it was. -/
theorem Inv.callUnlink (h : w.Inv) (hp : w.writer.phase = .unlink) {a : FsAnswer} (hc : w.Careful (.io a)) :
    (w.call a).Inv := by
  have hbusy : w.writer.phase ≠ .idle := by rw [hp]; nofun
  have hs := h.stands
  have hgood := h.good w.writer.slot
  unfold SnapWorld.call
  rw [hp] at hs ⊢
  cases a with
  | again =>
    refine h.set hbusy _ rfl (List.Subset.refl _) rfl rfl h.count ?_ (h.marks _) ?_
    · exact SnapName.good_of (fun d hl => hgood d (.inl hl))
        (forall_mem_append_singleton hgood.other fun d hl => good_leavesOf_none hl)
    · show Stands _ w.writer.phase
      rw [hp]
      exact hs
  | failed =>
    refine h.same rfl rfl rfl rfl (fun hidle => absurd hidle hbusy) h.count ⟨hs, fun f hf => ?_⟩
    exact h.marks _ f hf (hc hp f hf)
  | done n =>
    refine h.set hbusy _ rfl (List.Subset.refl _) rfl rfl h.count ?_ nofun ⟨hs, fun f hf => ?_⟩
    · exact SnapName.good_of (fun d hl => good_leavesOf_none hl)
        (forall_mem_append_singleton hgood.other fun d hl => hgood d (.inl hl))
    · have hnone : (Function.update w.names w.writer.slot
        ⟨none, w.name.others ++ [w.name.file]⟩ w.writer.slot).file = some f := hf
      rw [Function.update_self] at hnone
      cases hnone

/-- A file is made under the name. -/
theorem Inv.callCreate (h : w.Inv) (hp : w.writer.phase = .create) {a : FsAnswer} :
    (w.call a).Inv := by
  have hbusy : w.writer.phase ≠ .idle := by rw [hp]; nofun
  have hs := h.stands
  have hgood := h.good w.writer.slot
  unfold SnapWorld.call
  rw [hp] at hs ⊢
  cases a with
  | again =>
    refine h.set hbusy _ rfl (List.Subset.refl _) rfl rfl h.count ?_ (h.marks _) ?_
    · exact SnapName.good_of (fun d hl => hgood d (.inl hl))
        (forall_mem_append_singleton hgood.other
          fun d hl => SnapFile.blank_new.good (leavesOf_some hl))
    · show Stands _ w.writer.phase
      rw [hp]
      refine ⟨hs.1, fun f hf => hs.2 f ?_⟩
      have hf : (Function.update w.names w.writer.slot
        { w.name with others := w.name.others ++ [some .new] } w.writer.slot).file = some f := hf
      rw [Function.update_self] at hf
      exact hf
  | failed => exact h.same rfl rfl rfl rfl (fun _ => rfl) h.count trivial
  | done n =>
    dsimp only
    cases hf : w.name.file with
    | none =>
      refine h.set hbusy _ rfl (List.Subset.refl _) rfl rfl h.count ?_ (fun f hf => ?_) ?_
      · exact SnapName.good_of (fun d hl => SnapFile.blank_new.good (leavesOf_some hl))
          (forall_mem_append_singleton hgood.other fun d hl => good_leavesOf_none hl)
      · cases hf
        exact fun _ => SnapFile.blank_new
      · refine ⟨hs.1, rfl, Nat.succ_pos 15, .new, [], ?_, SnapFile.blank_new, rfl, rfl⟩
        show (Function.update w.names w.writer.slot _ w.writer.slot).file = _
        rw [Function.update_self]
    | some f =>
      have hblank : (f.seek 0).Blank := ⟨(hs.2 f hf).bytes, (hs.2 f hf).heads⟩
      refine h.set hbusy _ rfl (List.Subset.refl _) rfl rfl h.count ?_ (fun f' hf' => ?_) ?_
      · exact SnapName.good_of (fun d hl => hblank.good (leavesOf_some hl)) hgood.other
      · cases hf'
        exact fun _ => hblank
      · refine ⟨hs.1, rfl, Nat.succ_pos 15, f.seek 0, f.bytes, ?_, hblank, rfl, rfl⟩
        show (Function.update w.names w.writer.slot _ w.writer.slot).file = _
        rw [Function.update_self]

/-- From this fence on the rows are on the device. -/
theorem Inv.callFsyncRecords (h : w.Inv) (hp : w.writer.phase = .fsyncRecords) {a : FsAnswer} :
    (w.call a).Inv := by
  have hbusy : w.writer.phase ≠ .idle := by rw [hp]; nofun
  have hs := h.stands
  unfold SnapWorld.call
  rw [hp] at hs ⊢
  obtain ⟨f, tail, hf, hblank, hb⟩ := hs
  cases a with
  | again | failed => exact h
  | done n =>
    have hmem : w.gen ∈ w.fenced ++ [w.gen] :=
      List.mem_append_right _ (List.mem_singleton.mpr rfl)
    have hsealed := SnapFile.sealed_fence hb
    exact h.setFile hbusy hf rfl (List.subset_append_left _ _) rfl rfl h.count
      (fun d hl => hsealed.good hmem hl) (fun _ => hblank.fence)
      fun hf' => ⟨hmem, _, hf', hsealed⟩

/-- The rows stand; the header is next. -/
theorem Inv.callSeek (h : w.Inv) (hp : w.writer.phase = .seek) {a : FsAnswer} :
    (w.call a).Inv := by
  have hbusy : w.writer.phase ≠ .idle := by rw [hp]; nofun
  have hs := h.stands
  unfold SnapWorld.call
  rw [hp] at hs ⊢
  obtain ⟨hmem, f, hf, hsealed⟩ := hs
  cases a with
  | again | failed => exact h
  | done n =>
    have hsealed' : (f.seek 0).Sealed w.gen 0 :=
      ⟨hsealed.le, hsealed.bytes, hsealed.settled, hsealed.heads⟩
    refine h.setFile hbusy hf rfl (List.Subset.refl _) rfl rfl h.count
      (fun d hl => hsealed'.good hmem hl) (fun hm => hsealed'.blank hm)
      fun hf' => ⟨hmem, ?_, Nat.succ_pos 15, _, hf', hsealed', rfl⟩
    show snapHeader w.writer.count w.writer.generation = snapHeader w.rows.length _
    rw [h.count]
    rfl

/-- From this fence on the generation is whole. -/
theorem Inv.callFsyncHeader (h : w.Inv) (hp : w.writer.phase = .fsyncHeader) {a : FsAnswer} :
    (w.call a).Inv := by
  have hbusy : w.writer.phase ≠ .idle := by rw [hp]; nofun
  have hs := h.stands
  unfold SnapWorld.call
  rw [hp] at hs ⊢
  obtain ⟨hmem, f, hf, hsealed⟩ := hs
  cases a with
  | again | failed => exact h
  | done n =>
    obtain ⟨hsealed', hheads⟩ := hsealed.fence
    exact h.setFile hbusy hf rfl (List.Subset.refl _) rfl rfl h.count
      (fun d hl => hsealed'.good hmem hl) (fun hm => hsealed'.blank hm)
      fun hf' => ⟨hmem, _, hf', hsealed', hheads⟩

/-- The generation's name is durable. -/
theorem Inv.callName (h : w.Inv) (hp : w.writer.phase = .name) {a : FsAnswer} :
    (w.call a).Inv := by
  have hbusy : w.writer.phase ≠ .idle := by rw [hp]; nofun
  have hs := h.stands
  have hgood := h.good w.writer.slot
  unfold SnapWorld.call
  rw [hp] at hs ⊢
  obtain ⟨hmem, f, hf, hsealed, hheads⟩ := hs
  cases a with
  | again | failed => exact h
  | done n =>
    have hset : (w.setName { w.name with others := [] }).Inv := by
      refine h.set hbusy _ rfl (List.Subset.refl _) rfl rfl h.count ?_ (h.marks _) ?_
      · exact SnapName.good_of (fun d hl => hgood d (.inl hl)) nofun
      · show Stands _ w.writer.phase
        rw [hp]
        refine ⟨hmem, f, ?_, hsealed, hheads⟩
        show (Function.update w.names w.writer.slot _ w.writer.slot).file = _
        rw [Function.update_self]
        exact hf
    refine ⟨hset.good, hset.marks, h.count, fun i g hg => ⟨fun hne => absurd rfl hne, ?_⟩, trivial⟩
    have hg : Function.update w.kept w.writer.slot
        (if w.name.file.map SnapFile.bytes = some w.gen.bytes ∧ w.gen.bytes.length < 4294967296
          then some w.gen else none) i = some g := hg
    by_cases hi : i = w.writer.slot
    · subst hi
      rw [Function.update_self] at hg
      split at hg
      · next hwhole =>
        obtain rfl := Option.some.inj hg
        rw [hf] at hwhole
        refine ⟨⟨f, ?_, hsealed.settled, hheads, Option.some.inj hwhole.1⟩, hwhole.2⟩
        show Function.update w.names w.writer.slot _ w.writer.slot = _
        rw [Function.update_self, hf]
      · cases hg
    · rw [Function.update_of_ne hi] at hg
      obtain ⟨-, hholds, hsize⟩ := hset.kept i g hg
      exact ⟨hholds, hsize⟩

/-- **Every call keeps the invariant**, of a provider that is careful. -/
theorem Inv.call (h : w.Inv) {a : FsAnswer} (hc : w.Careful (.io a)) : (w.call a).Inv := by
  cases hp : w.writer.phase with
  | idle =>
    unfold SnapWorld.call
    rw [hp]
    exact h
  | unlink => exact h.callUnlink hp hc
  | create => exact h.callCreate hp
  | placeholder =>
    unfold SnapWorld.call
    rw [hp]
    obtain hno | ⟨n, -, hn, hwrite⟩ := w.drain_cases .records a
    · rw [hno]
      exact h
    · rw [hwrite]
      exact h.writePlaceholder hp hn
  | records =>
    unfold SnapWorld.call
    rw [hp]
    obtain hno | ⟨n, -, -, hwrite⟩ := w.drain_cases .records a
    · rw [hno]
      exact h
    · rw [hwrite]
      exact h.writeRecords hp n
  | fsyncRecords => exact h.callFsyncRecords hp
  | seek => exact h.callSeek hp
  | header =>
    unfold SnapWorld.call
    rw [hp]
    obtain hno | ⟨n, rfl, -, hwrite⟩ := w.drain_cases .fsyncHeader a
    · rw [hno]
      exact h
    · rw [hwrite]
      exact h.writeHeader hp (hc hp)
  | fsyncHeader => exact h.callFsyncHeader hp
  | name => exact h.callName hp

/-- **Every event keeps the invariant.** -/
theorem Inv.step (h : w.Inv) {e : SnapEvent L} (hp : w.Possible e) (hc : w.Careful e) :
    (w.step e).Inv := by
  cases e with
  | start slot generation =>
    unfold SnapWorld.step
    dsimp only
    split
    · exact h
    refine ⟨h.good, h.marks, rfl, fun i g hg => ?_, rfl⟩
    have hg : Function.update w.kept slot none i = some g := hg
    by_cases hi : i = slot
    · subst hi
      rw [Function.update_self] at hg
      cases hg
    · rw [Function.update_of_ne hi] at hg
      exact ⟨fun _ => fun heq => hi heq.symm, (h.kept i g hg).2⟩
  | io a => exact h.call hc
  | stage r =>
    unfold SnapWorld.step
    dsimp only
    split
    · next hready =>
      obtain ⟨hphase, hstage⟩ := hready
      have hs := h.stands
      rw [hphase] at hs
      obtain ⟨-, f, rows, tail, hf, hblank, hb, ho, hbody⟩ := hs
      have hlen := r.length_encode
      refine h.same rfl rfl rfl rfl (fun hidle => hidle) ?_ ?_
      · show w.writer.count + 1 = (w.rows ++ [r]).length
        rw [List.length_append, h.count]
        rfl
      · show Stands _ w.writer.phase
        rw [hphase]
        refine ⟨fun _ => ?_, f, rows, tail, hf, hblank, hb, ho, ?_⟩
        · show 0 < r.encode.length
          rw [hlen]
          exact recSize_pos L
        · have hbody : w.rows.flatMap SnapRow.encode = rows ++ w.writer.stage.drop w.writer.written :=
            hbody
          rw [hstage, List.drop_nil, List.append_nil] at hbody
          show (w.rows ++ [r]).flatMap SnapRow.encode = rows ++ r.encode
          rw [List.flatMap_append, hbody, List.flatMap_singleton]
    · exact h
  | finish =>
    unfold SnapWorld.step
    dsimp only
    split
    · next hready =>
      obtain ⟨hphase, hstage⟩ := hready
      have hs := h.stands
      rw [hphase] at hs
      obtain ⟨-, f, rows, tail, hf, hblank, hb, ho, hbody⟩ := hs
      rw [hstage, List.drop_nil, List.append_nil] at hbody
      refine h.same rfl rfl rfl rfl (fun hidle => ?_) h.count ⟨f, tail, hf, hblank, ?_⟩
      · cases hidle.symm.trans hphase
      · show f.bytes = snapBlank ++ (w.gen.body ++ tail)
        rw [hbody, hb, List.append_assoc]
    · exact h
  | abandon => exact h.same rfl rfl rfl rfl (fun _ => rfl) h.count trivial
  | crash left =>
    refine ⟨fun i d hl => ?_, fun i f hf hm => ?_, rfl, fun i g hg => ?_, trivial⟩
    · have hleft := SnapName.leaves_onDevice hl
      exact h.good i d (hleft ▸ hp i)
    · have hf : (left i).map .onDevice = some f := hf
      cases hi : left i with
      | none =>
        rw [hi] at hf
        cases hf
      | some b =>
        rw [hi] at hf
        obtain rfl := Option.some.inj hf
        refine ⟨hm, fun x hx => ?_⟩
        rw [List.mem_singleton.mp hx, List.take_take]
        exact hm
    · obtain ⟨-, hholds, hsize⟩ := h.kept i g hg
      refine ⟨fun hne => absurd rfl hne, ?_, hsize⟩
      show (⟨(left i).map .onDevice, []⟩ : SnapName).Holds g
      rw [hholds.leaves (hp i)]
      exact SnapName.holds_onDevice g

theorem inv_run {es : List (SnapEvent L)}
    (h : Run.AllSteps step (fun w e => w.Possible e ∧ w.Careful e) boot es) :
    (Run.run step boot es).Inv :=
  Run.invariant (fun _ _ hi hpc => hi.step hpc.1 hpc.2) inv_boot h

/-- **What a boot finds after a crash.** -/
structure Switches (w : SnapWorld L) (left : ℕ → Option Bytes) : Prop where
  /-- A file that is accepted was finished: its rows were fenced, and its header
  is there. It serves the rows that were staged. -/
  finished : ∀ answers, ∀ x ∈ (SnapBestOpener.run L left answers).accepted, ∃ g ∈ w.fenced,
    g.slot = x.2 ∧ left x.2 = some g.bytes ∧ x.1 = g.opened ∧ Serves L g.bytes x.1 g.rows
  /-- The best is one of those, and none has a higher number. -/
  best : ∀ answers,
    (∀ b, (SnapBestOpener.run L left answers).best = some b →
      b ∈ (SnapBestOpener.run L left answers).accepted) ∧
    ∀ x ∈ (SnapBestOpener.run L left answers).accepted, ∃ b,
      (SnapBestOpener.run L left answers).best = some b ∧ x.1.generation ≤ b.1.generation
  /-- A generation that was finished is there, and is passed by only for one of
  a number that is no lower. -/
  kept : ∀ answers, .failed ∉ answers → 2 ≤ (SnapBestOpener.run L left answers).which →
    ∀ i < 2, ∀ g, w.kept i = some g → left i = some g.bytes ∧
      ∃ b, (SnapBestOpener.run L left answers).best = some b ∧ g.generation ≤ b.1.generation

theorem Inv.switches (h : w.Inv) {left : ℕ → Option Bytes}
    (hl : ∀ i, (w.names i).Leaves (left i)) : w.Switches left := by
  refine ⟨fun answers x hx => ?_, fun answers => ?_, fun answers ha hall i hi g hg => ?_⟩
  · obtain ⟨d, hd, hs⟩ := (SnapBestOpener.picks_run L left answers).accepted x hx
    obtain ⟨g, hmem, hslot, rfl, hopened⟩ := h.good x.2 d (hd ▸ hl x.2) x.1 hs
    exact ⟨g, hmem, hslot, hd, hopened, hopened ▸ serves_bytes g⟩
  · have hp := SnapBestOpener.picks_run L left answers
    exact ⟨hp.best, hp.some_best⟩
  · obtain ⟨-, hholds, hsize⟩ := h.kept i g hg
    have hleft := hholds.leaves (hl i)
    have hmem := SnapBestOpener.covers_run L left ha i (Nat.lt_of_lt_of_le hi hall) g.bytes g.opened
      hleft (opensAs_bytes g hsize)
    exact ⟨hleft, (SnapBestOpener.picks_run L left answers).some_best _ hmem⟩

/-- A header written in part is a generation: the provider takes eight bytes of
it, and after a crash the boot opens generation 0, which was never begun. -/
theorem torn_header_opens : ¬ ∀ (es : List (SnapEvent .minimal)) (left : ℕ → Option Bytes),
    Run.AllSteps step Possible boot es →
    (∀ i, ((Run.run step boot es).names i).Leaves (left i)) →
    (Run.run step boot es).Switches left := by
  intro h
  have hs := h [.start 0 1, .io .failed, .io (.done 3), .io (.done 16), .finish, .io (.done 0),
      .io (.done 0), .io (.done 8)]
    (fun i => if i = 0 then some (snapMagic ++ List.replicate 12 0) else none)
    ⟨trivial, trivial, trivial, trivial, trivial, trivial, trivial, trivial, trivial⟩ ?_
  · obtain ⟨g, hmem, -, -, hopened, -⟩ := hs.finished [.done 0, .done 0, .done 15, .done 0]
      (⟨0, 0⟩, 0) (by decide)
    obtain rfl : g = ⟨0, 1, []⟩ := List.mem_singleton.mp hmem
    cases hopened
  · intro i
    cases i with
    | zero => exact .inl ⟨_, rfl, by decide, fun _ => rfl⟩
    | succ i => exact .inl rfl

end SnapWorld

/-- **Generations switch atomically**, as long as no file with the mark is
written over and no header is written in part that has the mark and the count.
After any run of writers, and a crash at any point, what a boot accepts was
finished and serves the rows that were staged; it takes the highest number; and
a generation that was finished is passed by only for one of a number that is no
lower. -/
theorem generations_switch {L : Limits} (es : List (SnapEvent L))
    (h : Run.AllSteps SnapWorld.step (fun w e => w.Possible e ∧ w.Careful e) .boot es)
    (left : ℕ → Option Bytes)
    (hl : ∀ i, ((Run.run SnapWorld.step .boot es).names i).Leaves (left i)) :
    (Run.run SnapWorld.step .boot es).Switches left :=
  (SnapWorld.inv_run h).switches hl

/-! ### Two generations -/

/-- A row at a revision. -/
def rowAt (revision : UInt64) : SnapRow .minimal := { SnapRow.ofBytes .minimal [] with revision }

/-- A generation of two rows is finished in the first file, the second row in three
calls; another is cut in the second file, with a row and part of one written. -/
def secondCut : List (SnapEvent .minimal) :=
  [.start 0 1, .io .failed, .io (.done 3), .io (.done 16), .stage (rowAt 5), .io (.done 4096),
    .stage (rowAt 7), .io (.done 100), .io .again, .io (.done 4096), .finish, .io (.done 0),
    .io (.done 0), .io (.done 16), .io (.done 0), .io (.done 0),
    .start 1 2, .io .failed, .io (.done 3), .io (.done 16), .stage (rowAt 9), .io (.done 4096),
    .stage (rowAt 8), .io (.done 100)]

/-- What the crash leaves: of the second file, the first row. -/
def cutLeft : ℕ → Option Bytes
  | 0 => some (SnapGen.bytes ⟨0, 1, [rowAt 5, rowAt 7]⟩)
  | 1 => some (snapBlank ++ (rowAt 9).encode)
  | _ => none

set_option maxRecDepth 100000 in
theorem generations_switch_second :
    (Run.run SnapWorld.step SnapWorld.boot secondCut).Switches cutLeft ∧
    (SnapBestOpener.run .minimal cutLeft [.done 0, .done 0, .done 15, .done 0, .done 0, .done 0,
      .done 15, .done 0]).best = some (⟨2, 1⟩, 0) := by
  refine ⟨generations_switch _ (.and (.of_forall (by simp [secondCut, SnapWorld.Possible])) (by decide +kernel)) _
    fun i => ?_, by decide +kernel⟩
  match i with
  | 0 => exact .inl ⟨_, rfl, by decide +kernel, fun _ => by decide +kernel⟩
  | 1 => exact .inl ⟨_, rfl, by decide +kernel, fun h => absurd h (by decide +kernel)⟩
  | i + 2 => exact .inl rfl

end Loam

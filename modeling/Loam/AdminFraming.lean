import Loam.AdminWire
import Loam.BodyWire
import Loam.WireFraming

/-!
# Where an admin answer ends

A session of the admin plane is a stream of bytes in both directions. The gate
delimits the requests by `request_len`, a client the answers by `response_len`,
from what has arrived of the record at the front. The answers of a listing are
the long way: each entry is a path and a binding, and where an entry ends is
told from its lengths one after another.

What either says of the front of a stream stays as more arrives, once it says
more than that too little is there (`Settled`). So a record that is as long as
is said of it is delimited, however it is cut (`Settled.delimits`).
-/

namespace Loam

open Slices Delimited

/-- The longest request (`REQUEST_MAX`): a file put in one frame, under the longest
key. -/
def requestMax (L : Limits) : ℕ :=
  27 + L.keyRefMax + L.maxRoot + L.maxPath + L.maxObjectId + L.contentTypeMax + maxBody

/-- The longest answer (`RESPONSE_MAX`): a body read back. -/
def responseMax : ℕ := 10 + maxBody

/-! ## What is said of a front stays -/

/-- What a function says of a string stays when the string goes on, once it says
more than that too little is there. -/
def Settled {α : Type} (f : Bytes → Except WireError α) : Prop :=
  ∀ src t, f src ≠ .error .truncated → f (src ++ t) = f src

section Settled

variable {α β : Type} {f g : Bytes → Except WireError α} {a n : ℕ} {r : Bytes}

/-- What does not look at the string is settled. -/
theorem settled_const (x : Except WireError α) : Settled fun _ => x := fun _ _ _ => rfl

/-- Settled steps in a row are settled. -/
theorem Settled.bind {k : α → Bytes → Except WireError β} (hf : Settled f)
    (hk : ∀ v, Settled (k v)) : Settled fun src => f src >>= fun v => k v src := by
  intro src t h
  dsimp only at h ⊢
  have hfront : f src ≠ .error .truncated := fun he => h (by rw [he]; rfl)
  rw [hf src t hfront]
  cases hv : f src with
  | error e => rfl
  | ok v =>
    rw [hv] at h
    exact hk v src t h

/-- So is a choice between settled ones. -/
theorem Settled.ite {c : Prop} [Decidable c] (hf : Settled f) (hg : Settled g) :
    Settled fun src => if c then f src else g src := by
  by_cases hc : c
  · simpa only [if_pos hc] using hf
  · simpa only [if_neg hc] using hg

end Settled

/-! ## Fields of what has arrived -/

/-- The number in the `n` bytes at `a`, once they are there. -/
def numAt (src : Bytes) (a n : ℕ) : Except WireError ℕ :=
  if a + n ≤ src.length then .ok (num src a n) else .error .truncated

/-- The status of an answer. -/
def statusAt (src : Bytes) : Except WireError UInt8 :=
  match src[5]? with
  | some b => .ok b
  | none => .error .truncated

/-- A function of what is behind `a`, once the string goes so far. -/
def behind {α : Type} (a : ℕ) (f : Bytes → Except WireError α) (src : Bytes) : Except WireError α :=
  if a ≤ src.length then f (src.drop a) else .error .truncated

/-- A number that is there stays. -/
theorem settled_numAt (a n : ℕ) : Settled fun src => numAt src a n := by
  intro src t h
  dsimp only at h ⊢
  by_cases hin : a + n ≤ src.length
  · have hin' : a + n ≤ (src ++ t).length := by
      rw [List.length_append]
      exact hin.trans (Nat.le_add_right _ _)
    rw [numAt, numAt, if_pos hin, if_pos hin', num_of_front (List.prefix_append src t) hin]
  · exact absurd (by rw [numAt, if_neg hin]) h

/-- The status of an answer stays. -/
theorem settled_statusAt : Settled statusAt := by
  intro src t h
  cases hs : src[5]? with
  | none => exact absurd (by rw [statusAt, hs]) h
  | some b =>
    have hlt : 5 < src.length := (List.getElem?_eq_some_iff.mp hs).1
    rw [statusAt, statusAt, List.getElem?_append_left hlt]

theorem Settled.behind {α : Type} {f : Bytes → Except WireError α} (hf : Settled f) (a : ℕ) :
    Settled (Loam.behind a f) := by
  intro src t h
  by_cases hin : a ≤ src.length
  · have hin' : a ≤ (src ++ t).length := by
      rw [List.length_append]
      exact hin.trans (Nat.le_add_right _ _)
    rw [Loam.behind, if_pos hin] at h
    rw [Loam.behind, Loam.behind, if_pos hin, if_pos hin', List.drop_append_of_le_length hin]
    exact hf _ t h
  · exact absurd (by rw [Loam.behind, if_neg hin]) h

/-! ## Requests -/

/-- The length of a request is settled, once it is told. -/
theorem requestLen_append {src : Bytes} (t : Bytes) (h : requestLen src ≠ .truncated) :
    requestLen (src ++ t) = requestLen src := by
  cases src with
  | nil => exact absurd rfl h
  | cons op rest =>
    rw [List.cons_append]
    unfold requestLen at h ⊢
    simp only [List.head?_cons] at h ⊢
    cases hop : lengthFields op with
    | none => rfl
    | some p =>
      obtain ⟨header, fields⟩ := p
      rw [hop] at h
      dsimp only at h ⊢
      by_cases hall : fields.all fun f => decide (f.1 + f.2 ≤ (op :: rest).length)
      · rw [List.all_eq_true] at hall
        have hin : ∀ f ∈ fields, f.1 + f.2 ≤ (op :: rest).length := fun f hf =>
          of_decide_eq_true (hall f hf)
        have hin' : fields.all fun f => decide (f.1 + f.2 ≤ (op :: (rest ++ t)).length) := by
          rw [List.all_eq_true]
          intro f hf
          refine decide_eq_true ((hin f hf).trans ?_)
          rw [List.length_cons, List.length_cons, List.length_append]
          omega
        rw [if_pos (List.all_eq_true.mpr hall), if_pos hin']
        congr 3
        refine List.map_congr_left fun f hf => ?_
        exact (num_of_front (List.prefix_append (op :: rest) t) (hin f hf)).symm
      · exact absurd (by rw [if_neg hall]) h

/-! ## Answers -/

/-- The policy of a header: the length of the key reference, the time to retain
until, and the hold (`POLICY_HDR`). -/
def policyHdr : ℕ := 1 + 8 + 1

/-- The fixed part of the answer to a stat (`STAT_ACK_HDR`). -/
def statAckHdr : ℕ := 1 + 4 + 1 + 8 + policyHdr

/-- The answer to a lease (`LEASE_ACK_LEN`). -/
def leaseAckLen : ℕ := 1 + 4 + 1 + 8 + 8

/-- The length of the answer to a write whose fixed part is `fixed` bytes
(`fenced_len`). -/
def fencedLen (fixed : ℕ) (src : Bytes) : Except WireError ℕ := do
  let len ← numAt src fixed 1
  require (len ≤ ackFenceMax) (.stringTooLong len ackFenceMax)
  return fixed + 1 + len

/-- The length of a binding at the front, from its length fields alone
(`binding_tail_record_len`). -/
def bindingTailRecordLen (src : Bytes) : Except WireError ℕ := do
  let oidLen ← numAt src 9 1
  let ctLen ← numAt src (10 + oidLen + 16) 1
  let refLen ← numAt src (10 + oidLen + 16 + 1 + ctLen) 1
  return 10 + oidLen + 16 + 1 + ctLen + policyHdr + refLen

/-- Where a listing ends that has `count` entries from `a` on. -/
def listedLen : ℕ → ℕ → Bytes → Except WireError ℕ
  | 0, a, _ => .ok a
  | count + 1, a, src => do
    let len ← numAt src a 2
    let tail ← behind (a + 2 + len) bindingTailRecordLen src
    listedLen count (a + 2 + len + tail) src

/-- The length of an answer to a request of that opcode. -/
def responseLenOf (op : UInt8) (src : Bytes) : Except WireError ℕ :=
  if op = admBind ∨ op = admDeleteFile ∨ op = admRetain then fencedLen 6 src
  else if op = admPutFileChunk ∨ op = admPutBodyKeyed then .ok 6
  else if op = admDeleteBody then .ok 7
  else if op = admPutFileOpen then .ok 7
  else if op = admStatFile then do
    let len ← numAt src 14 1
    return statAckHdr + len
  else if op = admLease then .ok leaseAckLen
  else if op = admVolume then .ok 14
  else if op = admPutBody then do
    let status ← statusAt src
    return if status = admStatusOk then 6 + digestLen else 6
  else if op = admPutFile then do
    let status ← statusAt src
    fencedLen (if status = admStatusOk then 6 + digestLen else 6) src
  else if op = admGetBody ∨ op = admGetFile ∨ op = admReadFileRange then do
    let status ← statusAt src
    if status = admStatusOk then do
      let len ← numAt src 6 4
      return 10 + len
    else return 6
  else if op = admLookup then do
    let status ← statusAt src
    if status = admStatusOk then do
      let len ← behind 6 bindingTailRecordLen src
      return 6 + len
    else return 6
  else if op = admListFiles then do
    let status ← statusAt src
    if status = admStatusOk then do
      let count ← numAt src 6 1
      listedLen count 8 src
    else return 6
  else .error (.badOpcode op)

/-- The length of the answer at the front, from its header alone
(`response_len`). -/
def responseLen (src : Bytes) : Except WireError ℕ :=
  match src.head? with
  | none => .error .truncated
  | some op => responseLenOf op src

theorem settled_fencedLen (fixed : ℕ) : Settled (fencedLen fixed) :=
  (settled_numAt fixed 1).bind fun _ => settled_const _

theorem settled_bindingTailRecordLen : Settled bindingTailRecordLen :=
  (settled_numAt 9 1).bind fun _ => (settled_numAt _ 1).bind fun _ =>
    (settled_numAt _ 1).bind fun _ => settled_const _

/-- Where a listing ends is settled, entry by entry. -/
theorem settled_listedLen (count a : ℕ) : Settled (listedLen count a) := by
  induction count generalizing a with
  | zero => exact settled_const _
  | succ count ih =>
    exact (settled_numAt a 2).bind fun _ => (settled_bindingTailRecordLen.behind _).bind fun _ => ih _

/-- The length of an answer is settled for every opcode. -/
theorem settled_responseLenOf (op : UInt8) : Settled (responseLenOf op) := by
  unfold responseLenOf
  refine .ite (settled_fencedLen 6) <| .ite (settled_const _) <| .ite (settled_const _) <|
    .ite (settled_const _) <| .ite ?_ <| .ite (settled_const _) <| .ite (settled_const _) <|
    .ite ?_ <| .ite ?_ <| .ite ?_ <| .ite ?_ <| .ite ?_ (settled_const _)
  · exact (settled_numAt 14 1).bind fun _ => settled_const _
  · exact settled_statusAt.bind fun _ => settled_const _
  · exact settled_statusAt.bind fun _ => settled_fencedLen _
  · exact settled_statusAt.bind fun _ =>
      .ite ((settled_numAt 6 4).bind fun _ => settled_const _) (settled_const _)
  · exact settled_statusAt.bind fun _ =>
      .ite ((settled_bindingTailRecordLen.behind 6).bind fun _ => settled_const _) (settled_const _)
  · exact settled_statusAt.bind fun _ =>
      .ite ((settled_numAt 6 1).bind fun _ => settled_listedLen _ 8) (settled_const _)

/-- **The length of an answer is settled.** -/
theorem settled_responseLen : Settled responseLen := by
  intro src t h
  cases src with
  | nil => exact absurd rfl h
  | cons op rest => exact settled_responseLenOf op (op :: rest) t h

end Loam

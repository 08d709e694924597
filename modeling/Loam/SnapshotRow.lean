import Loam.LittleEndian
import Loam.Snapshot

/-!
# A snapshot's rows

Every record of a snapshot file takes the same number of bytes, so that the
file is searched by arithmetic. A variable part stands in a field of its
ceiling's width behind its length. The widths are the profile's: a file of
another profile has rows of another size.

A row is written whatever its lengths say. One whose length is past its field's
width, or whose hold is no bit, is not read back.
-/

namespace Loam

/-- Bytes of a fixed width. -/
abbrev FixedBytes (n : ℕ) := { b : Bytes // b.length = n }

/-- The first bytes of a string, as a field. -/
def FixedBytes.ofBytes (n : ℕ) (b : Bytes) : FixedBytes n :=
  ⟨(b ++ List.replicate n 0).take n, by simp⟩

/-- A snapshot record, as its file has it (`SnapRecord`). -/
structure SnapRow (L : Limits) where
  rootLen : UInt8
  root : FixedBytes L.maxRoot
  pathLen : UInt16
  path : FixedBytes L.maxPath
  revision : UInt64
  kind : UInt8
  oidLen : UInt8
  oid : FixedBytes L.maxObjectId
  stampMs : UInt64
  size : UInt64
  ctypeLen : UInt8
  ctype : FixedBytes L.contentTypeMax
  keyRefLen : UInt8
  keyRef : FixedBytes L.keyRefMax
  retainUntilMs : UInt64
  hold : UInt8

/-- The bytes of a row (`REC_SIZE`). -/
def recSize (L : Limits) : ℕ :=
  1 + L.maxRoot + 2 + L.maxPath + 8 + 1 + 1 + L.maxObjectId + 8 + 8 + 1 + L.contentTypeMax
    + 1 + L.keyRefMax + 8 + 1

theorem recSize_pos (L : Limits) : 0 < recSize L := Nat.succ_pos _

namespace SnapRow

variable {L : Limits}

/-- A row's bytes (`SnapRecord::encode`). -/
def encode (r : SnapRow L) : Bytes :=
  r.rootLen :: (r.root.val ++
    (leBytes 2 r.pathLen.toNat ++ (r.path.val ++
    (leBytes 8 r.revision.toNat ++
    (r.kind :: r.oidLen :: (r.oid.val ++
    (leBytes 8 r.stampMs.toNat ++ (leBytes 8 r.size.toNat ++
    (r.ctypeLen :: (r.ctype.val ++
    (r.keyRefLen :: (r.keyRef.val ++
    (leBytes 8 r.retainUntilMs.toNat ++ [r.hold])))))))))))))

/-- The lengths fit their fields, and the hold is a bit. -/
def Fits (r : SnapRow L) : Prop :=
  (r.keyRefLen.toNat ≤ L.keyRefMax ∧ r.hold ≤ 1) ∧
    r.rootLen.toNat ≤ L.maxRoot ∧ r.pathLen.toNat ≤ L.maxPath ∧
    r.oidLen.toNat ≤ L.maxObjectId ∧ r.ctypeLen.toNat ≤ L.contentTypeMax

instance (r : SnapRow L) : Decidable r.Fits := by unfold Fits; infer_instance

/-- The row some bytes are, as they stand. -/
def ofBytes (L : Limits) (src : Bytes) : SnapRow L :=
  let path := src.drop (1 + L.maxRoot)
  let revision := path.drop (2 + L.maxPath)
  let kind := revision.drop 8
  let stamp := kind.drop (2 + L.maxObjectId)
  let ctype := stamp.drop 16
  let keyRef := ctype.drop (1 + L.contentTypeMax)
  let retain := keyRef.drop (1 + L.keyRefMax)
  { rootLen := src.headD 0
    root := .ofBytes _ (src.drop 1)
    pathLen := UInt16.ofNat (leNat (path.take 2))
    path := .ofBytes _ (path.drop 2)
    revision := UInt64.ofNat (leNat (revision.take 8))
    kind := kind.headD 0
    oidLen := (kind.drop 1).headD 0
    oid := .ofBytes _ (kind.drop 2)
    stampMs := UInt64.ofNat (leNat (stamp.take 8))
    size := UInt64.ofNat (leNat ((stamp.drop 8).take 8))
    ctypeLen := ctype.headD 0
    ctype := .ofBytes _ (ctype.drop 1)
    keyRefLen := keyRef.headD 0
    keyRef := .ofBytes _ (keyRef.drop 1)
    retainUntilMs := UInt64.ofNat (leNat (retain.take 8))
    hold := (retain.drop 8).headD 0 }

/-- A row read back (`SnapRecord::decode`). -/
def decode (L : Limits) (src : Bytes) : Option (SnapRow L) :=
  if src.length < recSize L then none
  else if (ofBytes L src).Fits then some (ofBytes L src) else none

/-! ## Reading back -/

theorem length_encode (r : SnapRow L) : r.encode.length = recSize L := by
  simp only [encode, recSize, List.length_cons, List.length_append, length_leBytes, r.root.property,
    r.path.property, r.oid.property, r.ctype.property, r.keyRef.property, List.length_nil]
  omega

section Fields

variable {n : ℕ} {s : Bytes}

theorem ofBytes_field (f : FixedBytes n) : FixedBytes.ofBytes n (f.val ++ s) = f := by
  refine Subtype.ext ?_
  show (f.val ++ s ++ List.replicate n 0).take n = f.val
  rw [List.append_assoc, List.take_left' f.property]

theorem take_leBytes (v : ℕ) : (leBytes n v ++ s).take n = leBytes n v :=
  List.take_left' (length_leBytes n v)

theorem drop_leBytes (v : ℕ) : (leBytes n v ++ s).drop n = s :=
  List.drop_left' (length_leBytes n v)

theorem ofNat_leBytes_two (v : UInt16) : UInt16.ofNat (leNat (leBytes 2 v.toNat)) = v := by
  rw [leNat_leBytes (v.toNat_lt), UInt16.ofNat_toNat]

theorem ofNat_leBytes_eight (v : UInt64) : UInt64.ofNat (leNat (leBytes 8 v.toNat)) = v := by
  rw [leNat_leBytes (v.toNat_lt), UInt64.ofNat_toNat]

end Fields

/-- The bytes of a row are that row, whatever follows. -/
theorem ofBytes_encode (r : SnapRow L) (t : Bytes) : ofBytes L (r.encode ++ t) = r := by
  have hone (b : UInt8) {n : ℕ} (s : Bytes) : (b :: s).drop (1 + n) = s.drop n := by
    rw [Nat.add_comm, List.drop_succ_cons]
  have htwo (b c : UInt8) {n : ℕ} (s : Bytes) : (b :: c :: s).drop (2 + n) = s.drop n := by
    rw [Nat.add_comm, List.drop_succ_cons, List.drop_succ_cons]
  have hnum {k : ℕ} (v : ℕ) {n : ℕ} (s : Bytes) : (leBytes k v ++ s).drop (k + n) = s.drop n := by
    rw [← List.drop_drop, drop_leBytes]
  have hfield {n : ℕ} (f : FixedBytes n) (s : Bytes) : (f.val ++ s).drop n = s :=
    List.drop_left' f.property
  have hsixteen (v w : ℕ) (s : Bytes) : (leBytes 8 v ++ (leBytes 8 w ++ s)).drop 16 = s := by
    rw [show 16 = 8 + 8 from rfl, hnum, drop_leBytes]
  unfold ofBytes encode
  simp only [List.cons_append, List.append_assoc, hone, htwo, hnum, hfield, hsixteen, drop_leBytes,
    take_leBytes, ofBytes_field, ofNat_leBytes_two, ofNat_leBytes_eight, List.headD_cons,
    List.drop_succ_cons, List.drop_zero]

/-- **A row that is written is read back**, if it is one that is read at all. -/
theorem decode_encode (r : SnapRow L) (t : Bytes) :
    decode L (r.encode ++ t) = if r.Fits then some r else none := by
  have hlen : ¬ (r.encode ++ t).length < recSize L := by
    rw [List.length_append, length_encode]
    omega
  rw [decode, if_neg hlen, ofBytes_encode]

end SnapRow

end Loam

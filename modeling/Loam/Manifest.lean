import Loam.Lib.Refill
import Loam.WireFraming

/-!
# Snapshot manifests

A manifest lists what a snapshot holds: a header with a root and a count, and so many records,
each with a key, a digest and what the binding of the key records (`loam_manifest_wire.rs`). It is
read once, from its front. A record is as wide as its three lengths say.

What is written is read back (`forEach_encode`), and what is read was all there: a manifest that
is accepted begins with the bytes of its header and of as many records as the header declares, and
cut anywhere in these it is refused (`forEach_take`). The count is only known when all records are
written, so that the header is written twice; it is as long the second time (`overwrite_header`).
-/

namespace Loam.Manifest

open Slices

/-! ## Errors -/

/-- Why a manifest is not written, or not read. -/
inductive ManifestError where
  | bufferTooSmall (needed actual : ℕ)
  | badMagic
  /-- It ends inside its header or a record. -/
  | truncated
  | tooLong (len max : ℕ)
  /-- There are more entries than the count can say. -/
  | tooManyEntries (count max : ℕ)
  | badKind (observed : UInt8)
  | badHold (observed : UInt8)
deriving DecidableEq

/-- Go on if `c` holds. -/
def need (c : Prop) [Decidable c] (e : ManifestError) : Except ManifestError Unit :=
  if c then .ok () else .error e

/-! ## Entries -/

/-- One record: a key, the digest it was bound to, and what the binding records. -/
structure Entry where
  key : Bytes
  digest : FixedBytes 32
  kind : UInt8
  size : UInt64
  contentType : Bytes
  keyRef : Bytes
  retainUntilMs : UInt64
  hold : Bool
deriving DecidableEq

/-- `LMAN`. -/
def magic : Bytes := [76, 77, 65, 78]

def header : ℕ := 4 + 4 + 2
def recHeader : ℕ := 32 + 2 + 1 + 8 + 1 + 1 + 8 + 1

/-- The greatest kind (`LAST_KIND`). -/
def lastKind : UInt8 := 4

/-- The greatest count (`MAX_ENTRIES`). -/
def maxEntries : ℕ := 4294967295

/-- The fields of the header. -/
def headerFields (root : Bytes) (count : ℕ) : List Bytes :=
  [magic, leBytes 4 count, leBytes 2 root.length, root]

/-- The fields of a record. -/
def recordFields (e : Entry) : List Bytes :=
  [e.digest.val, leBytes 2 e.key.length, [e.kind], leBytes 8 e.size.toNat,
    leBytes 1 e.contentType.length, leBytes 1 e.keyRef.length, leBytes 8 e.retainUntilMs.toNat,
    [flagByte e.hold], e.key, e.contentType, e.keyRef]

/-! ## Writing -/

variable (L : Limits)

/-- The longest record (`RECORD_MAX`). -/
def recordMax : ℕ := recHeader + L.maxPath + L.contentTypeMax + L.keyRefMax

/-- The longest header (`HEADER_MAX`). -/
def headerMax : ℕ := header + L.maxRoot

/-- How long a record is. -/
def recordLen (e : Entry) : ℕ :=
  recHeader + e.key.length + e.contentType.length + e.keyRef.length

/-- How long a manifest is (`encoded_len`). -/
def encodedLen (root : Bytes) (es : List Entry) : ℕ :=
  es.foldl (fun n e => n + recordLen e) (header + root.length)

def checkRecord (e : Entry) : Except ManifestError Unit := do
  need (e.key.length ≤ L.maxPath) (.tooLong e.key.length L.maxPath)
  need (e.contentType.length ≤ L.contentTypeMax) (.tooLong e.contentType.length L.contentTypeMax)
  need (e.keyRef.length ≤ L.keyRefMax) (.tooLong e.keyRef.length L.keyRefMax)
  need (e.kind ≤ lastKind) (.badKind e.kind)

/-- A header that declares `count` records. -/
def encodeHeader (room : ℕ) (root : Bytes) (count : ℕ) : Except ManifestError Bytes := do
  need (root.length ≤ L.maxRoot) (.tooLong root.length L.maxRoot)
  need (header + root.length ≤ room) (.bufferTooSmall (header + root.length) room)
  return (headerFields root count).flatten

def encodeRecord (room : ℕ) (e : Entry) : Except ManifestError Bytes := do
  checkRecord L e
  need (recordLen e ≤ room) (.bufferTooSmall (recordLen e) room)
  return (recordFields e).flatten

/-- Records one after another. -/
def encodeRecords : ℕ → List Entry → Except ManifestError Bytes
  | _, [] => .ok []
  | room, e :: es => do
    let r ← encodeRecord L room e
    let rs ← encodeRecords (room - r.length) es
    return r ++ rs

def encode (room : ℕ) (root : Bytes) (es : List Entry) : Except ManifestError Bytes := do
  need (es.length ≤ maxEntries) (.tooManyEntries es.length maxEntries)
  es.forM (checkRecord L)
  need (encodedLen root es ≤ room) (.bufferTooSmall (encodedLen root es) room)
  let h ← encodeHeader L room root es.length
  let rs ← encodeRecords L (room - h.length) es
  return h ++ rs

/-! ## Reading -/

/-- The root, the count and the length of the header. -/
def splitHeader (src : Bytes) : Except ManifestError ((Bytes × ℕ) × ℕ) := do
  need (header ≤ src.length) .truncated
  need (slice src 0 4 = magic) .badMagic
  let rootLen := num src 8 2
  need (rootLen ≤ L.maxRoot) (.tooLong rootLen L.maxRoot)
  need (header + rootLen ≤ src.length) .truncated
  return ((slice src header rootLen, num src 4 4), header + rootLen)

/-- The same, once the header is there. -/
def readHeader (src : Bytes) : Except ManifestError (Option ((Bytes × ℕ) × ℕ)) :=
  match splitHeader L src with
  | .ok h => .ok (some h)
  | .error .truncated => .ok none
  | .error e => .error e

/-- What the header of a record says is checked before the record is there. -/
def checkStated (src : Bytes) : Except ManifestError Unit := do
  let keyLen := num src 32 2
  let kind := src.getD 34 0
  let ctLen := num src 43 1
  let refLen := num src 44 1
  let hold := src.getD 53 0
  need (keyLen ≤ L.maxPath) (.tooLong keyLen L.maxPath)
  need (ctLen ≤ L.contentTypeMax) (.tooLong ctLen L.contentTypeMax)
  need (refLen ≤ L.keyRefMax) (.tooLong refLen L.keyRefMax)
  need (hold ≤ 1) (.badHold hold)
  need (kind ≤ lastKind) (.badKind kind)

/-- How long the record at the front is. -/
def statedLen (src : Bytes) : ℕ := recHeader + num src 32 2 + num src 43 1 + num src 44 1

/-- The entry of the record at the front. -/
def entryAt (src : Bytes) : Entry where
  key := slice src recHeader (num src 32 2)
  digest := FixedBytes.ofBytes 32 (slice src 0 32)
  kind := src.getD 34 0
  size := u64At src 35
  contentType := slice src (recHeader + num src 32 2) (num src 43 1)
  keyRef := slice src (recHeader + num src 32 2 + num src 43 1) (num src 44 1)
  retainUntilMs := u64At src 45
  hold := src.getD 53 0 != 0

/-- The record at the front and its length, once it is there. -/
def readRecord (src : Bytes) : Except ManifestError (Option (Entry × ℕ)) :=
  if src.length < recHeader then .ok none
  else do
    checkStated L src
    if src.length < statedLen src then return none
    else return some (entryAt src, statedLen src)

/-- What a manifest says of itself. -/
def peek (src : Bytes) : Except ManifestError (Bytes × ℕ) := do
  let h ← splitHeader L src
  return h.1

/-- Visit every entry: the entries that were visited, and the count or an error. -/
def forEach (src : Bytes) : List Entry × Except ManifestError ℕ :=
  match splitHeader L src with
  | .error e => ([], .error e)
  | .ok ((_, count), o) =>
    let visited := Refill.walk (readRecord L) .truncated count (src.drop o)
    (visited.1, visited.2.map fun _ => count)

/-! ## Where the fields stand -/

/-- The bytes of a header. -/
def headerBytes (root : Bytes) (count : ℕ) : Bytes := (headerFields root count).flatten

/-- The bytes of a record. -/
def recordBytes (e : Entry) : Bytes := (recordFields e).flatten

/-- The bytes of records in a row. -/
def recordsBytes (es : List Entry) : Bytes := (es.map recordBytes).flatten

/-- An entry that a manifest carries. -/
structure Entry.Passes (L : Limits) (e : Entry) : Prop where
  key : e.key.length ≤ L.maxPath
  contentType : e.contentType.length ≤ L.contentTypeMax
  keyRef : e.keyRef.length ≤ L.keyRefMax
  kind : e.kind ≤ lastKind

variable {L : Limits} {src t root : Bytes} {e : Entry} {es : List Entry} {n count room : ℕ}

@[simp] theorem recordsBytes_cons (e : Entry) (es : List Entry) :
    recordsBytes (e :: es) = recordBytes e ++ recordsBytes es := rfl

@[simp] theorem length_headerBytes (root : Bytes) (count : ℕ) :
    (headerBytes root count).length = header + root.length := by
  simp [headerBytes, headerFields, header, magic]
  omega

@[simp] theorem length_recordBytes (e : Entry) : (recordBytes e).length = recordLen e := by
  simp [recordBytes, recordFields, recordLen, recHeader, length_fixed]
  omega

theorem encodedLen_eq (root : Bytes) (es : List Entry) :
    encodedLen root es = header + root.length + (recordsBytes es).length := by
  have hfold : ∀ n, es.foldl (fun n e => n + recordLen e) n = n + (recordsBytes es).length := by
    induction es with
    | nil => exact fun _ => rfl
    | cons e es ih =>
      intro n
      rw [List.foldl_cons, ih, recordsBytes_cons, List.length_append, length_recordBytes]
      omega
  exact hfold _

theorem need_bind_eq_ok {α : Type} {c : Prop} [Decidable c] {err : ManifestError} {v : α}
    {f : Unit → Except ManifestError α} : (need c err >>= f) = .ok v ↔ c ∧ f () = .ok v := by
  by_cases h : c
  · rw [need, if_pos h]
    exact (and_iff_right h).symm
  · rw [need, if_neg h]
    exact ⟨fun hf => (by cases hf), fun hf => absurd hf.1 h⟩

theorem headerFields_front (hroot : FitsTwo root) (hcount : count ≤ maxEntries) :
    headerBytes root count <+: src ↔ header + root.length ≤ src.length ∧ slice src 0 4 = magic ∧
      num src 4 4 = count ∧ num src 8 2 = root.length ∧ slice src header root.length = root := by
  rw [maxEntries] at hcount
  rw [headerBytes, flatten_prefix_iff]
  simp only [headerFields, header, magic, length_leBytes, List.length_cons, List.length_nil, endAt,
    StandAt, Nat.reduceAdd, Nat.zero_add, and_true]
  refine and_congr_right fun hlen => ?_
  simp (disch := omega) only [slice_eq_num]

theorem recordFields_front (hkey : FitsTwo e.key) (hct : FitsOne e.contentType)
    (href : FitsOne e.keyRef) :
    recordBytes e <+: src ↔ recordLen e ≤ src.length ∧ slice src 0 32 = e.digest.val ∧
      num src 32 2 = e.key.length ∧ src.getD 34 0 = e.kind ∧ u64At src 35 = e.size ∧
      num src 43 1 = e.contentType.length ∧ num src 44 1 = e.keyRef.length ∧
      u64At src 45 = e.retainUntilMs ∧ src.getD 53 0 = flagByte e.hold ∧
      slice src recHeader e.key.length = e.key ∧
      slice src (recHeader + e.key.length) e.contentType.length = e.contentType ∧
      slice src (recHeader + e.key.length + e.contentType.length) e.keyRef.length = e.keyRef := by
  rw [recordBytes, flatten_prefix_iff]
  simp only [recordFields, recordLen, recHeader, length_leBytes, length_fixed,
    List.length_singleton, endAt, StandAt, Nat.reduceAdd, Nat.zero_add, and_true]
  refine and_congr_right fun hlen => ?_
  simp (disch := omega) only [slice_eq_byte, slice_eq_num, slice_eq_u64]

/-! ## What is read -/

theorem splitHeader_eq_ok (hL : L.FitsWire) :
    splitHeader L src = .ok ((root, count), n) ↔ root.length ≤ L.maxRoot ∧ count ≤ maxEntries ∧
      headerBytes root count <+: src ∧ n = header + root.length := by
  have hmax := hL.root
  simp only [splitHeader, need_bind_eq_ok, pure, Except.pure, Except.ok.injEq, Prod.mk.injEq]
  constructor
  · rintro ⟨hhdr, hmagic, hfit, hlen, ⟨rfl, rfl⟩, rfl⟩
    have hcount : num src 4 4 ≤ maxEntries := Nat.le_of_lt_succ (num_lt src 4 4)
    have hroot := length_slice hlen
    refine ⟨by rwa [hroot], hcount, (headerFields_front (fitsTwo_slice hlen) hcount).mpr ?_, by rw [hroot]⟩
    rw [hroot]
    exact ⟨hlen, hmagic, rfl, rfl, rfl⟩
  · rintro ⟨hfit, hcount, hfront, rfl⟩
    obtain ⟨hlen, hmagic, hnum, hrl, hroot⟩ :=
      (headerFields_front (Nat.lt_of_le_of_lt hfit hmax) hcount).mp hfront
    rw [hrl]
    exact ⟨by omega, hmagic, hfit, hlen, ⟨hroot, hnum⟩, rfl⟩

theorem eq_flagByte_of_le {b : UInt8} (h : b ≤ 1) : b = flagByte (b != 0) := by
  have hle : b.toNat ≤ 1 := UInt8.le_iff_toNat_le.mp h
  rcases Nat.le_one_iff_eq_zero_or_eq_one.mp hle with h0 | h1
  · have hb : b = 0 := UInt8.toNat_inj.mp h0
    rw [hb]
    rfl
  · have hb : b = 1 := UInt8.toNat_inj.mp h1
    rw [hb]
    rfl

theorem checkStated_eq_ok {u : Unit} : checkStated L src = .ok u ↔ num src 32 2 ≤ L.maxPath ∧
    num src 43 1 ≤ L.contentTypeMax ∧ num src 44 1 ≤ L.keyRefMax ∧ src.getD 53 0 ≤ 1 ∧
    src.getD 34 0 ≤ lastKind := by
  have hlast : ∀ {c : Prop} [Decidable c] {err : ManifestError}, need c err = .ok u ↔ c := by
    intro c _ err
    unfold need
    split <;> simp [*]
  simp only [checkStated, need_bind_eq_ok, hlast]

/-- A record is read when it is all there and its header passes. -/
theorem readRecord_eq_some_iff {p : Entry × ℕ} : readRecord L src = .ok (some p) ↔
    recHeader ≤ src.length ∧ checkStated L src = .ok () ∧ statedLen src ≤ src.length ∧
      p = (entryAt src, statedLen src) := by
  unfold readRecord
  split
  · next h => exact ⟨fun hf => (by cases hf), fun hf => absurd hf.1 (Nat.not_le.mpr h)⟩
  next h =>
  rw [and_iff_right (Nat.not_lt.mp h)]
  cases checkStated L src with
  | error err => exact ⟨fun hf => (by cases hf), fun hf => (by cases hf.1)⟩
  | ok u =>
    show (if _ then _ else _) = _ ↔ _
    rw [and_iff_right (by rfl)]
    split
    · next hlt => exact ⟨fun hf => (by cases hf), fun hf => absurd hf.1 (Nat.not_le.mpr hlt)⟩
    next hle =>
    exact ⟨fun hf => (by cases hf; exact ⟨Nat.not_lt.mp hle, rfl⟩), fun hf => (by rw [hf.2]; rfl)⟩

theorem readRecord_eq_some (hL : L.FitsWire) :
    readRecord L src = .ok (some (e, n)) ↔
      e.Passes L ∧ recordBytes e <+: src ∧ n = recordLen e := by
  have hpath := hL.path
  have hct := hL.contentType
  have href := hL.keyRef
  rw [readRecord_eq_some_iff, checkStated_eq_ok, Prod.mk.injEq]
  constructor
  · rintro ⟨hhdr, ⟨hk, hc, hr, hh, hkind⟩, hlen, rfl, rfl⟩
    unfold statedLen at hlen
    have hkey : (entryAt src).key.length = num src 32 2 := length_slice (by omega)
    have hctype : (entryAt src).contentType.length = num src 43 1 := length_slice (by omega)
    have hkref : (entryAt src).keyRef.length = num src 44 1 := length_slice (by omega)
    have hstated : recordLen (entryAt src) = statedLen src := by
      rw [recordLen, hkey, hctype, hkref, statedLen]
    refine ⟨⟨hkey ▸ hk, hctype ▸ hc, hkref ▸ hr, hkind⟩, ?_, hstated.symm⟩
    have h32 : (32 : ℕ) ≤ src.length := by rw [recHeader] at hhdr; omega
    rw [recordFields_front (by omega) (by omega) (by omega), hstated, hkey, hctype, hkref]
    exact ⟨hlen, ((slice_eq_fixed (by omega)).mpr rfl), rfl, rfl, rfl, rfl, rfl, rfl,
      eq_flagByte_of_le hh, rfl, rfl, rfl⟩
  · rintro ⟨⟨hk, hc, hr, hkind⟩, hfront, rfl⟩
    obtain ⟨hlen, hdigest, hkl, hkd, hsize, hcl, hrl, hretain, hhold, hkey, hctype, hkref⟩ :=
      (recordFields_front (by omega) (by omega) (by omega)).mp hfront
    have hstated : statedLen src = recordLen e := by rw [statedLen, hkl, hcl, hrl, recordLen]
    have hhdr : recHeader ≤ src.length := by
      rw [recordLen] at hlen
      omega
    have hhold1 : src.getD 53 0 ≤ 1 := by
      rw [hhold]
      cases e.hold <;> decide
    refine ⟨hhdr, ⟨by rwa [hkl], by rwa [hcl], by rwa [hrl], hhold1, by rwa [hkd]⟩,
      by rwa [hstated], ?_, hstated.symm⟩
    have h32 : (32 : ℕ) ≤ src.length := by rw [recHeader] at hhdr; omega
    obtain ⟨key, digest, kind, size, contentType, keyRef, retain, hold⟩ := e
    simp only [entryAt, Entry.mk.injEq]
    rw [hkl, hcl, hrl]
    exact ⟨hkey.symm, ((slice_eq_fixed (by omega)).mp hdigest).symm, hkd.symm, hsize.symm,
      hctype.symm, hkref.symm, hretain.symm, (eq_flagByte hhold).symm⟩

/-! ## Reading and what is behind -/

theorem num_append {a n : ℕ} (h : a + n ≤ src.length) (t : Bytes) :
    num (src ++ t) a n = num src a n := (num_of_front (List.prefix_append src t) h).symm

theorem getD_append {a : ℕ} (h : a < src.length) (t : Bytes) :
    (src ++ t).getD a 0 = src.getD a 0 := (getD_of_front (List.prefix_append src t) h).symm

theorem statedLen_append (h : recHeader ≤ src.length) (t : Bytes) :
    statedLen (src ++ t) = statedLen src := by
  rw [recHeader] at h
  rw [statedLen, statedLen, num_append (by omega), num_append (by omega), num_append (by omega)]

theorem checkStated_append (h : recHeader ≤ src.length) (t : Bytes) :
    checkStated L (src ++ t) = checkStated L src := by
  rw [recHeader] at h
  unfold checkStated
  rw [num_append (by omega), num_append (by omega), num_append (by omega), getD_append (by omega),
    getD_append (by omega)]

theorem entryAt_append (h : statedLen src ≤ src.length) (t : Bytes) :
    entryAt (src ++ t) = entryAt src := by
  have hhdr : (54 : ℕ) ≤ src.length := by
    rw [statedLen, recHeader] at h
    omega
  rw [statedLen] at h
  simp (disch := omega) only [entryAt, u64At, num_append, getD_append, slice_append_of_le]

/-- A record is there, or refused, whatever is behind it. -/
theorem readRecord_append (h : readRecord L src ≠ .ok none) (t : Bytes) :
    readRecord L (src ++ t) = readRecord L src := by
  have hhdr : recHeader ≤ src.length := by
    by_contra hlt
    exact h (if_pos (Nat.not_le.mp hlt))
  have hhdr' : ¬ (src ++ t).length < recHeader := by
    rw [List.length_append]
    omega
  unfold readRecord at h ⊢
  rw [if_neg (Nat.not_lt.mpr hhdr)] at h
  rw [if_neg hhdr', if_neg (Nat.not_lt.mpr hhdr), checkStated_append hhdr, statedLen_append hhdr]
  cases hc : checkStated L src with
  | error e => rfl
  | ok u =>
    have hlen : statedLen src ≤ src.length := by
      by_contra hlt
      rw [hc] at h
      exact h (if_pos (Nat.not_le.mp hlt))
    have hlen' : ¬ (src ++ t).length < statedLen src := by
      rw [List.length_append]
      omega
    show (if _ then _ else _) = (if _ then _ else _)
    rw [if_neg hlen', if_neg (Nat.not_lt.mpr hlen), entryAt_append hlen]

/-- A header is there, or refused, whatever is behind it. -/
theorem splitHeader_append (h : splitHeader L src ≠ .error .truncated) (t : Bytes) :
    splitHeader L (src ++ t) = splitHeader L src := by
  have hhdr : header ≤ src.length := by
    by_contra hlt
    refine h ?_
    rw [splitHeader, need, if_neg hlt]
    rfl
  have hhdr' : header ≤ (src ++ t).length := by
    rw [List.length_append]
    omega
  have h10 : (10 : ℕ) ≤ src.length := hhdr
  unfold splitHeader at h ⊢
  simp only [need, if_pos hhdr, if_pos hhdr'] at h ⊢
  rw [slice_append_of_le (by omega), num_append (by omega), num_append (by omega)]
  by_cases hmagic : slice src 0 4 = magic
  · simp only [if_pos hmagic] at h ⊢
    by_cases hroot : num src 8 2 ≤ L.maxRoot
    · simp only [if_pos hroot] at h ⊢
      by_cases hlen : header + num src 8 2 ≤ src.length
      · have hlen' : header + num src 8 2 ≤ (src ++ t).length := by
          rw [List.length_append]
          omega
        rw [if_pos hlen, if_pos hlen', slice_append_of_le hlen]
      · rw [if_neg hlen] at h
        exact absurd rfl h
    · simp only [if_neg hroot]
      rfl
  · simp only [if_neg hmagic]
    rfl

theorem readHeader_eq_some {h : (Bytes × ℕ) × ℕ} :
    readHeader L src = .ok (some h) ↔ splitHeader L src = .ok h := by
  unfold readHeader
  cases splitHeader L src with
  | ok h' => simp
  | error e => cases e <;> simp

theorem readHeader_eq_none :
    readHeader L src = .ok none ↔ splitHeader L src = .error .truncated := by
  unfold readHeader
  cases splitHeader L src with
  | ok h' => simp
  | error e => cases e <;> simp

/-- A header that is waited for is not longer than a header can be. -/
theorem length_lt_of_truncated (h : splitHeader L src = .error .truncated) :
    src.length < headerMax L := by
  by_contra hlt
  have hfull : header + L.maxRoot ≤ src.length := Nat.not_lt.mp hlt
  unfold splitHeader at h
  simp only [need, if_pos (Nat.le_of_add_right_le hfull)] at h
  by_cases hmagic : slice src 0 4 = magic
  · by_cases hroot : num src 8 2 ≤ L.maxRoot
    · simp only [if_pos hmagic, if_pos hroot, if_pos (Nat.le_trans (Nat.add_le_add_left hroot _) hfull)]
        at h
      cases h
    · simp only [if_pos hmagic, if_neg hroot] at h
      cases h
  · simp only [if_neg hmagic] at h
    cases h

/-- A record that is waited for is not longer than a record can be. -/
theorem length_lt_of_waiting (h : readRecord L src = .ok none) : src.length < recordMax L := by
  unfold readRecord at h
  split at h
  · unfold recordMax
    omega
  cases hc : checkStated L src with
  | error e =>
    rw [hc] at h
    cases h
  | ok u =>
    obtain ⟨hk, hct, hr, -, -⟩ := checkStated_eq_ok.mp hc
    by_contra hlt
    have hle : ¬ src.length < statedLen src := by
      unfold recordMax at hlt
      unfold statedLen
      omega
    rw [hc] at h
    change (if _ then _ else _) = _ at h
    rw [if_neg hle] at h
    cases h

/-- **Headers are read off the front**, from a buffer that has room for one. -/
theorem lawful_readHeader (hL : L.FitsWire) {cap : ℕ} (hcap : headerMax L ≤ cap) :
    Refill.Lawful (readHeader L) cap where
  le_length {src a n} h := by
    obtain ⟨root, count⟩ := a
    obtain ⟨-, -, hfront, rfl⟩ := (splitHeader_eq_ok hL).mp (readHeader_eq_some.mp h)
    exact length_headerBytes root count ▸ hfront.length_le
  append h t := by
    unfold readHeader
    rw [splitHeader_append fun ht => h (readHeader_eq_none.mpr ht)]
  ne_none_of_full hfull h :=
    absurd (length_lt_of_truncated (readHeader_eq_none.mp h)) (Nat.not_lt.mpr (hcap.trans hfull))

/-- **Records are read off the front**, from a buffer that has room for one. -/
theorem lawful_readRecord (hL : L.FitsWire) {cap : ℕ} (hcap : recordMax L ≤ cap) :
    Refill.Lawful (readRecord L) cap where
  le_length {src e n} h := by
    obtain ⟨-, hfront, rfl⟩ := (readRecord_eq_some hL).mp h
    exact length_recordBytes e ▸ hfront.length_le
  append h t := readRecord_append h t
  ne_none_of_full hfull h :=
    absurd (length_lt_of_waiting h) (Nat.not_lt.mpr (hcap.trans hfull))

/-! ## Records in a row -/

/-- What was written is visited, with whatever is behind it left. -/
theorem walk_recordsBytes (hL : L.FitsWire) (hes : ∀ e ∈ es, e.Passes L) (t : Bytes) :
    Refill.walk (readRecord L) .truncated es.length (recordsBytes es ++ t) = (es, .ok t) := by
  induction es with
  | nil => rfl
  | cons e es ih =>
    have hread : readRecord L (recordsBytes (e :: es) ++ t) = .ok (some (e, recordLen e)) := by
      rw [recordsBytes_cons, List.append_assoc]
      exact (readRecord_eq_some hL).mpr ⟨hes e List.mem_cons_self, List.prefix_append _ _, rfl⟩
    have hdrop : (recordsBytes (e :: es) ++ t).drop (recordLen e) = recordsBytes es ++ t := by
      rw [recordsBytes_cons, List.append_assoc, ← length_recordBytes, List.drop_left]
    rw [List.length_cons, Refill.walk_got hread, hdrop,
      ih fun e' he' => hes e' (List.mem_cons_of_mem e he')]

/-- What is visited was written, one record after another. -/
theorem eq_of_walk (hL : L.FitsWire) (h : Refill.walk (readRecord L) .truncated n src = (es, .ok t)) :
    (∀ e ∈ es, e.Passes L) ∧ src = recordsBytes es ++ t := by
  induction n generalizing src es with
  | zero =>
    cases h
    exact ⟨fun e he => (by cases he), rfl⟩
  | succ n ih =>
    unfold Refill.walk at h
    split at h
    · cases h
    · cases h
    · next e k hread =>
      obtain ⟨rfl, hok⟩ := Prod.mk.inj h
      obtain ⟨hpass, ⟨u, rfl⟩, rfl⟩ := (readRecord_eq_some hL).mp hread
      obtain ⟨hall, hrest⟩ := ih (Prod.ext rfl hok)
      rw [← length_recordBytes, List.drop_left] at hrest
      refine ⟨fun e' he' => ?_, ?_⟩
      · rcases List.mem_cons.mp he' with rfl | he'
        · exact hpass
        · exact hall e' he'
      · rw [recordsBytes_cons, List.append_assoc, ← length_recordBytes, List.drop_left, ← hrest]

/-! ## What is written -/

theorem bind_eq_ok {α β : Type} {x : Except ManifestError α} {f : α → Except ManifestError β}
    {w : β} : (x >>= f) = .ok w ↔ ∃ a, x = .ok a ∧ f a = .ok w := by
  cases x with
  | error e => exact ⟨fun h => (by cases h), fun ⟨_, h, _⟩ => (by cases h)⟩
  | ok a => exact ⟨fun h => ⟨a, rfl, h⟩, fun ⟨_, ha, h⟩ => (by cases ha; exact h)⟩

theorem need_eq_ok {c : Prop} [Decidable c] {err : ManifestError} {u : Unit} :
    need c err = .ok u ↔ c := by
  unfold need
  split <;> simp [*]

theorem checkRecord_eq_ok {u : Unit} : checkRecord L e = .ok u ↔ e.Passes L := by
  simp only [checkRecord, need_bind_eq_ok, need_eq_ok]
  exact ⟨fun ⟨hk, hc, hr, hkind⟩ => ⟨hk, hc, hr, hkind⟩, fun ⟨hk, hc, hr, hkind⟩ => ⟨hk, hc, hr, hkind⟩⟩

theorem encodeHeader_eq_ok {r : Bytes} : encodeHeader L room root count = .ok r ↔
    root.length ≤ L.maxRoot ∧ header + root.length ≤ room ∧ r = headerBytes root count := by
  simp only [encodeHeader, need_bind_eq_ok, pure, Except.pure, Except.ok.injEq]
  exact and_congr_right fun _ => and_congr_right fun _ => eq_comm

theorem encodeRecord_eq_ok {r : Bytes} : encodeRecord L room e = .ok r ↔
    e.Passes L ∧ recordLen e ≤ room ∧ r = recordBytes e := by
  simp only [encodeRecord, bind_eq_ok, checkRecord_eq_ok, need_eq_ok, pure, Except.pure,
    Except.ok.injEq, exists_const]
  exact and_congr_right fun _ => and_congr_right fun _ => eq_comm

theorem encodeRecords_eq_ok (hes : ∀ e ∈ es, e.Passes L)
    (hroom : (recordsBytes es).length ≤ room) :
    encodeRecords L room es = .ok (recordsBytes es) := by
  induction es generalizing room with
  | nil => rfl
  | cons e es ih =>
    rw [recordsBytes_cons, List.length_append, length_recordBytes] at hroom
    have hhead : encodeRecord L room e = .ok (recordBytes e) :=
      encodeRecord_eq_ok.mpr ⟨hes e List.mem_cons_self, by omega, rfl⟩
    have hroom' : (recordsBytes es).length ≤ room - (recordBytes e).length := by
      rw [length_recordBytes]
      omega
    have hrest := ih (fun e' he' => hes e' (List.mem_cons_of_mem e he')) hroom'
    rw [encodeRecords, hhead]
    show (encodeRecords L (room - (recordBytes e).length) es >>= _) = _
    rw [hrest]
    rfl

theorem forM_checkRecord {u : Unit} :
    es.forM (checkRecord L) = .ok u ↔ ∀ e ∈ es, e.Passes L := by
  induction es with
  | nil => exact ⟨fun _ e he => (by cases he), fun _ => rfl⟩
  | cons e es ih =>
    show (checkRecord L e >>= fun _ => es.forM (checkRecord L)) = _ ↔ _
    rw [bind_eq_ok, List.forall_mem_cons]
    constructor
    · rintro ⟨u, hhead, hrest⟩
      exact ⟨checkRecord_eq_ok.mp hhead, ih.mp hrest⟩
    · rintro ⟨hhead, hrest⟩
      exact ⟨(), checkRecord_eq_ok.mpr hhead, ih.mpr hrest⟩

/-- **What is written**: the header that declares the entries, and their records in order. -/
theorem encode_eq_ok {m : Bytes} : encode L room root es = .ok m ↔
    (root.length ≤ L.maxRoot ∧ (∀ e ∈ es, e.Passes L) ∧ es.length ≤ maxEntries) ∧
      encodedLen root es ≤ room ∧ m = headerBytes root es.length ++ recordsBytes es := by
  have hlen := encodedLen_eq root es
  have hbytes := length_headerBytes root es.length
  simp only [encode, bind_eq_ok, need_eq_ok, forM_checkRecord, encodeHeader_eq_ok, pure, Except.pure,
    Except.ok.injEq, exists_const]
  constructor
  · rintro ⟨hcount, hes, hroom, h, ⟨hroot, -, rfl⟩, rs, hrs, rfl⟩
    rw [encodeRecords_eq_ok hes (by omega)] at hrs
    cases hrs
    exact ⟨⟨hroot, hes, hcount⟩, hroom, rfl⟩
  · rintro ⟨⟨hroot, hes, hcount⟩, hroom, rfl⟩
    have hroom' : (recordsBytes es).length ≤ room - (headerBytes root es.length).length := by omega
    exact ⟨hcount, hes, hroom, headerBytes root es.length, ⟨hroot, by omega, rfl⟩,
      recordsBytes es, encodeRecords_eq_ok hes hroom', rfl⟩

/-- **What is written is visited**, whatever is behind it. -/
theorem forEach_bytes (hL : L.FitsWire) (hroot : root.length ≤ L.maxRoot)
    (hes : ∀ e ∈ es, e.Passes L) (hcount : es.length ≤ maxEntries) (t : Bytes) :
    forEach L (headerBytes root es.length ++ recordsBytes es ++ t) = (es, .ok es.length) := by
  have hsplit : splitHeader L (headerBytes root es.length ++ recordsBytes es ++ t)
      = .ok ((root, es.length), header + root.length) :=
    (splitHeader_eq_ok hL).mpr ⟨hroot, hcount, List.append_assoc .. ▸ List.prefix_append _ _, rfl⟩
  have hdrop : (headerBytes root es.length ++ recordsBytes es ++ t).drop (header + root.length)
      = recordsBytes es ++ t := by
    rw [← length_headerBytes root es.length, List.append_assoc, List.drop_left]
  rw [forEach, hsplit]
  show ((Refill.walk _ _ _ (List.drop _ _)).1, Except.map _ (Refill.walk _ _ _ (List.drop _ _)).2) = _
  rw [hdrop, walk_recordsBytes hL hes]
  rfl

/-- **What is visited was all there**: as many entries as the header declares. -/
theorem eq_of_forEach (hL : L.FitsWire) (h : forEach L src = (es, .ok n)) :
    es.length = n ∧ ∃ root t, root.length ≤ L.maxRoot ∧ n ≤ maxEntries ∧
      peek L src = .ok (root, n) ∧ (∀ e ∈ es, e.Passes L) ∧
      src = headerBytes root n ++ recordsBytes es ++ t := by
  unfold forEach at h
  cases hs : splitHeader L src with
  | error e =>
    rw [hs] at h
    cases h
  | ok p =>
    obtain ⟨⟨root, count⟩, o⟩ := p
    rw [hs] at h
    obtain ⟨hvisited, hok⟩ := Prod.mk.inj h
    obtain ⟨hroot, hcount, ⟨t, rfl⟩, rfl⟩ := (splitHeader_eq_ok hL).mp hs
    rw [← length_headerBytes root count, List.drop_left] at hvisited hok
    cases hw : (Refill.walk (readRecord L) .truncated count t).2 with
    | error e =>
      rw [hw] at hok
      cases hok
    | ok u =>
      rw [hw] at hok
      cases hok
      have hwalk : Refill.walk (readRecord L) .truncated count t = (es, .ok u) :=
        Prod.ext hvisited hw
      obtain ⟨hpass, rfl⟩ := eq_of_walk hL hwalk
      refine ⟨Refill.length_walk hwalk, root, u, hroot, hcount, ?_, hpass, by rw [List.append_assoc]⟩
      rw [peek, hs]
      rfl

/-! ## Cuts, and the header written again -/

theorem splitHeader_take (h : splitHeader L src = .ok ((root, count), n)) (k : ℕ) :
    splitHeader L (src.take k) = .ok ((root, count), n) ∨
      splitHeader L (src.take k) = .error .truncated := by
  by_cases hcut : splitHeader L (src.take k) = .error .truncated
  · exact .inr hcut
  have hsame := splitHeader_append hcut (src.drop k)
  rw [List.take_append_drop] at hsame
  exact .inl (hsame.symm.trans h)

/-- **A cut is told**: it leaves all the entries, or it is an error. -/
theorem forEach_take (hL : L.FitsWire) (h : forEach L src = (es, .ok n)) (k : ℕ) :
    forEach L (src.take k) = (es, .ok n) ∨ (forEach L (src.take k)).2 = .error .truncated := by
  unfold forEach at h ⊢
  cases hs : splitHeader L src with
  | error e =>
    rw [hs] at h
    cases h
  | ok p =>
    obtain ⟨⟨root, count⟩, o⟩ := p
    rw [hs] at h
    obtain ⟨hvisited, hok⟩ := Prod.mk.inj h
    rcases splitHeader_take hs k with hcut | hcut
    · cases hw : (Refill.walk (readRecord L) .truncated count (src.drop o)).2 with
      | error e =>
        rw [hw] at hok
        cases hok
      | ok u =>
        rw [hw] at hok
        cases hok
        have hwalk : Refill.walk (readRecord L) .truncated count (src.drop o) = (es, .ok u) :=
          Prod.ext hvisited hw
        rw [hcut]
        dsimp only
        rw [List.drop_take]
        rcases Refill.walk_take (lawful_readRecord hL (Nat.le_refl _)) hwalk (k - o) with ⟨t, ht⟩ | ht
        · rw [ht]
          exact .inl rfl
        · rw [ht]
          exact .inr rfl
    · rw [hcut]
      exact .inr rfl

/-- **A manifest that is cut anywhere is refused.** -/
theorem forEach_cut (hL : L.FitsWire) (hroot : root.length ≤ L.maxRoot)
    (hes : ∀ e ∈ es, e.Passes L) (hcount : es.length ≤ maxEntries) {k : ℕ}
    (hk : k < encodedLen root es) :
    (forEach L ((headerBytes root es.length ++ recordsBytes es).take k)).2 = .error .truncated := by
  have hfull := forEach_bytes hL hroot hes hcount []
  rw [List.append_nil] at hfull
  rcases forEach_take hL hfull k with hsame | herr
  · obtain ⟨-, root', t, hroot', hn, -, -, heq⟩ := eq_of_forEach hL hsame
    have hfront : ∀ u, headerBytes root' es.length ++ recordsBytes es ++ u
        = headerBytes root' es.length ++ (recordsBytes es ++ u) := fun u => List.append_assoc ..
    -- The header that the cut has is the one that was written.
    have hcut : headerBytes root' es.length <+: headerBytes root es.length ++ recordsBytes es :=
      (heq ▸ hfront t ▸ List.prefix_append _ _ : headerBytes root' es.length <+: List.take k _).trans
        (List.take_prefix k _)
    have h' := (splitHeader_eq_ok hL).mpr ⟨hroot', hn, hcut, rfl⟩
    rw [(splitHeader_eq_ok hL).mpr ⟨hroot, hcount, List.prefix_append _ _, rfl⟩] at h'
    have hsame' : root.length = root'.length := by
      cases h'
      rfl
    have hlen := congrArg List.length heq
    rw [List.length_take, List.length_append, List.length_append, List.length_append,
      length_headerBytes, length_headerBytes] at hlen
    rw [encodedLen_eq] at hk
    omega
  · exact herr

/-- A header is written over another of the same root. -/
theorem overwrite_header (root : Bytes) (count count' : ℕ) (t : Bytes) :
    overwrite (headerBytes root count ++ t) 0 (headerBytes root count') =
      headerBytes root count' ++ t := by
  rw [overwrite, List.take_zero, List.nil_append, Nat.zero_add, length_headerBytes,
    ← length_headerBytes root count, List.drop_left]

end Loam.Manifest

import Loam.WireAnswers
import Loam.WireFields

/-!
# What a decoder of answers accepts

As for the requests: a decoder returns a value just when its fields are a front
of the string. Where a flag is a byte that only 0 or not 0 is read of, the
fields have that byte as it stands, and the value has what is read of it.
-/

namespace Loam

open Slices

variable {L : Limits} {src : Bytes} {α : Type} {v : α} {a n : ℕ}

/-- A field that is there is read, and the rest goes on. -/
theorem getField_bind_eq_some {f : Bytes → Option α} :
    (getField src a n >>= f) = some v ↔ a + n ≤ src.length ∧ f (slice src a n) = some v := by
  rw [getField]
  split
  · next h => exact (and_iff_right h).symm
  · next h => exact ⟨fun hf => absurd hf (Option.some_ne_none v).symm, fun hf => absurd hf.1 h⟩

/-- See `getField_bind_eq_some`. -/
theorem getByte_bind_eq_some {f : UInt8 → Option α} :
    (getByte src a >>= f) = some v ↔ a < src.length ∧ f (src.getD a 0) = some v := by
  rw [getByte]
  split
  · next h => exact (and_iff_right h).symm
  · next h => exact ⟨fun hf => absurd hf (Option.some_ne_none v).symm, fun hf => absurd hf.1 h⟩

theorem getU64_bind_eq_some {f : UInt64 → Option α} :
    (getU64 src a >>= f) = some v ↔ a + 8 ≤ src.length ∧ f (u64At src a) = some v := by
  rw [getU64]
  split
  · next h => exact (and_iff_right h).symm
  · next h => exact ⟨fun hf => absurd hf (Option.some_ne_none v).symm, fun hf => absurd hf.1 h⟩

theorem num_one (src : Bytes) (a : ℕ) : num src a 1 = (src.getD a 0).toNat := by
  rw [num]
  by_cases h : a < src.length
  · rw [slice_one_eq h 0]
    simp [leNat]
  · rw [slice, List.drop_eq_nil_of_le (by omega), List.getD_eq_getElem?_getD,
      List.getElem?_eq_none (by omega)]
    rfl

/-- Two parts stand in front, one behind the other. -/
theorem append_prefix_iff {p q : Bytes} :
    p ++ q <+: src ↔ p <+: src ∧ q <+: src.drop p.length := by
  constructor
  · rintro ⟨t, rfl⟩
    exact ⟨⟨q ++ t, (List.append_assoc _ _ _).symm⟩,
      ⟨t, by rw [List.append_assoc, List.drop_left]⟩⟩
  · rintro ⟨⟨t, rfl⟩, u, hu⟩
    rw [List.drop_left] at hu
    exact ⟨u, by rw [List.append_assoc, hu]⟩

/-! ## A binding -/

/-- The lengths of a binding fit the bytes they have. -/
structure Binding.FitsWire (b : Binding) : Prop where
  objectId : FitsOne b.objectId
  contentType : FitsOne b.metadata.contentType
  keyRef : FitsOne b.metadata.keyRef

/-- Where the content type of a binding has its length. -/
abbrev ctypeAt (b : Binding) : ℕ := 1 + b.objectId.length + 8 + 1 + 8 + 8

/-- Where the key reference of a binding has its length. -/
abbrev keyRefAt (b : Binding) : ℕ := ctypeAt b + 1 + b.metadata.contentType.length

/-- The fields of a binding stand in front, each where it is looked for. -/
theorem bindingFields_front {b : Binding} {hold : UInt8} (hb : b.FitsWire) :
    (bindingFields b hold).flatten <+: src ↔
      bindingLen b ≤ src.length ∧ (src.getD 0 0).toNat = b.objectId.length ∧
        slice src 1 b.objectId.length = b.objectId ∧
        u64At src (1 + b.objectId.length) = b.revision ∧
        src.getD (1 + b.objectId.length + 8) 0 = b.kind ∧
        u64At src (1 + b.objectId.length + 8 + 1) = b.metadata.stampMs ∧
        u64At src (1 + b.objectId.length + 8 + 1 + 8) = b.metadata.size ∧
        (src.getD (ctypeAt b) 0).toNat = b.metadata.contentType.length ∧
        slice src (ctypeAt b + 1) b.metadata.contentType.length = b.metadata.contentType ∧
        (src.getD (keyRefAt b) 0).toNat = b.metadata.keyRef.length ∧
        slice src (keyRefAt b + 1) b.metadata.keyRef.length = b.metadata.keyRef ∧
        u64At src (keyRefAt b + 1 + b.metadata.keyRef.length) = b.metadata.retainUntilMs ∧
        src.getD (keyRefAt b + 1 + b.metadata.keyRef.length + 8) 0 = hold := by
  obtain ⟨ho, hct, hkr⟩ := hb
  rw [flatten_prefix_iff]
  simp only [bindingFields, bindingLen, length_leBytes, List.length_singleton, endAt, StandAt,
    Nat.zero_add, and_true]
  refine and_congr_right fun hlen => ?_
  simp (disch := omega) only [slice_eq_byte, slice_eq_num, slice_eq_u64, num_one]

/-- A binding is taken off its own fields; of the hold only whether it is 0 counts. -/
theorem takeBinding_eq_some {b : Binding} {n : ℕ} :
    takeBinding src = some (b, n) ↔ b.FitsWire ∧ n = bindingLen b ∧
      ∃ hold : UInt8, (hold != 0) = b.metadata.hold ∧ (bindingFields b hold).flatten <+: src := by
  obtain ⟨revision, kind, oid, ⟨stampMs, size, ctype, keyRef, retain, held⟩⟩ := b
  simp only [takeBinding, getField_bind_eq_some, getByte_bind_eq_some, getU64_bind_eq_some, pure,
    Option.some.injEq, Prod.mk.injEq, Binding.mk.injEq, Meta.mk.injEq]
  constructor
  · rintro ⟨h1, h2, h3, h4, h5, h6, h7, h8, h9, h10, h11, h12,
      ⟨rfl, rfl, rfl, rfl, rfl, rfl, rfl, rfl, rfl⟩, rfl⟩
    refine ⟨?fits, ?_, _, rfl, (bindingFields_front ?fits).mpr ?_⟩
    · exact ⟨lt_of_eq_of_lt (length_slice (by omega)) (UInt8.toNat_lt _),
        lt_of_eq_of_lt (length_slice (by omega)) (UInt8.toNat_lt _),
        lt_of_eq_of_lt (length_slice (by omega)) (UInt8.toNat_lt _)⟩
    · simp (disch := omega) only [bindingLen, length_slice]
    · simp (disch := omega) only [bindingLen, ctypeAt, keyRefAt, length_slice, and_true]
      omega
  · rintro ⟨hb, rfl, hold, hheld, h⟩
    rw [bindingFields_front hb] at h
    simp only [bindingLen, ctypeAt, keyRefAt] at h
    obtain ⟨hlen, hol, hoid, rfl, rfl, rfl, rfl, hctl, hct, hkl, hkr, rfl, hh⟩ := h
    simp only [hol, hoid, hctl, hct, hkl, hkr, hh, hheld, bindingLen, and_true]
    omega

/-- A binding that is written is read, and takes the bytes it is said to. -/
theorem length_bindingFields (b : Binding) (hold : UInt8) :
    (bindingFields b hold).flatten.length = bindingLen b := by
  simp only [bindingFields, bindingLen, List.flatten_cons, List.flatten_nil, List.length_append,
    List.length_nil, length_leBytes, List.length_singleton]
  omega

/-! ## Entries of a page -/

/-- The fields of an entry, with the byte the hold of its binding has. -/
def entryFields (e : Bytes × Binding) (hold : UInt8) : List Bytes :=
  leBytes 2 e.1.length :: e.1 :: bindingFields e.2 hold

/-- The lengths of an entry fit their fields. -/
structure EntryFitsWire (e : Bytes × Binding) : Prop where
  path : FitsTwo e.1
  binding : e.2.FitsWire

/-- The bytes are the entry, but for the byte of the hold. -/
def EntrySpelt (e : Bytes × Binding) (g : Bytes) : Prop :=
  EntryFitsWire e ∧ ∃ hold : UInt8, (hold != 0) = e.2.metadata.hold ∧ g = (entryFields e hold).flatten

/-- How long an entry is. -/
theorem length_entryFields (e : Bytes × Binding) (hold : UInt8) :
    (entryFields e hold).flatten.length = 2 + e.1.length + bindingLen e.2 := by
  rw [entryFields, List.flatten_cons, List.flatten_cons, List.length_append, List.length_append,
    length_bindingFields, length_leBytes]
  omega

/-- The fields of an entry: its path, and then its binding. -/
theorem entryFields_front {e : Bytes × Binding} {hold : UInt8} (he : FitsTwo e.1) :
    (entryFields e hold).flatten <+: src ↔
      (2 + e.1.length ≤ src.length ∧ num src 0 2 = e.1.length ∧ slice src 2 e.1.length = e.1) ∧
        (bindingFields e.2 hold).flatten <+: src.drop (2 + e.1.length) := by
  have hsplit : (entryFields e hold).flatten
      = [leBytes 2 e.1.length, e.1].flatten ++ (bindingFields e.2 hold).flatten := by
    simp only [entryFields, List.flatten_cons, List.flatten_nil, List.append_nil, List.append_assoc]
  have hlen : [leBytes 2 e.1.length, e.1].flatten.length = 2 + e.1.length := by simp
  rw [hsplit, append_prefix_iff, hlen, flatten_prefix_iff]
  simp only [length_leBytes, endAt, StandAt, Nat.zero_add, and_true]
  refine and_congr_left fun _ => and_congr_right fun hle => ?_
  rw [slice_eq_num (by omega) he]

/-- So many entries are taken one behind the other. -/
theorem takeEntries_eq_some {n : ℕ} {es : List (Bytes × Binding)} :
    takeEntries n src = some es ↔ es.length = n ∧
      ∃ gs, List.Forall₂ EntrySpelt es gs ∧ gs.flatten <+: src := by
  induction n generalizing src es with
  | zero =>
    rw [takeEntries, Option.some.injEq, List.length_eq_zero_iff]
    constructor
    · rintro rfl
      exact ⟨rfl, [], .nil, List.nil_prefix⟩
    · rintro ⟨rfl, -⟩
      rfl
  | succ n ih =>
    simp only [takeEntries, getField_bind_eq_some]
    simp only [Option.bind_eq_bind, Option.bind_eq_some_iff, Prod.exists, takeBinding_eq_some, ih,
      pure, Option.some.injEq]
    constructor
    · rintro ⟨h2, hpath, b, len, ⟨hb, rfl, hold, hheld, hbind⟩, es, ⟨rfl, gs, hgs, hrest⟩, rfl⟩
      have hlen : (slice src 2 (leNat (slice src 0 2))).length = leNat (slice src 0 2) :=
        length_slice hpath
      have hfit : FitsTwo (slice src 2 (leNat (slice src 0 2))) :=
        lt_of_eq_of_lt hlen (num_lt src 0 2)
      refine ⟨rfl, _ :: gs, .cons ⟨⟨hfit, hb⟩, hold, hheld, rfl⟩ hgs, ?_⟩
      rw [List.flatten_cons, append_prefix_iff, entryFields_front hfit, length_entryFields]
      dsimp only
      rw [hlen]
      exact ⟨⟨⟨hpath, rfl, rfl⟩, hbind⟩, hrest⟩
    · rintro ⟨hlen, gs, hgs, hpre⟩
      cases hgs with
      | nil => exact absurd hlen (by simp)
      | @cons e g es gs he hgs =>
        obtain ⟨⟨hfit, hb⟩, hold, hheld, rfl⟩ := he
        rw [List.flatten_cons, append_prefix_iff, entryFields_front hfit, length_entryFields] at hpre
        obtain ⟨⟨⟨hle, hn, hs⟩, hbind⟩, hrest⟩ := hpre
        have hn' : leNat (slice src 0 2) = e.1.length := hn
        rw [hn', hs]
        exact ⟨by omega, hle, e.2, _, ⟨hb, rfl, hold, hheld, hbind⟩, es,
          ⟨Nat.succ.inj hlen, gs, hgs, hrest⟩, rfl⟩

/-! ## Answers -/

/-- An acknowledgement is read off just its own fields. -/
theorem decodeWriteAck_eq_ok {p : UInt8 × Bytes} :
    decodeWriteAck src = .ok p ↔ (isWriteOp p.1 ∧ p.2.length ≤ ackFenceMax) ∧
      (writeAckFields p.1 p.2).flatten <+: src := by
  obtain ⟨op, fence⟩ := p
  rw [flatten_prefix_iff]
  simp only [decodeWriteAck, require_bind_eq_ok, pure, Except.pure, Except.ok.injEq, Prod.mk.injEq]
  simp only [writeAckFields, length_leBytes, List.length_singleton, endAt, StandAt, Nat.reduceAdd,
    Nat.zero_add, and_true]
  constructor
  · rintro ⟨h1, hop, h2, hmax, hlen, rfl, rfl⟩
    have hfence : (slice src 2 (num src 1 1)).length = num src 1 1 := length_slice hlen
    rw [hfence]
    refine ⟨⟨hop, hmax⟩, hlen, ?_, ?_, rfl⟩
    · rw [slice_eq_byte h1]
    · rw [slice_eq_num h2 (num_lt src 1 1)]
  · rintro ⟨⟨hop, hmax⟩, hlen, h0, h1, h2⟩
    have hfit : fence.length < 256 ^ 1 := Nat.lt_of_le_of_lt hmax (by decide)
    rw [slice_eq_byte (by omega)] at h0
    rw [slice_eq_num (by omega) hfit] at h1
    simp only [h0, h1, h2, hop, hmax, hlen, and_true, true_and]
    omega

/-- A scan's answer; of the flag only whether it is 0 counts. -/
theorem decodeScanResp_eq_ok {op : UInt8} {p : Bool × UInt32} :
    decodeScanResp op src = .ok p ↔ ∃ flag : UInt8, (flag != 0) = p.1 ∧
      (flagFields op flag (leBytes 4 p.2.toNat)).flatten <+: src := by
  obtain ⟨b, next⟩ := p
  simp only [decodeScanResp, require_bind_eq_ok, pure, Except.pure, Except.ok.injEq, Prod.mk.injEq,
    flatten_prefix_iff]
  simp only [flagFields, length_leBytes, List.length_singleton, endAt, StandAt, Nat.reduceAdd,
    Nat.zero_add, and_true]
  constructor
  · rintro ⟨h6, rfl, rfl, rfl⟩
    refine ⟨src.getD 1 0, rfl, h6, ?_⟩
    simp (disch := omega) only [slice_eq_byte, slice_eq_u32, and_self]
  · rintro ⟨flag, rfl, h6, h⟩
    simp (disch := omega) only [slice_eq_byte, slice_eq_u32] at h
    obtain ⟨rfl, rfl, rfl⟩ := h
    exact ⟨h6, rfl, rfl, rfl⟩

theorem decodeGcReserveResp_eq_ok {b : Bool} :
    decodeGcReserveResp src = .ok b ↔ ∃ flag : UInt8, (flag != 0) = b ∧
      (flagFields opGcReserve flag []).flatten <+: src := by
  simp only [decodeGcReserveResp, require_bind_eq_ok, pure, Except.pure, Except.ok.injEq,
    flatten_prefix_iff]
  simp only [flagFields, List.length_singleton, List.length_nil, endAt, StandAt, Nat.reduceAdd,
    Nat.zero_add, and_true, slice, List.take_zero]
  constructor
  · rintro ⟨h2, hop, rfl⟩
    refine ⟨src.getD 1 0, rfl, h2, (slice_eq_byte (by omega)).mpr hop, (slice_eq_byte h2).mpr rfl⟩
  · rintro ⟨flag, rfl, h2, h0, h1⟩
    refine ⟨h2, (slice_eq_byte (by omega)).mp h0, ?_⟩
    rw [(slice_eq_byte h2).mp h1]

/-- A lease answer is read off just its own fields. -/
theorem decodeLeaseResp_eq_ok {p : UInt8 × UInt64 × UInt64} :
    decodeLeaseResp src = .ok p ↔ (leaseRespFields p.1 p.2.1 p.2.2).flatten <+: src := by
  obtain ⟨status, fence, expires⟩ := p
  rw [flatten_prefix_iff]
  simp only [decodeLeaseResp, require_bind_eq_ok, pure, Except.pure, Except.ok.injEq, Prod.mk.injEq]
  simp only [leaseRespFields, leaseRespLen, length_leBytes, List.length_singleton, endAt, StandAt,
    Nat.reduceAdd, Nat.zero_add, and_true]
  refine and_congr_right fun hlen => ?_
  simp (disch := omega) only [slice_eq_byte, slice_eq_u64]

/-- So is a volume's. -/
theorem decodeVolumeResp_eq_ok {p : UInt8 × UInt64} :
    decodeVolumeResp src = .ok p ↔ (volumeRespFields p.1 p.2).flatten <+: src := by
  obtain ⟨status, revision⟩ := p
  rw [flatten_prefix_iff]
  simp only [decodeVolumeResp, require_bind_eq_ok, pure, Except.pure, Except.ok.injEq, Prod.mk.injEq]
  simp only [volumeRespFields, volumeRespLen, length_leBytes, List.length_singleton, endAt, StandAt,
    Nat.reduceAdd, Nat.zero_add, and_true]
  refine and_congr_right fun hlen => ?_
  simp (disch := omega) only [slice_eq_byte, slice_eq_u64]

theorem volumeRootsFields_page_front {next : UInt32} {view : UInt64} {count : ℕ} {ds : Bytes}
    (hc : count < 256) :
    (volumeRootsFields next view count ds).flatten <+: src ↔
      volumeRootsHdr + ds.length ≤ src.length ∧ src.getD 0 0 = opVolumeRoots ∧ u32At src 1 = next ∧
        u64At src 5 = view ∧ num src 13 1 = count ∧ slice src volumeRootsHdr ds.length = ds := by
  rw [flatten_prefix_iff]
  simp only [volumeRootsFields, volumeRootsHdr, length_leBytes, List.length_singleton, endAt,
    StandAt, Nat.reduceAdd, Nat.zero_add, and_true]
  refine and_congr_right fun hlen => ?_
  simp (disch := omega) only [slice_eq_byte, slice_eq_num, slice_eq_u64, slice_eq_u32]

/-- A page of roots is whole digests, as many as it says. -/
theorem decodeVolumeRootsResp_eq_ok {p : UInt32 × UInt64 × Bytes} :
    decodeVolumeRootsResp src = .ok p ↔ ∃ count ≤ maxVolumeRoots,
      p.2.2.length = count * volumeRootDigest ∧
        (volumeRootsFields p.1 p.2.1 count p.2.2).flatten <+: src := by
  obtain ⟨next, view, ds⟩ := p
  simp only [decodeVolumeRootsResp, require_bind_eq_ok, pure, Except.pure, Except.ok.injEq,
    Prod.mk.injEq]
  constructor
  · rintro ⟨hhdr, hop, hmax, hlen, rfl, rfl, rfl⟩
    have hds : (slice src volumeRootsHdr (num src 13 1 * volumeRootDigest)).length
        = num src 13 1 * volumeRootDigest := length_slice hlen
    refine ⟨num src 13 1, hmax, hds, (volumeRootsFields_page_front (num_lt src 13 1)).mpr ?_⟩
    rw [hds]
    exact ⟨hlen, hop, rfl, rfl, rfl, rfl⟩
  · rintro ⟨count, hmax, hds, h⟩
    have hc : count < 256 := Nat.lt_of_le_of_lt hmax (by decide)
    obtain ⟨hlen, hop, rfl, rfl, hcount, hs⟩ := (volumeRootsFields_page_front hc).mp h
    rw [hds] at hlen hs
    rw [hcount, hs]
    exact ⟨by omega, hop, hmax, hlen, rfl, rfl, rfl⟩

/-! ### Lookup -/

theorem notFound_front {floor : UInt64} :
    [opLookup, lookupNotFound] ++ leBytes 8 floor.toNat <+: src ↔
      10 ≤ src.length ∧ src.getD 0 0 = opLookup ∧ src.getD 1 0 = lookupNotFound ∧
        u64At src 2 = floor := by
  have hflat : [opLookup, lookupNotFound] ++ leBytes 8 floor.toNat
      = [[opLookup], [lookupNotFound], leBytes 8 floor.toNat].flatten := by simp
  rw [hflat, flatten_prefix_iff]
  simp only [length_leBytes, List.length_singleton, endAt, StandAt, Nat.reduceAdd, Nat.zero_add,
    and_true]
  refine and_congr_right fun hlen => ?_
  simp (disch := omega) only [slice_eq_byte, slice_eq_u64]

theorem two_front {x y : UInt8} {p : Bytes} :
    [x, y] ++ p <+: src ↔
      (2 ≤ src.length ∧ src.getD 0 0 = x ∧ src.getD 1 0 = y) ∧ p <+: src.drop 2 := by
  have hflat : [x, y] = [[x], [y]].flatten := rfl
  rw [append_prefix_iff, hflat, flatten_prefix_iff]
  simp only [List.length_singleton, endAt, StandAt, Nat.reduceAdd, Nat.zero_add, and_true]
  refine and_congr_left fun _ => and_congr_right fun hlen => ?_
  simp (disch := omega) only [slice_eq_byte]

/-- A binding is reported found by just its own fields. -/
theorem decodeLookupResp_found {b : Binding} :
    decodeLookupResp src = .ok (.found b) ↔ b.FitsWire ∧ ∃ hold : UInt8,
      (hold != 0) = b.metadata.hold ∧
        [opLookup, lookupFound] ++ (bindingFields b hold).flatten <+: src := by
  simp only [decodeLookupResp, require_bind_eq_ok, two_front]
  by_cases hf : src.getD 1 0 = lookupNotFound
  · rw [if_pos hf, hf]
    simp [require_bind_eq_ok, pure, Except.pure, lookupNotFound, lookupFound]
  rw [if_neg hf]
  by_cases hg : src.getD 1 0 = lookupFound
  · rw [if_pos hg]
    cases ht : takeBinding (src.drop 2) with
    | none =>
      constructor
      · rintro ⟨-, -, h⟩
        cases h
      · rintro ⟨hb, hold, hheld, -, hpre⟩
        have hsome := takeBinding_eq_some.mpr ⟨hb, rfl, hold, hheld, hpre⟩
        rw [ht] at hsome
        cases hsome
    | some p =>
      obtain ⟨b', n⟩ := p
      have hsome := takeBinding_eq_some.mp ht
      simp only [pure, Except.pure, Except.ok.injEq, DecodedLookupResp.found.injEq]
      constructor
      · rintro ⟨hlen, hop, rfl⟩
        exact ⟨hsome.1, hsome.2.2.choose, hsome.2.2.choose_spec.1, ⟨hlen, hop, hg⟩,
          hsome.2.2.choose_spec.2⟩
      · rintro ⟨hb, hold, hheld, ⟨hlen, hop, -⟩, hpre⟩
        have hthat := takeBinding_eq_some.mpr ⟨hb, rfl, hold, hheld, hpre⟩
        rw [ht, Option.some.injEq, Prod.mk.injEq] at hthat
        exact ⟨hlen, hop, hthat.1⟩
  · rw [if_neg hg]
    constructor
    · rintro ⟨-, -, h⟩
      cases h
    · rintro ⟨-, -, -, ⟨-, -, h⟩, -⟩
      exact absurd h hg

/-- A name is reported missing with the floor of its revisions. -/
theorem decodeLookupResp_notFound {floor : UInt64} :
    decodeLookupResp src = .ok (.notFound floor) ↔
      [opLookup, lookupNotFound] ++ leBytes 8 floor.toNat <+: src := by
  simp only [decodeLookupResp, require_bind_eq_ok, notFound_front]
  by_cases hf : src.getD 1 0 = lookupNotFound
  · rw [if_pos hf]
    simp only [require_bind_eq_ok, pure, Except.pure, Except.ok.injEq,
      DecodedLookupResp.notFound.injEq, hf, true_and]
    constructor
    · rintro ⟨-, hop, hlen, hfloor⟩
      exact ⟨hlen, hop, hfloor⟩
    · rintro ⟨hlen, hop, hfloor⟩
      exact ⟨by omega, hop, hlen, hfloor⟩
  · rw [if_neg hf]
    constructor
    · rintro ⟨-, -, h⟩
      split at h
      · split at h <;> cases h
      · cases h
    · rintro ⟨-, -, h, -⟩
      exact absurd h hf

/-! ### List -/

theorem three_front {x y z : UInt8} {p : Bytes} :
    [x, y, z] ++ p <+: src ↔
      (3 ≤ src.length ∧ src.getD 0 0 = x ∧ src.getD 1 0 = y ∧ src.getD 2 0 = z) ∧
        p <+: src.drop 3 := by
  have hflat : [x, y, z] = [[x], [y], [z]].flatten := rfl
  rw [append_prefix_iff, hflat, flatten_prefix_iff]
  simp only [List.length_singleton, endAt, StandAt, Nat.reduceAdd, Nat.zero_add, and_true]
  refine and_congr_left fun _ => and_congr_right fun hlen => ?_
  simp (disch := omega) only [slice_eq_byte]

/-- A page is read off its entries; of `more` only whether it is 0 counts. -/
theorem decodeListResp_eq_ok {p : List (Bytes × Binding) × Bool} :
    decodeListResp src = .ok p ↔ p.1.length ≤ maxListPage ∧ ∃ more : UInt8, (more != 0) = p.2 ∧
      ∃ gs, List.Forall₂ EntrySpelt p.1 gs ∧
        [opList, UInt8.ofNat p.1.length, more] ++ gs.flatten <+: src := by
  obtain ⟨es, more⟩ := p
  simp only [decodeListResp, require_bind_eq_ok, three_front]
  constructor
  · rintro ⟨hlen, hop, hmax, h⟩
    cases ht : takeEntries (src.getD 1 0).toNat (src.drop 3) with
    | none =>
      rw [ht] at h
      cases h
    | some es' =>
      rw [ht] at h
      cases h
      obtain ⟨hcount, gs, hgs, hpre⟩ := takeEntries_eq_some.mp ht
      rw [hcount, UInt8.ofNat_toNat]
      exact ⟨hmax, src.getD 2 0, rfl, gs, hgs, ⟨hlen, hop, rfl, rfl⟩, hpre⟩
  · rintro ⟨hmax, m, rfl, gs, hgs, ⟨hlen, hop, hcount, rfl⟩, hpre⟩
    have hn : (src.getD 1 0).toNat = es.length := by
      rw [hcount, UInt8.toNat_ofNat_of_lt' (Nat.lt_of_le_of_lt hmax (by decide))]
    have ht := takeEntries_eq_some.mpr ⟨hn.symm, gs, hgs, hpre⟩
    rw [ht, hn]
    exact ⟨hlen, hop, hmax, rfl⟩

/-! ## What the writer of a page leaves -/

/-- What the writer puts is the fields of the entry. -/
theorem putEntry_eq (e : Bytes × Binding) :
    putEntry e.1 e.2 = (entryFields e (flagByte e.2.metadata.hold)).flatten := by
  rw [putEntry, putBinding, entryFields, List.flatten_cons, List.flatten_cons, List.append_assoc]

theorem length_putEntry (e : Bytes × Binding) :
    (putEntry e.1 e.2).length = 2 + e.1.length + bindingLen e.2 := by
  rw [putEntry_eq, length_entryFields]

/-- The count of a page that is not full does not wrap. -/
theorem push_count {w : ListWriter} (h : w.count.toNat < maxListPage) :
    (w.count + 1).toNat = w.count.toNat + 1 := by
  have hmax : maxListPage = 16 := rfl
  rw [UInt8.toNat_add]
  show (w.count.toNat + 1) % 256 = _
  omega

/-- **A page that is written is its entries**, at most as many as a page takes,
all in the buffer. -/
theorem foldlM_push {w w' : ListWriter} {es : List (Bytes × Binding)}
    (h : es.foldlM (fun w e => w.push e.1 e.2) w = some w') (hw : w.count.toNat ≤ maxListPage) :
    w'.body = w.body ++ (es.map fun e => putEntry e.1 e.2).flatten ∧
      w'.count.toNat = w.count.toNat + es.length ∧ w'.count.toNat ≤ maxListPage := by
  induction es generalizing w with
  | nil =>
    cases h
    exact ⟨by simp, rfl, hw⟩
  | cons e es ih =>
    rw [List.foldlM_cons] at h
    obtain ⟨w₁, hpush, hrest⟩ := Option.bind_eq_some_iff.mp h
    rw [ListWriter.push] at hpush
    split at hpush
    · cases hpush
    next hc =>
    cases hpush
    obtain ⟨-, hroom⟩ := not_or.mp hc
    have hcount := push_count (Nat.not_le.mp hroom)
    obtain ⟨hbody, hn, hle⟩ := ih hrest (by
      dsimp only
      rw [hcount]
      exact Nat.not_le.mp hroom)
    refine ⟨?_, ?_, hle⟩
    · rw [hbody, List.map_cons, List.flatten_cons, List.append_assoc]
    · rw [hn, hcount, List.length_cons]
      omega

/-- A page that is written has all its entries. -/
theorem encodeListResp_eq_some {room : ℕ} {es : List (Bytes × Binding)} {more : Bool} {r : Bytes}
    (h : encodeListResp room es more = some r) :
    es.length ≤ maxListPage ∧
      r = [opList, UInt8.ofNat es.length, flagByte more]
        ++ (es.map fun e => putEntry e.1 e.2).flatten := by
  rw [encodeListResp] at h
  obtain ⟨w, hnew, h⟩ := Option.bind_eq_some_iff.mp h
  obtain ⟨w', hfold, h⟩ := Option.bind_eq_some_iff.mp h
  cases h
  rw [ListWriter.new] at hnew
  split at hnew
  · cases hnew
  cases hnew
  obtain ⟨hbody, hn, hle⟩ := foldlM_push hfold (Nat.zero_le _)
  have hlen : es.length = w'.count.toNat := hn.symm ▸ (Nat.zero_add _).symm
  rw [ListWriter.finish, hbody, List.nil_append, hlen, UInt8.ofNat_toNat]
  exact ⟨hle, rfl⟩

/-- The writer takes the entries that fit. -/
theorem foldlM_push_of_room (w : ListWriter) {es : List (Bytes × Binding)}
    (hcount : w.count.toNat + es.length ≤ maxListPage)
    (hroom : 3 + w.body.length + (es.map fun e => putEntry e.1 e.2).flatten.length ≤ w.room) :
    (es.foldlM (fun (w : ListWriter) e => w.push e.1 e.2) w).isSome := by
  induction es generalizing w with
  | nil => rfl
  | cons e es ih =>
    rw [List.length_cons] at hcount
    rw [List.map_cons, List.flatten_cons, List.length_append, length_putEntry] at hroom
    rw [List.foldlM_cons, ListWriter.push, if_neg (by omega)]
    have hnext := push_count (w := w) (by omega)
    refine ih _ ?_ ?_
    · dsimp only
      omega
    · rw [List.length_append, length_putEntry]
      dsimp only
      omega

/-- Where there is room it is written. -/
theorem encodeListResp_of_room {room : ℕ} {es : List (Bytes × Binding)} {more : Bool}
    (hcount : es.length ≤ maxListPage)
    (hroom : 3 + (es.map fun e => putEntry e.1 e.2).flatten.length ≤ room) :
    encodeListResp room es more = some ([opList, UInt8.ofNat es.length, flagByte more]
      ++ (es.map fun e => putEntry e.1 e.2).flatten) := by
  have hnew : ListWriter.new room = some ⟨room, [], 0⟩ := if_neg (by omega)
  obtain ⟨w, hw⟩ := Option.isSome_iff_exists.mp
    (foldlM_push_of_room ⟨room, [], 0⟩ (by simpa using hcount) (by simpa using hroom))
  have hsome : encodeListResp room es more = some (w.finish more) := by
    rw [encodeListResp, hnew]
    show (es.foldlM (fun (w : ListWriter) e => w.push e.1 e.2) _ >>= fun w : ListWriter =>
      some (w.finish more)) = _
    rw [hw]
    rfl
  rw [hsome, (encodeListResp_eq_some hsome).2]

end Loam

import Loam.Wire

/-!
# What a decoder accepts

A decoder looks at the front of a string, at offsets that the lengths in the
header say. What it accepts is the fields of the value it returns, one after
another, with anything behind them. This module says so of each decoder: it
returns a value just when the fields of the value are a front of the string,
the lengths fit their fields, and the value passes the checks the decoder
makes. An encoder writes just these fields, so each round trip is read off.
-/

namespace Loam

open Slices

/-! ## Success -/

section Success

variable {L : Limits} {room : ℕ} {α : Type} {c : Prop} [Decidable c] {e : WireError} {v : α}

/-- A check that passes is passed, and the rest goes on. -/
theorem require_bind_eq_ok {f : Unit → Except WireError α} :
    (require c e >>= f) = .ok v ↔ c ∧ f () = .ok v := by
  by_cases h : c
  · rw [require, if_pos h]
    exact (and_iff_right h).symm
  · rw [require, if_neg h]
    exact ⟨fun hf => (by cases hf), fun hf => absurd hf.1 h⟩

/-- The key is within its ceilings, and the rest goes on. -/
theorem checkKey_bind_eq_ok {root path oid : Bytes} {f : Unit → Except WireError α} :
    (L.checkKey root path oid >>= f) = .ok v ↔ L.keyFits root path oid = true ∧ f () = .ok v := by
  rw [Limits.checkKey, bind_assoc, require_bind_eq_ok, bind_assoc, require_bind_eq_ok,
    require_bind_eq_ok, Limits.keyFits]
  simp only [Bool.and_eq_true, decide_eq_true_eq, and_assoc]

/-- What is written is all there, and fits the room. -/
theorem intoRoom_eq_ok {r s : Bytes} : intoRoom room r = .ok s ↔ r.length ≤ room ∧ r = s := by
  rw [intoRoom, require_bind_eq_ok]
  simp only [pure, Except.pure, Except.ok.injEq]

theorem decodeHold_bind_eq_ok {b : UInt8} {f : Bool → Except WireError α} :
    (decodeHold b >>= f) = .ok v ↔ ∃ h, b = flagByte h ∧ f h = .ok v := by
  rw [decodeHold]
  split
  · next h => exact ⟨fun hf => ⟨false, h, hf⟩, fun ⟨b', hb, hf⟩ => by
      cases b' with
      | false => exact hf
      | true => exact absurd (h.symm.trans hb) (by decide)⟩
  next h0 =>
  split
  · next h => exact ⟨fun hf => ⟨true, h, hf⟩, fun ⟨b', hb, hf⟩ => by
      cases b' with
      | false => exact absurd hb h0
      | true => exact hf⟩
  · next h1 => exact ⟨fun hf => (by cases hf), fun ⟨b', hb, _⟩ => by
      cases b' with
      | false => exact absurd hb h0
      | true => exact absurd hb h1⟩

/-- A value that is read and turned into another. -/
theorem map_eq_ok {β : Type} {f : α → β} {r : Except WireError α} {w : β} :
    f <$> r = .ok w ↔ ∃ a, r = .ok a ∧ f a = w := by
  cases r with
  | error e => exact ⟨fun h => (by cases h), fun ⟨_, h, _⟩ => (by cases h)⟩
  | ok a => simp [Functor.map, Except.map]

/-- One thing is read, and then another. -/
theorem bind_eq_ok {β : Type} {x : Except WireError α} {f : α → Except WireError β} {w : β} :
    (x >>= f) = .ok w ↔ ∃ a, x = .ok a ∧ f a = .ok w := by
  cases x with
  | error e => exact ⟨fun h => (by cases h), fun ⟨_, h, _⟩ => (by cases h)⟩
  | ok a => exact ⟨fun h => ⟨a, rfl, h⟩, fun ⟨_, ha, h⟩ => (by cases ha; exact h)⟩

end Success

/-! ## Fields -/

section Fields

variable {src t : Bytes} {a n : ℕ} {x : UInt8}

/-- A record that stands in front shows its opcode. -/
theorem head?_of_front {x : UInt8} {p : Bytes} (h : x :: p <+: src) : src.head? = some x := by
  obtain ⟨t, rfl⟩ := h
  rfl

theorem num_lt (src : Bytes) (a n : ℕ) : num src a n < 256 ^ n :=
  Nat.lt_of_lt_of_le (leNat_lt _) (Nat.pow_le_pow_right (by decide) (length_slice_le src a n))

/-- A number is what its bytes spell. -/
theorem leBytes_num (h : a + n ≤ src.length) : leBytes n (num src a n) = slice src a n := by
  have hb := leBytes_leNat (slice src a n)
  rwa [length_slice h] at hb

theorem slice_eq_byte (h : a < src.length) : slice src a 1 = [x] ↔ src.getD a 0 = x := by
  rw [slice_one_eq h 0, List.singleton_inj]

/-- The bytes of a field are a number's if the field reads as it. -/
theorem slice_eq_num {v : ℕ} (h : a + n ≤ src.length) (hv : v < 256 ^ n) :
    slice src a n = leBytes n v ↔ num src a n = v := by
  constructor
  · intro hs
    rw [num, hs, leNat_leBytes hv]
  · rintro rfl
    exact (leBytes_num h).symm

/-- See `slice_eq_num`. -/
theorem slice_eq_u64 {v : UInt64} (h : a + 8 ≤ src.length) :
    slice src a 8 = leBytes 8 v.toNat ↔ u64At src a = v := by
  rw [slice_eq_num h (by have := v.toNat_lt; omega), u64At]
  constructor
  · intro hn
    rw [hn, UInt64.ofNat_toNat]
  · rintro rfl
    exact (UInt64.toNat_ofNat_of_lt (num_lt src a 8)).symm

/-- See `slice_eq_num`. -/
theorem slice_eq_u32 {v : UInt32} (h : a + 4 ≤ src.length) :
    slice src a 4 = leBytes 4 v.toNat ↔ u32At src a = v := by
  rw [slice_eq_num h (by have := v.toNat_lt; omega), u32At]
  constructor
  · intro hn
    rw [hn, UInt32.ofNat_toNat]
  · rintro rfl
    exact (UInt32.toNat_ofNat_of_lt (num_lt src a 4)).symm

theorem length_fixed (v : FixedBytes n) : v.val.length = n := v.property

/-- The bytes of a field of fixed width, as a value of it. -/
theorem slice_eq_fixed {v : FixedBytes n} (h : a + n ≤ src.length) :
    slice src a n = v.val ↔ FixedBytes.ofBytes n (slice src a n) = v := by
  have hval : (FixedBytes.ofBytes n (slice src a n)).val = slice src a n := by
    show (slice src a n ++ List.replicate n 0).take n = slice src a n
    rw [List.take_left' (length_slice h)]
  rw [← hval, Subtype.coe_inj, hval]

/-- A flag's byte is read as the flag. -/
theorem eq_flagByte {b : UInt8} {h : Bool} (hb : b = flagByte h) : (b != 0) = h := by
  subst hb
  cases h <;> rfl

end Fields

/-! ## Decoders

Of each record: where its fields stand, and what its decoder accepts. -/

variable {L : Limits} {src : Bytes}

/-- A length fits the two bytes it has. -/
abbrev FitsTwo (b : Bytes) : Prop := b.length < 65536

/-- A length fits the byte it has. -/
abbrev FitsOne (b : Bytes) : Prop := b.length < 256

/-- A string is as long as its number says, which fits. -/
theorem fitsTwo_slice {a b : ℕ} (h : a + num src b 2 ≤ src.length) :
    FitsTwo (slice src a (num src b 2)) :=
  lt_of_eq_of_lt (length_slice h) (num_lt src b 2)

theorem fitsOne_slice {a b : ℕ} (h : a + num src b 1 ≤ src.length) :
    FitsOne (slice src a (num src b 1)) :=
  lt_of_eq_of_lt (length_slice h) (num_lt src b 1)

/-! ### Unbind -/

/-- The fields of an unbind stand in front, each where it is looked for. -/
theorem unbindFields_front {m : DecodedUnbind} (hr : FitsTwo m.key.root) (hp : FitsTwo m.key.path) :
    (unbindFields m).flatten <+: src ↔
      unbindHdr + m.key.root.length + m.key.path.length ≤ src.length ∧ src.getD 0 0 = opUnbind ∧
        num src 1 2 = m.key.root.length ∧ num src 3 2 = m.key.path.length ∧
        u64At src 5 = m.revision ∧ u64At src 13 = m.stampMs ∧ src.getD 21 0 = m.cond ∧
        u64At src 22 = m.expect ∧ slice src unbindHdr m.key.root.length = m.key.root ∧
        slice src (unbindHdr + m.key.root.length) m.key.path.length = m.key.path := by
  rw [flatten_prefix_iff]
  simp only [unbindFields, unbindHdr, length_leBytes, List.length_singleton, endAt, StandAt,
    Nat.reduceAdd, Nat.zero_add, and_true]
  refine and_congr_right fun hlen => ?_
  simp (disch := omega) only [slice_eq_byte, slice_eq_num, slice_eq_u64]

/-- An unbind is read off just its own fields. -/
theorem decodeUnbind_eq_ok {m : DecodedUnbind} :
    decodeUnbind src = .ok m ↔ (FitsTwo m.key.root ∧ FitsTwo m.key.path) ∧ m.cond ≤ condRevision ∧
      (unbindFields m).flatten <+: src := by
  obtain ⟨⟨root, path⟩, revision, stampMs, cond, expect⟩ := m
  simp only [decodeUnbind, require_bind_eq_ok, pure, Except.pure, Except.ok.injEq,
    DecodedUnbind.mk.injEq, Key.mk.injEq]
  constructor
  · rintro ⟨hhdr, hop, hc, hlen, ⟨rfl, rfl⟩, rfl, rfl, rfl, rfl⟩
    refine ⟨⟨?root, ?path⟩, hc, (unbindFields_front ?root ?path).mpr ?_⟩
    · exact fitsTwo_slice (by omega)
    · exact fitsTwo_slice (by omega)
    · simp (disch := omega) only [length_slice, hop, hlen, and_self]
  · rintro ⟨⟨hr, hp⟩, hc, h⟩
    obtain ⟨hlen, hop, hns, hpl, rfl, rfl, rfl, rfl, hroot, hpath⟩ := (unbindFields_front hr hp).mp h
    simp only [hop, hns, hpl, hroot, hpath, hc, hlen, and_true]
    omega

/-! ### Bind -/

/-- The lengths of a bind fit their fields. -/
structure DecodedBind.FitsWire (b : DecodedBind) : Prop where
  root : FitsTwo b.key.root
  path : FitsTwo b.key.path
  objectId : FitsTwo b.binding.objectId
  contentType : FitsOne b.binding.metadata.contentType
  keyRef : FitsOne b.binding.metadata.keyRef

/-- The fields of a bind stand in front, each where it is looked for. -/
theorem bindFields_front {op : UInt8} {b : DecodedBind} (hb : b.FitsWire) :
    (bindFields op b).flatten <+: src ↔
      bindHdr + b.key.root.length + b.key.path.length + b.binding.objectId.length
          + b.binding.metadata.contentType.length + b.binding.metadata.keyRef.length ≤ src.length ∧
        src.getD 0 0 = op ∧
        num src 1 2 = b.key.root.length ∧ num src 3 2 = b.key.path.length ∧
        num src 5 2 = b.binding.objectId.length ∧ src.getD 7 0 = b.binding.kind ∧
        u64At src 8 = b.binding.revision ∧ u64At src 16 = b.binding.metadata.stampMs ∧
        u64At src 24 = b.binding.metadata.size ∧ src.getD 32 0 = b.cond ∧ u64At src 33 = b.expect ∧
        num src 41 1 = b.binding.metadata.contentType.length ∧
        num src 42 1 = b.binding.metadata.keyRef.length ∧
        u64At src 43 = b.binding.metadata.retainUntilMs ∧
        src.getD 51 0 = flagByte b.binding.metadata.hold ∧
        slice src bindHdr b.key.root.length = b.key.root ∧
        slice src (bindHdr + b.key.root.length) b.key.path.length = b.key.path ∧
        slice src (bindHdr + b.key.root.length + b.key.path.length) b.binding.objectId.length
          = b.binding.objectId ∧
        slice src (bindHdr + b.key.root.length + b.key.path.length + b.binding.objectId.length)
          b.binding.metadata.contentType.length = b.binding.metadata.contentType ∧
        slice src (bindHdr + b.key.root.length + b.key.path.length + b.binding.objectId.length
          + b.binding.metadata.contentType.length) b.binding.metadata.keyRef.length
          = b.binding.metadata.keyRef := by
  obtain ⟨hr, hp, ho, hct, hkr⟩ := hb
  rw [flatten_prefix_iff]
  simp only [bindFields, bindHdr, length_leBytes, List.length_singleton, endAt, StandAt,
    Nat.reduceAdd, Nat.zero_add, and_true]
  refine and_congr_right fun hlen => ?_
  simp (disch := omega) only [slice_eq_byte, slice_eq_num, slice_eq_u64]

/-- What the fields of a bind have to pass. -/
structure DecodedBind.Passes (L : Limits) (b : DecodedBind) : Prop where
  key : L.keyFits b.key.root b.key.path b.binding.objectId = true
  contentType : b.binding.metadata.contentType.length ≤ L.contentTypeMax
  keyRef : b.binding.metadata.keyRef.length ≤ L.keyRefMax
  cond : b.cond ≤ condRevision

/-- A bind is read off just its own fields, if they pass. -/
theorem decodeBindFields_eq_ok {b : DecodedBind} :
    decodeBindFields L src = .ok b ↔ b.FitsWire ∧ b.Passes L ∧
      (bindFields (src.getD 0 0) b).flatten <+: src := by
  obtain ⟨⟨root, path⟩, ⟨revision, kind, oid, ⟨stampMs, size, ctype, keyRef, retain, hold⟩⟩, cond,
    expect⟩ := b
  simp only [decodeBindFields, require_bind_eq_ok, checkKey_bind_eq_ok, decodeHold_bind_eq_ok, pure,
    Except.pure, Except.ok.injEq, DecodedBind.mk.injEq, Key.mk.injEq, Binding.mk.injEq, Meta.mk.injEq]
  constructor
  · rintro ⟨hhdr, hc, hct, hkr, h, hflag, hlen, hkey, ⟨rfl, rfl⟩,
      ⟨rfl, rfl, rfl, rfl, rfl, rfl, rfl, rfl, rfl⟩, rfl, rfl⟩
    refine ⟨?fits, ⟨hkey, ?_, ?_, hc⟩, (bindFields_front ?fits).mpr ?_⟩
    · exact ⟨fitsTwo_slice (by omega), fitsTwo_slice (by omega), fitsTwo_slice (by omega),
        fitsOne_slice (by omega), fitsOne_slice (by omega)⟩
    · exact (length_slice_le _ _ _).trans hct
    · exact (length_slice_le _ _ _).trans hkr
    · simp (disch := omega) only [length_slice, hlen, hflag, and_self]
  · rintro ⟨hb, ⟨hkey, hctm, hkrm, hc⟩, h⟩
    obtain ⟨hlen, -, hns, hpl, hol, rfl, rfl, rfl, rfl, rfl, rfl, hct, hkr, rfl, hflag, hroot, hpath,
      hoid, hctype, hkeyRef⟩ := (bindFields_front hb).mp h
    simp only [hns, hpl, hol, hct, hkr, hroot, hpath, hoid, hctype, hkeyRef, hkey, hctm, hkrm, hc, hlen,
      true_and]
    exact ⟨by omega, hold, hflag, by simp⟩

/-! ### Rename -/

/-- The lengths of a rename fit their fields. -/
structure RenameMsg.FitsWire (m : DecodedRename) : Prop where
  root : FitsTwo m.root
  source : FitsTwo m.source
  dest : FitsTwo m.dest

/-- The fields of a rename stand in front, each where it is looked for. -/
theorem renameFields_front {m : DecodedRename} (hm : m.FitsWire) :
    (renameFields m).flatten <+: src ↔
      renameHdr + m.root.length + m.source.length + m.dest.length ≤ src.length ∧ src.getD 0 0 = opRename ∧
        num src 1 2 = m.root.length ∧
        num src 3 2 = m.source.length ∧
        num src 5 2 = m.dest.length ∧
        u64At src 7 = m.newRevision ∧
        u64At src 15 = m.stampMs ∧
        slice src renameHdr m.root.length = m.root ∧
        slice src (renameHdr + m.root.length) m.source.length = m.source ∧
        slice src (renameHdr + m.root.length + m.source.length) m.dest.length = m.dest := by
  obtain ⟨hr, hs, hd⟩ := hm
  rw [flatten_prefix_iff]
  simp only [renameFields, renameHdr, length_leBytes, List.length_singleton, endAt, StandAt,
    Nat.reduceAdd, Nat.zero_add, and_true]
  refine and_congr_right fun hlen => ?_
  simp (disch := omega) only [slice_eq_byte, slice_eq_num, slice_eq_u64]

/-- A rename is read off just its own fields. -/
theorem decodeRename_eq_ok {m : DecodedRename} :
    decodeRename src = .ok m ↔ m.FitsWire ∧ (renameFields m).flatten <+: src := by
  obtain ⟨root, source, dest, revision, stampMs⟩ := m
  simp only [decodeRename, require_bind_eq_ok, pure, Except.pure, Except.ok.injEq,
    RenameMsg.mk.injEq]
  constructor
  · rintro ⟨hhdr, hop, hlen, rfl, rfl, rfl, rfl, rfl⟩
    refine ⟨?fits, (renameFields_front ?fits).mpr ?_⟩
    · exact ⟨fitsTwo_slice (by omega), fitsTwo_slice (by omega), fitsTwo_slice (by omega)⟩
    · simp (disch := omega) only [length_slice, hop, hlen, and_self]
  · rintro ⟨hm, h⟩
    obtain ⟨hlen, hop, hns, hfl, htl, rfl, rfl, hroot, hsource, hdest⟩ := (renameFields_front hm).mp h
    simp only [hop, hns, hfl, htl, hroot, hsource, hdest, hlen, and_true]
    omega

/-! ### Retain -/

theorem retainFields_front {m : DecodedRetain} (hr : FitsTwo m.key.root) (hp : FitsTwo m.key.path) :
    (retainFields m).flatten <+: src ↔
      retainHdr + m.key.root.length + m.key.path.length ≤ src.length ∧ src.getD 0 0 = opRetain ∧
        num src 1 2 = m.key.root.length ∧
        num src 3 2 = m.key.path.length ∧
        u64At src 5 = m.revision ∧
        u64At src 13 = m.stampMs ∧
        u64At src 21 = m.expect ∧
        u64At src 29 = m.retainUntilMs ∧
        src.getD 37 0 = m.hold ∧
        slice src retainHdr m.key.root.length = m.key.root ∧
        slice src (retainHdr + m.key.root.length) m.key.path.length = m.key.path := by
  rw [flatten_prefix_iff]
  simp only [retainFields, retainHdr, length_leBytes, List.length_singleton, endAt, StandAt,
    Nat.reduceAdd, Nat.zero_add, and_true]
  refine and_congr_right fun hlen => ?_
  simp (disch := omega) only [slice_eq_byte, slice_eq_num, slice_eq_u64]

/-- A retention is read off just its own fields, if they pass. -/
theorem decodeRetain_eq_ok {m : DecodedRetain} :
    decodeRetain L src = .ok m ↔ (FitsTwo m.key.root ∧ FitsTwo m.key.path) ∧
      (L.keyFits m.key.root m.key.path [] = true ∧ m.hold ≤ retainHoldClear) ∧
      (retainFields m).flatten <+: src := by
  obtain ⟨⟨root, path⟩, revision, stampMs, expect, retain, hold⟩ := m
  simp only [decodeRetain, require_bind_eq_ok, checkKey_bind_eq_ok, pure, Except.pure,
    Except.ok.injEq, DecodedRetain.mk.injEq, Key.mk.injEq]
  constructor
  · rintro ⟨hhdr, hop, hh, hlen, hkey, ⟨rfl, rfl⟩, rfl, rfl, rfl, rfl, rfl⟩
    refine ⟨⟨?root, ?path⟩, ⟨hkey, hh⟩, (retainFields_front ?root ?path).mpr ?_⟩
    · exact fitsTwo_slice (by omega)
    · exact fitsTwo_slice (by omega)
    · simp (disch := omega) only [length_slice, hop, hlen, and_self]
  · rintro ⟨⟨hr, hp⟩, ⟨hkey, hh⟩, h⟩
    obtain ⟨hlen, hop, hns, hpl, rfl, rfl, rfl, rfl, rfl, hroot, hpath⟩ :=
      (retainFields_front hr hp).mp h
    simp only [hop, hns, hpl, hroot, hpath, hkey, hh, hlen, and_true]
    omega

/-! ### Lookup and list -/

theorem lookupFields_front {k : Key} (hr : FitsTwo k.root) (hp : FitsTwo k.path) :
    (lookupFields k).flatten <+: src ↔
      5 + k.root.length + k.path.length ≤ src.length ∧ src.getD 0 0 = opLookup ∧
        num src 1 2 = k.root.length ∧
        num src 3 2 = k.path.length ∧
        slice src 5 k.root.length = k.root ∧
        slice src (5 + k.root.length) k.path.length = k.path := by
  rw [flatten_prefix_iff]
  simp only [lookupFields, length_leBytes, List.length_singleton, endAt, StandAt, Nat.reduceAdd,
    Nat.zero_add, and_true]
  refine and_congr_right fun hlen => ?_
  simp (disch := omega) only [slice_eq_byte, slice_eq_num]

/-- A lookup is read off just its own fields. -/
theorem decodeLookupReq_eq_ok {k : Key} :
    decodeLookupReq src = .ok k ↔ (FitsTwo k.root ∧ FitsTwo k.path) ∧
      (lookupFields k).flatten <+: src := by
  obtain ⟨root, path⟩ := k
  simp only [decodeLookupReq, require_bind_eq_ok, pure, Except.pure, Except.ok.injEq, Key.mk.injEq]
  constructor
  · rintro ⟨hhdr, hop, hlen, rfl, rfl⟩
    refine ⟨⟨?root, ?path⟩, (lookupFields_front ?root ?path).mpr ?_⟩
    · exact fitsTwo_slice (by omega)
    · exact fitsTwo_slice (by omega)
    · simp (disch := omega) only [length_slice, hop, hlen, and_self]
  · rintro ⟨⟨hr, hp⟩, h⟩
    obtain ⟨hlen, hop, hns, hpl, hroot, hpath⟩ := (lookupFields_front hr hp).mp h
    simp only [hop, hns, hpl, hroot, hpath, hlen, and_true]
    omega

/-- The lengths of a list request fit their fields. -/
structure DecodedListReq.FitsWire (m : DecodedListReq) : Prop where
  root : FitsTwo m.root
  pathPrefix : FitsTwo m.pathPrefix
  after : FitsTwo m.after

theorem listFields_front {m : DecodedListReq} (hm : m.FitsWire) :
    (listFields m).flatten <+: src ↔
      8 + m.root.length + m.pathPrefix.length + m.after.length ≤ src.length ∧ src.getD 0 0 = opList ∧
        num src 1 2 = m.root.length ∧
        num src 3 2 = m.pathPrefix.length ∧
        num src 5 2 = m.after.length ∧
        src.getD 7 0 = m.max ∧
        slice src 8 m.root.length = m.root ∧
        slice src (8 + m.root.length) m.pathPrefix.length = m.pathPrefix ∧
        slice src (8 + m.root.length + m.pathPrefix.length) m.after.length = m.after := by
  obtain ⟨hr, hp, ha⟩ := hm
  rw [flatten_prefix_iff]
  simp only [listFields, length_leBytes, List.length_singleton, endAt, StandAt, Nat.reduceAdd,
    Nat.zero_add, and_true]
  refine and_congr_right fun hlen => ?_
  simp (disch := omega) only [slice_eq_byte, slice_eq_num]

/-- A listing is read off just its own fields, if they pass. -/
theorem decodeListReq_eq_ok {m : DecodedListReq} :
    decodeListReq L src = .ok m ↔ m.FitsWire ∧
      (L.keyFits m.root m.pathPrefix [] = true ∧ L.keyFits m.root m.after [] = true) ∧
      (listFields m).flatten <+: src := by
  obtain ⟨root, pathPrefix, after, max⟩ := m
  simp only [decodeListReq, require_bind_eq_ok, checkKey_bind_eq_ok, pure, Except.pure,
    Except.ok.injEq, DecodedListReq.mk.injEq]
  constructor
  · rintro ⟨hhdr, hop, hlen, hkey, hkey', rfl, rfl, rfl, rfl⟩
    refine ⟨?fits, ⟨hkey, hkey'⟩, (listFields_front ?fits).mpr ?_⟩
    · exact ⟨fitsTwo_slice (by omega), fitsTwo_slice (by omega), fitsTwo_slice (by omega)⟩
    · simp (disch := omega) only [length_slice, hop, hlen, and_self]
  · rintro ⟨hm, ⟨hkey, hkey'⟩, h⟩
    obtain ⟨hlen, hop, hns, hpl, hal, rfl, hroot, hprefix, hafter⟩ := (listFields_front hm).mp h
    simp only [hop, hns, hpl, hal, hroot, hprefix, hafter, hkey, hkey', hlen, and_true]
    omega

/-! ### Questions about objects -/

theorem referencedFields_front {cursor : UInt32} {oid : Bytes} (ho : FitsTwo oid) :
    (referencedFields cursor oid).flatten <+: src ↔
      7 + oid.length ≤ src.length ∧ src.getD 0 0 = opReferenced ∧
        u32At src 1 = cursor ∧
        num src 5 2 = oid.length ∧
        slice src 7 oid.length = oid := by
  rw [flatten_prefix_iff]
  simp only [referencedFields, length_leBytes, List.length_singleton, endAt, StandAt, Nat.reduceAdd,
    Nat.zero_add, and_true]
  refine and_congr_right fun hlen => ?_
  simp (disch := omega) only [slice_eq_byte, slice_eq_num, slice_eq_u32]

/-- So is the question whether an object is named. -/
theorem decodeReferencedReq_eq_ok {q : UInt32 × Bytes} :
    decodeReferencedReq src = .ok q ↔ FitsTwo q.2 ∧ (referencedFields q.1 q.2).flatten <+: src := by
  obtain ⟨cursor, oid⟩ := q
  simp only [decodeReferencedReq, require_bind_eq_ok, pure, Except.pure, Except.ok.injEq,
    Prod.mk.injEq]
  constructor
  · rintro ⟨hhdr, hop, hlen, rfl, rfl⟩
    refine ⟨?fits, (referencedFields_front ?fits).mpr ?_⟩
    · exact fitsTwo_slice (by omega)
    · simp (disch := omega) only [length_slice, hop, hlen, and_self]
  · rintro ⟨ho, h⟩
    obtain ⟨hlen, hop, rfl, hl, hoid⟩ := (referencedFields_front ho).mp h
    simp only [hop, hl, hoid, hlen, and_true]
    omega

theorem retainedFields_front {cursor : UInt32} {oid : Bytes} {now : UInt64} (ho : FitsTwo oid) :
    (retainedFields cursor oid now).flatten <+: src ↔
      retainedHdr + oid.length ≤ src.length ∧ src.getD 0 0 = opRetained ∧
        u32At src 1 = cursor ∧
        num src 5 2 = oid.length ∧
        u64At src 7 = now ∧
        slice src retainedHdr oid.length = oid := by
  rw [flatten_prefix_iff]
  simp only [retainedFields, retainedHdr, length_leBytes, List.length_singleton, endAt, StandAt,
    Nat.reduceAdd, Nat.zero_add, and_true]
  refine and_congr_right fun hlen => ?_
  simp (disch := omega) only [slice_eq_byte, slice_eq_num, slice_eq_u64, slice_eq_u32]

/-- And whether one is retained. -/
theorem decodeRetainedReq_eq_ok {q : UInt32 × Bytes × UInt64} :
    decodeRetainedReq src = .ok q ↔ FitsTwo q.2.1 ∧
      (retainedFields q.1 q.2.1 q.2.2).flatten <+: src := by
  obtain ⟨cursor, oid, now⟩ := q
  simp only [decodeRetainedReq, require_bind_eq_ok, pure, Except.pure, Except.ok.injEq,
    Prod.mk.injEq]
  constructor
  · rintro ⟨hhdr, hop, hlen, rfl, rfl, rfl⟩
    refine ⟨?fits, (retainedFields_front ?fits).mpr ?_⟩
    · exact fitsTwo_slice (by omega)
    · simp (disch := omega) only [length_slice, hop, hlen, and_self]
  · rintro ⟨ho, h⟩
    obtain ⟨hlen, hop, rfl, hl, rfl, hoid⟩ := (retainedFields_front ho).mp h
    simp only [hop, hl, hoid, hlen, and_true]
    omega

theorem volumeRootsFields_front {cursor : UInt32} :
    [[opVolumeRoots], leBytes 4 cursor.toNat].flatten <+: src ↔
      5 ≤ src.length ∧ src.getD 0 0 = opVolumeRoots ∧ u32At src 1 = cursor := by
  rw [flatten_prefix_iff]
  simp only [length_leBytes, List.length_singleton, endAt, StandAt, Nat.reduceAdd, Nat.zero_add,
    and_true]
  refine and_congr_right fun hlen => ?_
  simp (disch := omega) only [slice_eq_byte, slice_eq_u32]

theorem decodeVolumeRootsReq_eq_ok {cursor : UInt32} :
    decodeVolumeRootsReq src = .ok cursor ↔
      [[opVolumeRoots], leBytes 4 cursor.toNat].flatten <+: src := by
  rw [volumeRootsFields_front]
  simp only [decodeVolumeRootsReq, require_bind_eq_ok, pure, Except.pure, Except.ok.injEq]

/-! ### Reservations -/

theorem gcFields_front {op : UInt8} {oid : Bytes} {now : UInt64} (ho : FitsTwo oid) :
    (gcFields op oid now).flatten <+: src ↔
      gcReserveHdr + oid.length ≤ src.length ∧ src.getD 0 0 = op ∧
        num src 1 2 = oid.length ∧
        u64At src 3 = now ∧
        slice src gcReserveHdr oid.length = oid := by
  rw [flatten_prefix_iff]
  simp only [gcFields, gcReserveHdr, length_leBytes, List.length_singleton, endAt, StandAt,
    Nat.reduceAdd, Nat.zero_add, and_true]
  refine and_congr_right fun hlen => ?_
  simp (disch := omega) only [slice_eq_byte, slice_eq_num, slice_eq_u64]

/-- A reservation or a release of one, by its opcode. -/
theorem decodeGcReserveReq_eq_ok {q : Bytes × UInt64} :
    decodeGcReserveReq src = .ok q ↔ FitsTwo q.1 ∧
      (src.getD 0 0 = opGcReserve ∨ src.getD 0 0 = opGcRelease) ∧
      (gcFields (src.getD 0 0) q.1 q.2).flatten <+: src := by
  obtain ⟨oid, now⟩ := q
  simp only [decodeGcReserveReq, require_bind_eq_ok, pure, Except.pure, Except.ok.injEq,
    Prod.mk.injEq]
  constructor
  · rintro ⟨hhdr, hop, hlen, rfl, rfl⟩
    refine ⟨?fits, hop, (gcFields_front ?fits).mpr ?_⟩
    · exact fitsTwo_slice (by omega)
    · simp (disch := omega) only [length_slice, hlen, and_self]
  · rintro ⟨ho, hop, h⟩
    obtain ⟨hlen, -, hl, rfl, hoid⟩ := (gcFields_front ho).mp h
    simp only [hop, hl, hoid, hlen, and_true]
    omega

/-! ### Leases and volumes -/

theorem leaseReqFields_front {m : DecodedLeaseReq} (hr : FitsTwo m.key.root) (hp : FitsTwo m.key.path) :
    (leaseReqFields m).flatten <+: src ↔
      leaseReqHdr + m.key.root.length + m.key.path.length ≤ src.length ∧ src.getD 0 0 = opLease ∧
        src.getD 1 0 = m.mode ∧
        num src 2 2 = m.key.root.length ∧
        num src 4 2 = m.key.path.length ∧
        FixedBytes.ofBytes 16 (slice src 6 16) = m.holder ∧
        u64At src 22 = m.nowMs ∧
        u32At src 30 = m.ttlMs ∧
        slice src leaseReqHdr m.key.root.length = m.key.root ∧
        slice src (leaseReqHdr + m.key.root.length) m.key.path.length = m.key.path := by
  rw [flatten_prefix_iff]
  simp only [leaseReqFields, leaseReqHdr, length_leBytes, length_fixed, List.length_singleton,
    endAt, StandAt, Nat.reduceAdd, Nat.zero_add, and_true]
  refine and_congr_right fun hlen => ?_
  simp (disch := omega) only [slice_eq_byte, slice_eq_num, slice_eq_u64, slice_eq_u32, slice_eq_fixed]

/-- A lease request is read off just its own fields, if they pass. -/
theorem decodeLeaseReq_eq_ok {m : DecodedLeaseReq} :
    decodeLeaseReq L src = .ok m ↔ (FitsTwo m.key.root ∧ FitsTwo m.key.path) ∧
      L.keyFits m.key.root m.key.path [] = true ∧ (leaseReqFields m).flatten <+: src := by
  obtain ⟨mode, ⟨root, path⟩, holder, now, ttl⟩ := m
  simp only [decodeLeaseReq, require_bind_eq_ok, checkKey_bind_eq_ok, pure, Except.pure,
    Except.ok.injEq, DecodedLeaseReq.mk.injEq, Key.mk.injEq]
  constructor
  · rintro ⟨hhdr, hop, hlen, hkey, rfl, ⟨rfl, rfl⟩, rfl, rfl, rfl⟩
    refine ⟨⟨?root, ?path⟩, hkey, (leaseReqFields_front ?root ?path).mpr ?_⟩
    · exact fitsTwo_slice (by omega)
    · exact fitsTwo_slice (by omega)
    · simp (disch := omega) only [length_slice, hop, hlen, and_self]
  · rintro ⟨⟨hr, hp⟩, hkey, h⟩
    obtain ⟨hlen, hop, rfl, hns, hpl, rfl, rfl, rfl, hroot, hpath⟩ :=
      (leaseReqFields_front hr hp).mp h
    simp only [hop, hns, hpl, hroot, hpath, hkey, hlen, and_true]
    omega

theorem leaseRestoreFields_front {m : DecodedLeaseRestore} {flags : UInt8} 
    (hr : FitsTwo m.key.root) (hp : FitsTwo m.key.path) :
    (leaseRestoreFields m flags).flatten <+: src ↔
      leaseRestoreHdr + m.key.root.length + m.key.path.length ≤ src.length ∧ src.getD 0 0 = opLeaseRestore ∧
        num src 1 2 = m.key.root.length ∧
        num src 3 2 = m.key.path.length ∧
        FixedBytes.ofBytes 16 (slice src 5 16) = m.holder ∧
        u64At src 21 = m.fence ∧
        u64At src 29 = m.expiresAtMs ∧
        u64At src 37 = m.stampMs ∧
        src.getD 45 0 = flags ∧
        u64At src 46 = m.fenceFloor ∧
        u64At src 54 = m.stampFloor ∧
        slice src leaseRestoreHdr m.key.root.length = m.key.root ∧
        slice src (leaseRestoreHdr + m.key.root.length) m.key.path.length = m.key.path := by
  rw [flatten_prefix_iff]
  simp only [leaseRestoreFields, leaseRestoreHdr, length_leBytes, length_fixed,
    List.length_singleton, endAt, StandAt, Nat.reduceAdd, Nat.zero_add, and_true]
  refine and_congr_right fun hlen => ?_
  simp (disch := omega) only [slice_eq_byte, slice_eq_num, slice_eq_u64, slice_eq_fixed]

/-- A restored lease: of its flags only the live one has to be right. -/
theorem decodeLeaseRestore_eq_ok {m : DecodedLeaseRestore} :
    decodeLeaseRestore L src = .ok m ↔ (FitsTwo m.key.root ∧ FitsTwo m.key.path) ∧
      (L.keyFits m.key.root m.key.path [] = true ∧ (src.getD 45 0 &&& 1 != 0) = m.live) ∧
      (leaseRestoreFields m (src.getD 45 0)).flatten <+: src := by
  obtain ⟨⟨root, path⟩, holder, fence, expiresAt, stamp, live, fenceFloor, stampFloor⟩ := m
  simp only [decodeLeaseRestore, require_bind_eq_ok, checkKey_bind_eq_ok, pure, Except.pure,
    Except.ok.injEq, DecodedLeaseRestore.mk.injEq, Key.mk.injEq]
  constructor
  · rintro ⟨hhdr, hop, hlen, hkey, ⟨rfl, rfl⟩, rfl, rfl, rfl, rfl, rfl, rfl, rfl⟩
    refine ⟨⟨?root, ?path⟩, ⟨hkey, rfl⟩, (leaseRestoreFields_front ?root ?path).mpr ?_⟩
    · exact fitsTwo_slice (by omega)
    · exact fitsTwo_slice (by omega)
    · simp (disch := omega) only [length_slice, hop, hlen, and_self]
  · rintro ⟨⟨hr, hp⟩, ⟨hkey, hlive⟩, h⟩
    obtain ⟨hlen, hop, hns, hpl, rfl, rfl, rfl, rfl, -, rfl, rfl, hroot, hpath⟩ :=
      (leaseRestoreFields_front hr hp).mp h
    simp only [hop, hns, hpl, hroot, hpath, hkey, hlive, hlen, and_true]
    omega

/-- The lengths of a volume request fit their fields. -/
structure DecodedVolumeReq.FitsWire (m : DecodedVolumeReq) : Prop where
  root : FitsTwo m.key.root
  path : FitsTwo m.key.path
  objectId : FitsTwo m.objectId

theorem volumeReqFields_front {m : DecodedVolumeReq} (hm : m.FitsWire) :
    (volumeReqFields m).flatten <+: src ↔
      volumeReqHdr + m.key.root.length + m.key.path.length + m.objectId.length ≤ src.length ∧ src.getD 0 0 = opVolume ∧
        src.getD 1 0 = m.mode ∧
        num src 2 2 = m.key.root.length ∧
        num src 4 2 = m.key.path.length ∧
        num src 6 2 = m.objectId.length ∧
        FixedBytes.ofBytes 16 (slice src 8 16) = m.holder ∧
        u64At src 24 = m.fence ∧
        u64At src 32 = m.expected ∧
        u64At src 40 = m.nowMs ∧
        slice src volumeReqHdr m.key.root.length = m.key.root ∧
        slice src (volumeReqHdr + m.key.root.length) m.key.path.length = m.key.path ∧
        slice src (volumeReqHdr + m.key.root.length + m.key.path.length) m.objectId.length = m.objectId := by
  obtain ⟨hr, hp, ho⟩ := hm
  rw [flatten_prefix_iff]
  simp only [volumeReqFields, volumeReqHdr, length_leBytes, length_fixed, List.length_singleton,
    endAt, StandAt, Nat.reduceAdd, Nat.zero_add, and_true]
  refine and_congr_right fun hlen => ?_
  simp (disch := omega) only [slice_eq_byte, slice_eq_num, slice_eq_u64, slice_eq_fixed]

/-- A volume request is read off just its own fields, if they pass. -/
theorem decodeVolumeReq_eq_ok {m : DecodedVolumeReq} :
    decodeVolumeReq L src = .ok m ↔ m.FitsWire ∧
      L.keyFits m.key.root m.key.path m.objectId = true ∧ (volumeReqFields m).flatten <+: src := by
  obtain ⟨mode, ⟨root, path⟩, oid, holder, fence, expected, now⟩ := m
  simp only [decodeVolumeReq, require_bind_eq_ok, checkKey_bind_eq_ok, pure, Except.pure,
    Except.ok.injEq, DecodedVolumeReq.mk.injEq, Key.mk.injEq]
  constructor
  · rintro ⟨hhdr, hop, hlen, hkey, rfl, ⟨rfl, rfl⟩, rfl, rfl, rfl, rfl, rfl⟩
    refine ⟨?fits, hkey, (volumeReqFields_front ?fits).mpr ?_⟩
    · exact ⟨fitsTwo_slice (by omega), fitsTwo_slice (by omega), fitsTwo_slice (by omega)⟩
    · simp (disch := omega) only [length_slice, hop, hlen, and_self]
  · rintro ⟨hm, hkey, h⟩
    obtain ⟨hlen, hop, rfl, hns, hpl, hol, rfl, rfl, rfl, rfl, hroot, hpath, hoid⟩ :=
      (volumeReqFields_front hm).mp h
    simp only [hop, hns, hpl, hol, hroot, hpath, hoid, hkey, hlen, and_true]
    omega

end Loam

import Mathlib.Data.Bool.AllAny
import Loam.WireAnswerFields

/-!
# Encoders and decoders, of every operation

Each operation has its encoder and its decoder. Put together they say of a
record which bytes it is (`WireRecord.bytes`), when the encoder writes them
(`Passes`) and what the decoder takes for them (`Spelt`). For most operations
the bytes taken are the bytes written. Where the decoder does not look at all
of a field, another byte is taken for the same record: the flags of a restored
lease, the condition of a restored binding, the time of a release; and in an
answer, every flag that is only asked whether it is 0.
-/

namespace Loam

/-- The lengths of the profile fit the fields of the wire. -/
structure Limits.FitsWire (L : Limits) : Prop where
  root : L.maxRoot < 65536
  path : L.maxPath < 65536
  objectId : L.maxObjectId < 256
  contentType : L.contentTypeMax < 256
  keyRef : L.keyRefMax < 256

/-- The profiles; a server has the ceilings of a node. -/
inductive Profile where
  | minimal
  | embedded
  | node
deriving DecidableEq

namespace Profile

/-- The ceilings of a profile. -/
def limits : Profile → Limits
  | minimal => .minimal
  | embedded => .embedded
  | node => .node

theorem fitsWire (p : Profile) : p.limits.FitsWire := by
  cases p <;> exact ⟨by decide, by decide, by decide, by decide, by decide⟩

end Profile

namespace WireRecord

/-! ## What a record is -/

/-- The flags of a restored lease. -/
def restoreFlags (live flushing : Bool) : UInt8 := flagByte live ||| if flushing then 2 else 0

/-- The fields of a record, as the encoders write them. -/
def fields : WireRecord → List Bytes
  | bind b => bindFields opBind b
  | bindingRestore k b => bindFields opBindingRestore ⟨k, b, 0, 0⟩
  | rename m => renameFields m
  | unbind m => unbindFields m
  | retain m => retainFields m
  | lookup k => lookupFields k
  | list m => listFields m
  | referenced cursor oid => referencedFields cursor oid
  | retained cursor oid now => retainedFields cursor oid now
  | gcReserve oid now => gcFields opGcReserve oid now
  | gcRelease oid => gcFields opGcRelease oid 0
  | lease m => leaseReqFields m
  | leaseRestore m flushing => leaseRestoreFields m (restoreFlags m.live flushing)
  | volume m => volumeReqFields m
  | volumeRoots cursor => [[opVolumeRoots], leBytes 4 cursor.toNat]

/-- The bytes of a record. -/
def bytes (v : WireRecord) : Bytes := v.fields.flatten

/-- The record is within the ceilings, and its small fields have values they
can have. -/
def Passes (L : Limits) : WireRecord → Prop
  | bind b => b.Passes L
  | bindingRestore k b => DecodedBind.Passes L ⟨k, b, 0, 0⟩
  | rename m => L.keyFits m.root m.source [] = true ∧ L.keyFits m.root m.dest [] = true
  | unbind m => L.keyFits m.key.root m.key.path [] = true ∧ m.cond ≤ condRevision
  | retain m => L.keyFits m.key.root m.key.path [] = true ∧ m.hold ≤ retainHoldClear
  | lookup k => L.keyFits k.root k.path [] = true
  | list m => L.keyFits m.root m.pathPrefix [] = true ∧ L.keyFits m.root m.after [] = true
  | referenced _ oid => L.keyFits [] [] oid = true
  | retained _ oid _ => L.keyFits [] [] oid = true
  | gcReserve oid _ => L.keyFits [] [] oid = true
  | gcRelease oid => L.keyFits [] [] oid = true
  | lease m => L.keyFits m.key.root m.key.path [] = true
  | leaseRestore m _ => L.keyFits m.key.root m.key.path [] = true
  | volume m => L.keyFits m.key.root m.key.path m.objectId = true
  | volumeRoots _ => True

/-- A bind is of a kind there is. -/
def KindKnown : WireRecord → Prop
  | bind b => b.binding.kind ≤ kindSymlink
  | _ => True

/-- The lengths of the record fit their fields. -/
def FitsWire : WireRecord → Prop
  | bind b => b.FitsWire
  | bindingRestore k b => DecodedBind.FitsWire ⟨k, b, 0, 0⟩
  | rename m => m.FitsWire
  | unbind m => FitsTwo m.key.root ∧ FitsTwo m.key.path
  | retain m => FitsTwo m.key.root ∧ FitsTwo m.key.path
  | lookup k => FitsTwo k.root ∧ FitsTwo k.path
  | list m => m.FitsWire
  | referenced _ oid => FitsTwo oid
  | retained _ oid _ => FitsTwo oid
  | gcReserve oid _ => FitsTwo oid
  | gcRelease oid => FitsTwo oid
  | lease m => FitsTwo m.key.root ∧ FitsTwo m.key.path
  | leaseRestore m _ => FitsTwo m.key.root ∧ FitsTwo m.key.path
  | volume m => m.FitsWire
  | volumeRoots _ => True

/-- What the decoder looks at of a record: not all have the ceilings of the
encoder. -/
def Accepted (L : Limits) : WireRecord → Prop
  | bind b => b.Passes L ∧ b.binding.kind ≤ kindSymlink
  | unbind m => m.cond ≤ condRevision
  | rename _ | lookup _ | referenced _ _ | retained _ _ _ | gcReserve _ _ | gcRelease _ => True
  | v => v.Passes L

/-- **The bytes a decoder takes for a record.** -/
def Spelt : WireRecord → Bytes → Prop
  | bindingRestore k b, r => ∃ cond ≤ condRevision, ∃ expect : UInt64,
      r = (bindFields opBindingRestore ⟨k, b, cond, expect⟩).flatten
  | gcRelease oid, r => ∃ now : UInt64, r = (gcFields opGcRelease oid now).flatten
  | leaseRestore m flushing, r => ∃ flags : UInt8, (flags &&& 1 != 0) = m.live ∧
      (flags &&& 2 != 0) = flushing ∧ r = (leaseRestoreFields m flags).flatten
  | v, r => r = v.bytes

/-- The decoder looks at all of the record. -/
def Exact : WireRecord → Prop
  | bindingRestore _ _ | gcRelease _ | leaseRestore _ _ => False
  | _ => True

theorem eq_of_spelt {v : WireRecord} {r : Bytes} (he : v.Exact) (h : v.Spelt r) : r = v.bytes := by
  cases v with
  | bindingRestore | gcRelease | leaseRestore => exact he.elim
  | _ => exact h

theorem restoreFlags_live (live flushing : Bool) : (restoreFlags live flushing &&& 1 != 0) = live := by
  cases live <;> cases flushing <;> rfl

theorem restoreFlags_flushing (live flushing : Bool) :
    (restoreFlags live flushing &&& 2 != 0) = flushing := by
  cases live <;> cases flushing <;> rfl

theorem spelt_bytes (v : WireRecord) : v.Spelt v.bytes := by
  cases v with
  | bindingRestore k b => exact ⟨0, by decide, 0, rfl⟩
  | gcRelease oid => exact ⟨0, rfl⟩
  | leaseRestore m flushing =>
    exact ⟨_, restoreFlags_live _ _, restoreFlags_flushing _ _, rfl⟩
  | _ => rfl

/-- All that is taken for a record is of one length. -/
theorem length_of_spelt {v : WireRecord} {r : Bytes} (h : v.Spelt r) : r.length = v.bytes.length := by
  cases v with
  | bindingRestore k b =>
    obtain ⟨cond, -, expect, rfl⟩ := h
    simp [bytes, fields, bindFields]
  | gcRelease oid =>
    obtain ⟨now, rfl⟩ := h
    simp [bytes, fields, gcFields]
  | leaseRestore m flushing =>
    obtain ⟨flags, -, -, rfl⟩ := h
    simp [bytes, fields, leaseRestoreFields]
  | _ => exact congrArg List.length h

variable {L : Limits} {room : ℕ} {src : Bytes} {v : WireRecord} {r : Bytes}

/-- Within the ceilings of a profile, lengths fit. -/
theorem Passes.fitsWire (hL : L.FitsWire) (h : v.Passes L) : v.FitsWire := by
  have hkey : ∀ {root path oid : Bytes}, L.keyFits root path oid = true →
      FitsTwo root ∧ FitsTwo path ∧ FitsTwo oid := by
    intro root path oid hk
    obtain ⟨h1, h2, h3, -, -⟩ := hL
    simp only [Limits.keyFits, Bool.and_eq_true, decide_eq_true_eq] at hk
    exact ⟨by omega, by omega, by omega⟩
  have hbind : ∀ {b : DecodedBind}, b.Passes L → b.FitsWire := by
    intro b hb
    obtain ⟨h1, h2, h3⟩ := hkey hb.key
    exact ⟨h1, h2, h3, Nat.lt_of_le_of_lt hb.contentType hL.contentType,
      Nat.lt_of_le_of_lt hb.keyRef hL.keyRef⟩
  cases v with
  | bind b => exact hbind h
  | bindingRestore k b => exact hbind h
  | rename m => exact ⟨(hkey h.1).1, (hkey h.1).2.1, (hkey h.2).2.1⟩
  | unbind m => exact ⟨(hkey h.1).1, (hkey h.1).2.1⟩
  | retain m => exact ⟨(hkey h.1).1, (hkey h.1).2.1⟩
  | lookup k => exact ⟨(hkey h).1, (hkey h).2.1⟩
  | list m => exact ⟨(hkey h.1).1, (hkey h.1).2.1, (hkey h.2).2.1⟩
  | referenced cursor oid => exact (hkey h).2.2
  | retained cursor oid now => exact (hkey h).2.2
  | gcReserve oid now => exact (hkey h).2.2
  | gcRelease oid => exact (hkey h).2.2
  | lease m => exact ⟨(hkey h).1, (hkey h).2.1⟩
  | leaseRestore m flushing => exact ⟨(hkey h).1, (hkey h).2.1⟩
  | volume m => exact ⟨(hkey h).1, (hkey h).2.1, (hkey h).2.2⟩
  | volumeRoots cursor => trivial

/-! ## The encoders -/

theorem set_leaseRestoreFields (m : DecodedLeaseRestore) (flags flags' : UInt8) :
    (leaseRestoreFields m flags).flatten.set 45 flags' = (leaseRestoreFields m flags').flatten := by
  obtain ⟨key, holder, fence, expires, stamp, live, fenceFloor, stampFloor⟩ := m
  have hsplit : ∀ f, (leaseRestoreFields ⟨key, holder, fence, expires, stamp, live, fenceFloor,
        stampFloor⟩ f).flatten
      = ([opLeaseRestore] ++ leBytes 2 key.root.length ++ leBytes 2 key.path.length ++ holder.val
          ++ leBytes 8 fence.toNat ++ leBytes 8 expires.toNat ++ leBytes 8 stamp.toNat)
        ++ f :: (leBytes 8 fenceFloor.toNat ++ leBytes 8 stampFloor.toNat ++ key.root ++ key.path) := by
    intro f
    simp [leaseRestoreFields]
  rw [hsplit, hsplit, List.set_append_right _ _ (by simp [length_fixed])]
  simp [length_fixed]

theorem mark_leaseRestore (m : DecodedLeaseRestore) (flags : UInt8) :
    (markLeaseRestoreFlushing (leaseRestoreFields m flags).flatten).1
      = (leaseRestoreFields m (flags ||| 2)).flatten := by
  have hlen : 45 < (leaseRestoreFields m flags).flatten.length := by
    simp [leaseRestoreFields]
    omega
  have hflags : (leaseRestoreFields m flags).flatten.getD 45 0 = flags := by
    have hset := set_leaseRestoreFields m flags flags
    rw [List.getD_eq_getElem?_getD, ← hset, List.getElem?_set_self (by simpa using hlen)]
    rfl
  rw [markLeaseRestoreFlushing, if_pos ⟨rfl, hlen⟩, hflags]
  exact set_leaseRestoreFields m flags _

theorem encodeBind_eq_ok {b : DecodedBind} :
    encodeBind L room b = .ok r ↔ b.Passes L ∧ (bindFields opBind b).flatten.length ≤ room ∧
      (bindFields opBind b).flatten = r := by
  simp only [encodeBind, require_bind_eq_ok, checkKey_bind_eq_ok, intoRoom_eq_ok]
  constructor
  · rintro ⟨hshards, hroot, hpath, hfence, h⟩
    exact ⟨⟨hshards, hroot, hpath, hfence⟩, h⟩
  · rintro ⟨⟨hshards, hroot, hpath, hfence⟩, h⟩
    exact ⟨hshards, hroot, hpath, hfence, h⟩

theorem encodeLeaseRestore_eq_ok {m : DecodedLeaseRestore} :
    encodeLeaseRestore L room m = .ok r ↔ L.keyFits m.key.root m.key.path [] = true ∧
      (leaseRestoreFields m (flagByte m.live)).flatten.length ≤ room ∧
      (leaseRestoreFields m (flagByte m.live)).flatten = r := by
  simp only [encodeLeaseRestore, checkKey_bind_eq_ok, intoRoom_eq_ok]

/-- **An encoder writes the bytes of a record** that passes its checks, and
refuses any other. -/
theorem encode_eq_ok :
    v.encode L room = .ok r ↔ v.Passes L ∧ v.bytes.length ≤ room ∧ v.bytes = r := by
  cases v with
  | bind b => exact encodeBind_eq_ok
  | bindingRestore k b =>
    simp only [encode, encodeBindingRestore, bind_eq_ok, encodeBind_eq_ok, pure, Except.pure,
      Except.ok.injEq]
    constructor
    · rintro ⟨_, ⟨hpass, hlen, rfl⟩, rfl⟩
      exact ⟨hpass, hlen, rfl⟩
    · rintro ⟨hpass, hlen, rfl⟩
      exact ⟨_, ⟨hpass, hlen, rfl⟩, rfl⟩
  | leaseRestore m flushing =>
    simp only [encode, bind_eq_ok, encodeLeaseRestore_eq_ok, pure, Except.pure, Except.ok.injEq]
    have hbytes : (if flushing = true then
          (markLeaseRestoreFlushing (leaseRestoreFields m (flagByte m.live)).flatten).1
        else (leaseRestoreFields m (flagByte m.live)).flatten)
        = (leaseRestore m flushing).bytes := by
      rw [mark_leaseRestore]
      cases flushing with
      | true => rfl
      | false =>
        show (leaseRestoreFields m (flagByte m.live)).flatten
          = (leaseRestoreFields m (flagByte m.live ||| 0)).flatten
        rw [UInt8.or_zero]
    have hlen : (leaseRestore m flushing).bytes.length
        = (leaseRestoreFields m (flagByte m.live)).flatten.length := by
      simp [bytes, fields, leaseRestoreFields]
    constructor
    · rintro ⟨_, ⟨hpass, hroom, rfl⟩, rfl⟩
      exact ⟨hpass, hlen ▸ hroom, hbytes.symm⟩
    · rintro ⟨hpass, hroom, rfl⟩
      exact ⟨_, ⟨hpass, hlen ▸ hroom, rfl⟩, hbytes⟩
  | rename m =>
    simp only [encode, encodeRename, checkKey_bind_eq_ok, intoRoom_eq_ok]
    exact and_assoc.symm
  | unbind m =>
    simp only [encode, encodeUnbind, checkKey_bind_eq_ok, require_bind_eq_ok, intoRoom_eq_ok]
    exact and_assoc.symm
  | retain m =>
    simp only [encode, encodeRetain, checkKey_bind_eq_ok, require_bind_eq_ok, intoRoom_eq_ok]
    exact and_assoc.symm
  | list m =>
    simp only [encode, encodeListReq, checkKey_bind_eq_ok, intoRoom_eq_ok]
    exact and_assoc.symm
  | lookup k => simp only [encode, encodeLookupReq, checkKey_bind_eq_ok, intoRoom_eq_ok]; rfl
  | referenced c o => simp only [encode, encodeReferencedReq, checkKey_bind_eq_ok, intoRoom_eq_ok]; rfl
  | retained c o n => simp only [encode, encodeRetainedReq, checkKey_bind_eq_ok, intoRoom_eq_ok]; rfl
  | gcReserve o n =>
    simp only [encode, encodeGcReserveReq, encodeGcRecord, checkKey_bind_eq_ok, intoRoom_eq_ok]
    rfl
  | gcRelease o =>
    simp only [encode, encodeGcReleaseReq, encodeGcRecord, checkKey_bind_eq_ok, intoRoom_eq_ok]
    rfl
  | lease m => simp only [encode, encodeLeaseReq, checkKey_bind_eq_ok, intoRoom_eq_ok]; rfl
  | volume m => simp only [encode, encodeVolumeReq, checkKey_bind_eq_ok, intoRoom_eq_ok]; rfl
  | volumeRoots c =>
    simp only [encode, encodeVolumeRootsReq, intoRoom_eq_ok]
    exact (and_iff_right trivial).symm

/-! ## The decoders -/

theorem Passes.accepted (h : v.Passes L) (hk : v.KindKnown) : v.Accepted L := by
  cases v with
  | bind b => exact ⟨h, hk⟩
  | unbind m => exact h.2
  | rename | lookup | referenced | retained | gcReserve | gcRelease => trivial
  | _ => exact h

theorem decodeBind_eq_ok {b : DecodedBind} :
    decodeBind L src = .ok b ↔ b.FitsWire ∧ (b.Passes L ∧ b.binding.kind ≤ kindSymlink) ∧
      (bindFields opBind b).flatten <+: src := by
  simp only [decodeBind, require_bind_eq_ok, bind_eq_ok (x := decodeBindFields L src),
    decodeBindFields_eq_ok, pure, Except.pure, Except.ok.injEq]
  constructor
  · rintro ⟨-, hop, b, ⟨hfit, hpass, hpre⟩, hkind, rfl⟩
    exact ⟨hfit, ⟨hpass, hkind⟩, hop ▸ hpre⟩
  · rintro ⟨hfit, ⟨hpass, hkind⟩, hpre⟩
    have hop := ((bindFields_front hfit).mp hpre).2.1
    refine ⟨?_, hop, b, ⟨hfit, hpass, hop.symm ▸ hpre⟩, hkind, rfl⟩
    rintro rfl
    exact absurd (head?_of_front hpre) (by decide)

theorem decodeBindingRestore_eq_ok {b : DecodedBind} :
    decodeBindingRestore L src = .ok b ↔ b.FitsWire ∧ b.Passes L ∧
      (bindFields opBindingRestore b).flatten <+: src := by
  simp only [decodeBindingRestore, require_bind_eq_ok, decodeBindFields_eq_ok]
  constructor
  · rintro ⟨-, hop, hfit, hpass, hpre⟩
    exact ⟨hfit, hpass, hop ▸ hpre⟩
  · rintro ⟨hfit, hpass, hpre⟩
    have hop := ((bindFields_front hfit).mp hpre).2.1
    refine ⟨?_, hop, hfit, hpass, hop.symm ▸ hpre⟩
    rintro rfl
    exact absurd (head?_of_front hpre) (by decide)

theorem decodeGcReserveReq_op {op : UInt8} (hop : op = opGcReserve ∨ op = opGcRelease)
    (hhead : src.head? = some op) {q : Bytes × UInt64} :
    decodeGcReserveReq src = .ok q ↔ FitsTwo q.1 ∧ (gcFields op q.1 q.2).flatten <+: src := by
  have hget : src.getD 0 0 = op := by
    cases src with
    | nil => cases hhead
    | cons x xs =>
      cases hhead
      rfl
  rw [decodeGcReserveReq_eq_ok, hget]
  exact and_congr_right fun _ => and_iff_right hop

theorem leaseRestoreFlushing_eq (m : DecodedLeaseRestore) (flags : UInt8)
    (hpre : (leaseRestoreFields m flags).flatten <+: src) (hflags : src.getD 45 0 = flags) :
    leaseRestoreFlushing src = (flags &&& 2 != 0) := by
  have hlen : 45 < src.length := by
    have hle := hpre.length_le
    simp [leaseRestoreFields, length_fixed] at hle
    omega
  rw [leaseRestoreFlushing, decide_eq_true (head?_of_front hpre), decide_eq_true hlen, hflags]
  rfl

/-- What a decoder returns is spelt at the front, and passes what the decoder looks at. -/
theorem of_decode (h : decode L src = .ok v) :
    v.FitsWire ∧ v.Accepted L ∧ ∃ r, v.Spelt r ∧ r <+: src := by
  rw [decode] at h
  rcases ite_eq_iff.mp h with ⟨-, h⟩ | ⟨-, h⟩
  · obtain ⟨b, hb, rfl⟩ := map_eq_ok.mp h
    obtain ⟨hfit, hacc, hpre⟩ := decodeBind_eq_ok.mp hb
    exact ⟨hfit, hacc, _, rfl, hpre⟩
  rcases ite_eq_iff.mp h with ⟨-, h⟩ | ⟨-, h⟩
  · obtain ⟨b, hb, rfl⟩ := map_eq_ok.mp h
    obtain ⟨hfit, hpass, hpre⟩ := decodeBindingRestore_eq_ok.mp hb
    exact ⟨⟨hfit.1, hfit.2, hfit.3, hfit.4, hfit.5⟩, ⟨hpass.1, hpass.2, hpass.3,
      (by decide : (0 : UInt8) ≤ condRevision)⟩, _,
      ⟨b.cond, hpass.4, b.expect, rfl⟩, hpre⟩
  rcases ite_eq_iff.mp h with ⟨-, h⟩ | ⟨-, h⟩
  · obtain ⟨m, hm, rfl⟩ := map_eq_ok.mp h
    obtain ⟨hfit, hpre⟩ := decodeRename_eq_ok.mp hm
    exact ⟨hfit, trivial, _, rfl, hpre⟩
  rcases ite_eq_iff.mp h with ⟨-, h⟩ | ⟨-, h⟩
  · obtain ⟨m, hm, rfl⟩ := map_eq_ok.mp h
    obtain ⟨hfit, hacc, hpre⟩ := decodeUnbind_eq_ok.mp hm
    exact ⟨hfit, hacc, _, rfl, hpre⟩
  rcases ite_eq_iff.mp h with ⟨-, h⟩ | ⟨-, h⟩
  · obtain ⟨m, hm, rfl⟩ := map_eq_ok.mp h
    obtain ⟨hfit, hacc, hpre⟩ := decodeRetain_eq_ok.mp hm
    exact ⟨hfit, hacc, _, rfl, hpre⟩
  rcases ite_eq_iff.mp h with ⟨-, h⟩ | ⟨-, h⟩
  · obtain ⟨k, hk, rfl⟩ := map_eq_ok.mp h
    obtain ⟨hfit, hpre⟩ := decodeLookupReq_eq_ok.mp hk
    exact ⟨hfit, trivial, _, rfl, hpre⟩
  rcases ite_eq_iff.mp h with ⟨-, h⟩ | ⟨-, h⟩
  · obtain ⟨m, hm, rfl⟩ := map_eq_ok.mp h
    obtain ⟨hfit, hacc, hpre⟩ := decodeListReq_eq_ok.mp hm
    exact ⟨hfit, hacc, _, rfl, hpre⟩
  rcases ite_eq_iff.mp h with ⟨-, h⟩ | ⟨-, h⟩
  · obtain ⟨q, hq, rfl⟩ := map_eq_ok.mp h
    obtain ⟨hfit, hpre⟩ := decodeReferencedReq_eq_ok.mp hq
    exact ⟨hfit, trivial, _, rfl, hpre⟩
  rcases ite_eq_iff.mp h with ⟨-, h⟩ | ⟨-, h⟩
  · obtain ⟨q, hq, rfl⟩ := map_eq_ok.mp h
    obtain ⟨hfit, hpre⟩ := decodeRetainedReq_eq_ok.mp hq
    exact ⟨hfit, trivial, _, rfl, hpre⟩
  rcases ite_eq_iff.mp h with ⟨hop, h⟩ | ⟨-, h⟩
  · obtain ⟨q, hq, rfl⟩ := map_eq_ok.mp h
    obtain ⟨hfit, hpre⟩ := (decodeGcReserveReq_op (.inl rfl) hop).mp hq
    exact ⟨hfit, trivial, _, rfl, hpre⟩
  rcases ite_eq_iff.mp h with ⟨hop, h⟩ | ⟨-, h⟩
  · obtain ⟨q, hq, rfl⟩ := map_eq_ok.mp h
    obtain ⟨hfit, hpre⟩ := (decodeGcReserveReq_op (.inr rfl) hop).mp hq
    exact ⟨hfit, trivial, _, ⟨q.2, rfl⟩, hpre⟩
  rcases ite_eq_iff.mp h with ⟨-, h⟩ | ⟨-, h⟩
  · obtain ⟨m, hm, rfl⟩ := map_eq_ok.mp h
    obtain ⟨hfit, hacc, hpre⟩ := decodeLeaseReq_eq_ok.mp hm
    exact ⟨hfit, hacc, _, rfl, hpre⟩
  rcases ite_eq_iff.mp h with ⟨-, h⟩ | ⟨-, h⟩
  · obtain ⟨m, hm, rfl⟩ := map_eq_ok.mp h
    obtain ⟨hfit, ⟨hkey, hlive⟩, hpre⟩ := decodeLeaseRestore_eq_ok.mp hm
    exact ⟨hfit, hkey, _, ⟨src.getD 45 0, hlive,
      (leaseRestoreFlushing_eq m _ hpre rfl).symm, rfl⟩, hpre⟩
  rcases ite_eq_iff.mp h with ⟨-, h⟩ | ⟨-, h⟩
  · obtain ⟨m, hm, rfl⟩ := map_eq_ok.mp h
    obtain ⟨hfit, hacc, hpre⟩ := decodeVolumeReq_eq_ok.mp hm
    exact ⟨hfit, hacc, _, rfl, hpre⟩
  rcases ite_eq_iff.mp h with ⟨-, h⟩ | ⟨-, h⟩
  · obtain ⟨c, hc, rfl⟩ := map_eq_ok.mp h
    exact ⟨trivial, trivial, _, rfl, decodeVolumeRootsReq_eq_ok.mp hc⟩
  cases hhead : src.head? with
  | none => rw [hhead] at h; cases h
  | some op => rw [hhead] at h; cases h

theorem decode_of_spelt (hfit : v.FitsWire) (hacc : v.Accepted L) (hr : v.Spelt r)
    (hpre : r <+: src) : decode L src = .ok v := by
  cases v with
  | bind b =>
    cases hr
    rw [decode, head?_of_front hpre]
    exact map_eq_ok.mpr ⟨b, decodeBind_eq_ok.mpr ⟨hfit, hacc, hpre⟩, rfl⟩
  | bindingRestore k b =>
    obtain ⟨cond, hc, expect, rfl⟩ := hr
    rw [decode, head?_of_front hpre]
    exact map_eq_ok.mpr ⟨⟨k, b, cond, expect⟩, decodeBindingRestore_eq_ok.mpr
      ⟨⟨hfit.1, hfit.2, hfit.3, hfit.4, hfit.5⟩, ⟨hacc.1, hacc.2, hacc.3, hc⟩, hpre⟩, rfl⟩
  | rename m =>
    cases hr
    rw [decode, head?_of_front hpre]
    exact map_eq_ok.mpr ⟨m, decodeRename_eq_ok.mpr ⟨hfit, hpre⟩, rfl⟩
  | unbind m =>
    cases hr
    rw [decode, head?_of_front hpre]
    exact map_eq_ok.mpr ⟨m, decodeUnbind_eq_ok.mpr ⟨hfit, hacc, hpre⟩, rfl⟩
  | retain m =>
    cases hr
    rw [decode, head?_of_front hpre]
    exact map_eq_ok.mpr ⟨m, decodeRetain_eq_ok.mpr ⟨hfit, hacc, hpre⟩, rfl⟩
  | lookup k =>
    cases hr
    rw [decode, head?_of_front hpre]
    exact map_eq_ok.mpr ⟨k, decodeLookupReq_eq_ok.mpr ⟨hfit, hpre⟩, rfl⟩
  | list m =>
    cases hr
    rw [decode, head?_of_front hpre]
    exact map_eq_ok.mpr ⟨m, decodeListReq_eq_ok.mpr ⟨hfit, hacc, hpre⟩, rfl⟩
  | referenced cursor oid =>
    cases hr
    rw [decode, head?_of_front hpre]
    exact map_eq_ok.mpr ⟨(cursor, oid), decodeReferencedReq_eq_ok.mpr ⟨hfit, hpre⟩, rfl⟩
  | retained cursor oid now =>
    cases hr
    rw [decode, head?_of_front hpre]
    exact map_eq_ok.mpr ⟨(cursor, oid, now), decodeRetainedReq_eq_ok.mpr ⟨hfit, hpre⟩, rfl⟩
  | gcReserve oid now =>
    cases hr
    rw [decode, head?_of_front hpre]
    exact map_eq_ok.mpr ⟨(oid, now),
      (decodeGcReserveReq_op (.inl rfl) (head?_of_front hpre)).mpr ⟨hfit, hpre⟩, rfl⟩
  | gcRelease oid =>
    obtain ⟨now, rfl⟩ := hr
    rw [decode, head?_of_front hpre]
    exact map_eq_ok.mpr ⟨(oid, now),
      (decodeGcReserveReq_op (.inr rfl) (head?_of_front hpre)).mpr ⟨hfit, hpre⟩, rfl⟩
  | lease m =>
    cases hr
    rw [decode, head?_of_front hpre]
    exact map_eq_ok.mpr ⟨m, decodeLeaseReq_eq_ok.mpr ⟨hfit, hacc, hpre⟩, rfl⟩
  | leaseRestore m flushing =>
    obtain ⟨flags, hlive, hflush, rfl⟩ := hr
    have hflags := ((leaseRestoreFields_front hfit.1 hfit.2).mp hpre).2.2.2.2.2.2.2.2.1
    rw [decode, head?_of_front hpre]
    refine map_eq_ok.mpr ⟨m, decodeLeaseRestore_eq_ok.mpr ⟨hfit, ⟨hacc, ?_⟩, ?_⟩, ?_⟩
    · rw [hflags, hlive]
    · rwa [hflags]
    · rw [leaseRestoreFlushing_eq m flags hpre hflags, hflush]
  | volume m =>
    cases hr
    rw [decode, head?_of_front hpre]
    exact map_eq_ok.mpr ⟨m, decodeVolumeReq_eq_ok.mpr ⟨hfit, hacc, hpre⟩, rfl⟩
  | volumeRoots cursor =>
    cases hr
    rw [decode, head?_of_front hpre]
    exact map_eq_ok.mpr ⟨cursor, decodeVolumeRootsReq_eq_ok.mpr hpre, rfl⟩

/-- **A decoder returns a record** just when the record is spelt at the front
and passes what the decoder looks at. -/
theorem decode_eq_ok :
    decode L src = .ok v ↔ v.FitsWire ∧ v.Accepted L ∧ ∃ r, v.Spelt r ∧ r <+: src :=
  ⟨of_decode, fun ⟨hfit, hacc, _, hr, hpre⟩ => decode_of_spelt hfit hacc hr hpre⟩

end WireRecord

namespace WireAnswer

/-! ## What an answer is -/

/-- The bytes of an answer, as the encoders write them. -/
def bytes : WireAnswer → Bytes
  | writeAck op fence => (writeAckFields op fence).flatten
  | found b => [opLookup, lookupFound] ++ putBinding b
  | notFound floor => [opLookup, lookupNotFound] ++ leBytes 8 floor.toNat
  | page es more => [opList, UInt8.ofNat es.length, flagByte more]
      ++ (es.map fun e => putEntry e.1 e.2).flatten
  | gcReserve reserved => (flagFields opGcReserve (flagByte reserved) []).flatten
  | referenced flag next =>
    (flagFields opReferenced (flagByte flag) (leBytes 4 next.toNat)).flatten
  | retained flag next => (flagFields opRetained (flagByte flag) (leBytes 4 next.toNat)).flatten
  | lease status fence expires => (leaseRespFields status fence expires).flatten
  | volume status revision => (volumeRespFields status revision).flatten
  | volumeRoots next view ds =>
    (volumeRootsFields next view ds.length (ds.map Subtype.val).flatten).flatten

/-- The encoder takes the answer. -/
def Passes (L : Limits) : WireAnswer → Prop
  | writeAck op fence => isWriteOp op ∧ fence.length ≤ ackFenceMax
  | found b => b.objectId.length ≤ 255 ∧ b.metadata.contentType.length ≤ L.contentTypeMax ∧
      b.metadata.keyRef.length ≤ L.keyRefMax
  | page es _ => es.length ≤ maxListPage
  | volumeRoots _ _ ds => ds.length ≤ maxVolumeRoots
  | _ => True

/-- The lengths of the answer fit their fields. -/
def FitsWire : WireAnswer → Prop
  | found b => b.FitsWire
  | page es _ => ∀ e ∈ es, EntryFitsWire e
  | _ => True

/-- What the decoder looks at of an answer. -/
def Accepted : WireAnswer → Prop
  | writeAck op fence => isWriteOp op ∧ fence.length ≤ ackFenceMax
  | page es _ => es.length ≤ maxListPage
  | volumeRoots _ _ ds => ds.length ≤ maxVolumeRoots
  | _ => True

/-- **The bytes a decoder takes for an answer.** -/
def Spelt : WireAnswer → Bytes → Prop
  | found b, r => ∃ hold : UInt8, (hold != 0) = b.metadata.hold ∧
      r = [opLookup, lookupFound] ++ (bindingFields b hold).flatten
  | page es more, r => ∃ m : UInt8, (m != 0) = more ∧ ∃ gs, List.Forall₂ EntrySpelt es gs ∧
      r = [opList, UInt8.ofNat es.length, m] ++ gs.flatten
  | gcReserve reserved, r => ∃ flag : UInt8, (flag != 0) = reserved ∧
      r = (flagFields opGcReserve flag []).flatten
  | referenced b next, r => ∃ flag : UInt8, (flag != 0) = b ∧
      r = (flagFields opReferenced flag (leBytes 4 next.toNat)).flatten
  | retained b next, r => ∃ flag : UInt8, (flag != 0) = b ∧
      r = (flagFields opRetained flag (leBytes 4 next.toNat)).flatten
  | v, r => r = v.bytes

/-- The decoder looks at all of the answer. -/
def Exact : WireAnswer → Prop
  | found _ | page _ _ | gcReserve _ | referenced _ _ | retained _ _ => False
  | _ => True

theorem eq_of_spelt {v : WireAnswer} {r : Bytes} (he : v.Exact) (h : v.Spelt r) : r = v.bytes := by
  cases v with
  | found | page | gcReserve | referenced | retained => exact he.elim
  | _ => exact h

theorem flagByte_ne_zero (b : Bool) : (flagByte b != 0) = b := by cases b <;> rfl

theorem entrySpelt_putEntry {e : Bytes × Binding} (he : EntryFitsWire e) :
    EntrySpelt e (putEntry e.1 e.2) :=
  ⟨he, _, flagByte_ne_zero _, putEntry_eq e⟩

theorem length_of_entrySpelt {e : Bytes × Binding} {g : Bytes} (h : EntrySpelt e g) :
    g.length = (putEntry e.1 e.2).length := by
  obtain ⟨-, hold, -, rfl⟩ := h
  rw [length_entryFields, length_putEntry]

theorem spelt_bytes {v : WireAnswer} (hfit : v.FitsWire) : v.Spelt v.bytes := by
  cases v with
  | found b => exact ⟨_, flagByte_ne_zero _, rfl⟩
  | page es more =>
    refine ⟨_, flagByte_ne_zero _, _, ?_, rfl⟩
    rw [List.forall₂_map_right_iff, List.forall₂_same]
    exact fun e he => entrySpelt_putEntry (hfit e he)
  | gcReserve reserved => exact ⟨_, flagByte_ne_zero _, rfl⟩
  | referenced flag next => exact ⟨_, flagByte_ne_zero _, rfl⟩
  | retained flag next => exact ⟨_, flagByte_ne_zero _, rfl⟩
  | _ => rfl

/-- All that is taken for an answer is of one length. -/
theorem length_of_spelt {v : WireAnswer} {r : Bytes} (h : v.Spelt r) : r.length = v.bytes.length := by
  cases v with
  | found b =>
    obtain ⟨hold, -, rfl⟩ := h
    rw [bytes, putBinding, List.length_append, List.length_append, length_bindingFields,
      length_bindingFields]
  | page es more =>
    obtain ⟨m, -, gs, hgs, rfl⟩ := h
    have hlen : gs.flatten.length = (es.map fun e => putEntry e.1 e.2).flatten.length := by
      induction hgs with
      | nil => rfl
      | cons he _ ih =>
        rw [List.map_cons, List.flatten_cons, List.flatten_cons, List.length_append,
          List.length_append, ih, length_of_entrySpelt he]
    rw [bytes, List.length_append, List.length_append, hlen]
    rfl
  | gcReserve reserved =>
    obtain ⟨flag, -, rfl⟩ := h
    rfl
  | referenced flag next =>
    obtain ⟨flag, -, rfl⟩ := h
    simp [bytes, flagFields]
  | retained flag next =>
    obtain ⟨flag, -, rfl⟩ := h
    simp [bytes, flagFields]
  | _ => exact congrArg List.length h

variable {L : Limits} {room : ℕ} {src : Bytes} {v : WireAnswer} {r : Bytes}

/-! ## The encoders of answers -/

theorem toOption_eq_some {x : Except WireError Bytes} : x.toOption = some r ↔ x = .ok r := by
  cases x with
  | error e => exact ⟨fun h => (by cases h), fun h => (by cases h)⟩
  | ok a => exact ⟨fun h => (by cases h; rfl), fun h => (by cases h; rfl)⟩

/-- **An encoder writes the bytes of an answer** that passes its checks. -/
theorem encode_eq_some (h : v.encode L room = some r) : v.Passes L ∧ v.bytes = r := by
  cases v with
  | page es more =>
    obtain ⟨hcount, rfl⟩ := encodeListResp_eq_some h
    exact ⟨hcount, rfl⟩
  | writeAck op fence =>
    simp only [encode, toOption_eq_some, encodeWriteAck, require_bind_eq_ok, intoRoom_eq_ok] at h
    exact ⟨⟨h.1, h.2.1⟩, h.2.2.2⟩
  | found b =>
    simp only [encode, toOption_eq_some, encodeLookupFound, require_bind_eq_ok, intoRoom_eq_ok] at h
    exact ⟨h.1, h.2.2⟩
  | volumeRoots next view ds =>
    simp only [encode, toOption_eq_some, encodeVolumeRootsResp, require_bind_eq_ok,
      intoRoom_eq_ok] at h
    exact ⟨h.1, h.2.2⟩
  | notFound floor => exact ⟨trivial, (intoRoom_eq_ok.mp (toOption_eq_some.mp h)).2⟩
  | gcReserve reserved => exact ⟨trivial, (intoRoom_eq_ok.mp (toOption_eq_some.mp h)).2⟩
  | referenced flag next => exact ⟨trivial, (intoRoom_eq_ok.mp (toOption_eq_some.mp h)).2⟩
  | retained flag next => exact ⟨trivial, (intoRoom_eq_ok.mp (toOption_eq_some.mp h)).2⟩
  | lease status fence expires => exact ⟨trivial, (intoRoom_eq_ok.mp (toOption_eq_some.mp h)).2⟩
  | volume status revision => exact ⟨trivial, (intoRoom_eq_ok.mp (toOption_eq_some.mp h)).2⟩

theorem encode_of_room (h : v.Passes L) (hroom : v.bytes.length ≤ room) :
    v.encode L room = some v.bytes := by
  cases v with
  | page es more =>
    refine encodeListResp_of_room h ?_
    rw [bytes, List.length_append] at hroom
    exact hroom
  | writeAck op fence =>
    simp only [encode, toOption_eq_some, encodeWriteAck, require_bind_eq_ok, intoRoom_eq_ok]
    exact ⟨h.1, h.2, hroom, rfl⟩
  | found b =>
    simp only [encode, toOption_eq_some, encodeLookupFound, require_bind_eq_ok, intoRoom_eq_ok]
    exact ⟨h, hroom, rfl⟩
  | volumeRoots next view ds =>
    simp only [encode, toOption_eq_some, encodeVolumeRootsResp, require_bind_eq_ok, intoRoom_eq_ok]
    exact ⟨h, hroom, rfl⟩
  | notFound floor => exact toOption_eq_some.mpr (intoRoom_eq_ok.mpr ⟨hroom, rfl⟩)
  | gcReserve reserved => exact toOption_eq_some.mpr (intoRoom_eq_ok.mpr ⟨hroom, rfl⟩)
  | referenced flag next => exact toOption_eq_some.mpr (intoRoom_eq_ok.mpr ⟨hroom, rfl⟩)
  | retained flag next => exact toOption_eq_some.mpr (intoRoom_eq_ok.mpr ⟨hroom, rfl⟩)
  | lease status fence expires => exact toOption_eq_some.mpr (intoRoom_eq_ok.mpr ⟨hroom, rfl⟩)
  | volume status revision => exact toOption_eq_some.mpr (intoRoom_eq_ok.mpr ⟨hroom, rfl⟩)

/-! ## The decoders of answers -/

theorem Passes.accepted (h : v.Passes L) : v.Accepted := by
  cases v with
  | writeAck op fence => exact h
  | page es more => exact h
  | volumeRoots next view ds => exact h
  | _ => trivial

theorem lengths_digests (ds : List (FixedBytes 32)) :
    (ds.map Subtype.val).map List.length = List.replicate ds.length 32 := by
  rw [List.map_map]
  refine List.eq_replicate_iff.mpr ⟨List.length_map _, fun n hn => ?_⟩
  obtain ⟨d, -, rfl⟩ := List.mem_map.mp hn
  exact d.property

theorem length_flatten_digests (ds : List (FixedBytes 32)) :
    (ds.map Subtype.val).flatten.length = ds.length * 32 := by
  rw [List.length_flatten, lengths_digests, List.sum_replicate_nat]

/-- Digests one after another are told apart. -/
theorem digests_flatten (ds : List (FixedBytes 32)) : digests (ds.map Subtype.val).flatten = ds := by
  have hcut := Slices.cutAt_flatten (ds.map Subtype.val) []
  rw [List.append_nil, lengths_digests] at hcut
  rw [digests, length_flatten_digests, Nat.mul_div_cancel _ (by decide), hcut, List.map_map]
  refine List.map_id'' (fun d => Subtype.ext ?_) ds
  show (d.val ++ List.replicate 32 0).take 32 = d.val
  rw [List.take_left' d.property]

theorem flatten_digests {bs : Bytes} {n : ℕ} (h : bs.length = n * 32) :
    ((digests bs).map Subtype.val).flatten = bs ∧ (digests bs).length = n := by
  have hdiv : bs.length / 32 = n := by omega
  have hcut : ∀ (n a : ℕ), a + n * 32 ≤ bs.length →
      ((Slices.cutAt a (List.replicate n 32) bs).map fun d => (FixedBytes.ofBytes 32 d).val)
        = Slices.cutAt a (List.replicate n 32) bs ∧
      (Slices.cutAt a (List.replicate n 32) bs).length = n := by
    intro n
    induction n with
    | zero => exact fun _ _ => ⟨rfl, rfl⟩
    | succ n ih =>
      intro a ha
      obtain ⟨hmap, hlen⟩ := ih (a + 32) (by omega)
      have hslice : (Slices.slice bs a 32).length = 32 := Slices.length_slice (by omega)
      rw [List.replicate_succ, Slices.cutAt, List.map_cons, hmap, List.length_cons, hlen]
      refine ⟨?_, rfl⟩
      congr 1
      show (Slices.slice bs a 32 ++ List.replicate 32 0).take 32 = _
      rw [List.take_left' hslice]
  obtain ⟨hmap, hlen⟩ := hcut n 0 (by omega)
  rw [digests, hdiv, List.map_map, List.length_map, hlen]
  refine ⟨?_, rfl⟩
  show ((Slices.cutAt 0 (List.replicate n 32) bs).map fun d => (FixedBytes.ofBytes 32 d).val).flatten = bs
  rw [hmap, Slices.flatten_cutAt, List.sum_replicate_nat, Slices.slice_zero,
    List.take_of_length_le (by omega)]

theorem entriesFit_of_spelt {es : List (Bytes × Binding)} {gs : List Bytes}
    (h : List.Forall₂ EntrySpelt es gs) : ∀ e ∈ es, EntryFitsWire e := by
  induction h with
  | nil => exact fun e he => absurd he List.not_mem_nil
  | cons he _ ih =>
    intro e hmem
    cases hmem with
    | head => exact he.1
    | tail _ hmem => exact ih e hmem

/-- What a decoder returns is spelt at the front, and passes what the decoder looks at. -/
theorem of_decode (h : decode src = .ok v) :
    v.FitsWire ∧ v.Accepted ∧ ∃ r, v.Spelt r ∧ r <+: src := by
  rw [decode] at h
  rcases ite_eq_iff.mp h with ⟨-, h⟩ | ⟨-, h⟩
  · obtain ⟨a, ha, rfl⟩ := map_eq_ok.mp h
    cases a with
    | found b =>
      obtain ⟨hfit, hold, hheld, hpre⟩ := decodeLookupResp_found.mp ha
      exact ⟨hfit, trivial, _, ⟨hold, hheld, rfl⟩, hpre⟩
    | notFound floor => exact ⟨trivial, trivial, _, rfl, decodeLookupResp_notFound.mp ha⟩
  rcases ite_eq_iff.mp h with ⟨-, h⟩ | ⟨-, h⟩
  · obtain ⟨p, hp, rfl⟩ := map_eq_ok.mp h
    obtain ⟨hmax, m, hmore, gs, hgs, hpre⟩ := decodeListResp_eq_ok.mp hp
    exact ⟨entriesFit_of_spelt hgs, hmax, _, ⟨m, hmore, gs, hgs, rfl⟩, hpre⟩
  rcases ite_eq_iff.mp h with ⟨-, h⟩ | ⟨-, h⟩
  · obtain ⟨b, hb, rfl⟩ := map_eq_ok.mp h
    obtain ⟨flag, hflag, hpre⟩ := decodeGcReserveResp_eq_ok.mp hb
    exact ⟨trivial, trivial, _, ⟨flag, hflag, rfl⟩, hpre⟩
  rcases ite_eq_iff.mp h with ⟨-, h⟩ | ⟨-, h⟩
  · obtain ⟨p, hp, rfl⟩ := map_eq_ok.mp h
    obtain ⟨flag, hflag, hpre⟩ := decodeScanResp_eq_ok.mp hp
    exact ⟨trivial, trivial, _, ⟨flag, hflag, rfl⟩, hpre⟩
  rcases ite_eq_iff.mp h with ⟨-, h⟩ | ⟨-, h⟩
  · obtain ⟨p, hp, rfl⟩ := map_eq_ok.mp h
    obtain ⟨flag, hflag, hpre⟩ := decodeScanResp_eq_ok.mp hp
    exact ⟨trivial, trivial, _, ⟨flag, hflag, rfl⟩, hpre⟩
  rcases ite_eq_iff.mp h with ⟨-, h⟩ | ⟨-, h⟩
  · obtain ⟨p, hp, rfl⟩ := map_eq_ok.mp h
    exact ⟨trivial, trivial, _, rfl, decodeLeaseResp_eq_ok.mp hp⟩
  rcases ite_eq_iff.mp h with ⟨-, h⟩ | ⟨-, h⟩
  · obtain ⟨p, hp, rfl⟩ := map_eq_ok.mp h
    exact ⟨trivial, trivial, _, rfl, decodeVolumeResp_eq_ok.mp hp⟩
  rcases ite_eq_iff.mp h with ⟨-, h⟩ | ⟨-, h⟩
  · obtain ⟨p, hp, rfl⟩ := map_eq_ok.mp h
    obtain ⟨count, hmax, hds, hpre⟩ := decodeVolumeRootsResp_eq_ok.mp hp
    obtain ⟨hflat, hcount⟩ := flatten_digests (n := count) hds
    refine ⟨trivial, ?_, _, rfl, ?_⟩
    · rw [Accepted, hcount]
      exact hmax
    · rw [bytes, hflat, hcount]
      exact hpre
  obtain ⟨p, hp, rfl⟩ := map_eq_ok.mp h
  obtain ⟨hacc, hpre⟩ := decodeWriteAck_eq_ok.mp hp
  exact ⟨trivial, hacc, _, rfl, hpre⟩

theorem decode_of_spelt (hfit : v.FitsWire) (hacc : v.Accepted) (hr : v.Spelt r)
    (hpre : r <+: src) : decode src = .ok v := by
  cases v with
  | writeAck op fence =>
    cases hr
    have hop : ∀ x ∈ [opLookup, opList, opGcReserve, opReferenced, opRetained, opLease, opVolume,
        opVolumeRoots], ¬ some op = some x := by
      rcases hacc.1 with rfl | rfl | rfl | rfl <;> exact List.all_iff_forall_prop.mp (by decide)
    rw [decode, head?_of_front hpre]
    repeat rw [if_neg (hop _ (by simp))]
    exact map_eq_ok.mpr ⟨(op, fence), decodeWriteAck_eq_ok.mpr ⟨hacc, hpre⟩, rfl⟩
  | found b =>
    obtain ⟨hold, hheld, rfl⟩ := hr
    rw [decode, head?_of_front hpre]
    exact map_eq_ok.mpr ⟨.found b, decodeLookupResp_found.mpr ⟨hfit, hold, hheld, hpre⟩, rfl⟩
  | notFound floor =>
    cases hr
    rw [decode, head?_of_front hpre]
    exact map_eq_ok.mpr ⟨.notFound floor, decodeLookupResp_notFound.mpr hpre, rfl⟩
  | page es more =>
    obtain ⟨m, hmore, gs, hgs, rfl⟩ := hr
    rw [decode, head?_of_front hpre]
    exact map_eq_ok.mpr ⟨(es, more), decodeListResp_eq_ok.mpr ⟨hacc, m, hmore, gs, hgs, hpre⟩, rfl⟩
  | gcReserve reserved =>
    obtain ⟨flag, hflag, rfl⟩ := hr
    rw [decode, head?_of_front hpre]
    exact map_eq_ok.mpr ⟨reserved, decodeGcReserveResp_eq_ok.mpr ⟨flag, hflag, hpre⟩, rfl⟩
  | referenced b next =>
    obtain ⟨flag, hflag, rfl⟩ := hr
    rw [decode, head?_of_front hpre]
    exact map_eq_ok.mpr ⟨(b, next), decodeScanResp_eq_ok.mpr ⟨flag, hflag, hpre⟩, rfl⟩
  | retained b next =>
    obtain ⟨flag, hflag, rfl⟩ := hr
    rw [decode, head?_of_front hpre]
    exact map_eq_ok.mpr ⟨(b, next), decodeScanResp_eq_ok.mpr ⟨flag, hflag, hpre⟩, rfl⟩
  | lease status fence expires =>
    cases hr
    rw [decode, head?_of_front hpre]
    exact map_eq_ok.mpr ⟨(status, fence, expires), decodeLeaseResp_eq_ok.mpr hpre, rfl⟩
  | volume status revision =>
    cases hr
    rw [decode, head?_of_front hpre]
    exact map_eq_ok.mpr ⟨(status, revision), decodeVolumeResp_eq_ok.mpr hpre, rfl⟩
  | volumeRoots next view ds =>
    cases hr
    rw [decode, head?_of_front hpre]
    refine map_eq_ok.mpr ⟨(next, view, (ds.map Subtype.val).flatten),
      decodeVolumeRootsResp_eq_ok.mpr ⟨ds.length, hacc, ?_, hpre⟩, ?_⟩
    · exact length_flatten_digests ds
    · rw [digests_flatten]

/-- **A decoder returns an answer** just when the answer is spelt at the front
and passes what the decoder looks at. -/
theorem decode_eq_ok :
    decode src = .ok v ↔ v.FitsWire ∧ v.Accepted ∧ ∃ r, v.Spelt r ∧ r <+: src :=
  ⟨of_decode, fun ⟨hfit, hacc, _, hr, hpre⟩ => decode_of_spelt hfit hacc hr hpre⟩

end WireAnswer

end Loam

import Loam.WireFraming

/-!
# Round trips, and the ceilings of a key

What an encoder writes is decoded to what it was written from, with anything
behind it. The other way, a decoder takes for a record strings that no encoder
writes, but only where it does not look at all of a field; and they are as long
as what the encoder writes.

The ceilings of a key are checked by every encoder. They are checked by the
decoders of a bind, a retention, a listing, a lease and a volume; the decoders
of a rename, an unbind, a lookup and of the questions about an object take the
lengths as they are.
-/

namespace Loam

open Slices

/-! ## Round trips -/

/-- **The wire is read as it is written.** A record within the ceilings is
encoded wherever there is room, and what is encoded is decoded to it. What is
decoded was spelt as the record is; where the decoder looks at all of it, as the
encoder writes it. -/
theorem wire_round_trip (p : Profile) :
    (∀ v : WireRecord, v.Passes p.limits → v.KindKnown →
      (∀ room, v.bytes.length ≤ room → v.encode p.limits room = .ok v.bytes) ∧
        ∀ t, WireRecord.decode p.limits (v.bytes ++ t) = .ok v) ∧
    (∀ a : WireAnswer, a.Passes p.limits → a.FitsWire →
      (∀ room, a.bytes.length ≤ room → a.encode p.limits room = some a.bytes) ∧
        ∀ t, WireAnswer.decode (a.bytes ++ t) = .ok a) ∧
    (∀ src v, WireRecord.decode p.limits src = .ok v → ∃ r, r <+: src ∧ v.Spelt r ∧
      r.length = v.bytes.length ∧ (v.Exact → r = v.bytes) ∧
        (v.Passes p.limits → v.encode p.limits r.length = .ok v.bytes)) ∧
    ∀ src a, WireAnswer.decode src = .ok a → ∃ r, r <+: src ∧ a.Spelt r ∧
      r.length = a.bytes.length ∧ (a.Exact → r = a.bytes) ∧
        (a.Passes p.limits → a.encode p.limits r.length = some a.bytes) := by
  refine ⟨fun v hpass hk => ⟨fun room hroom => ?_, fun t => ?_⟩,
    fun a hpass hfit => ⟨fun room hroom => ?_, fun t => ?_⟩, fun src v h => ?_, fun src a h => ?_⟩
  · exact WireRecord.encode_eq_ok.mpr ⟨hpass, hroom, rfl⟩
  · exact WireRecord.decode_bytes p.fitsWire hpass hk t
  · exact WireAnswer.encode_of_room hpass hroom
  · exact WireAnswer.decode_bytes hpass hfit t
  · obtain ⟨-, -, r, hr, hpre⟩ := WireRecord.decode_eq_ok.mp h
    have hlen := WireRecord.length_of_spelt hr
    exact ⟨r, hpre, hr, hlen, fun he => WireRecord.eq_of_spelt he hr, fun hpass =>
      WireRecord.encode_eq_ok.mpr ⟨hpass, hlen.ge, rfl⟩⟩
  · obtain ⟨-, -, r, hr, hpre⟩ := WireAnswer.decode_eq_ok.mp h
    have hlen := WireAnswer.length_of_spelt hr
    exact ⟨r, hpre, hr, hlen, fun he => WireAnswer.eq_of_spelt he hr, fun hpass =>
      WireAnswer.encode_of_room hpass hlen.ge⟩

theorem wire_round_trip_held :
    (∀ t, WireRecord.decode .minimal (heldBind.bytes ++ t) = .ok heldBind) ∧
      ∀ t, WireAnswer.decode (heldPage.bytes ++ t) = .ok heldPage :=
  ⟨((wire_round_trip .minimal).1 heldBind (by constructor <;> decide +kernel)
      (show (1 : UInt8) ≤ _ by decide)).2,
    ((wire_round_trip .minimal).2.1 heldPage (by simp [WireAnswer.Passes, heldPage]; decide) heldPage_fitsWire).2⟩

/-- A page that says 2 for more is taken, and written back with 1. -/
theorem page_written_back_otherwise :
    WireAnswer.decode [5, 0, 2] = .ok (.page [] true) ∧
      WireAnswer.encode .minimal 3 (.page [] true) = some [5, 0, 1] ∧
      ([5, 0, 1] : Bytes) ≠ [5, 0, 2] := by
  decide

/-! ## Ceilings -/

/-- Every root, path and object id of the record is within its ceiling. -/
def WireRecord.KeysFit (L : Limits) : WireRecord → Prop
  | bind b => L.keyFits b.key.root b.key.path b.binding.objectId = true
  | bindingRestore k b => L.keyFits k.root k.path b.objectId = true
  | rename m => L.keyFits m.root m.source [] = true ∧ L.keyFits m.root m.dest [] = true
  | unbind m => L.keyFits m.key.root m.key.path [] = true
  | retain m => L.keyFits m.key.root m.key.path [] = true
  | lookup k => L.keyFits k.root k.path [] = true
  | list m => L.keyFits m.root m.pathPrefix [] = true ∧ L.keyFits m.root m.after [] = true
  | referenced _ oid | retained _ oid _ | gcReserve oid _ | gcRelease oid =>
    L.keyFits [] [] oid = true
  | lease m => L.keyFits m.key.root m.key.path [] = true
  | leaseRestore m _ => L.keyFits m.key.root m.key.path [] = true
  | volume m => L.keyFits m.key.root m.key.path m.objectId = true
  | volumeRoots _ => True

/-- A whole record of the operation, of which a length is past its ceiling:
where the lengths stand, and their ceilings. -/
def overlongAt (op : UInt8) (header : ℕ) (lens : List (ℕ × ℕ)) (src : Bytes) : Prop :=
  src.head? = some op ∧ header ≤ src.length ∧
    header + (lens.map fun f => num src f.1 2).sum ≤ src.length ∧ ∃ f ∈ lens, f.2 < num src f.1 2

/-- **A whole record past a ceiling**, of an operation that does not check. -/
def Overlong (L : Limits) (src : Bytes) : Prop :=
  overlongAt opRename renameHdr [(1, L.maxRoot), (3, L.maxPath), (5, L.maxPath)] src ∨
  overlongAt opUnbind unbindHdr [(1, L.maxRoot), (3, L.maxPath)] src ∧
    src.getD 21 0 ≤ condRevision ∨
  overlongAt opLookup 5 [(1, L.maxRoot), (3, L.maxPath)] src ∨
  overlongAt opReferenced 7 [(5, L.maxObjectId)] src ∨
  overlongAt opRetained retainedHdr [(5, L.maxObjectId)] src ∨
  overlongAt opGcReserve gcReserveHdr [(1, L.maxObjectId)] src ∨
  overlongAt opGcRelease gcReserveHdr [(1, L.maxObjectId)] src

variable {L : Limits} {src : Bytes}

theorem keyFits_iff {root path oid : Bytes} :
    L.keyFits root path oid = true ↔
      root.length ≤ L.maxRoot ∧ path.length ≤ L.maxPath ∧ oid.length ≤ L.maxObjectId := by
  simp only [Limits.keyFits, Bool.and_eq_true, decide_eq_true_eq, and_assoc]

theorem getD_of_head? {op : UInt8} (h : src.head? = some op) : src.getD 0 0 = op := by
  cases src with
  | nil => cases h
  | cons x xs => exact Option.some.inj h

/-- The operations that do not check. -/
def uncheckedOps : List UInt8 :=
  [opRename, opUnbind, opLookup, opReferenced, opRetained, opGcReserve, opGcRelease]

/-- A record of an operation that checks is not overlong. -/
theorem not_overlong_of_head {op : UInt8} (hhead : src.head? = some op) (hop : op ∉ uncheckedOps) :
    ¬ Overlong L src := by
  rintro (h | ⟨h, -⟩ | h | h | h | h | h) <;>
    exact hop (Option.some.inj (hhead.symm.trans h.1) ▸ by decide)

/-- What is decoded is within the ceilings, unless the string is overlong. -/
theorem keysFit_iff_of_decode {v : WireRecord} (h : WireRecord.decode L src = .ok v) :
    v.KeysFit L ↔ ¬ Overlong L src := by
  obtain ⟨hfit, hacc, r, hr, hpre⟩ := WireRecord.of_decode h
  cases v with
  | bind b =>
    cases hr
    exact iff_of_true hacc.1.1 (not_overlong_of_head (head?_of_front hpre) (by decide))
  | bindingRestore k b =>
    obtain ⟨_, _, _, rfl⟩ := hr
    exact iff_of_true hacc.1 (not_overlong_of_head (head?_of_front hpre) (by decide))
  | retain m =>
    cases hr
    exact iff_of_true hacc.1 (not_overlong_of_head (head?_of_front hpre) (by decide))
  | list m | lease m | volume m =>
    cases hr
    exact iff_of_true hacc (not_overlong_of_head (head?_of_front hpre) (by decide))
  | leaseRestore m flushing =>
    obtain ⟨_, _, _, rfl⟩ := hr
    exact iff_of_true hacc (not_overlong_of_head (head?_of_front hpre) (by decide))
  | volumeRoots cursor =>
    cases hr
    exact iff_of_true trivial (not_overlong_of_head (head?_of_front hpre) (by decide))
  | rename m =>
    cases hr
    obtain ⟨hlen, -, hn1, hn2, hn3, -⟩ := (renameFields_front hfit).mp hpre
    simp +decide [WireRecord.KeysFit, keyFits_iff, Overlong, overlongAt, head?_of_front hpre, hn1, hn2,
      hn3]
    omega
  | unbind m =>
    cases hr
    obtain ⟨hlen, -, hn1, hn2, -, -, hc, -⟩ := (unbindFields_front hfit.1 hfit.2).mp hpre
    have hcond : m.cond ≤ condRevision := hacc
    simp +decide [WireRecord.KeysFit, keyFits_iff, Overlong, overlongAt, head?_of_front hpre,
      -List.getD_eq_getElem?_getD, hn1, hn2, hc, hcond]
    omega
  | lookup k =>
    cases hr
    obtain ⟨hlen, -, hn1, hn2, -⟩ := (lookupFields_front hfit.1 hfit.2).mp hpre
    simp +decide [WireRecord.KeysFit, keyFits_iff, Overlong, overlongAt, head?_of_front hpre, hn1, hn2]
    omega
  | referenced cursor oid =>
    cases hr
    obtain ⟨hlen, -, -, hn1, -⟩ := (referencedFields_front hfit).mp hpre
    simp +decide [WireRecord.KeysFit, keyFits_iff, Overlong, overlongAt, head?_of_front hpre, hn1]
    omega
  | retained cursor oid now =>
    cases hr
    obtain ⟨hlen, -, -, hn1, -⟩ := (retainedFields_front hfit).mp hpre
    simp +decide [WireRecord.KeysFit, keyFits_iff, Overlong, overlongAt, head?_of_front hpre, hn1]
    omega
  | gcReserve oid now =>
    cases hr
    obtain ⟨hlen, -, hn1, -⟩ := (gcFields_front hfit).mp hpre
    simp +decide [WireRecord.KeysFit, keyFits_iff, Overlong, overlongAt, head?_of_front hpre, hn1]
    omega
  | gcRelease oid =>
    obtain ⟨now, rfl⟩ := hr
    obtain ⟨hlen, -, hn1, -⟩ := (gcFields_front hfit).mp hpre
    simp +decide [WireRecord.KeysFit, keyFits_iff, Overlong, overlongAt, head?_of_front hpre, hn1]
    omega

/-- A string that is overlong is decoded: nothing that the decoder looks at is wrong. -/
theorem decode_of_overlong (h : Overlong L src) : ∃ v, WireRecord.decode L src = .ok v := by
  rcases h with ⟨hop, hhdr, hlen, -⟩ | ⟨⟨hop, hhdr, hlen, -⟩, hc⟩ | ⟨hop, hhdr, hlen, -⟩ |
    ⟨hop, hhdr, hlen, -⟩ | ⟨hop, hhdr, hlen, -⟩ | ⟨hop, hhdr, hlen, -⟩ | ⟨hop, hhdr, hlen, -⟩
  all_goals
    have hget := getD_of_head? hop
    simp only [List.map_cons, List.map_nil, List.sum_cons, List.sum_nil, Nat.add_zero,
      ← Nat.add_assoc] at hlen
    rw [WireRecord.decode, hop]
    refine (exists_congr fun v => map_eq_ok).mpr ?_
    simp only [decodeRename, decodeUnbind, decodeLookupReq, decodeReferencedReq, decodeRetainedReq,
      decodeGcReserveReq, require_bind_eq_ok, pure, Except.pure, Except.ok.injEq]
  · exact ⟨_, _, ⟨hhdr, hget, hlen, rfl⟩, rfl⟩
  · exact ⟨_, _, ⟨hhdr, hget, hc, hlen, rfl⟩, rfl⟩
  · exact ⟨_, _, ⟨hhdr, hget, hlen, rfl⟩, rfl⟩
  · exact ⟨_, _, ⟨hhdr, hget, hlen, rfl⟩, rfl⟩
  · exact ⟨_, _, ⟨hhdr, hget, hlen, rfl⟩, rfl⟩
  · exact ⟨_, _, ⟨hhdr, .inl hget, hlen, rfl⟩, rfl⟩
  · exact ⟨_, _, ⟨hhdr, .inr hget, hlen, rfl⟩, rfl⟩

/-- **Every key that is decoded is within the ceilings, just where the string is
not overlong.** -/
theorem decode_keysFit_iff (L : Limits) (src : Bytes) :
    (∀ v, WireRecord.decode L src = .ok v → v.KeysFit L) ↔ ¬ Overlong L src := by
  constructor
  · intro h hover
    obtain ⟨v, hv⟩ := decode_of_overlong hover
    exact (keysFit_iff_of_decode hv).mp (h v hv) hover
  · exact fun h v hv => (keysFit_iff_of_decode hv).mpr h

/-- A rename of a root of 65 bytes is decoded, though the ceiling is 64. -/
theorem rename_decoded_overlong :
    ∃ m : DecodedRename, m.root.length = 65 ∧ Limits.maxRoot .minimal = 64 ∧
      WireRecord.decode .minimal (renameFields m).flatten = .ok (.rename m) :=
  ⟨⟨List.replicate 65 0, [], [], 1, 0⟩, by decide, rfl, WireRecord.decode_eq_ok.mpr
    ⟨⟨by decide, by decide, by decide⟩, trivial, _, rfl, List.prefix_refl _⟩⟩

end Loam

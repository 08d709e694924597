import Loam.Lib.Delimited
import Loam.WireCodecs

/-!
# Records on a stream

A request or an answer comes in pieces, and the reader asks of what it has how
long the record at its front is. The lengths are read by functions of their
own, apart from the decoders, and before the record is all there; they agree
with the encoders when of every string that goes along with a record, the
answer is its length, or that more is needed.

Two things an encoder leaves unchecked. It writes a bind of a kind that no
decoder takes. And the writer of a page puts a length that is too great for its
field there cut, and the string after it whole.
-/

namespace Loam

open Slices Delimited

variable {s src r : Bytes} {a n : ℕ}

/-! ## A string that goes along with another -/

theorem slice_of_front (h : src <+: s) (ha : a + n ≤ src.length) : slice src a n = slice s a n := by
  obtain ⟨t, rfl⟩ := h
  exact (slice_append_of_le ha).symm

theorem num_of_front (h : src <+: s) (ha : a + n ≤ src.length) : num src a n = num s a n := by
  rw [num, num, slice_of_front h ha]

theorem getD_of_front (h : src <+: s) (ha : a < src.length) : src.getD a 0 = s.getD a 0 := by
  obtain ⟨t, rfl⟩ := h
  rw [List.getD_eq_getElem?_getD, List.getD_eq_getElem?_getD, List.getElem?_append_left ha]

/-- A string that goes along with a record is empty or begins as it does. -/
theorem head?_of_along {op : UInt8} (hr : r.head? = some op) (hs : r <+: s) (h : src <+: s) :
    src = [] ∨ src.head? = some op := by
  cases src with
  | nil => exact .inl rfl
  | cons x xs =>
    obtain ⟨t, rfl⟩ := h
    obtain ⟨u, hu⟩ := hs
    cases r with
    | nil => cases hr
    | cons y ys =>
      have hyx : y = x := (List.cons.inj hu).1
      exact .inr (hyx ▸ hr)

/-! ## Requests -/

theorem recordTotal_of_front {header : ℕ} {lensAt : List ℕ} (h : src <+: s)
    (hin : ∀ p ∈ lensAt, p + 2 ≤ src.length) :
    recordTotal src header lensAt = recordTotal s header lensAt := by
  rw [recordTotal, recordTotal]
  induction lensAt generalizing header with
  | nil => rfl
  | cons p ps ih =>
    rw [List.foldl_cons, List.foldl_cons, num_of_front h (hin p List.mem_cons_self)]
    exact ih fun q hq => hin q (List.mem_cons_of_mem _ hq)

/-- The lengths of a request stand in its header. -/
theorem requestShape_within {op : UInt8} {header : ℕ} {lensAt : List ℕ}
    (h : requestShape op = some (header, lensAt)) : ∀ p ∈ lensAt, p + 2 ≤ header := by
  unfold requestShape at h
  repeat' split at h
  all_goals cases h <;> decide

/-- A request that its shape gives the length of is delimited. -/
theorem delimits_of_shape {op : UInt8} {header : ℕ} {lensAt : List ℕ} (hhead : r.head? = some op)
    (hshape : requestShape op = some (header, lensAt))
    (htotal : ∀ s, r <+: s → recordTotal s header lensAt = r.length) :
    Delimits requestRecordLen r := by
  have hop : op ≠ opBind := by
    rintro rfl
    cases hshape
  have hheader : header ≤ r.length := by
    rw [← htotal r (List.prefix_refl r), recordTotal_eq]
    exact Nat.le_add_right _ _
  refine .of_fronts (by rintro rfl; cases hhead) fun s src hs h => ?_
  rcases head?_of_along hhead hs h with rfl | hsrc
  · have hpos : 0 < r.length := List.length_pos_of_ne_nil (by rintro rfl; cases hhead)
    rw [if_pos (by simpa using hpos)]
    rfl
  rw [requestRecordLen, hsrc]
  dsimp only
  rw [if_neg hop, hshape]
  dsimp only
  split
  · next hlt => rw [if_pos (Nat.lt_of_lt_of_le hlt hheader)]
  next hge =>
  have hin := fun p hp => (requestShape_within hshape p hp).trans (Nat.not_lt.mp hge)
  rw [recordTotal_of_front h hin, htotal s hs, complete]

namespace WireRecord

/-- The record is a request; the other two are of the log alone. -/
def IsRequest : WireRecord → Prop
  | bindingRestore _ _ | leaseRestore _ _ => False
  | _ => True

/-- **A request is delimited**, whatever it holds, where its lengths fit. -/
theorem delimits_bytes {v : WireRecord} (hreq : v.IsRequest) (hfit : v.FitsWire) :
    Delimits requestRecordLen v.bytes := by
  cases v with
  | bindingRestore | leaseRestore => exact hreq.elim
  | bind b =>
    refine .of_fronts (by simp [bytes, fields, bindFields]) fun s src hs h => ?_
    rcases head?_of_along rfl hs h with rfl | hsrc
    · rw [if_pos (by simp [bytes, fields, bindFields])]
      rfl
    have hlen : (bind b).bytes.length = bindHdr + b.key.root.length + b.key.path.length
        + b.binding.objectId.length + b.binding.metadata.contentType.length
        + b.binding.metadata.keyRef.length := by
      simp [bytes, fields, bindFields, bindHdr]
      omega
    obtain ⟨-, -, h1, h2, h3, -, -, -, -, -, -, h4, h5, -⟩ := (bindFields_front hfit).mp hs
    rw [requestRecordLen, hsrc]
    dsimp only
    rw [if_pos rfl]
    split
    · next hlt => rw [if_pos (by omega)]
    next hge =>
    have hge : 52 ≤ src.length := Nat.not_lt.mp hge
    rw [num_of_front h (by omega), num_of_front h (by omega), num_of_front h (by omega),
      num_of_front h (by omega), num_of_front h (by omega), h1, h2, h3, h4, h5, ← hlen,
      complete]
  | rename m =>
    refine delimits_of_shape rfl rfl fun s hs => ?_
    have h := (renameFields_front hfit).mp hs
    simp [recordTotal, h, bytes, fields, renameFields, renameHdr]
    omega
  | unbind m =>
    refine delimits_of_shape rfl rfl fun s hs => ?_
    have h := (unbindFields_front hfit.1 hfit.2).mp hs
    simp [recordTotal, h, bytes, fields, unbindFields, unbindHdr]
    omega
  | retain m =>
    refine delimits_of_shape rfl rfl fun s hs => ?_
    have h := (retainFields_front hfit.1 hfit.2).mp hs
    simp [recordTotal, h, bytes, fields, retainFields, retainHdr]
    omega
  | lookup k =>
    refine delimits_of_shape rfl rfl fun s hs => ?_
    have h := (lookupFields_front hfit.1 hfit.2).mp hs
    simp [recordTotal, h, bytes, fields, lookupFields]
    omega
  | list m =>
    refine delimits_of_shape rfl rfl fun s hs => ?_
    have h := (listFields_front hfit).mp hs
    simp [recordTotal, h, bytes, fields, listFields]
    omega
  | referenced cursor oid =>
    refine delimits_of_shape rfl rfl fun s hs => ?_
    have h := (referencedFields_front hfit).mp hs
    simp [recordTotal, h, bytes, fields, referencedFields]
    omega
  | retained cursor oid now =>
    refine delimits_of_shape rfl rfl fun s hs => ?_
    have h := (retainedFields_front hfit).mp hs
    simp [recordTotal, h, bytes, fields, retainedFields, retainedHdr]
    omega
  | gcReserve oid now =>
    refine delimits_of_shape rfl rfl fun s hs => ?_
    have h := (gcFields_front hfit).mp hs
    simp [recordTotal, h, bytes, fields, gcFields, gcReserveHdr]
    omega
  | gcRelease oid =>
    refine delimits_of_shape rfl rfl fun s hs => ?_
    have h := (gcFields_front hfit).mp hs
    simp [recordTotal, h, bytes, fields, gcFields, gcReserveHdr]
    omega
  | lease m =>
    refine delimits_of_shape rfl rfl fun s hs => ?_
    have h := (leaseReqFields_front hfit.1 hfit.2).mp hs
    simp [recordTotal, h, bytes, fields, leaseReqFields, leaseReqHdr, length_fixed]
    omega
  | volume m =>
    refine delimits_of_shape rfl rfl fun s hs => ?_
    have h := (volumeReqFields_front hfit).mp hs
    simp [recordTotal, h, bytes, fields, volumeReqFields, volumeReqHdr, length_fixed]
    omega
  | volumeRoots cursor =>
    refine delimits_of_shape rfl rfl fun s hs => ?_
    simp [recordTotal, bytes, fields]

end WireRecord

/-! ## Answers -/

theorem getByte_of_front (h : src <+: s) :
    getByte src a = none ∧ src.length ≤ a ∨ getByte src a = some (s.getD a 0) ∧ a < src.length := by
  rw [getByte]
  split
  · next ha => exact .inr ⟨by rw [getD_of_front h ha], ha⟩
  · next ha => exact .inl ⟨rfl, Nat.not_lt.mp ha⟩

/-- The length of a binding is read off a front of it, or not yet. -/
theorem bindingRecordLen_of_front {b : Binding} {hold : UInt8} (hb : b.FitsWire)
    (hs : (bindingFields b hold).flatten <+: s) (h : src <+: s) :
    bindingRecordLen src = none ∧ src.length < bindingLen b ∨
      bindingRecordLen src = some (bindingLen b) := by
  obtain ⟨-, h1, -, -, -, -, -, h2, -, h3, -⟩ := (bindingFields_front hb).mp hs
  rw [bindingRecordLen]
  rcases getByte_of_front h with ⟨hnone, hle⟩ | ⟨hsome, -⟩
  · rw [hnone]
    refine .inl ⟨rfl, ?_⟩
    rw [bindingLen]
    omega
  rw [hsome]
  dsimp only [Option.bind_eq_bind, Option.bind_some]
  rw [h1]
  rcases getByte_of_front (a := ctypeAt b) h with ⟨hnone, hle⟩ | ⟨hsome, -⟩
  · rw [hnone]
    refine .inl ⟨rfl, ?_⟩
    rw [ctypeAt] at hle
    rw [bindingLen]
    omega
  rw [hsome]
  dsimp only [Option.bind_some]
  rw [h2]
  rcases getByte_of_front (a := keyRefAt b) h with ⟨hnone, hle⟩ | ⟨hsome, -⟩
  · rw [hnone]
    refine .inl ⟨rfl, ?_⟩
    rw [keyRefAt, ctypeAt] at hle
    rw [bindingLen]
    omega
  rw [hsome]
  dsimp only [Option.bind_some]
  rw [h3]
  refine .inr ?_
  rw [bindingLen]
  exact congrArg some (by omega)

theorem drop_prefix_drop (h : src <+: s) (k : ℕ) : src.drop k <+: s.drop k := by
  obtain ⟨t, rfl⟩ := h
  rw [List.drop_append]
  exact List.prefix_append _ _

/-- Where the entries of a page end is read off a front of them, or not yet. -/
theorem entriesEnd_of_front {es : List (Bytes × Binding)} {gs : List Bytes} {p : ℕ}
    (hgs : List.Forall₂ EntrySpelt es gs) (hs : gs.flatten <+: s.drop p) (h : src <+: s) :
    entriesEnd src es.length p = none ∧ src.length < p + gs.flatten.length ∨
      entriesEnd src es.length p = some (p + gs.flatten.length) := by
  induction hgs generalizing p with
  | nil => exact .inr rfl
  | @cons e g es gs he _ ih =>
    obtain ⟨⟨hpath, hb⟩, hold, -, rfl⟩ := he
    rw [List.flatten_cons, append_prefix_iff, entryFields_front hpath, length_entryFields,
      List.drop_drop, List.drop_drop] at hs
    obtain ⟨⟨⟨hle, hn, -⟩, hbind⟩, hrest⟩ := hs
    have hlens : (((entryFields e hold).flatten :: gs).flatten).length
        = 2 + e.1.length + bindingLen e.2 + gs.flatten.length := by
      rw [List.flatten_cons, List.length_append, length_entryFields]
    have hpos : 0 < bindingLen e.2 := by
      rw [bindingLen]
      omega
    rw [List.length_cons, entriesEnd, hlens]
    split
    · exact .inl ⟨rfl, by omega⟩
    next hp =>
    have hnum : num src p 2 = e.1.length := by
      rw [num_of_front h (by omega), ← hn, num, num, slice, slice, List.drop_zero]
    rw [hnum]
    rw [← Nat.add_assoc] at hbind
    rcases bindingRecordLen_of_front hb hbind (drop_prefix_drop h _) with ⟨hnone, hlt⟩ | hsome
    · rw [hnone]
      rw [List.length_drop] at hlt
      exact .inl ⟨rfl, by omega⟩
    rw [hsome]
    dsimp only
    rcases ih (p := p + 2 + e.1.length + bindingLen e.2)
      (by rwa [← Nat.add_assoc, ← Nat.add_assoc] at hrest) with ⟨hnone, hlt⟩ | hsome
    · exact .inl ⟨hnone, by omega⟩
    · exact .inr (hsome.trans (congrArg some (by omega)))

/-- An answer of which the length is told from any string that goes along with
it. -/
theorem delimits_of_answer {op : UInt8} (hhead : r.head? = some op)
    (h : ∀ s src, r <+: s → src <+: s → src.head? = some op →
      responseRecordLen src = .ok (if src.length < r.length then none else some r.length)) :
    Delimits responseRecordLen r := by
  refine .of_fronts (by rintro rfl; cases hhead) fun s src hs hsrc => ?_
  rcases head?_of_along hhead hs hsrc with rfl | hop
  · have hpos : 0 < r.length := List.length_pos_of_ne_nil (by rintro rfl; cases hhead)
    rw [if_pos (by simpa using hpos)]
    rfl
  · exact h s src hs hsrc hop

namespace WireAnswer

/-- **An answer is delimited**, where its lengths fit. -/
theorem delimits_bytes {L : Limits} {v : WireAnswer} (hpass : v.Passes L) (hfit : v.FitsWire) :
    Delimits responseRecordLen v.bytes := by
  cases v with
  | writeAck op fence =>
    refine delimits_of_answer rfl fun s src hs h hop => ?_
    have hbytes : (writeAck op fence).bytes.length = 2 + fence.length := by
      simp [bytes, writeAckFields]
      omega
    have hget : s.getD 1 0 = UInt8.ofNat fence.length := (getD_of_front hs (by omega)).symm
    have hnat : (UInt8.ofNat fence.length).toNat = fence.length :=
      UInt8.toNat_ofNat_of_lt' (Nat.lt_of_le_of_lt hpass.2 (by decide))
    rw [responseRecordLen, hop, hbytes]
    dsimp only
    rw [if_pos hpass.1]
    rcases getByte_of_front (a := 1) h with ⟨hnone, hle⟩ | ⟨hsome, -⟩
    · rw [hnone, if_pos (by omega)]
    rw [hsome, hget]
    dsimp only
    rw [hnat, if_neg (Nat.not_lt.mpr hpass.2), complete]
  | found b =>
    refine delimits_of_answer rfl fun s src hs h hop => ?_
    have hbytes : (found b).bytes.length = 2 + bindingLen b := by
      rw [bytes, List.length_append, putBinding, length_bindingFields]
      rfl
    obtain ⟨⟨-, -, hget⟩, hbind⟩ := two_front.mp hs
    rw [responseRecordLen, hop, hbytes]
    dsimp only
    repeat rw [if_neg (by decide)]
    rw [if_pos rfl]
    rcases getByte_of_front (a := 1) h with ⟨hnone, hle⟩ | ⟨hsome, -⟩
    · rw [hnone, if_pos (by omega)]
    rw [hsome, hget]
    dsimp only
    rw [if_neg (by decide)]
    rcases bindingRecordLen_of_front hfit hbind (drop_prefix_drop h 2) with ⟨hnone, hlt⟩ | hsome
    · rw [List.length_drop] at hlt
      rw [hnone, if_pos (by omega)]
    · rw [hsome]
      rfl
  | notFound floor =>
    refine delimits_of_answer rfl fun s src hs h hop => ?_
    have hbytes : (notFound floor).bytes.length = 10 := by simp [bytes]
    obtain ⟨⟨-, -, hget⟩, -⟩ := two_front.mp hs
    rw [responseRecordLen, hop, hbytes]
    dsimp only
    repeat rw [if_neg (by decide)]
    rw [if_pos rfl]
    rcases getByte_of_front (a := 1) h with ⟨hnone, hle⟩ | ⟨hsome, -⟩
    · rw [hnone, if_pos (by omega)]
    rw [hsome, hget]
    rfl
  | page es more =>
    refine delimits_of_answer rfl fun s src hs h hop => ?_
    have hnat : (UInt8.ofNat es.length).toNat = es.length :=
      UInt8.toNat_ofNat_of_lt' (Nat.lt_of_le_of_lt hpass (by decide))
    have hspelt : List.Forall₂ EntrySpelt es (es.map fun e => putEntry e.1 e.2) := by
      rw [List.forall₂_map_right_iff, List.forall₂_same]
      exact fun e he => entrySpelt_putEntry (hfit e he)
    have hbytes : (page es more).bytes.length
        = 3 + (es.map fun e => putEntry e.1 e.2).flatten.length := by
      rw [bytes, List.length_append]
      rfl
    obtain ⟨⟨-, -, hget, -⟩, hentries⟩ := three_front.mp hs
    rw [responseRecordLen, hop, hbytes]
    dsimp only
    repeat rw [if_neg (by decide)]
    rw [if_pos rfl]
    rcases getByte_of_front (a := 1) h with ⟨hnone, hle⟩ | ⟨hsome, -⟩
    · rw [hnone, if_pos (by omega)]
    rw [hsome, hget]
    dsimp only
    rw [hnat]
    rcases entriesEnd_of_front hspelt hentries h with ⟨hnone, hlt⟩ | hsome
    · rw [hnone, if_pos hlt]
    rw [hsome]
    rfl
  | volumeRoots next view ds =>
    refine delimits_of_answer rfl fun s src hs h hop => ?_
    have hnat : (UInt8.ofNat ds.length).toNat = ds.length :=
      UInt8.toNat_ofNat_of_lt' (Nat.lt_of_le_of_lt hpass (by decide))
    have hbytes : (volumeRoots next view ds).bytes.length
        = volumeRootsHdr + ds.length * volumeRootDigest := by
      rw [bytes, volumeRootsFields]
      simp only [List.flatten_cons, List.flatten_nil, List.length_append, length_leBytes,
        length_flatten_digests, List.length_nil, List.length_singleton]
      rw [volumeRootsHdr, volumeRootDigest]
      omega
    have hget : s.getD 13 0 = UInt8.ofNat ds.length := by
      rw [← getD_of_front hs (by rw [hbytes, volumeRootsHdr]; omega)]
      rfl
    rw [responseRecordLen, hop, hbytes]
    dsimp only
    repeat rw [if_neg (by decide)]
    rw [if_pos rfl]
    rcases getByte_of_front (a := 13) h with ⟨hnone, hle⟩ | ⟨hsome, -⟩
    · rw [hnone, if_pos (by rw [volumeRootsHdr]; omega)]
    rw [hsome, hget]
    dsimp only
    rw [hnat, complete]
  | gcReserve | referenced | retained | lease | volume =>
    refine delimits_of_answer rfl fun s src hs h hop => ?_
    rw [responseRecordLen, hop]
    rfl

end WireAnswer

theorem delimits_bare {b : UInt8} (hb : b ∈ bareAnswers) : Delimits responseRecordLen [b] := by
  refine delimits_of_answer rfl fun s src hs h hop => ?_
  rw [responseRecordLen, hop]
  dsimp only
  have hwrite : ∀ x ∈ bareAnswers, ¬ isWriteOp x := List.all_iff_forall_prop.mp (by decide)
  rw [if_neg (hwrite b hb), if_pos hb]
  rfl

/-! ## Encoders and framing -/

/-- A request of which an encoder writes `r`. -/
def EncodedRequest (L : Limits) (r : Bytes) : Prop :=
  ∃ v : WireRecord, v.IsRequest ∧ ∃ room, v.encode L room = .ok r

/-- An answer of which an encoder writes `r`, its lengths fitting their fields;
or one byte that refuses. -/
def EncodedAnswer (L : Limits) (r : Bytes) : Prop :=
  (∃ v : WireAnswer, v.FitsWire ∧ ∃ room, v.encode L room = some r) ∨ ∃ b ∈ bareAnswers, r = [b]

theorem EncodedRequest.delimits {L : Limits} (hL : L.FitsWire) (h : EncodedRequest L r) :
    Delimits requestRecordLen r := by
  obtain ⟨v, hreq, room, he⟩ := h
  obtain ⟨hpass, -, rfl⟩ := WireRecord.encode_eq_ok.mp he
  exact WireRecord.delimits_bytes hreq (hpass.fitsWire hL)

theorem EncodedAnswer.delimits {L : Limits} (h : EncodedAnswer L r) :
    Delimits responseRecordLen r := by
  rcases h with ⟨v, hfit, room, he⟩ | ⟨b, hb, rfl⟩
  · obtain ⟨hpass, rfl⟩ := WireAnswer.encode_eq_some he
    exact WireAnswer.delimits_bytes hpass hfit
  · exact delimits_bare hb

/-- An encoded record is decoded if it is of a kind there is. -/
theorem WireRecord.decode_bytes {L : Limits} (hL : L.FitsWire) {v : WireRecord} (h : v.Passes L)
    (hk : v.KindKnown) (t : Bytes) : decode L (v.bytes ++ t) = .ok v :=
  decode_eq_ok.mpr ⟨h.fitsWire hL, h.accepted hk, v.bytes, v.spelt_bytes, List.prefix_append _ _⟩

theorem WireAnswer.decode_bytes {L : Limits} {v : WireAnswer} (h : v.Passes L) (hfit : v.FitsWire)
    (t : Bytes) : decode (v.bytes ++ t) = .ok v :=
  decode_eq_ok.mpr ⟨hfit, h.accepted, v.bytes, spelt_bytes hfit, List.prefix_append _ _⟩

/-- The kind is in the record, so that what is decoded from a bind has it. -/
theorem WireRecord.kindKnown_of_decode {L : Limits} {v w : WireRecord}
    (hd : decode L v.bytes = .ok w) : v.KindKnown := by
  cases v with
  | bind b =>
    have hhead : (bind b).bytes.head? = some opBind := rfl
    rw [decode, if_pos hhead] at hd
    obtain ⟨b', hb', rfl⟩ := map_eq_ok.mp hd
    obtain ⟨hfit', ⟨-, hkind⟩, hpre'⟩ := decodeBind_eq_ok.mp hb'
    have hk := ((bindFields_front hfit').mp hpre').2.2.2.2.2.1
    have hown : (bind b).bytes.getD 7 0 = b.binding.kind := rfl
    rw [KindKnown, ← hown, hk]
    exact hkind
  | _ => trivial

/-- **Framing agrees with the codecs.** A record that an encoder writes is
delimited, and so a stream of them is read record by record, however it is cut.
A request is accepted by its decoder just when it is not a bind of a kind there
is not; an answer whenever its lengths fit their fields. -/
theorem framing_meets_codecs (p : Profile) :
    (∀ (v : WireRecord) (room : ℕ) (r : Bytes), v.IsRequest → v.encode p.limits room = .ok r →
      ((Delimits requestRecordLen r ∧ ∃ w, WireRecord.decode p.limits r = .ok w) ↔ v.KindKnown)) ∧
    (∀ (a : WireAnswer) (room : ℕ) (r : Bytes), a.FitsWire → a.encode p.limits room = some r →
      Delimits responseRecordLen r ∧ ∃ w, WireAnswer.decode r = .ok w) ∧
    (∀ rs chunks : List Bytes, (∀ r ∈ rs, EncodedRequest p.limits r) →
      chunks.flatten = rs.flatten → feedAll requestRecordLen chunks = .ok (rs, [])) ∧
    ∀ rs chunks : List Bytes, (∀ r ∈ rs, EncodedAnswer p.limits r) →
      chunks.flatten = rs.flatten → feedAll responseRecordLen chunks = .ok (rs, []) := by
  have hL := p.fitsWire
  refine ⟨fun v room r hreq he => ?_, fun a room r hfit he => ?_, fun rs chunks hrs hc => ?_,
    fun rs chunks hrs hc => ?_⟩
  · have hdelim := EncodedRequest.delimits hL ⟨v, hreq, room, he⟩
    obtain ⟨hpass, -, rfl⟩ := WireRecord.encode_eq_ok.mp he
    constructor
    · rintro ⟨-, w, hw⟩
      exact WireRecord.kindKnown_of_decode hw
    · intro hk
      have hd := WireRecord.decode_bytes hL hpass hk []
      rw [List.append_nil] at hd
      exact ⟨hdelim, v, hd⟩
  · obtain ⟨hpass, rfl⟩ := WireAnswer.encode_eq_some he
    have hd := WireAnswer.decode_bytes hpass hfit []
    rw [List.append_nil] at hd
    exact ⟨WireAnswer.delimits_bytes hpass hfit, a, hd⟩
  · exact feedAll_flatten rfl (fun r hr => (hrs r hr).delimits hL) hc
  · exact feedAll_flatten rfl (fun r hr => (hrs r hr).delimits) hc

/-- A bind of a kind there is not is encoded, and not decoded; and a page with
an object id of 256 bytes is said to end before it does. -/
theorem framing_misses_codecs :
    (∃ r, WireRecord.encode .minimal 100 (.bind ⟨⟨[1], [2]⟩, ⟨1, 5, [], Meta.none⟩, 0, 0⟩) = .ok r ∧
      WireRecord.decode .minimal r = .error (.badKind 5)) ∧
    ∃ r, WireAnswer.encode .minimal 400
        (.page [([], ⟨1, 0, List.replicate 256 0, Meta.none⟩)] false) = some r ∧
      r.length = 298 ∧ responseRecordLen r = .ok (some 42) :=
  ⟨⟨_, rfl, by decide⟩, _, WireAnswer.encode_of_room (Nat.le_of_ble_eq_true rfl) (by decide +kernel),
    by decide +kernel, by decide +kernel⟩

/-- A held name with all that a name carries; below it is bound, and stands on a
page. -/
def heldName : Bytes × Binding := ([107], ⟨7, 1, [1, 2], ⟨9, 2, [3], [4], 8, true⟩⟩)

def heldBind : WireRecord := .bind ⟨⟨[114], heldName.1⟩, heldName.2, 2, 5⟩

def heldPage : WireAnswer := .page [heldName, heldName] true

theorem heldPage_fitsWire : heldPage.FitsWire := fun e he => by
  obtain rfl : e = heldName := by simpa using he
  exact ⟨by decide, by decide, by decide, by decide⟩

theorem framing_meets_codecs_held :
    (Delimits requestRecordLen heldBind.bytes ∧
        ∃ w, WireRecord.decode .minimal heldBind.bytes = .ok w) ∧
      Delimits responseRecordLen heldPage.bytes ∧ ∃ w, WireAnswer.decode heldPage.bytes = .ok w :=
  ⟨((framing_meets_codecs .minimal).1 heldBind 100 _ trivial rfl).mpr (show (1 : UInt8) ≤ _ by decide),
    (framing_meets_codecs .minimal).2.1 heldPage 200 _ heldPage_fitsWire rfl⟩

end Loam

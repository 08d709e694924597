import Loam.BlockIndex
import Loam.Lib.Reassembly
import Loam.WireFraming
import Mathlib.Tactic.FinCases

/-!
# The readers of requests

The namespace, the object index and the block allocator read their requests from a byte stream,
each with a function of its own that tells the length of the request at the front
(`request_record_len`) and a buffer that is a few reads long. A length has sixteen bits, and
the longest string a few hundred bytes: of all requests only a put and an update are refused
when they say that they are longer than such a request can be. Any other is waited for, and
what follows it is taken for a part of it; if the buffer has no room for as much, for good.
-/

namespace Loam

open Slices Reassembly

/-! ## The other two functions -/

namespace ObjectWire

def opObjGet : UInt8 := 7
def opObjScan : UInt8 := 8

/-- The longest descriptor (`PUT_RECORD_MAX`). -/
def putRecordMax (L : Limits) : ℕ := putHeader + 2 * L.maxObjectId + L.maxRoot + L.maxPath

/-- The length of the request at the front (`request_record_len`). -/
def requestRecordLen (L : Limits) (src : Bytes) : Except WireError (Option ℕ) :=
  match src.head? with
  | none => .ok none
  | some op =>
    if op = opObjPut ∨ op = opObjUpdate then
      if src.length < putHeader then .ok none
      else
        let total := [1, 3, 5, 7].foldl (fun total p => total + num src p 2) putHeader
        if putRecordMax L < total then .error (.stringTooLong total (putRecordMax L))
        else .ok (complete src total)
    else if op = opObjScan then .ok (complete src 6)
    else if op = opObjRemove ∨ op = opObjGet then
      if src.length < 3 then .ok none
      else .ok (complete src (3 + num src 1 2))
    else .error (.badOpcode op)

end ObjectWire

namespace BlockWire

/-- The header of a request. -/
def header (op : UInt8) : Option ℕ :=
  if op = opCreateVolume then some createHeader
  else if op = opAllocate ∨ op = opRelease then some countHeader
  else none

/-- The length of the request at the front (`request_record_len`). -/
def requestRecordLen (src : Bytes) : Except WireError (Option ℕ) :=
  match src.head? with
  | none => .ok none
  | some op =>
    match header op with
    | none => .error (.badOpcode op)
    | some header =>
      if src.length < header then .ok none
      else .ok (complete src (header + num src 1 2))

end BlockWire

/-! ## What a request says of its length -/

/-- A request: its header, where in it the lengths stand, how wide each is and its ceiling, and
whether their sum is checked. -/
structure RequestShape where
  header : ℕ
  lens : List (ℕ × ℕ × ℕ)
  checked : Bool

/-- The length that it says. -/
def RequestShape.total (sh : RequestShape) (src : Bytes) : ℕ :=
  sh.header + (sh.lens.map fun f => num src f.1 f.2.1).sum

/-- The greatest length it can have. -/
def RequestShape.limit (sh : RequestShape) : ℕ := sh.header + (sh.lens.map fun f => f.2.2).sum

/-- The requests of the namespace. -/
def namespaceShapes (L : Limits) : List (UInt8 × RequestShape) :=
  [(opBind, ⟨bindHdr, [(1, 2, L.maxRoot), (3, 2, L.maxPath), (5, 2, L.maxObjectId),
      (41, 1, L.contentTypeMax), (42, 1, L.keyRefMax)], false⟩),
    (opRename, ⟨renameHdr, [(1, 2, L.maxRoot), (3, 2, L.maxPath), (5, 2, L.maxPath)], false⟩),
    (opUnbind, ⟨unbindHdr, [(1, 2, L.maxRoot), (3, 2, L.maxPath)], false⟩),
    (opRetain, ⟨retainHdr, [(1, 2, L.maxRoot), (3, 2, L.maxPath)], false⟩),
    (opLookup, ⟨5, [(1, 2, L.maxRoot), (3, 2, L.maxPath)], false⟩),
    (opList, ⟨8, [(1, 2, L.maxRoot), (3, 2, L.maxPath), (5, 2, L.maxPath)], false⟩),
    (opReferenced, ⟨7, [(5, 2, L.maxObjectId)], false⟩),
    (opRetained, ⟨retainedHdr, [(5, 2, L.maxObjectId)], false⟩),
    (opGcReserve, ⟨gcReserveHdr, [(1, 2, L.maxObjectId)], false⟩),
    (opGcRelease, ⟨gcReserveHdr, [(1, 2, L.maxObjectId)], false⟩),
    (opLease, ⟨leaseReqHdr, [(2, 2, L.maxRoot), (4, 2, L.maxPath)], false⟩),
    (opVolume, ⟨volumeReqHdr, [(2, 2, L.maxRoot), (4, 2, L.maxPath), (6, 2, L.maxObjectId)], false⟩),
    (opVolumeRoots, ⟨5, [], false⟩)]

/-- A put or an update. -/
def putShape (L : Limits) : RequestShape :=
  ⟨putHeader, [(1, 2, L.maxObjectId), (3, 2, L.maxRoot), (5, 2, L.maxPath), (7, 2, L.maxObjectId)],
    true⟩

/-- The requests of the object index. -/
def objectShapes (L : Limits) : List (UInt8 × RequestShape) :=
  [(opObjPut, putShape L), (opObjUpdate, putShape L), (ObjectWire.opObjScan, ⟨6, [], false⟩),
    (opObjRemove, ⟨3, [(1, 2, L.maxObjectId)], false⟩),
    (ObjectWire.opObjGet, ⟨3, [(1, 2, L.maxObjectId)], false⟩)]

/-- The requests of the block allocator: a volume's id has the ceiling of an object's. -/
def blockShapes (L : Limits) : List (UInt8 × RequestShape) :=
  [(opCreateVolume, ⟨createHeader, [(1, 2, L.maxObjectId)], false⟩),
    (opAllocate, ⟨countHeader, [(1, 2, L.maxObjectId)], false⟩),
    (opRelease, ⟨countHeader, [(1, 2, L.maxObjectId)], false⟩)]

/-- What the front says of its length, once its header is there. -/
def declared (shapes : List (UInt8 × RequestShape)) (src : Bytes) : Except WireError (Option ℕ) :=
  match src.head? with
  | none => .ok none
  | some op =>
    match shapes.lookup op with
    | none => .error (.badOpcode op)
    | some sh =>
      if src.length < sh.header then .ok none
      else if sh.checked = true ∧ sh.limit < sh.total src then
        .error (.stringTooLong (sh.total src) sh.limit)
      else .ok (some (sh.total src))

/-- The greatest length that the request at the front can have. -/
def limit (shapes : List (UInt8 × RequestShape)) (src : Bytes) : ℕ :=
  ((src.head?.bind (shapes.lookup ·)).map RequestShape.limit).getD 0

/-! ## The three readers -/

/-- The streams of requests. -/
inductive RequestStream where
  | namespaceRouter
  | objectIndex
  | blockAllocator
deriving DecidableEq

/-- The records of one step (`OPS_PER_STEP`). -/
def opsPerStep (server : Bool) : ℕ := if server then 8 else 4

/-- The longest bind (`REQUEST_RECORD_MAX`). -/
def requestRecordMax (L : Limits) : ℕ :=
  bindHdr + L.maxRoot + L.maxPath + L.maxObjectId + L.contentTypeMax + L.keyRefMax

namespace RequestStream

/-- The requests of the stream. -/
def shapes (L : Limits) : RequestStream → List (UInt8 × RequestShape)
  | namespaceRouter => namespaceShapes L
  | objectIndex => objectShapes L
  | blockAllocator => blockShapes L

/-- The reader of the stream (`REQ_ASM`, `READ_BUF`). -/
def reader (L : Limits) (server : Bool) : RequestStream → Reader UInt8 WireError
  | namespaceRouter => ⟨Loam.requestRecordLen, declared (namespaceShapes L),
      requestRecordMax L + 256 * (opsPerStep server + 1), 256⟩
  | objectIndex => ⟨ObjectWire.requestRecordLen L, declared (objectShapes L),
      ObjectWire.putRecordMax L * (opsPerStep server + 1), ObjectWire.putRecordMax L⟩
  | blockAllocator => ⟨BlockWire.requestRecordLen, declared (blockShapes L),
      256 * (opsPerStep server + 1), 256⟩

end RequestStream

/-! ## What is told of a front -/

/-- The lengths of every request stand in its header, which is no longer than that. -/
def ShapesWithin (shapes : List (UInt8 × RequestShape)) (header : ℕ) : Prop :=
  ∀ p ∈ shapes, 0 < p.2.header ∧ p.2.header ≤ header ∧ ∀ f ∈ p.2.lens, f.1 + f.2.1 ≤ p.2.header

theorem mem_of_lookup {α β : Type} [BEq α] [LawfulBEq α] {l : List (α × β)} {a : α} {b : β}
    (h : l.lookup a = some b) : (a, b) ∈ l := by
  obtain ⟨l₁, l₂, rfl, -⟩ := List.lookup_eq_some_iff.mp h
  exact List.mem_append_right _ List.mem_cons_self

theorem ShapesWithin.of_lookup {shapes : List (UInt8 × RequestShape)} {header : ℕ} {op : UInt8}
    {sh : RequestShape} (hw : ShapesWithin shapes header) (hsh : shapes.lookup op = some sh) :
    0 < sh.header ∧ sh.header ≤ header ∧ ∀ f ∈ sh.lens, f.1 + f.2.1 ≤ sh.header :=
  hw (op, sh) (mem_of_lookup hsh)

section Declared

variable {shapes : List (UInt8 × RequestShape)} {header : ℕ} {src t : Bytes} {op : UInt8}
  {sh : RequestShape}

theorem RequestShape.total_append (hin : ∀ f ∈ sh.lens, f.1 + f.2.1 ≤ sh.header)
    (hlen : sh.header ≤ src.length) (t : Bytes) : sh.total (src ++ t) = sh.total src := by
  have hmap : sh.lens.map (fun f => num (src ++ t) f.1 f.2.1) =
      sh.lens.map fun f => num src f.1 f.2.1 :=
    List.map_congr_left fun f hf =>
      (num_of_front (List.prefix_append src t) ((hin f hf).trans hlen)).symm
  rw [RequestShape.total, RequestShape.total, hmap]

theorem declared_nil : declared shapes [] = .ok none := rfl

theorem declared_cons (hsh : shapes.lookup op = some sh) (rest : Bytes) :
    declared shapes (op :: rest) =
      if (op :: rest).length < sh.header then .ok none
      else if sh.checked = true ∧ sh.limit < sh.total (op :: rest) then
        .error (.stringTooLong (sh.total (op :: rest)) sh.limit)
      else .ok (some (sh.total (op :: rest))) := by
  unfold declared
  dsimp only [List.head?_cons]
  rw [hsh]

theorem declared_unknown (hsh : shapes.lookup op = none) (rest : Bytes) :
    declared shapes (op :: rest) = .error (.badOpcode op) := by
  unfold declared
  dsimp only [List.head?_cons]
  rw [hsh]

/-- What is told stands when more comes. -/
theorem declared_append (hw : ShapesWithin shapes header) (htold : declared shapes src ≠ .ok none)
    (t : Bytes) : declared shapes (src ++ t) = declared shapes src := by
  cases src with
  | nil => exact absurd declared_nil htold
  | cons op rest =>
    rw [List.cons_append]
    cases hsh : shapes.lookup op with
    | none => rw [declared_unknown hsh, declared_unknown hsh]
    | some sh =>
      rw [declared_cons hsh] at htold
      rw [declared_cons hsh, declared_cons hsh]
      by_cases hshort : (op :: rest).length < sh.header
      · exact absurd (if_pos hshort) htold
      have hlong := Nat.not_lt.mp hshort
      have hlong' : ¬ (op :: (rest ++ t)).length < sh.header := by
        rw [← List.cons_append, List.length_append]
        omega
      rw [if_neg hshort, if_neg hlong', ← List.cons_append,
        RequestShape.total_append (hw.of_lookup hsh).2.2 hlong]

/-- It is told once the longest header is there. -/
theorem declared_told (hw : ShapesWithin shapes header) (hpos : 0 < header)
    (hlen : header ≤ src.length) : declared shapes src ≠ .ok none := by
  cases src with
  | nil => exact absurd hlen (Nat.not_le.mpr hpos)
  | cons op rest =>
    cases hsh : shapes.lookup op with
    | none =>
      rw [declared_unknown hsh]
      intro h
      cases h
    | some sh =>
      rw [declared_cons hsh, if_neg (Nat.not_lt.mpr ((hw.of_lookup hsh).2.1.trans hlen))]
      split
      · intro h
        cases h
      · intro h
        cases h

theorem limit_append (hne : src ≠ []) (t : Bytes) : limit shapes (src ++ t) = limit shapes src := by
  cases src with
  | nil => exact absurd rfl hne
  | cons op rest => rfl

/-- A reader whose function waits for what the front says. -/
theorem lawful_of_shape {R : Reader UInt8 WireError} (hd : R.declared = declared shapes)
    (hw : ShapesWithin shapes header) (hpos : 0 < header)
    (hlen : ∀ op rest, R.len (op :: rest) = whole (op :: rest) (declared shapes (op :: rest)))
    (hnil : R.len [] = .ok none)
    (hheader : header ≤ R.window) (hroom : R.readBuf ≤ R.cap) (hreads : 0 < R.readBuf) :
    R.Lawful header where
  len_eq src := by
    rw [hd]
    cases src with
    | nil => exact hnil
    | cons op rest => exact hlen op rest
  nil := by
    rw [hd]
    exact declared_nil
  settled src t h := by
    rw [hd] at h ⊢
    exact declared_append hw h t
  told src h := by
    rw [hd]
    exact declared_told hw hpos h
  header_le := hheader
  room := hroom
  reads := hreads

end Declared

/-! ## The functions say what the fronts say -/

section Functions

variable {L : Limits} {shapes : List (UInt8 × RequestShape)} {op : UInt8} {rest : Bytes}
  {sh : RequestShape}

theorem whole_declared (hsh : shapes.lookup op = some sh) (hun : sh.checked = false) :
    whole (op :: rest) (declared shapes (op :: rest)) =
      if (op :: rest).length < sh.header then .ok none
      else .ok (complete (op :: rest) (sh.total (op :: rest))) := by
  rw [declared_cons hsh, hun]
  split
  · rfl
  rw [if_neg fun h => Bool.false_ne_true h.1]
  rfl

theorem requestRecordLen_of_shape {header : ℕ} {lensAt : List ℕ} (hop : op ≠ opBind)
    (hreq : requestShape op = some (header, lensAt)) (hsh : (namespaceShapes L).lookup op = some sh)
    (hheader : sh.header = header) (hun : sh.checked = false)
    (htotal : recordTotal (op :: rest) header lensAt = sh.total (op :: rest)) :
    requestRecordLen (op :: rest) = whole (op :: rest) (declared (namespaceShapes L) (op :: rest)) := by
  rw [whole_declared hsh hun]
  unfold requestRecordLen
  dsimp only [List.head?_cons]
  rw [if_neg hop, hreq]
  dsimp only
  rw [hheader, htotal]

theorem requestRecordLen_cons (L : Limits) (op : UInt8) (rest : Bytes) :
    requestRecordLen (op :: rest) = whole (op :: rest) (declared (namespaceShapes L) (op :: rest)) := by
  by_cases hbind : op = opBind
  · subst hbind
    rw [whole_declared (show (namespaceShapes L).lookup opBind = some _ from rfl) rfl]
    show (if _ then _ else _) = _
    simp only [RequestShape.total, List.map_cons, List.map_nil, List.sum_cons, List.sum_nil,
      Nat.add_zero, Nat.add_assoc]
  by_cases hop : op ∈ [opRename, opUnbind, opRetain, opLookup, opList, opReferenced, opRetained,
      opGcReserve, opGcRelease, opLease, opVolume, opVolumeRoots]
  · fin_cases hop <;>
      exact requestRecordLen_of_shape (by decide) rfl rfl rfl rfl (recordTotal_eq _ _ _)
  · -- It begins no request.
    simp only [List.mem_cons, List.not_mem_nil, or_false, not_or] at hop
    have hreq : requestShape op = none := by
      simp only [requestShape, hop, or_self, if_false]
    have hsh : (namespaceShapes L).lookup op = none := by
      rw [List.lookup_eq_none_iff]
      simp [namespaceShapes, hop, hbind]
    rw [declared_unknown hsh]
    unfold requestRecordLen
    dsimp only [List.head?_cons]
    rw [if_neg hbind, hreq]
    rfl

/-- A put, or an update: what it says is checked. -/
theorem objectRecordLen_put (L : Limits) (hop : op = opObjPut ∨ op = opObjUpdate) :
    ObjectWire.requestRecordLen L (op :: rest) =
      whole (op :: rest) (declared (objectShapes L) (op :: rest)) := by
  have hsh : (objectShapes L).lookup op = some (putShape L) := by
    rcases hop with rfl | rfl <;> rfl
  have htotal : [1, 3, 5, 7].foldl (fun total p => total + num (op :: rest) p 2) putHeader =
      (putShape L).total (op :: rest) := by
    simp only [RequestShape.total, putShape, List.foldl_cons, List.foldl_nil, List.map_cons,
      List.map_nil, List.sum_cons, List.sum_nil, Nat.add_zero, Nat.add_assoc]
  have hlimit : ObjectWire.putRecordMax L = (putShape L).limit := by
    simp only [RequestShape.limit, putShape, ObjectWire.putRecordMax, List.map_cons, List.map_nil,
      List.sum_cons, List.sum_nil, Nat.add_zero]
    omega
  have hheader : (putShape L).header = putHeader := rfl
  have hchecked : (putShape L).checked = true := rfl
  rw [declared_cons hsh, ← htotal, ← hlimit, hheader, hchecked]
  unfold ObjectWire.requestRecordLen
  dsimp only [List.head?_cons]
  rw [if_pos hop]
  by_cases hshort : (op :: rest).length < putHeader
  · rw [if_pos hshort, if_pos hshort]
    rfl
  rw [if_neg hshort, if_neg hshort]
  by_cases hlong : ObjectWire.putRecordMax L <
      [1, 3, 5, 7].foldl (fun total p => total + num (op :: rest) p 2) putHeader
  · rw [if_pos hlong, if_pos ⟨rfl, hlong⟩]
    rfl
  · rw [if_neg hlong, if_neg fun h => hlong h.2]
    rfl

theorem objectRecordLen_cons (L : Limits) (op : UInt8) (rest : Bytes) :
    ObjectWire.requestRecordLen L (op :: rest) =
      whole (op :: rest) (declared (objectShapes L) (op :: rest)) := by
  by_cases hput : op = opObjPut ∨ op = opObjUpdate
  · exact objectRecordLen_put L hput
  by_cases hscan : op = ObjectWire.opObjScan
  · subst hscan
    rw [whole_declared (show (objectShapes L).lookup ObjectWire.opObjScan = some _ from rfl) rfl]
    show Except.ok (complete _ 6) = if _ then _ else Except.ok (complete _ 6)
    split
    · next hshort => rw [complete, if_pos hshort]
    · rfl
  by_cases hremove : op = opObjRemove
  · subst hremove
    rw [whole_declared (show (objectShapes L).lookup opObjRemove = some _ from rfl) rfl]
    rfl
  by_cases hget : op = ObjectWire.opObjGet
  · subst hget
    rw [whole_declared (show (objectShapes L).lookup ObjectWire.opObjGet = some _ from rfl) rfl]
    rfl
  have hsh : (objectShapes L).lookup op = none := by
    rw [not_or] at hput
    rw [List.lookup_eq_none_iff]
    simp [objectShapes, *]
  rw [declared_unknown hsh]
  unfold ObjectWire.requestRecordLen
  dsimp only [List.head?_cons]
  rw [if_neg hput, if_neg hscan, if_neg (not_or.mpr ⟨hremove, hget⟩)]
  rfl

theorem blockRecordLen_cons (L : Limits) (op : UInt8) (rest : Bytes) :
    BlockWire.requestRecordLen (op :: rest) =
      whole (op :: rest) (declared (blockShapes L) (op :: rest)) := by
  by_cases hcreate : op = opCreateVolume
  · subst hcreate
    rw [whole_declared (show (blockShapes L).lookup opCreateVolume = some _ from rfl) rfl]
    rfl
  by_cases hallocate : op = opAllocate
  · subst hallocate
    rw [whole_declared (show (blockShapes L).lookup opAllocate = some _ from rfl) rfl]
    rfl
  by_cases hrelease : op = opRelease
  · subst hrelease
    rw [whole_declared (show (blockShapes L).lookup opRelease = some _ from rfl) rfl]
    rfl
  have hsh : (blockShapes L).lookup op = none := by
    rw [List.lookup_eq_none_iff]
    simp [blockShapes, *]
  have hheader : BlockWire.header op = none := by
    rw [BlockWire.header, if_neg hcreate, if_neg (not_or.mpr ⟨hallocate, hrelease⟩)]
  rw [declared_unknown hsh]
  unfold BlockWire.requestRecordLen
  dsimp only [List.head?_cons]
  rw [hheader]
  rfl

end Functions

/-! ## The streams -/

namespace RequestStream

/-- The longest header of a request. -/
def header : RequestStream → ℕ
  | namespaceRouter => bindHdr
  | objectIndex => putHeader
  | blockAllocator => createHeader

theorem shapes_within (p : Profile) (st : RequestStream) :
    ShapesWithin (st.shapes p.limits) st.header := by
  cases p <;> cases st <;> unfold ShapesWithin <;> decide

/-- What is surely buffered has room for the longest request. -/
theorem limit_le_window (p : Profile) (server : Bool) (st : RequestStream) (src : Bytes) :
    limit (st.shapes p.limits) src ≤ (st.reader p.limits server).window := by
  have hall : ∀ q ∈ st.shapes p.limits, q.2.limit ≤ (st.reader p.limits server).window := by
    cases p <;> cases server <;> cases st <;> decide
  unfold limit
  cases hsh : src.head?.bind ((st.shapes p.limits).lookup ·) with
  | none => exact Nat.zero_le _
  | some sh =>
    obtain ⟨op, -, hop⟩ := Option.bind_eq_some_iff.mp hsh
    exact hall _ (mem_of_lookup hop)

theorem reader_lawful (p : Profile) (server : Bool) (st : RequestStream) :
    (st.reader p.limits server).Lawful st.header := by
  have hheader : st.header ≤ (st.reader p.limits server).window := by
    cases p <;> cases server <;> cases st <;> decide
  have hroom : (st.reader p.limits server).readBuf ≤ (st.reader p.limits server).cap := by
    cases p <;> cases server <;> cases st <;> decide
  have hreads : 0 < (st.reader p.limits server).readBuf := by
    cases p <;> cases server <;> cases st <;> decide
  have hpos : 0 < st.header := by
    cases st <;> decide
  cases st with
  | namespaceRouter =>
    exact lawful_of_shape rfl (shapes_within p .namespaceRouter) hpos
      (requestRecordLen_cons p.limits) rfl hheader hroom hreads
  | objectIndex =>
    exact lawful_of_shape rfl (shapes_within p .objectIndex) hpos (objectRecordLen_cons p.limits)
      rfl hheader hroom hreads
  | blockAllocator =>
    exact lawful_of_shape rfl (shapes_within p .blockAllocator) hpos (blockRecordLen_cons p.limits)
      rfl hheader hroom hreads

/-- **A reader of requests flows on a stream** exactly when every front that it comes to, if it
begins a request, says no greater length than such a request can have. -/
theorem requests_flow_iff (p : Profile) (server : Bool) (st : RequestStream) (bs : Bytes) :
    Flows (st.reader p.limits server) (limit (st.shapes p.limits)) bs ↔
      WellSized (st.reader p.limits server) (limit (st.shapes p.limits)) bs :=
  flows_iff (reader_lawful p server st) (fun _ t hne => limit_append hne t)
    (limit_le_window p server st)

/-- A release of a volume whose id is said to have 65535 bytes, and what comes after. -/
def longRelease : Bytes := [9, 255, 255] ++ List.replicate 2000 0

/-- **It is waited for, for good.** -/
theorem long_release_sticks :
    ¬ (∀ (p : Profile) (server : Bool) (st : RequestStream) (bs : Bytes),
      Flows (st.reader p.limits server) (limit (st.shapes p.limits)) bs) ∧
    ∀ es, reached (blockAllocator.reader Profile.minimal.limits false) longRelease
      (List.replicate 5 (.read 256) ++ es) =
        reached (blockAllocator.reader Profile.minimal.limits false) longRelease (List.replicate 5 (.read 256)) := by
  have hwait : (blockAllocator.reader Profile.minimal.limits false).len (reached
      (blockAllocator.reader Profile.minimal.limits false) longRelease (List.replicate 5 (.read 256))).asm =
        .ok none := by
    decide +kernel
  have hfull : (blockAllocator.reader Profile.minimal.limits false).cap < (reached
      (blockAllocator.reader Profile.minimal.limits false) longRelease (List.replicate 5 (.read 256))).asm.length +
        (blockAllocator.reader Profile.minimal.limits false).readBuf := by
    decide +kernel
  refine ⟨fun h => ?_, fun es => ?_⟩
  · have hreads := (h .minimal false .blockAllocator longRelease).reads_on
      (List.replicate 5 (.read 256)) hwait
    exact absurd hreads (Nat.not_le.mpr hfull)
  · rw [reached, Run.run_append]
    exact run_of_stuck hwait hfull es

end RequestStream

end Loam

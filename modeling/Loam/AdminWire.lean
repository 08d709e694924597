import Loam.WireFields

/-!
# What an admin request touches

A request on the admin plane is framed by its opcode. The gate asks of a frame
what it touches and with what authority, and decodes it for that with the
wire's own decoders (`loam_admin_wire.rs`): a key under a namespace root, the
body plane, or a stream that was opened before. A frame that does not decode
names nothing.

Of a decoder only what it refuses and the key it finds matter here. The errors
are not told apart, since `request_scope` drops them.
-/

namespace Loam

open Slices

/-! ## Opcodes -/

def admBind : UInt8 := 0x40
def admPutBody : UInt8 := 0x41
def admGetBody : UInt8 := 0x42
def admPutFile : UInt8 := 0x43
def admGetFile : UInt8 := 0x44
def admDeleteFile : UInt8 := 0x45
def admListFiles : UInt8 := 0x46
def admPutFileOpen : UInt8 := 0x47
def admPutFileChunk : UInt8 := 0x48
def admPutFileCommit : UInt8 := 0x49
def admReadFileRange : UInt8 := 0x4A
def admStatFile : UInt8 := 0x4B
def admPutBodyKeyed : UInt8 := 0x4C
def admDeleteBody : UInt8 := 0x4D
def admLease : UInt8 := 0x4F
def admVolume : UInt8 := 0x50
def admLookup : UInt8 := 0x51
def admRetain : UInt8 := 0x52

/-- The width of a digest (`DIGEST_LEN`). -/
def digestLen : ℕ := 32

/-- The width of a lease holder (`LEASE_HOLDER_LEN`). -/
def leaseHolderLen : ℕ := 16

/-- Where the holder is in a lease request (`LEASE_HOLDER_AT`). -/
def leaseHolderAt : ℕ := 1 + 4 + 1 + 2 + 2

/-- Where the holder is in a volume request (`VOLUME_HOLDER_AT`). -/
def volumeHolderAt : ℕ := 1 + 4 + 1 + 2 + 2 + 2

/-- The greatest write condition (`WRITE_IF`): the binding is one expected. -/
def writeIf : UInt8 := 2

/-- Nothing may be bound (`WRITE_ABSENT`). -/
def writeAbsent : UInt8 := 1

/-! ## Keyed requests -/

/-- The strings behind a header whose lengths are given, from `a` on. -/
def stringsAt (src : Bytes) (a : ℕ) (lens : List ℕ) : List Bytes := cutAt a lens src

/-- A request that names a key: its header, where the lengths of root and path
are, the lengths of the strings behind these, and what the decoder checks of
root, path and strings. The key, if the decoder takes it. -/
def keyedRequest (op : UInt8) (header rootLenAt pathLenAt : ℕ) (tail : Bytes → List ℕ)
    (checks : Bytes → Bytes → Bytes → List Bytes → Bool) (src : Bytes) : Option (Bytes × Bytes) :=
  if src.length < header then none
  else if src.getD 0 0 ≠ op then none
  else
    let rootLen := num src rootLenAt 2
    let pathLen := num src pathLenAt 2
    if src.length < header + rootLen + pathLen + (tail src).sum then none
    else
      let root := slice src header rootLen
      let path := slice src (header + rootLen) pathLen
      if checks src root path (stringsAt src (header + rootLen + pathLen) (tail src)) then
        some (root, path)
      else none

/-- A write's condition (`check_cond`): its mode, and the id it expects, which an
expected binding has and no other. -/
def checkCond (L : Limits) (mode : UInt8) (expect : Bytes) : Bool :=
  decide (mode ≤ writeIf) && decide (expect.length ≤ L.maxObjectId)
    && ((mode == writeIf) != expect.isEmpty)

/-- The policy at `a`: the length of its key reference, and its hold, which is 0
or 1 (`take_policy_hdr`). -/
def policyOk (L : Limits) (src : Bytes) (a : ℕ) : Bool :=
  decide (num src a 1 ≤ L.keyRefMax) && decide (src.getD (a + 9) 0 ≤ 1)

/-- A request for a key that may be pinned to what is expected of it
(`decode_pinned_req`). -/
def decodePinnedReq (L : Limits) (op : UInt8) : Bytes → Option (Bytes × Bytes) :=
  keyedRequest op 10 5 7 (fun src => [num src 9 1]) fun _ root path strings =>
    L.keyFits root path (strings.getD 0 [])

/-- A request for a key and nothing else, whose length is not asked
(`decode_path_req`). -/
def decodePathReq (op : UInt8) : Bytes → Option (Bytes × Bytes) :=
  keyedRequest op 9 5 7 (fun _ => []) fun _ _ _ _ => true

def decodeAdminGetFile (L : Limits) : Bytes → Option (Bytes × Bytes) := decodePinnedReq L admGetFile

def decodeStatFile : Bytes → Option (Bytes × Bytes) := decodePathReq admStatFile

def decodeAdminLookup : Bytes → Option (Bytes × Bytes) := decodePathReq admLookup

def decodeReadFileRange (L : Limits) : Bytes → Option (Bytes × Bytes) :=
  keyedRequest admReadFileRange 22 17 19 (fun src => [num src 21 1]) fun _ root path strings =>
    L.keyFits root path (strings.getD 0 [])

/-- A listing: its prefix stands for the path. -/
def decodeAdminListFiles (L : Limits) : Bytes → Option (Bytes × Bytes) :=
  keyedRequest admListFiles 12 5 7 (fun src => [num src 9 2]) fun _ root path strings =>
    L.keyFits root path [] && L.keyFits root (strings.getD 0 []) []

def decodeAdminBind (L : Limits) : Bytes → Option (Bytes × Bytes) :=
  keyedRequest admBind 30 5 7 (fun src => [num src 9 2, num src 28 1, num src 29 1])
    fun src root path strings =>
      decide (num src 28 1 ≤ L.contentTypeMax) && decide (num src 29 1 ≤ L.keyRefMax)
        && L.keyFits root path (strings.getD 0 [])

def decodeAdminPutFile (L : Limits) : Bytes → Option (Bytes × Bytes) :=
  keyedRequest admPutFile 27 5 7
    (fun src => [num src 11 1, num src 12 1, num src 17 1, num src 13 4])
    fun src root path strings =>
      policyOk L src 17 && L.keyFits root path []
        && checkCond L (src.getD 10 0) (strings.getD 0 [])
        && decide ((strings.getD 1 []).length ≤ L.contentTypeMax)

def decodeAdminDeleteFile (L : Limits) : Bytes → Option (Bytes × Bytes) :=
  keyedRequest admDeleteFile 11 5 7 (fun src => [num src 10 1]) fun src root path strings =>
    L.keyFits root path [] && checkCond L (src.getD 9 0) (strings.getD 0 [])
      && src.getD 9 0 != writeAbsent

def decodeAdminRetain (L : Limits) : Bytes → Option (Bytes × Bytes) :=
  keyedRequest admRetain 18 5 7 (fun _ => []) fun src root path _ =>
    decide (src.getD 17 0 ≤ retainHoldClear) && !(num src 9 8 == 0 && src.getD 17 0 == 0)
      && L.keyFits root path []

def decodePutFileOpen (L : Limits) : Bytes → Option (Bytes × Bytes) :=
  keyedRequest admPutFileOpen 63 5 7 (fun src => [num src 11 1, num src 12 1, num src 53 1])
    fun src root path strings =>
      policyOk L src 53 && L.keyFits root path []
        && checkCond L (src.getD 10 0) (strings.getD 0 [])
        && decide ((strings.getD 1 []).length ≤ L.contentTypeMax)

def decodeAdminVolume (L : Limits) : Bytes → Option (Bytes × Bytes) :=
  keyedRequest admVolume (volumeHolderAt + leaseHolderLen + 8 + 8) 6 8
    (fun src => [num src 10 2]) fun _ root path strings => L.keyFits root path (strings.getD 0 [])

/-- Where the time to live is in a lease request. -/
def leaseTtlAt : ℕ := leaseHolderAt + leaseHolderLen

def decodeAdminLease (L : Limits) : Bytes → Option (Bytes × Bytes) :=
  keyedRequest admLease (leaseTtlAt + 4) 6 8 (fun _ => []) fun _ root path _ =>
    L.keyFits root path []

/-- The time to live a lease request asks for, in milliseconds. -/
def leaseTtlMs (src : Bytes) : ℕ := num src leaseTtlAt 4

/-! ## Streams and bodies -/

def decodePutFileChunk (src : Bytes) : Option UInt8 :=
  if src.length < 10 then none
  else if src.getD 0 0 ≠ admPutFileChunk then none
  else if src.length < 10 + num src 6 4 then none
  else some (src.getD 5 0)

def decodePutFileCommit (src : Bytes) : Option UInt8 :=
  if src.length < 6 then none
  else if src.getD 0 0 ≠ admPutFileCommit then none
  else some (src.getD 5 0)

def decodeAdminPutBody (src : Bytes) : Option Unit :=
  if src.length < 9 then none
  else if src.getD 0 0 ≠ admPutBody then none
  else if src.length < 9 + num src 5 4 then none
  else some ()

def decodeAdminGetBody (src : Bytes) : Option Unit :=
  if src.length < 5 + digestLen then none
  else if src.getD 0 0 ≠ admGetBody then none
  else some ()

def decodeAdminPutBodyKeyed (src : Bytes) : Option Unit :=
  if src.length < 1 + 4 + digestLen + 4 then none
  else if src.getD 0 0 ≠ admPutBodyKeyed then none
  else if src.length < 1 + 4 + digestLen + 4 + num src 37 4 then none
  else some ()

def decodeAdminDeleteBody (src : Bytes) : Option Unit :=
  if src.length < 1 + 4 + digestLen then none
  else if src.getD 0 0 ≠ admDeleteBody then none
  else some ()

/-! ## The scope of a request -/

/-- What a request touches. -/
inductive Scope where
  | key (root path : Bytes)
  | bodies
  | stream (pfid : UInt8)
deriving DecidableEq

/-- The permission an operation needs on its scope. -/
inductive Need where
  | read
  | write
  /-- To write and delete by key across every root. -/
  | admin
deriving DecidableEq

/-- The scope of a key found. -/
def keyScope (need : Need) (key : Option (Bytes × Bytes)) : Option (Scope × Need) :=
  key.map fun k => (.key k.1 k.2, need)

/-- What a request touches and needs (`request_scope`). -/
def requestScope (L : Limits) (frame : Bytes) : Option (Scope × Need) :=
  match frame.head? with
  | none => none
  | some op =>
    if op = admGetFile then keyScope .read (decodeAdminGetFile L frame)
    else if op = admStatFile then keyScope .read (decodeStatFile frame)
    else if op = admLookup then keyScope .read (decodeAdminLookup frame)
    else if op = admReadFileRange then keyScope .read (decodeReadFileRange L frame)
    else if op = admListFiles then keyScope .read (decodeAdminListFiles L frame)
    else if op = admBind then keyScope .write (decodeAdminBind L frame)
    else if op = admPutFile then keyScope .write (decodeAdminPutFile L frame)
    else if op = admDeleteFile then keyScope .write (decodeAdminDeleteFile L frame)
    else if op = admRetain then keyScope .write (decodeAdminRetain L frame)
    else if op = admPutFileOpen then keyScope .write (decodePutFileOpen L frame)
    else if op = admVolume then keyScope .write (decodeAdminVolume L frame)
    else if op = admLease then keyScope .write (decodeAdminLease L frame)
    else if op = admPutFileChunk then
      (decodePutFileChunk frame).map fun pfid => (.stream pfid, .write)
    else if op = admPutFileCommit then
      (decodePutFileCommit frame).map fun pfid => (.stream pfid, .write)
    else if op = admPutBody then (decodeAdminPutBody frame).map fun _ => (.bodies, .write)
    else if op = admGetBody then (decodeAdminGetBody frame).map fun _ => (.bodies, .read)
    else if op = admPutBodyKeyed then
      (decodeAdminPutBodyKeyed frame).map fun _ => (.bodies, .admin)
    else if op = admDeleteBody then (decodeAdminDeleteBody frame).map fun _ => (.bodies, .admin)
    else none

/-! ## The holder of a request -/

/-- Where a request has a holder, if it has one. -/
def requestHolderAt (frame : Bytes) : Option ℕ :=
  match frame.head? with
  | none => none
  | some op =>
    let at? := if op = admLease then some leaseHolderAt
      else if op = admVolume then some volumeHolderAt else none
    at?.filter fun a => decide (a + leaseHolderLen ≤ frame.length)

/-- The request with its holder replaced by what `bind` makes of it
(`request_holder_mut`). -/
def replaceHolder (bind : Bytes → Bytes) (frame : Bytes) : Bytes :=
  match requestHolderAt frame with
  | none => frame
  | some a => frame.take a ++ bind (slice frame a leaseHolderLen) ++ frame.drop (a + leaseHolderLen)

/-- A holder is in a lease or in a volume request, and all there. -/
theorem requestHolderAt_eq_some {frame : Bytes} {k : ℕ} (h : requestHolderAt frame = some k) :
    (frame.head? = some admLease ∧ k = leaseHolderAt ∨
      frame.head? = some admVolume ∧ k = volumeHolderAt) ∧ k + leaseHolderLen ≤ frame.length := by
  unfold requestHolderAt at h
  cases hop : frame.head? with
  | none =>
    rw [hop] at h
    cases h
  | some op =>
    rw [hop] at h
    obtain ⟨hk, hfit⟩ := Option.filter_eq_some_iff.mp h
    refine ⟨?_, of_decide_eq_true hfit⟩
    split at hk
    · next hop' => exact .inl ⟨congrArg some hop', (Option.some.inj hk).symm⟩
    split at hk
    · next hop' => exact .inr ⟨congrArg some hop', (Option.some.inj hk).symm⟩
    · cases hk

/-- The opcode and the correlation id are in front of a holder. -/
theorem take_replaceHolder (bind : Bytes → Bytes) (frame : Bytes) :
    (replaceHolder bind frame).take 5 = frame.take 5 := by
  unfold replaceHolder
  cases hat : requestHolderAt frame with
  | none => rfl
  | some k =>
    obtain ⟨hkind, hfit⟩ := requestHolderAt_eq_some hat
    have hk : 5 ≤ k := by
      cases hkind with
      | inl hlease => exact hlease.2 ▸ (by decide : 5 ≤ leaseHolderAt)
      | inr hvolume => exact hvolume.2 ▸ (by decide : 5 ≤ volumeHolderAt)
    have hlen : 5 ≤ (frame.take k).length := by
      rw [List.length_take]
      exact le_min hk (hk.trans ((Nat.le_add_right _ _).trans hfit))
    dsimp only
    rw [List.append_assoc, List.take_append_of_le_length hlen, List.take_take,
      Nat.min_eq_left hk]

/-! ## The length of a request -/

/-- What the front of a session's bytes says of the request there. -/
inductive RequestLen where
  /-- Too little has arrived to say. -/
  | truncated
  | badOpcode
  | len (n : ℕ)
deriving DecidableEq

/-- The header of a request, and where the lengths of what follows it are, with
their widths: of every opcode that names a request. -/
def lengthFields (op : UInt8) : Option (ℕ × List (ℕ × ℕ)) :=
  if op = admBind then some (30, [(5, 2), (7, 2), (9, 2), (28, 1), (29, 1)])
  else if op = admPutBody then some (9, [(5, 4)])
  else if op = admGetBody then some (5 + digestLen, [])
  else if op = admPutFile then some (27, [(5, 2), (7, 2), (11, 1), (12, 1), (17, 1), (13, 4)])
  else if op = admGetFile then some (10, [(5, 2), (7, 2), (9, 1)])
  else if op = admDeleteFile then some (11, [(5, 2), (7, 2), (10, 1)])
  else if op = admStatFile ∨ op = admLookup then some (9, [(5, 2), (7, 2)])
  else if op = admListFiles then some (12, [(5, 2), (7, 2), (9, 2)])
  else if op = admPutFileOpen then some (63, [(5, 2), (7, 2), (11, 1), (12, 1), (53, 1)])
  else if op = admRetain then some (18, [(5, 2), (7, 2)])
  else if op = admPutFileChunk then some (10, [(6, 4)])
  else if op = admPutFileCommit then some (6, [])
  else if op = admReadFileRange then some (22, [(17, 2), (19, 2), (21, 1)])
  else if op = admPutBodyKeyed then some (1 + 4 + digestLen + 4, [(37, 4)])
  else if op = admDeleteBody then some (1 + 4 + digestLen, [])
  else if op = admLease then some (leaseTtlAt + 4, [(6, 2), (8, 2)])
  else if op = admVolume then
    some (volumeHolderAt + leaseHolderLen + 8 + 8, [(6, 2), (8, 2), (10, 2)])
  else none

/-- The length of the request at the front of a string, from its header alone
(`request_len`). -/
def requestLen (src : Bytes) : RequestLen :=
  match src.head? with
  | none => .truncated
  | some op =>
    match lengthFields op with
    | none => .badOpcode
    | some (header, fields) =>
      if fields.all fun f => decide (f.1 + f.2 ≤ src.length) then
        .len (header + (fields.map fun f => num src f.1 f.2).sum)
      else .truncated

/-! ## A refusal -/

def admStatusOk : UInt8 := 0x01
def admStatusBusy : UInt8 := 0x03
def admStatusForbidden : UInt8 := 0x08

/-- The opcode of the answer to a request, and how many bytes of it follow the
status: 0 each in an answer that is not good. A commit is answered as a put. -/
def ackShape (op : UInt8) : UInt8 × ℕ :=
  if op = admBind ∨ op = admPutFile ∨ op = admDeleteFile ∨ op = admRetain then (op, 1)
  else if op = admPutFileCommit then (admPutFile, 1)
  else if op = admPutFileOpen ∨ op = admDeleteBody then (op, 1)
  else if op = admStatFile then (op, 18)
  else if op = admLease then (op, 16)
  else if op = admVolume then (op, 8)
  else (op, 0)

/-- The answer to a request that is not let through (`refusal`), in its own
shape. A frame too short to carry a correlation id is answered under 0. -/
def refusal (frame : Bytes) (status : UInt8) : Bytes :=
  (ackShape (frame.getD 0 0)).1 :: leBytes 4 (if 5 ≤ frame.length then num frame 1 4 else 0)
    ++ status :: List.replicate (ackShape (frame.getD 0 0)).2 0

/-- A refusal has the correlation id of its request. -/
theorem slice_refusal {frame : Bytes} (h : 5 ≤ frame.length) (status : UInt8) :
    slice (refusal frame status) 1 4 = slice frame 1 4 := by
  rw [refusal, if_pos h, List.cons_append, leBytes_num h, slice, List.drop_one, List.tail_cons,
    List.take_left' (length_slice h)]

/-- The status and the stream of the answer to an open
(`decode_put_file_open_ack`). -/
def decodePutFileOpenAck (src : Bytes) : Option (UInt8 × UInt8) :=
  if src.length < 7 then none
  else if src.getD 0 0 ≠ admPutFileOpen then none
  else some (src.getD 5 0, src.getD 6 0)

end Loam

import Loam.Key

/-!
# The body plane's messages

Body stores and the routers in front of them speak requests and answers that
name bodies by a 32-byte name: the SHA-256 of a body, or the explicit key a
blob was stored under. An answer repeats the opcode of its request, or is a
`nak` with an errno; a router reads the opcode first and the payload after, so
an answer whose opcode is right and whose payload does not decode is an answer
of its own (`none` below).
-/

namespace Loam

/-- The 32-byte name of a body: a content digest or an explicit key. -/
abbrev Digest := { b : Bytes // b.length = 32 }

/-- The zero name. -/
def Digest.zero : Digest := ⟨List.replicate 32 0, rfl⟩

/-- The longest body one request carries (`MAX_BODY`). -/
def maxBody : ℕ := 61440

/-- The most names a page lists (`MAX_SCAN_DIGESTS`). -/
def maxScanDigests : ℕ := 4

/-- The operations of the body plane (`OP_*`). -/
inductive BodyOp where
  | put
  | get
  | head
  | delete
  | scan
  | putKeyed
  | wopen
  | wappend
  | wcommit
  | wabort
  | range
deriving DecidableEq

/-- The errno of a refusal (`ERR_*`). -/
abbrev BodyErr := UInt8

/-- No such body. -/
def errNotFound : BodyErr := 1

/-- Past the ceiling. -/
def errTooLarge : BodyErr := 2

/-- The store or a member failed. -/
def errIo : BodyErr := 3

/-- A malformed request. -/
def errBadReq : BodyErr := 4

/-- A request, decoded; `malformed` is one that did not. -/
inductive BodyReq where
  | put (body : Bytes)
  | putKeyed (key : Digest) (blob : Bytes)
  | get (name : Digest)
  /-- Ask a body's size. -/
  | head (name : Digest)
  | range (name : Digest) (off : UInt64) (len : UInt32)
  | delete (name : Digest)
  | scan (cursor : UInt32) (max : UInt8)
  /-- Open a streamed write of a declared digest. -/
  | wopen (name : Digest) (totalLen : UInt64)
  | wappend (wid : UInt8) (chunk : Bytes)
  | wcommit (wid : UInt8)
  | wabort (wid : UInt8)
  /-- Bytes that decode to none of these. -/
  | malformed
deriving DecidableEq

/-- An answer: the opcode, with its payload if that decodes. -/
inductive BodyResp where
  | put (digest : Option Digest)
  | putKeyed (key : Option Digest)
  | get (blob : Option Bytes)
  | head (size : Option UInt64)
  | range (bytes : Option Bytes)
  | delete (existed : Bool)
  /-- A page of names, each with whether it is a key, and the next cursor. -/
  | scan (page : Option (UInt32 × List (Digest × Bool)))
  | wopen (wid : Option UInt8)
  | wappend
  | wcommit (digest : Option Digest)
  | wabort
  | nak (errno : BodyErr)
  | other
deriving DecidableEq

/-- The operation an answer's opcode names, none for a refusal. -/
def BodyResp.op : BodyResp → Option BodyOp
  | .put _ => some .put
  | .putKeyed _ => some .putKeyed
  | .get _ => some .get
  | .head _ => some .head
  | .range _ => some .range
  | .delete _ => some .delete
  | .scan _ => some .scan
  | .wopen _ => some .wopen
  | .wappend => some .wappend
  | .wcommit _ => some .wcommit
  | .wabort => some .wabort
  | .nak _ => none
  | .other => none

end Loam

import Loam.ClustorBridge
import Loam.WireFraming

/-!
# Frames of the network, read in short counts

The transport and a module exchange frames on a channel: a kind, the length of
the payload, and the payload. The module reads the header and then the rest of
a frame into a buffer of one frame, and the channel may give less than is asked
for (`read_net` of the gate, `net_read` and `read_frame` of a client). However
short the reads are, the frames come out as they went in, one after another
(`NetIn.read_spec`).

What a peer sends comes as the data of such frames, behind the number of its
connection. The wire is outside this repository; what is used of it is a
parameter.
-/

namespace Loam

open Slices BridgeWorld

/-- What is used of the network's wire. -/
structure NetWire where
  msgBound : UInt8
  msgAccepted : UInt8
  msgConnected : UInt8
  msgData : UInt8
  msgClosed : UInt8
  msgError : UInt8
  /-- The payload of an accept: how long it is at least, the connection and the
  local port in it, and the generation behind. -/
  acceptedFixed : ℕ
  acceptedParts : Bytes → UInt16 × UInt16
  generation : Bytes → UInt16
  /-- The payload of a connect: how long it is at least, the connection and the
  requester's tag. -/
  connectedFixed : ℕ
  connectedParts : Bytes → UInt16 × Bytes
  /-- The payload of an error: the connection, whether it says to dial again, and the
  requester's tag. -/
  errorParts : Bytes → UInt16 × Bool × Bytes
  maxFragment : ℕ
  /-- The length of a frame has two bytes. -/
  fragment_fits : 2 + maxFragment < 65536

/-- The connection a payload begins with. -/
def connId (p : Bytes) : UInt16 := UInt16.ofNat (num p 0 2)

/-- The header of a frame: its kind, and the length of its payload. -/
def netHdr : ℕ := 3

/-- One end of a channel: the frame being assembled, and what is not read. -/
structure NetIn where
  nf : Bytes := []
  unread : Bytes := []
deriving DecidableEq

namespace NetIn

/-- What a pass of the reader comes to. -/
inductive Pass where
  /-- A frame is longer than any the transport sends. -/
  | lost
  | empty
  | more (s : NetIn)
  | frame (f : ClustorFrame) (s : NetIn)

/-- What is wanted of the frame being assembled, of its header first. -/
def want (W : NetWire) (nf : Bytes) : Option ℕ :=
  if nf.length < netHdr then some (netHdr - nf.length)
  else if netHdr + 2 + W.maxFragment < netHdr + num nf 1 2 then none
  else some (netHdr + num nf 1 2 - nf.length)

/-- A pass of the reader, where the channel gives `k` bytes at most. -/
def read (W : NetWire) (s : NetIn) (k : ℕ) : Pass :=
  match want W s.nf with
  | none => .lost
  | some w =>
    let got := s.unread.take (min k w)
    let nf := s.nf ++ got
    let unread := s.unread.drop (min k w)
    if 0 < w ∧ got = [] then .empty
    else if got.length < w then .more ⟨nf, unread⟩
    -- The header is in: the payload is read next, if there is one.
    else if s.nf.length < netHdr ∧ num nf 1 2 ≠ 0 then .more ⟨nf, unread⟩
    else .frame (nf.getD 0 0, nf.drop netHdr) ⟨[], unread⟩

/-- The frame that is read in a pass, if one is. -/
def read? (W : NetWire) (s : NetIn) (k : ℕ) : Option ClustorFrame :=
  match s.read W k with
  | .frame f _ => some f
  | _ => none

/-- A frame that the transport sends. -/
def Sends (W : NetWire) (f : ClustorFrame) : Prop := f.2.length ≤ 2 + W.maxFragment

/-- The channel holds the frames that are not handed on, the first of them perhaps
in part in the buffer. -/
structure Holds (W : NetWire) (s : NetIn) (fs : List ClustorFrame) : Prop where
  bytes : s.nf ++ s.unread = envelope.frames fs
  short : envelope.head s.nf = none
  sends : ∀ f ∈ fs, Sends W f

variable {W : NetWire} {s : NetIn} {fs : List ClustorFrame} {f : ClustorFrame}

theorem holds_empty (W : NetWire) : Holds W {} [] := ⟨rfl, Framing.head_nil, nofun⟩

/-- A buffer that is short of its frame. -/
theorem head_eq_none {nf : Bytes} (h : nf.length < netHdr + num nf 1 2) : envelope.head nf = none := by
  show envelopeHead nf = none
  have hnot : ¬ 3 + num nf 1 2 ≤ nf.length := Nat.not_le.mpr h
  rw [envelopeHead, if_neg hnot]

theorem Sends.ok (h : Sends W f) : envelope.Ok f := Nat.lt_of_le_of_lt h W.fragment_fits

/-- The transport puts a frame behind what is there. -/
theorem Holds.arrive (h : Holds W s fs) (hf : Sends W f) :
    Holds W { s with unread := s.unread ++ envelope.enc f } (fs ++ [f]) where
  bytes := by
    show s.nf ++ (s.unread ++ envelope.enc f) = _
    rw [← List.append_assoc, h.bytes, envelope.frames_append, Framing.frames_cons,
      Framing.frames_nil, List.append_nil]
  short := h.short
  sends f' hf' := (List.mem_append.mp hf').elim (h.sends f') fun hm => List.mem_singleton.mp hm ▸ hf

/-- A header in the buffer is that of the first frame, and the buffer is short of it. -/
theorem Holds.header (h : Holds W s fs) (hlen : netHdr ≤ s.nf.length) :
    ∃ f fs', fs = f :: fs' ∧ num s.nf 1 2 = f.2.length ∧ s.nf.length < netHdr + f.2.length := by
  cases fs with
  | nil =>
    have hnil := (List.append_eq_nil_iff.mp h.bytes).1
    rw [hnil] at hlen
    exact absurd hlen (by decide)
  | cons f fs' =>
    have hf := (h.sends f List.mem_cons_self).ok
    have hshort := Framing.length_lt_of_head h.short hf h.bytes
    have hnum : num s.nf 1 2 = f.2.length := by
      rw [num_of_front (List.prefix_append s.nf s.unread) hlen, h.bytes, Framing.frames_cons]
      exact num_encodeEnvelope hf
    refine ⟨f, fs', rfl, hnum, hshort.trans_eq ?_⟩
    show (encodeEnvelope f).length = _
    rw [encodeEnvelope, List.length_append, List.length_append, length_leBytes]
    rfl

/-- A buffer of a whole frame has the first of them. -/
theorem Holds.whole {nf unread : Bytes} (hbytes : nf ++ unread = envelope.frames fs)
    (hsends : ∀ f ∈ fs, Sends W f) (hlen : nf.length = netHdr + num nf 1 2) :
    ∃ fs', fs = (nf.getD 0 0, nf.drop netHdr) :: fs' ∧ Holds W ⟨[], unread⟩ fs' := by
  have hhead : envelopeHead nf = some ((nf.getD 0 0, nf.drop netHdr), []) := by
    have hslice : slice nf 3 (num nf 1 2) = nf.drop netHdr := by
      refine List.take_of_length_le ?_
      rw [List.length_drop, hlen]
      exact (Nat.add_sub_cancel_left _ _).le
    have hin : 3 + num nf 1 2 ≤ nf.length := hlen.ge
    have hend : nf.length ≤ 3 + num nf 1 2 := hlen.le
    rw [envelopeHead, if_pos hin, hslice, List.drop_of_length_le hend]
  obtain ⟨hok, henc⟩ := envelopeHead_eq_some_iff.mp hhead
  rw [List.append_nil] at henc
  have hread : envelope.head (envelope.frames fs) = some ((nf.getD 0 0, nf.drop netHdr), unread) := by
    rw [← hbytes]
    conv_lhs => rw [henc]
    exact Framing.head_enc (F := envelope) hok unread
  cases fs with
  | nil =>
    rw [Framing.frames_nil, Framing.head_nil] at hread
    cases hread
  | cons f fs' =>
    rw [Framing.frames_cons, Framing.head_enc (hsends f List.mem_cons_self).ok] at hread
    obtain ⟨rfl, hrest⟩ := Prod.mk.inj (Option.some.inj hread)
    exact ⟨fs', rfl, hrest.symm, Framing.head_nil, fun f hf => hsends f (List.mem_cons_of_mem _ hf)⟩

/-- **A pass reads on in the frame it is in, or hands it on whole**: it loses
nothing, whatever the channel gives of what is asked for. -/
theorem read_spec (h : Holds W s fs) (k : ℕ) :
    s.read W k = .empty ∨ (∃ s', s.read W k = .more s' ∧ s'.Holds W fs) ∨
      ∃ f fs' s', fs = f :: fs' ∧ s.read W k = .frame f s' ∧ s'.Holds W fs' := by
  have hsplit : ∀ w, s.nf ++ s.unread.take (min k w) ++ s.unread.drop (min k w) =
      envelope.frames fs := by
    intro w
    rw [List.append_assoc, List.take_append_drop, h.bytes]
  have hle : ∀ w, (s.unread.take (min k w)).length ≤ w := fun w =>
    (List.length_take_le _ _).trans (Nat.min_le_right k w)
  unfold read
  by_cases hhdr : s.nf.length < netHdr
  · -- The header is read on.
    rw [want, if_pos hhdr]
    dsimp only
    have hgot := hle (netHdr - s.nf.length)
    have hall := hsplit (netHdr - s.nf.length)
    set got := s.unread.take (min k (netHdr - s.nf.length)) with hdef
    split
    · exact .inl rfl
    split
    · next hfew =>
      refine .inr (.inl ⟨_, rfl, hall, head_eq_none ?_, h.sends⟩)
      rw [List.length_append]
      omega
    next hfull =>
    have hlen : (s.nf ++ got).length = netHdr := by
      rw [List.length_append]
      omega
    split
    · next hmore =>
      refine .inr (.inl ⟨_, rfl, hall, head_eq_none ?_, h.sends⟩)
      rw [hlen]
      exact Nat.lt_add_of_pos_right (Nat.pos_of_ne_zero hmore.2)
    next hnone =>
    have hzero : num (s.nf ++ got) 1 2 = 0 := by
      by_contra hne
      exact hnone ⟨hhdr, hne⟩
    obtain ⟨fs', hfs, hholds⟩ := Holds.whole hall h.sends (by rw [hlen, hzero, Nat.add_zero])
    exact .inr (.inr ⟨_, fs', _, hfs, rfl, hholds⟩)
  · -- The rest of the frame is read on.
    obtain ⟨f, fs', hfs, hnum, hshort⟩ := h.header (Nat.not_lt.mp hhdr)
    have hsend := h.sends f (hfs ▸ List.mem_cons_self)
    have hfit : ¬ netHdr + 2 + W.maxFragment < netHdr + num s.nf 1 2 := by
      rw [hnum]
      unfold Sends at hsend
      omega
    rw [want, if_neg hhdr, if_neg hfit]
    dsimp only
    have hgot := hle (netHdr + num s.nf 1 2 - s.nf.length)
    have hall := hsplit (netHdr + num s.nf 1 2 - s.nf.length)
    set got := s.unread.take (min k (netHdr + num s.nf 1 2 - s.nf.length)) with hdef
    have hnum' : num (s.nf ++ got) 1 2 = num s.nf 1 2 :=
      (num_of_front (List.prefix_append s.nf got) (Nat.not_lt.mp hhdr)).symm
    split
    · exact .inl rfl
    split
    · next hfew =>
      refine .inr (.inl ⟨_, rfl, hall, head_eq_none ?_, h.sends⟩)
      rw [hnum', List.length_append]
      omega
    next hfull =>
    rw [if_neg fun hc => hhdr hc.1]
    have hlen : (s.nf ++ got).length = netHdr + num (s.nf ++ got) 1 2 := by
      rw [hnum', List.length_append]
      omega
    obtain ⟨fs'', hfs'', hholds⟩ := Holds.whole hall h.sends hlen
    exact .inr (.inr ⟨_, fs'', _, hfs'', rfl, hholds⟩)

end NetIn

end Loam

import Loam.AdminFraming
import Loam.AdminGate
import Loam.NetFrames

/-!
# The streams of the gate's sessions

What comes on a connection is cut into the frames of the network, and these are
read in short counts; the gate puts the data of each session together again and
acts on the requests and the capability frames it finds there (`read_net`,
`net_event`, `serve_net`). A frame of the network is read only while nothing is
owed, and after every session has been served what is whole of it: so a session
holds less than a frame when the next data come, and there is room for them.

The room is that of the longest request and of one fragment. The ceiling that a
frame is held against is the room, though, and not the longest request: a frame
between the two may leave no room for what comes with its end, and the session
is closed.

Beside the gate a run notes, by the number of a session, the data that came for
it and the frames that were acted on.
-/

namespace Loam.AdminGate

open Slices BridgeWorld

/-- The gate on its network. -/
structure NetConfig where
  cfg : Config
  wire : NetWire
  /-- A session's reassembly: a whole request and a fragment behind a partial one
  (`RX_MAX`). -/
  rx_eq : cfg.rxMax = requestMax cfg.limits + wire.maxFragment

/-- The gate, its side of the network, and what a run notes. -/
structure Fed where
  gate : Gate
  net : NetIn := {}
  /-- A frame came that no transport sends: nothing is read any more. -/
  lost : Bool := false
  /-- The sessions have been served, and the passes of `read_net` follow. -/
  reading : Bool := false
  /-- What the transport sent, and what was handed on of it. -/
  arrived : List ClustorFrame := []
  handed : List ClustorFrame := []
  /-- The data that came for each session, and the frames acted on. -/
  came : ℕ → Bytes := fun _ => []
  acted : ℕ → List Bytes := fun _ => []

namespace Gate

variable (cfg : Config) (g : Gate)

/-- The frame that the next pass of `serve` acts on, with its session. -/
def servable (i : ℕ) : Option (NetSession × Bytes) :=
  match g.net[i]? with
  | none => none
  | some s =>
    if ¬ (s.inUse ∧ s.accepted) ∨ s.rx = [] ∨ ¬ g.idle then none
    else match front cfg s.rx with
      | .frame n => if s.rx.length < n then none else some (s, s.rx.take n)
      | _ => none

/-- A slot of the network's table holds session `k`. -/
def Has (k i : ℕ) (s : NetSession) : Prop := g.net[i]? = some s ∧ s.inUse = true ∧ s.incarnation = k

end Gate

namespace Fed

variable (P : NetConfig)

/-- A pass of `serve_net`. -/
def pass (i : ℕ) (io : FrameIo) (w : Fed) : Fed :=
  { w with
    gate := w.gate.serve P.cfg i io
    acted := match w.gate.servable P.cfg i with
      | none => w.acted
      | some (s, f) => Function.update w.acted s.incarnation (w.acted s.incarnation ++ [f]) }

/-- Passes of `serve_net`, until one finds no frame to act on. -/
def serveNet (i : ℕ) : ℕ → (ℕ → FrameIo) → Fed → Fed
  | 0, _, w => w
  | n + 1, ios, w =>
    match w.gate.servable P.cfg i with
    | none => w.pass P i (ios 0)
    | some _ => serveNet i n (fun k => ios (k + 1)) (w.pass P i (ios 0))

/-- Serve the whole frames of a session (`serve_net`). Each has a byte at least. -/
def serveSession (i : ℕ) (ios : ℕ → FrameIo) (w : Fed) : Fed :=
  w.serveNet P i (((w.gate.net[i]?).map fun s => s.rx.length).getD 0 + 1) ios

/-- Serve every session (`serve_all`): once something is owed, no pass does
anything. -/
def serveAll (ios : ℕ → ℕ → FrameIo) (w : Fed) : Fed :=
  (List.range w.gate.net.length).foldl (fun w i => w.serveSession P i (ios i)) w

/-- A frame of the transport (`net_event`). -/
def netEvent (ios : ℕ → FrameIo) (f : ClustorFrame) (w : Fed) : Fed :=
  if f.1 = P.wire.msgAccepted then
    if f.2.length < P.wire.acceptedFixed then w
    else
      { w with
        gate := w.gate.accepted P.cfg (P.wire.acceptedParts f.2).1 (P.wire.acceptedParts f.2).2
          (P.wire.generation f.2) }
  else if f.1 = P.wire.msgData then
    if f.2.length < 2 then w
    else match w.gate.netByConn (connId f.2) with
      | none => w
      | some i =>
        let k := ((w.gate.net[i]?).map NetSession.incarnation).getD 0
        ({ w with
            gate := w.gate.data P.cfg (connId f.2) (f.2.drop 2)
            came := Function.update w.came k (w.came k ++ f.2.drop 2) } : Fed).serveSession P i ios
  else if f.1 = P.wire.msgClosed then
    if f.2.length < 2 then w else { w with gate := w.gate.closed (connId f.2) }
  else w

/-- What happens at the gate on its network. -/
inductive Move where
  | arrive (f : ClustorFrame)
  /-- The gate reads of peers' identities, of the router or of a link, or offers what
  it owes. -/
  | aside (e : Event)
  | serveAll (ios : ℕ → ℕ → FrameIo)
  /-- A pass of `read_net`, where the channel gives `n` bytes at most. -/
  | read (n : ℕ) (ios : ℕ → FrameIo)

/-- The events that are not of the network's stream. -/
def isAside : Event → Bool
  | .identity .. | .router .. | .record .. | .flushRequest .. | .flushAnswer .. => true
  | _ => false

/-- One move. A pass of `read_net` reads only while nothing is owed. -/
def step (w : Fed) : Move → Fed
  | .arrive f =>
    { w with
      net := { w.net with unread := w.net.unread ++ envelope.enc f }
      arrived := w.arrived ++ [f] }
  | .aside e =>
    if isAside e then { w with gate := AdminGate.step P.cfg w.gate e, reading := false } else w
  | .serveAll ios => { w.serveAll P ios with reading := true }
  | .read n ios =>
    if ¬ w.reading ∨ w.lost ∨ ¬ w.gate.idle then w
    else match w.net.read P.wire n with
      | .lost => { w with lost := true }
      | .empty => w
      | .more s => { w with net := s }
      | .frame f s => { w with net := s, handed := w.handed ++ [f] }.netEvent P ios f

/-- The gate as it is built, on its network. -/
def init : Fed := { gate := AdminGate.init P.cfg }

/-- After a run. -/
def reached (ms : List Move) : Fed := Run.run (step P) (init P) ms

end Fed

/-! ## The frames of a session -/

/-- A request or a capability frame, whole. -/
structure IsFrame (cfg : Config) (f : Bytes) : Prop where
  delimited : front cfg f = .frame f.length
  /-- A presentation names itself, and a withdrawal its presentation. -/
  presents : f.getD 0 0 = cfg.cap.present → 4 ≤ (f.drop capHdr).length
  withdraws : f.getD 0 0 = cfg.cap.withdraw → (f.drop capHdr).length = 4
  requests : isCapFrame cfg (f.getD 0 0) = false → (requestScope cfg.limits f).isSome = true

section Frames

variable {cfg : Config} {f x t u : Bytes}

theorem front_nil : front cfg [] = .more := by
  unfold front
  split
  · exact if_pos (by decide)
  · rfl

/-- What the front of the bytes is stays, once it is more than that too little is
there. -/
theorem front_append (h : front cfg x ≠ .more) (t : Bytes) : front cfg (x ++ t) = front cfg x := by
  cases x with
  | nil => exact absurd front_nil h
  | cons b xs =>
    unfold front at h ⊢
    rw [List.cons_append]
    simp only [List.getD_cons_zero] at h ⊢
    by_cases hcap : isCapFrame cfg b
    · simp only [if_pos hcap] at h ⊢
      by_cases hlen : (b :: xs).length < capHdr
      · exact absurd (if_pos hlen) h
      have hle := Nat.not_lt.mp hlen
      have hlen' : ¬ (b :: (xs ++ t)).length < capHdr := by
        rw [List.length_cons, List.length_append] at *
        omega
      have hnum : num (b :: (xs ++ t)) 1 2 = num (b :: xs) 1 2 :=
        (num_of_front (List.prefix_append (b :: xs) t) hle).symm
      rw [if_neg hlen, if_neg hlen', hnum]
    · simp only [if_neg hcap] at h ⊢
      have hmore : requestLen (b :: xs) ≠ .truncated := fun he => h (by rw [he])
      have happ := requestLen_append t hmore
      rw [List.cons_append] at happ
      rw [happ]

theorem IsFrame.ne_nil (hf : IsFrame cfg f) : f ≠ [] := by
  rintro rfl
  cases front_nil.symm.trans hf.delimited

/-- Bytes that go along with a frame are known for it, or not yet. -/
theorem IsFrame.along (hf : IsFrame cfg f) (h : x ++ t = f ++ u) :
    (x.length < f.length ∧ (front cfg x = .more ∨ front cfg x = .frame f.length)) ∨
      (f.length ≤ x.length ∧ front cfg x = .frame f.length ∧ x.take f.length = f) := by
  have hne : front cfg f ≠ .more := by rw [hf.delimited]; exact nofun
  have hwhole : front cfg (x ++ t) = .frame f.length := by
    rw [h, front_append hne, hf.delimited]
  by_cases hlt : x.length < f.length
  · refine .inl ⟨hlt, ?_⟩
    by_cases hmore : front cfg x = .more
    · exact .inl hmore
    · exact .inr ((front_append hmore t).symm.trans hwhole)
  have hle := Nat.not_lt.mp hlt
  obtain ⟨v, rfl⟩ : f <+: x :=
    List.prefix_of_prefix_length_le ⟨u, h.symm⟩ (List.prefix_append x t) hle
  refine .inr ⟨hle, ?_, List.take_left⟩
  rw [front_append hne, hf.delimited]

theorem IsFrame.goes_on (hf : IsFrame cfg f) (io : FrameIo) (a : SessionAuth) :
    (handleFrame cfg io a f).2 ≠ .ends := by
  unfold handleFrame
  split
  · next hpresent =>
    have hlong : ¬ (f.drop capHdr).length < 4 := Nat.not_lt.mpr (hf.presents hpresent)
    unfold present
    rw [if_neg hlong]
    split
    · exact nofun
    split
    · exact nofun
    · split <;> exact nofun
  · next hpresent =>
    split
    · next hwithdraw =>
      rw [if_neg (not_not.mpr (hf.withdraws hwithdraw))]
      exact nofun
    next hwithdraw =>
    have hcap : isCapFrame cfg (f.getD 0 0) = false := by
      rw [isCapFrame, Bool.or_eq_false_iff, beq_eq_false_iff_ne, beq_eq_false_iff_ne]
      exact ⟨hpresent, hwithdraw⟩
    obtain ⟨⟨scope, need⟩, hscope⟩ := Option.isSome_iff_exists.mp (hf.requests hcap)
    have hgoes : (gateRequest cfg.limits cfg.contract cfg.bodyObject a.toAuth io.clock
        io.leaseClock f).2 ≠ .closed := by
      unfold gateRequest
      rw [hscope]
      dsimp only
      split
      · exact nofun
      next grant hgrant =>
      split
      · next hlease =>
        obtain ⟨root, path, hdec, rfl⟩ := decodeAdminLease_of_scope hlease hscope
        rw [hdec]
        -- A key is admitted by a grant.
        obtain ⟨g, -, rfl⟩ := Option.map_eq_some_iff.mp hgrant
        cases io.leaseClock with
        | none => exact nofun
        | some c =>
          dsimp only
          split <;> exact nofun
      · exact nofun
    generalize gateRequest cfg.limits cfg.contract cfg.bodyObject a.toAuth io.clock
      io.leaseClock f = r at hgoes
    obtain ⟨auth, answer⟩ := r
    cases answer with
    | closed => exact absurd rfl hgoes
    | refused => exact nofun
    | forwarded => exact nofun

end Frames

end Loam.AdminGate

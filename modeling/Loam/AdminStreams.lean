import Loam.AdminClientRuns
import Loam.AdminGateExact
import Loam.AdminGateRuns

/-!
# Both ends of the admin streams

The gate acts on exactly the frames of a session, and a client hands out exactly the
answers, however the streams are cut: for the gate where no frame of any session is longer
than the longest request (`streams_exact`).

That a request is held against the room of a session, and not against the longest
request, breaks it for one between the two: with its end in a fragment come bytes for
which there is no room, and the session is closed (`long_chunk_closes`). Cut at its end it
is handled, and the gate panics if it is admitted: a request is forwarded from a buffer that
holds the longest one. That is not modelled, and `streams_exact` is about runs without.
-/

namespace Loam

open Slices BridgeWorld AdminGate AdminClient

/-- **Both ends put the streams together again.** -/
theorem streams_exact (P : NetConfig) (frames : ℕ → List Bytes) (ms : List Fed.Move)
    (W : ClientWire) (c₀ : Client) (records : List Bytes) (ms' : List World.Move)
    (hframes : ∀ k, ∀ f ∈ frames k, IsFrame P.cfg f)
    (hmax : ∀ k, ∀ f ∈ frames k, f.length ≤ requestMax P.cfg.limits)
    (hsent : ∀ m ∈ ms, Fed.Sent P m)
    (hcame : ∀ k, (Fed.reached P ms).came k <+: (frames k).flatten)
    (hrecords : ∀ f ∈ records, IsRecord W f) (hbegins : Begins c₀)
    (hsent' : ∀ m ∈ ms', AdminClient.Sent W c₀ m)
    (hcame' : (Run.run (World.step W) { c := c₀ } ms').came <+: records.flatten) :
    (∀ k, Fed.Exact P k (frames k) ms) ∧
      Hands W records (Run.run (World.step W) { c := c₀ } ms') :=
  ⟨fun k => Fed.exact_of_run (hframes k) (hmax k) ms hsent (hcame k),
    hands_of_run hrecords hbegins hsent' hcame'⟩

/-! ## A chunk longer than a request -/

namespace LongChunk

/-- A network whose frames carry up to 62000 bytes. -/
def wire : NetWire where
  msgBound := 0
  msgAccepted := 1
  msgConnected := 2
  msgData := 3
  msgClosed := 4
  msgError := 5
  acceptedFixed := 4
  acceptedParts p := (UInt16.ofNat (num p 0 2), UInt16.ofNat (num p 2 2))
  generation _ := 1
  connectedFixed := 2
  connectedParts p := (UInt16.ofNat (num p 0 2), p.drop 2)
  errorParts p := (UInt16.ofNat (num p 0 2), false, p.drop 2)
  maxFragment := 62000
  fragment_fits := by decide

def gate : NetConfig where
  cfg := { exampleConfig with rxMax := requestMax exampleConfig.limits + 62000 }
  wire := wire
  rx_eq := rfl

/-- A chunk of `n` bytes of zeroes, framed. -/
def head (n : ℕ) : Bytes := admPutFileChunk :: leBytes 4 1 ++ [0] ++ leBytes 4 n

def chunk (n : ℕ) : Bytes := head n ++ List.replicate n 0

theorem head_length (n : ℕ) : (head n).length = 10 := rfl

theorem chunk_length (n : ℕ) : (chunk n).length = 10 + n := by
  rw [chunk, List.length_append, List.length_replicate, head_length]

/-- Connection 5 is announced. -/
def announced : List Fed.Move :=
  [.arrive (1, [5, 0, 80, 0]), .serveAll fun _ _ => exampleIo, .read 3 fun _ => exampleIo,
    .read 4 fun _ => exampleIo]

/-- A payload comes, and is read in two passes. -/
def delivered (p : Bytes) : List Fed.Move :=
  [.arrive (3, p), .read 3 fun _ => exampleIo, .read p.length fun _ => exampleIo]

def session (rx : Bytes) : NetSession :=
  { inUse := true, accepted := true, conn := 5, gen := 1, incarnation := 1, rx := rx }

/-- The gate with the session of connection 5. -/
structure Open (w : Fed) (rx : Bytes) : Prop where
  slots : w.gate.net = [session rx, {}]
  idle : w.gate.idle = true
  net : w.net = {}
  going : w.reading = true ∧ w.lost = false
  acted : w.acted 1 = []

theorem announced_open : Open (Fed.reached gate announced) [] :=
  ⟨by decide, by decide, by decide, by decide, by decide⟩

theorem num_head {n : ℕ} (hn : n < 256 ^ 4) (t : Bytes) : num (head n ++ t) 6 4 = n := by
  have hfront := num_of_front (a := 6) (n := 4) (List.prefix_append (head n) t) (by rw [head_length])
  rw [← hfront]
  exact leNat_leBytes hn

/-- The front of a chunk says how long it is. -/
theorem front_chunk {n : ℕ} (hn : n < 256 ^ 4) (hfit : 10 + n ≤ gate.cfg.rxMax) (t : Bytes) :
    front gate.cfg (head n ++ t) = .frame (10 + n) := by
  have hlen : requestLen (head n ++ t) = .len (10 + n) := by
    have hfields : requestLen (head n ++ t) = if [(6, 4)].all (fun f : ℕ × ℕ =>
        decide (f.1 + f.2 ≤ (head n ++ t).length)) then .len (10 + (num (head n ++ t) 6 4 + 0))
        else .truncated := rfl
    rw [hfields, num_head hn, if_pos]
    · rfl
    · rw [List.length_append, head_length]
      simp
  have hcap : isCapFrame gate.cfg ((head n ++ t).getD 0 0) = false := by
    show isCapFrame gate.cfg admPutFileChunk = false
    decide
  rw [front, hcap, if_neg Bool.false_ne_true, hlen]
  exact if_neg (Nat.not_lt.mpr hfit)

theorem chunk_isFrame {n : ℕ} (hn : n < 256 ^ 4) (hfit : 10 + n ≤ gate.cfg.rxMax) :
    IsFrame gate.cfg (chunk n) where
  delimited := by rw [chunk_length]; exact front_chunk hn hfit _
  presents h := absurd (show admPutFileChunk = 1 from h) (by decide)
  withdraws h := absurd (show admPutFileChunk = 2 from h) (by decide)
  requests _ := by
    have hdec : decodePutFileChunk (chunk n) = some 0 := by
      rw [decodePutFileChunk, chunk_length, if_neg (Nat.not_lt.mpr (Nat.le_add_right 10 n)),
        if_neg (fun hne => hne (rfl : (chunk n).getD 0 0 = admPutFileChunk)), chunk, num_head hn,
        if_neg (Nat.lt_irrefl _)]
      rfl
    have hscope : requestScope gate.cfg.limits (chunk n) =
        (decodePutFileChunk (chunk n)).map fun pfid => (.stream pfid, .write) := rfl
    rw [hscope, hdec]
    rfl

/-! ## What is read of the network -/

variable {w : Fed} {rx p : Bytes} {s : NetSession} {i : ℕ} {ios : ℕ → FrameIo}

/-- A session with less than its frame, or none, is left as it is. -/
theorem serveSession_same (hs : w.gate.net[i]? = some s)
    (h : s.inUse = false ∨ ∃ n, front gate.cfg s.rx = .frame n ∧ s.rx.length < n) :
    w.serveSession gate i ios = w := by
  have hnone : w.gate.servable gate.cfg i = none ∧ w.gate.serve gate.cfg i (ios 0) = w.gate := by
    unfold Gate.servable Gate.serve
    rw [hs]
    dsimp only
    by_cases hcond : ¬ (s.inUse ∧ s.accepted) ∨ s.rx = [] ∨ ¬ w.gate.idle
    · rw [if_pos hcond, if_pos hcond]
      exact ⟨rfl, rfl⟩
    rw [if_neg hcond, if_neg hcond]
    cases h with
    | inl hout => exact absurd (.inl fun hin => Bool.false_ne_true (hout.symm.trans hin.1)) hcond
    | inr hshort =>
      obtain ⟨n, hfront, hlt⟩ := hshort
      rw [hfront]
      exact ⟨if_pos hlt, if_pos hlt⟩
  unfold Fed.serveSession Fed.serveNet
  rw [hnone.1]
  unfold Fed.pass
  rw [hnone.1, hnone.2]

theorem num_header {k : UInt8} {n : ℕ} (hn : n < 65536) : num (k :: leBytes 2 n) 1 2 = n := by
  show leNat ((leBytes 2 n).take 2) = n
  rw [List.take_of_length_le (length_leBytes 2 n).le, leNat_leBytes hn]

theorem read_head {W : NetWire} {f : ClustorFrame} (hne : 0 < f.2.length) (hf : f.2.length < 65536) :
    NetIn.read W ⟨[], encodeEnvelope f⟩ 3 = .more ⟨f.1 :: leBytes 2 f.2.length, f.2⟩ := by
  have hnum : num (f.1 :: leBytes 2 f.2.length) 1 2 = f.2.length := num_header hf
  have htake : (encodeEnvelope f).take 3 = f.1 :: leBytes 2 f.2.length := rfl
  have hdrop : (encodeEnvelope f).drop 3 = f.2 := rfl
  show (if 0 < 3 ∧ (encodeEnvelope f).take 3 = [] then NetIn.Pass.empty
    else if ((encodeEnvelope f).take 3).length < 3 then
      .more ⟨(encodeEnvelope f).take 3, (encodeEnvelope f).drop 3⟩
    else if ([] : Bytes).length < netHdr ∧ num ((encodeEnvelope f).take 3) 1 2 ≠ 0 then
      .more ⟨(encodeEnvelope f).take 3, (encodeEnvelope f).drop 3⟩
    else .frame (((encodeEnvelope f).take 3).getD 0 0, ((encodeEnvelope f).take 3).drop netHdr)
      ⟨[], (encodeEnvelope f).drop 3⟩) = _
  have hlen : ¬ (f.1 :: leBytes 2 f.2.length).length < 3 := (Nat.lt_irrefl 3 : ¬ 3 < 3)
  rw [htake, hdrop, hnum, if_neg (fun h => by cases h.2), if_neg hlen, if_pos ⟨by decide, hne.ne'⟩]

theorem read_payload {W : NetWire} {f : ClustorFrame} (hne : 0 < f.2.length)
    (hf : NetIn.Sends W f) :
    NetIn.read W ⟨f.1 :: leBytes 2 f.2.length, f.2⟩ f.2.length = .frame f ⟨[], []⟩ := by
  have hnum : num (f.1 :: leBytes 2 f.2.length) 1 2 = f.2.length := num_header hf.ok
  have hlen : ¬ (f.1 :: leBytes 2 f.2.length).length < netHdr := (Nat.lt_irrefl 3 : ¬ 3 < 3)
  have hwant : NetIn.want W (f.1 :: leBytes 2 f.2.length) = some f.2.length := by
    have hfit : ¬ netHdr + 2 + W.maxFragment < netHdr + f.2.length := by
      unfold NetIn.Sends at hf
      omega
    rw [NetIn.want, if_neg hlen, hnum, if_neg hfit]
    exact congrArg some (Nat.add_sub_cancel_left _ _)
  unfold NetIn.read
  rw [hwant]
  dsimp only
  rw [Nat.min_self, List.take_length, List.drop_length, if_neg, if_neg (Nat.lt_irrefl _),
    if_neg (fun h => hlen h.1)]
  · rfl
  · rintro ⟨-, hnil⟩
    rw [hnil] at hne
    exact Nat.lt_irrefl _ hne

/-- A pass of the gate's reader, while it goes. -/
theorem step_read (h : w.reading = true ∧ w.lost = false) (hidle : w.gate.idle = true) (n : ℕ) :
    w.step gate (.read n ios) = match w.net.read wire n with
      | .lost => { w with lost := true }
      | .empty => w
      | .more s => { w with net := s }
      | .frame f s => { w with net := s, handed := w.handed ++ [f] }.netEvent gate ios f := by
  refine if_neg ?_
  rw [h.1, h.2, hidle]
  decide

/-- A payload is handed on, and nothing outside ends the session. -/
theorem delivered_run (h : Open w rx) (hp : 0 < p.length) (hmax : p.length ≤ 62002) :
    ∃ w', Open w' rx ∧ w'.came = w.came ∧
      Run.run (Fed.step gate) w (delivered p) = w'.netEvent gate (fun _ => exampleIo) (3, p) ∧
      Run.AllSteps (Fed.step gate) (fun w m => ¬ Fed.EndsOutside gate 1 w m) w (delivered p) := by
  have hhead := read_head (W := wire) (f := (3, p)) hp (hmax.trans_lt (by decide))
  have hpay := read_payload (W := wire) (f := (3, p)) hp hmax
  -- The frame is there, then its header is read, then it is handed on.
  have harrive : w.step gate (.arrive (3, p)) =
      { w with net := ⟨[], encodeEnvelope (3, p)⟩, arrived := w.arrived ++ [(3, p)] } := by
    unfold Fed.step
    rw [h.net]
    rfl
  have hfirst : (w.step gate (.arrive (3, p))).step gate (.read 3 fun _ => exampleIo) =
      { w with
        net := ⟨(3 : UInt8) :: leBytes 2 p.length, p⟩
        arrived := w.arrived ++ [(3, p)] } := by
    rw [harrive, step_read]
    · dsimp only
      rw [hhead]
    · exact h.going
    · exact h.idle
  set w' : Fed :=
    { w with net := ⟨[], []⟩, arrived := w.arrived ++ [(3, p)], handed := w.handed ++ [(3, p)] } with hw'
  refine ⟨w', ⟨h.slots, h.idle, rfl, h.going, h.acted⟩, rfl, ?_, ?_⟩
  · rw [delivered, Run.run_cons, Run.run_cons, Run.run_cons, Run.run_nil, hfirst, step_read]
    · dsimp only
      rw [hpay]
    · exact h.going
    · exact h.idle
  · refine ⟨id, ?_, ?_, trivial⟩
    · rw [harrive]
      rintro ⟨i, s, f, -, hread, -⟩
      rw [NetIn.read?] at hread
      dsimp only at hread
      rw [show gate.wire = wire from rfl, hhead] at hread
      cases hread
    · rw [hfirst]
      rintro ⟨i, s, f, -, hread, hend⟩
      rw [NetIn.read?] at hread
      dsimp only at hread
      rw [show gate.wire = wire from rfl, hpay] at hread
      obtain rfl := Option.some.inj hread
      rcases hend with ⟨hk, -⟩ | ⟨hk, -⟩
      · exact absurd (show (3 : UInt8) = 4 from hk) (by decide)
      · exact absurd (show (3 : UInt8) = 1 from hk) (by decide)

/-! ## The session is closed -/

/-- A fragment of the stream of connection 5. -/
def fragment (d : Bytes) : Bytes := 5 :: 0 :: d

theorem fragment_pos (d : Bytes) : 0 < (fragment d).length := Nat.succ_pos _

theorem Open.byConn {w : Fed} (h : Open w rx) : w.gate.netByConn 5 = some 0 := by
  rw [Gate.netByConn, h.slots]
  rfl

theorem Open.slot {w : Fed} (h : Open w rx) : w.gate.net[0]? = some (session rx) := by
  rw [h.slots]
  rfl

/-- A fragment is put behind what is held, and the session is served. -/
theorem netEvent_fragment {w : Fed} (h : Open w rx) (d : Bytes) :
    w.netEvent gate ios (3, fragment d) =
      ({ w with
        gate := w.gate.data gate.cfg 5 d
        came := Function.update w.came 1 (w.came 1 ++ d) } : Fed).serveSession gate 0 ios := by
  have hkind : ¬ (3 : UInt8) = gate.wire.msgAccepted := by decide
  have hdata : (3 : UInt8) = gate.wire.msgData := rfl
  have hlen : ¬ (fragment d).length < 2 := Nat.not_lt.mpr (Nat.le_add_left 2 _)
  have hconn : connId (fragment d) = 5 := rfl
  unfold Fed.netEvent
  rw [if_neg hkind, if_pos hdata, if_neg hlen, hconn, h.byConn]
  dsimp only
  rw [h.slot]
  rfl

theorem data_waits {w : Fed} {d : Bytes} {n : ℕ} (h : Open w rx)
    (hfit : rx.length + d.length ≤ gate.cfg.rxMax) (hfront : front gate.cfg (rx ++ d) = .frame n)
    (hlt : (rx ++ d).length < n) :
    Open (w.netEvent gate (fun _ => exampleIo) (3, fragment d)) (rx ++ d) ∧
      (w.netEvent gate (fun _ => exampleIo) (3, fragment d)).came 1 = w.came 1 ++ d := by
  have hdata : w.gate.data gate.cfg 5 d =
      { w.gate with net := [session (rx ++ d), {}] } := by
    unfold Gate.data
    rw [if_neg (not_not.mpr h.idle), h.byConn]
    dsimp only
    rw [h.slot]
    dsimp only
    rw [show (session rx).closing = false from rfl, if_neg Bool.false_ne_true,
      show (session rx).rx = rx from rfl, if_neg (Nat.not_lt.mpr hfit), h.slots]
    rfl
  rw [netEvent_fragment h, hdata, serveSession_same (s := session (rx ++ d)) rfl (.inr ⟨n, hfront, hlt⟩)]
  refine ⟨⟨rfl, h.idle, h.net, h.going, h.acted⟩, ?_⟩
  exact Function.update_self (1 : ℕ) _ w.came

/-- Data for which there is no room end the session. -/
theorem data_ends {w : Fed} {d : Bytes} (h : Open w rx)
    (hover : gate.cfg.rxMax < rx.length + d.length) :
    (∀ i s, ¬ (w.netEvent gate (fun _ => exampleIo) (3, fragment d)).gate.Has 1 i s) ∧
      (w.netEvent gate (fun _ => exampleIo) (3, fragment d)).came 1 = w.came 1 ++ d ∧
      (w.netEvent gate (fun _ => exampleIo) (3, fragment d)).acted 1 = [] := by
  have hdata : w.gate.data gate.cfg 5 d =
      { w.gate with net := [(session rx).ended, {}] } := by
    unfold Gate.data
    rw [if_neg (not_not.mpr h.idle), h.byConn]
    dsimp only
    rw [h.slot]
    dsimp only
    rw [show (session rx).closing = false from rfl, if_neg Bool.false_ne_true,
      show (session rx).rx = rx from rfl, if_pos hover, Gate.endNet, h.slots]
    rfl
  rw [netEvent_fragment h, hdata, serveSession_same (s := (session rx).ended) rfl (.inl rfl)]
  refine ⟨fun i s hs => ?_, Function.update_self (1 : ℕ) _ w.came, h.acted⟩
  obtain ⟨hget, huse, -⟩ := hs
  have hmem := List.mem_of_getElem? hget
  rcases List.mem_pair.mp hmem with rfl | rfl
  · cases huse
  · cases huse

/-- The chunk that is longer than a request, and one that is as long. -/
def frames : List Bytes := [chunk 61991, chunk 61969]

/-- What the transport sends is short enough, and no link has anything. -/
theorem sent_of_arrive {ms : List Fed.Move} (h : ∀ f, .arrive f ∈ ms → f.2.length ≤ 62002)
    (hlinks : ∀ e, .aside e ∉ ms) : ∀ m ∈ ms, Fed.Sent gate m := by
  intro m hm
  cases m with
  | arrive f => exact h f hm
  | aside e => exact absurd hm (hlinks e)
  | serveAll | read => trivial

/-! Where no frame is longer than a request: a chunk comes to the gate in two fragments, and
its answer comes to a client over a link. -/

/-- What a client uses of its wires. -/
def client : ClientWire where
  limits := exampleConfig.limits
  net := wire
  present := 1
  answer := 3
  answerFixed := 6
  answerGranted := 64
  granted := 0
  unauthenticated := 1
  grantsFull := 2
  granted_fits := by decide

/-- A chunk in two fragments. -/
def chunkMoves : List Fed.Move :=
  announced ++ delivered (fragment ((chunk 3).take 7)) ++ delivered (fragment ((chunk 3).drop 7))

/-- Session 1 sends it, and no other sends anything. -/
def chunkFrames (k : ℕ) : List Bytes := if k = 1 then [chunk 3] else []

theorem chunkFrames_eq {k : ℕ} {f : Bytes} (hf : f ∈ chunkFrames k) : f = chunk 3 := by
  unfold chunkFrames at hf
  split at hf
  · exact List.mem_singleton.mp hf
  · cases hf

theorem came_chunkMoves (k : ℕ) :
    (Fed.reached gate chunkMoves).came k <+: (chunkFrames k).flatten := by
  by_cases hk : k = 1
  · subst hk
    decide
  · have hcame : (Fed.reached gate chunkMoves).came =
        Function.update (Function.update (fun _ => []) 1 ((chunk 3).take 7)) 1 (chunk 3) := rfl
    rw [hcame, Function.update_of_ne hk, Function.update_of_ne hk]
    exact List.nil_prefix

theorem streams_exact_chunk :
    (∀ k, Fed.Exact gate k (chunkFrames k) chunkMoves) ∧
      Hands client [[admPutFileChunk, 1, 0, 0, 0, 1]] (Run.run (World.step client)
        { c := .ofLink 1 [] 0 } [.record [1, 0, 0, 0, admPutFileChunk, 1, 0, 0, 0, 1],
          .poll ⟨5, true, true, [], 0⟩, .recv, .take]) := by
  refine streams_exact gate chunkFrames _ client (.ofLink 1 [] 0) _ _ (fun k f hf => ?_)
    (fun k f hf => ?_) ?_ came_chunkMoves (fun f hf => ?_) (.inl ⟨1, [], 0, rfl⟩) (fun m hm => ?_)
    (by decide)
  · obtain rfl := chunkFrames_eq hf
    exact chunk_isFrame (by decide) (by decide)
  · obtain rfl := chunkFrames_eq hf
    decide
  · refine sent_of_arrive (fun f hf => ?_) (by simp [chunkMoves, announced, delivered])
    simp only [chunkMoves, announced, delivered, List.cons_append, List.nil_append, List.mem_cons,
      Fed.Move.arrive.injEq, reduceCtorEq, false_or, List.not_mem_nil, or_false] at hf
    rcases hf with rfl | rfl | rfl <;> decide
  · obtain rfl := List.mem_singleton.mp hf
    exact .inl ⟨by decide, by decide, by decide⟩
  · rcases List.mem_cons.mp hm with rfl | hm
    · exact ⟨by decide, fun _ => .inl ⟨by decide, by decide, by decide⟩⟩
    simp only [List.mem_cons, List.not_mem_nil, or_false] at hm
    rcases hm with rfl | rfl | rfl <;> trivial

/-- The first is cut a byte before its end. -/
def cut : Bytes := head 61991 ++ List.replicate 61990 0

def moves : List Fed.Move :=
  announced ++ delivered (fragment cut) ++ delivered (fragment (0 :: chunk 61969))

theorem cut_length : cut.length = 62000 := by
  rw [cut, List.length_append, head_length, List.length_replicate]

theorem frames_flatten : frames.flatten = cut ++ 0 :: chunk 61969 := by
  have hsplit : chunk 61991 = cut ++ [0] := by
    rw [chunk, List.replicate_succ', cut, List.append_assoc]
  rw [frames, List.flatten_cons, List.flatten_cons, List.flatten_nil, List.append_nil, hsplit,
    List.append_assoc]
  rfl

/-- No session is there before the connection is announced. -/
theorem announced_alone :
    Run.AllSteps (Fed.step gate) (fun w m => ¬ Fed.EndsOutside gate 1 w m) (Fed.init gate)
      announced := by
  refine ⟨id, id, ?_, ?_, trivial⟩
  all_goals
    rintro ⟨i, s, f, hs, -⟩
    obtain rfl := List.eq_of_mem_replicate (n := 2) (List.mem_of_getElem? hs.1)
    cases hs.2.1

/-- **A session whose frames have come whole is closed** with none acted on, where one of
them is longer than the longest request and its end comes together with the next. -/
theorem long_chunk_closes :
    (∀ f ∈ frames, IsFrame gate.cfg f) ∧ (∀ m ∈ moves, Fed.Sent gate m) ∧
      (Fed.reached gate moves).came 1 = frames.flatten ∧ (Fed.reached gate moves).acted 1 = [] ∧
      ¬ Fed.Exact gate 1 frames moves := by
  have hfit : gate.cfg.rxMax = 123979 := by decide
  have hrest : (0 :: chunk 61969).length = 61980 := by
    rw [List.length_cons, chunk_length]
  have hfront : front gate.cfg ([] ++ cut) = .frame 62001 :=
    front_chunk (n := 61991) (by decide) (by rw [hfit]; decide) _
  -- The session is announced, and holds all but the last byte of the first chunk.
  have hopen := announced_open
  have hnew : (Fed.reached gate announced).came 1 = [] := by decide
  have hsmall : ∀ d : Bytes, d.length ≤ 62000 → (fragment d).length ≤ 62002 := fun d hd => by
    rw [fragment, List.length_cons, List.length_cons]
    exact Nat.add_le_add_right hd 2
  obtain ⟨w₁, ho₁, hc₁, hrun₁, hall₁⟩ := delivered_run hopen (fragment_pos _) (hsmall _ cut_length.le)
  obtain ⟨hopen₁, hcame₁⟩ := data_waits (n := 62001) ho₁ (by rw [cut_length, hfit]; decide)
    hfront (by rw [List.nil_append, cut_length]; decide)
  rw [← hrun₁] at hopen₁ hcame₁
  -- Its end comes with the second.
  obtain ⟨w₂, ho₂, hc₂, hrun₂, hall₂⟩ := delivered_run hopen₁ (fragment_pos _)
    (hsmall (0 :: chunk 61969) (by rw [hrest]; decide))
  obtain ⟨hgone, hcame₂, hacted⟩ := data_ends ho₂ (d := 0 :: chunk 61969) (by
    rw [List.nil_append, cut_length, hrest, hfit]
    decide)
  rw [← hrun₂] at hgone hcame₂ hacted
  have hreached : Fed.reached gate moves = Run.run (Fed.step gate)
      (Run.run (Fed.step gate) (Fed.reached gate announced)
        (delivered (fragment cut)))
      (delivered (fragment (0 :: chunk 61969))) := by
    rw [Fed.reached, moves, Run.run_append, Run.run_append]
    rfl
  have hcame : (Fed.reached gate moves).came 1 = frames.flatten := by
    rw [hreached, hcame₂, hc₂, hcame₁, hc₁, hnew, List.nil_append, frames_flatten]
  refine ⟨fun f hf => ?_, fun m hm => ?_, hcame, hreached ▸ hacted, fun hexact => ?_⟩
  · rcases List.mem_pair.mp hf with rfl | rfl
    · exact chunk_isFrame (by decide) (by rw [hfit]; decide)
    · exact chunk_isFrame (by decide) (by rw [hfit]; decide)
  · refine sent_of_arrive (fun f hf => ?_) (by simp [moves, announced, delivered]) m hm
    simp only [moves, announced, delivered, List.cons_append, List.nil_append, List.mem_cons,
      Fed.Move.arrive.injEq, reduceCtorEq, false_or, List.not_mem_nil, or_false] at hf
    rcases hf with rfl | rfl | rfl
    · exact (by decide : 4 ≤ 62002)
    · exact hsmall _ cut_length.le
    · exact hsmall _ (by rw [hrest]; decide)
  · have hall : Run.AllSteps (Fed.step gate) (fun w m => ¬ Fed.EndsOutside gate 1 w m)
        (Fed.init gate) moves := by
      rw [moves, Run.allSteps_append, Run.allSteps_append, Run.run_append]
      exact ⟨⟨announced_alone, hall₁⟩, hall₂⟩
    obtain ⟨i, s, hs⟩ := hexact.stays hall (by
      rw [hcame, frames_flatten]
      exact List.append_ne_nil_of_right_ne_nil _ (List.cons_ne_nil _ _))
    rw [hreached] at hs
    exact hgone i s hs

end LongChunk

end Loam

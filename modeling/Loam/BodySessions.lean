import Loam.BodyStreams

/-!
# Streams are told apart

The world here knows which stream is which: streams are numbered as they are
opened, `owner` says whose a slot is and `of` whose a join is, and `sessions` is
what the members answered to each open. A request about a stream comes with the
number of the stream it is meant for.

A member frees a session when it commits it, gives it up or finds it idle, and
gives its number to another stream. It meets its questions in the order they are
sent, so a message names a stream's session when, of the opens before it that the
member answered with that number, the stream's is the last (`Holds`). That is so as
long as every open is answered by all its members with a session each, what acts on
a slot, a request or a failed answer, finds it with the stream it is about, and no
message is sent for a stream whose session has gone to another (`orderly`). An open
that fails halfway is given up on all its members, and those that had not answered
are told to drop session 0.
-/

namespace Loam.BodyRouter

open Fanout (Same Around Asks Spends Ticket Opens Question Sends)

/-- A session a member gave an open. -/
structure Grant where
  stream : ℕ
  member : UInt8
  wid : UInt8
  /-- The place of the open among the questions sent. -/
  asked : ℕ
deriving DecidableEq

/-- The streams through a router. -/
structure StreamWorld where
  router : State
  opens : ℕ
  /-- The stream a slot was taken for last. -/
  owner : ℕ → ℕ
  of : ℕ → ℕ
  sessions : List Grant
  /-- The questions sent, each with the stream the event was about. -/
  log : List (Option ℕ × Question UInt8 BodyReq)

namespace StreamWorld

/-- A router that was just made. -/
def init (C : Config) : StreamWorld := ⟨State.init C, 0, fun _ => 0, fun _ => 0, [], []⟩

/-- The stream an event is about. -/
def subject (C : Config) (w : StreamWorld) (x : EcEvent × ℕ) : Option ℕ :=
  match x.1 with
  | .request _ (.wopen _ _) => some w.opens
  | .request _ req => (aims C w.router req).map fun _ => x.2
  | e => (about w.router.io e).bind fun g => (w.router.io.join? g).bind fun j => j.slot.map fun _ => w.of g

/-- The stream of each slot, after an event: an open takes the first free one. -/
def takes (C : Config) (w : StreamWorld) (e : EcEvent) : ℕ → ℕ :=
  match e with
  | .request _ (.wopen _ _) => ((freeSlot C w.router).map fun sid => Function.update w.owner sid w.opens).getD w.owner
  | _ => w.owner

/-- The session an event tells of: a member opened it for a stream. -/
def tells (w : StreamWorld) (e : EcEvent) : List Grant :=
  match e.spends w.router.io with
  | some (k, _, .wopen (some wid)) =>
    if (w.router.io.join? k.join).any fun j => j.kind = .streamOpen then
      [⟨w.of k.join, k.peer, wid, w.log.findIdx fun p => decide (p.2.cid = k.cid)⟩]
    else []
  | _ => []

/-- The event opens a stream. -/
def opensOne : EcEvent → Bool
  | .request _ (.wopen _ _) => true
  | _ => false

section World

variable (C : Config) (N : ℕ → Bool)

/-- Meet an event. -/
def step (w : StreamWorld) (x : EcEvent × ℕ) : StreamWorld where
  router := tableStep C N w.router x.1
  opens := if opensOne x.1 then w.opens + 1 else w.opens
  owner := w.takes C x.1
  of := fun g => if g < w.router.io.nextGen then w.of g else (w.subject C x).getD 0
  sessions := w.sessions ++ w.tells x.1
  log := w.log ++ ((tableStep C N w.router x.1).io.sent.drop w.router.io.sent.length).map
    fun q => (w.subject C x, q)

/-- The world a run ends in. -/
def runOf (xs : List (EcEvent × ℕ)) : StreamWorld := Run.run (step C N) (init C) xs

/-- There is room for the questions of an open, and every member takes its own. -/
def taken (s : State) (name : Digest) : Bool :=
  decide (s.io.awaited.length + (rankTargets C s.fleet name).length ≤ C.pendingCap) &&
    (List.range (rankTargets C s.fleet name).length).all fun i => N (s.io.tries + i)

/-- The stream of a slot is not open yet. -/
def isOpening (s : State) (sid : ℕ) : Bool :=
  s.io.joins.any fun p => decide (p.2.kind = .streamOpen) && decide (p.2.stream = some sid)

/-- A member answers an open with a session, under a number no message sent to it
after the open names. -/
def tellsSession (w : StreamWorld) (k : Ticket UInt8) : BodyResp → Bool
  | .wopen (some wid) =>
    (w.log.drop (w.log.findIdx fun p => decide (p.2.cid = k.cid))).all fun p =>
      !(decide (p.2.peer = k.peer) && decide (session p.2.req = some wid))
  | _ => false

/-- No member has given another open the session it gave a stream, since. -/
def lasts (w : StreamWorld) (n : ℕ) : Bool :=
  w.sessions.all fun x => x.stream ≠ n || w.sessions.all fun y =>
    !(decide (y.member = x.member) && decide (y.wid = x.wid)) || decide (y.asked ≤ x.asked)

/-- The answer gives up the stream of its join on its members. -/
def givesUp (j : Join) (resp : BodyResp) : Bool :=
  decide (j.kind ≠ .streamAbort) && decide (resp.op ≠ some j.op)

/-- An open is taken by every member and answered by each with a session; what acts
on a slot finds the stream it is about, and that stream with its sessions where it
sends for it. -/
def orderly (w : StreamWorld) (x : EcEvent × ℕ) : Bool :=
  x.1.own w.router.io &&
    match x.1 with
    | .request _ (.wopen name _) =>
      (freeSlot C w.router).isNone || decide (C.joinCap ≤ w.router.io.joins.length) ||
        taken C N w.router name
    | .request _ req =>
      (aims C w.router req).all fun sid =>
        decide (w.owner sid = x.2) && !isOpening w.router sid && w.lasts x.2
    | e =>
      match e.spends w.router.io with
      | none => true
      | some (k, _, resp) =>
        (w.router.io.join? k.join).all fun j =>
          if j.kind = .streamOpen then w.tellsSession k resp
          else (j.struck resp).all fun sid =>
            decide (w.owner sid = w.of k.join) && (!givesUp j resp || w.lasts (w.of k.join))

end World

/-- A member's session is a stream's as the member meets the `i`-th question sent: of
the opens before it that were answered with that session, the stream's is the
last. -/
def Holds (w : StreamWorld) (n : ℕ) (t wid : UInt8) (i : ℕ) : Prop :=
  ∃ x ∈ w.sessions, x.stream = n ∧ x.member = t ∧ x.wid = wid ∧ x.asked ≤ i ∧
    ∀ y ∈ w.sessions, y.member = t → y.wid = wid → y.asked ≤ i → y.asked ≤ x.asked

/-- The `i`-th message sent names the session its member has for the stream it is
for. -/
def Named (w : StreamWorld) (i : ℕ) (p : Option ℕ × Question UInt8 BodyReq) : Prop :=
  ∀ wid, session p.2.req = some wid → ∃ n, p.1 = some n ∧ w.Holds n p.2.peer wid i

/-- A run keeps its streams apart. -/
structure Apart (C : Config) (N : ℕ → Bool) (xs : List (EcEvent × ℕ)) : Prop where
  /-- Every message to a member names the session that member has for the stream. -/
  named : ∀ i p, (runOf C N xs).log[i]? = some p → (runOf C N xs).Named i p
  logged : (runOf C N xs).log.map Prod.snd = (runOf C N xs).router.io.sent
  /-- An event changes no stream but the one it is about. -/
  own : ∀ xs₀ x xs₁, xs = xs₀ ++ x :: xs₁ → ∀ sid, ((runOf C N xs₀).router.streams sid).inUse = true →
    (runOf C N xs₀).subject C x ≠ some ((runOf C N xs₀).owner sid) →
      (runOf C N (xs₀ ++ [x])).router.streams sid = (runOf C N xs₀).router.streams sid

/-! ## What a world keeps -/

/-- The session a slot has for a place is its stream's. -/
def Knows (w : StreamWorld) (sid i : ℕ) (t : UInt8) : Prop :=
  ∃ x ∈ w.sessions, x.stream = w.owner sid ∧ x.member = t ∧ x.wid = (w.router.streams sid).wids i

/-- The stream of a slot is open on all its members. -/
structure Known (w : StreamWorld) (sid : ℕ) : Prop where
  knows : ∀ i t, (w.router.streams sid).targets[i]? = some t → w.Knows sid i t
  opened : ∀ g j, w.router.io.join? g = some j → j.kind = .streamOpen → j.stream ≠ some sid

/-- A stream that is being opened: each member has answered, or is awaited. -/
structure Opening (w : StreamWorld) (g : ℕ) (j : Join) (sid : ℕ) : Prop where
  stream : j.stream = some sid
  /-- A good answer repeats the open. -/
  op : j.op = .wopen
  owner : w.owner sid = w.of g
  inUse : (w.router.streams sid).inUse = true
  targets : (w.router.streams sid).targets = j.targets
  nodup : j.targets.Nodup
  members : ∀ i t, j.targets[i]? = some t → w.Knows sid i t ∨ ∃ k ∈ w.router.io.tickets g, k.peer = t

/-- What a world whose events are orderly keeps. -/
structure Inv (C : Config) (N : ℕ → Bool) (w : StreamWorld) : Prop where
  /-- The router is one of a run whose joins are told apart. -/
  run : ∃ es, w.router = BodyRouter.runOf C N es
  /-- Every message names its stream's session. -/
  named : ∀ i p, w.log[i]? = some p → w.Named i p
  asked : ∀ x ∈ w.sessions, x.asked ≤ w.log.length
  logged : w.log.map Prod.snd = w.router.io.sent
  of_lt : ∀ g j, w.router.io.join? g = some j → j.slot ≠ none → w.of g < w.opens
  owner_lt : ∀ sid, (w.router.streams sid).inUse = true → w.owner sid < w.opens
  ops : ∀ g j, w.router.io.join? g = some j → j.kind.streamed = true → j.kind ≠ .streamOpen → j.op ≠ .wopen
  opening : ∀ g j, w.router.io.join? g = some j → j.kind = .streamOpen → ∃ sid, w.Opening g j sid
  /-- A stream that something was asked about is open. -/
  later : ∀ g j sid, w.router.io.join? g = some j → j.kind ≠ .streamOpen → j.slot = some sid →
    w.owner sid = w.of g → w.Known sid
  /-- A stream that has a slot is open, or is being opened. -/
  slots : ∀ sid, (w.router.streams sid).inUse = true → w.Known sid ∨
    ∃ g j, w.router.io.join? g = some j ∧ j.kind = .streamOpen ∧ j.stream = some sid

section Steps

variable {C : Config} {N : ℕ → Bool} {w : StreamWorld} {x : EcEvent × ℕ} {z o : Option ℕ}
  {sid g : ℕ} {j : Join} {k : Ticket UInt8} {io : Io} {resp : BodyResp}

theorem Inv.wf (h : Inv C N w) : w.router.Wf := by
  obtain ⟨es, hes⟩ := h.run
  exact hes ▸ wf_runOf es

theorem Inv.waiting (h : Inv C N w) : Waiting none w.router := by
  obtain ⟨es, hes⟩ := h.run
  exact hes ▸ (account es).2

theorem Inv.router_step (h : Inv C N w) (hown : x.1.own w.router.io = true) :
    (w.step C N x).router = BodyRouter.step C N w.router x.1 :=
  tableStep_eq h.wf.sound hown

theorem Inv.run_step (h : Inv C N w) (hown : x.1.own w.router.io = true) :
    ∃ es, (w.step C N x).router = BodyRouter.runOf C N es := by
  obtain ⟨es, hes⟩ := h.run
  exact ⟨es ++ [x.1], by rw [h.router_step hown, runOf_snoc, hes]⟩

theorem Inv.logged_step (h : Inv C N w) (hown : x.1.own w.router.io = true) :
    (w.step C N x).log.map Prod.snd = (w.step C N x).router.io.sent := by
  obtain ⟨new, hnew⟩ := (does_step (C := C) (N := N) h.wf x.1).io.sent
  have hsent : (w.step C N x).router.io.sent = w.router.io.sent ++ new := by
    rw [h.router_step hown, hnew]
  have hlog : (w.step C N x).log = w.log ++ ((w.step C N x).router.io.sent.drop
      w.router.io.sent.length).map fun q => (w.subject C x, q) := rfl
  rw [hlog, hsent, List.drop_left, List.map_append, h.logged, List.map_map]
  exact congrArg _ (List.map_id new)

/-- A session told leaves who held the sessions the messages name. -/
theorem Named.step {i : ℕ} {p : Option ℕ × Question UInt8 BodyReq} (h : w.Named i p)
    (hnew : ∀ y ∈ w.tells x.1, p.2.peer = y.member → session p.2.req = some y.wid → i < y.asked) :
    (w.step C N x).Named i p := by
  intro wid hw
  obtain ⟨n, hn, y, hmem, hstream, hmember, hwid, hle, hlast⟩ := h wid hw
  refine ⟨n, hn, y, List.mem_append_left _ hmem, hstream, hmember, hwid, hle, fun z hz hzt hzw hzi => ?_⟩
  rcases List.mem_append.mp hz with hz | hz
  · exact hlast z hz hzt hzw hzi
  · exact absurd hzi (Nat.not_le.mpr (hnew z hz hzt.symm (hzw ▸ hw)))

theorem Inv.named_step (h : Inv C N w)
    (htold : ∀ y ∈ w.tells x.1, ∀ i p, w.log[i]? = some p → p.2.peer = y.member →
      session p.2.req = some y.wid → i < y.asked)
    (hnew : ∀ q ∈ (w.step C N x).router.io.sent.drop w.router.io.sent.length, ∀ i, w.log.length ≤ i →
      (w.step C N x).Named i (w.subject C x, q)) :
    ∀ i p, (w.step C N x).log[i]? = some p → (w.step C N x).Named i p := by
  intro i p hp
  change (w.log ++ _)[i]? = some p at hp
  rcases Nat.lt_or_ge i w.log.length with hlt | hge
  · rw [List.getElem?_append_left hlt] at hp
    exact (h.named i p hp).step fun y hy => htold y hy i p hp
  · rw [List.getElem?_append_right hge] at hp
    obtain ⟨q, hq, rfl⟩ := List.mem_map.mp (List.mem_of_getElem? hp)
    exact hnew q hq i hge

theorem length_log_le : w.log.length ≤ (w.step C N x).log.length := by
  change w.log.length ≤ (w.log ++ _).length
  rw [List.length_append]
  exact Nat.le_add_right _ _

theorem Inv.asked_step (h : Inv C N w) : ∀ y ∈ (w.step C N x).sessions, y.asked ≤ (w.step C N x).log.length := by
  intro y hy
  refine Nat.le_trans ?_ length_log_le
  rcases List.mem_append.mp hy with hy | hy
  · exact h.asked y hy
  unfold tells at hy
  split at hy
  · split at hy
    · rw [List.mem_singleton.mp hy]
      exact List.findIdx_le_length
    · cases hy
  · cases hy

/-- A session that is known stays known. -/
theorem Knows.mono {w' : StreamWorld} {sid' i : ℕ} {t : UInt8} (h : w.Knows sid i t)
    (hsub : w.sessions ⊆ w'.sessions) (howner : w'.owner sid' = w.owner sid)
    (hwids : (w'.router.streams sid').wids i = (w.router.streams sid).wids i) : w'.Knows sid' i t := by
  obtain ⟨x, hx, hstream, hmember, hwid⟩ := h
  exact ⟨x, hsub hx, hstream.trans howner.symm, hmember, hwid.trans hwids.symm⟩

theorem sessions_step : w.sessions ⊆ (w.step C N x).sessions := List.subset_append_left _ _

theorem Holds.of_eq {w' : StreamWorld} {n i : ℕ} {t wid : UInt8} (h : w.Holds n t wid i)
    (heq : w'.sessions = w.sessions) : w'.Holds n t wid i := by
  rw [Holds, heq]
  exact h

/-- What no member gave another stream is a stream's where it is named next. -/
theorem Knows.holds_later {i p : ℕ} {t : UInt8} (hk : w.Knows sid p t) (h : Inv C N w)
    (hlasts : w.lasts (w.owner sid) = true) (hi : w.log.length ≤ i) :
    w.Holds (w.owner sid) t ((w.router.streams sid).wids p) i := by
  obtain ⟨x, hx, hstream, hmember, hwid⟩ := hk
  refine ⟨x, hx, hstream, hmember, hwid, Nat.le_trans (h.asked x hx) hi, fun y hy hyt hyw _ => ?_⟩
  simp only [lasts, List.all_eq_true, Bool.or_eq_true, decide_eq_true_eq, Bool.not_eq_true',
    Bool.and_eq_false_iff, decide_eq_false_iff_not] at hlasts
  rcases hlasts x hx with hne | hall
  · exact absurd hstream hne
  rcases hall y hy with (hne | hne) | hle
  · exact absurd (hyt.trans hmember.symm) hne
  · exact absurd (hyw.trans hwid.symm) hne
  · exact hle

theorem of_step_old (hg : g < w.router.io.nextGen) : (w.step C N x).of g = w.of g := if_pos hg

theorem of_step_new (hg : w.router.io.nextGen ≤ g) : (w.step C N x).of g = (w.subject C x).getD 0 :=
  if_neg (Nat.not_lt.mpr hg)

theorem opens_le_step : w.opens ≤ (w.step C N x).opens := by
  change w.opens ≤ if opensOne x.1 then w.opens + 1 else w.opens
  split
  · exact Nat.le_succ _
  · exact Nat.le_refl _

/-- A stream that was open is open. -/
theorem Known.stirs (hk : w.Known sid) (h : Stirs z o w.router (w.step C N x).router)
    (howner : (w.step C N x).owner sid = w.owner sid) : (w.step C N x).Known sid where
  knows := fun i t ht => by
    obtain ⟨htargets, hwids, -⟩ := h.keeps sid
    rw [htargets] at ht
    exact (hk.knows i t ht).mono sessions_step howner (congrFun hwids i)
  opened := fun g j hj hkind hstream => by
    rcases Nat.lt_or_ge g w.router.io.nextGen with hlt | hge
    · obtain ⟨j₀, hj₀, hface⟩ := h.io.like g hlt j hj
      exact hk.opened g j₀ hj₀ ((congrArg Face.kind hface).symm.trans hkind)
        ((congrArg Face.stream hface).symm.trans hstream)
    · exact h.no_open hge hj hkind

/-- **What stirs a slot with the stream it is about keeps the streams apart.** -/
theorem Inv.stirs (h : Inv C N w) (hown : x.1.own w.router.io = true)
    (hst : Stirs z o w.router (w.step C N x).router) (howner : w.takes C x.1 = w.owner)
    (htells : w.tells x.1 = [])
    (hz : ∀ sid, z = some sid → w.subject C x = some (w.owner sid) ∧ w.owner sid < w.opens ∧ w.Known sid)
    (hlasts : ∀ sid, z = some sid → w.lasts (w.owner sid) = true ∨
      (w.step C N x).router.io.sent = w.router.io.sent)
    (ho : ∀ g j, o = some g → w.router.io.join? g = some j → j.kind ≠ .streamOpen) :
    Inv C N (w.step C N x) := by
  have hsessions : (w.step C N x).sessions = w.sessions := by
    change w.sessions ++ w.tells x.1 = w.sessions
    rw [htells, List.append_nil]
  have howned : ∀ sid, (w.step C N x).owner sid = w.owner sid := fun sid => congrFun howner sid
  have hknown : ∀ sid, w.Known sid → (w.step C N x).Known sid := fun sid hk => hk.stirs hst (howned sid)
  refine ⟨h.run_step hown, h.named_step (by simp [htells]) fun q hq i hi wid hw => ?_, h.asked_step,
    h.logged_step hown, fun g j hj hslot => ?_, fun sid hin => ?_, fun g j hj hs hk => ?_,
    fun g j hj hk => ?_, fun g j sid hj hk hsid hof => ?_, fun sid hin => ?_⟩
  · obtain ⟨sid, hsid, p, ht, rfl⟩ := hst.sends.of_mem_drop hq wid hw
    obtain ⟨hsubject, -, hk⟩ := hz sid hsid
    rcases hlasts sid hsid with hlasts | hnone
    · exact ⟨_, hsubject, ((hk.knows p _ ht).holds_later h hlasts hi).of_eq hsessions⟩
    rw [hnone, List.drop_length] at hq
    cases hq
  · rcases Nat.lt_or_ge g w.router.io.nextGen with hlt | hge
    · obtain ⟨j₀, hj₀, hface⟩ := hst.io.like g hlt j hj
      rw [slot_of_face hface] at hslot
      rw [of_step_old hlt]
      exact Nat.lt_of_lt_of_le (h.of_lt g j₀ hj₀ hslot) opens_le_step
    · obtain ⟨sid, hsid⟩ := Option.ne_none_iff_exists'.mp hslot
      obtain ⟨hsubject, hlt, -⟩ := hz sid (hst.slot_eq hge hj hsid)
      rw [of_step_new hge, hsubject, Option.getD_some]
      exact Nat.lt_of_lt_of_le hlt opens_le_step
  · rw [howned]
    exact Nat.lt_of_lt_of_le (h.owner_lt sid ((hst.keeps sid).2.2 hin)) opens_le_step
  · rcases Nat.lt_or_ge g w.router.io.nextGen with hlt | hge
    · obtain ⟨j₀, hj₀, hface⟩ := hst.io.like g hlt j hj
      have hkind : j.kind = j₀.kind := congrArg Face.kind hface
      have hop : j.op = j₀.op := congrArg Face.op hface
      rw [hkind] at hs hk
      rw [hop]
      exact h.ops g j₀ hj₀ hs hk
    · rcases hst.io.fresh g hge j hj with ⟨hno, -⟩ | ⟨-, -, -, hop⟩
      · have hno : j.kind.streamed = false := hno
        rw [hs] at hno
        cases hno
      · exact hop
  · rcases Nat.lt_or_ge g w.router.io.nextGen with hlt | hge
    · obtain ⟨j₀, hj₀, hface⟩ := hst.io.like g hlt j hj
      have hk₀ : j₀.kind = .streamOpen := (congrArg Face.kind hface).symm.trans hk
      have hsame := hst.io.keeps g hlt fun he => ho g j₀ he.symm hj₀ hk₀
      obtain rfl : j = j₀ := Option.some.inj ((hj.symm.trans hsame.1).trans hj₀)
      obtain ⟨sid, hop⟩ := h.opening g j hj₀ hk
      have hne : some sid ≠ z := fun he => (hz sid he.symm).2.2.opened g j hj₀ hk hop.stream
      have hstream := hst.others sid hne
      refine ⟨sid, hop.stream, hop.op, ?_, ?_, ?_, hop.nodup, fun i t ht => ?_⟩
      · rw [howned, of_step_old hlt]
        exact hop.owner
      · rw [hstream]
        exact hop.inUse
      · rw [hstream]
        exact hop.targets
      · rw [hsame.2]
        exact (hop.members i t ht).imp_left fun hknows =>
          hknows.mono sessions_step (howned sid) (by rw [hstream])
    · exact absurd hk (hst.no_open hge hj)
  · rcases Nat.lt_or_ge g w.router.io.nextGen with hlt | hge
    · obtain ⟨j₀, hj₀, hface⟩ := hst.io.like g hlt j hj
      have hkind : j.kind = j₀.kind := congrArg Face.kind hface
      rw [howned, of_step_old hlt] at hof
      exact hknown sid (h.later g j₀ sid hj₀ (hkind ▸ hk) ((slot_of_face hface).symm.trans hsid) hof)
    · exact hknown sid (hz sid (hst.slot_eq hge hj hsid)).2.2
  · rcases h.slots sid ((hst.keeps sid).2.2 hin) with hk | ⟨g, j, hj, hk, hstream⟩
    · exact .inl (hknown sid hk)
    have hlt := Fanout.join?_lt h.wf.sound hj
    have hsame := hst.io.keeps g hlt fun he => ho g j he.symm hj hk
    exact .inr ⟨g, j, hsame.1.trans hj, hk, hstream⟩

/-! ## An open is answered -/

/-- What a member's session does to the router: it is noted in the slot, and the
join counts it. -/
structure Hears (sid : ℕ) (j : Join) (wid : UInt8) (k : Ticket UInt8) (s s' : State) : Prop where
  io : Around Join.face (fun _ => False) (some k.join) s.io s'.io
  sent : s'.io.sent = s.io.sent
  streams : s'.streams = Function.update s.streams sid ((s.streams sid).opened k.peer j.targets (some wid))
  tickets : s'.io.tickets k.join = (s.io.tickets k.join).filter fun k' => k'.cid ≠ k.cid
  last : s'.io.join? k.join = none → j.ack + 1 = j.need

theorem hears_step {s : State} {e : EcEvent} {wid : UInt8} (hs : s.io.Sound)
    (hk : e.spends s.io = some (k, io, .wopen (some wid))) (hj : s.io.join? k.join = some j)
    (hkind : j.kind = .streamOpen) (hop : j.op = .wopen) (hsid : j.stream = some sid) :
    Hears sid j wid k s (BodyRouter.step C N s e) := by
  obtain ⟨q, hstep⟩ := step_of_spends (C := C) (N := N) hk
  have hspends := spends_spec hk
  have hj' : io.join? k.join = some j := (hspends.join? _).trans hj
  have hnote : j.noteStream (.wopen (some wid)) = { j with ack := j.ack + 1 } := by
    rw [Join.noteStream, hkind]
    rfl
  have haround : Around Join.face (fun _ => False) (some k.join) s.io io := hspends.around hs
  have hsent : io.sent = s.io.sent := by rw [hspends.eq]
  have hanswer : BodyRouter.step C N s e = answerStream C N { s with io := io, quiet := q } k.join j sid k.peer
      (.wopen (some wid)) := by
    rw [hstep, answerJoin]
    dsimp only
    rw [hj']
    exact applyJoinResponse_streamed (by rw [hkind]; rfl) hsid k.peer
  rw [hanswer, answerStream, if_pos (by rw [hop]; rfl), hnote, noteSession]
  dsimp only
  split
  · next hall =>
    rw [finishStream, hkind]
    refine ⟨haround.trans (Fanout.around_close haround.sound k.join), hsent, rfl, hspends.tickets,
      fun _ => hall⟩
  have hset : Around Join.face (fun _ => False) (some k.join) io
      (io.modify k.join fun _ => { j with ack := j.ack + 1 }) :=
    Fanout.around_modify haround.sound k.join fun j₀ hj₀ => by
      rw [← Option.some.inj (hj'.symm.trans hj₀)]
      rfl
  refine ⟨haround.trans hset, hsent, rfl, hspends.tickets, fun hnone => ?_⟩
  have hnone : (io.modify k.join fun _ => { j with ack := j.ack + 1 }).join? k.join = none := hnone
  rw [Fanout.join?_modify, hj'] at hnone
  cases hnone

/-- What a slot has for a place, after a member's session was noted. -/
theorem wids_opened {st : Stream} {t t' : UInt8} {targets : List UInt8} {wid : UInt8} {i : ℕ}
    (hnodup : targets.Nodup) (ht : targets[i]? = some t') :
    (st.opened t targets (some wid)).wids i = if t' = t then wid else st.wids i := by
  unfold Stream.opened
  cases hfind : targets.findIdx? fun t' => t' = t with
  | none =>
    have hne : t' ≠ t := by
      have hmem := List.mem_of_getElem? ht
      simpa using List.findIdx?_eq_none_iff.mp hfind t' hmem
    rw [if_neg hne]
  | some p =>
    obtain ⟨hp, heq, -⟩ := List.findIdx?_eq_some_iff_getElem.mp hfind
    simp only [decide_eq_true_eq] at heq
    have hat : targets[p]? = some t := by rw [List.getElem?_eq_getElem hp, heq]
    by_cases hpi : p = i
    · subst hpi
      have htt : t' = t := Option.some.inj (ht.symm.trans hat)
      rw [if_pos htt]
      exact Function.update_self p _ _
    have hne : t' ≠ t := by
      rintro rfl
      exact hpi ((List.getElem?_inj hp hnodup).mp (hat.trans ht.symm))
    rw [if_neg hne]
    exact Function.update_of_ne (Ne.symm hpi) _ _

theorem takes_of_spends (hk : x.1.spends w.router.io = some (k, io, resp)) : w.takes C x.1 = w.owner := by
  unfold takes
  split
  · next heq =>
    rw [heq] at hk
    cases hk
  · rfl

theorem opened_same (st : Stream) (t : UInt8) (targets : List UInt8) (wid : Option UInt8) :
    (st.opened t targets wid).inUse = st.inUse ∧ (st.opened t targets wid).targets = st.targets := by
  unfold Stream.opened
  split <;> exact ⟨rfl, rfl⟩

theorem Hears.other {s s' : State} {wid : UInt8} (h : Hears sid j wid k s s') {i : ℕ} (hi : i ≠ sid) :
    s'.streams i = s.streams i := by
  rw [h.streams, Function.update_of_ne hi]

theorem Hears.same {s s' : State} {wid : UInt8} (h : Hears sid j wid k s s') (i : ℕ) :
    (s'.streams i).inUse = (s.streams i).inUse ∧ (s'.streams i).targets = (s.streams i).targets := by
  by_cases hi : i = sid
  · subst hi
    rw [h.streams, Function.update_self]
    exact opened_same _ _ _ _
  · rw [h.other hi]
    exact ⟨rfl, rfl⟩

theorem Hears.like {s s' : State} {wid : UInt8} (h : Hears sid j wid k s s') {j' : Join}
    (hj' : s'.io.join? g = some j') :
    g < s.io.nextGen ∧ ∃ j₀, s.io.join? g = some j₀ ∧ j'.face = j₀.face := by
  rcases Nat.lt_or_ge g s.io.nextGen with hlt | hge
  · exact ⟨hlt, h.io.like g hlt j' hj'⟩
  · exact (h.io.fresh g hge j' hj').elim

/-- What was known is known, and so is the session told. -/
theorem Hears.knows {wid : UInt8} (hears : Hears sid j wid k w.router (w.step C N x).router)
    (hop : w.Opening k.join j sid) (howner : w.takes C x.1 = w.owner)
    {a : ℕ} (htells : w.tells x.1 = [⟨w.of k.join, k.peer, wid, a⟩]) {i : ℕ} {t : UInt8}
    (ht : j.targets[i]? = some t) (hknow : w.Knows sid i t ∨ t = k.peer) :
    (w.step C N x).Knows sid i t := by
  have hsessions : (w.step C N x).sessions = w.sessions ++ [⟨w.of k.join, k.peer, wid, a⟩] :=
    congrArg (w.sessions ++ ·) htells
  have howned : (w.step C N x).owner sid = w.owner sid := congrFun howner sid
  have hwids : ((w.step C N x).router.streams sid).wids i
      = if t = k.peer then wid else (w.router.streams sid).wids i := by
    rw [hears.streams, Function.update_self]
    exact wids_opened hop.nodup ht
  by_cases heq : t = k.peer
  · refine ⟨⟨w.of k.join, k.peer, wid, a⟩, ?_, ?_, heq.symm, ?_⟩
    · rw [hsessions]
      exact List.mem_append_right _ (List.mem_singleton_self _)
    · rw [howned, hop.owner]
    · rw [hwids, if_pos heq]
  · exact (hknow.resolve_right heq).mono sessions_step howned (by rw [hwids, if_neg heq])

/-- A stream of another slot that was open is open. -/
theorem Hears.known {wid : UInt8} (hears : Hears sid j wid k w.router (w.step C N x).router)
    (howner : w.takes C x.1 = w.owner) {i : ℕ} (hi : i ≠ sid) (hk : w.Known i) :
    (w.step C N x).Known i where
  knows := fun p t ht => by
    rw [hears.other hi] at ht
    exact (hk.knows p t ht).mono sessions_step (congrFun howner i) (by rw [hears.other hi])
  opened := fun g j' hj' hkind hstream => by
    obtain ⟨-, j₀, hj₀, hface⟩ := hears.like hj'
    exact hk.opened g j₀ hj₀ ((congrArg Face.kind hface).symm.trans hkind)
      ((congrArg Face.stream hface).symm.trans hstream)

/-- A join that awaits one answer more awaits it by the ticket spent. -/
theorem eq_of_last {s : State} (hs : s.io.Sound) (hw : Waits s.io k.join j) (hk : Spends k s.io io)
    (hst : j.kind.streamed = true) (hlast : j.ack + 1 = j.need) {k' : Ticket UInt8}
    (hk' : k' ∈ s.io.tickets k.join) : k' = k := by
  have hlen := hk.length_tickets hs
  have hcount := hw.count
  have hfail := (hw.stream hst).1
  have hnil : io.tickets k.join = [] := List.eq_nil_of_length_eq_zero (by omega)
  rw [hk.tickets, List.filter_eq_nil_iff] at hnil
  have hcid := hnil k' hk'
  simp only [ne_eq, decide_eq_true_eq, not_not] at hcid
  exact hk.eq_of_cid hs (Fanout.mem_tickets.mp hk').1 hcid

/-- **A session that is told keeps the streams apart.** -/
theorem Inv.hears {wid : UInt8} (h : Inv C N w) (hown : x.1.own w.router.io = true)
    (hk : x.1.spends w.router.io = some (k, io, .wopen (some wid)))
    (hj : w.router.io.join? k.join = some j) (hkind : j.kind = .streamOpen)
    (hfresh : w.tellsSession k (.wopen (some wid)) = true) : Inv C N (w.step C N x) := by
  obtain ⟨sid, hop⟩ := h.opening k.join j hj hkind
  have hs := h.wf.sound
  have hears : Hears sid j wid k w.router (w.step C N x).router := by
    rw [h.router_step hown]
    exact hears_step hs hk hj hkind hop.op hop.stream
  have howner : w.takes C x.1 = w.owner := takes_of_spends hk
  have howned : ∀ i, (w.step C N x).owner i = w.owner i := fun i => congrFun howner i
  have htells : w.tells x.1 = [⟨w.of k.join, k.peer, wid,
      w.log.findIdx fun p => decide (p.2.cid = k.cid)⟩] := by
    rw [tells, hk]
    dsimp only
    rw [hj, Option.any_some, hkind, decide_eq_true rfl, if_pos rfl]
  -- the slot's stream is not open yet
  have hne : ∀ i, w.Known i → i ≠ sid := fun i hi he => hi.opened k.join j hj hkind (he ▸ hop.stream)
  refine ⟨h.run_step hown, h.named_step (fun y hy i p hp hpeer hses => ?_) fun q hq => ?_, h.asked_step,
    h.logged_step hown, fun g j' hj' hslot => ?_, fun i hin => ?_, fun g j' hj' hst hk' => ?_,
    fun g j' hj' hk' => ?_, fun g j' i hj' hk' hi hof => ?_, fun i hin => ?_⟩
  · -- no message behind the open names the session
    rw [htells, List.mem_singleton] at hy
    subst hy
    by_contra hge
    have hmem : p ∈ w.log.drop (w.log.findIdx fun p => decide (p.2.cid = k.cid)) := by
      refine List.mem_of_getElem? (i := i - w.log.findIdx fun p => decide (p.2.cid = k.cid)) ?_
      rw [List.getElem?_drop, Nat.add_sub_cancel' (Nat.not_lt.mp hge)]
      exact hp
    have hno := List.all_eq_true.mp hfresh p hmem
    simp [hpeer, hses] at hno
  · rw [hears.sent, List.drop_length] at hq
    cases hq
  · obtain ⟨hlt, j₀, hj₀, hface⟩ := hears.like hj'
    rw [slot_of_face hface] at hslot
    rw [of_step_old hlt]
    exact Nat.lt_of_lt_of_le (h.of_lt g j₀ hj₀ hslot) opens_le_step
  · rw [(hears.same i).1] at hin
    rw [howned]
    exact Nat.lt_of_lt_of_le (h.owner_lt i hin) opens_le_step
  · obtain ⟨-, j₀, hj₀, hface⟩ := hears.like hj'
    have hkf : j'.kind = j₀.kind := congrArg Face.kind hface
    have hopf : j'.op = j₀.op := congrArg Face.op hface
    rw [hkf] at hst hk'
    rw [hopf]
    exact h.ops g j₀ hj₀ hst hk'
  · obtain ⟨hlt, j₀, hj₀, hface⟩ := hears.like hj'
    obtain ⟨i, hop₀⟩ := h.opening g j₀ hj₀ ((congrArg Face.kind hface).symm.trans hk')
    have htargets : j'.targets = j₀.targets := congrArg Face.targets hface
    refine ⟨i, (congrArg Face.stream hface).trans hop₀.stream, (congrArg Face.op hface).trans hop₀.op, ?_, ?_,
      ?_, ?_, fun p t ht => ?_⟩
    · rw [howned, of_step_old hlt]
      exact hop₀.owner
    · rw [(hears.same i).1]
      exact hop₀.inUse
    · rw [(hears.same i).2, htargets]
      exact hop₀.targets
    · rw [htargets]
      exact hop₀.nodup
    · rw [htargets] at ht
      have hmember := hop₀.members p t ht
      by_cases hg : g = k.join
      · -- the join that is answered: a member awaits its answer still, or it is this one
        subst hg
        obtain rfl : j = j₀ := Option.some.inj (hj.symm.trans hj₀)
        obtain rfl : sid = i := Option.some.inj (hop.stream.symm.trans hop₀.stream)
        rcases hmember with hknows | ⟨k', hk', hpeer⟩
        · exact .inl (hears.knows hop howner htells ht (.inl hknows))
        by_cases hcid : k'.cid = k.cid
        · have hsame := (spends_spec hk).eq_of_cid hs (Fanout.mem_tickets.mp hk').1 hcid
          exact .inl (hears.knows hop howner htells ht (.inr (hsame ▸ hpeer.symm)))
        · refine .inr ⟨k', ?_, hpeer⟩
          rw [hears.tickets]
          simp [hk', hcid]
      · rw [(hears.io.keeps g hlt fun he => hg (Option.some.inj he)).2]
        refine hmember.imp_left fun hknows => ?_
        by_cases hi : i = sid
        · subst hi
          rw [← hop₀.targets, hop.targets] at ht
          exact hears.knows hop howner htells ht (.inl hknows)
        · exact hknows.mono sessions_step (howned i) (by rw [hears.other hi])
  · obtain ⟨hlt, j₀, hj₀, hface⟩ := hears.like hj'
    have hkf : j'.kind = j₀.kind := congrArg Face.kind hface
    rw [howned, of_step_old hlt] at hof
    have hk₀ := h.later g j₀ i hj₀ (hkf ▸ hk') ((slot_of_face hface).symm.trans hi) hof
    exact hears.known howner (hne i hk₀) hk₀
  · rw [(hears.same i).1] at hin
    by_cases hi : i = sid
    · subst hi
      by_cases hmore : ∃ g j', (w.step C N x).router.io.join? g = some j' ∧ j'.kind = .streamOpen ∧
          j'.stream = some i
      · exact .inr hmore
      · -- the last member answered: every session is known
        have hnone : (w.step C N x).router.io.join? k.join = none := by
          cases hj' : (w.step C N x).router.io.join? k.join with
          | none => rfl
          | some j' =>
            obtain ⟨-, j₀, hj₀, hface⟩ := hears.like hj'
            obtain rfl : j = j₀ := Option.some.inj (hj.symm.trans hj₀)
            exact absurd ⟨k.join, j', hj', (congrArg Face.kind hface).trans hkind,
              (congrArg Face.stream hface).trans hop.stream⟩ hmore
        have hlast := hears.last hnone
        refine .inl ⟨fun p t ht => ?_, fun g j' hj' hk' hstream => hmore ⟨g, j', hj', hk', hstream⟩⟩
        rw [(hears.same i).2, hop.targets] at ht
        refine hears.knows hop howner htells ht ((hop.members p t ht).imp_right ?_)
        rintro ⟨k', hk', hpeer⟩
        have heq := eq_of_last hs (h.waiting k.join j hj nofun) (spends_spec hk) (by rw [hkind]; rfl) hlast hk'
        exact heq ▸ hpeer.symm
    · rcases h.slots i hin with hk₀ | ⟨g, j', hj', hk', hstream⟩
      · exact .inl (hears.known howner hi hk₀)
      have hg : g ≠ k.join := by
        rintro rfl
        obtain rfl : j = j' := Option.some.inj (hj.symm.trans hj')
        exact hi (Option.some.inj (hstream.symm.trans hop.stream))
      have hsame := hears.io.keeps g (Fanout.join?_lt hs hj') fun he => hg (Option.some.inj he)
      exact .inr ⟨g, j', hsame.1.trans hj', hk', hstream⟩

/-! ## A stream is opened -/

/-- What an open does that every member takes: it takes a free slot, where there is
one, and asks. -/
structure TakesSlot (sid : ℕ) (s s' : State) : Prop where
  io : Around Join.face (fun x => x.kind = .streamOpen ∧ x.stream = some sid) none s.io s'.io
  free : (s.streams sid).inUse = false
  others : ∀ i, i ≠ sid → s'.streams i = s.streams i
  sends : Sends (fun q => session q.req = none) s.io s'.io
  taken : (s'.streams sid).inUse = true → ∃ g j, s.io.nextGen ≤ g ∧ s'.io.join? g = some j
  asked : ∀ g j, s.io.nextGen ≤ g → s'.io.join? g = some j → j.op = .wopen ∧
    (s'.streams sid).inUse = true ∧ (s'.streams sid).targets = j.targets ∧ j.targets.Nodup ∧
    ∀ t ∈ j.targets, ∃ k ∈ s'.io.tickets g, k.peer = t

/-- The slot may be taken and freed again, with nothing asked. -/
theorem TakesSlot.of_io {s s' : State} (hs : s.io.Sound) (hfree : (s.streams sid).inUse = false)
    (hio : s'.io = s.io) (hothers : ∀ i, i ≠ sid → s'.streams i = s.streams i)
    (hno : (s'.streams sid).inUse = false) : TakesSlot sid s s' := by
  refine ⟨by rw [hio]; exact .refl hs, hfree, hothers, .of_eq (congrArg Fanout.sent hio), fun hin => ?_,
    fun g j hge hj => ?_⟩
  · rw [hno] at hin
    cases hin
  · rw [hio] at hj
    exact absurd (Fanout.join?_lt hs hj) (Nat.not_lt.mpr hge)

theorem free_of_freeSlot {s : State} (h : freeSlot C s = some sid) : (s.streams sid).inUse = false := by
  simpa using List.find?_some h

/-- **An open that every member takes** takes the first free slot. -/
theorem takesSlot_open {s : State} (hs : s.io.Sound) (hslot : freeSlot C s = some sid) (name : Digest)
    (total : UInt64)
    (htaken : C.joinCap ≤ s.io.joins.length ∨ taken C N s name = true) :
    TakesSlot sid s (handleStreamOpen C N s name total) := by
  have hfree := free_of_freeSlot hslot
  have hother : ∀ (st : Stream) (i : ℕ), i ≠ sid → Function.update s.streams sid st i = s.streams i :=
    fun st i hi => Function.update_of_ne hi _ _
  unfold handleStreamOpen
  dsimp only
  rw [hslot]
  split
  · exact .of_io hs hfree rfl (fun _ _ => rfl) hfree
  dsimp only
  split
  · refine .of_io hs hfree rfl (fun i hi => ?_) ?_
    · exact (Function.update_of_ne hi _ _).trans (hother _ i hi)
    · simp [State.emit, State.freeStream, State.setStream]
  next g io hstart =>
  have hstart : s.io.start C.joinCap _ = some (g, io) := hstart
  have hroom : ¬ C.joinCap ≤ s.io.joins.length := by
    unfold Fanout.start at hstart
    split at hstart
    · next hlt => exact Nat.not_le.mpr hlt
    · cases hstart
  have htaken := htaken.resolve_left hroom
  simp only [taken, Bool.and_eq_true, decide_eq_true_eq, List.all_eq_true, List.mem_range] at htaken
  have ho := Fanout.opens_start hs hstart
  have hsame : io.awaited = s.io.awaited ∧ io.tries = s.io.tries := by
    obtain ⟨-, rfl⟩ := Fanout.start_eq_some hstart
    exact ⟨rfl, rfl⟩
  obtain ⟨new, hasks, hlen⟩ := Fanout.askAll_spec C.pendingCap N g
    ((rankTargets C s.fleet name).map fun t => (t, .wopen name total)) io
  have hrefused : (Fanout.askAll C.pendingCap N g
      ((rankTargets C s.fleet name).map fun t => (t, .wopen name total)) io).2 = 0 := by
    refine (Fanout.askAll_taken C.pendingCap N g _ ?_ ?_).1
    · rw [hsame.1, List.length_map]
      exact htaken.1
    · rw [hsame.2, List.length_map]
      exact htaken.2
  have hopen := (ho.asks hasks).modify fun j => { j with fail := j.fail + 0 }
  have hsends : Sends (fun q => session q.req = none) s.io (Fanout.askAll C.pendingCap N g
      ((rankTargets C s.fleet name).map fun t => (t, .wopen name total)) io).1 := by
    refine (Fanout.sends_start hstart).trans (Fanout.sends_askAll _ _ _ _ fun p hp cid => ?_)
    obtain ⟨t, -, rfl⟩ := List.mem_map.mp hp
    rfl
  have hpeers : new.map Ticket.peer = rankTargets C s.fleet name := by
    have hsub := hasks.peers
    rw [List.map_map, show Prod.fst ∘ (fun t => (t, BodyReq.wopen name total)) = id from rfl,
      List.map_id] at hsub
    refine hsub.eq_of_length ?_
    rw [hrefused, Nat.add_zero, List.length_map] at hlen
    rw [List.length_map]
    exact hlen
  have hio : (askTargets C N
      { s.setStream sid fun _ => { inUse := true, targets := rankTargets C s.fleet name } with io := io } g
      ((rankTargets C s.fleet name).map fun t => (t, .wopen name total))).io
      = (Fanout.askAll C.pendingCap N g
        ((rankTargets C s.fleet name).map fun t => (t, .wopen name total)) io).1.modify g
          fun j => { j with fail := j.fail + 0 } := by
    simp only [askTargets, State.setJoin, hrefused]
  rw [if_neg (by rw [failedAny_eq ((congrArg (Fanout.join? · g) hio).trans hopen.join)]; simp)]
  refine ⟨by rw [hio]; exact hopen.around ⟨rfl, rfl⟩, hfree, hother _, by rw [hio]; exact hsends, fun _ => ?_,
    fun g' j' hge hj' => ?_⟩
  · exact ⟨g, _, Nat.le_of_eq ho.gen.symm, (congrArg (Fanout.join? · g) hio).trans hopen.join⟩
  · rw [hio] at hj' ⊢
    obtain ⟨rfl, rfl⟩ := hopen.only hge hj'
    refine ⟨rfl, ?_, ?_, nodup_rankTargets, fun t ht => ?_⟩
    · simp [askTargets, State.setStream, State.setJoin]
    · simp [askTargets, State.setStream, State.setJoin]
    · rw [hopen.tickets]
      obtain ⟨k, hk, hpeer⟩ := List.mem_map.mp (hpeers ▸ ht : t ∈ new.map Ticket.peer)
      exact ⟨k, hk, hpeer⟩

/-- A stream of another slot that was open is open. -/
theorem TakesSlot.known (h : TakesSlot sid w.router (w.step C N x).router)
    (howner : w.takes C x.1 = Function.update w.owner sid w.opens) {i : ℕ} (hi : i ≠ sid)
    (hk : w.Known i) : (w.step C N x).Known i where
  knows := fun p t ht => by
    have howned : (w.step C N x).owner i = w.owner i := by
      rw [show (w.step C N x).owner = w.takes C x.1 from rfl, howner, Function.update_of_ne hi]
    rw [h.others i hi] at ht
    exact (hk.knows p t ht).mono sessions_step howned (by rw [h.others i hi])
  opened := fun g j hj hkind hstream => by
    rcases Nat.lt_or_ge g w.router.io.nextGen with hlt | hge
    · obtain ⟨j₀, hj₀, hface⟩ := h.io.like g hlt j hj
      exact hk.opened g j₀ hj₀ ((congrArg Face.kind hface).symm.trans hkind)
        ((congrArg Face.stream hface).symm.trans hstream)
    · exact hi (Option.some.inj (hstream.symm.trans (h.io.fresh g hge j hj).2))

/-- **A stream that is opened is told apart from every other.** -/
theorem Inv.takesSlot (h : Inv C N w) (hown : x.1.own w.router.io = true)
    (htake : TakesSlot sid w.router (w.step C N x).router)
    (howner : w.takes C x.1 = Function.update w.owner sid w.opens)
    (hsubject : w.subject C x = some w.opens) (hopens : opensOne x.1 = true)
    (htells : w.tells x.1 = []) : Inv C N (w.step C N x) := by
  have howned : ∀ i, i ≠ sid → (w.step C N x).owner i = w.owner i := fun i hi => by
    rw [show (w.step C N x).owner = w.takes C x.1 from rfl, howner, Function.update_of_ne hi]
  have hself : (w.step C N x).owner sid = w.opens := by
    rw [show (w.step C N x).owner = w.takes C x.1 from rfl, howner, Function.update_self]
  have hmore : (w.step C N x).opens = w.opens + 1 := if_pos hopens
  have hlike : ∀ g j, (w.step C N x).router.io.join? g = some j → g < w.router.io.nextGen →
      w.router.io.join? g = some j ∧ (w.step C N x).router.io.tickets g = w.router.io.tickets g := by
    intro g j hj hlt
    have hsame := htake.io.keeps g hlt nofun
    exact ⟨hsame.1.symm.trans hj, hsame.2⟩
  have hin : ∀ i, (w.router.streams i).inUse = true → i ≠ sid := by
    rintro i hi rfl
    rw [htake.free] at hi
    cases hi
  refine ⟨h.run_step hown, h.named_step (by simp [htells]) fun q hq _ _ wid hw => ?_, h.asked_step,
    h.logged_step hown, fun g j hj hslot => ?_, fun i hi => ?_, fun g j hj hst hk => ?_,
    fun g j hj hk => ?_, fun g j i hj hk hi hof => ?_, fun i hi => ?_⟩
  · rw [htake.sends.of_mem_drop hq] at hw
    cases hw
  · rw [hmore]
    rcases Nat.lt_or_ge g w.router.io.nextGen with hlt | hge
    · rw [of_step_old hlt]
      exact Nat.lt_succ_of_lt (h.of_lt g j (hlike g j hj hlt).1 hslot)
    · rw [of_step_new hge, hsubject, Option.getD_some]
      exact Nat.lt_succ_self _
  · rw [hmore]
    by_cases he : i = sid
    · rw [he, hself]
      exact Nat.lt_succ_self _
    · rw [howned i he]
      rw [htake.others i he] at hi
      exact Nat.lt_succ_of_lt (h.owner_lt i hi)
  · rcases Nat.lt_or_ge g w.router.io.nextGen with hlt | hge
    · exact h.ops g j (hlike g j hj hlt).1 hst hk
    · exact absurd (htake.io.fresh g hge j hj).1 hk
  · rcases Nat.lt_or_ge g w.router.io.nextGen with hlt | hge
    · obtain ⟨hj₀, htickets⟩ := hlike g j hj hlt
      obtain ⟨i, hop⟩ := h.opening g j hj₀ hk
      have hi := hin i hop.inUse
      refine ⟨i, hop.stream, hop.op, ?_, ?_, ?_, hop.nodup, fun p t ht => ?_⟩
      · rw [howned i hi, of_step_old hlt]
        exact hop.owner
      · rw [htake.others i hi]
        exact hop.inUse
      · rw [htake.others i hi]
        exact hop.targets
      · rw [htickets]
        exact (hop.members p t ht).imp_left fun hknows =>
          hknows.mono sessions_step (howned i hi) (by rw [htake.others i hi])
    · obtain ⟨hop, huse, htargets, hnodup, hasked⟩ := htake.asked g j hge hj
      refine ⟨sid, (htake.io.fresh g hge j hj).2, hop, ?_, huse, htargets, hnodup, fun p t ht => ?_⟩
      · rw [hself, of_step_new hge, hsubject, Option.getD_some]
      · exact .inr (hasked t (List.mem_of_getElem? ht))
  · rcases Nat.lt_or_ge g w.router.io.nextGen with hlt | hge
    · have hj₀ := (hlike g j hj hlt).1
      rw [of_step_old hlt] at hof
      by_cases he : i = sid
      · -- the stream opened is newer than any a join was about
        have hold := h.of_lt g j hj₀ (by rw [hi]; exact nofun)
        rw [he, hself] at hof
        exact absurd hof.symm (Nat.ne_of_lt hold)
      · rw [howned i he] at hof
        exact htake.known howner he (h.later g j i hj₀ hk hi hof)
    · exact absurd (htake.io.fresh g hge j hj).1 hk
  · by_cases he : i = sid
    · subst he
      obtain ⟨g, j, hge, hj⟩ := htake.taken hi
      obtain ⟨hk, hstream⟩ := htake.io.fresh g hge j hj
      exact .inr ⟨g, j, hj, hk, hstream⟩
    rw [htake.others i he] at hi
    rcases h.slots i hi with hk | ⟨g, j, hj, hk, hstream⟩
    · exact .inl (htake.known howner he hk)
    have hsame := htake.io.keeps g (Fanout.join?_lt h.wf.sound hj) nofun
    exact .inr ⟨g, j, hsame.1.trans hj, hk, hstream⟩

/-! ## Events -/

/-- An event that keeps the streams apart, and changes none but its own. -/
def Keeps (C : Config) (N : ℕ → Bool) (w : StreamWorld) (x : EcEvent × ℕ) : Prop :=
  Inv C N (w.step C N x) ∧ ∀ sid, (w.router.streams sid).inUse = true →
    w.subject C x ≠ some (w.owner sid) → (w.step C N x).router.streams sid = w.router.streams sid

theorem Inv.keeps_stirs (h : Inv C N w) (hown : x.1.own w.router.io = true)
    (hst : Stirs z o w.router (w.step C N x).router) (howner : w.takes C x.1 = w.owner)
    (htells : w.tells x.1 = [])
    (hz : ∀ sid, z = some sid → w.subject C x = some (w.owner sid) ∧ w.owner sid < w.opens ∧ w.Known sid)
    (hlasts : ∀ sid, z = some sid → w.lasts (w.owner sid) = true ∨
      (w.step C N x).router.io.sent = w.router.io.sent)
    (ho : ∀ g j, o = some g → w.router.io.join? g = some j → j.kind ≠ .streamOpen) : w.Keeps C N x :=
  ⟨h.stirs hown hst howner htells hz hlasts ho,
    fun sid _ hne => hst.others sid fun he => hne (hz sid he.symm).1⟩

theorem Inv.keeps_alone (h : Inv C N w) (hown : x.1.own w.router.io = true)
    (hst : Stirs none none w.router (w.step C N x).router) (howner : w.takes C x.1 = w.owner)
    (htells : w.tells x.1 = []) : w.Keeps C N x :=
  h.keeps_stirs hown hst howner htells (fun _ hz => by cases hz) (fun _ hz => by cases hz)
    fun _ _ ho => by cases ho

/-- Only a ticket spent tells of a session. -/
theorem tells_of_spends_none (hk : x.1.spends w.router.io = none) : w.tells x.1 = [] := by
  rw [tells, hk]

theorem tells_of_not_open (hk : x.1.spends w.router.io = some (k, io, resp))
    (hno : ∀ j, w.router.io.join? k.join = some j → j.kind ≠ .streamOpen) : w.tells x.1 = [] := by
  rw [tells, hk]
  split
  · next k' _ wid heq =>
    cases heq
    refine if_neg ?_
    cases hj : w.router.io.join? k.join with
    | none => simp
    | some j => simp [hno j hj]
  · rfl

theorem own_of_orderly (h : w.orderly C N x = true) : x.1.own w.router.io = true := by
  rw [orderly, Bool.and_eq_true] at h
  exact h.1

/-- The condition on an event that spends a ticket. -/
theorem orderly_spent (hk : x.1.spends w.router.io = some (k, io, resp)) (h : w.orderly C N x = true)
    (hj : w.router.io.join? k.join = some j) :
    (if j.kind = .streamOpen then w.tellsSession k resp
      else (j.struck resp).all fun sid =>
        decide (w.owner sid = w.of k.join) && (!givesUp j resp || w.lasts (w.of k.join))) = true := by
  rw [orderly, Bool.and_eq_true] at h
  have hcond := h.2
  obtain ⟨e, n⟩ := x
  cases e <;> first
    | cases hk
    | (dsimp only at hk hcond
       rw [hk] at hcond
       dsimp only at hcond
       rwa [hj, Option.all_some] at hcond)

theorem subject_spent (hk : x.1.spends w.router.io = some (k, io, resp))
    (hj : w.router.io.join? k.join = some j) : w.subject C x = j.slot.map fun _ => w.of k.join := by
  obtain ⟨e, n⟩ := x
  cases e <;> first
    | cases hk
    | simp only [subject, about, hk, Option.map_some, Option.bind_some, hj]

theorem slot_of_struck (h : j.struck resp = some sid) : j.slot = some sid := by
  unfold Join.struck at h
  split at h
  · exact h
  · cases h

/-- An answer that gives no stream up sends nothing. -/
theorem sent_applyJoinResponse {s : State} {t : UInt8} (hslot : j.slot = some sid)
    (hkind : j.kind ≠ .streamOpen) (h : givesUp j resp = false) :
    (applyJoinResponse C N s g j t resp).io.sent = s.io.sent := by
  simp only [givesUp, Bool.and_eq_false_iff, decide_eq_false_iff_not, not_not] at h
  have hstream : j.stream = some sid := by
    unfold Join.slot at hslot
    split at hslot <;> first | exact hslot | cases hslot
  by_cases habort : j.kind = .streamAbort
  · simp only [applyJoinResponse, habort, answerAbort, hstream]
    split <;> rfl
  have hst : j.kind.streamed = true := by
    unfold Join.slot at hslot
    split at hslot <;> first | contradiction | cases hslot | (next hk => rw [hk]; rfl)
  rw [applyJoinResponse_streamed hst hstream, answerStream, if_pos (h.resolve_left habort)]
  have hnote : (noteSession s j sid t resp).io = s.io := by
    unfold noteSession
    split <;> rfl
  dsimp only
  rw [← hnote]
  split
  · unfold finishStream
    split <;> rfl
  · rfl

/-- **An answer keeps the streams apart.** -/
theorem Inv.keeps_spent (h : Inv C N w) (hok : w.orderly C N x = true)
    (hk : x.1.spends w.router.io = some (k, io, resp)) : w.Keeps C N x := by
  have hown := own_of_orderly hok
  have hs := h.wf.sound
  have hspends := spends_spec hk
  obtain ⟨q, hstep⟩ := step_of_spends (C := C) (N := N) hk
  have hstep := (h.router_step hown).trans hstep
  have hspent : ∀ z, Stirs z (some k.join) w.router { w.router with io := io, quiet := q } := fun z =>
    .of_io (hspends.around hs) rfl (.of_eq (by rw [hspends.eq]))
  rw [answerJoin] at hstep
  dsimp only at hstep
  rw [hspends.join?] at hstep
  cases hj : w.router.io.join? k.join with
  | none =>
    rw [hj] at hstep
    refine h.keeps_stirs hown (z := none) (o := some k.join) ?_ (takes_of_spends hk)
      (tells_of_not_open hk fun j hj' => ?_) (fun _ hz => by cases hz) (fun _ hz => by cases hz)
      fun g j hg hj' => ?_
    · rw [hstep]
      exact hspent none
    · rw [hj] at hj'
      cases hj'
    · obtain rfl : k.join = g := Option.some.inj hg
      rw [hj] at hj'
      cases hj'
  | some j =>
    rw [hj] at hstep
    have hcond := orderly_spent hk hok hj
    have hsubject := subject_spent (C := C) hk hj
    by_cases hkind : j.kind = .streamOpen
    · -- the open is answered with a session
      rw [if_pos hkind] at hcond
      obtain ⟨wid, rfl⟩ : ∃ wid, resp = .wopen (some wid) := by
        unfold tellsSession at hcond
        split at hcond
        · exact ⟨_, rfl⟩
        · cases hcond
      refine ⟨h.hears hown hk hj hkind hcond, fun sid hin hne => ?_⟩
      obtain ⟨sid₀, hop⟩ := h.opening k.join j hj hkind
      have hears := hears_step (C := C) (N := N) hs hk hj hkind hop.op hop.stream
      rw [h.router_step hown]
      refine hears.other ?_
      rintro rfl
      refine hne ?_
      rw [hsubject, Join.slot, hkind, hop.stream, hop.owner]
      rfl
    · rw [if_neg hkind] at hcond
      have hnone : (none : Option ℕ) ≠ some k.join := by
        intro hc
        cases hc
      have hanswer := stirs_applyJoinResponse (C := C) (N := N) (hspent none).io.sound
        ((hspends.join? _).trans hj) (fun hst => ((h.waiting k.join j hj hnone).stream hst).2) hkind
        (fun hst => h.ops k.join j hj hst hkind) k.peer resp
      refine h.keeps_stirs hown (z := j.struck resp) (o := some k.join) ?_ (takes_of_spends hk)
        (tells_of_not_open hk fun j' hj' => ?_) (fun sid hsid => ?_) (fun sid hsid => ?_)
        fun g j' hg hj' => ?_
      · rw [hstep]
        exact (hspent _).trans hanswer
      · rw [← Option.some.inj (hj.symm.trans hj')]
        exact hkind
      · rw [hsid, Option.all_some, Bool.and_eq_true, decide_eq_true_eq] at hcond
        have hslot := slot_of_struck hsid
        refine ⟨by rw [hsubject, hslot, hcond.1]; rfl, ?_, h.later k.join j sid hj hkind hslot hcond.1⟩
        rw [hcond.1]
        exact h.of_lt k.join j hj (by rw [hslot]; exact Option.some_ne_none _)
      · rw [hsid, Option.all_some, Bool.and_eq_true, decide_eq_true_eq, Bool.or_eq_true] at hcond
        rw [hcond.1]
        refine hcond.2.symm.imp_right fun hkeeps => ?_
        rw [hstep, sent_applyJoinResponse (slot_of_struck hsid) hkind (by simpa using hkeeps)]
        rw [hspends.eq]
      · obtain rfl : k.join = g := Option.some.inj hg
        obtain rfl : j = j' := Option.some.inj (hj.symm.trans hj')
        exact hkind

theorem inUse_of_aims {s : State} {req : BodyReq} (h : aims C s req = some sid) :
    (s.streams sid).inUse = true := by
  have hslot : ∀ i, slotOf C s i = some sid → (s.streams sid).inUse = true := by
    intro i hi
    unfold slotOf at hi
    split at hi
    · next hopen =>
      obtain rfl := Option.some.inj hi
      simp only [streamOpen, Bool.and_eq_true, decide_eq_true_eq] at hopen
      exact hopen.2
    · cases hi
  unfold aims at h
  split at h
  · split at h
    · cases h
    · exact hslot _ h
  · exact hslot _ h
  · exact hslot _ h
  · cases h

/-- **A request keeps the streams apart.** -/
theorem Inv.keeps_request (h : Inv C N w) {c : UInt32} {req : BodyReq} {n : ℕ}
    (hok : w.orderly C N (.request c req, n) = true) : w.Keeps C N (.request c req, n) := by
  have hown := own_of_orderly hok
  have hs : ({ w.router with upCid := c } : State).io.Sound := h.wf.sound
  have hstep := h.router_step hown
  rw [orderly, Bool.and_eq_true] at hok
  have hcond := hok.2
  by_cases hreq : ∃ name total, req = .wopen name total
  · obtain ⟨name, total, rfl⟩ := hreq
    dsimp only at hcond
    cases hslot : freeSlot C w.router with
    | none =>
      refine h.keeps_alone hown ?_ (by rw [takes, hslot]; rfl) rfl
      rw [hstep]
      have hfull : BodyRouter.step C N w.router (.request c (.wopen name total))
          = ({ w.router with upCid := c } : State).emit c (.nak errIo) := by
        have hslot : freeSlot C { w.router with upCid := c } = none := hslot
        simp only [BodyRouter.step, handleRequest, handleStreamOpen, hslot, ite_self]
      rw [hfull]
      exact .of_eq h.wf.sound rfl rfl
    | some sid =>
      rw [hslot] at hcond
      simp only [Option.isNone_some, Bool.false_or, Bool.or_eq_true, decide_eq_true_eq] at hcond
      have htake := takesSlot_open (C := C) (N := N) (s := { w.router with upCid := c }) hs hslot name total hcond
      have htake : TakesSlot sid w.router (w.step C N (.request c (.wopen name total), n)).router := by
        rw [hstep]
        exact ⟨htake.io, htake.free, htake.others, htake.sends, htake.taken, htake.asked⟩
      refine ⟨h.takesSlot hown htake (by rw [takes, hslot]; rfl) rfl rfl rfl,
        fun i hin _ => htake.others i ?_⟩
      rintro rfl
      rw [htake.free] at hin
      cases hin
  · have hreq : ∀ name total, req ≠ .wopen name total := fun name total he => hreq ⟨name, total, he⟩
    have hst := stirs_handleRequest (C := C) (N := N) hs hreq
    have hst : Stirs (aims C w.router req) none w.router (w.step C N (.request c req, n)).router := by
      rw [hstep]
      exact ⟨hst.io, hst.others, hst.keeps, hst.sends⟩
    have hsubject : w.subject C (.request c req, n) = (aims C w.router req).map fun _ => n := by
      cases req <;> first | exact absurd rfl (hreq _ _) | rfl
    have hcond : ((aims C w.router req).all fun sid =>
        decide (w.owner sid = n) && !isOpening w.router sid && w.lasts n) = true := by
      cases req <;> first | exact absurd rfl (hreq _ _) | exact hcond
    have howner : w.takes C (.request c req) = w.owner := by
      cases req <;> first | exact absurd rfl (hreq _ _) | rfl
    have haims : ∀ sid, aims C w.router req = some sid →
        w.owner sid = n ∧ isOpening w.router sid = false ∧ w.lasts n = true := by
      intro sid hsid
      rw [hsid] at hcond
      simpa [and_assoc] using hcond
    refine h.keeps_stirs hown hst howner rfl (fun sid hsid => ?_) (fun sid hsid => ?_)
      fun _ _ ho => by cases ho
    · obtain ⟨howned, hno, -⟩ := haims sid hsid
      have hin := inUse_of_aims hsid
      refine ⟨by rw [hsubject, hsid, howned]; rfl, h.owner_lt sid hin, (h.slots sid hin).resolve_right ?_⟩
      rintro ⟨g, j, hj, hk, hstream⟩
      rw [isOpening, List.any_eq_false] at hno
      exact hno _ (Fanout.mem_joins_of_join? hj) (by simp [hk, hstream])
    · obtain ⟨howned, -, hlasts⟩ := haims sid hsid
      exact .inl (howned ▸ hlasts)

/-- **An orderly event keeps the streams apart.** -/
theorem Inv.keeps (h : Inv C N w) (hok : w.orderly C N x = true) : w.Keeps C N x := by
  have hown := own_of_orderly hok
  cases hk : x.1.spends w.router.io with
  | some p => exact h.keeps_spent hok hk
  | none =>
    have hs := h.wf.sound
    have hstep := h.router_step hown
    obtain ⟨q, hq⟩ := hear_eq w.router x.1
    obtain ⟨e, n⟩ := x
    have hquiet : BodyRouter.step C N w.router e = { w.router with quiet := q } → w.takes C e = w.owner →
        w.Keeps C N (e, n) := by
      intro heq htakes
      refine h.keeps_alone hown ?_ htakes (tells_of_spends_none hk)
      rw [hstep]
      dsimp only
      rw [heq]
      exact .of_eq hs rfl rfl
    cases e with
    | request c req => exact h.keeps_request hok
    | fleet members =>
      refine h.keeps_alone hown ?_ rfl rfl
      rw [hstep]
      exact .of_eq hs rfl rfl
    | oversize c =>
      refine h.keeps_alone hown ?_ rfl rfl
      rw [hstep]
      exact stirs_emit hs _ _
    | scrub =>
      refine h.keeps_alone hown ?_ rfl rfl
      rw [hstep]
      exact stirs_scrubKick hs
    | answer t cid resp => exact hquiet (by simp only [BodyRouter.step, hq, hk]) rfl
    | oversizeAnswer t cid => exact hquiet (by simp only [BodyRouter.step, hq, hk]) rfl
    | expire cid => exact hquiet (by simp only [BodyRouter.step, hq, hk]) rfl

theorem inv_init (C : Config) (N : ℕ → Bool) : Inv C N (init C) where
  run := ⟨[], rfl⟩
  named := fun _ _ hp => by cases hp
  asked := fun _ hx => absurd hx List.not_mem_nil
  logged := rfl
  of_lt := fun _ _ hj => by cases hj
  owner_lt := fun _ hin => by cases hin
  ops := fun _ _ hj => by cases hj
  opening := fun _ _ hj => by cases hj
  later := fun _ _ _ hj => by cases hj
  slots := fun _ hin => by cases hin

end Steps

end StreamWorld

end Loam.BodyRouter

import Loam.AdminGate

/-!
# Answers reach the session that asked

What a run of the gate sends is held against what it owes: the answers one after
another, each byte to the session that asked. `Faithful` says that the bytes sent
are a front of these, so that none goes to another session, none goes out twice
and no answer is begun inside another.

Two things break that. A write that is taken in part is offered again from its
start. And the records of peer identities are read while an answer is owed: one
of them may open the next session on the connection the rest of the answer is
addressed to. Where neither happens, and no router answer is so late that the
32-bit number of its session has come round, every run is faithful
(`answers_reach_asker`).
-/

namespace Loam.AdminGate

open Slices

variable {cfg : Config} {g : Gate}

/-! ## What is due -/

/-- Does an answer to the address go out at all? -/
def reaches (cfg : Config) : Addr → Bool
  | .net _ => true
  | .link l _ => cfg.linkOut l

namespace Gate

/-- The bytes due: those of the answers, one answer after another. -/
def due (cfg : Config) (g : Gate) : List SentByte :=
  (g.answers.filter fun x => reaches cfg x.ask.addr).flatMap Answer.due

/-- The bytes due that are not sent: the rest of the answer owed. -/
def rest (cfg : Config) (g : Gate) : List SentByte :=
  match g.out with
  | none => []
  | some o => if reaches cfg o.addr then Answer.due ⟨o.request, o.ask, o.buf.drop o.sent⟩ else []

end Gate

/-- **Answers reach the session that asked.** -/
structure Faithful (cfg : Config) (g : Gate) : Prop where
  /-- What is sent is a front of what is due. -/
  inOrder : g.sent <+: g.due cfg
  /-- An answer is to a frame that was asked. -/
  asked : ∀ x ∈ g.answers, g.asked[x.request]? = some x.ask
  once : (g.answers.map Answer.request).Nodup
  /-- An answer has the correlation id of its request. -/
  ownCid : ∀ x ∈ g.answers, ∀ cid, x.ask.cid = some cid → slice x.bytes 1 4 = cid
  /-- The requests in flight are told apart by the gate's correlation id. -/
  told : (g.pending.map Pending.gateCid).Nodup
  holds : ∀ w a k, g.slot w = some (a, k) → g.holder a = some k

/-! ## The invariant -/

/-- What is so of a request in flight. -/
structure InFlight (g : Gate) (p : Pending) : Prop where
  asked : g.asked[p.request]? = some p.ask
  session : p.ask.session = some p.incarnation
  opened : p.incarnation ≤ g.opened
  /-- It keeps the client's correlation id. -/
  cid : ∀ cid, p.ask.cid = some cid → leBytes 4 p.clientCid.toNat = cid
  /-- While the session is in its slot, the slot has its address. -/
  addr : ∀ a, g.slot p.who = some (a, p.incarnation) → a = p.ask.addr

/-- What is so of the answer owed. -/
structure Owed (g : Gate) (o : Outbox) : Prop where
  addr : o.addr = o.ask.addr
  /-- That session holds the address while there is something to send. -/
  holder : o.sent < o.buf.length → g.holder o.addr = o.ask.session
  link : ∀ l session, o.addr = .link l session → o.sent = 0

/-- The numbers of the frames that are answered or in flight. -/
def Gate.requests (g : Gate) : List ℕ :=
  g.answers.map Answer.request ++ g.pending.map Pending.request

/-- The gate's invariant. -/
structure Inv (cfg : Config) (g : Gate) : Prop where
  holds : ∀ {w a k}, g.slot w = some (a, k) → g.holder a = some k ∧ k ≤ g.opened
  inFlight : ∀ p ∈ g.pending, InFlight g p
  room : g.pending.length ≤ cfg.maxPending
  told : (g.pending.map Pending.gateCid).Nodup
  answered : ∀ x ∈ g.answers, g.asked[x.request]? = some x.ask ∧
    ∀ cid, x.ask.cid = some cid → slice x.bytes 1 4 = cid
  once : g.requests.Nodup
  sent : g.sent ++ g.rest cfg = g.due cfg
  owed : ∀ o, g.out = some o → Owed g o

theorem Inv.faithful (h : Inv cfg g) : Faithful cfg g where
  inOrder := ⟨g.rest cfg, h.sent⟩
  asked x hx := (h.answered x hx).1
  once := (List.nodup_append.mp h.once).1
  ownCid x hx := (h.answered x hx).2
  told := h.told
  holds _ _ _ hw := (h.holds hw).1

/-! ## The session tables -/

theorem Inv.tables (h : Inv cfg g) {net : List NetSession} {links : List LinkSession}
    (hslot : ∀ w x, ({ g with net := net, links := links } : Gate).slot w = some x →
      g.slot w = some x) : Inv cfg { g with net := net, links := links } where
  holds hw := h.holds (hslot _ _ hw)
  inFlight p hp :=
    { h.inFlight p hp with addr := fun a ha => (h.inFlight p hp).addr a (hslot _ _ ha) }
  room := h.room
  told := h.told
  answered := h.answered
  once := h.once
  sent := h.sent
  owed o ho := ⟨(h.owed o ho).addr, (h.owed o ho).holder, (h.owed o ho).link⟩

/-- What is found in a list of which one entry was changed was there. -/
theorem bind_of_modify {α β : Type} {held : α → Option β} {f : α → α} {x : β}
    (hf : ∀ s, held (f s) = some x → held s = some x) {l : List α} {i j : ℕ}
    (h : (l.modify i f)[j]?.bind held = some x) : l[j]?.bind held = some x := by
  obtain ⟨s', hs', hheld⟩ := Option.bind_eq_some_iff.mp h
  rw [List.getElem?_modify] at hs'
  obtain ⟨s, hs, rfl⟩ := Option.map_eq_some_iff.mp hs'
  refine Option.bind_eq_some_iff.mpr ⟨s, hs, ?_⟩
  split at hheld
  · exact hf s hheld
  · exact hheld

/-- What is found in a list of which one entry was written over is the new one, or
was there. -/
theorem bind_of_set {α β : Type} {held : α → Option β} {s : α} {x : β} {l : List α} {i j : ℕ}
    (h : (l.set i s)[j]?.bind held = some x) : held s = some x ∨ l[j]?.bind held = some x := by
  obtain ⟨s', hs', hheld⟩ := Option.bind_eq_some_iff.mp h
  by_cases hij : i = j
  · subst hij
    obtain ⟨hlt, -⟩ := List.getElem?_eq_some_iff.mp hs'
    rw [List.length_set] at hlt
    rw [List.getElem?_set_self hlt] at hs'
    cases hs'
    exact .inl hheld
  rw [List.getElem?_set_ne hij] at hs'
  exact .inr (Option.bind_eq_some_iff.mpr ⟨s', hs', hheld⟩)

theorem slot_modify_net {f : NetSession → NetSession} {i : ℕ} {w : Who} {x : Addr × ℕ}
    (hf : ∀ s, (f s).held = some x → s.held = some x)
    (hw : ({ g with net := g.net.modify i f } : Gate).slot w = some x) : g.slot w = some x := by
  cases w with
  | link j => exact hw
  | net j => exact bind_of_modify hf hw

theorem slot_modify_link {f : LinkSession → LinkSession} {j : ℕ} {w : Who} {x : Addr × ℕ}
    (hf : ∀ s, (f s).held = some x → s.held = some x)
    (hw : ({ g with links := g.links.modify j f } : Gate).slot w = some x) :
    g.slot w = some x := by
  cases w with
  | net j => exact hw
  | link j => exact bind_of_modify hf hw

@[simp] theorem NetSession.held_ended (s : NetSession) : s.ended.held = none := rfl

theorem Inv.modifyNet (h : Inv cfg g) (i : ℕ) {f : NetSession → NetSession}
    (hf : ∀ s, (f s).held = s.held ∨ (f s).held = none) :
    Inv cfg { g with net := g.net.modify i f } :=
  h.tables fun _ x hw => slot_modify_net (fun s hs => by
    cases hf s with
    | inl he => exact he.symm.trans hs
    | inr he => cases he.symm.trans hs) hw

theorem Inv.modifyLink (h : Inv cfg g) (j : ℕ) {f : LinkSession → LinkSession}
    (hf : ∀ s, (f s).held = s.held ∨ (f s).held = none) :
    Inv cfg { g with links := g.links.modify j f } :=
  h.tables fun _ x hw => slot_modify_link (fun s hs => by
    cases hf s with
    | inl he => exact he.symm.trans hs
    | inr he => cases he.symm.trans hs) hw

theorem Inv.endNet (h : Inv cfg g) (i : ℕ) : Inv cfg (g.endNet i) :=
  h.modifyNet i fun _ => .inr rfl

theorem Inv.endLink (h : Inv cfg g) (j : ℕ) : Inv cfg (g.endLink j) :=
  h.modifyLink j fun _ => .inr rfl

/-- Nothing is on its way to an address. -/
def Gate.Quiet (g : Gate) (a : Addr) : Prop :=
  ∀ o ∈ g.out, o.addr = a → ¬ o.sent < o.buf.length

theorem Gate.quiet_of_none (hout : g.out = none) (a : Addr) : g.Quiet a := by
  intro o ho
  cases hout.symm.trans ho

/-- No session holds the address any more. -/
theorem Inv.clears (h : Inv cfg g) {a : Addr} (hquiet : g.Quiet a) {net : List NetSession}
    {links : List LinkSession}
    (hslot : ∀ w x, ({ g with net := net, links := links } : Gate).slot w = some x →
      g.slot w = some x ∧ x.1 ≠ a) :
    Inv cfg { g with net := net, links := links, holder := Function.update g.holder a none } where
  holds {w b k} hw := by
    obtain ⟨hold, hne⟩ := hslot w (b, k) hw
    exact ⟨(Function.update_of_ne hne _ _).trans (h.holds hold).1, (h.holds hold).2⟩
  inFlight p hp :=
    { h.inFlight p hp with addr := fun b hb => (h.inFlight p hp).addr b (hslot _ _ hb).1 }
  room := h.room
  told := h.told
  answered := h.answered
  once := h.once
  sent := h.sent
  owed o ho := by
    refine ⟨(h.owed o ho).addr, fun hlt => ?_, (h.owed o ho).link⟩
    have hne : o.addr ≠ a := fun he => hquiet o ho he hlt
    exact (Function.update_of_ne hne _ _).trans ((h.owed o ho).holder hlt)

/-- **A session is opened** at an address that no other has, and under a number that
none had. -/
theorem Inv.opens (h : Inv cfg g) {a : Addr} (hquiet : g.Quiet a) {net : List NetSession}
    {links : List LinkSession}
    (hslot : ∀ w x, ({ g with net := net, links := links } : Gate).slot w = some x →
      x = (a, g.opened + 1) ∨ (g.slot w = some x ∧ x.1 ≠ a)) :
    Inv cfg { g with
      net := net
      links := links
      opened := g.opened + 1
      holder := Function.update g.holder a (some (g.opened + 1)) } where
  holds {w b k} hw := by
    cases hslot w (b, k) hw with
    | inl he =>
      cases he
      exact ⟨Function.update_self _ _ _, Nat.le_refl _⟩
    | inr hold =>
      exact ⟨(Function.update_of_ne hold.2 _ _).trans (h.holds hold.1).1,
        Nat.le_succ_of_le (h.holds hold.1).2⟩
  inFlight p hp := by
    have hp' := h.inFlight p hp
    refine ⟨hp'.asked, hp'.session, Nat.le_succ_of_le hp'.opened, hp'.cid, fun b hb => ?_⟩
    cases hslot _ _ hb with
    | inl he =>
      have hnew : p.incarnation = g.opened + 1 := congrArg Prod.snd he
      exact absurd (hnew ▸ hp'.opened) (Nat.not_succ_le_self _)
    | inr hold => exact hp'.addr b hold.1
  room := h.room
  told := h.told
  answered := h.answered
  once := h.once
  sent := h.sent
  owed o ho := by
    refine ⟨(h.owed o ho).addr, fun hlt => ?_, (h.owed o ho).link⟩
    have hne : o.addr ≠ a := fun he => hquiet o ho he hlt
    exact (Function.update_of_ne hne _ _).trans ((h.owed o ho).holder hlt)

variable {conn gen : UInt16} {l : ℕ} {session : UInt32}

/-- With the stale slots dropped, no session is left on a connection that has none of
the generation. -/
theorem slot_dropStale (hfind : g.netFind conn gen = none) {w : Who} {x : Addr × ℕ}
    (hw : (g.dropStale conn gen).slot w = some x) : g.slot w = some x ∧ x.1 ≠ .net conn := by
  cases w with
  | link j =>
    refine ⟨hw, ?_⟩
    obtain ⟨s, -, hheld⟩ := Option.bind_eq_some_iff.mp hw
    unfold LinkSession.held at hheld
    split at hheld
    · cases hheld
      exact fun he => nomatch he
    · cases hheld
  | net i =>
    obtain ⟨s', hs', hheld⟩ := Option.bind_eq_some_iff.mp hw
    obtain ⟨s, hs, rfl⟩ := Option.map_eq_some_iff.mp ((List.getElem?_map ..).symm.trans hs')
    have hnone := List.findIdx?_eq_none_iff.mp hfind s (List.mem_of_getElem? hs)
    split at hheld
    · rw [NetSession.held_ended] at hheld
      cases hheld
    next hstale =>
    refine ⟨Option.bind_eq_some_iff.mpr ⟨s, hs, hheld⟩, ?_⟩
    unfold NetSession.held at hheld
    split at hheld
    · next huse =>
      cases hheld
      intro he
      obtain rfl := Addr.net.inj he
      rw [huse, beq_self_eq_true, Bool.true_and, Bool.true_and] at hnone hstale
      rw [bne, hnone] at hstale
      exact hstale rfl
    · cases hheld

/-- A slot of the table is written over. -/
theorem slot_set_net {net : List NetSession} {i : ℕ} {s : NetSession} {w : Who} {x : Addr × ℕ}
    (hw : ({ g with net := net.set i s } : Gate).slot w = some x) :
    s.held = some x ∨ ({ g with net := net } : Gate).slot w = some x := by
  cases w with
  | link j => exact .inr hw
  | net j => exact bind_of_set hw

/-- See `slot_set_net`. -/
theorem slot_set_link {links : List LinkSession} {j : ℕ} {s : LinkSession} {w : Who}
    {x : Addr × ℕ} (hw : ({ g with links := links.set j s } : Gate).slot w = some x) :
    s.held = some x ∨ ({ g with links := links } : Gate).slot w = some x := by
  cases w with
  | net i => exact .inr hw
  | link i => exact bind_of_set hw

/-- A slot for a connection: nothing may be on its way there, unless the session is in
its slot. -/
theorem Inv.netFor (h : Inv cfg g)
    (hquiet : (g.netFind conn gen).isSome = true ∨ g.Quiet (.net conn)) :
    Inv cfg (g.netFor conn gen).1 := by
  unfold Gate.netFor
  cases hfind : g.netFind conn gen with
  | some i => exact h
  | none =>
    have hquiet : g.Quiet (.net conn) := by
      refine hquiet.resolve_left ?_
      rw [hfind]
      exact Bool.false_ne_true
    have hdrop : Inv cfg (g.dropStale conn gen) := h.clears hquiet fun _ _ => slot_dropStale hfind
    show Inv cfg (g.netAlloc conn gen).1
    unfold Gate.netAlloc
    dsimp only
    split
    · exact hdrop
    refine hdrop.opens hquiet fun w x hw => ?_
    cases slot_set_net hw with
    | inl hnew => exact .inl (Option.some.inj hnew).symm
    | inr hold => exact .inr ⟨hold, (slot_dropStale hfind hold).2⟩

/-- A slot for a session of a link that has none. -/
theorem Inv.linkAlloc (h : Inv cfg g) (hout : g.out = none)
    (hfind : g.linkFind l session = none) : Inv cfg (g.linkAlloc l session).1 := by
  unfold Gate.linkAlloc
  split
  · exact h
  refine h.opens (Gate.quiet_of_none hout _) fun w x hw => ?_
  cases slot_set_link hw with
  | inl hnew => exact .inl (Option.some.inj hnew).symm
  | inr hold =>
    refine .inr ⟨hold, fun he => ?_⟩
    cases w with
    | net i =>
      obtain ⟨s, -, hheld⟩ := Option.bind_eq_some_iff.mp hold
      unfold NetSession.held at hheld
      split at hheld
      · cases hheld
        cases he
      · cases hheld
    | link i =>
      obtain ⟨s, hs, hheld⟩ := Option.bind_eq_some_iff.mp hold
      have hnone := List.findIdx?_eq_none_iff.mp hfind s (List.mem_of_getElem? hs)
      unfold LinkSession.held at hheld
      split at hheld
      · next huse =>
        cases hheld
        obtain ⟨hl, hsession⟩ := Addr.link.inj he
        rw [huse, hl, hsession, beq_self_eq_true, beq_self_eq_true] at hnone
        exact absurd hnone (by decide)
      · cases hheld

/-! ## Asking and answering -/

variable {n inc : ℕ} {ask : Ask} {who : Who} {frame f : Bytes} {a : SessionAuth} {io : FrameIo}

theorem Inv.asks (h : Inv cfg g) (ask : Ask) : Inv cfg { g with asked := g.asked ++ [ask] } where
  holds := h.holds
  inFlight p hp :=
    { h.inFlight p hp with
      asked := (List.getElem?_append_left (List.getElem?_eq_some_iff.mp
        (h.inFlight p hp).asked).1).trans (h.inFlight p hp).asked }
  room := h.room
  told := h.told
  answered x hx :=
    ⟨(List.getElem?_append_left (List.getElem?_eq_some_iff.mp (h.answered x hx).1).1).trans
      (h.answered x hx).1, (h.answered x hx).2⟩
  once := h.once
  sent := h.sent
  owed o ho := ⟨(h.owed o ho).addr, (h.owed o ho).holder, (h.owed o ho).link⟩

/-- The number of the next frame is new. -/
theorem Inv.fresh (h : Inv cfg g) : g.asked.length ∉ g.requests := by
  intro hmem
  have hasked : ∃ ask, g.asked[g.asked.length]? = some ask := by
    cases List.mem_append.mp hmem with
    | inl hx =>
      obtain ⟨x, hx, hn⟩ := List.mem_map.mp hx
      exact ⟨x.ask, hn ▸ (h.answered x hx).1⟩
    | inr hp =>
      obtain ⟨p, hp, hn⟩ := List.mem_map.mp hp
      exact ⟨p.ask, hn ▸ (h.inFlight p hp).asked⟩
  obtain ⟨ask, hask⟩ := hasked
  exact Nat.lt_irrefl _ (List.getElem?_eq_some_iff.mp hask).1

/-- **An answer is owed** to a frame that has none, and to the session that asked. -/
theorem Inv.stage (h : Inv cfg g) (hout : g.out = none) (hask : g.asked[n]? = some ask)
    (hnew : n ∉ g.requests) (hholder : g.holder ask.addr = ask.session) {buf : Bytes}
    (hcid : ∀ cid, ask.cid = some cid → slice buf 1 4 = cid) (closeAfter : Bool) :
    Inv cfg (g.stage ask.addr n ask buf closeAfter) where
  holds := h.holds
  inFlight p hp := { h.inFlight p hp with }
  room := h.room
  told := h.told
  answered x hx := by
    cases List.mem_append.mp hx with
    | inl hold => exact h.answered x hold
    | inr hlast =>
      obtain rfl := List.mem_singleton.mp hlast
      exact ⟨hask, hcid⟩
  once := by
    show ((g.answers ++ [_]).map Answer.request ++ g.pending.map Pending.request).Nodup
    rw [List.map_append, List.append_assoc]
    exact List.nodup_middle.mpr (List.nodup_cons.mpr ⟨hnew, h.once⟩)
  sent := by
    have hsent := h.sent
    unfold Gate.rest at hsent
    rw [hout, List.append_nil] at hsent
    show g.sent ++ _ = ((g.answers ++ [_]).filter _).flatMap _
    rw [List.filter_append, List.flatMap_append, hsent]
    refine congrArg _ ?_
    show (if reaches cfg ask.addr then _ else _) = _
    cases hreach : reaches cfg ask.addr with
    | true =>
      rw [List.filter_singleton, hreach, if_pos rfl, List.drop_zero, cond_true]
      exact (List.append_nil _).symm
    | false =>
      rw [List.filter_singleton, hreach, if_neg Bool.false_ne_true, cond_false]
      rfl
  owed o ho := by
    cases ho
    exact ⟨rfl, fun _ => hholder, fun _ _ _ => rfl⟩

/-- The correlation id is one that no request in flight has. -/
theorem freshCid_notMem (hroom : g.pending.length + 1 < 2 ^ 32) :
    g.freshCid ∉ g.pending.map Pending.gateCid := by
  unfold Gate.freshCid
  generalize hcids : (List.range (g.pending.length + 2)).map
    (fun i => g.nextCid + 1 + UInt32.ofNat i) = cids
  cases hfind : cids.find? fun cid => cid != 0 && !(g.pending.map Pending.gateCid).contains cid with
  | some cid =>
    have hcid := List.find?_some hfind
    rw [Bool.and_eq_true_iff, Bool.not_eq_true', List.contains_eq_mem,
      decide_eq_false_iff_not] at hcid
    exact hcid.2
  | none =>
    -- All of them would be 0 or taken, and they are more than these.
    have hnodup : cids.Nodup := by
      rw [← hcids]
      refine List.Nodup.map_on (fun i hi j hj he => ?_) List.nodup_range
      have hi : i < UInt32.size := (List.mem_range.mp hi).trans_le hroom
      have hj : j < UInt32.size := (List.mem_range.mp hj).trans_le hroom
      have heq := congrArg UInt32.toNat ((UInt32.add_right_inj _).mp he)
      rwa [UInt32.toNat_ofNat_of_lt' hi, UInt32.toNat_ofNat_of_lt' hj] at heq
    have hsub : cids ⊆ 0 :: g.pending.map Pending.gateCid := by
      intro cid hmem
      have hno := List.find?_eq_none.mp hfind cid hmem
      rw [Bool.and_eq_true_iff, Bool.not_eq_true', List.contains_eq_mem,
        decide_eq_false_iff_not, bne_iff_ne, ne_eq] at hno
      by_cases hzero : cid = 0
      · exact hzero ▸ List.mem_cons_self
      · exact List.mem_cons_of_mem _ (not_not.mp fun hn => hno ⟨hzero, hn⟩)
    have hle := (List.subperm_of_subset hnodup hsub).length_le
    rw [← hcids, List.length_map, List.length_range, List.length_cons, List.length_map] at hle
    omega

/-- The correlation id of a frame, kept in 32 bits, is put back as it was. -/
theorem leBytes_cid (h : 5 ≤ f.length) :
    leBytes 4 (UInt32.ofNat (num f 1 4)).toNat = slice f 1 4 := by
  rw [UInt32.toNat_ofNat_of_lt' (num_lt f 1 4)]
  exact leBytes_num h

/-- **A request is forwarded**, or refused where too many are in flight. -/
theorem Inv.forward (h : Inv cfg g) (hout : g.out = none) (hask : g.asked[n]? = some ask)
    (hnew : n ∉ g.requests) (hslot : g.slot who = some (ask.addr, inc))
    (hsession : ask.session = some inc)
    (hcid : ∀ cid, ask.cid = some cid → 5 ≤ f.length ∧ slice f 1 4 = cid) (took : Bool) :
    Inv cfg (g.forward cfg who ask.addr inc n ask f took) := by
  unfold Gate.forward
  split
  · refine h.stage hout hask hnew ((h.holds hslot).1.trans hsession.symm) (fun cid hc => ?_) false
    obtain ⟨hlen, hslice⟩ := hcid cid hc
    exact (slice_refusal hlen _).trans hslice
  next hroom =>
  have hroom := Nat.lt_of_not_le hroom
  have hfits := cfg.pending_fits
  refine ⟨h.holds, fun p hp => ?_, ?_, ?_, h.answered, ?_, h.sent,
    fun o ho => ⟨(h.owed o ho).addr, (h.owed o ho).holder, (h.owed o ho).link⟩⟩
  · cases List.mem_append.mp hp with
    | inl hold => exact { h.inFlight p hold with }
    | inr hlast =>
      obtain rfl := List.mem_singleton.mp hlast
      refine ⟨hask, hsession, (h.holds hslot).2, fun cid hc => ?_, fun b hb => ?_⟩
      · obtain ⟨hlen, hslice⟩ := hcid cid hc
        exact (leBytes_cid hlen).trans hslice
      · exact congrArg Prod.fst (Option.some.inj (hb.symm.trans hslot))
  · show (g.pending ++ [_]).length ≤ _
    rw [List.length_append]
    exact hroom
  · show ((g.pending ++ [_]).map Pending.gateCid).Nodup
    rw [List.map_append]
    exact List.nodup_append_comm.mp (List.nodup_cons.mpr ⟨freshCid_notMem (by omega), h.told⟩)
  · show (g.answers.map Answer.request ++ (g.pending ++ [_]).map Pending.request).Nodup
    rw [List.map_append, ← List.append_assoc]
    exact List.nodup_append_comm.mp (List.nodup_cons.mpr ⟨hnew, h.once⟩)

/-! ## Frames -/

theorem gateRequest_frame {L : Limits} {C : Contract} {object : Bytes} {b : Auth}
    {c c' : Option Clock} (h : (gateRequest L C object b c c' frame).2 = .forwarded f) :
    f = replaceHolder (boundHolder C b.id) frame := by
  have hbind : ∀ {scope : Scope}, (bindAndForward C b scope frame).2 = .forwarded f →
      f = replaceHolder (boundHolder C b.id) frame := by
    intro scope h
    unfold bindAndForward at h
    dsimp only at h
    rw [← GateAnswer.forwarded.inj h]
    congr 2
    cases scope <;> first | rfl | (dsimp only; split <;> rfl)
  unfold gateRequest at h
  split at h
  · cases h
  split at h
  · cases h
  split at h
  · split at h
    · cases h
    · cases h
    · cases h
    · split at h
      · cases h
      · exact hbind h
  · exact hbind h

/-- What a frame leads to has its correlation id: an answer at once, or the frame that
is forwarded. -/
theorem handleFrame_cid {b : SessionAuth} {r : Outcome} {cid : Bytes}
    (h : handleFrame cfg io a frame = (b, r)) (hcid : askCid cfg frame = some cid) :
    (∀ bytes, r = .answer bytes → slice bytes 1 4 = cid) ∧
      ∀ f, r = .forward f → 5 ≤ f.length ∧ slice f 1 4 = cid := by
  unfold askCid at hcid
  split at hcid
  · cases hcid
  next hadmin =>
  cases hcid
  obtain ⟨hcap, hlen⟩ := not_or.mp hadmin
  have hlen := Nat.le_of_not_lt hlen
  unfold isCapFrame at hcap
  rw [Bool.or_eq_true, beq_iff_eq, beq_iff_eq] at hcap
  obtain ⟨hpresent, hwithdraw⟩ := not_or.mp hcap
  unfold handleFrame at h
  rw [if_neg hpresent, if_neg hwithdraw] at h
  dsimp only at h
  split at h
  · cases h
    exact ⟨(fun _ he => nomatch he), fun _ he => nomatch he⟩
  · cases h
    refine ⟨fun bytes he => ?_, fun _ he => nomatch he⟩
    cases he
    exact slice_refusal hlen _
  · next f hf =>
    cases h
    refine ⟨(fun _ he => nomatch he), fun f he => ?_⟩
    cases he
    have htake := (congrArg (List.take 5) (gateRequest_frame hf)).trans (take_replaceHolder _ _)
    have hf : 5 ≤ f.length := by
      have hsize := congrArg List.length htake
      rw [List.length_take, List.length_take] at hsize
      omega
    refine ⟨hf, ?_⟩
    rw [← slice_take (Nat.le_refl 5), htake, slice_take (Nat.le_refl 5)]

theorem Inv.handle (h : Inv cfg g) (hout : g.out = none) {addr : Addr}
    (hslot : g.slot who = some (addr, inc)) :
    Inv cfg (g.handle cfg who addr inc a frame io).1 := by
  unfold Gate.handle
  dsimp only
  generalize hask : (⟨addr, some inc, askCid cfg frame⟩ : Ask) = ask
  obtain rfl : ask.addr = addr := hask ▸ rfl
  have hsession : ask.session = some inc := hask ▸ rfl
  have hcid : ask.cid = askCid cfg frame := hask ▸ rfl
  have hasked := h.asks ask
  have hlast : (g.asked ++ [ask])[g.asked.length]? = some ask := List.getElem?_concat_length
  cases hframe : handleFrame cfg io a frame with
  | mk b r =>
    have hr : ∀ cid, ask.cid = some cid → (∀ bytes, r = .answer bytes → slice bytes 1 4 = cid) ∧
        ∀ f, r = .forward f → 5 ≤ f.length ∧ slice f 1 4 = cid :=
      fun cid hc => handleFrame_cid hframe (hcid.symm.trans hc)
    cases r with
    | ends => exact hasked
    | quiet => exact hasked
    | answer bytes =>
      exact hasked.stage hout hlast h.fresh ((h.holds hslot).1.trans hsession.symm)
        (fun cid hc => (hr cid hc).1 bytes rfl) false
    | forward f =>
      exact hasked.forward hout hlast h.fresh hslot hsession (fun cid hc => (hr cid hc).2 f rfl) _

theorem out_of_idle (h : g.idle = true) : g.out = none :=
  Option.isNone_iff_eq_none.mp (Bool.and_eq_true_iff.mp h).2

/-- A frame's own correlation id is at its offset. -/
theorem cid_of_askCid {cid : Bytes} (h : askCid cfg frame = some cid) :
    5 ≤ frame.length ∧ slice frame 1 4 = cid := by
  unfold askCid at h
  split at h
  · cases h
  · next hadmin => exact ⟨Nat.le_of_not_lt (not_or.mp hadmin).2, Option.some.inj h⟩

theorem Inv.refuse (h : Inv cfg g) (hout : g.out = none) {addr : Addr} {session : Option ℕ}
    (hholder : g.holder addr = session) {buf : Bytes}
    (hcid : ∀ cid, askCid cfg frame = some cid → slice buf 1 4 = cid) (closeAfter : Bool) :
    Inv cfg (({ g with asked := g.asked ++ [⟨addr, session, askCid cfg frame⟩] } : Gate).stage addr
      g.asked.length ⟨addr, session, askCid cfg frame⟩ buf closeAfter) :=
  (h.asks ⟨addr, session, askCid cfg frame⟩).stage hout List.getElem?_concat_length h.fresh hholder
    hcid closeAfter

/-- One frame of a network session is served. -/
theorem Inv.serve (h : Inv cfg g) (i : ℕ) (io : FrameIo) : Inv cfg (g.serve cfg i io) := by
  unfold Gate.serve
  cases hs : g.net[i]? with
  | none => exact h
  | some s =>
    dsimp only
    split
    · exact h
    next hready =>
    obtain ⟨huse, hrest⟩ := not_or.mp hready
    have huse := not_not.mp huse
    have hout := out_of_idle (not_not.mp (not_or.mp hrest).2)
    have hslot : g.slot (.net i) = some (.net s.conn, s.incarnation) := by
      refine Option.bind_eq_some_iff.mpr ⟨s, hs, ?_⟩
      rw [NetSession.held, if_pos huse.1]
    split
    · exact h
    · exact h.endNet i
    · split
      · exact h
      next hlen =>
      refine (h.refuse hout (h.holds hslot).1 (fun cid hc => ?_) true).endNet i
      obtain ⟨hlen, hslice⟩ := cid_of_askCid hc
      rw [slice_refusal (by rw [List.length_take, Nat.min_eq_left hlen]), slice_take (Nat.le_refl 5)]
      exact hslice
    · next n _ =>
      split
      · exact h
      have hhandle : Inv cfg (g.handle cfg (.net i) (.net s.conn) s.incarnation s.auth
          (s.rx.take n) io).1 := h.handle hout hslot
      generalize g.handle cfg (.net i) (.net s.conn) s.incarnation s.auth (s.rx.take n) io = r
        at hhandle ⊢
      obtain ⟨g', a, keep⟩ := r
      dsimp only
      split
      · exact hhandle.modifyNet i fun _ => .inl rfl
      · exact hhandle.endNet i

/-- A record of a session of a link that is in a slot is handled. -/
theorem Inv.linkFrame (h : Inv cfg g) (hout : g.out = none) {j : ℕ} {s : LinkSession}
    (hs : g.links[j]? = some s) (huse : s.inUse = true) (frame : Bytes) (io : FrameIo) :
    Inv cfg (g.linkFrame cfg j frame io) := by
  have hslot : g.slot (.link j) = some (.link s.link s.session, s.incarnation) := by
    refine Option.bind_eq_some_iff.mpr ⟨s, hs, ?_⟩
    rw [LinkSession.held, if_pos huse]
  unfold Gate.linkFrame
  rw [hs]
  dsimp only
  split
  · have hhandle : Inv cfg (g.handle cfg (.link j) (.link s.link s.session) s.incarnation s.auth
        frame io).1 := h.handle hout hslot
    generalize g.handle cfg (.link j) (.link s.link s.session) s.incarnation s.auth frame io = r
      at hhandle ⊢
    obtain ⟨g', a, keep⟩ := r
    dsimp only
    split
    · exact hhandle.modifyLink j fun _ => .inl rfl
    · exact hhandle.endLink j
  · split
    · refine (h.refuse hout (h.holds hslot).1 (fun cid hc => ?_) false).endLink j
      obtain ⟨hlen, hslice⟩ := cid_of_askCid hc
      exact (slice_refusal hlen _).trans hslice
    · exact h.endLink j

/-- What is found in the link table is in use. -/
theorem linkFind_eq_some {j : ℕ} (h : g.linkFind l session = some j) :
    ∃ s, g.links[j]? = some s ∧ s.inUse = true := by
  obtain ⟨hlt, hs, -⟩ := List.findIdx?_eq_some_iff_getElem.mp h
  rw [Bool.and_eq_true_iff, Bool.and_eq_true_iff] at hs
  exact ⟨g.links[j], List.getElem?_eq_getElem hlt, hs.1.1⟩

theorem linkAlloc_eq_some {g' : Gate} {j : ℕ} (h : g.linkAlloc l session = (g', some j)) :
    g'.out = g.out ∧ ∃ s, g'.links[j]? = some s ∧ s.inUse = true := by
  unfold Gate.linkAlloc at h
  split at h
  · cases h
  next i hi =>
  obtain ⟨hlt, -⟩ := List.findIdx?_eq_some_iff_getElem.mp hi
  cases h
  exact ⟨rfl, _, List.getElem?_set_self hlt, rfl⟩

theorem linkAlloc_eq_none {g' : Gate} (h : g.linkAlloc l session = (g', none)) : g' = g := by
  unfold Gate.linkAlloc at h
  split at h
  · exact (congrArg Prod.fst h).symm
  · cases h

/-- A presentation has no correlation id, and a request is refused under its own. -/
theorem unsessioned_cid {buf cid : Bytes} (h : unsessioned cfg frame = some buf)
    (hcid : askCid cfg frame = some cid) : slice buf 1 4 = cid := by
  obtain ⟨hlen, hslice⟩ := cid_of_askCid hcid
  unfold unsessioned at h
  split at h
  · next hpresent =>
    have hhead : frame.getD 0 0 = cfg.cap.present := by
      rw [List.getD_eq_getElem?_getD, ← List.head?_eq_getElem?, hpresent.1]
      rfl
    unfold askCid isCapFrame at hcid
    rw [hhead, beq_self_eq_true, Bool.true_or, if_pos (.inl rfl)] at hcid
    cases hcid
  · split at h
    · cases h
    obtain rfl := Option.some.inj h
    exact (slice_refusal hlen _).trans hslice

theorem Inv.record (h : Inv cfg g) (l : ℕ) (rec : Bytes) (io : FrameIo) :
    Inv cfg (g.record cfg l rec io) := by
  unfold Gate.record
  split
  · exact h
  next hready =>
  have hout := out_of_idle (not_not.mp (not_or.mp hready).1)
  dsimp only
  generalize UInt32.ofNat (num rec 0 4) = session
  split
  · split
    · exact h
    · exact h.endLink _
  cases hfind : g.linkFind l session with
  | some j =>
    obtain ⟨s, hs, huse⟩ := linkFind_eq_some hfind
    exact h.linkFrame hout hs huse _ io
  | none =>
    have halloc := h.linkAlloc hout hfind
    dsimp only
    cases hnew : g.linkAlloc l session with
    | mk g' o =>
      rw [hnew] at halloc
      cases o with
      | some j =>
        obtain ⟨hout', s, hs, huse⟩ := linkAlloc_eq_some hnew
        exact halloc.linkFrame (hout'.trans hout) hs huse _ io
      | none =>
        obtain rfl := linkAlloc_eq_none hnew
        dsimp only
        cases hbuf : unsessioned cfg (rec.drop 4) with
        | none => exact h.asks _
        | some buf => exact h.refuse hout rfl (fun cid hc => unsessioned_cid hbuf hc) false

/-! ## Answers -/

variable {rec : Bytes} {p : Pending}

/-- A request in flight is answered: it is so no more, and its number is free. -/
theorem Inv.lands (h : Inv cfg g) (hp : g.answering rec = some p) :
    Inv cfg { g with pending := g.pending.eraseP (·.gateCid == p.gateCid) } ∧
      InFlight g p ∧ 5 ≤ rec.length ∧
      p.request ∉ ({ g with
        pending := g.pending.eraseP (·.gateCid == p.gateCid) } : Gate).requests := by
  unfold Gate.answering at hp
  split at hp
  · cases hp
  next hlen =>
  obtain ⟨hcid, before, after, hpending, hbefore⟩ := List.find?_eq_some_iff_append.mp hp
  rw [beq_iff_eq] at hcid
  have herase : g.pending.eraseP (·.gateCid == p.gateCid) = before ++ after := by
    rw [hpending, List.eraseP_append_right _ (fun q hq => ?_), List.eraseP_cons_of_pos]
    · exact beq_self_eq_true _
    · have hq := hbefore q hq
      rw [hcid]
      exact fun hc => absurd hq (by rw [hc]; decide)
  have hsub : (before ++ after).Sublist g.pending := by
    rw [hpending]
    exact (List.sublist_cons_self p after).append_left before
  have honce := h.once
  unfold Gate.requests at honce
  rw [hpending, List.map_append, List.map_cons, ← List.append_assoc] at honce
  obtain ⟨hnew, honce⟩ := List.nodup_cons.mp (List.nodup_middle.mp honce)
  rw [List.append_assoc, ← List.map_append] at hnew honce
  rw [herase]
  refine ⟨⟨h.holds, fun q hq => { h.inFlight q (hsub.subset hq) with },
    hsub.length_le.trans h.room, h.told.sublist (hsub.map _), h.answered, honce, h.sent,
    fun o ho => ⟨(h.owed o ho).addr, (h.owed o ho).holder, (h.owed o ho).link⟩⟩,
    h.inFlight p (hpending ▸ List.mem_append_right _ List.mem_cons_self), Nat.le_of_not_lt hlen,
    hnew⟩

/-- To own a stream changes nothing but a slot. -/
theorem Inv.ownStream (h : Inv cfg g) (pfid : UInt8) (w : Who) :
    Inv cfg (g.ownStream pfid w) ∧
      ∃ net links, g.ownStream pfid w = { g with net := net, links := links } := by
  cases w with
  | net i => exact ⟨h.modifyNet i fun _ => .inl rfl, _, _, rfl⟩
  | link j => exact ⟨h.modifyLink j fun _ => .inl rfl, _, _, rfl⟩

/-- One answer of the router, none so late that the number of its session has come
round. -/
theorem Inv.readRouter (h : Inv cfg g)
    (hlate : g.out = none → ∀ p ∈ g.answering rec, ∀ x ∈ g.slot p.who,
      x.2 % 2 ^ 32 = p.incarnation % 2 ^ 32 → x.2 = p.incarnation) :
    Inv cfg (g.readRouter rec) := by
  unfold Gate.readRouter
  split
  · exact h
  next hsome =>
  have hout : g.out = none := Option.not_isSome_iff_eq_none.mp hsome
  cases hp : g.answering rec with
  | none => exact h
  | some p =>
    obtain ⟨hland, hflight, hlen, hnew⟩ := h.lands hp
    dsimp only
    cases hlive : ({ g with
        pending := g.pending.eraseP (·.gateCid == p.gateCid) } : Gate).live p with
    | none => exact hland
    | some a =>
      unfold Gate.live at hlive
      split at hlive
      · cases hlive
      next b k hslot =>
      split at hlive
      · next hsame =>
        cases hlive
        obtain rfl : k = p.incarnation := hlate hout p hp (a, k) hslot hsame
        obtain rfl := hflight.addr a hslot
        have hholder : g.holder p.ask.addr = p.ask.session :=
          (h.holds hslot).1.trans hflight.session.symm
        have hcid : ∀ cid, p.ask.cid = some cid →
            slice (overwrite rec 1 (leBytes 4 p.clientCid.toNat)) 1 4 = cid := by
          intro cid hc
          have hslice := slice_overwrite (h := leBytes 4 p.clientCid.toNat)
            (Nat.one_le_of_lt hlen : 1 ≤ rec.length)
          rw [length_leBytes] at hslice
          exact hslice.trans (hflight.cid cid hc)
        dsimp only
        split
        · next status pfid _ =>
          split
          · obtain ⟨hown, net, links, heq⟩ := hland.ownStream pfid p.who
            rw [heq] at hown ⊢
            exact hown.stage hout hflight.asked hnew hholder hcid false
          · exact hland.stage hout hflight.asked hnew hholder hcid false
        · exact hland.stage hout hflight.asked hnew hholder hcid false
      · cases hlive

/-- What the next write of the owed answer has, in all: 0 where none is to come. -/
def Gate.offered (cfg : Config) (g : Gate) : ℕ :=
  match g.out with
  | none => 0
  | some o => if o.sent < o.buf.length then (o.piece cfg).length + o.hdr else 0

variable {o : Outbox} {took : ℕ}

/-- A write that is not taken changes nothing. -/
theorem wrote_zero (o : Outbox) : g.wrote cfg o 0 = g := by
  unfold Gate.wrote
  rw [Nat.zero_sub, List.take_zero, List.map_nil, List.append_nil]

/-- The next piece is at the front of what is not sent. -/
theorem piece_eq (h : Owed g o) :
    o.piece cfg = (o.buf.drop o.sent).take (o.piece cfg).length := by
  unfold Outbox.piece
  split
  · rw [List.length_take, ← List.take_eq_take_min]
  · next l session haddr => rw [h.link l session haddr, List.drop_zero, List.take_length]

/-- **A write that is taken whole** is the next piece of what is due. -/
theorem wrote_whole (h : Inv cfg g) (hout : g.out = some o) (hreach : reaches cfg o.addr = true)
    (hlt : o.sent < o.buf.length) (htook : (o.piece cfg).length + o.hdr ≤ took) :
    (g.wrote cfg o took).sent ++
        Answer.due ⟨o.request, o.ask, o.buf.drop (o.sent + (o.piece cfg).length)⟩ = g.due cfg := by
  have howed := h.owed o hout
  have hrest : g.rest cfg = Answer.due ⟨o.request, o.ask, o.buf.drop o.sent⟩ := by
    unfold Gate.rest
    rw [hout]
    exact if_pos hreach
  have hwrote : (g.wrote cfg o took).sent
      = g.sent ++ Answer.due ⟨o.request, o.ask, o.piece cfg⟩ := by
    unfold Gate.wrote Answer.due
    rw [List.take_of_length_le (Nat.le_sub_of_add_le htook), howed.holder hlt, howed.addr]
  rw [hwrote, List.append_assoc, ← h.sent, hrest]
  refine congrArg _ ?_
  unfold Answer.due
  rw [← List.map_append, ← List.drop_drop]
  exact congrArg _ ((congrArg (· ++ _) (piece_eq howed)).trans (List.take_append_drop _ _))

/-- The rest of an answer is sent, or all of it. -/
theorem Inv.sends (h : Inv cfg g) (hout : g.out = some o) {sent : List SentByte} {k : ℕ}
    (hk : o.sent ≤ k) (hlink : ∀ l session, o.addr = .link l session → k = 0)
    (hsent : sent ++ Gate.rest cfg { g with out := some { o with sent := k } } = g.due cfg) :
    Inv cfg { g with sent := sent, out := some { o with sent := k } } where
  holds := h.holds
  inFlight p hp := { h.inFlight p hp with }
  room := h.room
  told := h.told
  answered := h.answered
  once := h.once
  sent := hsent
  owed o' ho' := by
    cases ho'
    exact ⟨(h.owed o hout).addr, fun hlt => (h.owed o hout).holder (hk.trans_lt hlt), hlink⟩

theorem Inv.done (h : Inv cfg g) {sent : List SentByte} (hsent : sent = g.due cfg) :
    Inv cfg { g with sent := sent, out := none } where
  holds := h.holds
  inFlight p hp := { h.inFlight p hp with }
  room := h.room
  told := h.told
  answered := h.answered
  once := h.once
  sent := (List.append_nil _).trans hsent
  owed _ ho := nomatch ho

/-- **A write of the owed answer** that is taken whole, or not at all. -/
theorem Inv.flushAnswer (h : Inv cfg g) (hwhole : took = 0 ∨ g.offered cfg ≤ took) :
    Inv cfg (g.flushAnswer cfg took) := by
  unfold Gate.flushAnswer
  cases hout : g.out with
  | none => exact h
  | some o =>
    have howed := h.owed o hout
    unfold Gate.offered at hwhole
    rw [hout] at hwhole
    dsimp only at hwhole ⊢
    have hrest : g.rest cfg = if reaches cfg o.addr then
        Answer.due ⟨o.request, o.ask, o.buf.drop o.sent⟩ else [] := by
      unfold Gate.rest
      rw [hout]
    have hspent : ¬ o.sent < o.buf.length → g.sent = g.due cfg := by
      intro hlt
      have hsent := h.sent
      rw [hrest, List.drop_of_length_le (Nat.le_of_not_lt hlt)] at hsent
      split at hsent <;> exact (List.append_nil _).symm.trans hsent
    cases haddr : o.addr with
    | net conn =>
      have hreach : reaches cfg o.addr = true := haddr ▸ rfl
      dsimp only
      split
      · next hlt =>
        rw [if_pos hlt] at hwhole
        split
        · next htook =>
          have hsent := wrote_whole h hout hreach hlt htook
          split
          · rw [← haddr]
            refine h.sends hout (Nat.le_add_right _ _) (fun l session he => ?_) ?_
            · cases haddr.symm.trans he
            · unfold Gate.rest
              exact (congrArg _ (if_pos hreach)).trans hsent
          · next hlast =>
            refine h.done ?_
            rw [List.drop_of_length_le (Nat.le_of_not_lt (not_or.mp hlast).1)] at hsent
            exact (List.append_nil _).symm.trans hsent
        · next htook =>
          obtain rfl := hwhole.resolve_right htook
          rw [wrote_zero]
          exact h
      · next hlt =>
        split
        · exact h
        · exact h.done (hspent hlt)
    | link l session =>
      dsimp only
      split
      · next hwired =>
        refine h.done ?_
        have hsent := h.sent
        rw [hrest, if_neg (by rw [haddr]; exact hwired), List.append_nil] at hsent
        exact hsent
      · next hwired =>
        have hreach : reaches cfg o.addr = true := haddr ▸ not_not.mp hwired
        by_cases hlt : o.sent < o.buf.length
        · rw [if_pos hlt] at hwhole
          split
          · next htook =>
            have hsent := wrote_whole h hout hreach hlt htook
            refine h.done ?_
            have hall : (o.piece cfg).length = o.buf.length := by
              unfold Outbox.piece
              rw [haddr]
            rw [hall, List.drop_of_length_le (Nat.le_add_left _ _)] at hsent
            exact (List.append_nil _).symm.trans hsent
          · next htook =>
            obtain rfl := hwhole.resolve_right htook
            rw [wrote_zero]
            exact h
        · have hnil : o.buf = [] := by
            rw [howed.link l session haddr, Nat.pos_iff_ne_zero, not_not] at hlt
            exact List.length_eq_zero_iff.mp hlt
          have hsame : g.wrote cfg o took = g := by
            unfold Gate.wrote Outbox.piece
            rw [haddr, hnil]
            dsimp only
            rw [List.take_nil, List.map_nil, List.append_nil]
          rw [hsame]
          split
          · exact h.done (hspent hlt)
          · exact h

/-! ## Runs -/

/-- What keeps an event from disturbing an answer: the identity of a peer opens no
session on the connection an answer is on its way to; no request is answered whose
session's 32-bit number another session of its slot has by now; and a write of an
answer is taken whole, or not at all. -/
def Undisturbed (cfg : Config) (g : Gate) : Event → Prop
  | .identity conn gen _ => (g.netFind conn gen).isSome = true ∨ g.Quiet (.net conn)
  | .router rec => g.out = none → ∀ p ∈ g.answering rec, ∀ x ∈ g.slot p.who,
      x.2 % 2 ^ 32 = p.incarnation % 2 ^ 32 → x.2 = p.incarnation
  | .flushAnswer took => took = 0 ∨ g.offered cfg ≤ took
  | _ => True

instance (g : Gate) (a : Addr) : Decidable (g.Quiet a) :=
  inferInstanceAs (Decidable (∀ o ∈ g.out, o.addr = a → ¬ o.sent < o.buf.length))

instance (cfg : Config) (g : Gate) (e : Event) : Decidable (Undisturbed cfg g e) :=
  match e with
  | .identity conn gen _ =>
    inferInstanceAs (Decidable ((g.netFind conn gen).isSome = true ∨ g.Quiet (.net conn)))
  | .router rec =>
    inferInstanceAs (Decidable (g.out = none → ∀ p ∈ g.answering rec, ∀ x ∈ g.slot p.who,
      x.2 % 2 ^ 32 = p.incarnation % 2 ^ 32 → x.2 = p.incarnation))
  | .flushAnswer took => inferInstanceAs (Decidable (took = 0 ∨ g.offered cfg ≤ took))
  | .accepted _ _ _ | .data _ _ | .closed _ | .serve _ _ | .record _ _ _ | .flushRequest _ =>
    .isTrue trivial

theorem Inv.init (cfg : Config) : Inv cfg (init cfg) where
  holds {w a k} hw := by
    cases w with
    | net i =>
      obtain ⟨s, hs, hheld⟩ := Option.bind_eq_some_iff.mp hw
      cases List.eq_of_mem_replicate (List.mem_of_getElem? hs)
      cases hheld
    | link j =>
      obtain ⟨s, hs, hheld⟩ := Option.bind_eq_some_iff.mp hw
      cases List.eq_of_mem_replicate (List.mem_of_getElem? hs)
      cases hheld
  inFlight _ hp := nomatch hp
  room := Nat.zero_le _
  told := List.nodup_nil
  answered _ hx := nomatch hx
  once := List.nodup_nil
  sent := rfl
  owed _ ho := nomatch ho

/-- What is owed to the router has no part in it. -/
theorem Inv.flushRequest (h : Inv cfg g) (took : Bool) : Inv cfg (g.flushRequest took) := by
  unfold Gate.flushRequest
  split
  · exact ⟨h.holds, fun p hp => { h.inFlight p hp with }, h.room, h.told, h.answered, h.once,
      h.sent, fun o ho => ⟨(h.owed o ho).addr, (h.owed o ho).holder, (h.owed o ho).link⟩⟩
  · exact h

theorem Inv.readIdentity (h : Inv cfg g) {fingerprint : Option Bytes}
    (hquiet : (g.netFind conn gen).isSome = true ∨ g.Quiet (.net conn)) :
    Inv cfg (g.readIdentity cfg conn gen fingerprint) := by
  have hfor := h.netFor hquiet
  unfold Gate.readIdentity
  generalize g.netFor conn gen = r at hfor ⊢
  obtain ⟨g', o⟩ := r
  cases o with
  | none => exact hfor
  | some i => exact hfor.modifyNet i fun _ => .inl rfl

theorem Inv.accepted (h : Inv cfg g) (conn localPort gen : UInt16) :
    Inv cfg (g.accepted cfg conn localPort gen) := by
  unfold Gate.accepted
  split
  · exact h
  next hready =>
  have hout := out_of_idle (not_not.mp (not_or.mp hready).1)
  have hfor : Inv cfg (g.netFor conn gen).1 := h.netFor (.inr (Gate.quiet_of_none hout (.net conn)))
  generalize g.netFor conn gen = r at hfor ⊢
  obtain ⟨g', o⟩ := r
  cases o with
  | none => exact hfor
  | some i => exact hfor.modifyNet i fun _ => .inl rfl

/-- **An event keeps the invariant**, unless it disturbs an answer. -/
theorem Inv.step (h : Inv cfg g) {e : Event} (he : Undisturbed cfg g e) :
    Inv cfg (step cfg g e) := by
  cases e with
  | identity conn gen fingerprint => exact h.readIdentity he
  | router rec => exact h.readRouter he
  | accepted conn localPort gen => exact h.accepted conn localPort gen
  | data conn bytes =>
    show Inv cfg (g.data cfg conn bytes)
    unfold Gate.data
    split
    · exact h
    split
    · exact h
    split
    · exact h
    split
    · exact h
    split
    · exact h.endNet _
    · exact h.modifyNet _ fun _ => .inl rfl
  | closed conn =>
    show Inv cfg (g.closed conn)
    unfold Gate.closed
    split
    · exact h
    split
    · exact h
    · exact h.endNet _
  | serve i io => exact h.serve i io
  | record l rec io => exact h.record l rec io
  | flushRequest took => exact h.flushRequest took
  | flushAnswer took => exact h.flushAnswer he

/-- **Answers reach the session that asked**, under its own correlation ids, each
once and in one piece: in every run in which no event disturbs an answer. -/
theorem answers_reach_asker (cfg : Config) (es : List Event)
    (h : Run.AllSteps (step cfg) (Undisturbed cfg) (init cfg) es) :
    Faithful cfg (reached cfg es) :=
  (Run.invariant (I := Inv cfg) (fun _ _ hg he => hg.step he) (Inv.init cfg) h).faithful

/-! A gate with two slots of each kind, where a chain proves writes under the root
`b`, and a session that takes a lease. -/

/-- See `exampleConfig`. -/
def exampleCapWire : CapWire where
  present := 1
  withdraw := 2
  answer := 3
  frameMax := 64
  unauthenticated := 1
  refused := 2
  grantsFull := 3
  verify _ _ := .ok ⟨[98, slash], 2, 1000⟩
  insert gs p g := some ((p, g) :: gs)
  without gs p := gs.filter (·.1 ≠ p)
  granted p _ := p ++ [0]
  refusal p status r := p ++ [status, r]

/-- Sixteen bytes of data go out in one write. -/
def exampleConfig : Config where
  limits := .minimal
  contract := exampleContract
  cap := exampleCapWire
  bodyObject := []
  port := 80
  netSessions := 2
  linkSessions := 2
  maxPending := 2
  pending_fits := by decide
  rxMax := 512
  maxCmdData := 16
  idMax := 32
  linkOut _ := true

/-- A clock that keeps time, and a router that takes requests. -/
def exampleIo : FrameIo := ⟨some ⟨5, 1⟩, some ⟨6, 1⟩, true⟩

/-- Connection 5 presents a grant and asks for a lease; the router answers. -/
def leaseAsked : List Event :=
  [.identity 5 1 (some [1, 2]), .accepted 5 80 1, .data 5 ([1] ++ leBytes 2 4 ++ [9, 9, 9, 9]),
    .serve 0 exampleIo, .flushAnswer 100, .data 5 exampleLease, .serve 0 exampleIo,
    .router ([admLease] ++ leBytes 4 1 ++ [1] ++ List.replicate 16 0)]

/-- The answer goes out in two writes, with a refused one between, before the next
session of the connection is told of. -/
theorem answers_reach_asker_lease :
    Faithful exampleConfig (reached exampleConfig (leaseAsked ++
      [.flushAnswer 100, .flushAnswer 0, .flushAnswer 100, .identity 5 2 none])) :=
  answers_reach_asker exampleConfig _ (by decide)

/-- **An answer goes to the next session of its connection**, where the channel is
full and the peer of that session is told of before it has room: session 2 is sent
what session 1 asked. And where a write is taken in part, its bytes go out twice. -/
theorem answer_to_next_session :
    (∃ x ∈ (reached exampleConfig (leaseAsked ++
        [.flushAnswer 0, .identity 5 2 none, .flushAnswer 100])).sent, x.holder = some 2 ∧
      ∃ r ∈ (reached exampleConfig (leaseAsked ++
        [.flushAnswer 0, .identity 5 2 none, .flushAnswer 100])).asked[x.request]?,
          r.session = some 1) ∧
    ¬ Faithful exampleConfig (reached exampleConfig (leaseAsked ++
      [.flushAnswer 0, .identity 5 2 none, .flushAnswer 100])) ∧
    ¬ Faithful exampleConfig (reached exampleConfig (leaseAsked ++
      [.flushAnswer 10, .flushAnswer 100])) := by
  refine ⟨by decide, fun h => ?_, fun h => ?_⟩
  · exact absurd h.inOrder (by decide)
  · exact absurd h.inOrder (by decide)

end Loam.AdminGate

import Loam.EcTable
import Loam.EcUpstream

/-!
# Erasure-coded bodies survive the loss of `m` members

A store is acknowledged only when every ranked member has answered that it
keeps its shard: while its join is in hand each member either is awaited under
the question it was sent or has answered it (`Storing`). A read of that body
asks the same members for the same keys, as long as the fleet is as it was, and
what it gathers agrees with the shards that were stored (`Reading`). With `k`
of them in, whatever the others said, the coder gives the body back. That is so
while answers meet their own: refusals of a store given up 65536 joins ago can
refuse a read (`late_refusals_count`).
-/

namespace Loam

open Fanout (Same Grows Asks Spends Ticket Opens Question)

/-- An event of a run closes a join with the answer `p`. -/
def ClosesWith (step : EcState → EcEvent → EcState) (g : ℕ) (p : UInt32 × BodyResp) :
    EcState → List EcEvent → Prop :=
  Run.SomeStep step fun s e =>
    s.io.join? g ≠ none ∧ (step s e).io.join? g = none ∧ (step s e).up = s.up ++ [p]

/-- A member was sent a question that stores, and answered that it did. -/
def Kept (s : EcState) (es : List EcEvent) (t : UInt8) (req : BodyReq) : Prop :=
  ∃ cid r, (⟨cid, t, req⟩ : Question UInt8 BodyReq) ∈ s.io.sent ∧ .answer t cid (.putKeyed r) ∈ es

/-- A member's answer to a question is awaited for a join. -/
def AwaitedOf (s : EcState) (g : ℕ) (t : UInt8) (req : BodyReq) : Prop :=
  ∃ k ∈ s.io.tickets g, k.peer = t ∧ (⟨k.cid, t, req⟩ : Question UInt8 BodyReq) ∈ s.io.sent

section Stores

variable {C : EcConfig} {N : ℕ → Bool} {s s' : EcState} {e : EcEvent} {g : ℕ} {j j' : EcJoin}
  {k : Ticket UInt8} {io : EcIo} {resp : BodyResp} {targets : List UInt8} {req : ℕ → BodyReq}
  {es es' : List EcEvent} {p : UInt32 × BodyResp}

/-- A store's join, while it is in hand: it misses as many answers as it has
tickets, and unless one failed each member is awaited or keeps its shard. -/
structure Storing (C : EcConfig) (s : EcState) (g : ℕ) (j : EcJoin) (targets : List UInt8)
    (req : ℕ → BodyReq) (es : List EcEvent) : Prop where
  wf : s.Wf C
  join : s.io.join? g = some j
  kind : j.kind = .put
  counts : j.ack + j.fail + (s.io.tickets g).length = j.need
  heard : j.fail = 0 → ∀ i t, targets[i]? = some t →
    AwaitedOf s g t (req i) ∨ Kept s es t (req i)

theorem Kept.mono {t : UInt8} {q : BodyReq} (h : Kept s es t q) (hsent : s.io.sent <+: s'.io.sent)
    (hes : es ⊆ es') : Kept s' es' t q := by
  obtain ⟨cid, r, hq, ha⟩ := h
  exact ⟨cid, r, hsent.subset hq, hes ha⟩

/-- A store's answer closes its join refused, or counts, or is the last. -/
theorem answerPut_cases (s : EcState) (g : ℕ) (j : EcJoin) (resp : BodyResp) :
    ((answerPut s g j resp).io.join? g = none ∧
        ∃ err, (answerPut s g j resp).up = s.up ++ [(j.upCid, .nak err)]) ∨
      j.fail = 0 ∧ ∃ r, resp = .putKeyed r ∧
        (j.ack + 1 = j.need ∧ (answerPut s g j resp).io.join? g = none ∧
            (answerPut s g j resp).up = s.up ++ [(j.upCid, .put (some j.digest))] ∨
          answerPut s g j resp = s.setJoin g fun _ => { j with ack := j.ack + 1 }) := by
  by_cases hop : resp.op = some .putKeyed
  · obtain ⟨r, rfl⟩ : ∃ r, resp = .putKeyed r := by
      cases resp <;> simp [BodyResp.op] at hop
      exact ⟨_, rfl⟩
    have hnote : j.notePut (.putKeyed r) = { j with ack := j.ack + 1 } := rfl
    rw [answerPut, hnote]
    dsimp only
    split
    · -- a target had refused the question
      exact .inl ⟨Fanout.join?_close _ _, _, rfl⟩
    next hfail =>
    refine .inr ⟨Nat.eq_zero_of_not_pos hfail, r, rfl, ?_⟩
    split
    · next hall => exact .inl ⟨hall, Fanout.join?_close _ _, rfl⟩
    · exact .inr rfl
  · have hnote : j.notePut resp = { j with fail := j.fail + 1 } := if_neg hop
    rw [answerPut, hnote]
    dsimp only
    rw [if_pos (Nat.succ_pos _)]
    exact .inl ⟨Fanout.join?_close _ _, _, rfl⟩

variable (es) in
/-- A member that was awaited when a ticket was spent is awaited still, or keeps
its shard: the ticket was its own. -/
theorem AwaitedOf.spent {r : Option Digest} {t : UInt8} {q : BodyReq} (hs : s.Wf C)
    (h : AwaitedOf s k.join t q) (hk : e.spends s.io = some (k, io, .putKeyed r)) :
    Kept (ecStep C N s e) (es ++ [e]) t q ∨
      ∃ k' ∈ io.tickets k.join, k'.peer = t
        ∧ (⟨k'.cid, t, q⟩ : Question UInt8 BodyReq) ∈ s.io.sent := by
  obtain ⟨k', hk', hpeer, hq⟩ := h
  have hspends := spends_spec hk
  by_cases heq : k'.cid = k.cid
  · have hsame := hspends.eq_of_cid hs.sound (Fanout.mem_tickets.mp hk').1 heq
    subst hsame
    refine .inl ⟨k'.cid, r, (ecStep_sent hs e).subset hq, ?_⟩
    rw [← hpeer, answer_of_spends hk (by simp)]
    simp
  · refine .inr ⟨k', ?_, hpeer, hq⟩
    rw [hspends.tickets]
    simp [hk', heq]

/-- **A store's join takes an event**: it goes on, or closes refused, or closes
acknowledged with every member keeping its shard. -/
theorem Storing.step (h : Storing C s g j targets req es) (e : EcEvent) :
    ((∃ j', j.Like j' ∧ Storing C (ecStep C N s e) g j' targets req (es ++ [e])) ∧
        ∀ k io resp, e.spends s.io = some (k, io, resp) → k.join = g →
          (ecStep C N s e).up = s.up) ∨
      (ecStep C N s e).io.join? g = none ∧
        ((∃ err, (ecStep C N s e).up = s.up ++ [(j.upCid, .nak err)]) ∨
          (ecStep C N s e).up = s.up ++ [(j.upCid, .put (some j.digest))] ∧
            ∀ i t, targets[i]? = some t → Kept (ecStep C N s e) (es ++ [e]) t (req i)) := by
  have hsub : es ⊆ es ++ [e] := List.subset_append_left es [e]
  have hsent := ecStep_sent (N := N) h.wf e
  by_cases hspent : ∃ k io resp, e.spends s.io = some (k, io, resp) ∧ k.join = g
  · obtain ⟨k, io, resp, hk, rfl⟩ := hspent
    have hspends := spends_spec hk
    have hj : io.join? k.join = some j := (hspends.join? _).trans h.join
    have hstep : ecStep C N s e = answerPut { s with io := io } k.join j resp := by
      rw [ecStep_of_spends hk, answerJoin]
      simp only [hj, applyJoinResponse, h.kind]
    have hcount := hspends.length_tickets h.wf.sound
    have hcounts := h.counts
    rcases answerPut_cases { s with io := io } k.join j resp with
      ⟨hclosed, err, hup⟩ | ⟨hzero, r, rfl, ⟨hall, hclosed, hup⟩ | hon⟩
    · exact .inr ⟨hstep ▸ hclosed, .inl ⟨err, hstep ▸ hup⟩⟩
    · -- no ticket is left: every member has answered
      have hnil : io.tickets k.join = [] := List.eq_nil_of_length_eq_zero (by omega)
      refine .inr ⟨hstep ▸ hclosed, .inr ⟨hstep ▸ hup, fun i t hi => ?_⟩⟩
      rcases h.heard hzero i t hi with hawaited | hkept
      · rcases hawaited.spent (N := N) es h.wf hk with hkept | ⟨k', hk', -⟩
        · exact hkept
        rw [hnil] at hk'
        cases hk'
      · exact hkept.mono hsent hsub
    · -- more answers are awaited
      have hstep' := hstep.trans hon
      refine .inl ⟨⟨{ j with ack := j.ack + 1 }, ⟨rfl, rfl, rfl, rfl, rfl⟩, ecStep_wf h.wf e, ?_,
        h.kind, ?_, fun _ i t hi => ?_⟩, fun _ _ _ _ _ => by rw [hstep']; rfl⟩
      · rw [hstep']
        exact join?_setJoin hj _
      · rw [hstep']
        change j.ack + 1 + j.fail + (io.tickets k.join).length = j.need
        omega
      · rcases h.heard hzero i t hi with hawaited | hkept
        · rcases hawaited.spent (N := N) es h.wf hk with hkept | ⟨k', hk', hpeer, hq⟩
          · exact .inr hkept
          refine .inl ⟨k', ?_, hpeer, hsent.subset hq⟩
          rw [hstep']
          exact hk'
        · exact .inr (hkept.mono hsent hsub)
  · -- the event is about another join
    have hsame := (ecStep_same (N := N) (e := e) h.wf (Fanout.join?_lt h.wf.sound h.join)
      fun k io resp hk hg => hspent ⟨k, io, resp, hk, hg⟩).1
    refine .inl ⟨⟨j, .refl j, ecStep_wf h.wf e, hsame.1.trans h.join, h.kind, ?_,
      fun hz i t hi => ?_⟩, fun k io resp hk hg => absurd ⟨k, io, resp, hk, hg⟩ hspent⟩
    · rw [hsame.2]
      exact h.counts
    · refine (h.heard hz i t hi).imp ?_ fun hkept => hkept.mono hsent hsub
      rintro ⟨k, hk, hpeer, hq⟩
      exact ⟨k, hsame.2 ▸ hk, hpeer, hsent.subset hq⟩

/-- What the member ranked at a place is told to store. -/
def shardReq (C : EcConfig) (body : Bytes) (shards : List Bytes) (i : ℕ) : BodyReq :=
  .putKeyed (deriveShardKey C.sha (C.sha body) i) (shardBlob C body shards i)

/-- **A store opens**: each of its targets is awaited, unless one refused the
question. -/
theorem OpensPut.storing {body : Bytes} {enc : List Bytes} {new : List (Ticket UInt8)} {fail : ℕ}
    (h : OpensPut C s body enc g new fail s') (hwf : s'.Wf C) (es : List EcEvent) :
    ∃ j, s'.io.join? g = some j ∧
      Storing C s' g j (rankTargets C s.fleet (C.sha body)) (shardReq C body enc) es := by
  refine ⟨_, h.opens.join, hwf, h.opens.join, rfl, ?_, fun hz i t hi => ?_⟩
  · have := h.count
    rw [h.opens.tickets]
    change 0 + fail + new.length = (rankTargets C s.fleet (C.sha body)).length
    omega
  · -- nobody refused: the tickets are the targets'
    have hfail : fail = 0 := hz
    have hpeers : new.map Ticket.peer = rankTargets C s.fleet (C.sha body) :=
      h.peers.eq_of_length (by rw [List.length_map]; have := h.count; omega)
    have hmem : t ∈ new.map Ticket.peer := hpeers ▸ List.mem_of_getElem? hi
    obtain ⟨k, hk, hpeer⟩ := List.mem_map.mp hmem
    obtain ⟨i', hi', hq⟩ := h.asked k hk
    rw [hpeer] at hi'
    obtain ⟨hlt, -⟩ := List.getElem?_eq_some_iff.mp hi
    have hsame : i = i' := (List.getElem?_inj hlt nodup_rankTargets).mp (hi.trans hi'.symm)
    subst hsame
    rw [hpeer] at hq
    exact .inl ⟨k, by rw [h.opens.tickets]; exact hk, hpeer, hq⟩

/-- A store of a run: its body was coded, within the ceiling, for the fleet of
its time. -/
structure StoreOf (C : EcConfig) (run : List EcEvent → EcState) (es es₀ : List EcEvent) (c : UInt32)
    (body : Bytes) (enc : List Bytes) : Prop where
  request : ∃ es₁, es = es₀ ++ .request c (.put body) :: es₁
  coded : encode body C.k C.m = some enc
  fits : body.length ≤ maxBody
  targets : rankTargets C (run es₀).fleet (C.sha body) ≠ []

theorem StoreOf.snoc {es₀ : List EcEvent} {c : UInt32} {body : Bytes} {enc : List Bytes}
    (h : StoreOf C (ecRun C N) es es₀ c body enc) (e : EcEvent) :
    StoreOf C (ecRun C N) (es ++ [e]) es₀ c body enc := by
  obtain ⟨es₁, rfl⟩ := h.request
  exact ⟨⟨es₁ ++ [e], by simp⟩, h.coded, h.fits, h.targets⟩

/-- A store of a run, with every ranked member keeping its shard. -/
def KeptBody (C : EcConfig) (run : List EcEvent → EcState) (es es₀ : List EcEvent) (body : Bytes)
    (enc : List Bytes) : Prop :=
  ∀ i t, (rankTargets C (run es₀).fleet (C.sha body))[i]? = some t →
    Kept (run es) es t (shardReq C body enc i)

/-- What a run keeps of its stores: those in hand go on, and those acknowledged
are kept. -/
structure Stores (C : EcConfig) (N : ℕ → Bool) (es : List EcEvent) : Prop where
  joins : ∀ g j, (ecRun C N es).io.join? g = some j → j.kind = .put →
    ∃ es₀ body enc, StoreOf C (ecRun C N) es es₀ j.upCid body enc ∧ C.sha body = j.digest ∧
      Storing C (ecRun C N es) g j (rankTargets C (ecRun C N es₀).fleet (C.sha body))
        (shardReq C body enc) es
  acked : ∀ c p, (c, .put p) ∈ (ecRun C N es).up →
    ∃ es₀ body enc, StoreOf C (ecRun C N) es es₀ c body enc ∧ p = some (C.sha body) ∧
      KeptBody C (ecRun C N) es es₀ body enc

theorem stores_opened (hs : s.Wf C) (hge : s.io.nextGen ≤ g)
    {c : UInt32} {body : Bytes}
    (hj : (ecStep C N s (.request c (.put body))).io.join? g = some j) (es : List EcEvent) :
    ∃ enc, encode body C.k C.m = some enc ∧ body.length ≤ maxBody ∧
      rankTargets C s.fleet (C.sha body) ≠ [] ∧
      Storing C (ecStep C N s (.request c (.put body))) g j
        (rankTargets C s.fleet (C.sha body)) (shardReq C body enc) es := by
  have hwf := ecStep_wf (N := N) hs (.request c (.put body))
  obtain ⟨e, heq⟩ | ⟨enc, g₁, new, fail, s', hput, heq⟩ :=
    handlePut_cases (C := C) (N := N) (s := { s with upCid := c }) hs.sound body
  all_goals
    change ecStep C N s (.request c (.put body)) = _ at heq
    rw [heq] at hj hwf ⊢
  · exact (hs.none_ge hge hj).elim
  · split at hj
    · next hnone =>
      obtain ⟨rfl, -⟩ := hput.opens.only hge (Fanout.join?_of_close hj)
      exact absurd (hj.symm.trans (Fanout.join?_close _ _)) (by simp)
    next hsome =>
    rw [if_neg hsome] at hwf ⊢
    obtain ⟨rfl, rfl⟩ := hput.opens.only hge hj
    obtain ⟨j', hj', hstoring⟩ := hput.storing hwf es
    cases hj.symm.trans hj'
    exact ⟨enc, hput.coded, hput.fits, hput.targets, hstoring⟩

/-- **A run keeps it.** -/
theorem stores_run (es : List EcEvent) : Stores C N es := by
  induction es using List.reverseRecOn with
  | nil => exact ⟨fun g j hj => (by cases hj), fun c p h => (by cases h)⟩
  | append_singleton es e ih =>
    have hwf := (heard_run (C := C) (N := N) es).wf
    have hrun := ecRun_snoc (C := C) (N := N) es e
    have hsub : es ⊆ es ++ [e] := List.subset_append_left es [e]
    refine ⟨fun g j hj hk => ?_, fun c p h => ?_⟩
    · rw [hrun] at hj ⊢
      by_cases hlt : g < (ecRun C N es).io.nextGen
      · obtain ⟨j₀, hj₀, hl⟩ := ecStep_like hwf e hlt hj
        obtain ⟨es₀, body, enc, hof, hd, hstoring⟩ := ih.joins g j₀ hj₀ (hl.kind ▸ hk)
        rcases hstoring.step (N := N) e with ⟨⟨j', hl', hstoring'⟩, -⟩ | ⟨hclosed, -⟩
        · cases hj.symm.trans hstoring'.join
          exact ⟨es₀, body, enc, hl.upCid ▸ hof.snoc e, hl.digest ▸ hd, hstoring'⟩
        · rw [hclosed] at hj
          cases hj
      · obtain ⟨-, req, rfl, hfor, -⟩ := ecStep_opened hwf e (Nat.le_of_not_lt hlt) hj (.inl hk)
        rcases hfor with ⟨-, body, rfl, hd⟩ | ⟨hget, -⟩
        · obtain ⟨enc, henc, hfits, htargets, hstoring⟩ := stores_opened hwf
            (Nat.le_of_not_lt hlt) hj (es ++ [.request j.upCid (.put body)])
          exact ⟨es, body, enc, ⟨⟨[], rfl⟩, henc, hfits, htargets⟩, hd, hstoring⟩
        · rw [hk] at hget
          cases hget
    · have hold : (c, .put p) ∈ (ecRun C N es).up → ∃ es₀ body enc,
          StoreOf C (ecRun C N) (es ++ [e]) es₀ c body enc ∧ p = some (C.sha body) ∧
            KeptBody C (ecRun C N) (es ++ [e]) es₀ body enc := by
        intro h
        obtain ⟨es₀, body, enc, hof, hp, hkept⟩ := ih.acked c p h
        refine ⟨es₀, body, enc, hof.snoc e, hp, fun i t hi => ?_⟩
        rw [hrun]
        exact (hkept i t hi).mono (ecStep_sent hwf e) hsub
      rw [hrun] at h
      rcases says_ecStep hwf e _ h with h | h | ⟨k, io, resp, j, hspends, hj, hans⟩
      · exact hold h
      · exact absurd rfl (h.1 p)
      · rcases hans with h | ⟨hk, heq⟩ | ⟨-, body, -, heq⟩
        · exact absurd rfl (h.1 p)
        · cases heq
          obtain ⟨es₀, body, enc, hof, hd, hstoring⟩ := ih.joins _ j hj hk
          rcases hstoring.step (N := N) e with ⟨-, hup⟩ | ⟨-, ⟨err, hup⟩ | ⟨hup, hkept⟩⟩
          · exact hold (hup k io resp hspends rfl ▸ h)
          · rw [hup] at h
            exact hold (by simpa using h)
          · refine ⟨es₀, body, enc, hof.snoc e, congrArg some hd.symm, fun i t hi => ?_⟩
            rw [hrun]
            exact hkept i t hi
        · cases heq

end Stores

/-! ## Reads -/

/-- An event brings a join the shard its sender, ranked among the targets, was
told to store. -/
def EcEvent.brings (C : EcConfig) (targets : List UInt8) (body : Bytes) (enc : List Bytes) (g : ℕ)
    (s : EcState) (e : EcEvent) : Bool :=
  match e.spends s.io with
  | some (k, _, .get (some blob)) => k.join == g
      && decide (∃ i < targets.length, targets[i]? = some k.peer ∧ blob = shardBlob C body enc i)
  | _ => false

/-- Of the answers a join takes, an event's is the shard its sender was told to
store, or no shard at all. -/
def EcEvent.Fair (C : EcConfig) (targets : List UInt8) (body : Bytes) (enc : List Bytes) (g : ℕ)
    (s : EcState) (e : EcEvent) : Prop :=
  ∀ k io blob, e.spends s.io = some (k, io, .get blob) → k.join = g →
    e.brings C targets body enc g s = true

section Reads

variable {C : EcConfig} {N : ℕ → Bool} {s s' : EcState} {e : EcEvent} {g : ℕ} {j j' : EcJoin}
  {k : Ticket UInt8} {io : EcIo} {resp : BodyResp} {targets : List UInt8} {body : Bytes}
  {enc : List Bytes} {es : List EcEvent} {a : Assembly} {t : UInt8} {i : ℕ}

/-- The assembly of a read of a stored body: what it gathered are the body's
shards. -/
structure Assembly.Holds (C : EcConfig) (a : Assembly) (body : Bytes) (enc : List Bytes) : Prop where
  digest : a.digest = C.sha body
  shards : ∀ i b, a.shards i = some b → b = enc.getD i []
  /-- So are the lengths, once there is a shard. -/
  lens : a.shardLen = 0 ∨ a.shardLen = shardLenFor body.length C.k ∧ a.bodyLen = body.length

/-- The assembly with one more of the body's shards. -/
def Assembly.with (a : Assembly) (C : EcConfig) (body : Bytes) (enc : List Bytes) (i : ℕ) :
    Assembly :=
  { a with shardLen := shardLenFor body.length C.k, bodyLen := body.length
           shards := Function.update a.shards i (some (enc.getD i [])) }

theorem Assembly.Holds.with (h : a.Holds C body enc) (i : ℕ) :
    (a.with C body enc i).Holds C body enc := by
  refine ⟨h.digest, fun i' b hb => ?_, .inr ⟨rfl, rfl⟩⟩
  by_cases hi : i' = i
  · subst hi
    simpa [Assembly.with] using hb.symm
  · exact h.shards i' b (by simpa [Assembly.with, Function.update_of_ne hi] using hb)

/-- A body within the ceiling has shards that fit. -/
theorem shardLenFor_le (C : EcConfig) {n : ℕ} (h : n ≤ maxBody) :
    0 < shardLenFor n C.k ∧ shardLenFor n C.k ≤ shardSlot := by
  have htwo := C.two_le
  have hk : C.k ≠ 0 := by omega
  rw [shardLenFor, if_neg hk]
  refine ⟨Nat.lt_of_lt_of_le Nat.one_pos (Nat.le_max_right _ _), Nat.max_le.mpr ⟨?_, by decide⟩⟩
  -- two data shards at least
  refine Nat.le_of_lt_succ ((Nat.div_lt_iff_lt_mul (by omega)).mpr ?_)
  calc n + C.k - 1 < maxBody + C.k := by omega
    _ ≤ shardSlot * C.k + C.k := Nat.add_le_add_right
        (Nat.le_trans (by decide : maxBody ≤ shardSlot * 2) (Nat.mul_le_mul_left _ htwo)) _
    _ = (shardSlot + 1) * C.k := (Nat.succ_mul _ _).symm

/-- A stored shard is read back with its header. -/
theorem decode_shardBlob (henc : encode body C.k C.m = some enc) (hfits : body.length ≤ maxBody)
    (hi : i < C.k + C.m) :
    decodeShardHeader (shardBlob C body enc i) =
        some ⟨C.k, C.m, i, body.length, C.sha body, shardLenFor body.length C.k⟩ ∧
      shardPayload (shardBlob C body enc i) = some (enc.getD i []) := by
  have hmax : C.k + C.m ≤ 16 := C.le_max
  have hbody : body.length ≤ 61440 := hfits
  have hslot : shardLenFor body.length C.k ≤ 30720 := (shardLenFor_le C hfits).2
  have hshard := length_shard_of_encode henc hi
  have hk : C.k < 256 := by omega
  have hm : C.m < 256 := by omega
  have hi : i < 256 := by omega
  have hb : body.length < 2 ^ 32 := by omega
  have hs : (enc.getD i []).length < 2 ^ 32 := by omega
  have hhdr : decodeShardHeader (shardBlob C body enc i) =
      some ⟨C.k, C.m, i, body.length, C.sha body, (enc.getD i []).length⟩ :=
    decodeShardHeader_encode hk hm hi hb hs
  exact ⟨hshard ▸ hhdr, shardPayload_encode hk hm hi hb hs⟩

/-- **The shard a member stored is taken.** -/
theorem accept_shardBlob (henc : encode body C.k C.m = some enc) (hfits : body.length ≤ maxBody)
    (h : a.Holds C body enc) (hlen : targets.length = C.k + C.m) (hnodup : targets.Nodup)
    (hi : targets[i]? = some t) :
    a.accept C targets t (some (shardBlob C body enc i)) = some (a.with C body enc i) := by
  obtain ⟨hlt, hget⟩ := List.getElem?_eq_some_iff.mp hi
  obtain ⟨hpos, hslot⟩ := shardLenFor_le C hfits
  obtain ⟨hhdr, hpay⟩ := decode_shardBlob henc hfits (hlen ▸ hlt)
  have hle := length_le_shards (k := C.k) (by have := C.two_le; omega) body.length
  have hfind : targets.findIdx? (fun t' => t' = t) = some i := by
    refine List.findIdx?_eq_some_iff_getElem.mpr ⟨hlt, by simpa using hget, fun i' hi' => ?_⟩
    simpa using fun heq => (Nat.ne_of_lt hi') (hnodup.getElem_inj_iff.mp (heq.trans hget.symm))
  unfold Assembly.accept
  simp only [hfind, hhdr, hpay, Option.bind_eq_bind, Option.bind_some]
  rw [if_neg (by simp [h.digest, Nat.not_lt.mpr hslot, Nat.ne_of_gt hpos])]
  split
  · rw [if_neg (by simp [Nat.not_lt.mpr hfits, Nat.not_lt.mpr hle])]
    rfl
  · next hlens =>
    obtain ⟨h1, h2⟩ := h.lens.resolve_left hlens
    rw [if_neg (by simp [h1, h2])]
    simp [Assembly.with, h1, h2]

/-- **Enough of the body's shards give it back.** -/
theorem rebuild_holds (henc : encode body C.k C.m = some enc) (h : a.Holds C body enc)
    (hlen : a.shardLen ≠ 0) (hk : C.k ≤ a.gathered C) : a.rebuild C = some (enc, body) := by
  obtain ⟨h1, h2⟩ := h.lens.resolve_left hlen
  have hrec : reconstruct ((List.range (C.k + C.m)).map fun i => (a.shards i).getD [])
      (fun i => (a.shards i).isSome) (shardLenFor body.length C.k) C.k C.m = some enc := by
    refine reconstruct_encode henc (fun i hi hp => ?_) hk
    obtain ⟨b, hb⟩ := Option.isSome_iff_exists.mp hp
    rw [← h.shards i b hb]
    simp [List.getD_eq_getElem?_getD, hi, hb]
  unfold Assembly.rebuild
  simp only [h1, hrec, h2, bodyOf_encode henc, h.digest, if_true]

/-! ### The tickets a read has left -/

/-- A read's join, or one that closed, is asked nothing more: a ticket spent is
one fewer. -/
theorem ecStep_tickets (hs : s.Wf C) (hlt : g < s.io.nextGen)
    (hk : ∀ j, s.io.join? g = some j → j.kind = .get) :
    ((ecStep C N s e).io.tickets g).length + e.spendsOf g s = (s.io.tickets g).length := by
  by_cases hspent : ∃ k io resp, e.spends s.io = some (k, io, resp) ∧ k.join = g
  · obtain ⟨k, io, resp, h, rfl⟩ := hspent
    have hspends := spends_spec h
    have hkeep : (ecStep C N s e).io.awaited = io.awaited := by
      rw [ecStep_of_spends h, answerJoin]
      split
      · rfl
      next j hj =>
      have hj' : s.io.join? k.join = some j := (hspends.join? _).symm.trans hj
      rw [applyJoinResponse, hk j hj']
      exact (answerGet_keeps (about_spends hs hspends).wf hj (hk j hj')).2
    have hone : e.spendsOf k.join s = 1 := by simp [EcEvent.spendsOf, h]
    rw [hone, Fanout.tickets, hkeep]
    exact hspends.length_tickets hs.sound
  · have hzero : e.spendsOf g s = 0 := by
      unfold EcEvent.spendsOf
      split
      · next k p h => exact if_neg fun hg => hspent ⟨_, _, _, h, hg⟩
      · rfl
    rw [hzero, (ecStep_same hs hlt fun k io resp h hg => hspent ⟨k, io, resp, h, hg⟩).1.2]
    rfl

theorem brings_le_spendsOf : (if e.brings C targets body enc g s then 1 else 0) ≤ e.spendsOf g s := by
  unfold EcEvent.brings EcEvent.spendsOf
  split
  · next k io blob h =>
    by_cases hg : k.join = g
    · rw [h]
      simp only [hg, if_true]
      split <;> omega
    · simp [hg]
  · exact Nat.zero_le _

/-- The shards a read is brought are no more than its tickets. -/
theorem brought_le (hs : s.Wf C) (hlt : g < s.io.nextGen)
    (hk : ∀ j, s.io.join? g = some j → j.kind = .get) (es : List EcEvent) :
    Run.countSteps (ecStep C N) (EcEvent.brings C targets body enc g) s es
      ≤ (s.io.tickets g).length := by
  induction es generalizing s with
  | nil => exact Nat.zero_le _
  | cons e es ih =>
    have hkind : ∀ j, (ecStep C N s e).io.join? g = some j → j.kind = .get := by
      intro j hj
      obtain ⟨j₀, hj₀, hl⟩ := ecStep_like hs e hlt hj
      exact hl.kind.trans (hk j₀ hj₀)
    have hrest := ih (ecStep_wf hs e) (Nat.lt_of_lt_of_le hlt (ecStep_nextGen hs e)) hkind
    have hstep := ecStep_tickets (N := N) (e := e) hs hlt hk
    have hone : (if e.brings C targets body enc g s then 1 else 0) ≤ e.spendsOf g s :=
      brings_le_spendsOf
    rw [Run.countSteps]
    omega

/-! ### A read of a stored body -/

/-- A read's join, while it is in hand: it has a ticket, a shard or a failure
for each target, and the shards are the body's. -/
structure Reading (C : EcConfig) (s : EcState) (g : ℕ) (j : EcJoin) (targets : List UInt8)
    (body : Bytes) (enc : List Bytes) : Prop where
  wf : s.Wf C
  join : s.io.join? g = some j
  kind : j.kind = .get
  targets : j.targets = targets
  counts : s.asm.gathered C < C.k ∧ j.fail ≤ C.m
    ∧ s.asm.gathered C + j.fail + (s.io.tickets g).length = C.k + C.m
  holds : s.asm.Holds C body enc

theorem brings_eq_true (h : e.brings C targets body enc g s = true) :
    ∃ k io i, e.spends s.io = some (k, io, .get (some (shardBlob C body enc i))) ∧ k.join = g
      ∧ targets[i]? = some k.peer := by
  unfold EcEvent.brings at h
  split at h
  · next k io blob hk =>
    simp only [Bool.and_eq_true, beq_iff_eq, decide_eq_true_eq] at h
    obtain ⟨hg, i, -, hi, rfl⟩ := h
    exact ⟨k, io, i, hk, hg, hi⟩
  · cases h

/-- An event about another join leaves a read alone. -/
theorem Reading.other (h : Reading C s g j targets body enc)
    (hne : ∀ k io resp, e.spends s.io = some (k, io, resp) → k.join ≠ g) :
    Reading C (ecStep C N s e) g j targets body enc ∧ (ecStep C N s e).asm = s.asm
      ∧ e.brings C targets body enc g s = false := by
  obtain ⟨hbusy, hown, -⟩ := h.wf.owner g j h.join (by rw [h.kind]; rfl)
  obtain ⟨hsame, hasm⟩ := ecStep_same (N := N) h.wf (Fanout.join?_lt h.wf.sound h.join) hne
  have hasm := hasm hbusy hown
  refine ⟨⟨ecStep_wf h.wf e, hsame.1.trans h.join, h.kind, h.targets, ?_, hasm ▸ h.holds⟩, hasm, ?_⟩
  · rw [hasm, hsame.2]
    exact h.counts
  · by_contra hb
    obtain ⟨k, io, i, hk, hg, -⟩ := brings_eq_true (by simpa using hb)
    exact hne k io _ hk hg

/-- A refusal is one of the `m` a read can bear. -/
theorem Reading.refused (h : Reading C s g j targets body enc)
    (hk : e.spends s.io = some (k, io, resp)) (hg : k.join = g) (hr : ∀ blob, resp ≠ .get blob)
    (hfew : j.fail + 1 ≤ C.m) :
    (∃ j', j.Like j' ∧ Reading C (ecStep C N s e) g j' targets body enc)
      ∧ (ecStep C N s e).asm = s.asm := by
  subst hg
  have hspends := spends_spec hk
  have hj : io.join? k.join = some j := (hspends.join? _).trans h.join
  have hcount := hspends.length_tickets h.wf.sound
  obtain ⟨hlow, -, hsum⟩ := h.counts
  have hstep : ecStep C N s e = EcState.setJoin { s with io := io } k.join fun j =>
      { j with fail := j.fail + 1 }.noteErrno resp.errno := by
    rw [ecStep_of_spends hk, answerJoin]
    simp only [hj, applyJoinResponse, h.kind]
    unfold answerGet
    split
    · next blob => exact absurd rfl (hr blob)
    · rw [if_neg (Nat.not_lt.mpr hfew)]
  have hnote := noteErrno_like { j with fail := j.fail + 1 } resp.errno
  have hfail : ({ j with fail := j.fail + 1 }.noteErrno resp.errno).fail = j.fail + 1 := by
    unfold EcJoin.noteErrno
    repeat' split
    all_goals rfl
  have hwf := ecStep_wf (N := N) h.wf e
  refine ⟨⟨_, ⟨hnote.kind, hnote.upCid, hnote.digest, hnote.targets, hnote.need⟩, hwf, ?_,
    hnote.kind.trans h.kind, hnote.targets.trans h.targets, ?_, ?_⟩, ?_⟩
  · rw [hstep]
    exact join?_setJoin hj _
  · rw [hfail, hstep]
    change s.asm.gathered C < C.k ∧ j.fail + 1 ≤ C.m ∧
      s.asm.gathered C + (j.fail + 1) + (io.tickets k.join).length = C.k + C.m
    omega
  · rw [hstep]
    exact h.holds
  · rw [hstep]
    rfl

/-- **A stored shard** is one more of the `k` a read needs, or the last. -/
theorem Reading.brought (h : Reading C s g j targets body enc)
    (henc : encode body C.k C.m = some enc) (hfits : body.length ≤ maxBody)
    (hnodup : targets.Nodup) (hb : e.brings C targets body enc g s = true) :
    (Reading C (ecStep C N s e) g j targets body enc
        ∧ (ecStep C N s e).asm.gathered C = s.asm.gathered C + 1) ∨
      (ecStep C N s e).io.join? g = none
        ∧ (ecStep C N s e).up = s.up ++ [(j.upCid, .get (some body))] := by
  obtain ⟨k, io, i, hk, rfl, hi⟩ := brings_eq_true hb
  have hspends := spends_spec hk
  have hj : io.join? k.join = some j := (hspends.join? _).trans h.join
  have hcount := hspends.length_tickets h.wf.sound
  obtain ⟨hlow, hbear, hsum⟩ := h.counts
  obtain ⟨hlen, -, -⟩ := h.wf.reads k.join j h.join h.kind
  have hnew := (h.wf.spent hspends h.join h.kind).2
  have haccept := accept_shardBlob henc hfits h.holds (h.targets ▸ hlen) hnodup hi
  rw [← h.targets] at haccept
  obtain ⟨i', hdr, shard, htakes⟩ := accept_eq_some haccept
  have hone := htakes.gathered hlen (hnew i' htakes.index)
  have hint : s.asm.internal = false := by
    rw [(h.wf.owner k.join j h.join (by rw [h.kind]; rfl)).2.2, h.kind]
    rfl
  have hint' : (s.asm.with C body enc i).internal = false := hint
  have hstep : ecStep C N s e =
      (assemblyTakeShard C N { s with io := io } k.join j k.peer
        (some (shardBlob C body enc i))).1 := by
    rw [ecStep_of_spends hk, answerJoin]
    simp only [hj, applyJoinResponse, h.kind, answerGet]
  unfold assemblyTakeShard at hstep
  simp only [haccept] at hstep
  split at hstep
  · next hfew =>
    have hwf := ecStep_wf (N := N) h.wf e
    refine .inl ⟨⟨hwf, ?_, h.kind, h.targets, ?_, ?_⟩, ?_⟩
    all_goals rw [hstep]
    · exact hj
    · change (s.asm.with C body enc i).gathered C < C.k ∧ j.fail ≤ C.m ∧
        (s.asm.with C body enc i).gathered C + j.fail + (io.tickets k.join).length = C.k + C.m
      omega
    · exact h.holds.with i
    · exact hone
  · next henough =>
    have hpos := (shardLenFor_le C hfits).1
    have hrebuild := rebuild_holds henc (h.holds.with i) (Nat.ne_of_gt hpos)
      (Nat.le_of_not_lt henough)
    simp only [hrebuild, hint', Bool.false_eq_true, if_false] at hstep
    refine .inr ⟨?_, ?_⟩
    all_goals rw [hstep]
    · exact Fanout.join?_close _ _
    · rfl

/-- **A read that `k` members answer with the shards they stored** answers the
body, whatever the order and whatever the others refuse. -/
theorem Reading.run (h : Reading C s g j targets body enc) (henc : encode body C.k C.m = some enc)
    (hfits : body.length ≤ maxBody) (hnodup : targets.Nodup)
    (hfair : Run.AllSteps (ecStep C N) (EcEvent.Fair C targets body enc g) s es)
    (hk : C.k ≤ s.asm.gathered C
      + Run.countSteps (ecStep C N) (EcEvent.brings C targets body enc g) s es) :
    ClosesWith (ecStep C N) g (j.upCid, .get (some body)) s es := by
  induction es generalizing s j with
  | nil => exact absurd hk (Nat.not_le.mpr h.counts.1)
  | cons e es ih =>
    obtain ⟨hok, hfair⟩ := hfair
    have hin : s.io.join? g ≠ none := by simp [h.join]
    rw [Run.countSteps] at hk
    by_cases hspent : ∃ k io resp, e.spends s.io = some (k, io, resp) ∧ k.join = g
    · by_cases hb : e.brings C targets body enc g s = true
      · rcases h.brought (N := N) henc hfits hnodup hb with ⟨hon, hone⟩ | ⟨hclosed, hup⟩
        · refine .inr (ih hon hfair ?_)
          rw [hone]
          simp only [hb, if_true] at hk
          omega
        · exact .inl ⟨hin, hclosed, hup⟩
      · obtain ⟨k, io, resp, hks, hg⟩ := hspent
        have hr : ∀ blob, resp ≠ .get blob := by
          rintro blob rfl
          exact hb (hok k io blob hks hg)
        -- the members yet to bring a shard have a ticket each
        have hlt := Fanout.join?_lt h.wf.sound h.join
        have hkind : ∀ j', s.io.join? g = some j' → j'.kind = .get := fun j' hj' => by
          cases h.join.symm.trans hj'
          exact h.kind
        have hleft : Run.countSteps (ecStep C N) (EcEvent.brings C targets body enc g)
            (ecStep C N s e) es ≤ ((ecStep C N s e).io.tickets g).length := by
          refine brought_le (ecStep_wf h.wf e) (Nat.lt_of_lt_of_le hlt (ecStep_nextGen h.wf e))
            (fun j' hj' => ?_) es
          obtain ⟨j₀, hj₀, hl⟩ := ecStep_like h.wf e hlt hj'
          exact hl.kind.trans (hkind j₀ hj₀)
        have hone := ecStep_tickets (N := N) (e := e) h.wf hlt hkind
        have hspends : e.spendsOf g s = 1 := by simp [EcEvent.spendsOf, hks, hg]
        obtain ⟨hlow, hbear, hsum⟩ := h.counts
        rw [if_neg hb] at hk
        obtain ⟨⟨j', hl, hon⟩, hasm⟩ := h.refused (N := N) hks hg hr (by omega)
        have hclose := ih hon hfair (by rw [hasm]; omega)
        rw [hl.upCid] at hclose
        exact .inr hclose
    · obtain ⟨hon, hasm, hb⟩ := h.other (N := N) (e := e)
        fun k io resp hk hg => hspent ⟨k, io, resp, hk, hg⟩
      refine .inr (ih hon hfair ?_)
      rw [hasm]
      rw [hb] at hk
      simpa using hk

/-- A read of a body stored on `targets`, taken in a state, asks them for the
keys of their shards; and once `k` of them have brought the shards they were
told to store, it answers the body. -/
def ReadsBack (C : EcConfig) (step : EcState → EcEvent → EcState) (s : EcState) (cid : UInt32)
    (targets : List UInt8) (body : Bytes) (enc : List Bytes) (es : List EcEvent) : Prop :=
  ∀ s', s' = step s (.request cid (.get (C.sha body))) → s'.io.join? s.io.nextGen ≠ none →
    (∀ k ∈ s'.io.tickets s.io.nextGen, ∃ i, targets[i]? = some k.peer ∧
      (⟨k.cid, k.peer, .get (deriveShardKey C.sha (C.sha body) i)⟩ : Question UInt8 BodyReq)
        ∈ s'.io.sent) ∧
    (Run.AllSteps step (EcEvent.Fair C targets body enc s.io.nextGen) s' es →
      C.k ≤ Run.countSteps step (EcEvent.brings C targets body enc s.io.nextGen) s' es →
      ClosesWith step s.io.nextGen (cid, .get (some body)) s' es)

variable (enc) in
/-- A read that was opened gathers the shards of the body. -/
theorem OpensGet.reading {new : List (Ticket UInt8)} {fail : ℕ}
    (h : OpensGet C s (C.sha body) g new fail s') (hwf : s'.Wf C) (hfew : fail ≤ C.m) :
    ∃ j, s'.io.join? g = some j ∧ j.upCid = s.upCid ∧ s'.asm.gathered C = 0 ∧
      Reading C s' g j (rankTargets C s.fleet (C.sha body)) body enc := by
  refine ⟨_, h.opens.join, rfl, by simp [Assembly.gathered, h.asm], hwf, h.opens.join, rfl, rfl,
    (EcJoin.counts_get rfl).mp (h.counts hfew _ h.opens.join), ?_⟩
  rw [h.asm]
  exact ⟨rfl, fun i b hb => (by cases hb), .inl rfl⟩

/-- **A stored body is read back** from the members it was stored on. -/
theorem reads_back (hs : s.Wf C) (henc : encode body C.k C.m = some enc)
    (hfits : body.length ≤ maxBody) (htargets : rankTargets C s.fleet (C.sha body) = targets)
    (cid : UInt32) (es : List EcEvent) : ReadsBack C (ecStep C N) s cid targets body enc es := by
  rintro _ rfl hin
  have hwf := ecStep_wf (N := N) hs (.request cid (.get (C.sha body)))
  obtain ⟨e, heq⟩ | ⟨g, new, fail, s', hget, heq⟩ :=
    handleGet_cases (C := C) (N := N) (s := { s with upCid := cid }) hs.sound (C.sha body)
  all_goals
    change ecStep C N s (.request cid (.get (C.sha body))) = _ at heq
    rw [heq] at hin hwf ⊢
  · obtain ⟨j, hj⟩ := Option.ne_none_iff_exists'.mp hin
    exact (hs.none_ge (Nat.le_refl _) hj).elim
  · obtain rfl : s.io.nextGen = g := hget.opens.gen.symm
    split at hin
    · -- too many refused the question: the join is gone
      refine absurd ?_ hin
      unfold resolveGetFailure
      rw [hget.opens.join]
      exact Fanout.join?_close _ _
    · next hfew =>
      rw [if_neg hfew] at hwf ⊢
      obtain ⟨j, -, hcid, hzero, hreading⟩ :=
        hget.reading enc hwf (Nat.le_of_not_lt hfew)
      rw [← htargets]
      refine ⟨fun k hk => hget.asked k (hget.opens.tickets ▸ hk), fun hfair hk => ?_⟩
      have hclose := hreading.run henc hfits nodup_rankTargets hfair
        (by rw [hzero, Nat.zero_add]; exact hk)
      rwa [hcid] at hclose

/-- So is it by the tables, in a run whose answers meet their own. -/
theorem ReadsBack.table {cid : UInt32} (h : ReadsBack C (ecStep C N) s cid targets body enc es)
    (hs : s.Wf C) (hown : OwnRun C N (ecTableStep C N s (.request cid (.get (C.sha body)))) es) :
    ReadsBack C (ecTableStep C N) s cid targets body enc es := by
  rintro _ rfl hin
  obtain ⟨hasked, hread⟩ := h _ rfl hin
  have hwf : (ecTableStep C N s (.request cid (.get (C.sha body)))).Wf C :=
    ecStep_wf (N := N) hs (.request cid (.get (C.sha body)))
  refine ⟨hasked, fun hfair hk => ?_⟩
  rw [Run.countSteps_agree _ ecTableStep_agrees hwf hown] at hk
  refine Run.SomeStep.agree ecTableStep_agrees (fun s e heq => ?_) hwf hown
    (hread (Run.AllSteps.agree ecTableStep_agrees hwf hown hfair) hk)
  rw [heq]
  exact id

/-- A run's bodies survive: every read answered carries bytes with the digest asked
for. And every store acknowledged is one of the run's, of a body within the ceiling,
with each of the `k + m` members ranked for it keeping its shard; every later read of
it under the same fleet asks those members for those shards, and answers exactly the
body once `k` of them have brought what they were told to store, whatever the order
and however the others refuse. -/
structure BodiesSurvive (C : EcConfig) (N : ℕ → Bool) (es : List EcEvent) : Prop where
  get : ∀ c p, (c, .get p) ∈ (ecTableRun C N es).up →
    ∃ digest body, .request c (.get digest) ∈ es ∧ p = some body ∧ C.sha body = digest
  put : ∀ es₁ es₂, es = es₁ ++ es₂ → ∀ c p, (c, .put p) ∈ (ecTableRun C N es₁).up →
    ∃ es₀ body enc, StoreOf C (ecTableRun C N) es₁ es₀ c body enc ∧ p = some (C.sha body) ∧
      KeptBody C (ecTableRun C N) es₁ es₀ body enc ∧
      ∀ es₃ cid es₄, es₂ = es₃ ++ .request cid (.get (C.sha body)) :: es₄ →
        (ecTableRun C N (es₁ ++ es₃)).fleet = (ecTableRun C N es₀).fleet →
        ReadsBack C (ecTableStep C N) (ecTableRun C N (es₁ ++ es₃)) cid
          (rankTargets C (ecTableRun C N es₀).fleet (C.sha body)) body enc es₄

/-- **Erasure-coded bodies survive `m` losses** in a run whose answers meet their
own. -/
theorem bodies_survive (C : EcConfig) (N : ℕ → Bool) (es : List EcEvent)
    (h : OwnRun C N (EcState.init C) es) : BodiesSurvive C N es := by
  refine ⟨fun c p hp => read_of_up (ecTableRun_eq h ▸ hp), ?_⟩
  rintro es₁ es₂ rfl c p hp
  rw [ecTableRun_front h] at hp
  obtain ⟨es₀, body, enc, hof, htold, hkept⟩ := (stores_run es₁).acked c p hp
  obtain ⟨es', rfl⟩ := hof.request
  have hrun := ecTableRun_front h
  have hstored : ecTableRun C N es₀ = ecRun C N es₀ :=
    ecTableRun_front (Run.allSteps_append.mp h).1
  refine ⟨es₀, body, enc, ⟨⟨es', rfl⟩, hof.coded, hof.fits, hstored ▸ hof.targets⟩, htold, ?_, ?_⟩
  · rw [KeptBody, hrun, hstored]
    exact hkept
  · rintro es₃ cid es₄ rfl hfleet
    rw [← List.append_assoc] at h
    obtain ⟨hbefore, -, hown⟩ := Run.allSteps_append.mp h
    have hnow := ecTableRun_eq hbefore
    have hwf : (ecTableRun C N (es₀ ++ .request c (.put body) :: es' ++ es₃)).Wf C := by
      rw [hnow]
      exact (heard_run _).wf
    exact (reads_back hwf hof.coded hof.fits (by rw [hfleet]) cid es₄).table hwf hown

/-- An event that brings a stored shard is fair. -/
theorem fair_of_brings (h : e.brings C targets body enc g s = true) :
    e.Fair C targets body enc g s :=
  fun _ _ _ _ _ => h

/-- So is one that lets an answer lapse. -/
theorem fair_expire {cid : ℕ} : (EcEvent.expire cid).Fair C targets body enc g s := by
  intro k io blob h
  obtain ⟨p, -, heq⟩ := Option.map_eq_some_iff.mp h
  cases heq

/-- The shards of `abc`. -/
def abcShards : List Bytes := [[97, 98], [99, 0], [159, 49]]

/-- Three members store `abc`. -/
def abcStored : List EcEvent :=
  [.request 7 (.put abc), .answer 2 0 (.putKeyed none), .answer 0 1 (.putKeyed none),
    .answer 1 2 (.putKeyed none)]

/-- A read of it, when the member ranked first has been lost. -/
def abcRead : List EcEvent :=
  [.answer 1 5 (.get (some (shardBlob threeMembers abc abcShards 2))), .expire 3,
    .answer 0 4 (.get (some (shardBlob threeMembers abc abcShards 1)))]

/-- Two of the three shards of `abc` give it back. -/
theorem bodies_survive_abc :
    ClosesWith (ecTableStep threeMembers fun _ => true)
      (ecTableRun threeMembers (fun _ => true) abcStored).io.nextGen (8, .get (some abc))
      (ecTableStep threeMembers (fun _ => true) (ecTableRun threeMembers (fun _ => true) abcStored)
        (.request 8 (.get (threeMembers.sha abc)))) abcRead := by
  obtain ⟨es₀, body, enc, hof, -, -, hback⟩ := (bodies_survive threeMembers (fun _ => true)
    (abcStored ++ .request 8 (.get (threeMembers.sha abc)) :: abcRead) (by decide +kernel)).put
      abcStored _ rfl 7 (some abcDigest) (by decide +kernel)
  obtain ⟨es₁, hes⟩ := hof.request
  -- the run takes one store only
  obtain ⟨rfl, rfl⟩ : es₀ = [] ∧ body = abc := by
    rcases es₀ with _ | ⟨e₀, _ | ⟨e₁, _ | ⟨e₂, _ | ⟨e₃, es₀⟩⟩⟩⟩ <;> simp [abcStored] at hes
    exact ⟨rfl, hes.1.symm⟩
  have hcoded : encode abc 2 1 = some abcShards := by decide +kernel
  obtain rfl : abcShards = enc := Option.some.inj (hcoded.symm.trans hof.coded)
  have hread := hback [] 8 abcRead rfl
  rw [List.append_nil] at hread
  exact (hread (by decide +kernel) _ rfl (by decide +kernel)).2
    ⟨fair_of_brings (by decide +kernel), fair_expire, fair_of_brings (by decide +kernel), trivial⟩
    (by decide +kernel)

end Reads

/-! ## Late refusals -/

/-- A store of `abc` that is refused, and one that is acknowledged: two answers to
the first are awaited still. -/
def overdueStart : List EcEvent :=
  [.request 1 (.put abc), .answer 2 0 (.nak errIo), .request 7 (.put abc), .answer 2 3 (.putKeyed none),
    .answer 0 4 (.putKeyed none), .answer 1 5 (.putKeyed none)]

/-- Since then `i` size requests came and went. -/
structure Overdue (i : ℕ) (s : EcState) : Prop where
  joins : s.io.joins = []
  nextGen : s.io.nextGen = i + 2
  awaited : s.io.awaited = [⟨1, 0, 0⟩, ⟨2, 1, 0⟩]
  nextCid : s.io.nextCid = i + 6
  lastId : s.io.lastId = i + 6
  ids : s.io.ids 1 = 2 ∧ s.io.ids 2 = 3
  slots : s.io.slots 0 = 0
  fleet : s.fleet = [0, 1, 2]
  idle : s.asm.busy = false

/-- A size request, and the answer of the member ranked first. -/
def sizeOnce (i : ℕ) : List EcEvent :=
  [.request 2 (.head abcDigest), .answer 2 (i + 6) (.get (some (shardBlob threeMembers abc abcShards 0)))]

theorem rank_abc : rankTargets threeMembers [0, 1, 2] abcDigest = [2, 0, 1] := by decide +kernel

theorem overdue_size {i : ℕ} {s : EcState} (h : Overdue i s) (hi : i + 7 < Fanout.idRange) :
    Overdue (i + 1) (Run.run (ecTableStep threeMembers fun _ => true) s (sizeOnce i)) := by
  have hid : (i + 6 + 1) % Fanout.idRange = i + 7 := Nat.mod_eq_of_lt hi
  have hask : ecTableStep threeMembers (fun _ => true) s (.request 2 (.head abcDigest)) =
      { s with
        upCid := 2
        io := { s.io with
          joins := [(i + 2, { kind := .head, need := 1, targets := [2, 0, 1], upCid := 2
                              digest := abcDigest })]
          nextGen := i + 3, awaited := [⟨1, 0, 0⟩, ⟨2, 1, 0⟩, ⟨i + 6, 2, i + 2⟩], nextCid := i + 7
          tries := s.io.tries + 1
          sent := s.io.sent ++ [⟨i + 6, 2, .get (deriveShardKey abcSha abcDigest 0)⟩]
          slots := Function.update s.io.slots (i + 2) 0
          ids := Function.update s.io.ids (i + 6) (i + 7), lastId := i + 7 } } := by
    simp only [ecTableStep, ecStep, handleRequest, handleHead, h.fleet, rank_abc]
    simp [Fanout.start, Fanout.freeSlot, advanceHead, Fanout.join?, Fanout.ask, Fanout.freshId,
      hid, h.joins, h.nextGen, h.awaited, h.nextCid, h.lastId, h.ids, threeMembers,
      List.range_succ]
  obtain ⟨hdr, hhdr⟩ : ∃ hdr, decodeShardHeader (shardBlob threeMembers abc abcShards 0) = some hdr :=
    Option.isSome_iff_exists.mp (by decide +kernel)
  have hanswer : Run.run (ecTableStep threeMembers fun _ => true) s (sizeOnce i) =
      { s with
        upCid := 2, up := s.up ++ [(2, .head (some (UInt64.ofNat hdr.bodyLen)))]
        io := { s.io with
          joins := [], nextGen := i + 3, awaited := [⟨1, 0, 0⟩, ⟨2, 1, 0⟩], nextCid := i + 7
          tries := s.io.tries + 1
          sent := s.io.sent ++ [⟨i + 6, 2, .get (deriveShardKey abcSha abcDigest 0)⟩]
          slots := Function.update s.io.slots (i + 2) 0
          ids := Function.update s.io.ids (i + 6) (i + 7), lastId := i + 7 } } := by
    rw [sizeOnce, Run.run_cons, hask, Run.run_cons, Run.run_nil]
    simp only [ecTableStep, EcEvent.tableSpends, Fanout.settleId]
    simp [Fanout.holder, answerJoin, Fanout.join?, applyJoinResponse, answerHead, hhdr,
      EcState.freeJoin, EcState.emit, Fanout.close]
  rw [hanswer]
  exact ⟨rfl, rfl, rfl, rfl, rfl, by simp [h.ids], by simp [h.slots], h.fleet, h.idle⟩

theorem overdue_sizes {s : EcState} (h : Overdue 0 s) (n : ℕ) (hn : n + 7 ≤ Fanout.idRange) :
    Overdue n (Run.run (ecTableStep threeMembers fun _ => true) s ((List.range n).flatMap sizeOnce)) := by
  induction n with
  | zero => exact h
  | succ n ih =>
    rw [List.range_succ, List.flatMap_append, Run.run_append, List.flatMap_singleton]
    exact overdue_size (ih (by omega)) (by omega)

theorem overdue_start : Overdue 0 (ecTableRun threeMembers (fun _ => true) overdueStart) := by
  refine ⟨?_, ?_, ?_, ?_, ?_, ?_, ?_, ?_, ?_⟩ <;> decide +kernel

/-- What follows: a read, two late refusals, and the shards of the members ranked
first and second. -/
def overdueAnswers (n : ℕ) : List EcEvent :=
  [.answer 0 1 (.nak errIo), .answer 1 2 (.nak errIo),
    .answer 2 (n + 6) (.get (some (shardBlob threeMembers abc abcShards 0))),
    .answer 0 (n + 7) (.get (some (shardBlob threeMembers abc abcShards 1)))]

/-- **A read is opened where the store refused was**, under the same stamp, and the
late refusals close it; the members then bring what they were told to store. -/
theorem overdue_read {n : ℕ} {s : EcState} (h : Overdue n s) (hn : n + 2 = Fanout.stampRange)
    (hid : n + 9 < Fanout.idRange) :
    ∃ s₁ s₂ s₃ s₄ : EcState, ecTableStep threeMembers (fun _ => true) s (.request 8 (.get abcDigest)) = s₁ ∧
      ecTableStep threeMembers (fun _ => true) s₁ (.answer 0 1 (.nak errIo)) = s₂ ∧
      ecTableStep threeMembers (fun _ => true) s₂ (.answer 1 2 (.nak errIo)) = s₃ ∧
      ecTableStep threeMembers (fun _ => true) s₃ (.answer 2 (n + 6)
        (.get (some (shardBlob threeMembers abc abcShards 0)))) = s₄ ∧
      s₁.io.join? (n + 2) ≠ none ∧ s₂.io.join? (n + 2) ≠ none ∧
      s₃.io.join? (n + 2) = none ∧ s₃.up = s₂.up ++ [(8, .nak errIo)] ∧ s₄.io.join? (n + 2) = none ∧
      s₃.io.awaited = [⟨n + 6, 2, n + 2⟩, ⟨n + 7, 0, n + 2⟩, ⟨n + 8, 1, n + 2⟩] ∧
      s₄.io.awaited = [⟨n + 7, 0, n + 2⟩, ⟨n + 8, 1, n + 2⟩] := by
  have h1 : (n + 6 + 1) % Fanout.idRange = n + 7 := Nat.mod_eq_of_lt (by omega)
  have h2 : (n + 7 + 1) % Fanout.idRange = n + 8 := Nat.mod_eq_of_lt (by omega)
  have h3 : (n + 8 + 1) % Fanout.idRange = n + 9 := Nat.mod_eq_of_lt hid
  have hread : ecTableStep threeMembers (fun _ => true) s (.request 8 (.get abcDigest)) =
      { s with
        upCid := 8
        asm := { s.asm with busy := true, join := n + 2, shards := fun _ => none, shardLen := 0
                            bodyLen := 0, digest := abcDigest }
        io := { s.io with
          joins := [(n + 2, { kind := .get, need := 3, targets := [2, 0, 1], upCid := 8
                              digest := abcDigest })]
          nextGen := n + 3
          awaited := [⟨1, 0, 0⟩, ⟨2, 1, 0⟩, ⟨n + 6, 2, n + 2⟩, ⟨n + 7, 0, n + 2⟩, ⟨n + 8, 1, n + 2⟩]
          nextCid := n + 9, tries := s.io.tries + 1 + 1 + 1
          sent := s.io.sent ++ [⟨n + 6, 2, .get (deriveShardKey abcSha abcDigest 0)⟩]
            ++ [⟨n + 7, 0, .get (deriveShardKey abcSha abcDigest 1)⟩]
            ++ [⟨n + 8, 1, .get (deriveShardKey abcSha abcDigest 2)⟩]
          slots := Function.update s.io.slots (n + 2) 0
          ids := Function.update (Function.update (Function.update s.io.ids (n + 6) (n + 7))
            (n + 7) (n + 8)) (n + 8) (n + 9)
          lastId := n + 9 } } := by
    simp only [ecTableStep, ecStep, handleRequest, handleGet, h.fleet, rank_abc]
    simp [Fanout.start, Fanout.freeSlot, shardQuestions, Fanout.askAll, Fanout.ask, Fanout.freshId,
      h1, h2, h3, h.joins, h.nextGen, h.awaited, h.nextCid, h.lastId, h.ids, h.idle, threeMembers,
      List.range_succ, EcState.setJoin, Fanout.modify, List.zipIdx]
  have hstamp : Fanout.stamp (n + 2) = Fanout.stamp 0 := by
    rw [Fanout.stamp, Fanout.stamp, hn, Nat.add_mod_left]
  refine ⟨_, _, _, _, hread, rfl, rfl, rfl, ?_⟩
  simp only [ecTableStep, EcEvent.tableSpends, Fanout.settleId]
  have hio : (errIo = errNotFound) = False ∧ (errIo = 0) = False := by decide
  simp [Fanout.holder, answerJoin, Fanout.join?, applyJoinResponse, answerGet, hstamp, h.slots, h.ids,
    EcState.setJoin, Fanout.modify, resolveGetFailure, EcState.emit, EcState.freeJoin, EcState.letGo,
    Fanout.close, EcJoin.noteErrno, BodyResp.errno, hio, threeMembers]

/-- An event that refuses is fair. -/
theorem fair_nak {C : EcConfig} {targets : List UInt8} {body : Bytes} {enc : List Bytes} {g cid : ℕ}
    {s : EcState} {t : UInt8} {e : BodyErr} :
    (EcEvent.answer t cid (.nak e)).Fair C targets body enc g s := by
  intro k io blob h
  obtain ⟨p, -, heq⟩ := Option.map_eq_some_iff.mp h
  cases heq

theorem overdue_not_readsBack {n : ℕ} {s : EcState} (h : Overdue n s)
    (hn : n + 2 = Fanout.stampRange) (hid : n + 9 < Fanout.idRange) :
    ¬ ReadsBack threeMembers (ecTableStep threeMembers fun _ => true) s 8 [2, 0, 1] abc abcShards
      (overdueAnswers n) := by
  obtain ⟨s₁, s₂, s₃, s₄, hs₁, hs₂, hs₃, hs₄, hin, hin₂, hout, hup, hout₄, haw, haw₄⟩ :=
    overdue_read h hn hid
  intro hread
  obtain ⟨-, hread⟩ := hread s₁ hs₁.symm (h.nextGen ▸ hin)
  rw [h.nextGen] at hread
  have hfirst : (EcEvent.answer 2 (n + 6) (.get (some (shardBlob threeMembers abc abcShards 0)))).brings
      threeMembers [2, 0, 1] abc abcShards (n + 2) s₃ = true := by
    simp only [EcEvent.brings, EcEvent.spends, Fanout.settle, haw]
    simpa using ⟨0, by decide, rfl, rfl⟩
  have hsecond : (EcEvent.answer 0 (n + 7) (.get (some (shardBlob threeMembers abc abcShards 1)))).brings
      threeMembers [2, 0, 1] abc abcShards (n + 2) s₄ = true := by
    simp only [EcEvent.brings, EcEvent.spends, Fanout.settle, haw₄]
    simpa using ⟨1, by decide, rfl, rfl⟩
  have hclose := hread
    ⟨fair_nak, fair_nak, by rw [hs₂, hs₃]; exact fair_of_brings hfirst,
      by rw [hs₂, hs₃, hs₄]; exact fair_of_brings hsecond, trivial⟩
    (by
      simp only [overdueAnswers, Run.countSteps, hs₂, hs₃, hs₄, hfirst, hsecond, if_true]
      simp only [threeMembers]
      omega)
  simp only [ClosesWith, overdueAnswers, Run.SomeStep, hs₂, hs₃, hs₄] at hclose
  obtain ⟨-, hno, -⟩ | ⟨-, -, htold⟩ | ⟨hno, -⟩ | ⟨hno, -⟩ | hno := hclose
  · exact hin₂ hno
  · rw [hup] at htold
    simp at htold
  · exact hno hout
  · exact hno hout₄
  · exact hno

/-- **A read can be refused though enough members have the body.** Two members'
answers to a store refused long ago are counted as refusals of the read that has its
place and its stamp, and what the members bring it then comes too late. -/
theorem late_refusals_count :
    ¬ ∀ (C : EcConfig) (N : ℕ → Bool) (es : List EcEvent), BodiesSurvive C N es := by
  intro hall
  obtain ⟨n, hn⟩ : ∃ n, n + 2 = Fanout.stampRange :=
    ⟨_, Nat.sub_add_cancel (Nat.le_self_pow (by decide) 2)⟩
  have hid : n + 9 < Fanout.idRange := by
    have hlt : Fanout.stampRange + 7 < Fanout.idRange := by norm_num [Fanout.stampRange, Fanout.idRange]
    omega
  generalize hsizes : (List.range n).flatMap sizeOnce = sizes
  obtain ⟨es₀, body, enc, hof, -, -, hback⟩ := (hall threeMembers (fun _ => true)
    (overdueStart ++ (sizes ++ .request 8 (.get (abcSha abc)) :: overdueAnswers n))).put
      overdueStart _ rfl 7 (some abcDigest) (by decide +kernel)
  obtain ⟨es₁, hes⟩ := hof.request
  -- the store acknowledged is the run's second
  obtain ⟨rfl, rfl⟩ : es₀ = [.request 1 (.put abc), .answer 2 0 (.nak errIo)] ∧ body = abc := by
    rcases es₀ with _ | ⟨e₀, _ | ⟨e₁, _ | ⟨e₂, _ | ⟨e₃, _ | ⟨e₄, _ | ⟨e₅, es₀⟩⟩⟩⟩⟩⟩ <;>
      simp [overdueStart] at hes
    obtain ⟨rfl, rfl, rfl, -⟩ := hes
    exact ⟨rfl, rfl⟩
  have hcoded : encode abc 2 1 = some abcShards := by decide +kernel
  obtain rfl : abcShards = enc := Option.some.inj (hcoded.symm.trans hof.coded)
  have hover : Overdue n (ecTableRun threeMembers (fun _ => true) (overdueStart ++ sizes)) := by
    rw [ecTableRun, Run.run_append, ← hsizes]
    exact overdue_sizes overdue_start n (by omega)
  have hranked : rankTargets threeMembers (ecTableRun threeMembers (fun _ => true)
      [.request 1 (.put abc), .answer 2 0 (.nak errIo)]).fleet (threeMembers.sha abc) = [2, 0, 1] := by
    decide +kernel
  have hread := hback sizes 8 (overdueAnswers n) rfl (hover.fleet.trans (by decide +kernel))
  rw [hranked] at hread
  exact overdue_not_readsBack hover hn hid hread

end Loam

import Loam.EcJoins

/-!
# Every erasure-coded request is answered

Each handler of the router, taken one by one: what it does is about one join
(`About`), and that join, if it is still in hand, still waits for what it
should. A request that was taken is answered once, and its join closes as the
last of its tickets is spent.
-/

namespace Loam

open Fanout (Same Grows Asks Spends Ticket)

section Answers

variable {C : EcConfig} {N : ℕ → Bool} {s s' : EcState} {g g' : ℕ} {j j' : EcJoin}
  {t : UInt8} {resp : BodyResp} {payload : Option Bytes} {a a' : Assembly}

/-- The answers a join can still take before it closes: the targets a serial
walk has left, or its tickets. -/
def EcJoin.left (n : ℕ) (j : EcJoin) : ℕ :=
  if j.kind = .head then j.targets.length - j.attempt else n

/-- The answers the join of a generation can still take. -/
def EcState.left (s : EcState) (g : ℕ) : ℕ :=
  ((s.io.join? g).map (EcJoin.left (s.io.tickets g).length)).getD 0

/-- A join waits for what it should after an answer: it closed, or it counts on
for a client or a fetch, and can take fewer answers than the `n` it could. -/
def EcState.Waits (C : EcConfig) (s : EcState) (g n : ℕ) : Prop :=
  ∀ j, s.io.join? g = some j →
    j.Counts C (s.io.tickets g).length (s.asm.gathered C)
      ∧ j.left (s.io.tickets g).length < n ∧ ¬j.Inert

theorem waits_of_closed {n : ℕ} (h : s.io.join? g = none) : s.Waits C g n := by
  intro j hj
  rw [h] at hj
  cases hj

theorem not_inert (h : j.kind.client = true ∨ j.kind.gathers = true) : ¬j.Inert := by
  rintro ⟨hc, hg⟩
  rw [hc, hg] at h
  simp at h

theorem waits_of_counts {n : ℕ} (hj : s.io.join? g = some j)
    (hc : j.Counts C (s.io.tickets g).length (s.asm.gathered C))
    (hl : j.left (s.io.tickets g).length < n)
    (hi : j.kind.client = true ∨ j.kind.gathers = true) : s.Waits C g n := by
  intro j' hj'
  rw [hj] at hj'
  cases hj'
  exact ⟨hc, hl, not_inert hi⟩

theorem EcJoin.left_of_ne {n : ℕ} (hk : j.kind ≠ .head) : j.left n = n := if_neg hk

theorem closed_free : (s.freeJoin g).io.join? g = none := Fanout.join?_close _ _

/-! ## Stores and removals -/

/-- **A member answered a store.** -/
theorem answerPut_spec (hs : s.Wf C) (hj : s.io.join? g = some j) (hk : j.kind = .put)
    (resp : BodyResp) :
    About C g 0 s (answerPut s g j resp) ∧
      (j.Counts C ((s.io.tickets g).length + 1) (s.asm.gathered C) →
        (answerPut s g j resp).Waits C g ((s.io.tickets g).length + 1)) := by
  unfold answerPut
  generalize hj' : j.notePut resp = j'
  have hlike : j.Like j' ∧ j'.ack + j'.fail = j.ack + j.fail + 1 := by
    subst hj'
    unfold EcJoin.notePut
    split
    · exact ⟨⟨rfl, rfl, rfl, rfl, rfl⟩, Nat.add_right_comm _ _ _⟩
    · exact ⟨⟨rfl, rfl, rfl, rfl, rfl⟩, rfl⟩
  obtain ⟨hlike, hcount⟩ := hlike
  have hkind := hlike.kind.trans hk
  have hneed := hlike.need
  have hset := about_set hs hj (h := fun _ => j') hlike
  have hin := join?_setJoin hj fun _ => j'
  have hanswer : ∀ r, About C g 0 s (((s.setJoin g fun _ => j').emit j'.upCid r).freeJoin g) :=
    fun r => hset.trans (about_answer hset.wf hin (by rw [hkind]; rfl) (by rw [hkind]; rfl) r)
  dsimp only
  split
  · exact ⟨hanswer _, fun _ => waits_of_closed closed_free⟩
  split
  · exact ⟨hanswer _, fun _ => waits_of_closed closed_free⟩
  refine ⟨hset, fun hc => ?_⟩
  -- an answer was missing, so one is awaited
  rw [EcJoin.counts_put hk] at hc
  have ht : (s.setJoin g fun _ => j').io.tickets g = s.io.tickets g := rfl
  refine waits_of_counts hin ((EcJoin.counts_put hkind).mpr ?_) ?_ (.inl (by rw [hkind]; rfl))
  · rw [ht]
    omega
  · rw [EcJoin.left_of_ne (by simp [hkind]), ht]
    exact Nat.lt_succ_self _

/-- **A member answered a removal.** -/
theorem answerDelete_spec (hs : s.Wf C) (hj : s.io.join? g = some j) (hk : j.kind = .delete)
    (resp : BodyResp) :
    About C g 0 s (answerDelete s g j resp) ∧
      (j.Counts C ((s.io.tickets g).length + 1) (s.asm.gathered C) →
        (answerDelete s g j resp).Waits C g ((s.io.tickets g).length + 1)) := by
  unfold answerDelete
  generalize hj' : j.noteDelete resp = j'
  have hlike : j.Like j' ∧ j'.ack + j'.fail = j.ack + j.fail + 1 := by
    subst hj'
    unfold EcJoin.noteDelete
    split
    · exact ⟨⟨rfl, rfl, rfl, rfl, rfl⟩, Nat.add_right_comm _ _ _⟩
    · exact ⟨⟨rfl, rfl, rfl, rfl, rfl⟩, rfl⟩
  obtain ⟨hlike, hcount⟩ := hlike
  have hkind := hlike.kind.trans hk
  have hneed := hlike.need
  have hset := about_set hs hj (h := fun _ => j') hlike
  have hin := join?_setJoin hj fun _ => j'
  dsimp only
  split
  · exact ⟨hset.trans (about_answer hset.wf hin (by rw [hkind]; rfl) (by rw [hkind]; rfl) _),
      fun _ => waits_of_closed closed_free⟩
  refine ⟨hset, fun hc => ?_⟩
  rw [EcJoin.counts_delete hk] at hc
  have ht : (s.setJoin g fun _ => j').io.tickets g = s.io.tickets g := rfl
  refine waits_of_counts hin ((EcJoin.counts_delete hkind).mpr ?_) ?_ (.inl (by rw [hkind]; rfl))
  · rw [ht]
    omega
  · rw [EcJoin.left_of_ne (by simp [hkind]), ht]
    exact Nat.lt_succ_self _

/-! ## Size requests -/

theorem EcJoin.ahead_succ {i : ℕ} {rest : List (UInt8 × ℕ)} (h : j.ahead = (t, i) :: rest) :
    j.attempt < j.targets.length ∧ { j with attempt := j.attempt + 1 }.ahead = rest := by
  have hlt : j.attempt < j.targets.zipIdx.length := by
    by_contra hge
    rw [EcJoin.ahead, List.drop_eq_nil_of_le (Nat.le_of_not_lt hge)] at h
    cases h
  refine ⟨by simpa using hlt, ?_⟩
  rw [EcJoin.ahead, List.drop_eq_getElem_cons hlt] at h
  exact (List.cons.inj h).2

/-- **A walk moves on**, to the target after the one it asked or to its end. -/
theorem advanceHead_spec (rest : List (UInt8 × ℕ)) (hs : s.Wf C) (hj : s.io.join? g = some j)
    (hk : j.kind = .head) (hrest : j.ahead = rest) :
    About C g 0 s (advanceHead C N g rest s) ∧
      ∀ n, j.targets.length - j.attempt < n → (advanceHead C N g rest s).Waits C g n := by
  induction rest generalizing s j with
  | nil =>
    rw [advanceHead, hj]
    dsimp only
    exact ⟨about_answer hs hj (by rw [hk]; rfl) (by rw [hk]; rfl) _,
      fun n _ => waits_of_closed closed_free⟩
  | cons p rest ih =>
    obtain ⟨t, i⟩ := p
    obtain ⟨hlt, hnext⟩ := EcJoin.ahead_succ hrest
    rw [advanceHead, hj]
    dsimp only
    obtain ⟨new, hask, hlen⟩ := Fanout.ask_spec s.io C.pendingCap N g t
      (.get (deriveShardKey C.sha j.digest i))
    have hasked := about_asks hs hj (by rw [hk]; simp) hask
    have hin := (hask.join? g).trans hj
    split
    · next hok =>
      refine ⟨hasked, fun n hn => waits_of_counts hin ((EcJoin.counts_head hk).mpr ⟨?_, hlt⟩) ?_
        (.inl (by rw [hk]; rfl))⟩
      · rw [hask.tickets, List.length_append, hlen, if_pos hok]
        exact Nat.succ_pos _
      · rwa [EcJoin.left, if_pos hk]
    · have hset := about_set hasked.wf hin (h := fun j : EcJoin =>
        { j with lastErrno := errIo, attempt := j.attempt + 1 }) ⟨rfl, rfl, rfl, rfl, rfl⟩
      obtain ⟨habout, hwaits⟩ := ih hset.wf (join?_setJoin hin _) hk hnext
      exact ⟨(hasked.trans hset).trans habout, fun n hn => hwaits n (by dsimp only; omega)⟩

theorem noteErrno_like (j : EcJoin) (e : BodyErr) : j.Like (j.noteErrno e) := by
  unfold EcJoin.noteErrno
  repeat' split
  all_goals exact ⟨rfl, rfl, rfl, rfl, rfl⟩

/-- **A member answered a size request.** -/
theorem answerHead_spec (hs : s.Wf C) (hj : s.io.join? g = some j) (hk : j.kind = .head)
    (resp : BodyResp) :
    About C g 0 s (answerHead C N s g j resp) ∧
      (j.attempt < j.targets.length →
        (answerHead C N s g j resp).Waits C g (j.targets.length - j.attempt)) := by
  have hon : ∀ j', j.Like j' → j'.attempt = j.attempt + 1 →
      About C g 0 s (advanceHead C N g j'.ahead (s.setJoin g fun _ => j')) ∧
        (j.attempt < j.targets.length → (advanceHead C N g j'.ahead (s.setJoin g fun _ => j')).Waits
          C g (j.targets.length - j.attempt)) := by
    intro j' hlike hattempt
    have hset := about_set hs hj (h := fun _ => j') hlike
    obtain ⟨habout, hwaits⟩ := advanceHead_spec (N := N) j'.ahead hset.wf
      (join?_setJoin hj fun _ => j') (hlike.kind.trans hk) rfl
    exact ⟨hset.trans habout, fun hlt => hwaits _ (by rw [hlike.targets, hattempt]; omega)⟩
  unfold answerHead
  split
  · split
    · exact ⟨about_answer hs hj (by rw [hk]; rfl) (by rw [hk]; rfl) _,
        fun _ => waits_of_closed closed_free⟩
    · exact hon _ ⟨rfl, rfl, rfl, rfl, rfl⟩ rfl
  · refine hon _ ?_ rfl
    have hnote := noteErrno_like j resp.errno
    exact ⟨hnote.kind, hnote.upCid, hnote.digest, hnote.targets, hnote.need⟩

/-! ## The assembly -/

/-- The shard an answer brings: the one its sender was asked for, by its own
header. -/
structure Assembly.Takes (C : EcConfig) (a a' : Assembly) (targets : List UInt8) (t : UInt8)
    (payload : Option Bytes) (i : ℕ) (hdr : ShardHeader) (shard : Bytes) : Prop where
  index : targets.findIdx? (fun t' => t' = t) = some i
  blob : ∃ blob, payload = some blob ∧ decodeShardHeader blob = some hdr
    ∧ shardPayload blob = some shard
  /-- The shard is of this body, this place and this geometry. -/
  header : hdr.bodyDigest = a.digest ∧ hdr.index = i ∧ hdr.k = C.k ∧ hdr.m = C.m
  length : 0 < hdr.shardLen ∧ hdr.shardLen ≤ shardSlot
  agrees : hdr.shardLen = a.shardLen ∧ hdr.bodyLen = a.bodyLen
    ∨ a.shardLen = 0 ∧ hdr.bodyLen ≤ maxBody ∧ hdr.bodyLen ≤ C.k * hdr.shardLen
  eq : a' = { a with shardLen := hdr.shardLen, bodyLen := hdr.bodyLen
                     shards := Function.update a.shards i (some shard) }

theorem accept_eq_some {targets : List UInt8} (h : a.accept C targets t payload = some a') :
    ∃ i hdr shard, Assembly.Takes C a a' targets t payload i hdr shard := by
  unfold Assembly.accept at h
  simp only [Option.bind_eq_bind, Option.bind_eq_some_iff] at h
  obtain ⟨i, hi, blob, hblob, hdr, hhdr, h⟩ := h
  have hpay : shardPayload blob = some ((blob.drop shardHdr).take hdr.shardLen) := by
    rw [shardPayload, hhdr, Option.map_some]
  rw [hpay] at h
  split at h
  · cases h
  next hok =>
  simp only [not_or, not_not, Nat.not_lt] at hok
  obtain ⟨hd, hidx, hk, hm, hslot, hpos⟩ := hok
  refine ⟨i, hdr, (blob.drop shardHdr).take hdr.shardLen, ?_⟩
  split at h
  · next hfirst =>
    split at h
    · cases h
    next hlen =>
    simp only [not_or, Nat.not_lt] at hlen
    exact ⟨hi, ⟨blob, hblob, hhdr, hpay⟩, ⟨hd, hidx, hk, hm⟩, ⟨Nat.pos_of_ne_zero hpos, hslot⟩,
      .inr ⟨hfirst, hlen.1, hlen.2⟩, (Option.some.inj h).symm⟩
  · split at h
    · cases h
    next hsame =>
    simp only [not_or, not_not] at hsame
    refine ⟨hi, ⟨blob, hblob, hhdr, hpay⟩, ⟨hd, hidx, hk, hm⟩, ⟨Nat.pos_of_ne_zero hpos, hslot⟩,
      .inl hsame, ?_⟩
    rw [← Option.some.inj h, hsame.1, hsame.2]

theorem length_filter_update {f : ℕ → Option Bytes} {i n : ℕ} (hi : i < n) (hf : f i = none)
    (b : Bytes) :
    ((List.range n).filter fun r => (Function.update f i (some b) r).isSome).length
      = ((List.range n).filter fun r => (f r).isSome).length + 1 := by
  induction n with
  | zero => cases hi
  | succ n ih =>
    rw [List.range_succ, List.filter_append, List.filter_append, List.length_append,
      List.length_append]
    by_cases he : i = n
    · have hrest : (List.range n).filter (fun r => (Function.update f i (some b) r).isSome)
          = (List.range n).filter fun r => (f r).isSome := by
        refine List.filter_congr fun r hr => ?_
        have := List.mem_range.mp hr
        rw [Function.update_of_ne (by omega)]
      rw [hrest]
      simp [← he, hf]
    · rw [ih (by omega)]
      simp only [List.filter_cons, List.filter_nil, Function.update_of_ne (Ne.symm he)]
      split <;> simp

theorem Assembly.Takes.gathered {targets : List UInt8} {i : ℕ} {hdr : ShardHeader} {shard : Bytes}
    (h : Assembly.Takes C a a' targets t payload i hdr shard) (hlen : targets.length = C.k + C.m)
    (hnew : a.shards i = none) : a'.gathered C = a.gathered C + 1 := by
  have hi : i < C.k + C.m := hlen ▸ (List.findIdx?_eq_some_iff_findIdx_eq.mp h.index).1
  rw [h.eq]
  exact length_filter_update hi hnew shard

/-- The shard of a join's ticket goes to the assembly it owns. -/
theorem about_accept (hs : s.Wf C) (hj : s.io.join? g = some j) (hg : j.kind.gathers = true)
    (ht : j.kind = .get → t ∉ (s.io.tickets g).map Ticket.peer)
    (h : s.asm.accept C j.targets t payload = some a') : About C g 0 s { s with asm := a' } := by
  obtain ⟨i, hdr, shard, htakes⟩ := accept_eq_some h
  have hown := hs.owner g j hj hg
  have heq := htakes.eq
  have hbusy : a'.busy = s.asm.busy ∧ a'.join = s.asm.join ∧ a'.internal = s.asm.internal := by
    rw [heq]
    exact ⟨rfl, rfl, rfl⟩
  have hwf : EcState.Wf C { s with asm := a' } := by
    refine ⟨hs.sound, fun g' j' hj' hgat => ?_, fun hb => ?_, fun hb => ?_, hs.ident,
      fun g' j' hj' hk => ?_⟩
    · exact hbusy.1 ▸ hbusy.2.1 ▸ hbusy.2.2 ▸ hs.owner g' j' hj' hgat
    · exact hbusy.2.1 ▸ hs.busy (hbusy.1 ▸ hb)
    · exact hbusy.2.2 ▸ hs.idle (hbusy.1 ▸ hb)
    · -- the only read in hand is the join itself
      have hg' : g' = g := (hs.owner g' j' hj' (by rw [hk]; rfl)).2.1.symm.trans hown.2.1
      subst hg'
      rw [hj] at hj'
      cases hj'
      obtain ⟨hlen, hnodup, hunseen⟩ := hs.reads g' j hj hk
      refine ⟨hlen, hnodup, fun t' ht' i' hi' => ?_⟩
      have hne : i' ≠ i := by
        rintro rfl
        -- two peers at one place are one peer
        have h1 := List.findIdx?_eq_some_iff_getElem.mp htakes.index
        have h2 := List.findIdx?_eq_some_iff_getElem.mp hi'
        have : t = t'.peer := by
          have h1 := h1.2.1
          have h2 := h2.2.1
          simp only [decide_eq_true_eq] at h1 h2
          exact h1.symm.trans h2
        exact ht hk (this ▸ List.mem_map_of_mem ht')
      rw [show EcState.asm { s with asm := a' } = a' from rfl, heq]
      exact (Function.update_of_ne hne _ _).trans (hunseen t' ht' i' hi')
  exact ⟨hwf, Nat.le_refl _, fun g' _ _ => .refl g' _, fun _ hge _ => hwf.countsAt_ge hge,
    fun _ hne => absurd hown.2.1 hne, fun _ => rfl, rfl, fun _ j' hj' => ⟨j', hj', .refl j'⟩,
    fun _ hge _ hj' => (hwf.none_ge hge hj').elim, List.prefix_rfl⟩

/-- **A read that failed** is answered and lets the assembly go. -/
theorem resolveGetFailure_spec (hs : s.Wf C) (hj : s.io.join? g = some j) (hk : j.kind = .get) :
    About C g 0 s (resolveGetFailure s g) ∧ (resolveGetFailure s g).io.join? g = none := by
  have hown := hs.owner g j hj (by rw [hk]; rfl)
  have hint : s.asm.internal = false := by rw [hown.2.2, hk]; rfl
  unfold resolveGetFailure
  rw [hj]
  exact ⟨about_release hs hj (by rw [hk]; rfl) rfl rfl hint
    (owed_answer hs.sound hj (by rw [hk]; rfl) _) rfl rfl, closed_free⟩

/-- **A fetch that failed** lets the assembly go. -/
theorem scrubFetchFailed_spec (hs : s.Wf C) (hj : s.io.join? g = some j)
    (hk : j.kind = .scrubFetch) :
    About C g 0 s (scrubFetchFailed C N s g) ∧ (scrubFetchFailed C N s g).io.join? g = none := by
  have hrel : About C g 0 s (s.freeJoin g).letGoScrub :=
    about_release hs hj (by rw [hk]; rfl) rfl rfl rfl (owed_free hs.sound hj (by rw [hk]; rfl)) rfl
      rfl
  have hnext := extra_scrubNextKey (C := C) (N := N) hrel.wf.sound
  have hlt : g < s.io.nextGen := Fanout.join?_lt hs.sound hj
  exact ⟨hrel.trans (hnext.about hrel.wf), hnext.closed hlt (closed_free (s := s))⟩

variable (payload) in
/-- **A shard for the assembly**: turned away, kept, or the last that was
needed – and then the join is closed. -/
theorem assemblyTakeShard_spec (hs : s.Wf C) (hj : s.io.join? g = some j)
    (hg : j.kind.gathers = true) (ht : j.kind = .get → t ∉ (s.io.tickets g).map Ticket.peer) :
    About C g 0 s (assemblyTakeShard C N s g j t payload).1 ∧
      ((assemblyTakeShard C N s g j t payload).2 = true →
        (assemblyTakeShard C N s g j t payload).1.io.join? g = none) ∧
      ((assemblyTakeShard C N s g j t payload).2 = false →
        s.asm.accept C j.targets t payload = none
            ∧ (assemblyTakeShard C N s g j t payload).1 = s
          ∨ ∃ a', s.asm.accept C j.targets t payload = some a' ∧ a'.gathered C < C.k
            ∧ (assemblyTakeShard C N s g j t payload).1 = { s with asm := a' }) := by
  have hown := hs.owner g j hj hg
  unfold assemblyTakeShard
  split
  · next hnone =>
    exact ⟨.refl hs, fun h => absurd h (by simp), fun _ => .inl ⟨hnone, rfl⟩⟩
  next a' haccept =>
  have hacc := about_accept hs hj hg ht haccept
  have hint : a'.internal = s.asm.internal := by
    obtain ⟨i, hdr, shard, htakes⟩ := accept_eq_some haccept
    rw [htakes.eq]
  dsimp only
  split
  · next hfew => exact ⟨hacc, fun h => absurd h (by simp), fun _ => .inr ⟨a', haccept, hfew, rfl⟩⟩
  split
  · -- the solve failed
    have hfail : About C g 0 s (if a'.internal = true
          then scrubFetchFailed C N { s with asm := a' } g
          else resolveGetFailure { s with asm := a' } g) ∧
        (if a'.internal = true then scrubFetchFailed C N { s with asm := a' } g
          else resolveGetFailure { s with asm := a' } g).io.join? g = none := by
      split
      · next hi =>
        have hk : j.kind = .scrubFetch := by simpa [hint, hown.2.2] using hi
        obtain ⟨habout, hclosed⟩ := scrubFetchFailed_spec (N := N) hacc.wf hj hk
        exact ⟨hacc.trans habout, hclosed⟩
      next hi =>
      have hk : j.kind = .get := by
        rw [hint, hown.2.2] at hi
        cases hkind : j.kind <;> simp_all [EcKind.gathers]
      obtain ⟨habout, hclosed⟩ := resolveGetFailure_spec hacc.wf hj hk
      exact ⟨hacc.trans habout, hclosed⟩
    exact ⟨hfail.1, fun _ => hfail.2, fun h => absurd h (by simp)⟩
  · next shards body _ =>
    split
    · -- a fetch puts the missing shards back
      next hi =>
      have hk : j.kind = .scrubFetch := by simpa [hint, hown.2.2] using hi
      generalize hs₁ : ({ s with asm := a' } : EcState) = s₁ at hacc
      have hj₁ : s₁.io.join? g = some j := by rw [← hs₁]; exact hj
      have hrel : About C g 0 s₁ (s₁.freeJoin g).letGoScrub :=
        about_release hacc.wf hj₁ hg rfl rfl rfl
          (owed_free hacc.wf.sound hj₁ (by rw [hk]; rfl)) rfl rfl
      have hrep := extra_repairs (C := C) (N := N) (s := s₁.freeJoin g)
        (hacc.wf.sound.close g) shards
      have hput : Extra (s₁.freeJoin g).letGoScrub
          (scrubDispatchRepairs C N shards (s₁.freeJoin g)).letGoScrub :=
        ⟨hrep.io, by rw [EcState.letGoScrub, hrep.asm]; rfl, hrep.up, hrep.fleet,
          hrep.ident⟩
      have hall := hput.trans (extra_scrubNextKey (C := C) (N := N) hput.io.sound)
      have hlt : g < s₁.io.nextGen := Fanout.join?_lt hacc.wf.sound hj₁
      exact ⟨(hacc.trans hrel).trans (hall.about hrel.wf),
        fun _ => hall.closed hlt (closed_free (s := s₁)), fun h => absurd h (by simp)⟩
    · -- a read answers
      next hi =>
      have hk : j.kind = .get := by
        rw [hint, hown.2.2] at hi
        cases hkind : j.kind <;> simp_all [EcKind.gathers]
      refine ⟨hacc.trans (about_release hacc.wf hj hg rfl rfl ?_ ?_ rfl rfl), fun _ => closed_free,
        fun h => absurd h (by simp)⟩
      · exact (Bool.not_eq_true _).mp hi
      · exact owed_answer hs.sound hj (by rw [hk]; rfl) _

/-! ## Reads -/

variable (resp) in
/-- **A member answered a read.** A record the assembly turns away is counted
nowhere. -/
theorem answerGet_spec (hs : s.Wf C) (hj : s.io.join? g = some j) (hk : j.kind = .get)
    (ht : t ∉ (s.io.tickets g).map Ticket.peer)
    (hnew : ∀ i, j.targets.findIdx? (fun t' => t' = t) = some i → s.asm.shards i = none) :
    About C g 0 s (answerGet C N s g j t resp) ∧
      (j.Counts C ((s.io.tickets g).length + 1) (s.asm.gathered C) →
        (∀ payload, resp = .get payload → (s.asm.accept C j.targets t payload).isSome) →
        (answerGet C N s g j t resp).Waits C g ((s.io.tickets g).length + 1)) := by
  have hgat : j.kind.gathers = true := by rw [hk]; rfl
  have hfail : ∀ resp : BodyResp, About C g 0 s (if C.m < j.fail + 1
        then resolveGetFailure (s.setJoin g fun j =>
          { j with fail := j.fail + 1 }.noteErrno resp.errno) g
        else s.setJoin g fun j => { j with fail := j.fail + 1 }.noteErrno resp.errno) ∧
      (j.Counts C ((s.io.tickets g).length + 1) (s.asm.gathered C) →
        EcState.Waits C (if C.m < j.fail + 1
          then resolveGetFailure (s.setJoin g fun j =>
            { j with fail := j.fail + 1 }.noteErrno resp.errno) g
          else s.setJoin g fun j => { j with fail := j.fail + 1 }.noteErrno resp.errno) g
          ((s.io.tickets g).length + 1)) := by
    intro resp
    have hcount : ({ j with fail := j.fail + 1 }.noteErrno resp.errno).fail = j.fail + 1 := by
      unfold EcJoin.noteErrno
      repeat' split
      all_goals rfl
    have hnote := noteErrno_like { j with fail := j.fail + 1 } resp.errno
    have hkind : ({ j with fail := j.fail + 1 }.noteErrno resp.errno).kind = j.kind := hnote.kind
    have hset := about_set hs hj (h := fun j => { j with fail := j.fail + 1 }.noteErrno resp.errno)
      ⟨hkind, hnote.upCid, hnote.digest, hnote.targets, hnote.need⟩
    have hin := join?_setJoin hj fun j => { j with fail := j.fail + 1 }.noteErrno resp.errno
    split
    · obtain ⟨habout, hclosed⟩ := resolveGetFailure_spec hset.wf hin (hkind.trans hk)
      exact ⟨hset.trans habout, fun _ => waits_of_closed hclosed⟩
    refine ⟨hset, fun hc => ?_⟩
    rw [EcJoin.counts_get hk] at hc
    refine waits_of_counts hin ((EcJoin.counts_get (hkind.trans hk)).mpr ?_) ?_
      (.inl (by rw [hkind, hk]; rfl))
    · rw [hcount]
      change s.asm.gathered C < C.k ∧ j.fail + 1 ≤ C.m ∧
        s.asm.gathered C + (j.fail + 1) + (s.io.tickets g).length = C.k + C.m
      omega
    · rw [EcJoin.left_of_ne (by rw [hkind, hk]; simp)]
      exact Nat.lt_succ_self _
  cases resp with
  | get payload =>
    obtain ⟨habout, hdone, hkept⟩ := assemblyTakeShard_spec (N := N) payload hs hj hgat
      fun _ => ht
    refine ⟨habout, fun hc hok => ?_⟩
    by_cases hd : (assemblyTakeShard C N s g j t payload).2 = true
    · exact waits_of_closed (hdone hd)
    rcases hkept (by simpa using hd) with ⟨hnone, -⟩ | ⟨a', haccept, hfew, heq⟩
    · simpa [hnone] using hok payload rfl
    -- one more shard, one ticket fewer
    obtain ⟨i, hdr, shard, htakes⟩ := accept_eq_some haccept
    have hone := htakes.gathered (hs.reads g j hj hk).1 (hnew i htakes.index)
    have heq' : answerGet C N s g j t (.get payload) = { s with asm := a' } := heq
    rw [EcJoin.counts_get hk] at hc
    rw [heq']
    refine waits_of_counts (s := { s with asm := a' }) hj ((EcJoin.counts_get hk).mpr ?_) ?_
      (.inl (by rw [hk]; rfl))
    · change a'.gathered C < C.k ∧ j.fail ≤ C.m ∧
        a'.gathered C + j.fail + (s.io.tickets g).length = C.k + C.m
      omega
    · rw [EcJoin.left_of_ne (by rw [hk]; simp)]
      exact Nat.lt_succ_self _
  | _ => exact ⟨(hfail _).1, fun hc _ => (hfail _).2 hc⟩

/-! ## The scrub's answers -/

/-- An assembly nobody owns may hold anything. -/
theorem about_idle (hs : s.Wf C) (hidle : s.asm.busy = false) (hio : s'.io = s.io)
    (hb : s'.asm.busy = false) (hi : s'.asm.internal = false) (howed : ∀ c, s'.owed c = s.owed c)
    (hfleet : s'.fleet = s.fleet) (hident : s'.scrub.identIndex = s.scrub.identIndex) :
    About C g 0 s s' := by
  have hnone : ∀ g' j', s'.io.join? g' = some j' → j'.kind.gathers ≠ true := by
    intro g' j' hj' hgat
    have := (hs.owner g' j' (hio ▸ hj') hgat).1
    rw [hidle] at this
    cases this
  have hwf : s'.Wf C := by
    refine ⟨hio ▸ hs.sound, fun g' j' hj' hgat => absurd hgat (hnone g' j' hj'), fun h => ?_,
      fun _ => hi, hident ▸ hs.ident, fun g' j' hj' hk => absurd (by rw [hk]; rfl) (hnone g' j' hj')⟩
    rw [hb] at h
    cases h
  refine ⟨hwf, by rw [hio], fun g' _ _ => hio ▸ .refl g' _, fun g' hge _ =>
    hwf.countsAt_ge (by rw [hio]; exact hge), fun h => ?_, howed, hfleet,
    fun _ j' hj' => ⟨j', hio ▸ hj', .refl j'⟩,
    fun g' hge _ hj' => (hwf.none_ge (by rw [hio]; exact hge) hj').elim, by rw [hio]⟩
  rw [hidle] at h
  cases h

/-- A fetch starts with the shard in hand. -/
theorem gathered_seeded {x : Scrub} (h : x.identIndex < C.k + C.m) (g : ℕ) :
    (Assembly.seeded x g).gathered C = 1 := by
  have hone := length_filter_update (f := fun _ => none) h rfl x.shard
  simpa [Assembly.gathered, Assembly.seeded] using hone

/-- A fetch takes an assembly nobody owns, or does nothing. -/
theorem scrubFetch_spec (hs : s.Wf C) (missing : List ℕ) (g : ℕ) :
    About C g 0 s (scrubFetch C N s missing) := by
  unfold scrubFetch
  dsimp only
  split
  · exact (extra_scrubNextKey hs.sound).about hs
  next hidle =>
  have hidle : s.asm.busy = false := by simpa using hidle
  split
  · -- no room for the join: the assembly is let go at once
    have hlet : About C g 0 s (EcState.letGoScrub { s with
        asm := Assembly.seeded s.scrub s.asm.join
        scrub := { s.scrub with repair := fun r => decide (r ∈ missing) } }) :=
      about_idle hs hidle rfl rfl rfl (fun _ => rfl) rfl rfl
    exact hlet.trans ((extra_scrubNextKey hlet.wf.sound).about hlet.wf)
  · next g₁ io hstart =>
    generalize hhomes : (List.range s.scrub.ranked.length).filter
      (fun r => decide (r ≠ s.scrub.identIndex ∧ s.scrub.present r = true)) = homes
    obtain ⟨new, hasks, hlen⟩ := Fanout.askAll_spec C.pendingCap N g₁ (homes.map fun r =>
      (s.scrub.ranked.getD r 0, BodyReq.get (deriveShardKey C.sha s.scrub.digest r))) io
    generalize Fanout.askAll C.pendingCap N g₁ (homes.map fun r =>
      (s.scrub.ranked.getD r 0, BodyReq.get (deriveShardKey C.sha s.scrub.digest r))) io
        = asked at hasks hlen
    have ho := ((Fanout.opens_start hs.sound hstart).asks hasks).modify fun j =>
      { j with need := homes.length - asked.2 }
    have hopen := about_opened (EcState.setJoin { s with
        io := asked.1, asm := Assembly.seeded s.scrub g₁
        scrub := { s.scrub with repair := fun r => decide (r ∈ missing) } } g₁
          fun j => { j with need := homes.length - asked.2 }) hs ho
      (.inr ⟨rfl, hidle, rfl, rfl, rfl⟩) (fun h => by cases h) rfl rfl rfl
    split
    · obtain ⟨habout, hclosed⟩ := scrubFetchFailed_spec (N := N) hopen.wf ho.join rfl
      exact (hopen.trans habout).forget hs (Nat.le_of_eq ho.gen.symm) (countsAt_of_closed hclosed) g
    next henough =>
    refine hopen.forget hs (Nat.le_of_eq ho.gen.symm) (countsAt_of_opens ho ?_) g
    -- the shard in hand is gathered, the others are awaited
    have hone := gathered_seeded hs.ident g₁
    have htwo := C.two_le
    rw [List.length_map] at hlen
    refine (EcJoin.counts_fetch rfl).mpr ?_
    change (Assembly.seeded s.scrub g₁).gathered C < C.k ∧
      C.k ≤ (Assembly.seeded s.scrub g₁).gathered C + ([] ++ new).length ∧
      0 + 0 + ([] ++ new).length = homes.length - asked.2
    rw [hone, List.nil_append]
    omega

/-- **Every home answered the probe**: the scrub heals, or goes on. -/
theorem scrubProbeResolve_spec (hs : s.Wf C) (g : ℕ) : About C g 0 s (scrubProbeResolve C N s) := by
  unfold scrubProbeResolve
  dsimp only
  have hnext : ∀ s', Extra s s' → About C g 0 s (scrubNextKey C N s') := fun s' h =>
    (h.trans (extra_scrubNextKey h.io.sound)).about hs
  split
  · split
    · exact hnext _ (extra_cleanup hs.sound _)
    · exact hnext _ (.refl hs.sound)
  split
  · exact hnext _ (extra_oneRepair hs.sound _ _)
  split
  · exact hnext _ (.refl hs.sound)
  · exact scrubFetch_spec hs _ g

/-- A shard is in hand: the scrub may remember what it is. -/
theorem about_ident (hs : s.Wf C) {x : Scrub} (hx : x.identIndex < C.k + C.m) (g : ℕ) :
    About C g 0 s { s with scrub := x } := by
  have hwf : EcState.Wf C { s with scrub := x } :=
    ⟨hs.sound, hs.owner, hs.busy, hs.idle, hx, hs.reads⟩
  exact ⟨hwf, Nat.le_refl _, fun g' _ _ => .refl g' _, fun _ hge _ => hwf.countsAt_ge hge,
    fun _ _ => rfl, fun _ => rfl, rfl, fun _ j' hj' => ⟨j', hj', .refl j'⟩,
    fun _ hge _ hj' => (hwf.none_ge hge hj').elim, List.prefix_rfl⟩

theorem scrubProbe_spec (hs : s.Wf C) (g : ℕ) : About C g 0 s (scrubProbe C N s) := by
  unfold scrubProbe
  split
  · exact (extra_scrubNextKey hs.sound).about hs
  next g₁ io hstart =>
  obtain ⟨new, hasks, -⟩ := Fanout.askAll_spec C.pendingCap N g₁
    (shardQuestions (fun i => .head (deriveShardKey C.sha s.scrub.digest i)) s.scrub.ranked) io
  dsimp only
  split
  · have hclosed := extra_closed hs.sound hstart hasks (x := { s.scrub with
      probeResp := (Fanout.askAll C.pendingCap N g₁ (shardQuestions (fun i =>
        .head (deriveShardKey C.sha s.scrub.digest i)) s.scrub.ranked) io).2 }) rfl
    exact (hclosed.about hs).trans (scrubProbeResolve_spec (hclosed.wf hs) g)
  · exact (extra_asked hs.sound ⟨rfl, rfl⟩ hstart hasks (x := { s.scrub with
      probeResp := (Fanout.askAll C.pendingCap N g₁ (shardQuestions (fun i =>
        .head (deriveShardKey C.sha s.scrub.digest i)) s.scrub.ranked) io).2 }) rfl).about hs

/-- **The blob behind a key came**, or did not. -/
theorem scrubApplyIdent_spec (hs : s.Wf C) (key : Digest) (resp : BodyResp) (g : ℕ) :
    About C g 0 s (scrubApplyIdent C N s key resp) := by
  have hnext : About C g 0 s (scrubNextKey C N s) := (extra_scrubNextKey hs.sound).about hs
  unfold scrubApplyIdent
  split
  · split
    · next hdr shard _ _ =>
      dsimp only
      split
      · exact hnext
      next hours =>
      split
      · exact hnext
      have hidx : hdr.index < C.k + C.m := by
        simp only [ShardHeader.ours, Bool.not_eq_true', Bool.not_eq_false, Bool.and_eq_true,
          decide_eq_true_eq] at hours
        exact hours.1.1.1.1.1.2
      have hident := about_ident hs (x := { s.scrub with
        digest := hdr.bodyDigest, identIndex := hdr.index, shardLen := hdr.shardLen
        bodyLen := hdr.bodyLen, shard := shard
        ranked := rankTargets C s.fleet hdr.bodyDigest, present := fun _ => false
        probeResp := 0 }) hidx g
      exact hident.trans (scrubProbe_spec hident.wf g)
    · exact hnext
  · exact hnext

/-- A join that was closed stays so, whatever else is done. -/
theorem About.closed (h : ∀ g', About C g' 0 s s') (hlt : g < s.io.nextGen)
    (hn : s.io.join? g = none) : s'.io.join? g = none :=
  ((h s.io.nextGen).keeps g hlt (Nat.ne_of_lt hlt)).1.trans hn

theorem answerScan_spec (hs : s.Wf C) (hj : s.io.join? g = some j) (hi : j.Inert)
    (resp : BodyResp) :
    About C g 0 s (answerScan C N s g resp) ∧ (answerScan C N s g resp).io.join? g = none := by
  have hfree := about_free hs hj hi
  have hextra : Extra (s.freeJoin g) (answerScan C N s g resp) := by
    have hscrub : ∀ x : Scrub, x.identIndex = s.scrub.identIndex →
        Extra (s.freeJoin g) { s.freeJoin g with scrub := x } := fun x hx =>
      extra_scrub hfree.wf.sound hx
    unfold answerScan
    dsimp only
    split
    · next next page =>
      have hnext : Extra (s.freeJoin g) (if next = 0
          then scrubNextMember C { s.freeJoin g with scrub := { s.scrub with scanInflight := false } }
          else { s.freeJoin g with scrub :=
            { { s.scrub with scanInflight := false } with cursor := next } }) := by
        split
        · exact hscrub _ rfl
        · exact hscrub _ rfl
      split
      · exact hnext
      · exact hnext.trans (extra_startIdent _ hnext.io.sound)
    · exact hscrub _ rfl
  have hlt : g < s.io.nextGen := Fanout.join?_lt hs.sound hj
  exact ⟨hfree.trans (hextra.about hfree.wf), hextra.closed hlt (closed_free (s := s))⟩

variable (resp) in
theorem answerProbe_spec (hs : s.Wf C) (hj : s.io.join? g = some j) (hi : j.Inert) :
    About C g 0 s (answerProbe C N s g j t resp) ∧ (answerProbe C N s g j t resp).CountsAt C g := by
  have hset := (extra_scrub hs.sound (x := s.scrub.heard j t resp) rfl).about (g := g) hs
  have hj' : (EcState.io { s with scrub := s.scrub.heard j t resp }).join? g = some j := hj
  unfold answerProbe
  dsimp only
  split
  · generalize ({ s with scrub := s.scrub.heard j t resp } : EcState) = s₁ at hset hj'
    have hfree := about_free hset.wf hj' hi
    have hlt : g < s₁.io.nextGen := Fanout.join?_lt hset.wf.sound hj'
    exact ⟨(hset.trans hfree).trans (scrubProbeResolve_spec hfree.wf g), countsAt_of_closed
      (About.closed (fun g' => scrubProbeResolve_spec hfree.wf g') hlt (closed_free (s := s₁)))⟩
  · refine ⟨hset, fun j₀ hj₀ => ?_⟩
    rw [hj'] at hj₀
    cases hj₀
    exact hi.counts

/-- A fetch goes on while the homes left can make `k` shards. -/
theorem scrubFetchCheck_spec (hs : s.Wf C) (hj : s.io.join? g = some j)
    (hk : j.kind = .scrubFetch) :
    About C g 0 s (scrubFetchCheck C N s g) ∧
      (s.asm.gathered C < C.k → j.ack + j.fail + (s.io.tickets g).length = j.need →
        (scrubFetchCheck C N s g).Waits C g ((s.io.tickets g).length + 1)) := by
  unfold scrubFetchCheck
  rw [hj]
  dsimp only
  split
  · obtain ⟨habout, hclosed⟩ := scrubFetchFailed_spec (N := N) hs hj hk
    exact ⟨habout, fun _ _ => waits_of_closed hclosed⟩
  refine ⟨.refl hs, fun hfew hneed => waits_of_counts hj ((EcJoin.counts_fetch hk).mpr ?_) ?_
    (.inr (by rw [hk]; rfl))⟩
  · omega
  · rw [EcJoin.left_of_ne (by rw [hk]; simp)]
    exact Nat.lt_succ_self _

variable (resp) in
/-- **A home answered a fetch.** -/
theorem answerFetch_spec (hs : s.Wf C) (hj : s.io.join? g = some j) (hk : j.kind = .scrubFetch) :
    About C g 0 s (answerFetch C N s g j t resp) ∧
      (j.Counts C ((s.io.tickets g).length + 1) (s.asm.gathered C) →
        (answerFetch C N s g j t resp).Waits C g ((s.io.tickets g).length + 1)) := by
  rw [EcJoin.counts_fetch hk]
  -- a home that did not bring a shard
  have hother : About C g 0 s (scrubFetchCheck C N
        (s.setJoin g fun j => { j with fail := j.fail + 1 }) g) ∧
      (s.asm.gathered C < C.k ∧ C.k ≤ s.asm.gathered C + ((s.io.tickets g).length + 1)
          ∧ j.ack + j.fail + ((s.io.tickets g).length + 1) = j.need →
        (scrubFetchCheck C N (s.setJoin g fun j => { j with fail := j.fail + 1 }) g).Waits C g
          ((s.io.tickets g).length + 1)) := by
    have hset := about_set hs hj (h := fun j => { j with fail := j.fail + 1 })
      ⟨rfl, rfl, rfl, rfl, rfl⟩
    obtain ⟨habout, hwaits⟩ := scrubFetchCheck_spec (N := N) hset.wf (join?_setJoin hj _) hk
    refine ⟨hset.trans habout, fun hc => hwaits hc.1 ?_⟩
    change j.ack + (j.fail + 1) + (s.io.tickets g).length = j.need
    omega
  cases resp with
  | get payload =>
    obtain ⟨habout, hdone, hkept⟩ := assemblyTakeShard_spec (N := N) (t := t) payload
      hs hj (by rw [hk]; rfl) (fun h => by rw [hk] at h; cases h)
    unfold answerFetch
    dsimp only
    split
    · next hd => exact ⟨habout, fun _ => waits_of_closed (hdone hd)⟩
    next hd =>
    -- the shard was kept or turned away, and the join is as it was
    have hsame : ∃ a', (assemblyTakeShard C N s g j t payload).1 = { s with asm := a' } ∧
        (s.asm.gathered C < C.k → a'.gathered C < C.k) := by
      rcases hkept (by simpa using hd) with ⟨-, heq⟩ | ⟨a', -, hfew, heq⟩
      · exact ⟨s.asm, heq, id⟩
      · exact ⟨a', heq, fun _ => hfew⟩
    obtain ⟨a', heq, hfew⟩ := hsame
    rw [heq] at habout ⊢
    have hin : (EcState.io { s with asm := a' }).join? g = some j := hj
    have hset := about_set habout.wf hin (h := fun j => { j with ack := j.ack + 1 })
      ⟨rfl, rfl, rfl, rfl, rfl⟩
    obtain ⟨hcheck, hwaits⟩ := scrubFetchCheck_spec (N := N) hset.wf (join?_setJoin hin _) hk
    refine ⟨(habout.trans hset).trans hcheck, fun hc => hwaits (hfew hc.1) ?_⟩
    change j.ack + 1 + j.fail + (s.io.tickets g).length = j.need
    omega
  | _ => exact hother

/-! ## Any answer -/

variable (resp) in
/-- **A member answered a join.** What it does is about that join, and the join
goes on as it should – a read, if the assembly does not turn the record
away. -/
theorem applyJoinResponse_spec (hs : s.Wf C) (hj : s.io.join? g = some j)
    (ht : j.kind = .get → t ∉ (s.io.tickets g).map Ticket.peer)
    (hnew : j.kind = .get → ∀ i, j.targets.findIdx? (fun t' => t' = t) = some i →
      s.asm.shards i = none) :
    About C g 0 s (applyJoinResponse C N s g j t resp) ∧
      (j.Counts C ((s.io.tickets g).length + 1) (s.asm.gathered C) →
        (j.kind = .get → ∀ payload, resp = .get payload →
          (s.asm.accept C j.targets t payload).isSome) →
        (¬j.Inert → (applyJoinResponse C N s g j t resp).Waits C g
          (j.left ((s.io.tickets g).length + 1)))
        ∧ (applyJoinResponse C N s g j t resp).CountsAt C g) := by
  have hleft : ∀ n, j.kind ≠ .head → j.left n = n := fun n hk => if_neg hk
  have hcount : ∀ {s' : EcState} {n : ℕ}, s'.Waits C g n → s'.CountsAt C g := fun h j hj => (h j hj).1
  unfold applyJoinResponse
  cases hk : j.kind with
  | put =>
    obtain ⟨habout, hwaits⟩ := answerPut_spec hs hj hk resp
    refine ⟨habout, fun hc _ => ⟨fun _ => ?_, hcount (hwaits hc)⟩⟩
    rw [hleft _ (by simp [hk])]
    exact hwaits hc
  | get =>
    obtain ⟨habout, hwaits⟩ := answerGet_spec (N := N) resp hs hj hk (ht hk) (hnew hk)
    refine ⟨habout, fun hc hok => ⟨fun _ => ?_, hcount (hwaits hc (hok rfl))⟩⟩
    rw [hleft _ (by simp [hk])]
    exact hwaits hc (hok rfl)
  | head =>
    obtain ⟨habout, hwaits⟩ := answerHead_spec (N := N) hs hj hk resp
    refine ⟨habout, fun hc _ => ?_⟩
    rw [EcJoin.counts_head hk] at hc
    refine ⟨fun _ => ?_, hcount (hwaits hc.2)⟩
    rw [EcJoin.left, if_pos hk]
    exact hwaits hc.2
  | delete =>
    obtain ⟨habout, hwaits⟩ := answerDelete_spec hs hj hk resp
    refine ⟨habout, fun hc _ => ⟨fun _ => ?_, hcount (hwaits hc)⟩⟩
    rw [hleft _ (by simp [hk])]
    exact hwaits hc
  | scrubFetch =>
    obtain ⟨habout, hwaits⟩ := answerFetch_spec (N := N) (t := t) resp hs hj hk
    refine ⟨habout, fun hc _ => ⟨fun _ => ?_, hcount (hwaits hc)⟩⟩
    rw [hleft _ (by simp [hk])]
    exact hwaits hc
  | scrubScan =>
    have hi : j.Inert := ⟨by rw [hk]; rfl, by rw [hk]; rfl⟩
    obtain ⟨habout, hclosed⟩ := answerScan_spec (N := N) hs hj hi resp
    exact ⟨habout, fun _ _ => ⟨fun h => absurd hi h, countsAt_of_closed hclosed⟩⟩
  | scrubIdent =>
    have hi : j.Inert := ⟨by rw [hk]; rfl, by rw [hk]; rfl⟩
    have hfree := about_free hs hj hi
    have hlt : g < s.io.nextGen := Fanout.join?_lt hs.sound hj
    exact ⟨hfree.trans (scrubApplyIdent_spec hfree.wf _ _ g), fun _ _ => ⟨fun h => absurd hi h,
      countsAt_of_closed (About.closed (fun g' => scrubApplyIdent_spec hfree.wf _ _ g') hlt
        (closed_free (s := s)))⟩⟩
  | scrubProbe =>
    have hi : j.Inert := ⟨by rw [hk]; rfl, by rw [hk]; rfl⟩
    obtain ⟨habout, hcounts⟩ := answerProbe_spec (N := N) (t := t) resp hs hj hi
    exact ⟨habout, fun _ _ => ⟨fun h => absurd hi h, hcounts⟩⟩
  | scrubRepair | scrubCleanup =>
    have hi : j.Inert := ⟨by rw [hk]; rfl, by rw [hk]; rfl⟩
    exact ⟨about_free hs hj hi, fun _ _ => ⟨fun h => absurd hi h, countsAt_of_closed closed_free⟩⟩

end Answers

end Loam

import Mathlib.Tactic.Common
import Mathlib.Data.List.Nodup
import Mathlib.Data.List.Count
import Mathlib.Logic.Function.Basic
import Mathlib.Tactic.NormNum

/-!
# Requests fanned out to peers

A router answers a request by asking several peers and joining their answers.
It keeps the requests in hand, the *joins*, and the answers it awaits, the
*tickets*. A ticket belongs to one join and names the peer asked; an answer is
matched by its peer and its correlation id, never by its order, and a ticket is
spent once, by its answer or by its deadline. A join is told apart from every
other by its generation, so an answer for a join that was closed finds nothing.

Whether a peer takes a question is not the router's choice: `net` says, attempt
by attempt.

Generations and tickets are numbered without end here. What a router keeps of
them is less: the place of a join in its table and a stamp that wraps, and an id
for a question that wraps (`slots`, `stamp`, `ids`). What an answer meets by
these is `settleId` and `holder`, and it is the join that asked as long as
neither names another (`settle_of_settleId`, `holder_ne_none`).

What the rules below say of one operation is what it does to one join: the join
it is about, and every other, which it leaves as it was (`Same`).
-/

namespace Fanout

/-- An answer awaited from a peer, for a join. -/
structure Ticket (μ : Type) where
  /-- The correlation id the question carried. -/
  cid : ℕ
  peer : μ
  join : ℕ
deriving DecidableEq

/-- A question sent. -/
structure Question (μ ρ : Type) where
  cid : ℕ
  peer : μ
  req : ρ
deriving DecidableEq

end Fanout

open Fanout

/-- The joins in hand and the answers awaited. -/
structure Fanout (μ ρ J : Type) where
  joins : List (ℕ × J)
  nextGen : ℕ
  awaited : List (Ticket μ)
  nextCid : ℕ
  /-- The attempts made to ask a peer. -/
  tries : ℕ
  sent : List (Question μ ρ)
  slots : ℕ → ℕ
  ids : ℕ → ℕ
  lastId : ℕ

namespace Fanout

variable {μ ρ J : Type}

/-- Nothing in hand. -/
def empty : Fanout μ ρ J := ⟨[], 0, [], 0, 0, [], fun _ => 0, fun _ => 0, 0⟩

variable (f : Fanout μ ρ J)

/-- The join of a generation, while it is in hand. -/
def join? (g : ℕ) : Option J := (f.joins.find? fun p => p.1 = g).map Prod.snd

/-- The tickets of a join. -/
def tickets (g : ℕ) : List (Ticket μ) := f.awaited.filter fun t => t.join = g

/-- The joins of a kind. -/
def count (p : J → Bool) : ℕ := f.joins.countP fun q => p q.2

/-- The ids there are, from 0. -/
def idRange : ℕ := 2 ^ 32

/-- The stamps there are. -/
def stampRange : ℕ := 2 ^ 16

/-- The stamp of a generation. -/
def stamp (g : ℕ) : ℕ := (g + 1) % stampRange

/-- The first free place of the table. -/
def freeSlot (cap : ℕ) : ℕ :=
  ((List.range cap).find? fun i => f.joins.all fun p => f.slots p.1 ≠ i).getD 0

/-- The next id: never 0, never one still awaited. -/
def freshId : ℕ :=
  (((List.range (f.awaited.length + 2)).map fun i => (f.lastId + 1 + i) % idRange).find? fun id =>
    id ≠ 0 && f.awaited.all fun t => f.ids t.cid ≠ id).getD 0

/-- Take a join in hand, where the table has room. -/
def start (cap : ℕ) (j : J) : Option (ℕ × Fanout μ ρ J) :=
  if f.joins.length < cap then
    some (f.nextGen, { f with joins := f.joins ++ [(f.nextGen, j)], nextGen := f.nextGen + 1
                              slots := Function.update f.slots f.nextGen (f.freeSlot cap) })
  else none

/-- Close a join. -/
def close (g : ℕ) : Fanout μ ρ J := { f with joins := f.joins.filter fun p => p.1 ≠ g }

/-- Change a join. -/
def modify (g : ℕ) (h : J → J) : Fanout μ ρ J :=
  { f with joins := f.joins.map fun p => if p.1 = g then (p.1, h p.2) else p }

/-- Ask a peer, for a join. -/
def ask (cap : ℕ) (net : ℕ → Bool) (g : ℕ) (peer : μ) (req : ρ) : Fanout μ ρ J × Bool :=
  if f.awaited.length < cap ∧ net f.tries = true then
    ({ f with awaited := f.awaited ++ [⟨f.nextCid, peer, g⟩], nextCid := f.nextCid + 1
              tries := f.tries + 1, sent := f.sent ++ [⟨f.nextCid, peer, req⟩]
              ids := Function.update f.ids f.nextCid f.freshId, lastId := f.freshId }, true)
  else ({ f with tries := f.tries + 1 }, false)

/-- Ask several peers in turn, for a join; counts those that refused. -/
def askAll (cap : ℕ) (net : ℕ → Bool) (g : ℕ) :
    List (μ × ρ) → Fanout μ ρ J → Fanout μ ρ J × ℕ
  | [], f => (f, 0)
  | (peer, req) :: rest, f =>
    let (f, ok) := f.ask cap net g peer req
    let (f, refused) := askAll cap net g rest f
    (f, if ok then refused else refused + 1)

/-- Spend the ticket a peer answered. -/
def settle [DecidableEq μ] (peer : μ) (cid : ℕ) : Option (Ticket μ × Fanout μ ρ J) :=
  (f.awaited.find? fun t => t.peer = peer ∧ t.cid = cid).map fun t =>
    (t, { f with awaited := f.awaited.filter fun t' => t'.cid ≠ t.cid })

/-- Spend a ticket past its deadline. -/
def lapse (cid : ℕ) : Option (Ticket μ × Fanout μ ρ J) :=
  (f.awaited.find? fun t => t.cid = cid).map fun t =>
    (t, { f with awaited := f.awaited.filter fun t' => t'.cid ≠ t.cid })

/-- Spend the ticket a peer answered under the id of a question. -/
def settleId [DecidableEq μ] (peer : μ) (cid : ℕ) : Option (Ticket μ × Fanout μ ρ J) :=
  (f.awaited.find? fun t => t.peer = peer ∧ f.ids t.cid = f.ids cid).map fun t =>
    (t, { f with awaited := f.awaited.filter fun t' => t'.cid ≠ t.cid })

/-- The join in hand where the join of a ticket was, under the stamp it had. -/
def holder (g : ℕ) : Option ℕ :=
  (f.joins.find? fun p => f.slots p.1 = f.slots g ∧ stamp p.1 = stamp g).map Prod.fst

/-- Generations and correlation ids are used once. -/
structure Sound : Prop where
  /-- The joins in hand have generations of their own. -/
  joins_nodup : (f.joins.map Prod.fst).Nodup
  joins_lt : ∀ p ∈ f.joins, p.1 < f.nextGen
  cids_nodup : (f.awaited.map Ticket.cid).Nodup
  /-- Every correlation id was given out. -/
  cids_lt : ∀ t ∈ f.awaited, t.cid < f.nextCid
  tickets_lt : ∀ t ∈ f.awaited, t.join < f.nextGen

/-- A join, with its tickets, is the same in two states. -/
def Same (g : ℕ) (f f' : Fanout μ ρ J) : Prop := f'.join? g = f.join? g ∧ f'.tickets g = f.tickets g

variable {f} {f' f'' : Fanout μ ρ J} {g g' cid cap cap' : ℕ} {net : ℕ → Bool} {j j' : J} {h : J → J}
  {peer : μ} {req : ρ} {t : Ticket μ} {p : J → Bool}

theorem Same.refl (g : ℕ) (f : Fanout μ ρ J) : Same g f f := ⟨rfl, rfl⟩

/-- What stays the same twice stays the same. -/
theorem Same.trans (h : Same g f f') (h' : Same g f' f'') : Same g f f'' :=
  ⟨h'.1.trans h.1, h'.2.trans h.2⟩

theorem stampRange_pos : 1 ≤ stampRange := Nat.one_le_two_pow

theorem stampRange_lt_idRange : stampRange + 3 < idRange := by norm_num [stampRange, idRange]

/-- Nothing in hand is sound. -/
theorem sound_empty : Sound (empty : Fanout μ ρ J) := by
  constructor <;> simp [empty]

/-- A join that is found is in the table. -/
theorem mem_joins_of_join? (h : f.join? g = some j) : (g, j) ∈ f.joins := by
  obtain ⟨⟨g', j'⟩, hfind, rfl⟩ := Option.map_eq_some_iff.mp h
  have hg := List.find?_some hfind
  simp only [decide_eq_true_eq] at hg
  exact hg ▸ List.mem_of_find?_eq_some hfind

theorem join?_of_mem (hs : f.Sound) (h : (g, j) ∈ f.joins) : f.join? g = some j := by
  cases hfind : f.joins.find? fun p => p.1 = g with
  | none => simpa using List.find?_eq_none.mp hfind _ h
  | some q =>
    have hq := List.find?_some hfind
    simp only [decide_eq_true_eq] at hq
    have heq := List.inj_on_of_nodup_map hs.joins_nodup (List.mem_of_find?_eq_some hfind) h hq
    simp [join?, hfind, heq]

/-- A join in hand was started. -/
theorem join?_lt (hs : f.Sound) (h : f.join? g = some j) : g < f.nextGen :=
  hs.joins_lt _ (mem_joins_of_join? h)

/-- The tickets of a join are among those awaited. -/
theorem mem_tickets : t ∈ f.tickets g ↔ t ∈ f.awaited ∧ t.join = g := by
  simp [tickets]

/-- A join not yet started has no tickets. -/
theorem tickets_of_ge (hs : f.Sound) (h : f.nextGen ≤ g) : f.tickets g = [] := by
  refine List.filter_eq_nil_iff.mpr fun t ht => ?_
  have := hs.tickets_lt t ht
  simpa using fun he => by omega

/-! ## Starting a join -/

section Start

/-- What starting a join does, where there is room. -/
theorem start_eq_some (h : f.start cap j = some (g, f')) :
    g = f.nextGen ∧
      f' = { f with joins := f.joins ++ [(f.nextGen, j)], nextGen := f.nextGen + 1
                    slots := Function.update f.slots f.nextGen (f.freeSlot cap) } := by
  unfold start at h
  split at h
  · cases h
    exact ⟨rfl, rfl⟩
  · cases h

theorem Sound.start (hs : f.Sound) (h : f.start cap j = some (g, f')) : f'.Sound := by
  obtain ⟨rfl, rfl⟩ := start_eq_some h
  refine ⟨?_, ?_, hs.cids_nodup, hs.cids_lt, fun t ht => Nat.lt_succ_of_lt (hs.tickets_lt t ht)⟩
  · simp only [List.map_append, List.map_cons, List.map_nil]
    refine List.nodup_append.mpr ⟨hs.joins_nodup, List.nodup_singleton _, ?_⟩
    rintro a ha b hb rfl
    obtain ⟨q, hq, rfl⟩ := List.mem_map.mp ha
    have := hs.joins_lt q hq
    rw [List.mem_singleton.mp hb] at this
    exact Nat.lt_irrefl _ this
  · intro q hq
    rcases List.mem_append.mp hq with hq | hq
    · exact Nat.lt_succ_of_lt (hs.joins_lt q hq)
    rw [List.mem_singleton.mp hq]
    exact Nat.lt_succ_self _

/-- The join started is in hand. -/
theorem join?_start (hs : f.Sound) (h : f.start cap j = some (g, f')) : f'.join? g = some j := by
  refine join?_of_mem (hs.start h) ?_
  obtain ⟨rfl, rfl⟩ := start_eq_some h
  simp

/-- It has asked nobody yet. -/
theorem tickets_start (hs : f.Sound) (h : f.start cap j = some (g, f')) : f'.tickets g = [] := by
  obtain ⟨rfl, rfl⟩ := start_eq_some h
  exact tickets_of_ge (f := f) hs (Nat.le_refl _)

theorem same_start (h : f.start cap j = some (g, f')) (hne : g' ≠ g) : Same g' f f' := by
  obtain ⟨rfl, rfl⟩ := start_eq_some h
  refine ⟨?_, rfl⟩
  simp [join?, List.find?_append, Ne.symm hne]

theorem count_start (h : f.start cap j = some (g, f')) :
    f'.count p = f.count p + if p j then 1 else 0 := by
  obtain ⟨rfl, rfl⟩ := start_eq_some h
  simp [count, List.countP_append, List.countP_cons]

end Start

/-! ## Closing and changing a join -/

section Close

@[simp] theorem nextGen_close : (f.close g).nextGen = f.nextGen := rfl
@[simp] theorem sent_modify : (f.modify g h).sent = f.sent := rfl
@[simp] theorem tickets_modify : (f.modify g h).tickets g' = f.tickets g' := rfl
theorem Sound.close (hs : f.Sound) (g : ℕ) : (f.close g).Sound :=
  ⟨hs.joins_nodup.sublist (List.filter_sublist.map _),
    fun q hq => hs.joins_lt q (List.mem_filter.mp hq).1, hs.cids_nodup, hs.cids_lt, hs.tickets_lt⟩

@[simp] theorem join?_close (f : Fanout μ ρ J) (g : ℕ) : (f.close g).join? g = none := by
  simp [join?, close, List.find?_filter]

/-- Closing a join closes no other. -/
theorem join?_close_ne (hne : g' ≠ g) : (f.close g).join? g' = f.join? g' := by
  simp only [join?, close, List.find?_filter]
  congr 2
  funext q
  by_cases hq : q.1 = g'
  · simp [hq, hne]
  · simp [hq]

/-- A join in hand after another was closed was so before. -/
theorem join?_of_close (h : (f.close g).join? g' = some j) : f.join? g' = some j := by
  by_cases hg : g' = g
  · rw [hg, join?_close] at h
    cases h
  · exact (join?_close_ne hg).symm.trans h

theorem same_close (hne : g' ≠ g) : Same g' f (f.close g) := ⟨join?_close_ne hne, rfl⟩

/-- No other join has its generation. -/
theorem Sound.joins_split (hs : f.Sound) (h : f.join? g = some j) :
    ∃ l₁ l₂, f.joins = l₁ ++ (g, j) :: l₂ ∧ (∀ q ∈ l₁, q.1 ≠ g) ∧ ∀ q ∈ l₂, q.1 ≠ g := by
  obtain ⟨l₁, l₂, he⟩ := List.append_of_mem (mem_joins_of_join? h)
  have hnodup := hs.joins_nodup
  rw [he, List.map_append, List.map_cons, List.perm_middle.nodup_iff, List.nodup_cons,
    ← List.map_append] at hnodup
  have hne : ∀ q ∈ l₁ ++ l₂, q.1 ≠ g := fun q hq heq => hnodup.1 (List.mem_map.mpr ⟨q, hq, heq⟩)
  exact ⟨l₁, l₂, he, fun q hq => hne q (List.mem_append_left _ hq),
    fun q hq => hne q (List.mem_append_right _ hq)⟩

/-- One join fewer of a kind, if it was of it. -/
theorem count_close (hs : f.Sound) (h : f.join? g = some j) :
    (f.close g).count p + (if p j then 1 else 0) = f.count p := by
  obtain ⟨l₁, l₂, he, h₁, h₂⟩ := hs.joins_split h
  have hkeep : ∀ l : List (ℕ × J), (∀ q ∈ l, q.1 ≠ g) →
      l.filter (fun q => decide (q.1 ≠ g)) = l := fun l hl =>
    List.filter_eq_self.mpr fun q hq => decide_eq_true (hl q hq)
  simp only [count, close, he]
  rw [List.filter_append, List.filter_cons_of_neg (by simp), hkeep l₁ h₁, hkeep l₂ h₂,
    List.countP_append, List.countP_append, List.countP_cons]
  dsimp only
  omega

theorem Sound.modify (hs : f.Sound) (g : ℕ) (h : J → J) : (f.modify g h).Sound := by
  have hfst : ((f.modify g h).joins.map Prod.fst) = f.joins.map Prod.fst := by
    simp only [Fanout.modify, List.map_map]
    refine List.map_congr_left fun q _ => ?_
    simp only [Function.comp_apply]
    split <;> rfl
  refine ⟨hfst ▸ hs.joins_nodup, fun q hq => ?_, hs.cids_nodup, hs.cids_lt, hs.tickets_lt⟩
  have hq : q.1 ∈ f.joins.map Prod.fst := hfst ▸ List.mem_map_of_mem hq
  obtain ⟨q', hq', he⟩ := List.mem_map.mp hq
  exact he ▸ hs.joins_lt q' hq'

/-- A changed join is as it was changed. -/
@[simp] theorem join?_modify (f : Fanout μ ρ J) (g : ℕ) (h : J → J) :
    (f.modify g h).join? g = (f.join? g).map h := by
  simp only [join?, Fanout.modify]
  induction f.joins with
  | nil => rfl
  | cons q l ih =>
    by_cases hq : q.1 = g
    · simp [hq]
    · simpa [hq] using ih

/-- Changing a join changes no other. -/
theorem join?_modify_ne (hne : g' ≠ g) : (f.modify g h).join? g' = f.join? g' := by
  simp only [join?, Fanout.modify]
  induction f.joins with
  | nil => rfl
  | cons q l ih =>
    by_cases hq : q.1 = g
    · simpa [hq, Ne.symm hne] using ih
    by_cases hq' : q.1 = g'
    · simp [hq', hne]
    · simpa [hq, hq'] using ih

theorem same_modify (hne : g' ≠ g) : Same g' f (f.modify g h) := ⟨join?_modify_ne hne, rfl⟩

/-- A changed join is counted as what it is now. -/
theorem count_modify (hs : f.Sound) (hj : f.join? g = some j) :
    (f.modify g h).count p + (if p j then 1 else 0) = f.count p + if p (h j) then 1 else 0 := by
  obtain ⟨l₁, l₂, he, h₁, h₂⟩ := hs.joins_split hj
  have hkeep : ∀ l : List (ℕ × J), (∀ q ∈ l, q.1 ≠ g) →
      (l.map fun q => if q.1 = g then (q.1, h q.2) else q) = l := fun l hl =>
    (List.map_congr_left fun q hq => if_neg (hl q hq)).trans (List.map_id l)
  simp only [count, Fanout.modify, he]
  rw [List.map_append, List.map_cons, if_pos rfl, hkeep l₁ h₁, hkeep l₂ h₂, List.countP_append,
    List.countP_append, List.countP_cons, List.countP_cons]
  dsimp only
  omega

end Close

/-! ## Asking -/

section Ask

/-- What asking for a join may do: tickets are added for it, each with the
question that was sent, and nothing else changes. -/
structure Asks (cap g : ℕ) (qs : List (μ × ρ)) (f f' : Fanout μ ρ J)
    (new : List (Ticket μ)) : Prop where
  joins : f'.joins = f.joins
  nextGen : f'.nextGen = f.nextGen
  awaited : f'.awaited = f.awaited ++ new
  join : ∀ t ∈ new, t.join = g
  cids : (new.map Ticket.cid).Nodup ∧ ∀ t ∈ new, f.nextCid ≤ t.cid ∧ t.cid < f'.nextCid
  /-- Correlation ids only go up. -/
  nextCid : f.nextCid ≤ f'.nextCid
  peers : (new.map Ticket.peer).Sublist (qs.map Prod.fst)
  asked : ∀ t ∈ new, ∃ q ∈ qs, q.1 = t.peer ∧ (⟨t.cid, q.1, q.2⟩ : Question μ ρ) ∈ f'.sent
  sent : f.sent <+: f'.sent

/-- Asking one peer buys one ticket, or none if it refuses. -/
theorem ask_spec (f : Fanout μ ρ J) (cap : ℕ) (net : ℕ → Bool) (g : ℕ) (peer : μ) (req : ρ) :
    ∃ new, Asks cap g [(peer, req)] f (f.ask cap net g peer req).1 new ∧
      new.length = if (f.ask cap net g peer req).2 then 1 else 0 := by
  unfold ask
  split
  · refine ⟨[⟨f.nextCid, peer, g⟩], ⟨rfl, rfl, rfl, ?_, ?_, Nat.le_succ _, ?_, ?_, ?_⟩, rfl⟩
    · rintro t ht
      rw [List.mem_singleton.mp ht]
    · simp
    · simp
    · rintro t ht
      rw [List.mem_singleton.mp ht]
      exact ⟨_, List.mem_singleton_self _, rfl, by simp⟩
    · exact List.prefix_append _ _
  · exact ⟨[], ⟨rfl, rfl, (List.append_nil _).symm, by simp, by simp, Nat.le_refl _, by simp,
      by simp, List.prefix_rfl⟩, rfl⟩

/-- **Asking several peers** buys a ticket of each that did not refuse. -/
theorem askAll_spec (cap : ℕ) (net : ℕ → Bool) (g : ℕ) (qs : List (μ × ρ)) (f : Fanout μ ρ J) :
    ∃ new, Asks cap g qs f (askAll cap net g qs f).1 new ∧
      new.length + (askAll cap net g qs f).2 = qs.length := by
  induction qs generalizing f with
  | nil =>
    exact ⟨[], ⟨rfl, rfl, (List.append_nil _).symm, by simp, by simp, Nat.le_refl _, by simp,
      by simp, List.prefix_rfl⟩, rfl⟩
  | cons q qs ih =>
    obtain ⟨peer, req⟩ := q
    obtain ⟨one, hone, hlen⟩ := ask_spec f cap net g peer req
    obtain ⟨new, hnew, hcount⟩ := ih (f.ask cap net g peer req).1
    refine ⟨one ++ new, ⟨hnew.joins.trans hone.joins, hnew.nextGen.trans hone.nextGen, ?_, ?_, ?_,
      Nat.le_trans hone.nextCid hnew.nextCid, ?_, ?_, hone.sent.trans hnew.sent⟩, ?_⟩
    · rw [askAll, hnew.awaited, hone.awaited, List.append_assoc]
    · intro t ht
      exact (List.mem_append.mp ht).elim (hone.join t) (hnew.join t)
    · refine ⟨?_, fun t ht => ?_⟩
      · rw [List.map_append]
        refine List.nodup_append.mpr ⟨hone.cids.1, hnew.cids.1, ?_⟩
        rintro a ha b hb rfl
        obtain ⟨t, ht, rfl⟩ := List.mem_map.mp ha
        obtain ⟨t', ht', he⟩ := List.mem_map.mp hb
        have := (hone.cids.2 t ht).2
        have := (hnew.cids.2 t' ht').1
        omega
      · rcases List.mem_append.mp ht with ht | ht
        · exact ⟨(hone.cids.2 t ht).1, Nat.lt_of_lt_of_le (hone.cids.2 t ht).2 hnew.nextCid⟩
        · exact ⟨Nat.le_trans hone.nextCid (hnew.cids.2 t ht).1, (hnew.cids.2 t ht).2⟩
    · rw [List.map_append, List.map_cons, ← List.singleton_append]
      exact hone.peers.append hnew.peers
    · intro t ht
      rcases List.mem_append.mp ht with ht | ht
      · obtain ⟨q, hq, he, hsent⟩ := hone.asked t ht
        refine ⟨q, ?_, he, hnew.sent.subset hsent⟩
        rw [List.mem_singleton.mp hq]
        exact List.mem_cons_self
      · obtain ⟨q, hq, he, hsent⟩ := hnew.asked t ht
        exact ⟨q, List.mem_cons_of_mem _ hq, he, hsent⟩
    · rw [askAll, List.length_append, hlen, List.length_cons]
      dsimp only
      split <;> omega

variable {qs : List (μ × ρ)} {new : List (Ticket μ)}

/-- Asking keeps the ids apart. -/
theorem Asks.sound (h : Asks cap g qs f f' new) (hs : f.Sound) (hg : g < f.nextGen) : f'.Sound := by
  refine ⟨h.joins ▸ hs.joins_nodup, fun q hq => ?_, ?_, fun t ht => ?_, fun t ht => ?_⟩
  · rw [h.nextGen]
    exact hs.joins_lt q (h.joins ▸ hq)
  · rw [h.awaited, List.map_append]
    refine List.nodup_append.mpr ⟨hs.cids_nodup, h.cids.1, ?_⟩
    rintro a ha b hb rfl
    obtain ⟨t, ht, rfl⟩ := List.mem_map.mp ha
    obtain ⟨t', ht', he⟩ := List.mem_map.mp hb
    have := hs.cids_lt t ht
    have := (h.cids.2 t' ht').1
    omega
  · rcases List.mem_append.mp (h.awaited ▸ ht) with ht | ht
    · exact Nat.lt_of_lt_of_le (hs.cids_lt t ht) h.nextCid
    · exact (h.cids.2 t ht).2
  · rw [h.nextGen]
    rcases List.mem_append.mp (h.awaited ▸ ht) with ht | ht
    · exact hs.tickets_lt t ht
    · exact h.join t ht ▸ hg

/-- Asking changes no join. -/
theorem Asks.join? (h : Asks cap g qs f f' new) (g' : ℕ) : f'.join? g' = f.join? g' := by
  rw [Fanout.join?, Fanout.join?, h.joins]

theorem Asks.tickets (h : Asks cap g qs f f' new) : f'.tickets g = f.tickets g ++ new := by
  rw [Fanout.tickets, h.awaited, List.filter_append]
  congr 1
  exact List.filter_eq_self.mpr fun t ht => by simpa using h.join t ht

theorem Asks.same (h : Asks cap g qs f f' new) (hne : g' ≠ g) : Same g' f f' := by
  refine ⟨h.join? g', ?_⟩
  rw [Fanout.tickets, h.awaited, List.filter_append]
  have hnone : new.filter (fun t => decide (t.join = g')) = [] :=
    List.filter_eq_nil_iff.mpr fun t ht => by simpa [h.join t ht] using Ne.symm hne
  rw [hnone, List.append_nil]
  rfl

theorem Asks.count (h : Asks cap g qs f f' new) : f'.count p = f.count p := by
  rw [Fanout.count, Fanout.count, h.joins]

end Ask

/-! ## Spending a ticket -/

section Settle

/-- What spending a ticket does. -/
structure Spends (t : Ticket μ) (f f' : Fanout μ ρ J) : Prop where
  mem : t ∈ f.awaited
  eq : f' = { f with awaited := f.awaited.filter fun t' => t'.cid ≠ t.cid }

/-- An answer spends the ticket of its peer and id. -/
theorem settle_spec [DecidableEq μ] (h : f.settle peer cid = some (t, f')) :
    Spends t f f' ∧ t.peer = peer ∧ t.cid = cid := by
  obtain ⟨t', hfind, he⟩ := Option.map_eq_some_iff.mp h
  cases he
  have ht := List.find?_some hfind
  simp only [Bool.decide_and, Bool.and_eq_true, decide_eq_true_eq] at ht
  exact ⟨⟨List.mem_of_find?_eq_some hfind, rfl⟩, ht⟩

/-- A deadline spends the ticket of its id. -/
theorem lapse_spec (h : f.lapse cid = some (t, f')) : Spends t f f' ∧ t.cid = cid := by
  obtain ⟨t', hfind, he⟩ := Option.map_eq_some_iff.mp h
  cases he
  have ht := List.find?_some hfind
  simp only [decide_eq_true_eq] at ht
  exact ⟨⟨List.mem_of_find?_eq_some hfind, rfl⟩, ht⟩

/-- Spending keeps the ids apart. -/
theorem Spends.sound (h : Spends t f f') (hs : f.Sound) : f'.Sound := by
  obtain ⟨-, rfl⟩ := h
  exact ⟨hs.joins_nodup, hs.joins_lt, hs.cids_nodup.sublist (List.filter_sublist.map _),
    fun t ht => hs.cids_lt t (List.mem_filter.mp ht).1,
    fun t ht => hs.tickets_lt t (List.mem_filter.mp ht).1⟩

/-- Spending changes no join. -/
theorem Spends.join? (h : Spends t f f') (g : ℕ) : f'.join? g = f.join? g := by
  obtain ⟨-, rfl⟩ := h
  rfl

theorem Spends.count (h : Spends t f f') : f'.count p = f.count p := by
  obtain ⟨-, rfl⟩ := h
  rfl

/-- Only the ticket spent is gone. -/
theorem Spends.tickets (h : Spends t f f') :
    f'.tickets t.join = (f.tickets t.join).filter fun t' => t'.cid ≠ t.cid := by
  obtain ⟨-, rfl⟩ := h
  simp only [Fanout.tickets, List.filter_filter, Bool.and_comm]

theorem Spends.mem_tickets (h : Spends t f f') : t ∈ f.tickets t.join :=
  Fanout.mem_tickets.mpr ⟨h.mem, rfl⟩

/-- The ticket spent is the only one under its id. -/
theorem Spends.eq_of_cid (h : Spends t f f') (hs : f.Sound) {t' : Ticket μ} (hm : t' ∈ f.awaited)
    (heq : t'.cid = t.cid) : t' = t :=
  List.inj_on_of_nodup_map hs.cids_nodup hm h.mem heq

/-- Its join has one ticket fewer. -/
theorem Spends.length_tickets (h : Spends t f f') (hs : f.Sound) :
    (f'.tickets t.join).length + 1 = (f.tickets t.join).length := by
  have hnodup : ((f.tickets t.join).map Ticket.cid).Nodup :=
    hs.cids_nodup.sublist (List.filter_sublist.map _)
  have hmem := h.mem_tickets
  rw [h.tickets]
  generalize f.tickets t.join = l at hnodup hmem
  induction l with
  | nil => cases hmem
  | cons a l ih =>
    rw [List.map_cons, List.nodup_cons] at hnodup
    rcases List.mem_cons.mp hmem with rfl | hmem
    · rw [List.filter_cons_of_neg (by simp), List.filter_eq_self.mpr, List.length_cons]
      intro a ha
      simpa using fun he : a.cid = t.cid => hnodup.1 (he ▸ List.mem_map_of_mem ha)
    · have hne : a.cid ≠ t.cid := fun he => hnodup.1 (he ▸ List.mem_map_of_mem hmem)
      rw [List.filter_cons_of_pos (by simpa using hne), List.length_cons, List.length_cons,
        ih hnodup.2 hmem]

/-- The other joins keep theirs. -/
theorem Spends.same (h : Spends t f f') (hs : f.Sound) (hne : g ≠ t.join) : Same g f f' := by
  refine ⟨h.join? g, ?_⟩
  have hmem := h.mem
  obtain ⟨-, rfl⟩ := h
  simp only [Fanout.tickets, List.filter_filter]
  refine List.filter_congr fun t' ht' => ?_
  by_cases hg : t'.join = g
  · -- another ticket of the same id would be the same ticket
    have : t'.cid ≠ t.cid := fun he =>
      hne (by rw [← hg, List.inj_on_of_nodup_map hs.cids_nodup ht' hmem he])
    simp [hg, this]
  · simp [hg]

/-- An answer whose id leads to the ticket of its own question spends it. -/
theorem settle_of_settleId [DecidableEq μ] (hs : f.Sound) (h : f.settleId peer cid = some (t, f'))
    (hown : t.cid = cid) : f.settle peer cid = some (t, f') := by
  obtain ⟨t', hfind, he⟩ := Option.map_eq_some_iff.mp h
  obtain ⟨rfl, rfl⟩ := Prod.mk.inj he
  have hmem := List.mem_of_find?_eq_some hfind
  have hp := List.find?_some hfind
  simp only [Bool.decide_and, Bool.and_eq_true, decide_eq_true_eq] at hp
  cases hset : f.settle peer cid with
  | none =>
    rw [settle, Option.map_eq_none_iff, List.find?_eq_none] at hset
    exact absurd (by simp [hp.1, hown]) (hset t' hmem)
  | some q =>
    obtain ⟨t₁, f₁⟩ := q
    obtain ⟨hspends, -, hcid⟩ := settle_spec hset
    obtain rfl : t' = t₁ := hspends.eq_of_cid hs hmem (hown.trans hcid.symm)
    rw [hspends.eq]

/-- An id that leads to no ticket is no ticket's question's. -/
theorem settle_of_settleId_none [DecidableEq μ] (h : f.settleId peer cid = none) :
    f.settle peer cid = none := by
  rw [settleId, Option.map_eq_none_iff, List.find?_eq_none] at h
  rw [settle, Option.map_eq_none_iff, List.find?_eq_none]
  intro t ht hp
  simp only [Bool.decide_and, Bool.and_eq_true, decide_eq_true_eq] at hp
  exact h t ht (by simp [hp.1, hp.2])

/-- Where a join is in hand, a join is found. -/
theorem holder_ne_none (h : f.join? g = some j) : f.holder g ≠ none := by
  intro hnone
  rw [holder, Option.map_eq_none_iff, List.find?_eq_none] at hnone
  exact hnone _ (mem_joins_of_join? h) (by simp)

end Settle

/-! ## Opening a join -/

section Opens

/-- A join was opened, and asked what it has tickets for. -/
structure Opens (g : ℕ) (j : J) (new : List (Ticket μ)) (f f' : Fanout μ ρ J) : Prop where
  gen : g = f.nextGen
  /-- Generations and ids stay used once. -/
  sound : f'.Sound
  /-- It is the only generation given out. -/
  nextGen : f'.nextGen = f.nextGen + 1
  keeps : ∀ g', g' ≠ g → Same g' f f'
  join : f'.join? g = some j
  tickets : f'.tickets g = new
  count : ∀ p : J → Bool, f'.count p = f.count p + if p j then 1 else 0
  sent : f.sent <+: f'.sent

variable {qs : List (μ × ρ)} {old new : List (Ticket μ)}

/-- Starting a join opens it. -/
theorem opens_start (hs : f.Sound) (h : f.start cap j = some (g, f')) : Opens g j [] f f' where
  gen := (start_eq_some h).1
  sound := hs.start h
  nextGen := by
    obtain ⟨-, rfl⟩ := start_eq_some h
    rfl
  keeps := fun _ => same_start h
  join := join?_start hs h
  tickets := tickets_start hs h
  count := fun _ => count_start h
  sent := by
    obtain ⟨-, rfl⟩ := start_eq_some h
    exact List.prefix_rfl

/-- What was opened was started. -/
theorem Opens.lt (h : Opens g j new f f') : g < f'.nextGen := by
  rw [h.nextGen, h.gen]
  exact Nat.lt_succ_self _

/-- No other join is new. -/
theorem Opens.only (h : Opens g j new f f') {j' : J} (hge : f.nextGen ≤ g')
    (hj : f'.join? g' = some j') : g' = g ∧ j' = j := by
  have hlt := join?_lt h.sound hj
  rw [h.nextGen] at hlt
  have heq : g' = g := h.gen ▸ Nat.le_antisymm (Nat.le_of_lt_succ hlt) hge
  subst heq
  exact ⟨rfl, Option.some.inj (hj.symm.trans h.join)⟩

/-- A join that asks more is opened with more tickets. -/
theorem Opens.asks (h : Opens g j old f f') (ha : Asks cap g qs f' f'' new) :
    Opens g j (old ++ new) f f'' where
  gen := h.gen
  sound := ha.sound h.sound h.lt
  nextGen := ha.nextGen.trans h.nextGen
  keeps := fun g' hne => (h.keeps g' hne).trans (ha.same hne)
  join := (ha.join? g).trans h.join
  tickets := by rw [ha.tickets, h.tickets]
  count := fun p => ha.count.trans (h.count p)
  sent := h.sent.trans ha.sent

theorem Opens.modify (h : Opens g j new f f') (m : J → J) :
    Opens g (m j) new f (f'.modify g m) where
  gen := h.gen
  sound := h.sound.modify g m
  nextGen := h.nextGen
  keeps := fun g' hne => (h.keeps g' hne).trans (same_modify hne)
  join := by rw [join?_modify, h.join, Option.map_some]
  tickets := h.tickets
  count := fun p => by
    have hm := count_modify (p := p) (h := m) h.sound h.join
    have hc := h.count p
    omega
  sent := h.sent

end Opens

/-! ## Joins of a kind -/

section Grows

/-- A state grew by joins of a kind: those in hand before are as they were. -/
structure Grows (P : J → Prop) (f f' : Fanout μ ρ J) : Prop where
  /-- Generations and ids stay used once. -/
  sound : f'.Sound
  /-- Generations only go up. -/
  nextGen : f.nextGen ≤ f'.nextGen
  keeps : ∀ g < f.nextGen, Same g f f'
  fresh : ∀ g j, f.nextGen ≤ g → f'.join? g = some j → P j
  /-- Joins of no other kind were added or closed. -/
  count : ∀ p : J → Bool, (∀ j, P j → p j = false) → f'.count p = f.count p
  sent : f.sent <+: f'.sent

variable {P : J → Prop} {qs : List (μ × ρ)} {new : List (Ticket μ)}

theorem Grows.refl (hs : f.Sound) : Grows P f f where
  sound := hs
  nextGen := Nat.le_refl _
  keeps := fun g _ => Same.refl g f
  fresh := fun _ _ hg hj => absurd (join?_lt hs hj) (Nat.not_lt.mpr hg)
  count := fun _ _ => rfl
  sent := List.prefix_rfl

/-- Growing twice is growing. -/
theorem Grows.trans (h : Grows P f f') (h' : Grows P f' f'') : Grows P f f'' where
  sound := h'.sound
  nextGen := Nat.le_trans h.nextGen h'.nextGen
  keeps := fun g hg => (h.keeps g hg).trans (h'.keeps g (Nat.lt_of_lt_of_le hg h.nextGen))
  fresh := fun g j hg hj => by
    by_cases hlt : g < f'.nextGen
    · exact h.fresh g j hg ((h'.keeps g hlt).1 ▸ hj)
    · exact h'.fresh g j (Nat.le_of_not_lt hlt) hj
  count := fun p hp => (h'.count p hp).trans (h.count p hp)
  sent := h.sent.trans h'.sent

/-- Opening a join of the kind grows by it. -/
theorem Opens.grows (h : Opens g j new f f') (hs : f.Sound) (hP : P j) : Grows P f f' where
  sound := h.sound
  nextGen := by rw [h.nextGen]; exact Nat.le_succ _
  keeps := fun g' hg => h.keeps g' (by have := h.gen; omega)
  fresh := fun g' j' hg hj' => by
    by_cases heq : g' = g
    · rw [heq, h.join] at hj'
      cases hj'
      exact hP
    · rw [(h.keeps g' heq).1] at hj'
      exact absurd (join?_lt hs hj') (Nat.not_lt.mpr hg)
  count := fun p hp => by rw [h.count, hp j hP]; simp
  sent := h.sent

/-- A join was opened and closed again. -/
theorem Opens.grows_close (h : Opens g j new f f') (hs : f.Sound) : Grows P f (f'.close g) where
  sound := h.sound.close g
  nextGen := by rw [nextGen_close, h.nextGen]; exact Nat.le_succ _
  keeps := fun g' hg => by
    have hne : g' ≠ g := by have := h.gen; omega
    exact (h.keeps g' hne).trans (same_close hne)
  fresh := fun g' j' hg hj' => by
    by_cases heq : g' = g
    · rw [heq, join?_close] at hj'
      cases hj'
    · rw [join?_close_ne heq, (h.keeps g' heq).1] at hj'
      exact absurd (join?_lt hs hj') (Nat.not_lt.mpr hg)
  count := fun p _ => by
    have hc := count_close (p := p) h.sound h.join
    have ho := h.count p
    omega
  sent := h.sent

end Grows

/-! ## What an operation about one join leaves alone -/

section Around

variable {κ : Type}

/-- An operation about join `g`, or about none: every other join keeps itself
and its tickets, no join changes the face `π` shows of it, and a new join has a
face of the kind `P`. -/
structure Around (π : J → κ) (P : κ → Prop) (g : Option ℕ) (f f' : Fanout μ ρ J) : Prop where
  /-- Generations and ids stay used once. -/
  sound : f'.Sound
  /-- Generations only go up. -/
  nextGen : f.nextGen ≤ f'.nextGen
  keeps : ∀ g' < f.nextGen, some g' ≠ g → Same g' f f'
  /-- A join in hand was in hand, and shows the same face. -/
  like : ∀ g' < f.nextGen, ∀ j', f'.join? g' = some j' → ∃ j, f.join? g' = some j ∧ π j' = π j
  /-- A new join shows a face of the kind. -/
  fresh : ∀ g', f.nextGen ≤ g' → ∀ j', f'.join? g' = some j' → P (π j')
  sent : f.sent <+: f'.sent

variable {π : J → κ} {P Q : κ → Prop} {o : Option ℕ} {qs : List (μ × ρ)} {new : List (Ticket μ)}

theorem Around.refl (hs : f.Sound) : Around π P o f f where
  sound := hs
  nextGen := Nat.le_refl _
  keeps := fun g _ _ => Same.refl g f
  like := fun _ _ j hj => ⟨j, hj, rfl⟩
  fresh := fun _ hg _ hj => absurd (join?_lt hs hj) (Nat.not_lt.mpr hg)
  sent := List.prefix_rfl

/-- Two operations about one join are one about it. -/
theorem Around.trans (h : Around π P o f f') (h' : Around π P o f' f'') : Around π P o f f'' where
  sound := h'.sound
  nextGen := Nat.le_trans h.nextGen h'.nextGen
  keeps := fun g hg hne =>
    (h.keeps g hg hne).trans (h'.keeps g (Nat.lt_of_lt_of_le hg h.nextGen) hne)
  like := fun g hg j'' hj'' => by
    obtain ⟨j', hj', hπ'⟩ := h'.like g (Nat.lt_of_lt_of_le hg h.nextGen) j'' hj''
    obtain ⟨j, hj, hπ⟩ := h.like g hg j' hj'
    exact ⟨j, hj, hπ'.trans hπ⟩
  fresh := fun g hg j'' hj'' => by
    by_cases hlt : g < f'.nextGen
    · obtain ⟨j', hj', hπ'⟩ := h'.like g hlt j'' hj''
      exact hπ' ▸ h.fresh g hg j' hj'
    · exact h'.fresh g (Nat.le_of_not_lt hlt) j'' hj''
  sent := h.sent.trans h'.sent

/-- What is said of new joins may be weakened. -/
theorem Around.mono (h : Around π P o f f') (hPQ : ∀ k, P k → Q k) : Around π Q o f f' :=
  ⟨h.sound, h.nextGen, h.keeps, h.like, fun g hg j hj => hPQ _ (h.fresh g hg j hj), h.sent⟩

/-- What leaves every join alone leaves all but one alone. -/
theorem Around.any (h : Around π P none f f') (o : Option ℕ) : Around π P o f f' :=
  ⟨h.sound, h.nextGen, fun g hg _ => h.keeps g hg (by simp), h.like, h.fresh, h.sent⟩

/-- An operation that goes on about a join it opened leaves every join alone. -/
theorem Around.forget (h : Around π P none f f') (h' : Around π P (some g) f' f'')
    (hg : f.nextGen ≤ g) : Around π P none f f'' := by
  have hall := (h.any (some g)).trans h'
  refine ⟨hall.sound, hall.nextGen, fun g' hlt _ => hall.keeps g' hlt ?_, hall.like, hall.fresh,
    hall.sent⟩
  intro he
  cases he
  exact absurd hlt (Nat.not_lt.mpr hg)

/-- Opening a join is about no other. -/
theorem Opens.around (h : Opens g j new f f') (hP : P (π j)) :
    Around π P none f f' where
  sound := h.sound
  nextGen := by rw [h.nextGen]; exact Nat.le_succ _
  keeps := fun g' hg _ => h.keeps g' (by have := h.gen; omega)
  like := fun g' hg j' hj' => by
    rw [(h.keeps g' (by have := h.gen; omega)).1] at hj'
    exact ⟨j', hj', rfl⟩
  fresh := fun g' hg j' hj' => by
    obtain ⟨-, rfl⟩ := h.only hg hj'
    exact hP
  sent := h.sent

/-- Closing a join is about it. -/
theorem around_close (hs : f.Sound) (g : ℕ) : Around π P (some g) f (f.close g) where
  sound := hs.close g
  nextGen := Nat.le_refl _
  keeps := fun _ _ hne => same_close fun he => hne (congrArg some he)
  like := fun _ _ j' hj' => ⟨j', join?_of_close hj', rfl⟩
  fresh := fun _ hg _ hj => absurd (join?_lt hs (join?_of_close hj)) (Nat.not_lt.mpr hg)
  sent := List.prefix_rfl

/-- So is changing it, but for its face. -/
theorem around_modify (hs : f.Sound) (g : ℕ) {m : J → J}
    (hm : ∀ j, f.join? g = some j → π (m j) = π j) :
    Around π P (some g) f (f.modify g m) := by
  have hlike : ∀ g' j', (f.modify g m).join? g' = some j' → ∃ j, f.join? g' = some j ∧ π j' = π j := by
    intro g' j' hj'
    by_cases heq : g' = g
    · rw [heq, join?_modify] at hj'
      obtain ⟨j, hj, rfl⟩ := Option.map_eq_some_iff.mp hj'
      exact ⟨j, heq ▸ hj, hm j hj⟩
    · exact ⟨j', (join?_modify_ne heq).symm.trans hj', rfl⟩
  exact ⟨hs.modify g m, Nat.le_refl _, fun g' _ hne => same_modify fun he => hne (congrArg some he),
    fun g' _ => hlike g', fun _ hg _ hj' => by
      obtain ⟨j, hj, -⟩ := hlike _ _ hj'
      exact absurd (join?_lt hs hj) (Nat.not_lt.mpr hg), List.prefix_rfl⟩

theorem Asks.around (h : Asks cap g qs f f' new) (hs : f.Sound) (hg : g < f.nextGen) :
    Around π P (some g) f f' where
  sound := h.sound hs hg
  nextGen := Nat.le_of_eq h.nextGen.symm
  keeps := fun _ _ hne => h.same fun he => hne (congrArg some he)
  like := fun g' _ j' hj' => ⟨j', (h.join? g').symm.trans hj', rfl⟩
  fresh := fun _ hg' _ hj' =>
    absurd (join?_lt hs ((h.join? _).symm.trans hj')) (Nat.not_lt.mpr hg')
  sent := h.sent

/-- Spending a ticket is about its join. -/
theorem Spends.around {t : Ticket μ} (h : Spends t f f') (hs : f.Sound) :
    Around π P (some t.join) f f' where
  sound := h.sound hs
  nextGen := Nat.le_of_eq (congrArg Fanout.nextGen h.eq).symm
  keeps := fun _ _ hne => h.same hs fun he => hne (congrArg some he)
  like := fun g' _ j' hj' => ⟨j', (h.join? g').symm.trans hj', rfl⟩
  fresh := fun _ hg' _ hj' =>
    absurd (join?_lt hs ((h.join? _).symm.trans hj')) (Nat.not_lt.mpr hg')
  sent := (congrArg Fanout.sent h.eq).symm ▸ List.prefix_rfl

end Around

/-! ## What was sent -/

section Sent

/-- The questions sent between two states are all of a kind. -/
def Sends (P : Question μ ρ → Prop) (f f' : Fanout μ ρ J) : Prop :=
  ∃ new, f'.sent = f.sent ++ new ∧ ∀ q ∈ new, P q

variable {P : Question μ ρ → Prop} {qs : List (μ × ρ)}

theorem Sends.of_eq (h : f'.sent = f.sent) : Sends P f f' :=
  ⟨[], by rw [h, List.append_nil], fun _ hq => absurd hq List.not_mem_nil⟩

/-- What two steps send is what both send. -/
theorem Sends.trans (h : Sends P f f') (h' : Sends P f' f'') : Sends P f f'' := by
  obtain ⟨new, hsent, hnew⟩ := h
  obtain ⟨new', hsent', hnew'⟩ := h'
  refine ⟨new ++ new', by rw [hsent', hsent, List.append_assoc], fun q hq => ?_⟩
  exact (List.mem_append.mp hq).elim (hnew q) (hnew' q)

/-- What follows the questions sent before is of the kind. -/
theorem Sends.of_mem_drop (h : Sends P f f') {q : Question μ ρ}
    (hq : q ∈ f'.sent.drop f.sent.length) : P q := by
  obtain ⟨new, hsent, hnew⟩ := h
  rw [hsent, List.drop_left] at hq
  exact hnew q hq

/-- Starting a join sends nothing. -/
theorem sends_start (h : f.start cap j = some (g, f')) : Sends P f f' := by
  obtain ⟨-, rfl⟩ := start_eq_some h
  exact .of_eq rfl

/-- Asking sends the question. -/
theorem sends_ask (cap : ℕ) (net : ℕ → Bool) (g : ℕ) (peer : μ) (req : ρ)
    (hP : ∀ cid, P ⟨cid, peer, req⟩) : Sends P f (f.ask cap net g peer req).1 := by
  unfold ask
  split
  · exact ⟨[⟨f.nextCid, peer, req⟩], rfl, fun q hq => List.mem_singleton.mp hq ▸ hP _⟩
  · exact .of_eq rfl

theorem sends_askAll (cap : ℕ) (net : ℕ → Bool) (g : ℕ) (qs : List (μ × ρ))
    (hP : ∀ p ∈ qs, ∀ cid, P ⟨cid, p.1, p.2⟩) : Sends P f (askAll cap net g qs f).1 := by
  induction qs generalizing f with
  | nil => exact .of_eq rfl
  | cons p qs ih =>
    exact (sends_ask cap net g p.1 p.2 (hP p List.mem_cons_self)).trans
      (ih fun q hq => hP q (List.mem_cons_of_mem _ hq))

/-- **Where there is room and no peer refuses**, every peer is asked. -/
theorem askAll_taken (cap : ℕ) (net : ℕ → Bool) (g : ℕ) (qs : List (μ × ρ))
    (hroom : f.awaited.length + qs.length ≤ cap) (hnet : ∀ i < qs.length, net (f.tries + i) = true) :
    (askAll cap net g qs f).2 = 0 ∧
      (askAll cap net g qs f).1.sent.map Question.peer
        = f.sent.map Question.peer ++ qs.map Prod.fst := by
  induction qs generalizing f with
  | nil => exact ⟨rfl, (List.append_nil _).symm⟩
  | cons p qs ih =>
    rw [List.length_cons] at hroom hnet
    have hask : f.ask cap net g p.1 p.2 = (_, true) :=
      if_pos ⟨by omega, hnet 0 (Nat.succ_pos _)⟩
    rw [askAll, hask]
    dsimp only
    obtain ⟨hrefused, hsent⟩ := ih (f := { f with
      awaited := f.awaited ++ [⟨f.nextCid, p.1, g⟩], nextCid := f.nextCid + 1
      tries := f.tries + 1, sent := f.sent ++ [⟨f.nextCid, p.1, p.2⟩]
      ids := Function.update f.ids f.nextCid f.freshId, lastId := f.freshId })
      (by simp only [List.length_append, List.length_singleton]; omega)
      (fun i hi => by
        have htaken := hnet (i + 1) (Nat.succ_lt_succ hi)
        rwa [← Nat.add_assoc, Nat.add_right_comm] at htaken)
    refine ⟨hrefused, hsent.trans ?_⟩
    simp only [List.map_append, List.map_cons, List.map_nil, List.append_assoc, List.cons_append,
      List.nil_append]

end Sent

end Fanout

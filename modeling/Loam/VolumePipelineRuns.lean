import Loam.VolumePipeline
import Mathlib.Data.List.Perm.Basic

/-!
# What the bodies of a commit are owed

Between its steps a writer is owed an answer to the request of the exchange in flight, if it was
handed over, and to each put of the pipe but one that is still in hand (`Outstanding`). Each part of
a step keeps this, and the account of the extents that are staged (`step_kept`).
-/

namespace Loam.VolumeWriter

open Writer

variable {g : Config} {w : Writer} {e : Extent} {rest : List Extent} {as : List Answer} {now : ℕ}

/-! ## Extents -/

/-- An extent but for its digest. -/
def Extent.core (e : Extent) : Extent := { e with digest := [] }

/-- Digests that are set change nothing else. -/
theorem map_core_modify (l : List Extent) (i : ℕ) (d : Bytes) :
    (l.modify i fun e => { e with digest := d }).map Extent.core = l.map Extent.core := by
  induction l generalizing i with
  | nil => rw [List.modify_nil]
  | cons e l ih =>
    cases i with
    | zero => rfl
    | succ i => rw [List.modify_succ_cons, List.map_cons, ih, List.map_cons]

/-! ## The requests in flight -/

/-- The puts in the pipe are those that the store owes an answer, and the one in hand. -/
structure Flow (w : Writer) : Prop where
  perm : (w.owed ++ w.inHand.toList).Perm (w.pipe.map Prod.fst)
  length_le : w.pipe.length ≤ w.cursor

/-- The client takes what it is offered. -/
structure Takes (w : Writer) : Prop where
  free : w.free = true
  net : ∀ b ∈ w.net, b = true

/-- A hand-off moves the request, or leaves it. -/
theorem hand_eq (w : Writer) : ∃ inHand owed free net,
    w.hand = { w with inHand := inHand, owed := owed, free := free, net := net } ∧
      owed ++ inHand.toList = w.owed ++ w.inHand.toList := by
  cases hw : w.inHand with
  | none =>
    have hsame : w.hand = w := by rw [hand, hw]
    exact ⟨w.inHand, w.owed, w.free, w.net, hsame, by rw [hw]⟩
  | some cid =>
    by_cases hfree : w.free = true
    · have htaken : w.hand = { w with
          inHand := none, owed := w.owed ++ [cid], free := w.net.headD true, net := w.net.tail } := by
        rw [hand, hw]
        exact if_pos hfree
      exact ⟨none, w.owed ++ [cid], _, _, htaken, List.append_nil _⟩
    · have hsame : w.hand = w := by
        rw [hand, hw]
        exact if_neg hfree
      exact ⟨w.inHand, w.owed, w.free, w.net, hsame, by rw [hw]⟩

theorem Takes.hand (h : Takes w) : Takes w.hand ∧ w.hand.inHand = none := by
  cases hw : w.inHand with
  | none =>
    have hsame : w.hand = w := by rw [Writer.hand, hw]
    exact ⟨hsame.symm ▸ h, hsame.symm ▸ hw⟩
  | some cid =>
    have htaken : w.hand = { w with
        inHand := none, owed := w.owed ++ [cid], free := w.net.headD true, net := w.net.tail } := by
      rw [Writer.hand, hw]
      exact if_pos h.free
    rw [htaken]
    refine ⟨⟨?_, fun b hb => h.net b (List.mem_of_mem_tail hb)⟩, rfl⟩
    show w.net.headD true = true
    cases hn : w.net with
    | nil => rfl
    | cons b bs => exact h.net b (hn ▸ List.mem_cons_self)

/-! ## The bodies -/

/-- What sending and receiving bodies leave as it is. -/
structure Steady (w w' : Writer) : Prop where
  extents : w'.slots.map Extent.core = w.slots.map Extent.core
  staged : w'.staged = w.staged
  failed : w'.failed = w.failed
  job : w'.job = w.job
  commit : w'.commit = w.commit
  commits : w'.commits = w.commits

theorem Steady.refl (w : Writer) : Steady w w := ⟨rfl, rfl, rfl, rfl, rfl, rfl⟩

theorem Steady.trans {w₁ w₂ w₃ : Writer} (h : Steady w₁ w₂) (h' : Steady w₂ w₃) : Steady w₁ w₃ :=
  ⟨h'.extents.trans h.extents, h'.staged.trans h.staged, h'.failed.trans h.failed,
    h'.job.trans h.job, h'.commit.trans h.commit, h'.commits.trans h.commits⟩

theorem hand_steady (w : Writer) : Steady w w.hand := by
  obtain ⟨inHand, owed, free, net, heq, -⟩ := hand_eq w
  rw [heq]
  exact ⟨rfl, rfl, rfl, rfl, rfl, rfl⟩

theorem Flow.hand (h : Flow w) : Flow w.hand := by
  obtain ⟨inHand, owed, free, net, heq, hsum⟩ := hand_eq w
  rw [heq]
  exact ⟨hsum ▸ h.perm, h.length_le⟩

/-- A put joins the pipe and is in hand. -/
theorem Flow.push (h : Flow w) (hnone : w.inHand = none) (cid : UInt32) (i : ℕ) :
    Flow { w with pipe := w.pipe ++ [(cid, i)], cursor := w.cursor + 1, inHand := some cid } := by
  refine ⟨?_, ?_⟩
  · have hperm := h.perm
    rw [hnone, Option.toList_none, List.append_nil] at hperm
    rw [List.map_append]
    exact hperm.append_right [cid]
  · rw [List.length_append]
    exact Nat.succ_le_succ h.length_le

theorem passSlot_spec (h : Flow w) (hnone : w.inHand = none) (e : Extent) :
    Flow (w.passSlot g e) ∧ Steady w (w.passSlot g e) ∧
      (Takes w → Takes (w.passSlot g e) ∧ (w.passSlot g e).inHand = none) := by
  have hnext : Flow { w with cursor := w.cursor + 1 } := ⟨h.perm, Nat.le_succ_of_le h.length_le⟩
  unfold passSlot
  split
  · split
    · exact ⟨⟨h.perm, Nat.le_succ_of_le h.length_le⟩,
        ⟨map_core_modify _ _ _, rfl, rfl, rfl, rfl, rfl⟩, fun ht => ⟨⟨ht.free, ht.net⟩, hnone⟩⟩
    dsimp only
    split
    · exact ⟨⟨h.perm, h.length_le⟩, ⟨rfl, rfl, rfl, rfl, rfl, rfl⟩,
        fun ht => ⟨⟨ht.free, ht.net⟩, hnone⟩⟩
    have hcid : Flow w.takeCid := ⟨h.perm, h.length_le⟩
    have hpush := hcid.push hnone w.takeCid.jobCid w.takeCid.cursor
    refine ⟨hpush.hand, ?_, fun ht => Takes.hand ⟨ht.free, ht.net⟩⟩
    refine Steady.trans ?_ (hand_steady _)
    exact ⟨rfl, rfl, rfl, rfl, rfl, rfl⟩
  · exact ⟨hnext, ⟨rfl, rfl, rfl, rfl, rfl, rfl⟩, fun ht => ⟨⟨ht.free, ht.net⟩, hnone⟩⟩

theorem offered_spec (h : Flow w) : Flow w.offered ∧ Steady w w.offered ∧
    (Takes w → w.inHand = none → Takes w.offered ∧ w.offered.inHand = none) := by
  unfold offered
  split
  · exact ⟨h, .refl w, fun ht hn => ⟨ht, hn⟩⟩
  · exact ⟨h.hand, hand_steady w, fun ht _ => ht.hand⟩

/-- **Sending keeps account of what is owed.** -/
theorem sendBodies_spec (h : Flow w) (rest : List Extent) :
    Flow (sendBodies g rest w) ∧ Steady w (sendBodies g rest w) ∧
      (Takes w → w.inHand = none → (sendBodies g rest w).inHand = none) := by
  induction rest generalizing w with
  | nil =>
    obtain ⟨hflow, hsteady, htakes⟩ := offered_spec h
    exact ⟨hflow, hsteady, fun ht hn => (htakes ht hn).2⟩
  | cons e rest ih =>
    obtain ⟨hflow, hsteady, htakes⟩ := offered_spec h
    unfold sendBodies
    split
    · exact ⟨hflow, hsteady, fun ht hn => (htakes ht hn).2⟩
    next hgo =>
    have hnone : w.offered.inHand = none := by
      by_contra hsome
      exact hgo (.inr hsome)
    obtain ⟨hflow', hsteady', htakes'⟩ := passSlot_spec (g := g) hflow hnone e
    obtain ⟨hflow'', hsteady'', htakes''⟩ := ih hflow'
    refine ⟨hflow'', (hsteady.trans hsteady').trans hsteady'', fun ht hn => ?_⟩
    obtain ⟨ht', -⟩ := htakes ht hn
    obtain ⟨hts, hns⟩ := htakes' ht'
    exact htakes'' hts hns

theorem map_eraseP (l : List (UInt32 × ℕ)) (cid : UInt32) :
    (l.eraseP fun p => p.1 == cid).map Prod.fst = (l.map Prod.fst).erase cid := by
  induction l with
  | nil => rfl
  | cons p l ih =>
    by_cases hp : p.1 = cid
    · rw [List.eraseP_cons_of_pos (by simpa using hp), List.map_cons, hp, List.erase_cons_head]
    rw [List.eraseP_cons_of_neg (by simpa using hp), List.map_cons, List.map_cons,
      List.erase_cons_tail (by simpa using hp), ih]

/-- The answer to a put finds it in the pipe, and both are one fewer. -/
theorem answered_spec (h : Flow w) {k : ℕ} {cid : UInt32} (hk : w.owed[k]? = some cid) :
    ∃ p, (w.pipe.find? fun p => p.1 == cid) = some p ∧ ∀ now reply,
      Flow ({ w with owed := w.owed.eraseIdx k }.answered now cid p.2 reply) ∧
      Steady w ({ w with owed := w.owed.eraseIdx k }.answered now cid p.2 reply) := by
  obtain ⟨hlt, hget⟩ := List.getElem?_eq_some_iff.mp hk
  have hsplit : (cid :: w.owed.eraseIdx k).Perm w.owed := hget ▸ List.getElem_cons_eraseIdx_perm hlt
  have hall : (cid :: (w.owed.eraseIdx k ++ w.inHand.toList)).Perm (w.pipe.map Prod.fst) :=
    (hsplit.append_right _).trans h.perm
  have hmem : cid ∈ w.pipe.map Prod.fst := hall.subset List.mem_cons_self
  obtain ⟨q, hq, hqc⟩ := List.mem_map.mp hmem
  obtain ⟨p, hp⟩ := Option.isSome_iff_exists.mp
    (List.find?_isSome.mpr ⟨q, hq, by simpa using hqc⟩ : (w.pipe.find? fun p => p.1 == cid).isSome)
  refine ⟨p, hp, fun now reply => ?_⟩
  have herase : (w.owed.eraseIdx k ++ w.inHand.toList).Perm
      ((w.pipe.eraseP fun p => p.1 == cid).map Prod.fst) := by
    rw [map_eraseP]
    have := hall.erase cid
    rwa [List.erase_cons_head] at this
  have hle : (w.pipe.eraseP fun p => p.1 == cid).length ≤ w.cursor :=
    (List.eraseP_sublist.length_le).trans h.length_le
  cases reply with
  | ok d => exact ⟨⟨herase, hle⟩, ⟨map_core_modify _ _ _, rfl, rfl, rfl, rfl, rfl⟩⟩
  | refused status => exact ⟨⟨herase, hle⟩, ⟨rfl, rfl, rfl, rfl, rfl, rfl⟩⟩
  | undecodable => exact ⟨⟨herase, hle⟩, ⟨rfl, rfl, rfl, rfl, rfl, rfl⟩⟩

theorem answered_fields (w : Writer) (now : ℕ) (cid : UInt32) (slot : ℕ) (reply : Reply) :
    (w.answered now cid slot reply).inHand = w.inHand ∧
      (w.answered now cid slot reply).owed = w.owed ∧
      (w.pipeRefused = true → (w.answered now cid slot reply).pipeRefused = true) := by
  cases reply with
  | ok d => exact ⟨rfl, rfl, id⟩
  | refused status => exact ⟨rfl, rfl, fun _ => rfl⟩
  | undecodable => exact ⟨rfl, rfl, fun _ => rfl⟩

/-- **Receiving keeps account of what is owed**: every answer is to a put in the pipe. -/
theorem recvBodies_spec (h : Flow w) (now : ℕ) (as : List Answer) :
    Flow (w.recvBodies now as) ∧ Steady w (w.recvBodies now as) ∧
      (w.recvBodies now as).inHand = w.inHand ∧
      (w.recvBodies now as).owed.length ≤ w.owed.length ∧
      (w.pipeRefused = true → (w.recvBodies now as).pipeRefused = true) := by
  induction as generalizing w with
  | nil => exact ⟨h, .refl w, rfl, Nat.le_refl _, id⟩
  | cons a as ih =>
    unfold recvBodies
    cases hk : w.owed[a.which]? with
    | none => exact ih h
    | some cid =>
      obtain ⟨p, hp, hans⟩ := answered_spec h hk
      obtain ⟨hflow, hsteady⟩ := hans now a.reply
      obtain ⟨hhand, howed, hrefused⟩ := answered_fields { w with owed := w.owed.eraseIdx a.which }
        now cid p.2 a.reply
      dsimp only
      rw [hp]
      dsimp only
      obtain ⟨hflow', hsteady', hhand', howed', hrefused'⟩ := ih hflow
      refine ⟨hflow', hsteady.trans hsteady', hhand'.trans hhand, howed'.trans ?_,
        fun hr => hrefused' (hrefused hr)⟩
      rw [howed]
      exact List.length_eraseIdx_le _ _

theorem recvBodies_lt (h : Flow w) (now : ℕ) {a : Answer} (ha : a.which < w.owed.length)
    (as : List Answer) : (w.recvBodies now (a :: as)).owed.length < w.owed.length := by
  have hk : w.owed[a.which]? = some (w.owed[a.which]) := List.getElem?_eq_getElem ha
  obtain ⟨p, hp, hans⟩ := answered_spec h hk
  obtain ⟨hflow, -⟩ := hans now a.reply
  obtain ⟨-, howed, -⟩ := answered_fields { w with owed := w.owed.eraseIdx a.which }
    now w.owed[a.which] p.2 a.reply
  obtain ⟨-, -, -, howed', -⟩ := recvBodies_spec hflow now as
  rw [howed] at howed'
  rw [recvBodies, hk]
  dsimp only
  rw [hp]
  refine Nat.lt_of_le_of_lt howed' ?_
  show (w.owed.eraseIdx a.which).length < _
  rw [List.length_eraseIdx_of_lt ha]
  omega

/-! ## The account of the extents -/

/-- The extents that are staged are counted, and just these are committed while a commit is under
way. -/
structure Accounted (w : Writer) : Prop where
  staged : w.staged = w.slots.countP fun e => e.state = .staged
  committing : ∀ e ∈ w.slots,
    e.committing = true ↔ e.state = .staged ∧ w.commit ≠ .idle ∧ w.commit ≠ .begin

theorem countP_core (l : List Extent) :
    l.countP (fun e => e.state = .staged) = (l.map Extent.core).countP fun e => e.state = .staged := by
  rw [List.countP_map]
  rfl

theorem Accounted.of_steady (h : Accounted w) {w' : Writer} (hs : Steady w w') : Accounted w' := by
  refine ⟨?_, fun e he => ?_⟩
  · rw [hs.staged, h.staged, countP_core, countP_core w'.slots, hs.extents]
  · have hmem : e.core ∈ w.slots.map Extent.core := hs.extents ▸ List.mem_map_of_mem he
    obtain ⟨e', he', hcore⟩ := List.mem_map.mp hmem
    have hstate : e'.core.state = e.core.state := congrArg Extent.state hcore
    have hcommitting : e'.core.committing = e.core.committing := congrArg Extent.committing hcore
    have hiff := h.committing e' he'
    rw [show e'.state = e.state from hstate, show e'.committing = e.committing from hcommitting] at hiff
    rwa [hs.commit]

theorem failed_fail (w : Writer) : w.fail.failed = true := by
  unfold fail
  split
  · next hf => exact hf
  · rfl

/-- A device that failed has nothing staged. -/
theorem fail_spec (h : Accounted w) : Accounted w.fail ∧ w.fail.failed = true := by
  refine ⟨?_, failed_fail w⟩
  unfold fail
  split
  · exact h
  refine ⟨?_, fun e he => ?_⟩
  · refine (List.countP_eq_zero.mpr fun e he => ?_).symm
    obtain ⟨e', -, rfl⟩ := List.mem_map.mp he
    simp
  · obtain ⟨e', -, rfl⟩ := List.mem_map.mp he
    simp

theorem timeoutCheck_eq (w : Writer) (now : ℕ) :
    w.timeoutCheck now = w ∨ w.timeoutCheck now = w.fail := by
  unfold timeoutCheck
  split
  · exact .inr rfl
  · exact .inl rfl

/-! ## The invariant -/

/-- The phase of a commit that an exchange belongs to. -/
def Job.phase : Job → Option Phase
  | .none => Option.none
  | .renew => Option.none
  | .begin => some .begin
  | .bodies => some .bodies
  | .leaf | .putLeaf => some .leaves
  | .putRoot => some .root
  | .commit => some .commit
  | .abort => some .abort

/-- What the store owes a writer that has not failed: an answer to the request of the exchange in
flight, once it was handed over, and to each put of the pipe but one that is in hand. -/
structure Outstanding (w : Writer) : Prop where
  phase : ∀ p, w.job.phase = some p → w.commit = p
  settled : w.job = .none → w.owed = [] ∧ w.inHand = none
  exchange : w.job ≠ .none → w.job ≠ .bodies → w.owed ++ w.inHand.toList = [w.jobCid]
  pipe : w.job ≠ .bodies → w.pipe = []
  bodies : w.job = .bodies → Flow w ∧ (w.pipeRefused = true → w.pipe ≠ [])

/-- The invariant of a writer. -/
structure Inv (w : Writer) : Prop where
  accounted : Accounted w
  outstanding : w.failed = false → Outstanding w

/-- The staged extents, and what they hold. -/
def Writer.contents (w : Writer) : List (ℕ × Bytes) :=
  (w.slots.filter fun e => e.state = .staged).map fun e => (e.idx, e.data)

/-- Nothing that is staged is changed, and nothing is committed. -/
structure Same (w w' : Writer) : Prop where
  contents : w'.contents = w.contents
  commits : w'.commits = w.commits

/-- No put is left in hand. -/
def Unhanded (w : Writer) : Prop := w.failed = false → w.job = .bodies → w.inHand = none

/-- The client takes every put that it is offered. -/
structure Input.Takes (i : Input) : Prop where
  free : i.free = true
  net : ∀ b ∈ i.net, b = true

theorem Same.trans {w₁ w₂ w₃ : Writer} (h : Same w₁ w₂) (h' : Same w₂ w₃) : Same w₁ w₃ :=
  ⟨h'.contents.trans h.contents, h'.commits.trans h.commits⟩

theorem contents_core (l : List Extent) :
    (l.filter fun e => e.state = .staged).map (fun e => (e.idx, e.data)) =
      ((l.map Extent.core).filter fun e => e.state = .staged).map fun e => (e.idx, e.data) := by
  rw [List.filter_map, List.map_map]
  rfl

theorem Steady.same {w' : Writer} (h : Steady w w') : Same w w' :=
  ⟨by rw [contents, contents, contents_core, contents_core w.slots, h.extents], h.commits⟩

theorem Inv.of_failed (h : Accounted w) (hf : w.failed = true) : Inv w :=
  ⟨h, fun hn => by rw [hf] at hn; cases hn⟩

theorem Inv.fail (h : Accounted w) : Inv w.fail := .of_failed (fail_spec h).1 (fail_spec h).2

variable {i : Input}

/-- Between two exchanges nothing is owed. -/
structure Settled (w : Writer) : Prop where
  job : w.job = .none
  owed : w.owed = []
  inHand : w.inHand = none
  pipe : w.pipe = []

theorem Settled.outstanding (h : Settled w) : Outstanding w where
  phase p hp := by
    rw [h.job] at hp
    cases hp
  settled _ := ⟨h.owed, h.inHand⟩
  exchange hj := absurd h.job hj
  pipe _ := h.pipe
  bodies hj := by
    rw [h.job] at hj
    cases hj

/-- Sending and receiving keep account of what is owed. -/
theorem passBodies_spec (h : Flow w) (as : List Answer) :
    Flow (w.passBodies g i as) ∧ Steady w (w.passBodies g i as) ∧
      (i.Takes → w.inHand = none → (w.passBodies g i as).inHand = none) := by
  obtain ⟨hflow, hsteady, htakes⟩ := sendBodies_spec (g := g) (w := { w with free := i.free, net := i.net })
    ⟨h.perm, h.length_le⟩ (w.slots.drop w.cursor)
  obtain ⟨hflow', hsteady', hhand, -, -⟩ := recvBodies_spec hflow i.now as
  refine ⟨hflow', ?_, fun ht hn => hhand.trans (htakes ⟨ht.free, ht.net⟩ hn)⟩
  refine Steady.trans ?_ hsteady'
  refine Steady.trans ?_ hsteady
  exact ⟨rfl, rfl, rfl, rfl, rfl, rfl⟩

/-- Bodies that are all answered leave nothing owed. -/
theorem finishBodies_spec (hacc : Accounted w) (hflow : Flow w) (hcommit : w.commit = .bodies)
    (hpipe : w.pipe = []) : Inv (w.finishBodies g) ∧ Same w (w.finishBodies g) ∧
      (w.finishBodies g).job = .none := by
  have hnil : w.owed ++ w.inHand.toList = [] := by
    have hperm := hflow.perm
    rw [hpipe] at hperm
    exact hperm.eq_nil
  have howed := (List.append_eq_nil_iff.mp hnil).1
  have hcommitting : ∀ e ∈ w.slots, e.committing = true ↔ e.state = .staged := fun e he => by
    rw [hacc.committing e he, hcommit]
    simp
  have hout : ∀ p : Phase, p ≠ .idle → p ≠ .begin → ∀ n : ℕ,
      Inv { w with job := .none, inHand := none, commit := p, cursor := n } := by
    intro p hidle hbegin n
    refine ⟨⟨hacc.staged, fun e he => ?_⟩, fun _ => Settled.outstanding ⟨rfl, howed, rfl, hpipe⟩⟩
    rw [hcommitting e he]
    exact ⟨fun h => ⟨h, hidle, hbegin⟩, fun h => h.1⟩
  unfold finishBodies beginAbort
  dsimp only
  split
  · exact ⟨hout .abort (by decide) (by decide) w.cursor, ⟨rfl, rfl⟩, rfl⟩
  by_cases hdepth : g.depth = 2
  · rw [if_pos hdepth]
    exact ⟨hout .leaves (by decide) (by decide) 0, ⟨rfl, rfl⟩, rfl⟩
  · rw [if_neg hdepth]
    exact ⟨hout .root (by decide) (by decide) 0, ⟨rfl, rfl⟩, rfl⟩

/-- **A pump of the bodies keeps the invariant**, and leaves none in hand if the client takes all
that it is offered. -/
theorem bodiesPump_spec (hacc : Accounted w) (hflow : Flow w) (hjob : w.job = .bodies)
    (hcommit : w.commit = .bodies) (as : List Answer) :
    Inv (w.bodiesPump g i as) ∧ ((w.bodiesPump g i as).failed = true ∨ Same w (w.bodiesPump g i as)) ∧
      (i.Takes → w.inHand = none → Unhanded (w.bodiesPump g i as)) := by
  obtain ⟨hflow', hsteady, hnone⟩ := passBodies_spec (g := g) (i := i) hflow as
  unfold bodiesPump
  generalize w.passBodies g i as = w' at hflow' hsteady hnone
  have hacc' := hacc.of_steady hsteady
  have hjob' := hsteady.job.trans hjob
  have hcommit' := hsteady.commit.trans hcommit
  unfold endBodies
  split
  · next hf => exact ⟨.of_failed hacc' hf, .inl hf, fun _ _ hn => by rw [hf] at hn; cases hn⟩
  split
  · next hdone =>
    obtain ⟨hinv, hsame, hended⟩ := finishBodies_spec (g := g) hacc' hflow' hcommit' hdone.2
    exact ⟨hinv, .inr (hsteady.same.trans hsame), fun _ _ _ hj => by rw [hended] at hj; cases hj⟩
  next hmore =>
  rcases timeoutCheck_eq w' i.now with heq | heq
  · rw [heq]
    refine ⟨⟨hacc', fun _ => ?_⟩, .inr hsteady.same, fun ht hn _ _ => hnone ht hn⟩
    refine ⟨fun p hp => ?_, fun hj => ?_, fun _ hj => absurd hjob' hj, fun hj => absurd hjob' hj,
      fun _ => ⟨hflow', fun hr hnil => hmore ⟨.inl hr, hnil⟩⟩⟩
    · rw [hjob'] at hp
      cases hp
      exact hcommit'
    · rw [hjob'] at hj
      cases hj
  · rw [heq]
    have hfail := (fail_spec hacc').2
    exact ⟨.fail hacc', .inl hfail, fun _ _ hn => by rw [hfail] at hn; cases hn⟩

/-! ## The other exchanges -/

/-- What a step comes to: the device failed, or nothing that was staged is changed, or all of it is
committed. -/
inductive Progress (w w' : Writer) : Prop where
  | failed : w'.failed = true → Progress w w'
  | same : Same w w' → Progress w w'
  | committed : w.commits < w'.commits → w'.contents = [] → Progress w w'

theorem Progress.trans {w₁ w₂ w₃ : Writer} (h : Progress w₁ w₂) (h' : Progress w₂ w₃)
    (hf : w₂.failed = true → w₃.failed = true) : Progress w₁ w₃ := by
  cases h' with
  | failed hf' => exact .failed hf'
  | same hs =>
    cases h with
    | failed hf' => exact .failed (hf hf')
    | same hs' => exact .same (hs'.trans hs)
    | committed hc hn => exact .committed (hs.commits.symm ▸ hc) (hs.contents.trans hn)
  | committed hc hn =>
    cases h with
    | failed hf' => exact .failed (hf hf')
    | same hs' => exact .committed (hs'.commits ▸ hc) hn
    | committed hc' _ => exact .committed (hc'.trans hc) hn

theorem Progress.of_same {w₀ w' : Writer} (h : Progress w₀ w') (hs : Same w w₀) : Progress w w' := by
  cases h with
  | failed hf => exact .failed hf
  | same hs' => exact .same (hs.trans hs')
  | committed hc hn => exact .committed (hs.commits ▸ hc) hn

/-- What an answer leaves: a device that failed, or one between two exchanges. -/
structure Handled (w w' : Writer) : Prop where
  accounted : Accounted w'
  settled : w'.failed = false → Settled w'
  progress : Progress w w'

variable {reply : Reply} {job : Job}

theorem Handled.inv {w' : Writer} (h : Handled w w') : Inv w' :=
  ⟨h.accounted, fun hf => (h.settled hf).outstanding⟩

theorem Handled.fail (hacc : Accounted w) : Handled w w.fail where
  accounted := (fail_spec hacc).1
  settled hf := by
    rw [(fail_spec hacc).2] at hf
    cases hf
  progress := .failed (fail_spec hacc).2

/-- What was changed before the answer is not what is staged. -/
theorem Handled.of_same {w₀ w' : Writer} (hs : Same w w₀) (h : Handled w₀ w') : Handled w w' :=
  ⟨h.accounted, h.settled, h.progress.of_same hs⟩

/-- The staged extents are told by states, indexes and data. -/
theorem map_staged {f : Extent → Extent}
    (hf : ∀ e, (f e).state = e.state ∧ (f e).idx = e.idx ∧ (f e).data = e.data) (l : List Extent) :
    (l.map f).countP (fun e => e.state = .staged) = l.countP (fun e => e.state = .staged) ∧
      ((l.map f).filter fun e => e.state = .staged).map (fun e => (e.idx, e.data)) =
        (l.filter fun e => e.state = .staged).map fun e => (e.idx, e.data) := by
  have hstate : (fun e : Extent => decide ((f e).state = .staged)) =
      fun e => decide (e.state = .staged) := by
    funext e
    rw [(hf e).1]
  refine ⟨?_, ?_⟩
  · rw [List.countP_map]
    exact congrArg (List.countP · l) hstate
  · rw [List.filter_map, List.map_map]
    show List.map _ (List.filter (fun e : Extent => decide ((f e).state = .staged)) l) = _
    rw [hstate]
    refine List.map_congr_left fun e _ => ?_
    rw [Function.comp_apply, (hf e).2.1, (hf e).2.2]

/-- A commit goes on to another of its phases. -/
theorem Accounted.move (h : Accounted w) {p : Phase} (hidle : w.commit ≠ .idle)
    (hbegin : w.commit ≠ .begin) (hp : p ≠ .idle) (hp' : p ≠ .begin) (n : ℕ) :
    Accounted { w with commit := p, cursor := n } := by
  refine ⟨h.staged, fun e he => ?_⟩
  rw [h.committing e he]
  exact ⟨fun ⟨hs, _⟩ => ⟨hs, hp, hp'⟩, fun ⟨hs, _⟩ => ⟨hs, hidle, hbegin⟩⟩

theorem giveUp_handled (hacc : Accounted w) (hset : Settled w) : Handled w w.giveUp := by
  have hmap := map_staged (f := fun e => { e with committing := false }) (fun _ => ⟨rfl, rfl, rfl⟩)
    w.slots
  refine ⟨⟨hacc.staged.trans hmap.1.symm, fun e he => ?_⟩, fun _ => ⟨hset.job, hset.owed, hset.inHand,
    hset.pipe⟩, .same ⟨hmap.2, rfl⟩⟩
  obtain ⟨e', -, rfl⟩ := List.mem_map.mp he
  simp [giveUp]

theorem apply_handled (hacc : Accounted w) (hset : Settled w) (hidle : w.commit ≠ .idle)
    (hbegin : w.commit ≠ .begin) : Handled w w.apply := by
  have hclean : ∀ e ∈ w.apply.slots, e.state ≠ .staged ∧ e.committing = false := by
    intro e he
    obtain ⟨e', he', rfl⟩ := List.mem_map.mp he
    have hiff := hacc.committing e' he'
    by_cases hc : e'.committing = true
    · simp [hc]
    rw [if_neg hc]
    refine ⟨fun hs => hc (hiff.mpr ⟨hs, hidle, hbegin⟩), Bool.eq_false_iff.mpr hc⟩
  refine ⟨⟨?_, fun e he => ?_⟩, fun _ => ⟨hset.job, hset.owed, hset.inHand, hset.pipe⟩,
    .committed (Nat.lt_succ_self _) ?_⟩
  · exact (List.countP_eq_zero.mpr fun e he => by simpa using (hclean e he).1).symm
  · rw [(hclean e he).2]
    simp [apply]
  · rw [contents, List.filter_eq_nil_iff.mpr fun e he => by simpa using (hclean e he).1]
    rfl

theorem onLease_handled (hacc : Accounted w) (hset : Settled w) (reply : Reply) :
    Handled w (w.onLease reply) := by
  have hsame : Handled w w := ⟨hacc, fun _ => hset, .same ⟨rfl, rfl⟩⟩
  cases reply with
  | ok d =>
    exact ⟨⟨hacc.staged, hacc.committing⟩, fun _ => ⟨hset.job, hset.owed, hset.inHand, hset.pipe⟩,
      .same ⟨rfl, rfl⟩⟩
  | refused status =>
    rw [onLease]
    split
    · exact hsame
    · exact .fail hacc
  | undecodable => exact .fail hacc

theorem onPut_handled (hacc : Accounted w) (hset : Settled w) (hidle : w.commit ≠ .idle)
    (hbegin : w.commit ≠ .begin) (job : Job) (reply : Reply) : Handled w (w.onPut job reply) := by
  have hmove : ∀ p : Phase, p ≠ .idle → p ≠ .begin → ∀ n status,
      Handled w { w with commit := p, cursor := n, abandonStatus := status } := fun p hp hp' n status =>
    have hmoved := hacc.move hidle hbegin hp hp' n
    ⟨⟨hmoved.staged, hmoved.committing⟩, fun _ => ⟨hset.job, hset.owed, hset.inHand, hset.pipe⟩,
      .same ⟨rfl, rfl⟩⟩
  cases reply with
  | ok d =>
    rw [onPut]
    split
    · exact hmove w.commit hidle hbegin (w.cursor + 1) w.abandonStatus
    · exact hmove .commit (by decide) (by decide) w.cursor w.abandonStatus
  | refused status => exact hmove .abort (by decide) (by decide) w.cursor status
  | undecodable => exact hmove .abort (by decide) (by decide) w.cursor w.abandonStatus

theorem begin_handled (hacc : Accounted w) (hset : Settled w) (hbegin : w.commit = .begin)
    (now : ℕ) (d : Bytes) : Handled w (w.onVolume now .begin (.ok d)) := by
  have hmap := map_staged
    (f := fun e => if e.state = .staged then { e with committing := true } else e)
    (fun e => by split <;> exact ⟨rfl, rfl, rfl⟩) w.slots
  refine ⟨⟨hacc.staged.trans hmap.1.symm, fun e he => ?_⟩, fun _ => ⟨hset.job, hset.owed, hset.inHand,
    hset.pipe⟩, .same ⟨hmap.2, rfl⟩⟩
  obtain ⟨e', he', rfl⟩ := List.mem_map.mp he
  have hiff := hacc.committing e' he'
  rw [hbegin] at hiff
  by_cases hs : e'.state = .staged
  · simp [hs, onVolume]
  have hc : e'.committing = false := Bool.eq_false_iff.mpr fun h => (hiff.mp h).2.2 rfl
  simp [hs, hc]

/-- A begin that has to wait, or a commit that is given up before it began. -/
theorem begin_refused_handled (hacc : Accounted w) (hset : Settled w) (now : ℕ) (status : UInt8) :
    Handled w (w.onVolume now .begin (.refused status)) := by
  have hgive : ∀ st, Handled w ({ w with abandonStatus := st }.giveUp) := fun st => by
    refine Handled.of_same ?_ (giveUp_handled (w := { w with abandonStatus := st })
      ⟨hacc.staged, hacc.committing⟩ ⟨hset.job, hset.owed, hset.inHand, hset.pipe⟩)
    exact ⟨rfl, rfl⟩
  rw [onVolume]
  split
  · split
    · exact hgive _
    exact ⟨⟨hacc.staged, hacc.committing⟩, fun _ => ⟨hset.job, hset.owed, hset.inHand, hset.pipe⟩,
      .same ⟨rfl, rfl⟩⟩
  · split
    · exact .fail hacc
    · exact hgive _

theorem onVolume_handled (hacc : Accounted w) (hset : Settled w) (now : ℕ)
    (hjob : job = .begin ∧ w.commit = .begin ∨ job = .commit ∧ w.commit = .commit ∨ job = .abort)
    (reply : Reply) : Handled w (w.onVolume now job reply) := by
  rcases hjob with ⟨rfl, hc⟩ | ⟨rfl, hc⟩ | rfl
  · cases reply with
    | ok d => exact begin_handled hacc hset hc now d
    | refused status => exact begin_refused_handled hacc hset now status
    | undecodable => exact .fail hacc
  · cases reply with
    | ok d => exact apply_handled hacc hset (by rw [hc]; decide) (by rw [hc]; decide)
    | refused status => exact .fail hacc
    | undecodable => exact .fail hacc
  · cases reply with
    | ok d => exact giveUp_handled hacc hset
    | refused status => exact giveUp_handled hacc hset
    | undecodable => exact .fail hacc

/-- **The answer to the request of an exchange is handled.** -/
theorem onAck_handled (hacc : Accounted w) (hphases : ∀ p, w.job.phase = some p → w.commit = p)
    (hpipe : w.pipe = []) (hjob : w.job ≠ .none) (hjob' : w.job ≠ .bodies) (howed : w.owed = [])
    (now : ℕ) (cid : UInt32) (reply : Reply) : Handled w (w.onAck now cid reply) := by
  have hacc' : Accounted { w with job := .none, inHand := none } := ⟨hacc.staged, hacc.committing⟩
  have hset : Settled { w with job := .none, inHand := none } := ⟨rfl, howed, rfl, hpipe⟩
  have hlift : ∀ {w'}, Handled { w with job := .none, inHand := none } w' → Handled w w' :=
    Handled.of_same (w := w) ⟨rfl, rfl⟩
  unfold onAck
  dsimp only
  split
  · exact hlift (.fail hacc')
  cases hw : w.job with
  | none => exact absurd hw hjob
  | bodies => exact absurd hw hjob'
  | renew => exact hlift (onLease_handled hacc' hset reply)
  | leaf =>
    cases reply with
    | ok d => exact hlift ⟨hacc', fun _ => hset, .same ⟨rfl, rfl⟩⟩
    | refused status => exact hlift (.fail hacc')
    | undecodable => exact hlift (.fail hacc')
  | begin =>
    exact hlift (onVolume_handled hacc' hset now (.inl ⟨rfl, hphases _ (by rw [hw]; rfl)⟩) reply)
  | commit =>
    exact hlift (onVolume_handled hacc' hset now (.inr (.inl ⟨rfl, hphases _ (by rw [hw]; rfl)⟩))
      reply)
  | abort => exact hlift (onVolume_handled hacc' hset now (.inr (.inr rfl)) reply)
  | putLeaf =>
    have hphase : w.commit = .leaves := hphases _ (by rw [hw]; rfl)
    exact hlift (onPut_handled hacc' hset (fun h => by cases hphase.symm.trans h)
      (fun h => by cases hphase.symm.trans h) .putLeaf reply)
  | putRoot =>
    have hphase : w.commit = .root := hphases _ (by rw [hw]; rfl)
    exact hlift (onPut_handled hacc' hset (fun h => by cases hphase.symm.trans h)
      (fun h => by cases hphase.symm.trans h) .putRoot reply)

/-! ## A step -/

/-- What every part of a step keeps: the invariant, what is staged, and that no put is left in hand
if the client takes them. -/
structure Kept (i : Input) (w w' : Writer) : Prop where
  inv : Inv w'
  progress : Progress w w'
  unhanded : i.Takes → Unhanded w → Unhanded w'

theorem Kept.refl (h : Inv w) : Kept i w w := ⟨h, .same ⟨rfl, rfl⟩, fun _ h => h⟩

theorem Kept.fail (hacc : Accounted w) : Kept i w w.fail :=
  ⟨.fail hacc, .failed (fail_spec hacc).2, fun _ _ hn => by rw [(fail_spec hacc).2] at hn; cases hn⟩

theorem Kept.timeoutCheck (h : Inv w) (now : ℕ) : Kept i w (w.timeoutCheck now) := by
  rcases timeoutCheck_eq w now with heq | heq
  · rw [heq]
    exact .refl h
  · rw [heq]
    exact .fail h.accounted

theorem Handled.kept {w' : Writer} (h : Handled w w') : Kept i w w' :=
  ⟨h.inv, h.progress, fun _ _ hf hj => by rw [(h.settled hf).job] at hj; cases hj⟩

/-- What was changed before is not what is staged, nor a put in hand. -/
theorem Kept.of_same {w₀ w' : Writer} (hs : Same w w₀) (hu : Unhanded w → Unhanded w₀)
    (h : Kept i w₀ w') : Kept i w w' :=
  ⟨h.inv, h.progress.of_same hs, fun ht hw => h.unhanded ht (hu hw)⟩

theorem Kept.trans {w₁ w₂ w₃ : Writer} (h : Kept i w₁ w₂) (h' : Kept i w₂ w₃)
    (hf : w₂.failed = true → w₃.failed = true) : Kept i w₁ w₃ :=
  ⟨h'.inv, h.progress.trans h'.progress hf, fun ht hu => h'.unhanded ht (h.unhanded ht hu)⟩

/-- An exchange that is not about bodies is owed one answer at most. -/
theorem Inv.hand (h : Inv w) (hf : w.failed = false) (hjob : w.job ≠ .none) (hjob' : w.job ≠ .bodies)
    (free : Bool) : Inv { w with free := free }.hand := by
  have hout := h.outstanding hf
  obtain ⟨inHand, owed, free, net, heq, hsum⟩ := hand_eq { w with free := free }
  rw [heq]
  exact ⟨⟨h.accounted.staged, h.accounted.committing⟩, fun _ => ⟨hout.phase, fun hj => absurd hj hjob,
    fun _ _ => hsum.trans (hout.exchange hjob hjob'), hout.pipe, fun hj => absurd hj hjob'⟩⟩

theorem collect_kept (h : Inv w) (hf : w.failed = false) (hjob : w.job ≠ .none)
    (hjob' : w.job ≠ .bodies) (i : Input) : Kept i w (w.collect i) := by
  have hout := h.outstanding hf
  unfold collect
  split
  · exact .timeoutCheck h i.now
  next hnone =>
  split
  · exact .timeoutCheck h i.now
  next a as _ =>
  split
  · exact .timeoutCheck h i.now
  next cid hk =>
  have hone := hout.exchange hjob hjob'
  rw [not_not.mp hnone, Option.toList_none, List.append_nil] at hone
  have hnil : w.owed.eraseIdx a.which = [] := by
    obtain ⟨hlt, -⟩ := List.getElem?_eq_some_iff.mp hk
    rw [hone, List.length_singleton, Nat.lt_one_iff] at hlt
    rw [hone, hlt]
    rfl
  have hacc : Accounted { w with owed := w.owed.eraseIdx a.which } :=
    ⟨h.accounted.staged, h.accounted.committing⟩
  refine Handled.kept (Handled.of_same ?_ (onAck_handled hacc hout.phase (hout.pipe hjob') hjob hjob'
    hnil i.now cid a.reply))
  exact ⟨rfl, rfl⟩

theorem pump_of_exchange (hjob : w.job ≠ .none) (hjob' : w.job ≠ .bodies) :
    w.pump g i = { w with free := i.taken }.hand.collect i := by
  unfold pump
  split
  · next h => exact absurd h hjob
  · next h => exact absurd h hjob'
  · rfl

/-- **Looking at the exchange in flight keeps the invariant.** -/
theorem pump_kept (h : Inv w) (hf : w.failed = false) (i : Input) : Kept i w (w.pump g i) := by
  have hout := h.outstanding hf
  by_cases hjob : w.job = .none
  · rw [pump, hjob]
    exact .refl h
  by_cases hjob' : w.job = .bodies
  · obtain ⟨hinv, hsame, hnone⟩ := bodiesPump_spec (g := g) (i := i) h.accounted (hout.bodies hjob').1
      hjob' (hout.phase _ (by rw [hjob']; rfl)) i.answers
    have hpump : w.pump g i = w.bodiesPump g i i.answers := by rw [pump, hjob']
    rw [hpump]
    exact ⟨hinv, hsame.elim .failed .same, fun ht hu => hnone ht (hu hf hjob')⟩
  · rw [pump_of_exchange hjob hjob']
    have hsteady := hand_steady { w with free := i.taken }
    have hinv := h.hand hf hjob hjob' i.taken
    have hkept := collect_kept hinv (hsteady.failed.trans hf) (fun hj => hjob (hsteady.job.symm.trans hj))
      (fun hj => hjob' (hsteady.job.symm.trans hj)) i
    refine Kept.of_same ?_ (fun _ _ hj => absurd (hsteady.job.symm.trans hj) hjob') hkept
    exact ⟨hsteady.same.contents, hsteady.same.commits⟩

/-- A request is issued between two exchanges. -/
theorem issue_kept (hacc : Accounted w) (hset : Settled w) {job : Job} (hjob : job ≠ .none)
    (hjob' : job ≠ .bodies) (hphase : ∀ p, job.phase = some p → w.commit = p) (i : Input) :
    Kept i w (w.issue job i) := by
  obtain ⟨inHand, owed, free, net, heq, hsum⟩ := hand_eq { w.takeCid with
    job := job, inHand := some w.takeCid.jobCid, jobAt := i.now, free := i.taken }
  have hone : owed ++ inHand.toList = [w.takeCid.jobCid] := by
    rw [hsum]
    show w.owed ++ _ = _
    rw [hset.owed]
    rfl
  have hissue : w.issue job i = _ := heq
  rw [hissue]
  exact ⟨⟨⟨hacc.staged, hacc.committing⟩, fun _ => ⟨hphase, fun hj => absurd hj hjob, fun _ _ => hone,
    fun _ => hset.pipe, fun hj => absurd hj hjob'⟩⟩, .same ⟨rfl, rfl⟩,
    fun _ _ _ hj => absurd hj hjob'⟩

/-- Between two exchanges a commit goes on to another of its phases. -/
theorem Settled.move_inv (hset : Settled w) (hacc : Accounted w) (hleaves : w.commit = .leaves)
    {p : Phase} (hp : p ≠ .idle) (hp' : p ≠ .begin) (n : ℕ) (cid job : UInt32) :
    Inv { w with commit := p, cursor := n, nextCid := cid, jobCid := job } :=
  have hmoved := hacc.move (fun h => by cases hleaves.symm.trans h)
    (fun h => by cases hleaves.symm.trans h) hp hp' n
  ⟨⟨hmoved.staged, hmoved.committing⟩, fun _ => Settled.outstanding
    ⟨hset.job, hset.owed, hset.inHand, hset.pipe⟩⟩

theorem leavesNext_kept (hacc : Accounted w) (hset : Settled w) (hleaves : w.commit = .leaves)
    (i : Input) (pages : List Page) : Kept i w (leavesNext i rest pages w) := by
  induction rest generalizing w pages with
  | nil =>
    exact ⟨hset.move_inv hacc hleaves (by decide) (by decide) w.cursor w.nextCid w.jobCid,
      .same ⟨rfl, rfl⟩, fun _ hu => hu⟩
  | cons e rest ih =>
    have hgo : ∀ n cid job pages', Kept i w
        (leavesNext i rest pages' { w with cursor := n, nextCid := cid, jobCid := job }) := by
      intro n cid job pages'
      refine Kept.of_same ?_ ?_ (ih (w := { w with cursor := n, nextCid := cid, jobCid := job })
        ⟨hacc.staged, hacc.committing⟩ ⟨hset.job, hset.owed, hset.inHand, hset.pipe⟩ hleaves pages')
      · exact ⟨rfl, rfl⟩
      · exact fun hu => hu
    unfold leavesNext
    split
    · split
      · exact hgo (w.cursor + 1) w.nextCid w.jobCid pages.tail
      · exact issue_kept hacc hset (by decide) (by decide) (fun p hp => by cases hp; exact hleaves) i
      · exact ⟨hset.move_inv hacc hleaves (by decide) (by decide) w.cursor _ _, .same ⟨rfl, rfl⟩,
          fun _ hu => hu⟩
      · exact hgo (w.cursor + 1) _ _ pages.tail
      · exact issue_kept hacc hset (by decide) (by decide) (fun p hp => by cases hp; exact hleaves) i
    · exact hgo (w.cursor + 1) w.nextCid w.jobCid pages

theorem commitNext_kept (hacc : Accounted w) (hset : Settled w) (i : Input) :
    Kept i w (w.commitNext g i) := by
  have hinv : Inv w := ⟨hacc, fun _ => hset.outstanding⟩
  unfold commitNext
  split
  · exact .refl hinv
  · next hc =>
    split
    · exact .refl hinv
    · exact issue_kept hacc hset (by decide) (by decide) (fun p hp => by cases hp; exact hc) i
  · next hc =>
    obtain ⟨hinv', hsame, hnone⟩ := bodiesPump_spec (g := g) (i := i) (w := { w with
      job := .bodies, jobAt := i.now, inHand := none, pipe := [], pipeRefused := false })
      ⟨hacc.staged, hacc.committing⟩ ⟨by rw [hset.owed]; exact List.Perm.refl _, Nat.zero_le _⟩ rfl hc
      i.later
    refine ⟨hinv', ?_, fun ht _ => hnone ht rfl⟩
    rcases hsame with hf | hs
    · exact .failed hf
    · exact .same ⟨hs.contents, hs.commits⟩
  · next hc => exact leavesNext_kept hacc hset hc i i.pages
  · next hc => exact issue_kept hacc hset (by decide) (by decide) (fun p hp => by cases hp; exact hc) i
  · next hc => exact issue_kept hacc hset (by decide) (by decide) (fun p hp => by cases hp; exact hc) i
  · next hc => exact issue_kept hacc hset (by decide) (by decide) (fun p hp => by cases hp; exact hc) i

/-- **Scheduling keeps the invariant.** -/
theorem schedule_kept (hacc : Accounted w) (hset : Settled w) (i : Input) :
    Kept i w (w.schedule g i) := by
  have hinv : Inv w := ⟨hacc, fun _ => hset.outstanding⟩
  unfold schedule
  split
  · exact issue_kept hacc hset (by decide) (by decide) (fun p hp => by cases hp) i
  split
  · exact commitNext_kept hacc hset i
  next hidle =>
  have hc := not_not.mp hidle
  split
  · split
    · refine Kept.of_same ?_ ?_ (commitNext_kept (w := { w with
        commit := .begin, abandonStatus := 0, beginSince := i.now, retryAt := 0 })
        ⟨hacc.staged, fun e he => ?_⟩ ⟨hset.job, hset.owed, hset.inHand, hset.pipe⟩ i)
      · exact ⟨rfl, rfl⟩
      · exact fun hu => hu
      · have hiff := hacc.committing e he
        rw [hc] at hiff
        rw [hiff]
        simp
    · exact ⟨⟨⟨hacc.staged, hacc.committing⟩, fun _ => Settled.outstanding
        ⟨hset.job, hset.owed, hset.inHand, hset.pipe⟩⟩, .same ⟨rfl, rfl⟩, fun _ hu => hu⟩
  · exact .refl hinv

theorem leaseGuard_kept (h : Inv w) (now : ℕ) : Kept i w (w.leaseGuard g now) := by
  unfold leaseGuard
  split
  · exact .fail h.accounted
  · exact .refl h

theorem fail_of_failed (h : w.failed = true) : w.fail = w := if_pos h

theorem leaseGuard_of_failed (h : w.failed = true) (now : ℕ) : (w.leaseGuard g now).failed = true := by
  unfold leaseGuard
  split
  · rw [fail_of_failed h]
    exact h
  · exact h

/-- **A step keeps the invariant.** -/
theorem step_kept (h : Inv w) (i : Input) : Kept i w (w.step g i) := by
  unfold step
  split
  · exact .refl h
  next hf =>
  split
  · exact .fail h.accounted
  · exact .refl h
  · have hpump := pump_kept (g := g) h (Bool.eq_false_iff.mpr hf) i
    have hguard := hpump.trans (leaseGuard_kept (g := g) hpump.inv i.now)
      (leaseGuard_of_failed · i.now)
    dsimp only
    generalize (w.pump g i).leaseGuard g i.now = w' at hguard
    have hflush : Kept i w { w' with flushWanted := w'.flushWanted || i.flush } :=
      ⟨⟨⟨hguard.inv.accounted.staged, hguard.inv.accounted.committing⟩, fun hf => by
        have hout := hguard.inv.outstanding hf
        exact ⟨hout.phase, hout.settled, hout.exchange, hout.pipe,
          fun hj => ⟨⟨(hout.bodies hj).1.perm, (hout.bodies hj).1.length_le⟩, (hout.bodies hj).2⟩⟩⟩,
        hguard.progress.trans (.same ⟨rfl, rfl⟩) id, hguard.unhanded⟩
    split
    · next hnext =>
      have hout := hflush.inv.outstanding hnext.1
      have hset : Settled { w' with flushWanted := w'.flushWanted || i.flush } :=
        ⟨hnext.2, (hout.settled hnext.2).1, (hout.settled hnext.2).2,
          hout.pipe (fun hj => by cases hnext.2.symm.trans hj)⟩
      exact hflush.trans (schedule_kept hflush.inv.accounted hset i) fun hf => by
        cases hnext.1.symm.trans hf
    · exact hflush

theorem ready_inv (slots : List Extent) (cid : UInt32) (now : ℕ) : Inv (Writer.ready slots cid now) := by
  have hmap := map_staged (f := fun e => { e with committing := false }) (fun _ => ⟨rfl, rfl, rfl⟩)
    slots
  refine ⟨⟨hmap.1.symm, fun e he => ?_⟩, fun _ => Settled.outstanding ⟨rfl, rfl, rfl, rfl⟩⟩
  obtain ⟨e', -, rfl⟩ := List.mem_map.mp he
  simp [Writer.ready]

end Loam.VolumeWriter

import Loam.AdminClientExact

/-!
# The runs of a client

Whatever is sent to a client, in whatever pieces, what it keeps is kept
(`step_good`): over the network what comes is the data of the frames of its
connection, and on a link the records of its session. So, at every point of a
run, what its caller has had is the answers among the records that are done
with, the next answer handed out is the next of them, and there is room for more
while the record at the front is not whole (`hands_of_run`).
-/

namespace Loam.AdminClient

open Slices BridgeWorld

variable {W : ClientWire} {w : World} {frames : List Bytes} {c c₀ : Client}

/-! ## What comes only grows -/

theorem recvLoop_looks (n : ℕ) (w : World) :
    (w.recvLoop W n).1.came = w.came ∧ (w.recvLoop W n).1.linkIn = w.linkIn := by
  induction n generalizing w with
  | zero => exact ⟨rfl, rfl⟩
  | succ n ih =>
    unfold World.recvLoop
    split
    · exact ⟨rfl, rfl⟩
    · exact ⟨rfl, rfl⟩
    · dsimp only
      split
      · exact ⟨rfl, rfl⟩
      · exact ih _

theorem recv_looks (w : World) : (w.recv W).1.came = w.came ∧ (w.recv W).1.linkIn = w.linkIn := by
  unfold World.recv
  split
  · exact ⟨rfl, rfl⟩
  · exact recvLoop_looks _ _

theorem looked_came (w : World) : (w.looked W).came = w.came := by
  unfold World.looked
  split
  · exact (recv_looks w).1
  · rfl

/-- **What a frame of the transport does**: it leaves what came, or its data find no
room, or they are put behind what came before. -/
theorem netEvent_cases (w : World) (f : ClustorFrame) :
    (∃ c, w.netEvent W f = { w with c := c } ∧ (w.c.status ≠ .failed → Aside w.c c)) ∨
      (rxMax W < w.c.rx.length + (f.2.drop 2).length ∧
        w.netEvent W f = { w with c := w.c.fail .protocol }) ∨
      w.netEvent W f =
        ({ w with
          c := { w.c with rx := w.c.rx ++ f.2.drop 2 }
          came := w.came ++ f.2.drop 2 } : World).looked W := by
  unfold World.netEvent
  split
  · split
    · exact .inl ⟨_, rfl, fun _ => .refl _⟩
    refine .inl ⟨_, rfl, fun hs => ?_⟩
    exact ⟨rfl, rfl, rfl, rfl, fun hf => absurd hf hs, nofun⟩
  split
  · split
    · exact .inl ⟨_, rfl, fun _ => .refl _⟩
    unfold Client.absorb
    split
    · next hnone =>
      refine .inr (.inl ⟨?_, rfl⟩)
      by_contra hle
      rw [if_neg hle] at hnone
      cases hnone
    · next c hsome =>
      refine .inr (.inr ?_)
      split at hsome
      · cases hsome
      obtain rfl := Option.some.inj hsome
      rfl
  · split
    · split
      · exact .inl ⟨_, rfl, fun _ => .fail _ nofun⟩
      · exact .inl ⟨_, rfl, fun _ => .refl _⟩
    split
    · dsimp only
      split
      · exact .inl ⟨_, rfl, fun _ => ⟨rfl, rfl, rfl, rfl, id, fun h h' => ⟨h, h'⟩⟩⟩
      split
      · exact .inl ⟨_, rfl, fun _ => .fail _ nofun⟩
      · exact .inl ⟨_, rfl, fun _ => .refl _⟩
    · exact .inl ⟨_, rfl, fun _ => .refl _⟩

theorem netEvent_came (w : World) (f : ClustorFrame) : w.came <+: (w.netEvent W f).came := by
  rcases netEvent_cases (W := W) w f with ⟨c, hc, -⟩ | ⟨-, hc⟩ | hc
  · exact (congrArg World.came hc).symm ▸ List.prefix_refl w.came
  · exact (congrArg World.came hc).symm ▸ List.prefix_refl w.came
  · rw [hc, looked_came]
    exact List.prefix_append _ _

theorem netRead_came (ks : List ℕ) (w : World) : w.came <+: (w.netRead W ks).came := by
  induction ks generalizing w with
  | nil => exact List.prefix_refl _
  | cons k ks ih =>
    unfold World.netRead
    split
    · exact List.prefix_refl _
    split
    · exact List.prefix_refl _
    · exact List.prefix_refl _
    · next s _ => exact ih { w with net := s }
    · next f s _ =>
      have hev := netEvent_came (W := W) { w with net := s, handed := w.handed ++ [f] } f
      dsimp only
      split
      · exact hev
      · exact hev.trans (ih _)

theorem linkPoll_came (recs : List Bytes) (w : World) : w.came <+: (w.linkPoll W recs).came := by
  induction recs generalizing w with
  | nil => exact List.prefix_refl _
  | cons rec recs ih =>
    unfold World.linkPoll
    split
    · exact List.prefix_refl _
    split
    · exact List.prefix_refl _
    split
    · exact ih _
    refine .trans ?_ (ih _)
    rw [looked_came]
    exact List.prefix_append _ _

theorem netDial_came (w : World) (io : World.PollIo) : (w.netDial io).came = w.came := by
  unfold World.netDial
  split
  · split
    · rfl
    · split <;> rfl
  · rfl

theorem presentNext_came (w : World) : (w.presentNext W).came = w.came := by
  unfold World.presentNext
  split
  · split <;> rfl
  · rfl

theorem redialed_came (w : World) (t : ℕ) : (w.redialed t).came = w.came := by
  unfold World.redialed
  split
  · rfl
  · split <;> rfl

theorem readIn_came (w : World) (io : World.PollIo) : w.came <+: (w.readIn W io).came := by
  unfold World.readIn
  split
  · exact linkPoll_came _ _
  dsimp only
  rw [← netDial_came w io]
  split
  · exact List.prefix_refl _
  · exact netRead_came _ _

theorem poll_came (w : World) (io : World.PollIo) : w.came <+: (w.poll W io).came := by
  unfold World.poll
  split
  · exact List.prefix_refl _
  split
  · exact List.prefix_refl _
  show w.came <+: (((w.redialed io.nowMs).readIn W io).presentNext W).came
  rw [presentNext_came]
  have hread := readIn_came (W := W) (w.redialed io.nowMs) io
  rw [redialed_came] at hread
  exact hread

theorem step_came (w : World) (m : World.Move) : w.came <+: (w.step W m).came := by
  cases m with
  | arrive f => exact List.prefix_refl _
  | record rec => exact List.prefix_refl _
  | feed f =>
    show w.came <+: (if _ then w.netEvent W f else w).came
    split
    · exact netEvent_came w f
    · exact List.prefix_refl _
  | poll io => exact poll_came w io
  | send frame sent => exact List.prefix_refl _
  | recv =>
    exact (recv_looks (W := W) w).1.symm ▸ List.prefix_refl w.came
  | take =>
    show w.came <+: w.take.came
    unfold World.take
    split <;> exact List.prefix_refl _

theorem run_came (w : World) (ms : List World.Move) :
    w.came <+: (Run.run (World.step W) w ms).came := by
  induction ms generalizing w with
  | nil => exact List.prefix_refl _
  | cons m ms ih => exact (step_came w m).trans (ih _)

/-! ## What a run keeps -/

/-- A record on a link: it begins with a session, and where that is the client's, an
answer of the gate follows. -/
def IsLinkRecord (W : ClientWire) (session : UInt32) (rec : Bytes) : Prop :=
  4 ≤ rec.length ∧ (num rec 0 4 = session.toNat → IsRecord W (rec.drop 4))

/-- What is kept of a client that began as `c₀`. -/
structure Good (W : ClientWire) (frames : List Bytes) (c₀ : Client) (w : World) : Prop where
  kept : Kept W frames w
  fixed : w.c.fixed = c₀.fixed
  records : ∀ rec ∈ w.linkIn, IsLinkRecord W c₀.session rec
  /-- What the transport sent has been handed on, or is still to be. -/
  pending : ∃ fs, w.net.Holds W.net fs ∧ w.arrived = w.handed ++ fs

theorem Good.client (h : Good W frames c₀ w) (ha : Aside w.c c) : Good W frames c₀ { w with c := c } :=
  ⟨h.kept.client ha, ha.fixed.trans h.fixed, h.records, h.pending⟩

theorem Good.recv (hframes : ∀ f ∈ frames, IsRecord W f) (h : Good W frames c₀ w) :
    Good W frames c₀ (w.recv W).1 := by
  obtain ⟨hk, hl, -⟩ := recv_spec hframes h.kept
  obtain ⟨c, d, hsame⟩ := hl.same
  refine ⟨hk, hl.fixed.trans h.fixed, ?_, ?_⟩
  · rw [hsame]
    exact h.records
  · rw [hsame]
    exact h.pending

theorem Good.looked (hframes : ∀ f ∈ frames, IsRecord W f) (h : Good W frames c₀ w) :
    Good W frames c₀ (w.looked W) := by
  unfold World.looked
  split
  · exact h.recv hframes
  · exact h

theorem Good.netEvent (hframes : ∀ f ∈ frames, IsRecord W f) (h : Good W frames c₀ w)
    (hs : w.c.status ≠ .failed) (hnet : c₀.link = false) (hroom : w.c.hasRoom W = true)
    {f : ClustorFrame} (hf : NetIn.Sends W.net f) (hcame : (w.netEvent W f).came <+: frames.flatten) :
    Good W frames c₀ (w.netEvent W f) := by
  rcases netEvent_cases (W := W) w f with ⟨c, hc, ha⟩ | ⟨hlong, -⟩ | hc
  · rw [hc]
    exact h.client (ha hs)
  · -- A fragment finds the room that was asked for.
    have hle := of_decide_eq_true hroom
    rw [List.length_drop] at hlong
    unfold NetIn.Sends at hf
    omega
  · rw [hc, looked_came] at hcame
    rw [hc]
    have hlink : w.c.link = false := (Client.link_of_fixed h.fixed).trans hnet
    exact Good.looked hframes ⟨h.kept.grow hcame fun hl => absurd (hl.symm.trans hlink) nofun, h.fixed,
      h.records, h.pending⟩

theorem Good.netRead (hframes : ∀ f ∈ frames, IsRecord W f) (h : Good W frames c₀ w)
    (hs : w.c.status ≠ .failed) (hnet : c₀.link = false) {ks : List ℕ}
    (hcame : (w.netRead W ks).came <+: frames.flatten) : Good W frames c₀ (w.netRead W ks) := by
  induction ks generalizing w with
  | nil => exact h
  | cons k ks ih =>
    obtain ⟨fs, hholds, harrived⟩ := h.pending
    unfold World.netRead at hcame ⊢
    split at hcame
    · next hroom =>
      rw [if_pos hroom]
      exact h
    next hroom =>
    rw [if_neg hroom]
    rcases NetIn.read_spec hholds k with hread | ⟨s', hread, hholds'⟩ |
      ⟨f, fs', s', rfl, hread, hholds'⟩
    · rw [hread]
      exact h
    · rw [hread] at hcame ⊢
      exact ih ⟨h.kept.around s' w.linkIn w.arrived w.handed, h.fixed, h.records,
        fs, hholds', harrived⟩ hs hcame
    · rw [hread] at hcame ⊢
      dsimp only at hcame ⊢
      have hgood : Good W frames c₀ { w with net := s', handed := w.handed ++ [f] } :=
        ⟨h.kept.around s' w.linkIn w.arrived _, h.fixed, h.records, fs', hholds', by
          show w.arrived = w.handed ++ [f] ++ fs'
          rw [harrived, List.append_assoc]
          rfl⟩
      have hevent := fun hc => hgood.netEvent hframes hs hnet (not_not.mp hroom)
        (hholds.sends f List.mem_cons_self) hc
      split at hcame
      · next hfailed =>
        rw [if_pos hfailed]
        exact hevent hcame
      · next hgoes =>
        rw [if_neg hgoes]
        exact ih (hevent ((netRead_came ks _).trans hcame)) hgoes hcame

theorem Good.linkPoll (hframes : ∀ f ∈ frames, IsRecord W f) {recs : List Bytes}
    (hrecs : ∀ rec ∈ recs, IsLinkRecord W c₀.session rec) (h : Good W frames c₀ w)
    (hcame : (w.linkPoll W recs).came <+: frames.flatten) : Good W frames c₀ (w.linkPoll W recs) := by
  induction recs generalizing w with
  | nil => exact ⟨h.kept.around w.net [] w.arrived w.handed, h.fixed, nofun, h.pending⟩
  | cons rec recs ih =>
    have hrest : ∀ rec ∈ recs, IsLinkRecord W c₀.session rec := fun r hr =>
      hrecs r (List.mem_cons_of_mem _ hr)
    obtain ⟨hlong, hmine⟩ := hrecs rec List.mem_cons_self
    unfold World.linkPoll at hcame ⊢
    split at hcame
    · next hroom =>
      rw [if_pos hroom]
      exact ⟨h.kept.around w.net _ w.arrived w.handed, h.fixed, hrecs, h.pending⟩
    next hroom =>
    rw [if_neg hroom]
    rw [if_neg (Nat.not_lt.mpr hlong)] at hcame ⊢
    split at hcame
    · next hother =>
      rw [if_pos hother]
      exact ih hrest h hcame
    next hsession =>
    rw [if_neg hsession]
    have hsess : w.c.session = c₀.session := (Prod.mk.inj (Prod.mk.inj h.fixed).2).2
    have hrec : IsRecord W (rec.drop 4) := hmine (by rw [← hsess]; exact not_not.mp hsession)
    have hpre := (linkPoll_came recs _).trans hcame
    rw [looked_came] at hpre
    refine ih hrest (Good.looked hframes ⟨h.kept.grow hpre fun hl => ?_, h.fixed, h.records,
      h.pending⟩) hcame
    obtain ⟨rs, hrs, hwhole⟩ := h.kept.whole hl
    refine ⟨rs ++ [rec.drop 4], fun r hr => ?_, ?_⟩
    · rcases List.mem_append.mp hr with hm | hm
      · exact hrs r hm
      · exact List.mem_singleton.mp hm ▸ hrec
    · rw [List.flatten_append, List.flatten_singleton, hwhole]

theorem netDial_aside (w : World) (io : World.PollIo) :
    ∃ c, w.netDial io = { w with c := c } ∧ Aside w.c c := by
  unfold World.netDial
  split
  · split
    · exact ⟨_, rfl, .fail _ nofun⟩
    split
    · exact ⟨_, rfl, rfl, rfl, rfl, rfl, id, fun h h' => ⟨h, h'⟩⟩
    · exact ⟨_, rfl, .refl _⟩
  · exact ⟨_, rfl, .refl _⟩

theorem redialed_aside (w : World) (t : ℕ) :
    ∃ c, w.redialed t = { w with c := c } ∧ Aside w.c c ∧ c.status = w.c.status := by
  unfold World.redialed
  split
  · exact ⟨_, rfl, ⟨rfl, rfl, rfl, rfl, id, fun h h' => ⟨h, h'⟩⟩, rfl⟩
  split
  · exact ⟨_, rfl, ⟨rfl, rfl, rfl, rfl, id, fun h h' => ⟨h, h'⟩⟩, rfl⟩
  · exact ⟨_, rfl, .refl _, rfl⟩

theorem flush_aside (c : Client) (sent : ℕ) : Aside c (c.flush sent) := by
  unfold Client.flush
  split
  · split
    · exact ⟨rfl, rfl, rfl, rfl, id, fun h h' => ⟨h, h'⟩⟩
    · exact .refl c
  · split
    · exact ⟨rfl, rfl, rfl, rfl, id, fun h h' => ⟨h, h'⟩⟩
    · exact .refl c

theorem send_aside (c : Client) (frame : Bytes) (sent : ℕ) : Aside c (c.send W frame sent) := by
  unfold Client.send
  split
  · obtain ⟨hfixed, hrx, hheld, hawait, hstays, hwhy⟩ := flush_aside (c.stage frame) sent
    exact ⟨hfixed, hrx, hheld, hawait, hstays, hwhy⟩
  · exact .refl c

/-- The next chain is presented, or the client is ready. -/
theorem Good.presentNext (h : Good W frames c₀ w) : Good W frames c₀ (w.presentNext W) := by
  unfold World.presentNext
  split
  · next hcond =>
    obtain ⟨hstatus, hawait, -⟩ := hcond
    have hlive : w.c.status ≠ .failed := fun hf => absurd (hstatus.symm.trans hf) nofun
    split
    · exact h.client ⟨rfl, rfl, rfl, rfl, fun hf => absurd hf hlive, nofun⟩
    have hk := h.kept
    refine ⟨⟨hk.along, hk.split, hk.order, hk.taken, hk.held, hk.whole, .inl ?_,
      fun hf => absurd hf hlive⟩, h.fixed, h.records, h.pending⟩
    show w.done.countP _ + 1 = w.made + 1
    rcases hk.asked with hsum | ⟨-, hf⟩
    · rw [if_neg hawait] at hsum
      rw [← hsum]
    · exact absurd hf hlive
  · exact h

theorem Good.poll (hframes : ∀ f ∈ frames, IsRecord W f) (h : Good W frames c₀ w)
    {io : World.PollIo} (hcame : (w.poll W io).came <+: frames.flatten) :
    Good W frames c₀ (w.poll W io) := by
  unfold World.poll at hcame ⊢
  split at hcame
  · next hf =>
    rw [if_pos hf]
    exact h
  next hlive =>
  rw [if_neg hlive]
  split at hcame
  · next hlate =>
    rw [if_pos hlate]
    exact h.client (.fail _ nofun)
  next hlate =>
  rw [if_neg hlate]
  obtain ⟨c, hc, ha, hstatus⟩ := redialed_aside w io.nowMs
  have hgood : Good W frames c₀ (w.redialed io.nowMs) := hc ▸ h.client ha
  have hlive' : (w.redialed io.nowMs).c.status ≠ .failed := by
    rw [hc]
    exact fun hf => hlive (hstatus.symm.trans hf)
  have hread : ((w.redialed io.nowMs).readIn W io).came <+: frames.flatten := by
    rw [← presentNext_came]
    exact hcame
  refine Good.client (Good.presentNext ?_) (flush_aside _ _)
  generalize w.redialed io.nowMs = w₁ at hgood hlive' hread
  unfold World.readIn at hread ⊢
  by_cases hl : w₁.c.link = true
  · rw [if_pos hl] at hread ⊢
    exact Good.linkPoll hframes hgood.records hgood hread
  rw [if_neg hl] at hread ⊢
  dsimp only at hread ⊢
  obtain ⟨c', hc', ha'⟩ := netDial_aside w₁ io
  have hdialed : Good W frames c₀ (w₁.netDial io) := hc' ▸ hgood.client ha'
  split at hread
  · next hstop =>
    rw [if_pos hstop]
    exact hdialed
  · next hgo =>
    rw [if_neg hgo]
    exact hdialed.netRead hframes (fun hf => hgo (.inr hf))
      ((Client.link_of_fixed hgood.fixed).symm.trans (Bool.eq_false_iff.mpr hl)) hread

/-! ## What the caller has -/

/-- What is sent to the client in a move. -/
def Sent (W : ClientWire) (c₀ : Client) : World.Move → Prop
  | .arrive f => NetIn.Sends W.net f
  | .feed f => NetIn.Sends W.net f
  | .record rec => IsLinkRecord W c₀.session rec
  | _ => True

/-- A client as it begins, over a link or over the network. -/
def Begins (c : Client) : Prop :=
  (∃ session chains nowMs, c = Client.ofLink session chains nowMs) ∨
    ∃ tag shared chains nowMs, c = Client.ofNet tag shared chains nowMs

/-- What the client keeps at its start. -/
theorem Begins.good (hc : Begins c₀) : Good W frames c₀ { c := c₀ } := by
  have hnew : c₀.rx = [] ∧ c₀.held = 0 ∧ c₀.awaiting = false ∧ c₀.status ≠ .failed := by
    rcases hc with ⟨session, chains, t, rfl⟩ | ⟨tag, shared, chains, t, rfl⟩ <;>
      exact ⟨rfl, rfl, rfl, nofun⟩
  obtain ⟨hrx, hheld, hawait, hlive⟩ := hnew
  refine ⟨⟨List.nil_prefix, hrx.symm, List.nil_prefix, rfl, fun hne => absurd hheld hne,
    fun _ => ⟨[], nofun, rfl⟩, .inl ?_, fun hf => absurd hf hlive⟩, rfl, nofun,
    [], NetIn.holds_empty W.net, rfl⟩
  show _ + (if c₀.awaiting then 1 else 0) = _
  rw [hawait]
  rfl

theorem Begins.alone (hc : Begins c) (hshared : c.shared = true) : c.link = false := by
  rcases hc with ⟨session, chains, t, rfl⟩ | ⟨tag, shared, chains, t, rfl⟩
  · cases hshared
  · rfl

/-- **Every move keeps it.** -/
theorem step_good (hframes : ∀ f ∈ frames, IsRecord W f) (hc : Begins c₀) (h : Good W frames c₀ w)
    {m : World.Move} (hm : Sent W c₀ m) (hcame : (w.step W m).came <+: frames.flatten) :
    Good W frames c₀ (w.step W m) := by
  cases m with
  | arrive f =>
    obtain ⟨fs, hholds, harrived⟩ := h.pending
    refine ⟨h.kept.around _ w.linkIn _ w.handed, h.fixed, h.records, fs ++ [f], hholds.arrive hm, ?_⟩
    show w.arrived ++ [f] = w.handed ++ (fs ++ [f])
    rw [harrived, List.append_assoc]
  | record rec =>
    refine ⟨h.kept.around w.net _ w.arrived w.handed, h.fixed, fun r hr => ?_, h.pending⟩
    rcases List.mem_append.mp hr with hold | hnew
    · exact h.records r hold
    · exact List.mem_singleton.mp hnew ▸ hm
  | feed f =>
    by_cases hgo : w.c.shared = true ∧ w.c.hasRoom W = true ∧ w.c.status ≠ .failed
    · have hstep : w.step W (.feed f) = w.netEvent W f := if_pos hgo
      rw [hstep] at hcame ⊢
      have hshared : c₀.shared = true :=
        (Prod.mk.inj (Prod.mk.inj h.fixed).2).1.symm.trans hgo.1
      exact h.netEvent hframes hgo.2.2 (hc.alone hshared) hgo.2.1 hm hcame
    · have hstep : w.step W (.feed f) = w := if_neg hgo
      rw [hstep]
      exact h
  | poll io => exact h.poll hframes hcame
  | send frame sent => exact h.client (send_aside _ _ _)
  | recv => exact h.recv hframes
  | take =>
    have hk := h.kept.take
    show Good W frames c₀ w.take
    unfold World.take at hk ⊢
    split
    · exact h
    next hne =>
    rw [if_neg hne] at hk
    exact ⟨hk, h.fixed, h.records, h.pending⟩

theorem run_good (hframes : ∀ f ∈ frames, IsRecord W f) (hc : Begins c₀) {ms : List World.Move}
    (hsent : ∀ m ∈ ms, Sent W c₀ m) (h : Good W frames c₀ w)
    (hcame : (Run.run (World.step W) w ms).came <+: frames.flatten) :
    Good W frames c₀ (Run.run (World.step W) w ms) := by
  induction ms generalizing w with
  | nil => exact h
  | cons m ms ih =>
    exact ih (fun m' hm => hsent m' (List.mem_cons_of_mem _ hm))
      (step_good hframes hc h (hsent m List.mem_cons_self) ((run_came _ ms).trans hcame)) hcame

/-- A record at the front of the records is the first of them. -/
theorem IsRecord.eq_of_front {r f t u : Bytes} (hr : IsRecord W r) (hf : IsRecord W f)
    (h : r ++ t = f ++ u) : r = f := by
  -- Read on its own, a record is whole; so neither is less than the other.
  have hfront : ∀ {r f t u : Bytes}, IsRecord W r → IsRecord W f → r ++ t = f ++ u → f <+: r := by
    intro r f t u hr hf h
    have hgo : ∀ c' : Client, ({ Client.ofLink 0 [] 0 with rx := r } : Client).recvPass W ≠ (c', .stop) := by
      intro c' hstop
      rcases recvPass_along (c := { Client.ofLink 0 [] 0 with rx := r }) (t := []) (u := []) hr rfl with
        ⟨hlt, -⟩ | ⟨-, -, hans⟩ | ⟨-, -, p, -, hhand⟩
      · exact Nat.lt_irrefl _ hlt
      · rw [hans] at hstop
        cases hstop
      · rw [hhand] at hstop
        cases hstop
    rcases recvPass_along (c := { Client.ofLink 0 [] 0 with rx := r }) hf h with
      ⟨-, hstop⟩ | ⟨hpre, -⟩ | ⟨hpre, -⟩
    · exact absurd hstop (hgo _)
    · exact hpre
    · exact hpre
  exact (hfront hf hr h.symm).eq_of_length
    (Nat.le_antisymm (hfront hf hr h.symm).length_le (hfront hr hf h).length_le)

/-- Records that go along with others are the first of them. -/
theorem records_along {rs fs : List Bytes} (hrs : ∀ r ∈ rs, IsRecord W r)
    (hfs : ∀ f ∈ fs, IsRecord W f) (h : rs.flatten <+: fs.flatten) : rs <+: fs := by
  induction rs generalizing fs with
  | nil => exact List.nil_prefix
  | cons r rs ih =>
    obtain ⟨t, ht⟩ := h
    cases fs with
    | nil =>
      have hnil := (List.append_eq_nil_iff.mp (List.append_eq_nil_iff.mp ht).1).1
      exact absurd hnil (hrs r List.mem_cons_self).ne_nil
    | cons f fs =>
      rw [List.flatten_cons, List.flatten_cons, List.append_assoc] at ht
      obtain rfl := (hrs r List.mem_cons_self).eq_of_front (hfs f List.mem_cons_self) ht
      exact List.cons_prefix_cons.mpr ⟨rfl, ih (fun r' hr => hrs r' (List.mem_cons_of_mem _ hr))
        (fun f' hf => hfs f' (List.mem_cons_of_mem _ hf)) ⟨t, List.append_cancel_left ht⟩⟩

/-- While the record at the front is not whole, the buffer has less than a record, and
on a link nothing. -/
theorem Kept.little (hframes : ∀ f ∈ frames, IsRecord W f) (h : Kept W frames w)
    (hshort : w.Short frames) : w.c.rx.length ≤ responseMax ∧ (w.c.link = true → w.c.rx = []) := by
  obtain ⟨rest, t, hrest, hrx⟩ := h.rest
  cases rest with
  | nil =>
    have hnil := (List.append_eq_nil_iff.mp hrx).1
    exact ⟨by rw [hnil]; exact Nat.zero_le _, fun _ => hnil⟩
  | cons f fs =>
    have hnext : w.done ++ [f] <+: frames := ⟨fs, by rw [List.append_assoc]; exact hrest⟩
    have hlt := hshort f hnext
    refine ⟨?_, fun hl => ?_⟩
    · cases hframes f (hnext.subset (List.mem_append_right _ List.mem_cons_self)) with
      | inl ha => exact hlt.le.trans ha.fits
      | inr hcap =>
        obtain ⟨p, rfl, -, hgranted, -⟩ := hcap
        rw [length_encodeEnvelope] at hlt
        exact hlt.le.trans ((Nat.add_le_add_left hgranted _).trans W.granted_fits)
    · -- The records that came are those that are done with.
      obtain ⟨rs, hrs, hcame⟩ := h.whole hl
      have hpre := records_along hrs hframes (hcame ▸ h.along)
      have hsplit := h.split
      rw [hcame] at hsplit
      rcases List.prefix_or_prefix_of_prefix hpre hnext with hless | ⟨more, hmore⟩
      · rcases List.prefix_concat_iff.mp hless with heq | hless
        · rw [heq, List.flatten_append, List.flatten_singleton, List.append_cancel_left_eq] at hsplit
          rw [hsplit] at hlt
          exact absurd hlt (Nat.lt_irrefl _)
        have hlen := hless.length_le
        obtain ⟨more, hmore⟩ := hless
        rw [← hmore, List.flatten_append, List.append_assoc] at hsplit
        have hnil := List.self_eq_append_right.mp hsplit
        exact (List.append_eq_nil_iff.mp hnil).2
      · rw [← hmore, List.flatten_append, List.flatten_append, List.flatten_singleton,
          List.append_assoc, List.append_cancel_left_eq] at hsplit
        rw [← hsplit, List.length_append] at hlt
        omega

/-- What the caller of a client has of the records. -/
structure Hands (W : ClientWire) (frames : List Bytes) (w : World) : Prop where
  order : w.done <+: frames
  /-- The caller has released the answers to its requests among them. -/
  taken : w.taken = w.done.filter fun f => !isCapAnswer W f
  /-- What it is handed is the next record, an answer to a request. -/
  next : ∀ f, (w.recv W).2 = some f →
    isCapAnswer W f = false ∧ (w.recv W).1.done ++ [f] <+: frames
  /-- When it is handed none, all that has come whole is done with. -/
  all : (w.recv W).2 = none → (w.recv W).1.c.status ≠ .failed → ∀ n ≤ frames.length,
    (frames.take n).flatten <+: w.came → n ≤ (w.recv W).1.done.length
  /-- While the record at the front is not whole, there is room for more. -/
  reads : w.Short frames → w.c.hasRoom W = true ∧ (w.c.link = true → w.c.hasLinkRoom W = true)
  protocol : w.c.status = .failed → w.c.why = .protocol → w.made < w.done.countP (isCapAnswer W)
  /-- What the transport sent has been handed on, or is still to be. -/
  handed : ∃ fs, w.net.Holds W.net fs ∧ w.arrived = w.handed ++ fs

/-- **A client hands out exactly the answers**, however the records are cut. -/
theorem hands_of_run (hframes : ∀ f ∈ frames, IsRecord W f) (hc : Begins c₀) {ms : List World.Move}
    (hsent : ∀ m ∈ ms, Sent W c₀ m)
    (hcame : (Run.run (World.step W) { c := c₀ } ms).came <+: frames.flatten) :
    Hands W frames (Run.run (World.step W) { c := c₀ } ms) := by
  have h := run_good hframes hc hsent hc.good hcame
  generalize Run.run (World.step W) { c := c₀ } ms = w at h hcame
  obtain ⟨hk, hl, hnext, hnone⟩ := recv_spec hframes h.kept
  refine ⟨h.kept.order, h.kept.taken, hnext, fun hstop hlive n hn hpre => ?_, fun hshort => ?_,
    h.kept.unasked, h.pending⟩
  · have hshort := hnone hstop hlive
    rw [← (recv_looks (W := W) w).1] at hpre
    generalize (w.recv W).1 = w' at hk hshort hpre
    by_contra hlt
    obtain ⟨rest, -, hrest, -⟩ := hk.rest
    cases rest with
    | nil =>
      rw [List.append_nil] at hrest
      exact hlt (hrest ▸ hn)
    | cons f fs =>
      have hfront : w'.done ++ [f] <+: frames := ⟨fs, by rw [List.append_assoc]; exact hrest⟩
      have hlate := hshort f hfront
      -- The next record would be among what has come.
      have hin : w'.done ++ [f] <+: frames.take n := by
        refine List.prefix_take_iff.mpr ⟨hfront, ?_⟩
        rw [List.length_append, List.length_singleton]
        exact Nat.not_le.mp hlt
      obtain ⟨u, hu⟩ := hin
      have hlen := hpre.length_le
      rw [← hu, hk.split, List.flatten_append, List.flatten_append, List.length_append,
        List.length_append, List.length_append, List.flatten_singleton] at hlen
      omega
  · obtain ⟨hless, hlink⟩ := h.kept.little hframes hshort
    refine ⟨decide_eq_true ?_, fun hl => decide_eq_true ?_⟩
    · rw [rxMax]
      omega
    · rw [hlink hl, rxMax]
      show 0 + 4 + responseMax ≤ _
      omega

end Loam.AdminClient

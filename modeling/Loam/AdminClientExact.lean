import Loam.AdminClient
import Loam.Lib.Run

/-!
# A client hands out exactly the answers

What a client is done with, followed by what is in its buffer, is what came for
it, and goes along with the records that the gate sends (`Kept`): the answers to
its requests and, among them, the answers to its presentations. While the record
at the front is not whole there is room for more, and no answer within the
ceilings fails the client. Only an answer to a presentation that it has not made
does.
-/

namespace Loam.AdminClient

open Slices BridgeWorld

variable {W : ClientWire} {c c' : Client} {w w' : World} {frames : List Bytes} {f t u p : Bytes}
  {n : ℕ}

/-! ## The records of the gate -/

/-- An answer to a request, within its ceiling. -/
structure IsAnswer (W : ClientWire) (f : Bytes) : Prop where
  other : isCapAnswer W f = false
  delimited : responseLen f = .ok f.length
  fits : f.length ≤ responseMax

/-- An answer to a presentation, within its ceiling. -/
def IsCap (W : ClientWire) (f : Bytes) : Prop :=
  ∃ p, f = encodeEnvelope (W.answer, p) ∧ W.answerFixed ≤ p.length ∧ p.length ≤ W.answerGranted ∧
    p.length < 65536

/-- What the gate sends. -/
def IsRecord (W : ClientWire) (f : Bytes) : Prop := IsAnswer W f ∨ IsCap W f

theorem IsRecord.ne_nil (h : IsRecord W f) : f ≠ [] := by
  rintro rfl
  cases h with
  | inl ha => cases ha.delimited
  | inr hc =>
    obtain ⟨p, hp, -⟩ := hc
    cases hp

theorem length_encodeEnvelope (k : UInt8) (p : Bytes) :
    (encodeEnvelope (k, p)).length = netHdr + p.length := by
  rw [encodeEnvelope, List.length_append, List.length_append, length_leBytes]
  rfl

/-- **A pass on bytes that go along with a record**: it is not whole, or an answer is
found, or an answer to a presentation is handled. -/
theorem recvPass_along (hf : IsRecord W f) (h : c.rx ++ t = f ++ u) :
    (c.rx.length < f.length ∧ c.recvPass W = (c, .stop)) ∨
      (f <+: c.rx ∧ isCapAnswer W f = false ∧
        c.recvPass W = ({ c with held := f.length }, .answer f)) ∨
      (f <+: c.rx ∧ isCapAnswer W f = true ∧ ∃ p, W.answerFixed ≤ p.length ∧
        c.recvPass W = ((c.onCapAnswer W p).consume f.length, .handled f)) := by
  have hpos := List.length_pos_of_ne_nil hf.ne_nil
  cases hrx : c.rx with
  | nil =>
    refine .inl ⟨hpos, ?_⟩
    unfold Client.recvPass
    rw [hrx]
  | cons b xs =>
    rw [hrx] at h
    -- The front of the buffer is that of the record.
    have hhead : f.head? = some b := by
      cases f with
      | nil => exact absurd rfl hf.ne_nil
      | cons y ys => exact congrArg some (List.cons.inj h).1.symm
    have hwhole : f.length ≤ (b :: xs).length → f <+: b :: xs := fun hle =>
      List.prefix_of_prefix_length_le ⟨u, h.symm⟩ (List.prefix_append _ t) hle
    have htake : f <+: b :: xs → (b :: xs).take f.length = f := by
      rintro ⟨v, hv⟩
      rw [← hv, List.take_left]
    unfold Client.recvPass
    rw [hrx]
    dsimp only
    cases hf with
    | inl ha =>
      have hb : b ≠ W.answer := by
        rintro rfl
        have hother := ha.other
        rw [isCapAnswer, hhead, beq_self_eq_true] at hother
        cases hother
      rw [if_neg hb]
      by_cases hlt : (b :: xs).length < f.length
      · refine .inl ⟨hlt, ?_⟩
        have hfront : b :: xs <+: f := List.prefix_of_prefix_length_le (List.prefix_append _ t)
          ⟨u, h.symm⟩ (Nat.le_of_lt hlt)
        by_cases hfew : responseLen (b :: xs) = .error .truncated
        · rw [hfew]
          rfl
        obtain ⟨v, hv⟩ := hfront
        have hsaid := settled_responseLen _ v hfew
        rw [hv, ha.delimited] at hsaid
        rw [← hsaid]
        dsimp only
        rw [if_neg (Nat.not_lt.mpr ha.fits), if_neg (Nat.not_le.mpr hlt)]
      · have hfront := hwhole (Nat.not_lt.mp hlt)
        have hsaid : responseLen (b :: xs) = .ok f.length := by
          obtain ⟨v, hv⟩ := hfront
          rw [← hv, settled_responseLen f v (by rw [ha.delimited]; exact nofun), ha.delimited]
        rw [hsaid]
        dsimp only
        rw [if_neg (Nat.not_lt.mpr ha.fits), if_pos (Nat.not_lt.mp hlt), htake hfront]
        exact .inr (.inl ⟨hfront, ha.other, rfl⟩)
    | inr hc =>
      obtain ⟨p, rfl, hfixed, hgranted, hp⟩ := hc
      have hb : b = W.answer := (Option.some.inj hhead).symm
      rw [if_pos hb]
      by_cases hhdr : (b :: xs).length < netHdr
      · rw [if_pos hhdr]
        refine .inl ⟨hhdr.trans_le ?_, rfl⟩
        rw [length_encodeEnvelope]
        exact Nat.le_add_right _ _
      have hnum : num (b :: xs) 1 2 = p.length := by
        rw [num_of_front (List.prefix_append (b :: xs) t) (Nat.not_lt.mp hhdr), h]
        exact num_encodeEnvelope hp
      have hmax : ¬ capAnswerFrameMax W < netHdr + p.length :=
        Nat.not_lt.mpr (Nat.add_le_add_left hgranted _)
      rw [if_neg hhdr, hnum, if_neg hmax, length_encodeEnvelope]
      by_cases hlt : (b :: xs).length < netHdr + p.length
      · rw [if_pos hlt]
        exact .inl ⟨hlt, rfl⟩
      have hle := Nat.not_lt.mp hlt
      have hfront := hwhole (by rw [length_encodeEnvelope]; exact hle)
      have htake' := htake hfront
      rw [length_encodeEnvelope] at htake'
      rw [if_neg hlt, htake']
      refine .inr (.inr ⟨hfront, beq_self_eq_true _, _, ?_, rfl⟩)
      rw [length_slice hle]
      exact hfixed

/-! ## What is kept -/

/-- What a client is done with and what is in its buffer is what came, and goes along
with the records. -/
structure Kept (W : ClientWire) (frames : List Bytes) (w : World) : Prop where
  along : w.came <+: frames.flatten
  split : w.came = w.done.flatten ++ w.c.rx
  order : w.done <+: frames
  taken : w.taken = w.done.filter fun f => !isCapAnswer W f
  /-- The answer that the caller holds is the next record. -/
  held : w.c.held ≠ 0 →
    ∃ f, w.done ++ [f] <+: frames ∧ isCapAnswer W f = false ∧ f.length = w.c.held ∧ f <+: w.c.rx
  whole : w.c.link = true → ∃ rs : List Bytes, (∀ r ∈ rs, IsRecord W r) ∧ w.came = rs.flatten
  asked : w.done.countP (isCapAnswer W) + (if w.c.awaiting then 1 else 0) = w.made ∨
    (w.made < w.done.countP (isCapAnswer W) ∧ w.c.status = .failed)
  unasked : w.c.status = .failed → w.c.why = .protocol → w.made < w.done.countP (isCapAnswer W)

/-- The record at the front is not whole. -/
def World.Short (frames : List Bytes) (w : World) : Prop :=
  ∀ f, w.done ++ [f] <+: frames → w.c.rx.length < f.length

theorem Kept.rest (h : Kept W frames w) :
    ∃ rest t, w.done ++ rest = frames ∧ w.c.rx ++ t = rest.flatten := by
  obtain ⟨rest, hrest⟩ := h.order
  obtain ⟨t, ht⟩ := h.along
  rw [h.split, ← hrest, List.flatten_append, List.append_assoc] at ht
  exact ⟨rest, t, hrest, List.append_cancel_left ht⟩

/-- What stays of a client: its transport, and its session on a link. -/
def Client.fixed (c : Client) : Bool × Bool × UInt32 := (c.link, c.shared, c.session)

theorem Client.link_of_fixed (h : c'.fixed = c.fixed) : c'.link = c.link := (Prod.mk.inj h).1

/-- The client changes in nothing that has to do with what came. -/
structure Aside (c c' : Client) : Prop where
  fixed : c'.fixed = c.fixed
  rx : c'.rx = c.rx
  held : c'.held = c.held
  awaiting : c'.awaiting = c.awaiting
  stays : c.status = .failed → c'.status = .failed
  why : c'.status = .failed → c'.why = .protocol → c.status = .failed ∧ c.why = .protocol

theorem Aside.refl (c : Client) : Aside c c := ⟨rfl, rfl, rfl, rfl, id, fun h h' => ⟨h, h'⟩⟩

/-- A client fails, but not over what came. -/
theorem Aside.fail (c : Client) {why : Why} (hwhy : why ≠ .protocol) : Aside c (c.fail why) :=
  ⟨rfl, rfl, rfl, rfl, fun _ => rfl, fun _ hp => absurd hp hwhy⟩

theorem Kept.client (h : Kept W frames w) (ha : Aside w.c c) : Kept W frames { w with c := c } where
  along := h.along
  split := by
    show w.came = w.done.flatten ++ c.rx
    rw [ha.rx]
    exact h.split
  order := h.order
  taken := h.taken
  held hne := by
    obtain ⟨f, hf, hother, hlen, hfront⟩ := h.held (ha.held ▸ hne)
    exact ⟨f, hf, hother, hlen.trans ha.held.symm, ha.rx ▸ hfront⟩
  whole hl := h.whole ((Client.link_of_fixed ha.fixed) ▸ hl)
  asked := by
    show _ + (if c.awaiting then 1 else 0) = _ ∨ (_ ∧ c.status = .failed)
    rw [ha.awaiting]
    exact h.asked.imp id fun hmore => ⟨hmore.1, ha.stays hmore.2⟩
  unasked hs hp := by
    obtain ⟨hs', hp'⟩ := ha.why hs hp
    exact h.unasked hs' hp'

theorem Kept.around (h : Kept W frames w) (net : NetIn) (linkIn : List Bytes)
    (arrived handed : List ClustorFrame) :
    Kept W frames { w with net := net, linkIn := linkIn, arrived := arrived, handed := handed } :=
  ⟨h.along, h.split, h.order, h.taken, h.held, h.whole, h.asked, h.unasked⟩

theorem Kept.grow (h : Kept W frames w) {data : Bytes} (hcame : w.came ++ data <+: frames.flatten)
    (hwhole : w.c.link = true →
      ∃ rs : List Bytes, (∀ r ∈ rs, IsRecord W r) ∧ w.came ++ data = rs.flatten) :
    Kept W frames { w with c := { w.c with rx := w.c.rx ++ data }, came := w.came ++ data } where
  along := hcame
  split := by
    show w.came ++ data = w.done.flatten ++ (w.c.rx ++ data)
    rw [h.split, List.append_assoc]
  order := h.order
  taken := h.taken
  held hne := by
    obtain ⟨f, hf, hother, hlen, hfront⟩ := h.held hne
    exact ⟨f, hf, hother, hlen, hfront.trans (List.prefix_append _ _)⟩
  whole := hwhole
  asked := h.asked
  unasked := h.unasked

/-- What `recv` changes. -/
structure Looks (w w' : World) : Prop where
  same : ∃ c d, w' = { w with c := c, done := d }
  fixed : w'.c.fixed = w.c.fixed
  failed : w.c.status = .failed → w'.c.status = .failed

theorem Looks.refl (w : World) : Looks w w := ⟨⟨w.c, w.done, rfl⟩, rfl, id⟩

theorem Looks.trans {w'' : World} (h : Looks w w') (h' : Looks w' w'') : Looks w w'' where
  same := by
    obtain ⟨c, d, rfl⟩ := h.same
    obtain ⟨c', d', rfl⟩ := h'.same
    exact ⟨c', d', rfl⟩
  fixed := h'.fixed.trans h.fixed
  failed hf := h'.failed (h.failed hf)

/-- An answer to a presentation leaves the buffer and the answer that is held. -/
theorem onCapAnswer_same (c : Client) (hp : W.answerFixed ≤ p.length) :
    (c.onCapAnswer W p).rx = c.rx ∧ (c.onCapAnswer W p).held = c.held ∧
      (c.onCapAnswer W p).fixed = c.fixed ∧ (c.onCapAnswer W p).awaiting = false ∧
      (c.status = .failed → (c.onCapAnswer W p).status = .failed) := by
  unfold Client.onCapAnswer
  split
  · next h =>
    have hnone : c.awaiting = false :=
      Bool.eq_false_iff.mpr (h.resolve_right (Nat.not_lt.mpr hp))
    exact ⟨rfl, rfl, rfl, hnone, fun _ => rfl⟩
  dsimp only
  split
  · exact ⟨rfl, rfl, rfl, rfl, id⟩
  split
  · exact ⟨rfl, rfl, rfl, rfl, fun _ => rfl⟩
  · split <;> exact ⟨rfl, rfl, rfl, rfl, fun _ => rfl⟩

/-- An answer to a presentation that is awaited fails the client only for what it says. -/
theorem onCapAnswer_why (c : Client) (hp : W.answerFixed ≤ p.length) :
    (c.awaiting = false → (c.onCapAnswer W p).status = .failed) ∧
      (c.awaiting = true → (c.onCapAnswer W p).status = .failed →
        (c.onCapAnswer W p).why = .protocol → c.status = .failed ∧ c.why = .protocol) := by
  unfold Client.onCapAnswer
  split
  · next h =>
    have hnone : c.awaiting = false :=
      Bool.eq_false_iff.mpr (h.resolve_right (Nat.not_lt.mpr hp))
    exact ⟨fun _ => rfl, fun ha => absurd (hnone.symm.trans ha) Bool.false_ne_true⟩
  next h =>
  have hawait : c.awaiting = true := not_not.mp (not_or.mp h).1
  refine ⟨fun ha => absurd (ha.symm.trans hawait) Bool.false_ne_true, fun _ => ?_⟩
  dsimp only
  split
  · exact fun hs hw => ⟨hs, hw⟩
  split
  · exact fun _ hw => nomatch hw
  · split <;> exact fun _ hw => nomatch hw

theorem Kept.handled (h : Kept W frames w) (hnone : w.c.held = 0) (hcap : isCapAnswer W f = true)
    (hnext : w.done ++ [f] <+: frames) (hfront : f <+: w.c.rx) (hp : W.answerFixed ≤ p.length) :
    Kept W frames
      { w with c := (w.c.onCapAnswer W p).consume f.length, done := w.done ++ [f] } := by
  obtain ⟨hrx, hheld, hfixed, hawait, hfailed⟩ := onCapAnswer_same w.c hp
  obtain ⟨hnot, hwhy⟩ := onCapAnswer_why w.c hp
  have hcount : (w.done ++ [f]).countP (isCapAnswer W) = w.done.countP (isCapAnswer W) + 1 := by
    rw [List.countP_append, List.countP_singleton, if_pos hcap]
  -- An answer that nobody waits for is one more than the presentations.
  have hmore : w.c.awaiting = false → w.made < w.done.countP (isCapAnswer W) + 1 := by
    intro ha
    rcases h.asked with hsum | ⟨hlt, -⟩
    · rw [ha, if_neg Bool.false_ne_true] at hsum
      omega
    · omega
  refine
    { along := h.along
      split := ?_
      order := hnext
      taken := ?_
      held := fun hne => absurd (hheld.trans hnone) hne
      whole := fun hl => h.whole ((Client.link_of_fixed hfixed) ▸ hl)
      asked := ?_
      unasked := fun hs hw => ?_ }
  · show w.came = (w.done ++ [f]).flatten ++ (w.c.onCapAnswer W p).rx.drop f.length
    rw [hrx, h.split, List.flatten_append, List.flatten_singleton, List.append_assoc]
    obtain ⟨v, hv⟩ := hfront
    rw [← hv, List.drop_left]
  · show w.taken = (w.done ++ [f]).filter _
    rw [List.filter_append, h.taken, List.filter_singleton, hcap]
    exact (List.append_nil _).symm
  · show (w.done ++ [f]).countP _ + (if (w.c.onCapAnswer W p).awaiting then 1 else 0) = w.made ∨
      (w.made < (w.done ++ [f]).countP _ ∧ (w.c.onCapAnswer W p).status = .failed)
    rw [hcount, hawait, if_neg Bool.false_ne_true]
    by_cases ha : w.c.awaiting = true
    · rcases h.asked with hsum | ⟨hlt, hs⟩
      · rw [ha, if_pos rfl] at hsum
        exact .inl hsum
      · exact .inr ⟨Nat.lt_succ_of_lt hlt, hfailed hs⟩
    · have ha := Bool.eq_false_iff.mpr ha
      exact .inr ⟨hmore ha, hnot ha⟩
  · show w.made < (w.done ++ [f]).countP _
    rw [hcount]
    by_cases ha : w.c.awaiting = true
    · obtain ⟨hs', hw'⟩ := hwhy ha hs hw
      exact Nat.lt_succ_of_lt (h.unasked hs' hw')
    · exact hmore (Bool.eq_false_iff.mpr ha)

/-- **What `recv` does with what came**: the answers to presentations at the front are
handled, and the record found is the next answer; with none found, the next record
is not whole. -/
theorem recvLoop_spec (hframes : ∀ f ∈ frames, IsRecord W f) (h : Kept W frames w)
    (hnone : w.c.held = 0) (hn : w.c.rx.length < n) :
    Kept W frames (w.recvLoop W n).1 ∧ Looks w (w.recvLoop W n).1 ∧
      (∀ f, (w.recvLoop W n).2 = some f →
        isCapAnswer W f = false ∧ (w.recvLoop W n).1.done ++ [f] <+: frames) ∧
      ((w.recvLoop W n).2 = none → (w.recvLoop W n).1.c.status ≠ .failed →
        (w.recvLoop W n).1.Short frames) := by
  induction n generalizing w with
  | zero => exact absurd hn (Nat.not_lt_zero _)
  | succ n ih =>
    obtain ⟨rest, t, hrest, hrx⟩ := h.rest
    unfold World.recvLoop
    cases rest with
    | nil =>
      -- Every record is done with.
      have hnil : w.c.rx = [] := (List.append_eq_nil_iff.mp hrx).1
      have hstop : w.c.recvPass W = (w.c, .stop) := by
        unfold Client.recvPass
        rw [hnil]
      rw [hstop]
      refine ⟨h, .refl w, nofun, fun _ _ f hf => ?_⟩
      rw [List.append_nil] at hrest
      have hlen := hf.length_le
      rw [← hrest, List.length_append, List.length_singleton] at hlen
      exact absurd hlen (Nat.not_succ_le_self _)
    | cons f fs =>
      have hnext : w.done ++ [f] <+: frames := ⟨fs, by rw [List.append_assoc]; exact hrest⟩
      have hf : IsRecord W f := hframes f (hnext.subset (List.mem_append_right _ List.mem_cons_self))
      rcases recvPass_along (u := fs.flatten) hf hrx with ⟨hlt, hstop⟩ | ⟨hfront, hother, hans⟩ |
        ⟨hfront, hcap, p, hp, hhand⟩
      · rw [hstop]
        refine ⟨h, .refl w, nofun, fun _ _ f' hf' => ?_⟩
        obtain ⟨v, hv⟩ := hf'
        rw [← hrest, List.append_assoc, List.append_cancel_left_eq] at hv
        obtain rfl := (List.cons.inj hv).1
        exact hlt
      · rw [hans]
        refine ⟨?_, ⟨⟨_, _, rfl⟩, rfl, id⟩, fun f' hf' => ?_, nofun⟩
        · exact { h with held := fun _ => ⟨f, hnext, hother, rfl, hfront⟩ }
        · obtain rfl := Option.some.inj hf'
          exact ⟨hother, hnext⟩
      · rw [hhand]
        dsimp only
        have hkept := h.handled hnone hcap hnext hfront hp
        obtain ⟨hrx', hheld', hfixed', -, hfailed'⟩ := onCapAnswer_same (W := W) w.c hp
        have hlook : Looks w
            { w with c := (w.c.onCapAnswer W p).consume f.length, done := w.done ++ [f] } :=
          ⟨⟨_, _, rfl⟩, hfixed', hfailed'⟩
        split
        · next hs => exact ⟨hkept, hlook, nofun, fun _ hne => absurd hs hne⟩
        have hpos := List.length_pos_of_ne_nil hf.ne_nil
        have hle := hfront.length_le
        have hlen : ((w.c.onCapAnswer W p).consume f.length).rx.length < n := by
          show ((w.c.onCapAnswer W p).rx.drop f.length).length < n
          rw [hrx', List.length_drop]
          omega
        obtain ⟨hk, hl, hsome, hstop⟩ := ih hkept (hheld'.trans hnone) hlen
        exact ⟨hk, hlook.trans hl, hsome, hstop⟩

/-- See `recvLoop_spec`; an answer that is held is found again. -/
theorem recv_spec (hframes : ∀ f ∈ frames, IsRecord W f) (h : Kept W frames w) :
    Kept W frames (w.recv W).1 ∧ Looks w (w.recv W).1 ∧
      (∀ f, (w.recv W).2 = some f → isCapAnswer W f = false ∧ (w.recv W).1.done ++ [f] <+: frames) ∧
      ((w.recv W).2 = none → (w.recv W).1.c.status ≠ .failed → (w.recv W).1.Short frames) := by
  unfold World.recv
  split
  · next hheld =>
    refine ⟨h, .refl w, fun f hf => ?_, nofun⟩
    obtain ⟨f', hnext, hother, hlen, v, hv⟩ := h.held hheld
    obtain rfl := Option.some.inj hf
    rw [← hlen, ← hv, List.take_left]
    exact ⟨hother, hnext⟩
  · next hheld => exact recvLoop_spec hframes h (not_not.mp hheld) (Nat.lt_succ_self _)

theorem Kept.take (h : Kept W frames w) : Kept W frames w.take := by
  unfold World.take
  split
  · exact h
  next hheld =>
  obtain ⟨f, hnext, hother, hlen, hfront⟩ := h.held hheld
  obtain ⟨v, hv⟩ := hfront
  have htake : w.c.rx.take w.c.held = f := by rw [← hlen, ← hv, List.take_left]
  rw [htake]
  have hcount : (w.done ++ [f]).countP (isCapAnswer W) = w.done.countP (isCapAnswer W) := by
    rw [List.countP_append, List.countP_singleton, hother, if_neg Bool.false_ne_true]
    rfl
  refine
    { along := h.along
      split := ?_
      order := hnext
      taken := ?_
      held := fun hne => absurd rfl hne
      whole := h.whole
      asked := by
        show (w.done ++ [f]).countP _ + _ = _ ∨ (_ < (w.done ++ [f]).countP _ ∧ _)
        rw [hcount]
        exact h.asked
      unasked := fun hs hw => by
        show _ < (w.done ++ [f]).countP _
        rw [hcount]
        exact h.unasked hs hw }
  · show w.came = (w.done ++ [f]).flatten ++ w.c.rx.drop w.c.held
    rw [h.split, List.flatten_append, List.flatten_singleton, List.append_assoc, ← hlen, ← hv,
      List.drop_left]
  · show w.taken ++ [f] = (w.done ++ [f]).filter _
    rw [List.filter_append, h.taken, List.filter_singleton, hother]
    rfl

end Loam.AdminClient

import Loam.BodyFrame

/-!
# Frames are delivered once

Wherever a frame is cut, what an inbox holds of it, what is in the channel and
what the writer owes are, one after another, the frames that are not delivered
yet (`Inbox.Reads`). A write moves bytes from the writer to the channel, and a
read from the channel to the inbox, so every step keeps this, and the frames
delivered are the first of those sent (`FrameWorld.delivered_once`). Nothing
is stuck: from any state on, a channel that takes and gives what there is
brings the rest.
-/

namespace Loam.BodyFrame

open RingBuffer

/-! ## Writing -/

theorem offer_le (ks : List ℕ) (n : ℕ) : (offer ks n).1 ≤ n := by
  induction ks generalizing n with
  | nil => exact Nat.zero_le n
  | cons k ks ih =>
    rw [offer]
    split
    · exact Nat.min_le_right k n
    split
    · exact Nat.zero_le n
    next hn =>
    refine (ih _).trans (Nat.max_le.mpr ⟨Nat.div_le_self n 4, ?_⟩)
    exact Nat.le_of_lt (Nat.not_le.mp hn)

/-- A channel with room takes all that is offered. -/
theorem offer_whole {k n : ℕ} (hn : 0 < n) (hk : n ≤ k) (ks : List ℕ) :
    offer (k :: ks) n = (n, ks) := by
  rw [offer, Nat.min_eq_right hk, if_pos hn]

namespace Sender

variable {s : Sender} {record : Bytes}

/-- **What is offered next is the front of what is owed.** -/
theorem prefix_piece (h : s.Staged record) :
    s.piece record <+: (s.hdr ++ record.take s.len).drop s.sent := by
  unfold piece
  split
  · next hlt =>
    rw [List.drop_append_of_le_length (by rw [h.hdr]; exact Nat.le_of_lt hlt)]
    exact List.prefix_append _ _
  · next hge =>
    have hle : hdrLen ≤ s.sent := Nat.not_lt.mp hge
    rw [← List.drop_take, List.drop_append, h.hdr,
      List.drop_eq_nil_of_le (show s.hdr.length ≤ s.sent from h.hdr ▸ hle), List.nil_append]

theorem length_owed (h : s.Staged record) :
    ((s.hdr ++ record.take s.len).drop s.sent).length = hdrLen + s.len - s.sent := by
  rw [List.length_drop, List.length_append, h.hdr, List.length_take, Nat.min_eq_left h.len]

/-- Something is offered while anything is owed. -/
theorem piece_ne_nil (h : s.Staged record) (hlt : s.sent < hdrLen + s.len) :
    0 < (s.piece record).length := by
  unfold piece
  split
  · next hs =>
    rw [List.length_drop, h.hdr]
    exact Nat.sub_pos_of_lt hs
  · next hs =>
    have hlen := h.len
    rw [List.length_take, List.length_drop]
    omega

/-- Some bytes of the piece offered are taken. -/
theorem advance_staged (h : s.Staged record) {took : ℕ} (ht : took ≤ (s.piece record).length) :
    ({ s with sent := s.sent + took } : Sender).Staged record ∧
      (s.hdr ++ record.take s.len).drop s.sent
        = (s.piece record).take took ++ (s.hdr ++ record.take s.len).drop (s.sent + took) := by
  obtain ⟨t, hpre⟩ := prefix_piece h
  refine ⟨⟨h.hdr, h.len, ?_⟩, ?_⟩
  · have hle := (prefix_piece h).length_le
    rw [length_owed h] at hle
    have hsent := h.sent
    show s.sent + took ≤ hdrLen + s.len
    omega
  · rw [← List.drop_drop, ← hpre, List.drop_append_of_le_length ht, ← List.append_assoc,
      List.take_append_drop]

theorem owes_of_owed (ho : s.owed = true) :
    s.owes record = (s.hdr ++ record.take s.len).drop s.sent := if_pos ho

theorem flushLoop_spec (fuel : ℕ) (ks : List ℕ) (h : s.Staged record) (ho : s.owed = true) :
    s.owes record = (flushLoop record fuel s ks).2 ++ (flushLoop record fuel s ks).1.owes record ∧
      ((flushLoop record fuel s ks).1.owed = true →
        (flushLoop record fuel s ks).1.Staged record) := by
  induction fuel generalizing s ks with
  | zero => exact ⟨rfl, fun _ => h⟩
  | succ fuel ih =>
    rw [flushLoop]
    split
    · next hlt =>
      have hle := offer_le ks (s.piece record).length
      cases hoff : offer ks (s.piece record).length with
      | mk took ks' =>
        rw [hoff] at hle
        dsimp only
        split
        · exact ⟨rfl, fun _ => h⟩
        obtain ⟨hst, hcut⟩ := advance_staged h hle
        obtain ⟨heq, hsound⟩ := @ih { s with sent := s.sent + took } ks' hst ho
        refine ⟨?_, hsound⟩
        have howes : ({ s with sent := s.sent + took } : Sender).owes record
            = (s.hdr ++ record.take s.len).drop (s.sent + took) := owes_of_owed ho
        rw [owes_of_owed ho, hcut, List.append_assoc, ← heq, howes]
    · next hge =>
      have hdone : hdrLen + s.len - s.sent = 0 := Nat.sub_eq_zero_of_le (Nat.not_lt.mp hge)
      refine ⟨?_, fun h => (nomatch h)⟩
      rw [owes_of_owed ho]
      exact List.eq_nil_of_length_eq_zero ((length_owed h).trans hdone)

/-- With room in the channel the loop ends with nothing owed. -/
theorem flushLoop_whole {m : ℕ} (fuel : ℕ) (ks : List ℕ) (h : s.Staged record)
    (hm : hdrLen + s.len ≤ m) (hks : ∀ k ∈ ks, m ≤ k) (hlen : hdrLen + s.len - s.sent ≤ ks.length)
    (hfuel : hdrLen + s.len - s.sent < fuel) :
    (flushLoop record fuel s ks).1.owed = false := by
  induction fuel generalizing s ks with
  | zero => exact absurd hfuel (Nat.not_lt_zero _)
  | succ fuel ih =>
    rw [flushLoop]
    split
    · next hlt =>
      have hpos := piece_ne_nil h hlt
      have hpiece := (prefix_piece h).length_le
      rw [length_owed h] at hpiece
      cases ks with
      | nil => simp only [List.length_nil, Nat.le_zero] at hlen; omega
      | cons k ks =>
        have hk := hks k List.mem_cons_self
        rw [offer_whole hpos (by omega) ks]
        dsimp only
        rw [if_neg (Nat.ne_of_gt hpos)]
        obtain ⟨hst, -⟩ := advance_staged h (Nat.le_refl _)
        rw [List.length_cons] at hlen
        refine @ih { s with sent := s.sent + (s.piece record).length } ks hst hm
          (fun k' hk' => hks k' (List.mem_cons_of_mem _ hk')) ?_ ?_
        · show hdrLen + s.len - (s.sent + (s.piece record).length) ≤ ks.length
          omega
        · show hdrLen + s.len - (s.sent + (s.piece record).length) < fuel
          omega
    · rfl

end Sender

/-! ## A queue of frames -/

section Ring

variable {r : RingBuffer UInt8}

theorem ringFlushLoop_spec (fuel : ℕ) (ks : List ℕ) (h : r.Fits) :
    r.contents = (ringFlushLoop fuel r ks).2 ++ (ringFlushLoop fuel r ks).1.contents ∧
      (ringFlushLoop fuel r ks).1.Fits := by
  induction fuel generalizing r ks with
  | zero => exact ⟨rfl, h⟩
  | succ fuel ih =>
    rw [ringFlushLoop]
    split
    · next h0 =>
      have hnil : r.contents = [] :=
        List.eq_nil_of_length_eq_zero ((length_contents h).trans h0)
      have hnil' : ({ r with head := 0 } : RingBuffer UInt8).contents = [] := by
        rw [contents, h0]
        rfl
      exact ⟨by rw [hnil, hnil']; rfl, Nat.zero_lt_of_lt h.head_lt, h.len_le⟩
    · have hle := offer_le ks r.run
      cases hoff : offer ks r.run with
      | mk took ks' =>
        rw [hoff] at hle
        dsimp only at hle ⊢
        split
        · exact ⟨rfl, h⟩
        obtain ⟨hadv, hfit⟩ := advance_spec h (hle.trans run_le_len)
        obtain ⟨heq, hsound⟩ := @ih (r.advance took) ks' hfit
        refine ⟨?_, hsound⟩
        have hfront : r.front.take took = r.contents.take took := by
          rw [← contents_take_run h, List.take_take, Nat.min_eq_left hle]
        show r.contents = r.front.take took ++ _ ++ _
        rw [List.append_assoc, ← heq, hadv, hfront, List.take_append_drop]

/-- With room in the channel the loop ends with nothing queued. -/
theorem ringFlushLoop_whole {m : ℕ} (fuel : ℕ) (ks : List ℕ) (h : r.Fits) (hm : r.len ≤ m)
    (hks : ∀ k ∈ ks, m ≤ k) (hlen : r.len ≤ ks.length) (hfuel : r.len < fuel) :
    (ringFlushLoop fuel r ks).1.len = 0 := by
  induction fuel generalizing r ks with
  | zero => exact absurd hfuel (Nat.not_lt_zero _)
  | succ fuel ih =>
    rw [ringFlushLoop]
    split
    · next h0 => exact h0
    next h0 =>
    have hpos := run_pos h h0
    have hrun : r.run ≤ r.len := run_le_len
    cases ks with
    | nil => exact absurd (Nat.le_zero.mp hlen) h0
    | cons k ks =>
      have hk := hks k List.mem_cons_self
      rw [offer_whole hpos (hrun.trans (hm.trans hk)) ks]
      dsimp only
      rw [if_neg (Nat.ne_of_gt hpos)]
      obtain ⟨-, hfit⟩ := advance_spec h hrun
      rw [List.length_cons] at hlen
      have hleft : (r.advance r.run).len = r.len - r.run := rfl
      exact @ih (r.advance r.run) ks hfit (by rw [hleft]; omega)
        (fun k' hk' => hks k' (List.mem_cons_of_mem _ hk')) (by rw [hleft]; omega)
        (by rw [hleft]; omega)

end Ring

namespace Writer

variable {w w' : Writer} {f : Frame}

/-- A sender, or a queue of `n + 1` bytes. -/
def new : Option ℕ → Writer
  | none => sender .new []
  | some n => ring (.empty (n + 1) 0)

theorem sound_new (room : Option ℕ) : (new room).Sound ∧ (new room).owes = [] := by
  cases room with
  | none => exact ⟨fun h => (nomatch h), rfl⟩
  | some n => exact ⟨fits_empty (Nat.succ_pos n), rfl⟩

/-- **A flush moves bytes from what is owed to the channel.** -/
theorem Sound.flush (h : w.Sound) (ks : List ℕ) :
    w.owes = (w.flush ks).2 ++ (w.flush ks).1.owes ∧ (w.flush ks).1.Sound := by
  cases w with
  | sender s record =>
    show s.owes record = (s.flush record ks).2 ++ (s.flush record ks).1.owes record ∧
      ((s.flush record ks).1.owed = true → (s.flush record ks).1.Staged record)
    unfold Sender.flush
    split
    · next ho => exact Sender.flushLoop_spec _ ks (h ho) ho
    · exact ⟨rfl, h⟩
  | ring r => exact ringFlushLoop_spec _ ks h

/-- **A frame sent is owed, behind what is.** -/
theorem Sound.send (h : w.Sound) (hs : w.send f = some w') :
    w'.owes = w.owes ++ f.bytes ∧ w'.Sound := by
  cases w with
  | sender s record =>
    rw [Writer.send] at hs
    split at hs
    · cases hs
    next ho =>
    cases hs
    refine ⟨?_, fun _ => ⟨length_header _ _, Nat.le_refl _, Nat.zero_le _⟩⟩
    show header f.cid f.record.length ++ f.record.take f.record.length = s.owes record ++ f.bytes
    rw [List.take_length, Sender.owes, if_neg ho]
    rfl
  | ring r =>
    rw [Writer.send] at hs
    split at hs
    · cases hs
    next hroom =>
    cases hs
    have hfree : hdrLen + f.record.length ≤ r.buf.length - r.len := Nat.not_lt.mp hroom
    have hle := RingBuffer.Fits.len_le h
    have hhdr : (header f.cid f.record.length).length = hdrLen := length_header _ _
    obtain ⟨hc, hf⟩ := put_spec h (header f.cid f.record.length) (by rw [hhdr]; omega)
    have hlen : (r.put (header f.cid f.record.length)).len = r.len + hdrLen := by
      rw [put, hhdr]
    obtain ⟨hc', hf'⟩ := put_spec hf f.record (by
      rw [hlen, length_buf_put]
      omega)
    refine ⟨?_, hf'⟩
    show RingBuffer.contents _ = r.contents ++ (header f.cid f.record.length ++ f.record)
    rw [hc', hc, List.append_assoc]

/-- A channel with room for all of it takes what is owed. -/
theorem Sound.flush_whole (h : w.Sound) : ∃ ks, (w.flush ks).1.owes = [] := by
  cases w with
  | sender s record =>
    refine ⟨List.replicate (hdrLen + s.len) (hdrLen + s.len), ?_⟩
    show (s.flush record _).1.owes record = []
    unfold Sender.flush
    split
    · next ho =>
      refine if_neg (Bool.eq_false_iff.mp ?_)
      exact Sender.flushLoop_whole _ _ (h ho) (Nat.le_refl _)
        (fun k hk => Nat.le_of_eq (List.eq_of_mem_replicate hk).symm)
        (by rw [List.length_replicate]; exact Nat.sub_le _ _) (Nat.lt_succ_self _)
    · next ho => exact if_neg ho
  | ring r =>
    refine ⟨List.replicate r.len r.len, ?_⟩
    have hwhole : (ringFlushLoop (r.len + 1) r (List.replicate r.len r.len)).1.len = 0 :=
      ringFlushLoop_whole _ _ h (Nat.le_refl _)
        (fun k hk => Nat.le_of_eq (List.eq_of_mem_replicate hk).symm)
        (by rw [List.length_replicate]) (Nat.lt_succ_self _)
    show RingBuffer.contents _ = []
    rw [contents, hwhole]
    rfl

end Writer

/-! ## Reading -/

theorem fill_spec (piece : ℕ) (ks : List ℕ) (want : ℕ) (chan : Bytes) :
    (fill piece ks want chan).1 ++ (fill piece ks want chan).2.1 = chan ∧
      (fill piece ks want chan).1.length ≤ want := by
  induction ks generalizing want chan with
  | nil => cases want <;> exact ⟨rfl, Nat.zero_le _⟩
  | cons k ks ih =>
    cases want with
    | zero => exact ⟨rfl, Nat.le_refl _⟩
    | succ want =>
      rw [fill]
      generalize hn : min (min k piece) (min (want + 1) chan.length) = n
      have hle : n ≤ want + 1 ∧ n ≤ chan.length :=
        Nat.le_min.mp (hn ▸ Nat.min_le_right _ _)
      dsimp only
      split
      · exact ⟨rfl, Nat.zero_le _⟩
      obtain ⟨hgot, hlen⟩ := ih (want + 1 - n) (chan.drop n)
      refine ⟨?_, ?_⟩
      · show chan.take n ++ _ ++ _ = chan
        rw [List.append_assoc, hgot, List.take_append_drop]
      · show (chan.take n ++ _).length ≤ want + 1
        rw [List.length_append, List.length_take, Nat.min_eq_left hle.2]
        omega

/-- The channel gives a byte at each read, as long as it has one. -/
structure Flows (ks : List ℕ) (chan : Bytes) : Prop where
  pos : ∀ k ∈ ks, 0 < k
  enough : chan.length ≤ ks.length

/-- A channel that gives what it has fills what is wanted. -/
theorem fill_flows {piece : ℕ} (hp : 0 < piece) {ks : List ℕ} {chan : Bytes} (h : Flows ks chan)
    {want : ℕ} (hw : want ≤ chan.length) :
    (fill piece ks want chan).1.length = want ∧
      Flows (fill piece ks want chan).2.2 (fill piece ks want chan).2.1 := by
  induction ks generalizing want chan with
  | nil =>
    cases want with
    | zero => exact ⟨rfl, h⟩
    | succ want => exact absurd (hw.trans h.enough) (Nat.not_succ_le_zero _)
  | cons k ks ih =>
    cases want with
    | zero => exact ⟨rfl, h⟩
    | succ want =>
      rw [fill]
      have hk := h.pos k List.mem_cons_self
      have hpos : 0 < min (min k piece) (min (want + 1) chan.length) :=
        Nat.lt_min.mpr ⟨Nat.lt_min.mpr ⟨hk, hp⟩,
          Nat.lt_min.mpr ⟨Nat.succ_pos _, Nat.lt_of_lt_of_le (Nat.succ_pos _) hw⟩⟩
      generalize hn : min (min k piece) (min (want + 1) chan.length) = n at hpos
      have hle : n ≤ want + 1 ∧ n ≤ chan.length :=
        Nat.le_min.mp (hn ▸ Nat.min_le_right _ _)
      have hks := h.enough
      rw [List.length_cons] at hks
      dsimp only
      rw [if_neg (Nat.ne_of_gt hpos)]
      have hrest : Flows ks (chan.drop n) :=
        ⟨fun k' hk' => h.pos k' (List.mem_cons_of_mem _ hk'), by rw [List.length_drop]; omega⟩
      obtain ⟨hlen, hflow⟩ := @ih (chan.drop n) hrest (want + 1 - n)
        (by rw [List.length_drop]; omega)
      refine ⟨?_, hflow⟩
      show (chan.take n ++ _).length = want + 1
      rw [List.length_append, List.length_take, Nat.min_eq_left hle.2, hlen]
      omega

theorem leNat_header (f : Frame) :
    leNat ((header f.cid f.record.length).take 4) = cidLen + f.record.length ∧
      UInt32.ofNat (leNat ((header f.cid f.record.length).drop 4)) = f.cid := by
  have hfit := f.fits
  have hlen : ∀ v, (leBytes 4 v).length = 4 := length_leBytes 4
  rw [header, List.take_append_of_le_length (Nat.le_of_eq (hlen _).symm),
    List.drop_append_of_le_length (Nat.le_of_eq (hlen _).symm),
    List.take_of_length_le (Nat.le_of_eq (hlen _)), List.drop_eq_nil_of_le (Nat.le_of_eq (hlen _)),
    List.nil_append, leNat_leBytes, leNat_leBytes (f.cid.toNat_lt)]
  · exact ⟨rfl, UInt32.ofNat_toNat⟩
  · simp only [hdrLen, cidLen] at hfit ⊢
    omega

/-- The first bytes of frames in a row are a header. -/
theorem frames_front {fs : List Frame} {hdr rest : Bytes} (h : hdr ++ rest = frames fs)
    (hlen : hdr.length = hdrLen) :
    ∃ f gs, fs = f :: gs ∧ hdr = header f.cid f.record.length ∧ rest = f.record ++ frames gs := by
  cases fs with
  | nil =>
    have hnil := (List.append_eq_nil_iff.mp h).1
    rw [hnil] at hlen
    cases hlen
  | cons f gs =>
    rw [frames_cons, Frame.bytes, List.append_assoc] at h
    obtain ⟨hh, hr⟩ := List.append_inj h (hlen.trans (length_header _ _).symm)
    exact ⟨f, gs, rfl, hh, hr⟩

namespace Inbox

/-- The frames that are not delivered yet, where `rest` is what will still come:
what the inbox holds of the first, and `rest`. -/
inductive Reads (cap : ℕ) : Inbox → Bytes → List Frame → Prop where
  /-- The rest of an oversize record is discarded. -/
  | skipping {junk : Bytes} {cid : UInt32} {fs : List Frame} :
      Reads cap ⟨[], false, false, 0, junk.length, cid, []⟩ (junk ++ frames fs) fs
  | header {hdr rest : Bytes} {cid : UInt32} {fs : List Frame} : hdr.length < hdrLen →
      hdr ++ rest = frames fs → Reads cap ⟨hdr, false, false, 0, 0, cid, []⟩ rest fs
  | record {f : Frame} {buf rest : Bytes} {fs : List Frame} : f.record.length ≤ cap →
      buf.length < f.record.length → buf ++ rest = f.record ++ frames fs →
      Reads cap ⟨BodyFrame.header f.cid f.record.length, false, false, f.record.length, 0, f.cid,
        buf⟩ rest (f :: fs)
  | ready {f : Frame} {fs : List Frame} : f.record.length ≤ cap →
      Reads cap ⟨BodyFrame.header f.cid f.record.length, true, false, f.record.length, 0, f.cid,
        f.record⟩ (frames fs) (f :: fs)

variable {cap : ℕ} {x : Inbox} {chan later : Bytes} {fs : List Frame}

theorem reads_new : Reads cap {} [] [] := .header (by decide) rfl

/-- What a read towards the next record leads to. -/
inductive Pulled (cap : ℕ) (later : Bytes) (fs : List Frame) : Pull × Inbox × Bytes → Prop where
  | record {x : Inbox} {chan : Bytes} : x.ready = true → x.Reads cap (chan ++ later) fs →
      Pulled cap later fs (.record, x, chan)
  | empty {x : Inbox} {chan : Bytes} : x.Reads cap (chan ++ later) fs →
      Pulled cap later fs (.empty, x, chan)
  | oversize {f : Frame} {gs : List Frame} {x : Inbox} {chan : Bytes} : fs = f :: gs →
      cap < f.record.length → x.Reads cap (chan ++ later) gs →
      Pulled cap later fs (.oversize f.cid, x, chan)

/-- A read ends with a record, or reports one. -/
def Pull.found : Pull → Bool
  | .record => true
  | .oversize _ => true
  | _ => false

theorem pullRecord_spec {f : Frame} {gs : List Frame} (buf : Bytes)
    (hcap : f.record.length ≤ cap) (hbuf : buf.length < f.record.length)
    (h : buf ++ (chan ++ later) = f.record ++ frames gs)
    (ks : List ℕ) :
    Pulled cap later (f :: gs)
        (pullRecord ⟨BodyFrame.header f.cid f.record.length, false, false, f.record.length, 0,
          f.cid, buf⟩ chan ks) ∧
      (later = [] → Flows ks chan → Pull.found
        (pullRecord ⟨BodyFrame.header f.cid f.record.length, false, false, f.record.length, 0,
          f.cid, buf⟩ chan ks).1 = true) := by
  unfold pullRecord
  dsimp only
  obtain ⟨hgot, hlen⟩ := fill_spec f.record.length ks (f.record.length - buf.length) chan
  have hflow : later = [] → Flows ks chan →
      (fill f.record.length ks (f.record.length - buf.length) chan).1.length
        = f.record.length - buf.length := by
    rintro rfl hfl
    refine (fill_flows (Nat.zero_lt_of_lt hbuf) hfl ?_).1
    have := congrArg List.length h
    simp only [List.length_append, List.append_nil] at this
    omega
  generalize fill f.record.length ks (f.record.length - buf.length) chan = out at hgot hlen hflow
  obtain ⟨got, chan', ks'⟩ := out
  dsimp only at hgot hlen hflow ⊢
  subst hgot
  rw [List.append_assoc, ← List.append_assoc buf] at h
  split
  · next hlt =>
    refine ⟨.empty (.record hcap hlt h), fun hl hfl => ?_⟩
    rw [List.length_append, hflow hl hfl] at hlt
    omega
  next hge =>
  rw [List.length_append] at hge
  obtain ⟨hrec, hrest⟩ := List.append_inj h (by rw [List.length_append]; omega)
  refine ⟨.record rfl ?_, fun _ _ => rfl⟩
  rw [hrec, hrest]
  exact .ready hcap

theorem pullHeader_spec (cap : ℕ) (hdr : Bytes) (cid : UInt32) (hhdr : hdr.length < hdrLen)
    (h : hdr ++ (chan ++ later) = frames fs) (ks : List ℕ) :
    Pulled cap later fs (pullHeader cap ⟨hdr, false, false, 0, 0, cid, []⟩ chan ks) ∧
      (later = [] → fs ≠ [] → Flows ks chan →
        Pull.found (pullHeader cap ⟨hdr, false, false, 0, 0, cid, []⟩ chan ks).1 = true) := by
  unfold pullHeader
  dsimp only
  obtain ⟨hgot, hlen⟩ := fill_spec hdrLen ks (hdrLen - hdr.length) chan
  have hflow : later = [] → fs ≠ [] → Flows ks chan →
      (fill hdrLen ks (hdrLen - hdr.length) chan).1.length = hdrLen - hdr.length ∧
        Flows (fill hdrLen ks (hdrLen - hdr.length) chan).2.2
          (fill hdrLen ks (hdrLen - hdr.length) chan).2.1 := by
    rintro rfl hne hfl
    refine fill_flows (by decide) hfl ?_
    obtain ⟨f, gs, rfl⟩ := List.exists_cons_of_ne_nil hne
    have := congrArg List.length h
    simp only [frames_cons, Frame.bytes, List.length_append, length_header, List.append_nil] at this
    omega
  generalize fill hdrLen ks (hdrLen - hdr.length) chan = out at hgot hlen hflow
  obtain ⟨got, chan', ks'⟩ := out
  dsimp only at hgot hlen hflow ⊢
  subst hgot
  rw [List.append_assoc, ← List.append_assoc hdr] at h
  split
  · next hlt =>
    refine ⟨.empty (.header hlt h), fun hl hne hfl => ?_⟩
    rw [List.length_append, (hflow hl hne hfl).1] at hlt
    omega
  next hge =>
  rw [List.length_append] at hge
  obtain ⟨f, gs, rfl, hh, hrest⟩ :=
    frames_front h (by rw [List.length_append]; omega)
  obtain ⟨hlenf, hcidf⟩ := leNat_header f
  rw [if_pos ⟨rfl, rfl⟩, hh, hlenf, hcidf, if_neg (Nat.not_lt.mpr (Nat.le_add_right _ _)),
    Nat.add_sub_cancel_left]
  split
  · next hbig =>
    refine ⟨.oversize rfl hbig ?_, fun _ _ _ => rfl⟩
    rw [hrest]
    exact .skipping
  next hfit =>
  have hcap : f.record.length ≤ cap := Nat.not_lt.mp hfit
  split
  · next hzero =>
    have hnil : f.record = [] := List.eq_nil_of_length_eq_zero hzero
    refine ⟨.record rfl ?_, fun _ _ _ => rfl⟩
    rw [hnil, List.nil_append] at hrest
    rw [hrest]
    have hready : Reads cap ⟨BodyFrame.header f.cid f.record.length, true, false,
      f.record.length, 0, f.cid, f.record⟩ (frames gs) (f :: gs) := .ready hcap
    rw [hnil] at hready ⊢
    exact hready
  · next hpos =>
    obtain ⟨hp, hfound⟩ := pullRecord_spec [] hcap (Nat.pos_of_ne_zero hpos)
      hrest ks'
    exact ⟨hp, fun hl hne hfl => hfound hl (hflow hl hne hfl).2⟩

theorem fill_zero (piece : ℕ) (ks : List ℕ) (chan : Bytes) :
    fill piece ks 0 chan = ([], chan, ks) := by
  cases ks <;> rfl

/-- With nothing to discard, a read goes on with the header. -/
theorem pull_of_skip_zero (hb : x.broken = false) (hr : x.ready = false) (hs : x.skip = 0)
    (ks : List ℕ) : x.pull cap chan ks = x.pullHeader cap chan ks := by
  obtain ⟨hdr, ready, broken, need, skip, cid, buf⟩ := x
  cases hb
  cases hr
  cases hs
  rw [pull, if_neg Bool.false_ne_true, if_neg Bool.false_ne_true, fill_zero]
  rfl

/-- **A read towards the next record** leaves the frames that are not delivered as
they were, but for one it reports; and if all of them are in the channel and it
gives what it has, it finds the next. -/
theorem Reads.pull {rest : Bytes} (h : x.Reads cap rest fs) (later : Bytes)
    (hrest : rest = chan ++ later) (ks : List ℕ) :
    Pulled cap later fs (x.pull cap chan ks) ∧
      (later = [] → fs ≠ [] → Flows ks chan → Pull.found (x.pull cap chan ks).1 = true) := by
  cases h with
  | ready hcap =>
    refine ⟨.record rfl ?_, fun _ _ _ => rfl⟩
    rw [← hrest]
    exact .ready hcap
  | header hhdr hf =>
    rw [pull_of_skip_zero rfl rfl rfl]
    exact pullHeader_spec _ _ _ hhdr (hrest ▸ hf) ks
  | @record f buf _ gs hcap hbuf hf =>
    rw [pull_of_skip_zero rfl rfl rfl]
    have hfull : pullHeader cap ⟨BodyFrame.header f.cid f.record.length, false, false,
          f.record.length, 0, f.cid, buf⟩ chan ks
        = pullRecord ⟨BodyFrame.header f.cid f.record.length, false, false,
          f.record.length, 0, f.cid, buf⟩ chan ks := by
      have hne : f.record.length ≠ 0 := Nat.ne_of_gt (Nat.zero_lt_of_lt hbuf)
      rw [pullHeader]
      dsimp only
      rw [length_header, Nat.sub_self, fill_zero]
      dsimp only
      rw [List.append_nil, length_header, if_neg (Nat.lt_irrefl _), if_neg fun h => hne h.1]
    rw [hfull]
    obtain ⟨hp, hfound⟩ := pullRecord_spec buf hcap hbuf (hrest ▸ hf) ks
    exact ⟨hp, fun hl _ hfl => hfound hl hfl⟩
  | @skipping junk cid fs =>
    rw [Inbox.pull, if_neg Bool.false_ne_true, if_neg Bool.false_ne_true]
    dsimp only
    obtain ⟨hgot, hlen⟩ := fill_spec 256 ks junk.length chan
    have hflow : later = [] → Flows ks chan →
        (fill 256 ks junk.length chan).1.length = junk.length ∧
          Flows (fill 256 ks junk.length chan).2.2 (fill 256 ks junk.length chan).2.1 := by
      rintro rfl hfl
      refine fill_flows (by decide) hfl ?_
      have := congrArg List.length hrest
      simp only [List.length_append, List.append_nil] at this
      omega
    generalize fill 256 ks junk.length chan = out at hgot hlen hflow
    obtain ⟨got, chan', ks'⟩ := out
    dsimp only at hgot hlen hflow ⊢
    subst hgot
    -- what was read is the front of what is to be discarded
    have hcut : junk.take got.length ++ (junk.drop got.length ++ frames fs)
        = got ++ (chan' ++ later) := by
      rw [← List.append_assoc, List.take_append_drop, hrest, List.append_assoc]
    obtain ⟨-, hleft⟩ := List.append_inj hcut
      (by rw [List.length_take]; exact Nat.min_eq_left hlen)
    split
    · next hmore =>
      refine ⟨.empty ?_, fun hl _ hfl => absurd (hflow hl hfl).1 fun he => hmore ?_⟩
      · rw [← hleft, ← List.length_drop]
        exact .skipping
      · rw [he, Nat.sub_self]
    · next hnone =>
      have hall : junk.length - got.length = 0 := not_not.mp hnone
      have hnil : junk.drop got.length = [] :=
        List.eq_nil_of_length_eq_zero ((List.length_drop).trans hall)
      rw [hnil, List.nil_append] at hleft
      rw [hall]
      obtain ⟨hp, hfound⟩ := pullHeader_spec cap [] cid (by decide) hleft.symm ks'
      exact ⟨hp, fun hl hne hfl => hfound hl hne (hflow hl hfl).2⟩

/-- **A record that is held is the next**, and taking it leaves the others. -/
theorem Reads.take {rest : Bytes} (h : x.Reads cap rest fs) (hr : x.ready = true) :
    ∃ f gs, fs = f :: gs ∧ f.delivery cap = .record x.cid x.buf ∧ x.take.Reads cap rest gs := by
  cases h with
  | skipping | header | record => cases hr
  | @ready f gs hcap =>
    exact ⟨f, gs, rfl, if_neg (Nat.not_lt.mpr hcap), .header (by decide) rfl⟩

/-- More frames behind those on their way. -/
theorem Reads.append {rest : Bytes} (h : x.Reads cap rest fs) (gs : List Frame) :
    x.Reads cap (rest ++ frames gs) (fs ++ gs) := by
  cases h with
  | skipping =>
    rw [List.append_assoc, ← frames_append]
    exact .skipping
  | header hlen hf =>
    refine .header hlen ?_
    rw [← List.append_assoc, hf, frames_append]
  | record hcap hlen hf =>
    refine .record hcap hlen ?_
    rw [← List.append_assoc, hf, List.append_assoc, ← frames_append]
    rfl
  | ready hcap =>
    rw [← frames_append]
    exact .ready hcap

/-- With no frame on its way, a read empties the channel. -/
theorem Reads.pull_nil (h : x.Reads cap chan []) {ks : List ℕ} (hfl : Flows ks chan) :
    ∃ y : Inbox, x.pull cap chan ks = (.empty, y, []) ∧ y.busy = false := by
  generalize hfs : ([] : List Frame) = fs at h
  -- a header that has not begun is all there is left
  have hdone : ∀ (cid : UInt32) (ks : List ℕ),
      pullHeader cap ⟨[], false, false, 0, 0, cid, []⟩ [] ks
        = (.empty, ⟨[], false, false, 0, 0, cid, []⟩, []) := by
    intro cid ks
    obtain ⟨hgot, -⟩ := fill_spec hdrLen ks hdrLen []
    rw [pullHeader]
    dsimp only
    rw [List.length_nil, Nat.sub_zero]
    generalize fill hdrLen ks hdrLen [] = out at hgot
    obtain ⟨got, chan, ks'⟩ := out
    obtain ⟨rfl, rfl⟩ := List.append_eq_nil_iff.mp hgot
    rfl
  cases h with
  | record | ready => cases hfs
  | @header hdr _ cid _ hlen hf =>
    subst hfs
    obtain ⟨rfl, rfl⟩ := List.append_eq_nil_iff.mp hf
    rw [pull_of_skip_zero rfl rfl rfl, hdone]
    exact ⟨_, rfl, rfl⟩
  | @skipping junk cid _ =>
    subst hfs
    rw [frames_nil, List.append_nil] at hfl ⊢
    obtain ⟨hgot, -⟩ := fill_spec 256 ks junk.length junk
    obtain ⟨hlen, -⟩ := fill_flows (show 0 < 256 by decide) hfl (Nat.le_refl _)
    rw [Inbox.pull, if_neg Bool.false_ne_true, if_neg Bool.false_ne_true]
    dsimp only
    generalize fill 256 ks junk.length junk = out at hgot hlen
    obtain ⟨got, chan, ks'⟩ := out
    dsimp only at hgot hlen ⊢
    have hnil : chan = [] := by
      have := congrArg List.length hgot
      rw [List.length_append, hlen] at this
      exact List.eq_nil_of_length_eq_zero (by omega)
    rw [hnil, hlen, Nat.sub_self, if_neg (not_not.mpr rfl), hdone]
    exact ⟨_, rfl, rfl⟩

theorem Reads.not_broken {rest : Bytes} (h : x.Reads cap rest fs) : x.broken = false := by
  cases h <;> rfl

/-- With no frame in hand and none to come, all are delivered. -/
theorem Reads.eq_nil (h : x.Reads cap [] fs) (hb : x.busy = false) : fs = [] := by
  simp only [busy, Bool.or_eq_false_iff, Bool.not_eq_false', List.isEmpty_iff,
    decide_eq_false_iff_not, not_not] at hb
  obtain ⟨⟨hready, hhdr⟩, -⟩ := hb
  have hfront : ∀ {gs : List Frame}, frames gs = [] → gs = [] := by
    intro gs hgs
    cases gs with
    | nil => rfl
    | cons f gs =>
      have := congrArg List.length hgs
      simp [Frame.bytes, hdrLen] at this
  generalize hrest : ([] : Bytes) = rest at h
  cases h with
  | skipping => exact hfront (List.append_eq_nil_iff.mp hrest.symm).2
  | header _ hf =>
    subst hrest
    rw [List.append_nil] at hf
    exact hfront (hf.symm.trans hhdr)
  | record =>
    have := congrArg List.length hhdr
    rw [length_header] at this
    cases this
  | ready => cases hready

end Inbox

/-! ## Runs -/

/-- The event sends no frame. -/
def FrameEvent.keeps : FrameEvent → Bool
  | .send _ => false
  | _ => true

namespace FrameWorld

variable {cap : ℕ} {w : FrameWorld}

/-- What every state of a run satisfies. -/
structure Inv (cap : ℕ) (w : FrameWorld) : Prop where
  writer : w.writer.Sound
  /-- The frames are those delivered and those on their way. -/
  reads : ∃ fs, w.inbox.Reads cap (w.channel ++ w.writer.owes) fs ∧
    w.log ++ fs.map (Frame.delivery cap) = w.sent.map (Frame.delivery cap)

theorem inv_init (room : Option ℕ) : (init (.new room)).Inv cap := by
  obtain ⟨hs, ho⟩ := Writer.sound_new room
  refine ⟨hs, [], ?_, rfl⟩
  show Inbox.Reads cap {} ([] ++ (Writer.new room).owes) []
  rw [ho]
  exact Inbox.reads_new

/-- **Every step keeps the frames on their way.** -/
theorem Inv.step (h : w.Inv cap) (e : FrameEvent) : (w.step cap e).Inv cap := by
  obtain ⟨fs, hreads, hlog⟩ := h.reads
  cases e with
  | send f =>
    unfold FrameWorld.step
    dsimp only
    cases hs : w.writer.send f with
    | none => exact h
    | some writer =>
      obtain ⟨howes, hsound⟩ := h.writer.send hs
      refine ⟨hsound, fs ++ [f], ?_, ?_⟩
      · show w.inbox.Reads cap (w.channel ++ writer.owes) (fs ++ [f])
        have hone : frames [f] = f.bytes := List.append_nil _
        rw [howes, ← List.append_assoc, ← hone]
        exact hreads.append [f]
      · show w.log ++ (fs ++ [f]).map _ = (w.sent ++ [f]).map _
        rw [List.map_append, List.map_append, ← List.append_assoc, hlog]
  | flush ks =>
    obtain ⟨howes, hsound⟩ := h.writer.flush ks
    refine ⟨hsound, fs, ?_, hlog⟩
    show w.inbox.Reads cap (w.channel ++ (w.writer.flush ks).2 ++ (w.writer.flush ks).1.owes) fs
    rw [List.append_assoc, ← howes]
    exact hreads
  | pull ks =>
    obtain ⟨hp, -⟩ := hreads.pull _ rfl ks
    unfold FrameWorld.step
    dsimp only
    generalize w.inbox.pull cap w.channel ks = out at hp
    cases hp with
    | record _ hr => exact ⟨h.writer, fs, hr, hlog⟩
    | empty hr => exact ⟨h.writer, fs, hr, hlog⟩
    | @oversize f gs _ _ he hbig hr =>
      refine ⟨h.writer, gs, hr, ?_⟩
      have hdel : f.delivery cap = .oversize f.cid := if_pos hbig
      show w.log ++ [.oversize f.cid] ++ gs.map _ = _
      rw [← hlog, he, List.map_cons, hdel, List.append_assoc]
      rfl
  | take =>
    unfold FrameWorld.step
    dsimp only
    split
    · next hr =>
      obtain ⟨f, gs, he, hdel, hrest⟩ := hreads.take hr
      refine ⟨h.writer, gs, hrest, ?_⟩
      show w.log ++ [.record w.inbox.cid w.inbox.buf] ++ gs.map _ = _
      rw [← hlog, he, List.map_cons, hdel, List.append_assoc]
      rfl
    · exact h

/-- A run of events. -/
def run (cap : ℕ) (w : FrameWorld) (es : List FrameEvent) : FrameWorld := Run.run (step cap) w es

theorem Inv.run (h : w.Inv cap) (es : List FrameEvent) : (w.run cap es).Inv cap := by
  have hstep : ∀ w e, Inv cap w → Inv cap (FrameWorld.step cap w e) := fun _ e hw => hw.step e
  exact Run.invariant_all hstep h es

theorem run_append (es es' : List FrameEvent) :
    w.run cap (es ++ es') = (w.run cap es).run cap es' := Run.run_append

/-! ## Nothing is stuck -/

theorem sent_step {e : FrameEvent} (h : e.keeps = true) : (w.step cap e).sent = w.sent := by
  cases e with
  | send f => cases h
  | flush | pull => rfl
  | take =>
    unfold FrameWorld.step
    dsimp only
    split <;> rfl

theorem sent_run {es : List FrameEvent} (h : ∀ e ∈ es, e.keeps = true) :
    (w.run cap es).sent = w.sent := by
  induction es generalizing w with
  | nil => rfl
  | cons e es ih =>
    show ((w.step cap e).run cap es).sent = w.sent
    rw [ih fun e' he' => h e' (List.mem_cons_of_mem _ he'), sent_step (h e List.mem_cons_self)]

/-- A list of reads that gives what is there. -/
theorem flows_replicate (chan : Bytes) : Flows (List.replicate chan.length 1) chan :=
  ⟨fun _ hk => Nat.lt_of_lt_of_eq Nat.one_pos (List.eq_of_mem_replicate hk).symm,
    Nat.le_of_eq List.length_replicate.symm⟩

theorem step_pull {ks : List ℕ} {found : Pull} {x : Inbox} {chan : Bytes}
    (h : w.inbox.pull cap w.channel ks = (found, x, chan)) :
    (w.step cap (.pull ks)).writer = w.writer ∧ (w.step cap (.pull ks)).inbox = x ∧
      (w.step cap (.pull ks)).channel = chan := by
  have hstep : (w.step cap (.pull ks)).inbox = (w.inbox.pull cap w.channel ks).2.1 ∧
      (w.step cap (.pull ks)).channel = (w.inbox.pull cap w.channel ks).2.2 := ⟨rfl, rfl⟩
  rw [h] at hstep
  exact ⟨rfl, hstep⟩

theorem step_take (cap : ℕ) (h : w.inbox.ready = true) :
    (w.step cap .take).writer = w.writer ∧ (w.step cap .take).inbox = w.inbox.take ∧
      (w.step cap .take).channel = w.channel := by
  have hstep : w.step cap .take = { w with
      inbox := w.inbox.take
      log := w.log ++ [.record w.inbox.cid w.inbox.buf] } := if_pos h
  rw [hstep]
  exact ⟨rfl, rfl, rfl⟩

/-- **A read, and the taking of what it found, bring the next frame.** -/
theorem drain_one {f : Frame} {gs : List Frame} (hr : w.inbox.Reads cap w.channel (f :: gs)) :
    ∃ es : List FrameEvent, (∀ e ∈ es, e.keeps = true) ∧ (w.run cap es).writer = w.writer ∧
      (w.run cap es).inbox.Reads cap (w.run cap es).channel gs := by
  obtain ⟨hp, hfound⟩ := hr.pull [] (List.append_nil _).symm
    (List.replicate w.channel.length 1)
  have hfound := hfound rfl (List.cons_ne_nil f gs) (flows_replicate w.channel)
  generalize hks : List.replicate w.channel.length 1 = ks at hp hfound
  generalize hout : w.inbox.pull cap w.channel ks = out at hp hfound
  cases hp with
  | empty => cases hfound
  | @oversize f' gs' x chan he hbig hr' =>
    cases he
    obtain ⟨hw, hx, hc⟩ := step_pull hout
    refine ⟨[.pull ks], fun e he => List.mem_singleton.mp he ▸ rfl, hw, ?_⟩
    show (w.step cap (.pull ks)).inbox.Reads cap (w.step cap (.pull ks)).channel gs
    rw [hx, hc, ← List.append_nil chan]
    exact hr'
  | @record x chan hready hr' =>
    obtain ⟨hw, hx, hc⟩ := step_pull hout
    obtain ⟨f', gs', he, -, hrest⟩ := hr'.take hready
    cases he
    have hheld : (w.step cap (.pull ks)).inbox.ready = true := by
      rw [hx]
      exact hready
    obtain ⟨hw', hx', hc'⟩ := step_take cap hheld
    refine ⟨[.pull ks, .take], ?_, hw'.trans hw, ?_⟩
    · intro e he
      rcases List.mem_cons.mp he with rfl | he
      · rfl
      · exact List.mem_singleton.mp he ▸ rfl
    · show ((w.step cap (.pull ks)).step cap .take).inbox.Reads cap
        ((w.step cap (.pull ks)).step cap .take).channel gs
      rw [hx', hc', hx, hc, ← List.append_nil chan]
      exact hrest

/-- **The frames in the channel are read one by one.** -/
theorem drain (fs : List Frame) (hr : w.inbox.Reads cap w.channel fs) :
    ∃ es : List FrameEvent, (∀ e ∈ es, e.keeps = true) ∧ (w.run cap es).writer = w.writer ∧
      (w.run cap es).channel = [] ∧ (w.run cap es).inbox.busy = false := by
  induction fs generalizing w with
  | nil =>
    obtain ⟨y, hp, hb⟩ := hr.pull_nil (flows_replicate w.channel)
    obtain ⟨hw, hx, hc⟩ := step_pull hp
    exact ⟨[.pull (List.replicate w.channel.length 1)],
      fun e he => List.mem_singleton.mp he ▸ rfl, hw, hc, (congrArg Inbox.busy hx).trans hb⟩
  | cons f gs ih =>
    obtain ⟨es₁, hk₁, hw₁, hr₁⟩ := drain_one hr
    obtain ⟨es₂, hk₂, hw₂, hc₂, hb₂⟩ := ih hr₁
    refine ⟨es₁ ++ es₂, fun e he => (List.mem_append.mp he).elim (hk₁ e) (hk₂ e), ?_⟩
    rw [run_append]
    exact ⟨hw₂.trans hw₁, hc₂, hb₂⟩

/-- From any state on, a channel that takes and gives what there is brings what
is on its way. -/
theorem Inv.completes (h : w.Inv cap) :
    ∃ es : List FrameEvent, (∀ e ∈ es, e.keeps = true) ∧ (w.run cap es).Quiet := by
  obtain ⟨ks, hks⟩ := h.writer.flush_whole
  obtain ⟨fs, hr, -⟩ := (h.step (.flush ks)).reads
  have howes : (w.step cap (.flush ks)).writer.owes = [] := hks
  rw [howes, List.append_nil] at hr
  obtain ⟨es, hk, hw, hc, hb⟩ := drain fs hr
  refine ⟨.flush ks :: es, ?_, ?_⟩
  · intro e he
    rcases List.mem_cons.mp he with rfl | he
    · rfl
    · exact hk e he
  · show ((w.step cap (.flush ks)).run cap es).Quiet
    exact ⟨(congrArg Writer.owes hw).trans howes, hc, hb⟩

/-- **Frames are delivered exactly once, in order.** However the channel cuts
them, what the reader has been told is of the first frames sent, each once:
its record under its id, or, where there is no room for it, its id alone. When
nothing is under way it is of all of them; the inbox is never lost in the
stream; and from any state on, reads and writes that are given what there is
come to where nothing is. -/
theorem delivered_once (cap : ℕ) (room : Option ℕ) (es : List FrameEvent) :
    ((init (.new room)).run cap es).log
        <+: ((init (.new room)).run cap es).sent.map (Frame.delivery cap) ∧
      (((init (.new room)).run cap es).Quiet → ((init (.new room)).run cap es).log
        = ((init (.new room)).run cap es).sent.map (Frame.delivery cap)) ∧
      ((init (.new room)).run cap es).inbox.broken = false ∧
      ∃ es' : List FrameEvent, (∀ e ∈ es', e.keeps = true) ∧
        (((init (.new room)).run cap es).run cap es').Quiet ∧
        (((init (.new room)).run cap es).run cap es').log
          = ((init (.new room)).run cap es).sent.map (Frame.delivery cap) := by
  have hinv : ((init (.new room)).run cap es).Inv cap := (inv_init room).run es
  generalize (init (.new room)).run cap es = w at hinv ⊢
  have hquiet : ∀ {w : FrameWorld}, w.Inv cap → w.Quiet →
      w.log = w.sent.map (Frame.delivery cap) := by
    rintro w hw ⟨ho, hc, hb⟩
    obtain ⟨fs, hr, hlog⟩ := hw.reads
    rw [ho, hc] at hr
    rw [← hlog, hr.eq_nil hb]
    exact (List.append_nil _).symm
  obtain ⟨fs, hr, hlog⟩ := hinv.reads
  obtain ⟨es', hk, hq⟩ := hinv.completes
  refine ⟨hlog ▸ List.prefix_append _ _, hquiet hinv, hr.not_broken, es', hk, hq, ?_⟩
  rw [hquiet (hinv.run es') hq, sent_run hk]

end FrameWorld

end Loam.BodyFrame

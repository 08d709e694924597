import Loam.Changes
import Mathlib.Algebra.Order.BigOperators.Group.List

/-!
# What a page of changes holds

The window of a delta page is cut where its records fill the caller's buffer: the window grows
with its cut, so the bisection ends at the highest cut that fits (`Arena.cutLoop_spec`). A page
that is answered is then the window to its cut, every slot of it and none past it, and its token
begins the next window there (`Arena.deltaPage_eq_ok`).
-/

namespace Loam

theorem underPrefix_iff {key front : Bytes} : underPrefix key front = true ↔ front <+: key := by
  unfold underPrefix
  rw [Bool.or_eq_true, Bool.and_eq_true, decide_eq_true_eq, beq_iff_eq, List.isEmpty_iff]
  constructor
  · rintro (rfl | ⟨-, h⟩)
    · exact List.nil_prefix
    · exact h ▸ List.take_prefix _ _
  · exact fun h => .inr ⟨h.length_le, List.prefix_iff_eq_take.mp h |>.symm⟩

/-- What an answer that was made was made of. -/
theorem eq_some_of_elim {ε α : Type} {o : Option α} {e : ε} {p : α}
    (h : o.elim (Except.error e) Except.ok = Except.ok p) : o = some p := by
  cases o with
  | none => cases h
  | some q =>
    cases h
    rfl

namespace Arena

variable {L : Limits} {a : Arena L} {wire : ChangesWire} {pre : Bytes} {since cut cut' : UInt64}
  {s : BindingSlot} {out budget n : ℕ}

/-! ## The window -/

theorem inWindow_iff : inWindow s pre since cut = true ↔
    s.path ≠ [] ∧ s.root = [] ∧ since < s.changeRev ∧ s.changeRev ≤ cut ∧ pre <+: s.path := by
  simp only [inWindow, Bool.and_eq_true, decide_eq_true_eq, underPrefix_iff, ne_eq,
    List.length_eq_zero_iff]
  tauto

theorem mem_window : s ∈ a.window pre since cut ↔ (∃ i, (s, i) ∈ a.occupied) ∧ s.path ≠ [] ∧
    s.root = [] ∧ since < s.changeRev ∧ s.changeRev ≤ cut ∧ pre <+: s.path := by
  rw [window, List.mem_filter, inWindow_iff, List.mem_map]
  refine and_congr_left fun _ => ⟨?_, ?_⟩
  · rintro ⟨⟨s, i⟩, h, rfl⟩
    exact ⟨i, h⟩
  · rintro ⟨i, h⟩
    exact ⟨(s, i), h, rfl⟩

/-- The window to a revision it begins at is empty. -/
theorem window_self : a.window pre since since = [] := by
  refine List.eq_nil_iff_forall_not_mem.mpr fun s hs => ?_
  obtain ⟨-, -, -, hlt, hle, -⟩ := mem_window.mp hs
  exact UInt64.not_lt.mpr hle hlt

/-- **The window grows with its ends.** -/
theorem window_sublist {since' : UInt64} (h' : since' ≤ since) (h : cut ≤ cut') :
    (a.window pre since cut).Sublist (a.window pre since' cut') := by
  refine List.monotone_filter_right _ fun s hs => ?_
  obtain ⟨hp, hr, hlt, hle, hu⟩ := inWindow_iff.mp hs
  exact inWindow_iff.mpr ⟨hp, hr, UInt64.lt_of_le_of_lt h' hlt, UInt64.le_trans hle h, hu⟩

/-! ## Its bytes -/

/-- The bytes of the window's records. -/
def recordBytes (wire : ChangesWire) (a : Arena L) (pre : Bytes) (since cut : UInt64) : ℕ :=
  (((a.window pre since cut).map changeRec).map wire.recordLen).sum

/-- A record can name every key of the window. -/
def Names (a : Arena L) (pre : Bytes) (since cut : UInt64) : Prop :=
  ∀ s ∈ a.window pre since cut, s.path.length ≤ storageKeyMax

theorem Names.mono (h : a.Names pre since cut') (hle : cut ≤ cut') : a.Names pre since cut :=
  fun s hs => h s ((window_sublist (UInt64.le_refl _) hle).subset hs)

theorem windowBytes_eq_ok :
    a.windowBytes wire pre since cut = .ok n ↔
      a.Names pre since cut ∧ n = a.recordBytes wire pre since cut := by
  have hloop : ∀ (l : List BindingSlot) (m : ℕ), l.foldlM (fun n s =>
      if storageKeyMax < s.path.length then Except.error ChangesErr.overflow
      else .ok (n + (wire.recordFixedLen + s.path.length + (changeValue s).length))) m = .ok n ↔
        (∀ s ∈ l, s.path.length ≤ storageKeyMax) ∧
          n = m + ((l.map changeRec).map wire.recordLen).sum := by
    intro l
    induction l with
    | nil => simp [pure, Except.pure, eq_comm]
    | cons s l ih =>
      intro m
      rw [List.foldlM_cons]
      split
      · next hlong =>
        refine iff_of_false (fun h => by cases h) fun h => ?_
        exact absurd (h.1 s List.mem_cons_self) (Nat.not_le.mpr hlong)
      · next hshort =>
        refine (ih (m + wire.recordLen (changeRec s))).trans ?_
        simp only [List.map_cons, List.sum_cons, List.forall_mem_cons, Nat.not_lt.mp hshort,
          true_and, Nat.add_assoc]
  rw [windowBytes, hloop, Nat.zero_add]
  rfl

theorem windowBytes_of_names (h : a.Names pre since cut) :
    a.windowBytes wire pre since cut = .ok (a.recordBytes wire pre since cut) :=
  windowBytes_eq_ok.mpr ⟨h, rfl⟩

theorem recordBytes_self : a.recordBytes wire pre since since = 0 := by
  rw [recordBytes, window_self]
  rfl

theorem recordBytes_mono (h : cut ≤ cut') :
    a.recordBytes wire pre since cut ≤ a.recordBytes wire pre since cut' :=
  (((window_sublist (UInt64.le_refl _) h).map changeRec).map wire.recordLen).sum_le_sum
    fun _ _ => Nat.zero_le _

/-! ## The cut -/

/-- The middle of two revisions that have one between them. -/
theorem mid_spec {lo hi : UInt64} (hlt : lo < hi) (hgap : 1 < hi - lo) :
    lo < lo + (hi - lo) / 2 ∧ lo + (hi - lo) / 2 < hi := by
  have hsub := UInt64.toNat_sub_of_le hi lo (UInt64.le_of_lt hlt)
  have hdiv : ((hi - lo) / 2).toNat = (hi - lo).toNat / 2 := UInt64.toNat_div _ _
  have hbound := hi.toNat_lt
  rw [UInt64.lt_iff_toNat_lt] at hlt hgap
  have hone : (1 : UInt64).toNat = 1 := rfl
  have hmid : (lo + (hi - lo) / 2).toNat = lo.toNat + (hi.toNat - lo.toNat) / 2 := by
    rw [UInt64.toNat_add, hdiv, hsub, Nat.mod_eq_of_lt (by omega)]
  rw [UInt64.lt_iff_toNat_lt, UInt64.lt_iff_toNat_lt, hmid]
  omega

/-- **The bisection ends at the highest cut that fits.** -/
theorem cutLoop_spec {head : UInt64} (hnames : a.Names pre since head) {lo hi : UInt64}
    (hlt : lo < hi) (hhead : hi ≤ head) (hlo : a.recordBytes wire pre since lo ≤ budget)
    (hhi : budget < a.recordBytes wire pre since hi) {fuel : ℕ} (hf : (hi - lo).toNat ≤ fuel) :
    ∃ cut, a.cutLoop wire pre since budget fuel lo hi = .ok cut ∧ lo ≤ cut ∧ cut < hi ∧
      a.recordBytes wire pre since cut ≤ budget ∧
      ∀ c, cut < c → budget < a.recordBytes wire pre since c := by
  induction fuel generalizing lo hi with
  | zero =>
    have hsub := UInt64.toNat_sub_of_le hi lo (UInt64.le_of_lt hlt)
    rw [UInt64.lt_iff_toNat_lt] at hlt
    omega
  | succ fuel ih =>
    have hsub := UInt64.toNat_sub_of_le hi lo (UInt64.le_of_lt hlt)
    rw [cutLoop]
    split
    · next hgap =>
      obtain ⟨hmid, hmid'⟩ := mid_spec hlt hgap
      dsimp only
      generalize lo + (hi - lo) / 2 = mid at hmid hmid' ⊢
      have hdown := UInt64.toNat_sub_of_le hi mid (UInt64.le_of_lt hmid')
      have hup := UInt64.toNat_sub_of_le mid lo (UInt64.le_of_lt hmid)
      have hmn := UInt64.lt_iff_toNat_lt.mp hmid
      have hmn' := UInt64.lt_iff_toNat_lt.mp hmid'
      have hle := UInt64.le_trans (UInt64.le_of_lt hmid') hhead
      rw [windowBytes_of_names (hnames.mono hle)]
      dsimp only
      split
      · next hfits =>
        obtain ⟨cut, hcut, hge, hrest⟩ := ih hmid' hhead hfits hhi (by omega)
        exact ⟨cut, hcut, UInt64.le_trans (UInt64.le_of_lt hmid) hge, hrest⟩
      · next hfull =>
        obtain ⟨cut, hcut, hge, hcutlt, hrest⟩ :=
          ih hmid hle hlo (Nat.not_le.mp hfull) (by omega)
        exact ⟨cut, hcut, hge, UInt64.lt_trans hcutlt hmid', hrest⟩
    · next hgap =>
      refine ⟨lo, rfl, UInt64.le_refl lo, hlt, hlo, fun c hc => ?_⟩
      -- What is past `lo` is not before `hi`.
      refine Nat.lt_of_lt_of_le hhi (recordBytes_mono ?_)
      rw [UInt64.lt_iff_toNat_lt] at hlt hgap hc
      have hone : (1 : UInt64).toNat = 1 := rfl
      rw [UInt64.le_iff_toNat_le]
      omega

/-- The cut of a window: the head if all of it fits, and else the highest that does. -/
theorem cutFor_spec (hnames : a.Names pre since a.changeSeq) (hle : since ≤ a.changeSeq) :
    ∃ cut, a.cutFor wire pre since budget (a.recordBytes wire pre since a.changeSeq) = .ok cut ∧
      since ≤ cut ∧ cut ≤ a.changeSeq ∧ a.recordBytes wire pre since cut ≤ budget ∧
      (cut < a.changeSeq → ∀ c, cut < c → budget < a.recordBytes wire pre since c) := by
  unfold cutFor
  split
  · next hfits =>
    exact ⟨_, rfl, hle, UInt64.le_refl _, hfits, fun h => absurd h (UInt64.lt_irrefl _)⟩
  next hfull =>
  have hlt : since < a.changeSeq := by
    obtain h | h := UInt64.lt_or_eq_of_le hle
    · exact h
    · rw [← h, recordBytes_self] at hfull
      exact absurd (Nat.zero_le _) hfull
  obtain ⟨cut, hcut, hge, hcutlt, hfits, hmax⟩ := cutLoop_spec hnames hlt (UInt64.le_refl _)
    (recordBytes_self.trans_le (Nat.zero_le budget)) (Nat.not_le.mp hfull) (Nat.le_refl _)
  exact ⟨cut, hcut, hge, UInt64.le_of_lt hcutlt, hfits, fun _ => hmax⟩

/-! ## The page -/

/-- The bytes a page has for its records. -/
def pageBudget (wire : ChangesWire) (out : ℕ) : ℕ :=
  out - (wire.headLen + wire.trailerFixedLen + revisionTokenLen)

/-- **A page of the changes past `since`**, cut at `cut`. -/
structure IsDelta (wire : ChangesWire) (a : Arena L) (pre : Bytes) (since cut : UInt64)
    (out : ℕ) : Prop where
  vouched : a.changeHorizon ≤ since
  from_since : since ≤ cut
  to_head : cut ≤ a.changeSeq
  /-- It is past where the page began, unless there is nothing past that. -/
  progress : cut = since → since = a.changeSeq
  fits : a.recordBytes wire pre since cut ≤ pageBudget wire out
  most : cut < a.changeSeq → ∀ c, cut < c → pageBudget wire out < a.recordBytes wire pre since c

/-- **What is answered**: that the window is lost, exactly when the arena does not vouch for it or
has not come to it, or the page of the highest cut that fits. -/
theorem deltaPage_eq_ok (hw : wire.Lawful) {p : wire.Page}
    (h : a.deltaPage wire pre since out = .ok p) :
    (wire.read p = .lost ∧ (since < a.changeHorizon ∨ a.changeSeq < since)) ∨
      ∃ cut, a.IsDelta wire pre since cut out ∧
        wire.read p = .page ((a.window pre since cut).map changeRec) (decide (cut < a.changeSeq))
          cut (wire.revisionToken cut) := by
  unfold deltaPage at h
  dsimp only at h
  split at h
  · next hlost =>
    exact .inl ⟨hw.lost (eq_some_of_elim h), hlost⟩
  next hvouched =>
  rw [not_or, UInt64.not_lt, UInt64.not_lt] at hvouched
  split at h
  · cases h
  next w hnew =>
  split at h
  · cases h
  next total htotal =>
  obtain ⟨hnames, rfl⟩ := windowBytes_eq_ok.mp htotal
  obtain ⟨cut, hcut, hge, hle, hfits, hmost⟩ :=
    @cutFor_spec L a wire pre since (pageBudget wire out) hnames hvouched.2
  have hcut' := hcut
  unfold pageBudget at hcut'
  rw [hcut'] at h
  dsimp only at h
  split at h
  · cases h
  next hstuck =>
  split at h
  · cases h
  next w' hpush =>
  refine .inr ⟨cut, ⟨hvouched.1, hge, hle, fun heq => ?_, hfits, hmost⟩, ?_⟩
  · -- A window that has nothing fits whole.
    have hzero : a.recordBytes wire pre since a.changeSeq = 0 :=
      Nat.eq_zero_of_not_pos fun hpos => hstuck ⟨heq, hpos⟩
    rw [cutFor, hzero, if_pos (Nat.zero_le _)] at hcut
    cases hcut
    exact heq.symm
  · have hrest : (if decide (cut < a.changeSeq) = true then cut else a.changeSeq) = cut := by
      split
      · rfl
      next hmore =>
      rw [decide_eq_true_eq, UInt64.not_lt] at hmore
      exact UInt64.le_antisymm hmore hle
    rw [hrest] at h
    exact hw.wrote hnew hpush (eq_some_of_elim h)

end Arena

/-! ## The relist -/

/-- What a walk took, up to the entry it stopped at. -/
theorem takeAll_eq {σ : Type} {take : σ → Listed → Option σ} {es : List Listed} {w w' : σ}
    {more : Bool} (h : takeAll take es w = (more, w')) :
    ∃ xs ys, es = xs ++ ys ∧ xs.foldlM take w = some w' ∧ (more = false → ys = []) := by
  induction es generalizing w with
  | nil =>
    cases h
    exact ⟨[], [], rfl, rfl, fun _ => rfl⟩
  | cons e es ih =>
    rw [takeAll] at h
    cases hw : take w e with
    | none =>
      rw [hw] at h
      cases h
      exact ⟨[], e :: es, rfl, rfl, fun hf => by cases hf⟩
    | some w₁ =>
      rw [hw] at h
      obtain ⟨xs, ys, rfl, hxs, hys⟩ := ih h
      refine ⟨e :: xs, ys, rfl, ?_, hys⟩
      rw [List.foldlM_cons, hw]
      exact hxs

/-- A `take` without what it keeps of the entry it stops at. -/
def takeOnly {σ : Type} (take : σ → Listed → σ × Bool) (w : σ) (e : Listed) : Option σ :=
  if (take w e).2 then some (take w e).1 else none

namespace Namespace

variable {L : Limits} {ns : Namespace L} {io : ReadEnv} {root pre after cursor : Bytes}
  {wire : ChangesWire} {out : ℕ} {pinned : UInt64}

/-- **A walk that keeps something of where it stops** is the walk, and what it keeps. -/
theorem walkOrderedUntil_eq_ready {σ : Type} {take : σ → Listed → σ × Bool} {w w' : σ}
    {more : Bool} (h : ns.walkOrderedUntil io root pre after take w = .ready (more, w')) :
    ∃ w₀, ns.walkOrdered io root pre after (takeOnly take) w = .ready (more, w₀) ∧
      (w' = w₀ ∨ ∃ e, take w₀ e = (w', false)) := by
  have hloop : ∀ fuel after idx w, ns.walkLoopUntil io root pre take fuel after idx w =
      .ready (more, w') →
      ∃ w₀, ns.walkLoop io root pre (takeOnly take) fuel after idx w = .ready (more, w₀) ∧
        (w' = w₀ ∨ ∃ e, take w₀ e = (w', false)) := by
    intro fuel
    induction fuel with
    | zero =>
      intro after idx w h
      cases h
      exact ⟨w', rfl, .inl rfl⟩
    | succ fuel ih =>
      intro after idx w h
      rw [walkLoopUntil] at h
      rw [walkLoop]
      cases hb : ns.nextRecord io root pre after idx with
      | pending =>
        rw [hb] at h
        cases h
      | failed =>
        rw [hb] at h
        cases h
      | ready p =>
        rw [hb] at h
        dsimp only at h ⊢
        cases hp : ns.pickListed ((ns.bindings.nextListed root pre after).map Prod.fst) p.1 with
        | none =>
          rw [hp] at h
          cases h
          exact ⟨w', rfl, .inl rfl⟩
        | some q =>
          rw [hp] at h
          dsimp only at h ⊢
          cases hlive : q.1.binding.live with
          | false =>
            rw [hlive] at h
            exact ih _ _ _ h
          | true =>
            rw [hlive] at h
            simp only [if_true] at h ⊢
            rw [takeOnly]
            cases ht : take w q.1 with
            | mk w₁ took =>
              rw [ht] at h
              cases took with
              | true => exact ih _ _ _ h
              | false =>
                cases h
                exact ⟨w, rfl, .inr ⟨q.1, ht⟩⟩
  unfold walkOrderedUntil at h
  unfold walkOrdered
  cases hidx : ns.walkStart io root after with
  | pending =>
    rw [hidx] at h
    cases h
  | failed =>
    rw [hidx] at h
    cases h
  | ready idx =>
    rw [hidx] at h
    exact hloop _ _ _ _ h

/-- The record of an entry. -/
def addedRec (e : Listed) : ChangeRec := ⟨e.changeRev, .added, e.path, e.binding.objectId⟩

/-- What a relist's page is after some entries. -/
theorem foldlM_relistTake {es : List Listed} {st st' : RelistWrite wire}
    (h : es.foldlM (takeOnly (relistTake wire L)) st = some st') :
    (es.map addedRec).foldlM wire.push st.writer = some st'.writer ∧
      st'.last = (es.getLast?.map Listed.path).getD st.last ∧ st'.overflow = st.overflow ∧
      ∀ e ∈ es, e.path.length ≤ cursorMax L := by
  induction es generalizing st with
  | nil =>
    cases h
    exact ⟨rfl, rfl, rfl, fun e he => absurd he List.not_mem_nil⟩
  | cons e es ih =>
    rw [List.foldlM_cons] at h
    by_cases hlong : cursorMax L < e.path.length
    · rw [takeOnly, relistTake, if_pos hlong] at h
      cases h
    cases hp : wire.push st.writer (addedRec e) with
    | none =>
      have hp' := hp
      unfold addedRec at hp'
      rw [takeOnly, relistTake, if_neg hlong, hp'] at h
      cases h
    | some w =>
      have hp' := hp
      unfold addedRec at hp'
      rw [takeOnly, relistTake, if_neg hlong, hp'] at h
      obtain ⟨hpush, hlast, hover, hshort⟩ := @ih ⟨w, e.path, st.overflow⟩ h
      refine ⟨?_, ?_, hover, List.forall_mem_cons.mpr ⟨Nat.not_lt.mp hlong, hshort⟩⟩
      · rw [List.map_cons, List.foldlM_cons, hp]
        exact hpush
      · rw [hlast]
        cases es with
        | nil => rfl
        | cons e' es => rw [List.getLast?_cons_cons]; rfl

/-- **A page of a relist** holds these entries, the first of these that are listed beyond its
cursor. -/
structure IsRelist (ns : Namespace L) (pre cursor : Bytes) (xs ys : List Listed) : Prop where
  listing : ns.IsListing [] pre cursor ((xs ++ ys).map Listed.entry)
  /-- Each could be where the next page begins. -/
  short : ∀ e ∈ xs, e.path.length ≤ cursorMax L

/-- **What is answered**: the first entries listed beyond the cursor, and the token of the rest,
or, if that is all, of the revision the relist began at. -/
theorem Sound.relistPage_eq_ok (hs : ns.Sound) (hw : wire.Lawful) {p : wire.Page}
    (h : ns.relistPage wire io pre pinned cursor out = .ok p) :
    ∃ xs ys, ns.IsRelist pre cursor xs ys ∧
      ((ys = [] ∧ wire.read p =
          .page (xs.map addedRec) false pinned (wire.revisionToken pinned)) ∨
        ∃ zs e, xs = zs ++ [e] ∧
          wire.read p = .page (xs.map addedRec) true 0 (relistToken pinned e.path)) := by
  unfold relistPage at h
  split at h
  · cases h
  split at h
  · cases h
  next w hnew =>
  split at h
  · cases h
  · cases h
  next more st hwalk =>
  split at h
  · cases h
  next hover =>
  obtain ⟨st₀, hready, hst⟩ := walkOrderedUntil_eq_ready hwalk
  -- A take that stops the walk keeps the page, or says that a key was too long.
  obtain rfl : st = st₀ := by
    obtain rfl | ⟨e, he⟩ := hst
    · rfl
    · unfold relistTake at he
      split at he
      · cases he
        exact absurd rfl hover
      · split at he
        · exact (Prod.mk.inj he).1.symm
        · cases he
  obtain ⟨es, hes, hall⟩ := hs.walkOrdered [] pre cursor
  have htake := SnapRead.ready.inj
    ((hall _ _ _).symm.trans (walkOrdered_allReady_of_ready hready))
  obtain ⟨xs, ys, rfl, hxs, hys⟩ := takeAll_eq htake
  obtain ⟨hpush, hlast, -, hshort⟩ := foldlM_relistTake hxs
  refine ⟨xs, ys, ⟨hes, hshort⟩, ?_⟩
  cases more with
  | false =>
    rw [if_neg (fun hc => by cases hc.1), if_neg Bool.false_ne_true] at h
    exact .inl ⟨hys rfl, hw.wrote hnew hpush (eq_some_of_elim h)⟩
  | true =>
    split at h
    · cases h
    next hcount =>
    have hne : xs ≠ [] := by
      rintro rfl
      exact hcount ⟨rfl, hw.counts hnew hpush⟩
    obtain ⟨zs, e, rfl⟩ : ∃ zs e, xs = zs ++ [e] :=
      ⟨xs.dropLast, xs.getLast hne, (List.dropLast_append_getLast hne).symm⟩
    have hlast' : st.last = e.path := by
      rw [hlast, List.getLast?_append_of_ne_nil _ (List.cons_ne_nil _ _)]
      rfl
    rw [if_pos rfl, hlast'] at h
    exact .inr ⟨zs, e, rfl, hw.wrote hnew hpush (eq_some_of_elim h)⟩

end Namespace

end Loam

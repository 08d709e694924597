import Loam.BlockPublish

/-!
# The stages of a block device's commit

Each exchange of a commit keeps the device: what is staged is fixed as the
commit begins, its extents are named by the digests the store answers with, its
pages are named by what they hold, and when the bind lands the committed map is
the image as it was.
-/

namespace Loam

open CellStore

namespace BlockVolume

variable {body : Digest → Bytes} {N : ℕ} {s s' : BlockVolume} {n i : ℕ}

/-! ## What each stage needs -/

theorem JobFits.putLeaf (hj : s.JobFits) (h : s.job = .putLeaf) : s.commit = .leaves := by
  unfold JobFits at hj
  rwa [h] at hj

theorem JobFits.putRoot (hj : s.JobFits) (h : s.job = .putRoot) : s.commit = .root := by
  unfold JobFits at hj
  rwa [h] at hj

theorem JobFits.putBodies (hj : s.JobFits) (h : s.job = .putBodies) : s.commit = .bodies := by
  unfold JobFits at hj
  rwa [h] at hj

section Stages

variable (hj : s.JobFits)
  (hsame : ∀ i < N, ((s.slots i).committing = true ↔ (s.slots i).state = .staged))
  (hgen : s.commitGen = s.writeGen ∧ s.commitCovers = s.hist.writes.length)

include hj hsame hgen

theorem CommitInv.of_abort (hc : s.commit = .abort) : s.CommitInv body N := by
  have hne {c : VolCommit} (h : s.commit = c) (hac : VolCommit.abort ≠ c) : False :=
    hac (hc.symm.trans h)
  have hst : ¬ s.Stored := by
    rintro (h | h | h)
    all_goals exact hne h nofun
  constructor
  case quiet => exact fun h => absurd ⟨fun h => hne h nofun, fun h => hne h nofun⟩ h
  case same => exact fun _ => hsame
  case gen => exact fun _ => hgen
  case stored => exact fun h => absurd h hst
  case keys => exact fun h => absurd h hst
  case putLeaf => exact fun h => (hne (hj.putLeaf h) nofun).elim
  case all => exact fun h => h.elim (fun h => (hne h nofun).elim) fun h => (hne h nofun).elim
  case putRoot => exact fun h => (hne (hj.putRoot h) nofun).elim
  -- the others are of another stage
  all_goals exact fun h => (hne h nofun).elim

theorem CommitInv.of_bodies (hc : s.commit = .bodies)
    (hfresh : s.job ≠ .putBodies → s.commitCursor = 0)
    (hpipe : s.job = .putBodies → ∀ e ∈ s.pipe,
      e.slot < N ∧ (s.slots e.slot).committing = true ∧ e.body = s.extentBytes e.slot)
    (hsend : s.job = .putBodies → s.pipeRefused = false → ∀ i < N, (s.slots i).committing = true →
      s.commitCursor ≤ i ∨ (∃ e ∈ s.pipe, e.slot = i) ∨ s.StoredExt body i) : s.CommitInv body N := by
  have hne {c : VolCommit} (h : s.commit = c) (hac : VolCommit.bodies ≠ c) : False :=
    hac (hc.symm.trans h)
  have hst : ¬ s.Stored := by
    rintro (h | h | h)
    all_goals exact hne h nofun
  constructor
  case quiet => exact fun h => absurd ⟨fun h => hne h nofun, fun h => hne h nofun⟩ h
  case same => exact fun _ => hsame
  case gen => exact fun _ => hgen
  case fresh => exact fun _ => hfresh
  case pipe => exact fun _ => hpipe
  case sending => exact fun _ => hsend
  case stored => exact fun h => absurd h hst
  case keys => exact fun h => absurd h hst
  case putLeaf => exact fun h => (hne (hj.putLeaf h) nofun).elim
  case all => exact fun h => h.elim (fun h => (hne h nofun).elim) fun h => (hne h nofun).elim
  case putRoot => exact fun h => (hne (hj.putRoot h) nofun).elim
  -- the others are of another stage
  all_goals exact fun h => (hne h nofun).elim

variable (hstored : ∀ i < N, (s.slots i).committing = true → s.StoredExt body i)
  (hkeys : s.depth = 2 → (s.leafNew.map Prod.fst).Nodup ∧
    ∀ l ∈ s.leafNew, (∃ i < N, (s.slots i).committing = true ∧ (s.slots i).idx / pageEntries = l.1) ∧
      s.LeafNamed body N l.1 l.2)

include hstored hkeys

theorem CommitInv.of_leaves (hc : s.commit = .leaves) (hd : s.depth = 2)
    (hreached : ∀ i < N, i < s.commitCursor → (s.slots i).committing = true →
      (s.slots i).idx / pageEntries ∈ s.leafNew.map Prod.fst)
    (hput : s.job = .putLeaf → s.commitCursor < N ∧
      (s.slots s.commitCursor).committing = true ∧
      s.jobChild = (s.slots s.commitCursor).idx / pageEntries ∧
      s.jobChild ∉ s.leafNew.map Prod.fst ∧
      ∃ page, s.io = .put page ∧ encodeLeaf (s.jobChild * pageEntries)
        ((List.range (s.leafLen s.jobChild)).map fun i =>
          s.target body N (s.jobChild * pageEntries + i)) = some page) : s.CommitInv body N := by
  have hne {c : VolCommit} (h : s.commit = c) (hac : VolCommit.leaves ≠ c) : False :=
    hac (hc.symm.trans h)
  constructor
  case quiet => exact fun h => absurd ⟨fun h => hne h nofun, fun h => hne h nofun⟩ h
  case same => exact fun _ => hsame
  case gen => exact fun _ => hgen
  case stored => exact fun _ => hstored
  case depth => exact fun _ => hd
  case keys => exact fun _ => hkeys
  case reached => exact fun _ => hreached
  case putLeaf => exact hput
  case all => exact fun h => h.elim (fun h => (hne h nofun).elim) fun h => (hne h nofun).elim
  case putRoot => exact fun h => (hne (hj.putRoot h) nofun).elim
  -- the others are of another stage
  all_goals exact fun h => (hne h nofun).elim

theorem CommitInv.of_root (hc : s.commit = .root) (hall : s.depth = 2 → s.LeavesDone N)
    (hput : s.job = .putRoot → ∃ page, s.io = .put page ∧
      encodeRoot s.volumeId s.sizeBytes s.extentSize
        ((List.range (min s.childrenCount pageEntries)).map (s.newChildren N)) = some page) :
    s.CommitInv body N := by
  have hne {c : VolCommit} (h : s.commit = c) (hac : VolCommit.root ≠ c) : False :=
    hac (hc.symm.trans h)
  constructor
  case quiet => exact fun h => absurd ⟨fun h => hne h nofun, fun h => hne h nofun⟩ h
  case same => exact fun _ => hsame
  case gen => exact fun _ => hgen
  case stored => exact fun _ => hstored
  case keys => exact fun _ => hkeys
  case putLeaf => exact fun h => (hne (hj.putLeaf h) nofun).elim
  case all => exact fun _ => hall
  case putRoot => exact hput
  -- the others are of another stage
  all_goals exact fun h => (hne h nofun).elim

/-- A commit whose root is about to be bound. -/
theorem CommitInv.of_commit (hc : s.commit = .commit) (hall : s.depth = 2 → s.LeavesDone N)
    (hroot : ∀ pos < s.sizeBytes, mapImage body s.newRoot pos = s.now body pos) :
    s.CommitInv body N := by
  have hne {c : VolCommit} (h : s.commit = c) (hac : VolCommit.commit ≠ c) : False :=
    hac (hc.symm.trans h)
  constructor
  case quiet => exact fun h => absurd ⟨fun h => hne h nofun, fun h => hne h nofun⟩ h
  case same => exact fun _ => hsame
  case gen => exact fun _ => hgen
  case stored => exact fun _ => hstored
  case keys => exact fun _ => hkeys
  case putLeaf => exact fun h => (hne (hj.putLeaf h) nofun).elim
  case all => exact fun _ => hall
  case putRoot => exact fun h => (hne (hj.putRoot h) nofun).elim
  case newRoot => exact fun _ => hroot
  -- the others are of another stage
  all_goals exact fun h => (hne h nofun).elim

end Stages

/-- A commit moves on: what it does is another thing, and the slots are as
they were. -/
theorem Sound.withWork {w : VolWork} {x : VolExchange} (h : s.Sound body N) (hne : s.job ≠ .extent)
    (hc : ({ s with work := w, exchange := x } : BlockVolume).CommitInv body N)
    (hj : ({ s with work := w, exchange := x } : BlockVolume).JobFits) :
    ({ s with work := w, exchange := x } : BlockVolume).Sound body N :=
  ⟨h.1.rework rfl rfl rfl rfl rfl rfl rfl (fun _ => ⟨rfl, rfl, fun _ => rfl⟩)
    (fun _ hi hf => absurd hf (h.1.not_fetching hne hi)) hc hj, h.2.1.of_parts rfl rfl rfl, h.2.2⟩

/-- A commit that is storing its pages is given up. -/
theorem Sound.abort {x : VolExchange} (h : s.Sound body N) (hst : s.Stored) (hne : s.job ≠ .extent)
    (hx : x.job = .none) :
    ({ s with work := { s.work with commit := .abort }, exchange := x } : BlockVolume).Sound body N :=
  have hf := hst.fixed
  h.withWork hne (.of_abort (.of_none hx) (h.1.commit.same hf) (h.1.commit.gen hf) rfl) (.of_none hx)

/-! ## The beginning -/

/-- **What is staged as a commit begins is the commit's.** -/
theorem Sound.beginCommit (h : s.Sound body N) (hc : s.commit = .begin) (hj : s.job = .none) :
    s.beginCommit.Sound body N := by
  have hq := h.1.commit.quiet fun hf => hf.2 hc
  have hne : s.job ≠ .extent := by
    rw [hj]
    nofun
  refine ⟨h.1.rework rfl rfl rfl rfl rfl rfl rfl (fun _ => ⟨rfl, rfl, fun _ => rfl⟩)
    (fun _ hi hf => absurd hf (h.1.not_fetching hne hi)) ?_ (.of_none hj),
    h.2.1.of_parts rfl rfl rfl, h.2.2⟩
  refine .of_bodies (.of_none hj) (fun i hi => ?_) ⟨rfl, rfl⟩ rfl (fun _ => rfl) (fun hp => ?_)
    fun hp => ?_
  · show ((s.slots i).state == .staged || (s.slots i).committing) = true ↔ (s.slots i).state = .staged
    rw [hq i hi, Bool.or_false, beq_iff_eq]
  · exact absurd (hj.symm.trans hp) nofun
  · exact absurd (hj.symm.trans hp) nofun

/-! ## The bodies -/

/-- A device whose commit's bodies are in flight. -/
def Sends (body : Digest → Bytes) (N : ℕ) (s : BlockVolume) : Prop :=
  s.Sound body N ∧ s.commit = .bodies ∧ s.job = .putBodies

theorem Sends.fixed (h : s.Sends body N) : s.Fixed := by
  unfold Fixed
  rw [h.2.1]
  exact ⟨nofun, nofun⟩

theorem Sends.not_extent (h : s.Sends body N) : s.job ≠ .extent := by
  rw [h.2.2]
  nofun

theorem Sound.startBodies {x : VolExchange} (h : s.Sound body N) (hc : s.commit = .bodies)
    (hj : s.job = .none) (hx : x.job = .putBodies) :
    ({ s with
        exchange := x
        work.pipe := []
        work.pipeRefused := false } : BlockVolume).Sound body N := by
  have hf : s.Fixed := by
    unfold Fixed
    rw [hc]
    exact ⟨nofun, nofun⟩
  have hfits : ({ s with exchange := x, work.pipe := [], work.pipeRefused := false } :
      BlockVolume).JobFits := by
    unfold JobFits
    rw [show BlockVolume.job _ = _ from hx]
    exact hc
  refine h.withWork (by rw [hj]; nofun) ?_ hfits
  refine .of_bodies hfits (h.1.commit.same hf) (h.1.commit.gen hf) hc (fun hne => absurd hx hne)
    (fun _ e he => absurd he List.not_mem_nil) fun _ _ i _ _ => .inl ?_
  exact (h.1.commit.fresh hc (by rw [hj]; nofun)) ▸ Nat.zero_le i

/-- The commit's bodies go on being stored, with another slot's digest. -/
theorem Sends.withDigest {w : VolWork} {x : VolExchange} {d : Digest} (h : s.Sends body N)
    (hi : i < N) (hci : (s.slots i).committing = true) (hw : w.commit = .bodies)
    (hx : x.job = .putBodies) (hgen : w.commitGen = s.commitGen ∧ w.commitCovers = s.commitCovers)
    (hpipe : ∀ e ∈ w.pipe, e ∈ s.pipe)
    (hsend : w.pipeRefused = false → ∀ j < N, (s.slots j).committing = true → j ≠ i →
      w.commitCursor ≤ j ∨ (∃ e ∈ w.pipe, e.slot = j) ∨ s.StoredExt body j)
    (hd : ∀ j < s.extentLen (s.slots i).idx, extentByte body d j = s.ext i j) :
    ({ s.setSlot i { s.slots i with digest := d } with work := w, exchange := x } :
      BlockVolume).Sends body N := by
  have hslot (j : ℕ) : (put s.slots i { s.slots i with digest := d } j).state = (s.slots j).state ∧
      (put s.slots i { s.slots i with digest := d } j).idx = (s.slots j).idx ∧
      (put s.slots i { s.slots i with digest := d } j).committing = (s.slots j).committing := by
    by_cases hji : j = i
    · rw [hji, put_self]
      exact ⟨rfl, rfl, rfl⟩
    · rw [put_of_ne hji]
      exact ⟨rfl, rfl, rfl⟩
  have hfits : ({ s.setSlot i { s.slots i with digest := d } with work := w, exchange := x } :
      BlockVolume).JobFits := by
    unfold JobFits
    rw [show BlockVolume.job _ = _ from hx]
    exact hw
  have hnf (j : ℕ) (hj : j < N) : (s.slots j).state ≠ .fetching := h.1.1.not_fetching h.not_extent hj
  refine ⟨⟨h.1.1.rework rfl rfl rfl rfl rfl rfl rfl (fun j => ⟨(hslot j).1, (hslot j).2.1, fun hf => ?_⟩)
    (fun j hj hf => absurd hf (hnf j hj)) ?_ hfits, h.1.2.1.of_parts rfl rfl rfl, h.1.2.2⟩, hw, hx⟩
  · show (put s.slots i { s.slots i with digest := d } j).digest = _
    by_cases hji : j = i
    · exact absurd (hji ▸ hf) (hnf i hi)
    · rw [put_of_ne hji]
  · refine .of_bodies hfits (fun j hj => ?_) ?_ hw (fun hne => absurd hx hne) (fun _ e he => ?_)
      fun _ hr j hj hcj => ?_
    · show (put s.slots i { s.slots i with digest := d } j).committing = true ↔
        (put s.slots i { s.slots i with digest := d } j).state = _
      rw [(hslot j).1, (hslot j).2.2]
      exact h.1.1.commit.same h.fixed j hj
    · exact ⟨hgen.1.trans (h.1.1.commit.gen h.fixed).1, hgen.2.trans (h.1.1.commit.gen h.fixed).2⟩
    · obtain ⟨h1, h2, h3⟩ := h.1.1.commit.pipe h.2.1 h.2.2 e (hpipe e he)
      refine ⟨h1, (hslot e.slot).2.2.trans h2, h3.trans ?_⟩
      show (List.range (min (s.extentLen (s.slots e.slot).idx) extentCap)).map _
        = (List.range (min (s.extentLen (put s.slots i _ e.slot).idx) extentCap)).map _
      rw [(hslot e.slot).2.1]
      rfl
    · by_cases hji : j = i
      · refine .inr (.inr fun k hk => ?_)
        subst hji
        change k < s.extentLen (put s.slots j { s.slots j with digest := d } j).idx at hk
        show extentByte body (put s.slots j { s.slots j with digest := d } j).digest k = s.ext j k
        rw [put_self] at hk ⊢
        exact hd k hk
      · have hcj' : (s.slots j).committing = true := (hslot j).2.2.symm.trans hcj
        obtain hk | hk | hk := hsend hr j hj hcj' hji
        · exact .inl hk
        · exact .inr (.inl hk)
        · refine .inr (.inr fun k hkl => ?_)
          change k < s.extentLen (put s.slots i { s.slots i with digest := d } j).idx at hkl
          show extentByte body (put s.slots i { s.slots i with digest := d } j).digest k = s.ext j k
          rw [put_of_ne hji] at hkl ⊢
          exact hk k hkl

theorem Sends.withWork {w : VolWork} {x : VolExchange} (h : s.Sends body N) (hw : w.commit = .bodies)
    (hx : x.job = .putBodies) (hgen : w.commitGen = s.commitGen ∧ w.commitCovers = s.commitCovers)
    (hpipe : ∀ e ∈ w.pipe,
      e.slot < N ∧ (s.slots e.slot).committing = true ∧ e.body = s.extentBytes e.slot)
    (hsend : w.pipeRefused = false → ∀ j < N, (s.slots j).committing = true →
      w.commitCursor ≤ j ∨ (∃ e ∈ w.pipe, e.slot = j) ∨ s.StoredExt body j) :
    ({ s with work := w, exchange := x } : BlockVolume).Sends body N := by
  have hfits : ({ s with work := w, exchange := x } : BlockVolume).JobFits := by
    unfold JobFits
    rw [show BlockVolume.job _ = _ from hx]
    exact hw
  refine ⟨h.1.withWork h.not_extent ?_ hfits, hw, hx⟩
  refine .of_bodies hfits (h.1.1.commit.same h.fixed) ?_ hw (fun hne => absurd hx hne)
    (fun _ => hpipe) fun _ => hsend
  exact ⟨hgen.1.trans (h.1.1.commit.gen h.fixed).1, hgen.2.trans (h.1.1.commit.gen h.fixed).2⟩

theorem extentBytes_getD (h : s.Live body N) {j : ℕ} (hj : j < s.extentLen (s.slots i).idx) :
    (s.extentBytes i).getD j 0 = s.ext i j := by
  have hcap : j < min (s.extentLen (s.slots i).idx) extentCap :=
    Nat.lt_min.mpr ⟨hj, Nat.lt_of_lt_of_le hj (extentLen_le.trans h.geo.cap)⟩
  unfold extentBytes
  rw [List.getD_eq_getElem?_getD, List.getElem?_map, List.getElem?_range hcap]
  rfl

/-- **The scan for the next body keeps the device**: one of zeros is named by
the zero digest. -/
theorem Sends.nextBodyFrom {k : ℕ} (h : s.Sends body N) :
    (nextBodyFrom N k s).1.Sends body N ∧ ∀ i, (BlockVolume.nextBodyFrom N k s).2 = some i →
      i < N ∧ i = (BlockVolume.nextBodyFrom N k s).1.commitCursor ∧
        ((BlockVolume.nextBodyFrom N k s).1.slots i).committing = true := by
  induction k generalizing s with
  | zero => exact ⟨h, nofun⟩
  | succ k ih =>
    unfold BlockVolume.nextBodyFrom
    split
    · exact ⟨h, nofun⟩
    next hlt =>
    have hcur : s.commitCursor < N := Nat.not_le.mp hlt
    have hsend := h.1.1.commit.sending h.2.1 h.2.2
    split
    next hnc =>
      refine ih (h.withWork (w := { s.work with commitCursor := s.commitCursor + 1 }) h.2.1 h.2.2
        ⟨rfl, rfl⟩ (h.1.1.commit.pipe h.2.1 h.2.2) fun hr j hj hcj => ?_)
      obtain hk | hk := hsend hr j hj hcj
      · refine .inl (Nat.lt_of_le_of_ne hk fun he => ?_)
        rw [← he, hnc] at hcj
        cases hcj
      · exact .inr hk
    next hco =>
    have hco' : (s.slots s.commitCursor).committing = true := by simpa using hco
    split
    next hz =>
      refine ih (h.withDigest (w := { s.work with commitCursor := s.commitCursor + 1 }) hcur hco' h.2.1
        h.2.2 ⟨rfl, rfl⟩ (fun e he => he) (fun hr j hj hcj hne => ?_) fun j hj => ?_)
      · obtain hk | hk := hsend hr j hj hcj
        · exact .inl (Nat.lt_of_le_of_ne hk (Ne.symm hne))
        · exact .inr hk
      · rw [extentByte_zero, ← extentBytes_getD h.1.1 hj]
        have hlen : j < (s.extentBytes s.commitCursor).length := by
          unfold extentBytes
          rw [List.length_map, List.length_range]
          exact Nat.lt_min.mpr ⟨hj, Nat.lt_of_lt_of_le hj (extentLen_le.trans h.1.1.geo.cap)⟩
        rw [List.getD_eq_getElem?_getD, List.getElem?_eq_getElem hlen]
        exact (beq_iff_eq.mp (List.all_eq_true.mp hz _ (List.getElem_mem hlen))).symm
    · refine ⟨h, fun i hi => ?_⟩
      cases hi
      exact ⟨hcur, rfl, hco'⟩

/-- A round of the sending keeps the device. -/
theorem Sends.bodiesSend (h : s.Sends body N) : (s.bodiesSend N).Sends body N := by
  unfold BlockVolume.bodiesSend
  split
  · exact h
  split
  · refine ⟨Sound.of_core ?_ h.1, h.2⟩
    rfl
  obtain ⟨hs, hi⟩ := h.nextBodyFrom (k := N + 1)
  unfold nextBody
  generalize BlockVolume.nextBodyFrom N (N + 1) s = out at hs hi ⊢
  obtain ⟨s', o⟩ := out
  cases o with
  | none => exact hs
  | some i =>
    obtain ⟨hiN, hcur, hci⟩ := hi i rfl
    dsimp only at hcur hci hs ⊢
    refine hs.withWork hs.2.1 hs.2.2 ⟨rfl, rfl⟩ (fun e he => ?_) fun hr j hj hcj => ?_
    · obtain he | he := List.mem_append.mp he
      · exact hs.1.1.commit.pipe hs.2.1 hs.2.2 e he
      · cases List.mem_singleton.mp he
        exact ⟨hiN, hci, rfl⟩
    · obtain hk | ⟨e, he, hk⟩ | hk := hs.1.1.commit.sending hs.2.1 hs.2.2 hr j hj hcj
      · by_cases hji : j = i
        · exact .inr (.inl ⟨_, List.mem_append_right _ (List.mem_singleton_self _), hji.symm⟩)
        refine .inl (Nat.lt_of_le_of_ne hk fun he => hji ?_)
        rw [hcur, ← he]
      · exact .inr (.inl ⟨e, List.mem_append_left _ he, hk⟩)
      · exact .inr (.inr hk)

/-- A body that is stored is named by its digest. -/
def PutTrue (body : Digest → Bytes) (b : Bytes) : AdminAck → Prop
  | .put .ok (some d) => body d = b ∧ d ≠ Digest.zero
  | _ => True

instance (body : Digest → Bytes) (b : Bytes) (a : AdminAck) : Decidable (PutTrue body b a) := by
  unfold PutTrue
  split
  · infer_instance
  · infer_instance

/-- The body an exchange puts. -/
def putBody : AdminAsk → Option Bytes
  | .put b => some b
  | _ => none

/-- **An acknowledged body is stored.** -/
theorem Sends.bodiesAck {t k : ℕ} {a : AdminAck} (h : s.Sends body N)
    (ha : ∀ e ∈ s.pipe[k]?, PutTrue body e.body a) : (s.bodiesAck t k a).Inv body N := by
  unfold BlockVolume.bodiesAck
  cases hk : s.pipe[k]? with
  | none => exact h.1.told.failWith _
  | some e =>
    have hmem : e ∈ s.pipe := List.mem_of_getElem? hk
    obtain ⟨hi, hci, hbytes⟩ := h.1.1.commit.pipe h.2.1 h.2.2 e hmem
    have herase (e' : PipeEntry) (he : e' ∈ s.pipe.eraseIdx k) : e' ∈ s.pipe :=
      List.mem_of_mem_eraseIdx he
    have hrefused : ({ s with
        work.pipeRefused := true
        work.pipe := s.pipe.eraseIdx k
        exchange.jobAt := t } : BlockVolume).Sends body N :=
      h.withWork h.2.1 h.2.2 ⟨rfl, rfl⟩
        (fun e' he => h.1.1.commit.pipe h.2.1 h.2.2 e' (herase e' he)) nofun
    dsimp only
    split
    next d =>
      obtain ⟨hbody, hz⟩ := ha e hk
      refine Sound.inv (Sends.withDigest (x := { s.exchange with jobAt := t })
        (w := { s.work with pipe := s.pipe.eraseIdx k }) h hi hci h.2.1 h.2.2 ⟨rfl, rfl⟩ herase
        (fun hr j hj hcj hne => ?_) fun j hj => ?_).1
      · obtain hs | ⟨e', he', hs⟩ | hs := h.1.1.commit.sending h.2.1 h.2.2 hr j hj hcj
        · exact .inl hs
        · refine .inr (.inl ⟨e', ?_, hs⟩)
          obtain ⟨m, hm⟩ := List.getElem?_of_mem he'
          refine List.mem_eraseIdx_iff_getElem?.mpr ⟨m, fun hmk => ?_, hm⟩
          rw [hmk, hk] at hm
          cases hm
          exact hne hs.symm
        · exact .inr (.inr hs)
      · unfold extentByte
        rw [if_neg hz, hbody, hbytes, extentBytes_getD h.1.1 hj]
    · exact hrefused.1.inv

theorem bodyAhead_eq_false (h : s.bodyAhead N = false) :
    ∀ i < N, (s.slots i).committing = true → i < s.commitCursor := by
  intro i hi hci
  have := List.any_eq_false.mp h i (List.mem_range.mpr hi)
  rw [hci, Bool.and_true, decide_eq_true_eq] at this
  exact Nat.not_le.mp this

/-- **When every body is stored the commit moves on.** -/
theorem Sends.bodiesEnd {t : ℕ} (h : s.Sends body N) : (s.bodiesEnd N t).Inv body N := by
  have hsame := h.1.1.commit.same h.fixed
  have hgen := h.1.1.commit.gen h.fixed
  unfold BlockVolume.bodiesEnd
  split
  swap
  · unfold timeoutCheck
    split
    · exact h.1.told.failWith _
    · exact h.1.inv
  next hend =>
  split
  · refine Sound.inv (h.1.withWork h.not_extent ?_ (.of_none rfl))
    exact .of_abort (.of_none rfl) hsame hgen rfl
  next hr =>
  have hr' : s.pipeRefused = false := by simpa using hr
  obtain ⟨hor, hempty⟩ := hend
  obtain hor | ⟨-, hahead⟩ := hor
  · exact absurd hor hr
  have hstored : ∀ i < N, (s.slots i).committing = true → s.StoredExt body i := by
    intro i hi hci
    obtain hk | ⟨e, he, -⟩ | hk := h.1.1.commit.sending h.2.1 h.2.2 hr' i hi hci
    · exact absurd (bodyAhead_eq_false hahead i hi hci) (Nat.not_lt.mpr hk)
    · rw [hempty] at he
      cases he
    · exact hk
  refine Sound.inv (h.1.withWork h.not_extent ?_ (.of_none rfl))
  by_cases hd : s.depth = 2
  · have hc : (if s.depth = 2 then VolCommit.leaves else VolCommit.root) = .leaves := if_pos hd
    exact .of_leaves (.of_none rfl) hsame hgen hstored
      (fun _ => ⟨List.nodup_nil, fun l hl => absurd hl List.not_mem_nil⟩) hc hd
      (fun i _ hlt => absurd hlt (Nat.not_lt_zero i)) nofun
  · have hc : (if s.depth = 2 then VolCommit.leaves else VolCommit.root) = .root := if_neg hd
    exact .of_root (.of_none rfl) hsame hgen hstored
      (fun _ => ⟨List.nodup_nil, fun l hl => absurd hl List.not_mem_nil⟩) hc
      (fun h2 => absurd h2 hd) nofun

/-! ## The leaf pages -/

/-- A device whose commit's leaves are being stored. -/
def Names (body : Digest → Bytes) (N : ℕ) (s : BlockVolume) : Prop :=
  s.Sound body N ∧ s.commit = .leaves

theorem Names.stored (h : s.Names body N) : s.Stored := .inl h.2

theorem Names.depth (h : s.Names body N) : s.depth = 2 := h.1.1.commit.depth h.2

theorem Names.not_extent (h : s.Names body N) : s.job ≠ .extent := fun he => by
  have hj := h.1.1.job
  unfold JobFits at hj
  rw [he] at hj
  exact absurd (h.2.symm.trans hj) nofun

theorem Names.withWork {w : VolWork} {x : VolExchange} (h : s.Names body N) (hw : w.commit = .leaves)
    (hgen : w.commitGen = s.commitGen ∧ w.commitCovers = s.commitCovers)
    (hkeys : (w.leafNew.map Prod.fst).Nodup ∧ ∀ l ∈ w.leafNew,
      (∃ i < N, (s.slots i).committing = true ∧ (s.slots i).idx / pageEntries = l.1) ∧
        s.LeafNamed body N l.1 l.2)
    (hreached : ∀ i < N, i < w.commitCursor → (s.slots i).committing = true →
      (s.slots i).idx / pageEntries ∈ w.leafNew.map Prod.fst)
    (hj : ({ s with work := w, exchange := x } : BlockVolume).JobFits)
    (hput : x.job = .putLeaf → w.commitCursor < N ∧
      (s.slots w.commitCursor).committing = true ∧
      x.jobChild = (s.slots w.commitCursor).idx / pageEntries ∧
      x.jobChild ∉ w.leafNew.map Prod.fst ∧
      ∃ page, x.io = .put page ∧ encodeLeaf (x.jobChild * pageEntries)
        ((List.range (s.leafLen x.jobChild)).map fun i =>
          s.target body N (x.jobChild * pageEntries + i)) = some page) :
    ({ s with work := w, exchange := x } : BlockVolume).Names body N := by
  have hf := h.stored.fixed
  refine ⟨h.1.withWork h.not_extent ?_ hj, hw⟩
  refine .of_leaves hj (h.1.1.commit.same hf) ?_ (h.1.1.commit.stored h.stored) (fun _ => hkeys) hw
    h.depth hreached hput
  exact ⟨hgen.1.trans (h.1.1.commit.gen hf).1, hgen.2.trans (h.1.1.commit.gen hf).2⟩

/-- **A leaf named is one more of the commit's.** -/
theorem Names.addLeaf {x : VolExchange} {child : ℕ} {d : Digest} (h : s.Names body N)
    (hx : x.job = .none) (hcur : s.commitCursor < N)
    (hci : (s.slots s.commitCursor).committing = true)
    (hchild : child = (s.slots s.commitCursor).idx / pageEntries)
    (hno : child ∉ s.leafNew.map Prod.fst) (hd : s.LeafNamed body N child d) :
    ({ s.addLeafNew N child d with work.commitCursor := s.commitCursor + 1, exchange := x } :
      BlockVolume).Names body N := by
  obtain ⟨hnodup, hkeys⟩ := h.1.1.commit.keys h.stored h.depth
  have hslot : ∀ c ∈ child :: s.leafNew.map Prod.fst,
      ∃ i < N, (s.slots i).committing = true ∧ (s.slots i).idx / pageEntries = c := by
    intro c hc
    obtain rfl | hc := List.mem_cons.mp hc
    · exact ⟨_, hcur, hci, hchild.symm⟩
    · obtain ⟨l, hl, rfl⟩ := List.mem_map.mp hc
      exact (hkeys l hl).1
  have hroom := h.1.1.length_le_stagedMax h.stored.fixed (List.nodup_cons.mpr ⟨hno, hnodup⟩) hslot
  rw [List.length_cons, List.length_map] at hroom
  have hlt : s.leafNew.length < stagedMax N := hroom
  unfold addLeafNew
  rw [if_pos hlt]
  refine h.withWork (w := { s.work with
    leafNew := s.leafNew ++ [(child, d)], commitCursor := s.commitCursor + 1 }) h.2 ⟨rfl, rfl⟩ ⟨?_, ?_⟩ ?_
    (.of_none hx) fun hp => absurd (hx.symm.trans hp) nofun
  · show ((s.leafNew ++ [(child, d)]).map Prod.fst).Nodup
    rw [List.map_append]
    refine List.nodup_append.mpr ⟨hnodup, List.nodup_singleton _, fun a ha b hb he => hno ?_⟩
    obtain rfl : b = child := List.mem_singleton.mp hb
    exact he ▸ ha
  · intro l hl
    obtain hl | hl := List.mem_append.mp hl
    · exact hkeys l hl
    · cases List.mem_singleton.mp hl
      exact ⟨hslot child List.mem_cons_self, hd⟩
  · intro i hi hlt hcom
    show _ ∈ (s.leafNew ++ [(child, d)]).map Prod.fst
    rw [List.map_append, List.mem_append]
    obtain hlt | heq := Nat.lt_succ_iff_lt_or_eq.mp hlt
    · exact .inl (h.1.1.commit.reached h.2 i hi hlt hcom)
    · refine .inr (List.mem_singleton.mpr ?_)
      rw [heq]
      exact hchild.symm

theorem addLeafNew_exchange {child : ℕ} {d : Digest} :
    (s.addLeafNew N child d).exchange = s.exchange := by
  unfold addLeafNew
  split
  · rfl
  · rfl

theorem Names.leafDone_iff (h : s.Names body N) {child : ℕ} :
    s.leafDone N child = true ↔ child ∈ s.leafNew.map Prod.fst := by
  unfold leafDone
  rw [h.1.1.leafNew_take h.stored h.depth, List.any_eq_true, List.mem_map]
  refine exists_congr fun l => and_congr_right fun _ => ?_
  rw [beq_iff_eq]

/-- **The commit's leaves keep the device**, from its cursor on. -/
theorem Names.leavesFrom {t k : ℕ} (h : s.Names body N) (hj : s.job = .none) :
    (leavesFrom N t k s).Sound body N := by
  induction k generalizing s with
  | zero => exact h.1
  | succ k ih =>
    have hf := h.stored.fixed
    have hd1 : s.depth ≠ 1 := by
      rw [h.depth]
      decide
    obtain ⟨hnodup, hkeys⟩ := h.1.1.commit.keys h.stored h.depth
    unfold BlockVolume.leavesFrom
    dsimp only
    split
    next hend =>
      -- every slot has been passed
      refine h.1.withWork h.not_extent ?_ (.of_none hj)
      refine .of_root (.of_none hj) (h.1.1.commit.same hf) (h.1.1.commit.gen hf)
        (h.1.1.commit.stored h.stored) (fun _ => ⟨hnodup, hkeys⟩) rfl
        (fun _ i hi hci => ?_) fun hp => absurd (hj.symm.trans hp) nofun
      exact h.1.1.commit.reached h.2 i hi (hi.trans_le hend) hci
    next hcur =>
    have hcur' : s.commitCursor < N := Nat.not_le.mp hcur
    split
    next hskip =>
      refine ih (h.withWork (x := s.exchange) (w := { s.work with commitCursor := s.commitCursor + 1 }) h.2
        ⟨rfl, rfl⟩ ⟨hnodup, hkeys⟩ (fun i hi hlt hci => ?_) (.of_none hj)
        fun hp => absurd (hj.symm.trans hp) nofun) hj
      obtain hlt | heq := Nat.lt_succ_iff_lt_or_eq.mp hlt
      · exact h.1.1.commit.reached h.2 i hi hlt hci
      · obtain hnc | hdone := hskip
        · rw [heq, hnc] at hci
          cases hci
        · rw [heq]
          exact h.leafDone_iff.mp hdone
    next hdo =>
    push Not at hdo
    have hci : (s.slots s.commitCursor).committing = true := by simpa using hdo.1
    have hno := fun hmem => hdo.2 (h.leafDone_iff.mpr hmem)
    have hchildx : (s.slots s.commitCursor).idx / pageEntries * pageEntries < s.extentCount := by
      have hx := h.1.1.slots.inMap _ hcur' (by rw [(h.1.1.commit.same hf _ hcur').mp hci]; nofun)
      exact Nat.lt_of_le_of_lt (Nat.div_mul_le_self _ _) hx
    generalize hchild : (s.slots s.commitCursor).idx / pageEntries = child at *
    obtain ⟨hl, hready⟩ := h.1.1.leafReady hd1 hj (.inr h.2) child t
    have hled : (s.leafReady child t).1.Ledger body ∧ (s.leafReady child t).1.phase = .ready :=
      h.1.leafReady child t
    generalize s.leafReady child t = out at hl hready hled ⊢
    obtain ⟨s', o⟩ := out
    cases o with
    | none => exact ⟨hl, hled⟩
    | some k' =>
      obtain ⟨⟨c, lt, heq⟩, hleaf⟩ := hready k' rfl
      dsimp only at heq hleaf hl hled ⊢
      have hnames : s'.Names body N := ⟨⟨hl, hled⟩, by rw [heq]; exact h.2⟩
      have hsame : s'.job = .none ∧ s.commitCursor = s'.commitCursor ∧ s'.commitCursor < N ∧
          (s'.slots s'.commitCursor).committing = true ∧
          child = (s'.slots s'.commitCursor).idx / pageEntries ∧
          child ∉ s'.leafNew.map Prod.fst ∧ s'.depth ≠ 1 ∧
          s'.LeafIs body child (s'.leafData k') := by
        subst heq
        exact ⟨hj, rfl, hcur', hci, hchild.symm, hno, hd1, hleaf⟩
      obtain ⟨hj', hcc, hcur'', hci', hchild', hno', hd1', hleaf'⟩ := hsame
      have hdigests : (List.range (s'.leafLen child)).map (s'.overLeaf N child (s'.leafData k'))
          = (List.range (s'.leafLen child)).map fun i =>
            s'.target body N (child * pageEntries + i) :=
        List.map_congr_left fun i hi =>
          hnames.1.1.overLeaf_eq hnames.stored.fixed hd1' hleaf' (List.mem_range.mp hi)
      rw [hdigests, hcc]
      clear hdigests
      obtain ⟨hnodup', hkeys'⟩ := hnames.1.1.commit.keys hnames.stored hnames.depth
      cases hpage : encodeLeaf (child * pageEntries) ((List.range (s'.leafLen child)).map fun i =>
          s'.target body N (child * pageEntries + i)) with
      | none => exact hnames.1.abort hnames.stored hnames.not_extent hj'
      | some page =>
        dsimp only
        split
        next hz =>
          -- a leaf of zeros is never stored
          have hx : (s'.addLeafNew N child Digest.zero).exchange.job = .none :=
            (congrArg VolExchange.job addLeafNew_exchange).trans hj'
          refine ih (hnames.addLeaf hx hcur'' hci' hchild' hno' fun i hi => ?_) hx
          rw [leafDigest_zero]
          have := List.all_eq_true.mp hz _ (List.mem_map.mpr ⟨i, List.mem_range.mpr hi, rfl⟩)
          exact (beq_iff_eq.mp this).symm
        · refine (hnames.withWork (w := s'.work) (x := { s'.exchange with
              jobChild := child, job := .putLeaf, io := .put page, ioSent := false, jobAt := t })
            hnames.2 ⟨rfl, rfl⟩ ⟨hnodup', hkeys'⟩ (hnames.1.1.commit.reached hnames.2) hnames.2
            fun _ => ?_).1
          exact ⟨hcur'', hci', hchild', hno', page, rfl, hpage⟩

/-! ## The pages are stored -/

theorem Names.acked (h : s.Names body N) : s.acked.Names body N := by
  obtain ⟨hnodup, hkeys⟩ := h.1.1.commit.keys h.stored h.depth
  exact h.withWork (w := s.work) h.2 ⟨rfl, rfl⟩ ⟨hnodup, hkeys⟩ (h.1.1.commit.reached h.2)
    (.of_none rfl) nofun

/-- **A leaf page stored is one more of the commit's.** -/
theorem Names.onPut {a : AdminAck} (h : s.Names body N) (hj : s.job = .putLeaf)
    (ha : ∀ b ∈ putBody s.io, PutTrue body b a) : (s.acked.onPut N s.job a).Sound body N := by
  obtain ⟨hcur, hci, hchild, hno, page, hio, hpage⟩ := h.1.1.commit.putLeaf hj
  have hf := h.stored.fixed
  unfold BlockVolume.onPut
  split
  next d =>
    rw [if_pos hj]
    obtain ⟨hbody, hz⟩ := ha page (congrArg putBody hio)
    have hx := h.1.1.slots.inMap _ hcur (by rw [(h.1.1.commit.same hf _ hcur).mp hci]; decide)
    have hchildx : s.jobChild * pageEntries < s.extentCount := by
      rw [hchild]
      exact Nat.lt_of_le_of_lt (Nat.div_mul_le_self _ _) hx
    have hnamed := h.1.1.leafNamed_of_page hchildx hz hbody hpage
    have hnone : (s.acked.addLeafNew N s.acked.jobChild d).exchange.job = .none :=
      congrArg VolExchange.job addLeafNew_exchange
    exact (h.acked.addLeaf hnone hcur hci hchild hno hnamed).1
  · exact h.1.abort h.stored h.not_extent rfl

/-- **The root page stored is the one to bind.** -/
theorem Sound.onPutRoot {a : AdminAck} (h : s.Sound body N) (hc : s.commit = .root)
    (hj : s.job = .putRoot) (ha : ∀ b ∈ putBody s.io, PutTrue body b a) :
    (s.acked.onPut N s.job a).Sound body N := by
  obtain ⟨page, hio, hpage⟩ := h.1.commit.putRoot hj
  have hst : s.Stored := .inr (.inl hc)
  have hf := hst.fixed
  have hne : s.job ≠ .extent := by
    rw [hj]
    decide
  unfold BlockVolume.onPut
  split
  next d =>
    rw [if_neg (by rw [hj]; decide)]
    obtain ⟨hbody, -⟩ := ha page (congrArg putBody hio)
    refine h.withWork hne ?_ (.of_none rfl)
    exact .of_commit (.of_none rfl) (h.1.commit.same hf) (h.1.commit.gen hf) (h.1.commit.stored hst)
      (h.1.commit.keys hst) rfl (h.1.commit.all (.inl hc))
      fun pos hpos => h.1.newRoot_of_page hst (h.1.commit.all (.inl hc)) hbody hpage hpos
  · exact h.abort hst hne rfl

/-! ## The next exchange -/

/-- An exchange of the commit that puts nothing. -/
theorem Sound.issue {job : VolJob} {io : AdminAsk} {t : ℕ} (h : s.Sound body N) (hj : s.job = .none)
    (h1 : job ≠ .putBodies) (h2 : job ≠ .putLeaf) (h3 : job ≠ .putRoot)
    (hfits : (s.issue job io t).JobFits) : (s.issue job io t).Sound body N :=
  ⟨h.1.withExchange (by rw [hj]; nofun) (by rw [hj]; nofun) h1 h2 h3 hfits,
    h.2.1.of_parts rfl rfl rfl, h.2.2⟩

theorem Sound.putRoot {t : ℕ} (h : s.Sound body N) (hc : s.commit = .root) (hj : s.job = .none) :
    (s.commitNext N t).Sound body N := by
  have hst : s.Stored := .inr (.inl hc)
  have hf := hst.fixed
  have hne : s.job ≠ .extent := by
    rw [hj]
    nofun
  unfold BlockVolume.commitNext
  rw [hc]
  dsimp only
  split
  · exact h.abort hst hne hj
  next page hpage =>
    refine h.withWork (w := s.work) (x := { s.exchange with
      job := .putRoot, io := .put page, ioSent := false, jobAt := t }) hne ?_ hc
    exact .of_root hc (h.1.commit.same hf) (h.1.commit.gen hf) (h.1.commit.stored hst)
      (h.1.commit.keys hst) hc (h.1.commit.all (.inl hc)) fun _ => ⟨page, rfl, hpage⟩

/-- **The commit's next exchange keeps the device.** -/
theorem Sound.commitNext {t : ℕ} (h : s.Sound body N) (hj : s.job = .none) :
    (s.commitNext N t).Sound body N := by
  cases hc : s.commit with
  | idle =>
    unfold BlockVolume.commitNext
    rw [hc]
    exact h
  | «begin» =>
    unfold BlockVolume.commitNext
    rw [hc]
    dsimp only
    split
    · exact h
    · exact h.issue hj nofun nofun nofun hc
  | bodies =>
    unfold BlockVolume.commitNext
    rw [hc]
    exact h.startBodies (x := { s.exchange with
      job := .putBodies, jobAt := t, io := .none, ioSent := true }) hc hj rfl
  | leaves =>
    unfold BlockVolume.commitNext
    rw [hc]
    exact Names.leavesFrom ⟨h, hc⟩ hj
  | root => exact h.putRoot hc hj
  | commit =>
    unfold BlockVolume.commitNext
    rw [hc]
    exact h.issue hj nofun nofun nofun hc
  | abort =>
    unfold BlockVolume.commitNext
    rw [hc]
    exact h.issue hj nofun nofun nofun hc

/-! ## The end -/

/-- **An abandoned commit leaves its writes staged.** -/
theorem Sound.giveUp (h : s.Sound body N) (hne : s.job ≠ .extent) (hj : s.job = .none) :
    s.giveUp.Sound body N := by
  unfold BlockVolume.giveUp
  refine Sound.failWaiters ⟨h.1.rework rfl rfl rfl rfl rfl rfl rfl (fun _ => ⟨rfl, rfl, fun _ => rfl⟩)
    (fun _ hi hf => absurd hf (h.1.not_fetching hne hi)) ?_ (.of_none hj),
    h.2.1.of_parts rfl rfl rfl, h.2.2⟩
  exact .of_not_fixed (fun hf => hf.1 rfl) (.of_none hj) fun _ _ => rfl

end BlockVolume

end Loam

import Loam.BlockRequests

/-!
# The fetches of a block device

A leaf page and an extent are taken when their bytes hash to the digest the
committed map has, so what becomes resident is the committed map's. The node's
word is needed for one thing only: that the bytes of a digest are the bytes it
names (`body`).
-/

namespace Loam

open CellStore

namespace BlockVolume

variable {body : Digest → Bytes} {N : ℕ} {s s' : BlockVolume} {n : ℕ}

/-! ## Failure -/

/-- What outlasts a failure. -/
structure Told (body : Digest → Bytes) (s : BlockVolume) : Prop where
  ledger : s.Ledger body
  pend : ∀ i p, s.pending i = some p → p.since ≤ s.hist.writes.length
  fail : s.phase = .failed → s.Dead

theorem Sound.told (h : s.Sound body N) : s.Told body :=
  ⟨h.2.1, fun i p hp => (h.1.pend i p hp).since_le, fun hf => absurd (h.2.2.symm.trans hf) nofun⟩

theorem Sound.inv (h : s.Sound body N) : s.Inv body N :=
  ⟨h.2.1, fun _ => h.1, fun hf => absurd h.2.2 hf, fun hf => absurd (h.2.2.symm.trans hf) nofun⟩

theorem Ledger.of_parts (h : s.Ledger body) (hh : s'.hist = s.hist) (hv : s'.view = s.view)
    (hp : s'.params = s.params) : s'.Ledger body := by
  cases s
  cases s'
  cases hh
  cases hv
  cases hp
  exact ⟨fun a ha => ⟨(h.answers a ha).since, (h.answers a ha).seen, (h.answers a ha).read,
    (h.answers a ha).wrote, (h.answers a ha).fence, (h.answers a ha).preflush,
    (h.answers a ha).sync⟩, h.landed⟩

/-- **A device that fails keeps what it told.** -/
theorem Told.failWith (h : s.Told body) (err : VolErrno) : (s.failWith err).Inv body N := by
  unfold BlockVolume.failWith
  split
  next hf =>
    exact ⟨h.ledger, fun hr => absurd (hr.symm.trans hf) nofun, fun _ hn => absurd hf hn, h.fail⟩
  · refine ⟨?_, nofun, fun _ hn => absurd rfl hn, fun _ => ⟨⟨err, rfl⟩, fun _ => rfl, h.pend⟩⟩
    exact h.ledger.of_parts rfl rfl rfl

/-! ## The exchange -/

/-- A state with another exchange, commit and slots' marks. -/
theorem Live.rework (h : s.Live body N) (hv : s'.view = s.view) (hl : s'.leafTable = s.leafTable)
    (hq : s'.queue = s.queue) (hh : s'.hist = s.hist) (hp : s'.params = s.params)
    (he : s'.ext = s.ext) (hst : s'.staged = s.staged)
    (hslots : ∀ i, (s'.slots i).state = (s.slots i).state ∧ (s'.slots i).idx = (s.slots i).idx ∧
      ((s.slots i).state = .fetching → (s'.slots i).digest = (s.slots i).digest))
    (hfetch : ∀ i < N, (s.slots i).state = .fetching → s'.job = .extent ∧ s'.jobSlot = i)
    (hc : s'.CommitInv body N) (hj : s'.JobFits) : s'.Live body N := by
  cases s with | mk ph fl pa le ex vi xt lt wo qu fg hi =>
  cases s' with | mk ph' fl' pa' le' ex' vi' xt' lt' wo' qu' fg' hi' =>
  cases hv
  cases hl
  cases hq
  cases hh
  cases hp
  obtain ⟨cl, st, sl, ext⟩ := xt
  obtain ⟨cl', st', sl', ext'⟩ := xt'
  cases he
  cases hst
  have hstate (i : ℕ) : (sl' i).state = (sl i).state := (hslots i).1
  have hidx (i : ℕ) : (sl' i).idx = (sl i).idx := (hslots i).2.1
  refine ⟨⟨h.geo.depth, h.geo.covers, h.geo.fits, h.geo.extents, h.geo.blocks, h.geo.block, h.geo.cap⟩,
    ⟨h.map.root, h.map.leaves⟩, ?_, h.room,
    ⟨h.gens.sorted, h.gens.le, h.gens.durable, h.gens.covered, h.gens.head⟩,
    fun i p hp => ⟨(h.pend i p hp).inDevice, (h.pend i p hp).reach, (h.pend i p hp).preflush,
      (h.pend i p hp).op⟩, hc, hj⟩
  refine ⟨fun i hi j hj hfi hfj hij => ?_, fun i hi hfi => ?_, fun i hi hr j hj => ?_,
    fun idx hx hno j hj => ?_, fun i hi hf => ?_, ?_⟩
  · exact h.slots.uniq i hi j hj ((hstate i) ▸ hfi) ((hstate j) ▸ hfj)
      ((hidx i).symm.trans (hij.trans (hidx j)))
  · exact (hidx i) ▸ h.slots.inMap i hi ((hstate i) ▸ hfi)
  · have hr' : (sl i).state = .clean ∨ (sl i).state = .staged := (hstate i) ▸ hr
    have := h.slots.holds i hi hr' j ((hidx i) ▸ hj)
    show ext i j = _
    rw [show (sl' i).idx = (sl i).idx from hidx i]
    exact this
  · refine h.slots.bare idx hx (fun i hi hs => ?_) j hj
    have := hno i hi ((hstate i).trans hs)
    exact fun heq => this ((hidx i).trans heq)
  · have hf' : (sl i).state = .fetching := (hstate i) ▸ hf
    obtain ⟨⟨h1, h2⟩, -⟩ := h.slots.fetch i hi hf'
    have hd : (sl' i).digest = (sl i).digest := (hslots i).2.2 hf'
    refine ⟨⟨?_, ?_⟩, hfetch i hi hf'⟩
    · show (sl' i).digest = committed body _ (sl' i).idx
      rw [hd, hidx i]
      exact h1
    · show (sl' i).digest ≠ _
      rw [hd]
      exact h2
  · refine h.slots.count.trans (List.countP_congr fun i _ => ?_)
    show ((sl i).state == .staged) = true ↔ ((sl' i).state == .staged) = true
    rw [hstate i]

/-- With no commit whose content is fixed, nothing is committing. -/
theorem CommitInv.of_not_fixed (hf : ¬ s.Fixed) (hj : s.JobFits)
    (hq : ∀ i < N, (s.slots i).committing = false) : s.CommitInv body N := by
  have hc : s.commit = .idle ∨ s.commit = .begin := by
    unfold Fixed at hf
    tauto
  have hne (c : VolCommit) (h1 : c ≠ .idle) (h2 : c ≠ .begin) : s.commit ≠ c := by
    obtain hc | hc := hc <;> rw [hc]
    · exact h1.symm
    · exact h2.symm
  have hstored : ¬ s.Stored := by
    unfold Stored
    obtain hc | hc := hc <;> simp [hc]
  unfold JobFits at hj
  exact
    { quiet := fun _ => hq
      same := fun h => absurd h hf
      gen := fun h => absurd h hf
      fresh := fun h => absurd h (hne _ nofun nofun)
      pipe := fun h => absurd h (hne _ nofun nofun)
      sending := fun h => absurd h (hne _ nofun nofun)
      stored := fun h => absurd h hstored
      depth := fun h => absurd h (hne _ nofun nofun)
      keys := fun h => absurd h hstored
      reached := fun h => absurd h (hne _ nofun nofun)
      putLeaf := fun h => by rw [h] at hj; exact absurd hj (hne _ nofun nofun)
      all := fun h => by
        obtain h | h := h
        · exact absurd h (hne _ nofun nofun)
        · exact absurd h (hne _ nofun nofun)
      putRoot := fun h => by rw [h] at hj; exact absurd hj (hne _ nofun nofun)
      newRoot := fun h => absurd h (hne _ nofun nofun) }

/-- The exchange is replaced by one that puts nothing. -/
theorem CommitInv.withExchange {x : VolExchange} (h : s.CommitInv body N)
    (hb : s.job ≠ .putBodies) (hb' : x.job ≠ .putBodies) (hl : x.job ≠ .putLeaf)
    (hr : x.job ≠ .putRoot) : ({ s with exchange := x } : BlockVolume).CommitInv body N where
  quiet := h.quiet
  same := h.same
  gen := h.gen
  fresh := fun hc _ => h.fresh hc hb
  pipe := fun _ hj => absurd hj hb'
  sending := fun _ hj => absurd hj hb'
  stored := h.stored
  depth := h.depth
  keys := h.keys
  reached := h.reached
  putLeaf := fun hj => absurd hj hl
  all := h.all
  putRoot := fun hj => absurd hj hr
  newRoot := h.newRoot

/-- Nothing is fetched but by an exchange. -/
theorem Live.not_fetching (h : s.Live body N) (hne : s.job ≠ .extent) {i : ℕ} (hi : i < N) :
    (s.slots i).state ≠ .fetching := fun hf => hne (h.slots.fetch i hi hf).2.1

theorem Live.withExchange {x : VolExchange} (h : s.Live body N) (hne : s.job ≠ .extent)
    (hb : s.job ≠ .putBodies) (hb' : x.job ≠ .putBodies) (hl : x.job ≠ .putLeaf)
    (hr : x.job ≠ .putRoot) (hj : ({ s with exchange := x } : BlockVolume).JobFits) :
    ({ s with exchange := x } : BlockVolume).Live body N :=
  h.rework rfl rfl rfl rfl rfl rfl rfl (fun _ => ⟨rfl, rfl, fun _ => rfl⟩)
    (fun _ hi hf => absurd hf (h.not_fetching hne hi)) (h.commit.withExchange hb hb' hl hr) hj

/-- The exchange in flight has ended. -/
def acked (s : BlockVolume) : BlockVolume :=
  { s with exchange.job := .none, exchange.io := .none, exchange.ioSent := true }

theorem Live.acked (h : s.Live body N) (hne : s.job ≠ .extent) (hb : s.job ≠ .putBodies) :
    s.acked.Live body N :=
  h.withExchange hne hb nofun nofun nofun trivial

/-! ## A leaf page -/

/-- A page of digests is a leaf of the committed map. -/
def LeafIs (body : Digest → Bytes) (s : BlockVolume) (child : ℕ) (f : ℕ → Digest) : Prop :=
  ∀ i < s.leafLen child, f i = leafDigest body s.sizeBytes s.extentSize (s.children child) child i

/-- A resident leaf is the committed map's. -/
def LeafOk (body : Digest → Bytes) (s : BlockVolume) (e : LeafSlot) (f : ℕ → Digest) : Prop :=
  e.child < pageEntries ∧ e.digest = s.children e.child ∧ s.LeafIs body e.child f

theorem MapInv.leafOk (h : s.MapInv body) (hd : s.depth ≠ 1) {k : ℕ} (hk : k < 2)
    (hv : (s.leaves k).valid = true) : s.LeafOk body (s.leaves k) (s.leafData k) :=
  h.leaves hd k hk hv

/-- Leaves of the committed map are resident. -/
theorem Live.withLeaves {lt : VolLeaves} (h : s.Live body N)
    (hl : s.depth ≠ 1 → ∀ k < 2, (lt.leaves k).valid = true →
      s.LeafOk body (lt.leaves k) (lt.leafData k)) :
    ({ s with leafTable := lt } : BlockVolume).Live body N :=
  h.aside ⟨h.map.root, hl⟩ h.pend

theorem leafFind_eq_some {child k : ℕ} (h : s.leafFind child = some k) :
    k < 2 ∧ child < pageEntries ∧ (s.leaves k).valid = true ∧ (s.leaves k).child = child ∧
      (s.leaves k).digest = s.children child := by
  unfold leafFind child? at h
  split at h
  next hc =>
    have hp := List.find?_some h
    have hm := List.mem_of_find?_eq_some h
    simp only [Bool.and_eq_true, beq_iff_eq] at hp
    have hk : k < 2 := by
      simp only [List.mem_cons, List.not_mem_nil, or_false] at hm
      omega
    exact ⟨hk, hc, hp.1.1, hp.1.2, hp.2⟩
  · cases h

/-- A leaf of the committed map takes a slot, or one is dropped. -/
theorem Live.putLeaf (h : s.Live body N) {k : ℕ} {e : LeafSlot} {f : ℕ → Digest}
    (hok : e.valid = true → s.LeafOk body e f) :
    ({ s with leafTable := ⟨put s.leaves k e, put s.leafData k f⟩ } : BlockVolume).Live body N := by
  refine h.withLeaves fun hd j hj hv => ?_
  show s.LeafOk body (put s.leaves k e j) (put s.leafData k f j)
  by_cases hjk : j = k
  · subst hjk
    rw [put_self, put_self]
    exact hok (by simpa only [put_self] using hv)
  · rw [put_of_ne hjk, put_of_ne hjk]
    exact h.map.leafOk hd hj (by simpa only [put_of_ne hjk] using hv)

theorem Live.putLeafEntry (h : s.Live body N) {k : ℕ} {e : LeafSlot}
    (hok : e.valid = true → s.LeafOk body e (s.leafData k)) :
    ({ s with leafTable.leaves := put s.leaves k e } : BlockVolume).Live body N := by
  have hp := h.putLeaf (k := k) hok
  rwa [put_eq_self rfl] at hp

/-- **A leaf that is resident is the committed map's**, and asking for one
keeps the device. -/
theorem Live.leafReady (h : s.Live body N) (hd : s.depth ≠ 1) (hj : s.job = .none)
    (hc : s.commit = .idle ∨ s.commit = .leaves) (child t : ℕ) :
    ((s.leafReady child t).1).Live body N ∧ ∀ k, (s.leafReady child t).2 = some k →
      (∃ c lt, (s.leafReady child t).1 = { s with extents.clock := c, leafTable := lt }) ∧
      s.LeafIs body child ((s.leafReady child t).1.leafData k) := by
  unfold BlockVolume.leafReady
  cases hf : s.leafFind child with
  | some k =>
    obtain ⟨hk, -, hv, hchild, -⟩ := leafFind_eq_some hf
    dsimp only
    refine ⟨?_, fun k' hk' => ?_⟩
    · have hused : s.LeafOk body { s.leaves k with used := s.clock + 1 } (s.leafData k) :=
        h.map.leafOk hd hk hv
      refine Live.of_core ?_ (h.putLeafEntry fun _ => hused)
      rfl
    · cases hk'
      refine ⟨⟨_, _, rfl⟩, ?_⟩
      have := (h.map.leafOk hd hk hv).2.2
      rwa [hchild] at this
  | none =>
    cases hcd : s.child? child with
    | none => exact ⟨h, nofun⟩
    | some digest =>
      have hchild : child < pageEntries ∧ s.children child = digest := by
        unfold child? at hcd
        split at hcd
        next hlt => exact ⟨hlt, Option.some.inj hcd⟩
        · cases hcd
      dsimp only
      split
      next hz =>
        -- a leaf never written is zeros
        have hok : s.LeafIs body child fun _ => Digest.zero := fun i _ => by
          rw [hchild.2, hz, leafDigest_zero]
        refine ⟨h.putLeaf fun _ => ⟨hchild.1, hchild.2.symm, hok⟩, fun k hk => ⟨⟨s.clock, _, rfl⟩, ?_⟩⟩
        cases hk
        show s.LeafIs body child (put s.leafData s.leafClaim _ s.leafClaim)
        rw [put_self]
        exact hok
      next hz =>
        refine ⟨?_, nofun⟩
        have hlt := h.putLeafEntry (k := s.leafClaim)
          (e := { s.leaves s.leafClaim with valid := false }) nofun
        refine hlt.withExchange (fun he => ?_) (fun he => ?_) nofun nofun nofun
          ⟨hc, fun he => hz (hchild.2.symm.trans he)⟩
        · exact absurd (hj.symm.trans he) nofun
        · exact absurd (hj.symm.trans he) nofun

theorem digestAt_of_le {table : Bytes} {i : ℕ} (h : table.length / 32 ≤ i) :
    (digestAt table i).getD Digest.zero = Digest.zero := by
  unfold digestAt
  rw [dif_neg fun hlen => ?_]
  · rfl
  · rw [List.length_take, List.length_drop] at hlen
    omega

theorem leafData_eq {leaf : LeafPage} {i : ℕ} (hi : i < pageEntries) :
    (if i < min leaf.count pageEntries then (leaf.digest i).getD Digest.zero else Digest.zero)
      = (leaf.digest i).getD Digest.zero := by
  split
  · rfl
  next hge =>
    refine (digestAt_of_le ?_).symm
    show leaf.count ≤ i
    omega

/-- A leaf page that fits keeps the device. -/
theorem Sound.onLeaf {sha : Bytes → Digest} {page : Option Bytes} (h : s.Sound body N)
    (hz : s.children s.jobChild ≠ Digest.zero) (hb : ∀ b, page = some b → body (sha b) = b) :
    (s.onLeaf sha page).Inv body N := by
  unfold BlockVolume.onLeaf
  cases page with
  | none => exact h.told.failWith _
  | some b =>
    cases hd : s.child? s.jobChild with
    | none => exact h.told.failWith _
    | some digest =>
      have hchild : s.jobChild < pageEntries ∧ s.children s.jobChild = digest := by
        unfold child? at hd
        split at hd
        next hlt => exact ⟨hlt, Option.some.inj hd⟩
        · cases hd
      dsimp only
      split
      · exact h.told.failWith _
      next hsha =>
      push Not at hsha
      have hbody : body digest = b := hsha.2 ▸ hb b rfl
      cases hdec : decodeLeaf b with
      | none => exact h.told.failWith _
      | some leaf =>
        dsimp only
        split
        swap
        · exact h.told.failWith _
        next hfit =>
        have hok : s.LeafIs body s.jobChild fun i =>
            if i < min leaf.count pageEntries then (leaf.digest i).getD Digest.zero
            else Digest.zero := by
          intro i hi
          have hip : i < pageEntries := Nat.lt_of_lt_of_le hi (Nat.min_le_right _ _)
          unfold leafDigest
          rw [if_neg hz, hchild.2, hbody, hdec]
          exact (leafData_eq hip).trans (if_pos hfit).symm
        have hlive := h.1.putLeaf (k := s.jobSlot) (e := ⟨true, s.clock + 1, s.jobChild, digest⟩)
          fun _ => ⟨hchild.1, hchild.2.symm, hok⟩
        refine Sound.inv ⟨Live.of_core ?_ hlive, h.2.1.of_parts rfl rfl rfl, h.2.2⟩
        rfl

/-! ## An extent -/

/-- A slot that is not staged is given to another extent. -/
theorem SlotsInv.refill {img : ℕ → UInt8} {i : ℕ} {e : ExtentSlot} {f : ℕ → UInt8}
    (h : s.SlotsInv body N img) (hst : (s.slots i).state ≠ .staged) (he : e.state ≠ .staged)
    (hx : e.idx < s.extentCount)
    (hfresh : ∀ j < N, j ≠ i → (s.slots j).state ≠ .free → (s.slots j).idx ≠ e.idx)
    (hf : e.state = .clean → ∀ j < s.extentLen e.idx,
      f j = s.committedImage body (e.idx * s.extentSize + j))
    (hv : s'.view = s.view) (hs : s'.slots = put s.slots i e) (hext : s'.ext = put s.ext i f)
    (hn : s'.staged = s.staged)
    (hfetch : ∀ j < N, (put s.slots i e j).state = .fetching →
      ((put s.slots i e j).digest = s.committed body (put s.slots i e j).idx ∧
        (put s.slots i e j).digest ≠ Digest.zero) ∧ s'.job = .extent ∧ s'.jobSlot = j) :
    s'.SlotsInv body N img := by
  have hstaged (a : ℕ) : (put s.slots i e a).state = .staged ↔ (s.slots a).state = .staged := by
    by_cases ha : a = i
    · rw [ha, put_self]
      exact ⟨fun h1 => absurd h1 he, fun h1 => absurd h1 hst⟩
    · rw [put_of_ne ha]
  have hbare : ∀ idx < s.extentCount,
      (∀ a < N, (put s.slots i e a).state = .staged → (put s.slots i e a).idx ≠ idx) →
      ∀ j < s.extentLen idx,
        s.committedImage body (idx * s.extentSize + j) = img (idx * s.extentSize + j) := by
    intro idx hidx hno j hj
    refine h.bare idx hidx (fun a ha hsa => ?_) j hj
    have hne := hno a ha ((hstaged a).mpr hsa)
    have hai : a ≠ i := fun hai => hst (hai ▸ hsa)
    rwa [put_of_ne hai] at hne
  cases s with | mk ph fl pa le ex vi xt lt wo qu fg hi' =>
  cases s' with | mk ph' fl' pa' le' ex' vi' xt' lt' wo' qu' fg' hi'' =>
  cases hv
  obtain ⟨cl, st, sl, ext⟩ := xt
  obtain ⟨cl', st', sl', ext'⟩ := xt'
  cases hs
  cases hext
  cases hn
  refine ⟨fun a ha b hb hfa hfb heq => ?_, fun a ha hfa => ?_, fun a ha hra j hj => ?_, hbare,
    hfetch, ?_⟩
  · change (put sl i e a).state ≠ _ at hfa
    change (put sl i e b).state ≠ _ at hfb
    change (put sl i e a).idx = (put sl i e b).idx at heq
    by_cases hai : a = i <;> by_cases hbi : b = i
    · rw [hai, hbi]
    · rw [hai, put_self, put_of_ne hbi] at heq
      rw [put_of_ne hbi] at hfb
      exact absurd heq.symm (hfresh b hb hbi hfb)
    · rw [hbi, put_self, put_of_ne hai] at heq
      rw [put_of_ne hai] at hfa
      exact absurd heq (hfresh a ha hai hfa)
    · rw [put_of_ne hai, put_of_ne hbi] at heq
      rw [put_of_ne hai] at hfa
      rw [put_of_ne hbi] at hfb
      exact h.uniq a ha b hb hfa hfb heq
  · change (put sl i e a).state ≠ _ at hfa
    show (put sl i e a).idx < _
    by_cases hai : a = i
    · rw [hai, put_self]
      exact hx
    · rw [put_of_ne hai] at hfa ⊢
      exact h.inMap a ha hfa
  · show put ext i f a j = img ((put sl i e a).idx * _ + j)
    change j < extentLen _ (put sl i e a).idx at hj
    unfold Resident at hra
    change (put sl i e a).state = _ ∨ (put sl i e a).state = _ at hra
    by_cases hai : a = i
    · rw [hai, put_self] at hra hj ⊢
      rw [put_self]
      obtain hc | hc := hra
      · refine (hf hc j hj).trans (hbare e.idx hx (fun b hb hsb => ?_) j hj)
        by_cases hbi : b = i
        · rw [hbi, put_self] at hsb
          exact absurd hsb he
        · rw [put_of_ne hbi] at hsb ⊢
          exact hfresh b hb hbi (by rw [hsb]; nofun)
      · exact absurd hc he
    · rw [put_of_ne hai] at hra hj ⊢
      rw [put_of_ne hai]
      exact h.holds a ha hra j hj
  · refine h.count.trans (List.countP_congr fun a _ => ?_)
    rw [beq_iff_eq, beq_iff_eq]
    exact (hstaged a).symm

/-- A device whose slots are refilled while no commit runs. -/
theorem Live.refill (h : s.Live body N) (hi : s.commit = .idle)
    (hslots : s'.SlotsInv body N (s.now body)) (hq : ∀ i < N, (s'.slots i).committing = false)
    (hv : s'.view = s.view) (hl : s'.leafTable = s.leafTable) (hqu : s'.queue = s.queue)
    (hh : s'.hist = s.hist) (hp : s'.params = s.params) (hw : s'.work = s.work)
    (hn : s'.staged = s.staged) (hj : s'.JobFits) : s'.Live body N := by
  have hc : s'.CommitInv body N := .of_not_fixed (fun hf => hf.1 (by
    unfold BlockVolume.commit
    rw [hw]
    exact hi)) hj hq
  cases s with | mk ph fl pa le ex vi xt lt wo qu fg hi' =>
  cases s' with | mk ph' fl' pa' le' ex' vi' xt' lt' wo' qu' fg' hi'' =>
  cases hv
  cases hl
  cases hqu
  cases hh
  cases hp
  exact ⟨⟨h.geo.depth, h.geo.covers, h.geo.fits, h.geo.extents, h.geo.blocks, h.geo.block, h.geo.cap⟩,
    ⟨h.map.root, h.map.leaves⟩, hslots, hn ▸ h.room,
    ⟨h.gens.sorted, h.gens.le, h.gens.durable, h.gens.covered, h.gens.head⟩,
    fun i p hp => ⟨(h.pend i p hp).inDevice, (h.pend i p hp).reach, (h.pend i p hp).preflush,
      (h.pend i p hp).op⟩, hc, hj⟩

theorem JobFits.of_none (hj : s.job = .none) : s.JobFits := by
  unfold JobFits
  rw [hj]
  trivial

theorem Geometry.committedImage_eq (geo : s.Geometry) {idx j : ℕ} (hj : j < s.extentLen idx) :
    s.committedImage body (idx * s.extentSize + j) = extentByte body (s.committed body idx) j := by
  unfold committedImage imageOf
  rw [(geo.div_mod hj).1, (geo.div_mod hj).2]

theorem put_slot_quiet {i : ℕ} {e : ExtentSlot} (hq : ∀ j < N, (s.slots j).committing = false)
    (he : e.committing = false) : ∀ j < N, (put s.slots i e j).committing = false := by
  intro j hj
  by_cases hji : j = i
  · rw [hji, put_self]
    exact he
  · rw [put_of_ne hji]
    exact hq j hj

/-- **A slot given to an extent keeps the device.** -/
theorem Sound.placeFetch (h : s.Sound body N) (hj : s.job = .none) (hc : s.commit = .idle)
    {idx t : ℕ} (hx : idx < s.extentCount) (hfind : s.findExtent N idx = none)
    (hfet : s.fetching N idx = false) {digest : Digest} (hdig : digest = s.committed body idx) :
    (s.placeFetch N idx digest t).1.Sound body N ∧
      ((s.placeFetch N idx digest t).2 = true →
        (s.placeFetch N idx digest t).1.job = .none ∧
        (s.placeFetch N idx digest t).1.commit = .idle) := by
  subst hdig
  unfold BlockVolume.placeFetch
  cases hal : s.allocSlot N [] with
  | none => exact ⟨h.withFlags, nofun⟩
  | some i =>
    obtain ⟨hi, -, hst⟩ := allocSlot_eq_some hal
    have hns : (s.slots i).state ≠ .staged := by obtain hst | hst := hst <;> rw [hst] <;> nofun
    have hnf (j : ℕ) (hjN : j < N) : (s.slots j).state ≠ .fetching :=
      h.1.not_fetching (by rw [hj]; nofun) hjN
    have hfresh := no_slot_of_none hfind hfet
    dsimp only
    split
    next hz =>
      -- never written: it reads as zeros
      refine ⟨?_, fun _ => ⟨hj, hc⟩⟩
      have hslots : (((s.setExt i fun _ => 0).setSlot i
          { s.slots i with
            state := .clean, committing := false, idx := idx, digest := s.committed body idx }) :
              BlockVolume).SlotsInv body N (s.now body) := by
        refine h.1.slots.refill hns (by nofun) hx (fun j hjN _ => hfresh j hjN) (fun _ j hjl => ?_) rfl rfl
          rfl rfl fun j hjN hf => ?_
        · rw [h.1.geo.committedImage_eq hjl, hz, extentByte_zero]
        · by_cases hji : j = i
          · rw [hji, put_self] at hf
            cases hf
          · rw [put_of_ne hji] at hf
            exact absurd hf (hnf j hjN)
      have hlive := h.1.refill hc hslots (put_slot_quiet (h.1.quiet hc) rfl) rfl rfl rfl rfl rfl rfl rfl
        (.of_none hj)
      have hsound : (((s.setExt i fun _ => 0).setSlot i
          { s.slots i with
            state := .clean, committing := false, idx := idx, digest := s.committed body idx }) :
              BlockVolume).Sound body N := ⟨hlive, h.2.1.of_parts rfl rfl rfl, h.2.2⟩
      exact (hsound.of_core touch_core).withFlags
    next hz =>
      refine ⟨?_, nofun⟩
      have hslots : (({ s.setSlot i
          { s.slots i with
            state := .fetching, committing := false, idx := idx, digest := s.committed body idx } with
          exchange.jobSlot := i }.issue .extent (.get (s.committed body idx)) t) :
            BlockVolume).SlotsInv body N (s.now body) := by
        refine h.1.slots.refill hns (by nofun) hx (fun j hjN _ => hfresh j hjN) (by nofun) rfl rfl
          (put_eq_self rfl).symm rfl fun j hjN hf => ?_
        by_cases hji : j = i
        · rw [hji, put_self]
          exact ⟨⟨rfl, hz⟩, rfl, rfl⟩
        · rw [put_of_ne hji] at hf
          exact absurd hf (hnf j hjN)
      exact ⟨h.1.refill hc hslots (put_slot_quiet (h.1.quiet hc) rfl) rfl rfl rfl rfl rfl rfl rfl hc,
        h.2.1.of_parts rfl rfl rfl, h.2.2⟩

theorem committed_eq_of_leafIs (hd : s.depth ≠ 1) {idx : ℕ} (hx : idx < s.extentCount)
    {f : ℕ → Digest} (hf : s.LeafIs body (idx / pageEntries) f) :
    f (idx % pageEntries) = s.committed body idx := by
  rw [committed, mapDigest, if_neg hd]
  have hmod : idx % pageEntries < pageEntries := Nat.mod_lt _ (by decide)
  have hdm : idx / pageEntries * pageEntries + idx % pageEntries = idx := Nat.div_add_mod' idx _
  exact hf _ (Nat.lt_min.mpr ⟨by omega, hmod⟩)

/-- Asking for a leaf tells nobody anything. -/
theorem Sound.leafReady (h : s.Sound body N) (child t : ℕ) :
    (s.leafReady child t).1.Ledger body ∧ (s.leafReady child t).1.phase = .ready := by
  unfold BlockVolume.leafReady
  split
  · exact ⟨h.2.1.of_parts rfl rfl rfl, h.2.2⟩
  split
  · exact h.2
  dsimp only
  split
  · exact ⟨h.2.1.of_parts rfl rfl rfl, h.2.2⟩
  · exact ⟨h.2.1.of_parts rfl rfl rfl, h.2.2⟩

/-- **The rounds of the fetch keep the device.** -/
theorem Sound.fetchLoop {t k : ℕ} (h : s.Sound body N) (hj : s.job = .none) (hc : s.commit = .idle) :
    (fetchLoop N t k s).Sound body N := by
  induction k generalizing s with
  | zero => exact h
  | succ k ih =>
    have hdrop : (BlockVolume.fetchLoop N t k (s.dropWant 0)).Sound body N :=
      ih h.withFlags hj hc
    unfold BlockVolume.fetchLoop
    split
    · exact h
    next idx ws hw =>
    split
    · exact hdrop
    next hno =>
    push Not at hno
    obtain ⟨hx, hfind, hfet⟩ := hno
    have hfind' : s.findExtent N idx = none := Option.not_isSome_iff_eq_none.mp (by simpa using hfind)
    have hfet' : s.fetching N idx = false := by simpa using hfet
    split
    next hd =>
      cases hch : s.child? idx with
      | none => exact hdrop
      | some digest =>
        have hdig : digest = s.committed body idx := by
          unfold child? at hch
          split at hch
          · rw [committed, mapDigest, if_pos hd]
            exact (Option.some.inj hch).symm
          · cases hch
        dsimp only
        obtain ⟨hs, hnext⟩ := h.placeFetch hj hc (t := t) hx hfind' hfet' hdig
        generalize s.placeFetch N idx digest t = out at hs hnext ⊢
        obtain ⟨s', b⟩ := out
        cases b with
        | true => exact ih hs (hnext rfl).1 (hnext rfl).2
        | false => exact hs
    next hd =>
      obtain ⟨hl, hready⟩ := h.1.leafReady hd hj (.inl hc) (idx / pageEntries) t
      have hled := h.leafReady (idx / pageEntries) t
      generalize s.leafReady (idx / pageEntries) t = out at hl hready hled ⊢
      obtain ⟨s', k'⟩ := out
      cases k' with
      | none => exact ⟨hl, hled⟩
      | some k' =>
        obtain ⟨⟨c, lt, heq⟩, hleaf⟩ := hready k' rfl
        have hsame : s'.job = .none ∧ s'.commit = .idle ∧ idx < s'.extentCount ∧
            s'.findExtent N idx = none ∧ s'.fetching N idx = false ∧
            s'.leafData k' (idx % pageEntries) = s'.committed body idx := by
          dsimp only at heq
          subst heq
          exact ⟨hj, hc, hx, hfind', hfet', committed_eq_of_leafIs hd hx hleaf⟩
        obtain ⟨hj', hc', hx', hfind'', hfet'', hdig⟩ := hsame
        obtain ⟨hs, hnext⟩ := Sound.placeFetch ⟨hl, hled⟩ hj' hc' (t := t) hx' hfind'' hfet'' hdig
        dsimp only at hs hnext ⊢
        generalize s'.placeFetch N idx _ t = out at hs hnext ⊢
        obtain ⟨s'', b⟩ := out
        cases b with
        | true => exact ih hs (hnext rfl).1 (hnext rfl).2
        | false => exact hs

theorem Sound.fetchNext {t : ℕ} (h : s.Sound body N) (hj : s.job = .none) (hc : s.commit = .idle) :
    (s.fetchNext N t).Sound body N :=
  h.fetchLoop hj hc

/-- What was told is not changed by the end of an exchange. -/
theorem Told.acked (h : s.Told body) : s.acked.Told body :=
  ⟨h.ledger.of_parts rfl rfl rfl, h.pend, fun hf => ⟨(h.fail hf).fail, (h.fail hf).slots,
    (h.fail hf).pend⟩⟩

/-- **An extent fetched is the committed map's.** -/
theorem Sound.onExtent {sha : Bytes → Digest} {bytes : Option Bytes} (h : s.Sound body N)
    (hj : s.job = .extent) (hb : ∀ b, bytes = some b → body (sha b) = b) :
    (s.acked.onExtent N sha bytes).Inv body N := by
  have hc : s.commit = .idle := by
    have := h.1.job
    unfold JobFits at this
    rwa [hj] at this
  unfold BlockVolume.onExtent
  dsimp only
  split
  · exact h.told.acked.failWith _
  next hok =>
  push Not at hok
  obtain ⟨hi, hst⟩ := hok
  change s.jobSlot < N at hi
  change (s.slots s.jobSlot).state = .fetching at hst
  cases bytes with
  | none => exact h.told.acked.failWith _
  | some b =>
    dsimp only
    split
    · exact h.told.acked.failWith _
    next hgood =>
    push Not at hgood
    obtain ⟨⟨hdig, hnz⟩, -⟩ := h.1.slots.fetch _ hi hst
    have hbody : body (s.slots s.jobSlot).digest = b := by
      rw [show (s.slots s.jobSlot).digest = sha b from hgood.2.symm]
      exact hb b rfl
    have hother (j : ℕ) (hjN : j < N) (hne : j ≠ s.jobSlot) : (s.slots j).state ≠ .fetching :=
      fun hf => hne (h.1.slots.fetch j hjN hf).2.2.symm
    have hslots : ((s.acked.setExt s.jobSlot fun j => b.getD j 0).setSlot s.jobSlot
        { s.slots s.jobSlot with state := .clean }).SlotsInv body N (s.now body) := by
      refine h.1.slots.refill (e := { s.slots s.jobSlot with state := .clean })
        (by rw [hst]; nofun) nofun
        (h.1.slots.inMap _ hi (by rw [hst]; nofun)) (fun j hjN hne hf heq => ?_) (fun _ j hjl => ?_)
        rfl rfl rfl rfl fun j hjN hf => ?_
      · exact hne (h.1.slots.uniq j hjN _ hi hf (by rw [hst]; nofun) heq)
      · rw [h.1.geo.committedImage_eq hjl, ← hdig]
        unfold extentByte
        rw [if_neg hnz, hbody]
      · by_cases hji : j = s.jobSlot
        · rw [hji, put_self] at hf
          cases hf
        · rw [put_of_ne hji] at hf
          exact absurd hf (hother j hjN hji)
    have hlive := h.1.refill hc hslots (put_slot_quiet (h.1.quiet hc) (h.1.quiet hc _ hi)) rfl rfl rfl
      rfl rfl rfl rfl (.of_none rfl)
    have hsound : ((s.acked.setExt s.jobSlot fun j => b.getD j 0).setSlot s.jobSlot
        { s.slots s.jobSlot with state := .clean }).Sound body N :=
      ⟨hlive, h.2.1.of_parts rfl rfl rfl, h.2.2⟩
    have htouch := hsound.of_core (touch_core (i := s.jobSlot))
    split
    · exact htouch.withFlags.inv
    · exact htouch.inv

end BlockVolume

end Loam

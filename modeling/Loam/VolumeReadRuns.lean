import Loam.VolumeRead
import Loam.Lib.Run

/-!
# What a volume read writes

What the file has, and then what is owed to it, is the window up to where the walk stands, at
every step and whatever the writes take (`VRead.Walking`). Each step that meets an answer it waits
for, or a write that takes something, brings the read on (`VRead.cost`), so that a read that meets
enough of them ends, and has written the window (`volume_read`).
-/

namespace Loam

open VRead

/-! ## The window -/

/-- The bytes of an image from one position to another. -/
def imageWindow (image : ℕ → UInt8) (a b : ℕ) : Bytes := (List.range' a (b - a)).map image

section Window

variable {image : ℕ → UInt8} {a b c : ℕ}

@[simp] theorem length_imageWindow : (imageWindow image a b).length = b - a := by
  simp [imageWindow]

@[simp] theorem imageWindow_self : imageWindow image a a = [] := by
  simp [imageWindow]

theorem imageWindow_append (hab : a ≤ b) (hbc : b ≤ c) :
    imageWindow image a b ++ imageWindow image b c = imageWindow image a c := by
  unfold imageWindow
  rw [← List.map_append]
  have hsplit : List.range' a (b - a) ++ List.range' (a + (b - a)) (c - b) =
      List.range' a (b - a + (c - b)) := List.range'_append_1
  rw [show a + (b - a) = b by omega, show b - a + (c - b) = c - a by omega] at hsplit
  rw [hsplit]

theorem imageWindow_eq {l : Bytes} (hlen : l.length = b - a)
    (h : ∀ i, i < b - a → l.getD i 0 = image (a + i)) : imageWindow image a b = l := by
  refine List.ext_getElem (by rw [length_imageWindow, hlen]) fun i hi hi' => ?_
  have hlt : i < b - a := by rwa [length_imageWindow] at hi
  have hi'' := h i hlt
  rw [List.getD_eq_getElem?_getD, List.getElem?_eq_getElem hi', Option.getD_some] at hi''
  simp only [imageWindow, List.getElem_map, List.getElem_range', one_mul]
  exact hi''.symm

end Window

/-! ## A committed map -/

/-- **A map that was committed**: its root page is there, every leaf it names is the leaf of its
place, and every extent it names has the bytes of its place. -/
structure CommittedMap (body : Digest → Bytes) (d : Digest) (root : RootPage) : Prop where
  decodes : decodeRoot (body d) = some root
  leaves : root.depth ≠ 1 → ∀ c cd, root.child c = some cd → cd ≠ Digest.zero →
    ∃ leaf, decodeLeaf (body cd) = some leaf ∧
      leafFits leaf c root.sizeBytes root.extentSize = true
  extents : ∀ i, i * root.extentSize < root.sizeBytes →
    mapDigest body root.sizeBytes root.extentSize root.depth
      (fun c => (root.child c).getD Digest.zero) i ≠ Digest.zero →
    min root.extentSize (root.sizeBytes - i * root.extentSize) ≤
      (body (mapDigest body root.sizeBytes root.extentSize root.depth
        (fun c => (root.child c).getD Digest.zero) i)).length

section Map

variable {body : Digest → Bytes} {d : Digest} {root : RootPage} {i : ℕ}

/-- The digest of an extent of the map. -/
def extentDigest (body : Digest → Bytes) (root : RootPage) (i : ℕ) : Digest :=
  mapDigest body root.sizeBytes root.extentSize root.depth
    (fun c => (root.child c).getD Digest.zero) i

theorem CommittedMap.extentSize_pos (h : CommittedMap body d root) :
    0 < root.extentSize ∧ root.extentSize ≤ maxBody := by
  obtain ⟨hdepth, -, -⟩ := BlockVolume.decodeRoot_geometry h.decodes
  obtain ⟨hpos, hmax, -, -⟩ := selectDepth_cases hdepth
  exact ⟨hpos, hmax⟩

theorem CommittedMap.exists_child (h : CommittedMap body d root)
    (hi : i * root.extentSize < root.sizeBytes) :
    ∃ cd, root.child (locate root.depth i).1 = some cd := by
  obtain ⟨hdepth, hcov, -⟩ := BlockVolume.decodeRoot_geometry h.decodes
  have hcount := (covers_childCount hdepth).mp hcov
  have hext : i < Loam.extents root.sizeBytes root.extentSize := by
    by_contra hge
    rw [Nat.not_lt, Loam.extents, ceilDiv_le_iff_le_mul h.extentSize_pos.1, Nat.mul_comm] at hge
    exact Nat.not_le.mpr hi hge
  have hplace := (locate_bijOn root.depth root.sizeBytes root.extentSize).mapsTo hext
  obtain ⟨cs, hcs, -⟩ := encodeRoot_of_decodeRoot h.decodes
  have hlen : cs.length = root.count := by
    unfold RootPage.count
    rw [← hcs, length_digestTable, Nat.mul_div_cancel _ (by decide)]
  have hlt : (locate root.depth i).1 < cs.length := by
    rw [hlen, hcount]
    exact hplace.1
  refine ⟨cs[(locate root.depth i).1], ?_⟩
  unfold RootPage.child
  rw [← hcs, digestAt_digestTable]
  exact List.getElem?_eq_getElem hlt

/-- What is under `off`: the extent, or its leaf when it is not in hand. -/
theorem CommittedMap.under_eq (h : CommittedMap body d root) {s : VRead}
    (hleaf : s.leaf.length ≠ 0 → ∃ cd, root.child s.leafChild = some cd ∧ cd ≠ Digest.zero ∧
      s.leaf = body cd)
    (hi : s.off / root.extentSize * root.extentSize < root.sizeBytes) :
    under root s = .extent (extentDigest body root (s.off / root.extentSize)) ∨
      root.depth ≠ 1 ∧
      (s.leaf.length = 0 ∨ s.leafChild ≠ (locate root.depth (s.off / root.extentSize)).1) ∧
      ∃ cd, root.child (locate root.depth (s.off / root.extentSize)).1 = some cd ∧
        cd ≠ Digest.zero ∧
        under root s = .leaf (locate root.depth (s.off / root.extentSize)).1 cd := by
  obtain ⟨cd, hcd⟩ := h.exists_child hi
  unfold under
  dsimp only
  rw [hcd]
  dsimp only
  by_cases hd : root.depth = 1
  · -- The root names the extents.
    refine .inl ?_
    rw [if_pos hd, extentDigest, mapDigest, if_pos hd]
    rw [hd, locate, if_pos rfl] at hcd
    rw [hcd]
    rfl
  · have hplace : locate root.depth (s.off / root.extentSize) =
        (s.off / root.extentSize / pageEntries, s.off / root.extentSize % pageEntries) :=
      locate_leaf _ hd
    rw [if_neg hd, extentDigest, mapDigest, if_neg hd]
    rw [hplace] at hcd ⊢
    dsimp only at hcd ⊢
    rw [hcd, Option.getD_some]
    by_cases hz : cd = Digest.zero
    · rw [if_pos hz, hz, leafDigest_zero]
      exact .inl rfl
    rw [if_neg hz]
    split
    · next hmiss => exact .inr ⟨hd, hmiss, cd, rfl, hz, rfl⟩
    next hhit =>
    rw [not_or, not_not] at hhit
    obtain ⟨cd', hcd', -, hbody⟩ := hleaf hhit.1
    rw [hhit.2, hcd] at hcd'
    cases hcd'
    obtain ⟨leaf, hdec, hfits⟩ := h.leaves hd _ cd hcd hz
    refine .inl ?_
    rw [hbody, hdec, leafDigest, if_neg hz, hdec]
    dsimp only
    rw [if_pos hfits]

/-- The byte at a position of the extent it is in. -/
theorem CommittedMap.mapImage_eq (h : CommittedMap body d root) (pos : ℕ) :
    mapImage body d pos =
      extentByte body (extentDigest body root (pos / root.extentSize)) (pos % root.extentSize) := by
  unfold mapImage
  rw [h.decodes]
  rfl

end Map
/-- The node has the volume. -/
structure Bound (node : VolumeNode) (d : Digest) : Prop where
  oid : ∃ oid, node.binding = some (kindVolume, oid) ∧ oidDigest oid = some d

/-- **A window of a volume**: the path is bound to a committed map that has it. -/
structure VolumeWindow where
  node : VolumeNode
  d : Digest
  root : RootPage
  first : ℕ
  stop : ℕ
  map : CommittedMap node.body d root
  bound : Bound node d
  first_le : first ≤ stop
  stop_le : stop ≤ root.sizeBytes

/-- The window up to a position. -/
def VolumeWindow.upTo (W : VolumeWindow) (b : ℕ) : Bytes :=
  imageWindow (mapImage W.node.body W.d) W.first b

/-- An answer is owed at these phases. -/
def VPhase.waits : VPhase → Bool
  | .lookup | .root | .leaf | .extent => true
  | .create | .walk | .sync | .name => false

/-- How many things a read waits for at a position, at most, from a phase on. -/
def VPhase.left : VPhase → ℕ
  | .lookup => 5
  | .create => 4
  | .root => 3
  | .walk | .leaf | .sync => 2
  | .extent | .name => 1

namespace VRead

variable {W : VolumeWindow} {ok ok' : Prop} {b b' fuel : ℕ} {s : VRead} {t : VTurn}
  {ws writes : List Wrote}

/-! ## What is owed to the file -/

/-- What is owed to the file: the bytes staged, and the zeros after them. -/
def owed (s : VRead) : Bytes := s.buf.drop s.wrAt ++ List.replicate s.zeroLeft 0

theorem drained_iff : s.drained = true ↔ s.owed = [] := by
  simp [drained, owed, List.drop_eq_nil_iff]

theorem owed_refill : s.refill.owed = s.owed := by
  unfold refill owed
  split
  · next hspent =>
    dsimp only
    rw [List.drop_eq_nil_iff.mpr hspent, List.nil_append, List.drop_zero,
      List.replicate_append_replicate]
    congr 1
    split <;> omega
  · rfl

/-- Once it is refilled something is staged, if anything is owed. -/
theorem staged_refill (h : s.owed ≠ []) : s.refill.buf.drop s.refill.wrAt ≠ [] := by
  unfold refill
  split
  · next hspent =>
    have hzero : s.zeroLeft ≠ 0 := fun hz =>
      h (drained_iff.mp (by simp [drained, hspent, hz]))
    have hmax : 0 < maxBody := by decide
    dsimp only
    rw [List.drop_zero]
    refine List.ne_nil_of_length_pos ?_
    rw [List.length_replicate]
    split <;> omega
  · next hleft => exact fun hc => hleft (List.drop_eq_nil_iff.mp hc)

/-- A write that is not taken and does not wait. -/
def Fails (w : Wrote) : Prop := w = .failed ∨ w = .took 0

/-- The first write does not wait. -/
def stirs (writes : List Wrote) : Bool := writes.head?.any fun w => decide (w ≠ .pending)

/-- **What a drain does**: what the file has and is owed stays what it was, and nothing else
changes. -/
structure Drained (writes : List Wrote) (s : VRead) (r : Io × VRead × List Wrote) : Prop where
  frame : ∃ b k z f, r.2.1 = { s with buf := b, wrAt := k, zeroLeft := z, file := f }
  told : r.2.1.file ++ r.2.1.owed = s.file ++ s.owed
  done : r.1 = .done ↔ r.2.1.owed = []
  failed : r.1 = .failed → ∃ w ∈ writes, Fails w
  left : ∀ w ∈ r.2.2, w ∈ writes
  owed_le : r.2.1.owed.length ≤ s.owed.length
  /-- And less, where the first write takes something. -/
  owed_lt : s.owed ≠ [] → stirs writes = true → r.1 ≠ .failed → r.2.1.owed.length < s.owed.length

theorem frame_refill (s : VRead) :
    ∃ b k z, s.refill = { s with buf := b, wrAt := k, zeroLeft := z } := by
  unfold refill
  split
  · exact ⟨_, _, _, rfl⟩
  · exact ⟨s.buf, s.wrAt, s.zeroLeft, rfl⟩

theorem Drained.stops {io : Io} (ho : s.owed ≠ []) (hio : io ≠ .done)
    (hfail : io = .failed → ∃ w ∈ writes, Fails w) (hws : ∀ w ∈ ws, w ∈ writes)
    (hstirs : stirs writes = true → io = .failed) : Drained writes s (io, s.refill, ws) := by
  obtain ⟨b, k, z, hframe⟩ := frame_refill s
  have hfile : s.refill.file = s.file := by rw [hframe]
  refine ⟨⟨b, k, z, s.file, hframe⟩, ?_, ?_, hfail, hws, Nat.le_of_eq (congrArg _ owed_refill),
    fun _ hw hne => absurd (hstirs hw) hne⟩
  · show s.refill.file ++ s.refill.owed = _
    rw [hfile, owed_refill]
  · show io = .done ↔ s.refill.owed = []
    rw [owed_refill]
    exact iff_of_false hio ho

theorem Drained.nothing (h : s.drained = true) (writes : List Wrote) :
    Drained writes s (.done, { s with buf := [], wrAt := 0 }, writes) := by
  have ho := drained_iff.mp h
  have ho' : ({ s with buf := [], wrAt := 0 } : VRead).owed = [] := by
    rw [drained, Bool.and_eq_true, decide_eq_true_eq, decide_eq_true_eq] at h
    simp [owed, h.2]
  refine ⟨⟨[], 0, s.zeroLeft, s.file, rfl⟩, ?_, iff_of_true rfl ho', Io.noConfusion,
    fun w hw => hw, ?_, fun hc => absurd ho hc⟩
  · rw [ho, ho']
  · rw [ho, ho']

theorem took_spec (n : ℕ) (s : VRead) :
    (s.took n).file ++ (s.took n).owed = s.file ++ s.owed ∧
      (s.took n).owed.length + min n (s.buf.drop s.wrAt).length = s.owed.length := by
  unfold took owed
  dsimp only
  rw [← List.drop_drop]
  generalize s.buf.drop s.wrAt = b
  refine ⟨?_, ?_⟩
  · rw [List.append_assoc, ← List.append_assoc (b.take _), List.take_append_drop]
  · rw [List.length_append, List.length_append, List.length_drop]
    omega

theorem drain_spec (writes : List Wrote) (s : VRead) : Drained writes s (drain writes s) := by
  induction writes generalizing s with
  | nil =>
    unfold drain
    split
    · next hd => exact .nothing hd []
    next hd =>
    exact .stops (hd ∘ drained_iff.mpr) (by decide) Io.noConfusion (fun w hw => hw)
      Bool.noConfusion
  | cons w writes ih =>
    unfold drain
    split
    · next hd => exact .nothing hd _
    next hd =>
    have ho : s.owed ≠ [] := hd ∘ drained_iff.mpr
    have hws : ∀ w' ∈ writes, w' ∈ w :: writes := fun w' hw => List.mem_cons_of_mem w hw
    cases w with
    | pending => exact .stops ho (by decide) Io.noConfusion hws Bool.noConfusion
    | failed =>
      exact .stops ho (by decide) (fun _ => ⟨.failed, List.mem_cons_self, .inl rfl⟩) hws
        fun _ => rfl
    | took n =>
      dsimp only
      split
      · next hzero =>
        subst hzero
        exact .stops ho (by decide) (fun _ => ⟨.took 0, List.mem_cons_self, .inr rfl⟩) hws
          fun _ => rfl
      next hpos =>
      -- The file takes some of what is staged, and the rest is as what follows says.
      obtain ⟨b, k, z, hframe⟩ := frame_refill s
      have hstaged := List.length_pos_iff.mpr (staged_refill ho)
      obtain ⟨htook, hlen⟩ := took_spec n s.refill
      rw [owed_refill] at htook hlen
      have hrest := ih (s.refill.took n)
      have hle := hrest.owed_le
      have hfile : s.refill.file = s.file := by rw [hframe]
      have hless : (drain writes (s.refill.took n)).2.1.owed.length < s.owed.length := by omega
      refine ⟨?_, ?_, hrest.done, fun h => ?_, fun w hw => hws w (hrest.left w hw),
        Nat.le_of_lt hless, fun _ _ _ => hless⟩
      · obtain ⟨b', k', z', f', hfr⟩ := hrest.frame
        refine ⟨b', k', z', f', hfr.trans ?_⟩
        rw [took, hframe]
      · rw [hrest.told, htook, hfile]
      · obtain ⟨w, hw, hf⟩ := hrest.failed h
        exact ⟨w, hws w hw, hf⟩

/-! ## Where a read can stand -/

/-- Nothing a step meets fails. -/
structure Works (t : VTurn) : Prop where
  reply : ∀ r ∈ t.reply, r = .found
  create : t.create ≠ .failed
  writes : ∀ w ∈ t.writes, ¬ Fails w
  sync : t.sync ≠ .failed
  name : t.name ≠ .failed

/-- **The walk stands at `off`**: the file has the window up to there, but for what is owed. -/
structure Walking (W : VolumeWindow) (s : VRead) : Prop where
  size : s.size = W.stop
  off : W.first ≤ s.off ∧ s.off ≤ W.stop
  leaf : s.leaf.length ≠ 0 → ∃ cd, W.root.child s.leafChild = some cd ∧ cd ≠ Digest.zero ∧
    s.leaf = W.node.body cd
  told : s.file ++ s.owed = W.upTo s.off
  running : s.ended = none

/-- What is so at a phase, but for where the walk stands. -/
def At (W : VolumeWindow) (s : VRead) : VPhase → Prop
  | .lookup => s.owed = []
  | .create => s.owed = [] ∧ s.entry = W.d
  | .root => s.owed = [] ∧ s.wanted = W.d
  | .walk => s.owed ≠ [] ∧ s.page = W.node.body W.d
  | .leaf => s.owed = [] ∧ s.page = W.node.body W.d ∧ s.off < W.stop ∧ W.root.depth ≠ 1 ∧
      s.leafChild = (locate W.root.depth (s.off / W.root.extentSize)).1 ∧
      W.root.child s.leafChild = some s.wanted ∧ s.wanted ≠ Digest.zero
  | .extent => s.owed = [] ∧ s.page = W.node.body W.d ∧ s.off < W.stop ∧
      s.wanted = extentDigest W.node.body W.root (s.off / W.root.extentSize) ∧
      s.wanted ≠ Digest.zero
  | .sync | .name => s.owed = [] ∧ s.off = W.stop

/-- **Where a read can stand** that has not ended. -/
structure Stage (W : VolumeWindow) (s : VRead) : Prop where
  walking : Walking W s
  waits : s.waiting = s.phase.waits
  stands : At W s s.phase

/-- How far a read is from its end. -/
def cost (s : VRead) : ℕ := 3 * (s.size - s.off) + s.owed.length + s.phase.left

/-- **What a step comes to**: the window is written, or something failed, or the read stands
somewhere, so far from its end. -/
def After (W : VolumeWindow) (ok : Prop) (b : ℕ) (r : VRead) : Prop :=
  (r.ended = some true ∧ r.file = W.upTo W.stop) ∨
    (r.ended = some false ∧ r.file <+: W.upTo W.stop ∧ ¬ ok) ∨ (Stage W r ∧ r.cost ≤ b)

theorem After.mono (h : After W ok b s) (hle : b ≤ b') : After W ok b' s :=
  h.imp_right (Or.imp_right fun h => ⟨h.1, h.2.trans hle⟩)

theorem Walking.file_front (h : Walking W s) : s.file <+: W.upTo W.stop := by
  rw [VolumeWindow.upTo, ← imageWindow_append h.off.1 h.off.2, ← VolumeWindow.upTo, ← h.told,
    List.append_assoc]
  exact List.prefix_append _ _

theorem Walking.fails (h : Walking W s) (hok : ¬ ok) : After W ok b (s.finish false) :=
  .inr (.inl ⟨rfl, h.file_front, hok⟩)

/-- A read that stands, so far from its end. -/
theorem Walking.stands (h : Walking W s) (hw : s.waiting = s.phase.waits)
    (hat : At W s s.phase) (hb : 3 * (W.stop - s.off) + s.owed.length + s.phase.left ≤ b) :
    After W ok b s :=
  .inr (.inr ⟨⟨h, hw, hat⟩, by rw [cost, h.size]; exact hb⟩)

/-- The end of the walk: the file's name is fenced. -/
theorem Walking.fenceName (h : Walking W s) (hp : s.phase = .name) (hwait : s.waiting = false)
    (ho : s.owed = []) (hoff : s.off = W.stop) :
    After W (Works t) (1 - (t.name == .done).toNat) (s.fenceName t) := by
  unfold VRead.fenceName
  cases hn : t.name with
  | done =>
    have htold := h.told
    rw [ho, List.append_nil, hoff] at htold
    exact .inl ⟨rfl, htold⟩
  | pending =>
    refine h.stands (by rw [hp]; exact hwait) (by rw [hp]; exact ⟨ho, hoff⟩) ?_
    rw [ho, hoff, hp, Nat.sub_self]
    exact Nat.le_refl 1
  | failed => exact h.fails fun hw => hw.name hn

theorem Walking.fence (h : Walking W s) (hp : s.phase = .sync) (hwait : s.waiting = false)
    (ho : s.owed = []) (hoff : s.off = W.stop) :
    After W (Works t) (2 - (t.sync == .done).toNat) (s.fence t) := by
  unfold VRead.fence
  cases hn : t.sync with
  | done =>
    have hs : Walking W { s with phase := .name } := ⟨h.size, h.off, h.leaf, h.told, h.running⟩
    exact (hs.fenceName rfl hwait ho hoff).mono (Nat.sub_le 1 _)
  | pending =>
    refine h.stands (by rw [hp]; exact hwait) (by rw [hp]; exact ⟨ho, hoff⟩) ?_
    rw [ho, hoff, hp, Nat.sub_self]
    exact Nat.le_refl 2
  | failed => exact h.fails fun hw => hw.sync hn

/-! ## The walk -/

/-- The part of the window that is in the extent under `off`. -/
theorem Walking.partEnd_spec (h : Walking W s) (hlt : s.off < W.stop) :
    s.off / W.root.extentSize * W.root.extentSize ≤ s.off ∧ s.off < s.partEnd W.root.extentSize ∧
      s.partEnd W.root.extentSize ≤ W.stop ∧ s.partEnd W.root.extentSize ≤
        s.off / W.root.extentSize * W.root.extentSize + W.root.extentSize := by
  have hle := Nat.div_mul_le_self s.off W.root.extentSize
  have hmod := Nat.lt_div_mul_add (a := s.off) W.map.extentSize_pos.1
  have hsize := h.size
  unfold partEnd
  omega

/-- The extent under `off` is in the volume. -/
theorem Walking.inside (hlt : s.off < W.stop) :
    s.off / W.root.extentSize * W.root.extentSize < W.root.sizeBytes :=
  ((Nat.div_mul_le_self _ _).trans_lt hlt).trans_le W.stop_le

/-- What the image has in that part is told, and the walk passes it. -/
theorem Walking.part (h : Walking W s) (ho : s.owed = []) (hlt : s.off < W.stop) {l : Bytes}
    (hlen : l.length = s.partEnd W.root.extentSize - s.off)
    (hl : ∀ i, i < s.partEnd W.root.extentSize - s.off → l.getD i 0 =
      extentByte W.node.body (extentDigest W.node.body W.root (s.off / W.root.extentSize))
        (s.off - s.off / W.root.extentSize * W.root.extentSize + i)) {s' : VRead}
    (hs' : ∃ buf k z p, s' = { s with
      buf := buf, wrAt := k, zeroLeft := z, phase := p, off := s.partEnd W.root.extentSize })
    (howed : s'.owed = l) : Walking W s' := by
  obtain ⟨hle, hpart, hpartle, hend⟩ := h.partEnd_spec hlt
  have htold := h.told
  rw [ho, List.append_nil] at htold
  have himage : imageWindow (mapImage W.node.body W.d) s.off (s.partEnd W.root.extentSize) = l := by
    refine imageWindow_eq hlen fun i hi => ?_
    have hdiv : (s.off + i) / W.root.extentSize = s.off / W.root.extentSize := by
      refine Nat.div_eq_of_lt_le (by omega) ?_
      rw [Nat.succ_mul]
      omega
    have hmod : (s.off + i) % W.root.extentSize =
        s.off - s.off / W.root.extentSize * W.root.extentSize + i := by
      have hsplit := Nat.div_add_mod' (s.off + i) W.root.extentSize
      rw [hdiv] at hsplit
      omega
    rw [hl i hi, W.map.mapImage_eq, hdiv, hmod]
  have htold' : s.file ++ s'.owed = W.upTo (s.partEnd W.root.extentSize) := by
    rw [howed, htold, VolumeWindow.upTo, VolumeWindow.upTo, ← himage]
    exact imageWindow_append h.off.1 (Nat.le_of_lt hpart)
  obtain ⟨buf, k, z, p, rfl⟩ := hs'
  exact ⟨h.size, ⟨h.off.1.trans (Nat.le_of_lt hpart), hpartle⟩, h.leaf, htold', h.running⟩

/-- What the walk asks for next is not a leaf. -/
def NoLeaf (root : RootPage) (s : VRead) : Prop := ∀ c cd, under root s ≠ .leaf c cd

/-- **What is owed goes to the file, and then** what follows. -/
theorem Walking.drains (h : Walking W s) (hp : s.phase = .walk) (hwait : s.waiting = false)
    (hwrites : ∀ w ∈ writes, w ∈ t.writes) (next : List Wrote → VRead → VRead)
    (hb : (drain writes s).1 ≠ .failed →
      3 * (W.stop - s.off) + (drain writes s).2.1.owed.length + 2 ≤ b)
    (hnext : ∀ s' ws, Walking W s' → s'.phase = .walk → s'.waiting = false → s'.owed = [] →
      s'.off = s.off → s'.page = s.page → (∀ w ∈ ws, w ∈ t.writes) →
      3 * (W.stop - s.off) + 2 ≤ b → After W (Works t) b (next ws s'))
    (hpage : s.page = W.node.body W.d) :
    After W (Works t) b (match drain writes s with
      | (.done, s, writes) => next writes s
      | (.pending, s, _) => s
      | (.failed, s, _) => s.finish false) := by
  have hd := drain_spec writes s
  generalize drain writes s = r at hd hb
  obtain ⟨io, s', ws⟩ := r
  obtain ⟨k, n, z, f, rfl⟩ :
    ∃ b k z f, s' = { s with buf := b, wrAt := k, zeroLeft := z, file := f } := hd.frame
  have hwalk : Walking W { s with buf := k, wrAt := n, zeroLeft := z, file := f } :=
    ⟨h.size, h.off, h.leaf, hd.told.trans h.told, h.running⟩
  cases io with
  | done =>
    have ho := hd.done.mp rfl
    have hb' := hb Io.noConfusion
    dsimp only at ho hb'
    rw [ho] at hb'
    exact hnext _ ws hwalk hp hwait ho rfl rfl (fun w hw => hwrites w (hd.left w hw)) hb'
  | pending =>
    refine hwalk.stands ?_ ?_ ?_
    · show s.waiting = s.phase.waits
      rw [hp]
      exact hwait
    · show At W _ s.phase
      rw [hp]
      exact ⟨fun hc => Io.noConfusion (hd.done.mpr hc), hpage⟩
    · show _ + _ + s.phase.left ≤ b
      rw [hp]
      exact hb Io.noConfusion
  | failed =>
    obtain ⟨w, hw, hf⟩ := hd.failed rfl
    exact hwalk.fails fun hworks => hworks.writes w (hwrites w hw) hf

/-- **The walk goes on from where nothing is owed**, and asks for no leaf it has. -/
theorem Walking.walk (h : Walking W s) (hpage : s.page = W.node.body W.d)
    (hwait : s.waiting = false) (ho : s.owed = []) (hf : W.stop - s.off < fuel)
    (hwrites : ∀ w ∈ writes, w ∈ t.writes)
    (hb : 3 * (W.stop - s.off) + 2 ≤ b ∨
      3 * (W.stop - s.off) + 1 ≤ b ∧ s.off < W.stop ∧ NoLeaf W.root s) :
    After W (Works t) b (VRead.walk W.root t fuel writes s) := by
  induction fuel generalizing s writes b with
  | zero => exact absurd hf (Nat.not_lt_zero _)
  | succ fuel ih =>
    rw [VRead.walk]
    split
    swap
    · next hend =>
      -- The window is walked.
      have hoff : s.off = W.stop := Nat.le_antisymm h.off.2 (h.size ▸ Nat.not_lt.mp hend)
      have hs : Walking W { s with phase := .sync } := ⟨h.size, h.off, h.leaf, h.told, h.running⟩
      refine (hs.fence rfl hwait ho hoff).mono ((Nat.sub_le 2 _).trans ?_)
      obtain hb | hb := hb <;> omega
    next hlt =>
    rw [h.size] at hlt
    obtain ⟨-, hpart, hpartle, -⟩ := h.partEnd_spec hlt
    obtain hunder | ⟨hd, -, cd, hcd, hz, hunder⟩ := W.map.under_eq h.leaf (Walking.inside hlt)
    swap
    · -- Its leaf is asked for.
      rw [hunder]
      have hb' := hb.resolve_right fun hb => hb.2.2 _ _ hunder
      refine Walking.stands ⟨h.size, h.off, fun hc => absurd rfl hc, h.told, h.running⟩ rfl
        ⟨ho, hpage, hlt, hd, rfl, hcd, hz⟩ ?_
      show 3 * (W.stop - s.off) + s.owed.length + 2 ≤ b
      rw [ho]
      exact hb'
    rw [hunder]
    dsimp only
    split
    swap
    · next hz =>
      -- The extent is asked for.
      refine Walking.stands ⟨h.size, h.off, h.leaf, h.told, h.running⟩ rfl
        ⟨ho, hpage, hlt, rfl, hz⟩ ?_
      show 3 * (W.stop - s.off) + s.owed.length + 1 ≤ b
      rw [ho, List.length_nil]
      obtain hb | hb := hb <;> omega
    next hz =>
    -- It is zeros: they are owed, and what the file does not take waits.
    have howed : ({ s with
        zeroLeft := s.partEnd W.root.extentSize - s.off
        off := s.partEnd W.root.extentSize
        phase := .walk } : VRead).owed =
          List.replicate (s.partEnd W.root.extentSize - s.off) 0 := by
      rw [owed]
      dsimp only
      rw [(List.append_eq_nil_iff.mp ho).1, List.nil_append]
    have hwalk := h.part ho hlt List.length_replicate (fun i hi => by
      rw [hz, extentByte_zero, List.getD_eq_getElem?_getD, List.getElem?_replicate, if_pos hi]
      rfl) ⟨s.buf, s.wrAt, _, .walk, rfl⟩ howed
    have hle := (drain_spec writes { s with
      zeroLeft := s.partEnd W.root.extentSize - s.off
      off := s.partEnd W.root.extentSize
      phase := .walk }).owed_le
    rw [howed, List.length_replicate] at hle
    refine hwalk.drains rfl hwait hwrites (VRead.walk W.root t fuel) (fun _ => ?_)
      (fun s' ws h' _ hw' ho' hoff' hpage' hws hb' => ih h' (hpage'.trans hpage) hw' ho' ?_ hws
        (.inl (hoff' ▸ hb'))) hpage
    · show 3 * (W.stop - s.partEnd W.root.extentSize) + _ + 2 ≤ b
      obtain hb | hb := hb <;> omega
    · rw [hoff']
      show W.stop - s.partEnd W.root.extentSize < fuel
      omega

/-- **What is owed goes to the file, and the walk goes on.** -/
theorem Walking.goOn (h : Walking W s) (hpage : s.page = W.node.body W.d) (hp : s.phase = .walk)
    (hwait : s.waiting = false)
    (hb : (VRead.drain t.writes s).1 ≠ .failed →
      3 * (W.stop - s.off) + (VRead.drain t.writes s).2.1.owed.length + 2 ≤ b) :
    After W (Works t) b (s.goOn W.root t) :=
  h.drains hp hwait (fun _ hw => hw) (fun ws s => VRead.walk W.root t (s.size - s.off + 1) ws s) hb
    (fun s' ws h' _ hw' ho' hoff' hpage' hws hb' =>
      h'.walk (hpage'.trans hpage) hw' ho' (by rw [h'.size]; exact Nat.lt_succ_self _) hws
        (.inl (hoff' ▸ hb'))) hpage

/-- With nothing owed it just goes on. -/
theorem Walking.goOn_of_drained (h : Walking W s) (hpage : s.page = W.node.body W.d)
    (hwait : s.waiting = false) (ho : s.owed = []) (hlt : s.off < W.stop)
    (hno : NoLeaf W.root s) : After W (Works t) (3 * (W.stop - s.off) + 1) (s.goOn W.root t) := by
  have hd := drained_iff.mpr ho
  have hs := Drained.nothing hd t.writes
  have hgo : s.goOn W.root t = VRead.walk W.root t (s.size - s.off + 1) t.writes
      { s with buf := [], wrAt := 0 } := by
    rw [VRead.goOn, drain, if_pos hd]
  rw [hgo]
  refine Walking.walk ⟨h.size, h.off, h.leaf, hs.told.trans h.told, h.running⟩ hpage hwait
    (hs.done.mp rfl) ?_ (fun _ hw => hw) (.inr ⟨Nat.le_refl _, hlt, hno⟩)
  show W.stop - s.off < s.size - s.off + 1
  rw [h.size]
  exact Nat.lt_succ_self _

/-! ## What arrives -/

theorem Walking.arrived_leaf (h : Walking W s) (hp : s.phase = .leaf) (hwait : s.waiting = false)
    (hat : At W s .leaf) :
    After W (Works t) (3 * (W.stop - s.off) + 1)
      (s.arrived W.root (W.node.body s.wanted) t) := by
  obtain ⟨ho, hpage, hlt, hd, hchild, hcd, hz⟩ := hat
  have hwalk : Walking W { s with leaf := W.node.body s.wanted, phase := .walk } :=
    ⟨h.size, h.off, fun _ => ⟨s.wanted, hcd, hz, rfl⟩, h.told, h.running⟩
  unfold arrived
  rw [hp]
  refine hwalk.goOn_of_drained hpage hwait ho hlt fun c cd hc => ?_
  -- It has the leaf it asks of.
  obtain hunder | ⟨-, hmiss, -⟩ := W.map.under_eq hwalk.leaf (Walking.inside hlt)
  · rw [hunder] at hc
    cases hc
  · obtain hempty | hother := hmiss
    · obtain ⟨leaf, hdec, -⟩ := W.map.leaves hd _ _ hcd hz
      have hempty' : (W.node.body s.wanted).length = 0 := hempty
      rw [decodeLeaf, if_neg (fun hc => by omega)] at hdec
      cases hdec
    · exact hother hchild

theorem Walking.arrived_extent (h : Walking W s) (hp : s.phase = .extent)
    (hwait : s.waiting = false) (hat : At W s .extent) :
    After W (Works t) (3 * (W.stop - s.off)) (s.arrived W.root (W.node.body s.wanted) t) := by
  obtain ⟨ho, hpage, hlt, hwanted, hz⟩ := hat
  obtain ⟨hle, hpart, hpartle, hend⟩ := h.partEnd_spec hlt
  have hmax := W.map.extentSize_pos.2
  have hbody : min W.root.extentSize
      (W.root.sizeBytes - s.off / W.root.extentSize * W.root.extentSize) ≤
        (W.node.body s.wanted).length := by
    rw [hwanted] at hz ⊢
    exact W.map.extents _ (Walking.inside hlt) hz
  have hsize := h.size
  have hstop := W.stop_le
  have hpartEnd : s.partEnd W.root.extentSize = s.off / W.root.extentSize * W.root.extentSize +
    min (s.size - s.off / W.root.extentSize * W.root.extentSize) W.root.extentSize := rfl
  set start := s.off - s.off / W.root.extentSize * W.root.extentSize with hstart
  set upTo := min (s.size - s.off / W.root.extentSize * W.root.extentSize) W.root.extentSize
    with hupTo
  set part := ((W.node.body s.wanted).drop start).take (upTo - start) with hpartdef
  set s' : VRead :=
    { s with
      buf := part, wrAt := 0, phase := .walk
      off := s.partEnd W.root.extentSize } with hs'
  have hs : s.arrived W.root (W.node.body s.wanted) t = s'.goOn W.root t := by
    unfold arrived
    rw [hp]
    dsimp only
    rw [if_neg (by omega), if_neg (by omega)]
  have hlen : part.length = s.partEnd W.root.extentSize - s.off := by
    rw [hpartdef, List.length_take, List.length_drop]
    omega
  have howed : s'.owed = part := by
    have hzeros := List.length_eq_zero_iff.mpr (List.append_eq_nil_iff.mp ho).2
    rw [List.length_replicate] at hzeros
    rw [hs', owed]
    dsimp only
    rw [hzeros, List.drop_zero]
    exact List.append_nil _
  have hwalk := h.part ho hlt hlen (fun i hi => by
    rw [← hwanted, extentByte, if_neg hz, hpartdef, List.getD_eq_getElem?_getD,
      List.getD_eq_getElem?_getD, List.getElem?_take_of_lt (by omega), List.getElem?_drop])
    ⟨part, 0, s.zeroLeft, .walk, rfl⟩ howed
  have hdrain := (drain_spec t.writes s').owed_le
  rw [howed, hlen] at hdrain
  rw [hs]
  refine hwalk.goOn hpage rfl hwait fun _ => ?_
  show 3 * (W.stop - s.partEnd W.root.extentSize) + (drain t.writes s').2.1.owed.length + 2 ≤ _
  omega

theorem Walking.rootArrived (h : Walking W s) (hwait : s.waiting = false) (ho : s.owed = []) :
    After W (Works t) (3 * (W.stop - s.off) + 2) (s.rootArrived (W.node.body W.d) t) := by
  set s' : VRead := { s with page := W.node.body W.d, leaf := [], phase := .walk } with hs'
  have hs : s.rootArrived (W.node.body W.d) t = s'.goOn W.root t := by
    unfold VRead.rootArrived next
    dsimp only
    rw [W.map.decodes]
    exact if_pos (h.size ▸ W.stop_le)
  have hwalk : Walking W s' := ⟨h.size, h.off, fun hc => absurd rfl hc, h.told, h.running⟩
  have ho' : s'.owed = [] := ho
  have hdrain := (drain_spec t.writes s').owed_le
  rw [ho'] at hdrain
  rw [hs]
  refine hwalk.goOn rfl rfl hwait fun _ => ?_
  rw [Nat.le_zero.mp hdrain]

theorem Walking.created (h : Walking W s) (hp : s.phase = .create) (hwait : s.waiting = false)
    (ho : s.owed = []) (he : s.entry = W.d) :
    After W (Works t) (3 * (W.stop - s.off) + 4 - (t.create == .done).toNat) (s.created t) := by
  unfold VRead.created
  cases hc : t.create with
  | pending =>
    refine h.stands (by rw [hp]; exact hwait) (by rw [hp]; exact ⟨ho, he⟩) ?_
    rw [ho, hp]
    exact Nat.le_refl _
  | failed => exact h.fails fun hw => hw.create hc
  | done =>
    refine Walking.stands ⟨h.size, h.off, h.leaf, h.told, h.running⟩ rfl ⟨ho, he⟩ ?_
    show 3 * (W.stop - s.off) + s.owed.length + 3 ≤ _
    rw [ho]
    exact Nat.le_refl _

/-! ## A step -/

/-- **What was waited for has come.** -/
theorem Walking.answered (h : Walking W s) (hwait : s.waiting = false)
    (hwaits : s.phase.waits = true) (hat : At W s s.phase) :
    After W (Works t) (s.cost - 1) (VRead.answered W.node t s) := by
  have hnext : s.page = W.node.body W.d → s.next (some (W.node.body s.wanted)) t =
      s.arrived W.root (W.node.body s.wanted) t := fun hpage => by
    rw [next, hpage, W.map.decodes]
  rw [cost, h.size]
  unfold VRead.answered
  cases hp : s.phase with
  | lookup =>
    obtain ⟨oid, hoid, hd⟩ := W.bound.oid
    rw [hp] at hat
    have ho : s.owed = [] := hat
    have hcreate : Walking W { s with entry := W.d, phase := .create } :=
      ⟨h.size, h.off, h.leaf, h.told, h.running⟩
    dsimp only
    unfold lookedUp
    rw [hoid]
    dsimp only
    rw [if_pos rfl, hd, ho]
    exact (hcreate.created rfl hwait ho rfl).mono (Nat.sub_le _ _)
  | root =>
    rw [hp] at hat
    dsimp only
    rw [hat.1, hat.2]
    exact h.rootArrived hwait hat.1
  | leaf =>
    rw [hp] at hat
    dsimp only
    rw [hat.1, hnext hat.2.1]
    exact h.arrived_leaf hp hwait hat
  | extent =>
    rw [hp] at hat
    dsimp only
    rw [hat.1, hnext hat.2.1]
    exact h.arrived_extent hp hwait hat
  | create | walk | sync | name =>
    rw [hp] at hwaits
    cases hwaits

/-- The step meets what the read waits for. -/
def moves (s : VRead) (t : VTurn) : Bool :=
  if s.waiting then t.reply.isSome
  else
    match s.phase with
    | .create => t.create == .done
    | .sync => t.sync == .done
    | .name => t.name == .done
    | _ => stirs t.writes

/-- **A step**: the read is no further from its end, and nearer where it meets what it waits
for. -/
theorem Stage.step (h : Stage W s) (t : VTurn) :
    After W (Works t) (s.cost - (moves s t).toNat) (VRead.step W.node s t) := by
  have hrun := h.walking.running
  have hsize := h.walking.size
  have hat := h.stands
  have hwaits := h.waits
  unfold VRead.step moves
  rw [hrun]
  rw [if_neg (by decide : ¬ (none : Option Bool).isSome = true)]
  cases hw : s.waiting with
  | true =>
    rw [if_pos rfl, if_pos rfl]
    have hfails : ∀ r, t.reply = some r → r ≠ .found → ∀ b,
        After W (Works t) b ({ s with waiting := false }.finish false) := fun r hr hne b =>
      .inr (.inl ⟨rfl, h.walking.file_front, fun hworks => hne (hworks.reply r hr)⟩)
    cases hr : t.reply with
    | none => exact .inr (.inr ⟨h, Nat.le_refl _⟩)
    | some r =>
      cases r with
      | found =>
        exact Walking.answered ⟨hsize, h.walking.off, h.walking.leaf, h.walking.told, rfl⟩ rfl
          (hwaits.symm.trans hw) hat
      | refused => exact hfails _ hr (by decide) _
      | garbled => exact hfails _ hr (by decide) _
  | false =>
    rw [if_neg Bool.false_ne_true, if_neg Bool.false_ne_true, cost, hsize]
    cases hp : s.phase with
    | create =>
      rw [hp] at hat
      rw [hat.1]
      exact h.walking.created hp hw hat.1 hat.2
    | walk =>
      rw [hp] at hat
      have hnext : s.next none t = s.goOn W.root t := by
        rw [next, hat.2, W.map.decodes]
      dsimp only
      rw [hnext]
      have hdrain := drain_spec t.writes s
      refine h.walking.goOn hat.2 hp hw fun hne => ?_
      show _ ≤ 3 * (W.stop - s.off) + s.owed.length + 2 - _
      cases hs : stirs t.writes with
      | false =>
        have hle := hdrain.owed_le
        exact Nat.add_le_add_right (Nat.add_le_add_left hle _) 2
      | true =>
        have hlt := hdrain.owed_lt hat.1 hs hne
        show _ ≤ _ - 1
        omega
    | sync =>
      rw [hp] at hat
      rw [hat.1, hat.2, Nat.sub_self]
      exact h.walking.fence hp hw hat.1 hat.2
    | name =>
      rw [hp] at hat
      rw [hat.1, hat.2, Nat.sub_self]
      exact h.walking.fenceName hp hw hat.1 hat.2
    | lookup | root | leaf | extent =>
      rw [hw, hp] at hwaits
      cases hwaits

/-! ## Every run -/

/-- **A read of a window.** -/
structure Reads (node : VolumeNode) (d : Digest) (first len : ℕ) (ts : List VTurn) : Prop where
  front : ((begin first len).run node ts).file <+:
    imageWindow (mapImage node.body d) first (first + len)
  /-- A read that says it has ended well has written it, byte for byte. -/
  whole : ((begin first len).run node ts).ended = some true →
    ((begin first len).run node ts).file = imageWindow (mapImage node.body d) first (first + len)
  /-- One that meets no failure does not end otherwise. -/
  ends_well : (∀ t ∈ ts, Works t) → ((begin first len).run node ts).ended ≠ some false
  /-- And ends: one that has not has met so many things at most that it waited for. -/
  ends : (∀ t ∈ ts, Works t) → ((begin first len).run node ts).ended = none →
    Run.countSteps (VRead.step node) moves (begin first len) ts ≤ 3 * len + 5

theorem run_of_ended {node : VolumeNode} (h : s.ended.isSome = true) (ts : List VTurn) :
    s.run node ts = s := by
  induction ts with
  | nil => rfl
  | cons t ts ih =>
    have hs : VRead.step node s t = s := if_pos h
    show (VRead.step node s t).run node ts = s
    rw [hs, ih]

theorem cost_pos (s : VRead) : 0 < s.cost := by
  unfold cost VPhase.left
  split <;> omega

/-- A run from where a read stands. -/
theorem Stage.run (h : Stage W s) (ts : List VTurn) :
    After W (∀ t ∈ ts, Works t) (s.cost - Run.countSteps (VRead.step W.node) moves s ts)
      (s.run W.node ts) := by
  induction ts generalizing s with
  | nil => exact .inr (.inr ⟨h, Nat.le_refl _⟩)
  | cons t ts ih =>
    show After W _ _ ((VRead.step W.node s t).run W.node ts)
    obtain hdone | ⟨hend, hfile, hworks⟩ | ⟨hstage, hcost⟩ := h.step t
    · rw [run_of_ended (by rw [hdone.1]; rfl)]
      exact .inl hdone
    · rw [run_of_ended (by rw [hend]; rfl)]
      exact .inr (.inl ⟨hend, hfile, fun hall => hworks (hall t List.mem_cons_self)⟩)
    · obtain hdone | ⟨hend, hfile, hworks⟩ | ⟨hstage', hcost'⟩ := ih hstage
      · exact .inl hdone
      · exact .inr (.inl ⟨hend, hfile, fun hall => hworks (List.forall_mem_cons.mp hall).2⟩)
      · have hcount : (moves s t).toNat = if moves s t = true then 1 else 0 := by
          cases moves s t <;> rfl
        refine .inr (.inr ⟨hstage', ?_⟩)
        rw [Run.countSteps, ← hcount]
        omega

/-- **A volume read writes the committed window**: of every committed map, of depth 1 or 2, every
window in the volume, and whatever the node's answers and the file's writes come to, the file has
a front of the window, and all of it when the read says so; and where nothing fails the read ends
so. -/
theorem volume_read {node : VolumeNode} {d : Digest} {root : RootPage} {first len : ℕ}
    (hmap : CommittedMap node.body d root) (hbound : Bound node d)
    (hwindow : first + len ≤ root.sizeBytes) (ts : List VTurn) : Reads node d first len ts := by
  obtain ⟨-, -, hsize⟩ := BlockVolume.decodeRoot_geometry hmap.decodes
  have hmin : min (first + len) (2 ^ 64 - 1) = first + len := by
    have : (256 : ℕ) ^ 8 = 2 ^ 64 := by decide
    omega
  have hle := Nat.le_add_right first len
  have hstage : Stage ⟨node, d, root, first, first + len, hmap, hbound, hle, hwindow⟩
      (begin first len) :=
    ⟨⟨hmin, ⟨Nat.le_refl _, hle⟩, fun hc => absurd rfl hc, imageWindow_self.symm, rfl⟩, rfl, rfl⟩
  have hcost : (begin first len).cost = 3 * len + 5 := by
    show 3 * (min (first + len) (2 ^ 64 - 1) - first) + 0 + 5 = _
    rw [hmin, Nat.add_sub_cancel_left]
  obtain ⟨hend, hfile⟩ | ⟨hend, hfile, hworks⟩ | ⟨hstage', hle⟩ := hstage.run ts
  · refine ⟨hfile ▸ List.prefix_refl _, fun _ => hfile, fun _ hc => ?_, fun _ hc => ?_⟩
    · cases hend.symm.trans hc
    · cases hend.symm.trans hc
  · refine ⟨hfile, fun hc => ?_, fun hall => absurd hall hworks, fun hall => absurd hall hworks⟩
    cases hend.symm.trans hc
  · have hrun := hstage'.walking.running
    refine ⟨hstage'.walking.file_front, fun hc => ?_, fun _ hc => ?_, fun _ _ => ?_⟩
    · cases hrun.symm.trans hc
    · cases hrun.symm.trans hc
    · have hpos := cost_pos ((begin first len).run node ts)
      have hle' : ((begin first len).run node ts).cost ≤ _ := hle
      rw [hcost] at hle'
      dsimp only at hle'
      omega

section Sample

theorem length_sameBytes (b : UInt8) : (List.replicate 32 b).length = 32 := List.length_replicate

/-- The digest of so many equal bytes. -/
def sameBytes (b : UInt8) : Digest := ⟨List.replicate 32 b, length_sameBytes b⟩

/-- A root page of 4097 bytes in extents of four: of its two leaves the first was
never written, and the other has the last byte's extent. -/
def samplePage : Bytes :=
  (encodeRoot ⟨List.replicate 16 3, rfl⟩ 4097 4 [Digest.zero, sameBytes 2]).getD []

/-- A node that has the volume. -/
def sampleNode : VolumeNode where
  binding := some (kindVolume,
    idPrefix ++ (List.replicate 32 [0x30, 0x31]).flatten)
  body d := if d = sameBytes 1 then samplePage
    else if d = sameBytes 2 then (encodeLeaf 1024 [sameBytes 3]).getD []
    else [10, 11, 12, 13]

/-- What is read of the page. -/
def sampleRoot : RootPage where
  volumeId := ⟨List.replicate 16 3, rfl⟩
  sizeBytes := 4097
  extentSize := 4
  depth := 2
  children := samplePage.drop 36

/-- Everything is answered, and the file takes a byte at a time, and then none. -/
def sampleTurn : VTurn := ⟨some .found, .done, [.took 1, .took 7, .pending], .done, .done⟩

theorem volume_read_window :
    Reads sampleNode (sameBytes 1) 4095 2 (List.replicate 11 sampleTurn) := by
  have hzero : sampleRoot.child 0 = some Digest.zero := by decide +kernel
  have hone : sampleRoot.child 1 = some (sameBytes 2) := by decide +kernel
  refine volume_read (?_ : CommittedMap _ _ sampleRoot) ⟨_, rfl, by decide +kernel⟩ (by decide) _
  refine ⟨by rfl, fun _ c cd hc hz => ?_, fun i hi hz => ?_⟩
  · match c with
    | 0 => exact absurd (Option.some.inj (hc.symm.trans hzero)) hz
    | 1 =>
      obtain rfl := Option.some.inj (hc.symm.trans hone)
      exact ⟨⟨1024, (sameBytes 3).val⟩, by rfl, by decide +kernel⟩
    | c + 2 =>
      have hlen : sampleRoot.children.length = 64 := by decide +kernel
      unfold RootPage.child digestAt at hc
      rw [dif_neg (by rw [List.length_take, List.length_drop, hlen]; omega)] at hc
      cases hc
  · have hi' : i * 4 < 4097 := hi
    obtain hlt | rfl : i / pageEntries = 0 ∨ i = 1024 := by unfold pageEntries; omega
    · refine absurd ?_ hz
      rw [mapDigest, if_neg (by decide), hlt, hzero]
      exact if_pos rfl
    · decide +kernel

end Sample

end VRead

end Loam

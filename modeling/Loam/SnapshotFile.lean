import Loam.SnapshotRow
import Loam.WalReplay
import Loam.Lib.Run

/-!
# Snapshot files

A snapshot file is a header and its rows. The header has a mark, the number of
rows and the generation's number. Nothing else vouches for the file: it is taken
for a generation when the mark is there and the file's size is that of so many
rows. There are two files, written in turn, and a boot opens the one of the
higher number.

Opening and reading are machines that make a call and go on with its answer, as
a replay is.
-/

namespace Loam

/-! ## The header -/

/-- The mark of a generation, `LSNP` (`SNAP_MAGIC`). -/
def snapMagic : Bytes := [76, 83, 78, 80]

/-- The bytes before the rows (`SNAP_HDR`). -/
def snapHdr : ℕ := 16

/-- A generation's header. -/
def snapHeader (count : ℕ) (generation : UInt64) : Bytes :=
  snapMagic ++ (leBytes 4 count ++ leBytes 8 generation.toNat)

/-- An open generation (`OpenSnapshot`). -/
structure OpenSnapshot where
  count : ℕ
  generation : UInt64
deriving DecidableEq

/-- The generation that a header and the file's size make. -/
def OpenSnapshot.ofHeader (L : Limits) (hdr : Bytes) (size : ℕ) : Option OpenSnapshot :=
  let count := leNat ((hdr.drop 4).take 4)
  if hdr.take 4 ≠ snapMagic then none
  -- A longer file has no size to answer.
  else if 4294967296 ≤ size then none
  else if size ≠ snapHdr + count * recSize L then none
  else some ⟨count, UInt64.ofNat (leNat ((hdr.drop 8).take 8))⟩

/-- The generation some bytes are, if they are one. -/
def opensAs (L : Limits) (bytes : Bytes) : Option OpenSnapshot :=
  if bytes.length < snapHdr then none
  else OpenSnapshot.ofHeader L (bytes.take snapHdr) bytes.length

/-! ## Opening -/

/-- Where an open is. -/
inductive SnapOpenPhase where
  | file
  | seek
  | header
  | stat
deriving DecidableEq

/-- A generation file being opened (`SnapOpener`). -/
structure SnapOpener where
  phase : SnapOpenPhase
  file : WalFile
  hdr : Bytes
deriving DecidableEq

/-- What an open has come to. -/
inductive SnapOpenPoll where
  | pending (o : SnapOpener)
  | opened (s : OpenSnapshot)
  | invalid
deriving DecidableEq

namespace SnapOpener

/-- One that has not started. -/
def new : SnapOpener := ⟨.file, ⟨[], 0, 0⟩, []⟩

/-- One call, and what the open does with its answer (`SnapOpener::poll`). -/
def call (L : Limits) (there : Option Bytes) (o : SnapOpener) (a : FsAnswer) : SnapOpenPoll :=
  match o.phase with
  | .file =>
    match a with
    | .again => .pending o
    | .failed => .invalid
    | .done _ =>
      match there with
      | none => .invalid
      | some bytes => .pending { o with phase := .seek, file := .onDevice bytes }
  | .seek =>
    match a with
    | .again => .pending o
    | .failed => .invalid
    | .done _ => .pending { phase := .header, file := o.file.seek 0, hdr := [] }
  | .header =>
    match a with
    -- What was read before is read again.
    | .again => .pending { o with phase := .seek }
    | .failed => .invalid
    | .done n =>
      let (file, bs) := o.file.read n (snapHdr - o.hdr.length)
      if bs = [] then .invalid
      else if (o.hdr ++ bs).length < snapHdr then .pending { o with file := file, hdr := o.hdr ++ bs }
      else .pending { phase := .stat, file := file, hdr := o.hdr ++ bs }
  | .stat =>
    -- The mark is looked at before the call is made.
    if o.hdr.take 4 ≠ snapMagic then .invalid
    else
      match a with
      | .again => .pending o
      | .failed => .invalid
      | .done _ =>
        match OpenSnapshot.ofHeader L o.hdr o.file.bytes.length with
        | none => .invalid
        | some s => .opened s

end SnapOpener

/-- The better of two generation files being opened (`SnapBestOpener`). -/
structure SnapBestOpener where
  which : ℕ
  best : Option (OpenSnapshot × ℕ)
  one : SnapOpener
  accepted : List (OpenSnapshot × ℕ)
deriving DecidableEq

namespace SnapBestOpener

/-- One that has not started. -/
def new : SnapBestOpener := ⟨0, none, .new, []⟩

/-- A file was none. -/
def skip (o : SnapBestOpener) : SnapBestOpener := { o with which := o.which + 1, one := .new }

/-- A file was a generation: it is the best, unless the best so far has its
number or a higher one. -/
def accept (o : SnapBestOpener) (s : OpenSnapshot) : SnapBestOpener :=
  { which := o.which + 1
    best :=
      match o.best with
      | none => some (s, o.which)
      | some b => if b.1.generation ≥ s.generation then some b else some (s, o.which)
    one := .new
    accepted := o.accepted ++ [(s, o.which)] }

/-- One call (`SnapBestOpener::poll`). -/
def call (L : Limits) (files : ℕ → Option Bytes) (o : SnapBestOpener) (a : FsAnswer) :
    SnapBestOpener :=
  if 2 ≤ o.which then o
  else
    match o.one.call L (files o.which) a with
    | .pending one => { o with one := one }
    | .opened s => o.accept s
    | .invalid => o.skip

/-- A boot's open, after so many answers. -/
def run (L : Limits) (files : ℕ → Option Bytes) (answers : List FsAnswer) : SnapBestOpener :=
  Run.run (call L files) new answers

end SnapBestOpener

/-! ## Reading -/

/-- Read so many bytes where the descriptor is (`read_exact`): the calls of one
ask, which ends where one is not ready. -/
def readExact (want : ℕ) (f : WalFile) (filled : Bytes) : List FsAnswer → SnapRead Bytes
  | [] => if want ≤ filled.length then .ready filled else .pending
  | a :: as =>
    if want ≤ filled.length then .ready filled
    else
      match a with
      | .again => .pending
      | .failed => .failed
      | .done n =>
        let (f', bs) := f.read n (want - filled.length)
        if bs = [] then .failed else readExact want f' (filled ++ bs) as

/-- The row that was read. -/
def snapRowOf (L : Limits) : SnapRead Bytes → SnapRead (SnapRow L)
  | .pending => .pending
  | .failed => .failed
  | .ready buf =>
    match SnapRow.decode L buf with
    | none => .failed
    | some r => .ready r

/-- Read a row (`snap_read_at`). -/
def snapReadAt (L : Limits) (bytes : Bytes) (snap : OpenSnapshot) (idx : ℕ)
    (answers : List FsAnswer) : SnapRead (SnapRow L) :=
  if snap.count ≤ idx then .failed
  else
    match answers with
    | [] | .again :: _ => .pending
    | .failed :: _ => .failed
    | .done _ :: as => snapRowOf L
      (readExact (recSize L) ((WalFile.onDevice bytes).seek (snapHdr + idx * recSize L)) [] as)

/-! ## What is opened -/

namespace SnapOpener

variable {L : Limits} {there : Option Bytes} {o : SnapOpener}

/-- Where an open is: it has read the head of the file. -/
structure At (there : Option Bytes) (o : SnapOpener) : Prop where
  file : o.phase ≠ .file → there = some o.file.bytes
  header : o.phase = .header → o.hdr.length < snapHdr ∧ ∃ tail, o.file.bytes = o.hdr ++ tail ∧
    o.file.offset = o.hdr.length
  stat : o.phase = .stat → o.hdr = o.file.bytes.take snapHdr ∧ snapHdr ≤ o.file.bytes.length

theorem at_new (there : Option Bytes) : At there new := ⟨fun h => absurd rfl h, nofun, nofun⟩

/-- What a call comes to is of the file. -/
def Comes (L : Limits) (there : Option Bytes) : SnapOpenPoll → Prop
  | .pending o => At there o
  | .opened s => ∃ bytes, there = some bytes ∧ opensAs L bytes = some s
  | .invalid => True

/-- **An open says what the file is.** -/
theorem At.call (h : At there o) (a : FsAnswer) : Comes L there (o.call L there a) := by
  unfold SnapOpener.call
  cases hp : o.phase with
  | file =>
    cases a with
    | again => exact h
    | failed => trivial
    | done n =>
      cases there with
      | none => trivial
      | some bytes => exact ⟨fun _ => rfl, nofun, nofun⟩
  | seek =>
    have hfile := h.file (by rw [hp]; nofun)
    cases a with
    | again => exact h
    | failed => trivial
    | done n => exact ⟨fun _ => hfile, fun _ => ⟨Nat.succ_pos 15, _, rfl, rfl⟩, nofun⟩
  | header =>
    have hfile := h.file (by rw [hp]; nofun)
    cases a with
    | again => exact ⟨fun _ => hfile, nofun, nofun⟩
    | failed => trivial
    | done n =>
      obtain ⟨hlt, tail, hb, ho⟩ := h.header hp
      obtain ⟨tail', ht, hle, -, hbytes, hoff⟩ :=
        WalFile.read_spec hb ho n (Nat.sub_pos_of_lt hlt)
      dsimp only
      generalize hbs : (o.file.read n (snapHdr - o.hdr.length)).2 = bs at *
      generalize hf : (o.file.read n (snapHdr - o.hdr.length)).1 = f at *
      have hsplit : f.bytes = o.hdr ++ bs ++ tail' := by
        rw [hbytes, hb, ht, List.append_assoc]
      have hthere : there = some f.bytes := by rw [hbytes]; exact hfile
      split
      · trivial
      split
      · next hshort => exact ⟨fun _ => hthere, fun _ => ⟨hshort, tail', hsplit, hoff⟩, nofun⟩
      next hfull =>
      have hlen : (o.hdr ++ bs).length = snapHdr := by
        refine Nat.le_antisymm ?_ (Nat.not_lt.mp hfull)
        rw [List.length_append]
        omega
      refine ⟨fun _ => hthere, nofun, fun _ => ⟨?_, ?_⟩⟩
      · show o.hdr ++ bs = f.bytes.take snapHdr
        rw [hsplit, ← hlen]
        exact List.take_left.symm
      · show snapHdr ≤ f.bytes.length
        rw [hsplit, List.length_append, hlen]
        exact Nat.le_add_right _ _
  | stat =>
    have hfile := h.file (by rw [hp]; nofun)
    obtain ⟨hhdr, hlen⟩ := h.stat hp
    dsimp only
    split
    · trivial
    cases a with
    | again => exact h
    | failed => trivial
    | done n =>
      dsimp only
      cases hs : OpenSnapshot.ofHeader L o.hdr o.file.bytes.length with
      | none => trivial
      | some s =>
        refine ⟨o.file.bytes, hfile, ?_⟩
        rw [opensAs, if_neg (Nat.not_lt.mpr hlen), ← hhdr]
        exact hs

/-- A file that is a generation is opened, unless a call fails. -/
theorem At.call_ne_invalid (h : At there o) {bytes : Bytes} (ht : there = some bytes)
    {s : OpenSnapshot} (hs : opensAs L bytes = some s) {a : FsAnswer} (ha : a ≠ .failed) :
    o.call L there a ≠ .invalid := by
  subst ht
  have hlen : snapHdr ≤ bytes.length := by
    by_contra hlt
    rw [opensAs, if_pos (Nat.not_le.mp hlt)] at hs
    cases hs
  rw [opensAs, if_neg (Nat.not_lt.mpr hlen)] at hs
  unfold SnapOpener.call
  cases a with
  | failed => exact absurd rfl ha
  | again =>
    cases hp : o.phase with
    | file | seek | header => nofun
    | stat =>
      obtain ⟨hhdr, -⟩ := h.stat hp
      have hbytes := Option.some.inj (h.file (by rw [hp]; nofun))
      dsimp only
      split
      · next hmark =>
        rw [hhdr, ← hbytes] at hmark
        rw [OpenSnapshot.ofHeader, if_pos hmark] at hs
        cases hs
      · nofun
  | done n =>
    cases hp : o.phase with
    | file | seek => nofun
    | header =>
      obtain ⟨hlt, tail, hb, ho⟩ := h.header hp
      have hbytes := Option.some.inj (h.file (by rw [hp]; nofun))
      obtain ⟨-, -, -, hend, -⟩ := WalFile.read_spec hb ho n (Nat.sub_pos_of_lt hlt)
      dsimp only
      split
      · next hnil =>
        rw [hend hnil, List.append_nil, ← hbytes] at hb
        rw [hb] at hlen
        exact absurd hlt (Nat.not_lt.mpr hlen)
      split <;> nofun
    | stat =>
      obtain ⟨hhdr, -⟩ := h.stat hp
      have hbytes := Option.some.inj (h.file (by rw [hp]; nofun))
      dsimp only
      rw [hhdr, ← hbytes, hs]
      split
      · next hmark =>
        rw [OpenSnapshot.ofHeader, if_pos hmark] at hs
        cases hs
      · nofun

end SnapOpener

namespace SnapBestOpener

variable {L : Limits} {files : ℕ → Option Bytes} {o : SnapBestOpener}

/-- **The best of the generations there are.** -/
structure Picks (L : Limits) (files : ℕ → Option Bytes) (o : SnapBestOpener) : Prop where
  one : (o.one).At (files o.which)
  accepted : ∀ x ∈ o.accepted, ∃ bytes, files x.2 = some bytes ∧ opensAs L bytes = some x.1
  some_best : ∀ x ∈ o.accepted, ∃ b, o.best = some b ∧ x.1.generation ≤ b.1.generation
  best : ∀ b, o.best = some b → b ∈ o.accepted

theorem picks_new (L : Limits) (files : ℕ → Option Bytes) : Picks L files new :=
  ⟨SnapOpener.at_new _, nofun, nofun, nofun⟩

theorem Picks.accept (h : Picks L files o) {s : OpenSnapshot} {bytes : Bytes}
    (hf : files o.which = some bytes) (hs : opensAs L bytes = some s) :
    Picks L files (o.accept s) := by
  refine ⟨SnapOpener.at_new _, fun x hx => ?_, fun x hx => ?_, fun b hb => ?_⟩
  · obtain hx | hx := List.mem_append.mp hx
    · exact h.accepted x hx
    · rw [List.mem_singleton.mp hx]
      exact ⟨bytes, hf, hs⟩
  · show ∃ b, (o.accept s).best = some b ∧ _
    unfold SnapBestOpener.accept
    cases hbest : o.best with
    | none =>
      obtain hx | hx := List.mem_append.mp hx
      · obtain ⟨b, hb, -⟩ := h.some_best x hx
        cases hbest.symm.trans hb
      · rw [List.mem_singleton.mp hx]
        exact ⟨_, rfl, UInt64.le_refl _⟩
    | some b =>
      dsimp only
      have hle : ∀ y ∈ o.accepted, y.1.generation ≤ b.1.generation := by
        intro y hy
        obtain ⟨b', hb', hle⟩ := h.some_best y hy
        rw [← Option.some.inj (hbest.symm.trans hb')] at hle
        exact hle
      split
      · next hge =>
        refine ⟨b, rfl, ?_⟩
        obtain hx | hx := List.mem_append.mp hx
        · exact hle x hx
        · rw [List.mem_singleton.mp hx]
          exact hge
      · next hlt =>
        refine ⟨_, rfl, ?_⟩
        obtain hx | hx := List.mem_append.mp hx
        · exact UInt64.le_trans (hle x hx) (UInt64.le_of_lt (UInt64.not_le.mp hlt))
        · rw [List.mem_singleton.mp hx]
          exact UInt64.le_refl _
  · show b ∈ o.accepted ++ [(s, o.which)]
    replace hb : (o.accept s).best = some b := hb
    unfold SnapBestOpener.accept at hb
    cases hbest : o.best with
    | none =>
      rw [hbest] at hb
      exact List.mem_append_right _ (List.mem_singleton.mpr (Option.some.inj hb).symm)
    | some b' =>
      rw [hbest] at hb
      dsimp only at hb
      split at hb
      · exact List.mem_append_left _ (h.best b (hbest.trans hb))
      · exact List.mem_append_right _ (List.mem_singleton.mpr (Option.some.inj hb).symm)

theorem Picks.call (h : Picks L files o) (a : FsAnswer) : Picks L files (o.call L files a) := by
  unfold SnapBestOpener.call
  split
  · exact h
  have hc := h.one.call (L := L) a
  split
  · next one hone =>
    rw [hone] at hc
    exact ⟨hc, h.accepted, h.some_best, h.best⟩
  · next s hs =>
    rw [hs] at hc
    obtain ⟨bytes, hf, ho⟩ := hc
    exact h.accept hf ho
  · exact ⟨SnapOpener.at_new _, h.accepted, h.some_best, h.best⟩

theorem picks_run (L : Limits) (files : ℕ → Option Bytes) (answers : List FsAnswer) :
    Picks L files (run L files answers) :=
  Run.invariant_all (fun _ a h => h.call a) (picks_new L files) answers

/-- What is left of the open has not passed a generation by. -/
def Covers (L : Limits) (files : ℕ → Option Bytes) (o : SnapBestOpener) : Prop :=
  ∀ i < o.which, ∀ bytes s, files i = some bytes → opensAs L bytes = some s → (s, i) ∈ o.accepted

theorem Covers.call (h : Covers L files o) (hp : Picks L files o) {a : FsAnswer}
    (ha : a ≠ .failed) : Covers L files (o.call L files a) := by
  unfold SnapBestOpener.call
  split
  · exact h
  have hc := hp.one.call (L := L) a
  split
  · exact h
  · next s' hs' =>
    rw [hs'] at hc
    obtain ⟨bytes', hf', ho'⟩ := hc
    intro i hi bytes s hf hs
    obtain hlt | rfl := Nat.lt_succ_iff_lt_or_eq.mp hi
    · exact List.mem_append_left _ (h i hlt bytes s hf hs)
    · obtain rfl := Option.some.inj (hf'.symm.trans hf)
      obtain rfl := Option.some.inj (ho'.symm.trans hs)
      exact List.mem_append_right _ (List.mem_singleton.mpr rfl)
  · next hinv =>
    intro i hi bytes s hf hs
    obtain hlt | rfl := Nat.lt_succ_iff_lt_or_eq.mp hi
    · exact h i hlt bytes s hf hs
    · exact absurd hinv (hp.one.call_ne_invalid hf hs ha)

/-- **A generation is passed by only when a call fails.** -/
theorem covers_run (L : Limits) (files : ℕ → Option Bytes) {answers : List FsAnswer}
    (ha : .failed ∉ answers) : Covers L files (run L files answers) := by
  have hnone : Run.AllSteps (call L files) (fun _ a => a ≠ .failed) new answers :=
    Run.AllSteps.of_forall fun a hmem _ heq => ha (heq ▸ hmem)
  have hstep (o : SnapBestOpener) (a : FsAnswer) (h : Picks L files o ∧ Covers L files o)
      (hne : a ≠ .failed) : Picks L files (o.call L files a) ∧ Covers L files (o.call L files a) :=
    ⟨h.1.call a, h.2.call h.1 hne⟩
  exact (Run.invariant hstep ⟨picks_new L files, nofun⟩ hnone).2

end SnapBestOpener

/-! ## What is read -/

section Rows

variable {L : Limits} {bytes : Bytes}

theorem readExact_eq_ready {want : ℕ} {pre tail buf : Bytes} (as : List FsAnswer) {f : WalFile}
    {filled : Bytes} (hb : f.bytes = pre ++ filled ++ tail)
    (ho : f.offset = (pre ++ filled).length) (hle : filled.length ≤ want)
    (h : readExact want f filled as = .ready buf) : buf = (filled ++ tail).take want := by
  have hfull (filled tail : Bytes) (hw : filled.length = want) :
      filled = (filled ++ tail).take want := (List.take_left' hw).symm
  induction as generalizing f filled tail with
  | nil =>
    unfold readExact at h
    split at h
    · next hw =>
      cases h
      exact hfull _ _ (Nat.le_antisymm hle hw)
    · cases h
  | cons a as ih =>
    unfold readExact at h
    split at h
    · next hw =>
      cases h
      exact hfull _ _ (Nat.le_antisymm hle hw)
    next hw =>
    cases a with
    | again | failed => cases h
    | done n =>
      obtain ⟨tail', ht, hlen, -, hbytes, hoff⟩ :=
        WalFile.read_spec hb ho n (Nat.sub_pos_of_lt (Nat.not_le.mp hw))
      dsimp only at h
      split at h
      · cases h
      have hrest := @ih tail' (f.read n (want - filled.length)).1 _ ?_ ?_ ?_ h
      · rw [hrest, ht, List.append_assoc]
      · rw [hbytes, hb, ht]
        simp only [List.append_assoc]
      · rw [hoff, List.append_assoc]
      · rw [List.length_append]
        omega

theorem snapRowOf_ready {buf : Bytes} {r : SnapRow L} (h : SnapRow.decode L buf = some r) :
    snapRowOf L (.ready buf) = .ready r := by
  unfold snapRowOf
  dsimp only
  rw [h]

theorem snapRowOf_eq_ready {o : SnapRead Bytes} {r : SnapRow L} (h : snapRowOf L o = .ready r) :
    ∃ buf, o = .ready buf ∧ SnapRow.decode L buf = some r := by
  cases o with
  | pending | failed => cases h
  | ready buf =>
    refine ⟨buf, rfl, ?_⟩
    unfold snapRowOf at h
    dsimp only at h
    split at h
    · cases h
    next hr =>
    cases h
    exact hr

/-- A row that is read is what stands at its place. -/
theorem snapReadAt_eq_ready {snap : OpenSnapshot} {idx : ℕ} {answers : List FsAnswer}
    {r : SnapRow L} (hfit : snapHdr + idx * recSize L ≤ bytes.length)
    (h : snapReadAt L bytes snap idx answers = .ready r) :
    idx < snap.count ∧
      SnapRow.decode L ((bytes.drop (snapHdr + idx * recSize L)).take (recSize L)) = some r := by
  unfold snapReadAt at h
  split at h
  · cases h
  next hidx =>
  refine ⟨Nat.not_le.mp hidx, ?_⟩
  split at h
  · cases h
  · cases h
  · cases h
  next as =>
  obtain ⟨buf, hbuf, hr⟩ := snapRowOf_eq_ready h
  have hread := @readExact_eq_ready _ (bytes.take (snapHdr + idx * recSize L))
    (bytes.drop (snapHdr + idx * recSize L)) _ as _ _ ?_ ?_ (Nat.zero_le _) hbuf
  · rw [List.nil_append] at hread
    rw [← hread]
    exact hr
  · rw [List.append_nil]
    exact (List.take_append_drop _ _).symm
  · rw [List.append_nil, List.length_take_of_le hfit]
    rfl

theorem readExact_moved {want : ℕ} {f : WalFile} (hpos : 0 < want)
    (hfit : f.offset + want ≤ f.bytes.length) :
    readExact want f [] [.done want] = .ready ((f.bytes.drop f.offset).take want) := by
  have hcount : f.readCount want want = want := by
    unfold WalFile.readCount
    omega
  have hbs : (f.read want want).2 = (f.bytes.drop f.offset).take want := by
    rw [WalFile.read, hcount]
  have hlen : ((f.bytes.drop f.offset).take want).length = want := by
    rw [List.length_take, List.length_drop]
    omega
  have hne : (f.read want want).2 ≠ [] := by
    rw [hbs]
    exact List.ne_nil_of_length_pos (by rw [hlen]; exact hpos)
  unfold readExact
  rw [List.length_nil, if_neg (Nat.not_le.mpr hpos)]
  dsimp only
  rw [Nat.sub_zero, if_neg hne, List.nil_append, hbs, readExact, if_pos (Nat.le_of_eq hlen.symm)]

theorem snapReadAt_moved {snap : OpenSnapshot} {idx : ℕ} {r : SnapRow L} (hidx : idx < snap.count)
    (hfit : snapHdr + idx * recSize L + recSize L ≤ bytes.length)
    (h : SnapRow.decode L ((bytes.drop (snapHdr + idx * recSize L)).take (recSize L)) = some r) :
    snapReadAt L bytes snap idx [.done 0, .done (recSize L)] = .ready r := by
  have hread := readExact_moved (f := (WalFile.onDevice bytes).seek (snapHdr + idx * recSize L))
    (recSize_pos L) hfit
  unfold snapReadAt
  rw [if_neg (Nat.not_le.mpr hidx)]
  dsimp only
  rw [hread]
  exact snapRowOf_ready h

end Rows

end Loam

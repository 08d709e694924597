import Loam.Lib.Run
import Loam.Manifest

/-!
# Manifests, a record at a time

The applet reads a manifest from a file into a buffer that holds one header and one record of the
greatest length, and takes the header and then a record a turn off its front
(`loam_cli_body.rs`). A turn may have to wait for the file, and is then asked for again. However
the file is cut into reads and turns, the reader gets the entries that a walk over the whole
manifest visits, and ends as the walk does (`Along`, `along_run`); turns that are answered bring it to its end
(`ended_of_answered`).
-/

namespace Loam.Manifest

open Slices Refill

/-! ## The reader -/

/-- How a reading ended. -/
inductive Ended where
  | spent
  | notManifest
  /-- The manifest ends before its declared count, or is corrupt. -/
  | corrupt
  | unread
deriving DecidableEq

/-- A manifest that is read: its buffer and file, the root and the count once the header is
taken, the entries that were taken, and how the reading ended. -/
structure Reader where
  mf : State UInt8
  header : Option (Bytes × ℕ)
  entries : List Entry
  ended : Option Ended

/-- The reader of a file that is opened. -/
def Reader.opened (m : Bytes) : Reader := ⟨.opened m, none, [], none⟩

variable (L : Limits)

/-- As large as the longest header and the longest record. -/
def bufferLen : ℕ := headerMax L + recordMax L

/-- Take the header (`mf_open`). -/
def mfOpen (r : Reader) (answers : List Answer) : Reader :=
  match next (readHeader L) (bufferLen L) r.mf answers with
  | (.got h, mf) => { r with mf, header := some h }
  | (.wait, mf) => { r with mf }
  | (.refused, mf) => { r with mf, ended := some .notManifest }
  | (.unread, mf) => { r with mf, ended := some .unread }

/-- Take the next of `count` records (`mf_next`). -/
def mfNext (count : ℕ) (r : Reader) (answers : List Answer) : Reader :=
  if r.entries.length = count then { r with ended := some .spent }
  else
    match next (readRecord L) (bufferLen L) r.mf answers with
    | (.got e, mf) => { r with mf, entries := r.entries ++ [e] }
    | (.wait, mf) => { r with mf }
    | (.refused, mf) => { r with mf, ended := some .corrupt }
    | (.unread, mf) => { r with mf, ended := some .unread }

/-- A turn of the command. -/
def visit (r : Reader) (answers : List Answer) : Reader :=
  match r.ended with
  | some _ => r
  | none =>
    match r.header with
    | none => mfOpen L r answers
    | some (_, count) => mfNext L count r answers

/-- The reader after the turns of a run. -/
def reached (m : Bytes) (turns : List (List Answer)) : Reader :=
  Run.run (visit L) (.opened m) turns

/-! ## The reader and the walk -/

/-- What the reader has got is what the walk over the manifest visits, and what it has not got is
what the walk is yet to visit. -/
inductive Along (L : Limits) (m : Bytes) : Reader → Prop where
  | opened {mf : State UInt8} : mf.front = m → Along L m ⟨mf, none, [], none⟩
  | ready {mf : State UInt8} {root : Bytes} {count o : ℕ} {es : List Entry} :
    splitHeader L m = .ok ((root, count), o) → es.length ≤ count →
    walk (readRecord L) .truncated count (m.drop o) =
      (es ++ (walk (readRecord L) .truncated (count - es.length) mf.front).1,
        (walk (readRecord L) .truncated (count - es.length) mf.front).2) →
    Along L m ⟨mf, some (root, count), es, none⟩
  | spent {mf : State UInt8} {h : Option (Bytes × ℕ)} {es : List Entry} :
    forEach L m = (es, .ok es.length) → Along L m ⟨mf, h, es, some .spent⟩
  | refused {mf : State UInt8} {h : Option (Bytes × ℕ)} {es : List Entry} {e : ManifestError}
    {d : Ended} : d = .notManifest ∨ d = .corrupt → forEach L m = (es, .error e) →
    Along L m ⟨mf, h, es, some d⟩
  | unread {mf : State UInt8} {h : Option (Bytes × ℕ)} {es : List Entry} :
    es <+: (forEach L m).1 → Along L m ⟨mf, h, es, some .unread⟩

variable {L : Limits} {m root : Bytes} {r : Reader} {answers : List Answer} {count o : ℕ}
  {es : List Entry} {turns : List (List Answer)}

theorem forEach_of_split (h : splitHeader L m = .ok ((root, count), o)) :
    forEach L m = ((walk (readRecord L) .truncated count (m.drop o)).1,
      (walk (readRecord L) .truncated count (m.drop o)).2.map fun _ => count) := by
  rw [forEach, h]

theorem Along.mfOpen (hL : L.FitsWire) {mf : State UInt8} (hm : mf.front = m)
    (answers : List Answer) : Along L m (mfOpen L ⟨mf, none, [], none⟩ answers) := by
  have hlaw : Lawful (readHeader L) (bufferLen L) := lawful_readHeader hL (Nat.le_add_right _ _)
  have hturn := next_spec hlaw mf answers
  unfold Manifest.mfOpen
  revert hturn
  generalize next (readHeader L) (bufferLen L) mf answers = p
  obtain ⟨out, mf'⟩ := p
  intro hturn
  cases hturn with
  | got htake hdrop hleft =>
    rename_i h n
    obtain ⟨root, count⟩ := h
    have hsplit := readHeader_eq_some.mp (hm ▸ htake)
    refine .ready hsplit (Nat.zero_le _) ?_
    rw [List.nil_append, hdrop, hm]
    rfl
  | wait hfront hleft => exact .opened (hfront.trans hm)
  | refused hnone =>
    cases hs : splitHeader L m with
    | error e => exact .refused (.inl rfl) (e := e) (by rw [forEach, hs])
    | ok h => exact absurd (readHeader_eq_some.mpr hs) (hm ▸ hnone h)
  | unread hfail => exact .unread (List.nil_prefix)

theorem Along.mfNext (hL : L.FitsWire) {mf : State UInt8} (hs : splitHeader L m = .ok ((root, count), o))
    (hle : es.length ≤ count) (hwalk : walk (readRecord L) .truncated count (m.drop o) =
      (es ++ (walk (readRecord L) .truncated (count - es.length) mf.front).1,
        (walk (readRecord L) .truncated (count - es.length) mf.front).2))
    (answers : List Answer) : Along L m (mfNext L count ⟨mf, some (root, count), es, none⟩ answers) := by
  have hfor := forEach_of_split hs
  rw [hwalk] at hfor
  unfold Manifest.mfNext
  dsimp only
  split
  · next hspent =>
    rw [hspent, Nat.sub_self] at hfor
    refine .spent ?_
    rw [hfor, hspent]
    exact Prod.ext (List.append_nil es) rfl
  · next hmore =>
    obtain ⟨k, hk⟩ : ∃ k, count - es.length = k + 1 := ⟨count - es.length - 1, by omega⟩
    have hlaw : Lawful (readRecord L) (bufferLen L) := lawful_readRecord hL (Nat.le_add_left _ _)
    have hturn := next_spec hlaw mf answers
    revert hturn
    generalize next (readRecord L) (bufferLen L) mf answers = p
    obtain ⟨out, mf'⟩ := p
    intro hturn
    cases hturn with
    | got htake hdrop hleft =>
      rename_i e n
      have hlen : (es ++ [e]).length = es.length + 1 := List.length_append
      refine .ready hs (by omega) ?_
      have hk' : count - (es ++ [e]).length = k := by omega
      rw [hwalk, hk, walk_got htake, hdrop, hk', List.append_assoc]
      rfl
    | wait hfront hleft => exact .ready hs hle (by rw [hfront, hwalk])
    | refused hnone =>
      obtain ⟨e, he⟩ := walk_refused hnone (n := k)
      refine .refused (.inr rfl) (e := e) ?_
      rw [hfor, hk, he]
      exact Prod.ext (List.append_nil es) rfl
    | unread hfail => exact .unread (hfor ▸ List.prefix_append _ _)

/-- **A turn goes along with the walk.** -/
theorem Along.visit (hL : L.FitsWire) (h : Along L m r) (answers : List Answer) :
    Along L m (visit L r answers) := by
  cases h with
  | opened hm => exact Along.mfOpen hL hm answers
  | ready hs hle hwalk => exact Along.mfNext hL hs hle hwalk answers
  | spent hfor => exact .spent hfor
  | refused hd hfor => exact .refused hd hfor
  | unread hpre => exact .unread hpre

/-- **However the file is read, the reader goes along with the walk.** -/
theorem along_run (hL : L.FitsWire) (m : Bytes) (turns : List (List Answer)) :
    Along L m (reached L m turns) :=
  Run.invariant_all (I := Along L m) (fun _ answers h => h.visit hL answers) (.opened rfl) turns

/-! ## The end of a reading -/

/-- What a reader has got is a front of what the walk visits. -/
theorem Along.entries_front (h : Along L m r) : r.entries <+: (forEach L m).1 := by
  cases h with
  | opened hm => exact List.nil_prefix
  | ready hs hle hwalk =>
    rw [forEach_of_split hs, hwalk]
    exact List.prefix_append _ _
  | spent hfor => exact (congrArg Prod.fst hfor).symm ▸ List.prefix_refl _
  | refused hd hfor => exact (congrArg Prod.fst hfor).symm ▸ List.prefix_refl _
  | unread hpre => exact hpre

/-- At the end of the records all of them were visited. -/
theorem Along.forEach_of_spent (h : Along L m r) (hd : r.ended = some .spent) :
    forEach L m = (r.entries, .ok r.entries.length) := by
  cases h with
  | opened _ => cases hd
  | ready _ _ _ => cases hd
  | spent hfor => exact hfor
  | refused hr _ =>
    cases Option.some.inj hd
    rcases hr with hr | hr <;> cases hr
  | unread _ => cases hd

/-- What is refused, the walk refuses after the same entries. -/
theorem Along.forEach_of_refused (h : Along L m r)
    (hd : r.ended = some .notManifest ∨ r.ended = some .corrupt) :
    ∃ e, forEach L m = (r.entries, .error e) := by
  cases h with
  | opened _ => rcases hd with hd | hd <;> cases hd
  | ready _ _ _ => rcases hd with hd | hd <;> cases hd
  | spent _ => rcases hd with hd | hd <;> cases hd
  | refused _ hfor => exact ⟨_, hfor⟩
  | unread _ => rcases hd with hd | hd <;> cases hd

/-- Bytes that are not taken, and reads that can bring some. -/
def Reader.todo (r : Reader) : ℕ := r.mf.front.length + r.mf.left

/-- A turn that is answered brings the reader on, or ends it; a read that fails is the only one to
end it so. -/
structure Advances (r r' : Reader) (answers : List Answer) : Prop where
  todo : r'.ended = none → r'.todo + (if answers = [] then 0 else 1) ≤ r.todo
  unread : r'.ended = some .unread → .failed ∈ answers

theorem readHeader_some_pos (hL : L.FitsWire) {src : Bytes} {h : Bytes × ℕ} {n : ℕ}
    (hr : readHeader L src = .ok (some (h, n))) : 0 < n := by
  obtain ⟨-, -, -, rfl⟩ := (splitHeader_eq_ok hL).mp (readHeader_eq_some.mp hr)
  exact Nat.add_pos_left (by decide) _

theorem readRecord_some_pos (hL : L.FitsWire) {src : Bytes} {e : Entry} {n : ℕ}
    (hr : readRecord L src = .ok (some (e, n))) : 0 < n := by
  obtain ⟨-, -, rfl⟩ := (readRecord_eq_some hL).mp hr
  unfold recordLen recHeader
  omega

/-- A turn that takes something leaves less to do. -/
theorem todo_of_got {α : Type} {take : Bytes → Except ManifestError (Option (α × ℕ))} {cap : ℕ}
    {mf mf' : State UInt8} {a : α} (hlaw : Lawful take cap)
    (hpos : ∀ {src n}, take src = .ok (some (a, n)) → 0 < n) (h : Turn take mf answers (.got a) mf') :
    mf'.front.length + mf'.left + (if answers = [] then 0 else 1) ≤ mf.front.length + mf.left := by
  cases h with
  | got htake hdrop hleft =>
    have hone : (if answers = [] then 0 else 1) ≤ 1 := by split <;> decide
    have hn := hpos htake
    have hle := hlaw.le_length htake
    rw [hdrop, List.length_drop]
    omega

/-- A turn that waits leaves as much less to do as there were answers. -/
theorem todo_of_wait {α : Type} {take : Bytes → Except ManifestError (Option (α × ℕ))}
    {mf mf' : State UInt8} (h : Turn take mf answers .wait mf') :
    mf'.front.length + mf'.left + (if answers = [] then 0 else 1) ≤ mf.front.length + mf.left := by
  cases h with
  | wait hfront hleft =>
    have hone : (if answers = [] then 0 else 1) ≤ answers.length := by
      cases answers with
      | nil => exact Nat.le_refl _
      | cons a as => exact Nat.succ_pos _
    rw [hfront]
    omega

theorem failed_of_unread {α : Type} {take : Bytes → Except ManifestError (Option (α × ℕ))}
    {mf mf' : State UInt8} (h : Turn take mf answers .unread mf') : .failed ∈ answers := by
  cases h with
  | unread hfail => exact hfail

theorem mfOpen_advances (hL : L.FitsWire) (hrun : r.ended = none) (answers : List Answer) :
    Advances r (mfOpen L r answers) answers := by
  have hlaw : Lawful (readHeader L) (bufferLen L) := lawful_readHeader hL (Nat.le_add_right _ _)
  have hturn := next_spec hlaw r.mf answers
  unfold mfOpen
  revert hturn
  generalize next (readHeader L) (bufferLen L) r.mf answers = p
  obtain ⟨out, mf'⟩ := p
  intro hturn
  cases out with
  | got h =>
    exact ⟨fun _ => todo_of_got hlaw (readHeader_some_pos hL) hturn,
      fun hu => absurd (hrun.symm.trans hu) (by decide)⟩
  | wait => exact ⟨fun _ => todo_of_wait hturn, fun hu => absurd (hrun.symm.trans hu) (by decide)⟩
  | refused => exact ⟨fun hn => (by cases hn), fun hu => (by cases hu)⟩
  | unread => exact ⟨fun hn => (by cases hn), fun _ => failed_of_unread hturn⟩

theorem mfNext_advances (hL : L.FitsWire) (hrun : r.ended = none) (count : ℕ)
    (answers : List Answer) : Advances r (mfNext L count r answers) answers := by
  have hlaw : Lawful (readRecord L) (bufferLen L) := lawful_readRecord hL (Nat.le_add_left _ _)
  have hturn := next_spec hlaw r.mf answers
  unfold mfNext
  split
  · exact ⟨fun hn => (by cases hn), fun hu => (by cases hu)⟩
  revert hturn
  generalize next (readRecord L) (bufferLen L) r.mf answers = p
  obtain ⟨out, mf'⟩ := p
  intro hturn
  cases out with
  | got e =>
    exact ⟨fun _ => todo_of_got hlaw (readRecord_some_pos hL) hturn,
      fun hu => absurd (hrun.symm.trans hu) (by decide)⟩
  | wait => exact ⟨fun _ => todo_of_wait hturn, fun hu => absurd (hrun.symm.trans hu) (by decide)⟩
  | refused => exact ⟨fun hn => (by cases hn), fun hu => (by cases hu)⟩
  | unread => exact ⟨fun hn => (by cases hn), fun _ => failed_of_unread hturn⟩

theorem visit_advances (hL : L.FitsWire) (hrun : r.ended = none) (answers : List Answer) :
    Advances r (visit L r answers) answers := by
  unfold visit
  rw [hrun]
  dsimp only
  split
  · exact mfOpen_advances hL hrun answers
  · exact mfNext_advances hL hrun _ answers

theorem visit_of_ended {d : Ended} (h : r.ended = some d) (answers : List Answer) :
    visit L r answers = r := by
  rw [visit, h]

theorem run_of_ended {d : Ended} (h : r.ended = some d) (turns : List (List Answer)) :
    Run.run (visit L) r turns = r := by
  induction turns with
  | nil => rfl
  | cons t ts ih => rw [Run.run_cons, visit_of_ended h, ih]

/-- **Turns that are answered end the reading**, when they are more than there is to do. -/
theorem ended_of_answered (hL : L.FitsWire) (r : Reader) (turns : List (List Answer))
    (h : r.todo < (turns.filter (· ≠ [])).length) : (Run.run (visit L) r turns).ended ≠ none := by
  induction turns generalizing r with
  | nil => cases h
  | cons t ts ih =>
    cases hr : r.ended with
    | some d =>
      rw [run_of_ended hr, hr]
      exact fun hn => (by cases hn)
    | none =>
      have hadv := visit_advances hL hr t
      cases hv : (visit L r t).ended with
      | some d =>
        rw [Run.run_cons, run_of_ended hv, hv]
        exact fun hn => (by cases hn)
      | none =>
        refine ih (visit L r t) ?_
        have htodo := hadv.todo hv
        rw [List.filter_cons] at h
        by_cases ht : t = []
        · rw [if_pos ht] at htodo
          rw [if_neg (by simpa using ht)] at h
          omega
        · rw [if_neg ht] at htodo
          rw [if_pos (by simpa using ht), List.length_cons] at h
          omega

/-- Only a read that fails ends a reading so. -/
theorem ended_ne_unread (hL : L.FitsWire) (hfine : ∀ t ∈ turns, .failed ∉ t) :
    (reached L m turns).ended ≠ some .unread := by
  refine Run.invariant (P := fun _ t => .failed ∉ t) (I := fun r : Reader => r.ended ≠ some .unread)
    (fun r t hr ht => ?_) (fun h => by cases h) (Run.AllSteps.of_forall fun t ht _ => hfine t ht)
  cases hrun : r.ended with
  | some d =>
    rw [visit_of_ended hrun]
    exact hr
  | none => exact fun hu => ht ((visit_advances hL hrun t).unread hu)

/-! ## Snapshots -/

/-- Manifests carry a snapshot. -/
structure CarriesSnapshots (L : Limits) : Prop where
  /-- What is written of a root and entries within the ceilings is visited in order. -/
  written : ∀ root es room, root.length ≤ L.maxRoot → (∀ e ∈ es, e.Passes L) →
    es.length ≤ maxEntries → encodedLen root es ≤ room → ∃ m, encode L room root es = .ok m ∧
      m.length = encodedLen root es ∧ peek L m = .ok (root, es.length) ∧
      forEach L m = (es, .ok es.length)
  /-- So is what a writer leaves that knows the count only in the end: a header, the records one
  after another, and a header over the first. -/
  rewritten : ∀ root es count h h' rs, es.length ≤ maxEntries →
    encodeHeader L (headerMax L) root count = .ok h →
    List.Forall₂ (fun e r => encodeRecord L (recordMax L) e = .ok r) es rs →
    encodeHeader L (headerMax L) root es.length = .ok h' →
    encode L (encodedLen root es) root es = .ok (overwrite (h ++ rs.flatten) 0 h')
  /-- However a file is read, the reader gets the entries that are visited, and no others. -/
  streamed : ∀ m turns, (reached L m turns).entries <+: (forEach L m).1
  /-- Where it is at the end of its records, all of them are visited. -/
  spent : ∀ m turns, (reached L m turns).ended = some .spent →
    forEach L m = ((reached L m turns).entries, .ok (reached L m turns).entries.length)
  refused : ∀ m turns, (reached L m turns).ended = some .notManifest ∨
    (reached L m turns).ended = some .corrupt →
    ∃ e, forEach L m = ((reached L m turns).entries, .error e)
  /-- It comes to one of these ends, if no read fails and enough turns are answered. -/
  ends : ∀ m turns, (∀ t ∈ turns, .failed ∉ t) →
    2 * m.length + 1 < (turns.filter (· ≠ [])).length →
    (reached L m turns).ended = some .spent ∨ (reached L m turns).ended = some .notManifest ∨
      (reached L m turns).ended = some .corrupt
  /-- What is accepted has all the entries that its header declares. -/
  complete : ∀ m es n, forEach L m = (es, .ok n) → es.length = n ∧ ∃ root t,
    peek L m = .ok (root, n) ∧ m = headerBytes root n ++ recordsBytes es ++ t
  /-- Cut anywhere it has all of them still, or it is refused. -/
  cut : ∀ m es n k, forEach L m = (es, .ok n) →
    forEach L (m.take k) = (es, .ok n) ∨ (forEach L (m.take k)).2 = .error .truncated
  /-- A manifest that is written, cut anywhere, is refused by the walk and by the reader. -/
  cut_written : ∀ root es room m k, encode L room root es = .ok m → k < m.length →
    (forEach L (m.take k)).2 = .error .truncated ∧
      ∀ turns, (reached L (m.take k) turns).ended ≠ some .spent

/-- Records that are written one by one are the records in a row. -/
theorem flatten_of_encoded {rs : List Bytes}
    (h : List.Forall₂ (fun e r => encodeRecord L (recordMax L) e = .ok r) es rs) :
    (∀ e ∈ es, e.Passes L) ∧ rs.flatten = recordsBytes es := by
  induction h with
  | nil => exact ⟨fun e he => (by cases he), rfl⟩
  | cons hhead _ ih =>
    obtain ⟨hpass, -, rfl⟩ := encodeRecord_eq_ok.mp hhead
    exact ⟨List.forall_mem_cons.mpr ⟨hpass, ih.1⟩, by rw [List.flatten_cons, ih.2, recordsBytes_cons]⟩

theorem todo_opened (m : Bytes) : (Reader.opened m).todo = 2 * m.length + 1 := by
  show m.length + (m.length + 1) = _
  omega

/-- **Manifests carry a snapshot faithfully**, of every profile. -/
theorem manifests_carry_snapshots (p : Profile) : CarriesSnapshots p.limits := by
  have hL := p.fitsWire
  refine ⟨?written, ?rewritten, fun m turns => (along_run hL m turns).entries_front,
    fun m turns => (along_run hL m turns).forEach_of_spent,
    fun m turns => (along_run hL m turns).forEach_of_refused, ?ends, ?complete,
    fun m es n k h => forEach_take hL h k, ?cut_written⟩
  case written =>
    intro root es room hroot hes hcount hroom
    have henc := encode_eq_ok.mpr ⟨⟨hroot, hes, hcount⟩, hroom, rfl⟩
    have hfor := forEach_bytes hL hroot hes hcount []
    rw [List.append_nil] at hfor
    refine ⟨_, henc, ?_, ?_, hfor⟩
    · rw [List.length_append, length_headerBytes, encodedLen_eq]
    · rw [peek, (splitHeader_eq_ok hL).mpr ⟨hroot, hcount, List.prefix_append _ _, rfl⟩]
      rfl
  case rewritten =>
    intro root es count h h' rs hcount hh hrs hh'
    obtain ⟨-, -, rfl⟩ := encodeHeader_eq_ok.mp hh
    obtain ⟨hroot, -, rfl⟩ := encodeHeader_eq_ok.mp hh'
    obtain ⟨hes, hflat⟩ := flatten_of_encoded hrs
    rw [overwrite_header, hflat]
    exact encode_eq_ok.mpr ⟨⟨hroot, hes, hcount⟩, Nat.le_refl _, rfl⟩
  case ends =>
    intro m turns hfine henough
    have hended := ended_of_answered hL (.opened m) turns (by rw [todo_opened]; exact henough)
    have hunread := ended_ne_unread hL (m := m) hfine
    cases hd : (reached p.limits m turns).ended with
    | none => exact absurd hd hended
    | some d =>
      cases d with
      | spent => exact .inl rfl
      | notManifest => exact .inr (.inl rfl)
      | corrupt => exact .inr (.inr rfl)
      | unread => exact absurd hd hunread
  case complete =>
    intro m es n h
    obtain ⟨hlen, root, t, -, -, hpeek, -, heq⟩ := eq_of_forEach hL h
    exact ⟨hlen, root, t, hpeek, heq⟩
  case cut_written =>
    intro root es room m k henc hk
    obtain ⟨⟨hroot, hes, hcount⟩, -, rfl⟩ := encode_eq_ok.mp henc
    rw [List.length_append, length_headerBytes, ← encodedLen_eq] at hk
    have hcut := forEach_cut hL hroot hes hcount hk
    refine ⟨hcut, fun turns hsp => ?_⟩
    rw [(along_run hL _ turns).forEach_of_spent hsp] at hcut
    cases hcut

end Loam.Manifest

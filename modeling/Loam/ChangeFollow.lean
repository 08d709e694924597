import Loam.ChangePages

/-!
# Following a namespace by its changes

A reader of `CHANGES` keeps the bindings under a prefix by its pages alone: each answer's token
is what it asks with next, a page is put over what it has, and a window that is lost sends it
back to a relist. Whatever is fed, called and compacted between and during its pages, what it has
is what the namespace holds, up to the keys the arena accounts for past the revision of its token
(`FeedWorld.Inv`): so a reader whose token is the head has the namespace (`reader_has_head`).

While a relist is paged this holds of the keys up to its cursor, for the revision it began at; of
those beyond the cursor the reader has nothing yet.
-/

namespace Loam

namespace Arena

variable {L : Limits} {a a' : Arena L}

/-- The horizon is not past the counter. -/
def Vouches (a : Arena L) : Prop := a.changeHorizon ≤ a.changeSeq

/-- The horizon that a freed slot moves is at a number that was given out. -/
theorem Trace.vouches {ws : List SlotWrite} (h : a.Trace ws a') (hn : a.Numbered)
    (hroom : a.changeSeq.toNat + ws.length < 2 ^ 64) (hv : a.Vouches) : a'.Vouches := by
  induction h with
  | nothing => exact hv
  | @stamp ws i b s hd hi hs _ hk ih =>
    rw [List.length_cons] at hroom
    have hb := ih (by omega)
    obtain ⟨-, hle⟩ := hd.takes hn (by omega)
    show b.changeHorizon ≤ b.changeSeq + 1
    have hb' := UInt64.le_iff_toNat_le.mp hb
    rw [UInt64.le_iff_toNat_le, toNat_next (by omega)]
    exact Nat.le_succ_of_le hb'
  | amend hd hm hr hk hb hc ih => exact ih hroom
  | @free ws i b s hd hm hs ih =>
    have hb := ih hroom
    have hbound := (hd.takes hn hroom).1.bounded s i hm
    show ((b.setSlot i none).forgetChange s.changeRev).Vouches
    unfold forgetChange
    split
    · exact hbound
    · exact hb

/-- Past the head nothing is accounted for. -/
theorem Vouches.not_accounts (h : a.Vouches) (hn : a.Numbered) (k : Key) :
    ¬ a.Accounts a.changeSeq k := by
  rintro (hhor | ⟨s, i, hs, -, hrev⟩)
  · exact UInt64.not_lt.mpr h hhor
  · exact UInt64.not_lt.mpr (hn.bounded s i hs) hrev

end Arena

namespace Node

variable {L : Limits} {n : Node L} {e : Event}

/-- What an event does keeps the horizon at the counter or below. -/
theorem Room.vouches (h : n.Coherent) (hn : n.ns.bindings.Numbered) (hroom : n.Room e)
    (hv : n.ns.bindings.Vouches) : (n.step e).ns.bindings.Vouches := by
  by_cases he : e = .crash
  · subst he
    show (boot L n.walConfigured n.disk).ns.bindings.Vouches
    unfold boot
    dsimp only
    split
    · obtain ⟨ws, ht, hle⟩ := (sound_opened (sorted_opens (L := L) h.disk)).trace_replay n.disk.log
      have hlt : ws.length < 2 ^ 64 := hle.trans_lt hroom
      exact ht.vouches Arena.numbered_new ((Nat.zero_add _).symm ▸ hlt) (UInt64.le_refl _)
    · exact UInt64.le_refl _
  · obtain ⟨ws, ht, hle, -⟩ | ⟨-, tag, hf⟩ := h.trace he
    · have hlt := hroom.lt he
      exact ht.vouches hn (by omega) hv
    · rw [hf]
      exact hv

theorem reached_numbers (cfg : Bool) {es : List Event}
    (hroom : Run.AllSteps step Room (init L cfg) es) :
    (reached L cfg es).ns.bindings.Numbered ∧ (reached L cfg es).ns.bindings.Vouches := by
  refine (Run.invariant
    (I := fun n : Node L => n.Coherent ∧ n.ns.bindings.Numbered ∧ n.ns.bindings.Vouches)
    (fun _ e h hroom => ⟨h.1.step e, Room.numbered h.1 h.2.1 hroom,
      Room.vouches h.1 h.2.1 hroom h.2.2⟩)
    ⟨coherent_init cfg, numbered_init cfg, ?_⟩ hroom).2
  cases cfg <;> exact UInt64.le_refl _

end Node

/-! ## The reader -/

/-- What the namespace holds for a name: the target it is bound to. -/
def Namespace.holds {L : Limits} (ns : Namespace L) (path : Bytes) : Option Bytes :=
  ((ns.view (surfaceKey path)).filter Binding.live).map Binding.objectId

/-- What a record says its key holds. -/
def ChangeRec.entry (r : ChangeRec) : Bytes × Option Bytes :=
  (r.key, if r.kind = .deleted then none else some r.value)

/-- An instance, and a reader of what changes under a prefix. -/
structure FeedWorld (L : Limits) where
  node : Node L
  pre : Bytes
  token : Bytes
  table : Bytes → Option Bytes

/-- What happens. -/
inductive FeedEvent where
  | node (e : Event)
  /-- The reader asks, with a buffer of so many bytes. -/
  | read (io : ReadEnv) (out : ℕ)

namespace FeedWorld

variable {L : Limits} {w : FeedWorld L} {wire : ChangesWire}

/-- The reader has an answer: a relist begins with nothing, a page is put over what there is, and
a lost window begins a relist. -/
def answered (w : FeedWorld L) : ChangesReply → FeedWorld L
  | .lost => { w with token := [] }
  | .page recs _ _ token =>
    { w with
      token := token
      table := Follow.take (if w.token = [] then fun _ => none else w.table)
        (recs.map ChangeRec.entry) }

/-- The reader asks. What is refused leaves it as it is. -/
def read (wire : ChangesWire) (w : FeedWorld L) (io : ReadEnv) (out : ℕ) : FeedWorld L :=
  match w.node.ns.nsChanges wire io w.pre w.token out with
  | .error _ => w
  | .ok p => w.answered (wire.read p)

/-- One event. -/
def step (wire : ChangesWire) (w : FeedWorld L) : FeedEvent → FeedWorld L
  | .node e => { w with node := w.node.step e }
  | .read io out => w.read wire io out

/-- A run of events. -/
def run (wire : ChangesWire) (w : FeedWorld L) (es : List FeedEvent) : FeedWorld L :=
  Run.run (step wire) w es

/-- A reader that has not asked. -/
def begin (n : Node L) (pre : Bytes) : FeedWorld L := ⟨n, pre, [], fun _ => none⟩

/-- The instance goes on running, and its counter does not go round. -/
def Room (w : FeedWorld L) : FeedEvent → Prop
  | .node e => e ≠ .crash ∧ w.node.Room e
  | .read .. => True

/-! ## What the reader has -/

/-- The names it is told of: those under the prefix, but for the empty one. -/
def Watched (pre path : Bytes) : Prop := path ≠ [] ∧ pre <+: path

/-- The names a relist has come to. -/
def Behind (cursor path : Bytes) : Prop := surfaceKey path ≤ surfaceKey cursor

/-- What a reader has of a namespace, by its token. -/
inductive Has (wire : ChangesWire) (ns : Namespace L) (pre : Bytes)
    (table : Bytes → Option Bytes) : Bytes → Prop
  | nothing : Has wire ns pre table []
  /-- It is at a revision: everything, up to what was changed past that. -/
  | upTo (q : UInt64) : q ≤ ns.bindings.changeSeq →
    Follow.UpTo (Watched pre) ns.holds table (fun p => ns.bindings.Accounts q (surfaceKey p)) →
    Has wire ns pre table (wire.revisionToken q)
  /-- It is in a relist: everything up to the cursor, up to what was changed past the revision
  the relist began at, and nothing beyond it. -/
  | relisting (q : UInt64) (cursor : Bytes) : q ≤ ns.bindings.changeSeq → cursor ≠ [] →
    Follow.UpTo (fun p => Watched pre p ∧ Behind cursor p) ns.holds table
      (fun p => ns.bindings.Accounts q (surfaceKey p)) →
    (∀ p, ¬ Behind cursor p → table p = none) →
    Has wire ns pre table (Namespace.relistToken q cursor)

/-- What holds between two events. -/
structure Inv (wire : ChangesWire) (w : FeedWorld L) : Prop where
  coherent : w.node.Coherent
  numbered : w.node.ns.bindings.Numbered
  vouches : w.node.ns.bindings.Vouches
  has : Has wire w.node.ns w.pre w.table w.token

/-- What happens to the instance, the reader's token accounts for. -/
theorem Inv.node (h : w.Inv wire) {e : Event} (he : e ≠ .crash) (hroom : w.node.Room e) :
    Inv wire { w with node := w.node.step e } := by
  refine ⟨h.coherent.step e, Node.Room.numbered h.coherent h.numbered hroom,
    Node.Room.vouches h.coherent h.numbered hroom h.vouches, ?_⟩
  have hacc := Node.Room.accounted h.coherent h.numbered hroom he
  have hmoves : ∀ q, q ≤ w.node.ns.bindings.changeSeq → ∀ p,
      (w.node.step e).ns.holds p = w.node.ns.holds p ∨
        (w.node.step e).ns.bindings.Accounts q (surfaceKey p) := fun q hq p => by
    obtain hv | hrev | ⟨s, i, hs, hsk, hrev⟩ := hacc.changed (surfaceKey p)
    · refine .inl ?_
      unfold Namespace.holds
      rw [hv]
    · exact .inr (.inl (UInt64.lt_of_le_of_lt hq hrev))
    · exact .inr (.inr ⟨s, i, hs, hsk, UInt64.lt_of_le_of_lt hq hrev⟩)
  have hhas := h.has
  generalize w.token = token at hhas ⊢
  cases hhas with
  | nothing => exact .nothing
  | upTo q hq hup =>
    exact .upTo q (UInt64.le_trans hq hacc.seq)
      (hup.moves (hmoves q hq) fun p => hacc.stays q (surfaceKey p))
  | relisting q cursor hq hne hup hnone =>
    exact .relisting q cursor (UInt64.le_trans hq hacc.seq) hne
      (hup.moves (hmoves q hq) fun p => hacc.stays q (surfaceKey p)) hnone

/-! ## A delta page is taken -/

/-- The record of a slot says what the namespace holds. -/
theorem holds_of_slot {ns : Namespace L} (hs : ns.Sound) {s : BindingSlot} {i : ℕ}
    (hm : (s, i) ∈ ns.bindings.occupied) (hroot : s.root = []) :
    (Arena.changeRec s).entry = (s.path, ns.holds s.path) := by
  have hkey : surfaceKey s.path = s.toKey := by
    rw [surfaceKey, ← hroot]
  have hview : ns.view (surfaceKey s.path) = some s.toBinding := by
    rw [hkey]
    exact Namespace.view_of_lookup (hs.arena.lookup_of_mem hm)
  rw [Namespace.holds, hview]
  unfold ChangeRec.entry Arena.changeRec Arena.changeValue
  by_cases hk : s.kind = kindTombstone
  · simp [hk, Option.filter, Binding.live]
  · simp [hk, Option.filter, Binding.live]

theorem Has.delta {ns : Namespace L} {pre : Bytes} {table : Bytes → Option Bytes}
    {since cut : UInt64} {out : ℕ} (hs : ns.Sound)
    (hpage : ns.bindings.IsDelta wire pre since cut out)
    (hup : Follow.UpTo (Watched pre) ns.holds table
      (fun p => ns.bindings.Accounts since (surfaceKey p))) :
    Has wire ns pre (Follow.take table
      (((ns.bindings.window pre since cut).map Arena.changeRec).map ChangeRec.entry))
      (wire.revisionToken cut) := by
  refine .upTo cut hpage.to_head (hup.page (fun r hr => ?_) fun p hp hacc => ?_)
  · rw [List.map_map] at hr
    obtain ⟨s, hmem, rfl⟩ := List.mem_map.mp hr
    obtain ⟨⟨i, hi⟩, -, hroot, -⟩ := Arena.mem_window.mp hmem
    show (Arena.changeRec s).entry.2 = ns.holds (Arena.changeRec s).entry.1
    rw [holds_of_slot hs hi hroot]
  · obtain hhor | ⟨s, i, hi, hkey, hrev⟩ := hacc
    · exact absurd hhor (UInt64.not_lt.mpr hpage.vouched)
    have hroot : s.root = [] := congrArg Key.root hkey
    have hpath : s.path = p := congrArg Key.path hkey
    by_cases hcut : s.changeRev ≤ cut
    · -- The change is on the page.
      refine .inl ?_
      rw [List.map_map, List.map_map]
      refine List.mem_map.mpr ⟨s, Arena.mem_window.mpr ⟨⟨i, hi⟩, ?_, hroot, hrev, hcut, ?_⟩, hpath⟩
      · rw [hpath]
        exact hp.1
      · rw [hpath]
        exact hp.2
    · exact .inr (.inr ⟨s, i, hi, hkey, UInt64.not_le.mp hcut⟩)

/-! ## A relist's page is taken -/

/-- The names beyond the empty one are all but it. -/
theorem not_behind_nil {p : Bytes} (hp : p ≠ []) : ¬ Behind [] p := by
  cases p with
  | nil => exact absurd rfl hp
  | cons b bs => exact not_le.mpr (keyCmp_lt_iff.mp rfl)

theorem Has.relist {ns : Namespace L} {pre cursor : Bytes} {table : Bytes → Option Bytes}
    {q : UInt64} {xs ys : List Listed} (hq : q ≤ ns.bindings.changeSeq)
    (hpage : ns.IsRelist pre cursor xs ys)
    (hup : Follow.UpTo (fun p => Watched pre p ∧ Behind cursor p) ns.holds table
      (fun p => ns.bindings.Accounts q (surfaceKey p)))
    (hnone : ∀ p, ¬ Behind cursor p → table p = none) :
    (ys = [] → Has wire ns pre (Follow.take table
      ((xs.map Namespace.addedRec).map ChangeRec.entry)) (wire.revisionToken q)) ∧
    ∀ zs e, xs = zs ++ [e] → Has wire ns pre (Follow.take table
      ((xs.map Namespace.addedRec).map ChangeRec.entry)) (Namespace.relistToken q e.path) := by
  have hlisted := hpage.listing.mem_iff
  -- The page says what the namespace holds.
  have htells : Follow.Tells ns.holds ((xs.map Namespace.addedRec).map ChangeRec.entry) := by
    intro r hr
    rw [List.map_map] at hr
    obtain ⟨e, he, rfl⟩ := List.mem_map.mp hr
    obtain ⟨-, -, hview, hlive⟩ :=
      (hlisted e.entry).mp (List.mem_map_of_mem (List.mem_append_left ys he))
    show some e.binding.objectId = ns.holds e.path
    have hview' : ns.view (surfaceKey e.path) = some e.binding := hview
    have hlive' : e.binding.live = true := hlive
    rw [Namespace.holds, hview']
    simp [Option.filter, hlive']
  have hkeys : ∀ p, p ∈ ((xs.map Namespace.addedRec).map ChangeRec.entry).map Prod.fst ↔
      ∃ e ∈ xs, e.path = p := fun p => by
    rw [List.map_map, List.map_map, List.mem_map]
    exact Iff.rfl
  -- A name beyond the cursor that is held is on this page or on a later one.
  have hrest : ∀ p, Watched pre p → ¬ Behind cursor p → ns.holds p ≠ none →
      ∃ e ∈ xs ++ ys, e.path = p := by
    intro p hp hbeyond hholds
    cases hv : ns.view (surfaceKey p) with
    | none =>
      rw [Namespace.holds, hv] at hholds
      exact absurd rfl hholds
    | some b =>
      cases hlive : b.live with
      | false =>
        rw [Namespace.holds, hv] at hholds
        exact absurd (by simp [Option.filter, hlive]) hholds
      | true =>
        obtain ⟨e, he, heq⟩ := List.mem_map.mp
          ((hlisted (p, b)).mpr ⟨hp.2, not_le.mp hbeyond, hv, hlive⟩)
        exact ⟨e, he, congrArg Prod.fst heq⟩
  -- So each watched name the page has come to is right.
  have hright : ∀ P : Bytes → Prop, (∀ p, Watched pre p → P p → ∀ e ∈ ys, e.path ≠ p) →
      Follow.UpTo (fun p => Watched pre p ∧ P p) ns.holds
        (Follow.take table ((xs.map Namespace.addedRec).map ChangeRec.entry))
        (fun p => ns.bindings.Accounts q (surfaceKey p)) := by
    intro P hP p ⟨hp, hPp⟩
    rw [htells.take]
    split
    · exact .inl rfl
    next hoff =>
    by_cases hbehind : Behind cursor p
    · exact hup p ⟨hp, hbehind⟩
    refine .inl ?_
    rw [hnone p hbehind]
    by_contra hne
    obtain ⟨e, he, heq⟩ := hrest p hp hbehind (Ne.symm hne)
    obtain he | he := List.mem_append.mp he
    · exact hoff ((hkeys p).mpr ⟨e, he, heq⟩)
    · exact hP p hp hPp e he heq
  refine ⟨fun hys => ?_, ?_⟩
  · refine .upTo q hq ((hright (fun _ => True) fun p _ _ e he => ?_).watch
      fun p hp => ⟨hp, trivial⟩)
    rw [hys] at he
    exact absurd he List.not_mem_nil
  · rintro zs e rfl
    have hsorted := hpage.listing.sorted
    rw [List.append_assoc, List.map_append, List.pairwise_append] at hsorted
    obtain ⟨-, hafter, hbefore⟩ := hsorted
    have hlast : ∀ e' ∈ zs ++ [e], Behind e.path e'.path := fun e' he' => by
      obtain he' | he' := List.mem_append.mp he'
      · exact le_of_lt (hbefore _ (List.mem_map_of_mem he') _
          (List.mem_map_of_mem (List.mem_append_left ys (List.mem_singleton_self e))))
      · rw [List.mem_singleton.mp he']
        exact le_refl _
    have hentry := (hlisted e.entry).mp (List.mem_map_of_mem
      (List.mem_append_left ys (List.mem_append_right zs (List.mem_singleton_self e))))
    have hcursor : surfaceKey cursor < surfaceKey e.path := hentry.2.1
    refine .relisting q e.path hq ?_ (hright (Behind e.path) fun p _ hbehind e' he' heq => ?_)
      fun p hbeyond => ?_
    · intro hnil
      refine absurd hcursor (not_lt.mpr ?_)
      rw [hnil]
      exact not_lt.mp fun hlt => by
        cases cursor with
        | nil => exact lt_irrefl _ hlt
        | cons b bs => exact lt_asymm hlt (keyCmp_lt_iff.mp rfl)
    · -- The later pages are beyond the page's last name.
      have hlt : surfaceKey e.path < surfaceKey e'.path :=
        (List.pairwise_cons.mp hafter).1 _ (List.mem_map_of_mem he')
      rw [heq] at hlt
      exact absurd hlt (not_lt.mpr hbehind)
    · rw [htells.take, if_neg, hnone p]
      · exact fun hb => hbeyond (le_trans hb (le_of_lt hcursor))
      · intro hmem
        obtain ⟨e', he', heq⟩ := (hkeys p).mp hmem
        exact hbeyond (heq ▸ hlast e' he')

/-- A relist's page is taken, whatever it says of the rest. -/
theorem Has.relisted {ns : Namespace L} {pre cursor : Bytes} {table : Bytes → Option Bytes}
    {q : UInt64} {io : ReadEnv} {out : ℕ} {p : wire.Page} (hw : wire.Lawful) (hs : ns.Sound)
    (hp : ns.relistPage wire io pre q cursor out = .ok p) (hq : q ≤ ns.bindings.changeSeq)
    (hup : Follow.UpTo (fun p => Watched pre p ∧ Behind cursor p) ns.holds table
      (fun p => ns.bindings.Accounts q (surfaceKey p)))
    (hnone : ∀ p, ¬ Behind cursor p → table p = none) :
    ∃ recs more rev token, wire.read p = .page recs more rev token ∧
      Has wire ns pre (Follow.take table (recs.map ChangeRec.entry)) token := by
  obtain ⟨xs, ys, hpage, hread⟩ := hs.relistPage_eq_ok hw hp
  obtain ⟨hlast, hmore⟩ := Has.relist hq hpage hup hnone
  obtain ⟨hys, hread⟩ | ⟨zs, e, hxs, hread⟩ := hread
  · exact ⟨_, _, _, _, hread, hlast hys⟩
  · exact ⟨_, _, _, _, hread, hmore zs e hxs⟩

/-! ## Every run -/

theorem length_relistToken (q : UInt64) (cursor : Bytes) :
    (Namespace.relistToken q cursor).length = 9 + cursor.length := by
  rw [Namespace.relistToken, List.length_cons, List.length_append, length_leBytes]
  omega

theorem nsChanges_relistToken (ns : Namespace L) (io : ReadEnv) (pre : Bytes) (q : UInt64)
    (cursor : Bytes) (out : ℕ) :
    ns.nsChanges wire io pre (Namespace.relistToken q cursor) out =
      ns.relistPage wire io pre q cursor out := by
  have hlen := length_relistToken q cursor
  have htake : ((Namespace.relistToken q cursor).drop 1).take 8 = leBytes 8 q.toNat := by
    show (leBytes 8 q.toNat ++ cursor).take 8 = _
    exact List.take_left' (length_leBytes 8 _)
  have hdrop : (Namespace.relistToken q cursor).drop 9 = cursor := by
    show (leBytes 8 q.toNat ++ cursor).drop 8 = _
    exact List.drop_left' (length_leBytes 8 _)
  have hq : leNat (leBytes 8 q.toNat) = q.toNat := leNat_leBytes q.toNat_lt
  have h8 : revisionTokenLen = 8 := rfl
  rw [Namespace.nsChanges, if_neg (by omega), if_neg (by omega), if_pos ⟨by omega, rfl⟩, htake,
    hdrop, hq, UInt64.ofNat_toNat]

/-- **A page keeps what the reader has right.** -/
theorem Inv.read (hw : wire.Lawful) (h : w.Inv wire) (io : ReadEnv) (out : ℕ) :
    Inv wire (w.read wire io out) := by
  unfold FeedWorld.read
  cases hp : w.node.ns.nsChanges wire io w.pre w.token out with
  | error e => exact h
  | ok p =>
    -- The instance is as it was; what is to be seen to is the reader.
    suffices hhas : Has wire w.node.ns w.pre (w.answered (wire.read p)).table
        (w.answered (wire.read p)).token by
      dsimp only
      have hsame : (w.answered (wire.read p)).node = w.node ∧
          (w.answered (wire.read p)).pre = w.pre := by
        unfold answered
        split <;> exact ⟨rfl, rfl⟩
      refine ⟨?_, ?_, ?_, ?_⟩ <;> rw [hsame.1]
      · exact h.coherent
      · exact h.numbered
      · exact h.vouches
      · rw [hsame.2]
        exact hhas
    have hs := h.coherent.sound
    obtain ⟨node, pre, token, table⟩ := w
    have hhas : Has wire node.ns pre table token := h.has
    have hp : node.ns.nsChanges wire io pre token out = .ok p := hp
    cases hhas with
    | nothing =>
      have hrelist : node.ns.relistPage wire io pre node.ns.bindings.changeSeq [] out = .ok p := hp
      obtain ⟨recs, more, rev, token, hread, hhas⟩ := Has.relisted hw hs hrelist
        (UInt64.le_refl _) (fun q hq => absurd hq.2 (not_behind_nil hq.1.1)) fun _ _ => rfl
      rw [hread]
      exact hhas
    | upTo q hq hup =>
      have hlen := hw.token_length q
      have h8 : revisionTokenLen = 8 := rfl
      rw [Namespace.nsChanges, if_neg (by omega), if_pos hlen, hw.token_revision] at hp
      obtain ⟨hread, -⟩ | ⟨cut, hpage, hread⟩ := Arena.deltaPage_eq_ok hw hp
      · rw [hread]
        exact .nothing
      · have hne : wire.revisionToken q ≠ [] := fun hnil => by
          rw [hnil] at hlen
          cases hlen
        rw [hread]
        show Has wire node.ns pre (Follow.take (if wire.revisionToken q = [] then _ else table) _) _
        rw [if_neg hne]
        exact .delta hs hpage hup
    | relisting q cursor hq hne hup hnone =>
      rw [nsChanges_relistToken] at hp
      obtain ⟨recs, more, rev, token, hread, hhas⟩ := Has.relisted hw hs hp hq hup hnone
      rw [hread]
      exact hhas

theorem Inv.step (hw : wire.Lawful) (h : w.Inv wire) {e : FeedEvent} (hroom : w.Room e) :
    Inv wire (w.step wire e) := by
  cases e with
  | node e => exact h.node hroom.1 hroom.2
  | read io out => exact h.read hw io out

/-- **The reader follows**: with the token of a revision it has what the namespace holds, but for
names that were changed past that revision, which the arena accounts for; and with that of the
head, all of it. -/
structure Follows (wire : ChangesWire) (w : FeedWorld L) : Prop where
  accounted : ∀ q, w.token = wire.revisionToken q → q ≤ w.node.ns.bindings.changeSeq ∧
    ∀ p, p ≠ [] → w.pre <+: p →
      w.table p = w.node.ns.holds p ∨ w.node.ns.bindings.Accounts q (surfaceKey p)
  head : w.token = wire.revisionToken w.node.ns.bindings.changeSeq →
    ∀ p, p ≠ [] → w.pre <+: p → w.table p = w.node.ns.holds p

theorem Inv.follows (hw : wire.Lawful) (h : w.Inv wire) : w.Follows wire := by
  have hat : ∀ q, w.token = wire.revisionToken q → q ≤ w.node.ns.bindings.changeSeq ∧
      ∀ p, p ≠ [] → w.pre <+: p →
        w.table p = w.node.ns.holds p ∨ w.node.ns.bindings.Accounts q (surfaceKey p) := by
    intro q hq
    have hlen := hw.token_length q
    have h8 : revisionTokenLen = 8 := rfl
    have hhas := h.has
    rw [hq] at hhas
    generalize htoken : wire.revisionToken q = token at hhas hlen
    cases hhas with
    | nothing => cases hlen
    | upTo q' hq' hup =>
      have hsame : q = q' := by
        have hrev := hw.token_revision q
        rw [htoken, hw.token_revision] at hrev
        exact (Option.some.inj hrev).symm
      subst hsame
      exact ⟨hq', fun p hp hpre => hup p ⟨hp, hpre⟩⟩
    | relisting q' cursor =>
      rw [length_relistToken] at hlen
      omega
  refine ⟨hat, fun hhead p hp hpre => ?_⟩
  exact ((hat _ hhead).2 p hp hpre).resolve_right (h.vouches.not_accounts h.numbered _)

/-- **A reader that keeps to the pages has the namespace**: begun over any instance, and with
anything fed, called and compacted between its pages. -/
theorem reader_follows (hw : wire.Lawful) (cfg : Bool) {history : List Event}
    (hhist : Run.AllSteps Node.step Node.Room (Node.init L cfg) history) (pre : Bytes)
    {es : List FeedEvent}
    (hroom : Run.AllSteps (step wire) Room (begin (Node.reached L cfg history) pre) es) :
    ((begin (Node.reached L cfg history) pre).run wire es).Follows wire := by
  obtain ⟨hnum, hvouch⟩ := Node.reached_numbers cfg hhist
  exact (Run.invariant (I := Inv wire) (fun _ _ h hroom => h.step hw hroom)
    ⟨Node.coherent_reached cfg history, hnum, hvouch, .nothing⟩ hroom).follows hw

end FeedWorld

/-! ## A contract -/

/-- A contract whose pages are what is read of them and have room for every record, a revision
being little-endian. -/
def ChangesWire.plain : ChangesWire where
  Writer := List ChangeRec
  Page := ChangesReply
  headLen := 4
  trailerFixedLen := 11
  recordFixedLen := 12
  new out reserve := if out < 15 + reserve then none else some []
  push recs r := some (recs ++ [r])
  count := List.length
  finish recs more rev token := some (.page recs more rev token)
  writeLost out := if out < 4 then none else some .lost
  revisionToken q := leBytes 8 q.toNat
  tokenRevision token := if token.length = 8 then some (UInt64.ofNat (leNat token)) else none
  read := id

namespace ChangesWire

theorem plain_push (w recs : List ChangeRec) : recs.foldlM plain.push w = some (w ++ recs) := by
  induction recs generalizing w with
  | nil => exact congrArg some (List.append_nil w).symm
  | cons r recs ih => exact (ih (w ++ [r])).trans (congrArg some (List.append_assoc w [r] recs))

theorem plain_new {out reserve : ℕ} {w : List ChangeRec} (h : plain.new out reserve = some w) :
    w = [] := by
  have h' : (if out < 15 + reserve then none else some ([] : List ChangeRec)) = some w := h
  split at h'
  · cases h'
  · exact (Option.some.inj h').symm

theorem plain_lawful : plain.Lawful where
  wrote := fun {_ _ w w' recs more rev token p} hnew hpush hp => by
    obtain rfl := plain_new hnew
    obtain rfl := Option.some.inj ((plain_push [] recs).symm.trans hpush)
    exact (Option.some.inj hp).symm
  lost := fun {out p} hp => by
    have hp' : (if out < 4 then none else some ChangesReply.lost) = some p := hp
    split at hp'
    · cases hp'
    · exact (Option.some.inj hp').symm
  counts := fun {_ _ w w' recs} hnew hpush => by
    obtain rfl := plain_new hnew
    obtain rfl := Option.some.inj ((plain_push [] recs).symm.trans hpush)
    rfl
  room := fun {_ _ w recs} _ _ _ => ⟨_, plain_push w recs, fun _ _ _ _ => ⟨_, rfl⟩⟩
  token_length := fun q => length_leBytes 8 _
  token_revision := fun q => by
    show (if (leBytes 8 q.toNat).length = 8 then some (UInt64.ofNat (leNat (leBytes 8 q.toNat)))
      else none) = _
    have hq : leNat (leBytes 8 q.toNat) = q.toNat := leNat_leBytes q.toNat_lt
    rw [if_pos (length_leBytes 8 _), hq, UInt64.ofNat_toNat]

end ChangesWire

/-- A reader relists, a name is bound and one deleted, and it reads what changed. -/
theorem FeedWorld.reader_follows_bound :
    ((begin (Node.reached .minimal true
      [.surface (.bind [1] 0 false [1]) .allReady 5]) []).run .plain
      [.read .allReady 1024, .node (.surface (.bind [2] 0 false [1]) .allReady 6),
        .node (.surface (.delete [1]) .allReady 7), .read .allReady 256]).Follows .plain :=
  reader_follows ChangesWire.plain_lawful true (by decide +kernel) []
    ⟨trivial, ⟨Event.noConfusion, by decide +kernel⟩, ⟨Event.noConfusion, by decide +kernel⟩,
      trivial, trivial⟩

end Loam

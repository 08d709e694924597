import Loam.ListWalk
import Loam.WireCodecs

/-!
# The pages of a listing

A listing is asked for page by page, each request naming the last path of the
page before. What one walk would give, its pages give together: every live
binding under the root whose path begins as asked, once, in ascending order,
whichever tier holds it (`pages_listing`). The page buffer has room for as many
entries of the longest fields as a page may have, so a page ends early only
where the listing does, and every page before brings the cursor on.

The cursor is exclusive and begins at the empty path, and the arena's scan
passes the empty path over: a binding there is on no page.
-/

namespace Loam

/-! ## One page -/

/-- The most bytes of an entry. -/
def entryMax (L : Limits) : ℕ :=
  2 + L.maxPath + 1 + L.maxObjectId + 8 + 1 + 8 + 8 + 1 + L.contentTypeMax + 1 + L.keyRefMax + 8 + 1

/-- The size of the page buffer (`LIST_RESP_MAX`). -/
def listRespMax (L : Limits) : ℕ := 3 + maxListPage * entryMax L

/-- The entries a request may have of a page: as many as it asks for, one at
least. -/
def pageSize (max : UInt8) : ℕ := min (Nat.max 1 max.toNat) maxListPage

theorem exists_pageSize (max : UInt8) : ∃ n, pageSize max = n + 1 :=
  Nat.exists_eq_add_one.mpr (Nat.lt_min.mpr ⟨Nat.le_max_left 1 _, by decide⟩)

theorem pageSize_le (max : UInt8) : pageSize max ≤ maxListPage := Nat.min_le_right _ _

/-- Write an entry, while there are fewer than asked for. -/
def ListWriter.take (size : ℕ) (w : ListWriter) (e : Listed) : Option ListWriter :=
  if w.count.toNat < size then w.push e.path e.binding else none

/-- The byte of a request that is refused. -/
def listRefused : UInt8 := 0xFF

namespace Namespace

variable {L : Limits} {ns : Namespace L} {io : ReadEnv} {root pre after : Bytes} {max : UInt8}

/-- Answer a request for a page (`handle_list`), unless a read it needs is
being fetched and it is asked again. -/
def handleList (ns : Namespace L) (io : ReadEnv) (bytes : Bytes) : Option Bytes :=
  match decodeListReq L bytes with
  | .error _ => some [listRefused]
  | .ok req =>
    match ListWriter.new (listRespMax L) with
    | none => some [listRefused]
    | some w =>
      match ns.walkOrdered io req.root req.pathPrefix req.after
          (ListWriter.take (pageSize req.max)) w with
      | .ready (more, w) => some (w.finish more)
      | .pending => none
      | .failed => some [listRefused]

/-- A request for the page after a cursor is answered with these entries. -/
def ListsPage (ns : Namespace L) (root pre : Bytes) (max : UInt8) (after : Bytes)
    (es : List (Bytes × Binding)) (more : Bool) : Prop :=
  ∃ io req r, decodeListReq L req = .ok ⟨root, pre, after, max⟩ ∧ ns.handleList io req = some r ∧
    decodeListResp r = .ok (es, more)

/-- The cursor after a page. -/
def lastPath (after : Bytes) (es : List (Bytes × Binding)) : Bytes :=
  (es.getLast?.map Prod.fst).getD after

/-! ## What a page holds -/

/-- A walk's entries in a page buffer that has room for them. -/
theorem takeAll_take {size room : ℕ} (hsize : size ≤ maxListPage) (hroom : listRespMax L ≤ room)
    {es : List Listed} (hes : ∀ e ∈ es, (putEntry e.path e.binding).length ≤ entryMax L)
    {w : ListWriter} (hw : w.room = room) (hc : w.count.toNat ≤ size)
    (hb : w.body.length ≤ w.count.toNat * entryMax L) :
    ∃ w', ((es.map Listed.entry).take (size - w.count.toNat)).foldlM
        (fun (w : ListWriter) e => w.push e.1 e.2) w = some w' ∧
      takeAll (ListWriter.take size) es w = (decide (size < w.count.toNat + es.length), w') := by
  induction es generalizing w with
  | nil =>
    refine ⟨w, by rw [List.map_nil, List.take_nil]; rfl, ?_⟩
    rw [takeAll, List.length_nil, Nat.add_zero, decide_eq_false (Nat.not_lt.mpr hc)]
  | cons e es ih =>
    rcases Nat.lt_or_eq_of_le hc with hlt | heq
    · have hlen := hes e List.mem_cons_self
      rw [length_putEntry (e.path, e.binding)] at hlen
      have hmul : (w.count.toNat + 1) * entryMax L ≤ maxListPage * entryMax L :=
        Nat.mul_le_mul_right _ (hlt.trans_le hsize)
      rw [Nat.add_one_mul] at hmul
      have hpush : w.push e.path e.binding
          = some ⟨w.room, w.body ++ putEntry e.path e.binding, w.count + 1⟩ := by
        rw [ListWriter.push, if_neg]
        rw [listRespMax] at hroom
        dsimp only at hlen
        omega
      have hcount := push_count (hlt.trans_le hsize)
      have hnext := @ih (fun e' he' => hes e' (List.mem_cons_of_mem e he'))
        ⟨w.room, w.body ++ putEntry e.path e.binding, w.count + 1⟩ hw (by
          dsimp only
          omega) (by
          dsimp only
          rw [List.length_append, length_putEntry (e.path, e.binding), hcount, Nat.add_one_mul]
          dsimp only at hlen ⊢
          omega)
      dsimp only at hnext
      rw [hcount] at hnext
      obtain ⟨w', hfold, htake⟩ := hnext
      refine ⟨w', ?_, ?_⟩
      · rw [List.map_cons, show size - w.count.toNat = size - (w.count.toNat + 1) + 1 by omega,
          List.take_succ_cons, List.foldlM_cons]
        show (w.push e.path e.binding >>= _) = _
        rw [hpush]
        exact hfold
      · rw [takeAll, ListWriter.take, if_pos hlt, hpush]
        dsimp only
        rw [htake, List.length_cons]
        congr 2
        rw [Nat.add_assoc, Nat.add_comm 1]
    · refine ⟨w, ?_, ?_⟩
      · rw [heq, Nat.sub_self]
        rfl
      · rw [takeAll, ListWriter.take, if_neg (by omega), List.length_cons,
          decide_eq_true (show size < w.count.toNat + (es.length + 1) by omega)]

/-- Every binding of the view is one a bind would write. -/
def ViewFits (ns : Namespace L) : Prop :=
  ∀ k b, ns.view k = some b → Arena.bindFits L k b.objectId b.metadata = true

/-- An entry of a listing fits the page's fields, and its share of the
buffer. -/
theorem ViewFits.entry (hf : ns.ViewFits) (hL : L.FitsWire) {e : Bytes × Binding}
    (he : ns.view ⟨root, e.1⟩ = some e.2) :
    EntryFitsWire e ∧ (putEntry e.1 e.2).length ≤ entryMax L ∧ e.1.length ≤ L.maxPath := by
  obtain ⟨hkey, hoid, hct, hkr⟩ := Arena.bindFits_iff.mp (hf _ _ he)
  obtain ⟨-, hpath⟩ : root.length ≤ L.maxRoot ∧ e.1.length ≤ L.maxPath := by
    simpa [Limits.keyFits] using hkey
  have hp := hL.path
  refine ⟨⟨by unfold FitsTwo; omega, ?_⟩, ?_, hpath⟩
  · have ho := hL.objectId
    have hc := hL.contentType
    have hk := hL.keyRef
    refine ⟨?_, ?_, ?_⟩ <;> unfold FitsOne <;> omega
  · rw [length_putEntry, bindingLen, entryMax]
    omega

/-! ## A listing and what is left of it -/

theorem IsListing.unique {es es' : List (Bytes × Binding)} (h : ns.IsListing root pre after es)
    (h' : ns.IsListing root pre after es') : es = es' := by
  have hnd : ∀ {l : List (Bytes × Binding)},
      (l.Pairwise fun e e' => (⟨root, e.1⟩ : Key) < ⟨root, e'.1⟩) → l.Nodup :=
    fun hl => hl.imp (S := (· ≠ ·)) fun hlt he => lt_irrefl _ (he ▸ hlt)
  have hperm : es.Perm es' := (List.perm_ext_iff_of_nodup (hnd h.sorted) (hnd h'.sorted)).mpr
    fun e => (h.mem_iff e).trans (h'.mem_iff e).symm
  exact hperm.eq_of_pairwise (fun a b _ _ hab hba => absurd hab (lt_asymm hba)) h.sorted h'.sorted

theorem IsListing.congr {ns' : Namespace L} {es : List (Bytes × Binding)}
    (h : ns.IsListing root pre after es) (hv : ∀ k, ns'.view k = ns.view k) :
    ns'.IsListing root pre after es :=
  ⟨h.sorted, fun e => by rw [h.mem_iff, hv]⟩

/-- What is beyond an entry of a listing is the rest of it. -/
theorem IsListing.beyond {xs ys : List (Bytes × Binding)} {x : Bytes × Binding}
    (h : ns.IsListing root pre after (xs ++ x :: ys)) : ns.IsListing root pre x.1 ys := by
  obtain ⟨-, hxys, hxs⟩ := List.pairwise_append.mp h.sorted
  obtain ⟨hx, hys⟩ := List.pairwise_cons.mp hxys
  obtain ⟨-, hax, -⟩ := (h.mem_iff x).mp (by simp)
  refine ⟨hys, fun e => ⟨fun he => ?_, fun ⟨hpre, hlt, hv⟩ => ?_⟩⟩
  · obtain ⟨hpre, -, hv⟩ := (h.mem_iff e).mp (by simp [he])
    exact ⟨hpre, hx e he, hv⟩
  · have he := (h.mem_iff e).mpr ⟨hpre, hax.trans hlt, hv⟩
    rcases List.mem_append.mp he with he | he
    · exact absurd hlt (lt_asymm (hxs e he x List.mem_cons_self))
    rcases List.mem_cons.mp he with rfl | he
    · exact absurd hlt (lt_irrefl _)
    · exact he

/-- The cursor after a page that is not the end of a listing. -/
theorem lastPath_take {es : List (Bytes × Binding)} {n : ℕ} (hlt : n < es.length) :
    lastPath after (es.take (n + 1)) = es[n].1 := by
  rw [lastPath, List.take_succ_eq_append_getElem hlt,
    List.getLast?_append_of_ne_nil _ (List.cons_ne_nil _ _)]
  rfl

/-- What is left of a listing after such a page. -/
theorem IsListing.drop {es : List (Bytes × Binding)} (h : ns.IsListing root pre after es) {n : ℕ}
    (hlt : n < es.length) :
    ns.IsListing root pre (lastPath after (es.take (n + 1))) (es.drop (n + 1)) := by
  rw [lastPath_take hlt]
  refine @IsListing.beyond L ns root pre after (es.take n) (es.drop (n + 1)) es[n] ?_
  rwa [List.getElem_cons_drop, List.take_append_drop]

/-! ## The answer to a request -/

theorem exists_listReq (hL : L.FitsWire) (hpre : L.keyFits root pre [] = true)
    (hafter : L.keyFits root after [] = true) (max : UInt8) :
    ∃ req, decodeListReq L req = .ok ⟨root, pre, after, max⟩ := by
  have hr : root.length ≤ L.maxRoot ∧ pre.length ≤ L.maxPath := by simpa [Limits.keyFits] using hpre
  have ha : root.length ≤ L.maxRoot ∧ after.length ≤ L.maxPath := by
    simpa [Limits.keyFits] using hafter
  have hroot := hL.root
  have hpath := hL.path
  refine ⟨(listFields ⟨root, pre, after, max⟩).flatten,
    decodeListReq_eq_ok.mpr ⟨⟨?_, ?_, ?_⟩, ⟨hpre, hafter⟩, List.prefix_rfl⟩⟩ <;>
    unfold FitsTwo <;> dsimp only <;> omega

/-- **A page is the next entries of the listing**, and says whether there are
more. -/
theorem Sound.handleList (hs : ns.Sound) (hf : ns.ViewFits) (hL : L.FitsWire)
    {es : List (Bytes × Binding)} (hes : ns.IsListing root pre after es) (max : UInt8) :
    ∃ r, decodeListResp r = .ok (es.take (pageSize max), decide (pageSize max < es.length)) ∧
      ∀ req, decodeListReq L req = .ok ⟨root, pre, after, max⟩ →
        ns.handleList .allReady req = some r ∧
        ∀ io x, ns.handleList io req = some x → x = r ∨ x = [listRefused] := by
  obtain ⟨ls, hls, hwalk⟩ := hs.walkOrdered root pre after
  obtain rfl := hls.unique hes
  have hentry : ∀ e ∈ ls.map Listed.entry, EntryFitsWire e ∧
      (putEntry e.1 e.2).length ≤ entryMax L ∧ e.1.length ≤ L.maxPath := fun e he =>
    hf.entry hL ((hes.mem_iff e).mp he).2.2.1
  have hnew : ListWriter.new (listRespMax L) = some ⟨listRespMax L, [], 0⟩ :=
    if_neg (by rw [listRespMax]; omega)
  obtain ⟨w, hfold, htake⟩ := takeAll_take (pageSize_le max) le_rfl
    (fun e he => (hentry e.entry (List.mem_map_of_mem he)).2.1) rfl (Nat.zero_le _)
    (show (⟨listRespMax L, [], 0⟩ : ListWriter).body.length ≤ _ from Nat.zero_le _)
  have hzero : (0 : UInt8).toNat = 0 := rfl
  rw [hzero, Nat.sub_zero] at hfold
  rw [hzero, Nat.zero_add, ← List.length_map Listed.entry] at htake
  generalize decide (pageSize max < (ls.map Listed.entry).length) = more at htake ⊢
  have hready : ∀ x, ns.walkOrdered .allReady root pre after (ListWriter.take (pageSize max))
      ⟨listRespMax L, [], 0⟩ = .ready x → x = (more, w) := fun x hx =>
    SnapRead.ready.inj (hx.symm.trans ((hwalk _ _ _).trans (congrArg _ htake)))
  refine ⟨w.finish more, ?_, fun req hreq => ⟨?_, fun io x hx => ?_⟩⟩
  · have henc : encodeListResp (listRespMax L) ((ls.map Listed.entry).take (pageSize max)) more
        = some (w.finish more) := by
      rw [encodeListResp, hnew]
      show ((_ : List (Bytes × Binding)).foldlM (fun (w : ListWriter) e => w.push e.1 e.2) _ >>=
        fun w : ListWriter => some (w.finish more)) = _
      rw [hfold]
      rfl
    obtain ⟨hle, hbytes⟩ := encodeListResp_eq_some henc
    rw [hbytes]
    obtain ⟨m, hm, gs, hgs, hspelt⟩ := WireAnswer.spelt_bytes
      (v := .page ((ls.map Listed.entry).take (pageSize max)) more)
      fun e he => (hentry e (List.mem_of_mem_take he)).1
    exact decodeListResp_eq_ok.mpr ⟨hle, m, hm, gs, hgs, hspelt ▸ List.prefix_rfl⟩
  · rw [Namespace.handleList, hreq]
    dsimp only
    rw [hnew]
    dsimp only
    rw [hwalk, htake]
  · rw [Namespace.handleList, hreq] at hx
    dsimp only at hx
    rw [hnew] at hx
    dsimp only at hx
    cases hw : ns.walkOrdered io root pre after (ListWriter.take (pageSize max))
        ⟨listRespMax L, [], 0⟩ with
    | pending =>
      rw [hw] at hx
      cases hx
    | failed =>
      rw [hw] at hx
      exact .inr (Option.some.inj hx).symm
    | ready p =>
      rw [hw] at hx
      rw [hready p (walkOrdered_allReady_of_ready hw)] at hx
      exact .inl (Option.some.inj hx).symm

theorem ListsPage.eq (hs : ns.Sound) (hf : ns.ViewFits) (hL : L.FitsWire)
    {es page : List (Bytes × Binding)} {more : Bool} (h : ns.ListsPage root pre max after page more)
    (hes : ns.IsListing root pre after es) :
    page = es.take (pageSize max) ∧ more = decide (pageSize max < es.length) := by
  obtain ⟨io, req, x, hreq, hans, hresp⟩ := h
  obtain ⟨r, hr, hrest⟩ := hs.handleList hf hL hes max
  rcases (hrest req hreq).2 io x hans with rfl | rfl
  · exact Prod.mk.inj (Except.ok.inj (hresp.symm.trans hr))
  · exact nomatch hresp

end Namespace

/-! ## What an instance holds, a bind would write -/

namespace Node

variable {L : Limits} {n m : Node L}

/-- What a record binds is what a bind would write. -/
def Writable (L : Limits) (r : SnapRecord) : Prop :=
  Arena.bindFits L r.toKey r.objectId r.metadata = true

/-- The records of the device's generations and of the one being written. -/
structure RecordsFit (n : Node L) : Prop where
  disk : ∀ w, ∀ g ∈ n.disk.slot w, ∀ r ∈ g.records, Writable L r
  staged : ∀ r ∈ n.cmp.staged, Writable L r

theorem RecordsFit.congr (h : n.RecordsFit) (hA : m.disk.slotA = n.disk.slotA)
    (hB : m.disk.slotB = n.disk.slotB) (hs : m.cmp.staged = n.cmp.staged) : m.RecordsFit := by
  refine ⟨fun w => ?_, hs ▸ h.staged⟩
  have hslot : m.disk.slot w = n.disk.slot w := by
    cases w
    · exact hA
    · exact hB
  rw [hslot]
  exact h.disk w

theorem RecordsFit.setSlot (h : n.RecordsFit) {g : Option Snapshot}
    (hg : ∀ g' ∈ g, ∀ r ∈ g'.records, Writable L r) {w : Bool}
    (hd : m.disk = n.disk.setSlot w g) (hs : m.cmp.staged = n.cmp.staged) : m.RecordsFit := by
  refine ⟨fun w' g' hg' => ?_, hs ▸ h.staged⟩
  rw [hd, Disk.slot_setSlot] at hg'
  split at hg'
  · exact hg g' hg'
  · exact h.disk w' g' hg'

theorem RecordsFit.stage (h : n.RecordsFit) {r : SnapRecord} (hr : Writable L r)
    (hd : m.disk = n.disk) (hs : m.cmp.staged = n.cmp.staged ++ [r]) : m.RecordsFit := by
  refine ⟨hd ▸ h.disk, fun q hq => ?_⟩
  rw [hs] at hq
  rcases List.mem_append.mp hq with hq | hq
  · exact h.staged q hq
  · exact List.mem_singleton.mp hq ▸ hr

theorem RecordsFit.written (h : n.RecordsFit) :
    ∀ g ∈ some n.written, ∀ r ∈ g.records, Writable L r := fun _ hg =>
  Option.mem_some.mp hg ▸ h.staged

/-- A merge stages slots of the arena and records of the open generation. -/
theorem RecordsFit.mergeRecord (h : n.RecordsFit) (hc : n.Coherent) (io : ReadEnv) :
    (n.mergeRecord io).RecordsFit := by
  have hstep := hc.mergeStep io
  generalize n.mergeRecord io = n' at hstep ⊢
  cases hstep with
  | still => exact h
  | aborted | ended => exact h.congr rfl rfl rfl
  | slot s i superseded hph hmin =>
    exact h.stage (show Writable L (BindingSlot.record _) from
      hc.fits _ _ (hc.sound.arena.lookup_of_mem (Arena.minKeyAbove_eq_some hmin).1)) rfl rfl
  | record g r hph hg hr =>
    exact h.stage (h.disk _ g (hc.opened g hg) r (List.mem_of_getElem? hr)) rfl rfl

theorem RecordsFit.step (h : n.RecordsFit) (hc : n.Coherent) (e : Event) :
    (n.step e).RecordsFit := by
  have habort : n.abort.RecordsFit := h.congr rfl rfl rfl
  cases e with
  | feed r io proof =>
    rcases feed_cases n r io proof with he | ⟨-, hcmp, -, -, -, hdisk, -⟩
    · rw [show n.step (.feed r io proof) = (n.feed r io proof).1 from rfl, he]
      exact h
    · refine h.congr ?_ ?_ (congrArg Compactor.staged hcmp) <;>
        rw [show (n.step (.feed r io proof)).disk = _ from hdisk] <;> split <;> rfl
  | compactStart =>
    show n.compactStart.RecordsFit
    unfold Node.compactStart
    split
    · exact ⟨h.disk, fun _ hr => nomatch hr⟩
    · exact h
  | openDone =>
    show n.openDone.RecordsFit
    unfold Node.openDone
    split
    · exact h.setSlot (g := none) (fun _ hg => nomatch hg) rfl rfl
    · exact h
  | openFailed unlinked =>
    show (n.openFailed unlinked).RecordsFit
    unfold Node.openFailed
    split
    · cases unlinked with
      | false => exact habort
      | true => exact h.setSlot (g := none) (fun _ hg => nomatch hg) rfl rfl
    · exact h
  | merge io => exact h.mergeRecord hc io
  | finishDone =>
    show n.finishDone.RecordsFit
    unfold Node.finishDone
    split
    · exact h.setSlot h.written rfl rfl
    · exact h
  | finishFailed durable =>
    show (n.finishFailed durable).RecordsFit
    unfold Node.finishFailed
    split
    · cases durable with
      | false => exact habort
      | true => exact h.setSlot h.written rfl rfl
    · exact h
  | reopenDone =>
    show n.reopenDone.RecordsFit
    unfold Node.reopenDone
    split
    · exact h.congr rfl rfl rfl
    · exact h
  | mergeFailed | reopenFailed =>
    show (if _ then n.abort else n).RecordsFit
    split
    · exact habort
    · exact h
  | rotate outcome =>
    show (n.rotate outcome).RecordsFit
    unfold Node.rotate
    split
    · dsimp only
      split
      · cases outcome <;> exact h.congr rfl rfl rfl
      · exact habort
    · exact h
  | surface op io now => exact h.congr rfl rfl rfl
  | crash => exact ⟨h.disk, fun _ hr => nomatch hr⟩

/-- **Every binding of a view is one a bind would write**, whichever tier holds
it. -/
theorem RecordsFit.viewFits (h : n.RecordsFit) (hc : n.Coherent) : n.ns.ViewFits := by
  intro k b hv
  cases hl : n.ns.bindings.lookup k with
  | some s =>
    rw [Namespace.view_of_lookup hl] at hv
    obtain rfl := Option.some.inj hv
    exact hc.fits k s hl
  | none =>
    rw [Namespace.view_of_lookup_none hl] at hv
    obtain ⟨g, hg, r, hr, rfl, rfl⟩ := Namespace.exists_of_snapBinding hv
    exact h.disk _ g (hc.opened g hg) r hr

theorem recordsFit_reached (cfg : Bool) (es : List Event) : (reached L cfg es).RecordsFit := by
  have hinit : (init L cfg).RecordsFit :=
    ⟨fun w g hg => (by cases w <;> exact (nomatch (show g ∈ none from hg))),
      fun _ hr => nomatch hr⟩
  have hrun : (reached L cfg es).Coherent ∧ (reached L cfg es).RecordsFit :=
    Run.invariant_all (I := fun n : Node L => n.Coherent ∧ n.RecordsFit)
      (fun _ e hn => ⟨hn.1.step e, hn.2.step hn.1 e⟩) ⟨coherent_init cfg, hinit⟩ es
  exact hrun.2

/-! ## Pages one after the other -/

variable {root pre after : Bytes} {max : UInt8}

/-- **Pages asked for one after the other** of an instance, from a cursor on,
and whether the last of them said that nothing remains. A compaction may go on
in between; no record is fed and no provider called. -/
inductive Pages (root pre : Bytes) (max : UInt8) :
    Node L → Bytes → List (List (Bytes × Binding)) → Bool → Prop
  | start (n : Node L) (after : Bytes) : Pages root pre max n after [] false
  | last {n : Node L} {after : Bytes} {es : List (Bytes × Binding)} :
      n.ns.ListsPage root pre max after es false → Pages root pre max n after [es] true
  | more {n : Node L} {after : Bytes} {es : List (Bytes × Binding)}
      {ps : List (List (Bytes × Binding))} {ended : Bool} :
      n.ns.ListsPage root pre max after es true →
      Pages root pre max n (Namespace.lastPath after es) ps ended →
      Pages root pre max n after (es :: ps) ended
  | between {n : Node L} {e : Event} {after : Bytes} {ps : List (List (Bytes × Binding))}
      {ended : Bool} : e.internal = true → Pages root pre max (n.step e) after ps ended →
      Pages root pre max n after ps ended

/-- **Pages in a row are the listing from their cursor on**, all of it once they
have ended, and there are at most as many as it has entries and one. -/
theorem Pages.eq (hL : L.FitsWire) {ps : List (List (Bytes × Binding))} {ended : Bool}
    (h : n.Pages root pre max after ps ended) (hc : n.Coherent) (hr : n.RecordsFit)
    {es : List (Bytes × Binding)} (hes : n.ns.IsListing root pre after es) :
    ps.flatten <+: es ∧ (ended = true → ps.flatten = es) ∧ ps.length ≤ es.length + 1 := by
  induction h generalizing es with
  | start n after => exact ⟨List.nil_prefix, nofun, Nat.zero_le _⟩
  | last hp =>
    obtain ⟨rfl, hmore⟩ := hp.eq hc.sound (hr.viewFits hc) hL hes
    have hle := Nat.not_lt.mp (of_decide_eq_false hmore.symm)
    rw [List.flatten_singleton, List.take_of_length_le hle]
    exact ⟨List.prefix_rfl, fun _ => rfl, Nat.le_add_left 1 _⟩
  | more hp _ ih =>
    obtain ⟨rfl, hmore⟩ := hp.eq hc.sound (hr.viewFits hc) hL hes
    have hlt := of_decide_eq_true hmore.symm
    obtain ⟨size, hsize⟩ := exists_pageSize max
    rw [hsize] at hlt ih ⊢
    obtain ⟨hpre, hend, hlen⟩ := ih hc hr (hes.drop (Nat.lt_of_succ_lt hlt))
    rw [List.flatten_cons, List.length_cons]
    rw [List.length_drop] at hlen
    refine ⟨?_, fun he => by rw [hend he, List.take_append_drop], by omega⟩
    obtain ⟨rest, hrest⟩ := hpre
    exact ⟨rest, by rw [List.append_assoc, hrest, List.take_append_drop]⟩
  | between he _ ih =>
    exact ih (hc.step _) (hr.step hc _) (hes.congr fun k => congrFun (hc.internal he).1 k)

/-- Pages can be asked for to the end. -/
theorem exists_pages (hL : L.FitsWire) (hc : n.Coherent) (hr : n.RecordsFit)
    (hpre : L.keyFits root pre [] = true) (hafter : L.keyFits root after [] = true)
    {es : List (Bytes × Binding)} (hes : n.ns.IsListing root pre after es) (max : UInt8) :
    ∃ ps, n.Pages root pre max after ps true := by
  have hs := hc.sound
  have hf := hr.viewFits hc
  induction hlen : es.length using Nat.strong_induction_on generalizing after es with
  | h len ih =>
    subst hlen
    obtain ⟨req, hreq⟩ := Namespace.exists_listReq hL hpre hafter max
    obtain ⟨r, hr, hrest⟩ := hs.handleList hf hL hes max
    have hpage : n.ns.ListsPage root pre max after (es.take (pageSize max))
        (decide (pageSize max < es.length)) := ⟨.allReady, req, r, hreq, (hrest req hreq).1, hr⟩
    by_cases hlt : pageSize max < es.length
    · rw [decide_eq_true hlt] at hpage
      obtain ⟨size, hsize⟩ := exists_pageSize max
      rw [hsize] at hlt hpage
      have hlt := Nat.lt_of_succ_lt hlt
      have hlast := hf.entry hL ((hes.mem_iff es[size]).mp (List.getElem_mem hlt)).2.2.1
      have hcur : L.keyFits root (Namespace.lastPath after (es.take (size + 1))) [] = true := by
        rw [Namespace.lastPath_take hlt]
        simp only [Limits.keyFits, Bool.and_eq_true, decide_eq_true_eq] at hpre ⊢
        exact ⟨⟨hpre.1.1, hlast.2.2⟩, Nat.zero_le _⟩
      obtain ⟨ps, hps⟩ := ih _ (by rw [List.length_drop]; omega) hcur (hes.drop hlt) rfl
      exact ⟨_, .more hpage hps⟩
    · rw [decide_eq_false hlt] at hpage
      exact ⟨_, .last hpage⟩

/-! ## Every page of every state -/

/-- What the pages of a listing are to be. A key's binding is its arena slot's,
or its snapshot record's where the arena has none (`Namespace.view`), and a
tombstone is not live. -/
structure Paged (n : Node L) (root pre : Bytes) (max : UInt8) : Prop where
  ends : ∃ ps, n.Pages root pre max [] ps true
  /-- No request after request goes on for ever. -/
  bounded : ∃ count, ∀ ps ended, n.Pages root pre max [] ps ended → ps.length ≤ count
  sorted : ∀ ps ended, n.Pages root pre max [] ps ended →
    ps.flatten.Pairwise fun e e' => bytesCmp e.1 e'.1 = .lt
  /-- They are the live bindings under the root that begin as asked, but for
  one at the empty path. -/
  exact : ∀ ps, n.Pages root pre max [] ps true → ∀ e, e ∈ ps.flatten ↔
    e.1 ≠ [] ∧ pre <+: e.1 ∧ n.ns.view ⟨root, e.1⟩ = some e.2 ∧ e.2.live = true

/-- The cursor a listing begins with is below every path but the empty one. -/
theorem cursor_lt_iff {p : Bytes} : (⟨root, []⟩ : Key) < ⟨root, p⟩ ↔ p ≠ [] := by
  refine ⟨ne_nil_of_lt, fun hp => bytesCmp_gt_iff.mp ?_⟩
  cases p with
  | nil => exact absurd rfl hp
  | cons b p => rfl

/-- **The pages of a listing are the ordered merge of the two tiers**, in every
state an instance reaches: each live binding once, in ascending order, and they
end. -/
theorem pages_listing (p : Profile) (cfg : Bool) (es : List Event) (root pre : Bytes)
    (max : UInt8) (hask : p.limits.keyFits root pre [] = true) :
    (reached p.limits cfg es).Paged root pre max := by
  have hc := coherent_reached (L := p.limits) cfg es
  have hr := recordsFit_reached (L := p.limits) cfg es
  obtain ⟨ls, hls, -⟩ := hc.sound.walkOrdered root pre []
  have hpages := fun ps ended (h : (reached p.limits cfg es).Pages root pre max [] ps ended) =>
    h.eq p.fitsWire hc hr hls
  have hcursor : p.limits.keyFits root [] [] = true := by
    simp only [Limits.keyFits, Bool.and_eq_true, decide_eq_true_eq] at hask ⊢
    exact ⟨⟨hask.1.1, Nat.zero_le _⟩, Nat.zero_le _⟩
  refine ⟨exists_pages p.fitsWire hc hr hask hcursor hls max,
    ⟨_, fun ps ended h => (hpages ps ended h).2.2⟩, fun ps ended h => ?_, fun ps h e => ?_⟩
  · exact (hls.sorted.sublist (hpages ps ended h).1.sublist).imp bytesCmp_lt_iff.mpr
  · rw [(hpages ps true h).2.1 rfl, hls.mem_iff, cursor_lt_iff]
    tauto

/-- A file at the empty path and one beside it. -/
def filesAtEmpty : List Event :=
  [.feed (.bind ⟨⟨[], []⟩, ⟨1, 0, [1], Meta.none⟩, .any, 0⟩) .allReady none,
    .feed (.bind ⟨⟨[], [97]⟩, ⟨2, 0, [2], Meta.none⟩, .any, 0⟩) .allReady none]

theorem pages_listing_filesAtEmpty :
    (reached .minimal true filesAtEmpty).Paged [] [] 1 :=
  pages_listing .minimal true filesAtEmpty [] [] 1 (by decide)

/-- **A binding at the empty path is on no page**, though it is live. -/
theorem pages_miss_empty_path :
    ((reached .minimal true filesAtEmpty).ns.view ⟨[], []⟩).any Binding.live = true ∧
      (∃ ps, (reached .minimal true filesAtEmpty).Pages [] [] 1 [] ps true) ∧
      ∀ ps ended, (reached .minimal true filesAtEmpty).Pages [] [] 1 [] ps ended →
        ∀ e ∈ ps.flatten, e.1 ≠ [] := by
  have hc := coherent_reached (L := .minimal) true filesAtEmpty
  have hr := recordsFit_reached (L := .minimal) true filesAtEmpty
  obtain ⟨ls, hls, -⟩ := hc.sound.walkOrdered [] [] []
  refine ⟨by decide +kernel, exists_pages Profile.minimal.fitsWire hc hr rfl rfl hls 1,
    fun ps ended h e he => ?_⟩
  have hmem := (h.eq Profile.minimal.fitsWire hc hr hls).1.subset he
  exact cursor_lt_iff.mp ((hls.mem_iff e).mp hmem).2.1

end Node

end Loam

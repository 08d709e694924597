import Loam.LeaseFences
import Loam.OneNamespace
import Loam.SnapshotTier
import Loam.Redelivery

/-!
# The history of a volume

A volume's binding changes by the COMMITs of its writers, one revision at a
time. A COMMIT is applied only for the holder of the lease, under the fence
of its entry, with its flush open; the fence of the entry does not go back,
so neither do the fences of the COMMITs. Every other record refuses to touch
a volume, and so does the provider surface, with one exception: a provider
RENAME looks for its new name in the arena alone, and a volume that only the
snapshot holds is not there.
-/

namespace Loam

/-! ## Flushes and who opened them -/

namespace LeaseTable

variable {L : Limits} {t t' : LeaseTable L} {O : Key → Bytes → UInt64 → Prop}

/-- Every open flush is the holder's, under its fence, that `O` says opened
it. -/
def FlushesFrom (t : LeaseTable L) (O : Key → Bytes → UInt64 → Prop) : Prop :=
  ∀ k e, t.lease k = some e → e.flushing = true → O k e.holder e.fence

theorem flushesFrom_new : (new L).FlushesFrom O := fun k e he => by
  rw [show (new L).lease k = none from SlotTable.entry_replicate _] at he
  cases he

/-- A change opens no flush but the one it names. -/
theorem FlushesFrom.of_change (hfl : t.FlushesFrom O) (h : t.Sound) {o : Option (Key × Bytes)}
    (hc : t.Change o t')
    (ho : ∀ k holder e, o = some (k, holder) → t.lease k = some e → e.holder = holder →
      O k holder e.fence) : t'.FlushesFrom O := by
  cases hc with
  | keep => exact hfl
  | update k e e' i hf hk hs hw =>
    have hlease : t.lease k = some e := by rw [lease, hf]; rfl
    intro k' b hb hopen
    rw [(h.setEntry_found hf hk).2 k'] at hb
    split at hb
    · next hk' =>
      obtain rfl := Option.some.inj hb
      rcases hw with ⟨hfence, hholder, hw⟩ | ⟨-, -, hw⟩
      · rw [hfence, hholder, hk']
        rcases hw hopen with hw | hw
        · exact hfl k e hlease hw
        · exact ho k e.holder e hw hlease rfl
      · cases hw.symm.trans hopen
    · exact hfl k' b hb hopen
  | enter e' i hf hk hw hu hs hn =>
    obtain ⟨hi, hfree⟩ := SlotTable.free_eq_some hu
    intro k' b hb hopen
    rw [(h.setEntry_free hi hfree (by rw [lease, hf]; rfl)).2 k'] at hb
    split at hb
    · obtain rfl := Option.some.inj hb
      cases hw.symm.trans hopen
    · exact hfl k' b hb hopen
  | recycle e e' i hf hk hw hm hs hs' hn =>
    intro k' b hb hopen
    rw [h.lease_recycle hm hf k'] at hb
    split at hb
    · obtain rfl := Option.some.inj hb
      cases hw.symm.trans hopen
    · split at hb
      · cases hb
      · exact hfl k' b hb hopen
  | forget e i now hm hs hs' hn =>
    have hl : ∀ k, ((t.raiseFloors e.fence e.stamp).setEntry i none).lease k
        = if k = e.key then none else t.lease k := SlotTable.Unique.entry_set_none h hm
    intro k' b hb hopen
    rw [hl k'] at hb
    split at hb
    · cases hb
    · exact hfl k' b hb hopen
  | ends now =>
    by_cases hn : now = 0
    · rw [endExpiredFlushes, if_pos hn]
      exact hfl
    intro k' b hb hopen
    rw [h.lease_endExpiredFlushes hn k'] at hb
    obtain ⟨e, he, rfl⟩ := Option.map_eq_some_iff.mp hb
    rw [endFlush_holder, endFlush_fence]
    exact hfl k' e he (flushing_of_endFlush hopen)

/-- A judged stamp is the entry's; nothing else of it changes. -/
theorem Sound.lease_touch (h : t.Sound) {k : Key} {now : UInt64}
    (ht : t.touch k now = (t', some true)) :
    ∃ e, t.lease k = some e ∧ t'.lease k = some { e with stamp := now } := by
  unfold touch at ht
  split at ht
  · cases ht
  next e i hf =>
  split at ht
  · cases ht
  cases ht
  refine ⟨e, by rw [lease, hf]; rfl, ?_⟩
  have hl := (@Sound.setEntry_found L t k e { e with stamp := now } i h hf rfl).2 k
  rw [if_pos rfl] at hl
  exact hl

end LeaseTable

/-! ## What the records do to the leases -/

section Leases

variable {L : Limits} {v : Key → Option Binding} {leases : LeaseTable L}
  {gcReserved : List UInt64} {r : Record} {O : Key → Bytes → UInt64 → Prop}

/-- `O` knows the flush the record can open. -/
def Record.Sources (O : Key → Bytes → UInt64 → Prop) : Record → Prop
  | .volume m => m.mode = .start → O m.key m.holder m.fence
  | .leaseRestore e _ _ => e.flushing = true → O e.key e.holder e.fence
  | _ => True

/-- A volume record opens a flush if it is a BEGIN of the holder under its
fence, and ends one at most otherwise. -/
theorem judgeVolumeMode_flush (leases : LeaseTable L) (res : Bool) (cur : Option Binding)
    (m : VolumeMsg) : ∃ o, leases.Change o (judgeVolumeMode leases res cur m).1 ∧
      ∀ k holder, o = some (k, holder) → m.mode = .start ∧ k = m.key ∧ holder = m.holder ∧
        leases.holds m.key m.holder m.fence m.nowMs = true := by
  have hclosed := leases.setFlushing_change m.key m.holder false
  have hkeep : ∃ o, leases.Change o leases ∧ ∀ k holder, o = some (k, holder) →
      m.mode = .start ∧ k = m.key ∧ holder = m.holder ∧
        leases.holds m.key m.holder m.fence m.nowMs = true := ⟨none, .keep, nofun⟩
  have hclose : ∃ o, leases.Change o (leases.setFlushing m.key m.holder false) ∧
      ∀ k holder, o = some (k, holder) → m.mode = .start ∧ k = m.key ∧ holder = m.holder ∧
        leases.holds m.key m.holder m.fence m.nowMs = true := ⟨none, hclosed, nofun⟩
  cases hm : m.mode with
  | other =>
    rw [hm] at hkeep
    simp only [judgeVolumeMode, hm]
    exact hkeep
  | start =>
    simp only [judgeVolumeMode, hm]
    split
    · exact ⟨none, .keep, nofun⟩
    next hholds =>
    split
    · exact ⟨none, .keep, nofun⟩
    refine ⟨_, leases.setFlushing_change m.key m.holder true, fun k holder ho => ?_⟩
    cases ho
    exact ⟨trivial, rfl, rfl, by simpa using hholds⟩
  | abort | commit | delete =>
    rw [hm] at hkeep hclose
    simp only [judgeVolumeMode, hm]
    repeat' split
    all_goals first | exact hkeep | exact hclose

/-- A record from the wire makes the leases later. -/
theorem judge_later (h : leases.Sound) (hw : r.fromWire = true) :
    leases.Later (judge v leases gcReserved r).leases := by
  cases r with
  | leaseRestore | bindingRestore => cases hw
  | gcReserve objectId now => exact h.later_of_change (o := none) (.ends now)
  | gcRelease | undecodable => exact .refl _
  | lease m =>
    simp only [judge]
    split
    · exact .refl _
    · exact h.later_of_change (leases.apply_change _ _ _ _ _)
  | volume m =>
    simp only [judge]
    split
    · exact .refl _
    rw [judgeVolumeOp_leases]
    unfold judgeVolumeAt
    dsimp only
    have htouch := leases.touch_change m.key m.nowMs
    have hsound := (h.touch_follows m.key m.nowMs).1.sound
    split
    · exact .refl _
    split
    · next t ht =>
      rw [ht] at htouch hsound
      obtain ⟨o, hc, -⟩ := judgeVolumeMode_flush t (gcReserved.any (· != 0))
        ((v m.key).filter Binding.live) m
      exact (h.later_of_change htouch).trans (hsound.later_of_change hc)
    · next t o hne ht =>
      rw [ht] at htouch
      exact h.later_of_change htouch
  | bind | rename | unbind | retain =>
    simp only [judge]
    repeat' split
    all_goals exact .refl _

/-- **A record opens no flush but its sender's.** -/
theorem judge_flushesFrom (h : leases.Sound) (hfl : leases.FlushesFrom O) (hr : r.Sources O) :
    (judge v leases gcReserved r).leases.FlushesFrom O := by
  cases r with
  | gcReserve objectId now => exact hfl.of_change h (o := none) (.ends now) nofun
  | gcRelease | undecodable => exact hfl
  | lease m =>
    simp only [judge]
    split
    · exact hfl
    · exact hfl.of_change h (leases.apply_change _ _ _ _ _) nofun
  | volume m =>
    simp only [judge]
    split
    · exact hfl
    rw [judgeVolumeOp_leases]
    unfold judgeVolumeAt
    dsimp only
    have htouch := hfl.of_change h (leases.touch_change m.key m.nowMs) nofun
    have hsound := (h.touch_follows m.key m.nowMs).1.sound
    split
    · exact hfl
    split
    · next t ht =>
      rw [ht] at htouch hsound
      obtain ⟨o, hc, ho⟩ := judgeVolumeMode_flush t (gcReserved.any (· != 0))
        ((v m.key).filter Binding.live) m
      refine htouch.of_change hsound hc fun k holder e hok he heh => ?_
      obtain ⟨hstart, rfl, rfl, hholds⟩ := ho k holder hok
      obtain ⟨e', he', hp⟩ := (Option.any_eq_true _ _).mp hholds
      obtain rfl := Option.some.inj (he.symm.trans he')
      simp only [Bool.and_eq_true, beq_iff_eq] at hp
      rw [hp.2]
      exact hr hstart
    · next t o hne ht =>
      rw [ht] at htouch
      exact htouch
  | leaseRestore e fenceFloor stampFloor =>
    simp only [judge]
    split
    · exact hfl
    next t ht =>
    have hl := (h.restore_spec ht).2
    have hrestored : t.FlushesFrom O := by
      intro k b hb hopen
      rw [hl k] at hb
      split at hb
      · cases hb
        cases hopen
      · exact hfl k b hb hopen
    simp only [Judgement.still]
    split
    · next hopen =>
      refine hrestored.of_change ((h.restore_spec ht).1) (t.setFlushing_change e.key e.holder true)
        fun k holder b hok hb hbh => ?_
      cases hok
      rw [hl e.key, if_pos rfl] at hb
      cases hb
      exact hr hopen
    · exact hrestored
  | bind | rename | unbind | retain | bindingRestore =>
    simp only [judge]
    repeat' split
    all_goals exact hfl

end Leases

/-! ## Keeping off volumes -/

/-- No volume binding is created, replaced, moved or removed. -/
def VolumesKept (v v' : Key → Option Binding) : Prop :=
  ∀ k, isVolume (v k) = true ∨ isVolume (v' k) = true → v' k = v k

theorem VolumesKept.refl (v : Key → Option Binding) : VolumesKept v v := fun _ _ => rfl

theorem VolumesKept.trans {v v' v'' : Key → Option Binding} (h : VolumesKept v v')
    (h' : VolumesKept v' v'') : VolumesKept v v'' := by
  intro k hk
  rcases hk with hk | hk
  · have he := h k (.inl hk)
    rw [← he] at hk
    exact (h' k (.inl hk)).trans he
  · have he := h' k (.inr hk)
    rw [he] at hk
    exact he.trans (h k (.inr hk))

/-- A binding that is no volume is put where no volume is. -/
theorem VolumesKept.update {v : Key → Option Binding} {k : Key} {b : Binding}
    (hk : isVolume (v k) = false) (hb : isVolume (some b) = false) :
    VolumesKept v (Function.update v k (some b)) := by
  intro k' h
  by_cases he : k' = k
  · subst he
    rw [Function.update_self, hk, hb] at h
    exact absurd h (by simp)
  · rw [Function.update_of_ne he]

theorem isVolume_of_kind_ne {b : Binding} (h : b.kind ≠ kindVolume) : isVolume (some b) = false := by
  simp [isVolume, h]

/-- An unbind that is to be done is of no volume. -/
theorem isVolume_of_judgeUnbind {cur : Option Binding} {m : UnbindMsg}
    (h : judgeUnbind cur m = .ok true) : isVolume cur = false := by
  unfold judgeUnbind at h
  split at h
  · cases h
  next hv => simpa using hv

/-- Nor is a rename that is to be done, at either name. -/
theorem isVolume_of_judgeRename {src dst : Option Binding} {m : RenameMsg}
    (h : judgeRename src dst m = .ok ()) : isVolume src = false ∧ isVolume dst = false := by
  unfold judgeRename at h
  split at h
  · cases h
  next hv => simpa using hv

namespace Namespace

variable {L : Limits} {ns ns' : Namespace L}

/-- **Every record but a volume record keeps off the volumes.** -/
theorem judged_keepsVolumes {r : Record} (hw : r.fromWire = true) (hr : ∀ m, r ≠ .volume m) :
    VolumesKept ns.view (ns.after (ns.judged r).effect) := by
  cases he : (ns.judged r).effect with
  | keep => exact .refl _
  | put k b =>
    rw [after]
    cases puts_of_judge he with
    | bind m _ _ hkind hj => exact .update (of_judgeBind hj).2.1 (isVolume_of_kind_ne hkind)
    | unbind m hj => exact .update (isVolume_of_judgeUnbind hj) rfl
    | retain m b _ hj =>
      obtain ⟨c, hc, -, hkind, -, -, hb, -⟩ := of_judgeRetain hj
      refine .update ?_ (isVolume_of_kind_ne ?_)
      · rw [hc]
        exact isVolume_of_kind_ne hkind
      · rw [hb]
        exact hkind
    | commit m | delete m => exact absurd rfl (hr m)
    | restore m => cases hw
  | move m =>
    obtain ⟨-, hj⟩ := rename_of_judge he
    obtain ⟨hsrc, hdst⟩ := isVolume_of_judgeRename hj
    unfold after
    dsimp only
    cases hv : ns.view ⟨m.root, m.source⟩ with
    | none => exact .refl _
    | some src =>
      rw [hv] at hsrc
      have hmoved : isVolume (some (ns.movedBinding m src)) = false := hsrc
      refine (VolumesKept.update hdst hmoved).trans (.update ?_ rfl)
      by_cases he : (⟨m.root, m.source⟩ : Key) = ⟨m.root, m.dest⟩
      · rw [he, Function.update_self]
        exact hmoved
      · rw [Function.update_of_ne he, hv]
        exact hsrc

/-- A provider RENAME that can be carried out, onto a volume the arena does not
hold. -/
structure MovesOnto (ns : Namespace L) (source dest : Bytes) (now : UInt64) : Prop where
  ne : source ≠ dest
  bound : ∃ s, ns.bindings.lookup (surfaceKey source) = some s ∧ s.live = true
  /-- It is neither a volume nor retained. -/
  opened : ns.OpenTo source now
  volume : isVolume (ns.view (surfaceKey dest)) = true
  absent : ns.bindings.lookup (surfaceKey dest) = none
  free : isRetained (ns.view (surfaceKey dest)) now = false

/-- **A provider call keeps off the volumes**, unless it is a RENAME onto one
that only the snapshot holds. -/
theorem SurfaceOutcome.keepsVolumes {now : UInt64} {op : SurfaceOp} {res : Except Errno Unit}
    (ho : ns.SurfaceOutcome now op ns' res)
    (hop : ∀ source dest, op = .rename source dest → ¬ ns.MovesOnto source dest now) :
    VolumesKept ns.view ns'.view := by
  cases ho with
  | refused op e a' _ _ hv =>
    rw [hv]
    exact .refl _
  | found => exact .refl _
  | bound path kind replace target rev a' hkind hopen _ _ _ hw =>
    rw [view_writes hw]
    exact .update hopen.1 (isVolume_of_kind_ne hkind)
  | deleted path s a' hopen _ _ hw =>
    rw [view_writes hw]
    exact .update hopen.1 rfl
  | renamed source dest src a' hne hopen hret hl hlive hdead _ _ hv =>
    rw [hv]
    have hsrc : isVolume (some src.toBinding) = false := by
      rw [← view_of_lookup hl]
      exact hopen.1
    have hdest : isVolume (ns.view (surfaceKey dest)) = false := by
      cases hd : ns.bindings.lookup (surfaceKey dest) with
      | some s =>
        rw [view_of_lookup hd]
        have hs : s.toBinding.live = false := hdead s hd
        simp [isVolume, hs]
      | none =>
        by_contra hvol
        exact hop source dest rfl
          ⟨hne, ⟨src, hl, hlive⟩, hopen, Bool.not_eq_false _ ▸ hvol, hd, hret⟩
    have hkey : surfaceKey dest ≠ surfaceKey source := by
      intro he
      exact hne (congrArg Key.path he).symm
    refine (VolumesKept.update hopen.1 rfl).trans (.update ?_ hsrc)
    rw [Function.update_of_ne hkey]
    exact hdest

/-- A replay opens no flush but those its log can. -/
theorem Sound.replay_flushesFrom {O : Key → Bytes → UInt64 → Prop} (h : ns.Sound)
    (hf : ns.bindings.Fits) (hl : ns.leases.Sound) (hfl : ns.leases.FlushesFrom O)
    {log : List Record} (hlog : ∀ r ∈ log, r.Sources O) :
    (ns.replay log).leases.FlushesFrom O := by
  induction log generalizing ns with
  | nil => exact hfl
  | cons r log ih =>
    obtain ⟨hs, hf', -⟩ := Node.replay_sound h hf [r]
    have hsound := h.replay_leases hf hl [r]
    refine ih hs hf' hsound ?_ fun q hq => hlog q (List.mem_cons_of_mem r hq)
    have hr := hlog r List.mem_cons_self
    have happly : (ns.applyOp .allReady r).1.leases.FlushesFrom O := by
      rw [(h.applyOp_spec r).2.1]
      exact judge_flushesFrom hl hfl hr
    cases r with
    | gcReserve o now => exact hfl.of_change hl (o := none) (.ends now) nofun
    | gcRelease o => exact hfl
    | _ => exact happly

end Namespace

/-! ## The node -/

namespace Node

variable {L : Limits} {n : Node L}

/-- A BEGIN of that holder under that fence was fed in the run. -/
def BegunIn (es : List Event) (k : Key) (holder : Bytes) (fence : UInt64) : Prop :=
  ∃ m io proof, .feed (.volume m) io proof ∈ es ∧ m.mode = .start ∧ m.key = k ∧
    m.holder = holder ∧ m.fence = fence

/-- The leases are sound, and whatever opened a flush, in memory or in the
log, is one that `O` knows. -/
structure Traced (O : Key → Bytes → UInt64 → Prop) (n : Node L) : Prop where
  leases : n.ns.leases.Sound
  open_flushes : n.ns.leases.FlushesFrom O
  logged : ∀ r ∈ n.disk.log, r.Sources O

/-- An event of the process's own life makes the leases later. -/
theorem Coherent.leases_later (h : n.Coherent) (hl : n.ns.leases.Sound) {e : Event}
    (hc : e ≠ .crash) : n.ns.leases.Later (n.step e).ns.leases := by
  by_cases hi : e.internal = true
  · rw [(h.internal hi).2.1]
    exact .refl _
  cases e with
  | crash => exact absurd rfl hc
  | surface op io now =>
    rw [show (n.step (.surface op io now)).ns.leases = n.ns.leases from
      (h.sound.surfaceOp_outcome h.fits io now op).leases]
    exact .refl _
  | feed r io proof =>
    rcases h.feed_spec r io proof with ⟨he, -⟩ | ⟨ht, -, hlease, -⟩
    · rw [show (n.step (.feed r io proof)).ns = n.ns from he]
      exact .refl _
    · rw [show (n.step (.feed r io proof)).ns.leases = _ from hlease]
      simp only [takes, Bool.and_eq_true] at ht
      exact judge_later hl ht.1.1
  | _ => exact absurd rfl hi

theorem traced_boot {O : Key → Bytes → UInt64 → Prop} {d : Disk}
    (h : ∀ w, ∀ g ∈ d.slot w, g.Sorted) {cfg : Bool} (hlog : ∀ r ∈ d.log, r.Sources O) :
    (boot L cfg d).Traced O := by
  refine ⟨leases_sound_boot h cfg, ?_, hlog⟩
  cases cfg with
  | false => exact LeaseTable.flushesFrom_new
  | true =>
    exact (sound_opened (sorted_opens h)).replay_flushesFrom Arena.fits_new LeaseTable.sound_new
      LeaseTable.flushesFrom_new hlog

/-- The seeds open the flushes that are open. -/
theorem Traced.seeds {O : Key → Bytes → UInt64 → Prop} (ht : n.Traced O) :
    ∀ r ∈ n.seeds, r.Sources O := by
  intro r hr
  rcases List.mem_append.mp hr with hr | hr
  · obtain ⟨o, ho, hr⟩ := List.mem_filterMap.mp hr
    obtain ⟨e, rfl, rfl⟩ := Option.map_eq_some_iff.mp hr
    obtain ⟨i, hi⟩ := List.mem_iff_getElem?.mp ho
    have hlease : n.ns.leases.lease e.key = some e :=
      SlotTable.Unique.entry_of_mem ht.leases (SlotTable.mem_used.mpr hi)
    exact fun hopen => ht.open_flushes e.key e hlease hopen
  · obtain ⟨p, -, rfl⟩ := List.mem_map.mp hr
    trivial

/-- An event leaves the log as it is, appends the record it feeds, or is a
rotation that puts the seeds in its place. -/
theorem log_step (n : Node L) (e : Event) :
    (n.step e).disk.log = n.disk.log ∨
      (∃ r io proof, e = .feed r io proof ∧ n.takes r = true ∧
        (n.step e).disk.log = n.disk.log ++ [r]) ∨
      (n.step e).disk.log = n.seeds := by
  have hset : ∀ w g, (n.disk.setSlot w g).log = n.disk.log := by
    intro w g
    cases w <;> rfl
  obtain hi | rfl | ⟨op, io, now, rfl⟩ | ⟨q, io, proof, rfl⟩ := e.cases
  · have hstep := n.internalStep hi
    generalize n.step e = n' at hstep ⊢
    cases hstep with
    | compactor | mark | switch => exact .inl rfl
    | slot c which g => exact .inl (hset which g)
    | rotate => exact .inr (.inr rfl)
  · exact .inl rfl
  · exact .inl rfl
  · simp only [step, feed]
    split
    · exact .inl rfl
    next ht =>
    have hlog : (if n.walOpen then { n.disk with log := n.disk.log ++ [q] } else n.disk).log
        = n.disk.log ∨ (if n.walOpen then { n.disk with log := n.disk.log ++ [q] } else n.disk).log
          = n.disk.log ++ [q] := by
      split
      · exact .inr rfl
      · exact .inl rfl
    split
    · exact .inl rfl
    · exact hlog.imp_right fun hl => .inl ⟨q, io, proof, rfl, by simpa using ht, hl⟩

/-- **Every event is traced**, if the flush its record can open is. -/
theorem Coherent.traced (h : n.Coherent) {O : Key → Bytes → UInt64 → Prop} (ht : n.Traced O)
    {e : Event} (he : ∀ m io proof, e = .feed (.volume m) io proof → m.mode = .start →
      O m.key m.holder m.fence) : (n.step e).Traced O := by
  have hfed : ∀ r io proof, e = .feed r io proof → n.takes r = true → r.Sources O := by
    intro r io proof hr htk
    simp only [takes, Bool.and_eq_true] at htk
    cases r with
    | volume m => exact he m io proof hr
    | leaseRestore => cases htk.1.1
    | _ => trivial
  have hlog : ∀ r ∈ (n.step e).disk.log, r.Sources O := by
    rcases n.log_step e with hlog | ⟨r, io, proof, hr, htk, hlog⟩ | hlog
    · rw [hlog]
      exact ht.logged
    · rw [hlog]
      intro q hq
      rcases List.mem_append.mp hq with hq | hq
      · exact ht.logged q hq
      rw [List.mem_singleton.mp hq]
      exact hfed r io proof hr htk
    · rw [hlog]
      exact ht.seeds
  refine ⟨h.leases_sound ht.leases e, ?_, hlog⟩
  by_cases hi : e.internal = true
  · rw [(h.internal hi).2.1]
    exact ht.open_flushes
  cases e with
  | crash => exact (traced_boot h.disk ht.logged).open_flushes
  | surface op io now =>
    rw [show (n.step (.surface op io now)).ns.leases = n.ns.leases from
      (h.sound.surfaceOp_outcome h.fits io now op).leases]
    exact ht.open_flushes
  | feed r io proof =>
    rcases h.feed_spec r io proof with ⟨hn, -⟩ | ⟨htk, -, hlease, -⟩
    · rw [show (n.step (.feed r io proof)).ns = n.ns from hn]
      exact ht.open_flushes
    · rw [show (n.step (.feed r io proof)).ns.leases = _ from hlease]
      exact judge_flushesFrom ht.leases ht.open_flushes (hfed r io proof rfl htk)
  | _ => exact absurd rfl hi

/-- **Every open flush was begun in the run.** -/
theorem traced_reached (cfg : Bool) (es : List Event) :
    (reached L cfg es).Coherent ∧ (reached L cfg es).Traced (BegunIn es) := by
  have hall : Run.AllSteps step (fun _ _ => True) (init L cfg) es :=
    Run.AllSteps.of_forall fun _ _ _ => trivial
  refine Run.invariant (I := fun m : Node L => m.Coherent ∧ m.Traced (BegunIn es))
    (fun m e hm he => ⟨hm.1.step e, hm.1.traced hm.2 ?_⟩)
    ⟨coherent_init cfg, traced_boot (fun w g hg => by cases w <;> exact nomatch hg) nofun⟩
    (hall.and_forall (R := fun e => e ∈ es) fun e he => he)
  rintro m io proof rfl hm
  exact ⟨m, io, proof, he.2, hm, rfl, rfl, rfl⟩

/-! ## Commits -/

/-- What the COMMIT would bind is bound: it landed before. -/
def InPlace (v : Key → Option Binding) (m : VolumeMsg) : Prop :=
  ∃ c, v m.key = some c ∧ c.live = true ∧ c.kind = kindVolume ∧ c.objectId = m.objectId ∧
    checkedSucc m.expected = some c.revision

/-- The event feeds the COMMIT, and it is answered that it is carried out. -/
def CommitsOk (n : Node L) (m : VolumeMsg) : Event → Prop
  | .feed r io proof => r = .volume m ∧ m.mode = .commit ∧
      ∃ rev, (n.feed r io proof).2 = .volume .ok rev
  | _ => False

/-- The event accepts the COMMIT: it is carried out, and had not been. -/
def Accepts (n : Node L) (m : VolumeMsg) (e : Event) : Prop :=
  n.CommitsOk m e ∧ ¬ InPlace n.ns.view m

/-- A COMMIT that takes the volume one revision on. -/
structure Advances (n n' : Node L) (m : VolumeMsg) : Prop where
  /-- It expects the current revision, a key without a live binding being at
  0. -/
  expected : curRevision ((n.ns.view m.key).filter Binding.live) = m.expected
  next : m.expected < m.expected + 1
  /-- It installs the next, and touches no other key. -/
  installed : n'.ns.view = Function.update n.ns.view m.key (some (m.root (m.expected + 1)))
  /-- It comes from the holder of the lease, which has not expired, under its
  fence, and the flush is open. -/
  holder : ∃ e, n.ns.leases.lease m.key = some e ∧ e.heldAt m.nowMs = true ∧
    e.holder = m.holder ∧ e.fence = m.fence ∧ e.flushing = true

end Node

/-- A COMMIT answered as carried out without a write is in place. -/
theorem inPlace_of_judgeVolumeAt {L : Limits} {leases leases' : LeaseTable L} {res : Bool}
    {cur : Option Binding} {m : VolumeMsg} {rev : UInt64} (hm : m.mode = .commit)
    (h : judgeVolumeAt leases res cur m = (leases', .answer .ok rev)) :
    ∃ c, cur = some c ∧ c.live = true ∧ c.kind = kindVolume ∧ c.objectId = m.objectId ∧
      checkedSucc m.expected = some c.revision := by
  unfold judgeVolumeAt at h
  dsimp only at h
  split at h
  · cases h
  split at h
  swap
  · cases h
  simp only [judgeVolumeMode, hm] at h
  split at h
  · cases h
  split at h
  · cases h
  next nx hnx =>
  split at h
  · next hin =>
    obtain ⟨c, hc, hp⟩ := (Option.any_eq_true _ _).mp hin
    obtain ⟨hcur, hlive⟩ := Option.filter_eq_some_iff.mp hc
    simp only [Bool.and_eq_true, beq_iff_eq] at hp
    exact ⟨c, hcur, hlive, hp.1.1, hp.1.2, hnx.trans (congrArg some hp.2.symm)⟩
  split at h
  · cases h
  split at h
  · cases h
  split at h
  · cases h
  split at h
  · cases h
  · cases h

/-- The judgement of a COMMIT that is answered as carried out: it is in place,
or it is admitted and its write can be had. -/
theorem judge_commitsOk {L : Limits} {v : Key → Option Binding} {leases : LeaseTable L}
    {gcReserved : List UInt64} {m : VolumeMsg} {ok : Bool} {rev : UInt64}
    (hm : m.mode = .commit)
    (h : (judge v leases gcReserved (.volume m)).answer ok = .volume .ok rev) :
    ((judge v leases gcReserved (.volume m)).effect = .keep ∧ Node.InPlace v m) ∨
      ((judge v leases gcReserved (.volume m)).effect = .put m.key (m.root (m.expected + 1)) ∧
        ok = true ∧ ∃ leases', judgeVolumeAt leases (gcReserved.any (· != 0)) (v m.key) m
          = (leases', .commit (m.expected + 1))) := by
  simp only [judge] at h ⊢
  split at h
  · cases h
  next hdec =>
  rw [if_neg hdec]
  unfold judgeVolumeOp at h ⊢
  dsimp only at h ⊢
  rcases hj : judgeVolumeAt leases (gcReserved.any (· != 0)) (v m.key) m with ⟨leases', step⟩
  rw [hj] at h
  cases step with
  | answer status revision =>
    obtain rfl : status = VolumeStatus.ok := (Verdict.volume.inj h).1
    exact .inl ⟨rfl, inPlace_of_judgeVolumeAt hm hj⟩
  | delete =>
    obtain ⟨-, hdel, -⟩ := of_judgeVolumeAt_delete hj
    cases hm.symm.trans hdel
  | commit next =>
    obtain ⟨rfl, -⟩ := of_judgeVolumeAt_commit hj
    cases ok with
    | false => cases h
    | true => exact .inr ⟨rfl, rfl, leases', rfl⟩

namespace Node

variable {L : Limits} {n : Node L}

/-- **A COMMIT answered as carried out** had landed before, and nothing
changes, or takes the volume one revision on. -/
theorem Coherent.commitsOk (h : n.Coherent) (hl : n.ns.leases.Sound) {m : VolumeMsg} {e : Event}
    (hc : n.CommitsOk m e) :
    (InPlace n.ns.view m ∧ (n.step e).ns.view = n.ns.view) ∨ n.Advances (n.step e) m := by
  cases e with
  | feed r io proof =>
    obtain ⟨rfl, hm, rev, hans⟩ := hc
    rcases h.feed_spec (.volume m) io proof with ⟨-, href⟩ | ⟨-, hv, -, -, hj⟩
    · rw [hans] at href
      cases href
    rw [hans] at hj
    rcases judge_commitsOk hm hj.symm with ⟨heff, hin⟩ | ⟨heff, hok, leases', hjv⟩
    · rw [show (n.ns.judged (.volume m)).effect = .keep from heff] at hv
      exact .inl ⟨hin, hv.trans (ite_self _)⟩
    rw [hok, if_pos rfl, show (n.ns.judged (.volume m)).effect = _ from heff] at hv
    obtain ⟨-, hlt, hexp, -, -, -, t, ht, hholds, hfl, -⟩ := of_judgeVolumeAt_commit hjv
    obtain ⟨e, he, het⟩ := hl.lease_touch ht
    simp only [LeaseTable.holds, het, Option.any_some, Bool.and_eq_true, beq_iff_eq] at hholds
    simp only [LeaseTable.isFlushing, het, Option.any_some, Bool.and_eq_true] at hfl
    exact .inr ⟨hexp, hlt, hv, e, he, hholds.1.1, hholds.1.2, hholds.2, hfl.1⟩
  | _ => exact hc.elim

/-- The event is a provider call, or feeds a record that is no volume
record. -/
def OffVolumes : Event → Prop
  | .feed r _ _ => ∀ m, r ≠ .volume m
  | .surface .. => True
  | _ => False

/-- The event is no provider RENAME onto a volume only the snapshot holds. -/
def SparesVolumes (n : Node L) : Event → Prop
  | .surface (.rename source dest) _ now => ¬ n.ns.MovesOnto source dest now
  | _ => True

theorem Coherent.offVolumes (h : n.Coherent) {e : Event} (he : OffVolumes e)
    (hs : n.SparesVolumes e) : VolumesKept n.ns.view (n.step e).ns.view := by
  cases e with
  | feed r io proof =>
    rcases h.feed_view r io proof with hv | ⟨ht, -, hv⟩
    · rw [show (n.step (.feed r io proof)).ns.view = n.ns.view from hv]
      exact .refl _
    · rw [show (n.step (.feed r io proof)).ns.view = _ from hv]
      simp only [takes, Bool.and_eq_true] at ht
      exact Namespace.judged_keepsVolumes ht.1.1 he
  | surface op io now =>
    refine (h.sound.surfaceOp_outcome h.fits io now op).keepsVolumes ?_
    rintro source dest rfl
    exact hs
  | _ => exact he.elim

/-- Over events of the process's own life, the leases are later. -/
theorem Coherent.run_later (h : n.Coherent) (hl : n.ns.leases.Sound) {es : List Event}
    (hc : ∀ e ∈ es, e ≠ .crash) : (n.run es).Coherent ∧ (n.run es).ns.leases.Sound ∧
      n.ns.leases.Later (n.run es).ns.leases := by
  induction es generalizing n with
  | nil => exact ⟨h, hl, .refl _⟩
  | cons e es ih =>
    obtain ⟨hco, hso, hla⟩ := ih (h.step e) (h.leases_sound hl e)
      fun e' he' => hc e' (List.mem_cons_of_mem e he')
    exact ⟨hco, hso, (h.leases_later hl (hc e List.mem_cons_self)).trans hla⟩

/-- **The history of every volume is linear.** In a run without provider
RENAMEs onto volumes only the snapshot holds, at each event: a COMMIT that is
accepted takes its volume from the revision it expects to the next, for the
holder of the lease under its fence, whose flush a BEGIN of the run opened; no
COMMIT accepted after it by the same process is under a lower fence; and an
event that is no volume record leaves every volume. -/
theorem volume_history_linear (cfg : Bool) (es : List Event)
    (hs : Run.AllSteps step SparesVolumes (init L cfg) es) (pre post : List Event) (e : Event)
    (hes : es = pre ++ e :: post) :
    (∀ m, (reached L cfg pre).Accepts m e →
      (reached L cfg pre).Advances (reached L cfg (pre ++ [e])) m ∧
        BegunIn pre m.key m.holder m.fence ∧
        ∀ mid e' post' m', post = mid ++ e' :: post' → (∀ x ∈ mid, x ≠ .crash) →
          (reached L cfg (pre ++ e :: mid)).Accepts m' e' → m'.key = m.key →
          m.fence ≤ m'.fence) ∧
      (OffVolumes e → VolumesKept (reached L cfg pre).ns.view
        (reached L cfg (pre ++ [e])).ns.view) := by
  obtain ⟨hco, htr⟩ := traced_reached (L := L) cfg pre
  have hstep : reached L cfg (pre ++ [e]) = (reached L cfg pre).step e := Run.run_append
  rw [hstep]
  have hadv : ∀ {n : Node L} {m : VolumeMsg} {e : Event}, n.Coherent → n.ns.leases.Sound →
      n.Accepts m e → n.Advances (n.step e) m := fun hn hl ha =>
    (hn.commitsOk hl ha.1).resolve_left fun hin => ha.2 hin.1
  refine ⟨fun m ha => ?_, fun he => ?_⟩
  · have hm := hadv hco htr.leases ha
    obtain ⟨b, hb, -, hbh, hbf, hbo⟩ := hm.holder
    refine ⟨hm, hbh ▸ hbf ▸ htr.open_flushes m.key b hb hbo, ?_⟩
    intro mid e' post' m' hpost hmid ha' hk
    have hne : e ≠ .crash := by
      rintro rfl
      exact ha.1
    obtain ⟨hco', hso', hla⟩ := hco.run_later htr.leases fun x (hx : x ∈ e :: mid) =>
      (List.mem_cons.mp hx).elim (fun hxe => hxe ▸ hne) (hmid x)
    have hrun : reached L cfg (pre ++ e :: mid) = (reached L cfg pre).run (e :: mid) :=
      Run.run_append
    rw [hrun] at ha'
    obtain ⟨b', hb', -, -, hbf', -⟩ := (hadv hco' hso' ha').holder
    have hle := hla.fence m.key
    rw [hk] at hb'
    rw [LeaseTable.lastFence_of_lease hb, LeaseTable.lastFence_of_lease hb', hbf, hbf'] at hle
    exact hle
  · rw [hes] at hs
    exact hco.offVolumes he (Run.allSteps_append.mp hs).2.1

/-- A record that binds a file. -/
def exampleFile (name : UInt8) : Record := .bind ⟨⟨[], [name]⟩, ⟨1, 0, [name], Meta.none⟩, .any, 0⟩

/-- A BEGIN and a COMMIT of the first root of a volume, its lease taken. -/
def firstFlush : List Event :=
  [fed (.lease ⟨1, Namespace.exampleKey, [7], 10, 1000⟩),
    fed (.volume ⟨.start, Namespace.exampleKey, [], [7], 1, 0, 11⟩)]

/-- See `firstFlush`. -/
def firstCommit : VolumeMsg := ⟨.commit, Namespace.exampleKey, [1], [7], 1, 0, 12⟩

theorem volume_history_linear_first :
    (reached .minimal true firstFlush).Advances
      (reached .minimal true (firstFlush ++ [fed (.volume firstCommit)])) firstCommit :=
  ((volume_history_linear true (firstFlush ++ [fed (.volume firstCommit)])
    ⟨trivial, trivial, trivial, trivial⟩ firstFlush [] (fed (.volume firstCommit)) rfl).1
    firstCommit ⟨⟨rfl, rfl, 1, by decide⟩, fun ⟨c, hc, _⟩ =>
      nomatch (show (reached .minimal true firstFlush).ns.view Namespace.exampleKey = none by decide).symm.trans
        hc⟩).1

/-- A volume is flushed and three files are bound around a compaction, the
last of them in its slot. -/
def evictedVolume : List Event :=
  firstFlush ++ [fed (.volume firstCommit), fed (exampleFile 97), fed (exampleFile 98),
    .compactStart, .openDone, .merge .allReady, .merge .allReady, .merge .allReady,
    .merge .allReady, .finishDone, .reopenDone, .rotate .rotated,
    fed (exampleFile 99), fed (exampleFile 100)]

/-- **A provider RENAME onto a volume that only the snapshot holds replaces
it.** -/
theorem surface_rename_replaces_volume :
    OffVolumes (.surface (.rename [99] examplePath) .allReady 20) ∧
      ¬ VolumesKept (reached fourSlots true evictedVolume).ns.view
        (reached fourSlots true
          (evictedVolume ++ [.surface (.rename [99] examplePath) .allReady 20])).ns.view := by
  refine ⟨trivial, fun h => ?_⟩
  have hvolume : isVolume ((reached fourSlots true evictedVolume).ns.view Namespace.exampleKey) = true := by
    decide +kernel
  have hfile : isVolume ((reached fourSlots true (evictedVolume ++
      [.surface (.rename [99] examplePath) .allReady 20])).ns.view Namespace.exampleKey) = false := by
    decide +kernel
  rw [h Namespace.exampleKey (.inl hvolume), hvolume] at hfile
  cases hfile

end Node

end Loam

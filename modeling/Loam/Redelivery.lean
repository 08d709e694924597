import Loam.Revisions
import Loam.LeaseLaws

/-!
# Redelivery

Records are delivered at least once: a proposer replays its log on reboot and
forwards what it does not know to be resolved. A record that comes again after
it was applied is *spent*: a bind, an unbind or a retain is no longer past its
key's revision, a lease or volume record no longer past its volume's stamp.
That stays so while nothing goes back (`Namespace.Spent.mono`), and a spent
record asks nothing of the bindings or the leases.

Two kinds carry no such mark. A rename is done again whenever its old name has
been bound anew and its new name is free, and a reservation ends the flushes
expired at its stamp whenever it comes.
-/

namespace Loam

/-! ## The leases a record leaves -/

section Leases

variable {L : Limits} {v : Key → Option Binding} {leases : LeaseTable L}
  {gcReserved : List UInt64}

/-- A volume record judges its stamp, and opens or ends a flush. -/
theorem judgeVolumeMode_leases (res : Bool) (cur : Option Binding) (m : VolumeMsg) :
    (judgeVolumeMode leases res cur m).1 = leases ∨
      ∃ opened, (judgeVolumeMode leases res cur m).1 = leases.setFlushing m.key m.holder opened := by
  cases hm : m.mode with
  | other => exact .inl (by simp only [judgeVolumeMode, hm])
  | start | abort | commit | delete =>
    simp only [judgeVolumeMode, hm]
    repeat' split
    all_goals first | exact .inl rfl | exact .inr ⟨_, rfl⟩

/-- A volume record follows, and one that is not refused is remembered. -/
theorem judgeVolumeAt_follows (h : leases.Sound) (res : Bool) (cur : Option Binding)
    (m : VolumeMsg) : leases.Follows (judgeVolumeAt leases res cur m).1 ∧
      ((∀ status rev, (judgeVolumeAt leases res cur m).2 = .answer status rev → status = .ok) →
        m.nowMs ≤ (judgeVolumeAt leases res cur m).1.lastStamp m.key) := by
  obtain ⟨htouch, hstamp⟩ := h.touch_follows m.key m.nowMs
  unfold judgeVolumeAt
  dsimp only
  split
  · exact ⟨h.follows_refl, fun hok => nomatch hok _ _ rfl⟩
  split
  · next t ht =>
    rw [ht] at htouch hstamp
    have hmode : t.Follows (judgeVolumeMode t res (cur.filter Binding.live) m).1 := by
      rcases @judgeVolumeMode_leases L t res (cur.filter Binding.live) m with he | ⟨b, he⟩
      · rw [he]
        exact htouch.sound.follows_refl
      · rw [he]
        exact htouch.sound.setFlushing_follows _ _ _
    exact ⟨htouch.trans hmode, fun _ => UInt64.le_trans (hstamp rfl) (hmode.stamp m.key)⟩
  · next t o hne ht =>
    rw [ht] at htouch
    exact ⟨htouch, fun hok => nomatch hok _ _ rfl⟩

theorem judgeVolumeOp_leases (m : VolumeMsg) :
    (judgeVolumeOp v leases gcReserved m).leases
      = (judgeVolumeAt leases (gcReserved.any (· != 0)) (v m.key) m).1 := by
  unfold judgeVolumeOp
  dsimp only
  split <;> next he => exact congrArg Prod.fst he.symm

/-- **No record from the wire makes a stamp go back.** -/
theorem judge_follows (h : leases.Sound) {r : Record} (hw : r.fromWire = true) :
    leases.Follows (judge v leases gcReserved r).leases := by
  cases r with
  | leaseRestore | bindingRestore => cases hw
  | gcReserve objectId now => exact h.endExpiredFlushes_follows now
  | gcRelease | undecodable => exact h.follows_refl
  | lease m =>
    simp only [judge]
    split
    · exact h.follows_refl
    · exact (h.apply_follows _ _ _ _ _).1
  | volume m =>
    simp only [judge]
    split
    · exact h.follows_refl
    rw [judgeVolumeOp_leases]
    exact (judgeVolumeAt_follows h _ _ m).1
  | bind | rename | unbind | retain =>
    simp only [judge]
    repeat' split
    all_goals exact h.follows_refl

/-- Every record keeps the lease table sound, the restores too. -/
theorem judge_leases_sound (h : leases.Sound) (r : Record) :
    (judge v leases gcReserved r).leases.Sound := by
  cases hw : r.fromWire with
  | true => exact (judge_follows h hw).sound
  | false =>
    cases r with
    | bind | rename | unbind | retain | volume | lease | gcReserve | gcRelease | undecodable =>
      cases hw
    | bindingRestore m =>
      simp only [judge]
      repeat' split
      all_goals exact h
    | leaseRestore e fenceFloor stampFloor =>
      simp only [judge]
      split
      · exact h
      next t ht =>
      have hs := (h.restore_spec ht).1
      simp only [Judgement.still]
      split
      · exact (hs.setFlushing_follows _ _ _).sound
      · exact hs

end Leases

/-! ## Spent records -/

namespace Namespace

variable {L : Limits} {ns ns' : Namespace L}

/-- A record leaves no trace if it comes again, by its own mark. -/
def Spent (ns : Namespace L) : Record → Prop
  | .bind m => m.binding.revision ≤ curRevision (ns.view m.key)
  | .unbind m => m.revision ≤ curRevision (ns.view m.key)
  | .retain m => m.revision ≤ curRevision (ns.view m.key) ∨
      m.expect < curRevision (ns.view m.key) ∨ judgeRetain (ns.view m.key) m = .ok none
  | .volume m => m.nowMs ≤ ns.leases.lastStamp m.key
  | .lease m => m.nowMs ≤ ns.leases.lastStamp m.key
  | _ => True

theorem le_of_judgeBind_false {cur : Option Binding} {m : BindMsg}
    (h : judgeBind cur m = .ok false) : m.binding.revision ≤ curRevision cur := by
  unfold judgeBind at h
  dsimp only at h
  split at h
  · cases h
  split at h
  · next hle => exact hle
  repeat' split at h
  all_goals cases h

theorem eq_of_judgeUnbind_false {cur : Option Binding} {m : UnbindMsg}
    (h : judgeUnbind cur m = .ok false) : curRevision cur = m.revision := by
  unfold judgeUnbind at h
  split at h
  · cases h
  split at h
  · split at h
    · next heq => exact heq.1
    · cases h
  · repeat' split at h
    all_goals cases h

theorem eq_of_judgeRetain_none {cur : Option Binding} {m : RetainMsg}
    (h : judgeRetain cur m = .ok none) : curRevision cur = m.expect := by
  unfold judgeRetain at h
  split at h
  · cases h
  next c =>
  dsimp only at h
  split at h
  · cases h
  split at h
  · cases h
  next hcond =>
  exact not_not.mp (not_or.mp hcond).1

/-- **A spent record stays spent** while nothing goes back. -/
theorem Spent.mono {r : Record} (h : ns.Spent r) (hv : ∀ k, Rises (ns.view k) (ns'.view k))
    (hl : ns.leases.Follows ns'.leases) : ns'.Spent r := by
  cases r with
  | bind m => exact UInt64.le_trans h (hv m.key).1
  | unbind m => exact UInt64.le_trans h (hv m.key).1
  | volume m => exact UInt64.le_trans h (hl.stamp m.key)
  | lease m => exact UInt64.le_trans h (hl.stamp m.key)
  | retain m =>
    obtain ⟨hle, hne⟩ := hv m.key
    rcases h with hrev | hexp | hidle
    · exact .inl (UInt64.le_trans hrev hle)
    · exact .inr (.inl (UInt64.lt_of_lt_of_le hexp hle))
    · by_cases hsame : ns'.view m.key = ns.view m.key
      · exact .inr (.inr (by rw [hsame, hidle]))
      refine .inr (.inl ?_)
      rw [← eq_of_judgeRetain_none hidle]
      exact hne hsame
  | rename | gcReserve | gcRelease | leaseRestore | bindingRestore | undecodable => trivial

theorem curRevision_of_put {k : Key} {b : Binding} (hv : ns'.view = ns.after (.put k b)) :
    curRevision (ns'.view k) = b.revision := by
  rw [hv, after, Function.update_self]
  rfl

theorem ok_of_write {leases : LeaseTable L} {gcReserved : List UInt64} {e : Effect} {ok : Bool}
    (h : ((Judgement.write leases gcReserved e).answer ok).isRefusal = false) : ok = true := by
  cases ok with
  | true => rfl
  | false => cases h

/-- Being spent is read off the view and the leases. -/
theorem Spent.congr {r : Record} (h : ns.Spent r) (hv : ns'.view = ns.view)
    (hl : ns'.leases = ns.leases) : ns'.Spent r := by
  cases r with
  | rename | gcReserve | gcRelease | leaseRestore | bindingRestore | undecodable => trivial
  | bind | unbind | retain | volume | lease =>
    unfold Spent
    simp only [hv, hl]
    exact h

/-- **An applied record is spent.** -/
theorem spent_of_applied (hs : ns.leases.Sound) {r : Record} {ok : Bool}
    (hv : ns'.view = if ok then ns.after (ns.judged r).effect else ns.view)
    (hl : ns'.leases = (ns.judged r).leases)
    (hans : ((ns.judged r).answer ok).isRefusal = false) : ns'.Spent r := by
  generalize hJ : ns.judged r = J at hv hl hans
  cases r with
  | rename | gcReserve | gcRelease | leaseRestore | bindingRestore | undecodable => trivial
  | bind m =>
    simp only [judged, judge] at hJ
    split at hJ
    · subst hJ
      cases hans
    split at hJ
    · subst hJ
      cases hans
    split at hJ
    · subst hJ
      cases hans
    split at hJ
    · subst hJ
      cases hans
    · next hj =>
      subst hJ
      have hview : ns'.view = ns.view := by simpa [Judgement.still, after] using hv
      show m.binding.revision ≤ curRevision (ns'.view m.key)
      rw [hview]
      exact le_of_judgeBind_false hj
    · subst hJ
      obtain rfl := ok_of_write hans
      exact UInt64.le_of_eq (curRevision_of_put hv).symm
  | unbind m =>
    simp only [judged, judge] at hJ
    split at hJ
    · subst hJ
      cases hans
    · next hj =>
      subst hJ
      have hview : ns'.view = ns.view := by simpa [Judgement.still, after] using hv
      show m.revision ≤ curRevision (ns'.view m.key)
      rw [hview]
      exact UInt64.le_of_eq (eq_of_judgeUnbind_false hj).symm
    · subst hJ
      obtain rfl := ok_of_write hans
      exact UInt64.le_of_eq (curRevision_of_put hv).symm
  | retain m =>
    simp only [judged, judge] at hJ
    split at hJ
    · subst hJ
      cases hans
    split at hJ
    · subst hJ
      cases hans
    · next hj =>
      subst hJ
      have hview : ns'.view = ns.view := by simpa [Judgement.still, after] using hv
      exact .inr (.inr (by rw [hview, hj]))
    · next b hj =>
      subst hJ
      obtain rfl := ok_of_write hans
      obtain ⟨c, -, -, -, -, -, hb, -⟩ := of_judgeRetain hj
      refine .inl (UInt64.le_of_eq ?_)
      rw [curRevision_of_put hv, hb]
  | lease m =>
    simp only [judged, judge] at hJ
    split at hJ
    · subst hJ
      cases hans
    · subst hJ
      show m.nowMs ≤ ns'.leases.lastStamp m.key
      rw [hl]
      exact (hs.apply_follows _ _ _ _ _).2 (by simpa [Judgement.still, Verdict.isRefusal] using hans)
  | volume m =>
    simp only [judged, judge] at hJ
    split at hJ
    · subst hJ
      cases hans
    subst hJ
    show m.nowMs ≤ ns'.leases.lastStamp m.key
    rw [hl, judgeVolumeOp_leases]
    refine (judgeVolumeAt_follows hs _ _ m).2 fun status rev he => ?_
    rcases hp : judgeVolumeAt ns.leases (ns.gcReserved.any (· != 0)) (ns.view m.key) m with ⟨t, s⟩
    rw [hp] at he
    subst he
    simp only [judgeVolumeOp, hp] at hans
    simpa [Judgement.still, Verdict.isRefusal] using hans

/-- The record comes again to no effect, having no mark of its own: a rename
does not find its old name bound in the arena and its new name free, and a
reservation finds no flush open that had expired at its stamp. -/
def Exhausted (ns : Namespace L) : Record → Prop
  | .rename m =>
    judgeRename (ns.view ⟨m.root, m.source⟩) (ns.view ⟨m.root, m.dest⟩) m = .ok () →
      ns.bindings.canDo (.move m) = false
  | .gcReserve _ now => now ≠ 0 →
      ∀ e, some e ∈ ns.leases.entries → e.flushing = true → e.heldAt now = true
  | _ => True

theorem endExpiredFlushes_eq_self {t : LeaseTable L} {now : UInt64}
    (h : now ≠ 0 → ∀ e, some e ∈ t.entries → e.flushing = true → e.heldAt now = true) :
    t.endExpiredFlushes now = t := by
  unfold LeaseTable.endExpiredFlushes
  split
  · rfl
  next hnow =>
  obtain ⟨entries, fenceFloor, stampFloor, hlen⟩ := t
  congr 1
  refine (List.map_congr_left fun o ho => ?_).trans (List.map_id _)
  cases o with
  | none => rfl
  | some e =>
    cases hf : e.flushing with
    | false => simp [hf]
    | true => simp [h hnow e ho hf]

/-- **A spent record asks for nothing** of the bindings or the leases. -/
theorem Spent.judged {r : Record} (h : ns.Spent r) (hx : ns.Exhausted r) (hw : r.fromWire = true) :
    ((ns.judged r).effect = .keep ∨ ns.bindings.canDo (ns.judged r).effect = false) ∧
      (ns.judged r).leases = ns.leases := by
  cases r with
  | leaseRestore | bindingRestore => cases hw
  | gcRelease | undecodable => exact ⟨.inl rfl, rfl⟩
  | gcReserve objectId now => exact ⟨.inl rfl, endExpiredFlushes_eq_self hx⟩
  | lease m =>
    simp only [Namespace.judged, judge]
    split
    · exact ⟨.inl rfl, rfl⟩
    · exact ⟨.inl rfl, LeaseTable.apply_of_le_lastStamp h⟩
  | volume m =>
    simp only [Namespace.judged, judge]
    split
    · exact ⟨.inl rfl, rfl⟩
    obtain ⟨htouch, hstale⟩ := LeaseTable.touch_of_le_lastStamp h
    have hj : ∃ status rev, judgeVolumeAt ns.leases (ns.gcReserved.any (· != 0))
        (ns.view m.key) m = (ns.leases, .answer status rev) := by
      unfold judgeVolumeAt
      dsimp only
      split
      · exact ⟨_, _, rfl⟩
      split
      · next t ht => exact absurd (by rw [ht]) hstale
      next t o hne ht =>
      rw [ht] at htouch
      exact ⟨_, _, by rw [← htouch]⟩
    obtain ⟨status, rev, hj⟩ := hj
    simp only [judgeVolumeOp, hj]
    exact ⟨.inl rfl, rfl⟩
  | bind m =>
    simp only [Namespace.judged, judge]
    split
    · exact ⟨.inl rfl, rfl⟩
    split
    · exact ⟨.inl rfl, rfl⟩
    split
    · exact ⟨.inl rfl, rfl⟩
    split
    · exact ⟨.inl rfl, rfl⟩
    · exact ⟨.inl rfl, rfl⟩
    · next hj => exact absurd h (UInt64.not_le.mpr (of_judgeBind hj).1)
  | unbind m =>
    simp only [Namespace.judged, judge]
    split
    · exact ⟨.inl rfl, rfl⟩
    · exact ⟨.inl rfl, rfl⟩
    · next hj => exact absurd h (UInt64.not_le.mpr (of_judgeUnbind hj).2.1)
  | retain m =>
    simp only [Namespace.judged, judge]
    split
    · exact ⟨.inl rfl, rfl⟩
    split
    · exact ⟨.inl rfl, rfl⟩
    · exact ⟨.inl rfl, rfl⟩
    · next b hj =>
      obtain ⟨c, hc, -, -, hexp, hlt, -⟩ := of_judgeRetain hj
      have hcur : curRevision (ns.view m.key) = c.revision := by
        rw [hc]
        rfl
      rcases h with hrev | hlow | hidle
      · exact absurd (hcur ▸ hrev) (UInt64.not_le.mpr hlt)
      · rw [hcur, hexp] at hlow
        exact absurd hlow (UInt64.lt_irrefl _)
      · rw [hidle] at hj
        cases hj
  | rename m =>
    simp only [Namespace.judged, judge]
    split
    · exact ⟨.inl rfl, rfl⟩
    · next hj => exact ⟨.inr (hx hj), rfl⟩

end Namespace

theorem Namespace.SurfaceOutcome.leases {L : Limits} {ns ns' : Namespace L} {now : UInt64}
    {op : SurfaceOp} {res : Except Errno Unit} (h : ns.SurfaceOutcome now op ns' res) :
    ns'.leases = ns.leases := by
  cases h <;> rfl

/-- A replayed log keeps the lease table sound. -/
theorem Namespace.Sound.replay_leases {L : Limits} {ns : Namespace L} (h : ns.Sound)
    (hf : ns.bindings.Fits) (hl : ns.leases.Sound) (log : List Record) :
    (ns.replay log).leases.Sound := by
  induction log generalizing ns with
  | nil => exact hl
  | cons r log ih =>
    obtain ⟨hs, hf', -⟩ := Node.replay_sound h hf [r]
    refine ih hs hf' ?_
    have happly : ∀ r, (ns.applyOp .allReady r).1.leases.Sound := fun r => by
      rw [(h.applyOp_spec r).2.1]
      exact judge_leases_sound hl r
    cases r with
    | gcReserve o now => exact (hl.endExpiredFlushes_follows now).sound
    | gcRelease o => exact hl
    | _ => exact happly _

/-! ## Runs -/

namespace Node

variable {L : Limits} {n : Node L}

/-- A crash is recovered from with nothing gone back: every key is recovered
as it was or past its revision, and every volume at no earlier a stamp. -/
def Recovers (n : Node L) : Prop :=
  (∀ k, Rises (n.ns.view k) ((boot L n.walConfigured n.disk).ns.view k)) ∧
    ∀ k, n.ns.leases.lastStamp k ≤ (boot L n.walConfigured n.disk).ns.leases.lastStamp k

/-- A volume commit that expects nothing bound, over a tombstone. -/
def Remakes (ns : Namespace L) : Record → Prop
  | .volume m => m.mode = .commit ∧ m.expected = 0 ∧ ∃ t, ns.view m.key = some t ∧ t.live = false
  | _ => False

/-- Nothing goes back in this step. -/
def Steady (n : Node L) : Event → Prop
  | .feed r _ _ => n.ns.Gated r ∧ ¬ Remakes n.ns r
  | .surface op _ _ => n.ns.SurfaceGated op
  | .crash => n.Recovers
  | _ => True

theorem leases_sound_boot {d : Disk} (h : ∀ w, ∀ g ∈ d.slot w, g.Sorted) (cfg : Bool) :
    (boot L cfg d).ns.leases.Sound := by
  cases cfg with
  | false => exact LeaseTable.sound_new
  | true =>
    exact (sound_opened (sorted_opens h)).replay_leases Arena.fits_new LeaseTable.sound_new d.log

theorem Coherent.leases_sound (h : n.Coherent) (hl : n.ns.leases.Sound) (e : Event) :
    (n.step e).ns.leases.Sound := by
  by_cases hi : e.internal = true
  · rw [(h.internal hi).2.1]
    exact hl
  cases e with
  | crash => exact leases_sound_boot h.disk _
  | surface op io now =>
    have ho := h.sound.surfaceOp_outcome h.fits io now op
    rw [show (n.step (.surface op io now)).ns.leases = n.ns.leases from ho.leases]
    exact hl
  | feed r io proof =>
    rcases h.feed_spec r io proof with ⟨he, -⟩ | ⟨-, -, hlease, -⟩
    · rw [show (n.step (.feed r io proof)).ns = n.ns from he]
      exact hl
    · rw [show (n.step (.feed r io proof)).ns.leases = _ from hlease]
      exact judge_leases_sound hl r
  | _ => exact absurd rfl hi

theorem leases_sound_reached (cfg : Bool) (es : List Event) :
    (reached L cfg es).ns.leases.Sound :=
  have hinit : (init L cfg).Coherent ∧ (init L cfg).ns.leases.Sound :=
    ⟨coherent_init cfg, leases_sound_boot (fun w g hg => by cases w <;> cases hg) cfg⟩
  (Run.invariant_all (I := fun n : Node L => n.Coherent ∧ n.ns.leases.Sound)
    (fun _ e hn => ⟨hn.1.step e, hn.1.leases_sound hn.2 e⟩) hinit es).2

/-- **A steady step takes nothing back.** -/
theorem Coherent.steady (h : n.Coherent) (hl : n.ns.leases.Sound) {e : Event} (hs : n.Steady e) :
    (∀ k, Rises (n.ns.view k) ((n.step e).ns.view k)) ∧
      n.ns.leases.Follows (n.step e).ns.leases := by
  by_cases hi : e.internal = true
  · obtain ⟨hv, hle, -⟩ := h.internal hi
    exact ⟨fun k => .of_eq (congrFun hv k), by rw [hle]; exact hl.follows_refl⟩
  cases e with
  | crash => exact ⟨hs.1, leases_sound_boot h.disk _, hs.2⟩
  | surface op io now =>
    have ho := h.sound.surfaceOp_outcome h.fits io now op
    refine ⟨fun k => ho.rises hs k, ?_⟩
    rw [show (n.step (.surface op io now)).ns.leases = n.ns.leases from ho.leases]
    exact hl.follows_refl
  | feed r io proof =>
    refine ⟨fun k => ?_, ?_⟩
    · rcases h.rises (e := .feed r io proof) hs.1 k with hr | ⟨m, io', proof', he, hk, hrec⟩
      · exact hr
      cases he
      obtain ⟨hmode, hexp, ht, -⟩ := hrec
      exact absurd ⟨hmode, hexp, hk ▸ ht⟩ hs.2
    · rcases h.feed_spec r io proof with ⟨he, -⟩ | ⟨ht, -, hlease, -⟩
      · rw [show (n.step (.feed r io proof)).ns = n.ns from he]
        exact hl.follows_refl
      · rw [show (n.step (.feed r io proof)).ns.leases = _ from hlease]
        simp only [takes, Bool.and_eq_true] at ht
        exact judge_follows hl ht.1.1
  | _ => exact absurd rfl hi

/-! ## Records that come again -/

/-- A record fed in a run and not refused. -/
def AppliedIn (n : Node L) (es : List Event) (r : Record) : Prop :=
  ∃ pre io proof post, es = pre ++ .feed r io proof :: post ∧
    ((n.run pre).feed r io proof).2.isRefusal = false

theorem Coherent.with_leases (hn : n.Coherent ∧ n.ns.leases.Sound) {e : Event}
    (hs : n.Steady e) : (n.step e).Coherent ∧ (n.step e).ns.leases.Sound :=
  ⟨hn.1.step e, (hn.1.steady hn.2 hs).2.sound⟩

/-- **A record applied in a steady run is spent at its end.** -/
theorem spent_of_appliedIn (h : n.Coherent) (hl : n.ns.leases.Sound) {es : List Event}
    (hs : Run.AllSteps step Steady n es) {r : Record} (ha : n.AppliedIn es r) :
    (n.run es).ns.Spent r := by
  obtain ⟨pre, io, proof, post, rfl, hans⟩ := ha
  obtain ⟨hpre, hfeed, hpost⟩ := Run.allSteps_append.mp hs
  obtain ⟨h₀, hl₀⟩ := Run.invariant (I := fun n : Node L => n.Coherent ∧ n.ns.leases.Sound)
    (fun _ _ hn hs => Coherent.with_leases hn hs) ⟨h, hl⟩ hpre
  rw [show n.run (pre ++ .feed r io proof :: post) = _ from Run.run_append, Run.run_cons]
  have hspent : ((Run.run step n pre).step (.feed r io proof)).ns.Spent r := by
    rcases h₀.feed_spec r io proof with ⟨-, hno⟩ | ⟨-, hv, hle, -, hj⟩
    · exact nomatch hans.symm.trans hno
    · exact Namespace.spent_of_applied hl₀ hv hle (by rw [← hj]; exact hans)
  refine (Run.invariant (I := fun m : Node L => (m.Coherent ∧ m.ns.leases.Sound) ∧ m.ns.Spent r)
    (fun m e hm hs => ⟨Coherent.with_leases hm.1 hs, ?_⟩)
    ⟨Coherent.with_leases ⟨h₀, hl₀⟩ hfeed, hspent⟩ hpost).2
  obtain ⟨hv, hle⟩ := hm.1.1.steady hm.1.2 hs
  exact hm.2.mono hv hle

/-- A redelivered record finds nothing to do. -/
def Redeliverable (n : Node L) : Event → Prop
  | .feed r _ _ => n.ns.Exhausted r
  | _ => False

/-- **One record that comes again changes nothing.** -/
theorem Coherent.redeliver (h : n.Coherent) {r : Record} (hs : n.ns.Spent r)
    (hx : n.ns.Exhausted r) (io : ReadEnv) (proof : Option Bool) :
    (n.feed r io proof).1.ns.view = n.ns.view ∧
      (n.feed r io proof).1.ns.leases = n.ns.leases := by
  rcases h.feed_spec r io proof with ⟨he, -⟩ | ⟨ht, hv, hle, -⟩
  · rw [he]
    exact ⟨rfl, rfl⟩
  simp only [takes, Bool.and_eq_true] at ht
  obtain ⟨heff, hsame⟩ := hs.judged hx ht.1.1
  refine ⟨hv.trans ?_, hle.trans hsame⟩
  rcases heff with hkeep | hno
  · rw [hkeep]
    rfl
  · rw [hno]
    rfl

/-- **Redelivery is harmless**: after any run in which nothing goes back, any
number of the records applied in it may come again, in any order; where each
finds nothing to do of the two kinds that carry no mark, every binding, its
revision and retention and the lease table are as they were. -/
theorem redelivery_harmless (cfg : Bool) (es again : List Event)
    (hs : Run.AllSteps step Steady (init L cfg) es)
    (ha : ∀ e ∈ again, ∃ r io proof, e = .feed r io proof ∧ (init L cfg).AppliedIn es r)
    (hx : Run.AllSteps step Redeliverable (reached L cfg es) again) :
    ((reached L cfg es).run again).ns.view = (reached L cfg es).ns.view ∧
      ((reached L cfg es).run again).ns.leases = (reached L cfg es).ns.leases := by
  have hspent : ∀ r, (init L cfg).AppliedIn es r → (reached L cfg es).ns.Spent r :=
    fun r hr => spent_of_appliedIn (coherent_init cfg)
      (leases_sound_boot (fun w g hg => by cases w <;> cases hg) cfg) hs hr
  refine (Run.invariant (I := fun m : Node L => m.Coherent ∧
    m.ns.view = (reached L cfg es).ns.view ∧ m.ns.leases = (reached L cfg es).ns.leases)
    (fun m e hm he => ?_) ⟨coherent_reached cfg es, rfl, rfl⟩ (hx.and_forall ha)).2
  obtain ⟨hm, hv, hle⟩ := hm
  obtain ⟨hx, r, io, proof, rfl, hr⟩ := he
  obtain ⟨hv', hle'⟩ := hm.redeliver ((hspent r hr).congr hv hle) hx io proof
  exact ⟨hm.step _, hv'.trans hv, hle'.trans hle⟩

/-! A rename that comes again after its old name was bound anew and its new
name deleted. -/

/-- The move of the examples before, to the path `[108]` at revision 5. -/
def exampleRename : Record := .rename ⟨[], examplePath, [108], 5, 0⟩

/-- A bind, its rename, the old name bound anew and the new name deleted. -/
def renamedThenRebound : List Event :=
  [fed (Namespace.exampleBind [1] 1), fed exampleRename, fed (Namespace.exampleBind [2] 6),
    fed (.unbind ⟨⟨[], [108]⟩, 7, 0, .any, 0⟩)]

/-- **The rename is carried out again**: it takes the later binding away from
the old name. -/
theorem rename_moves_again :
    (init .minimal true).AppliedIn renamedThenRebound exampleRename ∧
      isLive ((reached .minimal true renamedThenRebound).ns.view ⟨[], examplePath⟩) = true ∧
      isLive (((reached .minimal true renamedThenRebound).step (fed exampleRename)).ns.view
        ⟨[], examplePath⟩) = false :=
  ⟨⟨[fed (Namespace.exampleBind [1] 1)], .allReady, none,
    [fed (Namespace.exampleBind [2] 6), fed (.unbind ⟨⟨[], [108]⟩, 7, 0, .any, 0⟩)], rfl,
    by decide⟩, by decide⟩

/-- The bind of the examples comes again, twice. -/
theorem redelivery_harmless_witness :
    ((reached .minimal true exampleBound).run (exampleBound ++ exampleBound)).ns.view
        = (reached .minimal true exampleBound).ns.view ∧
      ((reached .minimal true exampleBound).run (exampleBound ++ exampleBound)).ns.leases
        = (reached .minimal true exampleBound).ns.leases :=
  redelivery_harmless true exampleBound (exampleBound ++ exampleBound)
    ⟨⟨trivial, fun h => h⟩, trivial⟩
    (fun e he => ⟨_, .allReady, none, by simpa [exampleBound, fed] using he,
      [], .allReady, none, [], rfl, by decide⟩)
    ⟨trivial, trivial, trivial⟩

end Node

end Loam

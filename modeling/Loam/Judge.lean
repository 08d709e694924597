import Loam.View

/-!
# What a record does, decided from the view

`judge` is the record judge with the tiers taken away: a function of the map
from keys to bindings, the leases and the reservations, whose answer names at
most one effect on the map – put a binding at a key, or move one. The code
reads the two tiers, evicts and retries; `Namespace.Sound.applyOp_spec` says
that an attempt whose reads all decide does exactly what `judge` says of the
view, up to what only the arena can settle: whether a slot can be had, and,
for a rename, whether the arena itself holds the source.

An attempt in which a read does not decide changes nothing
(`Namespace.applyOp_cases`).
-/

namespace Loam

/-- What a judged record asks of the bindings. -/
inductive Effect where
  | keep
  | put (k : Key) (b : Binding)
  | move (m : RenameMsg)
deriving DecidableEq

/-- The judgement of a record: what becomes of the leases and reservations,
what is asked of the bindings, and the verdict, once it is known whether the
arena could do it. -/
structure Judgement (L : Limits) where
  leases : LeaseTable L
  gcReserved : List UInt64
  effect : Effect
  /-- The verdict, given whether the effect could be had. -/
  answer : Bool → Verdict

namespace Judgement

variable {L : Limits}

/-- A judgement that asks nothing. -/
def still (leases : LeaseTable L) (gcReserved : List UInt64) (v : Verdict) : Judgement L :=
  ⟨leases, gcReserved, .keep, fun _ => v⟩

/-- A judgement that writes. -/
def write (leases : LeaseTable L) (gcReserved : List UInt64) (e : Effect) : Judgement L :=
  ⟨leases, gcReserved, e, fun ok => if ok then .ok else .refused .rejected⟩

end Judgement

section Judge

variable {L : Limits} (v : Key → Option Binding) (leases : LeaseTable L)
  (gcReserved : List UInt64)

/-- The judgement of a volume record. -/
def judgeVolumeOp (m : VolumeMsg) : Judgement L :=
  let curRev := curRevision ((v m.key).filter Binding.live)
  match judgeVolumeAt leases (gcReserved.any (· != 0)) (v m.key) m with
  | (leases, .answer status revision) => .still leases gcReserved (.volume status revision)
  | (leases, .commit next) =>
    ⟨leases, gcReserved, .put m.key (m.root next), fun ok =>
      if ok then .volume .ok next else .volume .badReq curRev⟩
  | (leases, .delete) =>
    ⟨leases, gcReserved, .put m.key (.tombstone (m.expected + 1)), fun ok =>
      if ok then .volume .ok m.expected else .volume .badReq curRev⟩

/-- **The judgement of a record** against a map of bindings. -/
def judge : Record → Judgement L
  | .gcReserve objectId now =>
    .still (leases.endExpiredFlushes now) (reserveHash gcReserved (fnv1a64 objectId)) .ok
  | .gcRelease objectId => .still leases (releaseHash gcReserved (fnv1a64 objectId)) .ok
  | .lease m =>
    if !m.decodes L then .still leases gcReserved (.refused .rejected)
    else
      let out := leases.apply m.mode m.key m.holder m.nowMs m.ttlMs
      .still out.1 gcReserved (.lease out.2)
  | .leaseRestore e fenceFloor stampFloor =>
    match leases.restore e fenceFloor stampFloor with
    | none => .still leases gcReserved (.refused .rejected)
    | some t =>
      .still (if e.flushing then t.setFlushing e.key e.holder true else t) gcReserved .ok
  | .bindingRestore m =>
    if !m.decodesFields L then .still leases gcReserved (.refused .rejected)
    else if m.binding.revision ≤ curRevision (v m.key) then .still leases gcReserved .ok
    else if m.binding.kind = kindTombstone then
      .write leases gcReserved (.put m.key (.tombstone m.binding.revision))
    else .write leases gcReserved (.put m.key m.binding)
  | .retain m =>
    if !m.decodes L then .still leases gcReserved (.refused .rejected)
    else match judgeRetain (v m.key) m with
      | .error f => .still leases gcReserved (.refused f)
      | .ok none => .still leases gcReserved .ok
      | .ok (some b) => .write leases gcReserved (.put m.key b)
  | .volume m =>
    if !m.decodes L then .still leases gcReserved (.refused .rejected)
    else judgeVolumeOp v leases gcReserved m
  | .bind m =>
    if !m.decodes L then .still leases gcReserved (.refused .rejected)
    else if gcReserved.contains (fnv1a64 m.binding.objectId) then
      .still leases gcReserved (.refused .reserved)
    else if m.binding.kind = kindVolume then .still leases gcReserved (.refused .fenced)
    else match judgeBind (v m.key) m with
      | .error f => .still leases gcReserved (.refused f)
      | .ok false => .still leases gcReserved .ok
      | .ok true => .write leases gcReserved (.put m.key m.binding)
  | .rename m =>
    match judgeRename (v ⟨m.root, m.source⟩) (v ⟨m.root, m.dest⟩) m with
    | .error f => .still leases gcReserved (.refused f)
    | .ok () => .write leases gcReserved (.move m)
  | .unbind m =>
    match judgeUnbind (v m.key) m with
    | .error f => .still leases gcReserved (.refused f)
    | .ok false => .still leases gcReserved .ok
    | .ok true => .write leases gcReserved (.put m.key (.tombstone m.revision))
  | .undecodable => .still leases gcReserved (.refused .rejected)

end Judge

namespace Namespace

variable {L : Limits} {ns : Namespace L}

/-- The judgement of a record against the namespace's own view. -/
def judged (ns : Namespace L) (r : Record) : Judgement L :=
  judge ns.view ns.leases ns.gcReserved r

end Namespace

/-- What becomes of the arena when an effect is carried out. -/
inductive Arena.EffectOutcome {L : Limits} (a : Arena L) :
    Effect → Arena L → Bool → Prop where
  | keep : EffectOutcome a .keep a true
  | put {k : Key} {b : Binding} {a' : Arena L} {ok : Bool} :
      a.PutOutcome k b a' ok → EffectOutcome a (.put k b) a' ok
  | move {m : RenameMsg} {a' : Arena L} {ok : Bool} :
      a.MoveOutcome m a' ok → EffectOutcome a (.move m) a' ok

namespace Namespace

variable {L : Limits} {ns : Namespace L} {io : ReadEnv} {r : Record}

/-! ## Attempts whose reads do not decide -/

theorem Sound.read_cases (h : ns.Sound) (io : ReadEnv) (k : Key) :
    (∃ f, ns.read io k = .error f ∧ (f = .pending ∨ f = .rejected)) ∨
      ns.read io k = ns.read .allReady k := by
  cases hr : ns.read io k with
  | ok cur => exact .inr (by rw [h.read_allReady, h.read_eq_ok hr])
  | error f =>
    refine .inl ⟨f, rfl, ?_⟩
    unfold read at hr
    split at hr <;> cases hr
    · exact .inl rfl
    · exact .inr rfl

/-- **An attempt either decides as if every read had, or changes nothing** and
is answered that its reads are pending or failed. -/
theorem Sound.applyOp_cases (h : ns.Sound) (io : ReadEnv) (r : Record) :
    (∃ f, ns.applyOp io r = (ns, .refused f) ∧ (f = .pending ∨ f = .rejected)) ∨
      ns.applyOp io r = ns.applyOp .allReady r := by
  have hone : ∀ k, (∃ f, ns.read io k = .error f ∧ (f = .pending ∨ f = .rejected)) ∨
      ns.read io k = ns.read .allReady k := h.read_cases io
  cases r with
  | gcReserve | gcRelease | lease | leaseRestore | undecodable => exact .inr rfl
  | bindingRestore m =>
    rcases hone m.key with ⟨f, hf, hw⟩ | he
    · simp only [applyOp, applyBindingRestore, hf]
      split
      · exact .inr (by rfl)
      · exact .inl ⟨f, rfl, hw⟩
    · exact .inr (by simp only [applyOp, applyBindingRestore, he])
  | retain m =>
    rcases hone m.key with ⟨f, hf, hw⟩ | he
    · simp only [applyOp, applyRetain, hf]
      split
      · exact .inr (by rfl)
      · exact .inl ⟨f, rfl, hw⟩
    · exact .inr (by simp only [applyOp, applyRetain, he])
  | volume m =>
    rcases hone m.key with ⟨f, hf, hw⟩ | he
    · simp only [applyOp, applyVolume, hf]
      split
      · exact .inr (by rfl)
      · exact .inl ⟨f, rfl, hw⟩
    · exact .inr (by simp only [applyOp, applyVolume, he])
  | bind m =>
    rcases hone m.key with ⟨f, hf, hw⟩ | he
    · simp only [applyOp, applyBind, hf]
      split
      · exact .inr rfl
      split
      · exact .inr rfl
      split
      · exact .inr rfl
      · exact .inl ⟨f, rfl, hw⟩
    · exact .inr (by simp only [applyOp, applyBind, he])
  | unbind m =>
    rcases hone m.key with ⟨f, hf, hw⟩ | he
    · simp only [applyOp, applyUnbind, hf]
      exact .inl ⟨f, rfl, hw⟩
    · exact .inr (by simp only [applyOp, applyUnbind, he])
  | rename m =>
    rcases hone ⟨m.root, m.source⟩ with ⟨f, hf, hw⟩ | he
    · simp only [applyOp, applyRename, hf]
      exact .inl ⟨f, rfl, hw⟩
    rcases hone ⟨m.root, m.dest⟩ with ⟨f, hf, hw⟩ | he'
    · simp only [applyOp, applyRename, he, hf, h.read_allReady ⟨m.root, m.source⟩]
      split
      · exact .inr rfl
      · exact .inl ⟨f, rfl, hw⟩
    · exact .inr (by simp only [applyOp, applyRename, he, he'])

/-! ## Attempts that decide -/

/-- `p` is `ns` after the judgement `J`: the leases, the reservations and the
verdict are the judgement's, and the arena carries out its effect. -/
def Carries (ns : Namespace L) (p : Namespace L × Verdict) (J : Judgement L) : Prop :=
  ∃ a' ok, p = (⟨a', J.leases, J.gcReserved, ns.snap⟩, J.answer ok) ∧
    ns.bindings.EffectOutcome J.effect a' ok

theorem carries_still (leases : LeaseTable L) (gcReserved : List UInt64) (v : Verdict) :
    ns.Carries (⟨ns.bindings, leases, gcReserved, ns.snap⟩, v)
      (.still leases gcReserved v) := ⟨_, true, rfl, .keep⟩

/-- A refusal or an idempotent success leaves the namespace as it is. -/
theorem carries_self (v : Verdict) :
    ns.Carries (ns, v) (.still ns.leases ns.gcReserved v) := carries_still _ _ v

theorem carries_written {p : Namespace L × Bool} {e : Effect}
    (h : ∃ a' ok, p = ({ ns with bindings := a' }, ok) ∧ ns.bindings.EffectOutcome e a' ok) :
    ns.Carries (written p) (.write ns.leases ns.gcReserved e) := by
  obtain ⟨a', ok, rfl, ho⟩ := h
  exact ⟨a', ok, rfl, ho⟩

theorem Sound.carries_put {k : Key} {b : Binding} {p : Namespace L × Bool}
    (h : ∃ a' ok, p = ({ ns with bindings := a' }, ok) ∧ ns.bindings.PutOutcome k b a' ok) :
    ns.Carries (written p) (.write ns.leases ns.gcReserved (.put k b)) := by
  obtain ⟨a', ok, hp, ho⟩ := h
  exact carries_written ⟨a', ok, hp, .put ho⟩

theorem curRevision_of_lookup {k : Key} {s : BindingSlot}
    (h : ns.bindings.lookup k = some s) : curRevision (ns.view k) = s.revision := by
  rw [view_of_lookup h]
  rfl

/-- A bind that is to be written is past the key's revision. -/
theorem lt_of_judgeBind {cur : Option Binding} {m : BindMsg}
    (h : judgeBind cur m = .ok true) : curRevision cur < m.binding.revision := by
  unfold judgeBind at h
  dsimp only at h
  split at h
  · cases h
  split at h
  · split at h <;> cases h
  · next hlt => exact UInt64.not_le.mp hlt

/-- A judged rename has a destination that is not live. -/
theorem not_live_of_judgeRename {src dst : Option Binding} {m : RenameMsg}
    (h : judgeRename src dst m = .ok ()) : isLive dst = false := by
  unfold judgeRename at h
  split at h
  · cases h
  split at h
  · cases h
  split at h
  · cases h
  · next hd => simpa using hd

theorem Sound.applyBind_carries (h : ns.Sound) (m : BindMsg) :
    ns.Carries (ns.applyBind .allReady m) (ns.judged (.bind m)) := by
  simp only [applyBind, judged, judge, h.read_allReady, isReserved]
  split
  · exact carries_self _
  split
  · exact carries_self _
  split
  · exact carries_self _
  cases hj : judgeBind (ns.view m.key) m with
  | error f => exact carries_self _
  | ok w =>
    cases w with
    | false => exact carries_self _
    | true =>
      refine carries_put (h.bindBinding_spec fun s hs => ?_)
      rw [← curRevision_of_lookup hs]
      exact lt_of_judgeBind hj

theorem Sound.applyUnbind_carries (h : ns.Sound) (m : UnbindMsg) :
    ns.Carries (ns.applyUnbind .allReady m) (ns.judged (.unbind m)) := by
  simp only [applyUnbind, judged, judge, h.read_allReady]
  cases judgeUnbind (ns.view m.key) m with
  | error f => exact carries_self _
  | ok w =>
    cases w with
    | false => exact carries_self _
    | true => exact carries_put (h.removeBinding_spec _ _)

theorem Sound.applyRetain_carries (h : ns.Sound) (m : RetainMsg) :
    ns.Carries (ns.applyRetain .allReady m) (ns.judged (.retain m)) := by
  simp only [applyRetain, judged, judge, h.read_allReady]
  split
  · exact carries_self _
  cases judgeRetain (ns.view m.key) m with
  | error f => exact carries_self _
  | ok w =>
    cases w with
    | none => exact carries_self _
    | some b => exact carries_put (h.commitBinding_spec _ _)

theorem Sound.applyRename_carries (h : ns.Sound) (m : RenameMsg) :
    ns.Carries (ns.applyRename .allReady m) (ns.judged (.rename m)) := by
  simp only [applyRename, judged, judge, h.read_allReady]
  split
  · next hv =>
    rw [judgeRename, if_pos (by rw [hv, Bool.true_or])]
    exact carries_self _
  cases hj : judgeRename (ns.view ⟨m.root, m.source⟩) (ns.view ⟨m.root, m.dest⟩) m with
  | error f => exact carries_self _
  | ok w =>
    obtain ⟨a', ok, hp, ho⟩ := h.renameBinding_spec (not_live_of_judgeRename hj)
    exact carries_written ⟨a', ok, hp, .move ho⟩

theorem Sound.applyBindingRestore_carries (h : ns.Sound) (m : BindMsg) :
    ns.Carries (ns.applyBindingRestore .allReady m) (ns.judged (.bindingRestore m)) := by
  simp only [applyBindingRestore, judged, judge, h.read_allReady]
  split
  · exact carries_self _
  split
  · exact carries_self _
  split
  · exact carries_put (h.removeBinding_spec _ _)
  · exact carries_put (h.commitBinding_spec _ _)

/-- The leases play no part in the coherence of the tiers. -/
theorem Sound.withLeases (h : ns.Sound) (leases : LeaseTable L) :
    ({ ns with leases := leases } : Namespace L).Sound := ⟨h.arena, h.sorted, h.covered⟩

theorem Sound.applyVolume_carries (h : ns.Sound) (m : VolumeMsg) :
    ns.Carries (ns.applyVolume .allReady m) (ns.judged (.volume m)) := by
  simp only [applyVolume, judged, judge, judgeVolumeOp, h.read_allReady, anyReserved]
  split
  · exact carries_self _
  obtain ⟨leases, step⟩ := judgeVolumeAt ns.leases (ns.gcReserved.any (· != 0)) (ns.view m.key) m
  cases step with
  | answer status revision => exact carries_still _ _ _
  | commit next =>
    obtain ⟨a', ok, hp, ho⟩ := (h.withLeases leases).commitBinding_spec m.key (m.root next)
    simp only [hp]
    exact ⟨a', ok, rfl, .put ho⟩
  | delete =>
    obtain ⟨a', ok, hp, ho⟩ := (h.withLeases leases).removeBinding_spec m.key (m.expected + 1)
    simp only [hp]
    exact ⟨a', ok, rfl, .put ho⟩

/-- **`applyOp` does what `judge` says of the view**, up to what the arena
alone can settle. -/
theorem Sound.applyOp_carries (h : ns.Sound) (r : Record) :
    ns.Carries (ns.applyOp .allReady r) (ns.judged r) := by
  cases r with
  | bind m => exact h.applyBind_carries m
  | rename m => exact h.applyRename_carries m
  | unbind m => exact h.applyUnbind_carries m
  | retain m => exact h.applyRetain_carries m
  | volume m => exact h.applyVolume_carries m
  | bindingRestore m => exact h.applyBindingRestore_carries m
  | undecodable => exact carries_self _
  | gcRelease objectId => exact carries_still _ _ _
  | gcReserve objectId now => exact carries_still _ _ _
  | lease m =>
    simp only [applyOp, judged, judge]
    split
    · exact carries_self _
    · exact carries_still _ _ _
  | leaseRestore e fenceFloor stampFloor =>
    simp only [applyOp, applyLeaseRestore, judged, judge]
    cases ns.leases.restore e fenceFloor stampFloor with
    | none => exact carries_self _
    | some t => exact carries_still _ _ _

/-! ## The namespace after a record -/

/-- Carrying out an effect keeps the tiers coherent. -/
theorem Sound.effect (h : ns.Sound) {e : Effect} {a' : Arena L} {ok : Bool}
    (ho : ns.bindings.EffectOutcome e a' ok) :
    ({ ns with bindings := a' } : Namespace L).Sound := by
  cases ho with
  | keep => exact h
  | put hp =>
    cases hp with
    | tooLong | noRoom => exact h
    | wrote a₁ _ _ hs _ hw => exact (h.shrinks hs).writes hw
  | move hm =>
    cases hm with
    | refused _ hs => exact h.shrinks hs
    | moved a₁ _ _ _ _ hs _ _ _ _ hmv => exact (h.shrinks hs).moves hmv

/-- Coherence reads the arena and the generation alone. -/
theorem Sound.congr {ns' : Namespace L} (h : ns.Sound) (hb : ns'.bindings = ns.bindings)
    (hs : ns'.snap = ns.snap) : ns'.Sound :=
  ⟨hb ▸ h.arena, hs ▸ h.sorted, fun k s hl => by
    rw [hs]
    exact h.covered k s (hb ▸ hl)⟩

/-- **Every record keeps the tiers coherent.** -/
theorem Sound.sound_applyOp (h : ns.Sound) (io : ReadEnv) (r : Record) :
    (ns.applyOp io r).1.Sound := by
  rcases h.applyOp_cases io r with ⟨f, hf, -⟩ | he
  · rw [hf]
    exact h
  · obtain ⟨a', ok, hp, ho⟩ := h.applyOp_carries r
    rw [he, hp]
    exact (h.effect ho).congr rfl rfl

/-- No record changes which generation is open. -/
theorem Sound.snap_applyOp (h : ns.Sound) (io : ReadEnv) (r : Record) :
    (ns.applyOp io r).1.snap = ns.snap := by
  rcases h.applyOp_cases io r with ⟨f, hf, -⟩ | he
  · rw [hf]
  obtain ⟨a', ok, hp, -⟩ := h.applyOp_carries r
  rw [he, hp]

end Namespace

end Loam

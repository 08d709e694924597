import Loam.Doorbells

/-!
# The table of the subscriptions

What the operations on the subscriptions keep. The free list is always the records that are not
in use (`SubTable.Listed`), so that the live subscriptions and the free list are the table
(`Listed.perm`). A pass that rings keeps every live subscription or drops it, and sets a bit
only as it signals (`SubTable.Rings`); and it leaves none that it was for without the bit
(`rings_ringAll`, `rings_ringKey`).
-/

namespace Loam

namespace SubTable

variable {t t' t'' : SubTable} {k : Kernel} {i j : ℕ} {r r' : SubSlot}

theorem live_eq (t : SubTable) (i : ℕ) : t.live i = (t.recs[i]?.map SubSlot.inUse).getD false := by
  rw [live]
  cases t.recs[i]? <;> rfl

theorem live_of_get (h : t.recs[i]? = some r) : t.live i = r.inUse := by
  rw [live, h]
  rfl

theorem next_of_get (h : t.recs[i]? = some r) : t.next i = r.nextFree := by
  rw [next, h]
  rfl

theorem lt_of_get (h : t.recs[i]? = some r) : i < t.recs.length :=
  (List.getElem?_eq_some_iff.mp h).1

/-! ## The free list -/

/-- **The free list lists the records that are not in use.** -/
def Listed (t : SubTable) : Prop :=
  ∃ is, FreeList.Lists t.next t.live t.recs.length t.free is

/-- **The live subscriptions and the free list are the table**, each record once. -/
theorem Listed.perm (h : t.Listed) :
    (t.liveList ++ t.freeList).Perm (List.range t.recs.length) := by
  obtain ⟨is, h⟩ := h
  rw [freeList, h.walk_eq]
  exact h.perm

theorem listed_new (signalled : List ℤ) : Listed { new with signalled := signalled } :=
  ⟨[], .nil, List.nodup_nil, fun i => by simp [new]⟩

/-- What is read of a table for its free list. -/
theorem Listed.congr (h : t.Listed) (hlen : t'.recs.length = t.recs.length)
    (hfree : t'.free = t.free) (hlive : ∀ i, t'.live i = t.live i)
    (hnext : ∀ i, t'.next i = t.next i) : t'.Listed := by
  obtain ⟨is, h⟩ := h
  rw [Listed, hlen, hfree]
  exact ⟨is, h.congr (fun i _ => hnext i) fun i _ => hlive i⟩

/-- A record that is amended in neither its use nor its place. -/
theorem Listed.modify (h : t.Listed) {f : SubSlot → SubSlot} (i : ℕ)
    (hf : ∀ r, (f r).inUse = r.inUse ∧ (f r).nextFree = r.nextFree) :
    Listed { t with recs := t.recs.modify i f } := by
  have hget : ∀ {β : Type} (g : SubSlot → β), (∀ r, g (f r) = g r) → ∀ j,
      ((t.recs.modify i f)[j]?).map g = (t.recs[j]?).map g := fun g hg j => by
    rw [List.getElem?_modify]
    cases t.recs[j]? with
    | none => rfl
    | some r =>
      show some (g (if i = j then f r else r)) = some (g r)
      split
      · rw [hg]
      · rfl
  refine h.congr (List.length_modify ..) rfl (fun j => ?_) fun j => ?_
  · rw [live_eq, live_eq]
    exact congrArg (·.getD false) (hget SubSlot.inUse (fun r => (hf r).1) j)
  · rw [next, next]
    exact congrArg (·.getD 0) (hget SubSlot.nextFree (fun r => (hf r).2) j)

theorem get_setRec_self (hi : i < t.recs.length) : (t.setRec i r).recs[i]? = some r :=
  List.getElem?_set_self hi

theorem get_setRec_ne (h : j ≠ i) : (t.setRec i r).recs[j]? = t.recs[j]? :=
  List.getElem?_set_ne h.symm

@[simp] theorem length_setRec : (t.setRec i r).recs.length = t.recs.length := List.length_set

/-- A record that is set anew, in the use and the place it has. -/
theorem Listed.setRec (h : t.Listed) (r' : SubSlot) (hr : t.recs[i]? = some r)
    (hu : r'.inUse = r.inUse) (hn : r'.nextFree = r.nextFree) : (t.setRec i r').Listed := by
  refine h.congr length_setRec rfl (fun j => ?_) fun j => ?_
  · by_cases hj : j = i
    · rw [hj, live_of_get (get_setRec_self (lt_of_get hr)), live_of_get hr, hu]
    · rw [live, get_setRec_ne hj, live]
  · by_cases hj : j = i
    · rw [hj, next_of_get (get_setRec_self (lt_of_get hr)), next_of_get hr, hn]
    · rw [next, get_setRec_ne hj, next]

/-! ## Releasing -/

theorem release_of_dead (h : t.live i = false) : t.release i = t := by
  unfold release
  cases hr : t.recs[i]? with
  | none => rfl
  | some r =>
    rw [live_of_get hr] at h
    exact if_neg (by simp [h])

theorem release_of_live (hr : t.recs[i]? = some r) (hu : r.inUse = true) :
    t.release i = { t.setRec i (r.freed t.free) with free := i + 1 } := by
  unfold release
  rw [hr]
  exact if_pos hu

/-- What a release leaves: the other records as they were, this one free. -/
theorem release_get (t : SubTable) (i : ℕ) :
    (t.release i).recs.length = t.recs.length ∧ (t.release i).live i = false ∧
      ∀ j, j ≠ i → (t.release i).recs[j]? = t.recs[j]? := by
  cases hl : t.live i with
  | false =>
    rw [release_of_dead hl]
    exact ⟨rfl, hl, fun _ _ => rfl⟩
  | true =>
    cases hr : t.recs[i]? with
    | none => simp [live, hr] at hl
    | some r =>
      rw [release_of_live hr ((live_of_get hr).symm.trans hl)]
      refine ⟨length_setRec, ?_, fun j hj => get_setRec_ne hj⟩
      exact live_of_get (t := { t.setRec i _ with free := i + 1 })
        (get_setRec_self (lt_of_get hr))

/-- **A record that is released is put on the free list.** -/
theorem Listed.release (h : t.Listed) (i : ℕ) : (t.release i).Listed := by
  cases hl : t.live i with
  | false => rwa [release_of_dead hl]
  | true =>
    cases hr : t.recs[i]? with
    | none => simp [live, hr] at hl
    | some r =>
      obtain ⟨-, hfree, hother⟩ := t.release_get i
      obtain ⟨is, h⟩ := h
      have hlt := lt_of_get hr
      have hnext : ∀ j, j ≠ i → (t.release i).next j = t.next j := fun j hj => by
        rw [next, hother j hj, next]
      have hlive : ∀ j, j ≠ i → (t.release i).live j = t.live j := fun j hj => by
        rw [live, hother j hj, live]
      have hhead : (t.release i).next i = t.free := by
        rw [release_of_live hr ((live_of_get hr).symm.trans hl)]
        exact next_of_get (t := { t.setRec i _ with free := i + 1 }) (get_setRec_self hlt)
      have hlists := h.release hlt hl hhead hnext hfree hlive
      have hcap : (t.release i).recs.length = t.recs.length := (t.release_get i).1
      have hi : (t.release i).free = i + 1 := by
        rw [release_of_live hr ((live_of_get hr).symm.trans hl)]
      rw [Listed, hcap, hi]
      exact ⟨_, hlists⟩

theorem reap_eq (t : SubTable) (i : ℕ) : ∃ n, t.reap i = { t.release i with reaped := n } := by
  unfold reap
  cases hl : t.live i with
  | false => exact ⟨t.reaped, by rw [release_of_dead hl]; rfl⟩
  | true => exact ⟨t.reaped + 1, rfl⟩

theorem Listed.reap (h : t.Listed) (i : ℕ) : (t.reap i).Listed := by
  obtain ⟨n, hn⟩ := t.reap_eq i
  rw [hn]
  exact (h.release i).congr rfl rfl (fun _ => rfl) fun _ => rfl

/-- A fold of drops, each if a condition of its own holds. -/
theorem Listed.foldl_reap (h : t.Listed) (p : SubTable → ℕ → Bool) (is : List ℕ) :
    (is.foldl (fun t i => if p t i then t.reap i else t) t).Listed := by
  induction is generalizing t with
  | nil => exact h
  | cons i is ih =>
    rw [List.foldl_cons]
    split
    · exact ih (h.reap i)
    · exact ih h

theorem Listed.ownerReleased (h : t.Listed) (owner : UInt64) : (t.ownerReleased owner).Listed :=
  h.foldl_reap (fun t i => t.recs[i]?.any fun r : SubSlot => r.inUse && r.owner == owner) _

theorem Listed.sweepDead (h : t.Listed) : (t.sweepDead k).Listed :=
  h.foldl_reap (fun t i => t.recs[i]?.any fun r : SubSlot => r.inUse && !k.moduleLive r.module) _

theorem Listed.ownedSubs (h : t.Listed) (owner : UInt64) : (t.ownedSubs k owner).1.Listed := by
  unfold SubTable.ownedSubs
  generalize List.range t.recs.length = is
  generalize 0 = n
  induction is generalizing t n with
  | nil => exact h
  | cons i is ih =>
    rw [List.foldl_cons]
    dsimp only
    split
    · exact ih h _
    split
    · exact ih h _
    · exact ih (h.reap i) _

/-! ## A pass that rings -/

/-- **What a pass does**: it keeps each live subscription or drops it, and sets a bit only as it
signals. -/
structure Rings (t t' : SubTable) : Prop where
  length : t'.recs.length = t.recs.length
  /-- A live subscription was one. What is rung was, or is signalled. -/
  kept : ∃ es, t'.signalled = t.signalled ++ es ∧ ∀ (i : ℕ) (r' : SubSlot), t'.recs[i]? = some r' →
    r'.inUse = true → ∃ r : SubSlot, t.recs[i]? = some r ∧ r.inUse = true ∧ r'.front = r.front ∧
      r'.event = r.event ∧ (r.rung = true → r'.rung = true) ∧
      (r'.rung = true → r.rung = true ∨ r.event ∈ es)
  /-- The free list stays that of the free records. -/
  listed : t.Listed → t'.Listed

theorem Rings.refl (t : SubTable) : Rings t t :=
  ⟨rfl, ⟨[], (List.append_nil _).symm, fun _ r hr hu => ⟨r, hr, hu, rfl, rfl, id, .inl⟩⟩, id⟩

theorem Rings.trans (h : Rings t t') (h' : Rings t' t'') : Rings t t'' where
  length := h'.length.trans h.length
  kept := by
    obtain ⟨es, hes, hk⟩ := h.kept
    obtain ⟨es', hes', hk'⟩ := h'.kept
    refine ⟨es ++ es', by rw [hes', hes, List.append_assoc], fun i r'' hr'' hu'' => ?_⟩
    obtain ⟨r', hr', hu', hf', he', hup', hsig'⟩ := hk' i r'' hr'' hu''
    obtain ⟨r, hr, hu, hf, he, hup, hsig⟩ := hk i r' hr' hu'
    refine ⟨r, hr, hu, hf'.trans hf, he'.trans he, fun h => hup' (hup h), fun h => ?_⟩
    obtain h | h := hsig' h
    · exact (hsig h).imp_right (List.mem_append_left _)
    · exact .inr (List.mem_append_right _ (he ▸ h))
  listed := fun hl => h'.listed (h.listed hl)

theorem rings_reap (t : SubTable) (i : ℕ) : Rings t (t.reap i) := by
  obtain ⟨n, hn⟩ := t.reap_eq i
  obtain ⟨hlen, hdead, hother⟩ := t.release_get i
  have hsig : (t.release i).signalled = t.signalled := by
    unfold release
    split
    · rfl
    · split <;> rfl
  refine ⟨by rw [hn]; exact hlen, ⟨[], by rw [hn, List.append_nil]; exact hsig,
    fun j r' hr' hu' => ?_⟩, fun hl => hl.reap i⟩
  rw [hn] at hr'
  have hr : (t.release i).recs[j]? = some r' := hr'
  by_cases hj : j = i
  · rw [hj] at hr
    exact absurd (live_of_get hr) (by rw [hdead, hu']; decide)
  · exact ⟨r', (hother j hj).symm.trans hr, hu', rfl, rfl, id, .inl⟩

/-- The records that are settled for a pass: dropped, or rung. -/
def Settled (t : SubTable) (i : ℕ) : Prop :=
  ∀ r : SubSlot, t.recs[i]? = some r → r.inUse = true → r.rung = true

theorem Rings.settled (h : Rings t t') (hs : t.Settled i) : t'.Settled i := fun r' hr' hu' => by
  obtain ⟨es, -, hk⟩ := h.kept
  obtain ⟨r, hr, hu, -, -, hup, -⟩ := hk i r' hr' hu'
  exact hup (hs r hr hu)

/-- **A subscription that is rung is settled.** -/
theorem rings_ringSub (k : Kernel) (t : SubTable) (i : ℕ) :
    Rings t (t.ringSub k i) ∧ (t.ringSub k i).Settled i := by
  unfold ringSub
  cases hr : t.recs[i]? with
  | none => exact ⟨.refl t, fun r h => nomatch hr.symm.trans h⟩
  | some r =>
    dsimp only
    split
    · next hidle =>
      refine ⟨.refl t, fun r' hr' hu' => ?_⟩
      cases hr.symm.trans hr'
      simpa [hu'] using hidle
    next hring =>
    split
    · -- The subscriber is gone: no record is left to be rung.
      refine ⟨rings_reap t i, fun r' hr' hu' => ?_⟩
      obtain ⟨n, hn⟩ := t.reap_eq i
      have hdead := (t.release_get i).2.1
      rw [hn] at hr'
      rw [live_of_get (t := t.release i) hr', hu'] at hdead
      exact Bool.noConfusion hdead
    · have hlt := lt_of_get hr
      refine ⟨⟨length_setRec, ⟨[r.event], rfl, fun j r' hr' hu' => ?_⟩, fun hl =>
        (hl.setRec { r with rung := true } hr rfl rfl).congr rfl rfl (fun _ => rfl)
          fun _ => rfl⟩, fun r' hr' _ => ?_⟩
      · by_cases hj : j = i
        · subst hj
          cases (get_setRec_self hlt).symm.trans hr'
          exact ⟨r, hr, hu', rfl, rfl, fun _ => rfl, fun _ => .inr List.mem_cons_self⟩
        · exact ⟨r', (get_setRec_ne hj).symm.trans hr', hu', rfl, rfl, id, .inl⟩
      · cases (get_setRec_self hlt).symm.trans hr'
        rfl

/-- Where everyone is rung, everyone is settled. -/
theorem rings_ringAll (k : Kernel) (t : SubTable) :
    Rings t (t.ringAll k) ∧ ∀ i, (t.ringAll k).Settled i := by
  obtain ⟨hrings, hall⟩ := Run.leaves (R := Rings) (G := fun i t => Settled t i) Rings.refl
    (fun _ _ _ => Rings.trans) (fun t i => (rings_ringSub k t i).1)
    (fun t i => (rings_ringSub k t i).2) (fun _ _ _ => Rings.settled) t
    (List.range t.recs.length)
  refine ⟨hrings, fun i r hr hu => ?_⟩
  have hlt := lt_of_get hr
  rw [show (t.ringAll k).recs.length = t.recs.length from hrings.length] at hlt
  exact hall i (List.mem_range.mpr hlt) r hr hu

/-- The record does not watch the key, or is settled. -/
def SettledFor (t : SubTable) (key : Bytes) (i : ℕ) : Prop :=
  ∀ r : SubSlot, t.recs[i]? = some r → r.inUse = true → underPrefix key r.front = true → r.rung = true

theorem Rings.settledFor {key : Bytes} (h : Rings t t') (hs : t.SettledFor key i) :
    t'.SettledFor key i := fun r' hr' hu' hk' => by
  obtain ⟨es, -, hk⟩ := h.kept
  obtain ⟨r, hr, hu, hf, -, hup, -⟩ := hk i r' hr' hu'
  exact hup (hs r hr hu (hf ▸ hk'))

/-- Where a key is rung for, all who watch it are settled. -/
theorem rings_ringKey (k : Kernel) (key : Bytes) (t : SubTable) :
    Rings t (t.ringKey k key) ∧ ∀ i, (t.ringKey k key).SettledFor key i := by
  have hone : ∀ (t : SubTable) (i : ℕ), Rings t (if t.watching key i then t.ringSub k i else t) ∧
      SettledFor (if t.watching key i then t.ringSub k i else t) key i := fun t i => by
    obtain ⟨hrings, hsettled⟩ := rings_ringSub k t i
    split
    · exact ⟨hrings, fun r hr hu _ => hsettled r hr hu⟩
    next hw =>
    refine ⟨.refl t, fun r hr hu hkey => ?_⟩
    by_contra hrung
    refine hw ?_
    rw [watching, hr, Option.any_some, hu, hkey, Bool.eq_false_iff.mpr hrung]
    rfl
  obtain ⟨hrings, hall⟩ := Run.leaves (R := Rings) (G := fun i t => SettledFor t key i) Rings.refl
    (fun _ _ _ => Rings.trans) (fun t i => (hone t i).1) (fun t i => (hone t i).2)
    (fun _ _ _ => Rings.settledFor) t (List.range t.recs.length)
  refine ⟨hrings, fun i r hr hu => ?_⟩
  have hlt := lt_of_get hr
  rw [show (t.ringKey k key).recs.length = t.recs.length from hrings.length] at hlt
  exact hall i (List.mem_range.mpr hlt) r hr hu

theorem rings_ringDeferred (k : Kernel) (t : SubTable) : Rings t (t.ringDeferred k) := by
  refine (Run.leaves (R := Rings) (G := fun _ _ => True) Rings.refl (fun _ _ _ => Rings.trans)
    (fun t i => ?_) (fun _ _ => trivial) (fun _ _ _ _ h => h) t
    (List.range t.recs.length)).1
  cases hr : t.recs[i]? with
  | none => exact .refl t
  | some r =>
    dsimp only
    split
    · refine Rings.trans ⟨length_setRec, ⟨[], (List.append_nil _).symm, fun j r' hr' hu' => ?_⟩,
        fun hl => hl.setRec { r with deferred := false } hr rfl rfl⟩ (rings_ringSub k _ i).1
      by_cases hj : j = i
      · subst hj
        cases (get_setRec_self (lt_of_get hr)).symm.trans hr'
        exact ⟨r, hr, hu', rfl, rfl, id, .inl⟩
      · exact ⟨r', (get_setRec_ne hj).symm.trans hr', hu', rfl, rfl, id, .inl⟩
    · exact .refl t

/-! ## Subscribing -/

/-- The free list is that of the free records and of one that was taken off it. -/
def Holds (t : SubTable) (i : ℕ) : Prop :=
  i < t.recs.length ∧
    ∃ is, FreeList.Lists t.next (Function.update t.live i true) t.recs.length t.free is

/-- **A record is taken off the free list.** -/
theorem Listed.popFree (h : t.Listed) (hp : t.popFree = some (t', i)) : t'.Holds i := by
  obtain ⟨is, h⟩ := h
  unfold SubTable.popFree at hp
  split at hp
  · cases hp
  next j hj =>
  obtain ⟨r, hr, hp⟩ := Option.map_eq_some_iff.mp hp
  cases hp
  rw [hj] at h
  have htake : ∃ js, is = i :: js ∧
      FreeList.Lists t.next (Function.update t.live i true) t.recs.length (t.next i) js :=
    h.take (fun _ _ => rfl) (Function.update_self ..) fun j hj => Function.update_of_ne hj _ _
  obtain ⟨js, -, hjs⟩ := htake
  rw [next_of_get hr] at hjs
  exact ⟨lt_of_get hr, js, hjs⟩

/-- The record that was taken is put to use. -/
theorem Holds.setRec (h : t.Holds i) (hu : r.inUse = true) : (t.setRec i r).Listed := by
  obtain ⟨hi, is, h⟩ := h
  rw [Listed, length_setRec]
  refine ⟨is, h.congr (fun j hj => ?_) fun j hj => ?_⟩
  · have hji : j ≠ i := fun hji => by
      have hfree := ((h.mem j).mp hj).2
      rw [hji, Function.update_self] at hfree
      exact Bool.noConfusion hfree
    rw [next, get_setRec_ne hji, next]
  · by_cases hji : j = i
    · rw [hji, Function.update_self, live_of_get (get_setRec_self hi), hu]
    · rw [Function.update_of_ne hji, live, get_setRec_ne hji, live]

/-- **A page is threaded** in front of the free list, in the order of its records. -/
theorem threadPage_spec (base p : ℕ) {is : List ℕ} (hlen : base + p ≤ t.recs.length)
    (h : FreeList.Threads t.next t.free is) (his : ∀ i ∈ is, i < base ∨ base + p ≤ i) :
    FreeList.Threads (t.threadPage base p).next (t.threadPage base p).free
        (List.range' base p ++ is) ∧
      (t.threadPage base p).recs.length = t.recs.length ∧
      (t.threadPage base p).live = t.live := by
  induction p generalizing t is with
  | zero => exact ⟨h, rfl, rfl⟩
  | succ p ih =>
    set t₁ : SubTable := { t with
      recs := t.recs.modify (base + p) fun r => { r with nextFree := t.free }
      free := base + p + 1 } with ht₁
    have hget : ∀ j, t₁.recs[j]? =
        (t.recs[j]?).map fun r => if base + p = j then { r with nextFree := t.free } else r :=
      fun j => by
        rw [ht₁, List.getElem?_modify]
        rfl
    have hlive : t₁.live = t.live := by
      funext j
      rw [live_eq, live_eq, hget, Option.map_map]
      cases t.recs[j]? with
      | none => rfl
      | some r =>
        show (if base + p = j then _ else r : SubSlot).inUse = r.inUse
        split <;> rfl
    have hothers : ∀ j, j ≠ base + p → t₁.next j = t.next j := fun j hj => by
      rw [next, next, hget]
      cases t.recs[j]? with
      | none => rfl
      | some r =>
        show (if base + p = j then _ else r : SubSlot).nextFree = r.nextFree
        rw [if_neg fun hc => hj hc.symm]
    have hhead : t₁.next (base + p) = t.free := by
      have hlt : base + p < t.recs.length := by omega
      rw [next, hget, List.getElem?_eq_getElem hlt]
      exact congrArg SubSlot.nextFree (if_pos rfl)
    have hfront : FreeList.Threads t₁.next t₁.free ((base + p) :: is) :=
      h.push (fun hm => by have := his _ hm; omega) hhead hothers
    have hlen₁ : t₁.recs.length = t.recs.length := List.length_modify ..
    obtain ⟨hthreads, hcap, hlives⟩ := ih (by omega) hfront
      fun i hi => by
        obtain rfl | hi := List.mem_cons.mp hi
        · exact .inr (Nat.le_refl _)
        · have := his i hi
          omega
    rw [List.range'_1_concat, List.append_assoc, List.singleton_append]
    exact ⟨hthreads, hcap.trans hlen₁, hlives.trans hlive⟩

/-- **A page of the heap is free records.** -/
theorem Listed.takePage (h : t.Listed) : t.takePage.Listed := by
  obtain ⟨is, h⟩ := h
  set t₀ : SubTable := { t with recs := t.recs ++ List.replicate subPageRecords .zeroed } with ht₀
  have hold : ∀ i, i < t.recs.length → t₀.recs[i]? = t.recs[i]? := fun i hi =>
    List.getElem?_append_left hi
  have hlt : ∀ i ∈ is, i < t.recs.length := fun i hi => ((h.mem i).mp hi).1
  have hlen : t₀.recs.length = t.recs.length + subPageRecords := by
    rw [ht₀, List.length_append, List.length_replicate]
  have hthreads : FreeList.Threads t₀.next t₀.free is := h.threads.congr fun i hi => by
    rw [next, hold i (hlt i hi), next]
  obtain ⟨ht, hcap, hlive⟩ := threadPage_spec t.recs.length subPageRecords
    hlen.ge hthreads fun i hi => .inl (hlt i hi)
  refine ⟨List.range' t.recs.length subPageRecords ++ is, ?_⟩
  rw [show t.takePage.recs.length = t.recs.length + subPageRecords from hcap.trans hlen]
  refine h.grow ht (fun i hi => ?_) fun i hi hip => ?_
  · show t.takePage.live i = t.live i
    rw [show t.takePage.live = t₀.live from hlive, live, hold i hi, live]
  · show t.takePage.live i = false
    rw [show t.takePage.live = t₀.live from hlive, live, ht₀, List.getElem?_append_right hi,
      List.getElem?_replicate]
    split <;> rfl

/-- A record was found, or none was. -/
def Found (t : SubTable) : Option ℕ → Prop
  | none => t.Listed
  | some i => t.Holds i

theorem Listed.freeSub (h : t.Listed) (heap : Bool) :
    (t.freeSub k heap).1.Found (t.freeSub k heap).2 := by
  unfold SubTable.freeSub
  split
  · next hp => exact h.popFree hp
  have hs : (t.sweepDead k).Listed := h.sweepDead
  dsimp only
  split
  · next hp => exact hs.popFree hp
  split
  · exact hs
  split
  · exact hs.congr rfl rfl (fun _ => rfl) fun _ => rfl
  split
  · next hp => exact hs.takePage.popFree hp
  · exact hs.takePage

theorem Listed.ringAgain (h : t.Listed) (i : ℕ) : (t.ringAgain k i).Listed := by
  unfold SubTable.ringAgain
  split
  · exact h
  next r hr =>
  exact (rings_ringSub k _ i).1.listed (h.setRec { r with rung := false } hr rfl rfl)

/-- **A SUBSCRIBE keeps the free list.** -/
theorem Listed.subscribe (h : t.Listed) (L : Limits) (heap : Bool) (quota : ℕ) (caller : Caller)
    (req : Req) : (t.subscribe L k heap quota caller req).1.Listed := by
  unfold SubTable.subscribe
  split
  · exact h
  split
  · next owner module _ _ =>
    split
    · exact h
    split
    · split
      · exact h.ringAgain _
      · exact h
    have hheld : (if owner % 65536 = 0 then (t, 0) else t.ownedSubs k owner).1.Listed := by
      split
      · exact h
      · exact h.ownedSubs owner
    dsimp only
    generalize (if owner % 65536 = 0 then (t, 0) else t.ownedSubs k owner) = held at hheld
    generalize (if quota = 0 then namespaceSubQuota else quota) = limit
    split
    · exact hheld.congr rfl rfl (fun _ => rfl) fun _ => rfl
    have hfound := hheld.freeSub (k := k) heap
    split
    · next hf =>
      rw [hf] at hfound
      exact Listed.congr hfound rfl rfl (fun _ => rfl) fun _ => rfl
    next t' i hf =>
    rw [hf] at hfound
    split
    · next hle => exact absurd hfound.1 (Nat.not_lt.mpr hle)
    have hset := Holds.setRec hfound
      (r := ⟨true, false, false, owner, module, req.event, 0, req.front⟩) rfl
    split
    · exact (rings_ringSub k _ i).1.listed hset
    · exact hset
  · exact h

/-! ## Taking, putting off, closing -/

theorem Listed.takeFrom (h : t.Listed) (owner module : UInt64) (event : ℤ) (room : ℕ)
    (is out : List ℕ) : (t.takeFrom owner module event room is out).1.Listed := by
  induction is generalizing t out with
  | nil => exact h
  | cons i is ih =>
    unfold SubTable.takeFrom
    split
    · split
      · exact ih (h.modify (f := fun r => { r with rung := false }) i fun r => ⟨rfl, rfl⟩) _
      · exact h
    · exact ih h out

theorem Listed.takeRung (h : t.Listed) (caller : Caller) (event : ℤ) (room : Option ℕ) :
    (t.takeRung k caller event room).1.Listed := by
  unfold SubTable.takeRung
  split
  · exact h
  · next owner module _ _ =>
    have htaken := h.takeFrom owner module event ‹ℕ› (List.range t.recs.length) []
    dsimp only
    split
    · exact htaken.congr rfl rfl (fun _ => rfl) fun _ => rfl
    · exact htaken
  · exact h

theorem Listed.putOff (h : t.Listed) (owner : Option UInt64) (i : ℕ) : (t.putOff owner i).Listed := by
  unfold SubTable.putOff
  split
  · exact h.modify (f := fun r => { r with deferred := true }) i fun r => ⟨rfl, rfl⟩
  · exact h

theorem Listed.close (h : t.Listed) (owner : Option UInt64) (i : ℕ) : (t.close owner i).Listed := by
  unfold SubTable.close
  split
  · exact h.release i
  · exact h

end SubTable

end Loam

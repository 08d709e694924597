import Loam.BlockRuns

/-!
# One truth an extent

A device whose whole writes wait for the fetches of their extents holds every
extent in one slot, and its reads see the writes staged before them. The code
does not look for a fetch when a whole extent is written: the write takes a
slot of its own, the fetch that comes late makes another, and the reads after it
find the older.
-/

namespace Loam

open CellStore

namespace BlockVolume

/-- **One truth an extent**: it has one slot, clean or staged, and a completed
read has the last value written. -/
structure OneTruth (body : Digest → Bytes) (N : ℕ) (s : BlockVolume) : Prop where
  slot : ∀ i < N, ∀ j < N, s.Resident i → s.Resident j → (s.slots i).idx = (s.slots j).idx → i = j
  /-- A read has the last value written before it completed, or the mapped
  one. -/
  read : ∀ a ∈ s.hist.answers, a.cpl.status = none → a.req.op = .read → ∀ j < a.req.len,
    a.cpl.buf j = s.image body a.seen (a.req.lba * s.blockSize + j)
  /-- It is the last written before the read was started, when nothing was
  written there since. -/
  started : ∀ a ∈ s.hist.answers, a.cpl.status = none → a.req.op = .read → ∀ j < a.req.len,
    (∀ w ∈ (s.hist.writes.take a.seen).drop a.since,
      ¬ (w.req.range s.blockSize).Covers (a.req.lba * s.blockSize + j)) →
    a.cpl.buf j = s.image body a.since (a.req.lba * s.blockSize + j)
  /-- A write that completed was staged after it was started and before it
  completed. -/
  wrote : ∀ a ∈ s.hist.answers, a.since ≤ a.seen ∧ a.seen ≤ s.hist.writes.length ∧
    (a.cpl.status = none → a.req.op = .write → s.WroteIn a.req a.since a.seen)

section

variable {body : Digest → Bytes} {N : ℕ} {s : BlockVolume}

/-- The image does not change where nothing is written. -/
theorem image_of_not_covered {m n pos : ℕ} (hmn : m ≤ n)
    (h : ∀ w ∈ (s.hist.writes.take n).drop m, ¬ (w.req.range s.blockSize).Covers pos) :
    s.image body n pos = s.image body m pos := by
  have hsplit : (s.hist.writes.take n).take m ++ (s.hist.writes.take n).drop m
      = s.hist.writes.take n := List.take_append_drop m _
  rw [List.take_take, Nat.min_eq_left hmn] at hsplit
  unfold image
  rw [← hsplit, List.map_append]
  refine valueAt_append_of_forall fun v hv => ?_
  obtain ⟨w, hw, rfl⟩ := List.mem_map.mp hv
  exact h w hw

theorem Inv.oneTruth (h : s.Inv body N) : s.OneTruth body N := by
  refine ⟨fun i hi j hj hri hrj he => ?_, fun a ha => (h.ledger.answers a ha).read,
    fun a ha hst hop j hj hno => ?_, fun a ha => ?_⟩
  · have hlive : s.phase = .ready := by
      by_contra hr
      have hfree : (s.slots i).state = .free := by
        by_cases hf : s.phase = .failed
        · exact (h.dead hf).slots i
        · exact ((h.closed hr hf).slots i).1
      obtain hri | hri := hri
      · exact absurd (hfree.symm.trans hri) nofun
      · exact absurd (hfree.symm.trans hri) nofun
    have hocc {k : ℕ} (hr : s.Resident k) : (s.slots k).state ≠ .free := by
      obtain hr | hr := hr <;> rw [hr] <;> nofun
    exact (h.live hlive).slots.uniq i hi j hj (hocc hri) (hocc hrj) he
  · have hans := h.ledger.answers a ha
    rw [hans.read hst hop j hj]
    exact image_of_not_covered hans.since hno
  · have hans := h.ledger.answers a ha
    exact ⟨hans.since, hans.seen, hans.wrote⟩

end

/-- **An extent has one truth**, in every run in which no whole extent is
staged while its fetch is outstanding. -/
theorem extent_has_one_truth {body : Digest → Bytes} {sha : Bytes → Digest}
    {admits : BlockCaps → BlockReq → Bool} (hadm : AdmitsInDevice admits) {N : ℕ}
    (seeded paramsGood : Bool) (blockSize ttlMs : ℕ) (expectFence : UInt64) {es : List VolEvent}
    (hall : Run.AllSteps (step admits sha N)
      (fun s e => StepTrue body sha s e ∧ StepRaceFree admits N s e)
      (new seeded paramsGood blockSize ttlMs expectFence) es) :
    (Run.run (step admits sha N) (new seeded paramsGood blockSize ttlMs expectFence) es).OneTruth
      body N :=
  ((new_inv seeded paramsGood blockSize ttlMs expectFence).run hadm hall).oneTruth

/-! ## A device of one extent -/

/-- What the device says it takes is let in. -/
def insideCaps (c : BlockCaps) (r : BlockReq) : Bool :=
  decide (r.lba * c.logicalBlockSize + r.len ≤ c.blockCount * c.logicalBlockSize) &&
    decide (r.len ≤ c.maxBlocks * c.logicalBlockSize)

theorem admitsInDevice_insideCaps : AdmitsInDevice insideCaps := by
  intro c r h _
  simpa [insideCaps] using h

/-- A digest of one byte, repeated. -/
def digestOf (b : UInt8) : Digest := ⟨List.replicate 32 b, List.length_replicate⟩

/-- An extent of one byte, repeated. -/
def extentOf (b : UInt8) : Bytes := List.replicate 512 b

/-- A root page of one extent. -/
def rootOf (d : Digest) : Bytes :=
  (encodeRoot ⟨List.replicate 16 7, List.length_replicate⟩ 512 512 [d]).getD []

/-- The bodies, by digest. -/
def bodies : List (Digest × Bytes) :=
  [(digestOf 1, [3]), (digestOf 2, rootOf (digestOf 1)), (digestOf 5, extentOf 5),
    (digestOf 9, extentOf 9), (digestOf 6, rootOf (digestOf 5)), (digestOf 7, rootOf (digestOf 9))]

/-- The body a digest names. -/
def bodyOf (d : Digest) : Bytes := ((bodies.find? fun p => p.1 == d).map Prod.snd).getD []

/-- The digest that names a body. -/
def digestFor (b : Bytes) : Digest :=
  ((bodies.find? fun p => p.2 == b).map Prod.fst).getD (digestOf 8)

/-- A read of the extent. -/
def readAll : BlockReq := ⟨1, .read, false, false, 0, 512, fun _ => 0⟩

/-- A write of the whole extent. -/
def writeAll (b : UInt8) : BlockReq := ⟨2, .write, false, false, 0, 512, fun _ => b⟩

/-- A flush. -/
def flushAll : BlockReq := ⟨3, .flush, false, false, 0, 0, fun _ => 0⟩

/-- The device, not yet open. -/
def smallDevice : BlockVolume := new true true 512 30000 0

/-- It is opened over an extent of which one byte was written. -/
def openSmall : List VolEvent :=
  [.openCheck] ++ stepEvents 0 [] ++ stepEvents 0 [.ack 0 (.lease .ok 1)] ++
    stepEvents 0 [.ack 0 (.lookup .ok (some ⟨true, some (digestOf 2), 4⟩))] ++
    stepEvents 0 [.ack 0 (.body .ok (some (rootOf (digestOf 1))))]

/-- A read asks for the extent, a write of all of it is staged, and the fetch
comes. -/
def lateFetch : List VolEvent :=
  openSmall ++ [.exec readAll] ++ stepEvents 0 [] ++ [.exec (writeAll 9)] ++
    stepEvents 0 [.ack 0 (.body .ok (some [3]))] ++ [.exec readAll]

/-- The fetch comes before the write. -/
def fetchFirst : List VolEvent :=
  openSmall ++ [.exec readAll] ++ stepEvents 0 [] ++ stepEvents 0 [.ack 0 (.body .ok (some [3]))] ++
    [.exec readAll, .exec (writeAll 9), .exec readAll]

/-- A fetch that comes late splits an extent: two slots hold it, and a read
after the write has what was there before. -/
theorem late_fetch_splits_extent :
    Run.AllSteps (step insideCaps digestFor 8) (StepTrue bodyOf digestFor) smallDevice lateFetch ∧
      ¬ (Run.run (step insideCaps digestFor 8) smallDevice lateFetch).OneTruth bodyOf 8 ∧
      ∃ a ∈ (Run.run (step insideCaps digestFor 8) smallDevice lateFetch).hist.answers,
        a.cpl.status = none ∧ a.req.op = .read ∧ a.cpl.buf 0 = 3 ∧
        (Run.run (step insideCaps digestFor 8) smallDevice lateFetch).image bodyOf a.since 0 = 9 := by
  refine ⟨by decide +kernel, fun h => ?_, by decide +kernel⟩
  have hsame : (0 : ℕ) = 1 :=
    h.slot 0 (by decide) 1 (by decide) (.inl (by decide +kernel)) (.inr (by decide +kernel))
      (by decide +kernel)
  exact absurd hsame Nat.zero_ne_one

theorem extent_has_one_truth_fetchFirst :
    (Run.run (step insideCaps digestFor 8) smallDevice fetchFirst).OneTruth bodyOf 8 ∧
      (Run.run (step insideCaps digestFor 8) smallDevice fetchFirst).hist.answers.map
        (fun a => (a.req.tag, a.cpl.buf 0)) = [(1, 3), (2, 9), (1, 9)] :=
  ⟨extent_has_one_truth admitsInDevice_insideCaps true true 512 30000 0 (by decide +kernel),
    by decide +kernel⟩

end BlockVolume

end Loam

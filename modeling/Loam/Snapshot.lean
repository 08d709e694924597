import Loam.Arena
import Loam.Lib.SortedTable

/-!
# Snapshot generations

A snapshot file is a generation number and fixed-size records sorted by key,
so that a lookup is a binary search and a name-ordered listing is a search to
its cursor and a read from there. Tombstones are records like any other.

No read decides on the device inside the call: a record is *ready*, or its
read is *pending* and the whole question is asked again on a later step, or
it *failed*. A `ReadEnv` says which, record by record, for one attempt at a
question, and every reader below is a function of it.
-/

namespace Loam

/-- Outcome of a read of the snapshot (`SnapRead`). -/
inductive SnapRead (α : Type) where
  | ready (value : α)
  /-- The read is being fetched: ask again. -/
  | pending
  | failed
deriving DecidableEq

/-- How the reads of one attempt come out, by record index. -/
abbrev ReadEnv := ℕ → SnapRead Unit

/-- Every read decides. -/
def ReadEnv.allReady : ReadEnv := fun _ => .ready ()

/-- A snapshot record: a key and what it is bound to (`SnapRecord`). -/
structure SnapRecord extends Key, Binding
deriving DecidableEq

/-- The record of an arena slot (`snap_record_from_slot`). -/
def BindingSlot.record (s : BindingSlot) : SnapRecord := ⟨s.toKey, s.toBinding⟩

/-- One generation: its number and its records. -/
structure Snapshot where
  generation : ℕ
  records : List SnapRecord
deriving DecidableEq

namespace Snapshot

/-- The number of records. -/
def count (snap : Snapshot) : ℕ := snap.records.length

/-- Read record `idx`; failed for an index past the end (`snap_read_at`). -/
def readAt (snap : Snapshot) (io : ReadEnv) (idx : ℕ) : SnapRead SnapRecord :=
  match snap.records[idx]? with
  | none => .failed
  | some r =>
    match io idx with
    | .ready () => .ready r
    | .pending => .pending
    | .failed => .failed

/-- The bisection of `snap_search` between `lo` and `hi`; `fuel` bounds the
probes. -/
def searchLoop (snap : Snapshot) (io : ReadEnv) (k : Key) :
    ℕ → ℕ → ℕ → SnapRead (Option SnapRecord)
  | 0, _, _ => .ready none
  | fuel + 1, lo, hi =>
    if lo < hi then
      let mid := lo + (hi - lo) / 2
      match snap.readAt io mid with
      | .pending => .pending
      | .failed => .failed
      | .ready rec =>
        match keyCmp rec.toKey k with
        | .eq => .ready (some rec)
        | .lt => searchLoop snap io k fuel (mid + 1) hi
        | .gt => searchLoop snap io k fuel lo mid
    else .ready none

/-- Binary-search for the record of a key (`snap_search`). -/
def search (snap : Snapshot) (io : ReadEnv) (k : Key) : SnapRead (Option SnapRecord) :=
  snap.searchLoop io k (snap.count + 1) 0 snap.count

/-- The bisection of `snap_seek_after`. -/
def seekLoop (snap : Snapshot) (io : ReadEnv) (k : Key) : ℕ → ℕ → ℕ → SnapRead ℕ
  | 0, lo, _ => .ready lo
  | fuel + 1, lo, hi =>
    if lo < hi then
      let mid := lo + (hi - lo) / 2
      match snap.readAt io mid with
      | .pending => .pending
      | .failed => .failed
      | .ready rec =>
        if keyCmp rec.toKey k = .gt then seekLoop snap io k fuel lo mid
        else seekLoop snap io k fuel (mid + 1) hi
    else .ready lo

/-- Index of the first record whose key sorts strictly after `k`
(`snap_seek_after`). -/
def seekAfter (snap : Snapshot) (io : ReadEnv) (k : Key) : SnapRead ℕ :=
  snap.seekLoop io k (snap.count + 1) 0 snap.count

/-! ## What the searches find -/

/-- The records are in strict key order. -/
def Sorted (snap : Snapshot) : Prop := SortedTable.Sorted SnapRecord.toKey snap.records

/-- The record of a key, by definition rather than by search. -/
def find (snap : Snapshot) (k : Key) : Option SnapRecord :=
  SortedTable.find SnapRecord.toKey k snap.records

variable {snap : Snapshot} {io : ReadEnv} {k : Key} {r : SnapRecord}

theorem readAt_eq_ready {idx : ℕ} (h : snap.readAt io idx = .ready r) :
    snap.records[idx]? = some r := by
  unfold readAt at h
  split at h
  · cases h
  next q hq =>
  split at h
  · cases h
    exact hq
  · cases h
  · cases h

@[simp] theorem readAt_allReady {idx : ℕ} (h : snap.records[idx]? = some r) :
    snap.readAt .allReady idx = .ready r := by
  simp [readAt, h, ReadEnv.allReady]

/-- A decided bisection is right, if its window was. -/
theorem Sorted.searchLoop_eq_ready (hs : snap.Sorted) {o : Option SnapRecord}
    (fuel lo hi : ℕ) (w : SortedTable.Window SnapRecord.toKey snap.records k lo hi)
    (hf : hi - lo < fuel) (h : snap.searchLoop io k fuel lo hi = .ready o) :
    o = snap.find k := by
  induction fuel generalizing lo hi with
  | zero => omega
  | succ fuel ih =>
    rw [searchLoop] at h
    split at h
    · next hlt =>
      dsimp only at h
      split at h
      · cases h
      · cases h
      · next rec hrec =>
        have hm := readAt_eq_ready hrec
        split at h
        · next heq =>
          cases h
          exact (hs.find_eq_some_iff.mpr
            ⟨List.mem_of_getElem? hm, keyCmp_eq_iff.mp heq⟩).symm
        · next hcmp => exact ih _ _ (w.right hs hm (keyCmp_lt_iff.mp hcmp)) (by omega) h
        · next hcmp => exact ih _ _ (w.left hs hm (keyCmp_gt_iff.mp hcmp)) (by omega) h
    · cases h
      exact (w.find_eq_none (by omega)).symm

/-- **A decided search is right**: it answers the key's record, or that there
is none. -/
theorem Sorted.search_eq_ready (hs : snap.Sorted) {o : Option SnapRecord}
    (h : snap.search io k = .ready o) : o = snap.find k :=
  hs.searchLoop_eq_ready _ _ _ SortedTable.window_all (by simp [count]) h

theorem exists_readAt_allReady {idx : ℕ} (h : idx < snap.count) :
    ∃ r, snap.readAt .allReady idx = .ready r :=
  ⟨_, readAt_allReady (List.getElem?_eq_getElem h)⟩

/-- With every read deciding, so does the search. -/
theorem exists_searchLoop_allReady (fuel lo hi : ℕ) (hhi : hi ≤ snap.count) :
    ∃ o, snap.searchLoop .allReady k fuel lo hi = .ready o := by
  induction fuel generalizing lo hi with
  | zero => exact ⟨none, rfl⟩
  | succ fuel ih =>
    rw [searchLoop]
    split
    · next hlt =>
      obtain ⟨r, hr⟩ := @exists_readAt_allReady snap (lo + (hi - lo) / 2) (by omega)
      simp only [hr]
      cases keyCmp r.toKey k with
      | eq => exact ⟨_, rfl⟩
      | lt => exact ih _ _ hhi
      | gt => exact ih _ _ (by omega)
    · exact ⟨none, rfl⟩

theorem Sorted.search_allReady (hs : snap.Sorted) :
    snap.search .allReady k = .ready (snap.find k) := by
  obtain ⟨o, ho⟩ := exists_searchLoop_allReady (k := k) (snap.count + 1) 0 snap.count le_rfl
  have hsearch : snap.search .allReady k = .ready o := ho
  rw [hsearch, hs.search_eq_ready hsearch]

end Snapshot

end Loam

import Mathlib.Data.List.Lex
import Mathlib.Data.Prod.Lex
import Mathlib.Data.List.Basic

/-!
# Keys, their order and their hash

A namespace binds `(root, path)` pairs. Two things are computed from the
bytes of a key: the FNV-1a hash every identity scan is narrowed by, and the
bytewise order the snapshot is sorted in. The hash never decides anything on
its own – a slot matches on hash *and* bytes – while the order is what the
compactor's merge and the snapshot's binary search rest on.

`bytesCmp` and `keyCmp` are the comparisons of the code. They are shown here
to be the comparisons of a linear order, `Key.instLinearOrder`, and from then
on statements about sorted tables are made with `<`.
-/

namespace Loam

/-- A byte string: a root, a path, an object id, a content type. -/
abbrev Bytes := List UInt8

/-! ## The build profile -/

/-- The ceilings a build profile fixes (`loam_limits.rs`). The key ceilings
are enforced by refusal, so a key that was accepted always fits inline. -/
structure Limits where
  /-- Binding slots in the arena (`NAMESPACE_SLOTS`). -/
  namespaceSlots : ℕ
  maxRoot : ℕ
  maxPath : ℕ
  maxObjectId : ℕ
  contentTypeMax : ℕ
  /-- Longest key reference a binding keeps. -/
  keyRefMax : ℕ
  leaseSlots : ℕ
  /-- Longest lease an acquire or renew may ask for, in milliseconds. -/
  leaseTtlMaxMs : UInt64
  /-- Whether the profile has an on-disk snapshot tier (`SNAPSHOT_TIER`). -/
  snapshotTier : Bool

namespace Limits

/-- The smallest profile: no snapshot tier. -/
def minimal : Limits :=
  ⟨64, 64, 160, 96, 128, 64, 16, 300000, false⟩

/-- The constrained profile that keeps a snapshot. -/
def embedded : Limits :=
  ⟨256, 64, 160, 96, 128, 64, 16, 300000, true⟩

/-- The host profile. -/
def node : Limits :=
  ⟨8192, 64, 1024, 96, 128, 64, 16, 300000, true⟩

/-- True when every component of a key fits its ceiling (`key_fits`). -/
def keyFits (L : Limits) (root path objectId : Bytes) : Bool :=
  decide (root.length ≤ L.maxRoot) && decide (path.length ≤ L.maxPath)
    && decide (objectId.length ≤ L.maxObjectId)

end Limits

/-! ## The hash -/

/-- FNV-1a, 64-bit: a scan filter, never an identity. -/
def fnv1a64 (bytes : Bytes) : UInt64 :=
  bytes.foldl (fun h b => (h ^^^ b.toUInt64) * 0x00000100000001B3)
    0xcbf29ce484222325

/-! ## Keys -/

/-- The identity of a binding: a namespace root and a path under it. -/
structure Key where
  root : Bytes
  path : Bytes
deriving DecidableEq

/-- Bytewise order of two slices; a prefix sorts first. -/
def bytesCmp : Bytes → Bytes → Ordering
  | [], [] => .eq
  | [], _ :: _ => .lt
  | _ :: _, [] => .gt
  | a :: as, b :: bs => if a ≠ b then (if a < b then .lt else .gt) else bytesCmp as bs

/-- Order two keys: the root's bytes, then the path's. -/
def keyCmp (a b : Key) : Ordering :=
  match bytesCmp a.root b.root with
  | .eq => bytesCmp a.path b.path
  | o => o

/-- The bytes as numbers, where Mathlib has the lexicographic order. -/
def Bytes.rank (b : Bytes) : List ℕ := b.map UInt8.toNat

theorem Bytes.rank_injective : Function.Injective Bytes.rank :=
  List.map_injective_iff.mpr fun _ _ h => UInt8.toNat_inj.mp h

/-- `bytesCmp` is the lexicographic comparison: the three outcomes at
once. -/
theorem bytesCmp_spec (a b : Bytes) :
    (bytesCmp a b = .lt ↔ Bytes.rank a < Bytes.rank b)
      ∧ (bytesCmp a b = .eq ↔ a = b) := by
  induction a generalizing b with
  | nil => cases b <;> simp [bytesCmp, Bytes.rank]
  | cons x xs ih =>
    cases b with
    | nil => simp [bytesCmp, Bytes.rank]
    | cons y ys =>
      obtain ⟨ihlt, iheq⟩ := ih ys
      have hrank : Bytes.rank (x :: xs) < Bytes.rank (y :: ys)
          ↔ x.toNat < y.toNat ∨ x.toNat = y.toNat ∧ Bytes.rank xs < Bytes.rank ys := by
        simp only [Bytes.rank, List.map_cons]
        exact List.cons_lt_cons_iff
      by_cases hxy : x = y
      · subst hxy
        simp only [bytesCmp, ne_eq, not_true_eq_false, ↓reduceIte, hrank, ihlt, iheq]
        simp
      have hne : x.toNat ≠ y.toNat := fun h => hxy (UInt8.toNat_inj.mp h)
      rw [hrank]
      by_cases hlt : x < y
      · have hlt' : x.toNat < y.toNat := UInt8.lt_iff_toNat_lt.mp hlt
        simp [bytesCmp, hxy, hlt, hlt']
      · have hlt' : ¬ x.toNat < y.toNat := fun h => hlt (UInt8.lt_iff_toNat_lt.mpr h)
        simp [bytesCmp, hxy, hlt, hlt', hne]

theorem bytesCmp_eq_iff {a b : Bytes} : bytesCmp a b = .eq ↔ a = b :=
  (bytesCmp_spec a b).2

namespace Key

/-- A key as a point of the lexicographic product Mathlib orders. -/
def rank (k : Key) : List ℕ ×ₗ List ℕ := toLex (Bytes.rank k.root, Bytes.rank k.path)

theorem rank_injective : Function.Injective rank := by
  intro a b h
  have h' : (Bytes.rank a.root, Bytes.rank a.path) = (Bytes.rank b.root, Bytes.rank b.path) := h
  obtain ⟨hr, hp⟩ := Prod.mk.inj h'
  cases a
  cases b
  simp only at hr hp
  rw [Bytes.rank_injective hr, Bytes.rank_injective hp]

/-- Keys are linearly ordered, root first. -/
instance instLinearOrder : LinearOrder Key := LinearOrder.lift' rank rank_injective

theorem lt_iff {a b : Key} :
    a < b ↔ Bytes.rank a.root < Bytes.rank b.root
      ∨ Bytes.rank a.root = Bytes.rank b.root ∧ Bytes.rank a.path < Bytes.rank b.path :=
  Prod.Lex.toLex_lt_toLex

end Key

/-- **`keyCmp` is the order of keys**, seen from its `Less` outcome. -/
theorem keyCmp_lt_iff {a b : Key} : keyCmp a b = .lt ↔ a < b := by
  rw [Key.lt_iff, keyCmp]
  obtain ⟨hrlt, hreq⟩ := bytesCmp_spec a.root b.root
  cases h : bytesCmp a.root b.root with
  | lt => simp [hrlt.mp h]
  | eq =>
    have hroot : a.root = b.root := hreq.mp h
    simp [hroot, (bytesCmp_spec a.path b.path).1]
  | gt =>
    have hn : ¬ Bytes.rank a.root < Bytes.rank b.root := by rw [← hrlt, h]; simp
    have hne : ¬ Bytes.rank a.root = Bytes.rank b.root := fun he => by
      rw [hreq.mpr (Bytes.rank_injective he)] at h
      cases h
    simp [hn, hne]

/-- `keyCmp` answers `Equal` on equal keys alone. -/
theorem keyCmp_eq_iff {a b : Key} : keyCmp a b = .eq ↔ a = b := by
  rw [keyCmp]
  cases a with | mk ra pa =>
  cases b with | mk rb pb =>
  simp only [Key.mk.injEq]
  cases h : bytesCmp ra rb with
  | eq => simp [bytesCmp_eq_iff.mp h, bytesCmp_eq_iff]
  | lt =>
    have : ra ≠ rb := fun he => by rw [bytesCmp_eq_iff.mpr he] at h; cases h
    simp [this]
  | gt =>
    have : ra ≠ rb := fun he => by rw [bytesCmp_eq_iff.mpr he] at h; cases h
    simp [this]

/-- `keyCmp` answers `Greater` exactly on larger keys. -/
theorem keyCmp_gt_iff {a b : Key} : keyCmp a b = .gt ↔ b < a := by
  constructor
  · intro h
    rcases lt_trichotomy a b with hlt | heq | hgt
    · rw [keyCmp_lt_iff.mpr hlt] at h
      cases h
    · rw [keyCmp_eq_iff.mpr heq] at h
      cases h
    · exact hgt
  · intro h
    cases hc : keyCmp a b with
    | lt => exact absurd (keyCmp_lt_iff.mp hc) (not_lt_of_gt h)
    | eq => exact absurd (keyCmp_eq_iff.mp hc) (ne_of_gt h)
    | gt => rfl

/-! ## Ids derived from content -/

/-- The value of a hexadecimal digit in lower case (`hex_val`, `nib`). -/
def hexVal (c : UInt8) : Option UInt8 :=
  if 0x30 ≤ c ∧ c ≤ 0x39 then some (c - 0x30)
  else if 0x61 ≤ c ∧ c ≤ 0x66 then some (c - 0x61 + 10)
  else none

/-- The bytes pairs of digits are. -/
def hexBytes : Bytes → Option Bytes
  | hi :: lo :: rest => do
    let hi ← hexVal hi
    let lo ← hexVal lo
    let rest ← hexBytes rest
    return ((hi <<< 4) ||| lo) :: rest
  | _ => some []

/-- What an id begins with that is derived from content: `sha256:`. -/
def idPrefix : Bytes := [0x73, 0x68, 0x61, 0x32, 0x35, 0x36, 0x3A]

end Loam

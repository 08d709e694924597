import Mathlib.Data.List.Basic
import Mathlib.Logic.Function.Basic
import Mathlib.Tactic.Common

/-!
# Following a table by its changes

A reader keeps a copy of a table it cannot see, and is told from time to time what some of its
keys hold. It is right *up to* the keys somebody still accounts for as changed (`Follow.UpTo`):
that stays so while the table moves on and every key that moved is accounted for
(`UpTo.moves`), and when the reader takes a page that tells the truth about the keys on it, and
every key that is off it is still accounted for (`UpTo.page`). A reader nothing is accounted for
to has the table.
-/

namespace Follow

variable {κ α : Type} {watched : κ → Prop} {view view' table : κ → Option α}
  {changed changed' : κ → Prop} {recs : List (κ × Option α)}

/-- **The copy is right**, of the keys that are watched, up to those accounted for as changed. -/
def UpTo (watched : κ → Prop) (view table : κ → Option α) (changed : κ → Prop) : Prop :=
  ∀ k, watched k → table k = view k ∨ changed k

/-- The page tells what the keys on it hold. -/
def Tells (view : κ → Option α) (recs : List (κ × Option α)) : Prop :=
  ∀ r ∈ recs, r.2 = view r.1

section Take

variable [DecidableEq κ]

/-- The copy after a page. -/
def take (table : κ → Option α) (recs : List (κ × Option α)) : κ → Option α :=
  recs.foldl (fun t r => Function.update t r.1 r.2) table

/-- A key on a page that tells the truth is right, and one that is not is as it was. -/
theorem Tells.take (h : Tells view recs) (k : κ) :
    Follow.take table recs k = if k ∈ recs.map Prod.fst then view k else table k := by
  induction recs generalizing table with
  | nil => rfl
  | cons r recs ih =>
    have hr := h r List.mem_cons_self
    show Follow.take (Function.update table r.1 r.2) recs k = _
    rw [ih fun r' hr' => h r' (List.mem_cons_of_mem r hr')]
    by_cases hk : k = r.1
    · subst hk
      rw [Function.update_self, hr, ite_self]
      exact (if_pos List.mem_cons_self).symm
    · rw [Function.update_of_ne hk]
      refine if_congr ?_ rfl rfl
      rw [List.map_cons, List.mem_cons, or_iff_right hk]

/-- **A page is taken**: what it does not tell is still accounted for. -/
theorem UpTo.page (h : UpTo watched view table changed) (hp : Tells view recs)
    (hrest : ∀ k, watched k → changed k → k ∈ recs.map Prod.fst ∨ changed' k) :
    UpTo watched view (Follow.take table recs) changed' := by
  intro k hk
  rw [hp.take]
  split
  · exact .inl rfl
  next hoff =>
  obtain ht | hc := h k hk
  · exact .inl ht
  · exact .inr ((hrest k hk hc).resolve_left hoff)

end Take

/-- **The table moves on**: what moves is accounted for, and what was still is. -/
theorem UpTo.moves (h : UpTo watched view table changed)
    (hmoved : ∀ k, view' k = view k ∨ changed' k) (hstays : ∀ k, changed k → changed' k) :
    UpTo watched view' table changed' := fun k hk => by
  obtain hv | hc := hmoved k
  · exact (h k hk).imp (fun ht => ht.trans hv.symm) (hstays k)
  · exact .inr hc

theorem UpTo.watch {watched' : κ → Prop} (h : UpTo watched view table changed)
    (hw : ∀ k, watched' k → watched k) : UpTo watched' view table changed :=
  fun k hk => h k (hw k hk)

end Follow

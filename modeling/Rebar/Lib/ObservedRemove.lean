import Mathlib.Data.Set.Lattice
import Mathlib.Order.ConditionallyCompleteLattice.Basic

/-!
# Observed-remove sets as a join semilattice

The state of an observed-remove set is what was ever added and which tags were ever removed
(`ORSet α τ`, two sets ordered componentwise); its elements (`ORSet.live`) are the added ones whose
tag was not removed.  A delta is itself such a state and is applied by joining.

* `joinAll_eq_sup`   the result is one join, so only WHICH deltas occur matters, not how often and
                     in which order.
-/

namespace Rebar

/-- added elements and removed tags; `⊔` is union in both components -/
abbrev ORSet (α τ : Type) := Set α × Set τ

namespace ORSet
variable {α τ δ : Type} (tag : α → τ)

/-- the elements: added, and the tag not removed -/
def live (S : ORSet α τ) : Set α := {a | a ∈ S.1 ∧ tag a ∉ S.2}

theorem mem_live {S : ORSet α τ} {a : α} : a ∈ live tag S ↔ a ∈ S.1 ∧ tag a ∉ S.2 := Iff.rfl

variable (f : δ → ORSet α τ)

/-- the deltas of a list joined to `S` one after another -/
def joinAll (S : ORSet α τ) (ds : List δ) : ORSet α τ := ds.foldl (fun S d => S ⊔ f d) S

theorem joinAll_cons (S : ORSet α τ) (d : δ) (ds : List δ) :
    joinAll f S (d :: ds) = joinAll f (S ⊔ f d) ds := rfl

theorem joinAll_eq_sup (S : ORSet α τ) (ds : List δ) :
    joinAll f S ds = S ⊔ ⨆ d ∈ ds, f d := by
  induction ds generalizing S with
  | nil => simp [joinAll]
  | cons d ds ih =>
    rw [joinAll_cons, ih, sup_assoc]
    congr 1
    simp [iSup_or, iSup_sup_eq]

theorem mem_joinAll_fst (S : ORSet α τ) (ds : List δ) (a : α) :
    a ∈ (joinAll f S ds).1 ↔ a ∈ S.1 ∨ ∃ d ∈ ds, a ∈ (f d).1 := by
  induction ds generalizing S with
  | nil => simp [joinAll]
  | cons d ds ih => simp [joinAll_cons, ih, or_assoc]

theorem mem_joinAll_snd (S : ORSet α τ) (ds : List δ) (t : τ) :
    t ∈ (joinAll f S ds).2 ↔ t ∈ S.2 ∨ ∃ d ∈ ds, t ∈ (f d).2 := by
  induction ds generalizing S with
  | nil => simp [joinAll]
  | cons d ds ih => simp [joinAll_cons, ih, or_assoc]

variable {σ : Type} {apply : σ → δ → σ} {R : σ → ORSet α τ → Prop}

/-- **Refinement of a list of deltas.**  `ok` is whatever one application needs of the abstract
state after it; it is enough to have it at the last state when it is inherited downwards. -/
theorem foldl_refines {ok : ORSet α τ → Prop} (hdown : ∀ S T, S ≤ T → ok T → ok S)
    (hstep : ∀ s S d, ok (S ⊔ f d) → R s S → R (apply s d) (S ⊔ f d))
    {s : σ} {S : ORSet α τ} (ds : List δ) (hok : ok (joinAll f S ds)) (h : R s S) :
    R (ds.foldl apply s) (joinAll f S ds) := by
  induction ds generalizing s S with
  | nil => exact h
  | cons d ds ih =>
    rw [joinAll_cons] at hok ⊢
    have hle : S ⊔ f d ≤ joinAll f (S ⊔ f d) ds := by
      rw [joinAll_eq_sup]
      exact le_sup_left
    exact ih hok (hstep s S d (hdown _ _ hle hok) h)

end ORSet
end Rebar

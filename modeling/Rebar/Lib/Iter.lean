import Mathlib.Data.List.Basic
import Mathlib.Data.Nat.Basic

/-!
# Selection from a list by comparison

* `maxBy cmp l`     the greatest element; of several greatest ones the LAST.

`maxBy_mem`, `maxBy_ge` say that the result is a greatest element for any comparison that is a
total preorder (`CmpPreorder`); `maxBy_concat`, `maxBy_append_top` say which one it is.
-/

namespace Rebar

section
variable {α : Type}

/-- the running maximum: a later element replaces the current one unless it is smaller -/
def maxByFrom (cmp : α → α → Ordering) : α → List α → α
  | a, [] => a
  | a, b :: l => maxByFrom cmp (if cmp a b = .gt then a else b) l

def maxBy (cmp : α → α → Ordering) : List α → Option α
  | [] => none
  | a :: l => some (maxByFrom cmp a l)

/-- what `maxBy` needs of a comparison: reversal, and transitivity of "not greater" -/
structure CmpPreorder (cmp : α → α → Ordering) : Prop where
  swap : ∀ a b, (cmp a b).swap = cmp b a
  trans : ∀ a b c, cmp a b ≠ .gt → cmp b c ≠ .gt → cmp a c ≠ .gt

variable {cmp : α → α → Ordering}

theorem CmpPreorder.refl (h : CmpPreorder cmp) (a : α) : cmp a a = .eq := by
  have e := h.swap a a
  cases hc : cmp a a with
  | lt => rw [hc] at e; cases e
  | eq => rfl
  | gt => rw [hc] at e; cases e

theorem CmpPreorder.le_of_gt (h : CmpPreorder cmp) {a b : α} (hab : cmp a b = .gt) :
    cmp b a ≠ .gt := by
  rw [← h.swap a b, hab]
  decide

theorem maxByFrom_mem (a : α) (l : List α) : maxByFrom cmp a l ∈ a :: l := by
  induction l generalizing a with
  | nil => exact List.mem_cons_self ..
  | cons b l ih =>
    unfold maxByFrom
    have h := ih (if cmp a b = .gt then a else b)
    rcases List.mem_cons.mp h with e | e
    · rw [e]
      split
      · exact List.mem_cons_self ..
      · exact List.mem_cons_of_mem _ (List.mem_cons_self ..)
    · exact List.mem_cons_of_mem _ (List.mem_cons_of_mem _ e)

theorem maxByFrom_ge (hc : CmpPreorder cmp) (a : α) (l : List α) :
    ∀ x ∈ a :: l, cmp x (maxByFrom cmp a l) ≠ .gt := by
  induction l generalizing a with
  | nil =>
    intro x hx
    rw [List.mem_singleton.mp hx]
    show cmp a a ≠ .gt
    rw [hc.refl]
    decide
  | cons b l ih =>
    intro x hx
    unfold maxByFrom
    have hcur := ih (if cmp a b = .gt then a else b)
    have hfirst := hcur _ (List.mem_cons_self ..)
    rcases List.mem_cons.mp hx with rfl | hx
    · refine hc.trans _ _ _ ?_ hfirst
      by_cases h : cmp x b = .gt
      · rw [if_pos h, hc.refl]; decide
      · rw [if_neg h]; exact h
    · rcases List.mem_cons.mp hx with rfl | hx
      · refine hc.trans _ _ _ ?_ hfirst
        by_cases h : cmp a x = .gt
        · rw [if_pos h]; exact hc.le_of_gt h
        · rw [if_neg h, hc.refl]; decide
      · exact hcur x (List.mem_cons_of_mem _ hx)

theorem maxBy_eq_none_iff (l : List α) : maxBy cmp l = none ↔ l = [] := by
  cases l <;> simp [maxBy]

theorem maxBy_mem {l : List α} {a : α} (h : maxBy cmp l = some a) : a ∈ l := by
  cases l with
  | nil => cases h
  | cons b l =>
    rw [← Option.some.inj h]
    exact maxByFrom_mem b l

theorem maxBy_ge (hc : CmpPreorder cmp) {l : List α} {a : α} (h : maxBy cmp l = some a) :
    ∀ x ∈ l, cmp x a ≠ .gt := by
  cases l with
  | nil => cases h
  | cons b l =>
    rw [← Option.some.inj h]
    exact maxByFrom_ge hc b l

theorem maxByFrom_concat (a b : α) (l : List α) : maxByFrom cmp a (l ++ [b]) =
    if cmp (maxByFrom cmp a l) b = .gt then maxByFrom cmp a l else b := by
  induction l generalizing a with
  | nil => rfl
  | cons c l ih => exact ih (if cmp a c = .gt then a else c)

/-- an element put last is selected unless the one selected before is greater -/
theorem maxBy_concat {l : List α} {a : α} (h : maxBy cmp l = some a) (b : α) :
    maxBy cmp (l ++ [b]) = some (if cmp a b = .gt then a else b) := by
  cases l with
  | nil => cases h
  | cons c l =>
    cases h
    exact congrArg some (maxByFrom_concat c b l)

theorem maxBy_append_top (l : List α) (a : α)
    (h : ∀ x ∈ l, cmp x a ≠ .gt) : maxBy cmp (l ++ [a]) = some a := by
  cases hm : maxBy cmp l with
  | none =>
    rw [(maxBy_eq_none_iff l).mp hm]
    rfl
  | some b => rw [maxBy_concat hm, if_neg (h b (maxBy_mem hm))]

/-- an element with the least key, the first of them -/
def minByKey (f : α → Nat) : List α → Option α
  | [] => none
  | a :: l =>
    match minByKey f l with
    | none => some a
    | some b => if f b < f a then some b else some a

theorem minByKey_eq_none_iff (f : α → Nat) (l : List α) : minByKey f l = none ↔ l = [] := by
  cases l with
  | nil => simp [minByKey]
  | cons a l =>
    unfold minByKey
    cases minByKey f l with
    | none => simp
    | some b => by_cases h : f b < f a <;> simp [h]

theorem minByKey_mem (f : α → Nat) {l : List α} {a : α} (h : minByKey f l = some a) : a ∈ l := by
  induction l with
  | nil => cases h
  | cons b l ih =>
    unfold minByKey at h
    cases hm : minByKey f l with
    | none =>
      rw [hm] at h
      rw [← Option.some.inj h]
      exact List.mem_cons_self ..
    | some c =>
      rw [hm] at h
      by_cases hlt : f c < f b
      · simp only [hlt, if_true] at h
        exact List.mem_cons_of_mem _ (ih (by rw [hm]; exact h))
      · simp only [hlt, if_false] at h
        rw [← Option.some.inj h]
        exact List.mem_cons_self ..

end
end Rebar

import Mathlib.Logic.Relation

/-!
# Machines: start states, a partial step function, and the runs whose steps meet a condition

* `Machine σ ι`       start states and `next : σ → ι → Option σ`; a label `ι` says which step is
                      taken and carries every choice the environment makes in it;
* `Reach M ok`        the states of the runs; `Anytime` is the condition that allows every step;
* `Reach.inv`         the invariant rule.
-/

namespace Rebar

structure Machine (σ ι : Type) where
  start : σ → Prop
  next : σ → ι → Option σ

namespace Machine
variable {σ ι : Type} {M : Machine σ ι} {ok ok' : σ → ι → Prop} {s t : σ}

/-- no condition on the steps -/
def Anytime : σ → ι → Prop := fun _ _ => True

/-- the states reached by steps that all satisfy `ok` -/
inductive Reach (M : Machine σ ι) (ok : σ → ι → Prop) : σ → Prop where
  | start {s : σ} : M.start s → Reach M ok s
  | step {s t : σ} {a : ι} : Reach M ok s → ok s a → M.next s a = some t → Reach M ok t

/-- a property of the start states that every allowed step keeps holds in every state reached -/
theorem Reach.inv {I : σ → Prop} (h0 : ∀ s, M.start s → I s)
    (hstep : ∀ s a t, I s → ok s a → M.next s a = some t → I t) (h : Reach M ok s) : I s := by
  induction h with
  | start hs => exact h0 _ hs
  | step _ ha ht ih => exact hstep _ _ _ ih ha ht

theorem Reach.anytime (h : Reach M ok s) : Reach M Anytime s := by
  induction h with
  | start hs => exact .start hs
  | step _ _ ht ih => exact .step ih trivial ht

/-- the same steps, from a given state -/
def startedAt (M : Machine σ ι) (s : σ) : Machine σ ι := { M with start := fun t => t = s }

theorem Reach.trans (h : Reach M ok s) (h' : Reach (M.startedAt s) ok t) : Reach M ok t := by
  induction h' with
  | start hs => exact hs ▸ h
  | step _ ha ht ih => exact .step ih ha ht

/-- the labels of a list, taken one after another -/
def run (M : Machine σ ι) : σ → List ι → Option σ
  | s, [] => some s
  | s, a :: as => (M.next s a).bind fun t => run M t as

theorem run_nil (s : σ) : M.run s [] = some s := rfl

theorem run_cons (s : σ) (a : ι) (as : List ι) :
    M.run s (a :: as) = (M.next s a).bind fun t => M.run t as := rfl

theorem run_append (s : σ) (as bs : List ι) :
    M.run s (as ++ bs) = (M.run s as).bind fun t => M.run t bs := by
  induction as generalizing s with
  | nil => rfl
  | cons a as ih =>
    rw [List.cons_append, run_cons, run_cons]
    cases M.next s a with
    | none => rfl
    | some t => exact ih t

/-- steps that lower a measure until a goal is met lead to the goal -/
theorem exists_run_of_measure {I : Nat → σ → Prop} {goal : σ → Prop}
    (hstep : ∀ n s, I n s → goal s ∨ ∃ a t m, M.next s a = some t ∧ m < n ∧ I m t) {n : Nat}
    (h : I n s) : ∃ as t, M.run s as = some t ∧ goal t := by
  induction n using Nat.strongRecOn generalizing s with
  | ind n ih =>
    rcases hstep n s h with hgoal | ⟨a, t, m, hn, hlt, hi⟩
    · exact ⟨[], s, rfl, hgoal⟩
    · obtain ⟨as, u, hr, hgoal⟩ := ih m hlt hi
      refine ⟨a :: as, u, ?_, hgoal⟩
      rw [run_cons, hn]
      exact hr

theorem Reach.run (h : Reach M ok s) {as : List ι} (hok : ∀ a ∈ as, ∀ s, ok s a)
    (hr : M.run s as = some t) : Reach M ok t := by
  induction as generalizing s with
  | nil =>
    rw [run_nil] at hr
    cases hr
    exact h
  | cons a as ih =>
    rw [run_cons] at hr
    cases hn : M.next s a with
    | none => rw [hn] at hr; cases hr
    | some u =>
      rw [hn] at hr
      exact ih (.step h (hok a List.mem_cons_self s) hn)
        (fun b hb => hok b (List.mem_cons_of_mem _ hb)) hr

/-- the labels of a list, taken one after another as long as `ok` allows them -/
def checked (M : Machine σ ι) (ok : σ → ι → Prop) [∀ s a, Decidable (ok s a)] :
    σ → List ι → Option σ
  | s, [] => some s
  | s, a :: as => if ok s a then (M.next s a).bind fun t => checked M ok t as else none

theorem Reach.of_checked [∀ s a, Decidable (ok s a)] (h : Reach M ok s) {as : List ι}
    (hr : M.checked ok s as = some t) : Reach M ok t := by
  induction as generalizing s with
  | nil =>
    rw [checked] at hr
    cases hr
    exact h
  | cons a as ih =>
    rw [checked] at hr
    split at hr
    next hok =>
      obtain ⟨u, hn, hr⟩ := Option.bind_eq_some_iff.mp hr
      exact ih (.step h hok hn) hr
    next => cases hr

/-- a concrete trace of allowed steps to a state with the property `p` -/
theorem Reach.exists_within (h : Reach M ok s) (as : List ι) (hok : ∀ a ∈ as, ∀ s, ok s a) {p : σ → Prop}
    (hp : ∃ t ∈ M.run s as, p t) : ∃ t, Reach M ok t ∧ p t := by
  obtain ⟨t, hr, hp⟩ := hp
  exact ⟨t, h.run hok hr, hp⟩

theorem Reach.exists_run (h : Reach M Anytime s) (as : List ι) {p : σ → Prop}
    (hp : ∃ t ∈ M.run s as, p t) : ∃ t, Reach M Anytime t ∧ p t :=
  h.exists_within as (fun _ _ _ => trivial) hp

/-- a concrete trace of steps that meet the condition, to a state with the property `p` -/
theorem Reach.exists_checked [∀ s a, Decidable (ok s a)] (h : Reach M ok s) (as : List ι)
    {p : σ → Prop} (hp : ∃ t ∈ M.checked ok s as, p t) : ∃ t, Reach M ok t ∧ p t := by
  obtain ⟨t, hr, hp⟩ := hp
  exact ⟨t, h.of_checked hr, hp⟩

/-- the same machine with a log: each step adds what `seen` makes of it -/
def logged {ω : Type} (M : Machine σ ι) (seen : σ → ι → List ω) : Machine (σ × List ω) ι where
  start := fun s => M.start s.1 ∧ s.2 = []
  next := fun s a => (M.next s.1 a).map fun t => (t, s.2 ++ seen s.1 a)

/-- the induction rule for the states and the log, in runs whose steps meet a condition -/
theorem Reach.inv_logged_of {ω : Type} {seen : σ → ι → List ω} {log : List ω}
    {I : σ → List ω → Prop} {ok : σ × List ω → ι → Prop} (h0 : ∀ s, M.start s → I s [])
    (hstep : ∀ s log a t, I s log → ok (s, log) a → M.next s a = some t → I t (log ++ seen s a))
    (h : Reach (M.logged seen) ok (s, log)) : I s log := by
  refine h.inv (I := fun s => I s.1 s.2) (fun s hs => ?_) fun s a t hi ha ht => ?_
  · rw [hs.2]
    exact h0 s.1 hs.1
  · obtain ⟨u, hu, rfl⟩ := Option.map_eq_some_iff.mp ht
    exact hstep _ _ _ _ hi ha hu

theorem Reach.inv_logged {ω : Type} {seen : σ → ι → List ω} {log : List ω}
    {I : σ → List ω → Prop} (h0 : ∀ s, M.start s → I s [])
    (hstep : ∀ s log a t, I s log → M.next s a = some t → I t (log ++ seen s a))
    (h : Reach (M.logged seen) Anytime (s, log)) : I s log :=
  h.inv_logged_of h0 fun s log a t hi _ ht => hstep s log a t hi ht

end Machine
end Rebar

import Mathlib.Data.List.Induction

/-!
# Logs

What holds of the entries of a log, in terms of the entries before and after them.

A log grows at its end, and each has a rule for that.
-/

namespace Rebar.Log
variable {α : Type} {log new : List α} {x : α}

theorem append_cases {before after : List α} (h : log ++ new = before ++ x :: after) :
    (∃ rest, log = before ++ x :: rest ∧ after = rest ++ new) ∨
      ∃ start, before = log ++ start ∧ new = start ++ x :: after := by
  rcases List.append_eq_append_iff.mp h with hright | ⟨rest, hlog, hnew⟩
  · exact Or.inr hright
  · cases rest with
    | nil =>
      rw [List.append_nil] at hlog
      exact Or.inr ⟨[], by rw [List.append_nil, hlog], hnew.symm⟩
    | cons y rest =>
      cases hnew
      exact Or.inl ⟨rest, hlog, rfl⟩

/-- every entry, and what comes before it -/
def Prior (Q : List α → α → Prop) (log : List α) : Prop :=
  ∀ before x after, log = before ++ x :: after → Q before x

theorem Prior.nil {Q : List α → α → Prop} : Prior Q [] := by
  intro before x after h
  cases before <;> cases h

theorem Prior.append {Q : List α → α → Prop} (h : Prior Q log)
    (hnew : ∀ start x after, new = start ++ x :: after → Q (log ++ start) x) :
    Prior Q (log ++ new) := by
  intro before x after heq
  rcases append_cases heq with ⟨rest, hlog, -⟩ | ⟨start, rfl, hstart⟩
  · exact h before x rest hlog
  · exact hnew start x after hstart

theorem Prior.snoc {Q : List α → α → Prop} (h : Prior Q log) (hx : Q log x) :
    Prior Q (log ++ [x]) := by
  refine h.append fun start y after heq => ?_
  cases start with
  | nil =>
    cases heq
    rw [List.append_nil]
    exact hx
  | cons z start =>
    obtain ⟨-, hnil⟩ := List.cons.inj heq
    cases start <;> cases hnil

/-- the entries with `p`, and what comes after them -/
def Since (p : α → Prop) (Q : List α → Prop) (log : List α) : Prop :=
  ∀ before x after, log = before ++ x :: after → p x → Q after

theorem Since.append_of {p : α → Prop} {Q Q' : List α → Prop} (h : Since p Q log)
    (hQ : ∀ l, Q l → Q' (l ++ new)) (hnew : Since p Q' new) : Since p Q' (log ++ new) := by
  intro before x after heq hx
  rcases append_cases heq with ⟨rest, hlog, rfl⟩ | ⟨start, -, hstart⟩
  · exact hQ rest (h before x rest hlog hx)
  · exact hnew start x after hstart hx

theorem Since.append {p : α → Prop} {Q Q' : List α → Prop} (h : Since p Q log)
    (hQ : ∀ l, Q l → Q' (l ++ new)) (hnew : ∀ x ∈ new, ¬ p x) : Since p Q' (log ++ new) := by
  refine h.append_of hQ ?_
  rintro before x after rfl hx
  exact absurd hx (hnew x (List.mem_append_right _ List.mem_cons_self))

theorem Since.trivial {p : α → Prop} : Since p (fun _ => True) log :=
  fun _ _ _ _ _ => True.intro

theorem Since.of_not {p : α → Prop} {Q : List α → Prop} (h : ∀ x ∈ log, ¬ p x) :
    Since p Q log := by
  rintro before x after rfl hx
  exact absurd hx (h x (List.mem_append_right _ List.mem_cons_self))

theorem Since.single {p : α → Prop} {Q : List α → Prop} (h : p x → Q []) : Since p Q [x] := by
  intro before y after heq hy
  obtain ⟨-, hsingle⟩ | ⟨-, hnil⟩ := List.append_eq_singleton_iff.mp heq.symm
  · cases hsingle
    exact h hy
  · cases hnil

/-- an entry with `p` that no later entry with `q` has ended -/
def Standing (p q : α → Prop) (log : List α) : Prop :=
  ∃ before x after, log = before ++ x :: after ∧ p x ∧ ∀ y ∈ after, ¬ q y

theorem Standing.snoc {p q : α → Prop} (hx : p x) : Standing p q (log ++ [x]) :=
  ⟨log, x, [], rfl, hx, nofun⟩

theorem Standing.append {p q : α → Prop} (h : Standing p q log) (hnew : ∀ x ∈ new, ¬ q x) :
    Standing p q (log ++ new) := by
  obtain ⟨before, x, after, rfl, hx, hafter⟩ := h
  refine ⟨before, x, after ++ new, ?_, hx, fun y hy => ?_⟩
  · rw [List.append_assoc, List.cons_append]
  · exact (List.mem_append.mp hy).elim (hafter y) (hnew y)

section
variable {β : Type} {ends : α → Bool} {sets : α → Option β} {value : Option β} {v : β}

def update (ends : α → Bool) (sets : α → Option β) (value : Option β) (x : α) : Option β :=
  if ends x then sets x else value

/-- the value after the entries of the log, each of which may end it and set another -/
def latest (ends : α → Bool) (sets : α → Option β) (value : Option β) (log : List α) : Option β :=
  log.foldl (update ends sets) value

theorem latest_append : latest ends sets value (log ++ new) =
    latest ends sets (latest ends sets value log) new := List.foldl_append

theorem latest_cons : latest ends sets value (x :: log) =
    latest ends sets (update ends sets value x) log := rfl

theorem latest_of_not (h : ∀ x ∈ log, ends x = false) : latest ends sets value log = value := by
  induction log with
  | nil => rfl
  | cons x log ih =>
    rw [latest_cons, update, h x List.mem_cons_self, if_neg Bool.false_ne_true]
    exact ih fun y hy => h y (List.mem_cons_of_mem _ hy)

theorem latest_eq_some_iff : latest ends sets none log = some v ↔
    Standing (fun x => ends x = true ∧ sets x = some v) (ends · = true) log := by
  constructor
  · intro h
    induction log using List.reverseRecOn with
    | nil => cases h
    | append_singleton log x ih =>
      rw [latest_append, latest_cons, update] at h
      split at h
      next hx => exact .snoc ⟨hx, h⟩
      next hx =>
        refine (ih h).append fun y hy => ?_
        rw [List.mem_singleton.mp hy]
        exact hx
  · rintro ⟨before, x, after, rfl, ⟨hx, hsets⟩, hafter⟩
    rw [latest_append, latest_cons, update, if_pos hx, hsets]
    exact latest_of_not fun y hy => Bool.eq_false_iff.mpr (hafter y hy)

end

end Rebar.Log

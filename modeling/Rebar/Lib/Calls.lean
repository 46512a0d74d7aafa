import Rebar.Lib.Machine

/-!
# Concurrent calls on a shared state

Calls that run at the same time, each of them a sequence of atomic operations on a shared state.  A
call in progress is a value of type `κ` that says which operation it does next.

* `Calls σ κ`          the shared state and the calls in progress;
* `exists_advance`, `countP_advanced`   calls with a property, before and after a step.
-/

namespace Rebar

structure Calls (σ κ : Type) where
  shared : σ
  calls : List κ

namespace Calls

inductive Label (κ : Type) where
  | invoke (call : κ)
  | advance (i : Nat)
deriving DecidableEq

variable {σ κ : Type} (opens : κ → Bool) (step : σ → κ → σ × Option κ)

/-- the calls after the one at position `i` did an operation; it is gone when it has returned -/
def advanced (calls : List κ) (i : Nat) (call : Option κ) : List κ :=
  calls.take i ++ call.toList ++ calls.drop (i + 1)

def next (s : Calls σ κ) : Label κ → Option (Calls σ κ)
  | .invoke call => if opens call then some { s with calls := s.calls ++ [call] } else none
  | .advance i => s.calls[i]?.map fun call =>
    ⟨(step s.shared call).1, advanced s.calls i (step s.shared call).2⟩

/-- the runs from states without calls -/
def machine (start : σ → Prop) : Machine (Calls σ κ) (Label κ) where
  start := fun s => start s.shared ∧ s.calls = []
  next := next opens step

variable {opens step} {s t : Calls σ κ} {a : Label κ}

/-- **What a step can be.** -/
theorem next_cases (h : next opens step s a = some t) :
    (∃ call, a = .invoke call ∧ opens call = true ∧ t = ⟨s.shared, s.calls ++ [call]⟩) ∨
    ∃ i call, a = .advance i ∧ s.calls[i]? = some call ∧
      t = ⟨(step s.shared call).1, advanced s.calls i (step s.shared call).2⟩ := by
  cases a with
  | invoke call =>
    rw [next] at h
    split at h
    next hopen =>
      cases h
      exact Or.inl ⟨call, rfl, hopen, rfl⟩
    next => cases h
  | advance i =>
    obtain ⟨call, hcall, heq⟩ := Option.map_eq_some_iff.mp h
    exact Or.inr ⟨i, call, rfl, hcall, heq.symm⟩

theorem mem_advanced {calls : List κ} {i : Nat} {new : Option κ} {c : κ}
    (h : c ∈ advanced calls i new) : c ∈ calls ∨ new = some c := by
  rcases List.mem_append.mp h with h | h
  · rcases List.mem_append.mp h with h | h
    · exact Or.inl (List.mem_of_mem_take h)
    · exact Or.inr (Option.mem_toList.mp h)
  · exact Or.inl (List.mem_of_mem_drop h)

theorem mem_advanced_new {calls : List κ} {i : Nat} {c : κ} :
    c ∈ advanced calls i (some c) :=
  List.mem_append_left _ (List.mem_append_right _ (List.mem_singleton_self c))

theorem split_at {calls : List κ} {i : Nat} {call : κ} (hi : calls[i]? = some call) :
    calls.take i ++ call :: calls.drop (i + 1) = calls := by
  obtain ⟨hlt, hget⟩ := List.getElem?_eq_some_iff.mp hi
  rw [← hget, ← List.drop_eq_getElem_cons hlt, List.take_append_drop]

theorem mem_advanced_of_mem {calls : List κ} {i : Nat} {call c : κ} (hi : calls[i]? = some call)
    (new : Option κ) (h : c ∈ calls) : c ∈ advanced calls i new ∨ c = call := by
  rw [← split_at hi] at h
  rcases List.mem_append.mp h with h | h
  · exact Or.inl (List.mem_append_left _ (List.mem_append_left _ h))
  · rcases List.mem_cons.mp h with h | h
    · exact Or.inr h
    · exact Or.inl (List.mem_append_right _ h)

theorem countP_advanced {calls : List κ} {i : Nat} {call : κ} (hi : calls[i]? = some call)
    (new : Option κ) (p : κ → Bool) :
    (advanced calls i new).countP p + [call].countP p = calls.countP p + new.toList.countP p := by
  have hcalls : calls.countP p
      = (calls.take i).countP p + ([call].countP p + (calls.drop (i + 1)).countP p) := by
    rw [← List.countP_append, ← List.countP_append]
    exact congrArg (List.countP p) (split_at hi).symm
  rw [hcalls, advanced, List.countP_append, List.countP_append]
  omega

variable {R : κ → Prop}

/-- a property of some call is kept when the call that did an operation keeps it -/
theorem exists_advance {calls : List κ} {i : Nat} {call : κ} (hi : calls[i]? = some call)
    {new : Option κ} (h : ∃ c ∈ calls, R c) (hkeep : R call → ∃ c, new = some c ∧ R c) :
    ∃ c ∈ advanced calls i new, R c := by
  obtain ⟨c, hc, hr⟩ := h
  rcases mem_advanced_of_mem hi new hc with hc | heq
  · exact ⟨c, hc, hr⟩
  · obtain ⟨c', hnew, hr'⟩ := hkeep (heq ▸ hr)
    rw [hnew]
    exact ⟨c', mem_advanced_new, hr'⟩

/-! ## a call alone at work -/

section Alone
variable {start : σ → Prop} {t t' : σ} {call : κ}

theorem next_alone (t : σ) (call : κ) :
    (machine opens step start).next ⟨t, [call]⟩ (.advance 0)
      = some ⟨(step t call).1, (step t call).2.toList⟩ := by
  show some (Calls.mk (step t call).1 (advanced [call] 0 (step t call).2)) = _
  rw [advanced, List.take_zero, List.nil_append, List.drop_succ_cons, List.drop_nil,
    List.append_nil]

/-- the call, alone at work, returns after some operations, all of them allowed -/
def Returns (opens : κ → Bool) (step : σ → κ → σ × Option κ) (start : σ → Prop)
    (ok : Calls σ κ → Label κ → Prop) (t : σ) (call : κ) (t' : σ) : Prop :=
  ∃ k, (machine opens step start).run ⟨t, [call]⟩ (.replicate k (.advance 0)) = some ⟨t', []⟩ ∧
    ((machine opens step start).Reach ok ⟨t, [call]⟩ →
      (machine opens step start).Reach ok ⟨t', []⟩)

variable {ok : Calls σ κ → Label κ → Prop}

theorem Returns.last (hok : ok ⟨t, [call]⟩ (.advance 0)) (hret : step t call = (t', none)) :
    Returns opens step start ok t call t' := by
  have hstep : (machine opens step start).next ⟨t, [call]⟩ (.advance 0) = some ⟨t', []⟩ := by
    rw [next_alone, hret]
    rfl
  refine ⟨1, ?_, fun h => h.step hok hstep⟩
  rw [List.replicate_one, Machine.run_cons, hstep]
  rfl

theorem Returns.next {u : σ} {c : κ} (hok : ok ⟨t, [call]⟩ (.advance 0))
    (hnext : step t call = (u, some c)) (h : Returns opens step start ok u c t') :
    Returns opens step start ok t call t' := by
  obtain ⟨k, hrun, hreach⟩ := h
  have hstep : (machine opens step start).next ⟨t, [call]⟩ (.advance 0) = some ⟨u, [c]⟩ := by
    rw [next_alone, hnext]
    rfl
  refine ⟨k + 1, ?_, fun h => hreach (h.step hok hstep)⟩
  rw [List.replicate_succ, Machine.run_cons, hstep]
  exact hrun

theorem Returns.run (h : Returns opens step start ok t call t') (hopen : opens call = true)
    {s : Calls σ κ} (hs : s = ⟨t, []⟩) (hreach : (machine opens step start).Reach ok s)
    (hok : ok s (.invoke call)) :
    (machine opens step start).Reach ok ⟨t', []⟩ ∧
      ∃ k, (machine opens step start).run s (.invoke call :: .replicate k (.advance 0))
        = some ⟨t', []⟩ := by
  obtain ⟨k, hrun, hafter⟩ := h
  have hinvoke : (machine opens step start).next s (.invoke call) = some ⟨t, [call]⟩ := by
    show (if opens call then some (Calls.mk s.shared (s.calls ++ [call])) else none) = _
    rw [if_pos hopen, hs]
    rfl
  refine ⟨hafter (hreach.step hok hinvoke), k, ?_⟩
  rw [Machine.run_cons, hinvoke]
  exact hrun

end Alone

end Calls
end Rebar

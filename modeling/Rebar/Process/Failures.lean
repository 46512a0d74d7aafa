import Rebar.Process.Registration

/-!
# Registrations that fail

A call carries along the operations it has done.  `reregister` takes a name away from a living process
before it looks again whether its own process is alive, and when it is not the name is removed: it does not
go back.
-/

namespace Rebar.Process
open Machine

structure Change where
  call : NameCall
  before : ProcessTable
  after : ProcessTable

/-- a call in progress and what it has done -/
structure Attempt where
  call : NameCall
  done : List Change

def Attempt.now (t : ProcessTable) (a : Attempt) : Change := ⟨a.call, t, (a.call.step t).1⟩

def Attempt.advance (t : ProcessTable) (a : Attempt) : ProcessTable × Option Attempt :=
  match a.call.step t with
  | (t', .next call) => (t', some ⟨call, a.done ++ [a.now t]⟩)
  | (t', .returned _) => (t', none)

def attemptMachine : Machine (Calls ProcessTable Attempt) (Calls.Label Attempt) :=
  Calls.machine (fun a => a.call.opens && a.done.isEmpty) Attempt.advance fun _ => True

/-- the registrations of the process are the same -/
def Untouched (p : ProcessId) (t t' : ProcessTable) : Prop :=
  (∀ name, t'.names.lookup name = some p ↔ t.names.lookup name = some p) ∧
    t'.namesByPid.lookup p = t.namesByPid.lookup p

def NameCall.takes : NameCall → Option (String × ProcessId)
  | .enter name pid true => some (name, pid)
  | _ => none

/-- a takeover finds no other living process under the name -/
def Change.Spares (c : Change) : Prop :=
  ∀ x ∈ c.call.takes, ∀ old ∈ c.before.names.lookup x.1, old ≠ x.2 → old ∉ c.before.processes

instance (c : Change) : Decidable c.Spares := inferInstanceAs (Decidable (∀ _ ∈ _, _))

/-! ## one operation -/

def NameCall.registers : NameCall → Option ProcessId
  | .check _ pid _ => some pid
  | .enter _ pid _ => some pid
  | .release _ pid _ => some pid
  | .push _ pid => some pid
  | .recheck _ pid => some pid
  | .undoName _ pid => some pid
  | .undoList _ pid => some pid
  | .undoEmpty pid => some pid
  | _ => none

/-- the call has not entered the name yet -/
def NameCall.looks : NameCall → Bool
  | .check _ _ _ => true
  | .enter _ _ _ => true
  | _ => false

/-- the process that lost the name is dead, and so is a process whose registration is undone -/
def NameCall.Found (processes : Finset ProcessId) : NameCall → Prop
  | .release _ _ old => old ∉ processes
  | .undoName _ pid => pid ∉ processes
  | .undoList _ pid => pid ∉ processes
  | .undoEmpty pid => pid ∉ processes
  | _ => True

variable {t : ProcessTable} {call : NameCall} {name : String} {p pid : ProcessId}

theorem found_of_opens {processes : Finset ProcessId} (h : call.opens = true) : call.Found processes := by
  cases call <;> trivial

theorem Untouched.refl (p : ProcessId) (t : ProcessTable) : Untouched p t t := ⟨fun _ => Iff.rfl, rfl⟩

theorem untouched_insert (hp : p ≠ pid) (hold : t.names.lookup name ≠ some p) :
    Untouched p t { t with names := t.names.insert name pid } := by
  refine ⟨fun n => ?_, rfl⟩
  show (t.names.insert name pid).lookup n = some p ↔ _
  rw [HashMap.lookup_insert_if]
  by_cases hn : n = name
  · subst hn
    simp [hold, hp.symm]
  · rw [if_neg hn]

theorem untouched_unlist (hp : p ≠ pid) : Untouched p t (t.unlist name pid) := by
  refine ⟨fun _ => Iff.rfl, ?_⟩
  rw [ProcessTable.unlist, HashMap.lookup_modify, if_neg hp]

theorem untouched_removeName (hp : p ≠ pid) : Untouched p t (t.removeName name pid) := by
  refine ⟨fun n => ?_, ?_⟩
  · rw [ProcessTable.lookup_removeName]
    split
    next h => simp [h.2, hp.symm]
    next => rfl
  · unfold ProcessTable.removeName
    split <;> rfl

/-- **One operation of a registration**: what it changes is its own process's or a dead one's. -/
theorem registers_step (hreg : call.registers = some pid) (hfound : call.Found t.processes)
    (hspares : (Change.mk call t (call.step t).1).Spares) :
    (∀ p ∈ t.processes, p ≠ pid → Untouched p t (call.step t).1) ∧
    (∀ next, (call.step t).2 = .next next → next.registers = some pid ∧ next.Found t.processes ∧
      (next.looks = true → call.looks = true ∧ (call.step t).1 = t)) ∧
    ∀ e, (call.step t).2 = .returned (.registered (.error e)) →
      call.looks = true ∧ (call.step t).1 = t ∨ pid ∉ t.processes := by
  have hsame : ∀ p ∈ t.processes, p ≠ pid → Untouched p t t := fun p _ _ => .refl p t
  have hquiet : ∀ {next : NameCall}, next.looks = false →
      (next.looks = true → call.looks = true ∧ (call.step t).1 = t) := fun hl hl' => by
    rw [hl] at hl'
    cases hl'
  revert hquiet hspares
  fun_cases NameCall.step t call <;> intro hspares hquiet <;> cases hreg
  · refine ⟨hsame, fun next hnext => ?_, by simp⟩
    cases hnext
    exact ⟨rfl, trivial, fun _ => ⟨rfl, rfl⟩⟩
  · exact ⟨hsame, by simp, fun _ _ => Or.inl ⟨rfl, rfl⟩⟩
  · exact ⟨hsame, by simp, by simp⟩
  · exact ⟨hsame, by simp, fun _ _ => Or.inl ⟨rfl, rfl⟩⟩
  next name force old hold hfree hne =>
    have hdead : old ∉ t.processes := by
      cases force with
      | false => exact fun hlive => hfree ⟨rfl, hlive⟩
      | true => exact hspares (name, pid) rfl old hold hne
    refine ⟨fun p hp hne => untouched_insert hne ?_, fun next hnext => ?_, by simp⟩
    · rw [hold]
      rintro ⟨⟩
      exact hdead hp
    · cases hnext
      exact ⟨rfl, hdead, hquiet rfl⟩
  next hnone =>
    refine ⟨fun p _ hne => untouched_insert hne (by simp [hnone]), fun next hnext => ?_, by simp⟩
    cases hnext
    exact ⟨rfl, trivial, hquiet rfl⟩
  · refine ⟨fun p hp _ => untouched_unlist fun heq => hfound (heq ▸ hp), fun next hnext => ?_, by simp⟩
    cases hnext
    exact ⟨rfl, trivial, hquiet rfl⟩
  · refine ⟨fun p _ hne => ⟨fun _ => Iff.rfl, ?_⟩, fun next hnext => ?_, by simp⟩
    · rw [HashMap.lookup_insert_if, if_neg hne]
    · cases hnext
      exact ⟨rfl, trivial, hquiet rfl⟩
  · exact ⟨hsame, by simp, by simp⟩
  next hdead =>
    refine ⟨hsame, fun next hnext => ?_, by simp⟩
    cases hnext
    exact ⟨rfl, hdead, hquiet rfl⟩
  · refine ⟨fun p _ hne => untouched_removeName hne, fun next hnext => ?_, by simp⟩
    cases hnext
    exact ⟨rfl, hfound, hquiet rfl⟩
  · refine ⟨fun p _ hne => untouched_unlist hne, fun next hnext => ?_, by simp⟩
    cases hnext
    exact ⟨rfl, hfound, hquiet rfl⟩
  · refine ⟨fun p _ hne => ⟨fun _ => ?_, ?_⟩, by simp, fun _ _ => Or.inr hfound⟩
    · split <;> rfl
    · split
      · exact HashMap.lookup_erase_if t.namesByPid pid p |>.trans (if_neg hne)
      · rfl

/-! ## every run -/

/-- what a registration has changed so far belongs to its own process or to the dead -/
structure Clean (processes : Finset ProcessId) (pid : ProcessId) (a : Attempt) : Prop where
  found : a.call.Found processes
  others : ∀ p ∈ processes, p ≠ pid → ∀ c ∈ a.done, Untouched p c.before c.after
  looks : a.call.looks = true → ∀ c ∈ a.done, c.after = c.before

variable {s : Calls ProcessTable Attempt} {a : Attempt} {i : Nat}

theorem Clean.mono {processes processes' : Finset ProcessId} (h : Clean processes pid a)
    (hsub : processes' ⊆ processes) : Clean processes' pid a := by
  refine ⟨?_, fun p hp => h.others p (hsub hp), h.looks⟩
  have hfound := h.found
  cases hcall : a.call <;> rw [hcall] at hfound <;>
    first | exact fun hp => hfound (hsub hp) | trivial

theorem Clean.step (h : Clean t.processes pid a) (hreg : a.call.registers = some pid)
    (hspares : (a.now t).Spares) {next : NameCall} (hnext : (a.call.step t).2 = .next next) :
    Clean t.processes pid ⟨next, a.done ++ [a.now t]⟩ := by
  obtain ⟨hothers, hkeeps, -⟩ := registers_step hreg h.found hspares
  obtain ⟨-, hfound, hlooks⟩ := hkeeps next hnext
  refine ⟨hfound, fun p hp hne c hc => ?_, fun hl c hc => ?_⟩
  · rcases List.mem_append.mp hc with hc | hc
    · exact h.others p hp hne c hc
    · cases List.mem_singleton.mp hc
      exact hothers p hp hne
  · obtain ⟨hlooked, hsame⟩ := hlooks hl
    rcases List.mem_append.mp hc with hc | hc
    · exact h.looks hlooked c hc
    · cases List.mem_singleton.mp hc
      exact hsame

theorem processes_step_subset (t : ProcessTable) (call : NameCall) :
    (call.step t).1.processes ⊆ t.processes := by
  rw [NameCall.processes_step]
  split
  · exact Finset.erase_subset _ _
  · exact Finset.Subset.refl _

theorem advance_fst (t : ProcessTable) (a : Attempt) : (a.advance t).1 = (a.call.step t).1 := by
  unfold Attempt.advance
  split <;> rename_i heq <;> rw [heq]

theorem advance_some {b : Attempt} (h : (a.advance t).2 = some b) :
    (a.call.step t).2 = .next b.call ∧ b.done = a.done ++ [a.now t] := by
  unfold Attempt.advance at h
  split at h <;> rename_i heq
  · cases h
    exact ⟨congrArg Prod.snd heq, rfl⟩
  · cases h

/-- no other call turns into a registration, or fails as one -/
theorem registers_none (hreg : call.registers = none) : (∀ next, (call.step t).2 = .next next →
    next.registers = none) ∧ ∀ e, (call.step t).2 ≠ .returned (.registered (.error e)) := by
  fun_cases NameCall.step t call <;> try cases hreg
  all_goals refine ⟨fun next hnext => ?_, by simp⟩
  all_goals cases hnext
  all_goals rfl

theorem clean_of_reach (h : attemptMachine.Reach Anytime s) :
    ∀ a ∈ s.calls, (∀ c ∈ a.done, c.Spares) → ∀ pid, a.call.registers = some pid →
      Clean s.shared.processes pid a := by
  refine h.inv (I := fun s => ∀ a ∈ s.calls, (∀ c ∈ a.done, c.Spares) → ∀ pid,
    a.call.registers = some pid → Clean s.shared.processes pid a) (fun s hs a ha => ?_) ?_
  · rw [hs.2] at ha
    cases ha
  · intro s label s' ih _ hn a ha hspares pid hreg
    rcases Calls.next_cases hn with ⟨new, -, hopen, rfl⟩ | ⟨i, b, -, hi, rfl⟩
    · rcases List.mem_append.mp ha with ha | ha
      · exact ih a ha hspares pid hreg
      · cases List.mem_singleton.mp ha
        have hnone := List.isEmpty_iff.mp (Bool.and_eq_true_iff.mp hopen).2
        exact ⟨found_of_opens (Bool.and_eq_true_iff.mp hopen).1, by simp [hnone], by simp [hnone]⟩
    · have hsub : (b.advance s.shared).1.processes ⊆ s.shared.processes := by
        rw [advance_fst]
        exact processes_step_subset s.shared b.call
      rcases Calls.mem_advanced ha with ha | ha
      · exact (ih a ha hspares pid hreg).mono hsub
      · refine Clean.mono ?_ hsub
        obtain ⟨hnext, hdone⟩ := advance_some ha
        rw [hdone] at hspares
        have hspares' := fun c hc => hspares c (List.mem_append_left _ hc)
        have hnow := hspares _ (List.mem_append_right _ (List.mem_singleton_self _))
        cases hb : b.call.registers with
        | none => cases ((registers_none hb).1 _ hnext).symm.trans hreg
        | some q =>
          have hclean := ih b (List.mem_of_getElem? hi) hspares' q hb
          obtain ⟨hq, -⟩ := (registers_step hb hclean.found hnow).2.1 _ hnext
          cases hq.symm.trans hreg
          have hstep := hclean.step hb hnow hnext
          rw [← hdone] at hstep
          exact hstep

/-- **A registration that fails has changed nothing of a living process**, however the calls interleave,
if it took no name away from one. -/
theorem failed_untouched (s : Calls ProcessTable Attempt) (h : attemptMachine.Reach Anytime s) (i : Nat)
    (a : Attempt) (hi : s.calls[i]? = some a) (e : RegistryError)
    (herr : (a.call.step s.shared).2 = .returned (.registered (.error e)))
    (hspares : ∀ c ∈ a.done ++ [a.now s.shared], c.Spares) (p : ProcessId)
    (hp : p ∈ (a.call.step s.shared).1.processes) :
    ∀ c ∈ a.done ++ [a.now s.shared], Untouched p c.before c.after := by
  have hlive := processes_step_subset s.shared a.call hp
  have hdone := fun c hc => hspares c (List.mem_append_left _ hc)
  have hnow := hspares _ (List.mem_append_right _ (List.mem_singleton_self _))
  obtain ⟨pid, hreg⟩ : ∃ pid, a.call.registers = some pid :=
    Option.ne_none_iff_exists'.mp fun hnone => (registers_none hnone).2 e herr
  have hclean := clean_of_reach h a (List.mem_of_getElem? hi) hdone pid hreg
  obtain ⟨hothers, -, hfails⟩ := registers_step hreg hclean.found hnow
  intro c hc
  rcases hfails e herr with ⟨hlooks, hsame⟩ | hdead
  · have heq : c.after = c.before := by
      rcases List.mem_append.mp hc with hc | hc
      · exact hclean.looks hlooks c hc
      · cases List.mem_singleton.mp hc
        exact hsame
    rw [heq]
    exact .refl p c.before
  · have hne : p ≠ pid := fun heq => hdead (heq ▸ hlive)
    rcases List.mem_append.mp hc with hc | hc
    · exact hclean.others p hlive hne c hc
    · cases List.mem_singleton.mp hc
      exact hothers p hlive hne

deriving instance DecidableEq for Returned, Progress

private def begun (call : NameCall) (k : Nat) : List (Calls.Label Attempt) :=
  .invoke ⟨call, []⟩ :: .replicate k (.advance 0)

/-- the name is given to 1.2, who dies before the call looks again -/
private def overtakes (k : Nat) : List (Calls.Label Attempt) :=
  begun (reregister "svc" ⟨1, 2⟩) k ++ (.invoke ⟨cleanupProcess ⟨1, 2⟩, []⟩ :: .replicate 4 (.advance 1))
    ++ .replicate 3 (.advance 0)

private theorem couple_start : attemptMachine.Reach Anytime ⟨.couple, []⟩ := .start ⟨trivial, rfl⟩

/-- 1.1 has given the name up before -/
theorem failed_untouched_vacant : ∃ s, attemptMachine.Reach Anytime s ∧ ∃ a ∈ s.calls[0]?,
    (a.call.step s.shared).2 = .returned (.registered (.error (.processNotAlive ⟨1, 2⟩))) ∧
    ⟨1, 1⟩ ∈ (a.call.step s.shared).1.processes ∧
    ∀ c ∈ a.done ++ [a.now s.shared], Untouched ⟨1, 1⟩ c.before c.after := by
  obtain ⟨s, hs, a, ha, herr, hlive, hspares⟩ := couple_start.exists_run
    (begun (register "svc" ⟨1, 1⟩) 4 ++ begun (unregister "svc") 2 ++ overtakes 3)
    (p := fun s => ∃ a ∈ s.calls[0]?,
      (a.call.step s.shared).2 = .returned (.registered (.error (.processNotAlive ⟨1, 2⟩))) ∧
      ⟨1, 1⟩ ∈ (a.call.step s.shared).1.processes ∧ ∀ c ∈ a.done ++ [a.now s.shared], c.Spares) (by decide)
  exact ⟨s, hs, a, ha, herr, hlive, failed_untouched s hs 0 a ha _ herr hspares _ hlive⟩

/-- 1.2 takes the name of 1.1 over and dies; the takeover fails, the name is gone, and 1.1 lives -/
theorem failed_takeover_loses_name : ∃ s, attemptMachine.Reach Anytime s ∧ ∃ a ∈ s.calls[0]?,
    (a.call.step s.shared).2 = .returned (.registered (.error (.processNotAlive ⟨1, 2⟩))) ∧
    ⟨1, 1⟩ ∈ (a.call.step s.shared).1.processes ∧ (a.call.step s.shared).1.whereis "svc" = none ∧
    ∃ c ∈ a.done, c.before.whereis "svc" = some ⟨1, 1⟩ ∧ c.after.whereis "svc" = some ⟨1, 2⟩ :=
  couple_start.exists_run (begun (register "svc" ⟨1, 1⟩) 4 ++ overtakes 4) (by decide)

end Rebar.Process

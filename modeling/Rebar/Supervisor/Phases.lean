import Rebar.Supervisor.Engine

/-!
# The life of an incarnation

The process of a child goes through its phases in one direction.

* `Phase.rank`        the place of a phase in a life;
* `Task.step_advanced`, `Task.aborted_advanced`   a step and an abort lead forward.
-/

namespace Rebar.Supervisor

open Process

variable {F : Type}

def Phase.rank : Phase → Nat
  | .naming _ => 0
  | .calling => 1
  | .running _ => 2
  | .done _ => 3
  | .reporting _ => 4
  | .leaving _ => 5
  | .gone => 6

def Phase.ended (phase : Phase) : Bool := 3 ≤ phase.rank

variable {phase : Phase} {report : Option ExitReason} {table' : ProcessTable}

theorem Phase.ended_iff : phase.ended = true ↔ 3 ≤ phase.rank := decide_eq_true_iff

theorem Phase.stopped_iff : phase.stopped = true ↔ 4 ≤ phase.rank := by
  cases phase <;> simp [Phase.stopped, Phase.rank]

theorem Phase.handed_iff : phase.handed = true ↔ 2 ≤ phase.rank := by
  cases phase <;> simp [Phase.handed, Phase.rank]

theorem Phase.ended_of_stopped (h : phase.stopped = true) : phase.ended = true :=
  Phase.ended_iff.mpr (Nat.le_of_succ_le (Phase.stopped_iff.mp h))

/-- the child an incarnation belongs to stays, and its life goes on -/
structure Task.Advanced (task next : Task F) : Prop where
  supervisor : next.supervisor = task.supervisor
  index : next.index = task.index
  entry : next.entry = task.entry
  rank : task.phase.rank ≤ next.phase.rank

variable {task next : Task F} {pid : ProcessId} {table : ProcessTable}

theorem Task.Advanced.refl (task : Task F) : task.Advanced task := ⟨rfl, rfl, rfl, Nat.le_refl _⟩

theorem Task.Advanced.ended (h : task.Advanced next) (he : task.phase.ended = true) :
    next.phase.ended = true :=
  Phase.ended_iff.mpr (Nat.le_trans (Phase.ended_iff.mp he) h.rank)

theorem Phase.rank_named (progress : Progress) : (Phase.named progress).rank ≤ 1 := by
  cases progress <;> simp [Phase.named, Phase.rank]

theorem Phase.rank_left (progress : Progress) : 5 ≤ (Phase.left progress).rank := by
  cases progress <;> simp [Phase.left, Phase.rank]

/-- **A step of a process leads its life forward**, and an exit is reported as the drop guard takes
over. -/
theorem Task.step_advanced {choice : Choice}
    (h : task.step pid table choice = some (table', next, report)) :
    task.Advanced next ∧ ∀ reason, report = some reason →
      task.phase = .reporting reason ∧ next.phase = .leaving (cleanupProcess pid) := by
  unfold Task.step at h
  split at h <;> cases h
  case h_1 call hphase =>
    exact ⟨⟨rfl, rfl, rfl, by rw [hphase]; exact Nat.zero_le _⟩, nofun⟩
  case h_8 reason hphase =>
    refine ⟨⟨rfl, rfl, rfl, by simp [hphase, Phase.rank]⟩, fun r hr => ?_⟩
    cases hr
    exact ⟨hphase, rfl⟩
  case h_9 call hphase =>
    exact ⟨⟨rfl, rfl, rfl, by rw [hphase]; exact Phase.rank_left _⟩, nofun⟩
  all_goals
    rename_i hphase
    exact ⟨⟨rfl, rfl, rfl, by simp [hphase, Phase.rank]⟩, nofun⟩

theorem Task.step_nextId {choice : Choice}
    (h : task.step pid table choice = some (table', next, report)) :
    table'.nextId = table.nextId := by
  unfold Task.step at h
  split at h <;> cases h
  case h_1 call hphase => exact (Process.step_bounded table call).nextId
  case h_9 call hphase => exact (Process.step_bounded table call).nextId
  all_goals rfl

theorem Task.aborted_advanced (task : Task F) :
    task.Advanced task.aborted ∧ task.aborted.phase.rank = task.phase.rank := by
  unfold Task.aborted
  split
  next hphase => exact ⟨⟨rfl, rfl, rfl, by rw [hphase]; exact Nat.le_refl _⟩, by rw [hphase]; rfl⟩
  next => exact ⟨.refl task, rfl⟩

theorem Task.rank_spawned (k index : Nat) (entry : ChildEntry F) (pid : ProcessId) :
    (Task.spawned k index entry pid).phase.rank ≤ 1 := by
  unfold Task.spawned
  dsimp only
  split
  · exact Nat.zero_le 1
  · exact Nat.le_refl 1

/-! ## the tasks together -/

section
variable {tasks : HashMap ProcessId (Task F)}

structure Evolved (tasks tasks' : HashMap ProcessId (Task F)) : Prop where
  forth : ∀ {p t}, tasks.lookup p = some t → ∃ t', tasks'.lookup p = some t' ∧ t.Advanced t'
  back : ∀ {p t'}, tasks'.lookup p = some t' → ∃ t, tasks.lookup p = some t ∧ t.Advanced t'

theorem Evolved.refl (tasks : HashMap ProcessId (Task F)) : Evolved tasks tasks :=
  ⟨fun ht => ⟨_, ht, .refl _⟩, fun ht => ⟨_, ht, .refl _⟩⟩

theorem lookup_aborted {target : Option ProcessId} {task : Task F}
    (h : (target.elim tasks fun pid => HashMap.modify tasks pid Task.aborted).lookup pid
      = some task) :
    ∃ t₀, tasks.lookup pid = some t₀ ∧ (task = t₀ ∨ (target = some pid ∧ task = t₀.aborted)) := by
  cases target with
  | none => exact ⟨task, h, Or.inl rfl⟩
  | some target =>
    rw [Option.elim_some, HashMap.lookup_modify] at h
    split at h
    next heq =>
      obtain ⟨t₀, ht₀, rfl⟩ := Option.map_eq_some_iff.mp h
      exact ⟨t₀, ht₀, Or.inr ⟨congrArg some heq.symm, rfl⟩⟩
    next => exact ⟨task, h, Or.inl rfl⟩

theorem Evolved.abort (tasks : HashMap ProcessId (Task F)) (target : Option ProcessId) :
    Evolved tasks (target.elim tasks fun pid => HashMap.modify tasks pid Task.aborted) := by
  refine ⟨fun {p t} ht => ?_, fun {p t} ht => ?_⟩
  · cases target with
    | none => exact ⟨t, ht, .refl t⟩
    | some target =>
      rw [Option.elim_some, HashMap.lookup_modify, ht]
      split
      · exact ⟨_, rfl, t.aborted_advanced.1⟩
      · exact ⟨_, rfl, .refl t⟩
  · obtain ⟨t₀, ht₀, rfl | ⟨-, rfl⟩⟩ := lookup_aborted ht
    · exact ⟨t, ht₀, .refl t⟩
    · exact ⟨t₀, ht₀, t₀.aborted_advanced.1⟩

theorem Evolved.insert {tasks : HashMap ProcessId (Task F)} {task next : Task F}
    (htask : tasks.lookup pid = some task) (hadv : task.Advanced next) :
    Evolved tasks (tasks.insert pid next) := by
  refine ⟨fun {p t} ht => ?_, fun {p t} ht => ?_⟩
  · rw [HashMap.lookup_insert_if]
    split
    next hp =>
      rw [hp, htask] at ht
      cases ht
      exact ⟨_, rfl, hadv⟩
    next => exact ⟨t, ht, .refl t⟩
  · rcases HashMap.of_lookup_insert ht with ⟨hp, rfl⟩ | ⟨-, ht⟩
    · exact ⟨task, hp ▸ htask, hadv⟩
    · exact ⟨t, ht, .refl t⟩

end

end Rebar.Supervisor

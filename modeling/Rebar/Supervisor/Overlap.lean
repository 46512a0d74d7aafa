import Rebar.Supervisor.Staff

/-!
# Incarnations of a child do not overlap

* `Reaped`            the condition: a child whose time to stop is over is not given up while its
                      inner task runs, if the supervisor is to start it again;
* `Single`            the invariant: an incarnation that has not ended is the only one of its child,
                      and its supervisor holds it or is ending.
-/

namespace Rebar.Supervisor

open Process

variable {F : Type} {node next : Node F} {sup : SupervisorLoop F} {now : Nanos}

/-! ## the condition -/

/-- the loop is about to give up a child that still runs and that it is to start again -/
def SupervisorLoop.abandons (sup : SupervisorLoop F) (tasks : HashMap ProcessId (Task F))
    (now : Nanos) : Bool :=
  match sup.wait with
  | some (.grace index pid _ deadline) =>
    decide (deadline ≤ now) && decide (.start index ∈ sup.todo) &&
      (tasks.lookup pid).any fun task => !task.phase.ended
  | _ => false

def Reaped (node : Node F) : Event F → Prop
  | .work k now => (node.sups[k]?.any fun sup => sup.abandons node.tasks now) = false
  | _ => True

instance (node : Node F) : DecidablePred (Reaped node)
  | .work k now =>
    inferInstanceAs (Decidable ((node.sups[k]?.any fun sup => sup.abandons node.tasks now) = false))
  | .start _ _ | .request _ _ | .task _ _ => inferInstanceAs (Decidable True)

variable {k : Nat} {pid fresh : ProcessId} {task : Task F} {table : ProcessTable}
  {tasks : HashMap ProcessId (Task F)} {r : SupervisorLoop F × Effect F}

theorem Reaped.ended (h : Reaped node (.work k now)) (hsup : node.sups[k]? = some sup) {index : Nat}
    {abort : Option ProcessId} {deadline : Nanos}
    (hwait : sup.wait = some (.grace index pid abort deadline)) (hlate : deadline ≤ now)
    (hstart : .start index ∈ sup.todo) (htask : node.tasks.lookup pid = some task) :
    task.phase.ended = true := by
  replace h : (node.sups[k]?.any fun sup => sup.abandons node.tasks now) = false := h
  rw [hsup, Option.any_some, SupervisorLoop.abandons, hwait] at h
  simpa [hlate, hstart, htask] using h

/-! ## the invariant -/

/-- the supervisor accounts for the process of a child: it holds it, or is ending -/
def SupervisorLoop.Accounts (sup : SupervisorLoop F) (i : Nat) (pid : ProcessId) : Prop :=
  sup.Holds i pid ∨ sup.ending.isSome = true

structure Single (node : Node F) : Prop where
  covered : ∀ {pid task}, node.tasks.lookup pid = some task → task.phase.ended = false →
    ∃ sup, node.sups[task.supervisor]? = some sup ∧ sup.Accounts task.index pid
  alone : ∀ {p q t u}, node.tasks.lookup p = some t → node.tasks.lookup q = some u →
    u.Of t.supervisor t.index → t.phase.ended = false → u.phase.ended = false → p = q

theorem Single.new (nodeId : Nat) : Single (Node.new nodeId : Node F) := ⟨nofun, nofun⟩

theorem Task.Advanced.not_ended {next : Task F} (h : task.Advanced next)
    (he : next.phase.ended = false) : task.phase.ended = false := by
  refine Bool.eq_false_iff.mpr fun h' => ?_
  rw [h.ended h'] at he
  cases he

theorem Single.evolve (h : Single node) (he : Evolved node.tasks tasks) :
    Single { node with table := table, tasks := tasks } := by
  refine ⟨fun ht hrun => ?_, fun ht hu hof hrunt hrunu => ?_⟩
  · obtain ⟨t₀, ht₀, hadv⟩ := he.back ht
    rw [hadv.supervisor, hadv.index]
    exact h.covered ht₀ (hadv.not_ended hrun)
  · obtain ⟨t₀, ht₀, hadvt⟩ := he.back ht
    obtain ⟨u₀, hu₀, hadvu⟩ := he.back hu
    refine h.alone ht₀ hu₀ ⟨?_, ?_⟩ (hadvt.not_ended hrunt) (hadvu.not_ended hrunu)
    · rw [← hadvu.supervisor, ← hadvt.supervisor]
      exact hof.1
    · rw [← hadvu.index, ← hadvt.index]
      exact hof.2

theorem Single.setSup (h : Single node) (hsup : node.sups[k]? = some sup) (sup' : SupervisorLoop F)
    (hkeep : ∀ {pid task}, node.tasks.lookup pid = some task → task.supervisor = k →
      task.phase.ended = false → sup.Accounts task.index pid → sup'.Accounts task.index pid) :
    Single { node with sups := node.sups.set k sup' } := by
  exact ⟨fun ht hrun => exists_sups_set hsup (h.covered ht hrun) fun hk => hkeep ht hk hrun, h.alone⟩

theorem Single.send (h : Single node) (k : Nat) (msg : SupervisorMsg F) :
    Single (node.send k msg) := by
  refine Node.send_of h fun {sup} hsup => h.setSup hsup _ fun _ _ _ hacc => ?_
  unfold SupervisorLoop.Accounts
  rw [SupervisorLoop.holds_send, (sup.send_same msg).2.2.2.1]
  exact hacc

theorem Single.startSupervisor (h : Single node) (spec : SupervisorSpec)
    (entries : List (ChildEntry F)) : Single (node.startSupervisor spec entries) := by
  refine ⟨fun {pid task} ht hrun => ?_, h.alone⟩
  obtain ⟨s, hs, hacc⟩ := h.covered ht hrun
  exact ⟨s, startSupervisor_old hs, hacc⟩

/-! ## the steps of a loop -/

theorem Worked.ending (hr : Worked sup fresh tasks now r) (he : sup.ending.isSome = true) :
    r.1.ending.isSome = true := by
  cases hr with
  | received _ _ hending =>
    rw [hending] at he
    cases he
  | spawned | started | killing | waiting | reset | stopped | overrun | leaving => exact he

theorem Single.accounts (hst : Staffed node) (hsup : node.sups[k]? = some sup)
    (hok : Reaped node (.work k now)) (hr : Worked sup (Node.spawned node.table).2 node.tasks now r)
    (htask : node.tasks.lookup pid = some task) (hrun : task.phase.ended = false)
    (hacc : sup.Accounts task.index pid) : r.1.Accounts task.index pid := by
  obtain ⟨stops, starts, ho⟩ := hst.orderly hsup
  have hnot : ∀ {t}, node.tasks.lookup pid = some t → t.phase.ended ≠ true := by
    intro t ht he
    cases htask.symm.trans ht
    rw [hrun] at he
    cases he
  rcases hacc with hholds | hending
  · rcases hholds.work ho hr with hholds | ⟨-, hdrop⟩
    · exact Or.inl hholds
    · cases hdrop with
      | stopped ht hstopped => exact absurd (Phase.ended_of_stopped hstopped) (hnot ht)
      | exited hinbox =>
        obtain ⟨t, ht, -, hrank⟩ := hst.exits hsup (hinbox ▸ List.mem_cons_self)
        exact absurd (Phase.ended_iff.mpr (by omega)) (hnot ht)
      | overrun hwait ht _ hlate =>
        -- the child is not started again, since its task runs; so the loop is ending
        rcases ho.purpose _ (Or.inr ⟨_, _, hwait, rfl⟩) with hstart | hending
        · exact absurd (hok.ended hsup hwait hlate (ho.plan.start_mem.mpr hstart) ht) (hnot ht)
        · exact Or.inr (hr.ending hending)
  · exact Or.inr (hr.ending hending)

theorem Single.vacant (h : Single node) (hst : Staffed node) {index : Nat}
    (hsup : node.sups[k]? = some sup) (hwait : sup.wait = none) {todo : List Action}
    (htodo : sup.todo = .start index :: todo) (htask : node.tasks.lookup pid = some task)
    (hof : task.Of k index) : task.phase.ended = true := by
  refine Bool.eq_true_of_not_eq_false fun hrun => ?_
  obtain ⟨stops, starts, ho⟩ := hst.orderly hsup
  obtain ⟨rfl, rest, rfl, -⟩ := (htodo ▸ ho.plan).of_start
  obtain ⟨s, hs, hacc⟩ := h.covered htask hrun
  rw [hof.1, hsup] at hs
  cases hs
  rw [hof.2] at hacc
  rcases hacc with (hcur | hw) | hending
  · have hrec := SupervisorState.recorded_iff.mpr ⟨pid, hcur⟩
    rcases ho.owed index List.mem_cons_self hrec with hmem | hstop
    · cases hmem
    · exact SupervisorLoop.not_stopping hwait index hstop
  · cases hwait.symm.trans hw
  · cases (ho.ending hending).1

theorem Single.hire (h : Single node) (hsup : node.sups[task.supervisor]? = some sup)
    (hholds : sup.Holds task.index fresh)
    (hvacant : ∀ {p t}, node.tasks.lookup p = some t → t.Of task.supervisor task.index →
      t.phase.ended = true) :
    Single { node with table := table, tasks := node.tasks.insert fresh task } := by
  have hcases : ∀ {p t}, (node.tasks.insert fresh task).lookup p = some t →
      (p = fresh ∧ t = task) ∨ node.tasks.lookup p = some t := by
    intro p t ht
    rcases HashMap.of_lookup_insert ht with ⟨heq, rfl⟩ | ⟨-, ht⟩
    · exact Or.inl ⟨heq, rfl⟩
    · exact Or.inr ht
  refine ⟨fun ht hrun => ?_, fun ht hu hof hrunt hrunu => ?_⟩
  · rcases hcases ht with ⟨rfl, rfl⟩ | ht
    · exact ⟨sup, hsup, Or.inl hholds⟩
    · exact h.covered ht hrun
  · rcases hcases ht with ⟨rfl, rfl⟩ | ht'
    · rcases hcases hu with ⟨rfl, -⟩ | hu'
      · rfl
      · rw [hvacant hu' hof] at hrunu
        cases hrunu
    · rcases hcases hu with ⟨rfl, rfl⟩ | hu'
      · rw [hvacant ht' ⟨hof.1.symm, hof.2.symm⟩] at hrunt
        cases hrunt
      · exact h.alone ht' hu' hof hrunt hrunu

theorem Single.work (h : Single node) (hst : Staffed node) (hsup : node.sups[k]? = some sup)
    (hok : Reaped node (.work k now)) (hr : Worked sup (Node.spawned node.table).2 node.tasks now r) :
    Single (node.apply k r.1 r.2) := by
  have h' : Single { node with sups := node.sups.set k r.1 } :=
    h.setSup hsup r.1 fun ht _ hrun hacc => Single.accounts hst hsup hok hr ht hrun hacc
  obtain ⟨sup', effect⟩ := r
  cases effect with
  | nothing => exact h'
  | abort target => exact h'.evolve (.abort node.tasks target)
  | spawn index entry =>
    cases hr with
    | spawned hwait htodo hchild =>
      have hlt := (List.getElem?_eq_some_iff.mp hsup).1
      exact h'.hire (List.getElem?_set_self hlt) (Or.inr rfl) fun ht hof =>
        h.vacant hst hsup hwait htodo ht hof

theorem Single.stepped (h : Single node) (hst : Staffed node) {event : Event F}
    (hok : Reaped node event) (hs : Stepped node event next) : Single next := by
  cases hs with
  | start spec entries => exact h.startSupervisor spec entries
  | request request => exact h.send _ _
  | work hsup hlife hr => exact h.work hst hsup hok hr
  | @leave k now sup call hsup =>
    let sup' := { sup with life := .left (call.step node.table).2 }
    exact (h.setSup hsup sup' fun _ _ _ hacc => hacc).evolve (.refl _)
  | task htask hstep => exact h.evolve (.insert htask (Task.step_advanced hstep).1)
  | report htask hstep => exact (h.evolve (.insert htask (Task.step_advanced hstep).1)).send _ _

theorem single_of_reach (h : (machine F).Reach Reaped node) : Single node :=
  inv_staffed h .new fun hn hst hok hs => hn.stepped hst hok hs

/-- **No two incarnations of a child have not ended**: a replacement is spawned only when the inner
task of the previous incarnation runs no more. -/
theorem one_incarnation (h : (machine F).Reach Reaped node) {p q : ProcessId} {t u : Task F}
    (ht : node.tasks.lookup p = some t) (hu : node.tasks.lookup q = some u)
    (hsupervisor : t.supervisor = u.supervisor) (hindex : t.index = u.index)
    (hrunt : t.phase.ended = false) (hrunu : u.phase.ended = false) : p = q :=
  (single_of_reach h).alone ht hu ⟨hsupervisor.symm, hindex.symm⟩ hrunt hrunu

/-! ## a group restart, with and without an overrun -/

/-- the first child crashes, the loop handles the exit and starts to stop the second child -/
private def restarting : List (Event Unit) :=
  List.flatten [[.supervises .oneForAll ["first", "second"]], Event.hires ⟨1, 2⟩,
    Event.hires ⟨1, 3⟩, Event.exits ⟨1, 2⟩ .panics, [.work 0 0, .work 0 0]]

/-- the process is an incarnation of the second child, and its inner task runs -/
private def executes (node : Node Unit) (pid : ProcessId) : Bool :=
  (node.tasks.lookup pid).any fun task =>
    decide (task.Of 0 1) && (task.phase.handed && !task.phase.ended)

private theorem exists_of_executes {node : Node Unit} (h : executes node pid = true) :
    ∃ task, node.tasks.lookup pid = some task ∧ task.Of 0 1 ∧
      task.phase.handed = true ∧ task.phase.ended = false := by
  obtain ⟨task, htask, h⟩ := (Option.any_eq_true _ _).mp h
  obtain ⟨hof, h⟩ := Bool.and_eq_true_iff.mp h
  obtain ⟨hhanded, hended⟩ := Bool.and_eq_true_iff.mp h
  exact ⟨task, htask, of_decide_eq_true hof, hhanded, by simpa using hended⟩

/-- the second child ends in time and is replaced -/
theorem one_incarnation_restarted : ∃ node : Node Unit, (machine Unit).Reach Reaped node ∧
    (∃ u, node.tasks.lookup ⟨1, 5⟩ = some u ∧ u.Of 0 1 ∧ u.phase.ended = false) ∧
    (∃ t, node.tasks.lookup ⟨1, 3⟩ = some t ∧ t.Of 0 1) ∧
    ∀ p t, node.tasks.lookup p = some t → t.Of 0 1 → t.phase.ended = false → p = ⟨1, 5⟩ := by
  have hstart : (machine Unit).Reach Reaped (Node.new 1) := .start ⟨1, rfl⟩
  obtain ⟨node, h, hnew, hold⟩ := hstart.exists_checked
    (List.flatten [restarting, Event.exits ⟨1, 3⟩ (.returns .normal), [.work 0 0],
      Event.hires ⟨1, 4⟩, Event.hires ⟨1, 5⟩])
    (p := fun node => executes node ⟨1, 5⟩ = true ∧ ∃ t, node.tasks.lookup ⟨1, 3⟩ = some t ∧ t.Of 0 1)
    (by decide)
  obtain ⟨u, hu, hofu, -, hrun⟩ := exists_of_executes hnew
  refine ⟨node, h, ⟨u, hu, hofu, hrun⟩, hold, fun p t' ht' hof hrun' => ?_⟩
  exact one_incarnation h ht' hu (hof.1.trans hofu.1.symm) (hof.2.trans hofu.2.symm) hrun' hrun

/-- **A child that overruns its time to stop overlaps with its replacement**: it is aborted, and
started again while the aborted task has not yielded. -/
theorem incarnations_overlap : ∃ node : Node Unit, (machine Unit).Reach Machine.Anytime node ∧
    (∃ t, node.tasks.lookup ⟨1, 3⟩ = some t ∧ t.Of 0 1 ∧ t.phase.handed = true ∧
      t.phase.ended = false) ∧
    ∃ u, node.tasks.lookup ⟨1, 5⟩ = some u ∧ u.Of 0 1 ∧ u.phase.handed = true ∧
      u.phase.ended = false := by
  have hstart : (machine Unit).Reach Machine.Anytime (Node.new 1) := .start ⟨1, rfl⟩
  obtain ⟨node, h, hold, hnew⟩ := hstart.exists_run
    (List.flatten [restarting, [.work 0 (seconds 5)], Event.hires ⟨1, 4⟩, Event.hires ⟨1, 5⟩])
    (p := fun node => executes node ⟨1, 3⟩ = true ∧ executes node ⟨1, 5⟩ = true) (by decide)
  exact ⟨node, h, exists_of_executes hold, exists_of_executes hnew⟩

end Rebar.Supervisor

import Rebar.Supervisor.Roster

/-!
# The children of a dynamic supervisor that has ended

A shutdown stops every child.  A supervisor that gives up stops none.

* `Kept`          the invariant: a loop that ends has stopped its children, or is about to.
-/

namespace Rebar.Supervisor

open Process

variable {F : Type}

/-! ## the condition -/

namespace DynNode

/-- the loop is about to handle an exit whose restart the limiter refuses -/
def refuses (node : DynNode F) (now : Nanos) : Bool :=
  match node.loop.wait, node.loop.todo, node.loop.ending, node.loop.inbox with
  | none, [], false, .childExited pid reason :: _ =>
    (node.loop.state.handleChildExit pid reason now).2.givesUp
  | _, _, _, _ => false

def quiet (node : DynNode F) : Bool :=
  node.loop.state.children.entries.all fun e =>
    !e.2.active || (node.tasks.lookup e.2.pid).all (·.phase.ended)

end DynNode

def NoneLeft (node : DynNode F) : DynEvent F → Prop
  | .work now _ => node.refuses now = true → node.quiet = true
  | _ => True

instance (node : DynNode F) : DecidablePred (NoneLeft node)
  | .work now _ => inferInstanceAs (Decidable (node.refuses now = true → node.quiet = true))
  | .request _ | .task _ _ => inferInstanceAs (Decidable True)

/-! ## the invariant -/

variable {node next : DynNode F} {loop : DynLoop F} {key : Key} {now : Nanos} {order : Order Key}

structure Kept (node : DynNode F) : Prop extends Filed node where
  /-- a loop that ends has stopped every child, or is about to -/
  closing : node.loop.ending = true → ∀ {k c}, node.loop.state.children.lookup k = some c →
    c.active = true → k ∈ node.loop.todo ∨ EndedIn node.tasks c.pid
  /-- a loop that ends starts no child -/
  starting : ∀ {k e p a}, node.loop.wait = some (.abortHandle k e p a) → node.loop.ending = false
  final : node.loop.life ≠ .looping → ∀ p, EndedIn node.tasks p

theorem Kept.new (nodeId : Nat) (spec : DynamicSupervisorSpec) :
    Kept (DynNode.new nodeId spec : DynNode F) :=
  ⟨.new nodeId spec, nofun, nofun, fun h => absurd rfl h⟩

variable {table : ProcessTable} {tasks : HashMap ProcessId (Task F)} {msg : DynSupervisorMsg F}
  {state : DynSupervisorState F} {child : DynChildState F} {msgs : List (DynSupervisorMsg F)}

theorem Kept.evolve (h : Kept node) {inbox : List (DynSupervisorMsg F)}
    (hf : Filed ⟨table, { node.loop with inbox := inbox }, tasks⟩) (he : Evolved node.tasks tasks) :
    Kept ⟨table, { node.loop with inbox := inbox }, tasks⟩ :=
  ⟨hf, fun hend _ _ hc ha => (h.closing hend hc ha).imp_right fun hp => hp.evolve he, h.starting,
    fun hl p => (h.final hl p).evolve he⟩

theorem Kept.send (h : Kept node) (hf : Filed ⟨table, node.loop.send msg, tasks⟩)
    (he : Evolved node.tasks tasks) : Kept ⟨table, node.loop.send msg, tasks⟩ := by
  rcases node.loop.send_cases msg with heq | ⟨-, heq⟩
  · rw [heq] at hf ⊢
    exact h.evolve hf he
  · rw [heq] at hf ⊢
    exact h.evolve hf he

theorem DynSupervisorState.mem_activeKeys (hc : state.children.lookup key = some child)
    (ha : child.active = true) (order : Order Key) : key ∈ state.activeKeys order := by
  refine List.mem_filter.mpr ⟨?_, ?_⟩
  · exact (HashMap.mem_keysIn _ _ _).mpr ⟨child, hc⟩
  · rw [hc]
    exact ha

theorem DynNode.ended_of_quiet (hquiet : node.quiet = true)
    (hc : node.loop.state.children.lookup key = some child) (ha : child.active = true) :
    EndedIn node.tasks child.pid := by
  intro task ht
  have hall := List.all_eq_true.mp hquiet _ (AList.mem_lookup_iff.mp hc)
  simpa [ha, ht] using hall

theorem Halted.course {answers : List Answer} (h : Halted node loop key answers next) :
    next.loop.life = loop.life ∧ next.loop.ending = loop.ending ∧
      next.loop.todo = loop.todo := by
  cases h with
  | idle | waits => exact ⟨rfl, rfl, rfl⟩

theorem DynSupervisorState.active_of_deactivate {k : Key} {c : DynChildState F}
    (hc : (state.deactivate key).children.lookup k = some c) (ha : c.active = true) :
    k ≠ key ∧ state.children.lookup k = some c := by
  replace hc : (HashMap.modify state.children key DynChildState.inactive).lookup k = some c := hc
  rcases HashMap.of_lookup_modify hc with ⟨-, c₀, -, rfl⟩ | ⟨hne, hc⟩
  · cases ha
  · exact ⟨hne, hc⟩

theorem Handled.ending (h : Handled node loop now order msg next) (hopen : loop.ending = false)
    (hend : next.loop.ending = true) :
    next.tasks = node.tasks ∧ next.loop.state.children = loop.state.children ∧
      next.loop.wait = loop.wait ∧
      ((∃ pid reason, msg = .childExited pid reason ∧
        (loop.state.handleChildExit pid reason now).2.givesUp = true) ∨
      next.loop.todo = loop.state.activeKeys order) := by
  cases h with
  | givesUp _ _ _ hgives => exact ⟨rfl, rfl, rfl, Or.inl ⟨_, _, rfl, hgives⟩⟩
  | shutdown => exact ⟨rfl, rfl, rfl, Or.inr rfl⟩
  | terminates _ hh => cases hopen.symm.trans (hh.course.2.1.symm.trans hend)
  | starts | removes | refuses | ignores | expects | forgets | restarts | rests =>
    cases hopen.symm.trans hend

theorem Handled.life (h : Handled node loop now order msg next) : next.loop.life = loop.life := by
  cases h with
  | terminates _ hh => exact hh.course.1
  | starts | removes | refuses | ignores | expects | forgets | restarts | givesUp | rests
  | shutdown => rfl

theorem Kept.turned (h : Kept node) (hlife : node.loop.life = .looping)
    (hok : NoneLeft node (.work now order)) (ht : Turned node now order msgs next) : Kept next := by
  have hf := h.toFiled.turned ht
  cases ht with
  | started hwait =>
    refine ⟨hf, fun he => ?_, nofun, fun hl => absurd hlife hl⟩
    cases (h.starting hwait).symm.trans he
  | finished => exact ⟨hf, h.closing, nofun, fun hl => absurd hlife hl⟩
  | stopped hwait htodo hh =>
    obtain ⟨hl, hend, htd⟩ := hh.course
    refine ⟨hf, fun hending {k c} hc ha => ?_, fun hw => absurd hw hh.wait_ne,
      fun hl' => absurd (hl.trans hlife) hl'⟩
    rw [hh.state] at hc
    obtain ⟨hne, hc⟩ := DynSupervisorState.active_of_deactivate hc ha
    rw [htd]
    rcases h.closing (hend.symm.trans hending) hc ha with hk | hp
    · rw [htodo] at hk
      exact Or.inl ((List.mem_cons.mp hk).resolve_left hne)
    · exact Or.inr (hp.evolve hh.evolved)
  | returned hwait htodo hending =>
    refine ⟨hf, h.closing, h.starting, fun _ p task ht => ?_⟩
    -- nothing is left to wait for or to stop
    rcases h.recorded.covered ht with he | ⟨k, c, hc, rfl, ha⟩ | ⟨w, hw, -⟩
    · exact he
    · rcases h.closing hending hc ha with hk | he
      · rw [htodo] at hk
        cases hk
      · exact he task ht
    · rw [hwait] at hw
      cases hw
  | handled hwait htodo hopen hinbox hh =>
    refine ⟨hf, fun hend {k c} hc ha => ?_, fun {k e p a} hw => ?_,
      fun hl => absurd (hh.life.trans hlife) hl⟩
    · obtain ⟨htasks, hch, -, hwhy⟩ := hh.ending hopen hend
      rw [hch] at hc
      rcases hwhy with ⟨pid, reason, rfl, hgives⟩ | htd
      · rw [htasks]
        refine Or.inr (DynNode.ended_of_quiet (hok ?_) hc ha)
        unfold DynNode.refuses
        rw [hwait, htodo, hopen, hinbox]
        exact hgives
      · rw [htd]
        exact Or.inl (DynSupervisorState.mem_activeKeys hc ha order)
    · cases hend : next.loop.ending with
      | false => rfl
      | true =>
        obtain ⟨-, -, hwait', -⟩ := hh.ending hopen hend
        cases hwait.symm.trans (hwait'.symm.trans hw)

theorem Kept.step (h : Kept node) {event : DynEvent F} (hok : NoneLeft node event)
    (hs : DynStepped node event msgs next) : Kept next := by
  have hf := h.toFiled.step hs
  cases hs with
  | sent => exact h.send hf (.refl _)
  | turned hlife ht => exact h.turned hlife hok ht
  | cleaned hlife =>
    have hleft : node.loop.life ≠ .looping := by
      rw [hlife]
      nofun
    exact ⟨hf, h.closing, h.starting, fun _ => h.final hleft⟩
  | task htask hstep => exact h.evolve hf (Evolved.insert htask (Task.step_advanced hstep).1)
  | report htask hstep => exact h.send hf (Evolved.insert htask (Task.step_advanced hstep).1)

theorem kept_of_reach (h : (dynMachine F).Reach NoneLeft node) : Kept node := by
  refine h.inv (fun node hstart => ?_) fun node event next hk hok hs => ?_
  · obtain ⟨nodeId, spec, rfl⟩ := hstart
    exact Kept.new nodeId spec
  · obtain ⟨msgs, hs⟩ := dynNext_cases hs
    exact hk.step hok hs

/-- **when the loop has ended, no child runs** -/
theorem all_stopped (h : (dynMachine F).Reach NoneLeft node) (hlife : node.loop.life ≠ .looping) :
    ∀ pid task, node.tasks.lookup pid = some task → task.phase.ended = true :=
  (kept_of_reach h).final hlife

/-- a permanent child, and a supervisor that allows no restart at all -/
private def fragile : ChildEntry Unit := ⟨.new "worker", ()⟩

private def strict : DynNode Unit := .new 1 ⟨0, 5⟩

private theorem strict_start : (dynMachine Unit).start strict := ⟨1, ⟨0, 5⟩, rfl⟩

private def returned (node : DynNode Unit) : Bool :=
  match node.loop.life with
  | .looping => false
  | _ => true

/-- both children crash before the supervisor gives up -/
theorem all_stopped_crashes : ∃ node : DynNode Unit, (dynMachine Unit).Reach NoneLeft node ∧
    node.loop.life ≠ .looping ∧ node.tasks.keys.length = 2 ∧
    ∀ pid task, node.tasks.lookup pid = some task → task.phase.ended = true := by
  have hstart : (dynMachine Unit).Reach NoneLeft strict := .start strict_start
  obtain ⟨node, h, hreturned, hlength⟩ := hstart.exists_checked
    (List.flatten [DynEvent.hires fragile ⟨1, 2⟩, DynEvent.hires fragile ⟨1, 3⟩,
      DynEvent.crashes ⟨1, 3⟩, DynEvent.crashes ⟨1, 2⟩, [.work 0 .stored, .work 0 .stored]])
    (p := fun node => returned node = true ∧ node.tasks.keys.length = 2) (by decide)
  have hlife : node.loop.life ≠ .looping := by
    intro hlife
    rw [returned, hlife] at hreturned
    cases hreturned
  exact ⟨node, h, hlife, hlength, all_stopped h hlife⟩

/-- **A supervisor that gives up leaves its other children running**: one child crashes, no restart
is allowed, and the loop returns while the other child runs. -/
theorem orphan_left : ∃ node : DynNode Unit, (dynMachine Unit).Reach Machine.Anytime node ∧
    node.loop.life ≠ .looping ∧ node.loop.inbox = [] ∧
    ∃ task, node.tasks.lookup ⟨1, 2⟩ = some task ∧ task.phase.ended = false := by
  have hstart : (dynMachine Unit).Reach Machine.Anytime strict := .start strict_start
  obtain ⟨node, h, hreturned, hinbox, htask⟩ := hstart.exists_run
    (List.flatten [DynEvent.hires fragile ⟨1, 2⟩, DynEvent.hires fragile ⟨1, 3⟩,
      DynEvent.crashes ⟨1, 3⟩, [.work 0 .stored, .work 0 .stored]])
    (p := fun node => returned node = true ∧ node.loop.inbox = [] ∧
      ∃ task, node.tasks.lookup ⟨1, 2⟩ = some task ∧ task.phase.ended = false) (by decide)
  refine ⟨node, h, fun hlife => ?_, hinbox, htask⟩
  rw [returned, hlife] at hreturned
  cases hreturned

end Rebar.Supervisor

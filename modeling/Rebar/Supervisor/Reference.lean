import Mathlib.Logic.Function.Basic
import Rebar.Supervisor.Staff

/-!
# The handling of an exit, against a reference

The reference says what the handling of an exit is for, in terms of the record of the children and
of the calls made, in order.  The handler makes its calls one after another while everything else on
the node goes on.
-/

namespace Rebar.Supervisor

open Process SupervisorLoop SupervisorState

variable {F : Type}

/-! ## records and calls -/

/-- a call of `stop_child` or `start_child` that is over -/
inductive Done where
  | stopped (index : Nat)
  | started (index : Nat) (pid : ProcessId)
deriving DecidableEq

namespace Done

def action : Done → Action
  | .stopped i => .stop i
  | .started i _ => .start i

def index : Done → Nat
  | .stopped i => i
  | .started i _ => i

def pid : Done → Option ProcessId
  | .stopped _ => none
  | .started _ pid => some pid

def out (record : Nat → Option ProcessId) (call : Done) : Nat → Option ProcessId :=
  Function.update record call.index call.pid

end Done

def outcome : (Nat → Option ProcessId) → List Done → Nat → Option ProcessId
  | record, [] => record
  | record, call :: log => outcome (call.out record) log

section
variable {record : Nat → Option ProcessId} {log : List Done} {i : Nat}

theorem outcome_append (record : Nat → Option ProcessId) (log log' : List Done) :
    outcome record (log ++ log') = outcome (outcome record log) log' := by
  induction log generalizing record with
  | nil => rfl
  | cons call log ih => exact ih (call.out record)

theorem outcome_of_not_mem (h : i ∉ log.map Done.index) : outcome record log i = record i := by
  induction log generalizing record with
  | nil => rfl
  | cons call log ih =>
    rw [List.map_cons, List.mem_cons, not_or] at h
    show outcome (call.out record) log i = record i
    rw [ih h.2]
    exact Function.update_of_ne h.1 _ _

theorem outcome_of_mem {call : Done} (hmem : call ∈ log) (hnodup : (log.map Done.index).Nodup) :
    outcome record log call.index = call.pid := by
  induction log generalizing record with
  | nil => cases hmem
  | cons head log ih =>
    obtain ⟨hhead, hnodup⟩ := List.nodup_cons.mp hnodup
    rcases List.mem_cons.mp hmem with rfl | hmem
    · show outcome (call.out record) log call.index = call.pid
      rw [outcome_of_not_mem hhead]
      exact Function.update_self _ _ _
    · exact ih hmem hnodup

theorem exists_of_plan {stops starts : List Nat}
    (h : log.map Done.action = stops.map .stop ++ starts.map .start) :
    ∃ given : List (Nat × ProcessId), given.map Prod.fst = starts ∧
      log = stops.map .stopped ++ given.map fun s => .started s.1 s.2 := by
  induction stops generalizing log with
  | cons i stops ih =>
    cases log with
    | nil => cases h
    | cons call log =>
      obtain ⟨hcall, h⟩ := List.cons.inj h
      obtain ⟨given, hgiven, rfl⟩ := ih h
      cases call with
      | stopped j =>
        cases hcall
        exact ⟨given, hgiven, rfl⟩
      | started j p => cases hcall
  | nil =>
    induction starts generalizing log with
    | nil =>
      rw [List.map_eq_nil_iff.mp h]
      exact ⟨[], rfl, rfl⟩
    | cons i starts ih =>
      cases log with
      | nil => cases h
      | cons call log =>
        obtain ⟨hcall, h⟩ := List.cons.inj h
        obtain ⟨given, hgiven, rfl⟩ := ih h
        cases call with
        | stopped j => cases hcall
        | started j p =>
          cases hcall
          exact ⟨(i, p) :: given, by rw [List.map_cons, hgiven], rfl⟩

theorem index_log (stops : List Nat) (given : List (Nat × ProcessId)) :
    (stops.map Done.stopped ++ given.map fun s => Done.started s.1 s.2).map Done.index =
      stops ++ given.map Prod.fst := by
  simp [Function.comp_def, Done.index]

theorem pid_log (stops : List Nat) (given : List (Nat × ProcessId)) :
    (stops.map Done.stopped ++ given.map fun s => Done.started s.1 s.2).filterMap Done.pid =
      given.map Prod.snd := by
  rw [List.filterMap_append]
  simp [List.filterMap_map, Function.comp_def, Done.pid]

end

/-! ## the reference -/

/-- What the exit of process `pid` of child `index` leads to: the state and the calls that were
made, in order.  `allowed` is the word of the restart limit, `issued` are the processes there were
before, and `escalated` says that the supervisor gives up. -/
inductive Reference (state : SupervisorState F) (index : Nat) (pid : ProcessId)
    (reason : ExitReason) (allowed : Bool) (issued : ProcessId → Prop) (state' : SupervisorState F)
    (log : List Done) (escalated : Bool) : Prop where
  /-- the process is not the current one of the child -/
  | ignored (hother : state.current index ≠ some pid) (hstate : state' = state) (hlog : log = [])
      (hgoes : escalated = false)
  /-- only that child becomes stopped -/
  | cleared {child : ChildState F} (hchild : state.children[index]? = some child)
      (hpid : child.pid = some pid) (hno : child.spec.restart.shouldRestart reason = false)
      (hstate : state' = state.setChild index child.cleared) (hlog : log = [])
      (hgoes : escalated = false)
  /-- the group gets fresh processes -/
  | restarted {child : ChildState F} {stops : List Nat} {given : List (Nat × ProcessId)}
      (hchild : state.children[index]? = some child) (hpid : child.pid = some pid)
      (hyes : child.spec.restart.shouldRestart reason = true) (hallowed : allowed = true)
      (hlog : log = stops.map .stopped ++ given.map fun s => .started s.1 s.2)
      (hfalling : stops.Pairwise (· > ·)) (hrising : (given.map Prod.fst).Pairwise (· < ·))
      (hstops : ∀ i, i ∈ stops ↔ i ≠ index ∧ state.InGroup index i)
      (hgroup : ∀ i, i ∈ given.map Prod.fst ↔ state.InGroup index i)
      (hfresh : ∀ s ∈ given, ¬ issued s.2) (hdistinct : (given.map Prod.snd).Nodup)
      (hgiven : ∀ s ∈ given, state'.current s.1 = some s.2)
      (hentries : ∀ i, state'.entryAt i = state.entryAt i)
      (hothers : ∀ i, ¬ state.InGroup index i → state'.children[i]? = state.children[i]?)
      (hgoes : escalated = false)
  /-- every running child is stopped -/
  | gaveUp {child : ChildState F} {stops : List Nat} (hchild : state.children[index]? = some child)
      (hpid : child.pid = some pid) (hyes : child.spec.restart.shouldRestart reason = true)
      (hallowed : allowed = false) (hlog : log = stops.map .stopped)
      (hfalling : stops.Pairwise (· > ·))
      (hstops : ∀ i, i ∈ stops ↔ i ≠ index ∧ state.recorded i = true)
      (hnone : ∀ i, state'.current i = none)
      (hentries : ∀ i, state'.entryAt i = state.entryAt i)
      (hothers : ∀ i, i ≠ index → state.recorded i = false →
        state'.children[i]? = state.children[i]?)
      (hgoes : escalated = true)

/-! ## a handler at work -/

def Action.index : Action → Nat
  | .start i => i
  | .stop i => i

def Wait.action : Wait → Action
  | .abortHandle index _ => .start index
  | .killed index _ => .stop index
  | .grace index _ _ _ => .stop index

def Wait.pid : Wait → ProcessId
  | .abortHandle _ pid => pid
  | .killed _ pid => pid
  | .grace _ pid _ _ => pid

def Wait.newest : Wait → Option ProcessId
  | .abortHandle _ pid => some pid
  | _ => none

namespace SupervisorLoop

def handled (sup : SupervisorLoop F) : Bool := sup.wait.isNone && sup.todo.isEmpty

def pending (sup : SupervisorLoop F) : List Action := (sup.wait.map Wait.action).toList ++ sup.todo

/-- the call that is over with a step of the loop to `next` -/
def completes (sup next : SupervisorLoop F) : List Done :=
  match sup.wait, sup.todo, next.wait with
  | some (.abortHandle i pid), _, _ => [.started i pid]
  | some (.killed i _), _, _ => [.stopped i]
  | some (.grace i _ _ _), _, _ => [.stopped i]
  | none, .stop i :: _, none => [.stopped i]
  | _, _, _ => []

end SupervisorLoop

/-- the calls of supervisor `k` that are over with an event -/
def Node.completes (node next : Node F) (k : Nat) : Event F → List Done
  | .work j _ =>
    match node.sups[k]?, next.sups[k]? with
    | some sup, some sup' => if j = k then sup.completes sup' else []
    | _, _ => []
  | _ => []

/-- a handler of supervisor `k`, with the calls that are over, while the node goes on -/
def handler (k : Nat) (node : Node F) : Machine (Node F × List Done) (Event F) where
  start := fun s => s = (node, [])
  next := fun s event => (s.1.next event).map fun next => (next, s.2 ++ s.1.completes next k event)

def Within (k : Nat) (s : Node F × List Done) : Event F → Prop
  | .work j _ => j = k → ∀ sup ∈ s.1.sups[k]?, sup.handled = false
  | _ => True

instance (k : Nat) (s : Node F × List Done) : DecidablePred (Within k s)
  | .work j _ => inferInstanceAs (Decidable (j = k → ∀ sup ∈ s.1.sups[k]?, sup.handled = false))
  | .start _ _ | .request _ _ | .task _ _ => inferInstanceAs (Decidable True)

/-! ## the invariant -/

/-- the loop has carried out the calls of `log` from the plan `todo₀`, made in `state₀`, and gave out
process ids between `lo` and `hi` -/
structure Carried (state₀ : SupervisorState F) (todo₀ : List Action) (lo hi : Nat)
    (sup : SupervisorLoop F) (log : List Done) : Prop where
  plan : log.map Done.action ++ sup.pending = todo₀
  record : sup.state.current = outcome state₀.current log
  config : sup.state = { state₀ with children := sup.state.children }
  entries : ∀ i, sup.state.entryAt i = state₀.entryAt i
  untouched : ∀ i, i ∉ log.map Done.index → ¬ sup.Stopping i →
    sup.state.children[i]? = state₀.children[i]?
  rising : (log.filterMap Done.pid ++ (sup.wait.bind Wait.newest).toList).Pairwise
    (·.localId < ·.localId)
  fresh : ∀ p ∈ log.filterMap Done.pid ++ (sup.wait.bind Wait.newest).toList,
    lo ≤ p.localId ∧ p.localId < hi

variable {state₀ : SupervisorState F} {todo₀ : List Action} {lo hi : Nat}
  {sup sup' : SupervisorLoop F} {log : List Done} {index : Nat} {child : ChildState F}

theorem SupervisorLoop.completes_begun (hwait : sup.wait = none) {wait : Wait}
    (hnext : sup'.wait = some wait) : sup.completes sup' = [] := by
  unfold SupervisorLoop.completes
  rw [hwait, hnext]
  cases sup.todo with
  | nil => rfl
  | cons action todo => cases action <;> rfl

theorem SupervisorLoop.handled_iff : sup.handled = true ↔ sup.wait = none ∧ sup.todo = [] := by
  simp [SupervisorLoop.handled]

theorem SupervisorLoop.busy (hbusy : sup.handled = false) (hwait : sup.wait = none) :
    sup.todo ≠ [] := by
  intro htodo
  rw [handled_iff.mpr ⟨hwait, htodo⟩] at hbusy
  cases hbusy

theorem Carried.completed (h : Carried state₀ todo₀ lo hi sup log)
    (hchild : sup.state.children[index]? = some child) (new : ChildState F)
    (hentry : new.toChildEntry = child.toChildEntry) {call : Done} (hindex : call.index = index)
    (hpid : new.pid = call.pid) (hstate : sup'.state = sup.state.setChild index new)
    (hwait : sup'.wait = none) (hpending : sup.pending = call.action :: sup'.todo)
    (honly : ∀ i, sup.Stopping i → i = index)
    (hnewest : (sup.wait.bind Wait.newest) = call.pid) :
    Carried state₀ todo₀ lo hi sup' (log ++ [call]) := by
  have hgiven : (log ++ [call]).filterMap Done.pid ++ (sup'.wait.bind Wait.newest).toList =
      log.filterMap Done.pid ++ (sup.wait.bind Wait.newest).toList := by
    rw [hwait, hnewest, List.filterMap_append]
    cases hp : call.pid with
    | none => simp [hp]
    | some p => simp [hp]
  refine ⟨?_, ?_, ?_, fun i => ?_, fun i hi _ => ?_, ?_, ?_⟩
  · rw [← h.plan, hpending, List.map_append, List.append_assoc]
    simp [SupervisorLoop.pending, hwait]
  · rw [outcome_append, ← h.record, hstate]
    funext i
    rw [current_setChild hchild]
    show _ = Function.update sup.state.current call.index call.pid i
    rw [Function.update_apply, hindex, hpid]
  · rw [hstate]
    exact congrArg (fun state : SupervisorState F => state.setChild index new) h.config
  · rw [hstate, entryAt_set hchild new hentry]
    exact h.entries i
  · rw [List.map_append, List.mem_append, not_or] at hi
    have hne : i ≠ index := by
      rintro rfl
      exact hi.2 (by simp [hindex])
    rw [hstate, children_setChild hchild, if_neg hne]
    exact h.untouched i hi.1 fun hs => hne (honly i hs)
  · rw [hgiven]
    exact h.rising
  · rw [hgiven]
    exact h.fresh

theorem Carried.stopping (h : Carried state₀ todo₀ lo hi sup log) (hidle : sup.wait = none)
    (hchild : sup.state.children[index]? = some child) (wait : Wait) {pid : ProcessId}
    (hstops : wait.stops = some (index, pid)) (haction : wait.action = .stop index)
    (hnewest : wait.newest = none) (hwait : sup'.wait = some wait)
    (htodo : sup.todo = .stop index :: sup'.todo)
    (hstate : sup'.state = sup.state.setChild index child.taken) :
    Carried state₀ todo₀ lo hi sup' log := by
  have hcurrent : (sup.state.setChild index child.taken).current = sup.state.current := by
    funext i
    rw [current_setChild hchild]
    split
    next heq =>
      rw [heq, SupervisorState.current, hchild]
      rfl
    next => rfl
  have hgiven : (sup'.wait.bind Wait.newest).toList = (sup.wait.bind Wait.newest).toList := by
    rw [hwait, hidle]
    simp [hnewest]
  refine ⟨?_, ?_, ?_, fun i => ?_, fun i hi hstop => ?_, ?_, ?_⟩
  · rw [← h.plan]
    simp [SupervisorLoop.pending, hwait, hidle, htodo, haction]
  · rw [hstate, hcurrent]
    exact h.record
  · rw [hstate]
    exact congrArg (fun state : SupervisorState F => state.setChild index child.taken) h.config
  · rw [hstate, entryAt_set hchild child.taken rfl]
    exact h.entries i
  · have hne : i ≠ index := by
      rintro rfl
      exact hstop ⟨wait, pid, hwait, hstops⟩
    rw [hstate, children_setChild hchild, if_neg hne]
    exact h.untouched i hi (not_stopping hidle i)
  · rw [hgiven]
    exact h.rising
  · rw [hgiven]
    exact h.fresh

theorem Carried.halted (h : Carried state₀ todo₀ lo hi sup log) {wait : Wait} {pid : ProcessId}
    (hwait : sup.wait = some wait) (hstops : wait.stops = some (index, pid))
    (hchild : sup.state.children[index]? = some child) :
    Carried state₀ todo₀ lo hi (sup.record index { child with pid := none })
      (log ++ sup.completes (sup.record index { child with pid := none })) := by
  have hstopped : ∀ next, sup.completes next = [.stopped index] := by
    intro next
    unfold SupervisorLoop.completes
    rw [hwait]
    cases wait <;> cases hstops <;> rfl
  rw [hstopped]
  refine h.completed hchild { child with pid := none } rfl rfl rfl rfl rfl ?_
    (stopping_unique hwait hstops) ?_
  · rw [SupervisorLoop.pending, hwait]
    cases wait <;> cases hstops <;> rfl
  · rw [hwait]
    cases wait <;> cases hstops <;> rfl

theorem Carried.mono (h : Carried state₀ todo₀ lo hi sup log) {hi' : Nat} (hle : hi ≤ hi')
    (inbox : List (SupervisorMsg F)) :
    Carried state₀ todo₀ lo hi' { sup with inbox := inbox } log :=
  ⟨h.plan, h.record, h.config, h.entries, h.untouched, h.rising,
    fun p hp => ⟨(h.fresh p hp).1, Nat.lt_of_lt_of_le (h.fresh p hp).2 hle⟩⟩

/-- **A step of the handler carries the plan on** -/
theorem Carried.work (h : Carried state₀ todo₀ lo hi sup log) (hbusy : sup.handled = false)
    {fresh : ProcessId} (hlo : lo ≤ hi) (hfresh : fresh.localId = hi)
    {tasks : HashMap ProcessId (Task F)} {now : Nanos} {r : SupervisorLoop F × Effect F}
    (hr : Worked sup fresh tasks now r) {hi' : Nat} (hle : hi ≤ hi')
    (hspawn : ∀ i entry, r.2 = .spawn i entry → hi < hi') :
    Carried state₀ todo₀ lo hi' r.1 (log ++ sup.completes r.1) := by
  have hup : Carried state₀ todo₀ lo hi' sup log := h.mono hle sup.inbox
  cases hr with
  | leaving hwait htodo | received hwait htodo => exact (SupervisorLoop.busy hbusy hwait htodo).elim
  | @spawned index todo child hwait htodo hchild =>
    have hgiven : log.filterMap Done.pid ++ (sup.wait.bind Wait.newest).toList =
        log.filterMap Done.pid := by
      simp [hwait]
    have hold := h.fresh
    have hrising := h.rising
    rw [hgiven] at hold hrising
    rw [completes_begun hwait rfl, List.append_nil]
    refine ⟨?_, h.record, h.config, h.entries, fun i hi _ => ?_, ?_, fun p hp => ?_⟩
    · rw [← h.plan]
      simp [SupervisorLoop.pending, hwait, htodo, Wait.action]
    · exact h.untouched i hi (not_stopping hwait i)
    · refine List.pairwise_append.mpr ⟨hrising, List.pairwise_singleton _ _, fun p hp q hq => ?_⟩
      rw [List.mem_singleton.mp hq, hfresh]
      exact (hold p hp).2
    · rcases List.mem_append.mp hp with hp | hp
      · exact ⟨(hold p hp).1, Nat.lt_of_lt_of_le (hold p hp).2 hle⟩
      · rw [List.mem_singleton.mp hp, hfresh]
        exact ⟨hlo, hspawn _ _ rfl⟩
  | @started index pid task child hwait htask hchild hhanded =>
    have hdone : ∀ next, sup.completes next = [.started index pid] := by
      intro next
      simp [SupervisorLoop.completes, hwait]
    rw [hdone]
    refine hup.completed hchild { child with
      pid := some pid, abort := if task.abortSent then some pid else none, doneRx := some pid }
      rfl rfl rfl rfl rfl ?_ (fun i hs => ?_) ?_
    · simp [SupervisorLoop.pending, hwait, Wait.action, Done.action, SupervisorLoop.record]
    · exact absurd hs (not_stopping_of_start hwait i)
    · rw [hwait]
      rfl
  | @killing index todo child pid hwait htodo hchild hdone =>
    rw [completes_begun hwait rfl, List.append_nil]
    exact hup.stopping hwait hchild (.killed index pid) rfl rfl rfl rfl htodo rfl
  | @waiting index todo child pid deadline hwait htodo hchild hdone =>
    rw [completes_begun hwait rfl, List.append_nil]
    exact hup.stopping hwait hchild (.grace index pid child.abort deadline) rfl rfl rfl rfl htodo rfl
  | @reset index todo child hwait htodo hchild hdone =>
    have hstopped : sup.completes ({ sup with todo := todo }.record index
        { child.taken with pid := none }) = [.stopped index] := by
      simp [SupervisorLoop.completes, hwait, htodo, SupervisorLoop.record]
    rw [hstopped]
    refine hup.completed hchild { child.taken with pid := none } rfl rfl rfl rfl rfl ?_
      (fun i hs => absurd hs (not_stopping hwait i)) ?_
    · rw [SupervisorLoop.pending, hwait]
      exact htodo
    · rw [hwait]
      rfl
  | @stopped wait index pid task child hwait hstops htask hchild hstopped =>
    exact hup.halted hwait hstops hchild
  | @overrun index pid abort deadline task child hwait htask hchild hstopped hlate =>
    exact hup.halted hwait rfl hchild

/-! ## the handler against the reference -/

section
variable {state : SupervisorState F} {pid : ProcessId} {reason : ExitReason} {now : Nanos}
  {escalated : Bool}

theorem Carried.state_eq (h : Carried state₀ todo₀ lo hi sup log) (hwait : sup.wait = none)
    (hlog : log = []) : sup.state = state₀ := by
  have hchildren : sup.state.children = state₀.children := by
    apply List.ext_getElem?
    intro i
    refine h.untouched i ?_ (not_stopping hwait i)
    rw [hlog]
    exact List.not_mem_nil
  rw [h.config, hchildren]

/-- **The handling of an exit refines the reference** -/
theorem Carried.reference (h : Carried state₀ todo₀ lo hi sup log) (hhandled : sup.handled = true)
    (hdecided : state.Decided index pid reason now (state₀, todo₀, escalated)) :
    Reference state index pid reason (state.checkRestartLimit now).2 (·.localId < lo) sup.state log
      escalated := by
  obtain ⟨hwait, htodo⟩ := handled_iff.mp hhandled
  have hlog : log.map Done.action = todo₀ := by
    rw [← h.plan]
    simp [SupervisorLoop.pending, hwait, htodo]
  have hidle := not_stopping hwait
  -- the exit itself only takes the process of the child off the record
  have hentries : ∀ {child : ChildState F}, state.children[index]? = some child →
      state₀.children = (state.setChild index child.cleared).children →
      ∀ i, state₀.entryAt i = state.entryAt i := by
    intro child hchild hchildren i
    rw [SupervisorState.entryAt, hchildren]
    exact entryAt_set hchild child.cleared rfl
  have hothers : ∀ {child : ChildState F} {i : Nat}, state.children[index]? = some child →
      state₀.children = (state.setChild index child.cleared).children → i ≠ index →
      state₀.children[i]? = state.children[i]? := by
    intro child i hchild hchildren hne
    rw [hchildren, children_setChild hchild, if_neg hne]
  have hgiven : ∀ p ∈ log.filterMap Done.pid, lo ≤ p.localId :=
    fun p hp => (h.fresh p (List.mem_append_left _ hp)).1
  have hrising : (log.filterMap Done.pid).Pairwise (·.localId < ·.localId) :=
    (List.pairwise_append.mp h.rising).1
  cases hdecided with
  | ignored hother =>
    have hnil := List.map_eq_nil_iff.mp hlog
    exact .ignored hother (h.state_eq hwait hnil) hnil rfl
  | cleared hchild hpid hno =>
    have hnil := List.map_eq_nil_iff.mp hlog
    exact .cleared hchild hpid hno (h.state_eq hwait hnil) hnil rfl
  | @restarts child _ _ stops starts hchild hpid hyes hlimit hchildren hplan hstarts hstops =>
    obtain ⟨given, rfl, rfl⟩ := exists_of_plan (hlog.trans hplan.todo)
    rw [pid_log] at hgiven hrising
    refine .restarted hchild hpid hyes hlimit rfl hplan.falling hplan.rising hstops hstarts
      (fun s hs => ?_) ?_ (fun s hs => ?_) (fun i => ?_) (fun i hi => ?_) rfl
    · exact Nat.not_lt_of_le (hgiven s.2 (List.mem_map_of_mem hs))
    · exact hrising.imp fun hlt heq => Nat.ne_of_lt hlt (congrArg _ heq)
    · -- the starts come last, with one start for each child
      rw [h.record, outcome_append]
      have hmem : Done.started s.1 s.2 ∈ given.map fun s => Done.started s.1 s.2 :=
        List.mem_map.mpr ⟨s, hs, rfl⟩
      refine outcome_of_mem hmem ?_
      rw [List.map_map]
      exact hplan.rising.imp Nat.ne_of_lt
    · rw [h.entries]
      exact hentries hchild hchildren i
    · refine (h.untouched i ?_ (hidle i)).trans (hothers hchild hchildren fun heq => hi (Or.inl heq))
      rw [index_log, List.mem_append, hstops, hstarts]
      exact fun hmem => hi (hmem.elim And.right id)
  | @gaveUp child _ _ stops hchild hpid hyes hlimit hchildren hplan hstops =>
    obtain ⟨given, hnil, rfl⟩ := exists_of_plan (hlog.trans hplan.todo)
    cases List.map_eq_nil_iff.mp hnil
    rw [List.map_nil, List.append_nil] at h
    have hindex : (stops.map Done.stopped).map Done.index = stops := by
      simp [Function.comp_def, Done.index]
    have hrecorded := recorded_cleared hchild hchildren
    refine .gaveUp hchild hpid hyes hlimit (List.append_nil _) hplan.falling (fun i => ?_)
      (fun i => ?_) (fun i => ?_) (fun i hi hrec => ?_) rfl
    · rw [hstops, hrecorded]
    · rw [h.record]
      by_cases hi : i ∈ stops
      · refine outcome_of_mem (List.mem_map_of_mem hi) ?_
        rw [hindex]
        exact hplan.falling.imp Nat.ne_of_gt
      · rw [outcome_of_not_mem (hindex.symm ▸ hi)]
        exact not_recorded_iff.mp (Bool.eq_false_iff.mpr fun h => hi ((hstops i).mpr h))
    · rw [h.entries]
      exact hentries hchild hchildren i
    · refine (h.untouched i ?_ (hidle i)).trans (hothers hchild hchildren hi)
      rw [hindex, hstops, hrecorded, hrec]
      exact fun hmem => Bool.false_ne_true hmem.2

end

/-! ## the node around the handler -/

section
variable {node next : Node F} {k : Nat} {event : Event F}

theorem SupervisorLoop.exists_send (sup : SupervisorLoop F) (msg : SupervisorMsg F) :
    ∃ inbox, sup.send msg = { sup with inbox := inbox } := by
  unfold SupervisorLoop.send
  split
  next => exact ⟨_, rfl⟩
  next => exact ⟨sup.inbox, rfl⟩

theorem Node.exists_send (hsup : node.sups[k]? = some sup) (j : Nat) (msg : SupervisorMsg F) :
    ∃ inbox, (node.send j msg).sups[k]? = some { sup with inbox := inbox } := by
  obtain ⟨inbox, hsend⟩ := sup.exists_send msg
  unfold Node.send
  dsimp only
  rw [List.getElem?_modify, hsup]
  split
  next => exact ⟨inbox, congrArg some hsend⟩
  next => exact ⟨sup.inbox, rfl⟩

theorem Stepped.other (hs : Stepped node event next) (hsup : node.sups[k]? = some sup)
    (hne : ∀ now, event ≠ .work k now) :
    (∃ inbox, next.sups[k]? = some { sup with inbox := inbox }) ∧
      node.table.nextId ≤ next.table.nextId := by
  cases hs with
  | start spec entries => exact ⟨⟨sup.inbox, startSupervisor_old hsup⟩, Nat.le_succ _⟩
  | request request => exact ⟨Node.exists_send hsup _ _, Nat.le_refl _⟩
  | @work j now _ r hsup' =>
    have hj : j ≠ k := fun heq => hne now (heq ▸ rfl)
    have hset : ∀ new, (node.sups.set j new)[k]? = some { sup with inbox := sup.inbox } := by
      intro new
      rw [List.getElem?_set_ne hj]
      exact hsup
    obtain ⟨sup', effect⟩ := r
    cases effect with
    | nothing | abort target => exact ⟨⟨_, hset sup'⟩, Nat.le_refl _⟩
    | spawn index entry => exact ⟨⟨_, hset sup'⟩, Nat.le_succ _⟩
  | @leave j now _ call =>
    have hj : j ≠ k := fun heq => hne now (heq ▸ rfl)
    refine ⟨⟨sup.inbox, ?_⟩, Nat.le_of_eq (step_bounded node.table call).nextId.symm⟩
    show (node.sups.set j _)[k]? = _
    rw [List.getElem?_set_ne hj]
    exact hsup
  | task htask hstep => exact ⟨⟨sup.inbox, hsup⟩, Nat.le_of_eq (Task.step_nextId hstep).symm⟩
  | report htask hstep =>
    refine ⟨?_, Nat.le_of_eq (Task.step_nextId hstep).symm⟩
    have hsup' : ({ node with
      table := _, tasks := _ } : Node F).sups[k]? = some sup := hsup
    exact Node.exists_send hsup' _ _

variable {now : Nanos} {fresh pid : ProcessId} {tasks tasks' : HashMap ProcessId (Task F)}
  {r : SupervisorLoop F × Effect F} {p : Phase → Bool} {s : Node F × List Done} {task : Task F}
  {table : ProcessTable} {report : Option ExitReason} {state : SupervisorState F}
  {reason : ExitReason}

theorem Stepped.of_work (hs : Stepped node (.work k now) next) (hsup : node.sups[k]? = some sup)
    (hlife : sup.life = .looping) :
    ∃ r, Worked sup (Node.spawned node.table).2 node.tasks now r ∧
      next = node.apply k r.1 r.2 := by
  cases hs with
  | work hsup' _ hr =>
    cases hsup.symm.trans hsup'
    exact ⟨_, hr, rfl⟩
  | leave hsup' hleaving =>
    cases hsup.symm.trans hsup'
    cases hlife.symm.trans hleaving

theorem Node.sups_apply (hsup : node.sups[k]? = some sup) (r : SupervisorLoop F × Effect F) :
    (node.apply k r.1 r.2).sups[k]? = some r.1 := by
  have hset : (node.sups.set k r.1)[k]? = some r.1 :=
    List.getElem?_set_self (List.getElem?_eq_some_iff.mp hsup).1
  cases r.2 with
  | nothing | abort | spawn => exact hset

theorem Node.nextId_apply (node : Node F) (k : Nat) (r : SupervisorLoop F × Effect F) :
    node.table.nextId ≤ (node.apply k r.1 r.2).table.nextId ∧ ∀ i entry,
      r.2 = .spawn i entry → node.table.nextId < (node.apply k r.1 r.2).table.nextId := by
  cases r.2 with
  | nothing | abort => exact ⟨Nat.le_refl _, nofun⟩
  | spawn => exact ⟨Nat.le_succ _, fun _ _ _ => Nat.lt_succ_self _⟩

theorem Node.lookup_spawned (node : Node F) (k : Nat) (r : SupervisorLoop F × Effect F) (i : Nat)
    (entry : ChildEntry F) (h : r.2 = .spawn i entry) :
    ∃ t, (node.apply k r.1 r.2).tasks.lookup (Node.spawned node.table).2 = some t := by
  rw [h]
  exact ⟨_, AList.lookup_insert _⟩

theorem Worked.life (hr : Worked sup fresh tasks now r) (hbusy : sup.handled = false) :
    r.1.life = sup.life ∧ r.1.ending = sup.ending := by
  cases hr with
  | leaving hwait htodo | received hwait htodo => exact (SupervisorLoop.busy hbusy hwait htodo).elim
  | spawned | started | killing | waiting | reset | stopped | overrun => exact ⟨rfl, rfl⟩

theorem Stepped.keeps_task (hs : Stepped node event next) {p : ProcessId} {t : Task F}
    (ht : node.tasks.lookup p = some t) : ∃ t', next.tasks.lookup p = some t' := by
  have hinsert : ∀ (q : ProcessId) (u : Task F), ∃ t', (node.tasks.insert q u).lookup p = some t' := by
    intro q u
    rw [HashMap.lookup_insert_if]
    split
    · exact ⟨u, rfl⟩
    · exact ⟨t, ht⟩
  cases hs with
  | start | request | leave => exact ⟨t, ht⟩
  | task | report => exact hinsert _ _
  | @work j now _ r =>
    obtain ⟨sup', effect⟩ := r
    cases effect with
    | nothing => exact ⟨t, ht⟩
    | spawn index entry => exact hinsert _ _
    | abort target =>
      obtain ⟨t', ht', -⟩ := (Evolved.abort node.tasks target).forth ht
      exact ⟨t', ht'⟩

/-- what the loop waits for, now or later, is the doing of some process -/
structure Backed (sup : SupervisorLoop F) (tasks : HashMap ProcessId (Task F)) : Prop where
  handles : ∀ {i : Nat} {child : ChildState F} {p}, sup.state.children[i]? = some child →
    child.doneRx = some p → ∃ t, tasks.lookup p = some t
  wait : ∀ {w}, sup.wait = some w → ∃ t, tasks.lookup w.pid = some t

theorem Backed.mono (h : Backed sup tasks)
    (hkeep : ∀ {p t}, tasks.lookup p = some t → ∃ t', tasks'.lookup p = some t') :
    Backed sup tasks' := by
  refine ⟨fun hchild hdone => ?_, fun hw => ?_⟩
  · obtain ⟨t, ht⟩ := h.handles hchild hdone
    exact hkeep ht
  · obtain ⟨t, ht⟩ := h.wait hw
    exact hkeep ht

theorem Backed.work (h : Backed sup tasks) (hr : Worked sup fresh tasks now r)
    (hbusy : sup.handled = false)
    (hkeep : ∀ {p t}, tasks.lookup p = some t → ∃ t', tasks'.lookup p = some t')
    (hspawn : ∀ i entry, r.2 = .spawn i entry → ∃ t, tasks'.lookup fresh = some t) :
    Backed r.1 tasks' := by
  have h' := h.mono hkeep
  -- the record of one child is rewritten
  have hset : ∀ {sup' : SupervisorLoop F} {index : Nat} {child new : ChildState F},
      sup.state.children[index]? = some child →
      sup'.state.children = (sup.state.setChild index new).children →
      (∀ {p}, new.doneRx = some p → ∃ t, tasks'.lookup p = some t) →
      (∀ {w}, sup'.wait = some w → ∃ t, tasks'.lookup w.pid = some t) → Backed sup' tasks' := by
    intro sup' index child new hchild hchildren hnew hwait
    refine ⟨fun {i c p} hc hdone => ?_, hwait⟩
    rw [hchildren, children_setChild hchild] at hc
    split at hc
    next =>
      cases hc
      exact hnew hdone
    next => exact h'.handles hc hdone
  cases hr with
  | leaving hwait htodo | received hwait htodo => exact (SupervisorLoop.busy hbusy hwait htodo).elim
  | spawned =>
    refine ⟨h'.handles, fun hw => ?_⟩
    cases hw
    exact hspawn _ _ rfl
  | started hwait htask hchild =>
    refine hset hchild rfl (fun hdone => ?_) nofun
    cases hdone
    exact hkeep htask
  | killing _ _ hchild hdone | waiting _ _ hchild hdone =>
    refine hset hchild rfl (fun hnone => ?_) fun hw => ?_
    · cases hnone
    cases hw
    exact h'.handles hchild hdone
  | reset _ _ hchild =>
    refine hset hchild rfl (fun hnone => ?_) nofun
    cases hnone
  | stopped _ _ _ hchild | overrun _ _ hchild =>
    exact hset hchild rfl (fun hdone => h'.handles hchild hdone) nofun

/-- **The log of a handler is the first part of its plan**, in every state it comes to -/
theorem carried_of_reach (hsup : node.sups[k]? = some sup) (hlife : sup.life = .looping)
    (hwait : sup.wait = none) (h : (handler k node).Reach (Within k) s) :
    ∃ sup', s.1.sups[k]? = some sup' ∧ sup'.life = .looping ∧ sup'.ending = sup.ending ∧
      node.table.nextId ≤ s.1.table.nextId ∧
      Carried sup.state sup.todo node.table.nextId s.1.table.nextId sup' s.2 ∧
      (Backed sup node.tasks → Backed sup' s.1.tasks) := by
  induction h with
  | start hs =>
    cases hs
    refine ⟨sup, hsup, hlife, rfl, Nat.le_refl _,
      ⟨?_, rfl, rfl, fun _ => rfl, fun _ _ _ => rfl, ?_, ?_⟩, id⟩
    · simp [SupervisorLoop.pending, hwait]
    · simp [hwait]
    · simp [hwait]
  | @step s s' event _ hok hstep ih =>
    obtain ⟨sup', hsup', hlife', hending, hle, h, hbacked⟩ := ih
    obtain ⟨next, hnext, rfl⟩ := Option.map_eq_some_iff.mp hstep
    have hstepped := next_cases hnext
    by_cases hevent : ∃ now, event = .work k now
    · obtain ⟨now, rfl⟩ := hevent
      have hbusy : sup'.handled = false := hok rfl sup' hsup'
      obtain ⟨r, hr, rfl⟩ := hstepped.of_work hsup' hlife'
      obtain ⟨hlife'', hending'⟩ := hr.life hbusy
      have hset : (s.1.apply k r.1 r.2).sups[k]? = some r.1 := Node.sups_apply hsup' r
      have hid := s.1.nextId_apply k r
      refine ⟨r.1, hset, hlife''.trans hlife', hending'.trans hending, Nat.le_trans hle hid.1, ?_,
        fun h₀ => (hbacked h₀).work hr hbusy hstepped.keeps_task (s.1.lookup_spawned k r)⟩
      have hlog : s.1.completes (s.1.apply k r.1 r.2) k (.work k now) = sup'.completes r.1 := by
        unfold Node.completes
        rw [hsup', hset]
        exact if_pos rfl
      show Carried _ _ _ _ _ (s.2 ++ s.1.completes (s.1.apply k r.1 r.2) k (.work k now))
      rw [hlog]
      exact h.work hbusy hle rfl hr hid.1 hid.2
    · have hne : ∀ now, event ≠ .work k now := fun now heq => hevent ⟨now, heq⟩
      obtain ⟨⟨inbox, hsup''⟩, hid⟩ := hstepped.other hsup' hne
      refine ⟨_, hsup'', hlife', hending, Nat.le_trans hle hid, ?_, fun h₀ => ?_⟩
      rotate_left
      · have h' := (hbacked h₀).mono hstepped.keeps_task
        exact ⟨h'.handles, h'.wait⟩
      have hlog : s.1.completes next k event = [] := by
        unfold Node.completes
        split
        next j now =>
          split
          next => exact if_neg fun hj : j = k => hne now (hj ▸ rfl)
          next => rfl
        next => rfl
      show Carried _ _ _ _ _ (s.2 ++ s.1.completes next k event)
      rw [hlog, List.append_nil]
      exact h.mono hid inbox

/-! ## the handler comes to an end -/

theorem exists_taskStep (k : Nat) (base : Node F) (log : List Done) {task' : Task F}
    {choice : Choice} (htask : node.tasks.lookup pid = some task)
    (hstep : task.step pid node.table choice = some (table, task', report)) :
    ∃ next, (handler k base).next (node, log) (.task pid choice) = some (next, log) ∧
      next.table = table ∧ next.tasks.lookup pid = some task' ∧ ∀ sup, node.sups[k]? = some sup →
        ∃ inbox, next.sups[k]? = some { sup with inbox := inbox } := by
  have hnext : (handler k base).next (node, log) (.task pid choice) =
      (node.stepTask pid choice).map fun next => (next, log) := by
    show (node.stepTask pid choice).map (fun next => (next, log ++ [])) = _
    rw [List.append_nil]
  rw [hnext, Node.stepTask, htask, Option.bind_some, hstep]
  cases report with
  | none => exact ⟨_, rfl, rfl, AList.lookup_insert _, fun sup hsup => ⟨sup.inbox, hsup⟩⟩
  | some reason =>
    refine ⟨_, rfl, rfl, AList.lookup_insert _, fun sup hsup => ?_⟩
    have hsup' : ({ node with
      table := table, tasks := node.tasks.insert pid task' } : Node F).sups[k]? = some sup := hsup
    exact Node.exists_send hsup' _ _

/-- the states that the steps of a process lead to, while the handler waits -/
def Proceeds (k : Nat) (node : Node F) (pid : ProcessId) (p : Phase → Bool) : Prop :=
  ∀ log sup, node.sups[k]? = some sup →
    ∃ next, ((handler k node).startedAt (node, log)).Reach (Within k) (next, log) ∧
      (∃ inbox, next.sups[k]? = some { sup with inbox := inbox }) ∧
      ∃ task, next.tasks.lookup pid = some task ∧ p task.phase = true

theorem Proceeds.step {task' : Task F} {choice : Choice} (htask : node.tasks.lookup pid = some task)
    (hstep : task.step pid node.table choice = some (table, task', report))
    (hrest : ∀ next : Node F, next.table = table → next.tasks.lookup pid = some task' →
      Proceeds k next pid p) : Proceeds k node pid p := by
  intro log sup hsup
  obtain ⟨next, hnext, htable, htask', hsame⟩ := exists_taskStep k node log htask hstep
  obtain ⟨inbox, hsup'⟩ := hsame sup hsup
  obtain ⟨last, hlast, hlater, hp⟩ := hrest next htable htask' log _ hsup'
  refine ⟨last, ?_, hlater, hp⟩
  have hok : Within k (node, log) (.task pid choice) := trivial
  have hstart : ((handler k node).startedAt (node, log)).Reach (Within k) (next, log) :=
    .step (.start rfl) hok hnext
  exact hstart.trans hlast

theorem Proceeds.refl (htask : node.tasks.lookup pid = some task) (hp : p task.phase = true) :
    Proceeds k node pid p :=
  fun _ sup hsup => ⟨node, .start rfl, ⟨sup.inbox, hsup⟩, task, htask, hp⟩

theorem Proceeds.running (htask : node.tasks.lookup pid = some task)
    (hearly : task.phase.handed = false)
    (hrest : ∀ (next : Node F) task', next.tasks.lookup pid = some task' →
      task'.phase = .running false → Proceeds k next pid p) : Proceeds k node pid p := by
  have hcalling : ∀ (node : Node F) task, node.tasks.lookup pid = some task →
      task.phase = .calling → Proceeds k node pid p := by
    intro node task htask hphase
    have hstep : task.step pid node.table .proceed =
        some (node.table, { task with phase := .running false, abortSent := true }, none) := by
      unfold Task.step
      rw [hphase]
    exact .step htask hstep fun next _ ht => hrest next _ ht rfl
  cases hphase : task.phase with
  | naming call =>
    -- the registration ends, by induction on its operations
    generalize htable : node.table = table
    have hends := NameCall.ends table call
    induction hends generalizing node task with
    | @step table call _ ih =>
      have hstep : task.step pid node.table .proceed = some ((call.step node.table).1,
          { task with phase := .named (call.step node.table).2 }, none) := by
        unfold Task.step
        rw [hphase]
      refine .step htask hstep fun next hnext ht => ?_
      rw [htable] at hnext ht
      cases hprogress : (call.step table).2 with
      | next call' =>
        rw [hprogress] at ht
        exact ih call' hprogress ht rfl rfl hnext
      | returned value =>
        rw [hprogress] at ht
        exact hcalling next _ ht rfl
  | calling => exact hcalling node task htask hphase
  | running | done | reporting | leaving | gone =>
    rw [hphase] at hearly
    cases hearly

theorem Proceeds.handed (htask : node.tasks.lookup pid = some task) :
    Proceeds k node pid Phase.handed := by
  cases hhanded : task.phase.handed with
  | true => exact .refl htask hhanded
  | false =>
    refine .running htask hhanded fun next task' ht hphase => .refl ht ?_
    rw [hphase]
    rfl

theorem Proceeds.stopped (htask : node.tasks.lookup pid = some task) :
    Proceeds k node pid Phase.stopped := by
  have hdone : ∀ (node : Node F) task reason, node.tasks.lookup pid = some task →
      task.phase = .done reason → Proceeds k node pid Phase.stopped := by
    intro node task reason htask hphase
    have hstep : task.step pid node.table .proceed =
        some (node.table, { task with phase := .reporting reason }, none) := by
      unfold Task.step
      rw [hphase]
    exact .step htask hstep fun next _ ht => .refl ht rfl
  have hrunning : ∀ (node : Node F) task aborted, node.tasks.lookup pid = some task →
      task.phase = .running aborted → Proceeds k node pid Phase.stopped := by
    intro node task aborted htask hphase
    have hstep : task.step pid node.table (.returns .normal) =
        some (node.table, { task with phase := .done .normal }, none) := by
      unfold Task.step
      rw [hphase]
    exact .step htask hstep fun next _ ht => hdone next _ .normal ht rfl
  cases hphase : task.phase with
  | naming | calling =>
    refine .running htask (by rw [hphase]; rfl) fun next task' ht hphase' => ?_
    exact hrunning next task' false ht hphase'
  | running aborted => exact hrunning node task aborted htask hphase
  | done reason => exact hdone node task reason htask hphase
  | reporting | leaving | gone => exact .refl htask (by rw [hphase]; rfl)

def SupervisorLoop.size (sup : SupervisorLoop F) : Nat :=
  2 * sup.todo.length + if sup.wait.isSome then 1 else 0

theorem Worked.size (hr : Worked sup fresh tasks now r) (hbusy : sup.handled = false) :
    r.1.size < sup.size := by
  unfold SupervisorLoop.size
  cases hr with
  | leaving hwait htodo | received hwait htodo => exact (SupervisorLoop.busy hbusy hwait htodo).elim
  | @spawned _ todo _ hwait htodo | @killing _ todo _ _ hwait htodo
  | @waiting _ todo _ _ _ hwait htodo =>
    rw [hwait, htodo]
    show 2 * todo.length + 1 < 2 * (todo.length + 1) + 0
    omega
  | @reset _ todo _ hwait htodo =>
    rw [hwait, htodo]
    show 2 * todo.length + 0 < 2 * (todo.length + 1) + 0
    omega
  | started hwait | stopped hwait | overrun hwait =>
    rw [hwait]
    simp [SupervisorLoop.record]

theorem SupervisorLoop.can_perform (now : Nanos) (hwait : sup.wait = none) {action : Action}
    {todo : List Action} (htodo : sup.todo = action :: todo)
    (hchild : sup.state.children[action.index]? = some child) :
    ∃ r, sup.work fresh tasks now = some r := by
  unfold SupervisorLoop.work
  rw [hwait, htodo]
  cases action with
  | start index | stop index =>
    refine ⟨_, Option.map_eq_some_iff.mpr ⟨child, hchild, rfl⟩⟩

theorem SupervisorLoop.can_resume {wait : Wait} (hwait : sup.wait = some wait)
    (hchild : sup.state.children[wait.action.index]? = some child)
    (htask : tasks.lookup wait.pid = some task) (hover : match wait with
      | .abortHandle _ _ => task.phase.handed = true
      | .killed _ _ => task.phase.stopped = true
      | .grace _ _ _ deadline => deadline ≤ now) : ∃ r, sup.work fresh tasks now = some r := by
  unfold SupervisorLoop.work
  rw [hwait]
  cases wait with
  | abortHandle index pid | killed index pid =>
    refine ⟨_, Option.bind_eq_some_iff.mpr ⟨task, htask, Option.bind_eq_some_iff.mpr
      ⟨child, hchild, if_pos hover⟩⟩⟩
  | grace index pid abort deadline =>
    by_cases hstopped : task.phase.stopped = true
    · refine ⟨_, Option.bind_eq_some_iff.mpr ⟨task, htask, Option.bind_eq_some_iff.mpr
        ⟨child, hchild, if_pos hstopped⟩⟩⟩
    · refine ⟨_, Option.bind_eq_some_iff.mpr ⟨task, htask, Option.bind_eq_some_iff.mpr
        ⟨child, hchild, (if_neg hstopped).trans (if_pos hover)⟩⟩⟩

theorem exists_workStep (base : Node F) (s : Node F × List Done) (now : Nanos)
    (hsup : s.1.sups[k]? = some sup) (hlife : sup.life = .looping) (hbusy : sup.handled = false)
    (hr : ∃ r, sup.work (Node.spawned s.1.table).2 s.1.tasks now = some r) :
    ∃ s' sup', ((handler k base).startedAt s).Reach (Within k) s' ∧ s'.1.sups[k]? = some sup' ∧
      sup'.size < sup.size := by
  obtain ⟨r, hr⟩ := hr
  have hnext : s.1.next (.work k now) = some (s.1.apply k r.1 r.2) := by
    show s.1.sups[k]?.bind _ = _
    rw [hsup, Option.bind_some, hlife]
    dsimp only
    rw [hr]
    rfl
  have hok : Within k s (.work k now) := by
    intro _ sup' hsup'
    cases hsup.symm.trans hsup'
    exact hbusy
  have hstep : ((handler k base).startedAt s).next s (.work k now) = some (s.1.apply k r.1 r.2,
      s.2 ++ s.1.completes (s.1.apply k r.1 r.2) k (.work k now)) := by
    show (s.1.next (.work k now)).map _ = _
    rw [hnext]
    rfl
  exact ⟨_, r.1, .step (.start rfl) hok hstep, Node.sups_apply hsup r, (work_cases hr).size hbusy⟩

/-- **From every state of a handler, some continuation completes it** -/
theorem exists_handled (hsup : node.sups[k]? = some sup) (hlife : sup.life = .looping)
    (hwait : sup.wait = none)
    (hbound : ∀ action ∈ sup.todo, ∃ entry, sup.state.entryAt action.index = some entry)
    (hbacked : Backed sup node.tasks) (h : (handler k node).Reach (Within k) s) :
    ∃ s' sup', ((handler k node).startedAt s).Reach (Within k) s' ∧ s'.1.sups[k]? = some sup' ∧
      sup'.handled = true := by
  obtain ⟨sup₁, hsup₁, -⟩ := carried_of_reach hsup hlife hwait h
  generalize hn : sup₁.size = n
  induction n using Nat.strong_induction_on generalizing s sup₁ with
  | _ n ih =>
    obtain ⟨sup', hsup', hlife', -, -, hcarried, hbacked'⟩ := carried_of_reach hsup hlife hwait h
    cases hsup₁.symm.trans hsup'
    replace hbacked' := hbacked' hbacked
    cases hhandled : sup₁.handled with
    | true => exact ⟨s, sup₁, .start rfl, hsup₁, hhandled⟩
    | false =>
      -- it is enough to get closer to the end
      suffices hcloser : ∃ s' sup', ((handler k node).startedAt s).Reach (Within k) s' ∧
          s'.1.sups[k]? = some sup' ∧ sup'.size < sup₁.size by
        obtain ⟨s', sup', hreach, hs', hlt⟩ := hcloser
        obtain ⟨last, sup'', hlast, hrest⟩ := ih _ (hn ▸ hlt) (h.trans hreach) sup' hs' rfl
        exact ⟨last, sup'', hreach.trans hlast, hrest⟩
      have hchild : ∀ action ∈ sup₁.pending,
          ∃ child, sup₁.state.children[action.index]? = some child := by
        intro action hmem
        obtain ⟨entry, hentry⟩ := hbound action (by
          rw [← hcarried.plan]
          exact List.mem_append_right _ hmem)
        rw [← hcarried.entries] at hentry
        obtain ⟨child, hchild, -⟩ := Option.map_eq_some_iff.mp hentry
        exact ⟨child, hchild⟩
      cases hw : sup₁.wait with
      | none =>
        cases htodo : sup₁.todo with
        | nil => exact (SupervisorLoop.busy hhandled hw htodo).elim
        | cons action todo =>
          obtain ⟨child, hchild⟩ := hchild action (by simp [SupervisorLoop.pending, htodo])
          exact exists_workStep node s 0 hsup₁ hlife' hhandled
            (can_perform 0 hw htodo hchild)
      | some wait =>
        obtain ⟨child, hchild⟩ := hchild wait.action (by simp [SupervisorLoop.pending, hw])
        obtain ⟨task, htask⟩ := hbacked'.wait hw
        cases wait with
        | grace index pid abort deadline =>
          exact exists_workStep node s deadline hsup₁ hlife' hhandled
            (can_resume hw hchild htask (Nat.le_refl deadline))
        | abortHandle index pid =>
          obtain ⟨next, hreach, ⟨inbox, hnext⟩, task', htask', hover⟩ :=
            Proceeds.handed htask s.2 sup₁ hsup₁
          obtain ⟨s', sup', hreach', hrest⟩ := exists_workStep node (next, s.2) 0 hnext hlife' hhandled
            (can_resume hw hchild htask' hover)
          exact ⟨s', sup', hreach.trans hreach', hrest⟩
        | killed index pid =>
          obtain ⟨next, hreach, ⟨inbox, hnext⟩, task', htask', hover⟩ :=
            Proceeds.stopped htask s.2 sup₁ hsup₁
          obtain ⟨s', sup', hreach', hrest⟩ := exists_workStep node (next, s.2) 0 hnext hlife' hhandled
            (can_resume hw hchild htask' hover)
          exact ⟨s', sup', hreach.trans hreach', hrest⟩

/-! ## the theorem -/

theorem SupervisorState.Decided.bound {escalated : Bool}
    (h : state.Decided index pid reason now (state₀, todo₀, escalated)) :
    ∀ action ∈ todo₀, ∃ entry, state₀.entryAt action.index = some entry := by
  have hentry : ∀ {i}, i < state₀.children.length → ∃ entry, state₀.entryAt i = some entry := by
    intro i hi
    exact ⟨_, Option.map_eq_some_iff.mpr ⟨_, List.getElem?_eq_getElem hi, rfl⟩⟩
  cases h with
  | ignored | cleared => nofun
  | restarts hchild _ _ _ hchildren hplan hstarts hstops =>
    have hlt : ∀ {i}, state.InGroup index i → i < state₀.children.length := by
      intro i hi
      rw [hchildren]
      show i < (state.children.set _ _).length
      rw [List.length_set]
      exact hi.lt (List.getElem?_eq_some_iff.mp hchild).1
    intro action hmem
    rw [hplan.todo] at hmem
    rcases List.mem_append.mp hmem with hmem | hmem
    · obtain ⟨i, hi, rfl⟩ := List.mem_map.mp hmem
      exact hentry (hlt ((hstops i).mp hi).2)
    · obtain ⟨i, hi, rfl⟩ := List.mem_map.mp hmem
      exact hentry (hlt ((hstarts i).mp hi))
  | gaveUp _ _ _ _ _ hplan hstops =>
    intro action hmem
    rw [hplan.todo, List.map_nil, List.append_nil] at hmem
    obtain ⟨i, hi, rfl⟩ := List.mem_map.mp hmem
    exact hentry (lt_of_recorded ((hstops i).mp hi))

theorem SupervisorState.Decided.handles {escalated : Bool}
    (h : state.Decided index pid reason now (state₀, todo₀, escalated)) {i : Nat} {c : ChildState F}
    {p : ProcessId} (hc : state₀.children[i]? = some c) (hdone : c.doneRx = some p) :
    state.children[i]? = some c := by
  have hcleared : ∀ {child : ChildState F}, state.children[index]? = some child →
      state₀.children = (state.setChild index child.cleared).children →
      state.children[i]? = some c := by
    intro child hchild hchildren
    rw [hchildren, children_setChild hchild] at hc
    split at hc
    next =>
      cases hc
      cases hdone
    next => exact hc
  cases h with
  | ignored => exact hc
  | cleared hchild => exact hcleared hchild rfl
  | restarts hchild _ _ _ hchildren | gaveUp hchild _ _ _ hchildren => exact hcleared hchild hchildren

theorem Staffed.backed (h : Staffed node) (hsup : node.sups[k]? = some sup)
    (hwait : sup.wait = none) : Backed sup node.tasks := by
  obtain ⟨stops, starts, ho⟩ := h.orderly hsup
  refine ⟨fun {i child p} hchild hdone => ?_, fun hw => ?_⟩
  · have hpid := (ho.handles hchild).resolve_right (not_stopping hwait i)
    have hcur : sup.state.current i = some p :=
      Option.bind_eq_some_iff.mpr ⟨child, hchild, hpid.symm.trans hdone⟩
    obtain ⟨t, ht, -⟩ := h.held hsup (Or.inl hcur)
    exact ⟨t, ht⟩
  · cases hwait.symm.trans hw

/-- **The handling of an exit refines the reference**, for any children, strategy, child, process and
reason: the supervisor takes the message and makes its calls, while everything else goes on; when the
handler is over, its state and its calls are those of the reference, and from every state on the way
some continuation gets there. -/
theorem exit_refines {pid : ProcessId} {reason : ExitReason} {inbox : List (SupervisorMsg F)}
    (hsup : node.sups[k]? = some sup) (hlife : sup.life = .looping) (hwait : sup.wait = none)
    (htodo : sup.todo = []) (hending : sup.ending = none)
    (hinbox : sup.inbox = .childExited index pid reason :: inbox) (now : Nanos) :
    ∃ mid, node.next (.work k now) = some mid ∧
      (∀ last log sup', (handler k mid).Reach (Within k) (last, log) →
        last.sups[k]? = some sup' → sup'.handled = true →
        Reference sup.state index pid reason (sup.state.checkRestartLimit now).2
          (·.localId < node.table.nextId) sup'.state log (sup'.ending == some true)) ∧
      (Backed sup node.tasks → ∀ s, (handler k mid).Reach (Within k) s →
        ∃ s' sup', ((handler k mid).startedAt s).Reach (Within k) s' ∧
          s'.1.sups[k]? = some sup' ∧ sup'.handled = true) := by
  have hdecided := sup.state.handleChildExit_decided index pid reason now
  obtain ⟨⟨state₀, todo₀, escalated⟩, hdecision⟩ :
    ∃ decision, sup.state.handleChildExit index pid reason now = decision := ⟨_, rfl⟩
  rw [hdecision] at hdecided
  let sup₀ : SupervisorLoop F := { sup with
    state := state₀, wait := none, todo := todo₀, inbox := inbox
    ending := if escalated then some true else none }
  have hnext : node.next (.work k now) = some (node.apply k sup₀ .nothing) := by
    show node.sups[k]?.bind _ = _
    rw [hsup, Option.bind_some, hlife]
    dsimp only
    rw [SupervisorLoop.work, hwait, htodo, hending, hinbox]
    dsimp only [SupervisorLoop.receive]
    rw [hdecision]
    rfl
  have hsup₀ : (node.apply k sup₀ .nothing).sups[k]? = some sup₀ :=
    Node.sups_apply hsup (sup₀, .nothing)
  refine ⟨_, hnext, fun last log sup' hreach hlast hhandled => ?_, fun hbacked s hreach => ?_⟩
  · obtain ⟨s', hs', -, hending', -, hcarried, -⟩ := carried_of_reach hsup₀ hlife rfl hreach
    cases hs'.symm.trans hlast
    have href := hcarried.reference hhandled hdecided
    have hesc : (sup'.ending == some true) = escalated := by
      rw [hending']
      cases escalated <;> rfl
    rw [hesc]
    exact href
  · refine exists_handled hsup₀ hlife rfl hdecided.bound ⟨fun hc hdone => ?_, nofun⟩ hreach
    exact hbacked.handles (hdecided.handles hc hdone) hdone

end

/-! ## a group restart -/

/-- two children that are restarted together have been started, and the first has crashed -/
private def crash : List (Event Unit) :=
  List.flatten [[.supervises .oneForAll ["first", "second"]], Event.hires ⟨1, 2⟩,
    Event.hires ⟨1, 3⟩, Event.exits ⟨1, 2⟩ .panics]

private def crashed : Node Unit := ((machine Unit).run (Node.new 1) crash).getD (.new 1)

private def informed : SupervisorLoop Unit :=
  (crashed.sups[0]?).getD (.new ⟨1, 1⟩ (.new .oneForAll) [])

/-- the second child is stopped, then both are started as new processes -/
theorem exit_refines_crash : ∃ (node mid last : Node Unit) (sup sup' : SupervisorLoop Unit),
    node.sups[0]? = some sup ∧ sup.inbox = [.childExited 0 ⟨1, 2⟩ (.abnormal "panic")] ∧
    node.next (.work 0 0) = some mid ∧ last.sups[0]? = some sup' ∧ sup'.handled = true ∧
    Reference sup.state 0 ⟨1, 2⟩ (.abnormal "panic") true (·.localId < 4) sup'.state
      [.stopped 1, .started 0 ⟨1, 4⟩, .started 1 ⟨1, 5⟩] false ∧
    ∀ s, (handler 0 mid).Reach (Within 0) s → ∃ s' sup'',
      ((handler 0 mid).startedAt s).Reach (Within 0) s' ∧ s'.1.sups[0]? = some sup'' ∧
        sup''.handled = true := by
  have hrun : (machine Unit).run (Node.new 1) crash = some crashed := rfl
  have hstart : (machine Unit).Reach Machine.Anytime (Node.new 1) := .start ⟨1, rfl⟩
  have hreach := hstart.run (fun _ _ _ => trivial) hrun
  have hsup : crashed.sups[0]? = some informed := rfl
  have hrest : ∃ mid ∈ crashed.next (.work 0 0), ∃ s ∈ (handler 0 mid).checked (Within 0) (mid, [])
      [.work 0 0, .task ⟨1, 3⟩ (.returns .normal), .task ⟨1, 3⟩ .proceed, .work 0 0, .work 0 0,
        .task ⟨1, 4⟩ .proceed, .work 0 0, .work 0 0, .task ⟨1, 5⟩ .proceed, .work 0 0],
      s.2 = [.stopped 1, .started 0 ⟨1, 4⟩, .started 1 ⟨1, 5⟩] ∧
        ∃ sup, s.1.sups[0]? = some sup ∧ sup.handled = true ∧ (sup.ending == some true) = false := by
    decide
  obtain ⟨mid, hmid, ⟨last, log⟩, hlast, rfl, sup', hsup', hhandled, hending⟩ := hrest
  obtain ⟨_, hnext, href, hends⟩ := exit_refines hsup rfl rfl rfl rfl
    (show informed.inbox = .childExited 0 ⟨1, 2⟩ (.abnormal "panic") :: [] from rfl) 0
  cases hnext.symm.trans hmid
  have hreference := href last _ sup' ((Machine.Reach.start rfl).of_checked hlast) hsup' hhandled
  rw [hending] at hreference
  exact ⟨crashed, mid, last, informed, sup', hsup, rfl, hnext, hsup', hhandled, hreference,
    hends ((staffed_of_reach hreach).backed hsup rfl)⟩

end Rebar.Supervisor

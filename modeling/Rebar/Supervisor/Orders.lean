import Mathlib.Data.List.Range
import Rebar.Supervisor.Phases

/-!
# The calls of a handler

A handler of the supervisor loop first decides which children to stop and which to start, and then
makes these calls one after another.

* `Plan`                   stops in falling order, then starts in rising order;
* `Received`, `Worked`     what the handling of a message and a step of the loop can do;
* `Orderly`                the invariant of the loop.
-/

namespace Rebar.Supervisor

open Process

variable {F : Type}

/-! ## plans -/

structure Plan (todo : List Action) (stops starts : List Nat) : Prop where
  todo : todo = stops.map .stop ++ starts.map .start
  falling : stops.Pairwise (· > ·)
  rising : starts.Pairwise (· < ·)

section
variable {todo : List Action} {stops starts : List Nat} {i : Nat}

theorem Plan.nil : Plan [] [] [] := ⟨rfl, .nil, .nil⟩

theorem Plan.eq_nil (h : Plan [] stops starts) : stops = [] ∧ starts = [] := by
  obtain ⟨hs, ht⟩ := List.append_eq_nil_iff.mp h.todo.symm
  exact ⟨List.map_eq_nil_iff.mp hs, List.map_eq_nil_iff.mp ht⟩

theorem Plan.of_stop (h : Plan (.stop i :: todo) stops starts) :
    ∃ rest, stops = i :: rest ∧ i ∉ rest ∧ Plan todo rest starts := by
  obtain ⟨htodo, hfall, hrise⟩ := h
  cases stops with
  | nil =>
    cases starts with
    | nil => cases htodo
    | cons j rest => cases htodo
  | cons j rest =>
    obtain ⟨hj, hrest⟩ := List.cons.inj htodo
    cases hj
    obtain ⟨hlt, hfall⟩ := List.pairwise_cons.mp hfall
    exact ⟨rest, rfl, fun hi => Nat.lt_irrefl i (hlt i hi), hrest, hfall, hrise⟩

theorem Plan.of_start (h : Plan (.start i :: todo) stops starts) :
    stops = [] ∧ ∃ rest, starts = i :: rest ∧ i ∉ rest ∧ Plan todo [] rest := by
  obtain ⟨htodo, -, hrise⟩ := h
  cases stops with
  | cons j rest => cases htodo
  | nil =>
    refine ⟨rfl, ?_⟩
    cases starts with
    | nil => cases htodo
    | cons j rest =>
      obtain ⟨hj, hrest⟩ := List.cons.inj htodo
      cases hj
      obtain ⟨hlt, hrise⟩ := List.pairwise_cons.mp hrise
      exact ⟨rest, rfl, fun hi => Nat.lt_irrefl i (hlt i hi), hrest, .nil, hrise⟩

theorem Plan.start_mem (h : Plan todo stops starts) : .start i ∈ todo ↔ i ∈ starts := by
  rw [h.todo]
  simp

end

namespace SupervisorState
variable {state : SupervisorState F} {index i : Nat}

def current (state : SupervisorState F) (i : Nat) : Option ProcessId :=
  state.children[i]?.bind (·.pid)

theorem recorded_iff : state.recorded i = true ↔ ∃ pid, state.current i = some pid :=
  Option.isSome_iff_exists

theorem not_recorded_iff : state.recorded i = false ↔ state.current i = none := by
  rw [← Option.isNone_iff_eq_none, ← Option.not_isSome]
  simp [recorded, current]

theorem lt_of_recorded (h : state.recorded i = true) : i < state.children.length := by
  obtain ⟨pid, hpid⟩ := recorded_iff.mp h
  obtain ⟨child, hchild, -⟩ := Option.bind_eq_some_iff.mp hpid
  exact (List.getElem?_eq_some_iff.mp hchild).1

variable {old : ChildState F} {entry : ChildEntry F}

theorem children_setChild {child : ChildState F} (hold : state.children[index]? = some old) :
    (state.setChild index child).children[i]? =
      if i = index then some child else state.children[i]? := by
  have hlt := (List.getElem?_eq_some_iff.mp hold).1
  unfold setChild
  dsimp only
  rw [List.getElem?_set]
  by_cases hi : i = index
  · rw [if_pos hi.symm, if_pos (hi ▸ hlt), if_pos hi]
  · rw [if_neg (Ne.symm hi), if_neg hi]

theorem of_setChild {child c : ChildState F} (hold : state.children[index]? = some old)
    (hc : (state.setChild index child).children[i]? = some c) :
    i = index ∧ child = c ∨ i ≠ index ∧ state.children[i]? = some c := by
  rw [children_setChild hold] at hc
  split at hc
  next heq => exact .inl ⟨heq, Option.some.inj hc⟩
  next hne => exact .inr ⟨hne, hc⟩

theorem length_setChild (child : ChildState F) :
    (state.setChild index child).children.length = state.children.length :=
  List.length_set

theorem current_setChild {child : ChildState F} (hold : state.children[index]? = some old) :
    (state.setChild index child).current i = if i = index then child.pid else state.current i := by
  unfold current
  rw [children_setChild hold]
  split <;> rfl

theorem recorded_setChild {child : ChildState F} (hold : state.children[index]? = some old)
    (hne : i ≠ index) : (state.setChild index child).recorded i = state.recorded i := by
  unfold recorded
  rw [children_setChild hold, if_neg hne]

def entryAt (state : SupervisorState F) (i : Nat) : Option (ChildEntry F) :=
  state.children[i]?.map (·.toChildEntry)

theorem lt_of_entryAt (h : state.entryAt i = some entry) : i < state.children.length := by
  obtain ⟨child, hchild, -⟩ := Option.map_eq_some_iff.mp h
  exact (List.getElem?_eq_some_iff.mp hchild).1

theorem entryAt_set (hold : state.children[index]? = some old) (child : ChildState F)
    (hentry : child.toChildEntry = old.toChildEntry) :
    (state.setChild index child).entryAt i = state.entryAt i := by
  unfold entryAt
  rw [children_setChild hold]
  split
  next heq =>
    rw [heq, hold]
    exact congrArg some hentry
  next => rfl

theorem entryAt_setChild {child : ChildState F} (h : state.entryAt i = some entry)
    (hold : state.children[index]? = some old) (hentry : child.toChildEntry = old.toChildEntry) :
    (state.setChild index child).entryAt i = some entry :=
  (entryAt_set hold child hentry).trans h

/-- the children that are restarted with the child `index` -/
def InGroup (state : SupervisorState F) (index i : Nat) : Prop :=
  i = index ∨ match state.strategy with
    | .oneForOne => False
    | .oneForAll => state.recorded i = true
    | .restForOne => index < i ∧ state.recorded i = true

theorem InGroup.recorded (h : state.InGroup index i) (hne : i ≠ index) :
    state.recorded i = true := by
  have h' := h.resolve_left hne
  split at h'
  · cases h'
  · exact h'
  · exact h'.2

theorem InGroup.lt (h : state.InGroup index i) (hindex : index < state.children.length) :
    i < state.children.length := by
  by_cases hi : i = index
  · rw [hi]
    exact hindex
  · exact lt_of_recorded (h.recorded hi)

theorem shutdownAllChildren_plan (state : SupervisorState F) :
    ∃ stops, Plan state.shutdownAllChildren stops [] ∧ ∀ i, i ∈ stops ↔ state.recorded i = true := by
  refine ⟨(List.range state.children.length).reverse.filter state.recorded, ⟨?_, ?_, .nil⟩, ?_⟩
  · exact (List.append_nil _).symm
  · exact (List.pairwise_reverse.mpr List.pairwise_lt_range).filter _
  · intro i
    rw [List.mem_filter, List.mem_reverse, List.mem_range]
    exact ⟨And.right, fun h => ⟨lt_of_recorded h, h⟩⟩

/-- **A strategy first stops the running children of the group, then starts the group** -/
theorem applyStrategy_plan (hindex : index < state.children.length)
    (hcleared : state.recorded index = false) :
    ∃ stops starts, Plan (state.applyStrategy index) stops starts ∧
      (∀ i, i ∈ starts ↔ state.InGroup index i) ∧
      ∀ i, i ∈ stops ↔ state.InGroup index i ∧ state.recorded i = true := by
  have hne : ∀ {i}, state.recorded i = true → i ≠ index := by
    rintro i hi rfl
    rw [hcleared] at hi
    cases hi
  unfold applyStrategy InGroup
  cases state.strategy with
  | oneForOne =>
    refine ⟨[], [index], ⟨rfl, .nil, List.pairwise_singleton _ _⟩, fun i => by simp, fun i => ?_⟩
    refine ⟨nofun, fun ⟨hi, hrec⟩ => ?_⟩
    exact absurd (hi.resolve_right id) (hne hrec)
  | oneForAll =>
    refine ⟨_, _, ⟨rfl, (List.pairwise_reverse.mpr List.pairwise_lt_range).filter _,
      List.pairwise_lt_range.filter _⟩, fun i => ?_, fun i => ?_⟩
    · rw [List.mem_filter, List.mem_range, Bool.or_eq_true, beq_iff_eq]
      refine ⟨And.right, fun h => ⟨?_, h⟩⟩
      rcases h with rfl | h
      · exact hindex
      · exact lt_of_recorded h
    · rw [List.mem_filter, List.mem_reverse, List.mem_range, Bool.and_eq_true, bne_iff_ne]
      exact ⟨fun h => ⟨Or.inr h.2.2, h.2.2⟩, fun h => ⟨lt_of_recorded h.2, hne h.2, h.2⟩⟩
  | restForOne =>
    have hrange : ∀ s n, (List.range' s n).Pairwise (· < ·) := fun s n => List.pairwise_lt_range'
    refine ⟨_, _, ⟨rfl, (List.pairwise_reverse.mpr (hrange _ _)).filter _,
      (hrange _ _).filter _⟩, fun i => ?_, fun i => ?_⟩
    · rw [List.mem_filter, List.mem_range'_1, Bool.or_eq_true, beq_iff_eq]
      refine ⟨fun ⟨hi, h⟩ => ?_, fun h => ?_⟩
      · rcases h with h | h
        · exact Or.inl h
        · exact Or.inr ⟨Nat.lt_of_le_of_ne hi.1 (hne h).symm, h⟩
      · rcases h with rfl | ⟨hlt, h⟩
        · exact ⟨⟨Nat.le_refl _, by omega⟩, Or.inl rfl⟩
        · have := lt_of_recorded h
          exact ⟨⟨Nat.le_of_lt hlt, by omega⟩, Or.inr h⟩
    · rw [List.mem_filter, List.mem_reverse, List.mem_range'_1]
      refine ⟨fun ⟨hi, h⟩ => ⟨Or.inr ⟨hi.1, h⟩, h⟩, fun ⟨hi, h⟩ => ⟨?_, h⟩⟩
      rcases hi with hi | ⟨hlt, -⟩
      · exact absurd hi (hne h)
      · have := lt_of_recorded h
        exact ⟨hlt, by omega⟩

/-- the state in which a restart is decided, and whether the limiter allows it -/
def judged (state : SupervisorState F) (index : Nat) (child : ChildState F) (now : Nanos) :
    SupervisorState F × Bool :=
  (state.setChild index child.cleared).checkRestartLimit now

theorem judged_same (state : SupervisorState F) (index : Nat) (child : ChildState F)
    (now : Nanos) :
    (state.judged index child now).1.children = state.children.set index child.cleared ∧
      (state.judged index child now).1.strategy = state.strategy ∧
      (state.judged index child now).2 = (state.checkRestartLimit now).2 := by
  unfold judged checkRestartLimit setChild
  by_cases hzero : state.maxRestarts = 0
  · simp [hzero]
  · simp [hzero]

variable {state' : SupervisorState F} {child : ChildState F}

theorem recorded_cleared (hchild : state.children[index]? = some child)
    (hchildren : state'.children = (state.setChild index child.cleared).children) (i : Nat) :
    state'.recorded i = true ↔ i ≠ index ∧ state.recorded i = true := by
  have hcur : state'.current i = if i = index then none else state.current i := by
    rw [current, hchildren]
    exact current_setChild hchild
  rw [recorded_iff, recorded_iff, hcur]
  split
  next heq => simp [heq]
  next hne => simp [hne]

theorem inGroup_cleared (hchild : state.children[index]? = some child)
    (hchildren : state'.children = (state.setChild index child.cleared).children)
    (hstrategy : state'.strategy = state.strategy) (i : Nat) :
    state'.InGroup index i ↔ state.InGroup index i := by
  unfold InGroup
  rw [hstrategy, recorded_cleared hchild hchildren]
  by_cases hi : i = index
  · simp [hi]
  · simp [hi]

/-- what the handling of an exit decides: the new state, the calls, and whether to give up -/
inductive Decided (state : SupervisorState F) (index : Nat) (pid : ProcessId)
    (reason : ExitReason) (now : Nanos) : SupervisorState F × List Action × Bool → Prop where
  | ignored (hother : state.current index ≠ some pid) :
      Decided state index pid reason now (state, [], false)
  | cleared {child : ChildState F} (hchild : state.children[index]? = some child)
      (hpid : child.pid = some pid) (hno : child.spec.restart.shouldRestart reason = false) :
      Decided state index pid reason now (state.setChild index child.cleared, [], false)
  | restarts {child : ChildState F} {state' : SupervisorState F} {todo : List Action}
      {stops starts : List Nat} (hchild : state.children[index]? = some child)
      (hpid : child.pid = some pid) (hyes : child.spec.restart.shouldRestart reason = true)
      (hlimit : (state.checkRestartLimit now).2 = true)
      (hchildren : state'.children = (state.setChild index child.cleared).children)
      (hplan : Plan todo stops starts) (hstarts : ∀ i, i ∈ starts ↔ state.InGroup index i)
      (hstops : ∀ i, i ∈ stops ↔ i ≠ index ∧ state.InGroup index i) :
      Decided state index pid reason now (state', todo, false)
  | gaveUp {child : ChildState F} {state' : SupervisorState F} {todo : List Action}
      {stops : List Nat} (hchild : state.children[index]? = some child)
      (hpid : child.pid = some pid) (hyes : child.spec.restart.shouldRestart reason = true)
      (hlimit : (state.checkRestartLimit now).2 = false)
      (hchildren : state'.children = (state.setChild index child.cleared).children)
      (hplan : Plan todo stops []) (hstops : ∀ i, i ∈ stops ↔ state'.recorded i = true) :
      Decided state index pid reason now (state', todo, true)

/-- **What the handling of an exit decides** -/
theorem handleChildExit_decided (state : SupervisorState F) (index : Nat) (pid : ProcessId)
    (reason : ExitReason) (now : Nanos) :
    Decided state index pid reason now (state.handleChildExit index pid reason now) := by
  unfold handleChildExit
  cases hchild : state.children[index]? with
  | none =>
    refine .ignored fun hcur => ?_
    rw [current, hchild] at hcur
    cases hcur
  | some child =>
    dsimp only
    split
    next hother =>
      refine .ignored fun hcur => ?_
      rw [current, hchild] at hcur
      exact hother hcur
    next hpid =>
      replace hpid : child.pid = some pid := not_not.mp hpid
      split
      next hno => exact .cleared hchild hpid hno
      next hyes =>
        replace hyes : child.spec.restart.shouldRestart reason = true :=
          Bool.eq_true_of_not_eq_false hyes
        obtain ⟨hchildren, hstrategy, hlimit⟩ := state.judged_same index child now
        obtain ⟨state', allowed, hjudged⟩ :
            ∃ state' allowed, state.judged index child now = (state', allowed) := ⟨_, _, rfl⟩
        rw [hjudged] at hchildren hstrategy hlimit
        rw [judged] at hjudged
        rw [hjudged]
        have hrecorded := recorded_cleared hchild hchildren
        cases allowed with
        | false =>
          obtain ⟨stops, hplan, hstops⟩ := state'.shutdownAllChildren_plan
          exact .gaveUp hchild hpid hyes hlimit.symm hchildren hplan hstops
        | true =>
          have hlt : index < state'.children.length := by
            rw [hchildren, List.length_set]
            exact (List.getElem?_eq_some_iff.mp hchild).1
          have hcleared : state'.recorded index = false :=
            Bool.eq_false_iff.mpr fun hrec => ((hrecorded index).mp hrec).1 rfl
          obtain ⟨stops, starts, hplan, hstarts, hstops⟩ := applyStrategy_plan hlt hcleared
          have hgroup := inGroup_cleared hchild hchildren hstrategy
          refine .restarts hchild hpid hyes hlimit.symm hchildren hplan (fun i => ?_) fun i => ?_
          · rw [hstarts, hgroup]
          · rw [hstops, hgroup, hrecorded]
            exact ⟨fun h => ⟨h.2.1, h.1⟩, fun h => ⟨h.2, h.1, h.2.recorded h.1⟩⟩

end SupervisorState

/-! ## messages -/

inductive Received (sup : SupervisorLoop F) : SupervisorMsg F → SupervisorLoop F → Prop where
  | ignored {index : Nat} {pid : ProcessId} {reason : ExitReason}
      (hother : sup.state.current index ≠ some pid) :
      Received sup (.childExited index pid reason) sup
  | cleared {index : Nat} {pid : ProcessId} {reason : ExitReason} {child : ChildState F}
      (hchild : sup.state.children[index]? = some child) (hpid : child.pid = some pid)
      (hno : child.spec.restart.shouldRestart reason = false) :
      Received sup (.childExited index pid reason)
        { sup with state := sup.state.setChild index child.cleared }
  | restarts {index : Nat} {pid : ProcessId} {reason : ExitReason} {child : ChildState F}
      {state : SupervisorState F} {todo : List Action} {stops starts : List Nat}
      (hchild : sup.state.children[index]? = some child) (hpid : child.pid = some pid)
      (hyes : child.spec.restart.shouldRestart reason = true)
      (hchildren : state.children = (sup.state.setChild index child.cleared).children)
      (hplan : Plan todo stops starts) (hstarts : ∀ i, i ∈ starts ↔ sup.state.InGroup index i)
      (hstops : ∀ i, i ∈ stops ↔ i ≠ index ∧ sup.state.InGroup index i) :
      Received sup (.childExited index pid reason) { sup with state := state, todo := todo }
  | gaveUp {index : Nat} {pid : ProcessId} {reason : ExitReason} {child : ChildState F}
      {state : SupervisorState F} {todo : List Action} {stops : List Nat}
      (hchild : sup.state.children[index]? = some child) (hpid : child.pid = some pid)
      (hyes : child.spec.restart.shouldRestart reason = true)
      (hchildren : state.children = (sup.state.setChild index child.cleared).children)
      (hplan : Plan todo stops []) (hstops : ∀ i, i ∈ stops ↔ state.recorded i = true) :
      Received sup (.childExited index pid reason)
        { sup with state := state, todo := todo, ending := some true }
  | added {msg : SupervisorMsg F} (entries : List (ChildEntry F))
      (hexit : ∀ index pid reason, msg ≠ .childExited index pid reason) :
      Received sup msg (sup.addEntries entries)
  | shutdown {todo : List Action} {stops : List Nat} (hplan : Plan todo stops [])
      (hstops : ∀ i, i ∈ stops ↔ sup.state.recorded i = true) :
      Received sup .shutdown { sup with todo := todo, ending := some false }

/-- **What the handling of a message decides** -/
theorem receive_cases (sup : SupervisorLoop F) (htodo : sup.todo = []) (hending : sup.ending = none)
    (now : Nanos) (msg : SupervisorMsg F) : Received sup msg (sup.receive now msg) := by
  obtain ⟨pid, state, wait, todo, ending, inbox, life⟩ := sup
  cases htodo
  cases hending
  cases msg with
  | addChild entry => exact .added [entry] nofun
  | addChildren entries => exact .added entries nofun
  | shutdown =>
    obtain ⟨stops, hplan, hstops⟩ := state.shutdownAllChildren_plan
    exact .shutdown hplan hstops
  | childExited index p reason =>
    unfold SupervisorLoop.receive
    have hdecided := state.handleChildExit_decided index p reason now
    revert hdecided
    dsimp only
    generalize state.handleChildExit index p reason now = decision
    intro hdecided
    cases hdecided with
    | ignored hother => exact .ignored hother
    | cleared hchild hpid hno => exact .cleared hchild hpid hno
    | restarts hchild hpid hyes _ hchildren hplan hstarts hstops =>
      exact .restarts hchild hpid hyes hchildren hplan hstarts hstops
    | gaveUp hchild hpid hyes _ hchildren hplan hstops =>
      exact .gaveUp hchild hpid hyes hchildren hplan hstops

/-! ## the steps of the loop -/

def Wait.stops : Wait → Option (Nat × ProcessId)
  | .abortHandle _ _ => none
  | .killed index pid => some (index, pid)
  | .grace index pid _ _ => some (index, pid)

def ChildState.taken (child : ChildState F) : ChildState F :=
  { child with abort := none, doneRx := none }

inductive Worked (sup : SupervisorLoop F) (fresh : ProcessId)
    (tasks : HashMap ProcessId (Task F)) (now : Nanos) : SupervisorLoop F × Effect F → Prop where
  | spawned {index : Nat} {todo : List Action} {child : ChildState F} (hwait : sup.wait = none)
      (htodo : sup.todo = .start index :: todo) (hchild : sup.state.children[index]? = some child) :
      Worked sup fresh tasks now
        ({ sup with todo := todo, wait := some (.abortHandle index fresh) },
          .spawn index child.toChildEntry)
  | started {index : Nat} {pid : ProcessId} {task : Task F} {child : ChildState F}
      (hwait : sup.wait = some (.abortHandle index pid)) (htask : tasks.lookup pid = some task)
      (hchild : sup.state.children[index]? = some child) (hhanded : task.phase.handed = true) :
      Worked sup fresh tasks now
        (sup.record index { child with
          pid := some pid
          abort := if task.abortSent then some pid else none
          doneRx := some pid }, .nothing)
  | killing {index : Nat} {todo : List Action} {child : ChildState F} {pid : ProcessId}
      (hwait : sup.wait = none) (htodo : sup.todo = .stop index :: todo)
      (hchild : sup.state.children[index]? = some child) (hdone : child.doneRx = some pid) :
      Worked sup fresh tasks now
        ({ { sup with todo := todo }.record index child.taken with
          wait := some (.killed index pid) }, .abort child.abort)
  | waiting {index : Nat} {todo : List Action} {child : ChildState F} {pid : ProcessId}
      {deadline : Nanos} (hwait : sup.wait = none) (htodo : sup.todo = .stop index :: todo)
      (hchild : sup.state.children[index]? = some child) (hdone : child.doneRx = some pid) :
      Worked sup fresh tasks now
        ({ { sup with todo := todo }.record index child.taken with
          wait := some (.grace index pid child.abort deadline) }, .nothing)
  | reset {index : Nat} {todo : List Action} {child : ChildState F} (hwait : sup.wait = none)
      (htodo : sup.todo = .stop index :: todo) (hchild : sup.state.children[index]? = some child)
      (hdone : child.doneRx = none) :
      Worked sup fresh tasks now
        ({ sup with todo := todo }.record index { child.taken with pid := none },
          .abort child.abort)
  | stopped {wait : Wait} {index : Nat} {pid : ProcessId} {task : Task F} {child : ChildState F}
      (hwait : sup.wait = some wait) (hstops : wait.stops = some (index, pid))
      (htask : tasks.lookup pid = some task) (hchild : sup.state.children[index]? = some child)
      (hstopped : task.phase.stopped = true) :
      Worked sup fresh tasks now (sup.record index { child with pid := none }, .nothing)
  | overrun {index : Nat} {pid : ProcessId} {abort : Option ProcessId} {deadline : Nanos}
      {task : Task F} {child : ChildState F}
      (hwait : sup.wait = some (.grace index pid abort deadline))
      (htask : tasks.lookup pid = some task) (hchild : sup.state.children[index]? = some child)
      (hstopped : task.phase.stopped = false) (hlate : deadline ≤ now) :
      Worked sup fresh tasks now (sup.record index { child with pid := none }, .abort abort)
  | leaving {escalated : Bool} (hwait : sup.wait = none) (htodo : sup.todo = [])
      (hending : sup.ending = some escalated) :
      Worked sup fresh tasks now
        ({ sup with life := .leaving (cleanupProcess sup.pid) }, .nothing)
  | received {msg : SupervisorMsg F} {inbox : List (SupervisorMsg F)} {sup' : SupervisorLoop F}
      (hwait : sup.wait = none) (htodo : sup.todo = []) (hending : sup.ending = none)
      (hinbox : sup.inbox = msg :: inbox) (hsup' : sup' = { sup with inbox := inbox }.receive now msg)
      (hreceived : Received { sup with inbox := inbox } msg sup') :
      Worked sup fresh tasks now (sup', .nothing)

variable {sup : SupervisorLoop F} {fresh : ProcessId} {tasks : HashMap ProcessId (Task F)}
  {now : Nanos}

variable {r : SupervisorLoop F × Effect F} {wait : Wait}

theorem perform_cases {todo : List Action} {action : Action} (hwait : sup.wait = none)
    (htodo : sup.todo = action :: todo)
    (h : { sup with todo := todo }.perform fresh now action = some r) :
    Worked sup fresh tasks now r := by
  cases action with
  | start index =>
    obtain ⟨child, hchild, rfl⟩ := Option.map_eq_some_iff.mp h
    exact .spawned hwait htodo hchild
  | stop index =>
    obtain ⟨child, hchild, rfl⟩ := Option.map_eq_some_iff.mp h
    split
    next pid _ hdone => exact .killing hwait htodo hchild hdone
    next duration pid _ hdone => exact .waiting hwait htodo hchild hdone
    next hdone => exact .reset hwait htodo hchild hdone

theorem resume_cases (hwait : sup.wait = some wait) (h : sup.resume tasks now wait = some r) :
    Worked sup fresh tasks now r := by
  -- every wait is for the task of a child
  cases wait <;> obtain ⟨task, htask, h⟩ := Option.bind_eq_some_iff.mp h <;>
    obtain ⟨child, hchild, h⟩ := Option.bind_eq_some_iff.mp h <;> split at h <;> try cases h
  next hhanded _ => exact .started hwait htask hchild hhanded
  next hstopped _ => exact .stopped hwait rfl htask hchild hstopped
  next hstopped _ => exact .stopped hwait rfl htask hchild hstopped
  next hstopped =>
    split at h <;> cases h
    next hlate _ => exact .overrun hwait htask hchild (Bool.eq_false_iff.mpr hstopped) hlate

/-- **What one step of the loop does** -/
theorem work_cases (h : sup.work fresh tasks now = some r) : Worked sup fresh tasks now r := by
  unfold SupervisorLoop.work at h
  split at h
  next wait hwait => exact resume_cases hwait h
  next action todo hwait htodo => exact perform_cases hwait htodo h
  next escalated hwait htodo hending =>
    cases h
    exact .leaving hwait htodo hending
  next msg inbox hwait htodo hending hinbox =>
    cases h
    exact .received hwait htodo hending hinbox rfl
      (receive_cases { sup with inbox := inbox } htodo hending now msg)
  next => cases h

/-! ## the order of the loop -/

def SupervisorLoop.Stopping (sup : SupervisorLoop F) (i : Nat) : Prop :=
  ∃ wait pid, sup.wait = some wait ∧ wait.stops = some (i, pid)

/-- the loop carries out a plan, of which `stops` and `starts` are left -/
structure Orderly (sup : SupervisorLoop F) (stops starts : List Nat) : Prop where
  plan : Plan sup.todo stops starts
  bound : ∀ i ∈ starts, i < sup.state.children.length
  /-- a running child is stopped before it is started -/
  owed : ∀ i ∈ starts, sup.state.recorded i = true → i ∈ stops ∨ sup.Stopping i
  /-- a child is stopped to be started again, or because the loop ends -/
  purpose : ∀ i, i ∈ stops ∨ sup.Stopping i → i ∈ starts ∨ sup.ending.isSome = true
  starting : ∀ {i pid}, sup.wait = some (.abortHandle i pid) → stops = [] ∧ i ∉ starts ∧
    i < sup.state.children.length ∧ sup.state.current i = none
  stopping : ∀ {wait i pid}, sup.wait = some wait → wait.stops = some (i, pid) →
    sup.state.current i = some pid
  handles : ∀ {i child}, sup.state.children[i]? = some child →
    child.doneRx = child.pid ∨ sup.Stopping i
  taken : ∀ {i child}, sup.Stopping i → sup.state.children[i]? = some child → child.doneRx = none
  ending : sup.ending.isSome = true → starts = [] ∧
    (∀ i pid, sup.wait ≠ some (.abortHandle i pid)) ∧
    ∀ i, sup.state.recorded i = true → i ∈ stops ∨ sup.Stopping i
  left : sup.life ≠ .looping → sup.wait = none ∧ ∀ i, sup.state.recorded i = false

open SupervisorState SupervisorLoop

variable {stops starts : List Nat} {index : Nat} {child : ChildState F} {pid : ProcessId}
  {todo : List Action}

theorem SupervisorLoop.not_stopping (hwait : sup.wait = none) (i : Nat) : ¬ sup.Stopping i := by
  rintro ⟨wait, pid, hw, -⟩
  rw [hwait] at hw
  cases hw

theorem SupervisorLoop.stopping_unique (hwait : sup.wait = some wait)
    (hstops : wait.stops = some (index, pid)) (i : Nat) (hi : sup.Stopping i) : i = index := by
  obtain ⟨w, p, hw, hs⟩ := hi
  cases hwait.symm.trans hw
  cases hstops.symm.trans hs
  rfl

theorem SupervisorLoop.not_stopping_of_start (hwait : sup.wait = some (.abortHandle index pid))
    (i : Nat) : ¬ sup.Stopping i := by
  rintro ⟨wait, p, hw, hs⟩
  rw [hwait] at hw
  cases hw
  cases hs

theorem Orderly.new (pid : ProcessId) (spec : SupervisorSpec) (entries : List (ChildEntry F)) :
    Orderly (SupervisorLoop.new pid spec entries) [] (List.range entries.length) := by
  have hnone : ∀ {i : Nat} {child : ChildState F}, (entries.map ChildState.new)[i]? = some child →
      child.pid = none ∧ child.doneRx = none := by
    intro i child hchild
    rw [List.getElem?_map] at hchild
    obtain ⟨entry, -, rfl⟩ := Option.map_eq_some_iff.mp hchild
    exact ⟨rfl, rfl⟩
  refine ⟨⟨rfl, .nil, List.pairwise_lt_range⟩, fun i hi => ?_, fun i _ hrec => ?_, fun i hi => ?_,
    nofun, nofun, fun hc => ?_, fun hs => absurd hs (not_stopping rfl _), nofun,
    fun hl => absurd rfl hl⟩
  · show i < (entries.map ChildState.new).length
    rw [List.length_map]
    exact List.mem_range.mp hi
  · obtain ⟨p, hp⟩ := recorded_iff.mp hrec
    obtain ⟨child, hchild, hpid⟩ := Option.bind_eq_some_iff.mp hp
    rw [(hnone hchild).1] at hpid
    cases hpid
  · rcases hi with hi | hi
    · cases hi
    · exact absurd hi (not_stopping rfl i)
  · exact Or.inl ((hnone hc).2.trans (hnone hc).1.symm)

theorem Orderly.withInbox (h : Orderly sup stops starts) (inbox : List (SupervisorMsg F)) :
    Orderly { sup with inbox := inbox } stops starts :=
  ⟨h.plan, h.bound, h.owed, h.purpose, h.starting, h.stopping, h.handles, h.taken, h.ending, h.left⟩

theorem Orderly.send (h : Orderly sup stops starts) (msg : SupervisorMsg F) :
    Orderly (sup.send msg) stops starts := by
  unfold SupervisorLoop.send
  split
  next => exact h.withInbox _
  next => exact h

theorem Orderly.leaving (h : Orderly sup stops starts) (hwait : sup.wait = none)
    (htodo : sup.todo = []) {escalated : Bool} (hending : sup.ending = some escalated)
    (call : NameCall) : Orderly { sup with life := .leaving call } stops starts := by
  refine ⟨h.plan, h.bound, h.owed, h.purpose, h.starting, h.stopping, h.handles, h.taken, h.ending,
    fun _ => ⟨hwait, fun i => Bool.eq_false_iff.mpr fun hrec => ?_⟩⟩
  obtain ⟨rfl, -⟩ := (htodo ▸ h.plan).eq_nil
  rcases (h.ending (by rw [hending]; rfl)).2.2 i hrec with hi | hi
  · cases hi
  · exact not_stopping hwait i hi

theorem Orderly.planned (hwait : sup.wait = none) (hlife : sup.life = .looping)
    (hplan : Plan sup.todo stops starts) (hbound : ∀ i ∈ starts, i < sup.state.children.length)
    (howed : ∀ i ∈ starts, sup.state.recorded i = true → i ∈ stops)
    (hpurpose : ∀ i ∈ stops, i ∈ starts ∨ sup.ending.isSome = true)
    (hhandles : ∀ {i : Nat} {child}, sup.state.children[i]? = some child →
      child.doneRx = child.pid)
    (hending : sup.ending.isSome = true → starts = [] ∧
      ∀ i, sup.state.recorded i = true → i ∈ stops) : Orderly sup stops starts := by
  refine ⟨hplan, hbound, fun i hi hrec => Or.inl (howed i hi hrec), fun i hi => ?_, fun hw => ?_,
    fun hw => ?_, fun hc => Or.inl (hhandles hc),
    fun hs => absurd hs (not_stopping hwait _), fun he => ?_,
    fun hl => absurd hlife hl⟩
  · exact hpurpose i (hi.resolve_right (not_stopping hwait i))
  · cases hwait.symm.trans hw
  · cases hwait.symm.trans hw
  · obtain ⟨hstarts, hall⟩ := hending he
    refine ⟨hstarts, fun i p hw => ?_, fun i hrec => Or.inl (hall i hrec)⟩
    cases hwait.symm.trans hw

section
variable (h : Orderly sup stops starts) (hlife : sup.life = .looping)
include h hlife

theorem Orderly.spawned (hwait : sup.wait = none) (htodo : sup.todo = .start index :: todo) :
    ∃ rest, Orderly { sup with todo := todo, wait := some (.abortHandle index fresh) } [] rest := by
  obtain ⟨rfl, rest, rfl, hi, hplan⟩ := (htodo ▸ h.plan).of_start
  have hidle := not_stopping hwait
  have hbusy : ∀ i, ¬ Stopping { sup with todo := todo, wait := some (.abortHandle index fresh) } i :=
    not_stopping_of_start rfl
  have hnone : ∀ i ∈ index :: rest, sup.state.recorded i ≠ true := by
    intro i hi hrec
    rcases h.owed i hi hrec with hmem | hstop
    · cases hmem
    · exact hidle i hstop
  refine ⟨rest, hplan, fun i hi => h.bound i (List.mem_cons_of_mem _ hi),
    fun i hi hrec => absurd hrec (hnone i (List.mem_cons_of_mem _ hi)), fun i hi => ?_,
    fun hw => ?_, fun hw hs => ?_, fun hc => ?_, fun hs => absurd hs (hbusy _), fun he => ?_,
    fun hl => absurd hlife hl⟩
  · rcases hi with hi | hi
    · cases hi
    · exact absurd hi (hbusy i)
  · cases hw
    have hrec := Bool.eq_false_iff.mpr (hnone _ List.mem_cons_self)
    exact ⟨rfl, hi, h.bound _ List.mem_cons_self, not_recorded_iff.mp hrec⟩
  · cases hw
    cases hs
  · exact (h.handles hc).imp_right fun hs => absurd hs (hidle _)
  · cases (h.ending he).1

theorem Orderly.started (hwait : sup.wait = some (.abortHandle index pid))
    (hchild : sup.state.children[index]? = some child) {new : ChildState F}
    (hnew : new.doneRx = new.pid) : Orderly (sup.record index new) stops starts := by
  obtain ⟨rfl, hi, hlt, hnone⟩ := h.starting hwait
  have hbusy := not_stopping_of_start hwait
  refine .planned rfl hlife h.plan (fun i hi => ?_) (fun i hmem hrec => ?_) nofun
    (fun {i c} hc => ?_) fun he => absurd hwait ((h.ending he).2.1 _ _)
  · exact (h.bound i hi).trans_eq (length_setChild new).symm
  · have hne : i ≠ index := fun heq => hi (heq ▸ hmem)
    exact (h.owed i hmem (recorded_setChild hchild hne ▸ hrec)).resolve_right (hbusy i)
  · rcases of_setChild hchild hc with ⟨-, rfl⟩ | ⟨-, hc⟩
    · exact hnew
    · exact (h.handles hc).resolve_right (hbusy i)

theorem Orderly.halting (hwait : sup.wait = none) (htodo : sup.todo = .stop index :: todo)
    (hchild : sup.state.children[index]? = some child) (hdone : child.doneRx = some pid)
    (wait : Wait) (hstops : wait.stops = some (index, pid)) :
    ∃ rest, Orderly { { sup with todo := todo }.record index child.taken with
      wait := some wait } rest starts := by
  obtain ⟨rest, rfl, hi, hplan⟩ := (htodo ▸ h.plan).of_stop
  have hidle := not_stopping hwait
  have hpid : child.pid = some pid :=
    ((h.handles hchild).resolve_right (hidle _)).symm.trans hdone
  have hself : ∀ {i}, Stopping { { sup with todo := todo }.record index child.taken with
      wait := some wait } i ↔ i = index := by
    refine ⟨stopping_unique rfl hstops _, ?_⟩
    rintro rfl
    exact ⟨wait, pid, rfl, hstops⟩
  have hcurrent : ∀ i, (sup.state.setChild index child.taken).current i = sup.state.current i := by
    intro i
    rw [current_setChild hchild]
    split
    next heq =>
      rw [heq, current, hchild]
      rfl
    next => rfl
  have hrecorded : ∀ {i}, (sup.state.setChild index child.taken).recorded i = true →
      sup.state.recorded i = true := by
    intro i hrec
    rw [recorded_iff] at hrec ⊢
    rw [← hcurrent]
    exact hrec
  -- what was to be stopped still is, or is being stopped
  have hmoved : ∀ {i}, i ∈ index :: rest ∨ sup.Stopping i → i ∈ rest ∨ Stopping
      { { sup with todo := todo }.record index child.taken with wait := some wait } i := by
    rintro i (hmem | hs)
    · exact (List.mem_cons.mp hmem).symm.imp_right hself.mpr
    · exact absurd hs (hidle i)
  refine ⟨rest, hplan, fun i hi => ?_, fun i hi hrec => hmoved (h.owed i hi (hrecorded hrec)),
    fun i hi => ?_, fun hw => ?_, fun {w i p} hw hs => ?_, fun {i c} hc => ?_,
    fun {i c} hs hc => ?_, fun he => ?_, fun hl => absurd hlife hl⟩
  · exact (h.bound i hi).trans_eq (length_setChild child.taken).symm
  · exact h.purpose i (.inl (List.mem_cons.mpr (hi.symm.imp_left hself.mp)))
  · cases hw
    cases hstops
  · cases hw
    cases hstops.symm.trans hs
    refine (hcurrent index).trans ?_
    rw [current, hchild]
    exact hpid
  · rcases of_setChild hchild hc with ⟨heq, -⟩ | ⟨-, hc⟩
    · exact .inr (hself.mpr heq)
    · exact .inl ((h.handles hc).resolve_right (hidle i))
  · rcases of_setChild hchild hc with ⟨-, rfl⟩ | ⟨hne, -⟩
    · rfl
    · exact absurd (hself.mp hs) hne
  · obtain ⟨hstarts, -, hall⟩ := h.ending he
    refine ⟨hstarts, fun i p hw => ?_, fun i hrec => hmoved (hall i (hrecorded hrec))⟩
    cases hw
    cases hstops

theorem Orderly.halted (hchild : sup.state.children[index]? = some child) {new : ChildState F}
    {rest : List Nat} (hnew : new.pid = none ∧ new.doneRx = none) (hplan : Plan todo rest starts)
    (hrest : ∀ i ∈ stops, i = index ∨ i ∈ rest) (hsub : rest ⊆ stops)
    (honly : ∀ i, sup.Stopping i → i = index) :
    Orderly ({ sup with todo := todo }.record index new) rest starts := by
  -- a child that is still on record is still to be stopped
  have hleft : ∀ {i}, (sup.state.setChild index new).recorded i = true →
      (sup.state.recorded i = true → i ∈ stops ∨ sup.Stopping i) → i ∈ rest := by
    intro i hrec howed
    have hne : i ≠ index := by
      rintro rfl
      obtain ⟨p, hp⟩ := recorded_iff.mp hrec
      rw [current_setChild hchild, if_pos rfl, hnew.1] at hp
      cases hp
    rcases howed (recorded_setChild hchild hne ▸ hrec) with hi | hi
    · exact (hrest i hi).resolve_left hne
    · exact absurd (honly i hi) hne
  refine .planned rfl hlife hplan (fun i hi => ?_) (fun i hi hrec => hleft hrec (h.owed i hi))
    (fun i hi => h.purpose i (.inl (hsub hi))) (fun {i c} hc => ?_) fun he => ?_
  · exact (h.bound i hi).trans_eq (length_setChild new).symm
  · rcases of_setChild hchild hc with ⟨-, rfl⟩ | ⟨hne, hc⟩
    · exact hnew.2.trans hnew.1.symm
    · exact (h.handles hc).resolve_right fun hs => hne (honly i hs)
  · obtain ⟨hstarts, -, hall⟩ := h.ending he
    exact ⟨hstarts, fun i hrec => hleft hrec (hall i)⟩

theorem Orderly.unrecorded (hwait : sup.wait = some wait)
    (hstops : wait.stops = some (index, pid))
    (hchild : sup.state.children[index]? = some child) :
    Orderly (sup.record index { child with pid := none }) stops starts := by
  -- the receiver was taken when the stop began
  have htaken : child.doneRx = none := h.taken ⟨wait, pid, hwait, hstops⟩ hchild
  exact h.halted hlife hchild ⟨rfl, htaken⟩ h.plan (fun i hi => .inr hi) (fun _ hi => hi)
    (stopping_unique hwait hstops)

theorem Orderly.added (hwait : sup.wait = none) (hopen : sup.ending = none)
    (entries : List (ChildEntry F)) : Orderly (sup.addEntries entries) []
      (List.range' sup.state.children.length entries.length) := by
  -- a new child has no process on record
  have hnew : ∀ {i : Nat} {c}, (sup.state.children ++ entries.map ChildState.new)[i]? = some c →
      sup.state.children[i]? = some c ∨
        (sup.state.children.length ≤ i ∧ c.doneRx = c.pid ∧ c.pid = none) := by
    intro i c hc
    rw [List.getElem?_append] at hc
    split at hc
    next => exact .inl hc
    next hge =>
      rw [List.getElem?_map] at hc
      obtain ⟨entry, -, rfl⟩ := Option.map_eq_some_iff.mp hc
      exact .inr ⟨Nat.le_of_not_lt hge, rfl, rfl⟩
  refine .planned hwait hlife ⟨rfl, .nil, List.pairwise_lt_range'⟩ (fun i hi => ?_)
    (fun i hi hrec => ?_) nofun (fun {i c} hc => ?_) fun he => ?_
  · show i < (sup.state.children ++ entries.map ChildState.new).length
    rw [List.length_append, List.length_map]
    exact (List.mem_range'_1.mp hi).2
  · obtain ⟨p, hp⟩ := recorded_iff.mp hrec
    obtain ⟨c, hc, hpid⟩ := Option.bind_eq_some_iff.mp hp
    rcases hnew hc with hold | ⟨-, -, hnone⟩
    · have hlt := (List.getElem?_eq_some_iff.mp hold).1
      exact absurd (List.mem_range'_1.mp hi).1 (Nat.not_le_of_lt hlt)
    · cases hnone.symm.trans hpid
  · rcases hnew hc with hold | ⟨-, hsame, -⟩
    · exact (h.handles hold).resolve_right (not_stopping hwait i)
    · exact hsame
  · replace he : sup.ending.isSome = true := he
    rw [hopen] at he
    cases he

theorem Orderly.received (hwait : sup.wait = none) (htodo : sup.todo = []) (hopen : sup.ending = none)
    {msg : SupervisorMsg F} {sup' : SupervisorLoop F} (hr : Received sup msg sup') :
    ∃ stops starts, Orderly sup' stops starts := by
  have hsame : ∀ {i : Nat} {child}, sup.state.children[i]? = some child →
      child.doneRx = child.pid := fun hc => (h.handles hc).resolve_right (not_stopping hwait _)
  have hcleared : ∀ {state : SupervisorState F} {index : Nat} {old : ChildState F},
      sup.state.children[index]? = some old →
      state.children = (sup.state.setChild index old.cleared).children →
      ∀ {i : Nat} {child}, state.children[i]? = some child → child.doneRx = child.pid := by
    intro state index old hold hchildren i c hc
    rw [hchildren] at hc
    rcases of_setChild hold hc with ⟨-, rfl⟩ | ⟨-, hc⟩
    · rfl
    · exact hsame hc
  have hnever : ∀ {p : Prop}, sup.ending.isSome = true → p := by
    intro p he
    rw [hopen] at he
    cases he
  cases hr with
  | ignored => exact ⟨stops, starts, h⟩
  | cleared hchild =>
    exact ⟨[], [], .planned hwait hlife (htodo ▸ .nil) nofun nofun nofun (hcleared hchild rfl)
      fun he => hnever he⟩
  | restarts hchild hpid hyes hchildren hplan hstarts hstops =>
    refine ⟨_, _, .planned hwait hlife hplan (fun i hi => ?_) (fun i hi hrec => ?_)
      (fun i hi => ?_) (hcleared hchild hchildren) fun he => hnever he⟩
    · rw [hchildren, length_setChild]
      exact ((hstarts i).mp hi).lt (List.getElem?_eq_some_iff.mp hchild).1
    · have hne := ((recorded_cleared hchild hchildren i).mp hrec).1
      exact (hstops i).mpr ⟨hne, (hstarts i).mp hi⟩
    · exact .inl ((hstarts i).mpr ((hstops i).mp hi).2)
  | gaveUp hchild hpid hyes hchildren hplan hstops =>
    exact ⟨_, [], .planned hwait hlife hplan nofun nofun (fun _ _ => .inr rfl)
      (hcleared hchild hchildren) fun _ => ⟨rfl, fun i hi => (hstops i).mpr hi⟩⟩
  | added entries => exact ⟨_, _, h.added hlife hwait hopen entries⟩
  | shutdown hplan hstops =>
    exact ⟨_, [], .planned hwait hlife hplan nofun nofun (fun _ _ => .inr rfl) hsame
      fun _ => ⟨rfl, fun i hi => (hstops i).mpr hi⟩⟩

/-- **A step of the loop leaves it orderly** -/
theorem Orderly.work (hr : Worked sup fresh tasks now r) :
    ∃ stops starts, Orderly r.1 stops starts := by
  cases hr with
  | spawned hwait htodo => exact ⟨[], h.spawned hlife hwait htodo⟩
  | started hwait _ hchild => exact ⟨_, _, h.started hlife hwait hchild rfl⟩
  | killing hwait htodo hchild hdone =>
    obtain ⟨rest, h'⟩ := h.halting hlife hwait htodo hchild hdone (.killed _ _) rfl
    exact ⟨rest, _, h'⟩
  | waiting hwait htodo hchild hdone =>
    obtain ⟨rest, h'⟩ := h.halting hlife hwait htodo hchild hdone (.grace _ _ _ _) rfl
    exact ⟨rest, _, h'⟩
  | reset hwait htodo hchild =>
    obtain ⟨rest, rfl, -, hplan⟩ := (htodo ▸ h.plan).of_stop
    exact ⟨rest, _, h.halted hlife hchild ⟨rfl, rfl⟩ hplan (fun i hi => List.mem_cons.mp hi)
      (List.subset_cons_self _ _) fun i hi => absurd hi (not_stopping hwait i)⟩
  | stopped hwait hstops _ hchild => exact ⟨_, _, h.unrecorded hlife hwait hstops hchild⟩
  | overrun hwait _ hchild => exact ⟨_, _, h.unrecorded hlife hwait rfl hchild⟩
  | leaving hwait htodo hending => exact ⟨_, _, h.leaving hwait htodo hending _⟩
  | @received _ inbox _ hwait htodo hending _ _ hreceived =>
    exact (h.withInbox inbox).received hlife hwait htodo hending hreceived

end

end Rebar.Supervisor

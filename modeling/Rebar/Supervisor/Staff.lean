import Rebar.Supervisor.Orders

/-!
# The staff of a supervisor

Which incarnations a supervisor counts on, and how a step changes that.

* `Stepped`, `next_cases`    what one step of the runtime does;
* `Staffed`, `staffed_of_reach`   in every run, the loops are orderly, a held process is an
                             incarnation of its child, and an exit in a queue is one that happened.
-/

namespace Rebar.Supervisor

open Process SupervisorState

variable {F : Type} {sup : SupervisorLoop F} {stops starts : List Nat} {fresh pid : ProcessId}
  {tasks : HashMap ProcessId (Task F)} {now : Nanos} {i : Nat}

/-- the process is on record for the child, or being started for it -/
def SupervisorLoop.Holds (sup : SupervisorLoop F) (i : Nat) (pid : ProcessId) : Prop :=
  sup.state.current i = some pid ∨ sup.wait = some (.abortHandle i pid)

/-! ## messages -/

variable {msg : SupervisorMsg F} {sup' s : SupervisorLoop F} {entry : ChildEntry F}
  {r : SupervisorLoop F × Effect F} {reason : ExitReason} {k : Nat} {spec : SupervisorSpec}
  {entries : List (ChildEntry F)}

theorem Received.wait (h : Received sup msg sup') :
    sup'.wait = sup.wait ∧ sup'.inbox = sup.inbox ∧ sup'.life = sup.life := by
  cases h <;> exact ⟨rfl, rfl, rfl⟩

theorem Received.entryAt (h : Received sup msg sup') (he : sup.state.entryAt i = some entry) :
    sup'.state.entryAt i = some entry := by
  cases h with
  | ignored | shutdown => exact he
  | cleared hchild => exact entryAt_setChild he hchild rfl
  | @restarts _ _ _ child _ _ _ _ hchild _ _ hchildren
  | @gaveUp _ _ _ child _ _ _ hchild _ _ hchildren =>
    rw [SupervisorState.entryAt, hchildren]
    have hcleared : child.cleared.toChildEntry = child.toChildEntry := rfl
    exact entryAt_setChild he hchild hcleared
  | added entries =>
    show (sup.state.children ++ entries.map ChildState.new)[i]?.map (·.toChildEntry) = _
    rw [List.getElem?_append, if_pos (lt_of_entryAt he)]
    exact he

theorem Received.current (h : Received sup msg sup') (i : Nat) :
    sup'.state.current i = sup.state.current i ∨ (sup'.state.current i = none ∧
      ∃ pid reason, sup.state.current i = some pid ∧ msg = .childExited i pid reason) := by
  have hcleared : ∀ {state : SupervisorState F} {index : Nat} {old : ChildState F}
      {pid : ProcessId} {reason : ExitReason}, sup.state.children[index]? = some old →
      old.pid = some pid → state.children = (sup.state.setChild index old.cleared).children →
      state.current i = sup.state.current i ∨ (state.current i = none ∧
        ∃ p r, sup.state.current i = some p ∧
          (.childExited index pid reason : SupervisorMsg F) = .childExited i p r) := by
    intro state index old pid reason hold hpid hchildren
    have hcur : state.current i = if i = index then none else sup.state.current i := by
      rw [SupervisorState.current, hchildren]
      exact current_setChild hold
    rw [hcur]
    split
    next heq =>
      rw [heq]
      refine Or.inr ⟨rfl, pid, reason, ?_, rfl⟩
      rw [SupervisorState.current, hold]
      exact hpid
    next => exact Or.inl rfl
  cases h with
  | ignored | shutdown => exact Or.inl rfl
  | cleared hchild hpid => exact hcleared hchild hpid rfl
  | restarts hchild hpid _ hchildren | gaveUp hchild hpid _ hchildren => exact hcleared hchild hpid hchildren
  | added entries =>
    refine Or.inl ?_
    show (sup.state.children ++ entries.map ChildState.new)[i]?.bind (·.pid) = _
    rw [List.getElem?_append]
    split
    next => rfl
    next hge =>
      rw [SupervisorState.current, List.getElem?_eq_none (Nat.le_of_not_lt hge), List.getElem?_map]
      cases entries[i - sup.state.children.length]? with
      | none => rfl
      | some entry => rfl

/-! ## what a step of the loop does to the processes it holds -/

/-- why the loop drops a process: its task has stopped, its time is over, or its exit is reported -/
inductive Dropped (sup : SupervisorLoop F) (tasks : HashMap ProcessId (Task F)) (now : Nanos)
    (i : Nat) (pid : ProcessId) (effect : Effect F) : Prop where
  | stopped {task : Task F} (htask : tasks.lookup pid = some task)
      (hstopped : task.phase.stopped = true)
  | overrun {abort : Option ProcessId} {deadline : Nanos} {task : Task F}
      (hwait : sup.wait = some (.grace i pid abort deadline)) (htask : tasks.lookup pid = some task)
      (hstopped : task.phase.stopped = false) (hlate : deadline ≤ now)
      (heffect : effect = .abort abort)
  | exited {reason : ExitReason} {inbox : List (SupervisorMsg F)}
      (hinbox : sup.inbox = .childExited i pid reason :: inbox)

/-- **What a step of the loop does to the record of a child** -/
theorem Worked.current (h : Orderly sup stops starts) (hr : Worked sup fresh tasks now r) (i : Nat) :
    r.1.state.current i = sup.state.current i ∨
    (∃ pid, sup.wait = some (.abortHandle i pid) ∧ r.1.state.current i = some pid) ∨
    (r.1.state.current i = none ∧
      ∃ pid, sup.state.current i = some pid ∧ Dropped sup tasks now i pid r.2) := by
  have hset : ∀ {index : Nat} {old : ChildState F} (new : ChildState F),
      sup.state.children[index]? = some old → new.pid = old.pid →
      (sup.state.setChild index new).current i = sup.state.current i := by
    intro index old new hold hnew
    rw [current_setChild hold]
    split
    next heq =>
      rw [heq, SupervisorState.current, hold]
      exact hnew
    next => rfl
  have hunset : ∀ {index : Nat} {old new : ChildState F} {p : ProcessId} {effect : Effect F},
      sup.state.children[index]? = some old → new.pid = none →
      sup.state.current index = some p → Dropped sup tasks now index p effect →
      (sup.state.setChild index new).current i = sup.state.current i ∨
      (∃ p, sup.wait = some (.abortHandle i p) ∧
        (sup.state.setChild index new).current i = some p) ∨
      ((sup.state.setChild index new).current i = none ∧
        ∃ p, sup.state.current i = some p ∧ Dropped sup tasks now i p effect) := by
    intro index old new p effect hold hnew hcur hdrop
    rw [current_setChild hold]
    split
    next heq =>
      rw [heq]
      exact Or.inr (Or.inr ⟨hnew, p, hcur, hdrop⟩)
    next => exact Or.inl rfl
  cases hr with
  | spawned => exact Or.inl rfl
  | @started index pid task child hwait _ hchild =>
    by_cases heq : i = index
    · rw [heq]
      refine Or.inr (Or.inl ⟨pid, hwait, ?_⟩)
      exact (current_setChild hchild).trans (if_pos rfl)
    · exact Or.inl ((current_setChild hchild).trans (if_neg heq))
  | killing _ _ hchild | waiting _ _ hchild => exact Or.inl (hset (ChildState.taken _) hchild rfl)
  | reset hwait _ hchild hdone =>
    -- a child without a receiver has no process on record
    have hpid := (h.handles hchild).resolve_right (SupervisorLoop.not_stopping hwait _)
    exact Or.inl (hset _ hchild (hdone.symm.trans hpid))
  | stopped hwait hstops htask hchild hstopped =>
    exact hunset hchild rfl (h.stopping hwait hstops) (.stopped htask hstopped)
  | overrun hwait htask hchild hstopped hlate =>
    exact hunset hchild rfl (h.stopping hwait rfl) (.overrun hwait htask hstopped hlate rfl)
  | leaving => exact Or.inl rfl
  | received hwait htodo hending hinbox hsup' hreceived =>
    rcases hreceived.current i with heq | ⟨hnone, p, reason, hcur, rfl⟩
    · exact Or.inl heq
    · exact Or.inr (Or.inr ⟨hnone, p, hcur, .exited hinbox⟩)

theorem Worked.wait (hr : Worked sup fresh tasks now r) (hw : r.1.wait = some (.abortHandle i pid)) :
    pid = fresh ∧ sup.wait = none ∧ (∃ todo, sup.todo = .start i :: todo) ∧
      ∃ entry, r.2 = .spawn i entry := by
  cases hr with
  | spawned hwait htodo =>
    cases hw
    exact ⟨rfl, hwait, ⟨_, htodo⟩, _, rfl⟩
  | started | killing | waiting | reset | stopped | overrun => cases hw
  | leaving hwait => cases hwait.symm.trans hw
  | received hwait htodo hending hinbox hsup' hreceived =>
    cases hwait.symm.trans (hreceived.wait.1.symm.trans hw)

theorem SupervisorLoop.Holds.of_work (ho : Orderly sup stops starts)
    (hr : Worked sup fresh tasks now r) (h : r.1.Holds i pid) :
    sup.Holds i pid ∨ (pid = fresh ∧ ∃ entry, r.2 = .spawn i entry) := by
  rcases h with hcur | hw
  · rcases hr.current ho i with heq | ⟨p, hw, hp⟩ | ⟨hnone, -⟩
    · exact Or.inl (Or.inl (heq.symm.trans hcur))
    · cases hp.symm.trans hcur
      exact Or.inl (Or.inr hw)
    · cases hnone.symm.trans hcur
  · obtain ⟨rfl, -, -, hspawn⟩ := hr.wait hw
    exact Or.inr ⟨rfl, hspawn⟩

theorem SupervisorLoop.Holds.work (ho : Orderly sup stops starts)
    (hr : Worked sup fresh tasks now r) (h : sup.Holds i pid) :
    r.1.Holds i pid ∨ (sup.state.current i = some pid ∧ Dropped sup tasks now i pid r.2) := by
  rcases h with hcur | hw
  · rcases hr.current ho i with heq | ⟨p, hw, -⟩ | ⟨-, p, hp, hdrop⟩
    · exact Or.inl (Or.inl (heq.trans hcur))
    · cases (ho.starting hw).2.2.2.symm.trans hcur
    · cases hp.symm.trans hcur
      exact Or.inr ⟨hcur, hdrop⟩
  · cases hr with
    | started hwait _ hchild =>
      cases hwait.symm.trans hw
      refine Or.inl (Or.inl ?_)
      exact (current_setChild hchild).trans (if_pos rfl)
    | stopped hwait hstops =>
      cases hwait.symm.trans hw
      cases hstops
    | overrun hwait => cases hwait.symm.trans hw
    | spawned hwait | killing hwait | waiting hwait | reset hwait | leaving hwait
    | received hwait => cases hwait.symm.trans hw

theorem Worked.inbox (hr : Worked sup fresh tasks now r) : r.1.inbox ⊆ sup.inbox := by
  cases hr with
  | received _ _ _ hinbox _ hreceived =>
    rw [hreceived.wait.2.1, hinbox]
    exact List.subset_cons_self _ _
  | spawned | started | killing | waiting | reset | stopped | overrun | leaving =>
    exact fun _ hm => hm

theorem Worked.entryAt (hr : Worked sup fresh tasks now r) (he : sup.state.entryAt i = some entry) :
    r.1.state.entryAt i = some entry := by
  cases hr with
  | received _ _ _ _ _ hreceived => exact hreceived.entryAt he
  | spawned | leaving => exact he
  | started _ _ hchild | killing _ _ hchild | waiting _ _ hchild | reset _ _ hchild
  | stopped _ _ _ hchild | overrun _ _ hchild =>
    exact entryAt_setChild he hchild rfl

theorem Received.not_current (h : Received sup (.childExited i pid reason) sup') :
    sup'.state.current i ≠ some pid := by
  have hcleared : ∀ {state : SupervisorState F} {old : ChildState F},
      sup.state.children[i]? = some old →
      state.children = (sup.state.setChild i old.cleared).children →
      state.current i ≠ some pid := by
    intro state old hold hchildren hcur
    rw [SupervisorState.current, hchildren, children_setChild hold, if_pos rfl]
      at hcur
    cases hcur
  cases h with
  | ignored hother => exact hother
  | cleared hchild => exact hcleared hchild rfl
  | restarts hchild _ _ hchildren | gaveUp hchild _ _ hchildren => exact hcleared hchild hchildren
  | added entries hexit => exact absurd rfl (hexit _ _ _)

theorem Worked.keeps_exit (hr : Worked sup fresh tasks now r)
    (hm : .childExited i pid reason ∈ sup.inbox) (hholds : r.1.Holds i pid) :
    .childExited i pid reason ∈ r.1.inbox := by
  cases hr with
  | received hwait _ _ hinbox _ hreceived =>
    obtain ⟨hwait', hinbox', -⟩ := hreceived.wait
    rw [hinbox] at hm
    rcases List.mem_cons.mp hm with rfl | hm
    · rcases hholds with hcur | hw
      · exact absurd hcur hreceived.not_current
      · cases hwait.symm.trans (hwait'.symm.trans hw)
    · rw [hinbox']
      exact hm
  | spawned | started | killing | waiting | reset | stopped | overrun | leaving => exact hm

theorem Orderly.looping (ho : Orderly sup stops starts) (h : sup.Holds i pid) :
    sup.life = .looping := by
  refine Classical.byContradiction fun hlife => ?_
  obtain ⟨hwait, hnone⟩ := ho.left hlife
  rcases h with hcur | hw
  · rw [not_recorded_iff.mp (hnone i)] at hcur
    cases hcur
  · cases hwait.symm.trans hw

/-! ## the steps of the runtime -/

inductive Stepped (node : Node F) : Event F → Node F → Prop where
  | start (spec : SupervisorSpec) (entries : List (ChildEntry F)) :
      Stepped node (.start spec entries) (node.startSupervisor spec entries)
  | request {k : Nat} (request : Request F) :
      Stepped node (.request k request) (node.send k request.msg)
  | work {k : Nat} {now : Nanos} {sup : SupervisorLoop F} {r : SupervisorLoop F × Effect F}
      (hsup : node.sups[k]? = some sup) (hlife : sup.life = .looping)
      (hr : Worked sup (Node.spawned node.table).2 node.tasks now r) :
      Stepped node (.work k now) (node.apply k r.1 r.2)
  | leave {k : Nat} {now : Nanos} {sup : SupervisorLoop F} {call : NameCall}
      (hsup : node.sups[k]? = some sup) (hlife : sup.life = .leaving call) :
      Stepped node (.work k now) { node with
        table := (call.step node.table).1
        sups := node.sups.set k { sup with life := .left (call.step node.table).2 } }
  | task {pid : ProcessId} {choice : Choice} {task next : Task F} {table : ProcessTable}
      (htask : node.tasks.lookup pid = some task)
      (hstep : task.step pid node.table choice = some (table, next, none)) :
      Stepped node (.task pid choice)
        { node with table := table, tasks := node.tasks.insert pid next }
  | report {pid : ProcessId} {choice : Choice} {task next : Task F} {table : ProcessTable}
      {reason : ExitReason} (htask : node.tasks.lookup pid = some task)
      (hstep : task.step pid node.table choice = some (table, next, some reason)) :
      Stepped node (.task pid choice)
        (Node.send { node with table := table, tasks := node.tasks.insert pid next }
          task.supervisor (.childExited task.index pid reason))

variable {node next : Node F}

theorem next_cases {event : Event F} (h : node.next event = some next) :
    Stepped node event next := by
  cases event with
  | start spec entries =>
    cases h
    exact .start spec entries
  | request k request =>
    rw [Node.next] at h
    split at h
    next =>
      cases h
      exact .request request
    next => cases h
  | work k now =>
    obtain ⟨sup, hsup, h⟩ := Option.bind_eq_some_iff.mp h
    split at h
    next hlife =>
      obtain ⟨r, hr, rfl⟩ := Option.map_eq_some_iff.mp h
      exact .work hsup hlife (work_cases hr)
    next call hlife =>
      cases h
      exact .leave hsup hlife
    next => cases h
  | task pid choice =>
    obtain ⟨task, htask, h⟩ := Option.bind_eq_some_iff.mp h
    obtain ⟨⟨table, task', report⟩, hstep, rfl⟩ := Option.map_eq_some_iff.mp h
    cases report with
    | none => exact .task htask hstep
    | some reason => exact .report htask hstep

/-! ## the invariant -/

def Task.Of (task : Task F) (k i : Nat) : Prop := task.supervisor = k ∧ task.index = i

instance (task : Task F) (k i : Nat) : Decidable (task.Of k i) :=
  inferInstanceAs (Decidable (task.supervisor = k ∧ task.index = i))

structure Staffed (node : Node F) : Prop where
  orderly : ∀ {k : Nat} {sup}, node.sups[k]? = some sup → ∃ stops starts, Orderly sup stops starts
  fresh : ∀ {pid task}, node.tasks.lookup pid = some task → pid.localId < node.table.nextId
  place : ∀ {pid task}, node.tasks.lookup pid = some task →
    ∃ sup, node.sups[task.supervisor]? = some sup ∧
      sup.state.entryAt task.index = some task.entry
  held : ∀ {k : Nat} {sup i pid}, node.sups[k]? = some sup → sup.Holds i pid →
    ∃ task, node.tasks.lookup pid = some task ∧ task.Of k i
  exits : ∀ {k : Nat} {sup i pid reason}, node.sups[k]? = some sup →
    .childExited i pid reason ∈ sup.inbox →
    ∃ task, node.tasks.lookup pid = some task ∧ task.Of k i ∧ 5 ≤ task.phase.rank

theorem Staffed.new (nodeId : Nat) : Staffed (Node.new nodeId : Node F) :=
  ⟨nofun, nofun, nofun, nofun, nofun⟩

theorem Task.Advanced.of {task next : Task F} {i : Nat} (h : task.Advanced next) (ht : task.Of k i) :
    next.Of k i :=
  ⟨h.supervisor.trans ht.1, h.index.trans ht.2⟩

theorem Staffed.evolve (h : Staffed node) {table : ProcessTable}
    {tasks : HashMap ProcessId (Task F)} (hid : node.table.nextId ≤ table.nextId)
    (he : Evolved node.tasks tasks) :
    Staffed { node with table := table, tasks := tasks } := by
  refine ⟨h.orderly, fun ht => ?_, fun ht => ?_, fun hs hh => ?_, fun hs hm => ?_⟩
  · obtain ⟨t, ht, -⟩ := he.back ht
    exact Nat.lt_of_lt_of_le (h.fresh ht) hid
  · obtain ⟨t, ht, hadv⟩ := he.back ht
    rw [hadv.supervisor, hadv.index, hadv.entry]
    exact h.place ht
  · obtain ⟨t, ht, hof⟩ := h.held hs hh
    obtain ⟨t', ht', hadv⟩ := he.forth ht
    exact ⟨t', ht', hadv.of hof⟩
  · obtain ⟨t, ht, hof, hrank⟩ := h.exits hs hm
    obtain ⟨t', ht', hadv⟩ := he.forth ht
    exact ⟨t', ht', hadv.of hof, Nat.le_trans hrank hadv.rank⟩

theorem Staffed.hire (h : Staffed node) {index : Nat} (hsup : node.sups[k]? = some sup)
    (hentry : sup.state.entryAt index = some entry) :
    Staffed { node with
      table := (Node.spawned node.table).1
      tasks := node.tasks.insert (Node.spawned node.table).2
        (.spawned k index entry (Node.spawned node.table).2) } := by
  have hnew : ∀ {p t}, node.tasks.lookup p = some t → p ≠ (Node.spawned node.table).2 := by
    rintro p t ht rfl
    exact Nat.lt_irrefl _ (h.fresh ht)
  have hkept : ∀ {p t}, node.tasks.lookup p = some t →
      (node.tasks.insert (Node.spawned node.table).2
        (.spawned k index entry (Node.spawned node.table).2)).lookup p = some t := by
    intro p t ht
    rw [HashMap.lookup_insert_if, if_neg (hnew ht)]
    exact ht
  refine ⟨h.orderly, fun {p t} ht => ?_, fun {p t} ht => ?_, fun hs hh => ?_, fun hs hm => ?_⟩
  · rcases HashMap.of_lookup_insert ht with ⟨heq, -⟩ | ⟨-, ht⟩
    · rw [heq]
      exact Nat.lt_succ_self _
    · exact Nat.lt_succ_of_lt (h.fresh ht)
  · rcases HashMap.of_lookup_insert ht with ⟨-, rfl⟩ | ⟨-, ht⟩
    · exact ⟨sup, hsup, hentry⟩
    · exact h.place ht
  · obtain ⟨t, ht, hof⟩ := h.held hs hh
    exact ⟨t, hkept ht, hof⟩
  · obtain ⟨t, ht, hof⟩ := h.exits hs hm
    exact ⟨t, hkept ht, hof⟩

theorem sups_set_cases {sups : List (SupervisorLoop F)} {j : Nat}
    (h : (sups.set k sup')[j]? = some s) : (j = k ∧ s = sup') ∨ (j ≠ k ∧ sups[j]? = some s) := by
  rw [List.getElem?_set] at h
  split at h
  next heq =>
    split at h
    · exact Or.inl ⟨heq.symm, (Option.some.inj h).symm⟩
    · cases h
  next hne => exact Or.inr ⟨Ne.symm hne, h⟩

theorem exists_sups_set {sups : List (SupervisorLoop F)} {P : SupervisorLoop F → Prop} {j : Nat}
    (hsup : sups[k]? = some sup) (h : ∃ s, sups[j]? = some s ∧ P s) (hkeep : j = k → P sup → P sup') :
    ∃ s, (sups.set k sup')[j]? = some s ∧ P s := by
  obtain ⟨s, hs, hp⟩ := h
  rcases eq_or_ne j k with rfl | hk
  · cases hs.symm.trans hsup
    exact ⟨sup', List.getElem?_set_self (List.getElem?_eq_some_iff.mp hsup).1, hkeep rfl hp⟩
  · exact ⟨s, (List.getElem?_set_ne (Ne.symm hk)).trans hs, hp⟩

theorem Staffed.setSup (h : Staffed node) (hsup : node.sups[k]? = some sup)
    (horderly : ∃ stops starts, Orderly sup' stops starts)
    (hentries : ∀ {i entry}, sup.state.entryAt i = some entry →
      sup'.state.entryAt i = some entry) (hheld : ∀ {i pid}, sup'.Holds i pid → sup.Holds i pid ∨
      ∃ task, node.tasks.lookup pid = some task ∧ task.Of k i)
    (hexits : ∀ {i pid reason}, .childExited i pid reason ∈ sup'.inbox →
      .childExited i pid reason ∈ sup.inbox ∨
      ∃ task, node.tasks.lookup pid = some task ∧ task.Of k i ∧ 5 ≤ task.phase.rank) :
    Staffed { node with sups := node.sups.set k sup' } := by
  refine ⟨fun hs => ?_, h.fresh, fun ht => exists_sups_set hsup (h.place ht) fun _ => hentries,
    fun hs hh => ?_, fun hs hm => ?_⟩
  · rcases sups_set_cases hs with ⟨-, rfl⟩ | ⟨-, hs⟩
    · exact horderly
    · exact h.orderly hs
  · rcases sups_set_cases hs with ⟨rfl, rfl⟩ | ⟨-, hs⟩
    · rcases hheld hh with hh | htask
      · exact h.held hsup hh
      · exact htask
    · exact h.held hs hh
  · rcases sups_set_cases hs with ⟨rfl, rfl⟩ | ⟨-, hs⟩
    · rcases hexits hm with hm | htask
      · exact h.exits hsup hm
      · exact htask
    · exact h.exits hs hm

theorem Node.send_eq (node : Node F) (k : Nat) (msg : SupervisorMsg F) :
    (node.sups[k]? = none ∧ node.send k msg = node) ∨ ∃ sup, node.sups[k]? = some sup ∧
      node.send k msg = { node with sups := node.sups.set k (sup.send msg) } := by
  unfold Node.send
  cases hsup : node.sups[k]? with
  | none =>
    refine Or.inl ⟨rfl, ?_⟩
    rw [List.modify_eq_self (List.getElem?_eq_none_iff.mp hsup)]
  | some sup =>
    refine Or.inr ⟨sup, rfl, ?_⟩
    rw [List.modify_eq_set_getElem?, hsup]
    rfl

/-- a message is lost, or it changes the supervisor it is for -/
theorem Node.send_of {P : Node F → Prop} (h : P node)
    (hset : ∀ {sup}, node.sups[k]? = some sup →
      P { node with sups := node.sups.set k (sup.send msg) }) : P (node.send k msg) := by
  rcases node.send_eq k msg with ⟨-, heq⟩ | ⟨sup, hsup, heq⟩
  · rw [heq]
    exact h
  · rw [heq]
    exact hset hsup

theorem SupervisorLoop.mem_send {m : SupervisorMsg F} (h : m ∈ (sup.send msg).inbox) :
    m ∈ sup.inbox ∨ m = msg := by
  unfold SupervisorLoop.send at h
  split at h
  · exact (List.mem_append.mp h).imp_right List.mem_singleton.mp
  · exact Or.inl h

theorem SupervisorLoop.send_same (sup : SupervisorLoop F) (msg : SupervisorMsg F) :
    (sup.send msg).state = sup.state ∧ (sup.send msg).wait = sup.wait ∧
      (sup.send msg).todo = sup.todo ∧ (sup.send msg).ending = sup.ending ∧
      (sup.send msg).life = sup.life ∧ (sup.send msg).pid = sup.pid := by
  unfold SupervisorLoop.send
  split <;> exact ⟨rfl, rfl, rfl, rfl, rfl, rfl⟩

theorem SupervisorLoop.holds_send : (sup.send msg).Holds i pid ↔ sup.Holds i pid := by
  obtain ⟨hstate, hwait, -⟩ := sup.send_same msg
  unfold SupervisorLoop.Holds
  rw [hstate, hwait]

theorem Staffed.send (h : Staffed node) (k : Nat)
    (hm : ∀ {i pid reason}, msg = .childExited i pid reason →
      ∃ task, node.tasks.lookup pid = some task ∧ task.Of k i ∧ 5 ≤ task.phase.rank) :
    Staffed (node.send k msg) := by
  refine Node.send_of h fun {sup} hsup => ?_
  obtain ⟨stops, starts, ho⟩ := h.orderly hsup
  refine h.setSup hsup ⟨stops, starts, ho.send msg⟩ (fun he => ?_) ?_ fun hmem => ?_
  · rw [(sup.send_same msg).1]
    exact he
  · exact fun hh => Or.inl (SupervisorLoop.holds_send.mp hh)
  · exact (SupervisorLoop.mem_send hmem).imp_right fun heq => hm heq.symm

theorem startSupervisor_cases {j : Nat} (h : (node.startSupervisor spec entries).sups[j]? = some s) :
    node.sups[j]? = some s ∨ s = .new (Node.spawned node.table).2 spec entries := by
  replace h : (node.sups ++ [SupervisorLoop.new (Node.spawned node.table).2 spec entries])[j]?
    = some s := h
  rw [List.getElem?_append] at h
  split at h
  next => exact Or.inl h
  next =>
    rw [List.getElem?_singleton] at h
    split at h
    · exact Or.inr (Option.some.inj h).symm
    · cases h

theorem startSupervisor_old {j : Nat} (h : node.sups[j]? = some s) :
    (node.startSupervisor spec entries).sups[j]? = some s := by
  show (node.sups ++ _)[j]? = some s
  rw [List.getElem?_append, if_pos (List.getElem?_eq_some_iff.mp h).1]
  exact h

theorem SupervisorLoop.not_holds_new {p : ProcessId} :
    ¬ (SupervisorLoop.new p spec entries).Holds i pid := by
  rintro (hcur | hwait)
  · obtain ⟨child, hchild, hpid⟩ := Option.bind_eq_some_iff.mp hcur
    obtain ⟨entry, -, rfl⟩ := List.mem_map.mp (List.mem_of_getElem? hchild)
    cases hpid
  · cases hwait

theorem Staffed.startSupervisor (h : Staffed node) (spec : SupervisorSpec)
    (entries : List (ChildEntry F)) : Staffed (node.startSupervisor spec entries) := by
  refine ⟨fun hs => ?_, fun ht => Nat.lt_succ_of_lt (h.fresh ht), fun {p t} ht => ?_,
    fun hs hh => ?_, fun hs hm => ?_⟩
  · rcases startSupervisor_cases hs with hs | rfl
    · exact h.orderly hs
    · exact ⟨[], _, .new _ spec entries⟩
  · obtain ⟨s, hs, hentry⟩ := h.place ht
    exact ⟨s, startSupervisor_old hs, hentry⟩
  · rcases startSupervisor_cases hs with hs | rfl
    · exact h.held hs hh
    · exact absurd hh SupervisorLoop.not_holds_new
  · rcases startSupervisor_cases hs with hs | rfl
    · exact h.exits hs hm
    · cases hm

theorem Staffed.work (h : Staffed node) (hsup : node.sups[k]? = some sup)
    (hlife : sup.life = .looping) (hr : Worked sup (Node.spawned node.table).2 node.tasks now r) :
    Staffed (node.apply k r.1 r.2) := by
  obtain ⟨stops, starts, ho⟩ := h.orderly hsup
  obtain ⟨sup', effect⟩ := r
  have hinbox : ∀ {i pid reason}, .childExited i pid reason ∈ sup'.inbox →
      .childExited i pid reason ∈ sup.inbox := fun hm => hr.inbox hm
  cases effect with
  | nothing =>
    refine h.setSup hsup (ho.work hlife hr) hr.entryAt (fun hh => ?_) fun hm => Or.inl (hinbox hm)
    rcases hh.of_work ho hr with hold | ⟨-, entry, hspawn⟩
    · exact Or.inl hold
    · cases hspawn
  | abort target =>
    have h' := h.setSup hsup (ho.work hlife hr) hr.entryAt (fun hh => ?_)
      fun hm => Or.inl (hinbox hm)
    · exact h'.evolve (Nat.le_refl _) (.abort node.tasks target)
    · rcases hh.of_work ho hr with hold | ⟨-, entry, hspawn⟩
      · exact Or.inl hold
      · cases hspawn
  | spawn index entry =>
    have hentry : sup.state.entryAt index = some entry := by
      cases hr with
      | spawned _ _ hchild => exact Option.map_eq_some_iff.mpr ⟨_, hchild, rfl⟩
    refine (h.hire hsup hentry).setSup hsup (ho.work hlife hr) hr.entryAt (fun hh => ?_)
      fun hm => Or.inl (hinbox hm)
    rcases hh.of_work ho hr with hold | ⟨rfl, entry', hspawn⟩
    · exact Or.inl hold
    · cases hspawn
      exact Or.inr ⟨_, AList.lookup_insert _, rfl, rfl⟩

/-- **A step of the runtime leaves every supervisor staffed** -/
theorem Staffed.stepped (h : Staffed node) {event : Event F} (hs : Stepped node event next) :
    Staffed next := by
  cases hs with
  | start spec entries => exact h.startSupervisor spec entries
  | request request =>
    refine h.send _ fun hm => ?_
    cases request with
    | addChild | addChildren | shutdown => cases hm
  | work hsup hlife hr => exact h.work hsup hlife hr
  | @leave k now sup call hsup hlife =>
    obtain ⟨stops, starts, ho⟩ := h.orderly hsup
    have hleft : sup.life ≠ .looping := by
      rw [hlife]
      nofun
    have ho' : Orderly { sup with life := .left (call.step node.table).2 } stops starts :=
      ⟨ho.plan, ho.bound, ho.owed, ho.purpose, ho.starting, ho.stopping, ho.handles, ho.taken,
        ho.ending, fun _ => ho.left hleft⟩
    have h' := h.setSup hsup ⟨stops, starts, ho'⟩ (fun he => he) (fun hh => Or.inl hh)
      fun hm => Or.inl hm
    exact h'.evolve (Nat.le_of_eq (step_bounded node.table call).nextId.symm) (.refl _)
  | task htask hstep =>
    obtain ⟨hadv, -⟩ := Task.step_advanced hstep
    exact h.evolve (Nat.le_of_eq (Task.step_nextId hstep).symm) (.insert htask hadv)
  | report htask hstep =>
    obtain ⟨hadv, hreport⟩ := Task.step_advanced hstep
    have h' := h.evolve (Nat.le_of_eq (Task.step_nextId hstep).symm) (.insert htask hadv)
    refine h'.send _ fun hm => ?_
    cases hm
    refine ⟨_, AList.lookup_insert _, ⟨hadv.supervisor, hadv.index⟩, ?_⟩
    rw [(hreport _ rfl).2]
    exact Nat.le_refl 5

theorem staffed_of_reach {ok : Node F → Event F → Prop} (h : (machine F).Reach ok node) :
    Staffed node := by
  refine h.inv (fun node hstart => ?_) fun node event next hn _ hs => ?_
  · obtain ⟨nodeId, rfl⟩ := hstart
    exact .new nodeId
  · exact hn.stepped (next_cases hs)

/-- the rule for what holds of every staffed node of a run -/
theorem inv_staffed {ok : Node F → Event F → Prop} {I : Node F → Prop}
    (h : (machine F).Reach ok node) (hnew : ∀ nodeId, I (.new nodeId))
    (hstep : ∀ {node event next}, I node → Staffed node → ok node event →
      Stepped node event next → I next) : I node := by
  induction h with
  | start hstart =>
    obtain ⟨nodeId, rfl⟩ := hstart
    exact hnew nodeId
  | step hreach hok hs ih => exact hstep ih (staffed_of_reach hreach) hok (next_cases hs)

end Rebar.Supervisor

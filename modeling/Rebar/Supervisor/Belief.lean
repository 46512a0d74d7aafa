import Rebar.Supervisor.Staff

/-!
# A child on record is alive

* `FactoriesReturn`   the condition: a factory that is called returns its future;
* `Tended`            a process that is not leaving is in the table: only its own cleanup removes it.
-/

namespace Rebar.Supervisor

open Process

variable {F : Type} {node next : Node F} {sup : SupervisorLoop F} {now : Nanos}
  {pid : ProcessId} {task : Task F}

/-! ## the condition -/

def Phase.inFactory : Phase → Bool
  | .calling => true
  | _ => false

def FactoriesReturn (node : Node F) : Event F → Prop
  | .task pid .panics => (node.tasks.lookup pid).any (fun task => task.phase.inFactory) = false
  | _ => True

instance (node : Node F) : DecidablePred (FactoriesReturn node)
  | .task pid .panics =>
    inferInstanceAs (Decidable
      ((node.tasks.lookup pid).any (fun task => task.phase.inFactory) = false))
  | .start _ _ | .request _ _ | .work _ _ | .task _ .proceed | .task _ (.returns _)
  | .task _ .cancelled => inferInstanceAs (Decidable True)

theorem Task.leaves {table : ProcessTable} {choice : Choice} {report : Option ExitReason}
    {table' : ProcessTable} {next : Task F}
    (h : task.step pid table choice = some (table', next, report)) (hrank : 5 ≤ next.phase.rank) :
    5 ≤ task.phase.rank ∨ (task.phase.inFactory = true ∧ choice = .panics) ∨
      ∃ reason, report = some reason := by
  unfold Task.step at h
  split at h <;> cases h
  case h_1 => exact absurd (Nat.le_trans hrank (Phase.rank_named _)) (by decide)
  case h_3 hphase =>
    rw [hphase]
    exact Or.inr (Or.inl ⟨rfl, rfl⟩)
  case h_8 => exact Or.inr (Or.inr ⟨_, rfl⟩)
  case h_9 hphase =>
    rw [hphase]
    exact Or.inl (Nat.le_refl 5)
  all_goals exact absurd hrank (by simp [Phase.rank])

/-! ## exits are reported -/

/-- the exit of a held process that leaves is in the queue of its supervisor -/
structure Told (node : Node F) : Prop where
  queued : ∀ {k : Nat} {sup i pid task}, node.sups[k]? = some sup → sup.Holds i pid →
    node.tasks.lookup pid = some task → 5 ≤ task.phase.rank →
    ∃ reason, .childExited i pid reason ∈ sup.inbox

theorem Told.new (nodeId : Nat) : Told (Node.new nodeId : Node F) := ⟨nofun⟩

variable {k : Nat} {tasks : HashMap ProcessId (Task F)} {r : SupervisorLoop F × Effect F}

/-- a supervisor changes; what it holds is as before, or fresh, and the exits stay in the queue -/
theorem Told.setSup (h : Told node) (hsup : node.sups[k]? = some sup) (sup' : SupervisorLoop F)
    (hkeep : ∀ {i pid task}, sup'.Holds i pid → node.tasks.lookup pid = some task →
      5 ≤ task.phase.rank → sup.Holds i pid ∧ ∀ {reason}, .childExited i pid reason ∈ sup.inbox →
        .childExited i pid reason ∈ sup'.inbox) :
    Told { node with sups := node.sups.set k sup' } := by
  refine ⟨fun hs hholds htask hrank => ?_⟩
  rcases sups_set_cases hs with ⟨rfl, rfl⟩ | ⟨-, hs⟩
  · obtain ⟨hold, hin⟩ := hkeep hholds htask hrank
    obtain ⟨reason, hm⟩ := h.queued hsup hold htask hrank
    exact ⟨reason, hin hm⟩
  · exact h.queued hs hholds htask hrank

theorem Told.evolve (h : Told node) {table : ProcessTable}
    (hback : ∀ {p t}, tasks.lookup p = some t → 5 ≤ t.phase.rank →
      ∃ t₀, node.tasks.lookup p = some t₀ ∧ 5 ≤ t₀.phase.rank) :
    Told { node with table := table, tasks := tasks } := by
  refine ⟨fun hs hholds htask hrank => ?_⟩
  obtain ⟨t₀, ht₀, hrank₀⟩ := hback htask hrank
  exact h.queued hs hholds ht₀ hrank₀

theorem Told.send (h : Told node) (k : Nat) (msg : SupervisorMsg F) : Told (node.send k msg) := by
  refine Node.send_of h fun hsup => h.setSup hsup _ fun hholds _ _ =>
    ⟨SupervisorLoop.holds_send.mp hholds, fun hm => ?_⟩
  unfold SupervisorLoop.send
  split
  · exact List.mem_append_left _ hm
  · exact hm

theorem Told.startSupervisor (h : Told node) (spec : SupervisorSpec)
    (entries : List (ChildEntry F)) : Told (node.startSupervisor spec entries) := by
  refine ⟨fun hs hholds htask hrank => ?_⟩
  rcases startSupervisor_cases hs with hs | rfl
  · exact h.queued hs hholds htask hrank
  · exact absurd hholds SupervisorLoop.not_holds_new

theorem Told.work (h : Told node) (hst : Staffed node) (hsup : node.sups[k]? = some sup)
    (hr : Worked sup (Node.spawned node.table).2 node.tasks now r) :
    Told (node.apply k r.1 r.2) := by
  obtain ⟨stops, starts, ho⟩ := hst.orderly hsup
  have h' : Told { node with sups := node.sups.set k r.1 } := by
    refine h.setSup hsup r.1 fun hholds htask _ => ?_
    rcases hholds.of_work ho hr with hold | ⟨rfl, -⟩
    · exact ⟨hold, fun hm => hr.keeps_exit hm hholds⟩
    · exact absurd (hst.fresh htask) (Nat.lt_irrefl _)
  obtain ⟨sup', effect⟩ := r
  cases effect with
  | nothing => exact h'
  | abort target =>
    refine h'.evolve fun ht hrank => ?_
    obtain ⟨t₀, ht₀, rfl | ⟨-, rfl⟩⟩ := lookup_aborted ht
    · exact ⟨_, ht₀, hrank⟩
    · rw [t₀.aborted_advanced.2] at hrank
      exact ⟨t₀, ht₀, hrank⟩
  | spawn index entry =>
    refine h'.evolve fun ht hrank => ?_
    rcases HashMap.of_lookup_insert ht with ⟨-, rfl⟩ | ⟨-, ht⟩
    · exact absurd (Nat.le_trans hrank (Task.rank_spawned _ _ _ _)) (by decide)
    · exact ⟨_, ht, hrank⟩

theorem Told.report (h : Told node) (hst : Staffed node) {table : ProcessTable} {next : Task F}
    (htask : node.tasks.lookup pid = some task) (reason : ExitReason) :
    Told (Node.send { node with table := table, tasks := node.tasks.insert pid next }
      task.supervisor (.childExited task.index pid reason)) := by
  -- the process is held by its own supervisor, for its own child
  have hown : ∀ {k : Nat} {s i}, node.sups[k]? = some s → s.Holds i pid →
      task.supervisor = k ∧ task.index = i := by
    intro k s i hs hholds
    obtain ⟨t, ht, hof⟩ := hst.held hs hholds
    cases htask.symm.trans ht
    exact hof
  have hother : ∀ {k : Nat} {s i p t}, node.sups[k]? = some s → s.Holds i p →
      (node.tasks.insert pid next).lookup p = some t → 5 ≤ t.phase.rank → p ≠ pid →
      ∃ reason, .childExited i p reason ∈ s.inbox := by
    intro k s i p t hs hholds ht hrank hne
    rw [HashMap.lookup_insert_if, if_neg hne] at ht
    exact h.queued hs hholds ht hrank
  rcases Node.send_eq { node with table := table, tasks := node.tasks.insert pid next }
    task.supervisor (.childExited task.index pid reason) with ⟨hnone, heq⟩ | ⟨sup, hsup, heq⟩
  · rw [heq]
    refine ⟨fun {k s i p t} hs hholds ht hrank => hother hs hholds ht hrank ?_⟩
    rintro rfl
    rw [(hown hs hholds).1] at hnone
    cases hnone.symm.trans hs
  · rw [heq]
    refine ⟨fun {k s i p t} hs hholds ht hrank => ?_⟩
    rcases sups_set_cases hs with ⟨rfl, rfl⟩ | ⟨hne, hs⟩
    · rw [SupervisorLoop.holds_send] at hholds
      obtain ⟨stops, starts, ho⟩ := hst.orderly hsup
      rw [SupervisorLoop.send, ho.looping hholds]
      by_cases hp : p = pid
      · subst hp
        obtain ⟨-, rfl⟩ := hown hsup hholds
        exact ⟨reason, List.mem_append_right _ List.mem_cons_self⟩
      · obtain ⟨r, hm⟩ := hother hsup hholds ht hrank hp
        exact ⟨r, List.mem_append_left _ hm⟩
    · refine hother hs hholds ht hrank ?_
      rintro rfl
      exact hne (hown hs hholds).1.symm

theorem Told.stepped (h : Told node) (hst : Staffed node) {event : Event F}
    (hok : FactoriesReturn node event) (hs : Stepped node event next) : Told next := by
  cases hs with
  | start spec entries => exact h.startSupervisor spec entries
  | request request => exact h.send _ _
  | work hsup hlife hr => exact h.work hst hsup hr
  | @leave k now sup call hsup =>
    let sup' := { sup with life := .left (call.step node.table).2 }
    have h' := h.setSup hsup sup' fun hholds _ _ => ⟨hholds, fun hm => hm⟩
    exact h'.evolve fun ht hrank => ⟨_, ht, hrank⟩
  | report htask hstep => exact h.report hst htask _
  | @task pid choice task next table htask hstep =>
    refine h.evolve fun {p t} ht hrank => ?_
    rcases HashMap.of_lookup_insert ht with ⟨hp, rfl⟩ | ⟨-, ht⟩
    · rw [hp]
      refine ⟨task, htask, ?_⟩
      rcases Task.leaves hstep hrank with hleft | ⟨hfactory, rfl⟩ | ⟨reason, hreport⟩
      · exact hleft
      · replace hok : (node.tasks.lookup pid).any (fun task => task.phase.inFactory) = false := hok
        rw [htask, Option.any_some, hfactory] at hok
        cases hok
      · cases hreport
    · exact ⟨t, ht, hrank⟩

theorem told_of_reach (h : (machine F).Reach FactoriesReturn node) : Told node :=
  inv_staffed h .new fun hn hst hok hs => hn.stepped hst hok hs

/-! ## only its own cleanup removes a process -/

def Phase.removes : Phase → Option ProcessId
  | .naming call => call.removes
  | .leaving call => call.removes
  | _ => none

def Life.removes : Life → Option ProcessId
  | .leaving call => call.removes
  | _ => none

theorem Phase.removes_named (progress : Progress) :
    (Phase.named progress).removes = progress.removes := by
  cases progress <;> rfl

theorem Phase.removes_left (progress : Progress) :
    (Phase.left progress).removes = progress.removes := by
  cases progress <;> rfl

theorem Life.removes_left (progress : Progress) :
    (Life.left progress).removes = progress.removes := by
  cases progress <;> rfl

section
variable {table table' : ProcessTable} {next : Task F} {choice : Choice}
  {report : Option ExitReason}

theorem Task.step_processes (h : task.step pid table choice = some (table', next, report))
    {p : ProcessId} (hp : p ∈ table.processes) (hne : task.phase.removes ≠ some p) :
    p ∈ table'.processes := by
  unfold Task.step at h
  split at h <;> cases h
  case h_1 hphase =>
    rw [hphase] at hne
    exact NameCall.mem_step hp hne
  case h_9 hphase =>
    rw [hphase] at hne
    exact NameCall.mem_step hp hne
  all_goals exact hp

theorem Task.step_removes (h : task.step pid table choice = some (table', next, report))
    {q : ProcessId} (hq : next.phase.removes = some q) : q = pid ∧ 5 ≤ next.phase.rank := by
  unfold Task.step at h
  split at h <;> cases h
  case h_1 call _ =>
    have hnone := (Phase.removes_named _).trans (call.removes_step table)
    cases hnone.symm.trans hq
  case h_9 call _ =>
    have hnone := (Phase.removes_left _).trans (call.removes_step table)
    cases hnone.symm.trans hq
  case h_3 => exact ⟨(Option.some.inj hq).symm, Nat.le_refl 5⟩
  case h_8 => exact ⟨(Option.some.inj hq).symm, Nat.le_refl 5⟩
  all_goals cases hq

end

theorem Task.spawned_removes (k index : Nat) (entry : ChildEntry F) (pid : ProcessId) :
    (Task.spawned k index entry pid).phase.removes = none := by
  unfold Task.spawned
  dsimp only
  split <;> rfl

theorem Task.aborted_removes (task : Task F) : task.aborted.phase.removes = task.phase.removes := by
  unfold Task.aborted
  split
  next hphase =>
    rw [hphase]
    rfl
  next => rfl

structure Tended (node : Node F) : Prop where
  alive : ∀ {pid task}, node.tasks.lookup pid = some task → task.phase.rank < 5 →
    pid ∈ node.table.processes
  tidy : ∀ {pid task q}, node.tasks.lookup pid = some task → task.phase.removes = some q →
    q = pid ∧ 5 ≤ task.phase.rank
  /-- a supervisor is none of the children, and removes nothing but itself -/
  boss : ∀ {k : Nat} {sup}, node.sups[k]? = some sup → sup.pid.localId < node.table.nextId ∧
    node.tasks.lookup sup.pid = none ∧ ∀ {q}, sup.life.removes = some q → q = sup.pid

theorem Tended.new (nodeId : Nat) : Tended (Node.new nodeId : Node F) := ⟨nofun, nofun, nofun⟩

theorem Worked.pid_life {fresh : ProcessId} (hr : Worked sup fresh tasks now r) :
    r.1.pid = sup.pid ∧ (r.1.life = sup.life ∨ r.1.life = .leaving (cleanupProcess sup.pid)) := by
  cases hr with
  | received _ _ _ _ _ hreceived =>
    refine ⟨?_, Or.inl hreceived.wait.2.2⟩
    cases hreceived <;> rfl
  | leaving => exact ⟨rfl, Or.inr rfl⟩
  | spawned | started | killing | waiting | reset | stopped | overrun => exact ⟨rfl, Or.inl rfl⟩

theorem Tended.setSup (h : Tended node) (hsup : node.sups[k]? = some sup) (sup' : SupervisorLoop F)
    (hpid : sup'.pid = sup.pid)
    (hlife : ∀ {q}, sup'.life.removes = some q → sup.life.removes = some q ∨ q = sup.pid) :
    Tended { node with sups := node.sups.set k sup' } := by
  refine ⟨h.alive, h.tidy, fun hs => ?_⟩
  rcases sups_set_cases hs with ⟨-, rfl⟩ | ⟨-, hs⟩
  · obtain ⟨hlt, hnone, hremoves⟩ := h.boss hsup
    rw [hpid]
    exact ⟨hlt, hnone, fun hq => (hlife hq).elim hremoves id⟩
  · exact h.boss hs

theorem Tended.send (h : Tended node) (k : Nat) (msg : SupervisorMsg F) :
    Tended (node.send k msg) := by
  refine Node.send_of h fun {sup} hsup => ?_
  obtain ⟨-, -, -, -, hlife, hpid⟩ := sup.send_same msg
  exact h.setSup hsup _ hpid fun hq => Or.inl (hlife ▸ hq)

theorem Tended.insert (h : Tended node) {table : ProcessTable} {next : Task F}
    (hid : node.table.nextId ≤ table.nextId)
    (hothers : ∀ {p t}, node.tasks.lookup p = some t → p ≠ pid → t.phase.rank < 5 →
      p ∈ table.processes)
    (halive : next.phase.rank < 5 → pid ∈ table.processes)
    (htidy : ∀ {q}, next.phase.removes = some q → q = pid ∧ 5 ≤ next.phase.rank)
    (hboss : ∀ {k : Nat} {sup}, node.sups[k]? = some sup → sup.pid ≠ pid) :
    Tended { node with table := table, tasks := node.tasks.insert pid next } := by
  refine ⟨fun {p t} ht hrank => ?_, fun {p t q} ht hq => ?_, fun hs => ?_⟩
  · rcases HashMap.of_lookup_insert ht with ⟨heq, rfl⟩ | ⟨hne, ht⟩
    · rw [heq]
      exact halive hrank
    · exact hothers ht hne hrank
  · rcases HashMap.of_lookup_insert ht with ⟨heq, rfl⟩ | ⟨-, ht⟩
    · rw [heq]
      exact htidy hq
    · exact h.tidy ht hq
  · obtain ⟨hlt, hnone, hq⟩ := h.boss hs
    refine ⟨Nat.lt_of_lt_of_le hlt hid, ?_, hq⟩
    rw [HashMap.lookup_insert_if, if_neg (hboss hs)]
    exact hnone

theorem Tended.abort (h : Tended node) (target : Option ProcessId) :
    Tended { node with
      tasks := target.elim node.tasks fun pid => HashMap.modify node.tasks pid Task.aborted } := by
  refine ⟨fun ht hrank => ?_, fun ht hq => ?_, fun hs => ?_⟩
  · obtain ⟨t₀, ht₀, rfl | ⟨-, rfl⟩⟩ := lookup_aborted ht
    · exact h.alive ht₀ hrank
    · rw [t₀.aborted_advanced.2] at hrank
      exact h.alive ht₀ hrank
  · obtain ⟨t₀, ht₀, rfl | ⟨-, rfl⟩⟩ := lookup_aborted ht
    · exact h.tidy ht₀ hq
    · rw [t₀.aborted_removes] at hq
      rw [t₀.aborted_advanced.2]
      exact h.tidy ht₀ hq
  · obtain ⟨hlt, hnone, hq⟩ := h.boss hs
    refine ⟨hlt, Option.eq_none_iff_forall_ne_some.mpr fun t ht => ?_, hq⟩
    obtain ⟨t₀, ht₀, -⟩ := lookup_aborted ht
    cases hnone.symm.trans ht₀

theorem Tended.startSupervisor (h : Tended node) (hst : Staffed node) (spec : SupervisorSpec)
    (entries : List (ChildEntry F)) : Tended (node.startSupervisor spec entries) := by
  refine ⟨fun ht hrank => Finset.mem_insert_of_mem (h.alive ht hrank), h.tidy, fun hs => ?_⟩
  rcases startSupervisor_cases hs with hs | rfl
  · exact ⟨Nat.lt_succ_of_lt (h.boss hs).1, (h.boss hs).2⟩
  · refine ⟨Nat.lt_succ_self _, Option.eq_none_iff_forall_ne_some.mpr fun t ht => ?_, nofun⟩
    exact Nat.lt_irrefl _ (hst.fresh ht)

theorem Tended.work (h : Tended node) (hsup : node.sups[k]? = some sup)
    (hr : Worked sup (Node.spawned node.table).2 node.tasks now r) :
    Tended (node.apply k r.1 r.2) := by
  obtain ⟨hpid, hlife⟩ := hr.pid_life
  have h' : Tended { node with sups := node.sups.set k r.1 } := by
    refine h.setSup hsup r.1 hpid fun hq => ?_
    rcases hlife with heq | heq
    · rw [heq] at hq
      exact Or.inl hq
    · rw [heq] at hq
      exact Or.inr (Option.some.inj hq).symm
  obtain ⟨sup', effect⟩ := r
  cases effect with
  | nothing => exact h'
  | abort target => exact h'.abort target
  | spawn index entry =>
    refine h'.insert (Nat.le_succ _)
      (fun ht _ hrank => Finset.mem_insert_of_mem (h.alive ht hrank))
      (fun _ => Finset.mem_insert_self _ _) (fun hq => ?_) fun hs heq => ?_
    · rw [Task.spawned_removes] at hq
      cases hq
    · have hlt := (h'.boss hs).1
      rw [heq] at hlt
      exact Nat.lt_irrefl _ hlt

theorem Tended.step (h : Tended node) {choice : Choice} {table : ProcessTable} {next : Task F}
    {report : Option ExitReason} (htask : node.tasks.lookup pid = some task)
    (hstep : task.step pid node.table choice = some (table, next, report)) :
    Tended { node with table := table, tasks := node.tasks.insert pid next } := by
  refine h.insert (Nat.le_of_eq (Task.step_nextId hstep).symm) (fun ht hne hrank => ?_)
    (fun hrank => ?_) (Task.step_removes hstep) fun hs heq => ?_
  · exact Task.step_processes hstep (h.alive ht hrank) fun hq => hne (h.tidy htask hq).1
  · have hlt := Nat.lt_of_le_of_lt (Task.step_advanced hstep).1.rank hrank
    refine Task.step_processes hstep (h.alive htask hlt) fun hq => ?_
    exact Nat.not_le_of_lt hlt (h.tidy htask hq).2
  · have hnone := (h.boss hs).2.1
    rw [heq, htask] at hnone
    cases hnone

theorem Tended.leave (h : Tended node) {call : NameCall} (hsup : node.sups[k]? = some sup)
    (hlife : sup.life = .leaving call) :
    Tended { node with
      table := (call.step node.table).1
      sups := node.sups.set k { sup with life := .left (call.step node.table).2 } } := by
  obtain ⟨-, hnone, hremoves⟩ := h.boss hsup
  have h' := h.setSup hsup { sup with life := .left (call.step node.table).2 } rfl fun {q} hq => by
    replace hq : (Life.left _).removes = some q := hq
    rw [Life.removes_left, NameCall.removes_step] at hq
    cases hq
  refine ⟨fun ht hrank => ?_, h'.tidy, fun hs => ?_⟩
  · refine NameCall.mem_step (h.alive ht hrank) fun hq => ?_
    rw [hlife] at hremoves
    rw [hremoves hq] at ht
    cases hnone.symm.trans ht
  · obtain ⟨hlt, hrest⟩ := h'.boss hs
    exact ⟨Nat.lt_of_lt_of_eq hlt (step_bounded node.table call).nextId.symm, hrest⟩

theorem Tended.stepped (h : Tended node) (hst : Staffed node) {event : Event F}
    (hs : Stepped node event next) : Tended next := by
  cases hs with
  | start spec entries => exact h.startSupervisor hst spec entries
  | request request => exact h.send _ _
  | work hsup hlife hr => exact h.work hsup hr
  | leave hsup hlife => exact h.leave hsup hlife
  | task htask hstep => exact h.step htask hstep
  | report htask hstep => exact (h.step htask hstep).send _ _

theorem tended_of_reach {ok : Node F → Event F → Prop} (h : (machine F).Reach ok node) :
    Tended node :=
  inv_staffed h .new fun hn hst _ hs => hn.stepped hst hs

/-! ## the theorem -/

/-- the inner task has ended and the exit is not yet reported -/
def Phase.reports : Phase → Bool
  | .done _ => true
  | .reporting _ => true
  | _ => false

theorem Phase.not_ended {phase : Phase} (hrank : phase.rank < 5) (h : phase.reports = false) :
    phase.ended = false := by
  cases phase with
  | naming | calling | running => rfl
  | done | reporting => cases h
  | leaving | gone => exact absurd hrank (by simp [Phase.rank])

/-- **With no message left, every child on record has a live process**, and its inner task has not
ended unless some process is about to report. -/
theorem recorded_alive (h : (machine F).Reach FactoriesReturn node) {k i : Nat}
    (hsup : node.sups[k]? = some sup) (hinbox : sup.inbox = []) {child : ChildState F}
    (hchild : sup.state.children[i]? = some child) (hpid : child.pid = some pid) :
    pid ∈ node.table.processes ∧ ∃ task, node.tasks.lookup pid = some task ∧ task.Of k i ∧
      ((∀ p t, node.tasks.lookup p = some t → t.phase.reports = false) →
        task.phase.ended = false) := by
  have hholds : sup.Holds i pid := Or.inl (Option.bind_eq_some_iff.mpr ⟨child, hchild, hpid⟩)
  obtain ⟨task, htask, hof⟩ := (staffed_of_reach h).held hsup hholds
  have hrank : task.phase.rank < 5 := by
    refine Nat.lt_of_not_le fun hrank => ?_
    obtain ⟨reason, hm⟩ := (told_of_reach h).queued hsup hholds htask hrank
    rw [hinbox] at hm
    cases hm
  refine ⟨(tended_of_reach h).alive htask hrank, task, htask, hof, fun hquiet => ?_⟩
  exact Phase.not_ended hrank (hquiet pid task htask)

/-- the supervisor has one child, with the process on record, and no message -/
private def records (node : Node Unit) (pid : ProcessId) : Bool :=
  (node.sups[0]?).any fun sup => sup.inbox.isEmpty &&
    (sup.state.children[0]?).any fun child =>
      decide (child.spec.restart = RestartType.permanent ∧ child.pid = some pid)

private theorem exists_of_records {node : Node Unit} (h : records node pid = true) :
    ∃ sup child, node.sups[0]? = some sup ∧ sup.inbox = [] ∧
      sup.state.children[0]? = some child ∧ child.spec.restart = RestartType.permanent ∧
      child.pid = some pid := by
  obtain ⟨sup, hsup, h⟩ := (Option.any_eq_true _ _).mp h
  obtain ⟨hinbox, h⟩ := Bool.and_eq_true_iff.mp h
  obtain ⟨child, hchild, h⟩ := (Option.any_eq_true _ _).mp h
  exact ⟨sup, child, hsup, List.isEmpty_iff.mp hinbox, hchild, of_decide_eq_true h⟩

/-- the child panics while it runs, and is restarted -/
theorem recorded_alive_restarted : ∃ node : Node Unit,
    (machine Unit).Reach FactoriesReturn node ∧ ⟨1, 2⟩ ∉ node.table.processes ∧
    (∃ sup child, node.sups[0]? = some sup ∧ sup.inbox = [] ∧
      sup.state.children[0]? = some child ∧ child.pid = some ⟨1, 3⟩) ∧
    ⟨1, 3⟩ ∈ node.table.processes := by
  have hstart : (machine Unit).Reach FactoriesReturn (Node.new 1) := .start ⟨1, rfl⟩
  obtain ⟨node, h, hrecords, hdead⟩ := hstart.exists_checked
    (List.flatten [[.supervises .oneForOne ["worker"]], Event.hires ⟨1, 2⟩,
      Event.exits ⟨1, 2⟩ .panics, [.work 0 0], Event.hires ⟨1, 3⟩, [.task ⟨1, 2⟩ .proceed]])
    (p := fun node => records node ⟨1, 3⟩ = true ∧ ⟨1, 2⟩ ∉ node.table.processes) (by decide)
  obtain ⟨sup, child, hsup, hinbox, hchild, -, hpid⟩ := exists_of_records hrecords
  exact ⟨node, h, hdead, ⟨sup, child, hsup, hinbox, hchild, hpid⟩,
    (recorded_alive h hsup hinbox hchild hpid).1⟩

/-- **A factory that panics leaves a dead process on record**: the supervisor has nothing left to
do and believes that its permanent child runs. -/
theorem dead_on_record : ∃ node : Node Unit, (machine Unit).Reach Machine.Anytime node ∧
    (∃ sup child, node.sups[0]? = some sup ∧ sup.inbox = [] ∧
      sup.state.children[0]? = some child ∧ child.spec.restart = .permanent ∧
      child.pid = some ⟨1, 2⟩) ∧
    ⟨1, 2⟩ ∉ node.table.processes ∧ ∀ p t, node.tasks.lookup p = some t → t.phase.reports = false := by
  have hstart : (machine Unit).Reach Machine.Anytime (Node.new 1) := .start ⟨1, rfl⟩
  obtain ⟨node, h, hrecords, hdead, hquiet⟩ := hstart.exists_run
    (List.flatten [[.supervises .oneForOne ["worker"], .work 0 0], Event.exits ⟨1, 2⟩ .panics,
      [.task ⟨1, 2⟩ .proceed, .work 0 0]])
    (p := fun node => records node ⟨1, 2⟩ = true ∧ ⟨1, 2⟩ ∉ node.table.processes ∧
      ∀ e ∈ node.tasks.entries, e.2.phase.reports = false) (by decide)
  exact ⟨node, h, exists_of_records hrecords, hdead, fun p t ht => hquiet _ (AList.mem_lookup_iff.mp ht)⟩

end Rebar.Supervisor

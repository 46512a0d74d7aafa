import Rebar.Supervisor.Owners

/-!
# A child that is done stays done

A child whose task ends with a reason that asks for no restart, while nobody told it to stop, is not
started again, provided that the supervisor has heard of the end when it restarts a group.
-/

namespace Rebar.Supervisor

open Process SupervisorLoop

variable {F : Type} {node next mid last : Node F} {sup : SupervisorLoop F} {now : Nanos}
  {pid fresh : ProcessId} {task : Task F} {tasks : HashMap ProcessId (Task F)} {k i : Nat}
  {reason : ExitReason} {phase : Phase}

/-! ## ends -/

/-- the task of a child ends by itself: the child returns or panics, or its factory panics -/
def Task.finishes (task : Task F) (choice : Choice) : Option ExitReason :=
  match task.phase, choice with
  | .calling, .panics => some (.abnormal "panic")
  | .running false, .returns reason => some reason
  | .running false, .panics => some (.abnormal "panic")
  | _, _ => none

/-- the reason of the exit of a process, if the message reports that -/
def SupervisorMsg.exitOf (i : Nat) (pid : ProcessId) : SupervisorMsg F → Option ExitReason
  | .childExited index p reason => if index = i ∧ p = pid then some reason else none
  | _ => none

/-- the reason for which a process has ended and that the supervisor has not handled; a process
that leaves without a report never got to run its child -/
def SupervisorLoop.verdict (sup : SupervisorLoop F) (i : Nat) (pid : ProcessId) :
    Phase → Option ExitReason
  | .done reason => some reason
  | .reporting reason => some reason
  | .leaving _ | .gone => some ((sup.inbox.findSome? (·.exitOf i pid)).getD (.abnormal "panic"))
  | .naming _ | .calling | .running _ => none

variable {msg : SupervisorMsg F} {choice : Choice} {sup' : SupervisorLoop F}
  {table table' : ProcessTable} {p : ProcessId} {r : SupervisorLoop F × Effect F}

theorem SupervisorMsg.exitOf_eq_some :
    msg.exitOf i pid = some reason ↔ msg = .childExited i pid reason := by
  unfold exitOf
  cases msg with
  | childExited index p r =>
    dsimp only
    split
    next h => simp [h.1, h.2]
    next h =>
      refine ⟨nofun, fun heq => ?_⟩
      cases heq
      exact absurd ⟨rfl, rfl⟩ h
  | addChild | addChildren | shutdown => exact ⟨nofun, nofun⟩

theorem Task.untold_of_finishes (h : task.finishes choice = some reason) :
    task.phase.untold = true := by
  unfold Task.finishes at h
  split at h
  next hphase => rw [hphase]; rfl
  next hphase => rw [hphase]; rfl
  next hphase => rw [hphase]; rfl
  next => cases h

theorem SupervisorLoop.verdict_late (h : 5 ≤ phase.rank) : sup.verdict i pid phase =
    some ((sup.inbox.findSome? (·.exitOf i pid)).getD (.abnormal "panic")) := by
  cases phase with
  | leaving | gone => rfl
  | naming | calling | running | done | reporting => exact absurd h (by simp [Phase.rank])

theorem SupervisorLoop.verdict_early (h : phase.rank < 5) :
    sup'.verdict i pid phase = sup.verdict i pid phase := by
  cases phase with
  | leaving | gone => exact absurd h (by simp [Phase.rank])
  | naming | calling | running | done | reporting => rfl

theorem Task.aborted_verdict (h : sup.verdict i pid task.phase = some reason) :
    task.aborted = task := by
  unfold Task.aborted
  split
  next hphase =>
    rw [hphase] at h
    cases h
  next => rfl

theorem Task.step_verdict {next : Task F} {report : Option ExitReason}
    (h : task.step p table choice = some (table', next, report))
    (hv : sup.verdict i pid task.phase = some reason) :
    (report = none ∧ sup.verdict i pid next.phase = some reason) ∨
      (report = some reason ∧ task.phase = .reporting reason) := by
  unfold Task.step at h
  split at h <;> cases h
  case h_7 hphase =>
    rw [hphase] at hv
    exact Or.inl ⟨rfl, hv⟩
  case h_8 hphase =>
    rw [hphase] at hv
    cases hv
    exact Or.inr ⟨rfl, hphase⟩
  case h_9 hphase =>
    rw [hphase] at hv
    refine Or.inl ⟨rfl, ?_⟩
    rw [← hv]
    exact verdict_late (Phase.rank_left _)
  all_goals
    rename_i hphase
    rw [hphase] at hv
    cases hv

theorem SupervisorLoop.not_reported (h : ∀ r, .childExited i pid r ∉ sup.inbox) :
    sup.inbox.findSome? (·.exitOf i pid) = none := by
  rw [List.findSome?_eq_none_iff]
  intro msg hmsg
  refine Option.eq_none_iff_forall_ne_some.mpr fun r hr => h r ?_
  rw [← SupervisorMsg.exitOf_eq_some.mp hr]
  exact hmsg

theorem SupervisorLoop.verdict_reported (hlife : sup.life = .looping)
    (hquiet : ∀ r, .childExited i pid r ∉ sup.inbox) (hrank : 5 ≤ phase.rank) :
    (sup.send (.childExited i pid reason)).verdict i pid phase = some reason := by
  have hsent : (sup.send (.childExited i pid reason)).inbox =
      sup.inbox ++ [.childExited i pid reason] := by
    unfold SupervisorLoop.send
    rw [hlife]
  rw [verdict_late hrank, hsent, List.findSome?_append,
    not_reported hquiet, List.findSome?_singleton,
    SupervisorMsg.exitOf_eq_some.mpr rfl]
  rfl

theorem Task.finishes_verdict {next : Task F} {report : Option ExitReason}
    (hfinish : task.finishes choice = some reason)
    (h : task.step pid table choice = some (table', next, report))
    (hquiet : ∀ r, .childExited i pid r ∉ sup.inbox) :
    report = none ∧ sup.verdict i pid next.phase = some reason := by
  unfold Task.finishes at hfinish
  unfold Task.step at h
  split at hfinish
  next hphase =>
    rw [hphase] at h
    cases h
    cases hfinish
    refine ⟨rfl, ?_⟩
    show some ((sup.inbox.findSome? (·.exitOf i pid)).getD (.abnormal "panic")) = _
    rw [not_reported hquiet]
    rfl
  next hphase =>
    rw [hphase] at h
    cases h
    cases hfinish
    exact ⟨rfl, rfl⟩
  next hphase =>
    rw [hphase] at h
    cases h
    cases hfinish
    exact ⟨rfl, rfl⟩
  next => cases hfinish

/-! ## the condition -/

instance (state : SupervisorState F) (index i : Nat) : Decidable (state.InGroup index i) :=
  decidable_of_iff
    ((i == index || match state.strategy with
      | .oneForOne => false
      | .oneForAll => state.recorded i
      | .restForOne => decide (index < i) && state.recorded i) = true)
    (by unfold SupervisorState.InGroup; cases state.strategy <;> simp)

/-- the loop is about to handle the exit of another child and to restart this one with it -/
def SupervisorLoop.regroups (sup : SupervisorLoop F) (now : Nanos) (i : Nat) : Bool :=
  match sup.wait, sup.todo, sup.ending, sup.inbox with
  | none, [], none, .childExited index pid reason :: _ =>
    i != index && sup.state.InGroup index i && (sup.state.checkRestartLimit now).2 &&
      (sup.state.children[index]?).any fun child =>
        child.pid == some pid && child.spec.restart.shouldRestart reason
  | _, _, _, _ => false

/-- the process on record has ended for good, and the supervisor has not handled that -/
def SupervisorLoop.behind (sup : SupervisorLoop F) (tasks : HashMap ProcessId (Task F)) (i : Nat) :
    Bool :=
  (sup.state.current i).any fun pid => (tasks.lookup pid).any fun task =>
    (sup.verdict i pid task.phase).any fun reason =>
      !task.entry.spec.restart.shouldRestart reason

/-- a group with the child `i` of supervisor `k` is restarted only when the supervisor is not behind
on that child, and the child ends for good only when no start of it is due -/
def Heard (k i : Nat) (node : Node F) : Event F → Prop
  | .work j now => j = k → ∀ sup ∈ node.sups[k]?, sup.regroups now i = true →
    sup.behind node.tasks i = false
  | .task pid choice => ∀ task ∈ node.tasks.lookup pid, task.Of k i →
    ∀ reason ∈ task.finishes choice, task.entry.spec.restart.shouldRestart reason = false →
    ∀ sup ∈ node.sups[k]?, .start i ∉ sup.todo
  | .start _ _ | .request _ _ => True

instance (k i : Nat) (node : Node F) : DecidablePred (Heard k i node)
  | .work j now =>
    inferInstanceAs (Decidable (j = k → ∀ sup ∈ node.sups[k]?, sup.regroups now i = true →
      sup.behind node.tasks i = false))
  | .task pid choice =>
    inferInstanceAs (Decidable (∀ task ∈ node.tasks.lookup pid, task.Of k i →
      ∀ reason ∈ task.finishes choice, task.entry.spec.restart.shouldRestart reason = false →
      ∀ sup ∈ node.sups[k]?, .start i ∉ sup.todo))
  | .start _ _ | .request _ _ => inferInstanceAs (Decidable True)

/-! ## the loop -/

theorem SupervisorLoop.recorded_of_regroups (sup : SupervisorLoop F)
    (h : sup.regroups now i = true) : sup.state.recorded i = true := by
  unfold SupervisorLoop.regroups at h
  split at h
  next =>
    simp only [Bool.and_eq_true, bne_iff_ne, decide_eq_true_eq] at h
    exact h.1.1.2.recorded h.1.1.1
  next => cases h

theorem SupervisorState.of_start_mem {state : SupervisorState F} {index : Nat}
    (h : .start i ∈ (state.handleChildExit index pid reason now).2.1) :
    state.InGroup index i ∧ (state.checkRestartLimit now).2 = true ∧
      ∃ child, state.children[index]? = some child ∧ child.pid = some pid ∧
        child.spec.restart.shouldRestart reason = true := by
  have hdecided := state.handleChildExit_decided index pid reason now
  revert h hdecided
  generalize state.handleChildExit index pid reason now = decision
  intro h hdecided
  cases hdecided with
  | ignored | cleared => cases h
  | restarts hchild hpid hyes hlimit _ hplan hstarts =>
    exact ⟨(hstarts i).mp (hplan.start_mem.mp h), hlimit, _, hchild, hpid, hyes⟩
  | gaveUp _ _ _ _ _ hplan => cases hplan.start_mem.mp h

/-- **Why a start of a child becomes due**: its own exit asks for it, or that of another child, or
the child is new -/
theorem Worked.start_due (hr : Worked sup fresh tasks now r) (h : .start i ∈ r.1.todo) :
    .start i ∈ sup.todo ∨ sup.state.entryAt i = none ∨
      sup.regroups now i = true ∨ ∃ pid reason inbox child,
        sup.inbox = .childExited i pid reason :: inbox ∧ sup.state.children[i]? = some child ∧
        child.pid = some pid ∧ child.spec.restart.shouldRestart reason = true := by
  cases hr with
  | spawned _ htodo | killing _ htodo | waiting _ htodo | reset _ htodo =>
    rw [htodo]
    exact Or.inl (List.mem_cons_of_mem _ h)
  | started | stopped | overrun | leaving => exact Or.inl h
  | @received msg inbox sup' hwait htodo hending hinbox hsup' hreceived =>
    refine Or.inr ?_
    cases hreceived with
    | ignored | cleared =>
      rw [htodo] at h
      cases h
    | gaveUp _ _ _ _ hplan | shutdown hplan => cases hplan.start_mem.mp h
    | added entries =>
      obtain ⟨j, hj, heq⟩ := List.mem_map.mp h
      cases heq
      refine Or.inl ?_
      rw [SupervisorState.entryAt, List.getElem?_eq_none (List.mem_range'_1.mp hj).1]
      rfl
    | @restarts index pid reason =>
      rw [hsup'] at h
      obtain ⟨hgroup, hlimit, child, hchild, hpid, hyes⟩ := SupervisorState.of_start_mem h
      by_cases hi : i = index
      · rw [hi]
        exact Or.inr (Or.inr ⟨pid, reason, inbox, child, hinbox, hchild, hpid, hyes⟩)
      · refine Or.inr (Or.inl ?_)
        unfold SupervisorLoop.regroups
        rw [hwait, htodo, hending, hinbox]
        simp [hi, hgroup, hlimit, hchild, hpid, hyes]

theorem SupervisorLoop.verdict_congr
    (h : sup'.inbox.findSome? (·.exitOf i pid) = sup.inbox.findSome? (·.exitOf i pid)) :
    sup'.verdict i pid phase = sup.verdict i pid phase := by
  by_cases hrank : 5 ≤ phase.rank
  · rw [verdict_late hrank, verdict_late hrank, h]
  · exact verdict_early (Nat.lt_of_not_le hrank)

theorem Worked.verdict (hr : Worked sup fresh tasks now r) (h : r.1.Holds i pid) :
    r.1.verdict i pid phase = sup.verdict i pid phase := by
  apply verdict_congr
  cases hr with
  | @received msg inbox sup' hwait _ _ hinbox _ hreceived =>
    obtain ⟨hwait', hinbox', -⟩ := hreceived.wait
    have hother : msg.exitOf i pid = none := by
      refine Option.eq_none_iff_forall_ne_some.mpr fun r hr => ?_
      cases SupervisorMsg.exitOf_eq_some.mp hr
      rcases h with hcur | hw
      · exact hreceived.not_current hcur
      · cases hwait.symm.trans (hwait'.symm.trans hw)
    rw [hinbox', hinbox, List.findSome?_cons, hother]
  | spawned | started | killing | waiting | reset | stopped | overrun | leaving => rfl

theorem SupervisorLoop.verdict_send (h : msg.exitOf i pid = none) :
    (sup.send msg).verdict i pid phase = sup.verdict i pid phase := by
  apply verdict_congr
  unfold SupervisorLoop.send
  split
  next => simp [h]
  next => rfl

/-! ## the invariant -/

/-- the process of child `i` of supervisor `k` has ended for good: no start of the child is due, the
supervisor holds no other process for it, and `known` are all its incarnations -/
structure Settled (k i : Nat) (pid : ProcessId) (reason : ExitReason) (known : ProcessId → Prop)
    (node : Node F) : Prop where
  final : ∃ task, node.tasks.lookup pid = some task ∧ task.Of k i ∧
    task.entry.spec.restart.shouldRestart reason = false
  known : ∀ {p t}, node.tasks.lookup p = some t → t.Of k i → known p
  quiet : ∀ {sup}, node.sups[k]? = some sup → .start i ∉ sup.todo
  held : ∀ {sup q}, node.sups[k]? = some sup → sup.Holds i q → q = pid
  verdict : ∀ {sup task}, node.sups[k]? = some sup → sup.Holds i pid →
    node.tasks.lookup pid = some task → sup.verdict i pid task.phase = some reason

variable {known : ProcessId → Prop}

theorem Settled.evolve (h : Settled k i pid reason known node) {tasks : HashMap ProcessId (Task F)}
    (he : Evolved node.tasks tasks)
    (hverdict : ∀ {sup t t'}, node.sups[k]? = some sup → sup.Holds i pid →
      node.tasks.lookup pid = some t → tasks.lookup pid = some t' →
      sup.verdict i pid t.phase = some reason → sup.verdict i pid t'.phase = some reason) :
    Settled k i pid reason known { node with table := table, tasks := tasks } := by
  refine ⟨?_, fun ht hof => ?_, h.quiet, h.held, fun hs hh ht => ?_⟩
  · obtain ⟨t, ht, hof, hno⟩ := h.final
    obtain ⟨t', ht', hadv⟩ := he.forth ht
    exact ⟨t', ht', hadv.of hof, by rw [hadv.entry]; exact hno⟩
  · obtain ⟨t, ht₀, hadv⟩ := he.back ht
    exact h.known ht₀ ⟨hadv.supervisor.symm.trans hof.1, hadv.index.symm.trans hof.2⟩
  · obtain ⟨t₀, ht₀, -⟩ := he.back ht
    exact hverdict hs hh ht₀ ht (h.verdict hs hh ht₀)

theorem Settled.setSup (h : Settled k i pid reason known node) {j : Nat}
    (hsup : node.sups[j]? = some sup) (hquiet : j = k → .start i ∉ sup'.todo)
    (hheld : j = k → ∀ {q}, sup'.Holds i q → sup.Holds i q)
    (hverdict : j = k → ∀ {t}, node.tasks.lookup pid = some t → sup'.Holds i pid →
      sup.verdict i pid t.phase = some reason → sup'.verdict i pid t.phase = some reason) :
    Settled k i pid reason known { node with sups := node.sups.set j sup' } := by
  refine ⟨h.final, h.known, fun hs => ?_, fun hs hh => ?_, fun hs hh ht => ?_⟩
  · rcases sups_set_cases hs with ⟨rfl, rfl⟩ | ⟨-, hs⟩
    · exact hquiet rfl
    · exact h.quiet hs
  · rcases sups_set_cases hs with ⟨rfl, rfl⟩ | ⟨-, hs⟩
    · exact h.held hsup (hheld rfl hh)
    · exact h.held hs hh
  · rcases sups_set_cases hs with ⟨rfl, rfl⟩ | ⟨-, hs⟩
    · exact hverdict rfl ht hh (h.verdict hsup (hheld rfl hh) ht)
    · exact h.verdict hs hh ht

theorem Settled.send (h : Settled k i pid reason known node) (j : Nat)
    (hmsg : j = k → ∀ {t}, node.tasks.lookup pid = some t →
      msg.exitOf i pid = none ∨ t.phase.rank < 5) :
    Settled k i pid reason known (node.send j msg) := by
  rcases node.send_eq j msg with ⟨-, heq⟩ | ⟨sup, hsup, heq⟩
  · rw [heq]
    exact h
  · rw [heq]
    refine h.setSup hsup (fun hj => ?_) (fun _ _ => holds_send.mp)
      fun hj t ht _ hv => ?_
    · rw [(sup.send_same msg).2.2.1]
      exact h.quiet (hj ▸ hsup)
    · rcases hmsg hj ht with hother | hearly
      · rw [verdict_send hother]
        exact hv
      · rw [verdict_early hearly]
        exact hv

theorem Settled.startSupervisor (h : Settled k i pid reason known node) (hst : Staffed node)
    (spec : SupervisorSpec) (entries : List (ChildEntry F)) :
    Settled k i pid reason known (node.startSupervisor spec entries) := by
  obtain ⟨task, htask, hof, -⟩ := h.final
  obtain ⟨s₀, hs₀, -⟩ := hst.place htask
  rw [hof.1] at hs₀
  have hsame : ∀ {s}, (node.startSupervisor spec entries).sups[k]? = some s → s = s₀ :=
    fun hs => Option.some.inj (hs.symm.trans (startSupervisor_old hs₀))
  refine ⟨h.final, h.known, fun hs => ?_, fun hs hh => ?_, fun hs hh ht => ?_⟩
  · exact hsame hs ▸ h.quiet hs₀
  · exact h.held hs₀ (hsame hs ▸ hh)
  · rw [hsame hs] at hh ⊢
    exact h.verdict hs₀ hh ht

theorem Settled.hire (h : Settled k i pid reason known node) (hother : ¬ task.Of k i)
    (hnew : node.tasks.lookup fresh = none) :
    Settled k i pid reason known
      { node with table := table, tasks := node.tasks.insert fresh task } := by
  have hne : pid ≠ fresh := by
    rintro rfl
    obtain ⟨t, ht, -⟩ := h.final
    cases hnew.symm.trans ht
  have hsame : (node.tasks.insert fresh task).lookup pid = node.tasks.lookup pid := by
    rw [HashMap.lookup_insert_if, if_neg hne]
  refine ⟨?_, fun {p t} ht hof => ?_, h.quiet, h.held, fun hs hh ht => ?_⟩
  · obtain ⟨t, ht, hfinal⟩ := h.final
    exact ⟨t, hsame.trans ht, hfinal⟩
  · rcases HashMap.of_lookup_insert ht with ⟨-, rfl⟩ | ⟨-, ht⟩
    · exact absurd hof hother
    · exact h.known ht hof
  · exact h.verdict hs hh (hsame.symm.trans ht)

theorem Settled.not_due (h : Settled k i pid reason known node) (hst : Staffed node)
    (hok : Heard k i node (.work k now)) (hsup : node.sups[k]? = some sup)
    (hr : Worked sup fresh node.tasks now r) : .start i ∉ r.1.todo := by
  intro hstart
  obtain ⟨task, htask, hof, hno⟩ := h.final
  obtain ⟨s, hs, hentry⟩ := hst.place htask
  rw [hof.1, hsup] at hs
  cases hs
  rw [hof.2] at hentry
  rcases hr.start_due hstart with hdue | hnone | hgroup | ⟨p, r', inbox, child, hin, hchild, hpid, hyes⟩
  · exact h.quiet hsup hdue
  · cases hnone.symm.trans hentry
  · -- the child is on record, so the supervisor is behind
    have hbehind := hok rfl sup hsup hgroup
    obtain ⟨q, hcur⟩ := SupervisorState.recorded_iff.mp (sup.recorded_of_regroups hgroup)
    obtain rfl := h.held hsup (Or.inl hcur)
    have hv := h.verdict hsup (Or.inl hcur) htask
    rw [SupervisorLoop.behind, hcur, Option.any_some, htask, Option.any_some, hv, Option.any_some,
      hno] at hbehind
    cases hbehind
  · -- the exit of the child itself asks for no restart
    have hcur : sup.state.current i = some p := Option.bind_eq_some_iff.mpr ⟨child, hchild, hpid⟩
    obtain rfl := h.held hsup (Or.inl hcur)
    obtain ⟨t, ht, -, hrank⟩ := hst.exits hsup (hin ▸ List.mem_cons_self)
    have hv := h.verdict hsup (Or.inl hcur) ht
    rw [verdict_late hrank, hin, List.findSome?_cons,
      SupervisorMsg.exitOf_eq_some.mpr rfl] at hv
    obtain rfl : r' = reason := Option.some.inj hv
    obtain ⟨c, hc, hspec⟩ := Option.map_eq_some_iff.mp hentry
    cases hchild.symm.trans hc
    rw [← hspec] at hno
    rw [hno] at hyes
    cases hyes

theorem Settled.work (h : Settled k i pid reason known node) (hst : Staffed node) {j : Nat}
    (hok : Heard k i node (.work j now)) (hsup : node.sups[j]? = some sup)
    (hr : Worked sup (Node.spawned node.table).2 node.tasks now r) :
    Settled k i pid reason known (node.apply j r.1 r.2) := by
  obtain ⟨stops, starts, ho⟩ := hst.orderly hsup
  have hspawn : ∀ {entry}, r.2 = .spawn i entry → j ≠ k := by
    rintro entry heffect rfl
    cases hr with
    | spawned _ htodo =>
      cases heffect
      exact h.quiet hsup (htodo ▸ List.mem_cons_self)
    | started | killing | waiting | reset | stopped | overrun | leaving | received =>
      cases heffect
  have h' : Settled k i pid reason known { node with sups := node.sups.set j r.1 } := by
    refine h.setSup hsup (fun hj => ?_) (fun hj q hh => ?_) fun hj t _ hh hv => ?_
    · subst hj
      exact h.not_due hst hok hsup hr
    · refine (hh.of_work ho hr).resolve_right ?_
      rintro ⟨-, entry, heffect⟩
      exact hspawn heffect hj
    · rw [hr.verdict hh]
      exact hv
  obtain ⟨sup', effect⟩ := r
  cases effect with
  | nothing => exact h'
  | abort target =>
    refine h'.evolve (.abort node.tasks target) fun _ _ ht ht' hv => ?_
    obtain ⟨t₀, ht₀, rfl | ⟨-, rfl⟩⟩ := lookup_aborted ht'
    · cases ht.symm.trans ht₀
      exact hv
    · cases ht.symm.trans ht₀
      rw [Task.aborted_verdict hv]
      exact hv
  | spawn index entry =>
    refine h'.hire ?_ ?_
    · rintro ⟨rfl, rfl⟩
      exact hspawn rfl rfl
    · refine Option.eq_none_iff_forall_ne_some.mpr fun t ht => ?_
      exact Nat.lt_irrefl _ (hst.fresh ht)

theorem Settled.report (h : Settled k i pid reason known node) (hst : Staffed node) {next : Task F}
    {r : ExitReason} (htask : node.tasks.lookup p = some task)
    (hstep : task.step p node.table choice = some (table, next, some r)) :
    Settled k i pid reason known
      (Node.send { node with table := table, tasks := node.tasks.insert p next }
        task.supervisor (.childExited task.index p r)) := by
  have hadv := (Task.step_advanced hstep).1
  obtain ⟨hphase, hnext⟩ := (Task.step_advanced hstep).2 r rfl
  have hearly : task.phase.rank < 5 := by
    rw [hphase]
    exact Nat.lt_succ_self 4
  have h' : Settled k i pid reason known
      (node.send task.supervisor (.childExited task.index p r)) := by
    refine h.send _ fun _ {t} ht => ?_
    by_cases hp : p = pid
    · rw [hp, ht] at htask
      cases htask
      exact Or.inr hearly
    · refine Or.inl (Option.eq_none_iff_forall_ne_some.mpr fun r' hr' => ?_)
      cases SupervisorMsg.exitOf_eq_some.mp hr'
      exact hp rfl
  refine h'.evolve (.insert htask hadv) fun {sup t t'} hs hh ht ht' hv => ?_
  rw [HashMap.lookup_insert_if] at ht'
  split at ht'
  next heq =>
    cases ht'
    cases heq
    cases htask.symm.trans ht
    rw [hphase] at hv
    cases hv
    obtain ⟨t₀, ht₀, hof, -⟩ := h.final
    cases htask.symm.trans ht₀
    rw [hof.1, hof.2] at hs
    rcases node.send_eq k (.childExited i pid reason) with ⟨hnone, heq⟩ | ⟨s₀, hs₀, heq⟩
    · rw [heq, hnone] at hs
      cases hs
    · rw [heq] at hs
      obtain ⟨-, rfl⟩ := (sups_set_cases hs).resolve_right fun hne => hne.1 rfl
      obtain ⟨stops, starts, ho⟩ := hst.orderly hs₀
      refine verdict_reported (ho.looping (holds_send.mp hh))
        (fun r' hm => ?_) ?_
      · -- a report is only in the queue when the process is leaving
        obtain ⟨t, ht, -, hrank⟩ := hst.exits hs₀ hm
        cases htask.symm.trans ht
        omega
      · rw [hnext]
        exact Nat.le_refl 5
  next =>
    cases ht'.symm.trans ht
    exact hv

theorem Settled.stepped (h : Settled k i pid reason known node) (hst : Staffed node)
    {event : Event F} (hok : Heard k i node event) (hs : Stepped node event next) :
    Settled k i pid reason known next := by
  cases hs with
  | start spec entries => exact h.startSupervisor hst spec entries
  | request request =>
    refine h.send _ fun _ _ _ => Or.inl ?_
    cases request with
    | addChild | addChildren | shutdown => rfl
  | work hsup hlife hr => exact h.work hst hok hsup hr
  | @leave j now sup call hsup =>
    let sup' := { sup with life := .left (call.step node.table).2 }
    have h' : Settled k i pid reason known { node with sups := node.sups.set j sup' } := by
      refine h.setSup hsup (fun hj => ?_) (fun _ _ hh => hh) fun _ _ _ _ hv => hv
      show Action.start i ∉ sup.todo
      rw [hj] at hsup
      exact h.quiet hsup
    exact ⟨h'.final, h'.known, h'.quiet, h'.held, h'.verdict⟩
  | @task p choice t next table htask hstep =>
    refine h.evolve (.insert htask (Task.step_advanced hstep).1) fun {sup t₀ t'} hs hh ht₀ ht' hv => ?_
    rcases HashMap.of_lookup_insert ht' with ⟨heq, rfl⟩ | ⟨-, ht'⟩
    · rw [heq, htask] at ht₀
      cases ht₀
      rcases Task.step_verdict hstep hv with ⟨-, hv⟩ | ⟨hreport, -⟩
      · exact hv
      · cases hreport
    · cases ht'.symm.trans ht₀
      exact hv
  | report htask hstep => exact h.report hst htask hstep

/-! ## the theorem -/

theorem Orderly.holds_unique {stops starts : List Nat} (h : Orderly sup stops starts)
    {q : ProcessId} (hp : sup.Holds i p) (hq : sup.Holds i q) : p = q := by
  rcases hp with hp | hp
  · rcases hq with hq | hq
    · exact Option.some.inj (hp.symm.trans hq)
    · cases (h.starting hq).2.2.2.symm.trans hp
  · rcases hq with hq | hq
    · cases (h.starting hp).2.2.2.symm.trans hq
    · cases hp.symm.trans hq
      rfl

theorem Settled.of_finishes {ok : Node F → Event F → Prop} (h : (machine F).Reach ok node)
    (htask : node.tasks.lookup pid = some task) (hof : task.Of k i)
    (hfinish : task.finishes choice = some reason)
    (hno : task.entry.spec.restart.shouldRestart reason = false)
    (hok : Heard k i node (.task pid choice)) (hnext : node.next (.task pid choice) = some mid) :
    Settled k i pid reason (fun p => p ∈ node.tasks) mid := by
  have hst := staffed_of_reach h
  have huntold := Task.untold_of_finishes hfinish
  have hearly := Phase.rank_of_untold huntold
  obtain ⟨sup, hsup, hholds⟩ := (owned_of_reach h).held htask huntold
  rw [hof.1] at hsup
  rw [hof.2] at hholds
  obtain ⟨stops, starts, ho⟩ := hst.orderly hsup
  have hsame : ∀ {s}, node.sups[k]? = some s → s = sup :=
    fun hs => Option.some.inj (hs.symm.trans hsup)
  have hquiet : ∀ r, .childExited i pid r ∉ sup.inbox := by
    intro r hm
    obtain ⟨t, ht, -, hrank⟩ := hst.exits hsup hm
    cases htask.symm.trans ht
    omega
  have honly : ∀ {q}, sup.Holds i q → q = pid := fun hq => ho.holds_unique hq hholds
  obtain ⟨t, ht, hnext⟩ := Option.bind_eq_some_iff.mp hnext
  cases htask.symm.trans ht
  obtain ⟨⟨table, next, report⟩, hstep, hmid⟩ := Option.map_eq_some_iff.mp hnext
  obtain ⟨rfl, hverdict⟩ := Task.finishes_verdict hfinish hstep hquiet
  have hadv := (Task.step_advanced hstep).1
  cases hmid
  refine ⟨⟨next, AList.lookup_insert _, hadv.of hof, by rw [hadv.entry]; exact hno⟩,
    fun {p t} ht _ => ?_, fun hs => ?_, fun hs hq => ?_, fun hs _ ht => ?_⟩
  · obtain ⟨t₀, ht₀, -⟩ := (Evolved.insert htask hadv).back ht
    exact AList.lookup_isSome.mp (Option.isSome_iff_exists.mpr ⟨t₀, ht₀⟩)
  · exact hok task htask hof reason hfinish hno _ hs
  · exact honly (hsame hs ▸ hq)
  · cases (AList.lookup_insert _).symm.trans ht
    rw [hsame hs]
    exact hverdict

theorem Settled.reach (h : Settled k i pid reason known mid) (hst : Staffed mid)
    (hreach : ((machine F).startedAt mid).Reach (Heard k i) last) :
    Settled k i pid reason known last ∧ Staffed last := by
  induction hreach with
  | start hs =>
    cases hs
    exact ⟨h, hst⟩
  | step _ hok hstep ih =>
    have hstepped := next_cases hstep
    exact ⟨ih.1.stepped ih.2 hok hstepped, ih.2.stepped hstepped⟩

/-- **A child whose task has ended for good is not started again**: once the task of a child ends
by itself with a reason that asks for no restart, the child gets no further incarnation, whatever
the exits of other children restart. -/
theorem finished_stays (h : (machine F).Reach Machine.Anytime node)
    (htask : node.tasks.lookup pid = some task) (hof : task.Of k i) {choice : Choice}
    (hfinish : task.finishes choice = some reason)
    (hno : task.entry.spec.restart.shouldRestart reason = false)
    (hok : Heard k i node (.task pid choice)) (hnext : node.next (.task pid choice) = some mid)
    (h' : ((machine F).startedAt mid).Reach (Heard k i) last) {p : ProcessId} {t : Task F}
    (ht : last.tasks.lookup p = some t) (hoft : t.Of k i) : p ∈ node.tasks := by
  have hmid : Settled k i pid reason (fun p => p ∈ node.tasks) mid :=
    .of_finishes h htask hof hfinish hno hok hnext
  have hst := (staffed_of_reach h).stepped (next_cases hnext)
  exact (hmid.reach hst h').1.known ht hoft

/-! ## a job next to a server, restarted together -/

/-- the supervisor of a temporary and a permanent child, which it has started -/
private def working : List (Event Unit) :=
  .start (.new .oneForAll)
      [⟨{ ChildSpec.new "job" with restart := .temporary }, ()⟩, ⟨.new "server", ()⟩] ::
    (Event.hires ⟨1, 2⟩ ++ Event.hires ⟨1, 3⟩)

/-- the job returns, in a step that meets the condition if it is checked -/
private def retires (node : Node Unit) : Bool :=
  (node.tasks.lookup ⟨1, 2⟩).any fun task => decide (task.Of 0 0 ∧
    task.entry.spec.restart = .temporary ∧ task.finishes (.returns .normal) = some .normal)

private theorem exists_of_retires {node : Node Unit} (h : retires node = true) :
    ∃ task, node.tasks.lookup ⟨1, 2⟩ = some task ∧ task.Of 0 0 ∧
      task.entry.spec.restart = .temporary ∧
      task.finishes (.returns .normal) = some .normal := by
  obtain ⟨task, htask, h⟩ := (Option.any_eq_true _ _).mp h
  exact ⟨task, htask, of_decide_eq_true h⟩

/-- the end of the job is handled, and then the crash of the server: only the server is restarted -/
theorem finished_stays_handled : ∃ node mid last : Node Unit, ∃ task,
    (machine Unit).Reach Machine.Anytime node ∧
    node.tasks.lookup ⟨1, 2⟩ = some task ∧ task.Of 0 0 ∧ task.entry.spec.restart = .temporary ∧
    task.finishes (.returns .normal) = some .normal ∧
    node.next (.task ⟨1, 2⟩ (.returns .normal)) = some mid ∧
    ((machine Unit).startedAt mid).Reach (Heard 0 0) last ∧
    (∃ u, last.tasks.lookup ⟨1, 4⟩ = some u ∧ u.Of 0 1) ∧
    ∀ p t, last.tasks.lookup p = some t → t.Of 0 0 → p ∈ node.tasks := by
  have hstart : (machine Unit).Reach Machine.Anytime (Node.new 1) := .start ⟨1, rfl⟩
  obtain ⟨node, h, hretires, hok, mid, hnext, last, hlast, u, hu, hofu⟩ :=
    hstart.exists_run working (p := fun node => retires node = true ∧
      Heard 0 0 node (.task ⟨1, 2⟩ (.returns .normal)) ∧
      ∃ mid, node.next (.task ⟨1, 2⟩ (.returns .normal)) = some mid ∧
        ∃ last, ((machine Unit).startedAt mid).checked (Heard 0 0) mid
          (([.task ⟨1, 2⟩ .proceed, .task ⟨1, 2⟩ .proceed, .work 0 0] : List (Event Unit)) ++
            Event.exits ⟨1, 3⟩ .panics ++ ([.work 0 0, .work 0 0] : List (Event Unit))) = some last ∧
          ∃ u, last.tasks.lookup ⟨1, 4⟩ = some u ∧ u.Of 0 1) (by decide)
  obtain ⟨task, htask, hof, hspec, hfinish⟩ := exists_of_retires hretires
  have hmid : ((machine Unit).startedAt mid).Reach (Heard 0 0) mid := .start rfl
  refine ⟨node, mid, last, task, h, htask, hof, hspec, hfinish, hnext, hmid.of_checked hlast, ⟨u, hu, hofu⟩,
    fun p t ht hoft => finished_stays h htask hof hfinish ?_ hok hnext (hmid.of_checked hlast) ht hoft⟩
  rw [hspec]
  rfl

/-- **A finished child is started again when its exit is still in the queue**: the exit of the
server is handled first, and the job is still on record. -/
theorem finished_started_again : ∃ node mid last : Node Unit, ∃ task,
    (machine Unit).Reach Machine.Anytime node ∧
    node.tasks.lookup ⟨1, 2⟩ = some task ∧ task.Of 0 0 ∧ task.entry.spec.restart = .temporary ∧
    task.finishes (.returns .normal) = some .normal ∧
    node.next (.task ⟨1, 2⟩ (.returns .normal)) = some mid ∧
    ((machine Unit).startedAt mid).Reach Machine.Anytime last ∧
    ∃ t, last.tasks.lookup ⟨1, 4⟩ = some t ∧ t.Of 0 0 ∧ ⟨1, 4⟩ ∉ node.tasks := by
  have hstart : (machine Unit).Reach Machine.Anytime (Node.new 1) := .start ⟨1, rfl⟩
  obtain ⟨node, h, hretires, hnew, mid, hnext, last, hlast, t, ht, hoft⟩ :=
    hstart.exists_run (working ++ Event.exits ⟨1, 3⟩ .panics) (p := fun node => retires node = true ∧ ⟨1, 4⟩ ∉ node.tasks ∧
      ∃ mid, node.next (.task ⟨1, 2⟩ (.returns .normal)) = some mid ∧
        ∃ last, ((machine Unit).startedAt mid).run mid [.task ⟨1, 2⟩ .proceed, .task ⟨1, 2⟩ .proceed,
          .work 0 0, .work 0 0, .work 0 0, .work 0 0] = some last ∧
          ∃ t, last.tasks.lookup ⟨1, 4⟩ = some t ∧ t.Of 0 0) (by decide)
  obtain ⟨task, htask, hof, hspec, hfinish⟩ := exists_of_retires hretires
  have hmid : ((machine Unit).startedAt mid).Reach Machine.Anytime mid := .start rfl
  exact ⟨node, mid, last, task, h, htask, hof, hspec, hfinish, hnext, hmid.run (fun _ _ _ => trivial) hlast,
    t, ht, hoft, hnew⟩

end Rebar.Supervisor

import Rebar.Lib.Log
import Rebar.Supervisor.Roster

/-!
# The marks of terminated children

A request to terminate a child leaves a mark on its key, and the exit that follows takes the mark
away instead of starting the child again.

* `Listed`             marks are on inactive children, and a temporary child on record is excused;
* `Logged`             the invariant of every run with its log.
-/

namespace Rebar.Supervisor

open Process

variable {F : Type} {node next : DynNode F} {loop : DynLoop F} {key : Key} {pid : ProcessId}
  {now : Nanos} {order : Order Key} {log msgs : List (DynSupervisorMsg F)}
  {msg : DynSupervisorMsg F}

/-! ## the log -/

/-- the message that the loop takes out of its inbox in a step -/
def DynNode.handles (node : DynNode F) : DynEvent F → List (DynSupervisorMsg F)
  | .work _ _ =>
    match node.loop.life, node.loop.wait, node.loop.todo, node.loop.ending, node.loop.inbox with
    | .looping, none, [], false, msg :: _ => [msg]
    | _, _, _, _, _ => []
  | _ => []

theorem DynStepped.handles_eq {event : DynEvent F} (h : DynStepped node event msgs next) :
    node.handles event = msgs := by
  cases h with
  | sent | task | report => rfl
  | cleaned hlife =>
    unfold DynNode.handles
    rw [hlife]
  | turned hlife ht =>
    unfold DynNode.handles
    cases ht with
    | started hwait | finished hwait => rw [hlife, hwait]
    | stopped hwait htodo => rw [hlife, hwait, htodo]
    | returned hwait htodo hending => rw [hlife, hwait, htodo, hending]
    | handled hwait htodo hopen hinbox => rw [hlife, hwait, htodo, hopen, hinbox]

/-- every exit of the process comes after a request to terminate it -/
def Excused (log : List (DynSupervisorMsg F)) (pid : ProcessId) : Prop :=
  ∀ before reason after, log = before ++ .childExited pid reason :: after →
    .terminateChild pid ∈ before

theorem Excused.of_unheard (h : ∀ reason, .childExited pid reason ∉ log) : Excused log pid := by
  rintro before reason after rfl
  exact absurd (List.mem_append_right _ List.mem_cons_self) (h reason)

theorem Excused.append (h : Excused log pid)
    (hmsg : ∀ reason, msg = .childExited pid reason → .terminateChild pid ∈ log) :
    Excused (log ++ [msg]) pid := by
  have hprior : Log.Prior (fun before x =>
      ∀ reason, x = .childExited pid reason → .terminateChild pid ∈ before) (log ++ [msg]) :=
    Log.Prior.snoc (fun before x after heq reason hx => h before reason after (hx ▸ heq)) hmsg
  exact fun before reason after heq => hprior before _ after heq reason rfl

/-! ## the marks -/

structure Listed (children : HashMap Key (DynChildState F)) (terminatedIds : Finset Key)
    (log : List (DynSupervisorMsg F)) : Prop where
  marked : ∀ {k}, k ∈ terminatedIds → ∃ c, children.lookup k = some c ∧ c.active = false ∧
    .terminateChild c.pid ∈ log
  equipped : ∀ {k c}, children.lookup k = some c → c.active = true →
    c.abort.isSome = true ∧ c.doneRx.isSome = true
  excused : ∀ {k c}, children.lookup k = some c → c.spec.restart = .temporary →
    Excused log c.pid

section
variable {children : HashMap Key (DynChildState F)} {terminatedIds : Finset Key}

theorem Listed.deactivate (h : Listed children terminatedIds log) :
    Listed (HashMap.modify children key DynChildState.inactive) terminatedIds log := by
  have hold : ∀ {k c}, (HashMap.modify children key DynChildState.inactive).lookup k = some c →
      children.lookup k = some c ∨ ∃ c₀, children.lookup k = some c₀ ∧ c = c₀.inactive := by
    intro k c hc
    rcases HashMap.of_lookup_modify hc with ⟨-, c₀, hc₀, rfl⟩ | ⟨-, hc⟩
    · exact Or.inr ⟨c₀, hc₀, rfl⟩
    · exact Or.inl hc
  refine ⟨fun {k} hk => ?_, fun hc ha => ?_, fun hc htemp => ?_⟩
  · obtain ⟨c, hc, hactive, hlog⟩ := h.marked hk
    rw [HashMap.lookup_modify, hc]
    split
    next => exact ⟨c.inactive, rfl, rfl, hlog⟩
    next => exact ⟨c, rfl, hactive, hlog⟩
  · rcases hold hc with hc | ⟨c₀, -, rfl⟩
    · exact h.equipped hc ha
    · cases ha
  · rcases hold hc with hc | ⟨c₀, hc₀, rfl⟩
    · exact h.excused hc htemp
    · have hc₀ : Excused log c₀.pid := h.excused hc₀ htemp
      exact hc₀

theorem Listed.mark (h : Listed children terminatedIds log) {child : DynChildState F}
    (hchild : children.lookup key = some child) (hlog : .terminateChild child.pid ∈ log) :
    Listed (HashMap.modify children key DynChildState.inactive) (insert key terminatedIds) log := by
  refine ⟨fun {k} hk => ?_, h.deactivate.equipped, h.deactivate.excused⟩
  rcases Finset.mem_insert.mp hk with rfl | hk
  · rw [HashMap.lookup_modify, if_pos rfl, hchild]
    exact ⟨child.inactive, rfl, rfl, hlog⟩
  · exact h.deactivate.marked hk

theorem Listed.unmark (h : Listed children terminatedIds log) (key : Key) :
    Listed children (terminatedIds.erase key) log :=
  ⟨fun hk => h.marked (Finset.mem_of_mem_erase hk), h.equipped, h.excused⟩

theorem Listed.forget (h : Listed children terminatedIds log) (hkey : key ∉ terminatedIds) :
    Listed (children.erase key) terminatedIds log := by
  have hold : ∀ {k c}, (children.erase key).lookup k = some c → children.lookup k = some c := by
    intro k c hc
    obtain ⟨-, hc⟩ := HashMap.of_lookup_erase hc
    exact hc
  refine ⟨fun {k} hk => ?_, fun hc => h.equipped (hold hc), fun hc => h.excused (hold hc)⟩
  obtain ⟨c, hc, hrest⟩ := h.marked hk
  have hne : k ≠ key := by
    rintro rfl
    exact hkey hk
  rw [HashMap.lookup_erase_if, if_neg hne]
  exact ⟨c, hc, hrest⟩

theorem Listed.insert (h : Listed children terminatedIds log) (hnone : children.lookup key = none)
    (hunheard : ∀ reason, .childExited pid reason ∉ log) (entry : ChildEntry F)
    (abort : AbortHandle) :
    Listed (children.insert key ⟨entry, pid, true, some abort, some pid⟩) terminatedIds log := by
  refine ⟨fun {k} hk => ?_, fun {k c} hc ha => ?_, fun {k c} hc htemp => ?_⟩
  · obtain ⟨c, hc, hrest⟩ := h.marked hk
    have hne : k ≠ key := by
      rintro rfl
      cases hnone.symm.trans hc
    rw [HashMap.lookup_insert_if, if_neg hne]
    exact ⟨c, hc, hrest⟩
  · rcases HashMap.of_lookup_insert hc with ⟨-, rfl⟩ | ⟨-, hc⟩
    · exact ⟨rfl, rfl⟩
    · exact h.equipped hc ha
  · rcases HashMap.of_lookup_insert hc with ⟨-, rfl⟩ | ⟨-, hc⟩
    · exact .of_unheard hunheard
    · exact h.excused hc htemp

theorem Listed.append (h : Listed children terminatedIds log)
    (hmsg : ∀ {k c reason}, children.lookup k = some c → c.spec.restart = .temporary →
      msg = .childExited c.pid reason → .terminateChild c.pid ∈ log) :
    Listed children terminatedIds (log ++ [msg]) := by
  refine ⟨fun hk => ?_, h.equipped, fun hc htemp => ?_⟩
  · obtain ⟨c, hc, hactive, hlog⟩ := h.marked hk
    exact ⟨c, hc, hactive, List.mem_append_left _ hlog⟩
  · exact (h.excused hc htemp).append fun reason => hmsg hc htemp

end

/-! ## the invariant of every run with its log -/

structure Logged (node : DynNode F) (log : List (DynSupervisorMsg F)) : Prop
    extends Filed node, Placed node where
  listed : Listed node.loop.state.children node.loop.state.terminatedIds log
  known : ∀ {p reason}, .childExited p reason ∈ log → ∃ task, node.tasks.lookup p = some task
  /-- no exit of a child that is being started has been handled -/
  unheard : ∀ {k e p a}, node.loop.wait = some (.abortHandle k e p a) →
    ∀ reason, .childExited p reason ∉ log

theorem Logged.new (nodeId : Nat) (spec : DynamicSupervisorSpec) :
    Logged (DynNode.new nodeId spec : DynNode F) [] :=
  ⟨.new nodeId spec, .new nodeId spec,
    ⟨fun h => absurd h (Finset.notMem_empty _), nofun, nofun⟩, nofun, nofun⟩

theorem Filed.pid_eq (h : Filed node) {k : Key} {c : DynChildState F}
    (hc : node.loop.state.children.lookup k = some c)
    (hkey : node.loop.state.pidToId.lookup c.pid = some key) : k = key :=
  Option.some.inj ((h.recorded.pids hc).symm.trans hkey)

theorem Logged.handled (h : Logged node log) {inbox : List (DynSupervisorMsg F)}
    (hh : Handled node { node.loop with inbox := inbox } now order msg next) :
    Listed next.loop.state.children next.loop.state.terminatedIds (log ++ [msg]) := by
  have hl := h.listed
  have hother : (∀ p reason, msg ≠ .childExited p reason) →
      Listed node.loop.state.children node.loop.state.terminatedIds (log ++ [msg]) :=
    fun hmsg => hl.append fun {k c reason} _ _ heq => absurd heq (hmsg _ _)
  cases hh with
  | starts | shutdown => exact hother nofun
  | refuses request =>
    refine hother fun p reason hm => ?_
    cases request with
    | startChild _ | terminateChild _ | removeChild _ | shutdown => cases hm
  | @terminates pid key _ hkey hh =>
    obtain ⟨child, hchild, rfl⟩ := h.recorded.keys hkey
    rw [hh.state]
    exact (hother nofun).mark hchild
      (List.mem_append_right _ List.mem_cons_self)
  | @removes pid key hkey =>
    have hlog := hother nofun
    exact (hlog.unmark key).forget (Finset.notMem_erase _ _)
  | @ignores pid reason hnone =>
    refine hl.append fun {k c r} hc _ heq => ?_
    cases heq
    cases (hnone (h.recorded.pids hc)).symm.trans hc
  | @expects pid reason key hkey hmem =>
    obtain ⟨child, hchild, -, hlog⟩ := hl.marked hmem
    refine ((hl.append fun {k c r} hc _ heq => ?_).unmark key).deactivate
    cases heq
    cases h.pid_eq hc hkey
    cases hchild.symm.trans hc
    exact hlog
  | forgets hkey hmem | restarts hkey hmem =>
    refine (hl.forget hmem).append fun {k c r} hc _ heq => ?_
    cases heq
    obtain ⟨hne, hc⟩ := HashMap.of_lookup_erase hc
    exact absurd (h.pid_eq hc hkey) hne
  | givesUp hkey hchild hrestart =>
    refine hl.append fun {k c r} hc htemp heq => ?_
    cases heq
    cases h.pid_eq hc hkey
    cases hchild.symm.trans hc
    exact absurd htemp hrestart
  | rests hkey hmem hchild hrestart =>
    refine (hl.append fun {k c r} hc htemp heq => ?_).deactivate
    cases heq
    cases h.pid_eq hc hkey
    cases hchild.symm.trans hc
    exact absurd htemp hrestart

theorem Logged.step (h : Logged node log) {event : DynEvent F}
    (hs : DynStepped node event msgs next) : Logged next (log ++ msgs) := by
  have hmoved := hs.moved
  -- the exits that were handled before the step or are handled in it
  have hknown : ∀ {p reason}, .childExited p reason ∈ log ++ msgs →
      ∃ task, node.tasks.lookup p = some task := by
    intro p reason hm
    rcases List.mem_append.mp hm with hm | hm
    · exact h.known hm
    · obtain ⟨task, ht, -⟩ := h.exits (hs.of_mem hm).2
      exact ⟨task, ht⟩
  refine ⟨h.toFiled.step hs, h.toPlaced.moved h.toFiled hmoved, ?_, fun hm => ?_,
    fun {k e p a} hw reason hm => ?_⟩
  · have hsame := h.listed
    rw [← List.append_nil log] at hsame
    cases hs with
    | sent | report =>
      rw [DynLoop.send_state]
      exact hsame
    | task | cleaned => exact hsame
    | turned _ ht =>
      cases ht with
      | started hwait _ _ abort =>
        rw [List.append_nil]
        exact h.listed.insert (h.recorded.starting hwait).1 (h.unheard hwait) _ abort
      | finished | returned => exact hsame
      | stopped _ _ hh =>
        rw [hh.state]
        exact hsame.deactivate
      | handled _ _ _ _ hh => exact h.handled hh
  · obtain ⟨task, ht⟩ := hknown hm
    obtain ⟨task', ht', -⟩ := hmoved.forth h.toFiled ht
    exact ⟨task', ht'⟩
  · have hfresh : (Node.spawned node.table).2 ≠ p := by
      rintro rfl
      obtain ⟨task, ht⟩ := hknown hm
      cases (spawned_fresh h.toFiled).symm.trans ht
    cases hmoved with
    | kept _ _ _ hwait =>
      rcases List.mem_append.mp hm with hm | hm
      · exact h.unheard (hwait hw) reason hm
      · cases (hwait hw).symm.trans (hs.of_mem hm).1
    | recorded => cases hw
    | added | restarted =>
      cases hw
      exact hfresh rfl

/-- **The maps of a dynamic supervisor agree, in every run.** -/
theorem roster_consistent
    (h : ((dynMachine F).logged DynNode.handles).Reach Machine.Anytime (node, log)) :
    (∀ k p, (∃ c, node.loop.state.children.lookup k = some c ∧ c.pid = p) ↔
      node.loop.state.pidToId.lookup p = some k) ∧
    (∀ k ∈ node.loop.state.terminatedIds,
      ∃ c, node.loop.state.children.lookup k = some c ∧ c.active = false) ∧
    (∀ k c, node.loop.state.children.lookup k = some c → c.active = true →
      c.abort.isSome = true ∧ c.doneRx.isSome = true) ∧
    ∀ pid task before reason after, node.tasks.lookup pid = some task →
      task.entry.spec.restart = .temporary → log = before ++ .childExited pid reason :: after →
      .terminateChild pid ∉ before →
      ∀ k c, node.loop.state.children.lookup k = some c → k.2 ≠ task.index := by
  have hl : Logged node log := by
    refine h.inv_logged (fun node hstart => ?_) fun node log event next hl hs => ?_
    · obtain ⟨nodeId, spec, rfl⟩ := hstart
      exact Logged.new nodeId spec
    · obtain ⟨msgs, hs⟩ := dynNext_cases hs
      rw [hs.handles_eq]
      exact hl.step hs
  refine ⟨fun k p => ⟨?_, hl.recorded.keys⟩, fun k hk => ?_, fun k c => hl.listed.equipped, ?_⟩
  · rintro ⟨c, hc, rfl⟩
    exact hl.recorded.pids hc
  · obtain ⟨c, hc, hactive, -⟩ := hl.listed.marked hk
    exact ⟨c, hc, hactive⟩
  · intro pid task before reason after ht htemp hlog hnot k c hc hindex
    obtain ⟨t, ht', rfl, hentry⟩ := hl.own hc
    -- a temporary child has one incarnation, so the exit is that of the process on record
    obtain ⟨hsame, hpid⟩ := hl.alike ht ht' hindex.symm
    cases hpid htemp
    rw [hsame, hentry] at htemp
    exact hnot (hl.listed.excused hc htemp before reason after hlog)

private def helper (restart : RestartType) : ChildEntry Unit :=
  ⟨{ ChildSpec.new "helper" with restart := restart }, ()⟩

private def office : DynNode Unit := .new 1 .new

private theorem office_start : (dynMachine Unit).start office := ⟨1, .new, rfl⟩

/-- a temporary child crashes, and a permanent one is terminated; its exit is not yet handled -/
private def departing : List (DynEvent Unit) :=
  DynEvent.hires (helper .temporary) ⟨1, 2⟩ ++ DynEvent.crashes ⟨1, 2⟩ ++
    [DynEvent.work 0 .stored] ++ DynEvent.hires (helper .permanent) ⟨1, 3⟩ ++
    ([.request (.terminateChild ⟨1, 3⟩), .work 0 .stored, .task ⟨1, 3⟩ .cancelled,
      .task ⟨1, 3⟩ .proceed, .work 0 .stored, .task ⟨1, 3⟩ .proceed] : List (DynEvent Unit))

/-- the exit of 1.2 was handled, and only then was 1.3 terminated -/
private def departed : List (DynSupervisorMsg Unit) → Bool
  | [.startChild _, .childExited ⟨1, 2⟩ _, .startChild _, .terminateChild ⟨1, 3⟩] => true
  | _ => false

private theorem exists_of_departed {log : List (DynSupervisorMsg Unit)}
    (h : departed log = true) : ∃ entry reason entry',
    log = [.startChild entry, .childExited ⟨1, 2⟩ reason, .startChild entry',
      .terminateChild ⟨1, 3⟩] := by
  unfold departed at h
  split at h
  · exact ⟨_, _, _, rfl⟩
  · cases h

/-- the mark is on the second child, and the first was a temporary one -/
private def vacated (node : DynNode Unit) : Bool :=
  decide (node.loop.state.terminatedIds = {("helper", 1)}) &&
    (node.tasks.lookup ⟨1, 2⟩).any fun task =>
      decide (task.entry.spec.restart = .temporary ∧ task.index = 0)

theorem roster_consistent_departing : ∃ (node : DynNode Unit) (log : List (DynSupervisorMsg Unit)),
    ((dynMachine Unit).logged DynNode.handles).Reach Machine.Anytime (node, log) ∧
    node.loop.state.terminatedIds = {("helper", 1)} ∧
    (∃ c, node.loop.state.children.lookup ("helper", 1) = some c ∧ c.active = false) ∧
    ∀ k c, node.loop.state.children.lookup k = some c → k.2 ≠ 0 := by
  have hstart : ((dynMachine Unit).logged DynNode.handles).Reach Machine.Anytime (office, []) :=
    .start ⟨office_start, rfl⟩
  obtain ⟨⟨node, log⟩, h, hlog, hp⟩ := hstart.exists_run departing
    (p := fun s => departed s.2 = true ∧ vacated s.1 = true) (by decide)
  obtain ⟨hmarks, hp⟩ := Bool.and_eq_true_iff.mp hp
  obtain ⟨task, htask, hkind⟩ := (Option.any_eq_true _ _).mp hp
  obtain ⟨htemp, hindex⟩ := of_decide_eq_true hkind
  replace hmarks : node.loop.state.terminatedIds = {("helper", 1)} := of_decide_eq_true hmarks
  obtain ⟨-, hmarked, -, hgone⟩ := roster_consistent h
  refine ⟨node, log, h, hmarks, hmarked _ (hmarks ▸ Finset.mem_singleton_self _), ?_⟩
  obtain ⟨entry, reason, entry', hlog⟩ := exists_of_departed hlog
  rw [← hindex]
  refine hgone ⟨1, 2⟩ task [.startChild entry] reason _ htask htemp hlog fun hm => ?_
  cases List.mem_singleton.mp hm

end Rebar.Supervisor

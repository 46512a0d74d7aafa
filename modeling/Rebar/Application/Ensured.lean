import Rebar.Application.Sorted

/-!
# Calls one after another

The calls on the application manager that nothing interrupts.  `ensure_all_started` starts the
applications of the dependency order that do not run yet; when one of them fails to start, those that
the call has started are stopped again, the last one first.

* `Alone.*`             the calls run to their end; `alone_start` and `alone_stop` say that they are
                        the interleaved ones;
* `sequentialMachine`   runs of such calls;
* `Begun`               the manager after some starts of one call: the invariant of its loop;
* `Undone`              what holds after an error, and `AllStarted` after a success.
-/

namespace Rebar.Application

/-- a call run to its end with nothing in between, if it has fewer than `k` await points -/
def AppCall.alone : Nat → ApplicationManager → AppCall →
    Option (ApplicationManager × Except AppError Unit)
  | 0, _, _ => none
  | k + 1, m, call =>
    match call.step m with
    | (m, .returned result) => some (m, result)
    | (m, .next call) => alone k m call

namespace Alone

def start (m : ApplicationManager) (name : String) (outcome : Except String Unit) :
    ApplicationManager × Except AppError Unit :=
  match m.start name outcome with
  | (m, .returned result) => (m, result)
  | (m, .next _) =>
    match outcome with
    | .error text => (m.release name, .error (.startFailed text))
    | .ok () =>
      ({ m with
          startOrder := m.startOrder ++ [name]
          running := m.running.insert name .running }, .ok ())

def stop (m : ApplicationManager) (name : String) : ApplicationManager × Except AppError Unit :=
  if m.isRunning name then
    ({ m with
        running := m.running.erase name
        startOrder := m.startOrder.filter (· ≠ name)
        hooks := m.hooks ++ stopHooks name }, .ok ())
  else (m, .error (.notFound name))

/-- the applications that this call started are stopped again, the last one first -/
def rollBack (m : ApplicationManager) (started : List String) : ApplicationManager :=
  started.reverse.foldl (fun m done => (stop m done).1) m

/-- the loop of `ensure_all_started`; an application's callback returns `outcomes` of its name -/
def startEach (outcomes : String → Except String Unit) :
    ApplicationManager → List String → List String →
    ApplicationManager × Except AppError (List String)
  | m, [], started => (m, .ok started)
  | m, name :: order, started =>
    if m.isRunning name then startEach outcomes m order started
    else
      match start m name (outcomes name) with
      | (m, .ok ()) => startEach outcomes m order (started ++ [name])
      | (m, .error e) => (rollBack m started, .error e)

def ensureAllStarted (m : ApplicationManager) (name : String)
    (outcomes : String → Except String Unit) :
    Option (ApplicationManager × Except AppError (List String)) :=
  (m.topologicalSort name).map fun
    | .error e => (m, .error e)
    | .ok order => startEach outcomes m order []

/-- the applications of the list that are started before the first failure -/
def startedOf (outcomes : String → Except String Unit) : ApplicationManager → List String → List String
  | _, [] => []
  | m, name :: order =>
    if m.isRunning name then startedOf outcomes m order
    else
      match start m name (outcomes name) with
      | (m, .ok ()) => name :: startedOf outcomes m order
      | (_, .error _) => []

/-- the applications that an `ensure_all_started` starts -/
def startedBy (m : ApplicationManager) (name : String) (outcomes : String → Except String Unit) :
    List String :=
  match m.topologicalSort name with
  | some (.ok order) => startedOf outcomes m order
  | _ => []

end Alone

/-- **What an error leaves behind**: the running applications and the start order as they were, no
reservation, and the stop hooks of what had been started, the last one first. -/
structure Undone (m : ApplicationManager) (started : List String) (m' : ApplicationManager) :
    Prop where
  registrations : m'.registrations = m.registrations
  running : ∀ n, m'.isRunning n = m.isRunning n
  startOrder : m'.startOrder = m.startOrder
  unreserved : ∀ n, m'.running.lookup n ≠ some .starting
  hooks : m'.hooks = m.hooks ++ started.reverse.flatMap stopHooks

/-- **What a success leaves behind**: all that `name` needs runs, and `list` is what did not run
before, every application after those that it depends on. -/
structure AllStarted (m : ApplicationManager) (name : String) (list : List String)
    (m' : ApplicationManager) : Prop where
  registrations : m'.registrations = m.registrations
  running : ∀ n, m.Needs name n → m'.isRunning n = true
  mem : ∀ n, n ∈ list ↔ m.Needs name n ∧ ¬ m.isRunning n = true
  nodup : list.Nodup
  ordered : ∀ before n after, list = before ++ n :: after →
    ∀ dep, m.DependsOn n dep → dep ∈ before ∨ m.isRunning dep = true
  startOrder : m'.startOrder = m.startOrder ++ list

/-! ## runs -/

/-- a completed call; an application that it starts returns `outcome` -/
inductive Command where
  | register (spec : AppSpec)
  | start (name : String) (outcome : Except String Unit)
  | ensureAllStarted (name : String) (outcomes : String → Except String Unit)
  | stop (name : String)
  | stopAll

namespace ApplicationManager

def register (m : ApplicationManager) (spec : AppSpec) : ApplicationManager :=
  { m with registrations := m.registrations.insert spec.name spec }

def exec (m : ApplicationManager) : Command → Option ApplicationManager
  | .register spec => some (m.register spec)
  | .start name outcome => some (Alone.start m name outcome).1
  | .ensureAllStarted name outcomes => (Alone.ensureAllStarted m name outcomes).map Prod.fst
  | .stop name => some (Alone.stop m name).1
  | .stopAll => some (stoppedAll m m.startOrder.reverse)

end ApplicationManager

def sequentialMachine : Machine ApplicationManager Command where
  start := fun m => m = .new
  next := ApplicationManager.exec

variable {m m' m₀ : ApplicationManager} {name n a b : String} {call : AppCall} {c : Command}
  {result : Except AppError Unit} {outcome : Except String Unit}
  {outcomes : String → Except String Unit} {order started list : List String}

/-! ## the interleaved calls -/

theorem returns_alone {k : Nat} (h : call.alone k m = some (m', result)) : Returns m call m' := by
  induction k generalizing m call with
  | zero => cases h
  | succ k ih =>
    rw [AppCall.alone] at h
    cases hstep : call.step m with
    | mk m₁ progress =>
      rw [hstep] at h
      cases progress with
      | returned r =>
        cases h
        exact .last (onePath_alone _ _) (by rw [AppCall.advance, hstep])
      | next c => exact .next (onePath_alone _ _) (by rw [AppCall.advance, hstep]) (ih h)

theorem alone_start (m : ApplicationManager) (name : String) (outcome : Except String Unit) :
    (AppCall.start name outcome).alone 3 m = some (Alone.start m name outcome) := by
  rw [AppCall.alone, AppCall.step, Alone.start]
  rcases start_cases m name outcome with ⟨m', result, heq, -⟩ | ⟨-, heq⟩
  · rw [heq]
  · rw [heq]
    cases outcome with
    | error text => rfl
    | ok _ => rfl

theorem alone_stop (m : ApplicationManager) (name : String) :
    (AppCall.stop name).alone 4 m = some (Alone.stop m name) := by
  rw [AppCall.alone, AppCall.step, Alone.stop]
  by_cases hrun : m.isRunning name = true
  · rw [if_pos hrun, if_pos hrun]
    simp [AppCall.alone, AppCall.step, ApplicationManager.stopped, stopHooks]
  · rw [if_neg hrun, if_neg hrun]

/-- no call is in progress -/
def Quiet (m : ApplicationManager) : Prop := managerMachine.Reach OnePath ⟨m, []⟩

theorem Quiet.returns (h : Quiet m) (hret : Returns m call m') (hopen : call.opens = true) : Quiet m' :=
  (hret.run hopen rfl h trivial).1

theorem Quiet.start (h : Quiet m) (name : String) (outcome : Except String Unit) :
    Quiet (Alone.start m name outcome).1 := h.returns (returns_alone (alone_start m name outcome)) rfl

theorem Quiet.stop (h : Quiet m) (name : String) : Quiet (Alone.stop m name).1 :=
  h.returns (returns_alone (alone_stop m name)) rfl

theorem Quiet.rollBack (h : Quiet m) (started : List String) : Quiet (Alone.rollBack m started) := by
  unfold Alone.rollBack
  induction started.reverse generalizing m with
  | nil => exact h
  | cons name names ih => exact ih (h.stop name)

theorem Quiet.startEach (h : Quiet m) (order started : List String) :
    Quiet (Alone.startEach outcomes m order started).1 := by
  induction order generalizing m started with
  | nil => exact h
  | cons name order ih =>
    rw [Alone.startEach]
    split
    · exact ih h started
    · have hstart := h.start name (outcomes name)
      split
      next heq =>
        rw [heq] at hstart
        exact ih hstart _
      next heq =>
        rw [heq] at hstart
        exact hstart.rollBack started

/-- **The calls that nothing interrupts are runs of the interleaved ones.** -/
theorem Quiet.exec (h : Quiet m) (hexec : m.exec c = some m') : Quiet m' := by
  cases c with
  | register spec =>
    cases hexec
    have hret : Returns m (.register spec) (m.register spec) := .last (onePath_alone _ _) rfl
    exact h.returns hret rfl
  | start name outcome =>
    cases hexec
    exact h.start name outcome
  | stop name =>
    cases hexec
    exact h.stop name
  | stopAll =>
    cases hexec
    exact h.returns ((consistent_of_reach h).returns_stopAll rfl) rfl
  | ensureAllStarted name outcomes =>
    obtain ⟨result, hsort⟩ := topologicalSort_returns m name
    rw [ApplicationManager.exec, Alone.ensureAllStarted, hsort] at hexec
    cases result with
    | error e =>
      cases hexec
      exact h
    | ok order =>
      cases hexec
      exact h.startEach order []

theorem quiet_of_reach {ok : ApplicationManager → Command → Prop} (h : sequentialMachine.Reach ok m) :
    Quiet m := by
  refine h.inv (fun m hm => ?_) fun m c m' hm _ hn => hm.exec hn
  cases hm
  exact Machine.Reach.start ⟨rfl, rfl⟩

theorem Quiet.listed (h : Quiet m) : n ∈ m.startOrder ↔ m.isRunning n = true := by
  rw [isRunning_iff]
  exact ((consistent_of_reach h).quiet rfl n).symm

theorem Quiet.unreserved (h : Quiet m) (n : String) : m.running.lookup n ≠ some .starting := by
  intro hn
  have hreserved := (consistent_of_reach h).reserved n
  rw [if_pos hn] at hreserved
  cases hreserved

theorem Quiet.lookup_none (h : Quiet m) (hn : ¬ m.isRunning n = true) : m.running.lookup n = none := by
  cases hl : m.running.lookup n with
  | none => rfl
  | some state =>
    cases state with
    | starting => exact absurd hl (h.unreserved n)
    | running => exact absurd (isRunning_iff.mpr hl) hn

/-! ## what a call does -/

structure Idle (m m' : ApplicationManager) : Prop where
  registrations : m'.registrations = m.registrations
  startOrder : m'.startOrder = m.startOrder
  running : ∀ n, m'.running.lookup n = m.running.lookup n

/-- a call that started an application, all of whose dependencies run -/
structure Started (m : ApplicationManager) (name : String) (m' : ApplicationManager) : Prop where
  registrations : m'.registrations = m.registrations
  startOrder : m'.startOrder = m.startOrder ++ [name]
  stopped : m.running.lookup name = none
  running : ∀ n, m'.running.lookup n = if n = name then some .running else m.running.lookup n
  dependencies : ∀ dep ∈ m.dependenciesOf name, m.running.lookup dep = some .running

theorem start_does (m : ApplicationManager) (name : String) (outcome : Except String Unit) :
    (Idle m (Alone.start m name outcome).1 ∧ ∃ e, (Alone.start m name outcome).2 = .error e) ∨
    Started m name (Alone.start m name outcome).1 ∧ (Alone.start m name outcome).2 = .ok () := by
  unfold Alone.start ApplicationManager.start
  cases hreg : m.registrations.lookup name with
  | none => exact Or.inl ⟨⟨rfl, rfl, fun _ => rfl⟩, _, rfl⟩
  | some spec =>
    cases hslot : m.running.lookup name with
    | some state => exact Or.inl ⟨⟨rfl, rfl, fun _ => rfl⟩, _, rfl⟩
    | none =>
      obtain ⟨hregs, horder, hlookup⟩ := release_reserved hslot
      dsimp only
      cases hdep : spec.dependencies.find? fun dep => !ApplicationManager.isRunning
          { m with running := m.running.insert name .starting } dep with
      | some dep => exact Or.inl ⟨⟨hregs, horder, hlookup⟩, _, rfl⟩
      | none =>
        cases outcome with
        | error text => exact Or.inl ⟨⟨hregs, horder, hlookup⟩, _, rfl⟩
        | ok _ =>
          refine Or.inr ⟨⟨rfl, rfl, hslot, fun n => ?_, fun dep hd => ?_⟩, rfl⟩
          · show ((m.running.insert name .starting).insert name .running).lookup n = _
            rw [HashMap.lookup_insert_if, HashMap.lookup_insert_if]
            by_cases hn : n = name
            · rw [if_pos hn, if_pos hn]
            · rw [if_neg hn, if_neg hn, if_neg hn]
          · have hin : dep ∈ spec.dependencies := by
              rw [ApplicationManager.dependenciesOf, hreg] at hd
              exact hd
            have hrun := List.find?_eq_none.mp hdep dep hin
            rw [Bool.not_eq_true', Bool.not_eq_false, isRunning_iff] at hrun
            replace hrun : (m.running.insert name .starting).lookup dep = some .running := hrun
            rw [HashMap.lookup_insert_if] at hrun
            split at hrun
            next => cases hrun
            next => exact hrun

theorem Started.stopped_name (h : Started m name m') : ¬ m.isRunning name = true := by
  rw [isRunning_iff, h.stopped]
  exact nofun

/-! ## the starts of one call -/

/-- the manager after this call has started the applications of the list -/
structure Begun (m₀ : ApplicationManager) (started : List String) (m : ApplicationManager) :
    Prop where
  registrations : m.registrations = m₀.registrations
  startOrder : m.startOrder = m₀.startOrder ++ started
  running : ∀ n, m.running.lookup n = if n ∈ started then some .running else m₀.running.lookup n
  stopped : ∀ n ∈ started, ¬ m₀.isRunning n = true
  nodup : started.Nodup

theorem begun_self (m : ApplicationManager) : Begun m [] m :=
  ⟨rfl, (List.append_nil _).symm, fun _ => rfl, nofun, List.nodup_nil⟩

theorem Begun.isRunning (h : Begun m₀ started m) (n : String) :
    m.isRunning n = true ↔ n ∈ started ∨ m₀.isRunning n = true := by
  rw [isRunning_iff, isRunning_iff, h.running]
  by_cases hn : n ∈ started
  · simp [hn]
  · simp [hn]

theorem Begun.idle (h : Begun m₀ started m) (hidle : Idle m m') : Begun m₀ started m' :=
  ⟨hidle.registrations.trans h.registrations, hidle.startOrder.trans h.startOrder,
    fun n => (hidle.running n).trans (h.running n), h.stopped, h.nodup⟩

theorem Begun.start (h : Begun m₀ started m) (hstart : Started m name m') :
    Begun m₀ (started ++ [name]) m' := by
  have hnew := hstart.stopped_name
  rw [h.isRunning, not_or] at hnew
  refine ⟨hstart.registrations.trans h.registrations, ?_, fun n => ?_, fun n hn => ?_, ?_⟩
  · rw [hstart.startOrder, h.startOrder, List.append_assoc]
  · rw [hstart.running, h.running]
    by_cases hname : n = name
    · simp [hname]
    · simp [hname]
  · rcases List.mem_append.mp hn with hn | hn
    · exact h.stopped n hn
    · rw [List.mem_singleton.mp hn]
      exact hnew.2
  · rw [List.nodup_append]
    refine ⟨h.nodup, List.nodup_singleton _, fun a ha b hb heq => hnew.1 ?_⟩
    rw [← List.mem_singleton.mp hb, ← heq]
    exact ha

/-- a `stop` of the application that was started last undoes its start -/
theorem Begun.stop (hm : Quiet m₀) (h : Begun m₀ (started ++ [name]) m) :
    Begun m₀ started (Alone.stop m name).1 ∧
    (Alone.stop m name).1.hooks = m.hooks ++ stopHooks name := by
  have hrun : m.isRunning name = true := by
    rw [h.isRunning]
    exact Or.inl (by simp)
  have hlast : name ∉ started := by
    intro hmem
    exact (List.nodup_append.mp h.nodup).2.2 name hmem name List.mem_cons_self rfl
  have hold : ¬ m₀.isRunning name = true := h.stopped name (by simp)
  have hunlisted : name ∉ m₀.startOrder := by
    intro hmem
    exact hold (hm.listed.mp hmem)
  unfold Alone.stop
  rw [if_pos hrun]
  refine ⟨⟨h.registrations, ?_, fun n => ?_, fun n hn => ?_, ?_⟩, rfl⟩
  · show m.startOrder.filter (· ≠ name) = _
    have hkeep : ∀ n ∈ m₀.startOrder ++ started, decide (n ≠ name) = true := by
      intro n hn
      rw [decide_eq_true_iff]
      rintro rfl
      rcases List.mem_append.mp hn with hn | hn
      · exact hunlisted hn
      · exact hlast hn
    rw [h.startOrder, ← List.append_assoc, List.filter_append, List.filter_eq_self.mpr hkeep]
    simp
  · show (m.running.erase name).lookup n = _
    rw [HashMap.lookup_erase_if, h.running]
    by_cases hname : n = name
    · rw [if_pos hname, hname, if_neg hlast, hm.lookup_none hold]
    · simp [hname]
  · exact h.stopped n (List.mem_append_left _ hn)
  · exact (List.nodup_append.mp h.nodup).1

/-- **The rollback undoes the starts**, the last one first. -/
theorem rollBack_undoes (hm : Quiet m₀) (h : Begun m₀ started m) :
    Begun m₀ [] (Alone.rollBack m started) ∧
    (Alone.rollBack m started).hooks = m.hooks ++ started.reverse.flatMap stopHooks := by
  induction started using List.reverseRecOn generalizing m with
  | nil => exact ⟨h, (List.append_nil _).symm⟩
  | append_singleton started name ih =>
    obtain ⟨hstop, hhooks⟩ := h.stop hm
    obtain ⟨hbegun, hrest⟩ := ih hstop
    have hroll : Alone.rollBack m (started ++ [name]) = Alone.rollBack (Alone.stop m name).1 started := by
      unfold Alone.rollBack
      rw [List.reverse_append]
      rfl
    rw [hroll]
    refine ⟨hbegun, ?_⟩
    rw [hrest, hhooks, List.reverse_append, List.append_assoc]
    rfl

theorem start_hooks (m : ApplicationManager) (name : String) (outcome : Except String Unit) :
    (Alone.start m name outcome).1.hooks = m.hooks := by
  have hrelease : ∀ m : ApplicationManager, (m.release name).hooks = m.hooks := by
    intro m
    unfold ApplicationManager.release
    split
    next => rfl
    next => rfl
  unfold Alone.start ApplicationManager.start
  cases m.registrations.lookup name with
  | none => rfl
  | some spec =>
    cases m.running.lookup name with
    | some state => rfl
    | none =>
      dsimp only
      cases spec.dependencies.find? fun dep => !ApplicationManager.isRunning
          { m with running := m.running.insert name .starting } dep with
      | some dep => exact hrelease _
      | none =>
        cases outcome with
        | error text => exact hrelease _
        | ok _ => rfl

/-- **How the loop ends**: with an error and everything undone, or with every application of the
order started that did not run. -/
theorem startEach_ends (hm : Quiet m₀) (h : Begun m₀ started m) (hnodup : order.Nodup) :
    (∃ e, (Alone.startEach outcomes m order started).2 = .error e ∧
      Begun m₀ [] (Alone.startEach outcomes m order started).1 ∧
      (Alone.startEach outcomes m order started).1.hooks
        = m.hooks ++ (started ++ Alone.startedOf outcomes m order).reverse.flatMap stopHooks) ∨
    ∃ list, (Alone.startEach outcomes m order started).2 = .ok list ∧
      list = started ++ order.filter (fun n => !m.isRunning n) ∧
      Begun m₀ list (Alone.startEach outcomes m order started).1 := by
  induction order generalizing m started with
  | nil => exact Or.inr ⟨started, rfl, (List.append_nil _).symm, h⟩
  | cons name order ih =>
    obtain ⟨hfirst, hnodup⟩ := List.nodup_cons.mp hnodup
    rw [Alone.startEach, Alone.startedOf]
    by_cases hrun : m.isRunning name = true
    · rw [if_pos hrun, if_pos hrun, List.filter_cons_of_neg (by simp [hrun])]
      exact ih h hnodup
    · rw [if_neg hrun, if_neg hrun, List.filter_cons_of_pos (by simp [hrun])]
      have hhooks := start_hooks m name (outcomes name)
      have hdoes := start_does m name (outcomes name)
      cases hs : Alone.start m name (outcomes name) with
      | mk m₁ result =>
        rw [hs] at hhooks hdoes
        rcases hdoes with ⟨hidle, e, rfl⟩ | ⟨hstart, rfl⟩
        · obtain ⟨hundone, hroll⟩ := rollBack_undoes hm (h.idle hidle)
          refine Or.inl ⟨e, rfl, hundone, hroll.trans ?_⟩
          rw [hhooks, List.append_nil]
        · -- the start changes nothing for the applications that follow
          have hsame : order.filter (fun n => !m₁.isRunning n) = order.filter (fun n => !m.isRunning n) := by
            refine List.filter_congr fun n hn => congrArg not (Bool.eq_iff_iff.mpr ?_)
            have hne : n ≠ name := fun heq => hfirst (heq ▸ hn)
            rw [isRunning_iff, isRunning_iff, hstart.running, if_neg hne]
          have hlater := ih (h.start hstart) hnodup
          rw [hsame, hhooks, List.append_assoc, List.append_assoc] at hlater
          exact hlater

theorem Begun.undone (hm : Quiet m) (h : Begun m [] m')
    (hhooks : m'.hooks = m.hooks ++ started.reverse.flatMap stopHooks) : Undone m started m' where
  registrations := h.registrations
  running := fun n => congrArg (fun slot => decide (slot = some RunState.running)) (h.running n)
  startOrder := h.startOrder.trans (List.append_nil _)
  unreserved := fun n hn => hm.unreserved n ((h.running n).symm.trans hn)
  hooks := hhooks

theorem Begun.allStarted (hsorted : Sorted m name order)
    (h : Begun m (order.filter fun n => !m.isRunning n) m') :
    AllStarted m name (order.filter fun n => !m.isRunning n) m' := by
  have hmem : ∀ n, n ∈ order.filter (fun n => !m.isRunning n) ↔
      m.Needs name n ∧ ¬ m.isRunning n = true := by
    intro n
    rw [List.mem_filter, hsorted.mem, Bool.not_eq_true', Bool.not_eq_true]
  refine ⟨h.registrations, fun n hn => ?_, hmem, h.nodup, fun before n after heq dep hdep => ?_, h.startOrder⟩
  · rw [h.isRunning, hmem]
    by_cases hrun : m.isRunning n = true
    · exact Or.inr hrun
    · exact Or.inl ⟨hn, hrun⟩
  · by_cases hrun : m.isRunning dep = true
    · exact Or.inr hrun
    · obtain ⟨front, rest, rfl, rfl, hrest⟩ := List.filter_eq_append_iff.mp heq
      obtain ⟨skipped, back, rfl, hskipped, -, -⟩ := List.filter_eq_cons_iff.mp hrest
      have hbefore : dep ∈ front ++ skipped :=
        hsorted.closed.before (List.append_assoc _ _ _).symm hdep
      rcases List.mem_append.mp hbefore with hin | hin
      · exact Or.inl (List.mem_filter.mpr ⟨hin, by simp [hrun]⟩)
      · exact absurd (by simp [hrun]) (hskipped dep hin)

/-- **How `ensure_all_started` ends**: in a quiet state, with everything undone or with everything started. -/
theorem ensureAllStarted_ends (hm : Quiet m) (name : String) (outcomes : String → Except String Unit) :
    ∃ m' result, Alone.ensureAllStarted m name outcomes = some (m', result) ∧
      (∀ e, result = .error e → Undone m (Alone.startedBy m name outcomes) m') ∧
      ∀ list, result = .ok list → AllStarted m name list m' := by
  obtain ⟨result, hsort⟩ := topologicalSort_returns m name
  rw [Alone.ensureAllStarted, Alone.startedBy, hsort]
  cases result with
  | error e =>
    refine ⟨m, .error e, rfl, fun _ _ => ?_, nofun⟩
    exact (begun_self m).undone hm (List.append_nil _).symm
  | ok order =>
    obtain ⟨hsorted, -⟩ := sorted_of_ok hsort
    refine ⟨_, _, rfl, ?_⟩
    rcases startEach_ends hm (begun_self m) hsorted.nodup with
      ⟨e, herror, hundone, hhooks⟩ | ⟨list, hok, hlist, hbegun⟩
    · rw [herror]
      exact ⟨fun _ _ => hundone.undone hm hhooks, nofun⟩
    · rw [hok]
      rw [List.nil_append] at hlist
      refine ⟨nofun, fun list' heq => ?_⟩
      cases heq
      rw [hlist] at hbegun ⊢
      exact hbegun.allStarted hsorted

/-- **`ensure_all_started` starts everything or nothing.**  After any calls that do not overlap, for any
results of the callbacks: an error leaves the running applications and the start order as they were
and has called the stop hooks of what the call had started, the last one first; a success leaves
`name` and all that it needs running, and returns what did not run before in dependency order. -/
theorem ensureAllStarted_correct (h : sequentialMachine.Reach Machine.Anytime m) (name : String)
    (outcomes : String → Except String Unit) :
    ∃ m' result, Alone.ensureAllStarted m name outcomes = some (m', result) ∧
      (∀ e, result = .error e → Undone m (Alone.startedBy m name outcomes) m') ∧
      ∀ list, result = .ok list → AllStarted m name list m' :=
  ensureAllStarted_ends (quiet_of_reach h) name outcomes

/-- three applications in a row, the first of which is started -/
private def lined : List Command :=
  [.register ⟨"log", []⟩, .register ⟨"db", ["log"]⟩, .register ⟨"web", ["db"]⟩, .start "log" (.ok ())]

/-- the callback of one application fails -/
private def failing (name : String) : String → Except String Unit :=
  fun n => if n = name then .error "refused" else .ok ()

theorem ensureAllStarted_correct_web : ∃ m, sequentialMachine.Reach Machine.Anytime m ∧
    (∃ m' e, Alone.ensureAllStarted m "web" (failing "web") = some (m', .error e) ∧
      Undone m ["db"] m') ∧
    ∃ m' list, Alone.ensureAllStarted m "web" (failing "") = some (m', .ok list) ∧
      AllStarted m "web" list m' := by
  have hstart : sequentialMachine.Reach Machine.Anytime .new := .start rfl
  obtain ⟨m, hm, hstarted, hfails, hsucceeds⟩ := hstart.exists_run lined
    (p := fun m => Alone.startedBy m "web" (failing "web") = ["db"] ∧
      (Alone.ensureAllStarted m "web" (failing "web")).map (·.2.toBool) = some false ∧
      (Alone.ensureAllStarted m "web" (failing "")).map (·.2.toBool) = some true) (by decide)
  refine ⟨m, hm, ?_, ?_⟩
  · obtain ⟨m', result, heq, hundone, -⟩ := ensureAllStarted_correct hm "web" (failing "web")
    rw [heq] at hfails
    cases result with
    | ok list => cases hfails
    | error e => exact ⟨m', e, heq, hstarted ▸ hundone e rfl⟩
  · obtain ⟨m', result, heq, -, hall⟩ := ensureAllStarted_correct hm "web" (failing "")
    rw [heq] at hsucceeds
    cases result with
    | ok list => exact ⟨m', list, heq, hall list rfl⟩
    | error e => cases hsucceeds

end Rebar.Application

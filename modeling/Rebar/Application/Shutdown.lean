import Rebar.Application.Ensured

/-!
# The order of a shutdown

Calls on the application manager one after another, each run to its end, and the order in which a
`stop_all` then calls the stop hooks: the start order from its end, which is an order of the dependencies
as long as no application is started behind one that needs it.
-/

namespace Rebar.Application

/-- **The condition**: a running application depends on no other one that the call has started, and a
registration makes none depend on another running one. -/
def Undisturbing (m : ApplicationManager) (c : Command) : Prop :=
  ∀ m', m.exec c = some m' → ∀ a b, m.isRunning a → m'.isRunning b → m'.DependsOn a b →
    m.isRunning b ∧ m.DependsOn a b

variable {m m' : ApplicationManager} {name n a b : String} {c : Command} {list : List String}
  {outcome : Except String Unit}

theorem dependsOn_congr (h : ∀ n, m'.dependenciesOf n = m.dependenciesOf n) :
    m'.DependsOn = m.DependsOn := by
  rw [ApplicationManager.DependsOn, ApplicationManager.DependsOn, funext h]

theorem dependenciesOf_congr (h : m'.registrations = m.registrations) (n : String) :
    m'.dependenciesOf n = m.dependenciesOf n := by
  rw [ApplicationManager.dependenciesOf, ApplicationManager.dependenciesOf, h]

theorem dependsOn_head (h : m.DependsOn a b) :
    ∃ dep ∈ m.dependenciesOf a, dep = b ∨ m.DependsOn dep b := by
  obtain ⟨dep, hdep, hrest⟩ := Relation.TransGen.head'_iff.mp h
  rcases Relation.reflTransGen_iff_eq_or_transGen.mp hrest with heq | hrest
  · exact ⟨dep, hdep, Or.inl heq.symm⟩
  · exact ⟨dep, hdep, Or.inr hrest⟩

/-! ## what a call does -/

/-- some of the running applications are stopped, and those of the list are started, none before one that
it depends on -/
structure Moves (m : ApplicationManager) (list : List String) (m' : ApplicationManager) : Prop where
  startOrder : ∃ kept, kept.Sublist m.startOrder ∧ m'.startOrder = kept ++ list
  stopped : ∀ n ∈ list, ¬ m.isRunning n = true
  ordered : list.Pairwise fun a b => ¬ m'.DependsOn a b
  acyclic : ∀ a ∈ list, ¬ m'.DependsOn a a

theorem moves_nil {m' : ApplicationManager} (h : m'.startOrder.Sublist m.startOrder) : Moves m [] m' :=
  ⟨⟨_, h, (List.append_nil _).symm⟩, nofun, .nil, nofun⟩

theorem moves_start (hok : Undisturbing m (.start name outcome)) :
    ∃ list, Moves m list (Alone.start m name outcome).1 := by
  rcases start_does m name outcome with ⟨hidle, -⟩ | ⟨hstart, -⟩
  · exact ⟨[], moves_nil (hidle.startOrder ▸ List.Sublist.refl _)⟩
  · refine ⟨[name], ⟨_, List.Sublist.refl _, hstart.startOrder⟩, fun n hn => ?_, List.pairwise_singleton _ _,
      fun a ha hself => ?_⟩
    · rw [List.mem_singleton.mp hn]
      exact hstart.stopped_name
    · rw [List.mem_singleton.mp ha] at hself
      have hdeps := dependsOn_congr (dependenciesOf_congr hstart.registrations)
      have hrun : (Alone.start m name outcome).1.isRunning name = true := by
        rw [isRunning_iff, hstart.running, if_pos rfl]
      obtain ⟨dep, hdep, heq | hrest⟩ := dependsOn_head (hdeps ▸ hself)
      · exact hstart.stopped_name (heq ▸ isRunning_iff.mpr (hstart.dependencies dep hdep))
      · exact hstart.stopped_name (hok _ rfl dep name (isRunning_iff.mpr (hstart.dependencies dep hdep)) hrun
          (hdeps ▸ hrest)).1

theorem AllStarted.moves (h : AllStarted m name list m') : Moves m list m' := by
  have hdeps := dependsOn_congr (dependenciesOf_congr h.registrations)
  have hstopped : ∀ n ∈ list, ¬ m.isRunning n = true := fun n hn => ((h.mem n).mp hn).2
  -- what an application of the list depends on comes before it, or runs already
  have hlater : ∀ i j (hi : i < list.length) (hj : j < list.length), i ≤ j → ¬ m.DependsOn list[i] list[j] := by
    intro i j hi hj hij hdep
    have heq : list = list.take i ++ list[i] :: list.drop (i + 1) := by simp
    rcases h.ordered _ _ _ heq _ hdep with hmem | hrun
    · obtain ⟨k, hk, hkj⟩ := List.getElem_of_mem hmem
      rw [List.getElem_take] at hkj
      rw [List.length_take] at hk
      have hsame := (List.Nodup.getElem_inj_iff h.nodup).mp hkj
      omega
    · exact hstopped _ (List.getElem_mem hj) hrun
  rw [← hdeps] at hlater
  refine ⟨⟨_, List.Sublist.refl _, h.startOrder⟩, hstopped, List.pairwise_iff_getElem.mpr
    fun i j hi hj hij => hlater i j hi hj hij.le, fun a ha => ?_⟩
  obtain ⟨i, hi, rfl⟩ := List.getElem_of_mem ha
  exact hlater i i hi hi le_rfl

theorem foldl_filter_sublist (names order : List String) :
    (names.foldl (fun order name => order.filter (· ≠ name)) order).Sublist order := by
  induction names generalizing order with
  | nil => exact List.Sublist.refl _
  | cons name names ih => exact (ih _).trans List.filter_sublist

theorem exec_moves (h : Quiet m) (hok : Undisturbing m c) (hexec : m.exec c = some m') :
    ∃ list, Moves m list m' := by
  cases c with
  | register spec =>
    cases hexec
    exact ⟨[], moves_nil (List.Sublist.refl _)⟩
  | start name outcome =>
    cases hexec
    exact moves_start hok
  | ensureAllStarted name outcomes =>
    obtain ⟨m₁, result, heq, hundone, hall⟩ := ensureAllStarted_ends h name outcomes
    rw [ApplicationManager.exec, heq] at hexec
    cases hexec
    cases result with
    | error e => exact ⟨[], moves_nil ((hundone e rfl).startOrder ▸ List.Sublist.refl _)⟩
    | ok list => exact ⟨list, (hall list rfl).moves⟩
  | stop name =>
    cases hexec
    refine ⟨[], moves_nil ?_⟩
    unfold Alone.stop
    split
    next => exact List.filter_sublist
    next => exact List.Sublist.refl _
  | stopAll =>
    cases hexec
    exact ⟨[], moves_nil (foldl_filter_sublist _ _)⟩

/-! ## the invariant -/

/-- the start order is an order of the dependencies -/
structure Sound (m : ApplicationManager) : Prop where
  order : m.startOrder.Pairwise fun a b => ¬ m.DependsOn a b
  acyclic : ∀ a ∈ m.startOrder, ¬ m.DependsOn a a

theorem Sound.moves (h : Sound m) (hm : Quiet m) (hm' : Quiet m') (hmoves : Moves m list m')
    (hok : Undisturbing m c) (hexec : m.exec c = some m') : Sound m' := by
  obtain ⟨kept, hkept, horder⟩ := hmoves.startOrder
  have hrun : ∀ b ∈ kept ++ list, m'.isRunning b = true := fun b hb => hm'.listed.mp (horder ▸ hb)
  -- the new dependencies of an application that ran before are old ones
  have hold : ∀ a ∈ kept, ∀ b ∈ kept ++ list, m'.DependsOn a b → m.isRunning b ∧ m.DependsOn a b :=
    fun a ha b hb => hok m' hexec a b (hm.listed.mp (hkept.subset ha)) (hrun b hb)
  constructor
  · rw [horder]
    refine List.pairwise_append.mpr ⟨?_, hmoves.ordered, fun a ha b hb hdep => ?_⟩
    · exact (h.order.sublist hkept).imp_of_mem fun ha hb hnot hdep =>
        hnot (hold _ ha _ (List.mem_append_left _ hb) hdep).2
    · exact hmoves.stopped b hb (hold a ha b (List.mem_append_right _ hb) hdep).1
  · intro a ha hself
    rw [horder] at ha
    rcases List.mem_append.mp ha with hin | hin
    · exact h.acyclic a (hkept.subset hin) (hold a hin a ha hself).2
    · exact hmoves.acyclic a hin hself

theorem sound_of_reach (h : sequentialMachine.Reach Undisturbing m) : Quiet m ∧ Sound m := by
  refine h.inv (I := fun m => Quiet m ∧ Sound m) (fun m hm => ?_) fun m c m' hm hok hn => ?_
  · cases hm
    exact ⟨Machine.Reach.start ⟨rfl, rfl⟩, .nil, nofun⟩
  · have hquiet := hm.1.exec hn
    obtain ⟨list, hmoves⟩ := exec_moves hm.1 hok hn
    exact ⟨hquiet, hm.2.moves hm.1 hquiet hmoves hok hn⟩

/-! ## the order of the stop hooks -/

theorem idxOf_lt_of_pairwise {l : List String} {R : String → String → Prop} (h : l.Pairwise R)
    (ha : a ∈ l) (hb : b ∈ l) (hne : a ≠ b) (hnot : ¬ R b a) : l.idxOf a < l.idxOf b := by
  rcases Nat.lt_trichotomy (l.idxOf a) (l.idxOf b) with hlt | heq | hgt
  · exact hlt
  · exact absurd ((List.idxOf_inj ha).mp heq) hne
  · have hpair := List.pairwise_iff_getElem.mp h _ _ (List.idxOf_lt_length_of_mem hb)
      (List.idxOf_lt_length_of_mem ha) hgt
    rw [List.getElem_idxOf, List.getElem_idxOf] at hpair
    exact absurd hpair hnot

/-- **A `stop_all` after completed calls stops every application before those it depends on**, if no call
has started one that a running application depends on, or made a running one depend on another. -/
theorem stopAll_dependents_first (h : sequentialMachine.Reach Undisturbing m) :
    ∃ names : List String, names.Nodup ∧ (∀ n, n ∈ names ↔ m.isRunning n = true) ∧
      (∃ k s', managerMachine.run ⟨m, []⟩ (.invoke .stopAll :: .replicate k (.advance 0)) = some s' ∧
        s'.calls = [] ∧ s'.shared.hooks = m.hooks ++ names.flatMap stopHooks) ∧
      ∀ a b, m.isRunning a → m.isRunning b → m.DependsOn a b → names.idxOf a < names.idxOf b := by
  obtain ⟨hquiet, hs⟩ := sound_of_reach h
  have hcons := consistent_of_reach hquiet
  have hrun : ∀ n, n ∈ m.startOrder.reverse ↔ m.isRunning n = true := fun n =>
    List.mem_reverse.trans hquiet.listed
  obtain ⟨-, k, hstop⟩ := (hcons.returns_stopAll rfl).run rfl rfl hquiet trivial
  refine ⟨m.startOrder.reverse, List.nodup_reverse.mpr hcons.nodup, hrun,
    ⟨k, _, hstop, rfl, rfl⟩, fun a b ha hb hdep => ?_⟩
  have hne : a ≠ b := by
    rintro rfl
    exact hs.acyclic a (hquiet.listed.mpr ha) hdep
  exact idxOf_lt_of_pairwise (List.pairwise_reverse.mpr hs.order) ((hrun a).mpr ha) ((hrun b).mpr hb)
    hne (not_not_intro hdep)

/-- two applications are registered, the second of which needs the first -/
private def described : ApplicationManager :=
  (ApplicationManager.new.register ⟨"db", []⟩).register ⟨"web", ["db"]⟩

theorem undisturbing_of_empty (h : m.running = ∅) (c : Command) : Undisturbing m c := by
  intro _ _ a _ ha
  rw [isRunning_iff, h] at ha
  cases ha

theorem stopAll_dependents_first_web : ∃ m,
    sequentialMachine.Reach Undisturbing m ∧
    m.isRunning "web" ∧ m.isRunning "db" ∧ m.DependsOn "web" "db" ∧
    ∃ names : List String, names.Nodup ∧ (∀ n, n ∈ names ↔ m.isRunning n = true) ∧
      (∃ k s', managerMachine.run ⟨m, []⟩ (.invoke .stopAll :: .replicate k (.advance 0)) = some s' ∧
        s'.calls = [] ∧ s'.shared.hooks = m.hooks ++ names.flatMap stopHooks) ∧
      names.idxOf "web" < names.idxOf "db" := by
  have hstart : sequentialMachine.Reach Undisturbing described :=
    .step (.step (.start rfl) (undisturbing_of_empty rfl (.register ⟨"db", []⟩)) rfl)
      (undisturbing_of_empty rfl (.register ⟨"web", ["db"]⟩)) rfl
  obtain ⟨m, hexec⟩ := Option.isSome_iff_exists.mp
    (by decide : (described.exec (.ensureAllStarted "web" fun _ => .ok ())).isSome = true)
  have htest : (described.exec (.ensureAllStarted "web" fun _ => .ok ())).all (fun m =>
      m.isRunning "web" && m.isRunning "db" && decide ("db" ∈ m.dependenciesOf "web")) = true := by
    decide
  rw [hexec, Option.all_some, Bool.and_eq_true, Bool.and_eq_true] at htest
  obtain ⟨⟨hweb, hdb⟩, hdep⟩ := htest
  have hnext : sequentialMachine.next described (.ensureAllStarted "web" fun _ => .ok ()) = some m :=
    hexec
  have hreach := hstart.step (undisturbing_of_empty rfl _) hnext
  have hneeds : m.DependsOn "web" "db" := .single (of_decide_eq_true hdep)
  obtain ⟨names, hnodup, hnames, hstop, horder⟩ := stopAll_dependents_first hreach
  exact ⟨m, hreach, hweb, hdb, hneeds, names, hnodup, hnames, hstop, horder _ _ hweb hdb hneeds⟩

/-! ## a dependency that is restarted -/

/-- the dependency list of an application is not changed while it runs -/
def Unchanged (m : ApplicationManager) : Command → Prop
  | .register spec => m.isRunning spec.name → m.dependenciesOf spec.name = spec.dependencies
  | _ => True

instance (m : ApplicationManager) : DecidablePred (Unchanged m)
  | .register spec => inferInstanceAs (Decidable (m.isRunning spec.name →
      m.dependenciesOf spec.name = spec.dependencies))
  | .start _ _ | .ensureAllStarted _ _ | .stop _ | .stopAll => inferInstanceAs (Decidable True)

/-- the first application is stopped and started again while the second one runs -/
private def restartedDependency : List Command :=
  [.register ⟨"db", []⟩, .register ⟨"web", ["db"]⟩, .start "db" (.ok ()), .start "web" (.ok ()),
    .stop "db", .start "db" (.ok ())]

/-- **A dependency that was restarted is stopped before the application that needs it.** -/
theorem stopAll_dependency_first : ∃ m, sequentialMachine.Reach Unchanged m ∧
    m.isRunning "web" ∧ m.isRunning "db" ∧ m.DependsOn "web" "db" ∧
    ∃ k s', managerMachine.run ⟨m, []⟩ (.invoke .stopAll :: .replicate k (.advance 0)) = some s' ∧
      s'.calls = [] ∧ s'.shared.hooks = m.hooks ++ stopHooks "db" ++ stopHooks "web" := by
  have hstart : sequentialMachine.Reach Unchanged .new := .start rfl
  obtain ⟨m, hreach, hweb, hdb, hdep, s', hrun, hcalls, hhooks⟩ := hstart.exists_checked restartedDependency
    (p := fun m => m.isRunning "web" ∧ m.isRunning "db" ∧ "db" ∈ m.dependenciesOf "web" ∧
      ∃ s' ∈ managerMachine.run ⟨m, []⟩ (.invoke .stopAll :: .replicate 7 (.advance 0)), s'.calls = [] ∧
        s'.shared.hooks = m.hooks ++ stopHooks "db" ++ stopHooks "web") (by decide)
  exact ⟨m, hreach, hweb, hdb, .single hdep, 7, s', hrun, hcalls, hhooks⟩

end Rebar.Application

import Rebar.Supervisor.Staff

/-!
# Who may still run

An incarnation that was not told to stop is held by its supervisor.

* `Owned`, `owned_of_reach`   in every run, a process that was not told to stop is held.
-/

namespace Rebar.Supervisor

open Process SupervisorLoop

variable {F : Type} {node next : Node F} {sup : SupervisorLoop F} {now : Nanos}
  {pid : ProcessId} {task : Task F} {tasks : HashMap ProcessId (Task F)} {i : Nat}

def Phase.untold : Phase → Bool
  | .naming _ => true
  | .calling => true
  | .running aborted => !aborted
  | _ => false

theorem Phase.rank_of_untold {phase : Phase} (h : phase.untold = true) : phase.rank ≤ 2 := by
  cases phase with
  | naming | calling | running => simp [Phase.rank]
  | done | reporting | leaving | gone => cases h

theorem Phase.untold_left (progress : Progress) : (Phase.left progress).untold = false := by
  cases progress <;> rfl

variable {table table' : ProcessTable} {choice : Choice} {report : Option ExitReason}
  {starts : List Nat} {sup' : SupervisorLoop F} {fresh : ProcessId}
  {r : SupervisorLoop F × Effect F}

theorem Task.step_untold {next : Task F}
    (h : task.step pid table choice = some (table', next, report))
    (hnext : next.phase.untold = true) : task.phase.untold = true := by
  unfold Task.step at h
  split at h <;> cases h
  case h_1 hphase =>
    rw [hphase]
    rfl
  case h_2 hphase =>
    rw [hphase]
    rfl
  case h_9 => cases (Phase.untold_left _).symm.trans hnext
  all_goals cases hnext

theorem Task.aborted_untold (task : Task F) (hrank : 2 ≤ task.phase.rank) :
    task.aborted.phase.untold = false := by
  unfold Task.aborted
  split
  next => rfl
  next hphase =>
    cases h : task.phase with
    | naming | calling =>
      rw [h] at hrank
      exact absurd hrank (by simp [Phase.rank])
    | running aborted => exact absurd h (hphase aborted)
    | done | reporting | leaving | gone => rfl

theorem Task.untold_of_aborted (h : task.aborted.phase.untold = true) :
    task.phase.untold = true := by
  unfold Task.aborted at h
  split at h
  next => cases h
  next => exact h

def Task.Sent (task : Task F) : Prop :=
  2 ≤ task.phase.rank → task.abortSent = true ∨ 5 ≤ task.phase.rank

theorem Task.Sent.step {next : Task F} (hsent : task.Sent)
    (h : task.step pid table choice = some (table', next, report)) : next.Sent := by
  unfold Task.step at h
  split at h <;> cases h
  case h_1 => exact fun hrank => absurd (Nat.le_trans hrank (Phase.rank_named _)) (by decide)
  case h_2 => exact fun _ => Or.inl rfl
  case h_3 => exact fun _ => Or.inr (Nat.le_refl 5)
  case h_8 => exact fun _ => Or.inr (Nat.le_refl 5)
  case h_9 => exact fun _ => Or.inr (Phase.rank_left _)
  all_goals
    rename_i hphase
    refine fun _ => Or.inl ((hsent ?_).resolve_right ?_)
    · simp [hphase, Phase.rank]
    · simp [hphase, Phase.rank]

theorem Task.Sent.aborted (h : task.Sent) : task.aborted.Sent := by
  unfold Task.Sent
  rw [task.aborted_advanced.2]
  unfold Task.aborted
  split
  · exact h
  · exact h

/-! ## the abort handles -/

/-- the supervisor can abort the inner task of every process on record -/
structure Equipped (sup : SupervisorLoop F) (tasks : HashMap ProcessId (Task F)) : Prop where
  handed : ∀ {i p t}, sup.state.current i = some p → tasks.lookup p = some t → 2 ≤ t.phase.rank
  handle : ∀ {i child p t}, sup.state.children[i]? = some child → child.pid = some p →
    tasks.lookup p = some t → child.abort = some p ∨ 5 ≤ t.phase.rank ∨ sup.Stopping i
  grace : ∀ {i p abort deadline t}, sup.wait = some (.grace i p abort deadline) →
    tasks.lookup p = some t → abort = some p ∨ 5 ≤ t.phase.rank

theorem Equipped.new (pid : ProcessId) (spec : SupervisorSpec) (entries : List (ChildEntry F)) :
    Equipped (.new pid spec entries) tasks := by
  have hnone : ∀ {i p}, (SupervisorLoop.new pid spec entries).state.current i ≠ some p :=
    fun hcur => not_holds_new (Or.inl hcur)
  refine ⟨fun hcur => absurd hcur hnone, fun hchild hpid => ?_, nofun⟩
  exact absurd (Option.bind_eq_some_iff.mpr ⟨_, hchild, hpid⟩) hnone

theorem Equipped.mono (h : Equipped sup tasks) {stops : List Nat} (ho : Orderly sup stops starts)
    {tasks' : HashMap ProcessId (Task F)}
    (hback : ∀ {i p t'}, sup.state.current i = some p → tasks'.lookup p = some t' →
      ∃ t, tasks.lookup p = some t ∧ t.phase.rank ≤ t'.phase.rank) : Equipped sup tasks' := by
  refine ⟨fun hcur ht' => ?_, fun hchild hpid ht' => ?_, fun hwait ht' => ?_⟩
  · obtain ⟨t, ht, hle⟩ := hback hcur ht'
    exact Nat.le_trans (h.handed hcur ht) hle
  · obtain ⟨t, ht, hle⟩ := hback (Option.bind_eq_some_iff.mpr ⟨_, hchild, hpid⟩) ht'
    exact (h.handle hchild hpid ht).imp_right (Or.imp_left fun hrank => Nat.le_trans hrank hle)
  · obtain ⟨t, ht, hle⟩ := hback (ho.stopping hwait rfl) ht'
    exact (h.grace hwait ht).imp_right fun hrank => Nat.le_trans hrank hle

theorem Equipped.set (h : Equipped sup tasks) {index : Nat} {child : ChildState F}
    (hchild : sup.state.children[index]? = some child) {new : ChildState F}
    (hchildren : sup'.state.children = (sup.state.setChild index new).children)
    (honly : ∀ i, sup.Stopping i → i = index)
    (hnew : ∀ {p t}, new.pid = some p → tasks.lookup p = some t → 2 ≤ t.phase.rank ∧
      (new.abort = some p ∨ 5 ≤ t.phase.rank ∨ sup'.Stopping index))
    (hgrace : ∀ {i p abort deadline t}, sup'.wait = some (.grace i p abort deadline) →
      tasks.lookup p = some t → abort = some p ∨ 5 ≤ t.phase.rank) : Equipped sup' tasks := by
  refine ⟨fun {i p t} hcur ht => ?_, fun {i c p t} hc hpid ht => ?_, hgrace⟩
  · rw [SupervisorState.current, hchildren] at hcur
    replace hcur : (sup.state.setChild index new).current i = some p := hcur
    rw [SupervisorState.current_setChild hchild] at hcur
    split at hcur
    next => exact (hnew hcur ht).1
    next => exact h.handed hcur ht
  · rw [hchildren, SupervisorState.children_setChild hchild] at hc
    split at hc
    next heq =>
      cases hc
      rw [heq]
      exact (hnew hpid ht).2
    next hne =>
      rcases h.handle hc hpid ht with habort | hrank | hstop
      · exact Or.inl habort
      · exact Or.inr (Or.inl hrank)
      · exact absurd (honly i hstop) hne

theorem Equipped.received (h : Equipped sup tasks) (hwait : sup.wait = none) {msg : SupervisorMsg F}
    (hr : Received sup msg sup') : Equipped sup' tasks := by
  have hidle := not_stopping hwait
  have hgrace : ∀ {i p abort deadline t}, sup'.wait = some (.grace i p abort deadline) →
      tasks.lookup p = some t → abort = some p ∨ 5 ≤ t.phase.rank := by
    intro i p abort deadline t hw
    cases hwait.symm.trans (hr.wait.1.symm.trans hw)
  have hcleared : ∀ {index : Nat} {child : ChildState F},
      sup.state.children[index]? = some child →
      sup'.state.children = (sup.state.setChild index child.cleared).children →
      Equipped sup' tasks := fun hchild hchildren =>
    h.set hchild hchildren (fun i hi => absurd hi (hidle i)) nofun hgrace
  cases hr with
  | ignored => exact h
  | shutdown => exact ⟨h.handed, h.handle, h.grace⟩
  | cleared hchild => exact hcleared hchild rfl
  | restarts hchild _ _ hchildren | gaveUp hchild _ _ hchildren => exact hcleared hchild hchildren
  | added entries =>
    -- a new child has no process on record
    have hold : ∀ {i : Nat} {c p}, (sup.addEntries entries).state.children[i]? = some c →
        c.pid = some p → sup.state.children[i]? = some c := by
      intro i c p hc hpid
      replace hc : (sup.state.children ++ entries.map ChildState.new)[i]? = some c := hc
      rw [List.getElem?_append] at hc
      split at hc
      next => exact hc
      next =>
        rw [List.getElem?_map] at hc
        obtain ⟨entry, -, rfl⟩ := Option.map_eq_some_iff.mp hc
        cases hpid
    refine ⟨fun hcur ht => ?_, fun hc hpid ht => ?_, hgrace⟩
    · obtain ⟨c, hc, hpid⟩ := Option.bind_eq_some_iff.mp hcur
      exact h.handed (Option.bind_eq_some_iff.mpr ⟨c, hold hc hpid, hpid⟩) ht
    · exact h.handle (hold hc hpid) hpid ht

theorem Equipped.work (h : Equipped sup tasks) {stops : List Nat} (ho : Orderly sup stops starts)
    (hsent : ∀ {p t}, tasks.lookup p = some t → t.Sent) (hr : Worked sup fresh tasks now r) :
    Equipped r.1 tasks := by
  have hidle : sup.wait = none → ∀ {index i}, sup.Stopping i → i = index :=
    fun hwait _ i hi => absurd hi (not_stopping hwait i)
  -- the handle of a child that is not being stopped
  have hhandle : sup.wait = none → ∀ {index : Nat} {child : ChildState F} {p t},
      sup.state.children[index]? = some child → child.pid = some p → tasks.lookup p = some t →
      child.abort = some p ∨ 5 ≤ t.phase.rank := by
    intro hwait index child p t hchild hpid ht
    rcases h.handle hchild hpid ht with habort | hrank | hstop
    · exact Or.inl habort
    · exact Or.inr hrank
    · exact absurd hstop (not_stopping hwait index)
  -- the handles are taken as the child is being stopped
  have htaken : ∀ {index : Nat} {child : ChildState F} {sup' : SupervisorLoop F},
      sup.state.children[index]? = some child →
      sup'.state.children = (sup.state.setChild index child.taken).children →
      (∀ i, sup.Stopping i → i = index) → sup'.Stopping index →
      (∀ {i p abort deadline t}, sup'.wait = some (.grace i p abort deadline) →
        tasks.lookup p = some t → abort = some p ∨ 5 ≤ t.phase.rank) → Equipped sup' tasks := by
    intro index child sup' hchild hchildren honly hstop hgrace
    refine h.set hchild hchildren honly (fun hp ht => ⟨?_, Or.inr (Or.inr hstop)⟩) hgrace
    exact h.handed (Option.bind_eq_some_iff.mpr ⟨child, hchild, hp⟩) ht
  cases hr with
  | spawned hwait =>
    refine ⟨h.handed, fun hc hpid ht => ?_, nofun⟩
    exact (hhandle hwait hc hpid ht).imp_right Or.inl
  | @started index pid task child hwait htask hchild hhanded =>
    refine h.set hchild rfl
      (fun i hi => absurd hi (not_stopping_of_start hwait i)) (fun hp ht => ?_) nofun
    cases hp
    cases htask.symm.trans ht
    have hrank := Phase.handed_iff.mp hhanded
    refine ⟨hrank, ?_⟩
    rcases hsent htask hrank with hsent | hleft
    · exact Or.inl (if_pos hsent)
    · exact Or.inr (Or.inl hleft)
  | @killing index todo child pid hwait htodo hchild hdone =>
    refine htaken hchild rfl (fun i => hidle hwait) ⟨_, _, rfl, rfl⟩ nofun
  | @waiting index todo child pid deadline hwait htodo hchild hdone =>
    refine htaken hchild rfl (fun i => hidle hwait) ⟨_, _, rfl, rfl⟩ fun hw ht => ?_
    cases hw
    have hpid := (ho.handles hchild).resolve_right (not_stopping hwait index)
    exact hhandle hwait hchild (hpid.symm.trans hdone) ht
  | reset hwait _ hchild => exact h.set hchild rfl (fun i => hidle hwait) nofun nofun
  | stopped hwait hstops _ hchild =>
    exact h.set hchild rfl (stopping_unique hwait hstops) nofun nofun
  | overrun hwait _ hchild =>
    exact h.set hchild rfl (stopping_unique hwait rfl) nofun nofun
  | leaving => exact ⟨h.handed, h.handle, h.grace⟩
  | @received _ inbox _ hwait _ _ _ _ hreceived =>
    have h' : Equipped { sup with inbox := inbox } tasks := ⟨h.handed, h.handle, h.grace⟩
    exact h'.received hwait hreceived

/-! ## the invariant -/

structure Owned (node : Node F) : Prop where
  held : ∀ {pid task}, node.tasks.lookup pid = some task → task.phase.untold = true →
    ∃ sup, node.sups[task.supervisor]? = some sup ∧ sup.Holds task.index pid
  sent : ∀ {pid task}, node.tasks.lookup pid = some task → task.Sent
  equipped : ∀ {k : Nat} {sup}, node.sups[k]? = some sup → Equipped sup node.tasks

theorem Owned.new (nodeId : Nat) : Owned (Node.new nodeId : Node F) := ⟨nofun, nofun, nofun⟩

theorem Owned.step (h : Owned node) (hst : Staffed node) {next : Task F}
    (htask : node.tasks.lookup pid = some task)
    (hstep : task.step pid node.table choice = some (table, next, report)) :
    Owned { node with table := table, tasks := node.tasks.insert pid next } := by
  have hadv := (Task.step_advanced hstep).1
  refine ⟨fun {p t} ht huntold => ?_, fun {p t} ht => ?_, fun hs => ?_⟩
  · rcases HashMap.of_lookup_insert ht with ⟨heq, rfl⟩ | ⟨-, ht⟩
    · rw [hadv.supervisor, hadv.index, heq]
      exact h.held htask (Task.step_untold hstep huntold)
    · exact h.held ht huntold
  · rcases HashMap.of_lookup_insert ht with ⟨-, rfl⟩ | ⟨-, ht⟩
    · exact (h.sent htask).step hstep
    · exact h.sent ht
  · obtain ⟨stops, starts, ho⟩ := hst.orderly hs
    refine (h.equipped hs).mono ho fun _ ht' => ?_
    obtain ⟨t, ht, hadv⟩ := (Evolved.insert htask hadv).back ht'
    exact ⟨t, ht, hadv.rank⟩

theorem Owned.setSup (h : Owned node) {k : Nat} (hsup : node.sups[k]? = some sup)
    (hequipped : Equipped sup' node.tasks)
    (hkeep : ∀ {p t}, node.tasks.lookup p = some t → t.phase.untold = true →
      sup.Holds t.index p → sup'.Holds t.index p) :
    Owned { node with sups := node.sups.set k sup' } := by
  refine ⟨fun ht huntold => exists_sups_set hsup (h.held ht huntold) fun _ => hkeep ht huntold,
    h.sent, fun hs => ?_⟩
  rcases sups_set_cases hs with ⟨-, rfl⟩ | ⟨-, hs⟩
  · exact hequipped
  · exact h.equipped hs

theorem Owned.send (h : Owned node) (k : Nat) (msg : SupervisorMsg F) :
    Owned (node.send k msg) := by
  refine Node.send_of h fun {sup} hsup => ?_
  have hequipped := h.equipped hsup
  obtain ⟨hstate, hwait, -⟩ := sup.send_same msg
  refine h.setSup hsup ⟨?_, ?_, ?_⟩ fun _ _ => holds_send.mpr
  · rw [hstate]
    exact hequipped.handed
  · unfold SupervisorLoop.Stopping
    rw [hstate, hwait]
    exact hequipped.handle
  · rw [hwait]
    exact hequipped.grace

theorem Owned.startSupervisor (h : Owned node) (spec : SupervisorSpec)
    (entries : List (ChildEntry F)) : Owned (node.startSupervisor spec entries) := by
  refine ⟨fun ht huntold => ?_, h.sent, fun hs => ?_⟩
  · obtain ⟨s, hs, hholds⟩ := h.held ht huntold
    exact ⟨s, startSupervisor_old hs, hholds⟩
  · rcases startSupervisor_cases hs with hs | rfl
    · exact h.equipped hs
    · exact .new _ spec entries

theorem Owned.abort (h : Owned node) (hst : Staffed node) (target : Option ProcessId) :
    Owned { node with
      tasks := target.elim node.tasks fun pid => HashMap.modify node.tasks pid Task.aborted } := by
  refine ⟨fun ht huntold => ?_, fun ht => ?_, fun hs => ?_⟩
  · obtain ⟨t₀, ht₀, rfl | ⟨-, rfl⟩⟩ := lookup_aborted ht
    · exact h.held ht₀ huntold
    · rw [t₀.aborted_advanced.1.supervisor, t₀.aborted_advanced.1.index]
      exact h.held ht₀ (Task.untold_of_aborted huntold)
  · obtain ⟨t₀, ht₀, rfl | ⟨-, rfl⟩⟩ := lookup_aborted ht
    · exact h.sent ht₀
    · exact (h.sent ht₀).aborted
  · obtain ⟨stops, starts, ho⟩ := hst.orderly hs
    refine (h.equipped hs).mono ho fun _ ht' => ?_
    obtain ⟨t, ht, hadv⟩ := (Evolved.abort node.tasks target).back ht'
    exact ⟨t, ht, hadv.rank⟩

theorem Owned.hire (h : Owned node) (hsup : node.sups[task.supervisor]? = some sup)
    (hholds : sup.Holds task.index fresh) (hrank : task.phase.rank ≤ 1)
    (horderly : ∀ {k : Nat} {s}, node.sups[k]? = some s → ∃ stops starts, Orderly s stops starts)
    (hnew : ∀ {k : Nat} {s i}, node.sups[k]? = some s → s.state.current i ≠ some fresh) :
    Owned { node with table := table, tasks := node.tasks.insert fresh task } := by
  refine ⟨fun {p t} ht huntold => ?_, fun {p t} ht => ?_, fun hs => ?_⟩
  · rcases HashMap.of_lookup_insert ht with ⟨heq, rfl⟩ | ⟨-, ht⟩
    · exact ⟨sup, hsup, heq ▸ hholds⟩
    · exact h.held ht huntold
  · rcases HashMap.of_lookup_insert ht with ⟨-, rfl⟩ | ⟨-, ht⟩
    · exact fun hlate => absurd (Nat.le_trans hlate hrank) (by decide)
    · exact h.sent ht
  · obtain ⟨stops, starts, ho⟩ := horderly hs
    refine (h.equipped hs).mono ho fun {i p t'} hcur ht' => ?_
    have hne : p ≠ fresh := by
      rintro rfl
      exact hnew hs hcur
    rw [HashMap.lookup_insert_if, if_neg hne] at ht'
    exact ⟨t', ht', Nat.le_refl _⟩

theorem Owned.keeps (h : Owned node) (hst : Staffed node) {k : Nat}
    (hsup : node.sups[k]? = some sup) (hr : Worked sup fresh node.tasks now r)
    (htask : node.tasks.lookup pid = some task) (huntold : task.phase.untold = true)
    (hholds : sup.Holds i pid) :
    r.1.Holds i pid ∨ (r.2 = .abort (some pid) ∧ 2 ≤ task.phase.rank) := by
  obtain ⟨stops, starts, ho⟩ := hst.orderly hsup
  have hrank := Phase.rank_of_untold huntold
  have hsame : ∀ {t}, node.tasks.lookup pid = some t → t = task :=
    fun ht => Option.some.inj (ht.symm.trans htask)
  rcases hholds.work ho hr with hholds | ⟨hcur, hdrop⟩
  · exact Or.inl hholds
  · cases hdrop with
    | stopped ht hstopped =>
      have := Phase.stopped_iff.mp hstopped
      rw [hsame ht] at this
      omega
    | exited hinbox =>
      obtain ⟨t, ht, -, hlate⟩ := hst.exits hsup (hinbox ▸ List.mem_cons_self)
      rw [hsame ht] at hlate
      omega
    | overrun hwait ht _ _ heffect =>
      rcases (h.equipped hsup).grace hwait ht with rfl | hlate
      · exact Or.inr ⟨heffect, (h.equipped hsup).handed hcur htask⟩
      · rw [hsame ht] at hlate
        omega

theorem Owned.work (h : Owned node) (hst : Staffed node) {k : Nat} (hsup : node.sups[k]? = some sup)
    (hlife : sup.life = .looping) (hr : Worked sup (Node.spawned node.table).2 node.tasks now r) :
    Owned (node.apply k r.1 r.2) := by
  obtain ⟨stops, starts, ho⟩ := hst.orderly hsup
  obtain ⟨stops', starts', ho'⟩ := ho.work hlife hr
  have hequipped : Equipped r.1 node.tasks := (h.equipped hsup).work ho h.sent hr
  obtain ⟨sup', effect⟩ := r
  cases effect with
  | nothing =>
    refine h.setSup hsup hequipped fun ht huntold hholds => ?_
    exact (h.keeps hst hsup hr ht huntold hholds).resolve_right nofun
  | abort target =>
    refine (h.abort hst target).setSup hsup (hequipped.mono ho' fun _ ht' => ?_)
      fun {p t} ht huntold hholds => ?_
    · obtain ⟨t, ht, hadv⟩ := (Evolved.abort node.tasks target).back ht'
      exact ⟨t, ht, hadv.rank⟩
    · obtain ⟨t₀, ht₀, rfl | ⟨rfl, rfl⟩⟩ := lookup_aborted ht
      · rcases h.keeps hst hsup hr ht₀ huntold hholds with hholds | ⟨heffect, hrank⟩
        · exact hholds
        · -- the process was told, so its task is no longer the one it was
          cases heffect
          replace ht : (HashMap.modify node.tasks p Task.aborted).lookup p = some t := ht
          rw [HashMap.lookup_modify, if_pos rfl, ht₀] at ht
          have heq : t.aborted = t := Option.some.inj ht
          rw [← heq, t.aborted_untold hrank] at huntold
          cases huntold
      · have huntold₀ := Task.untold_of_aborted huntold
        rw [t₀.aborted_advanced.1.index] at hholds ⊢
        rcases h.keeps hst hsup hr ht₀ huntold₀ hholds with hholds | ⟨-, hrank⟩
        · exact hholds
        · rw [t₀.aborted_untold hrank] at huntold
          cases huntold
  | spawn index entry =>
    have hold : ∀ {j : Nat} {s i}, node.sups[j]? = some s →
        s.state.current i ≠ some (Node.spawned node.table).2 := by
      intro j s i hs hcur
      obtain ⟨t, ht, -⟩ := hst.held hs (Or.inl hcur)
      exact Nat.lt_irrefl _ (hst.fresh ht)
    have h' : Owned { node with sups := node.sups.set k sup' } := by
      refine h.setSup hsup hequipped fun ht huntold hholds => ?_
      exact (h.keeps hst hsup hr ht huntold hholds).resolve_right nofun
    cases hr with
    | spawned hwait htodo hchild =>
      have hlt := (List.getElem?_eq_some_iff.mp hsup).1
      refine h'.hire (List.getElem?_set_self hlt) (Or.inr rfl) (Task.rank_spawned _ _ _ _)
        (fun hs => ?_) fun hs hcur => ?_
      · rcases sups_set_cases hs with ⟨-, rfl⟩ | ⟨-, hs⟩
        · exact ⟨stops', starts', ho'⟩
        · exact hst.orderly hs
      · rcases sups_set_cases hs with ⟨-, rfl⟩ | ⟨-, hs⟩
        · exact hold hsup hcur
        · exact hold hs hcur

theorem Owned.stepped (h : Owned node) (hst : Staffed node) {event : Event F}
    (hs : Stepped node event next) : Owned next := by
  cases hs with
  | start spec entries => exact h.startSupervisor spec entries
  | request request => exact h.send _ _
  | work hsup hlife hr => exact h.work hst hsup hlife hr
  | @leave k now sup call hsup =>
    have hequipped := h.equipped hsup
    let sup' := { sup with life := .left (call.step node.table).2 }
    have hequipped' : Equipped sup' node.tasks :=
      ⟨hequipped.handed, hequipped.handle, hequipped.grace⟩
    have h' := h.setSup hsup hequipped' fun _ _ hholds => hholds
    exact ⟨h'.held, h'.sent, h'.equipped⟩
  | task htask hstep => exact h.step hst htask hstep
  | report htask hstep => exact (h.step hst htask hstep).send _ _

/-- **In every run, a process that was not told to stop is held by its supervisor** -/
theorem owned_of_reach {ok : Node F → Event F → Prop} (h : (machine F).Reach ok node) :
    Owned node :=
  inv_staffed h .new fun hn hst _ hs => hn.stepped hst hs

end Rebar.Supervisor

import Rebar.Supervisor.Dynamic

/-!
# The records of a dynamic supervisor

* `Recorded`      the map of the children and the map of their processes agree;
* `Filed`         in every run they do, and an exit in the inbox is one that happened;
* `Placed`        the process of a child runs its entry.
-/

namespace Rebar.Supervisor

open Process HashMap

variable {F : Type}

/-! ## the records of the loop -/

def EndedIn (tasks : HashMap ProcessId (Task F)) (pid : ProcessId) : Prop :=
  ∀ task, tasks.lookup pid = some task → task.phase.ended = true

def DynWait.On (pid : ProcessId) : DynWait F → Prop
  | .abortHandle _ _ p _ => p = pid
  | .done _ p _ => p = pid

/-- the records are consistent, and a child that runs is on record or waited for -/
structure Recorded (children : HashMap Key (DynChildState F)) (pidToId : HashMap ProcessId Key)
    (nextUid : Nat) (wait : Option (DynWait F)) (tasks : HashMap ProcessId (Task F)) : Prop where
  pids : ∀ {k c}, children.lookup k = some c → pidToId.lookup c.pid = some k
  keys : ∀ {p k}, pidToId.lookup p = some k → ∃ c, children.lookup k = some c ∧ c.pid = p
  uids : ∀ {k c}, children.lookup k = some c → k.2 < nextUid
  known : ∀ {k c}, children.lookup k = some c → ∃ task, tasks.lookup c.pid = some task
  handles : ∀ {k c}, children.lookup k = some c → c.active = true → c.doneRx = some c.pid
  starting : ∀ {k e p a}, wait = some (.abortHandle k e p a) → children.lookup k = none ∧
    k.2 < nextUid ∧ pidToId.lookup p = none ∧ ∃ task, tasks.lookup p = some task
  covered : ∀ {p task}, tasks.lookup p = some task → task.phase.ended = true ∨
    (∃ k c, children.lookup k = some c ∧ c.pid = p ∧ c.active = true) ∨ ∃ w ∈ wait, w.On p

section
variable {children : HashMap Key (DynChildState F)} {pidToId : HashMap ProcessId Key}
  {nextUid : Nat} {wait : Option (DynWait F)} {tasks : HashMap ProcessId (Task F)} {key : Key}
  {pid : ProcessId}

theorem Recorded.key_eq (h : Recorded children pidToId nextUid wait tasks) {k k' : Key}
    {c c' : DynChildState F} (hc : children.lookup k = some c) (hc' : children.lookup k' = some c')
    (hpid : c.pid = c'.pid) : k = k' := by
  have hk := h.pids hc
  rw [hpid, h.pids hc'] at hk
  exact (Option.some.inj hk).symm

theorem Recorded.deactivate (h : Recorded children pidToId nextUid none tasks)
    (hwait : ∀ {k e p a}, wait ≠ some (.abortHandle k e p a))
    (hend : ∀ {c}, children.lookup key = some c → c.active = true →
      EndedIn tasks c.pid ∨ ∃ w ∈ wait, w.On c.pid) :
    Recorded (HashMap.modify children key DynChildState.inactive) pidToId nextUid wait tasks := by
  have hold : ∀ {k c}, (HashMap.modify children key DynChildState.inactive).lookup k = some c →
      ∃ c₀, children.lookup k = some c₀ ∧ c.pid = c₀.pid ∧ (c.active = true → c = c₀) := by
    intro k c hc
    rcases of_lookup_modify hc with ⟨-, c₀, hc₀, rfl⟩ | ⟨-, hc⟩
    · exact ⟨c₀, hc₀, rfl, nofun⟩
    · exact ⟨c, hc, rfl, fun _ => rfl⟩
  refine ⟨fun hc => ?_, fun {p k} hk => ?_, fun hc => ?_, fun hc => ?_, fun hc ha => ?_,
    fun hw => absurd hw hwait, fun {p task} ht => ?_⟩
  · obtain ⟨c₀, hc₀, hpid, -⟩ := hold hc
    rw [hpid]
    exact h.pids hc₀
  · obtain ⟨c, hc, hpid⟩ := h.keys hk
    rw [lookup_modify, hc]
    by_cases hkey : k = key
    · rw [if_pos hkey]
      exact ⟨c.inactive, rfl, hpid⟩
    · rw [if_neg hkey]
      exact ⟨c, rfl, hpid⟩
  · obtain ⟨c₀, hc₀, -⟩ := hold hc
    exact h.uids hc₀
  · obtain ⟨c₀, hc₀, hpid, -⟩ := hold hc
    rw [hpid]
    exact h.known hc₀
  · obtain ⟨c₀, hc₀, -, hsame⟩ := hold hc
    cases hsame ha
    exact h.handles hc₀ ha
  · rcases h.covered ht with he | ⟨k, c, hc, rfl, ha⟩ | ⟨w, hw, -⟩
    · exact Or.inl he
    · by_cases hkey : k = key
      · subst hkey
        rcases hend hc ha with he | hw
        · exact Or.inl (he task ht)
        · exact Or.inr (Or.inr hw)
      · refine Or.inr (Or.inl ⟨k, c, ?_, rfl, ha⟩)
        rw [lookup_modify, if_neg hkey]
        exact hc
    · cases hw

theorem Recorded.forget (h : Recorded children pidToId nextUid none tasks)
    (hkey : pidToId.lookup pid = some key)
    (hend : ∀ {c}, children.lookup key = some c → c.active = true → EndedIn tasks pid) :
    Recorded (children.erase key) (pidToId.erase pid) nextUid none tasks := by
  obtain ⟨child, hchild, hpid⟩ := h.keys hkey
  have hold : ∀ {k c}, (children.erase key).lookup k = some c →
      k ≠ key ∧ children.lookup k = some c := by
    intro k c hc
    obtain ⟨hne, hc⟩ := of_lookup_erase hc
    exact ⟨hne, hc⟩
  refine ⟨fun {k c} hc => ?_, fun {p k} hk => ?_, fun hc => h.uids (hold hc).2,
    fun hc => h.known (hold hc).2, fun hc => h.handles (hold hc).2, nofun, fun {p task} ht => ?_⟩
  · obtain ⟨hne, hc⟩ := hold hc
    have hother : c.pid ≠ pid := fun heq => hne (h.key_eq hc hchild (heq.trans hpid.symm))
    rw [lookup_erase_if, if_neg hother]
    exact h.pids hc
  · obtain ⟨hne, hk⟩ := of_lookup_erase hk
    obtain ⟨c, hc, hcpid⟩ := h.keys hk
    have hk' : k ≠ key := by
      intro heq
      rw [heq, hchild] at hc
      cases hc
      exact hne (hcpid.symm.trans hpid)
    exact ⟨c, by rw [lookup_erase_if, if_neg hk']; exact hc, hcpid⟩
  · rcases h.covered ht with he | ⟨k, c, hc, rfl, ha⟩ | ⟨w, hw, -⟩
    · exact Or.inl he
    · by_cases hk : k = key
      · subst hk
        rw [hchild] at hc
        cases hc
        exact Or.inl (hend hchild ha task (hpid ▸ ht))
      · exact Or.inr (Or.inl ⟨k, c, by rw [lookup_erase_if, if_neg hk]; exact hc, rfl, ha⟩)
    · cases hw

theorem Recorded.spawn (h : Recorded children pidToId nextUid none tasks) {task : Task F}
    (hfresh : tasks.lookup pid = none) (hkey : children.lookup key = none)
    {uid : Nat} (huid : nextUid ≤ uid) (hlt : key.2 < uid) (entry : ChildEntry F) (asked : Bool) :
    Recorded children pidToId uid (some (.abortHandle key entry pid asked))
      (tasks.insert pid task) := by
  have hknown : ∀ {p t}, tasks.lookup p = some t → (tasks.insert pid task).lookup p = some t := by
    intro p t ht
    have hne : p ≠ pid := by
      rintro rfl
      rw [hfresh] at ht
      cases ht
    rw [lookup_insert_if, if_neg hne]
    exact ht
  refine ⟨h.pids, h.keys, fun hc => Nat.lt_of_lt_of_le (h.uids hc) huid, fun hc => ?_, h.handles,
    fun hw => ?_, fun {p t} ht => ?_⟩
  · obtain ⟨t, ht⟩ := h.known hc
    exact ⟨t, hknown ht⟩
  · cases hw
    refine ⟨hkey, hlt, ?_, task, AList.lookup_insert _⟩
    cases hp : pidToId.lookup pid with
    | none => rfl
    | some k =>
      obtain ⟨c, hc, hpid⟩ := h.keys hp
      obtain ⟨t, ht⟩ := h.known hc
      rw [hpid, hfresh] at ht
      cases ht
  · rcases of_lookup_insert ht with ⟨heq, -⟩ | ⟨-, ht⟩
    · exact Or.inr (Or.inr ⟨_, rfl, heq.symm⟩)
    · rcases h.covered ht with he | hc | ⟨w, hw, -⟩
      · exact Or.inl he
      · exact Or.inr (Or.inl hc)
      · cases hw

theorem Recorded.started {entry : ChildEntry F} {asked : Bool}
    (h : Recorded children pidToId nextUid (some (.abortHandle key entry pid asked)) tasks)
    (abort : Option AbortHandle) :
    Recorded (children.insert key ⟨entry, pid, true, abort, some pid⟩) (pidToId.insert pid key)
      nextUid none tasks := by
  obtain ⟨hkey, hlt, hpid, htask⟩ := h.starting rfl
  have hcases : ∀ {k c},
      (children.insert key ⟨entry, pid, true, abort, some pid⟩).lookup k = some c →
      (k = key ∧ c = ⟨entry, pid, true, abort, some pid⟩) ∨
        k ≠ key ∧ children.lookup k = some c := by
    intro k c hc
    rcases of_lookup_insert hc with ⟨heq, rfl⟩ | ⟨hne, hc⟩
    · exact Or.inl ⟨heq, rfl⟩
    · exact Or.inr ⟨hne, hc⟩
  refine ⟨fun {k c} hc => ?_, fun {p k} hk => ?_, fun {k c} hc => ?_, fun {k c} hc => ?_,
    fun {k c} hc ha => ?_, nofun, fun {p task} ht => ?_⟩
  · rcases hcases hc with ⟨rfl, rfl⟩ | ⟨-, hc⟩
    · exact AList.lookup_insert _
    · have hne : c.pid ≠ pid := by
        intro heq
        have hk := h.pids hc
        rw [heq, hpid] at hk
        cases hk
      rw [lookup_insert_if, if_neg hne]
      exact h.pids hc
  · rcases of_lookup_insert hk with ⟨heq, rfl⟩ | ⟨-, hk⟩
    · exact ⟨_, AList.lookup_insert _, heq.symm⟩
    · obtain ⟨c, hc, hcpid⟩ := h.keys hk
      have hne : k ≠ key := by
        rintro rfl
        rw [hkey] at hc
        cases hc
      exact ⟨c, by rw [lookup_insert_if, if_neg hne]; exact hc, hcpid⟩
  · rcases hcases hc with ⟨rfl, rfl⟩ | ⟨-, hc⟩
    · exact hlt
    · exact h.uids hc
  · rcases hcases hc with ⟨rfl, rfl⟩ | ⟨-, hc⟩
    · exact htask
    · exact h.known hc
  · rcases hcases hc with ⟨rfl, rfl⟩ | ⟨-, hc⟩
    · rfl
    · exact h.handles hc ha
  · rcases h.covered ht with he | ⟨k, c, hc, hcpid, ha⟩ | ⟨w, hw, hon⟩
    · exact Or.inl he
    · have hne : k ≠ key := by
        rintro rfl
        rw [hkey] at hc
        cases hc
      refine Or.inr (Or.inl ⟨k, c, ?_, hcpid, ha⟩)
      rw [lookup_insert_if, if_neg hne]
      exact hc
    · cases hw
      exact Or.inr (Or.inl ⟨key, _, AList.lookup_insert _, hon, rfl⟩)

theorem Recorded.finished {answers : List Answer}
    (h : Recorded children pidToId nextUid (some (.done key pid answers)) tasks)
    (hend : EndedIn tasks pid) : Recorded children pidToId nextUid none tasks := by
  refine ⟨h.pids, h.keys, h.uids, h.known, h.handles, nofun, fun {p task} ht => ?_⟩
  rcases h.covered ht with he | hc | ⟨w, hw, hon⟩
  · exact Or.inl he
  · exact Or.inr (Or.inl hc)
  · cases hw
    cases hon
    exact Or.inl (hend task ht)

end

/-! ## the invariant of every run -/

def DynLoop.Recorded (loop : DynLoop F) (tasks : HashMap ProcessId (Task F)) : Prop :=
  Supervisor.Recorded loop.state.children loop.state.pidToId loop.state.nextUid loop.wait tasks

structure Filed (node : DynNode F) : Prop where
  fresh : ∀ {p task}, node.tasks.lookup p = some task → p.localId < node.table.nextId
  recorded : node.loop.Recorded node.tasks
  exits : ∀ {p reason}, .childExited p reason ∈ node.loop.inbox →
    ∃ task, node.tasks.lookup p = some task ∧ task.phase.ended = true

variable {node next : DynNode F} {loop : DynLoop F} {key : Key} {now : Nanos} {order : Order Key}

theorem Filed.new (nodeId : Nat) (spec : DynamicSupervisorSpec) :
    Filed (DynNode.new nodeId spec : DynNode F) :=
  ⟨nofun, ⟨nofun, nofun, nofun, nofun, nofun, nofun, nofun⟩, nofun⟩

variable {tasks : HashMap ProcessId (Task F)} {pid : ProcessId} {msg : DynSupervisorMsg F}
  {answers : List Answer} {entry : ChildEntry F} {msgs : List (DynSupervisorMsg F)}
  {event : DynEvent F}

theorem EndedIn.evolve {tasks' : HashMap ProcessId (Task F)} (h : EndedIn tasks pid)
    (he : Evolved tasks tasks') : EndedIn tasks' pid := by
  intro t ht
  obtain ⟨t₀, ht₀, hadv⟩ := he.back ht
  exact hadv.ended (h t₀ ht₀)

theorem Filed.evolve (h : Filed node) {table : ProcessTable}
    (hid : table.nextId = node.table.nextId) (he : Evolved node.tasks tasks) :
    Filed { node with table := table, tasks := tasks } := by
  refine ⟨fun ht => ?_, ⟨h.recorded.pids, h.recorded.keys, h.recorded.uids, fun hc => ?_,
    h.recorded.handles, fun hw => ?_, fun ht => ?_⟩, fun hm => ?_⟩
  · obtain ⟨t₀, ht₀, -⟩ := he.back ht
    show _ < table.nextId
    rw [hid]
    exact h.fresh ht₀
  · obtain ⟨t₀, ht₀⟩ := h.recorded.known hc
    exact (he.forth ht₀).imp fun t ht => ht.1
  · obtain ⟨hk, hlt, hp, t₀, ht₀⟩ := h.recorded.starting hw
    exact ⟨hk, hlt, hp, (he.forth ht₀).imp fun t ht => ht.1⟩
  · obtain ⟨t₀, ht₀, hadv⟩ := he.back ht
    exact (h.recorded.covered ht₀).imp_left hadv.ended
  · obtain ⟨t₀, ht₀, hend⟩ := h.exits hm
    obtain ⟨t, ht, hadv⟩ := he.forth ht₀
    exact ⟨t, ht, hadv.ended hend⟩

theorem DynLoop.send_cases (loop : DynLoop F) (msg : DynSupervisorMsg F) :
    loop.send msg = loop ∨
      loop.life = .looping ∧ loop.send msg = { loop with inbox := loop.inbox ++ [msg] } := by
  unfold DynLoop.send
  split
  next hlife => exact Or.inr ⟨hlife, rfl⟩
  next => exact Or.inl rfl

theorem DynLoop.send_state (loop : DynLoop F) (msg : DynSupervisorMsg F) :
    (loop.send msg).state = loop.state := by
  rcases loop.send_cases msg with heq | ⟨-, heq⟩
  · rw [heq]
  · rw [heq]

theorem Filed.send (h : Filed node)
    (hm : ∀ p reason, msg = .childExited p reason →
      ∃ task, node.tasks.lookup p = some task ∧ task.phase.ended = true) :
    Filed { node with loop := node.loop.send msg } := by
  rcases node.loop.send_cases msg with heq | ⟨-, heq⟩
  · rw [heq]
    exact h
  · rw [heq]
    refine ⟨h.fresh, h.recorded, fun {p reason} hin => ?_⟩
    rcases List.mem_append.mp hin with hin | hin
    · exact h.exits hin
    · exact hm p reason (List.mem_singleton.mp hin).symm

theorem Filed.withLoop (h : Filed node) (hrec : loop.Recorded node.tasks)
    (hinbox : loop.inbox ⊆ node.loop.inbox) : Filed { node with loop := loop } :=
  ⟨h.fresh, hrec, fun hm => h.exits (hinbox hm)⟩

theorem Filed.halted (h : Filed node) (hh : Halted node loop key answers next)
    (hinbox : loop.inbox ⊆ node.loop.inbox)
    (hrec : Recorded loop.state.children loop.state.pidToId loop.state.nextUid none node.tasks) :
    Filed next := by
  have hhalt : ∀ {target wait answers},
      (∀ {k e p a}, wait ≠ some (.abortHandle k e p a)) →
      (∀ {c}, loop.state.children.lookup key = some c → c.active = true →
        EndedIn node.tasks c.pid ∨ ∃ w ∈ wait, w.On c.pid) →
      Filed (node.halt loop key target wait answers) := by
    intro target wait answers hwait hend
    have hdeact : DynLoop.Recorded { loop with
        state := loop.state.deactivate key, wait := wait, answers := answers } node.tasks :=
      hrec.deactivate hwait hend
    exact (h.withLoop hdeact hinbox).evolve rfl (Evolved.abort node.tasks target)
  cases hh with
  | idle hidle =>
    refine hhalt nofun fun {c} hc ha => ?_
    cases (hidle hc).symm.trans (hrec.handles hc ha)
  | waits hchild hdone =>
    refine hhalt nofun fun {c} hc ha => Or.inr ⟨_, rfl, ?_⟩
    cases hchild.symm.trans hc
    rw [hrec.handles hchild ha] at hdone
    exact (Option.some.inj hdone).symm

theorem Halted.state (h : Halted node loop key answers next) :
    next.loop.state = loop.state.deactivate key := by
  cases h with
  | idle | waits => rfl

theorem Halted.evolved (h : Halted node loop key answers next) : Evolved node.tasks next.tasks := by
  cases h with
  | idle | waits => exact Evolved.abort node.tasks _

theorem Halted.wait_ne (h : Halted node loop key answers next) {k : Key} {asked : Bool} :
    next.loop.wait ≠ some (.abortHandle k entry pid asked) := by
  cases h with
  | idle | waits => nofun

theorem spawned_fresh (h : Filed node) : node.tasks.lookup (Node.spawned node.table).2 = none := by
  cases ht : node.tasks.lookup (Node.spawned node.table).2 with
  | none => rfl
  | some task => exact absurd (h.fresh ht) (Nat.lt_irrefl _)

theorem Filed.hire (h : Filed node) (loop : DynLoop F) {nextUid : Nat}
    (hrec : Recorded loop.state.children loop.state.pidToId nextUid none node.tasks)
    (hkey : loop.state.children.lookup key = none) (huid : nextUid ≤ loop.state.nextUid)
    (hlt : key.2 < loop.state.nextUid) (hinbox : loop.inbox ⊆ node.loop.inbox)
    (entry : ChildEntry F) (asked : Bool) : Filed (node.hire loop key entry asked) := by
  have hfresh := spawned_fresh h
  refine ⟨fun {p task} ht => ?_, hrec.spawn hfresh hkey huid hlt entry asked, fun hm => ?_⟩
  · replace ht : (node.tasks.insert _ _).lookup p = some task := ht
    rcases of_lookup_insert ht with ⟨heq, -⟩ | ⟨-, ht⟩
    · rw [heq]
      exact Nat.lt_succ_self _
    · exact Nat.lt_succ_of_lt (h.fresh ht)
  · obtain ⟨task, ht, he⟩ := h.exits (hinbox hm)
    refine ⟨task, ?_, he⟩
    show (node.tasks.insert _ _).lookup _ = some task
    rw [lookup_insert_if, if_neg fun heq => ?_]
    · exact ht
    · rw [heq] at ht
      cases hfresh.symm.trans ht

theorem Filed.handled (h : Filed node) (hh : Handled node loop now order msg next)
    (hinbox : node.loop.inbox = msg :: loop.inbox)
    (hrec : Recorded loop.state.children loop.state.pidToId loop.state.nextUid none node.tasks)
    (hwait : loop.wait = none) : Filed next := by
  have hsub : loop.inbox ⊆ node.loop.inbox := by
    rw [hinbox]
    exact List.subset_cons_self _ _
  -- an exit in the inbox is of a task that has ended, and so is the child it is about
  have hended : ∀ {pid reason}, msg = .childExited pid reason → EndedIn node.tasks pid := by
    rintro pid reason rfl t ht
    obtain ⟨task, htask, hend⟩ := h.exits (hinbox ▸ List.mem_cons_self)
    cases htask.symm.trans ht
    exact hend
  have hchild : ∀ {pid key c}, loop.state.pidToId.lookup pid = some key →
      loop.state.children.lookup key = some c → c.pid = pid := by
    intro pid key c hkey hc
    obtain ⟨c', hc', hpid⟩ := hrec.keys hkey
    cases hc.symm.trans hc'
    exact hpid
  have hstay : ∀ {children pidToId loop'}, Recorded children pidToId loop.state.nextUid none
      node.tasks → loop'.state.children = children → loop'.state.pidToId = pidToId →
      loop'.state.nextUid = loop.state.nextUid → loop'.wait = none → loop'.inbox = loop.inbox →
      Filed { node with loop := loop' } := by
    rintro _ _ loop' hrec' rfl rfl hu hw hi
    refine h.withLoop ?_ (hi ▸ hsub)
    rw [DynLoop.Recorded, hw, hu]
    exact hrec'
  have hdeact : ∀ {pid reason key}, msg = .childExited pid reason →
      loop.state.pidToId.lookup pid = some key →
      Recorded (loop.state.deactivate key).children loop.state.pidToId loop.state.nextUid none
        node.tasks := by
    intro pid reason key hmsg hkey
    refine hrec.deactivate nofun fun hc _ => Or.inl ?_
    rw [hchild hkey hc]
    exact hended hmsg
  cases hh with
  | @starts entry =>
    let state := { loop.state with nextUid := loop.state.nextUid + 1 }
    refine h.hire { loop with state := state } hrec ?_ (Nat.le_succ _) (Nat.lt_succ_self _) hsub
      entry true
    -- the number of the new key is larger than those of the keys on record
    cases hc : loop.state.children.lookup (entry.spec.id, loop.state.nextUid) with
    | none => rfl
    | some child => exact absurd (hrec.uids hc) (Nat.lt_irrefl _)
  | terminates hkey hh => exact h.halted hh hsub hrec
  | removes hkey hidle =>
    refine hstay (hrec.forget hkey fun {c} hc ha => ?_) rfl rfl rfl rfl rfl
    cases (hidle hc).symm.trans ha
  | refuses request hanswer => exact hstay hrec rfl rfl rfl rfl rfl
  | ignores | givesUp | shutdown => exact hstay hrec rfl rfl rfl hwait rfl
  | expects hkey | rests hkey => exact hstay (hdeact rfl hkey) rfl rfl rfl hwait rfl
  | forgets hkey =>
    exact hstay (hrec.forget hkey fun _ _ => hended rfl) rfl rfl rfl hwait rfl
  | @restarts pid _ key child times hkey _ hc =>
    have hforget := hrec.forget hkey fun _ _ => hended rfl
    have hgone : (loop.state.forget key pid).children.lookup key = none := AList.lookup_erase _ _
    let state := { loop.state with restartTimes := times }.forget key pid
    exact h.hire { loop with state := state } hforget hgone (Nat.le_refl _) (hrec.uids hc) hsub
      child.toChildEntry false

theorem Filed.turned (h : Filed node) (ht : Turned node now order msgs next) : Filed next := by
  have hrec := h.recorded
  cases ht with
  | started hwait htask hhanded abort =>
    rw [DynLoop.Recorded, hwait] at hrec
    exact h.withLoop (hrec.started _) fun _ hm => hm
  | finished hwait htask hstopped =>
    rw [DynLoop.Recorded, hwait] at hrec
    refine h.withLoop (hrec.finished fun t ht => ?_) fun _ hm => hm
    cases htask.symm.trans ht
    exact Phase.ended_of_stopped hstopped
  | stopped hwait htodo hh =>
    rw [DynLoop.Recorded, hwait] at hrec
    exact h.halted hh (fun _ hm => hm) hrec
  | returned => exact h.withLoop hrec fun _ hm => hm
  | handled hwait htodo hopen hinbox hh =>
    rw [DynLoop.Recorded, hwait] at hrec
    exact h.handled hh hinbox hrec hwait

theorem Filed.step (h : Filed node) (hs : DynStepped node event msgs next) : Filed next := by
  cases hs with
  | sent request =>
    refine h.send fun p reason hm => ?_
    cases request with
    | startChild _ | terminateChild _ | removeChild _ | shutdown => cases hm
  | turned _ ht => exact h.turned ht
  | @cleaned _ _ call hlife =>
    have hid := (step_bounded node.table call).nextId
    exact ⟨fun ht => Nat.lt_of_lt_of_eq (h.fresh ht) hid.symm, h.recorded, h.exits⟩
  | task htask hstep =>
    exact h.evolve (Task.step_nextId hstep) (Evolved.insert htask (Task.step_advanced hstep).1)
  | @report pid _ _ task' _ _ htask hstep =>
    obtain ⟨hadv, hreport⟩ := Task.step_advanced hstep
    have hmid := h.evolve (Task.step_nextId hstep) (Evolved.insert htask hadv)
    refine hmid.send fun p reason hm => ?_
    cases hm
    refine ⟨task', AList.lookup_insert _, ?_⟩
    rw [(hreport _ rfl).2]
    rfl

/-! ## the incarnations of a child -/

theorem DynStepped.of_mem (h : DynStepped node event msgs next) (hm : msg ∈ msgs) :
    node.loop.wait = none ∧ msg ∈ node.loop.inbox := by
  cases h with
  | sent | task | report | cleaned => cases hm
  | turned hlife ht =>
    cases ht with
    | started | finished | stopped | returned => cases hm
    | handled hwait htodo hopen hinbox =>
      cases List.mem_singleton.mp hm
      exact ⟨hwait, hinbox ▸ List.mem_cons_self⟩

/-- the children of the first map are on record in the second, as the same incarnations -/
def DynWithin (children children' : HashMap Key (DynChildState F)) : Prop :=
  ∀ k c, children.lookup k = some c → ∃ c', children'.lookup k = some c' ∧ c.pid = c'.pid ∧
    c.toChildEntry = c'.toChildEntry

theorem DynWithin.refl (children : HashMap Key (DynChildState F)) : DynWithin children children :=
  fun _ _ hc => ⟨_, hc, rfl, rfl⟩

theorem DynWithin.deactivate (state : DynSupervisorState F) (key : Key) :
    DynWithin (state.deactivate key).children state.children := by
  intro k c hc
  replace hc : (HashMap.modify state.children key DynChildState.inactive).lookup k = some c := hc
  rcases of_lookup_modify hc with ⟨-, c', hc', rfl⟩ | ⟨-, hc⟩
  · exact ⟨c', hc', rfl, rfl⟩
  · exact ⟨c, hc, rfl, rfl⟩

theorem DynWithin.forget (state : DynSupervisorState F) (key : Key) (pid : ProcessId) :
    DynWithin (state.forget key pid).children state.children := by
  intro k c hc
  replace hc : (state.children.erase key).lookup k = some c := hc
  obtain ⟨-, hc⟩ := of_lookup_erase hc
  exact ⟨c, hc, rfl, rfl⟩

/-- what a step in which the loop handles `msgs` does to the incarnations on record -/
inductive Moved (node : DynNode F) (msgs : List (DynSupervisorMsg F)) : DynNode F → Prop where
  | kept {next : DynNode F} (he : Evolved node.tasks next.tasks)
      (hwithin : DynWithin next.loop.state.children node.loop.state.children)
      (huid : next.loop.state.nextUid = node.loop.state.nextUid)
      (hwait : ∀ {k e p a}, next.loop.wait = some (.abortHandle k e p a) →
        node.loop.wait = some (.abortHandle k e p a)) : Moved node msgs next
  | recorded {key : Key} {entry : ChildEntry F} {pid : ProcessId} {asked : Bool}
      (hwait : node.loop.wait = some (.abortHandle key entry pid asked)) (abort : AbortHandle)
      (answers : List Answer) : Moved node msgs (node.record key entry pid abort answers)
  | added {loop : DynLoop F} (entry : ChildEntry F)
      (hwithin : DynWithin loop.state.children node.loop.state.children)
      (huid : loop.state.nextUid = node.loop.state.nextUid + 1) :
      Moved node msgs (node.hire loop (entry.spec.id, node.loop.state.nextUid) entry true)
  | restarted {loop : DynLoop F} {child : DynChildState F} {key : Key} {pid : ProcessId}
      {reason : ExitReason} (hmsgs : msgs = [.childExited pid reason])
      (hkey : node.loop.state.pidToId.lookup pid = some key)
      (hmem : key ∉ node.loop.state.terminatedIds)
      (hwithin : DynWithin loop.state.children node.loop.state.children)
      (huid : loop.state.nextUid = node.loop.state.nextUid)
      (hchild : node.loop.state.children.lookup key = some child)
      (hrestart : child.spec.restart ≠ .temporary) :
      Moved node msgs (node.hire loop key child.toChildEntry false)

theorem Halted.moved (h : Halted node loop key answers next) (msgs : List (DynSupervisorMsg F))
    (hchildren : loop.state.children = node.loop.state.children)
    (huid : loop.state.nextUid = node.loop.state.nextUid) : Moved node msgs next := by
  refine .kept h.evolved ?_ ?_ fun hw => absurd hw h.wait_ne
  · rw [h.state, ← hchildren]
    exact DynWithin.deactivate loop.state key
  · rw [h.state]
    exact huid

theorem Handled.moved {inbox : List (DynSupervisorMsg F)}
    (h : Handled node { node.loop with inbox := inbox } now order msg next) :
    Moved node [msg] next := by
  have hself := DynWithin.refl node.loop.state.children
  have he := Evolved.refl node.tasks
  cases h with
  | @starts entry => exact .added entry hself rfl
  | terminates _ hh => exact hh.moved _ rfl rfl
  | @removes pid => exact .kept he (DynWithin.forget node.loop.state _ pid) rfl nofun
  | refuses => exact .kept he hself rfl nofun
  | ignores | givesUp | shutdown => exact .kept he hself rfl fun hw => hw
  | expects | rests => exact .kept he (DynWithin.deactivate node.loop.state _) rfl fun hw => hw
  | @forgets pid =>
    exact .kept he (DynWithin.forget node.loop.state _ pid) rfl fun hw => hw
  | @restarts pid _ _ _ _ hkey hmem hchild hrestart =>
    exact .restarted rfl hkey hmem (DynWithin.forget node.loop.state _ pid) rfl hchild hrestart

theorem DynStepped.moved (h : DynStepped node event msgs next) : Moved node msgs next := by
  have hself := DynWithin.refl node.loop.state.children
  have hsend : ∀ {table tasks msg}, Evolved node.tasks tasks →
      Moved node [] ⟨table, node.loop.send msg, tasks⟩ := by
    intro table tasks msg he
    rcases node.loop.send_cases msg with heq | ⟨-, heq⟩
    · rw [heq]
      exact .kept he hself rfl fun hw => hw
    · rw [heq]
      exact .kept he hself rfl fun hw => hw
  cases h with
  | sent => exact hsend (.refl _)
  | turned _ ht =>
    cases ht with
    | started hwait _ _ abort => exact .recorded hwait abort _
    | finished => exact .kept (.refl _) hself rfl nofun
    | stopped _ _ hh => exact hh.moved _ rfl rfl
    | returned => exact .kept (.refl _) hself rfl fun hw => hw
    | handled _ _ _ _ hh => exact hh.moved
  | cleaned => exact .kept (.refl _) hself rfl fun hw => hw
  | task htask hstep =>
    exact .kept (Evolved.insert htask (Task.step_advanced hstep).1) hself rfl fun hw => hw
  | report htask hstep => exact hsend (Evolved.insert htask (Task.step_advanced hstep).1)

theorem Moved.forth (h : Moved node msgs next) (hf : Filed node) {task : Task F}
    (ht : node.tasks.lookup pid = some task) :
    ∃ task', next.tasks.lookup pid = some task' ∧ task.Advanced task' := by
  have hhire : ∀ {loop key entry asked},
      (node.hire loop key entry asked).tasks.lookup pid = some task := by
    intro loop key entry asked
    have hne : pid ≠ (Node.spawned node.table).2 := by
      rintro rfl
      cases (spawned_fresh hf).symm.trans ht
    exact (lookup_insert_if _ _ _ _).trans ((if_neg hne).trans ht)
  cases h with
  | kept he => exact he.forth ht
  | recorded => exact ⟨task, ht, .refl task⟩
  | added | restarted => exact ⟨task, hhire, .refl task⟩

def Task.Under (task : Task F) (key : Key) (entry : ChildEntry F) : Prop :=
  key = (task.entry.spec.id, task.index) ∧ task.entry = entry

theorem Task.Advanced.under {task task' : Task F} (h : task.Advanced task')
    (hu : task.Under key entry) : task'.Under key entry := by
  rw [Task.Under, h.entry, h.index]
  exact hu

/-- every process belongs to a child, the one it is on record for -/
structure Placed (node : DynNode F) : Prop where
  uids : ∀ {p t}, node.tasks.lookup p = some t → t.index < node.loop.state.nextUid
  own : ∀ {k c}, node.loop.state.children.lookup k = some c →
    ∃ t, node.tasks.lookup c.pid = some t ∧ t.Under k c.toChildEntry
  waited : ∀ {k e p a}, node.loop.wait = some (.abortHandle k e p a) →
    ∃ t, node.tasks.lookup p = some t ∧ t.Under k e
  /-- the incarnations of a child are started alike, and a temporary child has one -/
  alike : ∀ {p t p' t'}, node.tasks.lookup p = some t → node.tasks.lookup p' = some t' →
    t.index = t'.index → t.entry = t'.entry ∧ (t.entry.spec.restart = .temporary → p = p')

theorem Placed.key_eq (h : Placed node) {k k' : Key} {c c' : DynChildState F}
    (hc : node.loop.state.children.lookup k = some c)
    (hc' : node.loop.state.children.lookup k' = some c') (huid : k.2 = k'.2) : k = k' := by
  obtain ⟨t, ht, rfl, -⟩ := h.own hc
  obtain ⟨t', ht', rfl, -⟩ := h.own hc'
  replace huid : t.index = t'.index := huid
  rw [(h.alike ht ht' huid).1, huid]

/-- a process is spawned for a child, a new one or one whose last incarnation is off the record -/
theorem Placed.hire (h : Placed node) (hf : Filed node) {loop : DynLoop F} {asked : Bool}
    (hwithin : DynWithin loop.state.children node.loop.state.children)
    (huid : node.loop.state.nextUid ≤ loop.state.nextUid) (hlt : key.2 < loop.state.nextUid)
    (hid : key.1 = entry.spec.id)
    (halike : ∀ {p t}, node.tasks.lookup p = some t → t.index = key.2 → t.entry = entry)
    (hsole : ∀ {p t}, node.tasks.lookup p = some t → t.index = key.2 →
      entry.spec.restart ≠ .temporary) : Placed (node.hire loop key entry asked) := by
  have hfresh := spawned_fresh hf
  have hnew : (node.tasks.insert (Node.spawned node.table).2
      (.spawned 0 key.2 entry (Node.spawned node.table).2)).lookup (Node.spawned node.table).2
      = some (.spawned 0 key.2 entry (Node.spawned node.table).2) := AList.lookup_insert _
  have hold : ∀ {p t}, node.tasks.lookup p = some t →
      (node.hire loop key entry asked).tasks.lookup p = some t := by
    intro p t ht
    have hne : p ≠ (Node.spawned node.table).2 := by
      rintro rfl
      cases hfresh.symm.trans ht
    exact (lookup_insert_if _ _ _ _).trans ((if_neg hne).trans ht)
  have hcases : ∀ {p t}, (node.hire loop key entry asked).tasks.lookup p = some t →
      (p = (Node.spawned node.table).2 ∧ t.index = key.2 ∧ t.entry = entry) ∨
        node.tasks.lookup p = some t := by
    intro p t ht
    replace ht : (node.tasks.insert _ _).lookup p = some t := ht
    rcases of_lookup_insert ht with ⟨heq, rfl⟩ | ⟨-, ht⟩
    · exact Or.inl ⟨heq, rfl, rfl⟩
    · exact Or.inr ht
  refine ⟨fun ht => ?_, fun hc => ?_, fun hw => ?_, fun ht ht' hindex => ?_⟩
  · rcases hcases ht with ⟨-, hi, -⟩ | ht
    · rw [hi]
      exact hlt
    · exact Nat.lt_of_lt_of_le (h.uids ht) huid
  · obtain ⟨c', hc', hpid, hentry⟩ := hwithin _ _ hc
    obtain ⟨t, ht, hu⟩ := h.own hc'
    rw [hpid, hentry]
    exact ⟨t, hold ht, hu⟩
  · cases hw
    refine ⟨_, hnew, ?_, rfl⟩
    show key = (entry.spec.id, key.2)
    rw [← hid]
  · rcases hcases ht with ⟨hp, hi, he⟩ | ht
    · rcases hcases ht' with ⟨hp', -, he'⟩ | ht'
      · exact ⟨he.trans he'.symm, fun _ => hp.trans hp'.symm⟩
      · have hindex' := hindex.symm.trans hi
        refine ⟨he.trans (halike ht' hindex').symm, fun htemp => ?_⟩
        rw [he] at htemp
        exact absurd htemp (hsole ht' hindex')
    · rcases hcases ht' with ⟨-, hi, he⟩ | ht'
      · have hindex' := hindex.trans hi
        refine ⟨(halike ht hindex').trans he.symm, fun htemp => ?_⟩
        rw [halike ht hindex'] at htemp
        exact absurd htemp (hsole ht hindex')
      · exact h.alike ht ht' hindex

theorem Placed.moved (h : Placed node) (hf : Filed node) (hm : Moved node msgs next) :
    Placed next := by
  cases hm with
  | kept he hwithin huid hwait =>
    refine ⟨fun ht => ?_, fun hc => ?_, fun hw => ?_, fun ht ht' hindex => ?_⟩
    · obtain ⟨t₀, ht₀, hadv⟩ := he.back ht
      rw [hadv.index, huid]
      exact h.uids ht₀
    · obtain ⟨c', hc', hpid, hentry⟩ := hwithin _ _ hc
      obtain ⟨t, ht, hu⟩ := h.own hc'
      obtain ⟨t', ht', hadv⟩ := he.forth ht
      rw [hpid, hentry]
      exact ⟨t', ht', hadv.under hu⟩
    · obtain ⟨t, ht, hu⟩ := h.waited (hwait hw)
      obtain ⟨t', ht', hadv⟩ := he.forth ht
      exact ⟨t', ht', hadv.under hu⟩
    · obtain ⟨t₀, ht₀, hadv⟩ := he.back ht
      obtain ⟨t₁, ht₁, hadv'⟩ := he.back ht'
      rw [hadv.entry, hadv'.entry]
      refine h.alike ht₀ ht₁ ?_
      rw [← hadv.index, ← hadv'.index]
      exact hindex
  | recorded hwait abort answers =>
    refine ⟨h.uids, fun {k c} hc => ?_, nofun, h.alike⟩
    replace hc : (node.loop.state.children.insert _ _).lookup k = some c := hc
    rcases of_lookup_insert hc with ⟨heq, rfl⟩ | ⟨-, hc⟩
    · rw [heq]
      exact h.waited hwait
    · exact h.own hc
  | added entry hwithin huid =>
    refine h.hire hf hwithin ?_ ?_ rfl (fun ht hindex => ?_) fun ht hindex => ?_
    · rw [huid]
      exact Nat.le_succ _
    · rw [huid]
      exact Nat.lt_succ_self _
    · exact absurd hindex (Nat.ne_of_lt (h.uids ht))
    · exact absurd hindex (Nat.ne_of_lt (h.uids ht))
  | restarted _ _ _ hwithin huid hchild hrestart =>
    obtain ⟨t₀, ht₀, rfl, hentry⟩ := h.own hchild
    refine h.hire hf hwithin ?_ ?_ ?_ (fun ht hindex => ?_) fun _ _ => hrestart
    · rw [huid]
    · rw [huid]
      exact h.uids ht₀
    · rw [← hentry]
    · rw [← hentry]
      exact (h.alike ht ht₀ hindex).1

theorem Placed.new (nodeId : Nat) (spec : DynamicSupervisorSpec) :
    Placed (DynNode.new nodeId spec : DynNode F) := ⟨nofun, nofun, nofun, nofun⟩

end Rebar.Supervisor

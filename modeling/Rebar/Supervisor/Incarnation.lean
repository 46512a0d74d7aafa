import Rebar.Supervisor.Staff

/-!
# The incarnations of children

Which process a name leads to, in every interleaving of supervisors and processes.
-/

namespace Rebar.Supervisor

open Process

variable {F : Type} {P : ChildEntry F → Prop}

/-! ## the entries of a supervisor -/

def SupervisorState.entries (state : SupervisorState F) : List (ChildEntry F) :=
  state.children.map (·.toChildEntry)

def SupervisorMsg.entries : SupervisorMsg F → List (ChildEntry F)
  | .addChild entry => [entry]
  | .addChildren entries => entries
  | _ => []

theorem map_new (entries : List (ChildEntry F)) :
    (entries.map ChildState.new).map (·.toChildEntry) = entries := by
  rw [List.map_map]
  exact List.map_id entries

theorem SupervisorState.getElem?_entries (state : SupervisorState F) (i : Nat) :
    state.entries[i]? = state.entryAt i :=
  List.getElem?_map ..

theorem SupervisorState.entries_setChild {state : SupervisorState F} {index : Nat}
    {old new : ChildState F} (hold : state.children[index]? = some old)
    (hentry : new.toChildEntry = old.toChildEntry) :
    (state.setChild index new).entries = state.entries := by
  apply List.ext_getElem?
  intro i
  rw [getElem?_entries, getElem?_entries, entryAt_set hold new hentry]

theorem SupervisorState.Decided.entries {state : SupervisorState F} {index : Nat}
    {pid : ProcessId} {reason : ExitReason} {now : Nanos}
    {decision : SupervisorState F × List Action × Bool}
    (h : state.Decided index pid reason now decision) : decision.1.entries = state.entries := by
  cases h with
  | ignored => rfl
  | cleared hchild => exact entries_setChild hchild rfl
  | @restarts child _ _ _ _ hchild _ _ _ hchildren | @gaveUp child _ _ _ hchild _ _ _ hchildren =>
    have hcleared : child.cleared.toChildEntry = child.toChildEntry := rfl
    exact (congrArg (List.map _) hchildren).trans (entries_setChild hchild hcleared)

/-- the name the cleanup of a supervisor may give: in fact none -/
def Life.claims : Life → Option (String × ProcessId)
  | .leaving call => call.claims
  | _ => none

theorem Life.left_claims (progress : Progress) : (Life.left progress).claims = progress.claims := by
  cases progress with
  | next call => rfl
  | returned value => rfl

/-- the entries a supervisor has satisfy `P`, and its cleanup claims no name -/
structure SupervisorLoop.Sound (P : ChildEntry F → Prop) (sup : SupervisorLoop F) : Prop where
  children : ∀ entry ∈ sup.state.entries, P entry
  inbox : ∀ msg ∈ sup.inbox, ∀ entry ∈ msg.entries, P entry
  life : sup.life.claims = none

/-- what a supervisor starts satisfies `P` -/
def Effect.Sound (P : ChildEntry F → Prop) : Effect F → Prop
  | .spawn _ entry => P entry
  | _ => True

namespace SupervisorLoop

variable {sup : SupervisorLoop F} {entries : List (ChildEntry F)} {msg : SupervisorMsg F}
  {fresh : ProcessId} {now : Nanos} {tasks : HashMap ProcessId (Task F)}
  {r : SupervisorLoop F × Effect F}

theorem Sound.addEntries (h : sup.Sound P) (he : ∀ entry ∈ entries, P entry) :
    (sup.addEntries entries).Sound P := by
  refine ⟨fun entry hentry => ?_, h.inbox, h.life⟩
  replace hentry : entry ∈ (sup.state.children ++ entries.map ChildState.new).map
    (·.toChildEntry) := hentry
  rw [List.map_append, map_new] at hentry
  exact (List.mem_append.mp hentry).elim (h.children entry) (he entry)

theorem Sound.receive (h : sup.Sound P) (now : Nanos) (hm : ∀ entry ∈ msg.entries, P entry) :
    (sup.receive now msg).Sound P := by
  cases msg with
  | childExited index pid reason =>
    have hentries := (sup.state.handleChildExit_decided index pid reason now).entries
    exact ⟨fun entry he => h.children entry (hentries ▸ he), h.inbox, h.life⟩
  | addChild | addChildren => exact h.addEntries hm
  | shutdown => exact ⟨h.children, h.inbox, h.life⟩

/-- **A supervisor starts only what it was given**, and keeps it as it was given. -/
theorem Sound.work (h : sup.Sound P) (hr : Worked sup fresh tasks now r) :
    r.1.Sound P ∧ r.2.Sound P := by
  have hset : ∀ {index : Nat} {old : ChildState F} (new : ChildState F),
      sup.state.children[index]? = some old → new.toChildEntry = old.toChildEntry →
      ∀ entry ∈ (sup.state.setChild index new).entries, P entry := by
    intro index old new hold hentry
    rw [SupervisorState.entries_setChild hold hentry]
    exact h.children
  cases hr with
  | spawned _ _ hchild =>
    exact ⟨⟨h.children, h.inbox, h.life⟩,
      h.children _ (List.mem_map_of_mem (List.mem_of_getElem? hchild))⟩
  | started _ _ hchild | killing _ _ hchild | waiting _ _ hchild | reset _ _ hchild
  | stopped _ _ _ hchild | overrun _ _ hchild =>
    exact ⟨⟨hset _ hchild rfl, h.inbox, h.life⟩, trivial⟩
  | leaving => exact ⟨⟨h.children, h.inbox, rfl⟩, trivial⟩
  | @received msg inbox _ _ _ _ hinbox hsup' _ =>
    have hmem : ∀ m ∈ msg :: inbox, ∀ entry ∈ m.entries, P entry := hinbox ▸ h.inbox
    have hrest : Sound P { sup with inbox := inbox } :=
      ⟨h.children, fun m hm => hmem m (List.mem_cons_of_mem _ hm), h.life⟩
    rw [hsup']
    exact ⟨hrest.receive now (hmem msg List.mem_cons_self), trivial⟩

theorem Sound.send (h : sup.Sound P) (hm : ∀ entry ∈ msg.entries, P entry) :
    (sup.send msg).Sound P := by
  obtain ⟨hstate, -, -, -, hlife, -⟩ := sup.send_same msg
  refine ⟨hstate ▸ h.children, fun m hmem => ?_, hlife ▸ h.life⟩
  rcases mem_send hmem with hold | rfl
  · exact h.inbox m hold
  · exact hm

theorem Sound.new (pid : ProcessId) (spec : SupervisorSpec) (he : ∀ entry ∈ entries, P entry) :
    (SupervisorLoop.new pid spec entries).Sound P :=
  ⟨fun entry hentry => he entry (map_new entries ▸ hentry), nofun, rfl⟩

end SupervisorLoop

/-! ## the steps of a process -/

def Phase.claims : Phase → Option (String × ProcessId)
  | .naming call => call.claims
  | .leaving call => call.claims
  | _ => none

theorem Phase.named_claims (progress : Progress) :
    (Phase.named progress).claims = progress.claims := by
  cases progress with
  | next call => rfl
  | returned value => rfl

theorem Phase.left_claims (progress : Progress) :
    (Phase.left progress).claims = progress.claims := by
  cases progress with
  | next call => rfl
  | returned value => rfl

structure Task.Bounded (task : Task F) (table : ProcessTable)
    (r : ProcessTable × Task F × Option ExitReason) : Prop where
  supervisor : r.2.1.supervisor = task.supervisor
  entry : r.2.1.entry = task.entry
  claims : ∀ {x}, r.2.1.phase.claims = some x → task.phase.claims = some x
  names : ∀ {name pid}, r.1.names.lookup name = some pid →
    table.names.lookup name = some pid ∨ task.phase.claims = some (name, pid)
  nextId : r.1.nextId = table.nextId

variable {task : Task F} {table : ProcessTable} {pid : ProcessId}

theorem Task.Bounded.moved {phase : Phase} (hphase : phase.claims = none) (sent : Bool)
    (report : Option ExitReason) :
    task.Bounded table (table, { task with phase := phase, abortSent := sent }, report) :=
  ⟨rfl, rfl, fun h => (nomatch hphase.symm.trans h), Or.inl, rfl⟩

theorem Task.Bounded.called {call : NameCall} {phase : Phase}
    (htask : task.phase.claims = call.claims)
    (hphase : phase.claims = (call.step table).2.claims) :
    task.Bounded table ((call.step table).1, { task with phase := phase }, none) := by
  have hstep := step_bounded table call
  refine ⟨rfl, rfl, fun h => ?_, fun h => ?_, hstep.nextId⟩
  · rw [htask]
    exact hstep.claims (hphase.symm.trans h)
  · rw [htask]
    exact hstep.names h

variable {r : ProcessTable × Task F × Option ExitReason} {sups : Nat}

theorem Task.step_bounded {choice : Choice} (h : task.step pid table choice = some r) :
    task.Bounded table r := by
  unfold Task.step at h
  split at h
  case h_1 call hphase =>
    cases h
    exact .called (by rw [hphase]; rfl) (Phase.named_claims _)
  case h_9 call hphase =>
    cases h
    exact .called (by rw [hphase]; rfl) (Phase.left_claims _)
  case h_10 => cases h
  -- the other steps leave the table alone
  all_goals
    cases h
    exact .moved rfl _ _

/-- an incarnation that one of `sups` supervisors has started: its entry satisfies `P`, and its own
name is the only one it may claim -/
structure Task.Sound (P : ChildEntry F → Prop) (sups : Nat) (pid : ProcessId) (task : Task F) :
    Prop where
  supervisor : task.supervisor < sups
  entry : P task.entry
  claims : ∀ {x}, task.phase.claims = some x → task.entry.registerName = some x.1 ∧ x.2 = pid

theorem Task.Sound.spawned {k : Nat} (hk : k < sups) (index : Nat) {entry : ChildEntry F}
    (he : P entry) (pid : ProcessId) : (Task.spawned k index entry pid).Sound P sups pid := by
  refine ⟨hk, he, fun {x} h => ?_⟩
  show entry.registerName = some x.1 ∧ x.2 = pid
  unfold Task.spawned at h
  cases hname : entry.registerName with
  | none =>
    rw [hname] at h
    cases h
  | some name =>
    rw [hname] at h
    cases h
    exact ⟨rfl, rfl⟩

theorem Task.Sound.step (h : task.Sound P sups pid) (hr : task.Bounded table r) :
    r.2.1.Sound P sups pid := by
  refine ⟨?_, ?_, fun hx => ?_⟩
  · rw [hr.supervisor]
    exact h.supervisor
  · rw [hr.entry]
    exact h.entry
  · rw [hr.entry]
    exact h.claims (hr.claims hx)

theorem Task.Sound.aborted (h : task.Sound P sups pid) : task.aborted.Sound P sups pid := by
  unfold Task.aborted
  split
  · exact ⟨h.supervisor, h.entry, nofun⟩
  · exact h

theorem Task.Sound.mono {sups' : Nat} (h : task.Sound P sups pid) (hle : sups ≤ sups') :
    task.Sound P sups' pid :=
  ⟨Nat.lt_of_lt_of_le h.supervisor hle, h.entry, h.claims⟩

/-! ## names lead to incarnations -/

/-- a name leads to an incarnation that was started under it -/
structure Node.Traced (P : ChildEntry F → Prop) (node : Node F) : Prop where
  names : ∀ {name pid}, node.table.names.lookup name = some pid →
    ∃ task, node.tasks.lookup pid = some task ∧ task.entry.registerName = some name
  tasks : ∀ {pid task}, node.tasks.lookup pid = some task →
    pid.localId < node.table.nextId ∧ task.Sound P node.sups.length pid
  sups : ∀ sup ∈ node.sups, sup.Sound P

namespace Node

variable {node next : Node F}

theorem Traced.new (nodeId : Nat) : (Node.new nodeId : Node F).Traced P := ⟨nofun, nofun, nofun⟩

variable {sups : List (SupervisorLoop F)} {sup : SupervisorLoop F} {table : ProcessTable}
  {tasks : HashMap ProcessId (Task F)}

/-- the tasks stay what they were started as, and the names that are given are their own -/
theorem Traced.change (h : node.Traced P)
    (hnames : ∀ {name pid}, table.names.lookup name = some pid →
      node.table.names.lookup name = some pid ∨
        ∃ task, tasks.lookup pid = some task ∧ task.entry.registerName = some name)
    (hforth : ∀ {pid task}, node.tasks.lookup pid = some task →
      ∃ task', tasks.lookup pid = some task' ∧ task'.entry = task.entry)
    (hback : ∀ {pid task}, tasks.lookup pid = some task →
      pid.localId < table.nextId ∧ task.Sound P sups.length pid)
    (hsups : ∀ sup ∈ sups, sup.Sound P) : Traced P ⟨table, sups, tasks⟩ := by
  refine ⟨fun hn => ?_, hback, hsups⟩
  rcases hnames hn with hold | hnew
  · obtain ⟨task, ht, hname⟩ := h.names hold
    obtain ⟨task', ht', heq⟩ := hforth ht
    exact ⟨task', ht', heq ▸ hname⟩
  · exact hnew

theorem Traced.withSups (h : node.Traced P)
    (hnames : ∀ {name pid}, table.names.lookup name = some pid →
      node.table.names.lookup name = some pid)
    (hid : node.table.nextId ≤ table.nextId) (hlen : node.sups.length ≤ sups.length)
    (hsups : ∀ sup ∈ sups, sup.Sound P) : Traced P { node with table := table, sups := sups } := by
  refine h.change (fun hn => .inl (hnames hn)) (fun ht => ⟨_, ht, rfl⟩) (fun ht => ?_) hsups
  obtain ⟨hlt, hsound⟩ := h.tasks ht
  exact ⟨Nat.lt_of_lt_of_le hlt hid, hsound.mono hlen⟩

theorem Traced.setSup (h : node.Traced P) (k : Nat) (hsup : sup.Sound P) :
    Traced P { node with sups := node.sups.set k sup } := by
  refine h.withSups id (Nat.le_refl _) (by rw [List.length_set]) fun other hother => ?_
  rcases List.mem_or_eq_of_mem_set hother with hold | rfl
  · exact h.sups other hold
  · exact hsup

theorem Traced.send (h : node.Traced P) (k : Nat) {msg : SupervisorMsg F}
    (hm : ∀ entry ∈ msg.entries, P entry) : (node.send k msg).Traced P := by
  exact Node.send_of h fun hsup => h.setSup k ((h.sups _ (List.mem_of_getElem? hsup)).send hm)

theorem Traced.startSupervisor (h : node.Traced P) (spec : SupervisorSpec)
    {entries : List (ChildEntry F)} (he : ∀ entry ∈ entries, P entry) :
    (node.startSupervisor spec entries).Traced P := by
  refine h.withSups id (Nat.le_succ _) ?_ fun sup hsup => ?_
  · rw [List.length_append]
    exact Nat.le_add_right _ _
  · rcases List.mem_append.mp hsup with hold | hnew
    · exact h.sups sup hold
    · rw [List.mem_singleton.mp hnew]
      exact .new _ spec he

theorem Traced.spawn (h : node.Traced P) {k index : Nat} {entry : ChildEntry F}
    (hk : k < node.sups.length) (he : P entry) :
    Traced P { node with
      table := (spawned node.table).1
      tasks := node.tasks.insert (spawned node.table).2
        (.spawned k index entry (spawned node.table).2) } := by
  refine h.change .inl (fun {pid task} ht => ⟨task, ?_, rfl⟩) (fun {pid task} ht => ?_) h.sups
  · have hne : pid ≠ (spawned node.table).2 := by
      rintro rfl
      exact Nat.lt_irrefl _ (h.tasks ht).1
    rw [HashMap.lookup_insert_if, if_neg hne]
    exact ht
  · rcases HashMap.of_lookup_insert ht with ⟨rfl, rfl⟩ | ⟨-, ht⟩
    · exact ⟨Nat.lt_succ_self _, .spawned hk index he _⟩
    · exact ⟨Nat.lt_succ_of_lt (h.tasks ht).1, (h.tasks ht).2⟩

theorem Traced.abort (h : node.Traced P) (target : Option ProcessId) :
    Traced P { node with
      tasks := target.elim node.tasks fun pid => HashMap.modify node.tasks pid Task.aborted } := by
  refine h.change .inl (fun ht => ?_) (fun ht => ?_) h.sups
  · obtain ⟨task', ht', hadv⟩ := (Evolved.abort node.tasks target).forth ht
    exact ⟨task', ht', hadv.entry⟩
  · obtain ⟨old, hold, rfl | ⟨-, rfl⟩⟩ := lookup_aborted ht
    · exact h.tasks hold
    · exact ⟨(h.tasks hold).1, (h.tasks hold).2.aborted⟩

theorem Traced.apply (h : node.Traced P) {k : Nat} (hk : k < node.sups.length) {effect : Effect F}
    (hsup : sup.Sound P) (he : effect.Sound P) : (node.apply k sup effect).Traced P := by
  have hset := h.setSup k hsup
  cases effect with
  | nothing => exact hset
  | spawn index entry => exact hset.spawn (hk.trans_eq List.length_set.symm) he
  | abort target => exact hset.abort target

theorem Traced.leave (h : node.Traced P) {k : Nat} {call : NameCall}
    (hsup : node.sups[k]? = some sup) (hlife : sup.life = .leaving call) :
    Traced P { node with
      table := (call.step node.table).1
      sups := node.sups.set k { sup with life := .left (call.step node.table).2 } } := by
  have hsound := h.sups sup (List.mem_of_getElem? hsup)
  have hcall : call.claims = none := by
    have hclaims := hsound.life
    rw [hlife] at hclaims
    exact hclaims
  have hstep := step_bounded node.table call
  have hleft : SupervisorLoop.Sound P { sup with life := .left (call.step node.table).2 } :=
    ⟨hsound.children, hsound.inbox, (Life.left_claims _).trans (hstep.claims_none hcall)⟩
  refine (h.setSup k hleft).withSups (fun hn => ?_) (Nat.le_of_eq hstep.nextId.symm) (Nat.le_refl _)
    (h.setSup k hleft).sups
  refine (hstep.names hn).resolve_right fun hclaim => ?_
  rw [hcall] at hclaim
  cases hclaim

theorem Traced.stepTask (h : node.Traced P) {pid : ProcessId} {choice : Choice}
    {task task' : Task F} {report : Option ExitReason} (htask : node.tasks.lookup pid = some task)
    (hstep : task.step pid node.table choice = some (table, task', report)) :
    Traced P { node with table := table, tasks := node.tasks.insert pid task' } := by
  obtain ⟨hlt, hsound⟩ := h.tasks htask
  have hb := Task.step_bounded hstep
  refine h.change (fun {name p} hn => ?_) (fun {p t} ht => ?_) (fun {p t} ht => ?_) h.sups
  · refine (hb.names hn).imp_right fun hclaim => ?_
    obtain ⟨hname, rfl⟩ := hsound.claims hclaim
    exact ⟨task', AList.lookup_insert _, (congrArg _ hb.entry).trans hname⟩
  · obtain ⟨t', ht', hadv⟩ := (Evolved.insert htask (Task.step_advanced hstep).1).forth ht
    exact ⟨t', ht', hadv.entry⟩
  · show _ < table.nextId ∧ _
    rw [hb.nextId]
    rcases HashMap.of_lookup_insert ht with ⟨rfl, rfl⟩ | ⟨-, ht⟩
    · exact ⟨hlt, hsound.step hb⟩
    · exact h.tasks ht

end Node

/-- the entries an event gives to a supervisor satisfy `P` -/
def Event.Gives (P : ChildEntry F → Prop) : Event F → Prop
  | .start _ entries => ∀ entry ∈ entries, P entry
  | .request _ req => ∀ entry ∈ req.msg.entries, P entry
  | _ => True

variable {node node' : Node F}

/-- **Names lead to incarnations**: a step keeps it, whatever supervisors and processes do. -/
theorem Node.Traced.next (h : node.Traced P) (event : Event F) (hg : event.Gives P)
    (hn : node.next event = some node') : node'.Traced P := by
  cases next_cases hn with
  | start spec entries => exact h.startSupervisor spec hg
  | request request => exact h.send _ hg
  | work hsup _ hr =>
    obtain ⟨hsup', heffect⟩ := (h.sups _ (List.mem_of_getElem? hsup)).work hr
    exact h.apply (List.getElem?_eq_some_iff.mp hsup).1 hsup' heffect
  | leave hsup hlife => exact h.leave hsup hlife
  | task htask hstep => exact h.stepTask htask hstep
  | report htask hstep => exact (h.stepTask htask hstep).send _ nofun

/-! ## only a start adds a supervisor -/

theorem Node.length_next {event : Event F} (hn : node.next event = some node')
    (hevent : ∀ spec entries, event ≠ .start spec entries) :
    node'.sups.length = node.sups.length := by
  cases next_cases hn with
  | start spec entries => exact absurd rfl (hevent spec entries)
  | request | report => exact List.length_modify _ _ _
  | @work _ _ _ r => cases r.2 <;> exact List.length_set
  | leave => exact List.length_set
  | task => rfl

end Rebar.Supervisor

import Rebar.Supervisor.Roster

/-!
# A terminated child is never started again

The mark of a terminated child is taken away by the first exit of its process, and a process has
one exit.  So the exit that would start the child again never comes.

* `Attended`    the invariant: a factory is called while the loop waits for the child, and a process
                reports one exit;
* `Answered`    what the answer to `terminate_child` promises.
-/

namespace Rebar.Supervisor

open Process

variable {F : Type} {node next : DynNode F} {loop : DynLoop F} {key : Key} {pid : ProcessId}
  {now : Nanos} {order : Order Key} {msgs : List (DynSupervisorMsg F)} {event : DynEvent F}

def DynNode.calls (node : DynNode F) : DynEvent F → Option Nat
  | .task pid _ =>
    (node.tasks.lookup pid).bind fun task =>
      match task.phase with
      | .calling => some task.index
      | _ => none
  | _ => none

/-! ## the exits of the processes -/

def DynSupervisorMsg.exited : DynSupervisorMsg F → Option ProcessId
  | .childExited pid _ => some pid
  | _ => none

def DynLoop.exits (loop : DynLoop F) : List ProcessId := loop.inbox.filterMap (·.exited)

theorem Handled.inbox {msg : DynSupervisorMsg F} (h : Handled node loop now order msg next) :
    next.loop.inbox = loop.inbox := by
  cases h with
  | terminates _ hh => cases hh <;> rfl
  | starts | removes | refuses | ignores | expects | forgets | restarts | givesUp | rests
  | shutdown => rfl

inductive Queued (node : DynNode F) (msgs : List (DynSupervisorMsg F)) (next : DynNode F) :
    Prop where
  | same (hmsgs : msgs = []) (hexits : next.loop.exits = node.loop.exits)
  | taken {msg : DynSupervisorMsg F} (hmsgs : msgs = [msg])
      (hinbox : node.loop.inbox = msg :: next.loop.inbox)
  | added {pid : ProcessId} {task task' : Task F} (hmsgs : msgs = [])
      (htask : node.tasks.lookup pid = some task) (hrank : task.phase.rank = 4)
      (htask' : next.tasks.lookup pid = some task') (hrank' : task'.phase.rank = 5)
      (hexits : next.loop.exits = node.loop.exits ++ [pid])

theorem DynStepped.queued (h : DynStepped node event msgs next) : Queued node msgs next := by
  cases h with
  | sent request =>
    refine .same rfl ?_
    rcases node.loop.send_cases request.msg with heq | ⟨-, heq⟩
    · rw [heq]
    · rw [heq]
      show (node.loop.inbox ++ [request.msg]).filterMap _ = _
      rw [List.filterMap_append]
      cases request with
      | startChild _ | terminateChild _ | removeChild _ | shutdown => exact List.append_nil _
  | turned _ ht =>
    cases ht with
    | started | finished | returned => exact .same rfl rfl
    | stopped _ _ hh => cases hh <;> exact .same rfl rfl
    | handled _ _ _ hinbox hh =>
      refine .taken rfl ?_
      rw [hinbox, hh.inbox]
  | cleaned | task => exact .same rfl rfl
  | @report pid _ task task' table reason htask hstep =>
    rcases node.loop.send_cases (.childExited pid reason) with heq | ⟨-, heq⟩
    · exact .same rfl (by rw [heq])
    · obtain ⟨-, hreport⟩ := Task.step_advanced hstep
      obtain ⟨hphase, hphase'⟩ := hreport reason rfl
      refine .added rfl htask (by rw [hphase]; rfl) (AList.lookup_insert _)
        (by rw [hphase']; rfl) ?_
      rw [heq]
      exact List.filterMap_append

/-! ## the invariant -/

structure Attended (node : DynNode F) : Prop extends Filed node, Placed node where
  /-- a process whose factory has not been called is waited for -/
  awaited : ∀ {p t}, node.tasks.lookup p = some t → t.phase.handed = false →
    ∃ k e a, node.loop.wait = some (.abortHandle k e p a)
  reported : ∀ {p}, p ∈ node.loop.exits →
    ∃ t, node.tasks.lookup p = some t ∧ 5 ≤ t.phase.rank
  once : node.loop.exits.Nodup

theorem Attended.new (nodeId : Nat) (spec : DynamicSupervisorSpec) :
    Attended (DynNode.new nodeId spec : DynNode F) :=
  ⟨.new nodeId spec, .new nodeId spec, nofun, nofun, .nil⟩

theorem DynStepped.waits (h : DynStepped node event msgs next) {entry : ChildEntry F}
    {asked : Bool} (hw : node.loop.wait = some (.abortHandle key entry pid asked)) :
    next.loop.wait = some (.abortHandle key entry pid asked) ∨
      ∃ task, node.tasks.lookup pid = some task ∧ task.phase.handed = true := by
  have hsend : ∀ msg, (node.loop.send msg).wait = some (.abortHandle key entry pid asked) := by
    intro msg
    rcases node.loop.send_cases msg with heq | ⟨-, heq⟩
    · rw [heq]
      exact hw
    · rw [heq]
      exact hw
  cases h with
  | sent | report => exact Or.inl (hsend _)
  | cleaned | task => exact Or.inl hw
  | turned _ ht =>
    cases ht with
    | started hwait htask hhanded =>
      cases hwait.symm.trans hw
      exact Or.inr ⟨_, htask, hhanded⟩
    | finished hwait | stopped hwait | returned hwait | handled hwait =>
      cases hwait.symm.trans hw

theorem Moved.back (h : Moved node msgs next) {task : Task F}
    (ht : next.tasks.lookup pid = some task) :
    (∃ task', node.tasks.lookup pid = some task' ∧ task'.Advanced task) ∨
      ∃ k e a, next.loop.wait = some (.abortHandle k e pid a) ∧ task.index = k.2 := by
  have hhire : ∀ {loop key entry asked},
      (node.hire loop key entry asked).tasks.lookup pid = some task →
      (∃ task', node.tasks.lookup pid = some task' ∧ task'.Advanced task) ∨
        ∃ k e a, (node.hire loop key entry asked).loop.wait = some (.abortHandle k e pid a) ∧
          task.index = k.2 := by
    intro loop key entry asked ht
    replace ht : (node.tasks.insert _ _).lookup pid = some task := ht
    rcases HashMap.of_lookup_insert ht with ⟨heq, rfl⟩ | ⟨-, ht⟩
    · rw [heq]
      exact Or.inr ⟨key, entry, asked, rfl, rfl⟩
    · exact Or.inl ⟨task, ht, .refl task⟩
  cases h with
  | kept he => exact Or.inl (he.back ht)
  | recorded => exact Or.inl ⟨task, ht, .refl task⟩
  | added => exact hhire ht
  | restarted => exact hhire ht

theorem Task.Advanced.handed {task next : Task F} (h : task.Advanced next)
    (hh : task.phase.handed = true) : next.phase.handed = true :=
  Phase.handed_iff.mpr (Nat.le_trans (Phase.handed_iff.mp hh) h.rank)

theorem Attended.step (h : Attended node) (hs : DynStepped node event msgs next) :
    Attended next := by
  have hmoved := hs.moved
  refine ⟨h.toFiled.step hs, h.toPlaced.moved h.toFiled hmoved, fun {p t} ht hnot => ?_, ?_, ?_⟩
  · rcases hmoved.back ht with ⟨t₀, ht₀, hadv⟩ | ⟨k, e, a, hw, -⟩
    · have hnot₀ : t₀.phase.handed = false := by
        refine Bool.eq_false_iff.mpr fun hh => ?_
        cases hnot.symm.trans (hadv.handed hh)
      obtain ⟨k, e, a, hw⟩ := h.awaited ht₀ hnot₀
      rcases hs.waits hw with hw' | ⟨t₁, ht₁, hh⟩
      · exact ⟨k, e, a, hw'⟩
      · cases ht₀.symm.trans ht₁
        cases hnot₀.symm.trans hh
    · exact ⟨k, e, a, hw⟩
  · have hstill : ∀ {p}, p ∈ node.loop.exits →
        ∃ t, next.tasks.lookup p = some t ∧ 5 ≤ t.phase.rank := by
      intro p hp
      obtain ⟨t, ht, hrank⟩ := h.reported hp
      obtain ⟨t', ht', hadv⟩ := hmoved.forth h.toFiled ht
      exact ⟨t', ht', Nat.le_trans hrank hadv.rank⟩
    intro p hp
    cases hs.queued with
    | same _ hexits =>
      rw [hexits] at hp
      exact hstill hp
    | taken _ hinbox =>
      refine hstill ?_
      rw [DynLoop.exits, hinbox]
      exact (List.Sublist.filterMap _ (List.sublist_cons_self _ _)).subset hp
    | added _ _ _ htask' hrank' hexits =>
      rw [hexits] at hp
      rcases List.mem_append.mp hp with hp | hp
      · exact hstill hp
      · cases List.mem_singleton.mp hp
        exact ⟨_, htask', Nat.le_of_eq hrank'.symm⟩
  · cases hs.queued with
    | same _ hexits =>
      rw [hexits]
      exact h.once
    | taken _ hinbox =>
      have honce := h.once
      rw [DynLoop.exits, hinbox] at honce
      exact honce.sublist (List.Sublist.filterMap _ (List.sublist_cons_self _ _))
    | added _ htask hrank _ _ hexits =>
      rw [hexits]
      refine List.nodup_append.mpr ⟨h.once, List.nodup_singleton _, fun p hp q hq => ?_⟩
      cases List.mem_singleton.mp hq
      rintro rfl
      obtain ⟨t, ht, hrank'⟩ := h.reported hp
      cases htask.symm.trans ht
      rw [hrank] at hrank'
      exact absurd hrank' (by decide)

/-! ## what has been terminated stays so -/

/-- the process has reported its exit, and the exit has been handled -/
def Spent (node : DynNode F) (pid : ProcessId) : Prop :=
  (∃ t, node.tasks.lookup pid = some t ∧ 5 ≤ t.phase.rank) ∧ pid ∉ node.loop.exits

theorem Spent.step (h : Spent node pid) (hn : Attended node) (hs : DynStepped node event msgs next) :
    Spent next pid := by
  obtain ⟨⟨t, ht, hrank⟩, hnot⟩ := h
  obtain ⟨t', ht', hadv⟩ := hs.moved.forth hn.toFiled ht
  refine ⟨⟨t', ht', Nat.le_trans hrank hadv.rank⟩, ?_⟩
  cases hs.queued with
  | same _ hexits =>
    rw [hexits]
    exact hnot
  | taken _ hinbox =>
    rw [DynLoop.exits, hinbox] at hnot
    exact fun hp => hnot ((List.Sublist.filterMap _ (List.sublist_cons_self _ _)).subset hp)
  | added _ htask hrank' _ _ hexits =>
    rw [hexits]
    intro hp
    rcases List.mem_append.mp hp with hp | hp
    · exact hnot hp
    · cases List.mem_singleton.mp hp
      cases htask.symm.trans ht
      rw [hrank'] at hrank
      exact absurd hrank (by decide)

variable {reason : ExitReason} {index : Nat} {answers : List Answer}

theorem Spent.of_handled (hn : Attended node) (hs : DynStepped node event msgs next)
    (hm : .childExited pid reason ∈ msgs) : Spent next pid := by
  obtain ⟨msg, rfl, hinbox⟩ : ∃ msg, msgs = [msg] ∧ node.loop.inbox = msg :: next.loop.inbox := by
    cases hs.queued with
    | same hmsgs | added hmsgs =>
      rw [hmsgs] at hm
      cases hm
    | taken hmsgs hinbox => exact ⟨_, hmsgs, hinbox⟩
  cases List.mem_singleton.mp hm
  have hexits : node.loop.exits = pid :: next.loop.exits := by
    rw [DynLoop.exits, hinbox]
    rfl
  obtain ⟨t, ht, hrank⟩ := hn.reported (hexits ▸ List.mem_cons_self)
  obtain ⟨t', ht', hadv⟩ := hs.moved.forth hn.toFiled ht
  have honce := hn.once
  rw [hexits] at honce
  exact ⟨⟨t', ht', Nat.le_trans hrank hadv.rank⟩, (List.nodup_cons.mp honce).1⟩

theorem DynStepped.marks (h : DynStepped node event msgs next)
    (hk : key ∈ node.loop.state.terminatedIds) {child : DynChildState F}
    (hc : next.loop.state.children.lookup key = some child) :
    key ∈ next.loop.state.terminatedIds ∨ ∃ pid reason, .childExited pid reason ∈ msgs ∧
      node.loop.state.pidToId.lookup pid = some key := by
  cases h with
  | sent | report =>
    rw [DynLoop.send_state]
    exact Or.inl hk
  | cleaned | task => exact Or.inl hk
  | turned _ ht =>
    cases ht with
    | started | finished | returned => exact Or.inl hk
    | stopped _ _ hh => cases hh <;> exact Or.inl hk
    | handled _ _ _ _ hh =>
      cases hh with
      | terminates _ hh => cases hh <;> exact Or.inl (Finset.mem_insert_of_mem hk)
      | @removes pid key' =>
        replace hc : (node.loop.state.children.erase key').lookup key = some child := hc
        obtain ⟨hne, hc⟩ := HashMap.of_lookup_erase hc
        exact Or.inl (Finset.mem_erase.mpr ⟨hne, hk⟩)
      | @expects pid reason key' hkey =>
        by_cases heq : key = key'
        · rw [heq]
          exact Or.inr ⟨pid, reason, List.mem_cons_self, hkey⟩
        · exact Or.inl (Finset.mem_erase.mpr ⟨heq, hk⟩)
      | starts | refuses | ignores | forgets | restarts | givesUp | rests | shutdown =>
        exact Or.inl hk

/-- every incarnation of the child has been started, none is being started, and the one on record
bears its mark or is spent -/
structure Dismissed (node : DynNode F) (pid : ProcessId) (index : Nat) : Prop where
  bound : index < node.loop.state.nextUid
  called : ∀ {p t}, node.tasks.lookup p = some t → t.index = index → t.phase.handed = true
  waiting : ∀ {k e p a}, node.loop.wait = some (.abortHandle k e p a) → k.2 ≠ index
  record : ∀ {k c}, node.loop.state.children.lookup k = some c → k.2 = index →
    c.pid = pid ∧ (k ∈ node.loop.state.terminatedIds ∨ Spent node pid)

theorem Dismissed.not_restarted (h : Dismissed node pid index) (hn : Attended node) {p : ProcessId}
    (hm : .childExited p reason ∈ node.loop.inbox)
    (hkey : node.loop.state.pidToId.lookup p = some key)
    (hmem : key ∉ node.loop.state.terminatedIds) : key.2 ≠ index := by
  intro heq
  obtain ⟨c, hc, rfl⟩ := hn.recorded.keys hkey
  obtain ⟨rfl, hmark | ⟨-, hspent⟩⟩ := h.record hc heq
  · exact hmem hmark
  · exact hspent (List.mem_filterMap.mpr ⟨_, hm, rfl⟩)

theorem Dismissed.step (h : Dismissed node pid index) (hn : Attended node)
    (hs : DynStepped node event msgs next) : Dismissed next pid index := by
  have hmoved := hs.moved
  have hbound : index < next.loop.state.nextUid := by
    cases hmoved with
    | kept _ _ huid | restarted _ _ _ _ huid => exact Nat.lt_of_lt_of_eq h.bound huid.symm
    | recorded => exact h.bound
    | added _ _ huid => exact Nat.lt_of_lt_of_eq (Nat.lt_succ_of_lt h.bound) huid.symm
  have hwaiting : ∀ {k e p a}, next.loop.wait = some (.abortHandle k e p a) → k.2 ≠ index := by
    intro k e p a hw
    cases hmoved with
    | kept _ _ _ hwait => exact h.waiting (hwait hw)
    | recorded => cases hw
    | added =>
      cases hw
      exact (Nat.ne_of_lt h.bound).symm
    | restarted hmsgs hkey hmem =>
      cases hw
      subst hmsgs
      exact h.not_restarted hn (hs.of_mem List.mem_cons_self).2 hkey hmem
  refine ⟨hbound, fun ht hindex => ?_, hwaiting, ?_⟩
  · rcases hmoved.back ht with ⟨t₀, ht₀, hadv⟩ | ⟨k, e, a, hw, hk⟩
    · exact hadv.handed (h.called ht₀ (hadv.index.symm.trans hindex))
    · exact absurd (hk.symm.trans hindex) (hwaiting hw)
  -- what is on record was on record before
  have hback : ∀ {k c}, next.loop.state.children.lookup k = some c → k.2 = index →
      ∃ c₀, node.loop.state.children.lookup k = some c₀ ∧ c.pid = c₀.pid := by
    intro k c hc hk
    cases hmoved with
    | kept _ hwithin | added _ hwithin | restarted _ _ _ hwithin =>
      obtain ⟨c₀, hc₀, hpid, -⟩ := hwithin _ _ hc
      exact ⟨c₀, hc₀, hpid⟩
    | recorded hwait =>
      replace hc : (node.loop.state.children.insert _ _).lookup k = some c := hc
      rcases HashMap.of_lookup_insert hc with ⟨heq, -⟩ | ⟨-, hc⟩
      · exact absurd (heq ▸ hk) (h.waiting hwait)
      · exact ⟨c, hc, rfl⟩
  intro k c hc hk
  obtain ⟨c₀, hc₀, hpid⟩ := hback hc hk
  obtain ⟨hpid₀, hmark | hspent⟩ := h.record hc₀ hk
  · refine ⟨hpid.trans hpid₀, (hs.marks hmark hc).imp_right ?_⟩
    rintro ⟨p, reason, hm, hkey⟩
    obtain ⟨c₁, hc₁, hpid₁⟩ := hn.recorded.keys hkey
    cases hc₀.symm.trans hc₁
    rw [← hpid₀, hpid₁]
    exact Spent.of_handled hn hs hm
  · exact ⟨hpid.trans hpid₀, Or.inr (hspent.step hn hs)⟩

/-! ## the answers -/

/-- the answers that were given, and those that the loop gives when the child has stopped -/
def DynLoop.promised (loop : DynLoop F) : List Answer :=
  match loop.wait with
  | some (.done _ _ answers) => loop.answers ++ answers
  | _ => loop.answers

theorem DynLoop.answers_subset (loop : DynLoop F) : loop.answers ⊆ loop.promised := by
  unfold promised
  split
  · exact List.subset_append_left _ _
  · exact List.Subset.refl _

theorem DynLoop.promised_send (loop : DynLoop F) (msg : DynSupervisorMsg F) :
    (loop.send msg).promised = loop.promised := by
  rcases loop.send_cases msg with heq | ⟨-, heq⟩
  · rw [heq]
  · rw [heq]
    rfl

theorem Halted.promised (h : Halted node loop key answers next) :
    next.loop.promised = loop.answers ++ answers := by
  cases h with
  | idle | waits => rfl

theorem DynStepped.promises (h : DynStepped node event msgs next)
    (hp : .terminated pid (.ok ()) ∈ next.loop.promised) :
    .terminated pid (.ok ()) ∈ node.loop.promised ∨
      node.loop.wait = none ∧ ∃ k inbox, node.loop.state.pidToId.lookup pid = some k ∧
        Halted node { node.loop with
          inbox := inbox
          state := { node.loop.state with
            terminatedIds := insert k node.loop.state.terminatedIds } }
          k [.terminated pid (.ok ())] next := by
  -- an answer of another kind is added
  have hother : ∀ {answers}, (∀ a ∈ answers, a ≠ .terminated pid (.ok ())) →
      .terminated pid (.ok ()) ∈ node.loop.answers ++ answers →
      .terminated pid (.ok ()) ∈ node.loop.promised := by
    intro answers hne hm
    rcases List.mem_append.mp hm with hm | hm
    · exact node.loop.answers_subset hm
    · exact absurd rfl (hne _ hm)
  cases h with
  | sent | report =>
    rw [DynLoop.promised_send] at hp
    exact Or.inl hp
  | cleaned | task => exact Or.inl hp
  | turned _ ht =>
    cases ht with
    | @started _ _ _ asked =>
      refine Or.inl (hother (fun a ha => ?_) hp)
      cases asked with
      | false => cases ha
      | true =>
        cases List.mem_singleton.mp ha
        nofun
    | finished hwait =>
      left
      rw [DynLoop.promised, hwait]
      exact hp
    | stopped _ _ hh =>
      rw [hh.promised] at hp
      exact Or.inl (hother (fun a ha => by cases ha) hp)
    | returned => exact Or.inl hp
    | handled hwait _ _ _ hh =>
      have hkept : node.loop.promised = node.loop.answers := by
        rw [DynLoop.promised, hwait]
      cases hh with
      | @terminates p k _ hkey hh =>
        rw [hh.promised] at hp
        rcases List.mem_append.mp hp with hm | hm
        · rw [hkept]
          exact Or.inl hm
        · cases List.mem_singleton.mp hm
          exact Or.inr ⟨hwait, k, _, hkey, hh⟩
      | removes =>
        refine Or.inl (hother (fun a ha => ?_) hp)
        cases List.mem_singleton.mp ha
        nofun
      | refuses _ hanswer =>
        refine Or.inl (hother (fun a ha => ?_) hp)
        cases List.mem_singleton.mp ha
        exact hanswer pid
      | starts | restarts =>
        rw [hkept]
        exact Or.inl hp
      | ignores | expects | forgets | givesUp | rests | shutdown => exact Or.inl hp

theorem Dismissed.of_halted (hn : Attended node) (hwait : node.loop.wait = none)
    (hkey : node.loop.state.pidToId.lookup pid = some key) {inbox : List (DynSupervisorMsg F)}
    (hh : Halted node { node.loop with
      inbox := inbox
      state := { node.loop.state with
        terminatedIds := insert key node.loop.state.terminatedIds } } key answers next) :
    Dismissed next pid key.2 := by
  obtain ⟨child, hchild, hpid⟩ := hn.recorded.keys hkey
  refine ⟨?_, fun {p t} ht _ => ?_, fun hw => absurd hw hh.wait_ne, fun {k c} hc hk => ?_⟩
  · rw [hh.state]
    exact hn.recorded.uids hchild
  · -- a loop that waits for nothing has no process whose factory has not been called
    obtain ⟨t₀, ht₀, hadv⟩ := hh.evolved.back ht
    cases hhanded : t₀.phase.handed with
    | true => exact hadv.handed hhanded
    | false =>
      obtain ⟨_, _, _, hw⟩ := hn.awaited ht₀ hhanded
      cases hwait.symm.trans hw
  · rw [hh.state] at hc ⊢
    obtain ⟨c₀, hc₀, hpid₀, -⟩ := DynWithin.deactivate _ _ _ _ hc
    cases hn.key_eq hc₀ hchild hk
    cases hc₀.symm.trans hchild
    exact ⟨hpid₀.trans hpid, Or.inl (Finset.mem_insert_self _ _)⟩

structure Answered (node : DynNode F) : Prop extends Attended node where
  dismissed : ∀ {p}, .terminated p (.ok ()) ∈ node.loop.promised →
    ∃ task, node.tasks.lookup p = some task ∧ Dismissed node p task.index

theorem Answered.step (h : Answered node) (hs : DynStepped node event msgs next) :
    Answered next := by
  refine ⟨h.toAttended.step hs, fun {p} hp => ?_⟩
  rcases hs.promises hp with hp | ⟨hwait, k, inbox, hkey, hh⟩
  · obtain ⟨t, ht, hd⟩ := h.dismissed hp
    obtain ⟨t', ht', hadv⟩ := hs.moved.forth h.toFiled ht
    refine ⟨t', ht', ?_⟩
    rw [hadv.index]
    exact hd.step h.toAttended hs
  · obtain ⟨c, hc, rfl⟩ := h.recorded.keys hkey
    obtain ⟨t, ht, rfl, -⟩ := h.own hc
    obtain ⟨t', ht', hadv⟩ := hs.moved.forth h.toFiled ht
    refine ⟨t', ht', ?_⟩
    rw [hadv.index]
    exact Dismissed.of_halted h.toAttended hwait hkey hh

theorem answered_of_reach (h : (dynMachine F).Reach Machine.Anytime node) : Answered node := by
  refine h.inv (fun node hstart => ?_) fun node event next ha _ hs => ?_
  · obtain ⟨nodeId, spec, rfl⟩ := hstart
    exact ⟨.new nodeId spec, nofun⟩
  · obtain ⟨msgs, hs⟩ := dynNext_cases hs
    exact ha.step hs

theorem Dismissed.not_called (h : Dismissed node pid index) (event : DynEvent F) :
    node.calls event ≠ some index := by
  cases event with
  | request | work => nofun
  | task p choice =>
    intro hcalls
    obtain ⟨task, ht, hcalls⟩ := Option.bind_eq_some_iff.mp hcalls
    split at hcalls
    next hphase =>
      have hhanded := h.called ht (Option.some.inj hcalls)
      rw [hphase] at hhanded
      cases hhanded
    next => cases hcalls

/-- **Once `terminate_child` has been answered, the factory of the child is never called again.** -/
theorem never_called_again (h : (dynMachine F).Reach Machine.Anytime node)
    (hok : .terminated pid (.ok ()) ∈ node.loop.answers) :
    ∃ task, node.tasks.lookup pid = some task ∧
      ∀ later, ((dynMachine F).startedAt node).Reach Machine.Anytime later →
        ∀ event, later.calls event ≠ some task.index := by
  have ha := answered_of_reach h
  obtain ⟨task, htask, hd⟩ := ha.dismissed (node.loop.answers_subset hok)
  refine ⟨task, htask, fun later hlater event => ?_⟩
  have hkept : Attended later ∧ Dismissed later pid task.index := by
    refine hlater.inv (I := fun later => Attended later ∧ Dismissed later pid task.index)
      (fun node' hstart => ?_) fun node' event next hkept _ hs => ?_
    · cases hstart
      exact ⟨ha.toAttended, hd⟩
    · obtain ⟨msgs, hs⟩ := dynNext_cases hs
      exact ⟨hkept.1.step hs, hkept.2.step hkept.1 hs⟩
  exact hkept.2.not_called event

/-- a permanent child crashes, is terminated before its exit is in the inbox, and reports it after
the request was answered -/
private def quitting : List (DynEvent Unit) :=
  DynEvent.hires ⟨.new "clerk", ()⟩ ⟨1, 2⟩ ++
    ([.task ⟨1, 2⟩ .panics, .request (.terminateChild ⟨1, 2⟩), .work 0 .stored,
      .task ⟨1, 2⟩ .proceed, .work 0 .stored, .task ⟨1, 2⟩ .proceed] : List (DynEvent Unit))

private def acknowledged : List Answer → Bool
  | [.started ⟨1, 2⟩, .terminated ⟨1, 2⟩ (.ok ())] => true
  | _ => false

private theorem mem_of_acknowledged (h : acknowledged answers = true) :
    .terminated ⟨1, 2⟩ (.ok ()) ∈ answers := by
  unfold acknowledged at h
  split at h
  · exact List.mem_cons_of_mem _ List.mem_cons_self
  · cases h

theorem never_called_again_quitting : ∃ node : DynNode Unit,
    (dynMachine Unit).Reach Machine.Anytime node ∧
    .terminated ⟨1, 2⟩ (.ok ()) ∈ node.loop.answers ∧ node.loop.exits = [⟨1, 2⟩] ∧
    ∃ task, node.tasks.lookup ⟨1, 2⟩ = some task ∧
      ∀ later, ((dynMachine Unit).startedAt node).Reach Machine.Anytime later →
        ∀ event, later.calls event ≠ some task.index := by
  have hstart : (dynMachine Unit).Reach Machine.Anytime (.new 1 .new) := .start ⟨1, .new, rfl⟩
  obtain ⟨node, h, hack, hexits⟩ := hstart.exists_run quitting
    (p := fun node => acknowledged node.loop.answers = true ∧ node.loop.exits = [⟨1, 2⟩]) (by decide)
  have hok := mem_of_acknowledged hack
  exact ⟨node, h, hok, hexits, never_called_again h hok⟩

end Rebar.Supervisor

import Mathlib.Data.List.Nodup
import Rebar.Coordinator.History

/-!
# The reply of a submit

The sender of a reply goes from the command through the dispatch to a collector, and from there to the
submitter or, in a `Failed` notice, back to the coordinator.

* `System.held`    the replies that a collector or a queued `Failed` notice owns;
* `System.units`   one entry for each attempt that is left to the owner of a reply;
* `Owned`          each reply of a submit that was taken has one owner, or was used once, and the tasks
                   routed and the attempts left are no more than the workers there were.

`submit_replied_once` has this for every run, and that the coordinator and its collectors, left alone, come
to a result.
-/

namespace Rebar.Coordinator

open Coordinator.System

/-! ## the owners -/

def queued (commands : List CoordMsg) : List ReplyTx :=
  commands.filterMap fun
    | .submit _ reply _ => some reply
    | _ => none

def Collector.holds (c : Collector) : List ReplyTx :=
  match c.stage with
  | .waiting => [c.reply]
  | .delivering _ => [c.reply]
  | .retiring => []

def TaskComplete.holds : TaskComplete → List ReplyTx
  | .failed _ _ reply _ _ => [reply]
  | _ => []

def System.held (s : System) : List ReplyTx := s.gather Collector.holds TaskComplete.holds

def Collector.units (c : Collector) : List ReplyTx :=
  match c.stage with
  | .waiting => List.replicate c.remainingAttempts c.reply
  | _ => []

variable {c : Collector} {log : List Entry}

theorem Collector.holds_of_waiting (h : c.stage = .waiting) : c.holds = [c.reply] := by
  unfold holds
  rw [h]

theorem Collector.holds_of_delivering {payload : Value} (h : c.stage = .delivering payload) :
    c.holds = [c.reply] := by
  unfold holds
  rw [h]

theorem Collector.holds_of_retiring (h : c.stage = .retiring) : c.holds = [] := by
  unfold holds
  rw [h]

theorem Collector.units_of_waiting (h : c.stage = .waiting) :
    c.units = List.replicate c.remainingAttempts c.reply := by
  unfold units
  rw [h]

def TaskComplete.units : TaskComplete → List ReplyTx
  | .failed _ _ reply _ attempts => List.replicate attempts reply
  | _ => []

def System.units (s : System) : List ReplyTx := s.gather Collector.units TaskComplete.units

def taken (log : List Entry) : List ReplyTx :=
  log.filterMap fun
    | .submitted reply _ => some reply
    | _ => none

/-- one entry for each worker there was when a submit was taken -/
def allowed (log : List Entry) : List ReplyTx :=
  log.flatMap fun
    | .submitted reply workers => List.replicate workers reply
    | _ => []

def routes (log : List Entry) : List ReplyTx :=
  log.filterMap fun
    | .routed reply _ _ => some reply
    | _ => none

def results (log : List Entry) : List ReplyTx :=
  log.filterMap fun
    | .replied reply _ => some reply
    | _ => none

section
variable (log entries : List Entry)

theorem taken_append : taken (log ++ entries) = taken log ++ taken entries := List.filterMap_append

theorem allowed_append : allowed (log ++ entries) = allowed log ++ allowed entries :=
  List.flatMap_append

theorem routes_append : routes (log ++ entries) = routes log ++ routes entries := List.filterMap_append

theorem results_append : results (log ++ entries) = results log ++ results entries :=
  List.filterMap_append

end

/-! ## the invariant -/

structure Owned (s : System) (log : List Entry) : Prop where
  fresh : (queued s.commands ++ taken log).Perm (List.range s.submits)
  owned : (s.held ++ results log).Perm (taken log)
  bounded : ∀ r, (routes log).count r + s.units.count r ≤ (allowed log).count r

structure InHand (s : System) (log : List Entry) (reply : ReplyTx) (attempts : Nat) : Prop where
  fresh : (queued s.commands ++ taken log).Perm (List.range s.submits)
  owned : (reply :: (s.held ++ results log)).Perm (taken log)
  bounded : ∀ r, (routes log).count r + s.units.count r + (List.replicate attempts reply).count r ≤
    (allowed log).count r

section
variable {s s' : System} {event : Event} {log entries : List Entry} {task : Value}
  {reply : ReplyTx} {timeout : Nanos} {attempts : Nat} {coord : CoordState}
  {dispatched : Dispatched}

theorem Owned.quiet (h : Owned s log) (hqueued : queued s'.commands = queued s.commands)
    (hsubmits : s'.submits = s.submits) (hheld : (results entries ++ s'.held).Perm s.held)
    (hunits : ∀ r, s'.units.count r ≤ s.units.count r) (htaken : taken entries = [])
    (hallowed : allowed entries = []) (hroutes : routes entries = []) : Owned s' (log ++ entries) := by
  refine ⟨?_, ?_, fun r => ?_⟩
  · rw [hqueued, hsubmits, taken_append, htaken, List.append_nil]
    exact h.fresh
  · rw [results_append, taken_append, htaken, List.append_nil]
    refine List.Perm.trans ?_ ((hheld.append_right (results log)).trans h.owned)
    rw [List.append_assoc, ← List.append_assoc]
    exact List.perm_append_comm
  · rw [routes_append, allowed_append, hroutes, hallowed, List.append_nil, List.append_nil]
    have hbounded := h.bounded r
    have hless := hunits r
    omega

theorem InHand.over (h : InHand s log reply attempts)
    (hqueued : queued s'.commands = queued s.commands) (hsubmits : s'.submits = s.submits)
    (htaken : taken entries = []) (hallowed : allowed entries = [])
    (hheld : (s'.held ++ results entries).Perm (reply :: s.held))
    (hunits : ∀ r, (routes entries).count r + s'.units.count r ≤
      s.units.count r + (List.replicate attempts reply).count r) : Owned s' (log ++ entries) := by
  refine ⟨?_, ?_, fun r => ?_⟩
  · rw [hqueued, hsubmits, taken_append, htaken, List.append_nil]
    exact h.fresh
  · rw [results_append, taken_append, htaken, List.append_nil]
    refine List.Perm.trans ?_ ((hheld.append_right (results log)).trans h.owned)
    rw [List.append_assoc]
    exact List.perm_append_comm.append_left _
  · rw [routes_append, allowed_append, hallowed, List.append_nil, List.count_append]
    have hbounded := h.bounded r
    have hless := hunits r
    omega

theorem InHand.dispatch (h : InHand s log reply attempts)
    (hd : Dispatches task reply timeout attempts s.coord coord dispatched) :
    Owned (s.dispatched coord dispatched) (log ++ dispatched.entries task reply) := by
  cases hd with
  | noWorkers =>
    have hheld : (s.dispatched coord .noWorkers).held.Perm s.held :=
      gather_dispatched s coord .noWorkers
    have hunits : (s.dispatched coord .noWorkers).units.Perm s.units :=
      gather_dispatched s coord .noWorkers
    refine h.over rfl rfl rfl rfl ((List.perm_append_singleton _ _).trans (hheld.cons _)) fun r => ?_
    rw [hunits.count_eq]
    exact (Nat.zero_add _).trans_le (Nat.le_add_right _ _)
  | @routed w replyPid remaining _ hless =>
    have hheld : (s.dispatched coord (.routed
        ⟨⟨w.id, w.pid⟩, replyPid, task, reply, timeout, remaining, .waiting⟩)).held.Perm
          (reply :: s.held) := gather_dispatched s coord _
    have hunits : (s.dispatched coord (.routed
        ⟨⟨w.id, w.pid⟩, replyPid, task, reply, timeout, remaining, .waiting⟩)).units.Perm
          (List.replicate remaining reply ++ [] ++ s.units) := gather_dispatched s coord _
    refine h.over rfl rfl rfl rfl (List.append_nil _ ▸ hheld) fun r => ?_
    show [reply].count r + _ ≤ _
    rw [hunits.count_eq, List.append_nil, List.count_append, List.count_singleton,
      List.count_replicate, List.count_replicate]
    -- the attempts that the collector has left are fewer by the route that succeeded
    split <;> omega

theorem Owned.send {msg : CoordMsg} {submits : Nat} (h : Owned s log)
    (hnumbered : msg.numbered s.submits = some submits) :
    Owned { s with commands := s.commands ++ [msg], submits := submits } (log ++ []) := by
  rw [List.append_nil]
  refine ⟨?_, h.owned, h.bounded⟩
  show (queued (s.commands ++ [msg]) ++ taken log).Perm (List.range submits)
  unfold CoordMsg.numbered at hnumbered
  split at hnumbered
  next task reply timeout =>
    split at hnumbered
    next hreply =>
      cases hnumbered
      have hqueued : queued (s.commands ++ [.submit task reply timeout]) =
          queued s.commands ++ [reply] := List.filterMap_append
      rw [hqueued, List.range_succ, hreply]
      refine List.Perm.trans ?_ (h.fresh.append_right _)
      rw [List.append_assoc, List.append_assoc]
      exact List.perm_append_comm.append_left _
    next => cases hnumbered
  next hother =>
    cases hnumbered
    have hqueued : queued (s.commands ++ [msg]) = queued s.commands ++ queued [msg] :=
      List.filterMap_append
    have hnone : queued [msg] = [] := by
      cases msg with
      | submit task reply timeout => exact absurd rfl (hother task reply timeout)
      | register | unregister | listWorkers | workerCount | shutdown => rfl
    rw [hqueued, hnone, List.append_nil]
    exact h.fresh

theorem Owned.fail {worker : Assignment} {rest : List TaskComplete} (h : Owned s log)
    (hcons : s.completions = .failed worker task reply timeout attempts :: rest) :
    InHand { s with completions := rest, place := .drain, coord := s.coord.retire worker.pid }
      (log ++ [.noticed worker]) reply attempts := by
  have hheld : s.held.Perm (reply :: { s with completions := rest }.held) :=
    gather_cons hcons
  have hunits : s.units.Perm (List.replicate attempts reply ++ { s with completions := rest }.units) :=
    gather_cons hcons
  refine ⟨?_, ?_, fun r => ?_⟩
  · rw [taken_append]
    show (queued s.commands ++ (taken log ++ [])).Perm (List.range s.submits)
    rw [List.append_nil]
    exact h.fresh
  · rw [results_append, taken_append]
    show (reply :: (_ ++ (results log ++ []))).Perm (taken log ++ [])
    rw [List.append_nil, List.append_nil]
    exact (hheld.append_right _).symm.trans h.owned
  · rw [routes_append, allowed_append]
    show (routes log ++ []).count r + { s with completions := rest }.units.count r + _ ≤
      (allowed log ++ []).count r
    rw [List.append_nil, List.append_nil]
    have hbounded := h.bounded r
    rw [hunits.count_eq, List.count_append] at hbounded
    omega

theorem Owned.take {rest : List CoordMsg} (h : Owned s log)
    (hcons : s.commands = .submit task reply timeout :: rest) :
    InHand { s with commands := rest, place := .drain }
      (log ++ [.submitted reply s.coord.workers.length]) reply s.coord.workers.length := by
  have hfresh := h.fresh
  rw [hcons] at hfresh
  refine ⟨?_, ?_, fun r => ?_⟩
  · rw [taken_append]
    show (queued rest ++ (taken log ++ [reply])).Perm (List.range s.submits)
    rw [← List.append_assoc]
    exact (List.perm_append_singleton _ _).trans hfresh
  · rw [results_append, taken_append]
    show (reply :: (s.held ++ (results log ++ []))).Perm (taken log ++ [reply])
    rw [List.append_nil]
    exact (h.owned.cons _).trans (List.perm_append_singleton _ _).symm
  · rw [routes_append, allowed_append]
    show (routes log ++ []).count r + s.units.count r + _ ≤
      (allowed log ++ (List.replicate s.coord.workers.length reply ++ [])).count r
    rw [List.append_nil, List.append_nil, List.count_append]
    have hbounded := h.bounded r
    omega

theorem Owned.collector {index : Nat} (h : Owned s log) (hc : s.collectors[index]? = some c)
    (hcommands : s'.commands = s.commands) (hsubmits : s'.submits = s.submits)
    (hheld : (results entries ++ s'.held).Perm
      (c.holds ++ { s with collectors := s.collectors.eraseIdx index }.held))
    (hunits : ∀ r, s'.units.count r ≤
      (c.units ++ { s with collectors := s.collectors.eraseIdx index }.units).count r)
    (htaken : taken entries = []) (hallowed : allowed entries = []) (hroutes : routes entries = []) :
    Owned s' (log ++ entries) := by
  refine h.quiet (congrArg queued hcommands) hsubmits ?_ (fun r => ?_) htaken hallowed hroutes
  · exact hheld.trans (gather_eraseIdx hc).symm
  · have hkept : s.units.Perm _ := gather_eraseIdx hc
    rw [hkept.count_eq]
    exact hunits r

theorem units_dropped {units dropped left : List ReplyTx} (h : units.Perm left) (r : ReplyTx) :
    units.count r ≤ (dropped ++ left).count r := by
  rw [h.count_eq, List.count_append]
  exact Nat.le_add_left _ _

theorem Owned.step (h : Owned s log) (hup : s'.place ≠ .stopped)
    (hs : s.Stepped event entries s') : Owned s' (log ++ entries) := by
  have hsame : ∀ r, s.units.count r ≤ s.units.count r := fun r => Nat.le_refl _
  cases hs with
  | sent _ hnumbered => exact h.send hnumbered
  | moved => exact h.quiet rfl rfl (List.Perm.refl _) hsame rfl rfl rfl
  | completed _ hcons | retired _ hcons =>
    have hheld : s.held.Perm _ := gather_cons hcons
    have hunits : s.units.Perm _ := gather_cons hcons
    exact h.quiet rfl rfl hheld.symm (fun r => Nat.le_of_eq (hunits.count_eq r).symm) rfl rfl rfl
  | failedOver _ hcons hd =>
    rw [List.append_cons]
    exact (h.fail hcons).dispatch hd
  | submitted _ hcons hd =>
    rw [List.append_cons]
    exact (h.take hcons).dispatch hd
  | registered _ hcons | unregistered _ hcons | counted _ hcons | listed _ hcons =>
    refine h.quiet ?_ rfl (List.Perm.refl _) hsame rfl rfl rfl
    rw [hcons]
    rfl
  | shutdown => exact absurd rfl hup
  | received hc hstage =>
    rw [notify_place] at hup
    refine h.collector hc (notify_commands _ _) (notify_submits _ _) ?_ ?_ rfl rfl rfl
    · rw [Collector.holds_of_waiting hstage]
      exact (gather_notify hup _).trans (gather_set hc _)
    · exact units_dropped ((gather_notify hup _).trans (gather_set hc _))
  | gaveUp hc hstage =>
    refine h.collector hc rfl rfl ?_ ?_ rfl rfl rfl
    · rw [Collector.holds_of_waiting hstage]
      exact (gather_set hc _).append_left _
    · exact units_dropped (gather_set hc _)
  | handedBack hc hstage =>
    rw [notify_place] at hup
    refine h.collector hc (notify_commands _ _) (notify_submits _ _) ?_ ?_ rfl rfl rfl
    · rw [Collector.holds_of_waiting hstage]
      exact gather_notify hup _
    · intro r
      rw [Collector.units_of_waiting hstage]
      exact Nat.le_of_eq ((gather_notify hup _).count_eq r)
  | delivered hc hstage =>
    refine h.collector hc rfl rfl ?_ (units_dropped (List.Perm.refl _)) rfl rfl rfl
    rw [Collector.holds_of_delivering hstage]
    exact List.Perm.refl _
  | told hc hstage =>
    rw [notify_place] at hup
    refine h.collector hc (notify_commands _ _) (notify_submits _ _) ?_ ?_ rfl rfl rfl
    · rw [Collector.holds_of_retiring hstage]
      exact gather_notify hup _
    · exact units_dropped (gather_notify hup _)

end

/-! ## the coordinator and its collectors left alone -/

/-- the coordinator and the collectors go on, and no worker answers -/
def Event.alone (table : Table) : Event → Prop
  | .advance answers => answers = table
  | .collect _ .elapsed => True
  | .finish _ => True
  | _ => False

def System.running (s : System) : Prop := s.place ≠ .stopped ∧ ∀ msg ∈ s.commands, msg ≠ .shutdown

def Settles (table : Table) (r : ReplyTx) (s : System) (log : List Entry) : Prop :=
  ∃ s' log', ((coordinatorMachine.logged System.entries).startedAt (s, log)).Reach
    (fun _ event => event.alone table) (s', log') ∧ r ∈ results log'

def Waits (r : ReplyTx) (attempts : Nat) (s : System) : Prop :=
  ∃ (index : Nat) (c : Collector), s.collectors[index]? = some c ∧ c.stage = .waiting ∧ c.reply = r ∧
    c.remainingAttempts ≤ attempts

section
variable {table : Table} {r : ReplyTx} {s s' : System} {event : Event} {log entries : List Entry}
  {attempts : Nat}

theorem Settles.now (h : r ∈ results log) : Settles table r s log := ⟨s, log, .start rfl, h⟩

theorem Settles.step (hstep : s.step event = some (s', entries)) (halone : event.alone table)
    (h : Settles table r s' (log ++ entries)) : Settles table r s log := by
  obtain ⟨s'', log'', hreach, hr⟩ := h
  refine ⟨s'', log'', Machine.Reach.trans (.step (.start rfl) halone ?_) hreach, hr⟩
  show (s.next event).map (fun t => (t, log ++ s.entries event)) = some (s', log ++ entries)
  unfold System.next System.entries
  rw [hstep]
  rfl

theorem Settles.replied (hstep : s.step event = some (s', entries)) (halone : event.alone table)
    (h : r ∈ results entries) : Settles table r s log := by
  refine .step hstep halone (.now ?_)
  rw [results_append]
  exact List.mem_append_right _ h

theorem System.dispatch_ends (s : System) (table : Table) (task : Value) (reply : ReplyTx)
    (timeout : Nanos) (attempts : Nat) :
    ∃ coord dispatched, s.dispatch table task reply timeout attempts =
        some (s.dispatched coord dispatched, dispatched.entries task reply) ∧
      Dispatches task reply timeout attempts s.coord coord dispatched := by
  obtain ⟨⟨coord, dispatched⟩, hdone⟩ := dispatchTask_ends table task reply timeout attempts s.coord
  refine ⟨coord, dispatched, ?_, dispatchTask_cases hdone⟩
  unfold System.dispatch
  rw [hdone]
  rfl

theorem Dispatches.result_or_waits {task : Value} {timeout : Nanos} {st coord : CoordState}
    {dispatched : Dispatched} (hd : Dispatches task r timeout attempts st coord dispatched)
    (s : System) : r ∈ results (dispatched.entries task r) ∨
      ∃ left < attempts, Waits r left (s.dispatched coord dispatched) := by
  cases hd with
  | noWorkers => exact Or.inl List.mem_cons_self
  | @routed w replyPid remaining _ hless =>
    exact Or.inr ⟨remaining, hless, s.collectors.length, _, List.getElem?_concat_length, rfl, rfl,
      Nat.le_refl _⟩

theorem Settles.of_poll (hrun : s.running)
    (h : ∀ s' log', s'.running → s'.completions = s.completions →
      s'.place = .drain ∨ s'.place = .pollCompletions → Settles table r s' log') :
    Settles table r s log := by
  obtain ⟨hup, hopen⟩ := hrun
  cases hplace : s.place with
  | drain => exact h s log ⟨hup, hopen⟩ rfl (Or.inl hplace)
  | pollCompletions => exact h s log ⟨hup, hopen⟩ rfl (Or.inr hplace)
  | stopped => exact absurd hplace hup
  | pollCommands =>
    cases hcommands : s.commands with
    | nil =>
      have hstep : s.step (.advance table) = some ({ s with place := .pollCompletions }, []) := by
        simp only [System.step, System.advance, hplace, hcommands]
      exact .step hstep rfl (h _ _ ⟨nofun, hopen⟩ rfl (Or.inr rfl))
    | cons msg rest =>
      have hrest : ∀ msg ∈ rest, msg ≠ .shutdown := by
        intro msg' hmem
        rw [hcommands] at hopen
        exact hopen msg' (List.mem_cons_of_mem _ hmem)
      have hhandles : s.step (.advance table) =
          { s with commands := rest, place := .drain }.handleCommand table msg := by
        simp only [System.step, System.advance, hplace, hcommands]
      cases msg with
      | shutdown => exact absurd rfl (hopen .shutdown (hcommands ▸ List.mem_cons_self))
      | register | unregister | workerCount | listWorkers =>
        exact .step hhandles rfl (h _ _ ⟨nofun, hrest⟩ rfl (Or.inl rfl))
      | submit task reply timeout =>
        obtain ⟨coord, dispatched, hdone, -⟩ := dispatch_ends
          { s with commands := rest, place := .drain } table task reply timeout
          s.coord.workers.length
        unfold System.handleCommand at hhandles
        dsimp only at hhandles
        rw [hdone] at hhandles
        exact .step hhandles rfl (h _ _ ⟨nofun, hrest⟩ rfl (Or.inl rfl))

theorem System.step_notice (table : Table) {tc : TaskComplete} {rest : List TaskComplete}
    (hplace : s.place = .drain ∨ s.place = .pollCompletions) (hcons : s.completions = tc :: rest) :
    s.step (.advance table) = s.takeCompletion table tc rest := by
  rcases hplace with hplace | hplace
  · simp only [step, advance, hplace, hcons]
  · simp only [step, advance, hplace, hcons]

theorem System.takeCompletion_ends (s : System) (table : Table) (tc : TaskComplete)
    (rest : List TaskComplete) :
    ∃ s' entries, s.takeCompletion table tc rest = some (s', entries) ∧
      s'.completions = rest ∧ s'.commands = s.commands ∧ s'.place = .drain := by
  cases tc with
  | ok | retire => exact ⟨_, _, rfl, rfl, rfl, rfl⟩
  | failed worker task reply timeout attempts =>
    obtain ⟨coord, dispatched, hdone, -⟩ := dispatch_ends
      { s with completions := rest, place := .drain, coord := s.coord.retire worker.pid }
      table task reply timeout attempts
    unfold takeCompletion handleComplete
    dsimp only
    rw [hdone]
    exact ⟨_, _, rfl, rfl, rfl, rfl⟩

/-- a `Failed` notice comes to the front of the queue, and the task is dispatched again -/
theorem Settles.of_failed {worker : Assignment} {task : Value} {timeout : Nanos}
    {before after : List TaskComplete}
    (hwaits : ∀ left < attempts, ∀ s log, s.running → Waits r left s → Settles table r s log)
    (hrun : s.running)
    (hsplit : s.completions = before ++ .failed worker task r timeout attempts :: after) :
    Settles table r s log := by
  induction before generalizing s log with
  | nil =>
    refine .of_poll hrun fun s log hrun hsame hplace => ?_
    have hstep := step_notice table hplace (hsame.trans hsplit)
    obtain ⟨coord, dispatched, hdone, hd⟩ := dispatch_ends
      { s with completions := after, place := .drain, coord := s.coord.retire worker.pid }
      table task r timeout attempts
    unfold System.takeCompletion System.handleComplete at hstep
    dsimp only at hstep
    rw [hdone] at hstep
    rcases hd.result_or_waits { s with completions := after, place := .drain } with
      hresult | ⟨left, hless, hleft⟩
    · exact .replied hstep rfl hresult
    · exact .step hstep rfl (hwaits left hless _ _ ⟨nofun, hrun.2⟩ hleft)
  | cons tc before ih =>
    refine .of_poll hrun fun s log hrun hsame hplace => ?_
    obtain ⟨s', entries, hdone, hcompletions, hcommands, hdrain⟩ :=
      s.takeCompletion_ends table tc (before ++ .failed worker task r timeout attempts :: after)
    have hstep := (step_notice table hplace (hsame.trans hsplit)).trans hdone
    refine .step hstep rfl (ih ⟨?_, ?_⟩ hcompletions)
    · rw [hdrain]
      nofun
    · rw [hcommands]
      exact hrun.2

theorem Settles.of_waits (hrun : s.running) (hwaits : Waits r attempts s) :
    Settles table r s log := by
  induction attempts using Nat.strongRecOn generalizing s log with
  | ind attempts ih =>
    obtain ⟨index, c, hc, hstage, rfl, hle⟩ := hwaits
    have hstep : s.step (.collect index .elapsed) = some (s.collect index c .elapsed) := by
      simp only [System.step, hc, hstage]
    unfold System.collect at hstep
    dsimp only at hstep
    split at hstep
    next => exact .replied hstep trivial List.mem_cons_self
    next hmore =>
      have hsplit : ({ s with collectors := s.collectors.eraseIdx index }.notify
          (.failed c.worker c.task c.reply c.timeout c.remainingAttempts)).completions =
          s.completions ++ .failed c.worker c.task c.reply c.timeout c.remainingAttempts :: [] := by
        unfold System.notify
        rw [if_neg hrun.1]
      refine .step hstep trivial (.of_failed (fun left hless s log => ?_) ⟨?_, ?_⟩ hsplit)
      · exact fun hrun hwaits => ih left (by omega) hrun hwaits
      · rw [notify_place]
        exact hrun.1
      · rw [notify_commands]
        exact hrun.2

theorem Settles.of_held (hrun : s.running) (h : r ∈ s.held) : Settles table r s log := by
  rcases List.mem_append.mp h with h | h
  · obtain ⟨c, hmem, hholds⟩ := List.mem_flatMap.mp h
    obtain ⟨index, hc⟩ := List.mem_iff_getElem?.mp hmem
    cases hstage : c.stage with
    | waiting =>
      rw [Collector.holds_of_waiting hstage] at hholds
      exact .of_waits hrun ⟨index, c, hc, hstage, (List.mem_singleton.mp hholds).symm, Nat.le_refl _⟩
    | delivering payload =>
      rw [Collector.holds_of_delivering hstage] at hholds
      have hstep : s.step (.finish index) = some ({ s with
          collectors := s.collectors.eraseIdx index }, [.replied c.reply (.ok payload)]) := by
        simp only [System.step, System.finish, hc, hstage]
      exact .replied hstep trivial hholds
    | retiring =>
      rw [Collector.holds_of_retiring hstage] at hholds
      cases hholds
  · obtain ⟨tc, hmem, hholds⟩ := List.mem_flatMap.mp h
    cases tc with
    | ok | retire => cases hholds
    | failed worker task reply timeout attempts =>
      cases List.mem_singleton.mp hholds
      obtain ⟨before, after, hsplit⟩ := List.append_of_mem hmem
      exact .of_failed (fun left _ s log hrun hwaits => .of_waits hrun hwaits) hrun hsplit

end

/-! ## every run -/

theorem mem_taken_of_mem_allowed {r : ReplyTx} (h : r ∈ allowed log) : r ∈ taken log := by
  obtain ⟨x, hx, hr⟩ := List.mem_flatMap.mp h
  refine List.mem_filterMap.mpr ⟨x, hx, ?_⟩
  cases x with
  | submitted reply workers => rw [(List.mem_replicate.mp hr).2]
  | routed | noticed | replied | answered => cases hr

theorem count_allowed {r : ReplyTx} {n : Nat} (hnodup : (taken log).Nodup)
    (h : Entry.submitted r n ∈ log) : (allowed log).count r = n := by
  obtain ⟨before, after, rfl⟩ := List.append_of_mem h
  rw [taken_append] at hnodup
  obtain ⟨-, hafter, hdisjoint⟩ := List.nodup_append.mp hnodup
  have hbefore : (allowed before).count r = 0 := by
    refine List.count_eq_zero.mpr fun hmem => ?_
    exact hdisjoint r (mem_taken_of_mem_allowed hmem) r List.mem_cons_self rfl
  have hlater : (allowed after).count r = 0 := by
    refine List.count_eq_zero.mpr fun hmem => ?_
    exact (List.nodup_cons.mp hafter).1 (mem_taken_of_mem_allowed hmem)
  rw [allowed_append]
  show (allowed before ++ (List.replicate n r ++ allowed after)).count r = n
  rw [List.count_append, List.count_append, List.count_replicate_self, hbefore, hlater]
  omega

theorem Owned.reach {s : System}
    (h : (coordinatorMachine.logged System.entries).Reach Machine.Anytime (s, log))
    (hup : s.place ≠ .stopped) : Owned s log := by
  refine h.inv_logged (I := fun s log => s.place ≠ .stopped → Owned s log) ?_ ?_ hup
  · rintro s ⟨maxWorkers, rfl⟩ -
    exact ⟨List.Perm.refl _, List.Perm.refl _, fun r => Nat.le_refl _⟩
  · intro s log event s' h hnext hup
    have hs := next_cases hnext
    exact (h fun hstop => hup (hs.stopped hstop)).step hup hs

/-- the search for a live worker and the dispatch end; and as long as the coordinator is not shut down,
the reply of every submit is owned by the queued command, one collector or one `Failed` notice, or was
used for one result; a submit that was taken is owned by the command no more, its task is routed to at most
as many workers as there were, and it comes to a result even if no worker answers -/
theorem submit_replied_once :
    (∀ (table : Table) (st : CoordState),
      ∃ found, st.pickLiveWorker table (st.workers.length + 1) = some found) ∧
    (∀ (table : Table) (task : Value) (reply : ReplyTx) (timeout : Nanos) (attempts : Nat)
      (st : CoordState), ∃ done, dispatchTask table task reply timeout attempts st = some done) ∧
    ∀ (s : System) (log : List Entry),
      (coordinatorMachine.logged System.entries).Reach Machine.Anytime (s, log) →
      s.place ≠ .stopped →
      (∀ r < s.submits, (queued s.commands).count r + (s.collectors.flatMap Collector.holds).count r +
        (s.completions.flatMap TaskComplete.holds).count r + (results log).count r = 1) ∧
      ∀ r n, Entry.submitted r n ∈ log →
        r < s.submits ∧ (queued s.commands).count r = 0 ∧ (routes log).count r ≤ n ∧
        ((∀ msg ∈ s.commands, msg ≠ .shutdown) → ∀ table, Settles table r s log) := by
  refine ⟨fun table st => st.pickLiveWorker_ends table (Nat.lt_succ_self _),
    fun table task reply timeout attempts st => dispatchTask_ends table task reply timeout attempts st,
    fun s log h hup => ?_⟩
  have howned := Owned.reach h hup
  have hone : ∀ r < s.submits, (queued s.commands).count r + (taken log).count r = 1 := by
    intro r hless
    rw [← List.count_append, howned.fresh.count_eq]
    exact List.count_eq_one_of_mem List.nodup_range (List.mem_range.mpr hless)
  have hheld : ∀ r, (s.collectors.flatMap Collector.holds).count r +
      (s.completions.flatMap TaskComplete.holds).count r + (results log).count r =
      (taken log).count r := by
    intro r
    rw [← howned.owned.count_eq, List.count_append, ← List.count_append]
    rfl
  refine ⟨fun r hless => ?_, fun r n hmem => ?_⟩
  · have hone := hone r hless
    have hheld := hheld r
    omega
  · have htaken : r ∈ taken log := List.mem_filterMap.mpr ⟨_, hmem, rfl⟩
    have hless : r < s.submits :=
      List.mem_range.mp (howned.fresh.mem_iff.mp (List.mem_append_right _ htaken))
    have hcount := List.count_pos_iff.mpr htaken
    have hone := hone r hless
    have hnodup : (taken log).Nodup :=
      (List.nodup_append.mp (howned.fresh.nodup_iff.mpr List.nodup_range)).2.1
    have hbounded := howned.bounded r
    rw [count_allowed hnodup hmem] at hbounded
    refine ⟨hless, by omega, by omega, fun hopen table => ?_⟩
    rcases List.mem_append.mp (howned.owned.mem_iff.mpr htaken) with hmem | hmem
    · exact .of_held ⟨hup, hopen⟩ hmem
    · exact .now hmem

/-- a task for the first of two workers, which dies, and then for the second -/
private def faltering : List Event :=
  [.send (.register ⟨1, 1⟩ .nil 0)] ++ commandTurn ++ [.send (.register ⟨1, 2⟩ .nil 1)] ++ commandTurn ++
    [.send (.submit .nil 0 5)] ++ commandTurn ++ [.collect 0 .closed, .advance .clear]

private def tookFirst : Entry → Bool
  | .submitted 0 2 => true
  | _ => false

theorem submit_replied_once_faltering :
    ∃ (s : System) (log : List Entry),
      (coordinatorMachine.logged System.entries).Reach Machine.Anytime (s, log) ∧
      s.place ≠ .stopped ∧ Entry.submitted 0 2 ∈ log ∧ (routes log).count 0 = 2 ∧
      (s.collectors.flatMap Collector.holds).count 0 = 1 ∧ (results log).count 0 = 0 ∧
      Settles .clear 0 s log := by
  have hstart : (coordinatorMachine.logged System.entries).Reach Machine.Anytime (.new 0, []) :=
    .start ⟨⟨0, rfl⟩, rfl⟩
  obtain ⟨⟨s, log⟩, h, ⟨x, hx, htook⟩, hup, hcommands, hcompletions, hroutes, hresults⟩ :=
    hstart.exists_run faltering (p := fun s => (∃ x ∈ s.2, tookFirst x = true) ∧ s.1.place ≠ .stopped ∧
      s.1.commands = [] ∧ s.1.completions = [] ∧ (routes s.2).count 0 = 2 ∧ (results s.2).count 0 = 0) (by decide)
  have hmem : Entry.submitted 0 2 ∈ log := by
    unfold tookFirst at htook
    split at htook
    · exact hx
    · cases htook
  dsimp only at hcommands hcompletions hresults
  obtain ⟨howner, htaken⟩ := submit_replied_once.2.2 s log h hup
  obtain ⟨hless, -, -, hsettles⟩ := htaken 0 2 hmem
  have hholder := howner 0 hless
  rw [hcommands, hcompletions, hresults] at hholder
  refine ⟨s, log, h, hup, hmem, hroutes, ?_, hresults, hsettles ?_ .clear⟩
  · simpa [queued] using hholder
  · rw [hcommands]
    nofun

end Rebar.Coordinator

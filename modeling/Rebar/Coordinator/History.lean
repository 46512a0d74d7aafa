import Rebar.Coordinator.Engine

/-!
# What a step of the coordinator can do

* `CoordState.Pruned`      some of the workers are gone;
* `pickLiveWorker_ends`, `dispatchTask_ends`   the loop and the recursion end;
* `System.gather`          what the collectors and the queued notices have, all together.
-/

namespace Rebar.Coordinator

/-! ## a dispatch -/

structure CoordState.Pruned (st st' : CoordState) : Prop where
  workers : st'.workers.Sublist st.workers
  nextId : st'.nextId = st.nextId

namespace CoordState
variable {st st' st'' : CoordState}

theorem Pruned.refl (st : CoordState) : st.Pruned st := ⟨List.Sublist.refl _, rfl⟩

theorem Pruned.trans (h : st.Pruned st') (h' : st'.Pruned st'') : st.Pruned st'' :=
  ⟨h'.workers.trans h.workers, h'.nextId.trans h.nextId⟩

theorem retire_workers (st : CoordState) (pid : ProcessId) :
    (st.retire pid).workers = st.workers.filter (·.pid ≠ pid) :=
  filter_modifyFirst st.workers fun w hw => by
    have hpid : w.pid = pid := of_decide_eq_true hw
    exact ⟨by simp [hpid], by simp [WorkerInfo.lower, hpid]⟩

theorem retire_pruned (st : CoordState) (pid : ProcessId) : st.Pruned (st.retire pid) := by
  refine ⟨?_, rfl⟩
  rw [retire_workers]
  exact List.filter_sublist

/-- the state after `pickWorker`: the worker at `idx` is raised -/
def raiseAt (st : CoordState) (idx : Nat) : CoordState :=
  { st with workers := st.workers.modify idx WorkerInfo.raise }

variable {w : WorkerInfo} {idx : Nat}

theorem pickWorker_cases (h : st.pickWorker = some (st', w)) :
    ∃ idx, st.workers[idx]? = some w ∧ st' = st.raiseAt idx := by
  obtain ⟨⟨idx, w'⟩, hmin, heq⟩ := Option.map_eq_some_iff.mp h
  cases heq
  exact ⟨idx, getElem?_of_minIdx hmin, rfl⟩

theorem raiseAt_retire (hw : st.workers[idx]? = some w) :
    ((st.raiseAt idx).retire w.pid).workers = st.workers.filter (·.pid ≠ w.pid) := by
  rw [retire_workers]
  exact filter_modify hw (by simp) (by simp [WorkerInfo.raise])

theorem raiseAt_retire_pruned (hw : st.workers[idx]? = some w) :
    st.Pruned ((st.raiseAt idx).retire w.pid) := by
  refine ⟨?_, rfl⟩
  rw [raiseAt_retire hw]
  exact List.filter_sublist

theorem raiseAt_retire_length (hw : st.workers[idx]? = some w) :
    ((st.raiseAt idx).retire w.pid).workers.length < st.workers.length := by
  rw [raiseAt_retire hw]
  refine List.length_filter_lt_length_iff_exists.mpr ⟨w, List.mem_of_getElem? hw, ?_⟩
  simp

/-- some workers are removed, and one of the others is raised -/
def Picks (st st' : CoordState) (w : WorkerInfo) : Prop :=
  ∃ left idx, st.Pruned left ∧ left.workers[idx]? = some w ∧ st' = left.raiseAt idx

theorem Picks.of_pruned (h : st.Pruned st') (h' : st'.Picks st'' w) : st.Picks st'' w := by
  obtain ⟨left, idx, hleft, hw, rfl⟩ := h'
  exact ⟨left, idx, h.trans hleft, hw, rfl⟩

theorem Picks.retire_pruned (h : st.Picks st' w) : st.Pruned (st'.retire w.pid) := by
  obtain ⟨left, idx, hleft, hw, rfl⟩ := h
  exact hleft.trans (raiseAt_retire_pruned hw)

theorem pickLiveWorker_cases {table : Table} {rounds : Nat} {found : Option WorkerInfo}
    (h : st.pickLiveWorker table rounds = some (st', found)) :
    (found = none ∧ st.Pruned st') ∨ ∃ w, found = some w ∧ st.Picks st' w := by
  fun_induction pickLiveWorker table rounds st with
  | case1 => cases h
  | case2 =>
    cases h
    exact Or.inl ⟨rfl, .refl _⟩
  | case3 rounds st picked w hpick =>
    obtain ⟨idx, hw, rfl⟩ := pickWorker_cases hpick
    cases h
    exact Or.inr ⟨w, rfl, st, idx, .refl st, hw, rfl⟩
  | case4 rounds st picked w hpick _ ih =>
    obtain ⟨idx, hw, rfl⟩ := pickWorker_cases hpick
    have hpruned := raiseAt_retire_pruned hw
    rcases ih h with ⟨hnone, hleft⟩ | ⟨w', hsome, hpicks⟩
    · exact Or.inl ⟨hnone, hpruned.trans hleft⟩
    · exact Or.inr ⟨w', hsome, hpicks.of_pruned hpruned⟩

theorem pickLiveWorker_ends (table : Table) {rounds : Nat} (h : st.workers.length < rounds) :
    ∃ found, st.pickLiveWorker table rounds = some found := by
  fun_induction pickLiveWorker table rounds st with
  | case1 => cases h
  | case2 | case3 => exact ⟨_, rfl⟩
  | case4 rounds st picked w hpick _ ih =>
    obtain ⟨idx, hw, rfl⟩ := pickWorker_cases hpick
    have hless := raiseAt_retire_length hw
    exact ih (by omega)

end CoordState

inductive Dispatches (task : Value) (reply : ReplyTx) (timeout : Nanos) (attempts : Nat)
    (st : CoordState) : CoordState → Dispatched → Prop where
  | noWorkers {st' : CoordState} : st.Pruned st' →
      Dispatches task reply timeout attempts st st' .noWorkers
  | routed {st' : CoordState} {w : WorkerInfo} {replyPid : ProcessId} {remaining : Nat} :
      st.Picks st' w → remaining < attempts →
      Dispatches task reply timeout attempts st st'
        (.routed ⟨⟨w.id, w.pid⟩, replyPid, task, reply, timeout, remaining, .waiting⟩)

section
variable {table : Table} {task : Value} {reply : ReplyTx} {timeout : Nanos} {attempts : Nat}
  {st st' : CoordState} {dispatched : Dispatched}

theorem dispatchTask_cases
    (h : dispatchTask table task reply timeout attempts st = some (st', dispatched)) :
    Dispatches task reply timeout attempts st st' dispatched := by
  induction attempts generalizing st with
  | zero =>
    cases h
    exact .noWorkers (.refl _)
  | succ attempts ih =>
    unfold dispatchTask at h
    split at h
    next => cases h
    next picked hpick =>
      cases h
      rcases CoordState.pickLiveWorker_cases hpick with ⟨-, hpruned⟩ | ⟨w, hsome, -⟩
      · exact .noWorkers hpruned
      · cases hsome
    next picked w hpick =>
      rcases CoordState.pickLiveWorker_cases hpick with ⟨hnone, -⟩ | ⟨w', hsome, hpicks⟩
      · cases hnone
      · cases hsome
        dsimp only at h
        split at h
        next =>
          cases h
          exact .routed hpicks (Nat.lt_succ_self _)
        next =>
          -- the route failed: the next attempt starts with fewer workers
          cases ih h with
          | noWorkers hpruned => exact .noWorkers (hpicks.retire_pruned.trans hpruned)
          | routed hpicks' hless =>
            exact .routed (hpicks'.of_pruned hpicks.retire_pruned) (Nat.lt_succ_of_lt hless)

theorem dispatchTask_ends (table : Table) (task : Value) (reply : ReplyTx) (timeout : Nanos)
    (attempts : Nat) (st : CoordState) :
    ∃ done, dispatchTask table task reply timeout attempts st = some done := by
  induction attempts generalizing st with
  | zero => exact ⟨_, rfl⟩
  | succ attempts ih =>
    obtain ⟨⟨st', found⟩, hpick⟩ := st.pickLiveWorker_ends table (Nat.lt_succ_self _)
    unfold dispatchTask
    rw [hpick]
    cases found with
    | none => exact ⟨_, rfl⟩
    | some w =>
      dsimp only
      split
      next => exact ⟨_, rfl⟩
      next => exact ih _

end

/-! ## a step -/

def System.dispatched (s : System) (coord : CoordState) (dispatched : Dispatched) : System :=
  { s with coord := coord, collectors := s.collectors ++ dispatched.collectors }

/-- what a step can do; a completion or a command is handled when the coordinator is at its place -/
inductive System.Stepped (s : System) : Event → List Entry → System → Prop where
  | sent {msg : CoordMsg} {submits : Nat} : s.place ≠ .stopped →
      msg.numbered s.submits = some submits →
      Stepped s (.send msg) [] { s with commands := s.commands ++ [msg], submits := submits }
  | moved {table : Table} {place : Place} : s.place ≠ .stopped → place ≠ .stopped →
      Stepped s (.advance table) [] { s with place := place }
  | completed {table : Table} {worker : Assignment} {elapsedUs : Nat} {rest : List TaskComplete} :
      s.place ≠ .stopped → s.completions = .ok worker elapsedUs :: rest →
      Stepped s (.advance table) [.noticed worker] { s with
        completions := rest, place := .drain, coord := s.coord.completeTask worker.pid elapsedUs }
  | retired {table : Table} {worker : Assignment} {rest : List TaskComplete} :
      s.place ≠ .stopped → s.completions = .retire worker :: rest →
      Stepped s (.advance table) [.noticed worker] { s with
        completions := rest, place := .drain, coord := s.coord.retire worker.pid }
  | failedOver {table : Table} {worker : Assignment} {task : Value} {reply : ReplyTx}
      {timeout : Nanos} {attempts : Nat} {rest : List TaskComplete} {coord : CoordState}
      {dispatched : Dispatched} :
      s.place ≠ .stopped → s.completions = .failed worker task reply timeout attempts :: rest →
      Dispatches task reply timeout attempts (s.coord.retire worker.pid) coord dispatched →
      Stepped s (.advance table) (.noticed worker :: dispatched.entries task reply)
        ({ s with completions := rest, place := .drain }.dispatched coord dispatched)
  | submitted {table : Table} {task : Value} {reply : ReplyTx} {timeout : Nanos}
      {rest : List CoordMsg} {coord : CoordState} {dispatched : Dispatched} :
      s.place = .pollCommands → s.commands = .submit task reply timeout :: rest →
      Dispatches task reply timeout s.coord.workers.length s.coord coord dispatched →
      Stepped s (.advance table)
        (.submitted reply s.coord.workers.length :: dispatched.entries task reply)
        ({ s with commands := rest, place := .drain }.dispatched coord dispatched)
  | registered {table : Table} {pid : ProcessId} {metadata : Value} {reply : ReplyTx}
      {rest : List CoordMsg} :
      s.place = .pollCommands → s.commands = .register pid metadata reply :: rest →
      Stepped s (.advance table)
        [.answered reply (.registered (s.coord.register pid metadata).2)]
        { s with commands := rest, place := .drain, coord := (s.coord.register pid metadata).1 }
  | unregistered {table : Table} {id : WorkerId} {reply : ReplyTx} {rest : List CoordMsg} :
      s.place = .pollCommands → s.commands = .unregister id reply :: rest →
      Stepped s (.advance table) [.answered reply (.unregistered (s.coord.unregister id).2)]
        { s with commands := rest, place := .drain, coord := (s.coord.unregister id).1 }
  | counted {table : Table} {reply : ReplyTx} {rest : List CoordMsg} :
      s.place = .pollCommands → s.commands = .workerCount reply :: rest →
      Stepped s (.advance table) [.answered reply (.count s.coord.workers.length)]
        { s with commands := rest, place := .drain }
  | listed {table : Table} {reply : ReplyTx} {rest : List CoordMsg} :
      s.place = .pollCommands → s.commands = .listWorkers reply :: rest →
      Stepped s (.advance table) [.answered reply (.workers s.coord.workers)]
        { s with commands := rest, place := .drain }
  | shutdown {table : Table} {rest : List CoordMsg} :
      s.place = .pollCommands → s.commands = .shutdown :: rest →
      Stepped s (.advance table) []
        { s with commands := [], place := .stopped, completions := [] }
  | received {index : Nat} {c : Collector} {payload : Value} {elapsedUs : Nat} :
      s.collectors[index]? = some c → c.stage = .waiting →
      Stepped s (.collect index (.received payload elapsedUs)) []
        ({ s with collectors := s.collectors.set index { c with stage := .delivering payload } }.notify
          (.ok c.worker elapsedUs))
  | gaveUp {index : Nat} {c : Collector} {outcome : Outcome} {error : CoordinatorError} :
      s.collectors[index]? = some c → c.stage = .waiting → c.remainingAttempts = 0 →
      Stepped s (.collect index outcome) [.replied c.reply (.error error)]
        { s with collectors := s.collectors.set index { c with stage := .retiring } }
  | handedBack {index : Nat} {c : Collector} {outcome : Outcome} :
      s.collectors[index]? = some c → c.stage = .waiting → c.remainingAttempts ≠ 0 →
      Stepped s (.collect index outcome) []
        ({ s with collectors := s.collectors.eraseIdx index }.notify
          (.failed c.worker c.task c.reply c.timeout c.remainingAttempts))
  | delivered {index : Nat} {c : Collector} {payload : Value} :
      s.collectors[index]? = some c → c.stage = .delivering payload →
      Stepped s (.finish index) [.replied c.reply (.ok payload)]
        { s with collectors := s.collectors.eraseIdx index }
  | told {index : Nat} {c : Collector} :
      s.collectors[index]? = some c → c.stage = .retiring →
      Stepped s (.finish index) []
        ({ s with collectors := s.collectors.eraseIdx index }.notify (.retire c.worker))

namespace System
variable {s s' : System} {table : Table} {event : Event} {entries : List Entry}

theorem dispatch_cases {task : Value} {reply : ReplyTx} {timeout : Nanos} {attempts : Nat}
    (h : s.dispatch table task reply timeout attempts = some (s', entries)) :
    ∃ coord dispatched, Dispatches task reply timeout attempts s.coord coord dispatched ∧
      s' = s.dispatched coord dispatched ∧ entries = dispatched.entries task reply := by
  obtain ⟨⟨coord, dispatched⟩, hdone, heq⟩ := Option.map_eq_some_iff.mp h
  cases heq
  exact ⟨coord, dispatched, dispatchTask_cases hdone, rfl, rfl⟩

theorem takeCompletion_cases {tc : TaskComplete} {rest : List TaskComplete}
    (hplace : s.place ≠ .stopped) (hcons : s.completions = tc :: rest)
    (h : s.takeCompletion table tc rest = some (s', entries)) :
    s.Stepped (.advance table) entries s' := by
  obtain ⟨⟨s₁, entries₁⟩, hstep, heq⟩ := Option.map_eq_some_iff.mp h
  cases heq
  cases tc with
  | ok worker elapsedUs =>
    cases hstep
    exact .completed hplace hcons
  | retire worker =>
    cases hstep
    exact .retired hplace hcons
  | failed worker task reply timeout attempts =>
    obtain ⟨coord, dispatched, hdispatches, rfl, rfl⟩ := dispatch_cases hstep
    exact .failedOver hplace hcons hdispatches

theorem handleCommand_cases {msg : CoordMsg} {rest : List CoordMsg}
    (hplace : s.place = .pollCommands) (hcons : s.commands = msg :: rest)
    (h : { s with commands := rest, place := .drain }.handleCommand table msg = some (s', entries)) :
    s.Stepped (.advance table) entries s' := by
  cases msg with
  | register pid metadata reply =>
    cases h
    exact .registered hplace hcons
  | unregister id reply =>
    cases h
    exact .unregistered hplace hcons
  | workerCount reply =>
    cases h
    exact .counted hplace hcons
  | listWorkers reply =>
    cases h
    exact .listed hplace hcons
  | shutdown =>
    cases h
    exact .shutdown hplace hcons
  | submit task reply timeout =>
    obtain ⟨⟨s₁, entries₁⟩, hstep, heq⟩ := Option.map_eq_some_iff.mp h
    cases heq
    obtain ⟨coord, dispatched, hdispatches, rfl, rfl⟩ := dispatch_cases hstep
    exact .submitted hplace hcons hdispatches

theorem advance_cases (h : s.advance table = some (s', entries)) :
    s.Stepped (.advance table) entries s' := by
  revert h
  fun_cases advance table s <;> intro h
  next hplace tc rest hcons => exact takeCompletion_cases (by rw [hplace]; nofun) hcons h
  next hplace _ =>
    cases h
    exact .moved (by rw [hplace]; nofun) nofun
  next hplace tc rest hcons => exact takeCompletion_cases (by rw [hplace]; nofun) hcons h
  next hplace _ =>
    cases h
    exact .moved (by rw [hplace]; nofun) nofun
  next hplace msg rest hcons => exact handleCommand_cases hplace hcons h
  next hplace _ =>
    cases h
    exact .moved (by rw [hplace]; nofun) nofun
  next => cases h

theorem collect_cases {index : Nat} {c : Collector} {outcome : Outcome}
    (hc : s.collectors[index]? = some c) (hstage : c.stage = .waiting)
    (h : s.collect index c outcome = (s', entries)) :
    s.Stepped (.collect index outcome) entries s' := by
  unfold collect at h
  split at h
  next =>
    cases h
    exact .received hc hstage
  next =>
    split at h
    next hzero =>
      cases h
      exact .gaveUp hc hstage hzero
    next hmore =>
      cases h
      exact .handedBack hc hstage hmore

theorem finish_cases {index : Nat} {c : Collector} (hc : s.collectors[index]? = some c)
    (h : s.finish index c = some (s', entries)) : s.Stepped (.finish index) entries s' := by
  unfold finish at h
  split at h
  next => cases h
  next payload hstage =>
    cases h
    exact .delivered hc hstage
  next hstage =>
    cases h
    exact .told hc hstage

theorem step_cases (h : s.step event = some (s', entries)) : s.Stepped event entries s' := by
  revert h
  fun_cases step s event <;> intro h <;> try cases h
  next hroom =>
    obtain ⟨submits, hsubmits, heq⟩ := Option.map_eq_some_iff.mp h
    cases heq
    exact .sent hroom.1 hsubmits
  next => exact advance_cases h
  next c hc hstage => exact collect_cases hc hstage (Option.some.inj h)
  next c hc => exact finish_cases hc h

theorem next_cases (h : s.next event = some s') : s.Stepped event (s.entries event) s' := by
  obtain ⟨⟨s₁, entries⟩, hstep, rfl⟩ := Option.map_eq_some_iff.mp h
  have hentries : s.entries event = entries := by
    unfold System.entries
    rw [hstep]
    rfl
  rw [hentries]
  exact step_cases hstep

theorem notify_place (s : System) (tc : TaskComplete) : (s.notify tc).place = s.place := by
  unfold notify
  split <;> rfl

theorem notify_commands (s : System) (tc : TaskComplete) :
    (s.notify tc).commands = s.commands := by
  unfold notify
  split <;> rfl

theorem notify_submits (s : System) (tc : TaskComplete) : (s.notify tc).submits = s.submits := by
  unfold notify
  split <;> rfl

theorem notify_coord (s : System) (tc : TaskComplete) : (s.notify tc).coord = s.coord := by
  unfold notify
  split <;> rfl

theorem Stepped.stopped (hs : s.Stepped event entries s') (h : s.place = .stopped) :
    s'.place = .stopped := by
  cases hs with
  | sent hup | moved hup | completed hup | retired hup | failedOver hup => exact absurd h hup
  | submitted hplace | registered hplace | unregistered hplace | counted hplace | listed hplace
  | shutdown hplace => cases h.symm.trans hplace
  | received | handedBack | told => exact (notify_place _ _).trans h
  | gaveUp | delivered => exact h

/-! ## what the collectors and the notices have -/

section
variable {α : Type}

def gather (f : Collector → List α) (g : TaskComplete → List α) (s : System) : List α :=
  s.collectors.flatMap f ++ s.completions.flatMap g

variable {f : Collector → List α} {g : TaskComplete → List α}

variable {c : Collector}

theorem gather_collectors {collectors : List Collector} (h : s.collectors.Perm (c :: collectors)) :
    (s.gather f g).Perm (f c ++ { s with collectors := collectors }.gather f g) := by
  unfold gather
  rw [← List.append_assoc, ← List.flatMap_cons]
  exact (h.flatMap_right f).append_right _

theorem gather_eraseIdx {index : Nat} (h : s.collectors[index]? = some c) :
    (s.gather f g).Perm
      (f c ++ { s with collectors := s.collectors.eraseIdx index }.gather f g) :=
  gather_collectors (perm_cons_eraseIdx h)

theorem gather_set {index : Nat} (h : s.collectors[index]? = some c) (c' : Collector) :
    ({ s with collectors := s.collectors.set index c' }.gather f g).Perm
      (f c' ++ { s with collectors := s.collectors.eraseIdx index }.gather f g) :=
  gather_collectors (set_perm_cons_eraseIdx h c')

theorem gather_dispatched (s : System) (coord : CoordState) (dispatched : Dispatched) :
    ((s.dispatched coord dispatched).gather f g).Perm
      (dispatched.collectors.flatMap f ++ s.gather f g) := by
  unfold gather System.dispatched
  rw [List.flatMap_append, ← List.append_assoc]
  exact List.perm_append_comm.append_right _

theorem gather_cons {tc : TaskComplete} {rest : List TaskComplete}
    (h : s.completions = tc :: rest) :
    (s.gather f g).Perm (g tc ++ { s with completions := rest }.gather f g) := by
  unfold gather
  rw [h, List.flatMap_cons, ← List.append_assoc, ← List.append_assoc]
  exact List.perm_append_comm.append_right _

theorem gather_notify (hup : s.place ≠ .stopped) (tc : TaskComplete) :
    ((s.notify tc).gather f g).Perm (g tc ++ s.gather f g) := by
  unfold notify
  rw [if_neg hup]
  unfold gather
  rw [List.flatMap_append, List.flatMap_singleton, ← List.append_assoc]
  exact List.perm_append_comm

end

end System
end Rebar.Coordinator

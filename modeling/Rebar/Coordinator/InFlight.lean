import Rebar.Coordinator.History

/-!
# The count of a worker's tasks

A count is raised at the entry of the worker that was picked, and lowered at the first entry that has
its pid.  A worker may be registered several times, so the two can be different entries; a worker that is
retired is removed with all its entries.

* `System.outstanding`   the tasks whose completion notice is not yet taken, by what they were dispatched to;
* `Tracked`              the counts agree with the outstanding tasks.
-/

namespace Rebar.Coordinator

open Coordinator.System

def Collector.owes (c : Collector) : List Assignment :=
  match c.stage with
  | .waiting => [c.worker]
  | .delivering _ => []
  | .retiring => [c.worker]

def System.outstanding (s : System) : List Assignment :=
  s.gather Collector.owes fun tc => [tc.worker]

def Assignment.under (id : WorkerId) (a : Assignment) : Bool := a.id = id

variable {c : Collector}

theorem Collector.owes_of_waiting (h : c.stage = .waiting) : c.owes = [c.worker] := by
  unfold owes
  rw [h]

theorem Collector.owes_of_delivering {payload : Value} (h : c.stage = .delivering payload) :
    c.owes = [] := by
  unfold owes
  rw [h]

theorem Collector.owes_of_retiring (h : c.stage = .retiring) : c.owes = [c.worker] := by
  unfold owes
  rw [h]

/-- a notice of success finds the entry that was raised for its task; or that one is gone, and the entry it finds
is not lowered below zero -/
def System.matched (s : System) (entries : List Entry) : Bool :=
  match entries, s.completions with
  | .noticed worker :: _, .ok _ _ :: _ =>
    (s.coord.workers.find? (·.pid = worker.pid)).all fun w =>
      w.id = worker.id ∨ (w.inFlight = 0 ∧ ∀ x ∈ s.coord.workers, x.id ≠ worker.id)
  | _, _ => true

def dispatchedTasks (log : List Entry) : List Assignment :=
  log.filterMap fun
    | .routed _ worker _ => some worker
    | _ => none

def noticedTasks (log : List Entry) : List Assignment :=
  log.filterMap fun
    | .noticed worker => some worker
    | _ => none

theorem dispatchedTasks_append (log entries : List Entry) :
    dispatchedTasks (log ++ entries) = dispatchedTasks log ++ dispatchedTasks entries :=
  List.filterMap_append

theorem noticedTasks_append (log entries : List Entry) :
    noticedTasks (log ++ entries) = noticedTasks log ++ noticedTasks entries :=
  List.filterMap_append

/-! ## the counts and the outstanding tasks -/

structure Tracked (st : CoordState) (out : List Assignment) : Prop where
  ids : (st.workers.map (·.id)).Nodup
  issued : ∀ w ∈ st.workers, w.id ≤ st.nextId
  old : ∀ a ∈ out, a.id ≤ st.nextId
  same : ∀ w ∈ st.workers, ∀ a ∈ out, a.id = w.id → a.pid = w.pid
  count : ∀ w ∈ st.workers, w.inFlight = out.countP (Assignment.under w.id)

namespace Tracked
variable {st st' : CoordState} {out out' : List Assignment} {a : Assignment}

theorem perm (h : Tracked st out) (hperm : out.Perm out') : Tracked st out' where
  ids := h.ids
  issued := h.issued
  old a ha := h.old a (hperm.mem_iff.mpr ha)
  same w hw a ha := h.same w hw a (hperm.mem_iff.mpr ha)
  count w hw := (h.count w hw).trans (hperm.countP_eq _)

theorem pruned (h : Tracked st out) (hp : st.Pruned st') : Tracked st' out where
  ids := h.ids.sublist (hp.workers.map _)
  issued w hw := hp.nextId ▸ h.issued w (hp.workers.subset hw)
  old a ha := hp.nextId ▸ h.old a ha
  same w hw := h.same w (hp.workers.subset hw)
  count w hw := h.count w (hp.workers.subset hw)

variable {w : WorkerInfo}

theorem raise {idx : Nat} (h : Tracked st out) (hw : st.workers[idx]? = some w) :
    Tracked (st.raiseAt idx) (⟨w.id, w.pid⟩ :: out) := by
  have hmem : w ∈ st.workers := List.mem_of_getElem? hw
  have hcases : ∀ x ∈ (st.raiseAt idx).workers, x = w.raise ∨ (x ∈ st.workers ∧ x.id ≠ w.id) :=
    fun x hx => mem_modify (List.pairwise_map.mp h.ids) hw hx
  have hids : (st.raiseAt idx).workers.map (·.id) = st.workers.map (·.id) :=
    map_modify_key _ _ fun _ => rfl
  refine ⟨hids ▸ h.ids, ?_, ?_, ?_, ?_⟩
  · intro x hx
    rcases hcases x hx with rfl | ⟨hx, -⟩
    · exact h.issued w hmem
    · exact h.issued x hx
  · intro a ha
    rcases List.mem_cons.mp ha with rfl | ha
    · exact h.issued w hmem
    · exact h.old a ha
  · intro x hx a ha
    rcases hcases x hx with rfl | ⟨hx, hid⟩
    · rcases List.mem_cons.mp ha with rfl | ha
      · exact fun _ => rfl
      · exact h.same w hmem a ha
    · rcases List.mem_cons.mp ha with rfl | ha
      · exact fun heq => absurd heq.symm hid
      · exact h.same x hx a ha
  · intro x hx
    rcases hcases x hx with rfl | ⟨hx, hid⟩
    · have hcount := h.count w hmem
      show w.inFlight + 1 = _
      rw [List.countP_cons_of_pos (by simp [Assignment.under, WorkerInfo.raise]), hcount]
      rfl
    · rw [List.countP_cons_of_neg (by simpa [Assignment.under] using hid.symm)]
      exact h.count x hx

theorem picks (h : Tracked st out) (hp : st.Picks st' w) : Tracked st' (⟨w.id, w.pid⟩ :: out) := by
  obtain ⟨left, idx, hleft, hw, rfl⟩ := hp
  exact (h.pruned hleft).raise hw

/-- a worker that has no part in a task does not count it -/
theorem tail_of_ne (h : Tracked st (a :: out)) (hw : w ∈ st.workers) (hid : a.id ≠ w.id) :
    w.inFlight = out.countP (Assignment.under w.id) := by
  rw [h.count w hw, List.countP_cons_of_neg (by simpa [Assignment.under] using hid)]

theorem complete (h : Tracked st (a :: out)) (elapsedUs : Nat)
    (hmatch : ∀ w ∈ st.workers.find? (·.pid = a.pid), w.id = a.id ∨
      (w.inFlight = 0 ∧ ∀ x ∈ st.workers, x.id ≠ a.id)) :
    Tracked (st.completeTask a.pid elapsedUs) out := by
  have hcases : ∀ x ∈ (st.completeTask a.pid elapsedUs).workers,
      (∃ w, st.workers.find? (·.pid = a.pid) = some w ∧ x = w.complete elapsedUs) ∨
        (x ∈ st.workers ∧ ∀ w, st.workers.find? (·.pid = a.pid) = some w → x.id ≠ w.id) :=
    fun x hx => mem_modifyFirst (List.pairwise_map.mp h.ids) hx
  have hids : (st.completeTask a.pid elapsedUs).workers.map (·.id) = st.workers.map (·.id) :=
    map_modifyFirst _ fun _ => rfl
  refine ⟨hids ▸ h.ids, ?_, fun b hb => h.old b (List.mem_cons_of_mem _ hb), ?_, ?_⟩
  · intro x hx
    rcases hcases x hx with ⟨w, hw, rfl⟩ | ⟨hx, -⟩
    · exact h.issued w (List.mem_of_find?_eq_some hw)
    · exact h.issued x hx
  · intro x hx b hb
    rcases hcases x hx with ⟨w, hw, rfl⟩ | ⟨hx, -⟩
    · exact h.same w (List.mem_of_find?_eq_some hw) b (List.mem_cons_of_mem _ hb)
    · exact h.same x hx b (List.mem_cons_of_mem _ hb)
  · intro x hx
    rcases hcases x hx with ⟨w, hw, rfl⟩ | ⟨hx, hother⟩
    · have hmem := List.mem_of_find?_eq_some hw
      show w.inFlight - 1 = out.countP (Assignment.under w.id)
      rcases hmatch w hw with hid | ⟨hzero, hgone⟩
      · have hcount := h.count w hmem
        rw [List.countP_cons_of_pos (by simpa [Assignment.under] using hid.symm)] at hcount
        omega
      · have hcount := h.tail_of_ne hmem (hgone w hmem).symm
        omega
    · -- if the task is one of its own, then the entry that was found is another one of the worker
      refine h.tail_of_ne hx fun hid => ?_
      have hpid : x.pid = a.pid := (h.same x hx a List.mem_cons_self hid).symm
      have hsome : (st.workers.find? (·.pid = a.pid)).isSome :=
        List.find?_isSome.mpr ⟨x, hx, decide_eq_true hpid⟩
      obtain ⟨w, hw⟩ := Option.isSome_iff_exists.mp hsome
      rcases hmatch w hw with hown | ⟨-, hgone⟩
      · exact hother w hw (hid.symm.trans hown.symm)
      · exact hgone x hx hid.symm

theorem retire (h : Tracked st (a :: out)) : Tracked (st.retire a.pid) out := by
  have hpruned := h.pruned (st.retire_pruned a.pid)
  refine ⟨hpruned.ids, hpruned.issued, fun b hb => hpruned.old b (List.mem_cons_of_mem _ hb),
    fun w hw b hb => hpruned.same w hw b (List.mem_cons_of_mem _ hb), fun w hw => ?_⟩
  rw [CoordState.retire_workers] at hw
  obtain ⟨hw, hpid⟩ := List.mem_filter.mp hw
  exact h.tail_of_ne hw fun hid =>
    of_decide_eq_true hpid (h.same w hw a List.mem_cons_self hid).symm

theorem push (h : Tracked st out) (hid : w.id = st.nextId + 1) (hzero : w.inFlight = 0) :
    Tracked { st with nextId := st.nextId + 1, workers := st.workers ++ [w] } out := by
  have hcases : ∀ x ∈ st.workers ++ [w], x ∈ st.workers ∨ x = w := by
    intro x hx
    exact (List.mem_append.mp hx).imp_right List.mem_singleton.mp
  have hnew : ∀ id : WorkerId, id ≤ st.nextId → id ≠ w.id := by
    intro id hle heq
    rw [heq, hid] at hle
    exact Nat.not_succ_le_self _ hle
  have hne : ∀ a ∈ out, a.id ≠ w.id := fun a ha => hnew a.id (h.old a ha)
  refine ⟨nodup_map_push h.ids fun x hx => hnew x.id (h.issued x hx), ?_, ?_, ?_, ?_⟩
  · intro x hx
    rcases hcases x hx with hx | rfl
    · exact Nat.le_succ_of_le (h.issued x hx)
    · exact Nat.le_of_eq hid
  · exact fun a ha => Nat.le_succ_of_le (h.old a ha)
  · intro x hx a ha heq
    rcases hcases x hx with hx | rfl
    · exact h.same x hx a ha heq
    · exact absurd heq (hne a ha)
  · intro x hx
    rcases hcases x hx with hx | rfl
    · exact h.count x hx
    · rw [hzero]
      refine (List.countP_eq_zero.mpr fun a ha => ?_).symm
      simpa [Assignment.under] using hne a ha

theorem register (h : Tracked st out) (pid : ProcessId) (metadata : Value) :
    Tracked (st.register pid metadata).1 out := by
  unfold CoordState.register
  split
  next => exact h
  next => exact h.push rfl rfl

theorem unregister (h : Tracked st out) (id : WorkerId) : Tracked (st.unregister id).1 out := by
  unfold CoordState.unregister
  split
  next => exact h
  next pos hpos =>
    obtain ⟨hless, -⟩ := List.findIdx?_eq_some_iff_findIdx_eq.mp hpos
    have hperm := swapRemove_perm hless
    have hsub : (st.workers.eraseIdx pos).Sublist st.workers := List.eraseIdx_sublist _ _
    have hmem : ∀ w ∈ swapRemove st.workers pos, w ∈ st.workers :=
      fun w hw => hsub.subset (hperm.mem_iff.mp hw)
    exact ⟨(hperm.map _).nodup_iff.mpr (h.ids.sublist (hsub.map _)),
      fun w hw => h.issued w (hmem w hw), h.old, fun w hw => h.same w (hmem w hw),
      fun w hw => h.count w (hmem w hw)⟩

end Tracked

/-! ## every run -/

theorem System.outstanding_eraseIdx {s : System} {index : Nat} {owed : List Assignment}
    (hc : s.collectors[index]? = some c) (howes : c.owes = owed) :
    s.outstanding.Perm
      (owed ++ { s with collectors := s.collectors.eraseIdx index }.outstanding) :=
  howes ▸ gather_eraseIdx hc

/-- between two messages: the counts agree with the outstanding tasks, which are those that were
dispatched and whose notice was not taken -/
structure Exact (s : System) (log : List Entry) : Prop where
  tracked : Tracked s.coord s.outstanding
  books : (dispatchedTasks log).Perm (noticedTasks log ++ s.outstanding)

namespace Exact
variable {s s' : System} {event : Event} {log entries : List Entry}

theorem quiet (h : Exact s log) (htracked : Tracked s'.coord s.outstanding)
    (hout : s'.outstanding.Perm s.outstanding) (hdispatched : dispatchedTasks entries = [])
    (hnoticed : noticedTasks entries = []) : Exact s' (log ++ entries) := by
  refine ⟨htracked.perm hout.symm, ?_⟩
  rw [dispatchedTasks_append, noticedTasks_append, hdispatched, hnoticed, List.append_nil,
    List.append_nil]
  exact h.books.trans (hout.symm.append_left _)

variable {coord : CoordState}

theorem notice {tc : TaskComplete} {rest : List TaskComplete} (h : Exact s log)
    (hcons : s.completions = tc :: rest)
    (htracked : Tracked coord { s with completions := rest }.outstanding) :
    Exact { s with completions := rest, place := .drain, coord := coord }
      (log ++ [.noticed tc.worker]) := by
  refine ⟨htracked, ?_⟩
  have hperm := h.books.trans ((gather_cons hcons).append_left _)
  rw [dispatchedTasks_append, noticedTasks_append]
  show (dispatchedTasks log ++ []).Perm (noticedTasks log ++ [tc.worker] ++ _)
  rw [List.append_nil, List.append_assoc]
  exact hperm

theorem dispatch {task : Value} {reply : ReplyTx} {timeout : Nanos} {attempts : Nat}
    {dispatched : Dispatched} (h : Exact s log)
    (hd : Dispatches task reply timeout attempts s.coord coord dispatched) :
    Exact (s.dispatched coord dispatched) (log ++ dispatched.entries task reply) := by
  cases hd with
  | noWorkers hpruned =>
    exact h.quiet (h.tracked.pruned hpruned) (gather_dispatched s coord .noWorkers) rfl rfl
  | @routed w replyPid remaining hpicks hless =>
    have hout : (s.dispatched coord (.routed
        ⟨⟨w.id, w.pid⟩, replyPid, task, reply, timeout, remaining, .waiting⟩)).outstanding.Perm
          (⟨w.id, w.pid⟩ :: s.outstanding) := gather_dispatched s coord _
    refine ⟨(h.tracked.picks hpicks).perm hout.symm, ?_⟩
    rw [dispatchedTasks_append, noticedTasks_append]
    show (dispatchedTasks log ++ [Assignment.mk w.id w.pid]).Perm (noticedTasks log ++ [] ++ _)
    rw [List.append_nil]
    refine List.Perm.trans ?_ (hout.symm.append_left _)
    exact (List.perm_append_singleton _ _).trans ((h.books.cons _).trans List.perm_middle.symm)

theorem collector (h : Exact s log) (hcoord : s'.coord = s.coord)
    (hout : s'.outstanding.Perm s.outstanding) (hdispatched : dispatchedTasks entries = [])
    (hnoticed : noticedTasks entries = []) : Exact s' (log ++ entries) :=
  h.quiet (hcoord ▸ h.tracked) hout hdispatched hnoticed

theorem step (h : Exact s log) (hok : s.matched entries = true) (hup : s'.place ≠ .stopped)
    (hs : s.Stepped event entries s') : Exact s' (log ++ entries) := by
  cases hs with
  | sent | moved | counted | listed => exact h.quiet h.tracked (List.Perm.refl _) rfl rfl
  | completed hplace hcons =>
    refine h.notice hcons ((h.tracked.perm (gather_cons hcons)).complete _ fun w hw => ?_)
    simp only [System.matched, hcons] at hok
    exact of_decide_eq_true ((Option.all_eq_true _ _).mp hok w hw)
  | retired hplace hcons =>
    exact h.notice hcons (h.tracked.perm (gather_cons hcons)).retire
  | failedOver hplace hcons hd =>
    have hnotice := h.notice hcons (h.tracked.perm (gather_cons hcons)).retire
    rw [List.append_cons]
    exact hnotice.dispatch hd
  | @submitted table task reply timeout rest coord dispatched hplace hcons hd =>
    have htaken : Exact { s with commands := rest, place := .drain }
        (log ++ [.submitted reply s.coord.workers.length]) :=
      h.quiet h.tracked (List.Perm.refl _) rfl rfl
    rw [List.append_cons]
    exact htaken.dispatch hd
  | registered => exact h.quiet (h.tracked.register _ _) (List.Perm.refl _) rfl rfl
  | unregistered => exact h.quiet (h.tracked.unregister _) (List.Perm.refl _) rfl rfl
  | shutdown => exact absurd rfl hup
  | received hc hstage =>
    rw [notify_place] at hup
    refine h.collector (notify_coord _ _) ?_ rfl rfl
    have hkept := outstanding_eraseIdx hc (Collector.owes_of_waiting hstage)
    refine (gather_notify hup _).trans (List.Perm.trans ?_ hkept.symm)
    exact (gather_set hc _).append_left _
  | gaveUp hc hstage =>
    refine h.collector rfl ?_ rfl rfl
    have hkept := outstanding_eraseIdx hc (Collector.owes_of_waiting hstage)
    exact (gather_set hc _).trans hkept.symm
  | handedBack hc hstage =>
    rw [notify_place] at hup
    refine h.collector (notify_coord _ _) ?_ rfl rfl
    have hkept := outstanding_eraseIdx hc (Collector.owes_of_waiting hstage)
    exact (gather_notify hup _).trans hkept.symm
  | delivered hc hstage =>
    refine h.collector rfl ?_ rfl rfl
    have hkept := outstanding_eraseIdx hc (Collector.owes_of_delivering hstage)
    exact hkept.symm
  | told hc hstage =>
    rw [notify_place] at hup
    refine h.collector (notify_coord _ _) ?_ rfl rfl
    have hkept := outstanding_eraseIdx hc (Collector.owes_of_retiring hstage)
    exact (gather_notify hup _).trans hkept.symm

end Exact

/-- **In every state between messages, the count of each registered worker is the number of tasks dispatched
under that registration whose notice was not yet taken**, if every notice of success that is taken finds the entry
that was raised for its task, or that entry is gone and the one it finds has no tasks. -/
theorem inFlight_exact {s : System} {log : List Entry} {w : WorkerInfo}
    (h : (coordinatorMachine.logged System.entries).Reach
      (fun s event => s.1.matched (s.1.entries event) = true) (s, log))
    (hup : s.place ≠ .stopped) (hw : w ∈ s.coord.workers) :
    w.inFlight + (noticedTasks log).countP (Assignment.under w.id) =
      (dispatchedTasks log).countP (Assignment.under w.id) := by
  have hexact : s.place ≠ .stopped → Exact s log := by
    refine h.inv_logged_of (I := fun s log => s.place ≠ .stopped → Exact s log) ?_ ?_
    · rintro s ⟨maxWorkers, rfl⟩ -
      exact ⟨⟨List.nodup_nil, nofun, nofun, nofun, nofun⟩, List.Perm.refl _⟩
    · intro s log event s' h hok hnext hup
      have hs := System.next_cases hnext
      exact (h fun hstop => hup (hs.stopped hstop)).step hok hup hs
  have hcount := (hexact hup).books.countP_eq (Assignment.under w.id)
  have htracked := (hexact hup).tracked.count w hw
  rw [List.countP_append] at hcount
  omega

/-- one pid is registered twice; each registration gets a task, and one of the tasks is done -/
private def twice (done : Nat) : List Event :=
  [.send (.register ⟨1, 1⟩ .nil 0)] ++ commandTurn ++ [.send (.register ⟨1, 1⟩ .nil 1)] ++ commandTurn ++
    [.send (.submit .nil 0 5)] ++ commandTurn ++ [.send (.submit .nil 1 5)] ++ commandTurn ++
    [.collect done (.received .nil 3), .advance .clear]

theorem inFlight_exact_halfway :
    ∃ (s : System) (log : List Entry) (w : WorkerInfo),
      (coordinatorMachine.logged System.entries).Reach
        (fun s event => s.1.matched (s.1.entries event) = true) (s, log) ∧
      s.place ≠ .stopped ∧ w ∈ s.coord.workers ∧ w.inFlight = 0 ∧
      (dispatchedTasks log).countP (Assignment.under w.id) = 1 ∧
      (noticedTasks log).countP (Assignment.under w.id) = 1 := by
  have hstart : (coordinatorMachine.logged System.entries).Reach
      (fun s event => s.1.matched (s.1.entries event) = true) (.new 0, []) := .start ⟨⟨0, rfl⟩, rfl⟩
  obtain ⟨⟨s, log⟩, h, hup, w, hw, hzero, hone⟩ := hstart.exists_checked (twice 0)
    (p := fun s => s.1.place ≠ .stopped ∧ ∃ w ∈ s.1.coord.workers, w.inFlight = 0 ∧
      (dispatchedTasks s.2).countP (Assignment.under w.id) = 1) (by decide)
  have hexact := inFlight_exact h hup hw
  rw [hzero, hone, Nat.zero_add] at hexact
  exact ⟨s, log, w, h, hup, hw, hzero, hone, hexact⟩

/-- the second task is done, the count of the first registration is lowered, and its task is still outstanding -/
theorem inFlight_exact_twice :
    ∃ (s : System) (log : List Entry) (w : WorkerInfo),
      (coordinatorMachine.logged System.entries).Reach Machine.Anytime (s, log) ∧
      s.place ≠ .stopped ∧ w ∈ s.coord.workers ∧ w.inFlight = 0 ∧
      (dispatchedTasks log).countP (Assignment.under w.id) = 1 ∧
      (noticedTasks log).countP (Assignment.under w.id) = 0 := by
  have hstart : (coordinatorMachine.logged System.entries).Reach Machine.Anytime (.new 0, []) :=
    .start ⟨⟨0, rfl⟩, rfl⟩
  obtain ⟨⟨s, log⟩, h, hup, w, hw, hcount⟩ := hstart.exists_run (twice 1)
    (p := fun s => s.1.place ≠ .stopped ∧ ∃ w ∈ s.1.coord.workers, w.inFlight = 0 ∧
      (dispatchedTasks s.2).countP (Assignment.under w.id) = 1 ∧
      (noticedTasks s.2).countP (Assignment.under w.id) = 0) (by decide)
  exact ⟨s, log, w, h, hup, hw, hcount⟩

end Rebar.Coordinator

import Mathlib.Data.List.Range
import Rebar.GenStatem.Events

/-!
# The messages of a state machine
-/

namespace Rebar.Statem

variable {State Data Call Cast Reply : Type} {statem : GenStatem State Call Cast}
  {s s' : Server State Data Call Cast Reply} {cur cur' : List QueuedEvent} {e : QueuedEvent}
  {log entries : List (Entry State)} {n : Nat}

/-- the events that are not done, the one in flight among them -/
def waiting (s : Server State Data Call Cast Reply) (cur : List QueuedEvent) : List QueuedEvent :=
  s.loop.postponed ++ (cur ++ s.loop.internalQueue)

theorem numbers_waiting (s : Server State Data Call Cast Reply) (cur : List QueuedEvent) :
    numbers (waiting s cur) =
      numbers s.loop.postponed ++ (numbers cur ++ numbers s.loop.internalQueue) := by
  rw [waiting, numbers_append, numbers_append]

/-- the message with which the loop is done, if the entry says so of one -/
def Entry.done : Entry State → Option Nat
  | .consumed n => some n
  | .dropped n => some n
  | _ => none

/-! ## every message is in one place -/

/-- what a step does to the messages: nothing, or one arrives, or one is done -/
inductive Counted (s : Server State Data Call Cast Reply) (cur : List QueuedEvent)
    (entries : List (Entry State)) (s' : Server State Data Call Cast Reply)
    (cur' : List QueuedEvent) : Prop where
  | same (hwaiting : numbers (waiting s' cur') = numbers (waiting s cur))
      (hdone : entries.filterMap Entry.done = []) (harr : s'.arrivals = s.arrivals)
  | arrived (hwaiting : numbers (waiting s' cur') = numbers (waiting s cur) ++ [s.arrivals])
      (hdone : entries.filterMap Entry.done = []) (harr : s'.arrivals = s.arrivals + 1)
  | done {n : Nat} {l₁ l₂ : List Nat} (hwaiting : numbers (waiting s cur) = l₁ ++ n :: l₂)
      (hwaiting' : numbers (waiting s' cur') = l₁ ++ l₂)
      (hdone : entries.filterMap Entry.done = [n]) (harr : s'.arrivals = s.arrivals)

variable {acts settled : List (Entry State)} {new : List QueuedEvent} {x : QueuedEvent}

theorem done_of_timers (h : ∀ x ∈ acts, x.isTimer = true) : acts.filterMap Entry.done = [] := by
  refine List.filterMap_eq_nil_iff.mpr fun x hx => ?_
  have hx := h x hx
  cases x with
  | armed | cancelled => rfl
  | dequeued | dispatched | left | postponed | consumed | dropped | entered => cases hx

theorem numbers_internal (h : ∀ x ∈ new, ∃ payload, x = ⟨.internal, payload, false, none⟩) :
    numbers new = [] := by
  refine numbers_eq_nil fun x hx => ?_
  obtain ⟨payload, rfl⟩ := h x hx
  rfl

theorem numbers_enters (statem : GenStatem State Call Cast) (state : State) :
    numbers (enters statem state) = [] := by
  unfold enters
  split
  · rfl
  · rfl

theorem Settled.counted {pushed : List QueuedEvent} (h : Settled e settled pushed)
    (hdone : entries.filterMap Entry.done = settled.filterMap Entry.done)
    (harr : s'.arrivals = s.arrivals)
    (hwaiting' : numbers (waiting s' []) = numbers s.loop.postponed ++
      (numbers pushed ++ numbers s.loop.internalQueue)) : Counted s [e] entries s' [] := by
  have hwaiting := numbers_waiting s [e]
  cases h with
  | unnumbered hn =>
    have hnil : numbers [e] = [] := numbers_eq_nil fun x hx => List.mem_singleton.mp hx ▸ hn
    refine .same ?_ hdone harr
    rw [hwaiting', hwaiting, hnil]
    rfl
  | consumed hn | dropped hn =>
    have hone : numbers [e] = [_] := List.filterMap_cons_some hn
    refine .done ?_ hwaiting' hdone harr
    rw [hwaiting, hone]
    rfl
  | postponed hn =>
    refine .same ?_ hdone harr
    rw [hwaiting', hwaiting]

theorem Moved.counted (h : Moved statem s cur entries s' cur') :
    Counted s cur entries s' cur' := by
  cases h with
  | still hpost hqueue harr hidle =>
    refine .same ?_ rfl harr
    rw [waiting, waiting, hpost, hqueue]
  | popped hpost hqueue harr =>
    refine .same ?_ rfl harr
    rw [waiting, waiting, hpost, hqueue]
    rfl
  | fired hpost hqueue hqueue' harr =>
    refine .same ?_ rfl harr
    rw [numbers_waiting, numbers_waiting, hpost, hqueue, hqueue']
    rfl
  | received htype hpost hqueue hqueue' harr =>
    refine .arrived ?_ rfl harr
    rw [numbers_waiting, numbers_waiting, hpost, hqueue, hqueue']
    show _ ++ [s.arrivals] = _ ++ [] ++ [s.arrivals]
    rw [List.append_nil]
  | finished hacts hsettled hnew hpost hqueue harr =>
    refine hsettled.counted ?_ harr ?_
    · rw [List.filterMap_append, done_of_timers hacts, List.nil_append]
    · rw [numbers_waiting, hpost, hqueue, numbers_append, numbers_append, numbers_internal hnew,
        List.append_nil, List.append_assoc]
      rfl
  | changed hacts hsettled hnew hpost hqueue harr hphase =>
    refine hsettled.counted ?_ harr ?_
    · rw [List.filterMap_append, List.filterMap_append, List.filterMap_append,
        done_of_timers hacts]
      exact List.append_nil _
    · rw [numbers_waiting, hpost, hqueue, numbers_append, numbers_append, numbers_append,
        numbers_append, numbers_enters, numbers_internal hnew, List.append_nil, List.append_assoc]
      rfl

/-- the messages that are not done are in the order of their arrival, and with those that are done
they are all that arrived -/
structure Accounted (s : Server State Data Call Cast Reply) (cur : List QueuedEvent)
    (log : List (Entry State)) : Prop where
  ordered : (numbers (waiting s cur)).Pairwise (· < ·)
  accounted : (numbers (waiting s cur) ++ log.filterMap Entry.done).Perm (List.range s.arrivals)

theorem Accounted.lt (h : Accounted s cur log) (hn : n ∈ numbers (waiting s cur)) :
    n < s.arrivals :=
  List.mem_range.mp (h.accounted.mem_iff.mp (List.mem_append_left _ hn))

theorem Accounted.step (h : Accounted s cur log) (hm : Moved statem s cur entries s' cur') :
    Accounted s' cur' (log ++ entries) := by
  cases hm.counted with
  | same hwaiting hdone harr =>
    refine ⟨?_, ?_⟩
    · rw [hwaiting]
      exact h.ordered
    · rw [hwaiting, List.filterMap_append, hdone, List.append_nil, harr]
      exact h.accounted
  | arrived hwaiting hdone harr =>
    refine ⟨?_, ?_⟩
    · rw [hwaiting]
      refine List.pairwise_append.mpr ⟨h.ordered, List.pairwise_singleton _ _, fun a ha b hb => ?_⟩
      rw [List.mem_singleton.mp hb]
      exact h.lt ha
    · rw [hwaiting, List.filterMap_append, hdone, List.append_nil, harr, List.range_succ]
      refine List.Perm.trans ?_ (h.accounted.append_right [s.arrivals])
      rw [List.append_assoc, List.append_assoc]
      exact List.perm_append_comm.append_left _
  | done hwaiting hwaiting' hdone harr =>
    refine ⟨?_, ?_⟩
    · rw [hwaiting']
      have hordered := h.ordered
      rw [hwaiting] at hordered
      exact hordered.sublist ((List.sublist_cons_self _ _).append_left _)
    · have hperm := h.accounted
      rw [hwaiting] at hperm
      rw [hwaiting', List.filterMap_append, hdone, harr]
      refine List.Perm.trans ?_ hperm
      rw [← List.append_assoc]
      refine List.perm_append_comm.trans ?_
      rw [List.append_assoc _ _ (log.filterMap Entry.done), List.append_assoc,
        List.singleton_append, List.cons_append]
      exact List.perm_middle.symm

/-! ## an event that has a number is the message that was dequeued -/

def Entry.isResult : Entry State → Bool
  | .dequeued _ => false
  | .dispatched _ => false
  | _ => true

theorem Settled.isResult {pushed : List QueuedEvent} (h : Settled e settled pushed) :
    ∀ x ∈ settled, x.isResult = true := by
  intro x hx
  cases h with
  | unnumbered => cases hx
  | consumed | dropped | postponed =>
    rw [List.mem_singleton.mp hx]
    rfl

theorem isResult_of_isTimer {x : Entry State} (h : x.isTimer = true) : x.isResult = true := by
  cases x with
  | armed | cancelled => rfl
  | dequeued | dispatched | left | postponed | consumed | dropped | entered => cases h

theorem isResult_finished {pushed : List QueuedEvent} (hacts : ∀ x ∈ acts, x.isTimer = true)
    (hsettled : Settled e settled pushed) : ∀ x ∈ acts ++ settled, x.isResult = true := by
  intro x hx
  rcases List.mem_append.mp hx with hx | hx
  · exact isResult_of_isTimer (hacts x hx)
  · exact hsettled.isResult x hx

theorem isResult_changed {state : State} {results : List (Entry State)}
    (h : ∀ x ∈ results, x.isResult = true) :
    ∀ x ∈ [Entry.left state] ++ results ++ [Entry.entered], x.isResult = true := by
  intro x hx
  rcases List.mem_append.mp hx with hx | hx
  · rcases List.mem_append.mp hx with hx | hx
    · rw [List.mem_singleton.mp hx]
      rfl
    · exact h x hx
  · rw [List.mem_singleton.mp hx]
    rfl

theorem Moved.arrivals_le (h : Moved statem s cur entries s' cur') : s.arrivals ≤ s'.arrivals := by
  cases h.counted with
  | same _ _ harr | done _ _ _ harr => exact Nat.le_of_eq harr.symm
  | arrived _ _ harr => exact harr ▸ Nat.le_succ _

theorem Moved.dequeued (h : Moved statem s cur entries s' cur') (he : Entry.dequeued e ∈ entries) :
    (e.WellFormed ∧ e.number = some s.arrivals ∧ s'.arrivals = s.arrivals + 1) ∧
      entries = [.dequeued e, .dispatched e] ∧ s.loop.internalQueue = [] := by
  cases h with
  | still => cases he
  | popped | fired => cases List.mem_singleton.mp he
  | received htype hpost hqueue hqueue' harr =>
    rcases List.mem_cons.mp he with he | he
    · cases he
      exact ⟨⟨⟨rfl, htype⟩, rfl, harr⟩, rfl, hqueue⟩
    · cases List.mem_singleton.mp he
  | finished hacts hsettled => cases isResult_finished hacts hsettled _ he
  | changed hacts hsettled => cases isResult_changed (isResult_finished hacts hsettled) _ he

theorem Moved.dispatched (h : Moved statem s cur entries s' cur')
    (he : Entry.dispatched e ∈ entries) :
    e ∈ waiting s cur ∨ (e.WellFormed ∧ e.number = none) ∨ Entry.dequeued e ∈ entries := by
  cases h with
  | still => cases he
  | popped hpost hqueue harr =>
    cases List.mem_singleton.mp he
    refine Or.inl (List.mem_append_right _ ?_)
    rw [hqueue]
    exact List.mem_cons_self
  | fired =>
    cases List.mem_singleton.mp he
    exact Or.inr (Or.inl ⟨wellFormed_timeout _ _, rfl⟩)
  | received =>
    rcases List.mem_cons.mp he with he | he
    · cases he
    · cases List.mem_singleton.mp he
      exact Or.inr (Or.inr List.mem_cons_self)
  | finished hacts hsettled => cases isResult_finished hacts hsettled _ he
  | changed hacts hsettled => cases isResult_changed (isResult_finished hacts hsettled) _ he

theorem Settled.pushed {pushed : List QueuedEvent} (h : Settled e settled pushed) (hx : x ∈ pushed) :
    x = e ∧ ∃ n, e.number = some n ∧ settled = [.postponed n] := by
  cases h with
  | unnumbered | consumed | dropped => cases hx
  | postponed hn => exact ⟨List.mem_singleton.mp hx, _, hn, rfl⟩

theorem Settled.isMessage {pushed : List QueuedEvent} (h : Settled e settled pushed)
    (he : e.WellFormed) (hx : x ∈ pushed) : x.eventType.isMessage = true := by
  obtain ⟨rfl, n, hn, -⟩ := h.pushed hx
  rw [he.message, hn]
  rfl

theorem Settled.mem {post pushed queue : List QueuedEvent} (h : Settled e settled pushed)
    (hnew : ∀ x ∈ new, ∃ payload, x = ⟨.internal, payload, false, none⟩)
    (hx : x ∈ post ++ pushed ++ (queue ++ new)) :
    x ∈ post ++ ([e] ++ queue) ∨ (x.WellFormed ∧ x.number = none) := by
  rcases List.mem_append.mp hx with hx | hx
  · rcases List.mem_append.mp hx with hx | hx
    · exact Or.inl (List.mem_append_left _ hx)
    · rw [(h.pushed hx).1]
      exact Or.inl (List.mem_append_right _ List.mem_cons_self)
  · rcases List.mem_append.mp hx with hx | hx
    · exact Or.inl (List.mem_append_right _ (List.mem_cons_of_mem _ hx))
    · obtain ⟨payload, rfl⟩ := hnew x hx
      exact Or.inr ⟨wellFormed_internal payload, rfl⟩

theorem mem_enters {state : State} (he : e ∈ enters statem state) :
    statem.stateEnter = true ∧ e = enterEvent (statem.debug state) := by
  unfold enters at he
  split at he
  next hon => exact ⟨hon, List.mem_singleton.mp he⟩
  next => cases he

theorem Moved.waiting (h : Moved statem s cur entries s' cur') (he : e ∈ waiting s' cur') :
    e ∈ Statem.waiting s cur ∨ (e.WellFormed ∧ e.number = none) ∨ Entry.dequeued e ∈ entries := by
  unfold Statem.waiting at he ⊢
  cases h with
  | still hpost hqueue harr hidle =>
    rw [hpost, hqueue] at he
    exact Or.inl he
  | popped hpost hqueue harr =>
    rw [hpost] at he
    rw [hqueue]
    exact Or.inl he
  | fired hpost hqueue hqueue' harr =>
    rw [hpost, hqueue'] at he
    rcases List.mem_append.mp he with he | he
    · exact Or.inl (List.mem_append_left _ he)
    · cases List.mem_singleton.mp he
      exact Or.inr (Or.inl ⟨wellFormed_timeout _ _, rfl⟩)
  | received htype hpost hqueue hqueue' harr =>
    rw [hpost, hqueue'] at he
    rcases List.mem_append.mp he with he | he
    · exact Or.inl (List.mem_append_left _ he)
    · cases List.mem_singleton.mp he
      exact Or.inr (Or.inr List.mem_cons_self)
  | finished hacts hsettled hnew hpost hqueue harr =>
    rw [hpost, hqueue, List.nil_append] at he
    exact (hsettled.mem hnew he).imp_right Or.inl
  | changed hacts hsettled hnew hpost hqueue harr hphase =>
    rw [hpost, hqueue, List.nil_append, List.nil_append] at he
    rcases List.mem_append.mp he with he | he
    · rw [(mem_enters he).2]
      exact Or.inr (Or.inl ⟨wellFormed_enter _, rfl⟩)
    · exact (hsettled.mem hnew he).imp_right Or.inl

theorem Moved.dropped (h : Moved statem s cur entries s' cur') (hn : Entry.dropped n ∈ entries) :
    ∃ e ∈ Statem.waiting s cur, e.number = some n ∧ ∃ tx, e.eventType = .call tx := by
  have hfinished : ∀ {e : QueuedEvent} {acts settled : List (Entry State)}
      {pushed : List QueuedEvent}, (∀ x ∈ acts, x.isTimer = true) → Settled e settled pushed →
        Entry.dropped n ∈ acts ++ settled → e.number = some n ∧ ∃ tx, e.eventType = .call tx := by
    intro e acts settled pushed hacts hsettled hn
    rcases List.mem_append.mp hn with hn | hn
    · cases hacts _ hn
    · cases hsettled with
      | unnumbered => cases hn
      | consumed | postponed => cases List.mem_singleton.mp hn
      | dropped he hcall =>
        cases List.mem_singleton.mp hn
        exact ⟨he, _, hcall⟩
  cases h with
  | still => cases hn
  | popped | fired => cases List.mem_singleton.mp hn
  | received =>
    rcases List.mem_cons.mp hn with hn | hn
    · cases hn
    · cases List.mem_singleton.mp hn
  | finished hacts hsettled =>
    exact ⟨_, List.mem_append_right _ List.mem_cons_self, hfinished hacts hsettled hn⟩
  | changed hacts hsettled =>
    refine ⟨_, List.mem_append_right _ List.mem_cons_self, hfinished hacts hsettled ?_⟩
    rcases List.mem_append.mp hn with hn | hn
    · rcases List.mem_append.mp hn with hn | hn
      · cases List.mem_singleton.mp hn
      · exact hn
    · cases List.mem_singleton.mp hn

/-- the events with a number are the messages that were dequeued, one for each number -/
structure Genuine (s : Server State Data Call Cast Reply) (cur : List QueuedEvent)
    (log : List (Entry State)) : Prop where
  wellFormed : ∀ e ∈ waiting s cur, e.WellFormed
  waiting : ∀ e ∈ waiting s cur, e.number.isSome = true → Entry.dequeued e ∈ log
  dispatched : ∀ e, Entry.dispatched e ∈ log →
    e.WellFormed ∧ (e.number.isSome = true → Entry.dequeued e ∈ log)
  numbered : ∀ e, Entry.dequeued e ∈ log → ∃ n, e.number = some n ∧ n < s.arrivals
  unique : ∀ e e', Entry.dequeued e ∈ log → Entry.dequeued e' ∈ log → e.number = e'.number → e = e'
  dropped : ∀ n, Entry.dropped n ∈ log →
    ∃ e tx, Entry.dequeued e ∈ log ∧ e.number = some n ∧ e.eventType = .call tx

theorem genuine_new (statem : GenStatem State Call Cast) (state : State) (data : Data) :
    Genuine (.new statem state data : Server State Data Call Cast Reply) [] [] := by
  have hnil : ∀ {x : Entry State}, x ∉ [] := List.not_mem_nil
  refine ⟨fun e he => ?_, fun e he hnum => ?_, fun e he => absurd he hnil,
    fun e he => absurd he hnil, fun e e' he => absurd he hnil, fun n hn => absurd hn hnil⟩
  · rw [(mem_enters he).2]
    exact wellFormed_enter _
  · rw [(mem_enters he).2] at hnum
    cases hnum

theorem Genuine.current (h : Genuine s cur log) : ∀ e ∈ cur, e.WellFormed :=
  fun e he => h.wellFormed e (List.mem_append_right _ (List.mem_append_left _ he))

theorem Genuine.step (h : Genuine s cur log) (hm : Moved statem s cur entries s' cur') :
    Genuine s' cur' (log ++ entries) := by
  have hold : ∀ {x}, x ∈ log → x ∈ log ++ entries := List.mem_append_left _
  -- a message that was dequeued before has a smaller number than one that is dequeued now
  have hnew : ∀ {e e'}, Entry.dequeued e ∈ log → Entry.dequeued e' ∈ entries →
      e.number ≠ e'.number := by
    intro e e' he he' hnum
    obtain ⟨n, hn, hlt⟩ := h.numbered e he
    rw [hn, (hm.dequeued he').1.2.1] at hnum
    cases hnum
    exact Nat.lt_irrefl _ hlt
  refine ⟨fun e he => ?_, fun e he hnum => ?_, fun e he => ?_, fun e he => ?_,
    fun e e' he he' hnum => ?_, fun n hn => ?_⟩
  · rcases hm.waiting he with he | he | he
    · exact h.wellFormed e he
    · exact he.1
    · exact (hm.dequeued he).1.1
  · rcases hm.waiting he with he | he | he
    · exact hold (h.waiting e he hnum)
    · rw [he.2] at hnum
      cases hnum
    · exact List.mem_append_right _ he
  · rcases List.mem_append.mp he with he | he
    · exact (h.dispatched e he).imp_right fun hlog hnum => hold (hlog hnum)
    · rcases hm.dispatched he with he | he | he
      · exact ⟨h.wellFormed e he, fun hnum => hold (h.waiting e he hnum)⟩
      · refine ⟨he.1, fun hnum => ?_⟩
        rw [he.2] at hnum
        cases hnum
      · exact ⟨(hm.dequeued he).1.1, fun _ => List.mem_append_right _ he⟩
  · rcases List.mem_append.mp he with he | he
    · obtain ⟨n, hn, hlt⟩ := h.numbered e he
      exact ⟨n, hn, Nat.lt_of_lt_of_le hlt hm.arrivals_le⟩
    · obtain ⟨-, hn, harr⟩ := (hm.dequeued he).1
      exact ⟨_, hn, harr ▸ Nat.lt_succ_self _⟩
  · rcases List.mem_append.mp he with he | he
    · rcases List.mem_append.mp he' with he' | he'
      · exact h.unique e e' he he' hnum
      · exact absurd hnum (hnew he he')
    · rcases List.mem_append.mp he' with he' | he'
      · exact absurd hnum.symm (hnew he' he)
      · have heq := (hm.dequeued he).2.1.symm.trans (hm.dequeued he').2.1
        cases heq
        rfl
  · rcases List.mem_append.mp hn with hn | hn
    · obtain ⟨e, tx, he, hnum, htx⟩ := h.dropped n hn
      exact ⟨e, tx, hold he, hnum, htx⟩
    · obtain ⟨e, he, hnum, tx, htx⟩ := hm.dropped hn
      exact ⟨e, tx, hold (h.waiting e he (by rw [hnum]; rfl)), hnum, htx⟩

theorem inv_of_moved [BEq State]
    {M : Machine (Server State Data Call Cast Reply) (Event State Data Call Cast Reply)}
    {I : Server State Data Call Cast Reply → List (Entry State) → Prop}
    (hM : M.next = Server.next statem)
    (hstart : ∀ s, M.start s → ∃ state data, s = .new statem state data)
    (h0 : ∀ s, M.start s → I s [])
    (hstep : ∀ s log cur entries s' cur', I s log → s.phase.Handles cur →
      (∀ e ∈ cur, e.WellFormed) → Stepped statem s entries s' →
      Moved statem s cur entries s' cur' → I s' (log ++ entries))
    (h : (M.logged (Server.entries statem)).Reach Machine.Anytime (s, log)) : I s log := by
  have hinv : ∃ cur, s.phase.Handles cur ∧ Genuine s cur log ∧ I s log := by
    refine h.inv_logged (I := fun s log => ∃ cur, s.phase.Handles cur ∧ Genuine s cur log ∧ I s log)
      (fun s hs => ?_) ?_
    · obtain ⟨state, data, rfl⟩ := hstart s hs
      exact ⟨[], .other nofun, genuine_new statem state data, h0 _ hs⟩
    · rintro s log event s' ⟨cur, hcur, hgen, hi⟩ hnext
      rw [hM] at hnext
      have hs := next_cases hnext
      obtain ⟨cur', hcur', hm⟩ := hs.moved hcur hgen.current
      exact ⟨cur', hcur', hgen.step hm, hstep s log cur _ s' cur' hi hcur hgen.current hs hm⟩
  obtain ⟨cur, -, -, hi⟩ := hinv
  exact hi

end Rebar.Statem

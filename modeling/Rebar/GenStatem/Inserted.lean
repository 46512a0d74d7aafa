import Rebar.GenStatem.History

/-!
# Events that a transition inserts

`NextEvent` is documented to put its event at the front of the queue, but the event goes to the end, behind
what waits there, and a change of state puts the postponed events before that.
-/

namespace Rebar.Statem

variable {State Data Call Cast Reply : Type}

/-! ## the order of the queue -/

/-- the elements of `order` leave a queue in this order, whatever else comes and goes -/
def Draining {α : Type} (order queue log : List α) : Prop :=
  ∃ done rest front back, order = done ++ rest ∧ queue = front ++ rest ++ back ∧ done.Sublist log

variable {α : Type} {order queue log : List α}

/-- when nothing has left and nothing else has come, the queue is in this order -/
theorem Draining.eq_of_length (h : Draining order queue []) (hlen : queue.length ≤ order.length) :
    queue = order := by
  obtain ⟨done, rest, front, back, rfl, rfl, hdone⟩ := h
  obtain rfl := List.sublist_nil.mp hdone
  simp only [List.length_append, List.length_nil] at hlen
  obtain rfl : front = [] := List.eq_nil_of_length_eq_zero (by omega)
  obtain rfl : back = [] := List.eq_nil_of_length_eq_zero (by omega)
  simp

theorem Draining.push (h : Draining order queue log) (front back more : List α) :
    Draining order (front ++ queue ++ back) (log ++ more) := by
  obtain ⟨done, rest, front', back', horder, hqueue, hlog⟩ := h
  refine ⟨done, rest, front ++ front', back' ++ back, horder, ?_, hlog.trans (List.sublist_append_left _ _)⟩
  rw [hqueue]
  simp

theorem Draining.pop {a : α} (h : Draining order (a :: queue) log) : Draining order queue (log ++ [a]) := by
  obtain ⟨done, rest, front, back, horder, hqueue, hlog⟩ := h
  have hgrow : done.Sublist (log ++ [a]) := hlog.trans (List.sublist_append_left _ _)
  cases front with
  | cons b front =>
    cases hqueue
    exact ⟨done, rest, front, back, horder, rfl, hgrow⟩
  | nil =>
    cases rest with
    | nil => exact ⟨done, [], [], queue, horder, rfl, hgrow⟩
    | cons b rest =>
      cases hqueue
      refine ⟨done ++ [a], rest, [], back, ?_, rfl, hlog.append (List.Sublist.refl [a])⟩
      rw [horder, List.append_assoc]
      rfl

def dispatches (log : List (Entry State)) : List QueuedEvent := log.filterMap Entry.dispatch

variable {statem : GenStatem State Call Cast} {s s' : Server State Data Call Cast Reply}

/-- **The queue is served from the front**, and nothing is ever put between two events of it. -/
theorem Stepped.draining {entries log : List (Entry State)} {order : List QueuedEvent}
    (hs : Stepped statem s entries s') (h : Draining order s.loop.internalQueue (dispatches log)) :
    Draining order s'.loop.internalQueue (dispatches (log ++ entries)) := by
  have hsame : ∀ more, Draining order s.loop.internalQueue (dispatches log ++ more) := by
    intro more
    simpa using h.push [] [] more
  rw [show dispatches (log ++ entries) = dispatches log ++ dispatches entries from List.filterMap_append]
  cases hs with
  | outside hloop => rw [hloop]; exact hsame _
  | popped hphase hqueue =>
    rw [hqueue] at h
    exact h.pop
  | fired hphase hqueue hfired => cases hfired <;> exact hsame _
  | received hphase hqueue htype hloop => rw [hloop]; exact hsame _
  | closed | stopped | panicked | ended => exact hsame _
  | handled hphase htransition =>
    cases htransition with
    | kept state data now actions =>
      rw [Loop.applyActions_eq]
      dsimp only
      rw [(Loop.foldl_act now actions _).2]
      exact h.push [] _ _
    | changed state data now actions =>
      rw [Loop.applyActions_eq, Loop.replay]
      dsimp only
      rw [(Loop.foldl_act now actions _).2]
      split
      · simpa using h.push (enterEvent _ :: (s.loop.postponed ++ _)) (internals actions) _
      · simpa using h.push (s.loop.postponed ++ _) (internals actions) _

/-! ## a transition -/

def TransitionResult.actions : TransitionResult State Data Reply → List (Action Reply)
  | .nextState _ _ actions => actions
  | .keepState _ actions => actions
  | .keepStateAndData actions => actions
  | _ => []

variable [BEq State]

def TransitionResult.changes (state : State) : TransitionResult State Data Reply → Bool
  | .nextState newState _ _ => state != newState
  | _ => false

/-- the postponed events that the transition replays -/
def Loop.replayed (loop : Loop State Data Reply) (event : InFlight)
    (result : TransitionResult State Data Reply) : List QueuedEvent :=
  if result.changes loop.currentState then
    loop.postponed ++ event.pushed (result.actions.any (·.isPostpone)) else []

/-- the enter event of the transition -/
def Loop.entering (statem : GenStatem State Call Cast) (loop : Loop State Data Reply)
    (result : TransitionResult State Data Reply) : List QueuedEvent :=
  if result.changes loop.currentState && statem.stateEnter then [enterEvent (statem.debug loop.currentState)]
  else []

variable {event : InFlight} {now : Nanos} {data : Data} {result : TransitionResult State Data Reply}

theorem queue_handled (hphase : s.phase = .handling event)
    (hnext : s.next statem (.handled now data result) = some s') :
    s'.loop.internalQueue = s.loop.entering statem result ++ (s.loop.replayed event result ++
      (s.loop.internalQueue ++ internals result.actions)) := by
  unfold Server.next Server.handled at hnext
  rw [hphase] at hnext
  unfold Loop.entering Loop.replayed
  cases result with
  | nextState state newData actions =>
    unfold Loop.handleResult at hnext
    dsimp only at hnext
    rcases Bool.eq_false_or_eq_true
      (TransitionResult.changes s.loop.currentState (.nextState state newData actions)) with hc | hc
    · have hchanged : (s.loop.currentState != state) = true := hc
      rw [if_pos hchanged, if_pos hchanged] at hnext
      cases hnext
      rw [hc, if_pos rfl, Bool.true_and, Loop.applyActions_eq, Loop.replay]
      dsimp only
      rw [(Loop.foldl_act now actions _).2]
      cases statem.stateEnter <;> rfl
    · have hkept : ¬ (s.loop.currentState != state) = true := Bool.not_eq_true _ |>.mpr hc
      rw [if_neg hkept, if_neg hkept] at hnext
      cases hnext
      rw [hc, Loop.applyActions_eq]
      exact (Loop.foldl_act now actions _).2
  | keepState newData actions =>
    cases hnext
    rw [Loop.applyActions_eq]
    exact (Loop.foldl_act now actions _).2
  | keepStateAndData actions =>
    cases hnext
    rw [Loop.applyActions_eq]
    exact (Loop.foldl_act now actions _).2
  | stop | stopAndReply =>
    cases hnext
    exact (List.append_nil _).symm

/-- **Inserted events come first**, in the order of the actions and behind nothing but the enter event,
in every run that goes on, exactly when it makes no difference that they are queued behind the replayed
and the waiting events: for one, if the queue is empty and no postponed event is replayed. -/
theorem nextEvent_first (statem : GenStatem State Call Cast) (s s' : Server State Data Call Cast Reply)
    (event : InFlight) (hphase : s.phase = .handling event) (now : Nanos) (data : Data)
    (result : TransitionResult State Data Reply)
    (hnext : s.next statem (.handled now data result) = some s') :
    (∀ (t : Server State Data Call Cast Reply) (log : List (Entry State)),
      (((statemMachine Data Reply statem).startedAt s').logged (Server.entries statem)).Reach
        Machine.Anytime (t, log) →
      Draining (s.loop.entering statem result ++ (internals result.actions ++
        (s.loop.replayed event result ++ s.loop.internalQueue))) t.loop.internalQueue
        (dispatches log)) ↔
    internals result.actions ++ (s.loop.replayed event result ++ s.loop.internalQueue) =
      s.loop.replayed event result ++ s.loop.internalQueue ++ internals result.actions := by
  have hqueue := queue_handled hphase hnext
  constructor
  · intro hall
    have hstart := Draining.eq_of_length (hall s' [] (.start ⟨rfl, rfl⟩)) (by
      rw [hqueue]
      simp only [List.length_append]
      omega)
    rw [hqueue] at hstart
    rw [List.append_assoc]
    exact (List.append_cancel_left hstart).symm
  · intro horder t log h
    refine h.inv_logged (I := fun t log => Draining _ t.loop.internalQueue (dispatches log)) ?_ ?_
    · rintro t rfl
      refine ⟨[], _, [], [], rfl, ?_, List.nil_sublist _⟩
      rw [hqueue, horder]
      simp
    · intro t log a u ih hn
      exact (next_cases hn).draining ih

private def relay : GenStatem Unit Unit Unit := .plain false fun _ => "()"

/-- the handling of an event returns, and inserts two events -/
private def inserts (a b : Int) : Event Unit Unit Unit Unit Unit :=
  .handled 0 () (.keepStateAndData [.nextEvent (.integer a), .nextEvent (.integer b)])

private def inserted (a : Int) : QueuedEvent := ⟨.internal, .integer a, false, none⟩

private theorem relay_start : (statemMachine Unit Unit relay).Reach Machine.Anytime (.new relay () ()) :=
  .start ⟨(), (), rfl⟩

private def busy : Server Unit Unit Unit Unit Unit :=
  { Server.new relay () () with phase := .handling ⟨.cast, .nil, true, some 0⟩, arrivals := 1 }

/-- a cast is being handled, and inserts two events; the first of them is dispatched -/
theorem nextEvent_first_relayed : ∃ s' t : Server Unit Unit Unit Unit Unit,
    (statemMachine Unit Unit relay).Reach Machine.Anytime busy ∧ busy.next relay (inserts 1 2) = some s' ∧
    s'.next relay (.turn .early) = some t ∧
    Draining [inserted 1, inserted 2] t.loop.internalQueue [inserted 1] := by
  have hbusy := relay_start.run (fun _ _ _ => trivial)
    (show (statemMachine Unit Unit relay).run _ [.cast (), .turn .early] = some busy from rfl)
  obtain ⟨s', hs'⟩ : ∃ s', busy.next relay (inserts 1 2) = some s' := ⟨_, rfl⟩
  refine ⟨s', { s' with
    loop := { s'.loop with internalQueue := [inserted 2] }, phase := .handling (inserted 1).inFlight },
    hbusy, hs', by cases hs'; rfl, ?_⟩
  exact (nextEvent_first relay busy s' _ rfl 0 () _ hs').mpr rfl _ [.dispatched (inserted 1)]
    (.step (s := (s', [])) (a := .turn .early) (.start ⟨rfl, rfl⟩) trivial (by cases hs'; rfl))

/-- a cast has been handled, and the first of the two events that it inserted inserts two more -/
theorem inserted_behind : ∃ s s' t : Server Unit Unit Unit Unit Unit,
    (statemMachine Unit Unit relay).Reach Machine.Anytime s ∧
    s.phase = .handling (inserted 1).inFlight ∧ s.loop.internalQueue = [inserted 2] ∧
    s.next relay (inserts 3 4) = some s' ∧ s'.next relay (.turn .early) = some t ∧
    t.phase = .handling (inserted 2).inFlight ∧ t.loop.internalQueue = [inserted 3, inserted 4] := by
  have hrun := relay_start.run (fun _ _ _ => trivial) (show (statemMachine Unit Unit relay).run _
    [.cast (), .turn .early, inserts 1 2, .turn .early] = some _ from rfl)
  exact ⟨_, _, _, hrun, rfl, rfl, rfl, rfl, rfl, rfl⟩

end Rebar.Statem

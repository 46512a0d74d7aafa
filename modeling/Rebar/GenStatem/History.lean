import Rebar.GenStatem.Engine

/-!
# The history of a state machine

* `Entry`, `Server.entries`   what a step puts into the log: the messages that are dequeued, the
                       events that are dispatched, and what each result does, in the order in which
                       the source does it;
* `QueuedEvent.inFlight`   what is kept of an event while it is handled;
* `Stepped`, `next_cases`   what a step can do.
-/

namespace Rebar.Statem

variable {State Data Call Cast Reply : Type}

/-! ## the log -/

/-- the old state is left before the actions of a result, and the new one is entered, which replays
the postponed events, after the event itself was postponed -/
inductive Entry (State : Type) where
  | dequeued (event : QueuedEvent)
  | dispatched (event : QueuedEvent)
  | left (state : State)
  | armed (kind : TimeoutKind) (payload : Value)
  | cancelled (kind : TimeoutKind)
  | postponed (number : Nat)
  /-- a message whose dispatch did not postpone it -/
  | consumed (number : Nat)
  /-- a call that a result wanted to postpone -/
  | dropped (number : Nat)
  | entered

def Entry.dispatch : Entry State → Option QueuedEvent
  | .dispatched event => some event
  | _ => none

def Action.entry : Action Reply → Option (Entry State)
  | .stateTimeout _ payload => some (.armed .state payload)
  | .eventTimeout _ payload => some (.armed .event payload)
  | .genericTimeout name _ payload => some (.armed (.generic name) payload)
  | .cancelTimeout kind => some (.cancelled kind)
  | _ => none

/-- the event that `handle_event` is called with -/
def QueuedEvent.dispatched (event : QueuedEvent) : Option QueuedEvent :=
  match splitEventType event.eventType with
  | (descriptor, replyTx) =>
    (rebuildEventType descriptor replyTx).map fun eventType => { event with eventType := eventType }

theorem QueuedEvent.dispatched_eq (event : QueuedEvent) : event.dispatched = some event := by
  have h := rebuild_split event.eventType
  unfold QueuedEvent.dispatched
  dsimp only
  rw [h]
  rfl

def InFlight.settled (event : InFlight) (shouldPostpone : Bool) : List (Entry State) :=
  match event.number with
  | none => []
  | some n =>
    if shouldPostpone && event.postponable then
      if event.descriptor = .call then [.dropped n] else [.postponed n]
    else [.consumed n]

def Loop.entries [BEq State] (loop : Loop State Data Reply) (event : InFlight) :
    TransitionResult State Data Reply → List (Entry State)
  | .nextState newState _ actions =>
    let stateChanged := loop.currentState != newState
    (if stateChanged then [Entry.left loop.currentState] else []) ++
      (actions.filterMap (·.entry) ++ event.settled (actions.any (·.isPostpone))) ++
      (if stateChanged then [Entry.entered] else [])
  | .keepState _ actions =>
    actions.filterMap (·.entry) ++ event.settled (actions.any (·.isPostpone))
  | .keepStateAndData actions =>
    actions.filterMap (·.entry) ++ event.settled (actions.any (·.isPostpone))
  | .stop _ _ => event.settled false
  | .stopAndReply _ _ _ => event.settled false

def Server.entries [BEq State] (statem : GenStatem State Call Cast)
    (s : Server State Data Call Cast Reply) : Event State Data Call Cast Reply → List (Entry State)
  | .turn poll =>
    match s.phase, s.take statem poll with
    | .idle, some (_, .event event) =>
      (if s.loop.internalQueue.isEmpty then event.number.toList.map fun _ => .dequeued event
        else []) ++ event.dispatched.toList.map .dispatched
    | _, _ => []
  | .handled _ _ result =>
    match s.phase with
    | .handling event => s.loop.entries event result
    | _ => []
  | .panicked =>
    match s.phase with
    | .handling event => event.settled false
    | _ => []
  | _ => []

/-! ## the event in flight -/

def QueuedEvent.inFlight (event : QueuedEvent) : InFlight :=
  ⟨(splitEventType event.eventType).1, event.payload, event.postponable, event.number⟩

def InFlight.pushed (event : InFlight) (shouldPostpone : Bool) : List QueuedEvent :=
  if shouldPostpone && event.postponable then
    match event.descriptor with
    | .call => []
    | descriptor =>
      ((rebuildEventType descriptor none).map fun eventType =>
        ⟨eventType, event.payload, true, event.number⟩).toList
  else []

def internals (actions : List (Action Reply)) : List QueuedEvent :=
  actions.filterMap fun
    | .nextEvent payload => some ⟨.internal, payload, false, none⟩
    | _ => none

theorem mem_internals {actions : List (Action Reply)} {event : QueuedEvent}
    (h : event ∈ internals actions) : ∃ payload, event = ⟨.internal, payload, false, none⟩ := by
  obtain ⟨action, -, haction⟩ := List.mem_filterMap.mp h
  cases action with
  | nextEvent payload =>
    cases haction
    exact ⟨payload, rfl⟩
  | reply | stateTimeout | eventTimeout | genericTimeout | cancelTimeout | postpone | hibernate =>
    cases haction

namespace Loop
variable {now : Nanos} {event : InFlight} {loop : Loop State Data Reply}
  {actions : List (Action Reply)}

/-- the actions do not touch the postponed list, and internal events go to the end of the queue -/
theorem foldl_act (now : Nanos) (actions : List (Action Reply)) (loop : Loop State Data Reply) :
    (actions.foldl (act now) loop).postponed = loop.postponed ∧
      (actions.foldl (act now) loop).internalQueue = loop.internalQueue ++ internals actions := by
  induction actions generalizing loop with
  | nil => exact ⟨rfl, (List.append_nil _).symm⟩
  | cons action actions ih =>
    rw [List.foldl_cons]
    obtain ⟨hpostponed, hqueue⟩ := ih (loop.act now action)
    rw [hpostponed, hqueue]
    cases action with
    | nextEvent payload => exact ⟨rfl, List.append_assoc _ _ _⟩
    | cancelTimeout kind => cases kind <;> exact ⟨rfl, rfl⟩
    | reply | stateTimeout | eventTimeout | genericTimeout | postpone | hibernate =>
      exact ⟨rfl, rfl⟩

theorem postponeEvent_eq (loop : Loop State Data Reply) (event : InFlight)
    (hpost : event.postponable = true) :
    loop.postponeEvent event = { loop with postponed := loop.postponed ++ event.pushed true } := by
  unfold postponeEvent InFlight.pushed
  rw [hpost, Bool.true_and, if_pos rfl]
  cases event.descriptor with
  | call => rw [List.append_nil]
  | cast | info | stateTimeout | timeout | eventTimeout | internal | enter => rfl

theorem applyActions_eq (now : Nanos) (event : InFlight) (loop : Loop State Data Reply)
    (actions : List (Action Reply)) :
    loop.applyActions now event actions = { actions.foldl (act now) loop with
      postponed := loop.postponed ++ event.pushed (actions.any (·.isPostpone)) } := by
  obtain ⟨hpostponed, -⟩ := foldl_act now actions loop
  unfold applyActions processActions
  dsimp only
  split
  next hboth =>
    obtain ⟨hasked, hpost⟩ := Bool.and_eq_true_iff.mp hboth
    rw [postponeEvent_eq _ _ hpost, hpostponed, hasked]
  next hnot =>
    rw [InFlight.pushed, if_neg hnot, List.append_nil, ← hpostponed]

end Loop

/-! ## what a step can do -/

def TimeoutKind.eventType : TimeoutKind → EventType
  | .state => .stateTimeout
  | .event => .eventTimeout
  | .generic name => .timeout name

def timeoutEvent (kind : TimeoutKind) (payload : Value) : QueuedEvent :=
  ⟨kind.eventType, payload, false, none⟩

def EventType.isMessage : EventType → Bool
  | .call _ => true
  | .cast => true
  | .info => true
  | _ => false

def Server.message (s : Server State Data Call Cast Reply) (eventType : EventType)
    (payload : Value) : QueuedEvent :=
  ⟨eventType, payload, true, some s.arrivals⟩

inductive Fired (loop : Loop State Data Reply) :
    TimeoutKind → Value → Loop State Data Reply → Prop where
  | state {t : ActiveTimeout} (ht : loop.stateTimeout = some t) :
      Fired loop .state t.payload { loop with stateTimeout := none }
  | event {t : ActiveTimeout} (ht : loop.eventTimeout = some t) :
      Fired loop .event t.payload { loop with eventTimeout := none }
  | generic {name : String} {t : ActiveTimeout} (ht : loop.genericTimeouts.lookup name = some t) :
      Fired loop (.generic name) t.payload
        { loop with genericTimeouts := loop.genericTimeouts.erase name }

inductive Transition (statem : GenStatem State Call Cast) (event : InFlight)
    (loop : Loop State Data Reply) : List (Entry State) → Loop State Data Reply → Prop where
  | kept (state : State) (data : Data) (now : Nanos) (actions : List (Action Reply)) :
      Transition statem event loop
        (actions.filterMap (·.entry) ++ event.settled (actions.any (·.isPostpone)))
        ({ loop with currentState := state, data := data }.applyActions now event actions)
  | changed (state : State) (data : Data) (now : Nanos) (actions : List (Action Reply)) :
      Transition statem event loop
        ([Entry.left loop.currentState] ++ (actions.filterMap (·.entry) ++
          event.settled (actions.any (·.isPostpone))) ++ [Entry.entered])
        (({ loop with currentState := state, data := data, stateTimeout := none }.applyActions
          now event actions).replay statem (statem.debug loop.currentState))

inductive Stepped (statem : GenStatem State Call Cast) (s : Server State Data Call Cast Reply) :
    List (Entry State) → Server State Data Call Cast Reply → Prop where
  | outside {s' : Server State Data Call Cast Reply} (hloop : s'.loop = s.loop)
      (hphase : s'.phase = s.phase) (harrivals : s'.arrivals = s.arrivals) :
      Stepped statem s [] s'
  | popped {event : QueuedEvent} {queue : List QueuedEvent} (hphase : s.phase = .idle)
      (hqueue : s.loop.internalQueue = event :: queue) :
      Stepped statem s [.dispatched event] { s with
        loop := { s.loop with internalQueue := queue }
        phase := .handling event.inFlight }
  | fired {kind : TimeoutKind} {payload : Value} {loop : Loop State Data Reply}
      (hphase : s.phase = .idle) (hqueue : s.loop.internalQueue = [])
      (hfired : Fired s.loop kind payload loop) :
      Stepped statem s [.dispatched (timeoutEvent kind payload)] { s with
        loop := loop
        phase := .handling (timeoutEvent kind payload).inFlight }
  | received {s' : Server State Data Call Cast Reply} {eventType : EventType} {payload : Value}
      (hphase : s.phase = .idle) (hqueue : s.loop.internalQueue = [])
      (htype : eventType.isMessage = true)
      (hloop : s'.loop = { s.loop with eventTimeout := none })
      (hphase' : s'.phase = .handling (s.message eventType payload).inFlight)
      (harrivals : s'.arrivals = s.arrivals + 1) :
      Stepped statem s [.dequeued (s.message eventType payload),
        .dispatched (s.message eventType payload)] s'
  | closed (hphase : s.phase = .idle) (hqueue : s.loop.internalQueue = []) :
      Stepped statem s [] { s with phase := .terminating .normal }
  | handled {event : InFlight} {entries : List (Entry State)} {loop : Loop State Data Reply}
      (hphase : s.phase = .handling event) (h : Transition statem event s.loop entries loop) :
      Stepped statem s entries { s with loop := loop, phase := .idle }
  | stopped {event : InFlight} (hphase : s.phase = .handling event) (data : Data)
      (replies : List (ReplyTx × Reply)) (reason : ExitReason) :
      Stepped statem s (event.settled false) { s with
        loop := { s.loop with data := data, replies := replies }
        phase := .terminating reason }
  | panicked {event : InFlight} (hphase : s.phase = .handling event) :
      Stepped statem s (event.settled false) { s with phase := .ended }
  | ended {reason : ExitReason} (hphase : s.phase = .terminating reason) :
      Stepped statem s [] { s with phase := .ended }

theorem lookup_of_earliest {timeouts : HashMap String ActiveTimeout} {names : List String}
    {name : String} {t : ActiveTimeout} (h : earliest timeouts names = some (name, t)) :
    timeouts.lookup name = some t := by
  induction names with
  | nil => cases h
  | cons first names ih =>
    unfold earliest at h
    split at h
    next t₁ name₂ t₂ hfirst hrest =>
      split at h
      next =>
        cases h
        exact hfirst
      next =>
        cases h
        exact ih hrest
    next t₁ hfirst hrest =>
      cases h
      exact hfirst
    next => exact ih h

section
variable {statem : GenStatem State Call Cast} {s s' : Server State Data Call Cast Reply}
  {poll : Poll} {taken : Taken}

theorem dispatchEvent_eq (s : Server State Data Call Cast Reply) (event : QueuedEvent) :
    s.dispatchEvent event = { s with phase := .handling event.inFlight } := by
  have h := rebuild_split event.eventType
  unfold Server.dispatchEvent
  dsimp only
  rw [h]
  rfl

inductive Selected (s : Server State Data Call Cast Reply) :
    Server State Data Call Cast Reply × Taken → Prop where
  | fired {kind : TimeoutKind} {payload : Value} {loop : Loop State Data Reply}
      (h : Fired s.loop kind payload loop) :
      Selected s ({ s with loop := loop }, .event (timeoutEvent kind payload))
  | received {s' : Server State Data Call Cast Reply} {eventType : EventType} {payload : Value}
      (htype : eventType.isMessage = true)
      (hloop : s'.loop = { s.loop with eventTimeout := none })
      (harrivals : s'.arrivals = s.arrivals + 1) :
      Selected s (s', .event (s.message eventType payload))
  | closed : Selected s (s, .closed)

theorem receive_cases {r : Server State Data Call Cast Reply × Taken}
    (h : s.receive statem = some r) : Selected s r := by
  revert h
  fun_cases Server.receive statem s <;> intro h <;> cases h
  next => exact .closed
  next => exact .received rfl rfl rfl
  next => exact .closed
  next => exact .received rfl rfl rfl
  next => exact .closed
  next => exact .received rfl rfl rfl

theorem select_cases {r : Server State Data Call Cast Reply × Taken}
    (h : s.select statem poll = some r) : Selected s r := by
  revert h
  fun_cases Server.select statem s poll <;> intro h <;> try cases h
  next ht => exact .fired (.state (Option.filter_eq_some_iff.mp ht).1)
  next ht => exact .fired (.event (Option.filter_eq_some_iff.mp ht).1)
  next ht _ => exact .fired (.generic (lookup_of_earliest (Option.filter_eq_some_iff.mp ht).1))
  next => exact receive_cases h

variable [BEq State]

theorem turn_cases (h : s.turn statem poll = some s') :
    Stepped statem s (s.entries statem (.turn poll)) s' := by
  unfold Server.turn at h
  unfold Server.entries
  split at h
  next hphase =>
    obtain ⟨⟨s₁, taken⟩, htake, h⟩ := Option.map_eq_some_iff.mp h
    dsimp only
    rw [hphase, htake]
    unfold Server.take at htake
    split at htake
    next event queue hqueue =>
      cases htake
      dsimp only at h ⊢
      rw [dispatchEvent_eq] at h
      rw [hqueue, event.dispatched_eq, ← h]
      exact .popped hphase hqueue
    next hqueue =>
      rw [hqueue]
      cases select_cases htake with
      | fired hfired =>
        dsimp only at h ⊢
        rw [dispatchEvent_eq] at h
        rw [QueuedEvent.dispatched_eq, ← h]
        exact .fired hphase hqueue hfired
      | received htype hloop harrivals =>
        dsimp only at h ⊢
        rw [dispatchEvent_eq] at h
        rw [QueuedEvent.dispatched_eq, ← h]
        exact .received hphase hqueue htype hloop rfl harrivals
      | closed =>
        rw [← h]
        exact .closed hphase hqueue
  next => cases h

theorem handled_cases {now : Nanos} {data : Data} {result : TransitionResult State Data Reply}
    (h : s.handled statem now data result = some s') :
    Stepped statem s (s.entries statem (.handled now data result)) s' := by
  unfold Server.handled at h
  unfold Server.entries
  split at h
  next event hphase =>
    rw [hphase]
    cases result with
    | nextState newState newData actions =>
      unfold Loop.handleResult at h
      unfold Loop.entries
      dsimp only at h ⊢
      cases hchanged : s.loop.currentState != newState with
      | false =>
        rw [hchanged] at h
        cases h
        rw [if_neg Bool.false_ne_true, if_neg Bool.false_ne_true, List.nil_append,
          List.append_nil]
        exact .handled hphase (.kept newState newData now actions)
      | true =>
        rw [hchanged] at h
        cases h
        exact .handled hphase (.changed newState newData now actions)
    | keepState newData actions =>
      cases h
      exact .handled hphase (.kept s.loop.currentState newData now actions)
    | keepStateAndData actions =>
      cases h
      exact .handled hphase (.kept s.loop.currentState data now actions)
    | stop reason newData =>
      cases h
      exact .stopped hphase newData s.loop.replies reason
    | stopAndReply reason newData replies =>
      cases h
      exact .stopped hphase newData (s.loop.replies ++ replies) reason
  next => cases h

theorem next_cases {event : Event State Data Call Cast Reply} (h : s.next statem event = some s') :
    Stepped statem s (s.entries statem event) s' := by
  revert h
  fun_cases Server.next statem s event <;> intro h <;> try cases h
  -- a client sends, or drops its end of a channel
  iterate 6 exact .outside rfl rfl rfl
  next => exact turn_cases h
  next => exact handled_cases h
  next hphase =>
    rw [Server.entries, hphase]
    exact .panicked hphase
  next hphase =>
    rw [Server.entries, hphase]
    exact .ended hphase
  next hphase => exact .ended hphase

end

end Rebar.Statem

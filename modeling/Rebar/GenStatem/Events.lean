import Rebar.GenStatem.History

/-!
# The events of a state machine

An event waits in the postponed list or in the internal queue, or is being handled.
-/

namespace Rebar.Statem

variable {State Data Call Cast Reply : Type} {statem : GenStatem State Call Cast}
  {s s' : Server State Data Call Cast Reply} {cur : List QueuedEvent} {e : QueuedEvent}
  {entries : List (Entry State)}

/-! ## events -/

def numbers (events : List QueuedEvent) : List Nat := events.filterMap (·.number)

theorem numbers_append (l₁ l₂ : List QueuedEvent) :
    numbers (l₁ ++ l₂) = numbers l₁ ++ numbers l₂ := List.filterMap_append

theorem numbers_eq_nil {events : List QueuedEvent} (h : ∀ e ∈ events, e.number = none) :
    numbers events = [] := List.filterMap_eq_nil_iff.mpr h

theorem mem_numbers {events : List QueuedEvent} {n : Nat} (he : e ∈ events)
    (hn : e.number = some n) : n ∈ numbers events := List.mem_filterMap.mpr ⟨e, he, hn⟩

/-- messages have a number and can be postponed, other events neither -/
structure QueuedEvent.WellFormed (e : QueuedEvent) : Prop where
  postponable : e.postponable = e.number.isSome
  message : e.eventType.isMessage = e.number.isSome

theorem wellFormed_timeout (kind : TimeoutKind) (payload : Value) :
    (timeoutEvent kind payload).WellFormed := by
  cases kind <;> exact ⟨rfl, rfl⟩

theorem wellFormed_enter (name : String) : (enterEvent name).WellFormed := ⟨rfl, rfl⟩

theorem wellFormed_internal (payload : Value) :
    (⟨.internal, payload, false, none⟩ : QueuedEvent).WellFormed := ⟨rfl, rfl⟩

/-! ## the end of a handling -/

/-- what the end of its handling does to an event: what goes into the log and onto the list -/
inductive Settled (e : QueuedEvent) : List (Entry State) → List QueuedEvent → Prop where
  | unnumbered (hn : e.number = none) : Settled e [] []
  | consumed {n : Nat} (hn : e.number = some n) : Settled e [.consumed n] []
  | dropped {n : Nat} {tx : ReplyTx} (hn : e.number = some n) (hcall : e.eventType = .call tx) :
      Settled e [.dropped n] []
  | postponed {n : Nat} (hn : e.number = some n) : Settled e [.postponed n] [e]

theorem pushed_inFlight (hpost : e.postponable = true) (hmsg : e.eventType.isMessage = true)
    (hcall : ∀ tx, e.eventType ≠ .call tx) : e.inFlight.pushed true = [e] := by
  obtain ⟨eventType, payload, postponable, number⟩ := e
  cases hpost
  cases eventType with
  | call tx => exact absurd rfl (hcall tx)
  | cast | info => rfl
  | stateTimeout | timeout | eventTimeout | internal | enter => cases hmsg

theorem settled_cases (h : e.WellFormed) (shouldPostpone : Bool) :
    Settled e (e.inFlight.settled shouldPostpone : List (Entry State))
      (e.inFlight.pushed shouldPostpone) := by
  have hpost := h.postponable
  have hnumber : e.inFlight.number = e.number := rfl
  have hable : e.inFlight.postponable = e.postponable := rfl
  cases hn : e.number with
  | none =>
    rw [hn] at hpost
    rw [InFlight.settled, InFlight.pushed, hnumber, hn, hable, hpost, Option.isSome_none,
      Bool.and_false]
    exact .unnumbered hn
  | some n =>
    rw [hn] at hpost
    cases shouldPostpone with
    | false =>
      rw [InFlight.settled, hnumber, hn]
      exact .consumed hn
    | true =>
      rw [InFlight.settled, hnumber, hn]
      dsimp only
      rw [hable, hpost, Option.isSome_some, Bool.and_self, if_pos rfl]
      by_cases hcall : ∃ tx, e.eventType = .call tx
      · obtain ⟨tx, htx⟩ := hcall
        have hdesc : e.inFlight.descriptor = .call := by
          rw [QueuedEvent.inFlight, htx]
          rfl
        rw [InFlight.pushed, hdesc, hable, hpost]
        exact .dropped hn htx
      · have hno : ∀ tx, e.eventType ≠ .call tx := fun tx htx => hcall ⟨tx, htx⟩
        have hdesc : e.inFlight.descriptor ≠ .call := by
          intro hdesc
          cases ht : e.eventType with
          | call tx => exact hno tx ht
          | cast | info | stateTimeout | timeout | eventTimeout | internal | enter =>
            rw [QueuedEvent.inFlight, ht] at hdesc
            cases hdesc
        have hmsg : e.eventType.isMessage = true := by
          rw [h.message, hn]
          rfl
        rw [if_neg hdesc, pushed_inFlight hpost hmsg hno]
        exact .postponed hn

/-! ## the event in flight -/

inductive Phase.Handles : Phase → List QueuedEvent → Prop where
  | handling (e : QueuedEvent) : Handles (.handling e.inFlight) [e]
  | other {phase : Phase} (h : ∀ event, phase ≠ .handling event) : Handles phase []

theorem Phase.Handles.of_handling {event : InFlight} (h : Phase.Handles (.handling event) cur) :
    ∃ e, cur = [e] ∧ event = e.inFlight := by
  cases h with
  | handling e => exact ⟨e, rfl, rfl⟩
  | other hno => exact absurd rfl (hno event)

theorem Phase.Handles.eq_nil {phase : Phase} (h : phase.Handles cur)
    (hno : ∀ event, phase ≠ .handling event) : cur = [] := by
  cases h with
  | handling e => exact absurd rfl (hno _)
  | other => rfl

/-! ## the moves of the events -/

def Entry.isTimer : Entry State → Bool
  | .armed _ _ => true
  | .cancelled _ => true
  | _ => false

theorem isTimer_of_entry {actions : List (Action Reply)} {x : Entry State}
    (h : x ∈ actions.filterMap (·.entry)) : x.isTimer = true := by
  obtain ⟨action, -, haction⟩ := List.mem_filterMap.mp h
  cases action with
  | stateTimeout | eventTimeout | genericTimeout | cancelTimeout =>
    cases haction
    rfl
  | reply | postpone | nextEvent | hibernate => cases haction

def enters (statem : GenStatem State Call Cast) (state : State) : List QueuedEvent :=
  if statem.stateEnter then [enterEvent (statem.debug state)] else []

/-- a step, by what it does to the events; `cur` is the one in flight -/
inductive Moved (statem : GenStatem State Call Cast) (s : Server State Data Call Cast Reply) :
    List QueuedEvent → List (Entry State) → Server State Data Call Cast Reply →
    List QueuedEvent → Prop where
  | still {cur : List QueuedEvent} {s' : Server State Data Call Cast Reply}
      (hpost : s'.loop.postponed = s.loop.postponed)
      (hqueue : s'.loop.internalQueue = s.loop.internalQueue) (harr : s'.arrivals = s.arrivals)
      (hidle : s.phase = .idle → s.loop.internalQueue ≠ [] → s'.phase = .idle) :
      Moved statem s cur [] s' cur
  | popped {e : QueuedEvent} {s' : Server State Data Call Cast Reply}
      (hpost : s'.loop.postponed = s.loop.postponed)
      (hqueue : s.loop.internalQueue = e :: s'.loop.internalQueue)
      (harr : s'.arrivals = s.arrivals) : Moved statem s [] [.dispatched e] s' [e]
  | fired {kind : TimeoutKind} {payload : Value} {s' : Server State Data Call Cast Reply}
      (hpost : s'.loop.postponed = s.loop.postponed) (hqueue : s.loop.internalQueue = [])
      (hqueue' : s'.loop.internalQueue = []) (harr : s'.arrivals = s.arrivals) :
      Moved statem s [] [.dispatched (timeoutEvent kind payload)] s' [timeoutEvent kind payload]
  | received {eventType : EventType} {payload : Value} {s' : Server State Data Call Cast Reply}
      (htype : eventType.isMessage = true) (hpost : s'.loop.postponed = s.loop.postponed)
      (hqueue : s.loop.internalQueue = []) (hqueue' : s'.loop.internalQueue = [])
      (harr : s'.arrivals = s.arrivals + 1) :
      Moved statem s [] [.dequeued (s.message eventType payload),
        .dispatched (s.message eventType payload)] s' [s.message eventType payload]
  | finished {e : QueuedEvent} {acts settled : List (Entry State)} {pushed new : List QueuedEvent}
      {s' : Server State Data Call Cast Reply} (hacts : ∀ x ∈ acts, x.isTimer = true)
      (hsettled : Settled e settled pushed)
      (hnew : ∀ x ∈ new, ∃ payload, x = ⟨.internal, payload, false, none⟩)
      (hpost : s'.loop.postponed = s.loop.postponed ++ pushed)
      (hqueue : s'.loop.internalQueue = s.loop.internalQueue ++ new)
      (harr : s'.arrivals = s.arrivals) : Moved statem s [e] (acts ++ settled) s' []
  | changed {e : QueuedEvent} {acts settled : List (Entry State)} {pushed new : List QueuedEvent}
      {s' : Server State Data Call Cast Reply} (hacts : ∀ x ∈ acts, x.isTimer = true)
      (hsettled : Settled e settled pushed)
      (hnew : ∀ x ∈ new, ∃ payload, x = ⟨.internal, payload, false, none⟩)
      (hpost : s'.loop.postponed = [])
      (hqueue : s'.loop.internalQueue = enters statem s.loop.currentState ++
        (s.loop.postponed ++ pushed ++ (s.loop.internalQueue ++ new)))
      (harr : s'.arrivals = s.arrivals) (hphase : s'.phase = .idle) :
      Moved statem s [e]
        ([Entry.left s.loop.currentState] ++ (acts ++ settled) ++ [Entry.entered]) s' []

theorem Fired.queues {loop loop' : Loop State Data Reply} {kind : TimeoutKind} {payload : Value}
    (h : Fired loop kind payload loop') :
    loop'.postponed = loop.postponed ∧ loop'.internalQueue = loop.internalQueue := by
  cases h with
  | state | event | generic => exact ⟨rfl, rfl⟩

theorem Transition.moved {loop : Loop State Data Reply} (he : e.WellFormed)
    (h : Transition statem e.inFlight s.loop entries loop) :
    Moved statem s [e] entries { s with loop := loop, phase := .idle } [] := by
  cases h with
  | kept state data now actions =>
    have hnew : ∀ x ∈ internals actions, ∃ payload, x = ⟨.internal, payload, false, none⟩ :=
      fun x => mem_internals
    refine .finished (fun x => isTimer_of_entry) (settled_cases he _) hnew ?_ ?_ rfl
    · exact congrArg Loop.postponed (Loop.applyActions_eq now e.inFlight _ actions)
    · show (Loop.applyActions now e.inFlight _ actions).internalQueue = _
      rw [Loop.applyActions_eq]
      exact (Loop.foldl_act now actions _).2
  | changed state data now actions =>
    have hnew : ∀ x ∈ internals actions, ∃ payload, x = ⟨.internal, payload, false, none⟩ :=
      fun x => mem_internals
    refine .changed (fun x => isTimer_of_entry) (settled_cases he _) hnew rfl ?_ rfl rfl
    show (Loop.replay statem _ (Loop.applyActions now e.inFlight _ actions)).internalQueue = _
    rw [Loop.replay, Loop.applyActions_eq, (Loop.foldl_act now actions _).2, enters]
    split
    · rfl
    · rfl

theorem Stepped.moved (h : Stepped statem s entries s') (hcur : s.phase.Handles cur)
    (hwf : ∀ e ∈ cur, e.WellFormed) :
    ∃ cur', s'.phase.Handles cur' ∧ Moved statem s cur entries s' cur' := by
  have hidle : s.phase = .idle → cur = [] := by
    intro hphase
    refine hcur.eq_nil fun event heq => ?_
    cases hphase.symm.trans heq
  have hhandling : ∀ {event}, s.phase = .handling event →
      ∃ e, cur = [e] ∧ event = e.inFlight ∧ e.WellFormed := by
    intro event hphase
    rw [hphase] at hcur
    obtain ⟨e, rfl, rfl⟩ := hcur.of_handling
    exact ⟨e, rfl, rfl, hwf e List.mem_cons_self⟩
  -- a handling that ends without a result that lets the loop go on
  have hover : ∀ {event s'}, s.phase = .handling event →
      s'.loop.postponed = s.loop.postponed → s'.loop.internalQueue = s.loop.internalQueue →
      s'.arrivals = s.arrivals → Moved statem s cur (event.settled false) s' [] := by
    intro event s' hphase hpost hqueue harr
    obtain ⟨e, rfl, rfl, he⟩ := hhandling hphase
    have hsettled : Settled e (e.inFlight.settled false : List (Entry State)) [] :=
      settled_cases he false
    refine Moved.finished (fun x hx => absurd hx List.not_mem_nil) hsettled
      (fun x hx => absurd hx List.not_mem_nil) ?_ ?_ harr
    · rw [hpost, List.append_nil]
    · rw [hqueue, List.append_nil]
  cases h with
  | outside hloop hphase harrivals =>
    exact ⟨cur, hphase ▸ hcur, .still (by rw [hloop]) (by rw [hloop]) harrivals
      fun hidle _ => hphase.trans hidle⟩
  | popped hphase hqueue =>
    obtain rfl := hidle hphase
    exact ⟨_, .handling _, .popped rfl hqueue rfl⟩
  | fired hphase hqueue hfired =>
    obtain rfl := hidle hphase
    obtain ⟨hpost, hsame⟩ := hfired.queues
    exact ⟨_, .handling _, .fired hpost hqueue (hsame.trans hqueue) rfl⟩
  | received hphase hqueue htype hloop hphase' harrivals =>
    obtain rfl := hidle hphase
    refine ⟨_, hphase' ▸ .handling _, .received htype ?_ hqueue ?_ harrivals⟩
    · rw [hloop]
    · rw [hloop]
      exact hqueue
  | closed hphase hqueue =>
    obtain rfl := hidle hphase
    exact ⟨[], .other nofun, .still rfl rfl rfl fun _ hne => absurd hqueue hne⟩
  | handled hphase ht =>
    obtain ⟨e, rfl, rfl, he⟩ := hhandling hphase
    exact ⟨[], .other nofun, ht.moved he⟩
  | stopped hphase data replies reason =>
    exact ⟨[], .other nofun, hover hphase rfl rfl rfl⟩
  | panicked hphase => exact ⟨[], .other nofun, hover hphase rfl rfl rfl⟩
  | ended hphase =>
    have hnil : cur = [] := by
      refine hcur.eq_nil fun event heq => ?_
      cases hphase.symm.trans heq
    rw [hnil]
    exact ⟨[], .other nofun, .still rfl rfl rfl fun hidle _ => by cases hphase.symm.trans hidle⟩

end Rebar.Statem

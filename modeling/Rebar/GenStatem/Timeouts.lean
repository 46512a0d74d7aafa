import Rebar.GenStatem.Messages
import Rebar.Lib.Log

/-!
# Timeouts

A timeout event comes from the latest arming of its kind, and only if nothing has ended that.

* `armedBy`            the payload of the arming that a history has not ended.
-/

namespace Rebar.Statem

variable {State Data Call Cast Reply : Type} {statem : GenStatem State Call Cast}
  {s s' : Server State Data Call Cast Reply} {cur cur' : List QueuedEvent} {e : QueuedEvent}
  {log entries : List (Entry State)} {kind : TimeoutKind} {payload : Value}

/-! ## armings -/

def Loop.timer (loop : Loop State Data Reply) : TimeoutKind → Option ActiveTimeout
  | .state => loop.stateTimeout
  | .event => loop.eventTimeout
  | .generic name => loop.genericTimeouts.lookup name

def Loop.armed (loop : Loop State Data Reply) (kind : TimeoutKind) : Option Value :=
  (loop.timer kind).map (·.payload)

def Entry.ends (kind : TimeoutKind) : Entry State → Bool
  | .armed other _ => decide (other = kind)
  | .cancelled other => decide (other = kind)
  | .dispatched e => decide (e.eventType = kind.eventType)
  | .left _ => decide (kind = .state)
  | .dequeued _ => decide (kind = .event)
  | _ => false

def Entry.arms : Entry State → Option Value
  | .armed _ payload => some payload
  | _ => none

def armedBy (kind : TimeoutKind) (log : List (Entry State)) : Option Value :=
  Log.latest (Entry.ends kind) Entry.arms none log

theorem ends_and_arms (kind : TimeoutKind) (payload : Value) :
    (fun x : Entry State => x.ends kind = true ∧ x.arms = some payload) =
      fun x => x = Entry.armed kind payload := by
  funext x
  refine propext ⟨fun h => ?_, fun h => ?_⟩
  · obtain ⟨hends, harms⟩ := h
    cases x with
    | armed other value =>
      cases harms
      rw [of_decide_eq_true hends]
    | dequeued | dispatched | left | cancelled | postponed | consumed | dropped | entered =>
      cases harms
  · rw [h]
    exact ⟨decide_eq_true rfl, rfl⟩

theorem armedBy_eq_some_iff : armedBy kind log = some payload ↔
    Log.Standing (fun x => x = Entry.armed kind payload) (fun x => x.ends kind = true) log := by
  rw [armedBy, Log.latest_eq_some_iff, ends_and_arms]

/-! ## the actions -/

variable {name other : String} {event : InFlight} {shouldPostpone : Bool}
  {settled : List (Entry State)} {loop loop' : Loop State Data Reply}

theorem update_generic (x : Entry State) (h : x.ends (.generic other) = true ↔ other = name)
    (value : Option Value) :
    Log.update (Entry.ends (.generic other)) Entry.arms value x =
      if other = name then x.arms else value := by
  by_cases hname : other = name
  · rw [Log.update, if_pos (h.mpr hname), if_pos hname]
  · rw [Log.update, if_neg (mt h.mp hname), if_neg hname]

theorem decide_generic : decide (TimeoutKind.generic name = .generic other) = true ↔ other = name :=
  decide_eq_true_iff.trans ⟨fun h => (TimeoutKind.generic.inj h).symm, fun h => h ▸ rfl⟩

theorem armed_act (now : Nanos) (loop : Loop State Data Reply) (action : Action Reply)
    (kind : TimeoutKind) : (loop.act now action).armed kind =
      Log.latest (Entry.ends kind) Entry.arms (loop.armed kind)
        (action.entry : Option (Entry State)).toList := by
  cases action with
  | reply | postpone | nextEvent | hibernate => rfl
  | stateTimeout | eventTimeout => cases kind <;> rfl
  | genericTimeout name duration value =>
    cases kind with
    | state | event => rfl
    | generic other =>
      show ((loop.genericTimeouts.insert name _).lookup other).map _ = Log.update _ _ _ _
      rw [HashMap.lookup_insert_if, update_generic (.armed (.generic name) value) decide_generic,
        apply_ite (Option.map _)]
      rfl
  | cancelTimeout other =>
    cases other with
    | state | event => cases kind <;> rfl
    | generic name =>
      cases kind with
      | state | event => rfl
      | generic other =>
        show ((loop.genericTimeouts.erase name).lookup other).map _ = Log.update _ _ _ _
        rw [HashMap.lookup_erase_if, update_generic (.cancelled (.generic name)) decide_generic,
          apply_ite (Option.map _)]
        rfl

theorem armed_foldl (now : Nanos) (actions : List (Action Reply)) (loop : Loop State Data Reply)
    (kind : TimeoutKind) : (actions.foldl (Loop.act now) loop).armed kind =
      Log.latest (Entry.ends kind) Entry.arms (loop.armed kind)
        (actions.filterMap (·.entry) : List (Entry State)) := by
  induction actions generalizing loop with
  | nil => rfl
  | cons action actions ih =>
    rw [List.foldl_cons, ih, armed_act]
    cases hentry : (action.entry : Option (Entry State)) with
    | none =>
      rw [List.filterMap_cons_none hentry]
      rfl
    | some x =>
      rw [List.filterMap_cons_some hentry]
      rfl

/-! ## the steps -/

theorem mem_settled {x : Entry State} (h : x ∈ event.settled shouldPostpone) :
    ∃ n, x = .consumed n ∨ x = .dropped n ∨ x = .postponed n := by
  unfold InFlight.settled at h
  split at h
  next => cases h
  next n hn =>
    refine ⟨n, ?_⟩
    split at h
    next =>
      split at h
      next => exact Or.inr (Or.inl (List.mem_singleton.mp h))
      next => exact Or.inr (Or.inr (List.mem_singleton.mp h))
    next => exact Or.inl (List.mem_singleton.mp h)

theorem ends_settled (kind : TimeoutKind) :
    ∀ x ∈ (event.settled shouldPostpone : List (Entry State)), x.ends kind = false := by
  intro x hx
  obtain ⟨n, rfl | rfl | rfl⟩ := mem_settled hx
  · rfl
  · rfl
  · rfl

theorem latest_changed (value : Option Value) (state : State) {acts : List (Entry State)}
    (h : ∀ x ∈ settled, x.ends kind = false) :
    Log.latest (Entry.ends kind) Entry.arms value
      ([Entry.left state] ++ (acts ++ settled) ++ [Entry.entered]) =
    Log.latest (Entry.ends kind) Entry.arms
      (Log.update (Entry.ends kind) Entry.arms value (.left state)) acts := by
  have hquiet : ∀ x ∈ settled ++ [Entry.entered], x.ends kind = false := by
    intro x hx
    rcases List.mem_append.mp hx with hx | hx
    · exact h x hx
    · rw [List.mem_singleton.mp hx]
      rfl
  rw [List.append_assoc, List.singleton_append, Log.latest_cons, List.append_assoc,
    Log.latest_append, Log.latest_of_not hquiet]

theorem Transition.armed (h : Transition statem event loop entries loop') (kind : TimeoutKind) :
    loop'.armed kind = Log.latest (Entry.ends kind) Entry.arms (loop.armed kind) entries := by
  cases h with
  | kept state data now actions =>
    rw [Loop.applyActions_eq, Log.latest_append, Log.latest_of_not (ends_settled kind)]
    exact armed_foldl now actions _ kind
  | changed state data now actions =>
    have hleft : ({ loop with currentState := state, data := data, stateTimeout := none } :
        Loop State Data Reply).armed kind =
          Log.update (Entry.ends kind) Entry.arms (loop.armed kind) (.left loop.currentState) := by
      cases kind <;> rfl
    rw [latest_changed _ _ (ends_settled kind), ← hleft, Loop.replay, Loop.applyActions_eq]
    exact armed_foldl now actions _ kind

theorem decide_timeout : decide (EventType.timeout name = .timeout other) = true ↔ other = name :=
  decide_eq_true_iff.trans ⟨fun h => (EventType.timeout.inj h).symm, fun h => h ▸ rfl⟩

theorem Fired.armed (h : Fired loop kind payload loop') :
    loop.armed kind = some payload ∧ ∀ other, loop'.armed other =
      Log.update (Entry.ends other) Entry.arms (loop.armed other)
        (.dispatched (timeoutEvent kind payload) : Entry State) := by
  cases h with
  | state ht | event ht =>
    refine ⟨congrArg (Option.map _) ht, fun other => ?_⟩
    cases other <;> rfl
  | @generic name t ht =>
    refine ⟨congrArg (Option.map _) ht, fun other => ?_⟩
    cases other with
    | state | event => rfl
    | generic other =>
      show ((loop.genericTimeouts.erase name).lookup other).map _ = _
      rw [HashMap.lookup_erase_if, update_generic
        (.dispatched (timeoutEvent (.generic name) t.payload)) decide_timeout,
        apply_ite (Option.map _)]
      rfl

def EventType.isTimeout : EventType → Bool
  | .stateTimeout => true
  | .timeout _ => true
  | .eventTimeout => true
  | _ => false

theorem isTimeout_eventType (kind : TimeoutKind) : kind.eventType.isTimeout = true := by
  cases kind <;> rfl

theorem eventType_inj {kind other : TimeoutKind} (h : kind.eventType = other.eventType) :
    kind = other := by
  cases kind <;> cases other <;> cases h <;> rfl

theorem isTimeout_of_isMessage {eventType : EventType} (h : eventType.isMessage = true) :
    eventType.isTimeout = false := by
  cases eventType with
  | call | cast | info => rfl
  | stateTimeout | timeout | eventTimeout | internal | enter => cases h

theorem ends_dispatched (he : e.eventType.isTimeout = false) (kind : TimeoutKind) :
    ∀ x ∈ [(.dispatched e : Entry State)], x.ends kind = false := by
  intro x hx
  rw [List.mem_singleton.mp hx]
  refine decide_eq_false fun heq => ?_
  rw [heq, isTimeout_eventType] at he
  cases he

theorem Stepped.armed (h : Stepped statem s entries s')
    (hqueue : ∀ e ∈ s.loop.internalQueue, e.eventType.isTimeout = false) (kind : TimeoutKind) :
    s'.loop.armed kind =
      Log.latest (Entry.ends kind) Entry.arms (s.loop.armed kind) entries := by
  cases h with
  | outside hloop =>
    rw [hloop]
    rfl
  | popped hphase hfirst =>
    rw [Log.latest_of_not (ends_dispatched (hqueue _ (hfirst ▸ List.mem_cons_self)) kind)]
    rfl
  | fired hphase hnil hfired => exact hfired.armed.2 kind
  | received hphase hnil htype hloop hphase' harrivals =>
    rw [hloop, Log.latest_cons,
      Log.latest_of_not (ends_dispatched (isTimeout_of_isMessage htype) kind)]
    cases kind <;> rfl
  | closed | ended => rfl
  | handled hphase ht => exact ht.armed kind
  | stopped | panicked => exact (Log.latest_of_not (ends_settled kind)).symm

theorem isResult_settled :
    ∀ x ∈ (event.settled shouldPostpone : List (Entry State)), x.isResult = true := by
  intro x hx
  obtain ⟨n, rfl | rfl | rfl⟩ := mem_settled hx
  · rfl
  · rfl
  · rfl

theorem Transition.isResult (h : Transition statem event loop entries loop') :
    ∀ x ∈ entries, x.isResult = true := by
  have hresults : ∀ actions : List (Action Reply), ∀ x ∈ actions.filterMap (·.entry) ++
      (event.settled (actions.any (·.isPostpone)) : List (Entry State)), x.isResult = true := by
    intro actions x hx
    rcases List.mem_append.mp hx with hx | hx
    · exact isResult_of_isTimer (isTimer_of_entry hx)
    · exact isResult_settled x hx
  cases h with
  | kept state data now actions => exact hresults actions
  | changed state data now actions => exact isResult_changed (hresults actions)

theorem Stepped.timeout (h : Stepped statem s entries s')
    (hqueue : ∀ e ∈ s.loop.internalQueue, e.eventType.isTimeout = false)
    (hentries : Entry.dispatched e ∈ entries) (he : e.eventType = kind.eventType) :
    s.loop.armed kind = some e.payload ∧ entries = [.dispatched e] := by
  have htimeout : e.eventType.isTimeout = true := he ▸ isTimeout_eventType kind
  have hresult : (∀ x ∈ entries, x.isResult = true) →
      s.loop.armed kind = some e.payload ∧ entries = [.dispatched e] := by
    intro hall
    cases hall _ hentries
  cases h with
  | outside | closed | ended => cases hentries
  | popped hphase hfirst =>
    cases List.mem_singleton.mp hentries
    rw [hqueue e (hfirst ▸ List.mem_cons_self)] at htimeout
    cases htimeout
  | fired hphase hnil hfired =>
    cases List.mem_singleton.mp hentries
    cases eventType_inj he
    exact ⟨hfired.armed.1, rfl⟩
  | received hphase hnil htype =>
    rcases List.mem_cons.mp hentries with heq | hentries
    · cases heq
    · cases List.mem_singleton.mp hentries
      cases (isTimeout_of_isMessage htype).symm.trans htimeout
  | handled hphase ht => exact hresult ht.isResult
  | stopped | panicked => exact hresult isResult_settled

/-! ## every run -/

/-- the timeouts of the loop are those that the history has not ended -/
structure Timely (s : Server State Data Call Cast Reply) (log : List (Entry State)) : Prop where
  armed : ∀ kind, s.loop.armed kind = armedBy kind log
  queued : ∀ e ∈ s.loop.postponed ++ s.loop.internalQueue, e.eventType.isTimeout = false
  prior : Log.Prior (fun before x => ∀ e kind, x = .dispatched e →
    e.eventType = kind.eventType → armedBy kind before = some e.payload) log

theorem isTimeout_handled {post pushed queue new : List QueuedEvent}
    (h : ∀ e ∈ post ++ queue, e.eventType.isTimeout = false) (he : e.WellFormed)
    (hsettled : Settled e settled pushed)
    (hnew : ∀ x ∈ new, ∃ payload, x = ⟨.internal, payload, false, none⟩) :
    ∀ x ∈ post ++ pushed ++ (queue ++ new), x.eventType.isTimeout = false := by
  intro x hx
  rcases List.mem_append.mp hx with hx | hx
  · rcases List.mem_append.mp hx with hx | hx
    · exact h x (List.mem_append_left _ hx)
    · exact isTimeout_of_isMessage (hsettled.isMessage he hx)
  · rcases List.mem_append.mp hx with hx | hx
    · exact h x (List.mem_append_right _ hx)
    · obtain ⟨payload, rfl⟩ := hnew x hx
      rfl

theorem Moved.isTimeout (hm : Moved statem s cur entries s' cur') (hwf : ∀ e ∈ cur, e.WellFormed)
    (h : ∀ e ∈ s.loop.postponed ++ s.loop.internalQueue, e.eventType.isTimeout = false) :
    ∀ e ∈ s'.loop.postponed ++ s'.loop.internalQueue, e.eventType.isTimeout = false := by
  intro e he
  cases hm with
  | still hpost hqueue harr hidle =>
    rw [hpost, hqueue] at he
    exact h e he
  | popped hpost hqueue harr =>
    rw [hpost] at he
    rw [hqueue] at h
    refine h e ?_
    exact (List.mem_append.mp he).elim (List.mem_append_left _)
      fun he => List.mem_append_right _ (List.mem_cons_of_mem _ he)
  | fired hpost hqueue hqueue' harr | received htype hpost hqueue hqueue' harr =>
    rw [hpost, hqueue', ← hqueue] at he
    exact h e he
  | finished hacts hsettled hnew hpost hqueue harr =>
    rw [hpost, hqueue] at he
    exact isTimeout_handled h (hwf _ List.mem_cons_self) hsettled hnew e he
  | changed hacts hsettled hnew hpost hqueue harr hphase =>
    rw [hpost, hqueue, List.nil_append] at he
    rcases List.mem_append.mp he with he | he
    · rw [(mem_enters he).2]
      rfl
    · exact isTimeout_handled h (hwf _ List.mem_cons_self) hsettled hnew e he

theorem Timely.step (h : Timely s log) (hwf : ∀ e ∈ cur, e.WellFormed)
    (hs : Stepped statem s entries s') (hm : Moved statem s cur entries s' cur') :
    Timely s' (log ++ entries) := by
  have hqueue : ∀ e ∈ s.loop.internalQueue, e.eventType.isTimeout = false :=
    fun e he => h.queued e (List.mem_append_right _ he)
  refine ⟨fun kind => ?_, hm.isTimeout hwf h.queued, h.prior.append fun start x after heq => ?_⟩
  · rw [hs.armed hqueue kind, h.armed kind]
    exact Log.latest_append.symm
  · rintro e kind rfl he
    obtain ⟨harmed, hone⟩ := hs.timeout hqueue (heq ▸ List.mem_append_right _ List.mem_cons_self) he
    -- the step has no other entry
    cases start with
    | nil =>
      rw [List.append_nil, ← h.armed kind]
      exact harmed
    | cons y start =>
      obtain ⟨-, hnil⟩ := List.cons.inj (heq.symm.trans hone)
      cases start <;> cases hnil

theorem timely_new (statem : GenStatem State Call Cast) (state : State) (data : Data) :
    Timely (.new statem state data : Server State Data Call Cast Reply) [] := by
  refine ⟨fun kind => ?_, fun e he => ?_, Log.Prior.nil⟩
  · cases kind <;> rfl
  · rw [(mem_enters he).2]
    rfl

/-- in every run a timeout event is dispatched only for an arming of its kind, with its payload,
that nothing has ended since, and the timeouts that are armed are just those -/
theorem timeout_standing [BEq State]
    (h : ((statemMachine Data Reply statem).logged (Server.entries statem)).Reach
      Machine.Anytime (s, log)) :
    (∀ before e after kind, log = before ++ Entry.dispatched e :: after →
      e.eventType = kind.eventType →
      Log.Standing (fun x => x = Entry.armed kind e.payload) (fun x => x.ends kind = true)
        before) ∧
    ∀ kind payload, s.loop.armed kind = some payload ↔
      Log.Standing (fun x => x = Entry.armed kind payload) (fun x => x.ends kind = true) log := by
  have htime : Timely s log := by
    refine inv_of_moved rfl (fun s hs => hs) ?_ ?_ h
    · rintro s ⟨state, data, rfl⟩
      exact timely_new statem state data
    · intro s log cur entries s' cur' htime _ hwf hs hm
      exact htime.step hwf hs hm
  refine ⟨fun before e after kind heq he => ?_, fun kind payload => ?_⟩
  · exact armedBy_eq_some_iff.mp (htime.prior before _ after heq e kind rfl he)
  · rw [htime.armed kind, armedBy_eq_some_iff]

private def door : GenStatem Bool Unit Unit :=
  .plain true fun ajar => if ajar then "Ajar" else "Shut"

private def watching (now : Nanos) : Poll := ⟨now, true, true, true, .stored⟩

/-- the transition that opens the door arms two timeouts, and that of the state is due first -/
private def ringing : List (Event Bool Unit Unit Unit Unit) :=
  [.turn (watching 0),
    .handled 0 () (.nextState true () [.stateTimeout 5 (.integer 1),
      .genericTimeout "alarm" 9 (.integer 2)]),
    .turn (watching 1), .handled 1 () (.keepStateAndData []), .turn (watching 5)]

private def rings (log : List (Entry Bool)) : Bool :=
  match log.getLast? with
  | some (.dispatched e) => decide (e.eventType = .stateTimeout)
  | _ => false

private theorem exists_of_rings {log : List (Entry Bool)} (h : rings log = true) :
    ∃ before e, log = before ++ [Entry.dispatched e] ∧ e.eventType = EventType.stateTimeout := by
  unfold rings at h
  split at h
  next e hlast =>
    obtain ⟨before, rfl⟩ := List.getLast?_eq_some_iff.mp hlast
    exact ⟨before, e, rfl, of_decide_eq_true h⟩
  next => cases h

theorem timeout_standing_ringing :
    ∃ (s : Server Bool Unit Unit Unit Unit) (before : List (Entry Bool)) (e : QueuedEvent),
      ((statemMachine Unit Unit door).logged (Server.entries door)).Reach Machine.Anytime
        (s, before ++ [Entry.dispatched e]) ∧
      e.eventType = EventType.stateTimeout ∧
      Log.Standing (fun x => x = Entry.armed .state e.payload) (fun x => x.ends .state = true)
        before ∧
      ∃ payload, Log.Standing (fun x => x = Entry.armed (.generic "alarm") payload)
        (fun x => x.ends (.generic "alarm") = true) (before ++ [Entry.dispatched e]) := by
  have hstart : ((statemMachine Unit Unit door).logged (Server.entries door)).Reach
      Machine.Anytime (.new door false (), []) := .start ⟨⟨false, (), rfl⟩, rfl⟩
  obtain ⟨⟨s, log⟩, h, hlog, harmed⟩ := hstart.exists_run ringing
    (p := fun s => rings s.2 = true ∧ (s.1.loop.armed (.generic "alarm")).isSome) (by decide)
  obtain ⟨before, e, rfl, he⟩ := exists_of_rings hlog
  obtain ⟨payload, hpayload⟩ := Option.isSome_iff_exists.mp harmed
  obtain ⟨hdispatched, hiff⟩ := timeout_standing h
  exact ⟨s, before, e, h, he, hdispatched before e [] .state rfl he, payload,
    (hiff _ payload).mp hpayload⟩

end Rebar.Statem

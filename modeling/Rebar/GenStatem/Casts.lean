import Rebar.GenStatem.Timeouts

/-!
# The casts of a state machine

A cast that was accepted waits in its channel until a turn dispatches it, in the order of acceptance.
The loop looks at the channel of the calls first, and terminates when that is closed, whatever the
channel of the casts still holds.

* `Server.traffic`   the casts that are accepted, in one log with the entries of the history.
-/

namespace Rebar.Statem

variable {State Data Call Cast Reply : Type}

/-! ## the log -/

/-- the cast that an event of the environment adds to the channel -/
def Event.accepted : Event State Data Call Cast Reply → List Cast
  | .cast msg => [msg]
  | _ => []

def Server.traffic [BEq State] (statem : GenStatem State Call Cast)
    (s : Server State Data Call Cast Reply) (event : Event State Data Call Cast Reply) :
    List (Cast ⊕ Entry State) :=
  event.accepted.map Sum.inl ++ (s.entries statem event).map Sum.inr

def acceptedCasts (log : List (Cast ⊕ Entry State)) : List Cast := log.filterMap Sum.getLeft?

def Entry.castEvent : Entry State → Option QueuedEvent
  | .dequeued e => if e.eventType = .cast then some e else none
  | _ => none

def castEvents (log : List (Cast ⊕ Entry State)) : List QueuedEvent :=
  log.filterMap fun x => x.getRight?.bind Entry.castEvent

theorem acceptedCasts_entries (log : List (Cast ⊕ Entry State)) (entries : List (Entry State)) :
    acceptedCasts (log ++ entries.map Sum.inr) = acceptedCasts log := by
  have hnone : ∀ x ∈ entries.map Sum.inr, Sum.getLeft? x = (none : Option Cast) := by
    intro x hx
    obtain ⟨entry, -, rfl⟩ := List.mem_map.mp hx
    rfl
  rw [acceptedCasts, List.filterMap_append, List.filterMap_eq_nil_iff.mpr hnone, List.append_nil]
  rfl

theorem castEvents_entries (log : List (Cast ⊕ Entry State)) (entries : List (Entry State)) :
    castEvents (log ++ entries.map Sum.inr) = castEvents log ++ entries.filterMap (·.castEvent) := by
  rw [castEvents, List.filterMap_append, List.filterMap_map]
  rfl

/-- `terminate` has been called -/
def Phase.isOver : Phase → Bool
  | .terminating _ => true
  | .ended => true
  | _ => false

/-! ## the runs -/

def TransitionResult.stops : TransitionResult State Data Reply → Bool
  | .stop _ _ => true
  | .stopAndReply _ _ _ => true
  | _ => false

/-- the sender of the calls is the first field of a reference, so a reference that casts holds it -/
def Server.undisturbed (s : Server State Data Call Cast Reply) :
    Event State Data Call Cast Reply → Bool
  | .cast _ => s.calls.held
  | .handled _ _ result => !result.stops
  | .dropMailbox => false
  | .panicked => false
  | _ => true

/-- no accepted cast is queued when the last reference is dropped -/
def Server.emptied (s : Server State Data Call Cast Reply) :
    Event State Data Call Cast Reply → Bool
  | .dropCalls => s.casts.queue.isEmpty
  | _ => true

section
variable {statem : GenStatem State Call Cast} {s s' : Server State Data Call Cast Reply}
  {poll : Poll} {e : QueuedEvent} {entries : List (Entry State)} {log : List (Cast ⊕ Entry State)}

/-! ## a step -/

def Server.Closed (s : Server State Data Call Cast Reply) : Prop :=
  s.calls.held = false ∨ (s.casts.queue = [] ∧ s.casts.held = false) ∨ s.mailbox.held = false

/-- what a turn does to the casts: it takes one, or leaves them alone -/
inductive Turned (statem : GenStatem State Call Cast) (s : Server State Data Call Cast Reply)
    (entries : List (Entry State)) (s' : Server State Data Call Cast Reply) : Prop where
  | cast {msg : Cast} (hqueue : s.casts.queue = msg :: s'.casts.queue)
      (hentries : entries = [.dequeued (s.message .cast (statem.encodeCast msg)),
        .dispatched (s.message .cast (statem.encodeCast msg))])
      (harrivals : s'.arrivals = s.arrivals + 1) (hphase : s'.phase.isOver = false)
  | other (hqueue : s'.casts.queue = s.casts.queue)
      (hentries : ∀ e, Entry.dequeued e ∈ entries → e.eventType ≠ .cast)
      (harrivals : s.arrivals ≤ s'.arrivals)
      (hphase : s'.phase.isOver = true → s.phase.isOver = true ∨ s.Closed)

structure SameHolders (s s' : Server State Data Call Cast Reply) : Prop where
  calls : s'.calls.held = s.calls.held
  casts : s'.casts.held = s.casts.held
  mailbox : s'.mailbox.held = s.mailbox.held

theorem SameHolders.refl (s : Server State Data Call Cast Reply) : SameHolders s s :=
  ⟨rfl, rfl, rfl⟩

theorem recv_closed {α : Type} {rx : Receiver α} (h : rx.recv = .closed) :
    rx.queue = [] ∧ rx.held = false := by
  unfold Receiver.recv at h
  split at h
  next => cases h
  next hqueue =>
    split at h
    next => cases h
    next hheld => exact ⟨hqueue, Bool.eq_false_iff.mpr hheld⟩

theorem recv_received {α : Type} {rx rest : Receiver α} {msg : α}
    (h : rx.recv = .received msg rest) : rx.queue = msg :: rest.queue ∧ rest.held = rx.held := by
  unfold Receiver.recv at h
  split at h
  next hqueue =>
    cases h
    exact ⟨hqueue, rfl⟩
  next =>
    split at h
    next => cases h
    next => cases h

inductive Pulled (statem : GenStatem State Call Cast) (s : Server State Data Call Cast Reply) :
    Server State Data Call Cast Reply → Taken → Prop where
  | cast {s' : Server State Data Call Cast Reply} {msg : Cast}
      (hqueue : s.casts.queue = msg :: s'.casts.queue) (harrivals : s'.arrivals = s.arrivals + 1) :
      Pulled statem s s' (.event (s.message .cast (statem.encodeCast msg)))
  | other {s' : Server State Data Call Cast Reply} {e : QueuedEvent}
      (hqueue : s'.casts.queue = s.casts.queue) (htype : e.number.isSome → e.eventType ≠ .cast)
      (harrivals : s.arrivals ≤ s'.arrivals) : Pulled statem s s' (.event e)
  | closed (h : s.Closed) : Pulled statem s s .closed

theorem receive_pulled {taken : Taken} (h : s.receive statem = some (s', taken)) :
    Pulled statem s s' taken ∧ SameHolders s s' := by
  revert h
  fun_cases Server.receive statem s <;> intro h <;> cases h
  next hcalls => exact ⟨.closed (Or.inl (recv_closed hcalls).2), .refl s⟩
  next hcalls => exact ⟨.other rfl (by simp) (Nat.le_succ _), (recv_received hcalls).2, rfl, rfl⟩
  next hcasts => exact ⟨.closed (Or.inr (Or.inl (recv_closed hcasts))), .refl s⟩
  next hcasts => exact ⟨.cast (recv_received hcasts).1 rfl, rfl, (recv_received hcasts).2, rfl⟩
  next hmailbox => exact ⟨.closed (Or.inr (Or.inr (recv_closed hmailbox).2)), .refl s⟩
  next hmailbox => exact ⟨.other rfl (by simp) (Nat.le_succ _), rfl, rfl, (recv_received hmailbox).2⟩

theorem select_pulled {taken : Taken} (h : s.select statem poll = some (s', taken)) :
    Pulled statem s s' taken ∧ SameHolders s s' := by
  revert h
  fun_cases Server.select statem s poll <;> intro h <;> try cases h
  -- the three timeouts
  iterate 3 exact ⟨.other rfl (by simp) (Nat.le_refl _), rfl, rfl, rfl⟩
  next => exact receive_pulled h

variable [BEq State]

theorem turn_turned (h : s.turn statem poll = some s') :
    Turned statem s (s.entries statem (.turn poll)) s' ∧ SameHolders s s' := by
  unfold Server.turn at h
  unfold Server.entries
  split at h
  next hphase =>
    obtain ⟨⟨s₁, taken⟩, htake, h⟩ := Option.map_eq_some_iff.mp h
    dsimp only
    rw [hphase, htake]
    unfold Server.take at htake
    split at htake
    next event queue hqueue =>
      cases htake
      dsimp only at h ⊢
      rw [dispatchEvent_eq] at h
      rw [hqueue, event.dispatched_eq, ← h]
      refine ⟨.other rfl (fun e he => ?_) (Nat.le_refl _) nofun, rfl, rfl, rfl⟩
      cases List.mem_singleton.mp he
    next hqueue =>
      obtain ⟨hpulled, hholders⟩ := select_pulled htake
      rw [hqueue]
      cases hpulled with
      | cast hcasts harrivals =>
        dsimp only at h ⊢
        rw [dispatchEvent_eq] at h
        rw [QueuedEvent.dispatched_eq, ← h]
        exact ⟨.cast hcasts rfl harrivals rfl, hholders.calls, hholders.casts, hholders.mailbox⟩
      | @other _ e hcasts htype harrivals =>
        dsimp only at h ⊢
        rw [dispatchEvent_eq] at h
        rw [QueuedEvent.dispatched_eq, ← h]
        refine ⟨.other hcasts (fun e' he => ?_) harrivals nofun,
          hholders.calls, hholders.casts, hholders.mailbox⟩
        rcases List.mem_append.mp he with he | he
        · obtain ⟨n, hn, he⟩ := List.mem_map.mp he
          cases he
          exact htype (Option.isSome_iff_exists.mpr ⟨n, Option.mem_toList.mp hn⟩)
        · cases List.mem_singleton.mp he
      | closed hclosed =>
        rw [← h]
        exact ⟨.other rfl nofun (Nat.le_refl _)
          fun _ => Or.inr hclosed, rfl, rfl, rfl⟩
  next => cases h

omit [BEq State] in
theorem Stepped.not_dequeued {event : InFlight} (h : Stepped statem s entries s')
    (hphase : s.phase = .handling event) : Entry.dequeued e ∉ entries := by
  intro he
  cases h with
  | outside => cases he
  | handled _ htransition => cases htransition.isResult _ he
  | stopped | panicked => cases isResult_settled _ he
  | popped hidle | fired hidle | received hidle | closed hidle | ended hidle =>
    cases hphase.symm.trans hidle

theorem handled_turned {now : Nanos} {data : Data} {result : TransitionResult State Data Reply}
    (hstops : result.stops = false) (h : s.handled statem now data result = some s') :
    Turned statem s (s.entries statem (.handled now data result)) s' ∧ SameHolders s s' := by
  have hstepped := handled_cases h
  unfold Server.handled at h
  split at h
  next event hphase =>
    cases result with
    | stop | stopAndReply => cases hstops
    | nextState | keepState | keepStateAndData =>
      cases h
      exact ⟨.other rfl (fun e he => absurd he (hstepped.not_dequeued hphase)) (Nat.le_refl _) nofun,
        rfl, rfl, rfl⟩
  next => cases h

/-! ## every run -/

/-- the casts that were accepted are those that were dequeued, which were dispatched, and those that
are queued; when the loop is over none is queued, and none can be accepted -/
structure Conserved (statem : GenStatem State Call Cast) (s : Server State Data Call Cast Reply)
    (log : List (Cast ⊕ Entry State)) : Prop where
  casts : (acceptedCasts log).map statem.encodeCast =
    (castEvents log).map (·.payload) ++ s.casts.queue.map statem.encodeCast
  dispatched : ∀ e ∈ castEvents log, Sum.inr (Entry.dispatched e) ∈ log
  numbered : ∀ e ∈ castEvents log, ∃ n, e.number = some n ∧ n < s.arrivals
  distinct : (castEvents log).Pairwise fun e e' => e.number ≠ e'.number
  mailbox : s.mailbox.held = true
  calls : s.calls.held = false → s.casts.queue = []
  atEnd : s.phase.isOver = true →
    s.casts.queue = [] ∧ (s.calls.held = false ∨ s.casts.held = false)

omit [BEq State] in
theorem Conserved.turned (h : Conserved statem s log) (ht : Turned statem s entries s')
    (hheld : SameHolders s s') : Conserved statem s' (log ++ entries.map Sum.inr) := by
  have haccepted := acceptedCasts_entries log entries
  cases ht with
  | @cast msg hqueue hentries harrivals hphase =>
    have hevents : castEvents (log ++ entries.map Sum.inr) =
        castEvents log ++ [s.message .cast (statem.encodeCast msg)] := by
      rw [castEvents_entries, hentries]
      rfl
    have hcalls : s.calls.held = false → s'.casts.queue = [] := by
      intro hfree
      rw [h.calls hfree] at hqueue
      cases hqueue
    refine ⟨?_, fun e he => ?_, fun e he => ?_, ?_, hheld.mailbox ▸ h.mailbox,
      hheld.calls ▸ hcalls, fun hover => ?_⟩
    · rw [haccepted, hevents, h.casts, hqueue, List.map_append, List.append_assoc]
      rfl
    · rw [hevents] at he
      rcases List.mem_append.mp he with he | he
      · exact List.mem_append_left _ (h.dispatched e he)
      · rw [List.mem_singleton.mp he, hentries]
        exact List.mem_append_right _ (List.mem_cons_of_mem _ List.mem_cons_self)
    · rw [hevents] at he
      rcases List.mem_append.mp he with he | he
      · obtain ⟨n, hn, hlt⟩ := h.numbered e he
        exact ⟨n, hn, harrivals ▸ Nat.lt_succ_of_lt hlt⟩
      · rw [List.mem_singleton.mp he]
        exact ⟨s.arrivals, rfl, harrivals ▸ Nat.lt_succ_self _⟩
    · rw [hevents]
      refine List.pairwise_append.mpr ⟨h.distinct, List.pairwise_singleton _ _, fun e he e' he' => ?_⟩
      obtain ⟨n, hn, hlt⟩ := h.numbered e he
      rw [List.mem_singleton.mp he', hn]
      exact fun heq => Nat.ne_of_lt hlt (Option.some.inj heq)
    · rw [hphase] at hover
      cases hover
  | other hqueue hentries harrivals hphase =>
    have hevents : castEvents (log ++ entries.map Sum.inr) = castEvents log := by
      rw [castEvents_entries, List.filterMap_eq_nil_iff.mpr fun x hx => ?_, List.append_nil]
      cases x with
      | dequeued e => exact if_neg (hentries e hx)
      | dispatched | left | armed | cancelled | postponed | consumed | dropped | entered => rfl
    refine ⟨?_, fun e he => ?_, fun e he => ?_, hevents ▸ h.distinct, hheld.mailbox ▸ h.mailbox, ?_,
      fun hover => ?_⟩
    · rw [haccepted, hevents, h.casts, hqueue]
    · exact List.mem_append_left _ (h.dispatched e (hevents ▸ he))
    · obtain ⟨n, hn, hlt⟩ := h.numbered e (hevents ▸ he)
      exact ⟨n, hn, Nat.lt_of_lt_of_le hlt harrivals⟩
    · rw [hheld.calls, hqueue]
      exact h.calls
    · rw [hqueue, hheld.calls, hheld.casts]
      rcases hphase hover with hover | hfree | ⟨hempty, hfree⟩ | hfree
      · exact h.atEnd hover
      · exact ⟨h.calls hfree, Or.inl hfree⟩
      · exact ⟨hempty, Or.inr hfree⟩
      · rw [h.mailbox] at hfree
        cases hfree

omit [BEq State] in
theorem conserved_new (statem : GenStatem State Call Cast) (state : State) (data : Data) :
    Conserved statem (.new statem state data : Server State Data Call Cast Reply) [] :=
  ⟨rfl, nofun, nofun,
    List.Pairwise.nil, rfl, fun _ => rfl, nofun⟩

omit [BEq State] in
theorem Conserved.accept (h : Conserved statem s log) (msg : Cast) (hcalls : s.calls.held = true)
    (hcasts : s.casts.held = true) :
    Conserved statem { s with casts := s.casts.send msg } (log ++ [Sum.inl msg]) := by
  have haccepted : acceptedCasts (log ++ [Sum.inl msg]) = acceptedCasts log ++ [msg] :=
    List.filterMap_append
  have hevents : castEvents (log ++ [Sum.inl msg]) = castEvents log := by
    rw [castEvents, List.filterMap_append]
    exact List.append_nil _
  refine ⟨?_, fun e he => ?_, fun e he => h.numbered e (hevents ▸ he), hevents ▸ h.distinct,
    h.mailbox, fun hfree => ?_, fun hover => ?_⟩
  · rw [haccepted, hevents, List.map_append, h.casts, List.append_assoc]
    show _ = _ ++ (s.casts.queue ++ [msg]).map _
    rw [List.map_append]
  · exact List.mem_append_left _ (h.dispatched e (hevents ▸ he))
  · cases hcalls.symm.trans hfree
  · rcases (h.atEnd hover).2 with hfree | hfree
    · cases hcalls.symm.trans hfree
    · cases hcasts.symm.trans hfree

theorem Conserved.next {event : Event State Data Call Cast Reply} (h : Conserved statem s log)
    (hok : s.undisturbed event) (hempty : s.emptied event) (hnext : s.next statem event = some s') :
    Conserved statem s' (log ++ s.traffic statem event) := by
  have hsame : ∀ {s' : Server State Data Call Cast Reply}, s'.casts.queue = s.casts.queue →
      s'.arrivals = s.arrivals → s'.phase.isOver = s.phase.isOver → SameHolders s s' →
      Conserved statem s' (log ++ []) := fun hqueue harrivals hphase hheld =>
    h.turned (.other hqueue (fun e he => absurd he List.not_mem_nil) (Nat.le_of_eq harrivals.symm)
      fun hover => Or.inl (hphase ▸ hover)) hheld
  revert hnext
  fun_cases Server.next statem s event <;> intro hnext <;> try cases hnext
  next => exact hsame rfl rfl rfl ⟨rfl, rfl, rfl⟩
  next msg hheld => exact h.accept msg hok hheld
  next => exact hsame rfl rfl rfl ⟨rfl, rfl, rfl⟩
  next =>
    have hempty := List.isEmpty_iff.mp hempty
    have hlog : log ++ s.traffic statem .dropCalls = log := List.append_nil _
    rw [hlog]
    exact { h with
      calls := fun _ => hempty
      atEnd := fun _ => ⟨hempty, Or.inl rfl⟩ }
  next =>
    have hlog : log ++ s.traffic statem .dropCasts = log := List.append_nil _
    rw [hlog]
    exact { h with atEnd := fun hover => ⟨(h.atEnd hover).1, Or.inr rfl⟩ }
  next => cases hok
  next =>
    obtain ⟨hturned, hheld⟩ := turn_turned hnext
    exact h.turned hturned hheld
  next =>
    obtain ⟨hturned, hheld⟩ := handled_turned (Bool.not_eq_eq_eq_not.mp hok) hnext
    exact h.turned hturned hheld
  next => cases hok
  next => cases hok
  next hphase =>
    refine hsame rfl rfl ?_ ⟨rfl, rfl, rfl⟩
    rw [hphase]
    rfl

/-- when `terminate` is called, every cast that was accepted has been dispatched: there is one event
for each of them, in the order of acceptance; if the last reference is dropped only when no cast is
queued -/
theorem casts_dispatched
    (h : ((statemMachine Data Reply statem).logged (Server.traffic statem)).Reach
      (fun s event => s.1.undisturbed event ∧ s.1.emptied event) (s, log))
    (hover : s.phase.isOver = true) :
    (acceptedCasts log).map statem.encodeCast = (castEvents log).map (·.payload) ∧
      (∀ e ∈ castEvents log, Sum.inr (Entry.dispatched e) ∈ log) ∧
      (castEvents log).Pairwise fun e e' => e.number ≠ e'.number := by
  have hconserved : Conserved statem s log := by
    refine h.inv_logged_of ?_ ?_
    · rintro s ⟨state, data, rfl⟩
      exact conserved_new statem state data
    · rintro s log event s' hconserved ⟨hok, hempty⟩ hnext
      exact hconserved.next hok hempty hnext
  refine ⟨?_, hconserved.dispatched, hconserved.distinct⟩
  rw [hconserved.casts, (hconserved.atEnd hover).1]
  exact List.append_nil _

end

private def beacon : GenStatem Unit Unit Unit := .plain false fun _ => "Lit"

/-- the cast is dispatched before the last reference is dropped -/
private def signalling : List (Event Unit Unit Unit Unit Unit) :=
  [.cast (), .turn .early, .handled 0 () (.keepStateAndData []), .dropCalls, .dropCasts,
    .turn .early]

private def abandoning : List (Event Unit Unit Unit Unit Unit) :=
  [.cast (), .dropCalls, .dropCasts, .turn .early]

private def finished (s : Server Unit Unit Unit Unit Unit × List (Unit ⊕ Entry Unit)) : Bool :=
  s.1.phase.isOver && decide (acceptedCasts s.2 = [()])

theorem casts_dispatched_signalling :
    ∃ (s : Server Unit Unit Unit Unit Unit) (log : List (Unit ⊕ Entry Unit)),
      ((statemMachine Unit Unit beacon).logged (Server.traffic beacon)).Reach
        (fun s event => s.1.undisturbed event ∧ s.1.emptied event) (s, log) ∧
      s.phase.isOver = true ∧ acceptedCasts log = [()] ∧
      ∃ e, castEvents log = [e] ∧ Sum.inr (Entry.dispatched e) ∈ log := by
  have hstart : ((statemMachine Unit Unit beacon).logged (Server.traffic beacon)).Reach
      (fun s event => s.1.undisturbed event ∧ s.1.emptied event) (.new beacon () (), []) :=
    .start ⟨⟨(), (), rfl⟩, rfl⟩
  obtain ⟨⟨s, log⟩, h, hp⟩ := hstart.exists_checked signalling (p := fun s => finished s = true) (by decide)
  obtain ⟨hover, haccepted⟩ := Bool.and_eq_true_iff.mp hp
  have haccepted := of_decide_eq_true haccepted
  obtain ⟨hcasts, hdispatched, -⟩ := casts_dispatched h hover
  rw [haccepted] at hcasts
  obtain ⟨e, hevents, -⟩ := List.map_eq_singleton_iff.mp hcasts.symm
  exact ⟨s, log, h, hover, haccepted, e, hevents, hdispatched e (hevents ▸ List.mem_cons_self)⟩

/-- a cast is never dispatched when the last reference is dropped right after it -/
theorem casts_dispatched_abandoning :
    ∃ (s : Server Unit Unit Unit Unit Unit) (log : List (Unit ⊕ Entry Unit)),
      ((statemMachine Unit Unit beacon).logged (Server.traffic beacon)).Reach
        (fun s event => s.1.undisturbed event) (s, log) ∧
      s.phase.isOver = true ∧ acceptedCasts log = [()] ∧ ∀ e, Sum.inr (Entry.dispatched e) ∉ log := by
  have hstart : ((statemMachine Unit Unit beacon).logged (Server.traffic beacon)).Reach
      (fun s event => s.1.undisturbed event) (.new beacon () (), []) := .start ⟨⟨(), (), rfl⟩, rfl⟩
  obtain ⟨⟨s, log⟩, h, hp, hleft⟩ := hstart.exists_checked abandoning
    (p := fun s => finished s = true ∧ ∀ x ∈ s.2, x.isLeft) (by decide)
  obtain ⟨hover, haccepted⟩ := Bool.and_eq_true_iff.mp hp
  exact ⟨s, log, h, hover, of_decide_eq_true haccepted, fun e he => Bool.false_ne_true (hleft _ he)⟩

end Rebar.Statem

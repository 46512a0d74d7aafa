import Rebar.GenStatem.Messages
import Rebar.Lib.Log

/-!
# Enter events

With `state_enter` the first event that is dispatched in a state is its enter event.
-/

namespace Rebar.Statem

variable {State Data Call Cast Reply : Type} {statem : GenStatem State Call Cast} {state : State}
  {s s' : Server State Data Call Cast Reply} {cur cur' : List QueuedEvent} {e : QueuedEvent}
  {log entries : List (Entry State)} {name : String}

/-! ## the enter event that is due -/

def Entry.turns : Entry State → Bool
  | .dispatched _ => true
  | .left _ => true
  | _ => false

def Entry.asks (debug : State → String) : Entry State → Option String
  | .left state => some (debug state)
  | _ => none

/-- the name in the enter event that is due: of the first state at the start, and of the state that
was left after a change, until an event is dispatched -/
def due (debug : State → String) (state : State) (log : List (Entry State)) : Option String :=
  Log.latest Entry.turns (Entry.asks debug) (some (debug state)) log

theorem due_append_quiet (debug : State → String) (state : State) (log : List (Entry State))
    (h : ∀ x ∈ entries, x.turns = false) :
    due debug state (log ++ entries) = due debug state log := by
  rw [due, Log.latest_append, Log.latest_of_not h, due]

theorem due_snoc (debug : State → String) (state : State) (log : List (Entry State))
    {x : Entry State} (h : x.turns = true) : due debug state (log ++ [x]) = x.asks debug := by
  rw [due, Log.latest_append, Log.latest_cons, Log.update, if_pos h]
  rfl

theorem turns_finished {acts settled : List (Entry State)} {pushed : List QueuedEvent}
    (hacts : ∀ x ∈ acts, x.isTimer = true) (hsettled : Settled e settled pushed) :
    ∀ x ∈ acts ++ settled, x.turns = false := by
  intro x hx
  rcases List.mem_append.mp hx with hx | hx
  · have hx := hacts x hx
    cases x with
    | armed | cancelled => rfl
    | dequeued | dispatched | left | postponed | consumed | dropped | entered => cases hx
  · cases hsettled with
    | unnumbered => cases hx
    | consumed | dropped | postponed =>
      rw [List.mem_singleton.mp hx]
      rfl

/-- the entries agree with what is due before them: an enter event is dispatched when it is due, and
only then, and a state is left when none is due -/
structure Welcome (due : Option String) (x : Entry State) : Prop where
  dispatched : ∀ e name, x = .dispatched e → (e.eventType = .enter name ↔ due = some name)
  left : ∀ old, x = .left old → due = none

theorem Welcome.of_turns {due : Option String} {x : Entry State} (h : x.turns = false) :
    Welcome due x := by
  refine ⟨fun e name hx => ?_, fun old hx => ?_⟩
  · rw [hx] at h
    cases h
  · rw [hx] at h
    cases h

/-! ## the enter event in the queue -/

def EventType.isEnter : EventType → Bool
  | .enter _ => true
  | _ => false

theorem isEnter_of_isMessage {eventType : EventType} (h : eventType.isMessage = true) :
    eventType.isEnter = false := by
  cases eventType with
  | call | cast | info => rfl
  | stateTimeout | timeout | eventTimeout | internal | enter => cases h

theorem isEnter_timeout (kind : TimeoutKind) : kind.eventType.isEnter = false := by
  cases kind <;> rfl

theorem enter_iff_none (h : e.eventType.isEnter = false) (name : String) :
    e.eventType = .enter name ↔ none = some name := by
  refine ⟨fun heq => ?_, nofun⟩
  rw [heq] at h
  cases h

/-- the enter event that is due is at the front of the queue, and there is no other -/
structure Entering (statem : GenStatem State Call Cast) (state : State)
    (s : Server State Data Call Cast Reply) (log : List (Entry State)) : Prop where
  queue : ∃ rest,
    s.loop.internalQueue = (due statem.debug state log).toList.map enterEvent ++ rest ∧
      ∀ e ∈ rest, e.eventType.isEnter = false
  postponed : ∀ e ∈ s.loop.postponed, e.eventType.isEnter = false
  idle : (due statem.debug state log).isSome = true → s.phase = .idle
  prior : Log.Prior (fun before x => Welcome (due statem.debug state before) x) log

theorem Entering.due_eq_none (h : Entering statem state s log) (hcur : s.phase.Handles [e]) :
    due statem.debug state log = none := by
  cases hdue : due statem.debug state log with
  | none => rfl
  | some name =>
    have hidle := h.idle (by rw [hdue]; rfl)
    rw [hidle] at hcur
    cases hcur

theorem Entering.of_turns (h : Entering statem state s log)
    (hturns : ∀ x ∈ entries, x.turns = false)
    (hqueue : ∃ new, s'.loop.internalQueue = s.loop.internalQueue ++ new ∧
      ∀ e ∈ new, e.eventType.isEnter = false)
    (hpost : ∀ e ∈ s'.loop.postponed, e.eventType.isEnter = false)
    (hidle : (due statem.debug state log).isSome = true → s'.phase = .idle) :
    Entering statem state s' (log ++ entries) := by
  have hdue : due statem.debug state (log ++ entries) = due statem.debug state log :=
    due_append_quiet _ _ _ hturns
  refine ⟨?_, hpost, hdue ▸ hidle, h.prior.append fun start x after heq => ?_⟩
  · obtain ⟨rest, hrest, hno⟩ := h.queue
    obtain ⟨new, hnew, hno'⟩ := hqueue
    refine ⟨rest ++ new, ?_, fun e he => ?_⟩
    · rw [hdue, hnew, hrest, List.append_assoc]
    · exact (List.mem_append.mp he).elim (hno e) (hno' e)
  · exact .of_turns (hturns x (heq ▸ List.mem_append_right _ List.mem_cons_self))

theorem Entering.dispatched (h : Entering statem state s log) (start : List (Entry State))
    (hstart : ∀ x ∈ start, x.turns = false)
    (he : ∀ name, e.eventType = .enter name ↔ due statem.debug state log = some name)
    (hqueue : ∀ e ∈ s'.loop.internalQueue, e.eventType.isEnter = false)
    (hpost : s'.loop.postponed = s.loop.postponed) :
    Entering statem state s' (log ++ (start ++ [Entry.dispatched e])) := by
  have hdue : due statem.debug state (log ++ (start ++ [Entry.dispatched e])) = none := by
    rw [← List.append_assoc, due_snoc _ _ _ rfl]
    rfl
  refine ⟨⟨_, ?_, hqueue⟩, hpost ▸ h.postponed, fun hsome => ?_, ?_⟩
  · rw [hdue]
    rfl
  · rw [hdue] at hsome
    cases hsome
  · rw [← List.append_assoc]
    refine Log.Prior.snoc (h.prior.append fun first x after heq => ?_) ⟨?_, nofun⟩
    · exact .of_turns (hstart x (heq ▸ List.mem_append_right _ List.mem_cons_self))
    · intro e' name heq
      cases heq
      rw [due_append_quiet _ _ _ hstart]
      exact he name

theorem Entering.left (h : Entering statem state s log) {old : State} {results : List (Entry State)}
    (hresults : ∀ x ∈ results, x.turns = false) (hnone : due statem.debug state log = none)
    (hphase : s'.phase = .idle)
    (hqueue : ∃ rest, s'.loop.internalQueue = enterEvent (statem.debug old) :: rest ∧
      ∀ e ∈ rest, e.eventType.isEnter = false)
    (hpost : ∀ e ∈ s'.loop.postponed, e.eventType.isEnter = false) :
    Entering statem state s' (log ++ ([Entry.left old] ++ results ++ [Entry.entered])) := by
  have hquiet : ∀ x ∈ results ++ [Entry.entered], x.turns = false := by
    intro x hx
    rcases List.mem_append.mp hx with hx | hx
    · exact hresults x hx
    · rw [List.mem_singleton.mp hx]
      rfl
  rw [List.append_assoc, ← List.append_assoc]
  have hdue : due statem.debug state (log ++ [Entry.left old] ++ (results ++ [Entry.entered])) =
      some (statem.debug old) := by
    rw [due_append_quiet _ _ _ hquiet, due_snoc _ _ _ rfl]
    rfl
  refine ⟨?_, hpost, fun _ => hphase, ?_⟩
  · rw [hdue]
    exact hqueue
  · refine Log.Prior.append (h.prior.snoc ⟨nofun, fun _ _ => hnone⟩) fun first x after heq => ?_
    exact .of_turns (hquiet x (heq ▸ List.mem_append_right _ List.mem_cons_self))

theorem isEnter_internal {new : List QueuedEvent}
    (h : ∀ x ∈ new, ∃ payload, x = ⟨.internal, payload, false, none⟩) :
    ∀ x ∈ new, x.eventType.isEnter = false := by
  intro x hx
  obtain ⟨payload, rfl⟩ := h x hx
  rfl

theorem Entering.pushed (h : Entering statem state s log) (he : e.WellFormed)
    {settled : List (Entry State)} {pushed : List QueuedEvent}
    (hsettled : Settled e settled pushed) :
    ∀ x ∈ s.loop.postponed ++ pushed, x.eventType.isEnter = false := by
  intro x hx
  rcases List.mem_append.mp hx with hx | hx
  · exact h.postponed x hx
  · exact isEnter_of_isMessage (hsettled.isMessage he hx)

theorem Entering.step (h : Entering statem state s log) (hon : statem.stateEnter = true)
    (hcur : s.phase.Handles cur) (hwf : ∀ e ∈ cur, e.WellFormed)
    (hm : Moved statem s cur entries s' cur') : Entering statem state s' (log ++ entries) := by
  obtain ⟨rest, hrest, hno⟩ := h.queue
  -- with an empty queue nothing is due
  have hempty : s.loop.internalQueue = [] → due statem.debug state log = none := by
    intro hnil
    rw [hrest] at hnil
    cases hdue : due statem.debug state log with
    | none => rfl
    | some name =>
      rw [hdue] at hnil
      cases hnil
  cases hm with
  | still hpost hqueue harr hidle =>
    refine h.of_turns nofun ⟨[], by rw [hqueue, List.append_nil], nofun⟩ (hpost ▸ h.postponed)
      fun hsome => hidle (h.idle hsome) fun hnil => ?_
    rw [hempty hnil] at hsome
    cases hsome
  | popped hpost hqueue harr =>
    rw [hqueue] at hrest
    cases hdue : due statem.debug state log with
    | none =>
      rw [hdue, Option.toList_none, List.map_nil, List.nil_append] at hrest
      subst hrest
      refine h.dispatched [] nofun (hdue ▸ enter_iff_none (hno _ List.mem_cons_self))
        (fun e he => hno e (List.mem_cons_of_mem _ he)) hpost
    | some name =>
      rw [hdue] at hrest
      obtain ⟨rfl, rfl⟩ := List.cons.inj hrest
      refine h.dispatched [] nofun (fun name' => ?_) hno hpost
      rw [hdue]
      exact ⟨fun heq => by cases heq; rfl, fun heq => by cases heq; rfl⟩
  | fired hpost hqueue hqueue' harr =>
    refine h.dispatched [] nofun (hempty hqueue ▸ enter_iff_none ?_)
      (hqueue' ▸ nofun) hpost
    exact isEnter_timeout _
  | received htype hpost hqueue hqueue' harr =>
    refine h.dispatched [_] (fun x hx => ?_)
      (hempty hqueue ▸ enter_iff_none (isEnter_of_isMessage htype)) (hqueue' ▸ nofun) hpost
    rw [List.mem_singleton.mp hx]
    rfl
  | finished hacts hsettled hnew hpost hqueue harr =>
    refine h.of_turns (turns_finished hacts hsettled) ⟨_, hqueue, isEnter_internal hnew⟩ ?_ ?_
    · rw [hpost]
      exact h.pushed (hwf _ List.mem_cons_self) hsettled
    · rw [h.due_eq_none hcur]
      nofun
  | changed hacts hsettled hnew hpost hqueue harr hphase =>
    have hnone := h.due_eq_none hcur
    rw [hnone, Option.toList_none, List.map_nil, List.nil_append] at hrest
    refine h.left (turns_finished hacts hsettled) hnone hphase ?_ (hpost ▸ nofun)
    refine ⟨_, by rw [hqueue, enters, if_pos hon, List.singleton_append], fun x hx => ?_⟩
    rcases List.mem_append.mp hx with hx | hx
    · exact h.pushed (hwf _ List.mem_cons_self) hsettled x hx
    · exact (List.mem_append.mp hx).elim (hrest ▸ hno x) (isEnter_internal hnew x)

/-! ## every run -/

theorem entering_new (hon : statem.stateEnter = true) (data : Data) :
    Entering statem state (.new statem state data : Server State Data Call Cast Reply) [] := by
  refine ⟨⟨[], ?_, nofun⟩, nofun, fun _ => rfl, Log.Prior.nil⟩
  show enters statem state = _
  rw [enters, if_pos hon]
  rfl

variable [BEq State]

theorem turn_popped {rest : List QueuedEvent} (hidle : s.phase = .idle)
    (hqueue : s.loop.internalQueue = e :: rest) (poll : Poll) :
    ∃ s', s.next statem (.turn poll) = some s' ∧
      s.entries statem (.turn poll) = [.dispatched e] := by
  have htake : s.take statem poll =
      some ({ s with loop := { s.loop with internalQueue := rest } }, .event e) := by
    rw [Server.take, hqueue]
  have hturn : s.turn statem poll =
      some ({ s with loop := { s.loop with internalQueue := rest } }.dispatchEvent e) := by
    rw [Server.turn, hidle, htake]
    rfl
  refine ⟨_, hturn, ?_⟩
  unfold Server.entries
  dsimp only
  rw [hidle, htake, hqueue]
  show [] ++ e.dispatched.toList.map Entry.dispatched = _
  rw [QueuedEvent.dispatched_eq]
  rfl

/-- in every run the first event that is dispatched is the enter event of the first state, the first
after a change of the state is the enter event with the name of the state that was left, and no
other event is an enter event; an enter event that is due is dispatched by the next turn -/
theorem enter_first (hon : statem.stateEnter = true) {data : Data}
    (h : (((statemMachine Data Reply statem).startedAt (.new statem state data)).logged
      (Server.entries statem)).Reach Machine.Anytime (s, log)) :
    (∀ before e after name, log = before ++ Entry.dispatched e :: after →
      (e.eventType = .enter name ↔ due statem.debug state before = some name)) ∧
    (∀ before old after, log = before ++ Entry.left old :: after →
      due statem.debug state before = none) ∧
    ∀ name poll, due statem.debug state log = some name →
      ∃ s', s.next statem (.turn poll) = some s' ∧
        s.entries statem (.turn poll) = [.dispatched (enterEvent name)] := by
  have hent : Entering statem state s log := by
    refine inv_of_moved rfl (fun s hs => ⟨state, data, hs⟩) (fun s hs => ?_) ?_ h
    · rw [hs]
      exact entering_new hon data
    · intro s log cur entries s' cur' hent hcur hwf _ hm
      exact hent.step hon hcur hwf hm
  refine ⟨fun before e after name heq => ?_, fun before old after heq => ?_,
    fun name poll hdue => ?_⟩
  · exact (hent.prior before _ after heq).dispatched e name rfl
  · exact (hent.prior before _ after heq).left old rfl
  · obtain ⟨rest, hrest, -⟩ := hent.queue
    have hidle := hent.idle (by rw [hdue]; rfl)
    rw [hdue] at hrest
    exact turn_popped hidle hrest poll

private def lamp : GenStatem Bool Unit Unit :=
  .plain true fun lit => if lit then "Lit" else "Dark"

/-- a cast is there, and the enter event of the first state lights the lamp and adds an event -/
private def lighting : List (Event Bool Unit Unit Unit Unit) :=
  [.cast (), .turn .early, .handled 0 () (.nextState true () [.nextEvent .nil])]

private def lights : List (Entry Bool) → Bool
  | [.dispatched _, .left false, .entered] => true
  | _ => false

private theorem exists_of_lights {log : List (Entry Bool)} (h : lights log = true) :
    ∃ e, log = [.dispatched e, .left false, .entered] := by
  unfold lights at h
  split at h
  · exact ⟨_, rfl⟩
  · cases h

theorem enter_first_lighting :
    ∃ (s : Server Bool Unit Unit Unit Unit) (e : QueuedEvent),
      (((statemMachine Unit Unit lamp).startedAt (.new lamp false ())).logged
        (Server.entries lamp)).Reach Machine.Anytime (s, [.dispatched e, .left false, .entered]) ∧
      e.eventType = .enter "Dark" ∧ s.loop.internalQueue.length = 2 ∧
      ∃ s', s.next lamp (.turn .early) = some s' ∧
        s.entries lamp (.turn .early) = [.dispatched (enterEvent "Dark")] := by
  have hstart : (((statemMachine Unit Unit lamp).startedAt (.new lamp false ())).logged
      (Server.entries lamp)).Reach Machine.Anytime (.new lamp false (), []) := .start ⟨rfl, rfl⟩
  obtain ⟨⟨s, log⟩, h, hlog, hlength⟩ := hstart.exists_run lighting
    (p := fun s => lights s.2 = true ∧ s.1.loop.internalQueue.length = 2) (by decide)
  obtain ⟨e, rfl⟩ := exists_of_lights hlog
  obtain ⟨hdispatched, -, hturn⟩ := enter_first rfl h
  exact ⟨s, e, h, (hdispatched [] e _ "Dark" rfl).mpr rfl, hlength, hturn "Dark" .early rfl⟩

end Rebar.Statem

import Rebar.GenServer.History
import Rebar.Lib.Log

/-!
# The continue events of a server

What `continue_with` queues is passed to `handle_continue` in the order queued, one event each time the
loop comes round, so that events which queue others cannot starve the messages.  An event is ahead of the
next message if it is alone in its queue when the loop comes round.

* `Note`, `noted`   the payloads that are queued and the callbacks that are called, in one log;
* `Single`          the condition: a callback of the loop queues at most one event, and
                    `handle_continue` and the callbacks of the shutdown queue none.
-/

namespace Rebar.GenServer

variable {State Call Cast Reply : Type}

inductive Note (Call Cast : Type) where
  | queued (payload : Value)
  | called (callback : Callback Call Cast)

/-- what a callback that returns has queued -/
def Event.queues : Event State Call Cast Reply → List Value
  | .returned _ continues => continues
  | .replied _ continues _ => continues
  | _ => []

def Entry.note : Entry State Call Cast Reply → Option (Note Call Cast)
  | .called callback => some (.called callback)
  | _ => none

def notes (event : Event State Call Cast Reply) (entries : List (Entry State Call Cast Reply)) :
    List (Note Call Cast) :=
  event.queues.map .queued ++ entries.filterMap Entry.note

def noted (id : Identity) (s : Server State Call Cast) (event : Event State Call Cast Reply) :
    List (Note Call Cast) :=
  notes event (s.entries id event)

def Note.queuedPayload : Note Call Cast → Option Value
  | .queued payload => some payload
  | .called _ => none

def Note.passedPayload : Note Call Cast → Option Value
  | .called (.continuation payload) => some payload
  | _ => none

def queuedPayloads (log : List (Note Call Cast)) : List Value := log.filterMap Note.queuedPayload

def passedPayloads (log : List (Note Call Cast)) : List Value := log.filterMap Note.passedPayload

/-- `handle_call`, `handle_cast` or `handle_info` -/
def Callback.isExternal : Callback Call Cast → Bool
  | .continuation _ => false
  | _ => true

/-- how many events a callback may queue: one if the task then goes on at the head of the loop -/
def Phase.allowance : Phase Call Cast → Nat
  | .handling _ .top => 1
  | _ => 0

def Single (s : Server State Call Cast) (event : Event State Call Cast Reply) : Prop :=
  event.queues.length ≤ s.phase.allowance

instance (s : Server State Call Cast) (event : Event State Call Cast Reply) :
    Decidable (Single s event) :=
  inferInstanceAs (Decidable (event.queues.length ≤ s.phase.allowance))

variable {id : Identity} {s s' s₁ : Server State Call Cast} {event : Event State Call Cast Reply}
  {entries : List (Entry State Call Cast Reply)} {log : List (Note Call Cast)} {init : List Value}
  {place after : Place} {callback : Callback Call Cast}

/-! ## the order of the payloads -/

theorem queuedPayloads_append (log new : List (Note Call Cast)) :
    queuedPayloads (log ++ new) = queuedPayloads log ++ queuedPayloads new := List.filterMap_append

theorem passedPayloads_append (log new : List (Note Call Cast)) :
    passedPayloads (log ++ new) = passedPayloads log ++ passedPayloads new := List.filterMap_append

theorem queuedPayloads_queued (payloads : List Value) :
    queuedPayloads (payloads.map .queued : List (Note Call Cast)) = payloads := by
  induction payloads with
  | nil => rfl
  | cons payload payloads ih => exact congrArg (payload :: ·) ih

theorem passedPayloads_queued (payloads : List Value) :
    passedPayloads (payloads.map .queued : List (Note Call Cast)) = [] := by
  induction payloads with
  | nil => rfl
  | cons payload payloads ih => exact ih

theorem Takes.continues (h : Takes s place callback after s₁) :
    s.continues = passedPayloads [.called callback] ++ s₁.continues := by
  cases h with
  | first h | next h => exact h
  | call | cast | info | castDrain | infoDrain => rfl

theorem Stepped.continues (h : Stepped id s event entries s') :
    s.continues ++ queuedPayloads (notes event entries)
      = passedPayloads (notes event entries) ++ s'.continues := by
  cases h with
  | handed _ htakes => rw [htakes.continues]; exact List.append_nil _
  | @returned _ _ _ continues | @replied _ _ _ continues =>
    show s.continues ++ queuedPayloads (continues.map Note.queued ++ []) =
      passedPayloads (continues.map Note.queued ++ []) ++ (s.continues ++ continues)
    rw [List.append_nil, queuedPayloads_queued, passedPayloads_queued, List.nil_append]
  | call | cast | info | command | dropReference | removed | moved | obeyed | terminating |
    panicked | panickedLast | terminated => exact List.append_nil _

/-- what was queued is what was passed and what is pending -/
def InOrder (init : List Value) (s : Server State Call Cast) (log : List (Note Call Cast)) : Prop :=
  init ++ queuedPayloads log = passedPayloads log ++ s.continues

theorem InOrder.step (h : InOrder init s log) (hs : Stepped id s event entries s') :
    InOrder init s' (log ++ notes event entries) := by
  unfold InOrder at *
  rw [queuedPayloads_append, passedPayloads_append, ← List.append_assoc, h, List.append_assoc,
    hs.continues, List.append_assoc]

/-! ## one event at a time -/

/-- a pending event is alone, and the task is about to take it -/
def AtHead (s : Server State Call Cast) : Prop :=
  s.continues = [] ∨ ∃ payload, s.continues = [payload] ∧ s.phase = .at .top

theorem AtHead.elsewhere (h : AtHead s) (hphase : s.phase ≠ .at .top) : s.continues = [] := by
  rcases h with hnil | ⟨payload, -, htop⟩
  · exact hnil
  · exact absurd htop hphase

/-- only `handle_continue` is called from the head of the loop -/
theorem Takes.external (h : Takes s place callback after s₁) (hcallback : callback.isExternal = true) :
    place ≠ .top ∧ s₁.continues = s.continues := by
  cases h with
  | first | next => cases hcallback
  | call | cast | info | castDrain | infoDrain => exact ⟨nofun, rfl⟩

theorem AtHead.takes (h : AtHead s) (hphase : s.phase = .at place)
    (htakes : Takes s place callback after s₁) : s₁.continues = [] := by
  have helsewhere : place ≠ .top → s.continues = [] := by
    intro hne
    apply h.elsewhere
    rw [hphase]
    exact fun heq => hne (Phase.at.inj heq)
  cases htakes with
  | @first payload continues hc =>
    rcases h with hnil | ⟨payload', hone, -⟩
    · rw [hc] at hnil
      cases hnil
    · rw [hc] at hone
      exact (List.cons.inj hone).2
  | next hc =>
    rw [helsewhere nofun] at hc
    cases hc
  | call | cast | info | castDrain | infoDrain => exact helsewhere nofun

theorem AtHead.step (h : AtHead s) (hok : Single s event) (hs : Stepped id s event entries s') :
    AtHead s' := by
  unfold Single at hok
  cases hs with
  | call | cast | info | command | dropReference | removed => exact h
  | moved hphase hmoves =>
    refine Or.inl ?_
    rcases h with hnil | ⟨payload, hone, htop⟩
    · exact hnil
    · rw [hphase] at htop
      cases htop
      cases hmoves with
      | top hnil => exact hnil
  | handed hphase htakes =>
    have htaken := h.takes hphase htakes
    exact Or.inl htaken
  | obeyed hphase hobeys =>
    refine Or.inl (h.elsewhere ?_)
    rw [hphase]
    cases hobeys <;> nofun
  | terminating hphase | panicked hphase | panickedLast hphase | terminated hphase =>
    refine Or.inl (h.elsewhere ?_)
    rw [hphase]
    exact nofun
  | @returned _ after _ continues hphase | @replied _ after _ continues _ hphase =>
    -- nothing was pending while the callback ran
    have hnil : s.continues = [] := h.elsewhere (by rw [hphase]; exact nofun)
    rw [hphase] at hok
    replace hok : continues.length ≤ _ := hok
    show s.continues ++ continues = [] ∨ ∃ payload, s.continues ++ continues = [payload] ∧ _
    rw [hnil, List.nil_append]
    cases continues with
    | nil => exact Or.inl rfl
    | cons payload continues =>
      cases after with
      | top =>
        have hlen : continues.length = 0 := Nat.le_zero.mp (Nat.le_of_succ_le_succ hok)
        rw [List.length_eq_zero_iff.mp hlen]
        exact Or.inr ⟨payload, rfl, rfl⟩
      | sysDrain | suspended | select | castDrain | infoDrain | terminate | ended => cases hok

/-! ## ahead of the next message -/

/-- when a message is handed to its callback, nothing is pending -/
def Ahead (init : List Value) (before : List (Note Call Cast)) (note : Note Call Cast) : Prop :=
  ∀ callback, note = .called callback → callback.isExternal = true →
    init ++ queuedPayloads before = passedPayloads before

theorem Ahead.step (horder : InOrder init s log) (hhead : AtHead s)
    (hs : Stepped id s event entries s') (h : Log.Prior (Ahead init) log) :
    Log.Prior (Ahead init) (log ++ notes event entries) := by
  -- a step that only queues payloads, or notes nothing
  have hqueues : ∀ payloads : List Value,
      Log.Prior (Ahead init) (log ++ (payloads.map Note.queued ++ [])) := by
    intro payloads
    refine h.append fun start note after heq callback hcalled => ?_
    have hmem : note ∈ payloads.map Note.queued := by
      rw [List.append_nil] at heq
      rw [heq]
      exact List.mem_append_right _ List.mem_cons_self
    obtain ⟨payload, -, hnote⟩ := List.mem_map.mp hmem
    rw [hcalled] at hnote
    cases hnote
  cases hs with
  | @handed place after callback s₁ hphase htakes =>
    refine h.snoc fun callback' heq hexternal => ?_
    cases heq
    have hnil : s.continues = [] := by
      apply hhead.elsewhere
      rw [hphase]
      exact fun htop => (htakes.external hexternal).1 (Phase.at.inj htop)
    unfold InOrder at horder
    rw [hnil, List.append_nil] at horder
    exact horder
  | returned | replied => exact hqueues _
  | call | cast | info | command | dropReference | removed | moved | obeyed | terminating |
    panicked | panickedLast | terminated => exact hqueues []

abbrev notedMachine (State Call Cast Reply : Type) (id : Identity) (state : State)
    (init : List Value) : Machine (Server State Call Cast × List (Note Call Cast))
      (Event State Call Cast Reply) :=
  ((serverMachine State Call Cast Reply id).startedAt (.new state init)).logged (noted id)

/-- **Continue events are passed in order, the oldest one at every head of the loop.**  If `init` and every
callback of the loop queue at most one event, and `handle_continue` none, then whenever a message is handed to
its callback all that was queued before has been passed. -/
theorem continues_ahead {state : State}
    (h : (notedMachine State Call Cast Reply id state init).Reach Machine.Anytime (s, log)) :
    init ++ queuedPayloads log = passedPayloads log ++ s.continues ∧
    (∀ payload rest, s.phase = .at .top → s.continues = payload :: rest →
      ∃ s', s.next id (.advance : Event State Call Cast Reply) = some s' ∧
        noted id s (.advance : Event State Call Cast Reply) = [.called (.continuation payload)] ∧
        s'.continues = rest) ∧
    (init.length ≤ 1 → (notedMachine State Call Cast Reply id state init).Reach
      (fun s event => Single s.1 event) (s, log) →
      (∀ payload ∈ s.continues, s.continues = [payload] ∧ s.phase = .at .top) ∧
      ∀ before callback after, log = before ++ .called callback :: after →
        callback.isExternal = true → init ++ queuedPayloads before = passedPayloads before) := by
  refine ⟨?_, fun payload rest htop hc => ?_, fun hinit hsingle => ?_⟩
  · refine h.inv_logged (I := fun s log => InOrder init s log) (fun s hs => ?_) fun s log event s' hi hn =>
      hi.step (next_cases hn)
    cases hs
    exact List.append_nil _
  · simp [Server.next, noted, notes, Server.entries, Server.step, htop, Server.advance, hc,
      Server.hand, Event.queues, Entry.note]
  · have hinv : InOrder init s log ∧ AtHead s ∧ Log.Prior (Ahead init) log := by
      refine hsingle.inv_logged_of (I := fun s log => InOrder init s log ∧ AtHead s ∧
        Log.Prior (Ahead init) log) (fun s hs => ?_) fun s log event s' hi hok hn => ?_
      · cases hs
        refine ⟨List.append_nil _, ?_, Log.Prior.nil⟩
        cases init with
        | nil => exact Or.inl rfl
        | cons payload rest =>
          have hlen : rest.length = 0 := Nat.le_zero.mp (Nat.le_of_succ_le_succ hinit)
          rw [List.length_eq_zero_iff.mp hlen]
          exact Or.inr ⟨payload, rfl, rfl⟩
      · have hs := next_cases hn
        exact ⟨hi.1.step hs, hi.2.1.step hok hs, Ahead.step hi.1 hi.2.1 hs hi.2.2⟩
    refine ⟨fun payload hmem => ?_, fun before callback after heq => hinv.2.2 before _ after heq callback rfl⟩
    rcases hinv.2.1 with hnil | ⟨payload', hone, htop⟩
    · rw [hnil] at hmem
      cases hmem
    · rw [hone] at hmem
      rw [List.mem_singleton.mp hmem]
      exact ⟨hone, htop⟩

/-- a call arrives, and the loop runs until it takes it; `handle_continue` queues `more` -/
private def callArrives (more : List Value) : List (Event Unit Unit Unit Unit) :=
  [.call () 0, .advance, .returned () more, .advance, .advance, .advance]

/-- `handle_continue` has been called with the first event -/
private def passedOne : List (Note Unit Unit) := [.called (.continuation .nil)]

private def answering : Note Unit Unit := .called (.call ⟨(), ⟨0, 0⟩, 0⟩)

theorem continues_ahead_call : ∃ s log,
    (notedMachine Unit Unit Unit Unit .first () [.nil]).Reach (fun s event => Single s.1 event)
      (s, log) ∧
    log = passedOne ++ [answering] ∧ [.nil] ++ queuedPayloads passedOne = passedPayloads passedOne := by
  have hstart : (notedMachine Unit Unit Unit Unit .first () [.nil]).Reach
      (fun s event => Single s.1 event) (.new () [.nil], []) := .start ⟨rfl, rfl⟩
  obtain ⟨⟨s, log⟩, hs, hlog⟩ := hstart.exists_checked (callArrives [])
    (p := fun s => s.2 = passedOne ++ [answering]) ⟨_, rfl, rfl⟩
  have hone : [Value.nil].length ≤ 1 := Nat.le_refl 1
  exact ⟨s, log, hs, hlog, ((continues_ahead hs.anytime).2.2 hone hs).2 passedOne _ [] hlog rfl⟩

/-- what `handle_continue` queues waits for the message -/
theorem continues_overtaken : ∃ s log,
    (notedMachine Unit Unit Unit Unit .first () [.nil]).Reach Machine.Anytime (s, log) ∧
      log = passedOne ++ [.queued (.boolean true), answering] ∧ s.continues = [.boolean true] := by
  have hstart : (notedMachine Unit Unit Unit Unit .first () [.nil]).Reach
      Machine.Anytime (.new () [.nil], []) := .start ⟨rfl, rfl⟩
  obtain ⟨⟨s, log⟩, h⟩ := hstart.exists_run (callArrives [.boolean true])
    (p := fun s => s.2 = passedOne ++ [.queued (.boolean true), answering] ∧
      s.1.continues = [.boolean true]) ⟨_, rfl, rfl, rfl⟩
  exact ⟨s, log, h⟩

end Rebar.GenServer

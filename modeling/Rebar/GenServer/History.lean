import Rebar.GenServer.Engine

/-!
# The steps of a server

* `Moves`     the task goes from one place to another;
* `Stepped`   what a step can do, and `step_cases` that these are all steps.
-/

namespace Rebar.GenServer

variable {State Call Cast Reply : Type}

def Server.closed (s : Server State Call Cast) : Arm → Bool
  | .sys => !s.reference.holdsSys
  | .calls => !s.reference.holdsCalls
  | .casts => !s.reference.holdsCasts
  | .mailbox => !s.inTable
  | .continues => false

inductive Moves (s : Server State Call Cast) : Place → Place → Prop where
  | top (h : s.continues = []) : Moves s .top .sysDrain
  | wait (h : s.sys = []) (hsuspended : s.debug.suspended = true) : Moves s .sysDrain .suspended
  | poll (h : s.sys = []) (hrunning : s.debug.suspended = false) :
      Moves s .sysDrain (.select .sys)
  | sys (h : s.sys = []) (hheld : s.reference.holdsSys = true) :
      Moves s (.select .sys) (.select .calls)
  | calls (h : s.calls = []) (hheld : s.reference.holdsCalls = true) :
      Moves s (.select .calls) (.select .casts)
  | casts (h : s.casts = []) (hheld : s.reference.holdsCasts = true) :
      Moves s (.select .casts) (.select .mailbox)
  | mailbox (h : s.mailbox = []) (hheld : s.inTable = true) :
      Moves s (.select .mailbox) (.select .continues)
  | continues (h : s.continues = []) : Moves s (.select .continues) (.select .sys)
  | closed (arm : Arm) (h : s.closed arm = true) : Moves s (.select arm) .castDrain
  | released (h : s.sys = []) (hfree : s.reference.holdsSys = false) :
      Moves s .suspended (if s.debug.suspended then .castDrain else .top)
  | drained (h : s.casts = []) : Moves s .castDrain .infoDrain

/-- the callback that a message is for, where the task goes on, and the server without the message -/
inductive Takes (s : Server State Call Cast) :
    Place → Callback Call Cast → Place → Server State Call Cast → Prop where
  | first {payload : Value} {continues : List Value} (h : s.continues = payload :: continues) :
      Takes s .top (.continuation payload) .sysDrain { s with continues := continues }
  | call {envelope : CallEnvelope Call} {calls : List (CallEnvelope Call)}
      (h : s.calls = envelope :: calls) :
      Takes s (.select .calls) (.call envelope) .top { s with calls := calls }
  | cast {msg : Cast} {casts : List Cast} (h : s.casts = msg :: casts) :
      Takes s (.select .casts) (.cast msg) .top { s with casts := casts }
  | info {msg : Message} {mailbox : List Message} (h : s.mailbox = msg :: mailbox) :
      Takes s (.select .mailbox) (.info msg) .top { s with mailbox := mailbox }
  | next {payload : Value} {continues : List Value} (h : s.continues = payload :: continues) :
      Takes s (.select .continues) (.continuation payload) .top { s with continues := continues }
  | castDrain {msg : Cast} {casts : List Cast} (h : s.casts = msg :: casts) :
      Takes s .castDrain (.cast msg) .castDrain { s with casts := casts }
  | infoDrain {msg : Message} {mailbox : List Message} (h : s.mailbox = msg :: mailbox) :
      Takes s .infoDrain (.info msg) .infoDrain { s with mailbox := mailbox }

/-- where a command is handled, and where the task goes on when it is a `Resume` and when not -/
inductive Obeys : Place → Place → Place → Prop where
  | sysDrain : Obeys .sysDrain .sysDrain .sysDrain
  | suspended : Obeys .suspended .top .suspended
  | select : Obeys (.select .sys) .top .top

inductive Stepped (id : Identity) (s : Server State Call Cast) :
    Event State Call Cast Reply → List (Entry State Call Cast Reply) → Server State Call Cast →
      Prop where
  | call {msg : Call} {tx : ReplyTx} (hheld : s.reference = .held) :
      Stepped id s (.call msg tx) [] { s with calls := s.calls ++ [⟨msg, ⟨0, 0⟩, tx⟩] }
  | cast {msg : Cast} (hheld : s.reference = .held) :
      Stepped id s (.cast msg) [.accepted msg] { s with casts := s.casts ++ [msg] }
  | info {msg : Message} : Stepped id s (.info msg) [] { s with mailbox := s.mailbox ++ [msg] }
  | command {cmd : SysCommand} (hheld : s.reference = .held) :
      Stepped id s (.command cmd) [] { s with sys := s.sys ++ [cmd] }
  | dropReference : Stepped id s .dropReference [] { s with reference := s.reference.drop }
  | removed : Stepped id s .removed [] { s with inTable := false }
  | moved {place place' : Place} (hphase : s.phase = .at place) (h : Moves s place place') :
      Stepped id s .advance [] { s with phase := .at place' }
  | handed {place after : Place} {callback : Callback Call Cast} {s₁ : Server State Call Cast}
      (hphase : s.phase = .at place) (h : Takes s place callback after s₁) :
      Stepped id s .advance [.called callback] { s₁ with phase := .handling callback after }
  | obeyed {place left stay : Place} {cmd : SysCommand} {sys : List SysCommand}
      (hphase : s.phase = .at place) (h : Obeys place left stay) (hsys : s.sys = cmd :: sys) :
      Stepped id s .advance [.answered (handleSysCommand id s.state s.debug cmd).2.1] { s with
        sys := sys
        debug := (handleSysCommand id s.state s.debug cmd).1
        phase := .at (if (handleSysCommand id s.state s.debug cmd).2.2 then left else stay) }
  | terminating (hphase : s.phase = .at .infoDrain) :
      Stepped id s .advance [.terminating] { s with phase := .at .terminate }
  | returned {callback : Callback Call Cast} {after : Place} {state : State} {continues : List Value}
      (hphase : s.phase = .handling callback after) :
      Stepped id s (.returned state continues) [] { s with
        state := state, continues := s.continues ++ continues, phase := .at after }
  | replied {envelope : CallEnvelope Call} {after : Place} {state : State} {continues : List Value}
      {reply : Reply} (hphase : s.phase = .handling (.call envelope) after) :
      Stepped id s (.replied state continues reply) [.replied envelope.replyTx reply] { s with
        state := state, continues := s.continues ++ continues, phase := .at after }
  | panicked {callback : Callback Call Cast} {after : Place}
      (hphase : s.phase = .handling callback after) :
      Stepped id s .panicked [] { s with phase := .at .ended }
  | panickedLast (hphase : s.phase = .at .terminate) :
      Stepped id s .panicked [] { s with phase := .at .ended }
  | terminated (hphase : s.phase = .at .terminate) :
      Stepped id s .terminated [] { s with phase := .at .ended }

variable {id : Identity} {s s' : Server State Call Cast} {event : Event State Call Cast Reply}
  {entries : List (Entry State Call Cast Reply)} {place : Place}

theorem arm_cases {arm : Arm} {next : Place} {held : Bool} (hphase : s.phase = .at (.select arm))
    (hclosed : s.closed arm = !held) (hmoves : held = true → Moves s (.select arm) next) :
    Stepped id s (.advance : Event State Call Cast Reply) []
      { s with phase := .at (if held then next else .castDrain) } := by
  cases held with
  | true => exact .moved hphase (hmoves rfl)
  | false => exact .moved hphase (.closed arm hclosed)

theorem advance_cases (hphase : s.phase = .at place) (h : s.advance id place = some (s', entries)) :
    Stepped id s .advance entries s' := by
  revert h
  fun_cases Server.advance id s place <;> intro h <;> cases h
  next hc => exact .handed hphase (.first hc)
  next hc => exact .moved hphase (.top hc)
  next hc => exact .obeyed hphase .sysDrain hc
  next hc =>
    cases hsuspended : s.debug.suspended with
    | true => exact .moved hphase (.wait hc hsuspended)
    | false => exact .moved hphase (.poll hc hsuspended)
  next hc => exact .obeyed hphase .suspended hc
  next hc hfree => exact .moved hphase (.released hc (Bool.eq_false_iff.mpr hfree))
  next hc => exact .obeyed hphase .select hc
  next hc => exact arm_cases hphase rfl (.sys hc)
  next hc => exact .handed hphase (.call hc)
  next hc => exact arm_cases hphase rfl (.calls hc)
  next hc => exact .handed hphase (.cast hc)
  next hc => exact arm_cases hphase rfl (.casts hc)
  next hc => exact .handed hphase (.info hc)
  next hc => exact arm_cases hphase rfl (.mailbox hc)
  next hc => exact .handed hphase (.next hc)
  next hc => exact .moved hphase (.continues hc)
  next hc => exact .handed hphase (.castDrain hc)
  next hc => exact .moved hphase (.drained hc)
  next hc => exact .handed hphase (.infoDrain hc)
  next => exact .terminating hphase

/-- **What a step of a server is.** -/
theorem step_cases (h : s.step id event = some (s', entries)) : Stepped id s event entries s' := by
  revert h
  fun_cases Server.step id s event <;> intro h <;> try cases h
  next hheld => exact .call hheld.1
  next hheld => exact .cast hheld.1
  next => exact .info
  next hheld => exact .command hheld.1
  next => exact .dropReference
  next => exact .removed
  next place hphase => exact advance_cases hphase h
  next hphase => exact .returned hphase
  next hphase => exact .replied hphase
  next hphase => exact .panicked hphase
  next hphase => exact .panickedLast hphase
  next hphase => exact .terminated hphase

theorem next_cases (h : s.next id event = some s') :
    Stepped id s event (s.entries id event) s' := by
  obtain ⟨⟨s₁, entries⟩, hstep, rfl⟩ := Option.map_eq_some_iff.mp h
  rw [Server.entries, hstep]
  exact step_cases hstep

end Rebar.GenServer

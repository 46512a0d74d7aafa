import Rebar.GenServer.History
import Rebar.Lib.Log

/-!
# A suspended server

Between the acknowledgement of a `Suspend` and the next `Resume` no callback runs, while the last
reference is not dropped: the task then stands before the wait for commands.  The exception is a
`Suspend` that the `select!` takes while a continue event is queued, since the head of the loop takes
the event before it looks at the flag.
-/

namespace Rebar.GenServer

variable {State Call Cast Reply : Type}

def Entry.isSuspend : Entry State Call Cast Reply → Bool
  | .answered (.suspended _) => true
  | _ => false

def Entry.isResume : Entry State Call Cast Reply → Bool
  | .answered (.resumed _) => true
  | _ => false

/-- `handle_call`, `handle_cast`, `handle_info` or `handle_continue` is called -/
def Entry.isCalled : Entry State Call Cast Reply → Bool
  | .called _ => true
  | _ => false

/-- no continue event is queued when the `select!` takes a `Suspend` -/
def Server.settled (s : Server State Call Cast) : Event State Call Cast Reply → Bool
  | .advance =>
    match s.phase, s.sys with
    | .at (.select .sys), .suspend _ :: _ => s.continues.isEmpty
    | _, _ => true
  | _ => true

/-- no callback can start before the next `Resume` -/
def Parked (s : Server State Call Cast) : Prop :=
  (s.phase = .at .top ∧ s.continues = []) ∨ s.phase = .at .sysDrain ∨ s.phase = .at .suspended

/-- since the acknowledgement: the server was resumed, or it is suspended, nothing was called, and
every query was answered with the present state -/
def Quiet (s : Server State Call Cast) (after : List (Entry State Call Cast Reply)) : Prop :=
  (∃ x ∈ after, x.isResume = true) ∨
    s.debug.suspended = true ∧ (∀ x ∈ after, x.isCalled = false) ∧
      ∀ tx state, Entry.answered (.state tx state) ∈ after → state = s.state

variable {id : Identity} {s s' : Server State Call Cast} {event : Event State Call Cast Reply}
  {log entries : List (Entry State Call Cast Reply)}

theorem Parked.place {place : Place} (h : Parked s) (hphase : s.phase = .at place) :
    (place = .top ∧ s.continues = []) ∨ place = .sysDrain ∨ place = .suspended := by
  unfold Parked at h
  rw [hphase] at h
  simpa using h

variable {callback : Callback Call Cast} {after : List (Entry State Call Cast Reply)}

theorem Parked.not_handling {after : Place} (h : Parked s) :
    s.phase ≠ .handling callback after := by
  intro hphase
  unfold Parked at h
  rw [hphase] at h
  simp at h

theorem Parked.not_takes {place after : Place} {s₁ : Server State Call Cast} (h : Parked s)
    (hphase : s.phase = .at place) : ¬ Takes s place callback after s₁ := by
  intro htakes
  rcases h.place hphase with ⟨rfl, hnil⟩ | rfl | rfl
  · cases htakes with
    | first hcons => cases hnil.symm.trans hcons
  · cases htakes
  · cases htakes

theorem Stepped.reference (hs : Stepped id s event entries s') (h : s.reference = .dropped) :
    s'.reference = .dropped := by
  cases hs with
  | call hheld | cast hheld | command hheld => cases h.symm.trans hheld
  | dropReference =>
    show s.reference.drop = .dropped
    rw [h]
    rfl
  | handed _ htakes =>
    cases htakes <;> exact h
  | info | removed | moved | obeyed | terminating | returned | replied | panicked | panickedLast |
    terminated => exact h

theorem Stepped.parked (hs : Stepped id s event entries s') (hok : s.settled event = true)
    (hheld : s.reference ≠ .dropped) (h : s.debug.suspended = true → Parked s)
    (hsuspended : s'.debug.suspended = true) : Parked s' := by
  cases hs with
  | call | cast | info | command | dropReference | removed => exact h hsuspended
  | moved hphase hmoves =>
    have hplace := (h hsuspended).place hphase
    cases hmoves with
    | top => exact Or.inr (Or.inl rfl)
    | wait => exact Or.inr (Or.inr rfl)
    | poll _ hrunning => cases hsuspended.symm.trans hrunning
    | released _ hfree =>
      refine absurd ?_ hheld
      cases hreference : s.reference with
      | dropped => rfl
      | held | callsDropped | castsDropped =>
        rw [hreference] at hfree
        cases hfree
    | sys | calls | casts | mailbox | continues | closed | drained =>
      rcases hplace with ⟨hplace, -⟩ | hplace | hplace <;> cases hplace
  | handed hphase htakes =>
    have hdebug : s.debug.suspended = true := by
      cases htakes <;> exact hsuspended
    exact absurd htakes ((h hdebug).not_takes hphase)
  | @obeyed place left stay cmd sys hphase hobeys hsys =>
    cases hobeys with
    | sysDrain => exact Or.inr (Or.inl (by cases cmd <;> rfl))
    | suspended =>
      cases cmd with
      | getState | suspend | getStatus => exact Or.inr (Or.inr rfl)
      | resume => cases hsuspended
    | select =>
      -- the server was running, so the command is a `Suspend`
      have hrunning : s.debug.suspended ≠ true := by
        intro hdebug
        rcases (h hdebug).place hphase with ⟨hplace, -⟩ | hplace | hplace <;> cases hplace
      cases cmd with
      | getState | getStatus => exact absurd hsuspended hrunning
      | resume => cases hsuspended
      | suspend tx =>
        unfold Server.settled at hok
        rw [hphase, hsys] at hok
        exact Or.inl ⟨rfl, List.isEmpty_iff.mp hok⟩
  | terminating hphase | panickedLast hphase | terminated hphase =>
    rcases (h hsuspended).place hphase with ⟨hplace, -⟩ | hplace | hplace <;> cases hplace
  | returned hphase | replied hphase | panicked hphase =>
    exact absurd hphase (h hsuspended).not_handling

theorem Quiet.append (h : Quiet s after) (hsuspended : s'.debug.suspended = true)
    (hstate : s'.state = s.state) (hcalled : ∀ x ∈ entries, x.isCalled = false)
    (hanswered : ∀ tx state, Entry.answered (.state tx state) ∈ entries → state = s.state) :
    Quiet s' (after ++ entries) := by
  rcases h with ⟨x, hx, hresume⟩ | ⟨-, hcalled', hanswered'⟩
  · exact Or.inl ⟨x, List.mem_append_left _ hx, hresume⟩
  · refine Or.inr ⟨hsuspended, fun x hx => ?_, fun tx state hx => ?_⟩
    · exact (List.mem_append.mp hx).elim (hcalled' x) (hcalled x)
    · rw [hstate]
      exact (List.mem_append.mp hx).elim (hanswered' tx state) (hanswered tx state)

theorem Quiet.concat (h : Quiet s after) (hsuspended : s'.debug.suspended = true)
    (hstate : s'.state = s.state) {x : Entry State Call Cast Reply} (hcalled : x.isCalled = false)
    (hanswered : ∀ tx state, x = .answered (.state tx state) → state = s.state) :
    Quiet s' (after ++ [x]) :=
  h.append hsuspended hstate (List.forall_mem_singleton.mpr hcalled) fun tx state hx =>
    hanswered tx state (List.mem_singleton.mp hx).symm

theorem Stepped.quiet (hs : Stepped id s event entries s') (h : Parked s)
    (hsuspended : s.debug.suspended = true) (hquiet : Quiet s after) :
    Quiet s' (after ++ entries) := by
  cases hs with
  | call | info | command | dropReference | removed | moved =>
    exact hquiet.append hsuspended rfl nofun nofun
  | cast => exact hquiet.concat hsuspended rfl rfl nofun
  | handed hphase htakes => exact absurd htakes (h.not_takes hphase)
  | @obeyed place left stay cmd =>
    cases cmd with
    | resume tx => exact Or.inl ⟨_, List.mem_append_right _ List.mem_cons_self, rfl⟩
    | getState tx =>
      refine hquiet.concat hsuspended rfl rfl fun tx state hx => ?_
      cases hx
      rfl
    | getStatus tx => exact hquiet.concat hsuspended rfl rfl nofun
    | suspend tx =>
      refine hquiet.append rfl rfl (List.forall_mem_singleton.mpr rfl) fun tx state hx => ?_
      cases List.mem_singleton.mp hx
  | terminating hphase | panickedLast hphase | terminated hphase =>
    rcases h.place hphase with ⟨hplace, -⟩ | hplace | hplace <;> cases hplace
  | returned hphase | replied hphase | panicked hphase => exact absurd hphase h.not_handling

theorem quiet_nil (h : s.debug.suspended = true) :
    Quiet s ([] : List (Entry State Call Cast Reply)) :=
  Or.inr ⟨h, nofun, nofun⟩

/-- the step that acknowledges a `Suspend` sets the flag, and does nothing else -/
theorem Stepped.suspends (hs : Stepped id s event entries s') :
    Log.Since (fun x => x.isSuspend = true) (Quiet s') entries := by
  cases hs with
  | @obeyed place left stay cmd =>
    cases cmd with
    | suspend tx => exact .single fun _ => quiet_nil rfl
    | getState | resume | getStatus => exact .single nofun
  | cast | handed | terminating | replied => exact .single nofun
  | call | info | command | dropReference | removed | moved | returned | panicked | panickedLast |
    terminated => exact .of_not nofun

/-! ## every run -/

def Suspended (s : Server State Call Cast) (log : List (Entry State Call Cast Reply)) : Prop :=
  s.reference ≠ .dropped →
    (s.debug.suspended = true → Parked s) ∧ Log.Since (fun x => x.isSuspend = true) (Quiet s) log

theorem Suspended.step (h : Suspended s log) (hok : s.settled event = true)
    (hs : Stepped id s event entries s') : Suspended s' (log ++ entries) := by
  intro hheld'
  have hheld : s.reference ≠ .dropped := fun hfree => hheld' (hs.reference hfree)
  obtain ⟨hparked, hsince⟩ := h hheld
  refine ⟨hs.parked hok hheld hparked, hsince.append_of (fun after hquiet => ?_) hs.suspends⟩
  cases hsuspended : s.debug.suspended with
  | true => exact hs.quiet (hparked hsuspended) hsuspended hquiet
  | false =>
    rcases hquiet with ⟨x, hx, hresume⟩ | ⟨htrue, -⟩
    · exact Or.inl ⟨x, List.mem_append_left _ hx, hresume⟩
    · cases hsuspended.symm.trans htrue

/-- from the acknowledgement of a `Suspend` on, until the next `Resume` is handled or the last
reference is dropped, no callback runs and every query is answered with the same state; if the
`select!` takes no `Suspend` while a continue event is queued -/
theorem suspended_until_resume {tx : ReplyTx} {before after : List (Entry State Call Cast Reply)}
    (h : ((serverMachine State Call Cast Reply id).logged (Server.entries id)).Reach
      (fun s event => s.1.settled event = true) (s, log))
    (hheld : s.reference ≠ .dropped) (hlog : log = before ++ .answered (.suspended tx) :: after)
    (hresume : ∀ x ∈ after, x.isResume = false) :
    (∀ x ∈ after, x.isCalled = false) ∧
      ∀ tx' state, Entry.answered (.state tx' state) ∈ after → state = s.state := by
  have hsuspended : Suspended s log := by
    refine h.inv_logged_of ?_ ?_
    · rintro s ⟨state, continues, rfl⟩
      exact fun _ => ⟨nofun, .of_not nofun⟩
    · intro s log event s' h hok hnext
      exact h.step hok (next_cases hnext)
  rcases (hsuspended hheld).2 before _ after hlog rfl with ⟨x, hx, htrue⟩ | ⟨-, hcalled, hanswered⟩
  · cases (hresume x hx).symm.trans htrue
  · exact ⟨hcalled, hanswered⟩

/-- a cast waits while a suspended server answers two queries -/
private def resting : List (Event Nat Unit Unit Unit) :=
  [.command (.suspend 0), .command (.getState 1), .advance, .advance, .cast (), .advance, .advance,
    .command (.getState 2), .advance]

private def rests : List (Entry Nat Unit Unit Unit) → Bool
  | [.answered (.suspended 0), .accepted (), .answered (.state 1 _), .answered (.state 2 _)] => true
  | _ => false

private theorem exists_of_rests {log : List (Entry Nat Unit Unit Unit)} (h : rests log = true) :
    ∃ first second, log = [.answered (.suspended 0), .accepted (), .answered (.state 1 first),
      .answered (.state 2 second)] := by
  unfold rests at h
  split at h
  · exact ⟨_, _, rfl⟩
  · cases h

theorem suspended_until_resume_resting :
    ∃ (s : Server Nat Unit Unit) (first second : Nat) (log : List (Entry Nat Unit Unit Unit)),
      ((serverMachine Nat Unit Unit Unit .first).logged (Server.entries .first)).Reach
        (fun s event => s.1.settled event = true) (s, log) ∧
      s.reference = .held ∧ s.casts = [()] ∧
      log = [.answered (.suspended 0), .accepted (), .answered (.state 1 first),
        .answered (.state 2 second)] ∧
      first = second := by
  have hstart : ((serverMachine Nat Unit Unit Unit .first).logged (Server.entries .first)).Reach
      (fun s event => s.1.settled event = true) (.new 7 [], []) := .start ⟨⟨7, [], rfl⟩, rfl⟩
  obtain ⟨⟨s, log⟩, h, hlog, hheld, hcasts⟩ := hstart.exists_checked resting
    (p := fun s => rests s.2 = true ∧ s.1.reference = .held ∧ s.1.casts = [()]) (by decide)
  obtain ⟨first, second, hlog⟩ := exists_of_rests hlog
  have hsplit : log = [] ++ Entry.answered (.suspended 0) :: [.accepted (),
      .answered (.state 1 first), .answered (.state 2 second)] := hlog
  have hstate := (suspended_until_resume h (by rw [hheld]; nofun) hsplit
    (by simp [Entry.isResume])).2
  exact ⟨s, first, second, log, h, hheld, hcasts, hlog,
    (hstate 1 first (by simp)).trans (hstate 2 second (by simp)).symm⟩

/-- `init` has queued two continue events, and the `Suspend` comes when one of them is done -/
private def startled : List (Event Nat Unit Unit Unit) :=
  [.advance, .returned 0 [], .advance, .command (.suspend 0), .advance, .advance]

private def startles : List (Entry Nat Unit Unit Unit) → Bool
  | [.called (.continuation _), .answered (.suspended 0), .called (.continuation _)] => true
  | _ => false

/-- `handle_continue` runs after a `Suspend` was acknowledged -/
theorem suspended_until_resume_startled :
    ∃ (s : Server Nat Unit Unit) (first second : Value) (log : List (Entry Nat Unit Unit Unit)),
      ((serverMachine Nat Unit Unit Unit .first).logged (Server.entries .first)).Reach
        Machine.Anytime (s, log) ∧
      s.reference = .held ∧
      log = [.called (.continuation first), .answered (.suspended 0),
        .called (.continuation second)] := by
  have hstart : ((serverMachine Nat Unit Unit Unit .first).logged (Server.entries .first)).Reach
      Machine.Anytime (.new 7 [.nil, .nil], []) := .start ⟨⟨7, [.nil, .nil], rfl⟩, rfl⟩
  obtain ⟨⟨s, log⟩, h, hheld, hlog⟩ := hstart.exists_run startled
    (p := fun s => s.1.reference = .held ∧ startles s.2 = true) (by decide)
  unfold startles at hlog
  split at hlog
  next first second heq => exact ⟨s, first, second, log, h, hheld, heq⟩
  next => cases hlog

end Rebar.GenServer

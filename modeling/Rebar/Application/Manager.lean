import Rebar.Lib.Calls
import Rebar.Lib.HashMap

/-!
# Applications

The model of `start`, `stop` and `stop_all` in `application/manager.rs`.  Calls interleave at their
await points: a call in progress is a value that says where it waits, and a step runs it to the next
await point.

* `ApplicationManager`  the registrations, the running map and the start order;
* `AppCall.step`        what a call does up to its next await point;
* `managerMachine`      the runs of concurrent calls;
* `Consistent`          the invariant.

The environment of an application and the supervision tree that its `start` builds are not part of
this model; of the lifecycle hooks it keeps the order in which they are called.
-/

namespace Rebar.Application

inductive AppError where
  | notFound (name : String)
  | alreadyStarted (name : String)
  | dependencyNotRegistered (name : String)
  | dependencyNotStarted (dep : String)
  | circularDependency (text : String)
  | startFailed (text : String)
deriving DecidableEq

structure AppSpec where
  name : String
  dependencies : List String

inductive RunState where
  /-- a start is in progress -/
  | starting
  | running
deriving DecidableEq

/-- a call of a lifecycle hook, or of `shutdown` of the supervision tree -/
inductive Hook where
  | prepStop (name : String)
  | shutdown (name : String)
  | stop (name : String)
deriving DecidableEq

structure ApplicationManager where
  registrations : HashMap String AppSpec
  running : HashMap String RunState
  startOrder : List String
  /-- what was called on the applications, which no operation reads -/
  hooks : List Hook

/-- who called `stop`: a caller of its own, or `stop_all` with what is left of its list -/
inductive Caller where
  | alone
  | stopAll (rest : List String) (firstError : Option AppError)
deriving DecidableEq

inductive AppCall where
  | register (spec : AppSpec)
  /-- `start`, with what the callback of the application will return -/
  | start (name : String) (outcome : Except String Unit)
  /-- in the callback -/
  | starting (name : String) (outcome : Except String Unit)
  /-- at the lock of the start order, with the application started -/
  | promote (name : String)
  | stop (name : String)
  /-- at the lock of the start order, with the application out of the running map -/
  | unlist (name : String) (caller : Caller)
  /-- in `prep_stop` -/
  | preparing (name : String) (caller : Caller)
  /-- in the `stop` hook -/
  | stopping (name : String) (caller : Caller)
  /-- at the lock of the start order -/
  | stopAll

inductive Progress where
  | next (call : AppCall)
  | returned (result : Except AppError Unit)

namespace ApplicationManager

def new : ApplicationManager := ⟨∅, ∅, [], []⟩

def isRunning (m : ApplicationManager) (name : String) : Bool :=
  m.running.lookup name = some .running

/-- `running.remove_if` with the test for the `Starting` marker -/
def release (m : ApplicationManager) (name : String) : ApplicationManager :=
  if m.running.lookup name = some .starting then { m with running := m.running.erase name } else m

/-- the part of `start` and `start_reserved` before the callback -/
def start (m : ApplicationManager) (name : String) (outcome : Except String Unit) :
    ApplicationManager × Progress :=
  match m.registrations.lookup name with
  | none => (m, .returned (.error (.notFound name)))
  | some spec =>
    match m.running.lookup name with
    | some _ => (m, .returned (.error (.alreadyStarted name)))
    | none =>
      let reserved := { m with running := m.running.insert name .starting }
      match spec.dependencies.find? fun dep => !reserved.isRunning dep with
      | some dep => (reserved.release name, .returned (.error (.dependencyNotStarted dep)))
      | none => (reserved, .next (.starting name outcome))

/-- the rest of the loop of `stop_all`: every `stop` up to its first await point -/
def stopRest (m : ApplicationManager) : List String → Option AppError →
    ApplicationManager × Progress
  | [], none => (m, .returned (.ok ()))
  | [], some e => (m, .returned (.error e))
  | name :: rest, firstError =>
    if m.isRunning name then
      ({ m with running := m.running.erase name },
        .next (.unlist name (.stopAll rest firstError)))
    else m.stopRest rest (firstError.or (some (.notFound name)))

/-- a `stop` has returned without error -/
def stopped (m : ApplicationManager) : Caller → ApplicationManager × Progress
  | .alone => (m, .returned (.ok ()))
  | .stopAll rest firstError => m.stopRest rest firstError

end ApplicationManager

def AppCall.step (m : ApplicationManager) : AppCall → ApplicationManager × Progress
  | .register spec =>
    ({ m with registrations := m.registrations.insert spec.name spec }, .returned (.ok ()))
  | .start name outcome => m.start name outcome
  | .starting name (.error text) => (m.release name, .returned (.error (.startFailed text)))
  | .starting name (.ok ()) => (m, .next (.promote name))
  | .promote name =>
    ({ m with
        startOrder := m.startOrder ++ [name]
        running := m.running.insert name .running },
      .returned (.ok ()))
  | .stop name =>
    if m.isRunning name then
      ({ m with running := m.running.erase name }, .next (.unlist name .alone))
    else (m, .returned (.error (.notFound name)))
  | .unlist name caller =>
    ({ m with
        startOrder := m.startOrder.filter (· ≠ name)
        hooks := m.hooks ++ [.prepStop name] },
      .next (.preparing name caller))
  | .preparing name caller =>
    ({ m with hooks := m.hooks ++ [.shutdown name, .stop name] }, .next (.stopping name caller))
  | .stopping _ caller => m.stopped caller
  | .stopAll => m.stopRest m.startOrder.reverse none

/-! ## runs -/

def AppCall.advance (m : ApplicationManager) (call : AppCall) :
    ApplicationManager × Option AppCall :=
  match call.step m with
  | (m, .next call) => (m, some call)
  | (m, .returned _) => (m, none)

def AppCall.opens : AppCall → Bool
  | .register _ => true
  | .start _ _ => true
  | .stop _ => true
  | .stopAll => true
  | _ => false

abbrev Managing := Calls ApplicationManager AppCall

def managerMachine : Machine Managing (Calls.Label AppCall) :=
  Calls.machine AppCall.opens AppCall.advance (· = .new)

/-- the call is a `stop` of the application that waits for the start order -/
def AppCall.Unlists (name : String) : AppCall → Prop
  | .unlist n _ => n = name
  | _ => False

variable {m m' : ApplicationManager} {name n : String} {call c : AppCall}

instance : DecidablePred (AppCall.Unlists name)
  | .unlist n _ => inferInstanceAs (Decidable (n = name))
  | .register _ | .start _ _ | .starting _ _ | .promote _ | .stop _ | .preparing _ _
  | .stopping _ _ | .stopAll => inferInstanceAs (Decidable False)

def AppCall.promotes : AppCall → Option String
  | .promote name => some name
  | _ => none

def OnePath (s : Managing) : Calls.Label AppCall → Prop
  | .advance i => ∀ call ∈ s.calls[i]?, ∀ name ∈ call.promotes, ∀ c ∈ s.calls, ¬ c.Unlists name
  | .invoke _ => True

instance (s : Managing) : DecidablePred (OnePath s)
  | .advance i => inferInstanceAs (Decidable (∀ call ∈ s.calls[i]?, ∀ name ∈ call.promotes,
      ∀ c ∈ s.calls, ¬ c.Unlists name))
  | .invoke _ => inferInstanceAs (Decidable True)

/-! ## what a step can be -/

theorem isRunning_iff : m.isRunning name = true ↔ m.running.lookup name = some .running :=
  decide_eq_true_iff

/-- the rest of `stop_all` takes one application out of the running map, or returns -/
theorem stopRest_cases (m : ApplicationManager) (rest : List String) (firstError : Option AppError) :
    (∃ result, m.stopRest rest firstError = (m, .returned result)) ∨
    ∃ name caller, m.running.lookup name = some .running ∧ m.stopRest rest firstError
      = ({ m with running := m.running.erase name }, .next (.unlist name caller)) := by
  induction rest generalizing firstError with
  | nil =>
    cases firstError with
    | none => exact Or.inl ⟨_, rfl⟩
    | some e => exact Or.inl ⟨_, rfl⟩
  | cons name rest ih =>
    rw [ApplicationManager.stopRest]
    split
    next hrun => exact Or.inr ⟨name, _, isRunning_iff.mp hrun, rfl⟩
    next => exact ih _

theorem release_reserved (hnone : m.running.lookup name = none) :
    let m' := { m with running := m.running.insert name .starting }.release name
    m'.registrations = m.registrations ∧ m'.startOrder = m.startOrder ∧
      ∀ n, m'.running.lookup n = m.running.lookup n := by
  dsimp only
  rw [ApplicationManager.release, if_pos (AList.lookup_insert _)]
  refine ⟨rfl, rfl, fun n => ?_⟩
  rw [HashMap.lookup_erase_if, HashMap.lookup_insert_if]
  by_cases hn : n = name
  · rw [if_pos hn, hn, hnone]
  · rw [if_neg hn, if_neg hn]

/-- `start` reserves the slot, or returns with the running map as it was -/
theorem start_cases (m : ApplicationManager) (name : String) (outcome : Except String Unit) :
    (∃ m' result, m.start name outcome = (m', .returned result) ∧ m'.startOrder = m.startOrder ∧
      ∀ n, m'.running.lookup n = m.running.lookup n) ∨
    m.running.lookup name = none ∧ m.start name outcome
      = ({ m with running := m.running.insert name .starting },
        .next (.starting name outcome)) := by
  fun_cases ApplicationManager.start m name outcome
  next => exact Or.inl ⟨m, _, rfl, rfl, fun _ => rfl⟩
  next => exact Or.inl ⟨m, _, rfl, rfl, fun _ => rfl⟩
  next hnone _ _ _ => exact Or.inl ⟨_, _, rfl, (release_reserved hnone).2⟩
  next hnone _ _ => exact Or.inr ⟨hnone, rfl⟩

/-! ## the invariant -/

def AppCall.holds : AppCall → Option String
  | .starting name _ => some name
  | .promote name => some name
  | _ => none

/-- the number of calls that have reserved the slot of an application -/
def reservations (calls : List AppCall) (name : String) : Nat :=
  calls.countP (·.holds = some name)

structure Consistent (s : Managing) : Prop where
  listed : ∀ {n}, s.shared.running.lookup n = some .running → n ∈ s.shared.startOrder
  running : ∀ {n}, n ∈ s.shared.startOrder →
    s.shared.running.lookup n = some .running ∨ ∃ c ∈ s.calls, c.Unlists n
  nodup : s.shared.startOrder.Nodup
  unlisted : ∀ {n c}, c ∈ s.calls → c.Unlists n → s.shared.running.lookup n ≠ some .running
  reserved : ∀ n, reservations s.calls n
    = if s.shared.running.lookup n = some .starting then 1 else 0

variable {s : Managing} {i : Nat} {new : Option AppCall}

/-- a `stop` of the application waits for the start order -/
def Waits (calls : List AppCall) (n : String) : Prop := ∃ c ∈ calls, c.Unlists n

/-- the invariant for the slot of one application -/
structure Slot (state : Option RunState) (inOrder waiting : Prop) (held : Nat) : Prop where
  listed : state = some .running → inOrder
  running : inOrder → state = some .running ∨ waiting
  unlisted : waiting → state ≠ some .running
  reserved : held = if state = some .starting then 1 else 0

theorem consistent_iff : Consistent s ↔ s.shared.startOrder.Nodup ∧
    ∀ n, Slot (s.shared.running.lookup n) (n ∈ s.shared.startOrder) (Waits s.calls n)
      (reservations s.calls n) := by
  constructor
  · intro h
    exact ⟨h.nodup, fun n => ⟨h.listed, h.running, fun ⟨c, hc, hu⟩ => h.unlisted hc hu, h.reserved n⟩⟩
  · rintro ⟨hnodup, h⟩
    exact ⟨(h _).listed, (h _).running, hnodup, fun hc hu => (h _).unlisted ⟨_, hc, hu⟩,
      fun n => (h n).reserved⟩

section
variable {l w : Prop} {k : Nat}

theorem Slot.taken (h : Slot none l w k) : Slot (some .starting) l w (k + 1) :=
  ⟨nofun, fun hl => Or.inr ((h.running hl).resolve_left nofun), fun _ => nofun,
    congrArg (· + 1) h.reserved⟩

theorem Slot.released (h : Slot (some .starting) l w k) : Slot none l w (k - 1) :=
  ⟨nofun, fun hl => Or.inr ((h.running hl).resolve_left nofun), fun _ => nofun,
    congrArg (· - 1) h.reserved⟩

theorem Slot.emptied (h : Slot (some .running) l w k) : Slot none l True k :=
  ⟨nofun, fun _ => Or.inr trivial, fun _ => nofun, h.reserved⟩

theorem Slot.promoted (h : Slot (some .starting) l w k) : Slot (some .running) True False (k - 1) :=
  ⟨fun _ => trivial, fun _ => Or.inl rfl, False.elim, congrArg (· - 1) h.reserved⟩

theorem Slot.unlist {state : Option RunState} (h : Slot state l w k) (hw : w) (w' : Prop) :
    Slot state False w' k :=
  ⟨fun hr => absurd hr (h.unlisted hw), False.elim, fun _ => h.unlisted hw, h.reserved⟩

end

theorem reservations_advanced (hi : s.calls[i]? = some call) (new : Option AppCall) (n : String) :
    reservations (Calls.advanced s.calls i new) n
      = reservations s.calls n + reservations new.toList n - reservations [call] n := by
  have hcount := Calls.countP_advanced hi new (·.holds = some n)
  unfold reservations
  omega

theorem reservations_some (c : AppCall) (n : String) :
    reservations [c] n = if c.holds = some n then 1 else 0 := by
  unfold reservations
  by_cases hc : c.holds = some n
  · simp [hc]
  · simp [hc]

@[simp] theorem reservations_nil (n : String) : reservations [] n = 0 := by
  simp [reservations]

@[simp] theorem waits_nil (n : String) : ¬ Waits [] n :=
  fun ⟨_, hc, _⟩ => absurd hc List.not_mem_nil

@[simp] theorem waits_some (c : AppCall) (n : String) : Waits [c] n ↔ c.Unlists n := by
  simp [Waits]

theorem waits_advanced (hi : s.calls[i]? = some call) (hcall : ¬ call.Unlists n) :
    Waits (Calls.advanced s.calls i new) n ↔ Waits s.calls n ∨ Waits new.toList n := by
  constructor
  · rintro ⟨c, hc, hu⟩
    rcases Calls.mem_advanced hc with hc | rfl
    · exact Or.inl ⟨c, hc, hu⟩
    · exact Or.inr ((waits_some c n).mpr hu)
  · rintro (hold | ⟨c, hc, hu⟩)
    · exact Calls.exists_advance hi hold fun hu => absurd hu hcall
    · rw [Option.mem_toList.mp hc]
      exact ⟨c, Calls.mem_advanced_new, hu⟩

theorem Consistent.frame (h : Consistent s) (hi : s.calls[i]? = some call) {n : String}
    (hrunning : m.running.lookup n = s.shared.running.lookup n)
    (horder : n ∈ m.startOrder ↔ n ∈ s.shared.startOrder)
    (hcalls : ¬ call.Unlists n ∧ ¬ Waits new.toList n ∧
      reservations new.toList n = reservations [call] n) :
    Slot (m.running.lookup n) (n ∈ m.startOrder) (Waits (Calls.advanced s.calls i new) n)
      (reservations (Calls.advanced s.calls i new) n) := by
  obtain ⟨hcall, hnew, hholds⟩ := hcalls
  rw [hrunning, horder, waits_advanced hi hcall, or_iff_left hnew, reservations_advanced hi, hholds,
    Nat.add_sub_cancel]
  exact (consistent_iff.mp h).2 n

/-- a step that has to do with one application only -/
theorem Consistent.step (h : Consistent s) (hi : s.calls[i]? = some call) (name : String)
    (hnodup : m.startOrder.Nodup)
    (hframe : ∀ n, n ≠ name → m.running.lookup n = s.shared.running.lookup n ∧
      (n ∈ m.startOrder ↔ n ∈ s.shared.startOrder))
    (hcalls : ∀ n, n ≠ name → ¬ call.Unlists n ∧ ¬ Waits new.toList n ∧
      reservations new.toList n = reservations [call] n)
    (hslot : Slot (m.running.lookup name) (name ∈ m.startOrder)
      (Waits (Calls.advanced s.calls i new) name)
      (reservations (Calls.advanced s.calls i new) name)) :
    Consistent ⟨m, Calls.advanced s.calls i new⟩ := by
  refine consistent_iff.mpr ⟨hnodup, fun n => ?_⟩
  by_cases hn : n = name
  · exact hn ▸ hslot
  · exact h.frame hi (hframe n hn).1 (hframe n hn).2 (hcalls n hn)

theorem Consistent.slot (h : Consistent s) (hi : s.calls[i]? = some call)
    (hc : call.holds = some name) : s.shared.running.lookup name = some .starting := by
  have hpos : 0 < reservations s.calls name :=
    List.countP_pos_iff.mpr ⟨call, List.mem_of_getElem? hi, decide_eq_true hc⟩
  rw [h.reserved] at hpos
  split at hpos
  next hstart => exact hstart
  next => cases hpos

theorem Consistent.same (h : Consistent s) (hi : s.calls[i]? = some call)
    (horder : m.startOrder = s.shared.startOrder)
    (hrunning : ∀ n, m.running.lookup n = s.shared.running.lookup n)
    (hcall : ∀ n, ¬ call.Unlists n) (hnew : ∀ n, ¬ Waits new.toList n)
    (hholds : new.bind AppCall.holds = call.holds) :
    Consistent ⟨m, Calls.advanced s.calls i new⟩ := by
  refine consistent_iff.mpr ⟨horder ▸ h.nodup, fun n => h.frame hi (hrunning n) (horder ▸ Iff.rfl)
    ⟨hcall n, hnew n, ?_⟩⟩
  rw [reservations_some, ← hholds]
  cases new with
  | none => rfl
  | some c => exact reservations_some c n

theorem Consistent.removed (h : Consistent s) (hi : s.calls[i]? = some call)
    (hrun : s.shared.running.lookup name = some .running) (hcall : ∀ n, ¬ call.Unlists n)
    (hholds : call.holds = none) (caller : Caller) :
    Consistent ⟨{ s.shared with running := s.shared.running.erase name },
      Calls.advanced s.calls i (some (.unlist name caller))⟩ := by
  have hidle : ∀ n, reservations [call] n = 0 := by simp [reservations_some, hholds]
  refine h.step hi name h.nodup (fun n hn => ⟨AList.lookup_erase_ne hn, Iff.rfl⟩)
    (fun n hn => ⟨hcall n, ?_⟩) ?_
  · simp [hidle, reservations_some, AppCall.Unlists, AppCall.holds, Ne.symm hn]
  · have hslot := (consistent_iff.mp h).2 name
    rw [hrun] at hslot
    rw [AList.lookup_erase, waits_advanced hi (hcall name), reservations_advanced hi]
    simpa [hidle, reservations_some, AppCall.Unlists, AppCall.holds] using hslot.emptied

theorem Consistent.reserve (h : Consistent s) {outcome : Except String Unit}
    (hi : s.calls[i]? = some (.start name outcome))
    (hnone : s.shared.running.lookup name = none) :
    Consistent ⟨{ s.shared with running := s.shared.running.insert name .starting },
      Calls.advanced s.calls i (some (.starting name outcome))⟩ := by
  refine h.step hi name h.nodup (fun n hn => ⟨AList.lookup_insert_ne hn, Iff.rfl⟩)
    (fun n hn => ?_) ?_
  · simp [reservations_some, AppCall.Unlists, AppCall.holds, Ne.symm hn]
  · have hslot := (consistent_iff.mp h).2 name
    rw [hnone] at hslot
    rw [AList.lookup_insert, waits_advanced hi id, reservations_advanced hi]
    simpa [reservations_some, AppCall.Unlists, AppCall.holds] using hslot.taken

theorem Consistent.release (h : Consistent s) {outcome : Except String Unit}
    (hi : s.calls[i]? = some (.starting name outcome)) :
    Consistent ⟨s.shared.release name, Calls.advanced s.calls i none⟩ := by
  have hstart := h.slot hi rfl
  rw [ApplicationManager.release, if_pos hstart]
  refine h.step hi name h.nodup (fun n hn => ⟨AList.lookup_erase_ne hn, Iff.rfl⟩)
    (fun n hn => ?_) ?_
  · simp [reservations_some, AppCall.Unlists, AppCall.holds, Ne.symm hn]
  · have hslot := (consistent_iff.mp h).2 name
    rw [hstart] at hslot
    rw [AList.lookup_erase, waits_advanced hi id, reservations_advanced hi]
    simpa [reservations_some, AppCall.holds] using hslot.released

theorem Consistent.promote (h : Consistent s) (hi : s.calls[i]? = some (.promote name))
    (hok : ∀ c ∈ s.calls, ¬ c.Unlists name) :
    Consistent ⟨{ s.shared with
        startOrder := s.shared.startOrder ++ [name]
        running := s.shared.running.insert name .running },
      Calls.advanced s.calls i none⟩ := by
  have hslot := (consistent_iff.mp h).2 name
  rw [h.slot hi rfl] at hslot
  have hidle : ¬ Waits s.calls name := fun ⟨c, hc, hu⟩ => hok c hc hu
  have hfree : name ∉ s.shared.startOrder :=
    fun hin => hidle ((hslot.running hin).resolve_left nofun)
  refine h.step hi name ?_ (fun n hn => ⟨AList.lookup_insert_ne hn, ?_⟩) (fun n hn => ?_) ?_
  · exact List.nodup_append.mpr ⟨h.nodup, List.nodup_singleton name, fun a ha b hb hab =>
      hfree ((List.mem_singleton.mp hb) ▸ hab ▸ ha)⟩
  · simp [hn]
  · simp [reservations_some, AppCall.Unlists, AppCall.holds, Ne.symm hn]
  · rw [AList.lookup_insert, waits_advanced hi id, reservations_advanced hi]
    simpa [reservations_some, AppCall.holds, hidle] using hslot.promoted

theorem Consistent.unlist (h : Consistent s) {caller : Caller}
    (hi : s.calls[i]? = some (.unlist name caller)) (hooks : List Hook) :
    Consistent ⟨{ s.shared with
        startOrder := s.shared.startOrder.filter (· ≠ name)
        hooks := hooks },
      Calls.advanced s.calls i (some (.preparing name caller))⟩ := by
  refine h.step hi name (h.nodup.filter _) (fun n hn => ⟨rfl, by simp [hn]⟩) (fun n hn => ?_) ?_
  · simp [reservations_some, AppCall.Unlists, AppCall.holds, Ne.symm hn]
  · have hslot := (consistent_iff.mp h).2 name
    have hwaits : Waits s.calls name := ⟨_, List.mem_of_getElem? hi, rfl⟩
    rw [reservations_advanced hi]
    simpa [reservations_some, AppCall.holds] using hslot.unlist hwaits _

/-- **Every step keeps the invariant**, if no `stop` waits behind a promotion. -/
theorem consistent_advance (h : Consistent s) (hi : s.calls[i]? = some call)
    (hok : ∀ name, call = .promote name → ∀ c ∈ s.calls, ¬ c.Unlists name) :
    Consistent ⟨(call.advance s.shared).1, Calls.advanced s.calls i (call.advance s.shared).2⟩ := by
  have hrest : ∀ {call rest firstError}, s.calls[i]? = some call → (∀ n, ¬ call.Unlists n) →
      call.holds = none → call.step s.shared = s.shared.stopRest rest firstError →
      Consistent ⟨(call.advance s.shared).1, Calls.advanced s.calls i (call.advance s.shared).2⟩ := by
    intro call rest firstError hi hcall hholds hstep
    rw [AppCall.advance, hstep]
    rcases stopRest_cases s.shared rest firstError with ⟨result, heq⟩ | ⟨name, caller, hrun, heq⟩
    · rw [heq]
      exact h.same hi rfl (fun _ => rfl) hcall waits_nil hholds.symm
    · rw [heq]
      exact h.removed hi hrun hcall hholds caller
  cases call with
  | register spec => exact h.same hi rfl (fun _ => rfl) (fun _ => id) waits_nil rfl
  | start name outcome =>
    rw [AppCall.advance, AppCall.step]
    rcases start_cases s.shared name outcome with ⟨m, result, heq, horder, hrunning⟩ | ⟨hnone, heq⟩
    · rw [heq]
      exact h.same hi horder hrunning (fun _ => id) waits_nil rfl
    · rw [heq]
      exact h.reserve hi hnone
  | starting name outcome =>
    cases outcome with
    | error text => exact h.release hi
    | ok _ => exact h.same hi rfl (fun _ => rfl) (fun _ => id) (fun n => (waits_some _ n).not.mpr id) rfl
  | promote name => exact h.promote hi (hok name rfl)
  | stop name =>
    rw [AppCall.advance, AppCall.step]
    by_cases hrun : s.shared.isRunning name = true
    · rw [if_pos hrun]
      exact h.removed hi (isRunning_iff.mp hrun) (fun _ => id) rfl .alone
    · rw [if_neg hrun]
      exact h.same hi rfl (fun _ => rfl) (fun _ => id) waits_nil rfl
  | unlist name caller => exact h.unlist hi _
  | preparing name caller =>
    exact h.same hi rfl (fun _ => rfl) (fun _ => id) (fun n => (waits_some _ n).not.mpr id) rfl
  | stopping name caller =>
    cases caller with
    | alone => exact h.same hi rfl (fun _ => rfl) (fun _ => id) waits_nil rfl
    | stopAll rest firstError => exact hrest hi (fun _ => id) rfl rfl
  | stopAll => exact hrest hi (fun _ => id) rfl rfl

theorem consistent_start (h : managerMachine.start s) : Consistent s := by
  obtain ⟨hnew, hcalls⟩ := h
  obtain ⟨m, calls⟩ := s
  cases hnew
  cases hcalls
  exact ⟨nofun, nofun, List.nodup_nil, nofun, fun _ => rfl⟩

theorem consistent_invoke (h : Consistent s) (hopen : call.opens = true) :
    Consistent ⟨s.shared, s.calls ++ [call]⟩ := by
  have hidle : (∀ n, ¬ call.Unlists n) ∧ call.holds = none := by
    cases call with
    | register spec | start name outcome | stop name | stopAll => exact ⟨fun _ => id, rfl⟩
    | _ => cases hopen
  obtain ⟨hnodup, hslots⟩ := consistent_iff.mp h
  refine consistent_iff.mpr ⟨hnodup, fun n => ?_⟩
  have hwaits : Waits (s.calls ++ [call]) n ↔ Waits s.calls n := by
    simp [Waits, or_and_right, exists_or, hidle.1]
  have hres : reservations (s.calls ++ [call]) n = reservations s.calls n := by
    simp [reservations, hidle.2]
  dsimp only
  rw [hwaits, hres]
  exact hslots n

theorem consistent_of_reach (h : managerMachine.Reach OnePath s) : Consistent s := by
  refine h.inv (fun s hs => consistent_start hs) fun s a t hs hok hn => ?_
  rcases Calls.next_cases hn with ⟨call, -, hopen, rfl⟩ | ⟨i, call, rfl, hi, rfl⟩
  · exact consistent_invoke hs hopen
  · exact consistent_advance hs hi fun name heq => hok call hi name (heq ▸ rfl)

/-! ## stopping everything -/

abbrev Returns := Calls.Returns AppCall.opens AppCall.advance (· = .new) OnePath

theorem onePath_alone (m : ApplicationManager) (call : AppCall) :
    OnePath ⟨m, [call]⟩ (.advance 0) := by
  intro c hc name hname c' hc'
  cases hc
  rw [List.mem_singleton.mp hc']
  cases call with
  | unlist n caller => cases hname
  | _ => exact id

def stopHooks (name : String) : List Hook := [.prepStop name, .shutdown name, .stop name]

/-- the manager after the applications of a list were stopped one after another -/
def stoppedAll (m : ApplicationManager) (names : List String) : ApplicationManager :=
  { m with
    running := names.foldl (fun running name => running.erase name) m.running
    startOrder := names.foldl (fun order name => order.filter (· ≠ name)) m.startOrder
    hooks := m.hooks ++ names.flatMap stopHooks }

/-- `stop_all` alone at work stops every application of its list, if all of them run -/
theorem returns_stopRest (names : List String) (hnodup : names.Nodup) (m : ApplicationManager)
    (hrun : ∀ name ∈ names, m.running.lookup name = some .running)
    (hstep : call.step m = m.stopRest names none) :
    Returns m call (stoppedAll m names) := by
  induction names generalizing m call with
  | nil =>
    have heq : stoppedAll m [] = m := by
      unfold stoppedAll
      rw [List.flatMap_nil, List.append_nil]
      rfl
    rw [heq]
    refine .last (onePath_alone _ _) ?_
    rw [AppCall.advance, hstep]
    rfl
  | cons name names ih =>
    obtain ⟨hfree, hnodup⟩ := List.nodup_cons.mp hnodup
    have hhead := isRunning_iff.mpr (hrun name List.mem_cons_self)
    -- the application is taken out, taken off the start order, and its hooks are called
    let m₁ : ApplicationManager := { m with running := m.running.erase name }
    let m₂ : ApplicationManager := { m₁ with
      startOrder := m.startOrder.filter (· ≠ name)
      hooks := m.hooks ++ [.prepStop name] }
    let m₃ : ApplicationManager := { m₂ with hooks := m₂.hooks ++ [.shutdown name, .stop name] }
    have hrun₃ : ∀ n ∈ names, m₃.running.lookup n = some .running := by
      intro n hn
      show (m.running.erase name).lookup n = _
      have hne : n ≠ name := fun heq => hfree (heq ▸ hn)
      rw [AList.lookup_erase_ne hne]
      exact hrun n (List.mem_cons_of_mem _ hn)
    have hlast : Returns m₃ (.stopping name (.stopAll names none)) (stoppedAll m₃ names) :=
      ih hnodup m₃ hrun₃ rfl
    have heq : stoppedAll m₃ names = stoppedAll m (name :: names) := by
      show ApplicationManager.mk _ _ _ _ = ApplicationManager.mk _ _ _ _
      simp [m₁, m₂, m₃, stopHooks]
    rw [heq] at hlast
    have hfirst : call.advance m = (m₁, some (.unlist name (.stopAll names none))) := by
      rw [AppCall.advance, hstep, ApplicationManager.stopRest, if_pos hhead]
    exact .next (onePath_alone _ _) hfirst (.next (onePath_alone _ _) rfl
      (.next (onePath_alone _ _) rfl hlast))

theorem lookup_foldl_erase (names : List String) (running : HashMap String RunState) (n : String) :
    (names.foldl (fun running name => running.erase name) running).lookup n
      = if n ∈ names then none else running.lookup n :=
  HashMap.foldl_erase_if (fun (r : HashMap String RunState) n => r.lookup n)
    (fun r name => r.erase name) (fun r a k => HashMap.lookup_erase_if r a k) names running n

theorem Consistent.quiet (hs : Consistent s) (hcalls : s.calls = []) (name : String) :
    s.shared.running.lookup name = some .running ↔ name ∈ s.shared.startOrder := by
  refine ⟨hs.listed, fun hn => (hs.running hn).resolve_right ?_⟩
  rintro ⟨c, hc, -⟩
  rw [hcalls] at hc
  exact absurd hc List.not_mem_nil

theorem Consistent.returns_stopAll (hs : Consistent s) (hcalls : s.calls = []) :
    Returns s.shared .stopAll (stoppedAll s.shared s.shared.startOrder.reverse) :=
  returns_stopRest _ (List.nodup_reverse.mpr hs.nodup) _
    (fun name hn => (hs.quiet hcalls name).mpr (List.mem_reverse.mp hn)) rfl

/-- **Whenever no call is in progress, the applications that run are those of the start order, each
listed once**; a `stop_all` then stops all of them. -/
theorem running_iff_listed (h : managerMachine.Reach OnePath s) (hcalls : s.calls = []) :
    (∀ name, s.shared.running.lookup name = some .running ↔ name ∈ s.shared.startOrder) ∧
    s.shared.startOrder.Nodup ∧
    ∃ k s', managerMachine.run s (.invoke .stopAll :: .replicate k (.advance 0)) = some s' ∧
      s'.calls = [] ∧ (∀ name, s'.shared.running.lookup name ≠ some .running) ∧
      s'.shared.hooks = s.shared.hooks ++ s.shared.startOrder.reverse.flatMap stopHooks := by
  have hs := consistent_of_reach h
  have hiff := hs.quiet hcalls
  refine ⟨hiff, hs.nodup, ?_⟩
  obtain ⟨-, k, hrun⟩ :=
    (hs.returns_stopAll hcalls).run rfl (congrArg (Calls.mk s.shared) hcalls) h trivial
  refine ⟨k, _, hrun, rfl, fun name hr => ?_, rfl⟩
  replace hr : (s.shared.startOrder.reverse.foldl (fun running name => running.erase name)
    s.shared.running).lookup name = some .running := hr
  rw [lookup_foldl_erase] at hr
  split at hr
  next => cases hr
  next hnot => exact hnot (List.mem_reverse.mpr ((hiff name).mp hr))

private def registered : List (Calls.Label AppCall) :=
  [.invoke (.register ⟨"db", []⟩), .advance 0, .invoke (.register ⟨"web", ["db"]⟩), .advance 0]

theorem running_iff_listed_web : ∃ s, managerMachine.Reach OnePath s ∧ s.calls = [] ∧
    (s.shared.running.lookup "web" = some .running ↔ "web" ∈ s.shared.startOrder) ∧
    s.shared.startOrder = ["db", "web"] ∧
    ∃ k s', managerMachine.run s (.invoke .stopAll :: .replicate k (.advance 0)) = some s' ∧
      s'.calls = [] ∧ (∀ name, s'.shared.running.lookup name ≠ some .running) ∧
      s'.shared.hooks = s.shared.hooks ++ s.shared.startOrder.reverse.flatMap stopHooks := by
  have hstart : managerMachine.Reach OnePath ⟨.new, []⟩ := .start ⟨rfl, rfl⟩
  obtain ⟨s, hs, hquiet, horder⟩ := hstart.exists_checked
    (registered ++ ([.invoke (.start "db" (.ok ())), .invoke (.stop "web"), .advance 0, .advance 0,
      .advance 1, .advance 0, .invoke (.start "web" (.ok ())), .advance 0, .advance 0,
      .advance 0] : List (Calls.Label AppCall)))
    (p := fun s => s.calls = [] ∧ s.shared.startOrder = ["db", "web"]) (by decide)
  obtain ⟨hiff, -, hstop⟩ := running_iff_listed hs hquiet
  exact ⟨s, hs, hquiet, hiff "web", horder, hstop⟩

/-! ## a start that overtakes a stop -/

/-- a `stop` has taken the application out of the running map and waits for the start order; a
`start` of the same application runs to its end; the `stop` goes on -/
private def overtaking : List (Calls.Label AppCall) :=
  registered ++ ([.invoke (.start "db" (.ok ())), .advance 0, .advance 0, .advance 0,
    .invoke (.stop "db"), .advance 0, .invoke (.start "db" (.ok ())), .advance 1, .advance 1,
    .advance 1, .advance 0, .advance 0, .advance 0] : List (Calls.Label AppCall))

/-- **An application can run without being listed**, and a `stop_all` leaves it running. -/
theorem running_unlisted : ∃ s, managerMachine.Reach Machine.Anytime s ∧ s.calls = [] ∧
    s.shared.running.lookup "db" = some .running ∧ s.shared.startOrder = [] ∧
    ∃ k s', managerMachine.run s (.invoke .stopAll :: .replicate k (.advance 0)) = some s' ∧
      s'.calls = [] ∧ s'.shared.running.lookup "db" = some .running := by
  have hstart : managerMachine.Reach Machine.Anytime ⟨.new, []⟩ := .start ⟨rfl, rfl⟩
  obtain ⟨s, hs, hquiet, hrun, horder⟩ := hstart.exists_run overtaking
    (p := fun s => s.calls = [] ∧ s.shared.running.lookup "db" = some .running ∧ s.shared.startOrder = [])
    (by decide)
  have hstep : AppCall.stopAll.advance s.shared = (s.shared, none) := by
    rw [AppCall.advance, AppCall.step, horder]
    rfl
  have hret : Calls.Returns AppCall.opens AppCall.advance (· = .new) Machine.Anytime s.shared
      .stopAll s.shared := .last trivial hstep
  obtain ⟨-, k, hall⟩ := hret.run rfl (congrArg (Calls.mk s.shared) hquiet) hs trivial
  exact ⟨s, hs, hquiet, hrun, horder, k, _, hall, rfl, hrun⟩

end Rebar.Application

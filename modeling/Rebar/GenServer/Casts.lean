import Rebar.GenServer.History
import Rebar.Lib.Log

/-!
# The casts of a server

Every cast that was accepted is passed to `handle_cast` once, in the order of acceptance, and all of
them before `terminate`: the task leaves its loop only when the last reference is being dropped, and
then no cast can be accepted any more and the drain takes what is queued.

* `acceptedCasts`, `handledCasts`   the casts of a log.
-/

namespace Rebar.GenServer

variable {State Call Cast Reply : Type}

def Entry.acceptedCast : Entry State Call Cast Reply → Option Cast
  | .accepted msg => some msg
  | _ => none

def Entry.handledCast : Entry State Call Cast Reply → Option Cast
  | .called (.cast msg) => some msg
  | _ => none

def acceptedCasts (log : List (Entry State Call Cast Reply)) : List Cast :=
  log.filterMap Entry.acceptedCast

def handledCasts (log : List (Entry State Call Cast Reply)) : List Cast :=
  log.filterMap Entry.handledCast

/-- no callback panics, and the process is not removed from outside -/
def Event.undisturbed : Event State Call Cast Reply → Bool
  | .panicked => false
  | .removed => false
  | _ => true

def Event.isOwn : Event State Call Cast Reply → Bool
  | .advance => true
  | .returned _ _ => true
  | .replied _ _ _ => true
  | .panicked => true
  | .terminated => true
  | _ => false

def Phase.place : Phase Call Cast → Place
  | .at place => place
  | .handling _ after => after

def Place.isShutdown : Place → Bool
  | .castDrain => true
  | .infoDrain => true
  | .terminate => true
  | .ended => true
  | _ => false

def Place.isDrained : Place → Bool
  | .infoDrain => true
  | .terminate => true
  | .ended => true
  | _ => false

variable {id : Identity} {s s' : Server State Call Cast} {event : Event State Call Cast Reply}
  {log entries : List (Entry State Call Cast Reply)}

/-! ## the order of the casts -/

variable {after place' : Place} {callback : Callback Call Cast} {s₁ : Server State Call Cast}

theorem Takes.casts {place : Place} (h : Takes s place callback after s₁) :
    s.casts = handledCasts ([.called callback] : List (Entry State Call Cast Reply)) ++ s₁.casts := by
  cases h with
  | cast h | castDrain h => exact h
  | first | call | info | next | infoDrain => rfl

theorem Stepped.casts (h : Stepped id s event entries s') :
    s.casts ++ acceptedCasts entries = handledCasts entries ++ s'.casts := by
  cases h with
  | cast => rfl
  | handed _ htakes =>
    rw [← htakes.casts]
    exact List.append_nil _
  | call | info | command | dropReference | removed | moved | obeyed | terminating | returned |
    replied | panicked | panickedLast | terminated => exact List.append_nil _

theorem acceptedCasts_append : acceptedCasts (log ++ entries) =
    acceptedCasts log ++ acceptedCasts entries := List.filterMap_append

theorem handledCasts_append : handledCasts (log ++ entries) =
    handledCasts log ++ handledCasts entries := List.filterMap_append

/-- the casts that were accepted are those that were handled and those that are queued -/
def Conserved (s : Server State Call Cast) (log : List (Entry State Call Cast Reply)) : Prop :=
  acceptedCasts log = handledCasts log ++ s.casts

theorem Conserved.step (h : Conserved s log) (hs : Stepped id s event entries s') :
    Conserved s' (log ++ entries) := by
  unfold Conserved at *
  rw [acceptedCasts_append, handledCasts_append, h, List.append_assoc, hs.casts, List.append_assoc]

/-! ## the shutdown -/

/-- the loop is left only when the last reference is being dropped, and the drain of the casts when
none is queued -/
structure Orderly (s : Server State Call Cast) : Prop where
  inTable : s.inTable = true
  shutdown : s.phase.place.isShutdown = true → s.reference ≠ .held
  drained : s.phase.place.isDrained = true → s.casts = []
  suspended : s.phase.place = .suspended → s.debug.suspended = true

theorem orderly_new (state : State) (continues : List Value) :
    Orderly (.new state continues : Server State Call Cast) :=
  ⟨rfl, nofun, nofun, nofun⟩

theorem Takes.place {place : Place} (h : Takes s place callback after s₁) :
    after.isShutdown = place.isShutdown ∧ after.isDrained = place.isDrained ∧
      after ≠ .suspended := by
  cases h <;> exact ⟨rfl, rfl, nofun⟩

theorem Takes.frame {place : Place} (h : Takes s place callback after s₁) :
    s₁.inTable = s.inTable ∧ s₁.reference = s.reference ∧ s₁.sys = s.sys ∧
      (place.isDrained = true → s₁.casts = s.casts) := by
  cases h <;> first | exact ⟨rfl, rfl, rfl, fun _ => rfl⟩ | exact ⟨rfl, rfl, rfl, nofun⟩

theorem Moves.shutdown {place : Place} (h : Moves s place place') (htable : s.inTable = true)
    (hover : place'.isShutdown = true) : place.isShutdown = true ∨ s.reference ≠ .held := by
  cases h with
  | top | wait | poll | sys | calls | casts | mailbox | continues => cases hover
  | closed arm hclosed =>
    refine Or.inr fun hheld => ?_
    cases arm <;> simp [Server.closed, hheld, htable, Reference.holdsSys, Reference.holdsCalls,
      Reference.holdsCasts] at hclosed
  | released _ hfree =>
    refine Or.inr fun hheld => ?_
    rw [hheld] at hfree
    cases hfree
  | drained => exact Or.inl rfl

theorem Moves.drained_casts {place : Place} (h : Moves s place place')
    (hdrained : place'.isDrained = true) : s.casts = [] := by
  cases h with
  | top | wait | poll | sys | calls | casts | mailbox | continues | closed => cases hdrained
  | released =>
    split at hdrained
    · cases hdrained
    · cases hdrained
  | drained hcasts => exact hcasts

theorem Moves.suspended {place : Place} (h : Moves s place place') (hplace : place' = .suspended) :
    s.debug.suspended = true := by
  cases h with
  | wait _ hsuspended => exact hsuspended
  | top | poll | sys | calls | casts | mailbox | continues | closed | drained => cases hplace
  | released =>
    split at hplace
    · cases hplace
    · cases hplace

/-- a command does not end the loop, and leaves it suspended if it was and the command is no `Resume` -/
theorem Obeys.place {place left stay : Place} (h : Obeys place left stay) (leaves : Bool) :
    (if leaves then left else stay).isShutdown = false ∧
      (if leaves then left else stay).isDrained = false ∧
      ((if leaves then left else stay) = .suspended → place = .suspended ∧ leaves = false) := by
  cases h <;> cases leaves <;> simp [Place.isShutdown, Place.isDrained]

theorem handleSysCommand_suspended {state : State} {debug : InternalDebugState} {cmd : SysCommand}
    (hleaves : (handleSysCommand id state debug cmd).2.2 = false)
    (h : debug.suspended = true) : (handleSysCommand id state debug cmd).1.suspended = true := by
  cases cmd with
  | getState | getStatus => exact h
  | suspend => rfl
  | resume => cases hleaves

theorem isShutdown_of_isDrained {place : Place} (h : place.isDrained = true) :
    place.isShutdown = true := by
  cases place <;> first | rfl | cases h

theorem Orderly.step (h : Orderly s) (hok : event.undisturbed = true)
    (hs : Stepped id s event entries s') : Orderly s' := by
  obtain ⟨htable, hshutdown, hdrained, hsuspended⟩ := h
  cases hs with
  | call | info | command => exact ⟨htable, hshutdown, hdrained, hsuspended⟩
  | cast hheld =>
    refine ⟨htable, hshutdown, fun hover => ?_, hsuspended⟩
    exact absurd hheld (hshutdown (isShutdown_of_isDrained hover))
  | dropReference =>
    refine ⟨htable, fun _ => ?_, hdrained, hsuspended⟩
    show s.reference.drop ≠ .held
    cases s.reference <;> nofun
  | removed | panicked | panickedLast => cases hok
  | moved hphase hmoves =>
    rw [hphase] at hshutdown hdrained
    refine ⟨htable, fun hover => ?_, fun hover => hmoves.drained_casts hover, hmoves.suspended⟩
    exact (hmoves.shutdown htable hover).elim hshutdown fun hfree => hfree
  | handed hphase htakes =>
    rw [hphase] at hshutdown hdrained
    obtain ⟨htable', hreference, -, hcasts⟩ := htakes.frame
    obtain ⟨hover, hover', hnot⟩ := htakes.place
    refine ⟨htable'.trans htable, fun h => ?_, fun h => ?_, fun h => absurd h hnot⟩
    · rw [hreference]
      exact hshutdown (hover.symm.trans h)
    · have h := hover'.symm.trans h
      rw [hcasts h]
      exact hdrained h
  | obeyed hphase hobeys =>
    rw [hphase] at hsuspended
    obtain ⟨hover, hover', hstay⟩ := hobeys.place (handleSysCommand id s.state s.debug _).2.2
    refine ⟨htable, fun h => ?_, fun h => ?_, fun h => ?_⟩
    · cases hover.symm.trans h
    · cases hover'.symm.trans h
    · obtain ⟨hplace, hleaves⟩ := hstay h
      exact handleSysCommand_suspended hleaves (hsuspended hplace)
  | terminating hphase | terminated hphase =>
    rw [hphase] at hshutdown hdrained
    exact ⟨htable, fun _ => hshutdown rfl, fun _ => hdrained rfl, nofun⟩
  | returned hphase | replied hphase =>
    rw [hphase] at hshutdown hdrained hsuspended
    exact ⟨htable, hshutdown, hdrained, hsuspended⟩

/-! ## how long a shutdown takes -/

def Place.rank : Place → Nat
  | .select .calls => 9
  | .select .casts => 8
  | .select .mailbox => 7
  | .select .continues => 6
  | .top => 4
  | .sysDrain => 2
  | .select .sys => 1
  | .suspended => 1
  | _ => 0

def Phase.rank : Phase Call Cast → Nat
  | .at place => place.rank
  | .handling _ after => after.rank + 1

def Server.work (s : Server State Call Cast) : Nat :=
  2 * s.casts.length + 4 * s.sys.length + s.phase.rank

/-- a bound on the steps that the task still takes until the casts are drained -/
def Server.remaining (s : Server State Call Cast) : Nat :=
  if s.phase.place.isDrained then 0 else s.work + 1

theorem Moves.rank {place : Place} (h : Moves s place place') (hfree : s.reference = .dropped)
    (hsuspended : place = .suspended → s.debug.suspended = true) :
    place'.isDrained = true ∨ place'.rank < place.rank := by
  cases h with
  | top | wait | poll | calls | casts | mailbox | continues => exact Or.inr (by decide)
  | sys _ hheld =>
    rw [hfree] at hheld
    cases hheld
  | closed arm =>
    refine Or.inr ?_
    cases arm <;> decide
  | released =>
    rw [hsuspended rfl]
    exact Or.inr (by decide)
  | drained => exact Or.inl rfl

theorem Takes.rank {place : Place} (h : Takes s place callback after s₁) :
    place.isDrained = true ∨
      2 * s₁.casts.length + (after.rank + 1) < 2 * s.casts.length + place.rank := by
  cases h with
  | infoDrain => exact Or.inl rfl
  | cast h | castDrain h =>
    rw [h]
    simp only [List.length_cons, Place.rank]
    omega
  | first | call | info | next =>
    simp only [Place.rank]
    omega

theorem Obeys.rank {place left stay : Place} (h : Obeys place left stay) (leaves : Bool) :
    (if leaves then left else stay).rank ≤ place.rank + 3 := by
  cases h <;> cases leaves <;> decide

theorem Takes.isDrained {place : Place} (h : Takes s place callback after s₁)
    (hdrained : place.isDrained = true) : after.isDrained = true :=
  h.place.2.1.trans hdrained

/-- when the last reference is dropped, every step of the task brings the end of the drain nearer, and
no step of the environment puts it off -/
theorem Stepped.work (hs : Stepped id s event entries s') (h : Orderly s)
    (hfree : s.reference = .dropped) :
    s'.reference = .dropped ∧ (s'.phase.place.isDrained = true ∨
      s'.work + (if event.isOwn then 1 else 0) ≤ s.work) := by
  have hrank : ∀ place, s.phase = .at place → s.work =
      2 * s.casts.length + 4 * s.sys.length + place.rank := by
    intro place hphase
    rw [Server.work, hphase]
    rfl
  cases hs with
  | call hheld | cast hheld | command hheld =>
    rw [hfree] at hheld
    cases hheld
  | info | removed => exact ⟨hfree, Or.inr (Nat.le_refl _)⟩
  | dropReference =>
    refine ⟨?_, Or.inr (Nat.le_refl _)⟩
    show s.reference.drop = .dropped
    rw [hfree]
    rfl
  | @moved place place' hphase hmoves =>
    have hsuspended := h.suspended
    rw [hphase] at hsuspended
    refine ⟨hfree, (hmoves.rank hfree hsuspended).imp_right fun hlt => ?_⟩
    rw [hrank place hphase]
    show 2 * s.casts.length + 4 * s.sys.length + place'.rank + 1 ≤ _
    omega
  | @handed place after callback s₁ hphase htakes =>
    obtain ⟨-, hreference, hsys, -⟩ := htakes.frame
    refine ⟨hreference.trans hfree, htakes.rank.imp htakes.isDrained fun hlt => ?_⟩
    rw [hrank place hphase]
    show 2 * s₁.casts.length + 4 * s₁.sys.length + (after.rank + 1) + 1 ≤ _
    rw [hsys]
    omega
  | @obeyed place left stay cmd sys hphase hobeys hsys =>
    have hle := hobeys.rank (handleSysCommand id s.state s.debug cmd).2.2
    refine ⟨hfree, Or.inr ?_⟩
    rw [hrank place hphase, hsys]
    show 2 * s.casts.length + 4 * sys.length + Place.rank _ + 1 ≤ _
    rw [List.length_cons]
    omega
  | terminating | panicked | panickedLast | terminated => exact ⟨hfree, Or.inl rfl⟩
  | @returned callback after state continues hphase
  | @replied envelope after state continues reply hphase =>
    refine ⟨hfree, Or.inr ?_⟩
    rw [Server.work, Server.work, hphase]
    exact Nat.le_refl _

theorem Stepped.isDrained (hs : Stepped id s event entries s')
    (h : s.phase.place.isDrained = true) : s'.phase.place.isDrained = true := by
  cases hs with
  | call | cast | info | command | dropReference | removed => exact h
  | moved hphase hmoves =>
    rw [hphase] at h
    cases hmoves <;> cases h
  | handed hphase htakes =>
    rw [hphase] at h
    exact htakes.isDrained h
  | obeyed hphase hobeys =>
    rw [hphase] at h
    cases hobeys <;> cases h
  | terminating | panicked | panickedLast | terminated => rfl
  | returned hphase | replied hphase =>
    rw [hphase] at h
    exact h

/-! ## every run -/

theorem Stepped.accepted (hs : Stepped id s event entries s') (h : s.reference ≠ .held) :
    acceptedCasts entries = [] := by
  cases hs with
  | cast hheld => exact absurd hheld h
  | call | info | command | dropReference | removed | moved | handed | obeyed | terminating |
    returned | replied | panicked | panickedLast | terminated => rfl

theorem Stepped.terminates (hs : Stepped id s event entries s') (h : Entry.terminating ∈ entries) :
    entries = [.terminating] ∧ s.phase.place.isDrained = true := by
  cases hs with
  | terminating hphase =>
    rw [hphase]
    exact ⟨rfl, rfl⟩
  | cast | handed | obeyed | replied => cases List.mem_singleton.mp h
  | call | info | command | dropReference | removed | moved | returned | panicked | panickedLast |
    terminated => cases h

section
variable {t : Server State Call Cast} {log' : List (Entry State Call Cast Reply)}
  {events : List (Event State Call Cast Reply)}

theorem Stepped.remaining (hs : Stepped id s event entries s') (h : Orderly s)
    (hfree : s.reference = .dropped) :
    s'.remaining = 0 ∨ s'.remaining + (if event.isOwn then 1 else 0) ≤ s.remaining := by
  cases hdrained' : s'.phase.place.isDrained with
  | true =>
    rw [Server.remaining, hdrained']
    exact Or.inl rfl
  | false =>
    have hdrained : s.phase.place.isDrained = false := by
      cases hdrained : s.phase.place.isDrained with
      | false => rfl
      | true => exact (hs.isDrained hdrained).symm.trans hdrained'
    have hwork := (hs.work h hfree).2
    rw [Server.remaining, Server.remaining, hdrained, hdrained']
    rw [hdrained'] at hwork
    rcases hwork with hwork | hwork
    · cases hwork
    · refine Or.inr ?_
      show s'.work + 1 + _ ≤ s.work + 1
      omega

/-- in a run after the last reference was dropped no cast is accepted, and each step of the task counts
until the drain is over -/
theorem run_remaining (h : Orderly s) (hfree : s.reference = .dropped)
    (hok : ∀ event ∈ events, event.undisturbed = true)
    (hr : ((serverMachine State Call Cast Reply id).logged (Server.entries id)).run (s, log) events
      = some (t, log')) :
    acceptedCasts log' = acceptedCasts log ∧
      (t.remaining = 0 ∨ t.remaining + events.countP Event.isOwn ≤ s.remaining) := by
  induction events generalizing s log with
  | nil =>
    cases hr
    exact ⟨rfl, Or.inr (Nat.le_refl _)⟩
  | cons event events ih =>
    rw [Machine.run_cons] at hr
    obtain ⟨⟨s₁, log₁⟩, hlogged, hr⟩ := Option.bind_eq_some_iff.mp hr
    obtain ⟨s₁, hnext, hlog⟩ := Option.map_eq_some_iff.mp hlogged
    cases hlog
    have hs : Stepped id s event (s.entries id event) s₁ := next_cases hnext
    obtain ⟨haccepted, hbound⟩ := ih (h.step (hok _ List.mem_cons_self) hs) (hs.work h hfree).1
      (fun e he => hok e (List.mem_cons_of_mem _ he)) hr
    refine ⟨?_, ?_⟩
    · rw [haccepted, acceptedCasts_append, hs.accepted (by rw [hfree]; nofun), List.append_nil]
    · have hstep := hs.remaining h hfree
      rw [List.countP_cons]
      omega

/-- when `terminate` was called, every cast that is ever accepted had been handled -/
structure Handled (s : Server State Call Cast) (log : List (Entry State Call Cast Reply)) :
    Prop where
  orderly : Orderly s
  conserved : Conserved s log
  terminated : ∀ before after, log = before ++ Entry.terminating :: after →
    s.phase.place.isDrained = true ∧ handledCasts before = acceptedCasts log

theorem Handled.step (h : Handled s log) (hok : event.undisturbed = true)
    (hs : Stepped id s event entries s') : Handled s' (log ++ entries) := by
  refine ⟨h.orderly.step hok hs, h.conserved.step hs, fun before after heq => ?_⟩
  rw [acceptedCasts_append]
  rcases Log.append_cases heq with ⟨rest, hlog, -⟩ | ⟨start, rfl, hentries⟩
  · obtain ⟨hdrained, hhandled⟩ := h.terminated before rest hlog
    refine ⟨hs.isDrained hdrained, ?_⟩
    rw [hs.accepted (h.orderly.shutdown (isShutdown_of_isDrained hdrained)), List.append_nil]
    exact hhandled
  · have hmem : Entry.terminating ∈ entries :=
      hentries ▸ List.mem_append_right _ List.mem_cons_self
    obtain ⟨hsingle, hdrained⟩ := hs.terminates hmem
    rw [hsingle] at hentries
    obtain ⟨rfl, -⟩ | ⟨-, hnil⟩ := List.append_eq_singleton_iff.mp hentries.symm
    · refine ⟨hs.isDrained hdrained, ?_⟩
      have hconserved := h.conserved
      rw [Conserved, h.orderly.drained hdrained, List.append_nil] at hconserved
      rw [List.append_nil, ← hconserved, hsingle]
      exact (List.append_nil _).symm
    · cases hnil

theorem handled_of_reach
    (h : ((serverMachine State Call Cast Reply id).logged (Server.entries id)).Reach
      (fun _ event => event.undisturbed = true) (s, log)) : Handled s log := by
  refine h.inv_logged_of ?_ ?_
  · rintro s ⟨state, continues, rfl⟩
    exact ⟨orderly_new state continues, rfl, fun before after heq => by cases before <;> cases heq⟩
  · intro s log event s' h hok hnext
    exact h.step hok (next_cases hnext)

theorem advance_isSome {place : Place} (hphase : s.phase = .at place)
    (hfree : s.reference = .dropped) (hdrained : place.isDrained = false) :
    (s.next id (.advance : Event State Call Cast Reply)).isSome = true := by
  rw [Server.next, Option.isSome_map, Server.step, hphase]
  dsimp only
  unfold Server.advance
  cases place with
  | top | sysDrain | castDrain => dsimp only; split <;> rfl
  | suspended =>
    dsimp only
    rw [hfree]
    split <;> rfl
  | select arm => cases arm <;> dsimp only <;> split <;> rfl
  | infoDrain | terminate | ended => cases hdrained

/-- a cast that was accepted is handled once, in the order of acceptance, and before `terminate` is
called; once the last reference is dropped, the task never waits until every accepted cast is handled,
and that takes a bounded number of its steps -/
theorem casts_handled_in_order
    (h : ((serverMachine State Call Cast Reply id).logged (Server.entries id)).Reach
      (fun _ event => event.undisturbed = true) (s, log)) :
    acceptedCasts log = handledCasts log ++ s.casts ∧
    (∀ before after, log = before ++ Entry.terminating :: after →
      handledCasts before = acceptedCasts log) ∧
    (s.reference = .dropped →
      (∀ place, s.phase = .at place → place.isDrained = false →
        (s.next id (.advance : Event State Call Cast Reply)).isSome = true) ∧
      ∀ events t log', (∀ event ∈ events, event.undisturbed = true) →
        ((serverMachine State Call Cast Reply id).logged (Server.entries id)).run (s, log) events
          = some (t, log') →
        s.remaining ≤ events.countP Event.isOwn → handledCasts log' = acceptedCasts log) := by
  have hhandled := handled_of_reach h
  refine ⟨hhandled.conserved, fun before after heq => (hhandled.terminated before after heq).2,
    fun hfree => ⟨fun place hphase hdrained => advance_isSome hphase hfree hdrained, ?_⟩⟩
  intro events t log' hok hr hlong
  have ht := handled_of_reach (h.run (fun event he _ => hok event he) hr)
  obtain ⟨haccepted, hbound⟩ := run_remaining hhandled.orderly hfree hok hr
  have hzero : t.remaining = 0 := by omega
  have hdrained : t.phase.place.isDrained = true := by
    unfold Server.remaining at hzero
    split at hzero
    next hdrained => exact hdrained
    next => cases hzero
  have hconserved := ht.conserved
  rw [Conserved, ht.orderly.drained hdrained, List.append_nil] at hconserved
  rw [← hconserved, haccepted]

end

/-- the last reference is dropped while the server is suspended and casts are queued -/
private def farewell : List (Event Unit Unit Nat Unit) :=
  [.cast 1, .command (.suspend 0), .advance, .advance, .advance, .cast 2, .dropReference,
    .dropReference, .dropReference, .advance, .advance, .returned () [], .advance, .returned () [],
    .advance, .advance]

private def parts (s : Server Unit Unit Nat × List (Entry Unit Unit Nat Unit)) : Bool :=
  s.1.debug.suspended && decide (acceptedCasts s.2 = [1, 2]) &&
    s.2.any fun
      | .terminating => true
      | _ => false

theorem casts_handled_in_order_farewell :
    ∃ (s : Server Unit Unit Nat) (log before after : List (Entry Unit Unit Nat Unit)),
      ((serverMachine Unit Unit Nat Unit .first).logged (Server.entries .first)).Reach
        (fun _ event => event.undisturbed = true) (s, log) ∧
      s.debug.suspended = true ∧ log = before ++ Entry.terminating :: after ∧
      handledCasts before = [1, 2] := by
  have hstart : ((serverMachine Unit Unit Nat Unit .first).logged (Server.entries .first)).Reach
      (fun _ event => event.undisturbed = true) (.new () [], []) := .start ⟨⟨(), [], rfl⟩, rfl⟩
  obtain ⟨⟨s, log⟩, h, hp⟩ := hstart.exists_checked farewell (p := fun s => parts s = true) (by decide)
  obtain ⟨hp, hany⟩ := Bool.and_eq_true_iff.mp hp
  obtain ⟨hsuspended, haccepted⟩ := Bool.and_eq_true_iff.mp hp
  obtain ⟨entry, hmem, hentry⟩ := List.any_eq_true.mp hany
  split at hentry
  · obtain ⟨before, after, hlog⟩ := List.append_of_mem hmem
    refine ⟨s, log, before, after, h, hsuspended, hlog, ?_⟩
    rw [(casts_handled_in_order h).2.1 before after hlog]
    exact of_decide_eq_true haccepted
  · cases hentry

end Rebar.GenServer

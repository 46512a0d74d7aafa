import Rebar.Swim.Identity

/-!
# A service under watch

A run is watched by recording, for every node, since when the list has held it in a given state
without interruption.  A record is dropped at every event after which the list does not hold the node
so, and dated at the first event whose time is known.

* `Watch`, `watchMachine`   the runs of a service under this watch, with tick times that do not
                            decrease;
* `watch_inv`               the rule for invariants of the watched runs.
-/

namespace Rebar.Swim

def Event.time : Event → Option Instant
  | .nack _ now => some now
  | .expire _ now => some now
  | .remove _ now => some now
  | _ => none

def Entry.holds (state : NodeState) (y : Entry) : Bool :=
  match y.member with
  | some m => m.state = state
  | none => false

/-- since when each node has been in the state -/
abbrev Since := NodeId → Option Instant

/-- the records after an event -/
def Since.follow (state : NodeState) (since : Since) (e : Event) (x : Core) : Since :=
  fun k => if (x.entry k).holds state then (since k).or e.time else none

def Since.followAll (state : NodeState) (config : SwimConfig) : Core → Since → List Event → Since
  | _, since, [] => since
  | x, since, e :: es =>
    Since.followAll state config (x.next config e) (since.follow state e (x.next config e)) es

/-- a service, the time of its last tick, and the records -/
structure Watch where
  service : SwimService
  clock : Instant
  since : Since

namespace Watch

def sinceAfter (state : NodeState) (w : Watch) (es : List Event) : Since :=
  Since.followAll state w.service.config w.service.core w.since es

def next (state : NodeState) (w : Watch) (a : Call) : Option Watch :=
  let w' : Watch := ⟨w.service.call a, w.clock, w.sinceAfter state (w.service.events a)⟩
  match a with
  | .tick _ now => if w.clock ≤ now then some { w' with clock := now } else none
  | _ => some w'

/-- node 1 at its start -/
def fresh : Watch := ⟨SwimService.fresh 0, 0, fun _ => none⟩

end Watch

def watchMachine (state : NodeState) : Machine Watch Call where
  start w := serviceMachine.start w.service ∧ w.clock = 0 ∧ w.since = fun _ => none
  next := Watch.next state

/-- every event of the call meets the condition when its turn comes -/
def Watch.Meets (P : Core → Event → Prop) (w : Watch) (a : Call) : Prop :=
  Swim.Meets P w.service.config w.service.core (w.service.events a)

instance (P : Core → Event → Prop) [∀ x e, Decidable (P x e)] (w : Watch) (a : Call) :
    Decidable (w.Meets P a) :=
  inferInstanceAs (Decidable (Swim.Meets _ _ _ _))

theorem fresh_reach (state : NodeState) (ok : Watch → Call → Prop) :
    (watchMachine state).Reach ok .fresh :=
  .start ⟨⟨1, .home, .helpedBy 0, none, rfl⟩, rfl, rfl⟩

variable {e : Event} {y : Entry} {state : NodeState}

theorem Entry.holds_iff : y.holds state = true ↔ ∃ m, y.member = some m ∧ m.state = state := by
  unfold holds
  cases y.member with
  | none => simp
  | some m => simp

theorem events_time {s : SwimService} {a : Call} (h : e ∈ s.events a) {t : Instant}
    (ht : e.time = some t) : ∃ c, a = .tick c t := by
  cases a with
  | addSeed id addr =>
    dsimp only [SwimService.events] at h
    split at h
    · cases h
    · rw [List.mem_singleton.mp h] at ht
      cases ht
  | handleFrame c frame =>
    dsimp only [SwimService.events] at h
    cases hd : frame.decode with
    | none =>
      rw [hd] at h
      cases h
    | some env =>
      rw [hd] at h
      rcases SwimService.mem_frameEvents h with rfl | ⟨u, -, rfl⟩ | ⟨id, -, rfl⟩
      · cases ht
      · cases ht
      · cases ht
  | tick c now =>
    refine ⟨c, ?_⟩
    rcases List.mem_append.mp h with h | h
    · obtain ⟨target, rfl⟩ := SwimService.mem_probeEvents h
      cases ht
      rfl
    · rcases List.mem_pair.mp h with rfl | rfl
      · cases ht
        rfl
      · cases ht
        rfl

/-! ## the rule -/

section
variable {P : Core → Event → Prop} {J : Core → Since → Instant → Prop} {clock : Instant}
  (hstep : ∀ {id config x e since clock}, x.Intact id → J x since clock → P x e →
    (∀ t, e.time = some t → t = clock) →
    J (x.next config e) (since.follow state e (x.next config e)) clock)
include hstep

theorem follow_run {id : NodeId} {config : SwimConfig} {x : Core} {since : Since}
    {es : List Event} (hx : x.Intact id) (hspares : ∀ e ∈ es, e.Spares id) (hj : J x since clock)
    (hok : Meets P config x es) (htime : ∀ e ∈ es, ∀ t, e.time = some t → t = clock) :
    J (x.run config es) (Since.followAll state config x since es) clock := by
  induction es generalizing x since with
  | nil => exact hj
  | cons e es ih =>
    have hnext := (hx.next config (hspares e List.mem_cons_self)).1
    exact ih hnext (fun e' he' => hspares e' (List.mem_cons_of_mem _ he'))
      (hstep hx hj hok.1 (htime e List.mem_cons_self)) hok.2
      fun e' he' => htime e' (List.mem_cons_of_mem _ he')

/-- **The rule**: what holds at the start, lasts while time passes and is kept by every event that
meets the condition holds in every watched run whose events meet it. -/
theorem watch_inv {w : Watch}
    (hstart : ∀ s, serviceMachine.start s → J s.core (fun _ => none) 0)
    (hmono : ∀ {x since clock now}, J x since clock → clock ≤ now → J x since now)
    (h : (watchMachine state).Reach (Watch.Meets P) w) :
    w.service.Intact ∧ J w.service.core w.since w.clock := by
  refine h.inv (I := fun w => w.service.Intact ∧ J w.service.core w.since w.clock) ?_ ?_
  · rintro ⟨s, clock, since⟩ ⟨hs, rfl, rfl⟩
    refine ⟨?_, hstart s hs⟩
    obtain ⟨id, addr, config, cert, rfl⟩ := hs
    exact intact_new id addr config cert
  · rintro w a w' ⟨hint, hj⟩ hok hn
    have hnext : (w.service.call a).Intact := (hint.call a).1
    have hcall : ∀ clock, w.clock ≤ clock → (∀ c t, a = .tick c t → t = clock) →
        J (w.service.call a).core (w.sinceAfter state (w.service.events a)) clock := by
      intro clock hle hclock
      rw [w.service.core_call a]
      refine follow_run hstep hint.core (fun e he => spares_events hint.probe he)
        (hmono hj hle) hok fun e he t ht => ?_
      obtain ⟨c, rfl⟩ := events_time he ht
      exact hclock c t rfl
    cases a with
    | addSeed id addr | handleFrame c frame =>
      cases hn
      exact ⟨hnext, hcall w.clock (le_refl _) nofun⟩
    | tick c now =>
      obtain ⟨hle, hw⟩ := Option.ite_none_right_eq_some.mp hn
      cases hw
      exact ⟨hnext, hcall now hle fun c t hc => by cases hc; rfl⟩

end

end Rebar.Swim

import Rebar.Swim.Entries

/-!
# Probes that fail before a suspicion

The counter of failed probes of a node never exceeds the periods that have ended unresolved since the last
evidence that the node is alive, so a `tick` that suspects it has missed the node often enough.  The threshold
is a machine sum, which is zero for the greatest `indirect_probe_count`.
-/

namespace Rebar.Swim
open Machine

/-- the periods with the target `k` that ended unresolved since the last evidence of `k` -/
def Event.misses (k : NodeId) (n : Nat) : Event → Nat
  | .hear id _ => if k = id then 0 else n
  | .confirm id => if k = id then 0 else n
  | .nack id _ => if k = id then n + 1 else n
  | _ => n

def misses (k : NodeId) (log : List Event) : Nat := log.foldl (Event.misses k) 0

variable {config : SwimConfig} {x : Core} {k : NodeId} {e : Event} {n : Nat}

theorem failed_nack (y : Entry) (now : Instant) :
    (y.nack config now).failed = some (satAdd (y.failed.getD 0) 1) := by
  unfold Entry.nack
  dsimp only
  split
  · rfl
  · cases y.member with
    | none => rfl
    | some m => dsimp only; split <;> rfl

/-- an event counts as a miss whatever it adds to the counter -/
theorem failed_next (h : ((x.entry k).failed.getD 0).toNat ≤ n) :
    (((x.next config e).entry k).failed.getD 0).toNat ≤ e.misses k n := by
  by_cases hself : ∀ u, e = .gossip u → x.2.selfId ≠ some u.nodeId
  · rw [entry_next e hself]
    cases e with
    | seed id addr | gossip u =>
      rw [Entry.next]
      split <;> exact h
    | hear id addr | confirm id =>
      rw [Entry.next, Event.misses]
      by_cases hk : k = id
      · rw [if_pos hk, if_pos hk]
        exact Nat.le_refl 0
      · rw [if_neg hk, if_neg hk]
        exact h
    | nack id now =>
      rw [Entry.next, Event.misses]
      by_cases hk : k = id
      · rw [if_pos hk, if_pos hk, failed_nack, Option.getD_some, toNat_satAdd_one]
        omega
      · rw [if_neg hk, if_neg hk]
        exact h
    | expire o now =>
      rw [Entry.next]
      split
      · exact Nat.zero_le n
      · exact h
    | remove o now =>
      rw [Entry.next]
      split <;> exact h
  · obtain ⟨u, rfl, hu⟩ : ∃ u, e = .gossip u ∧ x.2.selfId = some u.nodeId := by simpa using hself
    rcases entry_rumour_self config k hu with heq | ⟨-, m, -, heq⟩
    · rw [heq]; exact h
    · rw [heq]; exact h

theorem failed_run (es : List Event) (h : ((x.entry k).failed.getD 0).toNat ≤ n) :
    (((x.run config es).entry k).failed.getD 0).toNat ≤ es.foldl (Event.misses k) n := by
  induction es generalizing x n with
  | nil => exact h
  | cons e es ih => exact ih (failed_next h)

variable {s : SwimService} {log : List Event}

theorem failed_le_misses (h : (serviceMachine.logged SwimService.events).Reach Anytime (s, log)) :
    ((s.core.entry k).failed.getD 0).toNat ≤ misses k log := by
  refine h.inv_logged (I := fun s log => ((s.core.entry k).failed.getD 0).toNat ≤ misses k log) ?_ ?_
  · intro s hs
    obtain ⟨member, -, hentry⟩ := entry_new hs k
    rw [hentry]
    exact Nat.zero_le _
  · intro s log a t ih hn
    cases hn
    rw [s.core_call a, misses, List.foldl_append]
    exact failed_run _ ih

theorem Entry.nack_suspects {y : Entry} {m m' : Member} (now : Instant)
    (hcount : config.indirectProbeCount.toNat < 2^64 - 1) (hm : y.member = some m) (halive : m.state = .alive)
    (hm' : (y.nack config now).member = some m') (hsuspect : m'.state = .suspect) :
    1 + config.indirectProbeCount.toNat ≤ (y.failed.getD 0).toNat + 1 := by
  unfold nack at hm'
  dsimp only at hm'
  split at hm'
  · cases hm.symm.trans hm'
    rw [halive] at hsuspect
    cases hsuspect
  · next hle =>
    rw [UInt64.lt_iff_toNat_lt, toNat_satAdd_one, UInt64.toNat_add, toNat_one, Nat.mod_eq_of_lt (by omega)] at hle
    omega

/-- only the probe that ends can make a suspect: the expired timers make dead nodes and remove them -/
theorem probed_of_suspected {m' : Member} (c : Choices) (now : Instant)
    (hm' : (s.tick c now).1.members.get k = some m') (hsuspect : m'.state = .suspect) :
    ((s.core.run s.config (s.probeEvents now)).entry k).member = some m' := by
  have htick : ((s.core.run s.config (s.events (.tick c now))).entry k).member = some m' := by
    rw [← s.core_tick c now]
    exact hm'
  rw [SwimService.run_events_tick, entry_remove, Core.run_append] at htick
  have hexpired : (((s.core.run s.config (s.probeEvents now)).next s.config (.expire c.suspects now)).entry
      k).member = some m' := by
    split at htick
    · exact (Entry.drop_member htick).1
    · exact htick
  rw [entry_expire] at hexpired
  split at hexpired
  · obtain ⟨m₀, -, rfl⟩ := Option.map_eq_some_iff.mp hexpired
    rw [dead_self] at hsuspect
    cases hsuspect
  · exact hexpired

/-- **A suspicion of its own follows on enough missed probes.**  When a `tick` turns a member from Alive to
Suspect, at least one more than `indirect_probe_count` periods with this target have ended unresolved since the
last evidence of it, the one that ends with this `tick` included. -/
theorem suspected_after_misses (s : SwimService) (log : List Event)
    (h : (serviceMachine.logged SwimService.events).Reach Anytime (s, log))
    (hcount : s.config.indirectProbeCount.toNat < 2^64 - 1) (c : Choices) (now : Instant) (k : NodeId)
    (m m' : Member) (hm : s.members.get k = some m) (halive : m.state = .alive)
    (hm' : (s.tick c now).1.members.get k = some m') (hsuspect : m'.state = .suspect) :
    1 + s.config.indirectProbeCount.toNat ≤ misses k (log ++ s.events (.tick c now)) := by
  have hbound := failed_le_misses (k := k) h
  have hprobed := probed_of_suspected c now hm' hsuspect
  have hsame : ∀ m₁, s.members.get k = some m₁ → m₁.state ≠ .suspect := by
    intro m₁ hm₁ hs
    cases hm.symm.trans hm₁
    rw [halive] at hs
    cases hs
  unfold SwimService.probeEvents at hprobed
  split at hprobed
  · next target htarget hacked =>
    have hevents : s.events (.tick c now) = [.nack target now, .expire c.suspects now, .remove c.dead now] := by
      show s.probeEvents now ++ _ = _
      rw [SwimService.probeEvents, htarget, hacked]
      rfl
    rw [show s.core.run s.config [.nack target now] = s.core.next s.config (.nack target now) from rfl,
      entry_nack] at hprobed
    by_cases hk : k = target
    · rw [if_pos hk] at hprobed
      have hfailed := Entry.nack_suspects now hcount hm halive hprobed hsuspect
      rw [hevents, misses, List.foldl_append]
      simp only [List.foldl_cons, List.foldl_nil, Event.misses, if_pos hk]
      exact hfailed.trans (Nat.succ_le_succ hbound)
    · rw [if_neg hk] at hprobed
      exact absurd hsuspect (hsame m' hprobed)
  · exact absurd hsuspect (hsame m' hprobed)

/-- node 2 misses two pings, and the second is enough with one indirect probe -/
theorem suspected_after_misses_twice : ∃ s : SwimService × List Event,
    (serviceMachine.logged SwimService.events).Reach Anytime s ∧ s.1.config.indirectProbeCount = 1 ∧
    2 ≤ misses 2 (s.2 ++ s.1.events (.tick (.probing 2) 20)) := by
  have hstart : (serviceMachine.logged SwimService.events).Reach Anytime (.fresh 1, []) :=
    .start ⟨⟨1, .home, _, none, rfl⟩, rfl⟩
  obtain ⟨s, hs, hcount, ⟨m, hm, halive⟩, m', hm', hsuspect⟩ := hstart.exists_run
    [.addSeed 2 .home, .tick (.probing 2) 0, .tick (.probing 2) 10]
    (p := fun s => s.1.config.indirectProbeCount = 1 ∧ (∃ m ∈ s.1.members.get 2, m.state = .alive) ∧
      ∃ m ∈ (s.1.tick (.probing 2) 20).1.members.get 2, m.state = .suspect) (by decide)
  have hmisses := suspected_after_misses s.1 s.2 hs (by rw [hcount]; decide) (.probing 2) 20 2 m m' hm halive hm'
    hsuspect
  rw [hcount] at hmisses
  exact ⟨s, hs, hcount, hmisses⟩

/-- with the greatest `indirect_probe_count` the threshold is zero: one missed ping of node 2 is enough -/
theorem suspected_too_early : ∃ s : SwimService × List Event,
    (serviceMachine.logged SwimService.events).Reach Anytime s ∧
    s.1.config.indirectProbeCount.toNat = 2^64 - 1 ∧ (∃ m ∈ s.1.members.get 2, m.state = .alive) ∧
    (∃ m ∈ (s.1.tick (.probing 2) 10).1.members.get 2, m.state = .suspect) ∧
    misses 2 (s.2 ++ s.1.events (.tick (.probing 2) 10)) = 1 := by
  have hstart : (serviceMachine.logged SwimService.events).Reach Anytime (.fresh u64Max, []) :=
    .start ⟨⟨1, .home, _, none, rfl⟩, rfl⟩
  exact hstart.exists_run [.addSeed 2 .home, .tick (.probing 2) 0] (by decide)

end Rebar.Swim

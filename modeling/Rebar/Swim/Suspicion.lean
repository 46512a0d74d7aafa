import Rebar.Swim.Watch

/-!
# Suspicion timers against member states

The timer of a suspicion lives in the detector, the suspicion itself in the list.  A timer that is
never disturbed, by an accepted `Alive`, `Dead` or `Leave` or by a new seed, runs for as long as the
list has held the node as suspect.
-/

namespace Rebar.Swim

/-! ## the condition on the events -/

/-- an `Alive`, `Dead` or `Leave` that a suspect member takes -/
def Overrides (m : Member) : GossipUpdate → Prop
  | .alive _ _ i _ => m.incarnation.toNat < i.toNat ∧ i.toNat ≤ m.incarnation.toNat + 2^32
  | .suspect .. => False
  | .dead _ _ i => m.incarnation.toNat ≤ i.toNat ∧ i.toNat ≤ m.incarnation.toNat + 2^32
  | .leave _ _ i => m.incarnation.toNat ≤ i.toNat ∧ i.toNat ≤ m.incarnation.toNat + 2^32

/-- no seed replaces a suspect whose timer is running, and no update overrides it -/
def TimerUndisturbed (x : Core) : Event → Prop
  | .seed nodeId _ => nodeId ∉ x.1.suspectTimers
  | .gossip u => u.nodeId ∈ x.1.suspectTimers → ∀ m ∈ x.2.get u.nodeId, ¬ Overrides m u
  | _ => True

instance (m : Member) : ∀ u, Decidable (Overrides m u)
  | .alive _ _ _ _ => inferInstanceAs (Decidable (_ ∧ _))
  | .suspect _ _ _ => .isFalse id
  | .dead _ _ _ => inferInstanceAs (Decidable (_ ∧ _))
  | .leave _ _ _ => inferInstanceAs (Decidable (_ ∧ _))

instance (x : Core) : ∀ e, Decidable (TimerUndisturbed x e)
  | .seed _ _ => inferInstanceAs (Decidable (_ ∉ _))
  | .gossip _ => inferInstanceAs (Decidable (_ → _))
  | .hear _ _ | .confirm _ | .nack _ _ | .expire _ _ | .remove _ _ => .isTrue trivial

abbrev TimersUndisturbed : Watch → Call → Prop := Watch.Meets TimerUndisturbed

theorem merge_suspect {m : Member} {u : GossipUpdate} (hm : m.state = .suspect)
    (hu : ¬ Overrides m u) : ∃ m', u.merge (some m) = some m' ∧ m'.state = .suspect := by
  have hdead : ∀ i : UInt64, ¬ m.Heeds i → (m.dead i).state = .suspect := by
    intro i hi
    rw [Member.dead_eq, if_neg fun h => hi h.2]
    exact hm
  cases u with
  | alive n a i c =>
    refine ⟨m.alive i, rfl, ?_⟩
    rw [Member.alive_eq, if_neg (show ¬ (_ ∧ _) from hu)]
    exact hm
  | suspect n a i =>
    refine ⟨m.suspect i, rfl, ?_⟩
    rw [Member.suspect_eq]
    split
    · rfl
    · exact hm
  | dead n a i | leave n a i => exact ⟨m.dead i, rfl, hdead i hu⟩

/-! ## timers and states in step -/

/-- a running timer carries the date of the suspicion, and a record is of a suspect and not in the
future -/
structure Entry.InStep (y : Entry) (since : Option Instant) (clock : Instant) : Prop where
  timer : ∀ t, y.suspectTimer = some t → y.holds .suspect = true ∧ since = some t
  dated : ∀ t, since = some t → y.holds .suspect = true ∧ t ≤ clock

namespace Entry
variable {y y' : Entry} {since time : Option Instant} {clock now : Instant} {config : SwimConfig}

theorem InStep.mono (h : y.InStep since clock) (hle : clock ≤ now) : y.InStep since now where
  timer := h.timer
  dated := fun t ht => ⟨(h.dated t ht).1, (h.dated t ht).2.trans hle⟩

/-- **The rule for an event**: every timer that it leaves running is of a node that it leaves
suspect, and ran before or starts now, of a node that was not suspect. -/
theorem InStep.keep (h : y.InStep since clock) (htime : ∀ t, time = some t → t ≤ clock)
    (htimer : ∀ t, y'.suspectTimer = some t → y'.holds .suspect = true ∧
      (y.suspectTimer = some t ∨ time = some t ∧ y.holds .suspect = false)) :
    y'.InStep (if y'.holds .suspect then since.or time else none) clock where
  timer := fun t ht => by
    obtain ⟨hs, hor⟩ := htimer t ht
    refine ⟨hs, ?_⟩
    rw [if_pos hs]
    rcases hor with hold | ⟨rfl, hno⟩
    · rw [(h.timer t hold).2]
      rfl
    · -- a node that was not suspect has no record, so it gets this date
      cases hsince : since with
      | none => rfl
      | some t' => cases (h.dated t' hsince).1.symm.trans hno
  dated := fun t ht => by
    split at ht
    · next hs =>
      rcases Option.or_eq_some_iff.mp ht with hold | ⟨-, hnew⟩
      · exact ⟨hs, (h.dated t hold).2⟩
      · exact ⟨hs, htime t hnew⟩
    · cases ht

theorem InStep.nack (h : y.InStep since clock) (hnow : now ≤ clock) :
    (y.nack config now).InStep
      (if (y.nack config now).holds .suspect then since.or (some now) else none) clock := by
  have htime : ∀ t, some now = some t → t ≤ clock := fun t ht => by
    cases ht
    exact hnow
  obtain ⟨a, heq | ⟨m, hm, halive, heq⟩⟩ := nack_cases config now y
  · rw [heq]
    exact h.keep htime fun t ht => ⟨(h.timer t ht).1, Or.inl ht⟩
  · have hno : y.holds .suspect = false := by
      simp [holds, hm, halive]
    have hnone : y.suspectTimer = none := by
      cases hold : y.suspectTimer with
      | none => rfl
      | some t => cases (h.timer t hold).1.symm.trans hno
    rw [heq]
    refine h.keep htime fun t ht => ⟨holds_iff.mpr ⟨_, rfl, suspect_self halive⟩, Or.inr ⟨?_, hno⟩⟩
    rw [hnone] at ht
    exact ht

end Entry

variable {x : Core} {config : SwimConfig} {e : Event} {id : NodeId}

theorem inStep_next {since : Since} {clock : Instant} (hself : x.Intact id)
    (h : ∀ k, (x.entry k).InStep (since k) clock) (hok : TimerUndisturbed x e)
    (htime : ∀ t, e.time = some t → t = clock) (k : NodeId) :
    ((x.next config e).entry k).InStep (since.follow .suspect e (x.next config e) k) clock := by
  have hk := h k
  have hchange := entry_change config x e k
  have hle : ∀ t, e.time = some t → t ≤ clock := fun t ht => (htime t ht).le
  unfold Since.follow
  generalize (x.next config e).entry k = y' at hchange ⊢
  cases hchange with
  | same => exact hk.keep hle fun t ht => ⟨(hk.timer t ht).1, Or.inl ht⟩
  | seed addr =>
    refine hk.keep hle fun t ht => ?_
    cases (AList.lookup_eq_none.mpr hok).symm.trans ht
  | hear addr | confirm => exact hk.keep hle nofun
  | @gossip u _ hu =>
    subst hu
    refine hk.keep hle fun t ht => ⟨?_, Or.inl ht⟩
    obtain ⟨m, hm, hs⟩ := Entry.holds_iff.mp (hk.timer t ht).1
    obtain ⟨m', hm', hs'⟩ := merge_suspect hs (hok (HashMap.mem_of_lookup ht) m hm)
    exact Entry.holds_iff.mpr ⟨m', (congrArg u.merge hm).trans hm', hs'⟩
  | refuted hid _ =>
    refine hk.keep hle fun t ht => ?_
    cases Option.some.inj (hself.self.symm.trans hid)
    cases hself.suspectTimer.symm.trans ht
  | nack now => exact hk.nack (htime now rfl).le
  | expire o now _ => exact hk.keep hle nofun
  | remove o now _ =>
    refine hk.keep hle fun t ht => ⟨?_, Or.inl ht⟩
    obtain ⟨m, hm, hs⟩ := Entry.holds_iff.mp (hk.timer t ht).1
    have hlive : (x.entry k).isDead ≠ true := fun hd => by
      obtain ⟨m', hm', hs'⟩ := Entry.isDead_iff.mp hd
      cases hm.symm.trans hm'
      cases hs.symm.trans hs'
    exact Entry.holds_iff.mpr ⟨m, (if_neg hlive).trans hm, hs⟩

/-! ## runs -/

theorem inStep_of_reach {w : Watch} (h : (watchMachine .suspect).Reach TimersUndisturbed w) :
    w.service.Intact ∧ ∀ k, (w.service.core.entry k).InStep (w.since k) w.clock := by
  refine watch_inv (J := fun x since clock => ∀ k, (x.entry k).InStep (since k) clock)
    inStep_next (fun s hs k => ?_) (fun hj hle k => (hj k).mono hle) h
  obtain ⟨member, -, heq⟩ := entry_new hs k
  rw [heq]
  exact ⟨nofun, nofun⟩

/-- **In a run in which no running timer is disturbed, a tick declares a node dead only if the list
holds it as suspect when the timers are checked, and has held it so without interruption for the
whole timeout.** -/
theorem declared_only_after_timeout {w : Watch}
    (h : (watchMachine .suspect).Reach TimersUndisturbed w) (c : Choices) (now : Instant)
    (hnow : w.clock ≤ now) (id : NodeId) (hid : id ∈ (w.service.tick c now).2.newlyDead) :
    ∃ m t, (w.service.resolveProbe c now).1.members.get id = some m ∧ m.state = .suspect ∧
      w.sinceAfter .suspect (w.service.probeEvents now) id = some t ∧
      t + w.service.config.suspectTimeout ≤ now := by
  obtain ⟨hint, hstep⟩ := inStep_of_reach h
  have hlist : (w.service.resolveProbe c now).1.members
      = (Core.run w.service.config w.service.core (w.service.probeEvents now)).2 := by
    obtain ⟨q, g, hs⟩ := SwimService.resolveProbe_eq c w.service now
    rw [hs, ← SwimService.afterProbe_run]
  have hnacks : ∀ e ∈ w.service.probeEvents now, ∃ target, e = .nack target now :=
    fun e he => SwimService.mem_probeEvents he
  have hok : Meets TimerUndisturbed w.service.config w.service.core (w.service.probeEvents now) := by
    unfold SwimService.probeEvents
    split
    · exact ⟨trivial, trivial⟩
    · exact trivial
  have hcheck := follow_run (J := fun x since clock => ∀ k, (x.entry k).InStep (since k) clock)
    inStep_next hint.core (fun e he => spares_probeEvents hint.probe he)
    (fun k => (hstep k).mono hnow) hok (fun e he t ht => by
      obtain ⟨target, rfl⟩ := hnacks e he
      cases ht
      rfl) id
  obtain ⟨t, ht, hdelay⟩ := runOut_iff.mp (mem_newlyDead hid)
  obtain ⟨hsus, hsince⟩ := hcheck.timer t ht
  obtain ⟨m, hm, hst⟩ := Entry.holds_iff.mp hsus
  have hle := (hcheck.dated t hsince).2
  refine ⟨m, t, ?_, hst, hsince, Nat.add_le_of_le_sub' hle hdelay⟩
  rw [hlist]
  exact hm

/-- node 2 misses a ping and is suspected; node 3 acks and brings the refutation of node 2 -/
private def refuted : List Call :=
  [.addSeed 2 .home, .addSeed 3 .home, .tick (.probing 2) 0, .tick (.probing 3) 10,
    .handleFrame (.probing 3) ⟨true, 5, some ⟨3, .home, 5, .ack none, [.alive 2 .home 1 none]⟩⟩]

/-- a node whose suspicion was refuted by an accepted `Alive` is declared dead by the old timer -/
theorem refuted_node_declared_dead :
    ∃ w, (watchMachine .suspect).Reach Machine.Anytime w ∧ w.clock ≤ 200 ∧
      2 ∈ (w.service.tick (.probing 3) 200).2.newlyDead ∧
      (w.service.resolveProbe (.probing 3) 200).1.stateOf 2 = some .alive :=
  (fresh_reach .suspect Machine.Anytime).exists_run refuted (by decide)

/-- node 2 is heard of once, and then misses a ping -/
private def silent : List Call :=
  [.handleFrame (.probing 2) ⟨true, 1, some ⟨2, .home, 1, .ping, []⟩⟩, .tick (.probing 2) 0,
    .tick (.probing 2) 10]

theorem declared_after_timeout_silent :
    ∃ w, (watchMachine .suspect).Reach TimersUndisturbed w ∧
      2 ∈ (w.service.tick (.probing 2) 200).2.newlyDead ∧
      ∃ m t, (w.service.resolveProbe (.probing 2) 200).1.members.get 2 = some m ∧
        m.state = .suspect ∧ w.sinceAfter .suspect (w.service.probeEvents 200) 2 = some t ∧
        t + w.service.config.suspectTimeout ≤ 200 := by
  obtain ⟨w, hw, hclock, hdead⟩ := (fresh_reach .suspect TimersUndisturbed).exists_checked silent
    (p := fun w => w.clock ≤ 200 ∧ 2 ∈ (w.service.tick (.probing 2) 200).2.newlyDead) (by decide)
  exact ⟨w, hw, hdead, declared_only_after_timeout hw (.probing 2) 200 hclock 2 hdead⟩

end Rebar.Swim

import Rebar.Swim.Watch

/-!
# Timers of suspicions and deaths

A suspicion and a death that the service finds out by itself start a timer; those it takes from
gossip do not.  So a member that is suspect or dead may have no timer, and stays so; and a timer may
outlive the death that started it, and then ends another one.
-/

namespace Rebar.Swim

/-! ## what an update brings -/

variable {o : Option Member} {x : Core} {config : SwimConfig} {e : Event}

/-- an update leaves the record as it is, makes the node alive, or is a suspicion or a death that is
believed -/
theorem merge_cases {u : GossipUpdate} {m' : Member} (h : u.merge o = some m') :
    o = some m' ∨ m'.state = .alive ∨
      (∃ n a i, u = .suspect n a i ∧ m'.state = .suspect ∧
        (o.getD (Member.new n a)).state ≠ .dead ∧ (o.getD (Member.new n a)).Heeds i) ∨
      ∃ n a i m, (u = .dead n a i ∨ u = .leave n a i) ∧ m'.state = .dead ∧ o = some m ∧
        m.state ≠ .dead ∧ m.Heeds i := by
  have hdie : ∀ i, o.map (·.dead i) = some m' → o = some m' ∨
      ∃ m, m'.state = .dead ∧ o = some m ∧ m.state ≠ .dead ∧ m.Heeds i := by
    intro i hmap
    obtain ⟨m, rfl, rfl⟩ := Option.map_eq_some_iff.mp hmap
    rw [Member.dead_eq]
    split
    · next hb => exact Or.inr ⟨m, rfl, rfl, hb⟩
    · exact Or.inl rfl
  cases u with
  | alive n a i c =>
    cases o with
    | none =>
      cases h
      exact Or.inr (Or.inl rfl)
    | some m =>
      cases h
      rw [Member.alive_eq]
      split
      · exact Or.inr (Or.inl rfl)
      · exact Or.inl rfl
  | suspect n a i =>
    cases h
    rw [Member.suspect_eq]
    split
    · next hb => exact Or.inr (Or.inr (Or.inl ⟨n, a, i, rfl, rfl, hb⟩))
    · cases o with
      | none => exact Or.inr (Or.inl rfl)
      | some m => exact Or.inl rfl
  | dead n a i =>
    rcases hdie i h with hsame | ⟨m, hm⟩
    · exact Or.inl hsame
    · exact Or.inr (Or.inr (Or.inr ⟨n, a, i, m, Or.inl rfl, hm⟩))
  | leave n a i =>
    rcases hdie i h with hsame | ⟨m, hm⟩
    · exact Or.inl hsame
    · exact Or.inr (Or.inr (Or.inr ⟨n, a, i, m, Or.inr rfl, hm⟩))

theorem merge_suspected {u : GossipUpdate} {m' : Member} (h : u.merge o = some m')
    (hsuspect : m'.state = .suspect) :
    (∃ m, o = some m ∧ m.state = .suspect) ∨
      ∃ n a i, u = .suspect n a i ∧ (o.getD (Member.new n a)).state = .alive ∧
        (o.getD (Member.new n a)).Heeds i := by
  rcases merge_cases h with hsame | hs | ⟨n, a, i, hu, -, hne, hi⟩ | ⟨n, a, i, m, -, hs, -⟩
  · exact Or.inl ⟨m', hsame, hsuspect⟩
  · cases hs.symm.trans hsuspect
  · cases hs : (o.getD (Member.new n a)).state with
    | alive => exact Or.inr ⟨n, a, i, hu, hs, hi⟩
    | suspect =>
      cases o with
      | none => cases hs
      | some m => exact Or.inl ⟨m, rfl, hs⟩
    | dead => exact absurd hs hne
  · cases hs.symm.trans hsuspect

theorem merge_dead {u : GossipUpdate} {m' : Member} (h : u.merge o = some m')
    (hdead : m'.state = .dead) :
    (∃ m, o = some m ∧ m.state = .dead) ∨
      ∃ n a i m, (u = .dead n a i ∨ u = .leave n a i) ∧ o = some m ∧ m.state ≠ .dead ∧
        m.Heeds i := by
  rcases merge_cases h with hsame | hs | ⟨n, a, i, -, hs, -⟩ | ⟨n, a, i, m, hu, -, hm⟩
  · exact Or.inl ⟨m', hsame, hdead⟩
  · cases hs.symm.trans hdead
  · cases hs.symm.trans hdead
  · exact Or.inr ⟨n, a, i, m, hu, hm⟩

/-! ## every suspect and every dead member has its timer -/

/-- the timer that belongs to the state of the node is running -/
structure Entry.Timed (y : Entry) : Prop where
  suspect : ∀ m, y.member = some m → m.state = .suspect → y.suspectTimer.isSome
  dead : ∀ m, y.member = some m → m.state = .dead → y.deadTimer.isSome

/-- a rumour about another node that is believed finds the timer of the state it brings: a suspicion
of a node that is alive, or not known yet, and a death of one that is not dead -/
def BeliefTimed (x : Core) : Event → Prop
  | .gossip (.suspect id addr i) =>
    x.2.selfId ≠ some id → ((x.2.get id).getD (Member.new id addr)).state = .alive →
      ((x.2.get id).getD (Member.new id addr)).Heeds i → (x.1.suspectTimers.lookup id).isSome
  | .gossip (.dead id _ i) =>
    x.2.selfId ≠ some id → ∀ m ∈ x.2.get id, m.state ≠ .dead → m.Heeds i →
      (x.1.deadTimers.lookup id).isSome
  | .gossip (.leave id _ i) =>
    x.2.selfId ≠ some id → ∀ m ∈ x.2.get id, m.state ≠ .dead → m.Heeds i →
      (x.1.deadTimers.lookup id).isSome
  | _ => True

instance (x : Core) : ∀ e, Decidable (BeliefTimed x e)
  | .gossip (.suspect _ _ _) => inferInstanceAs (Decidable (_ → _ → _ → _))
  | .gossip (.dead _ _ _) | .gossip (.leave _ _ _) => inferInstanceAs (Decidable (_ → _))
  | .gossip (.alive _ _ _ _) | .seed _ _ | .hear _ _ | .confirm _ | .nack _ _ | .expire _ _
  | .remove _ _ => .isTrue trivial

def BeliefsTimed (s : SwimService) (a : Call) : Prop :=
  Meets BeliefTimed s.config s.core (s.events a)

instance (s : SwimService) (a : Call) : Decidable (BeliefsTimed s a) :=
  inferInstanceAs (Decidable (Meets _ _ _ _))

namespace Entry
variable {y : Entry} {m : Member} {config : SwimConfig} {now : Instant} {k : NodeId}

theorem Timed.of_alive (h : ∀ m, y.member = some m → m.state = .alive) : y.Timed where
  suspect := fun m hm hs => by cases (h m hm).symm.trans hs
  dead := fun m hm hs => by cases (h m hm).symm.trans hs

theorem restore_state {m : Member} : (FailureDetector.restore m).state ≠ .suspect ∧
    ((FailureDetector.restore m).state = .dead → m.state = .dead) := by
  unfold FailureDetector.restore
  split
  · exact ⟨nofun, nofun⟩
  · next hne => exact ⟨hne, id⟩

theorem Timed.ack (h : y.Timed) : y.ack.Timed where
  suspect := fun m hm hs => by
    obtain ⟨m₀, -, rfl⟩ := Option.map_eq_some_iff.mp hm
    exact absurd hs restore_state.1
  dead := fun m hm hs => by
    obtain ⟨m₀, hm₀, rfl⟩ := Option.map_eq_some_iff.mp hm
    exact h.dead m₀ hm₀ (restore_state.2 hs)

theorem Timed.nack (h : y.Timed) : (y.nack config now).Timed := by
  obtain ⟨a, heq | ⟨m, -, halive, heq⟩⟩ := nack_cases config now y
  · rw [heq]
    exact ⟨h.suspect, h.dead⟩
  · rw [heq]
    constructor
    · intro _ _ _
      rw [Option.isSome_or, Option.isSome_some, Bool.or_true]
    · intro m' hm' hs
      cases hm'
      rw [suspect_self halive] at hs
      cases hs

theorem Timed.declare : (y.declare now).Timed where
  suspect := fun m hm hs => by
    obtain ⟨m₀, -, rfl⟩ := Option.map_eq_some_iff.mp hm
    rw [dead_self] at hs
    cases hs
  dead := fun _ _ _ => rfl

theorem Timed.drop (h : y.Timed) : y.drop.Timed where
  suspect := fun m hm hs => h.suspect m (drop_member hm).1 hs
  dead := fun _ hm hs => absurd hs (drop_member hm).2

theorem Timed.gossip (h : y.Timed) {u : GossipUpdate}
    (hsuspect : ∀ n a i, u = .suspect n a i → (y.member.getD (Member.new n a)).state = .alive →
      (y.member.getD (Member.new n a)).Heeds i → y.suspectTimer.isSome)
    (hdead : ∀ n a i, u = .dead n a i ∨ u = .leave n a i → ∀ m, y.member = some m →
      m.state ≠ .dead → m.Heeds i → y.deadTimer.isSome) :
    Timed { y with member := u.merge y.member } where
  suspect := fun m' hm' hs => by
    rcases merge_suspected hm' hs with ⟨m, hm, hs⟩ | ⟨n, a, i, hu, hs, hi⟩
    · exact h.suspect m hm hs
    · exact hsuspect n a i hu hs hi
  dead := fun m' hm' hs => by
    rcases merge_dead hm' hs with ⟨m, hm, hs⟩ | ⟨n, a, i, m, hu, hm, hs, hi⟩
    · exact h.dead m hm hs
    · exact hdead n a i hu m hm hs hi

end Entry

/-! ## runs -/

theorem timed_next (h : ∀ k, (x.entry k).Timed) (hok : BeliefTimed x e) (k : NodeId) :
    ((x.next config e).entry k).Timed := by
  have hk := h k
  have hchange := entry_change config x e k
  generalize (x.next config e).entry k = y' at hchange ⊢
  cases hchange with
  | same => exact hk
  | seed addr => exact .of_alive fun m hm => by cases hm; rfl
  | hear addr =>
    cases hm : (x.entry k).member with
    | none => exact .of_alive fun m hm => by cases hm; rfl
    | some m =>
      rw [Option.getD_some, ← hm]
      exact hk.ack
  | @gossip u hself hu =>
    subst hu
    refine hk.gossip ?_ ?_
    · rintro n a i rfl
      exact hok hself
    · rintro n a i (rfl | rfl)
      · exact hok hself
      · exact hok hself
  | refuted _ hm => exact .of_alive fun m' hm' => by cases hm'; exact hm
  | confirm => exact hk.ack
  | nack now => exact hk.nack
  | expire o now _ => exact .declare
  | remove o now _ => exact hk.drop

/-- **In a run in which every rumour that is believed finds its timer, every suspect member has a
suspicion timer and every dead member has a removal timer.** -/
theorem timers_run {s : SwimService} (h : serviceMachine.Reach BeliefsTimed s) {id : NodeId}
    {m : Member} (hm : s.members.get id = some m) :
    (m.state = .suspect → id ∈ s.detector.suspectTimers) ∧
      (m.state = .dead → id ∈ s.detector.deadTimers) := by
  have hstart : ∀ s, serviceMachine.start s → ∀ k, (s.core.entry k).Timed := by
    intro s hs k
    obtain ⟨member, halive, heq⟩ := entry_new hs k
    rw [heq]
    exact .of_alive halive
  have hinv := core_inv (I := fun x => ∀ k, (x.entry k).Timed) hstart
    (fun _ _ _ hx hok => timed_next hx hok) h id
  exact ⟨fun hs => AList.lookup_isSome.mp (hinv.suspect m hm hs),
    fun hs => AList.lookup_isSome.mp (hinv.dead m hm hs)⟩

private def bringing (us : List GossipUpdate) : Frame :=
  ⟨true, 7, some ⟨3, .home, 7, .ack none, us⟩⟩

/-- node 2 misses a ping, is suspected, here and elsewhere, and is declared dead; then node 3 misses
a ping -/
private def missed : List Call :=
  [.addSeed 2 .home, .addSeed 3 .home, .tick (.probing 2) 0, .tick (.probing 3) 10,
    .handleFrame .default (bringing [.suspect 2 .home 0, .alive 4 .home 0 none]),
    .tick (.probing 3) 200, .tick (.probing 3) 210]

theorem timers_run_missed :
    ∃ s, serviceMachine.Reach BeliefsTimed s ∧ s.stateOf 3 = some .suspect ∧
      s.stateOf 2 = some .dead ∧ 3 ∈ s.detector.suspectTimers ∧ 2 ∈ s.detector.deadTimers := by
  have hstart : serviceMachine.Reach BeliefsTimed (SwimService.fresh 0) :=
    .start ⟨1, .home, .helpedBy 0, none, rfl⟩
  obtain ⟨s, hs, h3, h2⟩ := hstart.exists_checked missed
    (p := fun s => s.stateOf 3 = some .suspect ∧ s.stateOf 2 = some .dead) (by decide)
  obtain ⟨m₃, hm₃, hs₃⟩ := Option.map_eq_some_iff.mp h3
  obtain ⟨m₂, hm₂, hs₂⟩ := Option.map_eq_some_iff.mp h2
  exact ⟨s, hs, h3, h2, (timers_run hs hm₃).1 hs₃, (timers_run hs hm₂).2 hs₂⟩

/-- node 3 brings the news that node 2 is suspect and node 4 dead: both stay so without a timer -/
theorem believed_without_timer :
    ∃ s, serviceMachine.Reach Machine.Anytime s ∧
      s.stateOf 2 = some .suspect ∧ 2 ∉ s.detector.suspectTimers ∧
      s.stateOf 4 = some .dead ∧ 4 ∉ s.detector.deadTimers := by
  have hstart : serviceMachine.Reach Machine.Anytime (SwimService.fresh 0) :=
    .start ⟨1, .home, .helpedBy 0, none, rfl⟩
  exact hstart.exists_run [.handleFrame .default
    (bringing [.suspect 2 .home 0, .alive 4 .home 0 none, .dead 4 .home 0])] (by decide)

/-! ## timers of earlier deaths -/

/-- a death of another node that is believed finds no timer of an earlier one -/
def NoStaleTimer (x : Core) : Event → Prop
  | .gossip (.dead id _ i) =>
    x.2.selfId ≠ some id → ∀ m ∈ x.2.get id, m.state ≠ .dead → m.Heeds i →
      x.1.deadTimers.lookup id = none
  | .gossip (.leave id _ i) =>
    x.2.selfId ≠ some id → ∀ m ∈ x.2.get id, m.state ≠ .dead → m.Heeds i →
      x.1.deadTimers.lookup id = none
  | _ => True

instance (x : Core) : ∀ e, Decidable (NoStaleTimer x e)
  | .gossip (.dead _ _ _) | .gossip (.leave _ _ _) => inferInstanceAs (Decidable (_ → _))
  | .gossip (.suspect _ _ _) | .gossip (.alive _ _ _ _) | .seed _ _ | .hear _ _ | .confirm _
  | .nack _ _ | .expire _ _ | .remove _ _ => .isTrue trivial

abbrev NoStaleTimers : Watch → Call → Prop := Watch.Meets NoStaleTimer

/-! ## timers and deaths in step -/

/-- the timer of a dead node is not older than its death, and neither is in the future -/
structure Entry.Mourned (y : Entry) (since : Option Instant) (clock : Instant) : Prop where
  past : ∀ t, y.deadTimer = some t → t ≤ clock
  dated : ∀ t, since = some t → t ≤ clock
  timer : ∀ t, y.deadTimer = some t → y.holds .dead = true → ∃ t', since = some t' ∧ t' ≤ t

namespace Entry
variable {y y' : Entry} {since time : Option Instant} {clock now : Instant} {config : SwimConfig}

theorem Mourned.mono (h : y.Mourned since clock) (hle : clock ≤ now) : y.Mourned since now where
  past := fun t ht => (h.past t ht).trans hle
  dated := fun t ht => (h.dated t ht).trans hle
  timer := h.timer

/-- **The rule for an event**: a node that it leaves dead with a timer was dead before, or the timer
starts now. -/
theorem Mourned.keep (h : y.Mourned since clock) (htime : ∀ t, time = some t → t ≤ clock)
    (htimer : ∀ t, y'.deadTimer = some t →
      y.deadTimer = some t ∧ (y'.holds .dead = true → y.holds .dead = true) ∨ time = some t ∧ t = clock) :
    y'.Mourned (if y'.holds .dead then since.or time else none) clock where
  past := fun t ht => (htimer t ht).elim (fun hold => h.past t hold.1) fun hnew => hnew.2.le
  dated := fun t ht => by
    split at ht
    · rcases Option.or_eq_some_iff.mp ht with hs | ⟨-, hs⟩
      · exact h.dated t hs
      · exact htime t hs
    · cases ht
  timer := fun t ht hd => by
    rw [if_pos hd]
    rcases htimer t ht with ⟨ht, hdead⟩ | ⟨ht, rfl⟩
    · obtain ⟨t', ht', hle⟩ := h.timer t ht (hdead hd)
      exact ⟨t', by rw [ht']; rfl, hle⟩
    · cases hs : since with
      | none => exact ⟨t, ht, le_refl _⟩
      | some t' => exact ⟨t', rfl, h.dated t' hs⟩

theorem ack_dead (h : y.ack.holds .dead = true) : y.holds .dead = true := by
  obtain ⟨m, hm, hs⟩ := holds_iff.mp h
  obtain ⟨m₀, hm₀, rfl⟩ := Option.map_eq_some_iff.mp hm
  exact holds_iff.mpr ⟨m₀, hm₀, restore_state.2 hs⟩

theorem nack_dead : (y.nack config now).deadTimer = y.deadTimer ∧
    ((y.nack config now).holds .dead = true → y.holds .dead = true) := by
  obtain ⟨a, heq | ⟨m, -, halive, heq⟩⟩ := nack_cases config now y
  · rw [heq]
    exact ⟨rfl, id⟩
  · rw [heq]
    refine ⟨rfl, fun h => ?_⟩
    obtain ⟨m', hm', hs⟩ := holds_iff.mp h
    cases hm'
    rw [suspect_self halive] at hs
    cases hs

end Entry

theorem mourned_next {since : Since} {clock : Instant}
    (h : ∀ k, (x.entry k).Mourned (since k) clock) (hok : NoStaleTimer x e)
    (htime : ∀ t, e.time = some t → t = clock) (k : NodeId) :
    ((x.next config e).entry k).Mourned (since.follow .dead e (x.next config e) k) clock := by
  have hk := h k
  have hchange := entry_change config x e k
  unfold Since.follow
  have hle : ∀ t, e.time = some t → t ≤ clock := fun t ht => (htime t ht).le
  generalize (x.next config e).entry k = y' at hchange ⊢
  cases hchange with
  | same => exact hk.keep hle fun t ht => Or.inl ⟨ht, id⟩
  | seed addr => exact hk.keep hle fun t ht => Or.inl ⟨ht, nofun⟩
  | hear addr =>
    refine hk.keep hle fun t ht => Or.inl ⟨ht, fun hd => ?_⟩
    obtain ⟨m, hm, hs⟩ := Entry.holds_iff.mp (Entry.ack_dead hd)
    cases hm
    rcases hm : (x.entry k).member with _ | m <;> rw [hm] at hs
    · cases hs
    · exact Entry.holds_iff.mpr ⟨m, hm, hs⟩
  | @gossip u hself hu =>
    subst hu
    refine hk.keep hle fun t ht => Or.inl ⟨ht, fun hd => ?_⟩
    obtain ⟨m', hm', hs⟩ := Entry.holds_iff.mp hd
    rcases merge_dead hm' hs with ⟨m, hm, hs⟩ | ⟨n, a, i, m, hu, hm, hs, hi⟩
    · exact Entry.holds_iff.mpr ⟨m, hm, hs⟩
    · -- a death that is believed here would find the timer
      have hnone : (x.entry u.nodeId).deadTimer = none := by
        rcases hu with rfl | rfl <;> exact hok hself m hm hs hi
      rw [hnone] at ht
      cases ht
  | refuted _ hm =>
    refine hk.keep hle fun t ht => Or.inl ⟨ht, fun hd => ?_⟩
    obtain ⟨m', hm', hs⟩ := Entry.holds_iff.mp hd
    cases hm'
    rw [hm] at hs
    cases hs
  | confirm => exact hk.keep hle fun t ht => Or.inl ⟨ht, Entry.ack_dead⟩
  | nack now =>
    obtain ⟨htimer, hdead⟩ := Entry.nack_dead (y := x.entry k)
    exact hk.keep hle fun t ht => Or.inl ⟨htimer ▸ ht, hdead⟩
  | expire o now _ =>
    refine hk.keep hle fun t ht => ?_
    cases ht
    exact Or.inr ⟨rfl, htime now rfl⟩
  | remove o now _ => exact hk.keep hle nofun

theorem mourned_of_reach {w : Watch} (h : (watchMachine .dead).Reach NoStaleTimers w) :
    w.service.Intact ∧ ∀ k, (w.service.core.entry k).Mourned (w.since k) w.clock := by
  refine watch_inv (J := fun x since clock => ∀ k, (x.entry k).Mourned (since k) clock)
    (fun _ => mourned_next) (fun s hs k => ?_) (fun hj hle k => (hj k).mono hle) h
  obtain ⟨member, -, heq⟩ := entry_new hs k
  rw [heq]
  exact ⟨nofun, nofun, nofun⟩

def Watch.beforeRemoval (w : Watch) (c : Choices) (now : Instant) : List Event :=
  w.service.probeEvents now ++ [.expire c.suspects now]

/-- **In a run in which no death that is believed finds the timer of an earlier one, a tick removes
a node only if the list holds it as dead, and has held it so without interruption for the whole
delay.** -/
theorem removed_after_delay {w : Watch} (h : (watchMachine .dead).Reach NoStaleTimers w)
    (c : Choices) (now : Instant) (hnow : w.clock ≤ now) (id : NodeId)
    (hid : id ∈ (w.service.tick c now).2.removed) :
    ∃ m t, (Core.run w.service.config w.service.core (w.beforeRemoval c now)).2.get id = some m ∧
      m.state = .dead ∧ w.sinceAfter .dead (w.beforeRemoval c now) id = some t ∧
      t + w.service.config.deadRemovalDelay ≤ now := by
  obtain ⟨hout, hdead⟩ := mem_removed hid
  obtain ⟨hint, hmourned⟩ := mourned_of_reach h
  have hok : Meets NoStaleTimer w.service.config w.service.core (w.beforeRemoval c now) := by
    unfold Watch.beforeRemoval SwimService.probeEvents
    split
    · exact ⟨trivial, trivial, trivial⟩
    · exact ⟨trivial, trivial⟩
  have hevents : ∀ e ∈ w.beforeRemoval c now,
      e.Spares w.service.selfId ∧ ∀ t, e.time = some t → t = now := by
    intro e he
    rcases List.mem_append.mp he with he | he
    · refine ⟨spares_probeEvents hint.probe he, fun t ht => ?_⟩
      obtain ⟨target, rfl⟩ := SwimService.mem_probeEvents he
      cases ht
      rfl
    · rw [List.mem_singleton.mp he]
      refine ⟨trivial, fun t ht => ?_⟩
      cases ht
      rfl
  have hlast := follow_run (J := fun x since clock => ∀ k, (x.entry k).Mourned (since k) clock)
    (fun _ => mourned_next) hint.core (fun e he => (hevents e he).1)
    (fun k => (hmourned k).mono hnow) hok (fun e he => (hevents e he).2) id
  obtain ⟨m, hm, hs⟩ := Entry.isDead_iff.mp hdead
  obtain ⟨t, ht, hdelay⟩ := runOut_iff.mp hout
  obtain ⟨t', ht', hle⟩ := hlast.timer t ht (Entry.holds_iff.mpr ⟨m, hm, hs⟩)
  have hlong := Nat.add_le_of_le_sub' (hlast.past t ht) hdelay
  exact ⟨m, t', hm, hs, ht', (Nat.add_le_add_right hle _).trans hlong⟩

/-- node 2 is declared dead at time 200 and is not heard of again -/
theorem removed_after_delay_missed :
    ∃ w, (watchMachine .dead).Reach NoStaleTimers w ∧
      2 ∈ (w.service.tick (.probing 3) 1300).2.removed ∧
      ∃ m t, (Core.run w.service.config w.service.core
          (w.beforeRemoval (.probing 3) 1300)).2.get 2 = some m ∧ m.state = .dead ∧
        w.sinceAfter .dead (w.beforeRemoval (.probing 3) 1300) 2 = some t ∧
        t + w.service.config.deadRemovalDelay ≤ 1300 := by
  obtain ⟨w, hw, hclock, hmem⟩ := (fresh_reach .dead NoStaleTimers).exists_checked missed
    (p := fun w => w.clock ≤ 1300 ∧ 2 ∈ (w.service.tick (.probing 3) 1300).2.removed) (by decide)
  exact ⟨w, hw, hmem, removed_after_delay hw (.probing 3) 1300 hclock 2 hmem⟩

/-- node 2 is declared dead at time 200, is alive again at time 1100, and dies once more; the timer
of its first death removes it at time 1210 -/
theorem removed_by_stale_timer :
    ∃ w, (watchMachine .dead).Reach Machine.Anytime w ∧ w.clock = 1100 ∧
      w.service.config.deadRemovalDelay = 1000 ∧ w.service.stateOf 2 = some .alive ∧
      2 ∈ ((w.service.handleFrame .default (bringing [.dead 2 .home 1])).1.tick
        .default 1210).2.removed :=
  (fresh_reach .dead Machine.Anytime).exists_run
    (missed ++ [.handleFrame .default (bringing [.alive 2 .home 1 none]), .tick .default 1100])
    (by decide)

end Rebar.Swim

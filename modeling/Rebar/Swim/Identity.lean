import Rebar.Swim.Entries

/-!
# The node's own entry

The own node sits in the same list as its peers, so every path that changes a member could reach it:
gossip, frames and acks, the timers and the removal.  Of the events of a call only gossip may name
it (`Event.Spares`), a rumour about it is answered by raising both copies of the incarnation, and no
timer that could run out is ever its own.
-/

namespace Rebar.Swim

/-! ## the events -/

def Event.Spares (id : NodeId) : Event → Prop
  | .seed n _ => n ≠ id
  | .hear n _ => n ≠ id
  | .confirm n => n ≠ id
  | .nack n _ => n ≠ id
  | _ => True

/-- the service knows itself to be alive, under the incarnation it claims -/
structure Core.Intact (id : NodeId) (x : Core) : Prop where
  self : x.2.selfId = some id
  alive : ∃ m, x.2.get id = some m ∧ m.state = .alive ∧ m.incarnation = x.2.selfIncarnation
  suspectTimer : x.1.suspectTimers.lookup id = none
  deadTimer : x.1.deadTimers.lookup id = none

variable {x : Core} {id : NodeId} {config : SwimConfig} {e : Event}

theorem selfIncarnation_next (config : SwimConfig) (x : Core) (he : ∀ u, e ≠ .gossip u) :
    (x.next config e).2.selfIncarnation = x.2.selfIncarnation := by
  cases e with
  | seed id addr => rfl
  | hear id addr =>
    show (if _ then _ else _ : MembershipList).selfIncarnation = _
    split
    · rfl
    · rfl
  | gossip u => exact absurd rfl (he u)
  | confirm id => rfl
  | nack id now =>
    show (FailureDetector.recordNack _ _ _ _ _).2.selfIncarnation = _
    rcases FailureDetector.recordNack_cases x.1 x.2 id config now with ⟨h, -⟩ | ⟨m, -, -, h, -⟩
    · rw [h]
    · rw [h]
      rfl
  | expire o now => exact FailureDetector.declareAll_selfIncarnation _ _ _
  | remove o now => exact FailureDetector.removeAll_selfIncarnation _ _

theorem Core.Intact.entry (h : x.Intact id) (config : SwimConfig) (hs : e.Spares id)
    (he : ∀ u, e ≠ .gossip u) : (x.next config e).entry id = x.entry id := by
  have hno : ∀ delay now, runOut delay now none ≠ true := fun delay now => Bool.false_ne_true
  have hst : (x.entry id).suspectTimer = none := h.suspectTimer
  have hdt : (x.entry id).deadTimer = none := h.deadTimer
  generalize hy : (x.next config e).entry id = y
  have hc := entry_change config x e id
  rw [hy] at hc
  cases hc with
  | same => rfl
  | seed addr => exact absurd rfl hs
  | hear addr => exact absurd rfl hs
  | gossip => exact absurd rfl (he _)
  | refuted => exact absurd rfl (he _)
  | confirm => exact absurd rfl hs
  | nack now => exact absurd rfl hs
  | expire o now hout =>
    rw [hst] at hout
    exact absurd hout (hno _ _)
  | remove o now hout =>
    rw [hdt] at hout
    exact absurd hout (hno _ _)

theorem Core.Intact.refute (h : x.Intact id) (i : UInt64) :
    Core.Intact id (x.1, (x.2.refuteAboutSelf i).1) ∧
      x.2.selfIncarnation.toNat ≤ (x.2.refuteAboutSelf i).1.selfIncarnation.toNat := by
  have hsame : x.2.refuteAboutSelf i = (x.2, none) →
      Core.Intact id (x.1, (x.2.refuteAboutSelf i).1) ∧
        x.2.selfIncarnation.toNat ≤ (x.2.refuteAboutSelf i).1.selfIncarnation.toNat := by
    intro heq
    rw [heq]
    exact ⟨h, Nat.le_refl _⟩
  obtain ⟨m, hm, -, -⟩ := h.alive
  cases ha : x.2.selfAddr with
  | none =>
    refine hsame ?_
    unfold MembershipList.refuteAboutSelf
    rw [h.self, ha]
  | some addr =>
    by_cases hstale : i < x.2.selfIncarnation
    · exact hsame (MembershipList.refuteAboutSelf_stale hstale)
    · rw [MembershipList.refuteAboutSelf_fresh h.self ha hstale]
      refine ⟨⟨h.self, ⟨{ m with state := .alive, incarnation := satAdd i 1 }, ?_, rfl, rfl⟩,
        h.suspectTimer, h.deadTimer⟩, ?_⟩
      · dsimp only
        rw [MembershipList.get_modify, if_pos rfl]
        exact congrArg (Option.map _) hm
      · show _ ≤ (satAdd i 1).toNat
        rw [toNat_satAdd_one]
        rw [UInt64.lt_iff_toNat_lt] at hstale
        have := toNat_le_max x.2.selfIncarnation
        omega

theorem Core.Intact.gossip (h : x.Intact id) (u : GossipUpdate) :
    Core.Intact id (x.1, (x.2.applyUpdate u).1) ∧
      x.2.selfIncarnation.toNat ≤ (x.2.applyUpdate u).1.selfIncarnation.toNat := by
  cases hu : rumourAbout id u with
  | some i =>
    rw [MembershipList.applyUpdate_rumour h.self hu]
    exact h.refute i
  | none =>
    obtain ⟨⟨hid, -, hinc⟩, -, hget⟩ := MembershipList.applyUpdate_no_rumour h.self hu
    obtain ⟨m, hm, hs, hi⟩ := h.alive
    refine ⟨⟨hid.trans h.self, ⟨m, hget.trans hm, hs, hi.trans hinc.symm⟩, h.suspectTimer,
      h.deadTimer⟩, ?_⟩
    rw [hinc]

/-- **The step.**  An event that spares the node, or any gossip, keeps its entry intact and does not
lower its incarnation. -/
theorem Core.Intact.next (h : x.Intact id) (config : SwimConfig) (hs : e.Spares id) :
    (x.next config e).Intact id ∧
    x.2.selfIncarnation.toNat ≤ (x.next config e).2.selfIncarnation.toNat := by
  by_cases he : ∃ u, e = .gossip u
  · obtain ⟨u, rfl⟩ := he
    exact h.gossip u
  · replace he : ∀ u, e ≠ .gossip u := fun u hu => he ⟨u, hu⟩
    have hentry := h.entry config hs he
    have hinc := selfIncarnation_next config x he
    obtain ⟨m, hm, halive, hi⟩ := h.alive
    refine ⟨⟨(selfId_next config x e).trans h.self, ⟨m, ?_, halive, hi.trans hinc.symm⟩, ?_, ?_⟩, ?_⟩
    · exact (congrArg Entry.member hentry).trans hm
    · exact (congrArg Entry.suspectTimer hentry).trans h.suspectTimer
    · exact (congrArg Entry.deadTimer hentry).trans h.deadTimer
    · rw [hinc]

theorem Core.Intact.run {es : List Event} (h : x.Intact id) (config : SwimConfig)
    (hs : ∀ e ∈ es, e.Spares id) :
    (x.run config es).Intact id ∧
      x.2.selfIncarnation.toNat ≤ (x.run config es).2.selfIncarnation.toNat := by
  induction es generalizing x with
  | nil => exact ⟨h, Nat.le_refl _⟩
  | cons e es ih =>
    obtain ⟨hnext, hle⟩ := h.next config (hs e List.mem_cons_self)
    obtain ⟨hrun, hle'⟩ := ih hnext fun e he => hs e (List.mem_cons_of_mem _ he)
    exact ⟨hrun, hle.trans hle'⟩

/-! ## the calls -/

variable {s t : SwimService}

structure SwimService.Intact (s : SwimService) : Prop where
  core : s.core.Intact s.selfId
  probe : s.probe.target ≠ some s.selfId

theorem spares_heardEvents {env : SwimEnvelope} (h : e ∈ s.heardEvents env) :
    e.Spares s.selfId := by
  unfold SwimService.heardEvents at h
  split at h
  · cases h
  · next hne =>
    rw [List.mem_singleton.mp h]
    exact hne

theorem spares_confirmEvents {env : SwimEnvelope} (h : e ∈ s.confirmEvents env) :
    e.Spares s.selfId := by
  unfold SwimService.confirmEvents at h
  split at h
  · split at h
    · cases h
    · next hne =>
      rw [List.mem_singleton.mp h]
      exact hne
  · cases h

theorem spares_probeEvents {now : Instant} (hp : s.probe.target ≠ some s.selfId)
    (h : e ∈ s.probeEvents now) : e.Spares s.selfId := by
  unfold SwimService.probeEvents at h
  split at h
  · next target htarget _ =>
    rw [List.mem_singleton.mp h]
    rintro rfl
    exact hp htarget
  · cases h

theorem spares_events (hp : s.probe.target ≠ some s.selfId) {a : Call} (h : e ∈ s.events a) :
    e.Spares s.selfId := by
  cases a with
  | addSeed n addr =>
    rw [SwimService.events] at h
    split at h
    · cases h
    · next hne =>
      rw [List.mem_singleton.mp h]
      exact hne
  | handleFrame c frame =>
    rw [SwimService.events] at h
    split at h
    · next env _ =>
      rcases List.mem_append.mp h with h | h
      · exact spares_heardEvents h
      · rcases List.mem_append.mp h with h | h
        · obtain ⟨u, -, rfl⟩ := List.mem_map.mp h
          trivial
        · exact spares_confirmEvents h
    · cases h
  | tick c now =>
    rcases List.mem_append.mp h with h | h
    · exact spares_probeEvents hp h
    · rcases List.mem_cons.mp h with rfl | h
      · trivial
      · rw [List.mem_singleton.mp h]
        trivial

theorem target_call (hp : s.probe.target ≠ some s.selfId) (a : Call) :
    (s.call a).probe.target ≠ some s.selfId := by
  cases a with
  | addSeed n addr =>
    obtain ⟨l, h⟩ := s.addSeed_eq n addr
    show (s.addSeed n addr).probe.target ≠ _
    rw [h]
    exact hp
  | handleFrame c frame =>
    show (s.handleFrame c frame).1.probe.target ≠ _
    cases hd : frame.decode with
    | none =>
      unfold SwimService.handleFrame
      rw [hd]
      exact hp
    | some env =>
      obtain ⟨d, l, g, h⟩ := SwimService.handleFrame_eq (c := c) (s := s) hd
      rw [h]
      rcases SwimService.handleKind_cases c { s with detector := d, members := l, gossip := g } env
        with ⟨q, g', p, r, h'⟩ | ⟨id, -, q, g', p, r, h'⟩
      · rw [h']
        exact hp
      · rw [h']
        exact hp
  | tick c now =>
    obtain ⟨d, l, g, h⟩ := SwimService.settled_eq c s now
    obtain ⟨p, q, g', h', hcases⟩ := SwimService.probeNext_eq c (s.settled c now)
    show (s.tick c now).1.probe.target ≠ _
    rw [SwimService.tick_fst, h']
    rw [h] at hcases
    rcases hcases with rfl | ⟨m, -, hne, rfl⟩
    · exact (Option.some_ne_none _).symm
    · exact fun he => hne (Option.some.inj he)

theorem SwimService.Intact.call (h : s.Intact) (a : Call) : (s.call a).Intact ∧
    s.members.selfIncarnation.toNat ≤ (s.call a).members.selfIncarnation.toNat := by
  have hrun := h.core.run s.config fun e he => spares_events h.probe (a := a) he
  rw [← s.core_call a] at hrun
  have hid := (s.config_call a).2
  refine ⟨⟨?_, ?_⟩, hrun.2⟩
  · rw [hid]
    exact hrun.1
  · rw [hid]
    exact target_call h.probe a

theorem SwimService.Intact.tick (h : s.Intact) (c : Choices) (now : Instant) :
    s.selfId ∉ (s.tick c now).2.newlyDead ∧ s.selfId ∉ (s.tick c now).2.removed := by
  have hprobe : ∀ e ∈ s.probeEvents now, e.Spares s.selfId :=
    fun e he => spares_probeEvents h.probe he
  constructor
  · intro hmem
    obtain ⟨t, ht, -⟩ := runOut_iff.mp (mem_newlyDead hmem)
    cases (h.core.run s.config hprobe).1.suspectTimer.symm.trans ht
  · intro hmem
    have hspares : ∀ e ∈ s.probeEvents now ++ [.expire c.suspects now], e.Spares s.selfId := by
      intro e he
      rcases List.mem_append.mp he with he | he
      · exact hprobe e he
      · rw [List.mem_singleton.mp he]
        trivial
    obtain ⟨t, ht, -⟩ := runOut_iff.mp (mem_removed hmem).1
    cases (h.core.run s.config hspares).1.deadTimer.symm.trans ht

/-! ## the runs -/

theorem intact_new (id : NodeId) (addr : SocketAddr) (config : SwimConfig)
    (cert : Option CertHash) : (SwimService.new id addr config cert).Intact where
  core :=
    { self := rfl
      alive := ⟨_, (MembershipList.get_withSelf id id addr cert).trans (if_pos rfl), rfl, rfl⟩
      suspectTimer := rfl
      deadTimer := rfl }
  probe := (Option.some_ne_none id).symm

theorem intact_of_reach (h : serviceMachine.Reach Machine.Anytime s) : s.Intact := by
  refine h.inv (I := SwimService.Intact) ?_ ?_
  · rintro s ⟨id, addr, config, cert, rfl⟩
    exact intact_new id addr config cert
  · intro s a t hs _ hn
    cases hn
    exact (hs.call a).1

/-- **In every run the own entry is present and alive under the claimed incarnation, which never
decreases, and the node has no timer, is not its own target and is never reported.** -/
theorem own_entry_intact (h : serviceMachine.Reach Machine.Anytime s) :
    (∃ m, s.members.get s.selfId = some m ∧ m.state = .alive ∧
      m.incarnation = s.members.selfIncarnation) ∧
    s.selfId ∉ s.detector.suspectTimers ∧ s.selfId ∉ s.detector.deadTimers ∧
    s.probe.target ≠ some s.selfId ∧
    (∀ c now, s.selfId ∉ (s.tick c now).2.newlyDead ∧ s.selfId ∉ (s.tick c now).2.removed) ∧
    ∀ t, (serviceMachine.startedAt s).Reach Machine.Anytime t →
      t.selfId = s.selfId ∧ s.members.selfIncarnation ≤ t.members.selfIncarnation := by
  have hs := intact_of_reach h
  refine ⟨hs.core.alive, ?_, ?_, hs.probe, hs.tick, ?_⟩
  · exact AList.lookup_eq_none.mp hs.core.suspectTimer
  · exact AList.lookup_eq_none.mp hs.core.deadTimer
  · intro t ht
    suffices hle : t.Intact ∧ t.selfId = s.selfId ∧
        s.members.selfIncarnation.toNat ≤ t.members.selfIncarnation.toNat from
      ⟨hle.2.1, UInt64.le_iff_toNat_le.mpr hle.2.2⟩
    refine ht.inv (I := fun t => t.Intact ∧ t.selfId = s.selfId ∧
      s.members.selfIncarnation.toNat ≤ t.members.selfIncarnation.toNat) ?_ ?_
    · rintro t rfl
      exact ⟨hs, rfl, Nat.le_refl _⟩
    · rintro t a u ⟨hint, hid, hle⟩ _ hn
      cases hn
      obtain ⟨hint', hle'⟩ := hint.call a
      exact ⟨hint', (t.config_call a).2.trans hid, hle.trans hle'⟩

/-- a frame that claims to come from node 1, with word of its death -/
private def obituary : Call :=
  .handleFrame .default ⟨true, 7, some ⟨1, .home, 7, .ack none, [.dead 1 .home 5]⟩⟩

/-- node 1 answers word of its own death at incarnation 5 with incarnation 6 -/
theorem own_entry_answers : ∃ s : SwimService, serviceMachine.Reach Machine.Anytime s ∧
    s.members.selfIncarnation = 6 ∧
    (∃ m, s.members.get s.selfId = some m ∧ m.state = .alive ∧
      m.incarnation = s.members.selfIncarnation) ∧
    s.selfId ∉ s.detector.suspectTimers ∧ s.selfId ∉ s.detector.deadTimers ∧
    s.probe.target ≠ some s.selfId ∧
    (∀ c now, s.selfId ∉ (s.tick c now).2.newlyDead ∧ s.selfId ∉ (s.tick c now).2.removed) ∧
    ∀ t, (serviceMachine.startedAt s).Reach Machine.Anytime t →
      t.selfId = s.selfId ∧ s.members.selfIncarnation ≤ t.members.selfIncarnation := by
  have hstart : serviceMachine.Reach Machine.Anytime (SwimService.fresh 1) :=
    .start ⟨1, .home, _, none, rfl⟩
  obtain ⟨s, hs, hsix⟩ := hstart.exists_run [.addSeed 2 .home, obituary, .tick .default 100]
    (p := fun s => s.members.selfIncarnation = 6) (by decide)
  exact ⟨s, hs, hsix, own_entry_intact hs⟩

end Rebar.Swim

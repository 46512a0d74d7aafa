import Rebar.Swim.Events

/-!
# One node at a time

What the detector and the list hold about a node changes independently of what they hold about
another: an event is, for every node, a step of a small machine (`Entry.next`).  The one exception
is a rumour about the service's own node, which is answered and never believed.
-/

namespace Rebar.Swim

structure Entry where
  member : Option Member
  suspectTimer : Option Instant
  deadTimer : Option Instant
  failed : Option UInt64

def Core.entry (x : Core) (k : NodeId) : Entry :=
  ⟨x.2.get k, x.1.suspectTimers.lookup k, x.1.deadTimers.lookup k, x.1.failedProbes.lookup k⟩

/-- whether the timer has run for at least `delay` -/
def runOut (delay : Duration) (now : Instant) : Option Instant → Bool
  | some t => delay ≤ now - t
  | none => false

variable {now : Instant} {s : SwimService}

theorem runOut_iff {delay : Duration} {timer : Option Instant} :
    runOut delay now timer = true ↔ ∃ t, timer = some t ∧ delay ≤ now - t := by
  cases timer with
  | none => simp [runOut]
  | some t => simp [runOut]

namespace Entry

def ack (y : Entry) : Entry :=
  { y with member := y.member.map FailureDetector.restore, suspectTimer := none, failed := none }

def nack (config : SwimConfig) (now : Instant) (y : Entry) : Entry :=
  let attempts := satAdd (y.failed.getD 0) 1
  let y := { y with failed := some attempts }
  if attempts < 1 + config.indirectProbeCount then y
  else
    match y.member with
    | some m =>
      if m.state = .alive then
        { y with
          member := some (m.suspect m.incarnation)
          suspectTimer := y.suspectTimer.or (some now) }
      else y
    | none => y

def declare (now : Instant) (y : Entry) : Entry where
  member := y.member.map fun m => m.dead m.incarnation
  suspectTimer := none
  deadTimer := some now
  failed := none

def isDead (y : Entry) : Bool :=
  match y.member with
  | some m => m.state = .dead
  | none => false

def drop (y : Entry) : Entry :=
  { y with deadTimer := none, member := if y.isDead then none else y.member }

/-- what an event does to the entry of the node `k` -/
def next (config : SwimConfig) (k : NodeId) (y : Entry) : Event → Entry
  | .seed id addr => if k = id then { y with member := some (Member.new id addr) } else y
  | .hear id addr =>
    if k = id then ack { y with member := some (y.member.getD (Member.new id addr)) } else y
  | .gossip u => if k = u.nodeId then { y with member := u.merge y.member } else y
  | .confirm id => if k = id then y.ack else y
  | .nack id now => if k = id then y.nack config now else y
  | .expire _ now => if runOut config.suspectTimeout now y.suspectTimer then y.declare now else y
  | .remove _ now => if runOut config.deadRemovalDelay now y.deadTimer then y.drop else y

theorem nack_cases (config : SwimConfig) (now : Instant) (y : Entry) :
    ∃ a, y.nack config now = { y with failed := a } ∨
      ∃ m, y.member = some m ∧ m.state = .alive ∧ y.nack config now =
        { y with
          member := some (m.suspect m.incarnation)
          suspectTimer := y.suspectTimer.or (some now)
          failed := a } := by
  obtain ⟨member, st, dt, failed⟩ := y
  unfold nack
  dsimp only
  split
  · exact ⟨_, Or.inl rfl⟩
  · cases member with
    | none => exact ⟨_, Or.inl rfl⟩
    | some m =>
      dsimp only
      split
      · next halive => exact ⟨_, Or.inr ⟨m, rfl, halive, rfl⟩⟩
      · exact ⟨_, Or.inl rfl⟩

theorem isDead_iff {y : Entry} : y.isDead = true ↔ ∃ m, y.member = some m ∧ m.state = .dead := by
  unfold isDead
  cases y.member with
  | none => simp
  | some m => simp

theorem drop_member {y : Entry} {m : Member} (h : y.drop.member = some m) :
    y.member = some m ∧ m.state ≠ .dead := by
  rw [drop] at h
  dsimp only at h
  split at h
  · cases h
  · next hno => exact ⟨h, fun hs => hno (isDead_iff.mpr ⟨m, h, hs⟩)⟩

end Entry

/-! ## each event, node by node -/

variable {x : Core} {k id : NodeId} {config : SwimConfig} {now : Instant} {o : Order NodeId}

theorem entry_recordAck (d : FailureDetector) (l : MembershipList) :
    Core.entry (d.recordAck l id) k
      = if k = id then (Core.entry (d, l) k).ack else Core.entry (d, l) k := by
  have hget := FailureDetector.recordAck_get d l id k
  have htimer := FailureDetector.recordAck_suspectTimers d l id k
  have hfailed : (d.recordAck l id).1.failedProbes.lookup k
      = if k = id then none else d.failedProbes.lookup k := HashMap.lookup_erase_if _ _ _
  unfold Core.entry
  rw [hget, htimer, hfailed]
  by_cases hk : k = id
  · rw [if_pos hk, if_pos hk, if_pos hk, if_pos hk]
    rfl
  · rw [if_neg hk, if_neg hk, if_neg hk, if_neg hk]
    rfl

theorem entry_add (d : FailureDetector) (l : MembershipList) (addr : SocketAddr) :
    Core.entry (d, l.add (Member.new id addr)) k
      = if k = id then { Core.entry (d, l) k with member := some (Member.new id addr) }
        else Core.entry (d, l) k := by
  unfold Core.entry
  dsimp only
  rw [MembershipList.get_add]
  show Entry.mk (if k = id then _ else _) _ _ _ = _
  by_cases hk : k = id
  · rw [if_pos hk, if_pos hk]
  · rw [if_neg hk, if_neg hk]

theorem lookup_orInsert {V : Type} (m : HashMap NodeId V) (k a : NodeId) (v : V) :
    (FailureDetector.orInsert m a v).lookup k
      = if k = a then (m.lookup a).or (some v) else m.lookup k := by
  unfold FailureDetector.orInsert
  split
  next ha =>
    obtain ⟨w, hw⟩ := Option.isSome_iff_exists.mp (AList.lookup_isSome.mpr ha)
    split
    next hk =>
      rw [hk, hw]
      rfl
    next => rfl
  next ha =>
    rw [HashMap.lookup_insert_if, AList.lookup_eq_none.mpr ha]
    rfl

theorem entry_nack : (x.next config (.nack id now)).entry k
    = if k = id then (x.entry k).nack config now else x.entry k := by
  obtain ⟨⟨st, dt, fp⟩, l⟩ := x
  show Core.entry (FailureDetector.recordNack _ _ _ _ _) k = _
  unfold FailureDetector.recordNack
  by_cases hk : k = id
  · subst hk
    rw [if_pos rfl]
    unfold Core.entry Entry.nack
    dsimp only
    split
    · rw [AList.lookup_insert]
    · cases hget : l.get k with
      | none => rw [AList.lookup_insert, hget]
      | some m =>
        dsimp only
        split
        · dsimp only
          rw [MembershipList.get_modify, if_pos rfl, lookup_orInsert, if_pos rfl,
            AList.lookup_insert, hget]
          rfl
        · rw [AList.lookup_insert, hget]
  · rw [if_neg hk]
    unfold Core.entry
    dsimp only
    repeat' split
    all_goals simp only [AList.lookup_insert_ne hk, MembershipList.get_modify, lookup_orInsert,
      if_neg hk]

theorem suspect_self {m : Member} (hm : m.state = .alive) :
    (m.suspect m.incarnation).state = .suspect := by
  rw [Member.suspect_eq, if_pos ⟨by rw [hm]; decide, m.heeds_self⟩]

theorem dead_dead (m : Member) (i : UInt64) (h : m.state = .dead) : m.dead i = m := if_pos h

theorem dead_self (m : Member) : (m.dead m.incarnation).state = .dead := by
  rw [Member.dead_eq]
  by_cases hdead : m.state = .dead
  · rw [if_neg fun h => h.1 hdead]
    exact hdead
  · rw [if_pos ⟨hdead, m.heeds_self⟩]

theorem declare_declare (y : Entry) : (y.declare now).declare now = y.declare now := by
  unfold Entry.declare
  cases y.member with
  | none => rfl
  | some m =>
    dsimp only [Option.map_some]
    rw [dead_dead _ _ (dead_self m)]

theorem entry_declare (a : NodeId) : Core.entry (FailureDetector.declare now x a) k
    = if k = a then (x.entry k).declare now else x.entry k := by
  have hget := FailureDetector.declare_get a k now x
  have hsuspect : (FailureDetector.declare now x a).1.suspectTimers.lookup k
      = if k = a then none else x.1.suspectTimers.lookup k := HashMap.lookup_erase_if _ _ _
  have hfailed : (FailureDetector.declare now x a).1.failedProbes.lookup k
      = if k = a then none else x.1.failedProbes.lookup k := HashMap.lookup_erase_if _ _ _
  have hdead : (FailureDetector.declare now x a).1.deadTimers.lookup k
      = if k = a then some now else x.1.deadTimers.lookup k := HashMap.lookup_insert_if _ _ _ _
  unfold Core.entry
  rw [hget, hsuspect, hfailed, hdead]
  by_cases hk : k = a
  · rw [if_pos hk, if_pos hk, if_pos hk, if_pos hk, if_pos hk]
    rfl
  · rw [if_neg hk, if_neg hk, if_neg hk, if_neg hk, if_neg hk]

theorem mem_expired_iff (timers : HashMap NodeId Instant) (delay : Duration) :
    k ∈ FailureDetector.expired o timers delay now
      ↔ runOut delay now (timers.lookup k) = true := by
  rw [FailureDetector.mem_expired, runOut_iff]

theorem entry_expire : (x.next config (.expire o now)).entry k
    = if runOut config.suspectTimeout now (x.entry k).suspectTimer then (x.entry k).declare now
      else x.entry k := by
  have hfold := HashMap.foldl_at_if Core.entry (FailureDetector.declare now) (Entry.declare now)
    (fun s a k => entry_declare a) declare_declare
    (FailureDetector.expired o x.1.suspectTimers config.suspectTimeout now) x k
  have hiff : k ∈ FailureDetector.expired o x.1.suspectTimers config.suspectTimeout now
      ↔ runOut config.suspectTimeout now (x.entry k).suspectTimer = true := mem_expired_iff _ _
  exact hfold.trans (if_congr hiff rfl rfl)

theorem entry_remove : (x.next config (.remove o now)).entry k
    = if runOut config.deadRemovalDelay now (x.entry k).deadTimer then (x.entry k).drop
      else x.entry k := by
  obtain ⟨d, l⟩ := x
  have hiff : k ∈ FailureDetector.expired o d.deadTimers config.deadRemovalDelay now
      ↔ runOut config.deadRemovalDelay now (Core.entry (d, l) k).deadTimer = true :=
    mem_expired_iff _ _
  have htimer : (Core.next config (d, l) (.remove o now)).1.deadTimers.lookup k
      = if k ∈ FailureDetector.expired o d.deadTimers config.deadRemovalDelay now then none
        else d.deadTimers.lookup k :=
    HashMap.foldl_erase_if (fun (t : HashMap NodeId Instant) k => t.lookup k)
      (fun t id => t.erase id) (fun t a k => HashMap.lookup_erase_if t a k) _ d.deadTimers k
  have hget : (Core.next config (d, l) (.remove o now)).2.get k
      = if k ∈ (FailureDetector.expired o d.deadTimers config.deadRemovalDelay now).filter
          (FailureDetector.isDead l) then none else l.get k :=
    FailureDetector.removeAll_get l k _
  unfold Core.entry at hiff ⊢
  rw [htimer, hget]
  by_cases hmem : k ∈ FailureDetector.expired o d.deadTimers config.deadRemovalDelay now
  · have hfilter : k ∈ (FailureDetector.expired o d.deadTimers config.deadRemovalDelay now).filter
        (FailureDetector.isDead l) ↔ FailureDetector.isDead l k = true := by
      rw [List.mem_filter]
      exact and_iff_right hmem
    rw [if_pos hmem, if_pos (hiff.mp hmem), if_congr hfilter rfl rfl]
    rfl
  · rw [if_neg hmem, if_neg (fun h => hmem (hiff.mpr h)),
      if_neg (fun h => hmem (List.mem_filter.mp h).1)]
    rfl

/-- **The detector and the list change node by node**, unless a rumour is about the own node. -/
theorem entry_next (e : Event) (h : ∀ u, e = .gossip u → x.2.selfId ≠ some u.nodeId) :
    (x.next config e).entry k = (x.entry k).next config k e := by
  cases e with
  | seed id addr => exact entry_add x.1 x.2 addr
  | hear id addr =>
    show Core.entry (FailureDetector.recordAck _ _ _) k = if _ then _ else _
    rw [entry_recordAck]
    by_cases hk : k = id
    · subst hk
      rw [if_pos rfl, if_pos rfl]
      cases hget : x.2.get k with
      | some m =>
        rw [if_pos (by rfl)]
        unfold Core.entry
        rw [hget]
        rfl
      | none =>
        rw [if_neg (by decide), entry_add, if_pos rfl]
        unfold Core.entry
        rw [hget]
        rfl
    · rw [if_neg hk, if_neg hk]
      split
      · rfl
      · rw [entry_add, if_neg hk]
  | gossip u =>
    show Entry.mk ((x.2.applyUpdate u).1.get k) _ _ _ = if _ then _ else _
    rw [MembershipList.get_applyUpdate (h u rfl)]
    by_cases hk : k = u.nodeId
    · rw [if_pos hk, if_pos hk]
      rfl
    · rw [if_neg hk, if_neg hk]
      rfl
  | confirm id => exact entry_recordAck x.1 x.2
  | nack id now => exact entry_nack
  | expire o now => exact entry_expire
  | remove o now => exact entry_remove

theorem entry_rumour_self (config : SwimConfig) (k : NodeId) {u : GossipUpdate}
    (h : x.2.selfId = some u.nodeId) :
    (x.next config (.gossip u)).entry k = x.entry k ∨ x.2.selfId = some k ∧
      ∃ m, m.state = .alive ∧
        (x.next config (.gossip u)).entry k = { x.entry k with member := some m } := by
  show Entry.mk ((x.2.applyUpdate u).1.get k) _ _ _ = _ ∨
    _ ∧ ∃ m, _ ∧ Entry.mk ((x.2.applyUpdate u).1.get k) _ _ _ = _
  rcases MembershipList.applyUpdate_self h with heq | ⟨i, addr, cert, heq⟩
  · rw [heq]
    exact Or.inl rfl
  · rw [heq, MembershipList.get_modify]
    split
    next hk =>
      have hget : MembershipList.get { x.2 with selfIncarnation := i } k = x.2.get k := rfl
      rw [hget, Core.entry]
      cases x.2.get k with
      | none => exact Or.inl rfl
      | some m => exact Or.inr ⟨hk ▸ h, _, rfl, rfl⟩
    next => exact Or.inl rfl

/-- what an event may do to the entry `y` of the node `k`, in the list of the node `self` -/
inductive Entry.Change (config : SwimConfig) (self : Option NodeId) (k : NodeId) (y : Entry) :
    Event → Entry → Prop where
  | same {e : Event} : Change config self k y e y
  | seed (addr : SocketAddr) :
    Change config self k y (.seed k addr) { y with member := some (Member.new k addr) }
  | hear (addr : SocketAddr) :
    Change config self k y (.hear k addr)
      (ack { y with member := some (y.member.getD (Member.new k addr)) })
  | gossip {u : GossipUpdate} (hself : self ≠ some u.nodeId) (hk : u.nodeId = k) :
    Change config self k y (.gossip u) { y with member := u.merge y.member }
  | refuted {u : GossipUpdate} {m : Member} (hself : self = some k) (hm : m.state = .alive) :
    Change config self k y (.gossip u) { y with member := some m }
  | confirm : Change config self k y (.confirm k) y.ack
  | nack (now : Instant) : Change config self k y (.nack k now) (y.nack config now)
  | expire (o : Order NodeId) (now : Instant)
    (h : runOut config.suspectTimeout now y.suspectTimer = true) :
    Change config self k y (.expire o now) (y.declare now)
  | remove (o : Order NodeId) (now : Instant)
    (h : runOut config.deadRemovalDelay now y.deadTimer = true) :
    Change config self k y (.remove o now) y.drop

theorem Entry.Change.ite {self : Option NodeId} {y y' : Entry} {e : Event} {P : Prop} [Decidable P]
    (h : P → y.Change config self k e y') :
    y.Change config self k e (if P then y' else y) := by
  split
  next hP => exact h hP
  next => exact .same

/-- **Every event changes every entry in one of these ways.** -/
theorem entry_change (config : SwimConfig) (x : Core) (e : Event) (k : NodeId) :
    (x.entry k).Change config x.2.selfId k e ((x.next config e).entry k) := by
  by_cases hself : ∀ u, e = .gossip u → x.2.selfId ≠ some u.nodeId
  · rw [entry_next e hself]
    cases e with
    | seed id addr =>
      refine .ite fun hk => ?_
      subst hk
      exact .seed addr
    | hear id addr =>
      refine .ite fun hk => ?_
      subst hk
      exact .hear addr
    | gossip u => exact .ite fun hk => .gossip (hself u rfl) hk.symm
    | confirm id =>
      refine .ite fun hk => ?_
      subst hk
      exact .confirm
    | nack id now =>
      refine .ite fun hk => ?_
      subst hk
      exact .nack now
    | expire o now => exact .ite (.expire o now)
    | remove o now => exact .ite (.remove o now)
  · obtain ⟨u, rfl, hu⟩ : ∃ u, e = .gossip u ∧ x.2.selfId = some u.nodeId := by
      simpa using hself
    rcases entry_rumour_self config k hu with heq | ⟨hk, m, hm, heq⟩
    · rw [heq]
      exact .same
    · rw [heq]
      exact .refuted hk hm

theorem mem_newlyDead {c : Choices} {id : NodeId} (h : id ∈ (s.tick c now).2.newlyDead) :
    runOut s.config.suspectTimeout now
      ((Core.run s.config s.core (s.probeEvents now)).entry id).suspectTimer = true := by
  obtain ⟨q, g, heq⟩ := SwimService.resolveProbe_eq c s now
  have hmem : id ∈ FailureDetector.expired c.suspects
      (s.resolveProbe c now).1.detector.suspectTimers
      (s.resolveProbe c now).1.config.suspectTimeout now := h
  rw [heq] at hmem
  rw [← SwimService.afterProbe_run]
  exact (mem_expired_iff _ _).mp hmem

theorem mem_removed {c : Choices} {id : NodeId} (h : id ∈ (s.tick c now).2.removed) :
    runOut s.config.deadRemovalDelay now ((Core.run s.config s.core
        (s.probeEvents now ++ [.expire c.suspects now])).entry id).deadTimer = true ∧
      ((Core.run s.config s.core
        (s.probeEvents now ++ [.expire c.suspects now])).entry id).isDead = true := by
  rw [← SwimService.core_expired c s now, ← SwimService.config_expired c s now]
  obtain ⟨hmem, hdead⟩ := List.mem_filter.mp h
  exact ⟨(mem_expired_iff _ _).mp hmem, hdead⟩

theorem entry_new (h : serviceMachine.start s) (k : NodeId) :
    ∃ member, (∀ m, member = some m → m.state = .alive) ∧
      s.core.entry k = ⟨member, none, none, none⟩ := by
  obtain ⟨id, addr, config, cert, rfl⟩ := h
  refine ⟨_, ?_, rfl⟩
  intro m hm
  rw [show (SwimService.new id addr config cert).core.2.get k = _ from
    MembershipList.get_withSelf k id addr cert] at hm
  split at hm
  · cases hm
    rfl
  · cases hm

end Rebar.Swim

import Rebar.Swim.Cluster

/-!
# A cluster without losses stays calm

If every frame of an exchange is delivered before the service that started it ticks again, then no
probe is ever missed, so nobody is ever suspected.

* `Calm`       a service that holds every node it knows as alive, runs no timer, and has no gossip
               and no relay waiting;
* `Healthy`    all services calm, only pings and direct acks without gossip on the network, and for
               each unanswered probe a packet that is still to be handled.
-/

namespace Rebar.Swim

/-! ## one calm service -/

structure Calm (known : NodeId → Prop) (s : SwimService) : Prop where
  alive : ∀ id m, s.members.get id = some m → m.state = .alive ∧ m.nodeId = id ∧ known id
  suspects : ∀ id, s.detector.suspectTimers.lookup id = none
  dead : ∀ id, s.detector.deadTimers.lookup id = none
  quiet : ∀ id, s.gossip.pending.lookup id = none
  relays : ∀ q, s.relays.lookup q = none

variable {known : NodeId → Prop} {s : SwimService} {c : Choices}

variable {id n : NodeId} {env : SwimEnvelope} {log new : List Packet} {handled : List Nat} {i : Nat}
  {p : Packet}

theorem calm_new (hid : known id) (addr : SocketAddr) (config : SwimConfig) (cert : Option CertHash) :
    Calm known (SwimService.new id addr config cert) where
  alive := fun k m hm => by
    rw [show (SwimService.new id addr config cert).members.get k = _ from
      MembershipList.get_withSelf k id addr cert] at hm
    obtain ⟨rfl, hm⟩ := Option.ite_none_right_eq_some.mp hm
    cases hm
    exact ⟨rfl, rfl, hid⟩
  suspects := fun _ => rfl
  dead := fun _ => rfl
  quiet := fun _ => rfl
  relays := fun _ => rfl

theorem expired_nil {o : Order NodeId} {timers : HashMap NodeId Instant}
    (h : ∀ id, timers.lookup id = none) (delay : Duration) (now : Instant) :
    FailureDetector.expired o timers delay now = [] := by
  unfold FailureDetector.expired
  rw [HashMap.keysIn_eq_nil h]
  rfl

theorem Calm.expireSuspects (h : Calm known s) (now : Instant) :
    s.expireSuspects c now = (s, []) := by
  unfold SwimService.expireSuspects FailureDetector.checkSuspectTimeouts
  rw [expired_nil h.suspects]
  rfl

theorem Calm.removeDead (h : Calm known s) (now : Instant) : s.removeDead c now = (s, []) := by
  unfold SwimService.removeDead FailureDetector.removeExpiredDead
  rw [expired_nil h.dead]
  rfl

theorem Calm.drainGossip (h : Calm known s) : s.drainGossip c = (s, []) := by
  unfold SwimService.drainGossip GossipQueue.drain
  rw [HashMap.keysIn_eq_nil h.quiet, List.insertionSort_nil]
  dsimp only
  rw [List.take_nil]
  rfl

theorem resolveProbe_of_acked {now : Instant}
    (hp : s.probe.target = none ∨ s.probe.acked = true) :
    s.resolveProbe c now = ({ s with probe := ⟨none, s.probe.acked⟩ }, []) := by
  obtain ⟨id, a, cfg, q, l, d, g, ⟨t, b⟩, r⟩ := s
  rcases hp with ht | hb
  · have ht' : t = none := ht
    subst ht'
    rfl
  · have hb' : b = true := hb
    subst hb'
    cases t with
    | none => rfl
    | some t => rfl

def pingTo (s : SwimService) (target : NodeId) (addr : SocketAddr) : Outgoing :=
  ⟨target, addr, s.buildEnvelope s.seq .ping []⟩

theorem Calm.withProbe (h : Calm known s) (p : ProbeState) (q : UInt64) :
    Calm known { s with probe := p, seq := q } :=
  ⟨h.alive, h.suspects, h.dead, h.quiet, h.relays⟩

theorem Calm.probeNext (h : Calm known s) :
    s.probeNext c = (s, []) ∨ ∃ t addr, known t ∧
      s.probeNext c = ({ s with probe := ⟨some t, false⟩, seq := s.seq + 1 }, [pingTo s t addr]) := by
  unfold SwimService.probeNext
  cases ht : FailureDetector.tick c.members c.target s.members s.selfId with
  | none => exact Or.inl rfl
  | some t =>
    dsimp only
    cases ha : s.members.addrOf t with
    | none => exact Or.inl rfl
    | some addr =>
      obtain ⟨m, hm, -⟩ := Option.map_eq_some_iff.mp ha
      refine Or.inr ⟨t, addr, (h.alive t m hm).2.2, ?_⟩
      have hd : (s.setProbe t).drainGossip c = (s.setProbe t, []) :=
        (h.withProbe ⟨some t, false⟩ s.seq).drainGossip
      dsimp only
      rw [hd]
      rfl

/-- **A tick of a calm service whose probe was acked** lists no node as dead or removed, and sends
at most one ping. -/
theorem Calm.tick (h : Calm known s) (hp : s.probe.target = none ∨ s.probe.acked = true)
    (now : Instant) :
    s.tick c now = ({ s with probe := ⟨none, s.probe.acked⟩ }, ⟨[], [], []⟩) ∨
    ∃ t addr, known t ∧ s.tick c now =
      ({ s with probe := ⟨some t, false⟩, seq := s.seq + 1 }, ⟨[pingTo s t addr], [], []⟩) := by
  have h' : Calm known { s with probe := ⟨none, s.probe.acked⟩ } := h.withProbe _ s.seq
  unfold SwimService.tick
  rw [resolveProbe_of_acked hp]
  dsimp only
  rw [h'.expireSuspects]
  dsimp only
  rw [h'.removeDead]
  dsimp only
  rcases h'.probeNext (c := c) with hn | ⟨t, addr, ht, hn⟩
  · rw [hn]
    exact Or.inl rfl
  · rw [hn]
    exact Or.inr ⟨t, addr, ht, rfl⟩

theorem Calm.add (h : Calm known s) (hid : known id) (addr : SocketAddr) :
    Calm known { s with members := s.members.add (Member.new id addr) } := by
  refine ⟨fun k m hm => ?_, h.suspects, h.dead, h.quiet, h.relays⟩
  have hget := s.members.get_add k (Member.new id addr)
  rw [hget] at hm
  split at hm
  next hk =>
    cases hm
    obtain rfl : k = id := hk
    exact ⟨rfl, rfl, hid⟩
  next => exact h.alive k m hm

theorem Calm.addSeed (h : Calm known s) (hid : known id) (addr : SocketAddr) :
    Calm known (s.addSeed id addr) := by
  unfold SwimService.addSeed
  split
  · exact h
  · exact h.add hid addr

/-! ## a calm service and an inbound frame -/

theorem Calm.ack (h : Calm known s) (id : NodeId) : Calm known (s.ack id) where
  alive := fun k m hm => by
    rw [SwimService.ack_eq, FailureDetector.recordAck_get] at hm
    split at hm
    next hk =>
      obtain ⟨m', hm', rfl⟩ := Option.map_eq_some_iff.mp hm
      have hm := h.alive k m' hm'
      have hres : FailureDetector.restore m' = m' := by
        unfold FailureDetector.restore
        rw [hm.1]
        rfl
      rw [hres]
      exact hm
    next => exact h.alive k m hm
  suspects := fun k => by
    rw [SwimService.ack_eq, FailureDetector.recordAck_suspectTimers, h.suspects, ite_self]
  dead := h.dead
  quiet := h.quiet
  relays := h.relays

theorem Calm.hearFrom (h : Calm known s) (hid : known id) (addr : SocketAddr) :
    Calm known (s.hearFrom id addr) := by
  unfold SwimService.hearFrom SwimService.introduce
  split
  · exact h
  · split
    · exact h.ack id
    · exact (h.add hid addr).ack id

theorem Calm.handlePing (h : Calm known s) {frame : Frame} (hd : frame.decode = some env)
    (hk : env.kind = .ping) (hg : env.gossip = []) (hsrc : known env.source) :
    Calm known (s.handleFrame c frame).1 ∧ (s.handleFrame c frame).1.selfId = s.selfId ∧
      (s.handleFrame c frame).1.probe = s.probe ∧
      (s.handleFrame c frame).2
        = [⟨env.source, env.sourceAddr, s.buildEnvelope s.seq (.ack none) []⟩] := by
  have h1 := h.hearFrom hsrc env.sourceAddr
  have heq : s.handleFrame c frame
      = (s.hearFrom env.source env.sourceAddr).handlePing c env.source env.sourceAddr := by
    unfold SwimService.handleFrame SwimService.handleEnvelope SwimService.handleKind
    rw [hd]
    dsimp only
    rw [hg, hk]
    rfl
  obtain ⟨d, l, hs⟩ := s.hearFrom_eq env.source env.sourceAddr
  rw [heq]
  rw [hs] at h1 ⊢
  unfold SwimService.handlePing
  rw [h1.drainGossip]
  exact ⟨h1.withProbe _ _, rfl, rfl, rfl⟩

theorem Calm.handleAck (h : Calm known s) {frame : Frame} (hd : frame.decode = some env)
    (hk : env.kind = .ack none) (hg : env.gossip = []) (hsrc : known env.source) :
    Calm known (s.handleFrame c frame).1 ∧ (s.handleFrame c frame).1.selfId = s.selfId ∧
      (s.handleFrame c frame).2 = [] ∧
      (s.handleFrame c frame).1.probe.target = s.probe.target ∧
      (s.probe.acked = true ∨ s.probe.target = some env.source →
        (s.handleFrame c frame).1.probe.acked = true) := by
  have h1 := h.hearFrom hsrc env.sourceAddr
  have heq : s.handleFrame c frame
      = (({ s.hearFrom env.source env.sourceAddr with
            relays := (s.hearFrom env.source env.sourceAddr).relays.erase env.seq } :
          SwimService).confirm env.source, []) := by
    unfold SwimService.handleFrame SwimService.handleEnvelope SwimService.handleKind
    rw [hd]
    dsimp only
    rw [hg, hk]
    dsimp only [List.foldl_nil]
    rw [SwimService.handleAck_direct, h1.relays]
  obtain ⟨d, l, hs⟩ := s.hearFrom_eq env.source env.sourceAddr
  rw [heq]
  rw [hs] at h1 ⊢
  have h2 : Calm known
      { s with detector := d, members := l, relays := s.relays.erase env.seq } :=
    ⟨h1.alive, h1.suspects, h1.dead, h1.quiet, fun q => by
      rw [HashMap.lookup_erase_if, h.relays, ite_self]⟩
  have h3 : ∀ s2 : SwimService, Calm known s2 → Calm known (s2.recordAlive env.source) ∧
      (s2.recordAlive env.source).selfId = s2.selfId ∧
      (s2.recordAlive env.source).probe = s2.probe := by
    intro s2 hc
    rcases s2.recordAlive_cases env.source with he | ⟨-, he⟩
    · rw [he]
      exact ⟨hc, rfl, rfl⟩
    · rw [he]
      exact ⟨hc.ack _, rfl, rfl⟩
  obtain ⟨hc, hcid, hcp⟩ := h3 _ h2
  unfold SwimService.confirm
  dsimp only
  rw [hcp]
  dsimp only
  by_cases ht : s.probe.target = some env.source
  · rw [if_pos ht]
    refine ⟨⟨hc.alive, hc.suspects, hc.dead, hc.quiet, hc.relays⟩, hcid, rfl, rfl, fun _ => rfl⟩
  · rw [if_neg ht]
    refine ⟨hc, hcid, rfl, by rw [hcp], fun hor => ?_⟩
    rw [hcp]
    exact hor.resolve_right ht

/-! ## a healthy cluster -/

/-- a ping or a direct ack, without gossip, between two services of the cluster -/
structure Plain (known : NodeId → Prop) (p : Packet) (env : SwimEnvelope) : Prop where
  decodes : p.env = some env
  source : env.source = p.src
  gossip : env.gossip = []
  kind : env.kind = .ping ∨ env.kind = .ack none
  src : known p.src
  dst : known p.dst

/-- the packet is the ping of `n` to `t`, or the ack of `t` to it -/
def Awaits (n t : NodeId) (p : Packet) (env : SwimEnvelope) : Prop :=
  p.src = n ∧ p.dst = t ∧ env.kind = .ping ∨ p.src = t ∧ p.dst = n ∧ env.kind = .ack none

/-- an unhandled packet that a probe of `k` to `t` waits for -/
def Pending (log : List Packet) (handled : List Nat) (k t : NodeId) : Prop :=
  ∃ (i : Nat) (p : Packet) (env : SwimEnvelope), log[i]? = some p ∧ i ∉ handled ∧ p.owner = k ∧
    p.env = some env ∧ Awaits k t p env

structure Healthy (known : NodeId → Prop) (cl : Cluster) : Prop where
  services : ∀ n, known n ↔ ∃ s, cl.services n = some s
  selfId : ∀ n s, cl.services n = some s → s.selfId = n
  calm : ∀ n s, cl.services n = some s → Calm known s
  plain : ∀ p ∈ cl.log, ∃ env, Plain known p env
  handled : ∀ i ∈ cl.handled, i < cl.log.length
  awaited : ∀ n s, cl.services n = some s → ∀ t, s.probe.target = some t →
    s.probe.acked = false → Pending cl.log cl.handled n t

/-- a tick comes only after all frames of the exchanges that the service's ticks started are
handled, and seeds are services of the cluster -/
def ExchangesFinish (cl : Cluster) : Cluster.Step → Prop
  | .addSeed _ nodeId _ => ∃ s, cl.services nodeId = some s
  | .tick n _ _ => ∀ (i : Nat) p, cl.log[i]? = some p → p.owner = n → i ∈ cl.handled
  | .deliver _ _ => True

variable {cl : Cluster}

theorem Healthy.acked (h : Healthy known cl) (hs : cl.services n = some s)
    (hdone : ∀ (i : Nat) p, cl.log[i]? = some p → p.owner = n → i ∈ cl.handled) :
    s.probe.target = none ∨ s.probe.acked = true := by
  cases ht : s.probe.target with
  | none => exact Or.inl rfl
  | some t =>
    cases ha : s.probe.acked with
    | true => exact Or.inr rfl
    | false =>
      obtain ⟨i, p, env, hp, hi, ho, -, -⟩ := h.awaited n s hs t ht ha
      exact absurd (hdone i p hp ho) hi

theorem Healthy.services_set (h : Healthy known cl) {s' : SwimService} (hs : cl.services n = some s)
    (k : NodeId) : known k ↔ ∃ s, (cl.set n s').services k = some s := by
  rw [h.services, Cluster.set_services]
  by_cases hk : k = n
  · rw [if_pos hk, hk]
    exact iff_of_true ⟨s, hs⟩ ⟨s', rfl⟩
  · rw [if_neg hk]

theorem forall_set {P : NodeId → SwimService → Prop} {s' : SwimService}
    (h : ∀ k s, k ≠ n → cl.services k = some s → P k s) (hn : P n s') :
    ∀ k s, (cl.set n s').services k = some s → P k s := by
  intro k s hs
  rcases Cluster.set_cases hs with ⟨rfl, rfl⟩ | ⟨hk, hs⟩
  · exact hn
  · exact h k s hk hs

theorem Pending.append {k t : NodeId} (h : Pending log handled k t) :
    Pending (log ++ new) handled k t := by
  obtain ⟨i, p, env, hp, hi, ho, he, ha⟩ := h
  exact ⟨i, p, env, Cluster.getElem?_append_of_some hp, hi, ho, he, ha⟩

theorem Healthy.update (h : Healthy known cl) (s' : SwimService) (hs : cl.services n = some s)
    (hid : s'.selfId = n) (hc : Calm known s') (new : List Packet) (handled : List Nat)
    (hnew : ∀ p ∈ new, ∃ env, Plain known p env) (hlt : ∀ i ∈ handled, i < cl.log.length)
    (hothers : ∀ k, k ≠ n → ∀ t, Pending cl.log cl.handled k t →
      Pending (cl.log ++ new) handled k t)
    (hown : ∀ t, s'.probe.target = some t → s'.probe.acked = false →
      Pending (cl.log ++ new) handled n t) :
    Healthy known ⟨(cl.set n s').services, cl.log ++ new, handled⟩ where
  services := h.services_set hs
  selfId := forall_set (fun k s _ hs => h.selfId k s hs) hid
  calm := forall_set (fun k s _ hs => h.calm k s hs) hc
  plain := fun p hp => (List.mem_append.mp hp).elim (h.plain p) (hnew p)
  handled := fun i hi => by
    have := hlt i hi
    rw [List.length_append]
    omega
  awaited := forall_set (fun k s hk hs t ht ha => hothers k hk t (h.awaited k s hs t ht ha)) hown

theorem pending_sent {k t : NodeId} (hlt : ∀ i ∈ handled, i < log.length) (ho : p.owner = k)
    (he : p.env = some env) (ha : Awaits k t p env) : Pending (log ++ [p]) handled k t := by
  refine ⟨log.length, p, env, ?_, fun hi => absurd (hlt _ hi) (lt_irrefl _), ho, he, ha⟩
  rw [List.getElem?_append_right (le_refl _), Nat.sub_self]
  rfl

theorem Healthy.addSeed (h : Healthy known cl) (hs : cl.services n = some s) (hid : known id)
    (addr : SocketAddr) : Healthy known (cl.set n (s.addSeed id addr)) := by
  obtain ⟨l, hl⟩ := s.addSeed_eq id addr
  have hself : (s.addSeed id addr).selfId = n := by
    rw [hl]
    exact h.selfId n s hs
  have key := h.update _ hs hself ((h.calm n s hs).addSeed hid addr) [] cl.handled
    nofun h.handled (fun _ _ _ hp => hp.append) fun t ht ha => by
      rw [hl] at ht ha
      exact (h.awaited n s hs t ht ha).append
  rw [List.append_nil] at key
  exact key

theorem Healthy.tick (h : Healthy known cl) (hs : cl.services n = some s)
    (hdone : ∀ (i : Nat) p, cl.log[i]? = some p → p.owner = n → i ∈ cl.handled) (now : Instant) :
    Healthy known (cl.afterTick n c now s) := by
  have hself := h.selfId n s hs
  have hcalm := h.calm n s hs
  unfold Cluster.afterTick
  rcases hcalm.tick (c := c) (h.acked hs hdone) now with ht | ⟨t, addr, hkn, ht⟩
  · rw [ht]
    refine h.update { s with probe := ⟨none, s.probe.acked⟩ } hs hself
      (hcalm.withProbe _ s.seq) [] cl.handled nofun h.handled
      (fun _ _ _ hp => hp.append) fun t ht => ?_
    cases ht
  · rw [ht]
    refine h.update { s with probe := ⟨some t, false⟩, seq := s.seq + 1 } hs hself
      (hcalm.withProbe _ _) [⟨n, pingTo s t addr, n, none⟩] cl.handled (fun p hp => ?_) h.handled
      (fun _ _ _ hp => hp.append) fun t' ht' _ => ?_
    · rw [List.mem_singleton.mp hp]
      exact ⟨_, rfl, hself, rfl, Or.inl rfl, (h.services n).mpr ⟨s, hs⟩, hkn⟩
    · -- the ping just sent is what the new probe waits for
      obtain rfl : t = t' := Option.some.inj ht'
      exact pending_sent h.handled rfl rfl (Or.inl ⟨rfl, rfl, rfl⟩)

theorem Pending.handle {k t : NodeId} (hp : log[i]? = some p) (he : p.env = some env)
    (h : Pending log handled k t) :
    Pending (log ++ new) (handled ++ [i]) k t ∨ p.owner = k ∧ Awaits k t p env := by
  obtain ⟨j, q, env', hq, hj, ho, he', ha⟩ := h
  by_cases hji : j = i
  · subst hji
    have hpq : p = q := Option.some.inj (hp.symm.trans hq)
    subst hpq
    have henv : env' = env := Option.some.inj (he'.symm.trans he)
    subst henv
    exact Or.inr ⟨ho, ha⟩
  · refine Or.inl ⟨j, q, env', Cluster.getElem?_append_of_some hq, fun hm => ?_, ho, he', ha⟩
    rcases List.mem_append.mp hm with hm | hm
    · exact hj hm
    · exact hji (List.mem_singleton.mp hm)

theorem handled_append (h : Healthy known cl) (hp : cl.log[i]? = some p) :
    ∀ j ∈ cl.handled ++ [i], j < cl.log.length := by
  intro j hj
  rcases List.mem_append.mp hj with hj | hj
  · exact h.handled j hj
  · rw [List.mem_singleton.mp hj]
    exact (List.getElem?_eq_some_iff.mp hp).1

theorem Healthy.deliverPing (h : Healthy known cl) (hp : cl.log[i]? = some p)
    (hpl : Plain known p env) (hk : env.kind = .ping) (hs : cl.services p.dst = some s) :
    Healthy known (cl.afterDeliver i c p s) := by
  have hsrc : known env.source := by
    rw [hpl.source]
    exact hpl.src
  obtain ⟨hcalm, hself, hprobe, hout⟩ :=
    (h.calm _ s hs).handlePing (c := c) hpl.decodes hk hpl.gossip hsrc
  have hid := h.selfId _ s hs
  -- the ack takes the place of the ping that is handled
  have hall : ∀ k t, Pending cl.log cl.handled k t →
      Pending (cl.log ++ [⟨p.dst, ⟨env.source, env.sourceAddr,
        s.buildEnvelope s.seq (.ack none) []⟩, p.owner, some i⟩]) (cl.handled ++ [i]) k t := by
    intro k t hpend
    rcases hpend.handle hp hpl.decodes with hstill | ⟨ho, ⟨hks, htd, -⟩ | ⟨-, -, hack⟩⟩
    · exact hstill
    · exact pending_sent (handled_append h hp) ho rfl (Or.inr ⟨htd, hpl.source.trans hks, rfl⟩)
    · rw [hk] at hack
      cases hack
  unfold Cluster.afterDeliver Cluster.send
  rw [hout]
  refine h.update _ hs (hself.trans hid) hcalm _ (cl.handled ++ [i]) (fun q hq => ?_)
    (handled_append h hp) (fun k _ => hall k) fun t ht ha => ?_
  · rw [List.mem_singleton.mp hq]
    exact ⟨_, rfl, hid, rfl, Or.inr rfl, hpl.dst, hsrc⟩
  · rw [hprobe] at ht ha
    exact hall p.dst t (h.awaited p.dst s hs t ht ha)

theorem Healthy.deliverAck (h : Healthy known cl) (hp : cl.log[i]? = some p)
    (hpl : Plain known p env) (hk : env.kind = .ack none) (hs : cl.services p.dst = some s) :
    Healthy known (cl.afterDeliver i c p s) := by
  have hsrc : known env.source := by
    rw [hpl.source]
    exact hpl.src
  obtain ⟨hcalm, hself, hout, htarget, hacked⟩ :=
    (h.calm _ s hs).handleAck (c := c) hpl.decodes hk hpl.gossip hsrc
  have hall : ∀ k t, Pending cl.log cl.handled k t →
      Pending (cl.log ++ []) (cl.handled ++ [i]) k t ∨ p.dst = k ∧ p.src = t := by
    intro k t hpend
    rcases hpend.handle hp hpl.decodes with hstill | ⟨-, ⟨-, -, hping⟩ | ⟨hst, hdk, -⟩⟩
    · exact Or.inl hstill
    · rw [hk] at hping
      cases hping
    · exact Or.inr ⟨hdk, hst⟩
  unfold Cluster.afterDeliver Cluster.send
  rw [hout]
  refine h.update _ hs (hself.trans (h.selfId _ s hs)) hcalm [] (cl.handled ++ [i])
    nofun (handled_append h hp)
    (fun k hne t hpend => (hall k t hpend).resolve_right fun heq => hne heq.1.symm)
    fun t ht ha => ?_
  rw [htarget] at ht
  cases hold : s.probe.acked with
  | true =>
    rw [hacked (Or.inl hold)] at ha
    cases ha
  | false =>
    rcases hall p.dst t (h.awaited p.dst s hs t ht hold) with hstill | ⟨-, hst⟩
    · exact hstill
    · rw [hacked (Or.inr (by rw [ht, hpl.source, hst]))] at ha
      cases ha

theorem Healthy.next (h : Healthy known cl) {a : Cluster.Step} {cl' : Cluster}
    (hok : ExchangesFinish cl a) (hn : cl.next a = some cl') : Healthy known cl' := by
  rcases Cluster.next_cases hn with ⟨n, id, addr, s, rfl, hs, rfl⟩ | ⟨n, c, now, s, rfl, hs, rfl⟩ |
    ⟨i, c, p, s, rfl, hp, hs, rfl⟩
  · exact h.addSeed hs ((h.services id).mpr hok) addr
  · exact h.tick hs hok now
  · obtain ⟨env, hpl⟩ := h.plain p (List.mem_of_getElem? hp)
    rcases hpl.kind with hk | hk
    · exact h.deliverPing hp hpl hk hs
    · exact h.deliverAck hp hpl hk hs

theorem healthy_of_reach (h : clusterMachine.Reach ExchangesFinish cl) :
    ∃ known, Healthy known cl := by
  refine h.inv (I := fun cl => ∃ known, Healthy known cl) ?_ ?_
  · intro cl hcl
    obtain ⟨hlog, hhandled, hnew⟩ := hcl
    refine ⟨fun n => ∃ s, cl.services n = some s, fun n => Iff.rfl, ?_, ?_, ?_, ?_, ?_⟩
    · intro n s hs
      obtain ⟨addr, config, cert, rfl⟩ := hnew n s hs
      rfl
    · intro n s hs
      obtain ⟨addr, config, cert, rfl⟩ := hnew n s hs
      exact calm_new ⟨_, hs⟩ addr config cert
    · intro p hp
      rw [hlog] at hp
      cases hp
    · intro i hi
      rw [hhandled] at hi
      cases hi
    · intro n s hs t ht
      obtain ⟨addr, config, cert, rfl⟩ := hnew n s hs
      cases ht
  · intro cl a cl' hi hok hn
    obtain ⟨known, hh⟩ := hi
    exact ⟨known, hh.next hok hn⟩

/-- **In a cluster of fresh services whose exchanges finish before the next tick of the service
that started them, nobody is ever held as suspect or dead, and no tick declares or removes a
node.** -/
theorem stays_calm (h : clusterMachine.Reach ExchangesFinish cl) :
    (∀ n s id st, cl.services n = some s → s.stateOf id = some st → st = .alive) ∧
      ∀ n s c now, cl.services n = some s → ExchangesFinish cl (.tick n c now) →
        (s.tick c now).2.newlyDead = [] ∧ (s.tick c now).2.removed = [] := by
  obtain ⟨known, hh⟩ := healthy_of_reach h
  refine ⟨fun n s id st hs hst => ?_, fun n s c now hs hok => ?_⟩
  · obtain ⟨m, hm, hmst⟩ := Option.map_eq_some_iff.mp hst
    rw [← hmst]
    exact ((hh.calm n s hs).alive id m hm).1
  · rcases (hh.calm n s hs).tick (c := c) (hh.acked hs hok) now with ht | ⟨t, addr, -, ht⟩
    · rw [ht]
      exact ⟨rfl, rfl⟩
    · rw [ht]
      exact ⟨rfl, rfl⟩

private def pair : Cluster where
  services := fun n => if n = 1 ∨ n = 2 then some (SwimService.new n .home (.helpedBy 1) none) else none
  log := []
  handled := []

private theorem pair_start : clusterMachine.start pair := by
  refine ⟨rfl, rfl, fun n s hs => ⟨.home, .helpedBy 1, none, ?_⟩⟩
  obtain ⟨-, hs⟩ := Option.ite_none_right_eq_some.mp hs
  exact (Option.some.inj hs).symm

/-- service 1 knows service 2, pings it and hears the answer; its next tick finds nobody missing -/
theorem stays_calm_pair : ∃ cl s, clusterMachine.Reach ExchangesFinish cl ∧
    cl.services 1 = some s ∧ cl.handled = [0, 1] ∧
    (s.tick Choices.default 1000).2.newlyDead = [] ∧
    (s.tick Choices.default 1000).2.removed = [] := by
  have h0 : clusterMachine.Reach ExchangesFinish pair := .start pair_start
  have h1 := h0.step (a := Cluster.Step.addSeed 1 2 .home) ⟨_, rfl⟩ rfl
  have h2 := h1.step (a := Cluster.Step.tick 1 Choices.default 0) nofun rfl
  have h3 := h2.step (a := Cluster.Step.deliver 0 Choices.default) trivial rfl
  have h4 := h3.step (a := Cluster.Step.deliver 1 Choices.default) trivial rfl
  refine ⟨_, _, h4, rfl, rfl, (stays_calm h4).2 1 _ Choices.default 1000 rfl ?_⟩
  intro i p hp _
  have hi : i < 2 := (List.getElem?_eq_some_iff.mp hp).1
  show i ∈ [0, 1]
  rw [List.mem_cons, List.mem_singleton]
  omega

end Rebar.Swim

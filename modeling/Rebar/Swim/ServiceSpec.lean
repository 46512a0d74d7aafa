import Rebar.Swim.Service

/-!
# What each stage of the service changes

Every stage is a record update (`*_eq`): the fields it leaves alone can be read off, and the new
value of a field that later proofs do not look at is existential.
-/

namespace Rebar.Swim
namespace SwimService

variable (c : Choices) (s : SwimService) (now : Instant)

/-! ## stages that only queue gossip or only number frames -/

theorem gossipSuspicion_eq (target : NodeId) :
    ∃ g, s.gossipSuspicion c target = { s with gossip := g } := by
  unfold gossipSuspicion
  split
  · split
    · exact ⟨_, rfl⟩
    · exact ⟨s.gossip, rfl⟩
  · exact ⟨s.gossip, rfl⟩

theorem gossipDeaths_eq (ids : List NodeId) :
    ∃ g, ids.foldl (gossipDeath c) s = { s with gossip := g } := by
  induction ids generalizing s with
  | nil => exact ⟨s.gossip, rfl⟩
  | cons id ids ih =>
    have h1 : ∃ g, s.gossipDeath c id = { s with gossip := g } := by
      unfold gossipDeath
      split
      · exact ⟨_, rfl⟩
      · exact ⟨s.gossip, rfl⟩
    obtain ⟨g, hg⟩ := h1
    obtain ⟨g', hg'⟩ := ih (s.gossipDeath c id)
    refine ⟨g', ?_⟩
    rw [List.foldl_cons, hg', hg]

theorem sendPingReqs_eq (target : NodeId) (addr : SocketAddr) (hs : List (NodeId × SocketAddr)) :
    ∃ q, (sendPingReqs target addr s hs).1 = { s with seq := q } := by
  induction hs generalizing s with
  | nil => exact ⟨s.seq, rfl⟩
  | cons p hs ih =>
    obtain ⟨q, hq⟩ := ih s.nextSeq.1
    refine ⟨q, ?_⟩
    show (sendPingReqs target addr s.nextSeq.1 hs).1 = _
    rw [hq]
    rfl

theorem indirectProbes_eq (target : NodeId) :
    ∃ q, (s.indirectProbes c target).1 = { s with seq := q } := by
  unfold indirectProbes
  split
  · exact sendPingReqs_eq s _ _ _
  · exact ⟨s.seq, rfl⟩

/-! ## the stages of a tick -/

/-- the detector and the list after the previous probe is resolved -/
def afterProbe : FailureDetector × MembershipList :=
  match s.probe.target, s.probe.acked with
  | some target, false => s.detector.recordNack s.members target s.config now
  | _, _ => (s.detector, s.members)

theorem resolveProbe_eq : ∃ q g, (s.resolveProbe c now).1 =
    { s with
      probe := ⟨none, s.probe.acked⟩
      detector := (s.afterProbe now).1
      members := (s.afterProbe now).2
      seq := q
      gossip := g } := by
  obtain ⟨id, a, cfg, q, l, d, g, ⟨t, b⟩, r⟩ := s
  cases t with
  | none => exact ⟨q, g, rfl⟩
  | some target =>
    cases b with
    | true => exact ⟨q, g, rfl⟩
    | false =>
      obtain ⟨q', hq⟩ := indirectProbes_eq c ⟨id, a, cfg, q, l, d, g, ⟨none, false⟩, r⟩ target
      obtain ⟨g', hg⟩ := gossipSuspicion_eq c
        (nack ⟨id, a, cfg, q', l, d, g, ⟨none, false⟩, r⟩ target now) target
      refine ⟨q', g', ?_⟩
      show gossipSuspicion c (nack (indirectProbes c _ target).1 target now) target = _
      rw [hq, hg]
      rfl

theorem expireSuspects_eq : ∃ g, (s.expireSuspects c now).1 =
    { s with
      detector := (s.detector.checkSuspectTimeouts c.suspects s.members s.config now).1
      members := (s.detector.checkSuspectTimeouts c.suspects s.members s.config now).2.1
      gossip := g } :=
  gossipDeaths_eq c _ _

theorem removeDead_eq : (s.removeDead c now).1 =
    { s with
      detector := (s.detector.removeExpiredDead c.dead s.members s.config now).1
      members := (s.detector.removeExpiredDead c.dead s.members s.config now).2.1 } := rfl

theorem probeNext_eq : ∃ p q g, (s.probeNext c).1 = { s with probe := p, seq := q, gossip := g } ∧
    (p = s.probe ∨ ∃ m ∈ s.members.allMembers c.members,
      m.nodeId ≠ s.selfId ∧ p = ⟨some m.nodeId, false⟩) := by
  unfold probeNext
  cases ht : FailureDetector.tick c.members c.target s.members s.selfId with
  | none => exact ⟨s.probe, s.seq, s.gossip, rfl, Or.inl rfl⟩
  | some target =>
    dsimp only
    cases ha : s.members.addrOf target with
    | none => exact ⟨s.probe, s.seq, s.gossip, rfl, Or.inl rfl⟩
    | some addr =>
      refine ⟨_, _, _, rfl, Or.inr ?_⟩
      obtain ⟨m, hm, rfl⟩ := Option.map_eq_some_iff.mp ht
      obtain ⟨hmem, hp⟩ := List.mem_filter.mp (c.target.mem hm)
      exact ⟨m, hmem, (of_decide_eq_true hp).1, rfl⟩

/-! ## the stages of an inbound frame -/

theorem applyGossip_eq (u : GossipUpdate) : ∃ g, s.applyGossip c u =
    { s with members := (s.members.applyUpdate u).1, gossip := g } := by
  unfold applyGossip
  cases h : s.members.applyUpdate u with
  | mk members refutation =>
    cases refutation with
    | none => exact ⟨s.gossip, rfl⟩
    | some r => exact ⟨_, rfl⟩

theorem ack_eq (id : NodeId) : s.ack id =
    { s with
      detector := (s.detector.recordAck s.members id).1
      members := (s.detector.recordAck s.members id).2 } := rfl

theorem addSeed_eq (id : NodeId) (addr : SocketAddr) :
    ∃ l, s.addSeed id addr = { s with members := l } := by
  unfold addSeed
  split
  · exact ⟨s.members, rfl⟩
  · exact ⟨_, rfl⟩

theorem hearFrom_eq (id : NodeId) (addr : SocketAddr) :
    ∃ d l, s.hearFrom id addr = { s with detector := d, members := l } := by
  unfold hearFrom introduce
  split
  · exact ⟨s.detector, s.members, rfl⟩
  · split
    · exact ⟨_, _, rfl⟩
    · exact ⟨_, _, rfl⟩

/-- the fields that answering a frame leaves alone, when the detector and the list are those of
`t` -/
def Answered (s t s' : SwimService) : Prop :=
  ∃ q g p r, s' = { t with seq := q, gossip := g, probe := ⟨s.probe.target, p⟩, relays := r }

theorem recordAlive_cases (id : NodeId) :
    s.recordAlive id = s ∨ id ≠ s.selfId ∧ s.recordAlive id = s.ack id := by
  unfold recordAlive
  by_cases h : id = s.selfId
  · exact Or.inl (if_pos h)
  · exact Or.inr ⟨h, if_neg h⟩

theorem recordAlive_eq (id : NodeId) :
    ∃ d l, s.recordAlive id = { s with detector := d, members := l } := by
  rcases s.recordAlive_cases id with h | ⟨-, h⟩
  · exact ⟨s.detector, s.members, h⟩
  · exact ⟨_, _, h⟩

theorem confirm_cases (id : NodeId) : ∃ b,
    s.confirm id = { s with probe := ⟨s.probe.target, b⟩ } ∨
      id ≠ s.selfId ∧ s.confirm id = { s.ack id with probe := ⟨s.probe.target, b⟩ } := by
  unfold confirm
  rcases s.recordAlive_cases id with h | ⟨hne, h⟩
  · rw [h]
    dsimp only
    split
    · exact ⟨true, Or.inl rfl⟩
    · exact ⟨s.probe.acked, Or.inl rfl⟩
  · rw [h]
    dsimp only
    split
    · exact ⟨true, Or.inr ⟨hne, rfl⟩⟩
    · exact ⟨s.probe.acked, Or.inr ⟨hne, rfl⟩⟩

theorem confirm_eq (id : NodeId) :
    ∃ d l p, s.confirm id = { s with detector := d, members := l, probe := p } := by
  obtain ⟨b, h | ⟨-, h⟩⟩ := s.confirm_cases id
  · exact ⟨s.detector, s.members, _, h⟩
  · exact ⟨_, _, _, h⟩

theorem handleAck_direct (source : NodeId) (seq : UInt64) :
    s.handleAck source seq none =
      match s.relays.lookup seq with
      | some relay =>
        (recordAlive { s with relays := s.relays.erase seq } relay.target,
          [⟨relay.origin, relay.originAddr,
            s.buildEnvelope relay.originSeq (.ack (some relay.target)) []⟩])
      | none => (confirm { s with relays := s.relays.erase seq } source, []) := by
  unfold handleAck takeRelay
  dsimp only [Option.isNone_none]
  rw [if_pos rfl]
  cases s.relays.lookup seq with
  | none => rfl
  | some relay => rfl

theorem handleKind_cases (env : SwimEnvelope) :
    Answered s s (s.handleKind c env).1 ∨
      ∃ id, id ≠ s.selfId ∧ Answered s (s.ack id) (s.handleKind c env).1 := by
  unfold handleKind
  cases env.kind with
  | ping => exact Or.inl ⟨_, _, s.probe.acked, s.relays, rfl⟩
  | pingReq target addr => exact Or.inl ⟨_, s.gossip, s.probe.acked, _, rfl⟩
  | ack about =>
    cases about with
    | some t =>
      obtain ⟨b, h | ⟨hne, h⟩⟩ := s.confirm_cases t
      · exact Or.inl ⟨s.seq, s.gossip, b, s.relays, h⟩
      · exact Or.inr ⟨t, hne, s.seq, s.gossip, b, s.relays, h⟩
    | none =>
      dsimp only
      rw [handleAck_direct]
      cases s.relays.lookup env.seq with
      | some relay =>
        dsimp only
        rcases recordAlive_cases { s with relays := s.relays.erase env.seq } relay.target
          with h | ⟨hne, h⟩
        · exact Or.inl ⟨s.seq, s.gossip, s.probe.acked, _, h⟩
        · exact Or.inr ⟨relay.target, hne, s.seq, s.gossip, s.probe.acked, _, h⟩
      | none =>
        dsimp only
        obtain ⟨b, h | ⟨hne, h⟩⟩ := confirm_cases { s with relays := s.relays.erase env.seq }
          env.source
        · exact Or.inl ⟨s.seq, s.gossip, b, _, h⟩
        · exact Or.inr ⟨env.source, hne, s.seq, s.gossip, b, _, h⟩

/-! ## what is sent, and under which number -/

theorem gossip_eq (us : List GossipUpdate) : ∃ l g, us.foldl (applyGossip c) s =
    { s with members := l, gossip := g } := by
  induction us generalizing s with
  | nil => exact ⟨s.members, s.gossip, rfl⟩
  | cons u us ih =>
    obtain ⟨g, hg⟩ := applyGossip_eq c s u
    obtain ⟨l', g', h'⟩ := ih (s.applyGossip c u)
    refine ⟨l', g', ?_⟩
    rw [List.foldl_cons, h', hg]

theorem beforeKind_eq (env : SwimEnvelope) : ∃ d l g,
    env.gossip.foldl (applyGossip c) (s.hearFrom env.source env.sourceAddr) =
      { s with detector := d, members := l, gossip := g } := by
  obtain ⟨d, l, h⟩ := s.hearFrom_eq env.source env.sourceAddr
  obtain ⟨l', g, h'⟩ := gossip_eq c (s.hearFrom env.source env.sourceAddr) env.gossip
  refine ⟨d, l', g, ?_⟩
  rw [h', h]

variable {c s}

variable {frame : Frame} {env : SwimEnvelope}

theorem handleFrame_eq (hd : frame.decode = some env) :
    ∃ d l g, s.handleFrame c frame =
      handleKind c { s with detector := d, members := l, gossip := g } env := by
  obtain ⟨d, l, g, h⟩ := beforeKind_eq c s env
  refine ⟨d, l, g, ?_⟩
  unfold handleFrame handleEnvelope
  rw [hd]
  dsimp only
  rw [h]

theorem handleFrame_ping (hd : frame.decode = some env) (hk : env.kind = .ping) :
    (s.handleFrame c frame).1.selfId = s.selfId ∧
      (s.handleFrame c frame).1.seq = s.seq + 1 ∧
      (s.handleFrame c frame).1.relays = s.relays ∧
      ∃ g, (s.handleFrame c frame).2
        = [⟨env.source, env.sourceAddr, s.buildEnvelope s.seq (.ack none) g⟩] := by
  obtain ⟨d, l, g, h⟩ := handleFrame_eq (c := c) (s := s) hd
  rw [h]
  unfold handleKind
  rw [hk]
  exact ⟨rfl, rfl, rfl, _, rfl⟩

theorem handleFrame_pingReq {target : NodeId} {addr : SocketAddr} (hd : frame.decode = some env)
    (hk : env.kind = .pingReq target addr) :
    (s.handleFrame c frame).1.selfId = s.selfId ∧
      (s.handleFrame c frame).1.seq = s.seq + 1 ∧
      (s.handleFrame c frame).1.relays
        = s.relays.insert s.seq ⟨env.source, env.sourceAddr, env.seq, target⟩ ∧
      (s.handleFrame c frame).2 = [⟨target, addr, s.buildEnvelope s.seq .ping []⟩] := by
  obtain ⟨d, l, g, h⟩ := handleFrame_eq (c := c) (s := s) hd
  rw [h]
  unfold handleKind
  rw [hk]
  exact ⟨rfl, rfl, rfl, rfl⟩

theorem handleFrame_relayedAck {t : NodeId} (hd : frame.decode = some env)
    (hk : env.kind = .ack (some t)) :
    (s.handleFrame c frame).1.selfId = s.selfId ∧ (s.handleFrame c frame).1.seq = s.seq ∧
      (s.handleFrame c frame).1.relays = s.relays ∧ (s.handleFrame c frame).2 = [] := by
  obtain ⟨d, l, g, h⟩ := handleFrame_eq (c := c) (s := s) hd
  rw [h]
  unfold handleKind
  rw [hk]
  obtain ⟨d', l', p', h'⟩ := confirm_eq { s with detector := d, members := l, gossip := g } t
  show (confirm _ t).selfId = _ ∧ (confirm _ t).seq = _ ∧ (confirm _ t).relays = _ ∧ _
  rw [h']
  exact ⟨rfl, rfl, rfl, rfl⟩

/-- a direct ack closes the relay of its number, if there is one, and then reports to the origin -/
theorem handleFrame_directAck (hd : frame.decode = some env) (hk : env.kind = .ack none) :
    (s.handleFrame c frame).1.selfId = s.selfId ∧ (s.handleFrame c frame).1.seq = s.seq ∧
      (s.handleFrame c frame).1.relays = s.relays.erase env.seq ∧
      (s.handleFrame c frame).2 = match s.relays.lookup env.seq with
        | some relay => [⟨relay.origin, relay.originAddr,
            s.buildEnvelope relay.originSeq (.ack (some relay.target)) []⟩]
        | none => [] := by
  obtain ⟨d, l, g, h⟩ := handleFrame_eq (c := c) (s := s) hd
  rw [h]
  unfold handleKind
  rw [hk]
  dsimp only
  rw [handleAck_direct]
  cases s.relays.lookup env.seq with
  | none =>
    obtain ⟨d', l', p', h'⟩ := confirm_eq
      { s with detector := d, members := l, gossip := g, relays := s.relays.erase env.seq }
      env.source
    show (confirm _ env.source).selfId = _ ∧ (confirm _ env.source).seq = _ ∧
      (confirm _ env.source).relays = _ ∧ _
    rw [h']
    exact ⟨rfl, rfl, rfl, rfl⟩
  | some relay =>
    obtain ⟨d', l', h'⟩ := recordAlive_eq
      { s with detector := d, members := l, gossip := g, relays := s.relays.erase env.seq }
      relay.target
    show (recordAlive _ relay.target).selfId = _ ∧ (recordAlive _ relay.target).seq = _ ∧
      (recordAlive _ relay.target).relays = _ ∧ _
    rw [h']
    exact ⟨rfl, rfl, rfl, rfl⟩

/-- probes of the node `id` with consecutive numbers from `q` on -/
def ProbesFrom (id : NodeId) : UInt64 → List Outgoing → Prop
  | _, [] => True
  | q, out :: outs =>
    (∃ env, out.frame.decode = some env ∧ env.source = id ∧ env.seq = q ∧
      ∀ about, env.kind ≠ .ack about) ∧ ProbesFrom id (q + 1) outs

theorem add_ofNat_succ (q : UInt64) (n : Nat) :
    q + 1 + UInt64.ofNat n = q + UInt64.ofNat (n + 1) := by
  have h : UInt64.ofNat (n + 1) = UInt64.ofNat n + 1 := UInt64.ofNat_add n 1
  rw [h, UInt64.add_assoc, UInt64.add_comm 1]

theorem ProbesFrom.append {id : NodeId} {q : UInt64} {a b : List Outgoing}
    (ha : ProbesFrom id q a) (hb : ProbesFrom id (q + UInt64.ofNat a.length) b) :
    ProbesFrom id q (a ++ b) := by
  induction a generalizing q with
  | nil =>
    have h0 : q + UInt64.ofNat ([] : List Outgoing).length = q := UInt64.add_zero q
    rw [h0] at hb
    exact hb
  | cons out a ih =>
    refine ⟨ha.1, ih ha.2 ?_⟩
    rw [add_ofNat_succ]
    exact hb

theorem ProbesFrom.get {id : NodeId} {q : UInt64} {outs : List Outgoing}
    (h : ProbesFrom id q outs) (hq : q.toNat + outs.length < 2^64) {x : Nat} {out : Outgoing}
    (hx : outs[x]? = some out) : ∃ env, out.frame.decode = some env ∧ env.source = id ∧
      env.seq.toNat = q.toNat + x ∧ ∀ about, env.kind ≠ .ack about := by
  induction outs generalizing q x with
  | nil => cases hx
  | cons o outs ih =>
    rw [List.length_cons] at hq
    cases x with
    | zero =>
      obtain ⟨env, hd, hs, hseq, hk⟩ := h.1
      cases hx
      exact ⟨env, hd, hs, by rw [hseq]; rfl, hk⟩
    | succ x =>
      have hone : (q + 1).toNat = q.toNat + 1 := by
        rw [UInt64.toNat_add, toNat_one]
        omega
      obtain ⟨env, hd, hs, hseq, hk⟩ := ih h.2 (by omega) hx
      exact ⟨env, hd, hs, by omega, hk⟩

theorem sendPingReqs_probes (target : NodeId) (addr : SocketAddr) (s : SwimService)
    (hs : List (NodeId × SocketAddr)) :
    ProbesFrom s.selfId s.seq (sendPingReqs target addr s hs).2 ∧
      (sendPingReqs target addr s hs).1
        = { s with seq := s.seq + UInt64.ofNat (sendPingReqs target addr s hs).2.length } := by
  induction hs generalizing s with
  | nil =>
    have h0 : s.seq + UInt64.ofNat ([] : List Outgoing).length = s.seq := UInt64.add_zero s.seq
    refine ⟨trivial, ?_⟩
    show s = { s with seq := s.seq + UInt64.ofNat ([] : List Outgoing).length }
    rw [h0]
  | cons p hs ih =>
    obtain ⟨hp, he⟩ := ih s.nextSeq.1
    refine ⟨⟨⟨_, rfl, rfl, rfl, nofun⟩, hp⟩, ?_⟩
    have hq := add_ofNat_succ s.seq (sendPingReqs target addr s.nextSeq.1 hs).2.length
    show (sendPingReqs target addr s.nextSeq.1 hs).1 = { s with seq := _ }
    rw [he]
    show { s with seq := s.seq + 1 + _ } = { s with seq := _ }
    rw [hq]
    rfl

theorem resolveProbe_probes (c : Choices) (s : SwimService) (now : Instant) :
    ProbesFrom s.selfId s.seq (s.resolveProbe c now).2 ∧
      (s.resolveProbe c now).1.seq = s.seq + UInt64.ofNat (s.resolveProbe c now).2.length := by
  have h0 : s.seq + UInt64.ofNat ([] : List Outgoing).length = s.seq := UInt64.add_zero s.seq
  obtain ⟨id, a, cfg, q, l, d, g, ⟨t, b⟩, r⟩ := s
  cases t with
  | none => exact ⟨trivial, h0.symm⟩
  | some target =>
    cases b with
    | true => exact ⟨trivial, h0.symm⟩
    | false =>
      have hind : ∀ s : SwimService, ProbesFrom s.selfId s.seq (s.indirectProbes c target).2 ∧
          (s.indirectProbes c target).1.seq
            = s.seq + UInt64.ofNat (s.indirectProbes c target).2.length := by
        intro s
        unfold indirectProbes
        cases s.members.addrOf target with
        | none => exact ⟨trivial, (UInt64.add_zero s.seq).symm⟩
        | some addr =>
          obtain ⟨hp, he⟩ := sendPingReqs_probes target addr s (s.helpers c target)
          refine ⟨hp, ?_⟩
          dsimp only
          rw [he]
      obtain ⟨hp, he⟩ := hind ⟨id, a, cfg, q, l, d, g, ⟨none, false⟩, r⟩
      refine ⟨hp, ?_⟩
      obtain ⟨g', hg⟩ := gossipSuspicion_eq c
        (nack (indirectProbes c ⟨id, a, cfg, q, l, d, g, ⟨none, false⟩, r⟩ target).1 target now)
        target
      show (gossipSuspicion c (nack (indirectProbes c _ target).1 target now) target).seq = _
      rw [hg]
      exact he

theorem probeNext_probes (c : Choices) (s : SwimService) :
    ProbesFrom s.selfId s.seq (s.probeNext c).2 ∧
      (s.probeNext c).1.seq = s.seq + UInt64.ofNat (s.probeNext c).2.length := by
  unfold probeNext
  cases FailureDetector.tick c.members c.target s.members s.selfId with
  | none => exact ⟨trivial, (UInt64.add_zero s.seq).symm⟩
  | some target =>
    dsimp only
    cases s.members.addrOf target with
    | none => exact ⟨trivial, (UInt64.add_zero s.seq).symm⟩
    | some addr => exact ⟨⟨⟨_, rfl, rfl, rfl, nofun⟩, trivial⟩, rfl⟩

def settled (c : Choices) (s : SwimService) (now : Instant) : SwimService :=
  (((s.resolveProbe c now).1.expireSuspects c now).1.removeDead c now).1

theorem settled_eq (c : Choices) (s : SwimService) (now : Instant) : ∃ d l g,
    s.settled c now =
      { s with
        detector := d
        members := l
        gossip := g
        probe := ⟨none, s.probe.acked⟩
        seq := (s.resolveProbe c now).1.seq } := by
  obtain ⟨q, g, h1⟩ := resolveProbe_eq c s now
  obtain ⟨g', h2⟩ := expireSuspects_eq c (s.resolveProbe c now).1 now
  unfold settled
  rw [removeDead_eq, h2, h1]
  exact ⟨_, _, _, rfl⟩

theorem tick_fst (c : Choices) (s : SwimService) (now : Instant) :
    (s.tick c now).1 = ((s.settled c now).probeNext c).1 := rfl

theorem tick_outgoing (c : Choices) (s : SwimService) (now : Instant) :
    (s.tick c now).2.outgoing = (s.resolveProbe c now).2 ++ ((s.settled c now).probeNext c).2 := rfl

/-- **The frames of a tick are probes with the next numbers**, and relays are left alone. -/
theorem tick_probes (c : Choices) (s : SwimService) (now : Instant) :
    ProbesFrom s.selfId s.seq (s.tick c now).2.outgoing ∧
      (s.tick c now).1.seq = s.seq + UInt64.ofNat (s.tick c now).2.outgoing.length ∧
      (s.tick c now).1.selfId = s.selfId ∧ (s.tick c now).1.relays = s.relays := by
  obtain ⟨hp1, hq1⟩ := resolveProbe_probes c s now
  obtain ⟨d, l, g, hmid⟩ := settled_eq c s now
  obtain ⟨hp2, hq2⟩ := probeNext_probes c (s.settled c now)
  obtain ⟨p', q', g', h4, -⟩ := probeNext_eq c (s.settled c now)
  have hseq : (s.settled c now).seq = s.seq + UInt64.ofNat (s.resolveProbe c now).2.length := by
    rw [hmid]
    exact hq1
  have hself : (s.settled c now).selfId = s.selfId := by rw [hmid]
  rw [hseq, hself] at hp2
  rw [hseq] at hq2
  rw [tick_fst, tick_outgoing]
  refine ⟨hp1.append hp2, ?_, ?_, ?_⟩
  · rw [hq2, List.length_append, UInt64.ofNat_add, UInt64.add_assoc]
  · rw [h4]
    exact hself
  · rw [h4]
    show (s.settled c now).relays = s.relays
    rw [hmid]

end SwimService
end Rebar.Swim

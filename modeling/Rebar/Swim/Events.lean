import Rebar.Swim.Refute
import Rebar.Swim.ServiceSpec

/-!
# The events of a call

The detector and the list of a service change together, by few kinds of events.  A call is a
sequence of them, which its arguments and the service before it decide; the other fields follow
their own rules.  An invariant of the two structures is then proved once for each kind of event.

* `Event`, `Core.next`      what a kind of event does to the detector and the list;
* `SwimService.events`      the events of a call.
-/

namespace Rebar.Swim

/-! ## calls and events -/

inductive Call where
  | addSeed (nodeId : NodeId) (addr : SocketAddr)
  | handleFrame (c : Choices) (frame : Frame)
  | tick (c : Choices) (now : Instant)

abbrev Core := FailureDetector × MembershipList

inductive Event where
  /-- a seed replaces what is known of the node -/
  | seed (nodeId : NodeId) (addr : SocketAddr)
  /-- a frame of the node arrives -/
  | hear (nodeId : NodeId) (addr : SocketAddr)
  | gossip (update : GossipUpdate)
  /-- an ack is taken as evidence that the node is alive -/
  | confirm (nodeId : NodeId)
  | nack (nodeId : NodeId) (now : Instant)
  | expire (o : Order NodeId) (now : Instant)
  | remove (o : Order NodeId) (now : Instant)

def Core.next (config : SwimConfig) (x : Core) : Event → Core
  | .seed nodeId addr => (x.1, x.2.add (Member.new nodeId addr))
  | .hear nodeId addr =>
    x.1.recordAck (if (x.2.get nodeId).isSome then x.2 else x.2.add (Member.new nodeId addr)) nodeId
  | .gossip update => (x.1, (x.2.applyUpdate update).1)
  | .confirm nodeId => x.1.recordAck x.2 nodeId
  | .nack nodeId now => x.1.recordNack x.2 nodeId config now
  | .expire o now =>
    let r := x.1.checkSuspectTimeouts o x.2 config now
    (r.1, r.2.1)
  | .remove o now =>
    let r := x.1.removeExpiredDead o x.2 config now
    (r.1, r.2.1)

def Core.run (config : SwimConfig) (x : Core) (es : List Event) : Core :=
  es.foldl (Core.next config) x

theorem Core.run_append (config : SwimConfig) (x : Core) (es es' : List Event) :
    x.run config (es ++ es') = (x.run config es).run config es' :=
  List.foldl_append

namespace SwimService

def core (s : SwimService) : Core := (s.detector, s.members)

/-! ## the events of a call -/

/-- the node that an envelope is taken to confirm: the target of the relay that a direct ack closes,
the node a relayed ack is about, or the sender -/
def confirmed (s : SwimService) (env : SwimEnvelope) : Option NodeId :=
  match env.kind with
  | .ack none =>
    match s.relays.lookup env.seq with
    | some relay => some relay.target
    | none => some env.source
  | .ack (some about) => some about
  | _ => none

def heardEvents (s : SwimService) (env : SwimEnvelope) : List Event :=
  if env.source = s.selfId then [] else [.hear env.source env.sourceAddr]

def confirmEvents (s : SwimService) (env : SwimEnvelope) : List Event :=
  match s.confirmed env with
  | some id => if id = s.selfId then [] else [.confirm id]
  | none => []

def frameEvents (s : SwimService) (env : SwimEnvelope) : List Event :=
  s.heardEvents env ++ (env.gossip.map .gossip ++ s.confirmEvents env)

def probeEvents (s : SwimService) (now : Instant) : List Event :=
  match s.probe.target, s.probe.acked with
  | some target, false => [.nack target now]
  | _, _ => []

def events (s : SwimService) : Call → List Event
  | .addSeed nodeId addr => if nodeId = s.selfId then [] else [.seed nodeId addr]
  | .handleFrame _ frame =>
    match frame.decode with
    | some env => s.frameEvents env
    | none => []
  | .tick c now => s.probeEvents now ++ [.expire c.suspects now, .remove c.dead now]

def call (s : SwimService) : Call → SwimService
  | .addSeed nodeId addr => s.addSeed nodeId addr
  | .handleFrame c frame => (s.handleFrame c frame).1
  | .tick c now => (s.tick c now).1

variable (c : Choices) (s : SwimService)

theorem mem_frameEvents {s : SwimService} {env : SwimEnvelope} {e : Event}
    (h : e ∈ s.frameEvents env) : e = .hear env.source env.sourceAddr ∨
      (∃ u ∈ env.gossip, e = .gossip u) ∨ ∃ id, s.confirmed env = some id ∧ e = .confirm id := by
  rcases List.mem_append.mp h with h | h
  · left
    unfold heardEvents at h
    split at h
    · cases h
    · exact List.mem_singleton.mp h
  · right
    rcases List.mem_append.mp h with h | h
    · left
      obtain ⟨u, hu, rfl⟩ := List.mem_map.mp h
      exact ⟨u, hu, rfl⟩
    · right
      unfold confirmEvents at h
      split at h
      · next id hid =>
        split at h
        · cases h
        · exact ⟨id, hid, List.mem_singleton.mp h⟩
      · cases h

theorem mem_probeEvents {s : SwimService} {now : Instant} {e : Event}
    (h : e ∈ s.probeEvents now) : ∃ target, e = .nack target now := by
  unfold probeEvents at h
  split at h
  · next target _ _ => exact ⟨target, List.mem_singleton.mp h⟩
  · cases h

/-! ## a call does what its events do -/

theorem core_hearFrom (env : SwimEnvelope) : (s.hearFrom env.source env.sourceAddr).core
    = Core.run s.config s.core (s.heardEvents env) := by
  unfold hearFrom heardEvents
  by_cases h : env.source = s.selfId
  · rw [if_pos h, if_pos h]
    rfl
  · rw [if_neg h, if_neg h]
    show _ = s.detector.recordAck (if (s.members.get env.source).isSome then s.members
      else s.members.add (Member.new env.source env.sourceAddr)) env.source
    unfold introduce
    split
    · rfl
    · rfl

theorem core_gossip (us : List GossipUpdate) : (us.foldl (applyGossip c) s).core
    = Core.run s.config s.core (us.map .gossip) := by
  induction us generalizing s with
  | nil => rfl
  | cons u us ih =>
    obtain ⟨g, hg⟩ := applyGossip_eq c s u
    rw [List.foldl_cons, ih, hg]
    rfl

theorem core_recordAlive (id : NodeId) : (s.recordAlive id).core
    = Core.run s.config s.core (if id = s.selfId then [] else [.confirm id]) := by
  unfold recordAlive
  split
  · rfl
  · rfl

theorem core_confirm (id : NodeId) : (s.confirm id).core
    = Core.run s.config s.core (if id = s.selfId then [] else [.confirm id]) := by
  rw [← core_recordAlive]
  unfold confirm
  dsimp only
  split
  · rfl
  · rfl

theorem core_handleKind (env : SwimEnvelope) : (s.handleKind c env).1.core
    = Core.run s.config s.core (s.confirmEvents env) := by
  unfold handleKind confirmEvents confirmed
  cases env.kind with
  | ping => rfl
  | pingReq target addr => rfl
  | ack about =>
    cases about with
    | some about => exact core_confirm s about
    | none =>
      dsimp only
      rw [handleAck_direct]
      cases s.relays.lookup env.seq with
      | some relay => exact core_recordAlive { s with relays := s.relays.erase env.seq } relay.target
      | none => exact core_confirm { s with relays := s.relays.erase env.seq } env.source

theorem afterProbe_run (now : Instant) :
    s.afterProbe now = Core.run s.config s.core (s.probeEvents now) := by
  unfold afterProbe probeEvents
  cases s.probe.target with
  | none => rfl
  | some target =>
    cases s.probe.acked with
    | true => rfl
    | false => rfl

theorem core_expired (now : Instant) :
    ((s.resolveProbe c now).1.expireSuspects c now).1.core = Core.run s.config s.core
      (s.probeEvents now ++ [.expire c.suspects now]) := by
  obtain ⟨q, g, h1⟩ := resolveProbe_eq c s now
  obtain ⟨g', h2⟩ := expireSuspects_eq c (s.resolveProbe c now).1 now
  have hprobe : (s.resolveProbe c now).1.core = Core.run s.config s.core (s.probeEvents now) := by
    rw [h1]
    exact s.afterProbe_run now
  have hconfig : (s.resolveProbe c now).1.config = s.config := by rw [h1]
  rw [Core.run_append, ← hprobe, ← hconfig, h2]
  rfl

theorem config_expired (now : Instant) :
    ((s.resolveProbe c now).1.expireSuspects c now).1.config = s.config := by
  obtain ⟨q, g, h1⟩ := resolveProbe_eq c s now
  obtain ⟨g', h2⟩ := expireSuspects_eq c (s.resolveProbe c now).1 now
  rw [h2, h1]

theorem run_events_tick (now : Instant) : s.core.run s.config (s.events (.tick c now))
    = (s.core.run s.config (s.probeEvents now ++ [.expire c.suspects now])).next s.config
        (.remove c.dead now) := by
  have hsplit : s.events (.tick c now)
      = s.probeEvents now ++ [.expire c.suspects now] ++ [.remove c.dead now] := by
    rw [List.append_assoc]
    rfl
  rw [hsplit, Core.run_append]
  rfl

theorem core_tick (now : Instant) :
    (s.tick c now).1.core = s.core.run s.config (s.events (.tick c now)) := by
  obtain ⟨p, q, g, h, -⟩ := probeNext_eq c (s.settled c now)
  rw [run_events_tick, ← core_expired c s now, ← config_expired c s now, tick_fst, h]
  rfl

theorem core_handleEnvelope (env : SwimEnvelope) : (s.handleEnvelope c env).1.core
    = Core.run s.config s.core (s.frameEvents env) := by
  obtain ⟨d, l, h1⟩ := s.hearFrom_eq env.source env.sourceAddr
  obtain ⟨d', l', g, h2⟩ := beforeKind_eq c s env
  have hconfirm : (env.gossip.foldl (applyGossip c)
      (s.hearFrom env.source env.sourceAddr)).confirmEvents env = s.confirmEvents env := by
    rw [h2]
    rfl
  have hconfig₁ : (s.hearFrom env.source env.sourceAddr).config = s.config := by rw [h1]
  have hconfig₂ : (env.gossip.foldl (applyGossip c)
      (s.hearFrom env.source env.sourceAddr)).config = s.config := by rw [h2]
  unfold handleEnvelope frameEvents
  rw [core_handleKind, hconfirm, hconfig₂, core_gossip, hconfig₁, core_hearFrom,
    Core.run_append, Core.run_append]

/-- **A call does what its events do, one after another.** -/
theorem core_call (a : Call) :
    (s.call a).core = Core.run s.config s.core (s.events a) := by
  cases a with
  | addSeed id addr =>
    dsimp only [call, events]
    unfold addSeed
    split
    · rfl
    · rfl
  | handleFrame c frame =>
    dsimp only [call, events]
    unfold handleFrame
    cases frame.decode with
    | none => rfl
    | some env => exact core_handleEnvelope c s env
  | tick c now => exact core_tick c s now

theorem config_call (a : Call) : (s.call a).config = s.config ∧ (s.call a).selfId = s.selfId := by
  cases a with
  | addSeed id addr =>
    obtain ⟨l, h⟩ := s.addSeed_eq id addr
    show (s.addSeed id addr).config = _ ∧ (s.addSeed id addr).selfId = _
    rw [h]
    exact ⟨rfl, rfl⟩
  | handleFrame c frame =>
    show (s.handleFrame c frame).1.config = _ ∧ (s.handleFrame c frame).1.selfId = _
    cases hd : frame.decode with
    | none =>
      unfold handleFrame
      rw [hd]
      exact ⟨rfl, rfl⟩
    | some env =>
      obtain ⟨d, l, g, h⟩ := handleFrame_eq (c := c) (s := s) hd
      rw [h]
      rcases handleKind_cases c { s with detector := d, members := l, gossip := g } env with
        ⟨q, g', p, r, h'⟩ | ⟨id, -, q, g', p, r, h'⟩
      · rw [h']
        exact ⟨rfl, rfl⟩
      · rw [h']
        exact ⟨rfl, rfl⟩
  | tick c now =>
    obtain ⟨d, l, g, h⟩ := settled_eq c s now
    obtain ⟨p', q', g', h', -⟩ := probeNext_eq c (s.settled c now)
    show (s.tick c now).1.config = _ ∧ (s.tick c now).1.selfId = _
    rw [tick_fst, h', h]
    exact ⟨rfl, rfl⟩

end SwimService

/-! ## the own node of the list -/

theorem selfId_next (config : SwimConfig) (x : Core) (e : Event) :
    (x.next config e).2.selfId = x.2.selfId := by
  cases e with
  | seed id addr => rfl
  | hear id addr =>
    show (if _ then _ else _ : MembershipList).selfId = _
    split
    · rfl
    · rfl
  | gossip u => exact MembershipList.applyUpdate_selfId _ _
  | confirm id => rfl
  | nack id now =>
    show (FailureDetector.recordNack _ _ _ _ _).2.selfId = _
    rcases FailureDetector.recordNack_cases x.1 x.2 id config now with ⟨h, -⟩ | ⟨m, -, -, h, -⟩
    · rw [h]
    · rw [h]
      rfl
  | expire o now => exact FailureDetector.declareAll_selfId _ _ _
  | remove o now => exact FailureDetector.removeAll_selfId _ _

theorem selfId_run (config : SwimConfig) (x : Core) (es : List Event) :
    (x.run config es).2.selfId = x.2.selfId := by
  induction es generalizing x with
  | nil => rfl
  | cons e es ih => exact (ih _).trans (selfId_next config x e)

theorem selfId_call (s : SwimService) (a : Call) :
    (s.call a).members.selfId = s.members.selfId := by
  show (s.call a).core.2.selfId = s.core.2.selfId
  rw [s.core_call a]
  exact selfId_run _ _ _

/-! ## runs -/

def serviceMachine : Machine SwimService Call where
  start s := ∃ id addr config cert, s = SwimService.new id addr config cert
  next s a := some (s.call a)

/-- every event of the list meets the condition when its turn comes -/
def Meets (P : Core → Event → Prop) (config : SwimConfig) : Core → List Event → Prop
  | _, [] => True
  | x, e :: es => P x e ∧ Meets P config (x.next config e) es

instance Meets.decidable (P : Core → Event → Prop) [∀ x e, Decidable (P x e)]
    (config : SwimConfig) : ∀ x es, Decidable (Meets P config x es)
  | _, [] => .isTrue trivial
  | x, e :: es =>
    have := Meets.decidable P config (x.next config e) es
    inferInstanceAs (Decidable (_ ∧ _))

variable {P : Core → Event → Prop} {I : Core → Prop} {config : SwimConfig} {s : SwimService}

theorem run_inv (hstep : ∀ x e, I x → P x e → I (x.next config e)) {x : Core} {es : List Event}
    (hx : I x) (hes : Meets P config x es) : I (x.run config es) := by
  induction es generalizing x with
  | nil => exact hx
  | cons e es ih => exact ih (hstep x e hx hes.1) hes.2

/-- **The rule**: what holds at the start and is kept by every event that meets the condition holds
in every run whose events meet it. -/
theorem core_inv (hstart : ∀ s, serviceMachine.start s → I s.core)
    (hstep : ∀ config x e, I x → P x e → I (Core.next config x e))
    (h : serviceMachine.Reach (fun s a => Meets P s.config s.core (s.events a)) s) : I s.core := by
  refine h.inv (I := fun s => I s.core) hstart ?_
  intro s a t hs hok hn
  cases hn
  rw [s.core_call a]
  exact run_inv (hstep s.config) hs hok

end Rebar.Swim

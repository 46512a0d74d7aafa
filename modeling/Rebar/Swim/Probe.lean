import Rebar.Swim.Events

/-!
# The probe of a period

A tick pings one node, and the next tick counts the probe as failed unless it was acked in between.
An ack is matched with a relay by its number before it is matched with the probe, and the number is
the sender's own; so an ack of the target may be taken for that of a relay, and the probe fails.
-/

namespace Rebar.Swim

def Call.isTick : Call → Bool
  | .tick _ _ => true
  | _ => false

def Acks (n : NodeId) (s : SwimService) : Call → Prop
  | .handleFrame _ frame => ∃ env ∈ frame.decode, env.kind = .ack (some n) ∨
      env.kind = .ack none ∧ env.source = n ∧ s.relays.lookup env.seq = none
  | _ => False

instance (n : NodeId) (s : SwimService) : ∀ a, Decidable (Acks n s a)
  | .handleFrame _ frame => inferInstanceAs (Decidable (∃ env ∈ frame.decode, _))
  | .addSeed _ _ => .isFalse id
  | .tick _ _ => .isFalse id

/-- one of the calls, when its turn comes, acks a probe of the node -/
def AckedBy (n : NodeId) : SwimService → List Call → Prop
  | _, [] => False
  | s, a :: as => Acks n s a ∨ AckedBy n (s.call a) as

instance AckedBy.decidable (n : NodeId) : ∀ s as, Decidable (AckedBy n s as)
  | _, [] => .isFalse id
  | s, a :: as =>
    have := AckedBy.decidable n (s.call a) as
    inferInstanceAs (Decidable (_ ∨ _))

/-- the frame asks another node to probe the node `n` -/
def AsksAbout (n : NodeId) (out : Outgoing) : Prop :=
  ∃ env ∈ out.frame.decode, ∃ addr, env.kind = .pingReq n addr

/-! ## between two ticks -/

variable {n : NodeId} {s : SwimService} {c : Choices} {now : Instant}

theorem probe_confirm (id : NodeId) : (s.confirm id).probe
    = if s.probe.target = some id then ⟨s.probe.target, true⟩ else s.probe := by
  obtain ⟨d, l, h⟩ := s.recordAlive_eq id
  unfold SwimService.confirm
  rw [h]
  dsimp only
  split
  · rfl
  · rfl

theorem probe_recordAlive (id : NodeId) : (s.recordAlive id).probe = s.probe := by
  obtain ⟨d, l, h⟩ := s.recordAlive_eq id
  rw [h]

/-- answering a frame acks the probe of the node that an ack confirms, unless it closes a relay -/
theorem probe_handleKind (hn : s.probe.target = some n) (env : SwimEnvelope) :
    (s.handleKind c env).1.probe =
      if env.kind = .ack (some n) ∨
          env.kind = .ack none ∧ env.source = n ∧ s.relays.lookup env.seq = none
      then ⟨some n, true⟩ else s.probe := by
  have hconfirm : ∀ (s : SwimService) (id : NodeId), s.probe.target = some n →
      (s.confirm id).probe = if id = n then ⟨some n, true⟩ else s.probe := by
    intro s id hs
    rw [probe_confirm, hs]
    by_cases hid : id = n
    · rw [if_pos (by rw [hid]), if_pos hid]
    · rw [if_neg (fun h => hid (Option.some.inj h).symm), if_neg hid]
  unfold SwimService.handleKind
  cases env.kind with
  | ping | pingReq target addr => exact (if_neg (by simp)).symm
  | ack about =>
    cases about with
    | some about =>
      refine (hconfirm s about hn).trans (if_congr ?_ rfl rfl)
      simp
    | none =>
      dsimp only
      rw [SwimService.handleAck_direct]
      cases s.relays.lookup env.seq with
      | some relay =>
        refine (probe_recordAlive relay.target).trans (if_neg ?_).symm
        simp
      | none =>
        refine (hconfirm { s with relays := s.relays.erase env.seq } env.source hn).trans
          (if_congr ?_ rfl rfl)
        simp

theorem probe_call (hn : s.probe.target = some n) {a : Call} (ha : a.isTick = false) :
    (s.call a).probe = if Acks n s a then ⟨some n, true⟩ else s.probe := by
  cases a with
  | tick c now => cases ha
  | addSeed id addr =>
    obtain ⟨l, h⟩ := s.addSeed_eq id addr
    show (s.addSeed id addr).probe = _
    rw [h, if_neg (show ¬ Acks n s (.addSeed id addr) from fun hc => hc)]
  | handleFrame c frame =>
    show (s.handleFrame c frame).1.probe = _
    cases hd : frame.decode with
    | none =>
      have hno : ¬ Acks n s (.handleFrame c frame) := by
        rintro ⟨env, henv, -⟩
        rw [hd] at henv
        cases henv
      rw [if_neg hno]
      unfold SwimService.handleFrame
      rw [hd]
    | some env =>
      obtain ⟨d, l, g, h⟩ := SwimService.handleFrame_eq (c := c) (s := s) hd
      rw [h]
      refine (probe_handleKind (c := c)
        (s := { s with detector := d, members := l, gossip := g }) hn env).trans
        (if_congr ?_ rfl rfl)
      constructor
      · exact fun hacks => ⟨env, hd, hacks⟩
      · rintro ⟨env', henv', hacks⟩
        rw [hd] at henv'
        cases henv'
        exact hacks

theorem probe_calls {b : Bool} (hn : s.probe = ⟨some n, b⟩) {as : List Call}
    (has : ∀ a ∈ as, a.isTick = false) : ∃ b', (as.foldl SwimService.call s).probe = ⟨some n, b'⟩ ∧
      (b' = true ↔ b = true ∨ AckedBy n s as) := by
  induction as generalizing s b with
  | nil =>
    refine ⟨b, hn, ?_⟩
    show b = true ↔ b = true ∨ False
    rw [or_false]
  | cons a as ih =>
    have hcall := probe_call (by rw [hn]) (has a List.mem_cons_self)
    have hlater := fun a' ha' => has a' (List.mem_cons_of_mem a ha')
    show ∃ b', (as.foldl SwimService.call (s.call a)).probe = _ ∧
      (b' = true ↔ b = true ∨ Acks n s a ∨ AckedBy n (s.call a) as)
    by_cases hacks : Acks n s a
    · rw [if_pos hacks] at hcall
      obtain ⟨b', hb', hiff⟩ := ih hcall hlater
      exact ⟨b', hb', iff_of_true (hiff.mpr (Or.inl rfl)) (Or.inr (Or.inl hacks))⟩
    · rw [if_neg hacks, hn] at hcall
      obtain ⟨b', hb', hiff⟩ := ih hcall hlater
      refine ⟨b', hb', ?_⟩
      rw [hiff, or_iff_right (a := Acks n s a) hacks]

/-! ## the ticks -/

theorem probe_tick (h : (s.tick c now).1.probe.target = some n) :
    (s.tick c now).1.probe = ⟨some n, false⟩ := by
  obtain ⟨d, l, g₀, hsettled⟩ := SwimService.settled_eq c s now
  obtain ⟨p, q, g, heq, hp⟩ := SwimService.probeNext_eq c (s.settled c now)
  rw [SwimService.tick_fst, heq] at h ⊢
  rcases hp with rfl | ⟨m, -, -, rfl⟩
  · rw [hsettled] at h
    cases h
  · cases h
    rfl

theorem probeNext_asks {out : Outgoing} (h : out ∈ (s.probeNext c).2) : ¬ AsksAbout n out := by
  rintro ⟨env, henv, addr, hkind⟩
  unfold SwimService.probeNext at h
  split at h
  · split at h
    · rw [List.mem_singleton.mp h] at henv
      cases henv
      cases hkind
    · cases h
  · cases h

/-- **After the tick that pinged the node, and calls that are not ticks, the next tick records no
failed probe of it and sends no indirect probe about it exactly if one of the calls acked it.** -/
theorem answered_iff {c₀ : Choices} {now₀ : Instant}
    (hping : (s.tick c₀ now₀).1.probe.target = some n) {as : List Call}
    (has : ∀ a ∈ as, a.isTick = false) :
    (.nack n now ∉ (as.foldl SwimService.call (s.tick c₀ now₀).1).events (.tick c now) ∧
      ∀ out ∈ ((as.foldl SwimService.call (s.tick c₀ now₀).1).tick c now).2.outgoing,
        ¬ AsksAbout n out) ↔
      AckedBy n (s.tick c₀ now₀).1 as := by
  obtain ⟨b, hb, hiff⟩ := probe_calls (probe_tick hping) has
  generalize as.foldl SwimService.call (s.tick c₀ now₀).1 = t at hb ⊢
  have hacked : b = true ↔ AckedBy n (s.tick c₀ now₀).1 as := by
    rw [hiff, or_iff_right Bool.false_ne_true]
  rw [← hacked]
  have htarget : t.probe.target = some n := by rw [hb]
  have hb' : t.probe.acked = b := by rw [hb]
  constructor
  · rintro ⟨hnack, -⟩
    cases b with
    | true => rfl
    | false =>
      refine absurd (List.mem_append_left _ ?_) hnack
      unfold SwimService.probeEvents
      rw [htarget, hb']
      exact List.mem_singleton.mpr rfl
  · rintro rfl
    constructor
    · intro hmem
      rcases List.mem_append.mp hmem with hmem | hmem
      · unfold SwimService.probeEvents at hmem
        rw [htarget, hb'] at hmem
        cases hmem
      · rcases List.mem_pair.mp hmem with hc | hc
        · cases hc
        · cases hc
    · intro out hout
      rw [SwimService.tick_outgoing] at hout
      rcases List.mem_append.mp hout with hout | hout
      · unfold SwimService.resolveProbe SwimService.takeProbe at hout
        rw [htarget, hb'] at hout
        cases hout
      · exact probeNext_asks hout

private def request : Call :=
  .handleFrame .default ⟨true, 9, some ⟨3, .home, 9, .pingReq 4 .home, []⟩⟩

private def firstAck : Call :=
  .handleFrame .default ⟨true, 1, some ⟨2, .home, 1, .ack none, []⟩⟩

/-- node 2 is pinged; a relay gets the number 2, and then the ack of node 2 has the number 1 -/
theorem answered_iff_relaying : ∃ s : SwimService, (s.tick (.probing 2) 0).1.probe.target = some 2 ∧
    AckedBy 2 (s.tick (.probing 2) 0).1 [request, firstAck] ∧
    .nack 2 10 ∉ ([request, firstAck].foldl SwimService.call (s.tick (.probing 2) 0).1).events
      (.tick (.probing 2) 10) ∧
    ∀ out ∈ (([request, firstAck].foldl SwimService.call (s.tick (.probing 2) 0).1).tick
      (.probing 2) 10).2.outgoing, ¬ AsksAbout 2 out := by
  have hping : (((SwimService.fresh 1).addSeed 2 .home).tick
      (.probing 2) 0).1.probe.target = some 2 := by decide
  have hacked : AckedBy 2 (((SwimService.fresh 1).addSeed 2 .home).tick
      (.probing 2) 0).1 [request, firstAck] := by decide
  exact ⟨_, hping, hacked, (answered_iff hping (by decide)).mpr hacked⟩

/-- a relay has the number 1; node 2 is pinged, and its ack, its first one, has the number 1 too:
the next tick counts a failed probe of node 2 and asks node 3 to probe it -/
theorem ack_taken_for_relay : ∃ s, serviceMachine.Reach Machine.Anytime s ∧
    (s.tick (.probing 2) 0).1.probe.target = some 2 ∧
    ((s.tick (.probing 2) 0).1.call firstAck).detector.failedProbes.lookup 2 = none ∧
    (((s.tick (.probing 2) 0).1.call firstAck).tick (.probing 2) 10).1.detector.failedProbes.lookup 2
      = some 1 ∧
    ∃ out ∈ (((s.tick (.probing 2) 0).1.call firstAck).tick (.probing 2) 10).2.outgoing,
      AsksAbout 2 out := by
  have hstart : serviceMachine.Reach Machine.Anytime (SwimService.fresh 1) :=
    .start ⟨1, .home, .helpedBy 1, none, rfl⟩
  obtain ⟨s, hs, hping, hnone, hone, out, hout, env, henv, hkind⟩ := hstart.exists_run [.addSeed 2 .home, request]
    (p := fun s => (s.tick (.probing 2) 0).1.probe.target = some 2 ∧
      ((s.tick (.probing 2) 0).1.call firstAck).detector.failedProbes.lookup 2 = none ∧
      (((s.tick (.probing 2) 0).1.call firstAck).tick (.probing 2) 10).1.detector.failedProbes.lookup 2
        = some 1 ∧
      ∃ out ∈ (((s.tick (.probing 2) 0).1.call firstAck).tick (.probing 2) 10).2.outgoing,
        ∃ env ∈ out.frame.decode, env.kind = .pingReq 2 .home) (by decide)
  exact ⟨s, hs, hping, hnone, hone, out, hout, env, henv, .home, hkind⟩

end Rebar.Swim

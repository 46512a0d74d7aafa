import Rebar.Swim.Events

/-!
# Which news a service passes on

What a service finds out by itself it queues for gossip, and a rumour about itself it answers.  News
about others that it takes from a frame it writes to its list only.  So it passes such news on only
if its queue happens to hold them already.
-/

namespace Rebar.Swim

/-! ## the queue -/

namespace GossipQueue
variable {o : Order NodeId} {q : GossipQueue} {k : NodeId} {u : GossipUpdate}
  {pending : HashMap NodeId PendingUpdate} {ids : List NodeId} {p : PendingUpdate}

def Filed (q : GossipQueue) : Prop :=
  ∀ k p, q.pending.lookup k = some p → p.update.nodeId = k

theorem lookup_evictOne (o : Order NodeId) (q : GossipQueue) (k : NodeId) :
    (q.evictOne o).pending.lookup k = q.pending.lookup k ∨
      (q.evictOne o).pending.lookup k = none := by
  unfold evictOne
  split
  · next victim _ =>
    dsimp only
    rw [HashMap.lookup_erase_if]
    split
    · exact Or.inr rfl
    · exact Or.inl rfl
  · exact Or.inl rfl

theorem lookup_add_other (hk : k ≠ u.nodeId) :
    (q.add o u).pending.lookup k = q.pending.lookup k ∨
      q.maxEntries ≤ q.pending.keys.length ∧ (q.add o u).pending.lookup k = none := by
  cases hacc : q.accepts u with
  | false => exact Or.inl (by rw [add_of_not_accepts hacc])
  | true =>
    rw [add_of_accepts hacc]
    dsimp only
    rw [HashMap.lookup_insert_if, if_neg hk, room]
    split
    · next hfull => exact (lookup_evictOne o q k).imp id fun h => ⟨hfull.2, h⟩
    · exact Or.inl rfl

theorem lookup_add_cases (h : (q.add o u).pending.lookup k = some p) :
    k = u.nodeId ∧ p.update = u ∨ q.pending.lookup k = some p := by
  by_cases hk : k = u.nodeId
  · cases hacc : q.accepts u with
    | false =>
      rw [add_of_not_accepts hacc] at h
      exact Or.inr h
    | true =>
      rw [hk, lookup_add_self hacc] at h
      cases h
      exact Or.inl ⟨hk, rfl⟩
  · rcases lookup_add_other (o := o) (q := q) hk with hsame | ⟨-, hnone⟩
    · exact Or.inr (hsame.symm.trans h)
    · cases hnone.symm.trans h

def spend (pending : HashMap NodeId PendingUpdate) (id : NodeId) (entry : PendingUpdate) :
    HashMap NodeId PendingUpdate :=
  if entry.retransmitsLeft - 1 = 0 then pending.erase id
  else pending.insert id { entry with retransmitsLeft := entry.retransmitsLeft - 1 }

theorem lookup_spend_other {id : NodeId} (hk : k ≠ id) (entry : PendingUpdate) :
    (spend pending id entry).lookup k = pending.lookup k := by
  unfold spend
  split
  · rw [HashMap.lookup_erase_if, if_neg hk]
  · rw [HashMap.lookup_insert_if, if_neg hk]

theorem lookup_spend {id : NodeId} {entry : PendingUpdate} (hid : pending.lookup id = some entry)
    (h : (spend pending id entry).lookup k = some p) :
    ∃ p₀, pending.lookup k = some p₀ ∧ p₀.update = p.update := by
  by_cases hk : k = id
  · subst hk
    refine ⟨entry, hid, ?_⟩
    unfold spend at h
    split at h
    · rw [HashMap.lookup_erase_if, if_pos rfl] at h
      cases h
    · rw [HashMap.lookup_insert_if, if_pos rfl] at h
      cases h
      rfl
  · rw [lookup_spend_other hk] at h
    exact ⟨p, h, rfl⟩

theorem sendEach_cons (pending : HashMap NodeId PendingUpdate) (id : NodeId) (ids : List NodeId) :
    sendEach pending (id :: ids) = match pending.lookup id with
      | none => sendEach pending ids
      | some entry => ((sendEach (spend pending id entry) ids).1,
          entry.update :: (sendEach (spend pending id entry) ids).2) := by
  rw [sendEach]
  cases pending.lookup id with
  | none => rfl
  | some entry => rfl

theorem sendEach_lookup (h : (sendEach pending ids).1.lookup k = some p) :
    ∃ p₀, pending.lookup k = some p₀ ∧ p₀.update = p.update := by
  induction ids generalizing pending with
  | nil => exact ⟨p, h, rfl⟩
  | cons id ids ih =>
    rw [sendEach_cons] at h
    cases hid : pending.lookup id with
    | none =>
      rw [hid] at h
      exact ih h
    | some entry =>
      rw [hid] at h
      obtain ⟨p₁, hp₁, heq⟩ := ih h
      obtain ⟨p₀, hp₀, heq'⟩ := lookup_spend hid hp₁
      exact ⟨p₀, hp₀, heq'.trans heq⟩

theorem sendEach_sent (h : pending.lookup k = some p) :
    p.update ∈ (sendEach pending ids).2 ∨ (sendEach pending ids).1.lookup k = some p := by
  induction ids generalizing pending with
  | nil => exact Or.inr h
  | cons id ids ih =>
    rw [sendEach_cons]
    cases hid : pending.lookup id with
    | none => exact ih h
    | some entry =>
      dsimp only
      by_cases hk : k = id
      · subst hk
        cases h.symm.trans hid
        exact Or.inl List.mem_cons_self
      · rcases ih ((lookup_spend_other hk entry).trans h) with hmem | hkeep
        · exact Or.inl (List.mem_cons_of_mem _ hmem)
        · exact Or.inr hkeep

theorem sendEach_out (h : u ∈ (sendEach pending ids).2) :
    ∃ k p, pending.lookup k = some p ∧ p.update = u := by
  induction ids generalizing pending with
  | nil => cases h
  | cons id ids ih =>
    rw [sendEach_cons] at h
    cases hid : pending.lookup id with
    | none =>
      rw [hid] at h
      exact ih h
    | some entry =>
      rw [hid] at h
      rcases List.mem_cons.mp h with rfl | h
      · exact ⟨id, entry, hid, rfl⟩
      · obtain ⟨k, p, hp, heq⟩ := ih h
        obtain ⟨p₀, hp₀, heq'⟩ := lookup_spend hid hp
        exact ⟨k, p₀, hp₀, heq'.trans heq⟩

theorem Filed.add (h : q.Filed) : (q.add o u).Filed := by
  intro k p hp
  rcases lookup_add_cases hp with ⟨rfl, rfl⟩ | hp
  · rfl
  · exact h k p hp

theorem Filed.drain (h : q.Filed) (max : Nat) : (q.drain o max).1.Filed := by
  intro k p hp
  obtain ⟨p₀, hp₀, heq⟩ := sendEach_lookup hp
  rw [← heq]
  exact h k p₀ hp₀

end GossipQueue

/-! ## the queue of a service only takes and sends updates -/

section Queue
variable {Q : GossipQueue → Prop} {c : Choices} {s : SwimService}

namespace SwimService

theorem queue_expireSuspects (hadd : ∀ o q u, Q q → Q (q.add o u)) (now : Instant)
    (h : Q s.gossip) : Q (s.expireSuspects c now).1.gossip := by
  have hdeath : ∀ (s : SwimService) (id : NodeId), Q s.gossip → Q (s.gossipDeath c id).gossip := by
    intro s id hs
    unfold gossipDeath
    split
    · exact hadd _ _ _ hs
    · exact hs
  have hdeaths : ∀ (ids : List NodeId) (s : SwimService), Q s.gossip →
      Q (ids.foldl (gossipDeath c) s).gossip := by
    intro ids
    induction ids with
    | nil => exact fun _ hs => hs
    | cons id ids ih => exact fun s hs => ih _ (hdeath s id hs)
  exact hdeaths _ _ h

theorem queue_resolveProbe (hadd : ∀ o q u, Q q → Q (q.add o u)) (now : Instant)
    (h : Q s.gossip) : Q (s.resolveProbe c now).1.gossip := by
  have hsuspicion : ∀ (s : SwimService) (id : NodeId), Q s.gossip →
      Q (s.gossipSuspicion c id).gossip := by
    intro s id hs
    unfold gossipSuspicion
    split
    · split
      · exact hadd _ _ _ hs
      · exact hs
    · exact hs
  unfold resolveProbe
  split
  · next t target ht =>
    obtain ⟨rfl, -⟩ := Prod.mk.inj ht
    obtain ⟨q, hq⟩ := indirectProbes_eq c { s with probe := { s.probe with target := none } } target
    refine hsuspicion _ _ ?_
    show Q (indirectProbes c _ target).1.gossip
    rw [hq]
    exact h
  · next t _ _ _ ht =>
    obtain ⟨rfl, -⟩ := Prod.mk.inj ht
    exact h

theorem queue_probeNext (hdrain : ∀ o q max, Q q → Q (GossipQueue.drain o q max).1)
    (h : Q s.gossip) : Q (s.probeNext c).1.gossip := by
  unfold probeNext
  split
  · split
    · exact hdrain _ _ _ h
    · exact h
  · exact h

theorem queue_gossip (hadd : ∀ o q u, Q q → Q (q.add o u)) (us : List GossipUpdate)
    (h : Q s.gossip) : Q (us.foldl (applyGossip c) s).gossip := by
  induction us generalizing s with
  | nil => exact h
  | cons u us ih =>
    refine ih ?_
    unfold applyGossip
    split
    · exact hadd _ _ _ h
    · exact h

theorem queue_handleKind (c : Choices) (s : SwimService) (env : SwimEnvelope) :
    ((s.handleKind c env).1.gossip = s.gossip ∧
      ∀ out ∈ (s.handleKind c env).2, ∀ e ∈ out.frame.decode, e.gossip = []) ∨
    ((s.handleKind c env).1.gossip = (s.gossip.drain c.gossip s.config.maxGossipPerTick).1 ∧
      ∃ a q k, (s.handleKind c env).2 = [⟨env.source, a, s.buildEnvelope q k
        (s.gossip.drain c.gossip s.config.maxGossipPerTick).2⟩]) := by
  have hplain : ∀ n a q k, ∀ out ∈ [(⟨n, a, s.buildEnvelope q k []⟩ : Outgoing)],
      ∀ e ∈ out.frame.decode, e.gossip = [] := by
    intro n a q k out hout e he
    rw [List.mem_singleton.mp hout] at he
    cases he
    rfl
  have hconfirm : ∀ (r : HashMap UInt64 RelayEntry) (id : NodeId),
      (confirm { s with relays := r } id).gossip = s.gossip := by
    intro r id
    obtain ⟨d, l, p, h⟩ := confirm_eq { s with relays := r } id
    rw [h]
  unfold handleKind
  cases env.kind with
  | ping => exact Or.inr ⟨rfl, _, _, _, rfl⟩
  | pingReq target addr => exact Or.inl ⟨rfl, hplain _ _ _ _⟩
  | ack about =>
    left
    cases about with
    | some t => exact ⟨hconfirm s.relays t, nofun⟩
    | none =>
      dsimp only
      rw [handleAck_direct]
      cases s.relays.lookup env.seq with
      | some relay =>
        obtain ⟨d, l, h⟩ := recordAlive_eq { s with relays := s.relays.erase env.seq } relay.target
        dsimp only
        rw [h]
        exact ⟨rfl, hplain _ _ _ _⟩
      | none => exact ⟨hconfirm _ env.source, nofun⟩

/-- **The rule**: what taking and sending updates keeps, every call keeps. -/
theorem queue_call (hadd : ∀ o q u, Q q → Q (q.add o u))
    (hdrain : ∀ o q max, Q q → Q (GossipQueue.drain o q max).1) (a : Call) (h : Q s.gossip) :
    Q (s.call a).gossip := by
  cases a with
  | addSeed id addr =>
    obtain ⟨l, hl⟩ := s.addSeed_eq id addr
    show Q (s.addSeed id addr).gossip
    rw [hl]
    exact h
  | handleFrame c frame =>
    show Q (s.handleFrame c frame).1.gossip
    unfold handleFrame
    split
    · next env _ =>
      obtain ⟨d, l, hl⟩ := s.hearFrom_eq env.source env.sourceAddr
      have hheard : Q (s.hearFrom env.source env.sourceAddr).gossip := by
        rw [hl]
        exact h
      have hgossip := queue_gossip (c := c) hadd env.gossip hheard
      unfold handleEnvelope
      rcases queue_handleKind c _ env with ⟨heq, -⟩ | ⟨heq, -⟩
      · rw [heq]
        exact hgossip
      · rw [heq]
        exact hdrain _ _ _ hgossip
    · exact h
  | tick c now =>
    show Q (s.tick c now).1.gossip
    rw [tick_fst]
    refine queue_probeNext hdrain ?_
    show Q ((s.resolveProbe c now).1.expireSuspects c now).1.gossip
    exact queue_expireSuspects hadd now (queue_resolveProbe hadd now h)

end SwimService

theorem filed_of_reach (h : serviceMachine.Reach Machine.Anytime s) : s.gossip.Filed := by
  refine h.inv (I := fun s => s.gossip.Filed) ?_ ?_
  · rintro s ⟨id, addr, config, cert, rfl⟩ k p hp
    cases hp
  · rintro s a t hs - hn
    cases hn
    exact SwimService.queue_call (fun _ _ _ h => h.add) (fun _ _ max h => h.drain max) a hs

end Queue

/-! ## news -/

/-- the queue holds an update about the node with at least this incarnation -/
def Queued (s : SwimService) (n : NodeId) (i : UInt64) : Prop :=
  ∃ p ∈ s.gossip.pending.lookup n, i ≤ p.update.incarnation

/-- the service after the sender of the envelope and these updates -/
def heard (c : Choices) (s : SwimService) (env : SwimEnvelope) (us : List GossipUpdate) :
    SwimService :=
  us.foldl (SwimService.applyGossip c) (s.hearFrom env.source env.sourceAddr)

/-- the update changes the recorded state or incarnation of a node other than the own one, or adds a
member -/
def Accepted (c : Choices) (s : SwimService) (env : SwimEnvelope) (u : GossipUpdate) : Prop :=
  ∃ pre post, env.gossip = pre ++ u :: post ∧ s.members.selfId ≠ some u.nodeId ∧
    ((heard c s env (pre ++ [u])).members.get u.nodeId).map (fun m => (m.state, m.incarnation))
      ≠ ((heard c s env pre).members.get u.nodeId).map fun m => (m.state, m.incarnation)

def Sent (outs : List Outgoing) (n : NodeId) (i : UInt64) : Prop :=
  ∃ out ∈ outs, ∃ e ∈ out.frame.decode, ∃ u ∈ e.gossip, u.nodeId = n ∧ i ≤ u.incarnation

/-- the news are dropped from the queue when an update finds it full -/
def Displaced (c : Choices) (s : SwimService) (env : SwimEnvelope) (n : NodeId) (i : UInt64) :
    Prop :=
  ∃ pre u post, env.gossip = pre ++ u :: post ∧ Queued (heard c s env pre) n i ∧
    (heard c s env pre).gossip.maxEntries ≤ (heard c s env pre).gossip.pending.keys.length ∧
    (heard c s env (pre ++ [u])).gossip.pending.lookup n = none

/-- after the envelope is handled the news are queued, or were sent or displaced meanwhile -/
def Spreads (c : Choices) (s : SwimService) (env : SwimEnvelope) (n : NodeId) (i : UInt64) : Prop :=
  Queued (s.handleEnvelope c env).1 n i ∨ Sent (s.handleEnvelope c env).2 n i ∨
    Displaced c s env n i

variable {c : Choices} {s : SwimService} {env : SwimEnvelope} {n : NodeId} {i : UInt64}
  {u : GossipUpdate} {us : List GossipUpdate}

/-! ## while the gossip is applied -/

theorem refutation_self {l : MembershipList} {r : GossipUpdate}
    (h : (l.applyUpdate u).2 = some r) : l.selfId = some r.nodeId := by
  by_cases hself : l.selfId = some u.nodeId
  · rcases MembershipList.applyUpdate_self hself with heq | ⟨i, addr, cert, heq⟩
    · rw [heq] at h
      cases h
    · rw [heq] at h
      cases h
      exact hself
  · rw [(MembershipList.applyUpdate_other hself).2] at h
    cases h

theorem lookup_applyGossip (hn : s.members.selfId ≠ some n) :
    (s.applyGossip c u).gossip.pending.lookup n = s.gossip.pending.lookup n ∨
      s.gossip.maxEntries ≤ s.gossip.pending.keys.length ∧
        (s.applyGossip c u).gossip.pending.lookup n = none := by
  unfold SwimService.applyGossip
  cases h : s.members.applyUpdate u with
  | mk members refutation =>
    cases refutation with
    | none => exact Or.inl rfl
    | some r =>
      have hself : s.members.selfId = some r.nodeId := refutation_self (by rw [h])
      refine GossipQueue.lookup_add_other fun hr => hn ?_
      rw [hr, hself]

theorem selfId_heard (us : List GossipUpdate) :
    (heard c s env us).members.selfId = s.members.selfId := by
  show (us.foldl (SwimService.applyGossip c)
    (s.hearFrom env.source env.sourceAddr)).core.2.selfId = s.core.2.selfId
  rw [SwimService.core_gossip, SwimService.core_hearFrom, selfId_run, selfId_run]

theorem heard_concat (us : List GossipUpdate) (u : GossipUpdate) :
    heard c s env (us ++ [u]) = (heard c s env us).applyGossip c u :=
  List.foldl_concat ..

theorem gossip_heard_nil : (heard c s env []).gossip = s.gossip := by
  obtain ⟨d, l, h⟩ := s.hearFrom_eq env.source env.sourceAddr
  show (s.hearFrom env.source env.sourceAddr).gossip = s.gossip
  rw [h]

theorem queued_of_heard (hn : s.members.selfId ≠ some n) (h : Queued (heard c s env us) n i) :
    Queued s n i := by
  induction us using List.reverseRecOn with
  | nil =>
    unfold Queued at h ⊢
    rw [gossip_heard_nil] at h
    exact h
  | append_singleton us u ih =>
    refine ih ?_
    unfold Queued at h ⊢
    rw [heard_concat] at h
    have hself : (heard c s env us).members.selfId ≠ some n := by
      rw [selfId_heard]
      exact hn
    rcases lookup_applyGossip (c := c) (u := u) hself with heq | ⟨-, heq⟩
    · rw [heq] at h
      exact h
    · rw [heq] at h
      obtain ⟨p, hp, -⟩ := h
      cases hp

/-- an entry of another node that was there before is there after the updates, or was displaced -/
theorem heard_of_queued (c : Choices) (env : SwimEnvelope) (us : List GossipUpdate)
    (hn : s.members.selfId ≠ some n) (h : Queued s n i) :
    Queued (heard c s env us) n i ∨
      ∃ pre u post, us = pre ++ u :: post ∧ Queued (heard c s env pre) n i ∧
        (heard c s env pre).gossip.maxEntries ≤ (heard c s env pre).gossip.pending.keys.length ∧
        (heard c s env (pre ++ [u])).gossip.pending.lookup n = none := by
  induction us using List.reverseRecOn with
  | nil =>
    left
    unfold Queued
    rw [gossip_heard_nil]
    exact h
  | append_singleton us u ih =>
    rcases ih with hq | ⟨pre, u', post, rfl, hrest⟩
    · have hself : (heard c s env us).members.selfId ≠ some n := by
        rw [selfId_heard]
        exact hn
      rcases lookup_applyGossip (c := c) (u := u) hself with heq | ⟨hfull, heq⟩
      · left
        unfold Queued
        rw [heard_concat, heq]
        exact hq
      · right
        refine ⟨us, u, [], rfl, hq, hfull, ?_⟩
        rw [heard_concat]
        exact heq
    · right
      refine ⟨pre, u', post ++ [u], ?_, hrest⟩
      rw [List.append_assoc]
      rfl

/-! ## the answer -/

theorem queued_of_answer (hfiled : s.gossip.Filed)
    (h : Queued (s.handleKind c env).1 n i ∨ Sent (s.handleKind c env).2 n i) : Queued s n i := by
  unfold Queued Sent at *
  rcases SwimService.queue_handleKind c s env with ⟨hg, hout⟩ | ⟨hg, a, q, k, hout⟩
  · rw [hg] at h
    rcases h with h | ⟨out, hmem, e, he, u, hu, -⟩
    · exact h
    · rw [hout out hmem e he] at hu
      cases hu
  · rw [hg, hout] at h
    rcases h with ⟨p, hp, hi⟩ | ⟨out, hmem, e, he, u, hu, rfl, hi⟩
    · obtain ⟨p₀, hp₀, heq⟩ := GossipQueue.sendEach_lookup hp
      exact ⟨p₀, hp₀, by rw [heq]; exact hi⟩
    · rw [List.mem_singleton.mp hmem] at he
      cases he
      obtain ⟨k, p, hp, rfl⟩ := GossipQueue.sendEach_out hu
      rw [hfiled k p hp]
      exact ⟨p, hp, hi⟩

theorem answer_of_queued (hfiled : s.gossip.Filed) (h : Queued s n i) :
    Queued (s.handleKind c env).1 n i ∨ Sent (s.handleKind c env).2 n i := by
  unfold Queued Sent at *
  obtain ⟨p, hp, hi⟩ := h
  rcases SwimService.queue_handleKind c s env with ⟨hg, -⟩ | ⟨hg, a, q, k, hout⟩
  · rw [hg]
    exact Or.inl ⟨p, hp, hi⟩
  · rw [hg, hout]
    rcases GossipQueue.sendEach_sent hp with hsent | hkept
    · exact Or.inr ⟨_, List.mem_singleton.mpr rfl, _, rfl, p.update, hsent, hfiled n p hp, hi⟩
    · exact Or.inl ⟨p, hkept, hi⟩

/-! ## what spreads -/

theorem filed_heard (c : Choices) (env : SwimEnvelope) (us : List GossipUpdate)
    (h : s.gossip.Filed) : (heard c s env us).gossip.Filed := by
  refine SwimService.queue_gossip (Q := GossipQueue.Filed) (fun _ _ _ h => h.add) us ?_
  obtain ⟨d, l, hl⟩ := s.hearFrom_eq env.source env.sourceAddr
  rw [hl]
  exact h

theorem spreads_iff (hfiled : s.gossip.Filed) (hn : s.members.selfId ≠ some n) :
    Spreads c s env n i ↔ Queued s n i := by
  have hheard := filed_heard c env env.gossip hfiled
  constructor
  · rintro (h | h | ⟨pre, u, post, -, h, -⟩)
    · exact queued_of_heard hn (queued_of_answer hheard (Or.inl h))
    · exact queued_of_heard hn (queued_of_answer hheard (Or.inr h))
    · exact queued_of_heard hn h
  · intro h
    rcases heard_of_queued c env env.gossip hn h with hq | hdisplaced
    · rcases answer_of_queued hheard hq with hq | hsent
      · exact Or.inl hq
      · exact Or.inr (Or.inl hsent)
    · exact Or.inr (Or.inr hdisplaced)

/-- **An update that a service accepts from a frame is passed on, that is queued, sent in the reply
or displaced, exactly if the queue held an update about the node that is as new already before.** -/
theorem accepted_spreads_iff (h : serviceMachine.Reach Machine.Anytime s)
    (hu : Accepted c s env u) :
    Spreads c s env u.nodeId u.incarnation ↔ Queued s u.nodeId u.incarnation := by
  obtain ⟨pre, post, -, hself, -⟩ := hu
  exact spreads_iff (filed_of_reach h) hself

private def telling (us : List GossipUpdate) : SwimEnvelope := ⟨3, .home, 5, .ack none, us⟩

/-- node 2 misses a ping, is suspected, which is queued, and then heard of -/
private def suspectedOnce : List Call :=
  [.addSeed 2 .home, .addSeed 3 .home, .tick (.probing 2) 0, .tick (.probing 3) 10,
    .handleFrame .default ⟨true, 6, some ⟨2, .home, 6, .ack none, []⟩⟩]

private def suspicion : GossipUpdate := .suspect 2 .home 0

/-- the suspicion comes back from node 3 while it is still queued -/
theorem accepted_spreads_suspicion : ∃ s, serviceMachine.Reach Machine.Anytime s ∧
    Accepted .default s (telling [suspicion]) suspicion ∧ Queued s 2 0 ∧
    Spreads .default s (telling [suspicion]) 2 0 := by
  have hstart : serviceMachine.Reach Machine.Anytime (SwimService.fresh 0) :=
    .start ⟨1, .home, .helpedBy 0, none, rfl⟩
  obtain ⟨s, hs, hself, hchange, hsome⟩ := hstart.exists_run suspectedOnce
    (p := fun s => s.members.selfId ≠ some 2 ∧
      ((heard .default s (telling [suspicion]) [suspicion]).members.get 2).map
          (fun m => (m.state, m.incarnation))
        ≠ ((heard .default s (telling [suspicion]) []).members.get 2).map
          (fun m => (m.state, m.incarnation)) ∧
      (s.gossip.pending.lookup 2).isSome) (by decide)
  obtain ⟨p, hp⟩ := Option.isSome_iff_exists.mp hsome
  have hqueued : Queued s 2 0 := ⟨p, hp, UInt64.le_iff_toNat_le.mpr (Nat.zero_le _)⟩
  have haccepted : Accepted .default s (telling [suspicion]) suspicion :=
    ⟨[], [], rfl, hself, hchange⟩
  exact ⟨s, hs, haccepted, hqueued, (accepted_spreads_iff hs haccepted).mpr hqueued⟩

private def joining : SwimEnvelope := ⟨2, .home, 1, .ping, [.alive 3 .home 0 none]⟩

/-- a new service takes the news and keeps them to itself: nothing is queued, and the reply holds no
gossip -/
theorem accepted_not_spread : ∃ s, serviceMachine.Reach Machine.Anytime s ∧
    Accepted .default s joining (.alive 3 .home 0 none) ∧
    (s.handleEnvelope .default joining).1.stateOf 3 = some .alive ∧
    (s.handleEnvelope .default joining).1.gossip.pending.lookup 3 = none ∧
    (∀ out ∈ (s.handleEnvelope .default joining).2, ∀ e ∈ out.frame.decode, e.gossip = []) ∧
    ¬ Spreads .default s joining 3 0 := by
  have hs : serviceMachine.Reach Machine.Anytime (SwimService.fresh 0) :=
    .start ⟨1, .home, .helpedBy 0, none, rfl⟩
  refine ⟨_, hs, ⟨[], [], rfl, by decide, by decide⟩, by decide, by decide, by decide, ?_⟩
  rw [spreads_iff (filed_of_reach hs) (by decide)]
  rintro ⟨p, hp, -⟩
  cases hp

end Rebar.Swim

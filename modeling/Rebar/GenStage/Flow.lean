import Rebar.GenStage.Engine

/-!
# What handling a command consists of

Every handler of a stage serves demand, does one thing that the command asks for, and serves demand.

* `Flow`          callbacks, rounds of dispatch and subscribers found dead, in any number and order;
* `Acts`          the one thing, for each command.
-/

namespace Rebar.Stage

variable {V S : Type}

/-- a callback that may emit events has changed the user state -/
def GenStage.Yields (impl : GenStage V S) (s s' : S) : Prop :=
  (∃ demand, s' = (impl.handleDemand demand s).1) ∨
  (∃ events tag, s' = (impl.handleEvents events tag s).1) ∨
  (∃ msg, s' = (impl.handleCall msg s).1) ∨ ∃ msg, s' = (impl.handleCast msg s).1

inductive Flow (impl : GenStage V S) (env : Peers) (st : StageLoop V S) : StageLoop V S → Prop where
  | refl : Flow impl env st st
  | called {mid : StageLoop V S} {user : S} : Flow impl env st mid → impl.Yields mid.user user →
      Flow impl env st { mid with user := user }
  | round {mid : StageLoop V S} {chan : SubscriptionTag → TrySend} (xs buffer emitted : List V) :
      Flow impl env st mid → chan = env.drain ∨ chan = env.fresh →
      Flow impl env st { mid with
        ls := { mid.ls with
          consumerDemands := (mid.ls.dispatcher.dispatch xs mid.ls.consumerDemands).1
          eventBuffer := buffer }
        sent := mid.sent ++ (deliverEvents mid.ls.downstreams chan
          (mid.ls.dispatcher.dispatch xs mid.ls.consumerDemands).2.deliveries).sent
        emitted := emitted }
  | lost {mid : StageLoop V S} {t : SubscriptionTag} : Flow impl env st mid →
      env.drain t = .closed ∨ env.fresh t = .closed → (mid.ls.downstreams.lookup t).isSome = true →
      Flow impl env st { mid with
        ls := mid.ls.removeDownstream t, user := impl.handleCancel .down t mid.user }

def Told (st : StageLoop V S) (dst : StageId) (cmd : StageCommand V) (st' : StageLoop V S) : Prop :=
  st' = st ∨ st' = st.send dst cmd

inductive Acts (impl : GenStage V S) (self : StageId) (env : Peers) (st : StageLoop V S) :
    StageCommand V → StageLoop V S → Prop where
  | subscribed {t : SubscriptionTag} {consumer : StageId} {opts : SubscribeOpts} {st' : StageLoop V S} :
      Told { st with
        user := (impl.handleSubscribe st.ls.stageType opts t st.user).1
        ls := { st.ls with
          consumerDemands := st.ls.consumerDemands ++ [.new t]
          downstreams := st.ls.downstreams.insert t ⟨consumer⟩ } }
        consumer (.subscriptionConfirmed t self opts) st' →
      Acts impl self env st (.subscribe t consumer opts) st'
  | confirmed {t : SubscriptionTag} {producer : StageId} {opts : SubscribeOpts} {mode : DemandMode}
      {outstanding : Nat} {st' : StageLoop V S} :
      outstanding = (if mode = .automatic then max opts.maxDemand 1 else 0) →
      Told { st with
        user := (impl.handleSubscribe st.ls.stageType opts t st.user).1
        ls := { st.ls with
          upstreams := st.ls.upstreams.insert t ⟨producer, mode,
            min opts.minDemand (max opts.maxDemand 1), max opts.maxDemand 1, 0, outstanding⟩ } }
        producer (.askDemand t (max opts.maxDemand 1)) st' →
      Acts impl self env st (.subscriptionConfirmed t producer opts) st'
  | entered {t : SubscriptionTag} {n : Nat} : st.ls.upstreams.lookup t = none →
      Acts impl self env st (.askDemand t n) { st with ls := st.ls.addDemand t n }
  | forwarded {t : SubscriptionTag} {n : Nat} {up : UpstreamSubscription} :
      st.ls.upstreams.lookup t = some up →
      Acts impl self env st (.askDemand t n) (st.send up.producer (.askDemand t n))
  | received {t : SubscriptionTag} {events : List V} {up : UpstreamSubscription} {room : Nat}
      {st' : StageLoop V S} : st.ls.upstreams.lookup t = some up → up.mode = .automatic →
      Told { st with ls := { st.ls with
          upstreams := st.ls.upstreams.insert t (up.receive events.length room).1 } }
        up.producer (.askDemand t (up.receive events.length room).2) st' →
      Acts impl self env st (.events t events) st'
  | gone {t : SubscriptionTag} {up : UpstreamSubscription} {cmd : StageCommand V}
      {ups : HashMap SubscriptionTag UpstreamSubscription} :
      (∃ n, cmd = .askDemand t n) ∨ (∃ events, cmd = .events t events) →
      st.ls.upstreams.lookup t = some up → ¬ env.reachable t = true →
      (∀ k, ups.lookup k = if k = t then none else st.ls.upstreams.lookup k) →
      Acts impl self env st cmd { st with
        ls := { st.ls with upstreams := ups }, user := impl.handleCancel .down t st.user }
  | leftBelow {t : SubscriptionTag} {reason : CancelReason} {down : DownstreamSubscription}
      {st' : StageLoop V S} : st.ls.downstreams.lookup t = some down →
      Told { st with ls := st.ls.removeDownstream t, user := impl.handleCancel reason t st.user }
        down.consumer (.cancel t reason) st' →
      Acts impl self env st (.cancel t reason) st'
  | leftAbove {t : SubscriptionTag} {reason : CancelReason} {up : UpstreamSubscription}
      {st' : StageLoop V S} : st.ls.upstreams.lookup t = some up →
      Told { st with
        ls := { st.ls with upstreams := st.ls.upstreams.erase t }
        user := impl.handleCancel reason t st.user } up.producer (.cancel t reason) st' →
      Acts impl self env st (.cancel t reason) st'

variable (impl : GenStage V S) (self : StageId) (env : Peers) {st mid mid' : StageLoop V S}

/-! ## serving demand -/

theorem bufferLeftover_eq (ls : LoopState V) (leftover : List V) :
    ls.bufferLeftover leftover
      = { ls with eventBuffer := (ls.bufferLeftover leftover).eventBuffer } := by
  cases leftover with
  | nil => rfl
  | cons e es => rfl

theorem deliverEvents_closed {downs : HashMap SubscriptionTag DownstreamSubscription}
    {chan : SubscriptionTag → TrySend} {deliveries : List (SubscriptionTag × List V)}
    {t : SubscriptionTag} (h : t ∈ (deliverEvents downs chan deliveries).dead) : chan t = .closed := by
  induction deliveries with
  | nil => cases h
  | cons d deliveries ih =>
    unfold deliverEvents at h
    split at h
    next => exact ih h
    next =>
      split at h
      next => exact ih h
      next => exact ih h
      next hclosed =>
        rcases List.mem_cons.mp h with rfl | h
        · exact hclosed
        · exact ih h

variable {impl env}

theorem Flow.cleanup (h : Flow impl env st mid) {dead : List SubscriptionTag}
    (hdead : ∀ t ∈ dead, env.drain t = .closed ∨ env.fresh t = .closed) :
    Flow impl env st (StageLoop.cleanupDeadDownstreams impl (mid, dead)) := by
  unfold StageLoop.cleanupDeadDownstreams
  induction dead generalizing mid with
  | nil => exact h
  | cons t dead ih =>
    have hone : Flow impl env st (StageLoop.cleanupDeadDownstream impl mid t) := by
      unfold StageLoop.cleanupDeadDownstream
      split
      next hsome => exact h.lost (hdead t List.mem_cons_self) hsome
      next => exact h
    exact ih hone fun t ht => hdead t (List.mem_cons_of_mem _ ht)

theorem Flow.deliver (h : Flow impl env st mid) {chan : SubscriptionTag → TrySend}
    (hchan : chan = env.drain ∨ chan = env.fresh) (xs emitted : List V) {ls : LoopState V}
    (hls : ls = { mid.ls with
      consumerDemands := (mid.ls.dispatcher.dispatch xs mid.ls.consumerDemands).1
      eventBuffer := ls.eventBuffer }) :
    Flow impl env st (StageLoop.cleanupDeadDownstreams impl
      (StageLoop.deliver { mid with ls := ls, emitted := emitted } chan
        (mid.ls.dispatcher.dispatch xs mid.ls.consumerDemands).2.deliveries)) := by
  refine Flow.cleanup ?_ fun t ht => ?_
  · rw [bufferLeftover_eq, hls]
    exact h.round xs _ emitted hchan
  · rcases hchan with rfl | rfl
    · exact Or.inl (deliverEvents_closed ht)
    · exact Or.inr (deliverEvents_closed ht)

theorem Flow.dispatch (h : Flow impl env st mid) (events : List V) : Flow impl env st
    (StageLoop.cleanupDeadDownstreams impl (mid.dispatchAndDeliver env.fresh events)) := by
  unfold StageLoop.dispatchAndDeliver
  split
  next => exact h
  next => exact h.deliver (Or.inr rfl) events _ (bufferLeftover_eq _ _)

theorem Flow.drain (h : Flow impl env st mid) :
    Flow impl env st (StageLoop.drainBuffer impl env mid) := by
  unfold StageLoop.drainBuffer
  split
  next => exact h
  next => exact h.deliver (Or.inl rfl) mid.ls.eventBuffer _ rfl

theorem Flow.emit (h : Flow impl env st mid) {user : S} (hu : impl.Yields mid.user user)
    (events : List V) : Flow impl env st (StageLoop.cleanupDeadDownstreams impl
      (StageLoop.maybeDispatchEmitted { mid with user := user } env.fresh events)) := by
  unfold StageLoop.maybeDispatchEmitted
  split
  next => exact (h.called hu).dispatch events
  next => exact h.called hu

theorem Flow.produce (h : Flow impl env st mid) (demand : Nat) :
    Flow impl env st (StageLoop.produce impl env mid demand) := by
  unfold StageLoop.produce
  dsimp only
  split
  next => exact (h.called (Or.inl ⟨_, rfl⟩)).dispatch _
  next => exact h

variable (impl env)

theorem handleAskDemand_flow {t : SubscriptionTag} (n : Nat) (hup : st.ls.upstreams.lookup t = none) :
    Flow impl env { st with ls := st.ls.addDemand t n } (StageLoop.handleAskDemand impl env st t n) := by
  unfold StageLoop.handleAskDemand
  rw [hup]
  exact Flow.refl.drain.produce n

/-- the events of one subscription are served to the others before more is asked for, whoever can be
reached -/
theorem handleEvents_flow (st : StageLoop V S) (t : SubscriptionTag) (events : List V) :
    ∃ mid, Flow impl env st mid ∧ ∀ reachable, StageLoop.handleEvents impl
      { env with reachable := reachable } st t events
        = StageLoop.reask impl { env with reachable := reachable } mid t events.length := by
  have hu : impl.Yields st.user _ := Or.inr (Or.inl ⟨events, t, rfl⟩)
  unfold StageLoop.handleEvents
  dsimp only
  split
  next => exact ⟨_, (Flow.refl.called hu).dispatch _, fun _ => rfl⟩
  next => exact ⟨_, Flow.refl.called hu, fun _ => rfl⟩

/-! ## acts -/

theorem told_if {q : Prop} [Decidable q] (st : StageLoop V S) (dst : StageId) (cmd : StageCommand V) :
    Told st dst cmd (if q then st.send dst cmd else st) := by
  split
  · exact Or.inr rfl
  · exact Or.inl rfl

theorem receive_keeps (up : UpstreamSubscription) (n room : Nat) :
    (up.receive n room).1.producer = up.producer ∧ (up.receive n room).1.mode = up.mode ∧
      (up.receive n room).2 ≤ room := by
  unfold UpstreamSubscription.receive
  dsimp only
  split
  · exact ⟨rfl, rfl, Nat.min_le_right _ _⟩
  · exact ⟨rfl, rfl, Nat.zero_le _⟩

theorem reask_acts (st : StageLoop V S) (t : SubscriptionTag) (events : List V) :
    StageLoop.reask impl env st t events.length = st ∨ Acts impl self env st (.events t events)
      (StageLoop.reask impl env st t events.length) := by
  unfold StageLoop.reask
  cases hup : st.ls.upstreams.lookup t with
  | none => exact Or.inl rfl
  | some up =>
    dsimp only
    split
    next hmode =>
      right
      split
      next =>
        split
        next =>
          rw [(receive_keeps _ _ _).1]
          exact .received hup hmode (Or.inr rfl)
        next hgone =>
          refine .gone (Or.inr ⟨events, rfl⟩) hup hgone fun k => ?_
          rw [HashMap.lookup_erase_if, HashMap.lookup_insert_if]
          split <;> rfl
      next => exact .received hup hmode (Or.inl rfl)
    next => exact Or.inl rfl

/-- **A command that is handled is a flow, at most one act, and a flow.** -/
theorem handle_acts (st : StageLoop V S) (cmd : StageCommand V) : ∃ mid mid',
    Flow impl env st mid ∧ (mid' = mid ∨ Acts impl self env mid cmd mid') ∧
      Flow impl env mid' (StageLoop.handle impl self env st cmd) := by
  cases cmd with
  | subscribe t consumer opts =>
    exact ⟨st, _, .refl, Or.inr (.subscribed (told_if _ _ _)), .refl⟩
  | cancel t reason =>
    refine ⟨st, _, .refl, ?_, .refl⟩
    show StageLoop.handleCancel impl env st t reason = st ∨
      Acts impl self env st (.cancel t reason) (StageLoop.handleCancel impl env st t reason)
    unfold StageLoop.handleCancel
    cases hdown : st.ls.downstreams.lookup t with
    | some down => exact Or.inr (.leftBelow hdown (told_if _ _ _))
    | none =>
      cases hup : st.ls.upstreams.lookup t with
      | some up => exact Or.inr (.leftAbove hup (told_if _ _ _))
      | none => exact Or.inl rfl
  | askDemand t n =>
    cases hup : st.ls.upstreams.lookup t with
    | none => exact ⟨st, _, .refl, Or.inr (.entered hup), handleAskDemand_flow impl env n hup⟩
    | some up =>
      refine ⟨st, _, .refl, Or.inr ?_, .refl⟩
      show Acts impl self env st _ (StageLoop.handleAskDemand impl env st t n)
      unfold StageLoop.handleAskDemand
      rw [hup]
      dsimp only
      split
      next => exact .forwarded hup
      next hgone =>
        exact .gone (Or.inl ⟨n, rfl⟩) hup hgone fun k => HashMap.lookup_erase_if _ t k
  | events t events =>
    obtain ⟨mid, hflow, heq⟩ := handleEvents_flow impl env st t events
    refine ⟨mid, _, hflow, reask_acts impl self env mid t events, ?_⟩
    show Flow impl env _ (StageLoop.handleEvents impl env st t events)
    rw [heq env.reachable]
    exact .refl
  | call msg =>
    exact ⟨st, st, .refl, Or.inl rfl, Flow.refl.emit (Or.inr (Or.inr (Or.inl ⟨msg, rfl⟩))) _⟩
  | cast msg =>
    exact ⟨st, st, .refl, Or.inl rfl, Flow.refl.emit (Or.inr (Or.inr (Or.inr ⟨msg, rfl⟩))) _⟩
  | subscriptionConfirmed t producer opts =>
    exact ⟨st, _, .refl, Or.inr (.confirmed rfl (told_if _ _ _)), .refl⟩

end Rebar.Stage

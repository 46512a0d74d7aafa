import Rebar.GenStage.Single
import Rebar.GenStage.System

/-!
# A pipeline of three stages

A producer, a stage that passes events on, and a consumer, with automatic demand and channels that
always have room.  The middle stage asks for more only when events arrive, and then for no more than
its consumer wants at that moment.  So if the consumer is slow the middle stage stops asking, and
nothing makes it ask again when the consumer's demand comes.
-/

namespace Rebar.Stage

variable {V S : Type}

variable {tag : SubscriptionTag} {k : StageId} {d : Nat} {st : StageLoop V S}

theorem toward_batchTo (k : StageId) (tag : SubscriptionTag) (batch : List V) :
    Toward k (batchTo k tag batch) ∧
      (∀ out ∈ batchTo k tag batch, out = (k, .events tag batch)) ∧
      (addressed k (batchTo k tag batch)).length ≤ batch.length := by
  cases batch with
  | nil => exact ⟨toward_nil k, nofun, Nat.le_refl 0⟩
  | cons e es =>
    refine ⟨toward_single k _, List.forall_mem_singleton.mpr rfl, ?_⟩
    refine (List.length_filterMap_le _ _).trans ?_
    exact Nat.le_add_left 1 es.length

theorem isSome_insert (ups : HashMap SubscriptionTag UpstreamSubscription) (tag : SubscriptionTag)
    (up : UpstreamSubscription) : ((ups.insert tag up).lookup tag).isSome = true := by
  rw [AList.lookup_insert]
  rfl

/-! ## the three stages -/

/-- a producer whose only subscriber is `k` -/
structure ProducerShape (tag : SubscriptionTag) (k : StageId) (st : StageLoop V S) : Prop where
  lone : ∃ d, Lone tag k d st.ls
  stageType : st.ls.stageType = .producer
  upstream : st.ls.upstreams.lookup tag = none
  buffer : st.ls.eventBuffer = []

variable {impl : GenStage V S} {up : UpstreamSubscription}

section
variable (h : ProducerShape tag k st) (hdemand : ∀ n u, (impl.handleDemand n u).2.length = n)
  (hsent : st.sent = []) (n : Nat)
include h hdemand hsent

theorem ProducerShape.produce : ∃ st', StageLoop.produce impl .clear st n = st' ∧
    ProducerShape tag k st' ∧
    (st'.sent = [] ∨ ∃ events, events ≠ [] ∧ st'.sent = [(k, .events tag events)]) := by
  obtain ⟨d, hl⟩ := h.lone
  unfold StageLoop.produce
  dsimp only
  split
  next hwant =>
    generalize hr : impl.handleDemand (min n st.ls.totalDownstreamDemand) st.user = r
    have hlen : r.2.length = min n st.ls.totalDownstreamDemand := by rw [← hr, hdemand]
    have hle : r.2.length ≤ d := by
      have htot := hl.totalDemand
      have hmod := Nat.mod_le d usizeSize
      omega
    have hne : r.2 ≠ [] := List.ne_nil_of_length_pos (hlen ▸ hwant.2)
    have hl' : Lone tag k d ({ st with user := r.1 } : StageLoop V S).ls := hl
    have hdisp := hl'.dispatch hne
    rw [List.drop_eq_nil_of_le hle, List.take_of_length_le hle, batchTo_of_ne hne] at hdisp
    subst hr
    refine ⟨_, congrArg (StageLoop.cleanupDeadDownstreams impl) hdisp,
      ⟨⟨_, hl.update _ _⟩, h.stageType, h.upstream, h.buffer⟩, Or.inr ⟨_, hne, ?_⟩⟩
    show st.sent ++ _ = _
    rw [hsent, List.nil_append]
  next => exact ⟨st, rfl, h, Or.inl hsent⟩

theorem ProducerShape.ask : ∃ st', StageLoop.handleAskDemand impl .clear st tag n = st' ∧
    ProducerShape tag k st' ∧
    (st'.sent = [] ∨ ∃ events, events ≠ [] ∧ st'.sent = [(k, .events tag events)]) := by
  obtain ⟨d, hl⟩ := h.lone
  rw [hl.ask impl h.upstream n]
  refine ProducerShape.produce ?_ hdemand ?_ n
  · refine ⟨⟨_, hl.update _ _⟩, h.stageType, h.upstream, ?_⟩
    show st.ls.eventBuffer.drop _ = []
    rw [h.buffer, List.drop_nil]
  · show st.sent ++ batchTo k tag (st.ls.eventBuffer.take _) = []
    rw [hsent, h.buffer, List.take_nil]
    rfl

end

/-- a stage between the producer `i` and its only subscriber `k`, which has demand `d` -/
structure MiddleShape (a b : SubscriptionTag) (i k : StageId) (d : Nat) (st : StageLoop V S) :
    Prop where
  lone : Lone b k d st.ls
  stageType : st.ls.stageType = .producerConsumer
  notUp : st.ls.upstreams.lookup b = none
  up : ∀ up, st.ls.upstreams.lookup a = some up → up.producer = i ∧ up.mode = .automatic

variable {a b : SubscriptionTag} {i : StageId}

section
variable (h : MiddleShape a b i k d st)
include h

theorem MiddleShape.ask (impl : GenStage V S) (hsent : st.sent = []) (n : Nat) :
    ∃ st' d' batch, StageLoop.handleAskDemand impl .clear st b n = st' ∧
      MiddleShape a b i k d' st' ∧ d' ≤ d + n ∧ st'.ls.upstreams = st.ls.upstreams ∧
      st'.sent = batchTo k b batch ∧
      st'.ls.eventBuffer.length + batch.length = st.ls.eventBuffer.length := by
  have hle := Nat.mod_le (d + n) usizeSize
  have htype : st.ls.stageType ≠ .producer := by
    rw [h.stageType]
    decide
  refine ⟨_, (d + n) % usizeSize - st.ls.eventBuffer.length,
    st.ls.eventBuffer.take ((d + n) % usizeSize),
    (h.lone.ask impl h.notUp n).trans (if_neg fun hwant => htype hwant.1),
    ⟨h.lone.update _ _, h.stageType, h.notUp, h.up⟩, by omega, rfl, ?_, ?_⟩
  · show st.sent ++ _ = _
    rw [hsent, List.nil_append]
  · show (st.ls.eventBuffer.drop _).length + _ = _
    rw [List.length_drop, List.length_take]
    omega

variable (hab : a ≠ b)
include hab

theorem MiddleShape.enter (hup : up.producer = i ∧ up.mode = .automatic) (user : S)
    (sent : List (StageId × StageCommand V)) : MiddleShape a b i k d { st with
      user := user, ls := { st.ls with upstreams := st.ls.upstreams.insert a up }, sent := sent } := by
  refine ⟨⟨h.lone.dispatcher, h.lone.demands, h.lone.downstream⟩, h.stageType, ?_, ?_⟩
  · show (st.ls.upstreams.insert a up).lookup b = none
    rw [HashMap.lookup_insert_if, if_neg hab.symm, h.notUp]
  · intro up' hup'
    rw [HashMap.lookup_insert_if, if_pos rfl] at hup'
    cases hup'
    exact hup

theorem MiddleShape.reask (impl : GenStage V S) (n : Nat) :
    ∃ st' asked, StageLoop.reask impl .clear st a n = st' ∧ MiddleShape a b i k d st' ∧
      (st'.ls.upstreams.lookup a).isSome = (st.ls.upstreams.lookup a).isSome ∧
      st'.sent = st.sent ++ asked ∧
      (asked = [] ∨ 0 < d ∧ ∃ m, asked = [(i, .askDemand a m)]) := by
  cases hup : st.ls.upstreams.lookup a with
  | none =>
    refine ⟨st, [], reask_none impl .clear hup n, h, ?_, (List.append_nil _).symm, Or.inl rfl⟩
    rw [hup]
  | some up =>
    obtain ⟨hprod, hmode⟩ := h.up up hup
    obtain ⟨hp', hm', hroom⟩ := receive_keeps up n st.ls.downstreamRoom
    have hbound : st.ls.downstreamRoom ≤ d := by
      unfold LoopState.downstreamRoom
      rw [if_pos h.stageType, h.lone.totalDemand]
      exact Nat.mod_le _ _
    refine ⟨_, _, reask_automatic impl .clear hup hmode rfl n,
      h.enter hab ⟨hp'.trans hprod, hm'.trans hmode⟩ _ _, ?_, rfl, ?_⟩
    · exact isSome_insert st.ls.upstreams a _
    · split
      · rw [hprod]
        exact Or.inr ⟨by omega, _, rfl⟩
      · exact Or.inl rfl

theorem MiddleShape.events
    (hone : ∀ events t u, (impl.handleEvents events t u).2.length = events.length)
    (hsent : st.sent = []) {events : List V} (hne : events ≠ []) :
    ∃ st' d' passed asked, StageLoop.handleEvents impl .clear st a events = st' ∧
      MiddleShape a b i k d' st' ∧ d' ≤ d ∧
      (st'.ls.upstreams.lookup a).isSome = (st.ls.upstreams.lookup a).isSome ∧
      st'.sent = batchTo k b passed ++ asked ∧
      (asked = [] ∨ d' < d ∧ ∃ n, asked = [(i, .askDemand a n)]) := by
  generalize hr : impl.handleEvents events a st.user = r
  have hlen : r.2.length = events.length := by rw [← hr, hone]
  have hpos : 0 < r.2.length := hlen ▸ List.length_pos_iff.mpr hne
  have hrne : r.2 ≠ [] := List.ne_nil_of_length_pos hpos
  have hl : Lone b k d ({ st with user := r.1 } : StageLoop V S).ls := h.lone
  have hshape : MiddleShape a b i k (d - r.2.length) { st with
      user := r.1
      ls := { st.ls with
        consumerDemands := [⟨b, d - r.2.length⟩]
        eventBuffer := (st.ls.bufferLeftover (r.2.drop d)).eventBuffer }
      sent := st.sent ++ batchTo k b (r.2.take d)
      emitted := st.emitted ++ r.2 } := ⟨h.lone.update _ _, h.stageType, h.notUp, h.up⟩
  obtain ⟨st', asked, rfl, hm, hsome, hout, hasked⟩ := hshape.reask hab impl events.length
  refine ⟨_, _, r.2.take d, asked, ?_, hm, Nat.sub_le _ _, hsome, ?_,
    hasked.imp_right fun hpos => ⟨by omega, hpos.2⟩⟩
  · rw [StageLoop.handleEvents, hr]
    dsimp only
    rw [if_pos ⟨h.stageType, by rw [List.isEmpty_iff]; exact hrne⟩]
    exact congrArg (fun r => StageLoop.reask impl .clear
      (StageLoop.cleanupDeadDownstreams impl r) a events.length) (hl.dispatch hrne)
  · rw [hout]
    show st.sent ++ _ ++ _ = _
    rw [hsent, List.nil_append]

end

theorem confirmed_automatic (impl : GenStage V S) (st : StageLoop V S) (producer : StageId)
    (opts : SubscribeOpts)
    (hauto : (impl.handleSubscribe st.ls.stageType opts tag st.user).2 = .automatic) :
    StageLoop.handleSubscriptionConfirmed impl .clear st tag producer opts = { st with
      user := (impl.handleSubscribe st.ls.stageType opts tag st.user).1
      ls := { st.ls with
        upstreams := st.ls.upstreams.insert tag ⟨producer, .automatic,
          min opts.minDemand (max opts.maxDemand 1), max opts.maxDemand 1, 0,
          max opts.maxDemand 1⟩ }
      sent := st.sent ++ [(producer, .askDemand tag (max opts.maxDemand 1))] } := by
  unfold StageLoop.handleSubscriptionConfirmed
  dsimp only
  rw [hauto]
  rfl

theorem MiddleShape.confirmed (h : MiddleShape a b i k d st) (hab : a ≠ b) (opts : SubscribeOpts)
    (hauto : (impl.handleSubscribe st.ls.stageType opts a st.user).2 = .automatic)
    (hsent : st.sent = []) :
    ∃ st' n, StageLoop.handleSubscriptionConfirmed impl .clear st a i opts = st' ∧
      MiddleShape a b i k d st' ∧ (st'.ls.upstreams.lookup a).isSome ∧
      st'.sent = [(i, .askDemand a n)] :=
  ⟨_, _, confirmed_automatic impl st i opts hauto, h.enter hab ⟨rfl, rfl⟩ _ _,
    isSome_insert st.ls.upstreams a _, congrArg (· ++ _) hsent⟩

/-- a subscription of a consumer whose window is either asked for or still to be asked for -/
structure Hungry (up : UpstreamSubscription) : Prop where
  window : 0 < up.maxDemand ∧ up.maxDemand ≤ usizeMax
  threshold : up.minDemand ≤ up.maxDemand
  covered : up.maxDemand ≤ up.outstandingDemand + up.pendingEvents
  pending : up.pendingEvents = 0 ∨ up.pendingEvents < up.minDemand

theorem Hungry.outstanding_pos (h : Hungry up) : 0 < up.outstandingDemand := by
  have h1 := h.window.1
  have h2 := h.threshold
  have h3 := h.covered
  rcases h.pending with h4 | h4
  · omega
  · omega

theorem Hungry.receive (h : Hungry up) (n : Nat) : Hungry (up.receive n usizeMax).1 := by
  have h1 := h.window
  have h2 := h.threshold
  have h3 := h.covered
  unfold UpstreamSubscription.receive
  dsimp only
  split
  · rename_i hmin
    refine ⟨h1, h2, ?_, Or.inl rfl⟩
    show up.maxDemand ≤ up.outstandingDemand - n +
      min (up.maxDemand - (up.outstandingDemand - n)) usizeMax + 0
    omega
  · rename_i hmin
    refine ⟨h1, h2, ?_, Or.inr (by show up.pendingEvents + n < up.minDemand; omega)⟩
    show up.maxDemand ≤ up.outstandingDemand - n + (up.pendingEvents + n)
    omega

theorem hungry_confirmed (k : StageId) (opts : SubscribeOpts) : Hungry ⟨k, .automatic,
    min opts.minDemand (max opts.maxDemand 1), max opts.maxDemand 1, 0, max opts.maxDemand 1⟩ := by
  have hlt := opts.maxDemand_lt
  unfold usizeSize at hlt
  refine ⟨⟨?_, ?_⟩, Nat.min_le_right _ _, Nat.le_refl _, Or.inl rfl⟩
  · show 0 < max opts.maxDemand 1
    omega
  · show max opts.maxDemand 1 ≤ 2 ^ 64 - 1
    omega

/-- the consumer at the end, subscribed to `k` -/
structure ConsumerShape (b : SubscriptionTag) (k : StageId) (st : StageLoop V S) : Prop where
  stageType : st.ls.stageType = .consumer
  up : ∀ up, st.ls.upstreams.lookup b = some up →
    up.producer = k ∧ up.mode = .automatic ∧ Hungry up

section
variable (h : ConsumerShape b k st) (hsent : st.sent = [])
include h

theorem ConsumerShape.enter (hup : up.producer = k ∧ up.mode = .automatic ∧ Hungry up) (user : S)
    (sent : List (StageId × StageCommand V)) : ConsumerShape b k { st with
      user := user, ls := { st.ls with upstreams := st.ls.upstreams.insert b up }, sent := sent } := by
  refine ⟨h.stageType, fun up' hup' => ?_⟩
  rw [HashMap.lookup_insert_if, if_pos rfl] at hup'
  cases hup'
  exact hup

include hsent

theorem ConsumerShape.confirmed (opts : SubscribeOpts)
    (hauto : (impl.handleSubscribe st.ls.stageType opts b st.user).2 = .automatic) :
    ∃ st' n, StageLoop.handleSubscriptionConfirmed impl .clear st b k opts = st' ∧
      ConsumerShape b k st' ∧ (st'.ls.upstreams.lookup b).isSome ∧
      st'.sent = [(k, .askDemand b n)] :=
  ⟨_, _, confirmed_automatic impl st k opts hauto,
    h.enter ⟨rfl, rfl, hungry_confirmed k opts⟩ _ _, isSome_insert st.ls.upstreams b _,
    congrArg (· ++ _) hsent⟩

theorem ConsumerShape.reask (impl : GenStage V S) (n : Nat) :
    ∃ st', StageLoop.reask impl .clear st b n = st' ∧ ConsumerShape b k st' ∧
      (st'.ls.upstreams.lookup b).isSome = (st.ls.upstreams.lookup b).isSome ∧
      (st'.sent = [] ∨ ∃ n, st'.sent = [(k, .askDemand b n)]) := by
  cases hup : st.ls.upstreams.lookup b with
  | none => exact ⟨st, reask_none impl .clear hup n, h, by rw [hup], Or.inl hsent⟩
  | some up =>
    obtain ⟨hprod, hmode, hhungry⟩ := h.up up hup
    have hroom : st.ls.downstreamRoom = usizeMax := by
      unfold LoopState.downstreamRoom
      rw [h.stageType]
      rfl
    obtain ⟨hp', hm', -⟩ := receive_keeps up n usizeMax
    have heq := reask_automatic impl .clear hup hmode rfl n
    rw [hroom] at heq
    refine ⟨_, heq, h.enter ⟨hp'.trans hprod, hm'.trans hmode, hhungry.receive n⟩ _ _,
      isSome_insert st.ls.upstreams b _, ?_⟩
    dsimp only
    rw [hsent, hprod]
    split
    · exact Or.inr ⟨_, rfl⟩
    · exact Or.inl rfl

theorem ConsumerShape.events (impl : GenStage V S) (events : List V) :
    ∃ st', StageLoop.handleEvents impl .clear st b events = st' ∧ ConsumerShape b k st' ∧
      (st'.ls.upstreams.lookup b).isSome = (st.ls.upstreams.lookup b).isSome ∧
      (st'.sent = [] ∨ ∃ n, st'.sent = [(k, .askDemand b n)]) := by
  have h' : ConsumerShape b k
    ({ st with user := (impl.handleEvents events b st.user).1 } : StageLoop V S) := ⟨h.stageType, h.up⟩
  obtain ⟨st', rfl, hrest⟩ := h'.reask hsent impl events.length
  refine ⟨_, ?_, hrest⟩
  unfold StageLoop.handleEvents
  dsimp only
  rw [if_neg]
  rw [h.stageType]
  exact fun hpc => nomatch hpc.1

end

/-! ## the pipeline -/

/-- a producer 0, a middle stage 1 and a consumer 2, with automatic subscriptions -/
structure Pipeline (V S : Type) where
  impl : StageId → GenStage V S
  user : StageId → S
  first : SubscriptionTag
  second : SubscriptionTag
  firstOpts : SubscribeOpts
  secondOpts : SubscribeOpts
  distinct : first ≠ second
  produces : ∀ n u, ((impl 0).handleDemand n u).2.length = n
  oneForOne : ∀ events t u, ((impl 1).handleEvents events t u).2.length = events.length
  automatic : ∀ id, id = 1 ∨ id = 2 → ∀ type opts t u,
    ((impl id).handleSubscribe type opts t u).2 = .automatic

namespace Pipeline
variable (P : Pipeline V S)

def unwired : System V S where
  stage := fun id => match id with
    | 0 => some (.new .demand .producer (P.user 0))
    | 1 => some (.new .demand .producerConsumer (P.user 1))
    | 2 => some (.new .demand .consumer (P.user 2))
    | _ => none
  queue := fun id => match id with
    | 0 => [.subscribe P.first 1 P.firstOpts]
    | 1 => [.subscribe P.second 2 P.secondOpts]
    | _ => []

/-- the runs from the state in which both subscriptions were accepted; no channel is ever full and
every stage stays alive -/
def machine : Machine (System V S) StageId where
  start := fun sys =>
    ((P.unwired.handle P.impl .clear 0).bind fun mid => mid.handle P.impl .clear 1) = some sys
  next := fun sys id => sys.handle P.impl .clear id

/-- nothing is on its way, both subscriptions are confirmed, and the consumer waits for events -/
def Stuck (sys : System V S) : Prop :=
  (∀ id, sys.queue id = []) ∧
    (∃ q, sys.stage 1 = some q ∧ (q.ls.upstreams.lookup P.first).isSome) ∧
    ∃ c up, sys.stage 2 = some c ∧ c.ls.upstreams.lookup P.second = some up ∧
      0 < up.outstandingDemand

/-- which commands are on their way, and what the stages look like -/
structure Wired (sys : System V S) (p q c : StageLoop V S) (d : Nat) : Prop where
  stage0 : sys.stage 0 = some p
  stage1 : sys.stage 1 = some q
  stage2 : sys.stage 2 = some c
  producer : ProducerShape P.first 1 p
  middle : MiddleShape P.first P.second 0 2 d q
  consumer : ConsumerShape P.second 1 c
  queue0 : ∀ cmd ∈ sys.queue 0, ∃ n, cmd = .askDemand P.first n
  queue1 : ∀ cmd ∈ sys.queue 1, cmd = .subscriptionConfirmed P.first 0 P.firstOpts ∨
    (∃ n, cmd = .askDemand P.second n) ∨ ∃ events, events ≠ [] ∧ cmd = .events P.first events
  queue2 : ∀ cmd ∈ sys.queue 2, cmd = .subscriptionConfirmed P.second 1 P.secondOpts ∨
    ∃ events, cmd = .events P.second events
  confirmed1 : (q.ls.upstreams.lookup P.first).isSome ∨
    .subscriptionConfirmed P.first 0 P.firstOpts ∈ sys.queue 1
  confirmed2 : (c.ls.upstreams.lookup P.second).isSome ∨
    .subscriptionConfirmed P.second 1 P.secondOpts ∈ sys.queue 2
  others : ∀ id, 2 < id → sys.queue id = []

/-- what a command in the channel of the middle stage can still cause further up -/
def upWeight : StageCommand V → Nat
  | .askDemand _ n => 1 + 2 * n
  | .subscriptionConfirmed _ _ _ => 3
  | _ => 1

/-- goes down with every step of the producer and the middle stage -/
def upRank (sys : System V S) (d : Nat) : Nat :=
  2 * (sys.queue 0).length + ((sys.queue 1).map upWeight).sum + 2 * d

/-- the producer is idle, and the middle stage only has demand to handle -/
def Quiet (sys : System V S) : Prop :=
  sys.queue 0 = [] ∧ ∀ cmd ∈ sys.queue 1, ∃ n, cmd = .askDemand P.second n

def downRank (sys : System V S) (q : StageLoop V S) : Nat :=
  2 * q.ls.eventBuffer.length + (sys.queue 1).length + 2 * (sys.queue 2).length

variable {P} {sys : System V S} {p q c : StageLoop V S}

variable (P) in
/-- what the stages send each other once the subscriptions are accepted -/
inductive Due : StageId → StageCommand V → Prop where
  | ask0 (n : Nat) : Due 0 (.askDemand P.first n)
  | ask1 (n : Nat) : Due 1 (.askDemand P.second n)
  | events1 {events : List V} : events ≠ [] → Due 1 (.events P.first events)
  | events2 (events : List V) : Due 2 (.events P.second events)

variable {rest : List (StageCommand V)} {cmd : StageCommand V} {p' q' c' st' : StageLoop V S} {d' : Nat}

theorem Wired.after (h : P.Wired sys p q c d) (hq : sys.queue k = cmd :: rest)
    (h0 : (sys.after k rest st').stage 0 = some p') (h1 : (sys.after k rest st').stage 1 = some q')
    (h2 : (sys.after k rest st').stage 2 = some c') (hp : ProducerShape P.first 1 p')
    (hm : MiddleShape P.first P.second 0 2 d' q') (hc : ConsumerShape P.second 1 c')
    (hsent : ∀ out ∈ st'.sent, P.Due out.1 out.2)
    (hc1 : (q.ls.upstreams.lookup P.first).isSome ∨
      k = 1 ∧ cmd = .subscriptionConfirmed P.first 0 P.firstOpts →
        (q'.ls.upstreams.lookup P.first).isSome)
    (hc2 : (c.ls.upstreams.lookup P.second).isSome ∨
      k = 2 ∧ cmd = .subscriptionConfirmed P.second 1 P.secondOpts →
        (c'.ls.upstreams.lookup P.second).isSome) :
    P.Wired (sys.after k rest st') p' q' c' d' := by
  have hcases : ∀ {j cmd₁}, cmd₁ ∈ (sys.after k rest st').queue j → cmd₁ ∈ sys.queue j ∨ P.Due j cmd₁ :=
    fun hmem => (System.mem_queue_after hq hmem).imp_right (hsent _)
  refine ⟨h0, h1, h2, hp, hm, hc, fun cmd₁ hmem => ?_, fun cmd₁ hmem => ?_, fun cmd₁ hmem => ?_, ?_, ?_,
    fun j hj => List.eq_nil_iff_forall_not_mem.mpr fun cmd₁ hmem => ?_⟩
  · rcases hcases hmem with hold | hnew
    · exact h.queue0 cmd₁ hold
    · cases hnew
      exact ⟨_, rfl⟩
  · rcases hcases hmem with hold | hnew
    · exact h.queue1 cmd₁ hold
    · cases hnew with
      | ask1 n => exact Or.inr (Or.inl ⟨n, rfl⟩)
      | events1 hne => exact Or.inr (Or.inr ⟨_, hne, rfl⟩)
  · rcases hcases hmem with hold | hnew
    · exact h.queue2 cmd₁ hold
    · cases hnew
      exact Or.inr ⟨_, rfl⟩
  · rcases h.confirmed1 with hsome | hmem
    · exact Or.inl (hc1 (Or.inl hsome))
    · exact (System.mem_after_of_mem hq hmem).imp_left fun heq =>
        hc1 (Or.inr ⟨heq.1.symm, heq.2.symm⟩)
  · rcases h.confirmed2 with hsome | hmem
    · exact Or.inl (hc2 (Or.inl hsome))
    · exact (System.mem_after_of_mem hq hmem).imp_left fun heq =>
        hc2 (Or.inr ⟨heq.1.symm, heq.2.symm⟩)
  · rcases hcases hmem with hold | hnew
    · rw [h.others j hj] at hold
      cases hold
    · cases hnew <;> exact absurd hj (by decide)

theorem Wired.step0 (h : P.Wired sys p q c d) (hq : sys.queue 0 = cmd :: rest) :
    ∃ p', P.Wired (sys.after 0 rest p') p' q c d ∧
      sys.handle P.impl .clear 0 = some (sys.after 0 rest p') ∧
      upRank (sys.after 0 rest p') d < upRank sys d := by
  obtain ⟨n, rfl⟩ := h.queue0 cmd (by rw [hq]; exact List.mem_cons_self)
  have hshape : ProducerShape P.first 1 ({ p with sent := [] } : StageLoop V S) :=
    ⟨h.producer.lone, h.producer.stageType, h.producer.upstream, h.producer.buffer⟩
  obtain ⟨p', hp', hshape', hout⟩ := hshape.ask P.produces rfl n
  have hhandle : sys.handle P.impl .clear 0 = some (sys.after 0 rest p') :=
    hp' ▸ System.handle_eq h.stage0 hq
  refine ⟨p', h.after hq rfl h.stage1 h.stage2 hshape' h.middle h.consumer ?_
    (fun hc => hc.resolve_right nofun) (fun hc => hc.resolve_right nofun), hhandle, ?_⟩
  · rcases hout with hnil | ⟨events, hne, hev⟩
    · rw [hnil]
      nofun
    · rw [hev]
      exact List.forall_mem_singleton.mpr (.events1 hne)
  · rcases hout with hnil | ⟨events, -, hev⟩
    · simp [upRank, System.after, hq, hnil, addressed]
    · simp [upRank, System.after, hq, hev, addressed, upWeight]
      omega

variable (P) in
/-- the middle stage handles its next command, which can cause less than itself; in a quiet state it
stays quiet -/
def Advances (sys : System V S) (p q c : StageLoop V S) (d : Nat) (rest : List (StageCommand V)) :
    Prop :=
  ∃ q' d', P.Wired (sys.after 1 rest q') p q' c d' ∧
    sys.handle P.impl .clear 1 = some (sys.after 1 rest q') ∧
    upRank (sys.after 1 rest q') d' < upRank sys d ∧
    (P.Quiet sys → P.Quiet (sys.after 1 rest q') ∧
      downRank (sys.after 1 rest q') q' < downRank sys q)

theorem Wired.middleShape (h : P.Wired sys p q c d) :
    MiddleShape P.first P.second 0 2 d ({ q with sent := [] } : StageLoop V S) :=
  ⟨h.middle.lone, h.middle.stageType, h.middle.notUp, h.middle.up⟩

theorem Quiet.head (h : P.Quiet sys) (hq : sys.queue 1 = cmd :: rest) :
    ∃ n, cmd = .askDemand P.second n :=
  h.2 cmd (by rw [hq]; exact List.mem_cons_self)

theorem Wired.advances (h : P.Wired sys p q c d) (hq : sys.queue 1 = cmd :: rest)
    (hq' : StageLoop.handle (P.impl 1) 1 .clear { q with sent := [] } cmd = q')
    (hm : MiddleShape P.first P.second 0 2 d' q')
    (hsent : ∀ out ∈ q'.sent, P.Due out.1 out.2) (hs1 : addressed 1 q'.sent = [])
    (hc1 : (q.ls.upstreams.lookup P.first).isSome ∨
      cmd = .subscriptionConfirmed P.first 0 P.firstOpts → (q'.ls.upstreams.lookup P.first).isSome)
    (hlt : 2 * (addressed 0 q'.sent).length + 2 * d' < upWeight cmd + 2 * d)
    (hquiet : P.Quiet sys → addressed 0 q'.sent = [] ∧
      q'.ls.eventBuffer.length + (addressed 2 q'.sent).length ≤ q.ls.eventBuffer.length) :
    P.Advances sys p q c d rest := by
  refine ⟨q', d', h.after hq h.stage0 rfl h.stage2 h.producer hm h.consumer hsent
    (fun hc => hc1 (hc.imp_right And.right)) (fun hc => hc.resolve_right nofun),
    hq' ▸ System.handle_eq h.stage1 hq, ?_, fun hs => ⟨⟨?_, ?_⟩, ?_⟩⟩
  · simp [upRank, System.after, hq, hs1]
    omega
  · simp [System.after, hs.1, (hquiet hs).1]
  · rw [System.after_queue_self, hs1, List.append_nil]
    exact fun cmd hc => hs.2 cmd (by rw [hq]; exact List.mem_cons_of_mem _ hc)
  · have hle := (hquiet hs).2
    simp [downRank, System.after, hq, hs1]
    omega

theorem Wired.step1_confirmed (h : P.Wired sys p q c d)
    (hq : sys.queue 1 = .subscriptionConfirmed P.first 0 P.firstOpts :: rest) :
    P.Advances sys p q c d rest := by
  obtain ⟨q', n, hq', hm, hsome, hsent⟩ := h.middleShape.confirmed P.distinct P.firstOpts
    (P.automatic 1 (Or.inl rfl) _ _ _ _) rfl
  refine h.advances hq hq' hm ?_ ?_ (fun _ => hsome) ?_ fun hquiet => ?_
  · rw [hsent]
    exact List.forall_mem_singleton.mpr (.ask0 n)
  · rw [hsent]
    rfl
  · rw [hsent]
    show 2 * 1 + 2 * d < 3 + 2 * d
    omega
  · obtain ⟨n, hn⟩ := hquiet.head hq
    cases hn

theorem Wired.step1_ask (h : P.Wired sys p q c d) {n : Nat}
    (hq : sys.queue 1 = .askDemand P.second n :: rest) : P.Advances sys p q c d rest := by
  obtain ⟨q', d', batch, hq', hm, hle, hups, hsent, hbuf⟩ := h.middleShape.ask (P.impl 1) rfl n
  obtain ⟨htoward, hevents, hlen⟩ := toward_batchTo 2 P.second batch
  have hs0 : addressed 0 q'.sent = [] := hsent ▸ htoward.addressed_of_ne (by decide)
  refine h.advances hq hq' hm (fun out hout => ?_) ?_ (fun hc => ?_) ?_ fun _ => ⟨hs0, ?_⟩
  · rw [hsent] at hout
    rw [hevents out hout]
    exact .events2 batch
  · rw [hsent]
    exact htoward.addressed_of_ne (by decide)
  · rw [hups]
    exact hc.resolve_right nofun
  · rw [hs0]
    show 2 * 0 + 2 * d' < 1 + 2 * n + 2 * d
    omega
  · rw [hsent]
    exact (Nat.add_le_add_left hlen _).trans (Nat.le_of_eq hbuf)

theorem Wired.step1_events (h : P.Wired sys p q c d) {events : List V} (hne : events ≠ [])
    (hq : sys.queue 1 = .events P.first events :: rest) : P.Advances sys p q c d rest := by
  obtain ⟨q', d', passed, asked, hq', hm, hle, hups, hsent, hasked⟩ :=
    h.middleShape.events P.distinct P.oneForOne rfl hne
  obtain ⟨htoward, hevents, -⟩ := toward_batchTo 2 P.second passed
  obtain ⟨hup, hdue, hrank⟩ : Toward 0 asked ∧ (∀ out ∈ asked, P.Due out.1 out.2) ∧
      2 * (addressed 0 asked).length + 2 * d' < 1 + 2 * d := by
    rcases hasked with hnil | ⟨hlt, n, hn⟩
    · rw [hnil]
      exact ⟨toward_nil 0, nofun, by simp [addressed]; omega⟩
    · rw [hn]
      exact ⟨toward_single 0 _, List.forall_mem_singleton.mpr (.ask0 n), by simp [addressed]; omega⟩
  refine h.advances hq hq' hm (fun out hout => ?_) ?_ (fun hc => ?_) ?_ fun hquiet => ?_
  · rw [hsent] at hout
    rcases List.mem_append.mp hout with hout | hout
    · rw [hevents out hout]
      exact .events2 passed
    · exact hdue out hout
  · rw [hsent, addressed_append, htoward.addressed_of_ne (by decide), hup.addressed_of_ne (by decide)]
    rfl
  · rw [hups]
    exact hc.resolve_right nofun
  · rw [hsent, addressed_append, htoward.addressed_of_ne (by decide)]
    exact hrank
  · obtain ⟨n, hn⟩ := hquiet.head hq
    cases hn

theorem Wired.step1 (h : P.Wired sys p q c d) (hq : sys.queue 1 = cmd :: rest) :
    P.Advances sys p q c d rest := by
  rcases h.queue1 cmd (by rw [hq]; exact List.mem_cons_self) with heq | ⟨n, heq⟩ | ⟨events, hne, heq⟩
  · exact h.step1_confirmed (heq ▸ hq)
  · exact h.step1_ask (heq ▸ hq)
  · exact h.step1_events hne (heq ▸ hq)

theorem Wired.step2 (h : P.Wired sys p q c d) (hq : sys.queue 2 = cmd :: rest) :
    ∃ c', P.Wired (sys.after 2 rest c') p q c' d ∧
      sys.handle P.impl .clear 2 = some (sys.after 2 rest c') ∧
      (P.Quiet sys → P.Quiet (sys.after 2 rest c') ∧
        downRank (sys.after 2 rest c') q < downRank sys q) := by
  have hshape : ConsumerShape P.second 1 ({ c with sent := [] } : StageLoop V S) :=
    ⟨h.consumer.stageType, h.consumer.up⟩
  obtain ⟨c', hc', hcs, hconf, hsent⟩ : ∃ c', StageLoop.handle (P.impl 2) 2 .clear
      { c with sent := [] } cmd = c' ∧ ConsumerShape P.second 1 c' ∧
      ((c.ls.upstreams.lookup P.second).isSome ∨
        2 = 2 ∧ cmd = .subscriptionConfirmed P.second 1 P.secondOpts →
          (c'.ls.upstreams.lookup P.second).isSome) ∧
      (c'.sent = [] ∨ ∃ n, c'.sent = [(1, .askDemand P.second n)]) := by
    rcases h.queue2 cmd (by rw [hq]; exact List.mem_cons_self) with rfl | ⟨events, rfl⟩
    · obtain ⟨c', n, hc', hcs, hsome, hn⟩ := hshape.confirmed rfl P.secondOpts
        (P.automatic 2 (Or.inr rfl) _ _ _ _)
      exact ⟨c', hc', hcs, fun _ => hsome, Or.inr ⟨n, hn⟩⟩
    · obtain ⟨c', hc', hcs, hups, hout⟩ := hshape.events rfl (P.impl 2) events
      exact ⟨c', hc', hcs, fun hc => hups.trans (hc.resolve_right nofun), hout⟩
  obtain ⟨htoward, hasks, hlen⟩ : Toward 1 c'.sent ∧
      (∀ out ∈ c'.sent, ∃ n, out = (1, .askDemand P.second n)) ∧ c'.sent.length ≤ 1 := by
    rcases hsent with hnil | ⟨n, hn⟩
    · rw [hnil]
      exact ⟨toward_nil 1, nofun, Nat.zero_le 1⟩
    · rw [hn]
      exact ⟨toward_single 1 _, List.forall_mem_singleton.mpr ⟨n, rfl⟩, Nat.le_refl 1⟩
  refine ⟨c', h.after hq h.stage0 h.stage1 rfl h.producer h.middle hcs (fun out hout => ?_)
    (fun hc => hc.resolve_right nofun) hconf, hc' ▸ System.handle_eq h.stage2 hq,
    fun hquiet => ⟨⟨?_, ?_⟩, ?_⟩⟩
  · obtain ⟨n, rfl⟩ := hasks out hout
    exact .ask1 n
  · simp [System.after, hquiet.1, htoward.addressed_of_ne]
  · intro cmd₁ hmem
    rcases System.mem_queue_after hq hmem with hold | hnew
    · exact hquiet.2 cmd₁ hold
    · obtain ⟨n, hn⟩ := hasks _ hnew
      exact ⟨n, (Prod.mk.inj hn).2⟩
  · have hone : (addressed 1 c'.sent).length ≤ 1 := (List.length_filterMap_le _ _).trans hlen
    simp [downRank, System.after, hq, htoward.addressed_of_ne]
    omega

/-! ## runs -/

theorem wired_start (h : P.machine.start sys) : ∃ p q c d, P.Wired sys p q c d := by
  cases h
  refine ⟨_, _, _, 0, rfl, rfl, rfl, ⟨⟨0, rfl, rfl, AList.lookup_insert _⟩, rfl, rfl, rfl⟩,
    ⟨⟨rfl, rfl, AList.lookup_insert _⟩, rfl, rfl, nofun⟩, ⟨rfl, nofun⟩, nofun,
    List.forall_mem_singleton.mpr (Or.inl rfl), List.forall_mem_singleton.mpr (Or.inl rfl),
    Or.inr (List.mem_singleton_self _), Or.inr (List.mem_singleton_self _), fun id hid => ?_⟩
  match id, hid with
  | n + 3, _ => rfl

theorem wired_of_reach (h : P.machine.Reach Machine.Anytime sys) :
    ∃ p q c d, P.Wired sys p q c d := by
  refine Machine.Reach.inv (I := fun sys => ∃ p q c d, P.Wired sys p q c d) ?_ ?_ h
  · exact fun sys hsys => wired_start hsys
  · rintro sys id sys' ⟨p, q, c, d, hw⟩ _ (hn : sys.handle P.impl .clear id = some sys')
    obtain ⟨st, cmd, rest, hst, hq, -⟩ := System.handle_cases hn
    match id with
    | 0 =>
      obtain ⟨p', hw', hh, -⟩ := hw.step0 hq
      rw [hh] at hn
      cases hn
      exact ⟨p', q, c, d, hw'⟩
    | 1 =>
      obtain ⟨q', d', hw', hh, -⟩ := hw.step1 hq
      rw [hh] at hn
      cases hn
      exact ⟨p, q', c, d', hw'⟩
    | 2 =>
      obtain ⟨c', hw', hh, -⟩ := hw.step2 hq
      rw [hh] at hn
      cases hn
      exact ⟨p, q, c', d, hw'⟩
    | n + 3 =>
      rw [hw.others (n + 3) (Nat.le_add_left 3 n)] at hq
      cases hq

theorem Wired.starve (h : P.Wired sys p q c d) : ∃ ids sys', P.machine.run sys ids = some sys' ∧
    ∃ p' q' d', P.Wired sys' p' q' c d' ∧ P.Quiet sys' := by
  refine Machine.exists_run_of_measure
    (I := fun n sys => ∃ p q d, P.Wired sys p q c d ∧ upRank sys d = n) ?_ ⟨p, q, d, h, rfl⟩
  rintro _ sys ⟨p, q, d, h, rfl⟩
  cases h0 : sys.queue 0 with
  | cons cmd rest =>
    obtain ⟨p', hw, hh, hlt⟩ := h.step0 h0
    exact Or.inr ⟨0, _, _, hh, hlt, p', q, d, hw, rfl⟩
  | nil =>
    cases h1 : sys.queue 1 with
    | cons cmd rest =>
      obtain ⟨q', d', hw, hh, hlt, -⟩ := h.step1 h1
      exact Or.inr ⟨1, _, _, hh, hlt, p, q', d', hw, rfl⟩
    | nil =>
      refine Or.inl ⟨p, q, d, h, h0, ?_⟩
      rw [h1]
      nofun

/-- from a quiet state the middle stage and the consumer run out of commands, and the producer is
not asked again -/
theorem Wired.finish (h : P.Wired sys p q c d) (hquiet : P.Quiet sys) :
    ∃ ids sys', P.machine.run sys ids = some sys' ∧ ∃ q' c' d', P.Wired sys' p q' c' d' ∧
      sys'.queue 0 = [] ∧ sys'.queue 1 = [] ∧ sys'.queue 2 = [] := by
  refine Machine.exists_run_of_measure (I := fun n sys => ∃ q c d,
    P.Wired sys p q c d ∧ P.Quiet sys ∧ downRank sys q = n) ?_ ⟨q, c, d, h, hquiet, rfl⟩
  rintro _ sys ⟨q, c, d, h, hquiet, rfl⟩
  cases h1 : sys.queue 1 with
  | cons cmd rest =>
    obtain ⟨q', d', hw, hh, -, hdown⟩ := h.step1 h1
    obtain ⟨hquiet', hlt⟩ := hdown hquiet
    exact Or.inr ⟨1, _, _, hh, hlt, q', c, d', hw, hquiet', rfl⟩
  | nil =>
    cases h2 : sys.queue 2 with
    | cons cmd rest =>
      obtain ⟨c', hw, hh, hdown⟩ := h.step2 h2
      obtain ⟨hquiet', hlt⟩ := hdown hquiet
      exact Or.inr ⟨2, _, _, hh, hlt, q, c', d, hw, hquiet', rfl⟩
    | nil => exact Or.inl ⟨q, c, d, h, hquiet.1, rfl, rfl⟩

/-- **From every state it can reach, the pipeline can come to a standstill: no command is on its
way and the consumer still has demand.** -/
theorem can_stick (h : P.machine.Reach Machine.Anytime sys) :
    ∃ ids sys', P.machine.run sys ids = some sys' ∧ P.Stuck sys' := by
  obtain ⟨p, q, c, d, hw⟩ := wired_of_reach h
  obtain ⟨ids₁, mid, hrun₁, p₁, q₁, d₁, hw₁, hquiet⟩ := hw.starve
  obtain ⟨ids₂, sys', hrun₂, q₂, c₂, d₂, hw₂, h0, h1, h2⟩ := hw₁.finish hquiet
  have hrun : P.machine.run sys (ids₁ ++ ids₂) = some sys' := by
    rw [Machine.run_append, hrun₁]
    exact hrun₂
  have hq : (q₂.ls.upstreams.lookup P.first).isSome := by
    refine hw₂.confirmed1.resolve_right fun hc => ?_
    rw [h1] at hc
    cases hc
  have hc : (c₂.ls.upstreams.lookup P.second).isSome := by
    refine hw₂.confirmed2.resolve_right fun hc => ?_
    rw [h2] at hc
    cases hc
  obtain ⟨up, hup⟩ := Option.isSome_iff_exists.mp hc
  obtain ⟨-, -, hhungry⟩ := hw₂.consumer.up up hup
  refine ⟨_, sys', hrun, fun id => ?_, ⟨q₂, hw₂.stage1, hq⟩, c₂, up, hw₂.stage2, hup,
    hhungry.outstanding_pos⟩
  match id with
  | 0 => exact h0
  | 1 => exact h1
  | 2 => exact h2
  | n + 3 => exact hw₂.others (n + 3) (Nat.le_add_left 3 n)

/-- stages that produce zeros and pass them on, with windows of five events -/
private def zeros : Pipeline Nat Unit where
  impl := fun _ => {
    handleDemand := fun n _ => ((), List.replicate n 0)
    handleEvents := fun events _ _ => ((), events)
    handleSubscribe := fun _ _ _ _ => ((), .automatic)
    handleCancel := fun _ _ _ => ()
    handleCall := fun _ _ => ((), [])
    handleCast := fun _ _ => ((), []) }
  user := fun _ => ()
  first := 1
  second := 2
  firstOpts := ⟨5, 3, by decide, by decide⟩
  secondOpts := ⟨5, 3, by decide, by decide⟩
  distinct := by decide
  produces := fun n _ => List.length_replicate
  oneForOne := fun _ _ _ => rfl
  automatic := fun _ _ _ _ _ _ => rfl

private theorem zeros_start : ∃ sys, zeros.machine.start sys := ⟨_, rfl⟩

/-- even before the first command is handled -/
theorem can_stick_zeros : ∃ sys, zeros.machine.start sys ∧
    ∃ ids sys', zeros.machine.run sys ids = some sys' ∧ zeros.Stuck sys' := by
  obtain ⟨sys, hsys⟩ := zeros_start
  exact ⟨sys, hsys, can_stick (.start hsys)⟩

/-- both subscriptions are confirmed, five events go through, the consumer asks for five more, and
nobody passes that on to the producer -/
theorem zeros_stick : ∃ sys, zeros.machine.Reach Machine.Anytime sys ∧ zeros.Stuck sys := by
  obtain ⟨start, hstart⟩ := zeros_start
  have hstart' : start = ((zeros.unwired.handle zeros.impl .clear 0).bind
      fun mid => mid.handle zeros.impl .clear 1).get (by decide) :=
    (Option.get_of_eq_some _ hstart).symm
  obtain ⟨sys, hsys, h0, h1, h2, hq, c, hc, up, hup, hpos⟩ :=
    (Machine.Reach.start hstart).exists_run [1, 2, 0, 1, 1, 2, 1]
      (p := fun sys => sys.queue 0 = [] ∧ sys.queue 1 = [] ∧ sys.queue 2 = [] ∧
        (∃ q ∈ sys.stage 1, (q.ls.upstreams.lookup 1).isSome) ∧
        ∃ c ∈ sys.stage 2, ∃ up ∈ c.ls.upstreams.lookup 2, 0 < up.outstandingDemand)
      (by rw [hstart']; decide)
  obtain ⟨_, _, _, _, hw⟩ := wired_of_reach hsys
  refine ⟨sys, hsys, fun id => ?_, hq, c, up, hc, hup, hpos⟩
  match id with
  | 0 => exact h0
  | 1 => exact h1
  | 2 => exact h2
  | n + 3 => exact hw.others (n + 3) (Nat.le_add_left 3 n)

end Pipeline
end Rebar.Stage

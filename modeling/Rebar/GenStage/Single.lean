import Rebar.GenStage.Broadcast

/-!
# Stages with one subscriber

A stage with the demand dispatcher and a single subscription.  What it emits goes to the subscriber
up to its demand, and the rest waits in the buffer.  What bounces off a full channel waits there too,
behind what was left over, and the demand it had is gone.

* `Lone.dispatch_chan`, `Lone.drain_chan`   what a dispatch does, whatever the channel.
-/

namespace Rebar.Stage

variable {V S : Type}

/-! ## a stage with one subscriber -/

def batchTo (k : StageId) (tag : SubscriptionTag) (batch : List V) :
    List (StageId × StageCommand V) :=
  if batch.isEmpty then [] else [(k, .events tag batch)]

theorem batchTo_cases (k : StageId) (tag : SubscriptionTag) (batch : List V) :
    batch = [] ∧ batchTo k tag batch = [] ∨
      batch ≠ [] ∧ batchTo k tag batch = [(k, .events tag batch)] := by
  cases batch with
  | nil => exact Or.inl ⟨rfl, rfl⟩
  | cons e es => exact Or.inr ⟨List.cons_ne_nil e es, rfl⟩

theorem batchTo_of_ne {k : StageId} {tag : SubscriptionTag} {batch : List V} (h : batch ≠ []) :
    batchTo k tag batch = [(k, .events tag batch)] :=
  if_neg (by rwa [List.isEmpty_iff])

theorem received_batchTo (k : StageId) (tag : SubscriptionTag) (batch : List V) :
    received (batchTo k tag batch) tag = batch := by
  rcases batchTo_cases k tag batch with ⟨hnil, hout⟩ | ⟨-, hout⟩
  · rw [hout, hnil]
    rfl
  · rw [hout]
    simp [received, StageCommand.eventsFor]

/-- `k` is the only subscriber, under `tag` and with demand `d` -/
structure Lone (tag : SubscriptionTag) (k : StageId) (d : Nat) (ls : LoopState V) : Prop where
  dispatcher : ls.dispatcher = .demand
  demands : ls.consumerDemands = [⟨tag, d⟩]
  downstream : ls.downstreams.lookup tag = some ⟨k⟩

def TrySend.passed (r : TrySend) (batch : List V) : List V := if r = .ok then batch else []

def TrySend.bounced (r : TrySend) (batch : List V) : List V := if r = .ok then [] else batch

theorem TrySend.passed_nil (r : TrySend) : r.passed ([] : List V) = [] := by
  cases r <;> rfl

theorem TrySend.bounced_nil (r : TrySend) : r.bounced ([] : List V) = [] := by
  cases r <;> rfl

variable {tag : SubscriptionTag} {k : StageId} {d : Nat} {st : StageLoop V S}
  {chan : SubscriptionTag → TrySend}

theorem deliver_chan (st : StageLoop V S) (hdown : st.ls.downstreams.lookup tag = some ⟨k⟩)
    (hopen : chan tag ≠ .closed) (batch : List V) :
    st.deliver chan (if batch.isEmpty then [] else [(tag, batch)])
      = ({ st with
          ls := st.ls.bufferLeftover ((chan tag).bounced batch)
          sent := st.sent ++ batchTo k tag ((chan tag).passed batch) }, []) := by
  cases batch with
  | nil =>
    cases chan tag <;> rfl
  | cons e es =>
    have hdel : deliverEvents st.ls.downstreams chan [(tag, e :: es)]
        = ⟨(chan tag).bounced (e :: es), [], batchTo k tag ((chan tag).passed (e :: es))⟩ := by
      unfold deliverEvents
      rw [hdown]
      cases hr : chan tag with
      | ok => rfl
      | full =>
        show Delivered.mk (e :: es ++ []) [] [] = _
        rw [List.append_nil]
        rfl
      | closed => exact absurd hr hopen
    show (({ st with
      ls := st.ls.bufferLeftover (deliverEvents st.ls.downstreams _ [(tag, e :: es)]).undelivered
      sent := st.sent ++ (deliverEvents st.ls.downstreams _ [(tag, e :: es)]).sent } :
        StageLoop V S), (deliverEvents st.ls.downstreams _ [(tag, e :: es)]).dead) = _
    rw [hdel]

theorem bufferLeftover_demands (ls : LoopState V) (subs : List ConsumerDemand) (xs : List V) :
    LoopState.bufferLeftover { ls with consumerDemands := subs } xs
      = { ls with consumerDemands := subs, eventBuffer := (ls.bufferLeftover xs).eventBuffer } := by
  cases xs with
  | nil => rfl
  | cons x xs => rfl

theorem Lone.dispatched (h : Lone tag k d st.ls) (events : List V) :
    st.ls.dispatcher.dispatch events st.ls.consumerDemands
      = ([⟨tag, d - events.length⟩],
        ⟨if (events.take d).isEmpty then [] else [(tag, events.take d)], events.drop d⟩) := by
  rw [h.dispatcher, h.demands]
  exact demandDispatch_single events tag d

variable {events : List V} {ls : LoopState V}

theorem Lone.dispatch_chan (h : Lone tag k d st.ls) (hopen : chan tag ≠ .closed) (hne : events ≠ []) :
    st.dispatchAndDeliver chan events = ({ st with
      ls := { st.ls with
        consumerDemands := [⟨tag, d - events.length⟩]
        eventBuffer := ((st.ls.bufferLeftover (events.drop d)).bufferLeftover
          ((chan tag).bounced (events.take d))).eventBuffer }
      sent := st.sent ++ batchTo k tag ((chan tag).passed (events.take d))
      emitted := st.emitted ++ events }, []) := by
  unfold StageLoop.dispatchAndDeliver
  rw [if_neg (by rw [List.isEmpty_iff]; exact hne), h.dispatched]
  dsimp only
  rw [bufferLeftover_demands]
  refine (deliver_chan (k := k) _ ?_ hopen _).trans ?_
  · exact h.downstream
  · cases hb : (chan tag).bounced (events.take d) with
    | nil => rfl
    | cons x xs =>
      cases events.drop d with
      | nil => rfl
      | cons y ys => rfl

theorem Lone.dispatch_none_dead (h : Lone tag k d st.ls) (hopen : chan tag ≠ .closed)
    (events : List V) : (st.dispatchAndDeliver chan events).2 = [] := by
  cases events with
  | nil => rfl
  | cons e es => rw [h.dispatch_chan hopen (List.cons_ne_nil e es)]

theorem Lone.drain_chan (h : Lone tag k d st.ls) (impl : GenStage V S) (env : Peers)
    (hopen : env.drain tag ≠ .closed) :
    StageLoop.drainBuffer impl env st = { st with
      ls := { st.ls with
        consumerDemands := [⟨tag, d - st.ls.eventBuffer.length⟩]
        eventBuffer := (LoopState.bufferLeftover
          { st.ls with eventBuffer := st.ls.eventBuffer.drop d }
          ((env.drain tag).bounced (st.ls.eventBuffer.take d))).eventBuffer }
      sent := st.sent ++ batchTo k tag ((env.drain tag).passed (st.ls.eventBuffer.take d)) } := by
  unfold StageLoop.drainBuffer
  split
  next hempty =>
    have hnil := List.isEmpty_iff.mp hempty
    have hdem := h.demands
    obtain ⟨user, ⟨disp, ups, downs, demands, buffer, type⟩, sent, emitted⟩ := st
    cases hnil
    cases hdem
    rw [List.take_nil, List.drop_nil, TrySend.passed_nil, TrySend.bounced_nil]
    show _ = ({ user := user, ls := _, sent := sent ++ [], emitted := emitted } : StageLoop V S)
    rw [List.append_nil]
    rfl
  next =>
    rw [h.dispatched]
    dsimp only
    refine (congrArg (StageLoop.cleanupDeadDownstreams impl)
      (deliver_chan (k := k) _ ?_ hopen _)).trans ?_
    · exact h.downstream
    · cases (env.drain tag).bounced (st.ls.eventBuffer.take d) with
      | nil => rfl
      | cons x xs => rfl

theorem Lone.dispatch (h : Lone tag k d st.ls) (hne : events ≠ []) :
    st.dispatchAndDeliver (fun _ => .ok) events = ({ st with
      ls := { st.ls with
        consumerDemands := [⟨tag, d - events.length⟩]
        eventBuffer := (st.ls.bufferLeftover (events.drop d)).eventBuffer }
      sent := st.sent ++ batchTo k tag (events.take d)
      emitted := st.emitted ++ events }, []) := by
  have hopen : TrySend.ok ≠ .closed := nofun
  exact h.dispatch_chan hopen hne

theorem Lone.drain (h : Lone tag k d st.ls) (impl : GenStage V S) :
    StageLoop.drainBuffer impl .clear st = { st with
      ls := { st.ls with
        consumerDemands := [⟨tag, d - st.ls.eventBuffer.length⟩]
        eventBuffer := st.ls.eventBuffer.drop d }
      sent := st.sent ++ batchTo k tag (st.ls.eventBuffer.take d) } := by
  have hopen : TrySend.ok ≠ .closed := nofun
  exact h.drain_chan impl .clear hopen

theorem Lone.addDemand (h : Lone tag k d ls) (n : Nat) :
    ls.addDemand tag n = { ls with consumerDemands := [⟨tag, (d + n) % usizeSize⟩] } := by
  unfold LoopState.addDemand
  rw [h.demands]
  simp

theorem Lone.totalDemand (h : Lone tag k d ls) : ls.totalDownstreamDemand = d % usizeSize := by
  unfold LoopState.totalDownstreamDemand
  rw [h.demands]
  rfl

theorem Lone.update (h : Lone tag k d ls) (d' : Nat) (buffer : List V) :
    Lone tag k d' { ls with consumerDemands := [⟨tag, d'⟩], eventBuffer := buffer } :=
  ⟨h.dispatcher, rfl, h.downstream⟩

theorem Lone.ask (h : Lone tag k d st.ls) (impl : GenStage V S)
    (hup : st.ls.upstreams.lookup tag = none) (n : Nat) :
    StageLoop.handleAskDemand impl .clear st tag n = StageLoop.produce impl .clear { st with
      ls := { st.ls with
        consumerDemands := [⟨tag, (d + n) % usizeSize - st.ls.eventBuffer.length⟩]
        eventBuffer := st.ls.eventBuffer.drop ((d + n) % usizeSize) }
      sent := st.sent ++ batchTo k tag (st.ls.eventBuffer.take ((d + n) % usizeSize)) } n := by
  have hl : Lone tag k ((d + n) % usizeSize) ({ st with ls := { st.ls with
    consumerDemands := [⟨tag, (d + n) % usizeSize⟩] } } : StageLoop V S).ls := h.update _ _
  rw [StageLoop.handleAskDemand, hup, h.addDemand]
  exact congrArg (StageLoop.produce impl .clear · n) (hl.drain impl)

theorem Lone.addDemand_of_ne (h : Lone tag k d ls) {t : SubscriptionTag} (hne : t ≠ tag) (n : Nat) :
    ls.addDemand t n = ls := by
  obtain ⟨disp, ups, downs, demands, buffer, type⟩ := ls
  have hdem : demands = [⟨tag, d⟩] := h.demands
  unfold LoopState.addDemand
  simp [hdem, hne.symm]

/-! ## events in line -/

theorem TrySend.length_parts (r : TrySend) (d : Nat) (xs : List V) :
    (r.passed (xs.take d)).length + ((xs.drop d).length + (r.bounced (xs.take d)).length)
      = xs.length := by
  cases r <;> simp [TrySend.passed, TrySend.bounced] <;> omega

theorem bufferLeftover_of_le {leftover : List V}
    (h : ls.eventBuffer.length + leftover.length ≤ maxEventBuffer) :
    ls.bufferLeftover leftover = { ls with eventBuffer := ls.eventBuffer ++ leftover } := by
  cases leftover with
  | nil => rw [bufferLeftover_nil, List.append_nil]
  | cons e es =>
    rw [← List.length_append] at h
    show { ls with eventBuffer := LoopState.dropOldest (ls.eventBuffer ++ e :: es) } = _
    unfold LoopState.dropOldest
    rw [if_neg (Nat.not_lt.mpr h)]

/-- events dispatched behind `ahead` stay in line: there is nothing to dispatch, or nobody wants it
yet, or the channel takes it and nothing is ahead, or it refuses it and nothing is left over -/
def InTurn (r : TrySend) (demand : Nat) (ahead events : List V) : Prop :=
  events = [] ∨ demand = 0 ∨ if r = .ok then ahead = [] else events.length ≤ demand

instance (r : TrySend) (demand : Nat) (ahead events : List V) :
    Decidable (InTurn r demand ahead events) := inferInstanceAs (Decidable (_ ∨ _ ∨ _))

theorem InTurn.append {r : TrySend} {ahead : List V} (h : InTurn r d ahead events) :
    r.passed (events.take d) ++ (ahead ++ events.drop d ++ r.bounced (events.take d))
      = ahead ++ events := by
  rcases h with rfl | rfl | h
  · rw [List.take_nil, List.drop_nil, r.passed_nil, r.bounced_nil]
    simp
  · rw [List.take_zero, List.drop_zero, r.passed_nil, r.bounced_nil]
    simp
  · cases r with
    | ok =>
      have hnil : ahead = [] := h
      rw [hnil]
      show events.take d ++ ([] ++ events.drop d ++ []) = [] ++ events
      simp
    | full | closed =>
      have hle : events.length ≤ d := h
      show [] ++ (ahead ++ events.drop d ++ events.take d) = ahead ++ events
      rw [List.drop_eq_nil_of_le hle, List.take_of_length_le hle]
      simp

/-- the events that were emitted and not put into the channel, all of which the buffer has to hold -/
def StageLoop.waiting (st : StageLoop V S) (tag : SubscriptionTag) : Nat :=
  st.emitted.length - (received st.sent tag).length

/-- the subscriber has received what was emitted, up to the buffer -/
structure InLine (tag : SubscriptionTag) (k : StageId) (st : StageLoop V S) : Prop where
  lone : ∃ d < usizeSize, Lone tag k d st.ls
  inLine : received st.sent tag ++ st.ls.eventBuffer = st.emitted
  bounded : st.ls.eventBuffer.length ≤ maxEventBuffer

theorem InLine.length (h : InLine tag k st) :
    st.emitted.length = (received st.sent tag).length + st.ls.eventBuffer.length := by
  rw [← h.inLine, List.length_append]

variable {st' : StageLoop V S}

theorem InLine.same (h : InLine tag k st) (hs : SameEvents st st') : InLine tag k st' := by
  obtain ⟨d, hd, hl⟩ := h.lone
  refine ⟨⟨d, hd, ?_, ?_, ?_⟩, ?_, ?_⟩
  · rw [hs.dispatcher, hl.dispatcher]
  · rw [hs.consumerDemands, hl.demands]
  · rw [hs.downstreams, hl.downstream]
  · rw [hs.received, hs.eventBuffer, hs.emitted, h.inLine]
  · rw [hs.eventBuffer]
    exact h.bounded

/-- the events are in line, unless more of them wait than the buffer may hold -/
def Lined (tag : SubscriptionTag) (k : StageId) (st : StageLoop V S) : Prop :=
  st.waiting tag ≤ maxEventBuffer → InLine tag k st

theorem Lined.same (h : Lined tag k st) (hs : SameEvents st st') : Lined tag k st' := by
  intro hfit
  unfold StageLoop.waiting at hfit
  rw [hs.emitted, hs.received] at hfit
  exact (h hfit).same hs

theorem InLine.dispatch (h : InLine tag k st) (hopen : chan tag ≠ .closed)
    (hturn : InTurn (chan tag) st.ls.totalDownstreamDemand st.ls.eventBuffer events) :
    Lined tag k (st.dispatchAndDeliver chan events).1 := by
  intro hfit
  by_cases hne : events = []
  · rw [hne]
    exact h
  obtain ⟨d, hd, hl⟩ := h.lone
  rw [hl.totalDemand, Nat.mod_eq_of_lt hd] at hturn
  rw [hl.dispatch_chan hopen hne] at hfit ⊢
  have hroom : st.ls.eventBuffer.length + (events.drop d).length
      + ((chan tag).bounced (events.take d)).length ≤ maxEventBuffer := by
    have hlen := h.length
    have hparts := (chan tag).length_parts d events
    have hw : (st.emitted ++ events).length - (received (st.sent ++ batchTo k tag
        ((chan tag).passed (events.take d))) tag).length ≤ maxEventBuffer := hfit
    rw [received_append, received_batchTo, List.length_append, List.length_append] at hw
    omega
  have hbuf : ((st.ls.bufferLeftover (events.drop d)).bufferLeftover
      ((chan tag).bounced (events.take d))).eventBuffer
      = st.ls.eventBuffer ++ events.drop d ++ (chan tag).bounced (events.take d) := by
    have hfirst : st.ls.bufferLeftover (events.drop d)
        = { st.ls with eventBuffer := st.ls.eventBuffer ++ events.drop d } :=
      bufferLeftover_of_le (by omega)
    rw [hfirst, bufferLeftover_of_le]
    rw [List.length_append]
    exact hroom
  refine ⟨⟨d - events.length, by omega, hl.update _ _⟩, ?_, ?_⟩
  · show received (st.sent ++ _) tag ++ _ = st.emitted ++ events
    rw [received_append, received_batchTo, hbuf, List.append_assoc, hturn.append,
      ← List.append_assoc, h.inLine]
  · show (LoopState.eventBuffer _).length ≤ _
    rw [hbuf, List.length_append, List.length_append]
    exact hroom

theorem InTurn.drained {r : TrySend} {buffer : List V} (h : InTurn r d [] buffer) :
    buffer.drop d ++ r.bounced (buffer.take d) = if r = .ok then buffer.drop d else buffer := by
  have happ := h.append
  cases r with
  | ok => exact List.append_nil _
  | full | closed => exact happ

theorem InLine.drain (h : InLine tag k st) (impl : GenStage V S) (env : Peers)
    (hopen : env.drain tag ≠ .closed)
    (hturn : InTurn (env.drain tag) st.ls.totalDownstreamDemand [] st.ls.eventBuffer) :
    InLine tag k (StageLoop.drainBuffer impl env st) ∧
      (StageLoop.drainBuffer impl env st).user = st.user ∧
      (StageLoop.drainBuffer impl env st).ls.stageType = st.ls.stageType ∧
      (StageLoop.drainBuffer impl env st).ls.totalDownstreamDemand
        = st.ls.totalDownstreamDemand - st.ls.eventBuffer.length ∧
      (StageLoop.drainBuffer impl env st).ls.eventBuffer = if env.drain tag = .ok
        then st.ls.eventBuffer.drop st.ls.totalDownstreamDemand else st.ls.eventBuffer := by
  obtain ⟨d, hd, hl⟩ := h.lone
  rw [hl.totalDemand, Nat.mod_eq_of_lt hd] at hturn ⊢
  have hparts := (env.drain tag).length_parts d st.ls.eventBuffer
  have hroom : (st.ls.eventBuffer.drop d).length
      + ((env.drain tag).bounced (st.ls.eventBuffer.take d)).length ≤ maxEventBuffer := by
    have hbound := h.bounded
    omega
  rw [hl.drain_chan impl env hopen, bufferLeftover_of_le hroom]
  have hlone := hl.update (d - st.ls.eventBuffer.length)
    (st.ls.eventBuffer.drop d ++ (env.drain tag).bounced (st.ls.eventBuffer.take d))
  refine ⟨⟨⟨_, by omega, hlone⟩, ?_, ?_⟩, rfl, rfl, ?_, hturn.drained⟩
  · have happ : (env.drain tag).passed (st.ls.eventBuffer.take d) ++ (st.ls.eventBuffer.drop d
        ++ (env.drain tag).bounced (st.ls.eventBuffer.take d)) = st.ls.eventBuffer := hturn.append
    show received (st.sent ++ _) tag ++ (_ ++ _) = st.emitted
    rw [received_append, received_batchTo, List.append_assoc, happ, h.inLine]
  · show (st.ls.eventBuffer.drop d ++ _).length ≤ _
    rw [List.length_append]
    exact hroom
  · rw [hlone.totalDemand]
    exact Nat.mod_eq_of_lt (by omega)

theorem InLine.addDemand (h : InLine tag k st) (t : SubscriptionTag) (n : Nat) :
    InLine tag k { st with ls := st.ls.addDemand t n } := by
  obtain ⟨d, hd, hl⟩ := h.lone
  by_cases heq : t = tag
  · rw [heq, hl.addDemand]
    exact ⟨⟨_, Nat.mod_lt _ (by decide), hl.update _ _⟩, h.inLine, h.bounded⟩
  · rw [hl.addDemand_of_ne heq]
    exact h

/-! ## steps -/

variable (impl : GenStage V S) (self : StageId) (env : Peers)

theorem InLine.emit (h : InLine tag k st) (hopen : chan tag ≠ .closed) (user : S)
    (hturn : InTurn (chan tag) st.ls.totalDownstreamDemand st.ls.eventBuffer events) :
    Lined tag k (StageLoop.cleanupDeadDownstreams impl
      (StageLoop.dispatchAndDeliver { st with user := user } chan events)) := by
  have hu : InLine tag k { st with user := user } :=
    h.same (sameEvents_upstreams st user st.ls.upstreams)
  obtain ⟨d, -, hl⟩ := hu.lone
  rw [cleanupDeadDownstreams_nil impl (hl.dispatch_none_dead hopen events)]
  exact hu.dispatch hopen hturn

theorem InLine.maybeEmit (h : InLine tag k st) (hopen : chan tag ≠ .closed) (user : S)
    (hturn : st.ls.stageType = .producer ∨ st.ls.stageType = .producerConsumer →
      InTurn (chan tag) st.ls.totalDownstreamDemand st.ls.eventBuffer events) :
    Lined tag k (StageLoop.cleanupDeadDownstreams impl
      (StageLoop.maybeDispatchEmitted { st with user := user } chan events)) := by
  unfold StageLoop.maybeDispatchEmitted
  split
  next hemit => exact h.emit impl hopen user (hturn hemit.2)
  next => exact fun _ => h.same (sameEvents_upstreams st user st.ls.upstreams)

theorem InLine.produce (h : InLine tag k st) (hopen : env.fresh tag ≠ .closed) (n : Nat)
    (hturn : st.ls.stageType = .producer → 0 < min n st.ls.totalDownstreamDemand →
      InTurn (env.fresh tag) st.ls.totalDownstreamDemand st.ls.eventBuffer
        (impl.handleDemand (min n st.ls.totalDownstreamDemand) st.user).2) :
    Lined tag k (StageLoop.produce impl env st n) := by
  unfold StageLoop.produce
  dsimp only
  split
  next hwant => exact h.emit impl hopen _ (hturn hwant.1 hwant.2)
  next => exact fun _ => h

/-- what is dispatched while demand is handled: the buffer with the demand after the command, then
what the producer makes with the demand that is left; events that bounced off the channel in between
are still ahead of it -/
def AskInTurn (tag : SubscriptionTag) (env : Peers) (st : StageLoop V S) (demand n : Nat) : Prop :=
  InTurn (env.drain tag) demand [] st.ls.eventBuffer ∧
    (st.ls.stageType = .producer → 0 < min n (demand - st.ls.eventBuffer.length) →
      InTurn (env.fresh tag) (demand - st.ls.eventBuffer.length)
        (if env.drain tag = .ok then [] else st.ls.eventBuffer)
        (impl.handleDemand (min n (demand - st.ls.eventBuffer.length)) st.user).2)

instance (demand n : Nat) : Decidable (AskInTurn impl tag env st demand n) :=
  inferInstanceAs (Decidable (_ ∧ (_ → _ → _)))

theorem InLine.handleAskDemand (h : InLine tag k st) (hdrain : env.drain tag ≠ .closed)
    (hfresh : env.fresh tag ≠ .closed) (t : SubscriptionTag) (n : Nat)
    (hturn : st.ls.upstreams.lookup t = none →
      AskInTurn impl tag env st (st.ls.addDemand t n).totalDownstreamDemand n) :
    Lined tag k (StageLoop.handleAskDemand impl env st t n) := by
  unfold StageLoop.handleAskDemand
  split
  next up _ =>
    split
    · exact fun _ => h.same ((SameEvents.refl st).send _ _ fun _ => rfl)
    · exact fun _ => h.same (sameEvents_upstreams st _ _)
  next hl =>
    obtain ⟨hask, hprod⟩ := hturn hl
    obtain ⟨hline, huser, htype, htotal, hbuf⟩ :=
      (h.addDemand t n).drain impl env hdrain hask
    refine hline.produce impl env hfresh n fun hp hwant => ?_
    rw [htype] at hp
    rw [htotal] at hwant ⊢
    rw [huser, hbuf]
    -- demand is left only if all of the buffer was dispatched
    have hall : st.ls.eventBuffer.drop (st.ls.addDemand t n).totalDownstreamDemand = [] := by
      have hpos := lt_of_lt_of_le hwant (Nat.min_le_right _ _)
      exact List.drop_eq_nil_of_le (Nat.lt_of_sub_pos hpos).le
    have hturn' := hprod hp hwant
    rw [← hall] at hturn'
    exact hturn'

theorem InLine.handleEvents (h : InLine tag k st) (hopen : env.fresh tag ≠ .closed)
    (t : SubscriptionTag) (events : List V)
    (hturn : st.ls.stageType = .producerConsumer →
      InTurn (env.fresh tag) st.ls.totalDownstreamDemand st.ls.eventBuffer
        (impl.handleEvents events t st.user).2) :
    Lined tag k (StageLoop.handleEvents impl env st t events) := by
  unfold StageLoop.handleEvents
  dsimp only
  split
  next hemit =>
    exact (h.emit impl hopen _ (hturn hemit.1)).same (reask_same impl env _ t events)
  next =>
    have hu := h.same (sameEvents_upstreams st (impl.handleEvents events t st.user).1 st.ls.upstreams)
    exact fun _ => hu.same (reask_same impl env _ t events)

/-! ## runs -/

variable (tag k)

/-- the runs of a fresh stage that has handled the subscription of one consumer.  The consumer
lives, its channel may be full at any time, and no more events wait than the buffer may hold. -/
def demandMachine : Machine (StageLoop V S) (Peers × StageCommand V) where
  start st := ∃ env stageType user opts,
    st = StageLoop.handleSubscribe impl self env (.new .demand stageType user) tag k opts
  next st a :=
    match a.2 with
    | .subscribe _ _ _ => none
    | .cancel _ _ => none
    | cmd =>
      let st' := StageLoop.handle impl self a.1 st cmd
      if (a.1.drain tag ≠ .closed ∧ a.1.fresh tag ≠ .closed) ∧ st'.waiting tag ≤ maxEventBuffer
        then some st' else none

/-- the condition on the steps: everything the command makes the stage dispatch is in turn -/
def Orderly (st : StageLoop V S) (a : Peers × StageCommand V) : Prop :=
  match a.2 with
  | .askDemand t n => st.ls.upstreams.lookup t = none →
    AskInTurn impl tag a.1 st (st.ls.addDemand t n).totalDownstreamDemand n
  | .events t events => st.ls.stageType = .producerConsumer →
    InTurn (a.1.fresh tag) st.ls.totalDownstreamDemand st.ls.eventBuffer
      (impl.handleEvents events t st.user).2
  | .call msg => st.ls.stageType = .producer ∨ st.ls.stageType = .producerConsumer →
    InTurn (a.1.fresh tag) st.ls.totalDownstreamDemand st.ls.eventBuffer
      (impl.handleCall msg st.user).2
  | .cast msg => st.ls.stageType = .producer ∨ st.ls.stageType = .producerConsumer →
    InTurn (a.1.fresh tag) st.ls.totalDownstreamDemand st.ls.eventBuffer
      (impl.handleCast msg st.user).2
  | _ => True

instance : ∀ (st : StageLoop V S) (a : Peers × StageCommand V), Decidable (Orderly tag impl st a)
  | _, (_, .askDemand _ _) | _, (_, .events _ _) | _, (_, .call _) | _, (_, .cast _) =>
    inferInstanceAs (Decidable (_ → _))
  | _, (_, .subscribe _ _ _) | _, (_, .cancel _ _) | _, (_, .subscriptionConfirmed _ _ _) =>
    isTrue trivial

variable {impl self tag k}

theorem inLine_start (h : (demandMachine tag k impl self).start st) : InLine tag k st := by
  obtain ⟨env, stageType, user, opts, rfl⟩ := h
  refine InLine.same ?_ ((SameEvents.refl _).told (told_if _ k _) fun _ => rfl)
  exact ⟨⟨0, by decide, rfl, rfl, AList.lookup_insert _⟩, rfl, Nat.zero_le _⟩

theorem inLine_step {a : Peers × StageCommand V} (h : InLine tag k st) (hok : Orderly tag impl st a)
    (hn : (demandMachine tag k impl self).next st a = some st') : InLine tag k st' := by
  obtain ⟨env, cmd⟩ := a
  have hnext : ∀ {st₁ : StageLoop V S},
      (env.drain tag ≠ .closed → env.fresh tag ≠ .closed → Lined tag k st₁) →
      (if (env.drain tag ≠ .closed ∧ env.fresh tag ≠ .closed) ∧
        st₁.waiting tag ≤ maxEventBuffer then some st₁ else none) = some st' → InLine tag k st' := by
    intro st₁ hlined h₁
    obtain ⟨⟨⟨hdrain, hfresh⟩, hfit⟩, heq⟩ := Option.ite_none_right_eq_some.mp h₁
    exact Option.some.inj heq ▸ hlined hdrain hfresh hfit
  cases cmd with
  | subscribe t consumer opts => cases hn
  | cancel t reason => cases hn
  | askDemand t n =>
    exact hnext (fun hdrain hfresh => h.handleAskDemand impl env hdrain hfresh t n hok) hn
  | events t events => exact hnext (fun _ hfresh => h.handleEvents impl env hfresh t events hok) hn
  | call msg | cast msg => exact hnext (fun _ hfresh => h.maybeEmit impl hfresh _ hok) hn
  | subscriptionConfirmed t producer opts =>
    have hs := handleSubscriptionConfirmed_same impl env st t producer opts
    exact hnext (fun _ _ _ => h.same hs) hn

/-- **In every run in which nothing is dispatched out of turn, the subscriber receives a first part
of the events the stage emitted, in the order they were emitted.** -/
theorem demand_in_order (h : (demandMachine tag k impl self).Reach (Orderly tag impl) st) :
    received st.sent tag <+: st.emitted := by
  have hinv : InLine tag k st :=
    h.inv (fun _ hs => inLine_start hs) fun _ _ _ hi hok hn => inLine_step hi hok hn
  exact ⟨st.ls.eventBuffer, hinv.inLine⟩

/-- a stage that emits two events for every demand, and what it is called or cast with -/
private def lonely : StageLoop Nat Unit :=
  StageLoop.handleSubscribe (.echo [1, 2]) 0 .clear (.new .demand .producer ()) 1 10 .default

private theorem lonely_start : (demandMachine 1 10 (.echo [1, 2]) 0).start lonely :=
  ⟨.clear, .producer, (), .default, rfl⟩

private def stuffed : Peers := { Peers.clear with fresh := fun _ => .full }

/-- an event that bounced off a full channel while demand was left is overtaken by the next one;
and of two events of which one was wanted, the one that bounced is put behind the other -/
theorem demand_out_of_order :
    (∃ st, (demandMachine 1 10 (.echo [1, 2]) 0).Reach Machine.Anytime st ∧
      received st.sent 1 = [1, 2, 8] ∧ st.emitted = [1, 2, 7, 8]) ∧
    ∃ st, (demandMachine 1 10 (.echo [1, 2]) 0).Reach Machine.Anytime st ∧
      received st.sent 1 = [2] ∧ st.emitted = [1, 2] := by
  refine ⟨?_, ?_⟩
  · exact (Machine.Reach.start lonely_start).exists_run
      [(.clear, .askDemand 1 4), (stuffed, .cast 7), (.clear, .cast 8)] (by decide)
  · exact (Machine.Reach.start lonely_start).exists_run [(stuffed, .askDemand 1 1), (.clear, .askDemand 1 1)]
      (by decide)

/-- an event bounces with the last of the demand, the next one waits behind it, and both arrive -/
theorem demand_in_order_bounced : ∃ st,
    (demandMachine 1 10 (.echo [1, 2]) 0).Reach (Orderly 1 (.echo [1, 2])) st ∧
    received st.sent 1 = [1, 2, 7] ∧ st.emitted = [1, 2, 7, 8] ∧
    received st.sent 1 <+: st.emitted := by
  have hstart : (demandMachine 1 10 (.echo [1, 2]) 0).Reach (Orderly 1 (.echo [1, 2])) lonely := .start lonely_start
  obtain ⟨st, hst, hrec, hem⟩ := hstart.exists_checked
    [(.clear, .askDemand 1 3), (stuffed, .cast 7), (.clear, .call 8), (.clear, .askDemand 1 1)]
    (p := fun st => received st.sent 1 = [1, 2, 7] ∧ st.emitted = [1, 2, 7, 8]) (by decide)
  exact ⟨st, hst, hrec, hem, demand_in_order hst⟩

end Rebar.Stage

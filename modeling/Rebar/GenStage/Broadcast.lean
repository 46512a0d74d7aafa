import Rebar.GenStage.Flow
import Rebar.Lib.Machine

/-!
# Broadcasting stages

A stage with the broadcast dispatcher and a fixed set of subscriptions, of which any may end.
Everything it emits waits in one buffer until every subscriber has demand, and is then put into every
channel.
-/

namespace Rebar.Stage

variable {V S : Type}

/-! ## what is put into a channel -/

def StageCommand.eventsFor (tag : SubscriptionTag) : StageCommand V → List V
  | .events t batch => if t = tag then batch else []
  | _ => []

def received (sent : List (StageId × StageCommand V)) (tag : SubscriptionTag) : List V :=
  sent.flatMap fun p => p.2.eventsFor tag

theorem received_append (a b : List (StageId × StageCommand V)) (tag : SubscriptionTag) :
    received (a ++ b) tag = received a tag ++ received b tag := by
  simp [received, List.flatMap_append]

variable {tag : SubscriptionTag} {subs : List ConsumerDemand} {st' : StageLoop V S}

theorem received_send (st : StageLoop V S) (dst : StageId) {cmd : StageCommand V}
    (h : cmd.eventsFor tag = []) : received (st.send dst cmd).sent tag = received st.sent tag := by
  show received (st.sent ++ [(dst, cmd)]) tag = _
  rw [received_append]
  simp [received, h]

section
variable {downstreams : HashMap SubscriptionTag DownstreamSubscription}
  {chan : SubscriptionTag → TrySend} (hok : ∀ t ∈ downstreams, chan t = .ok)
include hok

theorem deliverEvents_of_ok (deliveries : List (SubscriptionTag × List V)) :
    (deliverEvents downstreams chan deliveries).undelivered = [] ∧
      (deliverEvents downstreams chan deliveries).dead = [] ∧
      ∀ tag ∈ downstreams, received (deliverEvents downstreams chan deliveries).sent tag
        = deliveries.flatMap fun d => if d.1 = tag then d.2 else [] := by
  induction deliveries with
  | nil => exact ⟨rfl, rfl, fun tag _ => rfl⟩
  | cons d deliveries ih =>
    obtain ⟨t, events⟩ := d
    obtain ⟨hun, hdead, hsent⟩ := ih
    unfold deliverEvents
    cases hl : downstreams.lookup t with
    | none =>
      refine ⟨hun, hdead, fun tag htag => ?_⟩
      have hne : t ≠ tag := by
        intro heq
        rw [heq, AList.lookup_eq_none] at hl
        exact hl htag
      show received (deliverEvents downstreams chan deliveries).sent tag = _
      rw [hsent tag htag, List.flatMap_cons, if_neg hne, List.nil_append]
    | some down =>
      rw [hok t (HashMap.mem_of_lookup hl)]
      refine ⟨hun, hdead, fun tag htag => ?_⟩
      show (if t = tag then events else []) ++
        received (deliverEvents downstreams chan deliveries).sent tag = _
      rw [hsent tag htag, List.flatMap_cons]

end

theorem flatMap_batch (hnd : (subs.map (·.tag)).Nodup) (h : tag ∈ subs.map (·.tag)) (batch : List V) :
    ((subs.map fun sub => (sub.tag, batch)).flatMap fun d => if d.1 = tag then d.2 else [])
      = batch := by
  induction subs with
  | nil => cases h
  | cons sub subs ih =>
    rw [List.map_cons, List.nodup_cons] at hnd
    rw [List.map_cons, List.flatMap_cons]
    by_cases heq : sub.tag = tag
    · have hnone : ∀ d ∈ subs.map fun sub => (sub.tag, batch),
          (if d.1 = tag then d.2 else []) = [] := by
        intro d hd
        obtain ⟨sub', hsub', rfl⟩ := List.mem_map.mp hd
        refine if_neg fun hd' => hnd.1 ?_
        rw [heq, ← hd']
        exact List.mem_map_of_mem hsub'
      rw [if_pos heq, List.flatMap_eq_nil_iff.mpr hnone, List.append_nil]
    · rw [List.map_cons, List.mem_cons] at h
      rw [if_neg heq, List.nil_append]
      exact ih hnd.2 (h.resolve_left fun ht => heq ht.symm)

theorem bufferLeftover_nil (ls : LoopState V) : ls.bufferLeftover [] = ls := rfl

theorem bufferLeftover_downstreams (ls : LoopState V) (leftover : List V) :
    (ls.bufferLeftover leftover).downstreams = ls.downstreams := by
  cases leftover with
  | nil => rfl
  | cons e es => rfl

theorem dropOldest_of_lt {buffer : List V}
    (h : (LoopState.dropOldest buffer).length < maxEventBuffer) :
    LoopState.dropOldest buffer = buffer := by
  unfold LoopState.dropOldest at h ⊢
  split at h
  next =>
    rw [List.length_drop] at h
    omega
  next hle => exact if_neg hle

theorem bufferLeftover_of_lt {ls : LoopState V} {leftover : List V}
    (h : (ls.bufferLeftover leftover).eventBuffer.length < maxEventBuffer) :
    ls.bufferLeftover leftover = { ls with eventBuffer := ls.eventBuffer ++ leftover } := by
  cases leftover with
  | nil => rw [bufferLeftover_nil, List.append_nil]
  | cons e es =>
    have heq : ls.bufferLeftover (e :: es) =
        { ls with eventBuffer := LoopState.dropOldest (ls.eventBuffer ++ e :: es) } := rfl
    rw [heq] at h ⊢
    rw [dropOldest_of_lt h]

/-! ## subscribers in step -/

/-- every subscriber has received what was emitted, up to the buffer -/
structure Aligned (st : StageLoop V S) : Prop where
  dispatcher : st.ls.dispatcher = .broadcast
  tags : ∀ t, t ∈ st.ls.downstreams ↔ t ∈ st.ls.consumerDemands.map (·.tag)
  nodup : (st.ls.consumerDemands.map (·.tag)).Nodup
  inStep : ∀ t ∈ st.ls.downstreams, received st.sent t ++ st.ls.eventBuffer = st.emitted

def Waiting (st : StageLoop V S) : Prop :=
  st.ls.eventBuffer ≠ [] → leastDemand st.ls.consumerDemands = 0

/-- what is given out reaches every subscriber -/
def Open (st : StageLoop V S) (chan : SubscriptionTag → TrySend) : Prop :=
  leastDemand st.ls.consumerDemands ≠ 0 → ∀ cd ∈ st.ls.consumerDemands, chan cd.tag = .ok

variable {st : StageLoop V S} {chan : SubscriptionTag → TrySend}

theorem Aligned.open (h : Aligned st) (hopen : Open st chan)
    (hdemand : leastDemand st.ls.consumerDemands ≠ 0) : ∀ t ∈ st.ls.downstreams, chan t = .ok := by
  intro t ht
  obtain ⟨cd, hcd, rfl⟩ := List.mem_map.mp ((h.tags t).mp ht)
  exact hopen hdemand cd hcd

theorem cleanupDeadDownstreams_nil (impl : GenStage V S) {r : StageLoop V S × List SubscriptionTag}
    (h : r.2 = []) : StageLoop.cleanupDeadDownstreams impl r = r.1 := by
  unfold StageLoop.cleanupDeadDownstreams
  rw [h]
  rfl

theorem map_tag_lower (subs : List ConsumerDemand) (n : Nat) :
    (subs.map (·.lower n)).map (·.tag) = subs.map (·.tag) := by
  rw [List.map_map]
  rfl

theorem deliver_of_ok {deliveries : List (SubscriptionTag × List V)}
    (hok : deliveries ≠ [] → ∀ t ∈ st.ls.downstreams, chan t = .ok) :
    (st.deliver chan deliveries).1.ls = st.ls ∧ (st.deliver chan deliveries).2 = [] ∧
      (st.deliver chan deliveries).1.emitted = st.emitted ∧
      ∀ t ∈ st.ls.downstreams, received (st.deliver chan deliveries).1.sent t =
        received st.sent t ++ deliveries.flatMap fun d => if d.1 = t then d.2 else [] := by
  obtain ⟨hun, hdead, hsent⟩ : (deliverEvents st.ls.downstreams chan deliveries).undelivered = [] ∧
      (deliverEvents st.ls.downstreams chan deliveries).dead = [] ∧
      ∀ t ∈ st.ls.downstreams, received (deliverEvents st.ls.downstreams chan deliveries).sent t
        = deliveries.flatMap fun d => if d.1 = t then d.2 else [] := by
    by_cases hnil : deliveries = []
    · rw [hnil]
      exact ⟨rfl, rfl, fun _ _ => rfl⟩
    · exact deliverEvents_of_ok (hok hnil) deliveries
  refine ⟨?_, hdead, rfl, fun t ht => ?_⟩
  · show st.ls.bufferLeftover _ = _
    rw [hun, bufferLeftover_nil]
  · show received (st.sent ++ _) t = _
    rw [received_append, hsent t ht]

/-- nothing is delivered as long as a subscriber has no demand -/
theorem leastDemand_of_deliveries {xs : List V}
    (h : (broadcastDispatch xs subs).2.deliveries ≠ []) : leastDemand subs ≠ 0 := by
  intro hzero
  rw [broadcastDispatch_of_zero xs hzero] at h
  exact h rfl

theorem leastDemand_of_dispatch {xs : List V}
    (h : leastDemand (broadcastDispatch xs subs).1 ≠ 0) : leastDemand subs ≠ 0 := by
  intro hzero
  rw [broadcastDispatch_of_zero xs hzero] at h
  exact h hzero

theorem broadcastDispatch_given (xs : List V) (hnd : (subs.map (·.tag)).Nodup)
    (h : tag ∈ subs.map (·.tag)) : ((broadcastDispatch xs subs).2.deliveries.flatMap
      fun d => if d.1 = tag then d.2 else []) = xs.take (min xs.length (leastDemand subs)) := by
  rw [broadcastDispatch_eq]
  dsimp only
  split
  next hzero => rw [hzero, List.take_zero, List.flatMap_nil]
  next => exact flatMap_batch hnd h _

/-- a batch goes to every subscriber; there is none behind events that wait for demand -/
theorem broadcastDispatch_behind {pre : List V} (xs : List V) (hnd : (subs.map (·.tag)).Nodup)
    (hpre : pre ≠ [] → leastDemand subs = 0) :
    ∃ batch, xs = batch ++ (broadcastDispatch xs subs).2.leftover ∧ (pre = [] ∨ batch = []) ∧
      (broadcastDispatch xs subs).1.map (·.tag) = subs.map (·.tag) ∧
      (∀ tag ∈ subs.map (·.tag), ((broadcastDispatch xs subs).2.deliveries.flatMap
        fun d => if d.1 = tag then d.2 else []) = batch) ∧
      (pre ++ (broadcastDispatch xs subs).2.leftover ≠ [] →
        leastDemand (broadcastDispatch xs subs).1 = 0) := by
  by_cases hzero : leastDemand subs = 0
  · rw [broadcastDispatch_of_zero xs hzero]
    exact ⟨[], rfl, .inr rfl, rfl, fun _ _ => rfl, fun _ => hzero⟩
  obtain rfl : pre = [] := by
    by_contra hne
    exact hzero (hpre hne)
  have hxs := broadcastDispatch_eq xs subs
  refine ⟨_, ?_, .inl rfl, ?_, fun tag ht => broadcastDispatch_given xs hnd ht, broadcastDispatch_waits⟩
  · rw [hxs]
    exact (List.take_append_drop ..).symm
  · rw [hxs]
    exact map_tag_lower subs _

/-- **One round of dispatch.**  Of the buffered events `pre` followed by `xs`, the `xs` are
dispatched, which gives them out only if `pre` is empty. -/
theorem aligned_round (h : Aligned st) (hopen : Open st chan)
    {pre xs emitted : List V} (hpre : pre ≠ [] → leastDemand st.ls.consumerDemands = 0)
    (hrec : ∀ t ∈ st.ls.downstreams, received st.sent t ++ (pre ++ xs) = emitted)
    {mid : StageLoop V S} (hmid : mid = { st with
      ls := { st.ls with
        consumerDemands := (broadcastDispatch xs st.ls.consumerDemands).1
        eventBuffer := pre ++ (broadcastDispatch xs st.ls.consumerDemands).2.leftover }
      emitted := emitted }) :
    Aligned (mid.deliver chan (broadcastDispatch xs st.ls.consumerDemands).2.deliveries).1 ∧
      Waiting (mid.deliver chan (broadcastDispatch xs st.ls.consumerDemands).2.deliveries).1 := by
  obtain ⟨batch, hxs, hnil, htags, hgiven, hw⟩ := broadcastDispatch_behind xs h.nodup hpre
  have hmoved : batch ++ (pre ++ (broadcastDispatch xs st.ls.consumerDemands).2.leftover) =
      pre ++ xs := by
    rcases hnil with rfl | rfl
    · exact hxs.symm
    · exact congrArg (pre ++ ·) hxs.symm
  have hok : (broadcastDispatch xs st.ls.consumerDemands).2.deliveries ≠ [] →
      ∀ t ∈ mid.ls.downstreams, chan t = .ok := by
    rw [hmid]
    exact fun hne => h.open hopen (leastDemand_of_deliveries hne)
  obtain ⟨hls, -, hem, hsent⟩ := deliver_of_ok hok
  subst hmid
  refine ⟨⟨?_, ?_, ?_, fun t ht => ?_⟩, ?_⟩
  · rw [hls]
    exact h.dispatcher
  · rw [hls]
    dsimp only
    rw [htags]
    exact h.tags
  · rw [hls]
    dsimp only
    rw [htags]
    exact h.nodup
  · rw [hls] at ht ⊢
    rw [hem, hsent t ht, hgiven t ((h.tags t).mp ht), List.append_assoc]
    exact (congrArg (received st.sent t ++ ·) hmoved).trans (hrec t ht)
  · unfold Waiting
    rw [hls]
    exact hw

/-- the subscribers are in step, unless the buffer has reached its bound -/
def Steady (st : StageLoop V S) : Prop := st.ls.eventBuffer.length < maxEventBuffer → Aligned st

theorem Aligned.dispatch (h : Aligned st) (events : List V) (hw : events ≠ [] → Waiting st)
    (hopen : events ≠ [] → Open st chan) :
    (st.dispatchAndDeliver chan events).2 = [] ∧ Steady (st.dispatchAndDeliver chan events).1 := by
  cases events with
  | nil => exact ⟨rfl, fun _ => h⟩
  | cons e es =>
    replace hw := hw (List.cons_ne_nil e es)
    replace hopen := hopen (List.cons_ne_nil e es)
    obtain ⟨mid, hmid⟩ : ∃ mid : StageLoop V S, mid = { st with
        ls := LoopState.bufferLeftover { st.ls with
          consumerDemands := (broadcastDispatch (e :: es) st.ls.consumerDemands).1 }
          (broadcastDispatch (e :: es) st.ls.consumerDemands).2.leftover
        emitted := st.emitted ++ e :: es } := ⟨_, rfl⟩
    have heq : st.dispatchAndDeliver chan (e :: es) =
        mid.deliver chan (broadcastDispatch (e :: es) st.ls.consumerDemands).2.deliveries := by
      rw [hmid]
      show StageLoop.deliver _ _ _ = _
      rw [h.dispatcher]
      rfl
    have hok : (broadcastDispatch (e :: es) st.ls.consumerDemands).2.deliveries ≠ [] →
        ∀ t ∈ mid.ls.downstreams, chan t = .ok := by
      rw [hmid, bufferLeftover_downstreams]
      exact fun hne => h.open hopen (leastDemand_of_deliveries hne)
    obtain ⟨hafter, hdead, -, -⟩ := deliver_of_ok hok
    rw [heq]
    refine ⟨hdead, fun hlt => ?_⟩
    rw [hafter, hmid] at hlt
    rw [bufferLeftover_of_lt hlt] at hmid
    refine (aligned_round h hopen hw (fun t ht => ?_) hmid).1
    rw [← List.append_assoc, h.inStep t ht]

theorem Aligned.drain (h : Aligned st) (impl : GenStage V S) (env : Peers)
    (hdrain : Open st env.drain) (hfresh : Open st env.fresh) :
    Aligned (StageLoop.drainBuffer impl env st) ∧ Waiting (StageLoop.drainBuffer impl env st) ∧
      Open (StageLoop.drainBuffer impl env st) env.fresh := by
  by_cases hempty : st.ls.eventBuffer.isEmpty
  · have heq : StageLoop.drainBuffer impl env st = st := if_pos hempty
    rw [heq]
    exact ⟨h, fun hne => absurd (List.isEmpty_iff.mp hempty) hne, hfresh⟩
  · obtain ⟨mid, hmid⟩ : ∃ mid, mid = { st with
        ls := { st.ls with
          consumerDemands := (broadcastDispatch st.ls.eventBuffer st.ls.consumerDemands).1
          eventBuffer := [] ++
            (broadcastDispatch st.ls.eventBuffer st.ls.consumerDemands).2.leftover } } := ⟨_, rfl⟩
    have hok : (broadcastDispatch st.ls.eventBuffer st.ls.consumerDemands).2.deliveries ≠ [] →
        ∀ t ∈ mid.ls.downstreams, env.drain t = .ok := by
      rw [hmid]
      exact fun hne => h.open hdrain (leastDemand_of_deliveries hne)
    obtain ⟨hafter, hdead, -, -⟩ := deliver_of_ok hok
    have heq : StageLoop.drainBuffer impl env st = (mid.deliver env.drain
        (broadcastDispatch st.ls.eventBuffer st.ls.consumerDemands).2.deliveries).1 := by
      unfold StageLoop.drainBuffer
      rw [← cleanupDeadDownstreams_nil impl hdead, if_neg hempty, hmid, h.dispatcher]
      rfl
    obtain ⟨ha, hw⟩ := aligned_round h hdrain (fun hne => absurd rfl hne) h.inStep hmid
    rw [heq]
    refine ⟨ha, hw, fun hdemand cd hcd => ?_⟩
    rw [hafter, hmid] at hdemand
    refine h.open hfresh (leastDemand_of_dispatch hdemand) cd.tag ?_
    have htag := (ha.tags cd.tag).mpr (List.mem_map_of_mem hcd)
    rwa [hafter, hmid] at htag

/-! ## steps that leave the events alone -/

/-- the two states agree in what a broadcast reads and has done -/
structure SameEvents (st st' : StageLoop V S) : Prop where
  dispatcher : st'.ls.dispatcher = st.ls.dispatcher
  downstreams : st'.ls.downstreams = st.ls.downstreams
  consumerDemands : st'.ls.consumerDemands = st.ls.consumerDemands
  eventBuffer : st'.ls.eventBuffer = st.ls.eventBuffer
  emitted : st'.emitted = st.emitted
  received : ∀ t, received st'.sent t = received st.sent t

theorem Aligned.same (h : Aligned st) (hs : SameEvents st st') : Aligned st' := by
  refine ⟨?_, ?_, ?_, ?_⟩
  · rw [hs.dispatcher, h.dispatcher]
  · rw [hs.downstreams, hs.consumerDemands]
    exact h.tags
  · rw [hs.consumerDemands]
    exact h.nodup
  · rw [hs.downstreams, hs.eventBuffer, hs.emitted]
    intro t ht
    rw [hs.received, h.inStep t ht]

theorem Waiting.same (h : Waiting st) (hs : SameEvents st st') : Waiting st' := by
  unfold Waiting
  rw [hs.eventBuffer, hs.consumerDemands]
  exact h

theorem SameEvents.send (h : SameEvents st st') (dst : StageId) (cmd : StageCommand V)
    (hcmd : ∀ t, cmd.eventsFor t = []) : SameEvents st (st'.send dst cmd) :=
  ⟨h.dispatcher, h.downstreams, h.consumerDemands, h.eventBuffer, h.emitted,
    fun t => (received_send st' dst (hcmd t)).trans (h.received t)⟩

theorem sameEvents_upstreams (st : StageLoop V S) (user : S)
    (upstreams : HashMap SubscriptionTag UpstreamSubscription) :
    SameEvents st { st with user := user, ls := { st.ls with upstreams := upstreams } } :=
  ⟨rfl, rfl, rfl, rfl, rfl, fun _ => rfl⟩

theorem SameEvents.refl (st : StageLoop V S) : SameEvents st st :=
  sameEvents_upstreams st st.user st.ls.upstreams

theorem SameEvents.told {mid : StageLoop V S} (h : SameEvents st mid) {dst : StageId}
    {cmd : StageCommand V} (ht : Told mid dst cmd st') (hcmd : ∀ t, cmd.eventsFor t = []) :
    SameEvents st st' := by
  rcases ht with rfl | rfl
  · exact h
  · exact h.send dst cmd hcmd

theorem Steady.same (h : Steady st) (hs : SameEvents st st') : Steady st' := by
  intro hlt
  exact (h (hs.eventBuffer ▸ hlt)).same hs

variable (impl : GenStage V S) (self : StageId) (env : Peers)

theorem Acts.sameEvents {self : StageId} {tag : SubscriptionTag} {events : List V}
    (h : Acts impl self env st (.events tag events) st') : SameEvents st st' := by
  cases h with
  | received _ _ hsent => exact (sameEvents_upstreams st _ _).told hsent fun _ => rfl
  | gone => exact sameEvents_upstreams st _ _

theorem reask_same (st : StageLoop V S) (tag : SubscriptionTag) (events : List V) :
    SameEvents st (StageLoop.reask impl env st tag events.length) := by
  rcases reask_acts impl 0 env st tag events with heq | hact
  · rw [heq]
    exact .refl st
  · exact hact.sameEvents

theorem reask_none (hl : st.ls.upstreams.lookup tag = none) (n : Nat) :
    StageLoop.reask impl env st tag n = st := by
  unfold StageLoop.reask
  rw [hl]

theorem reask_automatic {up : UpstreamSubscription} (hl : st.ls.upstreams.lookup tag = some up)
    (hmode : up.mode = .automatic) (hreach : env.reachable tag = true) (n : Nat) :
    StageLoop.reask impl env st tag n = { st with
      ls := { st.ls with
        upstreams := st.ls.upstreams.insert tag (up.receive n st.ls.downstreamRoom).1 }
      sent := st.sent ++ if 0 < (up.receive n st.ls.downstreamRoom).2 then
          [(up.producer, .askDemand tag (up.receive n st.ls.downstreamRoom).2)] else [] } := by
  unfold StageLoop.reask
  rw [hl]
  dsimp only
  rw [if_pos hmode]
  by_cases hask : 0 < (up.receive n st.ls.downstreamRoom).2
  · rw [if_pos hask, if_pos hask, if_pos hreach, (receive_keeps up n st.ls.downstreamRoom).1]
    rfl
  · rw [if_neg hask, if_neg hask, List.append_nil]

theorem handleSubscriptionConfirmed_same (st : StageLoop V S) (tag : SubscriptionTag)
    (producer : StageId) (opts : SubscribeOpts) :
    SameEvents st (StageLoop.handleSubscriptionConfirmed impl env st tag producer opts) :=
  (sameEvents_upstreams st _ _).told (told_if _ _ _) fun _ => rfl

/-! ## steps -/

theorem map_tag_addDemand (ls : LoopState V) (tag : SubscriptionTag) (demand : Nat) :
    (ls.addDemand tag demand).consumerDemands.map (·.tag) = ls.consumerDemands.map (·.tag) := by
  have hmod : ∀ (l : List ConsumerDemand) (i : Nat) (f : ConsumerDemand → ConsumerDemand),
      (∀ cd, (f cd).tag = cd.tag) → (l.modify i f).map (·.tag) = l.map (·.tag) := by
    intro l i f hf
    induction l generalizing i with
    | nil => simp
    | cons cd l ih =>
      cases i with
      | zero => simp [hf]
      | succ i => simp [ih]
  exact hmod _ _ _ fun cd => rfl

theorem Aligned.addDemand (h : Aligned st) (tag : SubscriptionTag) (demand : Nat) :
    Aligned { st with ls := st.ls.addDemand tag demand } := by
  refine ⟨h.dispatcher, ?_, ?_, h.inStep⟩
  · show ∀ t, t ∈ st.ls.downstreams ↔ t ∈ (st.ls.addDemand tag demand).consumerDemands.map _
    rw [map_tag_addDemand]
    exact h.tags
  · show ((st.ls.addDemand tag demand).consumerDemands.map _).Nodup
    rw [map_tag_addDemand]
    exact h.nodup

/-- **A subscriber leaves.**  The others have received what they had. -/
theorem Aligned.removeDownstream (h : Aligned st) (tag : SubscriptionTag) (user : S) :
    Aligned { st with user := user, ls := st.ls.removeDownstream tag } := by
  have htags : ∀ t, t ∈ (st.ls.consumerDemands.filter (·.tag ≠ tag)).map (·.tag) ↔
      t ∈ st.ls.consumerDemands.map (·.tag) ∧ t ≠ tag := by
    intro t
    simp only [List.mem_map, List.mem_filter, decide_eq_true_eq]
    constructor
    · rintro ⟨cd, ⟨hcd, hne⟩, rfl⟩
      exact ⟨⟨cd, hcd, rfl⟩, hne⟩
    · rintro ⟨⟨cd, hcd, rfl⟩, hne⟩
      exact ⟨cd, ⟨hcd, hne⟩, rfl⟩
  refine ⟨h.dispatcher, fun t => ?_, ?_, fun t ht => ?_⟩
  · show t ∈ st.ls.downstreams.erase tag ↔ t ∈ (st.ls.consumerDemands.filter (·.tag ≠ tag)).map _
    rw [htags, ← h.tags, AList.mem_erase, and_comm]
  · exact h.nodup.sublist (List.filter_sublist.map _)
  · exact h.inStep t (AList.mem_erase.mp ht).2

theorem Aligned.handleCancel (h : Aligned st) (tag : SubscriptionTag) (reason : CancelReason) :
    Aligned (StageLoop.handleCancel impl env st tag reason) := by
  unfold StageLoop.handleCancel
  split
  · dsimp only
    split
    · exact (h.removeDownstream tag _).same ((SameEvents.refl _).send _ _ fun _ => rfl)
    · exact h.removeDownstream tag _
  · split
    · dsimp only
      split
      · exact h.same ((sameEvents_upstreams st _ _).send _ _ fun _ => rfl)
      · exact h.same (sameEvents_upstreams st _ _)
    · exact h

section
variable {impl env} (h : Aligned st)
include h

theorem Aligned.emit {events : List V} (hw : events ≠ [] → Waiting st)
    (hopen : events ≠ [] → Open st chan) (user : S) :
    Steady (StageLoop.cleanupDeadDownstreams impl
      (StageLoop.dispatchAndDeliver { st with user := user } chan events)) := by
  have hs := sameEvents_upstreams st user st.ls.upstreams
  obtain ⟨hdead, hsteady⟩ := (h.same hs).dispatch events (fun hne => (hw hne).same hs) hopen
  rw [cleanupDeadDownstreams_nil impl hdead]
  exact hsteady

theorem Aligned.maybeEmit {events : List V} (hw : events ≠ [] → Waiting st)
    (hopen : events ≠ [] → Open st chan) (user : S) : Steady (StageLoop.cleanupDeadDownstreams impl
      (StageLoop.maybeDispatchEmitted { st with user := user } chan events)) := by
  unfold StageLoop.maybeDispatchEmitted
  split
  · exact h.emit hw hopen user
  · exact fun _ => h.same (sameEvents_upstreams st user st.ls.upstreams)

theorem Aligned.produce (hw : Waiting st) (hopen : Open st env.fresh) (demand : Nat) :
    Steady (StageLoop.produce impl env st demand) := by
  unfold StageLoop.produce
  dsimp only
  split
  · exact h.emit (fun _ => hw) (fun _ => hopen) _
  · exact fun _ => h

theorem Aligned.handleAskDemand {tag : SubscriptionTag} {demand : Nat}
    (hopen : tag ∉ st.ls.upstreams → Open { st with ls := st.ls.addDemand tag demand } env.drain ∧
      Open { st with ls := st.ls.addDemand tag demand } env.fresh) :
    Steady (StageLoop.handleAskDemand impl env st tag demand) := by
  have hsteady : Steady st := fun _ => h
  unfold StageLoop.handleAskDemand
  split
  next up _ =>
    split
    · exact hsteady.same ((SameEvents.refl st).send _ _ fun _ => rfl)
    · exact hsteady.same (sameEvents_upstreams st _ _)
  next hl =>
    obtain ⟨hdrain, hfresh⟩ := hopen (AList.lookup_eq_none.mp hl)
    obtain ⟨ha, hw, hopen'⟩ := (h.addDemand tag demand).drain impl env hdrain hfresh
    exact ha.produce hw hopen' demand

theorem Aligned.handleEvents {tag : SubscriptionTag} {events : List V}
    (hw : (impl.handleEvents events tag st.user).2 ≠ [] → Waiting st)
    (hopen : (impl.handleEvents events tag st.user).2 ≠ [] → Open st env.fresh) :
    Steady (StageLoop.handleEvents impl env st tag events) := by
  unfold StageLoop.handleEvents
  dsimp only
  split
  · exact (h.emit hw hopen _).same (reask_same impl env _ tag events)
  · have hsteady : Steady { st with user := (impl.handleEvents events tag st.user).1 } :=
      fun _ => h.same (sameEvents_upstreams st _ st.ls.upstreams)
    exact hsteady.same (reask_same impl env _ tag events)

end

/-! ## runs -/

/-- a fresh broadcasting stage that handled some subscriptions -/
inductive Subscribed : StageLoop V S → Prop where
  | new (stageType : StageType) (user : S) : Subscribed (.new .broadcast stageType user)
  | subscribe {st : StageLoop V S} (env : Peers) (tag : SubscriptionTag) (consumer : StageId)
      (opts : SubscribeOpts) : Subscribed st → tag ∉ st.ls.downstreams →
      Subscribed (StageLoop.handleSubscribe impl self env st tag consumer opts)

/-- the runs of a broadcasting stage with a fixed set of subscriptions, in which the buffer stays
below its bound; a subscription that is cancelled is not made again -/
def broadcastMachine : Machine (StageLoop V S) (Peers × StageCommand V) where
  start := Subscribed impl self
  next st a :=
    match a.2 with
    | .subscribe _ _ _ => none
    | cmd =>
      let st' := StageLoop.handle impl self a.1 st cmd
      if st'.ls.eventBuffer.length < maxEventBuffer then some st' else none

/-- what a callback emits into the loop without the buffer being drained first -/
def emits (st : StageLoop V S) : StageCommand V → List V
  | .events tag events => (impl.handleEvents events tag st.user).2
  | .call msg => (impl.handleCall msg st.user).2
  | .cast msg => (impl.handleCast msg st.user).2
  | _ => []

/-- the condition on the steps: when every subscriber has demand, every channel is open and has
room, and fresh events do not overtake events in the buffer -/
def Unimpeded (st : StageLoop V S) (a : Peers × StageCommand V) : Prop :=
  match a.2 with
  | .askDemand tag demand => tag ∉ st.ls.upstreams →
    Open { st with ls := st.ls.addDemand tag demand } a.1.drain ∧
      Open { st with ls := st.ls.addDemand tag demand } a.1.fresh
  | cmd => emits impl st cmd ≠ [] → Waiting st ∧ Open st a.1.fresh

instance (st : StageLoop V S) (a : Peers × StageCommand V) : Decidable (Unimpeded impl st a) := by
  unfold Unimpeded Waiting Open
  split <;> infer_instance

variable {impl self}

theorem Subscribed.aligned (h : Subscribed impl self st) :
    Aligned st ∧ (∀ t, received st.sent t = []) ∧ st.ls.eventBuffer = [] ∧ st.emitted = [] := by
  induction h with
  | new stageType user =>
    refine ⟨⟨rfl, fun t => ?_, List.nodup_nil, fun t _ => rfl⟩, fun t => rfl, rfl, rfl⟩
    exact ⟨fun h => absurd h (AList.notMem_empty t), nofun⟩
  | @subscribe st env tag consumer opts _ hfresh ih =>
    obtain ⟨ha, hrec, hbuf, hem⟩ := ih
    obtain ⟨mid, hmid⟩ : ∃ mid, mid = { st with
        user := (impl.handleSubscribe st.ls.stageType opts tag st.user).1
        ls := { st.ls with
          consumerDemands := st.ls.consumerDemands ++ [ConsumerDemand.new tag]
          downstreams := st.ls.downstreams.insert tag ⟨consumer⟩ } } := ⟨_, rfl⟩
    have htags : mid.ls.consumerDemands.map (·.tag) = st.ls.consumerDemands.map (·.tag) ++ [tag] := by
      rw [hmid]
      exact List.map_append
    have hbuf' : mid.ls.eventBuffer = [] := by rw [hmid, hbuf]
    have hmidA : Aligned mid := by
      refine ⟨by rw [hmid, ha.dispatcher], fun t => ?_, ?_, fun t _ => ?_⟩
      · rw [htags, List.mem_append, List.mem_singleton, ← ha.tags, hmid, AList.mem_insert, or_comm]
      · rw [htags, List.nodup_append]
        refine ⟨ha.nodup, List.nodup_singleton tag, fun t ht t' ht' => ?_⟩
        rw [List.mem_singleton.mp ht']
        intro heq
        rw [heq, ← ha.tags] at ht
        exact hfresh ht
      · rw [hbuf', List.append_nil, hmid, hrec t, hem]
    have hsame : SameEvents mid (StageLoop.handleSubscribe impl self env st tag consumer opts) := by
      rw [hmid]
      exact (SameEvents.refl _).told (told_if _ consumer _) fun _ => rfl
    refine ⟨hmidA.same hsame, fun t => ?_, ?_, ?_⟩
    · rw [hsame.received, hmid, hrec]
    · rw [hsame.eventBuffer, hbuf']
    · rw [hsame.emitted, hmid, hem]

theorem broadcast_step {a : Peers × StageCommand V} (h : Aligned st) (hok : Unimpeded impl st a)
    (hn : (broadcastMachine impl self).next st a = some st') : Aligned st' := by
  obtain ⟨env, cmd⟩ := a
  have hnext : ∀ {st₁}, Steady st₁ →
      (if st₁.ls.eventBuffer.length < maxEventBuffer then some st₁ else none) = some st' →
      Aligned st' := by
    intro st₁ hsteady h₁
    obtain ⟨hlt, heq⟩ := Option.ite_none_right_eq_some.mp h₁
    exact Option.some.inj heq ▸ hsteady hlt
  cases cmd with
  | subscribe tag consumer opts => cases hn
  | cancel tag reason => exact hnext (fun _ => h.handleCancel impl env tag reason) hn
  | askDemand tag demand => exact hnext (h.handleAskDemand hok) hn
  | events tag events =>
    exact hnext (h.handleEvents (fun hne => (hok hne).1) fun hne => (hok hne).2) hn
  | call msg | cast msg =>
    exact hnext (h.maybeEmit (fun hne => (hok hne).1) (fun hne => (hok hne).2) _) hn
  | subscriptionConfirmed tag producer opts =>
    exact hnext (fun _ => h.same (handleSubscriptionConfirmed_same impl env st tag producer opts)) hn

/-- **In every run in which no delivery bounces and no fresh event overtakes the buffer, each
subscriber that is left has received a first part of the events the stage emitted, in the order they
were emitted.** -/
theorem broadcast_in_order (h : (broadcastMachine impl self).Reach (Unimpeded impl) st)
    {tag : SubscriptionTag} (ht : tag ∈ st.ls.downstreams) :
    received st.sent tag <+: st.emitted := by
  have hinv : Aligned st := by
    refine h.inv (I := Aligned) (fun st hst => ?_) fun st a st' hi hok hn => ?_
    · exact hst.aligned.1
    · exact broadcast_step hi hok hn
  exact ⟨st.ls.eventBuffer, hinv.inStep tag ht⟩

private def two : StageLoop Nat Unit :=
  StageLoop.handleSubscribe (.echo []) 0 .clear (StageLoop.handleSubscribe (.echo []) 0 .clear
    (.new .broadcast .producer ()) 1 10 .default) 2 20 .default

private theorem two_start : (broadcastMachine (GenStage.echo []) 0).start two :=
  .subscribe .clear 2 20 .default
    (.subscribe .clear 1 10 .default (.new .producer ()) (by decide)) (by decide)

private def asked (n : Nat) : List (Peers × StageCommand Nat) :=
  [(.clear, .askDemand 1 n), (.clear, .askDemand 2 n)]

/-- the channel of subscription 1 does not take fresh events -/
private def refused (r : TrySend) : Peers :=
  { Peers.clear with fresh := fun t => if t = 1 then r else .ok }

/-- after a delivery bounced off the full or the closed channel of subscription 1, subscription 2
gets the same event twice; a single subscriber misses an event and gets the next one; and so does
subscription 2 when subscription 1, which had no demand, ends -/
theorem broadcast_repeats_and_skips :
    (∃ st, (broadcastMachine (GenStage.echo []) 0).Reach Machine.Anytime st ∧
      2 ∈ st.ls.downstreams ∧ received st.sent 2 = [7, 7] ∧ st.emitted = [7]) ∧
    (∃ st, (broadcastMachine (GenStage.echo []) 0).Reach Machine.Anytime st ∧
      2 ∈ st.ls.downstreams ∧ 1 ∉ st.ls.downstreams ∧ received st.sent 2 = [7, 7] ∧
      st.emitted = [7]) ∧
    (∃ st, (broadcastMachine (GenStage.echo []) 0).Reach Machine.Anytime st ∧
      1 ∈ st.ls.downstreams ∧ received st.sent 1 = [8] ∧ st.emitted = [7, 8]) ∧
    ∃ st, (broadcastMachine (GenStage.echo []) 0).Reach Machine.Anytime st ∧
      2 ∈ st.ls.downstreams ∧ received st.sent 2 = [7, 9] ∧ st.emitted = [7, 8, 9] := by
  have hstart : (broadcastMachine (GenStage.echo []) 0).Reach Machine.Anytime two := .start two_start
  refine ⟨?_, ?_, ?_, ?_⟩
  · exact hstart.exists_run (asked 1 ++ [(refused .full, .cast 7)] ++ asked 1) (by decide)
  · exact hstart.exists_run (asked 1 ++ [(refused .closed, .cast 7)] ++ asked 1) (by decide)
  · have hone : (broadcastMachine (GenStage.echo []) 0).start (StageLoop.handleSubscribe (.echo []) 0
        .clear (.new .broadcast .producer ()) 1 10 .default) :=
      .subscribe .clear 1 10 .default (.new .producer ()) (by decide)
    exact (Machine.Reach.start hone).exists_run
      [(.clear, .askDemand 1 2), (refused .full, .cast 7), (.clear, .cast 8)] (by decide)
  · exact hstart.exists_run [(.clear, .askDemand 1 1), (.clear, .askDemand 2 5), (.clear, .cast 7),
      (.clear, .cast 8), (.clear, .cancel 1 .down), (.clear, .cast 9)] (by decide)

/-- subscription 1 ends while an event is buffered, for which subscription 2 then asks -/
theorem broadcast_in_order_two :
    ∃ st, (broadcastMachine (GenStage.echo []) 0).Reach (Unimpeded (GenStage.echo [])) st ∧
      2 ∈ st.ls.downstreams ∧ received st.sent 2 = [7, 8] ∧ st.emitted = [7, 8, 9] ∧
      received st.sent 2 <+: st.emitted := by
  have hstart : (broadcastMachine (GenStage.echo []) 0).Reach (Unimpeded (GenStage.echo [])) two :=
    .start two_start
  obtain ⟨st, hst, ht, hrec, hem⟩ := hstart.exists_checked
    (p := fun st => 2 ∈ st.ls.downstreams ∧ received st.sent 2 = [7, 8] ∧ st.emitted = [7, 8, 9])
    [(.clear, .askDemand 1 2), (.clear, .askDemand 2 1), (.clear, .cast 7), (.clear, .cast 8),
      (.clear, .cancel 1 .down), (.clear, .cast 9), (.clear, .askDemand 2 1)] (by decide)
  exact ⟨st, hst, ht, hrec, hem, broadcast_in_order hst ht⟩

end Rebar.Stage

import Rebar.GenStage.Broadcast
import Rebar.GenStage.Flow

/-!
# What a stage does to one subscription

A subscription is known to two stages: its producer keeps the demand that is not served yet, its
consumer the demand that is not fulfilled yet.  This module follows both through the handlers, for
one subscription among any number of others.
-/

namespace Rebar.Stage

variable {V S : Type}

/-! ## dispatchers -/

def pendingOf (tag : SubscriptionTag) (subs : List ConsumerDemand) : Nat :=
  (subs.map fun sub => if sub.tag = tag then sub.pendingDemand else 0).sum

def givenTo (tag : SubscriptionTag) (deliveries : List (SubscriptionTag × List V)) : Nat :=
  (deliveries.map fun d => if d.1 = tag then d.2.length else 0).sum

@[simp] theorem pendingOf_cons (tag : SubscriptionTag) (sub : ConsumerDemand)
    (subs : List ConsumerDemand) : pendingOf tag (sub :: subs)
      = (if sub.tag = tag then sub.pendingDemand else 0) + pendingOf tag subs := by
  simp [pendingOf]

@[simp] theorem givenTo_cons (tag : SubscriptionTag) (d : SubscriptionTag × List V)
    (deliveries : List (SubscriptionTag × List V)) : givenTo tag (d :: deliveries)
      = (if d.1 = tag then d.2.length else 0) + givenTo tag deliveries := by
  simp [givenTo]

theorem pendingOf_append (tag : SubscriptionTag) (a b : List ConsumerDemand) :
    pendingOf tag (a ++ b) = pendingOf tag a + pendingOf tag b := by
  simp [pendingOf]

/-- a dispatcher that keeps the subscriptions and gives out the demand it takes away -/
structure Dispatcher.Conserves (d : Dispatcher V) : Prop where
  tags : ∀ events subs, (d.dispatch events subs).1.map (·.tag) = subs.map (·.tag)
  demand : ∀ tag events subs, pendingOf tag (d.dispatch events subs).1
    + givenTo tag (d.dispatch events subs).2.deliveries = pendingOf tag subs

theorem demandDispatch_tags (events : List V) (subs : List ConsumerDemand) :
    (demandDispatch events subs).1.map (·.tag) = subs.map (·.tag) := by
  induction subs generalizing events with
  | nil => rfl
  | cons sub subs ih =>
    rw [demandDispatch_cons]
    exact congrArg (sub.tag :: ·) (ih _)

theorem pending_given (tag t : SubscriptionTag) {n d : Nat} (h : n ≤ d) :
    (if t = tag then d - n else 0) + (if t = tag then n else 0) = if t = tag then d else 0 := by
  split
  · exact Nat.sub_add_cancel h
  · rfl

theorem demandDispatch_demand (tag : SubscriptionTag) (events : List V)
    (subs : List ConsumerDemand) : pendingOf tag (demandDispatch events subs).1
      + givenTo tag (demandDispatch events subs).2.deliveries = pendingOf tag subs := by
  fun_induction demandDispatch events subs with
  | case1 => rfl
  | case2 => rfl
  | case3 remaining sub subs hne hzero subs' result heq ih =>
    rw [heq] at ih
    dsimp only at ih ⊢
    rw [pendingOf_cons, pendingOf_cons]
    omega
  | case4 remaining sub subs hne hpos take batch subs' result heq ih =>
    rw [heq] at ih
    dsimp only at ih ⊢
    have hle : batch.length ≤ sub.pendingDemand := by
      show (remaining.take (min remaining.length sub.pendingDemand)).length ≤ _
      rw [List.length_take]
      omega
    have hhead := pending_given tag sub.tag hle
    rw [pendingOf_cons, pendingOf_cons, givenTo_cons]
    dsimp only
    omega

theorem demand_conserves : (Dispatcher.demand : Dispatcher V).Conserves :=
  ⟨demandDispatch_tags, demandDispatch_demand⟩

theorem pendingOf_lower (tag : SubscriptionTag) {subs : List ConsumerDemand} (batch : List V)
    (h : ∀ sub ∈ subs, batch.length ≤ sub.pendingDemand) :
    pendingOf tag (subs.map (·.lower batch.length))
      + givenTo tag (subs.map fun sub => (sub.tag, batch)) = pendingOf tag subs := by
  induction subs with
  | nil => rfl
  | cons sub subs ih =>
    have ih' := ih fun s hs => h s (List.mem_cons_of_mem _ hs)
    have hhead := pending_given tag sub.tag (h sub List.mem_cons_self)
    rw [List.map_cons, List.map_cons, pendingOf_cons, pendingOf_cons, givenTo_cons]
    show (if sub.tag = tag then sub.pendingDemand - batch.length else 0) + _ + _ = _
    dsimp only
    omega

theorem broadcast_conserves : (Dispatcher.broadcast : Dispatcher V).Conserves := by
  refine ⟨fun events subs => ?_, fun tag events subs => ?_⟩
  · show (broadcastDispatch events subs).1.map _ = _
    rw [broadcastDispatch_eq]
    exact map_tag_lower subs _
  · show pendingOf tag (broadcastDispatch events subs).1
      + givenTo tag (broadcastDispatch events subs).2.deliveries = _
    rw [broadcastDispatch_eq]
    dsimp only
    split
    next hzero =>
      rw [hzero]
      exact congrArg (pendingOf tag) (List.map_id subs)
    next =>
      have hlen : (events.take (min events.length (leastDemand subs))).length
          = min events.length (leastDemand subs) :=
        List.length_take_of_le (Nat.min_le_left ..)
      have hlower := pendingOf_lower tag (events.take (min events.length (leastDemand subs)))
        fun sub hsub => hlen.trans_le ((Nat.min_le_right ..).trans (leastDemand_le hsub))
      rw [hlen] at hlower
      exact hlower

/-! ## the commands of a subscription -/

namespace StageCommand
variable (tag : SubscriptionTag)

def About : StageCommand V → Prop
  | .subscribe t _ _ => t = tag
  | .cancel t _ => t = tag
  | .askDemand t _ => t = tag
  | .events t _ => t = tag
  | .call _ => False
  | .cast _ => False
  | .subscriptionConfirmed t _ _ => t = tag

def asks : StageCommand V → Nat
  | .askDemand t n => if t = tag then n else 0
  | _ => 0

/-- the number of events a command carries for the subscription -/
def eventCount (cmd : StageCommand V) : Nat := (cmd.eventsFor tag).length

def requests : StageCommand V → Nat
  | .subscribe t _ _ => if t = tag then 1 else 0
  | _ => 0

def confirms : StageCommand V → Nat
  | .subscriptionConfirmed t _ _ => if t = tag then 1 else 0
  | _ => 0

variable {tag} {cmd : StageCommand V}

theorem counts_of_not_about (h : ¬ cmd.About tag) :
    cmd.asks tag = 0 ∧ cmd.eventCount tag = 0 ∧ cmd.requests tag = 0 ∧ cmd.confirms tag = 0 := by
  cases cmd with
  | subscribe t consumer opts => exact ⟨rfl, rfl, if_neg h, rfl⟩
  | cancel t reason | call msg | cast msg => exact ⟨rfl, rfl, rfl, rfl⟩
  | askDemand t n => exact ⟨if_neg h, rfl, rfl, rfl⟩
  | events t events =>
    refine ⟨rfl, ?_, rfl, rfl⟩
    have hnil : (StageCommand.events t events).eventsFor tag = [] := if_neg h
    exact List.length_eq_zero_iff.mpr hnil
  | subscriptionConfirmed t producer opts => exact ⟨rfl, rfl, rfl, if_neg h⟩

end StageCommand

def total (f : StageCommand V → Nat) (sent : List (StageId × StageCommand V)) : Nat :=
  (sent.map fun out => f out.2).sum

theorem total_append (f : StageCommand V → Nat) (a b : List (StageId × StageCommand V)) :
    total f (a ++ b) = total f a + total f b := by
  simp [total]

theorem total_single (f : StageCommand V → Nat) (dst : StageId) (cmd : StageCommand V) :
    total f [(dst, cmd)] = f cmd := by
  simp [total]

theorem total_eq_zero {f : StageCommand V → Nat} {sent : List (StageId × StageCommand V)}
    (h : ∀ out ∈ sent, f out.2 = 0) : total f sent = 0 := by
  induction sent with
  | nil => rfl
  | cons out sent ih =>
    show f out.2 + total f sent = 0
    rw [h out List.mem_cons_self, ih fun o ho => h o (List.mem_cons_of_mem _ ho)]

section
variable {downs : HashMap SubscriptionTag DownstreamSubscription} {chan : SubscriptionTag → TrySend}
  {tag : SubscriptionTag}

variable {deliveries : List (SubscriptionTag × List V)}

theorem deliverEvents_sent {out : StageId × StageCommand V}
    (h : out ∈ (deliverEvents downs chan deliveries).sent) :
    ∃ t events, out.2 = .events t events ∧ downs.lookup t = some ⟨out.1⟩ := by
  induction deliveries with
  | nil => cases h
  | cons d deliveries ih =>
    unfold deliverEvents at h
    cases hl : downs.lookup d.1 with
    | none =>
      rw [hl] at h
      exact ih h
    | some down =>
      rw [hl] at h
      cases hc : chan d.1 with
      | ok =>
        rw [hc] at h
        rcases List.mem_cons.mp h with rfl | hmem
        · exact ⟨d.1, d.2, rfl, hl⟩
        · exact ih hmem
      | full | closed =>
        rw [hc] at h
        exact ih h

theorem deliverEvents_total {down : DownstreamSubscription} (hdown : downs.lookup tag = some down)
    (hok : chan tag = .ok) (deliveries : List (SubscriptionTag × List V)) :
    total (StageCommand.eventCount tag) (deliverEvents downs chan deliveries).sent
      = givenTo tag deliveries := by
  induction deliveries with
  | nil => rfl
  | cons d deliveries ih =>
    rw [givenTo_cons]
    unfold deliverEvents
    by_cases htag : d.1 = tag
    · rw [htag, hdown, hok, if_pos rfl]
      show ((if tag = tag then d.2 else []) : List V).length + total _ _ = _
      rw [if_pos rfl]
      exact congrArg (d.2.length + ·) ih
    · rw [if_neg htag, Nat.zero_add]
      cases downs.lookup d.1 with
      | none => exact ih
      | some down' =>
        cases chan d.1 with
        | ok =>
          show ((if d.1 = tag then d.2 else []) : List V).length + total _ _ = _
          rw [if_neg htag]
          exact (Nat.zero_add _).trans ih
        | full => exact ih
        | closed => exact ih

end

/-! ## the demand of a subscription -/

section
variable {tag t : SubscriptionTag}

variable {subs : List ConsumerDemand}

theorem pendingOf_of_not_mem (h : tag ∉ subs.map (·.tag)) : pendingOf tag subs = 0 := by
  induction subs with
  | nil => rfl
  | cons sub subs ih =>
    rw [List.map_cons, List.mem_cons, not_or] at h
    rw [pendingOf_cons, if_neg (Ne.symm h.1), ih h.2]

theorem exists_find_of_count (h : (subs.map (·.tag)).count tag = 1) :
    ∃ d, subs.find? (·.tag = tag) = some ⟨tag, d⟩ ∧ pendingOf tag subs = d := by
  induction subs with
  | nil => cases h
  | cons sub subs ih =>
    rw [List.map_cons, List.count_cons] at h
    by_cases htag : sub.tag = tag
    · rw [if_pos (beq_iff_eq.mpr htag)] at h
      have hrest : tag ∉ subs.map (·.tag) := List.count_eq_zero.mp (by omega)
      refine ⟨sub.pendingDemand, ?_, ?_⟩
      · rw [List.find?_cons_of_pos (by simpa using htag), ← htag]
      · rw [pendingOf_cons, if_pos htag, pendingOf_of_not_mem hrest, Nat.add_zero]
    · rw [if_neg (by simpa using htag)] at h
      obtain ⟨d, hfind, hd⟩ := ih h
      refine ⟨d, ?_, ?_⟩
      · rw [List.find?_cons_of_neg (by simpa using htag), hfind]
      · rw [pendingOf_cons, if_neg htag, hd, Nat.zero_add]

theorem addDemand_cons (ls : LoopState V) (n : Nat) {sub : ConsumerDemand}
    (h : ls.consumerDemands = sub :: subs) :
    (ls.addDemand t n).consumerDemands = if sub.tag = t
      then ⟨sub.tag, (sub.pendingDemand + n) % usizeSize⟩ :: subs
      else sub :: (LoopState.addDemand { ls with consumerDemands := subs } t n).consumerDemands := by
  unfold LoopState.addDemand
  rw [h]
  by_cases htag : sub.tag = t
  · simp [htag, List.findIdx_cons]
  · simp [htag, List.findIdx_cons]

theorem pendingOf_addDemand_of_ne (ls : LoopState V) (hne : t ≠ tag) (n : Nat) :
    pendingOf tag (ls.addDemand t n).consumerDemands = pendingOf tag ls.consumerDemands := by
  obtain ⟨disp, ups, downs, subs, buffer, type⟩ := ls
  induction subs with
  | nil => rfl
  | cons sub subs ih =>
    rw [addDemand_cons _ n rfl]
    by_cases htag : sub.tag = t
    · rw [if_pos htag, pendingOf_cons, pendingOf_cons]
      have hsub : sub.tag ≠ tag := by rw [htag]; exact hne
      rw [if_neg hsub, if_neg hsub]
    · rw [if_neg htag, pendingOf_cons, pendingOf_cons, ih]

theorem pendingOf_addDemand (ls : LoopState V) {n : Nat}
    (h : tag ∈ ls.consumerDemands.map (·.tag) ∨ n = 0)
    (hlt : pendingOf tag ls.consumerDemands + n < usizeSize) :
    pendingOf tag (ls.addDemand tag n).consumerDemands
      = pendingOf tag ls.consumerDemands + n := by
  obtain ⟨disp, ups, downs, subs, buffer, type⟩ := ls
  dsimp only at h hlt ⊢
  induction subs with
  | nil =>
    have hzero : n = 0 := h.resolve_left List.not_mem_nil
    rw [hzero]
    rfl
  | cons sub subs ih =>
    rw [addDemand_cons _ n rfl]
    rw [pendingOf_cons] at hlt
    by_cases htag : sub.tag = tag
    · rw [if_pos htag] at hlt
      rw [if_pos htag, pendingOf_cons, pendingOf_cons, if_pos htag, if_pos htag,
        Nat.mod_eq_of_lt (by omega)]
      dsimp only
      omega
    · rw [if_neg htag, Nat.zero_add] at hlt
      have hrest : tag ∈ subs.map (·.tag) ∨ n = 0 := by
        refine h.imp_left fun hmem => ?_
        rw [List.map_cons, List.mem_cons] at hmem
        exact hmem.resolve_left (Ne.symm htag)
      rw [if_neg htag, pendingOf_cons, pendingOf_cons, if_neg htag, ih hrest hlt]
      omega

theorem pendingOf_filter (hne : t ≠ tag) (subs : List ConsumerDemand) :
    pendingOf tag (subs.filter (·.tag ≠ t)) = pendingOf tag subs ∧
      ((subs.filter (·.tag ≠ t)).map (·.tag)).count tag = (subs.map (·.tag)).count tag := by
  induction subs with
  | nil => exact ⟨rfl, rfl⟩
  | cons sub subs ih =>
    rw [pendingOf_cons, List.map_cons, List.count_cons]
    by_cases htag : sub.tag = t
    · have hsub : sub.tag ≠ tag := by rw [htag]; exact hne
      rw [List.filter_cons_of_neg (by simpa using htag), if_neg hsub,
        if_neg (by simpa using hsub), Nat.zero_add]
      exact ih
    · rw [List.filter_cons_of_pos (by simpa using htag), pendingOf_cons, List.map_cons,
        List.count_cons, ih.1, ih.2]
      exact ⟨rfl, rfl⟩

end

/-! ## serving a subscription -/

structure Live (env : Peers) : Prop where
  drain : ∀ t, env.drain t ≠ .closed
  fresh : ∀ t, env.fresh t ≠ .closed
  reachable : ∀ t, env.reachable t = true
  held : env.held = true

structure Roomy (tag : SubscriptionTag) (env : Peers) : Prop where
  drain : env.drain tag = .ok
  fresh : env.fresh tag = .ok

def Entered (tag : SubscriptionTag) (ls : LoopState V) : Prop :=
  (ls.consumerDemands.map (·.tag)).count tag
    = if (ls.downstreams.lookup tag).isSome then 1 else 0

/-- whatever the step does, of the subscription it only serves demand: each event for it goes to its
consumer and takes one off its demand -/
structure Serves (tag : SubscriptionTag) (st st' : StageLoop V S) : Prop where
  dispatcher : st'.ls.dispatcher = st.ls.dispatcher
  upstream : st'.ls.upstreams.lookup tag = st.ls.upstreams.lookup tag
  downstream : st'.ls.downstreams.lookup tag = st.ls.downstreams.lookup tag
  entries : (st'.ls.consumerDemands.map (·.tag)).count tag
    = (st.ls.consumerDemands.map (·.tag)).count tag
  sent : ∃ new, st'.sent = st.sent ++ new ∧
    pendingOf tag st'.ls.consumerDemands + total (StageCommand.eventCount tag) new
      = pendingOf tag st.ls.consumerDemands ∧
    ∀ out ∈ new, out.2.About tag →
      (∃ events, out.2 = .events tag events) ∧ st.ls.downstreams.lookup tag = some ⟨out.1⟩

variable {tag : SubscriptionTag} {st st' st'' : StageLoop V S}

theorem Entered.pendingOf_eq_zero {ls : LoopState V} (h : Entered tag ls)
    (hnone : ls.downstreams.lookup tag = none) : pendingOf tag ls.consumerDemands = 0 := by
  unfold Entered at h
  rw [hnone] at h
  exact pendingOf_of_not_mem (List.count_eq_zero.mp h)

theorem Serves.entered (h : Serves tag st st') (he : Entered tag st.ls) : Entered tag st'.ls := by
  unfold Entered
  rw [h.entries, h.downstream]
  exact he

theorem serves_quiet (hd : st'.ls.dispatcher = st.ls.dispatcher)
    (hu : st'.ls.upstreams.lookup tag = st.ls.upstreams.lookup tag)
    (hdown : st'.ls.downstreams.lookup tag = st.ls.downstreams.lookup tag)
    (hentries : (st'.ls.consumerDemands.map (·.tag)).count tag
      = (st.ls.consumerDemands.map (·.tag)).count tag)
    (hpend : pendingOf tag st'.ls.consumerDemands = pendingOf tag st.ls.consumerDemands)
    (hsent : st'.sent = st.sent) : Serves tag st st' := by
  refine ⟨hd, hu, hdown, hentries, [], ?_, hpend, nofun⟩
  rw [hsent, List.append_nil]

theorem Serves.refl (st : StageLoop V S) : Serves tag st st :=
  serves_quiet rfl rfl rfl rfl rfl rfl

theorem serves_user (st : StageLoop V S) (user : S) : Serves tag st { st with user := user } :=
  serves_quiet rfl rfl rfl rfl rfl rfl

theorem Serves.trans (h : Serves tag st st') (h' : Serves tag st' st'') : Serves tag st st'' := by
  obtain ⟨a, ha, hpa, hda⟩ := h.sent
  obtain ⟨b, hb, hpb, hdb⟩ := h'.sent
  refine ⟨h'.dispatcher.trans h.dispatcher, h'.upstream.trans h.upstream,
    h'.downstream.trans h.downstream, h'.entries.trans h.entries, a ++ b, ?_, ?_, ?_⟩
  · rw [hb, ha, List.append_assoc]
  · rw [total_append]
    omega
  · intro out hout habout
    rcases List.mem_append.mp hout with hmem | hmem
    · exact hda out hmem habout
    · rw [← h.downstream]
      exact hdb out hmem habout

theorem Serves.send (h : Serves tag st st') (dst : StageId) {cmd : StageCommand V}
    (hcmd : ¬ cmd.About tag) : Serves tag st (st'.send dst cmd) := by
  refine h.trans ⟨rfl, rfl, rfl, rfl, [(dst, cmd)], rfl, ?_, ?_⟩
  · rw [total_single, (StageCommand.counts_of_not_about hcmd).2.1]
    rfl
  · intro out hout habout
    rw [List.mem_singleton.mp hout] at habout
    exact absurd habout hcmd

theorem Serves.told (h : Serves tag st st') {dst : StageId} {cmd : StageCommand V}
    (ht : Told st' dst cmd st'') (hcmd : ¬ cmd.About tag) : Serves tag st st'' := by
  rcases ht with rfl | rfl
  · exact h
  · exact h.send dst hcmd

variable {chan : SubscriptionTag → TrySend}

/-- **One round of dispatch**, of any events and with any buffer. -/
theorem serves_round (hcons : st.ls.dispatcher.Conserves) (hent : Entered tag st.ls)
    (hok : (st.ls.downstreams.lookup tag).isSome → chan tag = .ok) (xs buffer emitted : List V) :
    Serves tag st { st with
      ls := { st.ls with
        consumerDemands := (st.ls.dispatcher.dispatch xs st.ls.consumerDemands).1
        eventBuffer := buffer }
      sent := st.sent ++ (deliverEvents st.ls.downstreams chan
        (st.ls.dispatcher.dispatch xs st.ls.consumerDemands).2.deliveries).sent
      emitted := emitted } := by
  have htags := hcons.tags xs st.ls.consumerDemands
  have hdemand := hcons.demand tag xs st.ls.consumerDemands
  refine ⟨rfl, rfl, rfl, congrArg (List.count tag) htags, _, rfl, ?_, fun out hout habout => ?_⟩
  · cases hl : st.ls.downstreams.lookup tag with
    | none =>
      have hzero := hent.pendingOf_eq_zero hl
      have hquiet : total (StageCommand.eventCount tag) (deliverEvents st.ls.downstreams chan
          (st.ls.dispatcher.dispatch xs st.ls.consumerDemands).2.deliveries).sent = 0 := by
        refine total_eq_zero fun out hout => (StageCommand.counts_of_not_about ?_).2.1
        obtain ⟨t, events, hcmd, hdown⟩ := deliverEvents_sent hout
        rw [hcmd]
        rintro (rfl : t = tag)
        rw [hl] at hdown
        cases hdown
      show pendingOf tag (st.ls.dispatcher.dispatch xs st.ls.consumerDemands).1 + _ = _
      omega
    | some down =>
      rw [deliverEvents_total hl (hok (by rw [hl]; rfl))]
      exact hdemand
  · obtain ⟨t, events, hcmd, hdown⟩ := deliverEvents_sent hout
    rw [hcmd] at habout
    obtain rfl : t = tag := habout
    exact ⟨⟨events, hcmd⟩, hdown⟩

section handlers
variable {impl : GenStage V S} {self : StageId} {env : Peers} (hlive : Live env)
include hlive

theorem Flow.serves (h : Flow impl env st st') (hroom : (st.ls.downstreams.lookup tag).isSome →
    Roomy tag env) (hcons : st.ls.dispatcher.Conserves) (hent : Entered tag st.ls) :
    Serves tag st st' := by
  induction h with
  | refl => exact .refl st
  | called _ _ ih => exact ih.trans (serves_user _ _)
  | round xs buffer emitted _ hchan ih =>
    refine ih.trans (serves_round (by rw [ih.dispatcher]; exact hcons) (ih.entered hent) ?_ xs _ _)
    rw [ih.downstream]
    intro hsome
    rcases hchan with rfl | rfl
    · exact (hroom hsome).drain
    · exact (hroom hsome).fresh
  | lost _ hclosed => exact absurd hclosed (not_or.mpr ⟨hlive.drain _, hlive.fresh _⟩)

theorem Acts.serves {cmd : StageCommand V} (h : Acts impl self env st cmd st')
    (hcmd : ¬ cmd.About tag) : Serves tag st st' := by
  have hups : ∀ ups user, ups.lookup tag = st.ls.upstreams.lookup tag →
      Serves tag st { st with ls := { st.ls with upstreams := ups }, user := user } :=
    fun ups user hup => serves_quiet rfl hup rfl rfl rfl rfl
  cases h with
  | subscribed hsent =>
    refine Serves.told ?_ hsent hcmd
    refine serves_quiet rfl rfl (AList.lookup_insert_ne (Ne.symm hcmd)) ?_ ?_ rfl
    · simp [ConsumerDemand.new, List.count_append, show _ ≠ tag from hcmd]
    · rw [pendingOf_append]
      simp [pendingOf, ConsumerDemand.new]
  | confirmed _ hsent =>
    exact (hups _ _ (AList.lookup_insert_ne (Ne.symm hcmd))).told hsent hcmd
  | entered =>
    exact serves_quiet rfl rfl rfl (congrArg (List.count tag) (map_tag_addDemand ..))
      (pendingOf_addDemand_of_ne st.ls hcmd _) rfl
  | forwarded => exact (Serves.refl st).send _ hcmd
  | received _ _ hsent =>
    exact (hups _ _ (AList.lookup_insert_ne (Ne.symm hcmd))).told hsent hcmd
  | gone _ _ hgone => exact absurd (hlive.reachable _) hgone
  | leftBelow _ hsent =>
    obtain ⟨hpend, hcount⟩ := pendingOf_filter hcmd st.ls.consumerDemands
    refine Serves.told ?_ hsent hcmd
    exact serves_quiet rfl rfl (AList.lookup_erase_ne (Ne.symm hcmd)) hcount hpend rfl
  | leftAbove _ hsent =>
    exact (hups _ _ (AList.lookup_erase_ne (Ne.symm hcmd))).told hsent hcmd

/-- **A command about another subscription serves this one, if it does anything to it.** -/
theorem serves_handle (impl : GenStage V S) (self : StageId) (hroom : (st.ls.downstreams.lookup tag).isSome →
    Roomy tag env) (hcons : st.ls.dispatcher.Conserves) (hent : Entered tag st.ls)
    {cmd : StageCommand V} (hcmd : ¬ cmd.About tag) :
    Serves tag st (StageLoop.handle impl self env st cmd) := by
  obtain ⟨mid, mid', hbefore, hact, hafter⟩ := handle_acts impl self env st cmd
  have hmid : Serves tag st mid' := by
    have hflow := hbefore.serves hlive hroom hcons hent
    rcases hact with rfl | hact
    · exact hflow
    · exact hflow.trans (hact.serves hlive hcmd)
  refine hmid.trans (hafter.serves hlive ?_ ?_ (hmid.entered hent))
  · rw [hmid.downstream]
    exact hroom
  · rw [hmid.dispatcher]
    exact hcons

end handlers
end Rebar.Stage

import Rebar.GenStage.Account

/-!
# Turns

What one command does to the account of one subscription, at the stage that handles it.  The consumer
`c` of the subscription owes what it has asked for and not received, its producer `p` has the demand
that is not served, and a turn moves amounts between the two and the commands that carry them.

* `turn_other`, `turn_ask`, `turn_forward`, `turn_subscribe`, `turn_confirmed`, `turn_events`
              every command is a turn.
-/

namespace Rebar.Stage

variable {V S : Type}

/-! ## the account of a subscription -/

namespace StageLoop
variable (tag : SubscriptionTag)

def owed (st : StageLoop V S) : Nat :=
  ((st.ls.upstreams.lookup tag).map (·.outstandingDemand)).getD 0

def pending (st : StageLoop V S) : Nat := pendingOf tag st.ls.consumerDemands

def subscribed (st : StageLoop V S) : Nat :=
  if (st.ls.upstreams.lookup tag).isSome then 1 else 0

end StageLoop

/-- where a command about the subscription of `c` to `p` may be on its way, and what it says -/
def Routed (p c k : StageId) : StageCommand V → Prop
  | .subscribe _ consumer _ => k = p ∧ consumer = c
  | .cancel _ _ => False
  | .askDemand _ _ => k = p
  | .events _ _ => k = c
  | .call _ => True
  | .cast _ => True
  | .subscriptionConfirmed _ producer _ => k = c ∧ producer = p

/-- the window of a subscription is kept, and a manual one asks for nothing by itself -/
structure UpstreamSubscription.Sound (up : UpstreamSubscription) : Prop where
  window : up.outstandingDemand ≤ up.maxDemand
  small : up.maxDemand < usizeSize
  manual : up.mode = .manual → up.outstandingDemand = 0

/-- what a stage `k` may know of the subscription of `c` to `p` -/
structure Knows (tag : SubscriptionTag) (p c k : StageId) (st : StageLoop V S) : Prop where
  conserves : st.ls.dispatcher.Conserves
  entered : Entered tag st.ls
  upstream : ∀ up, st.ls.upstreams.lookup tag = some up → k = c ∧ up.producer = p ∧ up.Sound
  downstream : ∀ down, st.ls.downstreams.lookup tag = some down → k = p ∧ down.consumer = c

/-- what a stage `id` does to the subscription when it handles a command -/
structure Turn (tag : SubscriptionTag) (p c id : StageId) (st : StageLoop V S)
    (cmd : StageCommand V) (st' : StageLoop V S) : Prop where
  knows : Knows tag p c id st'
  routed : ∀ out ∈ st'.sent, out.2.About tag → Routed p c out.1 out.2
  requests : total (StageCommand.requests tag) st'.sent = 0
  once : total (StageCommand.confirms tag) st'.sent + st'.subscribed tag
    = cmd.requests tag + cmd.confirms tag + st.subscribed tag
  accepted : (st'.ls.downstreams.lookup tag).isSome ↔
    (st.ls.downstreams.lookup tag).isSome ∨ cmd.requests tag ≠ 0
  balance : st'.owed tag + (st.pending tag + cmd.asks tag + cmd.eventCount tag)
    = st.owed tag
      + (st'.pending tag + total (StageCommand.asks tag) st'.sent
        + total (StageCommand.eventCount tag) st'.sent)

variable {tag : SubscriptionTag} {p c id k : StageId} {st st' : StageLoop V S}
  {cmd : StageCommand V}

theorem owed_of_none (h : st.ls.upstreams.lookup tag = none) :
    st.owed tag = 0 ∧ st.subscribed tag = 0 := by
  unfold StageLoop.owed StageLoop.subscribed
  rw [h]
  exact ⟨rfl, rfl⟩

theorem owed_of_some {up : UpstreamSubscription} (h : st.ls.upstreams.lookup tag = some up) :
    st.owed tag = up.outstandingDemand ∧ st.subscribed tag = 1 := by
  unfold StageLoop.owed StageLoop.subscribed
  rw [h]
  exact ⟨rfl, rfl⟩

theorem Knows.owed_eq_zero (h : Knows tag p c k st) (hk : k ≠ c) :
    st.owed tag = 0 ∧ st.subscribed tag = 0 := by
  cases hl : st.ls.upstreams.lookup tag with
  | none => exact owed_of_none hl
  | some up => exact absurd (h.upstream up hl).1 hk

theorem Knows.pending_eq_zero (h : Knows tag p c k st) (hk : k ≠ p) : st.pending tag = 0 := by
  apply h.entered.pendingOf_eq_zero
  cases hl : st.ls.downstreams.lookup tag with
  | none => rfl
  | some down => exact absurd (h.downstream down hl).1 hk

theorem Routed.of_counts (h : cmd.About tag → Routed p c k cmd) :
    (cmd.asks tag ≠ 0 → k = p) ∧ (cmd.eventCount tag ≠ 0 → k = c) ∧
      (cmd.requests tag ≠ 0 → k = p) ∧ (cmd.confirms tag ≠ 0 → k = c) := by
  by_cases habout : cmd.About tag
  · have hr := h habout
    cases cmd with
    | subscribe t consumer opts => exact ⟨nofun, nofun, fun _ => hr.1, nofun⟩
    | cancel t reason => exact hr.elim
    | askDemand t n => exact ⟨fun _ => hr, nofun, nofun, nofun⟩
    | events t events => exact ⟨nofun, fun _ => hr, nofun, nofun⟩
    | call msg => exact habout.elim
    | cast msg => exact habout.elim
    | subscriptionConfirmed t producer opts => exact ⟨nofun, nofun, nofun, fun _ => hr.1⟩
  · obtain ⟨ha, he, hr, hc⟩ := StageCommand.counts_of_not_about habout
    exact ⟨fun hne => absurd ha hne, fun hne => absurd he hne, fun hne => absurd hr hne,
      fun hne => absurd hc hne⟩

/-! ## turns -/

theorem Knows.serves (h : Knows tag p c id st) (hs : Serves tag st st') :
    Knows tag p c id st' := by
  refine ⟨?_, hs.entered h.entered, ?_, ?_⟩
  · rw [hs.dispatcher]
    exact h.conserves
  · rw [hs.upstream]
    exact h.upstream
  · rw [hs.downstream]
    exact h.downstream

theorem Serves.kept (hs : Serves tag st st') :
    st'.owed tag = st.owed tag ∧ st'.subscribed tag = st.subscribed tag := by
  unfold StageLoop.owed StageLoop.subscribed
  rw [hs.upstream]
  exact ⟨rfl, rfl⟩

theorem Serves.sums (hs : Serves tag st st') (h : Knows tag p c id st) : ∃ new,
    st'.sent = st.sent ++ new ∧ (∀ out ∈ new, out.2.About tag → Routed p c out.1 out.2) ∧
      total (StageCommand.requests tag) new = 0 ∧ total (StageCommand.confirms tag) new = 0 ∧
      total (StageCommand.asks tag) new = 0 ∧
      st'.pending tag + total (StageCommand.eventCount tag) new = st.pending tag := by
  obtain ⟨new, hnew, hpend, hevents⟩ := hs.sent
  have hzero : ∀ out ∈ new, out.2.requests tag = 0 ∧ out.2.confirms tag = 0 ∧
      out.2.asks tag = 0 := by
    intro out hout
    by_cases habout : out.2.About tag
    · obtain ⟨⟨events, heq⟩, -⟩ := hevents out hout habout
      rw [heq]
      exact ⟨rfl, rfl, rfl⟩
    · obtain ⟨ha, -, hr, hc⟩ := StageCommand.counts_of_not_about habout
      exact ⟨hr, hc, ha⟩
  refine ⟨new, hnew, fun out hout habout => ?_, total_eq_zero fun out hout => (hzero out hout).1,
    total_eq_zero fun out hout => (hzero out hout).2.1,
    total_eq_zero fun out hout => (hzero out hout).2.2, hpend⟩
  obtain ⟨⟨events, heq⟩, hdown⟩ := hevents out hout habout
  rw [heq]
  exact (h.downstream _ hdown).2

variable {mid : StageLoop V S} {up : UpstreamSubscription}

theorem Turn.serves (ht : Turn tag p c id st cmd mid) (hs : Serves tag mid st') :
    Turn tag p c id st cmd st' := by
  obtain ⟨new, hnew, hrouted, hrequests, hconfirms, hasks, hevents⟩ := hs.sums ht.knows
  obtain ⟨howed, hsub⟩ := hs.kept
  refine ⟨ht.knows.serves hs, ?_, ?_, ?_, ?_, ?_⟩
  · rw [hnew]
    exact List.forall_mem_append.mpr ⟨ht.routed, hrouted⟩
  · rw [hnew, total_append, ht.requests, hrequests]
  · rw [hnew, total_append, hconfirms, hsub, Nat.add_zero]
    exact ht.once
  · rw [hs.downstream]
    exact ht.accepted
  · have hbal := ht.balance
    rw [hnew, total_append, total_append]
    omega

/-- a turn that serves the subscription, then changes the books and sends `new` -/
theorem Turn.of_sends (hs : Serves tag st mid) (h : Knows tag p c id st) (hsent : st.sent = [])
    {new : List (StageId × StageCommand V)} (hnew : st'.sent = mid.sent ++ new)
    (hknows : Knows tag p c id st') (hrouted : ∀ out ∈ new, Routed p c out.1 out.2)
    (hrequests : total (StageCommand.requests tag) new = 0)
    (honce : total (StageCommand.confirms tag) new + st'.subscribed tag
      = cmd.requests tag + cmd.confirms tag + st.subscribed tag)
    (haccepted : (st'.ls.downstreams.lookup tag).isSome ↔
      (st.ls.downstreams.lookup tag).isSome ∨ cmd.requests tag ≠ 0)
    (hbal : st'.owed tag + (mid.pending tag + cmd.asks tag + cmd.eventCount tag)
      = st.owed tag + (st'.pending tag + total (StageCommand.asks tag) new
        + total (StageCommand.eventCount tag) new)) : Turn tag p c id st cmd st' := by
  obtain ⟨served, hserved, srouted, srequests, sconfirms, sasks, sevents⟩ := hs.sums h
  rw [hserved, hsent, List.nil_append] at hnew
  refine ⟨hknows, ?_, ?_, ?_, haccepted, ?_⟩
  · rw [hnew]
    exact List.forall_mem_append.mpr ⟨srouted, fun out hout _ => hrouted out hout⟩
  · rw [hnew, total_append, srequests, hrequests]
  · rw [hnew, total_append, sconfirms, Nat.zero_add, honce]
  · rw [hnew, total_append, total_append]
    omega

theorem accepted_same (hcmd : cmd.requests tag = 0)
    (hdown : st'.ls.downstreams.lookup tag = st.ls.downstreams.lookup tag) :
    (st'.ls.downstreams.lookup tag).isSome ↔
      (st.ls.downstreams.lookup tag).isSome ∨ cmd.requests tag ≠ 0 := by
  rw [hdown]
  exact ⟨Or.inl, fun h => h.resolve_right fun hne => hne hcmd⟩

theorem Turn.of_quiet (hs : Serves tag st mid) (h : Knows tag p c id st) (hsent : st.sent = [])
    (hknows : Knows tag p c id st') (hsame : st'.sent = mid.sent)
    (hup : st'.ls.upstreams.lookup tag = mid.ls.upstreams.lookup tag)
    (hdown : st'.ls.downstreams.lookup tag = mid.ls.downstreams.lookup tag)
    (hcmd : cmd.requests tag = 0 ∧ cmd.confirms tag = 0)
    (hpend : st'.pending tag = mid.pending tag + cmd.asks tag + cmd.eventCount tag) :
    Turn tag p c id st cmd st' := by
  have hup' := hup.trans hs.upstream
  refine .of_sends hs h hsent (hsame.trans (List.append_nil _).symm) hknows nofun rfl ?_
    (accepted_same hcmd.1 (hdown.trans hs.downstream)) ?_
  · unfold StageLoop.subscribed
    rw [hup', hcmd.1, hcmd.2]
    rfl
  · unfold StageLoop.owed
    rw [hup', hpend]
    rfl

theorem sound_confirmed (p : StageId) (mode : DemandMode) (opts : SubscribeOpts) :
    UpstreamSubscription.Sound ⟨p, mode, min opts.minDemand (max opts.maxDemand 1),
      max opts.maxDemand 1, 0, if mode = .automatic then max opts.maxDemand 1 else 0⟩ := by
  refine ⟨?_, ?_, fun hman => ?_⟩
  · dsimp only
    split
    · exact Nat.le_refl _
    · exact Nat.zero_le _
  · exact Nat.max_lt.mpr ⟨opts.maxDemand_lt, by decide⟩
  · have hman : mode = .manual := hman
    rw [hman]
    rfl

theorem UpstreamSubscription.Sound.receive (h : up.Sound) (hmode : up.mode = .automatic) {n : Nat}
    (hn : n ≤ up.outstandingDemand) (room : Nat) :
    (up.receive n room).1.Sound ∧
      (up.receive n room).1.outstandingDemand + n
        = up.outstandingDemand + (up.receive n room).2 := by
  have hwindow := h.window
  have hauto : up.mode ≠ .manual := by
    rw [hmode]
    decide
  unfold UpstreamSubscription.receive
  dsimp only
  split
  · refine ⟨⟨?_, h.small, fun hman => absurd hman hauto⟩, ?_⟩
    · show up.outstandingDemand - n + min (up.maxDemand - (up.outstandingDemand - n)) room
        ≤ up.maxDemand
      omega
    · dsimp only
      omega
  · refine ⟨⟨?_, h.small, fun hman => absurd hman hauto⟩, ?_⟩
    · show up.outstandingDemand - n ≤ up.maxDemand
      omega
    · dsimp only
      omega

/-- a turn of the consumer that serves the subscription, then sets its entry and asks for `n` -/
theorem Turn.of_asks (hs : Serves tag st mid) (h : Knows tag p c id st) (hsent : st.sent = [])
    (hid : id = c) (hprod : up.producer = p) (hsound : up.Sound) {n : Nat}
    (hcmd : cmd.requests tag = 0 ∧ cmd.asks tag = 0)
    (honce : cmd.confirms tag + st.subscribed tag = 1)
    (hbal : up.outstandingDemand + cmd.eventCount tag = st.owed tag + n)
    (hls : st'.ls = { mid.ls with upstreams := mid.ls.upstreams.insert tag up })
    {new : List (StageId × StageCommand V)} (hnew : st'.sent = mid.sent ++ new)
    (hask : new = [] ∧ n = 0 ∨ new = [(p, .askDemand tag n)]) : Turn tag p c id st cmd st' := by
  have hmid := h.serves hs
  have hup : st'.ls.upstreams.lookup tag = some up := by
    rw [hls]
    exact AList.lookup_insert _
  obtain ⟨howed, hsub⟩ := owed_of_some hup
  obtain ⟨hrouted, hrequests, hconfirms, hasks, hevents⟩ :
      (∀ out ∈ new, Routed p c out.1 out.2) ∧ total (StageCommand.requests tag) new = 0 ∧
      total (StageCommand.confirms tag) new = 0 ∧ total (StageCommand.asks tag) new = n ∧
      total (StageCommand.eventCount tag) new = 0 := by
    rcases hask with ⟨rfl, rfl⟩ | rfl
    · exact ⟨nofun, rfl, rfl, rfl, rfl⟩
    · exact ⟨List.forall_mem_singleton.mpr rfl, rfl, rfl, if_pos rfl, rfl⟩
  refine .of_sends hs h hsent hnew ⟨?_, ?_, fun up' hu => ?_, ?_⟩ hrouted hrequests ?_
    (accepted_same hcmd.1 ?_) ?_
  · rw [hls]
    exact hmid.conserves
  · rw [hls]
    exact hmid.entered
  · cases hup.symm.trans hu
    exact ⟨hid, hprod, hsound⟩
  · rw [hls]
    exact hmid.downstream
  · rw [hcmd.1, Nat.zero_add, honce, hconfirms, hsub]
  · rw [hls]
    exact hs.downstream
  · have hpend : st'.pending tag = mid.pending tag := by rw [StageLoop.pending, hls]; rfl
    rw [howed, hpend, hcmd.2, hasks, hevents]
    omega

section
variable (impl : GenStage V S) {env : Peers} (hlive : Live env) (hsent : st.sent = [])
include hlive hsent

theorem turn_other (h : Knows tag p c id st)
    (hroom : (st.ls.downstreams.lookup tag).isSome → Roomy tag env) (hcmd : ¬ cmd.About tag) :
    Turn tag p c id st cmd (StageLoop.handle impl id env st cmd) := by
  obtain ⟨hasks, hevents, hrequests, hconfirms⟩ := StageCommand.counts_of_not_about hcmd
  have hs := serves_handle hlive impl id hroom h.conserves h.entered hcmd
  refine .of_quiet hs h hsent (h.serves hs) rfl rfl rfl ⟨hrequests, hconfirms⟩ ?_
  rw [hasks, hevents]
  rfl

theorem turn_ask (h : Knows tag p c id st)
    (hroom : (st.ls.downstreams.lookup tag).isSome → Roomy tag env)
    (hnone : st.ls.upstreams.lookup tag = none) {n : Nat}
    (hentry : (st.ls.downstreams.lookup tag).isSome ∨ n = 0)
    (hlt : st.pending tag + n < usizeSize) :
    Turn tag p c id st (.askDemand tag n)
      (StageLoop.handle impl id env st (.askDemand tag n)) := by
  have htags := congrArg (List.count tag) (map_tag_addDemand st.ls tag n)
  have hk : Knows tag p c id ({ st with ls := st.ls.addDemand tag n } : StageLoop V S) :=
    ⟨h.conserves, htags.trans h.entered, h.upstream, h.downstream⟩
  have hmem : tag ∈ st.ls.consumerDemands.map (·.tag) ∨ n = 0 := by
    refine hentry.imp_left fun hsome => ?_
    have hcount := h.entered
    unfold Entered at hcount
    rw [if_pos hsome] at hcount
    exact List.count_pos_iff.mp (by omega)
  refine Turn.serves (.of_quiet (.refl st) h hsent hk rfl rfl rfl ⟨rfl, rfl⟩ ?_)
    ((handleAskDemand_flow impl env n hnone).serves hlive hroom hk.conserves hk.entered)
  show _ = st.pending tag + if tag = tag then n else 0
  rw [if_pos rfl]
  exact pendingOf_addDemand st.ls hmem hlt

theorem turn_forward (h : Knows tag p c id st) (hup : st.ls.upstreams.lookup tag = some up) (n : Nat) :
    Turn tag p c id st (.askDemand tag n)
      (StageLoop.handle impl id env st (.askDemand tag n)) := by
  have heq : StageLoop.handle impl id env st (.askDemand tag n)
      = st.send up.producer (.askDemand tag n) := by
    show StageLoop.handleAskDemand impl env st tag n = _
    unfold StageLoop.handleAskDemand
    rw [hup]
    exact if_pos (hlive.reachable tag)
  rw [heq]
  exact .of_sends (.refl st) h hsent rfl ⟨h.conserves, h.entered, h.upstream, h.downstream⟩
    (List.forall_mem_singleton.mpr (h.upstream up hup).2.1) rfl rfl (accepted_same rfl rfl) rfl

theorem turn_subscribe (h : Knows tag p c p st) (hnone : st.ls.downstreams.lookup tag = none)
    (opts : SubscribeOpts) : Turn tag p c p st (.subscribe tag c opts)
      (StageLoop.handle impl p env st (.subscribe tag c opts)) := by
  have heq : StageLoop.handle impl p env st (.subscribe tag c opts) = StageLoop.send { st with
      user := (impl.handleSubscribe st.ls.stageType opts tag st.user).1
      ls := { st.ls with
        consumerDemands := st.ls.consumerDemands ++ [.new tag]
        downstreams := st.ls.downstreams.insert tag ⟨c⟩ } } c
      (.subscriptionConfirmed tag p opts) := if_pos ⟨hlive.held, hlive.reachable tag⟩
  have hdown : (st.ls.downstreams.insert tag ⟨c⟩).lookup tag = some ⟨c⟩ := AList.lookup_insert _
  have hcount : (st.ls.consumerDemands.map (·.tag)).count tag = 0 := by
    have hent := h.entered
    unfold Entered at hent
    rw [hnone] at hent
    exact hent
  rw [heq]
  refine .of_sends (.refl st) h hsent rfl ⟨h.conserves, ?_, h.upstream, fun down hd => ?_⟩
    (List.forall_mem_singleton.mpr ⟨rfl, rfl⟩) rfl rfl ?_ ?_
  · show ((st.ls.consumerDemands ++ [ConsumerDemand.new tag]).map (·.tag)).count tag
      = if ((st.ls.downstreams.insert tag ⟨c⟩).lookup tag).isSome then 1 else 0
    rw [hdown, List.map_append, List.count_append, hcount]
    simp [ConsumerDemand.new]
  · cases hdown.symm.trans hd
    exact ⟨rfl, rfl⟩
  · show ((st.ls.downstreams.insert tag ⟨c⟩).lookup tag).isSome ↔ _ ∨ (if tag = tag then 1 else 0) ≠ 0
    simp [hdown]
  · show st.owed tag + (st.pending tag + 0 + 0)
      = st.owed tag + (pendingOf tag (st.ls.consumerDemands ++ [.new tag]) + 0 + 0)
    rw [pendingOf_append]
    simp [pendingOf, ConsumerDemand.new, StageLoop.pending]

theorem turn_confirmed (h : Knows tag p c c st) (hnone : st.ls.upstreams.lookup tag = none)
    (opts : SubscribeOpts) : Turn tag p c c st (.subscriptionConfirmed tag p opts)
      (StageLoop.handle impl c env st (.subscriptionConfirmed tag p opts)) := by
  obtain ⟨howed, hsub⟩ := owed_of_none hnone
  generalize hmode : (impl.handleSubscribe st.ls.stageType opts tag st.user).2 = mode
  generalize hask : (if mode = .automatic then max opts.maxDemand 1 else 0) = ask
  have hsound := sound_confirmed p mode opts
  rw [hask] at hsound
  show Turn tag p c c st _ (StageLoop.handleSubscriptionConfirmed impl env st tag p opts)
  unfold StageLoop.handleSubscriptionConfirmed
  dsimp only
  rw [hmode, hask]
  have honce : (.subscriptionConfirmed tag p opts : StageCommand V).confirms tag + st.subscribed tag = 1 := by
    rw [hsub]
    exact if_pos rfl
  have hbal : ask + 0 = st.owed tag + ask := by rw [howed, Nat.zero_add, Nat.add_zero]
  by_cases hauto : mode = .automatic
  · rw [if_pos ⟨hauto, hlive.reachable tag⟩]
    rw [if_pos hauto] at hask
    exact .of_asks (.refl st) h hsent rfl rfl hsound ⟨rfl, rfl⟩ honce hbal rfl rfl (Or.inr (hask ▸ rfl))
  · rw [if_neg fun hand => hauto hand.1]
    rw [if_neg hauto] at hask
    exact .of_asks (.refl st) h hsent rfl rfl hsound ⟨rfl, rfl⟩ honce hbal rfl
      (List.append_nil _).symm (Or.inl ⟨rfl, hask.symm⟩)

theorem turn_events (h : Knows tag p c id st)
    (hroom : (st.ls.downstreams.lookup tag).isSome → Roomy tag env) {events : List V}
    (hle : events.length ≤ st.owed tag) :
    Turn tag p c id st (.events tag events)
      (StageLoop.handle impl id env st (.events tag events)) := by
  obtain ⟨mid, hflow, heq⟩ := handleEvents_flow impl env st tag events
  have hs := hflow.serves hlive hroom h.conserves h.entered
  have hmid := h.serves hs
  obtain ⟨howed, hsub⟩ := hs.kept
  have hcount : (.events tag events : StageCommand V).eventCount tag = events.length :=
    congrArg List.length (if_pos rfl)
  -- nothing more is asked for, and nothing had been asked for
  have hidle : events.length = 0 → Turn tag p c id st (.events tag events) mid := by
    intro hzero
    refine .of_quiet hs h hsent hmid rfl rfl rfl ⟨rfl, rfl⟩ ?_
    rw [hcount, hzero]
    rfl
  show Turn tag p c id st _ (StageLoop.handleEvents impl env st tag events)
  rw [heq env.reachable]
  cases hup : mid.ls.upstreams.lookup tag with
  | none =>
    rw [reask_none impl env hup]
    refine hidle (Nat.le_zero.mp ?_)
    rwa [← howed, (owed_of_none hup).1] at hle
  | some up =>
    obtain ⟨hid, hprod, hsound⟩ := hmid.upstream up hup
    obtain ⟨hout, hone⟩ := owed_of_some hup
    rw [← howed, hout] at hle
    cases hmode : up.mode with
    | manual =>
      have hsame : StageLoop.reask impl env mid tag events.length = mid := by
        unfold StageLoop.reask
        rw [hup]
        exact if_neg (by rw [hmode]; decide)
      rw [hsame]
      rw [hsound.manual hmode] at hle
      exact hidle (Nat.le_zero.mp hle)
    | automatic =>
      obtain ⟨hsound', hbal⟩ := hsound.receive hmode hle mid.ls.downstreamRoom
      obtain ⟨hprod', -, -⟩ := receive_keeps up events.length mid.ls.downstreamRoom
      rw [reask_automatic impl env hup hmode (hlive.reachable tag) events.length, hprod]
      refine .of_asks (n := (up.receive events.length mid.ls.downstreamRoom).2) hs h hsent hid
        (hprod'.trans hprod) hsound' ⟨rfl, rfl⟩ ?_ ?_ rfl rfl ?_
      · rw [← hsub, hone]
        rfl
      · rw [hcount, ← howed, hout]
        exact hbal
      · split
        next => exact Or.inr rfl
        next hz => exact Or.inl ⟨rfl, Nat.eq_zero_of_not_pos hz⟩

end

end Rebar.Stage

import Rebar.GenStage.Account
import Rebar.GenStage.Recorded

/-!
# What a stage does to a subscription that can be cancelled

One subscription is followed through the handlers of a stage, with any commands for it and for the others,
and with peers that may die or have no room, as long as the peer of this subscription is alive.
-/

namespace Rebar.Stage

variable {V S : Type}

namespace StageCommand
variable (tag : SubscriptionTag)

def opens : StageCommand V → Bool
  | .subscribe t _ _ => t = tag
  | .subscriptionConfirmed t _ _ => t = tag
  | _ => false

def cancels : StageCommand V → Bool
  | .cancel t _ => t = tag
  | _ => false

end StageCommand

def Dispatcher.AddsNone (d : Dispatcher V) : Prop :=
  ∀ events subs, ∀ tag ∈ (d.dispatch events subs).1.map (·.tag), tag ∈ subs.map (·.tag)

theorem Dispatcher.Conserves.addsNone {d : Dispatcher V} (h : d.Conserves) : d.AddsNone := by
  intro events subs tag hmem
  rw [h.tags] at hmem
  exact hmem

/-- the peer of the subscription is alive; its channel may be full -/
structure Alive (tag : SubscriptionTag) (env : Peers) : Prop where
  drain : env.drain tag ≠ .closed
  fresh : env.fresh tag ≠ .closed
  reachable : env.reachable tag = true

/-- the other party of the subscription, if the stage is one; a cancellation is passed on to it -/
def StageLoop.peerOf (tag : SubscriptionTag) (st : StageLoop V S) : Option StageId :=
  match st.ls.downstreams.lookup tag with
  | some down => some down.consumer
  | none => (st.ls.upstreams.lookup tag).map (·.producer)

/-- only a subscriber has demand, and no stage is both parties of the subscription -/
structure Tidy (tag : SubscriptionTag) (ls : LoopState V) : Prop where
  addsNone : ls.dispatcher.AddsNone
  oneSided : ls.downstreams.lookup tag = none ∨ ls.upstreams.lookup tag = none
  entries : ls.downstreams.lookup tag = none → tag ∉ ls.consumerDemands.map (·.tag)

/-- whatever the step does, it neither begins nor ends the subscription, and tells nobody to -/
structure Keeps (tag : SubscriptionTag) (st st' : StageLoop V (S × Cancels)) : Prop where
  tidy : Tidy tag st.ls → Tidy tag st'.ls
  peer : st'.peerOf tag = st.peerOf tag
  cancels : st'.cancels tag = st.cancels tag
  sent : ∃ new, st'.sent = st.sent ++ new ∧
    ∀ out ∈ new, out.2.opens tag = false ∧ out.2.cancels tag = false

variable {tag t : SubscriptionTag} {st st' st'' : StageLoop V (S × Cancels)}

theorem peerOf_eq_none_iff {st : StageLoop V S} : st.peerOf tag = none ↔
    st.ls.downstreams.lookup tag = none ∧ st.ls.upstreams.lookup tag = none := by
  unfold StageLoop.peerOf
  cases st.ls.downstreams.lookup tag <;> simp

theorem peerOf_of_downstream {st : StageLoop V S} (h : (st.ls.downstreams.lookup tag).isSome = true) :
    st.peerOf tag ≠ none := by
  intro hnone
  rw [(peerOf_eq_none_iff.mp hnone).1] at h
  cases h

theorem peerOf_of_upstream {st : StageLoop V S} {up : UpstreamSubscription}
    (h : st.ls.upstreams.lookup tag = some up) : st.peerOf tag ≠ none := by
  intro hnone
  rw [(peerOf_eq_none_iff.mp hnone).2] at h
  cases h

theorem keeps_silent (hd : st'.ls.dispatcher = st.ls.dispatcher)
    (hup : (st'.ls.upstreams.lookup tag).map (·.producer)
      = (st.ls.upstreams.lookup tag).map (·.producer))
    (hdown : st'.ls.downstreams.lookup tag = st.ls.downstreams.lookup tag)
    (hentries : tag ∈ st'.ls.consumerDemands.map (·.tag) → tag ∈ st.ls.consumerDemands.map (·.tag))
    (hcancels : st'.cancels tag = st.cancels tag) (hsent : st'.sent = st.sent) :
    Keeps tag st st' := by
  refine ⟨fun h => ⟨hd ▸ h.addsNone, ?_, fun hnone hmem => ?_⟩, ?_, hcancels, [], ?_, nofun⟩
  · rw [hdown]
    refine h.oneSided.imp_right fun hnone => ?_
    rw [hnone] at hup
    exact Option.map_eq_none_iff.mp hup
  · exact h.entries (hdown.symm.trans hnone) (hentries hmem)
  · unfold StageLoop.peerOf
    rw [hdown, hup]
  · rw [hsent, List.append_nil]

theorem Keeps.refl (st : StageLoop V (S × Cancels)) : Keeps tag st st :=
  keeps_silent rfl rfl rfl (fun h => h) rfl rfl

theorem Keeps.trans (h : Keeps tag st st') (h' : Keeps tag st' st'') : Keeps tag st st'' := by
  obtain ⟨a, ha, hqa⟩ := h.sent
  obtain ⟨b, hb, hqb⟩ := h'.sent
  refine ⟨fun ht => h'.tidy (h.tidy ht), h'.peer.trans h.peer, h'.cancels.trans h.cancels, a ++ b,
    ?_, List.forall_mem_append.mpr ⟨hqa, hqb⟩⟩
  rw [hb, ha, List.append_assoc]

theorem Keeps.send (h : Keeps tag st st') (dst : StageId) {cmd : StageCommand V}
    (hopens : cmd.opens tag = false) (hcancels : cmd.cancels tag = false) :
    Keeps tag st (st'.send dst cmd) :=
  h.trans ⟨fun h => h, rfl, rfl, [(dst, cmd)], rfl, List.forall_mem_singleton.mpr ⟨hopens, hcancels⟩⟩

theorem cancels_concat (hne : t ≠ tag) (reason : CancelReason) (record : Cancels) :
    ((record ++ [(reason, t)]).map (·.2)).count tag = (record.map (·.2)).count tag := by
  rw [List.map_append, List.count_append]
  exact congrArg _ (List.count_eq_zero.mpr fun hmem => hne (List.mem_singleton.mp hmem).symm)

theorem Keeps.told (h : Keeps tag st st') {dst : StageId} {cmd : StageCommand V}
    (ht : Told st' dst cmd st'') (hopens : cmd.opens tag = false) (hcancels : cmd.cancels tag = false) :
    Keeps tag st st'' := by
  rcases ht with rfl | rfl
  · exact h
  · exact h.send dst hopens hcancels

theorem yields_recorded {impl : GenStage V S} {s s' : S × Cancels} (h : impl.recorded.Yields s s') :
    s'.2 = s.2 := by
  rcases h with ⟨_, rfl⟩ | ⟨_, _, rfl⟩ | ⟨_, rfl⟩ | ⟨_, rfl⟩ <;> rfl

/-! ## the handlers -/

section
variable {impl : GenStage V S} {self : StageId} {env : Peers}

theorem keeps_removeDownstream (st : StageLoop V (S × Cancels)) (hne : t ≠ tag) (reason : CancelReason) :
    Keeps tag st { st with
      ls := st.ls.removeDownstream t, user := impl.recorded.handleCancel reason t st.user } :=
  keeps_silent rfl rfl (AList.lookup_erase_ne hne.symm)
    (fun hmem => (List.filter_sublist.map _).subset hmem) (cancels_concat hne _ _) rfl

theorem Flow.keeps (h : Flow impl.recorded env st st') (htidy : Tidy tag st.ls)
    (hlive : st.peerOf tag ≠ none → Alive tag env) : Keeps tag st st' := by
  induction h with
  | refl => exact .refl st
  | called _ hu ih =>
    refine ih.trans (keeps_silent rfl rfl rfl (fun h => h) ?_ rfl)
    unfold StageLoop.cancels
    rw [yields_recorded hu]
  | round xs buffer emitted _ _ ih =>
    refine ih.trans ⟨fun h => ⟨h.addsNone, h.oneSided, fun hnone hmem => ?_⟩, rfl, rfl, _, rfl, ?_⟩
    · exact h.entries hnone (h.addsNone _ _ tag hmem)
    · intro out hout
      obtain ⟨t, events, hcmd, -⟩ := deliverEvents_sent hout
      rw [hcmd]
      exact ⟨rfl, rfl⟩
  | lost _ hclosed hsome ih =>
    refine ih.trans (keeps_removeDownstream _ ?_ .down)
    rintro rfl
    -- the peer of the subscription is alive
    have halive := hlive (ih.peer ▸ peerOf_of_downstream hsome)
    exact hclosed.elim halive.drain halive.fresh

theorem Acts.keeps {cmd : StageCommand V} (h : Acts impl.recorded self env st cmd st')
    (hlive : st.peerOf tag ≠ none → Alive tag env) (hopens : cmd.opens tag = false)
    (hcancels : cmd.cancels tag = true → st.peerOf tag = none) : Keeps tag st st' := by
  cases h with
  | subscribed hsent =>
    have hne := of_decide_eq_false hopens
    refine Keeps.told ?_ hsent (decide_eq_false hne) rfl
    refine keeps_silent rfl rfl (AList.lookup_insert_ne (Ne.symm hne)) (fun hmem => ?_) rfl rfl
    rw [List.map_append] at hmem
    exact (List.mem_append.mp hmem).resolve_right fun hnew => hne (List.mem_singleton.mp hnew).symm
  | confirmed _ hsent =>
    have hne := of_decide_eq_false hopens
    refine Keeps.told ?_ hsent rfl rfl
    exact keeps_silent rfl (congrArg (Option.map _) (AList.lookup_insert_ne (Ne.symm hne))) rfl
      (fun h => h) rfl rfl
  | entered =>
    refine keeps_silent rfl rfl rfl (fun hmem => ?_) rfl rfl
    rw [map_tag_addDemand] at hmem
    exact hmem
  | forwarded => exact (Keeps.refl st).send _ rfl rfl
  | received hup _ hsent =>
    refine Keeps.told ?_ hsent rfl rfl
    refine keeps_silent rfl ?_ rfl (fun h => h) rfl rfl
    dsimp only
    rw [HashMap.lookup_insert_if]
    split
    next heq =>
      rw [heq, hup]
      exact congrArg some (receive_keeps _ _ _).1
    next => rfl
  | @gone t up _ ups _ hup hgone hups =>
    have hne : t ≠ tag := by
      rintro rfl
      exact hgone (hlive (peerOf_of_upstream hup)).reachable
    refine keeps_silent rfl (congrArg (Option.map _) ?_) rfl (fun h => h) (cancels_concat hne _ _) rfl
    rw [hups, if_neg hne.symm]
  | @leftBelow t _ _ _ hdown hsent =>
    have hne : t ≠ tag := by
      rintro rfl
      exact peerOf_of_downstream (by rw [hdown]; rfl) (hcancels (decide_eq_true rfl))
    exact (keeps_removeDownstream st hne _).told hsent rfl (decide_eq_false hne)
  | @leftAbove t _ _ _ hup hsent =>
    have hne : t ≠ tag := by
      rintro rfl
      exact peerOf_of_upstream hup (hcancels (decide_eq_true rfl))
    refine Keeps.told ?_ hsent rfl (decide_eq_false hne)
    exact keeps_silent rfl (congrArg (Option.map _) (AList.lookup_erase_ne (Ne.symm hne))) rfl
      (fun h => h) (cancels_concat hne _ _) rfl

variable (impl self)

/-- **A subscription is begun and ended by no other commands.** -/
theorem handle_keeps (htidy : Tidy tag st.ls) (hlive : st.peerOf tag ≠ none → Alive tag env)
    {cmd : StageCommand V} (hopens : cmd.opens tag = false)
    (hcancels : cmd.cancels tag = true → st.peerOf tag = none) :
    Keeps tag st (StageLoop.handle impl.recorded self env st cmd) := by
  obtain ⟨mid, mid', hbefore, hact, hafter⟩ := handle_acts impl.recorded self env st cmd
  have hmid : Keeps tag st mid' := by
    have hflow := hbefore.keeps htidy hlive
    rcases hact with rfl | hact
    · exact hflow
    · rw [← hflow.peer] at hlive hcancels
      exact hflow.trans (hact.keeps hlive hopens hcancels)
  rw [← hmid.peer] at hlive
  exact hmid.trans (hafter.keeps (hmid.tidy htidy) hlive)

/-! ## the commands that begin or end it -/

/-- the stage runs `handle_cancel`, leaves the subscription and tells the other party -/
structure Leaves (tag : SubscriptionTag) (peer : StageId) (reason : CancelReason)
    (st st' : StageLoop V (S × Cancels)) : Prop where
  tidy : Tidy tag st.ls → Tidy tag st'.ls
  free : st'.peerOf tag = none
  cancels : st'.cancels tag = st.cancels tag + 1
  sent : st'.sent = st.sent ++ [(peer, .cancel tag reason)]

theorem cancels_concat_self (reason : CancelReason) (record : Cancels) :
    ((record ++ [(reason, tag)]).map (·.2)).count tag = (record.map (·.2)).count tag + 1 := by
  rw [List.map_append, List.count_append]
  exact congrArg _ List.count_singleton_self

theorem handleCancel_leaves (st : StageLoop V (S × Cancels)) {peer : StageId}
    (hpeer : st.peerOf tag = some peer) (htidy : Tidy tag st.ls) (hlive : Alive tag env)
    (reason : CancelReason) :
    Leaves tag peer reason st (StageLoop.handleCancel impl.recorded env st tag reason) := by
  unfold StageLoop.peerOf at hpeer
  unfold StageLoop.handleCancel
  cases hdown : st.ls.downstreams.lookup tag with
  | some down =>
    rw [hdown] at hpeer
    cases hpeer
    have hup : st.ls.upstreams.lookup tag = none := by
      refine htidy.oneSided.resolve_left fun hnone => ?_
      rw [hdown] at hnone
      cases hnone
    dsimp only
    rw [if_pos hlive.reachable]
    refine ⟨fun h => ⟨h.addsNone, .inr hup, fun _ hmem => ?_⟩,
      peerOf_eq_none_iff.mpr ⟨AList.lookup_erase _ _, hup⟩, cancels_concat_self reason st.user.2, rfl⟩
    obtain ⟨sub, hsub, heq⟩ := List.mem_map.mp hmem
    exact of_decide_eq_true (List.mem_filter.mp hsub).2 heq
  | none =>
    rw [hdown] at hpeer
    obtain ⟨up, hup, rfl⟩ := Option.map_eq_some_iff.mp hpeer
    rw [hup]
    dsimp only
    rw [if_pos hlive.reachable]
    exact ⟨fun h => ⟨h.addsNone, .inl hdown, h.entries⟩,
      peerOf_eq_none_iff.mpr ⟨hdown, AList.lookup_erase _ _⟩, cancels_concat_self reason st.user.2, rfl⟩

structure Enters (tag : SubscriptionTag) (producer : StageId) (st st' : StageLoop V (S × Cancels)) :
    Prop where
  tidy : Tidy tag st.ls → Tidy tag st'.ls
  peer : st'.peerOf tag = some producer
  cancels : st'.cancels tag = st.cancels tag
  sent : ∃ new, st'.sent = st.sent ++ new ∧
    ∀ out ∈ new, out.2.opens tag = false ∧ out.2.cancels tag = false

theorem handleSubscriptionConfirmed_enters (st : StageLoop V (S × Cancels))
    (hfree : st.peerOf tag = none) (producer : StageId) (opts : SubscribeOpts) : Enters tag producer st
      (StageLoop.handleSubscriptionConfirmed impl.recorded env st tag producer opts) := by
  have hdown := (peerOf_eq_none_iff.mp hfree).1
  have htidy : ∀ upstreams, Tidy tag st.ls → Tidy tag { st.ls with upstreams := upstreams } :=
    fun _ h => ⟨h.addsNone, .inl hdown, h.entries⟩
  have hup : ∀ up : UpstreamSubscription, up.producer = producer →
      StageLoop.peerOf tag { st with ls := { st.ls with
        upstreams := st.ls.upstreams.insert tag up } } = some producer := by
    intro up hproducer
    unfold StageLoop.peerOf
    dsimp only
    rw [hdown, AList.lookup_insert]
    exact congrArg some hproducer
  unfold StageLoop.handleSubscriptionConfirmed
  dsimp only
  split
  next =>
    exact ⟨htidy _, hup _ rfl, rfl, _, rfl, List.forall_mem_singleton.mpr ⟨rfl, rfl⟩⟩
  next => exact ⟨htidy _, hup _ rfl, rfl, [], (List.append_nil _).symm, nofun⟩

end

end Rebar.Stage

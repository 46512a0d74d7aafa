import Mathlib.Algebra.BigOperators.Group.Finset.Piecewise
import Mathlib.Algebra.Order.BigOperators.Group.Finset
import Mathlib.Algebra.Order.BigOperators.Group.List
import Rebar.GenStage.Account

/-!
# Sums of demands

The demands of a stage are added as machine words: a sum above the greatest word is a panic in a debug build and
wraps around in a release build.

* `handleChecked`   handling a command in a debug build;
* `Fits`            there is room for the demand of an `AskDemand` beside the demand that is pending.
-/

namespace Rebar.Stage
open Machine

variable {V S : Type}

/-- the sum in `total_downstream_demand`, before it wraps -/
def LoopState.demandSum (ls : LoopState V) : Nat := (ls.consumerDemands.map (·.pendingDemand)).sum

namespace StageLoop

/-- `handle_events` up to the sum for the room below -/
def passOn (impl : GenStage V S) (env : Peers) (st : StageLoop V S) (tag : SubscriptionTag)
    (events : List V) : StageLoop V S :=
  let (user, emitted) := impl.handleEvents events tag st.user
  let st := { st with user := user }
  if st.ls.stageType = .producerConsumer ∧ ¬ emitted.isEmpty then
    cleanupDeadDownstreams impl (st.dispatchAndDeliver env.fresh emitted)
  else st

/-- nothing stands for the panic of a sum of demands that overflows -/
def handleChecked (impl : GenStage V S) (self : StageId) (env : Peers) (st : StageLoop V S) :
    StageCommand V → Option (StageLoop V S)
  | .askDemand tag demand =>
    match st.ls.upstreams.lookup tag with
    | some _ => some (handleAskDemand impl env st tag demand)
    | none =>
      if (st.ls.consumerDemands.find? (·.tag = tag)).any (usizeMax < ·.pendingDemand + demand) then none
      else
        let st := drainBuffer impl env { st with ls := st.ls.addDemand tag demand }
        if st.ls.stageType = .producer ∧ usizeMax < st.ls.demandSum then none
        else some (produce impl env st demand)
  | .events tag events =>
    let st := passOn impl env st tag events
    if st.ls.stageType = .producerConsumer ∧ usizeMax < st.ls.demandSum then none
    else some (reask impl env st tag events.length)
  | cmd => some (handle impl self env st cmd)

/-- the demand fits into the entry of its subscription, and beside what is pending for all of them -/
def Fits (st : StageLoop V S) : StageCommand V → Prop
  | .askDemand tag demand => st.ls.upstreams.lookup tag = none →
    ∀ cd ∈ st.ls.consumerDemands.find? (·.tag = tag), cd.pendingDemand + demand ≤ usizeMax ∧
      (st.ls.stageType ≠ .consumer → st.ls.demandSum + demand ≤ usizeMax)
  | _ => True

instance (st : StageLoop V S) : ∀ cmd, Decidable (st.Fits cmd)
  | .askDemand _ _ => inferInstanceAs (Decidable (_ → ∀ cd ∈ _, _ ∧ (_ → _)))
  | .subscribe _ _ _ | .cancel _ _ | .events _ _ | .call _ | .cast _
  | .subscriptionConfirmed _ _ _ => .isTrue trivial

end StageLoop

open StageLoop

def loopMachine (impl : GenStage V S) (self : StageId) : Machine (StageLoop V S) (Peers × StageCommand V) where
  start := fun st => ∃ dispatcher stageType user,
    (dispatcher = .demand ∨ dispatcher = .broadcast) ∧ st = .new dispatcher stageType user
  next := fun st label => some (handle impl self label.1 st label.2)

/-! ## what lowers the sum -/

theorem sum_pending_eq (subs : List ConsumerDemand) (T : Finset SubscriptionTag)
    (hT : ∀ sub ∈ subs, sub.tag ∈ T) :
    (subs.map (·.pendingDemand)).sum = ∑ tag ∈ T, pendingOf tag subs := by
  induction subs with
  | nil => simp [pendingOf]
  | cons sub subs ih =>
    have hsub := hT sub List.mem_cons_self
    simp only [List.map_cons, List.sum_cons, pendingOf_cons, Finset.sum_add_distrib,
      Finset.sum_ite_eq, if_pos hsub, ih fun s hs => hT s (List.mem_cons_of_mem _ hs)]

/-- what is given to each subscription is taken away from the sum -/
theorem Dispatcher.Conserves.sum_le {d : Dispatcher V} (h : d.Conserves) (events : List V)
    (subs : List ConsumerDemand) :
    ((d.dispatch events subs).1.map (·.pendingDemand)).sum ≤ (subs.map (·.pendingDemand)).sum := by
  have hT : ∀ subs' : List ConsumerDemand, subs'.map (·.tag) = subs.map (·.tag) →
      ∀ sub ∈ subs', sub.tag ∈ (subs.map (·.tag)).toFinset :=
    fun subs' heq sub hsub => List.mem_toFinset.mpr (heq ▸ List.mem_map_of_mem hsub)
  rw [sum_pending_eq _ _ (hT _ (h.tags events subs)), sum_pending_eq _ _ (hT _ rfl)]
  exact Finset.sum_le_sum fun tag _ => Nat.le_of_add_right_le (h.demand tag events subs).le

/-- the same stage, with no more demand pending -/
structure Eased (st st' : StageLoop V S) : Prop where
  dispatcher : st'.ls.dispatcher = st.ls.dispatcher
  stageType : st'.ls.stageType = st.ls.stageType
  sum : st'.ls.demandSum ≤ st.ls.demandSum

section
variable {impl : GenStage V S} {self : StageId} {env : Peers} {st st' st'' : StageLoop V S}
  {cmd : StageCommand V}

theorem Eased.trans (h : Eased st st') (h' : Eased st' st'') : Eased st st'' :=
  ⟨h'.dispatcher.trans h.dispatcher, h'.stageType.trans h.stageType, h'.sum.trans h.sum⟩

theorem eased_removed (t : SubscriptionTag) (user : S) :
    Eased st { st with ls := st.ls.removeDownstream t, user := user } :=
  ⟨rfl, rfl, (List.filter_sublist.map _).sum_le_sum (by simp)⟩

theorem Told.eased {dst : StageId} {sent : StageCommand V} (h : Told st' dst sent st'')
    (h' : Eased st st') : Eased st st'' := by
  rcases h with rfl | rfl
  · exact h'
  · exact ⟨h'.dispatcher, h'.stageType, h'.sum⟩

theorem Flow.eased (h : Flow impl env st st') (hcons : st.ls.dispatcher.Conserves) : Eased st st' := by
  induction h with
  | refl => exact ⟨rfl, rfl, le_rfl⟩
  | called _ _ ih => exact ⟨ih.dispatcher, ih.stageType, ih.sum⟩
  | @round mid chan xs buffer emitted _ _ ih =>
    have hmid : mid.ls.dispatcher.Conserves := ih.dispatcher ▸ hcons
    exact ⟨ih.dispatcher, ih.stageType, (hmid.sum_le xs mid.ls.consumerDemands).trans ih.sum⟩
  | lost _ _ _ ih => exact ih.trans (eased_removed _ _)

theorem Flow.upstreams (h : Flow impl env st st') : st'.ls.upstreams = st.ls.upstreams := by
  induction h with
  | refl => rfl
  | called _ _ ih | round _ _ _ _ _ ih | lost _ _ _ ih => exact ih

/-- only an `AskDemand` for one of the subscribers raises the sum -/
theorem Acts.eased (h : Acts impl self env st cmd st') (hnot : ∀ t n, cmd = .askDemand t n →
    st.ls.upstreams.lookup t ≠ none) : Eased st st' := by
  cases h with
  | subscribed hsent =>
    refine hsent.eased ⟨rfl, rfl, ?_⟩
    simp [LoopState.demandSum, ConsumerDemand.new]
  | confirmed _ hsent | received _ _ hsent | leftAbove _ hsent => exact hsent.eased ⟨rfl, rfl, le_rfl⟩
  | entered hup => exact absurd hup (hnot _ _ rfl)
  | forwarded | gone => exact ⟨rfl, rfl, le_rfl⟩
  | leftBelow _ hsent => exact hsent.eased (eased_removed _ _)

theorem addDemand_sum (ls : LoopState V) (t : SubscriptionTag) (n : Nat) :
    (ls.addDemand t n).demandSum ≤ ls.demandSum ∨
      (ls.consumerDemands.find? (·.tag = t)).isSome ∧ (ls.addDemand t n).demandSum ≤ ls.demandSum + n := by
  obtain ⟨disp, ups, downs, subs, buffer, type⟩ := ls
  unfold LoopState.demandSum
  induction subs with
  | nil => exact Or.inl le_rfl
  | cons sub subs ih =>
    rw [addDemand_cons _ n rfl]
    by_cases htag : sub.tag = t
    · have hmod := Nat.mod_le (sub.pendingDemand + n) usizeSize
      rw [if_pos htag, List.find?_cons_of_pos (by simpa using htag)]
      simp only [List.map_cons, List.sum_cons]
      exact Or.inr ⟨rfl, by omega⟩
    · rw [if_neg htag, List.find?_cons_of_neg (by simpa using htag)]
      simp only [List.map_cons, List.sum_cons] at ih ⊢
      exact ih.imp (by omega) fun h => ⟨h.1, by omega⟩

end

/-! ## runs of one stage -/

/-- the demand of a stage that sums it up is a machine word -/
structure Summable (st : StageLoop V S) : Prop where
  conserves : st.ls.dispatcher.Conserves
  sum : st.ls.stageType ≠ .consumer → st.ls.demandSum ≤ usizeMax

section
variable {impl : GenStage V S} {self : StageId} {env : Peers} {st st' : StageLoop V S} {cmd : StageCommand V}

theorem Summable.eased (h : Summable st) (heased : Eased st st') : Summable st' :=
  ⟨heased.dispatcher ▸ h.conserves, fun htype =>
    heased.sum.trans (h.sum fun heq => htype (heased.stageType.trans heq))⟩

theorem Summable.flow (h : Summable st) (hflow : Flow impl env st st') : Summable st' :=
  h.eased (hflow.eased h.conserves)

theorem Summable.addDemand (h : Summable st) {t : SubscriptionTag} {n : Nat}
    (hfit : st.Fits (.askDemand t n)) (hup : st.ls.upstreams.lookup t = none) :
    Summable { st with ls := st.ls.addDemand t n } := by
  refine ⟨h.conserves, fun htype => ?_⟩
  rcases addDemand_sum st.ls t n with hle | ⟨hsome, hle⟩
  · exact hle.trans (h.sum htype)
  · obtain ⟨cd, hcd⟩ := Option.isSome_iff_exists.mp hsome
    exact hle.trans ((hfit hup cd hcd).2 htype)

variable (impl self env)

theorem Summable.handle (h : Summable st) (hfit : st.Fits cmd) :
    Summable (StageLoop.handle impl self env st cmd) := by
  by_cases hask : ∀ t n, cmd = .askDemand t n → st.ls.upstreams.lookup t ≠ none
  · obtain ⟨mid, mid', hbefore, hact, hafter⟩ := handle_acts impl self env st cmd
    have hmid := h.flow hbefore
    refine Summable.flow ?_ hafter
    rcases hact with rfl | hact
    · exact hmid
    · exact hmid.eased (hact.eased fun t n heq => hbefore.upstreams ▸ hask t n heq)
  · push Not at hask
    obtain ⟨t, n, rfl, hup⟩ := hask
    exact (h.addDemand hfit hup).flow (handleAskDemand_flow impl env n hup)

end

theorem summable_of_reach {impl : GenStage V S} {self : StageId} {st : StageLoop V S}
    (h : (loopMachine impl self).Reach (fun st label => st.Fits label.2) st) : Summable st := by
  refine h.inv ?_ ?_
  · rintro st ⟨dispatcher, stageType, user, hd, rfl⟩
    refine ⟨?_, fun _ => Nat.zero_le _⟩
    rcases hd with rfl | rfl
    · exact demand_conserves
    · exact broadcast_conserves
  · rintro st ⟨env, cmd⟩ st' hst hfit hnext
    cases hnext
    exact hst.handle impl self env hfit

/-- **No sum of demands overflows**, and handling a command is what it is in a debug build, in every run in which the
demand of each `AskDemand` for a subscriber fits in beside the demand that is pending then. -/
theorem sums_fit (impl : GenStage V S) (self : StageId) (st : StageLoop V S)
    (h : (loopMachine impl self).Reach (fun st label => st.Fits label.2) st) (env : Peers) (cmd : StageCommand V)
    (hfit : st.Fits cmd) : handleChecked impl self env st cmd = some (handle impl self env st cmd) := by
  have hst := summable_of_reach h
  cases cmd with
  | askDemand t n =>
    cases hup : st.ls.upstreams.lookup t with
    | some up => simp only [handleChecked, hup, handle]
    | none =>
      have hentry : ¬ (st.ls.consumerDemands.find? (·.tag = t)).any (usizeMax < ·.pendingDemand + n) = true := by
        intro hany
        obtain ⟨cd, hcd, hlt⟩ := (Option.any_eq_true _ _).mp hany
        exact absurd (hfit hup cd hcd).1 (not_le.mpr (of_decide_eq_true hlt))
      have hdrain : Flow impl env { st with ls := st.ls.addDemand t n } _ := Flow.refl.drain
      have hsum := ((hst.addDemand hfit hup).flow hdrain).sum
      simp only [handleChecked, handle, handleAskDemand, hup, if_neg hentry]
      exact if_neg fun hover => absurd (hsum (by rw [hover.1]; decide)) (not_le.mpr hover.2)
  | events t events =>
    have hsum : (passOn impl env st t events).ls.stageType ≠ .consumer →
        (passOn impl env st t events).ls.demandSum ≤ usizeMax := by
      have hcalled : Flow impl env st { st with user := (impl.handleEvents events t st.user).1 } :=
        Flow.refl.called (Or.inr (Or.inl ⟨events, t, rfl⟩))
      unfold passOn
      dsimp only
      split
      · exact (hst.flow (hcalled.dispatch _)).sum
      · exact (hst.flow hcalled).sum
    exact if_neg fun hover => absurd (hsum (by rw [hover.1]; decide)) (not_le.mpr hover.2)
  | _ => rfl

/-- a subscriber that asks for `n` events -/
private def demanding (n : Nat) : List (Peers × StageCommand Nat) :=
  [(Peers.clear, .subscribe 1 10 .default), (Peers.clear, .askDemand 1 n)]

theorem sums_fit_asking : ∃ st : StageLoop Nat Unit, st.ls.consumerDemands = [⟨1, usizeMax - 5⟩] ∧
    (handleChecked (.echo []) 0 .clear st (.askDemand 1 5)).map (·.ls.consumerDemands) = some [⟨1, usizeMax⟩] := by
  have hstart : (loopMachine (.echo []) 0).Reach (fun st label => st.Fits label.2) (.new .demand .producer ()) :=
    .start ⟨_, _, _, Or.inl rfl, rfl⟩
  obtain ⟨st, hst, hdemands, hfit, hafter⟩ := hstart.exists_checked (demanding (usizeMax - 5))
    (p := fun st => st.ls.consumerDemands = [⟨1, usizeMax - 5⟩] ∧ st.Fits (.askDemand 1 5) ∧
      (handle (.echo []) 0 .clear st (.askDemand 1 5)).ls.consumerDemands = [⟨1, usizeMax⟩]) (by decide)
  refine ⟨st, hdemands, ?_⟩
  rw [sums_fit _ 0 st hst .clear _ hfit]
  exact congrArg some hafter

/-- a consumer that asks for `usize::MAX` events twice: a panic, or a demand that has wrapped around -/
theorem sums_fit_exceeded : ((loopMachine (.echo []) 0).run (.new .demand .producer ()) (demanding usizeMax)).map
    (fun st => ((handleChecked (.echo []) 0 .clear st (.askDemand 1 usizeMax)).isNone,
      (handle (.echo []) 0 .clear st (.askDemand 1 usizeMax)).ls.consumerDemands)) =
        some (true, [⟨1, usizeMax - 1⟩]) := by
  decide

end Rebar.Stage

import Rebar.GenStage.System

/-!
# A record of the cancellations

How often a stage runs `handle_cancel` is not seen in its state.  The callbacks of any stage are run beside
a record of these calls, which changes nothing else.
-/

namespace Rebar.Stage

variable {V S : Type}

/-- the calls of `handle_cancel`, oldest first -/
abbrev Cancels := List (CancelReason × SubscriptionTag)

def GenStage.recorded (impl : GenStage V S) : GenStage V (S × Cancels) where
  handleDemand := fun demand s => (((impl.handleDemand demand s.1).1, s.2),
    (impl.handleDemand demand s.1).2)
  handleEvents := fun events tag s => (((impl.handleEvents events tag s.1).1, s.2),
    (impl.handleEvents events tag s.1).2)
  handleSubscribe := fun role opts tag s => (((impl.handleSubscribe role opts tag s.1).1, s.2),
    (impl.handleSubscribe role opts tag s.1).2)
  handleCancel := fun reason tag s => (impl.handleCancel reason tag s.1, s.2 ++ [(reason, tag)])
  handleCall := fun msg s => (((impl.handleCall msg s.1).1, s.2), (impl.handleCall msg s.1).2)
  handleCast := fun msg s => (((impl.handleCast msg s.1).1, s.2), (impl.handleCast msg s.1).2)

namespace StageLoop

def forget (st : StageLoop V (S × Cancels)) : StageLoop V S :=
  ⟨st.user.1, st.ls, st.sent, st.emitted⟩

theorem forget_ls (st : StageLoop V (S × Cancels)) : st.forget.ls = st.ls := rfl

/-- how often `handle_cancel` was called for the subscription -/
def cancels (tag : SubscriptionTag) (st : StageLoop V (S × Cancels)) : Nat :=
  (st.user.2.map (·.2)).count tag

section
variable (impl : GenStage V S) (self : StageId) (env : Peers) (st : StageLoop V (S × Cancels))
  (chan : SubscriptionTag → TrySend) (events : List V) (tag : SubscriptionTag)

theorem forget_dispatchAndDeliver : st.forget.dispatchAndDeliver chan events =
    ((st.dispatchAndDeliver chan events).1.forget, (st.dispatchAndDeliver chan events).2) := by
  unfold dispatchAndDeliver
  split <;> rfl

theorem forget_maybeDispatchEmitted : st.forget.maybeDispatchEmitted chan events =
    ((st.maybeDispatchEmitted chan events).1.forget, (st.maybeDispatchEmitted chan events).2) := by
  unfold maybeDispatchEmitted
  rw [forget_ls]
  split
  next => exact forget_dispatchAndDeliver st chan events
  next => rfl

theorem forget_cleanupDeadDownstream : cleanupDeadDownstream impl st.forget tag =
    (cleanupDeadDownstream impl.recorded st tag).forget := by
  unfold cleanupDeadDownstream
  rw [forget_ls]
  split <;> rfl

theorem forget_cleanupDeadDownstreams (dead : List SubscriptionTag) :
    cleanupDeadDownstreams impl (st.forget, dead) =
      (cleanupDeadDownstreams impl.recorded (st, dead)).forget :=
  List.foldl_hom forget (forget_cleanupDeadDownstream impl)

theorem forget_emit (user : S) :
    cleanupDeadDownstreams impl ({ st.forget with user := user }.dispatchAndDeliver chan events) =
      (cleanupDeadDownstreams impl.recorded
        (dispatchAndDeliver { st with user := (user, st.user.2) } chan events)).forget := by
  rw [← forget_cleanupDeadDownstreams, ← forget_dispatchAndDeliver]
  rfl

theorem forget_maybeEmit (user : S) :
    cleanupDeadDownstreams impl ({ st.forget with user := user }.maybeDispatchEmitted chan events) =
      (cleanupDeadDownstreams impl.recorded
        (maybeDispatchEmitted { st with user := (user, st.user.2) } chan events)).forget := by
  rw [← forget_cleanupDeadDownstreams, ← forget_maybeDispatchEmitted]
  rfl

theorem forget_handleSubscribe (consumer : StageId) (opts : SubscribeOpts) :
    handleSubscribe impl self env st.forget tag consumer opts =
      (handleSubscribe impl.recorded self env st tag consumer opts).forget := by
  unfold handleSubscribe
  dsimp only
  split <;> rfl

theorem forget_handleSubscriptionConfirmed (producer : StageId) (opts : SubscribeOpts) :
    handleSubscriptionConfirmed impl env st.forget tag producer opts =
      (handleSubscriptionConfirmed impl.recorded env st tag producer opts).forget := by
  unfold handleSubscriptionConfirmed
  dsimp only
  rw [apply_ite forget]
  rfl

theorem forget_handleCancel (reason : CancelReason) :
    handleCancel impl env st.forget tag reason =
      (handleCancel impl.recorded env st tag reason).forget := by
  unfold handleCancel
  rw [forget_ls]
  repeat' split
  all_goals rfl

theorem forget_drainBuffer : drainBuffer impl env st.forget =
    (drainBuffer impl.recorded env st).forget := by
  unfold drainBuffer
  rw [forget_ls]
  split
  next => rfl
  next =>
    dsimp only
    rw [← forget_cleanupDeadDownstreams]
    rfl

theorem forget_produce (demand : Nat) : produce impl env st.forget demand =
    (produce impl.recorded env st demand).forget := by
  unfold produce
  rw [forget_ls]
  dsimp only
  split
  next => exact forget_emit impl st env.fresh _ _
  next => rfl

theorem forget_handleAskDemand (demand : Nat) : handleAskDemand impl env st.forget tag demand =
    (handleAskDemand impl.recorded env st tag demand).forget := by
  unfold handleAskDemand
  rw [forget_ls]
  split
  next => split <;> rfl
  next =>
    rw [← forget_produce, ← forget_drainBuffer]
    rfl

theorem forget_reask (count : Nat) : reask impl env st.forget tag count =
    (reask impl.recorded env st tag count).forget := by
  unfold reask
  rw [forget_ls]
  repeat' split
  all_goals rfl

theorem forget_handleEvents : handleEvents impl env st.forget tag events =
    (handleEvents impl.recorded env st tag events).forget := by
  unfold handleEvents
  dsimp only
  rw [← forget_reask]
  refine congrArg (reask impl env · tag events.length) ?_
  rw [apply_ite forget]
  exact if_congr Iff.rfl (forget_emit impl st env.fresh _ _) rfl

/-- **The record changes nothing that a stage does.** -/
theorem forget_handle (cmd : StageCommand V) : handle impl self env st.forget cmd =
    (handle impl.recorded self env st cmd).forget := by
  cases cmd with
  | subscribe tag consumer opts => exact forget_handleSubscribe impl self env st tag consumer opts
  | subscriptionConfirmed tag producer opts =>
    exact forget_handleSubscriptionConfirmed impl env st tag producer opts
  | cancel tag reason => exact forget_handleCancel impl env st tag reason
  | askDemand tag demand => exact forget_handleAskDemand impl env st tag demand
  | events tag events => exact forget_handleEvents impl env st events tag
  | call msg | cast msg => exact forget_maybeEmit impl st env.fresh _ _

end
end StageLoop

namespace System

def forget (sys : System V (S × Cancels)) : System V S where
  stage := fun k => (sys.stage k).map StageLoop.forget
  queue := sys.queue

/-- **A run of recorded stages is a run of the stages.** -/
theorem forget_handle (impl : StageId → GenStage V S) (env : Peers) (sys : System V (S × Cancels))
    (id : StageId) : sys.forget.handle impl env id =
      (sys.handle (fun k => (impl k).recorded) env id).map forget := by
  cases hs : sys.stage id with
  | none =>
    have hs' : sys.forget.stage id = none := congrArg (Option.map StageLoop.forget) hs
    unfold handle
    rw [hs, hs']
    rfl
  | some st =>
    have hs' : sys.forget.stage id = some st.forget := congrArg (Option.map StageLoop.forget) hs
    cases hq : sys.queue id with
    | nil =>
      have hq' : sys.forget.queue id = [] := hq
      unfold handle
      rw [hs, hs', hq, hq']
      rfl
    | cons cmd rest =>
      have hst := StageLoop.forget_handle (impl id) id env { st with sent := [] } cmd
      rw [handle_eq hs hq, handle_eq hs' hq]
      refine congrArg some ?_
      show sys.forget.after id rest (StageLoop.handle (impl id) id env
        (StageLoop.forget { st with sent := [] }) cmd) = _
      rw [hst]
      refine congrArg (System.mk · _) (funext fun k => ?_)
      dsimp only [after, forget]
      split <;> rfl

end System
end Rebar.Stage

import Mathlib.Algebra.Order.Ring.Nat
import Mathlib.Data.List.MinMax

/-!
# Dispatchers

The model of `gen_stage/dispatcher.rs`: how a batch of events is split over the subscribers of a
stage, given the demand each of them has left.

* `demandDispatch`      each subscriber in turn takes up to its demand;
* `broadcastDispatch`   every subscriber gets the same batch, as long as the least demand allows.

The hooks `subscribe` and `cancel` of the trait do nothing in either dispatcher.
-/

namespace Rebar.Stage

abbrev SubscriptionTag := Nat

structure ConsumerDemand where
  tag : SubscriptionTag
  pendingDemand : Nat
deriving DecidableEq

def ConsumerDemand.new (tag : SubscriptionTag) : ConsumerDemand := ⟨tag, 0⟩

structure DispatchResult (V : Type) where
  deliveries : List (SubscriptionTag × List V)
  leftover : List V

structure Dispatcher (V : Type) where
  dispatch : List V → List ConsumerDemand → List ConsumerDemand × DispatchResult V

variable {V : Type}

def demandDispatch : List V → List ConsumerDemand → List ConsumerDemand × DispatchResult V
  | remaining, [] => ([], ⟨[], remaining⟩)
  | remaining, sub :: subs =>
    if remaining.isEmpty then (sub :: subs, ⟨[], remaining⟩)
    else if sub.pendingDemand = 0 then
      let (subs, result) := demandDispatch remaining subs
      (sub :: subs, result)
    else
      let take := min remaining.length sub.pendingDemand
      let batch := remaining.take take
      let (subs, result) := demandDispatch (remaining.drop take) subs
      ({ sub with pendingDemand := sub.pendingDemand - batch.length } :: subs,
        ⟨(sub.tag, batch) :: result.deliveries, result.leftover⟩)

def leastDemand (subs : List ConsumerDemand) : Nat :=
  ((subs.map (·.pendingDemand)).min?).getD 0

def broadcastDispatch (events : List V) (subs : List ConsumerDemand) :
    List ConsumerDemand × DispatchResult V :=
  if events.isEmpty || subs.isEmpty then (subs, ⟨[], events⟩)
  else if leastDemand subs = 0 then (subs, ⟨[], events⟩)
  else
    let take := min events.length (leastDemand subs)
    let batch := events.take take
    (subs.map fun sub => { sub with pendingDemand := sub.pendingDemand - batch.length },
      ⟨subs.map fun sub => (sub.tag, batch), events.drop take⟩)

def Dispatcher.demand : Dispatcher V := ⟨demandDispatch⟩

def Dispatcher.broadcast : Dispatcher V := ⟨broadcastDispatch⟩

/-- a subscriber that was sent `n` events -/
def ConsumerDemand.lower (n : Nat) (sub : ConsumerDemand) : ConsumerDemand :=
  { sub with pendingDemand := sub.pendingDemand - n }

/-! ## one subscriber after another -/

theorem demandDispatch_nil (subs : List ConsumerDemand) :
    demandDispatch ([] : List V) subs = (subs, ⟨[], []⟩) := by
  cases subs <;> rfl

/-- **What the demand dispatcher does with one subscriber.** -/
theorem demandDispatch_cons (events : List V) (sub : ConsumerDemand) (subs : List ConsumerDemand) :
    demandDispatch events (sub :: subs) =
      let batch := events.take sub.pendingDemand
      let rest := demandDispatch (events.drop sub.pendingDemand) subs
      (sub.lower batch.length :: rest.1,
        ⟨(if batch.isEmpty then [] else [(sub.tag, batch)]) ++ rest.2.deliveries, rest.2.leftover⟩) := by
  have htake : events.take (min events.length sub.pendingDemand) = events.take sub.pendingDemand := by
    rw [Nat.min_comm, ← List.take_eq_take_min]
  have hdrop : events.drop (min events.length sub.pendingDemand) = events.drop sub.pendingDemand := by
    rcases Nat.le_total events.length sub.pendingDemand with hle | hle
    · rw [Nat.min_eq_left hle, List.drop_length, List.drop_eq_nil_of_le hle]
    · rw [Nat.min_eq_right hle]
  rw [demandDispatch]
  dsimp only
  rw [htake, hdrop]
  split
  next hempty =>
    rw [List.isEmpty_iff.mp hempty, List.take_nil, List.drop_nil, demandDispatch_nil]
    rfl
  next hne =>
    split
    next hzero =>
      rw [hzero, List.take_zero, List.drop_zero]
      rfl
    next hpos =>
      have hbatch : ¬ (events.take sub.pendingDemand).isEmpty = true := by
        rw [List.isEmpty_iff, List.take_eq_nil_iff, not_or]
        exact ⟨hpos, fun hnil => hne (List.isEmpty_iff.mpr hnil)⟩
      rw [if_neg hbatch]
      rfl

theorem demandDispatch_single (events : List V) (tag : SubscriptionTag) (d : Nat) :
    demandDispatch events [⟨tag, d⟩] = ([⟨tag, d - events.length⟩],
      ⟨if (events.take d).isEmpty then [] else [(tag, events.take d)], events.drop d⟩) := by
  have hlower : ConsumerDemand.lower (events.take d).length ⟨tag, d⟩ = ⟨tag, d - events.length⟩ := by
    show (⟨tag, d - (events.take d).length⟩ : ConsumerDemand) = _
    rw [List.length_take, show d - min d events.length = d - events.length by omega]
  rw [demandDispatch_cons, ← hlower]
  dsimp only
  rw [demandDispatch, List.append_nil]

/-! ## what a broadcast does -/

variable {subs : List ConsumerDemand} {sub : ConsumerDemand}

theorem leastDemand_le (h : sub ∈ subs) : leastDemand subs ≤ sub.pendingDemand := by
  unfold leastDemand
  cases hm : (subs.map (·.pendingDemand)).min? with
  | none => exact Nat.zero_le _
  | some m =>
    have hle := (List.min?_eq_some_iff.mp hm).2
    exact hle _ (List.mem_map_of_mem h)

theorem exists_leastDemand (h : subs ≠ []) :
    ∃ sub ∈ subs, sub.pendingDemand = leastDemand subs := by
  unfold leastDemand
  cases hm : (subs.map (·.pendingDemand)).min? with
  | none =>
    rw [List.min?_eq_none_iff, List.map_eq_nil_iff] at hm
    exact absurd hm h
  | some m =>
    have hmem := (List.min?_eq_some_iff.mp hm).1
    obtain ⟨sub, hsub, heq⟩ := List.mem_map.mp hmem
    exact ⟨sub, hsub, heq⟩

theorem leastDemand_eq_zero (h : sub ∈ subs) (h0 : sub.pendingDemand = 0) :
    leastDemand subs = 0 := by
  have hle := leastDemand_le h
  omega

/-- **What a broadcast does**: every subscriber gets as many events as all of them want. -/
theorem broadcastDispatch_eq (events : List V) (subs : List ConsumerDemand) :
    broadcastDispatch events subs =
      let n := min events.length (leastDemand subs)
      (subs.map (·.lower n),
        ⟨if n = 0 then [] else subs.map fun sub => (sub.tag, events.take n), events.drop n⟩) := by
  unfold broadcastDispatch
  by_cases hzero : min events.length (leastDemand subs) = 0
  · have hsame : subs.map (·.lower 0) = subs := List.map_id subs
    dsimp only
    rw [hzero, if_pos rfl, hsame, List.drop_zero]
    split
    · rfl
    next hsome =>
      have hlen : events.length ≠ 0 := fun hnil => hsome (by simp [List.length_eq_zero_iff.mp hnil])
      rw [if_pos (by omega)]
  · have hsome : ¬ (events.isEmpty || subs.isEmpty) = true := by
      rw [Bool.or_eq_true, List.isEmpty_iff, List.isEmpty_iff]
      rintro (rfl | rfl)
      · exact hzero (Nat.zero_min _)
      · exact hzero (Nat.min_zero _)
    have hlen : (events.take (min events.length (leastDemand subs))).length
        = min events.length (leastDemand subs) := List.length_take_of_le (Nat.min_le_left ..)
    rw [if_neg hsome, if_neg (by omega)]
    dsimp only
    rw [hlen, if_neg hzero]
    rfl

theorem broadcastDispatch_of_zero (events : List V) (h : leastDemand subs = 0) :
    broadcastDispatch events subs = (subs, ⟨[], events⟩) := by
  rw [broadcastDispatch_eq, h, Nat.min_zero]
  exact congrArg (·, _) (List.map_id subs)

/-- a part of the events is left only if some subscriber has no demand any more -/
theorem broadcastDispatch_waits {events : List V}
    (h : (broadcastDispatch events subs).2.leftover ≠ []) :
    leastDemand (broadcastDispatch events subs).1 = 0 := by
  rw [broadcastDispatch_eq] at h ⊢
  rw [ne_eq, List.drop_eq_nil_iff] at h
  rcases eq_or_ne subs [] with rfl | hne
  · rfl
  -- the batch is as long as the least demand, so whoever has that demand has none left
  obtain ⟨sub, hsub, hleast⟩ := exists_leastDemand hne
  refine leastDemand_eq_zero (List.mem_map_of_mem hsub) ?_
  show sub.pendingDemand - min events.length (leastDemand subs) = 0
  omega

end Rebar.Stage

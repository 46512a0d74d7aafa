import Rebar.GenStage.Account

/-!
# Batches over repeated dispatches

A stage dispatches an event list, keeps the leftover and dispatches it again whenever a consumer asks
for more.  The demand dispatcher splits the list over all its subscribers together, the broadcast
dispatcher once for each of them.
-/

namespace Rebar.Stage

variable {V : Type}

/-- what the subscriber `tag` is sent, in order -/
def batchesOf (deliveries : List (SubscriptionTag × List V)) (tag : SubscriptionTag) : List V :=
  deliveries.flatMap fun d => if d.1 = tag then d.2 else []

/-- every subscriber asks for more, `asked` says how much -/
def raise (asked : SubscriptionTag → Nat) (subs : List ConsumerDemand) : List ConsumerDemand :=
  subs.map fun sub => { sub with pendingDemand := sub.pendingDemand + asked sub.tag }

/-- the deliveries of all rounds and what is left after the last one -/
def Dispatcher.rounds (d : Dispatcher V) :
    List (SubscriptionTag → Nat) → List V → List ConsumerDemand → DispatchResult V
  | [], events, _ => ⟨[], events⟩
  | asked :: rest, events, subs =>
    let (subs, result) := d.dispatch events (raise asked subs)
    let later := d.rounds rest result.leftover subs
    ⟨result.deliveries ++ later.deliveries, later.leftover⟩

/-- The events are dealt out, one of the `batches` to each subscriber; the empty ones are not
delivered. -/
structure Dealt (events : List V) (subs : List ConsumerDemand) (batches : List (List V))
    (out : List ConsumerDemand × DispatchResult V) : Prop where
  within : List.Forall₂ (fun sub batch => batch.length ≤ sub.pendingDemand) subs batches
  lowered : out.1 = List.zipWith (fun sub batch => sub.lower batch.length) subs batches
  deliveries : out.2.deliveries = ((subs.map (·.tag)).zip batches).filter (!·.2.isEmpty)
  whole : out.2.deliveries.flatMap (·.2) ++ out.2.leftover = events
  spent : out.2.leftover ≠ [] → ∀ sub ∈ out.1, sub.pendingDemand = 0

theorem demandDispatch_dealt (events : List V) (subs : List ConsumerDemand) :
    ∃ batches, Dealt events subs batches (demandDispatch events subs) := by
  induction subs generalizing events with
  | nil => exact ⟨[], .nil, rfl, rfl, rfl, nofun⟩
  | cons sub subs ih =>
    obtain ⟨batches, h⟩ := ih (events.drop sub.pendingDemand)
    have hwithin : (events.take sub.pendingDemand).length ≤ sub.pendingDemand :=
      List.length_take_le ..
    rw [demandDispatch_cons]
    refine ⟨events.take sub.pendingDemand :: batches, .cons hwithin h.within,
      congrArg _ h.lowered, ?_, ?_, fun hleft s hs => ?_⟩
    · dsimp only
      rw [h.deliveries, List.map_cons, List.zip_cons_cons, List.filter_cons]
      cases (events.take sub.pendingDemand).isEmpty <;> rfl
    · have hbatch : (if (events.take sub.pendingDemand).isEmpty then []
          else [(sub.tag, events.take sub.pendingDemand)]).flatMap (·.2)
          = events.take sub.pendingDemand := by
        cases events.take sub.pendingDemand <;> simp
      dsimp only
      rw [List.flatMap_append, hbatch, List.append_assoc, h.whole, List.take_append_drop]
    · rcases List.mem_cons.mp hs with rfl | hs
      · -- something is left after this subscriber, so its batch was as long as its demand
        have hlong : sub.pendingDemand < events.length := by
          by_contra hle
          have hwhole := h.whole.trans (List.drop_eq_nil_of_le (Nat.le_of_not_lt hle))
          exact hleft (List.append_eq_nil_iff.mp hwhole).2
        show sub.pendingDemand - (events.take sub.pendingDemand).length = 0
        rw [List.length_take]
        omega
      · exact h.spent hleft s hs

theorem broadcastDispatch_whole (events : List V) {subs : List ConsumerDemand}
    (htags : (subs.map (·.tag)).Nodup) {tag : SubscriptionTag} (htag : tag ∈ subs.map (·.tag)) :
    batchesOf (broadcastDispatch events subs).2.deliveries tag
      ++ (broadcastDispatch events subs).2.leftover = events := by
  rw [batchesOf, broadcastDispatch_given events htags htag, broadcastDispatch_eq]
  exact List.take_append_drop ..

/-- **The rounds lose nothing.**  If what `got` reads off the deliveries of one dispatch, and the
leftover, are the events, then so it is for the rounds together. -/
theorem Dispatcher.rounds_whole {d : Dispatcher V} (hd : d.Conserves) {tags : List SubscriptionTag}
    (got : SubscriptionTag × List V → List V)
    (hround : ∀ events subs, subs.map (·.tag) = tags →
      (d.dispatch events subs).2.deliveries.flatMap got ++ (d.dispatch events subs).2.leftover = events)
    (asks : List (SubscriptionTag → Nat)) (events : List V) {subs : List ConsumerDemand}
    (hsubs : subs.map (·.tag) = tags) :
    (d.rounds asks events subs).deliveries.flatMap got ++ (d.rounds asks events subs).leftover
      = events := by
  induction asks generalizing events subs with
  | nil => rfl
  | cons asked asks ih =>
    have hraised : (raise asked subs).map (·.tag) = tags := by
      rw [← hsubs, raise, List.map_map]
      rfl
    have hlater := ih (d.dispatch events (raise asked subs)).2.leftover
      ((hd.tags events _).trans hraised)
    have hwhole := hround events _ hraised
    show (_ ++ _ : List _).flatMap got ++ _ = events
    rw [List.flatMap_append, List.append_assoc]
    exact (congrArg _ hlater).trans hwhole

/-- **A dispatch loses, repeats and reorders nothing.**  One call of the demand dispatcher deals the
events out, one call of the broadcast dispatcher copies their first part; and however demand grows
between dispatches of the leftover, what has been sent and what is left are the events. -/
theorem dispatch_batches (events : List V) (subs : List ConsumerDemand) (hne : subs ≠ [])
    (htags : (subs.map (·.tag)).Nodup) :
    (∃ batches, Dealt events subs batches (Dispatcher.demand.dispatch events subs)) ∧
    (Dispatcher.broadcast.dispatch events subs =
      let n := min events.length (leastDemand subs)
      (subs.map (·.lower n),
        ⟨if n = 0 then [] else subs.map fun sub => (sub.tag, events.take n), events.drop n⟩)) ∧
    ((∀ sub ∈ subs, leastDemand subs ≤ sub.pendingDemand) ∧
      ∃ sub ∈ subs, sub.pendingDemand = leastDemand subs) ∧
    ∀ asks, (Dispatcher.demand.rounds asks events subs).deliveries.flatMap (·.2)
        ++ (Dispatcher.demand.rounds asks events subs).leftover = events ∧
      ∀ sub ∈ subs, batchesOf (Dispatcher.broadcast.rounds asks events subs).deliveries sub.tag
        ++ (Dispatcher.broadcast.rounds asks events subs).leftover = events := by
  refine ⟨demandDispatch_dealt events subs, broadcastDispatch_eq events subs,
    ⟨fun _ => leastDemand_le, exists_leastDemand hne⟩, fun asks => ⟨?_, fun sub hsub => ?_⟩⟩
  · refine Dispatcher.rounds_whole demand_conserves _ (fun events' subs' _ => ?_) asks events rfl
    obtain ⟨batches, h⟩ := demandDispatch_dealt events' subs'
    exact h.whole
  · refine Dispatcher.rounds_whole broadcast_conserves _ (fun events' subs' hsame => ?_) asks events rfl
    have htag : sub.tag ∈ subs.map (·.tag) := List.mem_map_of_mem hsub
    exact broadcastDispatch_whole events' (hsame ▸ htags) (hsame ▸ htag)

theorem dispatch_batches_pair :
    (∃ batches, Dealt [1, 2, 3, 4] [⟨7, 1⟩, ⟨8, 2⟩] batches
      ([⟨7, 0⟩, ⟨8, 0⟩], ⟨[(7, [1]), (8, [2, 3])], [4]⟩)) ∧
    Dispatcher.broadcast.dispatch [1, 2, 3, 4] [⟨7, 1⟩, ⟨8, 2⟩]
      = ([⟨7, 0⟩, ⟨8, 1⟩], ⟨[(7, [1]), (8, [1])], [2, 3, 4]⟩) := by
  have h := dispatch_batches [1, 2, 3, 4] [⟨7, 1⟩, ⟨8, 2⟩] (List.cons_ne_nil _ _) (by decide)
  exact ⟨h.1, h.2.1⟩

end Rebar.Stage

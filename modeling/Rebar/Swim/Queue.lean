import Rebar.Lib.Log
import Rebar.Swim.Merge
import Rebar.Swim.Spread

/-!
# What the gossip queue keeps and sends, over any calls

* `QueueCall`, `queueMachine`   the runs of `add` and `drain` from either constructor;
* `Recorded`                    the calls of a run, each with the queue before it;
* `copies`                      how many copies about a node were returned.
-/

namespace Rebar.Swim

open GossipQueue

/-! ## calls -/

inductive QueueCall where
  | add (update : GossipUpdate)
  | drain (max : Nat)

/-- the order is the one in which the call enumerates the map -/
def queueMachine : Machine GossipQueue (Order NodeId × QueueCall) where
  start q := q = .new ∨ ∃ clusterSize maxEntries, q = .withClusterSize clusterSize maxEntries
  next
    | q, (o, .add update) => some (q.add o update)
    | q, (o, .drain max) => some (q.drain o max).1

inductive Recorded where
  | added (before : GossipQueue) (update : GossipUpdate)
  | drained (before : GossipQueue) (out : List GossipUpdate)

def GossipQueue.recorded (q : GossipQueue) : Order NodeId × QueueCall → List Recorded
  | (_, .add update) => [.added q update]
  | (o, .drain max) => [.drained q (q.drain o max).2]

namespace Recorded

def before : Recorded → GossipQueue
  | added before _ => before
  | drained before _ => before

/-- an `add` about the node that was accepted -/
def accepts (k : NodeId) : Recorded → Bool
  | added before update => update.nodeId = k && before.accepts update
  | drained _ _ => false

def about (k : NodeId) : Recorded → List GossipUpdate
  | added _ update => if update.nodeId = k then [update] else []
  | drained _ _ => []

def out : Recorded → List GossipUpdate
  | added _ _ => []
  | drained _ out => out

end Recorded

/-- the updates about a node that were added since it last had none pending -/
def heardSince (k : NodeId) (log : List Recorded) : List GossipUpdate :=
  log.foldl (fun heard x => (if (x.before.pending.lookup k).isNone then [] else heard) ++ x.about k) []

theorem heardSince_concat (k : NodeId) (log : List Recorded) (x : Recorded) :
    heardSince k (log ++ [x]) =
      (if (x.before.pending.lookup k).isNone then [] else heardSince k log) ++ x.about k :=
  List.foldl_concat ..

def copies (k : NodeId) (log : List Recorded) : Nat :=
  (log.flatMap Recorded.out).countP fun u => u.nodeId = k

theorem copies_append (k : NodeId) (log log' : List Recorded) :
    copies k (log ++ log') = copies k log + copies k log' := by
  unfold copies
  rw [List.flatMap_append, List.countP_append]

/-! ## the order of updates -/

namespace GossipUpdate
variable {u v w : GossipUpdate}

def AtMost (u v : GossipUpdate) : Prop :=
  u.incarnation < v.incarnation ∨ u.incarnation = v.incarnation ∧ u.precedence ≤ v.precedence

theorem atMost_iff : u.AtMost v ↔ u.view.key ≤ v.view.key := by
  have hu := u.precedence_le
  have hv := v.precedence_le
  unfold AtMost
  rw [key_view, key_view, UInt64.lt_iff_toNat_lt, ← UInt64.toNat_inj]
  omega

theorem AtMost.refl (u : GossipUpdate) : u.AtMost u := Or.inr ⟨rfl, Nat.le_refl _⟩

theorem AtMost.trans (h : u.AtMost v) (h' : v.AtMost w) : u.AtMost w := by
  rw [atMost_iff] at *
  exact h.trans h'

theorem supersedes_iff_atMost : u.supersedes v = true ↔ v.AtMost u :=
  (supersedes_iff u v).trans atMost_iff.symm

theorem atMost_of_not_supersedes (h : u.supersedes v = false) : u.AtMost v := by
  have hnot := (supersedes_iff u v).not.mp (Bool.eq_false_iff.mp h)
  rw [atMost_iff]
  omega

end GossipUpdate

namespace GossipQueue
variable {o : Order NodeId} {q : GossipQueue} {k : NodeId} {u : GossipUpdate} {p : PendingUpdate}
  {pending : HashMap NodeId PendingUpdate} {ids : List NodeId}

theorem add_limits (o : Order NodeId) (q : GossipQueue) (u : GossipUpdate) :
    (q.add o u).maxEntries = q.maxEntries ∧
      (q.add o u).retransmitBudget = q.retransmitBudget := by
  cases h : q.accepts u with
  | false =>
    rw [add_of_not_accepts h]
    exact ⟨rfl, rfl⟩
  | true =>
    rw [add_of_accepts h]
    exact ⟨rfl, rfl⟩

theorem length_evictOne (o : Order NodeId) (h : q.pending.keys ≠ []) :
    (q.evictOne o).pending.keys.length + 1 = q.pending.keys.length := by
  unfold evictOne
  split
  next victim hmin =>
    have hmem : victim ∈ q.pending.keys :=
      (Order.mem_run o _ _).mp (minByKey_mem _ hmin)
    have hpos := List.length_pos_of_mem hmem
    show (q.pending.erase victim).keys.length + 1 = _
    rw [AList.keys_erase, List.length_erase_of_mem hmem]
    omega
  next hnone =>
    rw [minByKey_eq_none_iff] at hnone
    have hlength := (o.perm q.pending.keys).length_eq
    rw [show o.run q.pending.keys = [] from hnone] at hlength
    exact absurd (List.length_eq_zero_iff.mp hlength.symm) h

theorem length_add_le (hroom : 1 ≤ q.maxEntries) (hsize : q.pending.keys.length ≤ q.maxEntries) :
    (q.add o u).pending.keys.length ≤ q.maxEntries := by
  cases haccepts : q.accepts u with
  | false =>
    rw [add_of_not_accepts haccepts]
    exact hsize
  | true =>
    rw [add_of_accepts haccepts]
    show ((q.room o u).insert u.nodeId ⟨u, q.retransmitBudget⟩).keys.length ≤ _
    rw [AList.keys_insert, List.length_cons]
    unfold room
    split
    next hfull =>
      have hne : q.pending.keys ≠ [] := by
        intro hnil
        rw [hnil, List.length_nil] at hfull
        omega
      have hless := length_evictOne o hne
      have herase := List.length_erase_le (a := u.nodeId) (l := (q.evictOne o).pending.keys)
      omega
    next hfree =>
      cases hlookup : q.pending.lookup u.nodeId with
      | none =>
        have herase := List.length_erase_le (a := u.nodeId) (l := q.pending.keys)
        rw [hlookup] at hfree
        have hless : ¬ q.maxEntries ≤ q.pending.keys.length := fun hle => hfree ⟨rfl, hle⟩
        omega
      | some existing =>
        have hmem : u.nodeId ∈ q.pending.keys :=
          (HashMap.mem_keys_iff _ _).mpr ⟨existing, hlookup⟩
        have hpos := List.length_pos_of_mem hmem
        rw [List.length_erase_of_mem hmem]
        omega

/-! ## what `drain` does -/

def spent (p : PendingUpdate) : Option PendingUpdate :=
  if p.retransmitsLeft - 1 = 0 then none
  else some { p with retransmitsLeft := p.retransmitsLeft - 1 }

theorem lookup_spend_self (pending : HashMap NodeId PendingUpdate) (id : NodeId)
    (entry : PendingUpdate) : (spend pending id entry).lookup id = spent entry := by
  unfold spend spent
  split
  · rw [HashMap.lookup_erase_if, if_pos rfl]
  · rw [HashMap.lookup_insert_if, if_pos rfl]

theorem sendEach_spec (hnodup : ids.Nodup) (hpending : ∀ id ∈ ids, ∃ p, pending.lookup id = some p) :
    (sendEach pending ids).2 = ids.filterMap (fun id => (pending.lookup id).map (·.update)) ∧
      ∀ k, (sendEach pending ids).1.lookup k =
        if k ∈ ids then (pending.lookup k).bind spent else pending.lookup k := by
  induction ids generalizing pending with
  | nil => exact ⟨rfl, fun k => rfl⟩
  | cons id ids ih =>
    obtain ⟨hfirst, hnodup⟩ := List.nodup_cons.mp hnodup
    obtain ⟨entry, hentry⟩ := hpending id List.mem_cons_self
    have hother : ∀ k ∈ ids, (spend pending id entry).lookup k = pending.lookup k := by
      intro k hk
      refine lookup_spend_other ?_ entry
      rintro rfl
      exact hfirst hk
    obtain ⟨hout, hleft⟩ := ih hnodup fun k hk => by
      rw [hother k hk]
      exact hpending k (List.mem_cons_of_mem _ hk)
    rw [sendEach_cons, hentry]
    refine ⟨?_, fun k => ?_⟩
    · dsimp only
      rw [hout, List.filterMap_cons_some (b := entry.update) (by rw [hentry]; rfl)]
      refine congrArg _ (List.filterMap_congr fun k hk => ?_)
      rw [hother k hk]
    · dsimp only
      rw [hleft k]
      by_cases hk : k = id
      · subst hk
        rw [if_neg hfirst, if_pos List.mem_cons_self, lookup_spend_self, hentry]
        rfl
      · rw [lookup_spend_other hk]
        simp only [List.mem_cons, hk, false_or]

def chosen (o : Order NodeId) (q : GossipQueue) (max : Nat) : List NodeId :=
  ((HashMap.keysIn q.pending o).insertionSort
    fun a b => q.retransmitsLeft b ≤ q.retransmitsLeft a).take max

theorem nodup_chosen (o : Order NodeId) (q : GossipQueue) (max : Nat) : (q.chosen o max).Nodup := by
  refine List.Nodup.sublist (List.take_sublist _ _) ?_
  exact (List.perm_insertionSort _ _).nodup_iff.mpr (HashMap.nodup_keysIn _ _)

theorem pending_of_chosen {max : Nat} (h : k ∈ q.chosen o max) :
    ∃ p, q.pending.lookup k = some p := by
  have hmem := (List.mem_insertionSort _).mp (List.mem_of_mem_take h)
  exact (HashMap.mem_keysIn _ _ _).mp hmem

theorem length_chosen (o : Order NodeId) (q : GossipQueue) (max : Nat) :
    (q.chosen o max).length = min max q.pending.keys.length := by
  unfold chosen HashMap.keysIn
  rw [List.length_take, List.length_insertionSort, (o.perm _).length_eq]

theorem left_out_le {max : Nat} {k' : NodeId} (hk : k ∈ q.chosen o max)
    (hk' : k' ∉ q.chosen o max) : q.retransmitsLeft k' ≤ q.retransmitsLeft k := by
  cases hlookup : q.pending.lookup k' with
  | none =>
    unfold retransmitsLeft
    rw [hlookup]
    exact Nat.zero_le _
  | some p =>
    unfold chosen at hk hk'
    have hmem := (List.mem_insertionSort fun a b => q.retransmitsLeft b ≤ q.retransmitsLeft a).mpr
      ((HashMap.mem_keysIn _ o _).mpr ⟨p, hlookup⟩)
    rw [← List.take_append_drop max (List.insertionSort _ _)] at hmem
    have hdrop := (List.mem_append.mp hmem).resolve_left hk'
    have : Std.Total fun a b => q.retransmitsLeft b ≤ q.retransmitsLeft a :=
      ⟨fun a b => Nat.le_total _ _⟩
    have : IsTrans NodeId fun a b => q.retransmitsLeft b ≤ q.retransmitsLeft a :=
      ⟨fun a b c hab hbc => Nat.le_trans hbc hab⟩
    have hsorted := List.pairwise_insertionSort
      (fun a b => q.retransmitsLeft b ≤ q.retransmitsLeft a) (HashMap.keysIn q.pending o)
    rw [← List.take_append_drop max (List.insertionSort _ _)] at hsorted
    exact (List.pairwise_append.mp hsorted).2.2 k hk k' hdrop

theorem lookup_drain (o : Order NodeId) (q : GossipQueue) (max : Nat) (k : NodeId) :
    (q.drain o max).1.pending.lookup k =
      if k ∈ q.chosen o max then (q.pending.lookup k).bind spent else q.pending.lookup k :=
  (sendEach_spec (nodup_chosen o q max) fun _ => pending_of_chosen).2 k

theorem drain_out (hfiled : q.Filed) (max : Nat) :
    (q.drain o max).2.map (·.nodeId) = q.chosen o max ∧
      ∀ u ∈ (q.drain o max).2, ∃ p, q.pending.lookup u.nodeId = some p ∧ p.update = u := by
  have hout : (q.drain o max).2 =
      (q.chosen o max).filterMap fun id => (q.pending.lookup id).map (·.update) :=
    (sendEach_spec (nodup_chosen o q max) fun _ => pending_of_chosen).1
  rw [hout]
  refine ⟨?_, fun u hu => ?_⟩
  · rw [List.map_filterMap]
    have hself : ∀ id ∈ q.chosen o max,
        ((q.pending.lookup id).map (·.update)).map (·.nodeId) = some id := by
      intro id hid
      obtain ⟨p, hp⟩ := pending_of_chosen hid
      rw [hp]
      exact congrArg some (hfiled id p hp)
    rw [List.filterMap_congr hself, List.filterMap_some]
  · obtain ⟨id, -, hid⟩ := List.mem_filterMap.mp hu
    obtain ⟨p, hp, rfl⟩ := Option.map_eq_some_iff.mp hid
    exact ⟨p, by rw [hfiled id p hp]; exact hp, rfl⟩

end GossipQueue

/-! ## the queue -/

structure Sound (q : GossipQueue) : Prop where
  filed : q.Filed
  room : 1 ≤ q.maxEntries
  budget : 1 ≤ q.retransmitBudget
  size : q.pending.keys.length ≤ q.maxEntries
  left : ∀ k p, q.pending.lookup k = some p →
    1 ≤ p.retransmitsLeft ∧ p.retransmitsLeft ≤ q.retransmitBudget

section
variable {o : Order NodeId} {q q' : GossipQueue} {k : NodeId} {u : GossipUpdate}
  {log : List Recorded}

theorem sound_empty {maxEntries budget : Nat} (hroom : 1 ≤ maxEntries) (hbudget : 1 ≤ budget) :
    Sound ⟨∅, maxEntries, budget⟩ where
  filed := fun _ _ h => absurd h HashMap.lookup_empty_ne
  room := hroom
  budget := hbudget
  size := Nat.zero_le _
  left := fun _ _ h => absurd h HashMap.lookup_empty_ne

theorem Sound.add (h : Sound q) (o : Order NodeId) (u : GossipUpdate) : Sound (q.add o u) := by
  obtain ⟨hmax, hbudget⟩ := q.add_limits o u
  refine ⟨h.filed.add, hmax ▸ h.room, hbudget ▸ h.budget, ?_, fun k p hp => ?_⟩
  · rw [hmax]
    exact length_add_le h.room h.size
  · rw [hbudget]
    cases haccepts : q.accepts u with
    | false =>
      rw [add_of_not_accepts haccepts] at hp
      exact h.left k p hp
    | true =>
      by_cases hk : k = u.nodeId
      · rw [hk, lookup_add_self haccepts] at hp
        cases hp
        exact ⟨h.budget, Nat.le_refl _⟩
      · rcases lookup_add_other (o := o) (q := q) hk with hsame | ⟨-, hnone⟩
        · rw [hsame] at hp
          exact h.left k p hp
        · rw [hnone] at hp
          cases hp

theorem Sound.drain (h : Sound q) (o : Order NodeId) (max : Nat) : Sound (q.drain o max).1 := by
  have hold : ∀ k p, (q.drain o max).1.pending.lookup k = some p →
      ∃ p₀, q.pending.lookup k = some p₀ ∧ p.retransmitsLeft ≤ p₀.retransmitsLeft ∧
        1 ≤ p.retransmitsLeft := by
    intro k p hp
    rw [lookup_drain] at hp
    split at hp
    next =>
      obtain ⟨p₀, hp₀, hspent⟩ := Option.bind_eq_some_iff.mp hp
      unfold GossipQueue.spent at hspent
      split at hspent
      next => cases hspent
      next hmore =>
        cases hspent
        exact ⟨p₀, hp₀, Nat.sub_le _ _, Nat.one_le_iff_ne_zero.mpr hmore⟩
    next => exact ⟨p, hp, Nat.le_refl _, (h.left k p hp).1⟩
  refine ⟨h.filed.drain max, h.room, h.budget, ?_, fun k p hp => ?_⟩
  · refine Nat.le_trans ?_ h.size
    refine (List.subperm_of_subset (AList.keys_nodup _) fun k hk => ?_).length_le
    obtain ⟨p, hp⟩ := (HashMap.mem_keys_iff _ _).mp hk
    obtain ⟨p₀, hp₀, -⟩ := hold k p hp
    exact (HashMap.mem_keys_iff _ _).mpr ⟨p₀, hp₀⟩
  · obtain ⟨p₀, hp₀, hle, hpos⟩ := hold k p hp
    exact ⟨hpos, Nat.le_trans hle (h.left k p₀ hp₀).2⟩

/-! ## the update that is kept -/

/-- what is kept about each node is the greatest of what was added since it last had none pending -/
def KeepsGreatest (q : GossipQueue) (log : List Recorded) : Prop :=
  ∀ k p, q.pending.lookup k = some p →
    p.update ∈ heardSince k log ∧ ∀ u ∈ heardSince k log, u.AtMost p.update

theorem heardSince_absent {x : Recorded} (h : x.before.pending.lookup k = none) :
    heardSince k (log ++ [x]) = x.about k := by
  rw [heardSince_concat, h]
  rfl

theorem heardSince_pending {x : Recorded} {p : PendingUpdate}
    (h : x.before.pending.lookup k = some p) :
    heardSince k (log ++ [x]) = heardSince k log ++ x.about k := by
  rw [heardSince_concat, h]
  rfl

theorem KeepsGreatest.add_self (h : KeepsGreatest q log) {p : PendingUpdate}
    (hp : (q.add o u).pending.lookup u.nodeId = some p) :
    p.update ∈ heardSince u.nodeId (log ++ [.added q u]) ∧
      ∀ v ∈ heardSince u.nodeId (log ++ [.added q u]), v.AtMost p.update := by
  have habout : Recorded.about u.nodeId (.added q u) = [u] := if_pos rfl
  cases hlookup : q.pending.lookup u.nodeId with
  | none =>
    rw [lookup_add_self (accepts_none hlookup)] at hp
    cases hp
    rw [heardSince_absent hlookup, habout]
    refine ⟨List.mem_cons_self, fun v hv => ?_⟩
    rw [List.mem_singleton.mp hv]
    exact .refl u
  | some existing =>
    obtain ⟨hmem, hgreatest⟩ := h u.nodeId existing hlookup
    have hsupersedes := accepts_some hlookup
    rw [heardSince_pending hlookup, habout]
    cases haccepts : q.accepts u with
    | true =>
      rw [lookup_add_self haccepts] at hp
      cases hp
      have hle := GossipUpdate.supersedes_iff_atMost.mp (hsupersedes.symm.trans haccepts)
      refine ⟨List.mem_append_right _ List.mem_cons_self, fun v hv => ?_⟩
      rcases List.mem_append.mp hv with hv | hv
      · exact (hgreatest v hv).trans hle
      · rw [List.mem_singleton.mp hv]
        exact .refl u
    | false =>
      rw [add_of_not_accepts haccepts, hlookup] at hp
      cases hp
      refine ⟨List.mem_append_left _ hmem, fun v hv => ?_⟩
      rcases List.mem_append.mp hv with hv | hv
      · exact hgreatest v hv
      · rw [List.mem_singleton.mp hv]
        exact GossipUpdate.atMost_of_not_supersedes (hsupersedes.symm.trans haccepts)

theorem KeepsGreatest.add (h : KeepsGreatest q log) (o : Order NodeId) (u : GossipUpdate) :
    KeepsGreatest (q.add o u) (log ++ [.added q u]) := by
  intro k p hp
  by_cases hk : k = u.nodeId
  · subst hk
    exact h.add_self hp
  · -- the entry of another node stays, or is evicted
    have hbefore : q.pending.lookup k = some p := by
      rcases lookup_add_other (o := o) (q := q) hk with hsame | ⟨-, hnone⟩
      · exact hsame.symm.trans hp
      · cases hnone.symm.trans hp
    have habout : Recorded.about k (.added q u) = [] := if_neg (Ne.symm hk)
    rw [heardSince_pending hbefore, habout, List.append_nil]
    exact h k p hbefore

theorem KeepsGreatest.drain (h : KeepsGreatest q log) (o : Order NodeId) (max : Nat) :
    KeepsGreatest (q.drain o max).1 (log ++ [.drained q (q.drain o max).2]) := by
  intro k p hp
  obtain ⟨p₀, hp₀, hsame⟩ := sendEach_lookup hp
  rw [heardSince_pending hp₀, ← hsame]
  show _ ∈ heardSince k log ++ [] ∧ ∀ u ∈ heardSince k log ++ [], _
  rw [List.append_nil]
  exact h k p₀ hp₀

/-! ## the copies that are sent -/

/-- since an accepted `add` about the node: there was another, or what was sent and what is left are within
the budget -/
def Quota (q : GossipQueue) (k : NodeId) (after : List Recorded) : Prop :=
  (∃ x ∈ after, x.accepts k = true) ∨ copies k after + q.retransmitsLeft k ≤ q.retransmitBudget

def WithinBudget (q : GossipQueue) (log : List Recorded) : Prop :=
  ∀ k, Log.Since (fun x => x.accepts k = true) (Quota q k) log

theorem Quota.append {after new : List Recorded} (h : Quota q k after)
    (hbudget : q'.retransmitBudget = q.retransmitBudget)
    (hleft : copies k new + q'.retransmitsLeft k ≤ q.retransmitsLeft k) :
    Quota q' k (after ++ new) := by
  rcases h with ⟨x, hx, haccepts⟩ | hle
  · exact Or.inl ⟨x, List.mem_append_left _ hx, haccepts⟩
  · refine Or.inr ?_
    rw [copies_append, hbudget]
    omega

theorem retransmitsLeft_of_lookup {p : PendingUpdate} (h : q.pending.lookup k = some p) :
    q.retransmitsLeft k = p.retransmitsLeft := by
  unfold GossipQueue.retransmitsLeft
  rw [h]

theorem retransmitsLeft_of_none (h : q.pending.lookup k = none) : q.retransmitsLeft k = 0 := by
  unfold GossipQueue.retransmitsLeft
  rw [h]

theorem retransmitsLeft_congr (h : q'.pending.lookup k = q.pending.lookup k) :
    q'.retransmitsLeft k = q.retransmitsLeft k := by
  unfold GossipQueue.retransmitsLeft
  rw [h]

theorem WithinBudget.add (h : WithinBudget q log) (o : Order NodeId) (u : GossipUpdate) :
    WithinBudget (q.add o u) (log ++ [.added q u]) := by
  intro k
  have hbudget := (q.add_limits o u).2
  cases haccepts : Recorded.accepts k (.added q u) with
  | true =>
    obtain ⟨hk, hnew⟩ := Bool.and_eq_true_iff.mp haccepts
    have hk : u.nodeId = k := of_decide_eq_true hk
    refine (h k).append_of (fun after _ => ?_) (.single fun _ => Or.inr ?_)
    · exact Or.inl ⟨_, List.mem_append_right _ List.mem_cons_self, haccepts⟩
    · rw [← hk, retransmitsLeft_of_lookup (lookup_add_self hnew), hbudget]
      exact Nat.le_of_eq (Nat.zero_add _)
  | false =>
    refine (h k).append (fun after hquota => hquota.append hbudget ?_) ?_
    · show 0 + _ ≤ _
      rw [Nat.zero_add]
      by_cases hk : k = u.nodeId
      · have hrejected : q.accepts u = false := by
          unfold Recorded.accepts at haccepts
          rw [hk] at haccepts
          simpa using haccepts
        rw [add_of_not_accepts hrejected]
      · rcases lookup_add_other (o := o) (q := q) hk with hsame | ⟨-, hnone⟩
        · exact Nat.le_of_eq (retransmitsLeft_congr hsame)
        · rw [retransmitsLeft_of_none hnone]
          exact Nat.zero_le _
    · intro x hx
      rw [List.mem_singleton.mp hx, haccepts]
      exact Bool.false_ne_true

theorem copies_drained (h : Sound q) (o : Order NodeId) (max : Nat) (k : NodeId) :
    copies k [.drained q (q.drain o max).2] + (q.drain o max).1.retransmitsLeft k =
      q.retransmitsLeft k := by
  have hcopies : copies k [.drained q (q.drain o max).2] = (q.chosen o max).count k := by
    rw [← (drain_out h.filed max).1, List.count, List.countP_map]
    unfold copies
    rw [List.flatMap_singleton]
    exact List.countP_congr fun u _ => by simp
  have hlookup := lookup_drain o q max k
  rw [hcopies]
  by_cases hk : k ∈ q.chosen o max
  · obtain ⟨p, hp⟩ := pending_of_chosen hk
    have hpos := (h.left k p hp).1
    rw [if_pos hk, hp, Option.bind_some] at hlookup
    rw [List.count_eq_one_of_mem (nodup_chosen o q max) hk, retransmitsLeft_of_lookup hp]
    unfold GossipQueue.spent at hlookup
    split at hlookup
    next hlast =>
      rw [retransmitsLeft_of_none hlookup]
      omega
    next hmore =>
      rw [retransmitsLeft_of_lookup hlookup]
      dsimp only
      omega
  · rw [if_neg hk] at hlookup
    rw [List.count_eq_zero.mpr hk, retransmitsLeft_congr hlookup, Nat.zero_add]

theorem WithinBudget.drain (h : WithinBudget q log) (hq : Sound q) (o : Order NodeId) (max : Nat) :
    WithinBudget (q.drain o max).1 (log ++ [.drained q (q.drain o max).2]) := by
  intro k
  refine (h k).append (fun after hquota => ?_) ?_
  · exact hquota.append rfl (Nat.le_of_eq (copies_drained hq o max k))
  · intro x hx
    rw [List.mem_singleton.mp hx]
    exact Bool.false_ne_true

/-! ## every run -/

theorem start_sound (h : queueMachine.start q) : Sound q := by
  rcases h with rfl | ⟨clusterSize, maxEntries, rfl⟩
  · exact sound_empty (by decide) (by decide)
  · exact sound_empty (Nat.le_max_right _ _) (Nat.le_max_right _ _)

theorem queue_invariant
    (h : (queueMachine.logged GossipQueue.recorded).Reach Machine.Anytime (q, log)) :
    Sound q ∧ KeepsGreatest q log ∧ WithinBudget q log := by
  refine h.inv_logged (I := fun q log => Sound q ∧ KeepsGreatest q log ∧ WithinBudget q log) ?_ ?_
  · intro q hq
    refine ⟨start_sound hq, fun k p hp => ?_, fun k => .of_not nofun⟩
    rcases hq with rfl | ⟨clusterSize, maxEntries, rfl⟩
    · exact absurd hp HashMap.lookup_empty_ne
    · exact absurd hp HashMap.lookup_empty_ne
  · rintro q log ⟨o, call⟩ q' ⟨hsound, hkeeps, hwithin⟩ hnext
    cases call with
    | add u =>
      cases hnext
      exact ⟨hsound.add o u, hkeeps.add o u, hwithin.add o u⟩
    | drain max =>
      cases hnext
      exact ⟨hsound.drain o max, hkeeps.drain o max, hwithin.drain hsound o max⟩

/-- **In every run of `add` and `drain`: each update is pending under its node, there are at most
`max_entries`, and each has between one and the whole budget left; what is kept about a node is the greatest
update added since it last had none; `drain` returns as many updates as it may, each the pending one of another
node, and none that has less left than one it leaves out; and after an accepted `add` about a node at most the
budget of copies about it are returned before the next.** -/
theorem queue_disseminates
    (h : (queueMachine.logged GossipQueue.recorded).Reach Machine.Anytime (q, log)) :
    (∀ k p, q.pending.lookup k = some p → p.update.nodeId = k) ∧
    q.pending.keys.length ≤ q.maxEntries ∧
    (∀ k p, q.pending.lookup k = some p →
      1 ≤ p.retransmitsLeft ∧ p.retransmitsLeft ≤ q.retransmitBudget) ∧
    (∀ k p, q.pending.lookup k = some p →
      p.update ∈ heardSince k log ∧ ∀ u ∈ heardSince k log, u.AtMost p.update) ∧
    (∀ o max, (q.drain o max).2.length = min max q.pending.keys.length ∧
      ((q.drain o max).2.map (·.nodeId)).Nodup ∧
      ∀ u ∈ (q.drain o max).2, (∃ p, q.pending.lookup u.nodeId = some p ∧ p.update = u) ∧
        ∀ k, k ∉ (q.drain o max).2.map (·.nodeId) →
          q.retransmitsLeft k ≤ q.retransmitsLeft u.nodeId) ∧
    ∀ k before x after, log = before ++ x :: after → x.accepts k = true →
      (∀ y ∈ after, y.accepts k = false) → copies k after ≤ q.retransmitBudget := by
  obtain ⟨hsound, hkeeps, hwithin⟩ := queue_invariant h
  refine ⟨hsound.filed, hsound.size, hsound.left, hkeeps, fun o max => ?_, ?_⟩
  · obtain ⟨hnodes, hpending⟩ := GossipQueue.drain_out (o := o) hsound.filed max
    refine ⟨?_, ?_, fun u hu => ⟨hpending u hu, fun k hk => ?_⟩⟩
    · rw [← GossipQueue.length_chosen o q max, ← hnodes, List.length_map]
    · rw [hnodes]
      exact GossipQueue.nodup_chosen o q max
    · rw [hnodes] at hk
      refine GossipQueue.left_out_le ?_ hk
      rw [← hnodes]
      exact List.mem_map_of_mem hu
  · intro k before x after hlog haccepts hlast
    rcases hwithin k before x after hlog haccepts with ⟨y, hy, hagain⟩ | hle
    · rw [hlast y hy] at hagain
      cases hagain
    · exact Nat.le_trans (Nat.le_add_right _ _) hle

end

/-- a suspicion, an older rumour that is not taken, and one message -/
private def whispers : List (Order NodeId × QueueCall) :=
  [(Order.stored, .add (.suspect 3 .home 1)), (Order.stored, .add (.alive 3 .home 1 none)),
    (Order.stored, .drain 5)]

theorem queue_disseminates_whispers :
    ∃ (q : GossipQueue) (log : List Recorded) (p : PendingUpdate),
      (queueMachine.logged GossipQueue.recorded).Reach Machine.Anytime (q, log) ∧
      q.pending.lookup 3 = some p ∧ p.retransmitsLeft = 1 ∧ q.retransmitBudget = 2 ∧
      heardSince 3 log = [.suspect 3 .home 1, .alive 3 .home 1 none] ∧
      p.update ∈ heardSince 3 log ∧ (∀ u ∈ heardSince 3 log, u.AtMost p.update) ∧
      (q.drain Order.stored 7).2.length = min 7 q.pending.keys.length := by
  have hstart : (queueMachine.logged GossipQueue.recorded).Reach Machine.Anytime
      (.withClusterSize 2 1, []) := .start ⟨Or.inr ⟨2, 1, rfl⟩, rfl⟩
  obtain ⟨⟨q, log⟩, h, hlookup, hbudget, hheard⟩ := hstart.exists_run whispers
    (p := fun s => s.1.pending.lookup 3 = some ⟨.suspect 3 .home 1, 1⟩ ∧ s.1.retransmitBudget = 2 ∧
      heardSince 3 s.2 = [.suspect 3 .home 1, .alive 3 .home 1 none]) (by decide)
  obtain ⟨-, -, -, hkeeps, hdrain, -⟩ := queue_disseminates h
  obtain ⟨hmem, hgreatest⟩ := hkeeps 3 _ hlookup
  exact ⟨q, log, _, h, hlookup, rfl, hbudget, hheard, hmem, hgreatest, (hdrain Order.stored 7).1⟩

end Rebar.Swim

import Rebar.Registry.Spec
import Rebar.Registry.Converge

/-!
# When replicas with the same entries resolve names alike

`lookup` takes the greatest (timestamp, node id), and of several greatest entries the one that was
added last, so on a tie the winner depends on the order of delivery.

* `lookup_eq_of_noTie`   without such a tie the winner depends on the set of live entries only.
-/

namespace Rebar.Registry

variable {A B : Registry}

/-! ## the comparison -/

theorem lwwCmp_eq_gt_iff (a b : RegistryEntry) : lwwCmp a b = .gt ↔
    b.timestamp < a.timestamp ∨ a.timestamp = b.timestamp ∧ b.nodeId < a.nodeId := by
  unfold lwwCmp
  rw [Ordering.then_eq_gt, Nat.compare_eq_gt, Nat.compare_eq_gt, Nat.compare_eq_eq]

theorem lwwCmp_preorder : CmpPreorder lwwCmp where
  swap := fun a b => by
    unfold lwwCmp
    rw [Ordering.swap_then, Nat.compare_swap, Nat.compare_swap]
  trans := fun a b c hab hbc => by
    rw [ne_eq, lwwCmp_eq_gt_iff] at hab hbc ⊢
    omega

/-- two registrations with the same timestamp from the same node -/
def Tied (e e' : RegistryEntry) : Prop := e.timestamp = e'.timestamp ∧ e.nodeId = e'.nodeId

variable {e : RegistryEntry} {name : String}

theorem tied_iff {e' : RegistryEntry} :
    Tied e e' ↔ lwwCmp e e' ≠ .gt ∧ lwwCmp e' e ≠ .gt := by
  rw [ne_eq, ne_eq, lwwCmp_eq_gt_iff, lwwCmp_eq_gt_iff]
  unfold Tied
  omega

theorem lookup_eq_maxBy (r : Registry) (name : String) :
    r.lookup name = maxBy lwwCmp (r.live name) := by
  unfold lookup live
  cases r.entries.lookup name with
  | none => rfl
  | some es => rfl

/-! ## without a tie -/

/-- among the registrations of any name, two that tie are equal or beaten by a third -/
def NoTopTie (r : Registry) : Prop :=
  ∀ name, ∀ e ∈ r.live name, ∀ e' ∈ r.live name, Tied e e' →
    e = e' ∨ ∃ x ∈ r.live name, lwwCmp x e = .gt

/-- the same live entries, in whatever order they were added -/
def SameLive (A B : Registry) : Prop := ∀ name e, e ∈ A.live name ↔ e ∈ B.live name

theorem SameLive.symm (h : SameLive A B) : SameLive B A := fun name e => (h name e).symm

theorem lookup_isSome_of_same (h : SameLive A B) (he : A.lookup name = some e) :
    ∃ e', B.lookup name = some e' := by
  rw [lookup_eq_maxBy] at he
  have hmem := (h name e).mp (maxBy_mem he)
  cases hb : B.lookup name with
  | some e' => exact ⟨e', rfl⟩
  | none =>
    rw [lookup_eq_maxBy, maxBy_eq_none_iff] at hb
    rw [hb] at hmem
    cases hmem

theorem lookup_eq_of_noTie (h : SameLive A B) (hA : NoTopTie A) (name : String) :
    B.lookup name = A.lookup name := by
  cases ha : A.lookup name with
  | none =>
    cases hb : B.lookup name with
    | none => rfl
    | some e' =>
      obtain ⟨e, he⟩ := lookup_isSome_of_same h.symm hb
      rw [ha] at he
      cases he
  | some e =>
    obtain ⟨e', hb⟩ := lookup_isSome_of_same h ha
    rw [hb]
    rw [lookup_eq_maxBy] at ha hb
    have hmem : e ∈ A.live name := maxBy_mem ha
    have hmem' : e' ∈ A.live name := (h name e').mpr (maxBy_mem hb)
    have hge := maxBy_ge lwwCmp_preorder ha
    have hge' := maxBy_ge lwwCmp_preorder hb
    -- both are greatest, so they tie
    have htie : Tied e e' :=
      tied_iff.mpr ⟨hge' e ((h name e).mp hmem), hge e' hmem'⟩
    rcases hA name e hmem e' hmem' htie with heq | ⟨x, hx, hgt⟩
    · rw [heq]
    · exact absurd hgt (hge x hx)

/-! ## the list of winners -/

def winners (o : Order String) (r : Registry) : List (String × ProcessId) :=
  (HashMap.keysIn r.entries o).filterMap fun name => (r.lookup name).map fun e => (e.name, e.pid)

theorem registered_eq (o : Order String) (r : Registry) :
    r.registered o = (r.winners o).insertionSort fun a b => a.1 ≤ b.1 := rfl

theorem mem_keysIn_of_lookup {r : Registry} (h : r.lookup name = some e) (o : Order String) :
    name ∈ HashMap.keysIn r.entries o := by
  rw [lookup_eq_maxBy] at h
  exact mem_keys_of_live (maxBy_mem h) o

theorem mem_winners (o : Order String) (r : Registry) (p : String × ProcessId) :
    p ∈ r.winners o ↔ ∃ name e, r.lookup name = some e ∧ (e.name, e.pid) = p := by
  unfold winners
  rw [List.mem_filterMap]
  constructor
  · intro h
    obtain ⟨name, -, hp⟩ := h
    obtain ⟨e, he, heq⟩ := Option.map_eq_some_iff.mp hp
    exact ⟨name, e, he, heq⟩
  · intro h
    obtain ⟨name, e, he, heq⟩ := h
    refine ⟨name, mem_keysIn_of_lookup he o, ?_⟩
    rw [he, Option.map_some, heq]

theorem nodup_winners_names (o : Order String) (hA : WellFormed A) :
    ((A.winners o).map Prod.fst).Nodup := by
  have hsub : ∀ l : List String, ((l.filterMap fun name =>
      (A.lookup name).map fun e => (e.name, e.pid)).map Prod.fst).Sublist l := by
    intro l
    induction l with
    | nil => exact List.Sublist.refl _
    | cons name l ih =>
      cases he : A.lookup name with
      | none =>
        rw [List.filterMap_cons_none (by rw [he]; rfl)]
        exact ih.cons name
      | some e =>
        rw [List.filterMap_cons_some (b := (e.name, e.pid)) (by rw [he]; rfl), List.map_cons]
        rw [lookup_eq_maxBy] at he
        have hname : e.name = name := hA.ownName name e (maxBy_mem he)
        rw [show (e.name, e.pid).1 = name from hname]
        exact ih.cons_cons name
  exact (HashMap.nodup_keysIn A.entries o).sublist (hsub _)

theorem registered_congr (hA : WellFormed A) (hB : WellFormed B)
    (h : ∀ name, B.lookup name = A.lookup name) (o o' : Order String) :
    B.registered o = A.registered o' := by
  have hperm : (B.winners o).Perm (A.winners o') := by
    have hnB := (nodup_winners_names o hB).of_map
    have hnA := (nodup_winners_names o' hA).of_map
    rw [List.perm_ext_iff_of_nodup hnB hnA]
    intro p
    rw [mem_winners, mem_winners]
    simp only [h]
  rw [registered_eq, registered_eq]
  have hp := ((List.perm_insertionSort (fun a b => a.1 ≤ b.1) (B.winners o)).trans hperm).trans
    (List.perm_insertionSort (fun a b => a.1 ≤ b.1) (A.winners o')).symm
  refine hp.eq_of_pairwise ?_ (List.pairwise_insertionSort _ _) (List.pairwise_insertionSort _ _)
  intro a b ha hb hab hba
  -- the names are distinct, so equal names mean equal elements
  have ha' : a ∈ A.winners o' := by
    rw [← hperm.mem_iff]
    exact (List.mem_insertionSort _).mp ha
  have hb' : b ∈ A.winners o' := (List.mem_insertionSort _).mp hb
  exact List.inj_on_of_nodup_map (nodup_winners_names o' hA) ha' hb'
    (String.le_antisymm hab hba)

/-! ## with a tie -/

/-- the entries, each sent to an empty replica as an `Add`, in the order of the list -/
def replay (es : List RegistryEntry) : Registry :=
  (empty 0).mergeAll (es.map fun e => (Order.stored, .add e))

theorem replay_append (es : List RegistryEntry) (e : RegistryEntry) :
    replay (es ++ [e]) = (replay es).mergeAdd e := by
  unfold replay mergeAll
  rw [List.map_append, List.foldl_append]
  rfl

theorem replay_tombstones (es : List RegistryEntry) : (replay es).tombstones = ∅ := by
  induction es using List.reverseRecOn with
  | nil => rfl
  | append_singleton es e ih => rw [replay_append, mergeAdd_tombstones, ih]

theorem replay_reach (es : List RegistryEntry) : registryMachine.Reach Machine.Anytime (replay es) := by
  induction es using List.reverseRecOn with
  | nil => exact .start ⟨0, rfl⟩
  | append_singleton es e ih =>
    rw [replay_append]
    exact ih.step (a := (MapOrder.stored, Op.mergeDelta (.add e))) trivial rfl

/-- distinct registrations: no two under one name with one tag -/
def Distinct (es : List RegistryEntry) : Prop :=
  es.Pairwise fun a b => ¬(a.name = b.name ∧ a.tag = b.tag)

theorem filter_name_singleton (e : RegistryEntry) (name : String) :
    ([e].filter fun x => x.name = name) = if e.name = name then [e] else [] := by
  by_cases h : e.name = name
  · simp [h]
  · simp [h]

theorem live_replay {es : List RegistryEntry} (h : Distinct es) (name : String) :
    (replay es).live name = es.filter fun e => e.name = name := by
  induction es using List.reverseRecOn generalizing name with
  | nil => rfl
  | append_singleton es e ih =>
    obtain ⟨hes, -, hnew⟩ := List.pairwise_append.mp h
    rw [replay_append, live_mergeAdd, ih hes, ih hes, List.filter_append]
    have htag : ∀ x ∈ es.filter fun x => x.name = e.name, x.tag ≠ e.tag := by
      intro x hx ht
      obtain ⟨hx, hn⟩ := List.mem_filter.mp hx
      exact hnew x hx e (List.mem_singleton_self e) ⟨of_decide_eq_true hn, ht⟩
    have htomb : e.tag ∉ (replay es).tombstones := by
      rw [replay_tombstones]
      exact AList.notMem_empty _
    by_cases hn : name = e.name
    · rw [if_pos ⟨htomb, htag, hn⟩, filter_name_singleton, if_pos hn.symm]
    · rw [if_neg fun hp => hn hp.2.2, filter_name_singleton, if_neg fun he => hn he.symm,
        List.append_nil]

def allLive (r : Registry) : List RegistryEntry :=
  (HashMap.keysIn r.entries Order.stored).flatMap r.live

theorem mem_allLive (r : Registry) (e : RegistryEntry) : e ∈ r.allLive ↔ ∃ name, e ∈ r.live name := by
  unfold allLive
  rw [List.mem_flatMap]
  constructor
  · intro h
    obtain ⟨name, -, he⟩ := h
    exact ⟨name, he⟩
  · intro h
    obtain ⟨name, he⟩ := h
    exact ⟨name, mem_keys_of_live he _, he⟩

theorem distinct_allLive (h : WellFormed A) : Distinct A.allLive := by
  unfold Distinct allLive
  rw [List.pairwise_flatMap]
  refine ⟨fun name _ => ?_, ?_⟩
  · have htags := List.pairwise_map.mp (h.tags name)
    exact htags.imp fun hne heq => hne heq.2
  · refine (HashMap.nodup_keysIn A.entries Order.stored).imp fun {n n'} hne => ?_
    intro e he e' he' heq
    rw [h.ownName n e he, h.ownName n' e' he'] at heq
    exact hne heq.1

/-- the live entries of `r` sent to an empty replica with `e` last -/
def replayLast (r : Registry) (e : RegistryEntry) : Registry :=
  replay ((r.allLive.filter fun x => x ≠ e) ++ [e])

theorem live_replayLast (h : WellFormed A) (he : e ∈ A.live name) (n : String) :
    (A.replayLast e).live n
      = ((A.allLive.filter fun x => x ≠ e) ++ [e]).filter fun x => x.name = n := by
  apply live_replay
  refine List.pairwise_append.mpr ⟨(distinct_allLive h).sublist List.filter_sublist,
    List.pairwise_singleton _ _, ?_⟩
  intro x hx y hy heq
  rw [List.mem_singleton.mp hy] at heq
  obtain ⟨hx, hne⟩ := List.mem_filter.mp hx
  obtain ⟨n', hx⟩ := (mem_allLive A x).mp hx
  have hn : n' = name := by
    rw [← h.ownName n' x hx, heq.1, h.ownName name e he]
  rw [hn] at hx
  exact of_decide_eq_true hne (h.eq_of_tag hx he heq.2)

theorem sameLive_replayLast (h : WellFormed A) (he : e ∈ A.live name) :
    SameLive (A.replayLast e) A := by
  intro n x
  rw [live_replayLast h he, List.mem_filter, List.mem_append, List.mem_filter, mem_allLive,
    List.mem_singleton, decide_eq_true_eq, decide_eq_true_eq]
  constructor
  · rintro ⟨⟨⟨n', hx⟩, -⟩ | rfl, hn⟩
    · rw [← hn, h.ownName n' x hx]
      exact hx
    · rw [← hn, h.ownName name x he]
      exact he
  · intro hx
    refine ⟨?_, h.ownName n x hx⟩
    by_cases hxe : x = e
    · exact Or.inr hxe
    · exact Or.inl ⟨⟨n, hx⟩, hxe⟩

theorem lookup_replayLast (h : WellFormed A) (he : e ∈ A.live name)
    (htop : ∀ x ∈ A.live name, lwwCmp x e ≠ .gt) : (A.replayLast e).lookup name = some e := by
  have hname : e.name = name := h.ownName name e he
  rw [lookup_eq_maxBy, live_replayLast h he, List.filter_append, filter_name_singleton,
    if_pos hname]
  refine maxBy_append_top _ e fun x hx => htop x ?_
  obtain ⟨hx, hn⟩ := List.mem_filter.mp hx
  obtain ⟨n', hx⟩ := (mem_allLive A x).mp (List.mem_filter.mp hx).1
  rw [← of_decide_eq_true hn, h.ownName n' x hx]
  exact hx

/-- two registrations of a name on one node in the same millisecond -/
private def first : RegistryEntry := ⟨"svc", ⟨1, 5⟩, 80, 100, 1⟩
private def second : RegistryEntry := ⟨"svc", ⟨1, 6⟩, 81, 100, 1⟩
private def later : RegistryEntry := ⟨"svc", ⟨2, 9⟩, 82, 101, 2⟩

/-- two replicas that received the two registrations in different orders hold the same entries but
resolve the name to different processes -/
theorem lookup_depends_on_delivery_order :
    ∃ A B, registryMachine.Reach Machine.Anytime A ∧ registryMachine.Reach Machine.Anytime B ∧
      SameLive B A ∧ B.lookup "svc" ≠ A.lookup "svc" ∧
      B.registered Order.stored ≠ A.registered Order.stored := by
  refine ⟨replay [first, second], replay [second, first], replay_reach _, replay_reach _, ?_,
    by decide, by decide⟩
  have h₁ : Distinct [first, second] := by unfold Distinct; decide
  have h₂ : Distinct [second, first] := by unfold Distinct; decide
  intro name e
  rw [live_replay h₁, live_replay h₂]
  exact ((List.Perm.swap first second []).filter _).mem_iff

theorem exists_other_winner (h : WellFormed A) (htie : ¬NoTopTie A) :
    ∃ B, registryMachine.Reach Machine.Anytime B ∧ SameLive B A ∧
      ∃ name, B.lookup name ≠ A.lookup name := by
  unfold NoTopTie at htie
  push Not at htie
  obtain ⟨name, e, he, e', he', htied, hne, htop⟩ := htie
  have htop' : ∀ x ∈ A.live name, lwwCmp x e' ≠ .gt := by
    intro x hx
    have hxe := htop x hx
    rw [ne_eq, lwwCmp_eq_gt_iff] at hxe ⊢
    obtain ⟨ht, hn⟩ := htied
    omega
  -- one of the two is not the winner of `A`
  by_cases hw : A.lookup name = some e
  · refine ⟨A.replayLast e', replay_reach _, sameLive_replayLast h he', name, ?_⟩
    rw [lookup_replayLast h he' htop', hw]
    exact fun heq => hne (Option.some.inj heq).symm
  · refine ⟨A.replayLast e, replay_reach _, sameLive_replayLast h he, name, ?_⟩
    rw [lookup_replayLast h he htop]
    exact fun heq => hw heq.symm

/-- **Every replica with the same live entries resolves every name alike, and lists the same
winners, exactly when no name has a tie at the top.** -/
theorem resolves_alike_iff (hA : registryMachine.Reach Machine.Anytime A) :
    (∀ B, registryMachine.Reach Machine.Anytime B → SameLive B A →
      (∀ name, B.lookup name = A.lookup name) ∧
        ∀ o o' : Order String, B.registered o = A.registered o') ↔ NoTopTie A := by
  have wA := wellFormed_of_reach hA
  constructor
  · intro hall
    by_contra htie
    obtain ⟨B, hB, hsame, name, hne⟩ := exists_other_winner wA htie
    exact hne ((hall B hB hsame).1 name)
  · intro hno B hB hsame
    have hlook := fun name => lookup_eq_of_noTie hsame.symm hno name
    exact ⟨hlook, registered_congr wA (wellFormed_of_reach hB) hlook⟩

/-- the two registrations tie, but a later one on another node beats both -/
theorem resolves_alike_later :
    (replay [second, first, later]).lookup "svc" = (replay [first, later, second]).lookup "svc" := by
  have h₁ : Distinct [first, later, second] := by unfold Distinct; decide
  have h₂ : Distinct [second, first, later] := by unfold Distinct; decide
  have hno : NoTopTie (replay [first, later, second]) := by
    intro name e he e' he' htied
    rw [live_replay h₁] at he he' ⊢
    obtain ⟨he, hn⟩ := List.mem_filter.mp he
    obtain ⟨he', -⟩ := List.mem_filter.mp he'
    have hall : ∀ a ∈ [first, later, second], ∀ b ∈ [first, later, second],
        a.timestamp = b.timestamp → a = b ∨ lwwCmp later a = .gt := by decide
    refine (hall e he e' he' htied.1).imp_right fun hgt => ⟨later, ?_, hgt⟩
    have hsvc : ∀ a ∈ [first, later, second], a.name = "svc" := by decide
    rw [hsvc e he] at hn
    exact List.mem_filter.mpr ⟨by decide, hn⟩
  refine ((resolves_alike_iff (replay_reach _)).mpr hno _ (replay_reach _) ?_).1 "svc"
  intro name e
  rw [live_replay h₁, live_replay h₂]
  refine (List.Perm.filter _ ?_).mem_iff
  decide

end Rebar.Registry

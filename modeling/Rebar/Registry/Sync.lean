import Rebar.Registry.Lookup

/-!
# Full syncs among any number of replicas

A full sync sends all that one replica holds to another.  Which replicas sync with which, and how
often, is arbitrary; along a run it is recorded whose first state has come to each replica, directly
or through others (`Replicas.heard`).
-/

namespace Rebar.Registry

structure Replicas (ι : Type) where
  replica : ι → Registry
  heard : ι → Set ι

/-- the deltas of the source, as its maps enumerate them, are merged by the target in any order -/
structure FullSync (ι : Type) where
  source : ι
  target : ι
  order : MapOrder
  deltas : List Delivery

variable {ι : Type} {R : ι → Registry} {s : Replicas ι} {A B : Registry}
  {univ : Uuid → RegistryEntry}

def FullSync.Sent (s : Replicas ι) (a : FullSync ι) : Prop :=
  (a.deltas.map Prod.snd).Perm ((s.replica a.source).generateDeltas a.order)

/-- the runs of full syncs, from the replicas `R` -/
def syncMachine [DecidableEq ι] (R : ι → Registry) : Machine (Replicas ι) (FullSync ι) where
  start s := s = ⟨R, fun k => {k}⟩
  next s a := some
    { replica := Function.update s.replica a.target ((s.replica a.target).mergeAll a.deltas)
      heard := Function.update s.heard a.target (s.heard a.target ∪ s.heard a.source) }

/-- the replica holds what the replicas of a set held together, less what one of them had removed -/
structure Gathers (univ : Uuid → RegistryEntry) (R : ι → Registry) (heard : Set ι) (cap : Nat)
    (r : Registry) : Prop where
  reach : registryMachine.Reach (InUniverse univ) r
  cap : r.maxTombstones = cap
  live : ∀ name e, e ∈ r.live name ↔
    (∃ i ∈ heard, e ∈ (R i).live name) ∧ ∀ i ∈ heard, e.tag ∉ (R i).tombstones
  tombs : ∀ t, t ∈ r.tombstones ↔ ∃ i ∈ heard, t ∈ (R i).tombstones

theorem gathers_self (hR : ∀ k, registryMachine.Reach (InUniverse univ) (R k)) (k : ι) :
    Gathers univ R {k} (R k).maxTombstones (R k) where
  reach := hR k
  cap := rfl
  live := fun name e => by
    have hdisjoint := (consistent_of_reach (hR k)).disjoint name e
    simpa using hdisjoint
  tombs := fun t => by simp

theorem Gathers.sync {H K : Set ι} {capA capB : Nat} (hA : Gathers univ R H capA A)
    (hB : Gathers univ R K capB B) (hcap : {t | ∃ i, t ∈ (R i).tombstones}.encard ≤ capB)
    (o : MapOrder) (ds : List Delivery) (hds : (ds.map Prod.snd).Perm (A.generateDeltas o)) :
    Gathers univ R (K ∪ H) capB (B.mergeAll ds) := by
  have cA := consistent_of_reach hA.reach
  have cB := consistent_of_reach hB.reach
  have hfit : (A.toORSet.2 ∪ B.toORSet.2).encard ≤ B.maxTombstones := by
    rw [hB.cap]
    refine (Set.encard_le_encard ?_).trans hcap
    rintro t (ht | ht)
    · obtain ⟨i, -, hi⟩ := (hA.tombs t).mp ht
      exact ⟨i, hi⟩
    · obtain ⟨i, -, hi⟩ := (hB.tombs t).mp ht
      exact ⟨i, hi⟩
  have hjoin := cA.sync cB hfit o ds hds
  obtain ⟨hlive, htombs⟩ := hjoin.of_join cA cB
  refine ⟨reach_mergeAll_generateDeltas cA hB.reach o ds hds, hjoin.cap.trans hB.cap,
    fun name e => ?_, fun t => ?_⟩
  · rw [hlive, hA.live, hB.live, hA.tombs, hB.tombs]
    simp only [Set.mem_union, or_and_right, exists_or, or_imp, forall_and, not_exists, not_and]
    generalize (∃ i ∈ H, e ∈ (R i).live name) = inA, (∃ i ∈ K, e ∈ (R i).live name) = inB,
      (∀ i ∈ H, e.tag ∉ (R i).tombstones) = keptA, (∀ i ∈ K, e.tag ∉ (R i).tombstones) = keptB
    tauto
  · rw [htombs, hA.tombs, hB.tombs]
    simp only [Set.mem_union, or_and_right, exists_or]
    exact or_comm

variable [DecidableEq ι]

theorem gathers_of_reach (hR : ∀ k, registryMachine.Reach (InUniverse univ) (R k))
    (hcap : ∀ k, {t | ∃ i, t ∈ (R i).tombstones}.encard ≤ (R k).maxTombstones)
    (h : (syncMachine R).Reach FullSync.Sent s) (k : ι) :
    Gathers univ R (s.heard k) (R k).maxTombstones (s.replica k) := by
  refine h.inv (I := fun s => ∀ k, Gathers univ R (s.heard k) (R k).maxTombstones (s.replica k))
    ?_ (fun s a t hs hsent hn k => ?_) k
  · rintro s rfl k
    exact gathers_self hR k
  · cases hn
    by_cases hk : k = a.target
    · subst hk
      simpa using (hs a.source).sync (hs _) (hcap _) a.order a.deltas hsent
    · simpa [hk] using hs k

/-- **However full syncs are scheduled among any number of replicas, each holds exactly what those
it has heard of held together, less what one of them had removed.**  So replicas that have heard of
the same ones hold the same, and resolve every name alike if no registrations tie. -/
theorem syncs_gather (hR : ∀ k, registryMachine.Reach (InUniverse univ) (R k))
    (hcap : ∀ k, {t | ∃ i, t ∈ (R i).tombstones}.encard ≤ (R k).maxTombstones)
    (h : (syncMachine R).Reach FullSync.Sent s) :
    (∀ k, Gathers univ R (s.heard k) (R k).maxTombstones (s.replica k)) ∧
    ∀ k l, s.heard k = s.heard l → SameLive (s.replica k) (s.replica l) ∧
      (NoTopTie (s.replica k) → (∀ name, (s.replica l).lookup name = (s.replica k).lookup name) ∧
        ∀ o o', (s.replica l).registered o = (s.replica k).registered o') := by
  have hg := gathers_of_reach hR hcap h
  refine ⟨hg, fun k l hkl => ?_⟩
  have hsame : SameLive (s.replica k) (s.replica l) := by
    intro name e
    rw [(hg k).live, (hg l).live, hkl]
  refine ⟨hsame, fun htie => ?_⟩
  have hlookup := lookup_eq_of_noTie hsame htie
  exact ⟨hlookup, registered_congr (wellFormed_of_reach (hg k).reach)
    (wellFormed_of_reach (hg l).reach) hlookup⟩

private def lent : RegistryEntry := ⟨"svc", ⟨1, 5⟩, 7, 100, 1⟩

/-- one replica holds the registration that the other knows to be removed -/
private def asked (removed : Bool) : Registry :=
  (empty 1).mergeDelta .stored (if removed then .remove "svc" 7 else .add lent)

/-- the registration does not survive a sync with the replica that knows of its removal -/
theorem syncs_gather_removed : ∃ s : Replicas Bool, (syncMachine asked).Reach FullSync.Sent s ∧
    lent ∈ (asked false).live "svc" ∧ ∀ e, e ∉ (s.replica false).live "svc" := by
  have h0 : registryMachine.Reach (InUniverse fun _ => lent) (empty 1) := .start ⟨1, rfl⟩
  have hR : ∀ b, registryMachine.Reach (InUniverse fun _ => lent) (asked b) := fun b =>
    h0.step (a := (MapOrder.stored, Op.mergeDelta _)) (by cases b <;> rintro _ ⟨⟩; rfl) rfl
  have hcap : ∀ b, {t | ∃ b, t ∈ (asked b).tombstones}.encard ≤ (asked b).maxTombstones := by
    intro b
    refine (Set.encard_le_encard (t := {7}) ?_).trans (by cases b <;> exact (Set.encard_singleton _).le)
    rintro t ⟨b, hb⟩
    cases b with
    | false => cases hb
    | true => exact List.mem_singleton.mp hb
  have hstart : (syncMachine asked).Reach FullSync.Sent ⟨asked, fun k => {k}⟩ := .start rfl
  have hs := hstart.step (a := ⟨true, false, .stored, [(.stored, .remove "svc" 7)]⟩)
    (by exact List.Perm.refl _) rfl
  refine ⟨_, hs, by decide, fun e he => ?_⟩
  obtain ⟨⟨b, -, hb⟩, hkept⟩ := (((syncs_gather hR hcap hs).1 false).live "svc" e).mp he
  refine hkept true (by simp) ?_
  cases b with
  | true => cases hb
  | false =>
    obtain rfl : e = lent := List.mem_singleton.mp hb
    decide

end Rebar.Registry

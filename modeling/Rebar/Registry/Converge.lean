import Rebar.Registry.Spec
import Rebar.Lib.ObservedRemove

/-!
# Convergence of registry replicas

A replica refines an abstract observed-remove set (`Refines`): its live entries are the added ones
whose tag was not removed, its tombstones are the removed tags.  `mergeDelta` refines the join with
the delta (`Refines.mergeDelta`), so a list of deltas refines `ORSet.joinAll`, and

Both need the removed tags to stay under the cap (`Admissible.card`): an evicted tombstone is
forgotten.  For the second, `Consistent` is the invariant of a replica all of whose entries come
from one universe in which the tag determines the entry.
-/

namespace Rebar

open ORSet

def RegistryDelta.toORSet : RegistryDelta → ORSet RegistryEntry Uuid
  | .add e => ({e}, ∅)
  | .remove _ t => (∅, {t})

namespace Registry

/-- a delta together with the enumeration order of the tombstones in the call that merges it -/
abbrev Delivery := Order Uuid × RegistryDelta

def Delivery.toORSet (d : Delivery) : ORSet RegistryEntry Uuid := d.2.toORSet

def mergeAll (r : Registry) (ds : List Delivery) : Registry :=
  ds.foldl (fun r d => r.mergeDelta d.1 d.2) r

/-! ## refinement of the abstract set -/

/-- the replica `r` represents the abstract state `S` -/
structure Refines (cap : Nat) (r : Registry) (S : ORSet RegistryEntry Uuid) : Prop where
  live : ∀ name e, e ∈ r.live name ↔ e ∈ ORSet.live RegistryEntry.tag S ∧ e.name = name
  tombs : ∀ t, t ∈ r.tombstones ↔ t ∈ S.2
  cap : r.maxTombstones = cap

/-- the removed tags fit under the cap, and under one name a tag determines its entry -/
structure Admissible (cap : Nat) (S : ORSet RegistryEntry Uuid) : Prop where
  card : S.2.encard ≤ cap
  tagged : ∀ e ∈ S.1, ∀ e' ∈ S.1, e.name = e'.name → e.tag = e'.tag → e = e'

theorem Admissible.down {cap : Nat} {S T : ORSet RegistryEntry Uuid} (h : S ≤ T)
    (hT : Admissible cap T) : Admissible cap S where
  card := (Set.encard_le_encard h.2).trans hT.card
  tagged := fun e he e' he' => hT.tagged e (h.1 he) e' (h.1 he')

theorem refines_empty (cap : Nat) : Refines cap (empty cap) ⊥ where
  live := fun name e => by
    rw [live_empty]
    exact iff_of_false List.not_mem_nil fun h => h.1.1
  tombs := fun t => iff_of_false (AList.notMem_empty t) fun h => h
  cap := rfl

variable {cap : Nat} {r : Registry} {S : ORSet RegistryEntry Uuid}

variable {e : RegistryEntry} {r' A B : Registry}

theorem Refines.mergeAdd (hok : Admissible cap (S ⊔ ({e}, ∅))) (h : Refines cap r S) :
    Refines cap (r.mergeAdd e) (S ⊔ ({e}, ∅)) where
  cap := by rw [mergeAdd_max]; exact h.cap
  tombs := fun t => by
    rw [mergeAdd_tombstones, h.tombs]
    show t ∈ S.2 ↔ t ∈ S.2 ∪ ∅
    rw [Set.union_empty]
  live := fun name x => by
    have hmem : x ∈ ORSet.live RegistryEntry.tag (S ⊔ ({e}, ∅)) ↔
        (x ∈ S.1 ∨ x = e) ∧ x.tag ∉ S.2 := by
      rw [ORSet.mem_live]
      show x ∈ S.1 ∪ {e} ∧ x.tag ∉ S.2 ∪ ∅ ↔ _
      rw [Set.union_empty, Set.mem_union, Set.mem_singleton_iff]
    have hold : x ∈ r.live name ↔ (x ∈ S.1 ∧ x.tag ∉ S.2) ∧ x.name = name := h.live name x
    rw [hmem, live_mergeAdd]
    split
    · next hpush =>
      obtain ⟨htag, -, rfl⟩ := hpush
      rw [List.mem_append, List.mem_singleton, hold]
      rw [h.tombs] at htag
      constructor
      · rintro (⟨⟨h1, h2⟩, h3⟩ | rfl)
        · exact ⟨⟨Or.inl h1, h2⟩, h3⟩
        · exact ⟨⟨Or.inr rfl, htag⟩, rfl⟩
      · rintro ⟨⟨h1 | rfl, h2⟩, h3⟩
        · exact Or.inl ⟨⟨h1, h2⟩, h3⟩
        · exact Or.inr rfl
    · next hskip =>
      rw [hold]
      constructor
      · rintro ⟨⟨h1, h2⟩, h3⟩
        exact ⟨⟨Or.inl h1, h2⟩, h3⟩
      · rintro ⟨⟨h1 | rfl, h2⟩, rfl⟩
        · exact ⟨⟨h1, h2⟩, rfl⟩
        · -- the tag is already live under the name, so the entry is
          have hex : ∃ e' ∈ r.live x.name, e'.tag = x.tag := by
            by_contra hno
            apply hskip
            refine ⟨fun ht => h2 ((h.tombs _).mp ht), fun e' he' het => ?_, rfl⟩
            exact hno ⟨e', he', het⟩
          obtain ⟨e', he', het⟩ := hex
          obtain ⟨⟨h1, -⟩, hn⟩ := (h.live _ _).mp he'
          have heq : e' = x := hok.tagged e' (Or.inl h1) x (Or.inr rfl) hn het
          rw [heq] at h1
          exact ⟨⟨h1, h2⟩, rfl⟩

/-- a `Remove` refines the join with its tag, whatever name it carries -/
theorem Refines.mergeRemove {o : Order Uuid} {n : String} {t : Uuid}
    (hok : Admissible cap (S ⊔ (∅, {t}))) (h : Refines cap r S) :
    Refines cap (r.mergeDelta o (.remove n t)) (S ⊔ (∅, {t})) where
  cap := h.cap
  tombs := fun u => by
    have hset : {u | u = t ∨ u ∈ r.tombstones} = S.2 ∪ {t} := by
      ext u
      rw [Set.mem_union, Set.mem_singleton_iff, ← h.tombs]
      exact or_comm
    rw [mergeRemove_tombstones, mem_tombstone]
    · show u = t ∨ u ∈ r.tombstones ↔ u ∈ S.2 ∪ {t}
      rw [← hset]; rfl
    · rw [hset, h.cap]
      exact hok.card
  live := fun name x => by
    rw [live_mergeRemove, List.mem_filter, h.live, ORSet.mem_live, ORSet.mem_live]
    show _ ↔ (x ∈ S.1 ∪ ∅ ∧ x.tag ∉ S.2 ∪ {t}) ∧ _
    rw [Set.union_empty, Set.mem_union, Set.mem_singleton_iff, decide_eq_true_eq]
    tauto

theorem Refines.mergeDelta (d : Delivery) (hok : Admissible cap (S ⊔ d.toORSet))
    (h : Refines cap r S) : Refines cap (r.mergeDelta d.1 d.2) (S ⊔ d.toORSet) := by
  obtain ⟨o, d⟩ := d
  cases d with
  | add e => exact h.mergeAdd hok
  | remove n t => exact h.mergeRemove hok

theorem Refines.mergeAll (ds : List Delivery)
    (hok : Admissible cap (joinAll Delivery.toORSet S ds)) (h : Refines cap r S) :
    Refines cap (r.mergeAll ds) (joinAll Delivery.toORSet S ds) :=
  foldl_refines Delivery.toORSet (fun _ _ hle hT => hT.down hle)
    (fun _ _ d hd hr => hr.mergeDelta d hd) ds hok h

theorem Refines.agree {cap' : Nat} (h : Refines cap r S) (h' : Refines cap' r' S) :
    (∀ name e, e ∈ r.live name ↔ e ∈ r'.live name) ∧
      ∀ t, t ∈ r.tombstones ↔ t ∈ r'.tombstones :=
  ⟨fun name e => (h.live name e).trans (h'.live name e).symm,
    fun t => (h.tombs t).trans (h'.tombs t).symm⟩

/-! ## the same deltas in any order -/

theorem joinAll_fst (S : ORSet RegistryEntry Uuid) (ds : List Delivery) (e : RegistryEntry) :
    e ∈ (joinAll Delivery.toORSet S ds).1 ↔ e ∈ S.1 ∨ .add e ∈ ds.map Prod.snd := by
  rw [mem_joinAll_fst]
  apply or_congr_right
  constructor
  · rintro ⟨⟨o, d⟩, hd, he⟩
    cases d with
    | add e' =>
      have heq : e = e' := he
      rw [heq]
      exact List.mem_map.mpr ⟨(o, .add e'), hd, rfl⟩
    | remove n t => exact False.elim he
  · intro h
    obtain ⟨⟨o, d⟩, hd, rfl⟩ := List.mem_map.mp h
    exact ⟨(o, .add e), hd, rfl⟩

theorem joinAll_snd (S : ORSet RegistryEntry Uuid) (ds : List Delivery) (t : Uuid) :
    t ∈ (joinAll Delivery.toORSet S ds).2 ↔ t ∈ S.2 ∨ ∃ n, .remove n t ∈ ds.map Prod.snd := by
  rw [mem_joinAll_snd]
  apply or_congr_right
  constructor
  · rintro ⟨⟨o, d⟩, hd, ht⟩
    cases d with
    | add e => exact False.elim ht
    | remove n t' =>
      have heq : t = t' := ht
      rw [heq]
      exact ⟨n, List.mem_map.mpr ⟨(o, .remove n t'), hd, rfl⟩⟩
  · rintro ⟨n, h⟩
    obtain ⟨⟨o, d⟩, hd, rfl⟩ := List.mem_map.mp h
    exact ⟨(o, .remove n t), hd, rfl⟩

/-- a replica that started empty and was given exactly the deltas of `D` represents their join -/
theorem refines_of_deltas (cap : Nat) (D : List RegistryDelta)
    (htag : ∀ e e', .add e ∈ D → .add e' ∈ D → e.tag = e'.tag → e = e')
    (hcap : {t | ∃ n, RegistryDelta.remove n t ∈ D}.encard ≤ cap)
    (ds : List Delivery) (hds : ∀ d, d ∈ ds.map Prod.snd ↔ d ∈ D) :
    Refines cap ((empty cap).mergeAll ds) ({e | .add e ∈ D}, {t | ∃ n, .remove n t ∈ D}) := by
  have hS : joinAll Delivery.toORSet ⊥ ds
      = ({e | .add e ∈ D}, {t | ∃ n, .remove n t ∈ D}) := by
    apply Prod.ext
    · ext e
      rw [joinAll_fst, hds]
      exact or_iff_right fun h => h
    · ext t
      rw [joinAll_snd]
      simp only [hds]
      exact or_iff_right fun h => h
  rw [← hS]
  apply (refines_empty cap).mergeAll
  rw [hS]
  exact ⟨hcap, fun e he e' he' _ => htag e e' he he'⟩

/-- **Replicas that start empty and merge the same deltas, each in its own order and with any
repetition, agree**, and nothing that was removed is live. -/
theorem merge_converges (D : Multiset RegistryDelta) (cap : Nat)
    (htag : ∀ e e', .add e ∈ D → .add e' ∈ D → e.tag = e'.tag → e = e')
    (hcap : {t | ∃ n, RegistryDelta.remove n t ∈ D}.encard ≤ cap)
    (ds₁ ds₂ : List Delivery) (h₁ : ∀ d, d ∈ ds₁.map Prod.snd ↔ d ∈ D)
    (h₂ : ∀ d, d ∈ ds₂.map Prod.snd ↔ d ∈ D) :
    (∀ name e, e ∈ ((empty cap).mergeAll ds₁).live name
        ↔ e ∈ ((empty cap).mergeAll ds₂).live name) ∧
      (∀ t, t ∈ ((empty cap).mergeAll ds₁).tombstones
        ↔ t ∈ ((empty cap).mergeAll ds₂).tombstones) ∧
      ∀ name e, e ∈ ((empty cap).mergeAll ds₁).live name → ∀ n, .remove n e.tag ∉ D := by
  induction D using Quotient.inductionOn with
  | h D =>
    have r₁ := refines_of_deltas cap D htag hcap ds₁ h₁
    have r₂ := refines_of_deltas cap D htag hcap ds₂ h₂
    refine ⟨(r₁.agree r₂).1, (r₁.agree r₂).2, fun name e he n hn => ?_⟩
    exact ((r₁.live name e).mp he).1.2 ⟨n, hn⟩

private def svc : RegistryEntry := ⟨"svc", ⟨1, 5⟩, 70, 100, 1⟩
private def db : RegistryEntry := ⟨"db", ⟨2, 1⟩, 71, 100, 2⟩

/-- the removal of `svc` arrives last and under a wrong name on one replica, first on the other;
both keep `db` -/
theorem merge_converges_svc :
    db ∈ ((empty 1).mergeAll [(.stored, .add svc), (.stored, .add db),
        (.stored, .remove "" 70)]).live "db" ∧
    ∀ name e, e ∈ ((empty 1).mergeAll [(.stored, .add svc), (.stored, .add db),
        (.stored, .remove "" 70)]).live name
      ↔ e ∈ ((empty 1).mergeAll [(.stored, .remove "" 70), (.stored, .add db),
        (.stored, .add svc), (.stored, .add db)]).live name := by
  refine ⟨by decide,
    (merge_converges ({.add svc, .add db, .remove "" 70}) 1 ?_ ?_ _ _ ?_ ?_).1⟩
  · intro e e' he he' htag
    simp only [Multiset.insert_eq_cons, Multiset.mem_cons, Multiset.mem_singleton,
      RegistryDelta.add.injEq, reduceCtorEq, or_false] at he he'
    rcases he with rfl | rfl <;> rcases he' with rfl | rfl
    · rfl
    · exact absurd htag (by decide)
    · exact absurd htag (by decide)
    · rfl
  · refine (Set.encard_le_encard (t := {70}) ?_).trans (by simp)
    rintro t ⟨n, hn⟩
    simp only [Multiset.insert_eq_cons, Multiset.mem_cons, Multiset.mem_singleton, reduceCtorEq,
      RegistryDelta.remove.injEq, false_or] at hn
    exact hn.2
  · intro d
    simp
  · intro d
    simp
    tauto

/-! ## full synchronisation -/

/-- every entry that a call carries is the one its tag has in the universe -/
def InUniverse (univ : Uuid → RegistryEntry) (_ : Registry) (a : MapOrder × Op) : Prop :=
  ∀ e ∈ a.2.adds, univ e.tag = e

/-- a replica over a universe of registrations: every entry is the one of its tag, and its tag is
not tombstoned -/
structure Consistent (univ : Uuid → RegistryEntry) (r : Registry) : Prop extends
    WellFormed r where
  fromUniv : ∀ name, ∀ e ∈ r.live name, univ e.tag = e
  disjoint : ∀ name, ∀ e ∈ r.live name, e.tag ∉ r.tombstones

variable {univ : Uuid → RegistryEntry}

theorem consistent_empty (cap : Nat) : Consistent univ (empty cap) where
  toWellFormed := wellFormed_empty cap
  fromUniv := nofun
  disjoint := nofun

theorem Consistent.push (h : Consistent univ r) (hwf : WellFormed r') (he : univ e.tag = e)
    (hp : Pushes r r' e) : Consistent univ r' := by
  have hlive : ∀ name, ∀ x ∈ r'.live name, x ∈ r.live name ∨ x = e := by
    intro name x hx
    rw [hp.live] at hx
    split at hx
    · exact (List.mem_append.mp hx).imp_right List.mem_singleton.mp
    · exact Or.inl hx
  refine ⟨hwf, fun name x hx => ?_, fun name x hx => ?_⟩
  · rcases hlive name x hx with hx | rfl
    · exact h.fromUniv name x hx
    · exact he
  · rw [hp.tombstones]
    rcases hlive name x hx with hx | rfl
    · exact h.disjoint name x hx
    · exact hp.untombed

theorem Consistent.shrink (h : Consistent univ r) (hwf : WellFormed r') (hs : Shrinks r r') :
    Consistent univ r' := by
  have hlive : ∀ name, ∀ e ∈ r'.live name, e ∈ r.live name := fun name _ he => (hs.sub name).mem he
  refine ⟨hwf, fun name e he => h.fromUniv name e (hlive name e he), fun name e he ht => ?_⟩
  rcases hs.tombs _ ht with ht | ⟨n, e', he', het, hgone⟩ | hnone
  · exact h.disjoint name e (hlive name e he) ht
  · -- the tag determines the entry, and the entry its name
    have heq : e' = e := by
      rw [← h.fromUniv n e' he', het, h.fromUniv name e (hlive name e he)]
    have hn : n = name := by
      rw [← h.ownName n e' he', heq, h.ownName name e (hlive name e he)]
    rw [heq, hn] at hgone
    exact hgone he
  · exact hnone name e he rfl

theorem consistent_of_reach (h : registryMachine.Reach (InUniverse univ) r) : Consistent univ r := by
  refine h.inv (by rintro _ ⟨cap, rfl⟩; exact consistent_empty cap) fun s a t hc ha hs => ?_
  have hwf := hc.toWellFormed.step hs
  rcases step_cases hs with ⟨e, he, hp⟩ | hsh
  · exact hc.push hwf (ha e he) hp
  · exact hc.shrink hwf hsh

theorem reach_mergeAll (ds : List Delivery) (h : registryMachine.Reach (InUniverse univ) r)
    (hds : ∀ e, .add e ∈ ds.map Prod.snd → univ e.tag = e) :
    registryMachine.Reach (InUniverse univ) (r.mergeAll ds) := by
  induction ds generalizing r with
  | nil => exact h
  | cons d ds ih =>
    have hd : InUniverse univ r (⟨Order.stored, d.1⟩, .mergeDelta d.2) := by
      intro e he
      obtain ⟨o, d⟩ := d
      cases d with
      | add e' =>
        cases he
        exact hds e List.mem_cons_self
      | remove n t => cases he
    exact ih (h.step hd rfl) fun e he => hds e (List.mem_cons_of_mem _ he)

/-- the abstract state of a consistent replica: its live entries and its tombstones -/
def toORSet (r : Registry) : ORSet RegistryEntry Uuid :=
  ({e | ∃ name, e ∈ r.live name}, {t | t ∈ r.tombstones})

theorem Consistent.refines (h : Consistent univ r) : Refines r.maxTombstones r r.toORSet where
  cap := rfl
  tombs := fun _ => Iff.rfl
  live := fun name e => by
    constructor
    · intro he
      exact ⟨⟨⟨name, he⟩, h.disjoint name e he⟩, h.ownName name e he⟩
    · rintro ⟨⟨⟨n, he⟩, -⟩, hn⟩
      rw [← hn, h.ownName n e he]
      exact he

theorem joinAll_generateDeltas (o : MapOrder) (A : Registry) (S : ORSet RegistryEntry Uuid)
    (ds : List Delivery) (hds : (ds.map Prod.snd).Perm (A.generateDeltas o)) :
    joinAll Delivery.toORSet S ds = S ⊔ A.toORSet := by
  apply Prod.ext
  · ext e
    rw [joinAll_fst, hds.mem_iff, add_mem_generateDeltas]
    rfl
  · ext t
    rw [joinAll_snd]
    simp only [hds.mem_iff]
    rw [remove_mem_generateDeltas]
    rfl

/-- **One direction of a full sync**: the receiver represents the join of the two replicas. -/
theorem Consistent.sync (hA : Consistent univ A) (hB : Consistent univ B)
    (hcap : (A.toORSet.2 ∪ B.toORSet.2).encard ≤ B.maxTombstones) (o : MapOrder)
    (ds : List Delivery) (hds : (ds.map Prod.snd).Perm (A.generateDeltas o)) :
    Refines B.maxTombstones (B.mergeAll ds) (B.toORSet ⊔ A.toORSet) := by
  have hjoin := joinAll_generateDeltas o A B.toORSet ds hds
  rw [← hjoin]
  apply hB.refines.mergeAll
  rw [hjoin]
  refine ⟨?_, ?_⟩
  · show (B.toORSet.2 ∪ A.toORSet.2).encard ≤ _
    rw [Set.union_comm]
    exact hcap
  · rintro e (⟨n, he⟩ | ⟨n, he⟩) e' (⟨n', he'⟩ | ⟨n', he'⟩) - htag
    · rw [← hB.fromUniv n e he, htag, hB.fromUniv n' e' he']
    · rw [← hB.fromUniv n e he, htag, hA.fromUniv n' e' he']
    · rw [← hA.fromUniv n e he, htag, hB.fromUniv n' e' he']
    · rw [← hA.fromUniv n e he, htag, hA.fromUniv n' e' he']

theorem reach_mergeAll_generateDeltas (hA : Consistent univ A)
    (hB : registryMachine.Reach (InUniverse univ) B) (o : MapOrder) (ds : List Delivery)
    (hds : (ds.map Prod.snd).Perm (A.generateDeltas o)) :
    registryMachine.Reach (InUniverse univ) (B.mergeAll ds) := by
  refine reach_mergeAll ds hB fun e he => ?_
  rw [hds.mem_iff, add_mem_generateDeltas] at he
  obtain ⟨name, he⟩ := he
  exact hA.fromUniv name e he

/-- what a replica that represents `B ⊔ A` holds, in terms of `A` and `B` -/
theorem Refines.of_join {C : Registry} {cap : Nat} (hA : Consistent univ A) (hB : Consistent univ B)
    (h : Refines cap C (B.toORSet ⊔ A.toORSet)) :
    (∀ name e, e ∈ C.live name ↔ (e ∈ A.live name ∨ e ∈ B.live name) ∧
        e.tag ∉ A.tombstones ∧ e.tag ∉ B.tombstones) ∧
      ∀ t, t ∈ C.tombstones ↔ t ∈ A.tombstones ∨ t ∈ B.tombstones := by
  refine ⟨fun name e => ?_, fun t => (h.tombs t).trans or_comm⟩
  rw [h.live, ORSet.mem_live]
  constructor
  · rintro ⟨⟨hlive, htag⟩, rfl⟩
    refine ⟨?_, fun ht => htag (Or.inr ht), fun ht => htag (Or.inl ht)⟩
    rcases hlive with ⟨n, he⟩ | ⟨n, he⟩
    · exact Or.inr (by rw [hB.ownName n e he]; exact he)
    · exact Or.inl (by rw [hA.ownName n e he]; exact he)
  · rintro ⟨he | he, htA, htB⟩
    · exact ⟨⟨Or.inr ⟨name, he⟩, fun ht => ht.elim htB htA⟩, hA.ownName name e he⟩
    · exact ⟨⟨Or.inl ⟨name, he⟩, fun ht => ht.elim htB htA⟩, hB.ownName name e he⟩

/-- **A full sync gives the receiver the join of the two replicas, and a full sync in each
direction makes them equal**, whether the second sends what it held before the first sync or what
it held after it. -/
theorem fullSync_joins {A B : Registry} (hA : registryMachine.Reach (InUniverse univ) A)
    (hB : registryMachine.Reach (InUniverse univ) B)
    (hcapA : {t | t ∈ A.tombstones ∨ t ∈ B.tombstones}.encard ≤ A.maxTombstones)
    (hcapB : {t | t ∈ A.tombstones ∨ t ∈ B.tombstones}.encard ≤ B.maxTombstones)
    (o : MapOrder) (ds : List Delivery) (hds : (ds.map Prod.snd).Perm (A.generateDeltas o)) :
    (∀ name e, e ∈ (B.mergeAll ds).live name ↔ (e ∈ A.live name ∨ e ∈ B.live name) ∧
        e.tag ∉ A.tombstones ∧ e.tag ∉ B.tombstones) ∧
      (∀ t, t ∈ (B.mergeAll ds).tombstones ↔ t ∈ A.tombstones ∨ t ∈ B.tombstones) ∧
      ∀ (o' : MapOrder) (ds' : List Delivery),
        (ds'.map Prod.snd).Perm (B.generateDeltas o') ∨
          (ds'.map Prod.snd).Perm ((B.mergeAll ds).generateDeltas o') →
        (∀ name e, e ∈ (A.mergeAll ds').live name ↔ e ∈ (B.mergeAll ds).live name) ∧
          ∀ t, t ∈ (A.mergeAll ds').tombstones ↔ t ∈ (B.mergeAll ds).tombstones := by
  have cA := consistent_of_reach hA
  have cB := consistent_of_reach hB
  have hB' := (cA.sync cB hcapB o ds hds).of_join cA cB
  refine ⟨hB'.1, hB'.2, fun o' ds' hds' => ?_⟩
  rcases hds' with hds' | hds'
  · have hcap : (B.toORSet.2 ∪ A.toORSet.2).encard ≤ A.maxTombstones := by
      rw [Set.union_comm]
      exact hcapA
    have hA' := (cB.sync cA hcap o' ds' hds').of_join cB cA
    refine ⟨fun name e => ?_, fun t => ?_⟩
    · rw [hA'.1, hB'.1, or_comm, and_comm (a := e.tag ∉ B.tombstones)]
    · rw [hA'.2, hB'.2, or_comm]
  · have cB' := consistent_of_reach (reach_mergeAll_generateDeltas cA hB o ds hds)
    have hcap : ((B.mergeAll ds).toORSet.2 ∪ A.toORSet.2).encard ≤ A.maxTombstones := by
      refine (Set.encard_le_encard ?_).trans hcapA
      rintro t (ht | ht)
      · exact (hB'.2 t).mp ht
      · exact Or.inl ht
    have hA' := (cB'.sync cA hcap o' ds' hds').of_join cB' cA
    refine ⟨fun name e => ?_, fun t => ?_⟩
    · rw [hA'.1, hB'.1, hB'.2]
      tauto
    · rw [hA'.2, hB'.2]
      tauto

private def registrations : Uuid → RegistryEntry
  | 70 => svc
  | _ => db

/-- registered both names and dropped `db` -/
private def left : Registry :=
  ((((empty 2).register "svc" ⟨1, 5⟩ 1 100 70).register "db" ⟨2, 1⟩ 2 100 71).unregister
    .stored "db").1

/-- heard of both and dropped `svc` -/
private def right : Registry :=
  ((((empty 2).mergeDelta .stored (.add svc)).mergeDelta .stored (.add db)).unregister
    .stored "svc").1

private theorem left_reach : registryMachine.Reach (InUniverse registrations) left := by
  have h0 : registryMachine.Reach (InUniverse registrations) (empty 2) := .start ⟨2, rfl⟩
  have h1 := h0.step (a := (MapOrder.stored, Op.register "svc" (ProcessId.mk 1 5) 1 100 70))
    (by rintro _ ⟨⟩; rfl) rfl
  have h2 := h1.step (a := (MapOrder.stored, Op.register "db" (ProcessId.mk 2 1) 2 100 71))
    (by rintro _ ⟨⟩; rfl) rfl
  exact h2.step (a := (MapOrder.stored, Op.unregister "db")) (by rintro _ ⟨⟩) rfl

private theorem right_reach : registryMachine.Reach (InUniverse registrations) right := by
  have h0 : registryMachine.Reach (InUniverse registrations) (empty 2) := .start ⟨2, rfl⟩
  have h1 := h0.step (a := (MapOrder.stored, Op.mergeDelta (RegistryDelta.add svc)))
    (by rintro _ ⟨⟩; rfl) rfl
  have h2 := h1.step (a := (MapOrder.stored, Op.mergeDelta (RegistryDelta.add db)))
    (by rintro _ ⟨⟩; rfl) rfl
  exact h2.step (a := (MapOrder.stored, Op.unregister "svc")) (by rintro _ ⟨⟩) rfl

private theorem left_right_card :
    {t | t ∈ left.tombstones ∨ t ∈ right.tombstones}.encard ≤ (2 : Nat) := by
  have hsub : {t | t ∈ left.tombstones ∨ t ∈ right.tombstones} ⊆ {71, 70} := by
    rintro t (ht | ht)
    · have hk : left.tombstones.keys = [71] := by decide
      rw [AList.mem_keys, hk] at ht
      exact Or.inl (List.mem_singleton.mp ht)
    · have hk : right.tombstones.keys = [70] := by decide
      rw [AList.mem_keys, hk] at ht
      exact Or.inr (List.mem_singleton.mp ht)
  exact (Set.encard_le_encard hsub).trans (Set.encard_insert_le _ _ |>.trans (by simp; rfl))

/-- each side tombstoned what the other holds live -/
theorem fullSync_joins_left_right :
    (∀ name e, e ∈ (right.mergeAll ((left.generateDeltas .stored).map fun d =>
        (.stored, d))).live name ↔ (e ∈ left.live name ∨ e ∈ right.live name) ∧
        e.tag ∉ left.tombstones ∧ e.tag ∉ right.tombstones) ∧
      ∀ t, t ∈ (right.mergeAll ((left.generateDeltas .stored).map fun d =>
        (.stored, d))).tombstones ↔ t ∈ left.tombstones ∨ t ∈ right.tombstones := by
  have h := fullSync_joins left_reach right_reach left_right_card left_right_card .stored
    ((left.generateDeltas .stored).map fun d => (.stored, d))
    (by rw [List.map_map]; exact (List.map_id _).symm ▸ List.Perm.refl _)
  exact ⟨h.1, h.2.1⟩

end Registry
end Rebar

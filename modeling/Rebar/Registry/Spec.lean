import Rebar.Registry.OrSet
import Mathlib.Data.Set.Card
import Mathlib.Data.Finset.Dedup

/-!
# What each registry operation does to the live entries and to the tombstones

One lemma for the live entries (`live_*`) and one for the tombstones (`mem_*`) of each operation.
Tombstones can be lost to the cap, so in general an operation only bounds them from above;
`mem_tombstone` is the exact form when the cap is not exceeded.

`step_cases` sums up what a step of a replica can do: it pushes the one entry its call carries
(`Pushes`) or only removes (`Shrinks`).  Invariants of runs are proved from it; the first is
`WellFormed`.
-/

namespace Rebar.Registry

open HashMap

/-! ## the cap -/

theorem evictOldest_lookup (o : Order Uuid) (cap fuel : Nat) (m : HashMap Uuid Tombstone) (t : Uuid)
    (x : Tombstone) (h : (evictOldest o cap fuel m).lookup t = some x) : m.lookup t = some x := by
  induction fuel generalizing m with
  | zero => exact h
  | succ fuel ih =>
    unfold evictOldest at h
    split at h
    next =>
      split at h
      next => exact (of_lookup_erase (ih _ h)).2
      next => exact h
    next => exact h

theorem evictOldest_of_le (o : Order Uuid) {cap : Nat} (fuel : Nat) {m : HashMap Uuid Tombstone}
    (h : m.keys.length ≤ cap) : evictOldest o cap fuel m = m := by
  cases fuel with
  | zero => rfl
  | succ fuel =>
    unfold evictOldest
    rw [if_neg (by omega)]

/-- the rounds allowed are enough: the loop ends with at most `cap` tombstones -/
theorem evictOldest_length (o : Order Uuid) (cap fuel : Nat) (m : HashMap Uuid Tombstone)
    (hf : m.keys.length ≤ cap + fuel) : (evictOldest o cap fuel m).keys.length ≤ cap := by
  induction fuel generalizing m with
  | zero => simpa [evictOldest] using hf
  | succ fuel ih =>
    unfold evictOldest
    by_cases hc : cap < m.keys.length
    · rw [if_pos hc]
      cases hv : minByKey (generationOf m) (HashMap.keysIn m o) with
      | none =>
        have hnil := (minByKey_eq_none_iff _ _).mp hv
        have hlen : (HashMap.keysIn m o).length = m.keys.length := (o.perm m.keys).length_eq
        rw [hnil] at hlen
        simp only [List.length_nil] at hlen
        show m.keys.length ≤ cap
        omega
      | some v =>
        have hmem : v ∈ m.keys := (o.mem_run _ _).mp (minByKey_mem _ hv)
        apply ih
        rw [AList.keys_erase, List.length_erase_of_mem hmem]
        omega
    · rw [if_neg hc]
      omega

/-- **The cap holds**: the loop of the source ends only with at most `maxTombstones` tombstones -/
theorem enforceTombstoneCap_length (o : Order Uuid) (r : Registry) :
    (r.enforceTombstoneCap o).tombstones.keys.length ≤ r.maxTombstones :=
  evictOldest_length o r.maxTombstones r.tombstones.keys.length r.tombstones (by omega)

/-! ## one tombstone -/

/-- the tombstones with `tag` added, before the cap is enforced -/
def withTombstone (r : Registry) (tag : Uuid) (name : String) : HashMap Uuid Tombstone :=
  match r.tombstones.lookup tag with
  | some existing =>
    if existing.name = "" ∧ name ≠ "" then r.tombstones.insert tag { existing with name := name }
    else r.tombstones
  | none => r.tombstones.insert tag ⟨name, r.nextGen.2⟩

theorem mem_withTombstone (r : Registry) (tag t : Uuid) (name : String) :
    t ∈ r.withTombstone tag name ↔ t = tag ∨ t ∈ r.tombstones := by
  unfold withTombstone
  cases h : r.tombstones.lookup tag with
  | none => exact AList.mem_insert _
  | some existing =>
    have htag : tag ∈ r.tombstones := mem_of_lookup h
    dsimp only
    split
    · exact AList.mem_insert _
    · exact ⟨Or.inr, fun h => h.elim (fun heq => heq ▸ htag) id⟩

variable {o : Order Uuid} {r : Registry} {t : Uuid} {name : String} {e : RegistryEntry}
  {p : RegistryEntry → Bool}

theorem of_mem_tombstone {tag : Uuid} (h : t ∈ (r.tombstone o tag name).tombstones) :
    t = tag ∨ t ∈ r.tombstones := by
  obtain ⟨x, hx⟩ := exists_of_mem h
  exact (mem_withTombstone r tag t name).mp
    (mem_of_lookup (evictOldest_lookup _ _ _ _ _ _ hx))

theorem length_keys_eq_encard {V : Type} (m : HashMap Uuid V) :
    (m.keys.length : ℕ∞) = {t | t ∈ m}.encard := by
  have h : {t | t ∈ m} = (m.keys.toFinset : Set Uuid) := by
    ext t
    simp [AList.mem_keys]
  rw [h, Set.encard_coe_eq_coe_finsetCard, List.toFinset_card_of_nodup m.keys_nodup]

theorem mem_tombstone (o : Order Uuid) (r : Registry) (tag t : Uuid) (name : String)
    (hcap : {t | t = tag ∨ t ∈ r.tombstones}.encard ≤ r.maxTombstones) :
    t ∈ (r.tombstone o tag name).tombstones ↔ t = tag ∨ t ∈ r.tombstones := by
  have hset : {t | t ∈ r.withTombstone tag name} = {t | t = tag ∨ t ∈ r.tombstones} := by
    ext t
    exact mem_withTombstone r tag t name
  have hlen : (r.withTombstone tag name).keys.length ≤ r.maxTombstones := by
    have h := length_keys_eq_encard (r.withTombstone tag name)
    rw [hset] at h
    rw [← h] at hcap
    exact_mod_cast hcap
  have he : (r.tombstone o tag name).tombstones = r.withTombstone tag name :=
    evictOldest_of_le o _ hlen
  rw [he]
  exact mem_withTombstone r tag t name

/-! ## several tombstones -/

def tombstoneAll (o : Order Uuid) (name : String) (r : Registry) (tags : List Uuid) : Registry :=
  tags.foldl (fun r tag => r.tombstone o tag name) r

theorem tombstoneAll_entries (o : Order Uuid) (name : String) (r : Registry) (tags : List Uuid) :
    (tombstoneAll o name r tags).entries = r.entries := by
  induction tags generalizing r with
  | nil => rfl
  | cons t tags ih => exact ih (r.tombstone o t name)

theorem live_tombstoneAll (o : Order Uuid) (name n : String) (r : Registry) (tags : List Uuid) :
    (tombstoneAll o name r tags).live n = r.live n := by
  unfold live
  rw [tombstoneAll_entries]

theorem of_mem_tombstoneAll {tags : List Uuid} (h : t ∈ (tombstoneAll o name r tags).tombstones) :
    t ∈ tags ∨ t ∈ r.tombstones := by
  induction tags generalizing r with
  | nil => exact Or.inr h
  | cons u tags ih =>
    rcases ih h with h' | h'
    · exact Or.inl (List.mem_cons_of_mem _ h')
    · rcases of_mem_tombstone h' with e | e
      · exact Or.inl (by rw [e]; exact List.mem_cons_self ..)
      · exact Or.inr e

/-! ## live entries -/

theorem mem_live_iff (r : Registry) (name : String) (e : RegistryEntry) :
    e ∈ r.live name ↔ ∃ es, r.entries.lookup name = some es ∧ e ∈ es := by
  unfold live
  cases r.entries.lookup name with
  | none => simp
  | some es => simp

theorem mem_keys_of_live (h : e ∈ r.live name) (o : Order String) :
    name ∈ HashMap.keysIn r.entries o := by
  obtain ⟨es, hes, _⟩ := (mem_live_iff r name e).mp h
  exact (mem_keysIn _ _ _).mpr ⟨es, hes⟩

theorem live_empty (cap : Nat) (name : String) : (empty cap).live name = [] := rfl

theorem live_insert (r : Registry) (a name : String) (es : List RegistryEntry) :
    { r with entries := r.entries.insert a es }.live name
      = if name = a then es else r.live name :=
  getD_insert r.entries a name es

theorem live_erase (r : Registry) (a name : String) :
    { r with entries := r.entries.erase a }.live name = if name = a then [] else r.live name :=
  getD_erase r.entries a name

theorem live_register (r : Registry) (name n : String) (pid : ProcessId) (nodeId ts : Nat)
    (tag : Uuid) : (r.register name pid nodeId ts tag).live n
      = if n = name then r.live name ++ [⟨name, pid, tag, ts, nodeId⟩] else r.live n :=
  live_insert r name n _

theorem live_reapTag (r : Registry) (tag : Uuid) (name : String) :
    (r.reapTag tag).1.live name = (r.live name).filter fun e => e.tag ≠ tag := by
  unfold live reapTag
  dsimp only
  rw [lookup_retain, lookup_mapVal]
  cases r.entries.lookup name with
  | none => rfl
  | some es =>
    simp only [Option.map_some, Option.getD_some]
    by_cases h : (es.filter fun e => decide (e.tag ≠ tag)) = []
    · rw [h]; rfl
    · have hne : (es.filter fun e => decide (e.tag ≠ tag)).isEmpty = false := by
        rw [← Bool.not_eq_true, List.isEmpty_iff]
        exact h
      rw [Option.filter_some]
      simp only [hne, Bool.not_false, if_true, Option.getD_some]

theorem live_mergeRemove (o : Order Uuid) (r : Registry) (n : String) (tag : Uuid)
    (name : String) :
    (r.mergeDelta o (.remove n tag)).live name = (r.live name).filter fun e => e.tag ≠ tag :=
  live_reapTag (r.tombstone o tag n) tag name

theorem mergeRemove_tombstones (o : Order Uuid) (r : Registry) (n : String) (tag : Uuid) :
    (r.mergeDelta o (.remove n tag)).tombstones = (r.tombstone o tag n).tombstones := rfl

/-- an `Add` is a no-op for a tombstoned tag or a tag already live under the name, else a push -/
theorem mergeAdd_eq (r : Registry) (entry : RegistryEntry) :
    ¬ (entry.tag ∉ r.tombstones ∧ ∀ e ∈ r.live entry.name, e.tag ≠ entry.tag) ∧
      r.mergeAdd entry = r ∨
    (entry.tag ∉ r.tombstones ∧ ∀ e ∈ r.live entry.name, e.tag ≠ entry.tag) ∧
      ∃ conflicts, r.mergeAdd entry = { r with
        entries := r.entries.insert entry.name (r.live entry.name ++ [entry])
        conflicts := conflicts } := by
  unfold mergeAdd
  dsimp only
  split
  next ht => exact Or.inl ⟨fun h => h.1 ht, rfl⟩
  next ht =>
    split
    next ha =>
      obtain ⟨e, he, het⟩ := List.any_eq_true.mp ha
      exact Or.inl ⟨fun h => h.2 e he (of_decide_eq_true het), rfl⟩
    next ha =>
      have hno : ∀ e ∈ r.live entry.name, e.tag ≠ entry.tag := fun e he het =>
        ha (List.any_eq_true.mpr ⟨e, he, decide_eq_true het⟩)
      refine Or.inr ⟨⟨ht, hno⟩, ?_⟩
      split
      · exact ⟨_, rfl⟩
      · exact ⟨_, rfl⟩

theorem live_mergeAdd (r : Registry) (entry : RegistryEntry) (name : String) :
    (r.mergeAdd entry).live name =
      if entry.tag ∉ r.tombstones ∧ (∀ e ∈ r.live entry.name, e.tag ≠ entry.tag) ∧
        name = entry.name
      then r.live name ++ [entry] else r.live name := by
  rcases mergeAdd_eq r entry with ⟨hno, heq⟩ | ⟨⟨ht, hno⟩, conflicts, heq⟩
  · rw [heq, if_neg fun h => hno ⟨h.1, h.2.1⟩]
  · rw [heq]
    refine (live_insert r entry.name name _).trans ?_
    by_cases hn : name = entry.name
    · rw [if_pos hn, if_pos ⟨ht, hno, hn⟩, hn]
    · rw [if_neg hn, if_neg fun h => hn h.2.2]

@[simp] theorem mergeAdd_tombstones (r : Registry) (entry : RegistryEntry) :
    (r.mergeAdd entry).tombstones = r.tombstones := by
  rcases mergeAdd_eq r entry with ⟨-, heq⟩ | ⟨-, conflicts, heq⟩ <;> rw [heq]

@[simp] theorem mergeAdd_max (r : Registry) (entry : RegistryEntry) :
    (r.mergeAdd entry).maxTombstones = r.maxTombstones := by
  rcases mergeAdd_eq r entry with ⟨-, heq⟩ | ⟨-, conflicts, heq⟩ <;> rw [heq]

/-! ## removal of names and of entries -/

theorem unregister_eq (o : Order Uuid) (r : Registry) (name : String) :
    (r.unregister o name).1 = tombstoneAll o name { r with entries := r.entries.erase name }
      ((r.live name).map (·.tag)) := by
  unfold unregister live
  cases h : r.entries.lookup name with
  | none =>
    have hsame : r.entries.erase name = r.entries :=
      AList.ext (List.kerase_of_notMem_keys (AList.lookup_eq_none.mp h))
    rw [hsame]
    rfl
  | some es =>
    cases es with
    | nil => rfl
    | cons e es => rfl

theorem live_unregister (o : Order Uuid) (r : Registry) (name n : String) :
    (r.unregister o name).1.live n = if n = name then [] else r.live n := by
  rw [unregister_eq, live_tombstoneAll]
  exact live_erase r name n

theorem of_mem_unregister (h : t ∈ (r.unregister o name).1.tombstones) :
    (∃ e ∈ r.live name, e.tag = t) ∨ t ∈ r.tombstones := by
  rw [unregister_eq] at h
  exact (of_mem_tombstoneAll h).imp_left List.mem_map.mp

theorem live_removeUnder (o : Order Uuid) (p : RegistryEntry → Bool) (r : Registry)
    (name n : String) : (removeUnder o p r name).live n
      = if n = name then (r.live name).filter fun e => !p e else r.live n := by
  have hent := tombstoneAll_entries o name r (((r.live name).filter p).map (·.tag))
  unfold removeUnder
  dsimp only
  unfold tombstoneAll at hent
  rw [hent]
  cases h : r.entries.lookup name with
  | none =>
    have hnil : r.live name = [] := by unfold live; rw [h]; rfl
    refine (live_tombstoneAll o name n r _).trans ?_
    split
    next hn => rw [hn, hnil]; rfl
    next => rfl
  | some es =>
    have hes : r.live name = es := by unfold live; rw [h]; rfl
    rw [hes]
    dsimp only
    split
    next hk =>
      rw [List.isEmpty_iff.mp hk]
      exact live_erase r name n
    next => exact live_insert r name n _

theorem of_mem_removeUnder (h : t ∈ (removeUnder o p r name).tombstones) :
    (∃ e ∈ r.live name, p e = true ∧ e.tag = t) ∨ t ∈ r.tombstones := by
  have h' : t ∈ (tombstoneAll o name r (((r.live name).filter p).map (·.tag))).tombstones := by
    unfold removeUnder at h
    dsimp only at h
    split at h
    · exact h
    · split at h <;> exact h
  rcases of_mem_tombstoneAll h' with h'' | h''
  · obtain ⟨e, he, het⟩ := List.mem_map.mp h''
    obtain ⟨he, hp⟩ := List.mem_filter.mp he
    exact Or.inl ⟨e, he, hp, het⟩
  · exact Or.inr h''

theorem live_foldl_removeUnder (o : Order Uuid) (p : RegistryEntry → Bool) (names : List String)
    (r : Registry) (n : String) : (names.foldl (removeUnder o p) r).live n
      = if n ∈ names then (r.live n).filter fun e => !p e else r.live n := by
  induction names generalizing r with
  | nil => rfl
  | cons name names ih =>
    rw [List.foldl_cons, ih, live_removeUnder]
    by_cases e : n = name
    · subst e
      simp
    · simp [e]

theorem of_mem_foldl_removeUnder (names : List String)
    (h : t ∈ (names.foldl (removeUnder o p) r).tombstones) :
    (∃ n, ∃ e ∈ r.live n, p e = true ∧ e.tag = t) ∨ t ∈ r.tombstones := by
  induction names generalizing r with
  | nil => exact Or.inr h
  | cons name names ih =>
    rcases ih h with ⟨n, e, he, hp, het⟩ | h'
    · rw [live_removeUnder] at he
      split at he
      · exact Or.inl ⟨name, e, (List.mem_filter.mp he).1, hp, het⟩
      · exact Or.inl ⟨n, e, he, hp, het⟩
    · rcases of_mem_removeUnder h' with ⟨e, he, hp, het⟩ | h''
      · exact Or.inl ⟨name, e, he, hp, het⟩
      · exact Or.inr h''

theorem live_removeWhere (o : MapOrder) (r : Registry) (p : RegistryEntry → Bool) (n : String) :
    (removeWhere o r p).live n = (r.live n).filter fun e => !p e := by
  unfold removeWhere
  rw [live_foldl_removeUnder]
  split
  next => rfl
  next h =>
    have hnil : r.live n = [] :=
      List.eq_nil_iff_forall_not_mem.mpr fun e he => h (mem_keys_of_live he o.names)
    rw [hnil]; rfl

theorem of_mem_removeWhere {o : MapOrder} (h : t ∈ (removeWhere o r p).tombstones) :
    (∃ n, ∃ e ∈ r.live n, p e = true ∧ e.tag = t) ∨ t ∈ r.tombstones :=
  of_mem_foldl_removeUnder _ h

theorem of_mem_expireTombstones {g : UInt64} (h : t ∈ (r.expireTombstones g).1.tombstones) :
    t ∈ r.tombstones := by
  obtain ⟨x, hx⟩ := exists_of_mem h
  have hx' : (HashMap.retain r.tombstones fun _ t => g < t.generation).lookup t = some x := hx
  rw [lookup_retain, Option.filter_eq_some_iff] at hx'
  exact mem_of_lookup hx'.1

/-! ## the deltas of a full sync -/

theorem add_mem_generateDeltas (o : MapOrder) (r : Registry) (e : RegistryEntry) :
    .add e ∈ r.generateDeltas o ↔ ∃ name, e ∈ r.live name := by
  unfold generateDeltas
  constructor
  · intro h
    rcases List.mem_append.mp h with h | h
    · obtain ⟨name, _, h⟩ := List.mem_flatMap.mp h
      obtain ⟨e', he', heq⟩ := List.mem_map.mp h
      cases heq
      exact ⟨name, he'⟩
    · obtain ⟨t, _, h⟩ := List.mem_filterMap.mp h
      obtain ⟨_, _, heq⟩ := Option.map_eq_some_iff.mp h
      cases heq
  · rintro ⟨name, he⟩
    apply List.mem_append_left
    exact List.mem_flatMap.mpr
      ⟨name, mem_keys_of_live he o.names, List.mem_map.mpr ⟨e, he, rfl⟩⟩

theorem remove_mem_generateDeltas (o : MapOrder) (r : Registry) (t : Uuid) :
    (∃ n, .remove n t ∈ r.generateDeltas o) ↔ t ∈ r.tombstones := by
  unfold generateDeltas
  constructor
  · rintro ⟨n, h⟩
    rcases List.mem_append.mp h with h | h
    · obtain ⟨name, _, h⟩ := List.mem_flatMap.mp h
      obtain ⟨_, _, heq⟩ := List.mem_map.mp h
      cases heq
    · obtain ⟨t', _, h⟩ := List.mem_filterMap.mp h
      obtain ⟨x, hx, heq⟩ := Option.map_eq_some_iff.mp h
      cases heq
      exact mem_of_lookup hx
  · intro h
    obtain ⟨x, hx⟩ := exists_of_mem h
    refine ⟨x.name, List.mem_append_right _ (List.mem_filterMap.mpr ⟨t, ?_, ?_⟩)⟩
    · exact (mem_keysIn _ _ _).mpr ⟨x, hx⟩
    · rw [hx]; rfl

/-! ## one step of a replica -/

variable {r r' : Registry}

/-- the effect of a call that adds an entry: it is pushed under its own name -/
structure Pushes (r r' : Registry) (e : RegistryEntry) : Prop where
  untombed : e.tag ∉ r.tombstones
  newTag : ∀ x ∈ r.live e.name, x.tag ≠ e.tag
  tombstones : r'.tombstones = r.tombstones
  live : ∀ n, r'.live n = if n = e.name then r.live n ++ [e] else r.live n

/-- the effect of every other call: entries go, and a new tombstone is the tag of a removed entry
or of no live entry at all -/
structure Shrinks (r r' : Registry) : Prop where
  sub : ∀ n, (r'.live n).Sublist (r.live n)
  tombs : ∀ t ∈ r'.tombstones, t ∈ r.tombstones ∨
    (∃ n, ∃ e ∈ r.live n, e.tag = t ∧ e ∉ r'.live n) ∨ ∀ n, ∀ e ∈ r'.live n, e.tag ≠ t

theorem Shrinks.refl_of (hl : ∀ n, r'.live n = r.live n)
    (ht : ∀ t ∈ r'.tombstones, t ∈ r.tombstones) : Shrinks r r' :=
  ⟨fun n => (hl n).symm ▸ List.Sublist.refl _, fun t h => Or.inl (ht t h)⟩

theorem shrinks_removeWhere (o : MapOrder) (r : Registry) (p : RegistryEntry → Bool) :
    Shrinks r (r.removeWhere o p) where
  sub := fun n => by
    rw [live_removeWhere]
    exact List.filter_sublist
  tombs := fun t ht => by
    rcases of_mem_removeWhere ht with ⟨n, e, he, hp, het⟩ | ht
    · refine Or.inr (Or.inl ⟨n, e, he, het, fun hn => ?_⟩)
      rw [live_removeWhere] at hn
      have hnp := (List.mem_filter.mp hn).2
      rw [hp] at hnp
      cases hnp
    · exact Or.inl ht

theorem shrinks_unregister (o : Order Uuid) (r : Registry) (name : String) :
    Shrinks r (r.unregister o name).1 where
  sub := fun n => by
    rw [live_unregister]
    split
    · exact List.nil_sublist _
    · exact List.Sublist.refl _
  tombs := fun t ht => by
    rcases of_mem_unregister ht with ⟨e, he, het⟩ | ht
    · refine Or.inr (Or.inl ⟨name, e, he, het, fun hn => ?_⟩)
      rw [live_unregister, if_pos rfl] at hn
      cases hn
    · exact Or.inl ht

theorem shrinks_mergeRemove (o : Order Uuid) (r : Registry) (n : String) (tag : Uuid) :
    Shrinks r (r.mergeDelta o (.remove n tag)) where
  sub := fun n => by
    rw [live_mergeRemove]
    exact List.filter_sublist
  tombs := fun t ht => by
    rcases of_mem_tombstone ht with rfl | ht
    · refine Or.inr (Or.inr fun n e he => ?_)
      rw [live_mergeRemove] at he
      exact of_decide_eq_true (List.mem_filter.mp he).2
    · exact Or.inl ht

theorem mergeAdd_cases (r : Registry) (e : RegistryEntry) :
    Pushes r (r.mergeAdd e) e ∨ Shrinks r (r.mergeAdd e) := by
  by_cases h : e.tag ∉ r.tombstones ∧ ∀ x ∈ r.live e.name, x.tag ≠ e.tag
  · refine Or.inl ⟨h.1, h.2, mergeAdd_tombstones r e, fun n => ?_⟩
    rw [live_mergeAdd]
    simp only [h.1, not_false_eq_true, true_and, and_iff_right h.2]
  · refine Or.inr (Shrinks.refl_of (fun n => ?_) fun t ht => ?_)
    · rw [live_mergeAdd, if_neg fun hp => h ⟨hp.1, hp.2.1⟩]
    · rw [mergeAdd_tombstones] at ht
      exact ht

theorem pushes_register {pid : ProcessId} {nodeId ts : Nat} {tag : Uuid} (hf : r.Fresh tag) :
    Pushes r (r.register name pid nodeId ts tag) ⟨name, pid, tag, ts, nodeId⟩ where
  untombed := hf.1
  newTag := fun x hx => by
    obtain ⟨es, hes, hx⟩ := (mem_live_iff r name x).mp hx
    exact hf.2 ⟨name, es⟩ ((mem_entries_iff _ _ _).mpr hes) x hx
  tombstones := rfl
  live := fun n => by
    rw [live_register]
    split
    next hn => rw [hn]
    next => rfl

/-- **A step of a replica pushes the entry its call carries, or only removes.** -/
theorem step_cases {o : MapOrder} {op : Op} (hs : r.step o op = some r') :
    (∃ e ∈ op.adds, Pushes r r' e) ∨ Shrinks r r' := by
  cases op with
  | register name pid nodeId ts tag =>
    simp only [step] at hs
    split at hs
    · next hf =>
      cases hs
      exact Or.inl ⟨_, rfl, pushes_register hf⟩
    · cases hs
  | unregister name => cases hs; exact Or.inr (shrinks_unregister o.tags r name)
  | removeByPid pid | removeByNode nodeId => cases hs; exact Or.inr (shrinks_removeWhere o r _)
  | mergeDelta d =>
    cases hs
    cases d with
    | add e => exact (mergeAdd_cases r e).imp_left fun h => ⟨e, rfl, h⟩
    | remove n t => exact Or.inr (shrinks_mergeRemove o.tags r n t)
  | expireTombstones g =>
    cases hs
    exact Or.inr (Shrinks.refl_of (fun _ => rfl) fun _ ht => of_mem_expireTombstones ht)
  | takeConflicts => cases hs; exact Or.inr (Shrinks.refl_of (fun _ => rfl) fun _ ht => ht)

/-- every entry stands under its own name, and no tag twice under one name -/
structure WellFormed (r : Registry) : Prop where
  ownName : ∀ name, ∀ e ∈ r.live name, e.name = name
  tags : ∀ name, ((r.live name).map (·.tag)).Nodup

theorem WellFormed.eq_of_tag (h : WellFormed r) {e' : RegistryEntry} (he : e ∈ r.live name)
    (he' : e' ∈ r.live name) (ht : e.tag = e'.tag) : e = e' :=
  List.inj_on_of_nodup_map (h.tags name) he he' ht

theorem wellFormed_empty (cap : Nat) : WellFormed (empty cap) :=
  ⟨nofun, fun _ => List.nodup_nil⟩

theorem WellFormed.step {o : MapOrder} {op : Op} (h : WellFormed r)
    (hs : r.step o op = some r') : WellFormed r' := by
  rcases step_cases hs with ⟨e, -, hp⟩ | hsh
  · refine ⟨fun name x hx => ?_, fun name => ?_⟩
    · rw [hp.live] at hx
      split at hx
      next hn =>
        rcases List.mem_append.mp hx with hx | hx
        · exact h.ownName name x hx
        · rw [List.mem_singleton.mp hx, hn]
      next => exact h.ownName name x hx
    · rw [hp.live]
      split
      next hn =>
        rw [List.map_append, hn]
        refine List.Nodup.append (h.tags e.name) (List.nodup_singleton _) fun t ht ht' => ?_
        obtain ⟨x, hx, rfl⟩ := List.mem_map.mp ht
        exact hp.newTag x hx (List.mem_singleton.mp ht')
      next => exact h.tags name
  · exact ⟨fun name x hx => h.ownName name x ((hsh.sub name).mem hx),
      fun name => (h.tags name).sublist ((hsh.sub name).map _)⟩

theorem wellFormed_of_reach {ok : Registry → MapOrder × Op → Prop}
    (h : registryMachine.Reach ok r) : WellFormed r :=
  h.inv (by rintro _ ⟨cap, rfl⟩; exact wellFormed_empty cap) fun _ _ _ hw _ hs => hw.step hs

end Rebar.Registry

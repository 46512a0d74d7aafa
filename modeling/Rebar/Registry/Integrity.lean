import Rebar.Registry.Converge
import Rebar.Registry.Lookup

/-!
# The invariant of a replica

The live entries, the tombstones and the generation counter of a registry stay in step over every
run, evictions included.  What concerns live entries against tombstones is `Consistent`; here are
the shape of the two maps (`Tidy`) and the two together.
-/

namespace Rebar.Registry

structure Tidy (r : Registry) : Prop where
  filled : ∀ name es, r.entries.lookup name = some es → es ≠ []
  count : r.tombstones.keys.length ≤ r.maxTombstones
  generations : ∀ t x, r.tombstones.lookup t = some x →
    x.generation.toNat ≤ r.tombstoneGen.toNat

variable {r r' : Registry}

theorem tidy_empty (cap : Nat) : Tidy (empty cap) where
  filled := fun name es h => by
    rw [show (empty cap).entries.lookup name = none from rfl] at h
    cases h
  count := Nat.zero_le cap
  generations := fun t x h => by
    rw [show (empty cap).tombstones.lookup t = none from rfl] at h
    cases h

/-! ## the tombstones -/

theorem lookup_withTombstone {tag t : Uuid} {name : String} {x : Tombstone}
    (h : (r.withTombstone tag name).lookup t = some x) :
    x.generation = r.nextGen.2 ∨ ∃ y, r.tombstones.lookup t = some y ∧ x.generation = y.generation := by
  unfold withTombstone at h
  cases hl : r.tombstones.lookup tag with
  | none =>
    rw [hl] at h
    dsimp only at h
    rcases HashMap.of_lookup_insert h with ⟨-, rfl⟩ | ⟨-, h⟩
    · exact Or.inl rfl
    · exact Or.inr ⟨x, h, rfl⟩
  | some existing =>
    rw [hl] at h
    dsimp only at h
    split at h
    · rcases HashMap.of_lookup_insert h with ⟨ht, rfl⟩ | ⟨-, h⟩
      · exact Or.inr ⟨existing, by rw [ht, hl], rfl⟩
      · exact Or.inr ⟨x, h, rfl⟩
    · exact Or.inr ⟨x, h, rfl⟩

theorem Tidy.tombstone (h : Tidy r) (o : Order Uuid) (tag : Uuid) (name : String) :
    Tidy (r.tombstone o tag name) where
  filled := h.filled
  count := enforceTombstoneCap_length o _
  generations := fun t x hx => by
    have hgen : (r.tombstone o tag name).tombstoneGen.toNat
        = min (r.tombstoneGen.toNat + 1) (2^64 - 1) := toNat_satAdd_one r.tombstoneGen
    have hmax := toNat_le_max r.tombstoneGen
    have hkept : (r.withTombstone tag name).lookup t = some x := evictOldest_lookup _ _ _ _ _ _ hx
    rcases lookup_withTombstone hkept with hnew | ⟨y, hy, hold⟩
    · rw [hnew]
      exact Nat.le_refl _
    · rw [hold, hgen]
      have := h.generations t y hy
      omega

theorem Tidy.tombstoneAll (h : Tidy r) (o : Order Uuid) (name : String) (tags : List Uuid) :
    Tidy (tombstoneAll o name r tags) := by
  induction tags generalizing r with
  | nil => exact h
  | cons t tags ih => exact ih (h.tombstone o t name)

theorem Tidy.expireTombstones (h : Tidy r) (g : UInt64) : Tidy (r.expireTombstones g).1 where
  filled := h.filled
  count := by
    refine (List.Sublist.length_le ?_).trans h.count
    exact List.filter_sublist.map _
  generations := fun t x hx => by
    have hx' : (HashMap.retain r.tombstones fun _ t => g < t.generation).lookup t = some x := hx
    rw [HashMap.lookup_retain, Option.filter_eq_some_iff] at hx'
    exact h.generations t x hx'.1

/-! ## the live entries -/

/-- **The rule for the live entries**: the tombstones are as they were. -/
theorem Tidy.entries (h : Tidy r) {entries : HashMap String (List RegistryEntry)}
    {conflicts : List NameConflict}
    (hfilled : ∀ name es, entries.lookup name = some es → es ≠ []) :
    Tidy { r with entries := entries, conflicts := conflicts } :=
  ⟨hfilled, h.count, h.generations⟩

theorem Tidy.filled_insert (h : Tidy r) (name : String) {es : List RegistryEntry} (hes : es ≠ []) :
    ∀ n es', (r.entries.insert name es).lookup n = some es' → es' ≠ [] := by
  intro n es' hn
  rcases HashMap.of_lookup_insert hn with ⟨-, rfl⟩ | ⟨-, hn⟩
  · exact hes
  · exact h.filled n es' hn

theorem Tidy.filled_erase (h : Tidy r) (name : String) :
    ∀ n es, (r.entries.erase name).lookup n = some es → es ≠ [] := by
  intro n es hn
  obtain ⟨-, hn⟩ := HashMap.of_lookup_erase hn
  exact h.filled n es hn

theorem Tidy.register (h : Tidy r) (name : String) (pid : ProcessId) (nodeId ts : Nat)
    (tag : Uuid) : Tidy (r.register name pid nodeId ts tag) :=
  h.entries (h.filled_insert name (List.append_ne_nil_of_right_ne_nil _ (List.cons_ne_nil _ _)))

theorem Tidy.unregister (h : Tidy r) (o : Order Uuid) (name : String) :
    Tidy (r.unregister o name).1 := by
  unfold Registry.unregister
  cases r.entries.lookup name with
  | none => exact h
  | some es =>
    have herase : Tidy { r with entries := r.entries.erase name } :=
      h.entries (h.filled_erase name)
    dsimp only
    split
    · exact herase
    · exact herase.tombstoneAll o name _

theorem Tidy.removeUnder (h : Tidy r) (o : Order Uuid) (p : RegistryEntry → Bool) (name : String) :
    Tidy (removeUnder o p r name) := by
  have hall := h.tombstoneAll o name (((r.live name).filter p).map (·.tag))
  unfold Registry.removeUnder
  unfold Registry.tombstoneAll at hall
  dsimp only
  split
  · exact hall
  · split
    · exact hall.entries (hall.filled_erase name)
    · next hkept =>
      exact hall.entries (hall.filled_insert name fun hnil => hkept (List.isEmpty_iff.mpr hnil))

theorem Tidy.removeWhere (h : Tidy r) (o : MapOrder) (p : RegistryEntry → Bool) :
    Tidy (r.removeWhere o p) := by
  unfold Registry.removeWhere
  generalize HashMap.keysIn r.entries o.names = names
  induction names generalizing r with
  | nil => exact h
  | cons name names ih => exact ih (h.removeUnder o.tags p name)

theorem Tidy.reapTag (h : Tidy r) (tag : Uuid) : Tidy (r.reapTag tag).1 := by
  refine h.entries fun name es hes => ?_
  rw [HashMap.lookup_retain, Option.filter_eq_some_iff] at hes
  intro hnil
  rw [hnil] at hes
  exact absurd hes.2 (by decide)

theorem Tidy.mergeAdd (h : Tidy r) (e : RegistryEntry) : Tidy (r.mergeAdd e) := by
  have hpush := h.filled_insert e.name
    (List.append_ne_nil_of_right_ne_nil (r.live e.name) (List.cons_ne_nil e []))
  unfold Registry.mergeAdd
  split
  · exact h
  · dsimp only
    split
    · exact h
    · split
      · exact h.entries hpush
      · exact h.entries hpush

theorem Tidy.step {o : MapOrder} {op : Op} (h : Tidy r) (hs : r.step o op = some r') : Tidy r' := by
  cases op with
  | register name pid nodeId ts tag =>
    simp only [Registry.step] at hs
    split at hs
    · cases hs
      exact h.register name pid nodeId ts tag
    · cases hs
  | unregister name => cases hs; exact h.unregister o.tags name
  | removeByPid pid | removeByNode nodeId => cases hs; exact h.removeWhere o _
  | mergeDelta d =>
    cases hs
    cases d with
    | add e => exact h.mergeAdd e
    | remove n t => exact (h.tombstone o.tags t n).reapTag t
  | expireTombstones g => cases hs; exact h.expireTombstones g
  | takeConflicts => cases hs; exact h.entries h.filled

theorem tidy_of_reach {ok : Registry → MapOrder × Op → Prop} (h : registryMachine.Reach ok r) :
    Tidy r :=
  h.inv (by rintro _ ⟨cap, rfl⟩; exact tidy_empty cap) fun _ _ _ ht _ hs => ht.step hs

/-! ## the whole invariant -/

variable {univ : Uuid → RegistryEntry}

theorem Consistent.nodup_tags (h : Consistent univ r) : (r.allLive.map (·.tag)).Nodup := by
  refine List.pairwise_map.mpr ((distinct_allLive h.toWellFormed).imp_of_mem ?_)
  intro e e' he he' hne htag
  obtain ⟨n, hn⟩ := (mem_allLive r e).mp he
  obtain ⟨n', hn'⟩ := (mem_allLive r e').mp he'
  have heq : e = e' := by rw [← h.fromUniv n e hn, htag, h.fromUniv n' e' hn']
  exact hne ⟨congrArg _ heq, htag⟩

/-- **In every state of a replica over registrations in which a tag determines its entry: no tag is
both live and tombstoned or twice live, every entry stands under its own name, no list is empty, and
the tombstones are within the cap and no newer than the counter.** -/
theorem tidy_consistent (h : registryMachine.Reach (InUniverse univ) r) :
    (∀ name, ∀ e ∈ r.live name, e.tag ∉ r.tombstones) ∧
    (r.allLive.map (·.tag)).Nodup ∧
    (∀ name, ∀ e ∈ r.live name, e.name = name) ∧
    (∀ name, r.entries.lookup name ≠ some []) ∧
    r.tombstones.keys.length ≤ r.maxTombstones ∧
    ∀ t x, r.tombstones.lookup t = some x → x.generation ≤ r.tombstoneGen := by
  have hc := consistent_of_reach h
  have ht := tidy_of_reach h
  refine ⟨hc.disjoint, hc.nodup_tags, hc.ownName, ?_, ht.count, ?_⟩
  · exact fun name hnil => ht.filled name [] hnil rfl
  · exact fun t x hx => UInt64.le_iff_toNat_le.mpr (ht.generations t x hx)

private def filed : Uuid → RegistryEntry
  | 90 => ⟨"svc", ⟨1, 5⟩, 90, 100, 1⟩
  | t => ⟨"db", ⟨1, 6⟩, t, 100, 1⟩

/-- with room for one tombstone, the second one evicts the first, whose entry may then come back -/
theorem tidy_consistent_evicting : ∃ r, registryMachine.Reach (InUniverse filed) r ∧
    r.tombstones.keys = [91] ∧ (r.live "svc").map (·.tag) = [90] ∧
    (∀ name, ∀ e ∈ r.live name, e.tag ∉ r.tombstones) ∧
    (r.allLive.map (·.tag)).Nodup ∧
    (∀ name, ∀ e ∈ r.live name, e.name = name) ∧
    (∀ name, r.entries.lookup name ≠ some []) ∧
    r.tombstones.keys.length ≤ r.maxTombstones ∧
    ∀ t x, r.tombstones.lookup t = some x → x.generation ≤ r.tombstoneGen := by
  have h0 : registryMachine.Reach (InUniverse filed) (empty 1) := .start ⟨1, rfl⟩
  have h1 := h0.step (a := (MapOrder.stored, Op.register "svc" (ProcessId.mk 1 5) 1 100 90))
    (by rintro _ ⟨⟩; rfl) rfl
  have h2 := h1.step (a := (MapOrder.stored, Op.register "db" (ProcessId.mk 1 6) 1 100 91))
    (by rintro _ ⟨⟩; rfl) rfl
  have h3 := h2.step (a := (MapOrder.stored, Op.unregister "svc")) (by rintro _ ⟨⟩) rfl
  have h4 := h3.step (a := (MapOrder.stored, Op.unregister "db")) (by rintro _ ⟨⟩) rfl
  have h5 := h4.step (a := (MapOrder.stored, Op.mergeDelta (RegistryDelta.add (filed 90))))
    (by rintro _ ⟨⟩; rfl) rfl
  exact ⟨_, h5, by decide, by decide, tidy_consistent h5⟩

end Rebar.Registry

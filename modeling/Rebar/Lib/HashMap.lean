import Mathlib.Data.List.AList
import Mathlib.Data.List.Perm.Basic
import Mathlib.Data.List.Nodup

/-!
# Finite maps whose iteration order is unspecified

A hash map is an association list with distinct keys (`AList`).  Nothing a program computes may
depend on the order of that list, so every enumeration of a map takes its order from outside.
-/

set_option linter.unusedSectionVars false

namespace Rebar

/-- a finite map from `K` to `V` -/
abbrev HashMap (K V : Type) := AList (fun _ : K => V)

/-- an enumeration order: any permutation of any list of keys -/
structure Order (K : Type) where
  run : List K → List K
  perm : ∀ l, (run l).Perm l

namespace Order
variable {K : Type}

/-- the order in which the keys are stored -/
def stored : Order K := ⟨fun l => l, fun l => List.Perm.refl l⟩

@[simp] theorem mem_run (o : Order K) (l : List K) (k : K) : k ∈ o.run l ↔ k ∈ l :=
  (o.perm l).mem_iff

theorem nodup_run (o : Order K) {l : List K} (h : l.Nodup) : (o.run l).Nodup :=
  (o.perm l).nodup_iff.mpr h

end Order

/-- a random choice from a list: a member of it, and nothing only when the list is empty -/
structure Pick (α : Type) where
  run : List α → Option α
  mem : ∀ {l a}, run l = some a → a ∈ l
  total : ∀ {l}, run l = none → l = []

namespace Pick
variable {α : Type}

/-- the choice of the first element -/
def first : Pick α where
  run := List.head?
  mem := List.mem_of_head?
  total := List.head?_eq_none_iff.mp

/-- the choice of the first element with a property, if there is one -/
def firstSuch (p : α → Bool) : Pick α where
  run := fun l => (l.find? p).or l.head?
  mem := fun {l a} h => by
    cases hf : l.find? p with
    | none =>
      rw [hf, Option.none_or] at h
      exact List.mem_of_head? h
    | some b =>
      rw [hf, Option.some_or] at h
      exact Option.some.inj h ▸ List.mem_of_find?_eq_some hf
  total := fun {l} h => by
    cases hf : l.find? p with
    | none =>
      rw [hf, Option.none_or] at h
      exact List.head?_eq_none_iff.mp h
    | some b =>
      rw [hf] at h
      cases h

end Pick

namespace HashMap
variable {K V : Type} [DecidableEq K]

theorem lookup_empty_ne {k : K} {v : V} : (∅ : HashMap K V).lookup k ≠ some v := by
  intro h
  cases h

theorem lookup_insert_if (m : HashMap K V) (a k : K) (v : V) :
    (m.insert a v).lookup k = if k = a then some v else m.lookup k := by
  by_cases h : k = a
  · subst h
    rw [if_pos rfl, AList.lookup_insert]
  · rw [if_neg h, AList.lookup_insert_ne h]

theorem lookup_erase_if (m : HashMap K V) (a k : K) :
    (m.erase a).lookup k = if k = a then none else m.lookup k := by
  by_cases h : k = a
  · subst h
    rw [if_pos rfl, AList.lookup_erase]
  · rw [if_neg h, AList.lookup_erase_ne h]

theorem of_lookup_insert {m : HashMap K V} {a k : K} {v x : V}
    (h : (m.insert a v).lookup k = some x) : k = a ∧ v = x ∨ k ≠ a ∧ m.lookup k = some x := by
  rw [lookup_insert_if] at h
  split at h
  next heq => exact Or.inl ⟨heq, Option.some.inj h⟩
  next hne => exact Or.inr ⟨hne, h⟩

theorem of_lookup_erase {m : HashMap K V} {a k : K} {x : V} (h : (m.erase a).lookup k = some x) :
    k ≠ a ∧ m.lookup k = some x := by
  rw [lookup_erase_if] at h
  split at h
  next => cases h
  next hne => exact ⟨hne, h⟩

theorem lookup_erase_iff {m : HashMap K V} {a k : K} {x : V} :
    (m.erase a).lookup k = some x ↔ m.lookup k = some x ∧ k ≠ a := by
  refine ⟨fun h => (of_lookup_erase h).symm, fun h => ?_⟩
  rw [lookup_erase_if, if_neg h.2]
  exact h.1

theorem lookup_insert_iff {m : HashMap K V} {a k : K} {v x : V} (hnone : m.lookup a = none) :
    (m.insert a v).lookup k = some x ↔ m.lookup k = some x ∨ k = a ∧ v = x := by
  rw [lookup_insert_if]
  split
  next heq =>
    rw [heq, hnone]
    exact ⟨fun h => Or.inr ⟨rfl, Option.some.inj h⟩, fun h => h.elim nofun fun h => congrArg some h.2⟩
  next hne => exact (or_iff_left fun h => hne h.1).symm

/-- a fold of steps each of which changes one key by `g`, once or several times, read through
`get` -/
theorem foldl_at_if {σ β : Type} (get : σ → K → β) (f : σ → K → σ) (g : β → β)
    (hf : ∀ s a k, get (f s a) k = if k = a then g (get s k) else get s k)
    (hg : ∀ b, g (g b) = g b) (as : List K) (s : σ) (k : K) :
    get (as.foldl f s) k = if k ∈ as then g (get s k) else get s k := by
  induction as generalizing s with
  | nil => rfl
  | cons a as ih =>
    rw [List.foldl_cons, ih, hf]
    by_cases hk : k = a
    · rw [if_pos hk, hg, ite_self, if_pos (List.mem_cons.mpr (Or.inl hk))]
    · rw [if_neg hk]
      by_cases hi : k ∈ as
      · rw [if_pos hi, if_pos (List.mem_cons_of_mem _ hi)]
      · rw [if_neg hi, if_neg fun h => (List.mem_cons.mp h).elim hk hi]

/-- a fold of steps each of which erases one key, read through `get` -/
theorem foldl_erase_if {σ : Type} (get : σ → K → Option V) (f : σ → K → σ)
    (hf : ∀ s a k, get (f s a) k = if k = a then none else get s k) (as : List K) (s : σ) (k : K) :
    get (as.foldl f s) k = if k ∈ as then none else get s k :=
  foldl_at_if get f (fun _ => none) hf (fun _ => rfl) as s k

theorem mem_keys_iff (m : HashMap K V) (k : K) : k ∈ m.keys ↔ ∃ v, m.lookup k = some v := by
  rw [← AList.mem_keys, ← AList.lookup_isSome, Option.isSome_iff_exists]

theorem mem_entries_iff (m : HashMap K V) (k : K) (v : V) :
    (⟨k, v⟩ : Sigma fun _ : K => V) ∈ m.entries ↔ m.lookup k = some v :=
  AList.mem_lookup_iff.symm

theorem mem_of_lookup {m : HashMap K V} {k : K} {v : V} (h : m.lookup k = some v) : k ∈ m :=
  AList.lookup_isSome.mp (by rw [h]; rfl)

theorem exists_of_mem {m : HashMap K V} {k : K} (h : k ∈ m) : ∃ v, m.lookup k = some v :=
  Option.isSome_iff_exists.mp (AList.lookup_isSome.mpr h)

/-- the value under `k`, if there is one, is replaced by its image under `f` -/
def modify (m : HashMap K V) (k : K) (f : V → V) : HashMap K V :=
  match m.lookup k with
  | some v => m.insert k (f v)
  | none => m

theorem lookup_modify (m : HashMap K V) (a k : K) (f : V → V) :
    (modify m a f).lookup k = if k = a then (m.lookup k).map f else m.lookup k := by
  unfold modify
  cases h : m.lookup a with
  | none =>
    by_cases e : k = a
    · rw [if_pos e, e, h]; rfl
    · rw [if_neg e]
  | some v =>
    rw [lookup_insert_if]
    by_cases e : k = a
    · rw [if_pos e, if_pos e, e, h]; rfl
    · rw [if_neg e, if_neg e]

theorem of_lookup_modify {m : HashMap K V} {a k : K} {f : V → V} {v : V}
    (h : (modify m a f).lookup k = some v) :
    (k = a ∧ ∃ w, m.lookup k = some w ∧ f w = v) ∨ k ≠ a ∧ m.lookup k = some v := by
  rw [lookup_modify] at h
  split at h
  next heq => exact Or.inl ⟨heq, Option.map_eq_some_iff.mp h⟩
  next hne => exact Or.inr ⟨hne, h⟩

theorem exists_of_lookup_modify {m : HashMap K V} {a k : K} {f : V → V} {v : V}
    (h : (modify m a f).lookup k = some v) : ∃ w, m.lookup k = some w := by
  rcases of_lookup_modify h with ⟨-, w, hw, -⟩ | ⟨-, hw⟩
  · exact ⟨w, hw⟩
  · exact ⟨v, hw⟩

section
variable {α : Type} (m : HashMap K (List α)) (a k : K)

theorem getD_insert (xs : List α) :
    ((m.insert a xs).lookup k).getD [] = if k = a then xs else (m.lookup k).getD [] := by
  rw [lookup_insert_if]
  split <;> rfl

theorem getD_erase : ((m.erase a).lookup k).getD [] = if k = a then [] else (m.lookup k).getD [] := by
  rw [lookup_erase_if]
  split <;> rfl

theorem getD_modify (f : List α → List α) (hf : f [] = []) : ((modify m a f).lookup k).getD []
    = if k = a then f ((m.lookup k).getD []) else (m.lookup k).getD [] := by
  rw [lookup_modify]
  split
  next =>
    cases m.lookup k with
    | none => exact hf.symm
    | some xs => rfl
  next => rfl

/-- a list that is taken out of the map is at hand or still there -/
theorem getD_taken : (if k = a then (m.lookup a).getD [] else ((m.erase a).lookup k).getD [])
    = (m.lookup k).getD [] := by
  rw [getD_erase]
  split
  next h => rw [h]
  next => rfl

variable {m k}

theorem exists_of_mem_getD {x : α} (h : x ∈ (m.lookup k).getD []) : ∃ xs, m.lookup k = some xs := by
  cases hl : m.lookup k with
  | none =>
    rw [hl] at h
    cases h
  | some xs => exact ⟨xs, rfl⟩

end

/-- only the entries that satisfy `p` are kept -/
def retain (m : HashMap K V) (p : K → V → Bool) : HashMap K V where
  entries := m.entries.filter fun e => p e.1 e.2
  nodupKeys := m.nodupKeys.sublist List.filter_sublist

theorem lookup_retain (m : HashMap K V) (p : K → V → Bool) (k : K) :
    (retain m p).lookup k = (m.lookup k).filter (p k) := by
  apply Option.ext
  intro v
  have h1 : (retain m p).lookup k = some v ↔
      (⟨k, v⟩ : Sigma fun _ : K => V) ∈ m.entries ∧ p k v = true := by
    rw [← mem_entries_iff]
    exact List.mem_filter
  rw [h1, mem_entries_iff, Option.filter_eq_some_iff]

/-- every value is replaced by its image under `f` -/
def mapVal (m : HashMap K V) (f : K → V → V) : HashMap K V where
  entries := m.entries.map fun e => ⟨e.1, f e.1 e.2⟩
  nodupKeys := by
    have h : (m.entries.map fun e => (⟨e.1, f e.1 e.2⟩ : Sigma fun _ : K => V)).keys
        = m.entries.keys := by
      simp [List.keys, Function.comp_def]
    show List.Nodup (List.keys _)
    rw [h]
    exact m.nodupKeys

theorem lookup_mapVal (m : HashMap K V) (f : K → V → V) (k : K) :
    (mapVal m f).lookup k = (m.lookup k).map (f k) := by
  apply Option.ext
  intro v
  rw [← mem_entries_iff, Option.map_eq_some_iff]
  constructor
  · intro h
    obtain ⟨⟨k', w⟩, hw, he⟩ := List.mem_map.mp h
    cases he
    exact ⟨w, (mem_entries_iff m _ w).mp hw, rfl⟩
  · rintro ⟨w, hw, rfl⟩
    exact List.mem_map.mpr ⟨⟨k, w⟩, (mem_entries_iff m k w).mpr hw, rfl⟩

/-- the keys of a map in the order `o` -/
def keysIn (m : HashMap K V) (o : Order K) : List K := o.run m.keys

theorem mem_keysIn (m : HashMap K V) (o : Order K) (k : K) :
    k ∈ keysIn m o ↔ ∃ v, m.lookup k = some v := by
  rw [keysIn, Order.mem_run, mem_keys_iff]

theorem nodup_keysIn (m : HashMap K V) (o : Order K) : (keysIn m o).Nodup :=
  o.nodup_run m.keys_nodup

theorem keysIn_eq_nil {m : HashMap K V} (h : ∀ k, m.lookup k = none) (o : Order K) :
    keysIn m o = [] := by
  rw [List.eq_nil_iff_forall_not_mem]
  intro k hk
  obtain ⟨v, hv⟩ := (mem_keysIn m o k).mp hk
  rw [h] at hv
  cases hv

end HashMap
end Rebar

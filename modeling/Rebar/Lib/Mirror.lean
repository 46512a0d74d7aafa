import Mathlib.Data.List.Nodup

/-!
# Relations with a reverse index

A relation between keys and values that is kept twice: as the relation itself, and as the list of
the keys of each value.

* `Mirrors.push`     a pair is added, and its key to one list;
* `Mirrors.filter`   pairs are removed, and their keys from the one list that has them;
* `Mirrors.tail`     the first key of a list is removed, with its pair.
-/

namespace Rebar

/-- `rev` lists the keys of every value, each once -/
structure Mirrors {K V : Type} (R : K → V → Prop) (rev : V → List K) : Prop where
  mem : ∀ {k v}, k ∈ rev v ↔ R k v
  nodup : ∀ v, (rev v).Nodup

namespace Mirrors
variable {K V : Type} {R R' : K → V → Prop} {rev rev' : V → List K}

theorem nil (hR : ∀ k v, ¬ R k v) : Mirrors R fun _ => [] where
  mem := fun {k v} => iff_of_false List.not_mem_nil (hR k v)
  nodup := fun _ => List.nodup_nil

theorem congr (h : Mirrors R rev) (hR : ∀ k v, R' k v ↔ R k v) (hrev : ∀ v, rev' v = rev v) :
    Mirrors R' rev' where
  mem := fun {k v} => by
    rw [hrev, hR]
    exact h.mem
  nodup := fun v => by
    rw [hrev]
    exact h.nodup v

variable [DecidableEq V]

theorem push (h : Mirrors R rev) (k₀ : K) (v₀ : V) (hnew : ¬ R k₀ v₀)
    (hR : ∀ k v, R' k v ↔ R k v ∨ k = k₀ ∧ v = v₀)
    (hrev : ∀ v, rev' v = if v = v₀ then rev v ++ [k₀] else rev v) : Mirrors R' rev' where
  mem := fun {k v} => by
    rw [hrev, hR]
    by_cases hv : v = v₀
    · rw [if_pos hv, List.mem_append, List.mem_singleton, h.mem]
      exact or_congr_right (and_iff_left hv).symm
    · rw [if_neg hv, h.mem]
      exact (or_iff_left fun hk => hv hk.2).symm
  nodup := fun v => by
    rw [hrev]
    split
    · next hv =>
      refine (h.nodup v).append (List.nodup_singleton k₀) fun k hk hk₀ => ?_
      rw [List.mem_singleton.mp hk₀, hv] at hk
      exact hnew (h.mem.mp hk)
    · exact h.nodup v

theorem filter (h : Mirrors R rev) (p : K → Prop) [DecidablePred p] (v₀ : V)
    (hp : ∀ k v, R k v → ¬ p k → v = v₀) (hR : ∀ k v, R' k v ↔ R k v ∧ p k)
    (hrev : ∀ v, rev' v = if v = v₀ then (rev v).filter p else rev v) : Mirrors R' rev' where
  mem := fun {k v} => by
    rw [hrev, hR]
    by_cases hv : v = v₀
    · rw [if_pos hv, List.mem_filter, h.mem, decide_eq_true_iff]
    · rw [if_neg hv, h.mem]
      refine (and_iff_left_of_imp fun hk => ?_).symm
      by_contra hno
      exact hv (hp k v hk hno)
  nodup := fun v => by
    rw [hrev]
    split
    · exact (h.nodup v).filter _
    · exact h.nodup v

theorem tail {k₀ : K} {v₀ : V} {ks : List K} (h : Mirrors R rev) (hhead : rev v₀ = k₀ :: ks)
    (honly : ∀ v, R k₀ v → v = v₀) (hR : ∀ k v, R' k v ↔ R k v ∧ k ≠ k₀)
    (hrev : ∀ v, rev' v = if v = v₀ then ks else rev v) : Mirrors R' rev' where
  mem := fun {k v} => by
    rw [hrev, hR]
    by_cases hv : v = v₀
    · have hnotin : k₀ ∉ ks := (List.nodup_cons.mp (hhead ▸ h.nodup v₀)).1
      rw [if_pos hv, hv, ← h.mem, hhead, List.mem_cons]
      constructor
      · intro hk
        refine ⟨Or.inr hk, ?_⟩
        rintro rfl
        exact hnotin hk
      · exact fun hk => hk.1.resolve_left hk.2
    · rw [if_neg hv, h.mem]
      refine (and_iff_left_of_imp fun hk => ?_).symm
      rintro rfl
      exact hv (honly v hk)
  nodup := fun v => by
    rw [hrev]
    split
    · exact (List.nodup_cons.mp (hhead ▸ h.nodup v₀)).2
    · exact h.nodup v

end Mirrors
end Rebar

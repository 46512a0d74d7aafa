import Mathlib.Data.List.Basic
import Mathlib.Data.List.Perm.Basic

/-!
# Operations on vectors

* `minIdx lt l`          the position of a least element, the first of them, and the element;
* `modifyFirst p f l`    the first element with `p` changed by `f`;
* `swapRemove l i`       the element at `i` removed, and the last one put in its place.

In a vector in which a key occurs once, the other elements after a change are those that have another key
(`mem_modify`, `mem_modifyFirst`).
-/

namespace Rebar
variable {α : Type}

def minIdx (lt : α → α → Bool) : List α → Option (Nat × α)
  | [] => none
  | a :: l =>
    match minIdx lt l with
    | none => some (0, a)
    | some (i, b) => if lt b a then some (i + 1, b) else some (0, a)

theorem getElem?_of_minIdx {lt : α → α → Bool} {l : List α} {i : Nat} {a : α}
    (h : minIdx lt l = some (i, a)) : l[i]? = some a := by
  induction l generalizing i with
  | nil => cases h
  | cons b l ih =>
    unfold minIdx at h
    split at h
    next =>
      cases h
      rfl
    next j c hj =>
      split at h
      next =>
        cases h
        exact ih hj
      next =>
        cases h
        rfl

def modifyFirst (p : α → Bool) (f : α → α) : List α → List α
  | [] => []
  | a :: l => if p a then f a :: l else a :: modifyFirst p f l

theorem mem_modifyFirst {β : Type} {p : α → Bool} {f : α → α} {key : α → β} {l : List α} {x : α}
    (honce : l.Pairwise fun a b => key a ≠ key b) (h : x ∈ modifyFirst p f l) :
    (∃ a, l.find? p = some a ∧ x = f a) ∨ (x ∈ l ∧ ∀ a, l.find? p = some a → key x ≠ key a) := by
  induction l with
  | nil => cases h
  | cons b l ih =>
    obtain ⟨hfirst, honce⟩ := List.pairwise_cons.mp honce
    unfold modifyFirst at h
    split at h
    next hp =>
      rw [List.find?_cons_of_pos hp]
      rcases List.mem_cons.mp h with rfl | h
      · exact Or.inl ⟨b, rfl, rfl⟩
      · exact Or.inr ⟨List.mem_cons_of_mem _ h, fun a ha => Option.some.inj ha ▸ (hfirst x h).symm⟩
    next hp =>
      rw [List.find?_cons_of_neg hp]
      rcases List.mem_cons.mp h with rfl | h
      · exact Or.inr ⟨List.mem_cons_self, fun a ha => hfirst a (List.mem_of_find?_eq_some ha)⟩
      · exact (ih honce h).imp_right fun hx => ⟨List.mem_cons_of_mem _ hx.1, hx.2⟩

theorem find?_modifyFirst {p : α → Bool} {f : α → α} (l : List α) (h : ∀ a, p (f a) = p a) :
    (modifyFirst p f l).find? p = (l.find? p).map f := by
  induction l with
  | nil => rfl
  | cons a l ih =>
    unfold modifyFirst
    split
    next hp => simp [hp, h]
    next hp => simp [hp, ih]

theorem map_modifyFirst {β : Type} {p : α → Bool} {f : α → α} {key : α → β} (l : List α)
    (h : ∀ a, key (f a) = key a) : (modifyFirst p f l).map key = l.map key := by
  induction l with
  | nil => rfl
  | cons a l ih =>
    unfold modifyFirst
    split
    next => rw [List.map_cons, List.map_cons, h]
    next => rw [List.map_cons, List.map_cons, ih]

theorem mem_modify {β : Type} {f : α → α} {key : α → β} {l : List α} {i : Nat} {a x : α}
    (honce : l.Pairwise fun a b => key a ≠ key b) (ha : l[i]? = some a) (h : x ∈ l.modify i f) :
    x = f a ∨ (x ∈ l ∧ key x ≠ key a) := by
  induction l generalizing i with
  | nil => cases ha
  | cons b l ih =>
    obtain ⟨hfirst, honce⟩ := List.pairwise_cons.mp honce
    cases i with
    | zero =>
      cases ha
      rw [List.modify_zero_cons] at h
      rcases List.mem_cons.mp h with rfl | h
      · exact Or.inl rfl
      · exact Or.inr ⟨List.mem_cons_of_mem _ h, (hfirst x h).symm⟩
    | succ i =>
      rw [List.modify_succ_cons] at h
      rcases List.mem_cons.mp h with rfl | h
      · exact Or.inr ⟨List.mem_cons_self, hfirst a (List.mem_of_getElem? ha)⟩
      · exact (ih honce ha h).imp_right fun hx => ⟨List.mem_cons_of_mem _ hx.1, hx.2⟩

theorem map_modify_key {β : Type} {f : α → α} {key : α → β} (l : List α) (i : Nat)
    (h : ∀ a, key (f a) = key a) : (l.modify i f).map key = l.map key := by
  induction l generalizing i with
  | nil => cases i <;> rfl
  | cons a l ih =>
    cases i with
    | zero => rw [List.modify_zero_cons, List.map_cons, List.map_cons, h]
    | succ i => rw [List.modify_succ_cons, List.map_cons, List.map_cons, ih]

theorem nodup_map_push {β : Type} {key : α → β} {l : List α} {a : α} (h : (l.map key).Nodup)
    (ha : ∀ x ∈ l, key x ≠ key a) : ((l ++ [a]).map key).Nodup := by
  rw [List.map_append, List.map_singleton]
  refine List.nodup_append.mpr ⟨h, List.pairwise_singleton _ _, fun k hk k' hk' => ?_⟩
  obtain ⟨x, hx, rfl⟩ := List.mem_map.mp hk
  rw [List.mem_singleton.mp hk']
  exact ha x hx

/-- a change of an element that is removed, before and after the change -/
theorem filter_modify {q : α → Bool} {f : α → α} {l : List α} {i : Nat} {a : α}
    (ha : l[i]? = some a) (hq : q a = false) (hf : q (f a) = false) :
    (l.modify i f).filter q = l.filter q := by
  induction l generalizing i with
  | nil => cases ha
  | cons b l ih =>
    cases i with
    | zero =>
      cases ha
      simp [hq, hf]
    | succ i => rw [List.modify_succ_cons, List.filter_cons, List.filter_cons, ih ha]

theorem filter_modifyFirst {p q : α → Bool} {f : α → α} (l : List α)
    (h : ∀ a, p a = true → q a = false ∧ q (f a) = false) :
    (modifyFirst p f l).filter q = l.filter q := by
  induction l with
  | nil => rfl
  | cons a l ih =>
    unfold modifyFirst
    split
    next hp => simp [h a hp]
    next => rw [List.filter_cons, List.filter_cons, ih]

theorem perm_cons_eraseIdx {l : List α} {i : Nat} {a : α} (h : l[i]? = some a) :
    l.Perm (a :: l.eraseIdx i) := by
  obtain ⟨hi, rfl⟩ := List.getElem?_eq_some_iff.mp h
  exact (List.getElem_cons_eraseIdx_perm hi).symm

theorem set_perm_cons_eraseIdx {l : List α} {i : Nat} {a : α} (h : l[i]? = some a) (b : α) :
    (l.set i b).Perm (b :: l.eraseIdx i) := by
  obtain ⟨hi, -⟩ := List.getElem?_eq_some_iff.mp h
  exact List.set_perm_cons_eraseIdx hi b

def swapRemove (l : List α) (i : Nat) : List α :=
  match l.getLast? with
  | none => []
  | some last => (l.set i last).dropLast

theorem swapRemove_perm {l : List α} {i : Nat} (h : i < l.length) :
    (swapRemove l i).Perm (l.eraseIdx i) := by
  obtain rfl | ⟨init, last, rfl⟩ := List.eq_nil_or_concat l
  · cases h
  · rw [List.concat_eq_append] at h ⊢
    unfold swapRemove
    rw [List.getLast?_append, List.getLast?_singleton]
    rw [List.length_append, List.length_singleton] at h
    dsimp only [Option.some_or]
    by_cases hi : i < init.length
    · rw [List.set_append_left _ _ hi, List.dropLast_concat, List.eraseIdx_append_of_lt_length hi]
      exact (List.set_perm_cons_eraseIdx hi last).trans (List.perm_append_singleton _ _).symm
    · obtain rfl : i = init.length := by omega
      rw [List.set_append_right _ _ (Nat.le_refl _), List.eraseIdx_append_of_length_le (Nat.le_refl _),
        Nat.sub_self]
      show (init ++ [last]).dropLast.Perm (init ++ [])
      rw [List.dropLast_concat, List.append_nil]

end Rebar

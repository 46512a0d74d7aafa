import Mathlib.Algebra.Order.BigOperators.Group.Finset
import Mathlib.Algebra.Order.Ring.Nat
import Rebar.Application.Manager

/-!
# Dependencies between applications

The model of `topological_sort` in `application/manager.rs`, a depth-first search with a stack of its
own, and what it visits.

* `topologicalSort`       the loop, with as many rounds as `sortFuel` allows;
* `topologicalSort_mem`   it lists the application and applications that it depends on, no others.
-/

namespace Rebar.Application

namespace ApplicationManager

/-- the registered dependency list; empty for a name that is not registered -/
def dependenciesOf (m : ApplicationManager) (name : String) : List String :=
  ((m.registrations.lookup name).map (·.dependencies)).getD []

/-- an application depends on another one, directly or transitively -/
def DependsOn (m : ApplicationManager) : String → String → Prop :=
  Relation.TransGen fun a b => b ∈ m.dependenciesOf a

end ApplicationManager

/-! ## the search -/

inductive Colour where
  | white
  | grey
  | black
deriving DecidableEq

/-- the local variables of `topological_sort`; the top of the stack comes first -/
structure Sorting where
  colour : HashMap String Colour
  depCache : HashMap String (List String)
  stack : List (String × Nat)
  result : List String

namespace Sorting

def start (name : String) : Sorting := ⟨AList.insert name .grey ∅, ∅, [(name, 0)], []⟩

def colourOf (s : Sorting) (name : String) : Colour := (s.colour.lookup name).getD .white

def cached (s : Sorting) (m : ApplicationManager) (node : String) :
    Option (HashMap String (List String) × List String) :=
  match s.depCache.lookup node with
  | some deps => some (s.depCache, deps)
  | none => (m.registrations.lookup node).map fun spec =>
    (s.depCache.insert node spec.dependencies, spec.dependencies)

end Sorting

namespace ApplicationManager

/-- one round of the loop of `topological_sort` -/
def sortRound (m : ApplicationManager) (name : String) (s : Sorting) :
    Sum Sorting (Except AppError (List String)) :=
  match s.stack with
  | [] => .inr (.ok s.result)
  | (node, idx) :: stack =>
    match s.cached m node with
    | none => .inr (.error (.dependencyNotRegistered node))
    | some (depCache, deps) =>
      match deps[idx]? with
      | some dep =>
        match s.colourOf dep with
        | .grey =>
          .inr (.error (.circularDependency (dep ++ " (while resolving " ++ name ++ ")")))
        | .black => .inl { s with depCache, stack := (node, idx + 1) :: stack }
        | .white => .inl { s with
            colour := s.colour.insert dep .grey
            depCache
            stack := (dep, 0) :: (node, idx + 1) :: stack }
      | none => .inl {
          colour := s.colour.insert node .black
          depCache
          stack
          result := s.result ++ [node] }

def sortLoop (m : ApplicationManager) (name : String) :
    Nat → Sorting → Option (Except AppError (List String))
  | 0, _ => none
  | fuel + 1, s =>
    match m.sortRound name s with
    | .inl s => m.sortLoop name fuel s
    | .inr result => some result

def mentioned (m : ApplicationManager) : Finset String :=
  (m.registrations.keys.flatMap m.dependenciesOf).toFinset

def rounds (m : ApplicationManager) (name : String) : Nat := (m.dependenciesOf name).length + 2

def sortFuel (m : ApplicationManager) (name : String) : Nat :=
  ∑ n ∈ insert name m.mentioned, m.rounds n

def topologicalSort (m : ApplicationManager) (name : String) :
    Option (Except AppError (List String)) :=
  m.sortLoop name (m.sortFuel name) (.start name)

end ApplicationManager

variable {m : ApplicationManager} {s s' : Sorting} {name node dep n : String} {idx : Nat}

theorem mem_mentioned (h : dep ∈ m.dependenciesOf node) : dep ∈ m.mentioned := by
  refine List.mem_toFinset.mpr (List.mem_flatMap.mpr ⟨node, ?_, h⟩)
  rw [ApplicationManager.dependenciesOf] at h
  cases hl : m.registrations.lookup node with
  | none =>
    rw [hl] at h
    exact absurd h List.not_mem_nil
  | some spec => exact (HashMap.mem_keys_iff _ _).mpr ⟨spec, hl⟩

/-! ## what a round can do -/

def Sorting.Faithful (m : ApplicationManager) (s : Sorting) : Prop :=
  ∀ n deps, s.depCache.lookup n = some deps → deps = m.dependenciesOf n

theorem Sorting.Faithful.cached (h : s.Faithful m) {depCache : HashMap String (List String)}
    {deps : List String} (hc : s.cached m node = some (depCache, deps)) :
    deps = m.dependenciesOf node ∧
    ∀ n deps, depCache.lookup n = some deps → deps = m.dependenciesOf n := by
  unfold Sorting.cached at hc
  split at hc
  next hit hl =>
    cases hc
    exact ⟨h _ _ hl, h⟩
  next hmiss =>
    obtain ⟨spec, hspec, heq⟩ := Option.map_eq_some_iff.mp hc
    cases heq
    have hdeps : spec.dependencies = m.dependenciesOf node := by
      rw [ApplicationManager.dependenciesOf, hspec]
      rfl
    refine ⟨hdeps, fun n deps hn => ?_⟩
    rcases HashMap.of_lookup_insert hn with ⟨heq, rfl⟩ | ⟨-, hn⟩
    · rw [heq]
      exact hdeps
    · exact h _ _ hn

/-- **What a round can be**: a dependency that is done is passed over, a new one goes on the stack, or
a node whose dependencies are done is finished. -/
inductive Round (m : ApplicationManager) (s : Sorting) : Sorting → Prop where
  | skip {node dep idx stack depCache} : s.stack = (node, idx) :: stack →
      (m.dependenciesOf node)[idx]? = some dep → s.colourOf dep = .black →
      Round m s { s with depCache, stack := (node, idx + 1) :: stack }
  | visit {node dep idx stack depCache} : s.stack = (node, idx) :: stack →
      (m.dependenciesOf node)[idx]? = some dep → s.colourOf dep = .white →
      Round m s { s with
        colour := s.colour.insert dep .grey
        depCache
        stack := (dep, 0) :: (node, idx + 1) :: stack }
  | finish {node idx stack depCache} : s.stack = (node, idx) :: stack →
      (m.dependenciesOf node)[idx]? = none →
      Round m s {
        colour := s.colour.insert node .black
        depCache
        stack
        result := s.result ++ [node] }

theorem sortRound_next (h : s.Faithful m) (hr : m.sortRound name s = .inl s') :
    Round m s s' ∧ s'.Faithful m := by
  revert hr
  fun_cases ApplicationManager.sortRound m name s <;> intro hr <;> cases hr
  next hstack _ _ hc _ hdep hblack =>
    obtain ⟨rfl, hkeep⟩ := h.cached hc
    exact ⟨.skip hstack hdep hblack, hkeep⟩
  next hstack _ _ hc _ hdep hwhite =>
    obtain ⟨rfl, hkeep⟩ := h.cached hc
    exact ⟨.visit hstack hdep hwhite, hkeep⟩
  next hstack _ _ hc hdone =>
    obtain ⟨rfl, hkeep⟩ := h.cached hc
    exact ⟨.finish hstack hdone, hkeep⟩

variable {order : List String} {c : Colour}

/-- **How the loop can end**: with nothing on the stack, or at a node that is not registered or whose
next dependency is on the stack already. -/
theorem sortRound_last (h : s.Faithful m) {result : Except AppError (List String)}
    (hr : m.sortRound name s = .inr result) :
    (s.stack = [] ∧ result = .ok s.result) ∨
    (∃ e, result = .error e) ∧ ∃ node idx stack, s.stack = (node, idx) :: stack ∧
      (m.registrations.lookup node = none ∨
        ∃ dep, (m.dependenciesOf node)[idx]? = some dep ∧ s.colourOf dep = .grey) := by
  revert hr
  fun_cases ApplicationManager.sortRound m name s <;> intro hr <;> cases hr
  next hstack => exact Or.inl ⟨hstack, rfl⟩
  next hstack hc =>
    refine Or.inr ⟨⟨_, rfl⟩, _, _, _, hstack, Or.inl ?_⟩
    unfold Sorting.cached at hc
    split at hc
    next => cases hc
    next => exact Option.map_eq_none_iff.mp hc
  next hstack _ _ hc dep hdep hgrey =>
    obtain ⟨rfl, -⟩ := h.cached hc
    exact Or.inr ⟨⟨_, rfl⟩, _, _, _, hstack, Or.inr ⟨dep, hdep, hgrey⟩⟩

/-- the induction over a search: what every round keeps holds when the loop ends -/
theorem sortLoop_keeps {P : Sorting → Prop} {fuel : Nat} {result : Except AppError (List String)}
    (hkeep : ∀ s s', P s → m.sortRound name s = .inl s' → P s') (hs : P s)
    (hr : m.sortLoop name fuel s = some result) :
    ∃ s', P s' ∧ m.sortRound name s' = .inr result := by
  induction fuel generalizing s with
  | zero => cases hr
  | succ fuel ih =>
    rw [ApplicationManager.sortLoop] at hr
    cases hround : m.sortRound name s with
    | inl s' =>
      rw [hround] at hr
      exact ih (hkeep s s' hs hround) hr
    | inr result' =>
      rw [hround] at hr
      cases hr
      exact ⟨s, hs, hround⟩

/-! ## the search ends -/

def Sorting.fresh (m : ApplicationManager) (root : String) (s : Sorting) : Nat :=
  ∑ n ∈ insert root m.mentioned, if s.colourOf n = .white then m.rounds n else 0

def Sorting.pending (m : ApplicationManager) (s : Sorting) : Nat :=
  (s.stack.map fun frame => (m.dependenciesOf frame.1).length - frame.2 + 1).sum

theorem colourOf_insert (h : s'.colour = s.colour.insert node c) (n : String) :
    s'.colourOf n = if n = node then c else s.colourOf n := by
  rw [Sorting.colourOf, h, HashMap.lookup_insert_if]
  split
  next => rfl
  next => rfl

theorem fresh_insert (hc : c ≠ .white) (h : s'.colour = s.colour.insert node c) (root : String) :
    s'.fresh m root ≤ s.fresh m root := by
  refine Finset.sum_le_sum fun n _ => ?_
  rw [colourOf_insert h]
  by_cases hn : n = node
  · rw [if_pos hn, if_neg hc]
    exact Nat.zero_le _
  · rw [if_neg hn]

theorem fresh_visit (hc : c ≠ .white) (h : s'.colour = s.colour.insert node c)
    (hwhite : s.colourOf node = .white) {root : String} (hmem : node ∈ insert root m.mentioned) :
    s'.fresh m root + m.rounds node = s.fresh m root := by
  have hsplit := Finset.add_sum_erase (insert root m.mentioned)
    (fun n => if s.colourOf n = .white then m.rounds n else 0) hmem
  have hsplit' := Finset.add_sum_erase (insert root m.mentioned)
    (fun n => if s'.colourOf n = .white then m.rounds n else 0) hmem
  have hrest : ∑ n ∈ (insert root m.mentioned).erase node,
        (if s'.colourOf n = .white then m.rounds n else 0)
      = ∑ n ∈ (insert root m.mentioned).erase node,
        (if s.colourOf n = .white then m.rounds n else 0) := by
    refine Finset.sum_congr rfl fun n hn => ?_
    rw [colourOf_insert h, if_neg (Finset.mem_erase.mp hn).1]
  have hnode : s'.colourOf node ≠ .white := by
    rw [colourOf_insert h, if_pos rfl]
    exact hc
  rw [if_pos hwhite] at hsplit
  rw [if_neg hnode] at hsplit'
  rw [Sorting.fresh, Sorting.fresh]
  omega

theorem Round.decreases (h : Round m s s') (root : String) :
    s'.fresh m root + s'.pending m < s.fresh m root + s.pending m := by
  cases h with
  | @skip node dep idx stack depCache hstack hdep _ =>
    obtain ⟨hlt, -⟩ := List.getElem?_eq_some_iff.mp hdep
    refine Nat.add_lt_add_left ?_ _
    rw [Sorting.pending, Sorting.pending, hstack, List.map_cons, List.map_cons, List.sum_cons,
      List.sum_cons]
    dsimp only
    omega
  | @visit node dep idx stack depCache hstack hdep hwhite =>
    obtain ⟨hlt, -⟩ := List.getElem?_eq_some_iff.mp hdep
    have hmem : dep ∈ insert root m.mentioned :=
      Finset.mem_insert_of_mem (mem_mentioned (List.mem_of_getElem? hdep))
    have hfresh : Sorting.fresh m root { s with
          colour := s.colour.insert dep .grey
          depCache
          stack := (dep, 0) :: (node, idx + 1) :: stack } + m.rounds dep = s.fresh m root :=
      fresh_visit (by decide) rfl hwhite hmem
    have hpending : s.pending m = (m.dependenciesOf node).length - idx + 1
        + (stack.map fun frame => (m.dependenciesOf frame.1).length - frame.2 + 1).sum := by
      rw [Sorting.pending, hstack, List.map_cons, List.sum_cons]
    rw [Sorting.pending, List.map_cons, List.map_cons, List.sum_cons, List.sum_cons]
    rw [ApplicationManager.rounds] at hfresh
    dsimp only
    omega
  | @finish node idx stack depCache hstack _ =>
    refine Nat.add_lt_add_of_le_of_lt (fresh_insert (by decide) rfl root) ?_
    rw [Sorting.pending, Sorting.pending, hstack, List.map_cons, List.sum_cons]
    dsimp only
    omega

theorem sortLoop_returns (root : String) {fuel : Nat} (h : s.Faithful m)
    (hfuel : s.fresh m root + s.pending m < fuel) :
    ∃ result, m.sortLoop name fuel s = some result := by
  induction fuel generalizing s with
  | zero => exact absurd hfuel (Nat.not_lt_zero _)
  | succ fuel ih =>
    rw [ApplicationManager.sortLoop]
    cases hr : m.sortRound name s with
    | inl s' =>
      obtain ⟨hround, hkeep⟩ := sortRound_next h hr
      have hless := hround.decreases root
      exact ih hkeep (by omega)
    | inr result => exact ⟨result, rfl⟩

theorem faithful_start : (Sorting.start name).Faithful m := by
  intro n deps hn
  cases hn

/-- **The search ends**, whatever is registered. -/
theorem topologicalSort_returns (m : ApplicationManager) (name : String) :
    ∃ result, m.topologicalSort name = some result := by
  refine sortLoop_returns name faithful_start ?_
  have hroot : name ∈ insert name m.mentioned := Finset.mem_insert_self _ _
  have hsplit := Finset.add_sum_erase (insert name m.mentioned) m.rounds hroot
  have hfresh : (Sorting.start name).fresh m name
      = ∑ n ∈ (insert name m.mentioned).erase name, m.rounds n := by
    rw [Sorting.fresh, ← Finset.add_sum_erase _ _ hroot]
    have hgrey : ∀ n, (Sorting.start name).colourOf n = if n = name then .grey else .white := by
      intro n
      exact colourOf_insert (s := ⟨∅, ∅, [], []⟩) rfl n
    rw [hgrey, if_pos rfl, if_neg (by decide), Nat.zero_add]
    refine Finset.sum_congr rfl fun n hn => ?_
    rw [hgrey, if_neg (Finset.mem_erase.mp hn).1, if_pos rfl]
  have hpending : (Sorting.start name).pending m = (m.dependenciesOf name).length + 1 := by
    simp [Sorting.pending, Sorting.start]
  rw [hfresh, hpending, ApplicationManager.sortFuel, ← hsplit, ApplicationManager.rounds]
  omega

/-! ## what the search visits -/

def ApplicationManager.Needs (m : ApplicationManager) (name n : String) : Prop :=
  n = name ∨ m.DependsOn name n

theorem needs_dependency (h : m.Needs name node) (hdep : dep ∈ m.dependenciesOf node) :
    m.Needs name dep := by
  rcases h with rfl | h
  · exact Or.inr (.single hdep)
  · exact Or.inr (.tail h hdep)

def Sorting.Within (m : ApplicationManager) (name : String) (s : Sorting) : Prop :=
  (∀ frame ∈ s.stack, m.Needs name frame.1) ∧ ∀ n ∈ s.result, m.Needs name n

theorem Round.within (h : Round m s s') (hs : s.Within m name) : s'.Within m name := by
  obtain ⟨hstack, hresult⟩ := hs
  cases h with
  | skip heq hdep _ =>
    rw [heq, List.forall_mem_cons] at hstack
    exact ⟨List.forall_mem_cons.mpr hstack, hresult⟩
  | visit heq hdep _ =>
    rw [heq, List.forall_mem_cons] at hstack
    have hneeds := needs_dependency hstack.1 (List.mem_of_getElem? hdep)
    exact ⟨List.forall_mem_cons.mpr ⟨hneeds, List.forall_mem_cons.mpr hstack⟩, hresult⟩
  | finish heq _ =>
    rw [heq, List.forall_mem_cons] at hstack
    refine ⟨hstack.2, fun n hn => ?_⟩
    rcases List.mem_append.mp hn with hn | hn
    · exact hresult n hn
    · exact List.mem_singleton.mp hn ▸ hstack.1

theorem topologicalSort_mem (hr : m.topologicalSort name = some (.ok order)) :
    ∀ n ∈ order, m.Needs name n := by
  have hstart : (Sorting.start name).Within m name := by
    refine ⟨fun frame hf => ?_, nofun⟩
    rw [List.mem_singleton.mp hf]
    exact Or.inl rfl
  obtain ⟨s, ⟨hfaithful, hwithin⟩, hlast⟩ := sortLoop_keeps
    (P := fun s => s.Faithful m ∧ s.Within m name) (fun s s' hs hround =>
      ⟨(sortRound_next hs.1 hround).2, (sortRound_next hs.1 hround).1.within hs.2⟩)
    ⟨faithful_start, hstart⟩ hr
  rcases sortRound_last hfaithful hlast with ⟨-, hok⟩ | ⟨⟨e, herror⟩, -⟩
  · cases hok
    exact hwithin.2
  · cases herror

end Rebar.Application

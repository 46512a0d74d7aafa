import Rebar.Application.Dependencies

/-!
# The dependency order

What `topological_sort` returns, for any registrations: duplicates, self-dependencies, cycles and
names that nobody registered included.

* `Searching`   the invariant of the loop over the colours, the stack and the result: grey nodes are
                the stack, black nodes are the result, and the result is closed under dependencies;
* `Chain`       the stack is a path in the dependency graph from the start to the current node, so a
                grey dependency closes a cycle;
* `Sorted`      the order that a search without error returns.
-/

namespace Rebar.Application

variable {m : ApplicationManager} {s s' : Sorting} {name node dep n : String} {idx : Nat}
  {order done : List String} {stack : List (String × Nat)}

/-- every name of the list comes after all of its dependencies -/
def Closed (m : ApplicationManager) (order : List String) : Prop :=
  ∀ before n after, order = before ++ n :: after → ∀ dep ∈ m.dependenciesOf n, dep ∈ before

/-- exactly the names that `name` needs, each once, after its dependencies and `name` last -/
structure Sorted (m : ApplicationManager) (name : String) (order : List String) : Prop where
  mem : ∀ n, n ∈ order ↔ m.Needs name n
  nodup : order.Nodup
  closed : Closed m order
  last : order.getLast? = some name

/-! ## lists closed under dependencies -/

theorem Closed.append (h : Closed m done) (hdeps : ∀ dep ∈ m.dependenciesOf node, dep ∈ done) :
    Closed m (done ++ [node]) := by
  intro before n after heq dep hdep
  rcases List.eq_nil_or_concat after with rfl | ⟨after', last, rfl⟩
  · obtain ⟨rfl, hlast⟩ := List.append_inj' heq rfl
    cases hlast
    exact hdeps dep hdep
  · rw [List.concat_eq_append, ← List.cons_append, ← List.append_assoc] at heq
    obtain ⟨hinit, -⟩ := List.append_inj' heq rfl
    exact h before n after' hinit dep hdep

theorem Closed.needs (h : Closed m order) (hname : name ∈ order) (hn : m.Needs name n) :
    n ∈ order := by
  have hstep : ∀ a b, a ∈ order → b ∈ m.dependenciesOf a → b ∈ order := by
    intro a b ha hb
    obtain ⟨before, after, heq⟩ := List.append_of_mem ha
    have hbefore := h before a after heq b hb
    rw [heq]
    exact List.mem_append_left _ hbefore
  rcases hn with rfl | hn
  · exact hname
  · induction hn with
    | single hdep => exact hstep _ _ hname hdep
    | tail _ hdep ih => exact hstep _ _ ih hdep

theorem Closed.before {before after : List String} (h : Closed m order)
    (heq : order = before ++ n :: after) (hdep : m.DependsOn n dep) : dep ∈ before := by
  induction hdep with
  | single hdep => exact h before n after heq _ hdep
  | tail _ hdep ih =>
    obtain ⟨front, back, hbefore⟩ := List.append_of_mem ih
    have hfront := h front _ (back ++ n :: after) (by rw [heq, hbefore]; simp) _ hdep
    rw [hbefore]
    exact List.mem_append_left _ hfront

theorem Sorted.acyclic (h : Sorted m name order) (hn : m.Needs name n) : ¬ m.DependsOn n n := by
  intro hcycle
  obtain ⟨before, after, heq⟩ := List.append_of_mem ((h.mem n).mpr hn)
  have hbefore := h.closed.before heq hcycle
  have hnodup := h.nodup
  rw [heq] at hnodup
  exact (List.nodup_append.mp hnodup).2.2 n hbefore n List.mem_cons_self rfl

/-! ## the stack -/

/-- The stack of the search, the top first.  Each frame was called by the one below it, whose index
has moved past the dependency, and the dependencies that a frame has passed are done. -/
inductive Chain (m : ApplicationManager) (name : String) (done : List String) :
    List (String × Nat) → Prop where
  | root {idx : Nat} : (∀ dep ∈ (m.dependenciesOf name).take idx, dep ∈ done) →
      Chain m name done [(name, idx)]
  | call {below node : String} {idx k : Nat} {rest : List (String × Nat)} :
      Chain m name done ((below, k) :: rest) →
      (m.dependenciesOf below)[k]? = some node →
      (∀ dep ∈ (m.dependenciesOf node).take idx, dep ∈ done) →
      Chain m name done ((node, idx) :: (below, k + 1) :: rest)

theorem Chain.mono {more : List String} (h : Chain m name done stack) (hsub : done ⊆ more) :
    Chain m name more stack := by
  induction h with
  | root hpassed => exact .root fun dep hdep => hsub (hpassed dep hdep)
  | call _ hnode hpassed ih => exact .call ih hnode fun dep hdep => hsub (hpassed dep hdep)

theorem Chain.passed (h : Chain m name done ((node, idx) :: stack)) :
    ∀ dep ∈ (m.dependenciesOf node).take idx, dep ∈ done := by
  cases h with
  | root hpassed => exact hpassed
  | call _ _ hpassed => exact hpassed

/-- the top frame moves on when its next dependency is done -/
theorem Chain.next (h : Chain m name done ((node, idx) :: stack))
    (hdep : (m.dependenciesOf node)[idx]? = some dep) (hdone : dep ∈ done) :
    Chain m name done ((node, idx + 1) :: stack) := by
  have hpassed : ∀ d ∈ (m.dependenciesOf node).take (idx + 1), d ∈ done := by
    intro d hd
    rw [List.take_add_one, hdep, List.mem_append] at hd
    rcases hd with hd | hd
    · exact h.passed d hd
    · rw [List.mem_singleton.mp hd]
      exact hdone
  cases h with
  | root => exact .root hpassed
  | call hbelow hnode _ => exact .call hbelow hnode hpassed

theorem Chain.reaches (h : Chain m name done stack) (hn : n ∈ stack.map (·.1)) :
    ∀ {top rest}, stack = top :: rest → n = top.1 ∨ m.DependsOn n top.1 := by
  induction h with
  | root =>
    intro top rest heq
    cases heq
    exact Or.inl (List.mem_singleton.mp hn)
  | @call below node idx k stack _ hnode _ ih =>
    intro top rest heq
    cases heq
    have hdep : node ∈ m.dependenciesOf below := List.mem_of_getElem? hnode
    rcases List.mem_cons.mp hn with rfl | hn
    · exact Or.inl rfl
    · rcases ih hn rfl with rfl | hbelow
      · exact Or.inr (.single hdep)
      · exact Or.inr (hbelow.tail hdep)

theorem Chain.start_mem (h : Chain m name done stack) : name ∈ stack.map (·.1) := by
  induction h with
  | root => exact List.mem_cons_self
  | call _ _ _ ih => exact List.mem_cons_of_mem _ ih

theorem Chain.needs (h : Chain m name done ((node, idx) :: stack)) : m.Needs name node := by
  rcases h.reaches h.start_mem rfl with heq | hdep
  · exact Or.inl heq.symm
  · exact Or.inr hdep

/-! ## the invariant of the loop -/

/-- Grey nodes are the stack, black nodes are the result.  Once the stack is empty the start is the
last node of the result. -/
structure Searching (m : ApplicationManager) (name : String) (s : Sorting) : Prop where
  grey : ∀ n, s.colourOf n = .grey ↔ n ∈ s.stack.map (·.1)
  black : ∀ n, s.colourOf n = .black ↔ n ∈ s.result
  frames : (s.stack.map (·.1)).Nodup
  nodup : s.result.Nodup
  closed : Closed m s.result
  chain : s.stack = [] ∧ s.result.getLast? = some name ∨ Chain m name s.result s.stack

theorem searching_start : Searching m name (.start name) := by
  have hcolour : ∀ n, (Sorting.start name).colourOf n = if n = name then .grey else .white := by
    intro n
    exact colourOf_insert (s := ⟨∅, ∅, [], []⟩) rfl n
  refine ⟨fun n => ?_, fun n => ?_, List.nodup_singleton _, List.nodup_nil, ?_, Or.inr (.root ?_)⟩
  · rw [hcolour]
    simp [Sorting.start]
  · rw [hcolour]
    simp only [Sorting.start, List.not_mem_nil, iff_false]
    split
    next => decide
    next => decide
  · intro before n after heq
    exact absurd heq.symm (List.append_ne_nil_of_right_ne_nil _ (List.cons_ne_nil _ _))
  · intro dep hdep
    cases hdep

theorem Searching.top (h : Searching m name s) (hstack : s.stack = (node, idx) :: stack) :
    Chain m name s.result ((node, idx) :: stack) := by
  rcases h.chain with ⟨hnil, -⟩ | hchain
  · rw [hstack] at hnil
    cases hnil
  · rw [← hstack]
    exact hchain

theorem Round.searching (h : Round m s s') (hs : Searching m name s) : Searching m name s' := by
  cases h with
  | @skip node dep idx stack depCache hstack hdep hblack =>
    have hgrey := hs.grey
    have hframes := hs.frames
    rw [hstack] at hgrey hframes
    have hnext := (hs.top hstack).next hdep ((hs.black dep).mp hblack)
    exact ⟨hgrey, hs.black, hframes, hs.nodup, hs.closed, Or.inr hnext⟩
  | @visit node dep idx stack depCache hstack hdep hwhite =>
    have hnew : dep ∉ s.stack.map (·.1) := by
      intro hmem
      rw [← hs.grey, hwhite] at hmem
      cases hmem
    have hcolour : ∀ n, Sorting.colourOf { s with
        colour := s.colour.insert dep .grey
        depCache
        stack := (dep, 0) :: (node, idx + 1) :: stack } n = if n = dep then .grey else s.colourOf n :=
      colourOf_insert rfl
    refine ⟨fun n => ?_, fun n => ?_, ?_, hs.nodup, hs.closed, Or.inr ?_⟩
    · have hgrey := hs.grey n
      rw [hstack] at hgrey
      rw [hcolour]
      split
      next heq => simp [heq]
      next hne => simpa [hne] using hgrey
    · rw [hcolour]
      split
      next heq =>
        rw [← hs.black, heq, hwhite]
        decide
      next => exact hs.black n
    · have hframes := hs.frames
      rw [hstack] at hframes hnew
      exact List.nodup_cons.mpr ⟨hnew, hframes⟩
    · exact .call (hs.top hstack) hdep nofun
  | @finish node idx stack depCache hstack hdone =>
    have hchain := hs.top hstack
    have hframes := hs.frames
    rw [hstack, List.map_cons, List.nodup_cons] at hframes
    have hgrey : s.colourOf node = .grey := by
      rw [hs.grey, hstack]
      exact List.mem_cons_self
    have hnew : node ∉ s.result := by
      intro hmem
      rw [← hs.black, hgrey] at hmem
      cases hmem
    have hdeps : ∀ dep ∈ m.dependenciesOf node, dep ∈ s.result := by
      have hpassed := hchain.passed
      rw [List.take_of_length_le (List.getElem?_eq_none_iff.mp hdone)] at hpassed
      exact hpassed
    have hcolour : ∀ n, Sorting.colourOf {
        colour := s.colour.insert node .black
        depCache
        stack
        result := s.result ++ [node] } n = if n = node then .black else s.colourOf n :=
      colourOf_insert rfl
    refine ⟨fun n => ?_, fun n => ?_, hframes.2, ?_, hs.closed.append hdeps, ?_⟩
    · have hgrey := hs.grey n
      rw [hstack] at hgrey
      rw [hcolour]
      split
      next heq =>
        rw [heq]
        exact iff_of_false (by decide) hframes.1
      next hne => simpa [hne] using hgrey
    · rw [hcolour, List.mem_append, List.mem_singleton]
      split
      next heq => simp [heq]
      next hne => rw [hs.black, or_iff_left hne]
    · rw [List.nodup_append]
      refine ⟨hs.nodup, List.nodup_singleton _, fun a ha b hb heq => hnew ?_⟩
      rw [List.mem_singleton.mp hb] at heq
      exact heq ▸ ha
    · -- the caller of `node` has passed it, or `node` was the start
      cases hchain with
      | root => exact Or.inl ⟨rfl, List.getLast?_concat⟩
      | call hbelow hnode _ =>
        have hsub : s.result ⊆ s.result ++ [node] := List.subset_append_left _ _
        exact Or.inr ((hbelow.mono hsub).next hnode (by simp))

/-- only registered applications are looked up with success, so only those are finished -/
def Sorting.Known (m : ApplicationManager) (s : Sorting) : Prop :=
  (∀ n ∈ s.depCache, n ∈ m.registrations) ∧ ∀ n ∈ s.result, n ∈ m.registrations

theorem Sorting.Known.cached (h : s.Known m) {depCache : HashMap String (List String)}
    {deps : List String} (hc : s.cached m node = some (depCache, deps)) :
    node ∈ m.registrations ∧ ∀ n ∈ depCache, n ∈ m.registrations := by
  unfold Sorting.cached at hc
  split at hc
  next hit hl =>
    cases hc
    refine ⟨h.1 node ?_, h.1⟩
    rw [← AList.lookup_isSome, hl]
    rfl
  next =>
    obtain ⟨spec, hspec, heq⟩ := Option.map_eq_some_iff.mp hc
    cases heq
    have hreg : node ∈ m.registrations := by
      rw [← AList.lookup_isSome, hspec]
      rfl
    refine ⟨hreg, fun n hn => ?_⟩
    rcases AList.mem_insert _ |>.mp hn with rfl | hn
    · exact hreg
    · exact h.1 n hn

theorem Sorting.Known.round (h : s.Known m) (hr : m.sortRound name s = .inl s') : s'.Known m := by
  revert hr
  fun_cases ApplicationManager.sortRound m name s <;> intro hr <;> cases hr
  next hc _ _ _ => exact ⟨(h.cached hc).2, h.2⟩
  next hc _ _ _ => exact ⟨(h.cached hc).2, h.2⟩
  next hc _ =>
    obtain ⟨hnode, hcache⟩ := h.cached hc
    refine ⟨hcache, fun n hn => ?_⟩
    rcases List.mem_append.mp hn with hn | hn
    · exact h.2 n hn
    · rw [List.mem_singleton.mp hn]
      exact hnode

/-! ## what the search returns -/

variable {result : Except AppError (List String)}

/-- how a search ends: the last round, in a state with all the invariants -/
theorem topologicalSort_last (hr : m.topologicalSort name = some result) :
    ∃ s, s.Faithful m ∧ Searching m name s ∧ s.Known m ∧ m.sortRound name s = .inr result := by
  have hstart : (Sorting.start name).Known m := by
    refine ⟨fun n hn => absurd hn (AList.notMem_empty n), nofun⟩
  obtain ⟨s, ⟨hfaithful, hsearch, hknown⟩, hlast⟩ := sortLoop_keeps
    (P := fun s => s.Faithful m ∧ Searching m name s ∧ s.Known m)
    (fun s s' hs hround => ⟨(sortRound_next hs.1 hround).2,
      (sortRound_next hs.1 hround).1.searching hs.2.1, hs.2.2.round hround⟩)
    ⟨faithful_start, searching_start, hstart⟩ hr
  exact ⟨s, hfaithful, hsearch, hknown, hlast⟩

theorem sorted_of_ok (hr : m.topologicalSort name = some (.ok order)) :
    Sorted m name order ∧ ∀ n ∈ order, n ∈ m.registrations := by
  obtain ⟨s, hfaithful, hsearch, hknown, hlast⟩ := topologicalSort_last hr
  rcases sortRound_last hfaithful hlast with ⟨hstack, hok⟩ | ⟨⟨e, herror⟩, -⟩
  · cases hok
    have hend : s.result.getLast? = some name := by
      rcases hsearch.chain with ⟨-, hend⟩ | hchain
      · exact hend
      · rw [hstack] at hchain
        cases hchain
    have hname : name ∈ s.result := List.mem_of_getLast? hend
    have hmem : ∀ n, n ∈ s.result ↔ m.Needs name n :=
      fun n => ⟨topologicalSort_mem hr n, fun hn => hsearch.closed.needs hname hn⟩
    exact ⟨⟨hmem, hsearch.nodup, hsearch.closed, hend⟩, hknown.2⟩
  · cases herror

/-- a search that fails has found a name that is not registered, or a cycle -/
theorem blocked_of_error {e : AppError} (hr : m.topologicalSort name = some (.error e)) :
    ∃ n, m.Needs name n ∧ (n ∉ m.registrations ∨ m.DependsOn n n) := by
  obtain ⟨s, hfaithful, hsearch, -, hlast⟩ := topologicalSort_last hr
  rcases sortRound_last hfaithful hlast with ⟨-, hok⟩ | ⟨-, node, idx, stack, hstack, hwhy⟩
  · cases hok
  · have hchain := hsearch.top hstack
    rcases hwhy with hnone | ⟨dep, hdep, hgrey⟩
    · exact ⟨node, hchain.needs, Or.inl (AList.lookup_eq_none.mp hnone)⟩
    · -- the dependency is on the stack, so it reaches the node that depends on it
      have hmem : dep ∈ m.dependenciesOf node := List.mem_of_getElem? hdep
      rw [hsearch.grey, hstack] at hgrey
      refine ⟨dep, needs_dependency hchain.needs hmem, Or.inr ?_⟩
      rcases hchain.reaches hgrey rfl with heq | hreach
      · rw [heq] at hmem ⊢
        exact .single hmem
      · exact hreach.tail hmem

/-- **The sort is a topological sort.**  For any registrations it returns; it succeeds exactly when
all that `name` needs is registered and free of cycles, and then it lists exactly that, each name
once and after its dependencies, with `name` last. -/
theorem topologicalSort_correct (m : ApplicationManager) (name : String) :
    ∃ result, m.topologicalSort name = some result ∧
      ((∃ order, result = .ok order) ↔
        (∀ n, m.Needs name n → n ∈ m.registrations) ∧ ∀ n, m.Needs name n → ¬ m.DependsOn n n) ∧
      ∀ order, result = .ok order → Sorted m name order := by
  obtain ⟨result, hr⟩ := topologicalSort_returns m name
  refine ⟨result, hr, ?_, ?_⟩
  · cases result with
    | ok order =>
      obtain ⟨hsorted, hregistered⟩ := sorted_of_ok hr
      refine iff_of_true ⟨order, rfl⟩ ⟨fun n hn => ?_, fun n hn => hsorted.acyclic hn⟩
      exact hregistered n ((hsorted.mem n).mpr hn)
    | error e =>
      obtain ⟨n, hneeds, hwhy⟩ := blocked_of_error hr
      refine iff_of_false (fun ⟨order, hok⟩ => nomatch hok) fun ⟨hregistered, hacyclic⟩ => ?_
      rcases hwhy with hnone | hcycle
      · exact hnone (hregistered n hneeds)
      · exact hacyclic n hneeds hcycle
  · rintro order rfl
    exact (sorted_of_ok hr).1

end Rebar.Application

import Rebar.Registry.Lookup

/-!
# The conflicts that a merge records

When an added entry meets a live winner of its name with another tag and another pid, `merge_delta` records
the two.  It takes the added entry for the winner only if it is greater; `lookup` takes it unless it is less.
So the recorded winner is the entry that `lookup` returns when the two do not tie.

* `mergeAdd_conflict`   what was the case when a conflict is recorded.
-/

namespace Rebar.Registry

variable {r : Registry} {e prior : RegistryEntry} {c : NameConflict}

/-- the two that meet: the added entry wins only if it is greater -/
def conflictOf (e prior : RegistryEntry) : NameConflict :=
  if lwwCmp e prior = .gt then ⟨e.name, e, prior⟩ else ⟨prior.name, prior, e⟩

theorem mergeAdd_conflict (h : (r.mergeAdd e).conflicts = r.conflicts ++ [c]) :
    e.tag ∉ r.tombstones ∧ (∀ x ∈ r.live e.name, x.tag ≠ e.tag) ∧
      ∃ prior, r.lookup e.name = some prior ∧ c = conflictOf e prior := by
  have hgrows : (r.mergeAdd e).conflicts ≠ r.conflicts := by
    rw [h]
    exact fun heq => List.cons_ne_nil c [] (List.append_right_eq_self.mp heq)
  unfold mergeAdd at h hgrows
  split at h
  next htomb => exact absurd rfl (if_pos htomb ▸ hgrows)
  next htomb =>
    rw [if_neg htomb] at hgrows
    dsimp only at h hgrows
    split at h
    next hdup => exact absurd rfl (if_pos hdup ▸ hgrows)
    next hdup =>
      rw [if_neg hdup] at hgrows
      refine ⟨htomb, fun x hx htag => hdup ?_, ?_⟩
      · exact List.any_eq_true.mpr ⟨x, hx, decide_eq_true htag⟩
      · split at h
        next hnone =>
          rw [hnone] at hgrows
          exact absurd rfl hgrows
        next prior hprior =>
          obtain ⟨hlookup, -⟩ := Option.filter_eq_some_iff.mp hprior
          refine ⟨prior, hlookup, ?_⟩
          have hrecorded := List.append_cancel_left h
          unfold conflictOf
          split
          next hgt =>
            rw [if_pos hgt] at hrecorded
            exact (List.singleton_inj.mp hrecorded).symm
          next hgt =>
            rw [if_neg hgt] at hrecorded
            exact (List.singleton_inj.mp hrecorded).symm

theorem lookup_mergeAdd (hprior : r.lookup e.name = some prior) (htomb : e.tag ∉ r.tombstones)
    (htag : ∀ x ∈ r.live e.name, x.tag ≠ e.tag) :
    (r.mergeAdd e).lookup e.name = some (if lwwCmp prior e = .gt then prior else e) := by
  rw [lookup_eq_maxBy, live_mergeAdd, if_pos ⟨htomb, htag, rfl⟩]
  rw [lookup_eq_maxBy] at hprior
  exact maxBy_concat hprior e

theorem conflictOf_winner_iff (htag : prior.tag ≠ e.tag) :
    (if lwwCmp prior e = .gt then prior else e) = (conflictOf e prior).winner ↔ ¬ Tied e prior := by
  have hne : prior ≠ e := fun heq => htag (congrArg RegistryEntry.tag heq)
  unfold conflictOf
  by_cases hgt : lwwCmp e prior = .gt
  · rw [if_pos hgt, if_neg (lwwCmp_preorder.le_of_gt hgt)]
    exact iff_of_true rfl fun htied => (tied_iff.mp htied).1 hgt
  · rw [if_neg hgt]
    by_cases hless : lwwCmp prior e = .gt
    · rw [if_pos hless]
      exact iff_of_true rfl fun htied => (tied_iff.mp htied).2 hless
    · rw [if_neg hless]
      exact iff_of_false hne.symm (not_not_intro (tied_iff.mpr ⟨hgt, hless⟩))

theorem conflictOf_cases (e prior : RegistryEntry) :
    ((conflictOf e prior).winner = e ∧ (conflictOf e prior).loser = prior) ∨
      ((conflictOf e prior).winner = prior ∧ (conflictOf e prior).loser = e) := by
  unfold conflictOf
  split
  · exact Or.inl ⟨rfl, rfl⟩
  · exact Or.inr ⟨rfl, rfl⟩

theorem conflictOf_name (e prior : RegistryEntry) :
    (conflictOf e prior).name = (conflictOf e prior).winner.name := by
  unfold conflictOf
  split <;> rfl

/-- **In every state of a replica, the winner of a conflict that a merge records is the entry that `lookup`
of the name returns after the merge exactly if the added entry does not tie with the winner before it; the
loser is always another live entry of that name.** -/
theorem conflict_winner_resolves {o : Order Uuid} (h : registryMachine.Reach Machine.Anytime r)
    (hrecorded : (r.mergeDelta o (.add e)).conflicts = r.conflicts ++ [c]) :
    c.name = e.name ∧
      ((r.mergeDelta o (.add e)).lookup c.name = some c.winner ↔
        ∀ prior, r.lookup e.name = some prior → ¬ Tied e prior) ∧
      c.loser ∈ (r.mergeDelta o (.add e)).live c.name ∧ c.loser.name = c.name ∧
      c.loser.tag ≠ c.winner.tag := by
  obtain ⟨htomb, htag, prior, hprior, rfl⟩ := mergeAdd_conflict hrecorded
  have hmem : prior ∈ r.live e.name := maxBy_mem ((lookup_eq_maxBy r e.name).symm.trans hprior)
  have hown : prior.name = e.name := (wellFormed_of_reach h).ownName e.name prior hmem
  have hlive : (r.mergeAdd e).live e.name = r.live e.name ++ [e] := by
    rw [live_mergeAdd, if_pos ⟨htomb, htag, rfl⟩]
  have hcases := conflictOf_cases e prior
  have hname : (conflictOf e prior).name = e.name := by
    rw [conflictOf_name]
    rcases hcases with ⟨hwinner, -⟩ | ⟨hwinner, -⟩
    · rw [hwinner]
    · rw [hwinner, hown]
  have hwins : (r.mergeAdd e).lookup e.name = some (conflictOf e prior).winner ↔
      ∀ prior, r.lookup e.name = some prior → ¬ Tied e prior := by
    rw [lookup_mergeAdd hprior htomb htag, Option.some_inj,
      conflictOf_winner_iff (htag prior hmem), hprior]
    simp only [Option.some.injEq, forall_eq']
  show _ ∧ ((r.mergeAdd e).lookup _ = _ ↔ _) ∧ _ ∈ (r.mergeAdd e).live _ ∧ _
  rw [hname, hlive]
  refine ⟨rfl, hwins, ?_⟩
  rcases hcases with ⟨hwinner, hloser⟩ | ⟨hwinner, hloser⟩
  · rw [hwinner, hloser]
    exact ⟨List.mem_append_left _ hmem, hown, htag prior hmem⟩
  · rw [hwinner, hloser]
    exact ⟨List.mem_append_right _ List.mem_cons_self, rfl, (htag prior hmem).symm⟩

private def claimed : Registry := new.register "svc" ⟨1, 5⟩ 1 100 7

private theorem claimed_reach : registryMachine.Reach Machine.Anytime claimed :=
  .step (a := (MapOrder.stored, Op.register "svc" (ProcessId.mk 1 5) 1 100 7))
    (.start ⟨defaultMaxTombstones, rfl⟩) trivial rfl

theorem conflict_winner_resolves_later :
    registryMachine.Reach Machine.Anytime claimed ∧
      (claimed.mergeDelta Order.stored (.add ⟨"svc", ⟨2, 9⟩, 8, 101, 2⟩)).conflicts =
        [⟨"svc", ⟨"svc", ⟨2, 9⟩, 8, 101, 2⟩, ⟨"svc", ⟨1, 5⟩, 7, 100, 1⟩⟩] ∧
      (claimed.mergeDelta Order.stored (.add ⟨"svc", ⟨2, 9⟩, 8, 101, 2⟩)).lookup "svc" =
        some ⟨"svc", ⟨2, 9⟩, 8, 101, 2⟩ := by
  have hlookup : claimed.lookup "svc" = some ⟨"svc", ⟨1, 5⟩, 7, 100, 1⟩ := by decide
  refine ⟨claimed_reach, by decide, ?_⟩
  refine (conflict_winner_resolves (c := ⟨"svc", ⟨"svc", ⟨2, 9⟩, 8, 101, 2⟩, ⟨"svc", ⟨1, 5⟩, 7, 100, 1⟩⟩)
    claimed_reach (by decide)).2.1.mpr fun prior hprior => ?_
  rw [hlookup] at hprior
  cases hprior
  exact fun htied => absurd htied.1 (by decide)

/-- node 1 has registered the name again at the same time: the conflict names the first entry as the winner,
and `lookup` returns the second -/
theorem conflict_winner_resolves_tied :
    registryMachine.Reach Machine.Anytime claimed ∧
      (claimed.mergeDelta Order.stored (.add ⟨"svc", ⟨1, 9⟩, 8, 100, 1⟩)).conflicts =
        [⟨"svc", ⟨"svc", ⟨1, 5⟩, 7, 100, 1⟩, ⟨"svc", ⟨1, 9⟩, 8, 100, 1⟩⟩] ∧
      (claimed.mergeDelta Order.stored (.add ⟨"svc", ⟨1, 9⟩, 8, 100, 1⟩)).lookup "svc" =
        some ⟨"svc", ⟨1, 9⟩, 8, 100, 1⟩ :=
  ⟨claimed_reach, by decide, by decide⟩

end Rebar.Registry

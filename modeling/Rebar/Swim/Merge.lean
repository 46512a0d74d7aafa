import Mathlib.Data.Finset.Max
import Mathlib.Data.List.Perm.Basic
import Mathlib.Tactic.Tauto
import Rebar.Swim.Refute

/-!
# Updates in any order

What a list of updates about one member makes of it, and what the gossip queue makes of the list.
A member and an update are compared by their views: the incarnation first, then `Alive` below
`Suspect` below `Dead`.  An update is merged by taking the greater of the two views, except that a
dead member takes nothing but an `Alive`.

* `View.merge`     one update; `merge_view` ties it to `apply_update`;
* `View.Conflict`  when the order of the updates matters;
* `Kept`           which update of a sequence the queue keeps.
-/

namespace Rebar.Swim

/-! ## views -/

structure View where
  state : NodeState
  incarnation : Nat
deriving DecidableEq

def NodeState.rank : NodeState → Nat
  | .alive => 0
  | .suspect => 1
  | .dead => 2

namespace View

def key (v : View) : Nat := 3 * v.incarnation + v.state.rank

/-- the greater view; but a death gives way to an `Alive` only -/
def merge (v u : View) : View :=
  if v.state = .dead ∧ u.state ≠ .alive then v
  else if v.key < u.key then u
  else v

def mergeAll (v : View) (us : List View) : View := us.foldl merge v

variable {v u w d : View} {us : List View}

theorem rank_le (s : NodeState) : s.rank ≤ 2 := by
  cases s <;> decide

theorem rank_pos {s : NodeState} (h : s ≠ .alive) : 1 ≤ s.rank := by
  cases s with
  | alive => exact absurd rfl h
  | suspect => decide
  | dead => decide

theorem key_alive (h : v.state = .alive) : v.key = 3 * v.incarnation := by
  rw [key, h]
  rfl

theorem key_dead (h : v.state = .dead) : v.key = 3 * v.incarnation + 2 := by
  rw [key, h]
  rfl

theorem key_bounds (v : View) : 3 * v.incarnation ≤ v.key ∧ v.key ≤ 3 * v.incarnation + 2 := by
  have hrank := rank_le v.state
  rw [key]
  omega

theorem key_of_not_alive (h : v.state ≠ .alive) : 3 * v.incarnation + 1 ≤ v.key := by
  have hrank := rank_pos h
  rw [key]
  omega

theorem key_of_not_dead (h : v.state ≠ .dead) : v.key ≤ 3 * v.incarnation + 1 := by
  have hrank : v.state.rank ≤ 1 := by
    cases hs : v.state with
    | alive => decide
    | suspect => decide
    | dead => exact absurd hs h
  rw [key]
  omega

theorem key_inj (h : v.key = u.key) : v = u := by
  obtain ⟨s, i⟩ := v
  obtain ⟨t, j⟩ := u
  have hs := rank_le s
  have ht := rank_le t
  replace h : 3 * i + s.rank = 3 * j + t.rank := h
  have hij : i = j := by omega
  have hrank : s.rank = t.rank := by omega
  subst hij
  cases s <;> cases t <;> first | rfl | cases hrank

/-! ## one update -/

theorem merge_of_le (h : u.key ≤ v.key) : v.merge u = v := by
  unfold merge
  split
  · rfl
  · rw [if_neg (Nat.not_lt.mpr h)]

theorem merge_blocked (hv : v.state = .dead) (hu : u.state ≠ .alive) : v.merge u = v :=
  if_pos ⟨hv, hu⟩

theorem merge_of_lt (h : v.key < u.key) (hfree : v.state ≠ .dead ∨ u.state = .alive) :
    v.merge u = u := by
  have hnot : ¬ (v.state = .dead ∧ u.state ≠ .alive) := by tauto
  rw [merge, if_neg hnot, if_pos h]

theorem merge_cases (v u : View) : v.merge u = v ∨ v.merge u = u ∧ v.key < u.key := by
  unfold merge
  split
  · exact Or.inl rfl
  · split
    · next h => exact Or.inr ⟨rfl, h⟩
    · exact Or.inl rfl

/-! ## lists of updates -/

theorem mergeAll_stay (h : ∀ u ∈ us, v.merge u = v) : v.mergeAll us = v := by
  induction us with
  | nil => rfl
  | cons u us ih =>
    show (v.merge u).mergeAll us = v
    rw [h u List.mem_cons_self]
    exact ih fun x hx => h x (List.mem_cons_of_mem _ hx)

theorem mergeAll_append (v : View) (us us' : List View) :
    v.mergeAll (us ++ us') = (v.mergeAll us).mergeAll us' :=
  List.foldl_append

theorem mergeAll_mem (v : View) (us : List View) : v.mergeAll us = v ∨ v.mergeAll us ∈ us := by
  induction us generalizing v with
  | nil => exact Or.inl rfl
  | cons u us ih =>
    show (v.merge u).mergeAll us = v ∨ (v.merge u).mergeAll us ∈ u :: us
    rcases ih (v.merge u) with hsame | hmem
    · rw [hsame]
      rcases merge_cases v u with heq | ⟨heq, -⟩
      · exact Or.inl heq
      · rw [heq]
        exact Or.inr List.mem_cons_self
    · exact Or.inr (List.mem_cons_of_mem _ hmem)

theorem key_le_mergeAll (v : View) (us : List View) : v.key ≤ (v.mergeAll us).key := by
  induction us generalizing v with
  | nil => exact Nat.le_refl _
  | cons u us ih =>
    refine le_trans ?_ (ih (v.merge u))
    rcases merge_cases v u with heq | ⟨heq, hlt⟩
    · rw [heq]
    · rw [heq]
      exact hlt.le

/-- an `Alive` is never passed over -/
theorem key_le_mergeAll_of_alive (hu : u ∈ us) (hs : u.state = .alive) :
    u.key ≤ (v.mergeAll us).key := by
  obtain ⟨before, after, rfl⟩ := List.append_of_mem hu
  rw [mergeAll_append]
  refine le_trans ?_ (key_le_mergeAll ((v.mergeAll before).merge u) after)
  by_cases hlt : (v.mergeAll before).key < u.key
  · rw [merge_of_lt hlt (Or.inr hs)]
  · rw [merge_of_le (Nat.not_lt.mp hlt)]
    exact Nat.not_lt.mp hlt

theorem mergeAll_alive (hw : w.state = .alive) (hmax : ∀ u ∈ us, u.key ≤ w.key)
    (hv : v = w ∨ v.incarnation < w.incarnation ∧ w ∈ us) : v.mergeAll us = w := by
  induction us generalizing v with
  | nil =>
    rcases hv with rfl | hv
    · rfl
    · exact absurd hv.2 List.not_mem_nil
  | cons u us ih =>
    have hlater := ih (fun x hx => hmax x (List.mem_cons_of_mem _ hx)) (v := v.merge u)
    refine hlater ?_
    rcases hv with rfl | ⟨hlt, hmem⟩
    · exact Or.inl (merge_of_le (hmax u List.mem_cons_self))
    · by_cases hu : u = w
      · subst hu
        refine Or.inl (merge_of_lt ?_ (Or.inr hw))
        have hb := key_bounds v
        rw [key_alive hw]
        omega
      · right
        have hmem' := (List.mem_cons.mp hmem).resolve_left fun h => hu h.symm
        have hne : u.key ≠ w.key := fun h => hu (key_inj h)
        have hle := hmax u List.mem_cons_self
        have hb := key_bounds u
        rw [key_alive hw] at hne hle
        rcases merge_cases v u with heq | ⟨heq, -⟩
        · rw [heq]
          exact ⟨hlt, hmem'⟩
        · rw [heq]
          exact ⟨by omega, hmem'⟩

/-! ## the greatest update alone -/

/-- a member ends at a newer rumour that is greatest exactly when it is not dead, of an older
incarnation, as the rumour is heard for the last time -/
theorem mergeAll_eq_rumour_iff {before after : List View} (hw : w.state ≠ .alive)
    (hlt : v.key < w.key) (hbefore : ∀ u ∈ before, u.key ≤ w.key) (hafter : ∀ u ∈ after, u.key < w.key) :
    v.mergeAll (before ++ w :: after) = w ↔
      ((v.mergeAll before).state = .dead → w.incarnation ≤ (v.mergeAll before).incarnation) := by
  have hle : (v.mergeAll before).key ≤ w.key := by
    rcases mergeAll_mem v before with heq | hmem
    · rw [heq]
      exact hlt.le
    · exact hbefore _ hmem
  rw [mergeAll_append]
  show ((v.mergeAll before).merge w).mergeAll after = w ↔ _
  generalize v.mergeAll before = x at hle
  have hwb := key_bounds w
  constructor
  · intro hend hdead
    rw [merge_blocked hdead hw] at hend
    rcases mergeAll_mem x after with heq | hmem
    · rw [← heq, hend]
    · have hself := hafter _ hmem
      rw [hend] at hself
      exact absurd hself (Nat.lt_irrefl _)
  · intro hturn
    have hmerge : x.merge w = w := by
      rcases Nat.lt_or_eq_of_le hle with hless | heq
      · refine merge_of_lt hless (Or.inl fun hdead => ?_)
        have hi := hturn hdead
        rw [key_dead hdead] at hless
        omega
      · rw [key_inj heq, merge_of_le (Nat.le_refl _)]
    rw [hmerge]
    exact mergeAll_stay fun u hu => merge_of_le (hafter u hu).le

theorem mergeAll_eq_self_iff (hv : v.state = .dead) :
    v.mergeAll us = v ↔ ∀ a ∈ us, a.state = .alive → a.incarnation ≤ v.incarnation := by
  have hvb := key_bounds v
  constructor
  · intro hsame a ha hs
    have hle := key_le_mergeAll_of_alive (v := v) ha hs
    rw [hsame, key_alive hs] at hle
    omega
  · intro hold
    refine mergeAll_stay fun u hu => ?_
    by_cases hs : u.state = .alive
    · have hi := hold u hu hs
      refine merge_of_le ?_
      rw [key_alive hs]
      omega
    · exact merge_blocked hv hs

/-- **When the greatest update alone does what the list does.** -/
theorem merge_eq_mergeAll_iff {before after : List View} (hbefore : ∀ u ∈ before, u.key ≤ w.key)
    (hafter : ∀ u ∈ after, u.key < w.key) :
    v.merge w = v.mergeAll (before ++ w :: after) ↔
      w.state = .alive ∨
      v.state = .dead ∧ (∀ a ∈ before ++ w :: after, a.state = .alive →
        a.incarnation ≤ v.incarnation) ∨
      v.state ≠ .dead ∧ ((v.mergeAll before).state = .dead →
        w.incarnation ≤ (v.mergeAll before).incarnation) := by
  have hmax : ∀ u ∈ before ++ w :: after, u.key ≤ w.key := fun u hu => by
    rcases List.mem_append.mp hu with hu | hu
    · exact hbefore u hu
    · rcases List.mem_cons.mp hu with rfl | hu
      · exact Nat.le_refl _
      · exact (hafter u hu).le
  by_cases hw : w.state = .alive
  · refine iff_of_true ?_ (Or.inl hw)
    by_cases hle : w.key ≤ v.key
    · rw [merge_of_le hle, mergeAll_stay fun u hu => merge_of_le ((hmax u hu).trans hle)]
    · have hvb := key_bounds v
      have hlt := Nat.not_le.mp hle
      rw [merge_of_lt hlt (Or.inr hw)]
      rw [key_alive hw] at hlt
      refine (mergeAll_alive hw hmax (Or.inr ⟨by omega, ?_⟩)).symm
      exact List.mem_append_right _ List.mem_cons_self
  · rw [or_iff_right hw]
    by_cases hv : v.state = .dead
    · rw [merge_blocked hv hw, or_iff_left (fun h => h.1 hv), and_iff_right hv, eq_comm]
      exact mergeAll_eq_self_iff hv
    · rw [or_iff_right (fun h => hv h.1), and_iff_right hv]
      by_cases hle : w.key ≤ v.key
      · -- nothing in the list is newer than the member
        have hstay : ∀ u ∈ before ++ w :: after, v.merge u = v := fun u hu =>
          merge_of_le ((hmax u hu).trans hle)
        rw [merge_of_le hle, mergeAll_stay hstay,
          mergeAll_stay fun u hu => hstay u (List.mem_append_left _ hu)]
        exact iff_of_true rfl fun hdead => absurd hdead hv
      · have hlt := Nat.not_le.mp hle
        rw [merge_of_lt hlt (Or.inl hv), eq_comm]
        exact mergeAll_eq_rumour_iff hw hlt hbefore hafter

/-! ## conflicts -/

/-- a rumour of failure that no `Alive` of the list outdates -/
structure Standing (us : List View) (u : View) : Prop where
  mem : u ∈ us
  rumour : u.state ≠ .alive
  newest : ∀ a ∈ us, a.state = .alive → a.incarnation ≤ u.incarnation

/-- **When the order matters**: a standing rumour is newer than a death that the member can take, or
than its own death, of which an `Alive` of the list can bring it back. -/
def Conflict (v : View) (us : List View) : Prop :=
  ∃ u, Standing us u ∧
    (v.state ≠ .dead ∧
        (∃ d ∈ us, d.state = .dead ∧ v.incarnation ≤ d.incarnation ∧ d.incarnation < u.incarnation) ∨
      v.state = .dead ∧ v.incarnation < u.incarnation ∧
        ∃ a ∈ us, a.state = .alive ∧ v.incarnation < a.incarnation)

instance (v : View) (us : List View) : Decidable (Conflict v us) :=
  decidable_of_iff
    (∃ u ∈ us, (u.state ≠ .alive ∧ ∀ a ∈ us, a.state = .alive → a.incarnation ≤ u.incarnation) ∧
      (v.state ≠ .dead ∧ (∃ d ∈ us, d.state = .dead ∧ v.incarnation ≤ d.incarnation ∧
          d.incarnation < u.incarnation) ∨
        v.state = .dead ∧ v.incarnation < u.incarnation ∧
          ∃ a ∈ us, a.state = .alive ∧ v.incarnation < a.incarnation))
    ⟨fun ⟨u, hmem, ⟨hrumour, hnewest⟩, h⟩ => ⟨u, ⟨hmem, hrumour, hnewest⟩, h⟩,
      fun ⟨u, hu, h⟩ => ⟨u, hu.mem, ⟨hu.rumour, hu.newest⟩, h⟩⟩

def Greatest (us : List View) (w : View) : Prop := w ∈ us ∧ ∀ u ∈ us, u.key ≤ w.key

theorem exists_greatest (h : us ≠ []) : ∃ w, Greatest us w := by
  obtain ⟨u, hu⟩ := List.exists_mem_of_ne_nil us h
  obtain ⟨w, hw, hmax⟩ := us.toFinset.exists_max_image key ⟨u, List.mem_toFinset.mpr hu⟩
  exact ⟨w, List.mem_toFinset.mp hw, fun x hx => hmax x (List.mem_toFinset.mpr hx)⟩

theorem Greatest.perm {us' : List View} (h : Greatest us w) (hp : us'.Perm us) : Greatest us' w :=
  ⟨hp.mem_iff.mpr h.1, fun u hu => h.2 u (hp.mem_iff.mp hu)⟩

theorem conflict_perm {us' : List View} (hp : us'.Perm us) (h : ¬ Conflict v us) :
    ¬ Conflict v us' := by
  rintro ⟨u, ⟨hmem, hrumour, hnewest⟩, hcase⟩
  refine h ⟨u, ⟨hp.mem_iff.mp hmem, hrumour, fun a ha => hnewest a (hp.mem_iff.mpr ha)⟩, ?_⟩
  rcases hcase with ⟨hv, d, hd, hrest⟩ | ⟨hv, hlt, a, ha, hrest⟩
  · exact Or.inl ⟨hv, d, hp.mem_iff.mp hd, hrest⟩
  · exact Or.inr ⟨hv, hlt, a, hp.mem_iff.mp ha, hrest⟩

theorem Greatest.standing (h : Greatest us w) (hw : w.state ≠ .alive) : Standing us w := by
  refine ⟨h.1, hw, fun a ha hs => ?_⟩
  have hle := h.2 a ha
  have hb := key_bounds w
  rw [key_alive hs] at hle
  omega

theorem Greatest.split (h : Greatest us w) : ∃ before after, us = before ++ w :: after ∧
    (∀ u ∈ before, u.key ≤ w.key) ∧ ∀ u ∈ after, u.key < w.key := by
  obtain ⟨after, before, heq, hlast⟩ := List.eq_append_cons_of_mem (List.mem_reverse.mpr h.1)
  have hus : us = before.reverse ++ w :: after.reverse := by
    rw [← List.reverse_reverse us, heq]
    simp
  refine ⟨_, _, hus, fun u hu => h.2 u ?_, fun u hu => ?_⟩
  · rw [hus]
    exact List.mem_append_left _ hu
  · have hle := h.2 u (by rw [hus]; exact List.mem_append_right _ (List.mem_cons_of_mem _ hu))
    refine Nat.lt_of_le_of_ne hle fun hkey => hlast ?_
    rw [← key_inj hkey]
    exact List.mem_reverse.mp hu

/-- **Without a conflict the greatest update alone gives the same member.** -/
theorem mergeAll_eq (h : ¬ Conflict v us) (hw : Greatest us w) : v.mergeAll us = v.merge w := by
  obtain ⟨before, after, rfl, hbefore, hafter⟩ := hw.split
  refine ((merge_eq_mergeAll_iff hbefore hafter).mpr ?_).symm
  by_cases halive : w.state = .alive
  · exact Or.inl halive
  have hstanding := hw.standing halive
  by_cases hdead : v.state = .dead
  · refine Or.inr (Or.inl ⟨hdead, fun a ha hs => Nat.not_lt.mp fun hlt => ?_⟩)
    exact h ⟨w, hstanding, Or.inr ⟨hdead, hlt.trans_le (hstanding.newest a ha hs), a, ha, hs, hlt⟩⟩
  · refine Or.inr (Or.inr ⟨hdead, fun hdeath => Nat.not_lt.mp fun hlt => ?_⟩)
    have hmem := (mergeAll_mem v before).resolve_left fun heq => hdead (heq ▸ hdeath)
    have hkey := key_le_mergeAll v before
    have hvb := key_bounds v
    rw [key_dead hdeath] at hkey
    exact h ⟨w, hstanding, Or.inl ⟨hdead, _, List.mem_append_left _ hmem, hdeath, by omega, hlt⟩⟩

/-! ## the orders of a conflict -/

theorem Conflict.greatest (h : Conflict v us) (hw : Greatest us w) :
    w.state ≠ .alive ∧ v.incarnation < w.incarnation := by
  obtain ⟨u, hu, hcase⟩ := h
  have hle := hw.2 u hu.mem
  have hub := key_of_not_alive hu.rumour
  have hwb := key_bounds w
  have hrumour : w.state ≠ .alive := by
    intro hs
    have hi := hu.newest w hw.1 hs
    rw [key_alive hs] at hle
    omega
  refine ⟨hrumour, ?_⟩
  rcases hcase with ⟨-, d, -, -, h1, h2⟩ | ⟨-, h1, -⟩
  · omega
  · omega

theorem Conflict.exists_greatest_last (h : Conflict v us) (hw : Greatest us w) :
    ∃ us', us'.Perm us ∧ v.mergeAll us' = w := by
  obtain ⟨hrumour, hnew⟩ := h.greatest hw
  have hvb := key_bounds v
  have hwb := key_bounds w
  have hstay : ∀ {l : List View}, (∀ x ∈ l, x ∈ us) → w.mergeAll l = w := fun hl =>
    mergeAll_stay fun x hx => merge_of_le (hw.2 x (hl x hx))
  have hlate : v.key < w.key := by
    have hr := key_of_not_alive hrumour
    omega
  obtain ⟨u, -, ⟨hdead, -⟩ | ⟨hdead, -, a, ha, hs, hi⟩⟩ := h
  · refine ⟨w :: us.erase w, (List.perm_cons_erase hw.1).symm, ?_⟩
    show (v.merge w).mergeAll (us.erase w) = w
    rw [merge_of_lt hlate (Or.inl hdead)]
    exact hstay fun x hx => List.mem_of_mem_erase hx
  · -- the member is dead: an `Alive` brings it back before the greatest update is heard
    have hne : w ≠ a := fun heq => hrumour (heq ▸ hs)
    have hmem : w ∈ us.erase a := (List.mem_erase_of_ne hne).mpr hw.1
    have hperm : (a :: w :: (us.erase a).erase w).Perm us :=
      ((List.perm_cons_erase hmem).symm.cons a).trans (List.perm_cons_erase ha).symm
    refine ⟨_, hperm, ?_⟩
    show ((v.merge a).merge w).mergeAll _ = w
    have hva : v.key < a.key := by
      rw [key_alive hs]
      omega
    have haw : a.key < w.key := by
      have hle := hw.2 a ha
      have hkey : a.key ≠ w.key := fun heq => hne (key_inj heq).symm
      omega
    rw [merge_of_lt hva (Or.inr hs), merge_of_lt haw (Or.inl (by rw [hs]; decide))]
    exact hstay fun x hx => List.mem_of_mem_erase (List.mem_of_mem_erase hx)

theorem mergeAll_rumours_first (hv : v.state = .dead) (us : List View) :
    ∃ us', us'.Perm us ∧ (v.mergeAll us' = v ∨ (v.mergeAll us').state = .alive) := by
  refine ⟨us.filter (·.state ≠ .alive) ++ us.filter fun u => !decide (u.state ≠ .alive),
    List.filter_append_perm _ us, ?_⟩
  have hfirst : v.mergeAll (us.filter (·.state ≠ .alive)) = v := mergeAll_stay fun u hu =>
    merge_blocked hv (of_decide_eq_true (List.mem_filter.mp hu).2)
  rw [mergeAll, List.foldl_append]
  show (v.mergeAll _).mergeAll _ = v ∨ ((v.mergeAll _).mergeAll _).state = .alive
  rw [hfirst]
  refine (mergeAll_mem v _).imp id fun hmem => ?_
  have hs := (List.mem_filter.mp hmem).2
  simpa using hs

theorem Conflict.exists_other_last (h : Conflict v us) (hw : Greatest us w) :
    ∃ us', us'.Perm us ∧ v.mergeAll us' ≠ w := by
  obtain ⟨hrumour, hnew⟩ := h.greatest hw
  have hother : ∀ {x y : View}, x = y ∨ x.state = .alive → y.incarnation < w.incarnation →
      x ≠ w := by
    rintro x y (rfl | hs) hlt rfl
    · exact absurd hlt (Nat.lt_irrefl _)
    · exact hrumour hs
  obtain ⟨u, hu, ⟨hdead, d, hd, hs, hi, hlt⟩ | ⟨hdead, -, -⟩⟩ := h
  · -- the older death is heard first
    obtain ⟨rest, hperm, hrest⟩ := mergeAll_rumours_first hs (us.erase d)
    refine ⟨d :: rest, (hperm.cons d).trans (List.perm_cons_erase hd).symm, ?_⟩
    show (v.merge d).mergeAll rest ≠ w
    have hvd : v.key < d.key := by
      have hv := key_of_not_dead hdead
      rw [key_dead hs]
      omega
    rw [merge_of_lt hvd (Or.inl hdead)]
    refine hother hrest ?_
    have hle := hw.2 u hu.mem
    have hub := key_bounds u
    have hwb := key_bounds w
    omega
  · obtain ⟨us', hperm, hrest⟩ := mergeAll_rumours_first hdead us
    exact ⟨us', hperm, hother hrest hnew⟩

end View

/-! ## members and updates -/

def Member.view (m : Member) : View := ⟨m.state, m.incarnation.toNat⟩

/-- a `Leave` is merged as a death -/
def GossipUpdate.view : GossipUpdate → View
  | .alive _ _ i _ => ⟨.alive, i.toNat⟩
  | .suspect _ _ i => ⟨.suspect, i.toNat⟩
  | .dead _ _ i => ⟨.dead, i.toNat⟩
  | .leave _ _ i => ⟨.dead, i.toNat⟩

variable {l : MembershipList} {n : NodeId} {m m' : Member} {u : GossipUpdate}
  {us us' : List GossipUpdate} {i : UInt64}

theorem GossipUpdate.view_incarnation (u : GossipUpdate) :
    u.view.incarnation = u.incarnation.toNat := by
  cases u <;> rfl

theorem view_rumour (h : i.toNat ≤ m.incarnation.toNat + 2 ^ 32) {state : NodeState}
    (hs : state ≠ .alive) :
    (if m.state ≠ .dead ∧ m.Heeds i then { m with state := state, incarnation := i }
      else m : Member).view = m.view.merge ⟨state, i.toNat⟩ := by
  have hm : m.view.incarnation = m.incarnation.toNat := rfl
  obtain ⟨r, hr⟩ : ∃ r : View, r = ⟨state, i.toNat⟩ := ⟨_, rfl⟩
  have hri : r.incarnation = i.toNat := by rw [hr]
  have hrs : r.state ≠ .alive := by rw [hr]; exact hs
  rw [← hr]
  by_cases hdead : m.state = .dead
  · rw [if_neg fun hand => hand.1 hdead,
      View.merge_blocked (show m.view.state = .dead from hdead) hrs]
  · have hlow := View.key_of_not_dead (v := m.view) hdead
    have hhigh := View.key_of_not_alive hrs
    by_cases hle : m.incarnation.toNat ≤ i.toNat
    · rw [if_pos ⟨hdead, hle, h⟩]
      by_cases hlt : m.view.key < r.key
      · rw [View.merge_of_lt hlt (Or.inl hdead), hr]
        rfl
      · have heq : m.view = r := View.key_inj (by omega)
        rw [View.merge_of_le (Nat.not_lt.mp hlt), heq, hr]
        rfl
    · rw [if_neg fun hand => hle hand.2.1, View.merge_of_le]
      have hr' := View.key_bounds r
      have hm' := View.key_bounds m.view
      omega

/-- **An update that is not too far ahead is merged by the views.** -/
theorem merge_view (h : u.incarnation.toNat ≤ m.incarnation.toNat + 2 ^ 32) :
    ∃ m', u.merge (some m) = some m' ∧ m'.view = m.view.merge u.view := by
  cases u with
  | alive n a i c =>
    refine ⟨m.alive i, rfl, ?_⟩
    replace h : i.toNat ≤ m.incarnation.toNat + 2 ^ 32 := h
    have hkey : View.key ⟨.alive, i.toNat⟩ = 3 * i.toNat := View.key_alive rfl
    have hb := View.key_bounds m.view
    have hm : m.view.incarnation = m.incarnation.toNat := rfl
    rw [Member.alive_eq]
    show Member.view _ = m.view.merge ⟨.alive, i.toNat⟩
    by_cases hlt : m.incarnation.toNat < i.toNat
    · rw [if_pos ⟨hlt, h⟩, View.merge_of_lt (by omega) (Or.inr rfl)]
      rfl
    · rw [if_neg (fun hand => hlt hand.1), View.merge_of_le (by omega)]
  | suspect n a i =>
    refine ⟨m.suspect i, rfl, ?_⟩
    rw [Member.suspect_eq]
    exact view_rumour h (by decide)
  | dead n a i | leave n a i =>
    refine ⟨m.dead i, rfl, ?_⟩
    rw [Member.dead_eq]
    exact view_rumour h (by decide)

/-! ## lists of updates about a member -/

/-- the incarnations of the updates and of the member are within `MAX_INCARNATION_JUMP` of each
other -/
def Near (m : Member) (us : List GossipUpdate) : Prop :=
  ∀ i ∈ m.incarnation :: us.map (·.incarnation), ∀ j ∈ m.incarnation :: us.map (·.incarnation),
    i.toNat ≤ j.toNat + Member.maxIncarnationJump.toNat

theorem Near.mono (h : Near m us) (hsub : us' ⊆ us) : Near m us' := by
  have hmem : ∀ {i}, i ∈ m.incarnation :: us'.map (·.incarnation) →
      i ∈ m.incarnation :: us.map (·.incarnation) := fun hi =>
    List.cons_subset_cons _ (List.map_subset _ hsub) hi
  exact fun i hi j hj => h i (hmem hi) j (hmem hj)

theorem Near.next (h : Near m (u :: us))
    (hm : m'.incarnation = m.incarnation ∨ m'.incarnation = u.incarnation) : Near m' us := by
  have hmem : ∀ {i}, i ∈ m'.incarnation :: us.map (·.incarnation) →
      i ∈ m.incarnation :: (u :: us).map (·.incarnation) := by
    intro i hi
    rcases List.mem_cons.mp hi with rfl | hi
    · rcases hm with hm | hm
      · rw [hm]
        exact List.mem_cons_self
      · rw [hm]
        exact List.mem_cons_of_mem _ List.mem_cons_self
    · exact List.mem_cons_of_mem _ (List.mem_cons_of_mem _ hi)
  exact fun i hi j hj => h i (hmem hi) j (hmem hj)

/-- **Updates about a member that the list knows, in terms of views.** -/
theorem applyAll_view (hself : l.selfId ≠ some n) (hget : l.get n = some m)
    (hus : ∀ u ∈ us, u.nodeId = n) (hnear : Near m us) :
    ∃ m', (applyAll l us).get n = some m' ∧ m'.view = m.view.mergeAll (us.map (·.view)) := by
  induction us generalizing l m with
  | nil => exact ⟨m, hget, rfl⟩
  | cons u us ih =>
    have hun := hus u List.mem_cons_self
    have hjump := hnear u.incarnation (List.mem_cons_of_mem _ List.mem_cons_self) m.incarnation
      List.mem_cons_self
    rw [Member.toNat_maxIncarnationJump] at hjump
    obtain ⟨m₁, hmerge, hview⟩ := merge_view hjump
    have hself' : l.selfId ≠ some u.nodeId := hun ▸ hself
    have hget₁ : (l.applyUpdate u).1.get n = some m₁ := by
      rw [MembershipList.get_applyUpdate hself', if_pos hun.symm, hget, hmerge]
    have hinc : m₁.incarnation = m.incarnation ∨ m₁.incarnation = u.incarnation := by
      have hcases := View.merge_cases m.view u.view
      rw [← hview] at hcases
      rcases hcases with heq | ⟨heq, -⟩
      · exact Or.inl (UInt64.toNat_inj.mp (congrArg View.incarnation heq))
      · refine Or.inr (UInt64.toNat_inj.mp ?_)
        rw [← u.view_incarnation]
        exact congrArg View.incarnation heq
    obtain ⟨m', hm', hview'⟩ := ih (l := (l.applyUpdate u).1)
      (by rw [MembershipList.applyUpdate_selfId]; exact hself) hget₁
      (fun x hx => hus x (List.mem_cons_of_mem _ hx)) (hnear.next hinc)
    exact ⟨m', hm', by rw [hview', hview]; rfl⟩

/-- two lists hold a member with the same state and incarnation -/
def Agree (l₁ l₂ : MembershipList) (n : NodeId) : Prop :=
  ∃ m₁ m₂, l₁.get n = some m₁ ∧ l₂.get n = some m₂ ∧
    m₁.state = m₂.state ∧ m₁.incarnation = m₂.incarnation

theorem agree_iff {l₁ l₂ : MembershipList} {m₁ m₂ : Member} (h₁ : l₁.get n = some m₁)
    (h₂ : l₂.get n = some m₂) : Agree l₁ l₂ n ↔ m₁.view = m₂.view := by
  constructor
  · rintro ⟨x₁, x₂, hx₁, hx₂, hstate, hinc⟩
    cases h₁.symm.trans hx₁
    cases h₂.symm.trans hx₂
    rw [Member.view, Member.view, hstate, hinc]
  · intro h
    exact ⟨m₁, m₂, h₁, h₂, congrArg View.state h,
      UInt64.toNat_inj.mp (congrArg View.incarnation h)⟩

theorem exists_perm_map {α β : Type} {f : α → β} {xs : List α} {ys : List β}
    (h : ys.Perm (xs.map f)) : ∃ xs' : List α, xs'.Perm xs ∧ xs'.map f = ys := by
  have hall : List.Forall₂ (fun y x => y = f x) (xs.map f) xs :=
    List.forall₂_map_left_iff.mpr (List.forall₂_same.mpr fun _ _ => rfl)
  obtain ⟨xs', hxs', hperm⟩ := List.perm_comp_forall₂ h hall
  refine ⟨xs', hperm, ?_⟩
  clear hall hperm h
  induction hxs' with
  | nil => rfl
  | cons hy _ ih => rw [List.map_cons, ih, hy]

/-- **Updates about a known member can be applied in every order with the same result exactly when
they do not conflict.** -/
theorem order_irrelevant_iff (hself : l.selfId ≠ some n) (hget : l.get n = some m)
    (hus : ∀ u ∈ us, u.nodeId = n) (hnear : Near m us) :
    (∀ us₁ us₂, us₁.Perm us → us₂.Perm us → Agree (applyAll l us₁) (applyAll l us₂) n) ↔
      ¬ View.Conflict m.view (us.map (·.view)) := by
  have hview : ∀ {us'}, us'.Perm us → ∃ m', (applyAll l us').get n = some m' ∧
      m'.view = m.view.mergeAll (us'.map (·.view)) := fun hp =>
    applyAll_view hself hget (fun u hu => hus u (hp.mem_iff.mp hu)) (hnear.mono hp.subset)
  constructor
  · intro hall hconflict
    have hne : us.map (·.view) ≠ [] := by
      obtain ⟨u, hu, -⟩ := hconflict
      exact List.ne_nil_of_mem hu.mem
    obtain ⟨w, hw⟩ := View.exists_greatest hne
    obtain ⟨vs₁, hvs₁, hlast₁⟩ := hconflict.exists_greatest_last hw
    obtain ⟨vs₂, hvs₂, hlast₂⟩ := hconflict.exists_other_last hw
    obtain ⟨us₁, hp₁, rfl⟩ := exists_perm_map hvs₁
    obtain ⟨us₂, hp₂, rfl⟩ := exists_perm_map hvs₂
    obtain ⟨m₁, hm₁, hv₁⟩ := hview hp₁
    obtain ⟨m₂, hm₂, hv₂⟩ := hview hp₂
    have hsame := (agree_iff hm₁ hm₂).mp (hall us₁ us₂ hp₁ hp₂)
    rw [hv₁, hv₂, hlast₁] at hsame
    exact hlast₂ hsame.symm
  · intro hfree us₁ us₂ hp₁ hp₂
    obtain ⟨m₁, hm₁, hv₁⟩ := hview hp₁
    obtain ⟨m₂, hm₂, hv₂⟩ := hview hp₂
    rw [agree_iff hm₁ hm₂, hv₁, hv₂]
    by_cases hne : us.map (·.view) = []
    · have hnil : us = [] := List.map_eq_nil_iff.mp hne
      rw [hnil] at hp₁ hp₂
      rw [hp₁.eq_nil, hp₂.eq_nil]
    · obtain ⟨w, hw⟩ := View.exists_greatest hne
      rw [View.mergeAll_eq (View.conflict_perm (hp₁.map _) hfree) (hw.perm (hp₁.map _)),
        View.mergeAll_eq (View.conflict_perm (hp₂.map _) hfree) (hw.perm (hp₂.map _))]

private def acquainted : MembershipList :=
  applyAll (MembershipList.withSelf 1 .home none) [.alive 2 .home 0 none]

private def acquaintance : Member := ⟨2, .home, .alive, 0, none⟩

private def compatible : List GossipUpdate :=
  [.suspect 2 .home 0, .alive 2 .home 1 none, .dead 2 .home 2]

private def disputed : List GossipUpdate := [.dead 2 .home 1, .suspect 2 .home 2]

private theorem near_small {us : List GossipUpdate} (h : ∀ u ∈ us, u.incarnation.toNat < 3) :
    Near acquaintance us := by
  intro i hi j _
  rw [Member.toNat_maxIncarnationJump]
  rcases List.mem_cons.mp hi with rfl | hi
  · exact Nat.zero_le _
  · obtain ⟨u, hu, rfl⟩ := List.mem_map.mp hi
    have hlt := h u hu
    omega

theorem order_irrelevant_compatible :
    acquainted.get 2 = some acquaintance ∧ Near acquaintance compatible ∧
      ¬ View.Conflict acquaintance.view (compatible.map (·.view)) ∧
      ∀ us₁ us₂, us₁.Perm compatible → us₂.Perm compatible →
        Agree (applyAll acquainted us₁) (applyAll acquainted us₂) 2 := by
  have hget : acquainted.get 2 = some acquaintance := by decide
  have hnear : Near acquaintance compatible := near_small (by decide)
  have hfree : ¬ View.Conflict acquaintance.view (compatible.map (·.view)) := by decide
  exact ⟨hget, hnear, hfree,
    (order_irrelevant_iff (by decide) hget (by decide) hnear).mpr hfree⟩

/-- a death heard before a newer suspicion stays; heard after it, the death is too old -/
theorem order_matters :
    acquainted.selfId ≠ some 2 ∧ acquainted.get 2 = some acquaintance ∧
      Near acquaintance disputed ∧ disputed.reverse.Perm disputed ∧
      ((applyAll acquainted disputed).get 2).map Member.view = some ⟨.dead, 1⟩ ∧
      ((applyAll acquainted disputed.reverse).get 2).map Member.view = some ⟨.suspect, 2⟩ :=
  ⟨by decide, by decide, near_small (by decide), List.reverse_perm _, by decide, by decide⟩

/-! ## what the queue keeps -/

theorem GossipUpdate.key_view (u : GossipUpdate) :
    u.view.key = 3 * u.incarnation.toNat + u.precedence := by
  rw [View.key, u.view_incarnation]
  cases u <;> rfl

theorem GossipUpdate.precedence_le (u : GossipUpdate) : u.precedence ≤ 2 := by
  cases u <;> simp [GossipUpdate.precedence]

theorem supersedes_iff (u other : GossipUpdate) :
    u.supersedes other = true ↔ other.view.key ≤ u.view.key := by
  have hu := u.precedence_le
  have hother := other.precedence_le
  have hcompare : compare u.incarnation other.incarnation
      = compareOfLessAndEq u.incarnation other.incarnation := rfl
  rw [u.key_view, other.key_view, GossipUpdate.supersedes, hcompare]
  unfold compareOfLessAndEq
  by_cases hlt : u.incarnation < other.incarnation
  · rw [if_pos hlt]
    rw [UInt64.lt_iff_toNat_lt] at hlt
    exact iff_of_false Bool.false_ne_true (by omega)
  · rw [if_neg hlt]
    rw [UInt64.lt_iff_toNat_lt] at hlt
    by_cases heq : u.incarnation = other.incarnation
    · rw [if_pos heq, decide_eq_true_iff, heq]
      omega
    · rw [if_neg heq]
      rw [← UInt64.toNat_inj] at heq
      exact iff_of_true rfl (by omega)

def GossipQueue.addAll (o : Order NodeId) (q : GossipQueue) (us : List GossipUpdate) :
    GossipQueue :=
  us.foldl (fun q u => q.add o u) q

variable {o : Order NodeId} {q : GossipQueue}

/-- the place in a sequence of the update that a queue keeps: it supersedes the updates before it,
and none after it supersedes it -/
structure Kept (us before : List GossipUpdate) (kept : GossipUpdate)
    (after : List GossipUpdate) : Prop where
  split : us = before ++ kept :: after
  newest : ∀ u ∈ before, kept.supersedes u = true
  last : ∀ u ∈ after, u.supersedes kept = false

variable {before after : List GossipUpdate} {kept : GossipUpdate}

theorem exists_kept (h : us ≠ []) : ∃ before kept after, Kept us before kept after := by
  induction us with
  | nil => exact absurd rfl h
  | cons u us ih =>
    by_cases hne : us = []
    · subst hne
      exact ⟨[], u, [], rfl, by simp, by simp⟩
    · obtain ⟨before, kept, after, rfl, hover, hlast⟩ := ih hne
      by_cases hu : kept.supersedes u = true
      · refine ⟨u :: before, kept, after, rfl, fun x hx => ?_, hlast⟩
        rcases List.mem_cons.mp hx with rfl | hx
        · exact hu
        · exact hover x hx
      · -- `u` is above the greatest of the others
        refine ⟨[], u, _, rfl, by simp, fun x hx => ?_⟩
        rw [supersedes_iff] at hu
        rw [Bool.eq_false_iff, Ne, supersedes_iff]
        rcases List.mem_append.mp hx with hx | hx
        · have hle := (supersedes_iff _ _).mp (hover x hx)
          omega
        · rcases List.mem_cons.mp hx with rfl | hx
          · exact hu
          · have hlt := hlast x hx
            rw [Bool.eq_false_iff, Ne, supersedes_iff] at hlt
            omega

theorem addAll_last {p : PendingUpdate} (hp : q.pending.lookup n = some p)
    (hus : ∀ u ∈ us, u.nodeId = n) (hlast : ∀ u ∈ us, u.supersedes p.update = false) :
    q.addAll o us = q := by
  induction us with
  | nil => rfl
  | cons u us ih =>
    have hun := hus u List.mem_cons_self
    subst hun
    have hrefused := (GossipQueue.accepts_some hp).trans (hlast u List.mem_cons_self)
    show (q.add o u).addAll o us = q
    rw [GossipQueue.add_of_not_accepts hrefused]
    exact ih (fun x hx => hus x (List.mem_cons_of_mem _ hx))
      fun x hx => hlast x (List.mem_cons_of_mem _ hx)

theorem addAll_from (hq : q.pending.lookup n = none) (hus : ∀ u ∈ us, u.nodeId = n) :
    (q.addAll o us).pending.lookup n = none ∨
      ∃ p, (q.addAll o us).pending.lookup n = some p ∧ p.update ∈ us := by
  induction us using List.reverseRecOn with
  | nil => exact Or.inl hq
  | append_singleton us u ih =>
    have hun := hus u (List.mem_append_right _ List.mem_cons_self)
    subst hun
    have hadd : q.addAll o (us ++ [u]) = (q.addAll o us).add o u := List.foldl_concat ..
    rw [hadd]
    cases haccepts : (q.addAll o us).accepts u with
    | true =>
      exact Or.inr ⟨_, GossipQueue.lookup_add_self haccepts,
        List.mem_append_right _ List.mem_cons_self⟩
    | false =>
      rw [GossipQueue.add_of_not_accepts haccepts]
      rcases ih fun x hx => hus x (List.mem_append_left _ hx) with hnone | ⟨p, hp, hmem⟩
      · exact Or.inl hnone
      · exact Or.inr ⟨p, hp, List.mem_append_left _ hmem⟩

/-- **The queue keeps the update at that place.** -/
theorem Kept.pending (h : Kept us before kept after) (hq : q.pending.lookup n = none)
    (hus : ∀ u ∈ us, u.nodeId = n) :
    ∃ p, (q.addAll o us).pending.lookup n = some p ∧ p.update = kept := by
  obtain ⟨rfl, hover, hlast⟩ := h
  have hkn := hus kept (List.mem_append_right _ List.mem_cons_self)
  subst hkn
  have haccepts : (q.addAll o before).accepts kept = true := by
    rcases addAll_from (o := o) hq fun x hx => hus x (List.mem_append_left _ hx) with
      hnone | ⟨p, hp, hmem⟩
    · exact GossipQueue.accepts_none hnone
    · exact (GossipQueue.accepts_some hp).trans (hover _ hmem)
  have hstored := GossipQueue.lookup_add_self (o := o) haccepts
  have hsplit : q.addAll o (before ++ kept :: after)
      = ((q.addAll o before).add o kept).addAll o after := List.foldl_append
  rw [hsplit, addAll_last hstored
    (fun x hx => hus x (List.mem_append_right _ (List.mem_cons_of_mem _ hx))) hlast]
  exact ⟨_, hstored, rfl⟩

/-- the list after the one update about the node that the queue keeps, if there is one -/
def applyKept (l : MembershipList) (n : NodeId) (q : GossipQueue) : MembershipList :=
  match q.pending.lookup n with
  | some p => (l.applyUpdate p.update).1
  | none => l

theorem applyKept_view (h : Kept us before kept after) (hself : l.selfId ≠ some n)
    (hget : l.get n = some m) (hus : ∀ u ∈ us, u.nodeId = n) (hnear : Near m us)
    (hq : q.pending.lookup n = none) :
    ∃ m', (applyKept l n (q.addAll o us)).get n = some m' ∧ m'.view = m.view.merge kept.view := by
  have hmem : kept ∈ us := h.split ▸ List.mem_append_right _ List.mem_cons_self
  obtain ⟨p, hp, rfl⟩ := h.pending (o := o) hq hus
  have hjump := hnear p.update.incarnation
    (List.mem_cons_of_mem _ (List.mem_map_of_mem hmem)) m.incarnation List.mem_cons_self
  rw [Member.toNat_maxIncarnationJump] at hjump
  obtain ⟨m', hmerge, hm'⟩ := merge_view hjump
  have hun := hus p.update hmem
  refine ⟨m', ?_, hm'⟩
  rw [applyKept, hp]
  dsimp only
  rw [MembershipList.get_applyUpdate (hun ▸ hself), if_pos hun.symm, hget, hmerge]

/-- the kept update finds the member as the others leave it: it is an `Alive`; or the member is dead
at first and no `Alive` of the sequence is newer; or it is live at first and not dead, of an older
incarnation, when the turn of the kept update comes -/
def Unhindered (l : MembershipList) (m : Member) (us before : List GossipUpdate)
    (kept : GossipUpdate) : Prop :=
  kept.view.state = .alive ∨
  m.state = .dead ∧ (∀ u ∈ us, u.view.state = .alive → u.incarnation ≤ m.incarnation) ∨
  m.state ≠ .dead ∧ ∀ x, (applyAll l before).get kept.nodeId = some x → x.state = .dead →
    kept.incarnation ≤ x.incarnation

theorem unhindered_iff (h : Kept us before kept after) (hself : l.selfId ≠ some n)
    (hget : l.get n = some m) (hus : ∀ u ∈ us, u.nodeId = n) (hnear : Near m us) :
    Unhindered l m us before kept ↔ m.view.merge kept.view = m.view.mergeAll (us.map (·.view)) := by
  obtain ⟨rfl, hover, hlast⟩ := h
  have hkn := hus kept (List.mem_append_right _ List.mem_cons_self)
  obtain ⟨x, hx, hview⟩ := applyAll_view hself hget
    (fun u hu => hus u (List.mem_append_left _ hu)) (hnear.mono (List.subset_append_left ..))
  rw [List.map_append, List.map_cons, View.merge_eq_mergeAll_iff
    (fun v hv => by
      obtain ⟨u, hu, rfl⟩ := List.mem_map.mp hv
      exact (supersedes_iff _ _).mp (hover u hu))
    (fun v hv => by
      obtain ⟨u, hu, rfl⟩ := List.mem_map.mp hv
      have hlt := hlast u hu
      rw [Bool.eq_false_iff, Ne, supersedes_iff] at hlt
      exact Nat.not_le.mp hlt)]
  refine or_congr Iff.rfl (or_congr (and_congr Iff.rfl ?_) (and_congr Iff.rfl ?_))
  · rw [← List.map_cons, ← List.map_append]
    constructor
    · intro hold a ha hs
      obtain ⟨u, hu, rfl⟩ := List.mem_map.mp ha
      rw [u.view_incarnation]
      exact UInt64.le_iff_toNat_le.mp (hold u hu hs)
    · intro hold u hu hs
      have hle := hold u.view (List.mem_map_of_mem hu) hs
      rw [u.view_incarnation] at hle
      exact UInt64.le_iff_toNat_le.mpr hle
  · rw [← hview, hkn, kept.view_incarnation]
    constructor
    · intro hturn hs
      exact UInt64.le_iff_toNat_le.mp (hturn x hx hs)
    · intro hturn y hy hs
      cases hx.symm.trans hy
      exact UInt64.le_iff_toNat_le.mpr (hturn hs)

/-- **Coalescing a sequence in an empty queue agrees with applying its updates one by one exactly
when the kept update is unhindered.** -/
theorem coalesced_iff (hself : l.selfId ≠ some n) (hget : l.get n = some m)
    (hus : ∀ u ∈ us, u.nodeId = n) (hnear : Near m us) (hq : q.pending = ∅) :
    Agree (applyKept l n (q.addAll o us)) (applyAll l us) n ↔
      us = [] ∨ ∃ before kept after, Kept us before kept after ∧
        ((q.addAll o us).pending.lookup n).map (·.update) = some kept ∧
        Unhindered l m us before kept := by
  have hempty : q.pending.lookup n = none := by
    rw [hq]
    rfl
  obtain ⟨m₂, hm₂, hv₂⟩ := applyAll_view hself hget hus hnear
  have hagree : ∀ {before kept after}, Kept us before kept after →
      (Agree (applyKept l n (q.addAll o us)) (applyAll l us) n ↔ Unhindered l m us before kept) := by
    intro before kept after h
    obtain ⟨m₁, hm₁, hv₁⟩ := applyKept_view (o := o) h hself hget hus hnear hempty
    rw [agree_iff hm₁ hm₂, hv₁, hv₂, unhindered_iff h hself hget hus hnear]
  by_cases hne : us = []
  · subst hne
    refine iff_of_true ?_ (Or.inl rfl)
    have hkept : applyKept l n (q.addAll o []) = l := by
      show (match q.pending.lookup n with
        | some p => (l.applyUpdate p.update).1
        | none => l) = l
      rw [hempty]
    rw [hkept]
    exact ⟨m, m, hget, hget, rfl, rfl⟩
  · rw [or_iff_right hne]
    constructor
    · intro h
      obtain ⟨before, kept, after, hk⟩ := exists_kept hne
      obtain ⟨p, hp, rfl⟩ := hk.pending (o := o) hempty hus
      exact ⟨before, p.update, after, hk, by rw [hp]; rfl, (hagree hk).mp h⟩
    · rintro ⟨before, kept, after, hk, -, h⟩
      exact (hagree hk).mpr h

private theorem mended : Kept disputed.reverse [] (.suspect 2 .home 2) [.dead 2 .home 1] :=
  ⟨rfl, by simp, by decide⟩

/-- the suspicion before the older death, of which the other order is the counterexample below -/
theorem coalesced_reversed :
    acquainted.get 2 = some acquaintance ∧ Near acquaintance disputed.reverse ∧
      Agree (applyKept acquainted 2 (GossipQueue.new.addAll .stored disputed.reverse))
        (applyAll acquainted disputed.reverse) 2 := by
  have hget : acquainted.get 2 = some acquaintance := by decide
  have hnear : Near acquaintance disputed.reverse := near_small (by decide)
  have hturn : Unhindered acquainted acquaintance disputed.reverse [] (.suspect 2 .home 2) := by
    refine Or.inr (Or.inr ⟨by decide, fun x hx => ?_⟩)
    cases hget.symm.trans hx
    exact fun h => absurd h (by decide)
  exact ⟨hget, hnear, (coalesced_iff (by decide) hget (by decide) hnear rfl).mpr
    (Or.inr ⟨_, _, _, mended, by decide, hturn⟩)⟩

/-- the queue keeps the newer suspicion, which a member that heard of the death does not take -/
theorem coalescing_forgets_death :
    acquainted.selfId ≠ some 2 ∧ acquainted.get 2 = some acquaintance ∧
      Near acquaintance disputed ∧
      ((applyKept acquainted 2 (GossipQueue.new.addAll .stored disputed)).get 2).map Member.view
        = some ⟨.suspect, 2⟩ ∧
      ((applyAll acquainted disputed).get 2).map Member.view = some ⟨.dead, 1⟩ :=
  ⟨by decide, by decide, near_small (by decide), by decide, by decide⟩

end Rebar.Swim

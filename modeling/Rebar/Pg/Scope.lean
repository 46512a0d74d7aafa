import Rebar.Lib.Calls
import Rebar.Lib.HashMap
import Rebar.Lib.Vec
import Rebar.Process.Types

/-!
# Process groups

The model of `pg/scope.rs`, with each operation on the map of groups as a step.  `remove_pid` removes a group
that it has emptied only if it is still empty; `leave` drops its guard and removes the group whatever it holds
by then, so a `join` in between is lost.
-/

namespace Rebar.Pg
open Machine

structure PgScope where
  groups : HashMap String (List ProcessId)

inductive PgError where
  | notJoined

namespace PgScope

def getMembers (scope : PgScope) (group : String) : List ProcessId :=
  (scope.groups.lookup group).getD []

def setMembers (scope : PgScope) (group : String) (members : List ProcessId) : PgScope :=
  ⟨scope.groups.insert group members⟩

def remove (scope : PgScope) (group : String) : PgScope := ⟨scope.groups.erase group⟩

/-- `leave` under its guard: the members that are left -/
def leaveGroup (scope : PgScope) (group : String) (pid : ProcessId) : Except PgError (List ProcessId) :=
  match scope.groups.lookup group with
  | none => .error .notJoined
  | some members =>
    match members.findIdx? (· == pid) with
    | some pos => .ok (swapRemove members pos)
    | none => .error .notJoined

end PgScope

/-- what was done to the memberships -/
inductive Note where
  | joined (group : String) (pids : List ProcessId)
  | left (group : String) (pid : ProcessId)
  /-- a `remove_pid` has visited the group -/
  | removed (group : String) (pid : ProcessId)
deriving DecidableEq

/-- a scope and its notes, the last one first -/
structure Noted where
  scope : PgScope
  log : List Note

inductive PgCall where
  | joinMany (group : String) (pids : List ProcessId)
  | leave (group : String) (pid : ProcessId)
  /-- `leave` has emptied the group and dropped the guard -/
  | dropGroup (group : String)
  /-- `remove_pid`, with the groups its iterator comes to, which the shards and the other calls decide -/
  | visit (pid : ProcessId) (groups emptyGroups : List String)
  | removeEmpty (emptyGroups : List String)
deriving DecidableEq

def join (group : String) (pid : ProcessId) : PgCall := .joinMany group [pid]

def removePid (pid : ProcessId) (groups : List String) : PgCall := .visit pid groups []

def PgCall.step (s : Noted) : PgCall → Noted × Option PgCall
  | .joinMany group pids =>
    (⟨s.scope.setMembers group (s.scope.getMembers group ++ pids), .joined group pids :: s.log⟩, none)
  | .leave group pid =>
    match s.scope.leaveGroup group pid with
    | .error _ => (s, none)
    | .ok members => (⟨s.scope.setMembers group members, .left group pid :: s.log⟩,
        if members = [] then some (.dropGroup group) else none)
  | .dropGroup group => (⟨s.scope.remove group, s.log⟩, none)
  | .visit _ [] emptyGroups => (s, some (.removeEmpty emptyGroups))
  | .visit pid (group :: groups) emptyGroups =>
    match s.scope.groups.lookup group with
    | none => (s, some (.visit pid groups emptyGroups))
    | some members => (⟨s.scope.setMembers group (members.filter (· ≠ pid)), .removed group pid :: s.log⟩,
        some (.visit pid groups
          (if members.filter (· ≠ pid) = [] then emptyGroups ++ [group] else emptyGroups)))
  | .removeEmpty [] => (s, none)
  | .removeEmpty (group :: groups) =>
    (if s.scope.groups.lookup group = some [] then ⟨s.scope.remove group, s.log⟩ else s,
      some (.removeEmpty groups))

def PgCall.opens : PgCall → Bool
  | .joinMany _ _ => true
  | .leave _ _ => true
  | .visit _ _ [] => true
  | _ => false

def PgCall.drops : PgCall → Option String
  | .dropGroup group => some group
  | _ => none

def pgMachine : Machine (Calls Noted PgCall) (Calls.Label PgCall) :=
  Calls.machine PgCall.opens PgCall.step (· = ⟨⟨∅⟩, []⟩)

/-- the memberships by the notes: a join adds, a successful leave takes one away, a visit takes all -/
def memberships (group : String) (pid : ProcessId) : List Note → Nat
  | [] => 0
  | .joined g pids :: log => memberships group pid log + if g = group then pids.count pid else 0
  | .left g p :: log => memberships group pid log - if g = group ∧ p = pid then 1 else 0
  | .removed g p :: log => if g = group ∧ p = pid then 0 else memberships group pid log

/-- every process is in every group as often as the notes say -/
def Noted.Exact (s : Noted) : Prop :=
  ∀ group pid, (s.scope.getMembers group).count pid = memberships group pid s.log

/-- a `leave` that is about to remove the group it has emptied finds it still empty -/
def Undisturbed (s : Calls Noted PgCall) : Calls.Label PgCall → Prop
  | .advance i => ∀ call ∈ s.calls[i]?, ∀ group ∈ call.drops, s.shared.scope.getMembers group = []
  | .invoke _ => True

/-! ## one operation -/

variable {scope : PgScope} {group g : String} {pid p : ProcessId} {members : List ProcessId}

theorem getMembers_setMembers : (scope.setMembers group members).getMembers g
    = if g = group then members else scope.getMembers g := by
  unfold PgScope.setMembers PgScope.getMembers
  rw [HashMap.lookup_insert_if]
  split <;> rfl

/-- an empty group may as well be removed -/
theorem getMembers_remove (h : scope.getMembers group = []) :
    (scope.remove group).getMembers g = scope.getMembers g := by
  unfold PgScope.remove PgScope.getMembers
  rw [HashMap.lookup_erase_if]
  split
  next hg => rw [hg]; exact h.symm
  next => rfl

theorem perm_of_leaveGroup (h : scope.leaveGroup group pid = .ok members) :
    (scope.getMembers group).Perm (pid :: members) := by
  unfold PgScope.leaveGroup at h
  cases hm : scope.groups.lookup group with
  | none => rw [hm] at h; cases h
  | some old =>
    rw [hm] at h
    dsimp only at h
    split at h
    next pos hpos =>
      cases h
      obtain ⟨hlt, hpid, -⟩ := List.findIdx?_eq_some_iff_getElem.mp hpos
      have hget : old[pos]? = some pid := by
        rw [List.getElem?_eq_getElem hlt, beq_iff_eq.mp hpid]
      show (Option.getD (scope.groups.lookup group) []).Perm _
      rw [hm]
      exact (perm_cons_eraseIdx hget).trans ((swapRemove_perm hlt).symm.cons pid)
    next => cases h

variable {s : Noted} {call : PgCall}

/-- an operation does to the members what its note says -/
theorem Noted.Exact.step (hexact : s.Exact)
    (hdrop : ∀ group ∈ call.drops, s.scope.getMembers group = []) : (call.step s).1.Exact := by
  intro g p
  have h := hexact g p
  cases call with
  | joinMany group pids =>
    show (((s.scope.setMembers group _).getMembers g).count p) = memberships g p s.log + _
    rw [getMembers_setMembers, ← h]
    by_cases hg : g = group
    · rw [if_pos hg, if_pos hg.symm, List.count_append, hg]
    · rw [if_neg hg, if_neg (Ne.symm hg), Nat.add_zero]
  | leave group pid =>
    rw [PgCall.step]
    split
    next => exact h
    next members hleave =>
      show ((s.scope.setMembers group members).getMembers g).count p = memberships g p s.log - _
      rw [getMembers_setMembers, ← h]
      by_cases hg : g = group
      · subst hg
        rw [if_pos rfl, (perm_of_leaveGroup hleave).count_eq, List.count_cons]
        simp
      · simp [hg, Ne.symm hg]
  | dropGroup group =>
    show ((s.scope.remove group).getMembers g).count p = _
    rw [getMembers_remove (hdrop group rfl)]
    exact h
  | visit pid groups emptyGroups =>
    cases groups with
    | nil => exact h
    | cons group groups =>
      rw [PgCall.step]
      split
      next => exact h
      next members hm =>
        show ((s.scope.setMembers group _).getMembers g).count p = if _ then 0 else memberships g p s.log
        rw [getMembers_setMembers, ← h]
        by_cases hg : g = group
        · subst hg
          rw [if_pos rfl, PgScope.getMembers, hm]
          by_cases hp : pid = p
          · simp [hp, List.count_eq_zero]
          · simp [hp, List.count_filter, Ne.symm hp]
        · simp [hg, Ne.symm hg]
  | removeEmpty groups =>
    cases groups with
    | nil => exact h
    | cons group groups =>
      rw [PgCall.step]
      split
      next hempty =>
        show ((s.scope.remove group).getMembers g).count p = _
        rw [getMembers_remove (by rw [PgScope.getMembers, hempty]; rfl)]
        exact h
      next => exact h

/-- with a group that is removed its members are gone, and no note says so -/
theorem empty_of_exact (h : s.Exact) (ht : (PgCall.step s (.dropGroup group)).1.Exact) :
    s.scope.getMembers group = [] := by
  refine List.eq_nil_iff_forall_not_mem.mpr fun pid hpid => ?_
  have hnone : (s.scope.remove group).getMembers group = [] := by
    rw [PgScope.remove, PgScope.getMembers, HashMap.lookup_erase_if, if_pos rfl]
    rfl
  have hzero : ((s.scope.remove group).getMembers group).count pid = memberships group pid s.log :=
    ht group pid
  rw [hnone, ← h group pid] at hzero
  exact List.count_eq_zero.mp hzero.symm hpid

/-! ## every run -/

/-- **No membership is lost**: a process is in a group as often as the joins, leaves and removals say, in every
interleaving in which each `leave` that removes a group finds it still empty.  The first one that does not
loses a membership. -/
theorem memberships_exact (s : Calls Noted PgCall) (h : pgMachine.Reach Undisturbed s) :
    s.shared.Exact ∧ ∀ a t, pgMachine.next s a = some t → (t.shared.Exact ↔ Undisturbed s a) := by
  have hstep : ∀ {s a t}, Noted.Exact s.shared → pgMachine.next s a = some t →
      (Noted.Exact t.shared ↔ Undisturbed s a) := by
    intro s a t hs hn
    rcases Calls.next_cases hn with ⟨call, rfl, -, rfl⟩ | ⟨i, call, rfl, hi, rfl⟩
    · exact ⟨fun _ => trivial, fun _ => hs⟩
    · refine ⟨fun ht call' hcall group hgroup => ?_, fun hok => hs.step (hok call hi)⟩
      cases hi.symm.trans hcall
      cases call with
      | dropGroup g =>
        cases hgroup
        exact empty_of_exact hs ht
      | joinMany | leave | visit | removeEmpty => cases hgroup
  have hexact : s.shared.Exact := by
    refine h.inv (I := fun s => s.shared.Exact) (fun s hs => ?_)
      fun s a t hs hok hn => (hstep hs hn).mpr hok
    rw [hs.1]
    exact fun g p => rfl
  exact ⟨hexact, fun a t hn => hstep hexact hn⟩

instance (s : Calls Noted PgCall) : ∀ a, Decidable (Undisturbed s a)
  | .advance _ => inferInstanceAs (Decidable (∀ _ ∈ _, _))
  | .invoke _ => inferInstanceAs (Decidable True)

/-- the calls one after another, with so many operations each -/
private def inTurn (calls : List (PgCall × Nat)) : List (Calls.Label PgCall) :=
  calls.flatMap fun c => .invoke c.1 :: .replicate c.2 (.advance 0)

theorem memberships_exact_rejoined : ∃ s, pgMachine.Reach Undisturbed s ∧ s.calls = [] ∧
    s.shared.scope.getMembers "g" = [⟨1, 2⟩] ∧
    (s.shared.scope.getMembers "g").count ⟨1, 2⟩ = memberships "g" ⟨1, 2⟩ s.shared.log := by
  have hstart : pgMachine.Reach Undisturbed ⟨⟨⟨∅⟩, []⟩, []⟩ := .start ⟨rfl, rfl⟩
  obtain ⟨s, hs, hcalls, hmembers⟩ := hstart.exists_checked (inTurn [(join "g" ⟨1, 1⟩, 1),
      (.leave "g" ⟨1, 1⟩, 2), (.joinMany "g" [⟨1, 1⟩, ⟨1, 2⟩], 1), (removePid ⟨1, 1⟩ ["g"], 3)])
    (p := fun s => s.calls = [] ∧ s.shared.scope.getMembers "g" = [⟨1, 2⟩]) (by decide)
  exact ⟨s, hs, hcalls, hmembers, (memberships_exact s hs).1 "g" ⟨1, 2⟩⟩

/-- 1.1 has left the group and is about to remove it when 1.2 joins -/
theorem join_lost : ∃ s, pgMachine.Reach Anytime s ∧ s.calls = [] ∧
    s.shared.log = [.joined "g" [⟨1, 2⟩], .left "g" ⟨1, 1⟩, .joined "g" [⟨1, 1⟩]] ∧
    memberships "g" ⟨1, 2⟩ s.shared.log = 1 ∧ s.shared.scope.getMembers "g" = [] := by
  have hstart : pgMachine.Reach Anytime ⟨⟨⟨∅⟩, []⟩, []⟩ := .start ⟨rfl, rfl⟩
  exact hstart.exists_run (inTurn [(join "g" ⟨1, 1⟩, 1), (.leave "g" ⟨1, 1⟩, 1)] ++
    [.invoke (join "g" ⟨1, 2⟩), .advance 1, .advance 0]) (by decide)

end Rebar.Pg

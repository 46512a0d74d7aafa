import Rebar.Lib.Links
import Rebar.Process.Names

/-!
# Names and the processes that hold them

Registrations, takeovers, removals and deaths at the same time, over all interleavings of their
operations.

* `registryMachine`   the runs of the name registry;
* `Covered`           the invariant: a name is on the list of the process it points to, or some call
                      is about to put it there or to remove the name.

A takeover releases the list of the process that held the name after it has changed the name; by
then the name may be back with that process.
-/

namespace Rebar.Process

open ProcessTable

def NameCall.advance (t : ProcessTable) (call : NameCall) : ProcessTable × Option NameCall :=
  match call.step t with
  | (t, .next call) => (t, some call)
  | (t, .returned _) => (t, none)

def NameCall.opens : NameCall → Bool
  | .check _ _ _ => true
  | .forget _ => true
  | .remove _ => true
  | _ => false

def Unnamed (t : ProcessTable) : Prop := t.names = ∅ ∧ t.namesByPid = ∅

abbrev Registrations := Calls ProcessTable NameCall

def registryMachine : Machine Registrations (Calls.Label NameCall) :=
  Calls.machine NameCall.opens NameCall.advance Unnamed

/-! ## lists of names -/

def ProcessTable.listed (t : ProcessTable) (pid : ProcessId) : List String :=
  (t.namesByPid.lookup pid).getD []

variable {t : ProcessTable} {name n : String} {pid p : ProcessId}

theorem ProcessTable.listed_unlist (t : ProcessTable) (name : String) (pid p : ProcessId) :
    (t.unlist name pid).listed p
      = if p = pid then (t.listed p).filter (· ≠ name) else t.listed p :=
  HashMap.getD_modify t.namesByPid pid p _ rfl

theorem ProcessTable.mem_listed_unlist (h : n ∈ t.listed p) (hne : ¬ (n = name ∧ p = pid)) :
    n ∈ (t.unlist name pid).listed p := by
  rw [listed_unlist]
  by_cases hp : p = pid
  · rw [if_pos hp]
    refine List.mem_filter.mpr ⟨h, decide_eq_true fun hn => hne ⟨hn, hp⟩⟩
  · rw [if_neg hp]
    exact h

theorem ProcessTable.lookup_removeName (t : ProcessTable) (name n : String) (pid : ProcessId) :
    (t.removeName name pid).names.lookup n
      = if n = name ∧ t.names.lookup n = some pid then none else t.names.lookup n := by
  unfold ProcessTable.removeName
  by_cases hold : t.names.lookup name = some pid
  · rw [if_pos hold]
    show (t.names.erase name).lookup n = _
    rw [HashMap.lookup_erase_if]
    by_cases hn : n = name
    · rw [if_pos hn, if_pos ⟨hn, hn ▸ hold⟩]
    · rw [if_neg hn, if_neg fun h => hn h.1]
  · rw [if_neg hold]
    by_cases hn : n = name ∧ t.names.lookup n = some pid
    · exact absurd (hn.1 ▸ hn.2) hold
    · rw [if_neg hn]

/-! ## what the calls in progress will do -/

def NameCall.Lists (name : String) (pid : ProcessId) : NameCall → Prop
  | .release n p _ => n = name ∧ p = pid
  | .push n p => n = name ∧ p = pid
  | _ => False

/-- the call has given the name to the process and will look again whether it is alive -/
def NameCall.Owns (name : String) (pid : ProcessId) : NameCall → Prop
  | .release n p _ => n = name ∧ p = pid
  | .push n p => n = name ∧ p = pid
  | .recheck n p => n = name ∧ p = pid
  | .undoName n p => n = name ∧ p = pid
  | _ => False

def NameCall.Carries (name : String) (pid : ProcessId) : NameCall → Prop
  | .removeNames p names => p = pid ∧ name ∈ names
  | _ => False

def NameCall.Mourns (pid : ProcessId) : NameCall → Prop
  | .undoName _ p => p = pid
  | .undoList _ p => p = pid
  | .takeList p => p = pid
  | .removeNames p _ => p = pid
  | _ => False

theorem NameCall.Lists.owns {call : NameCall} (h : call.Lists name pid) : call.Owns name pid := by
  cases call with
  | release n p old => exact h
  | push n p => exact h
  | _ => exact h.elim

def nameLinks : Links ProcessTable NameCall (String × ProcessId) where
  points := fun t x => t.names.lookup x.1 = some x.2
  alive := fun t x => x.2 ∈ t.processes
  listed := fun t x => x.1 ∈ t.listed x.2
  lists := fun call x => call.Lists x.1 x.2
  owns := fun call x => call.Owns x.1 x.2
  takes := fun call x => call = .takeList x.2
  carries := fun call x => call.Carries x.1 x.2
  owns_of_lists := fun h => h.owns

/-! ## the condition -/

/-- the name does not need its place on the list of the process: it points elsewhere, or it is not on
the list, or a registration in progress will list it (if the process is dead: will look at it) again -/
def Spare (s : Registrations) (name : String) (pid : ProcessId) : Prop :=
  s.shared.names.lookup name = some pid → name ∈ s.shared.listed pid →
    (pid ∈ s.shared.processes → ∃ call ∈ s.calls, call.Lists name pid) ∧
    (pid ∉ s.shared.processes → ∃ call ∈ s.calls, call.Owns name pid)

def NameCall.Harmless (s : Registrations) : NameCall → Prop
  | .release name _ old => Spare s name old
  | .forgetList name old => Spare s name old
  | _ => True

def Undisturbed (s : Registrations) : Calls.Label NameCall → Prop
  | .advance i => ∀ call ∈ s.calls[i]?, call.Harmless s
  | .invoke _ => True

instance : DecidablePred (NameCall.Lists name pid)
  | .release n p _ | .push n p => inferInstanceAs (Decidable (n = name ∧ p = pid))
  | .check _ _ _ | .enter _ _ _ | .recheck _ _ | .undoName _ _ | .undoList _ _ | .undoEmpty _
  | .forget _ | .forgetList _ _ | .remove _ | .takeList _ | .removeNames _ _ =>
    inferInstanceAs (Decidable False)

instance : DecidablePred (NameCall.Owns name pid)
  | .release n p _ | .push n p | .recheck n p | .undoName n p =>
    inferInstanceAs (Decidable (n = name ∧ p = pid))
  | .check _ _ _ | .enter _ _ _ | .undoList _ _ | .undoEmpty _ | .forget _ | .forgetList _ _
  | .remove _ | .takeList _ | .removeNames _ _ => inferInstanceAs (Decidable False)

instance (s : Registrations) : Decidable (Spare s name pid) :=
  inferInstanceAs (Decidable (_ → _ → _ ∧ _))

instance (s : Registrations) : DecidablePred (NameCall.Harmless s)
  | .release n _ p | .forgetList n p => inferInstanceAs (Decidable (Spare s n p))
  | .check _ _ _ | .enter _ _ _ | .push _ _ | .recheck _ _ | .undoName _ _ | .undoList _ _
  | .undoEmpty _ | .forget _ | .remove _ | .takeList _ | .removeNames _ _ =>
    inferInstanceAs (Decidable True)

instance (s : Registrations) : DecidablePred (Undisturbed s)
  | .advance i => inferInstanceAs (Decidable (∀ call ∈ s.calls[i]?, call.Harmless s))
  | .invoke _ => inferInstanceAs (Decidable True)

/-! ## the invariant -/

structure Covered (s : Registrations) : Prop where
  links : nameLinks.Covered s
  undone : ∀ {name pid}, .undoList name pid ∈ s.calls → s.shared.names.lookup name = some pid →
    ∃ call ∈ s.calls, call.Owns name pid
  mourned : ∀ {pid call}, call ∈ s.calls → call.Mourns pid → pid ∉ s.shared.processes

variable {s : Registrations} {i : Nat} {call : NameCall} {new : Option NameCall}

/-- what an operation must do besides: an undone name is gone, a mourned process is dead -/
structure Keeps (s : Registrations) (call : NameCall) (t : ProcessTable) (new : Option NameCall) :
    Prop where
  links : nameLinks.Keeps s call t new
  processes : t.processes = s.shared.processes
  undone : ∀ {name pid}, new = some (.undoList name pid) → t.names.lookup name ≠ some pid
  mourned : ∀ {c pid}, new = some c → c.Mourns pid → pid ∉ s.shared.processes

theorem Keeps.covered (hk : Keeps s call t new) (h : Covered s) (hi : s.calls[i]? = some call) :
    Covered ⟨t, Calls.advanced s.calls i new⟩ := by
  refine ⟨hk.links.covered h.links hi, fun {name pid} hundo hn => ?_, fun {pid c} hc hm => ?_⟩
  · rcases Calls.mem_advanced hundo with hundo | hnew
    · have hx : nameLinks.points t (name, pid) := hn
      rcases hk.links.points hx with hn' | ⟨c, hnew, hc⟩
      · exact Calls.exists_advance hi (h.undone hundo hn')
          fun hc => hk.links.owns hx (h.mourned hundo rfl) hc
      · exact ⟨c, hnew ▸ Calls.mem_advanced_new, hc.owns⟩
    · exact absurd hn (hk.undone hnew)
  · show pid ∉ t.processes
    rw [hk.processes]
    rcases Calls.mem_advanced hc with hc | hnew
    · exact h.mourned hc hm
    · exact hk.mourned hnew hm

/-! ## the operations one by one -/

def NameCall.Idle : NameCall → Prop
  | .check _ _ _ => True
  | .enter _ _ _ => True
  | .undoEmpty _ => True
  | .forget _ => True
  | .forgetList _ _ => True
  | .remove _ => True
  | _ => False

theorem NameCall.Idle.not_mourns (h : call.Idle) : ¬ call.Mourns pid := by
  cases call with
  | undoName n p => exact h.elim
  | undoList n p => exact h.elim
  | takeList p => exact h.elim
  | removeNames p names => exact h.elim
  | _ => exact id

theorem Keeps.of_idle (hprocs : t.processes = s.shared.processes)
    (hnames : ∀ {x}, nameLinks.points t x → nameLinks.points s.shared x)
    (hlisted : ∀ {x}, nameLinks.points t x → nameLinks.listed s.shared x →
      nameLinks.listed t x ∨ nameLinks.Spared s x)
    (howns : ∀ {name pid}, ¬ call.Owns name pid) (htakes : ∀ {pid}, call ≠ .takeList pid)
    (hcarries : ∀ {name pid}, ¬ call.Carries name pid)
    (hnew : ∀ {c}, new = some c → c.Idle) : Keeps s call t new where
  links := .of_idle (iff_of_eq (congrArg (_ ∈ ·) hprocs)) hnames hlisted howns htakes hcarries
  processes := hprocs
  undone := fun hc => (hnew hc).elim
  mourned := fun hc hm => absurd hm (hnew hc).not_mourns

theorem Keeps.of_look (howns : ∀ {name pid}, ¬ call.Owns name pid)
    (htakes : ∀ {pid}, call ≠ .takeList pid) (hcarries : ∀ {name pid}, ¬ call.Carries name pid)
    (hnew : ∀ {c}, new = some c → c.Idle) : Keeps s call s.shared new :=
  .of_idle rfl id (fun _ hin => Or.inl hin) howns htakes hcarries hnew

theorem Spare.listed (h : Spare s name pid) {x : String × ProcessId}
    (hx : nameLinks.points s.shared x) (hin : nameLinks.listed s.shared x) :
    nameLinks.listed (s.shared.unlist name pid) x ∨ nameLinks.Spared s x := by
  by_cases heq : x.1 = name ∧ x.2 = pid
  · obtain ⟨rfl, rfl⟩ := heq
    exact Or.inr (h hx hin)
  · exact Or.inl (mem_listed_unlist hin heq)

theorem ProcessTable.lookup_of_removeName (h : (t.removeName name pid).names.lookup n = some p) :
    t.names.lookup n = some p ∧ ¬ (n = name ∧ p = pid) := by
  rw [lookup_removeName] at h
  split at h
  next => cases h
  next hne => exact ⟨h, fun heq => hne ⟨heq.1, heq.2 ▸ h⟩⟩

theorem ProcessTable.listed_removeName : (t.removeName name pid).listed p = t.listed p := by
  unfold ProcessTable.removeName
  split <;> rfl

theorem ProcessTable.processes_removeName : (t.removeName name pid).processes = t.processes := by
  unfold ProcessTable.removeName
  split <;> rfl

theorem keeps_entered {force : Bool} (hc : call.Lists name pid) (hm : ∀ {p}, ¬ call.Mourns p) :
    Keeps s (.enter name pid force) { s.shared with names := s.shared.names.insert name pid }
      (some call) where
  links :=
    { alive := Iff.rfl
      points := fun {x} hx => by
        have hx' : (s.shared.names.insert name pid).lookup x.1 = some x.2 := hx
        rcases HashMap.of_lookup_insert hx' with ⟨heq, hpid⟩ | ⟨-, hx'⟩
        · refine Or.inr ⟨call, rfl, ?_⟩
          show call.Lists x.1 x.2
          rw [heq, ← hpid]
          exact hc
        · exact Or.inl hx'
      listed := fun _ hin => Or.inl hin
      lists := fun h => h.elim
      owns := fun _ _ h => h.elim
      takes := nofun
      carries := fun _ h => h.elim }
  processes := rfl
  undone := fun h => absurd rfl (Option.some.inj h ▸ hm)
  mourned := fun h hm' => absurd (Option.some.inj h ▸ hm') hm

theorem keeps_release {old : ProcessId} (h : Spare s name old) :
    Keeps s (.release name pid old) (s.shared.unlist name old) (some (.push name pid)) where
  links :=
    { alive := Iff.rfl
      points := Or.inl
      listed := fun hx hin => (h.listed hx hin).imp_right Or.inl
      lists := fun hc => Or.inr ⟨_, rfl, hc⟩
      owns := fun _ _ hc => ⟨_, rfl, hc⟩
      takes := nofun
      carries := fun _ hc => hc.elim }
  processes := rfl
  undone := nofun
  mourned := fun hc hm => (Option.some.inj hc ▸ hm : NameCall.Mourns _ (.push name pid)).elim

theorem listed_push : ((NameCall.push name pid).advance t).1.listed p
    = if p = pid then t.listed pid ++ [name] else t.listed p :=
  HashMap.getD_insert t.namesByPid pid p _

theorem keeps_push :
    Keeps s (.push name pid) ((NameCall.push name pid).advance s.shared).1
      (some (.recheck name pid)) where
  links :=
    { alive := Iff.rfl
      points := Or.inl
      listed := fun {x} _ hin => by
        left
        show x.1 ∈ ((NameCall.push name pid).advance s.shared).1.listed x.2
        rw [listed_push]
        by_cases hp : x.2 = pid
        · rw [if_pos hp]
          exact List.mem_append_left _ (hp ▸ hin)
        · rw [if_neg hp]
          exact hin
      lists := fun {x} hc => by
        left
        show x.1 ∈ ((NameCall.push name pid).advance s.shared).1.listed x.2
        rw [listed_push, if_pos hc.2.symm, ← hc.1]
        exact List.mem_append_right _ (List.mem_singleton_self name)
      owns := fun _ _ hc => ⟨_, rfl, hc⟩
      takes := nofun
      carries := fun _ hc => hc.elim }
  processes := rfl
  undone := nofun
  mourned := fun hc hm => (Option.some.inj hc ▸ hm : NameCall.Mourns _ (.recheck name pid)).elim

theorem keeps_removed {c : NameCall}
    (howns : ∀ {x : String × ProcessId}, call.Owns x.1 x.2 → x.1 = name ∧ x.2 = pid)
    (htakes : ∀ {pid}, call ≠ .takeList pid)
    (hcarries : ∀ {x : String × ProcessId}, call.Carries x.1 x.2 → ¬ (x.1 = name ∧ x.2 = pid) →
      c.Carries x.1 x.2)
    (hlists : ∀ {x : String × ProcessId}, ¬ call.Lists x.1 x.2) :
    nameLinks.Keeps s call (s.shared.removeName name pid) (some c) where
  alive := iff_of_eq (congrArg (_ ∈ ·) processes_removeName)
  points := fun hx => Or.inl (lookup_of_removeName hx).1
  listed := fun {x} _ hin =>
    Or.inl (show x.1 ∈ (s.shared.removeName name pid).listed x.2 from
      listed_removeName.symm ▸ hin)
  lists := fun hc => absurd hc hlists
  owns := fun hx _ hc => absurd (howns hc) (lookup_of_removeName hx).2
  takes := fun _ hc => absurd hc htakes
  carries := fun hx hc => ⟨c, rfl, hcarries hc (lookup_of_removeName hx).2⟩

theorem keeps_undoName (hdead : pid ∉ s.shared.processes) :
    Keeps s (.undoName name pid) (s.shared.removeName name pid) (some (.undoList name pid)) where
  links := keeps_removed (fun hc => ⟨hc.1.symm, hc.2.symm⟩) nofun (fun hc => hc.elim) id
  processes := processes_removeName
  undone := fun hc hn => by
    cases hc
    exact (lookup_of_removeName hn).2 ⟨rfl, rfl⟩
  mourned := fun hc hm => by
    cases hc
    exact hm ▸ hdead

theorem keeps_removeNames {names : List String} (hdead : pid ∉ s.shared.processes) :
    Keeps s (.removeNames pid (name :: names)) (s.shared.removeName name pid)
      (some (.removeNames pid names)) where
  links := keeps_removed (fun hc => hc.elim) nofun
    (fun hc hne => ⟨hc.1, (List.mem_cons.mp hc.2).resolve_left fun heq => hne ⟨heq, hc.1.symm⟩⟩) id
  processes := processes_removeName
  undone := nofun
  mourned := fun hc hm => by
    cases hc
    exact hm ▸ hdead

theorem keeps_takeList (hdead : pid ∉ s.shared.processes) :
    Keeps s (.takeList pid) ((NameCall.takeList pid).advance s.shared).1
      (some (.removeNames pid (s.shared.listed pid))) := by
  have hlisted : ∀ {x : String × ProcessId},
      nameLinks.listed ((NameCall.takeList pid).advance s.shared).1 x
        ↔ x.2 ≠ pid ∧ x.1 ∈ s.shared.listed x.2 := by
    intro x
    show x.1 ∈ ((s.shared.namesByPid.erase pid).lookup x.2).getD [] ↔ _
    rw [HashMap.lookup_erase_if]
    by_cases hp : x.2 = pid
    · rw [if_pos hp]
      exact iff_of_false List.not_mem_nil fun h => h.1 hp
    · rw [if_neg hp]
      exact ⟨fun h => ⟨hp, h⟩, fun h => h.2⟩
  refine ⟨⟨Iff.rfl, Or.inl, fun {x} _ hin => ?_, fun hc => hc.elim, fun _ _ hc => hc.elim,
    fun hin hc => ?_, fun _ hc => hc.elim⟩, rfl, nofun, fun hc hm => ?_⟩
  · by_cases hp : x.2 = pid
    · have hin' : x.1 ∈ s.shared.listed x.2 := hin
      have hd : x.2 ∉ s.shared.processes := hp.symm ▸ hdead
      exact Or.inr (Or.inr ⟨hd, _, rfl, hp.symm, hp ▸ hin'⟩)
    · exact Or.inl (hlisted.mpr ⟨hp, hin⟩)
  · cases hc
    exact absurd rfl (hlisted.mp hin).1
  · cases hc
    exact hm ▸ hdead

theorem covered_remove (h : Covered s) (hi : s.calls[i]? = some (.remove pid)) :
    Covered ⟨{ s.shared with processes := s.shared.processes.erase pid },
      Calls.advanced s.calls i (some (.takeList pid))⟩ := by
  refine ⟨h.links.death hi id id Finset.mem_of_mem_erase (fun {x} ha hd => ?_)
    ⟨id, nofun, id⟩, fun hu hn => ?_, fun {p c} hc hm hp => ?_⟩
  · have heq : x.2 = pid := by
      by_contra hne
      exact hd (Finset.mem_erase.mpr ⟨hne, ha⟩)
    show NameCall.takeList pid = .takeList x.2
    rw [heq]
  · rcases Calls.mem_advanced hu with hu | hnew
    · exact Calls.exists_advance hi (h.undone hu hn) fun hc => hc.elim
    · cases hnew
  · obtain ⟨hne, halive⟩ := Finset.mem_erase.mp hp
    rcases Calls.mem_advanced hc with hc | hnew
    · exact h.mourned hc hm halive
    · cases hnew
      exact hne hm.symm

/-- an operation that lets the processes be does its part, if the list it edits can spare the name -/
theorem keeps_advance (h : Covered s) (hi : s.calls[i]? = some call) (hok : call.Harmless s)
    (hlive : ∀ pid, call = .remove pid → pid ∉ s.shared.processes) :
    Keeps s call (call.advance s.shared).1 (call.advance s.shared).2 := by
  have hmourned : ∀ {p}, call.Mourns p → p ∉ s.shared.processes :=
    fun hm => h.mourned (List.mem_of_getElem? hi) hm
  rw [NameCall.advance]
  fun_cases NameCall.step s.shared call
  next => exact .of_look id (by simp) id fun hc => Option.some.inj hc ▸ trivial
  next => exact .of_look id (by simp) id (by simp)
  next => exact .of_look id (by simp) id (by simp)
  next => exact .of_look id (by simp) id (by simp)
  next => exact keeps_entered ⟨rfl, rfl⟩ id
  next => exact keeps_entered ⟨rfl, rfl⟩ id
  next => exact keeps_release hok
  next => exact keeps_push
  next hp =>
    refine ⟨.of_owner Iff.rfl id id id (fun h => by cases h) id fun {x} _ hd hc => ?_, rfl, by simp, by simp⟩
    exact absurd (hc.2 ▸ hp : x.2 ∈ s.shared.processes) hd
  next hp =>
    refine ⟨.of_owner Iff.rfl id id id (fun h => by cases h) id fun _ _ hc => ⟨_, rfl, hc⟩, rfl, by simp,
      fun hc hm => ?_⟩
    cases hc
    exact hm ▸ hp
  next => exact keeps_undoName (hmourned rfl)
  next name pid =>
    have hspare : Spare s name pid := fun hn _ =>
      ⟨fun ha => absurd ha (hmourned rfl), fun _ => h.undone (List.mem_of_getElem? hi) hn⟩
    exact .of_idle rfl id hspare.listed id (by simp) id fun hc => Option.some.inj hc ▸ trivial
  next pid =>
    by_cases hempty : s.shared.namesByPid.lookup pid = some []
    · rw [if_pos hempty]
      refine .of_idle rfl id (fun {x} _ hin => Or.inl ?_) id (by simp) id (by simp)
      show x.1 ∈ ((s.shared.namesByPid.erase pid).lookup x.2).getD []
      rw [HashMap.lookup_erase_if]
      by_cases hp : x.2 = pid
      · have hin' : x.1 ∈ s.shared.listed x.2 := hin
        rw [ProcessTable.listed, hp, hempty] at hin'
        exact absurd hin' List.not_mem_nil
      · rw [if_neg hp]
        exact hin
    · rw [if_neg hempty]
      exact .of_look id (by simp) id (by simp)
  next name _ _ =>
    refine .of_idle rfl (fun {x} hx => ?_) (fun _ hin => Or.inl hin) id (by simp) id
      fun hc => Option.some.inj hc ▸ trivial
    have hx' : (s.shared.names.erase name).lookup x.1 = some x.2 := hx
    exact (HashMap.of_lookup_erase hx').2
  next => exact .of_look id (by simp) id (by simp)
  next => exact .of_idle rfl id (Spare.listed hok) id (by simp) id (by simp)
  next hp => exact absurd hp (hlive _ rfl)
  next => exact .of_look id (by simp) id (by simp)
  next => exact keeps_takeList (hmourned rfl)
  next => exact .of_look id (by simp) (fun hr => absurd hr.2 List.not_mem_nil) (by simp)
  next => exact keeps_removeNames (hmourned rfl)

/-- **Every operation keeps the invariant**, if the list it edits can spare the name. -/
theorem covered_advance (h : Covered s) (hi : s.calls[i]? = some call) (hok : call.Harmless s) :
    Covered ⟨(call.advance s.shared).1, Calls.advanced s.calls i (call.advance s.shared).2⟩ := by
  by_cases hlive : ∃ pid, call = .remove pid ∧ pid ∈ s.shared.processes
  · obtain ⟨pid, rfl, hp⟩ := hlive
    rw [NameCall.advance, NameCall.step, if_pos hp]
    exact covered_remove h hi
  · exact (keeps_advance h hi hok fun pid heq hp => hlive ⟨pid, heq, hp⟩).covered h hi

/-! ## runs -/

theorem covered_start (h : registryMachine.start s) : Covered s := by
  obtain ⟨⟨hnames, -⟩, hcalls⟩ := h
  have hnone : ∀ {name pid}, s.shared.names.lookup name ≠ some pid := by
    intro name pid hn
    rw [hnames, AList.lookup_empty] at hn
    cases hn
  refine ⟨.of_empty hnone, fun _ hn => absurd hn hnone, fun hc => ?_⟩
  rw [hcalls] at hc
  exact absurd hc List.not_mem_nil

theorem covered_invoke (h : Covered s) (hopen : call.opens = true) :
    Covered ⟨s.shared, s.calls ++ [call]⟩ := by
  refine ⟨h.links.invoke call, fun hu hn => ?_, fun {pid c} hc hm => ?_⟩
  · rcases List.mem_append.mp hu with hu | hu
    · obtain ⟨c, hc, ho⟩ := h.undone hu hn
      exact ⟨c, List.mem_append_left _ hc, ho⟩
    · rw [← List.mem_singleton.mp hu] at hopen
      cases hopen
  · rcases List.mem_append.mp hc with hc | hc
    · exact h.mourned hc hm
    · rw [List.mem_singleton.mp hc] at hm
      cases call with
      | check name pid force => exact hm.elim
      | forget name => exact hm.elim
      | remove pid => exact hm.elim
      | _ => cases hopen

theorem covered_of_reach (h : registryMachine.Reach Undisturbed s) : Covered s := by
  refine h.inv (fun s hs => covered_start hs) fun s a t hc hok hn => ?_
  rcases Calls.next_cases hn with ⟨call, -, hopen, rfl⟩ | ⟨i, call, rfl, hi, rfl⟩
  · exact covered_invoke hc hopen
  · exact covered_advance hc hi (hok call hi)

theorem Covered.live (h : Covered s) (hcalls : s.calls = [])
    (hn : s.shared.names.lookup name = some pid) : pid ∈ s.shared.processes :=
  h.links.alive_of_quiet hcalls (show nameLinks.points s.shared (name, pid) from hn)

theorem undisturbed_alone (hok : call.Harmless ⟨t, [call]⟩) :
    Undisturbed ⟨t, [call]⟩ (.advance 0) := by
  intro c hc
  cases hc
  exact hok

abbrev Returns := Calls.Returns NameCall.opens NameCall.advance Unnamed Undisturbed

theorem returns_removeNames (names : List String) (t : ProcessTable) (pid : ProcessId) :
    ∃ t', Returns t (.removeNames pid names) t' ∧ t'.processes = t.processes := by
  induction names generalizing t with
  | nil => exact ⟨t, .last (undisturbed_alone trivial) rfl, rfl⟩
  | cons name names ih =>
    obtain ⟨t', hret, hprocs⟩ := ih (t.removeName name pid)
    exact ⟨t', .next (undisturbed_alone trivial) rfl hret,
      hprocs.trans processes_removeName⟩

theorem returns_cleanupProcess (t : ProcessTable) (pid : ProcessId) :
    ∃ t', Returns t (cleanupProcess pid) t' ∧ pid ∉ t'.processes := by
  by_cases hp : pid ∈ t.processes
  · have hstep : (cleanupProcess pid).advance t
        = ({ t with processes := t.processes.erase pid }, some (.takeList pid)) := by
      rw [cleanupProcess, NameCall.advance, NameCall.step, if_pos hp]
    obtain ⟨t', hret, hprocs⟩ := returns_removeNames (t.listed pid)
      ((NameCall.takeList pid).advance { t with processes := t.processes.erase pid }).1 pid
    refine ⟨t', .next (undisturbed_alone trivial) hstep
      (.next (undisturbed_alone trivial) rfl hret), ?_⟩
    rw [hprocs]
    exact Finset.notMem_erase pid t.processes
  · have hstep : (cleanupProcess pid).advance t = (t, none) := by
      rw [cleanupProcess, NameCall.advance, NameCall.step, if_neg hp]
    exact ⟨t, .last (undisturbed_alone trivial) hstep, hp⟩

/-- **A name points to a process that is alive, whenever no call is in progress**, and a cleanup of
that process then leaves no name behind. -/
theorem names_live (h : registryMachine.Reach Undisturbed s) (hcalls : s.calls = []) :
    (∀ name pid, s.shared.whereis name = some pid → pid ∈ s.shared.processes) ∧
    ∀ pid, ∃ k s', registryMachine.run s
        (.invoke (cleanupProcess pid) :: .replicate k (.advance 0)) = some s' ∧
      s'.calls = [] ∧ pid ∉ s'.shared.processes ∧ ∀ name, s'.shared.whereis name ≠ some pid := by
  refine ⟨fun name pid hn => (covered_of_reach h).live hcalls hn, fun pid => ?_⟩
  obtain ⟨t', hret, hp⟩ := returns_cleanupProcess s.shared pid
  obtain ⟨hafter, k, hrun⟩ := hret.run rfl (congrArg (Calls.mk s.shared) hcalls) h trivial
  exact ⟨k, ⟨t', []⟩, hrun, rfl, hp, fun name hn => hp ((covered_of_reach hafter).live rfl hn)⟩

/-- a public call made, and `k` operations of the call at position `i` -/
private def made (call : NameCall) (i k : Nat) : List (Calls.Label NameCall) :=
  .invoke call :: .replicate k (.advance i)

/-- 1.1 registers a name and 1.2 takes it over, while 1.1 dies -/
theorem names_live_takeover : ∃ s, registryMachine.Reach Undisturbed s ∧ s.calls = [] ∧
    ⟨1, 2⟩ ∈ s.shared.processes ∧ ⟨1, 1⟩ ∉ s.shared.processes ∧
    s.shared.whereis "svc" = some ⟨1, 2⟩ ∧
    ∃ k s', registryMachine.run s
        (.invoke (cleanupProcess ⟨1, 2⟩) :: .replicate k (.advance 0)) = some s' ∧
      s'.calls = [] ∧ ⟨1, 2⟩ ∉ s'.shared.processes ∧
      ∀ name, s'.shared.whereis name ≠ some ⟨1, 2⟩ := by
  have hstart : registryMachine.Reach Undisturbed ⟨.couple, []⟩ := .start ⟨⟨rfl, rfl⟩, rfl⟩
  obtain ⟨s, hs, hcalls, hdead, hname⟩ := hstart.exists_checked
    (List.flatten [made (register "svc" ⟨1, 1⟩) 0 4, made (reregister "svc" ⟨1, 2⟩) 0 2,
      made (cleanupProcess ⟨1, 1⟩) 1 2, .replicate 3 (.advance 0), .replicate 2 (.advance 0)])
    (p := fun s => s.calls = [] ∧ ⟨1, 1⟩ ∉ s.shared.processes ∧ s.shared.whereis "svc" = some ⟨1, 2⟩)
    (by decide)
  obtain ⟨hlive, hclean⟩ := names_live hs hcalls
  exact ⟨s, hs, hcalls, hlive "svc" _ hname, hdead, hname, hclean _⟩

/-! ## a list edited too late -/

/-- 1.2 takes the name of 1.1 over; before it edits the list of 1.1, the latter takes the name back -/
private def crossing : List (Calls.Label NameCall) :=
  List.flatten [made (register "svc" ⟨1, 1⟩) 0 4, made (reregister "svc" ⟨1, 2⟩) 0 2,
    made (reregister "svc" ⟨1, 1⟩) 1 5, .replicate 3 (.advance 0),
    made (cleanupProcess ⟨1, 1⟩) 0 3]

/-- **Two takeovers that cross leave a name that points to a dead process**: the name is back with
1.1 but off its list, so the cleanup of 1.1 does not find it. -/
theorem name_outlives_process : ∃ s, registryMachine.Reach Machine.Anytime s ∧ s.calls = [] ∧
    s.shared.whereis "svc" = some ⟨1, 1⟩ ∧ ⟨1, 1⟩ ∉ s.shared.processes := by
  have hstart : registryMachine.Reach Machine.Anytime ⟨.couple, []⟩ := .start ⟨⟨rfl, rfl⟩, rfl⟩
  exact hstart.exists_run crossing (by decide)

end Rebar.Process

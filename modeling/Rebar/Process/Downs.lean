import Rebar.Lib.Links
import Rebar.Process.Monitors

/-!
# One message for each monitor

`monitor` and `cleanup_process` at the same time, over all interleavings of their operations.

* `monitorLinks`  the monitors as links to their targets, with `monitors_by_target` as reverse index.
-/

namespace Rebar.Process

/-! ## who may send the message of a reference -/

def Note.sends : Note → Option Nat
  | .sent _ down _ => some down.monitorRef
  | _ => none

/-- the call is the one that may still insert the reference, or the one that has removed it -/
def TableCall.holds : TableCall → Option Nat
  | .check m | .index m | .undoTarget m | .undoTargetEmpty m | .undoWatcher m | .undoWatcherEmpty m
  | .noproc m | .fireWatcher m _ | .fireDown m _ | .demonitorTarget m => some m.mref
  | .dropTarget _ mref _ _ => some mref
  | _ => none

/-- the call has dropped the monitor, and nothing will be sent for it -/
def TableCall.forgets : TableCall → Option Nat
  | .dropTarget _ mref _ _ => some mref
  | .demonitorTarget m => some m.mref
  | _ => none

def TableCall.issues (t : Table) : TableCall → Option Nat
  | .monitor _ _ => some t.monitorCounter
  | _ => none

def unit (mref : Nat) (r : Option Nat) : Nat := if r = some mref then 1 else 0

def Table.indexed (t : Table) (mref : Nat) : Nat := (t.monitorIndex.lookup mref).toList.length

/-- the right to send the message of a reference: it is in the index, used up, or with a call -/
def tokens (s : Watches) (mref : Nat) : Nat :=
  s.shared.table.indexed mref + s.shared.log.countP (·.sends = some mref)
    + s.calls.countP (·.holds = some mref)

theorem countP_toList {α : Type} (f : α → Option Nat) (mref : Nat) (o : Option α) :
    o.toList.countP (f · = some mref) = unit mref (o.bind f) := by
  cases o with
  | none => rfl
  | some a => simp [unit, List.countP_cons]

variable {r mref : Nat} {v : ProcessId × ProcessId} {m : Monitor} {target p pid : ProcessId}

theorem indexed_unindex {t : Table} (h : t.monitorIndex.lookup r = some v) (mref : Nat) :
    (t.unindex r).indexed mref + unit mref (some r) = t.indexed mref := by
  show ((t.monitorIndex.erase r).lookup mref).toList.length + _ = _
  rw [HashMap.lookup_erase_if, unit, Table.indexed]
  by_cases hr : mref = r
  · subst hr
    simp [h]
  · rw [if_neg hr, if_neg fun heq => hr (Option.some.inj heq).symm, Nat.add_zero]

theorem indexed_insert {t : Table} (h : t.monitorIndex.lookup m.mref = none) (mref : Nat) :
    ((TableCall.index m).step t).table.indexed mref = t.indexed mref + unit mref (some m.mref) := by
  show ((t.monitorIndex.insert m.mref _).lookup mref).toList.length = _
  rw [HashMap.lookup_insert_if, unit, Table.indexed]
  by_cases hr : mref = m.mref
  · subst hr
    simp [h]
  · rw [if_neg hr, if_neg fun heq => hr (Option.some.inj heq).symm, Nat.add_zero]

theorem afterNames_cases {call : NameCall} {progress : Progress} {c : TableCall}
    (h : afterNames call progress = some c) :
    (∃ pid, call = .removeNames pid [] ∧ c = .takeTarget pid) ∨
      ∃ next, progress = .next next ∧ c = .names next := by
  unfold afterNames at h
  split at h <;> cases h
  · exact Or.inl ⟨_, rfl, rfl⟩
  · exact Or.inr ⟨_, rfl, rfl⟩

theorem afterNames_holds (call : NameCall) (progress : Progress) :
    (afterNames call progress).bind TableCall.holds = none := by
  rw [Option.bind_eq_none_iff]
  intro c hc
  rcases afterNames_cases hc with ⟨pid, -, rfl⟩ | ⟨next, -, rfl⟩ <;> rfl

theorem namesNote_cases {t : Table} {call : NameCall} {note : Note}
    (h : namesNote t call = some note) : ∃ pid, call = .remove pid ∧ pid ∈ t.processes ∧
      note = .cleaned pid := by
  unfold namesNote at h
  split at h
  · obtain ⟨hp, hnote⟩ := Option.ite_none_right_eq_some.mp h
    exact ⟨_, rfl, hp, (Option.some.inj hnote).symm⟩
  · cases h

theorem namesNote_sends (t : Table) (call : NameCall) :
    (namesNote t call).bind Note.sends = none := by
  rw [Option.bind_eq_none_iff]
  intro note hnote
  obtain ⟨pid, -, -, rfl⟩ := namesNote_cases hnote
  rfl

/-- **No operation makes a second right to send**, and only dropping a monitor loses one. -/
theorem tokens_step (t : Table) (call : TableCall) (mref : Nat)
    (hfree : ∀ m, call = .index m → t.monitorIndex.lookup m.mref = none) :
    (call.step t).table.indexed mref + unit mref ((call.step t).note.bind Note.sends)
        + unit mref ((call.step t).call.bind TableCall.holds) + unit mref call.forgets
      = t.indexed mref + unit mref call.holds + unit mref (call.issues t) := by
  fun_cases TableCall.step t call <;> try rfl
  next call =>
    show t.indexed mref + unit mref ((namesNote t call).bind _)
      + unit mref ((afterNames call _).bind _) + 0 = _
    rw [namesNote_sends, afterNames_holds]
    rfl
  next => exact indexed_insert (hfree _ rfl) mref
  next hv => exact indexed_unindex hv mref
  next =>
    rw [Table.untargetEmpty]
    split <;> rfl
  next =>
    rw [Table.unwatchEmpty]
    split <;> rfl
  next hv => exact indexed_unindex hv mref
  next hv => exact indexed_unindex hv mref
  next hv => exact indexed_unindex hv mref

/-! ## what the log says about the table and the calls -/

/-- what the log says of the processes and the monitors that the call has in hand -/
def TableCall.needs : TableCall → List Note
  | .check m | .index m | .addTarget m | .addWatcher m | .recheck m | .take m | .undoTarget m
  | .undoTargetEmpty m | .undoWatcher m | .undoWatcherEmpty m | .noproc m => [.issued m]
  | .names (.takeList pid) | .names (.removeNames pid _) | .takeTarget pid | .takeWatcher pid
  | .drop pid _ | .dropTarget pid _ _ _ => [.cleaned pid]
  | .fire pid entries => .cleaned pid :: entries.map fun e => .issued ⟨e.1, e.2, pid⟩
  | .fireWatcher m entries | .fireDown m entries =>
    .cleaned m.target :: .issued m :: entries.map fun e => .issued ⟨e.1, e.2, m.target⟩
  | .demonitorTarget m => [.released m.mref]
  | _ => []

/-- the references whose monitors a cleanup drops, with their watcher -/
def TableCall.drops : TableCall → List (Nat × ProcessId)
  | .drop pid mrefs => mrefs.map fun r => (r, pid)
  | .dropTarget pid mref _ mrefs => (mref :: mrefs).map fun r => (r, pid)
  | _ => []

structure TableCall.Knows (log : List Note) (call : TableCall) : Prop where
  needs : call.needs ⊆ log
  drops : ∀ e ∈ call.drops, ∃ target, .issued ⟨e.1, e.2, target⟩ ∈ log

structure Known (t : Table) (log : List Note) : Prop where
  refs : ∀ {m}, .issued m ∈ log → m.mref < t.monitorCounter
  unique : ∀ {m m'}, .issued m ∈ log → .issued m' ∈ log → m.mref = m'.mref → m = m'
  index : ∀ {r w p}, t.monitorIndex.lookup r = some (w, p) → .issued ⟨r, w, p⟩ ∈ log
  watched : ∀ {r w p}, (r, w) ∈ t.watched p → .issued ⟨r, w, p⟩ ∈ log
  watching : ∀ {r w}, r ∈ t.watching w → ∃ p, .issued ⟨r, w, p⟩ ∈ log
  cleaned : ∀ {p}, .cleaned p ∈ log → p ∉ t.processes
  sent : ∀ {w d reached}, .sent w d reached ∈ log →
    .issued ⟨d.monitorRef, w, d.pid⟩ ∈ log ∧ (w ∈ t.processes → reached = true)

variable {t u : Table} {log notes : List Note} {call c : TableCall}

theorem TableCall.Knows.next (h : call.Knows log) (hneeds : c.needs ⊆ call.needs ++ notes)
    (hdrops : c.drops ⊆ call.drops) : c.Knows (log ++ notes) where
  needs := fun _ hn => List.mem_append.mpr ((List.mem_append.mp (hneeds hn)).imp_left fun hn => h.needs hn)
  drops := fun e he => (h.drops e (hdrops he)).imp fun _ hi => List.mem_append_left _ hi

theorem TableCall.Knows.mono (h : call.Knows log) : call.Knows (log ++ notes) :=
  h.next (List.subset_append_left ..) (List.Subset.refl _)

theorem Known.table (h : Known t log) (hcounter : u.monitorCounter = t.monitorCounter)
    (hprocs : u.processes ⊆ t.processes)
    (hindex : ∀ {r w p}, u.monitorIndex.lookup r = some (w, p) →
      t.monitorIndex.lookup r = some (w, p) ∨ .issued ⟨r, w, p⟩ ∈ log)
    (hwatched : ∀ {r w p}, (r, w) ∈ u.watched p →
      (r, w) ∈ t.watched p ∨ .issued ⟨r, w, p⟩ ∈ log)
    (hwatching : ∀ {r w}, r ∈ u.watching w → r ∈ t.watching w ∨ ∃ p, .issued ⟨r, w, p⟩ ∈ log) :
    Known u log where
  refs := fun hm => hcounter ▸ h.refs hm
  unique := h.unique
  index := fun hi => (hindex hi).elim h.index id
  watched := fun hi => (hwatched hi).elim h.watched id
  watching := fun hi => (hwatching hi).elim h.watching id
  cleaned := fun hp hu => h.cleaned hp (hprocs hu)
  sent := fun hd => ⟨(h.sent hd).1, fun hw => (h.sent hd).2 (hprocs hw)⟩

theorem Known.note (h : Known t log) {note : Note} (hissued : ∀ m, note ≠ .issued m)
    (hcleaned : ∀ p, note = .cleaned p → p ∉ t.processes)
    (hsent : ∀ w d reached, note = .sent w d reached →
      .issued ⟨d.monitorRef, w, d.pid⟩ ∈ log ∧ (w ∈ t.processes → reached = true)) :
    Known t (log ++ [note]) := by
  have hold : ∀ {m}, .issued m ∈ log ++ [note] → .issued m ∈ log := by
    intro m hm
    rcases List.mem_append.mp hm with hm | hm
    · exact hm
    · exact absurd (List.mem_singleton.mp hm).symm (hissued m)
  have hleft : ∀ {n}, n ∈ log → n ∈ log ++ [note] := fun hn => List.mem_append_left _ hn
  refine ⟨fun hm => h.refs (hold hm), fun hm hm' => h.unique (hold hm) (hold hm'),
    fun hi => hleft (h.index hi), fun hi => hleft (h.watched hi),
    fun hi => (h.watching hi).imp fun _ hm => hleft hm, fun hp => ?_, fun hd => ?_⟩
  · rcases List.mem_append.mp hp with hp | hp
    · exact h.cleaned hp
    · exact hcleaned _ (List.mem_singleton.mp hp).symm
  · rcases List.mem_append.mp hd with hd | hd
    · exact ⟨hleft (h.sent hd).1, (h.sent hd).2⟩
    · obtain ⟨hi, hr⟩ := hsent _ _ _ (List.mem_singleton.mp hd).symm
      exact ⟨hleft hi, hr⟩

theorem Known.issue (h : Known t log) (hm : m.mref = t.monitorCounter) :
    Known { t with monitorCounter := t.monitorCounter + 1 } (log ++ [.issued m]) := by
  have hcases : ∀ {m'}, .issued m' ∈ log ++ [.issued m] → .issued m' ∈ log ∨ m' = m := by
    intro m' hm'
    rcases List.mem_append.mp hm' with hm' | hm'
    · exact Or.inl hm'
    · exact Or.inr (Note.issued.inj (List.mem_singleton.mp hm'))
  have hleft : ∀ {n}, n ∈ log → n ∈ log ++ [.issued m] := fun hn => List.mem_append_left _ hn
  have hother : ∀ {n}, n ∈ log ++ [.issued m] → n ≠ .issued m → n ∈ log := fun hn hne =>
    (List.mem_append.mp hn).resolve_right fun h1 => hne (List.mem_singleton.mp h1)
  refine ⟨fun {m'} hm' => ?_, fun {m₁ m₂} h₁ h₂ heq => ?_, fun hi => hleft (h.index hi),
    fun hi => hleft (h.watched hi), fun hi => (h.watching hi).imp fun _ hm => hleft hm,
    fun hp => h.cleaned (hother hp nofun), fun hd => ?_⟩
  · rcases hcases hm' with hm' | rfl
    · exact Nat.lt_succ_of_lt (h.refs hm')
    · exact Nat.lt_succ_of_le (Nat.le_of_eq hm)
  · rcases hcases h₁ with hold₁ | rfl
    · rcases hcases h₂ with hold₂ | rfl
      · exact h.unique hold₁ hold₂ heq
      · have hlt := h.refs hold₁
        omega
    · rcases hcases h₂ with hold₂ | rfl
      · have hlt := h.refs hold₂
        omega
      · rfl
  · obtain ⟨hi, hr⟩ := h.sent (hother hd nofun)
    exact ⟨hleft hi, hr⟩

/-! ### reading the maps after an operation -/

theorem watched_untarget (t : Table) (mref : Nat) (target p : ProcessId) :
    (t.untarget mref target).watched p
      = if p = target then (t.watched p).filter (·.1 ≠ mref) else t.watched p :=
  HashMap.getD_modify t.monitorsByTarget target p _ rfl

theorem watched_untargetEmpty (t : Table) (target p : ProcessId) :
    (t.untargetEmpty target).watched p = t.watched p := by
  rw [Table.untargetEmpty]
  split
  next hempty =>
    refine (HashMap.getD_erase t.monitorsByTarget target p).trans ?_
    split
    next hp =>
      rw [Table.watched, hp, hempty]
      rfl
    next => rfl
  next => rfl

theorem watched_addTarget (t : Table) (m : Monitor) (p : ProcessId) :
    ((TableCall.addTarget m).step t).table.watched p
      = if p = m.target then t.watched m.target ++ [(m.mref, m.watcher)] else t.watched p :=
  HashMap.getD_insert t.monitorsByTarget m.target p _

theorem watched_takeTarget (t : Table) (pid p : ProcessId) :
    ((TableCall.takeTarget pid).step t).table.watched p
      = if p = pid then [] else t.watched p :=
  HashMap.getD_erase t.monitorsByTarget pid p

theorem watching_unwatch (t : Table) (mref : Nat) (watcher p : ProcessId) :
    (t.unwatch mref watcher).watching p
      = if p = watcher then (t.watching p).filter (· ≠ mref) else t.watching p :=
  HashMap.getD_modify t.monitorsByWatcher watcher p _ rfl

theorem lookup_of_unindex (h : (t.unindex r).monitorIndex.lookup mref = some v) :
    mref ≠ r ∧ t.monitorIndex.lookup mref = some v :=
  HashMap.of_lookup_erase h

theorem mem_of_watched_untarget {e : Nat × ProcessId} (h : e ∈ (t.untarget mref target).watched p) :
    e ∈ t.watched p := by
  rw [watched_untarget] at h
  split at h
  · exact List.mem_of_mem_filter h
  · exact h

theorem mem_of_watching_unwatch {watcher : ProcessId} (h : r ∈ (t.unwatch mref watcher).watching p) :
    r ∈ t.watching p := by
  rw [watching_unwatch] at h
  split at h
  · exact List.mem_of_mem_filter h
  · exact h

theorem mem_of_getD_erase {α : Type} {map : HashMap ProcessId (List α)} {x : α}
    (h : x ∈ ((map.erase pid).lookup p).getD []) : x ∈ (map.lookup p).getD [] := by
  rw [HashMap.getD_erase] at h
  split at h
  · exact absurd h List.not_mem_nil
  · exact h

theorem mem_getD_push {α : Type} {map : HashMap ProcessId (List α)} {x y : α}
    (h : x ∈ ((map.insert pid ((map.lookup pid).getD [] ++ [y])).lookup p).getD []) :
    p = pid ∧ x = y ∨ x ∈ (map.lookup p).getD [] := by
  rw [HashMap.getD_insert] at h
  split at h
  next hp =>
    rw [hp]
    exact (List.mem_append.mp h).symm.imp_left fun h => ⟨rfl, List.mem_singleton.mp h⟩
  next => exact Or.inr h

theorem Known.unindex (h : Known t log) (mref : Nat) : Known (t.unindex mref) log :=
  h.table rfl (Finset.Subset.refl _) (fun hi => Or.inl (lookup_of_unindex hi).2) Or.inl Or.inl

theorem Known.untarget (h : Known t log) (mref : Nat) (target : ProcessId) :
    Known (t.untarget mref target) log :=
  h.table rfl (Finset.Subset.refl _) Or.inl (fun hi => Or.inl (mem_of_watched_untarget hi)) Or.inl

theorem Known.unwatch (h : Known t log) (mref : Nat) (watcher : ProcessId) :
    Known (t.unwatch mref watcher) log :=
  h.table rfl (Finset.Subset.refl _) Or.inl Or.inl fun hi => Or.inl (mem_of_watching_unwatch hi)

theorem untargetEmpty_rest (t : Table) (target : ProcessId) :
    (t.untargetEmpty target).monitorCounter = t.monitorCounter ∧
      (t.untargetEmpty target).processes = t.processes ∧
      (t.untargetEmpty target).monitorIndex = t.monitorIndex ∧
      (t.untargetEmpty target).monitorsByWatcher = t.monitorsByWatcher := by
  unfold Table.untargetEmpty
  split <;> exact ⟨rfl, rfl, rfl, rfl⟩

theorem unwatchEmpty_rest (t : Table) (watcher : ProcessId) :
    (t.unwatchEmpty watcher).monitorCounter = t.monitorCounter ∧
      (t.unwatchEmpty watcher).processes = t.processes := by
  unfold Table.unwatchEmpty
  split <;> exact ⟨rfl, rfl⟩

theorem Known.untargetEmpty (h : Known t log) (target : ProcessId) :
    Known (t.untargetEmpty target) log := by
  have hwatched := watched_untargetEmpty t target
  obtain ⟨hcounter, hprocs, hindex, hwatcher⟩ := untargetEmpty_rest t target
  refine h.table hcounter (Finset.subset_of_eq hprocs) (fun hi => Or.inl (hindex ▸ hi))
    (fun hi => Or.inl (hwatched _ ▸ hi)) fun hi => Or.inl ?_
  rw [Table.watching, hwatcher] at hi
  exact hi

theorem Known.unwatchEmpty (h : Known t log) (watcher : ProcessId) :
    Known (t.unwatchEmpty watcher) log := by
  unfold Table.unwatchEmpty
  split
  · exact h.table rfl (Finset.Subset.refl _) Or.inl Or.inl fun hi => Or.inl (mem_of_getD_erase hi)
  · exact h

/-! ### the log accounts for every operation -/

theorem processes_names (t : Table) (call : NameCall) :
    ((TableCall.names call).step t).table.processes ⊆ t.processes := by
  show (call.step t.toProcessTable).1.processes ⊆ _
  rw [NameCall.processes_step]
  cases call with
  | remove pid => exact Finset.erase_subset pid _
  | _ => exact Finset.Subset.refl _

theorem Known.names (h : Known t log) (call : NameCall) :
    Known ((TableCall.names call).step t).table
      (log ++ ((TableCall.names call).step t).note.toList) := by
  have htable : Known ((TableCall.names call).step t).table log :=
    h.table rfl (processes_names t call) Or.inl Or.inl Or.inl
  cases call with
  | remove pid =>
    show Known _ (log ++ (if pid ∈ t.processes then some (Note.cleaned pid) else none).toList)
    split
    next hp =>
      refine htable.note nofun (fun p heq => ?_) nofun
      cases heq
      show pid ∉ ((NameCall.remove pid).step t.toProcessTable).1.processes
      rw [NameCall.processes_step]
      exact Finset.notMem_erase pid _
    next => rwa [Option.toList_none, List.append_nil]
  | _ =>
    show Known _ (log ++ [])
    rwa [List.append_nil]

theorem Known.sendDown (h : Known t log) (hm : .issued m ∈ log) (reason : String) :
    Known t (log ++ [t.sendDown m reason]) := by
  refine h.note nofun nofun fun w d reached heq => ?_
  cases heq
  exact ⟨hm, fun hw => decide_eq_true hw⟩

theorem known_step (h : Known t log) (hc : call.Knows log) :
    Known (call.step t).table (log ++ (call.step t).note.toList) := by
  have hquiet : ∀ {u}, Known u log → Known u (log ++ (none : Option Note).toList) := by
    intro u hu
    rwa [Option.toList_none, List.append_nil]
  fun_cases TableCall.step t call <;> try exact hquiet h
  next => exact h.names _
  next => exact h.issue rfl
  next m =>
    refine hquiet (h.table rfl (Finset.Subset.refl _) (fun {r w p} hi => ?_) Or.inl Or.inl)
    rcases HashMap.of_lookup_insert hi with ⟨hr, heq⟩ | ⟨-, hi⟩
    · cases heq
      rw [hr]
      exact Or.inr (hc.needs (List.mem_singleton_self _))
    · exact Or.inl hi
  next m =>
    refine hquiet (h.table rfl (Finset.Subset.refl _) Or.inl (fun {r w p} hi => ?_) Or.inl)
    rcases mem_getD_push hi with ⟨rfl, heq⟩ | hin
    · cases heq
      exact Or.inr (hc.needs (List.mem_singleton_self _))
    · exact Or.inl hin
  next m =>
    refine hquiet (h.table rfl (Finset.Subset.refl _) Or.inl Or.inl fun {r w} hi => ?_)
    rcases mem_getD_push hi with ⟨rfl, heq⟩ | hin
    · rw [heq]
      exact Or.inr ⟨m.target, hc.needs (List.mem_singleton_self _)⟩
    · exact Or.inl hin
  next => exact hquiet (h.unindex _)
  next => exact hquiet (h.untarget _ _)
  next => exact hquiet (h.untargetEmpty _)
  next => exact hquiet (h.unwatch _ _)
  next => exact hquiet (h.unwatchEmpty _)
  next => exact h.sendDown (hc.needs (List.mem_singleton_self _)) _
  next pid =>
    exact hquiet (h.table rfl (Finset.Subset.refl _) Or.inl (fun hi => Or.inl (mem_of_getD_erase hi)) Or.inl)
  next => exact hquiet (h.unindex _)
  next => exact hquiet (h.unwatch _ _)
  next => exact h.sendDown (hc.needs (List.mem_cons_of_mem _ List.mem_cons_self)) _
  next =>
    exact hquiet (h.table rfl (Finset.Subset.refl _) Or.inl Or.inl
      fun hi => Or.inl (mem_of_getD_erase hi))
  next => exact hquiet (h.unindex _)
  next => exact hquiet (h.untarget _ _)
  next => exact (h.unindex _).note nofun nofun nofun
  next => exact hquiet (h.untarget _ _)
  next => exact hquiet (h.unwatch _ _)

/-- a step in the name registry leads to the cleanup of a process only from there, or from the removal
of that process -/
theorem needs_names {call : NameCall} (hnew : ((TableCall.names call).step t).call = some c) :
    c.needs ⊆ (TableCall.names call).needs ++ (namesNote t call).toList ∧ c.drops = [] := by
  have hself : ∀ {l : List Note}, l ⊆ l ++ (namesNote t call).toList := fun hn =>
    List.mem_append_left _ hn
  rcases afterNames_cases hnew with ⟨pid, rfl, rfl⟩ | ⟨next, hnext, rfl⟩
  · exact ⟨hself, rfl⟩
  · refine ⟨?_, rfl⟩
    revert hnext
    fun_cases NameCall.step t.toProcessTable call <;> intro hnext <;> cases hnext <;>
      first | exact List.nil_subset _ | exact hself | skip
    next pid hp =>
      show [Note.cleaned pid] ⊆ [] ++ (if pid ∈ t.processes then some (Note.cleaned pid) else none).toList
      rw [if_pos hp]
      exact List.Subset.refl _

theorem knows_step (h : Known t log) (hc : call.Knows log) (hnew : (call.step t).call = some c) :
    c.Knows (log ++ (call.step t).note.toList) := by
  have hself : ∀ {l notes : List Note}, l ⊆ l ++ notes := fun hn => List.mem_append_left _ hn
  revert hnew
  fun_cases TableCall.step t call <;> intro hnew <;> try cases hnew
  -- most operations leave the call with what it had in hand
  all_goals try exact hc.next hself (List.nil_subset _)
  next =>
    obtain ⟨hneeds, hdrops⟩ := needs_names hnew
    exact hc.next hneeds (hdrops ▸ List.nil_subset _)
  next =>
    refine TableCall.Knows.mono ⟨fun n hn => ?_, nofun⟩
    rcases List.mem_cons.mp hn with rfl | hn
    · exact hc.needs (List.mem_singleton_self _)
    · obtain ⟨e, he, rfl⟩ := List.mem_map.mp hn
      exact h.watched he
  next =>
    refine hc.next (List.Subset.trans ?_ hself) (List.nil_subset _)
    exact List.cons_subset_cons _ (List.subset_cons_self _ _)
  next =>
    refine hc.next (List.Subset.trans ?_ hself) (List.nil_subset _)
    exact List.cons_subset_cons _ (List.subset_cons_self _ _)
  next =>
    refine TableCall.Knows.mono ⟨hc.needs, fun e he => ?_⟩
    obtain ⟨r, hr, rfl⟩ := List.mem_map.mp he
    exact h.watching hr
  next => exact hc.next hself (List.Subset.refl _)
  next => exact hc.next hself (List.subset_cons_self _ _)
  next => exact hc.next hself (List.subset_cons_self _ _)

/-! ## the monitors as links to their targets -/

/-- the call is the cleanup of the process, before it takes the monitors on it -/
def TableCall.Takes (pid : ProcessId) : TableCall → Prop
  | .names (.takeList p) => p = pid
  | .names (.removeNames p _) => p = pid
  | .takeTarget p => p = pid
  | _ => False

/-- the cleanup of the target has the monitor among those it will fire -/
def TableCall.Carries (m : Monitor) : TableCall → Prop
  | .fire pid entries => pid = m.target ∧ (m.mref, m.watcher) ∈ entries
  | .fireWatcher m' entries => m'.target = m.target ∧ (m.mref, m.watcher) ∈ entries
  | .fireDown m' entries => m'.target = m.target ∧ (m.mref, m.watcher) ∈ entries
  | _ => False

/-- the call made the monitor and will look at its target again -/
def TableCall.Owns (m : Monitor) : TableCall → Prop
  | .addTarget m' => m' = m
  | .addWatcher m' => m' = m
  | .recheck m' => m' = m
  | .take m' => m' = m
  | _ => False

def monitorLinks : Links Seen TableCall Monitor where
  points := fun s m => s.table.monitorIndex.lookup m.mref = some (m.watcher, m.target)
  alive := fun s m => m.target ∈ s.table.processes
  listed := fun s m => (m.mref, m.watcher) ∈ s.table.watched m.target
  lists := fun call m => call = .addTarget m
  owns := fun call m => call.Owns m
  takes := fun call m => call.Takes m.target
  carries := fun call m => call.Carries m
  owns_of_lists := fun h => h ▸ rfl

structure Accounted (s : Watches) : Prop where
  known : Known s.shared.table s.shared.log
  calls : ∀ c ∈ s.calls, c.Knows s.shared.log
  once : ∀ mref, tokens s mref ≤ 1
  fresh : ∀ mref, s.shared.table.monitorCounter ≤ mref → tokens s mref = 0
  kept : ∀ {m}, .issued m ∈ s.shared.log → tokens s m.mref = 1 ∨ .cleaned m.watcher ∈ s.shared.log ∨
    .released m.mref ∈ s.shared.log
  links : monitorLinks.Covered s

variable {s : Watches} {i : Nat}

theorem Accounted.free (h : Accounted s) (hi : s.calls[i]? = some call)
    (hc : call.holds = some mref) : s.shared.table.monitorIndex.lookup mref = none := by
  have hpos : 0 < s.calls.countP (·.holds = some mref) :=
    List.countP_pos_iff.mpr ⟨call, List.mem_of_getElem? hi, decide_eq_true hc⟩
  have hone := h.once mref
  unfold tokens Table.indexed at hone
  cases hl : s.shared.table.monitorIndex.lookup mref with
  | none => rfl
  | some v =>
    rw [hl, Option.toList_some, List.length_singleton] at hone
    omega

theorem Accounted.tokens_advance (h : Accounted s) (hi : s.calls[i]? = some call) (mref : Nat) :
    tokens ⟨(call.advance s.shared).1, Calls.advanced s.calls i (call.advance s.shared).2⟩ mref
        + unit mref call.forgets
      = tokens s mref + unit mref (call.issues s.shared.table) := by
  have hstep := tokens_step s.shared.table call mref fun m hm => h.free hi (hm ▸ rfl)
  have hcount := Calls.countP_advanced hi (call.advance s.shared).2 (·.holds = some mref)
  have hold : [call].countP (·.holds = some mref) = unit mref call.holds :=
    countP_toList TableCall.holds mref (some call)
  rw [countP_toList, hold] at hcount
  show _ + (s.shared.log ++ (call.step s.shared.table).note.toList).countP (·.sends = some mref)
    + _ + _ = _
  rw [List.countP_append, countP_toList]
  unfold tokens
  dsimp only
  replace hcount : (Calls.advanced s.calls i (call.advance s.shared).2).countP
      (·.holds = some mref) + unit mref call.holds = s.calls.countP (·.holds = some mref)
        + unit mref ((call.step s.shared.table).call.bind TableCall.holds) := hcount
  replace hstep : (call.advance s.shared).1.table.indexed mref + _ + _ + _ = _ := hstep
  omega

/-! ### the links after an operation -/

theorem keeps_idle {seen : Seen} {new : Option TableCall}
    (hprocs : seen.table.processes = s.shared.table.processes)
    (hpoints : ∀ {m}, monitorLinks.points seen m → monitorLinks.points s.shared m)
    (hlisted : ∀ {m}, monitorLinks.points seen m → monitorLinks.listed s.shared m →
      monitorLinks.listed seen m)
    (howns : ∀ {m}, ¬ call.Owns m) (htakes : ∀ {pid}, ¬ call.Takes pid)
    (hcarries : ∀ {m}, ¬ call.Carries m) : monitorLinks.Keeps s call seen new :=
  .of_idle (iff_of_eq (congrArg (_ ∈ ·) hprocs)) hpoints (fun hx hl => Or.inl (hlisted hx hl))
    howns htakes hcarries

theorem listed_untarget (hfree : t.monitorIndex.lookup mref = none)
    (hx : t.monitorIndex.lookup m.mref = some (m.watcher, m.target))
    (hin : (m.mref, m.watcher) ∈ t.watched m.target) :
    (m.mref, m.watcher) ∈ (t.untarget mref target).watched m.target := by
  rw [watched_untarget]
  split
  · refine List.mem_filter.mpr ⟨hin, decide_eq_true fun heq => ?_⟩
    rw [← heq, hx] at hfree
    cases hfree
  · exact hin

theorem keeps_names {call : NameCall}
    (hlive : ∀ pid, call = .remove pid → pid ∉ s.shared.table.processes) :
    monitorLinks.Keeps s (.names call) ((TableCall.names call).advance s.shared).1
      ((TableCall.names call).advance s.shared).2 where
  alive := fun {m} => by
    show m.target ∈ (call.step s.shared.table.toProcessTable).1.processes ↔ _
    rw [NameCall.processes_step]
    cases call with
    | remove pid =>
      dsimp only
      rw [Finset.erase_eq_of_notMem (hlive pid rfl)]
      exact Iff.rfl
    | _ => exact Iff.rfl
  points := Or.inl
  listed := fun _ hin => Or.inl hin
  lists := nofun
  owns := fun _ _ hc => hc.elim
  takes := fun {m} _ hc => by
    cases call with
    | takeList pid => exact ⟨_, rfl, hc⟩
    | removeNames pid names =>
      cases names with
      | nil => exact ⟨_, rfl, hc⟩
      | cons name names => exact ⟨_, rfl, hc⟩
    | _ => exact hc.elim
  carries := fun _ hc => hc.elim

theorem keeps_index (m : Monitor) :
    monitorLinks.Keeps s (.index m) ((TableCall.index m).advance s.shared).1
      (some (.addTarget m)) where
  alive := Iff.rfl
  points := fun {x} hx => by
    have hx' : (s.shared.table.monitorIndex.insert m.mref (m.watcher, m.target)).lookup x.mref
      = some (x.watcher, x.target) := hx
    rcases HashMap.of_lookup_insert hx' with ⟨hr, heq⟩ | ⟨-, hx'⟩
    · have hm : m = x := by
        obtain ⟨mref, watcher, target⟩ := x
        cases heq
        cases hr
        rfl
      exact Or.inr ⟨_, rfl, congrArg _ hm⟩
    · exact Or.inl hx'
  listed := fun _ hin => Or.inl hin
  lists := nofun
  owns := fun _ _ hc => hc.elim
  takes := fun _ hc => hc.elim
  carries := fun _ hc => hc.elim

theorem keeps_addTarget (m : Monitor) :
    monitorLinks.Keeps s (.addTarget m) ((TableCall.addTarget m).advance s.shared).1
      (some (.addWatcher m)) where
  alive := Iff.rfl
  points := Or.inl
  listed := fun {x} _ hin => by
    left
    show (x.mref, x.watcher) ∈ ((TableCall.addTarget m).step s.shared.table).table.watched x.target
    rw [watched_addTarget]
    by_cases hp : x.target = m.target
    · rw [if_pos hp]
      exact List.mem_append_left _ (hp ▸ hin)
    · rw [if_neg hp]
      exact hin
  lists := fun {x} hc => by
    cases hc
    left
    show (m.mref, m.watcher) ∈ ((TableCall.addTarget m).step s.shared.table).table.watched m.target
    rw [watched_addTarget, if_pos rfl]
    exact List.mem_append_right _ (List.mem_singleton_self _)
  owns := fun _ _ hc => ⟨_, rfl, hc⟩
  takes := fun _ hc => hc.elim
  carries := fun _ hc => hc.elim

theorem keeps_addWatcher (m : Monitor) :
    monitorLinks.Keeps s (.addWatcher m) ((TableCall.addWatcher m).advance s.shared).1
      (some (.recheck m)) where
  alive := Iff.rfl
  points := Or.inl
  listed := fun _ hin => Or.inl hin
  lists := nofun
  owns := fun _ _ hc => ⟨_, rfl, hc⟩
  takes := fun _ hc => hc.elim
  carries := fun _ hc => hc.elim

theorem keeps_takeTarget (hdead : pid ∉ s.shared.table.processes) :
    monitorLinks.Keeps s (.takeTarget pid) ((TableCall.takeTarget pid).advance s.shared).1
      (some (.fire pid (s.shared.table.watched pid))) where
  alive := Iff.rfl
  points := Or.inl
  listed := fun {x} _ hin => by
    have hin' : (x.mref, x.watcher) ∈ s.shared.table.watched x.target := hin
    by_cases hp : x.target = pid
    · have hd : x.target ∉ s.shared.table.processes := hp.symm ▸ hdead
      exact Or.inr (Or.inr ⟨hd, _, rfl, hp.symm, hp ▸ hin'⟩)
    · left
      show _ ∈ ((TableCall.takeTarget pid).step s.shared.table).table.watched x.target
      rw [watched_takeTarget, if_neg hp]
      exact hin'
  lists := nofun
  owns := fun _ _ hc => hc.elim
  takes := fun {x} hin hc => by
    have hin' : _ ∈ ((TableCall.takeTarget pid).step s.shared.table).table.watched x.target := hin
    rw [watched_takeTarget, if_pos hc.symm] at hin'
    exact absurd hin' List.not_mem_nil
  carries := fun _ hc => hc.elim

theorem keeps_fired {seen : Seen}
    (hprocs : seen.table.processes = s.shared.table.processes)
    (hpoints : ∀ {m}, monitorLinks.points seen m → monitorLinks.points s.shared m)
    (hlisted : ∀ {m}, monitorLinks.listed s.shared m → monitorLinks.listed seen m)
    (hcarries : ∀ {m}, monitorLinks.points seen m → call.Carries m → c.Carries m)
    (howns : ∀ {m}, ¬ call.Owns m) (htakes : ∀ {pid}, ¬ call.Takes pid) :
    monitorLinks.Keeps s call seen (some c) where
  alive := iff_of_eq (congrArg (_ ∈ ·) hprocs)
  points := fun hx => Or.inl (hpoints hx)
  listed := fun _ hin => Or.inl (hlisted hin)
  lists := fun {m} hc => absurd (hc ▸ rfl : call.Owns m) howns
  owns := fun _ _ hc => absurd hc howns
  takes := fun _ hc => absurd hc htakes
  carries := fun hx hc => ⟨c, rfl, hcarries hx hc⟩

theorem Accounted.keeps (h : Accounted s) (hi : s.calls[i]? = some call)
    (hlive : ∀ pid, call = .names (.remove pid) → pid ∉ s.shared.table.processes) :
    monitorLinks.Keeps s call (call.advance s.shared).1 (call.advance s.shared).2 := by
  have hfree : ∀ {mref}, call.holds = some mref →
      s.shared.table.monitorIndex.lookup mref = none := fun hc => h.free hi hc
  have hknows := h.calls call (List.mem_of_getElem? hi)
  rw [TableCall.advance]
  fun_cases TableCall.step s.shared.table call <;>
    try exact keeps_idle rfl id (fun _ hin => hin) id id id
  next => exact keeps_names fun pid heq => hlive pid (congrArg _ heq)
  next => exact keeps_index _
  next => exact keeps_addTarget _
  next => exact keeps_addWatcher _
  next hp => exact .of_owner Iff.rfl id id nofun id id fun _ hd hc => absurd (hc ▸ hp) hd
  next => exact .of_owner Iff.rfl id id nofun id id fun _ _ hc => ⟨_, rfl, hc⟩
  next =>
    refine .of_owner Iff.rfl (fun hx => (lookup_of_unindex hx).2) id nofun id id fun hx _ hc => ?_
    exact absurd (congrArg Monitor.mref hc).symm (lookup_of_unindex hx).1
  next m hv =>
    refine .of_owner Iff.rfl id id nofun id id fun {x} hx _ hc => ?_
    obtain rfl : m = x := hc
    cases hv.symm.trans hx
  next => exact keeps_idle rfl id (listed_untarget (hfree rfl)) id id id
  next m =>
    obtain ⟨-, hprocs, hindex, -⟩ := untargetEmpty_rest s.shared.table m.target
    refine keeps_idle hprocs (fun {x} hx => ?_) (fun {x} _ hin => ?_) id id id
    · show s.shared.table.monitorIndex.lookup x.mref = _
      rw [← hindex]
      exact hx
    · show _ ∈ (s.shared.table.untargetEmpty m.target).watched x.target
      rw [watched_untargetEmpty]
      exact hin
  next =>
    rw [Table.unwatchEmpty]
    split <;> exact keeps_idle rfl id (fun _ hin => hin) id id id
  next => exact keeps_takeTarget (h.known.cleaned (hknows.needs (List.mem_singleton_self _)))
  next => exact keeps_idle rfl id (fun _ hin => hin) id id fun hc => absurd hc.2 List.not_mem_nil
  next =>
    refine keeps_fired rfl (fun hx => (lookup_of_unindex hx).2) id (fun hx hc => ?_) id id
    refine ⟨hc.1, (List.mem_cons.mp hc.2).resolve_left fun heq => ?_⟩
    exact (lookup_of_unindex hx).1 (congrArg Prod.fst heq)
  next mref _ _ hv =>
    refine keeps_fired rfl id id (fun {x} hx hc => ?_) id id
    refine ⟨hc.1, (List.mem_cons.mp hc.2).resolve_left fun heq => ?_⟩
    obtain rfl : x.mref = mref := congrArg Prod.fst heq
    cases hv.symm.trans hx
  next => exact keeps_fired rfl id id (fun _ hc => hc) id id
  next => exact keeps_fired rfl id id (fun _ hc => hc) id id
  next => exact keeps_idle rfl (fun hx => (lookup_of_unindex hx).2) (fun _ hin => hin) id id id
  next => exact keeps_idle rfl id (listed_untarget (hfree rfl)) id id id
  next => exact keeps_idle rfl (fun hx => (lookup_of_unindex hx).2) (fun _ hin => hin) id id id
  next => exact keeps_idle rfl id (listed_untarget (hfree rfl)) id id id

theorem Accounted.links_advance (h : Accounted s) (hi : s.calls[i]? = some call) :
    monitorLinks.Covered
      ⟨(call.advance s.shared).1, Calls.advanced s.calls i (call.advance s.shared).2⟩ := by
  by_cases hlive : ∃ pid, call = .names (.remove pid) ∧ pid ∈ s.shared.table.processes
  · obtain ⟨pid, rfl, hp⟩ := hlive
    have hprocs : ((TableCall.names (.remove pid)).advance s.shared).1.table.processes
        = s.shared.table.processes.erase pid := NameCall.processes_step _ _
    have hnew : ((TableCall.names (.remove pid)).advance s.shared).2
        = some (.names (.takeList pid)) := by
      rw [TableCall.advance, TableCall.step, NameCall.step, if_pos hp]
      rfl
    rw [hnew]
    refine h.links.death hi id id (fun {m} ha => ?_) (fun {m} ha hd => ?_) ⟨id, id, id⟩
    · have ha' : m.target ∈ ((TableCall.names (.remove pid)).advance s.shared).1.table.processes :=
        ha
      rw [hprocs] at ha'
      exact Finset.mem_of_mem_erase ha'
    · show pid = m.target
      by_contra hne
      refine hd ?_
      show m.target ∈ ((TableCall.names (.remove pid)).advance s.shared).1.table.processes
      rw [hprocs]
      exact Finset.mem_erase.mpr ⟨fun heq => hne heq.symm, ha⟩
  · exact (h.keeps hi fun pid heq hp => hlive ⟨pid, heq, hp⟩).covered h.links hi

/-! ## runs -/

theorem counter_step (t : Table) (call : TableCall) :
    (call.step t).table.monitorCounter
      = t.monitorCounter + (call.issues t).toList.length := by
  fun_cases TableCall.step t call <;> try rfl
  · exact (untargetEmpty_rest t _).1
  · exact (unwatchEmpty_rest t _).1

theorem issues_eq (h : call.issues t = some mref) : mref = t.monitorCounter := by
  cases call with
  | monitor watcher target => exact (Option.some.inj h).symm
  | _ => cases h

theorem TableCall.Knows.forgotten (hc : call.Knows log) (h : Known t log) (hm : .issued m ∈ log)
    (hf : call.forgets = some m.mref) : .cleaned m.watcher ∈ log ∨ .released m.mref ∈ log := by
  cases call with
  | dropTarget pid mref target mrefs =>
    -- the reference was on the list of this watcher
    obtain ⟨target', hissued⟩ := hc.drops _ List.mem_cons_self
    rw [← h.unique hissued hm (Option.some.inj hf)]
    exact Or.inl (hc.needs (List.mem_singleton_self _))
  | demonitorTarget m' =>
    exact Or.inr (Option.some.inj hf ▸ hc.needs (List.mem_singleton_self _))
  | _ => cases hf

theorem issued_cases (hm : .issued m ∈ log ++ (call.step t).note.toList) :
    .issued m ∈ log ∨ call.issues t = some m.mref := by
  rcases List.mem_append.mp hm with hm | hm
  · exact Or.inl hm
  · right
    rw [Option.mem_toList] at hm
    revert hm
    fun_cases TableCall.step t call <;> intro hnote <;> try cases hnote
    · obtain ⟨pid, -, -, heq⟩ := namesNote_cases hnote
      cases heq
    · rw [← Note.issued.inj (Option.some.inj hnote)]
      rfl

/-- **Every operation keeps the invariant.** -/
theorem Accounted.advance (h : Accounted s) (hi : s.calls[i]? = some call) :
    Accounted ⟨(call.advance s.shared).1, Calls.advanced s.calls i (call.advance s.shared).2⟩ := by
  have hknows := h.calls call (List.mem_of_getElem? hi)
  have hcounter : (call.advance s.shared).1.table.monitorCounter
      = s.shared.table.monitorCounter + (call.issues s.shared.table).toList.length :=
    counter_step s.shared.table call
  have htokens := fun mref => h.tokens_advance hi mref
  refine ⟨known_step h.known hknows, fun c hc => ?_, fun mref => ?_, fun mref hle => ?_,
    fun {m} hm => ?_, h.links_advance hi⟩
  · rcases Calls.mem_advanced hc with hc | hnew
    · exact (h.calls c hc).mono
    · exact knows_step h.known hknows hnew
  · have heq := htokens mref
    have hone := h.once mref
    by_cases hissue : call.issues s.shared.table = some mref
    · have hzero := h.fresh mref (Nat.le_of_eq (issues_eq hissue).symm)
      rw [unit, unit, if_pos hissue] at heq
      omega
    · rw [unit, unit, if_neg hissue] at heq
      omega
  · have heq := htokens mref
    have hle' : (call.advance s.shared).1.table.monitorCounter ≤ mref := hle
    have hzero := h.fresh mref (by omega)
    have hissue : call.issues s.shared.table ≠ some mref := by
      intro hissue
      have hnew := issues_eq hissue
      rw [hcounter, hissue, Option.toList_some, List.length_singleton] at hle'
      omega
    rw [unit, unit, if_neg hissue] at heq
    omega
  · have heq := htokens m.mref
    have hleft : ∀ {n}, n ∈ s.shared.log → n ∈ (call.advance s.shared).1.log :=
      fun hn => List.mem_append_left _ hn
    have hone := h.once m.mref
    rcases issued_cases hm with hm | hissue
    · rcases h.kept hm with htoken | hgone | hgone
      · by_cases hforget : call.forgets = some m.mref
        · exact Or.inr ((hknows.forgotten h.known hm hforget).imp hleft hleft)
        · have hissue : call.issues s.shared.table ≠ some m.mref := by
            intro hissue
            have hlt := h.known.refs hm
            have hnew := issues_eq hissue
            omega
          rw [unit, unit, if_neg hissue, if_neg hforget] at heq
          exact Or.inl (by omega)
      · exact Or.inr (Or.inl (hleft hgone))
      · exact Or.inr (Or.inr (hleft hgone))
    · have hzero := h.fresh m.mref (Nat.le_of_eq (issues_eq hissue).symm)
      have hforget : call.forgets ≠ some m.mref := by
        cases call with
        | monitor watcher target => exact nofun
        | _ => cases hissue
      rw [unit, unit, if_pos hissue, if_neg hforget] at heq
      exact Or.inl (by omega)

theorem accounted_start (h : tableMachine.start s) : Accounted s := by
  obtain ⟨⟨htarget, hwatcher, hindex, hlog⟩, hcalls⟩ := h
  have hnone : ∀ {mref v}, s.shared.table.monitorIndex.lookup mref ≠ some v := by
    intro mref v hv
    rw [hindex, AList.lookup_empty] at hv
    cases hv
  have hnote : ∀ {n}, n ∉ s.shared.log := by
    intro n hn
    rw [hlog] at hn
    exact absurd hn List.not_mem_nil
  have hzero : ∀ mref, tokens s mref = 0 := by
    intro mref
    rw [tokens, Table.indexed, hindex, hlog, hcalls, AList.lookup_empty]
    rfl
  refine ⟨⟨fun hm => absurd hm hnote, fun hm => absurd hm hnote, fun hv => absurd hv hnone,
    fun {r w p} hin => ?_, fun {r w} hin => ?_, fun hp => absurd hp hnote,
    fun hd => absurd hd hnote⟩, fun c hc => ?_, fun mref => ?_, fun mref _ => hzero mref,
    fun hm => absurd hm hnote, .of_empty hnone⟩
  · rw [Table.watched, htarget, AList.lookup_empty] at hin
    exact absurd hin List.not_mem_nil
  · rw [Table.watching, hwatcher, AList.lookup_empty] at hin
    exact absurd hin List.not_mem_nil
  · rw [hcalls] at hc
    exact absurd hc List.not_mem_nil
  · rw [hzero]
    exact Nat.zero_le 1

theorem knows_of_opens (hopen : call.opens = true) : call.Knows log ∧ call.holds = none := by
  have hempty : call.needs = [] ∧ call.drops = [] ∧ call.holds = none := by
    unfold TableCall.opens at hopen
    split at hopen <;> first | exact ⟨rfl, rfl, rfl⟩ | cases hopen
  obtain ⟨hneeds, hdrops, hholds⟩ := hempty
  refine ⟨⟨hneeds ▸ List.nil_subset _, fun e he => ?_⟩, hholds⟩
  rw [hdrops] at he
  exact absurd he List.not_mem_nil

theorem Accounted.invoke (h : Accounted s) (hopen : call.opens = true) :
    Accounted ⟨s.shared, s.calls ++ [call]⟩ := by
  obtain ⟨hknows, hholds⟩ : call.Knows s.shared.log ∧ call.holds = none := knows_of_opens hopen
  have htokens : ∀ mref, tokens ⟨s.shared, s.calls ++ [call]⟩ mref = tokens s mref := by
    intro mref
    unfold tokens
    rw [List.countP_append, List.countP_singleton, hholds]
    rfl
  refine ⟨h.known, fun c hc => ?_, fun mref => ?_, fun mref hle => ?_, fun hm => ?_,
    h.links.invoke call⟩
  · rcases List.mem_append.mp hc with hc | hc
    · exact h.calls c hc
    · rw [List.mem_singleton.mp hc]
      exact hknows
  · rw [htokens]
    exact h.once mref
  · rw [htokens]
    exact h.fresh mref hle
  · rw [htokens]
    exact h.kept hm

theorem accounted_of_reach (h : tableMachine.Reach Machine.Anytime s) : Accounted s := by
  refine h.inv (fun s hs => accounted_start hs) fun s a t hs _ hn => ?_
  rcases Calls.next_cases hn with ⟨call, -, hopen, rfl⟩ | ⟨i, call, rfl, hi, rfl⟩
  · exact hs.invoke hopen
  · exact hs.advance hi

def downsFor (s : Watches) (mref : Nat) : List Note :=
  s.shared.log.filter (·.sends = some mref)

theorem Accounted.length_downsFor (h : Accounted s) (mref : Nat) :
    (downsFor s mref).length ≤ 1 := by
  have hone := h.once mref
  rw [tokens] at hone
  rw [downsFor, ← List.countP_eq_length_filter]
  omega

theorem Accounted.downsFor_eq (h : Accounted s) (hm : .issued m ∈ s.shared.log)
    (hlen : (downsFor s m.mref).length = 1) :
    ∃ reason reached, downsFor s m.mref = [.sent m.watcher ⟨m.mref, m.target, reason⟩ reached] ∧
      (m.watcher ∈ s.shared.table.processes → reached = true) := by
  obtain ⟨note, hnote⟩ := List.length_eq_one_iff.mp hlen
  have hmem : note ∈ downsFor s m.mref := hnote ▸ List.mem_singleton_self note
  obtain ⟨hlog, hsends⟩ := List.mem_filter.mp hmem
  cases note with
  | sent watcher down reached =>
    obtain ⟨hissued, hreached⟩ := h.known.sent hlog
    have hmref : down.monitorRef = m.mref := Option.some.inj (of_decide_eq_true hsends)
    have hsame := h.known.unique hissued hm hmref
    obtain ⟨mref, pid, reason⟩ := down
    cases hsame
    exact ⟨reason, reached, hnote, hreached⟩
  | _ => cases of_decide_eq_true hsends

theorem TableCall.processes_step (t : Table) (call : TableCall) :
    (call.step t).table.processes ⊆ t.processes := by
  have hsame : ∀ {u : Table}, u.processes = t.processes → u.processes ⊆ t.processes :=
    Finset.subset_of_eq
  fun_cases TableCall.step t call <;> try exact hsame rfl
  · exact processes_names t _
  · exact hsame (untargetEmpty_rest t _).2.1
  · exact hsame (unwatchEmpty_rest t _).2

theorem processes_of_reach {s t : Watches} (h : (tableMachine.startedAt s).Reach Machine.Anytime t) :
    t.shared.table.processes ⊆ s.shared.table.processes := by
  refine h.inv (I := fun t => t.shared.table.processes ⊆ s.shared.table.processes) ?_ ?_
  · rintro t rfl
    exact Finset.Subset.refl _
  · rintro t a u hsub - hn
    rcases Calls.next_cases hn with ⟨call, -, -, rfl⟩ | ⟨i, call, rfl, -, rfl⟩
    · exact hsub
    · exact (TableCall.processes_step _ call).trans hsub

/-- **At most one message is ever sent for a reference; and once all calls have returned, exactly one
has been sent to the watcher if the target is gone**, unless the watcher was cleaned up or the
monitor released.  A process is gone for good with the first operation of its cleanup. -/
theorem down_once (h : tableMachine.Reach Machine.Anytime s) :
    (∀ mref, (downsFor s mref).length ≤ 1) ∧
    (s.calls = [] → ∀ m, .issued m ∈ s.shared.log →
      .cleaned m.target ∈ s.shared.log ∨ m.target ∉ s.shared.table.processes →
      .cleaned m.watcher ∉ s.shared.log → .released m.mref ∉ s.shared.log →
      ∃ reason reached, downsFor s m.mref = [.sent m.watcher ⟨m.mref, m.target, reason⟩ reached] ∧
        (m.watcher ∈ s.shared.table.processes → reached = true)) ∧
    ∀ i pid s' t, s.calls[i]? = some (.names (cleanupProcess pid)) →
      tableMachine.next s (.advance i) = some s' →
      (tableMachine.startedAt s').Reach Machine.Anytime t → pid ∉ t.shared.table.processes := by
  have hs := accounted_of_reach h
  refine ⟨hs.length_downsFor, fun hcalls m hm hgone hwatcher hreleased => ?_,
    fun i pid s' t hi hn ht hpid => ?_⟩
  swap
  · obtain ⟨call, hi', rfl⟩ := Option.map_eq_some_iff.mp hn
    cases hi.symm.trans hi'
    have hleft : pid ∈ ((cleanupProcess pid).step s.shared.table.toProcessTable).1.processes :=
      processes_of_reach ht hpid
    rw [NameCall.processes_step] at hleft
    exact Finset.notMem_erase pid _ hleft
  have hdead : m.target ∉ s.shared.table.processes := hgone.elim hs.known.cleaned id
  refine hs.downsFor_eq hm ?_
  have htoken : tokens s m.mref = 1 :=
    (hs.kept hm).resolve_right fun hlost => hlost.elim hwatcher hreleased
  have hindex : s.shared.table.monitorIndex.lookup m.mref = none := by
    cases hl : s.shared.table.monitorIndex.lookup m.mref with
    | none => rfl
    | some v =>
      -- a monitor in the index is that of the reference, and its target is alive
      have hsame := hs.known.unique (hs.known.index hl) hm rfl
      have hpoints : monitorLinks.points s.shared m := by
        show s.shared.table.monitorIndex.lookup m.mref = some (m.watcher, m.target)
        rw [hl, ← hsame]
      exact absurd (hs.links.alive_of_quiet hcalls hpoints) hdead
  rw [tokens, Table.indexed, hindex, hcalls, Option.toList_none] at htoken
  rw [downsFor, ← List.countP_eq_length_filter]
  simpa using htoken

def Seen.couple : Seen := ⟨⟨.couple, ∅, ∅, ∅, 1⟩, []⟩

theorem couple_reach (ok : Watches → Calls.Label TableCall → Prop) :
    tableMachine.Reach ok ⟨.couple, []⟩ :=
  .start ⟨⟨rfl, rfl, rfl, rfl⟩, rfl⟩

/-- 1.1 monitors 1.2 twice; 1.2 dies after the second call has looked whether it is alive -/
private def overtaken : List (Calls.Label TableCall) :=
  List.flatten [[.invoke (monitor ⟨1, 1⟩ ⟨1, 2⟩)], .replicate 6 (.advance 0),
    [.invoke (monitor ⟨1, 1⟩ ⟨1, 2⟩)], .replicate 2 (.advance 0),
    [.invoke (.names (cleanupProcess ⟨1, 2⟩))], .replicate 10 (.advance 1),
    .replicate 10 (.advance 0)]

theorem down_once_overtaken : ∃ s, tableMachine.Reach Machine.Anytime s ∧
    (∃ reached, downsFor s 1 = [.sent ⟨1, 1⟩ ⟨1, ⟨1, 2⟩, "exit"⟩ reached] ∧
      (⟨1, 1⟩ ∈ s.shared.table.processes → reached = true)) ∧
    ∃ reached, downsFor s 2 = [.sent ⟨1, 1⟩ ⟨2, ⟨1, 2⟩, "noproc"⟩ reached] ∧
      (⟨1, 1⟩ ∈ s.shared.table.processes → reached = true) := by
  obtain ⟨s, hs, hcalls, h1, h2, hgone, hwatcher, hr1, hr2, hexit, hnoproc⟩ :=
    (couple_reach Machine.Anytime).exists_run overtaken
    (p := fun s => s.calls = [] ∧ Note.issued ⟨1, ⟨1, 1⟩, ⟨1, 2⟩⟩ ∈ s.shared.log ∧
      Note.issued ⟨2, ⟨1, 1⟩, ⟨1, 2⟩⟩ ∈ s.shared.log ∧ Note.cleaned ⟨1, 2⟩ ∈ s.shared.log ∧
      Note.cleaned ⟨1, 1⟩ ∉ s.shared.log ∧ Note.released 1 ∉ s.shared.log ∧
      Note.released 2 ∉ s.shared.log ∧
      downsFor s 1 = [.sent ⟨1, 1⟩ ⟨1, ⟨1, 2⟩, "exit"⟩ true] ∧
      downsFor s 2 = [.sent ⟨1, 1⟩ ⟨2, ⟨1, 2⟩, "noproc"⟩ true]) (by decide)
  have hdown := (down_once hs).2.1 hcalls
  obtain ⟨_, _, heq1, hreached1⟩ := hdown _ h1 (Or.inl hgone) hwatcher hr1
  obtain ⟨_, _, heq2, hreached2⟩ := hdown _ h2 (Or.inl hgone) hwatcher hr2
  cases heq1.symm.trans hexit
  cases heq2.symm.trans hnoproc
  exact ⟨s, hs, ⟨_, heq1, hreached1⟩, _, heq2, hreached2⟩

end Rebar.Process

import Rebar.Lib.Mirror
import Rebar.Process.Downs
import Rebar.Process.Registration

/-!
# Calls on the process table that do not overlap

Each call runs to its end before the next one begins.  Then the five maps of the table agree: the
names with their lists, and the index of the monitors with the lists of targets and of watchers.
-/

namespace Rebar.Process

open HashMap

/-! ## calls run to their end -/

/-- the call runs to its end, if `fuel` operations are enough -/
def TableCall.finish : Nat → Table → TableCall → Option Table
  | 0, _, _ => none
  | fuel + 1, t, call =>
    match (call.step t).call with
    | none => some (call.step t).table
    | some next => finish fuel (call.step t).table next

inductive Request where
  | insert (pid : ProcessId)
  /-- a public call, with the number of operations it may take -/
  | call (call : TableCall) (fuel : Nat)

/-- the runs from an empty table; the counter of references is shared with other tables -/
def serialMachine : Machine Table Request where
  start := fun t => ∃ nodeId counter, t = ⟨.new nodeId, ∅, ∅, ∅, counter⟩
  next := fun t a => match a with
    | .insert pid => some { t with toProcessTable := t.toProcessTable.insert pid }
    | .call call fuel => if call.opens then call.finish fuel t else none

/-- the call comes to an end, in a table that meets the postcondition -/
def Ends (t : Table) (call : TableCall) (Q : Table → Prop) : Prop :=
  ∃ fuel t', call.finish fuel t = some t' ∧ Q t'

variable {t t' : Table} {call c : TableCall} {Q : Table → Prop} {fuel fuel' : Nat}

theorem finish_unique {u u' : Table} (h : call.finish fuel t = some u)
    (h' : call.finish fuel' t = some u') : u = u' := by
  induction fuel generalizing t call fuel' with
  | zero => cases h
  | succ fuel ih =>
    cases fuel' with
    | zero => cases h'
    | succ fuel' =>
      rw [TableCall.finish] at h h'
      cases hc : (call.step t).call with
      | none =>
        rw [hc] at h h'
        exact Option.some.inj (h.symm.trans h')
      | some next =>
        rw [hc] at h h'
        exact ih h h'

theorem Ends.post (h : Ends t call Q) (hf : call.finish fuel t = some t') : Q t' := by
  obtain ⟨fuel', u, hu, hQ⟩ := h
  rw [finish_unique hf hu]
  exact hQ

theorem Ends.last {u : Table} {note : Option Note} (hstep : call.step t = ⟨u, none, note⟩)
    (hQ : Q u) : Ends t call Q := by
  refine ⟨1, u, ?_, hQ⟩
  rw [TableCall.finish, hstep]

theorem Ends.next {u : Table} {note : Option Note} (hstep : call.step t = ⟨u, some c, note⟩)
    (h : Ends u c Q) : Ends t call Q := by
  obtain ⟨fuel, t', ht', hQ⟩ := h
  refine ⟨fuel + 1, t', ?_, hQ⟩
  rw [TableCall.finish, hstep]
  exact ht'

section Names

def NameCall.served : NameCall → Bool
  | .removeNames _ [] => true
  | _ => false

def Progress.goesOn : Progress → Option TableCall
  | .next n => some (.names n)
  | .returned _ => none

variable {name n : NameCall} {pt : ProcessTable} {value : Returned}

theorem afterNames_of_ne (hgo : name.served = false) (progress : Progress) :
    afterNames name progress = progress.goesOn := by
  cases name with
  | removeNames pid names =>
    cases names with
    | nil => cases hgo
    | cons n names => cases progress <;> rfl
  | _ => cases progress <;> rfl

theorem names_step (t : Table) (hgo : name.served = false) {progress : Progress}
    (hstep : name.step t.toProcessTable = (pt, progress)) :
    (TableCall.names name).step t
      = ⟨{ t with toProcessTable := pt }, progress.goesOn, namesNote t name⟩ := by
  rw [TableCall.step, hstep, afterNames_of_ne hgo]

theorem Ends.names_next (hstep : name.step t.toProcessTable = (pt, .next n))
    (hgo : name.served = false) (h : Ends { t with toProcessTable := pt } (.names n) Q) :
    Ends t (.names name) Q :=
  .next (names_step t hgo hstep) h

theorem Ends.names_last (hstep : name.step t.toProcessTable = (pt, .returned value))
    (hgo : name.served = false) (hQ : Q { t with toProcessTable := pt }) :
    Ends t (.names name) Q :=
  .last (names_step t hgo hstep) hQ

end Names

/-! ## the names -/

def ProcessTable.Owned (pt : ProcessTable) : Prop :=
  ∀ pid names, pt.namesByPid.lookup pid = some names → pid ∈ pt.processes

/-- the names and the lists of names mirror each other, and only live processes have a list -/
structure NamesExact (pt : ProcessTable) : Prop where
  mirror : Mirrors (fun name pid => pt.names.lookup name = some pid) pt.listed
  owners : pt.Owned

variable {pt : ProcessTable} {name n : String} {pid p old : ProcessId}

theorem NamesExact.live (h : NamesExact pt) (hn : pt.names.lookup name = some pid) :
    pid ∈ pt.processes := by
  obtain ⟨names, hl⟩ := exists_of_mem_getD (h.mirror.mem.mpr hn)
  exact h.owners pid names hl

theorem owned_unlist (pt : ProcessTable) (h : pt.Owned) (name : String) (old : ProcessId) :
    (pt.unlist name old).Owned := by
  intro pid names hn
  obtain ⟨names', hnames'⟩ := exists_of_lookup_modify hn
  exact h pid names' hnames'

/-- the name has been given to the process and is on no list -/
structure Claimed (name : String) (pid : ProcessId) (pt : ProcessTable) : Prop where
  mirror : Mirrors (fun n p => n ≠ name ∧ pt.names.lookup n = some p) pt.listed
  claim : pt.names.lookup name = some pid
  owners : pt.Owned
  live : pid ∈ pt.processes

theorem NamesExact.claim_vacant (h : NamesExact pt) (hnone : pt.names.lookup name = none)
    (hlive : pid ∈ pt.processes) :
    Claimed name pid { pt with names := pt.names.insert name pid } where
  mirror := h.mirror.congr (fun n p => by
    rw [lookup_insert_iff hnone]
    refine ⟨fun hp => hp.2.resolve_right fun heq => hp.1 heq.1, fun hp => ⟨?_, Or.inl hp⟩⟩
    rintro rfl
    rw [hnone] at hp
    cases hp) fun _ => rfl
  claim := by rw [lookup_insert_if, if_pos rfl]
  owners := h.owners
  live := hlive

theorem NamesExact.claim_taken (h : NamesExact pt) (hold : pt.names.lookup name = some old)
    (hlive : pid ∈ pt.processes) :
    Claimed name pid ({ pt with names := pt.names.insert name pid }.unlist name old) where
  mirror := by
    refine h.mirror.filter (· ≠ name) old ?_ ?_
      (ProcessTable.listed_unlist { pt with names := pt.names.insert name pid } name old)
    · intro n p hn hp
      rw [not_not.mp hp, hold] at hn
      exact (Option.some.inj hn).symm
    · intro n p
      show n ≠ name ∧ (pt.names.insert name pid).lookup n = some p ↔ _
      rw [lookup_insert_if, and_comm]
      refine and_congr_left fun hn => ?_
      rw [if_neg hn]
  claim := by
    show (pt.names.insert name pid).lookup name = some pid
    rw [lookup_insert_if, if_pos rfl]
  owners := owned_unlist { pt with names := pt.names.insert name pid } h.owners name old
  live := hlive

theorem Claimed.push (h : Claimed name pid pt) :
    NamesExact { pt with namesByPid := pt.namesByPid.insert pid (pt.listed pid ++ [name]) } where
  mirror := by
    refine h.mirror.push name pid (fun hn => hn.1 rfl) ?_ ?_
    · intro n p
      show pt.names.lookup n = some p ↔ _
      by_cases hn : n = name
      · rw [hn, h.claim]
        constructor
        · intro hp
          exact Or.inr ⟨rfl, (Option.some.inj hp).symm⟩
        · rintro (hp | hp)
          · exact absurd rfl hp.1
          · rw [hp.2]
      · rw [or_iff_left fun hp => hn hp.1, and_iff_right hn]
    · intro p
      refine (getD_insert pt.namesByPid pid p _).trans ?_
      split
      next hp => rw [hp]
      next => rfl
  owners := fun p names hn => by
    rcases of_lookup_insert hn with ⟨hp, -⟩ | ⟨-, hn⟩
    · exact hp ▸ h.live
    · exact h.owners p names hn

theorem NamesExact.forget (h : NamesExact pt) (hn : pt.names.lookup name = some pid) :
    NamesExact ({ pt with names := pt.names.erase name }.unlist name pid) where
  mirror := by
    refine h.mirror.filter (· ≠ name) pid ?_ (fun _ _ => lookup_erase_iff)
      (ProcessTable.listed_unlist { pt with names := pt.names.erase name } name pid)
    intro n p hp hno
    rw [not_not.mp hno, hn] at hp
    exact (Option.some.inj hp).symm
  owners := owned_unlist { pt with names := pt.names.erase name } h.owners name pid

/-- a cleanup of the process: it has no list any more, and the names still to be removed are at hand -/
structure Unnaming (pid : ProcessId) (names : List String) (pt : ProcessTable) : Prop where
  mirror : Mirrors (fun n p => pt.names.lookup n = some p)
    fun p => if p = pid then names else pt.listed p
  owners : pt.Owned
  gone : pt.namesByPid.lookup pid = none
  dead : pid ∉ pt.processes

theorem NamesExact.unnaming (h : NamesExact pt) (pid : ProcessId) :
    Unnaming pid (pt.listed pid)
      { pt with processes := pt.processes.erase pid, namesByPid := pt.namesByPid.erase pid } where
  mirror := h.mirror.congr (fun _ _ => Iff.rfl) (getD_taken pt.namesByPid pid)
  owners := fun p names hn => by
    obtain ⟨hp, hn⟩ := of_lookup_erase hn
    exact Finset.mem_erase.mpr ⟨hp, h.owners p names hn⟩
  gone := by rw [lookup_erase_if, if_pos rfl]
  dead := Finset.notMem_erase pid _

theorem Unnaming.tail {names : List String} (h : Unnaming pid (name :: names) pt) :
    Unnaming pid names (pt.removeName name pid) := by
  have hn : pt.names.lookup name = some pid := h.mirror.mem.mp (by
    rw [if_pos rfl]
    exact List.mem_cons_self)
  have heq : pt.removeName name pid = { pt with names := pt.names.erase name } := if_pos hn
  have hhead : (if pid = pid then name :: names else pt.listed pid) = name :: names := if_pos rfl
  rw [heq]
  refine ⟨h.mirror.tail hhead ?_ (fun _ _ => lookup_erase_iff) ?_, h.owners, h.gone, h.dead⟩
  · intro p hp
    rw [hn] at hp
    exact (Option.some.inj hp).symm
  · intro p
    split <;> rfl

theorem Unnaming.nil (h : Unnaming pid [] pt) : NamesExact pt where
  mirror := h.mirror.congr (fun _ _ => Iff.rfl) fun p => by
    by_cases hp : p = pid
    · rw [if_pos hp, hp, ProcessTable.listed, h.gone]
      rfl
    · rw [if_neg hp]
  owners := h.owners

/-! ## the monitors -/

structure MonitorsExact (index : HashMap Nat (ProcessId × ProcessId)) (counter : Nat)
    (watched : ProcessId → List (Nat × ProcessId)) (watching : ProcessId → List Nat) : Prop where
  target : Mirrors (fun e target => index.lookup e.1 = some (e.2, target)) watched
  watcher : Mirrors (fun mref watcher => ∃ target, index.lookup mref = some (watcher, target))
    watching
  issued : ∀ mref v, index.lookup mref = some v → mref < counter

variable {mref : Nat} {watcher target : ProcessId}
  {index : HashMap Nat (ProcessId × ProcessId)} {counter : Nat}
  {watched watched' : ProcessId → List (Nat × ProcessId)} {watching watching' : ProcessId → List Nat}

theorem MonitorsExact.unindex (h : MonitorsExact index counter watched watching)
    (hm : index.lookup mref = some (watcher, target))
    (htarget : watched' = fun p => if p = target then (watched p).filter (·.1 ≠ mref) else watched p)
    (hwatcher : watching' = fun p =>
      if p = watcher then (watching p).filter (· ≠ mref) else watching p) :
    MonitorsExact (index.erase mref) counter watched' watching' where
  target := by
    refine h.target.filter (·.1 ≠ mref) target ?_ (fun _ _ => lookup_erase_iff)
      fun p => by rw [htarget]
    intro e p he hno
    rw [not_not.mp hno, hm] at he
    cases he
    rfl
  watcher := by
    refine h.watcher.filter (· ≠ mref) watcher ?_ (fun r p => ?_) fun p => by rw [hwatcher]
    · rintro r p ⟨q, hr⟩ hno
      rw [not_not.mp hno, hm] at hr
      cases hr
      rfl
    · simp only [lookup_erase_iff, exists_and_right]
  issued := fun r v hr => by
    obtain ⟨-, hr⟩ := of_lookup_erase hr
    exact h.issued r v hr

theorem MonitorsExact.filter_target (h : MonitorsExact index counter watched watching)
    {entries : List (Nat × ProcessId)} (hl : watched target = (mref, watcher) :: entries) :
    entries.filter (·.1 ≠ mref) = entries := by
  have hnodup := List.nodup_cons.mp (hl ▸ h.target.nodup target)
  have hhead : index.lookup mref = some (watcher, target) :=
    h.target.mem.mp (hl ▸ List.mem_cons_self)
  rw [List.filter_eq_self]
  rintro ⟨r, w⟩ he
  refine decide_eq_true fun heq => ?_
  have hr : index.lookup r = some (w, target) :=
    h.target.mem.mp (hl ▸ List.mem_cons_of_mem _ he)
  rw [show r = mref from heq] at hr he
  cases hhead.symm.trans hr
  exact hnodup.1 he

theorem MonitorsExact.filter_watcher (h : MonitorsExact index counter watched watching)
    {mrefs : List Nat}
    (hl : watching watcher = mref :: mrefs) : mrefs.filter (· ≠ mref) = mrefs := by
  have hnodup := List.nodup_cons.mp (hl ▸ h.watcher.nodup watcher)
  rw [List.filter_eq_self]
  intro r hr
  refine decide_eq_true ?_
  rintro rfl
  exact hnodup.1 hr

theorem MonitorsExact.add (h : MonitorsExact t.monitorIndex t.monitorCounter t.watched t.watching)
    (watcher target : ProcessId) :
    let u : Table :=
      { t with
        monitorIndex := t.monitorIndex.insert t.monitorCounter (watcher, target)
        monitorsByTarget :=
          t.monitorsByTarget.insert target (t.watched target ++ [(t.monitorCounter, watcher)])
        monitorsByWatcher :=
          t.monitorsByWatcher.insert watcher (t.watching watcher ++ [t.monitorCounter])
        monitorCounter := t.monitorCounter + 1 }
    MonitorsExact u.monitorIndex u.monitorCounter u.watched u.watching := by
  have hfree : t.monitorIndex.lookup t.monitorCounter = none := by
    cases hl : t.monitorIndex.lookup t.monitorCounter with
    | none => rfl
    | some v => exact absurd (h.issued _ v hl) (Nat.lt_irrefl _)
  refine ⟨h.target.push (t.monitorCounter, watcher) target ?_ ?_ ?_,
    h.watcher.push t.monitorCounter watcher ?_ ?_ ?_, ?_⟩
  · rw [hfree]
    nofun
  · rintro ⟨r, w⟩ p
    rw [lookup_insert_iff hfree]
    simp [and_assoc, eq_comm]
  · intro p
    refine (getD_insert t.monitorsByTarget target p _).trans ?_
    split
    next hp => rw [hp]
    next => rfl
  · rw [hfree]
    nofun
  · intro r w
    simp only [lookup_insert_iff hfree]
    simp [exists_or, eq_comm]
  · intro p
    refine (getD_insert t.monitorsByWatcher watcher p _).trans ?_
    split
    next hp => rw [hp]
    next => rfl
  · intro r v hr
    have hr' : (t.monitorIndex.insert t.monitorCounter (watcher, target)).lookup r = some v := hr
    rcases of_lookup_insert hr' with ⟨heq, -⟩ | ⟨-, hr'⟩
    · exact heq ▸ Nat.lt_succ_self _
    · exact Nat.lt_succ_of_lt (h.issued r v hr')

/-! ## the invariant -/

/-- the maps mirror each other, and only live processes are keys; for watchers this is said only of
those in `W`, since a dead process may be named as a watcher -/
structure Exact (W : ProcessId → Prop) (t : Table) : Prop where
  names : NamesExact t.toProcessTable
  monitors : MonitorsExact t.monitorIndex t.monitorCounter t.watched t.watching
  targets : ∀ p entries, t.monitorsByTarget.lookup p = some entries → p ∈ t.processes
  watchers : ∀ p, W p → ∀ mrefs, t.monitorsByWatcher.lookup p = some mrefs → p ∈ t.processes

variable {W : ProcessId → Prop}

theorem Exact.renamed (h : Exact W t) (hnames : NamesExact pt)
    (hprocs : pt.processes = t.processes) : Exact W { t with toProcessTable := pt } where
  names := hnames
  monitors := h.monitors
  targets := fun p entries hp => hprocs ▸ h.targets p entries hp
  watchers := fun p hw mrefs hp => hprocs ▸ h.watchers p hw mrefs hp

theorem Exact.insert (h : Exact W t) (pid : ProcessId) :
    Exact W { t with toProcessTable := t.toProcessTable.insert pid } where
  names := ⟨h.names.mirror, fun p names hp => Finset.mem_insert_of_mem (h.names.owners p names hp)⟩
  monitors := h.monitors
  targets := fun p entries hp => Finset.mem_insert_of_mem (h.targets p entries hp)
  watchers := fun p hw mrefs hp => Finset.mem_insert_of_mem (h.watchers p hw mrefs hp)

theorem Exact.ends_push (h : Exact W t) (hpt : Claimed name pid pt)
    (hprocs : pt.processes = t.processes) :
    Ends { t with toProcessTable := pt } (.names (.push name pid)) (Exact W) := by
  refine .names_next rfl rfl ?_
  refine .names_last (if_pos hpt.live) rfl ?_
  exact h.renamed hpt.push hprocs

theorem Exact.ends_register (h : Exact W t) (name : String) (pid : ProcessId) (force : Bool) :
    Ends t (.names (.check name pid force)) (Exact W) := by
  by_cases hlive : pid ∈ t.processes
  · refine .names_next (if_pos hlive) rfl ?_
    cases hl : t.names.lookup name with
    | none =>
      exact .names_next (by rw [NameCall.step, hl]) rfl
        (h.ends_push (h.names.claim_vacant hl hlive) rfl)
    | some old =>
      by_cases hsame : old = pid
      · exact .names_last (by rw [NameCall.step, hl]; exact if_pos hsame) rfl h
      · by_cases htaken : force = false ∧ old ∈ t.processes
        · exact .names_last
            (by rw [NameCall.step, hl]; exact (if_neg hsame).trans (if_pos htaken)) rfl h
        · have hstep : (NameCall.enter name pid force).step t.toProcessTable =
              ({ t.toProcessTable with names := t.names.insert name pid },
                .next (.release name pid old)) := by
            rw [NameCall.step, hl]
            exact (if_neg hsame).trans (if_neg htaken)
          exact .names_next hstep rfl
            (.names_next rfl rfl (h.ends_push (h.names.claim_taken hl hlive) rfl))
  · exact .names_last (if_neg hlive) rfl h

theorem Exact.ends_unregister (h : Exact W t) (name : String) :
    Ends t (.names (.forget name)) (Exact W) := by
  cases hl : t.names.lookup name with
  | none =>
    exact .names_last (by rw [NameCall.step, hl]) rfl h
  | some pid =>
    have hstep : (NameCall.forget name).step t.toProcessTable =
        ({ t.toProcessTable with names := t.names.erase name }, .next (.forgetList name pid)) := by
      rw [NameCall.step, hl]
    exact .names_next hstep rfl (.names_last rfl rfl (h.renamed (h.names.forget hl) rfl))

/-! ### monitors -/

theorem Exact.ends_monitor (h : Exact W t) (watcher target : ProcessId)
    (hw : W watcher → watcher ∈ t.processes) : Ends t (monitor watcher target) (Exact W) := by
  have hcounted : Exact W { t with monitorCounter := t.monitorCounter + 1 } :=
    { h with
      monitors :=
        ⟨h.monitors.target, h.monitors.watcher,
          fun r v hr => Nat.lt_succ_of_lt (h.monitors.issued r v hr)⟩ }
  by_cases hlive : target ∈ t.processes
  · refine .next rfl (.next (if_pos hlive) (.next rfl (.next rfl (.next rfl
      (.last (if_pos hlive) ?_)))))
    refine ⟨h.names, h.monitors.add watcher target, fun p entries hp => ?_,
      fun p hwp mrefs hp => ?_⟩
    · have hp' : (t.monitorsByTarget.insert target _).lookup p = some entries := hp
      rcases of_lookup_insert hp' with ⟨heq, -⟩ | ⟨-, hp'⟩
      · exact heq ▸ hlive
      · exact h.targets p entries hp'
    · have hp' : (t.monitorsByWatcher.insert watcher _).lookup p = some mrefs := hp
      rcases of_lookup_insert hp' with ⟨heq, -⟩ | ⟨-, hp'⟩
      · exact heq ▸ hw (heq ▸ hwp)
      · exact h.watchers p hwp mrefs hp'
  · exact .next rfl (.next (if_neg hlive) (.last rfl hcounted))

theorem Exact.released (h : Exact W t)
    (hm : t.monitorIndex.lookup mref = some (watcher, target)) :
    Exact W (((t.unindex mref).untarget mref target).unwatch mref watcher) where
  names := h.names
  monitors := by
    refine h.monitors.unindex hm ?_ ?_
    · funext p
      exact watched_untarget (t.unindex mref) mref target p
    · funext p
      exact watching_unwatch ((t.unindex mref).untarget mref target) mref watcher p
  targets := fun p entries hp => by
    obtain ⟨entries', he⟩ := exists_of_lookup_modify hp
    exact h.targets p entries' he
  watchers := fun p hw mrefs hp => by
    obtain ⟨mrefs', he⟩ := exists_of_lookup_modify hp
    exact h.watchers p hw mrefs' he

theorem Exact.ends_demonitor (h : Exact W t) (mref : Nat) :
    Ends t (demonitor mref) (Exact W) := by
  cases hl : t.monitorIndex.lookup mref with
  | none =>
    exact .last (by rw [demonitor, TableCall.step, hl]) h
  | some v =>
    have hstep : (demonitor mref).step t = ⟨t.unindex mref,
        some (.demonitorTarget ⟨mref, v.1, v.2⟩), some (.released mref)⟩ := by
      rw [demonitor, TableCall.step, hl]
    exact .next hstep (.next rfl (.last rfl (h.released hl)))

/-! ### the cleanup of a process -/

/-- the monitors on the process are being served: `entries` are left -/
structure Firing (W : ProcessId → Prop) (pid : ProcessId) (entries : List (Nat × ProcessId))
    (t : Table) : Prop where
  names : NamesExact t.toProcessTable
  dead : pid ∉ t.processes
  monitors : MonitorsExact t.monitorIndex t.monitorCounter
    (fun p => if p = pid then entries else t.watched p) t.watching
  targets : ∀ p entries, t.monitorsByTarget.lookup p = some entries → p ∈ t.processes
  watchers : ∀ p, p ≠ pid → W p → ∀ mrefs, t.monitorsByWatcher.lookup p = some mrefs →
    p ∈ t.processes

/-- the monitors that the process held are being dropped: `mrefs` are left -/
structure Dropping (W : ProcessId → Prop) (pid : ProcessId) (mrefs : List Nat) (t : Table) :
    Prop where
  names : NamesExact t.toProcessTable
  dead : pid ∉ t.processes
  monitors : MonitorsExact t.monitorIndex t.monitorCounter t.watched
    fun p => if p = pid then mrefs else t.watching p
  gone : t.monitorsByWatcher.lookup pid = none
  targets : ∀ p entries, t.monitorsByTarget.lookup p = some entries → p ∈ t.processes
  watchers : ∀ p, W p → ∀ mrefs, t.monitorsByWatcher.lookup p = some mrefs → p ∈ t.processes

variable {entries : List (Nat × ProcessId)} {mrefs : List Nat}

theorem Dropping.ends (h : Dropping W pid mrefs t) :
    Ends t (.drop pid mrefs) fun u => Exact W u ∧ pid ∉ u.processes := by
  induction mrefs generalizing t with
  | nil =>
    refine .last rfl ⟨⟨h.names, ?_, h.targets, h.watchers⟩, h.dead⟩
    have hsame : (fun p => if p = pid then [] else t.watching p) = t.watching := by
      funext p
      split
      next hp =>
        rw [hp, Table.watching, h.gone]
        rfl
      next => rfl
    exact hsame ▸ h.monitors
  | cons mref mrefs ih =>
    have hlist : (fun p => if p = pid then mref :: mrefs else t.watching p) pid = mref :: mrefs :=
      if_pos rfl
    obtain ⟨target, hm⟩ := h.monitors.watcher.mem.mp (hlist ▸ List.mem_cons_self)
    have hstep : (TableCall.drop pid (mref :: mrefs)).step t =
        ⟨t.unindex mref, some (.dropTarget pid mref target mrefs), none⟩ := by
      rw [TableCall.step, hm]
    refine .next hstep (.next rfl (ih ⟨h.names, h.dead, ?_, h.gone, ?_, h.watchers⟩))
    · refine h.monitors.unindex hm ?_ ?_
      · funext p
        exact watched_untarget (t.unindex mref) mref target p
      · funext p
        by_cases hp : p = pid
        · rw [if_pos hp, if_pos hp, if_pos hp, List.filter_cons_of_neg (by simp),
            h.monitors.filter_watcher hlist]
        · rw [if_neg hp, if_neg hp, if_neg hp]
          rfl
    · intro p entries hp
      obtain ⟨entries', he⟩ := exists_of_lookup_modify hp
      exact h.targets p entries' he

theorem Firing.ends (h : Firing W pid entries t) :
    Ends t (.fire pid entries) fun u => Exact W u ∧ pid ∉ u.processes := by
  induction entries generalizing t with
  | nil =>
    refine .next rfl (.next rfl (Dropping.ends ⟨h.names, h.dead, ?_, ?_, h.targets, ?_⟩))
    · refine ⟨h.monitors.target.congr (fun _ _ => Iff.rfl) fun p => ?_,
        h.monitors.watcher.congr (fun _ _ => Iff.rfl) fun p => ?_, h.monitors.issued⟩
      · show t.watched p = if p = pid then [] else t.watched p
        split
        next hp =>
          -- a dead process has no list of monitors on it
          refine List.eq_nil_iff_forall_not_mem.mpr fun e he => ?_
          obtain ⟨entries, hl⟩ := exists_of_mem_getD he
          exact h.dead (hp ▸ h.targets p entries hl)
        next => rfl
      · exact getD_taken t.monitorsByWatcher pid p
    · show (t.monitorsByWatcher.erase pid).lookup pid = none
      rw [lookup_erase_if, if_pos rfl]
    · intro p hw mrefs hp
      have hp' : (t.monitorsByWatcher.erase pid).lookup p = some mrefs := hp
      obtain ⟨hne, hp'⟩ := of_lookup_erase hp'
      exact h.watchers p hne hw mrefs hp'
  | cons e entries ih =>
    obtain ⟨mref, watcher⟩ := e
    have hlist : (fun p => if p = pid then (mref, watcher) :: entries else t.watched p) pid
        = (mref, watcher) :: entries := if_pos rfl
    have hm : t.monitorIndex.lookup mref = some (watcher, pid) :=
      h.monitors.target.mem.mp (hlist ▸ List.mem_cons_self)
    have hstep : (TableCall.fire pid ((mref, watcher) :: entries)).step t =
        ⟨t.unindex mref, some (.fireWatcher ⟨mref, watcher, pid⟩ entries), none⟩ := by
      rw [TableCall.step, hm]
    refine .next hstep (.next rfl (.next rfl (ih ⟨h.names, h.dead, ?_, h.targets, ?_⟩)))
    · refine h.monitors.unindex hm ?_ ?_
      · funext p
        by_cases hp : p = pid
        · rw [if_pos hp, if_pos hp, if_pos hp, List.filter_cons_of_neg (by simp),
            h.monitors.filter_target hlist]
        · rw [if_neg hp, if_neg hp, if_neg hp]
          rfl
      · funext p
        exact watching_unwatch (t.unindex mref) mref watcher p
    · intro p hne hw mrefs hp
      obtain ⟨mrefs', he⟩ := exists_of_lookup_modify hp
      exact h.watchers p hne hw mrefs' he

theorem Unnaming.ends {names : List String} (hpt : Unnaming pid names pt)
    (hfire : ∀ pt', NamesExact pt' → pt'.processes = pt.processes →
      Ends { t with toProcessTable := pt' } (.takeTarget pid) Q) :
    Ends { t with toProcessTable := pt } (.names (.removeNames pid names)) Q := by
  induction names generalizing pt with
  | nil => exact .next rfl (hfire pt hpt.nil rfl)
  | cons name names ih =>
    refine .names_next rfl rfl (ih hpt.tail ?_)
    rw [ProcessTable.processes_removeName]
    exact hfire

theorem Exact.ends_cleanup (h : Exact W t) (pid : ProcessId) :
    Ends t (.names (cleanupProcess pid)) fun u => Exact W u ∧ pid ∉ u.processes := by
  by_cases hlive : pid ∈ t.processes
  · refine .names_next (if_pos hlive) rfl (.names_next rfl rfl ?_)
    refine Unnaming.ends (h.names.unnaming pid) fun pt' hnames hprocs => ?_
    have hsub : ∀ p, p ≠ pid → p ∈ t.processes → p ∈ pt'.processes := by
      intro p hne hp
      rw [hprocs]
      exact Finset.mem_erase.mpr ⟨hne, hp⟩
    refine .next rfl (Firing.ends ⟨hnames, ?_, ?_, ?_, ?_⟩)
    · show pid ∉ pt'.processes
      rw [hprocs]
      exact Finset.notMem_erase pid _
    · exact ⟨h.monitors.target.congr (fun _ _ => Iff.rfl) (getD_taken t.monitorsByTarget pid),
        h.monitors.watcher, h.monitors.issued⟩
    · intro p entries hp
      have hp' : (t.monitorsByTarget.erase pid).lookup p = some entries := hp
      obtain ⟨hne, hp'⟩ := of_lookup_erase hp'
      exact hsub p hne (h.targets p entries hp')
    · exact fun p hne hw mrefs hp => hsub p hne (h.watchers p hw mrefs hp)
  · exact .names_last (if_neg hlive) rfl ⟨h, hlive⟩

/-! ## runs -/

def TableCall.asks : TableCall → Option ProcessId
  | .monitor watcher _ => some watcher
  | _ => none

/-- the processes in `W` ask for monitors only while they are alive -/
def OwnCalls (W : ProcessId → Prop) (t : Table) : Request → Prop
  | .insert _ => True
  | .call call _ => ∀ watcher ∈ call.asks, W watcher → watcher ∈ t.processes

instance OwnCalls.decidable (W : ProcessId → Prop) [DecidablePred W] (t : Table) :
    ∀ a, Decidable (OwnCalls W t a)
  | .insert _ => .isTrue trivial
  | .call call _ => inferInstanceAs (Decidable (∀ watcher ∈ call.asks, _))

theorem Exact.ends (h : Exact W t) (hopen : call.opens = true)
    (hown : OwnCalls W t (.call call fuel)) : Ends t call (Exact W) := by
  cases call with
  | names name =>
    cases name with
    | check name pid force => exact h.ends_register name pid force
    | forget name => exact h.ends_unregister name
    | remove pid =>
      obtain ⟨fuel, u, hu, hexact, -⟩ := h.ends_cleanup pid
      exact ⟨fuel, u, hu, hexact⟩
    | _ => cases hopen
  | monitor watcher target => exact h.ends_monitor watcher target (hown watcher rfl)
  | demonitor mref => exact h.ends_demonitor mref
  | _ => cases hopen

theorem exact_new (nodeId counter : Nat) : Exact W ⟨.new nodeId, ∅, ∅, ∅, counter⟩ where
  names := ⟨.nil fun _ _ => lookup_empty_ne, fun _ _ h => absurd h lookup_empty_ne⟩
  monitors :=
    { target := .nil fun _ _ => lookup_empty_ne
      watcher := .nil fun _ _ h => lookup_empty_ne h.choose_spec
      issued := fun _ _ h => absurd h lookup_empty_ne }
  targets := fun _ _ h => absurd h lookup_empty_ne
  watchers := fun _ _ _ h => absurd h lookup_empty_ne

theorem exact_of_reach {ok : Table → Request → Prop} (hok : ∀ t a, ok t a → OwnCalls W t a)
    (h : serialMachine.Reach ok t) : Exact W t := by
  refine h.inv (I := Exact W) ?_ ?_
  · rintro t ⟨nodeId, counter, rfl⟩
    exact exact_new nodeId counter
  · intro t a u ht ha hn
    cases a with
    | insert pid =>
      cases hn
      exact ht.insert pid
    | call call fuel =>
      have hn' : (if call.opens then call.finish fuel t else none) = some u := hn
      split at hn'
      · next hopen => exact (ht.ends hopen (hok t _ ha)).post hn'
      · cases hn'

structure MapsAgree (t : Table) : Prop where
  names : ∀ name pid, t.names.lookup name = some pid ↔ name ∈ t.listed pid
  onceListed : ∀ pid, (t.listed pid).Nodup
  named : ∀ name pid, t.names.lookup name = some pid → pid ∈ t.processes
  targets : ∀ mref watcher target,
    t.monitorIndex.lookup mref = some (watcher, target) ↔ (mref, watcher) ∈ t.watched target
  watchers : ∀ mref watcher,
    (∃ target, t.monitorIndex.lookup mref = some (watcher, target)) ↔ mref ∈ t.watching watcher
  onceWatched : ∀ pid, (t.watched pid).Nodup
  onceWatching : ∀ pid, (t.watching pid).Nodup
  monitored : ∀ mref watcher target,
    t.monitorIndex.lookup mref = some (watcher, target) → target ∈ t.processes

/-- no map mentions the process, as owner, target or watcher -/
structure Unmentioned (t : Table) (pid : ProcessId) : Prop where
  names : ∀ name, t.names.lookup name ≠ some pid
  namesByPid : pid ∉ t.namesByPid
  index : ∀ mref watcher target, t.monitorIndex.lookup mref = some (watcher, target) →
    watcher ≠ pid ∧ target ≠ pid
  monitorsByTarget : pid ∉ t.monitorsByTarget
  watched : ∀ target mref, (mref, pid) ∉ t.watched target
  monitorsByWatcher : pid ∉ t.monitorsByWatcher

theorem Exact.monitored (h : Exact W t)
    (hm : t.monitorIndex.lookup mref = some (watcher, target)) : target ∈ t.processes := by
  have hlisted : (mref, watcher) ∈ t.watched target := h.monitors.target.mem.mpr hm
  obtain ⟨entries, hl⟩ := exists_of_mem_getD hlisted
  exact h.targets target entries hl

theorem Exact.mapsAgree (h : Exact W t) : MapsAgree t where
  names := fun _ _ => h.names.mirror.mem.symm
  onceListed := h.names.mirror.nodup
  named := fun _ _ hn => h.names.live hn
  targets := fun mref watcher _ => (h.monitors.target.mem (k := (mref, watcher))).symm
  watchers := fun _ _ => h.monitors.watcher.mem.symm
  onceWatched := h.monitors.target.nodup
  onceWatching := h.monitors.watcher.nodup
  monitored := fun _ _ _ hm => h.monitored hm

theorem Exact.unmentioned (h : Exact W t) (hw : W pid) (hdead : pid ∉ t.processes) :
    Unmentioned t pid := by
  have hwatcher : t.monitorsByWatcher.lookup pid = none := by
    cases hl : t.monitorsByWatcher.lookup pid with
    | none => rfl
    | some mrefs => exact absurd (h.watchers pid hw mrefs hl) hdead
  have hindex : ∀ mref target, t.monitorIndex.lookup mref ≠ some (pid, target) := by
    intro mref target hm
    have hlisted : mref ∈ t.watching pid := h.monitors.watcher.mem.mpr ⟨target, hm⟩
    rw [Table.watching, hwatcher] at hlisted
    cases hlisted
  constructor
  · exact fun name hn => hdead (h.names.live hn)
  · intro hp
    obtain ⟨names, hl⟩ := (mem_keys_iff _ _).mp hp
    exact hdead (h.names.owners pid names hl)
  · intro mref watcher target hm
    constructor
    · rintro rfl
      exact hindex mref target hm
    · rintro rfl
      exact hdead (h.monitored hm)
  · intro hp
    obtain ⟨entries, hl⟩ := (mem_keys_iff _ _).mp hp
    exact hdead (h.targets pid entries hl)
  · exact fun target mref hm => hindex mref target (h.monitors.target.mem.mp hm)
  · exact AList.lookup_eq_none.mp hwatcher

/-- **In every run of calls that do not overlap the maps agree; and a process that asked for monitors
only while it was alive is nowhere mentioned when it is dead, as it is when its cleanup has
returned.** -/
theorem maps_exact (h : serialMachine.Reach Machine.Anytime t) :
    MapsAgree t ∧ ∀ pid, serialMachine.Reach (OwnCalls (· = pid)) t →
      (pid ∉ t.processes → Unmentioned t pid) ∧
      Ends t (.names (cleanupProcess pid)) fun u => pid ∉ u.processes ∧ Unmentioned u pid := by
  have hexact : Exact (fun _ => False) t := exact_of_reach (fun t a _ => by
    cases a with
    | insert pid => trivial
    | call call fuel => exact fun _ _ hno => hno.elim) h
  refine ⟨hexact.mapsAgree, fun pid hpid => ?_⟩
  have hown : Exact (· = pid) t := exact_of_reach (fun _ _ ha => ha) hpid
  refine ⟨hown.unmentioned rfl, ?_⟩
  obtain ⟨fuel, u, hu, hexact', hdead⟩ := hown.ends_cleanup pid
  exact ⟨fuel, u, hu, hdead, hexact'.unmentioned rfl hdead⟩

/-- 1.1 and 1.2 take a name from each other and watch each other and themselves, and 1.1 dies -/
private def mourning : List Request :=
  [.insert ⟨1, 1⟩, .insert ⟨1, 2⟩, .call (.names (register "svc" ⟨1, 1⟩)) 9,
    .call (.names (register "db" ⟨1, 1⟩)) 9, .call (.names (reregister "svc" ⟨1, 2⟩)) 9,
    .call (monitor ⟨1, 1⟩ ⟨1, 1⟩) 9, .call (monitor ⟨1, 1⟩ ⟨1, 2⟩) 9,
    .call (monitor ⟨1, 2⟩ ⟨1, 1⟩) 9, .call (monitor ⟨1, 2⟩ ⟨1, 2⟩) 9, .call (demonitor 8) 9,
    .call (.names (cleanupProcess ⟨1, 1⟩)) 30]

theorem maps_exact_mourning : ∃ t, serialMachine.Reach (OwnCalls (· = ⟨1, 1⟩)) t ∧
    t.names.lookup "svc" = some ⟨1, 2⟩ ∧ t.watched ⟨1, 2⟩ = [(10, ⟨1, 2⟩)] ∧
    MapsAgree t ∧ Unmentioned t ⟨1, 1⟩ := by
  have hstart : serialMachine.Reach (OwnCalls (· = ⟨1, 1⟩)) ⟨.new 1, ∅, ∅, ∅, 7⟩ :=
    .start ⟨1, 7, rfl⟩
  obtain ⟨t, ht, hname, hwatched, hdead⟩ := hstart.exists_checked mourning
    (p := fun t => t.names.lookup "svc" = some ⟨1, 2⟩ ∧ t.watched ⟨1, 2⟩ = [(10, ⟨1, 2⟩)] ∧
      ⟨1, 1⟩ ∉ t.processes) (by decide)
  obtain ⟨hagree, hown⟩ := maps_exact ht.anytime
  exact ⟨t, ht, hname, hwatched, hagree, (hown _ ht).1 hdead⟩

end Rebar.Process

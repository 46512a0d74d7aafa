import Rebar.Process.Downs

/-!
# After a demonitor

A `demonitor` that finds its reference in the index takes the right to send with it.  One that does
not find it returns at once, although another call may have taken the reference and not sent yet.
-/

namespace Rebar.Process

def TableCall.demonitors : TableCall → Option Nat
  | .demonitor mref => some mref
  | .demonitorTarget m => some m.mref
  | .demonitorWatcher m => some m.mref
  | _ => none

/-- the reference was handed out, and a call that still holds it has dropped the monitor -/
def Settled (s : Watches) (mref : Nat) : Prop :=
  mref < s.shared.table.monitorCounter ∧
    ∀ c ∈ s.calls, c.holds = some mref → c.forgets = some mref

instance (s : Watches) (mref : Nat) : Decidable (Settled s mref) :=
  inferInstanceAs (Decidable (_ ∧ _))

/-- the reference that the next operation of the call looks up to demonitor it -/
def TableCall.looksUp : TableCall → Option Nat
  | .demonitor mref => some mref
  | _ => none

def InTime (s : Watches) : Calls.Label TableCall → Prop
  | .invoke _ => True
  | .advance i => ∀ mref ∈ s.calls[i]?.bind TableCall.looksUp, Settled s mref

instance InTime.decidable (s : Watches) : ∀ a, Decidable (InTime s a)
  | .invoke _ => .isTrue trivial
  | .advance i => inferInstanceAs (Decidable (∀ mref ∈ s.calls[i]?.bind TableCall.looksUp, _))

structure Silent (s : Watches) (mref : Nat) : Prop where
  settled : Settled s mref
  gone : s.shared.table.indexed mref = 0

variable {s s' t : Watches} {i mref : Nat} {call : TableCall}

theorem unit_eq_zero {r : Option Nat} : unit mref r = 0 ↔ r ≠ some mref := by
  unfold unit
  split
  · next h => exact iff_of_false Nat.one_ne_zero fun hne => hne h
  · next h => exact iff_of_true rfl h

theorem Settled.invoke (h : Settled s mref) (hopen : call.opens = true) :
    Settled ⟨s.shared, s.calls ++ [call]⟩ mref := by
  have hnew : call.Knows [] ∧ call.holds = none := knows_of_opens hopen
  refine ⟨h.1, fun c hc hholds => ?_⟩
  rcases List.mem_append.mp hc with hc | hc
  · exact h.2 c hc hholds
  · rw [List.mem_singleton.mp hc, hnew.2] at hholds
    cases hholds

/-- the right to send for the reference is gone, so an operation neither sends nor passes it on -/
theorem Silent.advance (hs : Accounted s) (h : Silent s mref) (hi : s.calls[i]? = some call) :
    Silent ⟨(call.advance s.shared).1, Calls.advanced s.calls i (call.advance s.shared).2⟩ mref ∧
      (call.step s.shared.table).note.bind Note.sends ≠ some mref := by
  have hstep := tokens_step s.shared.table call mref fun m hm => hs.free hi (hm ▸ rfl)
  have hissues : unit mref (call.issues s.shared.table) = 0 := by
    rw [unit_eq_zero]
    intro heq
    exact absurd h.settled.1 (Nat.not_lt.mpr (issues_eq heq).ge)
  have hforgets : unit mref call.holds ≤ unit mref call.forgets := by
    by_cases hc : call.holds = some mref
    · rw [hc, h.settled.2 call (List.mem_of_getElem? hi) hc]
    · rw [unit_eq_zero.mpr hc]
      exact Nat.zero_le _
  rw [h.gone, hissues] at hstep
  have hindexed : (call.step s.shared.table).table.indexed mref = 0 := by omega
  have hsends : unit mref ((call.step s.shared.table).note.bind Note.sends) = 0 := by omega
  have hholds : unit mref ((call.step s.shared.table).call.bind TableCall.holds) = 0 := by omega
  refine ⟨⟨⟨?_, fun c hc hmref => ?_⟩, hindexed⟩, unit_eq_zero.mp hsends⟩
  · show mref < (call.step s.shared.table).table.monitorCounter
    rw [counter_step]
    exact Nat.lt_add_right _ h.settled.1
  · rcases Calls.mem_advanced hc with hc | hc
    · exact h.settled.2 c hc hmref
    · have hbind : (call.step s.shared.table).call.bind TableCall.holds = some mref := by
        rw [show (call.step s.shared.table).call = some c from hc]
        exact hmref
      exact absurd hbind (unit_eq_zero.mp hholds)

/-- **The step.**  Nothing is sent for a reference that is settled and not in the index. -/
theorem Silent.next (hs : Accounted s) (h : Silent s mref) {a : Calls.Label TableCall}
    (hn : tableMachine.next s a = some t) : Silent t mref ∧ downsFor t mref = downsFor s mref := by
  rcases Calls.next_cases hn with ⟨call, -, hopen, rfl⟩ | ⟨i, call, rfl, hi, rfl⟩
  · exact ⟨⟨h.settled.invoke hopen, h.gone⟩, rfl⟩
  · obtain ⟨hsilent, hsends⟩ := h.advance hs hi
    refine ⟨hsilent, ?_⟩
    show (s.shared.log ++ (call.step s.shared.table).note.toList).filter _ = _
    rw [List.filter_append]
    cases hnote : (call.step s.shared.table).note with
    | none => exact List.append_nil _
    | some note =>
      rw [hnote] at hsends
      rw [Option.toList_some, List.filter_cons_of_neg (by simpa using hsends), List.filter_nil,
        List.append_nil]
      rfl

structure Watchful (s : Watches) : Prop where
  accounted : Accounted s
  silent : ∀ c ∈ s.calls, ∀ mref, c.demonitors = some mref → c.looksUp = none → Silent s mref

theorem silent_of_lookup (i : Nat) (h : Settled s mref) :
    Silent ⟨((TableCall.demonitor mref).advance s.shared).1,
      Calls.advanced s.calls i ((TableCall.demonitor mref).advance s.shared).2⟩ mref := by
  unfold TableCall.advance
  cases hl : s.shared.table.monitorIndex.lookup mref with
  | none =>
    have hstep : (TableCall.demonitor mref).step s.shared.table = ⟨s.shared.table, none, none⟩ := by
      rw [TableCall.step, hl]
    rw [hstep]
    refine ⟨⟨h.1, fun c hc => ?_⟩, ?_⟩
    · rcases Calls.mem_advanced hc with hc | hc
      · exact h.2 c hc
      · cases hc
    · show (s.shared.table.monitorIndex.lookup mref).toList.length = 0
      rw [hl]
      rfl
  | some v =>
    have hstep : (TableCall.demonitor mref).step s.shared.table =
        ⟨s.shared.table.unindex mref, some (.demonitorTarget ⟨mref, v.1, v.2⟩),
          some (.released mref)⟩ := by
      rw [TableCall.step, hl]
    rw [hstep]
    refine ⟨⟨h.1, fun c hc hholds => ?_⟩, ?_⟩
    · rcases Calls.mem_advanced hc with hc | hc
      · exact h.2 c hc hholds
      · cases hc
        rfl
    · show ((s.shared.table.monitorIndex.erase mref).lookup mref).toList.length = 0
      rw [HashMap.lookup_erase_if, if_pos rfl]
      rfl

theorem looksUp_eq (h : call.looksUp = some mref) : call = .demonitor mref := by
  cases call with
  | demonitor r =>
    cases h
    rfl
  | _ => cases h

theorem afterNames_demonitors (call : NameCall) (progress : Progress) :
    (afterNames call progress).bind TableCall.demonitors = none := by
  rw [Option.bind_eq_none_iff]
  intro c hc
  rcases afterNames_cases hc with ⟨pid, -, rfl⟩ | ⟨next, -, rfl⟩ <;> rfl

theorem demonitors_step {t : Table}
    (h : (call.step t).call.bind TableCall.demonitors = some mref) :
    call.demonitors = some mref := by
  revert h
  fun_cases TableCall.step t call <;> intro h <;> first | exact h | cases h | skip
  rw [afterNames_demonitors] at h
  cases h

/-- **An operation of a demonitor leaves its reference silent.** -/
theorem Watchful.silent_advance (h : Watchful s) (hi : s.calls[i]? = some call)
    (hcall : call.demonitors = some mref) (hok : InTime s (.advance i)) :
    Silent ⟨(call.advance s.shared).1, Calls.advanced s.calls i (call.advance s.shared).2⟩ mref := by
  cases hlook : call.looksUp with
  | none =>
    have hsilent := h.silent call (List.mem_of_getElem? hi) mref hcall hlook
    exact (hsilent.advance h.accounted hi).1
  | some r =>
    cases looksUp_eq hlook
    cases hcall
    refine silent_of_lookup i (hok mref ?_)
    rw [hi]
    rfl

theorem Watchful.next (h : Watchful s) {a : Calls.Label TableCall} (hok : InTime s a)
    (hn : tableMachine.next s a = some t) : Watchful t := by
  have hkept : ∀ c ∈ s.calls, ∀ mref, c.demonitors = some mref → c.looksUp = none →
      Silent t mref :=
    fun c hc mref hd hl => ((h.silent c hc mref hd hl).next h.accounted hn).1
  rcases Calls.next_cases hn with ⟨call, -, hopen, rfl⟩ | ⟨i, call, rfl, hi, rfl⟩
  · refine ⟨h.accounted.invoke hopen, fun c hc mref hd hl => ?_⟩
    rcases List.mem_append.mp hc with hc | hc
    · exact hkept c hc mref hd hl
    · -- a call that opens with a demonitor looks its reference up first
      rw [List.mem_singleton.mp hc] at hd hl
      cases call with
      | demonitor r => cases hl
      | demonitorTarget m => cases hopen
      | demonitorWatcher m => cases hopen
      | _ => cases hd
  · refine ⟨h.accounted.advance hi, fun c hc mref hd hl => ?_⟩
    rcases Calls.mem_advanced hc with hc | hc
    · exact hkept c hc mref hd hl
    · have hnew : (call.step s.shared.table).call.bind TableCall.demonitors = some mref := by
        rw [show (call.step s.shared.table).call = some c from hc]
        exact hd
      exact h.silent_advance hi (demonitors_step hnew) hok

theorem watchful_of_reach (h : tableMachine.Reach InTime s) : Watchful s := by
  refine h.inv (fun s hs => ⟨accounted_start hs, ?_⟩) fun s a t hs hok hn => hs.next hok hn
  rw [hs.2]
  intro c hc
  cases hc

/-- **In a run in which a demonitor looks up only settled references, no message is sent for a
reference after an operation of a demonitor of it**, so none after its return. -/
theorem silent_after_demonitor (h : tableMachine.Reach InTime s) (hi : s.calls[i]? = some call)
    (hcall : call.demonitors = some mref) (hok : InTime s (.advance i))
    (hn : tableMachine.next s (.advance i) = some s')
    (ht : (tableMachine.startedAt s').Reach InTime t) : downsFor t mref = downsFor s' mref := by
  have hs := watchful_of_reach h
  have hs' := hs.next hok hn
  have hsilent : Silent s' mref := by
    obtain ⟨call', hi', rfl⟩ := Option.map_eq_some_iff.mp hn
    cases hi.symm.trans hi'
    exact hs.silent_advance hi hcall hok
  suffices hlast : Watchful t ∧ Silent t mref ∧ downsFor t mref = downsFor s' mref from hlast.2.2
  refine ht.inv (I := fun t => Watchful t ∧ Silent t mref ∧ downsFor t mref = downsFor s' mref)
    ?_ ?_
  · rintro t rfl
    exact ⟨hs', hsilent, rfl⟩
  · rintro t a u ⟨hw, hquiet, heq⟩ hok hn
    obtain ⟨hquiet', heq'⟩ := hquiet.next hw.accounted hn
    exact ⟨hw.next hok hn, hquiet', heq'.trans heq⟩

/-- 1.1 monitors 1.2, 1.2 exits, and its cleanup has done the given number of operations when 1.1
demonitors -/
private def exiting (k : Nat) : List (Calls.Label TableCall) :=
  List.flatten [[.invoke (monitor ⟨1, 1⟩ ⟨1, 2⟩)], .replicate 6 (.advance 0),
    [.invoke (.names (cleanupProcess ⟨1, 2⟩))], .replicate k (.advance 0),
    [.invoke (demonitor 1)]]

/-- the next operation of the second call is the last one of a demonitor of 1 -/
private def returning (s : Watches) : Bool :=
  s.calls[1]?.any fun call =>
    decide (call.demonitors = some 1) && (call.step s.shared.table).call.isNone

private theorem exists_of_returning {s : Watches} (h : returning s = true) :
    ∃ call, s.calls[1]? = some call ∧ call.demonitors = some 1 ∧
      (call.step s.shared.table).call = none := by
  obtain ⟨call, hi, hcall⟩ := (Option.any_eq_true _ _).mp h
  obtain ⟨hd, hreturns⟩ := Bool.and_eq_true_iff.mp hcall
  exact ⟨call, hi, of_decide_eq_true hd, Option.isNone_iff_eq_none.mp hreturns⟩

/-- the demonitor looks the reference up just before the cleanup does: 1.2 is cleaned up, and nothing
is sent -/
theorem silent_after_demonitor_exiting : ∃ s s' t : Watches, ∃ i call,
    tableMachine.Reach InTime s ∧ s.calls[i]? = some call ∧ call.demonitors = some 1 ∧
    (call.step s.shared.table).call = none ∧ tableMachine.next s (.advance i) = some s' ∧
    (tableMachine.startedAt s').Reach InTime t ∧ .cleaned ⟨1, 2⟩ ∈ t.shared.log ∧
    downsFor t 1 = downsFor s' 1 := by
  obtain ⟨s, hs, hreturning, hok, s', hs', t, ht, hlog⟩ := (couple_reach InTime).exists_checked
    (exiting 4 ++ [.advance 1, .advance 1])
    (p := fun s => returning s = true ∧ InTime s (.advance 1) ∧
      ∃ s', tableMachine.next s (.advance 1) = some s' ∧
        ∃ t, (tableMachine.startedAt s').checked InTime s' (.replicate 4 (.advance 0)) = some t ∧
          .cleaned ⟨1, 2⟩ ∈ t.shared.log) (by decide)
  obtain ⟨call, hi, hd, hreturns⟩ := exists_of_returning hreturning
  have hstart : (tableMachine.startedAt s').Reach InTime s' := .start rfl
  exact ⟨s, s', t, 1, call, hs, hi, hd, hreturns, hs', hstart.of_checked ht, hlog,
    silent_after_demonitor hs hi hd hok hs' (hstart.of_checked ht)⟩

/-- the cleanup of 1.2 has taken the reference from the index when 1.1 demonitors: the demonitor
finds nothing and returns, and then the message is put into the mailbox of 1.1 -/
theorem down_after_demonitor : ∃ s s' t : Watches, ∃ i call,
    tableMachine.Reach Machine.Anytime s ∧ s.calls[i]? = some call ∧ call.demonitors = some 1 ∧
    (call.step s.shared.table).call = none ∧ tableMachine.next s (.advance i) = some s' ∧
    (tableMachine.startedAt s').Reach Machine.Anytime t ∧ downsFor s' 1 = [] ∧
    downsFor t 1 = [.sent ⟨1, 1⟩ ⟨1, ⟨1, 2⟩, "exit"⟩ true] := by
  obtain ⟨s, hs, hreturning, s', hs', hnone, t, ht, hdown⟩ :=
    (couple_reach Machine.Anytime).exists_run (exiting 5)
      (p := fun s => returning s = true ∧ ∃ s', tableMachine.next s (.advance 1) = some s' ∧
        downsFor s' 1 = [] ∧ ∃ t, (tableMachine.startedAt s').run s' [.advance 0, .advance 0] = some t ∧
          downsFor t 1 = [.sent ⟨1, 1⟩ ⟨1, ⟨1, 2⟩, "exit"⟩ true]) (by decide)
  obtain ⟨call, hi, hd, hreturns⟩ := exists_of_returning hreturning
  have hstart : (tableMachine.startedAt s').Reach Machine.Anytime s' := .start rfl
  exact ⟨s, s', t, 1, call, hs, hi, hd, hreturns, hs', hstart.run (fun _ _ _ => trivial) ht, hnone, hdown⟩

end Rebar.Process

import Rebar.GenStatem.Messages
import Rebar.Lib.Log

/-!
# Postponed events

A message that is postponed stays in the list until the state changes, and is then dispatched
again.
-/

namespace Rebar.Statem

variable {State Data Call Cast Reply : Type} {statem : GenStatem State Call Cast}
  {s s' : Server State Data Call Cast Reply} {cur cur' : List QueuedEvent} {e : QueuedEvent}
  {log entries : List (Entry State)} {n : Nat}

/-! ## a message is dispatched again after it was postponed and replayed -/

/-- the message that is dispatched -/
def Entry.message (x : Entry State) : Option Nat := x.dispatch.bind (·.number)

theorem message_of_isResult {x : Entry State} (h : x.isResult = true) : x.message = none := by
  cases x with
  | dequeued | dispatched => cases h
  | left | armed | cancelled | postponed | consumed | dropped | entered => rfl

/-- the message was postponed, and a change of the state followed -/
def Replayed (n : Nat) (log : List (Entry State)) : Prop :=
  ∃ before after, log = before ++ Entry.postponed n :: after ∧ Entry.entered ∈ after

theorem Replayed.append {new : List (Entry State)} (h : Replayed n log) :
    Replayed n (log ++ new) := by
  obtain ⟨before, after, rfl, hafter⟩ := h
  refine ⟨before, after ++ new, ?_, List.mem_append_left _ hafter⟩
  rw [List.append_assoc, List.cons_append]

theorem Replayed.of_mem (h : Entry.postponed n ∈ log) (hnew : Entry.entered ∈ entries) :
    Replayed n (log ++ entries) := by
  obtain ⟨before, after, rfl⟩ := List.append_of_mem h
  refine ⟨before, after ++ entries, ?_, List.mem_append_right _ hnew⟩
  rw [List.append_assoc, List.cons_append]

/-- since its last dispatch a message in the list was postponed, and one in the queue replayed -/
structure Patient (s : Server State Data Call Cast Reply) (log : List (Entry State)) : Prop where
  postponed : ∀ n ∈ numbers s.loop.postponed,
    Log.Since (·.message = some n) (Entry.postponed n ∈ ·) log
  queued : ∀ n ∈ numbers s.loop.internalQueue,
    Log.Since (·.message = some n) (Replayed n) log
  again : Log.Prior (fun before x => ∀ n, x.message = some n →
    Log.Since (·.message = some n) (Replayed n) before) log

theorem Genuine.message_ne (h : Genuine s cur log) {x : Entry State} (hx : x ∈ log)
    (hn : x.message = some n) : n ≠ s.arrivals := by
  cases x with
  | dispatched e =>
    have hnum : e.number = some n := hn
    have hdequeued := (h.dispatched e hx).2 (by rw [hnum]; rfl)
    obtain ⟨m, hm, hlt⟩ := h.numbered e hdequeued
    cases hnum.symm.trans hm
    exact Nat.ne_of_lt hlt
  | dequeued | left | armed | cancelled | postponed | consumed | dropped | entered => cases hn

theorem Accounted.number_ne (h : Accounted s [e] log)
    (hn : n ∈ numbers s.loop.postponed ∨ n ∈ numbers s.loop.internalQueue) :
    e.number ≠ some n := by
  intro he
  have hordered := h.ordered
  have hone : numbers [e] = [n] := List.filterMap_cons_some he
  rw [numbers_waiting, hone] at hordered
  obtain ⟨-, hqueue, hacross⟩ := List.pairwise_append.mp hordered
  rcases hn with hn | hn
  · exact Nat.lt_irrefl n (hacross n hn n List.mem_cons_self)
  · exact Nat.lt_irrefl n ((List.pairwise_cons.mp hqueue).1 n hn)

theorem Patient.dispatched (h : Patient s log) (start : List (Entry State))
    (hacc : Accounted s' [e] (log ++ (start ++ [Entry.dispatched e])))
    (hpost : s'.loop.postponed = s.loop.postponed)
    (hqueue : ∀ n ∈ numbers s'.loop.internalQueue, n ∈ numbers s.loop.internalQueue)
    (hstart : ∀ x ∈ start, x.message = none)
    (hsince : ∀ n, e.number = some n → Log.Since (·.message = some n) (Replayed n) log) :
    Patient s' (log ++ (start ++ [Entry.dispatched e])) := by
  have hquiet : ∀ {n}, ∀ x ∈ start, ¬ x.message = some n := by
    intro n x hx hn
    rw [hstart x hx] at hn
    cases hn
  have hother : ∀ {n}, n ∈ numbers s'.loop.postponed ∨ n ∈ numbers s'.loop.internalQueue →
      ∀ x ∈ start ++ [.dispatched e], ¬ x.message = some n := by
    intro n hn x hx
    rcases List.mem_append.mp hx with hx | hx
    · exact hquiet x hx
    · rw [List.mem_singleton.mp hx]
      exact hacc.number_ne hn
  refine ⟨fun n hn => ?_, fun n hn => ?_, ?_⟩
  · have hsame := h.postponed n (hpost ▸ hn)
    exact hsame.append (fun l => List.mem_append_left _) (hother (Or.inl hn))
  · have hsame := h.queued n (hqueue n hn)
    exact hsame.append (fun l => Replayed.append) (hother (Or.inr hn))
  · rw [← List.append_assoc]
    refine Log.Prior.snoc (h.again.append fun first x after heq n hn => ?_) fun n hn => ?_
    · exact absurd hn (hquiet x (heq ▸ List.mem_append_right _ List.mem_cons_self))
    · exact (hsince n hn).append (fun l => Replayed.append) hquiet

theorem Settled.mem_numbers {settled : List (Entry State)} {pushed : List QueuedEvent}
    (h : Settled e settled pushed) (hn : n ∈ numbers pushed) : Entry.postponed n ∈ settled := by
  obtain ⟨x, hx, hxn⟩ := List.mem_filterMap.mp hn
  obtain ⟨rfl, m, hm, rfl⟩ := h.pushed hx
  cases hm.symm.trans hxn
  exact List.mem_cons_self

theorem Patient.handled (h : Patient s log) (hresult : ∀ x ∈ entries, x.isResult = true)
    (hpost : ∀ n ∈ numbers s'.loop.postponed,
      n ∈ numbers s.loop.postponed ∨ Entry.postponed n ∈ entries)
    (hqueue : ∀ n ∈ numbers s'.loop.internalQueue, n ∈ numbers s.loop.internalQueue ∨
      (n ∈ numbers s.loop.postponed ∧ Entry.entered ∈ entries) ∨ Replayed n entries) :
    Patient s' (log ++ entries) := by
  have hquiet : ∀ {n}, ∀ x ∈ entries, ¬ x.message = some n := by
    intro n x hx hn
    rw [message_of_isResult (hresult x hx)] at hn
    cases hn
  refine ⟨fun n hn => ?_, fun n hn => ?_, h.again.append fun first x after heq n hn => ?_⟩
  · rcases hpost n hn with hold | hnew
    · exact (h.postponed n hold).append (fun l => List.mem_append_left _) hquiet
    · exact Log.Since.trivial.append (fun l _ => List.mem_append_right _ hnew) hquiet
  · rcases hqueue n hn with hold | ⟨hold, hentered⟩ | ⟨before, after, heq, hentered⟩
    · exact (h.queued n hold).append (fun l => Replayed.append) hquiet
    · exact (h.postponed n hold).append (fun l hl => Replayed.of_mem hl hentered) hquiet
    · refine Log.Since.trivial.append (fun l _ => ⟨l ++ before, after, ?_, hentered⟩) hquiet
      rw [heq, List.append_assoc]
  · exact absurd hn (hquiet x (heq ▸ List.mem_append_right _ List.mem_cons_self))

theorem Patient.step (h : Patient s log) (hgen : Genuine s cur log)
    (hacc : Accounted s' cur' (log ++ entries)) (hm : Moved statem s cur entries s' cur') :
    Patient s' (log ++ entries) := by
  cases hm with
  | still hpost hqueue harr hidle =>
    rw [List.append_nil]
    exact ⟨hpost ▸ h.postponed, hqueue ▸ h.queued, h.again⟩
  | popped hpost hqueue harr =>
    have hmem : ∀ n ∈ numbers s'.loop.internalQueue, n ∈ numbers s.loop.internalQueue := by
      intro n hn
      rw [hqueue]
      exact (numbers_append [_] _).symm ▸ List.mem_append_right _ hn
    refine h.dispatched [] hacc hpost hmem nofun
      fun n hn => h.queued n ?_
    rw [hqueue]
    exact mem_numbers List.mem_cons_self hn
  | fired hpost hqueue hqueue' harr =>
    refine h.dispatched [] hacc hpost (fun n hn => ?_) nofun nofun
    rw [hqueue'] at hn
    cases hn
  | received htype hpost hqueue hqueue' harr =>
    refine h.dispatched [_] hacc hpost (fun n hn => ?_) (fun x hx => ?_) fun n hn => ?_
    · rw [hqueue'] at hn
      cases hn
    · rw [List.mem_singleton.mp hx]
      rfl
    · -- the number is new, so no dispatch in the log has it
      cases hn
      exact Log.Since.of_not fun x hx hnum => hgen.message_ne hx hnum rfl
  | finished hacts hsettled hnew hpost hqueue harr =>
    refine h.handled (isResult_finished hacts hsettled) (fun n hn => ?_) fun n hn => ?_
    · rw [hpost, numbers_append] at hn
      exact (List.mem_append.mp hn).imp_right fun hn =>
        List.mem_append_right _ (hsettled.mem_numbers hn)
    · rw [hqueue, numbers_append, numbers_internal hnew, List.append_nil] at hn
      exact Or.inl hn
  | changed hacts hsettled hnew hpost hqueue harr hphase =>
    refine h.handled (isResult_changed (isResult_finished hacts hsettled)) (fun n hn => ?_)
      fun n hn => ?_
    · rw [hpost] at hn
      cases hn
    · rw [hqueue, numbers_append, numbers_enters, List.nil_append, numbers_append, numbers_append,
        numbers_append, numbers_internal hnew, List.append_nil] at hn
      rcases List.mem_append.mp hn with hn | hn
      · refine Or.inr ?_
        rcases List.mem_append.mp hn with hn | hn
        · exact Or.inl ⟨hn, List.mem_append_right _ List.mem_cons_self⟩
        · refine Or.inr (Replayed.of_mem (List.mem_append_right _ ?_) List.mem_cons_self)
          exact List.mem_append_right _ (hsettled.mem_numbers hn)
      · exact Or.inl hn

/-! ## every run -/

def Tracked (s : Server State Data Call Cast Reply) (log : List (Entry State)) : Prop :=
  ∃ cur, s.phase.Handles cur ∧ Accounted s cur log ∧ Genuine s cur log ∧ Patient s log

theorem tracked_new (statem : GenStatem State Call Cast) (state : State) (data : Data) :
    Tracked (.new statem state data : Server State Data Call Cast Reply) [] := by
  have hwaiting : waiting (.new statem state data : Server State Data Call Cast Reply) [] =
      enters statem state := rfl
  have hnil := numbers_enters statem state
  refine ⟨[], .other nofun, ⟨?_, ?_⟩, genuine_new statem state data,
    ⟨nofun, fun n hn => ?_, Log.Prior.nil⟩⟩
  · rw [hwaiting, hnil]
    exact List.Pairwise.nil
  · rw [hwaiting, hnil]
    exact List.Perm.nil
  · exact absurd (hnil ▸ hn) List.not_mem_nil

def Phase.number : Phase → Option Nat
  | .handling event => event.number
  | _ => none

theorem Phase.Handles.numbers_eq {phase : Phase} (h : phase.Handles cur) :
    numbers cur = phase.number.toList := by
  cases h with
  | handling e =>
    show [e].filterMap (·.number) = e.number.toList
    cases hn : e.number with
    | none => exact List.filterMap_cons_none hn
    | some n => exact List.filterMap_cons_some hn
  | other hno =>
    cases phase with
    | handling event => exact absurd rfl (hno event)
    | idle | terminating | ended => rfl

def consumptions (log : List (Entry State)) : List Nat :=
  log.filterMap fun
    | .consumed n => some n
    | _ => none

theorem count_done (h : Entry.dropped n ∉ log) :
    (log.filterMap Entry.done).count n = (consumptions log).count n := by
  induction log with
  | nil => rfl
  | cons x log ih =>
    have ih := ih fun hn => h (List.mem_cons_of_mem _ hn)
    cases x with
    | consumed m =>
      show (m :: log.filterMap Entry.done).count n = (m :: consumptions log).count n
      rw [List.count_cons, List.count_cons, ih]
    | dropped m =>
      have hm : m ≠ n := fun heq => h (heq ▸ List.mem_cons_self)
      show (m :: log.filterMap Entry.done).count n = (consumptions log).count n
      rw [List.count_cons_of_ne hm, ih]
    | dequeued | dispatched | left | armed | cancelled | postponed | entered => exact ih

theorem Tracked.count_eq (h : Tracked s log) (he : Entry.dequeued e ∈ log) (hn : e.number = some n)
    (hcall : ∀ tx, e.eventType ≠ .call tx) :
    (numbers s.loop.postponed ++ s.phase.number.toList ++ numbers s.loop.internalQueue ++
      consumptions log).count n = 1 := by
  obtain ⟨cur, hcur, hacc, hgen, -⟩ := h
  have hdropped : Entry.dropped n ∉ log := by
    intro hdropped
    obtain ⟨e', tx, he', hn', htx⟩ := hgen.dropped n hdropped
    obtain rfl := hgen.unique e e' he he' (hn.trans hn'.symm)
    exact hcall tx htx
  obtain ⟨m, hm, hlt⟩ := hgen.numbered e he
  cases hn.symm.trans hm
  have hcount := hacc.accounted.count_eq n
  rw [List.count_append, count_done hdropped, ← List.count_append, numbers_waiting,
    hcur.numbers_eq] at hcount
  rw [List.append_assoc, List.append_assoc, ← List.append_assoc _ _ (consumptions log),
    ← List.append_assoc, hcount]
  exact List.count_eq_one_of_mem List.nodup_range (List.mem_range.mpr hlt)

theorem Accounted.pairwise (h : Accounted s cur log) :
    (numbers (s.loop.postponed ++ s.loop.internalQueue)).Pairwise (· < ·) := by
  have hordered := h.ordered
  rw [numbers_waiting] at hordered
  rw [numbers_append]
  exact hordered.sublist ((List.sublist_append_right _ _).append_left _)

variable [BEq State]

theorem tracked_of_reach
    (h : ((statemMachine Data Reply statem).logged (Server.entries statem)).Reach
      Machine.Anytime (s, log)) : Tracked s log := by
  refine h.inv_logged ?_ ?_
  · rintro s ⟨state, data, rfl⟩
    exact tracked_new statem state data
  · rintro s log event s' ⟨cur, hcur, hacc, hgen, hpatient⟩ hnext
    obtain ⟨cur', hcur', hm⟩ := (next_cases hnext).moved hcur hgen.current
    have hacc' := hacc.step hm
    exact ⟨cur', hcur', hacc', hgen.step hm, hpatient.step hgen hacc' hm⟩

/-- in every run every cast and every message of the mailbox is in one place, is dispatched again
only after it was postponed and the state changed, and as what it was dequeued as; the list and
then the queue are in the order of arrival, and no message is dequeued while others wait -/
theorem replayed_in_order
    (h : ((statemMachine Data Reply statem).logged (Server.entries statem)).Reach
      Machine.Anytime (s, log)) :
    (∀ e, Entry.dequeued e ∈ log → e.eventType = .cast ∨ e.eventType = .info →
      ∃ n, e.number = some n ∧
        (numbers s.loop.postponed ++ s.phase.number.toList ++ numbers s.loop.internalQueue ++
          consumptions log).count n = 1) ∧
    (∀ n before first between again after,
      log = before ++ first :: (between ++ again :: after) →
      first.message = some n → again.message = some n → Replayed n between) ∧
    (∀ e, Entry.dispatched e ∈ log → e.eventType.isMessage = true → Entry.dequeued e ∈ log) ∧
    (∀ e e', Entry.dequeued e ∈ log → Entry.dequeued e' ∈ log → e.number = e'.number → e = e') ∧
    (numbers (s.loop.postponed ++ s.loop.internalQueue)).Pairwise (· < ·) ∧
    ∀ event s' e, s.next statem event = some s' → Entry.dequeued e ∈ s.entries statem event →
      s.loop.internalQueue = [] := by
  obtain ⟨cur, hcur, hacc, hgen, hpatient⟩ := tracked_of_reach h
  refine ⟨fun e he htype => ?_, fun n before first between again after heq hfirst hagain => ?_,
    fun e he hmsg => ?_, hgen.unique, hacc.pairwise, fun event s' e hnext he => ?_⟩
  · obtain ⟨n, hn, -⟩ := hgen.numbered e he
    refine ⟨n, hn, (tracked_of_reach h).count_eq he hn fun tx htx => ?_⟩
    rw [htx] at htype
    rcases htype with htype | htype <;> cases htype
  · have hsplit : log = (before ++ first :: between) ++ again :: after := by
      rw [heq, List.append_assoc, List.cons_append]
    exact hpatient.again _ again after hsplit n hagain before first between rfl hfirst
  · obtain ⟨hwf, hdequeued⟩ := hgen.dispatched e he
    exact hdequeued (hwf.message ▸ hmsg)
  · obtain ⟨cur', -, hm⟩ := (next_cases hnext).moved hcur hgen.current
    exact (hm.dequeued he).2.2

private def turnstile : GenStatem Bool Unit Unit :=
  .plain false fun unlocked => if unlocked then "Unlocked" else "Locked"

/-- the first of two casts is postponed, and the second unlocks -/
private def unlocking : List (Event Bool Unit Unit Unit Unit) :=
  [.cast (), .cast (), .turn .early, .handled 0 () (.keepStateAndData [.postpone]), .turn .early,
    .handled 0 () (.nextState true () []), .turn .early]

private def unlocks : List (Entry Bool) → Bool
  | [.dequeued e, .dispatched first, .postponed 0, .dequeued _, .dispatched _, .left false,
      .consumed 1, .entered, .dispatched again] =>
    decide (e.eventType = .cast ∧ e.number = some 0 ∧ first.number = some 0 ∧
      again.number = some 0)
  | _ => false

private theorem exists_of_unlocks {log : List (Entry Bool)} (h : unlocks log = true) :
    ∃ e first e' second again, log = [.dequeued e, .dispatched first, .postponed 0, .dequeued e',
      .dispatched second, .left false, .consumed 1, .entered, .dispatched again] ∧
      e.eventType = .cast ∧ e.number = some 0 ∧ first.number = some 0 ∧ again.number = some 0 := by
  unfold unlocks at h
  split at h
  · exact ⟨_, _, _, _, _, rfl, of_decide_eq_true h⟩
  · cases h

theorem replayed_in_order_unlocking :
    ∃ (s : Server Bool Unit Unit Unit Unit) (log : List (Entry Bool)),
      ((statemMachine Unit Unit turnstile).logged (Server.entries turnstile)).Reach
        Machine.Anytime (s, log) ∧
      s.phase.number = some 0 ∧
      (numbers s.loop.postponed ++ s.phase.number.toList ++ numbers s.loop.internalQueue ++
        consumptions log).count 0 = 1 ∧
      ∃ before first between again, log = before ++ first :: (between ++ [again]) ∧
        first.message = some 0 ∧ again.message = some 0 ∧ Replayed 0 between := by
  have hstart : ((statemMachine Unit Unit turnstile).logged (Server.entries turnstile)).Reach
      Machine.Anytime (.new turnstile false (), []) := .start ⟨⟨false, (), rfl⟩, rfl⟩
  obtain ⟨⟨s, log⟩, h, hlog, hphase⟩ := hstart.exists_run unlocking
    (p := fun s => unlocks s.2 = true ∧ s.1.phase.number = some 0) (by decide)
  obtain ⟨e, first, e', second, again, rfl, htype, hn, hfirst, hagain⟩ := exists_of_unlocks hlog
  obtain ⟨hplace, hreplayed, -⟩ := replayed_in_order h
  obtain ⟨n, hn', hcount⟩ := hplace e List.mem_cons_self (Or.inl htype)
  cases hn.symm.trans hn'
  exact ⟨s, _, h, hphase, hcount, [.dequeued e], .dispatched first,
    [.postponed 0, .dequeued e', .dispatched second, .left false, .consumed 1, .entered],
    .dispatched again, rfl, hfirst, hagain,
    hreplayed 0 [.dequeued e] (.dispatched first) _ (.dispatched again) [] rfl hfirst hagain⟩

end Rebar.Statem

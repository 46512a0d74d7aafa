import Rebar.Supervisor.Dynamic

/-!
# The restart limiters

Both supervisors limit restarts by a deque of times.  The static one records the restart, drops what
has left the window and compares with at most; the dynamic one drops first, compares with fewer
than, and records only what it allows.
-/

namespace Rebar.Supervisor

/-- what the limiter answers, up to and including the first rejection -/
def answers {σ : Type} (check : σ → Nanos → σ × Bool) : σ → List Nanos → List Bool
  | _, [] => []
  | s, now :: times =>
    match check s now with
    | (s, true) => true :: answers check s times
    | (_, false) => [false]

def allow (maxRestarts : Nat) (window : Nanos) (allowed : List Nanos) (now : Nanos) :
    List Nanos × Bool :=
  if (allowed.filter fun t => now - window ≤ t).length < maxRestarts then (allowed ++ [now], true)
  else (allowed, false)

/-! ## deques of times -/

def outside (window now front : Nanos) : Bool := window < now - front

theorem outside_iff {window now t : Nanos} : outside window now t = false ↔ now - window ≤ t := by
  unfold outside
  rw [decide_eq_false_iff_not, Nat.not_lt, Nat.sub_le_iff_le_add, Nat.sub_le_iff_le_add, Nat.add_comm]

variable {times : List Nanos}

theorem dropWhile_eq_filter {window now : Nanos} (h : times.Pairwise (· ≤ ·)) :
    times.dropWhile (outside window now) = times.filter fun t => now - window ≤ t := by
  induction times with
  | nil => rfl
  | cons t times ih =>
    obtain ⟨hhead, htail⟩ := List.pairwise_cons.mp h
    cases hout : outside window now t with
    | true =>
      have hno : ¬ now - window ≤ t := by
        rw [← outside_iff, hout]
        decide
      rw [List.dropWhile_cons_of_pos hout, ih htail, List.filter_cons_of_neg (by simpa using hno)]
    | false =>
      -- all that follows is later, and stays as well
      have hall : ∀ t' ∈ t :: times, decide (now - window ≤ t') = true := by
        intro t' ht'
        have hle := outside_iff.mp hout
        rcases List.mem_cons.mp ht' with rfl | ht'
        · exact decide_eq_true hle
        · exact decide_eq_true (hle.trans (hhead t' ht'))
      rw [List.dropWhile_cons_of_neg (by rw [hout]; decide), List.filter_eq_self.mpr hall]

theorem outside_self (window now : Nanos) : outside window now now = false := by
  unfold outside
  rw [Nat.sub_self]
  rfl

theorem dropWhile_push (window now : Nanos) (times : List Nanos) :
    (times ++ [now]).dropWhile (outside window now)
      = times.dropWhile (outside window now) ++ [now] := by
  rw [List.dropWhile_append]
  split
  · next hempty =>
    rw [List.isEmpty_iff.mp hempty, List.dropWhile_cons_of_neg (by rw [outside_self]; decide)]
    rfl
  · rfl

/-- the deque is ordered, and holds the allowed restarts that are within the window now or later -/
structure Recent (window last : Nanos) (deque allowed : List Nanos) : Prop where
  ordered : deque.Pairwise (· ≤ ·)
  past : ∀ t ∈ deque, t ≤ last
  same : ∀ now, last ≤ now →
    (deque.filter fun t => now - window ≤ t) = allowed.filter fun t => now - window ≤ t

variable {window last now : Nanos} {deque allowed : List Nanos}

theorem Recent.nil : Recent window last [] [] where
  ordered := .nil
  past := nofun
  same := fun _ _ => rfl

theorem Recent.dropWhile_eq (h : Recent window last deque allowed) (hnow : last ≤ now) :
    deque.dropWhile (outside window now) = allowed.filter fun t => now - window ≤ t := by
  rw [dropWhile_eq_filter h.ordered, h.same now hnow]

theorem Recent.push (h : Recent window last deque allowed) (hnow : last ≤ now) :
    Recent window now (deque.dropWhile (outside window now) ++ [now]) (allowed ++ [now]) where
  ordered := by
    refine List.pairwise_append.mpr ⟨?_, List.pairwise_singleton _ _, ?_⟩
    · exact h.ordered.sublist (List.dropWhile_sublist _)
    · intro t ht now' hnow'
      rw [List.mem_singleton.mp hnow']
      exact (h.past t ((List.dropWhile_sublist _).subset ht)).trans hnow
  past := by
    intro t ht
    rcases List.mem_append.mp ht with ht | ht
    · exact (h.past t ((List.dropWhile_sublist _).subset ht)).trans hnow
    · exact (List.mem_singleton.mp ht).le
  same := by
    intro later hlater
    -- what is within the window later is within it now
    have hwithin : ∀ t, (decide (later - window ≤ t) && decide (now - window ≤ t))
        = decide (later - window ≤ t) := by
      intro t
      rw [Bool.and_eq_left_iff_imp, decide_eq_true_iff, decide_eq_true_iff]
      exact (Nat.sub_le_sub_right hlater window).trans
    rw [h.dropWhile_eq hnow, List.filter_append, List.filter_append, List.filter_filter]
    simp only [hwithin]

/-! ## the limiters -/

/-- **The rule for a limiter.**  It answers by the rule if it compares what is left of its deque with
the limit, and records what it allows. -/
theorem answers_allow {σ : Type} {check : σ → Nanos → σ × Bool} (deque : σ → List Nanos)
    (P : σ → Prop) {limit : Nat} (hcheck : ∀ s now, P s → P (check s now).1 ∧
      (check s now).2 = decide (((deque s).dropWhile (outside window now)).length < limit) ∧
      ((check s now).2 = true →
        deque (check s now).1 = (deque s).dropWhile (outside window now) ++ [now]))
    {s : σ} (hs : P s) (h : Recent window last (deque s) allowed)
    (hsorted : (last :: times).Pairwise (· ≤ ·)) :
    answers check s times = answers (allow limit window) allowed times := by
  induction times generalizing last s allowed with
  | nil => rfl
  | cons now times ih =>
    obtain ⟨hlast, hrest⟩ := List.pairwise_cons.mp hsorted
    have hnow := hlast now List.mem_cons_self
    obtain ⟨hs', hverdict, hdeque⟩ := hcheck s now hs
    rw [h.dropWhile_eq hnow] at hverdict
    rw [answers, answers]
    rcases hc : check s now with ⟨s', verdict⟩
    rw [hc] at hs' hverdict hdeque
    unfold allow
    cases verdict with
    | true =>
      rw [if_pos (of_decide_eq_true hverdict.symm)]
      have hrecent := h.push hnow
      rw [← hdeque rfl] at hrecent
      exact congrArg _ (ih hs' hrecent hrest)
    | false => rw [if_neg (of_decide_eq_false hverdict.symm)]

variable {F G : Type}

theorem static_answers (state : SupervisorState F) (hempty : state.restartTimes = [])
    (h : times.Pairwise (· ≤ ·)) :
    answers SupervisorState.checkRestartLimit state times
      = answers (allow state.maxRestarts (seconds state.maxSeconds)) [] times := by
  have hsorted : (0 :: times).Pairwise (· ≤ ·) :=
    List.pairwise_cons.mpr ⟨fun t _ => Nat.zero_le t, h⟩
  refine answers_allow SupervisorState.restartTimes
    (fun s => s.maxRestarts = state.maxRestarts ∧ s.maxSeconds = state.maxSeconds) ?_
    ⟨rfl, rfl⟩ ?_ hsorted
  · rintro s now ⟨hr, hs⟩
    rw [← hr, ← hs]
    have hpush := dropWhile_push (seconds s.maxSeconds) now s.restartTimes
    unfold SupervisorState.checkRestartLimit
    by_cases hzero : s.maxRestarts = 0
    · rw [if_pos hzero, hzero]
      exact ⟨⟨rfl, rfl⟩, rfl, nofun⟩
    · rw [if_neg hzero]
      refine ⟨⟨rfl, rfl⟩, ?_, fun _ => hpush⟩
      dsimp only
      refine decide_eq_decide.mpr ?_
      show ((s.restartTimes ++ [now]).dropWhile (outside _ now)).length ≤ _ ↔ _
      rw [hpush, List.length_append]
      exact Nat.succ_le_iff
  · rw [hempty]
    exact .nil

theorem dynamic_answers (state : DynSupervisorState F) (hempty : state.restartTimes = [])
    (h : times.Pairwise (· ≤ ·)) :
    answers DynSupervisorState.checkRestartLimit state times
      = answers (allow state.maxRestarts (seconds state.maxSeconds)) [] times := by
  have hsorted : (0 :: times).Pairwise (· ≤ ·) :=
    List.pairwise_cons.mpr ⟨fun t _ => Nat.zero_le t, h⟩
  refine answers_allow DynSupervisorState.restartTimes
    (fun s => s.maxRestarts = state.maxRestarts ∧ s.maxSeconds = state.maxSeconds) ?_
    ⟨rfl, rfl⟩ ?_ hsorted
  · rintro s now ⟨hr, hs⟩
    rw [← hr, ← hs]
    unfold DynSupervisorState.checkRestartLimit
    dsimp only
    split
    · next hfull =>
      exact ⟨⟨rfl, rfl⟩, (decide_eq_false (Nat.not_lt.mpr hfull)).symm, nofun⟩
    · next hroom =>
      exact ⟨⟨rfl, rfl⟩, (decide_eq_true (Nat.not_le.mp hroom)).symm, fun _ => rfl⟩
  · rw [hempty]
    exact .nil

/-- **For the same limits and every nondecreasing sequence of restarts, the static and the dynamic
limiter give the same answers up to and including the first rejection, those of the rule.** -/
theorem limiters_agree (sup : SupervisorState F) (dyn : DynSupervisorState G)
    (hrestarts : dyn.maxRestarts = sup.maxRestarts) (hseconds : dyn.maxSeconds = sup.maxSeconds)
    (hsup : sup.restartTimes = []) (hdyn : dyn.restartTimes = []) {times : List Nanos}
    (h : times.Pairwise (· ≤ ·)) :
    answers SupervisorState.checkRestartLimit sup times
      = answers DynSupervisorState.checkRestartLimit dyn times ∧
    answers SupervisorState.checkRestartLimit sup times
      = answers (allow sup.maxRestarts (seconds sup.maxSeconds)) [] times := by
  have hs := static_answers sup hsup h
  have hd := dynamic_answers dyn hdyn h
  rw [hrestarts, hseconds] at hd
  exact ⟨hs.trans hd.symm, hs⟩

/-- two restarts in a second: one exactly a second old still counts, one a nanosecond older does
not -/
theorem limiters_agree_edge :
    let sup : SupervisorState Unit := ⟨.oneForOne, 2, 1, [], []⟩
    let dyn : DynSupervisorState Unit := ⟨2, 1, ∅, ∅, [], ∅, 0⟩
    let times := [0, 0, 1000000001, 1000000001, 2000000001, 3000000000]
    answers (allow 2 (seconds 1)) [] times = [true, true, true, true, false] ∧
    answers SupervisorState.checkRestartLimit sup times
      = answers DynSupervisorState.checkRestartLimit dyn times ∧
    answers SupervisorState.checkRestartLimit sup times
      = answers (allow sup.maxRestarts (seconds sup.maxSeconds)) [] times := by
  refine ⟨by decide, limiters_agree _ _ rfl rfl rfl rfl (by decide)⟩

end Rebar.Supervisor

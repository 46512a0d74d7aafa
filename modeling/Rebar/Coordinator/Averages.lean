import Mathlib.Order.Basic
import Rebar.Coordinator.Engine

/-!
# The average response time

The average that `complete_task` keeps for a worker, over any sequence of samples.  It is an integer recurrence with
a division that rounds down, so under a constant sample it stops up to three below the sample when it comes from
below.
-/

namespace Rebar.Coordinator

/-- completions of the tasks of one worker, one after another -/
def CoordState.fed (st : CoordState) (pid : ProcessId) (samples : List Nat) : CoordState :=
  samples.foldl (fun st sample => st.completeTask pid sample) st

def WorkerInfo.fed (w : WorkerInfo) (samples : List Nat) : WorkerInfo :=
  samples.foldl (fun w sample => w.complete sample) w

def clamped (sample : Nat) : Nat := min (max sample 1) maxAvgResponseUs

/-- a worker that has completed a task -/
structure Bounded (w : WorkerInfo) : Prop where
  pos : 1 ≤ w.avgResponseUs
  le : w.avgResponseUs ≤ maxAvgResponseUs

/-- the average is where the sample `s` leaves it -/
def Settled (s : Nat) (w : WorkerInfo) : Prop := max 1 (s - 3) ≤ w.avgResponseUs ∧ w.avgResponseUs ≤ s

variable {st : CoordState} {pid : ProcessId} {w : WorkerInfo} {s sample : Nat}

theorem find?_completeTask (st : CoordState) (pid : ProcessId) (sample : Nat) :
    (st.completeTask pid sample).workers.find? (·.pid = pid)
      = (st.workers.find? (·.pid = pid)).map (·.complete sample) :=
  find?_modifyFirst _ fun _ => rfl

theorem find?_fed (hw : st.workers.find? (·.pid = pid) = some w) (samples : List Nat) :
    (st.fed pid samples).workers.find? (·.pid = pid) = some (w.fed samples) := by
  induction samples generalizing st w with
  | nil => exact hw
  | cons sample samples ih =>
    apply ih
    rw [find?_completeTask, hw]
    rfl

/-! ## one sample -/

theorem avg_first (h : w.completed = 0) (sample : Nat) : (w.complete sample).avgResponseUs = clamped sample := by
  show w.nextAvg (max sample 1) = _
  rw [WorkerInfo.nextAvg, if_pos (by rw [h]; rfl), clamped]

/-- the counter may have wrapped, and then the sample is taken as the first one again -/
theorem avg_complete (w : WorkerInfo) (sample : Nat) : (w.complete sample).avgResponseUs = clamped sample ∨
    (w.complete sample).avgResponseUs
      = min ((3 * max sample 1 + 7 * w.avgResponseUs) / 10) maxAvgResponseUs := by
  have hmax : maxAvgResponseUs ≤ u64Max.toNat := by decide
  show w.nextAvg (max sample 1) = _ ∨ w.nextAvg (max sample 1) = _
  rw [WorkerInfo.nextAvg, clamped]
  split
  · exact Or.inl rfl
  · dsimp only
    split <;> omega

/-- the next average lies between the last one and the sample -/
theorem Bounded.between (h : Bounded w) (sample : Nat) :
    min w.avgResponseUs (clamped sample) ≤ (w.complete sample).avgResponseUs ∧
      (w.complete sample).avgResponseUs ≤ max w.avgResponseUs (clamped sample) := by
  obtain ⟨hpos, hle⟩ := h
  have hnext := avg_complete w sample
  rw [clamped] at hnext ⊢
  omega

theorem Bounded.complete (h : w.completed = 0 ∨ Bounded w) (sample : Nat) : Bounded (w.complete sample) := by
  have hclamped : 1 ≤ clamped sample ∧ clamped sample ≤ maxAvgResponseUs :=
    ⟨Nat.le_min.mpr ⟨Nat.le_max_right .., by decide⟩, Nat.min_le_right ..⟩
  rcases h with h | h
  · rw [← avg_first h] at hclamped
    exact ⟨hclamped.1, hclamped.2⟩
  · obtain ⟨hlow, hhigh⟩ := h.between sample
    exact ⟨Nat.le_trans (Nat.le_min.mpr ⟨h.pos, hclamped.1⟩) hlow,
      Nat.le_trans hhigh (Nat.max_le.mpr ⟨h.le, hclamped.2⟩)⟩

theorem Bounded.fed (h : w.completed = 0) {samples : List Nat} (hne : samples ≠ []) : Bounded (w.fed samples) := by
  have hall : ∀ (samples : List Nat) (w : WorkerInfo), Bounded w → Bounded (w.fed samples) := by
    intro samples
    induction samples with
    | nil => exact fun w hw => hw
    | cons sample samples ih => exact fun w hw => ih _ (.complete (Or.inr hw) sample)
  cases samples with
  | nil => exact absurd rfl hne
  | cons sample samples => exact hall samples _ (.complete (Or.inl h) sample)

/-! ## the same sample again and again -/

theorem Settled.complete (h : Settled s w) (hle : s ≤ maxAvgResponseUs) : Settled s (w.complete s) := by
  obtain ⟨hlow, hhigh⟩ := h
  have hnext := avg_complete w s
  rw [clamped] at hnext
  rw [Settled]
  omega

theorem Settled.fed (h : Settled s w) (hle : s ≤ maxAvgResponseUs) (j : Nat) :
    Settled s (w.fed (List.replicate j s)) := by
  induction j generalizing w with
  | zero => exact h
  | succ j ih => exact ih (h.complete hle)

/-- as long as the average is not settled, it comes closer to the sample -/
theorem Bounded.closer (h : Bounded w) (hpos : 1 ≤ s) (hle : s ≤ maxAvgResponseUs) (hnot : ¬ Settled s w) :
    ((w.complete s).avgResponseUs - s) + (s - (w.complete s).avgResponseUs)
      < (w.avgResponseUs - s) + (s - w.avgResponseUs) := by
  have hold := h.pos
  have hmax := h.le
  have hnext := avg_complete w s
  rw [clamped] at hnext
  rw [Settled] at hnot
  omega

theorem Bounded.settles (h : Bounded w) (hpos : 1 ≤ s) (hle : s ≤ maxAvgResponseUs) :
    ∃ k, ∀ j, k ≤ j → Settled s (w.fed (List.replicate j s)) := by
  induction hd : (w.avgResponseUs - s) + (s - w.avgResponseUs) using Nat.strongRecOn generalizing w with
  | _ d ih =>
    by_cases hs : Settled s w
    · exact ⟨0, fun j _ => hs.fed hle j⟩
    · have hcloser := h.closer hpos hle hs
      obtain ⟨k, hk⟩ := ih _ (hd ▸ hcloser) (.complete (Or.inr h) s) rfl
      refine ⟨k + 1, fun j hj => ?_⟩
      obtain ⟨j, rfl⟩ : ∃ i, j = i + 1 := ⟨j - 1, by omega⟩
      exact hk j (by omega)

/-- the product does not saturate -/
theorem load_exact (h : w.avgResponseUs ≤ maxAvgResponseUs) {n : Nat} (hn : n < 2 ^ 32 - 1) :
    { w with inFlight := n }.load = (n + 1) * max w.avgResponseUs 1 := by
  have hprod : (n + 1) * max w.avgResponseUs 1 ≤ (2 ^ 32 - 1) * maxAvgResponseUs :=
    Nat.mul_le_mul (by omega) (Nat.max_le.mpr ⟨h, by decide⟩)
  exact Nat.min_eq_left (Nat.le_trans hprod (by decide))

/-- **The average of a worker stays in range, moves towards each sample, settles under a constant one, and the load
made of it is exact.** -/
theorem averages_sound (st : CoordState) (pid : ProcessId) (w : WorkerInfo)
    (hw : st.workers.find? (·.pid = pid) = some w) (hnew : w.completed = 0 ∧ w.avgResponseUs = 0)
    (samples : List Nat) : ∃ w', (st.fed pid samples).workers.find? (·.pid = pid) = some w' ∧
      (samples ≠ [] → 1 ≤ w'.avgResponseUs ∧ w'.avgResponseUs ≤ maxAvgResponseUs ∧
        ∀ sample, ∃ next, (st.fed pid (samples ++ [sample])).workers.find? (·.pid = pid) = some next ∧
          min w'.avgResponseUs (clamped sample) ≤ next.avgResponseUs ∧
          next.avgResponseUs ≤ max w'.avgResponseUs (clamped sample)) ∧
      (∀ s, 1 ≤ s → s ≤ maxAvgResponseUs → ∃ k, ∀ j, k ≤ j → ∃ later,
        (st.fed pid (samples ++ List.replicate j s)).workers.find? (·.pid = pid) = some later ∧
          max 1 (s - 3) ≤ later.avgResponseUs ∧ later.avgResponseUs ≤ s) ∧
      ∀ n < 2 ^ 32 - 1, { w' with inFlight := n }.load = (n + 1) * max w'.avgResponseUs 1 := by
  have happend : ∀ more, w.fed (samples ++ more) = (w.fed samples).fed more := fun more => List.foldl_append
  have hstate : (w.fed samples).completed = 0 ∧ (w.fed samples).avgResponseUs = 0 ∨ Bounded (w.fed samples) := by
    by_cases hne : samples = []
    · subst hne
      exact Or.inl hnew
    · exact Or.inr (.fed hnew.1 hne)
  refine ⟨_, find?_fed hw samples, fun hne => ?_, fun s hpos hle => ?_, fun n hn => ?_⟩
  · have hb := Bounded.fed hnew.1 hne
    refine ⟨hb.pos, hb.le, fun sample => ⟨_, find?_fed hw _, ?_⟩⟩
    rw [happend]
    exact hb.between sample
  · have hb : Bounded ((w.fed samples).complete s) := .complete (hstate.imp_left And.left) s
    obtain ⟨k, hk⟩ := hb.settles hpos hle
    refine ⟨k + 1, fun j hj => ⟨_, find?_fed hw _, ?_⟩⟩
    obtain ⟨j, rfl⟩ : ∃ i, j = i + 1 := ⟨j - 1, by omega⟩
    rw [happend]
    exact hk j (by omega)
  · apply load_exact _ hn
    rcases hstate with hfresh | hb
    · rw [hfresh.2]
      exact Nat.zero_le _
    · exact hb.le

/-- a slow first task and a fast second one -/
theorem averages_sound_pair :
    ∃ w', ((CoordState.mk [⟨1, ⟨1, 1⟩, .nil, 0, 0, 0⟩] 1 0).fed ⟨1, 1⟩ [1000, 0]).workers.find? (·.pid = ⟨1, 1⟩)
        = some w' ∧ w'.avgResponseUs = 700 ∧ 1 ≤ w'.avgResponseUs := by
  obtain ⟨w', hw, hbounds, -⟩ := averages_sound (.mk [⟨1, ⟨1, 1⟩, .nil, 0, 0, 0⟩] 1 0) ⟨1, 1⟩ _ rfl ⟨rfl, rfl⟩ [1000, 0]
  refine ⟨w', hw, ?_, (hbounds nofun).1⟩
  cases hw
  rfl

end Rebar.Coordinator

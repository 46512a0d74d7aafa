import Rebar.Connection.Manager

/-!
# The delays between reconnects

`backoff_delay` against the formula of its documentation, `min(base_delay * 2^attempt, max_delay)`.  The power is
cut to `u32::MAX` before it is multiplied, so the two part at attempt 32, unless `max_delay` is reached by then.
-/

namespace Rebar.Connection
open Swim (NodeId)
open Transport (TransportError)

/-- the formula of the documentation -/
def ReconnectPolicy.formula (policy : ReconnectPolicy) (attempt : Nat) : Nanos :=
  min (policy.baseDelay * 2 ^ attempt) policy.maxDelay

/-- reconnects to a node that fail, one after another -/
def ConnectionManager.failing (m : ConnectionManager) (nodeId : NodeId) (es : List TransportError) :
    ConnectionManager :=
  es.foldl (fun m e => (m.attemptReconnect nodeId (.error e)).1) m

variable {policy : ReconnectPolicy} {m : ConnectionManager} {nodeId : NodeId}

/-- the `if` at the end of `backoff_delay` -/
theorem ite_lt_eq_min (a b : Nanos) : (if b < a then b else a) = min a b := by
  by_cases h : b < a
  · rw [if_pos h, min_eq_right h.le]
  · rw [if_neg h, min_eq_left (not_lt.mp h)]

theorem backoffDelay_small (hmax : policy.maxDelay ≤ maxDuration) {attempt : UInt32} (h : attempt.toNat < 32) :
    policy.backoffDelay attempt = policy.formula attempt.toNat := by
  have hpow : 2 ^ attempt.toNat ≤ maxU32 := by
    have hle : 2 ^ attempt.toNat ≤ 2 ^ 31 := Nat.pow_le_pow_right (by omega) (by omega)
    exact hle.trans (by decide)
  have hcut : min (2 ^ attempt.toNat) u64Max.toNat = 2 ^ attempt.toNat := min_eq_left (hpow.trans (by decide))
  rw [ReconnectPolicy.backoffDelay, ReconnectPolicy.formula, hcut, if_pos hpow, ite_lt_eq_min, min_assoc,
    min_eq_right hmax]

theorem backoffDelay_large (hmax : policy.maxDelay ≤ maxDuration) {attempt : UInt32} (h : 32 ≤ attempt.toNat) :
    policy.backoffDelay attempt = min (policy.baseDelay * maxU32) policy.maxDelay := by
  have hpow : 2 ^ 32 ≤ 2 ^ attempt.toNat := Nat.pow_le_pow_right (by omega) h
  have hcut : ¬ min (2 ^ attempt.toNat) u64Max.toNat ≤ maxU32 := by
    have hmin : 2 ^ 32 ≤ min (2 ^ attempt.toNat) u64Max.toNat := le_min hpow (by decide)
    exact fun hle => absurd (hmin.trans hle) (by decide)
  rw [ReconnectPolicy.backoffDelay, if_neg hcut, ite_lt_eq_min, min_assoc, min_eq_right hmax]

/-- past attempt 31 the factor is wrong, but `max_delay` is less than the product with either -/
theorem backoffDelay_eq (hmax : policy.maxDelay ≤ maxDuration)
    (hcut : policy.baseDelay = 0 ∨ policy.maxDelay ≤ policy.baseDelay * maxU32) (attempt : UInt32) :
    policy.backoffDelay attempt = policy.formula attempt.toNat := by
  by_cases h : attempt.toNat < 32
  · exact backoffDelay_small hmax h
  · have hpow : maxU32 ≤ 2 ^ attempt.toNat := by
      have hle : 2 ^ 32 ≤ 2 ^ attempt.toNat := Nat.pow_le_pow_right (by omega) (by omega)
      exact (by decide : maxU32 ≤ 2 ^ 32).trans hle
    rw [backoffDelay_large hmax (by omega), ReconnectPolicy.formula]
    rcases hcut with hzero | hcut
    · rw [hzero, Nat.zero_mul, Nat.zero_mul]
    · rw [min_eq_right hcut, min_eq_right (hcut.trans (Nat.mul_le_mul_left _ hpow))]

theorem formula_mono {a b : Nat} (h : a ≤ b) : policy.formula a ≤ policy.formula b := by
  have hpow : 2 ^ a ≤ 2 ^ b := Nat.pow_le_pow_right (by omega) h
  exact min_le_min_right _ (Nat.mul_le_mul_left _ hpow)

theorem backoffDelay_le (hmax : policy.maxDelay ≤ maxDuration) (attempt : UInt32) :
    policy.backoffDelay attempt ≤ policy.baseDelay * maxU32 := by
  by_cases h : attempt.toNat < 32
  · have hpow : 2 ^ attempt.toNat ≤ 2 ^ 31 := Nat.pow_le_pow_right (by omega) (by omega)
    rw [backoffDelay_small hmax h]
    exact (min_le_left _ _).trans (Nat.mul_le_mul_left _ (hpow.trans (by decide)))
  · rw [backoffDelay_large hmax (by omega)]
    exact min_le_left _ _

theorem backoffDelay_mono (hmax : policy.maxDelay ≤ maxDuration) {a b : UInt32} (h : a ≤ b) :
    policy.backoffDelay a ≤ policy.backoffDelay b := by
  have hle := UInt32.le_iff_toNat_le.mp h
  by_cases hb : b.toNat < 32
  · rw [backoffDelay_small hmax (hle.trans_lt hb), backoffDelay_small hmax hb]
    exact formula_mono hle
  · rw [backoffDelay_large hmax (not_lt.mp hb)]
    refine le_min (backoffDelay_le hmax a) ?_
    rw [ReconnectPolicy.backoffDelay, ite_lt_eq_min]
    exact min_le_right _ _

theorem toNat_count_succ
    (hbudget : (m.reconnectAttemptCount nodeId).toNat + 1 < m.reconnectPolicy.maxAttempts.toNat) :
    (m.reconnectAttemptCount nodeId + 1).toNat = (m.reconnectAttemptCount nodeId).toNat + 1 := by
  have hlt := m.reconnectPolicy.maxAttempts.toNat_lt
  rw [UInt32.toNat_add]
  exact Nat.mod_eq_of_lt (by rw [show (1 : UInt32).toNat = 1 from rfl]; omega)

/-- a failed reconnect counts, until the budget is used up -/
theorem attemptReconnect_fails (hknown : nodeId ∈ m.addresses)
    (hbudget : (m.reconnectAttemptCount nodeId).toNat + 1 < m.reconnectPolicy.maxAttempts.toNat) (e : TransportError) :
    (m.attemptReconnect nodeId (.error e)).1
      = { m with
          reconnectAttempts := m.reconnectAttempts.insert nodeId (m.reconnectAttemptCount nodeId + 1) } := by
  obtain ⟨addr, haddr⟩ := Option.isSome_iff_exists.mp (AList.lookup_isSome.mpr hknown)
  have hleft : ¬ m.reconnectPolicy.maxAttempts ≤ m.reconnectAttemptCount nodeId + 1 := by
    rw [UInt32.le_iff_toNat_le, toNat_count_succ hbudget]
    omega
  have hfail : (m.failReconnect nodeId e).1 = { m with
      reconnectAttempts := m.reconnectAttempts.insert nodeId (m.reconnectAttemptCount nodeId + 1) } := by
    rw [ConnectionManager.failReconnect, if_neg hleft]
  rw [ConnectionManager.attemptReconnect, haddr]
  exact hfail

theorem nextBackoff_failing {es : List TransportError} (hknown : nodeId ∈ m.addresses)
    (hbudget : (m.reconnectAttemptCount nodeId).toNat + es.length < m.reconnectPolicy.maxAttempts.toNat) :
    ((m.failing nodeId es).reconnectAttemptCount nodeId).toNat
        = (m.reconnectAttemptCount nodeId).toNat + es.length ∧
      (m.failing nodeId es).reconnectPolicy = m.reconnectPolicy := by
  induction es generalizing m with
  | nil => exact ⟨rfl, rfl⟩
  | cons e es ih =>
    rw [List.length_cons] at hbudget
    have hone : (m.reconnectAttemptCount nodeId).toNat + 1 < m.reconnectPolicy.maxAttempts.toNat := by omega
    have hfail := attemptReconnect_fails hknown hone e
    have hcount : (((m.attemptReconnect nodeId (.error e)).1).reconnectAttemptCount nodeId).toNat
        = (m.reconnectAttemptCount nodeId).toNat + 1 := by
      rw [hfail, ← toNat_count_succ hone, ConnectionManager.reconnectAttemptCount, AList.lookup_insert]
      rfl
    have hrest := ih (m := (m.attemptReconnect nodeId (.error e)).1) (by rw [hfail]; exact hknown)
      (by rw [hcount, hfail]; dsimp only; omega)
    rw [hcount] at hrest
    refine ⟨hrest.1.trans (by rw [List.length_cons]; omega), hrest.2.trans ?_⟩
    rw [hfail]

/-- **The delays follow the formula if and only if** `base_delay` is zero or `max_delay` is at most `u32::MAX` times
`base_delay`.  Otherwise they never reach `max_delay`; they do not fall in any case, and each failed reconnect leads
to the next of them. -/
theorem backoff_exact (policy : ReconnectPolicy) (hmax : policy.maxDelay ≤ maxDuration) :
    ((∀ attempt : UInt32, policy.backoffDelay attempt = policy.formula attempt.toNat) ↔
      policy.baseDelay = 0 ∨ policy.maxDelay ≤ policy.baseDelay * maxU32) ∧
    (∀ a b : UInt32, a ≤ b → policy.backoffDelay a ≤ policy.backoffDelay b) ∧
    ((∃ a, policy.backoffDelay a = policy.maxDelay) ↔ policy.maxDelay ≤ policy.baseDelay * maxU32) ∧
    ((policy.baseDelay = 0 ∨ policy.maxDelay ≤ policy.baseDelay * maxU32) →
      ∀ m : ConnectionManager, m.reconnectPolicy = policy → ∀ nodeId,
        m.nextBackoff nodeId = policy.formula (m.reconnectAttemptCount nodeId).toNat ∧
        ∀ es : List TransportError, nodeId ∈ m.addresses →
          (m.reconnectAttemptCount nodeId).toNat + es.length < policy.maxAttempts.toNat →
          (m.failing nodeId es).nextBackoff nodeId
            = policy.formula ((m.reconnectAttemptCount nodeId).toNat + es.length)) := by
  refine ⟨⟨fun heq => ?_, backoffDelay_eq hmax⟩, fun a b hab => backoffDelay_mono hmax hab,
    ⟨fun ⟨a, ha⟩ => ?_, fun hcut => ⟨32, ?_⟩⟩, fun hcut m hm nodeId => ⟨?_, fun es hknown hbudget => ?_⟩⟩
  · have hat := heq 32
    rw [backoffDelay_large hmax (by decide)] at hat
    by_contra hnot
    obtain ⟨hpos, hlt⟩ := not_or.mp hnot
    -- the factors differ at attempt 32, and neither product is cut by `max_delay`
    have hless : policy.baseDelay * maxU32 < policy.formula 32 :=
      lt_min (Nat.mul_lt_mul_of_pos_left (by decide) (Nat.pos_of_ne_zero hpos)) (not_le.mp hlt)
    rw [min_eq_left (not_le.mp hlt).le] at hat
    exact absurd hat hless.ne
  · rw [← ha]
    exact backoffDelay_le hmax a
  · rw [backoffDelay_large hmax (by decide), min_eq_right hcut]
  · rw [ConnectionManager.nextBackoff, hm, backoffDelay_eq hmax hcut]
  · subst hm
    obtain ⟨hcount, hpolicy⟩ := nextBackoff_failing hknown hbudget
    rw [ConnectionManager.nextBackoff, hpolicy, backoffDelay_eq hmax hcut, hcount]

/-- one second doubled past half a minute: every later delay is half a minute -/
theorem backoff_exact_default :
    ReconnectPolicy.default.backoffDelay 4 = 16000000000 ∧ ReconnectPolicy.default.backoffDelay 100 = 30000000000 := by
  have heq := (backoff_exact .default (by decide)).1.mpr (Or.inr (by decide))
  exact ⟨heq 4, heq 100⟩

/-- one nanosecond and half a minute: attempt 32 is one nanosecond short, and half a minute is never reached -/
theorem backoff_falls_short :
    (ReconnectPolicy.mk 1 30000000000 10).backoffDelay 32 = 4294967295 ∧
    (ReconnectPolicy.mk 1 30000000000 10).formula 32 = 4294967296 ∧
    ∀ attempt, (ReconnectPolicy.mk 1 30000000000 10).backoffDelay attempt < 30000000000 := by
  refine ⟨rfl, rfl, fun attempt => (backoffDelay_le (by decide) attempt).trans_lt ?_⟩
  decide

end Rebar.Connection

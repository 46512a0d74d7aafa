/-!
# Channels

A channel of many producers and one consumer, with or without a bound.

* `Channel.trySend`      a send that does not wait, and `trySend_eq` what it does.
* `Channel.Accepts`      when it succeeds.
-/

namespace Rebar

structure Channel (α : Type) where
  /-- without a capacity the channel is unbounded -/
  capacity : Option Nat
  /-- the receiver is gone -/
  closed : Bool
  queue : List α

inductive TrySendError where
  | full
  | closed
deriving DecidableEq

namespace Channel
variable {α : Type}

def trySend (c : Channel α) (a : α) : Except TrySendError (Channel α) :=
  if c.closed then .error .closed
  else if c.capacity.any (· ≤ c.queue.length) then .error .full
  else .ok { c with queue := c.queue ++ [a] }

/-- the receiver is there and the queue has room -/
def Accepts (c : Channel α) : Prop :=
  c.closed = false ∧ ∀ n, c.capacity = some n → c.queue.length < n

theorem trySend_eq (c : Channel α) (a : α) :
    (c.Accepts ∧ c.trySend a = .ok { c with queue := c.queue ++ [a] }) ∨
      (¬ c.Accepts ∧ ∃ e, c.trySend a = .error e) := by
  unfold trySend Accepts
  by_cases hclosed : c.closed
  · simp [hclosed]
  · cases hcapacity : c.capacity with
    | none => simp [hclosed]
    | some n =>
      rcases Nat.lt_or_ge c.queue.length n with hroom | hfull
      · simp [hclosed, hroom]
      · simp [hclosed, hfull]

end Channel
end Rebar

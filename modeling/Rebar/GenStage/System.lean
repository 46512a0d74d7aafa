import Rebar.GenStage.Engine
import Rebar.Lib.Machine

/-!
# Systems of stages

Stages that send commands into each other's channels.  A channel keeps its commands in order; which
stage takes the next command from its channel is arbitrary.

* `System`        the running stages and the commands in their channels;
* `System.after`  the system after a stage has handled the first command of its channel;
* `System.handle` that step, if there is a command.
-/

namespace Rebar.Stage

variable {V S : Type}

structure System (V S : Type) where
  stage : StageId → Option (StageLoop V S)
  queue : StageId → List (StageCommand V)

/-- the commands a stage has put into the channel of `k` -/
def addressed (k : StageId) (sent : List (StageId × StageCommand V)) : List (StageCommand V) :=
  sent.filterMap fun p => if p.1 = k then some p.2 else none

@[simp] theorem addressed_cons (k dst : StageId) (cmd : StageCommand V)
    (sent : List (StageId × StageCommand V)) :
    addressed k ((dst, cmd) :: sent)
      = (if dst = k then [cmd] else []) ++ addressed k sent := by
  unfold addressed
  by_cases h : dst = k
  · rw [List.filterMap_cons_some (by rw [if_pos h]), if_pos h]
    rfl
  · rw [List.filterMap_cons_none (by rw [if_neg h]), if_neg h]
    rfl

@[simp] theorem addressed_append (k : StageId) (a b : List (StageId × StageCommand V)) :
    addressed k (a ++ b) = addressed k a ++ addressed k b := List.filterMap_append

theorem mem_addressed {k : StageId} {cmd : StageCommand V} {sent : List (StageId × StageCommand V)}
    (h : cmd ∈ addressed k sent) :
    (k, cmd) ∈ sent := by
  obtain ⟨out, hout, heq⟩ := List.mem_filterMap.mp h
  split at heq
  next hk =>
    rw [← hk, ← Option.some.inj heq]
    exact hout
  next => cases heq

/-- every command of the list goes to stage `k` -/
def Toward (k : StageId) (sent : List (StageId × StageCommand V)) : Prop := ∀ out ∈ sent, out.1 = k

theorem toward_nil (k : StageId) : Toward k ([] : List (StageId × StageCommand V)) := nofun

theorem toward_single (k : StageId) (cmd : StageCommand V) : Toward k [(k, cmd)] := by
  intro out hout
  rw [List.mem_singleton.mp hout]

theorem Toward.addressed_of_ne {k id : StageId} {sent : List (StageId × StageCommand V)}
    (h : Toward k sent) (hid : id ≠ k) : addressed id sent = [] := by
  apply List.filterMap_eq_nil_iff.mpr
  intro out hout
  rw [h out hout]
  exact if_neg hid.symm

namespace System

def after (sys : System V S) (id : StageId) (rest : List (StageCommand V))
    (st : StageLoop V S) : System V S where
  stage := fun k => if k = id then some st else sys.stage k
  queue := fun k => (if k = id then rest else sys.queue k) ++ addressed k st.sent

def handle (impl : StageId → GenStage V S) (env : Peers) (sys : System V S) (id : StageId) :
    Option (System V S) :=
  match sys.stage id, sys.queue id with
  | some st, cmd :: rest =>
    some (sys.after id rest (StageLoop.handle (impl id) id env { st with sent := [] } cmd))
  | _, _ => none

theorem handle_eq {impl : StageId → GenStage V S} {env : Peers} {sys : System V S} {id : StageId}
    {st : StageLoop V S} {cmd : StageCommand V} {rest : List (StageCommand V)}
    (hs : sys.stage id = some st) (hq : sys.queue id = cmd :: rest) :
    sys.handle impl env id =
      some (sys.after id rest (StageLoop.handle (impl id) id env { st with sent := [] } cmd)) := by
  unfold handle
  rw [hs, hq]

/-- **What a step of a system is.** -/
theorem handle_cases {impl : StageId → GenStage V S} {env : Peers} {sys sys' : System V S}
    {id : StageId} (h : sys.handle impl env id = some sys') :
    ∃ st cmd rest, sys.stage id = some st ∧ sys.queue id = cmd :: rest ∧
      sys' = sys.after id rest (StageLoop.handle (impl id) id env { st with sent := [] } cmd) := by
  unfold handle at h
  cases hs : sys.stage id with
  | none =>
    rw [hs] at h
    cases h
  | some st =>
    cases hq : sys.queue id with
    | nil =>
      rw [hs, hq] at h
      cases h
    | cons cmd rest =>
      rw [hs, hq] at h
      exact ⟨st, cmd, rest, rfl, rfl, (Option.some.inj h).symm⟩

variable (sys : System V S) (id : StageId) (rest : List (StageCommand V)) (st : StageLoop V S)

@[simp] theorem after_stage_self : (sys.after id rest st).stage id = some st := if_pos rfl

theorem after_stage_of_ne {k : StageId} (h : k ≠ id) :
    (sys.after id rest st).stage k = sys.stage k := if_neg h

@[simp] theorem after_queue_self :
    (sys.after id rest st).queue id = rest ++ addressed id st.sent := by
  show (if id = id then rest else sys.queue id) ++ _ = _
  rw [if_pos rfl]

theorem after_queue_of_ne {k : StageId} (h : k ≠ id) :
    (sys.after id rest st).queue k = sys.queue k ++ addressed k st.sent := by
  show (if k = id then rest else sys.queue k) ++ _ = _
  rw [if_neg h]

section
variable {sys id rest} {st' st₁ : StageLoop V S} {k : StageId} {cmd cmd₁ : StageCommand V}

theorem stage_after (h : (sys.after id rest st').stage k = some st₁) :
    k = id ∧ st₁ = st' ∨ sys.stage k = some st₁ := by
  by_cases hk : k = id
  · rw [hk, after_stage_self] at h
    exact Or.inl ⟨hk, (Option.some.inj h).symm⟩
  · rw [after_stage_of_ne _ _ _ _ hk] at h
    exact Or.inr h

theorem mem_queue_after (hq : sys.queue id = cmd :: rest)
    (h : cmd₁ ∈ (sys.after id rest st').queue k) : cmd₁ ∈ sys.queue k ∨ (k, cmd₁) ∈ st'.sent := by
  by_cases hk : k = id
  · rw [hk, after_queue_self] at h
    rw [hk, hq]
    exact (List.mem_append.mp h).imp (List.mem_cons_of_mem _) mem_addressed
  · rw [after_queue_of_ne _ _ _ _ hk] at h
    exact (List.mem_append.mp h).imp_right mem_addressed

/-- a command stays in its channel until it is handled -/
theorem mem_after_of_mem (hq : sys.queue id = cmd :: rest) (h : cmd₁ ∈ sys.queue k) :
    k = id ∧ cmd₁ = cmd ∨ cmd₁ ∈ (sys.after id rest st').queue k := by
  by_cases hk : k = id
  · rw [hk, hq] at h
    rw [hk, after_queue_self]
    exact (List.mem_cons.mp h).imp (fun heq => ⟨rfl, heq⟩) (List.mem_append_left _)
  · rw [after_queue_of_ne _ _ _ _ hk]
    exact Or.inr (List.mem_append_left _ h)

end

end System
end Rebar.Stage

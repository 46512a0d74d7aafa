import Rebar.GenStage.Cancel
import Rebar.GenStage.Ledger

/-!
# The end of a subscription

A subscription between two stages is cancelled from outside, at either or both of them, any number of times
and while demand and events for it are on their way.  Each stage that leaves it tells the other one.
-/

namespace Rebar.Stage

open Stage.System

variable {V S : Type} {tag : SubscriptionTag} {p c : StageId}

/-! ## what has been handled -/

/-- a command that a stage has handled, and what it has sent meanwhile -/
structure Handling (V : Type) where
  stage : StageId
  cmd : StageCommand V
  sent : List (StageId × StageCommand V)

/-- how many cancellations of the subscription a stage has sent -/
def exchanged (tag : SubscriptionTag) (k : StageId) (log : List (Handling V)) : Nat :=
  ((log.filter (·.stage = k)).flatMap (·.sent)).countP (·.2.cancels tag)

def Processed (tag : SubscriptionTag) (p c : StageId) (log : List (Handling V)) : Prop :=
  ∃ h ∈ log, (h.stage = p ∨ h.stage = c) ∧ h.cmd.cancels tag = true

theorem exchanged_concat (k : StageId) (log : List (Handling V)) (h : Handling V) :
    exchanged tag k (log ++ [h]) =
      exchanged tag k log + if h.stage = k then h.sent.countP (·.2.cancels tag) else 0 := by
  unfold exchanged
  rw [List.filter_append, List.flatMap_append, List.countP_append]
  refine congrArg _ ?_
  split
  next heq => simp [heq]
  next hne => simp [hne]

theorem processed_concat {log : List (Handling V)} {h : Handling V} : Processed tag p c (log ++ [h]) ↔
    Processed tag p c log ∨ (h.stage = p ∨ h.stage = c) ∧ h.cmd.cancels tag = true := by
  unfold Processed
  simp [or_and_right, exists_or]

/-! ## the two parties -/

inductive Status where
  | waiting
  | joined
  | left
deriving DecidableEq

def Status.peer (peer : StageId) : Status → Option StageId
  | .joined => some peer
  | _ => none

def Status.leaves : Status → Nat
  | .left => 1
  | _ => 0

/-- the channel of a party: while it waits, the confirmation is in it, before any cancellation -/
def Awaits (tag : SubscriptionTag) (peer : StageId) : Status → List (StageCommand V) → Prop
  | .waiting, queue => ∃ opts before after,
    queue = before ++ StageCommand.subscriptionConfirmed tag peer opts :: after ∧
    (∀ cmd ∈ before, cmd.opens tag = false ∧ cmd.cancels tag = false) ∧
    ∀ cmd ∈ after, cmd.opens tag = false
  | _, queue => ∀ cmd ∈ queue, cmd.opens tag = false

section
variable {peer : StageId} {status : Status} {cmd : StageCommand V} {queue new : List (StageCommand V)}

theorem Awaits.append (h : Awaits tag peer status queue) (hnew : ∀ cmd ∈ new, cmd.opens tag = false) :
    Awaits tag peer status (queue ++ new) := by
  cases status with
  | waiting =>
    obtain ⟨opts, before, after, rfl, hbefore, hafter⟩ := h
    refine ⟨opts, before, after ++ new, ?_, hbefore, List.forall_mem_append.mpr ⟨hafter, hnew⟩⟩
    rw [List.append_assoc, List.cons_append]
  | joined | left => exact List.forall_mem_append.mpr ⟨h, hnew⟩

theorem Awaits.tail (h : Awaits tag peer status (cmd :: queue)) (hopens : cmd.opens tag = false) :
    Awaits tag peer status queue := by
  cases status with
  | waiting =>
    obtain ⟨opts, before, after, heq, hbefore, hafter⟩ := h
    cases before with
    | nil =>
      obtain ⟨rfl, -⟩ := List.cons.inj heq
      exact absurd rfl (of_decide_eq_false hopens)
    | cons first before =>
      obtain ⟨-, rfl⟩ := List.cons.inj heq
      exact ⟨opts, before, after, rfl, fun cmd hmem => hbefore cmd (List.mem_cons_of_mem _ hmem),
        hafter⟩
  | joined | left => exact fun cmd hmem => h cmd (List.mem_cons_of_mem _ hmem)

theorem Awaits.confirm (h : Awaits tag peer status (cmd :: queue)) (hopens : cmd.opens tag = true) :
    status = .waiting ∧ (∃ opts, cmd = .subscriptionConfirmed tag peer opts) ∧
      Awaits tag peer .joined queue := by
  cases status with
  | waiting =>
    obtain ⟨opts, before, after, heq, hbefore, hafter⟩ := h
    cases before with
    | nil =>
      obtain ⟨rfl, rfl⟩ := List.cons.inj heq
      exact ⟨rfl, ⟨opts, rfl⟩, hafter⟩
    | cons first before =>
      obtain ⟨rfl, -⟩ := List.cons.inj heq
      rw [(hbefore cmd List.mem_cons_self).1] at hopens
      cases hopens
  | joined | left =>
    rw [h cmd List.mem_cons_self] at hopens
    cases hopens

theorem Awaits.not_cancel (h : Awaits tag peer .waiting (cmd :: queue)) : cmd.cancels tag = false := by
  obtain ⟨opts, before, after, heq, hbefore, -⟩ := h
  cases before with
  | nil =>
    obtain ⟨rfl, -⟩ := List.cons.inj heq
    rfl
  | cons first before =>
    obtain ⟨rfl, -⟩ := List.cons.inj heq
    exact (hbefore cmd List.mem_cons_self).2

end

/-- one of the two stages, where the other is `peer` -/
structure Party (tag : SubscriptionTag) (id peer : StageId) (status other : Status)
    (sys : System V (S × Cancels)) (log : List (Handling V)) : Prop where
  stage : ∃ st, sys.stage id = some st ∧ st.peerOf tag = status.peer peer ∧
    st.cancels tag = status.leaves
  channel : Awaits tag peer status (sys.queue id)
  told : other = .left → status ≠ .left → ∃ cmd ∈ sys.queue id, cmd.cancels tag = true
  exchanged : exchanged tag id log = status.leaves

/-- the subscription in the system, and how far its two stages are with it -/
structure Between (tag : SubscriptionTag) (p c : StageId) (producing consuming : Status)
    (sys : System V (S × Cancels)) (log : List (Handling V)) : Prop where
  tidy : ∀ k st, sys.stage k = some st → Tidy tag st.ls
  others : ∀ k, k ≠ p → k ≠ c → (∀ st, sys.stage k = some st → st.peerOf tag = none) ∧
    ∀ cmd ∈ sys.queue k, cmd.opens tag = false
  producer : Party tag p c producing consuming sys log
  consumer : Party tag c p consuming producing sys log
  processed : Processed tag p c log → producing = .left ∨ consuming = .left

section
variable {producing consuming status status' other other' : Status} {sys : System V (S × Cancels)}
  {log : List (Handling V)} {id k self peer : StageId} {st st' : StageLoop V (S × Cancels)}
  {cmd cmd₁ : StageCommand V} {rest : List (StageCommand V)}

theorem Between.symm (h : Between tag p c producing consuming sys log) :
    Between tag c p consuming producing sys log where
  tidy := h.tidy
  others k hc hp := h.others k hp hc
  producer := h.consumer
  consumer := h.producer
  processed := fun ⟨handling, hmem, hstage, hcancels⟩ =>
    (h.processed ⟨handling, hmem, hstage.symm, hcancels⟩).symm

theorem opens_addressed (hsent : ∀ out ∈ st'.sent, out.2.opens tag = false) :
    ∀ cmd ∈ addressed k st'.sent, cmd.opens tag = false :=
  fun _ hmem => hsent _ (mem_addressed hmem)

theorem System.mem_queue_after_sent (hsent : (k, cmd₁) ∈ st'.sent) :
    cmd₁ ∈ (sys.after id rest st').queue k :=
  List.mem_append_right _ (List.mem_filterMap.mpr ⟨_, hsent, if_pos rfl⟩)

theorem cancel_remains (hq : sys.queue id = cmd :: rest)
    (h : ∃ cmd ∈ sys.queue k, cmd.cancels tag = true) (hcmd : k = id → cmd.cancels tag = false) :
    ∃ cmd ∈ (sys.after id rest st').queue k, cmd.cancels tag = true := by
  obtain ⟨cmd₁, hmem, hcancels⟩ := h
  rcases mem_after_of_mem hq hmem with ⟨hk, rfl⟩ | hmem
  · rw [hcmd hk] at hcancels
    cases hcancels
  · exact ⟨cmd₁, hmem, hcancels⟩

/-! ## a turn of a party -/

structure Moves (tag : SubscriptionTag) (peer : StageId) (status status' : Status)
    (cmd : StageCommand V) (rest : List (StageCommand V)) (st' : StageLoop V (S × Cancels)) : Prop where
  tidy : Tidy tag st'.ls
  party : st'.peerOf tag = status'.peer peer
  cancels : st'.cancels tag = status'.leaves
  channel : Awaits tag peer status' rest
  opens : ∀ out ∈ st'.sent, out.2.opens tag = false
  count : status.leaves + st'.sent.countP (·.2.cancels tag) = status'.leaves
  stays : status' ≠ .left → status ≠ .left ∧ cmd.cancels tag = false
  tells : status' = .left → status = .left ∨ ∃ cmd, (peer, cmd) ∈ st'.sent ∧ cmd.cancels tag = true

theorem cancels_iff : cmd.cancels tag = true ↔ ∃ reason, cmd = .cancel tag reason := by
  cases cmd with
  | cancel t reason =>
    show decide (t = tag) = true ↔ _
    rw [decide_eq_true_iff]
    exact ⟨fun h => ⟨reason, h ▸ rfl⟩, fun ⟨_, h⟩ => (StageCommand.cancel.inj h).1⟩
  | _ => exact ⟨fun h => absurd h Bool.false_ne_true, fun ⟨_, h⟩ => nomatch h⟩

theorem quiet_sent (h : ∃ new, st'.sent = [] ++ new ∧
    ∀ out ∈ new, out.2.opens tag = false ∧ out.2.cancels tag = false) :
    (∀ out ∈ st'.sent, out.2.opens tag = false) ∧ st'.sent.countP (·.2.cancels tag) = 0 := by
  obtain ⟨new, hnew, hquiet⟩ := h
  rw [hnew]
  refine ⟨fun out hout => (hquiet out hout).1, List.countP_eq_zero.mpr fun out hout => ?_⟩
  rw [(hquiet out hout).2]
  exact Bool.false_ne_true

theorem Party.keeps (h : Party tag self peer status other sys log) (htidy : Tidy tag st.ls)
    (hs : sys.stage self = some st) (hq : sys.queue self = cmd :: rest)
    (hopens : cmd.opens tag = false) (hfree : cmd.cancels tag = true → st.peerOf tag = none)
    (hkeeps : Keeps tag { st with sent := [] } st') : Moves tag peer status status cmd rest st' := by
  obtain ⟨st₁, hs₁, hpeer, hcancels⟩ := h.stage
  cases hs.symm.trans hs₁
  obtain ⟨hsent, hcount⟩ := quiet_sent hkeeps.sent
  have hchannel := h.channel
  rw [hq] at hchannel
  refine ⟨hkeeps.tidy htidy, hkeeps.peer.trans hpeer, hkeeps.cancels.trans hcancels,
    hchannel.tail hopens, hsent, ?_, fun hstay => ⟨hstay, ?_⟩, Or.inl⟩
  · rw [hcount, Nat.add_zero]
  · cases status with
    | waiting => exact hchannel.not_cancel
    | joined =>
      refine Bool.eq_false_iff.mpr fun hcancel => ?_
      rw [hfree hcancel] at hpeer
      cases hpeer
    | left => exact absurd rfl hstay

/-- **What a party can do in its turn: join, leave or stay.** -/
theorem Party.moves (h : Party tag self peer status other sys log) (htidy : Tidy tag st.ls)
    (impl : GenStage V S) {env : Peers} (hlive : Alive tag env) (hs : sys.stage self = some st)
    (hq : sys.queue self = cmd :: rest)
    (hst' : st' = StageLoop.handle impl.recorded self env { st with sent := [] } cmd) :
    ∃ status', Moves tag peer status status' cmd rest st' := by
  obtain ⟨st₁, hs₁, hpeer, hcancels⟩ := h.stage
  cases hs.symm.trans hs₁
  have hchannel := h.channel
  rw [hq] at hchannel
  subst hst'
  cases hopens : cmd.opens tag with
  | true =>
    obtain ⟨rfl, ⟨opts, rfl⟩, hrest⟩ := hchannel.confirm hopens
    have henters : Enters tag peer { st with sent := [] } (StageLoop.handle impl.recorded self env
      { st with sent := [] } (.subscriptionConfirmed tag peer opts)) :=
      handleSubscriptionConfirmed_enters impl { st with sent := [] } hpeer peer opts
    obtain ⟨hsent, hcount⟩ := quiet_sent henters.sent
    exact ⟨.joined, henters.tidy htidy, henters.peer, henters.cancels.trans hcancels, hrest, hsent,
      congrArg (0 + ·) hcount, fun _ => ⟨nofun, rfl⟩, nofun⟩
  | false =>
    by_cases hleave : cmd.cancels tag = true ∧ status = .joined
    · obtain ⟨hcancel, rfl⟩ := hleave
      obtain ⟨reason, rfl⟩ := cancels_iff.mp hcancel
      have hleaves := handleCancel_leaves impl { st with sent := [] } hpeer htidy hlive reason
      have hsent : (StageLoop.handleCancel impl.recorded env { st with sent := [] } tag reason).sent
        = [(peer, .cancel tag reason)] := hleaves.sent
      refine ⟨.left, hleaves.tidy htidy, hleaves.free, hleaves.cancels.trans (congrArg _ hcancels),
        hchannel.tail hopens, ?_, ?_, nofun, fun _ => Or.inr ⟨.cancel tag reason, ?_, hcancel⟩⟩
      · exact hsent ▸ List.forall_mem_singleton.mpr rfl
      · have hone := congrArg (List.countP (·.2.cancels tag)) hsent
        rw [List.countP_singleton, if_pos hcancel] at hone
        exact congrArg (0 + ·) hone
      · exact hsent ▸ List.mem_singleton_self _
    · have hfree : cmd.cancels tag = true → st.peerOf tag = none := by
        intro hcancel
        rw [hpeer]
        cases status with
        | joined => exact absurd ⟨hcancel, rfl⟩ hleave
        | waiting | left => rfl
      refine ⟨status, h.keeps htidy hs hq hopens hfree ?_⟩
      refine handle_keeps impl self ?_ (fun _ => hlive) hopens hfree
      exact htidy

theorem Party.own (h : Party tag self peer status other sys log)
    (hq : sys.queue self = cmd :: rest) (hmoves : Moves tag peer status status' cmd rest st') :
    Party tag self peer status' other (sys.after self rest st')
      (log ++ [⟨self, cmd, st'.sent⟩]) where
  stage := ⟨st', after_stage_self .., hmoves.party, hmoves.cancels⟩
  channel := by
    rw [after_queue_self]
    exact hmoves.channel.append (opens_addressed hmoves.opens)
  told hother hstay := by
    obtain ⟨hhere, hcmd⟩ := hmoves.stays hstay
    exact cancel_remains hq (h.told hother hhere) fun _ => hcmd
  exchanged := by
    rw [exchanged_concat, h.exchanged, if_pos rfl]
    exact hmoves.count

theorem Party.await (h : Party tag self peer status other sys log) (hne : self ≠ id)
    (hq : sys.queue id = cmd :: rest) (hopens : ∀ out ∈ st'.sent, out.2.opens tag = false)
    (hother : other' = .left →
      other = .left ∨ ∃ cmd, (self, cmd) ∈ st'.sent ∧ cmd.cancels tag = true) :
    Party tag self peer status other' (sys.after id rest st') (log ++ [⟨id, cmd, st'.sent⟩]) where
  stage := by
    rw [after_stage_of_ne _ _ _ _ hne]
    exact h.stage
  channel := by
    rw [after_queue_of_ne _ _ _ _ hne]
    exact h.channel.append (opens_addressed hopens)
  told hleft hstay := by
    rcases hother hleft with hold | ⟨cmd₁, hsent, hcancels⟩
    · exact cancel_remains hq (h.told hold hstay) fun hself => absurd hself hne
    · exact ⟨cmd₁, mem_queue_after_sent hsent, hcancels⟩
  exchanged := by
    rw [exchanged_concat, h.exchanged, if_neg hne.symm, Nat.add_zero]

theorem Between.after {producing' consuming' : Status}
    (h : Between tag p c producing consuming sys log) (hs : sys.stage id = some st)
    (hq : sys.queue id = cmd :: rest) (htidy : Tidy tag st'.ls)
    (hopens : ∀ out ∈ st'.sent, out.2.opens tag = false)
    (hother : id ≠ p → id ≠ c → st'.peerOf tag = none)
    (hproducer : Party tag p c producing' consuming' (sys.after id rest st')
      (log ++ [⟨id, cmd, st'.sent⟩]))
    (hconsumer : Party tag c p consuming' producing' (sys.after id rest st')
      (log ++ [⟨id, cmd, st'.sent⟩]))
    (hprocessed : (producing = .left ∨ consuming = .left) ∨
      (id = p ∨ id = c) ∧ cmd.cancels tag = true → producing' = .left ∨ consuming' = .left) :
    Between tag p c producing' consuming' (sys.after id rest st')
      (log ++ [⟨id, cmd, st'.sent⟩]) where
  tidy k st₁ hst₁ := by
    rcases stage_after hst₁ with ⟨-, rfl⟩ | hold
    · exact htidy
    · exact h.tidy k st₁ hold
  others k hp hc := by
    refine ⟨fun st₁ hst₁ => ?_, fun cmd₁ hmem => ?_⟩
    · rcases stage_after hst₁ with ⟨rfl, rfl⟩ | hold
      · exact hother hp hc
      · exact (h.others k hp hc).1 st₁ hold
    · rcases mem_queue_after hq hmem with hold | hnew
      · exact (h.others k hp hc).2 cmd₁ hold
      · exact hopens _ hnew
  producer := hproducer
  consumer := hconsumer
  processed hlog := hprocessed ((processed_concat.mp hlog).imp_left h.processed)

theorem Between.turn_party (h : Between tag p c producing consuming sys log) (hpc : p ≠ c)
    (impl : GenStage V S) {env : Peers} (hlive : Alive tag env) (hs : sys.stage p = some st)
    (hq : sys.queue p = cmd :: rest)
    (hst' : st' = StageLoop.handle impl.recorded p env { st with sent := [] } cmd) :
    ∃ producing', Between tag p c producing' consuming (sys.after p rest st')
      (log ++ [⟨p, cmd, st'.sent⟩]) := by
  obtain ⟨producing', hmoves⟩ := h.producer.moves (h.tidy p st hs) impl hlive hs hq hst'
  refine ⟨producing', h.after hs hq hmoves.tidy hmoves.opens (fun hp => absurd rfl hp)
    (h.producer.own hq hmoves) (h.consumer.await hpc.symm hq hmoves.opens hmoves.tells)
    fun hleft => ?_⟩
  by_contra hnone
  obtain ⟨hp, hc⟩ := not_or.mp hnone
  obtain ⟨hstay, hcmd⟩ := hmoves.stays hp
  rcases hleft with (hleft | hleft) | ⟨-, hcancel⟩
  · exact hstay hleft
  · exact hc hleft
  · rw [hcmd] at hcancel
    cases hcancel

/-- **A turn of any stage keeps the invariant.** -/
theorem Between.turn (h : Between tag p c producing consuming sys log) (hpc : p ≠ c)
    (impl : GenStage V S) {env : Peers} (hlive : id = p ∨ id = c → Alive tag env)
    (hs : sys.stage id = some st) (hq : sys.queue id = cmd :: rest)
    (hst' : st' = StageLoop.handle impl.recorded id env { st with sent := [] } cmd) :
    ∃ producing consuming, Between tag p c producing consuming (sys.after id rest st')
      (log ++ [⟨id, cmd, st'.sent⟩]) := by
  by_cases hp : id = p
  · subst hp
    obtain ⟨producing', hturn⟩ := h.turn_party hpc impl (hlive (Or.inl rfl)) hs hq hst'
    exact ⟨producing', consuming, hturn⟩
  by_cases hc : id = c
  · subst hc
    obtain ⟨consuming', hturn⟩ := h.symm.turn_party hpc.symm impl (hlive (Or.inr rfl)) hs hq hst'
    exact ⟨producing, consuming', hturn.symm⟩
  obtain ⟨hfree, hqueue⟩ := h.others id hp hc
  have hfree := hfree st hs
  rw [hq] at hqueue
  have hkeeps : Keeps tag { st with sent := [] } st' := by
    rw [hst']
    refine handle_keeps impl id ?_ (fun hparty => ?_) (hqueue cmd List.mem_cons_self) fun _ => hfree
    · exact h.tidy id st hs
    · exact absurd hfree hparty
  obtain ⟨hopens, -⟩ := quiet_sent hkeeps.sent
  refine ⟨producing, consuming, h.after hs hq (hkeeps.tidy (h.tidy id st hs)) hopens
    (fun _ _ => hkeeps.peer.trans hfree) (h.producer.await (Ne.symm hp) hq hopens Or.inl)
    (h.consumer.await (Ne.symm hc) hq hopens Or.inl) fun hleft => ?_⟩
  exact hleft.resolve_right fun hparty => hparty.1.elim hp hc

theorem System.mem_queue_push_of (hmem : cmd₁ ∈ sys.queue k) :
    cmd₁ ∈ (sys.push id cmd).queue k := by
  show cmd₁ ∈ if k = id then sys.queue k ++ [cmd] else sys.queue k
  split
  next => exact List.mem_append_left _ hmem
  next => exact hmem

theorem Party.push (h : Party tag self peer status other sys log) (hopens : cmd.opens tag = false) :
    Party tag self peer status other (sys.push id cmd) log := by
  refine ⟨h.stage, ?_, fun hother hstay => ?_, h.exchanged⟩
  · show Awaits tag peer status (if self = id then sys.queue self ++ [cmd] else sys.queue self)
    split
    next => exact h.channel.append (List.forall_mem_singleton.mpr hopens)
    next => exact h.channel
  · obtain ⟨cmd₁, hmem, hcancels⟩ := h.told hother hstay
    exact ⟨cmd₁, mem_queue_push_of hmem, hcancels⟩

theorem Between.push (h : Between tag p c producing consuming sys log)
    (hopens : cmd.opens tag = false) :
    Between tag p c producing consuming (sys.push id cmd) log := by
  refine ⟨h.tidy, fun k hp hc => ⟨(h.others k hp hc).1, fun cmd₁ hmem => ?_⟩,
    h.producer.push hopens, h.consumer.push hopens, h.processed⟩
  rcases mem_queue_push hmem with hold | ⟨-, rfl⟩
  · exact (h.others k hp hc).2 cmd₁ hold
  · exact hopens

end

/-! ## the runs -/

inductive Action (V : Type) where
  | handle (id : StageId) (env : Peers)
  | push (id : StageId) (cmd : StageCommand V)

/-- the runs from a subscription that its producer has confirmed and both parties still have -/
def stageMachine (impl : StageId → GenStage V S) (tag : SubscriptionTag) (p c : StageId) :
    Machine (System V (S × Cancels)) (Action V) where
  start sys := Between tag p c .joined .waiting sys [] ∨ Between tag p c .joined .joined sys []
  next sys
    | .handle id env => sys.handle (fun k => (impl k).recorded) env id
    | .push id cmd => some (sys.push id cmd)

/-- the two parties are alive, and no second subscription has the tag -/
def Action.Allowed (tag : SubscriptionTag) (p c : StageId) : Action V → Prop
  | .handle id env => id = p ∨ id = c → Alive tag env
  | .push _ cmd => cmd.opens tag = false

def handlings (impl : StageId → GenStage V S) (sys : System V (S × Cancels)) :
    Action V → List (Handling V)
  | .handle id env =>
    match sys.stage id, sys.queue id with
    | some st, cmd :: _ =>
      [⟨id, cmd, (StageLoop.handle (impl id).recorded id env { st with sent := [] } cmd).sent⟩]
    | _, _ => []
  | .push _ _ => []

section
variable {sys : System V (S × Cancels)} {log : List (Handling V)} {impl : StageId → GenStage V S}

theorem handlings_handle {id : StageId} {env : Peers}
    {st : StageLoop V (S × Cancels)} {cmd : StageCommand V} {rest : List (StageCommand V)}
    (hs : sys.stage id = some st) (hq : sys.queue id = cmd :: rest) :
    handlings impl sys (.handle id env) =
      [⟨id, cmd, (StageLoop.handle (impl id).recorded id env { st with sent := [] } cmd).sent⟩] := by
  unfold handlings
  dsimp only
  rw [hs, hq]

theorem between_of_reach (hpc : p ≠ c)
    (h : ((stageMachine impl tag p c).logged (handlings impl)).Reach
      (fun _ action => action.Allowed tag p c) (sys, log)) :
    ∃ producing consuming, Between tag p c producing consuming sys log := by
  refine h.inv_logged_of
    (I := fun sys log => ∃ producing consuming, Between tag p c producing consuming sys log)
    (fun _ hstart => ?_) ?_
  · exact Or.elim hstart (⟨_, _, ·⟩) (⟨_, _, ·⟩)
  rintro sys log action sys' ⟨producing, consuming, hinv⟩ hok hnext
  cases action with
  | handle id env =>
    have hturn : sys.handle (fun k => (impl k).recorded) env id = some sys' := hnext
    obtain ⟨st, cmd, rest, hs, hq, rfl⟩ := handle_cases hturn
    rw [handlings_handle hs hq]
    exact hinv.turn hpc (impl id) hok hs hq rfl
  | push id cmd =>
    cases hnext
    refine ⟨producing, consuming, ?_⟩
    have hlog : log ++ handlings impl sys (.push id cmd) = log := List.append_nil log
    rw [hlog]
    exact hinv.push hok

variable {producing consuming status other : Status} {self peer : StageId}

theorem Party.left_of_quiet (h : Party tag self peer status other sys log) (hother : other = .left)
    (hquiet : ∀ cmd ∈ sys.queue self, cmd.cancels tag = false) : status = .left := by
  by_contra hstay
  obtain ⟨cmd, hmem, hcancels⟩ := h.told hother hstay
  rw [hquiet cmd hmem] at hcancels
  cases hcancels

theorem Between.gone (h : Between tag p c producing consuming sys log)
    (hprocessed : Processed tag p c log)
    (hquiet : ∀ cmd ∈ sys.queue p ++ sys.queue c, cmd.cancels tag = false) :
    producing = .left ∧ consuming = .left := by
  obtain ⟨hp, hc⟩ := List.forall_mem_append.mp hquiet
  rcases h.processed hprocessed with hleft | hleft
  · exact ⟨hleft, h.consumer.left_of_quiet hleft hc⟩
  · exact ⟨h.producer.left_of_quiet hleft hp, hleft⟩

theorem Status.leaves_le (status : Status) : status.leaves ≤ 1 := by
  cases status <;> decide

def StageLoop.Forgot (tag : SubscriptionTag) (st : StageLoop V S) : Prop :=
  st.ls.downstreams.lookup tag = none ∧ st.ls.upstreams.lookup tag = none ∧
    tag ∉ st.ls.consumerDemands.map (·.tag)

theorem Party.forgot {st : StageLoop V (S × Cancels)}
    (hpeer : st.peerOf tag = Status.left.peer peer) (htidy : Tidy tag st.ls) : st.Forgot tag := by
  obtain ⟨hdown, hup⟩ := peerOf_eq_none_iff.mp hpeer
  exact ⟨hdown, hup, htidy.entries hdown⟩

/-- **However a subscription is cancelled, each of its two stages runs `handle_cancel` for it at most once and
sends at most one cancellation to the other; once one has been handled and none is on its way, neither stage
has the subscription or any demand for it.** -/
theorem cancel_closes {impl : StageId → GenStage V S} (hpc : p ≠ c)
    (h : ((stageMachine impl tag p c).logged (handlings impl)).Reach
      (fun _ action => action.Allowed tag p c) (sys, log)) :
    ∃ producer consumer, sys.stage p = some producer ∧ sys.stage c = some consumer ∧
      producer.cancels tag ≤ 1 ∧ consumer.cancels tag ≤ 1 ∧
      exchanged tag p log ≤ 1 ∧ exchanged tag c log ≤ 1 ∧
      (Processed tag p c log → (∀ cmd ∈ sys.queue p ++ sys.queue c, cmd.cancels tag = false) →
        producer.Forgot tag ∧ consumer.Forgot tag) := by
  obtain ⟨producing, consuming, hinv⟩ := between_of_reach hpc h
  obtain ⟨producer, hp, hpeer, hcancels⟩ := hinv.producer.stage
  obtain ⟨consumer, hc, hpeer', hcancels'⟩ := hinv.consumer.stage
  refine ⟨producer, consumer, hp, hc, hcancels ▸ producing.leaves_le, hcancels' ▸ consuming.leaves_le,
    hinv.producer.exchanged ▸ producing.leaves_le, hinv.consumer.exchanged ▸ consuming.leaves_le,
    fun hprocessed hquiet => ?_⟩
  obtain ⟨rfl, rfl⟩ := hinv.gone hprocessed hquiet
  exact ⟨Party.forgot hpeer (hinv.tidy p producer hp), Party.forgot hpeer' (hinv.tidy c consumer hc)⟩

end

/-! ## a subscription is accepted -/

/-- nobody has heard of the subscription when its producer takes the request: the run starts there -/
theorem between_accepted {sys : System V (S × Cancels)} {st stc : StageLoop V (S × Cancels)}
    {rest : List (StageCommand V)} {opts : SubscribeOpts} {env : Peers} (impl : GenStage V S)
    (hpc : p ≠ c) (hs : sys.stage p = some st) (hsc : sys.stage c = some stc)
    (hnew : ∀ k st, sys.stage k = some st →
      Tidy tag st.ls ∧ st.peerOf tag = none ∧ st.cancels tag = 0)
    (hrest : ∀ cmd ∈ rest, cmd.opens tag = false)
    (hqueue : ∀ k, k ≠ p → ∀ cmd ∈ sys.queue k, cmd.opens tag = false ∧ cmd.cancels tag = false)
    (hself : env.held = true) (hreach : env.reachable tag = true) :
    Between tag p c .joined .waiting (sys.after p rest
      (StageLoop.handle impl.recorded p env { st with sent := [] } (.subscribe tag c opts))) [] := by
  obtain ⟨st', hst'⟩ : ∃ st', st' = StageLoop.handle impl.recorded p env { st with sent := [] }
    (.subscribe tag c opts) := ⟨_, rfl⟩
  have hadded : st' = StageLoop.send { st with
      user := (impl.recorded.handleSubscribe st.ls.stageType opts tag st.user).1
      ls := { st.ls with
        consumerDemands := st.ls.consumerDemands ++ [.new tag]
        downstreams := st.ls.downstreams.insert tag ⟨c⟩ }
      sent := [] } c (.subscriptionConfirmed tag p opts) := by
    rw [hst']
    exact if_pos ⟨hself, hreach⟩
  have hsent : st'.sent = [(c, .subscriptionConfirmed tag p opts)] := by
    rw [hadded]
    rfl
  rw [← hst']
  have hqueue' : ∀ k, k ≠ c → k ≠ p → (sys.after p rest st').queue k = sys.queue k := by
    intro k hc hp
    rw [after_queue_of_ne _ _ _ _ hp, hsent, (toward_single c _).addressed_of_ne hc,
      List.append_nil]
  refine ⟨fun k st₁ hst₁ => ?_, fun k hp hc => ⟨fun st₁ hst₁ => ?_, ?_⟩,
    ⟨⟨st', after_stage_self .., ?_, ?_⟩, ?_, nofun, rfl⟩,
    ⟨⟨stc, ?_, (hnew c stc hsc).2⟩, ?_, nofun, rfl⟩, nofun⟩
  · rcases stage_after hst₁ with ⟨-, rfl⟩ | hold
    · obtain ⟨htidy, hfree, -⟩ := hnew p st hs
      rw [hadded]
      refine ⟨htidy.addsNone, .inr (peerOf_eq_none_iff.mp hfree).2, fun hnone => ?_⟩
      cases (AList.lookup_insert _).symm.trans hnone
    · exact (hnew k st₁ hold).1
  · rw [after_stage_of_ne _ _ _ _ hp] at hst₁
    exact (hnew k st₁ hst₁).2.1
  · rw [hqueue' k hc hp]
    exact fun cmd hmem => (hqueue k hp cmd hmem).1
  · rw [hadded]
    unfold StageLoop.peerOf StageLoop.send
    dsimp only
    rw [AList.lookup_insert]
    rfl
  · rw [hadded]
    exact (hnew p st hs).2.2
  · rw [after_queue_self, hsent, (toward_single c _).addressed_of_ne hpc, List.append_nil]
    exact hrest
  · rw [after_stage_of_ne _ _ _ _ hpc.symm]
    exact hsc
  · rw [after_queue_of_ne _ _ _ _ hpc.symm, hsent]
    refine ⟨opts, sys.queue c, [], ?_, hqueue c hpc.symm, nofun⟩
    rw [addressed_cons, if_pos rfl]
    rfl

/-- a producer 0 that is asked for a subscription 7 by the consumer 1 -/
private def engaged : System Nat (Unit × Cancels) where
  stage := fun id => if id = 0 then some (.new .demand .producer ((), [])) else
    if id = 1 then some (.new .demand .consumer ((), [])) else none
  queue := fun id => if id = 0 then [.subscribe 7 1 .default] else []

private def wedded : System Nat (Unit × Cancels) :=
  engaged.after 0 [] (StageLoop.handle (GenStage.echo []).recorded 0 .clear
    (StageLoop.new .demand .producer ((), [])) (.subscribe 7 1 .default))

private theorem wedded_start : Between 7 0 1 .joined .waiting wedded [] := by
  have hne : (0 : StageId) ≠ 1 := by decide
  have hs : engaged.stage 0 = some (.new .demand .producer ((), [])) := rfl
  refine between_accepted (.echo []) hne hs rfl (fun k st hst => ?_)
    nofun (fun k hk cmd hmem => ?_) rfl rfl
  · have hst : (if k = 0 then some (StageLoop.new .demand .producer ((), [])) else
      if k = 1 then some (StageLoop.new .demand .consumer ((), [])) else none) = some st := hst
    split at hst
    · cases hst
      exact ⟨⟨demand_conserves.addsNone, .inl rfl, fun _ => List.not_mem_nil⟩, rfl, rfl⟩
    · split at hst
      · cases hst
        exact ⟨⟨demand_conserves.addsNone, .inl rfl, fun _ => List.not_mem_nil⟩, rfl, rfl⟩
      · cases hst
  · have hmem : cmd ∈ (if k = 0 then [StageCommand.subscribe 7 1 .default] else [] :
      List (StageCommand Nat)) := hmem
    rw [if_neg hk] at hmem
    cases hmem

/-- the subscription is cancelled at both ends, the cancellations cross, and demand and events follow -/
private def parted : List (Action Nat) :=
  [.handle 1 .clear, .push 0 (.cancel 7 .cancel), .push 1 (.cancel 7 .cancel), .handle 0 .clear,
    .handle 0 .clear, .handle 1 .clear, .handle 1 .clear, .handle 0 .clear,
    .push 0 (.askDemand 7 3), .push 1 (.events 7 [5]), .handle 0 .clear, .handle 1 .clear]

theorem cancel_closes_parted : ∃ sys log,
    ((stageMachine (fun _ => (.echo [])) 7 0 1).logged (handlings fun _ => (.echo []))).Reach
      (fun _ action => action.Allowed 7 0 1) (sys, log) ∧
    Processed 7 0 1 log ∧ ∃ producer consumer, sys.stage 0 = some producer ∧
      sys.stage 1 = some consumer ∧ producer.cancels 7 ≤ 1 ∧
      producer.Forgot 7 ∧ consumer.Forgot 7 := by
  have hstart : ((stageMachine (fun _ => (.echo [])) 7 0 1).logged (handlings fun _ => (.echo []))).Reach
      (fun _ action => action.Allowed 7 0 1) (wedded, []) := .start ⟨Or.inl wedded_start, rfl⟩
  have hclear : Alive 7 .clear := ⟨nofun, nofun, rfl⟩
  obtain ⟨⟨sys, log⟩, h, ⟨handling, hmem, hzero, hcancel⟩, hqueue⟩ := hstart.exists_within parted
    (fun action hmem _ => by
      simp only [parted, List.mem_cons, List.not_mem_nil, or_false] at hmem
      rcases hmem with rfl | rfl | rfl | rfl | rfl | rfl | rfl | rfl | rfl | rfl | rfl | rfl <;>
        first | exact fun _ => hclear | rfl)
    (p := fun s => (∃ handling ∈ s.2, handling.stage = 0 ∧ handling.cmd.cancels 7) ∧
      ∀ cmd ∈ s.1.queue 0 ++ s.1.queue 1, cmd.cancels 7 = false) (by decide)
  have hprocessed : Processed 7 0 1 log := ⟨handling, hmem, Or.inl hzero, hcancel⟩
  obtain ⟨producer, consumer, hp, hc, honce, -, -, -, hgone⟩ := cancel_closes (by decide) h
  obtain ⟨hproducer, hconsumer⟩ := hgone hprocessed hqueue
  exact ⟨sys, log, h, hprocessed, producer, consumer, hp, hc, honce, hproducer, hconsumer⟩

end Rebar.Stage

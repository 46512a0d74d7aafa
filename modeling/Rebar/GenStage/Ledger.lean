import Rebar.GenStage.System
import Rebar.GenStage.Turns

/-!
# The demand of a subscription

Stages that subscribe to each other, call and cast at will, with no cancellation and no stage dying.
The consumer of a subscription knows how much it has asked for and not received.  As long as no event
for the subscription bounces off the consumer's channel, that is the demand its producer has left,
with what is on its way between the two.
-/

namespace Rebar.Stage

open Stage.System

variable {V S : Type}

/-! ## networks -/

/-- which channels take events while a command is handled, by the subscription they are sent for:
when the buffer is drained and when fresh events are delivered -/
structure Rooms where
  drain : SubscriptionTag → Bool
  fresh : SubscriptionTag → Bool

def Rooms.peers (rooms : Rooms) : Peers where
  drain := fun t => if rooms.drain t then .ok else .full
  fresh := fun t => if rooms.fresh t then .ok else .full
  reachable := fun _ => true
  held := true

theorem Rooms.live (rooms : Rooms) : Live rooms.peers where
  drain := fun t h => by
    have h : (if rooms.drain t then TrySend.ok else .full) = .closed := h
    split at h <;> cases h
  fresh := fun t h => by
    have h : (if rooms.fresh t then TrySend.ok else .full) = .closed := h
    split at h <;> cases h
  reachable := fun _ => rfl
  held := rfl

theorem Rooms.roomy {rooms : Rooms} {tag : SubscriptionTag} (hdrain : rooms.drain tag = true)
    (hfresh : rooms.fresh tag = true) : Roomy tag rooms.peers :=
  ⟨if_pos hdrain, if_pos hfresh⟩

def System.push (sys : System V S) (id : StageId) (cmd : StageCommand V) : System V S :=
  { sys with queue := fun k => if k = id then sys.queue k ++ [cmd] else sys.queue k }

/-- the stages, the next subscription, and the subscriptions that were asked on by hand -/
structure Network (V S : Type) where
  sys : System V S
  nextTag : SubscriptionTag
  asked : List SubscriptionTag

inductive Move (V : Type) where
  | handle (id : StageId) (rooms : Rooms)
  | subscribe (producer consumer : StageId) (opts : SubscribeOpts)
  | ask (id : StageId) (tag : SubscriptionTag) (demand : Nat)
  | call (id : StageId) (msg : V)
  | cast (id : StageId) (msg : V)

/-- the runs of any stages, from before the first subscription, without a cancellation and without
a stage that dies -/
def networkMachine (impl : StageId → GenStage V S) : Machine (Network V S) (Move V) where
  start net := net.asked = [] ∧ ∀ id, net.sys.queue id = [] ∧
    ∀ st, net.sys.stage id = some st → ∃ dispatcher stageType user,
      (dispatcher = .demand ∨ dispatcher = .broadcast) ∧ st = .new dispatcher stageType user
  next net
    | .handle id rooms =>
      (net.sys.handle impl rooms.peers id).map fun sys => { net with sys := sys }
    | .subscribe producer consumer opts => some { net with
        sys := net.sys.push producer (.subscribe net.nextTag consumer opts)
        nextTag := net.nextTag + 1 }
    | .ask id tag demand => some { net with
        sys := net.sys.push id (.askDemand tag demand)
        asked := tag :: net.asked }
    | .call id msg => some { net with sys := net.sys.push id (.call msg) }
    | .cast id msg => some { net with sys := net.sys.push id (.cast msg) }

/-! ## what is kept and what is on its way -/

def inChannel (f : StageCommand V → Nat) (cmds : List (StageCommand V)) : Nat := (cmds.map f).sum

theorem inChannel_append (f : StageCommand V → Nat) (a b : List (StageCommand V)) :
    inChannel f (a ++ b) = inChannel f a + inChannel f b := by
  simp [inChannel]

theorem inChannel_cons (f : StageCommand V → Nat) (cmd : StageCommand V)
    (cmds : List (StageCommand V)) : inChannel f (cmd :: cmds) = f cmd + inChannel f cmds := by
  simp [inChannel]

variable {f : StageCommand V → Nat}

theorem inChannel_eq_zero {cmds : List (StageCommand V)} (h : ∀ cmd ∈ cmds, f cmd = 0) :
    inChannel f cmds = 0 := by
  induction cmds with
  | nil => rfl
  | cons cmd cmds ih =>
    rw [inChannel_cons, h cmd List.mem_cons_self,
      ih fun c hc => h c (List.mem_cons_of_mem _ hc)]

theorem inChannel_addressed {k : StageId} {sent : List (StageId × StageCommand V)}
    (h : ∀ out ∈ sent, f out.2 ≠ 0 → out.1 = k) :
    inChannel f (addressed k sent) = total f sent := by
  induction sent with
  | nil => rfl
  | cons out sent ih =>
    have ih' := ih fun o ho => h o (List.mem_cons_of_mem _ ho)
    rw [addressed_cons, inChannel_append, ih']
    show _ = f out.2 + total f sent
    by_cases hk : out.1 = k
    · rw [if_pos hk, inChannel_cons]
      rfl
    · have hzero : f out.2 = 0 := by
        by_contra hne
        exact hk (h out List.mem_cons_self hne)
      rw [if_neg hk, hzero]
      rfl

def System.read (sys : System V S) (f : StageLoop V S → Nat) (k : StageId) : Nat :=
  ((sys.stage k).map f).getD 0

section
variable {sys : System V S} {id : StageId} {st st' : StageLoop V S} {cmd : StageCommand V}
  {rest : List (StageCommand V)}

theorem System.read_eq (hs : sys.stage id = some st) (f : StageLoop V S → Nat) :
    sys.read f id = f st := by
  unfold System.read
  rw [hs]
  rfl

/-- a number that only stage `k` can have changes there if it changes at all -/
theorem System.read_after (hs : sys.stage id = some st) (rest : List (StageCommand V))
    {f : StageLoop V S → Nat} {k : StageId} (h : id ≠ k → f st = 0 ∧ f st' = 0) :
    (sys.after id rest st').read f k + f st = sys.read f k + f st' := by
  by_cases hk : id = k
  · rw [← hk, read_eq hs, read_eq (after_stage_self ..)]
    exact Nat.add_comm _ _
  · obtain ⟨hst, hst'⟩ := h hk
    unfold System.read
    rw [after_stage_of_ne _ _ _ _ (Ne.symm hk), hst, hst']

/-- a count that only goes to stage `k` leaves its channel and comes into it -/
theorem System.inChannel_after (hq : sys.queue id = cmd :: rest) {k : StageId}
    (hcmd : f cmd ≠ 0 → id = k) (hsent : ∀ out ∈ st'.sent, f out.2 ≠ 0 → out.1 = k) :
    inChannel f ((sys.after id rest st').queue k) + f cmd
      = inChannel f (sys.queue k) + total f st'.sent := by
  rw [← inChannel_addressed hsent]
  by_cases hk : id = k
  · rw [← hk, after_queue_self, hq, inChannel_append, inChannel_cons]
    omega
  · have hzero : f cmd = 0 := by
      by_contra hne
      exact hk (hcmd hne)
    rw [after_queue_of_ne _ _ _ _ (Ne.symm hk), hzero, inChannel_append]
    omega

end

/-! ## the account of a subscription -/

/-- the subscription of `c` to `p` is being made or made, and its books balance -/
structure Ledger (tag : SubscriptionTag) (p c : StageId) (sys : System V S) : Prop where
  knows : ∀ k st, sys.stage k = some st → Knows tag p c k st
  routed : ∀ k, ∀ cmd ∈ sys.queue k, cmd.About tag → Routed p c k cmd
  once : inChannel (StageCommand.requests tag) (sys.queue p)
    + inChannel (StageCommand.confirms tag) (sys.queue c)
    + sys.read (StageLoop.subscribed tag) c = 1
  accepted : inChannel (StageCommand.requests tag) (sys.queue p) = 0 →
    ∃ st, sys.stage p = some st ∧ (st.ls.downstreams.lookup tag).isSome
  requested : inChannel (StageCommand.requests tag) (sys.queue p) ≠ 0 →
    ∀ st, sys.stage p = some st → st.ls.downstreams.lookup tag = none
  balance : sys.read (StageLoop.owed tag) c = sys.read (StageLoop.pending tag) p
    + inChannel (StageCommand.asks tag) (sys.queue p)
    + inChannel (StageCommand.eventCount tag) (sys.queue c)

section
variable {tag : SubscriptionTag} {p c id k : StageId} {st st' : StageLoop V S}
  {cmd : StageCommand V} {rest : List (StageCommand V)} {sys : System V S}

variable {cmd₁ : StageCommand V}

/-- **The books balance after every turn.** -/
theorem Ledger.after (h : Ledger tag p c sys) (hs : sys.stage id = some st)
    (hq : sys.queue id = cmd :: rest) (ht : Turn tag p c id st cmd st') :
    Ledger tag p c (sys.after id rest st') := by
  have hknow := h.knows id st hs
  obtain ⟨hasks, hevents, hrequests, hconfirms⟩ := Routed.of_counts
    (h.routed id cmd (by rw [hq]; exact List.mem_cons_self))
  have hsent := fun out hout => Routed.of_counts (ht.routed out hout)
  have qasks := inChannel_after hq hasks fun out hout => (hsent out hout).1
  have qevents := inChannel_after hq hevents fun out hout => (hsent out hout).2.1
  have qrequests := inChannel_after hq hrequests fun out hout => (hsent out hout).2.2.1
  have qconfirms := inChannel_after hq hconfirms fun out hout => (hsent out hout).2.2.2
  rw [ht.requests] at qrequests
  refine ⟨?_, ?_, ?_, ?_, ?_, ?_⟩
  · intro k st₁ hst₁
    rcases stage_after hst₁ with ⟨rfl, rfl⟩ | hold
    · exact ht.knows
    · exact h.knows k st₁ hold
  · intro k cmd₁ hcmd habout
    rcases mem_queue_after hq hcmd with hold | hnew
    · exact h.routed k cmd₁ hold habout
    · exact ht.routed _ hnew habout
  · have hold := h.once
    have hturn := ht.once
    have rsubscribed := read_after hs rest (f := StageLoop.subscribed tag) (k := c) fun hne =>
      ⟨(hknow.owed_eq_zero hne).2, (ht.knows.owed_eq_zero hne).2⟩
    omega
  · intro hzero
    by_cases hp : p = id
    · refine ⟨st', by rw [hp, after_stage_self], ht.accepted.mpr ?_⟩
      by_cases hr : inChannel (StageCommand.requests tag) (sys.queue p) = 0
      · obtain ⟨st₁, hst₁, hsome⟩ := h.accepted hr
        rw [hp, hs] at hst₁
        rw [Option.some.inj hst₁]
        exact Or.inl hsome
      · exact Or.inr (by omega)
    · have hnone : cmd.requests tag = 0 := by
        by_contra hne
        exact hp (hrequests hne).symm
      obtain ⟨st₁, hst₁, hsome⟩ := h.accepted (by omega)
      exact ⟨st₁, by rw [after_stage_of_ne _ _ _ _ hp, hst₁], hsome⟩
  · intro hne st₁ hst₁
    have hold := h.once
    have hnone := h.requested (by omega)
    by_cases hp : p = id
    · rw [hp, after_stage_self] at hst₁
      rw [← Option.some.inj hst₁]
      rw [hp] at hnone
      have hnot : ¬ (st'.ls.downstreams.lookup tag).isSome := by
        rw [ht.accepted, hnone st hs]
        rintro (hsome | hreq)
        · cases hsome
        · omega
      rw [Option.isSome_iff_ne_none, not_not] at hnot
      exact hnot
    · rw [after_stage_of_ne _ _ _ _ hp] at hst₁
      exact hnone st₁ hst₁
  · have hold := h.balance
    have hturn := ht.balance
    have rowed := read_after hs rest (f := StageLoop.owed tag) (k := c) fun hne =>
      ⟨(hknow.owed_eq_zero hne).1, (ht.knows.owed_eq_zero hne).1⟩
    have rpending := read_after hs rest (f := StageLoop.pending tag) (k := p) fun hne =>
      ⟨hknow.pending_eq_zero hne, ht.knows.pending_eq_zero hne⟩
    omega

/-! ## steps of a network -/

theorem Ledger.owed_lt (h : Ledger tag p c sys) : sys.read (StageLoop.owed tag) c < usizeSize ∧
    (sys.read (StageLoop.owed tag) c ≠ 0 → sys.read (StageLoop.subscribed tag) c = 1) := by
  have hpos : 0 < usizeSize := by decide
  unfold System.read
  cases hst : sys.stage c with
  | none => exact ⟨hpos, fun hne => absurd rfl hne⟩
  | some st =>
    show st.owed tag < usizeSize ∧ (st.owed tag ≠ 0 → st.subscribed tag = 1)
    cases hup : st.ls.upstreams.lookup tag with
    | none =>
      rw [(owed_of_none hup).1]
      exact ⟨hpos, fun hne => absurd rfl hne⟩
    | some up =>
      have hsound := (h.knows c st hst).upstream up hup |>.2.2
      rw [(owed_of_some hup).1]
      exact ⟨Nat.lt_of_le_of_lt hsound.window hsound.small, fun _ => (owed_of_some hup).2⟩

/-- **Every command that is handled keeps the books.** -/
theorem Ledger.step (h : Ledger tag p c sys) (impl : GenStage V S) {env : Peers} (hlive : Live env)
    (hs : sys.stage id = some st) (hq : sys.queue id = cmd :: rest)
    (hroom : (st.ls.downstreams.lookup tag).isSome → Roomy tag env) :
    Ledger tag p c
      (sys.after id rest (StageLoop.handle impl id env { st with sent := [] } cmd)) := by
  have hst := h.knows id st hs
  have hk : Knows tag p c id { st with sent := [] } :=
    ⟨hst.conserves, hst.entered, hst.upstream, hst.downstream⟩
  suffices ht : Turn tag p c id { st with sent := [] } cmd
      (StageLoop.handle impl id env { st with sent := [] } cmd) by
    exact h.after hs hq ⟨ht.knows, ht.routed, ht.requests, ht.once, ht.accepted, ht.balance⟩
  by_cases habout : cmd.About tag
  · have hrouted := h.routed id cmd (by rw [hq]; exact List.mem_cons_self) habout
    have hcount : ∀ f : StageCommand V → Nat, f cmd ≤ inChannel f (sys.queue id) := by
      intro f
      rw [hq, inChannel_cons]
      omega
    obtain ⟨hlt, hsome⟩ := h.owed_lt
    have honce := h.once
    have hbal := h.balance
    cases cmd with
    | subscribe t consumer opts =>
      obtain ⟨rfl, rfl⟩ := hrouted
      obtain rfl : tag = t := Eq.symm habout
      have hone := hcount (StageCommand.requests tag)
      have hreq : (.subscribe tag consumer opts : StageCommand V).requests tag = 1 := if_pos rfl
      exact turn_subscribe impl hlive rfl hk (h.requested (by omega) st hs) opts
    | cancel t reason => exact hrouted.elim
    | askDemand t n =>
      have hp : id = p := hrouted
      obtain rfl : tag = t := Eq.symm habout
      rw [hp] at hs hcount
      have hn := hcount (StageCommand.asks tag)
      have hask : (.askDemand tag n : StageCommand V).asks tag = n := if_pos rfl
      have hpend : sys.read (StageLoop.pending tag) p = st.pending tag := read_eq hs _
      cases hup : st.ls.upstreams.lookup tag with
      | some up => exact turn_forward impl hlive rfl hk hup n
      | none =>
        refine turn_ask impl hlive rfl hk hroom hup ?_ ?_
        · by_cases hzero : n = 0
          · exact Or.inr hzero
          · obtain ⟨st₁, hst₁, hdown⟩ := h.accepted (by
              have hsub := hsome (by omega)
              omega)
            rw [hs] at hst₁
            rw [Option.some.inj hst₁]
            exact Or.inl hdown
        · show st.pending tag + n < usizeSize
          omega
    | events t events =>
      have hc : id = c := hrouted
      obtain rfl : tag = t := Eq.symm habout
      rw [hc] at hs hcount
      have hn := hcount (StageCommand.eventCount tag)
      have hlen : (.events tag events : StageCommand V).eventCount tag = events.length := by
        show (if tag = tag then events else []).length = _
        rw [if_pos rfl]
      have howed : sys.read (StageLoop.owed tag) c = st.owed tag := read_eq hs _
      refine turn_events impl hlive rfl hk hroom ?_
      show events.length ≤ st.owed tag
      omega
    | call msg => exact habout.elim
    | cast msg => exact habout.elim
    | subscriptionConfirmed t producer opts =>
      obtain ⟨rfl, rfl⟩ := hrouted
      obtain rfl : tag = t := Eq.symm habout
      have hone := hcount (StageCommand.confirms tag)
      have hcon : (.subscriptionConfirmed tag producer opts : StageCommand V).confirms tag = 1 :=
        if_pos rfl
      refine turn_confirmed impl hlive rfl hk ?_ opts
      have hsub : sys.read (StageLoop.subscribed tag) id = st.subscribed tag :=
        read_eq hs _
      cases hup : st.ls.upstreams.lookup tag with
      | none => rfl
      | some up =>
        have hyes := (owed_of_some hup).2
        omega
  · exact turn_other impl hlive rfl hk hroom habout

structure Unaware (tag : SubscriptionTag) (st : StageLoop V S) : Prop where
  conserves : st.ls.dispatcher.Conserves
  entered : Entered tag st.ls
  upstream : st.ls.upstreams.lookup tag = none
  downstream : st.ls.downstreams.lookup tag = none

theorem Unaware.serves (h : Unaware tag st) (hs : Serves tag st st') : Unaware tag st' := by
  refine ⟨?_, hs.entered h.entered, ?_, ?_⟩
  · rw [hs.dispatcher]
    exact h.conserves
  · rw [hs.upstream, h.upstream]
  · rw [hs.downstream, h.downstream]

structure Unused (tag : SubscriptionTag) (sys : System V S) : Prop where
  unaware : ∀ k st, sys.stage k = some st → Unaware tag st
  unsaid : ∀ k, ∀ cmd ∈ sys.queue k, ¬ cmd.About tag

theorem Unused.step (h : Unused tag sys) (impl : GenStage V S) {env : Peers} (hlive : Live env)
    (hs : sys.stage id = some st) (hq : sys.queue id = cmd :: rest) :
    Unused tag (sys.after id rest (StageLoop.handle impl id env { st with sent := [] } cmd)) := by
  have hst := h.unaware id st hs
  have hmid : Unaware tag { st with sent := [] } :=
    ⟨hst.conserves, hst.entered, hst.upstream, hst.downstream⟩
  obtain ⟨mid, heq⟩ : ∃ mid, mid = { st with sent := [] } := ⟨_, rfl⟩
  rw [← heq] at hmid ⊢
  have hroom : (mid.ls.downstreams.lookup tag).isSome → Roomy tag env := by
    rw [hmid.downstream]
    nofun
  have hserve := serves_handle hlive impl id hroom hmid.conserves hmid.entered
    (h.unsaid id cmd (by rw [hq]; exact List.mem_cons_self))
  obtain ⟨new, hnew, -, hevents⟩ := hserve.sent
  have hsent : mid.sent = [] := by rw [heq]
  rw [hsent, List.nil_append] at hnew
  refine ⟨?_, ?_⟩
  · intro k st₁ hst₁
    rcases stage_after hst₁ with ⟨-, rfl⟩ | hold
    · exact hmid.serves hserve
    · exact h.unaware k st₁ hold
  · intro k cmd₁ hcmd habout
    rcases mem_queue_after hq hcmd with hold | hfresh
    · exact h.unsaid k cmd₁ hold habout
    · rw [hnew] at hfresh
      obtain ⟨-, hsome⟩ := hevents _ hfresh habout
      rw [hmid.downstream] at hsome
      cases hsome

/-! ## commands from outside -/

theorem System.inChannel_push (sys : System V S) (id : StageId) (cmd : StageCommand V)
    (f : StageCommand V → Nat) (k : StageId) :
    inChannel f ((sys.push id cmd).queue k)
      = inChannel f (sys.queue k) + if k = id then f cmd else 0 := by
  unfold System.push
  dsimp only
  by_cases hk : k = id
  · rw [if_pos hk, if_pos hk, inChannel_append, inChannel_cons]
    rfl
  · rw [if_neg hk, if_neg hk]
    rfl

theorem System.mem_queue_push (h : cmd₁ ∈ (sys.push id cmd).queue k) :
    cmd₁ ∈ sys.queue k ∨ k = id ∧ cmd₁ = cmd := by
  have h : cmd₁ ∈ if k = id then sys.queue k ++ [cmd] else sys.queue k := h
  by_cases hk : k = id
  · rw [if_pos hk] at h
    exact (List.mem_append.mp h).imp_right fun hnew => ⟨hk, List.mem_singleton.mp hnew⟩
  · rw [if_neg hk] at h
    exact Or.inl h

theorem Unused.push (h : Unused tag sys) (hcmd : ¬ cmd.About tag) :
    Unused tag (sys.push id cmd) := by
  refine ⟨h.unaware, fun k cmd₁ hmem => ?_⟩
  rcases mem_queue_push hmem with hold | ⟨-, rfl⟩
  · exact h.unsaid k cmd₁ hold
  · exact hcmd

theorem Ledger.push (h : Ledger tag p c sys) (hcmd : ¬ cmd.About tag) :
    Ledger tag p c (sys.push id cmd) := by
  obtain ⟨hasks, hevents, hrequests, hconfirms⟩ := StageCommand.counts_of_not_about hcmd
  have hsame : ∀ (f : StageCommand V → Nat) (k : StageId), f cmd = 0 →
      inChannel f ((sys.push id cmd).queue k) = inChannel f (sys.queue k) := by
    intro f k hzero
    rw [inChannel_push, hzero, ite_self, Nat.add_zero]
  refine ⟨h.knows, fun k cmd₁ hmem habout => ?_, ?_, ?_, ?_, ?_⟩
  · rcases mem_queue_push hmem with hold | ⟨-, rfl⟩
    · exact h.routed k cmd₁ hold habout
    · exact absurd habout hcmd
  · rw [hsame _ _ hrequests, hsame _ _ hconfirms]
    exact h.once
  · rw [hsame _ _ hrequests]
    exact h.accepted
  · rw [hsame _ _ hrequests]
    exact h.requested
  · rw [hsame _ _ hasks, hsame _ _ hevents]
    exact h.balance

theorem Unused.subscribe (h : Unused tag sys) (p c : StageId) (opts : SubscribeOpts) :
    Ledger tag p c (sys.push p (.subscribe tag c opts)) := by
  have hzero : ∀ k, inChannel (StageCommand.requests tag) (sys.queue k) = 0 ∧
      inChannel (StageCommand.confirms tag) (sys.queue k) = 0 ∧
      inChannel (StageCommand.asks tag) (sys.queue k) = 0 ∧
      inChannel (StageCommand.eventCount tag) (sys.queue k) = 0 := by
    intro k
    have hcounts := fun cmd hmem => StageCommand.counts_of_not_about (h.unsaid k cmd hmem)
    exact ⟨inChannel_eq_zero fun cmd hmem => (hcounts cmd hmem).2.2.1,
      inChannel_eq_zero fun cmd hmem => (hcounts cmd hmem).2.2.2,
      inChannel_eq_zero fun cmd hmem => (hcounts cmd hmem).1,
      inChannel_eq_zero fun cmd hmem => (hcounts cmd hmem).2.1⟩
  have hread : ∀ k, (sys.push p (.subscribe tag c opts)).read (StageLoop.owed tag) k = 0 ∧
      (sys.push p (.subscribe tag c opts)).read (StageLoop.subscribed tag) k = 0 ∧
      (sys.push p (.subscribe tag c opts)).read (StageLoop.pending tag) k = 0 := by
    intro k
    show ((sys.stage k).map _).getD 0 = 0 ∧ ((sys.stage k).map _).getD 0 = 0 ∧
      ((sys.stage k).map _).getD 0 = 0
    cases hst : sys.stage k with
    | none => exact ⟨rfl, rfl, rfl⟩
    | some st =>
      have hun := h.unaware k st hst
      obtain ⟨howed, hsub⟩ := owed_of_none hun.upstream
      exact ⟨howed, hsub, hun.entered.pendingOf_eq_zero hun.downstream⟩
  have hone : (.subscribe tag c opts : StageCommand V).requests tag = 1 := if_pos rfl
  have hrequests : inChannel (StageCommand.requests tag)
      ((sys.push p (.subscribe tag c opts)).queue p) = 1 := by
    rw [inChannel_push, (hzero p).1, if_pos rfl, hone]
  refine ⟨fun k st hst => ?_, fun k cmd hmem habout => ?_, ?_, fun hnone => ?_, fun _ st hst => ?_,
    ?_⟩
  · have hun := h.unaware k st hst
    refine ⟨hun.conserves, hun.entered, fun up hup => ?_, fun down hdown => ?_⟩
    · rw [hun.upstream] at hup
      cases hup
    · rw [hun.downstream] at hdown
      cases hdown
  · rcases mem_queue_push hmem with hold | ⟨hk, rfl⟩
    · exact absurd habout (h.unsaid k cmd hold)
    · exact ⟨hk, rfl⟩
  · rw [hrequests, inChannel_push, (hzero c).2.1, (hread c).2.1]
    show 1 + (0 + if c = p then 0 else 0) + 0 = 1
    rw [ite_self]
  · rw [hrequests] at hnone
    cases hnone
  · exact (h.unaware p st hst).downstream
  · rw [inChannel_push, inChannel_push, (hzero p).2.2.1, (hzero c).2.2.2,
      (hread c).1, (hread p).2.2]
    show 0 = 0 + (0 + if p = p then 0 else 0) + (0 + if c = p then 0 else 0)
    rw [ite_self, ite_self]

end

/-! ## runs -/

variable {impl : StageId → GenStage V S} {net net' : Network V S} {tag : SubscriptionTag}

/-- the condition on the steps: while the producer of the subscription handles a command, the channel
of the consumer takes the events that are sent for it -/
def HasRoom (tag : SubscriptionTag) (net : Network V S) : Move V → Prop
  | .handle id rooms => ∀ st, net.sys.stage id = some st →
    (st.ls.downstreams.lookup tag).isSome → rooms.drain tag = true ∧ rooms.fresh tag = true
  | _ => True

/-- a subscription nobody has asked on by hand is unused, or has its books -/
def Booked (tag : SubscriptionTag) (net : Network V S) : Prop :=
  tag ∉ net.asked → Unused tag net.sys ∨ tag < net.nextTag ∧ ∃ p c, Ledger tag p c net.sys

theorem start_unaware (impl : StageId → GenStage V S) {k : StageId} {st : StageLoop V S}
    (h : (networkMachine impl).start net) (hst : net.sys.stage k = some st) (tag : SubscriptionTag) : Unaware tag st := by
  obtain ⟨dispatcher, stageType, user, hdisp, rfl⟩ := (h.2 k).2 st hst
  refine ⟨?_, rfl, rfl, rfl⟩
  show dispatcher.Conserves
  rcases hdisp with rfl | rfl
  · exact demand_conserves
  · exact broadcast_conserves

theorem booked_start (h : (networkMachine impl).start net) : Booked tag net := by
  intro _
  refine Or.inl ⟨fun k st hst => start_unaware impl h hst tag, fun k cmd hmem => ?_⟩
  rw [(h.2 k).1] at hmem
  cases hmem

theorem Booked.push (h : Booked tag net) (id : StageId) {cmd : StageCommand V}
    (hcmd : ¬ cmd.About tag) {nextTag : SubscriptionTag} (hnext : net.nextTag ≤ nextTag)
    {asked : List SubscriptionTag} (hasked : tag ∉ asked → tag ∉ net.asked) :
    Booked tag ⟨net.sys.push id cmd, nextTag, asked⟩ := by
  intro hnot
  rcases h (hasked hnot) with hun | ⟨hlt, p, c, hledger⟩
  · exact Or.inl (hun.push hcmd)
  · exact Or.inr ⟨Nat.lt_of_lt_of_le hlt hnext, p, c, hledger.push hcmd⟩

theorem booked_step {move : Move V} (h : Booked tag net) (hok : HasRoom tag net move)
    (hn : (networkMachine impl).next net move = some net') : Booked tag net' := by
  cases move with
  | handle id rooms =>
    obtain ⟨sys, hsys, rfl⟩ := Option.map_eq_some_iff.mp hn
    obtain ⟨st, cmd, rest, hs, hq, rfl⟩ := handle_cases hsys
    intro hasked
    rcases h hasked with hun | ⟨hlt, p, c, hledger⟩
    · exact Or.inl (hun.step (impl id) rooms.live hs hq)
    · refine Or.inr ⟨hlt, p, c, hledger.step (impl id) rooms.live hs hq fun hsome => ?_⟩
      obtain ⟨hdrain, hfresh⟩ := hok st hs hsome
      exact Rooms.roomy hdrain hfresh
  | subscribe producer consumer opts =>
    cases hn
    by_cases heq : net.nextTag = tag
    · intro hasked
      rcases h hasked with hun | ⟨hlt, -⟩
      · rw [heq]
        exact Or.inr ⟨Nat.lt_succ_self tag, producer, consumer,
          hun.subscribe producer consumer opts⟩
      · exact absurd heq (Nat.ne_of_gt hlt)
    · have hcmd : ¬ (.subscribe net.nextTag consumer opts : StageCommand V).About tag := heq
      exact h.push producer hcmd (Nat.le_succ _) fun hasked => hasked
  | ask id t n =>
    cases hn
    by_cases heq : t = tag
    · intro hasked
      rw [heq] at hasked
      exact absurd List.mem_cons_self hasked
    · have hcmd : ¬ (.askDemand t n : StageCommand V).About tag := heq
      exact h.push id hcmd (Nat.le_refl _) fun hasked hmem =>
        hasked (List.mem_cons_of_mem _ hmem)
  | call id msg =>
    cases hn
    have hcmd : ¬ (.call msg : StageCommand V).About tag := nofun
    exact h.push id hcmd (Nat.le_refl _) fun hasked => hasked
  | cast id msg =>
    cases hn
    have hcmd : ¬ (.cast msg : StageCommand V).About tag := nofun
    exact h.push id hcmd (Nat.le_refl _) fun hasked => hasked

/-- **In every run in which no event for a subscription bounces, and in which nobody asks on it by
hand, what its consumer waits for is the demand its producer has left, the demand on its way to the
producer and the events on their way to the consumer.** -/
theorem demand_conserved (h : (networkMachine impl).Reach (HasRoom tag) net)
    (hasked : tag ∉ net.asked) {c : StageId} {st : StageLoop V S}
    (hst : net.sys.stage c = some st) {up : UpstreamSubscription}
    (hup : st.ls.upstreams.lookup tag = some up) :
    (∃ producer d, net.sys.stage up.producer = some producer ∧
      producer.ls.consumerDemands.find? (·.tag = tag) = some ⟨tag, d⟩ ∧
      up.outstandingDemand = d + inChannel (StageCommand.asks tag) (net.sys.queue up.producer)
        + inChannel (StageCommand.eventCount tag) (net.sys.queue c)) ∧
    (∀ k, k ≠ up.producer → inChannel (StageCommand.asks tag) (net.sys.queue k) = 0) ∧
    ∀ k, k ≠ c → inChannel (StageCommand.eventCount tag) (net.sys.queue k) = 0 := by
  have hbooked : Booked tag net :=
    h.inv (fun _ hs => booked_start hs) fun _ _ _ hi hok hn => booked_step hi hok hn
  rcases hbooked hasked with hun | ⟨-, p, c', hledger⟩
  · rw [(hun.unaware c st hst).upstream] at hup
    cases hup
  · obtain ⟨rfl, rfl, -⟩ := (hledger.knows c st hst).upstream up hup
    have hcounts := fun k cmd hmem => Routed.of_counts (hledger.routed k cmd hmem)
    have howed := (System.read_eq hst (StageLoop.owed tag)).trans (owed_of_some hup).1
    have hsub := (System.read_eq hst (StageLoop.subscribed tag)).trans (owed_of_some hup).2
    have honce := hledger.once
    obtain ⟨producer, hprod, hdown⟩ := hledger.accepted (by omega)
    have hent := (hledger.knows _ producer hprod).entered
    unfold Entered at hent
    rw [if_pos hdown] at hent
    obtain ⟨d, hfind, hd⟩ := exists_find_of_count hent
    have hpend := (System.read_eq hprod (StageLoop.pending tag)).trans hd
    have hbal := hledger.balance
    rw [howed, hpend] at hbal
    refine ⟨⟨producer, d, hprod, hfind, hbal⟩, fun k hk => ?_, fun k hk => ?_⟩
    · refine inChannel_eq_zero fun cmd hmem => ?_
      by_contra hne
      exact hk ((hcounts k cmd hmem).1 hne)
    · refine inChannel_eq_zero fun cmd hmem => ?_
      by_contra hne
      exact hk ((hcounts k cmd hmem).2.1 hne)

private def unfed : Network Nat Unit where
  sys :=
    { stage := fun id => if id = 0 then some (.new .demand .producer ()) else
        if id < 3 then some (.new .demand .consumer ()) else none
      queue := fun _ => [] }
  nextTag := 1
  asked := []

private theorem unfed_start : (networkMachine fun _ => (.echo [])).start unfed := by
  refine ⟨rfl, fun id => ⟨rfl, fun st hst => ?_⟩⟩
  have hst : (if id = 0 then some (StageLoop.new .demand .producer ()) else
    if id < 3 then some (StageLoop.new .demand .consumer ()) else none) = some st := hst
  split at hst
  · exact ⟨.demand, .producer, (), Or.inl rfl, (Option.some.inj hst).symm⟩
  · split at hst
    · exact ⟨.demand, .consumer, (), Or.inl rfl, (Option.some.inj hst).symm⟩
    · cases hst

/-- the channels take events for the subscriptions below a tag -/
private def upTo (t : SubscriptionTag) : Rooms := ⟨(· < t), (· < t)⟩

/-- consumer `id` subscribes to the producer, which then has its demand of two -/
private def served (id : StageId) : List (Move Nat) :=
  [.subscribe 0 id ⟨2, 1, by decide, by decide⟩, .handle 0 (upTo 3), .handle id (upTo 3),
    .handle 0 (upTo 3)]

/-- the consumer waits for two events after one has bounced off its channel, while the producer
believes that it wants one, and nothing is on its way -/
theorem demand_lost : ∃ net, (networkMachine fun _ => (.echo [])).Reach Machine.Anytime net ∧
    1 ∉ net.asked ∧ ∃ producer consumer up, net.sys.stage 0 = some producer ∧
      net.sys.stage 1 = some consumer ∧ consumer.ls.upstreams.lookup 1 = some up ∧
      up.producer = 0 ∧ up.mode = .automatic ∧ up.outstandingDemand = 2 ∧
      producer.ls.consumerDemands = [⟨1, 1⟩] ∧ net.sys.queue 0 = [] ∧ net.sys.queue 1 = [] := by
  have hstart : (networkMachine fun _ => (.echo [])).Reach Machine.Anytime unfed := .start unfed_start
  obtain ⟨net, hnet, hasked, h0, h1, ⟨producer, hp, hd⟩, consumer, hc, hup⟩ := hstart.exists_run
    (served 1 ++ ([.cast 0 7, .handle 0 (upTo 1)] : List (Move Nat)))
    (p := fun net => 1 ∉ net.asked ∧ net.sys.queue 0 = [] ∧ net.sys.queue 1 = [] ∧
      (∃ st ∈ net.sys.stage 0, st.ls.consumerDemands = [⟨1, 1⟩]) ∧
      ∃ st ∈ net.sys.stage 1, st.ls.upstreams.lookup 1 = some ⟨0, .automatic, 1, 2, 0, 2⟩) (by decide)
  exact ⟨net, hnet, hasked, producer, consumer, _, hp, hc, hup, rfl, rfl, rfl, hd, h0, h1⟩

/-- an event for consumer 1 is on its way and the producer owes it one more, after the events for
consumer 2 have bounced -/
theorem demand_conserved_served : ∃ net,
    (networkMachine fun _ => (.echo [])).Reach (HasRoom 1) net ∧ 1 ∉ net.asked ∧
    ∃ consumer up, net.sys.stage 1 = some consumer ∧ consumer.ls.upstreams.lookup 1 = some up ∧
      up.mode = .automatic ∧ ∃ producer d, net.sys.stage up.producer = some producer ∧
      producer.ls.consumerDemands.find? (·.tag = 1) = some ⟨1, d⟩ ∧
      up.outstandingDemand = d + inChannel (StageCommand.asks 1) (net.sys.queue up.producer)
        + inChannel (StageCommand.eventCount 1) (net.sys.queue 1) := by
  have hstart : (networkMachine fun _ => (.echo [])).Reach (HasRoom 1) unfed := .start unfed_start
  obtain ⟨net, hnet, hasked, consumer, hc, hup⟩ := hstart.exists_within
    (served 1 ++ served 2 ++ ([.cast 0 7, .handle 0 (upTo 2), .cast 0 8, .cast 0 9,
      .handle 1 (upTo 2), .handle 0 (upTo 2), .handle 0 (upTo 2)] : List (Move Nat)))
    (fun move hmove net => by
      simp only [served, List.cons_append, List.nil_append, List.mem_cons, List.not_mem_nil,
        or_false] at hmove
      rcases hmove with rfl | rfl | rfl | rfl | rfl | rfl | rfl | rfl | rfl | rfl | rfl | rfl |
        rfl | rfl | rfl <;> first | trivial | exact fun _ _ _ => ⟨rfl, rfl⟩)
    (p := fun net => 1 ∉ net.asked ∧
      ∃ st ∈ net.sys.stage 1, st.ls.upstreams.lookup 1 = some ⟨0, .automatic, 1, 2, 0, 2⟩) (by decide)
  exact ⟨net, hnet, hasked, consumer, _, hc, hup, rfl, (demand_conserved hnet hasked hc hup).1⟩

end Rebar.Stage

import Rebar.Swim.Cluster

/-!
# Relayed probes

A helper that is asked to probe a node pings it under a number of its own and waits for the ack with
that number.  The ack, however, carries a number of the node that sends it.  So the helper can only
report what it was asked for when the two counters happen to agree.
Under that condition the relays of every helper are the requests that are not answered yet
(`Traced`).
-/

namespace Rebar.Swim

/-! ## packets of an indirect probe -/

/-- packet `i` of the log and what it carries satisfy `P` -/
def Holds (log : List Packet) (i : Nat) (P : Packet → SwimEnvelope → Prop) : Prop :=
  ∃ p env, log[i]? = some p ∧ p.env = some env ∧ P p env

/-- `o`, under the number `q`, asks `h` to probe `t` -/
def Request (log : List Packet) (i : Nat) (o h t : NodeId) (q : UInt64) : Prop :=
  Holds log i fun p env => env.source = o ∧ p.dst = h ∧ env.seq = q ∧
    ∃ addr, env.kind = .pingReq t addr

/-- `h`, on handling packet `i`, pings `t` under the number `r` -/
def RelayPing (log : List Packet) (i k : Nat) (h t : NodeId) (r : UInt64) : Prop :=
  Holds log k fun p env => p.cause = some i ∧ p.src = h ∧ p.dst = t ∧ env.seq = r ∧
    env.kind = .ping

/-- `t`, on handling packet `k`, sends `h` a direct ack under the number `q` -/
def Answer (log : List Packet) (k j : Nat) (t h : NodeId) (q : UInt64) : Prop :=
  Holds log j fun p env => p.cause = some k ∧ p.src = t ∧ p.dst = h ∧ env.seq = q ∧
    env.kind = .ack none

/-- `h`, on handling packet `j`, tells `o` under the number `q` that `t` is alive -/
def Report (log : List Packet) (j m : Nat) (h o t : NodeId) (q : UInt64) : Prop :=
  Holds log m fun p env => p.cause = some j ∧ p.src = h ∧ p.dst = o ∧ env.seq = q ∧
    env.kind = .ack (some t)

/-- the number packet `j` carries -/
def Number (log : List Packet) (j : Nat) (q : UInt64) : Prop := Holds log j fun _ env => env.seq = q

/-- the condition on the steps: the number of a direct ack agrees with the number of the ping it
answers, if the helper waits for a relay under either -/
def NumbersMatch (cl : Cluster) : Cluster.Step → Prop
  | .deliver i _ => ∀ p env k pk ek s, cl.log[i]? = some p → p.env = some env →
      env.kind = .ack none → p.cause = some k → cl.log[k]? = some pk → pk.env = some ek →
      cl.services p.dst = some s → env.seq ∈ s.relays ∨ ek.seq ∈ s.relays → env.seq = ek.seq
  | _ => True

section
variable (log : List Packet) (i k : Nat) (a b t : NodeId) (q : UInt64)

instance (P : Packet → SwimEnvelope → Prop) [∀ p env, Decidable (P p env)] :
    Decidable (Holds log i P) :=
  decidable_of_iff ((log[i]?).any fun p => p.env.any fun env => decide (P p env)) <| by
    unfold Holds
    cases hp : log[i]? with
    | none => simp
    | some p => cases he : p.env <;> simp [he]

instance (kind : SwimKind) : Decidable (∃ addr, kind = .pingReq t addr) :=
  match kind with
  | .ping => isFalse fun h => by cases h with | intro _ h => cases h
  | .ack _ => isFalse fun h => by cases h with | intro _ h => cases h
  | .pingReq t' addr => decidable_of_iff (t' = t)
      ⟨fun h => ⟨addr, by rw [h]⟩, fun h => by cases h with | intro _ h => cases h; rfl⟩

instance : Decidable (Request log i a b t q) := inferInstanceAs (Decidable (Holds ..))
instance : Decidable (RelayPing log i k a b q) := inferInstanceAs (Decidable (Holds ..))
instance : Decidable (Answer log i k a b q) := inferInstanceAs (Decidable (Holds ..))
instance : Decidable (Report log i k a b t q) := inferInstanceAs (Decidable (Holds ..))

end

variable {i : Nat} {c : Choices} {new : List Packet} {p : Packet} {env : SwimEnvelope} {q : UInt64}

theorem numbersMatch_of {cl : Cluster}
    (h : ((cl.log[i]?).all fun p => p.env.all fun env => decide (env.kind ≠ .ack none) ||
      p.cause.all fun k => (cl.log[k]?).all fun pk => pk.env.all fun ek =>
        decide (env.seq = ek.seq)) = true) : NumbersMatch cl (.deliver i c) := by
  intro p env k pk ek s hp he hk hc hpk hek _ _
  rw [hp, Option.all_some, he, Option.all_some, hc, Option.all_some, hpk, Option.all_some, hek,
    Option.all_some, Bool.or_eq_true] at h
  rcases h with h | h
  · exact absurd hk (of_decide_eq_true h)
  · exact of_decide_eq_true h

section
variable {log new : List Packet} {pk : Packet} {i : Nat} {P Q : Packet → SwimEnvelope → Prop}

theorem Holds.append (h : Holds log i P) : Holds (log ++ new) i P := by
  obtain ⟨p, env, hp, he, h⟩ := h
  exact ⟨p, env, Cluster.getElem?_append_of_some hp, he, h⟩

theorem Holds.old (h : Holds (log ++ new) i P) (hi : i < log.length) : Holds log i P := by
  obtain ⟨p, env, hp, he, h⟩ := h
  rw [List.getElem?_append_left hi] at hp
  exact ⟨p, env, hp, he, h⟩

theorem Holds.lt (h : Holds log i P) : i < log.length := by
  obtain ⟨p, env, hp, -, -⟩ := h
  exact (List.getElem?_eq_some_iff.mp hp).1

theorem Holds.mono (h : Holds log i P) (hPQ : ∀ p env, P p env → Q p env) : Holds log i Q := by
  obtain ⟨p, env, hp, he, h⟩ := h
  exact ⟨p, env, hp, he, hPQ p env h⟩

theorem Holds.both (h : Holds log i P) (h' : Holds log i Q) : ∃ p env, P p env ∧ Q p env := by
  obtain ⟨p, env, hp, he, h⟩ := h
  obtain ⟨p', env', hp', he', h'⟩ := h'
  cases hp.symm.trans hp'
  cases he.symm.trans he'
  exact ⟨p, env, h, h'⟩

theorem Holds.cases (h : Holds (log ++ new) i P) :
    Holds log i P ∨ log.length ≤ i ∧ Holds new (i - log.length) P := by
  rcases Nat.lt_or_ge i log.length with hi | hi
  · exact .inl (h.old hi)
  · obtain ⟨p, env, hp, he, h⟩ := h
    rw [List.getElem?_append_right hi] at hp
    exact .inr ⟨hi, p, env, hp, he, h⟩

theorem Holds.snoc (h : Holds [pk] 0 P) : Holds (log ++ [pk]) log.length P := by
  obtain ⟨p, env, hp, he, h⟩ := h
  exact ⟨p, env, (List.getElem?_concat_length ..).trans hp, he, h⟩

theorem Holds.snoc_cases (h : Holds (log ++ [pk]) i P) :
    Holds log i P ∨ i = log.length ∧ Holds [pk] 0 P := by
  have hlt := h.lt
  rw [List.length_append, List.length_singleton] at hlt
  rcases h.cases with h | ⟨hi, h⟩
  · exact .inl h
  · obtain rfl : i = log.length := by omega
    rw [Nat.sub_self] at h
    exact .inr ⟨rfl, h⟩

theorem Holds.one (h : Holds [pk] 0 P) : ∀ p ∈ [pk], ∀ env, p.env = some env → P p env := by
  intro p hp env he
  obtain rfl := List.mem_singleton.mp hp
  obtain ⟨_, _, hP, rfl, rfl⟩ := h.both (Q := fun p' env' => p = p' ∧ env = env')
    ⟨p, env, rfl, he, rfl, rfl⟩
  exact hP

end

/-! ## counters and causes -/

def Own (env : SwimEnvelope) : Prop := ∀ t, env.kind ≠ .ack (some t)

theorem own_of_ping (h : env.kind = .ping) : Own env := by
  intro t ht
  rw [h] at ht
  cases ht

theorem RelayPing.numbered {log : List Packet} {k : Nat} {h t : NodeId} {r : UInt64}
    (hk : RelayPing log i k h t r) :
    Holds log k fun p env => p.src = h ∧ Own env ∧ env.seq = r :=
  hk.mono fun _ _ hp => ⟨hp.2.1, own_of_ping hp.2.2.2.2, hp.2.2.2.1⟩

structure Numbered (cl : Cluster) : Prop where
  selfId : ∀ n s, cl.services n = some s → s.selfId = n
  counter : ∀ n s, cl.services n = some s → s.seq.toNat ≤ cl.log.length + 1
  sent : ∀ p ∈ cl.log, ∃ env s, p.env = some env ∧ env.source = p.src ∧
    cl.services p.src = some s ∧ (Own env → env.seq.toNat < s.seq.toNat)
  unique : ∀ i j n q, Holds cl.log i (fun p env => p.src = n ∧ Own env ∧ env.seq = q) →
    Holds cl.log j (fun p env => p.src = n ∧ Own env ∧ env.seq = q) → i = j
  causes : ∀ (i : Nat) p j, cl.log[i]? = some p → p.cause = some j → j < i
  handled : ∀ i ∈ cl.handled, i < cl.log.length

/-- the packets a call of service `s` sends: numbered from its counter on, if they carry own
numbers, and caused by packets already in the log -/
structure Sends (len : Nat) (n : NodeId) (s s' : SwimService) (new : List Packet) : Prop where
  selfId : s'.selfId = s.selfId
  grows : s.seq.toNat ≤ s'.seq.toNat
  bound : s'.seq.toNat ≤ s.seq.toNat + new.length
  packets : ∀ (x : Nat) p, new[x]? = some p → p.src = n ∧ (∀ j, p.cause = some j → j < len) ∧
    ∃ env, p.env = some env ∧ env.source = n ∧
      (Own env → env.seq.toNat = s.seq.toNat + x ∧ env.seq.toNat < s'.seq.toNat)

variable {cl : Cluster} {n : NodeId} {s s' : SwimService}

theorem Sends.later {len : Nat} (h : Sends len n s s' new) (hs : cl.services n = some s)
    {k : NodeId} {sk : SwimService} (hk : cl.services k = some sk) :
    ∃ sk', (cl.set n s').services k = some sk' ∧ sk.seq.toNat ≤ sk'.seq.toNat := by
  rw [Cluster.set_services]
  split
  next hkn =>
    rw [hkn, hs] at hk
    cases hk
    exact ⟨s', rfl, h.grows⟩
  next => exact ⟨sk, hk, le_refl _⟩

theorem Numbered.number_lt (h : Numbered cl) (hs : cl.services n = some s)
    (hi : Holds cl.log i fun p env => p.src = n ∧ Own env ∧ env.seq = q) :
    q.toNat < s.seq.toNat := by
  obtain ⟨p, env, hp, he, rfl, ho, rfl⟩ := hi
  obtain ⟨env', s₁, he', -, hs₁, hlt⟩ := h.sent p (List.mem_of_getElem? hp)
  cases he.symm.trans he'
  cases hs.symm.trans hs₁
  exact hlt ho

/-- an own number is an old one, or its place among the new packets gives it away -/
theorem Numbered.number_cases (h : Numbered cl) (hs : cl.services n = some s)
    (hsend : Sends cl.log.length n s s' new) {m : NodeId}
    (hi : Holds (cl.log ++ new) i fun p env => p.src = m ∧ Own env ∧ env.seq = q) :
    Holds cl.log i (fun p env => p.src = m ∧ Own env ∧ env.seq = q) ∧
        (m = n → q.toNat < s.seq.toNat) ∨
      m = n ∧ cl.log.length ≤ i ∧ q.toNat = s.seq.toNat + (i - cl.log.length) := by
  rcases hi.cases with hi | ⟨hil, p, env, hp, he, rfl, ho, rfl⟩
  · exact .inl ⟨hi, fun hm => h.number_lt hs (hm ▸ hi)⟩
  · obtain ⟨hsrc, -, env', he', -, hown⟩ := hsend.packets _ p hp
    cases he.symm.trans he'
    exact .inr ⟨hsrc, hil, (hown ho).1⟩

theorem Numbered.unique_append (h : Numbered cl) (hs : cl.services n = some s)
    (hsend : Sends cl.log.length n s s' new) (i j : Nat) (m : NodeId) (q : UInt64)
    (hi : Holds (cl.log ++ new) i fun p env => p.src = m ∧ Own env ∧ env.seq = q)
    (hj : Holds (cl.log ++ new) j fun p env => p.src = m ∧ Own env ∧ env.seq = q) : i = j := by
  rcases h.number_cases hs hsend hi with ⟨hi, hlt⟩ | ⟨hm, hil, hiq⟩
  · rcases h.number_cases hs hsend hj with ⟨hj, -⟩ | ⟨hm, -, hjq⟩
    · exact h.unique i j m q hi hj
    · have := hlt hm
      omega
  · rcases h.number_cases hs hsend hj with ⟨-, hlt⟩ | ⟨-, hjl, hjq⟩
    · have := hlt hm
      omega
    · omega

theorem Numbered.update (h : Numbered cl) (hs : cl.services n = some s)
    (hsend : Sends cl.log.length n s s' new) {extra : List Nat}
    (hx : ∀ x ∈ extra, x < cl.log.length) :
    Numbered ⟨(cl.set n s').services, cl.log ++ new, cl.handled ++ extra⟩ := by
  refine ⟨?_, ?_, ?_, h.unique_append hs hsend, ?_, ?_⟩
  · intro k sk hk
    rcases Cluster.set_cases hk with ⟨rfl, rfl⟩ | ⟨-, hk⟩
    · exact hsend.selfId.trans (h.selfId k s hs)
    · exact h.selfId k sk hk
  · intro k sk hk
    rw [List.length_append]
    rcases Cluster.set_cases hk with ⟨-, rfl⟩ | ⟨-, hk⟩
    · have h1 := hsend.bound
      have h2 := h.counter n s hs
      omega
    · have := h.counter k sk hk
      omega
  · intro p hp
    rcases List.mem_append.mp hp with hp | hp
    · obtain ⟨env, sk, he, hsrc, hk, hown⟩ := h.sent p hp
      obtain ⟨sk', hk', hle⟩ := hsend.later hs hk
      exact ⟨env, sk', he, hsrc, hk', fun ho => lt_of_lt_of_le (hown ho) hle⟩
    · obtain ⟨x, hx⟩ := List.mem_iff_getElem?.mp hp
      obtain ⟨hsrc, -, env, he, hes, hown⟩ := hsend.packets x p hx
      refine ⟨env, s', he, by rw [hes, hsrc], ?_, fun ho => (hown ho).2⟩
      rw [hsrc, Cluster.set_services, if_pos rfl]
  · intro i p j hp hc
    rcases Nat.lt_or_ge i cl.log.length with hi | hi
    · exact h.causes i p j ((List.getElem?_append_left hi).symm.trans hp) hc
    · have := (hsend.packets _ p ((List.getElem?_append_right hi).symm.trans hp)).2.1 j hc
      omega
  · intro i hi
    rw [List.length_append]
    rcases List.mem_append.mp hi with hi | hi
    · exact Nat.lt_add_right _ (h.handled i hi)
    · exact Nat.lt_add_right _ (hx i hi)

/-! ## what each call sends -/

theorem toNat_add_ofNat {x : Nat} (h : q.toNat + x < 2^64) :
    (q + UInt64.ofNat x).toNat = q.toNat + x := by
  rw [UInt64.toNat_add, UInt64.toNat_ofNat', Nat.add_mod_mod]
  exact Nat.mod_eq_of_lt h

section
variable {len : Nat} (hid : s'.selfId = s.selfId)
include hid

theorem sends_nothing (hseq : s'.seq = s.seq) : Sends len n s s' [] where
  selfId := hid
  grows := by rw [hseq]
  bound := by rw [hseq]; exact Nat.le_add_right _ _
  packets := nofun

variable (hi : i < len) (hself : s.selfId = n) (dst owner : NodeId) (addr : SocketAddr)
include hi hself

theorem sends_packet (q : UInt64) (kind : SwimKind) (g : List GossipUpdate)
    (hgrows : s.seq.toNat ≤ s'.seq.toNat) (hbound : s'.seq.toNat ≤ s.seq.toNat + 1)
    (hown : (∀ t, kind ≠ .ack (some t)) → q = s.seq ∧ s.seq.toNat < s'.seq.toNat) :
    Sends len n s s' [⟨n, ⟨dst, addr, s.buildEnvelope q kind g⟩, owner, some i⟩] := by
  refine ⟨hid, hgrows, hbound, fun x p hx => ?_⟩
  cases x with
  | succ x => cases hx
  | zero =>
    cases hx
    refine ⟨rfl, fun j hj => ?_, _, rfl, hself, fun ho => ?_⟩
    · cases hj
      exact hi
    · obtain ⟨rfl, hlt⟩ := hown ho
      exact ⟨rfl, hlt⟩

theorem sends_one (hseq : s'.seq = s.seq + 1) (hq : s.seq.toNat + 1 < 2^64) (kind : SwimKind)
    (g : List GossipUpdate) :
    Sends len n s s' [⟨n, ⟨dst, addr, s.buildEnvelope s.seq kind g⟩, owner, some i⟩] := by
  have hnext : s'.seq.toNat = s.seq.toNat + 1 := by
    rw [hseq, UInt64.toNat_add, toNat_one]
    omega
  exact sends_packet hid hi hself dst owner addr s.seq kind g (by omega) (by omega)
    fun _ => ⟨rfl, by omega⟩

theorem sends_report (hseq : s'.seq = s.seq) (t : NodeId) (q : UInt64) :
    Sends len n s s' [⟨n, ⟨dst, addr, s.buildEnvelope q (.ack (some t)) []⟩, owner, some i⟩] :=
  sends_packet hid hi hself dst owner addr q _ [] (by rw [hseq]) (by rw [hseq]; omega)
    fun ho => absurd rfl (ho t)

end

theorem sends_tick (len : Nat) (hself : s.selfId = n) (c : Choices) (now : Instant)
    (hq : s.seq.toNat + (s.tick c now).2.outgoing.length < 2^64) :
    Sends len n s (s.tick c now).1
      ((s.tick c now).2.outgoing.map fun out => ⟨n, out, n, none⟩) := by
  obtain ⟨hp, hseq, hid, -⟩ := SwimService.tick_probes c s now
  have hnext : (s.tick c now).1.seq.toNat
      = s.seq.toNat + (s.tick c now).2.outgoing.length := by
    rw [hseq, toNat_add_ofNat hq]
  refine ⟨hid, by omega, by rw [hnext, List.length_map], fun x p hx => ?_⟩
  rw [List.getElem?_map] at hx
  obtain ⟨out, hout, rfl⟩ := Option.map_eq_some_iff.mp hx
  obtain ⟨env, hd, hsrc, hnum, -⟩ := hp.get hq hout
  have hlt : x < (s.tick c now).2.outgoing.length := (List.getElem?_eq_some_iff.mp hout).1
  refine ⟨rfl, nofun, env, hd, hsrc.trans hself, fun _ => ⟨hnum, ?_⟩⟩
  omega

/-! ## the life of a relay -/

/-- a direct ack that answers packet `k` was handled -/
def Answered (log : List Packet) (handled : List Nat) (k : Nat) : Prop :=
  ∃ j ∈ handled, Holds log j fun p env => p.cause = some k ∧ env.kind = .ack none

/-- `h` reported some node on handling an ack with the number `r` -/
def Reported (log : List Packet) (h : NodeId) (r : UInt64) : Prop :=
  ∃ m j, Holds log m (fun p env => p.src = h ∧ p.cause = some j ∧
    ∃ t, env.kind = .ack (some t)) ∧ Number log j r

/-- a relay is open while its number is in the table, and closed by an answer with a report -/
def Status (log : List Packet) (handled : List Nat) (h : NodeId) (s : SwimService) (k : Nat)
    (r : UInt64) : Prop :=
  r ∈ s.relays ∧ ¬ Answered log handled k ∧ ¬ Reported log h r ∨
    r ∉ s.relays ∧ Answered log handled k ∧ Reported log h r

/-- the packet was caused by a ping that its receiver sent to its sender -/
def Answers (log : List Packet) (p : Packet) : Prop :=
  ∃ k, p.cause = some k ∧
    Holds log k fun pk ek => pk.src = p.dst ∧ pk.dst = p.src ∧ ek.kind = .ping

structure Traced (cl : Cluster) : Prop extends Numbered cl where
  acks : ∀ p ∈ cl.log, ∀ env, p.env = some env → env.kind = .ack none → Answers cl.log p
  relays : ∀ n s r e, cl.services n = some s → s.relays.lookup r = some e →
    ∃ i k, Request cl.log i e.origin n e.target e.originSeq ∧ RelayPing cl.log i k n e.target r
  status : ∀ i k h t r s, RelayPing cl.log i k h t r → cl.services h = some s →
    Status cl.log cl.handled h s k r
  served : ∀ i o h t q, i ∈ cl.handled → Request cl.log i o h t q →
    ∃ k r, RelayPing cl.log i k h t r
  reports : ∀ m h o t q, Holds cl.log m (fun p env => p.src = h ∧ p.dst = o ∧ env.seq = q ∧
      env.kind = .ack (some t)) →
    ∃ i j k r, Report cl.log j m h o t q ∧ j ∈ cl.handled ∧ Answer cl.log k j t h r ∧
      RelayPing cl.log i k h t r ∧ Request cl.log i o h t q

section
variable {new : List Packet} {extra : List Nat} {k : Nat} {h : NodeId} {r : UInt64}

theorem Answered.append (ha : Answered cl.log cl.handled k) :
    Answered (cl.log ++ new) (cl.handled ++ extra) k := by
  obtain ⟨j, hj, hh⟩ := ha
  exact ⟨j, List.mem_append_left _ hj, hh.append⟩

theorem Reported.append (hr : Reported cl.log h r) : Reported (cl.log ++ new) h r := by
  obtain ⟨m, j, hm, hj⟩ := hr
  exact ⟨m, j, hm.append, hj.append⟩

variable (hn : Numbered cl)
include hn

theorem Answered.cases (hx : ∀ x ∈ extra, x < cl.log.length)
    (ha : Answered (cl.log ++ new) (cl.handled ++ extra) k) :
    Answered cl.log cl.handled k ∨
      ∃ x ∈ extra, Holds cl.log x fun p env => p.cause = some k ∧ env.kind = .ack none := by
  obtain ⟨j, hj, hh⟩ := ha
  rcases List.mem_append.mp hj with hj | hj
  · exact .inl ⟨j, hj, hh.old (hn.handled j hj)⟩
  · exact .inr ⟨j, hj, hh.old (hx j hj)⟩

theorem Reported.cases (hr : Reported (cl.log ++ new) h r) :
    Reported cl.log h r ∨ ∃ p ∈ new, ∃ env j t, p.env = some env ∧ p.src = h ∧
      p.cause = some j ∧ env.kind = .ack (some t) ∧ Number (cl.log ++ new) j r := by
  obtain ⟨m, j, hm, hj⟩ := hr
  rcases hm.cases with ⟨p, env, hp, he, hP⟩ | ⟨-, p, env, hp, he, hsrc, hc, t, ht⟩
  · have hjm := hn.causes m p j hp hP.2.1
    have hml := (List.getElem?_eq_some_iff.mp hp).1
    exact .inl ⟨m, j, ⟨p, env, hp, he, hP⟩, hj.old (by omega)⟩
  · exact .inr ⟨p, List.mem_of_getElem? hp, env, j, t, he, hsrc, hc, ht, hj⟩

theorem Numbered.answered_lt (ha : Answered cl.log cl.handled k) : k < cl.log.length := by
  obtain ⟨j, hj, p, env, hp, -, hc, -⟩ := ha
  have h1 := hn.causes j p k hp hc
  have h2 := hn.handled j hj
  omega

end

/-! ## the invariant along a step -/

section
variable {new : List Packet} {extra : List Nat}

/-- what the packets of a step that is not part of a relay look like -/
structure Unrelayed (log new : List Packet) : Prop where
  ping : ∀ p ∈ new, ∀ env, p.env = some env → env.kind = .ping → p.cause = none
  report : ∀ p ∈ new, ∀ env t, p.env = some env → env.kind ≠ .ack (some t)
  ack : ∀ p ∈ new, ∀ env, p.env = some env → env.kind = .ack none → Answers log p

theorem unrelayed_nil (log : List Packet) : Unrelayed log [] where
  ping := nofun
  report := nofun
  ack := nofun

variable (h : Traced cl) {i k : Nat} {t : NodeId} {r : UInt64}
include h

theorem Traced.acks_append
    (hnew : ∀ p ∈ new, ∀ env, p.env = some env → env.kind = .ack none → Answers cl.log p)
    (p : Packet) (hp : p ∈ cl.log ++ new) (env : SwimEnvelope) (he : p.env = some env)
    (hk : env.kind = .ack none) : Answers (cl.log ++ new) p := by
  have hans : Answers cl.log p := by
    rcases List.mem_append.mp hp with hp | hp
    · exact h.acks p hp env he hk
    · exact hnew p hp env he hk
  obtain ⟨k, hc, hping⟩ := hans
  exact ⟨k, hc, hping.append⟩

theorem Traced.reports_append {m : Nat} {n o : NodeId} (hm : Holds cl.log m fun p env =>
      p.src = n ∧ p.dst = o ∧ env.seq = q ∧ env.kind = .ack (some t)) :
    ∃ i j k r, Report (cl.log ++ new) j m n o t q ∧ j ∈ cl.handled ++ extra ∧
      Answer (cl.log ++ new) k j t n r ∧ RelayPing (cl.log ++ new) i k n t r ∧
      Request (cl.log ++ new) i o n t q := by
  obtain ⟨i, j, k, r, h1, h2, h3, h4, h5⟩ := h.reports m n o t q hm
  exact ⟨i, j, k, r, h1.append, List.mem_append_left _ h2, h3.append, h4.append, h5.append⟩

theorem Traced.served_append (hx : ∀ x ∈ extra, x < cl.log.length)
    (hnew : ∀ x ∈ extra, ∀ o n t q, Request cl.log x o n t q →
      ∃ k r, RelayPing (cl.log ++ new) x k n t r)
    (i : Nat) (o n t : NodeId) (q : UInt64) (hi : i ∈ cl.handled ++ extra)
    (hr : Request (cl.log ++ new) i o n t q) : ∃ k r, RelayPing (cl.log ++ new) i k n t r := by
  rcases List.mem_append.mp hi with hi | hi
  · obtain ⟨k, r, hk⟩ := h.served i o n t q hi (hr.old (h.handled i hi))
    exact ⟨k, r, hk.append⟩
  · exact hnew i hi o n t q (hr.old (hx i hi))

theorem Traced.ping_lt (hs : cl.services n = some s) (hk : RelayPing cl.log i k n t r) :
    r.toNat < s.seq.toNat :=
  h.number_lt hs hk.numbered

theorem Traced.reported_lt (hs : cl.services n = some s) (hr : Reported cl.log n r) :
    r.toNat < s.seq.toNat := by
  obtain ⟨m, j, hm, hj⟩ := hr
  obtain ⟨p, env, hp, he, hsrc, -, t, ht⟩ := id hm
  obtain ⟨i, j', k, r', hrep, -, hans, hping, -⟩ :=
    h.reports m n p.dst t env.seq ⟨p, env, hp, he, hsrc, rfl, rfl, ht⟩
  obtain ⟨_, _, ⟨hc', -⟩, -, hc, -⟩ := hrep.both hm
  cases hc.symm.trans hc'
  obtain ⟨_, _, ⟨-, -, -, hr', -⟩, hr⟩ := hans.both hj
  obtain rfl := hr.symm.trans hr'
  exact h.ping_lt hs hping

variable (hs : cl.services n = some s)
include hs

theorem Traced.relays_append
    (hnew : ∀ r e, s'.relays.lookup r = some e → s.relays.lookup r = some e ∨
      ∃ i k, Request (cl.log ++ new) i e.origin n e.target e.originSeq ∧
        RelayPing (cl.log ++ new) i k n e.target r)
    (m : NodeId) (sm : SwimService) (r : UInt64) (e : RelayEntry)
    (hm : (cl.set n s').services m = some sm) (hl : sm.relays.lookup r = some e) :
    ∃ i k, Request (cl.log ++ new) i e.origin m e.target e.originSeq ∧
      RelayPing (cl.log ++ new) i k m e.target r := by
  have hold : ∀ sm, cl.services m = some sm → sm.relays.lookup r = some e →
      ∃ i k, Request (cl.log ++ new) i e.origin m e.target e.originSeq ∧
        RelayPing (cl.log ++ new) i k m e.target r := by
    intro sm hm hl
    obtain ⟨i, k, hi, hk⟩ := h.relays m sm r e hm hl
    exact ⟨i, k, hi.append, hk.append⟩
  rcases Cluster.set_cases hm with ⟨rfl, rfl⟩ | ⟨-, hm⟩
  · exact (hnew r e hl).elim (hold s hs) id
  · exact hold sm hm hl

variable (hx : ∀ x ∈ extra, x < cl.log.length)
include hx

/-- a relay keeps its status, unless its answer is handled or reported -/
theorem Traced.status_append {m : NodeId} {sm : SwimService}
    (hold : RelayPing cl.log i k m t r) (hm : (cl.set n s').services m = some sm)
    (hmem : m = n → (r ∈ s'.relays ↔ r ∈ s.relays))
    (hans : ∀ x ∈ extra, Holds cl.log x (fun p env => p.cause = some k ∧ env.kind = .ack none) →
      ∀ sm, cl.services m = some sm → r ∉ sm.relays)
    (hrep : ∀ p ∈ new, ∀ env j t, p.env = some env → p.src = m → p.cause = some j →
      env.kind = .ack (some t) → ¬ Number (cl.log ++ new) j r) :
    Status (cl.log ++ new) (cl.handled ++ extra) m sm k r := by
  obtain ⟨sm₀, hm₀, hsame⟩ : ∃ sm₀, cl.services m = some sm₀ ∧
      (r ∈ sm.relays ↔ r ∈ sm₀.relays) := by
    rcases Cluster.set_cases hm with ⟨rfl, rfl⟩ | ⟨-, hm⟩
    · exact ⟨s, hs, hmem rfl⟩
    · exact ⟨sm, hm, Iff.rfl⟩
  rcases h.status i k m t r sm₀ hold hm₀ with ⟨hr, hna, hnr⟩ | ⟨hr, ha, hr'⟩
  · refine .inl ⟨hsame.mpr hr, fun ha => ?_, fun hr' => ?_⟩
    · rcases ha.cases h.toNumbered hx with ha | ⟨x, hxe, hh⟩
      · exact hna ha
      · exact hans x hxe hh sm₀ hm₀ hr
    · rcases hr'.cases h.toNumbered with hr' | ⟨p, hp, env, j, t, he, hsrc, hc, ht, hj⟩
      · exact hnr hr'
      · exact hrep p hp env j t he hsrc hc ht hj
  · exact .inr ⟨fun hm => hr (hsame.mp hm), ha.append, hr'.append⟩

theorem Traced.unrelayed (hplain : Unrelayed cl.log new)
    (hrel : ∀ r, s'.relays.lookup r = s.relays.lookup r) (hsend : Sends cl.log.length n s s' new)
    (hreq : ∀ x ∈ extra, ∀ o n t q, ¬ Request cl.log x o n t q)
    (hans : ∀ x ∈ extra, ∀ k, Holds cl.log x (fun p env => p.cause = some k ∧ env.kind = .ack none)
      → ∀ i m t r sm, RelayPing cl.log i k m t r → cl.services m = some sm → r ∉ sm.relays) :
    Traced ⟨(cl.set n s').services, cl.log ++ new, cl.handled ++ extra⟩ := by
  refine ⟨h.update hs hsend hx, h.acks_append hplain.ack,
    h.relays_append hs fun r e hl => .inl (hrel r ▸ hl), ?_,
    h.served_append hx fun x hxe o n t q hr => absurd hr (hreq x hxe o n t q), ?_⟩
  · intro i k m t r sm hk hm
    rcases hk.cases with hold | ⟨-, p, env, hp, he, hc, -, -, -, hping⟩
    · refine h.status_append hs hx hold hm ?_ ?_ ?_
      · intro _
        rw [← AList.lookup_isSome, ← AList.lookup_isSome, hrel]
      · exact fun x hxe hh sm hm => hans x hxe k hh i m t r sm hold hm
      · exact fun p hp env j t' he _ _ hk' => absurd hk' (hplain.report p hp env t' he)
    · rw [hplain.ping p (List.mem_of_getElem? hp) env he hping] at hc
      cases hc
  · intro m n o t q hm
    rcases hm.cases with hold | ⟨-, p, env, hp, he, -, -, -, hk⟩
    · exact h.reports_append hold
    · exact absurd hk (hplain.report p (List.mem_of_getElem? hp) env t he)

omit hx

theorem Traced.opened {e : RelayEntry} {pk : Packet}
    (hreq : Request cl.log i e.origin n e.target e.originSeq)
    (hping : RelayPing [pk] i 0 n e.target s.seq) (hrel : s'.relays = s.relays.insert s.seq e)
    (hsend : Sends cl.log.length n s s' [pk]) :
    Traced ⟨(cl.set n s').services, cl.log ++ [pk], cl.handled ++ [i]⟩ := by
  have hx : ∀ x ∈ [i], x < cl.log.length := List.forall_mem_singleton.mpr hreq.lt
  have hnew : RelayPing (cl.log ++ [pk]) i cl.log.length n e.target s.seq := hping.snoc
  have hnot : ∀ p ∈ [pk], ∀ env about, p.env = some env → env.kind ≠ .ack about := by
    intro p hp env about he hk
    rw [(hping.one p hp env he).2.2.2.2] at hk
    cases hk
  have hans : ∀ x ∈ [i], ∀ k, ¬ Holds cl.log x
      fun p env => p.cause = some k ∧ env.kind = .ack none := by
    refine List.forall_mem_singleton.mpr fun k hh => ?_
    obtain ⟨_, _, ⟨-, -, -, a, ha⟩, -, hk⟩ := hreq.both hh
    rw [ha] at hk
    cases hk
  refine ⟨h.update hs hsend hx, h.acks_append fun p hp env he hk => absurd hk (hnot p hp env none he),
    h.relays_append hs fun r f hl => ?_, ?_, h.served_append hx ?_, ?_⟩
  · rw [hrel] at hl
    rcases HashMap.of_lookup_insert hl with ⟨rfl, rfl⟩ | ⟨-, hl⟩
    · exact .inr ⟨i, _, hreq.append, hnew⟩
    · exact .inl hl
  · intro i' k m t r sm hk hm
    rcases hk.snoc_cases with hold | ⟨rfl, hk'⟩
    · -- an old relay
      refine h.status_append hs hx hold hm ?_ ?_ ?_
      · rintro rfl
        have hlt := h.ping_lt hs hold
        have hne : r ≠ s.seq := fun hr => by rw [hr] at hlt; omega
        rw [hrel, AList.mem_insert]
        exact ⟨fun hr => hr.resolve_left hne, .inr⟩
      · exact fun x hxe hh => absurd hh (hans x hxe k)
      · exact fun p hp env j t' he _ _ hk' => absurd hk' (hnot p hp env _ he)
    · -- the relay just opened
      obtain ⟨_, _, ⟨-, hn, -, hr, -⟩, -, hn', -, hr', -⟩ := hping.both hk'
      obtain rfl := hn.symm.trans hn'
      obtain rfl := hr.symm.trans hr'
      rw [Cluster.set_services, if_pos rfl] at hm
      cases hm
      refine .inl ⟨by rw [hrel, AList.mem_insert]; exact .inl rfl, fun ha => ?_, fun hr => ?_⟩
      · rcases ha.cases h.toNumbered hx with ha | ⟨x, hxe, hh⟩
        · exact lt_irrefl _ (h.answered_lt ha)
        · exact hans x hxe _ hh
      · rcases hr.cases h.toNumbered with hr | ⟨p, hp, env, j, t', he, -, -, hk', -⟩
        · exact lt_irrefl _ (h.reported_lt hs hr)
        · exact hnot p hp env _ he hk'
  · refine List.forall_mem_singleton.mpr fun o m t q hr => ?_
    obtain ⟨_, _, ⟨-, hd, -, a, ha⟩, -, hd', -, a', ha'⟩ := hreq.both hr
    rw [ha] at ha'
    cases ha'
    rw [← hd', hd]
    exact ⟨_, _, hnew⟩
  · intro m n o t q hm
    rcases hm.cases with hold | ⟨-, p, env, hp, he, -, -, -, hk⟩
    · exact h.reports_append hold
    · exact absurd hk (hnot p (List.mem_of_getElem? hp) env _ he)

theorem Traced.closed {i₀ : Nat} {e : RelayEntry} {pk : Packet}
    (hans : Answer cl.log k i e.target n r) (hping : RelayPing cl.log i₀ k n e.target r)
    (hreq : Request cl.log i₀ e.origin n e.target e.originSeq)
    (hrep : Report [pk] i 0 n e.origin e.target e.originSeq) (hrel : s'.relays = s.relays.erase r)
    (hsend : Sends cl.log.length n s s' [pk]) :
    Traced ⟨(cl.set n s').services, cl.log ++ [pk], cl.handled ++ [i]⟩ := by
  have hx : ∀ x ∈ [i], x < cl.log.length := List.forall_mem_singleton.mpr hans.lt
  have hnew : Report (cl.log ++ [pk]) i cl.log.length n e.origin e.target e.originSeq := hrep.snoc
  have hi : i ∈ cl.handled ++ [i] := List.mem_append_right _ (List.mem_singleton_self i)
  refine ⟨h.update hs hsend hx, h.acks_append ?_,
    h.relays_append hs fun r' f hl => .inl (HashMap.of_lookup_erase (hrel ▸ hl)).2, ?_,
    h.served_append hx ?_, ?_⟩
  · intro p hp env he hk
    rw [(hrep.one p hp env he).2.2.2.2] at hk
    cases hk
  · intro i' k' m t r' sm hk' hm
    have hold : RelayPing cl.log i' k' m t r' := by
      rcases hk'.snoc_cases with hk' | ⟨-, hk'⟩
      · exact hk'
      · obtain ⟨_, _, ⟨-, -, -, -, h1⟩, -, -, -, -, h2⟩ := hrep.both hk'
        rw [h1] at h2
        cases h2
    by_cases hsame : m = n ∧ r' = r
    · -- the relay just closed
      obtain ⟨rfl, rfl⟩ := hsame
      rw [Cluster.set_services, if_pos rfl] at hm
      cases hm
      obtain rfl := h.unique k' k m r' hold.numbered hping.numbered
      refine .inr ⟨?_, ⟨i, hi, ?_⟩, cl.log.length, i, ?_, ?_⟩
      · rw [hrel, AList.mem_erase]
        exact fun hr => hr.1 rfl
      · exact (hans.mono fun p env hp => ⟨hp.1, hp.2.2.2.2⟩).append
      · exact hnew.mono fun p env hp => ⟨hp.2.1, hp.1, e.target, hp.2.2.2.2⟩
      · exact (hans.mono fun p env hp => hp.2.2.2.1).append
    · -- another relay
      refine h.status_append hs hx hold hm ?_ ?_ ?_
      · intro hmn
        rw [hrel, AList.mem_erase]
        exact ⟨fun hr => hr.2, fun hr => ⟨fun hrr => hsame ⟨hmn, hrr⟩, hr⟩⟩
      · refine List.forall_mem_singleton.mpr fun hh => ?_
        obtain ⟨_, _, ⟨hc, -⟩, hc', -⟩ := hans.both hh
        cases hc.symm.trans hc'
        obtain ⟨_, _, ⟨-, h1, -, h2, -⟩, -, h3, -, h4, -⟩ := hold.both hping
        exact absurd ⟨h1.symm.trans h3, h2.symm.trans h4⟩ hsame
      · intro p hp env j t' he hsrc hc _ hj
        obtain ⟨hc', hsrc', -⟩ := hrep.one p hp env he
        cases hc.symm.trans hc'
        obtain ⟨_, _, h1, -, -, -, h2, -⟩ := (hj.old hans.lt).both hans
        exact hsame ⟨hsrc.symm.trans hsrc', h1.symm.trans h2⟩
  · refine List.forall_mem_singleton.mpr fun o m t q hr => ?_
    obtain ⟨_, _, ⟨-, -, -, -, h1⟩, -, -, -, a, h2⟩ := hans.both hr
    rw [h1] at h2
    cases h2
  · intro m n' o t q hm
    rcases hm.snoc_cases with hold | ⟨rfl, hm'⟩
    · exact h.reports_append hold
    · obtain ⟨_, _, ⟨-, h1, h2, h3, h4⟩, h5, h6, h7, h8⟩ := hrep.both hm'
      obtain rfl := h1.symm.trans h5
      obtain rfl := h2.symm.trans h6
      obtain rfl := h3.symm.trans h7
      cases h4.symm.trans h8
      exact ⟨i₀, i, k, r, hnew, hi, hans.append, hping.append, hreq.append⟩

end

/-! ## the invariant along a run -/

section
variable (h : Traced cl)
include h

theorem Traced.own (hs : cl.services n = some s) (hplain : Unrelayed cl.log new)
    (hrel : ∀ r, s'.relays.lookup r = s.relays.lookup r) (hsend : Sends cl.log.length n s s' new) :
    Traced ⟨(cl.set n s').services, cl.log ++ new, cl.handled⟩ := by
  have hno : ∀ {P : Nat → Prop}, ∀ x ∈ ([] : List Nat), P x := nofun
  have hT := h.unrelayed hs hno hplain hrel hsend hno hno
  rw [List.append_nil] at hT
  exact hT

theorem Traced.addSeed (hs : cl.services n = some s) (id : NodeId) (addr : SocketAddr) :
    Traced (cl.set n (s.addSeed id addr)) := by
  obtain ⟨l, hl⟩ := s.addSeed_eq id addr
  have hT : Traced ⟨(cl.set n { s with members := l }).services, cl.log ++ [], cl.handled⟩ :=
    h.own hs (unrelayed_nil _) (fun _ => rfl) (sends_nothing rfl rfl)
  rw [List.append_nil] at hT
  rw [hl]
  exact hT

theorem Traced.tick (hs : cl.services n = some s) (c : Choices) (now : Instant)
    (hlen : (cl.afterTick n c now s).log.length < 2^64 - 1) :
    Traced (cl.afterTick n c now s) := by
  have hcount := h.counter n s hs
  unfold Cluster.afterTick Cluster.send at hlen ⊢
  rw [List.length_append, List.length_map] at hlen
  change cl.log.length + _ < _ at hlen
  have hq : s.seq.toNat + (s.tick c now).2.outgoing.length < 2^64 := by omega
  obtain ⟨hp, -, -, hrel⟩ := SwimService.tick_probes c s now
  have hnot : ∀ p ∈ (s.tick c now).2.outgoing.map (fun out => (⟨n, out, n, none⟩ : Packet)),
      p.cause = none ∧ ∀ env about, p.env = some env → env.kind ≠ .ack about := by
    intro p hpm
    obtain ⟨out, hout, rfl⟩ := List.mem_map.mp hpm
    obtain ⟨x, hx⟩ := List.mem_iff_getElem?.mp hout
    obtain ⟨env, hd, -, -, hk⟩ := hp.get hq hx
    refine ⟨rfl, fun env' about he => ?_⟩
    cases hd.symm.trans he
    exact hk about
  refine h.own hs ⟨?_, ?_, ?_⟩ (fun r => by rw [hrel]) (sends_tick _ (h.selfId n s hs) c now hq)
  · exact fun p hpm env he _ => (hnot p hpm).1
  · exact fun p hpm env t he => (hnot p hpm).2 env _ he
  · exact fun p hpm env he hk => absurd hk ((hnot p hpm).2 env _ he)

variable (hp : cl.log[i]? = some p) (he : p.env = some env)
include hp he

/-- a step in which a node handles packet `i`, which is neither a request nor answers a relay -/
theorem Traced.other (hs : cl.services n = some s) (hplain : Unrelayed cl.log new)
    (hrel : ∀ r, s'.relays.lookup r = s.relays.lookup r) (hsend : Sends cl.log.length n s s' new)
    (hreq : ∀ t a, env.kind ≠ .pingReq t a)
    (hans : env.kind = .ack none → ∀ k, p.cause = some k →
      ∀ i m t r sm, RelayPing cl.log i k m t r → cl.services m = some sm → r ∉ sm.relays) :
    Traced ⟨(cl.set n s').services, cl.log ++ new, cl.handled ++ [i]⟩ := by
  have hself : Holds cl.log i fun p' env' => p' = p ∧ env' = env := ⟨p, env, hp, he, rfl, rfl⟩
  refine h.unrelayed hs (List.forall_mem_singleton.mpr hself.lt) hplain hrel hsend ?_ ?_
  · refine List.forall_mem_singleton.mpr fun o m t q hr => ?_
    obtain ⟨_, _, ⟨-, -, -, a, ha⟩, -, rfl⟩ := hr.both hself
    exact hreq t a ha
  · refine List.forall_mem_singleton.mpr fun k hh => ?_
    obtain ⟨_, _, ⟨hc, hk⟩, rfl, rfl⟩ := hh.both hself
    exact hans hk k hc

variable (hs : cl.services p.dst = some s) (hok : NumbersMatch cl (.deliver i c))
include hs hok

theorem Traced.directAck (hk : env.kind = .ack none) : Traced (cl.afterDeliver i c p s) := by
  obtain ⟨hid, hseq, hrel, hout⟩ := SwimService.handleFrame_directAck (c := c) (s := s) he hk
  obtain ⟨k, hc, hkp⟩ := h.acks p (List.mem_of_getElem? hp) env he hk
  obtain ⟨pk, ek, hpk, hek, hksrc, hkdst, hkping⟩ := id hkp
  have hmatch := hok p env k pk ek s hp he hk hc hpk hek hs
  unfold Cluster.afterDeliver Cluster.send
  rw [hout]
  cases hl : s.relays.lookup env.seq with
  | none =>
    have hgone : env.seq ∉ s.relays := AList.lookup_eq_none.mp hl
    refine h.other hp he hs (unrelayed_nil _) ?_ (sends_nothing hid hseq) (by simp [hk]) ?_
    · intro r
      rw [hrel, HashMap.lookup_erase_if]
      split
      next hr => rw [hr, hl]
      next => rfl
    · intro _ k' hc' i' m t r sm hping hm hr
      cases hc.symm.trans hc'
      obtain ⟨_, _, ⟨-, hsrc, -, rfl, -⟩, rfl, rfl⟩ := hping.both
        (Q := fun p' e' => p' = pk ∧ e' = ek) ⟨pk, ek, hpk, hek, rfl, rfl⟩
      rw [← hsrc, hksrc, hs] at hm
      cases hm
      rw [hmatch (.inr hr)] at hgone
      exact hgone hr
  | some e =>
    have hnum := hmatch (.inl (HashMap.mem_of_lookup hl))
    obtain ⟨i₀, k₀, hreq, hping⟩ := h.relays _ s env.seq e hs hl
    obtain rfl := h.unique k₀ k _ _ hping.numbered
      ⟨pk, ek, hpk, hek, hksrc, own_of_ping hkping, hnum.symm⟩
    obtain ⟨_, _, ⟨-, -, hdst, -⟩, -, hdst', -⟩ := hping.both hkp
    have hans : Answer cl.log k₀ i e.target p.dst env.seq :=
      ⟨p, env, hp, he, hc, hdst'.symm.trans hdst, rfl, rfl, hk⟩
    exact h.closed hs hans hping hreq ⟨_, _, rfl, rfl, rfl, rfl, rfl, rfl, rfl⟩ hrel
      (sends_report hid hans.lt (h.selfId _ s hs) e.origin p.owner e.originAddr hseq e.target _)

theorem Traced.deliver (hlen : (cl.afterDeliver i c p s).log.length < 2^64 - 1)
    (hsrc : env.source = p.src) : Traced (cl.afterDeliver i c p s) := by
  have hi : i < cl.log.length := (List.getElem?_eq_some_iff.mp hp).1
  have hself := h.selfId _ s hs
  have hcount := h.counter _ s hs
  cases hk : env.kind with
  | ping =>
    obtain ⟨hid, hseq, hrel, g, hout⟩ :=
      SwimService.handleFrame_ping (c := c) (s := s) he hk
    unfold Cluster.afterDeliver Cluster.send at hlen ⊢
    rw [hout] at hlen ⊢
    rw [List.length_append, List.length_map] at hlen
    change cl.log.length + 1 < _ at hlen
    refine h.other hp he hs ⟨?_, ?_, ?_⟩ (fun r => by rw [hrel]) (sends_one hid hi hself env.source
      p.owner env.sourceAddr hseq (by omega) (.ack none) g) (by simp [hk]) (by simp [hk])
    · refine List.forall_mem_singleton.mpr fun env' he' hk' => ?_
      cases he'
      cases hk'
    · refine List.forall_mem_singleton.mpr fun env' t he' hk' => ?_
      cases he'
      cases hk'
    · exact List.forall_mem_singleton.mpr fun _ _ _ => ⟨i, rfl, p, env, hp, he, hsrc.symm, rfl, hk⟩
  | ack about =>
    cases about with
    | none => exact h.directAck hp he hs hok hk
    | some t =>
      obtain ⟨hid, hseq, hrel, hout⟩ :=
        SwimService.handleFrame_relayedAck (c := c) (s := s) he hk
      unfold Cluster.afterDeliver Cluster.send
      rw [hout]
      exact h.other hp he hs (unrelayed_nil _) (fun r => by rw [hrel]) (sends_nothing hid hseq)
        (by simp [hk]) (by simp [hk])
  | pingReq t addr =>
    obtain ⟨hid, hseq, hrel, hout⟩ :=
      SwimService.handleFrame_pingReq (c := c) (s := s) he hk
    unfold Cluster.afterDeliver Cluster.send at hlen ⊢
    rw [hout] at hlen ⊢
    rw [List.length_append, List.length_map] at hlen
    change cl.log.length + 1 < _ at hlen
    exact h.opened (e := ⟨env.source, env.sourceAddr, env.seq, t⟩) hs
      ⟨p, env, hp, he, rfl, rfl, rfl, addr, hk⟩ ⟨_, _, rfl, rfl, rfl, rfl, rfl, rfl, rfl⟩ hrel
      (sends_one hid hi hself t p.owner addr hseq (by omega) .ping [])

end

theorem Traced.start (h : clusterMachine.start cl) : Traced cl := by
  obtain ⟨services, log, handled⟩ := cl
  obtain ⟨rfl, rfl, hnew⟩ := h
  have hno : ∀ i P, ¬ Holds [] i P := fun i P hh => Nat.not_lt_zero i hh.lt
  refine ⟨⟨?_, ?_, ?_, ?_, ?_, ?_⟩, ?_, ?_, ?_, ?_, ?_⟩
  · intro n s hs
    obtain ⟨addr, config, cert, rfl⟩ := hnew n s hs
    rfl
  · intro n s hs
    obtain ⟨addr, config, cert, rfl⟩ := hnew n s hs
    exact le_refl 1
  · exact nofun
  · exact fun i j n q hi => (hno i _ hi).elim
  · exact nofun
  · exact nofun
  · exact nofun
  · intro n s r e hs hl
    obtain ⟨addr, config, cert, rfl⟩ := hnew n s hs
    cases hl
  · exact fun i k h t r s hk => (hno k _ hk).elim
  · exact fun i o h t q _ hi => (hno i _ hi).elim
  · exact fun m h o t q hm => (hno m _ hm).elim

theorem log_length_le {cl' : Cluster} {a : Cluster.Step} (h : cl.next a = some cl') :
    cl.log.length ≤ cl'.log.length := by
  rcases Cluster.next_cases h with ⟨n, id, addr, s, -, -, rfl⟩ | ⟨n, c, now, s, -, -, rfl⟩ |
    ⟨i, c, p, s, -, -, -, rfl⟩
  · exact le_refl _
  · exact List.length_append ▸ Nat.le_add_right _ _
  · exact List.length_append ▸ Nat.le_add_right _ _

/-- **The relays of a run.**  They are traced as long as the counters cannot have wrapped. -/
theorem traced_of_reach (h : clusterMachine.Reach NumbersMatch cl)
    (hlen : cl.log.length < 2^64 - 1) : Traced cl := by
  refine Machine.Reach.inv (I := fun cl => cl.log.length < 2^64 - 1 → Traced cl) ?_ ?_ h hlen
  · exact fun cl hstart _ => .start hstart
  · intro cl a cl' hT hok hnext hlen'
    have hT := hT (lt_of_le_of_lt (log_length_le hnext) hlen')
    rcases Cluster.next_cases hnext with ⟨n, id, addr, s, rfl, hs, rfl⟩ |
      ⟨n, c, now, s, rfl, hs, rfl⟩ | ⟨i, c, p, s, rfl, hp, hs, rfl⟩
    · exact hT.addSeed hs id addr
    · exact hT.tick hs c now hlen'
    · obtain ⟨env, -, he, hsrc, -⟩ := hT.sent p (List.mem_of_getElem? hp)
      exact hT.deliver hp he hs hok hlen' hsrc

theorem Traced.report_of (h : Traced cl) {j k m : Nat} {o t t' : NodeId} {r : UInt64}
    (hping : RelayPing cl.log i k n t r) (hnum : Number cl.log j r)
    (hrep : Report cl.log j m n o t' q) :
    t' = t ∧ j ∈ cl.handled ∧ Answer cl.log k j t n r ∧ Request cl.log i o n t q := by
  obtain ⟨i', j', k', r', hrep', hj, hans, hping', hreq⟩ :=
    h.reports m n o t' q (hrep.mono fun p env hp => hp.2)
  obtain ⟨_, _, ⟨h1, -⟩, h2, -⟩ := hrep.both hrep'
  cases h1.symm.trans h2
  obtain ⟨_, _, h1, -, -, -, h2, -⟩ := hnum.both hans
  obtain rfl := h1.symm.trans h2
  obtain rfl := h.unique k k' n r hping.numbered hping'.numbered
  obtain ⟨_, _, ⟨h1, -, h2, -⟩, h3, -, h4, -⟩ := hping.both hping'
  cases h1.symm.trans h3
  obtain rfl := h2.symm.trans h4
  exact ⟨rfl, hj, hans, hreq⟩

/-- **Relayed probes are faithful when the numbers match.**  A request that is handled is followed
by a ping to its target; the helper reports the target for that request exactly when it handles an
ack that the target sent in reply to that ping; and every report comes from such a request, ping and
ack. -/
theorem relays_faithful (h : clusterMachine.Reach NumbersMatch cl)
    (hlen : cl.log.length < 2^64 - 1) :
    (∀ i o n t q, i ∈ cl.handled → Request cl.log i o n t q →
      ∃ k r, RelayPing cl.log i k n t r) ∧
    (∀ i o n t q k r, Request cl.log i o n t q → RelayPing cl.log i k n t r →
      ((∃ j m, Report cl.log j m n o t q ∧ Number cl.log j r) ↔
        ∃ j ∈ cl.handled, ∃ q', Answer cl.log k j t n q')) ∧
    ∀ m n o t q, Holds cl.log m (fun p env => p.src = n ∧ p.dst = o ∧ env.seq = q ∧
        env.kind = .ack (some t)) →
      ∃ i j k r, Report cl.log j m n o t q ∧ j ∈ cl.handled ∧ Answer cl.log k j t n r ∧
        RelayPing cl.log i k n t r ∧ Request cl.log i o n t q := by
  have hT := traced_of_reach h hlen
  refine ⟨hT.served, fun i o n t q k r hreq hping => ⟨fun hrep => ?_, fun hans => ?_⟩, hT.reports⟩
  · obtain ⟨j, m, hrep, hnum⟩ := hrep
    obtain ⟨-, hj, hans, -⟩ := hT.report_of hping hnum hrep
    exact ⟨j, hj, r, hans⟩
  · obtain ⟨j, hj, q', hans⟩ := hans
    obtain ⟨s, hs⟩ : ∃ s, cl.services n = some s := by
      obtain ⟨p, env, hp, -, -, hsrc, -⟩ := hping
      obtain ⟨-, s, -, -, hs, -⟩ := hT.sent p (List.mem_of_getElem? hp)
      exact ⟨s, by rw [← hsrc, hs]⟩
    have hanswered : Answered cl.log cl.handled k :=
      ⟨j, hj, hans.mono fun p env hp => ⟨hp.1, hp.2.2.2.2⟩⟩
    rcases hT.status i k n t r s hping hs with ⟨-, hno, -⟩ | ⟨-, -, m, j', hm, hnum⟩
    · exact absurd hanswered hno
    · obtain ⟨p', env', hp', he', hsrc', hc', t', hk'⟩ := hm
      have hrep : Report cl.log j' m n p'.dst t' env'.seq :=
        ⟨p', env', hp', he', hc', hsrc', rfl, rfl, hk'⟩
      obtain ⟨rfl, -, -, hreq'⟩ := hT.report_of hping hnum hrep
      obtain ⟨_, _, ⟨h1, -, h2, -⟩, h3, -, h4, -⟩ := hreq.both hreq'
      rw [← h3, h1, ← h4, h2] at hrep
      exact ⟨j', m, hrep, hnum⟩

/-- four fresh services that ask one helper for an indirect probe -/
private def quartet : Cluster where
  services := fun n =>
    if n ≤ 4 then some (SwimService.new n .home (.helpedBy 1) none) else none
  log := []
  handled := []

private theorem quartet_start : clusterMachine.start quartet := by
  refine ⟨rfl, rfl, fun n s hs => ⟨.home, .helpedBy 1, none, ?_⟩⟩
  obtain ⟨-, hs⟩ := Option.ite_none_right_eq_some.mp hs
  exact (Option.some.inj hs).symm

/-- node 1 misses an ack of node 3 and asks node 2 to probe it -/
private def asking : List Cluster.Step :=
  [.addSeed 1 2 .home, .addSeed 1 3 .home, .tick 1 (.probing 3) 0, .tick 1 (.probing 2) 10]

/-- without another step the counters of nodes 2 and 3 coincide -/
theorem relays_faithful_fresh : ∃ cl, clusterMachine.Reach NumbersMatch cl ∧
    cl.log.length < 2^64 - 1 ∧ Request cl.log 1 1 2 3 2 ∧ RelayPing cl.log 1 3 2 3 1 ∧
    (∃ j ∈ cl.handled, ∃ q, Answer cl.log 3 j 3 2 q) ∧
    ∃ j m, Report cl.log j m 2 1 3 2 ∧ Number cl.log j 1 := by
  have h0 : clusterMachine.Reach NumbersMatch quartet := .start quartet_start
  have h1 := h0.step (a := Cluster.Step.addSeed 1 2 .home) trivial rfl
  have h2 := h1.step (a := Cluster.Step.addSeed 1 3 .home) trivial rfl
  have h3 := h2.step (a := Cluster.Step.tick 1 (.probing 3) 0) trivial rfl
  have h4 := h3.step (a := Cluster.Step.tick 1 (.probing 2) 10) trivial rfl
  have h5 := h4.step (a := Cluster.Step.deliver 1 .default) (numbersMatch_of (by decide)) rfl
  have h6 := h5.step (a := Cluster.Step.deliver 3 .default) (numbersMatch_of (by decide)) rfl
  have h7 := h6.step (a := Cluster.Step.deliver 4 .default) (numbersMatch_of (by decide)) rfl
  obtain ⟨cl, hcl, hlen, hreq, hping, hj, hans⟩ : ∃ cl, clusterMachine.Reach NumbersMatch cl ∧
      cl.log.length < 2^64 - 1 ∧ Request cl.log 1 1 2 3 2 ∧ RelayPing cl.log 1 3 2 3 1 ∧
      4 ∈ cl.handled ∧ Answer cl.log 3 4 3 2 1 := ⟨_, h7, by decide⟩
  have hans : ∃ j ∈ cl.handled, ∃ q, Answer cl.log 3 j 3 2 q := ⟨4, hj, 1, hans⟩
  exact ⟨cl, hcl, hlen, hreq, hping, hans,
    ((relays_faithful hcl hlen).2.1 1 1 2 3 2 3 1 hreq hping).mpr hans⟩

/-- node 3 has pinged before, so its ack to node 2 has number 2 and not the number 1 of the ping -/
private def unreported : List Cluster.Step :=
  ([.addSeed 3 1 .home, .tick 3 (.probing 1) 0] : List Cluster.Step) ++ asking ++
    ([.deliver 2 .default, .deliver 4 .default, .deliver 5 .default] : List Cluster.Step)

/-- node 3 is silent, but node 2 also pings node 4, whose first ack has number 1 -/
private def misreported : List Cluster.Step :=
  asking ++ ([.deliver 1 .default, .addSeed 2 4 .home, .tick 2 (.probing 4) 0, .deliver 4 .default,
    .deliver 5 .default] : List Cluster.Step)

/-- a helper may handle the answer of its target and report nothing; and it may report a node alive
that never sent it an ack -/
theorem relay_unreported_and_misreported :
    (∃ cl, clusterMachine.Reach Machine.Anytime cl ∧ Request cl.log 2 1 2 3 2 ∧
      RelayPing cl.log 2 4 2 3 1 ∧ Answer cl.log 4 5 3 2 2 ∧ 5 ∈ cl.handled ∧
      ∀ m < cl.log.length, ¬ Holds cl.log m fun _ env => env.kind = .ack (some 3)) ∧
    ∃ cl, clusterMachine.Reach Machine.Anytime cl ∧ Request cl.log 1 1 2 3 2 ∧
      RelayPing cl.log 1 3 2 3 1 ∧ Report cl.log 5 6 2 1 3 2 ∧
      ∀ j < cl.log.length, ¬ Holds cl.log j fun p env => p.src = 3 ∧ env.kind = .ack none := by
  have hstart : clusterMachine.Reach Machine.Anytime quartet := .start quartet_start
  refine ⟨?_, ?_⟩
  · exact hstart.exists_run unreported (by decide)
  · exact hstart.exists_run misreported (by decide)

end Rebar.Swim

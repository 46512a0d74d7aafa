import Rebar.Swim.Entries
import Rebar.Swim.Merge

/-!
# Members move forward

Seven places change the record of a member, each by its own rule.  They agree on one order: the
incarnation first, then `Alive`, `Suspect`, `Dead`.  Only evidence that the node is alive moves it
back, from `Suspect` to `Alive` at the same incarnation.
-/

namespace Rebar.Swim

/-! ## the order -/

/-- how a member may change, `evidence` saying whether the node is known to be alive -/
structure Forward (evidence : Prop) (m m' : Member) : Prop where
  incarnation : m.incarnation ≤ m'.incarnation
  state : m'.incarnation = m.incarnation →
    m.state.rank ≤ m'.state.rank ∨ evidence ∧ m.state = .suspect ∧ m'.state = .alive
  dead : m.state = .dead → m'.state ≠ .dead → m.incarnation < m'.incarnation

namespace Forward
variable {evidence : Prop} {m m' m'' : Member}

theorem of_key_le (h : m.view.key ≤ m'.view.key) : Forward evidence m m' := by
  have hm := View.rank_le m.state
  have hm' := View.rank_le m'.state
  replace h : 3 * m.incarnation.toNat + m.state.rank
      ≤ 3 * m'.incarnation.toNat + m'.state.rank := h
  refine ⟨?_, ?_, ?_⟩
  · rw [UInt64.le_iff_toNat_le]
    omega
  · intro hi
    rw [hi] at h
    exact Or.inl (by omega)
  · intro hdead hlive
    have hr : m.state.rank = 2 := by rw [hdead]; rfl
    have hr' : m'.state.rank ≤ 1 := by
      cases hs : m'.state with
      | alive => decide
      | suspect => decide
      | dead => exact absurd hs hlive
    rw [UInt64.lt_iff_toNat_lt]
    omega

theorem refl (m : Member) : Forward evidence m m := of_key_le (le_refl _)

theorem of_restore (h : evidence) (m : Member) : Forward evidence m (FailureDetector.restore m) := by
  unfold FailureDetector.restore
  split
  · next hs =>
    refine ⟨UInt64.le_refl _, fun _ => Or.inr ⟨h, hs, rfl⟩, fun hd => ?_⟩
    rw [hs] at hd
    cases hd
  · exact refl m

theorem mono {evidence' : Prop} (h : Forward evidence m m') (hev : evidence → evidence') :
    Forward evidence' m m' :=
  ⟨h.incarnation, fun hi => (h.state hi).imp id fun ⟨he, hs⟩ => ⟨hev he, hs⟩, h.dead⟩

theorem trans (h : Forward evidence m m') (h' : Forward evidence m' m'') :
    Forward evidence m m'' := by
  have h₁ := h.incarnation
  have h₂ := h'.incarnation
  refine ⟨UInt64.le_trans h₁ h₂, ?_, ?_⟩
  · intro hi
    have hi' : m'.incarnation = m.incarnation := UInt64.le_antisymm (hi ▸ h₂) h₁
    rcases h.state hi' with hle | ⟨he, hs, hs'⟩
    · rcases h'.state (hi.trans hi'.symm) with hle' | ⟨he', hs', hs''⟩
      · exact Or.inl (hle.trans hle')
      · rw [hs'] at hle
        rw [hs'']
        cases hs : m.state with
        | alive => exact Or.inl (le_refl _)
        | suspect => exact Or.inr ⟨he', rfl, rfl⟩
        | dead =>
          rw [hs] at hle
          exact absurd hle (by decide)
    · cases hs'' : m''.state with
      | alive => exact Or.inr ⟨he, hs, rfl⟩
      | suspect | dead =>
        rw [hs]
        exact Or.inl (by decide)
  · intro hdead hlive
    by_cases hd : m'.state = .dead
    · exact UInt64.lt_of_le_of_lt h₁ (h'.dead hd hlive)
    · exact UInt64.lt_of_lt_of_le (h.dead hdead hd) h₂

end Forward

/-! ## each event -/

variable {evidence : Prop} {config : SwimConfig} {k : NodeId}

theorem forward_rumour (m : Member) (i : UInt64) {state : NodeState} (hs : state ≠ .alive) :
    Forward evidence m (if m.state ≠ .dead ∧ m.Heeds i
      then { m with state := state, incarnation := i } else m) := by
  split
  · next hb =>
    refine .of_key_le ?_
    have hlow := View.key_of_not_dead (v := m.view) hb.1
    have hhigh := View.key_of_not_alive (v := ⟨state, i.toNat⟩) hs
    have hi : m.view.incarnation ≤ i.toNat := hb.2.1
    have hri : View.incarnation ⟨state, i.toNat⟩ = i.toNat := rfl
    show m.view.key ≤ View.key ⟨state, i.toNat⟩
    omega
  · exact .refl m

theorem forward_suspect (m : Member) (i : UInt64) : Forward evidence m (m.suspect i) := by
  rw [Member.suspect_eq]
  exact forward_rumour m i (by decide)

theorem forward_dead (m : Member) (i : UInt64) : Forward evidence m (m.dead i) := by
  rw [Member.dead_eq]
  exact forward_rumour m i (by decide)

theorem forward_alive (m : Member) (i : UInt64) : Forward evidence m (m.alive i) := by
  rw [Member.alive_eq]
  split
  · next hb =>
    refine .of_key_le ?_
    have hkey := View.key_alive (v := ⟨.alive, i.toNat⟩) rfl
    have hri : View.incarnation ⟨.alive, i.toNat⟩ = i.toNat := rfl
    have hlow := View.key_bounds m.view
    have hi : m.view.incarnation < i.toNat := hb.1
    show m.view.key ≤ View.key ⟨.alive, i.toNat⟩
    omega
  · exact .refl m

theorem forward_merge (u : GossipUpdate) (m : Member) :
    ∃ m', u.merge (some m) = some m' ∧ Forward evidence m m' := by
  cases u with
  | alive n a i c => exact ⟨m.alive i, rfl, forward_alive m i⟩
  | suspect n a i => exact ⟨m.suspect i, rfl, forward_suspect m i⟩
  | dead n a i | leave n a i => exact ⟨m.dead i, rfl, forward_dead m i⟩

/-- the event neither replaces nor removes the member of `k`, and is evidence of its liveness if it
takes back a suspicion -/
def Moves (evidence : Prop) (k : NodeId) : Event → Prop
  | .seed id _ => id ≠ k
  | .hear id _ => id = k → evidence
  | .confirm id => id = k → evidence
  | .remove _ _ => False
  | _ => True

variable {m : Member} {s : SwimService} {env : SwimEnvelope}

theorem forward_event (config : SwimConfig) {x : Core} {e : Event} (hk : x.2.selfId ≠ some k)
    (he : Moves evidence k e) (hm : (x.entry k).member = some m) :
    ∃ m', ((x.next config e).entry k).member = some m' ∧ Forward evidence m m' := by
  have hchange := entry_change config x e k
  generalize (x.next config e).entry k = y' at hchange ⊢
  have hack : evidence → ∀ y : Entry, y.member = some m →
      ∃ m', y.ack.member = some m' ∧ Forward evidence m m' := by
    intro h y hy
    refine ⟨FailureDetector.restore m, ?_, .of_restore h m⟩
    show y.member.map _ = _
    rw [hy]
    rfl
  cases hchange with
  | same => exact ⟨m, hm, .refl m⟩
  | seed addr => exact absurd rfl he
  | hear addr =>
    refine hack (he rfl) _ ?_
    rw [hm]
    rfl
  | gossip _ _ =>
    dsimp only
    rw [hm]
    exact forward_merge _ m
  | refuted hself _ => exact absurd hself hk
  | confirm => exact hack (he rfl) _ hm
  | nack now =>
    obtain ⟨a, heq | ⟨m₀, hm₀, -, heq⟩⟩ := Entry.nack_cases config now (x.entry k)
    · rw [heq]
      exact ⟨m, hm, .refl m⟩
    · rw [hm] at hm₀
      cases hm₀
      rw [heq]
      exact ⟨_, rfl, forward_suspect m m.incarnation⟩
  | expire o now _ =>
    refine ⟨m.dead m.incarnation, ?_, forward_dead m m.incarnation⟩
    show (x.entry k).member.map _ = _
    rw [hm]
    rfl
  | remove o now _ => exact he.elim

theorem forward_events (config : SwimConfig) {es : List Event} {x : Core} (hk : x.2.selfId ≠ some k)
    (hes : ∀ e ∈ es, Moves evidence k e) (hm : (x.entry k).member = some m) :
    ∃ m', ((x.run config es).entry k).member = some m' ∧ Forward evidence m m' := by
  induction es generalizing x m with
  | nil => exact ⟨m, hm, .refl m⟩
  | cons e es ih =>
    obtain ⟨m₁, hm₁, h₁⟩ := forward_event config hk (hes e List.mem_cons_self) hm
    obtain ⟨m', hm', h'⟩ := ih (x := x.next config e) (by rw [selfId_next]; exact hk)
      (fun e' he' => hes e' (List.mem_cons_of_mem _ he')) hm₁
    exact ⟨m', hm', h₁.trans h'⟩

/-! ## each call -/

def Call.isSeed : Call → Bool
  | .addSeed _ _ => true
  | _ => false

/-- the call handles evidence that the node is alive: a frame of its own, or an ack about it -/
def Evidence (k : NodeId) : Call → Prop
  | .handleFrame _ frame => ∃ env ∈ frame.decode, env.source = k ∨ env.kind = .ack (some k)
  | _ => False

/-- a direct ack that closes a relay comes from the node that the relay is about -/
def RelayAnswered (s : SwimService) : Call → Prop
  | .handleFrame _ frame => ∀ env ∈ frame.decode, env.kind = .ack none →
      ∀ relay ∈ s.relays.lookup env.seq, relay.target = env.source
  | _ => True

instance (s : SwimService) : ∀ a, Decidable (RelayAnswered s a)
  | .handleFrame _ frame => inferInstanceAs (Decidable (∀ env ∈ frame.decode, _ → _))
  | .addSeed _ _ => .isTrue trivial
  | .tick _ _ => .isTrue trivial

theorem evidence_of_confirmed {c : Choices} {frame : Frame}
    (hok : RelayAnswered s (.handleFrame c frame)) (hd : frame.decode = some env)
    (hconf : s.confirmed env = some k) : Evidence k (.handleFrame c frame) := by
  refine ⟨env, hd, ?_⟩
  unfold SwimService.confirmed at hconf
  split at hconf
  · next hkind =>
    left
    split at hconf
    · next relay hrelay =>
      rw [← hok env hd hkind relay hrelay]
      exact Option.some.inj hconf
    · exact Option.some.inj hconf
  · next about hkind =>
    cases hconf
    exact Or.inr hkind
  · cases hconf

theorem forward_frame {c : Choices} {frame : Frame} (hok : RelayAnswered s (.handleFrame c frame))
    (hd : frame.decode = some env) :
    ∀ e ∈ s.frameEvents env, Moves (Evidence k (.handleFrame c frame)) k e := by
  intro e he
  rcases SwimService.mem_frameEvents he with rfl | ⟨u, -, rfl⟩ | ⟨id, hid, rfl⟩
  · exact fun hsource => ⟨env, hd, Or.inl hsource⟩
  · exact trivial
  · rintro rfl
    exact evidence_of_confirmed hok hd hid

theorem forward_call {a : Call} {m' : Member} (hk : s.members.selfId ≠ some k)
    (hseed : a.isSeed = false) (hok : RelayAnswered s a) (hm : s.members.get k = some m)
    (hm' : (s.call a).members.get k = some m') : Forward (Evidence k a) m m' := by
  replace hm' : ((s.call a).core.entry k).member = some m' := hm'
  rw [s.core_call a] at hm'
  cases a with
  | addSeed id addr => cases hseed
  | handleFrame c frame =>
    dsimp only [SwimService.events] at hm'
    cases hd : frame.decode with
    | none =>
      rw [hd] at hm'
      cases hm.symm.trans hm'
      exact .refl m
    | some env =>
      rw [hd] at hm'
      obtain ⟨m₁, hm₁, hf⟩ := forward_events s.config (x := s.core) hk
        (forward_frame hok hd) hm
      cases hm₁.symm.trans hm'
      exact hf
  | tick c now =>
    have hmoves : ∀ e ∈ s.probeEvents now ++ [.expire c.suspects now],
        Moves (Evidence k (.tick c now)) k e := by
      intro e he
      rcases List.mem_append.mp he with he | he
      · obtain ⟨target, rfl⟩ := SwimService.mem_probeEvents he
        exact trivial
      · rw [List.mem_singleton.mp he]
        exact trivial
    obtain ⟨m₁, hm₁, hf⟩ := forward_events s.config (x := s.core) hk hmoves hm
    -- the last event removes the member or leaves it
    rw [SwimService.run_events_tick, entry_remove] at hm'
    split at hm'
    · cases hm₁.symm.trans (Entry.drop_member hm').1
      exact hf
    · cases hm₁.symm.trans hm'
      exact hf

/-! ## runs -/

/-- a tick or a frame that leaves the node in the list; a relay it closes is answered by its
target -/
def Stays (k : NodeId) (s : SwimService) (a : Call) : Prop :=
  a.isSeed = false ∧ RelayAnswered s a ∧ ((s.call a).members.get k).isSome

instance (k : NodeId) (s : SwimService) (a : Call) : Decidable (Stays k s a) :=
  inferInstanceAs (Decidable (_ ∧ _ ∧ _))

/-- **In a run of ticks and frames during which a node other than the own one stays in the list,
and every relay that is closed is answered by its target, the next call moves the node's member
forward from where it is, and so from where it was at any earlier time.** -/
theorem members_forward {s t : SwimService} {a : Call} {m m₁ m₂ : Member}
    (hk : s.members.selfId ≠ some k) (hm : s.members.get k = some m)
    (h : (serviceMachine.startedAt s).Reach (Stays k) t) (ha : Stays k t a)
    (hm₁ : t.members.get k = some m₁) (hm₂ : (t.call a).members.get k = some m₂) :
    Forward (Evidence k a) m₁ m₂ ∧ Forward True m m₂ := by
  have hinv : t.members.selfId ≠ some k ∧
      ∃ m', t.members.get k = some m' ∧ Forward True m m' := by
    refine h.inv (I := fun t => t.members.selfId ≠ some k ∧
      ∃ m', t.members.get k = some m' ∧ Forward True m m') ?_ ?_
    · rintro t rfl
      exact ⟨hk, m, hm, .refl m⟩
    · rintro t a t' ⟨hself, m', hm', hf⟩ ⟨hseed, hok, hstay⟩ hn
      cases hn
      obtain ⟨m'', hm''⟩ := Option.isSome_iff_exists.mp hstay
      refine ⟨by rw [selfId_call]; exact hself, m'', hm'', hf.trans ?_⟩
      exact (forward_call hself hseed hok hm' hm'').mono fun _ => trivial
  obtain ⟨hself, m', hm', hf⟩ := hinv
  cases hm'.symm.trans hm₁
  have hlast := forward_call hself ha.1 ha.2.1 hm₁ hm₂
  exact ⟨hlast, hf.trans (hlast.mono fun _ => trivial)⟩

private def seeded : SwimService :=
  ((SwimService.fresh 0).addSeed 2 .home).addSeed 3 .home

private def ackOf (id : NodeId) : Call :=
  .handleFrame .default ⟨true, 3, some ⟨id, .home, 3, .ack none, []⟩⟩

/-- node 2 misses a ping and is suspected; its ack takes the suspicion back -/
theorem members_forward_acked : ∃ t m m₁ m₂, seeded.members.get 2 = some m ∧
    (serviceMachine.startedAt seeded).Reach (Stays 2) t ∧ Stays 2 t (ackOf 2) ∧
    t.members.get 2 = some m₁ ∧ m₁.state = .suspect ∧
    (t.call (ackOf 2)).members.get 2 = some m₂ ∧ m₂.state = .alive ∧
    Forward (Evidence 2 (ackOf 2)) m₁ m₂ ∧ Forward True m m₂ := by
  have hstart : (serviceMachine.startedAt seeded).Reach (Stays 2) seeded := .start rfl
  obtain ⟨t, ht, hstays, ⟨m₁, hm₁, hs₁⟩, m₂, hm₂, hs₂⟩ := hstart.exists_checked
    [.tick (.probing 2) 0, .tick (.probing 3) 10]
    (p := fun t => Stays 2 t (ackOf 2) ∧ (∃ m, t.members.get 2 = some m ∧ m.state = .suspect) ∧
      ∃ m, (t.call (ackOf 2)).members.get 2 = some m ∧ m.state = .alive) (by decide)
  have hm : seeded.members.get 2 = some (Member.new 2 .home) := by decide
  exact ⟨t, _, m₁, m₂, hm, ht, hstays, hm₁, hs₁, hm₂, hs₂,
    members_forward (by decide) hm ht hstays hm₁ hm₂⟩

/-- node 2 is suspected, and node 3 has asked for a relay to it, which got the number 3; an ack of
node 3 with that number takes the suspicion of node 2 back -/
theorem suspicion_ends_without_evidence : ∃ t, (serviceMachine.startedAt seeded).Reach
      (fun s a => a.isSeed = false ∧ ((s.call a).members.get 2).isSome) t ∧
    (t.members.get 2).map Member.view = some ⟨.suspect, 0⟩ ∧
    ((t.call (ackOf 3)).members.get 2).map Member.view = some ⟨.alive, 0⟩ ∧
    ¬ Evidence 2 (ackOf 3) := by
  have hstart : (serviceMachine.startedAt seeded).Reach
      (fun s a => a.isSeed = false ∧ ((s.call a).members.get 2).isSome) seeded := .start rfl
  obtain ⟨t, ht, hsuspect, halive⟩ := hstart.exists_checked [.tick (.probing 2) 0, .tick (.probing 3) 10,
    .handleFrame .default ⟨true, 1, some ⟨3, .home, 1, .pingReq 2 .home, []⟩⟩]
    (p := fun t => (t.members.get 2).map Member.view = some ⟨.suspect, 0⟩ ∧
      ((t.call (ackOf 3)).members.get 2).map Member.view = some ⟨.alive, 0⟩) (by decide)
  refine ⟨t, ht, hsuspect, halive, ?_⟩
  rintro ⟨env, henv, hcase⟩
  cases henv
  rcases hcase with hc | hc
  · exact absurd hc (by decide)
  · exact absurd hc (by decide)

end Rebar.Swim

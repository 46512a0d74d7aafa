import Rebar.Swim.Member

/-!
# Refuting rumours

A node that hears a rumour about itself answers with an `Alive` at a higher incarnation
(`refuteAboutSelf`), and a peer that holds the node as suspect or dead takes that answer only if it
is fresher and not more than `2^32` ahead (`alive_state_iff`).  The two rules do not fit: the
answer is computed from the rumour, not from what the peers hold.
-/

namespace Rebar.Swim

/-! ## the incarnation rules in numbers -/

namespace Member
variable (m : Member) (i : UInt64)

theorem toNat_maxIncarnationJump : maxIncarnationJump.toNat = 2^32 := by decide

theorem incarnationAcceptable_iff (current proposed : UInt64) :
    incarnationAcceptable current proposed = true ↔ proposed.toNat ≤ current.toNat + 2^32 := by
  unfold incarnationAcceptable
  by_cases h : proposed ≤ current
  · rw [if_pos h]
    rw [UInt64.le_iff_toNat_le] at h
    exact iff_of_true rfl (by omega)
  · rw [if_neg h, decide_eq_true_eq, UInt64.le_iff_toNat_le, toNat_maxIncarnationJump]
    rw [UInt64.le_iff_toNat_le] at h
    have hle : current ≤ proposed := by
      rw [UInt64.le_iff_toNat_le]
      omega
    rw [UInt64.toNat_sub_of_le _ _ hle]
    omega

theorem alive_eq : m.alive i =
    if m.incarnation.toNat < i.toNat ∧ i.toNat ≤ m.incarnation.toNat + 2^32
    then { m with state := .alive, incarnation := i } else m := by
  unfold alive
  by_cases ha : incarnationAcceptable m.incarnation i = true
  · have hle := (incarnationAcceptable_iff _ _).mp ha
    rw [ha]
    simp only [Bool.not_true, Bool.false_eq_true, if_false, UInt64.lt_iff_toNat_lt, hle, and_true]
  · have hgt : ¬ i.toNat ≤ m.incarnation.toNat + 2^32 :=
      fun h => ha ((incarnationAcceptable_iff _ _).mpr h)
    rw [Bool.not_eq_true] at ha
    simp only [ha, Bool.not_false, if_true, hgt, and_false, if_false]

/-- a rumour at this incarnation is neither stale nor too far ahead -/
def Heeds (m : Member) (i : UInt64) : Prop :=
  m.incarnation.toNat ≤ i.toNat ∧ i.toNat ≤ m.incarnation.toNat + 2^32

instance (m : Member) (i : UInt64) : Decidable (m.Heeds i) :=
  inferInstanceAs (Decidable (_ ∧ _))

theorem heeds_self : m.Heeds m.incarnation := ⟨Nat.le_refl _, Nat.le_add_right _ _⟩

theorem rumour_eq (state : NodeState) :
    (if m.state = .dead then m
      else if !incarnationAcceptable m.incarnation i then m
      else if m.incarnation ≤ i then { m with state := state, incarnation := i }
      else m) =
    if m.state ≠ .dead ∧ m.Heeds i then { m with state := state, incarnation := i } else m := by
  by_cases hdead : m.state = .dead
  · rw [if_pos hdead, if_neg fun h => h.1 hdead]
  · rw [if_neg hdead]
    by_cases ha : incarnationAcceptable m.incarnation i = true
    · have hle := (incarnationAcceptable_iff _ _).mp ha
      rw [ha, if_neg (by decide)]
      by_cases hi : m.incarnation ≤ i
      · rw [if_pos hi, if_pos ⟨hdead, UInt64.le_iff_toNat_le.mp hi, hle⟩]
      · rw [if_neg hi, if_neg fun h => hi (UInt64.le_iff_toNat_le.mpr h.2.1)]
    · have hfar : ¬ m.Heeds i := fun h => ha ((incarnationAcceptable_iff _ _).mpr h.2)
      rw [Bool.not_eq_true] at ha
      rw [ha, if_pos (by decide), if_neg fun h => hfar h.2]

theorem suspect_eq : m.suspect i =
    if m.state ≠ .dead ∧ m.Heeds i then { m with state := .suspect, incarnation := i } else m :=
  m.rumour_eq i .suspect

theorem dead_eq : m.dead i =
    if m.state ≠ .dead ∧ m.Heeds i then { m with state := .dead, incarnation := i } else m :=
  m.rumour_eq i .dead

/-- a suspect or dead member is restored exactly by a fresher `Alive` within the jump -/
theorem alive_state_iff (hm : m.state ≠ .alive) : (m.alive i).state = .alive ↔
    m.incarnation.toNat < i.toNat ∧ i.toNat ≤ m.incarnation.toNat + 2^32 := by
  rw [alive_eq]
  split
  · next h => exact iff_of_true rfl h
  · next h => exact iff_of_false hm h

end Member

/-! ## what a node answers -/

def GossipUpdate.isRumour : GossipUpdate → Bool
  | .alive .. => false
  | _ => true

/-- the incarnation of a `Suspect`, `Dead` or `Leave` about `n` -/
def rumourAbout (n : NodeId) (u : GossipUpdate) : Option UInt64 :=
  if u.nodeId = n ∧ u.isRumour = true then some u.incarnation else none

/-- the incarnations of the rumours about `n` in a list of updates -/
def rumours (n : NodeId) (us : List GossipUpdate) : List UInt64 := us.filterMap (rumourAbout n)

/-- one update; the second component is the most recent refutation -/
def hear (acc : MembershipList × Option GossipUpdate) (u : GossipUpdate) :
    MembershipList × Option GossipUpdate :=
  ((acc.1.applyUpdate u).1, (acc.1.applyUpdate u).2.or acc.2)

def hearAll (l : MembershipList) (us : List GossipUpdate) :
    MembershipList × Option GossipUpdate :=
  us.foldl hear (l, none)

namespace MembershipList
variable {l : MembershipList} {n : NodeId} {u : GossipUpdate} {k : UInt64}

theorem applyUpdate_rumour (hs : l.selfId = some n) (hu : rumourAbout n u = some k) :
    l.applyUpdate u = l.refuteAboutSelf k := by
  obtain ⟨⟨rfl, hr⟩, hk⟩ := Option.ite_none_right_eq_some.mp hu
  rw [← Option.some.inj hk]
  unfold applyUpdate
  rw [if_pos hs]
  cases u with
  | alive m a i c => cases hr
  | suspect m a i => rfl
  | dead m a i => rfl
  | leave m a i => rfl

def SameSelf (l l' : MembershipList) : Prop :=
  l'.selfId = l.selfId ∧ l'.selfAddr = l.selfAddr ∧ l'.selfIncarnation = l.selfIncarnation

theorem applyUpdate_other (hu : l.selfId ≠ some u.nodeId) :
    SameSelf l (l.applyUpdate u).1 ∧ (l.applyUpdate u).2 = none := by
  unfold applyUpdate SameSelf
  rw [if_neg hu]
  cases u with
  | alive m a i c | suspect m a i => cases h : l.get m <;> simp [h, add, modify]
  | dead m a i | leave m a i => exact ⟨⟨rfl, rfl, rfl⟩, rfl⟩

theorem applyUpdate_no_rumour (hs : l.selfId = some n) (hu : rumourAbout n u = none) :
    SameSelf l (l.applyUpdate u).1 ∧ (l.applyUpdate u).2 = none ∧
      (l.applyUpdate u).1.get n = l.get n := by
  by_cases hn : u.nodeId = n
  · have hself : l.selfId = some u.nodeId := by rw [hs, hn]
    have hr : u.isRumour = false := by
      by_contra hr
      rw [Bool.not_eq_false] at hr
      unfold rumourAbout at hu
      rw [if_pos ⟨hn, hr⟩] at hu
      cases hu
    unfold applyUpdate
    rw [if_pos hself]
    cases u with
    | alive m a i c => exact ⟨⟨rfl, rfl, rfl⟩, rfl, rfl⟩
    | suspect m a i | dead m a i | leave m a i => cases hr
  · have hother : l.selfId ≠ some u.nodeId := by
      rw [hs]
      exact fun h => hn (Option.some.inj h).symm
    obtain ⟨hsame, hnone⟩ := applyUpdate_other hother
    exact ⟨hsame, hnone, l.get_applyUpdate_of_ne u (Ne.symm hn)⟩

/-- the incarnation a rumour at `k` calls for -/
def called (k : UInt64) : Nat := min (k.toNat + 1) (2^64 - 1)

theorem refuteAboutSelf_stale (h : k < l.selfIncarnation) : l.refuteAboutSelf k = (l, none) := by
  unfold refuteAboutSelf
  split
  · rw [if_pos h]
  · rfl

theorem refuteAboutSelf_fresh {addr : SocketAddr} (hs : l.selfId = some n)
    (ha : l.selfAddr = some addr) (h : ¬ k < l.selfIncarnation) :
    l.refuteAboutSelf k =
      ({ l with selfIncarnation := satAdd k 1 }.modify n
          fun me => { me with state := .alive, incarnation := satAdd k 1 },
        some (.alive n addr (satAdd k 1) l.selfCertHash)) := by
  have hnext : max (satAdd l.selfIncarnation 1) (satAdd k 1) = satAdd k 1 := by
    show (if satAdd l.selfIncarnation 1 ≤ satAdd k 1 then satAdd k 1 else _) = satAdd k 1
    apply if_pos
    rw [UInt64.lt_iff_toNat_lt] at h
    rw [UInt64.le_iff_toNat_le, toNat_satAdd_one, toNat_satAdd_one]
    omega
  unfold refuteAboutSelf
  rw [hs, ha]
  simp only [h, if_false, hnext]

/-- an update about the own node is dropped or answered by a refutation -/
theorem applyUpdate_self (hs : l.selfId = some u.nodeId) :
    l.applyUpdate u = (l, none) ∨ ∃ i addr cert, l.applyUpdate u =
      ({ l with selfIncarnation := i }.modify u.nodeId
        fun me => { me with state := .alive, incarnation := i }, some (.alive u.nodeId addr i cert)) := by
  cases hu : rumourAbout u.nodeId u with
  | none =>
    left
    unfold applyUpdate
    rw [if_pos hs]
    cases u with
    | alive n a i c => rfl
    | suspect n a i | dead n a i | leave n a i => cases (if_pos ⟨rfl, rfl⟩).symm.trans hu
  | some k =>
    rw [applyUpdate_rumour hs hu]
    unfold refuteAboutSelf
    rw [hs]
    cases l.selfAddr with
    | none => exact Or.inl rfl
    | some addr =>
      dsimp only
      split
      · exact Or.inl rfl
      · exact Or.inr ⟨_, _, _, rfl⟩

end MembershipList

/-! ## the most recent refutation -/

open MembershipList

/-- a node that heard the updates `us`: its incarnation is the greatest one the rumours called for,
and that is the incarnation of its most recent refutation -/
structure Refuting (n : NodeId) (us : List GossipUpdate)
    (acc : MembershipList × Option GossipUpdate) : Prop where
  selfId : acc.1.selfId = some n
  selfAddr : ∃ addr, acc.1.selfAddr = some addr
  bound : ∀ k ∈ rumours n us, called k ≤ acc.1.selfIncarnation.toNat
  attained : rumours n us ≠ [] → ∃ k ∈ rumours n us, called k = acc.1.selfIncarnation.toNat
  unheard : rumours n us = [] → acc.1.selfIncarnation = 0
  last : rumours n us ≠ [] →
    ∃ addr cert, acc.2 = some (.alive n addr acc.1.selfIncarnation cert)

variable {n : NodeId} {us : List GossipUpdate} {u : GossipUpdate}
  {acc : MembershipList × Option GossipUpdate}

theorem refuting_withSelf (n : NodeId) (addr : SocketAddr) (cert : Option CertHash) :
    Refuting n [] (withSelf n addr cert, none) where
  selfId := rfl
  selfAddr := ⟨addr, rfl⟩
  bound := nofun
  attained := fun h => absurd rfl h
  unheard := fun _ => rfl
  last := fun h => absurd rfl h

theorem rumours_append (n : NodeId) (us : List GossipUpdate) (u : GossipUpdate) :
    rumours n (us ++ [u]) = rumours n us ++ (rumourAbout n u).toList := by
  unfold rumours
  rw [List.filterMap_append]
  cases h : rumourAbout n u with
  | none => rw [List.filterMap_cons_none h]; rfl
  | some k => rw [List.filterMap_cons_some h]; rfl

theorem Refuting.hear_other (h : Refuting n us acc) (hu : rumourAbout n u = none) :
    Refuting n (us ++ [u]) (hear acc u) := by
  obtain ⟨⟨hid, haddr, hinc⟩, hnone, -⟩ := applyUpdate_no_rumour h.selfId hu
  have hr : rumours n (us ++ [u]) = rumours n us := by
    rw [rumours_append, hu]
    exact List.append_nil _
  unfold Swim.hear
  rw [hnone, Option.none_or]
  refine ⟨hid.trans h.selfId, ?_, ?_, ?_, ?_, ?_⟩
  · rw [haddr]
    exact h.selfAddr
  · rw [hr, hinc]
    exact h.bound
  · rw [hr, hinc]
    exact h.attained
  · rw [hr, hinc]
    exact h.unheard
  · rw [hr, hinc]
    exact h.last

theorem Refuting.hear_stale {k : UInt64} (h : Refuting n us acc) (hu : rumourAbout n u = some k)
    (hk : k < acc.1.selfIncarnation) : Refuting n (us ++ [u]) (hear acc u) := by
  have hacc : hear acc u = acc := by
    unfold hear
    rw [applyUpdate_rumour h.selfId hu, refuteAboutSelf_stale hk, Option.none_or]
  have hlt : k.toNat < acc.1.selfIncarnation.toNat := UInt64.lt_iff_toNat_lt.mp hk
  have hne : rumours n us ≠ [] := by
    intro he
    rw [h.unheard he] at hlt
    exact absurd hlt (Nat.not_lt_zero _)
  have hr : rumours n (us ++ [u]) = rumours n us ++ [k] := by
    rw [rumours_append, hu]
    rfl
  rw [hacc]
  refine ⟨h.selfId, h.selfAddr, fun k' hk' => ?_, fun _ => ?_, fun he => ?_, fun _ => h.last hne⟩
  · rw [hr] at hk'
    rcases List.mem_append.mp hk' with hk' | hk'
    · exact h.bound k' hk'
    · rw [List.mem_singleton.mp hk']
      unfold called
      omega
  · obtain ⟨k', hk', heq⟩ := h.attained hne
    exact ⟨k', by rw [hr]; exact List.mem_append_left _ hk', heq⟩
  · rw [hr] at he
    exact absurd he (by simp)

theorem Refuting.hear_fresh {k : UInt64} (h : Refuting n us acc) (hu : rumourAbout n u = some k)
    (hk : ¬ k < acc.1.selfIncarnation) : Refuting n (us ++ [u]) (hear acc u) := by
  obtain ⟨addr, haddr⟩ := h.selfAddr
  have hr : rumours n (us ++ [u]) = rumours n us ++ [k] := by
    rw [rumours_append, hu]
    rfl
  have hcall : called k = (satAdd k 1).toNat := by
    rw [toNat_satAdd_one]
    rfl
  unfold Swim.hear
  rw [applyUpdate_rumour h.selfId hu, refuteAboutSelf_fresh h.selfId haddr hk]
  refine ⟨h.selfId, ⟨addr, haddr⟩, fun k' hk' => ?_, fun _ => ⟨k, ?_, hcall⟩, fun he => ?_,
    fun _ => ⟨addr, _, rfl⟩⟩
  · show _ ≤ (satAdd k 1).toNat
    rw [← hcall]
    rw [hr] at hk'
    rcases List.mem_append.mp hk' with hk' | hk'
    · have hle := h.bound k' hk'
      have hmax := toNat_le_max acc.1.selfIncarnation
      rw [UInt64.lt_iff_toNat_lt] at hk
      unfold called at hle ⊢
      omega
    · rw [List.mem_singleton.mp hk']
  · rw [hr]
    exact List.mem_append_right _ (List.mem_singleton_self k)
  · rw [hr] at he
    exact absurd he (by simp)

theorem Refuting.hear (h : Refuting n us acc) (u : GossipUpdate) :
    Refuting n (us ++ [u]) (hear acc u) := by
  cases hu : rumourAbout n u with
  | none => exact h.hear_other hu
  | some k =>
    by_cases hk : k < acc.1.selfIncarnation
    · exact h.hear_stale hu hk
    · exact h.hear_fresh hu hk

theorem refuting_hearAll (n : NodeId) (addr : SocketAddr) (cert : Option CertHash)
    (us : List GossipUpdate) : Refuting n us (hearAll (withSelf n addr cert) us) := by
  induction us using List.reverseRecOn with
  | nil => exact refuting_withSelf n addr cert
  | append_singleton us u ih =>
    unfold hearAll
    rw [List.foldl_append]
    exact ih.hear u

/-! ## whether the peer takes it -/

def applyAll (l : MembershipList) (us : List GossipUpdate) : MembershipList :=
  us.foldl (fun l u => (l.applyUpdate u).1) l

theorem get_applyUpdate_alive {peer : MembershipList} {m : Member} (hp : peer.selfId ≠ some n)
    (hm : peer.get n = some m) (addr : SocketAddr) (i : UInt64) (cert : Option CertHash) :
    (peer.applyUpdate (.alive n addr i cert)).1.get n = some (m.alive i) := by
  have hu : peer.selfId ≠ some (GossipUpdate.alive n addr i cert).nodeId := hp
  rw [get_applyUpdate hu]
  show (if n = n then _ else _) = _
  rw [if_pos rfl, hm]
  rfl

/-- **The most recent refutation restores the node at the peer exactly when the peer's incarnation
can still be passed and no rumour called the node further ahead than the peer accepts.** -/
theorem refutation_wins_iff (n : NodeId) (addr : SocketAddr) (cert : Option CertHash)
    (us : List GossipUpdate) (peer : MembershipList) (hp : peer.selfId ≠ some n) (m : Member)
    (hm : peer.get n = some m) (hst : m.state ≠ .alive) (hj : m.incarnation ∈ rumours n us) :
    (∃ r, (hearAll (withSelf n addr cert) us).2 = some r ∧
      ∃ m', (peer.applyUpdate r).1.get n = some m' ∧ m'.state = .alive) ↔
    m.incarnation.toNat < 2^64 - 1 ∧
      ∀ k ∈ rumours n us, min (k.toNat + 1) (2^64 - 1) ≤ m.incarnation.toNat + 2^32 := by
  have h := refuting_hearAll n addr cert us
  have hne : rumours n us ≠ [] := List.ne_nil_of_mem hj
  obtain ⟨a, c, hlast⟩ := h.last hne
  obtain ⟨k, hk, htop⟩ := h.attained hne
  have hbound := h.bound
  have hmax := toNat_le_max (hearAll (withSelf n addr cert) us).1.selfIncarnation
  have hjb := hbound _ hj
  -- the peer takes the refutation, at incarnation `R`, when `j < R ≤ j + 2^32`
  have hwin : (∃ r, (hearAll (withSelf n addr cert) us).2 = some r ∧
      ∃ m', (peer.applyUpdate r).1.get n = some m' ∧ m'.state = .alive) ↔
      m.incarnation.toNat < (hearAll (withSelf n addr cert) us).1.selfIncarnation.toNat ∧
        (hearAll (withSelf n addr cert) us).1.selfIncarnation.toNat
          ≤ m.incarnation.toNat + 2^32 := by
    rw [← m.alive_state_iff _ hst]
    constructor
    · intro hex
      obtain ⟨r, hr, m', hget, hal⟩ := hex
      rw [hlast] at hr
      rw [← Option.some.inj hr, get_applyUpdate_alive hp hm] at hget
      rw [Option.some.inj hget]
      exact hal
    · intro hal
      exact ⟨_, hlast, _, get_applyUpdate_alive hp hm a _ c, hal⟩
  rw [hwin]
  unfold called at hbound htop hjb
  constructor
  · intro hR
    refine ⟨by omega, fun k' hk' => ?_⟩
    have := hbound k' hk'
    omega
  · intro hR
    have := hR.2 k hk
    omega

/-- a peer that heard node 1 suspected at incarnation `j` -/
private def holdsSuspect (j : UInt64) : MembershipList :=
  applyAll (withSelf 2 .home none) [.alive 1 .home j none, .suspect 1 .home j]

/-- node 1 hears the rumour the peer holds and one far ahead; its refutation jumps further than the
peer accepts, and the peer goes on suspecting it.  At the greatest incarnation no refutation is
fresher than the rumour. -/
theorem refutation_can_lose :
    ((holdsSuspect 0).get 1).map (fun m => (m.state, m.incarnation)) = some (.suspect, 0) ∧
      (0 : UInt64) ∈ rumours 1 [.suspect 1 .home 0, .dead 1 .home 0x10000000000] ∧
      (∃ r, (hearAll (withSelf 1 .home none) [.suspect 1 .home 0, .dead 1 .home 0x10000000000]).2
          = some r ∧
        (((holdsSuspect 0).applyUpdate r).1.get 1).map (·.state) = some .suspect) ∧
      ∃ r, (hearAll (withSelf 1 .home none) [.suspect 1 .home u64Max]).2 = some r ∧
        (((holdsSuspect u64Max).applyUpdate r).1.get 1).map (·.state) = some .suspect := by
  refine ⟨by decide, by decide, ⟨.alive 1 .home 0x10000000001 none, by decide, by decide⟩,
    ⟨.alive 1 .home u64Max none, by decide, by decide⟩⟩

theorem refutation_wins_suspect :
    ∃ r, (hearAll (withSelf 1 .home none) [.suspect 1 .home 7, .leave 1 .home 3]).2 = some r ∧
      ∃ m', ((holdsSuspect 7).applyUpdate r).1.get 1 = some m' ∧ m'.state = .alive := by
  have hget : (holdsSuspect 7).get 1 = some ⟨1, .home, .suspect, 7, none⟩ := by decide
  have hself : (holdsSuspect 7).selfId ≠ some 1 := by decide
  have hmem : (7 : UInt64) ∈ rumours 1 [.suspect 1 .home 7, .leave 1 .home 3] := by decide
  have hlt : (7 : UInt64).toNat < 2^64 - 1 := by decide
  refine (refutation_wins_iff 1 .home none _ (holdsSuspect 7) hself _ hget nofun hmem).mpr ⟨hlt, ?_⟩
  intro k hk
  have hk : k ∈ [(7 : UInt64), 3] := hk
  have hle : k.toNat ≤ 7 := by
    rw [List.mem_cons, List.mem_singleton] at hk
    rcases hk with rfl | rfl
    · decide
    · decide
  show min (k.toNat + 1) (2^64 - 1) ≤ 7 + 2^32
  omega

end Rebar.Swim

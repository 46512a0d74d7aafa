import Rebar.Lib.HashMap
import Rebar.Lib.Machine
import Rebar.Lib.Saturating
import Rebar.Swim.Gossip

/-!
# Members and the membership list

The model of `swim/member.rs`: the state of one member with its incarnation rules, and the list a
node keeps of the cluster, with its answer to rumours about the node itself.

* `Member.suspect`, `alive`, `dead`        a rumour is taken only if it is fresh enough and not too
                                           far ahead (`incarnationAcceptable`);
* `MembershipList.refuteAboutSelf`         a node bumps its own incarnation past a rumour;
* `MembershipList.applyUpdate`             one gossip update.
-/

namespace Rebar.Swim

inductive NodeState where
  | alive
  | suspect
  | dead
deriving DecidableEq

structure Member where
  nodeId : NodeId
  addr : SocketAddr
  state : NodeState
  incarnation : UInt64
  certHash : Option CertHash
deriving DecidableEq

namespace Member

def new (nodeId : NodeId) (addr : SocketAddr) : Member := ⟨nodeId, addr, .alive, 0, none⟩

def maxIncarnationJump : UInt64 := (1 : UInt64) <<< (32 : UInt64)

def incarnationAcceptable (current proposed : UInt64) : Bool :=
  if proposed ≤ current then true else decide (proposed - current ≤ maxIncarnationJump)

def suspect (m : Member) (incarnation : UInt64) : Member :=
  if m.state = .dead then m
  else if !incarnationAcceptable m.incarnation incarnation then m
  else if m.incarnation ≤ incarnation then
    { m with state := .suspect, incarnation := incarnation }
  else m

def alive (m : Member) (incarnation : UInt64) : Member :=
  -- a fresher `Alive` also supersedes a death
  if !incarnationAcceptable m.incarnation incarnation then m
  else if m.incarnation < incarnation then
    { m with state := .alive, incarnation := incarnation }
  else m

def dead (m : Member) (incarnation : UInt64) : Member :=
  if m.state = .dead then m
  else if !incarnationAcceptable m.incarnation incarnation then m
  else if m.incarnation ≤ incarnation then
    { m with state := .dead, incarnation := incarnation }
  else m

end Member

structure MembershipList where
  members : HashMap NodeId Member
  selfId : Option NodeId
  selfIncarnation : UInt64
  selfAddr : Option SocketAddr
  selfCertHash : Option CertHash

namespace MembershipList

def new : MembershipList := ⟨∅, none, 0, none, none⟩

def withSelf (nodeId : NodeId) (addr : SocketAddr) (certHash : Option CertHash) :
    MembershipList where
  members := (∅ : HashMap NodeId Member).insert nodeId
    { Member.new nodeId addr with certHash := certHash }
  selfId := some nodeId
  selfIncarnation := 0
  selfAddr := some addr
  selfCertHash := certHash

def get (l : MembershipList) (nodeId : NodeId) : Option Member := l.members.lookup nodeId

def add (l : MembershipList) (member : Member) : MembershipList :=
  { l with members := l.members.insert member.nodeId member }

def removeNode (l : MembershipList) (nodeId : NodeId) : MembershipList :=
  { l with members := l.members.erase nodeId }

def modify (l : MembershipList) (nodeId : NodeId) (f : Member → Member) : MembershipList :=
  { l with members := HashMap.modify l.members nodeId f }

def addrOf (l : MembershipList) (nodeId : NodeId) : Option SocketAddr :=
  (l.get nodeId).map (·.addr)

def allMembers (o : Order NodeId) (l : MembershipList) : List Member :=
  (HashMap.keysIn l.members o).filterMap l.get

def alivePeers (o : Order NodeId) (l : MembershipList) : List (NodeId × SocketAddr) :=
  ((l.allMembers o).filter fun m => some m.nodeId ≠ l.selfId ∧ m.state ≠ .dead).map
    fun m => (m.nodeId, m.addr)

def markDead (l : MembershipList) (nodeId : NodeId) (incarnation : UInt64) : MembershipList :=
  l.modify nodeId fun m => m.dead incarnation

def refuteAboutSelf (l : MembershipList) (suspectedIncarnation : UInt64) :
    MembershipList × Option GossipUpdate :=
  match l.selfId, l.selfAddr with
  | some selfId, some addr =>
    -- a rumour about an older incarnation: the current `Alive` supersedes it already
    if suspectedIncarnation < l.selfIncarnation then (l, none)
    else
      let next := max (satAdd l.selfIncarnation 1) (satAdd suspectedIncarnation 1)
      let l := { l with selfIncarnation := next }
      (l.modify selfId fun me => { me with state := .alive, incarnation := next },
        some (.alive selfId addr next l.selfCertHash))
  | _, _ => (l, none)

def applyUpdate (l : MembershipList) (update : GossipUpdate) :
    MembershipList × Option GossipUpdate :=
  if l.selfId = some update.nodeId then
    match update with
    | .alive .. => (l, none)
    | .suspect _ _ incarnation => l.refuteAboutSelf incarnation
    | .dead _ _ incarnation => l.refuteAboutSelf incarnation
    | .leave _ _ incarnation => l.refuteAboutSelf incarnation
  else
    match update with
    | .alive nodeId addr incarnation certHash =>
      match l.get nodeId with
      | some _ => (l.modify nodeId fun m => m.alive incarnation, none)
      | none =>
        (l.add { Member.new nodeId addr with incarnation := incarnation, certHash := certHash },
          none)
    | .suspect nodeId addr incarnation =>
      let l := if (l.get nodeId).isSome then l else l.add (Member.new nodeId addr)
      (l.modify nodeId fun m => m.suspect incarnation, none)
    | .dead nodeId _ incarnation => (l.modify nodeId fun m => m.dead incarnation, none)
    | .leave nodeId _ incarnation => (l.modify nodeId fun m => m.dead incarnation, none)

/-! ## reading the list back -/

variable (l : MembershipList) (a k : NodeId) (f : Member → Member) (m : Member)

theorem get_modify : (l.modify a f).get k = if k = a then (l.get k).map f else l.get k :=
  HashMap.lookup_modify l.members a k f

theorem get_add : (l.add m).get k = if k = m.nodeId then some m else l.get k :=
  HashMap.lookup_insert_if l.members m.nodeId k m

theorem get_removeNode : (l.removeNode a).get k = if k = a then none else l.get k :=
  HashMap.lookup_erase_if l.members a k

theorem get_withSelf (nodeId : NodeId) (addr : SocketAddr) (certHash : Option CertHash) :
    (withSelf nodeId addr certHash).get k
      = if k = nodeId then some { Member.new nodeId addr with certHash := certHash } else none :=
  HashMap.lookup_insert_if ∅ nodeId k _

end MembershipList

/-- what an update makes of the record of its node, when that is not the node that hears it -/
def GossipUpdate.merge : GossipUpdate → Option Member → Option Member
  | .alive _ _ i _, some m => some (m.alive i)
  | .alive n a i c, none => some { Member.new n a with incarnation := i, certHash := c }
  | .suspect n a i, m => some ((m.getD (Member.new n a)).suspect i)
  | .dead _ _ i, m => m.map (·.dead i)
  | .leave _ _ i, m => m.map (·.dead i)

/-- **An update about another node touches the record of that node only.** -/
theorem MembershipList.get_applyUpdate {l : MembershipList} {u : GossipUpdate}
    (hu : l.selfId ≠ some u.nodeId) (k : NodeId) :
    (l.applyUpdate u).1.get k = if k = u.nodeId then u.merge (l.get k) else l.get k := by
  unfold applyUpdate
  rw [if_neg hu]
  cases u with
  | alive n a i c =>
    show _ = if k = n then _ else _
    cases h : l.get n with
    | some m =>
      simp only [h]
      rw [get_modify]
      split
      next hk =>
        rw [hk, h]
        rfl
      next => rfl
    | none =>
      simp only [h]
      rw [get_add]
      show (if k = n then _ else _) = if k = n then _ else _
      split
      next hk =>
        rw [hk, h]
        rfl
      next => rfl
  | suspect n a i =>
    show (MembershipList.modify _ n _).get k = if k = n then _ else _
    rw [get_modify]
    split
    next hk =>
      subst hk
      cases h : l.get k with
      | some m => simp only [Option.isSome_some, if_true, h]; rfl
      | none =>
        simp only [Option.isSome_none, Bool.false_eq_true, if_false]
        rw [get_add, if_pos (show k = (Member.new k a).nodeId from rfl)]
        rfl
    next hk =>
      split
      · rfl
      · exact (get_add l k _).trans (if_neg hk)
  | dead n a i | leave n a i => exact get_modify l n k _

namespace MembershipList
variable (l : MembershipList) (u : GossipUpdate) (i : UInt64)

theorem refuteAboutSelf_selfId : (l.refuteAboutSelf i).1.selfId = l.selfId := by
  fun_cases refuteAboutSelf l i <;> rfl

theorem refuteAboutSelf_get {k : NodeId} (hk : l.selfId ≠ some k) :
    (l.refuteAboutSelf i).1.get k = l.get k := by
  unfold refuteAboutSelf
  split
  · next selfId addr hid haddr =>
    split
    · rfl
    · dsimp only
      rw [get_modify, if_neg]
      · rfl
      · intro h
        rw [hid, h] at hk
        exact hk rfl
  · rfl

theorem applyUpdate_selfId : (l.applyUpdate u).1.selfId = l.selfId := by
  unfold applyUpdate
  split
  · cases u with
    | alive n a i c => rfl
    | suspect n a i | dead n a i | leave n a i => exact l.refuteAboutSelf_selfId i
  · cases u with
    | alive n a i c | suspect n a i => cases h : l.get n <;> simp [h, add, modify]
    | dead n a i | leave n a i => rfl

theorem get_applyUpdate_of_ne {k : NodeId} (hk : k ≠ u.nodeId) :
    (l.applyUpdate u).1.get k = l.get k := by
  by_cases hu : l.selfId = some u.nodeId
  · have hself : l.selfId ≠ some k := by
      rw [hu]
      exact fun h => hk (Option.some.inj h).symm
    unfold applyUpdate
    rw [if_pos hu]
    cases u with
    | alive n a i c => rfl
    | suspect n a i | dead n a i | leave n a i => exact l.refuteAboutSelf_get i hself
  · rw [get_applyUpdate hu, if_neg hk]

end MembershipList
end Rebar.Swim

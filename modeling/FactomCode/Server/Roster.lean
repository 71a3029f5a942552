import FactomCode.Server.Peer
import Mathlib.Data.List.Sort

set_option autoImplicit false

/-! # The federate roster and its role mutators

The federate servers a node knows are `s.federateServers`, a slice of `*federateServer`, each
pointing at a `*peer` whose `nodeState` is its role. Roles are changed by six mutators
(`SetLeaderPeer`, `SetLeaderPeerByID`, `setLeaderElect`, `setLeaderElectByID`,
`SetPrevLeaderPeer`, `SetPrevLeaderByID`) and read by `GetPeer`, `GetPeerByID` and the role
queries of the node's own entry.

* The role is stored with each roster entry, and assigning a role to a peer updates every entry
  holding that peer, so aliasing between entries behaves as it does through the shared `*peer`.
* The six mutators differ only in the role they assign, the role the previous holder is demoted
  to, and whether the target is a peer or a node id: they are `Server.assignRole` applied to their
  own values. `SetLeaderPeer` and `SetLeaderPeerByID` demote the old leader to `LeaderPrev`
  directly, where the other four demote to `Follower`.
* A query on the node's own entry returns `none` when the entry is missing: the Go method then
  dereferences a nil `*federateServer` and panics.
* `sort.Sort` is the parameter `GoSort`: any sort returning a permutation ordered by the key, since
  Go does not promise stability. -/

namespace FactomCode

/-- `wire.NodeState`, the role of a federate server. -/
inductive NodeState
  | candidate
  | follower
  | leaderElect
  | leader
  | leaderPrev
  deriving DecidableEq, Repr

/-- `federateServer`, with the role held in its peer's `nodeState`. `FirstAsFollower` and
    `LastSuccessVote` are read by no modelled function and are left out. -/
structure FederateServer where
  peer : Peer
  nodeState : NodeState
  startTime : Int
  firstJoined : BitVec 32
  leaderLast : BitVec 32
  deriving DecidableEq, Repr

/-- `leaderPolicy`; `Confirmed` is never set and is left out. -/
structure LeaderPolicy where
  nextLeader : Peer
  startDBHeight : BitVec 32
  term : BitVec 32
  notifyDBHeight : BitVec 32
  notified : Bool
  deriving DecidableEq, Repr

/-- `defaultLeaderTerm`. -/
def defaultLeaderTerm : BitVec 32 := 2

/-- `defaultNotifyDBHeight`. -/
def defaultNotifyDBHeight : BitVec 32 := 1

/-- The leader-election messages of package `wire`. A signature is recorded as the text it
    signs. -/
inductive WireMsg
  | nextLeader (currentID nextID : String) (startHeight : BitVec 32) (sig : String)
  | currentLeader (deadID newID sourceID : String) (height : BitVec 32) (sig : String)
  deriving DecidableEq, Repr

/-- What a leader-machine step does outside the server: `BroadcastMessage`, or the processor's
    `resetLeaderState` hook. -/
inductive Effect
  | broadcast (msg : WireMsg)
  | resetLeaderState
  deriving DecidableEq, Repr

/-- The fields of `server` that the peer handler and the leader machine read or write;
    `leaderCrashed` is the package-level flag of the same name. -/
structure Server where
  nodeID : String
  nodeType : String
  shutdown : Bool
  federateServers : List FederateServer
  myLeaderPolicy : Option LeaderPolicy
  clientPeers : List Peer
  leaderCrashed : Bool
  startTime : Int
  deriving DecidableEq

/-! ## `sort.Sort` -/

/-- `sort.Sort` over a slice ordered by an integer key (`ByLeaderLast`, `ByStartTime`): a
    permutation of the input, ordered by the key. Go does not promise stability, so elements with
    equal keys may come out in any order. -/
structure GoSort where
  sortBy : {α : Type} → (α → Int) → List α → List α
  perm : ∀ {α : Type} (key : α → Int) (l : List α), (sortBy key l).Perm l
  sorted : ∀ {α : Type} (key : α → Int) (l : List α),
    (sortBy key l).Sorted fun a b => key a ≤ key b

/-- `insertionSort`, which `sort.Sort` runs on slices of fewer than seven elements; it is
    stable. -/
def GoSort.insertion : GoSort where
  sortBy key l := l.insertionSort fun a b => key a ≤ key b
  perm _ l := List.perm_insertionSort _ l
  sorted {α} key l :=
    haveI : IsTotal α fun a b => key a ≤ key b := ⟨fun a b => le_total (key a) (key b)⟩
    haveI : IsTrans α fun a b => key a ≤ key b := ⟨fun _ _ _ => le_trans⟩
    List.sorted_insertionSort _ l

/-- The head of a sorted list has the smallest key. -/
theorem GoSort.head?_sortBy (srt : GoSort) {α : Type} (key : α → Int) {l : List α} {a : α}
    (h : (srt.sortBy key l).head? = some a) : a ∈ l ∧ ∀ b ∈ l, key a ≤ key b := by
  obtain ⟨rest, hl⟩ := List.head?_eq_some_iff.1 h
  have hsorted := srt.sorted key l
  rw [hl, List.sorted_cons] at hsorted
  have hmem : ∀ b, b ∈ l ↔ b = a ∨ b ∈ rest := fun b => by
    rw [← (srt.perm key l).mem_iff, hl, List.mem_cons]
  refine ⟨(hmem a).2 (.inl rfl), fun b hb => ?_⟩
  rcases (hmem b).1 hb with rfl | hb
  exacts [le_rfl, hsorted.1 b hb]

theorem GoSort.head?_sortBy_isSome (srt : GoSort) {α : Type} (key : α → Int) {l : List α}
    (h : l ≠ []) : (srt.sortBy key l).head?.isSome := by
  rw [Option.isSome_iff_ne_none, Ne, List.head?_eq_none_iff, ← List.length_eq_zero,
    (srt.perm key l).length_eq, List.length_eq_zero]
  exact h

/-- `ByLeaderLast`. -/
def byLeaderLast (fs : FederateServer) : Int := fs.leaderLast.toNat

/-- `ByStartTime`. -/
def byStartTime (fs : FederateServer) : Int := fs.startTime

/-! ## Roster queries -/

/-- `fs.Peer.IsCandidate()`. `peer.go` is not in the repository; the method is modelled from the
    spec's roles as a read of the peer's `nodeState`. -/
def FederateServer.isCandidate (fs : FederateServer) : Bool := fs.nodeState == .candidate

/-- One entry after `p.nodeState = ns`: it changes when it holds `p`. -/
def FederateServer.setNodeState (fs : FederateServer) (p : Peer) (ns : NodeState) :
    FederateServer :=
  if fs.peer = p then { fs with nodeState := ns } else fs

@[simp] theorem FederateServer.setNodeState_peer (fs : FederateServer) (p : Peer)
    (ns : NodeState) : (fs.setNodeState p ns).peer = fs.peer := by
  unfold FederateServer.setNodeState; split <;> rfl

@[simp] theorem FederateServer.setNodeState_nodeState (fs : FederateServer) (p : Peer)
    (ns : NodeState) :
    (fs.setNodeState p ns).nodeState = if fs.peer = p then ns else fs.nodeState := by
  unfold FederateServer.setNodeState; split <;> rfl

namespace Server

/-- `GetPeer(ns)`: the peer of the first entry in role `ns`. -/
def getPeer (s : Server) (ns : NodeState) : Option Peer :=
  (s.federateServers.find? fun fs => fs.nodeState == ns).map (·.peer)

/-- `GetPeerByID(pid)`: the peer of the first entry whose node id is `pid`. -/
def getPeerByID (s : Server) (pid : String) : Option Peer :=
  (s.federateServers.find? fun fs => fs.peer.nodeID == pid).map (·.peer)

/-- `GetFederateServerByID(pid)`. -/
def getFederateServerByID (s : Server) (pid : String) : Option FederateServer :=
  s.federateServers.find? fun fs => fs.peer.nodeID == pid

/-- `GetMyFederateServer()`. -/
def getMyFederateServer (s : Server) : Option FederateServer := s.getFederateServerByID s.nodeID

/-- `GetLeaderPeer()`. -/
def getLeaderPeer (s : Server) : Option Peer := s.getPeer .leader

/-- `GetLeaderElect()`. -/
def getLeaderElect (s : Server) : Option Peer := s.getPeer .leaderElect

/-- `GetPrevLeaderPeer()`. -/
def getPrevLeaderPeer (s : Server) : Option Peer := s.getPeer .leaderPrev

/-- Whether this node's own entry holds role `ns`, the shape of `IsLeader`, `IsLeaderElect`,
    `IsCandidate` and `IsPrevLeader`; `none` where the Go method panics on a missing entry. -/
def hasRole (s : Server) (ns : NodeState) : Option Bool :=
  s.getMyFederateServer.map fun fs => fs.nodeState == ns

/-- `IsLeader()`. -/
def isLeader (s : Server) : Option Bool := s.hasRole .leader

/-- `IsLeaderElect()`. -/
def isLeaderElect (s : Server) : Option Bool := s.hasRole .leaderElect

/-- `IsCandidate()`. -/
def isCandidate (s : Server) : Option Bool := s.hasRole .candidate

/-- `IsPrevLeader()`. -/
def isPrevLeader (s : Server) : Option Bool := s.hasRole .leaderPrev

/-- `IsFollower()`: follower, leader-elect and previous leader all count. -/
def isFollower (s : Server) : Option Bool :=
  s.getMyFederateServer.map fun fs =>
    fs.nodeState == .follower || fs.nodeState == .leaderElect || fs.nodeState == .leaderPrev

/-- `FederateServerCount()`. -/
def federateServerCount (s : Server) : Nat :=
  if s.nodeType = serverNode then s.federateServers.length else 0

/-- `isSingleServerMode()`. -/
def isSingleServerMode (s : Server) : Bool := s.federateServerCount == 1

/-- `nonCandidateServers()`: the non-candidate entries and the candidate entries, in roster
    order. -/
def nonCandidateServers (s : Server) : List FederateServer × List FederateServer :=
  (s.federateServers.filter fun fs => !fs.isCandidate,
    s.federateServers.filter fun fs => fs.isCandidate)

/-- The number of roster entries in role `ns`. -/
def holders (s : Server) (ns : NodeState) : Nat :=
  s.federateServers.countP fun fs => fs.nodeState == ns

/-- At most one entry holds each of `Leader`, `LeaderElect` and `LeaderPrev`. -/
def RolesUnique (s : Server) : Prop :=
  s.holders .leader ≤ 1 ∧ s.holders .leaderElect ≤ 1 ∧ s.holders .leaderPrev ≤ 1

instance : DecidablePred RolesUnique := fun _ =>
  inferInstanceAs (Decidable (_ ∧ _ ∧ _))

/-! ## Role mutators -/

/-- `p.nodeState = ns`: every entry holding peer `p` sees the new role. -/
def setNodeState (s : Server) (p : Peer) (ns : NodeState) : Server :=
  { s with federateServers := s.federateServers.map (·.setNodeState p ns) }

/-- The shape of the six role mutators: the current holder of `role`, if any, is demoted to
    `demoted`; then the target, looked up after the demotion, takes `role`. -/
def assignRole (s : Server) (role demoted : NodeState) (target : Server → Option Peer) : Server :=
  let s := match s.getPeer role with
    | some holder => s.setNodeState holder demoted
    | none => s
  match target s with
  | some p => s.setNodeState p role
  | none => s

/-- `SetLeaderPeer(p)`: the old leader becomes `LeaderPrev`. -/
def setLeaderPeer (s : Server) (p : Peer) : Server := s.assignRole .leader .leaderPrev fun _ => some p

/-- `SetLeaderPeerByID(pid)`. -/
def setLeaderPeerByID (s : Server) (pid : String) : Server :=
  s.assignRole .leader .leaderPrev fun s => s.getPeerByID pid

/-- `setLeaderElect(p)`: the old leader-elect becomes a follower. -/
def setLeaderElect (s : Server) (p : Peer) : Server :=
  s.assignRole .leaderElect .follower fun _ => some p

/-- `setLeaderElectByID(pid)`. -/
def setLeaderElectByID (s : Server) (pid : String) : Server :=
  s.assignRole .leaderElect .follower fun s => s.getPeerByID pid

/-- `SetPrevLeaderPeer(p)`: the old previous leader becomes a follower. -/
def setPrevLeaderPeer (s : Server) (p : Peer) : Server :=
  s.assignRole .leaderPrev .follower fun _ => some p

/-- `SetPrevLeaderByID(pid)`. -/
def setPrevLeaderByID (s : Server) (pid : String) : Server :=
  s.assignRole .leaderPrev .follower fun s => s.getPeerByID pid

/-- `GetFederateServerByID(pid).LeaderLast = h`: the first entry with node id `pid` is updated;
    `none` where there is no such entry and the assignment dereferences nil. -/
def setLeaderLast (s : Server) (pid : String) (h : BitVec 32) : Option Server :=
  (go s.federateServers).map fun fss => { s with federateServers := fss }
where
  go : List FederateServer → Option (List FederateServer)
    | [] => none
    | fs :: rest =>
      if fs.peer.nodeID = pid then some ({ fs with leaderLast := h } :: rest)
      else (go rest).map (fs :: ·)

/-! ## How the mutators move the roster -/

section SetNodeState

variable (s : Server) (p : Peer) (ns : NodeState)

@[simp] theorem setNodeState_nodeID : (s.setNodeState p ns).nodeID = s.nodeID := rfl

@[simp] theorem setNodeState_myLeaderPolicy :
    (s.setNodeState p ns).myLeaderPolicy = s.myLeaderPolicy := rfl

@[simp] theorem setNodeState_federateServers :
    (s.setNodeState p ns).federateServers = s.federateServers.map (·.setNodeState p ns) := rfl

@[simp] theorem getFederateServerByID_setNodeState (pid : String) :
    (s.setNodeState p ns).getFederateServerByID pid =
      (s.getFederateServerByID pid).map (·.setNodeState p ns) := by
  simp [getFederateServerByID, Function.comp_def]

@[simp] theorem getPeerByID_setNodeState (pid : String) :
    (s.setNodeState p ns).getPeerByID pid = s.getPeerByID pid := by
  simp [getPeerByID, Function.comp_def]

@[simp] theorem getMyFederateServer_setNodeState :
    (s.setNodeState p ns).getMyFederateServer = s.getMyFederateServer.map (·.setNodeState p ns) :=
  getFederateServerByID_setNodeState s p ns s.nodeID

end SetNodeState

end Server

end FactomCode

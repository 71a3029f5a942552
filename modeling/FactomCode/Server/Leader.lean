import FactomCode.Server.Roster

set_option autoImplicit false

/-! # The leader machine

The height-driven half of the leader election: `handleNextLeader`, fired with the height of each
newly sealed directory block, and the three procedures it and the peer handler call,
`selectNextLeader` (the leader picks its successor by `LeaderLast`), `selectCurrentleader` (the
survivors of a crashed leader pick a new one) and `sendCurrentLeaderMsg` (a node makes itself the
leader and announces it).

Each procedure takes the server state and returns the new state and the effects it had
(`BroadcastMessage`, `resetLeaderState`), or `none` where the Go code dereferences a nil pointer:
a missing own roster entry, a nil `myLeaderPolicy`, or a `GetFederateServerByID` that found
nothing. Heights are `uint32`, so `height + 1` and `StartDBHeight - 1` wrap. -/

namespace FactomCode

namespace Server

/-- The synthetic peer `newServer` creates for the node itself. -/
def selfPeer (nodeID nodeType : String) : Peer :=
  { id := 0, addr := "", na := "", inbound := false, persistent := false, retryCount := 0,
    nodeID, nodeType }

/-- The federate part of `newServer`: a `SERVER_NODE` puts its own entry first in the roster, as
    the leader with a fresh policy when `InitLeader` is set and as a candidate otherwise.
    `newestHeight` is what `db.FetchBlockHeightCache` returns, clamped at 0. -/
def newServer (nodeID nodeType : String) (startTime newestHeight : Int) (initLeader : Bool) :
    Server :=
  let h : BitVec 32 := BitVec.ofInt 32 (max newestHeight 0)
  let base : Server :=
    { nodeID, nodeType, shutdown := false, federateServers := [], myLeaderPolicy := none,
      clientPeers := [], leaderCrashed := false, startTime }
  let peer := selfPeer nodeID nodeType
  if nodeType = serverNode then
    if initLeader then
      { base with
        federateServers := [⟨peer, .leader, startTime, h, h + 1⟩]
        myLeaderPolicy := some ⟨peer, h + 2, defaultLeaderTerm, defaultNotifyDBHeight, false⟩ }
    else { base with federateServers := [⟨peer, .candidate, startTime, 0, 0⟩] }
  else base

/-- `sendCurrentLeaderMsg(deadLeader, newLeader, source, h)`: this node becomes the leader with a
    fresh policy starting at `h`, and broadcasts `CurrentLeader`, signed over
    `deadLeader + newLeader + source + itoa(h)`. -/
def sendCurrentLeaderMsg (s : Server) (deadLeader newLeader source : String) (h : BitVec 32) :
    Option (Server × List Effect) := do
  let s := s.setLeaderPeerByID s.nodeID
  let me ← s.getMyFederateServer
  let s := { s with
    myLeaderPolicy := some ⟨me.peer, h, defaultLeaderTerm, defaultNotifyDBHeight, false⟩ }
  let msg := WireMsg.currentLeader deadLeader newLeader source h
    (deadLeader ++ newLeader ++ source ++ toString h.toNat)
  return (s, .broadcast msg :: if s.leaderCrashed then [.resetLeaderState] else [])

variable (srt : GoSort)

/-- `selectNextLeader(height)`: a leader that is the only non-candidate extends its own term;
    otherwise it notifies the first non-candidate other than itself by `LeaderLast`. -/
def selectNextLeader (s : Server) (height : BitVec 32) : Option (Server × List Effect) := do
  if !(← s.isLeader) then return (s, [])
  let nonCandidates := s.nonCandidateServers.1
  if nonCandidates.length = 1 ∧ nonCandidates.head?.map (·.peer.nodeID) = some s.nodeID then
    let P ← s.myLeaderPolicy
    return ({ s with myLeaderPolicy := some { P with startDBHeight := height + 3 } }, [])
  match (srt.sortBy byLeaderLast nonCandidates).find? (·.peer.nodeID != s.nodeID) with
  | none => return (s, [])
  | some next =>
    let P ← s.myLeaderPolicy
    let msg := WireMsg.nextLeader s.nodeID next.peer.nodeID (P.startDBHeight + P.term)
      (s.nodeID ++ next.peer.nodeID)
    return ({ s with myLeaderPolicy := some { P with notified := true } }, [.broadcast msg])

/-- `selectCurrentleader(height)`, run when the leader is gone. Precedence: the leader-elect or
    the only remaining non-candidate takes over; else nothing happens while a leader-elect exists;
    else the previous leader takes over; else the non-candidate with the smallest `StartTime`
    after `sort.Sort`. Candidates never act when they are all that is left. -/
def selectCurrentleader (s : Server) (height : BitVec 32) : Option (Server × List Effect) := do
  if (← s.isLeader) then return (s, [])
  let (nonCandidates, candidates) := s.nonCandidateServers
  if nonCandidates.isEmpty && !candidates.isEmpty then return (s, [])
  let candidate ← s.isCandidate
  let onlyFollower := !candidate && nonCandidates.length == 1 &&
    nonCandidates.head?.map (·.peer.nodeID) == some s.nodeID
  let elect ← s.isLeaderElect
  if elect || onlyFollower then
    s.sendCurrentLeaderMsg ((s.getLeaderPeer.map (·.nodeID)).getD "") s.nodeID s.nodeID (height + 1)
  else if s.getLeaderElect.isSome then return (s, [])
  else match s.getPrevLeaderPeer with
    | some prev =>
      if !candidate && prev.nodeID == s.nodeID then
        s.sendCurrentLeaderMsg prev.nodeID s.nodeID s.nodeID (height + 1)
      else return (s, [])
    | none =>
      let head ← (srt.sortBy byStartTime nonCandidates).head?
      if head.peer.nodeID == s.nodeID then
        s.sendCurrentLeaderMsg ((s.getLeaderPeer.map (·.nodeID)).getD "") s.nodeID s.nodeID
          (height + 1)
      else return (s, [])

/-- `handleNextLeader(height)`, with `height` the latest directory-block height. In single-server
    mode the policy only moves its start. The leader-elect takes over at `StartDBHeight - 1`; the
    leader notifies its successor at `StartDBHeight + NotifyDBHeight - 1` and hands over at
    `StartDBHeight + Term - 1`. -/
def handleNextLeader (s : Server) (height : BitVec 32) : Option (Server × List Effect) := do
  let leader ← s.isLeader
  let elect ← s.isLeaderElect
  if !leader && !elect then return (s, [])
  if s.isSingleServerMode then
    let P ← s.myLeaderPolicy
    return ({ s with myLeaderPolicy := some { P with startDBHeight := height + 1 } }, [])
  if elect then
    let P ← s.myLeaderPolicy
    if height > P.startDBHeight then return (s, [])
    else if height = P.startDBHeight - 1 then takeOver s height
    else return (s, [])
  else
    let P ← s.myLeaderPolicy
    if height > P.startDBHeight + P.term then return (s, [])
    else if height = P.startDBHeight + P.notifyDBHeight - 1 then s.selectNextLeader srt height
    else if height = P.startDBHeight + P.term - 1 then handOff s height
    else return (s, [])
where
  /-- The leader-elect's takeover: the leader's `LeaderLast` is set to `height`, then
      `sendCurrentLeaderMsg` at `height + 1`. -/
  takeOver (s : Server) (height : BitVec 32) : Option (Server × List Effect) := do
    let (s, leaderID) ← match s.getLeaderPeer with
      | some leader => (s.setLeaderLast leader.nodeID height).map (·, leader.nodeID)
      | none => some (s, "")
    s.sendCurrentLeaderMsg leaderID s.nodeID s.nodeID (height + 1)
  /-- The leader's hand-off: it becomes the previous leader, the leader-elect becomes the
      leader, the policy is cleared and the node's own `LeaderLast` set to `height`. -/
  handOff (s : Server) (height : BitVec 32) : Option (Server × List Effect) := do
    let s := s.setPrevLeaderByID s.nodeID
    let s := match s.getLeaderElect with
      | some e => s.setLeaderPeer e
      | none => s
    let s ← { s with myLeaderPolicy := none }.setLeaderLast s.nodeID height
    return (s, [])

end Server

end FactomCode

import FactomCode.Server.Leader

set_option autoImplicit false

/-! # The peer handler

`peerHandler` is the goroutine that owns the peer state. It admits the configured persistent
peers, then loops: it handles one channel event, then replenishes outbound connections. Here each
handler is a function of the server and the peer state.

* What a handler reads from outside the state is an input: the time (`time.Now()`), the newest
  block height (`db.FetchBlockHeightCache`), a peer's runtime status (`Connected`,
  `RelayTxDisabled`, the block it last announced), the addresses the address manager hands out,
  and what `newOutboundPeer` returned.
* Every call of `newOutboundPeer` is returned as a `Dial`, so that a run can state what it
  assumes of that function.
* A handler returns `none` where the Go code dereferences a nil peer or otherwise panics.
* A run (`Run`) is the startup admission followed by loop rounds, one event each; before a round
  the runtime may iterate the maps in a new order. -/

namespace FactomCode

/-- Modelled from the spec: `newOutboundPeer(s, addr, persistent, retryCount)` (`peer.go`, not in
    the repository) allocates a new outbound peer for `addr` with the requested persistence and
    retry count, or returns nil when it cannot set one up. A new peer is none of the keys of the
    state's maps. -/
def NewOutboundPeer (d : Dial) : Prop :=
  ∀ q ∈ d.result, q.addr = d.addr ∧ q.inbound = false ∧ q.persistent = d.persistent ∧
    q.retryCount = d.retryCount ∧ some q ∉ d.st.forAllPeers

instance : DecidablePred NewOutboundPeer := fun d =>
  inferInstanceAs (Decidable (∀ q ∈ d.result, _))

/-- Modelled from the spec: the listener hands the peer handler the result of `newInboundPeer`
    (`peer.go`), a new inbound peer that is not persistent. -/
def NewInboundPeer (st : PeerState) (p : Peer) : Prop :=
  p.inbound = true ∧ p.persistent = false ∧ some p ∉ st.forAllPeers

namespace PeerState

/-- The map `handleDonePeerMsg` looks for `p` in: the persistent peers, else the inbound peers,
    else the outbound peers. -/
def listFor (st : PeerState) (p : Peer) : PeerMap :=
  if p.persistent then st.persistentPeers else if p.inbound then st.peers else st.outboundPeers

/-- Stores `m` as the map `listFor p` selects. -/
def setListFor (st : PeerState) (p : Peer) (m : PeerMap) : PeerState :=
  if p.persistent then { st with persistentPeers := m }
  else if p.inbound then { st with peers := m } else { st with outboundPeers := m }

/-- `outboundGroups[k] += d`. -/
def addGroup (st : PeerState) (k : String) (d : Int) : PeerState :=
  { st with outboundGroups := Function.update st.outboundGroups k (st.outboundGroups k + d) }

/-- The filing at the end of `handleAddPeerMsg`: an inbound peer joins `peers`; an outbound one
    is counted in its address group and joins `persistentPeers` or `outboundPeers`. -/
def file (st : PeerState) (net : NetLib) (p : Peer) : PeerState :=
  if p.inbound then { st with peers := st.peers.insert (some p) }
  else
    let st := st.addGroup (net.groupKey p.na) 1
    if p.persistent then { st with persistentPeers := st.persistentPeers.insert (some p) }
    else { st with outboundPeers := st.outboundPeers.insert (some p) }

end PeerState

/-- `disconnectPeer(peerList, compareFunc, whenFound)`: the first key in iteration order that
    `compareFunc` accepts is removed and returned, for `whenFound`; `none` where `compareFunc`
    reads a nil key. -/
def disconnectPeer (m : PeerMap) (cmp : Peer → Bool) : Option (Option Peer × PeerMap) :=
  (find m.keys).map fun found => (found, match found with
    | some q => m.delete (some q)
    | none => m)
where
  find : List (Option Peer) → Option (Option Peer)
    | [] => some none
    | none :: _ => none
    | some q :: rest => if cmp q then some (some q) else find rest

/-- Whether a key of `keys` has address `addr`, checked in iteration order; `none` where a nil key
    is read first. -/
def anyAddr (addr : String) : List (Option Peer) → Option Bool
  | [] => some false
  | none :: _ => none
  | some q :: rest => if q.addr = addr then some true else anyAddr addr rest

/-- The loop `for i, client := range s.clientPeers { if client == p { s.clientPeers =
    append(s.clientPeers[:i], s.clientPeers[i+1:]...) } }`. `range` reads the backing array at
    index `i` through the slice it started with; each `append` shifts the rest of the current
    slice left in that same array and shortens the slice by one; `s.clientPeers[i+1:]` panics once
    `i + 1` exceeds the current length. The loop state is the array and the current length. -/
def removeClientPeer (p : Peer) (clients : List Peer) : Option (List Peer) :=
  (go clients.length 0 clients clients.length).map fun (arr, len) => arr.take len
where
  go : Nat → Nat → List Peer → Nat → Option (List Peer × Nat)
    | 0, _, arr, len => some (arr, len)
    | k + 1, i, arr, len =>
      if arr[i]? = some p then
        if i + 1 ≤ len then
          go k (i + 1) (arr.take i ++ (arr.take len).drop (i + 1) ++ arr.drop (len - 1)) (len - 1)
        else none
      else go k (i + 1) arr len

/-- `append(s.federateServers[:i], s.federateServers[i+1:]...)` for the first `i` whose entry holds
    `p`: the removed entry and the remaining roster, or `none` when no entry holds `p`. -/
def removeFederateServer (p : Peer) : List FederateServer → Option (FederateServer × List FederateServer)
  | [] => none
  | fs :: rest =>
    if fs.peer = p then some (fs, rest)
    else (removeFederateServer p rest).map fun (r, rest) => (r, fs :: rest)

/-- Ten minutes in nanoseconds, the unit of `time.Duration`. -/
def tenMinutes : Int := 600000000000

/-- What one round of the replenishment loop reads: what `GetAddress` returned (`none` for nil),
    the time, and what `newOutboundPeer` returned if the round dials. -/
structure Draw where
  addr : Option KnownAddress
  now : Int
  dialled : Option Peer

/-- The queries and commands of `handleQuery`, with what serving them reads besides the state:
    the peers' `Connected` status, and the time and the result of `newOutboundPeer` for
    `connectNode`. -/
inductive Query
  | getConnCount (connected : Peer → Bool)
  | getPeerInfo (connected : Peer → Bool)
  | getAddedNodes
  | connectNode (addr : String) (permanent : Bool) (dialled : Option Peer) (now : Int)
  | removeNode (cmp : Peer → Bool)
  | disconnectNode (cmp : Peer → Bool)

/-- Whether a query is `connectNode`. -/
def Query.isConnectNode : Query → Bool
  | .connectNode .. => true
  | _ => false

/-- What `handleQuery` sends on the reply channel: a count, the connected peers described by
    `getPeerInfo`, the persistent peers, or the error (`none` for nil) of a command. -/
inductive Reply
  | connCount (n : Nat)
  | peerInfo (peers : List Peer)
  | addedNodes (peers : List (Option Peer))
  | err (e : Option String)

/-- The events the `select` of `peerHandler` handles, with what each handler reads besides the
    state. `stop` is `Stop()` setting `shutdown` from another goroutine; `quit` ends the loop and
    is not a round. -/
inductive Event
  | newPeer (p : Peer) (now : Int)
  | donePeer (p : Peer) (redial : Option Peer) (newestHeight : Int)
  | updatePeerHeights (originPeer : Option Peer) (announced : Peer → Bool)
  | banPeer (p : Peer) (now : Int)
  | relayInv (isTx : Bool) (connected relayTxDisabled : Peer → Bool)
  | broadcast (excludePeers : List (Option Peer)) (connected : Peer → Bool)
  | wakeup
  | query (q : Query)
  | stop

/-- Whether an event is a `connectNode` command. -/
def Event.isConnectNode : Event → Bool
  | .query q => q.isConnectNode
  | _ => false

/-- `cfg.ConnectPeers`, or `cfg.AddPeers` when it is empty. -/
def Config.permanentPeers (cfg : Config) : List String :=
  if cfg.connectPeers.isEmpty then cfg.addPeers else cfg.connectPeers

variable (srt : GoSort) (cfg : Config) (net : NetLib)

namespace Server

/-- `handleAddPeerMsg(state, p)` at time `now`: refuses a nil peer, every peer during shutdown, a
    peer whose address or node id a federate server already has, an address without a host, a
    banned host (forgetting a ban that has run out) and a peer beyond `MaxPeers`; otherwise files
    the peer by direction and persistence, counting an outbound peer in its address group. -/
def handleAddPeerMsg (s : Server) (st : PeerState) (now : Int) : Option Peer → PeerState × Bool
  | none => (st, false)
  | some p =>
    if s.shutdown then (st, false)
    else if s.federateServers.any fun fed => fed.peer.addr == p.addr || fed.peer.nodeID == p.nodeID
    then (st, false)
    else match net.splitHostPort p.addr with
      | none => (st, false)
      | some host =>
        match st.banned host with
        | some banEnd =>
          if now < banEnd then (st, false)
          else limit { st with banned := Function.update st.banned host none } p
        | none => limit st p
where
  /-- The rest of `handleAddPeerMsg` for a peer that is not banned: the `MaxPeers` check, then the
      filing. -/
  limit (st : PeerState) (p : Peer) : PeerState × Bool :=
    if cfg.maxPeers ≤ st.count then (st, false) else (st.file net p, true)

/-- The peer-map half of `handleDonePeerMsg(state, p)`. A persistent outbound peer is replaced by
    `redial`, the result of `newOutboundPeer(s, p.addr, true, p.retryCount+1)`, unless the server
    is shutting down; otherwise `p` is removed from the map its flags select, and an outbound
    peer is counted out of its group. -/
def donePeerMaps (s : Server) (st : PeerState) (p : Peer) (redial : Option Peer) :
    PeerState × List Dial :=
  let list := st.listFor p
  if some p ∈ list.keys then
    if !p.inbound && p.persistent && !s.shutdown then
      (st.setListFor p ((list.delete (some p)).insert redial),
        [⟨st, p.addr, true, p.retryCount + 1, redial⟩])
    else
      let st' := if !p.inbound then st.addGroup (net.groupKey p.na) (-1) else st
      (st'.setListFor p (list.delete (some p)), [])
  else (st, [])

/-- The roster half of `handleDonePeerMsg`. A `SERVER_NODE` peer loses its first roster entry; if
    it was the leader-elect and this node leads, a new successor is chosen, and if it was the
    leader, the crash is recorded and a new leader is elected. Any other peer is removed from
    `clientPeers`. `newestHeight` is what `db.FetchBlockHeightCache` returned. -/
def doneRoster (s : Server) (p : Peer) (newestHeight : Int) : Option (Server × List Effect) := do
  if p.nodeType = serverNode then
    match removeFederateServer p s.federateServers with
    | none => return (s, [])
    | some (fs, rest) =>
      let s := { s with federateServers := rest }
      let h : BitVec 32 := BitVec.ofInt 32 newestHeight
      if (← s.isLeader) && fs.nodeState == .leaderElect then s.selectNextLeader srt h
      else if fs.nodeState == .leader then
        let s := { s with leaderCrashed := true }
        s.selectCurrentleader srt h
      else return (s, [])
  else
    let clientPeers ← removeClientPeer p s.clientPeers
    return ({ s with clientPeers }, [])

/-- `handleDonePeerMsg(state, p)`: the peer maps, then the roster. -/
def handleDonePeerMsg (s : Server) (st : PeerState) (p : Peer) (redial : Option Peer)
    (newestHeight : Int) : Option (Server × PeerState × List Effect × List Dial) := do
  let (st, dials) := donePeerMaps net s st p redial
  let (s, effs) ← doneRoster srt s p newestHeight
  return (s, st, effs, dials)

end Server

/-- `handleBanPeerMsg(state, p)` at time `now`: bans the host of `p.addr` until
    `now + cfg.BanDuration`. -/
def handleBanPeerMsg (st : PeerState) (now : Int) (p : Peer) : PeerState :=
  match net.splitHostPort p.addr with
  | none => st
  | some host => { st with banned := Function.update st.banned host (some (now + cfg.banDuration)) }

/-- `handleRelayInvMsg(state, msg)`: the peers, in `forAllPeers` order, the inventory is queued
    on: the connected ones, except those with transaction relay disabled when it is a
    transaction. A nil key panics at `p.Connected()`. -/
def handleRelayInvMsg (st : PeerState) (isTx : Bool) (connected relayTxDisabled : Peer → Bool) :
    Option (List Peer) :=
  (st.forAllPeers.mapM id).map (·.filter fun q => connected q && !(isTx && relayTxDisabled q))

/-- `handleBroadcastMsg(state, bmsg)`: the peers, in `forAllPeers` order, that `bmsg.message` is
    queued on: the connected ones not in `excludePeers`. A nil key panics at `p.Connected()`. -/
def handleBroadcastMsg (st : PeerState) (excludePeers : List (Option Peer))
    (connected : Peer → Bool) : Option (List Peer) :=
  (st.forAllPeers.mapM id).map (·.filter fun q => !excludePeers.contains (some q) && connected q)

/-- `handleUpdatePeerHeights(state, umsg)`: the peers, other than the origin, whose last
    announced block is the accepted one and whose height is updated. A nil key other than the
    origin panics at `p.StatsMtx`. -/
def handleUpdatePeerHeights (st : PeerState) (originPeer : Option Peer)
    (announced : Peer → Bool) : Option (List Peer) :=
  ((st.forAllPeers.filter (· != originPeer)).mapM id).map (·.filter announced)

/-- The `quit` case of `peerHandler`: `state.forAllPeers(func(p *peer) { p.Shutdown() })`, the
    peers shut down, in `forAllPeers` order. A nil key panics at `p.Shutdown()`. -/
def handleQuit (st : PeerState) : Option (List Peer) := st.forAllPeers.mapM id

/-- The loop `for found { found = disconnectPeer(state.outboundPeers, msg.cmp, ...) }` of
    `disconnectNode`: removes the remaining outbound peers `cmp` accepts one at a time, counting
    each out of its group. A round that finds one removes a key, so `len + 1` rounds reach the
    round that finds none. -/
def disconnectOutbound (cmp : Peer → Bool) (st : PeerState) : Option PeerState :=
  go (st.outboundPeers.len + 1) st
where
  go : Nat → PeerState → Option PeerState
    | 0, st => some st
    | k + 1, st => do
      let (found, m) ← disconnectPeer st.outboundPeers cmp
      match found with
      | some q => go k { st.addGroup (net.groupKey q.na) (-1) with outboundPeers := m }
      | none => some st

namespace Server

/-- `handleQuery(querymsg, state)`: the new state, the reply, and the dial `connectNode` made. -/
def handleQuery (s : Server) (st : PeerState) : Query → Option (PeerState × Reply × List Dial)
  | .getConnCount connected =>
    (st.forAllPeers.mapM id).map fun ps => (st, .connCount (ps.countP connected), [])
  | .getPeerInfo connected =>
    (st.forAllPeers.mapM id).map fun ps => (st, .peerInfo (ps.filter connected), [])
  | .getAddedNodes => some (st, .addedNodes st.persistentPeers.keys, [])
  | .connectNode addr permanent dialled now => do
    if ← anyAddr addr st.persistentPeers.keys then
      return (st, .err (some (if permanent then "peer already connected"
        else "peer exists as a permanent peer")), [])
    let (st', ok) := handleAddPeerMsg cfg net s st now dialled
    return (st', .err (if ok then none else some "failed to add peer"),
      [⟨st, addr, permanent, 0, dialled⟩])
  | .removeNode cmp => do
    let (found, m) ← disconnectPeer st.persistentPeers cmp
    match found with
    | some q =>
      return ({ st.addGroup (net.groupKey q.na) (-1) with persistentPeers := m }, .err none, [])
    | none => return (st, .err (some "peer not found"), [])
  | .disconnectNode cmp => do
    let (found, m) ← disconnectPeer st.peers cmp
    if found.isSome then return ({ st with peers := m }, .err none, [])
    let (found, m) ← disconnectPeer st.outboundPeers cmp
    match found with
    | some q =>
      let st ← disconnectOutbound net cmp { st.addGroup (net.groupKey q.na) (-1) with outboundPeers := m }
      return (st, .err none, [])
    | none => return (st, .err (some "peer not found"), [])

/-- The inner loop `for state.NeedMoreOutbound() && shutdown == 0` of outbound replenishment, one
    draw per round; `tries` counts the candidates skipped since the last dial. A round breaks on a
    nil address, on an address group that already has an outbound peer, and after 100 skips; it
    skips an address last tried more than ten minutes ago before 30 skips, and one off the
    default port before 50. `none` when the draws run out while the loop goes on. -/
def burst (s : Server) : List Draw → Nat → PeerState → Option (PeerState × List Dial)
  | [], _, st =>
    if st.needMoreOutbound cfg && !s.shutdown then none else some (st, [])
  | d :: ds, tries, st =>
    if !(st.needMoreOutbound cfg && !s.shutdown) then some (st, [])
    else match d.addr with
      | none => some (st, [])
      | some a =>
        if st.outboundGroups (net.groupKey a.na) ≠ 0 then some (st, [])
        else if 100 < tries + 1 then some (st, [])
        else if a.lastAttempt + tenMinutes < d.now && tries + 1 < 30 then burst s ds (tries + 1) st
        else if toString a.port ≠ cfg.defaultPort && tries + 1 < 50 then burst s ds (tries + 1) st
        else
          let addrStr := net.netAddressKey a.na
          (burst s ds 0 (handleAddPeerMsg cfg net s st d.now d.dialled).1).map fun (st', dials) =>
            (st', ⟨st, addrStr, false, 0, d.dialled⟩ :: dials)

/-- Outbound replenishment after an event: nothing on the simulation network, when enough
    peers are connected, when `ConnectPeers` is set, or during shutdown; otherwise a burst. -/
def replenish (s : Server) (draws : List Draw) (st : PeerState) : Option (PeerState × List Dial) :=
  if cfg.simNet || !st.needMoreOutbound cfg || !cfg.connectPeers.isEmpty || s.shutdown then
    some (st, [])
  else burst cfg net s draws 0 st

/-- The startup loop of `peerHandler`: each permanent peer's address with what `newOutboundPeer`
    returned for it is passed to `handleAddPeerMsg`. -/
def startPersistentPeers (s : Server) (now : Int) :
    List (String × Option Peer) → PeerState → PeerState × List Dial
  | [], st => (st, [])
  | (addr, dialled) :: rest, st =>
    let (st', dials) := startPersistentPeers s now rest (handleAddPeerMsg cfg net s st now dialled).1
    (st', ⟨st, addr, true, 0, dialled⟩ :: dials)

/-- The handler of one event: the new server and peer state, and the dials it made. -/
def handleEvent (s : Server) (st : PeerState) : Event → Option (Server × PeerState × List Dial)
  | .newPeer p now => some (s, (handleAddPeerMsg cfg net s st now (some p)).1, [])
  | .donePeer p redial newestHeight =>
    (handleDonePeerMsg srt net s st p redial newestHeight).map fun (s, st, _, dials) => (s, st, dials)
  | .updatePeerHeights originPeer announced =>
    (handleUpdatePeerHeights st originPeer announced).map fun _ => (s, st, [])
  | .banPeer p now => some (s, handleBanPeerMsg cfg net st now p, [])
  | .relayInv isTx connected relayTxDisabled =>
    (handleRelayInvMsg st isTx connected relayTxDisabled).map fun _ => (s, st, [])
  | .broadcast excludePeers connected =>
    (handleBroadcastMsg st excludePeers connected).map fun _ => (s, st, [])
  | .wakeup => some (s, st, [])
  | .query q => (handleQuery cfg net s st q).map fun (st, _, dials) => (s, st, dials)
  | .stop => some ({ s with shutdown := true }, st, [])

/-- One round of the `peerHandler` loop: the event, then replenishment. -/
def peerHandlerRound (s : Server) (st : PeerState) (ev : Event) (draws : List Draw) :
    Option (Server × PeerState × List Dial) := do
  let (s, st, dials) ← handleEvent srt cfg net s st ev
  let (st, dials') ← replenish cfg net s draws st
  return (s, st, dials ++ dials')

end Server

/-- Whether a listener event hands over a `NewInboundPeer`. -/
def Event.Admissible (st : PeerState) : Event → Prop
  | .newPeer p _ => NewInboundPeer st p
  | _ => True

/-- The runs of the peer handler, with the events handled so far: the startup admission from the
    empty state, then rounds in any order of events. Before each round the maps may be iterated
    in a new order. Every call of `newOutboundPeer` satisfies `dial`. -/
inductive Run (dial : Dial → Prop) : List Event → Server → PeerState → Prop
  | start (s : Server) (now : Int) (dialled : List (Option Peer))
      (hlen : dialled.length = cfg.permanentPeers.length)
      (hdial : ∀ d ∈ (s.startPersistentPeers cfg net now (cfg.permanentPeers.zip dialled)
        (.init cfg)).2, dial d) :
      Run dial [] s (s.startPersistentPeers cfg net now (cfg.permanentPeers.zip dialled) (.init cfg)).1
  | round {evs : List Event} {s s' : Server} {st st₁ st' : PeerState} {ev : Event}
      {draws : List Draw} {dials : List Dial} :
      Run dial evs s st → st.Reorder st₁ → ev.Admissible st₁ →
      s.peerHandlerRound srt cfg net st₁ ev draws = some (s', st', dials) → (∀ d ∈ dials, dial d) →
      Run dial (evs ++ [ev]) s' st'

end FactomCode

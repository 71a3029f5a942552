import Mathlib.Data.List.Nodup

set_option autoImplicit false

/-! # Peers and the peer handler's state

The peer manager of `server.go` (the second file concatenated in `src/common/cchain.go`) owns its
peer set through `peerState`: three Go maps keyed by `*peer` (inbound peers, outbound transient
peers, outbound persistent peers), the banned hosts, and the number of outbound peers per address
group.

* A `Peer` is the part of a `*peer` the server reads and never changes after creation: its
  address and net address, its direction and persistence, its retry count, its node id and type,
  and its numeric id. Two peers are the same pointer when they are equal as values; the runs of
  the peer handler only ever create fresh ones.
* A Go `map[*peer]struct{}` is a `PeerMap`: its keys without repetition, `none` for a nil key, in
  the order the runtime iterates it at this moment. Go randomises that order, and the runs let
  it change between any two events (`PeerState.Reorder`).
* `cfg` and the address-manager and `net` functions the handler calls are the parameters
  `Config` and `NetLib`. -/

namespace FactomCode

/-- The immutable fields of a `*peer` that the server reads. `na` stands for the peer's
    `wire.NetAddress`, which only `addrmgr.GroupKey` inspects. -/
structure Peer where
  id : Int
  addr : String
  na : String
  inbound : Bool
  persistent : Bool
  retryCount : Nat
  nodeID : String
  nodeType : String
  deriving DecidableEq, Repr

/-- Modelled from the spec: `common.SERVER_NODE` (constants.go, not in the repository) is the node
    mode of a federate server. Only comparisons with it are made, so any fixed string serves. -/
def serverNode : String := "SERVER"

/-! ## Go maps keyed by peer pointers -/

/-- `map[*peer]struct{}`: the keys, without repetition, in the runtime's current iteration
    order; `none` is a nil key. -/
structure PeerMap where
  keys : List (Option Peer)
  nodup : keys.Nodup

namespace PeerMap

/-- `make(map[*peer]struct{})`. -/
def empty : PeerMap := ⟨[], List.nodup_nil⟩

/-- `m[k] = struct{}{}`; inserting a present key changes nothing. -/
def insert (m : PeerMap) (k : Option Peer) : PeerMap :=
  if h : k ∈ m.keys then m else ⟨k :: m.keys, List.nodup_cons.2 ⟨h, m.nodup⟩⟩

/-- `delete(m, k)`. -/
def delete (m : PeerMap) (k : Option Peer) : PeerMap := ⟨m.keys.erase k, m.nodup.erase k⟩

/-- `len(m)`. -/
def len (m : PeerMap) : Nat := m.keys.length

@[simp] theorem keys_empty : empty.keys = [] := rfl

@[simp] theorem mem_insert (m : PeerMap) (k x : Option Peer) :
    x ∈ (m.insert k).keys ↔ x = k ∨ x ∈ m.keys := by
  unfold insert
  split
  · exact ⟨Or.inr, by rintro (rfl | h) <;> assumption⟩
  · simp

@[simp] theorem mem_delete (m : PeerMap) (k x : Option Peer) :
    x ∈ (m.delete k).keys ↔ x ≠ k ∧ x ∈ m.keys :=
  m.nodup.mem_erase_iff

theorem len_insert (m : PeerMap) (k : Option Peer) :
    (m.insert k).len = if k ∈ m.keys then m.len else m.len + 1 := by
  unfold insert len
  split <;> simp_all

theorem len_insert_le (m : PeerMap) (k : Option Peer) : (m.insert k).len ≤ m.len + 1 := by
  rw [len_insert]; split <;> omega

theorem len_delete (m : PeerMap) (k : Option Peer) :
    (m.delete k).len = if k ∈ m.keys then m.len - 1 else m.len := by
  unfold delete len
  split
  · exact List.length_erase_of_mem ‹_›
  · exact congrArg List.length (List.erase_of_not_mem ‹_›)

theorem len_delete_le (m : PeerMap) (k : Option Peer) : (m.delete k).len ≤ m.len := by
  rw [len_delete]; split <;> omega

/-- Two maps with the same keys, possibly iterated in another order. -/
def Reorder (m m' : PeerMap) : Prop := m.keys.Perm m'.keys

theorem Reorder.len_eq {m m' : PeerMap} (h : m.Reorder m') : m.len = m'.len :=
  List.Perm.length_eq h

theorem Reorder.mem_iff {m m' : PeerMap} (h : m.Reorder m') {x : Option Peer} :
    x ∈ m.keys ↔ x ∈ m'.keys := List.Perm.mem_iff h

end PeerMap

/-! ## `peerState` -/

/-- `peerState`. Time is in nanoseconds, as Go's `time.Duration`; `banned` maps a host to the end
    of its ban and `outboundGroups` an address group to its count of outbound peers. -/
structure PeerState where
  peers : PeerMap
  outboundPeers : PeerMap
  persistentPeers : PeerMap
  banned : String → Option Int
  outboundGroups : String → Int
  maxOutboundPeers : Int

/-- The parts of `cfg` and `activeNetParams` the peer handler reads. -/
structure Config where
  maxPeers : Int
  banDuration : Int
  connectPeers : List String
  addPeers : List String
  simNet : Bool
  defaultPort : String

/-- The library functions the peer handler calls: `net.SplitHostPort`, giving the host or `none`
    on error, and `addrmgr.GroupKey` and `addrmgr.NetAddressKey` of a net address. -/
structure NetLib where
  splitHostPort : String → Option String
  groupKey : String → String
  netAddressKey : String → String

/-- What `addrManager.GetAddress` hands out: the net address, the time of the last connection
    attempt, and the port. -/
structure KnownAddress where
  na : String
  lastAttempt : Int
  port : Nat

/-- A call `newOutboundPeer(s, addr, persistent, retryCount)` made in peer state `st`, with the
    peer it returned (`none` for nil). The function is in `peer.go`, which is not in the
    repository: a run states what it assumes of these calls. -/
structure Dial where
  st : PeerState
  addr : String
  persistent : Bool
  retryCount : Nat
  result : Option Peer

/-- `defaultMaxOutbound`. -/
def defaultMaxOutbound : Int := 8

namespace PeerState

/-- The state `peerHandler` starts from: empty maps and
    `maxOutboundPeers = min(defaultMaxOutbound, cfg.MaxPeers)`. -/
def init (cfg : Config) : PeerState where
  peers := .empty
  outboundPeers := .empty
  persistentPeers := .empty
  banned := fun _ => none
  outboundGroups := fun _ => 0
  maxOutboundPeers := if cfg.maxPeers < defaultMaxOutbound then cfg.maxPeers else defaultMaxOutbound

/-- `(*peerState).Count`. -/
def count (st : PeerState) : Nat := st.peers.len + st.outboundPeers.len + st.persistentPeers.len

/-- `(*peerState).OutboundCount`. -/
def outboundCount (st : PeerState) : Nat := st.outboundPeers.len + st.persistentPeers.len

/-- `(*peerState).NeedMoreOutbound`. -/
def needMoreOutbound (cfg : Config) (st : PeerState) : Bool :=
  decide ((st.outboundCount : Int) < st.maxOutboundPeers) && decide ((st.count : Int) < cfg.maxPeers)

/-- The keys `forAllOutboundPeers` visits, in order: outbound, then persistent peers. -/
def forAllOutboundPeers (st : PeerState) : List (Option Peer) :=
  st.outboundPeers.keys ++ st.persistentPeers.keys

/-- The keys `forAllPeers` visits, in order: inbound peers, then `forAllOutboundPeers`. -/
def forAllPeers (st : PeerState) : List (Option Peer) :=
  st.peers.keys ++ st.forAllOutboundPeers

/-- The same peer state with every map iterated in a possibly different order. -/
def Reorder (st st' : PeerState) : Prop :=
  st.peers.Reorder st'.peers ∧ st.outboundPeers.Reorder st'.outboundPeers ∧
    st.persistentPeers.Reorder st'.persistentPeers ∧ st.banned = st'.banned ∧
    st.outboundGroups = st'.outboundGroups ∧ st.maxOutboundPeers = st'.maxOutboundPeers

theorem Reorder.refl (st : PeerState) : st.Reorder st :=
  ⟨List.Perm.refl _, List.Perm.refl _, List.Perm.refl _, rfl, rfl, rfl⟩

end PeerState

end FactomCode

import FactomCode.Server.PeerBurst
import FactomCode.Server.PeerFiling
import Mathlib.Data.Multiset.Basic

set_option autoImplicit false

/-! # Persistent peers across a run

The persistent peers are the ones `peerHandler` keeps connected: `handleDonePeerMsg` replaces a
persistent outbound peer that disconnects by `newOutboundPeer(s, p.addr, true, p.retryCount+1)`.
What a round does to the addresses of the persistent peers (`PeerState.persistentAddrs`, a
multiset, since the order of a Go map is the runtime's) is one of three things
(`PersistentStep`): nothing, adding the address of a permanent peer that `connectNode` admitted,
or removing the address of the peer that `removeNode` found. A disconnection keeps the address:
the peer is replaced by a new one at the same address with the next retry count.

This rests on `newOutboundPeer` returning a peer. When it returns nil, which `peer.go` does for an
address it cannot resolve, `handleDonePeerMsg` files the nil pointer in the peer's place: the
address is lost, no handler ever removes the nil key, and every handler that walks the maps
dereferences it. -/

namespace FactomCode

variable (srt : GoSort) (cfg : Config) (net : NetLib)

/-! ## Addresses of map keys -/

/-- The addresses of the peers among `keys`; a nil key has none. -/
def addrsOf (keys : List (Option Peer)) : Multiset String :=
  (keys.filterMap fun x => x.map (·.addr) : List String)

/-- The addresses of the persistent peers. -/
def PeerState.persistentAddrs (st : PeerState) : Multiset String := addrsOf st.persistentPeers.keys

theorem addrsOf_cons_some (q : Peer) (l : List (Option Peer)) :
    addrsOf (some q :: l) = q.addr ::ₘ addrsOf l := rfl

theorem addrsOf_perm {l l' : List (Option Peer)} (h : l.Perm l') : addrsOf l = addrsOf l' :=
  Multiset.coe_eq_coe.2 (h.filterMap _)

theorem PeerState.Reorder.persistentAddrs_eq {st st' : PeerState} (h : st.Reorder st') :
    st.persistentAddrs = st'.persistentAddrs :=
  addrsOf_perm h.2.2.1

namespace PeerMap

theorem keys_insert_of_not_mem {m : PeerMap} {k : Option Peer} (hk : k ∉ m.keys) :
    (m.insert k).keys = k :: m.keys := by
  simp only [insert, dif_neg hk]

theorem addrsOf_delete {m : PeerMap} {q : Peer} (hq : some q ∈ m.keys) :
    addrsOf (m.delete (some q)).keys = (addrsOf m.keys).erase q.addr := by
  rw [addrsOf_perm (perm_cons_delete hq), addrsOf_cons_some, Multiset.erase_cons_head]

end PeerMap

/-! ## Which handlers touch the persistent map -/

theorem PeerState.setListFor_persistentPeers (st : PeerState) {p : Peer}
    (hp : p.persistent = false) (m : PeerMap) :
    (st.setListFor p m).persistentPeers = st.persistentPeers := by
  unfold PeerState.setListFor
  simp only [hp, Bool.false_eq_true, if_false]
  split <;> rfl

theorem PeerState.file_persistentPeers (st : PeerState) (p : Peer) :
    (st.file net p).persistentPeers =
      if !p.inbound && p.persistent then st.persistentPeers.insert (some p)
      else st.persistentPeers := by
  unfold PeerState.file
  cases p.inbound <;> cases p.persistent <;> rfl

/-- `handleAddPeerMsg` changes the persistent map only by filing a persistent outbound peer. -/
theorem Server.handleAddPeerMsg_persistentPeers (s : Server) (st : PeerState) (now : Int)
    (r : Option Peer) :
    (s.handleAddPeerMsg cfg net st now r).1.persistentPeers = st.persistentPeers ∨
      ∃ p, r = some p ∧ p.inbound = false ∧ p.persistent = true ∧
        (s.handleAddPeerMsg cfg net st now r).1.persistentPeers =
          st.persistentPeers.insert (some p) := by
  obtain ⟨b, h | ⟨p, rfl, -, h⟩⟩ := s.handleAddPeerMsg_eq cfg net st now r <;> rw [h]
  · exact .inl rfl
  · show (st.file net p).persistentPeers = _ ∨ _
    rw [PeerState.file_persistentPeers]
    cases hi : p.inbound <;> cases hp : p.persistent <;> simp [hi, hp]

/-- Replenishment files only the transient peers it dials. -/
theorem Server.burst_persistentPeers (s : Server) :
    ∀ (draws : List Draw) (tries : Nat) {st st' : PeerState} {dials : List Dial},
      s.burst cfg net draws tries st = some (st', dials) → (∀ d ∈ dials, NewOutboundPeer d) →
        st'.persistentPeers = st.persistentPeers
  | [], _, st, st', dials, h, _ => by
    simp only [Server.burst] at h
    split_ifs at h
    cases h; rfl
  | d :: ds, tries, st, st', dials, h, hdial => by
    rw [Server.burst_cons] at h
    rcases ite_eq_iff.1 h with ⟨-, h⟩ | ⟨-, h⟩
    · cases h; rfl
    split at h
    · cases h; rfl
    · exact burst_persistentPeers s ds (tries + 1) h hdial
    · obtain ⟨⟨st'', dials''⟩, hb, ⟨⟩⟩ := Option.map_eq_some'.1 h
      rw [burst_persistentPeers s ds 0 hb fun x hx => hdial x (List.mem_cons_of_mem _ hx)]
      rcases s.handleAddPeerMsg_persistentPeers cfg net st d.now d.dialled with h' | ⟨p, hp, -, hpers, -⟩
      · exact h'
      · -- the dial asked for a transient peer
        exact Bool.noConfusion (hpers.symm.trans (hdial _ (List.mem_cons_self _ _) p hp).2.2.1)

theorem Server.replenish_persistentPeers (s : Server) (draws : List Draw) {st st' : PeerState}
    {dials : List Dial} (h : s.replenish cfg net draws st = some (st', dials))
    (hdial : ∀ d ∈ dials, NewOutboundPeer d) : st'.persistentPeers = st.persistentPeers := by
  unfold Server.replenish at h
  split_ifs at h
  · cases h; rfl
  · exact s.burst_persistentPeers cfg net draws 0 h hdial

theorem disconnectOutbound_persistentPeers (cmp : Peer → Bool) {st st' : PeerState}
    (h : disconnectOutbound net cmp st = some st') : st'.persistentPeers = st.persistentPeers := by
  unfold disconnectOutbound at h
  generalize st.outboundPeers.len + 1 = n at h
  induction n generalizing st with
  | zero => cases h; rfl
  | succ n ih =>
    obtain ⟨⟨found, m⟩, -, h⟩ := Option.bind_eq_some.1 h
    cases found with
    | none => cases h; rfl
    | some q => dsimp only at h; rw [ih h]; rfl

theorem disconnectPeer.find_cmp {cmp : Peer → Bool} :
    ∀ {keys : List (Option Peer)} {q : Peer}, find cmp keys = some (some q) → cmp q = true
  | [], _, h => by simp [find] at h
  | none :: _, _, h => by simp [find] at h
  | some q' :: rest, q, h => by
    unfold find at h
    split_ifs at h with hc
    · cases h; exact hc
    · exact find_cmp h

/-- `disconnectPeer` removes a key that the comparison accepts. -/
theorem disconnectPeer_cmp {m : PeerMap} {cmp : Peer → Bool} {q : Peer} {m' : PeerMap}
    (h : disconnectPeer m cmp = some (some q, m')) : cmp q = true := by
  obtain ⟨found, hf, hq⟩ := Option.map_eq_some'.1 h
  cases hq
  exact disconnectPeer.find_cmp hf

/-- A done peer that is not a persistent peer leaves the persistent map alone. -/
theorem Server.donePeerMaps_persistentPeers_of_not_mem (s : Server) {st : PeerState} {p : Peer}
    (redial : Option Peer) (hp : some p ∉ st.persistentPeers.keys) :
    (s.donePeerMaps net st p redial).1.persistentPeers = st.persistentPeers := by
  unfold Server.donePeerMaps
  cases hpers : p.persistent
  · dsimp only
    split_ifs
    · exact st.setListFor_persistentPeers hpers _
    · exact (st.addGroup _ _).setListFor_persistentPeers hpers _
    · exact st.setListFor_persistentPeers hpers _
    · rfl
  · simp [PeerState.listFor, hpers, hp]

namespace PeerState.Filed

variable {st : PeerState} (hF : st.Filed)
include hF

/-- While the server runs, a persistent peer's disconnection replaces it by its redial, which is
    a new outbound persistent peer at the same address with the next retry count. -/
theorem donePeerMaps_persistent {s : Server} {p : Peer} {redial : Option Peer}
    (hs : s.shutdown = false) (hp : some p ∈ st.persistentPeers.keys)
    (hdial : ∀ d ∈ (s.donePeerMaps net st p redial).2, NewOutboundPeer d ∧ d.result.isSome) :
    ∃ q, redial = some q ∧ q.addr = p.addr ∧ q.inbound = false ∧ q.persistent = true ∧
      q.retryCount = p.retryCount + 1 ∧ some q ∉ st.forAllPeers ∧
      (s.donePeerMaps net st p redial).1.persistentPeers.keys =
        some q :: (st.persistentPeers.delete (some p)).keys := by
  obtain ⟨hin, hpers⟩ := (filedAs_some _ _ _).1 (hF.persistentPeers _ hp)
  have hlist : st.listFor p = st.persistentPeers := by simp [PeerState.listFor, hpers]
  unfold Server.donePeerMaps at hdial ⊢
  simp only [hlist, if_pos hp, hin, hpers, hs, Bool.not_false, Bool.and_self, if_true,
    List.mem_singleton, forall_eq] at hdial ⊢
  obtain ⟨q, rfl⟩ := Option.isSome_iff_exists.1 hdial.2
  obtain ⟨hqa, hqi, hqp, hqr, hfresh⟩ := hdial.1 q rfl
  refine ⟨q, rfl, hqa, hqi, hqp, hqr, hfresh, ?_⟩
  have hnot : some q ∉ (st.persistentPeers.delete (some p)).keys := fun hq =>
    hfresh (List.mem_append_right _ (List.mem_append_right _ ((PeerMap.mem_delete _ _ _).1 hq).2))
  simp only [PeerState.setListFor, hpers, if_true, PeerMap.keys_insert_of_not_mem hnot]

/-- The disconnection of a peer keeps the persistent addresses. -/
theorem donePeerMaps_persistentAddrs {s : Server} {p : Peer} {redial : Option Peer}
    (hs : s.shutdown = false)
    (hdial : ∀ d ∈ (s.donePeerMaps net st p redial).2, NewOutboundPeer d ∧ d.result.isSome) :
    (s.donePeerMaps net st p redial).1.persistentAddrs = st.persistentAddrs := by
  by_cases hp : some p ∈ st.persistentPeers.keys
  · obtain ⟨q, -, hqa, -, -, -, -, hkeys⟩ := hF.donePeerMaps_persistent net hs hp hdial
    have hmem : p.addr ∈ st.persistentAddrs :=
      Multiset.mem_coe.2 (List.mem_filterMap.2 ⟨some p, hp, rfl⟩)
    rw [PeerState.persistentAddrs, hkeys, addrsOf_cons_some, PeerMap.addrsOf_delete hp, hqa]
    exact Multiset.cons_erase hmem
  · rw [PeerState.persistentAddrs, s.donePeerMaps_persistentPeers_of_not_mem net redial hp]
    rfl

end PeerState.Filed

/-! ## One round -/

/-- What one round may do to the persistent addresses `A` of the state `st` it starts from: keep
    them, add the address of a permanent peer admitted by `connectNode`, or remove the address of
    a persistent peer that `removeNode`'s comparison accepts. -/
inductive PersistentStep (st : PeerState) (A : Multiset String) : Event → Multiset String → Prop
  | keep (ev : Event) : PersistentStep st A ev A
  | connect (addr : String) (dialled : Option Peer) (now : Int) :
      PersistentStep st A (.query (.connectNode addr true dialled now)) (addr ::ₘ A)
  | remove (cmp : Peer → Bool) (q : Peer) : some q ∈ st.persistentPeers.keys → cmp q = true →
      PersistentStep st A (.query (.removeNode cmp)) (A.erase q.addr)

theorem PersistentStep.of_persistentPeers_eq {st st' : PeerState} {ev : Event}
    (h : st'.persistentPeers = st.persistentPeers) :
    PersistentStep st st.persistentAddrs ev st'.persistentAddrs := by
  unfold PeerState.persistentAddrs
  rw [h]
  exact .keep ev

/-- `connectNode` adds the address it dialled when it files a permanent peer. -/
theorem Server.handleAddPeerMsg_persistentStep (s : Server) {st : PeerState} {addr : String}
    {permanent : Bool} {dialled : Option Peer} {now : Int}
    (hdial : NewOutboundPeer ⟨st, addr, permanent, 0, dialled⟩) :
    PersistentStep st st.persistentAddrs (.query (.connectNode addr permanent dialled now))
      (s.handleAddPeerMsg cfg net st now dialled).1.persistentAddrs := by
  rcases s.handleAddPeerMsg_persistentPeers cfg net st now dialled with h' | ⟨p, rfl, -, hpers, h'⟩
  · exact .of_persistentPeers_eq h'
  · obtain ⟨hpa, -, hpp, -, hfresh⟩ := hdial p rfl
    have hnot : some p ∉ st.persistentPeers.keys := fun hq =>
      hfresh (List.mem_append_right _ (List.mem_append_right _ hq))
    cases hpers.symm.trans hpp
    unfold PeerState.persistentAddrs
    rw [h', PeerMap.keys_insert_of_not_mem hnot, addrsOf_cons_some, hpa]
    exact .connect addr (some p) now

variable {cfg net}

/-- `handleQuery` changes the persistent addresses only by `connectNode` of a permanent peer and by
    `removeNode`. -/
theorem Server.handleQuery_persistentStep {s : Server} {st st' : PeerState} {q : Query}
    {reply : Reply} {dials : List Dial} (h : s.handleQuery cfg net st q = some (st', reply, dials))
    (hdial : ∀ d ∈ dials, NewOutboundPeer d) :
    PersistentStep st st.persistentAddrs (.query q) st'.persistentAddrs := by
  cases q with
  | getConnCount c | getPeerInfo c =>
    obtain ⟨_, _, ⟨⟩⟩ := Option.map_eq_some'.1 h
    exact .keep _
  | getAddedNodes => cases h; exact .keep _
  | connectNode addr permanent dialled now =>
    obtain ⟨found, -, h⟩ := Option.bind_eq_some.1 h
    cases found
    · obtain ⟨⟩ := h
      exact s.handleAddPeerMsg_persistentStep cfg net (hdial _ (List.mem_singleton_self _))
    · obtain ⟨⟩ := h
      exact .keep _
  | removeNode cmp =>
    obtain ⟨⟨found, m⟩, hd, h⟩ := Option.bind_eq_some.1 h
    rcases disconnectPeer_eq hd with ⟨rfl, rfl⟩ | ⟨q, rfl, hq, rfl⟩ <;> cases h
    · exact .keep _
    · show PersistentStep st _ _ (addrsOf (st.persistentPeers.delete (some q)).keys)
      rw [PeerMap.addrsOf_delete hq]
      exact .remove cmp q hq (disconnectPeer_cmp hd)
  | disconnectNode cmp =>
    obtain ⟨⟨found, m⟩, hd, h⟩ := Option.bind_eq_some.1 h
    rcases disconnectPeer_eq hd with ⟨rfl, rfl⟩ | ⟨q, rfl, hq, rfl⟩
    · obtain ⟨⟨found', m'⟩, hd', h⟩ := Option.bind_eq_some.1 h
      rcases disconnectPeer_eq hd' with ⟨rfl, rfl⟩ | ⟨q', rfl, hq', rfl⟩
      · cases h; exact .keep _
      · obtain ⟨st'', hdo, ⟨⟩⟩ := Option.bind_eq_some.1 h
        have := disconnectOutbound_persistentPeers net cmp hdo
        exact .of_persistentPeers_eq this
    · cases h; exact .keep _

/-- The handler of one event, in a filed state of a running server, changes the persistent
    addresses only as `PersistentStep` allows. -/
theorem Server.handleEvent_persistentStep {s s' : Server} {st st' : PeerState} {ev : Event}
    {dials : List Dial} (hF : st.Filed) (hs : s.shutdown = false) (hadm : ev.Admissible st)
    (h : s.handleEvent srt cfg net st ev = some (s', st', dials))
    (hdial : ∀ d ∈ dials, NewOutboundPeer d ∧ d.result.isSome) :
    PersistentStep st st.persistentAddrs ev st'.persistentAddrs := by
  cases ev with
  | query q =>
    obtain ⟨⟨st'', reply, dials''⟩, hq, ⟨⟩⟩ := Option.map_eq_some'.1 h
    exact Server.handleQuery_persistentStep hq fun d hd => (hdial d hd).1
  | newPeer p now =>
    cases h
    rcases s.handleAddPeerMsg_persistentPeers cfg net st now (some p) with h' | ⟨_, ⟨⟩, hin, -⟩
    · exact .of_persistentPeers_eq h'
    · exact absurd (hadm.1.symm.trans hin) Bool.noConfusion
  | donePeer p redial height =>
    obtain ⟨⟨s'', st'', effs, dials''⟩, hd, ⟨⟩⟩ := Option.map_eq_some'.1 h
    obtain ⟨rfl, rfl⟩ := Server.handleDonePeerMsg_peerState srt net hd
    rw [hF.donePeerMaps_persistentAddrs net hs hdial]
    exact .keep _
  | banPeer p now =>
    cases h
    refine .of_persistentPeers_eq ?_
    unfold handleBanPeerMsg
    split <;> rfl
  | updatePeerHeights | relayInv | broadcast =>
    obtain ⟨_, _, ⟨⟩⟩ := Option.map_eq_some'.1 h
    exact .keep _
  | wakeup | stop => cases h; exact .keep _

variable (cfg net)

/-- In every run of the peer handler in which each call of `newOutboundPeer` returns a new
    outbound peer with the requested address, persistence and retry count, every round from a
    reachable state of a running server changes the multiset of persistent addresses only by
    adding the address of a permanent peer that `connectNode` admitted or by removing the address
    of the peer that `removeNode` found; and the disconnection of a persistent peer replaces it by
    exactly one new outbound persistent peer at the same address with the next retry count. -/
theorem persistentAddrs_change_only_by_connect_or_remove {dial : Dial → Prop}
    (hdial : ∀ d, dial d → NewOutboundPeer d ∧ d.result.isSome) {evs : List Event} {s : Server}
    {st : PeerState} (hrun : Run srt cfg net dial evs s st) (hs : s.shutdown = false)
    {st₁ : PeerState} {ev : Event} {draws : List Draw} {s' : Server} {st' : PeerState}
    {dials : List Dial} (hr : st.Reorder st₁) (hadm : ev.Admissible st₁)
    (h : s.peerHandlerRound srt cfg net st₁ ev draws = some (s', st', dials))
    (hd : ∀ d ∈ dials, dial d) :
    PersistentStep st₁ st.persistentAddrs ev st'.persistentAddrs ∧
      ∀ p redial height, ev = .donePeer p redial height → some p ∈ st₁.persistentPeers.keys →
        ∃ q, redial = some q ∧ q.addr = p.addr ∧ q.inbound = false ∧ q.persistent = true ∧
          q.retryCount = p.retryCount + 1 ∧ some q ∉ st₁.forAllPeers ∧
          st'.persistentPeers.keys = some q :: (st₁.persistentPeers.delete (some p)).keys := by
  have hF : st₁.Filed := (hrun.keeps srt cfg net (keeps_filed hdial) (PeerState.Filed.init cfg)).reorder hr
  obtain ⟨st₂, dials₁, dials₂, he, hre, rfl⟩ := Server.peerHandlerRound_eq srt cfg net h
  have hd₁ : ∀ d ∈ dials₁, NewOutboundPeer d ∧ d.result.isSome := fun d hd' =>
    hdial d (hd d (List.mem_append_left _ hd'))
  have hkeep : st'.persistentPeers = st₂.persistentPeers :=
    s'.replenish_persistentPeers cfg net draws hre fun d hd' =>
      (hdial d (hd d (List.mem_append_right _ hd'))).1
  refine ⟨?_, ?_⟩
  · rw [hr.persistentAddrs_eq]
    unfold PeerState.persistentAddrs
    rw [hkeep]
    exact Server.handleEvent_persistentStep srt hF hs hadm he hd₁
  · rintro p redial height rfl hp
    obtain ⟨⟨s'', st'', effs, dials''⟩, hdone, heq⟩ := Option.map_eq_some'.1 he
    cases heq
    obtain ⟨rfl, rfl⟩ := Server.handleDonePeerMsg_peerState srt net hdone
    rw [hkeep]
    exact hF.donePeerMaps_persistent net hs hp hd₁

/-- The reconnection of the first of the nine persistent peers. -/
theorem persistentAddrs_change_only_by_connect_or_remove_redial :
    Run GoSort.insertion ninePeersConfig plainNet plainDial [] ninePeersServer ninePeersState ∧
      ninePeersServer.shutdown = false ∧
      PersistentStep ninePeersState ninePeersState.persistentAddrs doneEvent
        afterDone.2.1.persistentAddrs ∧
      ∀ p redial height, doneEvent = .donePeer p redial height →
        some p ∈ ninePeersState.persistentPeers.keys →
        ∃ q, redial = some q ∧ q.addr = p.addr ∧ q.inbound = false ∧ q.persistent = true ∧
          q.retryCount = p.retryCount + 1 ∧ some q ∉ ninePeersState.forAllPeers ∧
          afterDone.2.1.persistentPeers.keys =
            some q :: (ninePeersState.persistentPeers.delete (some p)).keys :=
  ⟨run_ninePeers, rfl, persistentAddrs_change_only_by_connect_or_remove GoSort.insertion
    ninePeersConfig plainNet (fun _ hd => ⟨hd.1, hd.2.1⟩) run_ninePeers rfl (.refl _) trivial
    (roundResult_eq (by decide)) (by decide)⟩

/-! ## A nil redial -/

theorem mapM_id_eq_none {α : Type} : ∀ {l : List (Option α)}, none ∈ l → l.mapM id = none
  | none :: _, _ => rfl
  | some _ :: l, h => by
    rw [List.mapM_cons, mapM_id_eq_none ((List.mem_cons.1 h).resolve_left (Option.some_ne_none _).symm)]
    rfl

theorem PeerState.nil_mem_file {st : PeerState} (p : Peer) (h : none ∈ st.persistentPeers.keys) :
    none ∈ (st.file net p).persistentPeers.keys := by
  rw [PeerState.file_persistentPeers]
  split
  exacts [(PeerMap.mem_insert _ _ _).2 (.inr h), h]

theorem PeerState.nil_mem_setListFor {st : PeerState} {p : Peer} {m : PeerMap}
    (h : none ∈ st.persistentPeers.keys) (hm : none ∈ (st.listFor p).keys → none ∈ m.keys) :
    none ∈ (st.setListFor p m).persistentPeers.keys := by
  unfold PeerState.setListFor PeerState.listFor at *
  split_ifs at hm ⊢ <;> simp_all

/-- No handler removes a nil key from the persistent map: every removal names a peer. -/
theorem keeps_nil_persistent (dial : Dial → Prop) :
    Keeps cfg net dial fun _ st => none ∈ st.persistentPeers.keys where
  mono h := h
  reorder h hr := hr.2.2.1.mem_iff.1 h
  ban _ h := h
  listener h _ _ := PeerState.nil_mem_file net _ h
  dialled h _ _ _ _ := PeerState.nil_mem_file net _ h
  replenished h _ _ _ _ _ := PeerState.nil_mem_file net _ h
  drop {_ st p} h _ := by
    have hm : none ∈ (st.listFor p).keys → none ∈ ((st.listFor p).delete (some p)).keys :=
      fun hn => (PeerMap.mem_delete _ _ _).2 ⟨(Option.some_ne_none _).symm, hn⟩
    split
    exacts [PeerState.nil_mem_setListFor h hm, PeerState.nil_mem_setListFor h hm]
  redial h _ _ _ _ := PeerState.nil_mem_setListFor h fun hn =>
    (PeerMap.mem_insert _ _ _).2 (.inr ((PeerMap.mem_delete _ _ _).2 ⟨(Option.some_ne_none _).symm, hn⟩))
  dropPersistent h _ := (PeerMap.mem_delete _ _ _).2 ⟨(Option.some_ne_none _).symm, h⟩
  dropInbound h _ := h
  dropOutbound h _ := h

/-- `handleDonePeerMsg`'s peer-map half for a persistent outbound peer of a running server whose
    redial returned nil: the nil key takes the peer's place, and nothing else changes. -/
theorem Server.donePeerMaps_nil_redial (s : Server) (st : PeerState) {p : Peer}
    (hs : s.shutdown = false) (hin : p.inbound = false) (hpers : p.persistent = true)
    (hp : some p ∈ st.persistentPeers.keys) :
    (s.donePeerMaps net st p none).1 =
      { st with persistentPeers := (st.persistentPeers.delete (some p)).insert none } := by
  have hlist : st.listFor p = st.persistentPeers := by simp [PeerState.listFor, hpers]
  simp only [Server.donePeerMaps, hlist, if_pos hp, hin, hpers, hs, Bool.not_false,
    Bool.and_self, if_true, PeerState.setListFor]

theorem addrsOf_insert_none (m : PeerMap) : addrsOf (m.insert none).keys = addrsOf m.keys := by
  unfold PeerMap.insert
  split <;> rfl

theorem countP_insert_none (k : String) (m : PeerMap) :
    (m.insert none).keys.countP (inGroup net k) = m.keys.countP (inGroup net k) := by
  unfold PeerMap.insert
  split <;> simp [inGroup]

/-- A disconnection that loses a persistent address. When `newOutboundPeer` returns nil for the
    redial of a persistent outbound peer of a running server, the round, which is neither an
    admission nor `removeNode`, drops one copy of the peer's address from the persistent
    addresses: the reconnection `handleDonePeerMsg` is there to issue is never made. -/
theorem nil_redial_loses_persistent_address (s : Server) (st : PeerState) (p : Peer)
    (height : Int) (draws : List Draw) (s' : Server) (st' : PeerState) (dials : List Dial)
    (hs : s.shutdown = false) (hin : p.inbound = false) (hpers : p.persistent = true)
    (hp : some p ∈ st.persistentPeers.keys) (hd : ∀ d ∈ dials, NewOutboundPeer d)
    (h : s.peerHandlerRound srt cfg net st (.donePeer p none height) draws = some (s', st', dials)) :
    st'.persistentAddrs = st.persistentAddrs.erase p.addr ∧
      Multiset.card st'.persistentAddrs + 1 = Multiset.card st.persistentAddrs := by
  obtain ⟨st₂, dials₁, dials₂, he, hre, rfl⟩ := Server.peerHandlerRound_eq srt cfg net h
  obtain ⟨⟨s'', st'', effs, dials''⟩, hdone, ⟨⟩⟩ := Option.map_eq_some'.1 he
  obtain ⟨rfl, rfl⟩ := Server.handleDonePeerMsg_peerState srt net hdone
  have hkeep := s'.replenish_persistentPeers cfg net draws hre fun d hd' =>
    hd d (List.mem_append_right _ hd')
  have hmem : p.addr ∈ st.persistentAddrs :=
    Multiset.mem_coe.2 (List.mem_filterMap.2 ⟨some p, hp, rfl⟩)
  have herase : st'.persistentAddrs = st.persistentAddrs.erase p.addr := by
    rw [PeerState.persistentAddrs, hkeep, s.donePeerMaps_nil_redial net st hs hin hpers hp]
    exact (addrsOf_insert_none _).trans (PeerMap.addrsOf_delete hp)
  exact ⟨herase, herase ▸ Multiset.card_erase_add_one hmem⟩

/-- Once `newOutboundPeer` returns nil for the redial of a persistent peer (as it does for an
    address that no longer resolves), the nil pointer is a key of the persistent map, no later
    round removes it, and from then on relaying, broadcasting, the connection-count and peer-info
    queries and the shutdown of the peer handler all dereference it. The handler also leaves
    `outboundGroups` as it was while the lost peer's group has one peer fewer: a group whose only
    peer it was stays counted at 1 with no peer in it, and replenishment, which ends its burst at
    any candidate of a counted group, never dials into it again. -/
theorem nil_redial_stays_and_panics :
    (∀ (s : Server) (st : PeerState) (p : Peer) (height : Int) (draws : List Draw) (s' : Server)
      (st' : PeerState) (dials : List Dial), s.shutdown = false → p.inbound = false →
      p.persistent = true → some p ∈ st.persistentPeers.keys →
      s.peerHandlerRound srt cfg net st (.donePeer p none height) draws = some (s', st', dials) →
      none ∈ st'.persistentPeers.keys) ∧
    (∀ (s : Server) (st st₁ : PeerState) (ev : Event) (draws : List Draw) (s' : Server)
      (st' : PeerState) (dials : List Dial), none ∈ st.persistentPeers.keys → st.Reorder st₁ →
      ev.Admissible st₁ → s.peerHandlerRound srt cfg net st₁ ev draws = some (s', st', dials) →
      none ∈ st'.persistentPeers.keys) ∧
    (∀ (s : Server) (st : PeerState), none ∈ st.persistentPeers.keys →
      (∀ excludePeers connected, handleBroadcastMsg st excludePeers connected = none) ∧
      (∀ isTx connected relayTxDisabled, handleRelayInvMsg st isTx connected relayTxDisabled = none) ∧
      (∀ connected, s.handleQuery cfg net st (.getConnCount connected) = none ∧
        s.handleQuery cfg net st (.getPeerInfo connected) = none) ∧
      handleQuit st = none) ∧
    (∀ (s : Server) (st : PeerState) (p : Peer) (height : Int) (s' : Server) (st' : PeerState)
      (effs : List Effect) (dials : List Dial), s.shutdown = false → p.inbound = false →
      p.persistent = true → some p ∈ st.persistentPeers.keys →
      s.handleDonePeerMsg srt net st p none height = some (s', st', effs, dials) →
      st'.outboundGroups = st.outboundGroups ∧
        st'.groupCount net (net.groupKey p.na) + 1 = st.groupCount net (net.groupKey p.na)) := by
  have hK := keeps_nil_persistent cfg net fun _ => True
  refine ⟨fun s st p height draws s' st' dials hs hin hpers hp h => ?_,
    fun s st st₁ ev draws s' st' dials hn hr hadm h => ?_, fun s st hn => ?_,
    fun s st p height s' st' effs dials hs hin hpers hp hd => ?_⟩
  · obtain ⟨st₂, dials₁, dials₂, he, hre, rfl⟩ := Server.peerHandlerRound_eq srt cfg net h
    obtain ⟨⟨s'', st'', effs, dials''⟩, hd, ⟨⟩⟩ := Option.map_eq_some'.1 he
    obtain ⟨rfl, rfl⟩ := Server.handleDonePeerMsg_peerState srt net hd
    refine @Keeps.replenish cfg net _ _ hK 0 s' draws _ _ _ ?_ hre fun _ _ => trivial
    rw [s.donePeerMaps_nil_redial net st hs hin hpers hp]
    exact (PeerMap.mem_insert _ _ _).2 (.inl rfl)
  · obtain ⟨st₂, dials₁, dials₂, he, hre, rfl⟩ := Server.peerHandlerRound_eq srt cfg net h
    have h₁ : none ∈ st₂.persistentPeers.keys := @Keeps.handleEvent srt cfg net _ _ hK 0 s s' st₁
      st₂ ev dials₁ (@Keeps.reorder cfg net _ _ hK 0 st st₁ hn hr) hadm he fun _ _ => trivial
    exact @Keeps.replenish cfg net _ _ hK 0 s' draws st₂ st' dials₂ h₁ hre fun _ _ => trivial
  · have hall : st.forAllPeers.mapM id = none :=
      mapM_id_eq_none (List.mem_append_right _ (List.mem_append_right _ hn))
    refine ⟨fun _ _ => ?_, fun _ _ _ => ?_, fun _ => ⟨?_, ?_⟩, hall⟩ <;>
      simp only [handleBroadcastMsg, handleRelayInvMsg, Server.handleQuery, hall, Option.map_none']
  · obtain ⟨rfl, -⟩ := Server.handleDonePeerMsg_peerState srt net hd
    rw [s.donePeerMaps_nil_redial net st hs hin hpers hp]
    have hdel := PeerMap.countP_delete_of_mem (inGroup net (net.groupKey p.na)) hp
    simp only [inGroup_some, beq_self_eq_true, if_true] at hdel
    refine ⟨rfl, ?_⟩
    simp only [PeerState.groupCount_eq, countP_insert_none]
    omega

/-! ## Nine persistent peers, one redialled in vain -/

/-- The nine-peer startup, in a run whose dials may return nil. -/
theorem run_ninePeers_nilAllowed :
    Run GoSort.insertion ninePeersConfig plainNet NewOutboundPeer [] ninePeersServer ninePeersState :=
  Run.start _ 0 ninePeersDialled rfl (by decide)

/-- The first persistent peer disconnects and `newOutboundPeer` returns nil for its address. -/
def nilRedialEvent : Event := .donePeer firstPeer none 0

def afterNilRedial := roundResult ninePeersServer ninePeersState nilRedialEvent

def afterNilRedialWakeup := roundResult afterNilRedial.1 afterNilRedial.2.1 .wakeup

theorem run_nilRedial : Run GoSort.insertion ninePeersConfig plainNet NewOutboundPeer
    [nilRedialEvent] afterNilRedial.1 afterNilRedial.2.1 :=
  @Run.round _ _ _ _ [] _ _ _ _ _ nilRedialEvent [] afterNilRedial.2.2 run_ninePeers_nilAllowed
    (.refl _) trivial (roundResult_eq (by decide)) (by decide)

/-- The redial of the first of the nine persistent peers returns nil: the round loses its
    address. -/
theorem persistentAddr_lost_by_nil_redial :
    Run GoSort.insertion ninePeersConfig plainNet NewOutboundPeer [] ninePeersServer ninePeersState ∧
      afterNilRedial.2.1.persistentAddrs = ninePeersState.persistentAddrs.erase firstPeer.addr ∧
      Multiset.card afterNilRedial.2.1.persistentAddrs + 1 =
        Multiset.card ninePeersState.persistentAddrs :=
  ⟨run_ninePeers_nilAllowed, nil_redial_loses_persistent_address GoSort.insertion ninePeersConfig
    plainNet ninePeersServer ninePeersState firstPeer 0 [] afterNilRedial.1 afterNilRedial.2.1
    afterNilRedial.2.2 rfl rfl rfl (by decide) (by decide) (roundResult_eq (by decide))⟩

/-- After the vain redial and a further round, a broadcast dereferences the nil key; and the
    group of the lost peer, its only member, stays counted at 1 with no peer in it. -/
theorem nil_redial_then_broadcast_panics :
    Run GoSort.insertion ninePeersConfig plainNet NewOutboundPeer [nilRedialEvent]
        afterNilRedial.1 afterNilRedial.2.1 ∧
      none ∈ afterNilRedialWakeup.2.1.persistentPeers.keys ∧
      handleBroadcastMsg afterNilRedialWakeup.2.1 [] (fun _ => true) = none ∧
      afterNilRedial.2.1.outboundGroups (plainNet.groupKey firstPeer.na) = 1 ∧
      afterNilRedial.2.1.groupCount plainNet (plainNet.groupKey firstPeer.na) = 0 :=
  have hnil := (nil_redial_stays_and_panics GoSort.insertion ninePeersConfig plainNet).1
    ninePeersServer ninePeersState firstPeer 0 [] afterNilRedial.1 afterNilRedial.2.1
    afterNilRedial.2.2 rfl rfl rfl (by decide) (roundResult_eq (by decide))
  have hstay := (nil_redial_stays_and_panics GoSort.insertion ninePeersConfig plainNet).2.1
    afterNilRedial.1 afterNilRedial.2.1 afterNilRedial.2.1 .wakeup [] afterNilRedialWakeup.1
    afterNilRedialWakeup.2.1 afterNilRedialWakeup.2.2 hnil (.refl _) trivial
    (roundResult_eq (by decide))
  ⟨run_nilRedial, hstay, ((nil_redial_stays_and_panics GoSort.insertion ninePeersConfig
    plainNet).2.2.1 afterNilRedialWakeup.1 _ hstay).1 [] _, by decide, by decide⟩

end FactomCode

import FactomCode.Server.PeerHandler

set_option autoImplicit false

/-! # Runs of the peer handler

Whatever a round of the peer handler does to the peer maps, the group counts and
`maxOutboundPeers` is a sequence of a few changes: setting or forgetting a ban, filing a peer
(`PeerState.file`) once the `MaxPeers` check has passed, removing a done peer or replacing it by
a new persistent peer, and removing a peer for `removeNode` or `disconnectNode`. `Keeps` lists
what a property of peer states must survive, and `Run.keeps` shows that such a property holds in
every state of every run: it is the one place where the handlers are taken apart.

The property may depend on a number `k` bounding the peers admitted at startup or by
`connectNode`, the two admissions of outbound peers that no bound on outbound peers guards. -/

namespace FactomCode

variable (srt : GoSort) (cfg : Config) (net : NetLib)

/-! ## What the handlers do to the peer state -/

theorem PeerState.file_banned (st : PeerState) (b : String → Option Int) (p : Peer) :
    ({ st with banned := b } : PeerState).file net p = { st.file net p with banned := b } := by
  unfold PeerState.file PeerState.addGroup
  split <;> (try split) <;> rfl

/-- `handleAddPeerMsg` either refuses, having at most forgotten a ban, or files a peer it was
    given, after the `MaxPeers` check. -/
theorem Server.handleAddPeerMsg_eq (s : Server) (st : PeerState) (now : Int) (r : Option Peer) :
    ∃ b, s.handleAddPeerMsg cfg net st now r = ({ st with banned := b }, false) ∨
      ∃ p, r = some p ∧ (st.count : Int) < cfg.maxPeers ∧
        s.handleAddPeerMsg cfg net st now r = ({ st.file net p with banned := b }, true) := by
  have hlimit : ∀ (b : String → Option Int) (p : Peer),
      handleAddPeerMsg.limit cfg net { st with banned := b } p = ({ st with banned := b }, false) ∨
        (st.count : Int) < cfg.maxPeers ∧
          handleAddPeerMsg.limit cfg net { st with banned := b } p =
            ({ st.file net p with banned := b }, true) := by
    intro b p
    unfold handleAddPeerMsg.limit
    split_ifs with hmax
    · exact .inl rfl
    · exact .inr ⟨lt_of_not_le hmax, by rw [PeerState.file_banned]⟩
  cases r with
  | none => exact ⟨st.banned, .inl rfl⟩
  | some p =>
    simp only [handleAddPeerMsg]
    split_ifs
    · exact ⟨st.banned, .inl rfl⟩
    · exact ⟨st.banned, .inl rfl⟩
    split
    · exact ⟨st.banned, .inl rfl⟩
    split
    · split_ifs
      · exact ⟨st.banned, .inl rfl⟩
      · exact ⟨_, (hlimit _ p).imp_right fun h => ⟨p, rfl, h⟩⟩
    · exact ⟨st.banned, (hlimit st.banned p).imp_right fun h => ⟨p, rfl, h⟩⟩

theorem disconnectPeer.find_mem {cmp : Peer → Bool} :
    ∀ {keys : List (Option Peer)} {q : Peer}, find cmp keys = some (some q) → some q ∈ keys
  | [], _, h => by simp [find] at h
  | none :: _, _, h => by simp [find] at h
  | some q' :: rest, q, h => by
    unfold find at h
    split_ifs at h
    · cases h; exact List.mem_cons_self _ _
    · exact List.mem_cons_of_mem _ (find_mem h)

/-- `disconnectPeer` finds nothing and keeps the map, or removes a key it holds. -/
theorem disconnectPeer_eq {m : PeerMap} {cmp : Peer → Bool} {found : Option Peer} {m' : PeerMap}
    (h : disconnectPeer m cmp = some (found, m')) :
    (found = none ∧ m' = m) ∨ ∃ q, found = some q ∧ some q ∈ m.keys ∧ m' = m.delete (some q) := by
  unfold disconnectPeer at h
  cases hf : disconnectPeer.find cmp m.keys with
  | none => simp [hf] at h
  | some found' =>
    simp only [hf, Option.map_some', Option.some.injEq, Prod.mk.injEq] at h
    obtain ⟨rfl, rfl⟩ := h
    cases found' with
    | none => exact .inl ⟨rfl, rfl⟩
    | some q => exact .inr ⟨q, rfl, disconnectPeer.find_mem hf, rfl⟩

/-- The peer state `handleDonePeerMsg` leaves is that of its peer-map half; the roster half
    only changes the server. -/
theorem Server.handleDonePeerMsg_peerState {s s' : Server} {st st' : PeerState} {p : Peer}
    {redial : Option Peer} {h : Int} {effs : List Effect} {dials : List Dial}
    (hd : s.handleDonePeerMsg srt net st p redial h = some (s', st', effs, dials)) :
    st' = (s.donePeerMaps net st p redial).1 ∧ dials = (s.donePeerMaps net st p redial).2 := by
  simp only [handleDonePeerMsg, Option.bind_eq_bind, Option.bind_eq_some, Option.pure_def,
    Option.some.injEq, Prod.mk.injEq] at hd
  obtain ⟨_, -, -, rfl, -, rfl⟩ := hd
  exact ⟨rfl, rfl⟩

theorem Server.peerHandlerRound_eq {s s' : Server} {st st' : PeerState} {ev : Event}
    {draws : List Draw} {dials : List Dial}
    (h : s.peerHandlerRound srt cfg net st ev draws = some (s', st', dials)) :
    ∃ st₁ dials₁ dials₂, s.handleEvent srt cfg net st ev = some (s', st₁, dials₁) ∧
      s'.replenish cfg net draws st₁ = some (st', dials₂) ∧ dials = dials₁ ++ dials₂ := by
  simp only [peerHandlerRound, Option.bind_eq_bind, Option.bind_eq_some, Option.pure_def,
    Option.some.injEq] at h
  obtain ⟨⟨s₁, st₁, dials₁⟩, he, ⟨st₂, dials₂⟩, hr, h⟩ := h
  cases h
  exact ⟨st₁, dials₁, dials₂, he, hr, rfl⟩

/-! ## Properties every change keeps -/

/-- A property of peer states, indexed by a bound `k` on the admissions at startup and by
    `connectNode`, that survives every change a handler makes, given that every call of
    `newOutboundPeer` satisfies `dial`. Each change comes with what the handler checked before
    making it. -/
structure Keeps (dial : Dial → Prop) (P : Nat → PeerState → Prop) : Prop where
  mono {k st} : P k st → P (k + 1) st
  reorder {k st st'} : P k st → st.Reorder st' → P k st'
  ban {k st} (b : String → Option Int) : P k st → P k { st with banned := b }
  /-- Filing a peer from the listener. -/
  listener {k st p} : P k st → (st.count : Int) < cfg.maxPeers → NewInboundPeer st p →
    P k (st.file net p)
  /-- Filing a dialled peer at startup or for `connectNode`. -/
  dialled {k st p} {d : Dial} : P k st → (st.count : Int) < cfg.maxPeers → dial d → d.st = st →
    d.result = some p → P (k + 1) (st.file net p)
  /-- Filing a peer dialled by outbound replenishment, which runs only while more are needed. -/
  replenished {k st p} {d : Dial} : P k st → (st.count : Int) < cfg.maxPeers →
    st.needMoreOutbound cfg = true → dial d → d.st = st → d.result = some p → P k (st.file net p)
  /-- `handleDonePeerMsg` removing `p` from the map its flags select. -/
  drop {k st} {p : Peer} : P k st → some p ∈ (st.listFor p).keys →
    P k ((if !p.inbound then st.addGroup (net.groupKey p.na) (-1) else st).setListFor p
      ((st.listFor p).delete (some p)))
  /-- `handleDonePeerMsg` replacing a persistent outbound peer by the result of its redial. -/
  redial {k st} {p : Peer} {r : Option Peer} : P k st → some p ∈ (st.listFor p).keys →
    p.inbound = false → p.persistent = true → dial ⟨st, p.addr, true, p.retryCount + 1, r⟩ →
    P k (st.setListFor p (((st.listFor p).delete (some p)).insert r))
  /-- `removeNode` removing a persistent peer. -/
  dropPersistent {k st q} : P k st → some q ∈ st.persistentPeers.keys →
    P k { st.addGroup (net.groupKey q.na) (-1) with
      persistentPeers := st.persistentPeers.delete (some q) }
  /-- `disconnectNode` removing an inbound peer. -/
  dropInbound {k st q} : P k st → some q ∈ st.peers.keys →
    P k { st with peers := st.peers.delete (some q) }
  /-- `disconnectNode` removing an outbound peer. -/
  dropOutbound {k st q} : P k st → some q ∈ st.outboundPeers.keys →
    P k { st.addGroup (net.groupKey q.na) (-1) with
      outboundPeers := st.outboundPeers.delete (some q) }

namespace Keeps

variable {cfg net} {dial : Dial → Prop} {P : Nat → PeerState → Prop} (hK : Keeps cfg net dial P)
include hK

theorem mono' {k k' : Nat} {st : PeerState} (hP : P k st) (hk : k ≤ k') : P k' st := by
  induction hk with
  | refl => exact hP
  | step _ ih => exact hK.mono ih

theorem handleAddPeerMsg {k k' : Nat} {st : PeerState} (hk : k ≤ k') (hP : P k st) (s : Server)
    (now : Int) (r : Option Peer)
    (hfile : ∀ p, r = some p → (st.count : Int) < cfg.maxPeers → P k' (st.file net p)) :
    P k' (s.handleAddPeerMsg cfg net st now r).1 := by
  obtain ⟨b, h | ⟨p, hr, hcount, h⟩⟩ := s.handleAddPeerMsg_eq cfg net st now r <;> rw [h]
  · exact hK.ban b (hK.mono' hP hk)
  · exact hK.ban b (hfile p hr hcount)

theorem donePeerMaps {k : Nat} {st : PeerState} (hP : P k st) (s : Server) (p : Peer)
    (redial : Option Peer) (hdial : ∀ d ∈ (s.donePeerMaps net st p redial).2, dial d) :
    P k (s.donePeerMaps net st p redial).1 := by
  unfold Server.donePeerMaps at hdial ⊢
  dsimp only at hdial ⊢
  by_cases hmem : some p ∈ (st.listFor p).keys
  · by_cases hre : (!p.inbound && p.persistent && !s.shutdown) = true
    · rw [if_pos hmem, if_pos hre] at hdial ⊢
      simp only [Bool.and_eq_true, Bool.not_eq_true'] at hre
      exact hK.redial hP hmem hre.1.1 hre.1.2 (hdial _ (List.mem_singleton_self _))
    · rw [if_pos hmem, if_neg hre]
      exact hK.drop hP hmem
  · rw [if_neg hmem]
    exact hP

theorem disconnectOutbound {k : Nat} (cmp : Peer → Bool) {st st' : PeerState} (hP : P k st)
    (h : FactomCode.disconnectOutbound net cmp st = some st') : P k st' := by
  unfold FactomCode.disconnectOutbound at h
  generalize st.outboundPeers.len + 1 = n at h
  induction n generalizing st with
  | zero => cases h; exact hP
  | succ n ih =>
    simp only [disconnectOutbound.go, Option.bind_eq_bind] at h
    cases hd : disconnectPeer st.outboundPeers cmp with
    | none => simp [hd] at h
    | some r =>
      obtain ⟨found, m⟩ := r
      rw [hd, Option.some_bind] at h
      rcases disconnectPeer_eq hd with ⟨rfl, rfl⟩ | ⟨q, rfl, hq, rfl⟩
      · cases h; exact hP
      · exact ih (hK.dropOutbound hP hq) h

theorem handleQuery {k : Nat} {st st' : PeerState} (hP : P k st) {s : Server} {q : Query}
    {reply : Reply} {dials : List Dial} (h : s.handleQuery cfg net st q = some (st', reply, dials))
    (hdial : ∀ d ∈ dials, dial d) : P (k + if q.isConnectNode then 1 else 0) st' := by
  cases q with
  | getConnCount c | getPeerInfo c =>
    obtain ⟨_, _, ⟨⟩⟩ := Option.map_eq_some'.1 h
    exact hP
  | getAddedNodes => cases h; exact hP
  | connectNode addr permanent dialled now =>
    obtain ⟨found, -, h⟩ := Option.bind_eq_some.1 h
    cases found
    · obtain ⟨⟩ := h
      exact hK.handleAddPeerMsg (Nat.le_succ k) hP s now dialled fun p hp hc =>
        hK.dialled hP hc (hdial _ (List.mem_singleton_self _)) rfl hp
    · obtain ⟨⟩ := h
      exact hK.mono hP
  | removeNode cmp =>
    obtain ⟨⟨found, m⟩, hd, h⟩ := Option.bind_eq_some.1 h
    rcases disconnectPeer_eq hd with ⟨rfl, rfl⟩ | ⟨q, rfl, hq, rfl⟩ <;> cases h
    · exact hP
    · exact hK.dropPersistent hP hq
  | disconnectNode cmp =>
    obtain ⟨⟨found, m⟩, hd, h⟩ := Option.bind_eq_some.1 h
    rcases disconnectPeer_eq hd with ⟨rfl, rfl⟩ | ⟨q, rfl, hq, rfl⟩
    · -- not an inbound peer: look among the outbound peers
      obtain ⟨⟨found', m'⟩, hd', h⟩ := Option.bind_eq_some.1 h
      rcases disconnectPeer_eq hd' with ⟨rfl, rfl⟩ | ⟨q', rfl, hq', rfl⟩
      · cases h; exact hP
      · obtain ⟨st'', hdo, ⟨⟩⟩ := Option.bind_eq_some.1 h
        exact hK.disconnectOutbound cmp (hK.dropOutbound hP hq') hdo
    · cases h; exact hK.dropInbound hP hq

theorem burst {k : Nat} (s : Server) : ∀ (draws : List Draw) (tries : Nat) {st st' : PeerState}
    {dials : List Dial}, P k st → s.burst cfg net draws tries st = some (st', dials) →
      (∀ d ∈ dials, dial d) → P k st'
  | [], _, st, st', dials, hP, h, _ => by
    simp only [Server.burst] at h
    split_ifs at h
    cases h; exact hP
  | d :: ds, tries, st, st', dials, hP, h, hdial => by
    simp only [Server.burst] at h
    by_cases hloop : (st.needMoreOutbound cfg && !s.shutdown) = true
    · rw [if_neg (by simp [hloop])] at h
      cases ha : d.addr with
      | none => simp only [ha, Option.some.injEq, Prod.mk.injEq] at h; obtain ⟨rfl, -⟩ := h; exact hP
      | some a =>
        simp only [ha] at h
        -- a round stops, skips to the next draw, or files what it dialled
        rcases ite_eq_iff.1 h with ⟨-, h⟩ | ⟨-, h⟩
        · cases h; exact hP
        rcases ite_eq_iff.1 h with ⟨-, h⟩ | ⟨-, h⟩
        · cases h; exact hP
        rcases ite_eq_iff.1 h with ⟨-, h⟩ | ⟨-, h⟩
        · exact burst s ds (tries + 1) hP h hdial
        rcases ite_eq_iff.1 h with ⟨-, h⟩ | ⟨-, h⟩
        · exact burst s ds (tries + 1) hP h hdial
        obtain ⟨⟨st'', dials''⟩, hb, ⟨⟩⟩ := Option.map_eq_some'.1 h
        have hd := hdial _ (List.mem_cons_self _ _)
        refine burst s ds 0 (hK.handleAddPeerMsg le_rfl hP s d.now d.dialled fun p hp hc =>
          hK.replenished hP hc (Bool.and_eq_true_iff.1 hloop).1 hd rfl hp) hb
          fun x hx => hdial x (List.mem_cons_of_mem _ hx)
    · rw [if_pos (by rw [Bool.not_eq_true']; exact Bool.eq_false_iff.2 hloop)] at h
      cases h; exact hP

theorem replenish {k : Nat} (s : Server) (draws : List Draw) {st st' : PeerState}
    {dials : List Dial} (hP : P k st) (h : s.replenish cfg net draws st = some (st', dials))
    (hdial : ∀ d ∈ dials, dial d) : P k st' := by
  unfold Server.replenish at h
  split_ifs at h
  · cases h; exact hP
  · exact hK.burst s draws 0 hP h hdial

theorem startPersistentPeers (s : Server) (now : Int) :
    ∀ (l : List (String × Option Peer)) {k : Nat} {st : PeerState}, P k st →
      (∀ d ∈ (s.startPersistentPeers cfg net now l st).2, dial d) →
      P (k + l.length) (s.startPersistentPeers cfg net now l st).1
  | [], _, _, hP, _ => hP
  | (addr, r) :: rest, k, st, hP, hdial => by
    simp only [Server.startPersistentPeers, List.mem_cons, forall_eq_or_imp] at hdial ⊢
    have := startPersistentPeers s now rest (hK.handleAddPeerMsg (Nat.le_succ k) hP s now r
      fun p hp hc => hK.dialled hP hc hdial.1 rfl hp) hdial.2
    rwa [List.length_cons, ← Nat.add_assoc, Nat.add_right_comm]

theorem handleEvent {k : Nat} {s s' : Server} {st st' : PeerState} {ev : Event} {dials : List Dial}
    (hP : P k st) (hadm : ev.Admissible st) (h : s.handleEvent srt cfg net st ev = some (s', st', dials))
    (hdial : ∀ d ∈ dials, dial d) : P (k + if ev.isConnectNode then 1 else 0) st' := by
  cases ev with
  | query q =>
    obtain ⟨⟨st'', reply, dials''⟩, hq, heq⟩ := Option.map_eq_some'.1 h
    cases heq
    exact hK.handleQuery hP hq hdial
  | newPeer p now =>
    cases h
    exact hK.handleAddPeerMsg le_rfl hP s now (some p) fun p' hp hc => by
      cases hp; exact hK.listener hP hc hadm
  | donePeer p redial height =>
    obtain ⟨⟨s'', st'', effs, dials''⟩, hd, heq⟩ := Option.map_eq_some'.1 h
    cases heq
    obtain ⟨rfl, rfl⟩ := Server.handleDonePeerMsg_peerState srt net hd
    exact hK.donePeerMaps hP s p redial hdial
  | banPeer p now =>
    cases h
    have : P k (handleBanPeerMsg cfg net st now p) := by
      unfold handleBanPeerMsg
      split
      exacts [hP, hK.ban _ hP]
    exact this
  | updatePeerHeights | relayInv | broadcast =>
    obtain ⟨_, _, ⟨⟩⟩ := Option.map_eq_some'.1 h
    exact hP
  | wakeup | stop => cases h; exact hP

end Keeps

/-- A property that every change keeps holds in every state of every run, where `k` is the number
    of permanent peers plus the number of `connectNode` commands handled. -/
theorem Run.keeps {dial : Dial → Prop} {P : Nat → PeerState → Prop} (hK : Keeps cfg net dial P)
    (h0 : P 0 (PeerState.init cfg)) {evs : List Event} {s : Server} {st : PeerState}
    (hrun : Run srt cfg net dial evs s st) :
    P (cfg.permanentPeers.length + evs.countP Event.isConnectNode) st := by
  induction hrun with
  | start s now dialled hlen hdial =>
    simpa [hlen] using hK.startPersistentPeers s now _ h0 hdial
  | round _ hre hadm hround hdial ih =>
    obtain ⟨st₁, dials₁, dials₂, he, hr, rfl⟩ := Server.peerHandlerRound_eq srt cfg net hround
    have h₁ := hK.handleEvent srt (hK.reorder ih hre) hadm he fun d hd =>
      hdial d (List.mem_append_left _ hd)
    have h₂ := hK.replenish _ _ h₁ hr fun d hd => hdial d (List.mem_append_right _ hd)
    rwa [List.countP_append, ← Nat.add_assoc, List.countP_singleton]

end FactomCode

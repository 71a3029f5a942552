import FactomCode.Server.PeerRun

set_option autoImplicit false

/-! # The peer-count bounds

`handleAddPeerMsg` refuses a peer once `Count() ≥ MaxPeers`, and every other path only removes
peers or replaces one by another, so the total stays within `MaxPeers` in every run.

The outbound bound is different. Replenishment dials only while `NeedMoreOutbound()` holds, but
the startup admission of the configured persistent peers and `connectNode` pass their peers to
`handleAddPeerMsg`, which checks only the total. `OutboundCount()` can pass `maxOutboundPeers`
that way, and only that way: in every run it exceeds `maxOutboundPeers` by at most the number of
those admissions. -/

namespace FactomCode

variable (srt : GoSort) (cfg : Config) (net : NetLib)

namespace PeerState

variable (st : PeerState)

@[simp] theorem addGroup_peers (k : String) (d : Int) : (st.addGroup k d).peers = st.peers := rfl

@[simp] theorem addGroup_outboundPeers (k : String) (d : Int) :
    (st.addGroup k d).outboundPeers = st.outboundPeers := rfl

@[simp] theorem addGroup_persistentPeers (k : String) (d : Int) :
    (st.addGroup k d).persistentPeers = st.persistentPeers := rfl

@[simp] theorem addGroup_maxOutboundPeers (k : String) (d : Int) :
    (st.addGroup k d).maxOutboundPeers = st.maxOutboundPeers := rfl

@[simp] theorem addGroup_count (k : String) (d : Int) : (st.addGroup k d).count = st.count := rfl

@[simp] theorem addGroup_outboundCount (k : String) (d : Int) :
    (st.addGroup k d).outboundCount = st.outboundCount := rfl

theorem count_file_le (p : Peer) : (st.file net p).count ≤ st.count + 1 := by
  have := st.peers.len_insert_le (some p)
  have := st.outboundPeers.len_insert_le (some p)
  have := st.persistentPeers.len_insert_le (some p)
  unfold file count
  split <;> (try split) <;> simp only [addGroup_peers, addGroup_outboundPeers,
    addGroup_persistentPeers] <;> omega

theorem outboundCount_file_le (p : Peer) :
    (st.file net p).outboundCount ≤ st.outboundCount + if p.inbound then 0 else 1 := by
  have := st.outboundPeers.len_insert_le (some p)
  have := st.persistentPeers.len_insert_le (some p)
  unfold file outboundCount
  split <;> (try split) <;> simp_all only [addGroup_outboundPeers, addGroup_persistentPeers] <;>
    omega

@[simp] theorem file_maxOutboundPeers (p : Peer) :
    (st.file net p).maxOutboundPeers = st.maxOutboundPeers := by
  unfold file; split <;> (try split) <;> rfl

variable {st} {p : Peer} {m : PeerMap}

theorem count_setListFor_le (hm : m.len ≤ (st.listFor p).len) :
    (st.setListFor p m).count ≤ st.count := by
  unfold setListFor count
  unfold listFor at hm
  split_ifs at hm ⊢ <;> simp only <;> omega

theorem outboundCount_setListFor_le (hm : m.len ≤ (st.listFor p).len) :
    (st.setListFor p m).outboundCount ≤ st.outboundCount := by
  unfold setListFor outboundCount
  unfold listFor at hm
  split_ifs at hm ⊢ <;> simp only <;> omega

@[simp] theorem setListFor_maxOutboundPeers :
    (st.setListFor p m).maxOutboundPeers = st.maxOutboundPeers := by
  unfold setListFor; split_ifs <;> rfl

/-- What a done peer's map becomes: `p` removed, and possibly its redial added. -/
theorem len_redial_le (r : Option Peer) (hp : some p ∈ (st.listFor p).keys) :
    (((st.listFor p).delete (some p)).insert r).len ≤ (st.listFor p).len := by
  have := ((st.listFor p).delete (some p)).len_insert_le r
  rw [PeerMap.len_delete, if_pos hp] at this
  have := List.length_pos_of_mem hp
  unfold PeerMap.len at *
  omega

variable {st' : PeerState}

theorem Reorder.count_eq (h : st.Reorder st') : st.count = st'.count := by
  simp only [count, h.1.len_eq, h.2.1.len_eq, h.2.2.1.len_eq]

theorem Reorder.outboundCount_eq (h : st.Reorder st') : st.outboundCount = st'.outboundCount := by
  simp only [outboundCount, h.2.1.len_eq, h.2.2.1.len_eq]

end PeerState

/-! ## At most `MaxPeers` peers -/

theorem keeps_count_le_maxPeers (dial : Dial → Prop) :
    Keeps cfg net dial fun _ st => (st.count : Int) ≤ cfg.maxPeers where
  mono h := h
  reorder h hr := hr.count_eq ▸ h
  ban _ h := h
  listener {_ st p} _ hc _ := by have := PeerState.count_file_le net st p; omega
  dialled {_ st p _} _ hc _ _ _ := by have := PeerState.count_file_le net st p; omega
  replenished {_ st p _} _ hc _ _ _ _ := by have := PeerState.count_file_le net st p; omega
  drop {_ st p} h _ := by
    have hlen := PeerMap.len_delete_le (st.listFor p) (some p)
    split
    · have := @PeerState.count_setListFor_le (st.addGroup (net.groupKey p.na) (-1)) p _ hlen
      rw [PeerState.addGroup_count] at this
      omega
    · have := PeerState.count_setListFor_le hlen
      omega
  redial {_ st p r} h hp _ _ _ := by
    have := PeerState.count_setListFor_le (PeerState.len_redial_le r hp)
    omega
  dropPersistent {_ st q} h _ := by
    have := st.persistentPeers.len_delete_le (some q)
    simp only [PeerState.count, PeerMap.len, PeerState.addGroup_peers,
      PeerState.addGroup_outboundPeers, PeerState.addGroup_persistentPeers] at h this ⊢
    omega
  dropInbound {_ st q} h _ := by
    have := st.peers.len_delete_le (some q)
    simp only [PeerState.count, PeerMap.len, PeerState.addGroup_peers,
      PeerState.addGroup_outboundPeers, PeerState.addGroup_persistentPeers] at h this ⊢
    omega
  dropOutbound {_ st q} h _ := by
    have := st.outboundPeers.len_delete_le (some q)
    simp only [PeerState.count, PeerMap.len, PeerState.addGroup_peers,
      PeerState.addGroup_outboundPeers, PeerState.addGroup_persistentPeers] at h this ⊢
    omega

/-- In every run from the empty peer state, with any results of `newOutboundPeer`, the peer
    handler holds at most `cfg.MaxPeers` peers. -/
theorem count_le_maxPeers {dial : Dial → Prop} (hmax : 0 ≤ cfg.maxPeers) {evs : List Event}
    {s : Server} {st : PeerState} (hrun : Run srt cfg net dial evs s st) :
    (st.count : Int) ≤ cfg.maxPeers :=
  hrun.keeps srt cfg net (keeps_count_le_maxPeers cfg net dial) (by simpa [PeerState.init] using hmax)

/-! ## The outbound bound -/

theorem PeerState.init_maxOutboundPeers :
    (PeerState.init cfg).maxOutboundPeers = min defaultMaxOutbound cfg.maxPeers := by
  unfold PeerState.init
  dsimp only
  split <;> omega

/-- `OutboundCount()` exceeds `maxOutboundPeers` by at most `k`, the admissions at startup and by
    `connectNode`; `maxOutboundPeers` keeps its initial value. -/
def OutboundBounded (k : Nat) (st : PeerState) : Prop :=
  (st.outboundCount : Int) ≤ min defaultMaxOutbound cfg.maxPeers + k ∧
    st.maxOutboundPeers = min defaultMaxOutbound cfg.maxPeers

theorem keeps_outboundBounded (dial : Dial → Prop) : Keeps cfg net dial (OutboundBounded cfg) where
  mono h := ⟨le_trans h.1 (by omega), h.2⟩
  reorder h hr := ⟨hr.outboundCount_eq ▸ h.1, hr.2.2.2.2.2 ▸ h.2⟩
  ban _ h := h
  listener {_ st p} h _ hp := by
    have := PeerState.outboundCount_file_le net st p
    simp only [hp.1, if_true, Nat.add_zero] at this
    exact ⟨le_trans (by exact_mod_cast this) h.1, by simpa using h.2⟩
  dialled {_ st p _} h _ _ _ _ := by
    have hadm := PeerState.outboundCount_file_le net st p
    have := h.1
    exact ⟨by split at hadm <;> omega, by simpa using h.2⟩
  replenished {_ st p _} h _ hmore _ _ _ := by
    have := PeerState.outboundCount_file_le net st p
    simp only [PeerState.needMoreOutbound, Bool.and_eq_true, decide_eq_true_eq] at hmore
    have hlt : (st.outboundCount : Int) < min defaultMaxOutbound cfg.maxPeers := h.2 ▸ hmore.1
    exact ⟨by split at this <;> omega, by simpa using h.2⟩
  drop {_ st p} h _ := by
    have hlen := PeerMap.len_delete_le (st.listFor p) (some p)
    have := h.1
    split
    · have := @PeerState.outboundCount_setListFor_le
        (st.addGroup (net.groupKey p.na) (-1)) p _ hlen
      rw [PeerState.addGroup_outboundCount] at this
      exact ⟨by omega, by simpa using h.2⟩
    · have := PeerState.outboundCount_setListFor_le hlen
      exact ⟨by omega, by simpa using h.2⟩
  redial {_ st p r} h hp _ _ _ := by
    have := PeerState.outboundCount_setListFor_le (PeerState.len_redial_le r hp)
    have := h.1
    exact ⟨by omega, by simpa using h.2⟩
  dropPersistent {_ st q} h _ := by
    have := st.persistentPeers.len_delete_le (some q)
    simp only [OutboundBounded, PeerState.outboundCount, PeerMap.len,
      PeerState.addGroup_outboundPeers, PeerState.addGroup_maxOutboundPeers] at h this ⊢
    exact ⟨by omega, h.2⟩
  dropInbound h _ := h
  dropOutbound {_ st q} h _ := by
    have := st.outboundPeers.len_delete_le (some q)
    simp only [OutboundBounded, PeerState.outboundCount, PeerMap.len,
      PeerState.addGroup_persistentPeers, PeerState.addGroup_maxOutboundPeers] at h this ⊢
    exact ⟨by omega, h.2⟩

/-- In every run from the empty peer state, with any results of `newOutboundPeer`,
    `OutboundCount()` exceeds `maxOutboundPeers = min(defaultMaxOutbound, cfg.MaxPeers)` by at most
    the number of permanent peers and `connectNode` commands handled. -/
theorem outboundCount_le_maxOutbound_add_admissions {dial : Dial → Prop} (hmax : 0 ≤ cfg.maxPeers)
    {evs : List Event} {s : Server} {st : PeerState} (hrun : Run srt cfg net dial evs s st) :
    (st.outboundCount : Int) ≤ min defaultMaxOutbound cfg.maxPeers +
      (cfg.permanentPeers.length + evs.countP Event.isConnectNode : Nat) ∧
      st.maxOutboundPeers = min defaultMaxOutbound cfg.maxPeers :=
  hrun.keeps srt cfg net (keeps_outboundBounded cfg net dial)
    ⟨by simp [PeerState.init, PeerState.outboundCount, PeerMap.len, PeerMap.empty,
      defaultMaxOutbound, hmax],
      PeerState.init_maxOutboundPeers cfg⟩

/-! ## Nine configured persistent peers -/

/-- `MaxPeers = 9` and nine `ConnectPeers`, so that `maxOutboundPeers = 8`. -/
def ninePeersConfig : Config where
  maxPeers := 9
  banDuration := 0
  connectPeers := ["10.0.0.1:8108", "10.0.0.2:8108", "10.0.0.3:8108", "10.0.0.4:8108",
    "10.0.0.5:8108", "10.0.0.6:8108", "10.0.0.7:8108", "10.0.0.8:8108", "10.0.0.9:8108"]
  addPeers := []
  simNet := false
  defaultPort := "8108"

/-- A network library that takes the whole address as the host, the group key and the key. -/
def plainNet : NetLib := ⟨some, id, id⟩

/-- What `newOutboundPeer` returns at startup: new outbound persistent peers, not yet
    identified by a handshake. -/
def ninePeersDialled : List (Option Peer) :=
  ninePeersConfig.connectPeers.map fun addr => some ⟨0, addr, addr, false, true, 0, "", ""⟩

/-- What the runs below assume of `newOutboundPeer`: it returns a new outbound peer with the
    requested address and persistence, whose net address is its address. -/
def plainDial (d : Dial) : Prop :=
  NewOutboundPeer d ∧ d.result.isSome ∧ ∀ q ∈ d.result, q.na = q.addr

instance : DecidablePred plainDial := fun d =>
  inferInstanceAs (Decidable (_ ∧ _ ∧ ∀ q ∈ d.result, _))

/-- The node that starts the peer handler, a federate server that is not the initial leader. -/
def ninePeersServer : Server := Server.newServer "N" serverNode 0 0 false

/-- The peer state once the startup admission is done. -/
def ninePeersState : PeerState :=
  (ninePeersServer.startPersistentPeers ninePeersConfig plainNet 0
    (ninePeersConfig.permanentPeers.zip ninePeersDialled) (.init ninePeersConfig)).1

theorem run_ninePeers :
    Run GoSort.insertion ninePeersConfig plainNet plainDial
      [] ninePeersServer ninePeersState :=
  Run.start _ 0 ninePeersDialled rfl (by decide)

/-- All nine persistent peers pass the total check, and the ninth takes `OutboundCount()` past
    `maxOutboundPeers`. -/
theorem startup_outboundCount_exceeds_maxOutbound :
    Run GoSort.insertion ninePeersConfig plainNet plainDial
      [] ninePeersServer ninePeersState ∧
      ninePeersState.maxOutboundPeers < ninePeersState.outboundCount :=
  ⟨run_ninePeers, by decide⟩

theorem count_le_maxPeers_ninePeers :
    0 ≤ ninePeersConfig.maxPeers ∧
      Run GoSort.insertion ninePeersConfig plainNet plainDial
        [] ninePeersServer ninePeersState ∧
      (ninePeersState.count : Int) ≤ ninePeersConfig.maxPeers :=
  ⟨by decide, run_ninePeers,
    count_le_maxPeers GoSort.insertion ninePeersConfig plainNet (by decide) run_ninePeers⟩

theorem outboundCount_le_maxOutbound_add_admissions_ninePeers :
    0 ≤ ninePeersConfig.maxPeers ∧
      Run GoSort.insertion ninePeersConfig plainNet plainDial
        [] ninePeersServer ninePeersState ∧
      ((ninePeersState.outboundCount : Int) ≤ min defaultMaxOutbound ninePeersConfig.maxPeers +
        (ninePeersConfig.permanentPeers.length + ([] : List Event).countP Event.isConnectNode : Nat) ∧
        ninePeersState.maxOutboundPeers = min defaultMaxOutbound ninePeersConfig.maxPeers) :=
  ⟨by decide, run_ninePeers, outboundCount_le_maxOutbound_add_admissions GoSort.insertion
    ninePeersConfig plainNet (by decide) run_ninePeers⟩

/-! ## A reconnection and a removal

After the startup admission, the first persistent peer's connection ends and it is redialled,
then `removeNode` removes the second. -/

/-- The first persistent peer, as `ninePeersDialled` has it. -/
def firstPeer : Peer := ⟨0, "10.0.0.1:8108", "10.0.0.1:8108", false, true, 0, "", ""⟩

/-- What `newOutboundPeer` returns when the first peer is redialled. -/
def firstPeerRedial : Peer := ⟨1, "10.0.0.1:8108", "10.0.0.1:8108", false, true, 1, "", ""⟩

def doneEvent : Event := .donePeer firstPeer (some firstPeerRedial) 0

def removeEvent : Event := .query (.removeNode fun q => q.addr == "10.0.0.2:8108")

/-- The result of a round, or its starting point if it panicked. -/
def roundResult (s : Server) (st : PeerState) (ev : Event) : Server × PeerState × List Dial :=
  (s.peerHandlerRound GoSort.insertion ninePeersConfig plainNet st ev []).getD (s, st, [])

def afterDone : Server × PeerState × List Dial := roundResult ninePeersServer ninePeersState doneEvent

def afterRemove : Server × PeerState × List Dial := roundResult afterDone.1 afterDone.2.1 removeEvent

theorem roundResult_eq {s : Server} {st : PeerState} {ev : Event}
    (h : (s.peerHandlerRound GoSort.insertion ninePeersConfig plainNet st ev []).isSome) :
    s.peerHandlerRound GoSort.insertion ninePeersConfig plainNet st ev [] =
      some ((roundResult s st ev).1, (roundResult s st ev).2.1, (roundResult s st ev).2.2) :=
  (Option.getD_of_ne_none (Option.ne_none_iff_isSome.2 h) _).symm

theorem run_redial :
    Run GoSort.insertion ninePeersConfig plainNet plainDial [doneEvent] afterDone.1 afterDone.2.1 :=
  @Run.round _ _ _ _ [] _ _ _ _ _ doneEvent [] afterDone.2.2 run_ninePeers (.refl _) trivial
    (roundResult_eq (by decide)) (by decide)

theorem run_redial_remove :
    Run GoSort.insertion ninePeersConfig plainNet plainDial [doneEvent, removeEvent]
      afterRemove.1 afterRemove.2.1 :=
  @Run.round _ _ _ _ [doneEvent] _ _ _ _ _ removeEvent [] afterRemove.2.2 run_redial (.refl _) trivial
    (roundResult_eq (by decide)) (by decide)

example : afterRemove.2.1.outboundCount = 8 ∧ afterRemove.2.1.outboundGroups "10.0.0.2:8108" = 0 ∧
    afterRemove.2.1.outboundGroups "10.0.0.1:8108" = 1 := by decide

end FactomCode

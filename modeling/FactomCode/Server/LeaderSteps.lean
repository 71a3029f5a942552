import FactomCode.Server.LeaderRun
import FactomCode.Server.PeerCounts

set_option autoImplicit false

/-! # The leader machine's steps on a well-formed roster

On a roster whose entries have pairwise distinct node ids and in which `Leader`, `LeaderElect` and
`LeaderPrev` each have at most one holder, every role mutator acts as a map over the roster that
moves one entry: the holder of the role it assigns is moved to the role it demotes to
(`FederateServer.reassign`), then the target's entry takes the role (`FederateServer.withRoleOf`).
From these maps the three steps of the leader machine are given in full: the leader's choice of a
successor (`selectNextLeader`), its hand-off at `StartDBHeight + Term - 1`, and the removal of a
crashed leader by `handleDonePeerMsg`. The last one looks the dead leader up after its entry is
gone, so its `CurrentLeader` message names no dead leader. -/

namespace FactomCode

/-- The node ids of a roster are pairwise distinct. -/
def IdsDistinct (fss : List FederateServer) : Prop := (fss.map (·.peer.nodeID)).Nodup

instance : DecidablePred IdsDistinct := fun _ => inferInstanceAs (Decidable (List.Nodup _))

namespace FederateServer

/-- The entry of node `pid` in role `ns`; any other entry as it was. -/
def withRoleOf (pid : String) (ns : NodeState) (fs : FederateServer) : FederateServer :=
  if fs.peer.nodeID = pid then { fs with nodeState := ns } else fs

/-- An entry in role `r` moved to role `ns`; any other entry as it was. -/
def reassign (r ns : NodeState) (fs : FederateServer) : FederateServer :=
  if fs.nodeState = r then { fs with nodeState := ns } else fs

/-- The entry of node `pid` with `LeaderLast` set to `h`; any other entry as it was. -/
def withLeaderLastOf (pid : String) (h : BitVec 32) (fs : FederateServer) : FederateServer :=
  if fs.peer.nodeID = pid then { fs with leaderLast := h } else fs

@[simp] theorem withRoleOf_peer (pid : String) (ns : NodeState) (fs : FederateServer) :
    (fs.withRoleOf pid ns).peer = fs.peer := by
  unfold withRoleOf; split <;> rfl

@[simp] theorem reassign_peer (r ns : NodeState) (fs : FederateServer) :
    (fs.reassign r ns).peer = fs.peer := by
  unfold reassign; split <;> rfl

@[simp] theorem withRoleOf_leaderLast (pid : String) (ns : NodeState) (fs : FederateServer) :
    (fs.withRoleOf pid ns).leaderLast = fs.leaderLast := by
  unfold withRoleOf; split <;> rfl

@[simp] theorem reassign_leaderLast (r ns : NodeState) (fs : FederateServer) :
    (fs.reassign r ns).leaderLast = fs.leaderLast := by
  unfold reassign; split <;> rfl

@[simp] theorem withRoleOf_nodeState (pid : String) (ns : NodeState) (fs : FederateServer) :
    (fs.withRoleOf pid ns).nodeState = if fs.peer.nodeID = pid then ns else fs.nodeState := by
  unfold withRoleOf; split <;> rfl

@[simp] theorem reassign_nodeState (r ns : NodeState) (fs : FederateServer) :
    (fs.reassign r ns).nodeState = if fs.nodeState = r then ns else fs.nodeState := by
  unfold reassign; split <;> rfl

theorem reassign_of_ne {r ns : NodeState} {fs : FederateServer} (h : fs.nodeState ≠ r) :
    fs.reassign r ns = fs := if_neg h

end FederateServer

namespace IdsDistinct

variable {fss : List FederateServer} (hids : IdsDistinct fss)
include hids

theorem eq_of_nodeID {x y : FederateServer} (hx : x ∈ fss) (hy : y ∈ fss)
    (h : x.peer.nodeID = y.peer.nodeID) : x = y :=
  List.inj_on_of_nodup_map hids hx hy h

/-- On distinct node ids, setting the role of one entry's peer is `withRoleOf` its node id. -/
theorem map_setNodeState {x : FederateServer} (hx : x ∈ fss) (ns : NodeState) :
    fss.map (·.setNodeState x.peer ns) = fss.map (·.withRoleOf x.peer.nodeID ns) := by
  refine List.map_congr_left fun fs hfs => ?_
  unfold FederateServer.setNodeState FederateServer.withRoleOf
  by_cases h : fs.peer.nodeID = x.peer.nodeID
  · rw [hids.eq_of_nodeID hfs hx h, if_pos rfl, if_pos rfl]
  · rw [if_neg fun (he : fs.peer = x.peer) => h (he ▸ rfl), if_neg h]

/-- On distinct node ids, the holder of a role that has one holder at most is the one entry
    `reassign` moves. -/
theorem map_setNodeState_holder {r : NodeState} (hone : fss.countP (·.nodeState == r) ≤ 1)
    {y : FederateServer} (hy : y ∈ fss) (hr : y.nodeState = r) (ns : NodeState) :
    fss.map (·.setNodeState y.peer ns) = fss.map (·.reassign r ns) := by
  rw [hids.map_setNodeState hy]
  refine List.map_congr_left fun fs hfs => ?_
  unfold FederateServer.withRoleOf FederateServer.reassign
  by_cases h : fs = y
  · subst h; rw [if_pos rfl, if_pos hr]
  · have hid : fs.peer.nodeID ≠ y.peer.nodeID := fun he => h (hids.eq_of_nodeID hfs hy he)
    have hfr : fs.nodeState ≠ r := fun he =>
      h (Server.eq_of_countP_le_one hone hfs (by simp [he]) hy (by simp [hr]))
    rw [if_neg hid, if_neg hfr]

/-- A roster whose non-candidates are all `me` has `me` as its one non-candidate entry. -/
theorem filter_not_isCandidate {me : FederateServer} (hme : me ∈ fss) (hmec : me.isCandidate = false)
    (hall : ∀ y ∈ fss, y.isCandidate = false → y = me) :
    fss.filter (fun fs => !fs.isCandidate) = [me] := by
  have hle : (fss.filter fun fs => !fs.isCandidate).length ≤ 1 :=
    Server.length_filter_le_one (List.Nodup.of_map _ hids) fun x hx y hy hpx hpy =>
      (hall x hx (by simpa using hpx)).trans (hall y hy (by simpa using hpy)).symm
  have hmem : me ∈ fss.filter (fun fs => !fs.isCandidate) := List.mem_filter.2 ⟨hme, by simp [hmec]⟩
  obtain ⟨z, hz⟩ := List.length_eq_one.1 (le_antisymm hle (List.length_pos_of_mem hmem))
  rw [hz] at hmem ⊢
  rw [List.mem_singleton.1 hmem]

theorem of_map {f : FederateServer → FederateServer} (hf : ∀ fs, (f fs).peer = fs.peer) :
    IdsDistinct (fss.map f) := by
  unfold IdsDistinct; rwa [List.map_map, Function.comp_def, funext fun fs => congrArg (·.nodeID) (hf fs)]

end IdsDistinct

/-- The entry found first by a key whose list is sorted by that key has the smallest key among the
    entries the search accepts. -/
theorem find?_le_of_sorted {α : Type} {key : α → Int} {p : α → Bool} :
    ∀ {l : List α} {x : α}, l.Sorted (fun a b => key a ≤ key b) → l.find? p = some x →
      ∀ y ∈ l, p y → key x ≤ key y
  | a :: l, x, hs, hf, y, hy, hpy => by
    rw [List.sorted_cons] at hs
    by_cases hpa : p a
    · rw [List.find?_cons_of_pos _ hpa, Option.some.injEq] at hf
      subst hf
      rcases List.mem_cons.1 hy with rfl | hy
      exacts [le_rfl, hs.1 y hy]
    · rw [List.find?_cons_of_neg _ hpa] at hf
      rcases List.mem_cons.1 hy with rfl | hy
      exacts [absurd hpy hpa, find?_le_of_sorted hs.2 hf y hy hpy]

namespace Server

variable {s : Server}

/-! ## Queries and mutators on distinct node ids -/

theorem getMyFederateServer_eq (hids : IdsDistinct s.federateServers) {me : FederateServer}
    (hme : me ∈ s.federateServers) (hid : me.peer.nodeID = s.nodeID) :
    s.getMyFederateServer = some me :=
  find?_eq_some_of_unique hme (by simp [hid]) fun y hy h =>
    hids.eq_of_nodeID hy hme (by simpa [hid] using h)

theorem hasRole_eq (hids : IdsDistinct s.federateServers) {me : FederateServer}
    (hme : me ∈ s.federateServers) (hid : me.peer.nodeID = s.nodeID) (ns : NodeState) :
    s.hasRole ns = some (me.nodeState == ns) := by
  rw [hasRole, getMyFederateServer_eq hids hme hid]; rfl

theorem getPeer_eq_none {r : NodeState} (h : ∀ z ∈ s.federateServers, z.nodeState ≠ r) :
    s.getPeer r = none := by
  simpa [getPeer] using h

/-- The first half of `assignRole`: the holder of role `r`, if any, is moved to role `ns`. -/
def reassignHolder (s : Server) (r ns : NodeState) : Server :=
  match s.getPeer r with
  | some holder => s.setNodeState holder ns
  | none => s

theorem assignRole_eq (s : Server) (role demoted : NodeState) (target : Server → Option Peer) :
    s.assignRole role demoted target =
      match target (s.reassignHolder role demoted) with
      | some p => (s.reassignHolder role demoted).setNodeState p role
      | none => s.reassignHolder role demoted := rfl

@[simp] theorem getPeerByID_reassignHolder (r ns : NodeState) (pid : String) :
    (s.reassignHolder r ns).getPeerByID pid = s.getPeerByID pid := by
  unfold reassignHolder; split <;> simp

/-- On distinct node ids, moving the holder of a role with one holder at most is `reassign`. -/
theorem reassignHolder_eq (hids : IdsDistinct s.federateServers) {r : NodeState}
    (hone : s.holders r ≤ 1) (ns : NodeState) :
    s.reassignHolder r ns = { s with federateServers := s.federateServers.map (·.reassign r ns) } := by
  unfold reassignHolder getPeer
  cases hf : s.federateServers.find? (·.nodeState == r) with
  | some y =>
    have hr : y.nodeState = r := by simpa using List.find?_some hf
    show { s with federateServers := _ } = _
    rw [hids.map_setNodeState_holder hone (List.mem_of_find?_eq_some hf) hr]
  | none =>
    have hid : s.federateServers.map (·.reassign r ns) = s.federateServers.map id :=
      List.map_congr_left fun fs hfs => fs.reassign_of_ne fun h => by
        simpa [h] using List.find?_eq_none.1 hf fs hfs
    rw [hid, List.map_id]
    rfl

/-- On distinct node ids, a role mutator whose target is an entry of the roster moves the holder
    of the role, then gives the role to the target's entry. -/
theorem assignRole_of_target (hids : IdsDistinct s.federateServers) {role demoted : NodeState}
    (hone : s.holders role ≤ 1) {target : Server → Option Peer} {t : FederateServer}
    (ht : t ∈ s.federateServers) (htarget : target (s.reassignHolder role demoted) = some t.peer) :
    s.assignRole role demoted target =
      { s with
        federateServers := s.federateServers.map fun fs =>
          (fs.reassign role demoted).withRoleOf t.peer.nodeID role } := by
  have hmap := (hids.of_map (FederateServer.reassign_peer role demoted)).map_setNodeState
    (List.mem_map_of_mem (·.reassign role demoted) ht) role
  simp only [FederateServer.reassign_peer] at hmap
  rw [assignRole_eq, htarget, reassignHolder_eq hids hone]
  simp only [setNodeState, hmap, List.map_map]
  rfl

variable (srt : GoSort)

theorem reassignHolder_of_none {r : NodeState} (h : s.getPeer r = none) (ns : NodeState) :
    s.reassignHolder r ns = s := by
  rw [reassignHolder, h]

/-- `SetPrevLeaderByID(s.nodeID)`: the previous leader, if any, becomes a follower, and this
    node's entry the previous leader. -/
theorem setPrevLeaderByID_self (hids : IdsDistinct s.federateServers)
    (hone : s.holders .leaderPrev ≤ 1) {me : FederateServer} (hme : me ∈ s.federateServers)
    (hid : me.peer.nodeID = s.nodeID) :
    s.setPrevLeaderByID s.nodeID =
      { s with
        federateServers := s.federateServers.map fun fs =>
          (fs.reassign .leaderPrev .follower).withRoleOf s.nodeID .leaderPrev } := by
  rw [setPrevLeaderByID, assignRole_of_target hids hone hme, hid]
  rw [getPeerByID_reassignHolder, getPeerByID_self, getMyFederateServer_eq hids hme hid]
  rfl

/-- `SetLeaderPeerByID(s.nodeID)`: the leader, if any, becomes the previous leader, and this
    node's entry the leader. -/
theorem setLeaderPeerByID_self (hids : IdsDistinct s.federateServers)
    (hone : s.holders .leader ≤ 1) {me : FederateServer} (hme : me ∈ s.federateServers)
    (hid : me.peer.nodeID = s.nodeID) :
    s.setLeaderPeerByID s.nodeID =
      { s with
        federateServers := s.federateServers.map fun fs =>
          (fs.reassign .leader .leaderPrev).withRoleOf s.nodeID .leader } := by
  rw [setLeaderPeerByID, assignRole_of_target hids hone hme, hid]
  rw [getPeerByID_reassignHolder, getPeerByID_self, getMyFederateServer_eq hids hme hid]
  rfl

/-- `SetLeaderPeer(e)` for the leader-elect `e` of a roster with no leader moves the holder of
    `LeaderElect` to `Leader`. -/
theorem setLeaderPeer_eq_reassignHolder (hnone : s.getPeer .leader = none) {e : Peer}
    (he : s.getLeaderElect = some e) : s.setLeaderPeer e = s.reassignHolder .leaderElect .leader := by
  rw [setLeaderPeer, assignRole_eq, reassignHolder_of_none hnone]
  rw [reassignHolder, ← getLeaderElect, he]

/-- `GetFederateServerByID(pid).LeaderLast = h` on distinct node ids: the entry of `pid` is
    updated and no other. -/
theorem setLeaderLast_go_eq {pid : String} (h : BitVec 32) :
    ∀ {fss : List FederateServer}, IdsDistinct fss → pid ∈ fss.map (·.peer.nodeID) →
      setLeaderLast.go pid h fss = some (fss.map (·.withLeaderLastOf pid h))
  | fs :: rest, hids, hmem => by
    obtain ⟨hfs, hrest⟩ := List.nodup_cons.1 hids
    rw [setLeaderLast.go, List.map_cons, FederateServer.withLeaderLastOf]
    by_cases hp : fs.peer.nodeID = pid
    · have hkeep : rest.map (·.withLeaderLastOf pid h) = rest.map id :=
        List.map_congr_left fun x hx => if_neg fun hx' =>
          hfs (List.mem_map.2 ⟨x, hx, hx'.trans hp.symm⟩)
      rw [if_pos hp, if_pos hp, hkeep, List.map_id]
    · have hmem' : pid ∈ rest.map (·.peer.nodeID) := (List.mem_cons.1 hmem).resolve_left (Ne.symm hp)
      rw [if_neg hp, if_neg hp, setLeaderLast_go_eq h hrest hmem']
      rfl

/-! ## The leader picks its successor -/

/-- What the leader's `selectNextLeader(height)` does on a roster with distinct node ids. When it
    is the only non-candidate it moves its own `StartDBHeight` to `height + 3` and broadcasts
    nothing. Otherwise it broadcasts one `NextLeader` at `StartDBHeight + Term`, naming a
    non-candidate other than itself whose `LeaderLast` is the smallest among those, and marks its
    policy notified. The roster is unchanged in both cases. -/
theorem selectNextLeader_spec {me : FederateServer} {P : LeaderPolicy}
    (hids : IdsDistinct s.federateServers) (hme : me ∈ s.federateServers)
    (hid : me.peer.nodeID = s.nodeID) (hlead : me.nodeState = .leader)
    (hP : s.myLeaderPolicy = some P) (height : BitVec 32) :
    ((∀ y ∈ s.federateServers, y.isCandidate = false → y = me) →
      s.selectNextLeader srt height =
        some ({ s with myLeaderPolicy := some { P with startDBHeight := height + 3 } }, [])) ∧
    ((∃ y ∈ s.federateServers, y.isCandidate = false ∧ y ≠ me) →
      ∃ next ∈ s.federateServers, next.isCandidate = false ∧ next.peer.nodeID ≠ s.nodeID ∧
        (∀ y ∈ s.federateServers, y.isCandidate = false → y.peer.nodeID ≠ s.nodeID →
          next.leaderLast ≤ y.leaderLast) ∧
        s.selectNextLeader srt height =
          some ({ s with myLeaderPolicy := some { P with notified := true } },
            [.broadcast (.nextLeader s.nodeID next.peer.nodeID (P.startDBHeight + P.term)
              (s.nodeID ++ next.peer.nodeID))])) := by
  have hL : s.isLeader = some true := by rw [isLeader, hasRole_eq hids hme hid, hlead]; rfl
  have hNC : ∀ {y}, y ∈ s.nonCandidateServers.1 ↔ y ∈ s.federateServers ∧ y.isCandidate = false :=
    by simp [nonCandidateServers]
  have hmeNC : me ∈ s.nonCandidateServers.1 := hNC.2 ⟨hme, by simp [FederateServer.isCandidate, hlead]⟩
  simp only [selectNextLeader, hL, hP, Option.bind_eq_bind, Option.some_bind, Option.pure_def,
    Bool.not_true, Bool.false_eq_true, reduceIte]
  constructor
  · intro hall
    have hz : s.nonCandidateServers.1 = [me] :=
      hids.filter_not_isCandidate hme (by simp [FederateServer.isCandidate, hlead]) hall
    rw [if_pos (by simp [hz, hid])]
  · rintro ⟨y, hy, hyc, hyme⟩
    have hyid : y.peer.nodeID ≠ s.nodeID := fun h => hyme (hids.eq_of_nodeID hy hme (h.trans hid.symm))
    -- a second non-candidate rules out the single-server extension
    have hcond : ¬(s.nonCandidateServers.1.length = 1 ∧
        s.nonCandidateServers.1.head?.map (·.peer.nodeID) = some s.nodeID) := fun ⟨hlen, _⟩ => by
      obtain ⟨z, hz⟩ := List.length_eq_one.1 hlen
      have h1 := hz ▸ hmeNC
      have h2 := hz ▸ hNC.2 ⟨hy, hyc⟩
      exact hyme ((List.mem_singleton.1 h2).trans (List.mem_singleton.1 h1).symm)
    rw [if_neg hcond]
    have hperm := fun {z} => (srt.perm byLeaderLast s.nonCandidateServers.1).mem_iff (a := z)
    obtain ⟨next, hnext⟩ : ∃ next, (srt.sortBy byLeaderLast s.nonCandidateServers.1).find?
        (·.peer.nodeID != s.nodeID) = some next :=
      Option.isSome_iff_exists.1 (List.find?_isSome.2 ⟨y, hperm.2 (hNC.2 ⟨hy, hyc⟩), by simpa using hyid⟩)
    obtain ⟨hnm, hnc⟩ := hNC.1 (hperm.1 (List.mem_of_find?_eq_some hnext))
    refine ⟨next, hnm, hnc, by simpa using List.find?_some hnext, fun z hz hzc hzid => ?_, ?_⟩
    · have hle := find?_le_of_sorted (srt.sorted _ _) hnext z (hperm.2 (hNC.2 ⟨hz, hzc⟩))
        (by simpa using hzid)
      exact BitVec.le_def.2 (Int.ofNat_le.1 hle)
    · rw [hnext]

/-- The policy of a term that starts at height 10. -/
def successionPolicy : LeaderPolicy :=
  ⟨selfPeer "N" serverNode, 10, defaultLeaderTerm, defaultNotifyDBHeight, false⟩

/-- Node `N` leads; `B` and `C` follow, `C` having led longer ago than `B`; `D` is a candidate
    that has never led. -/
def successionServer : Server where
  nodeID := "N"
  nodeType := serverNode
  shutdown := false
  federateServers :=
    [⟨selfPeer "N" serverNode, .leader, 0, 0, 9⟩,
      ⟨⟨1, "10.0.0.2:8108", "10.0.0.2", false, false, 0, "B", serverNode⟩, .follower, 100, 1, 5⟩,
      ⟨⟨2, "10.0.0.3:8108", "10.0.0.3", false, false, 0, "C", serverNode⟩, .follower, 200, 2, 2⟩,
      ⟨⟨3, "10.0.0.4:8108", "10.0.0.4", false, false, 0, "D", serverNode⟩, .candidate, 300, 3, 0⟩]
  myLeaderPolicy := some successionPolicy
  clientPeers := []
  leaderCrashed := false
  startTime := 0

/-- The leader of `successionServer` notifies `C` at height 10: of the two followers, `C` led
    longer ago, so the specification leaves no other choice. -/
theorem selectNextLeader_spec_succession :
    successionServer.selectNextLeader GoSort.insertion 10 =
      some ({ successionServer with myLeaderPolicy := some { successionPolicy with notified := true } },
        [.broadcast (.nextLeader "N" "C" (successionPolicy.startDBHeight + successionPolicy.term)
          ("N" ++ "C"))]) := by
  obtain ⟨next, hmem, hnc, hid, hmin, hrun⟩ := (@selectNextLeader_spec successionServer
    GoSort.insertion ⟨selfPeer "N" serverNode, .leader, 0, 0, 9⟩ successionPolicy (by decide)
    (List.mem_cons_self _ _) rfl rfl rfl 10).2
    ⟨⟨⟨1, "10.0.0.2:8108", "10.0.0.2", false, false, 0, "B", serverNode⟩, .follower, 100, 1, 5⟩,
      by decide, rfl, by decide⟩
  have hC : next.peer.nodeID = "C" := by
    simp only [successionServer, List.mem_cons, List.mem_singleton, List.not_mem_nil,
      or_false] at hmem
    rcases hmem with rfl | rfl | rfl | rfl
    · exact absurd rfl hid
    · exact absurd (hmin ⟨⟨2, "10.0.0.3:8108", "10.0.0.3", false, false, 0, "C", serverNode⟩,
        .follower, 200, 2, 2⟩ (by simp [successionServer]) (by decide) (by decide)) (by decide)
    · rfl
    · exact absurd hnc (by decide)
  rw [hrun, hC]
  rfl

/-! ## The leader hands off -/

/-- The hand-off as the spec states it, entry by entry: this node becomes the previous leader with
    `LeaderLast` the height, the leader-elect becomes the leader, the previous leader a follower,
    and every other entry stays as it was. -/
def handOffEntry (self : String) (height : BitVec 32) (fs : FederateServer) : FederateServer :=
  if fs.peer.nodeID = self then { fs with nodeState := .leaderPrev, leaderLast := height }
  else match fs.nodeState with
    | .leaderElect => { fs with nodeState := .leader }
    | .leaderPrev => { fs with nodeState := .follower }
    | _ => fs

/-- Entry by entry, the code's hand-off is `handOffEntry`, on a roster whose entry of this node
    is the leader and whose other entries do not lead. -/
theorem handOffEntry_eq {self : String} {height : BitVec 32} {fs : FederateServer}
    (hself : fs.peer.nodeID = self → fs.nodeState = .leader)
    (hlead : fs.nodeState = .leader → fs.peer.nodeID = self) :
    (((fs.reassign .leaderPrev .follower).withRoleOf self .leaderPrev).reassign
      .leaderElect .leader).withLeaderLastOf self height = handOffEntry self height fs := by
  by_cases h : fs.peer.nodeID = self
  · simp [FederateServer.reassign, FederateServer.withRoleOf, FederateServer.withLeaderLastOf,
      handOffEntry, h, hself h]
  · have hnl : fs.nodeState ≠ .leader := fun hl => h (hlead hl)
    cases hs : fs.nodeState <;> simp_all [FederateServer.reassign, FederateServer.withRoleOf,
      FederateServer.withLeaderLastOf, handOffEntry]

/-- The leader's hand-off on a roster with distinct node ids and unique roles: `handOffEntry` on
    every entry, the policy cleared, nothing broadcast. -/
theorem handOff_eq {me : FederateServer} (hids : IdsDistinct s.federateServers)
    (hroles : s.RolesUnique) (hme : me ∈ s.federateServers) (hid : me.peer.nodeID = s.nodeID)
    (hlead : me.nodeState = .leader) (height : BitVec 32) :
    handleNextLeader.handOff s height =
      some ({ s with
        federateServers := s.federateServers.map (handOffEntry s.nodeID height)
        myLeaderPolicy := none }, []) := by
  -- this node's entry is the leader entry
  have honly : ∀ fs ∈ s.federateServers, fs.nodeState = .leader → fs.peer.nodeID = s.nodeID :=
    fun fs hfs hl => by
      rw [eq_of_countP_le_one hroles.1 hfs (by simp [hl]) hme (by simp [hlead]), hid]
  have hself : ∀ fs ∈ s.federateServers, fs.peer.nodeID = s.nodeID → fs.nodeState = .leader :=
    fun fs hfs h => hids.eq_of_nodeID hfs hme (h.trans hid.symm) ▸ hlead
  have h₁ := setPrevLeaderByID_self hids hroles.2.2 hme hid
  have hids₁ : IdsDistinct (s.setPrevLeaderByID s.nodeID).federateServers :=
    h₁ ▸ hids.of_map fun _ => by simp
  -- after `SetPrevLeaderByID` no entry leads, and at most one is the leader-elect
  have hnone : (s.setPrevLeaderByID s.nodeID).getPeer .leader = none := by
    refine getPeer_eq_none ?_
    rw [h₁, List.forall_mem_map]
    intro fs hfs
    simp only [FederateServer.withRoleOf_nodeState, FederateServer.reassign_peer,
      FederateServer.reassign_nodeState]
    split_ifs with hs hp
    · nofun
    · nofun
    · exact fun hl => hs (honly fs hfs hl)
  have hone₁ : (s.setPrevLeaderByID s.nodeID).holders .leaderElect ≤ 1 := by
    refine le_trans ?_ hroles.2.1
    rw [holders, holders, h₁, List.countP_map]
    refine List.countP_mono_left fun fs _ h => ?_
    simp only [Function.comp_apply, FederateServer.withRoleOf_nodeState,
      FederateServer.reassign_peer, FederateServer.reassign_nodeState] at h
    split_ifs at h
    · exact absurd h (by decide)
    · exact absurd h (by decide)
    · exact h
  have hcommon : ∀ s₂, s₂ = (s.setPrevLeaderByID s.nodeID).reassignHolder .leaderElect .leader →
      ({ s₂ with myLeaderPolicy := none }.setLeaderLast s₂.nodeID height >>= fun s =>
        pure (s, ([] : List Effect))) =
        some ({ s with
          federateServers := s.federateServers.map (handOffEntry s.nodeID height)
          myLeaderPolicy := none }, []) := by
    rintro _ rfl
    rw [reassignHolder_eq hids₁ hone₁, h₁]
    dsimp only [setLeaderLast]
    rw [setLeaderLast_go_eq height ((hids.of_map fun _ => by simp).of_map fun _ => by simp)
      (by simpa [List.map_map] using ⟨me, hme, hid⟩)]
    have hlist : ((s.federateServers.map fun fs =>
        (fs.reassign .leaderPrev .follower).withRoleOf s.nodeID .leaderPrev).map
          (·.reassign .leaderElect .leader)).map (·.withLeaderLastOf s.nodeID height) =
          s.federateServers.map (handOffEntry s.nodeID height) := by
      simp only [List.map_map]
      refine List.map_congr_left fun fs hfs => ?_
      simp only [Function.comp_apply]
      exact handOffEntry_eq (hself fs hfs) (honly fs hfs)
    rw [hlist]
    rfl
  simp only [handleNextLeader.handOff]
  split
  next e he => exact hcommon _ (setLeaderPeer_eq_reassignHolder hnone he)
  next he => exact hcommon _ (reassignHolder_of_none he _).symm

/-- The leader's `handleNextLeader` at `StartDBHeight + Term - 1`, on a roster of two servers or
    more with distinct node ids and unique roles, whose policy notifies before the term ends and
    does not start the term at height 0 with the sum wrapped: this node becomes the previous
    leader with `LeaderLast` the height, the leader-elect (if any) the leader, the previous leader
    (if any) a follower, every other entry is as it was, the policy is cleared, and nothing is
    broadcast. -/
theorem handleNextLeader_hands_off {me : FederateServer} {P : LeaderPolicy}
    (hids : IdsDistinct s.federateServers) (hroles : s.RolesUnique)
    (hlen : 2 ≤ s.federateServers.length) (hme : me ∈ s.federateServers)
    (hid : me.peer.nodeID = s.nodeID) (hlead : me.nodeState = .leader)
    (hP : s.myLeaderPolicy = some P) (hnt : P.notifyDBHeight < P.term)
    (hst : 1 ≤ P.startDBHeight + P.term) :
    s.handleNextLeader srt (P.startDBHeight + P.term - 1) =
      some ({ s with
        federateServers :=
          s.federateServers.map (handOffEntry s.nodeID (P.startDBHeight + P.term - 1))
        myLeaderPolicy := none }, []) := by
  have hL : s.isLeader = some true := by rw [isLeader, hasRole_eq hids hme hid, hlead]; rfl
  have hE : s.isLeaderElect = some false := by rw [isLeaderElect, hasRole_eq hids hme hid, hlead]; rfl
  have hsingle : s.isSingleServerMode = false := by
    simp only [isSingleServerMode, federateServerCount, beq_eq_false_iff_ne]
    split <;> omega
  -- the hand-off height is neither past the term nor the notification height
  have hpast : ¬P.startDBHeight + P.term - 1 > P.startDBHeight + P.term := by bv_omega
  have hnotify : P.startDBHeight + P.term - 1 ≠ P.startDBHeight + P.notifyDBHeight - 1 := by
    bv_omega
  simp only [handleNextLeader, hL, hE, hsingle, hP, Option.bind_eq_bind, Option.some_bind,
    Option.pure_def, Bool.not_true, Bool.not_false, Bool.false_and, Bool.false_eq_true, reduceIte,
    hpast, hnotify]
  exact handOff_eq hids hroles hme hid hlead _

/-- Node `N` leads in its term from height 10; `B` is the leader-elect, `Z` the previous leader
    and `C` a follower. -/
def termEndServer : Server :=
  { successionServer with
    federateServers :=
      [⟨selfPeer "N" serverNode, .leader, 0, 0, 9⟩,
        ⟨⟨1, "10.0.0.2:8108", "10.0.0.2", false, false, 0, "B", serverNode⟩, .leaderElect, 100, 1, 5⟩,
        ⟨⟨2, "10.0.0.3:8108", "10.0.0.3", false, false, 0, "Z", serverNode⟩, .leaderPrev, 200, 2, 2⟩,
        ⟨⟨3, "10.0.0.4:8108", "10.0.0.4", false, false, 0, "C", serverNode⟩, .follower, 300, 3, 0⟩] }

/-- `N` hands off at height 11, `StartDBHeight + Term - 1`. -/
theorem handleNextLeader_hands_off_termEnd :
    termEndServer.handleNextLeader GoSort.insertion
        (successionPolicy.startDBHeight + successionPolicy.term - 1) =
      some ({ termEndServer with
        federateServers := termEndServer.federateServers.map
          (handOffEntry "N" (successionPolicy.startDBHeight + successionPolicy.term - 1))
        myLeaderPolicy := none }, []) :=
  @handleNextLeader_hands_off termEndServer GoSort.insertion
    ⟨selfPeer "N" serverNode, .leader, 0, 0, 9⟩ successionPolicy (by decide) (by decide)
    (by decide) (List.mem_cons_self _ _) rfl rfl rfl (by decide) (by decide)

example : ((termEndServer.handleNextLeader GoSort.insertion 11).map
    fun r => r.1.federateServers.map fun fs => (fs.peer.nodeID, fs.nodeState, fs.leaderLast)) =
      some [("N", .leaderPrev, 11), ("B", .leader, 5), ("Z", .follower, 2), ("C", .follower, 0)] := by
  decide

/-! ## A crashed leader is removed -/

theorem removeFederateServer_eq {p : Peer} {x : FederateServer} (hx : x.peer = p)
    (post : List FederateServer) : ∀ {pre : List FederateServer}, (∀ fs ∈ pre, fs.peer ≠ p) →
      removeFederateServer p (pre ++ x :: post) = some (x, pre ++ post)
  | [], _ => by simp [removeFederateServer, hx]
  | fs :: pre, h => by
    rw [List.cons_append, removeFederateServer, if_neg (h fs (List.mem_cons_self _ _)),
      removeFederateServer_eq hx post fun fs' h' => h fs' (List.mem_cons_of_mem _ h')]
    rfl

/-- `sendCurrentLeaderMsg` on a roster with distinct node ids and no leader: this node's entry
    becomes the leader with a fresh policy, and `CurrentLeader` is broadcast, followed by
    `resetLeaderState` after a crash. -/
theorem sendCurrentLeaderMsg_eq {me : FederateServer} (hids : IdsDistinct s.federateServers)
    (hnolead : ∀ y ∈ s.federateServers, y.nodeState ≠ .leader) (hme : me ∈ s.federateServers)
    (hid : me.peer.nodeID = s.nodeID) (deadLeader newLeader source : String) (h : BitVec 32) :
    s.sendCurrentLeaderMsg deadLeader newLeader source h =
      some ({ s with
          federateServers := s.federateServers.map (·.withRoleOf s.nodeID .leader)
          myLeaderPolicy := some ⟨me.peer, h, defaultLeaderTerm, defaultNotifyDBHeight, false⟩ },
        .broadcast (.currentLeader deadLeader newLeader source h
          (deadLeader ++ newLeader ++ source ++ toString h.toNat)) ::
          if s.leaderCrashed then [.resetLeaderState] else []) := by
  have hzero : s.holders .leader ≤ 1 := by
    rw [holders, List.countP_eq_zero.2 fun y hy => by simpa using hnolead y hy]; omega
  have hmap : s.federateServers.map (fun fs => (fs.reassign .leader .leaderPrev).withRoleOf
      s.nodeID .leader) = s.federateServers.map (·.withRoleOf s.nodeID .leader) :=
    List.map_congr_left fun fs hfs => by rw [FederateServer.reassign_of_ne (hnolead fs hfs)]
  have hmy := @getMyFederateServer_eq { s with
      federateServers := s.federateServers.map (·.withRoleOf s.nodeID .leader) }
    (hids.of_map fun _ => by simp) (me.withRoleOf s.nodeID .leader)
    (List.mem_map_of_mem _ hme) (by simpa using hid)
  rw [sendCurrentLeaderMsg, setLeaderPeerByID_self hids hzero hme hid, hmap]
  simp only [hmy, Option.bind_eq_bind, Option.some_bind, Option.pure_def,
    FederateServer.withRoleOf_peer]

/-- `selectCurrentleader` on a roster with distinct node ids and no leader, where this node is
    the leader-elect or the only non-candidate: it crowns itself through `sendCurrentLeaderMsg`,
    naming as the dead leader the leader the roster holds now, that is none. -/
theorem selectCurrentleader_of_elect_or_only {me : FederateServer}
    (hids : IdsDistinct s.federateServers)
    (hnolead : ∀ y ∈ s.federateServers, y.nodeState ≠ .leader) (hme : me ∈ s.federateServers)
    (hid : me.peer.nodeID = s.nodeID)
    (hself : me.nodeState = .leaderElect ∨
      me.isCandidate = false ∧ ∀ y ∈ s.federateServers, y.isCandidate = false → y = me)
    (h : BitVec 32) :
    s.selectCurrentleader srt h = s.sendCurrentLeaderMsg "" s.nodeID s.nodeID (h + 1) := by
  have hmec : me.isCandidate = false :=
    hself.elim (fun he => by simp [FederateServer.isCandidate, he]) (·.1)
  have hNC : me ∈ s.nonCandidateServers.1 := List.mem_filter.2 ⟨hme, by simp [hmec]⟩
  have hcrown : (me.nodeState == .leaderElect || (!me.isCandidate &&
      s.nonCandidateServers.1.length == 1 &&
      s.nonCandidateServers.1.head?.map (·.peer.nodeID) == some s.nodeID)) = true := by
    rcases hself with he | ⟨-, hall⟩
    · simp [he]
    · rw [show s.nonCandidateServers.1 = [me] from hids.filter_not_isCandidate hme hmec hall]
      simp [hmec, hid]
  have hne : s.nonCandidateServers.1.isEmpty = false := List.isEmpty_eq_false_iff_exists_mem.2 ⟨me, hNC⟩
  have hLp : s.getLeaderPeer = none := getPeer_eq_none hnolead
  simp only [FederateServer.isCandidate] at hcrown
  simp only [selectCurrentleader, isLeader, isCandidate, isLeaderElect, hasRole_eq hids hme hid,
    Option.bind_eq_bind, Option.some_bind, Option.pure_def, beq_iff_eq, hnolead me hme, hne,
    Bool.false_and, Bool.false_eq_true, reduceIte, hcrown, hLp, Option.map_none', Option.getD_none]

/-- `handleDonePeerMsg` for the crashed leader's entry `x`, on a roster with distinct node ids and
    unique roles in which this node is the leader-elect or, once `x` is gone, the only
    non-candidate. The other entries keep their order, this node's entry becomes the one leader
    with a fresh policy starting at `h + 1`, the crash is recorded, and one `CurrentLeader` is
    broadcast, followed by `resetLeaderState`. Its dead leader is `GetLeaderPeer()` looked up after
    the removal, which finds no leader: the field is empty, whatever node `x` was. -/
theorem handleDonePeerMsg_leader_crash_names_no_dead_leader (net : NetLib)
    {pre post : List FederateServer} {x me : FederateServer}
    (hroster : s.federateServers = pre ++ x :: post) (hids : IdsDistinct s.federateServers)
    (hroles : s.RolesUnique) (hx : x.nodeState = .leader) (hxtype : x.peer.nodeType = serverNode)
    (hme : me ∈ pre ++ post) (hid : me.peer.nodeID = s.nodeID)
    (hself : me.nodeState = .leaderElect ∨
      me.isCandidate = false ∧ ∀ y ∈ pre ++ post, y.isCandidate = false → y = me)
    (st : PeerState) (redial : Option Peer) (newestHeight : Int) :
    s.handleDonePeerMsg srt net st x.peer redial newestHeight =
      some ({ s with
          federateServers := (pre ++ post).map (·.withRoleOf s.nodeID .leader)
          myLeaderPolicy := some ⟨me.peer, BitVec.ofInt 32 newestHeight + 1, defaultLeaderTerm,
            defaultNotifyDBHeight, false⟩
          leaderCrashed := true },
        (s.donePeerMaps net st x.peer redial).1,
        [.broadcast (.currentLeader "" s.nodeID s.nodeID (BitVec.ofInt 32 newestHeight + 1)
            ("" ++ s.nodeID ++ s.nodeID ++ toString (BitVec.ofInt 32 newestHeight + 1).toNat)),
          .resetLeaderState],
        (s.donePeerMaps net st x.peer redial).2) := by
  have hN : ((pre ++ x :: post).map (·.peer.nodeID)).Nodup := hroster ▸ hids
  have hids' : IdsDistinct (pre ++ post) :=
    hN.sublist (((List.sublist_cons_self x post).append_left pre).map _)
  have hnotx : ∀ fs ∈ pre, fs.peer ≠ x.peer := fun fs hfs he => by
    rw [List.map_append, List.nodup_append] at hN
    exact hN.2.2 (List.mem_map_of_mem _ hfs) (by rw [he]; exact List.mem_map_of_mem _ (List.mem_cons_self _ _))
  -- `x` held the one leader entry
  have hnolead : ∀ y ∈ pre ++ post, y.nodeState ≠ .leader := by
    have h1 := hroles.1
    rw [holders, hroster, List.countP_append, List.countP_cons_of_pos _ _ (by simp [hx])] at h1
    have h0 : (pre ++ post).countP (·.nodeState == .leader) = 0 := by
      rw [List.countP_append]; omega
    exact fun y hy hl => by simpa [hl] using List.countP_eq_zero.1 h0 y hy
  have hL := @hasRole_eq { s with federateServers := pre ++ post } hids' me hme hid .leader
  have hsel := @selectCurrentleader_of_elect_or_only
    { s with federateServers := pre ++ post, leaderCrashed := true } srt me hids' hnolead hme hid
    hself (BitVec.ofInt 32 newestHeight)
  have hsend := @sendCurrentLeaderMsg_eq
    { s with federateServers := pre ++ post, leaderCrashed := true } me hids' hnolead hme hid
    "" s.nodeID s.nodeID (BitVec.ofInt 32 newestHeight + 1)
  simp only [handleDonePeerMsg, doneRoster, hxtype, hroster, removeFederateServer_eq rfl post hnotx,
    isLeader, hL, hnolead me hme, hx, Option.bind_eq_bind, Option.some_bind, Option.pure_def,
    reduceIte, Bool.and_eq_true, beq_iff_eq, reduceCtorEq, and_false, hsel, hsend]

/-- Spec scenario 2 on node `B`'s roster `[B: LeaderElect, A: Leader, Z: LeaderPrev]`: the leader
    `A` is done at newest height 10. `B` broadcasts `CurrentLeader` at height 11 with an empty dead
    leader, not `A`. -/
theorem handleDonePeerMsg_leader_crash_names_no_dead_leader_scenario :
    (handoffServer.handleDonePeerMsg GoSort.insertion plainNet (.init ninePeersConfig)
        ⟨1, "10.0.0.1:8108", "10.0.0.1", false, false, 0, "A", serverNode⟩ none 10).map
      (·.2.2.1) =
      some [.broadcast (.currentLeader "" "B" "B" 11 "BB11"), .resetLeaderState] := by
  rw [@handleDonePeerMsg_leader_crash_names_no_dead_leader handoffServer GoSort.insertion plainNet
    [⟨selfPeer "B" serverNode, .leaderElect, 300, 4, 0⟩]
    [⟨⟨2, "10.0.0.2:8108", "10.0.0.2", false, false, 0, "Z", serverNode⟩, .leaderPrev, 200, 2, 4⟩]
    ⟨⟨1, "10.0.0.1:8108", "10.0.0.1", false, false, 0, "A", serverNode⟩, .leader, 100, 1, 6⟩
    ⟨selfPeer "B" serverNode, .leaderElect, 300, 4, 0⟩ rfl (by decide) (by decide) rfl rfl
    (by decide) rfl (.inl rfl)]
  rfl

end Server

end FactomCode

import FactomCode.Server.Leader
import Mathlib.Data.List.MinMax

set_option autoImplicit false

/-! # Roles and the emergency election

Two properties of the leader machine over the federate roster.

* Role uniqueness: the roster should never hold two leaders, two leaders-elect or two previous
  leaders. The leader's own hand-off keeps it, by demoting the old previous leader with
  `SetPrevLeaderByID` before it installs the leader-elect; a leader-elect that takes over
  through `sendCurrentLeaderMsg` calls `SetLeaderPeerByID` alone, which demotes the old leader
  to `LeaderPrev` beside the one already there.
* The emergency election: when the leader has crashed, every survivor runs
  `selectCurrentleader` on its own copy of the roster. `Survivors` describes those copies: they
  agree on each server's node id, role and `StartTime`, in any order, and may differ in the rest
  (each node's own entry is the peer `newServer` made for it, `LeaderLast` is tracked per node); and
  `chosen` says which survivor the precedence of `selectCurrentleader` designates: the
  leader-elect, else the previous leader, else a non-candidate with the smallest `StartTime`.
  Each survivor crowns itself exactly when it is `chosen`, as long as that smallest `StartTime`
  is not shared; a tie lets `sort.Sort` put a different survivor first on each roster. -/

namespace FactomCode

/-- What `selectCurrentleader` reads of a roster entry: the node id, the role and `StartTime`. The
    peer record, `FirstJoined` and `LeaderLast` may differ from one node's roster to another's. -/
def FederateServer.electionView (fs : FederateServer) : String × NodeState × Int :=
  (fs.peer.nodeID, fs.nodeState, fs.startTime)

theorem FederateServer.electionView_eq_iff {a b : FederateServer} :
    a.electionView = b.electionView ↔
      a.peer.nodeID = b.peer.nodeID ∧ a.nodeState = b.nodeState ∧ a.startTime = b.startTime := by
  simp [FederateServer.electionView]

theorem FederateServer.isCandidate_eq_of_nodeState {a b : FederateServer}
    (h : a.nodeState = b.nodeState) : a.isCandidate = b.isCandidate := by
  simp [FederateServer.isCandidate, h]

namespace Server

/-- Whether a leader-machine step made this node the leader and broadcast `CurrentLeader`. -/
def crownsItself : Option (Server × List Effect) → Bool
  | some (s, effs) => s.isLeader == some true && effs.any fun
      | .broadcast (.currentLeader ..) => true
      | _ => false
  | none => false

theorem getPeerByID_self (s : Server) :
    s.getPeerByID s.nodeID = s.getMyFederateServer.map (·.peer) := rfl

/-- `SetLeaderPeerByID` with this node's own id makes its own entry the leader. -/
theorem isLeader_setLeaderPeerByID_self {s : Server} {x : FederateServer}
    (hx : s.getMyFederateServer = some x) : (s.setLeaderPeerByID s.nodeID).isLeader = some true := by
  unfold setLeaderPeerByID assignRole
  split <;> simp [isLeader, hasRole, getPeerByID_self, hx]

/-- A node with its own roster entry always crowns itself in `sendCurrentLeaderMsg`. -/
theorem crownsItself_sendCurrentLeaderMsg {s : Server} {x : FederateServer}
    (hx : s.getMyFederateServer = some x) (deadLeader newLeader source : String)
    (h : BitVec 32) : crownsItself (s.sendCurrentLeaderMsg deadLeader newLeader source h) = true := by
  obtain ⟨me, hme, hlead⟩ : ∃ me, (s.setLeaderPeerByID s.nodeID).getMyFederateServer = some me ∧
      me.nodeState = .leader := by
    simpa [isLeader, hasRole] using isLeader_setLeaderPeerByID_self hx
  simp only [sendCurrentLeaderMsg, hme, Option.bind_eq_bind, Option.some_bind, Option.pure_def]
  simp only [getMyFederateServer, getFederateServerByID] at hme
  simp [crownsItself, isLeader, hasRole, getMyFederateServer, getFederateServerByID, hme, hlead]

@[simp] theorem crownsItself_some_nil (s : Server) : crownsItself (some (s, [])) = false := by
  simp [crownsItself]

variable (srt : GoSort)

/-- What `selectCurrentleader` decides on a node whose own entry `x` is not the leader: it crowns
    itself exactly on the branches that reach `sendCurrentLeaderMsg`. -/
theorem crownsItself_selectCurrentleader {s : Server} {x : FederateServer}
    (hx : s.getMyFederateServer = some x) (hl : x.nodeState ≠ .leader) (h : BitVec 32) :
    crownsItself (s.selectCurrentleader srt h) =
      if s.nonCandidateServers.1.isEmpty && !s.nonCandidateServers.2.isEmpty then false
      else if x.nodeState == .leaderElect || (!x.isCandidate &&
          s.nonCandidateServers.1.length == 1 &&
          s.nonCandidateServers.1.head?.map (·.peer.nodeID) == some s.nodeID) then true
      else if s.getLeaderElect.isSome then false
      else match s.getPrevLeaderPeer with
        | some prev => !x.isCandidate && prev.nodeID == s.nodeID
        | none => (srt.sortBy byStartTime s.nonCandidateServers.1).head?.any
            (·.peer.nodeID == s.nodeID) := by
  have hsend := fun d n src h => crownsItself_sendCurrentLeaderMsg hx d n src h
  simp only [selectCurrentleader, isLeader, isCandidate, isLeaderElect, hasRole, hx,
    Option.map_some', Option.bind_eq_bind, Option.some_bind, Option.pure_def, beq_iff_eq, hl,
    reduceIte, FederateServer.isCandidate, apply_ite crownsItself, hsend, crownsItself_some_nil]
  -- the three guards before the previous-leader lookup read the same on both sides
  refine if_congr Iff.rfl rfl (if_congr Iff.rfl rfl (if_congr Iff.rfl rfl ?_))
  cases s.getPrevLeaderPeer with
  | some prev => simp [apply_ite crownsItself, hsend, Bool.beq_eq_decide_eq]
  | none =>
    cases (srt.sortBy byStartTime s.nonCandidateServers.1).head? with
    | none => rfl
    | some hd => simp [apply_ite crownsItself, hsend, Bool.beq_eq_decide_eq]

/-! ## Role uniqueness -/

/-- Node `B`'s roster while `A` leads, `Z` led before it, and `B` is the leader-elect whose term
    starts at height 10. -/
def handoffServer : Server where
  nodeID := "B"
  nodeType := serverNode
  shutdown := false
  federateServers :=
    [⟨selfPeer "B" serverNode, .leaderElect, 300, 4, 0⟩,
      ⟨⟨1, "10.0.0.1:8108", "10.0.0.1", false, false, 0, "A", serverNode⟩, .leader, 100, 1, 6⟩,
      ⟨⟨2, "10.0.0.2:8108", "10.0.0.2", false, false, 0, "Z", serverNode⟩, .leaderPrev, 200, 2, 4⟩]
  myLeaderPolicy := some ⟨selfPeer "B" serverNode, 10, defaultLeaderTerm, defaultNotifyDBHeight, false⟩
  clientPeers := []
  leaderCrashed := false
  startTime := 300

/-- At height `StartDBHeight - 1` the leader-elect takes over through `sendCurrentLeaderMsg`,
    whose `SetLeaderPeerByID` demotes the leader `A` to `LeaderPrev` while `Z` still holds it. -/
theorem handleNextLeader_takeover_two_leaderPrev :
    handoffServer.RolesUnique ∧
      (handleNextLeader GoSort.insertion handoffServer 9).map (·.1.holders .leaderPrev) = some 2 := by
  decide

/-! ## The emergency election -/

theorem find?_eq_some_of_unique {α : Type} {p : α → Bool} {l : List α} {x : α} (hx : x ∈ l)
    (px : p x) (hu : ∀ y ∈ l, p y → y = x) : l.find? p = some x := by
  cases h : l.find? p with
  | none => exact absurd px (List.find?_eq_none.1 h x hx)
  | some a => exact congrArg some (hu a (List.mem_of_find?_eq_some h) (List.find?_some h))

theorem eq_of_countP_le_one {α : Type} {p : α → Bool} {l : List α} (h : l.countP p ≤ 1)
    {x y : α} (hx : x ∈ l) (px : p x) (hy : y ∈ l) (py : p y) : x = y := by
  rw [List.countP_eq_length_filter] at h
  have hx' := List.mem_filter.2 ⟨hx, px⟩
  have hy' := List.mem_filter.2 ⟨hy, py⟩
  generalize l.filter p = m at h hx' hy'
  match m, h with
  | [], _ => simp at hx'
  | [_], _ => simp_all
  | _ :: _ :: _, h => simp at h

/-- The survivor the precedence of `selectCurrentleader` designates: the leader-elect, else the
    previous leader, else a non-candidate with the smallest `StartTime`. -/
def chosen (servers : List FederateServer) (x : FederateServer) : Bool :=
  if servers.any (·.nodeState == .leaderElect) then x.nodeState == .leaderElect
  else if servers.any (·.nodeState == .leaderPrev) then x.nodeState == .leaderPrev
  else !x.isCandidate && servers.all fun z => z.isCandidate || decide (x.startTime ≤ z.startTime)

/-- The rosters of the survivors of a crashed leader. `servers` are the survivors, with distinct
    node ids, no leader, and at most one leader-elect and one previous leader; `node x` is the
    server of survivor `x`. Its roster lists the same servers with the same roles and `StartTime`s,
    in its own order, and may hold other peer records, `FirstJoined` and `LeaderLast` values: its
    own entry is the synthetic peer `newServer` made, and `LeaderLast` is tracked per node. -/
structure Survivors (servers : List FederateServer) (node : FederateServer → Server) : Prop where
  ids : (servers.map (·.peer.nodeID)).Nodup
  noLeader : ∀ x ∈ servers, x.nodeState ≠ .leader
  oneElect : servers.countP (·.nodeState == .leaderElect) ≤ 1
  onePrev : servers.countP (·.nodeState == .leaderPrev) ≤ 1
  nodeID : ∀ x ∈ servers, (node x).nodeID = x.peer.nodeID
  roster : ∀ x ∈ servers, ((node x).federateServers.map FederateServer.electionView).Perm
    (servers.map FederateServer.electionView)

/-- Among the non-candidates of `servers`, one at most has the smallest `StartTime`. -/
def EarliestUnique (servers : List FederateServer) : Prop :=
  ∀ x ∈ servers, ∀ y ∈ servers, x.isCandidate = false → y.isCandidate = false →
    (∀ z ∈ servers, z.isCandidate = false → x.startTime ≤ z.startTime ∧ y.startTime ≤ z.startTime) →
    x = y

theorem chosen_isCandidate {servers : List FederateServer} {x : FederateServer}
    (h : chosen servers x = true) : x.isCandidate = false := by
  cases hc : x.isCandidate
  · rfl
  · have hs : x.nodeState = .candidate := by simpa [FederateServer.isCandidate] using hc
    simp [chosen, hs, hc] at h

theorem length_filter_le_one {α : Type} {p : α → Bool} {l : List α} (hnd : l.Nodup)
    (hu : ∀ x ∈ l, ∀ y ∈ l, p x → p y → x = y) : (l.filter p).length ≤ 1 := by
  generalize hf : l.filter p = m
  have hm : ∀ a ∈ m, a ∈ l ∧ p a := fun a ha => List.mem_filter.1 (hf ▸ ha)
  have hnd' : m.Nodup := hf ▸ hnd.filter p
  match m, hm, hnd' with
  | [], _, _ => simp
  | [_], _, _ => simp
  | a :: b :: _, hm, hnd' =>
    have hab := hu a (hm a (by simp)).1 b (hm b (by simp)).1 (hm a (by simp)).2 (hm b (by simp)).2
    simp [hab] at hnd'

/-- Some survivor is `chosen` as soon as one is not a candidate. -/
theorem exists_chosen {servers : List FederateServer} (hnc : ∃ x ∈ servers, x.isCandidate = false) :
    ∃ x ∈ servers, chosen servers x = true := by
  by_cases he : servers.any (·.nodeState == .leaderElect)
  · obtain ⟨e, hem, hes⟩ := List.any_eq_true.1 he
    exact ⟨e, hem, by simp [chosen, he, hes]⟩
  by_cases hp : servers.any (·.nodeState == .leaderPrev)
  · obtain ⟨p, hpm, hps⟩ := List.any_eq_true.1 hp
    exact ⟨p, hpm, by simp [chosen, he, hp, hps]⟩
  -- the earliest non-candidate
  obtain ⟨x, hx, hxc⟩ := hnc
  have hne : servers.filter (·.isCandidate = false) ≠ [] :=
    List.ne_nil_of_mem (List.mem_filter.2 ⟨hx, by simpa using hxc⟩)
  obtain ⟨m, hm⟩ : ∃ m, (servers.filter (·.isCandidate = false)).argmin byStartTime = some m :=
    Option.ne_none_iff_exists'.1 (List.argmin_eq_none.not.2 hne)
  obtain ⟨hmm, hmc⟩ := List.mem_filter.1 (List.argmin_mem hm)
  refine ⟨m, hmm, ?_⟩
  simp only [chosen, he, hp, Bool.false_eq_true, reduceIte, Bool.and_eq_true, List.all_eq_true,
    Bool.or_eq_true, decide_eq_true_eq]
  refine ⟨by simpa using hmc, fun z hz => ?_⟩
  cases hzc : z.isCandidate
  · exact .inr (List.le_of_mem_argmin (List.mem_filter.2 ⟨hz, by simpa using hzc⟩) hm)
  · exact .inl rfl

instance : DecidablePred EarliestUnique := fun servers =>
  inferInstanceAs (Decidable (∀ x ∈ servers, ∀ y ∈ servers, _))

theorem mem_nonCandidateServers (s : Server) {y : FederateServer} :
    y ∈ s.nonCandidateServers.1 ↔ y ∈ s.federateServers ∧ y.isCandidate = false := by
  simp [nonCandidateServers]

namespace Survivors

variable {servers : List FederateServer} {node : FederateServer → Server}
  (hs : Survivors servers node)
include hs

theorem eq_of_nodeID {x y : FederateServer} (hx : x ∈ servers) (hy : y ∈ servers)
    (h : x.peer.nodeID = y.peer.nodeID) : x = y :=
  List.inj_on_of_nodup_map hs.ids hx hy h

/-- At most one survivor is `chosen`, given a unique earliest non-candidate when neither a
    leader-elect nor a previous leader survives. -/
theorem chosen_unique
    (hmin : (∀ z ∈ servers, z.nodeState ≠ .leaderElect ∧ z.nodeState ≠ .leaderPrev) →
      EarliestUnique servers)
    {x y : FederateServer} (hx : x ∈ servers) (hy : y ∈ servers) (hcx : chosen servers x = true)
    (hcy : chosen servers y = true) : x = y := by
  unfold chosen at hcx hcy
  split_ifs at hcx hcy with he hp
  · exact eq_of_countP_le_one hs.oneElect hx hcx hy hcy
  · exact eq_of_countP_le_one hs.onePrev hx hcx hy hcy
  · simp only [Bool.and_eq_true, Bool.not_eq_true', List.all_eq_true, Bool.or_eq_true,
      decide_eq_true_eq] at hcx hcy
    refine hmin (fun z hz => ?_) x hx y hy hcx.1 hcy.1 fun z hz hzc => ?_
    · exact ⟨by simpa using List.any_eq_false.1 (Bool.eq_false_iff.2 he) z hz,
        by simpa using List.any_eq_false.1 (Bool.eq_false_iff.2 hp) z hz⟩
    · have hzc' : z.isCandidate ≠ true := by simp [hzc]
      exact ⟨(hcx.2 z hz).resolve_left hzc', (hcy.2 z hz).resolve_left hzc'⟩

variable {x : FederateServer} (hx : x ∈ servers)
include hx

/-- Each entry of a survivor's roster shows the node id, role and `StartTime` of a survivor. -/
theorem survivor_of_mem_roster {y : FederateServer} (hy : y ∈ (node x).federateServers) :
    ∃ z ∈ servers, z.peer.nodeID = y.peer.nodeID ∧ z.nodeState = y.nodeState ∧
      z.startTime = y.startTime := by
  obtain ⟨z, hz, hzy⟩ := List.mem_map.1 ((hs.roster x hx).subset (List.mem_map_of_mem _ hy))
  exact ⟨z, hz, FederateServer.electionView_eq_iff.1 hzy⟩

/-- Each survivor has an entry in every survivor's roster. -/
theorem roster_of_survivor {z : FederateServer} (hz : z ∈ servers) :
    ∃ y ∈ (node x).federateServers, y.peer.nodeID = z.peer.nodeID ∧ y.nodeState = z.nodeState ∧
      y.startTime = z.startTime := by
  obtain ⟨y, hy, hyz⟩ := List.mem_map.1 ((hs.roster x hx).symm.subset (List.mem_map_of_mem _ hz))
  exact ⟨y, hy, FederateServer.electionView_eq_iff.1 hyz⟩

/-- A survivor that is not a candidate is among the non-candidates of every roster. -/
theorem nonCandidate_of_survivor {y : FederateServer} (hy : y ∈ servers)
    (hyc : y.isCandidate = false) :
    ∃ u ∈ (node x).nonCandidateServers.1, u.peer.nodeID = y.peer.nodeID ∧
      u.startTime = y.startTime := by
  obtain ⟨u, hu, hid, hst, hstart⟩ := hs.roster_of_survivor hx hy
  exact ⟨u, (mem_nonCandidateServers (node x)).2
    ⟨hu, (FederateServer.isCandidate_eq_of_nodeState hst).trans hyc⟩, hid, hstart⟩

/-- A survivor finds its own entry, in its own role. -/
theorem getMyFederateServer :
    ∃ me, (node x).getMyFederateServer = some me ∧ me.nodeState = x.nodeState := by
  obtain ⟨y, hy, hid, -⟩ := hs.roster_of_survivor hx hx
  obtain ⟨me, hme⟩ : ∃ me, ((node x).federateServers.find? fun fs =>
      fs.peer.nodeID == (node x).nodeID) = some me :=
    Option.isSome_iff_exists.1 (List.find?_isSome.2 ⟨y, hy, by simp [hid, hs.nodeID x hx]⟩)
  have hmid : me.peer.nodeID = x.peer.nodeID := by
    simpa [hs.nodeID x hx] using List.find?_some hme
  obtain ⟨z, hz, hzid, hzst, -⟩ := hs.survivor_of_mem_roster hx (List.mem_of_find?_eq_some hme)
  exact ⟨me, hme, hs.eq_of_nodeID hz hx (hzid.trans hmid) ▸ hzst.symm⟩

/-- A role held by one survivor is found, under that survivor's node id, in every roster. -/
theorem getPeer_eq_some {r : NodeState} (hone : servers.countP (·.nodeState == r) ≤ 1)
    {y : FederateServer} (hy : y ∈ servers) (hr : y.nodeState = r) :
    ∃ q, (node x).getPeer r = some q ∧ q.nodeID = y.peer.nodeID := by
  obtain ⟨w, hw, -, hwst, -⟩ := hs.roster_of_survivor hx hy
  obtain ⟨u, hu⟩ : ∃ u, ((node x).federateServers.find? fun fs => fs.nodeState == r) = some u :=
    Option.isSome_iff_exists.1 (List.find?_isSome.2 ⟨w, hw, by simp [hwst, hr]⟩)
  have hur : u.nodeState = r := by simpa using List.find?_some hu
  obtain ⟨z, hz, hzid, hzst, -⟩ := hs.survivor_of_mem_roster hx (List.mem_of_find?_eq_some hu)
  have hzy : z = y := eq_of_countP_le_one hone hz (by simp [hzst, hur]) hy (by simp [hr])
  exact ⟨u.peer, by simp [getPeer, hu], hzy ▸ hzid.symm⟩

theorem getPeer_eq_none {r : NodeState} (hr : ∀ y ∈ servers, y.nodeState ≠ r) :
    (node x).getPeer r = none := by
  simp only [getPeer, Option.map_eq_none', List.find?_eq_none, beq_iff_eq]
  intro u hu hur
  obtain ⟨z, hz, -, hzst, -⟩ := hs.survivor_of_mem_roster hx hu
  exact hr z hz (hzst.trans hur)

/-- `onlyFollower` holds only for the one non-candidate survivor. -/
theorem eq_of_onlyFollower
    (h : (node x).nonCandidateServers.1.length = 1 ∧
      (node x).nonCandidateServers.1.head?.map (·.peer.nodeID) = some (node x).nodeID)
    {y : FederateServer} (hy : y ∈ servers) (hyc : y.isCandidate = false) : y = x := by
  obtain ⟨⟨w, hw⟩, hhead⟩ := And.imp_left List.length_eq_one.1 h
  have hwid : w.peer.nodeID = x.peer.nodeID := by simpa [hw, hs.nodeID x hx] using hhead
  obtain ⟨u, hu, hid, -⟩ := hs.nonCandidate_of_survivor hx hy hyc
  rw [hw, List.mem_singleton] at hu
  exact hs.eq_of_nodeID hy hx (by rw [← hid, hu, hwid])

/-- The early return is not taken while some survivor is not a candidate. -/
theorem not_early {y : FederateServer} (hy : y ∈ servers) (hyc : y.isCandidate = false) :
    ((node x).nonCandidateServers.1.isEmpty && !(node x).nonCandidateServers.2.isEmpty) = false := by
  obtain ⟨u, hu, -⟩ := hs.nonCandidate_of_survivor hx hy hyc
  simp [List.isEmpty_iff, List.ne_nil_of_mem hu]

theorem onlyFollower_eq {y : FederateServer} (hy : y ∈ servers) (hyc : y.isCandidate = false)
    (hyx : y ≠ x) (c : Bool) :
    (c && (node x).nonCandidateServers.1.length == 1 &&
      (node x).nonCandidateServers.1.head?.map (·.peer.nodeID) == some (node x).nodeID) = false := by
  simpa [-Option.map_eq_some'] using fun h1 h2 h3 => hyx (hs.eq_of_onlyFollower hx ⟨h2, h3⟩ hy hyc)

theorem crownsItself_of_elect {e : FederateServer} (he : e ∈ servers)
    (hes : e.nodeState = .leaderElect) (h : BitVec 32) :
    crownsItself ((node x).selectCurrentleader srt h) = (x.nodeState == .leaderElect) := by
  obtain ⟨me, hme, hmes⟩ := hs.getMyFederateServer hx
  obtain ⟨q, hE, -⟩ := hs.getPeer_eq_some hx hs.oneElect he hes
  have hec : e.isCandidate = false := by simp [FederateServer.isCandidate, hes]
  rw [crownsItself_selectCurrentleader srt hme (hmes ▸ hs.noLeader x hx), hs.not_early hx he hec,
    show (node x).getLeaderElect = some q from hE, hmes,
    FederateServer.isCandidate_eq_of_nodeState hmes]
  by_cases hxe : x.nodeState = .leaderElect
  · simp [hxe]
  · rw [hs.onlyFollower_eq hx he hec (by rintro rfl; exact hxe hes)]
    simp [hxe]

theorem crownsItself_of_prev (hne : ∀ z ∈ servers, z.nodeState ≠ .leaderElect)
    {p : FederateServer} (hp : p ∈ servers) (hps : p.nodeState = .leaderPrev) (h : BitVec 32) :
    crownsItself ((node x).selectCurrentleader srt h) = (x.nodeState == .leaderPrev) := by
  obtain ⟨me, hme, hmes⟩ := hs.getMyFederateServer hx
  obtain ⟨q, hP, hqid⟩ := hs.getPeer_eq_some hx hs.onePrev hp hps
  have hpc : p.isCandidate = false := by simp [FederateServer.isCandidate, hps]
  rw [crownsItself_selectCurrentleader srt hme (hmes ▸ hs.noLeader x hx), hs.not_early hx hp hpc,
    show (node x).getLeaderElect = none from hs.getPeer_eq_none hx hne,
    show (node x).getPrevLeaderPeer = some q from hP, hmes,
    FederateServer.isCandidate_eq_of_nodeState hmes]
  by_cases hxp : x = p
  · subst hxp
    simp [hps, hpc, hqid, hs.nodeID x hx]
  · have hxs : x.nodeState ≠ .leaderPrev := fun hxs =>
      hxp (eq_of_countP_le_one hs.onePrev hx (by simp [hxs]) hp (by simp [hps]))
    have hid : q.nodeID ≠ (node x).nodeID := by
      rw [hqid, hs.nodeID x hx]; exact fun hid => hxp (hs.eq_of_nodeID hp hx hid).symm
    rw [hs.onlyFollower_eq hx hp hpc (Ne.symm hxp)]
    simp [hne x hx, beq_eq_false_iff_ne.2 hid, hxs]

/-- The head `selectCurrentleader` sorts to the front shows a non-candidate survivor with the
    smallest `StartTime`. -/
theorem head?_sortBy_nonCandidates {hd : FederateServer}
    (hhd : (srt.sortBy byStartTime (node x).nonCandidateServers.1).head? = some hd) :
    ∃ z ∈ servers, z.peer.nodeID = hd.peer.nodeID ∧ z.isCandidate = false ∧
      ∀ w ∈ servers, w.isCandidate = false → z.startTime ≤ w.startTime := by
  obtain ⟨hdm, hdmin⟩ := srt.head?_sortBy byStartTime hhd
  obtain ⟨hdm, hdc⟩ := (mem_nonCandidateServers (node x)).1 hdm
  obtain ⟨z, hz, hid, hst, hstart⟩ := hs.survivor_of_mem_roster hx hdm
  refine ⟨z, hz, hid, (FederateServer.isCandidate_eq_of_nodeState hst).trans hdc, fun w hw hwc => ?_⟩
  obtain ⟨u, hu, -, hustart⟩ := hs.nonCandidate_of_survivor hx hw hwc
  have hle := hdmin u hu
  simp only [byStartTime] at hle
  rw [hstart, ← hustart]
  exact hle

theorem crownsItself_of_earliest (hne : ∀ z ∈ servers, z.nodeState ≠ .leaderElect)
    (hnp : ∀ z ∈ servers, z.nodeState ≠ .leaderPrev) (hu : EarliestUnique servers)
    (h : BitVec 32) :
    crownsItself ((node x).selectCurrentleader srt h) = (!x.isCandidate &&
      servers.all fun z => z.isCandidate || decide (x.startTime ≤ z.startTime)) := by
  obtain ⟨me, hme, hmes⟩ := hs.getMyFederateServer hx
  rw [crownsItself_selectCurrentleader srt hme (hmes ▸ hs.noLeader x hx),
    show (node x).getLeaderElect = none from hs.getPeer_eq_none hx hne,
    show (node x).getPrevLeaderPeer = none from hs.getPeer_eq_none hx hnp, hmes,
    FederateServer.isCandidate_eq_of_nodeState hmes]
  cases hxc : x.isCandidate
  case true =>
    have hnone : ((srt.sortBy byStartTime (node x).nonCandidateServers.1).head?.any
        fun hd => hd.peer.nodeID == (node x).nodeID) = false := by
      cases hhd : (srt.sortBy byStartTime (node x).nonCandidateServers.1).head? with
      | none => rfl
      | some hd =>
        obtain ⟨z, hz, hzid, hzc, -⟩ := hs.head?_sortBy_nonCandidates srt hx hhd
        simpa [hs.nodeID x hx] using fun hid =>
          absurd (hs.eq_of_nodeID hz hx (hzid.trans hid) ▸ hzc) (by simp [hxc])
    simp [hne x hx, hnone]
  case false =>
    obtain ⟨u, hu', -⟩ := hs.nonCandidate_of_survivor hx hx hxc
    obtain ⟨hd, hhd⟩ := Option.isSome_iff_exists.1
      (srt.head?_sortBy_isSome byStartTime (List.ne_nil_of_mem hu'))
    obtain ⟨z, hz, hzid, hzc, hzmin⟩ := hs.head?_sortBy_nonCandidates srt hx hhd
    rw [hs.not_early hx hx hxc]
    by_cases hzx : z = x
    · subst hzx
      simp [hhd, hne z hz, ← hzid, hs.nodeID z hz]
      intro w hw
      cases hwc : w.isCandidate
      exacts [.inr (hzmin w hw hwc), .inl rfl]
    · have hid : hd.peer.nodeID ≠ (node x).nodeID := by
        rw [← hzid, hs.nodeID x hx]; exact fun hid => hzx (hs.eq_of_nodeID hz hx hid)
      have hnmin : ¬∀ w ∈ servers, w.isCandidate = true ∨ x.startTime ≤ w.startTime := fun hall =>
        hzx (hu z hz x hx hzc hxc fun w hw hwc =>
          ⟨hzmin w hw hwc, (hall w hw).resolve_left (by simp [hwc])⟩)
      rw [hs.onlyFollower_eq hx hz hzc hzx]
      simpa [hne x hx, hhd, beq_eq_false_iff_ne.2 hid] using hnmin

/-- Each survivor crowns itself exactly when it is `chosen`. -/
theorem crownsItself_eq_chosen
    (hmin : (∀ z ∈ servers, z.nodeState ≠ .leaderElect ∧ z.nodeState ≠ .leaderPrev) →
      EarliestUnique servers) (h : BitVec 32) :
    crownsItself ((node x).selectCurrentleader srt h) = chosen servers x := by
  unfold chosen
  split_ifs with he hp
  · obtain ⟨e, hem, hes⟩ := List.any_eq_true.1 he
    exact hs.crownsItself_of_elect srt hx hem (by simpa using hes) h
  · obtain ⟨p, hpm, hps⟩ := List.any_eq_true.1 hp
    exact hs.crownsItself_of_prev srt hx (by simpa using he) hpm (by simpa using hps) h
  · have hne : ∀ z ∈ servers, z.nodeState ≠ .leaderElect := by simpa using he
    have hnp : ∀ z ∈ servers, z.nodeState ≠ .leaderPrev := by simpa using hp
    exact hs.crownsItself_of_earliest srt hx hne hnp (hmin fun z hz => ⟨hne z hz, hnp z hz⟩) h

end Survivors

/-- The survivors of a crashed leader that run `selectCurrentleader` on their own rosters crown
    at most one of them, never a candidate, and exactly one when a non-candidate survives, as
    long as the earliest non-candidate is unique whenever the decision falls to `StartTime`. -/
theorem selectCurrentleader_crowns_one_survivor {servers : List FederateServer}
    {node : FederateServer → Server} (hs : Survivors servers node)
    (hmin : (∀ z ∈ servers, z.nodeState ≠ .leaderElect ∧ z.nodeState ≠ .leaderPrev) →
      EarliestUnique servers) (h : BitVec 32) :
    let crowned := servers.filter fun x => crownsItself ((node x).selectCurrentleader srt h)
    crowned.length ≤ 1 ∧ (∀ x ∈ crowned, x.nodeState ≠ .candidate) ∧
      ((∃ x ∈ servers, x.nodeState ≠ .candidate) → crowned.length = 1) := by
  intro crowned
  have hc : crowned = servers.filter (chosen servers) :=
    List.filter_congr fun x hx => hs.crownsItself_eq_chosen srt hx hmin h
  have hle : crowned.length ≤ 1 := hc ▸ length_filter_le_one (List.Nodup.of_map _ hs.ids)
    fun x hx y hy => hs.chosen_unique hmin hx hy
  refine ⟨hle, fun x hx => ?_, fun ⟨x, hx, hxc⟩ => ?_⟩
  · rw [hc, List.mem_filter] at hx
    simpa [FederateServer.isCandidate] using chosen_isCandidate hx.2
  · obtain ⟨w, hw, hcw⟩ := exists_chosen ⟨x, hx, by simpa [FederateServer.isCandidate] using hxc⟩
    have : 0 < crowned.length := List.length_pos_of_mem (hc ▸ List.mem_filter.2 ⟨hw, hcw⟩)
    omega

/-- The server of survivor `x` as `newServer` lays it out: its own entry first, on the synthetic
    peer `selfPeer`, then the other survivors, whose `LeaderLast` this node has not tracked. -/
def survivorNode (servers : List FederateServer) (x : FederateServer) : Server :=
  { newServer x.peer.nodeID serverNode x.startTime 0 false with
    federateServers := { x with peer := selfPeer x.peer.nodeID serverNode } ::
      (servers.erase x).map fun y => { y with leaderLast := 0 }
    leaderCrashed := true }

/-- A follower, a later follower and a candidate. Each node's roster holds its own entry on
    `selfPeer` and has not tracked the others' `LeaderLast`. -/
def staggeredSurvivors : List FederateServer :=
  [⟨⟨1, "10.0.0.1:8108", "10.0.0.1", false, false, 0, "A", serverNode⟩, .follower, 100, 1, 6⟩,
    ⟨⟨2, "10.0.0.2:8108", "10.0.0.2", false, false, 0, "B", serverNode⟩, .follower, 200, 1, 4⟩,
    ⟨⟨3, "10.0.0.3:8108", "10.0.0.3", true, false, 0, "C", serverNode⟩, .candidate, 50, 3, 0⟩]

theorem selectCurrentleader_crowns_one_survivor_staggered :
    Survivors staggeredSurvivors (survivorNode staggeredSurvivors) ∧
      ((∀ z ∈ staggeredSurvivors, z.nodeState ≠ .leaderElect ∧ z.nodeState ≠ .leaderPrev) →
        EarliestUnique staggeredSurvivors) ∧
      let crowned := staggeredSurvivors.filter fun x =>
        crownsItself ((survivorNode staggeredSurvivors x).selectCurrentleader GoSort.insertion 20)
      crowned.length ≤ 1 ∧ (∀ x ∈ crowned, x.nodeState ≠ .candidate) ∧
        ((∃ x ∈ staggeredSurvivors, x.nodeState ≠ .candidate) → crowned.length = 1) :=
  have hs : Survivors staggeredSurvivors (survivorNode staggeredSurvivors) :=
    ⟨by decide, by decide, by decide, by decide, by decide, by decide⟩
  have hmin : (∀ z ∈ staggeredSurvivors, z.nodeState ≠ .leaderElect ∧
      z.nodeState ≠ .leaderPrev) → EarliestUnique staggeredSurvivors := fun _ => by decide
  ⟨hs, hmin, selectCurrentleader_crowns_one_survivor GoSort.insertion hs hmin 20⟩

/-- Two followers that joined in the same second. -/
def tiedSurvivors : List FederateServer :=
  [⟨⟨1, "10.0.0.1:8108", "10.0.0.1", false, false, 0, "A", serverNode⟩, .follower, 100, 1, 3⟩,
    ⟨⟨2, "10.0.0.2:8108", "10.0.0.2", false, false, 0, "B", serverNode⟩, .follower, 100, 1, 5⟩]

/-- With equal `StartTime`s, insertion sort keeps each roster's order and both survivors find
    themselves first. -/
theorem selectCurrentleader_tie_crowns_both :
    Survivors tiedSurvivors (survivorNode tiedSurvivors) ∧
      (tiedSurvivors.filter fun x => crownsItself
        ((survivorNode tiedSurvivors x).selectCurrentleader GoSort.insertion 20)).length = 2 :=
  ⟨⟨by decide, by decide, by decide, by decide, by decide, by decide⟩, by decide⟩

end Server

end FactomCode

import FactomCode.Server.Election
import FactomCode.Server.PeerHandler

set_option autoImplicit false

/-! # The node's own entry in every run

The leader paths of `handleNextLeader` and `selectNextLeader` dereference the node's own roster
entry (`GetMyFederateServer`) and `myLeaderPolicy`. Both are safe in every run of a federate
server made by `newServer`: its own entry stays at the head of the roster, since servers only
join at the end and a done peer other than the node's own synthetic peer never removes it, and
the node only becomes the leader through `sendCurrentLeaderMsg`, which installs a fresh policy.
The hand-off clears the policy, but only after `SetPrevLeaderByID` has made the node the previous
leader.

A run (`LeaderRun`) applies the leader machine's procedures, `handleDonePeerMsg`, additions to
the roster and the role mutators in any order, as long as no done peer and no mutator's target is
the node's own synthetic peer. -/

namespace FactomCode

namespace Server

/-! ## The node's own entry -/

/-- The node's own entry heads the roster and holds its synthetic peer. -/
def OwnHead (s : Server) : Prop :=
  ∃ own rest, s.federateServers = own :: rest ∧ own.peer = selfPeer s.nodeID s.nodeType

/-- The invariant of a node's runs: its own entry heads the roster, and while that entry is the
    leader the node has a leader policy. -/
structure OwnEntry (s : Server) : Prop where
  head : s.OwnHead
  policy : s.isLeader = some true → s.myLeaderPolicy.isSome

variable {s s' : Server}

/-- The result of an `if` is the result of one of its branches. -/
theorem eq_some_of_ite {α : Type} {c : Prop} [Decidable c] {a b : Option α} {x : α}
    (h : (if c then a else b) = some x) : a = some x ∨ b = some x := by
  by_cases hc : c
  · exact .inl (by rwa [if_pos hc] at h)
  · exact .inr (by rwa [if_neg hc] at h)

theorem getMyFederateServer_of_head {own : FederateServer} {rest : List FederateServer}
    (hs : s.federateServers = own :: rest) (hown : own.peer = selfPeer s.nodeID s.nodeType) :
    s.getMyFederateServer = some own := by
  simp [getMyFederateServer, getFederateServerByID, hs, hown, selfPeer]

theorem isLeader_of_head {own : FederateServer} {rest : List FederateServer}
    (hs : s.federateServers = own :: rest) (hown : own.peer = selfPeer s.nodeID s.nodeType) :
    s.isLeader = some (own.nodeState == .leader) := by
  simp [isLeader, hasRole, getMyFederateServer_of_head hs hown]

theorem OwnHead.getMyFederateServer (h : s.OwnHead) :
    ∃ own, s.getMyFederateServer = some own ∧ own.peer = selfPeer s.nodeID s.nodeType := by
  obtain ⟨own, rest, hs, hown⟩ := h
  exact ⟨own, getMyFederateServer_of_head hs hown, hown⟩

theorem OwnHead.setNodeState (h : s.OwnHead) (p : Peer) (ns : NodeState) :
    (s.setNodeState p ns).OwnHead := by
  obtain ⟨own, rest, hs, hown⟩ := h
  exact ⟨own.setNodeState p ns, rest.map (·.setNodeState p ns), by simp [hs], by simpa using hown⟩

theorem isLeader_setNodeState (h : s.OwnHead) (p : Peer) (ns : NodeState) :
    (s.setNodeState p ns).isLeader =
      if selfPeer s.nodeID s.nodeType = p then some (ns == .leader) else s.isLeader := by
  obtain ⟨own, rest, hs, hown⟩ := h
  simp only [isLeader, hasRole, getMyFederateServer_setNodeState, getMyFederateServer_of_head hs hown,
    Option.map_some', FederateServer.setNodeState_nodeState, hown]
  split <;> rfl

/-- `assignRole` demotes the role's old holder, giving `s₁`, then promotes the target it finds
    in `s₁`. -/
theorem OwnHead.assignRole_cases (h : s.OwnHead) (role demoted : NodeState)
    (target : Server → Option Peer) :
    ∃ s₁ : Server, s₁.OwnHead ∧ s₁.nodeID = s.nodeID ∧ s₁.nodeType = s.nodeType ∧
      (demoted ≠ .leader → s₁.isLeader = some true → s.isLeader = some true) ∧
      s.assignRole role demoted target = match target s₁ with
        | some p => s₁.setNodeState p role
        | none => s₁ := by
  refine ⟨match s.getPeer role with
    | some holder => s.setNodeState holder demoted
    | none => s, ?_, ?_, ?_, ?_, rfl⟩ <;> split
  · exact h.setNodeState _ _
  · exact h
  all_goals try rfl
  · intro hdem hl
    rw [isLeader_setNodeState h] at hl
    split_ifs at hl
    · simp [hdem] at hl
    · exact hl
  · exact fun _ => id

@[simp] theorem assignRole_myLeaderPolicy (role demoted : NodeState)
    (target : Server → Option Peer) :
    (s.assignRole role demoted target).myLeaderPolicy = s.myLeaderPolicy := by
  unfold Server.assignRole
  split <;> (dsimp only; split <;> rfl)

@[simp] theorem assignRole_nodeID (role demoted : NodeState) (target : Server → Option Peer) :
    (s.assignRole role demoted target).nodeID = s.nodeID := by
  unfold Server.assignRole
  split <;> (dsimp only; split <;> rfl)

@[simp] theorem assignRole_nodeType (role demoted : NodeState) (target : Server → Option Peer) :
    (s.assignRole role demoted target).nodeType = s.nodeType := by
  unfold Server.assignRole
  split <;> (dsimp only; split <;> rfl)

theorem OwnHead.assignRole (h : s.OwnHead) (role demoted : NodeState)
    (target : Server → Option Peer) : (s.assignRole role demoted target).OwnHead := by
  obtain ⟨s₁, h₁, -, -, -, heq⟩ := h.assignRole_cases role demoted target
  rw [heq]
  split
  exacts [h₁.setNodeState _ _, h₁]

theorem OwnHead.setPolicy (h : s.OwnHead) (policy : Option LeaderPolicy) :
    ({ s with myLeaderPolicy := policy } : Server).OwnHead := h

/-- `setLeaderLast` only moves an entry's `LeaderLast`. -/
theorem OwnHead.setLeaderLast (h : s.OwnHead) {pid : String} {height : BitVec 32}
    (hl : s.setLeaderLast pid height = some s') :
    s'.OwnHead ∧ s'.isLeader = s.isLeader ∧ s'.myLeaderPolicy = s.myLeaderPolicy := by
  obtain ⟨own, rest, hs, hown⟩ := h
  obtain ⟨l, hgo, rfl⟩ := Option.map_eq_some'.1 hl
  obtain ⟨own', rest', rfl, hpeer, hstate⟩ : ∃ own' rest', l = own' :: rest' ∧
      own'.peer = own.peer ∧ own'.nodeState = own.nodeState := by
    rw [hs, Server.setLeaderLast.go] at hgo
    split_ifs at hgo
    · cases hgo; exact ⟨_, _, rfl, rfl, rfl⟩
    · obtain ⟨_, _, rfl⟩ := Option.map_eq_some'.1 hgo; exact ⟨_, _, rfl, rfl, rfl⟩
  refine ⟨⟨own', rest', rfl, hpeer.trans hown⟩, ?_, rfl⟩
  rw [@isLeader_of_head { s with federateServers := own' :: rest' } _ _ rfl (hpeer.trans hown),
    isLeader_of_head hs hown, hstate]

theorem OwnHead.setLeaderLast_isSome (h : s.OwnHead) (height : BitVec 32) :
    (s.setLeaderLast s.nodeID height).isSome := by
  obtain ⟨own, rest, hs, hown⟩ := h
  unfold Server.setLeaderLast
  rw [hs, Server.setLeaderLast.go, if_pos (by rw [hown]; rfl)]
  rfl

/-- A node whose own entry heads the roster and is not the leader keeps the invariant, whatever
    its policy. -/
theorem OwnEntry.of_not_leader (h : s.OwnHead) (hl : s.isLeader ≠ some true) : s.OwnEntry :=
  ⟨h, fun h' => absurd h' hl⟩

/-! ## Roles of the own entry under the mutators -/

/-- A peer holding a role other than the one `setNodeState` just gave `p` is not `p`. -/
theorem getPeer_setNodeState_ne {p q : Peer} {ns ns' : NodeState}
    (hq : (s.setNodeState p ns).getPeer ns' = some q) (hne : ns ≠ ns') : q ≠ p := by
  obtain ⟨fs, hfind, rfl⟩ := Option.map_eq_some'.1 hq
  have hrole : fs.nodeState = ns' := by simpa using List.find?_some hfind
  obtain ⟨fs₀, -, rfl⟩ := List.mem_map.1 (List.mem_of_find?_eq_some hfind)
  intro hp
  rw [FederateServer.setNodeState_peer] at hp
  rw [FederateServer.setNodeState_nodeState, if_pos hp] at hrole
  exact hne hrole

/-- A mutator that demotes to a role other than leader and never targets the node's own peer
    does not make the node the leader. -/
theorem isLeader_assignRole (h : s.OwnHead) {role demoted : NodeState}
    {target : Server → Option Peer} (hdem : demoted ≠ .leader)
    (ht : ∀ s' p, target s' = some p → p ≠ selfPeer s.nodeID s.nodeType)
    (hl : (s.assignRole role demoted target).isLeader = some true) : s.isLeader = some true := by
  obtain ⟨s₁, h₁, hid, hty, hdemote, heq⟩ := h.assignRole_cases role demoted target
  rw [heq] at hl
  refine hdemote hdem ?_
  split at hl
  · rwa [isLeader_setNodeState h₁, if_neg (by rw [hid, hty]; exact (ht _ _ ‹_›).symm)] at hl
  · exact hl

/-- A mutator that looks its target up by the node's own id gives the own entry the role, after
    demoting the role's old holder. -/
theorem assignRole_self (h : s.OwnHead) (role demoted : NodeState) :
    ∃ s₀ : Server, s₀.OwnHead ∧ s₀.nodeID = s.nodeID ∧ s₀.nodeType = s.nodeType ∧
      s.assignRole role demoted (fun s' => s'.getPeerByID s.nodeID) =
        s₀.setNodeState (selfPeer s.nodeID s.nodeType) role := by
  obtain ⟨s₁, h₁, hid, hty, -, heq⟩ := h.assignRole_cases role demoted fun s' => s'.getPeerByID s.nodeID
  obtain ⟨own, hown, hpeer⟩ := h₁.getMyFederateServer
  refine ⟨s₁, h₁, hid, hty, ?_⟩
  rw [heq, ← hid, getPeerByID_self, hown, Option.map_some', hpeer, hty, hid]

/-! ## The invariant under each operation -/

theorem OwnEntry.setNodeState (h : s.OwnEntry) {p : Peer} {ns : NodeState}
    (hp : p ≠ selfPeer s.nodeID s.nodeType ∨ ns ≠ .leader) : (s.setNodeState p ns).OwnEntry := by
  refine ⟨h.head.setNodeState p ns, fun hl => h.policy ?_⟩
  rw [isLeader_setNodeState h.head] at hl
  split_ifs at hl with hself
  · simp only [Option.some.injEq, beq_iff_eq] at hl
    exact absurd hl (hp.resolve_left (hself ▸ not_not.2 rfl))
  · exact hl

theorem OwnEntry.assignRole (h : s.OwnEntry) {role demoted : NodeState}
    {target : Server → Option Peer} (hdem : demoted ≠ .leader)
    (ht : ∀ s' p, target s' = some p → p ≠ selfPeer s.nodeID s.nodeType) :
    (s.assignRole role demoted target).OwnEntry :=
  ⟨h.head.assignRole role demoted target, fun hl => by
    rw [assignRole_myLeaderPolicy]; exact h.policy (isLeader_assignRole h.head hdem ht hl)⟩

/-- `sendCurrentLeaderMsg` never panics on a node whose own entry heads the roster, and leaves it
    the leader with a fresh policy. -/
theorem OwnHead.sendCurrentLeaderMsg (h : s.OwnHead) (deadLeader newLeader source : String)
    (height : BitVec 32) : ∃ s' effs,
      s.sendCurrentLeaderMsg deadLeader newLeader source height = some (s', effs) ∧ s'.OwnEntry := by
  have h₁ := h.assignRole .leader .leaderPrev fun s' => s'.getPeerByID s.nodeID
  obtain ⟨me, hme, -⟩ := h₁.getMyFederateServer
  simp only [Server.sendCurrentLeaderMsg, setLeaderPeerByID, hme, Option.bind_eq_bind,
    Option.some_bind, Option.pure_def]
  exact ⟨_, _, rfl, h₁, fun _ => rfl⟩

theorem OwnHead.sendCurrentLeaderMsg_eq (h : s.OwnHead) {deadLeader newLeader source : String}
    {height : BitVec 32} {effs : List Effect}
    (hs : s.sendCurrentLeaderMsg deadLeader newLeader source height = some (s', effs)) :
    s'.OwnEntry := by
  obtain ⟨_, _, heq, hown⟩ := h.sendCurrentLeaderMsg deadLeader newLeader source height
  rw [heq] at hs
  cases hs
  exact hown

variable (srt : GoSort)

/-- `selectNextLeader` never panics and keeps the invariant: a leader has its policy to update. -/
theorem OwnEntry.selectNextLeader (h : s.OwnEntry) (height : BitVec 32) :
    ∃ s' effs, s.selectNextLeader srt height = some (s', effs) ∧ s'.OwnEntry := by
  obtain ⟨own, rest, hs, hown⟩ := h.head
  have hl := isLeader_of_head hs hown
  by_cases hlead : own.nodeState = .leader
  · obtain ⟨P, hP⟩ := Option.isSome_iff_exists.1 (h.policy (by simp [hl, hlead]))
    simp only [Server.selectNextLeader, hl, hlead, hP, beq_self_eq_true, Bool.not_true,
      Option.bind_eq_bind, Option.some_bind, Option.pure_def, Bool.false_eq_true, if_false]
    split_ifs
    · exact ⟨_, _, rfl, h.head, fun _ => rfl⟩
    · split
      · exact ⟨_, _, rfl, h⟩
      · exact ⟨_, _, rfl, h.head, fun _ => rfl⟩
  · have : s.selectNextLeader srt height = some (s, []) := by
      simp [Server.selectNextLeader, hl, hlead]
    exact ⟨_, _, this, h⟩

/-- `selectCurrentleader` either changes nothing or makes the node the leader through
    `sendCurrentLeaderMsg`. -/
theorem OwnEntry.selectCurrentleader (h : s.OwnEntry) {height : BitVec 32} {effs : List Effect}
    (hs : s.selectCurrentleader srt height = some (s', effs)) : s'.OwnEntry := by
  obtain ⟨own, hown, -⟩ := h.head.getMyFederateServer
  have hsend := fun d n src h' (hs' : s.sendCurrentLeaderMsg d n src h' = some (s', effs)) =>
    h.head.sendCurrentLeaderMsg_eq hs'
  have hsame : some (s, ([] : List Effect)) = some (s', effs) → s'.OwnEntry := by
    rintro ⟨⟩; exact h
  have hrole : ∀ ns, s.hasRole ns = some (own.nodeState == ns) := by simp [hasRole, hown]
  rw [Server.selectCurrentleader, isLeader, isCandidate, isLeaderElect, hrole, hrole, hrole] at hs
  simp only [Option.bind_eq_bind, Option.some_bind, Option.pure_def] at hs
  rcases eq_some_of_ite hs with hs | hs
  · exact hsame hs
  rcases eq_some_of_ite hs with hs | hs
  · exact hsame hs
  rcases eq_some_of_ite hs with hs | hs
  · exact hsend _ _ _ _ hs
  rcases eq_some_of_ite hs with hs | hs
  · exact hsame hs
  cases hp : s.getPrevLeaderPeer <;> rw [hp] at hs
  · obtain ⟨_, -, hs⟩ := Option.bind_eq_some.1 hs
    rcases eq_some_of_ite hs with hs | hs
    exacts [hsend _ _ _ _ hs, hsame hs]
  · rcases eq_some_of_ite hs with hs | hs
    exacts [hsend _ _ _ _ hs, hsame hs]

/-- The hand-off's first step, `SetPrevLeaderByID` on the node's own id, makes the node the previous
    leader, so the leader-elect it looks up next is another server. -/
theorem OwnHead.setPrevLeaderByID_self (h : s.OwnHead) :
    (s.setPrevLeaderByID s.nodeID).OwnHead ∧ (s.setPrevLeaderByID s.nodeID).isLeader = some false ∧
      ∀ e, (s.setPrevLeaderByID s.nodeID).getLeaderElect = some e →
        e ≠ selfPeer s.nodeID s.nodeType := by
  obtain ⟨s₀, h₀, hid, hty, heq⟩ := assignRole_self h .leaderPrev .follower
  unfold setPrevLeaderByID
  rw [heq]
  refine ⟨h₀.setNodeState _ _, ?_, fun e he => ?_⟩
  · rw [← hid, ← hty, isLeader_setNodeState h₀, if_pos rfl]
    rfl
  · exact getPeer_setNodeState_ne he (by decide)

/-- The takeover goes through `sendCurrentLeaderMsg`. -/
theorem OwnEntry.takeOver (h : s.OwnEntry) {height : BitVec 32} {effs : List Effect}
    (hs : handleNextLeader.takeOver s height = some (s', effs)) : s'.OwnEntry := by
  unfold handleNextLeader.takeOver at hs
  split at hs
  · obtain ⟨_, hm, hs⟩ := Option.bind_eq_some.1 hs
    obtain ⟨s₁, hl, rfl⟩ := Option.map_eq_some'.1 hm
    exact (h.head.setLeaderLast hl).1.sendCurrentLeaderMsg_eq hs
  · exact h.head.sendCurrentLeaderMsg_eq hs

/-- The hand-off never panics, and clears the policy once the node is the previous leader. -/
theorem OwnHead.handOff (h : s.OwnHead) (height : BitVec 32) :
    ∃ s' effs, handleNextLeader.handOff s height = some (s', effs) ∧ s'.OwnEntry := by
  obtain ⟨h₁, hlead₁, helect⟩ := h.setPrevLeaderByID_self
  have h₂ : ∀ s₂ : Server, s₂.OwnHead → s₂.isLeader ≠ some true →
      ∃ s' effs, ((({ s₂ with myLeaderPolicy := none } : Server).setLeaderLast s₂.nodeID height).bind
        fun s => some (s, ([] : List Effect))) = some (s', effs) ∧ s'.OwnEntry := fun s₂ h₂ hl₂ => by
    obtain ⟨s₃, hs₃⟩ := Option.isSome_iff_exists.1 ((h₂.setPolicy none).setLeaderLast_isSome height)
    obtain ⟨h₃, hlead₃, -⟩ := (h₂.setPolicy none).setLeaderLast hs₃
    exact ⟨s₃, [], by rw [hs₃]; rfl, OwnEntry.of_not_leader h₃ (hlead₃ ▸ hl₂)⟩
  unfold handleNextLeader.handOff
  simp only [Option.bind_eq_bind, Option.pure_def]
  split
  · refine h₂ _ (h₁.assignRole _ _ _) fun hl => ?_
    have := isLeader_assignRole h₁ (by decide) (fun _ _ he => by
      rw [setPrevLeaderByID, assignRole_nodeID, assignRole_nodeType, ← Option.some.inj he]
      exact helect _ ‹_›) hl
    simp [hlead₁] at this
  · exact h₂ _ h₁ (by simp [hlead₁])

/-- `handleNextLeader` keeps the invariant. -/
theorem OwnEntry.handleNextLeader (h : s.OwnEntry) {height : BitVec 32} {effs : List Effect}
    (hs : s.handleNextLeader srt height = some (s', effs)) : s'.OwnEntry := by
  obtain ⟨own, hown, -⟩ := h.head.getMyFederateServer
  have hsame : some (s, ([] : List Effect)) = some (s', effs) → s'.OwnEntry := by
    rintro ⟨⟩; exact h
  have hrole : ∀ ns, s.hasRole ns = some (own.nodeState == ns) := by simp [hasRole, hown]
  rw [Server.handleNextLeader, isLeader, isLeaderElect, hrole, hrole] at hs
  simp only [Option.bind_eq_bind, Option.some_bind, Option.pure_def] at hs
  rcases eq_some_of_ite hs with hs | hs
  · exact hsame hs
  rcases eq_some_of_ite hs with hs | hs
  · obtain ⟨P, -, hs⟩ := Option.bind_eq_some.1 hs
    cases hs; exact ⟨h.head, fun _ => rfl⟩
  rcases eq_some_of_ite hs with hs | hs <;> obtain ⟨P, -, hs⟩ := Option.bind_eq_some.1 hs
  · -- the leader-elect
    rcases eq_some_of_ite hs with hs | hs
    · exact hsame hs
    rcases eq_some_of_ite hs with hs | hs
    exacts [h.takeOver hs, hsame hs]
  · -- the leader
    rcases eq_some_of_ite hs with hs | hs
    · exact hsame hs
    rcases eq_some_of_ite hs with hs | hs
    · obtain ⟨_, _, heq, hown'⟩ := h.selectNextLeader srt height
      rw [heq] at hs; cases hs; exact hown'
    rcases eq_some_of_ite hs with hs | hs
    · obtain ⟨_, _, heq, hown'⟩ := h.head.handOff height
      rw [heq] at hs; cases hs; exact hown'
    · exact hsame hs

/-- The leader path of `handleNextLeader` never panics: the own entry is there, the policy is set,
    and the hand-off finds the own entry for `LeaderLast`. -/
theorem OwnEntry.handleNextLeader_isSome (h : s.OwnEntry) (hl : s.isLeader = some true)
    (height : BitVec 32) : (s.handleNextLeader srt height).isSome := by
  obtain ⟨own, hown, -⟩ := h.head.getMyFederateServer
  obtain ⟨P, hP⟩ := Option.isSome_iff_exists.1 (h.policy hl)
  have hel : s.isLeaderElect = some false := by
    simp [isLeaderElect, hasRole, hown, show own.nodeState = .leader by
      simpa [isLeader, hasRole, hown] using hl]
  rw [Server.handleNextLeader, hl, hel, hP]
  simp only [Option.bind_eq_bind, Option.some_bind, Option.pure_def, Bool.not_true,
    Bool.false_and, Bool.false_eq_true, reduceIte]
  split_ifs <;> try rfl
  · obtain ⟨_, _, heq, -⟩ := h.selectNextLeader srt height
    rw [heq]; rfl
  · obtain ⟨_, _, heq, -⟩ := h.head.handOff height
    rw [heq]; rfl

/-- A done peer other than the node's own synthetic peer leaves the own entry at the head; a
    successor or a new leader is then chosen by `selectNextLeader` or `selectCurrentleader`. -/
theorem OwnEntry.doneRoster (h : s.OwnEntry) {p : Peer} (hp : p ≠ selfPeer s.nodeID s.nodeType)
    {newestHeight : Int} {effs : List Effect}
    (hs : s.doneRoster srt p newestHeight = some (s', effs)) : s'.OwnEntry := by
  obtain ⟨own, rest, hfs, hown⟩ := h.head
  have hsame : some (s, ([] : List Effect)) = some (s', effs) → s'.OwnEntry := by
    rintro ⟨⟩; exact h
  rw [Server.doneRoster] at hs
  rcases eq_some_of_ite hs with hs | hs
  · rw [hfs, removeFederateServer, if_neg (by rw [hown]; exact Ne.symm hp)] at hs
    cases hr : removeFederateServer p rest with
    | none => rw [hr] at hs; exact hsame hs
    | some r =>
      obtain ⟨fs, rest'⟩ := r
      have h₁ : ({ s with federateServers := own :: rest' } : Server).OwnEntry :=
        ⟨⟨own, rest', rfl, hown⟩, fun hl => h.policy (by
          rwa [@isLeader_of_head { s with federateServers := own :: rest' } _ _ rfl hown,
            ← isLeader_of_head hfs hown] at hl)⟩
      rw [hr, Option.map_some'] at hs
      dsimp only at hs
      rw [@isLeader_of_head { s with federateServers := own :: rest' } _ _ rfl hown] at hs
      simp only [Option.bind_eq_bind, Option.some_bind, Option.pure_def] at hs
      rcases eq_some_of_ite hs with hs | hs
      · obtain ⟨_, _, heq, hown'⟩ := h₁.selectNextLeader srt (BitVec.ofInt 32 newestHeight)
        rw [heq] at hs; cases hs; exact hown'
      rcases eq_some_of_ite hs with hs | hs
      · refine OwnEntry.selectCurrentleader srt ?_ hs
        exact ⟨h₁.head, h₁.policy⟩
      · cases hs; exact h₁
  · obtain ⟨_, -, hs⟩ := Option.bind_eq_some.1 hs
    cases hs
    exact ⟨⟨own, rest, hfs, hown⟩, h.policy⟩

/-! ## Runs -/

/-- Modelled from the spec: a server joins the roster by being appended to `federateServers`, as
    `newServer` appends the node itself; the code that adds other servers is not in the
    repository. -/
def addFederateServer (s : Server) (fs : FederateServer) : Server :=
  { s with federateServers := s.federateServers ++ [fs] }

theorem OwnEntry.addFederateServer (h : s.OwnEntry) (fs : FederateServer) :
    (s.addFederateServer fs).OwnEntry := by
  obtain ⟨⟨own, rest, hfs, hown⟩, hpol⟩ := h
  refine ⟨⟨own, rest ++ [fs], by simp [Server.addFederateServer, hfs], hown⟩, fun hl => hpol ?_⟩
  rwa [@isLeader_of_head (s.addFederateServer fs) own (rest ++ [fs])
    (by simp [Server.addFederateServer, hfs]) hown, ← isLeader_of_head hfs hown] at hl

theorem getPeerByID_nodeID {pid : String} {p : Peer} (h : s.getPeerByID pid = some p) :
    p.nodeID = pid := by
  obtain ⟨fs, hfind, rfl⟩ := Option.map_eq_some'.1 h
  simpa using List.find?_some hfind

theorem ne_selfPeer_of_getPeerByID {s₀ : Server} {pid : String} {p : Peer}
    (h : s₀.getPeerByID pid = some p) (hpid : pid ≠ s.nodeID) : p ≠ selfPeer s.nodeID s.nodeType :=
  fun hp => hpid (by rw [← getPeerByID_nodeID h, hp]; rfl)

end Server

/-- The operations of a node's runs, with what each reads besides the server. -/
inductive LeaderOp
  | handleNextLeader (height : BitVec 32)
  | handleDonePeerMsg (p : Peer) (newestHeight : Int)
  | selectNextLeader (height : BitVec 32)
  | selectCurrentleader (height : BitVec 32)
  | sendCurrentLeaderMsg (deadLeader newLeader source : String) (height : BitVec 32)
  | addFederateServer (fs : FederateServer)
  | setLeaderPeer (p : Peer)
  | setLeaderPeerByID (pid : String)
  | setLeaderElect (p : Peer)
  | setLeaderElectByID (pid : String)
  | setPrevLeaderPeer (p : Peer)
  | setPrevLeaderByID (pid : String)

namespace LeaderOp

open Server

/-- The server after the operation, or `none` where it panics. Of `handleDonePeerMsg` only the
    roster half changes the server. -/
def apply (srt : GoSort) (s : Server) : LeaderOp → Option Server
  | handleNextLeader height => (s.handleNextLeader srt height).map (·.1)
  | handleDonePeerMsg p newestHeight => (s.doneRoster srt p newestHeight).map (·.1)
  | selectNextLeader height => (s.selectNextLeader srt height).map (·.1)
  | selectCurrentleader height => (s.selectCurrentleader srt height).map (·.1)
  | sendCurrentLeaderMsg deadLeader newLeader source height =>
    (s.sendCurrentLeaderMsg deadLeader newLeader source height).map (·.1)
  | addFederateServer fs => some (s.addFederateServer fs)
  | setLeaderPeer p => some (s.setLeaderPeer p)
  | setLeaderPeerByID pid => some (s.setLeaderPeerByID pid)
  | setLeaderElect p => some (s.setLeaderElect p)
  | setLeaderElectByID pid => some (s.setLeaderElectByID pid)
  | setPrevLeaderPeer p => some (s.setPrevLeaderPeer p)
  | setPrevLeaderByID pid => some (s.setPrevLeaderByID pid)

/-- The operation leaves the node's own synthetic peer alone: the done peer and the targets of
    the role mutators are other servers. -/
def TargetsOthers (s : Server) : LeaderOp → Prop
  | handleDonePeerMsg p _ | setLeaderPeer p | setLeaderElect p | setPrevLeaderPeer p =>
    p ≠ selfPeer s.nodeID s.nodeType
  | setLeaderPeerByID pid | setLeaderElectByID pid | setPrevLeaderByID pid => pid ≠ s.nodeID
  | _ => True

instance (s : Server) : DecidablePred (TargetsOthers s) := fun op => by
  cases op <;> unfold TargetsOthers <;> infer_instance

end LeaderOp

/-- The runs of a `SERVER_NODE` made by `newServer`: operations that leave its own synthetic peer
    alone, in any order. -/
inductive LeaderRun (srt : GoSort) : Server → Prop
  | init (nodeID : String) (startTime newestHeight : Int) (initLeader : Bool) :
    LeaderRun srt (Server.newServer nodeID serverNode startTime newestHeight initLeader)
  | step {s s' : Server} (op : LeaderOp) :
    LeaderRun srt s → op.TargetsOthers s → op.apply srt s = some s' → LeaderRun srt s'

namespace Server

variable {s s' : Server} (srt : GoSort)

theorem OwnEntry.newServer (nodeID : String) (startTime newestHeight : Int) (initLeader : Bool) :
    (Server.newServer nodeID serverNode startTime newestHeight initLeader).OwnEntry := by
  unfold Server.newServer
  rw [if_pos rfl]
  split
  · exact ⟨⟨_, [], rfl, rfl⟩, fun _ => rfl⟩
  · exact OwnEntry.of_not_leader ⟨_, [], rfl, rfl⟩
      (by simp [isLeader, hasRole, getMyFederateServer, getFederateServerByID])

/-- One operation that leaves the own synthetic peer alone keeps the invariant. -/
theorem OwnEntry.apply (h : s.OwnEntry) {op : LeaderOp} (ht : op.TargetsOthers s)
    (hs : op.apply srt s = some s') : s'.OwnEntry := by
  have peer_ne : ∀ {p : Peer}, p ≠ selfPeer s.nodeID s.nodeType →
      ∀ (s₀ : Server) (q : Peer), some p = some q → q ≠ selfPeer s.nodeID s.nodeType :=
    fun hp _ _ he => Option.some.inj he ▸ hp
  cases op with
  | handleNextLeader height =>
    obtain ⟨_, he, rfl⟩ := Option.map_eq_some'.1 hs
    exact h.handleNextLeader srt he
  | handleDonePeerMsg p newestHeight =>
    obtain ⟨_, he, rfl⟩ := Option.map_eq_some'.1 hs
    exact h.doneRoster srt ht he
  | selectNextLeader height =>
    obtain ⟨_, he, rfl⟩ := Option.map_eq_some'.1 hs
    obtain ⟨_, _, he', hown⟩ := h.selectNextLeader srt height
    rw [he'] at he; cases he; exact hown
  | selectCurrentleader height =>
    obtain ⟨_, he, rfl⟩ := Option.map_eq_some'.1 hs
    exact h.selectCurrentleader srt he
  | sendCurrentLeaderMsg deadLeader newLeader source height =>
    obtain ⟨_, he, rfl⟩ := Option.map_eq_some'.1 hs
    exact h.head.sendCurrentLeaderMsg_eq he
  | addFederateServer fs => cases hs; exact h.addFederateServer fs
  | setLeaderPeer p | setLeaderElect p | setPrevLeaderPeer p =>
    cases hs; exact h.assignRole (by decide) (peer_ne ht)
  | setLeaderPeerByID pid | setLeaderElectByID pid | setPrevLeaderByID pid =>
    cases hs; exact h.assignRole (by decide) fun _ _ he => ne_selfPeer_of_getPeerByID he ht

theorem LeaderRun.ownEntry (hrun : LeaderRun srt s) : s.OwnEntry := by
  induction hrun with
  | init nodeID startTime newestHeight initLeader =>
    exact OwnEntry.newServer nodeID startTime newestHeight initLeader
  | step op _ ht hs ih => exact ih.apply srt ht hs

/-- In every run of a federate server made by `newServer` whose done peers and role-mutator
    targets are other servers: the node's own roster entry is present, the node has a leader
    policy whenever it is the leader, and then neither `handleNextLeader` nor `selectNextLeader`
    panics. -/
theorem ownEntry_and_policy_in_every_run (hrun : LeaderRun srt s) :
    (∃ own, s.getMyFederateServer = some own) ∧
      (s.isLeader = some true → s.myLeaderPolicy.isSome) ∧
      ∀ height, s.isLeader = some true →
        (s.handleNextLeader srt height).isSome ∧ (s.selectNextLeader srt height).isSome := by
  have h := LeaderRun.ownEntry srt hrun
  obtain ⟨own, hown, -⟩ := h.head.getMyFederateServer
  refine ⟨⟨own, hown⟩, h.policy, fun height hl => ⟨h.handleNextLeader_isSome srt hl height, ?_⟩⟩
  obtain ⟨_, _, he, -⟩ := h.selectNextLeader srt height
  rw [he]; rfl

/-! ## A hand-off

Node `N` starts as the leader, `B` joins as a follower and is made the leader-elect, and at
height 3, `StartDBHeight + Term - 1`, `N` hands over. -/

def leaderNode : Server := newServer "N" serverNode 0 0 true

def followerB : FederateServer :=
  ⟨⟨1, "10.0.0.2:8108", "10.0.0.2:8108", false, false, 0, "B", serverNode⟩, .follower, 100, 0, 0⟩

def electChosen : Server := (leaderNode.addFederateServer followerB).setLeaderElectByID "B"

def handedOff : Server :=
  ((LeaderOp.handleNextLeader 3).apply GoSort.insertion electChosen).getD electChosen

theorem run_handOff : LeaderRun GoSort.insertion handedOff :=
  .step (.handleNextLeader 3)
    (.step (.setLeaderElectByID "B") (.step (.addFederateServer followerB) (.init "N" 0 0 true)
      trivial rfl) (by decide) rfl)
    trivial (Option.getD_of_ne_none (Option.ne_none_iff_isSome.2 (by decide)) _).symm

theorem ownEntry_and_policy_after_handOff :
    LeaderRun GoSort.insertion handedOff ∧ (∃ own, handedOff.getMyFederateServer = some own) ∧
      (handedOff.isLeader = some true → handedOff.myLeaderPolicy.isSome) :=
  have h := ownEntry_and_policy_in_every_run GoSort.insertion run_handOff
  ⟨run_handOff, h.1, h.2.1⟩

example : handedOff.isLeader = some false ∧ handedOff.myLeaderPolicy = none ∧
    handedOff.getLeaderPeer.map (·.nodeID) = some "B" := by decide

end Server

end FactomCode

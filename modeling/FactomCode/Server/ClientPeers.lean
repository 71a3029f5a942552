import FactomCode.Server.PeerCounts

set_option autoImplicit false

/-! # Removing a client peer: a loop over the slice it rewrites

For a peer that is not a `SERVER_NODE`, `handleDonePeerMsg` runs
`for i, client := range s.clientPeers { if client == p { s.clientPeers = append(s.clientPeers[:i],
s.clientPeers[i+1:]...) } }`. `range` keeps reading the backing array at the next index while each
`append` shifts the rest of the slice one place left in that same array (`removeClientPeer`).

After a removal at `i`, the element shifted into position `i` is never read: the loop goes on at
`i + 1`. A client listed once is removed, and the others keep their order
(`removeClientPeer_of_count_le_one`); nothing in the repository appends to `s.clientPeers`, so no
reachable list holds a client twice. On a list that did, the second copy is skipped and stays, or
a stale copy beyond the shortened slice is read and `s.clientPeers[i+1:]` panics.

The loop is `removeClientPeer.go`. Its lemmas: one equation per kind of iteration (`go_skip`,
`go_remove`, `go_panic`), a run of iterations split in two (`go_add`), iterations that meet no
`p` (`go_of_ne`), and the first removal (`go_remove_first`), from which the results below
start. -/

namespace FactomCode

namespace removeClientPeer

variable {p : Peer}

theorem go_skip {k i : Nat} {arr : List Peer} {len : Nat} (h : arr[i]? ≠ some p) :
    go p (k + 1) i arr len = go p k (i + 1) arr len := by
  simp [go, h]

theorem go_remove {k i : Nat} {arr : List Peer} {len : Nat} (h : arr[i]? = some p)
    (hi : i + 1 ≤ len) :
    go p (k + 1) i arr len =
      go p k (i + 1) (arr.take i ++ (arr.take len).drop (i + 1) ++ arr.drop (len - 1)) (len - 1) := by
  simp [go, h, hi]

theorem go_panic {k i : Nat} {arr : List Peer} {len : Nat} (h : arr[i]? = some p)
    (hi : ¬i + 1 ≤ len) : go p (k + 1) i arr len = none := by
  simp [go, h, hi]

/-- `a + b` iterations are `a` iterations followed by `b` more. -/
theorem go_add (a b : Nat) : ∀ (i : Nat) (arr : List Peer) (len : Nat),
    go p (a + b) i arr len = (go p a i arr len).bind fun r => go p b (i + a) r.1 r.2 := by
  induction a with
  | zero => intro i arr len; rw [Nat.zero_add, Nat.add_zero]; rfl
  | succ a ih =>
    intro i arr len
    rw [Nat.succ_add]
    by_cases h : arr[i]? = some p
    · by_cases hi : i + 1 ≤ len
      · rw [go_remove h hi, go_remove h hi, ih, Nat.add_right_comm, Nat.add_assoc]
      · rw [go_panic h hi, go_panic h hi]
        rfl
    · rw [go_skip h, go_skip h, ih, Nat.add_right_comm, Nat.add_assoc]

/-- Iterations that meet no `p` change nothing. -/
theorem go_of_ne : ∀ (k i : Nat) (arr : List Peer) (len : Nat),
    (∀ j, i ≤ j → j < i + k → arr[j]? ≠ some p) → go p k i arr len = some (arr, len)
  | 0, _, _, _, _ => rfl
  | k + 1, i, arr, len, h => by
    rw [go_skip (h i le_rfl (by omega))]
    exact go_of_ne k (i + 1) arr len fun j hj hjk => h j (by omega) (by omega)

/-- The loop changes nothing on an array without `p`. -/
theorem go_of_not_mem {k i : Nat} {arr : List Peer} {len : Nat} (h : p ∉ arr) :
    go p k i arr len = some (arr, len) :=
  go_of_ne k i arr len fun _ _ _ hj => h (List.getElem?_mem hj)

/-- The first `p`, at the end of a prefix without it, is removed while the slice is still the whole
    array: the rest shifts left, and the last element stays behind as a stale copy. -/
theorem go_remove_first (k : Nat) {pre post : List Peer} (hpre : p ∉ pre) :
    go p (pre.length + (k + 1)) 0 (pre ++ p :: post) (pre.length + (post.length + 1)) =
      go p k (pre.length + 1) (pre ++ post ++ (p :: post).drop post.length) (pre.length + post.length) := by
  have hat : (pre ++ p :: post)[pre.length]? = some p := by
    rw [List.getElem?_append_right le_rfl, Nat.sub_self, List.getElem?_cons_zero]
  have hbefore : ∀ j, 0 ≤ j → j < 0 + pre.length → (pre ++ p :: post)[j]? ≠ some p := fun j _ hj h =>
    hpre (List.getElem?_mem (by rwa [List.getElem?_append_left (by omega)] at h))
  rw [go_add, go_of_ne _ _ _ _ hbefore, Option.some_bind]
  dsimp only
  rw [Nat.zero_add, go_remove hat (by omega), List.take_left' rfl, List.take_of_length_le (by simp),
    Nat.add_succ_sub_one, List.drop_append, List.drop_append, List.drop_one, List.tail_cons]

end removeClientPeer

open removeClientPeer

variable {p : Peer}

/-- A client listed once is removed, and the others keep their order. -/
theorem removeClientPeer_of_single {pre post : List Peer} (hpre : p ∉ pre) (hpost : p ∉ post) :
    removeClientPeer p (pre ++ p :: post) = some (pre ++ post) := by
  have hlen : (pre ++ p :: post).length = pre.length + (post.length + 1) := by simp
  rw [removeClientPeer, hlen, go_remove_first post.length hpre]
  rcases post with _ | ⟨q, qs⟩
  · simp [go]
  · have hstale : p ∉ (p :: q :: qs).drop (q :: qs).length := fun h => hpost (List.mem_of_mem_drop h)
    rw [go_of_not_mem (List.not_mem_append (List.not_mem_append hpre hpost) hstale)]
    exact congrArg some (List.take_left' (by simp))

/-- A client not listed leaves the list as it is. -/
theorem removeClientPeer_of_not_mem {clients : List Peer} (h : p ∉ clients) :
    removeClientPeer p clients = some clients := by
  rw [removeClientPeer, go_of_not_mem h]
  exact congrArg some (List.take_length _)

theorem filter_ne_of_not_mem {l : List Peer} (h : p ∉ l) : l.filter (· ≠ p) = l :=
  List.filter_eq_self.2 fun _ hq => decide_eq_true (ne_of_mem_of_not_mem hq h)

/-- A client listed at most once is removed, and the others keep their order. -/
theorem removeClientPeer_of_count_le_one {clients : List Peer} (h : clients.count p ≤ 1) :
    removeClientPeer p clients = some (clients.filter (· ≠ p)) := by
  by_cases hp : p ∈ clients
  · obtain ⟨pre, post, rfl, hpre⟩ := List.eq_append_cons_of_mem hp
    have hpost : p ∉ post := fun hq => by
      have := List.count_pos_iff.2 hq
      simp at h
      omega
    rw [removeClientPeer_of_single hpre hpost, List.filter_append, List.filter_cons_of_neg (by simp),
      filter_ne_of_not_mem hpre, filter_ne_of_not_mem hpost]
  · rw [removeClientPeer_of_not_mem hp, filter_ne_of_not_mem hp]

/-! ## In the handler -/

variable (srt : GoSort) (net : NetLib)

/-- For a peer that is not a federate server, `handleDonePeerMsg` is the peer-map half and the
    client removal; it panics where the removal does. -/
theorem Server.handleDonePeerMsg_of_client (s : Server) (st : PeerState) (redial : Option Peer)
    (newestHeight : Int) (hp : p.nodeType ≠ serverNode) :
    s.handleDonePeerMsg srt net st p redial newestHeight =
      (removeClientPeer p s.clientPeers).map fun clientPeers =>
        ({ s with clientPeers }, (donePeerMaps net s st p redial).1, [],
          (donePeerMaps net s st p redial).2) := by
  simp only [Server.handleDonePeerMsg, Server.doneRoster, if_neg hp]
  cases removeClientPeer p s.clientPeers <;> rfl

/-- `handleDonePeerMsg(p)` for a peer `p` that is not a `SERVER_NODE` and is listed at most once
    in `s.clientPeers`, as in every list the repository builds, removes `p` from the list and keeps
    the other clients in their order. -/
theorem Server.handleDonePeerMsg_removes_client (s : Server) (st : PeerState) (p : Peer)
    (redial : Option Peer) (newestHeight : Int) (hp : p.nodeType ≠ serverNode)
    (h : s.clientPeers.count p ≤ 1) :
    ∃ r, s.handleDonePeerMsg srt net st p redial newestHeight = some r ∧
      r.1.clientPeers = s.clientPeers.filter (· ≠ p) := by
  rw [s.handleDonePeerMsg_of_client srt net st redial newestHeight hp,
    removeClientPeer_of_count_le_one h]
  exact ⟨_, rfl, rfl⟩

/-- An inbound client peer. Its node mode is empty, not `SERVER_NODE`. -/
def clientPeer (id : Int) : Peer := ⟨id, "10.0.1.1:8108", "10.0.1.1:8108", true, false, 0, "", ""⟩

/-- The first of two clients disconnects. -/
theorem Server.handleDonePeerMsg_removes_client_first :
    (clientPeer 1).nodeType ≠ serverNode ∧ [clientPeer 1, clientPeer 2].count (clientPeer 1) ≤ 1 ∧
      ∃ r, { ninePeersServer with clientPeers := [clientPeer 1, clientPeer 2] }.handleDonePeerMsg
          GoSort.insertion plainNet (.init ninePeersConfig) (clientPeer 1) none 0 = some r ∧
        r.1.clientPeers = [clientPeer 1, clientPeer 2].filter (· ≠ clientPeer 1) :=
  ⟨by decide, by decide, Server.handleDonePeerMsg_removes_client GoSort.insertion plainNet
    { ninePeersServer with clientPeers := [clientPeer 1, clientPeer 2] } _ (clientPeer 1) none 0
    (by decide) (by decide)⟩

/-- A client listed twice, which no run of this repository produces: with `[c, c, d]` the handler
    keeps `c`, and with `[c, c]` it panics. -/
theorem Server.handleDonePeerMsg_clientPeers_twice :
    (clientPeer 1).nodeType ≠ serverNode ∧
      (({ ninePeersServer with clientPeers := [clientPeer 1, clientPeer 1, clientPeer 2] }.handleDonePeerMsg
        GoSort.insertion plainNet (.init ninePeersConfig) (clientPeer 1) none 0).map
          (fun r : Server × PeerState × List Effect × List Dial => r.1.clientPeers) =
            some [clientPeer 1, clientPeer 2]) ∧
      { ninePeersServer with clientPeers := [clientPeer 1, clientPeer 1] }.handleDonePeerMsg
        GoSort.insertion plainNet (.init ninePeersConfig) (clientPeer 1) none 0 = none :=
  ⟨by decide, by decide, rfl⟩

end FactomCode

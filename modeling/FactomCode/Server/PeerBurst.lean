import FactomCode.Server.PeerCounts

set_option autoImplicit false

/-! # The outbound replenishment burst

After each event `peerHandler` runs the loop `for state.NeedMoreOutbound() && shutdown == 0`
(`Server.burst`): it draws a candidate from the address manager, and either breaks, skips the
candidate (`continue`), or dials it with `newOutboundPeer` and hands the result to
`handleAddPeerMsg`. `candidateVerdict` is that loop body on one candidate, `burst_cons` says the
loop is the body repeated, and `candidateVerdict_eq_dial_iff` lists the conditions under which a
candidate is dialled. Both facts below about bursts are read off these three.

The counter `tries` is incremented before the filters read it, so at a candidate it is one more
than the number of candidates skipped since the last dial. The recency filter
`time.Now().After(addr.LastAttempt().Add(10*time.Minute)) && tries < 30` skips a candidate last
attempted *more* than ten minutes ago, the reverse of the comment above it and of the commented
out line it replaced. And `tries` is set back to 0 at every dial, whether `handleAddPeerMsg`
admits the peer or not. -/

namespace FactomCode

/-- What one round of the replenishment loop does with the candidate it drew: `break`,
    `continue`, or dial the known address. -/
inductive Verdict
  | stop
  | skip
  | dial (a : KnownAddress)

variable (cfg : Config) (net : NetLib)

/-- The body of the replenishment loop on a candidate, `tries` candidates having been skipped
    since the last dial: it breaks on a nil address, on an address group that has an outbound
    peer, and on the 101st try; it skips an address last tried over ten minutes ago before the
    30th try and one off the default port before the 50th; otherwise it dials. -/
def candidateVerdict (st : PeerState) (tries : Nat) (d : Draw) : Verdict :=
  match d.addr with
  | none => .stop
  | some a =>
    if st.outboundGroups (net.groupKey a.na) ≠ 0 then .stop
    else if 100 < tries + 1 then .stop
    else if a.lastAttempt + tenMinutes < d.now && tries + 1 < 30 then .skip
    else if toString a.port ≠ cfg.defaultPort && tries + 1 < 50 then .skip
    else .dial a

/-- The conditions under which the loop dials a candidate, with `tries` the number of candidates
    skipped since the last dial. -/
theorem candidateVerdict_eq_dial_iff {st : PeerState} {tries : Nat} {d : Draw} {a : KnownAddress} :
    candidateVerdict cfg net st tries d = .dial a ↔
      d.addr = some a ∧ st.outboundGroups (net.groupKey a.na) = 0 ∧ tries < 100 ∧
        (d.now ≤ a.lastAttempt + tenMinutes ∨ 29 ≤ tries) ∧
        (toString a.port = cfg.defaultPort ∨ 49 ≤ tries) := by
  rcases d with ⟨_ | b, now, dialled⟩
  · simp [candidateVerdict]
  simp only [candidateVerdict, Option.some.injEq, Bool.and_eq_true, decide_eq_true_eq]
  split_ifs with hg ht hr hp
  · exact iff_of_false nofun fun ⟨hb, h, _⟩ => hg (hb ▸ h)
  · exact iff_of_false nofun fun ⟨_, _, h, _⟩ => by omega
  · exact iff_of_false nofun fun ⟨hb, _, _, h, _⟩ => by subst hb; omega
  · exact iff_of_false nofun fun ⟨hb, _, _, _, h⟩ => by
      subst hb; exact h.elim hp.1 (by omega)
  · refine ⟨fun h => ?_, fun ⟨hb, _⟩ => hb ▸ rfl⟩
    cases h
    exact ⟨rfl, not_not.1 hg, by omega, by omega,
      or_iff_not_imp_left.2 fun hs => by have := not_and.1 hp hs; omega⟩

namespace Server

/-- The replenishment loop is its body repeated: while it runs, a skip moves on with one more
    try, and a dial hands the peer to `handleAddPeerMsg` and starts counting again. -/
theorem burst_cons (s : Server) (d : Draw) (ds : List Draw) (tries : Nat) (st : PeerState) :
    s.burst cfg net (d :: ds) tries st =
      if !(st.needMoreOutbound cfg && !s.shutdown) then some (st, [])
      else match candidateVerdict cfg net st tries d with
        | .stop => some (st, [])
        | .skip => s.burst cfg net ds (tries + 1) st
        | .dial a => (s.burst cfg net ds 0 (handleAddPeerMsg cfg net s st d.now d.dialled).1).map
            fun r => (r.1, ⟨st, net.netAddressKey a.na, false, 0, d.dialled⟩ :: r.2) := by
  rw [burst]
  split
  · rfl
  · rcases d with ⟨_ | a, now, dialled⟩
    · rfl
    · simp only [candidateVerdict]
      split_ifs <;> rfl

end Server

/-! ## Candidates the burst dials -/

/-- Which candidates a burst hands to `handleAddPeerMsg`. While the loop runs it dials a candidate
    exactly when the candidate's address group has no outbound peer, fewer than 100 candidates were
    skipped since the last dial, it was last attempted at most ten minutes ago unless 29 were
    skipped, and it is on the default port unless 49 were skipped; the count of skips goes up by
    one at each skip and back to 0 at each dial. -/
theorem burst_dials_recent_candidates :
    (∀ (s : Server) (d : Draw) (ds : List Draw) (tries : Nat) (st : PeerState),
      st.needMoreOutbound cfg = true → s.shutdown = false →
      s.burst cfg net (d :: ds) tries st = match candidateVerdict cfg net st tries d with
        | .stop => some (st, [])
        | .skip => s.burst cfg net ds (tries + 1) st
        | .dial a => (s.burst cfg net ds 0 (Server.handleAddPeerMsg cfg net s st d.now d.dialled).1).map
            fun r => (r.1, ⟨st, net.netAddressKey a.na, false, 0, d.dialled⟩ :: r.2)) ∧
    ∀ st tries d a, candidateVerdict cfg net st tries d = .dial a ↔
      d.addr = some a ∧ st.outboundGroups (net.groupKey a.na) = 0 ∧ tries < 100 ∧
        (d.now ≤ a.lastAttempt + tenMinutes ∨ 29 ≤ tries) ∧
        (toString a.port = cfg.defaultPort ∨ 49 ≤ tries) :=
  ⟨fun s d ds tries st hneed hs => by simp [Server.burst_cons, hneed, hs],
    fun _ _ _ _ => candidateVerdict_eq_dial_iff cfg net⟩

/-- `MaxPeers = 9` and no `ConnectPeers`, so that outbound peers come from the address manager. -/
def addrBookConfig : Config := { ninePeersConfig with connectPeers := [] }

/-- A candidate on the default port, last attempted one minute before it is drawn. -/
def recentAddr : KnownAddress := ⟨"10.0.1.1:8108", -60000000000, 8108⟩

def recentCandidate : Draw :=
  ⟨some recentAddr, 0, some ⟨1, "10.0.1.1:8108", "10.0.1.1:8108", false, false, 0, "", ""⟩⟩

/-- `GetAddress` returns nil: the burst breaks. -/
def noCandidate : Draw := ⟨none, 0, none⟩

/-- The first candidate of a burst, attempted a minute ago, is dialled. -/
theorem burst_dials_recent_candidates_oneMinute :
    candidateVerdict addrBookConfig plainNet (.init addrBookConfig) 0 recentCandidate =
        .dial recentAddr ∧
      recentCandidate.now < recentAddr.lastAttempt + tenMinutes ∧
      (ninePeersServer.burst addrBookConfig plainNet [recentCandidate, noCandidate] 0
        (.init addrBookConfig)).map (fun r => r.2.map Dial.addr) = some ["10.0.1.1:8108"] :=
  ⟨((burst_dials_recent_candidates addrBookConfig plainNet).2 _ _ _ _).2
    ⟨rfl, rfl, by decide, .inl (by decide), .inl rfl⟩, by decide, by decide⟩

/-! ## Candidates turned away -/

/-- A burst whose candidates all pass the filters and are all turned away by `handleAddPeerMsg`
    (a banned host, a federate server's address, a nil peer from `newOutboundPeer`) never ends:
    every dial sets `tries` back to 0, so the 100-try bound is never reached, and for every number
    of candidates the loop reads them all and asks for another. -/
theorem burst_never_ends_on_turned_away {s : Server} {st : PeerState}
    (hneed : st.needMoreOutbound cfg = true) (hs : s.shutdown = false) (draws : List Draw)
    (hdraws : ∀ d ∈ draws, ∃ a, d.addr = some a ∧ st.outboundGroups (net.groupKey a.na) = 0 ∧
      d.now ≤ a.lastAttempt + tenMinutes ∧ toString a.port = cfg.defaultPort ∧
      (Server.handleAddPeerMsg cfg net s st d.now d.dialled).1 = st) :
    s.burst cfg net draws 0 st = none := by
  induction draws with
  | nil => simp [Server.burst, hneed, hs]
  | cons d ds ih =>
    obtain ⟨a, haddr, hg, hnow, hport, hrej⟩ := hdraws d (List.mem_cons_self _ _)
    have hdial : candidateVerdict cfg net st 0 d = .dial a :=
      (candidateVerdict_eq_dial_iff cfg net).2 ⟨haddr, hg, by omega, .inl hnow, .inl hport⟩
    rw [Server.burst_cons, hdial, hrej, ih fun d' hd' => hdraws d' (List.mem_cons_of_mem _ hd')]
    simp [hneed, hs]

/-- A candidate that `GetAddress` keeps returning, attempted just now on the default port, for
    which `newOutboundPeer` returns nil. -/
def nilDialCandidate : Draw := ⟨some ⟨"10.0.1.1:8108", 0, 8108⟩, 0, none⟩

theorem burst_never_ends_on_turned_away_nilDials :
    (PeerState.init addrBookConfig).needMoreOutbound addrBookConfig = true ∧
      ninePeersServer.shutdown = false ∧
      ninePeersServer.burst addrBookConfig plainNet (List.replicate 200 nilDialCandidate) 0
        (.init addrBookConfig) = none :=
  ⟨by decide, rfl, burst_never_ends_on_turned_away addrBookConfig plainNet (by decide) rfl _
    fun d hd => List.eq_of_mem_replicate hd ▸ ⟨_, rfl, rfl, by decide, rfl, rfl⟩⟩

end FactomCode

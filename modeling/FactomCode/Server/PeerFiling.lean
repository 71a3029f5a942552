import FactomCode.Server.PeerCounts
import Mathlib.Data.List.ReduceOption

set_option autoImplicit false

/-! # Where the peer handler files its peers

`handleAddPeerMsg` files an inbound peer in `peers` and an outbound one in `persistentPeers` or
`outboundPeers` by its persistence. `handleDonePeerMsg` looks for a peer only in the map its flags
select (`PeerState.listFor`), and `forAllPeers` walks the three maps one after the other. Both are
right only if every key is a peer filed in the map its flags select (`PeerState.Filed`). That holds
in every run, given that no peer is inbound and persistent and that `newOutboundPeer` returns a new
outbound peer with the requested persistence.

`outboundGroups` is kept by hand: five paths add or subtract one. In every run it counts the
outbound peers of each address group (`PeerState.groupCount`), given that the group of a dialled
peer's net address is a function of its address: a persistent peer's reconnection replaces it by a
new peer dialled at the same address and leaves the counts alone. -/

namespace FactomCode

variable (srt : GoSort) (cfg : Config) (net : NetLib)

/-- `mapM id`, the walk of the handlers that dereference every key, succeeds when no key is nil. -/
theorem mapM_id_eq_reduceOption {α : Type} :
    ∀ {l : List (Option α)}, none ∉ l → l.mapM id = some l.reduceOption
  | [], _ => rfl
  | none :: _, h => absurd (List.mem_cons_self _ _) h
  | some a :: l, h => by
    rw [List.mapM_cons, mapM_id_eq_reduceOption (mt (List.mem_cons_of_mem _) h),
      List.reduceOption_cons_of_some]
    rfl

namespace PeerMap

theorem forall_mem_insert {P : Option Peer → Prop} {m : PeerMap} {k : Option Peer}
    (hm : ∀ x ∈ m.keys, P x) (hk : P k) : ∀ x ∈ (m.insert k).keys, P x := by
  intro x hx
  rcases (mem_insert m k x).1 hx with rfl | hx
  exacts [hk, hm x hx]

theorem countP_insert_of_not_mem (f : Option Peer → Bool) {m : PeerMap} {k : Option Peer}
    (hk : k ∉ m.keys) : (m.insert k).keys.countP f = m.keys.countP f + if f k then 1 else 0 := by
  simp only [insert, dif_neg hk, List.countP_cons]

/-- `delete` erases with the derived equality on keys, `List.perm_cons_erase` with `DecidableEq`:
    the two agree. -/
theorem perm_cons_delete {m : PeerMap} {k : Option Peer} (hk : k ∈ m.keys) :
    m.keys.Perm (k :: (m.delete k).keys) := by
  convert List.perm_cons_erase hk using 3
  exact congrArg (fun inst => @List.erase _ inst m.keys k) (lawful_beq_subsingleton _ _)

theorem countP_delete_of_mem (f : Option Peer → Bool) {m : PeerMap} {k : Option Peer}
    (hk : k ∈ m.keys) : m.keys.countP f = (m.delete k).keys.countP f + if f k then 1 else 0 := by
  rw [(perm_cons_delete hk).countP_eq, List.countP_cons]

end PeerMap

/-! ## Filing by direction and persistence -/

/-- A key that is a peer, inbound iff `inbound` and persistent iff `persistent`. -/
def FiledAs (inbound persistent : Bool) (x : Option Peer) : Prop :=
  ∃ q, x = some q ∧ q.inbound = inbound ∧ q.persistent = persistent

@[simp] theorem filedAs_some (inbound persistent : Bool) (q : Peer) :
    FiledAs inbound persistent (some q) ↔ q.inbound = inbound ∧ q.persistent = persistent := by
  simp [FiledAs]

theorem FiledAs.ne_none {i p : Bool} {x : Option Peer} : FiledAs i p x → x ≠ none := by
  rintro ⟨q, rfl, -⟩
  exact Option.some_ne_none q

theorem FiledAs.flags_eq {i p i' p' : Bool} {x : Option Peer} :
    FiledAs i p x → FiledAs i' p' x → i = i' ∧ p = p' := by
  rintro ⟨q, rfl, rfl, rfl⟩ h
  exact ((filedAs_some _ _ _).1 h)

namespace PeerState

/-- Every key of the maps is a peer filed where its flags put it: inbound peers, which are never
    persistent, in `peers`; outbound persistent peers in `persistentPeers`; outbound transient
    peers in `outboundPeers`. -/
structure Filed (st : PeerState) : Prop where
  peers : ∀ x ∈ st.peers.keys, FiledAs true false x
  outboundPeers : ∀ x ∈ st.outboundPeers.keys, FiledAs false false x
  persistentPeers : ∀ x ∈ st.persistentPeers.keys, FiledAs false true x

namespace Filed

variable {st st' : PeerState} (h : st.Filed)
include h

theorem of_subset (hp : ∀ x ∈ st'.peers.keys, x ∈ st.peers.keys)
    (ho : ∀ x ∈ st'.outboundPeers.keys, x ∈ st.outboundPeers.keys)
    (hs : ∀ x ∈ st'.persistentPeers.keys, x ∈ st.persistentPeers.keys) : st'.Filed :=
  ⟨fun x hx => h.peers x (hp x hx), fun x hx => h.outboundPeers x (ho x hx),
    fun x hx => h.persistentPeers x (hs x hx)⟩

theorem reorder (hr : st.Reorder st') : st'.Filed :=
  h.of_subset (fun _ => hr.1.mem_iff.2) (fun _ => hr.2.1.mem_iff.2) (fun _ => hr.2.2.1.mem_iff.2)

theorem none_not_mem : none ∉ st.forAllPeers := by
  simp only [forAllPeers, forAllOutboundPeers, List.mem_append]
  rintro (hn | hn | hn)
  exacts [(h.peers _ hn).ne_none rfl, (h.outboundPeers _ hn).ne_none rfl,
    (h.persistentPeers _ hn).ne_none rfl]

/-- The three maps are pairwise disjoint, and `forAllPeers` visits each peer once. -/
theorem nodup : st.forAllPeers.Nodup := by
  have hdis : ∀ {i p i' p' : Bool} {m m' : PeerMap}, (∀ x ∈ m.keys, FiledAs i p x) →
      (∀ x ∈ m'.keys, FiledAs i' p' x) → (i ≠ i' ∨ p ≠ p') → m.keys.Disjoint m'.keys :=
    fun hm hm' hne x hx hx' => by
      obtain ⟨rfl, rfl⟩ := (hm x hx).flags_eq (hm' x hx')
      simp at hne
  rw [forAllPeers, forAllOutboundPeers, List.nodup_append, List.nodup_append]
  refine ⟨st.peers.nodup, ⟨st.outboundPeers.nodup, st.persistentPeers.nodup, ?_⟩,
    List.disjoint_append_right.2 ⟨?_, ?_⟩⟩
  · exact hdis h.outboundPeers h.persistentPeers (.inr (by decide))
  · exact hdis h.peers h.outboundPeers (.inl (by decide))
  · exact hdis h.peers h.persistentPeers (.inl (by decide))

theorem addGroup (k : String) (d : Int) : (st.addGroup k d).Filed :=
  ⟨h.peers, h.outboundPeers, h.persistentPeers⟩

theorem file (net : NetLib) {p : Peer} (hp : p.inbound = false ∨ p.persistent = false) :
    (st.file net p).Filed := by
  unfold PeerState.file
  split_ifs with hin hpers
  · exact ⟨PeerMap.forall_mem_insert h.peers (by simpa [hin] using hp), h.outboundPeers,
      h.persistentPeers⟩
  · exact ⟨h.peers, h.outboundPeers, PeerMap.forall_mem_insert h.persistentPeers
      ((filedAs_some _ _ _).2 ⟨by simpa using hin, hpers⟩)⟩
  · exact ⟨h.peers, PeerMap.forall_mem_insert h.outboundPeers
      ((filedAs_some _ _ _).2 ⟨by simpa using hin, by simpa using hpers⟩), h.persistentPeers⟩

/-- Storing a map that holds no new key as the map a peer's flags select. -/
theorem setListFor {p : Peer} {m : PeerMap} (hm : ∀ x ∈ m.keys, x ∈ (st.listFor p).keys) :
    (st.setListFor p m).Filed := by
  unfold listFor at hm
  unfold PeerState.setListFor
  split_ifs at hm ⊢
  · exact h.of_subset (fun _ => id) (fun _ => id) hm
  · exact h.of_subset hm (fun _ => id) (fun _ => id)
  · exact h.of_subset (fun _ => id) hm (fun _ => id)

/-- A persistent peer's reconnection, replacing it by a new outbound persistent peer. -/
theorem redial {p : Peer} {r : Option Peer} (hp : p.persistent = true) (hr : FiledAs false true r) :
    (st.setListFor p (((st.listFor p).delete (some p)).insert r)).Filed := by
  simp only [PeerState.setListFor, listFor, hp, if_true]
  exact ⟨h.peers, h.outboundPeers, PeerMap.forall_mem_insert
    (fun x hx => h.persistentPeers x ((PeerMap.mem_delete _ _ _).1 hx).2) hr⟩

/-- A peer of a filed state can only be in the map its flags select. -/
theorem mem_forAllPeers_iff {p : Peer} :
    some p ∈ st.forAllPeers ↔ some p ∈ (st.listFor p).keys := by
  unfold forAllPeers forAllOutboundPeers listFor
  constructor
  · simp only [List.mem_append]
    rintro (hq | hq | hq)
    · obtain ⟨hi, hpers⟩ := (filedAs_some _ _ _).1 (h.peers _ hq)
      simpa [hi, hpers] using hq
    · obtain ⟨hi, hpers⟩ := (filedAs_some _ _ _).1 (h.outboundPeers _ hq)
      simpa [hi, hpers] using hq
    · obtain ⟨hi, hpers⟩ := (filedAs_some _ _ _).1 (h.persistentPeers _ hq)
      simpa [hpers] using hq
  · intro hq
    split_ifs at hq <;> simp [hq]

/-- Where a filed state stores a new map for `p`, `p` is found only in that map. -/
theorem mem_setListFor {p : Peer} {m : PeerMap} :
    some p ∈ (st.setListFor p m).forAllPeers ↔ some p ∈ m.keys := by
  have hi := fun hq => (filedAs_some _ _ _).1 (h.peers (some p) hq)
  have ho := fun hq => (filedAs_some _ _ _).1 (h.outboundPeers (some p) hq)
  have hs := fun hq => (filedAs_some _ _ _).1 (h.persistentPeers (some p) hq)
  unfold PeerState.setListFor forAllPeers forAllOutboundPeers
  split_ifs <;> simp_all [List.mem_append]

/-- A done peer is in no map afterwards: only the map its flags select can hold it, and that map
    loses it; a reconnection puts a new peer in its place. -/
theorem not_mem_donePeerMaps (net : NetLib) (s : Server) (p : Peer) (redial : Option Peer)
    (hdial : ∀ d ∈ (s.donePeerMaps net st p redial).2, NewOutboundPeer d) :
    some p ∉ (s.donePeerMaps net st p redial).1.forAllPeers := by
  unfold Server.donePeerMaps at hdial ⊢
  dsimp only at hdial ⊢
  by_cases hmem : some p ∈ (st.listFor p).keys
  · by_cases hre : (!p.inbound && p.persistent && !s.shutdown) = true
    · rw [if_pos hmem, if_pos hre] at hdial ⊢
      rw [h.mem_setListFor, PeerMap.mem_insert, PeerMap.mem_delete]
      rintro (hr | ⟨hne, -⟩)
      · exact (hdial _ (List.mem_singleton_self _) p hr.symm).2.2.2.2 (h.mem_forAllPeers_iff.2 hmem)
      · exact hne rfl
    · rw [if_pos hmem, if_neg hre]
      split
      · rw [(h.addGroup _ _).mem_setListFor, PeerMap.mem_delete]
        exact fun hq => hq.1 rfl
      · rw [h.mem_setListFor, PeerMap.mem_delete]
        exact fun hq => hq.1 rfl
  · rw [if_neg hmem]
    exact mt h.mem_forAllPeers_iff.1 hmem

/-- `handleBroadcastMsg` queues the message once on each connected peer of the state that is not
    excluded, and on no other peer. -/
theorem handleBroadcastMsg_count (excludePeers : List (Option Peer)) (connected : Peer → Bool) :
    ∃ L, handleBroadcastMsg st excludePeers connected = some L ∧ ∀ q, L.count q =
      if some q ∈ st.forAllPeers ∧ connected q = true ∧ some q ∉ excludePeers then 1 else 0 := by
  refine ⟨_, by rw [handleBroadcastMsg, mapM_id_eq_reduceOption h.none_not_mem]; rfl, fun q => ?_⟩
  have hnodup : st.forAllPeers.reduceOption.Nodup :=
    h.nodup.filterMap fun _ _ _ ha ha' => (Option.mem_def.1 ha).trans (Option.mem_def.1 ha').symm
  rw [List.count_eq_of_nodup (hnodup.filter _)]
  simp [List.mem_filter, List.reduceOption_mem_iff, and_comm]

end Filed

theorem Filed.init (cfg : Config) : (PeerState.init cfg).Filed := ⟨nofun, nofun, nofun⟩

end PeerState

/-- A peer `newOutboundPeer` returns is outbound, with the requested persistence. -/
theorem NewOutboundPeer.filedAs {d : Dial} (h : NewOutboundPeer d) (hs : d.result.isSome) :
    FiledAs false d.persistent d.result := by
  obtain ⟨q, hq⟩ := Option.isSome_iff_exists.1 hs
  obtain ⟨-, hi, hp, -⟩ := h q hq
  exact ⟨q, hq, hi, hp⟩

variable {cfg net}

/-- Every change keeps the maps filed when each call of `newOutboundPeer` returns a new outbound
    peer with the requested persistence. -/
theorem keeps_filed {dial : Dial → Prop}
    (hdial : ∀ d, dial d → NewOutboundPeer d ∧ d.result.isSome) :
    Keeps cfg net dial fun _ st => st.Filed where
  mono h := h
  reorder h hr := h.reorder hr
  ban _ h := ⟨h.peers, h.outboundPeers, h.persistentPeers⟩
  listener h _ hp := h.file net (.inr hp.2.1)
  dialled h _ hd _ hp := h.file net (.inl ((hdial _ hd).1 _ hp).2.1)
  replenished h _ _ hd _ hp := h.file net (.inl ((hdial _ hd).1 _ hp).2.1)
  drop {_ st p} h _ := by
    have hm : ∀ x ∈ ((st.listFor p).delete (some p)).keys, x ∈ (st.listFor p).keys :=
      fun x hx => ((PeerMap.mem_delete _ _ _).1 hx).2
    split
    exacts [(h.addGroup _ _).setListFor hm, h.setListFor hm]
  redial h _ _ hpers hd := h.redial hpers ((hdial _ hd).1.filedAs (hdial _ hd).2)
  dropPersistent h _ :=
    h.of_subset (fun _ => id) (fun _ => id) fun _ hx => ((PeerMap.mem_delete _ _ _).1 hx).2
  dropInbound h _ :=
    h.of_subset (fun _ hx => ((PeerMap.mem_delete _ _ _).1 hx).2) (fun _ => id) (fun _ => id)
  dropOutbound h _ :=
    h.of_subset (fun _ => id) (fun _ hx => ((PeerMap.mem_delete _ _ _).1 hx).2) (fun _ => id)

variable (cfg net)

/-- In every run, given that no peer is inbound and persistent (the listener's peers are not
    persistent) and that `newOutboundPeer` returns a new outbound peer with the requested
    persistence: every key is a peer filed where its flags put it, the three maps are pairwise
    disjoint, `handleDonePeerMsg` leaves its peer in no map, and `handleBroadcastMsg` queues the
    message once on each connected peer that is not excluded and on no other peer. -/
theorem peerMaps_filed_in_every_run {dial : Dial → Prop}
    (hdial : ∀ d, dial d → NewOutboundPeer d ∧ d.result.isSome) {evs : List Event} {s : Server}
    {st : PeerState} (hrun : Run srt cfg net dial evs s st) :
    st.Filed ∧ st.forAllPeers.Nodup ∧
      (∀ p redial newestHeight s' st' effs dials,
        s.handleDonePeerMsg srt net st p redial newestHeight = some (s', st', effs, dials) →
        (∀ d ∈ dials, dial d) → some p ∉ st'.forAllPeers) ∧
      ∀ excludePeers connected, ∃ L, handleBroadcastMsg st excludePeers connected = some L ∧
        ∀ q, L.count q =
          if some q ∈ st.forAllPeers ∧ connected q = true ∧ some q ∉ excludePeers then 1 else 0 := by
  have h := Run.keeps srt cfg net (keeps_filed hdial) (PeerState.Filed.init cfg) hrun
  refine ⟨h, h.nodup, fun p redial _ _ _ _ _ hd hds => ?_, h.handleBroadcastMsg_count⟩
  obtain ⟨rfl, rfl⟩ := Server.handleDonePeerMsg_peerState srt net hd
  exact h.not_mem_donePeerMaps net s p redial fun d hd' => (hdial d (hds d hd')).1

theorem peerMaps_filed_after_redial_remove :
    (∀ d, plainDial d → NewOutboundPeer d ∧ d.result.isSome) ∧
      Run GoSort.insertion ninePeersConfig plainNet plainDial [doneEvent, removeEvent]
        afterRemove.1 afterRemove.2.1 ∧
      afterRemove.2.1.Filed ∧ afterRemove.2.1.forAllPeers.Nodup :=
  have h := peerMaps_filed_in_every_run GoSort.insertion ninePeersConfig plainNet
    (fun _ hd => ⟨hd.1, hd.2.1⟩) run_redial_remove
  ⟨fun _ hd => ⟨hd.1, hd.2.1⟩, run_redial_remove, h.1, h.2.1⟩


/-! ## The address-group counts -/

/-- Whether a key is a peer whose net address is in address group `k`. -/
def inGroup (k : String) (x : Option Peer) : Bool := x.any fun q => net.groupKey q.na == k

/-- A key whose peer's net address has the group `g` gives its address. -/
def Grouped (g : String → String) (x : Option Peer) : Prop := ∀ q ∈ x, net.groupKey q.na = g q.addr

@[simp] theorem inGroup_some (k : String) (q : Peer) :
    inGroup net k (some q) = (net.groupKey q.na == k) := rfl

namespace PeerState

/-- The number of peers `forAllOutboundPeers` visits whose net address is in address group `k`. -/
def groupCount (st : PeerState) (k : String) : Nat := st.forAllOutboundPeers.countP (inGroup net k)

theorem groupCount_eq (st : PeerState) (k : String) : st.groupCount net k =
    st.outboundPeers.keys.countP (inGroup net k) + st.persistentPeers.keys.countP (inGroup net k) :=
  List.countP_append _ _ _

@[simp] theorem addGroup_outboundGroups (st : PeerState) (k k' : String) (d : Int) :
    (st.addGroup k d).outboundGroups k' = st.outboundGroups k' + if k = k' then d else 0 := by
  unfold addGroup
  by_cases hk : k = k'
  · subst hk; simp
  · simp [Function.update_apply, Ne.symm hk, hk]

/-- What keeps `outboundGroups` right: the maps are filed, the group of every outbound peer's net
    address is `g` of its address, and `outboundGroups` holds the group counts. -/
structure GroupsCounted (g : String → String) (st : PeerState) : Prop where
  filed : st.Filed
  outboundGrouped : ∀ x ∈ st.outboundPeers.keys, Grouped net g x
  persistentGrouped : ∀ x ∈ st.persistentPeers.keys, Grouped net g x
  counts : ∀ k, st.outboundGroups k = st.groupCount net k

namespace GroupsCounted

variable {net} {g : String → String} {st st' : PeerState} (h : st.GroupsCounted net g)
include h

theorem reorder (hr : st.Reorder st') : st'.GroupsCounted net g where
  filed := h.filed.reorder hr
  outboundGrouped x hx := h.outboundGrouped x (hr.2.1.mem_iff.2 hx)
  persistentGrouped x hx := h.persistentGrouped x (hr.2.2.1.mem_iff.2 hx)
  counts k := by
    rw [← hr.2.2.2.2.1, h.counts, groupCount_eq, groupCount_eq, List.Perm.countP_eq _ hr.2.1,
      List.Perm.countP_eq _ hr.2.2.1]

theorem file {p : Peer} (hp : p.inbound = false ∨ p.persistent = false)
    (hfresh : some p ∉ st.forAllPeers) (hg : p.inbound = false → Grouped net g (some p)) :
    (st.file net p).GroupsCounted net g := by
  have hf := h.filed.file net hp
  simp only [forAllPeers, forAllOutboundPeers, List.mem_append, not_or] at hfresh
  unfold PeerState.file at hf ⊢
  split_ifs at hf ⊢ with hin hpers
  · exact ⟨hf, h.outboundGrouped, h.persistentGrouped, h.counts⟩
  · refine ⟨hf, h.outboundGrouped,
      PeerMap.forall_mem_insert h.persistentGrouped (hg (by simpa using hin)), fun k => ?_⟩
    simp only [groupCount_eq, addGroup_outboundGroups, addGroup_outboundPeers,
      addGroup_persistentPeers, PeerMap.countP_insert_of_not_mem _ hfresh.2.2, h.counts k, inGroup_some, beq_iff_eq]
    split_ifs <;> push_cast <;> omega
  · refine ⟨hf, PeerMap.forall_mem_insert h.outboundGrouped (hg (by simpa using hin)),
      h.persistentGrouped, fun k => ?_⟩
    simp only [groupCount_eq, addGroup_outboundGroups, addGroup_outboundPeers,
      addGroup_persistentPeers, PeerMap.countP_insert_of_not_mem _ hfresh.2.1, h.counts k, inGroup_some, beq_iff_eq]
    split_ifs <;> push_cast <;> omega

theorem dropPersistent {q : Peer} (hq : some q ∈ st.persistentPeers.keys) :
    ({ st.addGroup (net.groupKey q.na) (-1) with
      persistentPeers := st.persistentPeers.delete (some q) } : PeerState).GroupsCounted net g where
  filed := h.filed.of_subset (fun _ => id) (fun _ => id) fun _ hx => ((PeerMap.mem_delete _ _ _).1 hx).2
  outboundGrouped := h.outboundGrouped
  persistentGrouped x hx := h.persistentGrouped x ((PeerMap.mem_delete _ _ _).1 hx).2
  counts k := by
    have := PeerMap.countP_delete_of_mem (inGroup net k) hq
    simp only [groupCount_eq, addGroup_outboundGroups, addGroup_outboundPeers, h.counts k,
      inGroup_some, beq_iff_eq] at this ⊢
    split_ifs at this ⊢ <;> push_cast <;> omega

theorem dropOutbound {q : Peer} (hq : some q ∈ st.outboundPeers.keys) :
    ({ st.addGroup (net.groupKey q.na) (-1) with
      outboundPeers := st.outboundPeers.delete (some q) } : PeerState).GroupsCounted net g where
  filed := h.filed.of_subset (fun _ => id) (fun _ hx => ((PeerMap.mem_delete _ _ _).1 hx).2) fun _ => id
  outboundGrouped x hx := h.outboundGrouped x ((PeerMap.mem_delete _ _ _).1 hx).2
  persistentGrouped := h.persistentGrouped
  counts k := by
    have := PeerMap.countP_delete_of_mem (inGroup net k) hq
    simp only [groupCount_eq, addGroup_outboundGroups, addGroup_persistentPeers, h.counts k,
      inGroup_some, beq_iff_eq] at this ⊢
    split_ifs at this ⊢ <;> push_cast <;> omega

theorem dropInbound (q : Peer) :
    ({ st with peers := st.peers.delete (some q) } : PeerState).GroupsCounted net g :=
  ⟨h.filed.of_subset (fun _ hx => ((PeerMap.mem_delete _ _ _).1 hx).2) (fun _ => id) (fun _ => id),
    h.outboundGrouped, h.persistentGrouped, h.counts⟩

/-- `handleDonePeerMsg` removing `p` is, in a filed state, one of the removals above. -/
theorem drop {p : Peer} (hp : some p ∈ (st.listFor p).keys) :
    ((if !p.inbound then st.addGroup (net.groupKey p.na) (-1) else st).setListFor p
      ((st.listFor p).delete (some p))).GroupsCounted net g := by
  unfold listFor at hp ⊢
  unfold PeerState.setListFor
  cases hpers : p.persistent <;> cases hin : p.inbound <;> simp only [hpers, hin] at hp ⊢
  · exact h.dropOutbound hp
  · exact h.dropInbound p
  · exact h.dropPersistent hp
  · simpa [hin] using (h.filed.persistentPeers _ hp)

/-- A persistent peer's reconnection: the new peer has the old one's address, hence its group. -/
theorem redial {p : Peer} {r : Option Peer} (hp : some p ∈ (st.listFor p).keys)
    (hpers : p.persistent = true) (hr : FiledAs false true r) (hfresh : ∀ q ∈ r, some q ∉ st.forAllPeers)
    (hrg : Grouped net g r) (haddr : ∀ q ∈ r, q.addr = p.addr) :
    (st.setListFor p (((st.listFor p).delete (some p)).insert r)).GroupsCounted net g := by
  have hf := h.filed.redial hpers hr
  simp only [PeerState.setListFor, listFor, hpers, if_true] at hf hp ⊢
  obtain ⟨q, rfl, -⟩ := hr
  have hq : net.groupKey q.na = net.groupKey p.na := by
    rw [hrg q rfl, haddr q rfl, h.persistentGrouped _ hp p rfl]
  have hnot : some q ∉ (st.persistentPeers.delete (some p)).keys := fun hq' =>
    hfresh q rfl (by simp [forAllPeers, forAllOutboundPeers, ((PeerMap.mem_delete _ _ _).1 hq').2])
  refine ⟨hf, h.outboundGrouped, PeerMap.forall_mem_insert
    (fun x hx => h.persistentGrouped x ((PeerMap.mem_delete _ _ _).1 hx).2) hrg, fun k => ?_⟩
  have := PeerMap.countP_delete_of_mem (inGroup net k) hp
  show st.outboundGroups k = _
  rw [h.counts k]
  congr 1
  simp only [groupCount_eq, PeerMap.countP_insert_of_not_mem _ hnot, inGroup_some, hq] at this ⊢
  omega

end GroupsCounted

end PeerState

variable {cfg net}

/-- Every change keeps `outboundGroups` right when each call of `newOutboundPeer` returns a new
    outbound peer with the requested address and persistence, whose group is `g` of its address. -/
theorem keeps_groupsCounted {g : String → String} {dial : Dial → Prop}
    (hdial : ∀ d, dial d → NewOutboundPeer d ∧ d.result.isSome ∧ Grouped net g d.result) :
    Keeps cfg net dial fun _ st => st.GroupsCounted net g where
  mono h := h
  reorder h hr := h.reorder hr
  ban _ h := ⟨⟨h.filed.peers, h.filed.outboundPeers, h.filed.persistentPeers⟩, h.outboundGrouped,
    h.persistentGrouped, h.counts⟩
  listener h _ hp := h.file (.inr hp.2.1) hp.2.2 fun hin => absurd (hp.1.symm.trans hin) nofun
  dialled {_ st p d} h _ hd hst hp := by
    subst hst
    obtain ⟨hn, -, hg⟩ := hdial d hd
    exact h.file (.inl (hn p hp).2.1) (hn p hp).2.2.2.2 fun _ => hp ▸ hg
  replenished {_ st p d} h _ _ hd hst hp := by
    subst hst
    obtain ⟨hn, -, hg⟩ := hdial d hd
    exact h.file (.inl (hn p hp).2.1) (hn p hp).2.2.2.2 fun _ => hp ▸ hg
  drop h hp := h.drop hp
  redial h hp _ hpers hd := by
    obtain ⟨hn, hs, hg⟩ := hdial _ hd
    exact h.redial hp hpers (hn.filedAs hs) (fun q hq => (hn q hq).2.2.2.2) hg
      fun q hq => (hn q hq).1
  dropPersistent h hq := h.dropPersistent hq
  dropInbound {_ _ q} h _ := h.dropInbound q
  dropOutbound h hq := h.dropOutbound hq

variable (cfg net)

/-- In every run from the empty state, given that `newOutboundPeer` returns a new outbound peer
    with the requested address and persistence and that the group of its net address is a
    function `g` of that address: `outboundGroups[k]` is the number of outbound peers, persistent
    or not, in group `k`, and so it is never negative. -/
theorem outboundGroups_eq_groupCount {g : String → String} {dial : Dial → Prop}
    (hdial : ∀ d, dial d → NewOutboundPeer d ∧ d.result.isSome ∧
      ∀ q ∈ d.result, net.groupKey q.na = g q.addr)
    {evs : List Event} {s : Server} {st : PeerState} (hrun : Run srt cfg net dial evs s st)
    (k : String) : st.outboundGroups k = st.groupCount net k ∧ 0 ≤ st.outboundGroups k := by
  have h := Run.keeps srt cfg net (keeps_groupsCounted hdial)
    ⟨PeerState.Filed.init cfg, nofun, nofun, fun _ => rfl⟩ hrun
  rw [h.counts k]
  exact ⟨rfl, Int.ofNat_nonneg _⟩

theorem outboundGroups_eq_groupCount_after_redial_remove :
    (∀ d, plainDial d → NewOutboundPeer d ∧ d.result.isSome ∧
      ∀ q ∈ d.result, plainNet.groupKey q.na = id q.addr) ∧
      Run GoSort.insertion ninePeersConfig plainNet plainDial [doneEvent, removeEvent]
        afterRemove.1 afterRemove.2.1 ∧
      afterRemove.2.1.outboundGroups "10.0.0.2:8108" =
        afterRemove.2.1.groupCount plainNet "10.0.0.2:8108" ∧
      0 ≤ afterRemove.2.1.outboundGroups "10.0.0.2:8108" :=
  have hdial : ∀ d, plainDial d → NewOutboundPeer d ∧ d.result.isSome ∧
      ∀ q ∈ d.result, plainNet.groupKey q.na = id q.addr := fun _ hd => hd
  ⟨hdial, run_redial_remove, outboundGroups_eq_groupCount GoSort.insertion ninePeersConfig plainNet
    hdial run_redial_remove _⟩

end FactomCode

import FactomCode.Common.Build

set_option autoImplicit false

/-! # Building a chain of credit blocks

A chain is built by one `CreateCBlock(chain, nil, cap)` and then `CreateCBlock(chain, prev, cap)`
on the block made last, with the caller advancing `chain.NextBlockID` after each call and adding
entries to each new block. The repository has no such caller; `CChain.buildBlocks` makes the calls
in that order.

Only the genesis branch of `CreateCBlock` sets `BodyHash`: every later block of the chain has a
nil `BodyHash`, so its `Header.MarshalBinary` stops at that hash, with the nil-hash error where
the hash library reports one, and `BuildMerkleRoot` reads that header when the block is the next
one's `prev` (`CChain.buildBlocks_successors_bodyHash_nil`). The heights are the run
`0, 1, …, n - 1` of `NextBlockID`, for chains of up to `2^32` blocks; the next call finds the
counter wrapped to 0 and fails. -/

namespace FactomCode

variable {Hash : Type} (hc : HashCodec Hash) (hl : HashLib Hash)

/-- Modelled from the spec: the caller that builds a chain, which is not in the repository. Each
    element of the list is one `CreateCBlock(chain, prev, cap)`, on the block made last (nil the
    first time), then `chain.NextBlockID++`, then `AddCBEntry` of the listed entries on the new
    block. The result is the blocks in order, each as the calls left it; an error of
    `CreateCBlock` ends the run. -/
def CChain.buildBlocks (chain : CChain Hash) (cap : Nat) (prev : Option (CBlock Hash)) :
    List (List (CBEntry Hash)) → Option (Except String (List (CBlock Hash)))
  | [] => some (.ok prev.toList)
  | es :: adds =>
    match createCBlock hc hl chain prev cap with
    | none => none
    | some (.error e) => some (.error e)
    | some (.ok (b, prev)) =>
      (CChain.buildBlocks { chain with nextBlockID := chain.nextBlockID + 1 } cap
        (some (es.foldl CBlock.addCBEntry b)) adds).map (Except.map (prev.toList ++ ·))

variable {hc hl}

/-- `AddCBEntry` calls append their entries and touch nothing else. -/
@[simp] theorem CBlock.foldl_addCBEntry (es : List (CBEntry Hash)) (b : CBlock Hash) :
    es.foldl CBlock.addCBEntry b = { b with cbEntries := b.cbEntries ++ es } := by
  induction es generalizing b with
  | nil => simp
  | cons e es ih => simp [ih, CBlock.addCBEntry]

/-- A header with a nil `BodyHash` does not marshal, when a nil hash reports an error: the chain
    ID before it marshals or fails with that same error. -/
theorem CBlockHeader.marshalBinary_of_bodyHash_none {h : CBlockHeader Hash} (hb : h.bodyHash = none)
    {e : String} (he : hc.marshalNil = .error e) : h.marshalBinary hc = .error e := by
  cases hid : h.chainID <;>
    simp [CBlockHeader.marshalBinary, HashCodec.marshalBinary, hid, hb, he, bind, Except.bind]

section Run

variable (cap : Nat)

/-- `CreateCBlock` on the block made last, whose caches are still nil: with a Merkle store that
    is never empty, it returns a block with a nil `BodyHash` at height `NextBlockID`. -/
theorem createCBlock_of_nil_caches (hstore : ∀ x y : Option Hash, hl.buildMerkleTreeStore [x, y] ≠ [])
    {chain : CChain Hash} (hid : chain.nextBlockID ≠ 0) {p : CBlock Hash}
    (hp : p.cbHash = none ∧ p.merkleRoot = none) :
    ∃ root h p', createCBlock hc hl chain (some p) cap =
      some (.ok (chain.newCBlock hl none root (some h), some p')) ∧ p'.header = p.header := by
  obtain ⟨root, hroot⟩ : ∃ root, p.freshMerkleRoot hc hl = some root :=
    Option.ne_none_iff_exists'.1 fun h => hstore _ _ (List.getLast?_eq_none_iff.1 h)
  rw [createCBlock_some_eq hc hl hid (.inl hp.2) (.inl ⟨hp.1, rfl⟩) cap, hroot]
  exact ⟨root, _, _, rfl, rfl⟩

/-- `CreateCBlock(chain, prev, cap)` with `chain.NextBlockID` wrapped to 0 fails. -/
theorem CChain.buildBlocks_origin {chain : CChain Hash} (hid : chain.nextBlockID = 0)
    (p : CBlock Hash) {adds : List (List (CBEntry Hash))} (hadds : adds ≠ []) :
    chain.buildBlocks hc hl cap (some p) adds =
      some (.error "Origin block cannot have a parent block") := by
  obtain ⟨es, adds, rfl⟩ := List.exists_cons_of_ne_nil hadds
  simp [CChain.buildBlocks, createCBlock, hid]

/-- The successor calls, from a block with nil caches at a nonzero `NextBlockID = m`: while the
    counter does not wrap, each call succeeds, the heights run on from `m`, and every new block
    has a nil `BodyHash`; once it wraps, the run fails. -/
theorem CChain.buildBlocks_successors (hstore : ∀ x y : Option Hash, hl.buildMerkleTreeStore [x, y] ≠ []) :
    ∀ (adds : List (List (CBEntry Hash))) (chain : CChain Hash) (p : CBlock Hash),
      chain.nextBlockID ≠ 0 → p.cbHash = none ∧ p.merkleRoot = none →
      (chain.nextBlockID.toNat + adds.length ≤ 2 ^ 32 → ∃ p' bs,
        chain.buildBlocks hc hl cap (some p) adds = some (.ok (p' :: bs)) ∧ p'.header = p.header ∧
          bs.map (·.header.dbHeight) =
            (List.range adds.length).map (fun j => BitVec.ofNat 32 (chain.nextBlockID.toNat + j)) ∧
          ∀ b ∈ bs, b.header.bodyHash = none) ∧
      (2 ^ 32 < chain.nextBlockID.toNat + adds.length →
        chain.buildBlocks hc hl cap (some p) adds =
          some (.error "Origin block cannot have a parent block"))
  | [], chain, p, _, _ => by
    have := chain.nextBlockID.isLt
    exact ⟨fun _ => ⟨p, [], rfl, rfl, rfl, by simp⟩, fun h => by simp at h; omega⟩
  | es :: adds, chain, p, hid, hp => by
    obtain ⟨root, h, p', hcreate, hp'⟩ := createCBlock_of_nil_caches cap hstore hid hp
    have hstep : chain.buildBlocks hc hl cap (some p) (es :: adds) =
        ((CChain.buildBlocks hc hl { chain with nextBlockID := chain.nextBlockID + 1 } cap
          (some (es.foldl CBlock.addCBEntry (chain.newCBlock hl none root (some h)))) adds).map
            (Except.map ([p'] ++ ·))) := by
      rw [CChain.buildBlocks, hcreate]
      rfl
    have hm := chain.nextBlockID.isLt
    rw [hstep]
    by_cases hwrap : chain.nextBlockID.toNat + 1 = 2 ^ 32
    · -- the counter wraps: a last block, or a failed call
      have hzero : chain.nextBlockID + 1 = 0 := by
        apply BitVec.eq_of_toNat_eq
        simp [BitVec.toNat_add, hwrap]
      rcases adds with _ | ⟨es', adds⟩
      · refine ⟨fun _ => ⟨p', [_], rfl, hp', by simp [CChain.newCBlock, List.range_succ],
          by simp [CChain.newCBlock]⟩,
          fun h => by simp at h; omega⟩
      · refine ⟨fun h => by simp at h; omega, fun _ => ?_⟩
        rw [CChain.buildBlocks_origin cap hzero _ (List.cons_ne_nil _ _)]
        rfl
    · -- the counter moves on to `m + 1`
      have hnext : (chain.nextBlockID + 1).toNat = chain.nextBlockID.toNat + 1 := by
        rw [BitVec.toNat_add, show (1 : BitVec 32).toNat = 1 from rfl]
        omega
      obtain ⟨hok, herr⟩ := CChain.buildBlocks_successors hstore adds
        { chain with nextBlockID := chain.nextBlockID + 1 }
        (es.foldl CBlock.addCBEntry (chain.newCBlock hl none root (some h)))
        (fun h0 => by
          have h1 : (chain.nextBlockID + 1).toNat = 0 := congrArg BitVec.toNat h0
          omega)
        (by simp [CChain.newCBlock])
      dsimp only at hok herr
      rw [hnext] at hok herr
      refine ⟨fun hlen => ?_, fun hlen => ?_⟩
      · obtain ⟨q, bs, hrun, hq, hheights, hbody⟩ := hok (by simp at hlen; omega)
        refine ⟨p', q :: bs, by rw [hrun]; rfl, hp', ?_, ?_⟩
        · rw [List.length_cons, List.range_succ_eq_map, List.map_cons, List.map_cons, hq, hheights]
          simp only [List.map_map, CBlock.foldl_addCBEntry, CChain.newCBlock, Nat.add_zero,
            BitVec.ofNat_toNat, BitVec.setWidth_eq, List.cons.injEq, true_and]
          exact List.map_congr_left fun j _ => by simp only [Function.comp_apply]; congr 1; omega
        · simp only [List.mem_cons, forall_eq_or_imp]
          exact ⟨by simp [hq, CChain.newCBlock], hbody⟩
      · rw [herr (by simp at hlen; omega)]
        rfl

/-- The genesis call: `CreateCBlock(chain, nil, cap)` sets all three hashes to `NewHash()`. -/
theorem CChain.buildBlocks_genesis {chain : CChain Hash} (hid : chain.nextBlockID = 0)
    (es : List (CBEntry Hash)) (adds : List (List (CBEntry Hash))) :
    chain.buildBlocks hc hl cap none (es :: adds) =
      (CChain.buildBlocks hc hl { chain with nextBlockID := 1 } cap
        (some (es.foldl CBlock.addCBEntry
          (chain.newCBlock hl (some hl.newHash) (some hl.newHash) (some hl.newHash)))) adds).map
        (Except.map ([] ++ ·)) := by
  simp only [CChain.buildBlocks, createCBlock, hid, ne_eq, not_true_eq_false, if_false]
  rfl

variable (hc hl)

/-- A chain built from `CreateCBlock(chain, nil, cap)` by the caller the spec describes. On a
    chain whose `NextBlockID` is not 0 the first call fails. From `NextBlockID = 0`, with a Merkle
    store that is never empty, chains of up to `2^32` blocks are built, at the heights
    `0, 1, …, n - 1`; but every block after the first has a nil `BodyHash`, so its
    `Header.MarshalBinary` fails with the nil-hash error of the hash library, whatever the
    entries. Past `2^32` blocks `NextBlockID` wraps to 0 and the build fails. -/
theorem CChain.buildBlocks_successors_bodyHash_nil
    (hstore : ∀ x y : Option Hash, hl.buildMerkleTreeStore [x, y] ≠ []) (chain : CChain Hash)
    (adds : List (List (CBEntry Hash))) :
    (chain.nextBlockID ≠ 0 → adds ≠ [] →
      chain.buildBlocks hc hl cap none adds = some (.error "Previous block cannot be nil")) ∧
    (chain.nextBlockID = 0 → adds.length ≤ 2 ^ 32 → ∃ bs,
      chain.buildBlocks hc hl cap none adds = some (.ok bs) ∧
        bs.map (·.header.dbHeight) = (List.range adds.length).map (BitVec.ofNat 32) ∧
        ∀ b ∈ bs.tail, b.header.bodyHash = none ∧
          ∀ e, hc.marshalNil = .error e → b.header.marshalBinary hc = .error e) ∧
    (chain.nextBlockID = 0 → 2 ^ 32 < adds.length →
      chain.buildBlocks hc hl cap none adds =
        some (.error "Origin block cannot have a parent block")) := by
  rcases adds with _ | ⟨es, adds⟩
  · exact ⟨fun _ h => absurd rfl h, fun _ _ => ⟨[], rfl, rfl, by simp⟩, fun _ h => by simp at h⟩
  obtain ⟨hok, herr⟩ := CChain.buildBlocks_successors cap hstore adds { chain with nextBlockID := 1 }
    (es.foldl CBlock.addCBEntry (chain.newCBlock hl (some hl.newHash) (some hl.newHash) (some hl.newHash)))
    (show (1 : BitVec 32) ≠ 0 by decide) (by simp [CChain.newCBlock])
  refine ⟨fun hid _ => by simp only [CChain.buildBlocks, createCBlock, if_pos hid],
    fun hid hlen => ?_, fun hid hlen => ?_⟩
  · obtain ⟨q, bs, hrun, hq, hheights, hbody⟩ := hok (by simp at hlen ⊢; omega)
    refine ⟨q :: bs, by rw [CChain.buildBlocks_genesis cap hid, hrun]; rfl, ?_, fun b hb => ?_⟩
    · rw [List.length_cons, List.range_succ_eq_map, List.map_cons, List.map_cons, hq, hheights]
      simp [CChain.newCBlock, hid, Nat.add_comm]
    · have hnil := hbody b hb
      exact ⟨hnil, fun e he => CBlockHeader.marshalBinary_of_bodyHash_none hnil he⟩
  · rw [CChain.buildBlocks_genesis cap hid, herr (by simp at hlen ⊢; omega)]
    rfl

end Run

/-- A chain with its ID set, at its first block. -/
def genesisChain : CChain { l : Bytes // l.length = 33 } := ⟨some zeroHash, [], 0⟩

/-- The genesis block and one successor with a buy entry: the successor is at height 1 and its
    header fails to marshal with the codec's `"nil hash"`. -/
theorem CChain.buildBlocks_successors_bodyHash_nil_genesisChain :
    (∀ x y, lengthHashLib.buildMerkleTreeStore [x, y] ≠ []) ∧ ∃ bs,
      genesisChain.buildBlocks HashCodec.bytes33 lengthHashLib 0 none [[], [zeroBuyEntry]] =
        some (.ok bs) ∧ bs.map (·.header.dbHeight) = [0, 1] ∧
        ∀ b ∈ bs.tail, b.header.bodyHash = none ∧
          b.header.marshalBinary HashCodec.bytes33 = .error "nil hash" := by
  have hstore : ∀ x y, lengthHashLib.buildMerkleTreeStore [x, y] ≠ [] := fun _ _ => List.cons_ne_nil _ _
  obtain ⟨bs, hrun, hheights, hall⟩ := (CChain.buildBlocks_successors_bodyHash_nil HashCodec.bytes33
    lengthHashLib 0 hstore genesisChain [[], [zeroBuyEntry]]).2.1 rfl (by decide)
  exact ⟨hstore, bs, hrun, hheights, fun b hb => ⟨(hall b hb).1, (hall b hb).2 _ rfl⟩⟩

end FactomCode

import FactomCode.Common.RoundTrip

set_option autoImplicit false

/-! # Building credit blocks: `CreateCBlock` and the two caches of a block

A credit block caches two hashes that are not marshalled: `CBHash`, the `Sha` of the marshalled
block, and `MerkleRoot`, the last node of the Merkle tree over the `Sha` of the header and the
header's `BodyHash`. `BuildCBHash` and `BuildMerkleRoot` fill them unconditionally;
`CreateCBlock(chain, prev, cap)` builds whichever of `prev`'s caches is nil and copies both into
the new block's `PrevHash` and `PrevKeyMR`. Nothing clears a cache: `AddCBEntry` appends to the
entries and leaves `CBHash` as it was.

`BlockOp` is the calls on a block that change its entries or its caches, and `CBlock.applyOps`
runs a sequence of them. No call changes the header, so the Merkle root cache always agrees with
a fresh computation (`MerkleFresh` holds along every run). The `CBHash` cache is the `Sha` of the
block as it was at the last `BuildCBHash`, with the entries `BlockOp.entriesAtLastHash` it had
then (`applyOps_cbHash`). It agrees with a fresh `Sha` when no `AddCBEntry` came after a
`BuildCBHash`, and not in general otherwise. -/

namespace FactomCode

/-- Modelled from the spec: the hash services of package `common` that `cchain.go` calls. Their
    sources (`hash.go`, `merkle.go`) are not in the repository. -/
structure HashLib (Hash : Type) where
  /-- `Sha(data)`, never nil. -/
  sha : Bytes → Hash
  /-- `BuildMerkleTreeStore(hashes)`: the nodes of the tree, the root last; a node may be nil. -/
  buildMerkleTreeStore : List (Option Hash) → List (Option Hash)
  /-- `NewHash()`: a new zero hash. -/
  newHash : Hash

variable {Hash : Type} (hc : HashCodec Hash) (hl : HashLib Hash)

namespace CBlock

/-- `(*CBlock).BuildMerkleRoot`: `merkle[len(merkle)-1]` of the store over the header's `Sha` and
    its `BodyHash`; indexing an empty store panics. -/
def buildMerkleRoot (b : CBlock Hash) : Option (CBlock Hash) := do
  let binaryEBHeader := Except.dataOrNil (b.header.marshalBinary hc)
  let merkle := hl.buildMerkleTreeStore [some (hl.sha binaryEBHeader), b.header.bodyHash]
  let root ← merkle.getLast?
  return { b with merkleRoot := root }

/-- `(*CBlock).BuildCBHash`: the `Sha` of the marshalled block, whatever the cache held. -/
def buildCBHash (b : CBlock Hash) : CBlock Hash :=
  let binaryEB := b.marshalBinary hc
  { b with cbHash := some (hl.sha binaryEB) }

/-- `(*CBlock).BuildCBBodyHash`: the `Sha` of the entries' marshallings written one after another;
    an entry whose `MarshalBinary` fails writes nothing. It never returns an error. -/
def buildCBBodyHash (b : CBlock Hash) : Hash := hl.sha (CBlock.marshalEntries hc b.cbEntries)

/-- `(*CBlock).AddCBEntry`. -/
def addCBEntry (b : CBlock Hash) (e : CBEntry Hash) : CBlock Hash :=
  { b with cbEntries := b.cbEntries ++ [e] }

/-- The Merkle root computed afresh on the block's contents: the last element of
    `BuildMerkleTreeStore([Sha(Header.MarshalBinary()), Header.BodyHash])`, `none` if the store is
    empty. -/
def freshMerkleRoot (b : CBlock Hash) : Option (Option Hash) :=
  (hl.buildMerkleTreeStore
    [some (hl.sha (Except.dataOrNil (b.header.marshalBinary hc))), b.header.bodyHash]).getLast?

/-- The block hash computed afresh on the block's contents: `Sha(MarshalBinary())`. -/
def freshCBHash (b : CBlock Hash) : Hash := hl.sha (b.marshalBinary hc)

/-- The Merkle root cache is nil or agrees with a fresh computation. -/
def MerkleFresh (b : CBlock Hash) : Prop :=
  b.merkleRoot = none ∨ b.freshMerkleRoot hc hl = some b.merkleRoot

/-- The block hash cache is nil or agrees with a fresh computation. -/
def CBHashFresh (b : CBlock Hash) : Prop :=
  b.cbHash = none ∨ b.cbHash = some (b.freshCBHash hc hl)

theorem buildMerkleRoot_eq (b : CBlock Hash) :
    b.buildMerkleRoot hc hl = (b.freshMerkleRoot hc hl).map fun root => { b with merkleRoot := root } := by
  simp only [buildMerkleRoot, freshMerkleRoot]
  cases (hl.buildMerkleTreeStore _).getLast? <;> rfl

@[simp] theorem buildCBHash_eq (b : CBlock Hash) :
    b.buildCBHash hc hl = { b with cbHash := some (b.freshCBHash hc hl) } :=
  rfl

/-- The marshalled block reads only the header and the entries. -/
@[simp] theorem marshalBinary_caches (b : CBlock Hash) (h m : Option Hash) :
    CBlock.marshalBinary hc { b with cbHash := h, merkleRoot := m } = b.marshalBinary hc :=
  rfl

end CBlock

/-- The block `CreateCBlock` allocates, given the `BodyHash`, `PrevKeyMR` and `PrevHash` that its
    branch sets: an empty, unsealed block at height `NextBlockID` with nil caches. -/
def CChain.newCBlock (chain : CChain Hash) (bodyHash prevKeyMR prevHash : Option Hash) :
    CBlock Hash where
  header :=
    { chainID := chain.chainID, bodyHash, prevKeyMR, prevHash, dbHeight := chain.nextBlockID,
      segmentsMR := some hl.newHash, balanceMR := some hl.newHash, bodySize := 0 }
  cbEntries := []
  cbHash := none
  merkleRoot := none
  isSealed := false

/-- `CreateCBlock(chain, prev, cap)`: the new block, and `prev` as the call leaves it, with
    whichever of its caches was nil built. `none` is the panic of `BuildMerkleRoot`; `cap` is only
    the capacity of the empty entry slice. -/
def createCBlock (chain : CChain Hash) (prev : Option (CBlock Hash)) (_cap : Nat) :
    Option (Except String (CBlock Hash × Option (CBlock Hash))) :=
  match prev with
  | none =>
    if chain.nextBlockID ≠ 0 then some (.error "Previous block cannot be nil")
    else some (.ok (chain.newCBlock hl (some hl.newHash) (some hl.newHash) (some hl.newHash), none))
  | some prev =>
    if chain.nextBlockID = 0 then some (.error "Origin block cannot have a parent block")
    else do
      let prev ← if prev.merkleRoot.isNone then prev.buildMerkleRoot hc hl else some prev
      let prev := if prev.cbHash.isNone then prev.buildCBHash hc hl else prev
      return .ok (chain.newCBlock hl none prev.merkleRoot prev.cbHash, some prev)

/-! ## Calls on a block -/

/-- The calls on a block that change its entries or its caches. -/
inductive BlockOp (Hash : Type)
  | addCBEntry (e : CBEntry Hash)
  | buildCBHash
  | buildMerkleRoot

namespace BlockOp

/-- One call; `none` is a panic of `BuildMerkleRoot`. -/
def apply : BlockOp Hash → CBlock Hash → Option (CBlock Hash)
  | .addCBEntry e, b => some (b.addCBEntry e)
  | .buildCBHash, b => some (b.buildCBHash hc hl)
  | .buildMerkleRoot, b => b.buildMerkleRoot hc hl

/-- Whether the call is an `AddCBEntry`. -/
def isAddCBEntry : BlockOp Hash → Bool
  | .addCBEntry _ => true
  | _ => false

/-- The entries of the block when the last `BuildCBHash` of `ops` ran, on a block that starts with
    the entries `es`; `none` if `ops` has no `BuildCBHash`. -/
def entriesAtLastHash : List (CBEntry Hash) → List (BlockOp Hash) → Option (List (CBEntry Hash))
  | _, [] => none
  | es, .addCBEntry e :: ops => entriesAtLastHash (es ++ [e]) ops
  | es, .buildCBHash :: ops => some ((entriesAtLastHash es ops).getD es)
  | es, .buildMerkleRoot :: ops => entriesAtLastHash es ops

/-- Whether an `AddCBEntry` comes after a `BuildCBHash` in the sequence. -/
def addsAfterHash : List (BlockOp Hash) → Bool
  | [] => false
  | .buildCBHash :: ops => ops.any isAddCBEntry
  | _ :: ops => addsAfterHash ops

end BlockOp

/-- A sequence of calls on the block, in order. -/
def CBlock.applyOps (b : CBlock Hash) : List (BlockOp Hash) → Option (CBlock Hash)
  | [] => some b
  | op :: ops => (op.apply hc hl b).bind fun b => CBlock.applyOps b ops

namespace BlockOp

variable {hc hl}

/-- What one call can do: append an entry, cache a fresh block hash, or cache a fresh Merkle root
    (when the store is not empty). -/
theorem apply_eq_some {op : BlockOp Hash} {b b' : CBlock Hash} (h : op.apply hc hl b = some b') :
    (∃ e, op = .addCBEntry e ∧ b' = b.addCBEntry e) ∨
      (op = .buildCBHash ∧ b' = { b with cbHash := some (b.freshCBHash hc hl) }) ∨
      (op = .buildMerkleRoot ∧ ∃ root, b.freshMerkleRoot hc hl = some root ∧
        b' = { b with merkleRoot := root }) := by
  cases op with
  | addCBEntry e => exact .inl ⟨e, rfl, (Option.some.inj h).symm⟩
  | buildCBHash => exact .inr (.inl ⟨rfl, (Option.some.inj h).symm⟩)
  | buildMerkleRoot =>
    obtain ⟨root, hroot, rfl⟩ := Option.map_eq_some'.1 ((CBlock.buildMerkleRoot_eq hc hl b).symm.trans h)
    exact .inr (.inr ⟨rfl, root, hroot, rfl⟩)

end BlockOp

namespace CBlock

variable {hc hl}

/-- An invariant that every call keeps holds after every sequence of calls. -/
theorem applyOps_induction (P : CBlock Hash → Prop)
    (step : ∀ (op : BlockOp Hash) b b', op.apply hc hl b = some b' → P b → P b') :
    ∀ {b b' : CBlock Hash} {ops : List (BlockOp Hash)}, b.applyOps hc hl ops = some b' → P b → P b'
  | _, _, [], h, hb => Option.some.inj h ▸ hb
  | b, _, op :: ops, h, hb => by
    obtain ⟨c, hc', hrest⟩ := Option.bind_eq_some.1 h
    exact applyOps_induction P step hrest (step op b c hc' hb)

/-- No call changes the header. -/
theorem applyOps_header {b b' : CBlock Hash} {ops : List (BlockOp Hash)}
    (h : b.applyOps hc hl ops = some b') : b'.header = b.header :=
  applyOps_induction (fun c => c.header = b.header)
    (fun _ _ _ hop hc' => by
      rcases BlockOp.apply_eq_some hop with ⟨_, -, rfl⟩ | ⟨-, rfl⟩ | ⟨-, _, -, rfl⟩ <;> exact hc')
    h rfl

/-- Every sequence of calls keeps the Merkle root cache fresh: no call changes the header. -/
theorem applyOps_merkleFresh {b b' : CBlock Hash} {ops : List (BlockOp Hash)}
    (h : b.applyOps hc hl ops = some b') (hb : b.MerkleFresh hc hl) : b'.MerkleFresh hc hl :=
  applyOps_induction (MerkleFresh hc hl)
    (fun _ c _ hop hc' => by
      rcases BlockOp.apply_eq_some hop with ⟨_, -, rfl⟩ | ⟨-, rfl⟩ | ⟨-, root, hroot, rfl⟩
      · exact hc'
      · exact hc'
      · exact .inr hroot)
    h hb

/-- The block hash reads only the header and the entries. -/
theorem freshCBHash_congr {b c : CBlock Hash} (hh : b.header = c.header)
    (he : b.cbEntries = c.cbEntries) : b.freshCBHash hc hl = c.freshCBHash hc hl := by
  simp only [freshCBHash, CBlock.marshalBinary, hh, he]

/-- After a sequence of calls the block hash cache is the `Sha` of the block as it was at the last
    `BuildCBHash`, or what it held before when there was none. -/
theorem applyOps_cbHash {b p : CBlock Hash} {ops : List (BlockOp Hash)}
    (hp : b.applyOps hc hl ops = some p) :
    p.cbHash = ((BlockOp.entriesAtLastHash b.cbEntries ops).map fun es =>
      { b with cbEntries := es }.freshCBHash hc hl).or b.cbHash := by
  induction ops generalizing b with
  | nil => cases hp; rfl
  | cons op ops ih =>
    obtain ⟨c, hop, hrest⟩ := Option.bind_eq_some.1 hp
    rcases BlockOp.apply_eq_some hop with ⟨e, rfl, rfl⟩ | ⟨rfl, rfl⟩ | ⟨rfl, root, -, rfl⟩
    · exact ih hrest
    · rw [ih hrest, BlockOp.entriesAtLastHash]
      cases BlockOp.entriesAtLastHash b.cbEntries ops <;> rfl
    · exact (ih hrest :)

/-- Calls other than `AddCBEntry` keep the block hash cache fresh. -/
theorem applyOps_cbHashFresh_of_no_add {b b' : CBlock Hash} {ops : List (BlockOp Hash)}
    (h : b.applyOps hc hl ops = some b') (hops : ops.any BlockOp.isAddCBEntry = false)
    (hb : b.CBHashFresh hc hl) : b'.CBHashFresh hc hl := by
  induction ops generalizing b with
  | nil => exact Option.some.inj h ▸ hb
  | cons op ops ih =>
    obtain ⟨c, hop, hrest⟩ := Option.bind_eq_some.1 h
    simp only [List.any_cons, Bool.or_eq_false_iff] at hops
    refine ih hrest hops.2 ?_
    rcases BlockOp.apply_eq_some hop with ⟨e, rfl, -⟩ | ⟨-, rfl⟩ | ⟨-, root, -, rfl⟩
    · simp [BlockOp.isAddCBEntry] at hops
    · exact .inr rfl
    · exact hb

/-- From a nil block hash cache, a sequence of calls with no `AddCBEntry` after a `BuildCBHash`
    leaves the cache nil or fresh. -/
theorem applyOps_cbHashFresh {b b' : CBlock Hash} {ops : List (BlockOp Hash)}
    (h : b.applyOps hc hl ops = some b') (hops : BlockOp.addsAfterHash ops = false)
    (hb : b.cbHash = none) : b'.CBHashFresh hc hl := by
  induction ops generalizing b with
  | nil => exact .inl (Option.some.inj h ▸ hb)
  | cons op ops ih =>
    obtain ⟨c, hop, hrest⟩ := Option.bind_eq_some.1 h
    rcases BlockOp.apply_eq_some hop with ⟨e, rfl, rfl⟩ | ⟨rfl, rfl⟩ | ⟨rfl, root, -, rfl⟩
    · exact ih hrest hops hb
    · exact applyOps_cbHashFresh_of_no_add hrest hops (.inr rfl)
    · exact ih hrest hops hb

/-- `CreateCBlock`'s `if prev.CBHash == nil { prev.BuildCBHash() }` on a cache that is nil, with
    `es` the entries, or the hash of the block with entries `es`: the cache ends up that hash. -/
theorem buildCBHash_if_nil_eq {q : CBlock Hash} {es : List (CBEntry Hash)}
    (hh : q.cbHash = none ∧ es = q.cbEntries ∨
      q.cbHash = some ({ q with cbEntries := es }.freshCBHash hc hl)) :
    (if q.cbHash.isNone then q.buildCBHash hc hl else q) =
      { q with cbHash := some ({ q with cbEntries := es }.freshCBHash hc hl) } := by
  rcases hh with ⟨h, rfl⟩ | h
  · simp only [h, Option.isNone_none, if_true, buildCBHash_eq]
    rfl
  · obtain ⟨hd, es', cb, mr, sealed⟩ := q
    dsimp only at h ⊢
    conv_lhs => rw [h]
    rfl

end CBlock

/-- `CreateCBlock` on a non-nil `prev` whose Merkle root cache is fresh, and whose block hash
    cache is nil (with `es` its entries) or the hash of `prev` with entries `es`: the new block
    links the fresh Merkle root and that hash, and `prev` keeps them. -/
theorem createCBlock_some_eq {chain : CChain Hash} (hid : chain.nextBlockID ≠ 0) {p : CBlock Hash}
    (hm : p.MerkleFresh hc hl) {es : List (CBEntry Hash)}
    (hh : p.cbHash = none ∧ es = p.cbEntries ∨
      p.cbHash = some ({ p with cbEntries := es }.freshCBHash hc hl))
    (cap : Nat) :
    createCBlock hc hl chain (some p) cap = (p.freshMerkleRoot hc hl).map fun root =>
      .ok (chain.newCBlock hl none root (some ({ p with cbEntries := es }.freshCBHash hc hl)),
        some { p with
          merkleRoot := root, cbHash := some ({ p with cbEntries := es }.freshCBHash hc hl) }) := by
  simp only [createCBlock, hid, if_false]
  split_ifs with hn
  · rw [CBlock.buildMerkleRoot_eq]
    cases p.freshMerkleRoot hc hl with
    | none => rfl
    | some root =>
      simp only [Option.map_some', Option.bind_eq_bind, Option.some_bind, Option.pure_def]
      rw [CBlock.buildCBHash_if_nil_eq (q := { p with merkleRoot := root }) hh]
      rfl
  · have hroot : p.freshMerkleRoot hc hl = some p.merkleRoot :=
      hm.resolve_left (by simpa using hn)
    simp only [hroot, Option.map_some', Option.bind_eq_bind, Option.some_bind, Option.pure_def]
    rw [CBlock.buildCBHash_if_nil_eq hh]


/-- What `CreateCBlock` links, for every sequence of `AddCBEntry`, `BuildCBHash` and
    `BuildMerkleRoot` calls on a block whose caches start nil, as `CreateCBlock` and a new block's
    `UnmarshalBinary` leave them. `PrevKeyMR` is the Merkle root of `prev` computed afresh.
    `PrevHash` is the `Sha` of `prev` as it was at its last `BuildCBHash` (as it is, when there was
    none): it is the `Sha` of `prev` as it is whenever no `AddCBEntry` came after a `BuildCBHash`,
    but entries added after the hash was built are not covered by it. -/
theorem createCBlock_links_last_hashed {chain : CChain Hash} (hid : chain.nextBlockID ≠ 0)
    {b p : CBlock Hash} (hb : b.cbHash = none ∧ b.merkleRoot = none) {ops : List (BlockOp Hash)}
    (hp : b.applyOps hc hl ops = some p) (cap : Nat) :
    let hashed := { p with
      cbEntries := (BlockOp.entriesAtLastHash b.cbEntries ops).getD p.cbEntries }.freshCBHash hc hl
    createCBlock hc hl chain (some p) cap = (p.freshMerkleRoot hc hl).map (fun root =>
        .ok (chain.newCBlock hl none root (some hashed),
          some { p with merkleRoot := root, cbHash := some hashed })) ∧
      (BlockOp.addsAfterHash ops = false → hashed = p.freshCBHash hc hl) := by
  intro hashed
  have hcache := CBlock.applyOps_cbHash hp
  rw [hb.1] at hcache
  have hh : p.cbHash = none ∧
      (BlockOp.entriesAtLastHash b.cbEntries ops).getD p.cbEntries = p.cbEntries ∨
      p.cbHash = some hashed := by
    cases hE : BlockOp.entriesAtLastHash b.cbEntries ops with
    | none => exact .inl ⟨by simpa [hE] using hcache, rfl⟩
    | some es =>
      refine .inr (hcache.trans ?_)
      simp only [hE, Option.map_some', Option.or_some, hashed, Option.getD_some]
      exact congrArg some (CBlock.freshCBHash_congr (CBlock.applyOps_header hp).symm rfl)
  refine ⟨createCBlock_some_eq hc hl hid (CBlock.applyOps_merkleFresh hp (.inl hb.2)) hh cap,
    fun hadd => ?_⟩
  rcases hh with ⟨-, he⟩ | hsome
  · exact CBlock.freshCBHash_congr rfl he
  · rcases CBlock.applyOps_cbHashFresh hp hadd hb.1 with hnone | hfresh
    · simp [hnone] at hsome
    · exact Option.some.inj (hsome.symm.trans hfresh)

/-- A `Sha` that tells byte strings of different lengths apart: the length in 33 big-endian
    bytes. The Merkle store is the two leaves alone. -/
def lengthHashLib : HashLib { l : Bytes // l.length = 33 } where
  sha d := ⟨Bytes.putBE 33 d.length, Bytes.length_putBE 33 _⟩
  buildMerkleTreeStore hashes := hashes
  newHash := zeroHash

/-- The all-zero header of `oneOfEachBlock`, no entries, nil caches. -/
def emptyZeroBlock : CBlock { l : Bytes // l.length = 33 } :=
  ⟨oneOfEachBlock.header, [], none, none, false⟩

/-- A buy entry with zero hashes. -/
def zeroBuyEntry : CBEntry { l : Bytes // l.length = 33 } :=
  .buy (newBuyCBEntry (some zeroHash) (some zeroHash) 5)

/-- `BuildCBHash`, then `AddCBEntry`. -/
def hashThenAdd : List (BlockOp { l : Bytes // l.length = 33 }) :=
  [.buildCBHash, .addCBEntry zeroBuyEntry]

/-- `emptyZeroBlock` after `hashThenAdd`. -/
def hashedThenAdded : CBlock { l : Bytes // l.length = 33 } :=
  (emptyZeroBlock.buildCBHash HashCodec.bytes33 lengthHashLib).addCBEntry zeroBuyEntry

/-- A chain whose next block is its second. -/
def secondBlockChain : CChain { l : Bytes // l.length = 33 } := ⟨some zeroHash, [], 1⟩

/-- A block hashed while empty and then given an entry: its successor's `PrevHash` is the `Sha` of
    the empty block, not the `Sha` of the block it links. -/
theorem createCBlock_links_last_hashed_hashThenAdd :
    emptyZeroBlock.applyOps HashCodec.bytes33 lengthHashLib hashThenAdd = some hashedThenAdded ∧
      (createCBlock HashCodec.bytes33 lengthHashLib secondBlockChain (some hashedThenAdded) 0).map
          (Except.map fun r => r.1.header.prevHash) =
        some (.ok (some (emptyZeroBlock.freshCBHash HashCodec.bytes33 lengthHashLib))) ∧
      emptyZeroBlock.freshCBHash HashCodec.bytes33 lengthHashLib ≠
        hashedThenAdded.freshCBHash HashCodec.bytes33 lengthHashLib := by
  refine ⟨rfl, ?_, fun h => ?_⟩
  · rw [(@createCBlock_links_last_hashed _ HashCodec.bytes33 lengthHashLib secondBlockChain
      (by decide) emptyZeroBlock hashedThenAdded ⟨rfl, rfl⟩ hashThenAdd rfl 0).1]
    rfl
  · have hhead : emptyZeroBlock.header.HashesSet := by
      simp [emptyZeroBlock, oneOfEachBlock, CBlockHeader.HashesSet]
    have hlen := congrArg (fun x => Bytes.getBE x.1) h
    change Bytes.getBE (Bytes.putBE 33 _) = Bytes.getBE (Bytes.putBE 33 _) at hlen
    rw [Bytes.getBE_putBE, Bytes.getBE_putBE,
      CBlock.marshalBinary_length _ emptyZeroBlock hhead (by simp [emptyZeroBlock]),
      CBlock.marshalBinary_length _ hashedThenAdded hhead (by simp [hashedThenAdded, CBlock.addCBEntry,
        zeroBuyEntry, emptyZeroBlock, CBEntry.HashesSet, newBuyCBEntry])] at hlen
    exact absurd hlen (by decide)

/-! ## The body hash -/

/-- `BuildCBBodyHash` hashes exactly the bytes that `MarshalBinary` writes after the header and the
    entry count: the body of the marshalled block. -/
theorem CBlock.buildCBBodyHash_eq_sha_body (b : CBlock Hash) (hh : b.header.HashesSet) :
    b.buildCBBodyHash hc hl =
      hl.sha ((b.marshalBinary hc).drop (b.header.marshalledSize hc + 8)) := by
  obtain ⟨d, hd, hlen, -⟩ := b.header.marshalBinary_spec hc hh
  have hpre : (d ++ Bytes.putWord 8 (BitVec.ofNat 64 b.cbEntries.length)).length =
      b.header.marshalledSize hc + 8 := by
    simp [hlen]
  rw [b.marshalBinary_eq hc hd, List.drop_left' hpre]
  rfl

theorem CBlock.buildCBBodyHash_eq_sha_body_oneOfEach :
    oneOfEachBlock.header.HashesSet ∧
      oneOfEachBlock.buildCBBodyHash HashCodec.bytes33 lengthHashLib =
        lengthHashLib.sha ((oneOfEachBlock.marshalBinary HashCodec.bytes33).drop
          (oneOfEachBlock.header.marshalledSize HashCodec.bytes33 + 8)) := by
  have hh : oneOfEachBlock.header.HashesSet := by simp [oneOfEachBlock, CBlockHeader.HashesSet]
  exact ⟨hh, CBlock.buildCBBodyHash_eq_sha_body _ _ _ hh⟩

end FactomCode

import FactomCode.Common.CChain

set_option autoImplicit false

/-! # Sizes and round trips of the credit-chain codecs

`CBlock.UnmarshalBinary` advances its cursor by the header's and each entry's `MarshalledSize`, so
the decoder is only right if every `MarshalledSize` agrees with the length of what
`MarshalBinary` writes. This file proves that agreement for every type of `cchain.go`, and the
round trips of the block and chain codecs built on it.

Each type gets one spec lemma (`*.marshalBinary_spec`): when its hash fields are non-nil it
marshals without error, to exactly `MarshalledSize` bytes, which its decoder reads back from the
front of any longer input. From these: `marshalBinary_length_eq_marshalledSize` (every size agrees
with what is written), `CBlock.unmarshalBinary_marshalBinary`,
`CBInfo.unmarshalBinary_marshalBinary_append` and
`CChain.unmarshalBinary_marshalBinary_chainID_name` (the round trips). -/

namespace FactomCode

variable {Hash : Type} (hc : HashCodec Hash)

/-! ## Well-formed values -/

/-- Every hash field of the header is non-nil. -/
def CBlockHeader.HashesSet (b : CBlockHeader Hash) : Prop :=
  b.chainID.isSome ∧ b.bodyHash.isSome ∧ b.prevKeyMR.isSome ∧ b.prevHash.isSome ∧
    b.segmentsMR.isSome ∧ b.balanceMR.isSome

/-- Every hash field of the entry is non-nil. -/
def CBEntry.HashesSet : CBEntry Hash → Prop
  | .buy e => e.publicKey.isSome ∧ e.factomTxHash.isSome
  | .payEntry e => e.publicKey.isSome ∧ e.entryHash.isSome
  | .payChain e => e.publicKey.isSome ∧ e.entryHash.isSome ∧ e.chainIDHash.isSome ∧
      e.entryChainIDHash.isSome

/-- The entry carries the type byte its constructor (`NewBuyCBEntry`, `NewPayEntryCBEntry`,
    `NewPayChainCBEntry`) sets, and its signature length fits the `uint32` it is written as. -/
def CBEntry.Decodable : CBEntry Hash → Prop
  | .buy e => e.entryType = typeBuy
  | .payEntry e => e.entryType = typePayEntry ∧ e.sig.length < 2 ^ 32
  | .payChain e => e.entryType = typePayChain ∧ e.sig.length < 2 ^ 32

@[simp] theorem Except.dataOrNil_ok (d : Bytes) : Except.dataOrNil (.ok d) = d := rfl

/-! ## Entries -/

/-- A credit entry with non-nil hashes marshals to `MarshalledSize` bytes; if it is also
    decodable, the entry step of the block decoder reads it back from any longer input. -/
theorem CBEntry.marshalBinary_spec (e : CBEntry Hash) (hs : e.HashesSet) :
    ∃ d, e.marshalBinary hc = .ok d ∧ d.length = e.marshalledSize hc ∧
      (e.Decodable → ∀ t, CBlock.unmarshalEntry hc (d ++ t) = some e) := by
  cases e with
  | buy e =>
    obtain ⟨ty, pk, c, fh⟩ := e
    obtain ⟨⟨pk, rfl⟩, ⟨fh, rfl⟩⟩ := by simpa only [HashesSet, Option.isSome_iff_exists] using hs
    refine ⟨_, rfl, by simp [CBEntry.marshalledSize, BuyCBEntry.marshalledSize], fun hd t => ?_⟩
    simp only [Decodable] at hd
    subst hd
    simp only [CBlock.unmarshalEntry, BuyCBEntry.unmarshalBinary, List.cons_append, List.append_assoc,
      List.head?_cons, Bytes.sliceFrom_cons_one, some_bind_do, HashCodec.readHash_marshal,
      Bytes.readWord_putWord, HashCodec.unmarshal_marshal, Option.map_some', Option.pure_def,
      List.singleton_append, List.nil_append, Nat.reduceMul, reduceIte]
  | payEntry e =>
    obtain ⟨ty, pk, c, eh, ts, sig⟩ := e
    obtain ⟨⟨pk, rfl⟩, ⟨eh, rfl⟩⟩ := by simpa only [HashesSet, Option.isSome_iff_exists] using hs
    refine ⟨_, rfl, by
      simp only [CBEntry.marshalledSize, PayEntryCBEntry.marshalledSize, HashCodec.marshalledSize_some,
        List.length_append, List.length_singleton, HashCodec.marshal_length, Bytes.length_putWord], fun hd t => ?_⟩
    obtain ⟨rfl, hsig⟩ := hd
    have hmod : sig.length % 4294967296 = sig.length := Nat.mod_eq_of_lt hsig
    simp only [CBlock.unmarshalEntry, PayEntryCBEntry.unmarshalBinary, typeBuy, typePayChain,
      typePayEntry, List.cons_append, List.append_assoc, List.head?_cons, Bytes.sliceFrom_cons_one,
      some_bind_do, HashCodec.readHash_marshal, Bytes.readWord_putWord, BitVec.toNat_ofNat, hmod,
      Bytes.sliceTo_append, Option.map_some', Option.pure_def, List.singleton_append, List.nil_append,
      BitVec.ofNat_eq_ofNat, Nat.reducePow, Nat.reduceMul, BitVec.reduceEq, reduceIte]
  | payChain e =>
    obtain ⟨ty, pk, c, eh, ch, ech, sig⟩ := e
    obtain ⟨⟨pk, rfl⟩, ⟨eh, rfl⟩, ⟨ch, rfl⟩, ⟨ech, rfl⟩⟩ := by
      simpa only [HashesSet, Option.isSome_iff_exists] using hs
    refine ⟨_, rfl, by
      simp only [CBEntry.marshalledSize, PayChainCBEntry.marshalledSize, HashCodec.marshalledSize_some,
        List.length_append, List.length_singleton, HashCodec.marshal_length, Bytes.length_putWord], fun hd t => ?_⟩
    obtain ⟨rfl, hsig⟩ := hd
    have hmod : sig.length % 4294967296 = sig.length := Nat.mod_eq_of_lt hsig
    simp only [CBlock.unmarshalEntry, PayChainCBEntry.unmarshalBinary, typeBuy, typePayChain,
      List.cons_append, List.append_assoc, List.head?_cons, Bytes.sliceFrom_cons_one,
      some_bind_do, HashCodec.readHash_marshal, Bytes.readWord_putWord, BitVec.toNat_ofNat, hmod,
      Bytes.sliceTo_append, Option.map_some', Option.pure_def, List.singleton_append, List.nil_append,
      BitVec.ofNat_eq_ofNat, Nat.reducePow, Nat.reduceMul, BitVec.reduceEq, reduceIte]

theorem CBlock.marshalEntries_length (es : List (CBEntry Hash)) (hs : ∀ e ∈ es, e.HashesSet) :
    (CBlock.marshalEntries hc es).length = (es.map (CBEntry.marshalledSize hc)).sum := by
  induction es with
  | nil => rfl
  | cons e es ih =>
    obtain ⟨d, hd, hlen, -⟩ := e.marshalBinary_spec hc (hs e (List.mem_cons_self e es))
    simp [CBlock.marshalEntries, hd, hlen, ih fun e he => hs e (List.mem_cons_of_mem _ he)]

/-- The entry loop of the block decoder reads back a marshalled list of decodable entries. -/
theorem CBlock.unmarshalEntries_marshalEntries (es : List (CBEntry Hash))
    (hs : ∀ e ∈ es, e.HashesSet ∧ e.Decodable) (t : Bytes) :
    CBlock.unmarshalEntries hc es.length (CBlock.marshalEntries hc es ++ t) = some es := by
  induction es with
  | nil => rfl
  | cons e es ih =>
    obtain ⟨hse, hde⟩ := hs e (List.mem_cons_self e es)
    obtain ⟨d, hd, hlen, hdec⟩ := e.marshalBinary_spec hc hse
    have hrest := ih fun e he => hs e (List.mem_cons_of_mem _ he)
    simp only [CBlock.marshalEntries, hd, Except.dataOrNil_ok, List.length_cons,
      CBlock.unmarshalEntries, List.append_assoc, hdec hde, some_bind_do,
      Bytes.sliceFrom_append_of_length _ hlen, hrest, Option.pure_def]

/-! ## Headers and blocks -/

/-- A header with non-nil hashes marshals to `MarshalledSize` bytes that decode back to it. -/
theorem CBlockHeader.marshalBinary_spec (b : CBlockHeader Hash) (hs : b.HashesSet) :
    ∃ d, b.marshalBinary hc = .ok d ∧ d.length = b.marshalledSize hc ∧
      ∀ t, CBlockHeader.unmarshalBinary hc (d ++ t) = some b := by
  obtain ⟨ci, bh, pk, ph, db, sm, bm, bs⟩ := b
  obtain ⟨⟨ci, rfl⟩, ⟨bh, rfl⟩, ⟨pk, rfl⟩, ⟨ph, rfl⟩, ⟨sm, rfl⟩, ⟨bm, rfl⟩⟩ := by
    simpa only [HashesSet, Option.isSome_iff_exists] using hs
  exact ⟨_, rfl, by simp [CBlockHeader.marshalledSize],
    fun t => by
      simp only [CBlockHeader.unmarshalBinary, List.append_assoc, HashCodec.readHash_marshal,
        some_bind_do, Bytes.readWord_putWord, Nat.reduceMul, Option.pure_def]⟩

/-- The block's `MarshalBinary` output, spelled out for a header with non-nil hashes. -/
theorem CBlock.marshalBinary_eq (b : CBlock Hash) {d : Bytes}
    (hd : b.header.marshalBinary hc = .ok d) :
    b.marshalBinary hc =
      d ++ Bytes.putWord 8 (BitVec.ofNat 64 b.cbEntries.length) ++
        CBlock.marshalEntries hc b.cbEntries := by
  simp [CBlock.marshalBinary, hd]

theorem CBlock.marshalBinary_length (b : CBlock Hash) (hh : b.header.HashesSet)
    (he : ∀ e ∈ b.cbEntries, e.HashesSet) :
    (b.marshalBinary hc).length = b.marshalledSize hc := by
  obtain ⟨d, hd, hlen, -⟩ := b.header.marshalBinary_spec hc hh
  simp [b.marshalBinary_eq hc hd, hlen, CBlock.marshalledSize, CBlock.marshalEntries_length hc _ he]
  omega

/-- Round trip of the credit-block codec: a block whose header hashes are non-nil and whose
    entries are well formed decodes, from its marshalling followed by any bytes, to its own header
    and entry list; the receiver's unmarshalled fields are kept. `len(b.CBEntries) < 2^64` holds of
    every Go slice. -/
theorem CBlock.unmarshalBinary_marshalBinary (r b : CBlock Hash) (hh : b.header.HashesSet)
    (he : ∀ e ∈ b.cbEntries, e.HashesSet ∧ e.Decodable) (hn : b.cbEntries.length < 2 ^ 64)
    (t : Bytes) :
    CBlock.unmarshalBinary hc r (b.marshalBinary hc ++ t) =
      some { r with header := b.header, cbEntries := b.cbEntries } := by
  obtain ⟨d, hd, hlen, hdec⟩ := b.header.marshalBinary_spec hc hh
  have hcount : (BitVec.ofNat 64 b.cbEntries.length).toNat = b.cbEntries.length := by
    rw [BitVec.toNat_ofNat]; exact Nat.mod_eq_of_lt hn
  simp only [b.marshalBinary_eq hc hd, CBlock.unmarshalBinary, List.append_assoc, hdec,
    some_bind_do, Bytes.sliceFrom_append_of_length _ hlen, Bytes.readWord_putWord,
    hcount, CBlock.unmarshalEntries_marshalEntries hc _ he, Option.pure_def]

/-- A 33-byte hash of zeros, under the identity codec `HashCodec.bytes33`. -/
def zeroHash : { l : Bytes // l.length = 33 } := ⟨List.replicate 33 0, rfl⟩

/-- A block with one entry of each kind, all hashes zero. -/
def oneOfEachBlock : CBlock { l : Bytes // l.length = 33 } :=
  ⟨⟨some zeroHash, some zeroHash, some zeroHash, some zeroHash, 7, some zeroHash, some zeroHash, 9⟩,
    [.buy (newBuyCBEntry (some zeroHash) (some zeroHash) 5),
      .payEntry (newPayEntryCBEntry (some zeroHash) (some zeroHash) 1 2 [1, 2]),
      .payChain (newPayChainCBEntry (some zeroHash) (some zeroHash) 3 (some zeroHash)
        (some zeroHash) [])], none, none, false⟩

theorem CBlock.unmarshalBinary_marshalBinary_oneOfEach :
    oneOfEachBlock.header.HashesSet ∧
      (∀ e ∈ oneOfEachBlock.cbEntries, e.HashesSet ∧ e.Decodable) ∧
      oneOfEachBlock.cbEntries.length < 2 ^ 64 ∧
      CBlock.unmarshalBinary HashCodec.bytes33 oneOfEachBlock
          (oneOfEachBlock.marshalBinary HashCodec.bytes33 ++ [0]) =
        some { oneOfEachBlock with
          header := oneOfEachBlock.header, cbEntries := oneOfEachBlock.cbEntries } := by
  have hh : oneOfEachBlock.header.HashesSet := by simp [oneOfEachBlock, CBlockHeader.HashesSet]
  have he : ∀ e ∈ oneOfEachBlock.cbEntries, e.HashesSet ∧ e.Decodable := by
    simp [oneOfEachBlock, CBEntry.HashesSet, CBEntry.Decodable, newBuyCBEntry,
      newPayEntryCBEntry, newPayChainCBEntry]
  have hn : oneOfEachBlock.cbEntries.length < 2 ^ 64 := by simp [oneOfEachBlock]
  exact ⟨hh, he, hn, CBlock.unmarshalBinary_marshalBinary HashCodec.bytes33 _ _ hh he hn [0]⟩

/-! ## `CBInfo` and `CChain` -/

theorem CBInfo.marshalBinary_length (b : CBInfo Hash) (h₁ : b.cbHash.isSome) (h₂ : b.fbHash.isSome)
    (h₃ : b.chainID.isSome) : (b.marshalBinary hc).length = b.marshalledSize := by
  obtain ⟨_ | cb, _ | fb, n, _ | ci⟩ := b <;> simp at h₁ h₂ h₃
  simp [CBInfo.marshalBinary, CBInfo.marshalledSize]

/-- Round trip of the `CBInfo` codec: a `CBInfo` whose three hashes are non-nil, with any block
    number, is read back from its marshalling followed by any bytes, each hash from its own
    33-byte window; the marshalling is `MarshalledSize` = 107 bytes long. -/
theorem CBInfo.unmarshalBinary_marshalBinary_append (x : CBInfo Hash) (h₁ : x.cbHash.isSome)
    (h₂ : x.fbHash.isSome) (h₃ : x.chainID.isSome) (t : Bytes) :
    CBInfo.unmarshalBinary hc (x.marshalBinary hc ++ t) = some x ∧
      (x.marshalBinary hc).length = x.marshalledSize ∧ x.marshalledSize = 107 := by
  refine ⟨?_, CBInfo.marshalBinary_length hc x h₁ h₂ h₃, rfl⟩
  obtain ⟨_ | cb, _ | fb, n, _ | ci⟩ := x <;> simp at h₁ h₂ h₃
  simp only [CBInfo.marshalBinary, HashCodec.marshalBinary_some, Except.dataOrNil_ok,
    CBInfo.unmarshalBinary, List.append_assoc, Bytes.sliceTo_append_of_length _ (hc.marshal_length _),
    Bytes.sliceFrom_append_of_length _ (hc.marshal_length _), HashCodec.unmarshal_marshal_self,
    some_bind_do, Bytes.readWord_putWord, Nat.reduceMul, Option.pure_def]

/-- A `CBInfo` of zero hashes with the largest block number. -/
def maxNumInfo : CBInfo { l : Bytes // l.length = 33 } :=
  ⟨some zeroHash, some zeroHash, BitVec.allOnes 64, some zeroHash⟩

theorem CBInfo.unmarshalBinary_marshalBinary_append_maxNum :
    maxNumInfo.cbHash.isSome ∧ maxNumInfo.fbHash.isSome ∧ maxNumInfo.chainID.isSome ∧
      CBInfo.unmarshalBinary HashCodec.bytes33 (maxNumInfo.marshalBinary HashCodec.bytes33 ++ [7]) =
        some maxNumInfo ∧
      (maxNumInfo.marshalBinary HashCodec.bytes33).length = maxNumInfo.marshalledSize ∧
      maxNumInfo.marshalledSize = 107 :=
  ⟨rfl, rfl, rfl, CBInfo.unmarshalBinary_marshalBinary_append HashCodec.bytes33 maxNumInfo rfl rfl rfl [7]⟩

theorem CChain.marshalNames_length (ns : List Bytes) :
    (CChain.marshalNames ns).length = (ns.map fun n => 8 + n.length).sum := by
  induction ns with
  | nil => rfl
  | cons n ns ih => simp [CChain.marshalNames, ih]; omega

theorem CChain.marshalBinary_length (c : CChain Hash) (h : c.chainID.isSome) :
    (c.marshalBinary hc).length = c.marshalledSize := by
  obtain ⟨_ | ci, ns, id⟩ := c <;> simp at h
  simp [CChain.marshalBinary, CChain.marshalledSize, CChain.marshalNames_length]
  omega

/-- The name loop of the chain decoder reads back marshalled names of any lengths. -/
theorem CChain.unmarshalNames_marshalNames (ns : List Bytes) (hl : ∀ n ∈ ns, n.length < 2 ^ 64)
    (t : Bytes) : CChain.unmarshalNames ns.length (CChain.marshalNames ns ++ t) = some ns := by
  induction ns with
  | nil => rfl
  | cons n ns ih =>
    have hlen : (BitVec.ofNat 64 n.length).toNat = n.length := by
      rw [BitVec.toNat_ofNat]; exact Nat.mod_eq_of_lt (hl n (List.mem_cons_self n ns))
    simp only [CChain.marshalNames, CChain.unmarshalNames, List.length_cons, List.append_assoc,
      Bytes.readWord_putWord, hlen, some_bind_do, Bytes.sliceTo_append,
      Bytes.sliceFrom_append, ih fun n hn => hl n (List.mem_cons_of_mem _ hn), Option.pure_def]

/-- Round trip of the chain codec: the chain ID and every name, of any count and any lengths, are
    read back from the marshalling followed by any bytes. The bounds hold of every Go slice. -/
theorem CChain.unmarshalBinary_marshalBinary_chainID_name (r c : CChain Hash) (h : c.chainID.isSome)
    (hn : c.name.length < 2 ^ 64) (hl : ∀ n ∈ c.name, n.length < 2 ^ 64) (t : Bytes) :
    CChain.unmarshalBinary hc r (c.marshalBinary hc ++ t) =
      some { r with chainID := c.chainID, name := c.name } := by
  obtain ⟨_ | ci, ns, id⟩ := c <;> simp at h
  have hcount : (BitVec.ofNat 64 ns.length).toNat = ns.length := by
    rw [BitVec.toNat_ofNat]; exact Nat.mod_eq_of_lt hn
  simp only [CChain.marshalBinary, HashCodec.marshalBinary_some, Except.dataOrNil_ok,
    CChain.unmarshalBinary, List.append_assoc,
    Bytes.sliceTo_append_of_length _ (hc.marshal_length ci), HashCodec.unmarshal_marshal_self,
    some_bind_do, Bytes.sliceFrom_append_of_length _ (hc.marshal_length ci),
    Bytes.readWord_putWord, hcount, CChain.unmarshalNames_marshalNames ns hl,
    Option.pure_def]

/-- A chain with two names, one of them empty. -/
def twoNameChain : CChain { l : Bytes // l.length = 33 } := ⟨some zeroHash, [[1, 2, 3], []], 4⟩

theorem CChain.unmarshalBinary_marshalBinary_twoNames :
    twoNameChain.chainID.isSome ∧ twoNameChain.name.length < 2 ^ 64 ∧
      (∀ n ∈ twoNameChain.name, n.length < 2 ^ 64) ∧
      CChain.unmarshalBinary HashCodec.bytes33 twoNameChain
          (twoNameChain.marshalBinary HashCodec.bytes33 ++ [5]) =
        some { twoNameChain with chainID := twoNameChain.chainID, name := twoNameChain.name } := by
  have h : twoNameChain.chainID.isSome := rfl
  have hn : twoNameChain.name.length < 2 ^ 64 := by simp [twoNameChain]
  have hl : ∀ n ∈ twoNameChain.name, n.length < 2 ^ 64 := by simp [twoNameChain]
  exact ⟨h, hn, hl, CChain.unmarshalBinary_marshalBinary_chainID_name HashCodec.bytes33 _ _ h hn hl [5]⟩

/-! ## Every size agrees with its encoding -/

/-- `len(x.MarshalBinary()) = x.MarshalledSize()` for every header, credit entry, block,
    `CBInfo` and `CChain` whose hashes are non-nil; the header and the entries marshal without
    error. -/
theorem marshalBinary_length_eq_marshalledSize :
    (∀ b : CBlockHeader Hash, b.HashesSet →
      ∃ d, b.marshalBinary hc = .ok d ∧ d.length = b.marshalledSize hc) ∧
    (∀ e : BuyCBEntry Hash, e.publicKey.isSome → e.factomTxHash.isSome →
      ∃ d, e.marshalBinary hc = .ok d ∧ d.length = e.marshalledSize hc) ∧
    (∀ e : PayEntryCBEntry Hash, e.publicKey.isSome → e.entryHash.isSome →
      ∃ d, e.marshalBinary hc = .ok d ∧ d.length = e.marshalledSize hc) ∧
    (∀ e : PayChainCBEntry Hash, e.publicKey.isSome → e.entryHash.isSome →
      e.chainIDHash.isSome → e.entryChainIDHash.isSome →
      ∃ d, e.marshalBinary hc = .ok d ∧ d.length = e.marshalledSize hc) ∧
    (∀ b : CBlock Hash, b.header.HashesSet → (∀ e ∈ b.cbEntries, e.HashesSet) →
      (b.marshalBinary hc).length = b.marshalledSize hc) ∧
    (∀ b : CBInfo Hash, b.cbHash.isSome → b.fbHash.isSome → b.chainID.isSome →
      (b.marshalBinary hc).length = b.marshalledSize) ∧
    (∀ c : CChain Hash, c.chainID.isSome → (c.marshalBinary hc).length = c.marshalledSize) := by
  refine ⟨fun b hb => ?_, fun e h₁ h₂ => ?_, fun e h₁ h₂ => ?_, fun e h₁ h₂ h₃ h₄ => ?_,
    CBlock.marshalBinary_length hc, CBInfo.marshalBinary_length hc, CChain.marshalBinary_length hc⟩
  · obtain ⟨d, hd, hlen, -⟩ := b.marshalBinary_spec hc hb
    exact ⟨d, hd, hlen⟩
  · obtain ⟨d, hd, hlen, -⟩ := (CBEntry.buy e).marshalBinary_spec hc ⟨h₁, h₂⟩
    exact ⟨d, hd, hlen⟩
  · obtain ⟨d, hd, hlen, -⟩ := (CBEntry.payEntry e).marshalBinary_spec hc ⟨h₁, h₂⟩
    exact ⟨d, hd, hlen⟩
  · obtain ⟨d, hd, hlen, -⟩ := (CBEntry.payChain e).marshalBinary_spec hc ⟨h₁, h₂, h₃, h₄⟩
    exact ⟨d, hd, hlen⟩

end FactomCode

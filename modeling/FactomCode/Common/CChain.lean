import FactomCode.Common.Binary

set_option autoImplicit false

/-! # The entry-credit chain and its binary codecs

A shallow embedding of the data half of `common/cchain.go`: the credit-block header, the three
kinds of credit entry behind the `CBEntry` interface, the credit block, `CBInfo` and `CChain`,
each with `MarshalBinary`, `MarshalledSize` and `UnmarshalBinary` as the Go methods compute them.

Every type is parametric in the `Hash` type and every codec in a `HashCodec`. A Go `*Hash` field
is an `Option Hash` (`none` is nil). `MarshalBinary` returns `Except String Bytes` where the Go
method can report an error, and plain `Bytes` where its error result is always nil.
`UnmarshalBinary` returns `none` exactly when the Go method panics (a slice or index out of
range, or a method call on the nil entry that an unknown type byte leaves behind); the decoders
never return a non-nil error. `MarshalledSize` is a `Nat`: the Go `uint64` sums are byte counts of
data held in memory and do not wrap. -/

namespace FactomCode

variable {Hash : Type}

/-! ## Entry types -/

/-- `TYPE_PAY_CHAIN`, the third value of the entry-type `iota` block. -/
def typePayChain : BitVec 8 := 2

/-- `TYPE_PAY_ENTRY`. -/
def typePayEntry : BitVec 8 := 3

/-- `TYPE_BUY`. -/
def typeBuy : BitVec 8 := 4

/-- `BuyCBEntry`: credits bought with a factoid transaction. -/
structure BuyCBEntry (Hash : Type) where
  entryType : BitVec 8
  publicKey : Option Hash
  credits : BitVec 32
  factomTxHash : Option Hash
  deriving DecidableEq

/-- `PayEntryCBEntry`: credits paid for an entry. -/
structure PayEntryCBEntry (Hash : Type) where
  entryType : BitVec 8
  publicKey : Option Hash
  credits : BitVec 32
  entryHash : Option Hash
  timeStamp : BitVec 64
  sig : Bytes
  deriving DecidableEq

/-- `PayChainCBEntry`: credits paid for a new chain. -/
structure PayChainCBEntry (Hash : Type) where
  entryType : BitVec 8
  publicKey : Option Hash
  credits : BitVec 32
  entryHash : Option Hash
  chainIDHash : Option Hash
  entryChainIDHash : Option Hash
  sig : Bytes
  deriving DecidableEq

/-- A non-nil value of the `CBEntry` interface: one of the three entry kinds. -/
inductive CBEntry (Hash : Type) where
  | buy (e : BuyCBEntry Hash)
  | payEntry (e : PayEntryCBEntry Hash)
  | payChain (e : PayChainCBEntry Hash)
  deriving DecidableEq

/-- `NewBuyCBEntry`. -/
def newBuyCBEntry (pubKey factoidTxHash : Option Hash) (credits : BitVec 32) : BuyCBEntry Hash :=
  { entryType := typeBuy, publicKey := pubKey, credits, factomTxHash := factoidTxHash }

/-- `NewPayEntryCBEntry`. -/
def newPayEntryCBEntry (pubKey entryHash : Option Hash) (credits : BitVec 32)
    (timeStamp : BitVec 64) (sig : Bytes) : PayEntryCBEntry Hash :=
  { entryType := typePayEntry, publicKey := pubKey, credits, entryHash, timeStamp, sig }

/-- `NewPayChainCBEntry`. -/
def newPayChainCBEntry (pubKey entryHash : Option Hash) (credits : BitVec 32)
    (chainIDHash entryChainIDHash : Option Hash) (sig : Bytes) : PayChainCBEntry Hash :=
  { entryType := typePayChain, publicKey := pubKey, credits, entryHash, chainIDHash,
    entryChainIDHash, sig }

namespace CBEntry

/-- `CBEntry.Type()`. -/
def entryType : CBEntry Hash → BitVec 8
  | .buy e => e.entryType
  | .payEntry e => e.entryType
  | .payChain e => e.entryType

/-- `CBEntry.PublicKey()`. -/
def publicKey : CBEntry Hash → Option Hash
  | .buy e => e.publicKey
  | .payEntry e => e.publicKey
  | .payChain e => e.publicKey

/-- `CBEntry.Credits()`. -/
def credits : CBEntry Hash → BitVec 32
  | .buy e => e.credits
  | .payEntry e => e.credits
  | .payChain e => e.credits

end CBEntry

/-! ## Headers, blocks, `CBInfo` and `CChain` -/

/-- `CBlockHeader`, the entry-credit block header. -/
structure CBlockHeader (Hash : Type) where
  chainID : Option Hash
  bodyHash : Option Hash
  prevKeyMR : Option Hash
  prevHash : Option Hash
  dbHeight : BitVec 32
  segmentsMR : Option Hash
  balanceMR : Option Hash
  bodySize : BitVec 64
  deriving DecidableEq

/-- `CBlock`. The header and the entries are marshalled; `cbHash` and `merkleRoot` are the cached
    results of `BuildCBHash` and `BuildMerkleRoot`. -/
structure CBlock (Hash : Type) where
  header : CBlockHeader Hash
  cbEntries : List (CBEntry Hash)
  cbHash : Option Hash
  merkleRoot : Option Hash
  isSealed : Bool
  deriving DecidableEq

/-- `CBInfo`. -/
structure CBInfo (Hash : Type) where
  cbHash : Option Hash
  fbHash : Option Hash
  fbBlockNum : BitVec 64
  chainID : Option Hash
  deriving DecidableEq

/-- `CChain`. -/
structure CChain (Hash : Type) where
  chainID : Option Hash
  name : List Bytes
  nextBlockID : BitVec 32
  deriving DecidableEq

/-- `data, _ := x.MarshalBinary()`: the data, which is nil when the method failed. -/
def Except.dataOrNil : Except String Bytes → Bytes
  | .ok d => d
  | .error _ => []

variable (hc : HashCodec Hash)

/-! ## Marshalling -/

/-- `(*BuyCBEntry).MarshalBinary`. -/
def BuyCBEntry.marshalBinary (e : BuyCBEntry Hash) : Except String Bytes := do
  let publicKey ← hc.marshalBinary e.publicKey
  let factomTxHash ← hc.marshalBinary e.factomTxHash
  return [e.entryType] ++ publicKey ++ Bytes.putWord 4 e.credits ++ factomTxHash

/-- `(*PayEntryCBEntry).MarshalBinary`; the signature length is written as `uint32(len(e.Sig))`. -/
def PayEntryCBEntry.marshalBinary (e : PayEntryCBEntry Hash) : Except String Bytes := do
  let publicKey ← hc.marshalBinary e.publicKey
  let entryHash ← hc.marshalBinary e.entryHash
  return [e.entryType] ++ publicKey ++ Bytes.putWord 4 e.credits ++ entryHash ++
    Bytes.putWord 8 e.timeStamp ++ Bytes.putWord 4 (BitVec.ofNat 32 e.sig.length) ++ e.sig

/-- `(*PayChainCBEntry).MarshalBinary`. -/
def PayChainCBEntry.marshalBinary (e : PayChainCBEntry Hash) : Except String Bytes := do
  let publicKey ← hc.marshalBinary e.publicKey
  let entryHash ← hc.marshalBinary e.entryHash
  let chainIDHash ← hc.marshalBinary e.chainIDHash
  let entryChainIDHash ← hc.marshalBinary e.entryChainIDHash
  return [e.entryType] ++ publicKey ++ Bytes.putWord 4 e.credits ++ entryHash ++ chainIDHash ++
    entryChainIDHash ++ Bytes.putWord 4 (BitVec.ofNat 32 e.sig.length) ++ e.sig

/-- `CBEntry.MarshalBinary`, dispatched on the dynamic type. -/
def CBEntry.marshalBinary : CBEntry Hash → Except String Bytes
  | .buy e => e.marshalBinary hc
  | .payEntry e => e.marshalBinary hc
  | .payChain e => e.marshalBinary hc

/-- `(*CBlockHeader).MarshalBinary`: the first nil hash aborts with its error. -/
def CBlockHeader.marshalBinary (b : CBlockHeader Hash) : Except String Bytes := do
  let chainID ← hc.marshalBinary b.chainID
  let bodyHash ← hc.marshalBinary b.bodyHash
  let prevKeyMR ← hc.marshalBinary b.prevKeyMR
  let prevHash ← hc.marshalBinary b.prevHash
  let segmentsMR ← hc.marshalBinary b.segmentsMR
  let balanceMR ← hc.marshalBinary b.balanceMR
  return chainID ++ bodyHash ++ prevKeyMR ++ prevHash ++ Bytes.putWord 4 b.dbHeight ++
    segmentsMR ++ balanceMR ++ Bytes.putWord 8 b.bodySize

/-- The body loop of `(*CBlock).MarshalBinary`: each entry's data, errors discarded. -/
def CBlock.marshalEntries : List (CBEntry Hash) → Bytes
  | [] => []
  | e :: es => Except.dataOrNil (e.marshalBinary hc) ++ CBlock.marshalEntries es

/-- `(*CBlock).MarshalBinary`: header, `uint64` entry count, entries. Its error result is nil. -/
def CBlock.marshalBinary (b : CBlock Hash) : Bytes :=
  Except.dataOrNil (b.header.marshalBinary hc) ++
    Bytes.putWord 8 (BitVec.ofNat 64 b.cbEntries.length) ++ CBlock.marshalEntries hc b.cbEntries

/-- `(*CBInfo).MarshalBinary`; hash errors are discarded and its error result is nil. -/
def CBInfo.marshalBinary (b : CBInfo Hash) : Bytes :=
  Except.dataOrNil (hc.marshalBinary b.cbHash) ++ Except.dataOrNil (hc.marshalBinary b.fbHash) ++
    Bytes.putWord 8 b.fbBlockNum ++ Except.dataOrNil (hc.marshalBinary b.chainID)

/-- The name loop of `(*CChain).MarshalBinary`: a `uint64` length, then the bytes. -/
def CChain.marshalNames : List Bytes → Bytes
  | [] => []
  | n :: ns => Bytes.putWord 8 (BitVec.ofNat 64 n.length) ++ n ++ CChain.marshalNames ns

/-- `(*CChain).MarshalBinary`: chain ID, `uint64` name count, names. Its error result is nil. -/
def CChain.marshalBinary (b : CChain Hash) : Bytes :=
  Except.dataOrNil (hc.marshalBinary b.chainID) ++ Bytes.putWord 8 (BitVec.ofNat 64 b.name.length) ++
    CChain.marshalNames b.name

/-! ## Sizes -/

/-- `(*BuyCBEntry).MarshalledSize`. -/
def BuyCBEntry.marshalledSize (e : BuyCBEntry Hash) : Nat :=
  1 + hc.marshalledSize e.publicKey + 4 + hc.marshalledSize e.factomTxHash

/-- `(*PayEntryCBEntry).MarshalledSize`. -/
def PayEntryCBEntry.marshalledSize (e : PayEntryCBEntry Hash) : Nat :=
  1 + hc.marshalledSize e.publicKey + 4 + hc.marshalledSize e.entryHash + 8 + 4 + e.sig.length

/-- `(*PayChainCBEntry).MarshalledSize`. -/
def PayChainCBEntry.marshalledSize (e : PayChainCBEntry Hash) : Nat :=
  1 + hc.marshalledSize e.publicKey + 4 + hc.marshalledSize e.entryHash +
    hc.marshalledSize e.chainIDHash + hc.marshalledSize e.entryChainIDHash + 4 + e.sig.length

/-- `CBEntry.MarshalledSize`, dispatched on the dynamic type. -/
def CBEntry.marshalledSize : CBEntry Hash → Nat
  | .buy e => e.marshalledSize hc
  | .payEntry e => e.marshalledSize hc
  | .payChain e => e.marshalledSize hc

/-- `(*CBlockHeader).MarshalledSize`. -/
def CBlockHeader.marshalledSize (b : CBlockHeader Hash) : Nat :=
  hc.marshalledSize b.chainID + hc.marshalledSize b.bodyHash + hc.marshalledSize b.prevKeyMR +
    hc.marshalledSize b.prevHash + 4 + hc.marshalledSize b.segmentsMR +
    hc.marshalledSize b.balanceMR + 8

/-- `(*CBlock).MarshalledSize`. -/
def CBlock.marshalledSize (b : CBlock Hash) : Nat :=
  b.header.marshalledSize hc + 8 + (b.cbEntries.map (CBEntry.marshalledSize hc)).sum

/-- `(*CBInfo).MarshalledSize`: three hashes of 33 bytes and a `uint64`. -/
def CBInfo.marshalledSize (_b : CBInfo Hash) : Nat := 33 + 33 + 8 + 33

/-- `(*CChain).MarshalledSize`. -/
def CChain.marshalledSize (b : CChain Hash) : Nat :=
  33 + 8 + (b.name.map fun n => 8 + n.length).sum

/-! ## Unmarshalling -/

/-- `(*BuyCBEntry).UnmarshalBinary`. -/
def BuyCBEntry.unmarshalBinary (data : Bytes) : Option (BuyCBEntry Hash) := do
  let entryType ← data.head?
  let (publicKey, data) ← hc.readHash (← data.sliceFrom 1)
  let (credits, data) ← Bytes.readWord 32 4 data
  let factomTxHash ← hc.unmarshal data
  return {
    entryType, publicKey := some publicKey, credits, factomTxHash := some factomTxHash }

/-- `(*PayEntryCBEntry).UnmarshalBinary`; the signature is `data[:length]`. -/
def PayEntryCBEntry.unmarshalBinary (data : Bytes) : Option (PayEntryCBEntry Hash) := do
  let entryType ← data.head?
  let (publicKey, data) ← hc.readHash (← data.sliceFrom 1)
  let (credits, data) ← Bytes.readWord 32 4 data
  let (entryHash, data) ← hc.readHash data
  let (timeStamp, data) ← Bytes.readWord 64 8 data
  let (length, data) ← Bytes.readWord 32 4 data
  let sig ← data.sliceTo length.toNat
  return {
    entryType, publicKey := some publicKey, credits, entryHash := some entryHash, timeStamp,
    sig }

/-- `(*PayChainCBEntry).UnmarshalBinary`. -/
def PayChainCBEntry.unmarshalBinary (data : Bytes) : Option (PayChainCBEntry Hash) := do
  let entryType ← data.head?
  let (publicKey, data) ← hc.readHash (← data.sliceFrom 1)
  let (credits, data) ← Bytes.readWord 32 4 data
  let (entryHash, data) ← hc.readHash data
  let (chainIDHash, data) ← hc.readHash data
  let (entryChainIDHash, data) ← hc.readHash data
  let (length, data) ← Bytes.readWord 32 4 data
  let sig ← data.sliceTo length.toNat
  return {
    entryType, publicKey := some publicKey, credits, entryHash := some entryHash,
    chainIDHash := some chainIDHash, entryChainIDHash := some entryChainIDHash, sig }

/-- `(*CBlockHeader).UnmarshalBinary`: each hash is read at the cursor, which then advances by its
    `MarshalledSize`. -/
def CBlockHeader.unmarshalBinary (data : Bytes) : Option (CBlockHeader Hash) := do
  let (chainID, data) ← hc.readHash data
  let (bodyHash, data) ← hc.readHash data
  let (prevKeyMR, data) ← hc.readHash data
  let (prevHash, data) ← hc.readHash data
  let (dbHeight, data) ← Bytes.readWord 32 4 data
  let (segmentsMR, data) ← hc.readHash data
  let (balanceMR, data) ← hc.readHash data
  let (bodySize, _) ← Bytes.readWord 64 8 data
  return {
    chainID := some chainID, bodyHash := some bodyHash, prevKeyMR := some prevKeyMR,
    prevHash := some prevHash, dbHeight, segmentsMR := some segmentsMR,
    balanceMR := some balanceMR, bodySize }

/-- One turn of the entry loop of `(*CBlock).UnmarshalBinary`: the type byte picks the entry kind.
    Any other byte leaves the slot a nil `CBEntry`, and calling `UnmarshalBinary` on it panics. -/
def CBlock.unmarshalEntry (data : Bytes) : Option (CBEntry Hash) := do
  let ty ← data.head?
  if ty = typeBuy then (BuyCBEntry.unmarshalBinary hc data).map .buy
  else if ty = typePayChain then (PayChainCBEntry.unmarshalBinary hc data).map .payChain
  else if ty = typePayEntry then (PayEntryCBEntry.unmarshalBinary hc data).map .payEntry
  else none

/-- The entry loop of `(*CBlock).UnmarshalBinary`, run `count` times; the cursor advances by each
    decoded entry's `MarshalledSize`. -/
def CBlock.unmarshalEntries : Nat → Bytes → Option (List (CBEntry Hash))
  | 0, _ => some []
  | count + 1, data => do
    let e ← CBlock.unmarshalEntry hc data
    let data ← data.sliceFrom (e.marshalledSize hc)
    let es ← CBlock.unmarshalEntries count data
    return e :: es

/-- `(*CBlock).UnmarshalBinary` on receiver `b`: header and entries are replaced, the unmarshalled
    fields of `b` are kept. -/
def CBlock.unmarshalBinary (b : CBlock Hash) (data : Bytes) : Option (CBlock Hash) := do
  let h ← CBlockHeader.unmarshalBinary hc data
  let data ← data.sliceFrom (h.marshalledSize hc)
  let (count, data) ← Bytes.readWord 64 8 data
  let entries ← CBlock.unmarshalEntries hc count.toNat data
  return { b with header := h, cbEntries := entries }

/-- `(*CBInfo).UnmarshalBinary` on a slice whose capacity is its length: every hash is read from a
    33-byte slice. -/
def CBInfo.unmarshalBinary (data : Bytes) : Option (CBInfo Hash) := do
  let cbHash ← hc.unmarshal (← data.sliceTo 33)
  let data ← data.sliceFrom 33
  let fbHash ← hc.unmarshal (← data.sliceTo 33)
  let data ← data.sliceFrom 33
  let (fbBlockNum, data) ← Bytes.readWord 64 8 data
  let chainID ← hc.unmarshal (← data.sliceTo 33)
  return { cbHash := some cbHash, fbHash := some fbHash, fbBlockNum, chainID := some chainID }

/-- The name loop of `(*CChain).UnmarshalBinary`, run `count` times. -/
def CChain.unmarshalNames : Nat → Bytes → Option (List Bytes)
  | 0, _ => some []
  | count + 1, data => do
    let (length, data) ← Bytes.readWord 64 8 data
    let name ← data.sliceTo length.toNat
    let data ← data.sliceFrom length.toNat
    let names ← CChain.unmarshalNames count data
    return name :: names

/-- `(*CChain).UnmarshalBinary` on receiver `b`: the chain ID is read from a 33-byte slice and the
    names replace `b.name`. -/
def CChain.unmarshalBinary (b : CChain Hash) (data : Bytes) : Option (CChain Hash) := do
  let chainID ← hc.unmarshal (← data.sliceTo 33)
  let data ← data.sliceFrom 33
  let (count, data) ← Bytes.readWord 64 8 data
  let names ← CChain.unmarshalNames count.toNat data
  return { b with chainID := some chainID, name := names }

end FactomCode

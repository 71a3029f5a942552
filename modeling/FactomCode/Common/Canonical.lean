import FactomCode.Common.Malformed

set_option autoImplicit false

/-! # The decoders read only canonical encodings

`RoundTrip` decodes what the encoders write. This file goes the other way: whatever input a
decoder of `cchain.go` accepts, the bytes it consumed are the marshalling of the value it returns.
So no two inputs decode to one block with the same consumed length, and a block, a `CBInfo` or a
`CChain` read from disk re-marshals to the very bytes it was read from.

Each reader is taken on its own: a big-endian word (`Bytes.readWord_eq_some`), a hash
(`HashCodec.readHash_eq_some`), an entry, the entry loop, the header. The hash codec is the one
hypothesis, `HashCodec.Canonical`: a hash is read only from the 33 bytes it marshals to. -/

namespace FactomCode

namespace Bytes

theorem getBE_lt (l : Bytes) : getBE l < 256 ^ l.length := by
  induction l using List.reverseRecOn with
  | nil => decide
  | append_singleton l b ih =>
    have hb : b.toNat < 256 := b.isLt
    rw [getBE_append_byte, List.length_append, List.length_singleton, pow_succ]
    omega

/-- A byte string is the `putBE` of its own value at its own width. -/
theorem putBE_getBE (l : Bytes) : putBE l.length (getBE l) = l := by
  induction l using List.reverseRecOn with
  | nil => rfl
  | append_singleton l b ih =>
    have hb : b.toNat < 256 := b.isLt
    have hdiv : (getBE l * 256 + b.toNat) / 256 = getBE l := by omega
    have hlow : BitVec.ofNat 8 (getBE l * 256 + b.toNat) = b := by
      apply BitVec.eq_of_toNat_eq
      rw [BitVec.toNat_ofNat]
      omega
    rw [List.length_append, List.length_singleton, putBE, getBE_append_byte, hdiv, hlow, ih]

theorem sliceTo_eq_some {d r : Bytes} {n : Nat} :
    d.sliceTo n = some r ↔ n ≤ d.length ∧ d.take n = r := by
  unfold sliceTo
  split_ifs with h <;> simp [h]

theorem eq_cons_of_head_sliceFrom {d rest : Bytes} {b : BitVec 8} (hb : d.head? = some b)
    (hrest : d.sliceFrom 1 = some rest) : d = b :: rest := by
  obtain ⟨-, rfl⟩ := sliceFrom_eq_some.1 hrest
  cases d with
  | nil => cases hb
  | cons c d => cases hb; rfl

/-- What `readWord` reads is the `putWord` of the word it returns. -/
theorem readWord_eq_some {w k : Nat} {d rest : Bytes} {x : BitVec w} (hw : w = 8 * k)
    (h : readWord w k d = some (x, rest)) : d = putWord k x ++ rest := by
  obtain ⟨word, hword, h⟩ := Option.bind_eq_some.1 h
  obtain ⟨rest', hrest, h⟩ := Option.bind_eq_some.1 h
  cases h
  obtain ⟨hk, rfl⟩ := sliceTo_eq_some.1 hword
  obtain ⟨-, rfl⟩ := sliceFrom_eq_some.1 hrest
  have hlen : (d.take k).length = k := by simp [hk]
  have hlt : getBE (d.take k) < 2 ^ w := by
    have := getBE_lt (d.take k)
    rw [hlen] at this
    rw [hw, pow_mul]
    exact this
  have hput := putBE_getBE (d.take k)
  rw [hlen] at hput
  rw [putWord, getWord, BitVec.toNat_ofNat, Nat.mod_eq_of_lt hlt, hput, List.take_append_drop]

end Bytes

variable {Hash : Type} (hc : HashCodec Hash)

/-- Modelled from the spec: `common/hash.go` is not in the repository. A canonical codec reads a
    hash only from the 33 bytes that the hash marshals to, as `Hash.UnmarshalBinary` does when it
    copies the first 33 bytes of its input. -/
def HashCodec.Canonical : Prop :=
  ∀ d h, hc.unmarshal d = some h → 33 ≤ d.length ∧ hc.marshal h = d.take 33

theorem HashCodec.bytes33_canonical : HashCodec.bytes33.Canonical := by
  intro d h hd
  simp only [HashCodec.bytes33] at hd
  split_ifs at hd with h33
  exact ⟨h33, by cases hd; rfl⟩

variable {hc}

theorem HashCodec.Canonical.unmarshal_eq_some (hcan : hc.Canonical) {d : Bytes} {h : Hash}
    (hd : hc.unmarshal d = some h) : d = hc.marshal h ++ d.drop 33 := by
  rw [(hcan d h hd).2, List.take_append_drop]

theorem HashCodec.Canonical.readHash_eq_some (hcan : hc.Canonical) {d rest : Bytes} {h : Hash}
    (hd : hc.readHash d = some (h, rest)) : d = hc.marshal h ++ rest := by
  obtain ⟨h', hh, hd⟩ := Option.bind_eq_some.1 hd
  obtain ⟨rest', hrest, hd⟩ := Option.bind_eq_some.1 hd
  cases hd
  obtain ⟨-, rfl⟩ := Bytes.sliceFrom_eq_some.1 hrest
  exact hcan.unmarshal_eq_some hh

/-! ## Entries -/

/-- A decoded buy entry was read from its own marshalling. -/
theorem BuyCBEntry.unmarshalBinary_eq_some (hcan : hc.Canonical) {d : Bytes} {e : BuyCBEntry Hash}
    (h : BuyCBEntry.unmarshalBinary hc d = some e) :
    ∃ m t, e.marshalBinary hc = .ok m ∧ m.length = e.marshalledSize hc ∧ d = m ++ t := by
  obtain ⟨ty, hty, h⟩ := Option.bind_eq_some.1 h
  obtain ⟨d₁, hd₁, h⟩ := Option.bind_eq_some.1 h
  obtain ⟨⟨pk, d₂⟩, hpk, h⟩ := Option.bind_eq_some.1 h
  obtain ⟨⟨cr, d₃⟩, hcr, h⟩ := Option.bind_eq_some.1 h
  obtain ⟨fth, hfth, h⟩ := Option.bind_eq_some.1 h
  obtain rfl := Option.some.inj h
  refine ⟨_, d₃.drop 33, rfl, by simp [BuyCBEntry.marshalledSize], ?_⟩
  rw [Bytes.eq_cons_of_head_sliceFrom hty hd₁, hcan.readHash_eq_some hpk,
    Bytes.readWord_eq_some rfl hcr, hcan.unmarshal_eq_some hfth]
  simp

/-- A decoded pay-entry entry was read from its own marshalling: the signature length it read is
    the length of the signature it sliced. -/
theorem PayEntryCBEntry.unmarshalBinary_eq_some (hcan : hc.Canonical) {d : Bytes}
    {e : PayEntryCBEntry Hash} (h : PayEntryCBEntry.unmarshalBinary hc d = some e) :
    ∃ m t, e.marshalBinary hc = .ok m ∧ m.length = e.marshalledSize hc ∧ d = m ++ t := by
  obtain ⟨ty, hty, h⟩ := Option.bind_eq_some.1 h
  obtain ⟨d₁, hd₁, h⟩ := Option.bind_eq_some.1 h
  obtain ⟨⟨pk, d₂⟩, hpk, h⟩ := Option.bind_eq_some.1 h
  obtain ⟨⟨cr, d₃⟩, hcr, h⟩ := Option.bind_eq_some.1 h
  obtain ⟨⟨eh, d₄⟩, heh, h⟩ := Option.bind_eq_some.1 h
  obtain ⟨⟨ts, d₅⟩, hts, h⟩ := Option.bind_eq_some.1 h
  obtain ⟨⟨len, d₆⟩, hlen, h⟩ := Option.bind_eq_some.1 h
  obtain ⟨sig, hsig, h⟩ := Option.bind_eq_some.1 h
  obtain rfl := Option.some.inj h
  obtain ⟨hle, rfl⟩ := Bytes.sliceTo_eq_some.1 hsig
  have hsiglen : BitVec.ofNat 32 (len.toNat ⊓ d₆.length) = len := by
    rw [inf_of_le_left hle, BitVec.ofNat_toNat, BitVec.setWidth_eq]
  refine ⟨_, d₆.drop len.toNat, rfl, by simp [PayEntryCBEntry.marshalledSize]; omega, ?_⟩
  rw [Bytes.eq_cons_of_head_sliceFrom hty hd₁, hcan.readHash_eq_some hpk,
    Bytes.readWord_eq_some rfl hcr, hcan.readHash_eq_some heh, Bytes.readWord_eq_some rfl hts,
    Bytes.readWord_eq_some rfl hlen, ← List.take_append_drop len.toNat d₆]
  simp [hsiglen]

/-- A decoded pay-chain entry was read from its own marshalling. -/
theorem PayChainCBEntry.unmarshalBinary_eq_some (hcan : hc.Canonical) {d : Bytes}
    {e : PayChainCBEntry Hash} (h : PayChainCBEntry.unmarshalBinary hc d = some e) :
    ∃ m t, e.marshalBinary hc = .ok m ∧ m.length = e.marshalledSize hc ∧ d = m ++ t := by
  obtain ⟨ty, hty, h⟩ := Option.bind_eq_some.1 h
  obtain ⟨d₁, hd₁, h⟩ := Option.bind_eq_some.1 h
  obtain ⟨⟨pk, d₂⟩, hpk, h⟩ := Option.bind_eq_some.1 h
  obtain ⟨⟨cr, d₃⟩, hcr, h⟩ := Option.bind_eq_some.1 h
  obtain ⟨⟨eh, d₄⟩, heh, h⟩ := Option.bind_eq_some.1 h
  obtain ⟨⟨ch, d₅⟩, hch, h⟩ := Option.bind_eq_some.1 h
  obtain ⟨⟨ech, d₆⟩, hech, h⟩ := Option.bind_eq_some.1 h
  obtain ⟨⟨len, d₇⟩, hlen, h⟩ := Option.bind_eq_some.1 h
  obtain ⟨sig, hsig, h⟩ := Option.bind_eq_some.1 h
  obtain rfl := Option.some.inj h
  obtain ⟨hle, rfl⟩ := Bytes.sliceTo_eq_some.1 hsig
  have hsiglen : BitVec.ofNat 32 (len.toNat ⊓ d₇.length) = len := by
    rw [inf_of_le_left hle, BitVec.ofNat_toNat, BitVec.setWidth_eq]
  refine ⟨_, d₇.drop len.toNat, rfl, by simp [PayChainCBEntry.marshalledSize]; omega, ?_⟩
  rw [Bytes.eq_cons_of_head_sliceFrom hty hd₁, hcan.readHash_eq_some hpk,
    Bytes.readWord_eq_some rfl hcr, hcan.readHash_eq_some heh, hcan.readHash_eq_some hch,
    hcan.readHash_eq_some hech, Bytes.readWord_eq_some rfl hlen, ← List.take_append_drop len.toNat d₇]
  simp [hsiglen]

/-- An entry the block decoder's entry step accepts was read from its own marshalling, of its own
    `MarshalledSize`. -/
theorem CBlock.unmarshalEntry_eq_some (hcan : hc.Canonical) {d : Bytes} {e : CBEntry Hash}
    (h : CBlock.unmarshalEntry hc d = some e) :
    ∃ m t, e.marshalBinary hc = .ok m ∧ m.length = e.marshalledSize hc ∧ d = m ++ t := by
  obtain ⟨ty, -, h⟩ := Option.bind_eq_some.1 h
  split_ifs at h
  · obtain ⟨e, he, rfl⟩ := Option.map_eq_some'.1 h
    exact BuyCBEntry.unmarshalBinary_eq_some hcan he
  · obtain ⟨e, he, rfl⟩ := Option.map_eq_some'.1 h
    exact PayChainCBEntry.unmarshalBinary_eq_some hcan he
  · obtain ⟨e, he, rfl⟩ := Option.map_eq_some'.1 h
    exact PayEntryCBEntry.unmarshalBinary_eq_some hcan he

/-- The entry loop reads the concatenated marshallings of the entries it returns. -/
theorem CBlock.unmarshalEntries_eq_some (hcan : hc.Canonical) :
    ∀ {n : Nat} {d : Bytes} {es : List (CBEntry Hash)}, CBlock.unmarshalEntries hc n d = some es →
      (CBlock.marshalEntries hc es).length = (es.map (CBEntry.marshalledSize hc)).sum ∧
        ∃ t, d = CBlock.marshalEntries hc es ++ t
  | 0, d, _, h => by
    obtain rfl := Option.some.inj h
    exact ⟨rfl, d, rfl⟩
  | n + 1, d, _, h => by
    obtain ⟨e, he, h⟩ := Option.bind_eq_some.1 h
    obtain ⟨d', hd', h⟩ := Option.bind_eq_some.1 h
    obtain ⟨es, hes, h⟩ := Option.bind_eq_some.1 h
    obtain rfl := Option.some.inj h
    obtain ⟨m, t, hm, hlen, rfl⟩ := CBlock.unmarshalEntry_eq_some hcan he
    obtain ⟨-, rfl⟩ := Bytes.sliceFrom_eq_some.1 hd'
    obtain ⟨hlens, t', ht'⟩ := CBlock.unmarshalEntries_eq_some hcan hes
    rw [← hlen, List.drop_left] at ht'
    refine ⟨?_, t', ?_⟩
    · simp only [CBlock.marshalEntries, hm, Except.dataOrNil_ok, List.length_append, hlens, hlen,
        List.map_cons, List.sum_cons]
    · rw [CBlock.marshalEntries, hm, Except.dataOrNil_ok, ht', List.append_assoc]

/-! ## Headers and blocks -/

/-- A decoded header was read from its own 210-byte marshalling. -/
theorem CBlockHeader.unmarshalBinary_eq_some (hcan : hc.Canonical) {d : Bytes}
    {h : CBlockHeader Hash} (hd : CBlockHeader.unmarshalBinary hc d = some h) :
    ∃ m t, h.marshalBinary hc = .ok m ∧ m.length = h.marshalledSize hc ∧ d = m ++ t := by
  obtain ⟨⟨ci, d₁⟩, h₁, hd⟩ := Option.bind_eq_some.1 hd
  obtain ⟨⟨bh, d₂⟩, h₂, hd⟩ := Option.bind_eq_some.1 hd
  obtain ⟨⟨pk, d₃⟩, h₃, hd⟩ := Option.bind_eq_some.1 hd
  obtain ⟨⟨ph, d₄⟩, h₄, hd⟩ := Option.bind_eq_some.1 hd
  obtain ⟨⟨db, d₅⟩, h₅, hd⟩ := Option.bind_eq_some.1 hd
  obtain ⟨⟨sm, d₆⟩, h₆, hd⟩ := Option.bind_eq_some.1 hd
  obtain ⟨⟨bm, d₇⟩, h₇, hd⟩ := Option.bind_eq_some.1 hd
  obtain ⟨⟨bs, d₈⟩, h₈, hd⟩ := Option.bind_eq_some.1 hd
  obtain rfl := Option.some.inj hd
  refine ⟨_, d₈, rfl, by simp [CBlockHeader.marshalledSize], ?_⟩
  rw [hcan.readHash_eq_some h₁, hcan.readHash_eq_some h₂, hcan.readHash_eq_some h₃,
    hcan.readHash_eq_some h₄, Bytes.readWord_eq_some rfl h₅, hcan.readHash_eq_some h₆,
    hcan.readHash_eq_some h₇, Bytes.readWord_eq_some rfl h₈]
  simp

/-- Canonical decoding of the credit-block codec. With a canonical hash codec, every input that
    `(*CBlock).UnmarshalBinary` accepts begins with the `MarshalBinary` of the block it returns,
    `MarshalledSize` bytes long: the header with its hashes, the entry count it read, and each entry
    as it marshals. -/
theorem CBlock.unmarshalBinary_input_starts_with_block (hcan : hc.Canonical) {r b : CBlock Hash}
    {d : Bytes} (h : CBlock.unmarshalBinary hc r d = some b) :
    d = b.marshalBinary hc ++ d.drop (b.marshalledSize hc) := by
  obtain ⟨hdr, hhdr, h⟩ := Option.bind_eq_some.1 h
  obtain ⟨d₁, hd₁, h⟩ := Option.bind_eq_some.1 h
  obtain ⟨⟨count, d₂⟩, hd₂, h⟩ := Option.bind_eq_some.1 h
  obtain ⟨es, hes, h⟩ := Option.bind_eq_some.1 h
  obtain rfl := Option.some.inj h
  obtain ⟨m, t, hm, hmlen, e₁⟩ := CBlockHeader.unmarshalBinary_eq_some hcan hhdr
  obtain ⟨hlens, u, e₃⟩ := CBlock.unmarshalEntries_eq_some hcan hes
  have e₂ : d₁ = Bytes.putWord 8 count ++ d₂ := Bytes.readWord_eq_some rfl hd₂
  have ht : t = d₁ := by
    rw [e₁, ← hmlen] at hd₁
    exact Option.some.inj ((Bytes.sliceFrom_append m t).symm.trans hd₁)
  have hcount : BitVec.ofNat 64 es.length = count := by
    rw [(CBlock.length_of_unmarshalEntries hc hes).1, BitVec.ofNat_toNat, BitVec.setWidth_eq]
  have hbytes : CBlock.marshalBinary hc { r with header := hdr, cbEntries := es } =
      m ++ Bytes.putWord 8 count ++ CBlock.marshalEntries hc es := by
    rw [CBlock.marshalBinary, hm, Except.dataOrNil_ok, hcount]
  have hsize : CBlock.marshalledSize hc { r with header := hdr, cbEntries := es } =
      (m ++ Bytes.putWord 8 count ++ CBlock.marshalEntries hc es).length := by
    simp only [CBlock.marshalledSize, List.length_append, Bytes.length_putWord, hmlen, hlens]
  have hd : d = m ++ Bytes.putWord 8 count ++ CBlock.marshalEntries hc es ++ u := by
    rw [e₁, ht, e₂, e₃]
    simp only [List.append_assoc]
  rw [hbytes, hsize, hd, List.drop_left]

set_option maxRecDepth 4000 in
/-- The block with one entry of each kind, followed by one stray byte, is read from its own
    marshalling. -/
theorem CBlock.oneOfEachBlock_input_starts_with_block :
    HashCodec.bytes33.Canonical ∧
      CBlock.unmarshalBinary HashCodec.bytes33 oneOfEachBlock
          (oneOfEachBlock.marshalBinary HashCodec.bytes33 ++ [0]) = some oneOfEachBlock ∧
      oneOfEachBlock.marshalBinary HashCodec.bytes33 ++ [0] =
        oneOfEachBlock.marshalBinary HashCodec.bytes33 ++
          (oneOfEachBlock.marshalBinary HashCodec.bytes33 ++ [0]).drop
            (oneOfEachBlock.marshalledSize HashCodec.bytes33) := by
  have hdec : CBlock.unmarshalBinary HashCodec.bytes33 oneOfEachBlock
      (oneOfEachBlock.marshalBinary HashCodec.bytes33 ++ [0]) = some oneOfEachBlock := rfl
  exact ⟨HashCodec.bytes33_canonical, hdec,
    CBlock.unmarshalBinary_input_starts_with_block HashCodec.bytes33_canonical hdec⟩

/-- `CBInfo.UnmarshalBinary` slices each hash to 33 bytes before it decodes it. -/
theorem HashCodec.Canonical.unmarshal_sliceTo (hcan : hc.Canonical) {d s : Bytes} {h : Hash}
    (hs : d.sliceTo 33 = some s) (hh : hc.unmarshal s = some h) : d = hc.marshal h ++ d.drop 33 := by
  obtain ⟨-, rfl⟩ := Bytes.sliceTo_eq_some.1 hs
  rw [(hcan _ h hh).2, List.take_take, Nat.min_self, List.take_append_drop]

/-- Canonical decoding of `CBInfo`: every input slice whose capacity is its length and that
    `(*CBInfo).UnmarshalBinary` accepts begins with the 107 bytes that the returned `CBInfo`
    marshals to. -/
theorem CBInfo.unmarshalBinary_input_starts_with_info (hcan : hc.Canonical) {x : CBInfo Hash}
    {d : Bytes} (h : CBInfo.unmarshalBinary hc d = some x) :
    d = x.marshalBinary hc ++ d.drop x.marshalledSize := by
  obtain ⟨s₁, hs₁, h⟩ := Option.bind_eq_some.1 h
  obtain ⟨cb, hcb, h⟩ := Option.bind_eq_some.1 h
  obtain ⟨d₁, hd₁, h⟩ := Option.bind_eq_some.1 h
  obtain ⟨s₂, hs₂, h⟩ := Option.bind_eq_some.1 h
  obtain ⟨fb, hfb, h⟩ := Option.bind_eq_some.1 h
  obtain ⟨d₂, hd₂, h⟩ := Option.bind_eq_some.1 h
  obtain ⟨⟨num, d₃⟩, hd₃, h⟩ := Option.bind_eq_some.1 h
  obtain ⟨s₃, hs₃, h⟩ := Option.bind_eq_some.1 h
  obtain ⟨ci, hci, h⟩ := Option.bind_eq_some.1 h
  obtain rfl := Option.some.inj h
  obtain ⟨-, rfl⟩ := Bytes.sliceFrom_eq_some.1 hd₁
  obtain ⟨-, rfl⟩ := Bytes.sliceFrom_eq_some.1 hd₂
  obtain ⟨u, e₄⟩ : ∃ u, d₃ = hc.marshal ci ++ u := ⟨_, hcan.unmarshal_sliceTo hs₃ hci⟩
  have hd : d = hc.marshal cb ++ hc.marshal fb ++ Bytes.putWord 8 num ++ hc.marshal ci ++ u := by
    rw [hcan.unmarshal_sliceTo hs₁ hcb, hcan.unmarshal_sliceTo hs₂ hfb,
      Bytes.readWord_eq_some rfl hd₃, e₄]
    simp only [List.append_assoc]
  have hlen : ∀ y : CBInfo Hash, (hc.marshal cb ++ hc.marshal fb ++ Bytes.putWord 8 num ++
      hc.marshal ci).length = y.marshalledSize := fun _ => by simp [CBInfo.marshalledSize]
  rw [hd, ← hlen, List.drop_left]
  rfl

/-- The `CBInfo` with the largest block number, followed by one stray byte. -/
theorem CBInfo.maxNumInfo_input_starts_with_info :
    HashCodec.bytes33.Canonical ∧
      CBInfo.unmarshalBinary HashCodec.bytes33 (maxNumInfo.marshalBinary HashCodec.bytes33 ++ [0]) =
        some maxNumInfo ∧
      maxNumInfo.marshalBinary HashCodec.bytes33 ++ [0] = maxNumInfo.marshalBinary HashCodec.bytes33 ++
        (maxNumInfo.marshalBinary HashCodec.bytes33 ++ [0]).drop maxNumInfo.marshalledSize := by
  have hdec : CBInfo.unmarshalBinary HashCodec.bytes33
      (maxNumInfo.marshalBinary HashCodec.bytes33 ++ [0]) = some maxNumInfo := by decide
  exact ⟨HashCodec.bytes33_canonical, hdec,
    CBInfo.unmarshalBinary_input_starts_with_info HashCodec.bytes33_canonical hdec⟩

/-! ## Chains -/

/-- The name loop reads, for each name, the `uint64` length it sliced by, and nothing between. -/
theorem CChain.unmarshalNames_eq_some :
    ∀ {n : Nat} {d : Bytes} {ns : List Bytes}, CChain.unmarshalNames n d = some ns →
      ns.length = n ∧ ∃ t, d = CChain.marshalNames ns ++ t
  | 0, d, _, h => by
    obtain rfl := Option.some.inj h
    exact ⟨rfl, d, rfl⟩
  | n + 1, d, _, h => by
    obtain ⟨⟨len, d₁⟩, hd₁, h⟩ := Option.bind_eq_some.1 h
    obtain ⟨name, hname, h⟩ := Option.bind_eq_some.1 h
    obtain ⟨d₂, hd₂, h⟩ := Option.bind_eq_some.1 h
    obtain ⟨ns, hns, h⟩ := Option.bind_eq_some.1 h
    obtain rfl := Option.some.inj h
    obtain ⟨hle, rfl⟩ := Bytes.sliceTo_eq_some.1 hname
    obtain ⟨-, rfl⟩ := Bytes.sliceFrom_eq_some.1 hd₂
    obtain ⟨hlen, t, ht⟩ := CChain.unmarshalNames_eq_some hns
    have hnamelen : BitVec.ofNat 64 (d₁.take len.toNat).length = len := by
      rw [List.length_take, Nat.min_eq_left hle, BitVec.ofNat_toNat, BitVec.setWidth_eq]
    have hsplit : d₁ = d₁.take len.toNat ++ (CChain.marshalNames ns ++ t) := by
      rw [← ht, List.take_append_drop]
    refine ⟨by simp [hlen], t, ?_⟩
    rw [Bytes.readWord_eq_some rfl hd₁, CChain.marshalNames, hnamelen]
    conv_lhs => rw [hsplit]
    simp only [List.append_assoc]

/-- Canonical decoding of `CChain`: every input `(*CChain).UnmarshalBinary` accepts begins with the
    `MarshalBinary` of the chain it returns, `MarshalledSize` bytes long. Each name length and the
    name count it read are the ones the encoder writes back. -/
theorem CChain.unmarshalBinary_input_starts_with_chain (hcan : hc.Canonical) {r c : CChain Hash}
    {d : Bytes} (h : CChain.unmarshalBinary hc r d = some c) :
    d = c.marshalBinary hc ++ d.drop c.marshalledSize := by
  obtain ⟨s, hs, h⟩ := Option.bind_eq_some.1 h
  obtain ⟨ci, hci, h⟩ := Option.bind_eq_some.1 h
  obtain ⟨d₁, hd₁, h⟩ := Option.bind_eq_some.1 h
  obtain ⟨⟨count, d₂⟩, hd₂, h⟩ := Option.bind_eq_some.1 h
  obtain ⟨ns, hns, h⟩ := Option.bind_eq_some.1 h
  obtain rfl := Option.some.inj h
  obtain ⟨-, rfl⟩ := Bytes.sliceFrom_eq_some.1 hd₁
  obtain ⟨hlen, u, e₂⟩ := CChain.unmarshalNames_eq_some hns
  have hcount : BitVec.ofNat 64 ns.length = count := by
    rw [hlen, BitVec.ofNat_toNat, BitVec.setWidth_eq]
  have hd : d = hc.marshal ci ++ Bytes.putWord 8 count ++ CChain.marshalNames ns ++ u := by
    rw [hcan.unmarshal_sliceTo hs hci, Bytes.readWord_eq_some rfl hd₂, e₂]
    simp only [List.append_assoc]
  have hsize : ∀ y : CChain Hash, y.name = ns →
      (hc.marshal ci ++ Bytes.putWord 8 count ++ CChain.marshalNames ns).length = y.marshalledSize :=
    fun y hy => by simp [CChain.marshalledSize, CChain.marshalNames_length, hy]; omega
  rw [hd, ← hsize _ rfl, List.drop_left, CChain.marshalBinary, HashCodec.marshalBinary_some,
    Except.dataOrNil_ok, hcount]

/-- The chain with two names, one of them empty, followed by one stray byte. -/
theorem CChain.twoNameChain_input_starts_with_chain :
    HashCodec.bytes33.Canonical ∧
      CChain.unmarshalBinary HashCodec.bytes33 twoNameChain
          (twoNameChain.marshalBinary HashCodec.bytes33 ++ [0]) = some twoNameChain ∧
      twoNameChain.marshalBinary HashCodec.bytes33 ++ [0] =
        twoNameChain.marshalBinary HashCodec.bytes33 ++
          (twoNameChain.marshalBinary HashCodec.bytes33 ++ [0]).drop twoNameChain.marshalledSize := by
  have hdec : CChain.unmarshalBinary HashCodec.bytes33 twoNameChain
      (twoNameChain.marshalBinary HashCodec.bytes33 ++ [0]) = some twoNameChain := by decide
  exact ⟨HashCodec.bytes33_canonical, hdec,
    CChain.unmarshalBinary_input_starts_with_chain HashCodec.bytes33_canonical hdec⟩

end FactomCode

import FactomCode.Common.RoundTrip

set_option autoImplicit false

/-! # The block decoder on malformed input

`(*CBlock).UnmarshalBinary` never reports an error. It slices its input by the sizes it expects
and indexes the type byte of each entry; Go panics where a slice or an index runs past the end,
and where the entry slot that an unknown type byte leaves nil is called. The model's decoders
return `none` in exactly those cases, and this file says which inputs they are.

Every reader consumes a fixed number of bytes: a hash its 33, a word its width, and the entry loop
at least each entry's `MarshalledSize`. So a block that decodes was read from at least its own
`MarshalledSize` bytes (`CBlock.marshalledSize_le_of_unmarshalBinary`), 218 of them for the
header and the entry count. On any shorter input, on an entry count larger than the bytes that
follow it, and on an entry whose type byte is none of the three kinds, the decoder panics. -/

namespace FactomCode

variable {Hash : Type} (hc : HashCodec Hash)

/-! ## What each reader consumes -/

namespace Bytes

theorem sliceFrom_eq_some {d r : Bytes} {n : Nat} :
    d.sliceFrom n = some r ↔ n ≤ d.length ∧ d.drop n = r := by
  unfold sliceFrom
  split_ifs with h <;> simp [h]

theorem length_of_sliceFrom {d r : Bytes} {n : Nat} (h : d.sliceFrom n = some r) :
    r.length + n = d.length := by
  obtain ⟨hn, rfl⟩ := sliceFrom_eq_some.1 h
  simp only [List.length_drop]
  omega

theorem length_of_readWord {w k : Nat} {d rest : Bytes} {x : BitVec w}
    (h : readWord w k d = some (x, rest)) : rest.length + k = d.length := by
  simp only [readWord, Option.bind_eq_bind, Option.bind_eq_some, Option.pure_def,
    Option.some.injEq, Prod.mk.injEq] at h
  obtain ⟨_, -, r, hr, -, rfl⟩ := h
  exact length_of_sliceFrom hr

end Bytes

theorem HashCodec.length_of_readHash {d rest : Bytes} {x : Hash} (h : hc.readHash d = some (x, rest)) :
    rest.length + 33 = d.length := by
  simp only [HashCodec.readHash, Option.bind_eq_bind, Option.bind_eq_some, Option.pure_def,
    Option.some.injEq, Prod.mk.injEq, HashCodec.marshalledSize_some] at h
  obtain ⟨_, -, r, hr, -, rfl⟩ := h
  exact Bytes.length_of_sliceFrom hr

/-- A header that decodes has all its hashes set, so its `MarshalledSize` is 210, and it was read
    from at least that many bytes. -/
theorem CBlockHeader.length_of_unmarshalBinary {d : Bytes} {h : CBlockHeader Hash}
    (hd : CBlockHeader.unmarshalBinary hc d = some h) :
    h.marshalledSize hc = 210 ∧ 210 ≤ d.length := by
  obtain ⟨⟨_, d₁⟩, h₁, hd⟩ := Option.bind_eq_some.1 hd
  obtain ⟨⟨_, d₂⟩, h₂, hd⟩ := Option.bind_eq_some.1 hd
  obtain ⟨⟨_, d₃⟩, h₃, hd⟩ := Option.bind_eq_some.1 hd
  obtain ⟨⟨_, d₄⟩, h₄, hd⟩ := Option.bind_eq_some.1 hd
  obtain ⟨⟨_, d₅⟩, h₅, hd⟩ := Option.bind_eq_some.1 hd
  obtain ⟨⟨_, d₆⟩, h₆, hd⟩ := Option.bind_eq_some.1 hd
  obtain ⟨⟨_, d₇⟩, h₇, hd⟩ := Option.bind_eq_some.1 hd
  obtain ⟨⟨_, d₈⟩, h₈, ⟨⟩⟩ := Option.bind_eq_some.1 hd
  have := hc.length_of_readHash h₁
  have := hc.length_of_readHash h₂
  have := hc.length_of_readHash h₃
  have := hc.length_of_readHash h₄
  have := Bytes.length_of_readWord h₅
  have := hc.length_of_readHash h₆
  have := hc.length_of_readHash h₇
  have := Bytes.length_of_readWord h₈
  exact ⟨rfl, by omega⟩

theorem CBEntry.one_le_marshalledSize (e : CBEntry Hash) : 1 ≤ e.marshalledSize hc := by
  cases e <;> simp only [CBEntry.marshalledSize, BuyCBEntry.marshalledSize,
    PayEntryCBEntry.marshalledSize, PayChainCBEntry.marshalledSize] <;> omega

/-- The entry loop reads `count` entries, each from at least its `MarshalledSize` bytes, and each
    of those is at least its type byte. -/
theorem CBlock.length_of_unmarshalEntries {count : Nat} {d : Bytes} {es : List (CBEntry Hash)}
    (h : CBlock.unmarshalEntries hc count d = some es) :
    es.length = count ∧ count ≤ (es.map (CBEntry.marshalledSize hc)).sum ∧
      (es.map (CBEntry.marshalledSize hc)).sum ≤ d.length := by
  induction count generalizing d es with
  | zero =>
    cases h
    simp
  | succ count ih =>
    simp only [CBlock.unmarshalEntries, Option.bind_eq_bind, Option.bind_eq_some, Option.pure_def,
      Option.some.injEq] at h
    obtain ⟨e, -, d', hd', es', hes', rfl⟩ := h
    obtain ⟨hlen, hcount, hsum⟩ := ih hes'
    have := Bytes.length_of_sliceFrom hd'
    have := e.one_le_marshalledSize hc
    simp only [List.length_cons, hlen, List.map_cons, List.sum_cons, true_and]
    omega

/-- A block that decodes was read from at least its own `MarshalledSize` bytes: where the decoder
    returns, it read nothing past the end of its input. That size is 218 bytes for the header and
    the entry count, and at least one more per entry. -/
theorem CBlock.marshalledSize_le_of_unmarshalBinary {r b : CBlock Hash} {d : Bytes}
    (h : CBlock.unmarshalBinary hc r d = some b) :
    218 + b.cbEntries.length ≤ b.marshalledSize hc ∧ b.marshalledSize hc ≤ d.length := by
  simp only [CBlock.unmarshalBinary, Option.bind_eq_bind, Option.bind_eq_some, Prod.exists,
    Option.pure_def, Option.some.injEq] at h
  obtain ⟨hdr, hhdr, d₁, hd₁, count, d₂, hd₂, es, hes, rfl⟩ := h
  obtain ⟨hsize, -⟩ := CBlockHeader.length_of_unmarshalBinary hc hhdr
  obtain ⟨hlen, hcount, hsum⟩ := CBlock.length_of_unmarshalEntries hc hes
  have := Bytes.length_of_sliceFrom hd₁
  have := Bytes.length_of_readWord hd₂
  simp only [CBlock.marshalledSize, hsize, hlen]
  omega

/-- After a header with its hashes set and an entry count, the block decoder is the entry loop. -/
theorem CBlock.unmarshalBinary_header_count (r : CBlock Hash) {h : CBlockHeader Hash}
    (hh : h.HashesSet) (count : BitVec 64) (t : Bytes) :
    CBlock.unmarshalBinary hc r (Except.dataOrNil (h.marshalBinary hc) ++ Bytes.putWord 8 count ++ t) =
      (CBlock.unmarshalEntries hc count.toNat t).map fun es => { r with header := h, cbEntries := es } := by
  obtain ⟨d, hd, hlen, hdec⟩ := h.marshalBinary_spec hc hh
  simp only [hd, Except.dataOrNil_ok, CBlock.unmarshalBinary, List.append_assoc, hdec, some_bind_do,
    Bytes.sliceFrom_append_of_length _ hlen, Bytes.readWord_putWord, Nat.reduceMul]
  cases CBlock.unmarshalEntries hc count.toNat t <;> rfl

/-- The entry step panics on a type byte that is none of the three kinds: the slot stays a nil
    `CBEntry`, and its `UnmarshalBinary` is called. -/
theorem CBlock.unmarshalEntry_unknown {ty : BitVec 8} (hb : ty ≠ typeBuy) (hc' : ty ≠ typePayChain)
    (he : ty ≠ typePayEntry) (t : Bytes) : CBlock.unmarshalEntry hc (ty :: t) = none := by
  simp [CBlock.unmarshalEntry, hb, hc', he]

/-! ## Inputs on which the block decoder panics -/

/-- `(*CBlock).UnmarshalBinary` reports no error on malformed input: it panics. It does so on
    every input shorter than the 218 bytes of a header and an entry count, truncated at any
    field; after a well-formed header, on every entry count larger than the number of bytes that
    follow it; and on every entry whose type byte is none of `TYPE_BUY`, `TYPE_PAY_CHAIN` and
    `TYPE_PAY_ENTRY`. This holds for every receiver and every `Hash` codec. -/
theorem CBlock.unmarshalBinary_panics_on_malformed (r : CBlock Hash) :
    (∀ d : Bytes, d.length < 218 → CBlock.unmarshalBinary hc r d = none) ∧
    (∀ (h : CBlockHeader Hash) (count : BitVec 64) (t : Bytes), h.HashesSet →
      t.length < count.toNat →
      CBlock.unmarshalBinary hc r
        (Except.dataOrNil (h.marshalBinary hc) ++ Bytes.putWord 8 count ++ t) = none) ∧
    (∀ (h : CBlockHeader Hash) (count : BitVec 64) (ty : BitVec 8) (t : Bytes), h.HashesSet →
      count ≠ 0 → ty ≠ typeBuy → ty ≠ typePayChain → ty ≠ typePayEntry →
      CBlock.unmarshalBinary hc r
        (Except.dataOrNil (h.marshalBinary hc) ++ Bytes.putWord 8 count ++ ty :: t) = none) := by
  refine ⟨fun d hd => ?_, fun h count t hh ht => ?_, fun h count ty t hh hcount hb hc' he => ?_⟩
  · rcases hb : CBlock.unmarshalBinary hc r d with _ | b
    · rfl
    · have := CBlock.marshalledSize_le_of_unmarshalBinary hc hb
      omega
  · rw [CBlock.unmarshalBinary_header_count hc r hh, Option.map_eq_none']
    rcases hes : CBlock.unmarshalEntries hc count.toNat t with _ | es
    · rfl
    · have := CBlock.length_of_unmarshalEntries hc hes
      omega
  · obtain ⟨n, hn⟩ : ∃ n, count.toNat = n + 1 :=
      Nat.exists_eq_succ_of_ne_zero (by simpa [BitVec.toNat_eq] using hcount)
    rw [CBlock.unmarshalBinary_header_count hc r hh, hn]
    simp [CBlock.unmarshalEntries, CBlock.unmarshalEntry_unknown hc hb hc' he]

/-- The empty input; a block with a header and a count of one entry but no entry bytes; the same
    with an entry of type byte 0. -/
theorem CBlock.unmarshalBinary_panics_on_malformed_oneOfEachHeader :
    CBlock.unmarshalBinary HashCodec.bytes33 oneOfEachBlock [] = none ∧
      CBlock.unmarshalBinary HashCodec.bytes33 oneOfEachBlock
        (Except.dataOrNil (oneOfEachBlock.header.marshalBinary HashCodec.bytes33) ++
          Bytes.putWord 8 (1 : BitVec 64) ++ []) = none ∧
      CBlock.unmarshalBinary HashCodec.bytes33 oneOfEachBlock
        (Except.dataOrNil (oneOfEachBlock.header.marshalBinary HashCodec.bytes33) ++
          Bytes.putWord 8 (1 : BitVec 64) ++ [0]) = none := by
  have hh : oneOfEachBlock.header.HashesSet := by simp [oneOfEachBlock, CBlockHeader.HashesSet]
  obtain ⟨hshort, hcount, htype⟩ :=
    CBlock.unmarshalBinary_panics_on_malformed HashCodec.bytes33 oneOfEachBlock
  exact ⟨hshort [] (by decide), hcount _ 1 [] hh (by decide),
    htype _ 1 0 [] hh (by decide) (by decide) (by decide) (by decide)⟩

end FactomCode

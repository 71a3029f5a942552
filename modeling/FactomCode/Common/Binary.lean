import Mathlib

set_option autoImplicit false

/-! # Byte strings, Go slicing and `encoding/binary`

The credit-chain codecs of `common/cchain.go` are written against three services: Go slices of
bytes with their bounds-checked slicing, `encoding/binary` in big-endian order for the
fixed-width integer fields, and package `common`'s `Hash` with its own codec.

* A Go `[]byte` is a `Bytes`, a list of `BitVec 8`. Slicing `d[n:]`, `d[:n]` and indexing `d[0]`
  panic when out of range; here they return `none`, and a decoder's `Option` result is `none`
  exactly when the Go decoder panics. A `Bytes` is a slice whose capacity equals its length, and
  every theorem about a decoder is about such inputs: Go's `d[:n]` checks `n` against `cap(d)`,
  so on a slice with spare capacity it can read past `len(d)`, which the model does not cover.
* `binary.Write(&buf, binary.BigEndian, x)` and `binary.BigEndian.UintN` are `putWord` and
  `getWord`, built on one natural-number codec `putBE`/`getBE` whose round trip
  `getBE_putBE` is stated once, modulo the width.
* `Hash` lives in `common/hash.go`, which is not part of the repository. `HashCodec` is the
  contract the credit-chain codecs rely on: a non-nil hash marshals to 33 bytes (the spec's
  on-disk layout), and its decoder reads it back from the front of any longer input. What a nil
  `*Hash` does is left open. -/

namespace FactomCode

/-- Go's `[]byte`. -/
abbrev Bytes := List (BitVec 8)

/-- One step of an `Option` do-block whose computation succeeded. Proofs step the decoders with
    it rather than rewriting `>>=` to `Option.bind`, whose congruence lemma has `simp` simplify
    every later step again under a membership hypothesis. -/
theorem some_bind_do {α β : Type} (a : α) (f : α → Option β) : (some a >>= f) = f a := rfl

namespace Bytes

/-! ## Slicing -/

/-- `d[n:]`: the suffix after `n` bytes; panics (`none`) when `n > len(d)`. -/
def sliceFrom (d : Bytes) (n : Nat) : Option Bytes :=
  if n ≤ d.length then some (d.drop n) else none

/-- `d[:n]` on a slice whose capacity is its length: the first `n` bytes; panics (`none`) when
    `n > cap(d) = len(d)`. -/
def sliceTo (d : Bytes) (n : Nat) : Option Bytes :=
  if n ≤ d.length then some (d.take n) else none

@[simp] theorem sliceFrom_append (l t : Bytes) : sliceFrom (l ++ t) l.length = some t := by
  simp [sliceFrom]

@[simp] theorem sliceTo_append (l t : Bytes) : sliceTo (l ++ t) l.length = some l := by
  simp [sliceTo]

@[simp] theorem sliceFrom_cons_one (b : BitVec 8) (d : Bytes) : sliceFrom (b :: d) 1 = some d := by
  simp [sliceFrom]

theorem sliceFrom_append_of_length {l : Bytes} {n : Nat} (t : Bytes) (h : l.length = n) :
    sliceFrom (l ++ t) n = some t := h ▸ sliceFrom_append l t

theorem sliceTo_append_of_length {l : Bytes} {n : Nat} (t : Bytes) (h : l.length = n) :
    sliceTo (l ++ t) n = some l := h ▸ sliceTo_append l t

/-! ## Big-endian naturals -/

/-- The `w` big-endian bytes of `n`; bits above `8 * w` are dropped. -/
def putBE : Nat → Nat → Bytes
  | 0, _ => []
  | w + 1, n => putBE w (n / 256) ++ [BitVec.ofNat 8 n]

/-- The natural with the given big-endian bytes. -/
def getBE (l : Bytes) : Nat :=
  l.foldl (fun acc b => acc * 256 + b.toNat) 0

@[simp] theorem length_putBE (w n : Nat) : (putBE w n).length = w := by
  induction w generalizing n with
  | zero => rfl
  | succ w ih => simp [putBE, ih]

theorem getBE_append_byte (l : Bytes) (b : BitVec 8) :
    getBE (l ++ [b]) = getBE l * 256 + b.toNat := by
  simp [getBE, List.foldl_append]

theorem getBE_putBE (w n : Nat) : getBE (putBE w n) = n % 256 ^ w := by
  induction w generalizing n with
  | zero => simp [putBE, getBE, Nat.mod_one]
  | succ w ih =>
    have h8 : (2 : Nat) ^ 8 = 256 := rfl
    rw [putBE, getBE_append_byte, ih, BitVec.toNat_ofNat, h8, pow_succ' 256 w, Nat.mod_mul]
    omega

/-! ## Fixed-width words -/

/-- `binary.Write(&buf, binary.BigEndian, x)` for a `w`-bit integer written in `k` bytes. -/
def putWord {w : Nat} (k : Nat) (x : BitVec w) : Bytes := putBE k x.toNat

/-- `binary.BigEndian.UintN(d)` (and `binary.Read` into an `intN`): the word whose big-endian bytes
    are `d`. -/
def getWord (w : Nat) (d : Bytes) : BitVec w := BitVec.ofNat w (getBE d)

@[simp] theorem length_putWord {w : Nat} (k : Nat) (x : BitVec w) : (putWord k x).length = k :=
  length_putBE k _

theorem getWord_putWord {w k : Nat} (x : BitVec w) (h : w = 8 * k) :
    getWord w (putWord k x) = x := by
  apply BitVec.eq_of_toNat_eq
  have hk : (2 : Nat) ^ w = 256 ^ k := by rw [h, pow_mul]; rfl
  have hx : x.toNat < 256 ^ k := hk ▸ x.isLt
  simp only [getWord, putWord, getBE_putBE, BitVec.toNat_ofNat, Nat.mod_eq_of_lt hx]
  exact Nat.mod_eq_of_lt x.isLt

/-- Read a `k`-byte big-endian word off the front: `x, d = binary.BigEndian.UintN(d[0:k]), d[k:]`. -/
def readWord (w k : Nat) (d : Bytes) : Option (BitVec w × Bytes) := do
  let word ← sliceTo d k
  let rest ← sliceFrom d k
  return (getWord w word, rest)

@[simp] theorem readWord_putWord {w k : Nat} (x : BitVec w) (t : Bytes) (h : w = 8 * k) :
    readWord w k (putWord k x ++ t) = some (x, t) := by
  simp [readWord, sliceTo_append_of_length t (length_putWord k x),
    sliceFrom_append_of_length t (length_putWord k x), getWord_putWord x h]

end Bytes

/-! ## The `Hash` contract -/

/-- Modelled from the spec: `common/hash.go`, which defines `Hash`, is not in the repository. The
    spec's header layout gives every hash 33 bytes; a `HashCodec` is any hash type whose non-nil
    values marshal to 33 bytes that `UnmarshalBinary` reads back from the front of a longer input.
    The behaviour of a nil `*Hash` is left to the fields `marshalNil` and `sizeNil`. -/
structure HashCodec (Hash : Type) where
  /-- `(*Hash).MarshalBinary` on a non-nil hash. -/
  marshal : Hash → Bytes
  /-- `new(Hash).UnmarshalBinary(d)`: the hash read off the front of `d`, `none` if it panics. -/
  unmarshal : Bytes → Option Hash
  /-- `(*Hash).MarshalBinary` on a nil `*Hash`. -/
  marshalNil : Except String Bytes
  /-- `(*Hash).MarshalledSize` on a nil `*Hash`. -/
  sizeNil : Nat
  marshal_length : ∀ h, (marshal h).length = 33
  unmarshal_marshal : ∀ h t, unmarshal (marshal h ++ t) = some h

namespace HashCodec

attribute [simp] marshal_length unmarshal_marshal

variable {Hash : Type} (hc : HashCodec Hash)

@[simp] theorem unmarshal_marshal_self (h : Hash) : hc.unmarshal (hc.marshal h) = some h := by
  simpa using hc.unmarshal_marshal h []

/-- `(*Hash).MarshalBinary` on a possibly nil `*Hash`. -/
def marshalBinary : Option Hash → Except String Bytes
  | some h => .ok (hc.marshal h)
  | none => hc.marshalNil

/-- `(*Hash).MarshalledSize` on a possibly nil `*Hash`. -/
def marshalledSize : Option Hash → Nat
  | some _ => 33
  | none => hc.sizeNil

/-- The decoding idiom of `cchain.go`: `h.UnmarshalBinary(data); data = data[h.MarshalledSize():]`. -/
def readHash (data : Bytes) : Option (Hash × Bytes) := do
  let h ← hc.unmarshal data
  let rest ← data.sliceFrom (hc.marshalledSize (some h))
  return (h, rest)

@[simp] theorem marshalBinary_some (h : Hash) : hc.marshalBinary (some h) = .ok (hc.marshal h) :=
  rfl

@[simp] theorem marshalledSize_some (h : Hash) : hc.marshalledSize (some h) = 33 := rfl

/-- A marshalled hash is read back, and the cursor lands just after it. -/
@[simp] theorem readHash_marshal (h : Hash) (t : Bytes) : hc.readHash (hc.marshal h ++ t) = some (h, t) := by
  simp [readHash, hc.unmarshal_marshal h t, Bytes.sliceFrom_append_of_length t (hc.marshal_length h)]

/-- A lawful codec: a hash is its 33 bytes, written as they are. It shows the contract can be met
    by a codec that tells hashes apart. -/
def bytes33 : HashCodec { l : Bytes // l.length = 33 } where
  marshal h := h.1
  unmarshal d := if hd : 33 ≤ d.length then some ⟨d.take 33, by simp [hd]⟩ else none
  marshalNil := .error "nil hash"
  sizeNil := 0
  marshal_length h := h.2
  unmarshal_marshal h t := by
    have h33 : 33 ≤ (h.1 ++ t).length := by simp [h.2]
    simp only [dif_pos h33, Option.some.injEq]
    exact Subtype.ext (List.take_left' h.2)

end HashCodec

end FactomCode

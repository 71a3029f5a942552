import Mathlib.Data.BitVec
import Mathlib.Data.List.Range

set_option autoImplicit false

/-! # The rebroadcast delay: `randomUint16Number`

`rebroadcastHandler` resets its timer to `randomUint16Number(1800)` seconds. The function draws
16-bit numbers from `crypto/rand` until one falls below `limitRange = (math.MaxUint16 / max) * max`,
the largest multiple of `max` that is at most 65535, and returns that draw modulo `max`.

A draw is the value `binary.Read` leaves in `randomNumber` on one turn of the loop, and the model
reads a list of them: `none` when the list runs out before a draw is accepted (the loop goes on).
Every residue below `max` is the remainder of the same number of draws below `limitRange`
(`count_range_mul_mod_eq`), so the result is uniform when the draws are, with no modulo bias. -/

namespace FactomCode

/-- `(math.MaxUint16 / max) * max` in `uint16` arithmetic. -/
def limitRange (max : BitVec 16) : BitVec 16 := (65535 / max) * max

/-- `randomUint16Number(max)` on the draws of its loop. The division that computes `limitRange`
    panics when `max` is 0. -/
def randomUint16Number (max : BitVec 16) (draws : List (BitVec 16)) : Option (BitVec 16) :=
  if max = 0 then none else loop (limitRange max) draws
where
  /-- `for { binary.Read(...); if randomNumber < limitRange { return randomNumber % max } }`. -/
  loop (limit : BitVec 16) : List (BitVec 16) → Option (BitVec 16)
    | [] => none
    | randomNumber :: draws =>
      if randomNumber < limit then some (randomNumber % max) else loop limit draws

/-- The loop returns the first accepted draw, modulo `max`. -/
theorem randomUint16Number.loop_eq (max limit : BitVec 16) (draws : List (BitVec 16)) :
    randomUint16Number.loop max limit draws = (draws.find? (· < limit)).map (· % max) := by
  induction draws with
  | nil => rfl
  | cons r draws ih =>
    by_cases hr : r < limit
    · simp [loop, hr]
    · simp [loop, hr, ih]

/-- `limitRange` does not wrap: it is `⌊65535 / max⌋ · max`. -/
theorem limitRange_toNat (max : BitVec 16) :
    (limitRange max).toNat = 65535 / max.toNat * max.toNat := by
  have h : 65535 / max.toNat * max.toNat ≤ 65535 := Nat.div_mul_le_self 65535 max.toNat
  have h65535 : (65535 : BitVec 16).toNat = 65535 := rfl
  simp only [limitRange, BitVec.toNat_mul, BitVec.toNat_udiv, h65535]
  omega

/-! ## Counting the draws of each residue -/

/-- Below `q * m`, exactly `q` numbers leave the remainder `v < m`. -/
theorem count_range_mul_mod_eq {m v : Nat} (hv : v < m) (q : Nat) :
    (List.range (q * m)).countP (fun r => r % m = v) = q := by
  induction q with
  | zero => simp
  | succ q ih =>
    have hblock : (List.range m).countP (fun x => (q * m + x) % m = v) = 1 := by
      rw [List.countP_congr fun x hx => by
        rw [Nat.mul_add_mod_of_lt (List.mem_range.1 hx)]]
      simpa [List.count, beq_iff_eq] using
        List.count_eq_one_of_mem (List.nodup_range m) (List.mem_range.2 hv)
    rw [Nat.succ_mul, List.range_add, List.countP_append, List.countP_map, ih]
    simp only [Function.comp_def, Nat.add_left_cancel_iff] at hblock ⊢
    omega

/-- Counting the numbers below `n` that also pass a bound `L ≤ n` counts the numbers below `L`. -/
theorem countP_range_lt {n L : Nat} (hL : L ≤ n) (P : Nat → Prop) [DecidablePred P] :
    (List.range n).countP (fun r => r < L ∧ P r) = (List.range L).countP (fun r => P r) := by
  obtain ⟨k, rfl⟩ := Nat.exists_eq_add_of_le hL
  have hlow : (List.range L).countP (fun r => r < L ∧ P r) = (List.range L).countP (fun r => P r) :=
    List.countP_congr fun r hr => by simp [List.mem_range.1 hr]
  rw [List.range_add, List.countP_append, List.countP_map, hlow]
  simp [Function.comp_def]

/-! ## No modulo bias -/

/-- Rejection sampling in `randomUint16Number(max)`, for every `max` from 1 to 65535. `limitRange`
    is `⌊65535/max⌋ · max`. On every list of draws with one below `limitRange` the result is the
    first such draw modulo `max`, which is below `max`. Every residue `v < max` is the remainder of
    exactly `⌊65535/max⌋` of the 16-bit draws below `limitRange`, so uniform draws give a uniform
    result. -/
theorem randomUint16Number_unbiased (max : BitVec 16) (hmax : max ≠ 0) :
    (limitRange max).toNat = 65535 / max.toNat * max.toNat ∧
    (∀ draws : List (BitVec 16), (∃ r ∈ draws, r < limitRange max) →
      ∃ r, draws.find? (· < limitRange max) = some r ∧
        randomUint16Number max draws = some (r % max) ∧ r % max < max) ∧
    ∀ v < max, (List.range (2 ^ 16)).countP
      (fun r => BitVec.ofNat 16 r < limitRange max ∧ BitVec.ofNat 16 r % max = v) =
        65535 / max.toNat := by
  have hpos : 0 < max.toNat := Nat.pos_of_ne_zero fun h => hmax (BitVec.eq_of_toNat_eq h)
  refine ⟨limitRange_toNat max, fun draws ⟨r, hmem, hlt⟩ => ?_, fun v hv => ?_⟩
  · have hsome : (draws.find? (· < limitRange max)).isSome :=
      List.find?_isSome.2 ⟨r, hmem, decide_eq_true hlt⟩
    obtain ⟨x, hx⟩ := Option.isSome_iff_exists.1 hsome
    refine ⟨x, hx, by rw [randomUint16Number, if_neg hmax, randomUint16Number.loop_eq, hx]; rfl, ?_⟩
    rw [BitVec.lt_def, BitVec.toNat_umod]
    exact Nat.mod_lt _ hpos
  · -- a draw is accepted with residue `v` exactly when its value is
    have hdraws : (List.range (2 ^ 16)).countP
        (fun r => BitVec.ofNat 16 r < limitRange max ∧ BitVec.ofNat 16 r % max = v) =
        (List.range (2 ^ 16)).countP
          (fun r => r < (limitRange max).toNat ∧ r % max.toNat = v.toNat) :=
      List.countP_congr fun r hr => by
        simp only [decide_eq_true_eq, BitVec.lt_def, BitVec.toNat_eq, BitVec.toNat_umod,
          BitVec.toNat_ofNat, Nat.mod_eq_of_lt (List.mem_range.1 hr)]
    rw [hdraws, countP_range_lt (limitRange max).isLt.le (fun r => r % max.toNat = v.toNat),
      limitRange_toNat]
    exact count_range_mul_mod_eq (BitVec.lt_def.1 hv) _

/-- The rebroadcast delay, `max = 1800`: 36 draws below `limitRange = 64800` for each residue; a
    first draw of 65000 is rejected and a second of 4000 gives 400 seconds. -/
theorem randomUint16Number_unbiased_rebroadcast :
    (1800 : BitVec 16) ≠ 0 ∧ randomUint16Number 1800 [65000, 4000] = some 400 ∧
      ∀ v < (1800 : BitVec 16), (List.range (2 ^ 16)).countP
        (fun r => BitVec.ofNat 16 r < limitRange 1800 ∧ BitVec.ofNat 16 r % 1800 = v) = 36 :=
  ⟨by decide, by decide, (randomUint16Number_unbiased 1800 (by decide)).2.2⟩

end FactomCode

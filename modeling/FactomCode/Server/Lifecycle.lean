import Mathlib.Data.BitVec

set_option autoImplicit false

/-! # Starting and stopping the server

`Start`, `Stop` and `ScheduleShutdown` each guard their body with
`atomic.AddInt32(&counter, 1) != 1`: only the call that moves the counter from 0 to 1 goes on.
`atomicOnce` is that guard, and each function keeps its own definition over it. The counter is an
`int32`, so the guard lets one call in every 2^32 through; the theorems below hold for runs of at
most 2^32 calls.

`Stop` closes the listeners in order and returns the first error before it reaches `close(s.quit)`.
`stopRun_closed_form` gives a whole run of `Stop` calls: the first call closes `quit` exactly when
every listener closes, each later call returns nil and changes nothing but the counter, and no call
closes `quit` a second time (which would panic). So one listener that fails to close on the first
call leaves `quit` open for good, and no goroutine that waits on it ever ends. Past 2^32 calls the
counter wraps, and `stopRun_eq_none_iff` says which runs of any length panic. -/

namespace FactomCode

/-- `atomic.AddInt32(&counter, 1) != 1`: the new counter, and whether the body runs. -/
def atomicOnce (counter : BitVec 32) : BitVec 32 × Bool := (counter + 1, counter + 1 = 1)

/-- The guard of `Start` on `s.started`. -/
def startGuard (started : BitVec 32) : BitVec 32 × Bool := atomicOnce started

/-- The guard of `ScheduleShutdown` on `s.shutdownSched`. -/
def scheduleShutdownGuard (shutdownSched : BitVec 32) : BitVec 32 × Bool := atomicOnce shutdownSched

/-- After `k` calls from 0 the counter holds `k`, modulo 2^32. -/
theorem atomicOnce_counter (k : Nat) :
    (atomicOnce (BitVec.ofNat 32 k)).1 = BitVec.ofNat 32 (k + 1) := by
  have h1 : (1 : BitVec 32).toNat = 1 := rfl
  apply BitVec.eq_of_toNat_eq
  simp only [atomicOnce, BitVec.toNat_add, BitVec.toNat_ofNat, h1]
  omega

/-- The guard runs the body exactly when the counter, counted from 0, is a multiple of 2^32: of
    the first 2^32 calls, only the first. -/
theorem atomicOnce_runs_ofNat (k : Nat) :
    (atomicOnce (BitVec.ofNat 32 k)).2 = decide (k % 2 ^ 32 = 0) := by
  have h1 : (1 : BitVec 32).toNat = 1 := rfl
  have hiff : BitVec.ofNat 32 k + 1 = 1 ↔ k % 2 ^ 32 = 0 := by
    rw [BitVec.toNat_eq, BitVec.toNat_add, BitVec.toNat_ofNat, h1]
    omega
  simp only [atomicOnce, hiff]

/-! ## `Stop` -/

/-- What `Stop` reads and writes: `s.shutdown`, and whether `s.quit` is closed. -/
structure StopState where
  shutdown : BitVec 32
  quitClosed : Bool
  deriving DecidableEq, Repr

/-- A server that has not been stopped. -/
def StopState.init : StopState := ⟨0, false⟩

/-- `Stop()`, with what `listener.Close()` returned for each listener in turn (`none` for nil): the
    state and the error returned. Closing a closed `quit` panics: `none`. -/
def stop (s : StopState) (closeErrs : List (Option String)) : Option (StopState × Option String) :=
  let (shutdown, runs) := atomicOnce s.shutdown
  if !runs then some ({ s with shutdown }, none)
  else
    match closeErrs.findSome? id with
    | some err => some ({ s with shutdown }, some err)
    | none => if s.quitClosed then none else some ({ shutdown, quitClosed := true }, none)

/-- A run of `Stop` calls, with the error each returns. -/
def stopRun (s : StopState) : List (List (Option String)) → Option (StopState × List (Option String))
  | [] => some (s, [])
  | c :: cs => do
    let (s', err) ← stop s c
    let (s'', errs) ← stopRun s' cs
    pure (s'', err :: errs)

/-- A call after the first only counts. -/
theorem stop_of_runs_false {s : StopState} (h : (atomicOnce s.shutdown).2 = false)
    (c : List (Option String)) :
    stop s c = some ({ s with shutdown := (atomicOnce s.shutdown).1 }, none) := by
  simp [stop, h]

/-- The first call: it closes `quit` unless a listener fails to close. -/
theorem stop_init (c : List (Option String)) :
    stop StopState.init c = some (⟨BitVec.ofNat 32 1, (c.findSome? id).isNone⟩, c.findSome? id) := by
  cases h : c.findSome? id <;> simp only [stop, h] <;> rfl

/-- Calls after the first, while the counter does not wrap, return nil and only count. -/
theorem stopRun_later {q : Bool} :
    ∀ {k : Nat} (cs : List (List (Option String))), 1 ≤ k → k + cs.length ≤ 2 ^ 32 →
      stopRun ⟨BitVec.ofNat 32 k, q⟩ cs =
        some (⟨BitVec.ofNat 32 (k + cs.length), q⟩, cs.map fun _ => none)
  | _, [], _, _ => rfl
  | k, c :: cs, hk, hlen => by
    have hruns : (atomicOnce (BitVec.ofNat 32 k)).2 = false := by
      rw [atomicOnce_runs_ofNat, decide_eq_false_iff_not, Nat.mod_eq_of_lt (by simp at hlen; omega)]
      omega
    have hcount := atomicOnce_counter k
    have ih := stopRun_later (q := q) (k := k + 1) cs (by omega) (by simp at hlen; omega)
    simp only [stopRun, stop_of_runs_false (s := ⟨BitVec.ofNat 32 k, q⟩) hruns, hcount,
      Option.bind_eq_bind, Option.some_bind, ih, List.length_cons, List.map_cons]
    rw [show k + (cs.length + 1) = k + 1 + cs.length by omega]
    rfl

/-- A whole run of at most 2^32 `Stop` calls. The first closes the listeners, returns the first
    error of `Close`, and closes `quit` only when there is none; every later call returns nil and
    only counts. No call panics, and whether `quit` is closed is settled by the first call. -/
theorem stopRun_closed_form (c : List (Option String)) (cs : List (List (Option String)))
    (hlen : cs.length < 2 ^ 32) :
    stopRun StopState.init (c :: cs) =
      some (⟨BitVec.ofNat 32 (1 + cs.length), (c.findSome? id).isNone⟩,
        c.findSome? id :: cs.map fun _ => none) := by
  simp only [stopRun, stop_init, Option.bind_eq_bind, Option.some_bind,
    stopRun_later (q := (c.findSome? id).isNone) (k := 1) cs (le_refl 1) (by omega)]
  rfl

/-- Three calls, the first with a listener that fails to close: `quit` stays open. -/
theorem stopRun_closed_form_closeError :
    ([[], []] : List (List (Option String))).length < 2 ^ 32 ∧
      stopRun StopState.init [[none, some "use of closed network connection"], [], []] =
        some (⟨3, false⟩, [some "use of closed network connection", none, none]) :=
  ⟨by decide, stopRun_closed_form [none, some "use of closed network connection"] [[], []]
    (by decide)⟩

/-! ## Runs of any length

The `int32` counter wraps, so calls 1, 2^32 + 1, 2·2^32 + 1, … of `Stop` all find it at 0 and run
the body again. -/

/-- One call of `Stop` on a counter that has counted `k` calls. -/
theorem stop_ofNat (k : Nat) (q : Bool) (c : List (Option String)) :
    stop ⟨BitVec.ofNat 32 k, q⟩ c =
      if k % 2 ^ 32 = 0 then
        match c.findSome? id with
        | some err => some (⟨BitVec.ofNat 32 (k + 1), q⟩, some err)
        | none => if q then none else some (⟨BitVec.ofNat 32 (k + 1), true⟩, none)
      else some (⟨BitVec.ofNat 32 (k + 1), q⟩, none) := by
  have hcount := atomicOnce_counter k
  have hruns := atomicOnce_runs_ofNat k
  simp only [stop] at hcount hruns ⊢
  rw [hcount, hruns]
  by_cases hk : k % 2 ^ 32 = 0 <;> simp [hk]

theorem stopRun_cons_eq_none {s : StopState} {c : List (Option String)}
    {cs : List (List (Option String))} :
    stopRun s (c :: cs) = none ↔ ∀ r, stop s c = some r → stopRun r.1 cs = none := by
  cases h : stop s c with
  | none => simp [stopRun, h]
  | some r =>
    obtain ⟨s', e⟩ := r
    cases h' : stopRun s' cs <;> simp [stopRun, h, h']

/-- The calls of a run, numbered from `k`, that find the counter at 0 and whose listeners all
    close: each of them reaches `close(s.quit)`. -/
def closingCalls (k : Nat) (calls : List (List (Option String))) : Nat :=
  (calls.enumFrom k).countP fun c => c.1 % 2 ^ 32 = 0 ∧ c.2.findSome? id = none

theorem closingCalls_cons (k : Nat) (c : List (Option String)) (cs : List (List (Option String))) :
    closingCalls k (c :: cs) =
      closingCalls (k + 1) cs + if k % 2 ^ 32 = 0 ∧ c.findSome? id = none then 1 else 0 := by
  simp [closingCalls, List.enumFrom_cons, List.countP_cons]

/-- From a counter that has counted `k` calls and a `quit` that is closed or not, a run panics
    exactly when `quit` is closed twice. -/
theorem stopRun_eq_none_iff_from (k : Nat) (q : Bool) (calls : List (List (Option String))) :
    stopRun ⟨BitVec.ofNat 32 k, q⟩ calls = none ↔ 2 ≤ q.toNat + closingCalls k calls := by
  induction calls generalizing k q with
  | nil => cases q <;> simp [stopRun, closingCalls]
  | cons c cs ih =>
    rw [stopRun_cons_eq_none, stop_ofNat, closingCalls_cons]
    by_cases hk : k % 2 ^ 32 = 0
    · rw [hk]
      cases hc : c.findSome? id with
      | some err => simp [ih]
      | none => cases q <;> simp [ih] <;> omega
    · rw [if_neg hk, if_neg fun h => hk h.1]
      simp [ih]

/-- A run of `Stop` calls on a fresh server panics exactly when two of its calls close `quit`: the
    calls that find the wrapped `int32` counter at 0 (calls 1, 2^32 + 1, 2·2^32 + 1, …) run the
    body, each of them whose listeners all close reaches `close(s.quit)`, and the second such call
    closes it again. -/
theorem stopRun_eq_none_iff (calls : List (List (Option String))) :
    stopRun StopState.init calls = none ↔ 2 ≤ closingCalls 0 calls := by
  have h := stopRun_eq_none_iff_from 0 false calls
  rw [Bool.toNat_false, Nat.zero_add] at h
  exact h

end FactomCode

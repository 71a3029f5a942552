import FactomCode.Server.RandomDelay
import Mathlib.Data.List.AList
import Mathlib.Logic.Function.Basic

set_option autoImplicit false

/-! # The rebroadcast handler

`rebroadcastHandler` keeps the inventories submitted through `AddRebroadcastInventory` in the map
`pendingInvs` until `RemoveRebroadcastInventory` takes them out, and on each timer turn relays every
one of them, then sets the timer to `randomUint16Number(1800)` seconds. After `quit` it stops the
timer and drains `modifyRebroadcastInv`.

The model is the handler's loop as a step function over its locals. The `select` of the loop is
an event: a message on `modifyRebroadcastInv`, the timer, or `quit`. A timer event names the order
in which `range pendingInvs` visits the keys, which Go leaves open, and the step takes only an
order that visits each key once. Over the loop, `PendingSpec` says what the handler is for: a
set of pending inventories, each sent once on every timer turn. `rebroadcastRun_refines` shows
every run of the loop is a run of that specification, turn by turn. -/

namespace FactomCode

variable {Inv Data : Type}

/-- `broadcastInventoryAdd` and `broadcastInventoryDel` as the handler reads them, the vector
    dereferenced. -/
inductive RebroadcastMsg (Inv Data : Type)
  | add (iv : Inv) (data : Data)
  | del (iv : Inv)

/-- The case the `select` of `rebroadcastHandler` takes on one turn. `timer` carries the order of
    the keys in `range pendingInvs` and the draws of `randomUint16Number(1800)`. -/
inductive RebroadcastEvent (Inv Data : Type)
  | modify (msg : RebroadcastMsg Inv Data)
  | timer (order : List Inv) (draws : List (BitVec 16))
  | quit

/-- The locals of `rebroadcastHandler`: the map, the seconds the timer was last set to, and
    whether the loop `out` still runs. -/
structure RebroadcastState (Inv Data : Type) where
  pendingInvs : AList (fun _ : Inv => Data)
  timerSeconds : Nat
  running : Bool

/-- The state on entry: an empty map and `time.NewTimer(5 * time.Minute)`. -/
def RebroadcastState.init : RebroadcastState Inv Data := ⟨∅, 5 * 60, true⟩

/-- A relay list that sends each inventory of `pending` once, and nothing else. -/
def RelaysExactly (out : List (Inv × Data)) (pending : Inv → Option Data) : Prop :=
  out.Nodup ∧ ∀ iv data, (iv, data) ∈ out ↔ pending iv = some data

theorem relaysExactly_nil : RelaysExactly ([] : List (Inv × Data)) fun _ => none :=
  ⟨List.nodup_nil, by simp⟩

variable [DecidableEq Inv]

/-- `s.RelayInventory(&ivCopy, data)` for each key, in the order `range` visits them. -/
def relayPending (pendingInvs : AList (fun _ : Inv => Data)) (order : List Inv) :
    List (Inv × Data) :=
  order.filterMap fun iv => (pendingInvs.lookup iv).map (iv, ·)

/-- One turn of the loop of `rebroadcastHandler` and the relay messages it sends. There is no
    turn (`none`) for a timer whose order is not one `range` can take, when
    `randomUint16Number` never returns, or for the timer and `quit` once the loop is left. After
    `break out`, the drain takes a message and drops it. -/
def rebroadcastStep (s : RebroadcastState Inv Data) :
    RebroadcastEvent Inv Data → Option (RebroadcastState Inv Data × List (Inv × Data))
  | .modify msg =>
    if s.running then
      match msg with
      | .add iv data => some ({ s with pendingInvs := s.pendingInvs.insert iv data }, [])
      | .del iv =>
        some ({ s with
          pendingInvs := if iv ∈ s.pendingInvs then s.pendingInvs.erase iv else s.pendingInvs }, [])
    else some (s, [])
  | .timer order draws =>
    if s.running ∧ order.Perm s.pendingInvs.keys then do
      let seconds ← randomUint16Number 1800 draws
      pure ({ s with timerSeconds := seconds.toNat }, relayPending s.pendingInvs order)
    else none
  | .quit => if s.running then some ({ s with running := false }, []) else none

/-- A run of the handler over a list of events: the last state and the relay messages of every
    turn, in order. -/
def rebroadcastRun (s : RebroadcastState Inv Data) :
    List (RebroadcastEvent Inv Data) →
      Option (RebroadcastState Inv Data × List (List (Inv × Data)))
  | [] => some (s, [])
  | e :: es => do
    let (s', out) ← rebroadcastStep s e
    let (s'', outs) ← rebroadcastRun s' es
    pure (s'', out :: outs)

/-! ## What one turn can do -/

/-- Everything one turn of the loop can do. -/
theorem rebroadcastStep_cases {s s' : RebroadcastState Inv Data} {e : RebroadcastEvent Inv Data}
    {out : List (Inv × Data)} (h : rebroadcastStep s e = some (s', out)) :
    (s.running ∧ ∃ iv data, e = .modify (.add iv data) ∧
      s' = { s with pendingInvs := s.pendingInvs.insert iv data } ∧ out = []) ∨
    (s.running ∧ ∃ iv, e = .modify (.del iv) ∧ s'.running = s.running ∧
      s'.timerSeconds = s.timerSeconds ∧ s'.pendingInvs.lookup iv = none ∧
      (∀ iv', iv' ≠ iv → s'.pendingInvs.lookup iv' = s.pendingInvs.lookup iv') ∧ out = []) ∨
    (s.running ∧ ∃ order draws seconds, e = .timer order draws ∧
      order.Perm s.pendingInvs.keys ∧ randomUint16Number 1800 draws = some seconds ∧
      s' = { s with timerSeconds := seconds.toNat } ∧ out = relayPending s.pendingInvs order) ∨
    (s.running ∧ e = .quit ∧ s' = { s with running := false } ∧ out = []) ∨
    (s.running = false ∧ (∃ msg, e = .modify msg) ∧ s' = s ∧ out = []) := by
  cases e with
  | modify msg =>
    simp only [rebroadcastStep] at h
    split_ifs at h with hrun
    · cases msg with
      | add iv data =>
        cases h
        exact .inl ⟨hrun, iv, data, rfl, rfl, rfl⟩
      | del iv =>
        cases h
        refine .inr (.inl ⟨hrun, iv, rfl, rfl, rfl, ?_, fun iv' hne => ?_, rfl⟩)
        · split_ifs with hmem
          · exact AList.lookup_erase _ _
          · exact AList.lookup_eq_none.2 hmem
        · split_ifs
          · exact AList.lookup_erase_ne hne
          · rfl
    · cases h
      exact .inr (.inr (.inr (.inr ⟨by simpa using hrun, ⟨msg, rfl⟩, rfl, rfl⟩)))
  | timer order draws =>
    simp only [rebroadcastStep] at h
    split_ifs at h with hrun
    obtain ⟨seconds, hsec, h⟩ := Option.bind_eq_some.1 h
    cases h
    exact .inr (.inr (.inl ⟨hrun.1, order, draws, seconds, rfl, hrun.2, hsec, rfl, rfl⟩))
  | quit =>
    simp only [rebroadcastStep] at h
    split_ifs at h with hrun
    cases h
    exact .inr (.inr (.inr (.inl ⟨hrun, rfl, rfl, rfl⟩)))

theorem rebroadcastRun_cons {s s'' : RebroadcastState Inv Data} {e : RebroadcastEvent Inv Data}
    {es : List (RebroadcastEvent Inv Data)} {outs : List (List (Inv × Data))}
    (h : rebroadcastRun s (e :: es) = some (s'', outs)) :
    ∃ s' out outs', rebroadcastStep s e = some (s', out) ∧ rebroadcastRun s' es = some (s'', outs') ∧
      outs = out :: outs' := by
  obtain ⟨⟨s', out⟩, hstep, h⟩ := Option.bind_eq_some.1 h
  obtain ⟨⟨s₂, outs'⟩, hrun, h⟩ := Option.bind_eq_some.1 h
  cases h
  exact ⟨s', out, outs', hstep, hrun, rfl⟩

/-! ## A timer turn relays each pending inventory once -/

/-- Visiting each key once, the timer turn relays each entry of the map once. -/
theorem relayPending_relaysExactly {pendingInvs : AList (fun _ : Inv => Data)} {order : List Inv}
    (horder : order.Perm pendingInvs.keys) :
    RelaysExactly (relayPending pendingInvs order) (pendingInvs.lookup ·) := by
  refine ⟨(horder.nodup_iff.2 pendingInvs.keys_nodup).filterMap fun a a' b ha ha' => ?_,
    fun iv data => ?_⟩
  · obtain ⟨d, -, rfl⟩ := Option.map_eq_some'.1 ha
    obtain ⟨d', -, he⟩ := Option.map_eq_some'.1 ha'
    exact (Prod.mk.inj he).1.symm
  · simp only [relayPending, List.mem_filterMap, Option.map_eq_some', Prod.mk.injEq]
    constructor
    · rintro ⟨a, -, d, hd, rfl, rfl⟩
      exact hd
    · intro hd
      have hmem : iv ∈ pendingInvs := AList.lookup_isSome.1 (by rw [hd]; rfl)
      exact ⟨iv, horder.mem_iff.2 (AList.mem_keys.1 hmem), data, hd, rfl, rfl⟩

/-! ## What the handler is for -/

/-- The handler as its comment states it: the inventories pending rebroadcast with their data,
    and whether it still runs. -/
structure PendingSpec (Inv Data : Type) where
  pending : Inv → Option Data
  running : Bool

/-- One turn of the specification, with the inventories it sends: an add makes an inventory
    pending with its data, a delete ends that, a timer turn sends every pending inventory, and
    nothing changes once the handler has quit. -/
def PendingSpec.step (a : PendingSpec Inv Data) :
    RebroadcastEvent Inv Data → PendingSpec Inv Data × (Inv → Option Data)
  | .modify (.add iv data) =>
    (if a.running then { a with pending := Function.update a.pending iv (some data) } else a,
      fun _ => none)
  | .modify (.del iv) =>
    (if a.running then { a with pending := Function.update a.pending iv none } else a,
      fun _ => none)
  | .timer _ _ => (a, a.pending)
  | .quit => ({ a with running := false }, fun _ => none)

/-- A run of the specification: the last state and what each turn sends. -/
def PendingSpec.run (a : PendingSpec Inv Data) :
    List (RebroadcastEvent Inv Data) → PendingSpec Inv Data × List (Inv → Option Data)
  | [] => (a, [])
  | e :: es => ((a.step e).1.run es |>.1, (a.step e).2 :: ((a.step e).1.run es).2)

/-- The handler's locals stand for a state of the specification. -/
def RebroadcastState.Refines (s : RebroadcastState Inv Data) (a : PendingSpec Inv Data) : Prop :=
  (∀ iv, s.pendingInvs.lookup iv = a.pending iv) ∧ s.running = a.running

theorem RebroadcastState.init_refines :
    (RebroadcastState.init : RebroadcastState Inv Data).Refines ⟨fun _ => none, true⟩ :=
  ⟨fun _ => AList.lookup_empty _, rfl⟩

/-- One turn of the loop is a turn of the specification, and sends what it sends. -/
theorem rebroadcastStep_refines {s s' : RebroadcastState Inv Data} {a : PendingSpec Inv Data}
    {e : RebroadcastEvent Inv Data} {out : List (Inv × Data)}
    (h : rebroadcastStep s e = some (s', out)) (hr : s.Refines a) :
    s'.Refines (a.step e).1 ∧ RelaysExactly out (a.step e).2 := by
  obtain ⟨hlook, hrun⟩ := hr
  rcases rebroadcastStep_cases h with
    ⟨hs, iv, data, rfl, rfl, rfl⟩ | ⟨hs, iv, rfl, hrun', -, hgone, hkeep, rfl⟩ |
    ⟨hs, order, draws, seconds, rfl, horder, -, rfl, rfl⟩ | ⟨hs, rfl, rfl, rfl⟩ |
    ⟨hs, ⟨msg, rfl⟩, rfl, rfl⟩
  · rw [hrun] at hs
    refine ⟨⟨fun iv' => ?_, by simp [PendingSpec.step, hs, hrun]⟩, relaysExactly_nil⟩
    by_cases hiv : iv' = iv
    · subst hiv
      simp [PendingSpec.step, hs, AList.lookup_insert]
    · simp [PendingSpec.step, hs, AList.lookup_insert_ne hiv, Function.update_noteq hiv, hlook]
  · rw [hrun] at hs
    refine ⟨⟨fun iv' => ?_, by simp [PendingSpec.step, hs, hrun', hrun]⟩, relaysExactly_nil⟩
    by_cases hiv : iv' = iv
    · subst hiv
      simp [PendingSpec.step, hs, hgone]
    · simp [PendingSpec.step, hs, hkeep iv' hiv, Function.update_noteq hiv, hlook]
  · refine ⟨⟨hlook, hrun⟩, ?_⟩
    have hpend : a.pending = (s.pendingInvs.lookup ·) := funext fun iv => (hlook iv).symm
    simpa only [PendingSpec.step, hpend] using relayPending_relaysExactly horder
  · exact ⟨⟨hlook, rfl⟩, relaysExactly_nil⟩
  · rw [hrun] at hs
    have hstep : a.step (.modify msg) = (a, fun _ => none) := by
      cases msg <;> simp [PendingSpec.step, hs]
    rw [hstep]
    exact ⟨⟨hlook, hrun⟩, relaysExactly_nil⟩

/-- Every run of the loop is a run of the specification: the map holds exactly the pending
    inventories, and every timer turn relays each of them once and nothing else, whatever order
    `range` takes. -/
theorem rebroadcastRun_refines :
    ∀ {evs : List (RebroadcastEvent Inv Data)} {s s' : RebroadcastState Inv Data}
      {a : PendingSpec Inv Data} {outs : List (List (Inv × Data))},
      rebroadcastRun s evs = some (s', outs) → s.Refines a →
      s'.Refines (a.run evs).1 ∧ List.Forall₂ RelaysExactly outs (a.run evs).2
  | [], _, _, _, _, h, hr => by
    cases h
    exact ⟨hr, .nil⟩
  | _ :: _, _, _, _, _, h, hr => by
    obtain ⟨s₁, out, outs', hstep, hrun, rfl⟩ := rebroadcastRun_cons h
    obtain ⟨hr₁, hout⟩ := rebroadcastStep_refines hstep hr
    obtain ⟨hr', houts⟩ := rebroadcastRun_refines hrun hr₁
    exact ⟨hr', .cons hout houts⟩

/-- Two adds, a timer turn, a delete, a timer turn with one rejected draw, `quit`, and an add
    that the drain drops. -/
def sampleRebroadcastEvents : List (RebroadcastEvent Nat Nat) :=
  [.modify (.add 1 10), .modify (.add 2 20), .timer [2, 1] [5], .modify (.del 1),
    .timer [2] [65535, 7], .quit, .modify (.add 3 30)]

/-- Where the sample run ends: only inventory 2 pending, the timer at 7 seconds, the loop left. -/
def sampleRebroadcastEnd : RebroadcastState Nat Nat := ⟨(∅ : AList fun _ : Nat => Nat).insert 2 20, 7, false⟩

theorem rebroadcastRun_refines_sample :
    rebroadcastRun RebroadcastState.init sampleRebroadcastEvents =
        some (sampleRebroadcastEnd, [[], [], [(2, 20), (1, 10)], [], [(2, 20)], [], []]) ∧
      (RebroadcastState.init : RebroadcastState Nat Nat).Refines ⟨fun _ => none, true⟩ ∧
      sampleRebroadcastEnd.Refines
        (PendingSpec.run ⟨fun _ => none, true⟩ sampleRebroadcastEvents).1 ∧
      List.Forall₂ RelaysExactly [[], [], [(2, 20), (1, 10)], [], [(2, 20)], [], []]
        (PendingSpec.run ⟨fun _ => none, true⟩ sampleRebroadcastEvents).2 := by
  have h : rebroadcastRun RebroadcastState.init sampleRebroadcastEvents =
      some (sampleRebroadcastEnd, [[], [], [(2, 20), (1, 10)], [], [(2, 20)], [], []]) := by
    rfl
  exact ⟨h, RebroadcastState.init_refines, rebroadcastRun_refines h RebroadcastState.init_refines⟩

end FactomCode

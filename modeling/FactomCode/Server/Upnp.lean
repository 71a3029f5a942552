import Mathlib.Data.List.Basic

set_option autoImplicit false

/-! # Renewing the UPnP port mapping

`upnpUpdateThread` asks the NAT device for a 20-minute mapping of the listen port when it starts
and each time its timer fires, and resets the timer to 15 minutes after each request. On the
first request that succeeds it looks up the external address and hands it to the address manager
with `AddLocalAddress`. When that lookup fails the loop takes `continue out`, which skips
`timer.Reset`: the timer has fired and is never armed again. `upnpRun_stalls` gives the rest of
such a run: no further request at all, only the `DeletePortMapping` on `quit`, while the mapping
the device granted runs out after 20 minutes.

The thread is a state machine over what wakes its `select`. An event carries what
`AddPortMapping` and `GetExternalAddress` return (the second is read only when the code calls it),
so the NAT device is an oracle and every failure path is a choice of event. -/

namespace FactomCode

/-- The calls the thread makes, in order. -/
inductive UpnpCall (IP : Type) where
  /-- `s.nat.AddPortMapping("tcp", lport, lport, "btcd listen port", lease)` -/
  | addPortMapping (lport : Int) (lease : Nat)
  /-- `s.nat.GetExternalAddress()` -/
  | getExternalAddress
  /-- `s.addrManager.AddLocalAddress(na, addrmgr.UpnpPrio)`, `na` built from the external address
      and `uint16(listenPort)`. -/
  | addLocalAddress (ip : IP) (port : Nat)
  /-- `s.nat.DeletePortMapping("tcp", lport, lport)` -/
  | deletePortMapping (lport : Int)
  deriving DecidableEq, Repr

/-- What wakes the `select`: `timer.C` received at time `now` (in seconds), with what
    `AddPortMapping` and `GetExternalAddress` return; or `s.quit`. -/
inductive UpnpEvent (IP : Type) where
  | timer (now : Nat) (mapped : Except String Int) (external : Except String IP)
  | quit

/-- The thread's locals: `first`, the timer, and whether the loop still runs. -/
structure UpnpState where
  first : Bool
  /-- When `timer.C` next delivers; `none` once it has fired and was not reset, or was stopped. -/
  timer : Option Nat
  running : Bool
  deriving DecidableEq, Repr

/-- `timer := time.NewTimer(0 * time.Second)` at time `start`, and `first := true`. -/
def UpnpState.init (start : Nat) : UpnpState := ⟨true, some start, true⟩

/-- `time.Minute * 15`, in seconds. -/
def upnpRenewal : Nat := 15 * 60

/-- The lease asked for, `20*60`: the code passes it as seconds. -/
def upnpLease : Nat := 20 * 60

variable {IP : Type}

/-- The body of `case <-timer.C:` on the thread's `lport`: the new `first`, when the timer next
    delivers (`none` after `continue out`, which skips `timer.Reset`), and the calls made. -/
def upnpTimerTurn (lport : Int) (first : Bool) (now : Nat) (mapped : Except String Int)
    (external : Except String IP) : Bool × Option Nat × List (UpnpCall IP) :=
  let add := UpnpCall.addPortMapping lport upnpLease
  match first, mapped with
  | true, .ok listenPort =>
    match external with
    | .error _ => (true, none, [add, .getExternalAddress])
    | .ok ip => (false, some (now + upnpRenewal),
        [add, .getExternalAddress, .addLocalAddress ip (listenPort % 65536).toNat])
  | _, _ => (first, some (now + upnpRenewal), [add])

/-- One turn of the `for`/`select` loop. The timer case needs the timer armed and due; after
    `break out` the thread stops the timer, deletes the mapping and returns. -/
def upnpStep (lport : Int) (s : UpnpState) : UpnpEvent IP → Option (UpnpState × List (UpnpCall IP))
  | .timer now mapped external =>
    if s.running ∧ s.timer.any (· ≤ now) then
      let (first, timer, calls) := upnpTimerTurn lport s.first now mapped external
      some ({ s with first, timer }, calls)
    else none
  | .quit =>
    if s.running then some ({ s with running := false, timer := none }, [.deletePortMapping lport])
    else none

/-- A run of the thread, with every call it makes. -/
def upnpRun (lport : Int) (s : UpnpState) :
    List (UpnpEvent IP) → Option (UpnpState × List (UpnpCall IP))
  | [] => some (s, [])
  | e :: es => do
    let (s', c) ← upnpStep lport s e
    let (s'', cs) ← upnpRun lport s' es
    pure (s'', c ++ cs)

variable {lport : Int} {s s' : UpnpState} {e : UpnpEvent IP} {c : List (UpnpCall IP)}

theorem upnpRun_cons {es : List (UpnpEvent IP)} {cs : List (UpnpCall IP)}
    (h : upnpRun lport s (e :: es) = some (s', cs)) :
    ∃ s₁ c₁ cs₁, upnpStep lport s e = some (s₁, c₁) ∧ upnpRun lport s₁ es = some (s', cs₁) ∧
      cs = c₁ ++ cs₁ := by
  simp only [upnpRun, Option.bind_eq_bind] at h
  obtain ⟨⟨s₁, c₁⟩, h1, h⟩ := Option.bind_eq_some.1 h
  obtain ⟨⟨s₂, cs₁⟩, h2, h⟩ := Option.bind_eq_some.1 h
  cases h
  exact ⟨s₁, c₁, cs₁, h1, h2, rfl⟩

/-- Everything one turn can do. -/
theorem upnpStep_cases (h : upnpStep lport s e = some (s', c)) :
    (∃ now mapped external, e = .timer now mapped external ∧ s.running = true ∧
      s' = { s with first := (upnpTimerTurn lport s.first now mapped external).1,
                    timer := (upnpTimerTurn lport s.first now mapped external).2.1 } ∧
      c = (upnpTimerTurn lport s.first now mapped external).2.2) ∨
    (e = .quit ∧ s.running = true ∧ s' = { s with running := false, timer := none } ∧
      c = [.deletePortMapping lport]) := by
  cases e with
  | timer now mapped external =>
    simp only [upnpStep] at h
    split_ifs at h with hg
    cases h
    exact .inl ⟨now, mapped, external, rfl, hg.1, rfl, rfl⟩
  | quit =>
    simp only [upnpStep] at h
    split_ifs at h with hr
    cases h
    exact .inr ⟨rfl, hr, rfl, rfl⟩

/-- A thread that has left its loop takes no turn. -/
theorem upnpStep_stopped (hs : s.running = false) : upnpStep lport s e = none := by
  cases e <;> simp [upnpStep, hs]

theorem upnpRun_stopped {es : List (UpnpEvent IP)} {cs : List (UpnpCall IP)}
    (hs : s.running = false) (h : upnpRun lport s es = some (s', cs)) : es = [] ∧ cs = [] := by
  cases es with
  | nil => cases h; exact ⟨rfl, rfl⟩
  | cons e es =>
    obtain ⟨_, _, _, h1, -, -⟩ := upnpRun_cons h
    simp [upnpStep_stopped hs] at h1

/-- A timer that is not armed never delivers: only `quit` wakes the thread. -/
theorem upnpStep_disarmed (ht : s.timer = none) (h : upnpStep lport s e = some (s', c)) :
    e = .quit ∧ s'.running = false ∧ c = [.deletePortMapping lport] := by
  cases e with
  | timer now mapped external => simp [upnpStep, ht] at h
  | quit =>
    obtain ⟨⟩ | ⟨-, -, rfl, rfl⟩ := upnpStep_cases h
    · simp_all
    · exact ⟨rfl, rfl, rfl⟩

theorem upnpRun_disarmed {es : List (UpnpEvent IP)} {cs : List (UpnpCall IP)}
    (ht : s.timer = none) (h : upnpRun lport s es = some (s', cs)) :
    (es = [] ∧ cs = []) ∨ (es = [.quit] ∧ cs = [.deletePortMapping lport]) := by
  cases es with
  | nil => cases h; exact .inl ⟨rfl, rfl⟩
  | cons e es =>
    obtain ⟨s₁, c₁, cs₁, h1, h2, rfl⟩ := upnpRun_cons h
    obtain ⟨rfl, hs₁, rfl⟩ := upnpStep_disarmed ht h1
    obtain ⟨rfl, rfl⟩ := upnpRun_stopped hs₁ h2
    exact .inr ⟨rfl, rfl⟩

/-- The lease is never renewed after a failed lookup. Once a mapping request succeeds while
    `first` is set and `GetExternalAddress` then fails, `continue out` leaves the timer unarmed:
    the rest of the run is at most `quit`, so the thread makes no other request, never
    advertises the address, and only deletes the mapping when the server stops. -/
theorem upnpRun_stalls (hfirst : s.first = true) (now : Nat) (listenPort : Int) (err : String)
    {es : List (UpnpEvent IP)} {cs : List (UpnpCall IP)}
    (h : upnpRun lport s (.timer now (.ok listenPort) (.error err) :: es) = some (s', cs)) :
    (es = [] ∧ cs = [.addPortMapping lport upnpLease, .getExternalAddress]) ∨
      (es = [.quit] ∧ cs = [.addPortMapping lport upnpLease, .getExternalAddress,
        .deletePortMapping lport]) := by
  obtain ⟨s₁, c₁, cs₁, h1, h2, rfl⟩ := upnpRun_cons h
  obtain ⟨_, _, _, he, -, rfl, rfl⟩ | ⟨he, -⟩ := upnpStep_cases h1
  · cases he
    simp only [upnpTimerTurn, hfirst] at h2 ⊢
    obtain ⟨rfl, rfl⟩ | ⟨rfl, rfl⟩ := upnpRun_disarmed rfl h2
    · exact .inl ⟨rfl, rfl⟩
    · exact .inr ⟨rfl, rfl⟩
  · cases he

/-- The thread started at time 0 on port 8108: the first mapping succeeds, the lookup fails, and
    the server later stops. -/
theorem upnpRun_stalls_lookupFailure :
    ∃ s' cs, upnpRun 8108 (UpnpState.init 0)
        [.timer 0 (.ok 8108) (.error "no external address"), (.quit : UpnpEvent String)] =
        some (s', cs) ∧
      cs = [.addPortMapping 8108 upnpLease, .getExternalAddress, .deletePortMapping 8108] :=
  have h : upnpRun 8108 (UpnpState.init 0)
      [.timer 0 (.ok 8108) (.error "no external address"), (.quit : UpnpEvent String)] =
      some (⟨true, none, false⟩, [.addPortMapping 8108 upnpLease, .getExternalAddress,
        .deletePortMapping 8108]) := rfl
  ⟨_, _, h, ((upnpRun_stalls rfl 0 8108 _ h).resolve_left fun hn => List.cons_ne_nil _ _ hn.1).2⟩

end FactomCode

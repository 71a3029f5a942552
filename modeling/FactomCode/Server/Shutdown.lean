import Mathlib.Order.Basic
import Mathlib.Data.List.Chain

set_option autoImplicit false

/-! # The scheduled shutdown

`ScheduleShutdown(duration)` starts a goroutine that calls `s.Stop()` when `time.After(duration)`
fires and, until then, logs "Server shutdown in ..." on a ticker whose period
`dynamicTickDuration` picks from the time left: one hour far from the end, down to one second in
the last five seconds. The loop takes the period off `remaining` on each tick, stops logging once
less than a second is left, and replaces the ticker when the period changes.

The model runs the goroutine on a clock: a tick comes when the ticker is due, `done` when the
deadline is reached, and at the same instant the `select` takes either. Durations are
nanoseconds, as `time.Duration` counts them. The invariant `ShutdownState.OnTime` says that
`remaining` is always the true time left and that the ticker is due one period after the last
tick. From it: every warning tells the time left, is at least a second, and comes before the
deadline; the warnings strictly decrease; and every run can be carried on to the shutdown, where
`Stop` is called at the deadline. -/

namespace FactomCode

/-- `time.Second` in nanoseconds. -/
def second : Int := 1000000000

/-- `time.Minute`. -/
def minute : Int := 60 * second

/-- `time.Hour`. -/
def hour : Int := 60 * minute

/-- `dynamicTickDuration(remaining)`. -/
def dynamicTickDuration (remaining : Int) : Int :=
  if remaining ≤ second * 5 then second
  else if remaining ≤ second * 15 then second * 5
  else if remaining ≤ minute then second * 15
  else if remaining ≤ minute * 5 then minute
  else if remaining ≤ minute * 15 then minute * 5
  else if remaining ≤ hour then minute * 15
  else hour

/-! ## The tick period -/

theorem second_pos : 0 < second := by decide

/-- The seven cases of the `switch` of `dynamicTickDuration`. -/
theorem dynamicTickDuration_cases (r : Int) :
    (r ≤ second * 5 ∧ dynamicTickDuration r = second) ∨
    (second * 5 < r ∧ r ≤ second * 15 ∧ dynamicTickDuration r = second * 5) ∨
    (second * 15 < r ∧ r ≤ minute ∧ dynamicTickDuration r = second * 15) ∨
    (minute < r ∧ r ≤ minute * 5 ∧ dynamicTickDuration r = minute) ∨
    (minute * 5 < r ∧ r ≤ minute * 15 ∧ dynamicTickDuration r = minute * 5) ∨
    (minute * 15 < r ∧ r ≤ hour ∧ dynamicTickDuration r = minute * 15) ∨
    (hour < r ∧ dynamicTickDuration r = hour) := by
  unfold dynamicTickDuration
  by_cases h1 : r ≤ second * 5
  · exact .inl ⟨h1, if_pos h1⟩
  rw [if_neg h1]
  by_cases h2 : r ≤ second * 15
  · exact .inr (.inl ⟨Int.not_le.1 h1, h2, if_pos h2⟩)
  rw [if_neg h2]
  by_cases h3 : r ≤ minute
  · exact .inr (.inr (.inl ⟨Int.not_le.1 h2, h3, if_pos h3⟩))
  rw [if_neg h3]
  by_cases h4 : r ≤ minute * 5
  · exact .inr (.inr (.inr (.inl ⟨Int.not_le.1 h3, h4, if_pos h4⟩)))
  rw [if_neg h4]
  by_cases h5 : r ≤ minute * 15
  · exact .inr (.inr (.inr (.inr (.inl ⟨Int.not_le.1 h4, h5, if_pos h5⟩))))
  rw [if_neg h5]
  by_cases h6 : r ≤ hour
  · exact .inr (.inr (.inr (.inr (.inr (.inl ⟨Int.not_le.1 h5, h6, if_pos h6⟩)))))
  exact .inr (.inr (.inr (.inr (.inr (.inr ⟨Int.not_le.1 h6, if_neg h6⟩)))))

theorem second_le_dynamicTickDuration (remaining : Int) :
    second ≤ dynamicTickDuration remaining := by
  have := second_pos
  have hm : minute = 60 * second := rfl
  have hh : hour = 60 * minute := rfl
  rcases dynamicTickDuration_cases remaining with
    ⟨-, e⟩ | ⟨-, -, e⟩ | ⟨-, -, e⟩ | ⟨-, -, e⟩ | ⟨-, -, e⟩ | ⟨-, -, e⟩ | ⟨-, e⟩ <;>
    rw [e] <;> omega

/-- Whole seconds stay whole, and from two seconds on a period leaves at least a second. -/
theorem dynamicTickDuration_countdown {remaining : Int} (hdvd : second ∣ remaining)
    (h : 2 * second ≤ remaining) :
    second ∣ dynamicTickDuration remaining ∧ second ≤ remaining - dynamicTickDuration remaining := by
  have hm : minute = 60 * second := rfl
  have hh : hour = 60 * minute := rfl
  rcases dynamicTickDuration_cases remaining with
    ⟨-, e⟩ | ⟨h₁, -, e⟩ | ⟨h₁, -, e⟩ | ⟨h₁, -, e⟩ | ⟨h₁, -, e⟩ | ⟨h₁, -, e⟩ | ⟨h₁, e⟩ <;>
    rw [e] <;> unfold second at * <;> omega

/-! ## The goroutine -/

/-- When `time.After(duration)` fires: at once for a duration that is not positive. -/
def shutdownDeadline (duration : Int) : Int := max duration 0

/-- The locals of the goroutine of `ScheduleShutdown`, and the clock: the time since the call,
    `remaining`, `tickDuration`, when the current ticker is next due, and whether `done` was
    taken. -/
structure ShutdownState where
  now : Int
  remaining : Int
  tickDuration : Int
  nextTick : Int
  stopped : Bool
  deriving DecidableEq, Repr

/-- The case the `select` takes. -/
inductive ShutdownEvent
  | tick
  | done
  deriving DecidableEq, Repr

/-- The goroutine on entry: `remaining := duration` and a ticker of period
    `dynamicTickDuration(remaining)`. -/
def ShutdownState.init (duration : Int) : ShutdownState :=
  ⟨0, duration, dynamicTickDuration duration, dynamicTickDuration duration, false⟩

/-- One turn of the loop of the goroutine, with the `remaining` it logs, if any. A tick comes when
    the ticker is due, no later than the deadline; `done` at the deadline, when no tick is due
    before it. After `done` the loop is left: `none`. -/
def shutdownStep (duration : Int) (s : ShutdownState) :
    ShutdownEvent → Option (ShutdownState × Option Int)
  | .tick =>
    if ¬s.stopped ∧ s.nextTick ≤ shutdownDeadline duration then
      let remaining := s.remaining - s.tickDuration
      if remaining < second then
        some ({ s with
          now := s.nextTick, remaining := remaining, nextTick := s.nextTick + s.tickDuration }, none)
      else
        let tickDuration := dynamicTickDuration remaining
        some ({ s with
          now := s.nextTick, remaining := remaining, tickDuration := tickDuration,
          nextTick := s.nextTick + tickDuration }, some remaining)
    else none
  | .done =>
    if ¬s.stopped ∧ shutdownDeadline duration ≤ s.nextTick then
      some ({ s with now := shutdownDeadline duration, stopped := true }, none)
    else none

/-- A run of the goroutine: the last state and each warning it logs, with the time it logs it. -/
def shutdownRun (duration : Int) (s : ShutdownState) :
    List ShutdownEvent → Option (ShutdownState × List (Int × Int))
  | [] => some (s, [])
  | e :: es => do
    let (s', w) ← shutdownStep duration s e
    let (s'', ws) ← shutdownRun duration s' es
    pure (s'', (w.map (s'.now, ·)).toList ++ ws)

/-! ## What one turn can do -/

section
variable {duration : Int} {s s' : ShutdownState} {e : ShutdownEvent} {w : Option Int}

/-- Everything one turn of the goroutine can do: a tick that logs nothing, a tick that logs the
    new `remaining` and sets the period from it, or `done`. -/
theorem shutdownStep_cases (h : shutdownStep duration s e = some (s', w)) :
    (e = .tick ∧ s.stopped = false ∧ s.nextTick ≤ shutdownDeadline duration ∧
      s.remaining - s.tickDuration < second ∧ w = none ∧
      s' = { s with
        now := s.nextTick, remaining := s.remaining - s.tickDuration,
        nextTick := s.nextTick + s.tickDuration }) ∨
    (e = .tick ∧ s.stopped = false ∧ s.nextTick ≤ shutdownDeadline duration ∧
      second ≤ s.remaining - s.tickDuration ∧ w = some (s.remaining - s.tickDuration) ∧
      s' = { s with
        now := s.nextTick, remaining := s.remaining - s.tickDuration,
        tickDuration := dynamicTickDuration (s.remaining - s.tickDuration),
        nextTick := s.nextTick + dynamicTickDuration (s.remaining - s.tickDuration) }) ∨
    (e = .done ∧ s.stopped = false ∧ shutdownDeadline duration ≤ s.nextTick ∧ w = none ∧
      s' = { s with now := shutdownDeadline duration, stopped := true }) := by
  cases e with
  | tick =>
    simp only [shutdownStep] at h
    split_ifs at h with hrun hlt
    · cases h
      exact .inl ⟨rfl, by simpa using hrun.1, hrun.2, hlt, rfl, rfl⟩
    · cases h
      exact .inr (.inl ⟨rfl, by simpa using hrun.1, hrun.2, Int.not_lt.1 hlt, rfl, rfl⟩)
  | done =>
    simp only [shutdownStep] at h
    split_ifs at h with hrun
    cases h
    exact .inr (.inr ⟨rfl, by simpa using hrun.1, hrun.2, rfl, rfl⟩)

end

/-! ## The goroutine keeps time -/

/-- What holds of every state of the goroutine: `remaining` is the time left, the ticker is due one
    period after the last tick, a period is at least a second, the clock never passes the deadline,
    and `done` is taken at the deadline. -/
structure ShutdownState.OnTime (duration : Int) (s : ShutdownState) : Prop where
  now_le : s.now ≤ shutdownDeadline duration
  stopped_now : s.stopped = true → s.now = shutdownDeadline duration
  remaining_eq : s.stopped = false → s.remaining = duration - s.now
  nextTick_eq : s.stopped = false → s.nextTick = s.now + s.tickDuration
  second_le : s.stopped = false → second ≤ s.tickDuration

theorem ShutdownState.init_onTime (duration : Int) :
    (ShutdownState.init duration).OnTime duration where
  now_le := Int.le_max_right duration 0
  stopped_now := fun h => by cases h
  remaining_eq := fun _ => by simp [ShutdownState.init]
  nextTick_eq := fun _ => by simp [ShutdownState.init]
  second_le := fun _ => second_le_dynamicTickDuration duration

section
variable {duration : Int} {s s' : ShutdownState} {e : ShutdownEvent} {w : Option Int}

/-- One turn keeps the invariant and moves the clock forward: strictly on a tick. A warning says
    the time left at the tick, which is at least a second. -/
theorem shutdownStep_onTime (h : shutdownStep duration s e = some (s', w))
    (hs : s.OnTime duration) :
    s'.OnTime duration ∧ s.now ≤ s'.now ∧
      ∀ r, w = some r → r = duration - s'.now ∧ second ≤ r ∧ s.now < s'.now := by
  have h₀ := second_pos
  rcases shutdownStep_cases h with
    ⟨-, hrun, hdue, -, rfl, rfl⟩ | ⟨-, hrun, hdue, hle, rfl, rfl⟩ | ⟨-, hrun, hdue, rfl, rfl⟩
  · have h₁ := hs.remaining_eq hrun
    have h₂ := hs.nextTick_eq hrun
    have h₃ := hs.second_le hrun
    refine ⟨⟨hdue, fun h => ?_, fun _ => ?_, fun _ => rfl, fun _ => h₃⟩, ?_, fun r hr => ?_⟩
    · dsimp only at h; rw [hrun] at h; cases h
    · dsimp only; omega
    · dsimp only; omega
    · cases hr
  · have h₁ := hs.remaining_eq hrun
    have h₂ := hs.nextTick_eq hrun
    have h₃ := hs.second_le hrun
    refine ⟨⟨hdue, fun h => ?_, fun _ => ?_, fun _ => rfl,
      fun _ => second_le_dynamicTickDuration _⟩, ?_, fun r hr => ?_⟩
    · dsimp only at h; rw [hrun] at h; cases h
    · dsimp only; omega
    · dsimp only; omega
    · cases hr
      dsimp only
      omega
  · exact ⟨⟨Int.le_refl _, fun _ => rfl, fun h => (by cases h), fun h => (by cases h),
      fun h => (by cases h)⟩, hs.now_le, fun r hr => (by cases hr)⟩

end

theorem shutdownRun_cons {duration : Int} {s s'' : ShutdownState} {e : ShutdownEvent}
    {es : List ShutdownEvent} {ws : List (Int × Int)}
    (h : shutdownRun duration s (e :: es) = some (s'', ws)) :
    ∃ s' w ws', shutdownStep duration s e = some (s', w) ∧
      shutdownRun duration s' es = some (s'', ws') ∧ ws = (w.map (s'.now, ·)).toList ++ ws' := by
  obtain ⟨⟨s', w⟩, hstep, h⟩ := Option.bind_eq_some.1 h
  obtain ⟨⟨s₂, ws'⟩, hrun, h⟩ := Option.bind_eq_some.1 h
  cases h
  exact ⟨s', w, ws', hstep, hrun, rfl⟩

/-- Over a whole run the invariant holds, and every warning is logged after the run's start, by
    the time it ends, and says the time left, at least a second. -/
theorem shutdownRun_onTime {duration : Int} :
    ∀ {evs : List ShutdownEvent} {s s' : ShutdownState} {ws : List (Int × Int)},
      shutdownRun duration s evs = some (s', ws) → s.OnTime duration →
      s'.OnTime duration ∧ s.now ≤ s'.now ∧
        ∀ tw ∈ ws, tw.2 = duration - tw.1 ∧ second ≤ tw.2 ∧ s.now < tw.1 ∧ tw.1 ≤ s'.now
  | [], _, _, _, h, hs => by
    cases h
    exact ⟨hs, Int.le_refl _, by simp⟩
  | _ :: _, _, _, _, h, hs => by
    obtain ⟨s₁, w, ws', hstep, hrun, rfl⟩ := shutdownRun_cons h
    obtain ⟨hs₁, hle₁, hw⟩ := shutdownStep_onTime hstep hs
    obtain ⟨hs', hle', hws'⟩ := shutdownRun_onTime hrun hs₁
    refine ⟨hs', Int.le_trans hle₁ hle', fun tw htw => ?_⟩
    rcases List.mem_append.1 htw with hmem | hmem
    · cases w with
      | none => cases hmem
      | some r =>
        obtain rfl : tw = (s₁.now, r) := by simpa using hmem
        obtain ⟨hr, hsec, hlt⟩ := hw r rfl
        exact ⟨hr, hsec, hlt, hle'⟩
    · obtain ⟨h₁, h₂, h₃, h₄⟩ := hws' tw hmem
      exact ⟨h₁, h₂, Int.lt_of_le_of_lt hle₁ h₃, h₄⟩

theorem shutdownStep_tick_isSome {duration : Int} {s : ShutdownState} (hrun : s.stopped = false)
    (hdue : s.nextTick ≤ shutdownDeadline duration) : (shutdownStep duration s .tick).isSome := by
  simp only [shutdownStep, hrun, hdue, Bool.false_eq_true, not_false_eq_true, and_self, if_true]
  split_ifs <;> rfl

/-- The time stamps of the warnings of a run strictly increase. -/
theorem shutdownRun_chain {duration : Int} :
    ∀ {evs : List ShutdownEvent} {s s' : ShutdownState} {ws : List (Int × Int)},
      shutdownRun duration s evs = some (s', ws) → s.OnTime duration →
      ws.Chain' fun a b => a.1 < b.1
  | [], _, _, _, h, _ => by
    cases h
    exact List.chain'_nil
  | _ :: _, _, _, _, h, hs => by
    obtain ⟨s₁, w, ws', hstep, hrun, rfl⟩ := shutdownRun_cons h
    have hs₁ := (shutdownStep_onTime hstep hs).1
    have hchain := shutdownRun_chain hrun hs₁
    cases w with
    | none => exact hchain
    | some r =>
      refine List.chain'_cons'.2 ⟨fun tw htw => ?_, hchain⟩
      exact ((shutdownRun_onTime hrun hs₁).2.2 tw (List.mem_of_mem_head? htw)).2.2.1

/-- Every warning the goroutine logs tells the true time left, at least a second, so it comes a
    second or more before the shutdown; and the warnings count down, each later and lower than the
    one before. -/
theorem shutdownRun_warnings {duration : Int} {evs : List ShutdownEvent} {s' : ShutdownState}
    {ws : List (Int × Int)}
    (h : shutdownRun duration (ShutdownState.init duration) evs = some (s', ws)) :
    (∀ tw ∈ ws, tw.2 = duration - tw.1 ∧ second ≤ tw.2 ∧ 0 < tw.1 ∧
      tw.1 + second ≤ shutdownDeadline duration) ∧
    ws.Chain' fun a b => a.1 < b.1 ∧ b.2 < a.2 := by
  have hinit := ShutdownState.init_onTime duration
  obtain ⟨-, -, hws⟩ := shutdownRun_onTime h hinit
  refine ⟨fun tw htw => ?_, ?_⟩
  · obtain ⟨h₁, h₂, h₃, -⟩ := hws tw htw
    exact ⟨h₁, h₂, h₃, by unfold shutdownDeadline; omega⟩
  · refine (List.Chain'.iff_mem.1 (shutdownRun_chain h hinit)).imp fun a b ⟨ha, hb, hab⟩ =>
      ⟨hab, ?_⟩
    rw [(hws a ha).1, (hws b hb).1]
    omega

/-- A ten-second shutdown: six ticks, the last at the deadline, then `done`. -/
def tenSecondEvents : List ShutdownEvent := [.tick, .tick, .tick, .tick, .tick, .tick, .done]

/-- The warnings of the ten-second shutdown: 5, 4, 3, 2 and 1 seconds left. -/
def tenSecondWarnings : List (Int × Int) :=
  [(5 * second, 5 * second), (6 * second, 4 * second), (7 * second, 3 * second),
    (8 * second, 2 * second), (9 * second, second)]

/-- The goroutine stopped at ten seconds, its ticker due a second later. -/
def tenSecondEnd : ShutdownState := ⟨10 * second, 0, second, 11 * second, true⟩

theorem shutdownRun_tenSeconds :
    shutdownRun (10 * second) (ShutdownState.init (10 * second)) tenSecondEvents =
      some (tenSecondEnd, tenSecondWarnings) := by
  rfl

theorem shutdownRun_warnings_tenSeconds :
    shutdownRun (10 * second) (ShutdownState.init (10 * second)) tenSecondEvents =
        some (tenSecondEnd, tenSecondWarnings) ∧
      (∀ tw ∈ tenSecondWarnings, tw.2 = 10 * second - tw.1 ∧ second ≤ tw.2 ∧ 0 < tw.1 ∧
        tw.1 + second ≤ shutdownDeadline (10 * second)) ∧
      tenSecondWarnings.Chain' fun a b => a.1 < b.1 ∧ b.2 < a.2 :=
  ⟨shutdownRun_tenSeconds, shutdownRun_warnings shutdownRun_tenSeconds⟩

/-! ## The shutdown -/

/-- Once the next tick is not before the deadline, `done` stops the goroutine. -/
theorem shutdownRun_done_of_due {duration : Int} {s : ShutdownState} (hrun : s.stopped = false)
    (hdone : shutdownDeadline duration ≤ s.nextTick) :
    shutdownRun duration s [.done] =
      some ({ s with now := shutdownDeadline duration, stopped := true }, []) := by
  simp [shutdownRun, shutdownStep, hrun, hdone]

/-- From a running state, ticks then `done` carry the goroutine to the shutdown, within as many
    ticks as whole seconds are left before the deadline. -/
theorem shutdownRun_reaches_stop {duration : Int} (n : Nat) :
    ∀ {s : ShutdownState}, s.OnTime duration → s.stopped = false →
      shutdownDeadline duration - s.nextTick < n * second →
      ∃ evs s' ws, shutdownRun duration s evs = some (s', ws) ∧ s'.stopped = true := by
  induction n with
  | zero =>
    intro s _ hrun hn
    exact ⟨_, _, _, shutdownRun_done_of_due hrun (by simp at hn; omega), rfl⟩
  | succ n ih =>
    intro s hs hrun hn
    by_cases hdone : shutdownDeadline duration ≤ s.nextTick
    · exact ⟨_, _, _, shutdownRun_done_of_due hrun hdone, rfl⟩
    obtain ⟨⟨s₁, w⟩, hstep⟩ := Option.isSome_iff_exists.1
      (@shutdownStep_tick_isSome duration s hrun (by omega))
    have hs₁ := (shutdownStep_onTime hstep hs).1
    have h₃ := hs.second_le hrun
    have h₄ := second_le_dynamicTickDuration (s.remaining - s.tickDuration)
    have hnext : s.nextTick + second ≤ s₁.nextTick ∧ s₁.stopped = false := by
      rcases shutdownStep_cases hstep with
        ⟨-, -, -, -, -, rfl⟩ | ⟨-, -, -, -, -, rfl⟩ | ⟨h₁, -⟩
      · exact ⟨by dsimp only; omega, hrun⟩
      · exact ⟨by dsimp only; omega, hrun⟩
      · cases h₁
    obtain ⟨evs, s', ws, hrun', hstop⟩ := ih hs₁ hnext.2
      (by push_cast at hn; unfold second at *; omega)
    exact ⟨.tick :: evs, s', (w.map (s₁.now, ·)).toList ++ ws,
      by simp [shutdownRun, hstep, hrun'], hstop⟩

/-- Every scheduled shutdown can be carried to its end: some run of the goroutine calls
    `s.Stop()`, at the deadline. -/
theorem shutdownRun_stops (duration : Int) :
    ∃ evs s' ws, shutdownRun duration (ShutdownState.init duration) evs = some (s', ws) ∧
      s'.stopped = true ∧ s'.now = shutdownDeadline duration := by
  have hinit := ShutdownState.init_onTime duration
  obtain ⟨evs, s', ws, h, hstop⟩ := shutdownRun_reaches_stop
    ((shutdownDeadline duration - (ShutdownState.init duration).nextTick).toNat + 1) hinit rfl
    (by have := Int.self_le_toNat (shutdownDeadline duration - (ShutdownState.init duration).nextTick)
        push_cast; unfold second; omega)
  exact ⟨evs, s', ws, h, hstop, (shutdownRun_onTime h hinit).1.stopped_now hstop⟩

/-! ## The last warning -/

/-- A state whose next tick warns, with whole seconds left and a whole-second period. -/
def ShutdownState.CountingDown (s : ShutdownState) : Prop :=
  s.stopped = false ∧ second ∣ s.remaining ∧ second ∣ s.tickDuration ∧
    second ≤ s.remaining - s.tickDuration

/-- Counting down in whole seconds, the goroutine reaches the warning of one second left before it
    can stop: the tick that gives it is due a second before the deadline. -/
theorem shutdownRun_warns_one_second {duration : Int} :
    ∀ {evs : List ShutdownEvent} {s s' : ShutdownState} {ws : List (Int × Int)},
      shutdownRun duration s evs = some (s', ws) → s.OnTime duration → s.CountingDown →
      s'.stopped = true → (duration - second, second) ∈ ws := by
  intro evs
  induction evs with
  | nil =>
    intro s s' ws h _ hc hstop
    cases h
    rw [hc.1] at hstop
    cases hstop
  | cons e evs ih =>
    intro s s' ws h hs ⟨hrun, hdvd, hdvdt, hleft⟩ hstop
    obtain ⟨s₁, w, ws', hstep, hrun', rfl⟩ := shutdownRun_cons h
    have hs₁ := (shutdownStep_onTime hstep hs).1
    have h₁ := hs.remaining_eq hrun
    have h₂ := hs.nextTick_eq hrun
    rcases shutdownStep_cases hstep with
      ⟨-, -, -, hlt, -⟩ | ⟨-, -, -, -, rfl, rfl⟩ | ⟨-, -, hdue, -⟩
    · omega
    · by_cases hone : s.remaining - s.tickDuration = second
      · refine List.mem_append_left _ ?_
        simp only [Option.map_some', Option.toList_some, List.mem_singleton, Prod.mk.injEq]
        exact ⟨by omega, hone.symm⟩
      · have hr : second ∣ s.remaining - s.tickDuration := Int.dvd_sub hdvd hdvdt
        have h2 : 2 * second ≤ s.remaining - s.tickDuration := by
          unfold second at hr hleft hone ⊢
          omega
        obtain ⟨hdvd', hle'⟩ := dynamicTickDuration_countdown hr h2
        exact List.mem_append_right _
          (ih hrun' hs₁ ⟨hrun, hr, hdvd', hle'⟩ hstop)
    · unfold shutdownDeadline at hdue
      have := second_pos
      omega

/-- For a duration of whole seconds, two or more, every run that reaches the shutdown has warned
    "Server shutdown in 1s" one second before it. -/
theorem shutdownRun_last_warning_one_second {k : Int} (hk : 2 ≤ k) {evs : List ShutdownEvent}
    {s' : ShutdownState} {ws : List (Int × Int)}
    (h : shutdownRun (k * second) (ShutdownState.init (k * second)) evs = some (s', ws))
    (hstop : s'.stopped = true) : (k * second - second, second) ∈ ws := by
  have hk' : second ∣ k * second := ⟨k, Int.mul_comm k second⟩
  obtain ⟨hdvd, hle⟩ := dynamicTickDuration_countdown hk' (by unfold second; omega)
  exact shutdownRun_warns_one_second h (ShutdownState.init_onTime _) ⟨rfl, hk', hdvd, hle⟩ hstop

theorem shutdownRun_last_warning_one_second_tenSeconds :
    (2 : Int) ≤ 10 ∧
      shutdownRun (10 * second) (ShutdownState.init (10 * second)) tenSecondEvents =
        some (tenSecondEnd, tenSecondWarnings) ∧
      tenSecondEnd.stopped = true ∧ (10 * second - second, second) ∈ tenSecondWarnings :=
  ⟨by decide, shutdownRun_tenSeconds, rfl,
    shutdownRun_last_warning_one_second (by decide) shutdownRun_tenSeconds rfl⟩

end FactomCode

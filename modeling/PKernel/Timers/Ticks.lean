import PKernel.Timers.Timer

/-! # Conversions to ticks

The four macros of `timer.h`, and how long `syscall_alarm` waits. `TIMER_MS_TO_TICKS` takes
its milliseconds a thousand times and then counts them as nanoseconds, so that milliseconds
and seconds come out a thousand times too short.
-/

namespace PKernel.Timers

/-- `TIMER_US_TO_TICKS`. -/
def usToTicks (us : Nat) : Nat := us / timerTickUs

/-- The timer behind some calls of `timer_update` that did not run its handler. -/
def Timer.aged (timer : Timer) (count : Nat) : Timer :=
  { timer with currentTicks := u64 (timer.currentTicks + count) }

/-- The first call of `timer_update` that runs the handler is this one. -/
def Timer.FirstDue (timer : Timer) (count : Nat) : Prop :=
  0 < count ∧ (timer.aged (count - 1)).due = true ∧
    ∀ earlier < count - 1, (timer.aged earlier).due = false

/-- The conversions agree across the units, and an alarm waits for its seconds up to a tick. -/
structure Agree (s ms us : Nat) : Prop where
  secondsInMs : sToTicks s = msToTicks (u64 (1000 * s))
  secondsInUs : sToTicks s = usToTicks (u64 (1000000 * s))
  msInUs : msToTicks ms = usToTicks (u64 (1000 * ms))
  usInNs : usToTicks us = nsToTicks (u64 (1000 * us))
  alarm : ∀ state next, syscallAlarm state s = .ok next → ∃ timer count,
    next.timers.head? = some timer ∧ timer.FirstDue count ∧
      count * timerTickUs ≤ 1000000 * s + timerTickUs ∧
        1000000 * s ≤ count * timerTickUs + timerTickUs

variable {sigAlarm s ms us : Nat} {state next : State} {timer : Timer}

/-! ## How long a timer waits -/

/-- A new timer waits for its start, and for one tick where that is 0. -/
theorem firstDue_new (id intervalTicks : Nat) (handler : Handler) {startTicks : Nat}
    (hstart : startTicks < 2 ^ 64) :
    (Timer.mk id .waiting 0 startTicks intervalTicks handler).FirstDue (max startTicks 1) := by
  have hdue (count : Nat) (hcount : count + 1 < 2 ^ 64) :
      ((Timer.mk id .waiting 0 startTicks intervalTicks handler).aged count).due =
        decide (startTicks ≤ count + 1) := by
    have hticks : u64 (u64 (0 + count) + 1) = count + 1 := by
      unfold u64
      omega
    simp only [Timer.due, Timer.aged, hticks]
  refine ⟨by omega, ?_, fun earlier hearlier => ?_⟩
  · rw [hdue _ (by omega), decide_eq_true_eq]
    omega
  · rw [hdue _ (by omega), decide_eq_false_iff_not]
    omega

theorem syscallAlarm_head (hcall : syscallAlarm state s = .ok next) :
    ∃ pid, next.timers.head? =
      some ⟨state.nextTimer, .waiting, 0, sToTicks s, 0, .alarm pid⟩ := by
  obtain ⟨name, -, hcall⟩ := bind_eq_ok.mp hcall
  obtain ⟨pid, -, hcall⟩ := bind_eq_ok.mp hcall
  cases hcall
  exact ⟨pid, rfl⟩

/-! ## The units -/

/-- Milliseconds are counted as if they were microseconds. -/
theorem msToTicks_eq (hms : 1000 * ms < 2 ^ 64) : msToTicks ms = usToTicks ms := by
  rw [msToTicks, nsToTicks, usToTicks, u64_eq_self hms, Nat.mul_div_cancel_left _ (by decide)]

/-- A thousand times as many microseconds make as many ticks only where there are none. -/
theorem usToTicks_thousand (us : Nat) : usToTicks us = usToTicks (1000 * us) ↔ us < 55 := by
  unfold usToTicks timerTickUs
  omega

/-- The conversions of microseconds and nanoseconds agree. Those of seconds and milliseconds agree
with them exactly for 0 seconds and for less than 55 milliseconds. -/
theorem agree_iff (hs : 1000000 * s < 2 ^ 64) (hms : 1000 * ms < 2 ^ 64) (hus : 1000 * us < 2 ^ 64) :
    Agree s ms us ↔ s = 0 ∧ ms < 55 := by
  have hseconds : sToTicks s = usToTicks (1000 * s) := by
    rw [sToTicks, u64_eq_self (by omega), msToTicks_eq (by omega)]
  have hmillis := msToTicks_eq hms
  constructor
  · rintro ⟨-, hsecondsInUs, hmsInUs, -, -⟩
    rw [hseconds, u64_eq_self hs, show 1000000 * s = 1000 * (1000 * s) by omega,
      usToTicks_thousand] at hsecondsInUs
    rw [hmillis, u64_eq_self hms, usToTicks_thousand] at hmsInUs
    exact ⟨by omega, hmsInUs⟩
  · rintro ⟨rfl, hshort⟩
    constructor
    case secondsInMs => rfl
    case secondsInUs => rfl
    case msInUs =>
      rw [hmillis, u64_eq_self hms, usToTicks_thousand]
      exact hshort
    case usInNs =>
      rw [usToTicks, nsToTicks, u64_eq_self hus, Nat.mul_div_cancel_left _ (by decide)]
    case alarm =>
      intro state next hcall
      obtain ⟨pid, hhead⟩ := syscallAlarm_head hcall
      exact ⟨_, 1, hhead, firstDue_new _ _ _ (by decide), by omega, by omega⟩

/-- Up to 54 milliseconds there are no ticks in any unit. -/
theorem agree_short : Agree 0 54 7 :=
  (agree_iff (by decide) (by decide) (by decide)).mpr ⟨rfl, by decide⟩

/-- A second should be 18 ticks, and is none. -/
theorem not_agree_second : sToTicks 1 = 0 ∧ usToTicks 1000000 = 18 ∧ ¬Agree 1 0 0 := by
  refine ⟨by decide, by decide, fun hagree => ?_⟩
  exact absurd hagree.secondsInUs (by decide)

end PKernel.Timers

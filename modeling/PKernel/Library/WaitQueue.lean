import Mathlib.Data.List.Nodup

/-! # Queues of waiters with one pending signal

Waiters queue up and an invocation wakes the first of them. An invocation without waiters
leaves a signal, and one signal is all that is kept: the next to wait takes it and does
not sleep.
-/

namespace Library

/-- A queue of waiters, or a signal for the next to come. -/
structure WaitQueue (α : Type*) where
  signal : Bool
  waiters : List α
deriving DecidableEq, Repr

namespace WaitQueue

variable {α : Type*} {queue : WaitQueue α} {waiter : α}

def empty : WaitQueue α := ⟨false, []⟩

/-- The first waiter is woken, or the signal is set. -/
def invoke (queue : WaitQueue α) : Option α × WaitQueue α :=
  match queue.waiters with
  | waiter :: rest => (some waiter, { queue with waiters := rest })
  | [] => (none, { queue with signal := true })

/-- A waiter takes the signal, or else goes to sleep, as the flag says. -/
def await (queue : WaitQueue α) (waiter : α) : Bool × WaitQueue α :=
  if queue.signal then (false, { queue with signal := false })
  else (true, { queue with waiters := queue.waiters ++ [waiter] })

/-- What holds of every queue: nobody sleeps while there is a signal, and nobody is in the
queue twice. -/
structure Sound (queue : WaitQueue α) : Prop where
  exclusive : queue.signal = true → queue.waiters = []
  nodup : queue.waiters.Nodup

theorem sound_empty : (empty : WaitQueue α).Sound := ⟨fun _ => rfl, List.nodup_nil⟩

theorem signal_of_mem (hsound : queue.Sound) (hwaiter : waiter ∈ queue.waiters) :
    queue.signal = false := by
  cases hsignal : queue.signal with
  | false => rfl
  | true => simp [hsound.exclusive hsignal] at hwaiter

theorem Sound.invoke (hsound : queue.Sound) : queue.invoke.2.Sound := by
  unfold WaitQueue.invoke
  split
  next first rest hwaiters =>
    have hfirst : first ∈ queue.waiters := by simp [hwaiters]
    have hsignal := signal_of_mem hsound hfirst
    have hnodup := hsound.nodup
    rw [hwaiters, List.nodup_cons] at hnodup
    exact ⟨by simp [hsignal], hnodup.2⟩
  next hwaiters => exact ⟨fun _ => hwaiters, hsound.nodup⟩

theorem Sound.await (hsound : queue.Sound) (hwaiter : waiter ∉ queue.waiters) :
    (queue.await waiter).2.Sound := by
  unfold WaitQueue.await
  split
  next hsignal => exact ⟨by simp, hsound.nodup⟩
  next hsignal =>
    refine ⟨fun hset => absurd hset hsignal, ?_⟩
    exact hsound.nodup.append (List.nodup_singleton _) (by simpa using hwaiter)

/-- Who is in the queue after an invocation, and who was woken. -/
theorem mem_waiters_invoke (hsound : queue.Sound) :
    waiter ∈ queue.invoke.2.waiters ↔ waiter ∈ queue.waiters ∧ queue.invoke.1 ≠ some waiter := by
  unfold WaitQueue.invoke
  split
  next first rest hwaiters =>
    have hnodup := hsound.nodup
    rw [hwaiters, List.nodup_cons] at hnodup
    simp only [hwaiters, List.mem_cons, ne_eq, Option.some.injEq]
    constructor
    · intro hmem
      exact ⟨.inr hmem, fun heq => hnodup.1 (heq ▸ hmem)⟩
    · rintro ⟨rfl | hmem, hne⟩
      · exact absurd rfl hne
      · exact hmem
  next hwaiters => simp [hwaiters]

theorem woken_mem (hwoken : queue.invoke.1 = some waiter) : waiter ∈ queue.waiters := by
  unfold WaitQueue.invoke at hwoken
  split at hwoken
  next first rest hwaiters =>
    rw [hwaiters, Option.some.inj hwoken]
    exact List.mem_cons_self
  next => simp at hwoken

/-- Without a signal the waiter is the last of the queue. -/
theorem await_of_no_signal (hsignal : queue.signal = false) (waiter : α) :
    queue.await waiter = (true, { queue with waiters := queue.waiters ++ [waiter] }) := by
  rw [await, hsignal]
  rfl

theorem await_of_signal (hsignal : queue.signal = true) (waiter : α) :
    queue.await waiter = (false, { queue with signal := false }) := by
  rw [await, hsignal]
  rfl

end WaitQueue

end Library

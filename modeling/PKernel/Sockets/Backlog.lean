import PKernel.Sockets.Waiting

/-! # The backlog of a listening socket

`unix_socket_connect` compares `listen_queue_size` with the capacity, but no call ever counts
it up. What the backlog promises is kept exactly by the runs in which nobody connects to a
socket that listens.
-/

namespace PKernel.Sockets

open Library Library.Transition

/-- The counter is the number of waiting requests, which the capacity bounds; a connection to
a full queue is refused and changes nothing. -/
structure Backlogged (kernel : Kernel) : Prop where
  count : ∀ id socket, kernel.sockets id = some socket →
    socket.listenQueue.length = socket.listenQueueSize
  bounded : ∀ id socket, kernel.sockets id = some socket →
    socket.listenQueue.length ≤ socket.listenQueueCapacity
  refused : ∀ id socket, kernel.sockets id = some socket →
    socket.listenQueueCapacity ≤ socket.listenQueue.length → ∀ thread requester,
      unixSocketConnect kernel thread requester id = .ok (.connRefused, kernel)

/-- A connection is made only to a socket whose capacity is zero. -/
def Unheard (kernel : Kernel) : Op → Prop
  | .connect _ _ target => ∀ socket, kernel.sockets target = some socket →
      socket.listenQueueCapacity = 0
  | _ => True

/-- No request waits, and none is counted. -/
def Unrequested (kernel : Kernel) : Prop :=
  ∀ id socket, kernel.sockets id = some socket →
    socket.listenQueueSize = 0 ∧ socket.listenQueue = []

variable {kernel next : Kernel} {op : Op} {outcome : Outcome}

theorem Unrequested.backlogged (hnone : Unrequested kernel) : Backlogged kernel where
  count id socket hsocket := by
    obtain ⟨hsize, hqueue⟩ := hnone id socket hsocket
    rw [hsize, hqueue, List.length_nil]
  bounded id socket hsocket := by
    rw [(hnone id socket hsocket).2]
    exact Nat.zero_le _
  refused id socket hsocket hfull thread requester := by
    obtain ⟨hsize, hqueue⟩ := hnone id socket hsocket
    rw [hqueue, List.length_nil, Nat.le_zero] at hfull
    rw [unixSocketConnect, Kernel.socket_eq hsocket, ok_bind, if_pos (by rw [hsize, hfull])]
    rfl

theorem Unrequested.setSocket {id : Nat} {new : UnixSocket} (hnone : Unrequested kernel)
    (hnew : new.listenQueueSize = 0 ∧ new.listenQueue = []) : Unrequested (kernel.setSocket id new) := by
  intro other socket hsocket
  rcases Kernel.setSocket_look hsocket with ⟨-, rfl⟩ | ⟨-, hold⟩
  · exact hnew
  · exact hnone other socket hold

theorem Unrequested.of_sockets (hnone : Unrequested kernel) (hsame : next.sockets = kernel.sockets) :
    Unrequested next := by
  rw [Unrequested, hsame]
  exact hnone

/-- A turn that meets the condition leaves the queues empty. -/
theorem Turn.unrequested (hnone : Unrequested kernel) (hturn : Turn kernel op outcome next)
    (hunheard : Unheard kernel op) : Unrequested next := by
  cases hturn with
  | init =>
      intro id socket hsocket
      rcases Kernel.init_look hsocket with ⟨-, rfl⟩ | ⟨-, hold⟩
      · exact ⟨rfl, rfl⟩
      · exact hnone id socket hold
  | listen hsocket => exact hnone.setSocket ⟨rfl, rfl⟩
  | refused | inval | unpaired | unheard | sleeps | returns => exact hnone
  | requests _ _ hsocket hsize | connects _ hsocket hsize =>
      exact absurd ((hnone _ _ hsocket).1.trans (hunheard _ hsocket).symm) hsize
  | accepts hruns hsocket hqueue => simp [(hnone _ _ hsocket).2] at hqueue
  | takes hruns hsocket hincoming =>
      have hempty := hnone _ _ hsocket
      exact hnone.setSocket hempty
  | writes hsocket hpaired hpeer =>
      have hempty := hnone _ _ hpeer
      exact Unrequested.of_sockets (hnone.setSocket (by exact hempty)) (Kernel.invoke_sockets ..)

/-- A connection to a socket that listens leaves a request that is not counted. -/
theorem Turn.not_backlogged (hnone : Unrequested kernel) (hturn : Turn kernel op outcome next)
    (hheard : ¬Unheard kernel op) : ¬Backlogged next := by
  cases hturn with
  | @refused thread id target socket hsocket hsize =>
      refine absurd (fun other hother => ?_) hheard
      cases hsocket.symm.trans hother
      rw [← hsize, (hnone _ _ hsocket).1]
  | @requests _ id target socket _ _ _ hsocket _ hqueued | @connects _ id target socket _ _ hsocket _ hqueued =>
      intro hbacklogged
      have hcount := hbacklogged.count target { socket with listenQueue := socket.listenQueue ++ [id] } (by
        subst hqueued
        exact (congrFun (Kernel.invoke_sockets ..) target).trans (Kernel.setSocket_self ..))
      simp [hnone _ _ hsocket] at hcount
  | accepts hruns | sleeps hruns | takes hruns => cases hruns <;> exact absurd trivial hheard
  | init | listen | inval | unpaired | unheard | returns | writes => exact absurd trivial hheard

theorem unrequested_inductive :
    (system.restrict Unheard).Inductive fun kernel => Wired kernel ∧ Unrequested kernel where
  init kernel hinit := by
    refine ⟨wired_inductive.init kernel hinit, fun id socket hsocket => ?_⟩
    obtain rfl : kernel = bootKernel := hinit
    simp [bootKernel] at hsocket
  step kernel op next hinvariant hstep := by
    obtain ⟨hwired, hnone⟩ := hinvariant
    obtain ⟨hunheard, hpossible, outcome, hperform⟩ := hstep
    have hturn := Op.turn hwired hpossible hperform
    exact ⟨hturn.wired hwired, hturn.unrequested hnone hunheard⟩

/-- In the runs all of whose connections are to sockets that do not listen, the backlog is as
promised in every state, and the first connection to one that does breaks the promise. -/
theorem backlog_kept {kernel : Kernel} (hreach : (system.restrict Unheard).Reachable kernel) :
    Backlogged kernel ∧
      ∀ op next, system.step kernel op next → (Backlogged next ↔ Unheard kernel op) := by
  obtain ⟨hwired, hnone⟩ := hreach.invariant unrequested_inductive
  refine ⟨hnone.backlogged, fun op next hstep => ?_⟩
  obtain ⟨hpossible, outcome, hperform⟩ := hstep
  have hturn := Op.turn hwired hpossible hperform
  constructor
  · intro hbacklogged
    by_contra hheard
    exact hturn.not_backlogged hnone hheard hbacklogged
  · intro hunheard
    exact (hturn.unrequested hnone hunheard).backlogged

/-- With a socket that listens for one connection, and nobody connected yet. -/
theorem backlog_kept_after_listen : ∃ kernel socket, kernel.sockets 0 = some socket ∧
    socket.listenQueueCapacity = 1 ∧ Backlogged kernel ∧
      ∀ op next, system.step kernel op next → (Backlogged next ↔ Unheard kernel op) := by
  have hboot : (system.restrict Unheard).Reachable bootKernel := .init rfl
  have hmade := reachable_perform_restrict hboot .init trivial rfl trivial
  have hlistens := reachable_perform_restrict hmade (.listen 0 1) trivial rfl trivial
  exact ⟨_, _, rfl, rfl, backlog_kept hlistens⟩

/-- Two connections to a socket that listens for one: both requests wait, and none is counted. -/
theorem backlog_exceeded : ∃ kernel socket, system.Reachable kernel ∧
    kernel.sockets 0 = some socket ∧ socket.listenQueue = [1, 2] ∧
      socket.listenQueueCapacity = 1 ∧ socket.listenQueueSize = 0 ∧ ¬Backlogged kernel := by
  have hserver := reachable_perform (.init rfl) .init trivial rfl
  have hfirst := reachable_perform hserver .init trivial rfl
  have hsecond := reachable_perform hfirst .init trivial rfl
  have hlistens := reachable_perform hsecond (.listen 0 1) trivial rfl
  have hconnects := reachable_perform hlistens (.connect 10 1 0) ⟨rfl, rfl⟩ rfl
  have hexceeds := reachable_perform hconnects (.connect 11 2 0) ⟨rfl, rfl⟩ rfl
  refine ⟨_, _, hexceeds, rfl, rfl, rfl, rfl, fun hbacklogged => ?_⟩
  exact absurd (hbacklogged.count 0 _ rfl) (by decide)

end PKernel.Sockets

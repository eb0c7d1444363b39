import PKernel.Library.Transition
import PKernel.Sockets.UnixSocket

/-! # What a step does, and who waits for what

Each step that returns is one of a few turns. The threads asleep in a call are the waiters of
the event that the call awaits, each once, and without a request or a packet the loops of the
calls end asleep.
-/

namespace PKernel.Sockets

open Library Library.Transition
open Function (update update_apply update_eq_self update_idem update_of_ne update_self)

/-- The event that a call sleeps for. -/
def Call.waitsFor : Call → Event
  | .connect _ target => (target, .listenerAccepted)
  | .accept id => (id, .listenerArrived)
  | .read id _ => (id, .dataReady)

namespace Kernel

/-- A thread sleeps for an event. -/
def Waits (kernel : Kernel) (thread : Nat) (event : Event) : Prop :=
  ∃ call, kernel.threads thread = .asleep call ∧ call.waitsFor = event

/-- The thread is the last in the queue of its call and sleeps. -/
def sleep (kernel : Kernel) (thread : Nat) (call : Call) : Kernel :=
  { kernel with
    events := update kernel.events call.waitsFor
      ⟨false, (kernel.events call.waitsFor).waiters ++ [thread]⟩
    threads := update kernel.threads thread (.asleep call) }

/-- The signal of an event is used up. -/
def unsignalled (kernel : Kernel) (event : Event) : Kernel :=
  { kernel with
    events := update kernel.events event { kernel.events event with signal := false } }

/-- The first request of a socket is served: its requester and a new socket are a pair. -/
def served (kernel : Kernel) (id requester : Nat) (rest : List Nat) : Kernel where
  sockets other :=
    if other = kernel.next then some ⟨0, 0, [], [], some requester⟩
    else (kernel.sockets other).map fun socket =>
      { socket with
        listenQueue := if other = id then rest else socket.listenQueue
        pairedSocket := if other = requester then some kernel.next else socket.pairedSocket }
  events event := if event.1 = kernel.next then .empty else kernel.events event
  next := kernel.next + 1
  threads := kernel.threads

/-- There is nothing for the call to go on with. -/
def Nothing (kernel : Kernel) : Call → Prop
  | .connect _ _ => False
  | .accept id => ∃ socket, kernel.sockets id = some socket ∧ socket.listenQueue = []
  | .read id _ => ∃ socket, kernel.sockets id = some socket ∧ socket.incoming = []

end Kernel

/-- What holds of the sockets, the events and the sleeping threads in every state. -/
structure Wired (kernel : Kernel) : Prop where
  exist : ∀ id, (kernel.sockets id).isSome = true ↔ id < kernel.next
  requesters : ∀ id socket, kernel.sockets id = some socket →
    ∀ requester ∈ socket.listenQueue, requester < kernel.next
  sound : ∀ event, (kernel.events event).Sound
  waits : ∀ event thread, thread ∈ (kernel.events event).waiters ↔ kernel.Waits thread event
  calls : ∀ event thread, kernel.Waits thread event → event.1 < kernel.next

/-- A thread starts a call that gets to its loop, or goes on with one. -/
inductive Op.Runs (kernel : Kernel) : Op → Nat → Call → Prop
  | accept {thread id : Nat} (hfree : kernel.threads thread = .free) :
      Runs kernel (.accept thread id) thread (.accept id)
  | read {thread id size : Nat} {socket : UnixSocket} (hfree : kernel.threads thread = .free)
      (hsocket : kernel.sockets id = some socket) (hpaired : socket.pairedSocket ≠ none) :
      Runs kernel (.read thread id size) thread (.read id size)
  | resume {thread : Nat} {call : Call} (hwoken : kernel.threads thread = .woken call) :
      Runs kernel (.resume thread) thread call

/-- The steps, their outcomes and the states that they leave. -/
inductive Turn (kernel : Kernel) : Op → Outcome → Kernel → Prop
  | init : Turn kernel .init (.made kernel.next) (unixSocketInit kernel).2
  | listen {id capacity : Nat} {socket : UnixSocket} (hsocket : kernel.sockets id = some socket) :
      Turn kernel (.listen id capacity) .done (kernel.setSocket id
        { socket with listenQueue := [], listenQueueSize := 0, listenQueueCapacity := capacity })
  | refused {thread id target : Nat} {socket : UnixSocket}
      (hsocket : kernel.sockets target = some socket)
      (hsize : socket.listenQueueSize = socket.listenQueueCapacity) :
      Turn kernel (.connect thread id target) .connRefused kernel
  | requests {thread id target : Nat} {socket : UnixSocket} {queued : Kernel}
      (hfree : kernel.threads thread = .free) (hid : (kernel.sockets id).isSome = true)
      (hsocket : kernel.sockets target = some socket)
      (hsize : socket.listenQueueSize ≠ socket.listenQueueCapacity)
      (hqueued : queued = (kernel.setSocket target
        { socket with listenQueue := socket.listenQueue ++ [id] }).invoke (target, .listenerArrived))
      (hsignal : (kernel.events (target, .listenerAccepted)).signal = false) :
      Turn kernel (.connect thread id target) .sleeps (queued.sleep thread (.connect id target))
  | connects {thread id target : Nat} {socket : UnixSocket} {queued : Kernel}
      (hid : (kernel.sockets id).isSome = true) (hsocket : kernel.sockets target = some socket)
      (hsize : socket.listenQueueSize ≠ socket.listenQueueCapacity)
      (hqueued : queued = (kernel.setSocket target
        { socket with listenQueue := socket.listenQueue ++ [id] }).invoke (target, .listenerArrived))
      (hsignal : (kernel.events (target, .listenerAccepted)).signal = true) :
      Turn kernel (.connect thread id target) .done (queued.unsignalled (target, .listenerAccepted))
  | returns {thread id target : Nat} (hwoken : kernel.threads thread = .woken (.connect id target)) :
      Turn kernel (.resume thread) .done (kernel.setThread thread .free)
  | inval {thread id : Nat} : Turn kernel (.accept thread id) .inval kernel
  | accepts {op : Op} {thread id requester : Nat} {rest : List Nat} {socket : UnixSocket}
      (hruns : op.Runs kernel thread (.accept id)) (hsocket : kernel.sockets id = some socket)
      (hqueue : socket.listenQueue = requester :: rest) :
      Turn kernel op (.made kernel.next)
        (((kernel.setThread thread .free).served id requester rest).invoke (id, .listenerAccepted))
  | sleeps {op : Op} {thread : Nat} {call : Call} (hruns : op.Runs kernel thread call)
      (hnothing : kernel.Nothing call) : Turn kernel op .sleeps (kernel.sleep thread call)
  | unpaired {thread id size : Nat} {socket : UnixSocket}
      (hsocket : kernel.sockets id = some socket) (hpaired : socket.pairedSocket = none) :
      Turn kernel (.read thread id size) .noAddr kernel
  | takes {op : Op} {thread id size : Nat} {socket : UnixSocket} {packet : Packet}
      {rest : List Packet} (hruns : op.Runs kernel thread (.read id size))
      (hsocket : kernel.sockets id = some socket) (hincoming : socket.incoming = packet :: rest) :
      Turn kernel op (.read (packet.take size).1) ((kernel.setThread thread .free).setSocket id
        { socket with incoming := (packet.take size).2.toList ++ rest })
  | unheard {id : Nat} {data : List UInt8} {socket : UnixSocket}
      (hsocket : kernel.sockets id = some socket) (hpaired : socket.pairedSocket = none) :
      Turn kernel (.write id data) .noAddr kernel
  | writes {id peer : Nat} {data : List UInt8} {socket peerSocket : UnixSocket}
      (hsocket : kernel.sockets id = some socket) (hpaired : socket.pairedSocket = some peer)
      (hpeer : kernel.sockets peer = some peerSocket) :
      Turn kernel (.write id data) (.wrote data.length) ((kernel.setSocket peer
        { peerSocket with
          incoming := peerSocket.incoming ++ [⟨0, data.length, data⟩] }).invoke (peer, .dataReady))

/-- What the system does: the steps that are possible and return. -/
def system : System Kernel Op where
  init kernel := kernel = bootKernel
  step kernel op next := op.Possible kernel ∧ ∃ outcome, op.perform kernel = .ok (outcome, next)

variable {kernel next : Kernel} {socket : UnixSocket} {id thread other : Nat} {event : Event}
  {call : Call} {op : Op} {outcome : Outcome}

/-! ## Primitives -/

namespace Kernel

theorem setSocket_self (kernel : Kernel) (id : Nat) (socket : UnixSocket) :
    (kernel.setSocket id socket).sockets id = some socket := update_self ..

theorem setSocket_of_ne (hother : other ≠ id) (socket : UnixSocket) :
    (kernel.setSocket id socket).sockets other = kernel.sockets other :=
  update_of_ne hother ..

/-- What a look-up can find after a store. -/
theorem setSocket_look {new : UnixSocket} (hlook : (kernel.setSocket id new).sockets other = some socket) :
    (other = id ∧ socket = new) ∨ (other ≠ id ∧ kernel.sockets other = some socket) := by
  by_cases hsame : other = id
  · rw [hsame, setSocket_self, Option.some.injEq] at hlook
    exact .inl ⟨hsame, hlook.symm⟩
  · rw [setSocket_of_ne hsame] at hlook
    exact .inr ⟨hsame, hlook⟩

theorem init_look (hlook : (unixSocketInit kernel).2.sockets id = some socket) :
    (id = kernel.next ∧ socket = ⟨0, 0, [], [], none⟩) ∨
      (id ≠ kernel.next ∧ kernel.sockets id = some socket) := by
  by_cases hnew : id = kernel.next
  · exact .inl ⟨hnew, Option.some.inj (hlook.symm.trans (hnew ▸ update_self ..))⟩
  · exact .inr ⟨hnew, (update_of_ne hnew ..).symm.trans hlook⟩

theorem served_look {requester : Nat} {rest : List Nat}
    (hlook : (kernel.served id requester rest).sockets other = some socket) :
    (other = kernel.next ∧ socket = ⟨0, 0, [], [], some requester⟩) ∨
      (other ≠ kernel.next ∧ ∃ old, kernel.sockets other = some old ∧ socket =
        { old with
          listenQueue := if other = id then rest else old.listenQueue
          pairedSocket := if other = requester then some kernel.next else old.pairedSocket }) := by
  unfold served at hlook
  dsimp only at hlook
  split at hlook
  next hnew => exact .inl ⟨hnew, Option.some.inj hlook.symm⟩
  next hnew =>
    obtain ⟨old, hold, rfl⟩ := Option.map_eq_some_iff.mp hlook
    exact .inr ⟨hnew, old, hold, rfl⟩

@[simp]
theorem wake_sockets (kernel : Kernel) (woken : Option Nat) :
    (kernel.wake woken).sockets = kernel.sockets := by
  cases woken with
  | none => rfl
  | some thread =>
      rw [wake]
      split <;> rfl

@[simp]
theorem wake_events (kernel : Kernel) (woken : Option Nat) :
    (kernel.wake woken).events = kernel.events := by
  cases woken with
  | none => rfl
  | some thread =>
      rw [wake]
      split <;> rfl

@[simp]
theorem wake_next (kernel : Kernel) (woken : Option Nat) : (kernel.wake woken).next = kernel.next := by
  cases woken with
  | none => rfl
  | some thread =>
      rw [wake]
      split <;> rfl

@[simp]
theorem invoke_sockets (kernel : Kernel) (event : Event) :
    (kernel.invoke event).sockets = kernel.sockets := wake_sockets ..

@[simp]
theorem invoke_events (kernel : Kernel) (event : Event) :
    (kernel.invoke event).events =
      update kernel.events event (kernel.events event).invoke.2 := wake_events ..

@[simp]
theorem invoke_next (kernel : Kernel) (event : Event) : (kernel.invoke event).next = kernel.next :=
  wake_next ..

theorem setThread_threads_of_ne (hother : other ≠ thread) (activity : Activity) :
    (kernel.setThread thread activity).threads other = kernel.threads other :=
  update_of_ne hother ..

theorem sleep_threads_of_ne (hother : other ≠ thread) (call : Call) :
    (kernel.sleep thread call).threads other = kernel.threads other := update_of_ne hother ..

theorem sleep_events_of_ne (hevent : event ≠ call.waitsFor) :
    (kernel.sleep thread call).events event = kernel.events event := update_of_ne hevent ..

theorem sleep_events_self (kernel : Kernel) (thread : Nat) (call : Call) :
    (kernel.sleep thread call).events call.waitsFor =
      ⟨false, (kernel.events call.waitsFor).waiters ++ [thread]⟩ := update_self ..

theorem unsignalled_waiters (kernel : Kernel) (event other : Event) :
    ((kernel.unsignalled event).events other).waiters = (kernel.events other).waiters := by
  rw [unsignalled]
  by_cases hsame : other = event <;> simp [hsame]

theorem served_events_of_ne (hevent : event.1 ≠ kernel.next) (requester : Nat) (rest : List Nat) :
    (kernel.served id requester rest).events event = kernel.events event := if_neg hevent

theorem init_events_of_ne (hevent : event.1 ≠ kernel.next) :
    (unixSocketInit kernel).2.events event = kernel.events event := if_neg hevent

theorem wake_threads_of_ne {woken : Option Nat} (hother : woken ≠ some other) :
    (kernel.wake woken).threads other = kernel.threads other := by
  cases woken with
  | none => rfl
  | some thread =>
      have hne : other ≠ thread := fun heq => hother (heq ▸ rfl)
      rw [wake]
      split
      next => exact update_of_ne hne ..
      next => rfl

/-- Only the first waiter is woken. -/
theorem invoke_threads_of_ne (hother : (kernel.events event).invoke.1 ≠ some other) :
    (kernel.invoke event).threads other = kernel.threads other :=
  wake_threads_of_ne hother

theorem invoke_threads_woken (hwoken : (kernel.events event).invoke.1 = some thread)
    (hasleep : kernel.threads thread = .asleep call) :
    (kernel.invoke event).threads thread = .woken call := by
  unfold invoke
  dsimp only
  rw [hwoken, wake]
  dsimp only
  rw [hasleep]
  exact update_self ..

/-- A thread that does not sleep is not woken. -/
theorem invoke_threads_awake (hawake : ∀ call, kernel.threads thread ≠ .asleep call) :
    (kernel.invoke event).threads thread = kernel.threads thread := by
  unfold invoke wake
  dsimp only
  split
  next => rfl
  next woken hwoken =>
    split
    next call hasleep =>
      refine update_of_ne (fun hsame => ?_) ..
      exact hawake call (hsame ▸ hasleep)
    next => rfl

theorem socket_eq (hsocket : kernel.sockets id = some socket) : kernel.socket id = .ok socket := by
  rw [Kernel.socket, hsocket]

theorem socket_eq_ok : kernel.socket id = .ok socket ↔ kernel.sockets id = some socket := by
  unfold Kernel.socket
  cases kernel.sockets id <;> simp

theorem modify_eq (hsocket : kernel.sockets id = some socket) (change : UnixSocket → UnixSocket) :
    kernel.modify id change = .ok (kernel.setSocket id (change socket)) := by
  rw [modify, socket_eq hsocket, ok_bind, pure_eq_ok]

theorem modify_eq_ok {change : UnixSocket → UnixSocket} (hmodify : kernel.modify id change = .ok next) :
    ∃ socket, kernel.sockets id = some socket ∧ next = kernel.setSocket id (change socket) := by
  obtain ⟨socket, hsocket, hset⟩ := bind_eq_ok.mp hmodify
  cases hset
  exact ⟨socket, socket_eq_ok.mp hsocket, rfl⟩

theorem await_signal (hsignal : (kernel.events event).signal = true) (thread : Nat) (call : Call) :
    kernel.await event thread call = (false, kernel.unsignalled event) := by
  rw [await, WaitQueue.await_of_signal hsignal]
  rfl

theorem await_sleep (hevent : call.waitsFor = event) (hsignal : (kernel.events event).signal = false)
    (thread : Nat) : kernel.await event thread call = (true, kernel.sleep thread call) := by
  subst hevent
  rw [await, WaitQueue.await_of_no_signal hsignal, sleep, ← hsignal]
  rfl

/-- A signal that is used up before the thread sleeps leaves the same state as none. -/
theorem sleep_unsignalled (kernel : Kernel) (thread : Nat) (call : Call) :
    (kernel.unsignalled call.waitsFor).sleep thread call = kernel.sleep thread call := by
  simp only [unsignalled, sleep, update_idem, update_self]

/-- A thread outside calls that sleeps need not be marked free before. -/
theorem sleep_setThread (kernel : Kernel) (thread : Nat) (call : Call) (activity : Activity) :
    (kernel.setThread thread activity).sleep thread call = kernel.sleep thread call := by
  simp only [setThread, sleep, update_idem]

theorem setThread_self {activity : Activity} (hthread : kernel.threads thread = activity) :
    kernel.setThread thread activity = kernel := by
  rw [setThread, ← hthread, update_eq_self]

end Kernel

/-! ## The loops -/

/-- A loop that only waits ends with the thread asleep: a first round may use up a signal. -/
theorem loop_sleeps {call : Call} {loop : Nat → Kernel → Except Fault (Outcome × Kernel)} {thread : Nat}
    (hround : ∀ next fuel, next.sockets = kernel.sockets → loop (fuel + 1) next =
      if (next.await call.waitsFor thread call).1 then
        .ok (.sleeps, (next.await call.waitsFor thread call).2)
      else loop fuel (next.await call.waitsFor thread call).2) :
    loop 2 kernel = .ok (.sleeps, kernel.sleep thread call) := by
  rw [hround kernel 1 rfl]
  cases hsignal : (kernel.events call.waitsFor).signal with
  | false =>
      rw [Kernel.await_sleep rfl hsignal]
      rfl
  | true =>
      rw [Kernel.await_signal hsignal, if_neg Bool.false_ne_true]
      refine (hround (kernel.unsignalled call.waitsFor) 0 rfl).trans ?_
      rw [Kernel.await_sleep rfl (by simp only [Kernel.unsignalled, update_self]),
        Kernel.sleep_unsignalled]
      rfl

/-- Without a packet the thread ends asleep. -/
theorem readLoop_nil (hsocket : kernel.sockets id = some socket) (hempty : socket.incoming = [])
    (thread size : Nat) :
    readLoop thread id size 2 kernel = .ok (.sleeps, kernel.sleep thread (.read id size)) :=
  loop_sleeps fun next fuel hsame => by
    rw [readLoop, Kernel.socket_eq (hsame ▸ hsocket), ok_bind, hempty]
    rfl

theorem readLoop_cons (hsocket : kernel.sockets id = some socket) {packet : Packet}
    {rest : List Packet} (hincoming : socket.incoming = packet :: rest) (thread size : Nat) :
    readLoop thread id size 2 kernel = .ok (.read (packet.take size).1,
      kernel.setSocket id { socket with incoming := (packet.take size).2.toList ++ rest }) := by
  rw [readLoop, Kernel.socket_eq hsocket, ok_bind, hincoming]
  dsimp only
  rw [Kernel.modify_eq hsocket, ok_bind, pure_eq_ok]

/-- Without a request the thread ends asleep. -/
theorem acceptLoop_nil (hsocket : kernel.sockets id = some socket) (hempty : socket.listenQueue = [])
    (thread : Nat) :
    acceptLoop thread id 2 kernel = .ok (.sleeps, kernel.sleep thread (.accept id)) :=
  loop_sleeps fun next fuel hsame => by
    rw [acceptLoop, Kernel.socket_eq (hsame ▸ hsocket), ok_bind, hempty]
    rfl

/-- The sockets are the numbers given out so far. -/
theorem Wired.exists_socket (hwired : Wired kernel) (hid : id < kernel.next) :
    ∃ socket, kernel.sockets id = some socket :=
  Option.isSome_iff_exists.mp ((hwired.exist id).mpr hid)

theorem Wired.lt_next (hwired : Wired kernel) (hsocket : kernel.sockets id = some socket) :
    id < kernel.next :=
  (hwired.exist id).mp (by rw [hsocket]; rfl)

/-- With a request the thread makes a pair. -/
theorem acceptLoop_cons (hwired : Wired kernel) (hsocket : kernel.sockets id = some socket)
    {requester : Nat} {rest : List Nat} (hqueue : socket.listenQueue = requester :: rest)
    (thread : Nat) : acceptLoop thread id 2 kernel = .ok (.made kernel.next,
      (kernel.served id requester rest).invoke (id, .listenerAccepted)) := by
  have hlt : requester < kernel.next := hwired.requesters id socket hsocket requester (by simp [hqueue])
  obtain ⟨peer, hpeer⟩ := hwired.exists_socket hlt
  let queued := kernel.setSocket id { socket with listenQueue := rest }
  let created := (unixSocketInit queued).2
  let linked := created.setSocket kernel.next ⟨0, 0, [], [], some requester⟩
  have hcreated : created.sockets kernel.next = some ⟨0, 0, [], [], none⟩ := update_self ..
  obtain ⟨peer', hpeer', hlinked⟩ : ∃ peer', linked.sockets requester = some peer' ∧
      peer' = { peer with listenQueue := if requester = id then rest else peer.listenQueue } := by
    have hlook : linked.sockets requester = queued.sockets requester :=
      (update_of_ne (Nat.ne_of_lt hlt) ..).trans (update_of_ne (Nat.ne_of_lt hlt) ..)
    by_cases hself : requester = id
    · subst hself
      obtain rfl : socket = peer := Option.some.inj (hsocket.symm.trans hpeer)
      exact ⟨_, hlook.trans (update_self ..), by rw [if_pos rfl]⟩
    · exact ⟨peer, hlook.trans ((update_of_ne hself ..).trans hpeer), by rw [if_neg hself]⟩
  have hserved : linked.setSocket requester { peer' with pairedSocket := some kernel.next } =
      kernel.served id requester rest := by
    refine congrArg (Kernel.mk · _ _ _) (funext fun other => ?_)
    by_cases hnew : other = kernel.next
    · subst hnew
      exact (update_of_ne (Nat.ne_of_gt hlt) ..).trans ((update_self ..).trans (if_pos rfl).symm)
    · rw [if_neg hnew]
      by_cases hrequester : other = requester
      · rw [hrequester, hpeer, hlinked]
        exact (update_self ..).trans (by simp)
      · refine (update_of_ne hrequester ..).trans ((update_of_ne hnew ..).trans
          ((update_of_ne hnew ..).trans ?_))
        by_cases hsame : other = id
        · rw [hsame, hsocket]
          exact (update_self ..).trans (by simp [hsame ▸ hrequester])
        · refine (update_of_ne hsame ..).trans ?_
          cases kernel.sockets other <;> simp [hsame, hrequester]
  rw [acceptLoop, Kernel.socket_eq hsocket, ok_bind, hqueue]
  dsimp only
  rw [Kernel.modify_eq hsocket, ok_bind]
  change (created.modify kernel.next _ >>= _) = _
  rw [Kernel.modify_eq hcreated, ok_bind]
  change (linked.modify requester _ >>= _) = _
  rw [Kernel.modify_eq hpeer', ok_bind]
  change Except.ok (_, Kernel.invoke (linked.setSocket requester { peer' with pairedSocket := some kernel.next }) _) = _
  rw [hserved]
  rfl

/-! ## Turns -/

/-- A thread that runs a call does not wait. -/
theorem Op.Runs.not_waits (hruns : op.Runs kernel thread call) : ¬kernel.Waits thread event := by
  rintro ⟨_, hasleep, -⟩
  cases hruns with
  | accept hfree => simp [hfree] at hasleep
  | read hfree => simp [hfree] at hasleep
  | resume hwoken => simp [hwoken] at hasleep

namespace Wired

theorem boot : Wired bootKernel where
  exist id := by simp [bootKernel]
  requesters id socket hsocket := by simp [bootKernel] at hsocket
  sound _ := WaitQueue.sound_empty
  waits event thread := ⟨nofun, fun ⟨_, hasleep, _⟩ => by simp [bootKernel] at hasleep⟩
  calls event thread := fun ⟨_, hasleep, _⟩ => by simp [bootKernel] at hasleep

/-- A store to a socket, of requesters that exist. -/
theorem setSocket (hwired : Wired kernel) (hsocket : kernel.sockets id = some socket)
    {new : UnixSocket} (hrequesters : ∀ requester ∈ new.listenQueue, requester < kernel.next) :
    Wired (kernel.setSocket id new) where
  exist other := by
    refine Iff.trans ?_ (hwired.exist other)
    by_cases hsame : other = id
    · rw [hsame, hsocket]
      simp [Kernel.setSocket]
    · simp [Kernel.setSocket, hsame]
  requesters other socket' hsocket' := by
    by_cases hsame : other = id
    · subst hsame
      cases (Kernel.setSocket_self ..).symm.trans hsocket'
      exact hrequesters
    · rw [Kernel.setSocket_of_ne hsame] at hsocket'
      exact hwired.requesters other socket' hsocket'
  sound := hwired.sound
  waits := hwired.waits
  calls := hwired.calls

/-- A thread that does not sleep is marked free. -/
theorem free (hwired : Wired kernel) (hawake : ∀ event, ¬kernel.Waits thread event) :
    Wired (kernel.setThread thread .free) := by
  have hsame (other : Nat) (event : Event) :
      (kernel.setThread thread .free).Waits other event ↔ kernel.Waits other event := by
    by_cases hother : other = thread
    · rw [hother]
      exact ⟨fun ⟨_, hasleep, _⟩ => by simp [Kernel.setThread] at hasleep,
        fun hwaits => absurd hwaits (hawake event)⟩
    · simp [Kernel.Waits, Kernel.setThread, hother]
  exact ⟨hwired.exist, hwired.requesters, hwired.sound,
    fun event other => (hwired.waits event other).trans (hsame other event).symm,
    fun event other hwaits => hwired.calls event other ((hsame other event).mp hwaits)⟩

/-- Who sleeps after an invocation. -/
theorem waits_invoke (hwired : Wired kernel) (event other : Event) : (kernel.invoke event).Waits thread other ↔
    kernel.Waits thread other ∧ (kernel.events event).invoke.1 ≠ some thread := by
  by_cases hwoken : (kernel.events event).invoke.1 = some thread
  · obtain ⟨call, hasleep, -⟩ := (hwired.waits event thread).mp (WaitQueue.woken_mem hwoken)
    have hthreads := Kernel.invoke_threads_woken hwoken hasleep
    simp [Kernel.Waits, hthreads, hwoken]
  · simp [Kernel.Waits, Kernel.invoke_threads_of_ne hwoken, hwoken]

theorem invoke (hwired : Wired kernel) (event : Event) : Wired (kernel.invoke event) where
  exist id := by simpa using hwired.exist id
  requesters id socket hsocket := by
    rw [Kernel.invoke_next]
    exact hwired.requesters id socket (by simpa using hsocket)
  sound other := by
    rw [Kernel.invoke_events, update_apply]
    split
    next hsame => exact (hwired.sound event).invoke
    next => exact hwired.sound other
  waits other thread := by
    rw [hwired.waits_invoke, Kernel.invoke_events, update_apply]
    split
    next hsame =>
      rw [hsame, WaitQueue.mem_waiters_invoke (hwired.sound event), hwired.waits]
    next hother =>
      rw [hwired.waits other thread]
      refine ⟨fun hwaits => ⟨hwaits, fun hwoken => ?_⟩, And.left⟩
      obtain ⟨call, hasleep, hcall⟩ := hwaits
      obtain ⟨call', hasleep', hcall'⟩ := (hwired.waits event thread).mp (WaitQueue.woken_mem hwoken)
      obtain rfl : call = call' := Activity.asleep.inj (hasleep.symm.trans hasleep')
      exact hother (hcall.symm.trans hcall')
  calls other thread hwaits := by
    rw [Kernel.invoke_next]
    exact hwired.calls other thread ((hwired.waits_invoke event other).mp hwaits).1

theorem sleep (hwired : Wired kernel) (hawake : ∀ event, ¬kernel.Waits thread event)
    (hevent : call.waitsFor.1 < kernel.next) : Wired (kernel.sleep thread call) := by
  have hwaits (other : Nat) (event : Event) : (kernel.sleep thread call).Waits other event ↔
      if other = thread then call.waitsFor = event else kernel.Waits other event := by
    split
    next hsame => simp [Kernel.Waits, Kernel.sleep, hsame]
    next hother => simp [Kernel.Waits, Kernel.sleep, hother]
  have hnew : ∀ event, thread ∉ (kernel.events event).waiters :=
    fun event hmem => hawake event ((hwired.waits event thread).mp hmem)
  refine ⟨hwired.exist, hwired.requesters, fun event => ?_, fun event other => ?_,
    fun event other hother => ?_⟩
  · simp only [Kernel.sleep, update_apply]
    split
    next => exact ⟨nofun, (hwired.sound _).nodup.append (List.nodup_singleton _) (by simp [hnew])⟩
    next => exact hwired.sound event
  · rw [hwaits]
    simp only [Kernel.sleep, update_apply]
    by_cases hsame : other = thread
    · rw [if_pos hsame, hsame]
      by_cases hevent : event = call.waitsFor
      · simp [hevent]
      · rw [if_neg hevent]
        exact ⟨fun hmem => absurd hmem (hnew event), fun heq => absurd heq.symm hevent⟩
    · rw [if_neg hsame, ← hwired.waits]
      split
      next hevent => simp [hevent, hsame]
      next => rfl
  · rw [hwaits] at hother
    split at hother
    next => exact hother ▸ hevent
    next => exact hwired.calls event other hother

/-- A signal that nobody waits for is used up. -/
theorem unsignalled (hwired : Wired kernel) (event : Event) : Wired (kernel.unsignalled event) := by
  refine ⟨hwired.exist, hwired.requesters, fun other => ?_, fun other thread => ?_, hwired.calls⟩
  · simp only [Kernel.unsignalled, update_apply]
    split
    next => exact ⟨nofun, (hwired.sound event).nodup⟩
    next => exact hwired.sound other
  · rw [Kernel.unsignalled_waiters]
    exact hwired.waits other thread

/-- New events, which nobody waits for. -/
theorem fresh {sockets : Nat → Option UnixSocket} (hwired : Wired kernel)
    (hexist : ∀ id, (sockets id).isSome = true ↔ id < kernel.next + 1)
    (hrequesters : ∀ id socket, sockets id = some socket →
      ∀ requester ∈ socket.listenQueue, requester < kernel.next + 1) :
    Wired ⟨sockets, fun event => if event.1 = kernel.next then .empty else kernel.events event,
      kernel.next + 1, kernel.threads⟩ := by
  refine ⟨hexist, hrequesters, fun event => ?_, fun event thread => ?_,
    fun event thread hwaits => Nat.lt_succ_of_lt (hwired.calls event thread hwaits)⟩
  · dsimp only
    split
    next => exact WaitQueue.sound_empty
    next => exact hwired.sound event
  · dsimp only
    split
    next hnew =>
      refine ⟨nofun, fun hwaits => ?_⟩
      exact absurd (hwired.calls event thread hwaits) (by omega)
    next => exact hwired.waits event thread

theorem init (hwired : Wired kernel) : Wired (unixSocketInit kernel).2 := by
  refine hwired.fresh (fun id => ?_) fun id socket hsocket requester hmem => ?_
  · by_cases hnew : id = kernel.next
    · simp [hnew]
    · rw [update_of_ne hnew, hwired.exist]
      omega
  · by_cases hnew : id = kernel.next
    · rw [hnew, update_self, Option.some.injEq] at hsocket
      simp [← hsocket] at hmem
    · rw [update_of_ne hnew] at hsocket
      exact Nat.lt_succ_of_lt (hwired.requesters id socket hsocket requester hmem)

theorem served (hwired : Wired kernel) (hsocket : kernel.sockets id = some socket)
    {requester : Nat} {rest : List Nat} (hqueue : socket.listenQueue = requester :: rest) :
    Wired (kernel.served id requester rest) := by
  refine hwired.fresh (fun other => ?_) fun other socket' hsocket' requester' hmem => ?_
  · by_cases hnew : other = kernel.next
    · simp [hnew]
    · rw [if_neg hnew, Option.isSome_map, hwired.exist]
      omega
  · by_cases hnew : other = kernel.next
    · rw [if_pos hnew, Option.some.injEq] at hsocket'
      simp [← hsocket'] at hmem
    · rw [if_neg hnew] at hsocket'
      obtain ⟨old, hold, rfl⟩ := Option.map_eq_some_iff.mp hsocket'
      dsimp only at hmem
      refine Nat.lt_succ_of_lt ?_
      split at hmem
      next => exact hwired.requesters id socket hsocket requester' (by simp [hqueue, hmem])
      next => exact hwired.requesters other old hold requester' hmem

end Wired

/-- The rest of `unix_socket_accept` is a turn, whoever gets there. -/
theorem turn_accept (hwired : Wired kernel) (hruns : op.Runs kernel thread (.accept id))
    (haccept : acceptLoop thread id 2 (kernel.setThread thread .free) = .ok (outcome, next)) :
    Turn kernel op outcome next := by
  have hfreed := hwired.free fun _ => hruns.not_waits
  obtain ⟨socket, hsocket, -⟩ := bind_eq_ok.mp haccept
  have hsocket := Kernel.socket_eq_ok.mp hsocket
  cases hqueue : socket.listenQueue with
  | nil =>
      rw [acceptLoop_nil hsocket hqueue, Kernel.sleep_setThread, Except.ok.injEq, Prod.mk.injEq] at haccept
      rw [← haccept.1, ← haccept.2]
      exact .sleeps hruns ⟨socket, hsocket, hqueue⟩
  | cons requester rest =>
      rw [acceptLoop_cons hfreed hsocket hqueue, Except.ok.injEq, Prod.mk.injEq] at haccept
      rw [← haccept.1, ← haccept.2]
      exact .accepts hruns hsocket hqueue

theorem turn_read (hruns : op.Runs kernel thread (.read id size))
    (hread : readLoop thread id size 2 (kernel.setThread thread .free) = .ok (outcome, next)) :
    Turn kernel op outcome next := by
  obtain ⟨socket, hsocket, -⟩ := bind_eq_ok.mp hread
  have hsocket := Kernel.socket_eq_ok.mp hsocket
  cases hincoming : socket.incoming with
  | nil =>
      rw [readLoop_nil hsocket hincoming, Kernel.sleep_setThread, Except.ok.injEq, Prod.mk.injEq] at hread
      rw [← hread.1, ← hread.2]
      exact .sleeps hruns ⟨socket, hsocket, hincoming⟩
  | cons packet rest =>
      rw [readLoop_cons hsocket hincoming, Except.ok.injEq, Prod.mk.injEq] at hread
      rw [← hread.1, ← hread.2]
      exact .takes hruns hsocket hincoming

theorem turn_connect (hfree : kernel.threads thread = .free) {target : Nat}
    (hid : (kernel.sockets id).isSome = true)
    (hconnect : unixSocketConnect kernel thread id target = .ok (outcome, next)) :
    Turn kernel (.connect thread id target) outcome next := by
  obtain ⟨socket, hsocket, hconnect⟩ := bind_eq_ok.mp hconnect
  have hsocket := Kernel.socket_eq_ok.mp hsocket
  split at hconnect
  next hsize =>
    cases hconnect
    exact .refused hsocket hsize
  next hsize =>
    rw [Kernel.modify_eq hsocket, ok_bind] at hconnect
    dsimp only at hconnect
    have hevents : ∀ kernel' : Kernel, kernel'.events = kernel.events →
        (kernel'.invoke (target, .listenerArrived)).events (target, .listenerAccepted) =
          kernel.events (target, .listenerAccepted) := fun kernel' hsame => by
      rw [Kernel.invoke_events, update_of_ne (by simp), hsame]
    cases hsignal : (kernel.events (target, .listenerAccepted)).signal with
    | false =>
        rw [Kernel.await_sleep (by rfl) (by rw [hevents _ (by rfl), hsignal]), if_pos rfl, pure_eq_ok,
          Except.ok.injEq, Prod.mk.injEq] at hconnect
        rw [← hconnect.1, ← hconnect.2]
        exact .requests hfree hid hsocket hsize rfl hsignal
    | true =>
        rw [Kernel.await_signal (by rw [hevents _ (by rfl), hsignal]), if_neg Bool.false_ne_true,
          pure_eq_ok, Except.ok.injEq, Prod.mk.injEq] at hconnect
        rw [← hconnect.1, ← hconnect.2]
        exact .connects hid hsocket hsize rfl hsignal

theorem turn_write {data : List UInt8} (hwrite : unixSocketWrite kernel id data = .ok (outcome, next)) :
    Turn kernel (.write id data) outcome next := by
  obtain ⟨socket, hsocket, hwrite⟩ := bind_eq_ok.mp hwrite
  have hsocket := Kernel.socket_eq_ok.mp hsocket
  split at hwrite
  next hpaired =>
    cases hwrite
    exact .unheard hsocket hpaired
  next peer hpaired =>
    obtain ⟨_, hmodify, hwrite⟩ := bind_eq_ok.mp hwrite
    obtain ⟨peerSocket, hpeer, rfl⟩ := Kernel.modify_eq_ok hmodify
    cases hwrite
    exact .writes hsocket hpaired hpeer

/-- Each step that returns is a turn. -/
theorem Op.turn (hwired : Wired kernel) (hpossible : op.Possible kernel)
    (hperform : op.perform kernel = .ok (outcome, next)) : Turn kernel op outcome next := by
  cases op with
  | init =>
      rw [Op.perform, Except.ok.injEq, Prod.mk.injEq] at hperform
      rw [← hperform.1, ← hperform.2]
      exact .init
  | listen id capacity =>
      obtain ⟨_, hlisten, hreturn⟩ := bind_eq_ok.mp hperform
      obtain ⟨socket, hsocket, rfl⟩ := Kernel.modify_eq_ok hlisten
      cases hreturn
      exact .listen hsocket
  | connect thread id target => exact turn_connect hpossible.1 hpossible.2 hperform
  | accept thread id =>
      obtain ⟨socket, hsocket, haccept⟩ := bind_eq_ok.mp hperform
      split at haccept
      next hcapacity =>
        cases haccept
        exact .inval
      next hcapacity =>
        rw [← Kernel.setThread_self hpossible] at haccept
        exact turn_accept hwired (.accept hpossible) haccept
  | read thread id size =>
      obtain ⟨socket, hsocket, hread⟩ := bind_eq_ok.mp hperform
      split at hread
      next hpaired =>
        cases hread
        exact .unpaired (Kernel.socket_eq_ok.mp hsocket) hpaired
      next hpaired =>
        rw [← Kernel.setThread_self hpossible] at hread
        exact turn_read (.read hpossible (Kernel.socket_eq_ok.mp hsocket) hpaired) hread
  | write id data => exact turn_write hperform
  | resume thread =>
      obtain ⟨call, hwoken⟩ := hpossible
      rw [Op.perform, hwoken] at hperform
      dsimp only at hperform
      cases call with
      | connect id target =>
          rw [Call.goOn, Except.ok.injEq, Prod.mk.injEq] at hperform
          rw [← hperform.1, ← hperform.2]
          exact .returns hwoken
      | accept id => exact turn_accept hwired (.resume hwoken) hperform
      | read id size => exact turn_read (.resume hwoken) hperform

theorem Kernel.Nothing.exists_socket (hnothing : kernel.Nothing call) :
    ∃ socket, kernel.sockets call.waitsFor.1 = some socket := by
  cases call with
  | connect => exact hnothing.elim
  | accept id => exact hnothing.imp fun _ => And.left
  | read id size => exact hnothing.imp fun _ => And.left

theorem Wired.requesters_append {requester : Nat} (hwired : Wired kernel)
    (hsocket : kernel.sockets id = some socket) (hid : (kernel.sockets requester).isSome = true) :
    ∀ other ∈ socket.listenQueue ++ [requester], other < kernel.next := by
  intro other hmem
  rcases List.mem_append.mp hmem with hmem | hmem
  · exact hwired.requesters id socket hsocket other hmem
  · rw [List.mem_singleton.mp hmem]
    exact (hwired.exist requester).mp hid

theorem Wired.queued {requester : Nat} (hwired : Wired kernel)
    (hsocket : kernel.sockets id = some socket) (hid : (kernel.sockets requester).isSome = true) :
    Wired ((kernel.setSocket id
      { socket with listenQueue := socket.listenQueue ++ [requester] }).invoke event) :=
  (hwired.setSocket hsocket (hwired.requesters_append hsocket hid)).invoke event

/-- Each turn keeps the sockets, the events and the threads in order. -/
theorem Turn.wired (hwired : Wired kernel) (hturn : Turn kernel op outcome next) : Wired next := by
  cases hturn with
  | init => exact hwired.init
  | listen hsocket => exact hwired.setSocket hsocket nofun
  | refused | inval | unpaired | unheard => exact hwired
  | @requests thread id target socket queued hfree hid hsocket hsize hqueued hsignal =>
      rw [hqueued]
      refine (hwired.queued hsocket hid).sleep (fun event hwaits => ?_) ?_
      · obtain ⟨⟨_, hasleep, -⟩, -⟩ := ((hwired.setSocket hsocket
          (hwired.requesters_append hsocket hid)).waits_invoke _ event).mp hwaits
        simp [Kernel.setSocket, hfree] at hasleep
      · rw [Kernel.invoke_next]
        exact hwired.lt_next hsocket
  | connects hid hsocket hsize hqueued hsignal =>
      rw [hqueued]
      exact (hwired.queued hsocket hid).unsignalled _
  | @returns thread id target hwoken =>
      exact hwired.free fun event ⟨_, hasleep, _⟩ => by simp [hwoken] at hasleep
  | accepts hruns hsocket hqueue =>
      exact ((hwired.free fun _ => hruns.not_waits).served hsocket hqueue).invoke _
  | sleeps hruns hnothing =>
      obtain ⟨socket, hsocket⟩ := hnothing.exists_socket
      exact hwired.sleep (fun _ => hruns.not_waits) (hwired.lt_next hsocket)
  | takes hruns hsocket hincoming =>
      have hrequesters := hwired.requesters _ _ hsocket
      exact (hwired.free fun _ => hruns.not_waits).setSocket hsocket hrequesters
  | writes hsocket hpaired hpeer =>
      have hrequesters := hwired.requesters _ _ hpeer
      exact (hwired.setSocket hpeer (by exact hrequesters)).invoke _

theorem wired_inductive : system.Inductive Wired where
  init kernel hinit := hinit ▸ .boot
  step kernel op next hwired hstep := by
    obtain ⟨hpossible, outcome, hperform⟩ := hstep
    exact (Op.turn hwired hpossible hperform).wired hwired

/-! ## Runs -/

theorem reachable_perform (hreach : system.Reachable kernel) (op : Op)
    (hpossible : op.Possible kernel) (hperform : op.perform kernel = .ok (outcome, next)) :
    system.Reachable next :=
  hreach.step ⟨hpossible, outcome, hperform⟩

theorem reachable_perform_restrict {condition : Kernel → Op → Prop}
    (hreach : (system.restrict condition).Reachable kernel) (op : Op) (hpossible : op.Possible kernel)
    (hperform : op.perform kernel = .ok (outcome, next)) (hcondition : condition kernel op) :
    (system.restrict condition).Reachable next :=
  hreach.step ⟨hcondition, hpossible, outcome, hperform⟩

/-- The thread that makes the call or goes on with one. -/
def Op.thread? : Op → Option Nat
  | .connect thread _ _ => some thread
  | .accept thread _ => some thread
  | .read thread _ _ => some thread
  | .resume thread => some thread
  | _ => none

theorem Op.Runs.thread? (hruns : op.Runs kernel thread call) : op.thread? = some thread := by
  cases hruns <;> rfl

/-- A thread is in a call, asleep or woken. -/
def Kernel.Calls (kernel : Kernel) (thread : Nat) (call : Call) : Prop :=
  kernel.threads thread = .asleep call ∨ kernel.threads thread = .woken call

theorem Kernel.calls_of_invoke (hcalls : (kernel.invoke event).Calls thread call) :
    kernel.Calls thread call := by
  by_cases hasleep : ∃ call, kernel.threads thread = .asleep call
  · obtain ⟨call', hasleep⟩ := hasleep
    by_cases hwoken : (kernel.events event).invoke.1 = some thread
    · rw [Calls, invoke_threads_woken hwoken hasleep] at hcalls
      exact .inl (hasleep.trans (by simpa using hcalls))
    · rwa [Calls, invoke_threads_of_ne hwoken] at hcalls
  · rwa [Calls, invoke_threads_awake fun call h => hasleep ⟨call, h⟩] at hcalls

theorem Kernel.calls_of_free (hcalls : (kernel.setThread thread .free).Calls other call) :
    kernel.Calls other call := by
  by_cases hsame : other = thread
  · simp [Calls, setThread, hsame] at hcalls
  · rwa [Calls, setThread_threads_of_ne hsame] at hcalls

theorem Kernel.calls_of_sleep {new : Call} (hcalls : (kernel.sleep thread new).Calls other call) :
    (other = thread ∧ call = new) ∨ kernel.Calls other call := by
  by_cases hsame : other = thread
  · rw [Calls, sleep, hsame] at hcalls
    simp only [update_self, reduceCtorEq, or_false, Activity.asleep.injEq] at hcalls
    exact .inl ⟨hsame, hcalls.symm⟩
  · rw [Calls, sleep_threads_of_ne hsame] at hcalls
    exact .inr hcalls

/-- A thread in a call after a turn was in it before, or the turn is its own. -/
theorem Turn.calls (hturn : Turn kernel op outcome next) (hcalls : next.Calls other call) :
    kernel.Calls other call ∨ op.Runs kernel other call ∨
      ∃ id target, op = .connect other id target ∧ call = .connect id target := by
  cases hturn with
  | init | listen | refused | inval | unpaired | unheard => exact .inl hcalls
  | @requests thread id target socket queued hfree hid hsocket hsize hqueued hsignal =>
      rcases Kernel.calls_of_sleep hcalls with ⟨rfl, rfl⟩ | hcalls
      · exact .inr (.inr ⟨id, target, rfl, rfl⟩)
      · rw [hqueued] at hcalls
        have hcalls := Kernel.calls_of_invoke hcalls
        exact .inl hcalls
  | connects _ _ _ hqueued =>
      rw [hqueued] at hcalls
      change (Kernel.invoke _ _).Calls other call at hcalls
      have hcalls := Kernel.calls_of_invoke hcalls
      exact .inl hcalls
  | returns | takes => exact .inl (Kernel.calls_of_free hcalls)
  | accepts =>
      have hcalls := Kernel.calls_of_invoke hcalls
      exact .inl (Kernel.calls_of_free hcalls)
  | sleeps hruns =>
      rcases Kernel.calls_of_sleep hcalls with ⟨rfl, rfl⟩ | hcalls
      · exact .inr (.inl hruns)
      · exact .inl hcalls
  | writes =>
      have hcalls := Kernel.calls_of_invoke hcalls
      exact .inl hcalls

/-- A thread outside calls stays there until it makes one. -/
theorem Turn.free (hturn : Turn kernel op outcome next) (hfree : kernel.threads other = .free)
    (hop : op.thread? ≠ some other) : next.threads other = .free := by
  have hinvoke (kernel : Kernel) (event : Event) (hfree : kernel.threads other = .free) :
      (kernel.invoke event).threads other = .free :=
    (Kernel.invoke_threads_awake (by simp [hfree])).trans hfree
  have hupdate {thread : Nat} (activity : Activity) (hthread : op.thread? = some thread) :
      update kernel.threads thread activity other = .free :=
    (update_of_ne (fun hsame => hop (hthread.trans (congrArg some hsame.symm))) ..).trans hfree
  cases hturn with
  | init | listen | refused | inval | unpaired | unheard => exact hfree
  | requests _ _ _ _ hqueued =>
      rw [hqueued]
      refine (update_of_ne (fun hsame => hop (congrArg some hsame.symm)) ..).trans ?_
      exact hinvoke _ _ hfree
  | connects _ _ _ hqueued =>
      rw [hqueued]
      exact hinvoke _ _ hfree
  | returns => exact hupdate _ rfl
  | accepts hruns => exact hinvoke _ _ (hupdate _ hruns.thread?)
  | sleeps hruns | takes hruns => exact hupdate _ hruns.thread?
  | writes => exact hinvoke _ _ hfree

/-- A run in which only some threads make calls. -/
structure ReachableBy (threads : List Nat) (kernel : Kernel) : Prop where
  reach : system.Reachable kernel
  free : ∀ other, other ∉ threads → kernel.threads other = .free

theorem ReachableBy.boot (threads : List Nat) : ReachableBy threads bootKernel :=
  ⟨.init rfl, fun _ _ => rfl⟩

theorem ReachableBy.perform {threads : List Nat} (hrun : ReachableBy threads kernel) (op : Op)
    (hop : op.thread?.all (· ∈ threads) = true) (hpossible : op.Possible kernel)
    (hperform : op.perform kernel = .ok (outcome, next)) : ReachableBy threads next where
  reach := reachable_perform hrun.reach op hpossible hperform
  free other hother := by
    have hturn := Op.turn (hrun.reach.invariant wired_inductive) hpossible hperform
    refine hturn.free (hrun.free other hother) fun hthread => hother ?_
    simpa [hthread] using hop

end PKernel.Sockets

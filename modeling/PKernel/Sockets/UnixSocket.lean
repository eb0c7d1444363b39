import Mathlib.Logic.Function.Basic
import PKernel.Library.WaitQueue
import PKernel.Machine

/-! # Unix sockets

`unix.c`, with the linked lists as lists and the events as queues of waiting threads.
Sockets are named by numbers that are never used again. A call runs with interrupts off up
to its end or to a `scheduler_await` that puts its thread to sleep; a thread that was woken
goes on from there when the scheduler resumes it.
-/

namespace PKernel.Sockets

open Library

/-- `unix_packet_t`. -/
structure Packet where
  pos : Nat
  size : Nat
  data : List UInt8
deriving DecidableEq, Repr

/-- `unix_socket_t` without its pointers to events, which stay as `unix_socket_init` sets
them. The requests of the listen queue are their requesters. -/
structure UnixSocket where
  listenQueueSize : Nat
  listenQueueCapacity : Nat
  listenQueue : List Nat
  incoming : List Packet
  pairedSocket : Option Nat
deriving DecidableEq, Repr

/-- The three events of a socket. -/
inductive EventName where
  | listenerArrived
  | listenerAccepted
  | dataReady
deriving DecidableEq, Repr

/-- An event by the socket that points to it. -/
abbrev Event := Nat × EventName

/-- A call that sleeps, with its arguments. -/
inductive Call where
  | connect (socket target : Nat)
  | accept (socket : Nat)
  | read (socket size : Nat)
deriving DecidableEq, Repr

/-- What a thread does: it is outside the calls below, waits in `scheduler_await`, or was
woken and is in a run queue. -/
inductive Activity where
  | free
  | asleep (call : Call)
  | woken (call : Call)
deriving DecidableEq, Repr

structure Kernel where
  sockets : Nat → Option UnixSocket
  events : Event → WaitQueue Nat
  /-- The number of sockets made so far. -/
  next : Nat
  threads : Nat → Activity

/-- What a call returns, or that its thread went to sleep. -/
inductive Outcome where
  | sleeps
  | done
  | made (socket : Nat)
  | connRefused
  | inval
  | noAddr
  | read (data : List UInt8)
  | wrote (size : Nat)
deriving DecidableEq, Repr

namespace Kernel

def socket (kernel : Kernel) (id : Nat) : Except Fault UnixSocket :=
  match kernel.sockets id with
  | some socket => .ok socket
  | none => .error .badPointer

def setSocket (kernel : Kernel) (id : Nat) (socket : UnixSocket) : Kernel :=
  { kernel with sockets := Function.update kernel.sockets id (some socket) }

/-- Stores to some fields of a socket. -/
def modify (kernel : Kernel) (id : Nat) (change : UnixSocket → UnixSocket) : Except Fault Kernel := do
  let socket ← kernel.socket id
  return kernel.setSocket id (change socket)

def setThread (kernel : Kernel) (thread : Nat) (activity : Activity) : Kernel :=
  { kernel with threads := Function.update kernel.threads thread activity }

/-- `thread_run` of the thread that was taken off a waiter list, if there was one. -/
def wake (kernel : Kernel) : Option Nat → Kernel
  | none => kernel
  | some thread =>
      match kernel.threads thread with
      | .asleep call => kernel.setThread thread (.woken call)
      | _ => kernel

/-- `event_invoke`. -/
def invoke (kernel : Kernel) (event : Event) : Kernel :=
  let (woken, queue) := (kernel.events event).invoke
  { kernel with events := Function.update kernel.events event queue }.wake woken

/-- `scheduler_await` in a call of a thread; the flag says whether the thread sleeps. -/
def await (kernel : Kernel) (event : Event) (thread : Nat) (call : Call) : Bool × Kernel :=
  let (sleeps, queue) := (kernel.events event).await thread
  let kernel := { kernel with events := Function.update kernel.events event queue }
  (sleeps, if sleeps then kernel.setThread thread (.asleep call) else kernel)

end Kernel

/-- `unix_socket_init`. -/
def unixSocketInit (kernel : Kernel) : Nat × Kernel :=
  (kernel.next,
    { kernel with
      sockets := Function.update kernel.sockets kernel.next (some ⟨0, 0, [], [], none⟩)
      events := fun event => if event.1 = kernel.next then .empty else kernel.events event
      next := kernel.next + 1 })

/-- `unix_socket_listen`. -/
def unixSocketListen (kernel : Kernel) (id capacity : Nat) : Except Fault Kernel :=
  kernel.modify id fun socket =>
    { socket with listenQueue := [], listenQueueSize := 0, listenQueueCapacity := capacity }

/-- `unix_socket_connect` up to its `scheduler_await`, behind which it returns. -/
def unixSocketConnect (kernel : Kernel) (thread id target : Nat) : Except Fault (Outcome × Kernel) := do
  let socket ← kernel.socket target
  if socket.listenQueueSize = socket.listenQueueCapacity then return (.connRefused, kernel)
  let kernel ← kernel.modify target fun socket =>
    { socket with listenQueue := socket.listenQueue ++ [id] }
  let kernel := kernel.invoke (target, .listenerArrived)
  let (sleeps, kernel) := kernel.await (target, .listenerAccepted) thread (.connect id target)
  return (if sleeps then .sleeps else .done, kernel)

/-- `unix_socket_accept` from its loop on. With interrupts off nothing changes between two
rounds, and the second finds no signal. -/
def acceptLoop (thread id : Nat) : Nat → Kernel → Except Fault (Outcome × Kernel)
  | 0, _ => .error .nontermination
  | fuel + 1, kernel => do
      let socket ← kernel.socket id
      match socket.listenQueue with
      | [] =>
          let (sleeps, kernel) := kernel.await (id, .listenerArrived) thread (.accept id)
          if sleeps then return (.sleeps, kernel) else acceptLoop thread id fuel kernel
      | requester :: rest =>
          let kernel ← kernel.modify id fun socket => { socket with listenQueue := rest }
          let (created, kernel) := unixSocketInit kernel
          let kernel ← kernel.modify created fun socket =>
            { socket with pairedSocket := some requester }
          let kernel ← kernel.modify requester fun socket =>
            { socket with pairedSocket := some created }
          return (.made created, kernel.invoke (id, .listenerAccepted))

/-- `unix_socket_accept`. -/
def unixSocketAccept (kernel : Kernel) (thread id : Nat) : Except Fault (Outcome × Kernel) := do
  let socket ← kernel.socket id
  if socket.listenQueueCapacity = 0 then return (.inval, kernel)
  acceptLoop thread id 2 kernel

/-- The three cases of `unix_socket_read` for the first packet: the bytes, and the packet if
it stays. -/
def Packet.take (packet : Packet) (size : Nat) : List UInt8 × Option Packet :=
  if packet.size - packet.pos > size then
    ((packet.data.drop packet.pos).take size, some { packet with pos := packet.pos + size })
  else if packet.size - packet.pos < size then
    ((packet.data.drop packet.pos).take (packet.size - packet.pos), none)
  else ((packet.data.drop packet.pos).take size, none)

/-- `unix_socket_read` from its loop on. -/
def readLoop (thread id size : Nat) : Nat → Kernel → Except Fault (Outcome × Kernel)
  | 0, _ => .error .nontermination
  | fuel + 1, kernel => do
      let socket ← kernel.socket id
      match socket.incoming with
      | [] =>
          let (sleeps, kernel) := kernel.await (id, .dataReady) thread (.read id size)
          if sleeps then return (.sleeps, kernel) else readLoop thread id size fuel kernel
      | packet :: rest =>
          let (data, stays) := packet.take size
          let kernel ← kernel.modify id fun socket => { socket with incoming := stays.toList ++ rest }
          return (.read data, kernel)

/-- `unix_socket_read`. -/
def unixSocketRead (kernel : Kernel) (thread id size : Nat) : Except Fault (Outcome × Kernel) := do
  let socket ← kernel.socket id
  if socket.pairedSocket = none then return (.noAddr, kernel)
  readLoop thread id size 2 kernel

/-- `unix_socket_write`. -/
def unixSocketWrite (kernel : Kernel) (id : Nat) (data : List UInt8) :
    Except Fault (Outcome × Kernel) := do
  let socket ← kernel.socket id
  match socket.pairedSocket with
  | none => return (.noAddr, kernel)
  | some peer =>
      let kernel ← kernel.modify peer fun socket =>
        { socket with incoming := socket.incoming ++ [⟨0, data.length, data⟩] }
      return (.wrote data.length, kernel.invoke (peer, .dataReady))

/-! ## Steps -/

/-- What may happen next: a new socket, a call by a thread outside calls, and a woken thread
that goes on. -/
inductive Op where
  | init
  | listen (id capacity : Nat)
  | connect (thread id target : Nat)
  | accept (thread id : Nat)
  | read (thread id size : Nat)
  | write (id : Nat) (data : List UInt8)
  | resume (thread : Nat)
deriving DecidableEq, Repr

/-- A woken thread goes on with its call. -/
def Call.goOn (kernel : Kernel) (thread : Nat) : Call → Except Fault (Outcome × Kernel)
  | .connect _ _ => .ok (.done, kernel)
  | .accept id => acceptLoop thread id 2 kernel
  | .read id size => readLoop thread id size 2 kernel

def Op.perform (kernel : Kernel) : Op → Except Fault (Outcome × Kernel)
  | init =>
      let (created, kernel) := unixSocketInit kernel
      .ok (.made created, kernel)
  | listen id capacity => do return (.done, ← unixSocketListen kernel id capacity)
  | connect thread id target => unixSocketConnect kernel thread id target
  | accept thread id => unixSocketAccept kernel thread id
  | read thread id size => unixSocketRead kernel thread id size
  | write id data => unixSocketWrite kernel id data
  | resume thread =>
      match kernel.threads thread with
      | .woken call => call.goOn (kernel.setThread thread .free) thread
      | _ => .ok (.sleeps, kernel)

/-- The thread of a call is not in another, and a thread that goes on was woken. The
requester of a connection is a socket. -/
def Op.Possible (kernel : Kernel) : Op → Prop
  | connect thread id _ => kernel.threads thread = .free ∧ (kernel.sockets id).isSome = true
  | accept thread _ => kernel.threads thread = .free
  | read thread _ _ => kernel.threads thread = .free
  | resume thread => ∃ call, kernel.threads thread = .woken call
  | _ => True

/-- No sockets yet, and no calls. -/
def bootKernel : Kernel := ⟨fun _ => none, fun _ => .empty, 0, fun _ => .free⟩

end PKernel.Sockets

import PKernel.Sockets.Waiting

/-! # Peers and packets

What a turn does to the pairs, and what it does to the packets that a socket has not read.
Only an accept makes a pair, of its requester and a socket made for it.
-/

namespace PKernel.Sockets

open Library Library.Transition
open Function (update update_eq_iff update_eq_self update_of_ne update_self)

namespace Kernel

/-- A field of the socket with this number, or what stands for it where there is none. -/
def field {β : Type} (kernel : Kernel) (read : UnixSocket → β) (absent : β) (id : Nat) : β :=
  ((kernel.sockets id).map read).getD absent

abbrev peer? (kernel : Kernel) : Nat → Option Nat := kernel.field UnixSocket.pairedSocket none

abbrev incoming (kernel : Kernel) : Nat → List Packet := kernel.field UnixSocket.incoming []

abbrev requests (kernel : Kernel) : Nat → List Nat := kernel.field UnixSocket.listenQueue []

end Kernel

/-- What a turn does to the pairs. -/
inductive Pairs (kernel : Kernel) (op : Op) (outcome : Outcome) (next : Kernel) : Prop
  | kept (hpeers : next.peer? = kernel.peer?)
  | made {thread id requester : Nat} {rest : List Nat} (hruns : op.Runs kernel thread (.accept id))
      (hrequests : kernel.requests id = requester :: rest) (hrequester : requester < kernel.next)
      (houtcome : outcome = .made kernel.next)
      (hpeers : next.peer? = update
        (update kernel.peer? requester (some kernel.next)) kernel.next (some requester))

/-- What a turn does to the packets. -/
inductive Moves (kernel : Kernel) (op : Op) (outcome : Outcome) (next : Kernel) : Prop
  | nothing (hread : ∀ data, outcome ≠ .read data) (hwrote : ∀ size, outcome ≠ .wrote size)
      (hincoming : next.incoming = kernel.incoming)
  | take {thread id size : Nat} {packet : Packet} {rest : List Packet}
      (hruns : op.Runs kernel thread (.read id size)) (hpackets : kernel.incoming id = packet :: rest)
      (houtcome : outcome = .read (packet.take size).1)
      (hincoming : next.incoming =
        update kernel.incoming id ((packet.take size).2.toList ++ rest))
  | write {id peer : Nat} {data : List UInt8} (hop : op = .write id data)
      (hpeer : kernel.peer? id = some peer) (houtcome : outcome = .wrote data.length)
      (hincoming : next.incoming =
        update kernel.incoming peer (kernel.incoming peer ++ [⟨0, data.length, data⟩]))

variable {kernel next : Kernel} {socket : UnixSocket} {id thread other : Nat} {event : Event}
  {call : Call} {op : Op} {outcome : Outcome}

section Fields

variable {β : Type} {read : UnixSocket → β} {absent : β}

namespace Kernel

theorem field_eq (hsocket : kernel.sockets id = some socket) :
    kernel.field read absent id = read socket := by
  rw [field, hsocket]
  rfl

theorem field_setSocket (new : UnixSocket) : (kernel.setSocket id new).field read absent =
    update (kernel.field read absent) id (read new) := by
  funext other
  by_cases hsame : other = id
  · rw [hsame, update_self, field_eq (setSocket_self ..)]
  · rw [update_of_ne hsame, field, setSocket_of_ne hsame, field]

/-- A store that leaves the field alone. -/
theorem field_setSocket_kept (hsocket : kernel.sockets id = some socket) {new : UnixSocket}
    (hkept : read new = read socket) :
    (kernel.setSocket id new).field read absent = kernel.field read absent := by
  rw [field_setSocket, hkept, ← @field_eq _ _ _ _ read absent hsocket, update_eq_self]

@[simp]
theorem field_invoke (kernel : Kernel) (event : Event) :
    (kernel.invoke event).field read absent = kernel.field read absent := by
  funext id
  rw [field, invoke_sockets, field]

theorem field_served (requester : Nat) (rest : List Nat) (hother : other ≠ kernel.next) :
    (kernel.served id requester rest).field read absent other =
      ((kernel.sockets other).map fun socket => read { socket with
        listenQueue := if other = id then rest else socket.listenQueue
        pairedSocket := if other = requester then some kernel.next else socket.pairedSocket }).getD
          absent := by
  rw [field, served]
  dsimp only
  rw [if_neg hother, Option.map_map]
  rfl

theorem field_served_next (id requester : Nat) (rest : List Nat) :
    (kernel.served id requester rest).field read absent kernel.next =
      read ⟨0, 0, [], [], some requester⟩ := by
  rw [field, served]
  dsimp only
  rw [if_pos rfl]
  rfl

end Kernel

namespace Wired

/-- There are no sockets past the last. -/
theorem fresh_socket (hwired : Wired kernel) : kernel.sockets kernel.next = none := by
  have hnew := (hwired.exist kernel.next).not.mpr (Nat.lt_irrefl _)
  simpa using hnew

theorem field_next (hwired : Wired kernel) : kernel.field read absent kernel.next = absent := by
  rw [Kernel.field, hwired.fresh_socket]
  rfl

theorem field_init (hwired : Wired kernel) (hfresh : read ⟨0, 0, [], [], none⟩ = absent) :
    (unixSocketInit kernel).2.field read absent = kernel.field read absent := by
  refine (Kernel.field_setSocket ⟨0, 0, [], [], none⟩).trans ?_
  exact update_eq_iff.mpr ⟨hfresh.trans hwired.field_next.symm, fun _ _ => rfl⟩

theorem lt_of_peer? {peer : Nat} (hwired : Wired kernel) (hpeer : kernel.peer? id = some peer) :
    id < kernel.next := by
  by_contra hlt
  have hnone : kernel.sockets id = none := by
    have hnew := (hwired.exist id).not.mpr hlt
    simpa using hnew
  simp [Kernel.peer?, Kernel.field, hnone] at hpeer

end Wired

end Fields

/-! ## Turns -/

theorem peer?_served (kernel : Kernel) (id : Nat) {requester : Nat} (rest : List Nat)
    (hrequester : (kernel.sockets requester).isSome = true) :
    (kernel.served id requester rest).peer? = update
      (update kernel.peer? requester (some kernel.next)) kernel.next (some requester) := by
  funext other
  by_cases hnew : other = kernel.next
  · rw [hnew, update_self, Kernel.peer?, Kernel.field_served_next]
  · rw [update_of_ne hnew, Kernel.peer?, Kernel.field_served _ _ hnew]
    by_cases hsame : other = requester
    · obtain ⟨socket, hsocket⟩ := Option.isSome_iff_exists.mp hrequester
      simp [hsame, hsocket]
    · simp [hsame, Kernel.field]

theorem incoming_served (hwired : Wired kernel) (id requester : Nat) (rest : List Nat) :
    (kernel.served id requester rest).incoming = kernel.incoming := by
  funext other
  by_cases hnew : other = kernel.next
  · rw [hnew]
    exact (Kernel.field_served_next ..).trans hwired.field_next.symm
  · exact Kernel.field_served requester rest hnew

/-- Only an accept makes a pair. -/
theorem Turn.pairs (hwired : Wired kernel) (hturn : Turn kernel op outcome next) :
    Pairs kernel op outcome next := by
  cases hturn with
  | init => exact .kept (hwired.field_init rfl)
  | listen hsocket => exact .kept (Kernel.field_setSocket_kept hsocket rfl)
  | refused | inval | unpaired | unheard | sleeps | returns => exact .kept rfl
  | requests _ _ hsocket _ hqueued | connects _ hsocket _ hqueued =>
      rw [hqueued]
      exact .kept ((Kernel.field_invoke ..).trans (Kernel.field_setSocket_kept hsocket rfl))
  | @accepts _ thread id requester rest socket hruns hsocket hqueue =>
      have hrequester := hwired.requesters id socket hsocket requester (by simp [hqueue])
      refine .made hruns ((Kernel.field_eq hsocket).trans hqueue) hrequester rfl ?_
      exact (Kernel.field_invoke ..).trans (peer?_served _ id rest ((hwired.exist _).mpr hrequester))
  | takes _ hsocket => exact .kept (Kernel.field_setSocket_kept hsocket rfl)
  | writes _ _ hpeer =>
      exact .kept ((Kernel.field_invoke ..).trans (Kernel.field_setSocket_kept hpeer rfl))

theorem Turn.moves (hwired : Wired kernel) (hturn : Turn kernel op outcome next) :
    Moves kernel op outcome next := by
  cases hturn with
  | init => exact .nothing nofun nofun (hwired.field_init rfl)
  | listen hsocket => exact .nothing nofun nofun (Kernel.field_setSocket_kept hsocket rfl)
  | refused | inval | unpaired | unheard | sleeps | returns => exact .nothing nofun nofun rfl
  | requests _ _ hsocket _ hqueued | connects _ hsocket _ hqueued =>
      rw [hqueued]
      exact .nothing nofun nofun
        ((Kernel.field_invoke ..).trans (Kernel.field_setSocket_kept hsocket rfl))
  | accepts hruns =>
      exact .nothing nofun nofun ((Kernel.field_invoke ..).trans
        (incoming_served (hwired.free fun _ => hruns.not_waits) ..))
  | takes hruns hsocket hincoming =>
      exact .take hruns ((Kernel.field_eq hsocket).trans hincoming) rfl (Kernel.field_setSocket _)
  | writes hsocket hpaired hpeer =>
      refine .write rfl ((Kernel.field_eq hsocket).trans hpaired) rfl ?_
      rw [Kernel.incoming, Kernel.field_invoke, Kernel.field_setSocket, Kernel.incoming,
        Kernel.field_eq hpeer]

end PKernel.Sockets

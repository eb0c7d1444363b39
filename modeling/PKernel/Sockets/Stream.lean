import PKernel.Sockets.Peers

/-! # The byte stream between two sockets

Two sockets that one accept pairs are two streams, one in each direction. What was written
to a stream is what was read from it and then what its packets still hold.
-/

namespace PKernel.Sockets

open Library Library.Transition
open Function (update update_apply update_of_ne update_self)

/-- The bytes that the packets of a socket still hold. -/
def unread (packets : List Packet) : List UInt8 :=
  packets.flatMap fun packet => packet.data.drop packet.pos

/-- The socket and the size of a read that a step starts or goes on with. -/
def Op.reads? (kernel : Kernel) : Op → Option (Nat × Nat)
  | .read _ id size => some (id, size)
  | .resume thread =>
      match kernel.threads thread with
      | .woken (.read id size) => some (id, size)
      | _ => none
  | _ => none

/-- Reads and writes are of one byte at least. -/
def Op.Sized : Op → Prop
  | .read _ _ size => 1 ≤ size
  | .write _ data => data ≠ []
  | _ => True

/-- The kernel, with the bytes that were written by calls on a socket and those that calls on
it returned. -/
structure Traffic where
  kernel : Kernel
  written : Nat → List UInt8
  received : Nat → List UInt8

/-- What a step adds to the bytes written and received. -/
def Traffic.after (traffic : Traffic) (op : Op) (outcome : Outcome) (next : Kernel) : Traffic where
  kernel := next
  written :=
    match op, outcome with
    | .write id data, .wrote _ =>
        update traffic.written id (traffic.written id ++ data)
    | _, _ => traffic.written
  received :=
    match op.reads? traffic.kernel, outcome with
    | some (id, _), .read data =>
        update traffic.received id (traffic.received id ++ data)
    | _, _ => traffic.received

/-- Two sockets are each the peer of the other. -/
def Kernel.Paired (kernel : Kernel) (a b : Nat) : Prop :=
  kernel.peer? a = some b ∧ kernel.peer? b = some a

theorem Kernel.Paired.symm {kernel : Kernel} {a b : Nat} (hpaired : kernel.Paired a b) :
    kernel.Paired b a := And.symm hpaired

/-- The last step of a run was an accept that made `b` for the request of `a`, which had no
peer. -/
def Joins (a b : Nat) (kernel : Kernel) : Prop :=
  ∃ (before : Kernel) (op : Op), system.Reachable before ∧ op.Possible before ∧
    op.perform before = .ok (.made b, kernel) ∧ before.peer? a = none ∧ kernel.Paired a b

/-- What happens after two sockets were paired, as long as they stay so: any calls of any
threads, of one byte at least. -/
def stream (a b : Nat) : System Traffic Op where
  init traffic := ∃ kernel, Joins a b kernel ∧ traffic = ⟨kernel, fun _ => [], fun _ => []⟩
  step traffic op next := op.Possible traffic.kernel ∧ op.Sized ∧
    ∃ outcome kernel, op.perform traffic.kernel = .ok (outcome, kernel) ∧ kernel.Paired a b ∧
      next = traffic.after op outcome kernel

/-- One direction of a stream. -/
structure Delivers (a b writer reader : Nat) (traffic : Traffic) : Prop where
  in_order : traffic.received reader <+: traffic.written writer
  complete : traffic.received reader ++ unread (traffic.kernel.incoming reader) = traffic.written writer
  /-- A read that does not sleep returns between one byte and as many as it asks for. -/
  returns : ∀ (op : Op) outcome kernel size, op.Possible traffic.kernel → op.Sized →
    op.perform traffic.kernel = .ok (outcome, kernel) →
    op.reads? traffic.kernel = some (reader, size) →
      outcome = .sleeps ∨ ∃ data, outcome = .read data ∧ 1 ≤ data.length ∧ data.length ≤ size
  /-- What is no write and no read of this direction leaves it alone. -/
  independent : ∀ op next, (stream a b).step traffic op next → (∀ data, op ≠ .write writer data) →
    (∀ size, op.reads? traffic.kernel ≠ some (reader, size)) →
      next.kernel.incoming reader = traffic.kernel.incoming reader ∧
        next.written writer = traffic.written writer ∧
          next.received reader = traffic.received reader

/-- A packet with bytes to read. -/
structure Packet.Unread (packet : Packet) : Prop where
  size : packet.size = packet.data.length
  pos : packet.pos < packet.size

/-- What holds of one direction in every state. -/
structure Flow (writer reader : Nat) (traffic : Traffic) : Prop where
  paired : traffic.kernel.Paired writer reader
  only : ∀ id, traffic.kernel.peer? id = some reader → id = writer
  bytes : traffic.received reader ++ unread (traffic.kernel.incoming reader) = traffic.written writer
  packets : ∀ packet ∈ traffic.kernel.incoming reader, packet.Unread
  readers : ∀ thread size, traffic.kernel.Calls thread (.read reader size) → 1 ≤ size

variable {kernel next : Kernel} {id thread : Nat} {op : Op} {outcome : Outcome} {traffic : Traffic}
  {a b writer reader size : Nat} {packet : Packet}

/-! ## Packets -/

/-- A read takes the first bytes that a packet still holds and leaves the others. -/
theorem Packet.take_spec (hunread : packet.Unread) (hsize : 1 ≤ size) :
    (packet.take size).1 ++ unread (packet.take size).2.toList = packet.data.drop packet.pos ∧
      1 ≤ (packet.take size).1.length ∧ (packet.take size).1.length ≤ size ∧
        ∀ rest ∈ (packet.take size).2, rest.Unread := by
  obtain ⟨hlength, hpos⟩ := hunread
  unfold Packet.take
  split
  next hpart =>
    refine ⟨?_, ?_, ?_, ?_⟩
    · simp [unread, List.take_append_drop, ← List.drop_drop]
    · simp
      omega
    · exact List.length_take_le ..
    · rintro rest ⟨rfl⟩
      exact ⟨hlength, by dsimp only; omega⟩
  next hwhole =>
    have hdrop : (packet.data.drop packet.pos).length = packet.size - packet.pos := by
      rw [List.length_drop, hlength]
    split
    next hless =>
      rw [List.take_of_length_le (Nat.le_of_eq hdrop)]
      exact ⟨by simp [unread], by dsimp only; omega, by dsimp only; omega, nofun⟩
    next hsame =>
      rw [List.take_of_length_le (by omega)]
      exact ⟨by simp [unread], by dsimp only; omega, by dsimp only; omega, nofun⟩

theorem unread_append (first second : List Packet) :
    unread (first ++ second) = unread first ++ unread second :=
  List.flatMap_append

theorem unread_cons (packet : Packet) (rest : List Packet) :
    unread (packet :: rest) = packet.data.drop packet.pos ++ unread rest := rfl

/-! ## Before the pairing -/

/-- A socket without a peer has no packets, no readers and is nobody's peer. -/
structure Linked (kernel : Kernel) : Prop where
  packets : ∀ id, kernel.peer? id = none → kernel.incoming id = []
  readers : ∀ thread id size, kernel.Calls thread (.read id size) → kernel.peer? id ≠ none
  peers : ∀ id peer, kernel.peer? id = some peer → kernel.peer? peer ≠ none

theorem Linked.boot : Linked bootKernel where
  packets id _ := rfl
  readers thread id size hcalls := by simp [Kernel.Calls, bootKernel] at hcalls
  peers id peer hpeer := nomatch hpeer

/-- A peer is never taken away. -/
theorem Pairs.peer_ne_none (hpairs : Pairs kernel op outcome next) (hpeer : kernel.peer? id ≠ none) :
    next.peer? id ≠ none := by
  cases hpairs with
  | kept hpeers => rwa [hpeers]
  | made _ _ _ _ hpeers =>
      rw [hpeers, update_apply, update_apply]
      split
      next => nofun
      next =>
        split
        next => nofun
        next => exact hpeer

theorem Linked.runs (hlinked : Linked kernel) (hruns : op.Runs kernel thread (.read id size)) :
    kernel.peer? id ≠ none := by
  cases hruns with
  | read _ hsocket hpaired => rwa [Kernel.peer?, Kernel.field_eq hsocket]
  | resume hwoken => exact hlinked.readers thread id size (.inr hwoken)

theorem Turn.linked (hwired : Wired kernel) (hlinked : Linked kernel)
    (hturn : Turn kernel op outcome next) : Linked next := by
  have hpairs := hturn.pairs hwired
  constructor
  case packets =>
    intro id hnone
    have hnone : kernel.peer? id = none := by
      by_contra hpeer
      exact hpairs.peer_ne_none hpeer hnone
    have hempty := hlinked.packets id hnone
    cases hturn.moves hwired with
    | nothing _ _ hincoming => rwa [hincoming]
    | take _ hpackets _ hincoming =>
        rw [hincoming, update_of_ne, hempty]
        rintro rfl
        simp [hempty] at hpackets
    | write _ hpeer _ hincoming =>
        rw [hincoming, update_of_ne, hempty]
        rintro rfl
        exact hlinked.peers _ _ hpeer hnone
  case readers =>
    intro thread id size hcalls
    apply hpairs.peer_ne_none
    rcases hturn.calls hcalls with hcalls | hruns | ⟨_, _, _, hcall⟩
    · exact hlinked.readers thread id size hcalls
    · exact hlinked.runs hruns
    · exact nomatch hcall
  case peers =>
    intro id peer hpeer
    have hmono : kernel.peer? peer ≠ none → next.peer? peer ≠ none := hpairs.peer_ne_none
    cases hpairs with
    | kept hpeers =>
        rw [hpeers] at hpeer
        exact hmono (hlinked.peers id peer hpeer)
    | @made _ _ requester _ _ _ _ _ hpeers =>
        rw [hpeers, update_apply, update_apply] at hpeer
        split at hpeer
        next =>
          rw [hpeers, ← Option.some.inj hpeer, update_apply, update_self]
          split <;> nofun
        next =>
          split at hpeer
          next =>
            rw [hpeers, ← Option.some.inj hpeer, update_self]
            nofun
          next => exact hmono (hlinked.peers id peer hpeer)

theorem linked_inductive : system.Inductive fun kernel => Wired kernel ∧ Linked kernel where
  init kernel hinit := hinit ▸ ⟨.boot, .boot⟩
  step kernel op next hinvariant hstep := by
    obtain ⟨hwired, hlinked⟩ := hinvariant
    obtain ⟨hpossible, outcome, hperform⟩ := hstep
    have hturn := Op.turn hwired hpossible hperform
    exact ⟨hturn.wired hwired, hturn.linked hwired hlinked⟩

/-- A direction whose reader had no peer before starts empty. -/
theorem Turn.flow_start {before : Kernel} (hwired : Wired before) (hlinked : Linked before)
    (hturn : Turn before op (.made b) kernel) (hnone : before.peer? reader = none)
    (hpaired : kernel.Paired writer reader) (honly : ∀ id, kernel.peer? id = some reader → id = writer) :
    Flow writer reader ⟨kernel, fun _ => [], fun _ => []⟩ := by
  have hempty : kernel.incoming reader = [] := by
    cases hturn.moves hwired with
    | nothing _ _ hincoming => rw [hincoming, hlinked.packets reader hnone]
    | take _ _ houtcome => exact nomatch houtcome
    | write _ _ houtcome => exact nomatch houtcome
  refine ⟨hpaired, honly, by simp [hempty, unread], by simp [hempty], fun thread size hcalls => ?_⟩
  rcases hturn.calls hcalls with hcalls | hruns | ⟨_, _, _, hcall⟩
  · exact absurd hnone (hlinked.readers thread reader size hcalls)
  · exact absurd hnone (hlinked.runs hruns)
  · exact nomatch hcall

/-- The accept found no packets, no readers and no other peers of the two sockets. -/
theorem Joins.flows (hjoins : Joins a b kernel) : Wired kernel ∧
    Flow a b ⟨kernel, fun _ => [], fun _ => []⟩ ∧ Flow b a ⟨kernel, fun _ => [], fun _ => []⟩ := by
  obtain ⟨before, op, hreach, hpossible, hperform, hnone, hab, hba⟩ := hjoins
  obtain ⟨hwired, hlinked⟩ := hreach.invariant linked_inductive
  have hturn := Op.turn hwired hpossible hperform
  cases hturn.pairs hwired with
  | kept hpeers => simp [hpeers, hnone] at hab
  | @made _ _ requester _ _ _ hlt houtcome hpeers =>
      obtain rfl := Outcome.made.inj houtcome
      obtain rfl : requester = a := by
        rw [hpeers, update_self] at hba
        exact Option.some.inj hba
      have hne := Nat.ne_of_lt hlt
      have honly (reader : Nat) (hreader : before.peer? reader = none) (id : Nat)
          (hid : id ≠ requester) (hnew : id ≠ before.next) : kernel.peer? id ≠ some reader := by
        rw [hpeers, update_of_ne hnew, update_of_ne hid]
        exact fun hpeer => hlinked.peers id reader hpeer hreader
      have hnext : before.peer? before.next = none := hwired.field_next
      refine ⟨hturn.wired hwired, hturn.flow_start hwired hlinked hnext ⟨hab, hba⟩ fun id hpeer => ?_,
        hturn.flow_start hwired hlinked hnone ⟨hba, hab⟩ fun id hpeer => ?_⟩
      · by_contra hid
        refine honly _ hnext id hid (fun hnew => hne ?_) hpeer
        rw [hnew, hba] at hpeer
        exact Option.some.inj hpeer
      · by_contra hnew
        refine honly _ hnone id (fun hid => hne ?_) hnew hpeer
        rw [hid, hab] at hpeer
        exact (Option.some.inj hpeer).symm

/-! ## Steps of a stream -/

theorem Op.Runs.reads? (hruns : op.Runs kernel thread (.read id size)) :
    op.reads? kernel = some (id, size) := by
  cases hruns with
  | read => rfl
  | resume hwoken => rw [Op.reads?, hwoken]

/-- What is added to the bytes of one direction. -/
theorem Traffic.after_take (hruns : op.Runs traffic.kernel thread (.read id size)) (data : List UInt8) :
    traffic.after op (.read data) next = ⟨next, traffic.written,
      update traffic.received id (traffic.received id ++ data)⟩ := by
  unfold Traffic.after
  rw [hruns.reads?]
  cases op <;> rfl

theorem Traffic.after_write (id : Nat) (data : List UInt8) :
    traffic.after (.write id data) (.wrote data.length) next = ⟨next,
      update traffic.written id (traffic.written id ++ data), traffic.received⟩ := rfl

theorem Traffic.after_nothing (hread : ∀ data, outcome ≠ .read data)
    (hwrote : ∀ size, outcome ≠ .wrote size) :
    traffic.after op outcome next = ⟨next, traffic.written, traffic.received⟩ := by
  have hwritten : (traffic.after op outcome next).written = traffic.written := by
    unfold Traffic.after
    dsimp only
    split
    next => exact absurd rfl (hwrote _)
    next => rfl
  have hreceived : (traffic.after op outcome next).received = traffic.received := by
    unfold Traffic.after
    dsimp only
    split
    next => exact absurd rfl (hread _)
    next => rfl
  rw [← hwritten, ← hreceived]
  rfl

/-- A read of at least a byte, as every one that was started. -/
theorem Flow.reads_sized (hflow : Flow writer reader traffic)
    (hruns : op.Runs traffic.kernel thread (.read reader size)) (hsized : op.Sized) : 1 ≤ size := by
  cases hruns with
  | read => exact hsized
  | resume hwoken => exact hflow.readers thread size (.inr hwoken)

/-- What a step does to the bytes and the packets of one direction. -/
theorem Flow.contents (hwired : Wired traffic.kernel) (hflow : Flow writer reader traffic)
    (hturn : Turn traffic.kernel op outcome next) (hsized : op.Sized) :
    (traffic.after op outcome next).received reader ++ unread (next.incoming reader) =
        (traffic.after op outcome next).written writer ∧
      ∀ packet ∈ next.incoming reader, packet.Unread := by
  cases hturn.moves hwired with
  | nothing hread hwrote hincoming =>
      rw [Traffic.after_nothing hread hwrote, hincoming]
      exact ⟨hflow.bytes, hflow.packets⟩
  | @take thread id size packet rest hruns hpackets houtcome hincoming =>
      rw [houtcome, Traffic.after_take hruns, hincoming]
      dsimp only
      by_cases hsame : reader = id
      · subst hsame
        have hunread := hflow.packets packet (by simp [hpackets])
        obtain ⟨hdata, -, -, hrest⟩ := packet.take_spec hunread (hflow.reads_sized hruns hsized)
        rw [update_self, update_self]
        constructor
        · rw [← hflow.bytes, hpackets, unread_cons, ← hdata, unread_append]
          simp only [List.append_assoc]
        · intro other hother
          rcases List.mem_append.mp hother with hother | hother
          · exact hrest other (Option.mem_toList.mp hother)
          · exact hflow.packets other (by simp [hpackets, hother])
      · rw [update_of_ne hsame, update_of_ne hsame]
        exact ⟨hflow.bytes, hflow.packets⟩
  | @write id peer data hop hpeer houtcome hincoming =>
      rw [hop, houtcome, Traffic.after_write, hincoming]
      dsimp only
      by_cases hsame : writer = id
      · subst hsame
        obtain rfl : peer = reader := Option.some.inj (hpeer.symm.trans hflow.paired.1)
        rw [update_self, update_self, unread_append, ← List.append_assoc, hflow.bytes]
        refine ⟨by simp [unread], fun packet hpacket => ?_⟩
        rcases List.mem_append.mp hpacket with hold | hnew
        · exact hflow.packets packet hold
        · rw [List.mem_singleton.mp hnew]
          rw [hop] at hsized
          exact ⟨rfl, List.length_pos_of_ne_nil hsized⟩
      · have hother : reader ≠ peer := by
          rintro rfl
          exact hsame (hflow.only id hpeer).symm
        rw [update_of_ne hsame, update_of_ne hother]
        exact ⟨hflow.bytes, hflow.packets⟩

/-- A step that leaves the two sockets paired keeps what holds of a direction. -/
theorem Flow.turn (hwired : Wired traffic.kernel) (hflow : Flow writer reader traffic)
    (hturn : Turn traffic.kernel op outcome next) (hsized : op.Sized)
    (hpaired : next.Paired writer reader) : Flow writer reader (traffic.after op outcome next) := by
  obtain ⟨hbytes, hpackets⟩ := hflow.contents hwired hturn hsized
  refine ⟨hpaired, fun id hpeer => ?_, hbytes, hpackets, fun thread size hcalls => ?_⟩
  · change next.peer? id = some reader at hpeer
    cases hturn.pairs hwired with
    | kept hpeers => exact hflow.only id (hpeers ▸ hpeer)
    | @made _ _ requester _ _ _ hlt _ hpeers =>
        have hwriter := hwired.lt_of_peer? hflow.paired.1
        have hreader := hwired.lt_of_peer? hflow.paired.2
        rw [hpeers, update_apply, update_apply] at hpeer
        split at hpeer
        next =>
          -- the new socket is not the writer, but the peer of the reader
          have hback := hpaired.2
          rw [hpeers, ← Option.some.inj hpeer, update_of_ne (Nat.ne_of_lt hlt),
            update_self] at hback
          exact absurd (Option.some.inj hback) (Nat.ne_of_gt hwriter)
        next =>
          split at hpeer
          next => exact absurd (Option.some.inj hpeer) (Nat.ne_of_gt hreader)
          next => exact hflow.only id hpeer
  · rcases hturn.calls hcalls with hcalls | hruns | ⟨_, _, _, hcall⟩
    · exact hflow.readers thread size hcalls
    · exact hflow.reads_sized hruns hsized
    · exact nomatch hcall

theorem stream_inductive (a b : Nat) : (stream a b).Inductive fun traffic =>
    Wired traffic.kernel ∧ Flow a b traffic ∧ Flow b a traffic where
  init traffic hinit := by
    obtain ⟨kernel, hjoins, rfl⟩ := hinit
    exact hjoins.flows
  step traffic op next hinvariant hstep := by
    obtain ⟨hwired, hab, hba⟩ := hinvariant
    obtain ⟨hpossible, hsized, outcome, kernel, hperform, hpaired, rfl⟩ := hstep
    have hturn := Op.turn hwired hpossible hperform
    exact ⟨hturn.wired hwired, hab.turn hwired hturn hsized hpaired,
      hba.turn hwired hturn hsized hpaired.symm⟩

theorem Op.Runs.reads?_eq_none (hruns : op.Runs kernel thread (.accept id)) :
    op.reads? kernel = none := by
  cases hruns with
  | accept => rfl
  | resume hwoken => rw [Op.reads?, hwoken]

theorem Flow.returns (hflow : Flow writer reader traffic)
    (hturn : Turn traffic.kernel op outcome next) (hsized : op.Sized)
    (hreads : op.reads? traffic.kernel = some (reader, size)) :
    outcome = .sleeps ∨ ∃ data, outcome = .read data ∧ 1 ≤ data.length ∧ data.length ≤ size := by
  cases hturn with
  | sleeps => exact .inl rfl
  | takes hruns hsocket hincoming =>
      cases hruns.reads?.symm.trans hreads
      have hpackets : traffic.kernel.incoming _ = _ := (Kernel.field_eq hsocket).trans hincoming
      have hunread := hflow.packets _ (hpackets ▸ List.mem_cons_self)
      obtain ⟨-, hpos, hle, -⟩ := Packet.take_spec hunread (hflow.reads_sized hruns hsized)
      exact .inr ⟨_, rfl, hpos, hle⟩
  | unpaired hsocket hnone =>
      cases hreads
      have hpeer := hflow.paired.2
      rw [Kernel.peer?, Kernel.field_eq hsocket, hnone] at hpeer
      cases hpeer
  | accepts hruns => cases hruns.reads?_eq_none.symm.trans hreads
  | returns hwoken => simp [Op.reads?, hwoken] at hreads
  | init | listen | refused | requests | connects | inval | unheard | writes => cases hreads

theorem Flow.independent (hwired : Wired traffic.kernel) (hflow : Flow writer reader traffic)
    (hturn : Turn traffic.kernel op outcome next) (hwrite : ∀ data, op ≠ .write writer data)
    (hread : ∀ size, op.reads? traffic.kernel ≠ some (reader, size)) :
    next.incoming reader = traffic.kernel.incoming reader ∧
      (traffic.after op outcome next).written writer = traffic.written writer ∧
        (traffic.after op outcome next).received reader = traffic.received reader := by
  cases hturn.moves hwired with
  | nothing hread hwrote hincoming =>
      rw [Traffic.after_nothing hread hwrote, hincoming]
      exact ⟨rfl, rfl, rfl⟩
  | @take thread id size packet rest hruns hpackets houtcome hincoming =>
      have hother : reader ≠ id := fun hsame => hread size (hsame ▸ hruns.reads?)
      rw [houtcome, Traffic.after_take hruns, hincoming]
      exact ⟨update_of_ne hother .., rfl, update_of_ne hother ..⟩
  | @write id peer data hop hpeer houtcome hincoming =>
      have hother : writer ≠ id := fun hsame => hwrite data (hsame ▸ hop)
      have hpeers : reader ≠ peer := by
        rintro rfl
        exact hother (hflow.only id hpeer).symm
      rw [hop, houtcome, Traffic.after_write, hincoming]
      exact ⟨update_of_ne hpeers .., update_of_ne hother .., rfl⟩

theorem Flow.delivers (hwired : Wired traffic.kernel) (hflow : Flow writer reader traffic) :
    Delivers a b writer reader traffic where
  in_order := ⟨_, hflow.bytes⟩
  complete := hflow.bytes
  returns op outcome kernel size hpossible hsized hperform hreads :=
    hflow.returns (Op.turn hwired hpossible hperform) hsized hreads
  independent op next hstep hwrite hread := by
    obtain ⟨hpossible, hsized, outcome, kernel, hperform, hpaired, rfl⟩ := hstep
    exact hflow.independent hwired (Op.turn hwired hpossible hperform) hwrite hread

/-- However calls on two sockets that one accept paired are interleaved, both directions
deliver what is written to them, in order and once. -/
theorem streams_deliver {traffic : Traffic} (hreach : (stream a b).Reachable traffic) :
    Delivers a b a b traffic ∧ Delivers a b b a traffic := by
  obtain ⟨hwired, hab, hba⟩ := hreach.invariant (stream_inductive a b)
  exact ⟨hab.delivers hwired, hba.delivers hwired⟩

theorem stream_perform {a b : Nat} (hreach : (stream a b).Reachable traffic) (op : Op)
    (hpossible : op.Possible traffic.kernel) (hsized : op.Sized)
    (hperform : op.perform traffic.kernel = .ok (outcome, next)) (hpaired : next.Paired a b) :
    (stream a b).Reachable (traffic.after op outcome next) :=
  hreach.step ⟨hpossible, hsized, outcome, next, hperform, hpaired, rfl⟩

/-- Three bytes are written on one side, and two of them are read on the other. -/
theorem streams_deliver_after_read : ∃ traffic : Traffic, traffic.written 2 = [7, 8, 9] ∧
    traffic.received 1 = [7, 8] ∧ Delivers 1 2 1 2 traffic ∧ Delivers 1 2 2 1 traffic := by
  have hserver := reachable_perform (.init rfl) .init trivial rfl
  have hclient := reachable_perform hserver .init trivial rfl
  have hlistens := reachable_perform hclient (.listen 0 1) trivial rfl
  have hconnects := reachable_perform hlistens (.connect 10 1 0) ⟨rfl, rfl⟩ rfl
  have hjoins : Joins 1 2 _ := ⟨_, .accept 11 0, hconnects, rfl, rfl, rfl, rfl, rfl⟩
  have hstart : (stream 1 2).Reachable _ := .init ⟨_, hjoins, rfl⟩
  have hwrites := stream_perform hstart (.write 2 [7, 8, 9]) trivial nofun rfl ⟨rfl, rfl⟩
  have hreads := stream_perform hwrites (.read 12 1 2) rfl (Nat.le_succ 1) rfl ⟨rfl, rfl⟩
  exact ⟨_, rfl, rfl, streams_deliver hreads⟩

end PKernel.Sockets

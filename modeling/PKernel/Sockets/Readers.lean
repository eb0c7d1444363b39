import PKernel.Sockets.Waiting

/-! # Readers that sleep on data

A write wakes one reader for its packet. A woken reader that takes the whole packet leaves
nothing to those asleep; one that takes only a part goes away while the rest of the packet
waits, and with it possibly another reader.
-/

namespace PKernel.Sockets

open Library Library.Transition

namespace Kernel

/-- A reader of the socket was woken and has not gone on. -/
def Reading (kernel : Kernel) (id thread : Nat) : Prop :=
  ∃ size, kernel.threads thread = .woken (.read id size)

/-- Some readers of a socket that were woken. -/
structure Readers (kernel : Kernel) (id : Nat) (readers : List Nat) : Prop where
  nodup : readers.Nodup
  reading : ∀ thread ∈ readers, kernel.Reading id thread

/-- The readers that sleep. -/
def sleepers (kernel : Kernel) (id : Nat) : List Nat := (kernel.events (id, .dataReady)).waiters

end Kernel

/-- No reader sleeps while there is data and nobody awake to read it. -/
def Unstranded (kernel : Kernel) : Prop :=
  ∀ id socket, kernel.sockets id = some socket → socket.incoming ≠ [] →
    (∀ thread, ¬kernel.Reading id thread) → kernel.sleepers id = []

/-- A reader that goes on takes only a part of its packet when no other reader sleeps, or when
there are enough others awake for all the packets. -/
def Considerate (kernel : Kernel) (op : Op) : Prop :=
  ∀ thread id size socket packet rest, op = .resume thread →
    kernel.threads thread = .woken (.read id size) → kernel.sockets id = some socket →
    socket.incoming = packet :: rest → size < packet.size - packet.pos →
    kernel.sleepers id = [] ∨ ∃ others, kernel.Readers id others ∧ thread ∉ others ∧
      socket.incoming.length ≤ others.length

/-- While readers of a socket sleep, each of its packets has a reader awake. -/
def Attended (kernel : Kernel) (id : Nat) : Prop :=
  ∀ socket, kernel.sockets id = some socket → kernel.sleepers id ≠ [] →
    ∃ readers, kernel.Readers id readers ∧ socket.incoming.length ≤ readers.length

variable {kernel next : Kernel} {socket : UnixSocket} {id thread other : Nat} {event : Event}
  {call : Call} {op : Op} {outcome : Outcome}

theorem unstranded_of_attended (hattended : ∀ id, Attended kernel id) : Unstranded kernel := by
  intro id socket hsocket hdata hnone
  by_contra hsleepers
  obtain ⟨readers, hreaders, hlength⟩ := hattended id socket hsocket hsleepers
  cases readers with
  | nil => exact hdata (List.length_eq_zero_iff.mp (Nat.le_zero.mp hlength))
  | cons reader rest => exact hnone reader (hreaders.reading reader (by simp))

/-! ## What a turn does to the readers -/

theorem Op.Runs.reading (hruns : op.Runs kernel thread call) (hreading : kernel.Reading id thread) :
    op = .resume thread ∧ ∃ size, call = .read id size := by
  obtain ⟨size, hreading⟩ := hreading
  cases hruns with
  | accept hfree => simp [hfree] at hreading
  | read hfree => simp [hfree] at hreading
  | resume hwoken => exact ⟨rfl, size, Activity.woken.inj (hwoken.symm.trans hreading)⟩

namespace Kernel

/-- A thread that is awake stays so when another is woken. -/
theorem Reading.invoke (hreading : kernel.Reading id thread) (event : Event) :
    (kernel.invoke event).Reading id thread := by
  obtain ⟨size, hthread⟩ := hreading
  exact ⟨size, (invoke_threads_awake (by simp [hthread])).trans hthread⟩

theorem Reading.setSocket (hreading : kernel.Reading id thread) (other : Nat) (new : UnixSocket) :
    (kernel.setSocket other new).Reading id thread := hreading

theorem Reading.of_ne (hreading : kernel.Reading id other) (hne : other ≠ thread)
    (hsame : ∀ other, other ≠ thread → next.threads other = kernel.threads other) :
    next.Reading id other :=
  hreading.imp fun _ hthread => (hsame other hne).trans hthread

theorem Readers.mono {readers : List Nat} (hreaders : kernel.Readers id readers)
    (hkept : ∀ thread ∈ readers, kernel.Reading id thread → next.Reading id thread) :
    next.Readers id readers :=
  ⟨hreaders.nodup, fun thread hmem => hkept thread hmem (hreaders.reading thread hmem)⟩

end Kernel

/-- No more packets, no new sleepers, and no reader went away. -/
theorem Attended.keep (hattended : Attended kernel id)
    (hsocket : ∀ socket, next.sockets id = some socket →
      ∃ old, kernel.sockets id = some old ∧ socket.incoming.length ≤ old.incoming.length)
    (hsleepers : next.sleepers id ≠ [] → kernel.sleepers id ≠ [])
    (hreading : ∀ thread, kernel.Reading id thread → next.Reading id thread) : Attended next id := by
  intro socket hnext hasleep
  obtain ⟨old, hold, hle⟩ := hsocket socket hnext
  obtain ⟨readers, hreaders, hlength⟩ := hattended old hold (hsleepers hasleep)
  exact ⟨readers, hreaders.mono fun thread _ => hreading thread, Nat.le_trans hle hlength⟩

theorem Attended.of_empty (hempty : ∀ socket, next.sockets id = some socket → socket.incoming = []) :
    Attended next id := by
  intro socket hsocket _
  exact ⟨[], ⟨List.nodup_nil, by simp⟩, by simp [hempty socket hsocket]⟩

theorem Attended.invoke (hattended : Attended kernel id) (hevent : event ≠ (id, .dataReady)) :
    Attended (kernel.invoke event) id := by
  refine hattended.keep (fun socket hsocket => ⟨socket, ?_, Nat.le_refl _⟩) (fun hasleep => ?_)
    fun thread hreading => hreading.invoke event
  · rwa [Kernel.invoke_sockets] at hsocket
  · rwa [Kernel.sleepers, Kernel.invoke_events, Function.update_of_ne hevent.symm] at hasleep

theorem Attended.setSocket (hattended : Attended kernel id) (hsocket : kernel.sockets other = some socket)
    {new : UnixSocket} (hincoming : id = other → new.incoming.length ≤ socket.incoming.length) :
    Attended (kernel.setSocket other new) id := by
  refine hattended.keep (fun found hfound => ?_) (fun hasleep => hasleep) fun _ hreading => hreading
  rcases Kernel.setSocket_look hfound with ⟨rfl, rfl⟩ | ⟨-, hold⟩
  · exact ⟨socket, hsocket, hincoming rfl⟩
  · exact ⟨found, hold, Nat.le_refl _⟩

/-- A thread that is no reader of the socket is marked free. -/
theorem Attended.free (hattended : Attended kernel id) (hthread : ¬kernel.Reading id thread) :
    Attended (kernel.setThread thread .free) id := by
  refine hattended.keep (fun socket hsocket => ⟨socket, hsocket, Nat.le_refl _⟩)
    (fun hasleep => hasleep) fun other hreading => ?_
  have hne : other ≠ thread := fun hsame => hthread (hsame ▸ hreading)
  exact hreading.of_ne hne fun _ hother => Function.update_of_ne hother ..

/-- A thread that is no reader of the socket goes to sleep, for another event. -/
theorem Attended.sleep (hattended : Attended kernel id) (hthread : ¬kernel.Reading id thread)
    (hcall : call.waitsFor ≠ (id, .dataReady)) : Attended (kernel.sleep thread call) id := by
  refine hattended.keep (fun socket hsocket => ⟨socket, hsocket, Nat.le_refl _⟩)
    (fun hasleep => ?_) fun other hreading => ?_
  · rwa [Kernel.sleepers, Kernel.sleep_events_of_ne hcall.symm] at hasleep
  · have hne : other ≠ thread := fun hsame => hthread (hsame ▸ hreading)
    exact hreading.of_ne hne fun _ hother => Function.update_of_ne hother ..

theorem Attended.served (hattended : Attended kernel id) (requester : Nat) (rest : List Nat) :
    Attended (kernel.served other requester rest) id := by
  by_cases hnew : id = kernel.next
  · refine .of_empty fun socket hsocket => ?_
    rcases Kernel.served_look hsocket with ⟨-, rfl⟩ | ⟨hold, -⟩
    · rfl
    · exact absurd hnew hold
  · refine hattended.keep (fun socket hsocket => ?_) (fun hasleep => ?_) fun _ hreading => hreading
    · rcases Kernel.served_look hsocket with ⟨hsame, -⟩ | ⟨-, old, hold, rfl⟩
      · exact absurd hsame hnew
      · exact ⟨old, hold, Nat.le_refl _⟩
    · rwa [Kernel.sleepers, Kernel.served_events_of_ne hnew] at hasleep

/-- The packet of a write has the reader that it wakes. -/
theorem Attended.write (hwired : Wired kernel) (hattended : Attended kernel id)
    (hsocket : kernel.sockets id = some socket) (packet : Packet) :
    Attended ((kernel.setSocket id { socket with
      incoming := socket.incoming ++ [packet] }).invoke (id, .dataReady)) id := by
  intro found hfound hasleep
  rw [Kernel.invoke_sockets, Kernel.setSocket_self, Option.some.injEq] at hfound
  rw [Kernel.sleepers, Kernel.invoke_events, Function.update_self] at hasleep
  change (kernel.events (id, .dataReady)).invoke.2.waiters ≠ [] at hasleep
  cases hwaiters : (kernel.events (id, .dataReady)).waiters with
  | nil => simp [WaitQueue.invoke, hwaiters] at hasleep
  | cons first others =>
      have hsleepers : kernel.sleepers id ≠ [] := by simp [Kernel.sleepers, hwaiters]
      obtain ⟨readers, hreaders, hlength⟩ := hattended socket hsocket hsleepers
      have hwoken : (kernel.events (id, .dataReady)).invoke.1 = some first := by
        simp [WaitQueue.invoke, hwaiters]
      obtain ⟨call, hfirst, hcall⟩ :=
        (hwired.waits (id, .dataReady) first).mp (by simp [hwaiters])
      refine ⟨first :: readers, ⟨?_, fun thread hmem => ?_⟩, ?_⟩
      · refine List.nodup_cons.mpr ⟨fun hmem => ?_, hreaders.nodup⟩
        obtain ⟨size, hreading⟩ := hreaders.reading first hmem
        simp [hfirst] at hreading
      · rcases List.mem_cons.mp hmem with rfl | hmem
        · cases call with
          | read reader size =>
              obtain rfl : reader = id := congrArg Prod.fst hcall
              exact ⟨size, Kernel.invoke_threads_woken hwoken hfirst⟩
          | connect | accept => simp [Call.waitsFor] at hcall
        · exact ((hreaders.reading thread hmem).setSocket ..).invoke _
      · simp [← hfound, hlength]

theorem Packet.length_take_le (packet : Packet) (size : Nat) :
    (packet.take size).2.toList.length ≤ 1 := by
  cases (packet.take size).2 <;> simp

/-- A reader that goes on takes its packet, or leaves a part while there are others enough. -/
theorem Attended.take (hattended : Attended kernel id) {size : Nat} {packet : Packet}
    {rest : List Packet} (hreading : kernel.threads thread = .woken (.read id size))
    (hsocket : kernel.sockets id = some socket) (hincoming : socket.incoming = packet :: rest)
    (hconsiderate : Considerate kernel (.resume thread)) :
    Attended ((kernel.setThread thread .free).setSocket id
      { socket with incoming := (packet.take size).2.toList ++ rest }) id := by
  intro found hfound hasleep
  rw [Kernel.setSocket_self, Option.some.injEq] at hfound
  have hothers {readers : List Nat} (hreaders : kernel.Readers id readers) (hnot : thread ∉ readers) :
      ((kernel.setThread thread .free).setSocket id found).Readers id readers :=
    hreaders.mono fun other hmem hother =>
      hother.of_ne (ne_of_mem_of_not_mem hmem hnot) fun _ hne => Function.update_of_ne hne ..
  rw [hfound]
  by_cases hpart : size < packet.size - packet.pos
  · rcases hconsiderate thread id size socket packet rest rfl hreading hsocket hincoming hpart with
      hnone | ⟨others, hreaders, hnot, hlength⟩
    · exact absurd hnone hasleep
    · refine ⟨others, hothers hreaders hnot, ?_⟩
      rw [← hfound]
      simpa [Packet.take, hpart, hincoming] using hlength
  · obtain ⟨readers, hreaders, hlength⟩ := hattended socket hsocket hasleep
    refine ⟨readers.erase thread, hothers ⟨hreaders.nodup.erase thread, fun other hmem =>
      hreaders.reading other (List.mem_of_mem_erase hmem)⟩ ?_, ?_⟩
    · exact fun hmem => (hreaders.nodup.mem_erase_iff.mp hmem).1 rfl
    · have hstays : (packet.take size).2 = none := by
        unfold Packet.take
        rw [if_neg (by omega)]
        split <;> rfl
      have herase := @List.le_length_erase _ _ _ thread readers
      rw [← hfound, hstays]
      rw [hincoming, List.length_cons] at hlength
      simp
      omega

/-- A turn whose partial reads leave nobody behind keeps the packets attended. -/
theorem Turn.attended (hwired : Wired kernel) (hattended : ∀ id, Attended kernel id)
    (hturn : Turn kernel op outcome next) (hconsiderate : Considerate kernel op) (id : Nat) :
    Attended next id := by
  cases hturn with
  | init =>
      by_cases hnew : id = kernel.next
      · refine .of_empty fun socket hsocket => ?_
        rcases Kernel.init_look hsocket with ⟨-, rfl⟩ | ⟨hold, -⟩
        · rfl
        · exact absurd hnew hold
      · refine (hattended id).keep (fun socket hsocket => ?_) (fun hasleep => ?_) fun _ h => h
        · rcases Kernel.init_look hsocket with ⟨hsame, -⟩ | ⟨-, hold⟩
          · exact absurd hsame hnew
          · exact ⟨socket, hold, Nat.le_refl _⟩
        · rwa [Kernel.sleepers, Kernel.init_events_of_ne hnew] at hasleep
  | listen hsocket => exact (hattended id).setSocket hsocket fun _ => Nat.le_refl _
  | refused | inval | unpaired | unheard => exact hattended id
  | @requests thread requester target socket queued hfree hid hsocket hsize hqueued hsignal =>
      rw [hqueued]
      refine Attended.sleep (Attended.invoke ((hattended id).setSocket hsocket ?_) ?_) ?_ ?_
      · exact fun _ => Nat.le_refl _
      · simp
      · rintro ⟨size, hreading⟩
        rw [Kernel.invoke_threads_awake (by simp [Kernel.setSocket, hfree])] at hreading
        simp [Kernel.setSocket, hfree] at hreading
      · simp [Call.waitsFor]
  | connects hid hsocket hsize hqueued hsignal =>
      rw [hqueued]
      refine Attended.keep (Attended.invoke ((hattended id).setSocket hsocket ?_) ?_)
        (fun socket hsocket => ⟨socket, hsocket, Nat.le_refl _⟩) (fun hasleep => ?_) fun _ h => h
      · exact fun _ => Nat.le_refl _
      · simp
      · rwa [Kernel.sleepers, Kernel.unsignalled_waiters] at hasleep
  | returns hwoken => exact (hattended id).free (by rintro ⟨size, hreading⟩; simp [hwoken] at hreading)
  | accepts hruns hsocket hqueue =>
      refine Attended.invoke (Attended.served ((hattended id).free fun hreading => ?_) _ _) (by simp)
      simpa using (hruns.reading hreading).2
  | @sleeps _ thread call hruns hnothing =>
      by_cases hcall : call.waitsFor = (id, .dataReady)
      · refine .of_empty fun socket hsocket => ?_
        cases call with
        | read reader size =>
            obtain rfl : reader = id := congrArg Prod.fst hcall
            obtain ⟨found, hfound, hempty⟩ := hnothing
            rwa [← Option.some.inj (hfound.symm.trans hsocket)]
        | connect | accept => simp [Call.waitsFor] at hcall
      · refine (hattended id).sleep (fun hreading => hcall ?_) hcall
        obtain ⟨-, size, rfl⟩ := hruns.reading hreading
        rfl
  | @takes _ thread reader size socket packet rest hruns hsocket hincoming =>
      have hnotReading (hother : op = .resume thread → id ≠ reader) : ¬kernel.Reading id thread := by
        intro hreading
        obtain ⟨hop, size', hcall⟩ := hruns.reading hreading
        exact hother hop (Call.read.inj hcall).1.symm
      have hlength := packet.length_take_le size
      have hless : ((packet.take size).2.toList ++ rest).length ≤ socket.incoming.length := by
        rw [hincoming, List.length_append, List.length_cons]
        omega
      by_cases hsame : id = reader
      · subst hsame
        cases hruns with
        | read hfree =>
            exact ((hattended id).free (hnotReading fun hop => by cases hop)).setSocket hsocket fun _ => hless
        | resume hwoken => exact (hattended id).take hwoken hsocket hincoming hconsiderate
      · exact ((hattended id).free (hnotReading fun _ => hsame)).setSocket hsocket fun _ => hless
  | @writes writer peer data socket peerSocket hsocket hpaired hpeer =>
      by_cases hsame : id = peer
      · rw [hsame]
        exact (hattended peer).write hwired hpeer _
      · refine Attended.invoke ((hattended id).setSocket hpeer fun h => absurd h hsame) ?_
        simp [Ne.symm hsame]

theorem attended_inductive : (system.restrict Considerate).Inductive
    fun kernel => Wired kernel ∧ ∀ id, Attended kernel id where
  init kernel hinit := by
    refine ⟨wired_inductive.init kernel hinit, fun id => .of_empty fun socket hsocket => ?_⟩
    obtain rfl : kernel = bootKernel := hinit
    simp [bootKernel] at hsocket
  step kernel op next hinvariant hstep := by
    obtain ⟨hwired, hattended⟩ := hinvariant
    obtain ⟨hconsiderate, hpossible, outcome, hperform⟩ := hstep
    have hturn := Op.turn hwired hpossible hperform
    exact ⟨hturn.wired hwired, hturn.attended hwired hattended hconsiderate⟩

/-- In the runs in which no reader that goes on leaves part of a packet to readers asleep, no
reader ever sleeps while there is data and nobody awake to read it. -/
theorem readers_not_stranded (hreach : (system.restrict Considerate).Reachable kernel) :
    Unstranded kernel :=
  unstranded_of_attended (hreach.invariant attended_inductive).2

theorem considerate_of_call (hop : ∀ thread, op ≠ .resume thread) : Considerate kernel op :=
  fun thread _ _ _ _ _ hresume => absurd hresume (hop thread)

/-- A reader that was woken takes a part of its packet, the next one the rest, and of two readers
that sleep then a write wakes one. -/
theorem readers_not_stranded_after_part : ∃ kernel socket, kernel.sockets 1 = some socket ∧
    socket.incoming = [⟨0, 10, List.replicate 10 0⟩] ∧ kernel.sleepers 1 = [14] ∧
      Unstranded kernel := by
  have hboot : (system.restrict Considerate).Reachable bootKernel := .init rfl
  have hserver := reachable_perform_restrict hboot .init trivial rfl (considerate_of_call nofun)
  have hclient := reachable_perform_restrict hserver .init trivial rfl (considerate_of_call nofun)
  have hlistens := reachable_perform_restrict hclient (.listen 0 1) trivial rfl
    (considerate_of_call nofun)
  have hconnects := reachable_perform_restrict hlistens (.connect 10 1 0) ⟨rfl, rfl⟩ rfl
    (considerate_of_call nofun)
  have haccepts := reachable_perform_restrict hconnects (.accept 11 0) rfl rfl
    (considerate_of_call nofun)
  have hfirst := reachable_perform_restrict haccepts (.read 12 1 3) rfl rfl (considerate_of_call nofun)
  have hpacket := reachable_perform_restrict hfirst (.write 2 (List.replicate 10 0)) trivial rfl
    (considerate_of_call nofun)
  have hpart := reachable_perform_restrict hpacket (.resume 12) ⟨_, rfl⟩ rfl (by
    intro _ _ _ _ _ _ hop hwoken _ _ _
    obtain rfl := Op.resume.inj hop
    have hcall : Activity.woken (.read 1 3) = .woken (.read _ _) := hwoken
    cases hcall
    exact .inl rfl)
  have hrest := reachable_perform_restrict hpart (.read 12 1 7) rfl rfl (considerate_of_call nofun)
  have hsecond := reachable_perform_restrict hrest (.read 13 1 3) rfl rfl (considerate_of_call nofun)
  have hthird := reachable_perform_restrict hsecond (.read 14 1 3) rfl rfl (considerate_of_call nofun)
  have hwrites := reachable_perform_restrict hthird (.write 2 (List.replicate 10 0)) trivial rfl
    (considerate_of_call nofun)
  exact ⟨_, _, rfl, rfl, rfl, readers_not_stranded hwrites⟩

/-- Two readers sleep, ten bytes are written, and the reader that is woken takes three. -/
theorem reader_stranded : ∃ kernel socket, system.Reachable kernel ∧
    kernel.sockets 1 = some socket ∧ socket.incoming = [⟨3, 10, List.replicate 10 0⟩] ∧
      (∀ thread, ¬kernel.Reading 1 thread) ∧ kernel.sleepers 1 = [13] := by
  have hserver := (ReachableBy.boot [10, 11, 12, 13]).perform .init rfl trivial rfl
  have hclient := hserver.perform .init rfl trivial rfl
  have hlistens := hclient.perform (.listen 0 1) rfl trivial rfl
  have hconnects := hlistens.perform (.connect 10 1 0) rfl ⟨rfl, rfl⟩ rfl
  have haccepts := hconnects.perform (.accept 11 0) rfl rfl rfl
  have hconnected := haccepts.perform (.resume 10) rfl ⟨_, rfl⟩ rfl
  have hfirst := hconnected.perform (.read 12 1 3) rfl rfl rfl
  have hsecond := hfirst.perform (.read 13 1 3) rfl rfl rfl
  have hwrites := hsecond.perform (.write 2 (List.replicate 10 0)) rfl trivial rfl
  have htakes := hwrites.perform (.resume 12) rfl ⟨_, rfl⟩ rfl
  refine ⟨_, _, htakes.reach, rfl, rfl, ?_, rfl⟩
  rintro thread ⟨size, hreading⟩
  by_cases hthread : thread ∈ [10, 11, 12, 13]
  · simp only [List.mem_cons, List.not_mem_nil, or_false] at hthread
    rcases hthread with rfl | rfl | rfl | rfl <;> exact Activity.noConfusion hreading
  · rw [htakes.free thread hthread] at hreading
    exact Activity.noConfusion hreading

end PKernel.Sockets

import PKernel.Sockets.Peers

/-! # Whom a connection is paired with

The requests of a listening socket and the threads that wait for its accepted event stay in
step, one by one, as long as no request is thrown away by a second listen and no socket is
paired anew by a second request. Then an accept wakes the thread whose request it took.
-/

namespace PKernel.Sockets

open Library Library.Transition
open Function (update update_eq_self update_of_ne update_self)

/-- A request, numbered in the order of the connections. -/
structure Request where
  number : Nat
  requester : Nat
deriving DecidableEq, Repr

/-- The kernel, with the requests of its sockets, the request of each thread that connects,
and the requests that were accepted with the sockets made for them. -/
structure Journal where
  kernel : Kernel
  count : Nat
  pending : Nat → List Request
  own : Nat → Option Request
  accepted : List (Request × Nat)

/-- The socket of an accept that a step starts or goes on with. -/
def Op.accepts? (kernel : Kernel) : Op → Option Nat
  | .accept _ id => some id
  | .resume thread =>
      match kernel.threads thread with
      | .woken (.accept id) => some id
      | _ => none
  | _ => none

/-- The thread and the socket of a connection that a step starts or goes on with. -/
def Op.connects? (kernel : Kernel) : Op → Option (Nat × Nat)
  | .connect thread id _ => some (thread, id)
  | .resume thread =>
      match kernel.threads thread with
      | .woken (.connect id _) => some (thread, id)
      | _ => none
  | _ => none

namespace Journal

/-- A connection puts its request behind the others. -/
def request (journal : Journal) (thread id target : Nat) : Journal :=
  { journal with
    count := journal.count + 1
    pending := update journal.pending target
      (journal.pending target ++ [⟨journal.count, id⟩])
    own := update journal.own thread (some ⟨journal.count, id⟩) }

/-- An accept takes the first request. -/
def accept (journal : Journal) (id created : Nat) : Journal :=
  match journal.pending id with
  | [] => journal
  | request :: rest =>
      { journal with
        pending := update journal.pending id rest
        accepted := journal.accepted ++ [(request, created)] }

/-- What a step writes down. -/
def after (journal : Journal) (op : Op) (outcome : Outcome) (next : Kernel) : Journal :=
  let written :=
    match op, outcome with
    | .listen id _, _ => { journal with pending := update journal.pending id [] }
    | .connect _ _ _, .connRefused => journal
    | .connect thread id target, _ => journal.request thread id target
    | op, .made created => ((op.accepts? journal.kernel).map (journal.accept · created)).getD journal
    | _, _ => journal
  { written with kernel := next }

end Journal

/-- The system with its journal. -/
def handshakes : System Journal Op where
  init journal := journal = ⟨bootKernel, 0, fun _ => [], fun _ => none, []⟩
  step journal op next := op.Possible journal.kernel ∧ ∃ outcome kernel,
    op.perform journal.kernel = .ok (outcome, kernel) ∧ next = journal.after op outcome kernel

/-- A listen finds no requests, and an accept takes only the request of a socket that has no
peer. -/
structure Orderly (journal : Journal) (op : Op) : Prop where
  listen : ∀ id capacity, op = .listen id capacity → journal.kernel.requests id = []
  accept : ∀ id requester rest, op.accepts? journal.kernel = some id →
    journal.kernel.requests id = requester :: rest → journal.kernel.peer? requester = none

/-- Peers are each other's, and a connection that returns was accepted by its own request. -/
structure Matched (journal : Journal) : Prop where
  symmetric : ∀ s t, journal.kernel.peer? s = some t → journal.kernel.peer? t = some s
  returned : ∀ (op : Op) kernel thread id, op.Possible journal.kernel →
    op.perform journal.kernel = .ok (.done, kernel) →
    op.connects? journal.kernel = some (thread, id) →
      ∃ request created, (journal.after op .done kernel).own thread = some request ∧
        request.requester = id ∧ (request, created) ∈ (journal.after op .done kernel).accepted ∧
          kernel.peer? id = some created

namespace Kernel

/-- The threads that wait to be accepted. -/
def callers (kernel : Kernel) (id : Nat) : List Nat := (kernel.events (id, .listenerAccepted)).waiters

/-- An accept found nobody waiting. -/
def Signalled (kernel : Kernel) (id : Nat) : Prop :=
  (kernel.events (id, .listenerAccepted)).signal = true

end Kernel

/-- What holds of the journal in every state of an orderly run. -/
structure Aligned (journal : Journal) : Prop where
  symmetric : ∀ s t, journal.kernel.peer? s = some t → journal.kernel.peer? t = some s
  requests : ∀ id, (journal.pending id).map Request.requester = journal.kernel.requests id
  callers : ∀ id, (journal.kernel.callers id).map journal.own = (journal.pending id).map some
  unsignalled : ∀ id, ¬journal.kernel.Signalled id
  own : ∀ thread id target, journal.kernel.Calls thread (.connect id target) →
    ∃ request, journal.own thread = some request ∧ request.requester = id
  woken : ∀ thread id target, journal.kernel.threads thread = .woken (.connect id target) →
    ∃ request created, journal.own thread = some request ∧ (request, created) ∈ journal.accepted
  accepted : ∀ request created, (request, created) ∈ journal.accepted →
    journal.kernel.peer? request.requester = some created

variable {kernel next : Kernel} {id thread target other requester : Nat} {op : Op} {outcome : Outcome}
  {journal : Journal} {call : Call} {event : Event}

/-! ## What does not touch the handshakes -/

/-- A step that writes nothing down and leaves the pairs, the requests and their threads alone. -/
theorem Aligned.keep (haligned : Aligned journal) (hpeers : next.peer? = journal.kernel.peer?)
    (hrequests : next.requests = journal.kernel.requests)
    (hcallers : next.callers = journal.kernel.callers)
    (hsignalled : ∀ id, next.Signalled id → journal.kernel.Signalled id)
    (hcalls : ∀ thread id target, next.Calls thread (.connect id target) →
      journal.kernel.Calls thread (.connect id target))
    (hwoken : ∀ thread id target, next.threads thread = .woken (.connect id target) →
      journal.kernel.threads thread = .woken (.connect id target)) :
    Aligned { journal with kernel := next } where
  symmetric s t hpeer := by
    rw [hpeers] at hpeer ⊢
    exact haligned.symmetric s t hpeer
  requests id := by rw [hrequests, haligned.requests id]
  callers id := by rw [hcallers, haligned.callers id]
  unsignalled id hsignal := haligned.unsignalled id (hsignalled id hsignal)
  own thread id target hcall := haligned.own thread id target (hcalls thread id target hcall)
  woken thread id target hthread :=
    haligned.woken thread id target (hwoken thread id target hthread)
  accepted request created hmem := by
    rw [hpeers]
    exact haligned.accepted request created hmem

/-- Nobody waits for the events of a socket that is not made yet. -/
theorem Wired.callers_next (hwired : Wired kernel) : kernel.callers kernel.next = [] := by
  rw [List.eq_nil_iff_forall_not_mem]
  intro thread hmem
  have hwaits := (hwired.waits (kernel.next, .listenerAccepted) thread).mp hmem
  exact absurd (hwired.calls _ thread hwaits) (Nat.lt_irrefl _)

/-- Who is woken in a connection: a thread that was woken before, or the first that waits for
the event. -/
theorem Kernel.woken_of_invoke (hthread : (kernel.invoke event).threads thread = .woken call) :
    kernel.threads thread = .woken call ∨
      kernel.threads thread = .asleep call ∧ (kernel.events event).invoke.1 = some thread := by
  by_cases hwoken : (kernel.events event).invoke.1 = some thread
  · by_cases hasleep : ∃ call, kernel.threads thread = .asleep call
    · obtain ⟨call', hasleep⟩ := hasleep
      rw [invoke_threads_woken hwoken hasleep] at hthread
      exact .inr ⟨hasleep.trans (congrArg Activity.asleep (Activity.woken.inj hthread)), hwoken⟩
    · rw [invoke_threads_awake fun call h => hasleep ⟨call, h⟩] at hthread
      exact .inl hthread
  · rw [invoke_threads_of_ne hwoken] at hthread
    exact .inl hthread

/-- An event of another name wakes nobody in a connection. -/
theorem Wired.woken_connect_of_invoke (hwired : Wired kernel) (hevent : event.2 ≠ .listenerAccepted)
    (hthread : (kernel.invoke event).threads thread = .woken (.connect id target)) :
    kernel.threads thread = .woken (.connect id target) := by
  rcases Kernel.woken_of_invoke hthread with hold | ⟨hasleep, hwoken⟩
  · exact hold
  · obtain ⟨call, hasleep', hcall⟩ := (hwired.waits event thread).mp (WaitQueue.woken_mem hwoken)
    obtain rfl := Activity.asleep.inj (hasleep.symm.trans hasleep')
    exact absurd (congrArg Prod.snd hcall).symm hevent

theorem Kernel.callers_invoke (hevent : event.2 ≠ .listenerAccepted) :
    (kernel.invoke event).callers = kernel.callers := by
  funext id
  rw [callers, invoke_events, update_of_ne, callers]
  rintro rfl
  exact hevent rfl

theorem Kernel.signalled_of_invoke (hevent : event.2 ≠ .listenerAccepted)
    (hsignal : (kernel.invoke event).Signalled id) : kernel.Signalled id := by
  rwa [Signalled, invoke_events, update_of_ne] at hsignal
  rintro rfl
  exact hevent rfl

/-- A thread that sleeps in another call than a connection. -/
theorem Aligned.sleep (haligned : Aligned journal) (hcall : ∀ id target, call ≠ .connect id target) :
    Aligned { journal with kernel := journal.kernel.sleep thread call } := by
  have hevent (id : Nat) : (id, EventName.listenerAccepted) ≠ call.waitsFor := by
    cases call with
    | connect => exact absurd rfl (hcall _ _)
    | accept | read => simp [Call.waitsFor]
  refine haligned.keep rfl rfl (funext fun id => ?_) (fun id hsignal => ?_)
    (fun other id target hcalls => ?_) fun other id target hthread => ?_
  · rw [Kernel.callers, Kernel.sleep_events_of_ne (hevent id), Kernel.callers]
  · rwa [Kernel.Signalled, Kernel.sleep_events_of_ne (hevent id)] at hsignal
  · rcases Kernel.calls_of_sleep hcalls with ⟨-, hsame⟩ | hold
    · exact absurd hsame.symm (hcall id target)
    · exact hold
  · by_cases hsame : other = thread
    · simp [Kernel.sleep, hsame] at hthread
    · rwa [Kernel.sleep_threads_of_ne hsame] at hthread

theorem Aligned.free (haligned : Aligned journal) :
    Aligned { journal with kernel := journal.kernel.setThread thread .free } := by
  refine haligned.keep rfl rfl rfl (fun _ h => h) (fun other id target hcalls =>
    Kernel.calls_of_free hcalls) fun other id target hthread => ?_
  by_cases hsame : other = thread
  · simp [Kernel.setThread, hsame] at hthread
  · rwa [Kernel.setThread_threads_of_ne hsame] at hthread

/-- A store to a socket that leaves its peer and its requests alone. -/
theorem Aligned.setSocket (haligned : Aligned journal) {socket new : UnixSocket}
    (hsocket : journal.kernel.sockets id = some socket) (hpeer : new.pairedSocket = socket.pairedSocket)
    (hqueue : new.listenQueue = socket.listenQueue) :
    Aligned { journal with kernel := journal.kernel.setSocket id new } :=
  haligned.keep (Kernel.field_setSocket_kept hsocket hpeer) (Kernel.field_setSocket_kept hsocket hqueue)
    rfl (fun _ h => h) (fun _ _ _ h => h) fun _ _ _ h => h

theorem Aligned.invoke (hwired : Wired journal.kernel) (haligned : Aligned journal)
    (hevent : event.2 ≠ .listenerAccepted) :
    Aligned { journal with kernel := journal.kernel.invoke event } :=
  haligned.keep (Kernel.field_invoke ..) (Kernel.field_invoke ..) (Kernel.callers_invoke hevent)
    (fun _ => Kernel.signalled_of_invoke hevent) (fun _ _ _ => Kernel.calls_of_invoke)
    fun _ _ _ => hwired.woken_connect_of_invoke hevent

theorem Aligned.init (hwired : Wired journal.kernel) (haligned : Aligned journal) :
    Aligned { journal with kernel := (unixSocketInit journal.kernel).2 } := by
  refine haligned.keep (hwired.field_init rfl) (hwired.field_init rfl) (funext fun id => ?_)
    (fun id hsignal => ?_) (fun _ _ _ h => h) fun _ _ _ h => h
  · by_cases hnew : id = journal.kernel.next
    · rw [hnew, hwired.callers_next]
      exact congrArg WaitQueue.waiters (if_pos rfl)
    · rw [Kernel.callers, Kernel.init_events_of_ne hnew, Kernel.callers]
  · by_cases hnew : id = journal.kernel.next
    · have hempty : (unixSocketInit journal.kernel).2.events (id, .listenerAccepted) = .empty :=
        if_pos hnew
      rw [Kernel.Signalled, hempty] at hsignal
      exact nomatch hsignal
    · rwa [Kernel.Signalled, Kernel.init_events_of_ne hnew] at hsignal

/-! ## What does -/

/-- A free thread waits for nothing. -/
theorem Wired.not_caller (hwired : Wired kernel) (hfree : kernel.threads thread = .free) :
    thread ∉ kernel.callers id := by
  intro hmem
  obtain ⟨call, hasleep, -⟩ := (hwired.waits (id, .listenerAccepted) thread).mp hmem
  simp [hfree] at hasleep

/-- The thread that connects waits behind the others, as its request does. -/
theorem Aligned.request (hwired : Wired journal.kernel) (haligned : Aligned journal)
    {socket : UnixSocket} {queued : Kernel} (hid : (journal.kernel.sockets id).isSome = true)
    (hfree : journal.kernel.threads thread = .free)
    (hsocket : journal.kernel.sockets target = some socket)
    (hqueued : queued = (journal.kernel.setSocket target { socket with
      listenQueue := socket.listenQueue ++ [id] }).invoke (target, .listenerArrived)) :
    Aligned { journal.request thread id target with
      kernel := queued.sleep thread (.connect id target) } := by
  have hstored : Wired (journal.kernel.setSocket target
      { socket with listenQueue := socket.listenQueue ++ [id] }) :=
    hwired.setSocket hsocket (hwired.requesters_append hsocket hid)
  have hpeers : queued.peer? = journal.kernel.peer? := by
    rw [hqueued]
    exact (Kernel.field_invoke ..).trans (Kernel.field_setSocket_kept hsocket rfl)
  have hrequests : queued.requests = update journal.kernel.requests target
      (journal.kernel.requests target ++ [id]) := by
    rw [hqueued, Kernel.requests, Kernel.field_invoke, Kernel.field_setSocket, Kernel.requests,
      Kernel.field_eq hsocket]
  have hevents (other : Nat) : queued.events (other, .listenerAccepted) =
      journal.kernel.events (other, .listenerAccepted) := by
    rw [hqueued, Kernel.invoke_events, update_of_ne (by simp)]
    rfl
  have hcallers : (queued.sleep thread (.connect id target)).callers =
      update journal.kernel.callers target (journal.kernel.callers target ++ [thread]) := by
    funext other
    by_cases hsame : other = target
    · rw [hsame, update_self]
      refine (congrArg WaitQueue.waiters (Kernel.sleep_events_self queued thread _)).trans ?_
      rw [Call.waitsFor, hevents, Kernel.callers]
    · rw [update_of_ne hsame, Kernel.callers, Kernel.sleep_events_of_ne (by
        simp [Call.waitsFor, hsame]), hevents, Kernel.callers]
  have hown {other : Nat} (hother : other ≠ thread) :
      (journal.request thread id target).own other = journal.own other := update_of_ne hother ..
  have hmap (other : Nat) : (journal.kernel.callers other).map (journal.request thread id target).own =
      (journal.kernel.callers other).map journal.own :=
    List.map_congr_left fun caller hmem => hown fun hsame =>
      hwired.not_caller hfree (hsame ▸ hmem)
  constructor
  case symmetric =>
    intro s t hpeer
    change queued.peer? t = some s
    change queued.peer? s = some t at hpeer
    rw [hpeers] at hpeer ⊢
    exact haligned.symmetric s t hpeer
  case requests =>
    intro other
    change (update journal.pending target _ other).map _ = queued.requests other
    rw [hrequests]
    by_cases hsame : other = target
    · rw [hsame, update_self, update_self, List.map_append, haligned.requests]
      rfl
    · rw [update_of_ne hsame, update_of_ne hsame, haligned.requests]
  case callers =>
    intro other
    dsimp only
    rw [hcallers]
    change _ = (update journal.pending target _ other).map some
    by_cases hsame : other = target
    · rw [hsame, update_self, update_self, List.map_append, List.map_append, hmap,
        haligned.callers]
      exact congrArg (_ ++ [·]) (update_self ..)
    · rw [update_of_ne hsame, update_of_ne hsame, hmap, haligned.callers]
  case unsignalled =>
    intro other hsignal
    dsimp only [Kernel.Signalled] at hsignal
    by_cases hsame : other = target
    · rw [hsame, Kernel.sleep] at hsignal
      simp [Call.waitsFor] at hsignal
    · rw [Kernel.sleep_events_of_ne (by simp [Call.waitsFor, hsame]), hevents] at hsignal
      exact haligned.unsignalled other hsignal
  case own =>
    intro other id' target' hcalls
    rcases Kernel.calls_of_sleep hcalls with ⟨rfl, hcall⟩ | hold
    · rw [Call.connect.injEq] at hcall
      exact ⟨⟨journal.count, id⟩, update_self .., hcall.1.symm⟩
    · rw [hqueued] at hold
      have hold := Kernel.calls_of_invoke hold
      change journal.kernel.Calls other (.connect id' target') at hold
      have hother : other ≠ thread := by
        rintro rfl
        simp [Kernel.Calls, hfree] at hold
      dsimp only
      rw [hown hother]
      exact haligned.own other id' target' hold
  case woken =>
    intro other id' target' hthread
    have hother : other ≠ thread := by
      rintro rfl
      simp [Kernel.sleep] at hthread
    dsimp only at hthread ⊢
    rw [Kernel.sleep_threads_of_ne hother, hqueued] at hthread
    rw [hown hother]
    exact haligned.woken other id' target' (hstored.woken_connect_of_invoke (by simp) hthread)
  case accepted =>
    intro request created hmem
    change queued.peer? request.requester = some created
    rw [hpeers]
    exact haligned.accepted request created hmem

theorem requests_served (hwired : Wired kernel) {socket : UnixSocket}
    (hsocket : kernel.sockets id = some socket) (requester : Nat) (rest : List Nat) :
    (kernel.served id requester rest).requests = update kernel.requests id rest := by
  have hid := Nat.ne_of_lt (hwired.lt_next hsocket)
  funext other
  by_cases hnew : other = kernel.next
  · rw [hnew, update_of_ne hid.symm]
    exact (Kernel.field_served_next ..).trans hwired.field_next.symm
  · refine (Kernel.field_served requester rest hnew).trans ?_
    by_cases hsame : other = id
    · rw [hsame, update_self, hsocket]
      simp
    · rw [update_of_ne hsame]
      simp [hsame, Kernel.field]

theorem callers_served (hwired : Wired kernel) (id requester : Nat) (rest : List Nat) (other : Nat) :
    (kernel.served id requester rest).callers other = kernel.callers other := by
  by_cases hnew : other = kernel.next
  · rw [hnew, hwired.callers_next]
    exact congrArg WaitQueue.waiters (if_pos rfl)
  · rw [Kernel.callers, Kernel.served_events_of_ne hnew, Kernel.callers]

theorem signalled_of_served {rest : List Nat}
    (hsignal : (kernel.served id requester rest).Signalled other) : kernel.Signalled other := by
  by_cases hnew : other = kernel.next
  · have hempty : (kernel.served id requester rest).events (other, .listenerAccepted) = .empty :=
      if_pos hnew
    rw [Kernel.Signalled, hempty] at hsignal
    exact nomatch hsignal
  · rwa [Kernel.Signalled, Kernel.served_events_of_ne hnew] at hsignal

/-- Two that had no partner become each other's. -/
theorem symmetric_update {peer : Nat → Option Nat} (hsymmetric : ∀ s t, peer s = some t → peer t = some s)
    {created : Nat} (hne : requester ≠ created) (hrequester : peer requester = none)
    (hcreated : peer created = none) {s t : Nat}
    (hpeer : update (update peer requester (some created)) created (some requester) s =
      some t) :
    update (update peer requester (some created)) created (some requester) t =
      some s := by
  by_cases hnew : s = created
  · rw [hnew, update_self] at hpeer
    rw [← Option.some.inj hpeer, update_of_ne hne, update_self, hnew]
  · rw [update_of_ne hnew] at hpeer
    by_cases hold : s = requester
    · rw [hold, update_self] at hpeer
      rw [← Option.some.inj hpeer, update_self, hold]
    · rw [update_of_ne hold] at hpeer
      have hback := hsymmetric s t hpeer
      rw [update_of_ne, update_of_ne, hback]
      · rintro rfl
        simp [hrequester] at hback
      · rintro rfl
        simp [hcreated] at hback

/-- The thread whose request is accepted is the one that is woken. -/
theorem Aligned.accept (hwired : Wired journal.kernel) (haligned : Aligned journal)
    {socket : UnixSocket} {rest : List Nat} (hsocket : journal.kernel.sockets id = some socket)
    (hqueue : socket.listenQueue = requester :: rest) (hnone : journal.kernel.peer? requester = none) :
    Aligned { journal.accept id journal.kernel.next with
      kernel := (journal.kernel.served id requester rest).invoke (id, .listenerAccepted) } := by
  have hid := hwired.lt_next hsocket
  have hrequests : journal.kernel.requests id = requester :: rest := (Kernel.field_eq hsocket).trans hqueue
  have hrequester := hwired.requesters id socket hsocket requester (by simp [hqueue])
  -- the request and its thread are the first of their lists
  obtain ⟨request, pending, hpending, rfl, hrest⟩ :=
    List.map_eq_cons_iff.mp ((haligned.requests id).trans hrequests)
  obtain ⟨caller, callers, hcallers, hown, hothers⟩ := List.map_eq_cons_iff.mp
    ((haligned.callers id).trans (congrArg (List.map some) hpending))
  have hevent : (journal.kernel.served id request.requester rest).events (id, .listenerAccepted) =
      ⟨false, caller :: callers⟩ := by
    rw [Kernel.served_events_of_ne (Nat.ne_of_lt hid)]
    have hsignal : (journal.kernel.events (id, .listenerAccepted)).signal = false := by
      simpa [Kernel.Signalled] using haligned.unsignalled id
    rw [← hcallers, ← hsignal]
    rfl
  have hinvoked : ((journal.kernel.served id request.requester rest).events
      (id, .listenerAccepted)).invoke = (some caller, ⟨false, callers⟩) := by
    rw [hevent]
    rfl
  have hpeers : ((journal.kernel.served id request.requester rest).invoke
      (id, .listenerAccepted)).peer? = update (update journal.kernel.peer?
        request.requester (some journal.kernel.next)) journal.kernel.next (some request.requester) :=
    (Kernel.field_invoke ..).trans (peer?_served _ id rest ((hwired.exist _).mpr hrequester))
  have hnew : request.requester ≠ journal.kernel.next := Nat.ne_of_lt hrequester
  have haccept : journal.accept id journal.kernel.next = { journal with
      pending := update journal.pending id pending
      accepted := journal.accepted ++ [(request, journal.kernel.next)] } := by
    rw [Journal.accept, hpending]
  rw [haccept]
  constructor
  case symmetric =>
    intro s t hpeer
    dsimp only at hpeer ⊢
    rw [hpeers] at hpeer ⊢
    exact symmetric_update haligned.symmetric hnew hnone hwired.field_next hpeer
  case requests =>
    intro other
    dsimp only
    rw [Kernel.requests, Kernel.field_invoke]
    change _ = (journal.kernel.served id request.requester rest).requests other
    rw [requests_served hwired hsocket]
    by_cases hsame : other = id
    · rw [hsame, update_self, update_self, hrest]
    · rw [update_of_ne hsame, update_of_ne hsame, haligned.requests]
  case callers =>
    intro other
    dsimp only [Kernel.callers]
    rw [Kernel.invoke_events]
    by_cases hsame : other = id
    · rw [hsame, update_self, update_self, hinvoked, hothers]
    · rw [update_of_ne (by simp [hsame]), update_of_ne hsame]
      exact (congrArg (List.map journal.own) (callers_served hwired ..)).trans (haligned.callers other)
  case unsignalled =>
    intro other hsignal
    dsimp only [Kernel.Signalled] at hsignal
    rw [Kernel.invoke_events] at hsignal
    by_cases hsame : other = id
    · rw [hsame, update_self, hinvoked] at hsignal
      exact nomatch hsignal
    · rw [update_of_ne (by simp [hsame])] at hsignal
      exact haligned.unsignalled other (signalled_of_served hsignal)
  case own =>
    intro thread id' target hcalls
    have hcalls := Kernel.calls_of_invoke hcalls
    exact haligned.own thread id' target hcalls
  case woken =>
    intro thread id' target hthread
    rcases Kernel.woken_of_invoke hthread with hold | ⟨-, hwoken⟩
    · obtain ⟨request', created, hrequest', hmem⟩ := haligned.woken thread id' target hold
      exact ⟨request', created, hrequest', List.mem_append_left _ hmem⟩
    · rw [hinvoked, Option.some.injEq] at hwoken
      exact ⟨request, journal.kernel.next, hwoken ▸ hown, by simp⟩
  case accepted =>
    intro request' created hmem
    dsimp only
    rw [hpeers]
    rcases List.mem_append.mp hmem with hold | hlast
    · have hpeer := haligned.accepted request' created hold
      have hlt := Nat.ne_of_lt (hwired.lt_of_peer? hpeer)
      rw [update_of_ne hlt, update_of_ne, hpeer]
      intro hsame
      simp [hsame, hnone] at hpeer
    · rw [List.mem_singleton, Prod.mk.injEq] at hlast
      rw [hlast.1, hlast.2, update_of_ne hnew, update_self]

theorem Op.Runs.accepts? (hruns : op.Runs kernel thread (.accept id)) : op.accepts? kernel = some id := by
  cases hruns with
  | accept => rfl
  | resume hwoken => rw [Op.accepts?, hwoken]

/-- There is nothing to throw away for an orderly listen. -/
theorem Aligned.listen (haligned : Aligned journal) {socket : UnixSocket} {capacity : Nat}
    (hsocket : journal.kernel.sockets id = some socket) (hempty : journal.kernel.requests id = []) :
    Aligned (journal.after (.listen id capacity) .done (journal.kernel.setSocket id
      { socket with listenQueue := [], listenQueueSize := 0, listenQueueCapacity := capacity })) := by
  have hpending : journal.pending id = [] :=
    List.map_eq_nil_iff.mp ((haligned.requests id).trans hempty)
  have hsame : update journal.pending id [] = journal.pending := by
    rw [← hpending, update_eq_self]
  have hqueue := (Kernel.field_eq hsocket).symm.trans hempty
  unfold Journal.after
  dsimp only
  rw [hsame]
  exact haligned.setSocket hsocket rfl hqueue.symm

theorem Journal.after_made (hop : op.accepts? journal.kernel = some id) (created : Nat) :
    journal.after op (.made created) next = { journal.accept id created with kernel := next } := by
  unfold Journal.after
  cases op with
  | init | listen | connect | read | write => exact nomatch hop
  | accept | resume =>
      dsimp only
      rw [hop]
      rfl

theorem Turn.aligned (hwired : Wired journal.kernel) (haligned : Aligned journal)
    (hturn : Turn journal.kernel op outcome next) (horderly : Orderly journal op) :
    Aligned (journal.after op outcome next) := by
  cases hturn with
  | init => exact haligned.init hwired
  | listen hsocket => exact haligned.listen hsocket (horderly.listen _ _ rfl)
  | refused | inval | unpaired | unheard => exact haligned
  | requests hfree hid hsocket hsize hqueued hsignal =>
      exact haligned.request hwired hid hfree hsocket hqueued
  | connects hid hsocket hsize hqueued hsignal => exact absurd hsignal (haligned.unsignalled _)
  | returns => exact haligned.free
  | @accepts _ thread id requester rest socket hruns hsocket hqueue =>
      have hnone := horderly.accept id requester rest hruns.accepts?
        ((Kernel.field_eq hsocket).trans hqueue)
      have hfreed : Aligned { journal with kernel := journal.kernel.setThread thread .free } :=
        haligned.free
      have haccepted := hfreed.accept (hwired.free fun _ => hruns.not_waits) hsocket hqueue hnone
      rw [Journal.after_made hruns.accepts?]
      refine Eq.mp (congrArg Aligned ?_) haccepted
      unfold Journal.accept
      cases journal.pending id <;> rfl
  | sleeps hruns hnothing =>
      cases hruns with
      | accept | read => exact haligned.sleep nofun
      | resume => exact haligned.sleep fun id target hcall => by simp [hcall, Kernel.Nothing] at hnothing
  | @takes _ thread id size socket packet rest hruns hsocket hincoming =>
      have hfreed : Aligned { journal with kernel := journal.kernel.setThread thread .free } :=
        haligned.free
      cases hruns with
      | read | resume => exact hfreed.setSocket hsocket rfl rfl
  | @writes id peer data socket peerSocket hsocket hpaired hpeer =>
      have hrequesters := hwired.requesters _ _ hpeer
      have hstored : Aligned { journal with kernel := journal.kernel.setSocket peer { peerSocket with
          incoming := peerSocket.incoming ++ [⟨0, data.length, data⟩] } } :=
        haligned.setSocket hpeer rfl rfl
      exact hstored.invoke (hwired.setSocket hpeer (by exact hrequesters)) (by simp)

/-! ## Runs -/

theorem Aligned.boot : Aligned ⟨bootKernel, 0, fun _ => [], fun _ => none, []⟩ where
  symmetric s t hpeer := nomatch hpeer
  requests id := rfl
  callers id := rfl
  unsignalled id := nofun
  own thread id target hcalls := by simp [Kernel.Calls, bootKernel] at hcalls
  woken thread id target hthread := nomatch hthread
  accepted request created hmem := nomatch hmem

theorem aligned_inductive : (handshakes.restrict Orderly).Inductive fun journal =>
    Wired journal.kernel ∧ Aligned journal where
  init journal hinit := hinit ▸ ⟨.boot, .boot⟩
  step journal op next hinvariant hstep := by
    obtain ⟨hwired, haligned⟩ := hinvariant
    obtain ⟨horderly, hpossible, outcome, kernel, hperform, rfl⟩ := hstep
    have hturn := Op.turn hwired hpossible hperform
    exact ⟨hturn.wired hwired, hturn.aligned hwired haligned horderly⟩

/-- A connection returns only when the thread was woken by the accept of its request. -/
theorem Aligned.returned (haligned : Aligned journal)
    (hturn : Turn journal.kernel op .done next)
    (hconnects : op.connects? journal.kernel = some (thread, id)) :
    ∃ request created, (journal.after op .done next).own thread = some request ∧
      request.requester = id ∧ (request, created) ∈ (journal.after op .done next).accepted ∧
        next.peer? id = some created := by
  cases hturn with
  | listen => exact nomatch hconnects
  | connects _ _ _ _ hsignal => exact absurd hsignal (haligned.unsignalled _)
  | @returns thread id target hwoken =>
      rw [Op.connects?, hwoken] at hconnects
      cases hconnects
      obtain ⟨request, hown, hrequester⟩ := haligned.own thread id target (.inr hwoken)
      obtain ⟨request', created, hown', haccepted⟩ := haligned.woken thread id target hwoken
      cases hown.symm.trans hown'
      exact ⟨request, created, hown, hrequester, haccepted,
        hrequester ▸ haligned.accepted request created haccepted⟩

theorem handshakes_perform (hreach : handshakes.Reachable journal) (op : Op)
    (hpossible : op.Possible journal.kernel)
    (hperform : op.perform journal.kernel = .ok (outcome, next)) :
    handshakes.Reachable (journal.after op outcome next) :=
  hreach.step ⟨hpossible, outcome, next, hperform, rfl⟩

theorem handshakes_perform_orderly (hreach : (handshakes.restrict Orderly).Reachable journal) (op : Op)
    (hpossible : op.Possible journal.kernel)
    (hperform : op.perform journal.kernel = .ok (outcome, next)) (horderly : Orderly journal op) :
    (handshakes.restrict Orderly).Reachable (journal.after op outcome next) :=
  hreach.step ⟨horderly, hpossible, outcome, next, hperform, rfl⟩

/-- In orderly runs peers are each other's, and a connection that returns was paired by the
accept that took its own request. -/
theorem handshakes_matched (hreach : (handshakes.restrict Orderly).Reachable journal) :
    Matched journal := by
  obtain ⟨hwired, haligned⟩ := hreach.invariant aligned_inductive
  refine ⟨haligned.symmetric, fun op kernel thread id hpossible hperform hconnects => ?_⟩
  exact haligned.returned (Op.turn hwired hpossible hperform) hconnects

/-- A connection was accepted, and its thread has not gone on yet. -/
theorem handshakes_matched_after_accept : ∃ journal : Journal,
    journal.kernel.threads 10 = .woken (.connect 1 0) ∧ journal.accepted = [(⟨0, 1⟩, 2)] ∧
      Matched journal := by
  have hboot : (handshakes.restrict Orderly).Reachable _ := .init rfl
  have hserver := handshakes_perform_orderly hboot .init trivial rfl ⟨nofun, nofun⟩
  have hclient := handshakes_perform_orderly hserver .init trivial rfl ⟨nofun, nofun⟩
  have hlistens := handshakes_perform_orderly hclient (.listen 0 1) trivial rfl
    ⟨by rintro _ _ ⟨⟩; rfl, nofun⟩
  have hconnects := handshakes_perform_orderly hlistens (.connect 10 1 0) ⟨rfl, rfl⟩ rfl ⟨nofun, nofun⟩
  have haccepts := handshakes_perform_orderly hconnects (.accept 11 0) rfl rfl
    ⟨nofun, by rintro _ _ _ ⟨⟩ ⟨⟩; rfl⟩
  exact ⟨_, rfl, rfl, handshakes_matched haccepts⟩

/-- A socket that connects twice is left with one peer of two; and after a second listen, which
throws the request of the first socket away, the connection of the second is accepted and that
of the first returns, without a peer. -/
theorem handshakes_mismatched :
    (∃ journal : Journal, handshakes.Reachable journal ∧ ¬Matched journal ∧
      journal.kernel.peer? 2 = some 1 ∧ journal.kernel.peer? 1 = some 3) ∧
    ∃ journal kernel, handshakes.Reachable journal ∧ ¬Matched journal ∧
      journal.kernel.threads 10 = .woken (.connect 1 0) ∧
        Op.perform journal.kernel (.resume 10) = .ok (.done, kernel) ∧ kernel.peer? 1 = none ∧
          journal.accepted = [(⟨1, 2⟩, 3)] := by
  have hserver := handshakes_perform (.init rfl) .init trivial rfl
  have hfirst := handshakes_perform hserver .init trivial rfl
  constructor
  · have hlistens := handshakes_perform hfirst (.listen 0 2) trivial rfl
    have hconnects := handshakes_perform hlistens (.connect 10 1 0) ⟨rfl, rfl⟩ rfl
    have hagain := handshakes_perform hconnects (.connect 11 1 0) ⟨rfl, rfl⟩ rfl
    have haccepts := handshakes_perform hagain (.accept 12 0) rfl rfl
    have hsecond := handshakes_perform haccepts (.accept 12 0) rfl rfl
    refine ⟨_, hsecond, fun hmatched => ?_, rfl, rfl⟩
    exact absurd (hmatched.symmetric 2 1 rfl) (by decide)
  · have hsecond := handshakes_perform hfirst .init trivial rfl
    have hlistens := handshakes_perform hsecond (.listen 0 1) trivial rfl
    have hconnects := handshakes_perform hlistens (.connect 10 1 0) ⟨rfl, rfl⟩ rfl
    have hagain := handshakes_perform hconnects (.listen 0 1) trivial rfl
    have hother := handshakes_perform hagain (.connect 11 2 0) ⟨rfl, rfl⟩ rfl
    have haccepts := handshakes_perform hother (.accept 12 0) rfl rfl
    refine ⟨_, _, haccepts, fun hmatched => ?_, rfl, rfl, rfl, rfl⟩
    obtain ⟨_, _, -, -, -, hpeer⟩ := hmatched.returned (.resume 10) _ 10 1 ⟨_, rfl⟩ rfl rfl
    exact nomatch hpeer

end PKernel.Sockets

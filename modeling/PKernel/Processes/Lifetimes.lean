import PKernel.Processes.Calls

/-! # What comes and goes

Events, processes and threads that are made, and events that are freed.
-/

namespace PKernel.Processes

open Library Scheduling
open Function (update update_eq_self_iff update_of_ne update_self)

variable {kernel next : Kernel} {layout : Layout} {number pid : Nat} {phase : Phase} {name : Name}
  {event : Event} {queue : WaitQueue Name} {process : Process}

namespace Awaited

variable {events : Event → Option (WaitQueue Name)} {sleeps : Nat → Option Event}

theorem init (hawaited : Awaited events sleeps) (hnone : events event = none) :
    Awaited (update events event (some .empty)) sleeps where
  sound second found hfound := by
    by_cases hsame : second = event
    · subst hsame
      rw [update_self] at hfound
      exact Option.some.inj hfound ▸ WaitQueue.sound_empty
    · rw [update_of_ne hsame] at hfound
      exact hawaited.sound second found hfound
  waits second waiter := by
    rw [← hawaited.waits second waiter]
    by_cases hsame : second = event
    · subst hsame
      simp [hnone, WaitQueue.empty]
    · rw [update_of_ne hsame]

theorem free (hawaited : Awaited events sleeps) (event : Event) :
    Awaited (update events event none) fun number =>
      if sleeps number = some event then none else sleeps number where
  sound second found hfound := by
    by_cases hsame : second = event
    · subst hsame
      rw [update_self] at hfound
      exact absurd hfound nofun
    · rw [update_of_ne hsame] at hfound
      exact hawaited.sound second found hfound
  waits second waiter := by
    have hold := hawaited.waits second waiter
    by_cases hsame : second = event
    · subst hsame
      rw [update_self]
      refine iff_of_false (fun ⟨_, hfound, _⟩ => absurd hfound nofun) fun hsleeps => ?_
      have hwaits := hsleeps.2
      split at hwaits
      next => exact absurd hwaits nofun
      next hne => exact hne hwaits
    · rw [update_of_ne hsame, hold]
      refine and_congr_right fun _ => ?_
      split
      next heq =>
        rw [heq, Option.some.injEq]
        exact iff_of_false (Ne.symm hsame) nofun
      next => exact Iff.rfl

end Awaited

namespace Owned

variable {processes : Nat → Option Process} {owner : Nat → Option Nat}

theorem create (howned : Owned processes owner) (hnone : processes pid = none) (parentId : Nat) :
    Owned (update processes pid (some ⟨parentId, []⟩)) owner where
  owner_iff number other := by
    rw [howned.owner_iff]
    by_cases hsame : other = pid
    · subst hsame
      simp [hnone]
    · rw [update_of_ne hsame]
  nodup other found hfound := by
    by_cases hsame : other = pid
    · subst hsame
      rw [update_self] at hfound
      exact Option.some.inj hfound ▸ List.nodup_nil
    · rw [update_of_ne hsame] at hfound
      exact howned.nodup other found hfound

theorem add (howned : Owned processes owner) (hprocess : processes pid = some process)
    (hfresh : owner number = none) :
    Owned (update processes pid (some { process with threads := process.threads ++ [number] }))
      (update owner number (some pid)) where
  owner_iff other second := by
    have hold := howned.owner_iff other second
    by_cases hsame : second = pid
    · subst hsame
      simp only [hprocess, Option.some.injEq, exists_eq_left'] at hold
      by_cases hother : other = number
      · subst hother
        simp
      · rw [update_of_ne hother, hold]
        simp [hother]
    · rw [update_of_ne hsame]
      by_cases hother : other = number
      · subst hother
        rw [update_self, ← hold, hfresh]
        exact iff_of_false (fun heq => hsame (Option.some.inj heq).symm) nofun
      · rw [update_of_ne hother, hold]
  nodup other found hfound := by
    by_cases hsame : other = pid
    · subst hsame
      rw [update_self, Option.some.injEq] at hfound
      have hnotMem : number ∉ process.threads := fun hmem => by
        have howner := (howned.owner_iff number other).mpr ⟨process, hprocess, hmem⟩
        rw [hfresh] at howner
        exact absurd howner nofun
      rw [← hfound]
      exact (howned.nodup other process hprocess).append (List.nodup_singleton _)
        (by simpa using hnotMem)
    · rw [update_of_ne hsame] at hfound
      exact howned.nodup other found hfound

theorem remove (howned : Owned processes owner) (pid : Nat) :
    Owned (update processes pid none) fun number =>
      if owner number = some pid then none else owner number where
  owner_iff number other := by
    have hold := howned.owner_iff number other
    by_cases hsame : other = pid
    · subst hsame
      rw [update_self]
      refine iff_of_false (fun heq => ?_) (fun ⟨_, hfound, _⟩ => absurd hfound nofun)
      split at heq
      next => exact absurd heq nofun
      next hne => exact hne heq
    · rw [update_of_ne hsame, ← hold]
      split
      next heq =>
        rw [heq, Option.some.injEq]
        exact iff_of_false nofun (Ne.symm hsame)
      next => exact Iff.rfl
  nodup other found hfound := by
    by_cases hsame : other = pid
    · subst hsame
      rw [update_self] at hfound
      exact absurd hfound nofun
    · rw [update_of_ne hsame] at hfound
      exact howned.nodup other found hfound

end Owned

/-! ## Events -/

/-- The phase of a pair after an event is freed. -/
def Phase.freed (event : Event) : Phase → Phase
  | .asleep other => if other = event then .stuck other else .asleep other
  | phase => phase

namespace Phase

theorem freed_record (event : Event) (phase : Phase) : (phase.freed event).record = phase.record := by
  cases phase with
  | asleep other =>
      simp only [freed]
      split
      next => funext pid level; cases level <;> rfl
      next => rfl
  | user | called | stuck | dying | exiting | lost => rfl

theorem freed_place (event : Event) (phase : Phase) : (phase.freed event).place = phase.place := by
  cases phase with
  | asleep other =>
      simp only [freed]
      split <;> rfl
  | user | called | stuck | dying | exiting | lost => rfl

theorem freed_alive (event : Event) (phase : Phase) : (phase.freed event).alive = phase.alive := by
  cases phase with
  | asleep other =>
      simp only [freed]
      split <;> rfl
  | user | called | stuck | dying | exiting | lost => rfl

theorem freed_sleeps (event : Event) (phase : Phase) :
    (phase.freed event).sleeps = if phase.sleeps = some event then none else phase.sleeps := by
  cases phase with
  | asleep other =>
      simp only [freed, sleeps, Option.some.injEq]
      by_cases hsame : other = event
      · rw [if_pos hsame, if_pos hsame]
      · rw [if_neg hsame, if_neg hsame]
  | user | called | stuck | dying | exiting | lost => rfl

theorem eq_exiting_of_freed (hfreed : phase.freed event = .exiting) : phase = .exiting := by
  cases phase with
  | asleep other =>
      simp only [freed] at hfreed
      split at hfreed <;> exact absurd hfreed nofun
  | exiting => rfl
  | user | called | stuck | dying | lost => exact absurd hfreed nofun

end Phase

/-- The layout after an event is freed. -/
def Layout.freed (layout : Layout) (event : Event) : Layout := fun number =>
  (layout number).map fun entry => (entry.1, entry.2.freed event)

namespace Layout

theorem freed_place (layout : Layout) (event : Event) : (layout.freed event).place = layout.place := by
  funext number
  simp only [place, freed, Option.bind_map, Function.comp_def, Phase.freed_place]

theorem freed_owner (layout : Layout) (event : Event) : (layout.freed event).owner = layout.owner := by
  funext number
  simp only [owner, freed, Option.bind_map, Function.comp_def, Phase.freed_alive]

theorem freed_sleeps (layout : Layout) (event : Event) :
    (layout.freed event).sleeps = fun number =>
      if layout.sleeps number = some event then none else layout.sleeps number := by
  funext number
  cases hat : layout number with
  | none => simp [sleeps, freed, hat]
  | some entry => simp [sleeps, freed, hat, Phase.freed_sleeps]

end Layout

theorem Event.childFinished_ne_other (pid place : Nat) : Event.childFinished pid ≠ .other place := nofun

theorem Kernel.eventInit_of_ne {other : Event} (hne : other ≠ event) :
    (kernel.eventInit event).events other = kernel.events other :=
  update_of_ne hne ..

theorem Kernel.eventFree_of_ne {other : Event} (hne : other ≠ event) :
    (kernel.eventFree event).events other = kernel.events other :=
  update_of_ne hne ..

theorem Kernel.processCreate_of_ne (hne : pid ≠ kernel.currentPid) {parentId : Nat} :
    (kernel.processCreate parentId).processes pid = kernel.processes pid :=
  update_of_ne hne ..

theorem Kernel.processCreate_self (kernel : Kernel) (parentId : Nat) :
    (kernel.processCreate parentId).processes kernel.currentPid = some ⟨parentId, []⟩ :=
  update_self ..

theorem Kernel.processCreate_event (kernel : Kernel) (parentId : Nat) :
    (kernel.processCreate parentId).events (.childFinished kernel.currentPid) = some .empty :=
  update_self ..

namespace Sound

/-- `event_init` of an event that a process does not own. -/
theorem eventInit (hsound : Sound kernel layout) {place : Nat} (hnone : kernel.events (.other place) = none) :
    Sound (kernel.eventInit (.other place)) layout :=
  { hsound with
    awaited := hsound.awaited.init hnone
    children := fun pid process hprocess => by
      rw [Kernel.eventInit_of_ne (Event.childFinished_ne_other pid place)]
      exact hsound.children pid process hprocess
    unborn := fun pid hle => by
      rw [Kernel.eventInit_of_ne (Event.childFinished_ne_other pid place)]
      exact hsound.unborn pid hle }

/-- `event_free` of an event that a process does not own. -/
theorem eventFree (hsound : Sound kernel layout) (place : Nat) :
    Sound (kernel.eventFree (.other place)) (layout.freed (.other place)) where
  threads name := by
    rw [Layout.freed, Option.map_map]
    simp only [Function.comp_def, Phase.freed_record]
    exact hsound.threads name
  lined := (Layout.freed_place ..).symm ▸ hsound.lined
  awaited := (Layout.freed_sleeps ..).symm ▸ hsound.awaited.free _
  owned := (Layout.freed_owner ..).symm ▸ hsound.owned
  exits number pid hat := by
    obtain ⟨⟨owner, phase⟩, hold, hentry⟩ := Option.map_eq_some_iff.mp hat
    obtain rfl := Phase.eq_exiting_of_freed (congrArg Prod.snd hentry)
    exact hsound.exits number owner hold
  fresh number hle := by rw [Layout.freed, hsound.fresh number hle]; rfl
  unlisted := hsound.unlisted
  children pid process hprocess := by
    rw [Kernel.eventFree_of_ne (Event.childFinished_ne_other pid place)]
    exact hsound.children pid process hprocess
  unborn pid hle := by
    rw [Kernel.eventFree_of_ne (Event.childFinished_ne_other pid place)]
    exact hsound.unborn pid hle

/-- `process_create`. -/
theorem processCreate (hsound : Sound kernel layout) (parentId : Nat) :
    Sound (kernel.processCreate parentId) layout where
  threads := hsound.threads
  lined := hsound.lined
  awaited := hsound.awaited.init (Option.isSome_eq_false_iff.mp (hsound.unborn _ (Nat.le_refl _)) |>
    Option.isNone_iff_eq_none.mp)
  owned := hsound.owned.create (hsound.unlisted _ (Nat.le_refl _)) parentId
  exits := hsound.exits
  fresh := hsound.fresh
  unlisted pid hle := by
    have hne : pid ≠ kernel.currentPid := Nat.ne_of_gt hle
    exact (update_of_ne hne ..).trans (hsound.unlisted pid (Nat.le_of_succ_le hle))
  children pid process hprocess := by
    by_cases hsame : pid = kernel.currentPid
    · rw [hsame, Kernel.processCreate_event]
      rfl
    · rw [Kernel.processCreate_of_ne hsame] at hprocess
      have hkept : (kernel.processCreate parentId).events (.childFinished pid) =
          kernel.events (.childFinished pid) :=
        Kernel.eventInit_of_ne fun heq => hsame (Event.childFinished.inj heq)
      rw [hkept]
      exact hsound.children pid process hprocess
  unborn pid hle := by
    have hne : pid ≠ kernel.currentPid := Nat.ne_of_gt hle
    have hkept : (kernel.processCreate parentId).events (.childFinished pid) =
        kernel.events (.childFinished pid) :=
      Kernel.eventInit_of_ne fun heq => hne (Event.childFinished.inj heq)
    rw [hkept]
    exact hsound.unborn pid (Nat.le_of_succ_le hle)

/-- A thread is made for a process and runs. -/
theorem addThread (hsound : Sound kernel layout) (hprocess : kernel.processes pid = some process) :
    ∃ next, (kernel.processAddThread pid >>= fun added =>
        added.threadRun (kernel.nextThread, .user)) = .ok next ∧ next.current = kernel.current ∧
      next.nextThread = kernel.nextThread + 1 ∧
      next.processes = update kernel.processes pid
        (some { process with threads := process.threads ++ [kernel.nextThread] }) ∧
      Sound next (update layout kernel.nextThread (some (pid, .user))) := by
  have hnew := hsound.fresh kernel.nextThread (Nat.le_refl _)
  generalize hmade : (kernel.setThread (kernel.nextThread, .kernel) ⟨some pid, .stopped, none⟩).setThread
    (kernel.nextThread, .user) ⟨some pid, .stopped, none⟩ = made
  generalize hprocesses : update kernel.processes pid
    (some { process with threads := process.threads ++ [kernel.nextThread] }) = processes
  generalize hadded : ({ made with nextThread := kernel.nextThread + 1, processes } : Kernel) = added
  have hadd : kernel.processAddThread pid = .ok added := by
    rw [Kernel.processAddThread, Kernel.process, hprocess, ok_bind, ← hadded, ← hprocesses, ← hmade]
    rfl
  have huser : added.threads (kernel.nextThread, .user) = some ⟨some pid, .stopped, none⟩ := by
    rw [← hadded, ← hmade]
    exact (Kernel.setThread_threads ..).trans (if_pos rfl)
  have hkernel : added.threads (kernel.nextThread, .kernel) = some ⟨some pid, .stopped, none⟩ := by
    rw [← hadded, ← hmade]
    exact (Kernel.setThread_threads ..).trans ((if_neg (by simp)).trans
      ((Kernel.setThread_threads ..).trans (if_pos rfl)))
  rw [hadd, ok_bind, Kernel.threadRun_eq huser (by simp)]
  refine ⟨_, rfl, by rw [← hadded, ← hmade]; rfl, by rw [← hadded]; rfl, by rw [← hadded]; rfl, ?_⟩
  constructor
  case threads =>
    rintro ⟨other, level⟩
    by_cases hsame : other = kernel.nextThread
    · subst hsame
      rw [update_self]
      cases level
      · exact (Kernel.setThread_threads ..).trans (if_pos rfl)
      · exact (Kernel.setThread_threads ..).trans ((if_neg (by simp)).trans hkernel)
    · rw [update_of_ne hsame, ← hsound.threads (other, level), ← hadded, ← hmade]
      exact (Kernel.setThread_of_ne hsame).trans
        ((Kernel.setThread_of_ne hsame).trans (Kernel.setThread_of_ne hsame))
  case lined =>
    rw [Layout.place_update, ← hadded, ← hmade]
    refine @Lined.push (kernel.nextThread, .user) _ _ _ hsound.lined ?_
    rw [Layout.place, hnew]
    rfl
  case awaited =>
    have hsleeps : layout.sleeps kernel.nextThread = none := by
      rw [Layout.sleeps, hnew]
      rfl
    have hsame : update layout.sleeps kernel.nextThread Phase.user.sleeps = layout.sleeps := by
      rw [update_eq_self_iff, hsleeps]
      rfl
    rw [Layout.sleeps_update, hsame, ← hadded, ← hmade]
    exact hsound.awaited
  case owned =>
    have howner : layout.owner kernel.nextThread = none := by
      rw [Layout.owner, hnew]
      rfl
    rw [Layout.owner_set, ← hadded, ← hprocesses]
    exact hsound.owned.add hprocess howner
  case exits =>
    intro other owner hother
    by_cases hsame : other = kernel.nextThread
    · rw [hsame, update_self, Option.some.injEq, Prod.mk.injEq] at hother
      cases hother.2
    · rw [update_of_ne hsame] at hother
      rw [← hadded, ← hmade]
      exact hsound.exits other owner hother
  case fresh =>
    intro other hle
    rw [← hadded] at hle
    have hne : other ≠ kernel.nextThread := Nat.ne_of_gt hle
    rw [update_of_ne hne]
    exact hsound.fresh other (Nat.le_of_succ_le hle)
  case unlisted =>
    intro other hle
    rw [← hadded, ← hmade] at hle
    have hnone := hsound.unlisted other hle
    have hne : other ≠ pid := by
      rintro rfl
      cases hprocess.symm.trans hnone
    rw [← hadded, ← hprocesses]
    exact (update_of_ne hne ..).trans hnone
  case children =>
    intro other found hfound
    rw [← hadded, ← hprocesses] at hfound
    rw [← hadded, ← hmade]
    by_cases hsame : other = pid
    · exact hsound.children other process (hsame ▸ hprocess)
    · exact hsound.children other found ((update_of_ne hsame ..).symm.trans hfound)
  case unborn =>
    intro other hle
    rw [← hadded, ← hmade] at hle ⊢
    exact hsound.unborn other hle

end Sound

end PKernel.Processes

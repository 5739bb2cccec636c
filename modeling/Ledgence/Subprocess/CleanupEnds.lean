import Ledgence.Subprocess.CleanupRuns

/-! Where a cleanup ends: every call after a success succeeds and changes nothing, and what failed or
was dropped can still be finished by a later call. -/
namespace Ledgence
namespace Subprocess
namespace World

def Action.caller : Action → Option Caller
  | .terminate caller _ _ => some caller
  | .close _ _ => some .close
  | .resume _ | .abandon | .removalEnds _ _ => none

structure Unchanged (w u : World) : Prop where
  child : u.child = w.child
  resources : u.resources = w.resources
  removals : u.removals = w.removals
  registered : u.registered = w.registered

variable {w u : World} {caller : Caller} {action : Action} {task : Nat}

theorem Unchanged.trans {v : World} (h : Unchanged w u) (h' : Unchanged u v) : Unchanged w v where
  child := h'.child.trans h.child
  resources := h'.resources.trans h.resources
  removals := h'.removals.trans h.removals
  registered := h'.registered.trans h.registered

/- After a success. -/

theorem Finished.terminate (h : w.Finished) (caller : Caller) (kill : KillAnswer) (gone : Bool) :
    w.terminate caller kill gone = w.release caller := by
  have confirmed : w.confirmGroup gone = w := by
    obtain ⟨child, resources, removals, call, registered, termination, cleanup, log⟩ := w
    have group : resources.groupError = none := h.group
    rw [World.confirmGroup]
    split
    · rw [← group]
    · rfl
  have drained : { w with resources := { w.resources with logs := false } } = w := by
    obtain ⟨child, resources, removals, call, registered, termination, cleanup, log⟩ := w
    have logs : resources.logs = false := h.logs
    rw [← logs]
  rw [World.terminate, (signalGroup_resources kill).2 h.reaped, if_pos h.reaped, confirmed, World.awaitLogs,
    if_neg (by simp [h.logs]), World.afterLogs, drained]
  simp [h.group, h.workspace]

theorem Finished.release_unchanged (h : w.Finished) : Unchanged w (w.release caller) := by
  obtain ⟨child, resources, removals, call, registered, termination, cleanup, log⟩ := w
  have workspace : resources.workspace = false := h.workspace
  have artifact : resources.artifact = false := h.artifact
  have unregistered : registered = false := h.registered
  have same : { resources with workspace := false, artifact := false } = resources := by
    obtain ⟨artifact', workspace', workspaceCleanup, logs, reaped, attempted, groupError⟩ := resources
    simp at workspace artifact
    simp [workspace, artifact]
  cases caller with
  | supervisor => exact ⟨rfl, same, rfl, by simp [release, finish, unregistered]⟩
  | close => exact ⟨rfl, same, rfl, by simp [release, finish, unregistered]⟩

theorem Finished.of_unchanged (h : w.Finished) (same : Unchanged w u) (idle : u.call = none)
    {more : List Event} (log : u.log = w.log ++ more) : u.Finished where
  reaped := same.resources ▸ h.reaped
  group := same.resources ▸ h.group
  logs := same.resources ▸ h.logs
  joined := same.resources ▸ h.joined
  workspace := same.resources ▸ h.workspace
  artifact := same.resources ▸ h.artifact
  registered := same.registered ▸ h.registered
  idle := idle
  removed := same.removals ▸ h.removed
  returned := by
    obtain ⟨caller, seen⟩ := h.returned
    exact ⟨caller, by simp [log, seen]⟩

theorem release_idle : (w.release caller).call = none := by
  cases caller with
  | supervisor => rfl
  | close => rfl

theorem Finished.step (h : w.Finished) (sound : w.Sound) (stepped : w.step action = some u) :
    u.Finished ∧ Unchanged w u ∧
      u.log = w.log ++ (action.caller.toList.map fun caller => .returned caller true) := by
  have released (caller : Caller) : (w.release caller).Finished ∧ Unchanged w (w.release caller) ∧
      (w.release caller).log = w.log ++ [.returned caller true] :=
    ⟨h.of_unchanged h.release_unchanged release_idle release_log, h.release_unchanged, release_log⟩
  cases action with
  | terminate caller kill gone =>
    obtain rfl : w.release caller = u := by simpa [World.step, h.idle, h.terminate] using stepped
    exact released caller
  | close kill gone =>
    simp only [World.step, h.idle] at stepped
    split at stepped
    · obtain rfl := Option.some.inj stepped
      have same : Unchanged w (w.note (.returned .close true)) := ⟨rfl, rfl, rfl, rfl⟩
      exact ⟨h.of_unchanged same h.idle rfl, same, rfl⟩
    · split at stepped
      · obtain rfl := Option.some.inj stepped
        have same : Unchanged w { w.note (.returned .close true) with cleanup := some (.ok ()) } :=
          ⟨rfl, rfl, rfl, rfl⟩
        exact ⟨h.of_unchanged same h.idle rfl, same, rfl⟩
      · obtain rfl : w.release .close = u := by simpa [h.terminate] using stepped
        exact released .close
  | resume answer => simp [World.step, h.idle] at stepped
  | abandon => simp [World.step, h.idle] at stepped
  | removalEnds task result =>
    simp only [World.step] at stepped
    split at stepped
    · next runs =>
      have joins := sound.running task runs
      simp [h.joined] at joins
    · simp at stepped

theorem Finished.run (h : w.Finished) (sound : w.Sound) {later : List Action} (ran : w.run later = some u) :
    u.Finished ∧ Unchanged w u ∧
      u.log = w.log ++ ((later.filterMap Action.caller).map fun caller => .returned caller true) := by
  induction later generalizing w with
  | nil =>
    obtain rfl : w = u := by simpa [World.run] using ran
    exact ⟨h, ⟨rfl, rfl, rfl, rfl⟩, by simp⟩
  | cons action later ih =>
    obtain ⟨next, stepped, rest⟩ := run_cons.mp ran
    obtain ⟨finished, same, log⟩ := h.step sound stepped
    obtain ⟨finished', same', log'⟩ := ih finished (sound.step stepped) rest
    refine ⟨finished', same.trans same', ?_⟩
    rw [log', log, List.append_assoc, ← List.map_append]
    cases told : action.caller with
    | none => simp [told]
    | some caller => simp [told]

theorem Finished.answers (h : w.Finished) (calls : action.caller.isSome = true) :
    (w.step action).isSome = true := by
  cases action with
  | terminate caller kill gone => simp [World.step, h.idle]
  | close kill gone =>
    simp only [World.step, h.idle]
    split
    · rfl
    · split
      · rfl
      · rfl
  | resume | abandon | removalEnds => simp [Action.caller] at calls

/- Before a success. -/

def CanFinish (w : World) : Prop :=
  ∃ later u, w.run later = some u ∧ u.Finished

theorem CanFinish.of_step (h : u.CanFinish) (action : Action) (stepped : w.step action = some u) :
    w.CanFinish := by
  obtain ⟨later, v, ran, finished⟩ := h
  exact ⟨action :: later, v, run_cons.mpr ⟨u, stepped, ran⟩, finished⟩

theorem Finished.canFinish (h : w.Finished) : w.CanFinish :=
  ⟨[], w, rfl, h⟩

structure Clearing (w : World) : Prop where
  reaped : w.resources.reaped = true
  group : w.resources.groupError = none
  workspace : w.resources.workspace = true
  known : ∀ task, w.resources.workspaceCleanup = some task → task < w.removals.length
  untold : w.termination ≠ some (.ok ()) ∧ w.cleanup ≠ some (.ok ())

theorem canFinish_removed (h : w.Clearing) (calls : w.call = some (caller, .removal))
    (logs : w.resources.logs = false) (joins : w.resources.workspaceCleanup = some task)
    (ended : w.removals[task]? = some (Removal.ended .removed)) : w.CanFinish := by
  have ready : Ready { w.note (.completed (.removal task)) with
      resources := { w.resources with workspaceCleanup := none } } :=
    ⟨h.reaped, h.group, logs, rfl, task, ended⟩
  refine (ready.release caller).canFinish.of_step (.resume .removalDone) ?_
  simp [World.step, calls, World.resume, joins, ended, removalError]

theorem canFinish_running (h : w.Clearing) (calls : w.call = some (caller, .removal))
    (logs : w.resources.logs = false) (joins : w.resources.workspaceCleanup = some task)
    (runs : w.removals[task]? = some Removal.running) : w.CanFinish := by
  have known := h.known task joins
  have ended : CanFinish { w with removals := w.removals.set task (.ended .removed) } := by
    refine canFinish_removed ⟨h.reaped, h.group, h.workspace, ?_, h.untold⟩ calls logs joins ?_
    · intro t joined
      simpa using h.known t joined
    · simp [List.getElem?_set_self known]
  refine ended.of_step (.removalEnds task .removed) ?_
  simp [World.step, runs]

theorem canFinish_fresh (h : w.Clearing) (joined : w.resources.workspaceCleanup = none) (caller : Caller) :
    (w.afterLogs caller).CanFinish := by
  have spawned : w.afterLogs caller =
      ({ w with
        resources := { w.resources with logs := false, workspaceCleanup := some w.removals.length }
        removals := w.removals ++ [Removal.running] } : World).suspend caller .removal
          (.removal w.removals.length) := by
    simp [World.afterLogs, h.group, h.workspace, World.awaitRemoval, joined]
  rw [spawned]
  refine canFinish_running ⟨h.reaped, h.group, h.workspace, ?_, h.untold⟩ rfl rfl rfl ?_
  · intro t joins
    obtain rfl : w.removals.length = t := by simpa [World.suspend, World.note] using joins
    simp [World.suspend, World.note]
  · simp [World.suspend, World.note]

theorem Clearing.confirmGroup (h : w.Clearing) (gone : Bool) : (w.confirmGroup gone).Clearing := by
  rw [World.confirmGroup]
  split
  · exact ⟨h.reaped, rfl, h.workspace, h.known, h.untold⟩
  · exact h

theorem close_of_reaped (reaped : w.resources.reaped = true) (idle : w.call = none)
    (untold : w.termination ≠ some (.ok ()) ∧ w.cleanup ≠ some (.ok ())) (kill : KillAnswer) (gone : Bool) :
    w.step (.close kill gone) = some ((w.confirmGroup gone).awaitLogs .close) := by
  simp only [World.step, idle, if_neg untold.1, if_neg untold.2, World.terminate,
    (signalGroup_resources kill).2 reaped, if_pos reaped]

/-- After a removal that failed, `close` removes the directory again. -/
theorem canFinish_again (h : w.Clearing) (idle : w.call = none) (logs : w.resources.logs = false)
    (joined : w.resources.workspaceCleanup = none) : w.CanFinish := by
  have fresh := canFinish_fresh (h.confirmGroup false) joined .close
  refine CanFinish.of_step (u := (w.confirmGroup false).awaitLogs .close) ?_ (.close .gone false)
    (close_of_reaped h.reaped idle h.untold .gone false)
  have drained : (w.confirmGroup false).resources.logs = false := logs
  rw [World.awaitLogs, if_neg (by simp [drained])]
  exact fresh

theorem canFinish_failed (h : w.Clearing) (calls : w.call = some (caller, .removal))
    (logs : w.resources.logs = false) (joins : w.resources.workspaceCleanup = some task)
    {result : RemovalResult} (ended : w.removals[task]? = some (Removal.ended result)) {error : Error}
    (failed : removalError result = some error) : w.CanFinish := by
  refine CanFinish.of_step (u := World.finish { w.note (.completed (.removal task)) with
    resources := { w.resources with workspaceCleanup := none } } caller (.error error)) ?_
      (.resume .removalDone) ?_
  · cases caller with
    | supervisor =>
      exact canFinish_again ⟨h.reaped, h.group, h.workspace, by simp [finish, World.note],
        by simp [finish], h.untold.2⟩
        rfl logs rfl
    | close =>
      exact canFinish_again ⟨h.reaped, h.group, h.workspace, by simp [finish, World.note],
        h.untold.1, by simp [finish]⟩
        rfl logs rfl
  · simp [World.step, calls, World.resume, joins, ended, failed]

theorem canFinish_afterLogs (h : w.Clearing) (caller : Caller) : (w.afterLogs caller).CanFinish := by
  cases joins : w.resources.workspaceCleanup with
  | none => exact canFinish_fresh h joins caller
  | some task =>
    have joining : w.afterLogs caller =
        ({ w with resources := { w.resources with logs := false } } : World).suspend caller .removal
          (.removal task) := by
      simp [World.afterLogs, h.group, h.workspace, World.awaitRemoval, joins]
    have known := h.known task joins
    have clearing : Clearing
        (({ w with resources := { w.resources with logs := false } } : World).suspend caller
        .removal (.removal task)) :=
      ⟨h.reaped, h.group, h.workspace, h.known, h.untold⟩
    rw [joining]
    cases removal : w.removals[task] with
    | running =>
      exact canFinish_running clearing rfl rfl joins
        (by simp [World.suspend, World.note, removal, known])
    | ended result =>
      have ended : w.removals[task]? = some (Removal.ended result) := by
        rw [List.getElem?_eq_getElem known, removal]
      cases result with
      | removed => exact canFinish_removed clearing rfl rfl joins ended
      | failed message => exact canFinish_failed clearing rfl rfl joins ended rfl
      | lost => exact canFinish_failed clearing rfl rfl joins ended rfl

theorem canFinish_awaitLogs (h : w.Clearing) (caller : Caller) : (w.awaitLogs caller).CanFinish := by
  rw [World.awaitLogs]
  split
  · have drained : Clearing ((w.suspend caller .logs .logs).note (.completed .logs)) :=
      ⟨h.reaped, h.group, h.workspace, h.known, h.untold⟩
    exact (canFinish_afterLogs drained caller).of_step (.resume .logsDone)
      (by simp [World.step, World.suspend, World.resume])
  · exact canFinish_afterLogs h caller

/-- A call of `close` from any point where no call is suspended: the group is gone, the child exits,
the logs end and the directory is removed. -/
theorem canFinish_close (core : w.Core) (owned : w.Owned) (idle : w.call = none) : w.CanFinish := by
  have untold : w.termination ≠ some (.ok ()) ∧ w.cleanup ≠ some (.ok ()) := by
    refine ⟨fun told => ?_, fun told => ?_⟩
    · simpa [owned.workspace] using core.told (.inl told)
    · simpa [owned.workspace] using core.told (.inr told)
  cases reaped : w.resources.reaped with
  | true =>
    have confirmed : Clearing (w.confirmGroup true) :=
      ⟨reaped, rfl, owned.workspace, fun task joins => (core.joining task joins).1, untold⟩
    exact (canFinish_awaitLogs confirmed .close).of_step (.close .gone true)
      (close_of_reaped reaped idle untold .gone true)
  | false =>
    have signalled := core.signalGroup .gone
    have alive := (signalGroup_resources (w := w) .gone).1.trans reaped
    have kept : (w.signalGroup .gone).Owned := by
      cases signalled.settled with
      | inl owned => exact owned
      | inr finished => simp [finished.reaped] at alive
    have waits : w.step (.close .gone true) =
        some { w.signalGroup .gone with call := some (.close, .wait) } := by
      simp [World.step, idle, untold, World.terminate, alive]
    have clearing : Clearing (World.confirmGroup { (w.signalGroup .gone).note .reaped with
        child := { (w.signalGroup .gone).child with reaped := true }
        resources := { (w.signalGroup .gone).resources with reaped := true }
        call := some (.close, .wait) } true) := by
      refine ⟨rfl, rfl, kept.workspace, fun task joins => (signalled.joining task joins).1, ?_, ?_⟩
      · intro told
        simpa [kept.workspace] using signalled.told (.inl told)
      · intro told
        simpa [kept.workspace] using signalled.told (.inr told)
    exact ((canFinish_awaitLogs clearing .close).of_step (.resume (.exited true)) rfl).of_step
      (.close .gone true)
      waits

theorem Sound.canFinish (h : w.Sound) : w.CanFinish := by
  cases h.settled with
  | inr finished => exact finished.canFinish
  | inl owned =>
    cases calls : w.call with
    | none => exact canFinish_close h.toCore owned calls
    | some call =>
      have abandoned : w.step .abandon = some { w with call := none } := by simp [World.step, calls]
      have sound := h.step abandoned
      exact (canFinish_close sound.toCore
        ⟨owned.workspace, owned.artifact, owned.registered⟩ rfl).of_step .abandon
        abandoned

/- Every run from the child that was spawned. -/

theorem Core.one_removal (h : w.Core) {other : Nat} (runs : w.removals[task]? = some Removal.running)
    (runs' : w.removals[other]? = some Removal.running) : task = other := by
  have joins := h.running task runs
  rw [h.running other runs'] at joins
  exact (Option.some.inj joins).symm

theorem count_signalled {log : List Event} (orderly : log.Pairwise Event.Admits) :
    log.count .signalled ≤ 1 := by
  induction log with
  | nil => simp
  | cons event log ih =>
    obtain ⟨admits, rest⟩ := List.pairwise_cons.mp orderly
    by_cases first : event = .signalled
    · subst first
      have never : Event.signalled ∉ log := fun again => admits _ again
      simp [List.count_eq_zero_of_not_mem never]
    · rw [List.count_cons_of_ne first]
      exact ih rest

/-- Wherever the futures of its calls were dropped, the cleanup keeps the order of its events, owns
everything until all is done, can be finished by a later call, and is at rest after a success. -/
theorem cleanup_survives (pid : Nat) (logs : Bool) {actions : List Action} {w : World}
    (ran : (start pid logs).run actions = some w) :
    w.log.count .signalled ≤ 1 ∧ w.log.Pairwise Event.Admits ∧
      (∀ task other : Nat, w.removals[task]? = some Removal.running →
        w.removals[other]? = some Removal.running →
        task = other) ∧
      (∀ caller, .returned caller true ∈ w.log → w.Finished) ∧
      (w.Owned ∨ w.Finished) ∧ w.CanFinish ∧
      (w.Finished → (∀ action, action.caller.isSome = true → (w.step action).isSome = true) ∧
        ∀ later u, w.run later = some u → Unchanged w u ∧
          u.log = w.log ++ ((later.filterMap Action.caller).map fun caller => .returned caller true)) := by
  have sound := (start_sound pid logs).run ran
  refine ⟨count_signalled sound.orderly, sound.orderly, fun task other => sound.toCore.one_removal, ?_,
    sound.settled, sound.canFinish, ?_⟩
  · intro caller returned
    exact sound.toCore.finished (sound.records _ returned)
  · intro finished
    refine ⟨fun action => finished.answers, ?_⟩
    intro later u ran'
    obtain ⟨_, same, log⟩ := finished.run sound ran'
    exact ⟨same, log⟩

/-- Both futures are dropped, the second after the removal of the directory has started. -/
theorem cleanup_survives_dropped : ∃ w, (start 4242 true).run
    [.terminate .supervisor .signalled false, .abandon, .close .gone false, .resume (.exited false),
      .resume .logsDone, .abandon] = some w ∧ w.log.count .signalled ≤ 1 ∧ w.CanFinish := by
  refine ⟨_, rfl, ?_⟩
  have survives := @cleanup_survives 4242 true [.terminate .supervisor .signalled false, .abandon,
    .close .gone false, .resume (.exited false), .resume .logsDone, .abandon] _ rfl
  exact ⟨survives.1, survives.2.2.2.2.2.1⟩

end World
end Subprocess
end Ledgence

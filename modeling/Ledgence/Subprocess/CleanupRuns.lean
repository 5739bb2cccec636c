import Ledgence.Subprocess.Cleanup

/-! Every run of the cleanup, wherever its futures are dropped: what is recorded at an await is enough
for the next call to go on. -/
namespace Ledgence
namespace Subprocess

/-- The first event may come before the second: the group is signalled once, before the child is
reaped, and no handle is polled after it completed. -/
def Event.Admits : Event → Event → Prop
  | .signalled, .signalled | .reaped, .signalled => False
  | .completed ended, .polled handle | .completed ended, .completed handle => ended ≠ handle
  | _, _ => True

def Resources.Holds (resources : Resources) : Handle → Prop
  | .logs => resources.logs = true
  | .removal task => resources.workspaceCleanup = some task

def Await.Fits (resources : Resources) : Await → Prop
  | .wait => True
  | .logs | .aborted => resources.reaped = true ∧ resources.logs = true
  | .removal => resources.reaped = true ∧ resources.groupError = none ∧ resources.logs = false ∧
    ∃ task, resources.workspaceCleanup = some task

namespace World
variable {w u : World} {caller : Caller} {event : Event} {task : Nat}

structure Finished (w : World) : Prop where
  reaped : w.resources.reaped = true
  group : w.resources.groupError = none
  logs : w.resources.logs = false
  joined : w.resources.workspaceCleanup = none
  workspace : w.resources.workspace = false
  artifact : w.resources.artifact = false
  registered : w.registered = false
  idle : w.call = none
  removed : ∃ task : Nat, w.removals[task]? = some (Removal.ended .removed)
  returned : ∃ caller, .returned caller true ∈ w.log

structure Owned (w : World) : Prop where
  workspace : w.resources.workspace = true
  artifact : w.resources.artifact = true
  registered : w.registered = true

def Records (w : World) : Event → Prop
  | .signalled => w.resources.groupSignalAttempted = true
  | .reaped => w.resources.reaped = true
  | .polled _ | .returned _ false => True
  | .completed .logs => w.resources.logs = false
  | .completed (.removal task) =>
    task < w.removals.length ∧ w.resources.workspaceCleanup ≠ some task
  | .returned _ true => w.resources.workspace = false

structure Core (w : World) : Prop where
  orderly : w.log.Pairwise Event.Admits
  records : ∀ event ∈ w.log, w.Records event
  running : ∀ task : Nat, w.removals[task]? = some Removal.running → w.resources.workspaceCleanup = some task
  joining : ∀ task, w.resources.workspaceCleanup = some task →
    task < w.removals.length ∧ w.resources.workspace = true ∧ w.resources.logs = false
  told : w.termination = some (.ok ()) ∨ w.cleanup = some (.ok ()) → w.resources.workspace = false
  settled : w.Owned ∨ w.Finished

structure Sound (w : World) : Prop extends w.Core where
  calling : ∀ caller point, w.call = some (caller, point) → w.Owned ∧ point.Fits w.resources

theorem start_sound (pid : Nat) (logs : Bool) : (start pid logs).Sound where
  orderly := List.Pairwise.nil
  records := by simp [start]
  running := by simp [start]
  joining := by simp [start]
  told := by simp [start]
  settled := .inl ⟨rfl, rfl, rfl⟩
  calling := by simp [start]

theorem Core.owned (h : w.Core) (kept : w.resources.workspace = true) : w.Owned := by
  cases h.settled with
  | inl owned => exact owned
  | inr finished => simp [finished.workspace] at kept

theorem Core.finished (h : w.Core) (gone : w.resources.workspace = false) : w.Finished := by
  cases h.settled with
  | inl owned => simp [owned.workspace] at gone
  | inr finished => exact finished

/- The log. -/

theorem Records.mono (recorded : w.Records event)
    (signalled : w.resources.groupSignalAttempted = true → u.resources.groupSignalAttempted = true)
    (reaped : w.resources.reaped = true → u.resources.reaped = true)
    (logs : w.resources.logs = false → u.resources.logs = false)
    (removed : ∀ task, task < w.removals.length ∧ w.resources.workspaceCleanup ≠ some task →
      task < u.removals.length ∧ u.resources.workspaceCleanup ≠ some task)
    (gone : w.resources.workspace = false → u.resources.workspace = false) : u.Records event := by
  cases event with
  | signalled => exact signalled recorded
  | reaped => exact reaped recorded
  | polled handle => trivial
  | completed handle =>
    cases handle with
    | logs => exact logs recorded
    | removal task => exact removed task recorded
  | returned caller ok =>
    cases ok with
    | true => exact gone recorded
    | false => trivial

theorem Core.admits_signalled (h : w.Core) (alive : w.resources.reaped = false)
    (fresh : w.resources.groupSignalAttempted = false) {earlier : Event} (seen : earlier ∈ w.log) :
    earlier.Admits .signalled := by
  have recorded := h.records earlier seen
  cases earlier with
  | signalled => simp [Records, fresh] at recorded
  | reaped => simp [Records, alive] at recorded
  | polled | completed | returned => trivial

theorem Core.ne_of_completed (h : w.Core) {ended handle : Handle} (held : w.resources.Holds handle)
    (seen : .completed ended ∈ w.log) : ended ≠ handle := by
  rintro rfl
  have recorded := h.records _ seen
  cases ended with
  | logs =>
    have gone : w.resources.logs = false := recorded
    simp [Resources.Holds, gone] at held
  | removal task => exact recorded.2 held

theorem Core.admits_polled (h : w.Core) {handle : Handle} (held : w.resources.Holds handle)
    {earlier : Event} (seen : earlier ∈ w.log) : earlier.Admits (.polled handle) := by
  cases earlier with
  | completed ended => exact h.ne_of_completed held seen
  | signalled | reaped | polled | returned => trivial

theorem Core.admits_completed (h : w.Core) (handle : Handle) (held : w.resources.Holds handle)
    {earlier : Event} (seen : earlier ∈ w.log) : earlier.Admits (.completed handle) := by
  cases earlier with
  | completed ended => exact h.ne_of_completed held seen
  | signalled | reaped | polled | returned => trivial

theorem admits_reaped (earlier : Event) : earlier.Admits .reaped := by
  cases earlier with
  | signalled | reaped | polled | completed | returned => trivial

theorem admits_returned (earlier : Event) (ok : Bool) : earlier.Admits (.returned caller ok) := by
  cases earlier with
  | signalled | reaped | polled | completed | returned => trivial

theorem pairwise_note {log : List Event} (h : log.Pairwise Event.Admits)
    (admitted : ∀ earlier ∈ log, earlier.Admits event) : (log ++ [event]).Pairwise Event.Admits := by
  refine List.pairwise_append.mpr ⟨h, List.pairwise_singleton _ _, ?_⟩
  intro earlier seen later last
  rw [List.mem_singleton.mp last]
  exact admitted earlier seen

/-- An event that the fields do not tell about, or already tell about. -/
theorem Core.note (h : w.Core) (admitted : ∀ earlier ∈ w.log, earlier.Admits event)
    (recorded : w.Records event) : (w.note event).Core where
  orderly := pairwise_note h.orderly admitted
  records := by
    intro e seen
    cases List.mem_append.mp seen with
    | inl before => exact h.records e before
    | inr last =>
      rw [List.mem_singleton.mp last]
      exact recorded
  running := h.running
  joining := h.joining
  told := h.told
  settled := by
    cases h.settled with
    | inl owned => exact .inl ⟨owned.workspace, owned.artifact, owned.registered⟩
    | inr finished =>
      obtain ⟨caller, seen⟩ := finished.returned
      exact .inr { finished with returned := ⟨caller, List.mem_append_left _ seen⟩ }

theorem Sound.note_polled (h : w.Sound) {handle : Handle} (held : w.resources.Holds handle) :
    (w.note (.polled handle)).Sound where
  toCore := h.toCore.note (fun _ seen => h.toCore.admits_polled held seen) trivial
  calling := by
    intro c point calls
    obtain ⟨owned, fits⟩ := h.calling c point calls
    exact ⟨⟨owned.workspace, owned.artifact, owned.registered⟩, fits⟩

/- The pieces of a call. -/

theorem Core.signalGroup (h : w.Core) (kill : KillAnswer) : (w.signalGroup kill).Core := by
  rw [World.signalGroup]
  split
  · next condition =>
    obtain ⟨alive, fresh⟩ := condition
    have owned : w.Owned := by
      cases h.settled with
      | inl owned => exact owned
      | inr finished => simp [finished.reaped] at alive
    cases found : w.child.id.filter fun pid => 1 < pid ∧ pid ≤ i32Max with
    | none =>
      refine ⟨h.orderly, ?_, h.running, h.joining, h.told,
        .inl ⟨owned.workspace, owned.artifact, owned.registered⟩⟩
      exact fun event seen => (h.records event seen).mono (fun _ => rfl) id id (fun _ => id) id
    | some pid =>
      refine ⟨pairwise_note h.orderly fun _ seen => h.admits_signalled alive fresh seen, ?_,
        h.running, h.joining,
        h.told, .inl ⟨owned.workspace, owned.artifact, owned.registered⟩⟩
      intro event seen
      cases List.mem_append.mp seen with
      | inl before =>
        exact (h.records event before).mono (fun _ => rfl) id id (fun _ => id) id
      | inr last =>
        rw [List.mem_singleton.mp last]
        rfl
  · exact h

theorem signalGroup_resources (kill : KillAnswer) :
    (w.signalGroup kill).resources.reaped = w.resources.reaped ∧
      (w.resources.reaped = true → w.signalGroup kill = w) := by
  rw [World.signalGroup]
  split
  · next condition =>
    refine ⟨?_, fun reaped => by simp [reaped] at condition⟩
    cases w.child.id.filter fun pid => 1 < pid ∧ pid ≤ i32Max with
    | none => rfl
    | some pid => rfl
  · exact ⟨rfl, fun _ => rfl⟩

theorem Core.confirmGroup (h : w.Core) (gone : Bool) : (w.confirmGroup gone).Core := by
  rw [World.confirmGroup]
  split
  · refine ⟨h.orderly, h.records, h.running, h.joining, h.told, ?_⟩
    cases h.settled with
    | inl owned => exact .inl ⟨owned.workspace, owned.artifact, owned.registered⟩
    | inr finished => exact .inr { finished with group := rfl }
  · exact h

theorem confirmGroup_reaped (gone : Bool) :
    (w.confirmGroup gone).resources.reaped = w.resources.reaped := by
  rw [World.confirmGroup]
  split
  · rfl
  · rfl

theorem Core.suspend (h : w.Core) (owned : w.Owned) (point : Await) (fits : point.Fits w.resources)
    {handle : Handle} (held : w.resources.Holds handle) : (w.suspend caller point handle).Sound := by
  have noted := h.note (fun _ seen => h.admits_polled held seen) trivial
  refine ⟨⟨noted.orderly, noted.records, noted.running, noted.joining, noted.told, ?_⟩, ?_⟩
  · exact .inl ⟨owned.workspace, owned.artifact, owned.registered⟩
  · intro c p calls
    obtain ⟨rfl, rfl⟩ : caller = c ∧ point = p := by simpa [World.suspend] using calls
    exact ⟨⟨owned.workspace, owned.artifact, owned.registered⟩, fits⟩

theorem Core.finish_error (h : w.Core) (owned : w.Owned) (caller : Caller) (error : Error) :
    (w.finish caller (.error error)).Sound := by
  have noted : (w.note (.returned caller false)).Core := h.note (fun _ _ => admits_returned _ _) trivial
  cases caller with
  | supervisor =>
    refine ⟨⟨noted.orderly, noted.records, noted.running, noted.joining, ?_, ?_⟩, ?_⟩
    · intro told
      refine h.told (.inr ?_)
      simpa [finish, World.note] using told
    · exact .inl ⟨owned.workspace, owned.artifact, by simp [finish, World.note, owned.registered,
        Except.isOk, Except.toBool]⟩
    · simp [finish]
  | close =>
    refine ⟨⟨noted.orderly, noted.records, noted.running, noted.joining, ?_, ?_⟩, ?_⟩
    · intro told
      refine h.told (.inl ?_)
      simpa [finish, World.note] using told
    · exact .inl ⟨owned.workspace, owned.artifact, by simp [finish, World.note, owned.registered,
        Except.isOk, Except.toBool]⟩
    · simp [finish]

/-- What `release` is called with. -/
structure Ready (w : World) : Prop where
  reaped : w.resources.reaped = true
  group : w.resources.groupError = none
  logs : w.resources.logs = false
  joined : w.resources.workspaceCleanup = none
  removed : ∃ task : Nat, w.removals[task]? = some (Removal.ended .removed)

theorem Ready.release (h : w.Ready) (caller : Caller) : (w.release caller).Finished := by
  cases caller with
  | supervisor =>
    exact ⟨h.reaped, h.group, h.logs, h.joined, rfl, rfl,
      by simp [World.release, finish, Except.isOk, Except.toBool], rfl, h.removed,
      .supervisor, by simp [World.release, finish, note, Except.isOk, Except.toBool]⟩
  | close =>
    exact ⟨h.reaped, h.group, h.logs, h.joined, rfl, rfl,
      by simp [World.release, finish, Except.isOk, Except.toBool], rfl, h.removed,
      .close, by simp [World.release, finish, note, Except.isOk, Except.toBool]⟩

theorem release_log : (w.release caller).log = w.log ++ [.returned caller true] := by
  cases caller with
  | supervisor => rfl
  | close => rfl

theorem Core.release (h : w.Core) (ready : w.Ready) (caller : Caller) : (w.release caller).Sound := by
  have finished := ready.release caller
  refine ⟨⟨?_, ?_, ?_, ?_, fun _ => finished.workspace, .inr finished⟩, ?_⟩
  · rw [release_log]
    exact pairwise_note h.orderly fun _ _ => admits_returned _ _
  · intro event seen
    rw [release_log] at seen
    cases List.mem_append.mp seen with
    | inl before =>
      cases caller with
      | supervisor => exact (h.records event before).mono id id id (fun _ => id) fun _ => rfl
      | close => exact (h.records event before).mono id id id (fun _ => id) fun _ => rfl
    | inr last =>
      rw [List.mem_singleton.mp last]
      exact finished.workspace
  · intro task runs
    have none_left := h.running task (by cases caller with | supervisor => exact runs | close => exact runs)
    simp [ready.joined] at none_left
  · intro task joins
    simp [finished.joined] at joins
  · intro c point calls
    simp [finished.idle] at calls

theorem Core.awaitRemoval (h : w.Core) (owned : w.Owned) (reaped : w.resources.reaped = true)
    (group : w.resources.groupError = none) (logs : w.resources.logs = false) (caller : Caller) :
    (w.awaitRemoval caller).Sound := by
  rw [World.awaitRemoval]
  cases joins : w.resources.workspaceCleanup with
  | some task => exact h.suspend owned .removal ⟨reaped, group, logs, task, joins⟩ joins
  | none =>
    have spawned : Core { w with
        resources := { w.resources with workspaceCleanup := some w.removals.length }
        removals := w.removals ++ [Removal.running] } := by
      refine ⟨h.orderly, ?_, ?_, ?_, h.told, .inl ⟨owned.workspace, owned.artifact, owned.registered⟩⟩
      · intro event seen
        refine (h.records event seen).mono id id id ?_ id
        intro task before
        refine ⟨?_, ?_⟩
        · rw [List.length_append]
          omega
        · intro same
          simp only [Option.some.injEq] at same
          omega
      · intro task runs
        by_cases old : task < w.removals.length
        · rw [List.getElem?_append_left old] at runs
          simp [h.running task runs] at joins
        · have last : task < (w.removals ++ [Removal.running]).length :=
            (List.getElem?_eq_some_iff.mp runs).1
          rw [List.length_append, List.length_singleton] at last
          have same : task = w.removals.length := by omega
          rw [same]
      · intro task joined
        simp only [Option.some.injEq] at joined
        subst joined
        exact ⟨by simp, owned.workspace, logs⟩
    exact spawned.suspend ⟨owned.workspace, owned.artifact, owned.registered⟩ .removal
      ⟨reaped, group, logs, _, rfl⟩ rfl

theorem Core.afterLogs (h : Core { w with resources := { w.resources with logs := false } })
    (reaped : w.resources.reaped = true) (caller : Caller) : (w.afterLogs caller).Sound := by
  rw [World.afterLogs]
  cases group : w.resources.groupError with
  | some failure =>
    have owned : Owned { w with resources := { w.resources with logs := false } } := by
      cases h.settled with
      | inl owned => exact owned
      | inr finished => simpa [group] using finished.group
    simpa [group] using h.finish_error owned caller failure.error
  | none =>
    cases kept : w.resources.workspace with
    | true =>
      have owned := h.owned kept
      simpa [group, kept] using h.awaitRemoval owned reaped group rfl caller
    | false =>
      have finished := h.finished kept
      simpa [group, kept] using h.release ⟨reaped, group, rfl, finished.joined, finished.removed⟩ caller

theorem Core.without_logs (h : w.Core) : Core { w with resources := { w.resources with logs := false } } := by
  refine ⟨h.orderly, ?_, h.running, ?_, h.told, ?_⟩
  · intro event seen
    exact (h.records event seen).mono id id (fun _ => rfl) (fun _ => id) id
  · intro task joins
    obtain ⟨known, kept, _⟩ := h.joining task joins
    exact ⟨known, kept, rfl⟩
  · cases h.settled with
    | inl owned => exact .inl ⟨owned.workspace, owned.artifact, owned.registered⟩
    | inr finished => exact .inr { finished with logs := rfl }

theorem Core.awaitLogs (h : w.Core) (reaped : w.resources.reaped = true) (caller : Caller) :
    (w.awaitLogs caller).Sound := by
  rw [World.awaitLogs]
  split
  · next logs =>
    have owned : w.Owned := by
      cases h.settled with
      | inl owned => exact owned
      | inr finished => simp [finished.logs] at logs
    exact h.suspend owned .logs ⟨reaped, logs⟩ logs
  · exact h.without_logs.afterLogs reaped caller

theorem Core.terminate (h : w.Core) (caller : Caller) (kill : KillAnswer) (gone : Bool) :
    (w.terminate caller kill gone).Sound := by
  have signalled := h.signalGroup kill
  rw [World.terminate]
  split
  · next reaped =>
    exact (signalled.confirmGroup gone).awaitLogs ((confirmGroup_reaped gone).trans reaped) caller
  · next alive =>
    have owned : (w.signalGroup kill).Owned := by
      cases signalled.settled with
      | inl owned => exact owned
      | inr finished => exact absurd finished.reaped alive
    refine ⟨⟨signalled.orderly, signalled.records, signalled.running, signalled.joining, signalled.told,
      .inl ⟨owned.workspace, owned.artifact, owned.registered⟩⟩, ?_⟩
    intro c point calls
    obtain ⟨rfl, rfl⟩ : caller = c ∧ Await.wait = point := by simpa using calls
    exact ⟨⟨owned.workspace, owned.artifact, owned.registered⟩, trivial⟩

/- What an await answers. -/

theorem Sound.exited (h : w.Sound) (owned : w.Owned) (gone : Bool) :
    ((World.confirmGroup { w.note .reaped with
        child := { w.child with reaped := true }
        resources := { w.resources with reaped := true } } gone).awaitLogs caller).Sound := by
  have core : Core { w.note .reaped with
      child := { w.child with reaped := true }
      resources := { w.resources with reaped := true } } := by
    refine ⟨pairwise_note h.orderly fun _ _ => admits_reaped _, ?_, h.running, h.joining, h.told,
      .inl ⟨owned.workspace, owned.artifact, owned.registered⟩⟩
    intro event seen
    cases List.mem_append.mp seen with
    | inl before => exact (h.records event before).mono id (fun _ => rfl) id (fun _ => id) id
    | inr last =>
      rw [List.mem_singleton.mp last]
      rfl
  exact (core.confirmGroup gone).awaitLogs (confirmGroup_reaped gone) caller

theorem Sound.logsDone (h : w.Sound) (owned : w.Owned) (reaped : w.resources.reaped = true)
    (logs : w.resources.logs = true) : ((w.note (.completed .logs)).afterLogs caller).Sound := by
  have core : Core { w.note (.completed .logs) with
      resources := { w.resources with logs := false } } := by
    refine ⟨pairwise_note h.orderly fun _ seen => h.toCore.admits_completed .logs logs seen, ?_,
      h.running, ?_, h.told,
      .inl ⟨owned.workspace, owned.artifact, owned.registered⟩⟩
    · intro event seen
      cases List.mem_append.mp seen with
      | inl before => exact (h.records event before).mono id id (fun _ => rfl) (fun _ => id) id
      | inr last =>
        rw [List.mem_singleton.mp last]
        rfl
    · intro task joins
      obtain ⟨known, kept, _⟩ := h.joining task joins
      exact ⟨known, kept, rfl⟩
  exact Core.afterLogs core reaped caller

theorem Sound.removalDone (h : w.Sound) (owned : w.Owned) {result : RemovalResult}
    (joins : w.resources.workspaceCleanup = some task)
    (ended : w.removals[task]? = some (Removal.ended result)) :
    Core { w.note (.completed (.removal task)) with
      resources := { w.resources with workspaceCleanup := none } } := by
  obtain ⟨known, kept, logs⟩ := h.joining task joins
  refine ⟨pairwise_note h.orderly fun _ seen =>
      h.toCore.admits_completed (.removal task) joins seen, ?_, ?_, ?_, h.told,
    .inl ⟨owned.workspace, owned.artifact, owned.registered⟩⟩
  · intro event seen
    cases List.mem_append.mp seen with
    | inl before =>
      exact (h.records event before).mono id id id (fun t old => ⟨old.1, by simp⟩) id
    | inr last =>
      rw [List.mem_singleton.mp last]
      exact ⟨known, by simp⟩
  · intro t runs
    have same := h.running t runs
    rw [joins, Option.some.injEq] at same
    subst same
    have other : w.removals[task]? = some Removal.running := runs
    simp [ended] at other
  · intro t other
    simp at other

theorem Sound.resume (h : w.Sound) {point : Await} (calls : w.call = some (caller, point))
    {answer : Answer} (resumed : w.resume caller point answer = some u) : u.Sound := by
  obtain ⟨owned, fits⟩ := h.calling caller point calls
  cases answer with
  | pending =>
    cases awaits : w.awaited point with
    | none =>
      obtain rfl : w = u := by simpa [World.resume, awaits] using resumed
      exact h
    | some handle =>
      obtain rfl : w.note (.polled handle) = u := by simpa [World.resume, awaits] using resumed
      refine h.note_polled ?_
      cases point with
      | wait => simp [awaited] at awaits
      | logs | aborted =>
        obtain rfl : Handle.logs = handle := by simpa [awaited] using awaits
        exact fits.2
      | removal =>
        obtain ⟨_, _, _, task, joins⟩ := fits
        obtain rfl : Handle.removal task = handle := by simpa [awaited, joins] using awaits
        exact joins
  | exited gone =>
    rw [World.resume] at resumed
    split at resumed
    · obtain rfl := Option.some.inj resumed
      exact h.exited owned gone
    · simp at resumed
  | waitFailed error =>
    rw [World.resume] at resumed
    split at resumed
    · obtain rfl := Option.some.inj resumed
      exact h.toCore.finish_error owned caller error
    · simp at resumed
  | logsDone =>
    rw [World.resume] at resumed
    split at resumed
    · next drains =>
      obtain rfl := Option.some.inj resumed
      cases drains with
      | inl logs =>
        subst logs
        exact h.logsDone owned fits.1 fits.2
      | inr aborted =>
        subst aborted
        exact h.logsDone owned fits.1 fits.2
    · simp at resumed
  | logsElapsed =>
    rw [World.resume] at resumed
    split at resumed
    · next logs =>
      subst logs
      obtain rfl := Option.some.inj resumed
      exact h.toCore.suspend owned .aborted fits fits.2
    · simp at resumed
  | removalDone =>
    cases point with
    | wait | logs | aborted => simp [World.resume] at resumed
    | removal =>
      obtain ⟨reaped, group, logs, task, joins⟩ := fits
      cases known : w.removals[task]? with
      | none => simp [World.resume, joins, known] at resumed
      | some removal =>
        cases removal with
        | running => simp [World.resume, joins, known] at resumed
        | ended result =>
          have core := h.removalDone owned joins known
          cases failed : removalError result with
          | some error =>
            simp only [World.resume, joins, known, failed, Option.some.injEq] at resumed
            subst resumed
            exact core.finish_error ⟨owned.workspace, owned.artifact, owned.registered⟩ caller error
          | none =>
            simp only [World.resume, joins, known, failed, Option.some.injEq] at resumed
            subst resumed
            obtain rfl : result = .removed := by
              cases result with
              | removed => rfl
              | failed message => simp [removalError] at failed
              | lost => simp [removalError] at failed
            exact core.release ⟨reaped, group, logs, rfl, task, known⟩ caller

theorem Sound.removalEnds (h : w.Sound) (runs : w.removals[task]? = some Removal.running)
    (result : RemovalResult) :
    Sound { w with removals := w.removals.set task (.ended result) } := by
  have joins := h.running task runs
  have owned := h.toCore.owned (h.joining task joins).2.1
  refine ⟨⟨h.orderly, ?_, ?_, ?_, h.told, .inl ⟨owned.workspace, owned.artifact, owned.registered⟩⟩, ?_⟩
  · intro event seen
    exact (h.records event seen).mono id id id (fun t old => ⟨by simpa using old.1, old.2⟩) id
  · intro t running
    by_cases same : task = t
    · rw [← same]
      exact joins
    · refine h.running t ?_
      simpa [List.getElem?_set_ne same] using running
  · intro t joined
    obtain ⟨known, kept, logs⟩ := h.joining t joined
    exact ⟨by simpa using known, kept, logs⟩
  · intro c point calls
    obtain ⟨owned, fits⟩ := h.calling c point calls
    exact ⟨⟨owned.workspace, owned.artifact, owned.registered⟩, fits⟩

theorem Sound.note_returned (h : w.Sound) (gone : w.resources.workspace = false) :
    (w.note (.returned caller true)).Sound where
  toCore := h.toCore.note (fun _ _ => admits_returned _ _) gone
  calling := by
    intro c point calls
    obtain ⟨owned, fits⟩ := h.calling c point calls
    exact ⟨⟨owned.workspace, owned.artifact, owned.registered⟩, fits⟩

theorem Sound.step (h : w.Sound) {action : Action} (stepped : w.step action = some u) : u.Sound := by
  cases action with
  | terminate caller kill gone =>
    cases idle : w.call with
    | some call => simp [World.step, idle] at stepped
    | none =>
      obtain rfl : w.terminate caller kill gone = u := by simpa [World.step, idle] using stepped
      exact h.toCore.terminate caller kill gone
  | close kill gone =>
    cases idle : w.call with
    | some call => simp [World.step, idle] at stepped
    | none =>
      simp only [World.step, idle] at stepped
      split at stepped
      · next closed =>
        obtain rfl := Option.some.inj stepped
        exact h.note_returned (h.told (.inr closed))
      · split at stepped
        · next terminated =>
          obtain rfl := Option.some.inj stepped
          have noted : (w.note (.returned .close true)).Sound := h.note_returned (h.told (.inl terminated))
          refine ⟨⟨noted.orderly, noted.records, noted.running, noted.joining,
            fun _ => h.told (.inl terminated), ?_⟩, ?_⟩
          · cases noted.settled with
            | inl owned => exact .inl ⟨owned.workspace, owned.artifact, owned.registered⟩
            | inr finished => exact .inr { finished with }
          · intro c point calls
            obtain ⟨owned, fits⟩ := h.calling c point calls
            exact ⟨⟨owned.workspace, owned.artifact, owned.registered⟩, fits⟩
        · obtain rfl := Option.some.inj stepped
          exact h.toCore.terminate .close kill gone
  | resume answer =>
    cases calls : w.call with
    | none => simp [World.step, calls] at stepped
    | some call =>
      obtain ⟨caller, point⟩ := call
      exact h.resume calls (by simpa [World.step, calls] using stepped)
  | abandon =>
    cases calls : w.call with
    | none => simp [World.step, calls] at stepped
    | some call =>
      obtain rfl : { w with call := none } = u := by simpa [World.step, calls] using stepped
      have owned := (h.calling call.1 call.2 calls).1
      refine ⟨⟨h.orderly, h.records, h.running, h.joining, h.told,
        .inl ⟨owned.workspace, owned.artifact, owned.registered⟩⟩, ?_⟩
      intro c point again
      simp at again
  | removalEnds task result =>
    simp only [World.step] at stepped
    split at stepped
    · next runs =>
      obtain rfl := Option.some.inj stepped
      exact h.removalEnds runs result
    · simp at stepped

theorem run_cons {action : Action} {actions : List Action} :
    w.run (action :: actions) = some u ↔ ∃ next, w.step action = some next ∧ next.run actions = some u := by
  simp [World.run, Option.bind_eq_some_iff]

theorem Sound.run (h : w.Sound) {actions : List Action} (ran : w.run actions = some u) : u.Sound := by
  induction actions generalizing w with
  | nil =>
    obtain rfl : w = u := by simpa [World.run] using ran
    exact h
  | cons action actions ih =>
    obtain ⟨next, stepped, rest⟩ := run_cons.mp ran
    exact ih (h.step stepped) rest

end World
end Subprocess
end Ledgence

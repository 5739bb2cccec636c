import Ledgence.Attempts.Local

/-! The local execution asks once for permission, and invokes only inside the window of a grant. -/
open Kit Kit.Checked

namespace Ledgence.Attempts.Local

def Reached : LocalStage → Prop
  | .executing | .ending | .quiet => True
  | .unused | .preparing | .asking | .starting _ | .permitted _ => False

def isStarted : LocalEvent → Bool
  | .started _ => true
  | .granted _ _ | .invoked _ => false

def NotInvoked (l : Local) : Prop :=
  ∀ now, .invoked now ∉ l.trace

/-- Some grant of the attempt's own source opens a window that the instant is in. -/
def Granted (l : Local) (now : Nat) : Prop :=
  ∃ began source, .granted began source ∈ l.trace ∧ now < startBefore began source

structure Sound (encodings : Encodings) (attempt : Option TaskAdmissionAttempt) (l : Local) :
    Prop where
  once : l.trace.countP isStarted ≤ if l.requested = true then 1 else 0
  begun : ∀ command, .started command ∈ l.trace → ∃ a ∈ attempt, command = a.command
  owned : ∀ began source, .granted began source ∈ l.trace →
    ∃ a ∈ attempt, a.matchesSource encodings source = .ok true
  permit : ∀ limit, l.stage = .permitted limit →
    ∃ began source, .granted began source ∈ l.trace ∧ limit = startBefore began source
  before : ¬ Reached l.stage → l.NotInvoked
  within : ∀ now, .invoked now ∈ l.trace → attempt = none ∨ l.Granted now
  past : l.result.isSome = true → l.stage = .ending ∨ l.stage = .quiet
  deferred : l.result = some .notInvoked → l.NotInvoked
  truthful : ∀ failed probeFailure, l.result = some (.reported (.failed failed) probeFailure) →
    failed.executionMayHaveStarted = false → attempt.isSome = true → l.NotInvoked

variable {encodings : Encodings} {attempt : Option TaskAdmissionAttempt} {a : TaskAdmissionAttempt}
  {context : ExecutionContext} {l : Local}

theorem new_sound : new.Sound encodings attempt where
  once := by simp [new]
  begun := by simp [new]
  owned := by simp [new]
  permit := by simp [new]
  before := by simp [new, NotInvoked]
  within := by simp [new]
  past := by simp [new]
  deferred := by simp [new]
  truthful := by simp [new]

/-- To give a result ends the supervised part. It must not hide an invocation. -/
theorem Sound.finish (sound : l.Sound encodings attempt) {result : Execution}
    (deferred : result = .notInvoked → l.NotInvoked)
    (truthful : ∀ failed probeFailure, result = .reported (.failed failed) probeFailure →
      failed.executionMayHaveStarted = false → attempt.isSome = true → l.NotInvoked) :
    (l.finish result).Sound encodings attempt where
  once := sound.once
  begun := sound.begun
  owned := sound.owned
  permit := by simp [Local.finish]
  before := by simp [Local.finish, Reached]
  within := sound.within
  past := by simp [Local.finish]
  deferred h := deferred (by simpa [Local.finish] using h)
  truthful failed probeFailure h := truthful failed probeFailure (by simpa [Local.finish] using h)

theorem Sound.fail (sound : l.Sound encodings attempt) (running : isRunning l.stage = true)
    (error : Error) (phase : Phase) (after : Aftermath) :
    (l.fail context error phase after).Sound encodings attempt := by
  refine sound.finish (by simp) fun failed probeFailure same unstarted _ => ?_
  obtain ⟨rfl, -⟩ : _ = failed ∧ _ = probeFailure := by simpa using same
  have idle : l.stage ≠ .executing := by simpa using unstarted
  refine sound.before fun reached => ?_
  cases stage : l.stage with
  | executing => exact idle stage
  | unused | preparing | asking | starting | permitted => simp [stage, Reached] at reached
  | ending | quiet => simp [stage, isRunning] at running

theorem Sound.lose (sound : l.Sound encodings attempt) : (l.lose context).Sound encodings attempt := by
  refine sound.finish (by simp) fun failed probeFailure same unstarted _ => ?_
  obtain ⟨rfl, -⟩ : _ = failed ∧ _ = probeFailure := by simpa [failure] using same
  simp at unstarted

theorem Sound.move (sound : l.Sound encodings attempt) {stage : LocalStage}
    (unreached : ¬ Reached l.stage)
    (permit : ∀ limit, stage = .permitted limit →
      ∃ began source, .granted began source ∈ l.trace ∧ limit = startBefore began source) :
    { l with stage }.Sound encodings attempt where
  once := sound.once
  begun := sound.begun
  owned := sound.owned
  permit := permit
  before _ := sound.before unreached
  within := sound.within
  past h := by
    obtain ended | ended := sound.past h
    · simp [ended, Reached] at unreached
    · simp [ended, Reached] at unreached
  deferred := sound.deferred
  truthful := sound.truthful

theorem Sound.request (sound : l.Sound encodings attempt) :
    { l with requested := true }.Sound encodings attempt where
  once := by
    have := sound.once
    by_cases requested : l.requested = true
    · simpa [requested] using this
    · simp only [requested, Bool.false_eq_true, if_false] at this
      simp only [if_true]
      omega
  begun := sound.begun
  owned := sound.owned
  permit := sound.permit
  before := sound.before
  within := sound.within
  past := sound.past
  deferred := sound.deferred
  truthful := sound.truthful

theorem Sound.remember (sound : l.Sound encodings attempt) (source : Option WorkerSource) :
    { l with source }.Sound encodings attempt :=
  ⟨sound.once, sound.begun, sound.owned, sound.permit, sound.before, sound.within, sound.past,
    sound.deferred, sound.truthful⟩

theorem Sound.begin (sound : l.Sound encodings (some a)) (stage : l.stage = .asking)
    (checked : WorkerResult Unit) (client : Result Unit) (now : Nat) (after : Aftermath) :
    (l.begin context encodings a checked client now after).Sound encodings (some a) := by
  have running : isRunning l.stage = true := by simp [stage, isRunning]
  have unreached : ¬ Reached l.stage := by simp [stage, Reached]
  unfold Local.begin
  split
  · exact sound.fail running _ _ _
  split
  · exact sound.fail running _ _ _
  split
  · exact sound.fail running _ _ _
  rename_i fresh
  split
  · exact sound.request.fail running _ _ _
  refine ⟨?_, ?_, ?_, by simp, fun _ => ?_, ?_, ?_, ?_, ?_⟩
  · have none' := sound.once
    simp only [fresh, Bool.false_eq_true, if_false, Nat.le_zero] at none'
    simp only [if_true]
    rw [List.countP_cons, none']
    simp [isStarted]
  · intro command mem
    simp only [List.mem_cons, LocalEvent.started.injEq] at mem
    obtain rfl | old := mem
    · exact ⟨a, rfl, rfl⟩
    · exact sound.begun command old
  · intro began source mem
    exact sound.owned began source (by simpa using mem)
  · intro now mem
    exact sound.before unreached now (by simpa using mem)
  · intro now mem
    exact absurd (by simpa using mem) (sound.before unreached now)
  · intro some'
    obtain ended | ended := sound.past some'
    · simp [ended] at stage
    · simp [ended] at stage
  · intro h now mem
    exact sound.before unreached now (by simpa using mem)
  · intro failed probeFailure h unstarted governed now mem
    exact sound.before unreached now (by simpa using mem)

theorem Sound.record (sound : l.Sound encodings (some a)) {source : WorkerSource}
    (owned : a.matchesSource encodings source = .ok true) (began : Nat) :
    { l with source := some source, trace := .granted began source :: l.trace }.Sound encodings
      (some a) where
  once := by simpa [isStarted] using sound.once
  begun command mem := sound.begun command (by simpa using mem)
  owned b s mem := by
    simp only [List.mem_cons, LocalEvent.granted.injEq] at mem
    obtain ⟨rfl, rfl⟩ | old := mem
    · exact ⟨a, rfl, owned⟩
    · exact sound.owned b s old
  permit limit h := by
    obtain ⟨b, s, mem, same⟩ := sound.permit limit h
    exact ⟨b, s, List.mem_cons_of_mem _ mem, same⟩
  before unreached now mem := sound.before unreached now (by simpa using mem)
  within now mem := by
    obtain plain | ⟨b, s, mem, window⟩ := sound.within now (by simpa using mem)
    · exact .inl plain
    · exact .inr ⟨b, s, List.mem_cons_of_mem _ mem, window⟩
  past := sound.past
  deferred h now mem := sound.deferred h now (by simpa using mem)
  truthful failed probeFailure h unstarted governed now mem :=
    sound.truthful failed probeFailure h unstarted governed now (by simpa using mem)

theorem Sound.grant (sound : l.Sound encodings (some a)) {began : Nat}
    (stage : l.stage = .starting began) (source : WorkerSource) (now : Nat) (after : Aftermath) :
    (l.grant context encodings a source began now after).Sound encodings (some a) := by
  have running : isRunning l.stage = true := by simp [stage, isRunning]
  have unreached : ¬ Reached l.stage := by simp [stage, Reached]
  unfold Local.grant
  split
  · exact sound.fail running _ _ _
  · exact sound.fail running _ _ _
  · rename_i owned
    have recorded := sound.record owned began
    split
    · exact recorded.fail running _ _ _
    · refine recorded.move unreached fun limit same => ?_
      rw [LocalStage.permitted.injEq] at same
      exact ⟨began, source, by simp, same.symm⟩

theorem Sound.admitted (sound : l.Sound encodings (some a)) {began : Nat}
    (stage : l.stage = .starting began) (reply : StartReply) (now : Nat) (after : Aftermath) :
    (l.admitted context encodings a reply began now after).Sound encodings (some a) := by
  have running : isRunning l.stage = true := by simp [stage, isRunning]
  have unreached : ¬ Reached l.stage := by simp [stage, Reached]
  unfold Local.admitted
  split
  · exact sound.fail running _ _ _
  · exact sound.fail running _ _ _
  split
  · exact sound.grant stage _ now after
  split
  · exact sound.fail running _ _ _
  · exact (sound.remember _).finish (fun _ => sound.before unreached) (by simp)

theorem Sound.answer (sound : l.Sound encodings (some a)) {began : Nat}
    (stage : l.stage = .starting began) (checked : WorkerResult Unit) (reply : Result StartReply)
    (now : Nat) (after : Aftermath) :
    (l.answer context encodings a checked reply began now after).Sound encodings (some a) := by
  have running : isRunning l.stage = true := by simp [stage, isRunning]
  unfold Local.answer
  split
  · exact sound.fail running _ _ _
  · exact sound.fail running _ _ _
  · exact sound.admitted stage _ now after

/-- An invocation is inside the window of its permit, when it needs one. -/
theorem Sound.invoke (sound : l.Sound encodings attempt) (running : isRunning l.stage = true)
    (unreached : ¬ Reached l.stage) (checked : WorkerResult Unit) {permit : Option Nat}
    (needed : permit = none → attempt = none)
    (held : ∀ limit ∈ permit, l.stage = .permitted limit) (now : Nat) (after : Aftermath) :
    (l.invoke context checked permit now after).Sound encodings attempt := by
  unfold Local.invoke
  split
  · exact sound.fail running _ _ _
  split
  · exact sound.fail running _ _ _
  rename_i inside
  have none' : l.result = none := by
    by_contra some'
    obtain ended | ended := sound.past (Option.isSome_iff_ne_none.mpr some')
    · simp [ended, Reached] at unreached
    · simp [ended, Reached] at unreached
  refine ⟨by simpa [isStarted] using sound.once, fun command mem => ?_, fun began source mem => ?_,
    by simp, by simp [Reached], fun then' mem => ?_, by simp [none'], by simp [none'],
    by simp [none']⟩
  · exact sound.begun command (by simpa using mem)
  · exact sound.owned began source (by simpa using mem)
  · simp only [List.mem_cons, LocalEvent.invoked.injEq] at mem
    obtain rfl | old := mem
    · cases permit with
      | none => exact .inl (needed rfl)
      | some limit =>
        have open' : then' < limit := by simpa using inside
        obtain ⟨began, source, mem, same⟩ := sound.permit limit (held limit rfl)
        exact .inr ⟨began, source, List.mem_cons_of_mem _ mem, same ▸ open'⟩
    · exact absurd old (sound.before unreached then')

/-- Every action of the supervisor, and every action around it, keeps the record sound. -/
theorem Sound.step (sound : l.Sound encodings attempt) (action : LocalAction) :
    (l.step context encodings attempt action).Sound encodings attempt := by
  unfold Local.step
  split
  · rename_i stage
    exact sound.move (by simp [stage, Reached]) (by simp)
  · rename_i stage
    exact sound.begin stage _ _ _ _
  · rename_i stage
    exact sound.answer stage _ _ _ _
  · rename_i stage
    refine sound.invoke (by simp [stage, isRunning]) (by simp [stage, Reached]) _ (by simp) ?_ _ _
    simpa using stage
  · rename_i stage
    exact sound.invoke (by simp [stage, isRunning]) (by simp [stage, Reached]) _ (by simp)
      (by simp) _ _
  · exact sound.finish (by simp) (by simp)
  · exact sound.finish (by simp) (by simp)
  · split
    · rename_i running
      exact sound.fail running _ _ _
    · exact sound
  · split
    · exact sound.lose
    · exact sound
  · exact ⟨sound.once, sound.begun, sound.owned, by simp, by simp [Reached], sound.within,
      fun _ => .inr rfl, sound.deferred, sound.truthful⟩
  · exact ⟨sound.once, sound.begun, sound.owned, sound.permit, sound.before, sound.within,
      sound.past, sound.deferred, sound.truthful⟩
  · exact sound

/- What has ended. -/

def Over (l : Local) : Prop :=
  isRunning l.stage = false

/-- After the supervisor nothing is invoked, and what is quiescent stays so. -/
theorem Over.step (past : l.Over) (action : LocalAction) :
    (l.step context encodings attempt action).Over ∧
      (l.step context encodings attempt action).trace = l.trace ∧
      (l.step context encodings attempt action).source = l.source ∧
      (l.isQuiescent = true → (l.step context encodings attempt action).isQuiescent = true) := by
  have kept : l.Over ∧ l.trace = l.trace ∧ l.source = l.source ∧
      (l.isQuiescent = true → l.isQuiescent = true) := ⟨past, rfl, rfl, id⟩
  rw [Over] at past
  unfold Local.step
  split
  · rename_i stage
    simp [stage, isRunning] at past
  · rename_i stage
    simp [stage, isRunning] at past
  · rename_i stage
    simp [stage, isRunning] at past
  · rename_i stage
    simp [stage, isRunning] at past
  · rename_i stage
    simp [stage, isRunning] at past
  · rename_i stage
    simp [stage, isRunning] at past
  · rename_i stage
    simp [stage, isRunning] at past
  · split
    · rename_i running
      simp [running] at past
    · exact kept
  · split
    · rename_i running
      simp [running] at past
    · exact kept
  · exact ⟨rfl, rfl, rfl, fun _ => rfl⟩
  · exact ⟨past, rfl, rfl, id⟩
  · exact kept

theorem Sound.over_of_result (sound : l.Sound encodings attempt) {result : Execution}
    (given : l.result = some result) : l.Over := by
  have ended := sound.past (by simp [given])
  rw [Over]
  obtain ended | ended := ended
  · rw [ended, isRunning]
  · rw [ended, isRunning]

theorem Over.of_quiescent (quiescent : l.isQuiescent = true) : l.Over := by
  simp only [isQuiescent, Bool.or_eq_true, decide_eq_true_eq] at quiescent
  rw [Over]
  obtain quiescent | quiescent := quiescent
  · rw [quiescent, isRunning]
  · rw [quiescent, isRunning]

end Ledgence.Attempts.Local

import Ledgence.Attempts.Granted
import Ledgence.Attempts.Process
import Mathlib.Data.List.Induction

/-! Where an invocation has its permission from: the Start that was sent, the grant that answered it
and the instant of the invocation, as actions of the run. -/
open Kit Kit.Checked

namespace Ledgence.Attempts

namespace Local
variable {encodings : Encodings} {attempt : Option TaskAdmissionAttempt} {a : TaskAdmissionAttempt}
  {context : ExecutionContext} {l : Local} {began limit now : Nat} {action : LocalAction}

/-- What one action says about the permission to invoke: a Start is sent by `begin`, a permit is made
from the grant that answers it, and an invocation is inside its permit. -/
structure Told (encodings : Encodings) (attempt : Option TaskAdmissionAttempt) (l : Local)
    (action : LocalAction) (l' : Local) : Prop where
  starting : ∀ began, l'.stage = .starting began → l.stage = .starting began ∨
    ∃ checked client after, action = .begin checked client began after ∧
      l.trace.countP isStarted < l'.trace.countP isStarted
  permitted : ∀ limit, l'.stage = .permitted limit → l.stage = .permitted limit ∨
    ∃ began source authority at' after, l.stage = .starting began ∧
      action = .answer (.ok ()) (.ok (.granted source authority)) at' after ∧
      (∃ a ∈ attempt, a.answers (.granted source authority) = .ok true ∧
        a.matchesSource encodings source = .ok true) ∧ limit = startBefore began source
  invoked : ∀ now, .invoked now ∈ l'.trace → .invoked now ∈ l.trace ∨
    ∃ after, action = .invoke (.ok ()) now after ∧
      (attempt = none ∨ ∃ limit, l.stage = .permitted limit ∧ now < limit)

/-- Nothing new is said where the stage stays, or is none of those of the gate. -/
theorem Told.silent {l' : Local} (stage : l'.stage = l.stage ∨
      (∀ began, l'.stage ≠ .starting began) ∧ ∀ limit, l'.stage ≠ .permitted limit)
    (trace : ∀ now, .invoked now ∈ l'.trace → .invoked now ∈ l.trace) :
    Told encodings attempt l action l' where
  starting began h := by
    obtain same | other := stage
    · exact .inl (same ▸ h)
    · exact absurd h (other.1 began)
  permitted limit h := by
    obtain same | other := stage
    · exact .inl (same ▸ h)
    · exact absurd h (other.2 limit)
  invoked now mem := .inl (trace now mem)

theorem Told.of_ending {l' : Local} (stage : l'.stage = .ending)
    (trace : ∀ now, .invoked now ∈ l'.trace → .invoked now ∈ l.trace) :
    Told encodings attempt l action l' :=
  .silent (.inr ⟨by simp [stage], by simp [stage]⟩) trace

theorem told_begin {checked : WorkerResult Unit} {client : Result Unit} {after : Aftermath} :
    Told encodings (some a) l (.begin checked client now after)
      (l.begin context encodings a checked client now after) := by
  unfold Local.begin
  split
  · exact .of_ending rfl fun _ => id
  split
  · exact .of_ending rfl fun _ => id
  split
  · exact .of_ending rfl fun _ => id
  split
  · exact .of_ending rfl fun _ => id
  · refine ⟨fun began h => ?_, fun limit h => (by cases h), fun then' mem => .inl (by simpa using mem)⟩
    obtain rfl := LocalStage.starting.inj h
    refine .inr ⟨_, _, _, rfl, ?_⟩
    rw [List.countP_cons_of_pos rfl]
    exact Nat.lt_succ_self _

theorem told_answer {checked : WorkerResult Unit} {reply : Result StartReply} {after : Aftermath}
    (stage : l.stage = .starting began) : Told encodings (some a) l (.answer checked reply now after)
      (l.answer context encodings a checked reply began now after) := by
  unfold Local.answer
  split
  · exact .of_ending rfl fun _ => id
  · exact .of_ending rfl fun _ => id
  unfold Local.admitted
  split
  · exact .of_ending rfl fun _ => id
  · exact .of_ending rfl fun _ => id
  rename_i answers
  split
  · rename_i source authority
    unfold Local.grant
    split
    · exact .of_ending rfl fun _ => id
    · exact .of_ending rfl fun _ => id
    rename_i owned
    split
    · exact .of_ending rfl fun _ mem => (List.mem_cons.mp mem).resolve_left fun same => by cases same
    · refine ⟨fun began h => (by cases h), fun limit h => .inr ?_,
        fun then' mem => .inl (by simpa using mem)⟩
      exact ⟨began, source, authority, now, after, stage, rfl, ⟨a, rfl, answers, owned⟩,
        (LocalStage.permitted.inj h).symm⟩
  split
  · exact .of_ending rfl fun _ => id
  · exact .of_ending rfl fun _ => id

theorem told_invoke {checked : WorkerResult Unit} {permit : Option Nat} {after : Aftermath}
    (stage : attempt = none ∨ ∃ limit, l.stage = .permitted limit ∧ permit = some limit) :
    Told encodings attempt l (.invoke checked now after) (l.invoke context checked permit now after) := by
  unfold Local.invoke
  split
  · exact .of_ending rfl fun _ => id
  split
  · exact .of_ending rfl fun _ => id
  · rename_i inside
    refine ⟨fun began h => (by cases h), fun limit h => (by cases h), fun then' mem => ?_⟩
    obtain same | old := List.mem_cons.mp mem
    · obtain rfl := LocalEvent.invoked.inj same
      refine .inr ⟨after, rfl, stage.imp_right fun gated => ?_⟩
      obtain ⟨limit, permitted, rfl⟩ := gated
      exact ⟨limit, permitted, by simpa using inside⟩
    · exact .inl old

theorem told_step : Told encodings attempt l action (l.step context encodings attempt action) := by
  unfold Local.step
  split
  · exact .silent (.inr ⟨by simp, by simp⟩) fun _ => id
  · exact told_begin
  · exact told_answer ‹_›
  · exact told_invoke (.inr ⟨_, ‹_›, rfl⟩)
  · exact told_invoke (.inl rfl)
  · exact .of_ending rfl fun _ => id
  · exact .of_ending rfl fun _ => id
  · split
    · exact .of_ending rfl fun _ => id
    · exact .silent (.inl rfl) fun _ => id
  · split
    · exact .of_ending rfl fun _ => id
    · exact .silent (.inl rfl) fun _ => id
  · exact .silent (.inr ⟨by simp, by simp⟩) fun _ => id
  · exact .silent (.inl rfl) fun _ => id
  · exact .silent (.inl rfl) fun _ => id

end Local

/- Whole attempts. -/

namespace World
variable {encodings : Encodings} {job : Job} {w : World} {began now : Nat} {source : WorkerSource}
  {past : List Action} {action : Action}

@[simp] theorem setClosing_execution (closing : Closing) :
    (w.setClosing closing).execution = w.execution := by
  unfold setClosing
  split <;> rfl

theorem receive_execution : (w.receive job).execution = w.execution := by
  unfold receive
  split
  · rfl
  · rfl
  · split <;> rfl
  · rfl
  · rfl

theorem withdraw_execution : (w.withdraw job).execution = w.execution := by
  unfold withdraw
  split
  · split <;> rfl
  · rfl

theorem sendClose_execution : (w.sendClose job).execution = w.execution := by
  unfold sendClose
  split
  · exact setClosing_execution _
  · rfl

theorem answerClose_execution (reply : Result CloseReply) :
    (w.answerClose encodings job reply).execution = w.execution := by
  unfold answerClose
  split
  · dsimp only
    split
    · split <;> exact setClosing_execution _
    · split <;> exact setClosing_execution _
  · rfl

theorem sendHold_execution : (w.sendHold job).execution = w.execution := by
  unfold sendHold
  split
  · exact setClosing_execution _
  · rfl

theorem answerHold_execution (reply : Result QueueHoldCloseReceipt) :
    (w.answerHold encodings job reply).execution = w.execution := by
  unfold answerHold
  split
  · dsimp only
    split
    · split <;> exact setClosing_execution _
    · split <;> exact setClosing_execution _
  · rfl

theorem sendSettle_execution : w.sendSettle.execution = w.execution := by
  unfold sendSettle
  split
  · split <;> rfl
  · rfl

theorem answerSettle_execution (reply : Result SettleReply) :
    (w.answerSettle reply).execution = w.execution := by
  unfold answerSettle
  split
  · dsimp only
    split
    · split <;> rfl
    · rfl
    · split <;> rfl
  · rfl

theorem watch_execution : (w.watch job).execution = w.execution := by
  unfold watch
  split
  · split <;> rfl
  · rfl

theorem join_execution : w.join.execution = w.execution := by
  unfold join
  split <;> rfl

theorem drain_execution : w.drain.execution = w.execution := by
  unfold drain
  split
  · split
    · split <;> rfl
    · rfl
  · rfl

theorem sendConfirm_execution : w.sendConfirm.execution = w.execution := by
  unfold sendConfirm
  split <;> rfl

theorem answerConfirm_execution (reply : Result TaskState) :
    (w.answerConfirm reply).execution = w.execution := by
  unfold answerConfirm
  split
  · dsimp only
    split
    · rfl
    · rfl
    · split <;> rfl
  · rfl

/-- Only its own actions, and dispatch before them, move the local execution. -/
theorem step_execution (other : ∀ act, action ≠ .work act) :
    (w.step encodings job action).execution = w.execution ∨
      (w.step encodings job action).execution = { w.execution with stage := .preparing } := by
  unfold step
  split
  · exact absurd rfl (other _)
  · unfold dispatch
    split
    · exact .inl rfl
    · exact .inr rfl
    · exact .inl rfl
    · exact .inl rfl
  · split <;> exact .inl rfl
  · exact .inl receive_execution
  · exact .inl withdraw_execution
  · exact .inl sendClose_execution
  · exact .inl (answerClose_execution _)
  · exact .inl sendHold_execution
  · exact .inl (answerHold_execution _)
  · exact .inl sendSettle_execution
  · exact .inl (answerSettle_execution _)
  · exact .inl watch_execution
  · exact .inl join_execution
  · exact .inl drain_execution
  · exact .inl sendConfirm_execution
  · exact .inl (answerConfirm_execution _)
  · exact .inl rfl
  · exact .inl rfl

/-- How many Starts were sent after these actions. -/
def starts (encodings : Encodings) (job : Job) (past : List Action) : Nat :=
  (new.run encodings job past).execution.trace.countP Local.isStarted

/-- The Start was sent at this instant. -/
def Sent (encodings : Encodings) (job : Job) (past : List Action) (began : Nat) : Prop :=
  ∃ before checked client after later,
    past = before ++ .work (.begin checked client began after) :: later ∧
    starts encodings job before <
      starts encodings job (before ++ [.work (.begin checked client began after)])

/-- The Start that was sent at this instant was answered by a grant of the attempt's own source. -/
def Permitted (encodings : Encodings) (job : Job) (past : List Action) (began : Nat)
    (source : WorkerSource) : Prop :=
  ∃ before authority at' after later,
    past = before ++ .work (.answer (.ok ()) (.ok (.granted source authority)) at' after) :: later ∧
    Sent encodings job before began ∧ ∃ a ∈ job.attempt,
      a.answers (.granted source authority) = .ok true ∧ a.matchesSource encodings source = .ok true

/-- The invocation of this instant came after a grant and inside the window that the grant opened,
counted from the Start. -/
def Ran (encodings : Encodings) (job : Job) (past : List Action) (now : Nat) : Prop :=
  ∃ before after later, past = before ++ .work (.invoke (.ok ()) now after) :: later ∧
    ∃ began source, Permitted encodings job before began source ∧ now < startBefore began source

theorem Sent.append (sent : Sent encodings job past began) (more : List Action) :
    Sent encodings job (past ++ more) began := by
  obtain ⟨before, checked, client, after, later, rfl, less⟩ := sent
  exact ⟨before, checked, client, after, later ++ more, by simp, less⟩

theorem Permitted.append (permitted : Permitted encodings job past began source)
    (more : List Action) : Permitted encodings job (past ++ more) began source := by
  obtain ⟨before, authority, at', after, later, rfl, rest⟩ := permitted
  exact ⟨before, authority, at', after, later ++ more, by simp, rest⟩

theorem Ran.append (ran : Ran encodings job past now) (more : List Action) :
    Ran encodings job (past ++ more) now := by
  obtain ⟨before, after, later, rfl, rest⟩ := ran
  exact ⟨before, after, later ++ more, by simp, rest⟩

/-- The stage of the gate and the invocations are explained by the actions so far. -/
structure Explained (encodings : Encodings) (job : Job) (past : List Action) (l : Local) : Prop where
  starting : ∀ began, l.stage = .starting began → Sent encodings job past began
  permitted : ∀ limit, l.stage = .permitted limit → ∃ began source,
    Permitted encodings job past began source ∧ limit = startBefore began source
  invoked : ∀ now, .invoked now ∈ l.trace → job.attempt = none ∨ Ran encodings job past now

theorem Explained.append {l : Local} (explained : Explained encodings job past l)
    (more : List Action) : Explained encodings job (past ++ more) l where
  starting began h := (explained.starting began h).append more
  permitted limit h := by
    obtain ⟨began, source, permitted, same⟩ := explained.permitted limit h
    exact ⟨began, source, permitted.append more, same⟩
  invoked now mem := (explained.invoked now mem).imp_right (·.append more)

theorem run_append (past more : List Action) :
    w.run encodings job (past ++ more) = (w.run encodings job past).run encodings job more :=
  List.foldl_append

theorem explained (encodings : Encodings) (job : Job) (past : List Action) :
    Explained encodings job past (new.run encodings job past).execution := by
  induction past using List.reverseRecOn with
  | nil => exact ⟨by simp [run, new, Local.new], by simp [run, new, Local.new],
      by simp [run, new, Local.new]⟩
  | append_singleton past action ih =>
    have kept := ih.append [action]
    have ran : new.run encodings job (past ++ [action]) =
        (new.run encodings job past).step encodings job action := run_append past [action]
    by_cases work : ∃ act, action = .work act
    · obtain ⟨act, rfl⟩ := work
      have stepped : (new.run encodings job (past ++ [.work act])).execution =
          (new.run encodings job past).execution.step job.context encodings job.attempt act := by
        rw [ran]
        rfl
      have told := @Local.told_step encodings job.attempt job.context
        (new.run encodings job past).execution act
      rw [← stepped] at told
      refine ⟨fun began h => ?_, fun limit h => ?_, fun now mem => ?_⟩
      · obtain same | ⟨checked, client, after, rfl, less⟩ := told.starting began h
        · exact kept.starting began same
        · exact ⟨past, checked, client, after, [], rfl, less⟩
      · obtain same | ⟨began, source, authority, at', after, stage, rfl, owned, rfl⟩ :=
          told.permitted limit h
        · exact kept.permitted limit same
        · exact ⟨began, source, ⟨past, authority, at', after, [], rfl, ih.starting began stage,
            owned⟩, rfl⟩
      · obtain old | ⟨after, rfl, plain | ⟨limit, stage, inside⟩⟩ := told.invoked now mem
        · exact kept.invoked now old
        · exact .inl plain
        · obtain ⟨began, source, permitted, rfl⟩ := ih.permitted limit stage
          exact .inr ⟨past, after, [], rfl, began, source, permitted, inside⟩
    · have other : ∀ act, action ≠ .work act := fun act same => work ⟨act, same⟩
      rw [ran]
      obtain same | moved := @step_execution encodings job (new.run encodings job past) action other
      · rw [same]
        exact kept
      · rw [moved]
        exact ⟨by simp, by simp, kept.invoked⟩

end World
end Ledgence.Attempts

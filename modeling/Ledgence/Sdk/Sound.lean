import Ledgence.Sdk.Acknowledged

/-! Local steps are memoised and acknowledged before use, in every run of one activation. -/
open Kit Kit.Checked

namespace Ledgence.Sdk.World

variable {payload : Payload} {library : Library} {w : World}

theorem Kept.new (payload : Payload) (library : Library) : Kept payload library (new payload) := by
  have unbound : ∀ b, ¬Event.bound b ∈ (World.new payload).trace := fun b h => by cases h
  refine ⟨List.nodup_nil, payload.distinct, fun r hr => hr, fun p hp => (by cases hp),
    fun b h => absurd h (unbound b), fun key _ => rfl, fun r hr => .inl ⟨r, hr, rfl, rfl⟩,
    fun r _ => rfl, ?_, ?_, fun key v h => (by cases h), ?_⟩
  · rintro b b' (h | ⟨r, hr, rfl⟩) used key
    · exact absurd h (unbound b)
    · obtain h | ⟨r', hr', rfl⟩ := used
      · exact absurd h (unbound b')
      · obtain rfl := Table.eq_of_key payload.distinct hr hr' key
        exact .refl
  · refine le_trans (List.toFinset_card_le _) ?_
    simpa [World.new] using payload.few
  · intro after before key v h
    cases after <;> cases h

theorem Answered.new (payload : Payload) : Answered (new payload) :=
  ⟨List.nodup_nil, fun _ _ _ h => (by cases h), fun _ h => (by cases h), fun _ _ h => (by cases h),
    fun _ h => (by cases h)⟩

theorem call_sound (kept : Kept payload library w) (answered : Answered w) (caller : Caller) (c : Call) :
    Kept payload library (w.call payload library caller c).1 ∧
      Answered (w.call payload library caller c).1 := by
  have settled := call_settled kept caller c
  generalize w.call payload library caller c = outcome at settled ⊢
  obtain ⟨w', result⟩ := outcome
  cases result with
  | ok _ => exact ⟨settled.kept, answered.made settled⟩
  | error _ => exact ⟨kept.idle settled, answered.idle settled⟩

theorem step_sound (kept : Kept payload library w) (answered : Answered w) (action : Action) :
    Kept payload library (w.step payload library action) ∧ Answered (w.step payload library action) := by
  cases action with
  | call caller c => exact call_sound kept answered caller c
  | run key move =>
    simp only [step]
    split
    next p found =>
      have advanced : Advanced payload library w p move (w.advance payload library p move) :=
        advance_advanced move
      have stage : w.stage (.step p.key) = some p.stage := by
        have key : p.key = key := Table.find_key found
        simp [World.stage, key, found]
      refine ⟨kept.advanced (Table.find_mem found) advanced, ?_⟩
      obtain same | ⟨live, frame⟩ := advanced.framed
      · rw [same]
        exact answered
      · exact answered.framed stage live frame
    next => exact ⟨kept, answered⟩
  | register key move =>
    simp only [step]
    split
    next f found =>
      have registered : Registered w f (w.advanceFork f move) := advanceFork_registered move
      have stage : w.stage (.fork f.key) = some f.stage := by
        have key : f.key = key := Table.find_key found
        simp [World.stage, key, found]
      refine ⟨kept.registered registered, ?_⟩
      obtain same | ⟨live, frame⟩ := registered.framed
      · rw [same]
        exact answered
      · exact answered.framed stage live frame
    next => exact ⟨kept, answered⟩
  | observe task cancelled =>
    simp only [step]
    split
    next stage found => exact ⟨kept.observe found cancelled, answered.observe found cancelled⟩
    next => exact ⟨kept, answered⟩
  | handle result =>
    refine ⟨?_, answered.handle result⟩
    simp only [step, World.handle]
    split
    · exact kept.congr rfl rfl rfl
    · exact kept.congr rfl rfl rfl
    · exact kept
  | drain =>
    refine ⟨?_, answered.drain⟩
    have aborted : Kept payload library w.abort := kept.congr rfl rfl rfl
    have respond : ∀ output, Kept payload library (w.respond payload output) := by
      intro output
      unfold World.respond
      split
      · exact kept.congr rfl rfl rfl
      · exact aborted
    simp only [step, World.drain]
    split
    · split
      · split
        · exact aborted
        · split
          · exact respond _
          · exact kept.congr rfl rfl rfl
      · exact kept
    · exact kept

theorem run_sound (kept : Kept payload library w) (answered : Answered w) (actions : List Action) :
    Kept payload library (w.run payload library actions) ∧
      Answered (w.run payload library actions) := by
  induction actions generalizing w with
  | nil => exact ⟨kept, answered⟩
  | cons action actions ih =>
    obtain ⟨kept, answered⟩ := step_sound kept answered action
    exact ih kept answered

theorem observe_fatal (t : TaskRef) (stage : Stage) (cancelled : Bool) :
    (w.observe t stage cancelled).fatal = w.fatal := by
  unfold World.observe
  split
  · rfl
  · rfl
  · split <;> rfl
  · rfl
  · rfl

theorem respond_fatal (output : Option Value) : (w.respond payload output).fatal = w.fatal := by
  unfold World.respond
  split <;> rfl

theorem drain_fatal : (w.drain payload).fatal = w.fatal := by
  unfold World.drain
  split
  · split
    · split
      · rfl
      · split
        · exact respond_fatal _
        · rfl
    · rfl
  · rfl

theorem step_fatal (kept : Kept payload library w) (action : Action)
    (h : (w.step payload library action).fatal = none) : w.fatal = none := by
  cases action with
  | call caller c =>
    have settled := call_settled kept caller c
    simp only [step] at h
    generalize w.call payload library caller c = outcome at settled h
    obtain ⟨w', result⟩ := outcome
    cases result with
    | ok _ => exact settled.healthy
    | error _ =>
      obtain ⟨_, _, rfl⟩ := settled
      exact h
  | run key move =>
    simp only [step] at h
    split at h
    next p found =>
      have advanced : Advanced payload library w p move (w.advance payload library p move) :=
        advance_advanced move
      obtain same | ⟨-, frame⟩ := advanced.framed
      · rw [same] at h
        exact h
      · exact (frame.healthy h).1
    next => exact h
  | register key move =>
    simp only [step] at h
    split at h
    next f found =>
      have registered : Registered w f (w.advanceFork f move) := advanceFork_registered move
      obtain same | ⟨-, frame⟩ := registered.framed
      · rw [same] at h
        exact h
      · exact (frame.healthy h).1
    next => exact h
  | observe task cancelled =>
    simp only [step] at h
    split at h
    next stage found => exact (observe_fatal task stage cancelled) ▸ h
    next => exact h
  | handle result =>
    simp only [step, World.handle] at h
    split at h <;> exact h
  | drain =>
    have same : (w.drain payload).fatal = w.fatal := drain_fatal
    exact same ▸ h

theorem run_fatal (kept : Kept payload library w) (answered : Answered w) (actions : List Action)
    (h : (w.run payload library actions).fatal = none) : w.fatal = none := by
  induction actions generalizing w with
  | nil => exact h
  | cons action actions ih =>
    obtain ⟨kept', answered'⟩ := step_sound kept answered action
    exact step_fatal kept action (ih kept' answered' h)

theorem run_append (actions more : List Action) : w.run payload library (actions ++ more) =
    (w.run payload library actions).run payload library more :=
  List.foldl_append

theorem call_after_failure {t : TaskRef} {exc : Exc} (kept : Kept payload library w)
    (answered : Answered w) (failed : .acknowledgementFailed t exc ∈ w.trace) (caller : Caller)
    (c : Call) :
    (∃ e, (w.call payload library caller c).2 = .error e) ∧
      w.Idle (w.call payload library caller c).1 := by
  have settled := call_settled kept caller c
  generalize w.call payload library caller c = outcome at settled ⊢
  obtain ⟨w', result⟩ := outcome
  cases result with
  | ok _ => exact absurd failed (answered.healthy settled.healthy t exc)
  | error e => exact ⟨⟨e, rfl⟩, settled⟩

theorem call_conflict {b b' : Binding} (kept : Kept payload library w) (caller : Caller) {c : Call}
    (used : w.Uses b) (asked : c.binding payload library = some b') (same : b.key = b'.key)
    (other : ¬b.Agrees library b') :
    (∃ e, (w.call payload library caller c).2 = .error e) ∧
      w.Idle (w.call payload library caller c).1 := by
  have settled := call_settled kept caller c
  generalize w.call payload library caller c = outcome at settled ⊢
  obtain ⟨w', result⟩ := outcome
  cases result with
  | ok _ =>
    obtain ⟨b'', bound, key, agrees⟩ := settled.bound b' asked
    have still : w'.Uses b := by
      obtain ⟨es, trace, -⟩ := settled.grown.traced
      obtain old | ⟨r, hr, rfl⟩ := used
      · exact .inl (trace ▸ List.mem_append_right es old)
      · exact .inr ⟨r, settled.grown.records ▸ hr, rfl⟩
    have := settled.kept.agree b b'' still (.inl bound) (same.trans key.symm)
    exact absurd (this.trans agrees) other
  | error e => exact ⟨⟨e, rfl⟩, settled⟩

/-- Every failure there is was raised to an await, once the activation has responded. -/
theorem responded_settled {d : Value} (answered : Answered w) (responded : w.phase = .responded d) :
    (∀ t ∈ w.ownedTasks, w.finished t = true) ∧
      (∀ t exc, .acknowledgementFailed t exc ∉ w.trace) ∧
      ∀ t exc, w.stage t = some (.finished (.error exc)) → .raised t exc ∈ w.trace := by
  obtain ⟨-, healthy, settled⟩ := answered.responded d responded
  refine ⟨fun t ht => (settled t ht).1, answered.healthy healthy, fun t exc failed => ?_⟩
  have observed := (settled t (mem_ownedTasks.mpr ⟨_, failed⟩)).2
  simp only [unobserved, failed, Option.bind_some, Stage.outcome, Bool.not_eq_false',
    List.contains_iff_mem] at observed
  obtain ⟨stage, exc', found, same, raised⟩ := answered.observed t observed
  obtain rfl := Option.some.inj (failed.symm.trans found)
  simp only [Stage.failedWith, Stage.outcome, Bool.and_eq_true, decide_eq_true_eq] at same
  exact same.1 ▸ raised

/- The events of a run. -/

theorem run_concat (actions : List Action) (action : Action) :
    w.run payload library (actions ++ [action]) =
      (w.run payload library actions).step payload library action := by
  rw [run_append]
  rfl

/-- An event was noted by one of the steps, over what the steps before it had noted. -/
theorem run_noted {e : Event} {actions : List Action} {after before : List Event}
    (h : ((new payload).run payload library actions).trace = after ++ e :: before) :
    ∃ earlier action later, actions = earlier ++ action :: later ∧
      ((new payload).run payload library earlier).trace = before ∧
      Traced payload ((new payload).run payload library earlier) action (e :: before) := by
  induction actions using List.reverseRecOn generalizing after with
  | nil => exact absurd h.symm (by simp [run, World.new])
  | append_singleton actions action ih =>
    obtain ⟨kept, -⟩ := run_sound (.new payload library) (.new payload) actions
    have traced := step_traced kept action
    rw [← run_concat, h] at traced
    have onward {newer : List Event}
        (older : newer ++ e :: before = ((new payload).run payload library actions).trace) :
        ∃ earlier action' later, actions ++ [action] = earlier ++ action' :: later ∧
          ((new payload).run payload library earlier).trace = before ∧
          Traced payload ((new payload).run payload library earlier) action' (e :: before) := by
      obtain ⟨earlier, action', later, rfl, rest⟩ := ih older.symm
      exact ⟨earlier, action', later ++ [action], by simp, rest⟩
    obtain same | ⟨e', grown⟩ := traced.grows
    · exact onward same
    · cases after with
      | nil =>
        obtain ⟨rfl, rfl⟩ := List.cons.inj grown
        exact ⟨actions, action, [], rfl, rfl, traced⟩
      | cons e'' after => exact onward (List.cons.inj grown).2

theorem run_asked (actions : List Action) :
    ∀ p ∈ ((new payload).run payload library actions).pending, Asked actions p.key p.stage := by
  induction actions using List.reverseRecOn with
  | nil =>
    intro p mem
    cases mem
  | append_singleton actions action ih =>
    obtain ⟨kept, -⟩ := run_sound (.new payload library) (.new payload) actions
    rw [run_concat]
    exact step_asked kept ih action

theorem run_grows (kept : Kept payload library w) (answered : Answered w) (actions : List Action) :
    w.trace ⊆ (w.run payload library actions).trace := by
  induction actions generalizing w with
  | nil => exact List.Subset.refl _
  | cons action actions ih =>
    obtain ⟨kept', answered'⟩ := step_sound kept answered action
    refine List.Subset.trans ?_ (ih kept' answered')
    obtain same | ⟨e, grown⟩ := (step_traced kept action).grows
    · rw [same]
      exact List.Subset.refl _
    · rw [grown]
      exact List.subset_cons_self _ _

/-- An output is acknowledged, or replayed, by a reply of the orchestrator that says so to the task
that waits for it; any other reply to a commit, a confirmation, a claim or a fork, and a failed
exchange, is a failed acknowledgement. -/
structure Replied (payload : Payload) (library : Library) (actions : List Action) : Prop where
  acknowledged : ∀ after before key output,
    ((new payload).run payload library actions).trace = after ++ .acknowledged key output :: before →
    ∃ earlier reply expired later, actions = earlier ++ .run key (.answer (.ok reply) expired) :: later ∧
      let w := (new payload).run payload library earlier
      w.trace = before ∧ ∃ p record claim observationId, w.entry key = some p ∧
        p.stage = .committing record claim observationId ∧ record.output = output ∧
        Acknowledges payload p claim observationId reply ∧ .run key (.acquire observationId) ∈ earlier ∧
        ∀ c, claim = some c → .run key (.acquire c.1) ∈ earlier
  replayed : ∀ after before key output,
    ((new payload).run payload library actions).trace = after ++ .replayed key output :: before →
    ∃ earlier reply expired later, actions = earlier ++ .run key (.answer (.ok reply) expired) :: later ∧
      let w := (new payload).run payload library earlier
      w.trace = before ∧ ∃ p record effect claimId, w.entry key = some p ∧ p.stage = .claimed claimId ∧
        p.effect = some effect ∧ record.output = output ∧ Replay payload effect key record reply
  committing : ∀ earlier key reply expired later,
    actions = earlier ++ .run key (.answer reply expired) :: later →
    ∀ p record claim observationId, ((new payload).run payload library earlier).entry key = some p →
      p.stage = .committing record claim observationId →
      (¬∃ v, reply = .ok v ∧ Acknowledges payload p claim observationId v) →
      ∃ exc, .acknowledgementFailed (.step key) exc ∈ ((new payload).run payload library actions).trace
  claimed : ∀ earlier key reply expired later,
    actions = earlier ++ .run key (.answer reply expired) :: later →
    ∀ p effect claimId exc, ((new payload).run payload library earlier).entry key = some p →
      p.stage = .claimed claimId → p.effect = some effect →
      claimReply payload library p effect claimId reply = .error exc →
      .acknowledgementFailed (.step key) exc ∈ ((new payload).run payload library actions).trace
  registering : ∀ earlier key reply expired later,
    actions = earlier ++ .register key (.answer reply expired) :: later →
    ∀ f, ((new payload).run payload library earlier).fork key = some f → f.stage = .registering →
      (¬∃ v, reply = .ok v ∧ Forked f.key f.keys v) →
      ∃ exc, .acknowledgementFailed (.fork key) exc ∈ ((new payload).run payload library actions).trace

theorem replied (payload : Payload) (library : Library) (actions : List Action) :
    Replied payload library actions := by
  have stays {earlier later : List Action} {action : Action} {e : Event}
      (split : actions = earlier ++ action :: later)
      (noted : e ∈ (((new payload).run payload library earlier).step payload library action).trace) :
      e ∈ ((new payload).run payload library actions).trace := by
    obtain ⟨kept, answered⟩ := run_sound (.new payload library) (.new payload) (earlier ++ [action])
    have whole : (new payload).run payload library actions =
        ((new payload).run payload library (earlier ++ [action])).run payload library later := by
      rw [split, ← run_append, List.append_assoc]
      rfl
    rw [whole]
    exact run_grows kept answered later (run_concat earlier action ▸ noted)
  refine ⟨fun after before key output h => ?_, fun after before key output h => ?_,
    fun earlier key reply expired later split p record claim observationId found stage refused => ?_,
    fun earlier key reply expired later split p effect claimId exc found stage of refused => ?_,
    fun earlier key reply expired later split f found stage refused => ?_⟩
  · obtain ⟨earlier, action, later, split, rfl, traced⟩ := run_noted h
    obtain ⟨reply, expired, p, record, claim, observationId, rfl, found, stage, same, acknowledges⟩ :=
      traced.acknowledgement rfl
    have asked := run_asked earlier p (Table.find_mem found)
    rw [stage, show p.key = key from Table.find_key found] at asked
    exact ⟨earlier, reply, expired, later, split, rfl, p, record, claim, observationId, found, stage,
      same, acknowledges, asked⟩
  · obtain ⟨earlier, action, later, split, rfl, traced⟩ := run_noted h
    obtain ⟨reply, expired, p, record, effect, claimId, rfl, found, stage, of, same, replay⟩ :=
      traced.replay rfl
    exact ⟨earlier, reply, expired, later, split, rfl, p, record, effect, claimId, found, stage, of,
      same, replay⟩
  · exact (committing_refused found stage refused).imp fun exc noted => stays split noted
  · exact stays split (claimed_refused found stage of refused)
  · exact (registering_refused found stage refused).imp fun exc noted => stays split noted

/-- In every run of an activation a callable is invoked at most once, and never for a recorded
key; an await returns a copy of the one output that was recorded or acknowledged before; a key
keeps its binding; a decision is answered only with every task finished, every acknowledgement sound
and every failure observed; and what counts as acknowledged is what the orchestrator replied. -/
theorem local_steps_memoised (payload : Payload) (library : Library) (actions : List Action) :
    let w := (new payload).run payload library actions
    (∀ key, w.calls key ≤ 1) ∧
    (∀ r ∈ payload.records, w.calls r.key = 0) ∧
    (∀ after before key v, w.trace = after ++ .returned key v :: before →
      ∃ output, v = copy output ∧ Accepted payload before key output) ∧
    (∀ key v v', .returned key v ∈ w.trace → .returned key v' ∈ w.trace → v = v') ∧
    (∀ caller c b b', w.Uses b → c.binding payload library = some b' → b.key = b'.key →
      ¬b.Agrees library b' → (∃ e, (w.call payload library caller c).2 = .error e) ∧
        w.Idle (w.call payload library caller c).1) ∧
    w.keys.card ≤ maxSteps ∧
    (∀ d, w.phase = .responded d → (∀ t ∈ w.ownedTasks, w.finished t = true) ∧
      (∀ t exc, .acknowledgementFailed t exc ∉ w.trace) ∧
      ∀ t exc, w.stage t = some (.finished (.error exc)) → .raised t exc ∈ w.trace) ∧
    (∀ t exc, .acknowledgementFailed t exc ∈ w.trace →
      (∀ caller c, (∃ e, (w.call payload library caller c).2 = .error e) ∧
        w.Idle (w.call payload library caller c).1) ∧
      ∀ more d, ((new payload).run payload library (actions ++ more)).phase ≠ .responded d) ∧
    Replied payload library actions := by
  intro w
  obtain ⟨kept, answered⟩ : Kept payload library w ∧ Answered w :=
    run_sound (.new payload library) (.new payload) actions
  refine ⟨kept.calls_le, kept.uncalled, kept.backed, fun key v v' h h' => ?_,
    fun caller c b b' used asked same other => call_conflict kept caller used asked same other,
    kept.few, fun d responded => responded_settled answered responded, fun t exc failed => ?_,
    replied payload library actions⟩
  · obtain ⟨r, hr, rfl, rfl⟩ := kept.returns key v h
    obtain ⟨r', hr', same, rfl⟩ := kept.returns r.key v' h'
    rw [Table.eq_of_key kept.uniqueRecords hr' hr same]
  · refine ⟨fun caller c => call_after_failure kept answered failed caller c, fun more d h => ?_⟩
    rw [run_append] at h
    obtain ⟨kept', answered'⟩ := run_sound kept answered more
    obtain ⟨-, healthy, -⟩ := answered'.responded d h
    exact answered.healthy (run_fatal kept answered more healthy) t exc failed

/-- One step with its commit acknowledged, awaited, and a decision. -/
def sample : List Action :=
  let fn : Callable := ⟨0, true, "steps", "fetch", fun v => .ok (some v)⟩
  [.call .controller (.localStep "fetch" fn (some (object [] List.nodup_nil))),
    .run "fetch" .start, .run "fetch" (.deliver (.ok (some (str "page")))),
    .run "fetch" (.acquire ""), .observe (.step "fetch") true,
    .run "fetch" (.answer (.ok (object [("committed", ⟨.bool true, trivial⟩)] (by simp))) none),
    .observe (.step "fetch") false, .handle (.ok (some (str "done"))), .drain]

def bare : Payload where
  workflowId := "wf"
  activationId := "act"
  approval := none
  effectEvidenceV2 := false
  records := []
  decides := fun _ _ => true
  few := by decide
  distinct := List.nodup_nil

theorem sample_phase : ((new bare).run bare .printed sample).phase = .responded (copy (str "done")) :=
  rfl

theorem sample_trace : ∃ older, ((new bare).run bare .printed sample).trace =
    .returned "fetch" (copy (copy (str "page"))) :: .acknowledged "fetch" (copy (str "page")) :: older :=
  ⟨_, rfl⟩

/-- The sample run ends with its decision, and returns what `{"committed": true}` acknowledged. -/
theorem local_steps_memoised_sample : let w := (new bare).run bare .printed sample
    w.phase = .responded (copy (str "done")) ∧ w.calls "fetch" ≤ 1 ∧
    ∃ older earlier reply expired later,
      w.trace = .returned "fetch" (copy (copy (str "page"))) ::
        .acknowledged "fetch" (copy (str "page")) :: older ∧
      sample = earlier ++ .run "fetch" (.answer (.ok reply) expired) :: later ∧ Committed reply ∧
      ((new bare).run bare .printed earlier).trace = older := by
  intro w
  obtain ⟨once, -, -, -, -, -, -, -, replied⟩ := local_steps_memoised bare .printed sample
  obtain ⟨older, trace⟩ := sample_trace
  obtain ⟨earlier, reply, expired, later, split, before, p, record, claim, observationId, -, -, -,
    acknowledges, -⟩ := replied.acknowledged [_] older "fetch" _ trace
  refine ⟨sample_phase, once "fetch", older, earlier, reply, expired, later, trace, split, ?_, before⟩
  unfold Acknowledges at acknowledges
  split at acknowledges
  · exact acknowledges
  · exact acknowledges

end Ledgence.Sdk.World

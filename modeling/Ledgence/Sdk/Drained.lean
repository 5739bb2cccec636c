import Ledgence.Sdk.Uses

/-! What the invocation waits for: a decision is answered when every owned task has finished, no
acknowledgement failed and every failure was observed, and it stays so. -/
open Kit Kit.Checked

namespace Ledgence.Sdk.World

variable {payload : Payload} {library : Library} {w w' : World} {p : Pending} {f : Fork}

structure Answered (w : World) : Prop where
  nodup : w.ownedTasks.Nodup
  healthy : w.fatal = none → ∀ t exc, .acknowledgementFailed t exc ∉ w.trace
  observed : ∀ t ∈ w.observedFailures, ∃ stage exc, w.stage t = some stage ∧
    stage.failedWith exc = true ∧ .raised t exc ∈ w.trace
  batch : ∀ output batch, w.phase = .draining output batch →
    batch.Nodup ∧ ∀ t ∈ batch, t ∈ w.ownedTasks
  responded : ∀ d, w.phase = .responded d → w.closed = true ∧ w.fatal = none ∧
    ∀ t ∈ w.ownedTasks, w.finished t = true ∧ w.unobserved t = false

/-- What a section of the live task `t` leaves alone. -/
structure Framed (w w' : World) (t : TaskRef) : Prop where
  owned : w'.ownedTasks = w.ownedTasks
  phase : w'.phase = w.phase
  observed : w'.observedFailures = w.observedFailures
  others : ∀ t', t' ≠ t → w'.stage t' = w.stage t'
  grows : w.trace ⊆ w'.trace
  healthy : w'.fatal = none → w.fatal = none ∧
    ∀ t exc, .acknowledgementFailed t exc ∈ w'.trace → .acknowledgementFailed t exc ∈ w.trace

theorem Answered.framed (answered : Answered w) {t : TaskRef} {stage : Stage}
    (found : w.stage t = some stage) (live : stage.outcome = none) (frame : Framed w w' t) :
    Answered w' := by
  have unfinished : w.finished t = false := by simp [finished, found, live]
  refine ⟨frame.owned ▸ answered.nodup, fun h t exc mem => ?_, fun t' h => ?_, fun output batch h => ?_,
    fun d h => ?_⟩
  · obtain ⟨healthy, old⟩ := frame.healthy h
    exact answered.healthy healthy t exc (old t exc mem)
  · obtain ⟨stage', exc, found', failed, raised⟩ := answered.observed t' (frame.observed ▸ h)
    have other : t' ≠ t := by
      rintro rfl
      obtain rfl := Option.some.inj (found'.symm.trans found)
      simp [Stage.failedWith, live] at failed
    exact ⟨stage', exc, (frame.others t' other).trans found', failed, frame.grows raised⟩
  · rw [frame.owned]
    exact answered.batch output batch (frame.phase ▸ h)
  · obtain ⟨-, -, settled⟩ := answered.responded d (frame.phase ▸ h)
    have := (settled t (mem_ownedTasks.mpr ⟨stage, found⟩)).1
    rw [unfinished] at this
    cases this

section Goto
variable {stage : Stage} {known : List Char} {lock : Option TaskRef}

theorem stage_goto_other {w₀ : World} (forks : w₀.forks = w.forks) (pending : w₀.pending = w.pending)
    {t : TaskRef} (other : t ≠ .step p.key) :
    (w₀.goto { p with known } stage).stage t = w.stage t := by
  cases t with
  | step key =>
    have apart : p.key ≠ key := fun e => other (e ▸ rfl)
    have same : Table.find (fun p : Pending => p.key) key
        (Table.put (fun p => p.key) { p with known, stage } w.pending) = w.entry key :=
      Table.find_put_other apart
    simp only [World.stage, World.entry, goto, pending] at same ⊢
    rw [same]
  | fork key =>
    simp only [World.stage, World.fork, goto, forks]

theorem owned_goto {w₀ : World} (forks : w₀.forks = w.forks) (pending : w₀.pending = w.pending) :
    (w₀.goto { p with known } stage).ownedTasks = w.ownedTasks := by
  have keys : (Table.put (fun p : Pending => p.key) { p with known, stage } w.pending).map
      (fun p => p.key) = w.pending.map fun p => p.key := Table.keys_put
  have mapped : ∀ ps : List Pending, ps.map (fun p => TaskRef.step p.key) =
      (ps.map fun p => p.key).map TaskRef.step := by
    intro ps
    rw [List.map_map]
    rfl
  simp only [ownedTasks, goto, pending, forks, mapped, keys]

theorem Framed.goto {w₀ : World} (forks : w₀.forks = w.forks) (pending : w₀.pending = w.pending)
    (phase : w₀.phase = w.phase) (observed : w₀.observedFailures = w.observedFailures)
    (fatal : w₀.fatal = w.fatal) (grows : w.trace ⊆ w₀.trace)
    (quiet : ∀ t exc, .acknowledgementFailed t exc ∈ w₀.trace →
      .acknowledgementFailed t exc ∈ w.trace) :
    Framed w (w₀.goto { p with known } stage) (.step p.key) :=
  ⟨owned_goto forks pending, phase, observed, fun _ other => stage_goto_other forks pending other,
    grows, fun h => ⟨fatal ▸ h, quiet⟩⟩

end Goto

/-- A section of a finished task does nothing. A section of another is framed. -/
theorem Advanced.framed {move : Move} (h : Advanced payload library w p move w') :
    w' = w ∨ p.stage.outcome = none ∧ Framed w w' (.step p.key) := by
  have same : ∀ {stage : Stage}, p.stage = stage → stage.outcome = none → p.stage.outcome = none :=
    fun e live => e ▸ live
  have old : ∀ {e : Event}, (∀ t exc, Event.acknowledgementFailed t exc ≠ e) → ∀ t exc,
      .acknowledgementFailed t exc ∈ e :: w.trace → .acknowledgementFailed t exc ∈ w.trace :=
    fun other t exc h => List.mem_of_ne_of_mem (other t exc) h
  cases h with
  | idle => exact .inl rfl
  | remembered record stage previous =>
    exact .inr ⟨same stage rfl, .goto rfl rfl rfl rfl rfl (List.Subset.refl _) fun _ _ h => h⟩
  | stopped lock exc live =>
    exact .inr ⟨live, .goto rfl rfl rfl rfl rfl (List.Subset.refl _) fun _ _ h => h⟩
  | broken lock exc live =>
    refine .inr ⟨live, owned_goto rfl rfl, rfl, rfl, fun _ other => stage_goto_other rfl rfl other,
      List.subset_cons_self _ _, fun h => by cases h⟩
  | claiming stage previous =>
    exact .inr ⟨same stage rfl, .goto rfl rfl rfl rfl rfl (List.Subset.refl _) fun _ _ h => h⟩
  | claimed claimId stage sent =>
    exact .inr ⟨same stage rfl, .goto rfl rfl rfl rfl rfl (List.Subset.refl _) fun _ _ h => h⟩
  | called lock claim stage =>
    refine .inr ⟨?_, .goto rfl rfl rfl rfl rfl (List.subset_cons_self _ _) (old (by simp))⟩
    obtain ⟨stage, -⟩ | ⟨claimId, callback, stage, -⟩ := stage
    · exact same stage rfl
    · exact same stage rfl
  | found lock record effect claimId stage of fits reply expired answered replay =>
    exact .inr ⟨same stage rfl, .goto rfl rfl rfl rfl rfl (List.subset_cons_self _ _) (old (by simp))⟩
  | returned record claim stage binding =>
    exact .inr ⟨same stage rfl, .goto rfl rfl rfl rfl rfl (List.Subset.refl _) fun _ _ h => h⟩
  | committing record claim observationId stage sent =>
    exact .inr ⟨same stage rfl, .goto rfl rfl rfl rfl rfl (List.Subset.refl _) fun _ _ h => h⟩
  | replayed record claim stage =>
    exact .inr ⟨same stage rfl, .goto rfl rfl rfl rfl rfl (List.Subset.refl _) fun _ _ h => h⟩
  | accepted lock record claim observationId stage reply expired answered acknowledges =>
    exact .inr ⟨same stage rfl, .goto rfl rfl rfl rfl rfl (List.subset_cons_self _ _) (old (by simp))⟩

/-- The outcomes of a section of the fork `f`. -/
inductive Registered (w : World) (f : Fork) : World → Prop
  | idle : Registered w f w
  | moved (lock : Option TaskRef) (next : Stage) (live : f.stage.outcome = none) :
    Registered w f ((w.held lock).gotoFork f next)
  | broken (lock : Option TaskRef) (exc : Exc) (live : f.stage.outcome = none) :
    Registered w f (((w.held lock).fail (.fork f.key) exc).gotoFork f (.finished (.error exc)))

theorem advanceFork_registered (move : Move) : Registered w f (w.advanceFork f move) := by
  have waits : ∀ {stage : Stage}, f.stage = stage → stage.outcome = none → f.stage.outcome = none :=
    fun e live => e ▸ live
  unfold advanceFork
  split
  · split
    · split
      · exact .moved w.lock _ (waits ‹_› rfl)
      · exact .moved _ _ (waits ‹_› rfl)
    · exact .idle
  · unfold registered
    split
    · exact .broken none _ (waits ‹_› rfl)
    · exact .moved none _ (waits ‹_› rfl)
  · exact .moved w.lock _ (waits ‹_› rfl)
  · exact .idle

theorem Kept.registered (kept : Kept payload library w) (h : Registered w f w') :
    Kept payload library w' := by
  cases h with
  | idle => exact kept
  | moved lock next live => exact kept.congr rfl rfl rfl
  | broken lock exc live =>
    have noted := kept.quiet (e := .acknowledgementFailed (.fork f.key) exc) rfl
    exact noted.congr rfl rfl rfl

section GotoFork
variable {w₀ : World} {stage : Stage}

theorem stage_gotoFork_other (forks : w₀.forks = w.forks) (pending : w₀.pending = w.pending)
    {t : TaskRef} (other : t ≠ .fork f.key) : (w₀.gotoFork f stage).stage t = w.stage t := by
  cases t with
  | step key => simp only [World.stage, World.entry, gotoFork, pending]
  | fork key =>
    have apart : f.key ≠ key := fun e => other (e ▸ rfl)
    have same : Table.find (fun f : Fork => f.key) key
        (Table.put (fun f => f.key) { f with stage } w.forks) = w.fork key :=
      Table.find_put_other apart
    simp only [World.stage, World.fork, gotoFork, forks] at same ⊢
    rw [same]

theorem owned_gotoFork (forks : w₀.forks = w.forks) (pending : w₀.pending = w.pending) :
    (w₀.gotoFork f stage).ownedTasks = w.ownedTasks := by
  have keys : (Table.put (fun f : Fork => f.key) { f with stage } w.forks).map (fun f => f.key) =
      w.forks.map fun f => f.key := Table.keys_put
  have mapped : ∀ fs : List Fork, fs.map (fun f => TaskRef.fork f.key) =
      (fs.map fun f => f.key).map TaskRef.fork := by
    intro fs
    rw [List.map_map]
    rfl
  simp only [ownedTasks, gotoFork, pending, forks, mapped, keys]

end GotoFork

theorem Registered.framed (h : Registered w f w') :
    w' = w ∨ f.stage.outcome = none ∧ Framed w w' (.fork f.key) := by
  cases h with
  | idle => exact .inl rfl
  | moved lock next live =>
    exact .inr ⟨live, owned_gotoFork rfl rfl, rfl, rfl, fun _ other => stage_gotoFork_other rfl rfl other,
      List.Subset.refl _, fun h => ⟨h, fun _ _ h => h⟩⟩
  | broken lock exc live =>
    exact .inr ⟨live, owned_gotoFork rfl rfl, rfl, rfl, fun _ other => stage_gotoFork_other rfl rfl other,
      List.subset_cons_self _ _, fun h => by cases h⟩

/- The awaits. -/

theorem Kept.raise (kept : Kept payload library w) (t : TaskRef) (stage : Stage) (exc : Exc) :
    Kept payload library (w.raise t stage exc) := by
  have noted := kept.quiet (e := .raised t exc) rfl
  exact noted.congr rfl rfl rfl

theorem Kept.observe (kept : Kept payload library w) {t : TaskRef} {stage : Stage}
    (found : w.stage t = some stage) (cancelled : Bool) :
    Kept payload library (w.observe t stage cancelled) := by
  unfold World.observe
  split
  · exact kept.raise t stage _
  · exact kept.raise t stage _
  next value done =>
    split
    next key copied frozen =>
      obtain ⟨_, ⟨rfl⟩, rfl⟩ := freeze_eq_ok frozen
      obtain ⟨p, entry, rfl⟩ := Option.map_eq_some_iff.mp found
      have sound := (kept.entries p (Table.find_mem entry)).stage
      have finished : p.stage = .finished (.ok (.step value)) := by
        cases h : p.stage <;> simp_all [Stage.outcome]
      rw [finished] at sound
      obtain ⟨⟨r, recorded, rfl⟩, -⟩ := sound
      refine kept.noted (by simp) (fun k => rfl) fun key' v e => ?_
      obtain ⟨rfl, rfl⟩ := Event.returned.inj e
      have key : p.key = key := Table.find_key entry
      exact ⟨r, Table.find_mem recorded, (record_key recorded).trans key, rfl⟩
    · exact kept
    · exact kept.raise _ stage _
  · exact kept
  · exact kept

theorem Answered.raise (answered : Answered w) {t : TaskRef} {stage : Stage}
    (found : w.stage t = some stage) (exc : Exc) : Answered (w.raise t stage exc) := by
  have more : w.observedFailures ⊆ (w.raise t stage exc).observedFailures := by
    intro t' h
    simp only [World.raise]
    split
    · exact List.mem_cons_of_mem t h
    · exact h
  refine ⟨answered.nodup, fun h t exc mem => ?_, fun t' h => ?_, answered.batch, fun d h => ?_⟩
  · exact answered.healthy h t exc (List.mem_of_ne_of_mem (by simp) mem)
  · simp only [World.raise] at h
    split at h
    next failed =>
      obtain rfl | h := List.mem_cons.mp h
      · exact ⟨stage, exc, found, failed, List.mem_cons_self⟩
      · obtain ⟨stage, exc, found, failed, raised⟩ := answered.observed t' h
        exact ⟨stage, exc, found, failed, List.mem_cons_of_mem _ raised⟩
    next =>
      obtain ⟨stage, exc, found, failed, raised⟩ := answered.observed t' h
      exact ⟨stage, exc, found, failed, List.mem_cons_of_mem _ raised⟩
  · obtain ⟨closed, healthy, settled⟩ := answered.responded d h
    refine ⟨closed, healthy, fun t' ht' => ⟨(settled t' ht').1, ?_⟩⟩
    have before := (settled t' ht').2
    have same : (w.raise t stage exc).stage t' = w.stage t' := by cases t' <;> rfl
    simp only [unobserved, same] at before ⊢
    split
    next failed =>
      rw [failed] at before
      simp only [Bool.not_eq_false', List.contains_iff_mem] at before ⊢
      exact more before
    next => rfl

theorem Answered.noted (answered : Answered w) {e : Event}
    (quiet : ∀ t exc, e ≠ .acknowledgementFailed t exc) : Answered (w.note e) := by
  refine ⟨answered.nodup, fun h t exc mem => ?_, fun t h => ?_, answered.batch, answered.responded⟩
  · exact answered.healthy h t exc (List.mem_of_ne_of_mem (quiet t exc).symm mem)
  · obtain ⟨stage, exc, found, failed, raised⟩ := answered.observed t h
    exact ⟨stage, exc, found, failed, List.mem_cons_of_mem _ raised⟩

theorem Answered.observe (answered : Answered w) {t : TaskRef} {stage : Stage}
    (found : w.stage t = some stage) (cancelled : Bool) : Answered (w.observe t stage cancelled) := by
  unfold World.observe
  split
  · exact answered.raise found _
  · exact answered.raise found _
  · split
    · exact answered.noted (by simp)
    · exact answered
    · exact answered.raise found _
  · exact answered
  · exact answered

/- The invocation. -/

theorem Answered.abort (answered : Answered w) : Answered w.abort :=
  ⟨answered.nodup, answered.healthy, answered.observed, fun _ _ h => (by cases h),
    fun _ h => (by cases h)⟩

theorem Answered.drainAgain (answered : Answered w) (output : Option Value) :
    Answered { w with phase := .draining output w.ownedTasks } := by
  refine ⟨answered.nodup, answered.healthy, answered.observed, fun output' batch h => ?_,
    fun _ h => by cases h⟩
  obtain ⟨-, rfl⟩ := Phase.draining.inj h
  exact ⟨answered.nodup, fun t ht => ht⟩

theorem Answered.respond (answered : Answered w) {output : Option Value}
    (settled : ∀ t ∈ w.ownedTasks, w.finished t = true ∧ w.unobserved t = false) :
    Answered (w.respond payload output) := by
  unfold World.respond
  split
  next decision valid =>
    simp only [validateDecision, bind_eq_ok, exists_unit] at valid
    obtain ⟨-, healthy⟩ := active_eq_ok valid.1
    exact ⟨answered.nodup, answered.healthy, answered.observed, fun _ _ h => (by cases h),
      fun d h => ⟨rfl, healthy, settled⟩⟩
  next => exact answered.abort

theorem Answered.handle (answered : Answered w) (result : Except Exc (Option Value)) :
    Answered (w.handle result) := by
  unfold World.handle
  split
  · exact answered.drainAgain _
  · exact answered.abort
  · exact answered

/-- A round with as many tasks as there are now has waited for every one of them. -/
theorem Answered.drain (answered : Answered w) : Answered (w.drain payload) := by
  unfold World.drain
  split
  next output batch draining =>
    split
    next finished =>
      split
      · exact answered.abort
      next observed =>
        split
        next full =>
          obtain ⟨nodup, owned⟩ := answered.batch output batch draining
          have perm := (nodup.subperm owned).perm_of_length_le full.ge
          refine answered.respond fun t ht => ?_
          have ht := perm.mem_iff.mpr ht
          refine ⟨List.all_eq_true.mp finished t ht, ?_⟩
          simp only [List.any_eq_true, not_exists, not_and, Bool.not_eq_true] at observed
          exact observed t ht
        next => exact answered.drainAgain output
    next => exact answered
  next => exact answered

/- The calls. -/

theorem Answered.made {c : Call} (answered : Answered w) (made : Made payload library w c w') :
    Answered w' := by
  obtain ⟨es, trace, bound⟩ := made.grown.traced
  have owned : ∀ t ∈ w.ownedTasks, t ∈ w'.ownedTasks := by
    intro t ht
    obtain ⟨stage, found⟩ := mem_ownedTasks.mp ht
    exact mem_ownedTasks.mpr ⟨stage, made.grown.stage t stage found⟩
  refine ⟨made.grown.nodup answered.nodup, fun h t exc mem => ?_, fun t h => ?_,
    fun output batch h => ?_, fun d h => ?_⟩
  · rw [trace] at mem
    obtain mem | mem := List.mem_append.mp mem
    · obtain ⟨b, e⟩ := bound _ mem
      cases e
    · exact answered.healthy made.healthy t exc mem
  · obtain ⟨stage, exc, found, failed, raised⟩ := answered.observed t (made.grown.observed ▸ h)
    exact ⟨stage, exc, made.grown.stage t stage found, failed,
      trace ▸ List.mem_append_right es raised⟩
  · obtain ⟨nodup, mem⟩ := answered.batch output batch (made.grown.phase ▸ h)
    exact ⟨nodup, fun t ht => owned t (mem t ht)⟩
  · have closed := (answered.responded d (made.grown.phase ▸ h)).1
    rw [made.opened] at closed
    cases closed

theorem Answered.idle (answered : Answered w) (idle : w.Idle w') : Answered w' := by
  obtain ⟨a, l, rfl⟩ := idle
  exact ⟨answered.nodup, answered.healthy, answered.observed, answered.batch, answered.responded⟩

end Ledgence.Sdk.World

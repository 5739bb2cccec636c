import Ledgence.Sdk.Drained

/-! What a step notes, and what an acknowledgement rests on: the reply that the task of its key waits
for, under identities that the task sent. -/
open Kit Kit.Checked

namespace Ledgence.Sdk

def Event.plain : Event → Bool
  | .acknowledged _ _ | .replayed _ _ => false
  | .bound _ | .called _ | .acknowledgementFailed _ _ | .returned _ _ | .raised _ _ => true

/-- The identities with which a task waits were given to it when it got the commit lock. -/
def Asked (actions : List Action) (key : String) : Stage → Prop
  | .claimed claimId => .run key (.acquire claimId) ∈ actions
  | .calling claim | .returned _ _ claim => ∀ c, claim = some c → .run key (.acquire c.1) ∈ actions
  | .committing _ claim observationId =>
    .run key (.acquire observationId) ∈ actions ∧ ∀ c, claim = some c → .run key (.acquire c.1) ∈ actions
  | .created | .claiming | .registering | .finished _ => True

theorem Asked.mono {actions more : List Action} {key : String} {stage : Stage}
    (asked : Asked actions key stage) (grows : actions ⊆ more) : Asked more key stage := by
  cases stage with
  | claimed claimId => exact grows asked
  | calling claim | returned record replayed claim => exact fun c same => grows (asked c same)
  | committing record claim observationId =>
    exact ⟨grows asked.1, fun c same => grows (asked.2 c same)⟩
  | created | claiming | registering | finished outcome => trivial

namespace World

variable {payload : Payload} {library : Library} {w w' : World} {p : Pending} {f : Fork} {move : Move}
  {action : Action} {key : String} {output : Value}

/-- The trace after a step: at most one event more, and which replies two kinds of it stand for. -/
inductive Traced (payload : Payload) (w : World) (action : Action) : List Event → Prop
  | same : Traced payload w action w.trace
  | plain (e : Event) (plain : e.plain = true) : Traced payload w action (e :: w.trace)
  | acknowledged (p : Pending) (record : Record) (claim : Option (String × String))
    (observationId : String) (reply : Value) (expired : Option Nat) (found : w.entry p.key = some p)
    (stage : p.stage = .committing record claim observationId)
    (answered : action = .run p.key (.answer (.ok reply) expired))
    (acknowledges : Acknowledges payload p claim observationId reply) :
    Traced payload w action (.acknowledged p.key record.output :: w.trace)
  | replayed (p : Pending) (record : Record) (effect : Effect) (claimId : String) (reply : Value)
    (expired : Option Nat) (found : w.entry p.key = some p) (stage : p.stage = .claimed claimId)
    (of : p.effect = some effect) (answered : action = .run p.key (.answer (.ok reply) expired))
    (replay : Replay payload effect p.key record reply) :
    Traced payload w action (.replayed p.key record.output :: w.trace)

section Traced
variable {t : List Event}

theorem Traced.grows (h : Traced payload w action t) : t = w.trace ∨ ∃ e, t = e :: w.trace := by
  cases h with
  | same => exact .inl rfl
  | plain e plain => exact .inr ⟨e, rfl⟩
  | acknowledged p record => exact .inr ⟨_, rfl⟩
  | replayed p record => exact .inr ⟨_, rfl⟩

theorem Traced.acknowledgement (h : Traced payload w action t)
    (noted : t = .acknowledged key output :: w.trace) :
    ∃ reply expired p record claim observationId, action = .run key (.answer (.ok reply) expired) ∧
      w.entry key = some p ∧ p.stage = .committing record claim observationId ∧
      record.output = output ∧ Acknowledges payload p claim observationId reply := by
  cases h with
  | same => exact absurd noted.symm (List.cons_ne_self _ _)
  | plain e plain =>
    obtain ⟨rfl, -⟩ := List.cons.inj noted
    cases plain
  | acknowledged p record claim observationId reply expired found stage answered acknowledges =>
    obtain ⟨rfl, rfl⟩ := Event.acknowledged.inj (List.cons.inj noted).1
    exact ⟨reply, expired, p, record, claim, observationId, answered, found, stage, rfl, acknowledges⟩
  | replayed p record => cases (List.cons.inj noted).1

theorem Traced.replay (h : Traced payload w action t) (noted : t = .replayed key output :: w.trace) :
    ∃ reply expired p record effect claimId, action = .run key (.answer (.ok reply) expired) ∧
      w.entry key = some p ∧ p.stage = .claimed claimId ∧ p.effect = some effect ∧
      record.output = output ∧ Replay payload effect key record reply := by
  cases h with
  | same => exact absurd noted.symm (List.cons_ne_self _ _)
  | plain e plain =>
    obtain ⟨rfl, -⟩ := List.cons.inj noted
    cases plain
  | acknowledged p record => cases (List.cons.inj noted).1
  | replayed p record effect claimId reply expired found stage of answered replay =>
    obtain ⟨rfl, rfl⟩ := Event.replayed.inj (List.cons.inj noted).1
    exact ⟨reply, expired, p, record, effect, claimId, answered, found, stage, of, rfl, replay⟩

end Traced

theorem Advanced.traced (h : Advanced payload library w p move w') (found : w.entry p.key = some p) :
    Traced payload w (.run p.key move) w'.trace := by
  cases h with
  | idle | remembered | stopped | claiming | claimed | returned | committing | replayed => exact .same
  | broken lock exc live => exact .plain _ rfl
  | called lock claim stage => exact .plain _ rfl
  | found lock record effect claimId stage of fits reply expired answered replay =>
    exact .replayed p record effect claimId reply expired found stage of (by rw [answered]) replay
  | accepted lock record claim observationId stage reply expired answered acknowledges =>
    exact .acknowledged p record claim observationId reply expired found stage (by rw [answered])
      acknowledges

theorem Registered.traced (h : Registered w f w') : Traced payload w action w'.trace := by
  cases h with
  | idle | moved => exact .same
  | broken => exact .plain _ rfl

theorem observe_traced (t : TaskRef) (stage : Stage) (cancelled : Bool) :
    Traced payload w action (w.observe t stage cancelled).trace := by
  unfold World.observe
  split
  · exact .plain _ rfl
  · exact .plain _ rfl
  · split
    · exact .plain _ rfl
    · exact .same
    · exact .plain _ rfl
  · exact .same
  · exact .same

theorem respond_same (output : Option Value) : (w.respond payload output).trace = w.trace ∧
    (w.respond payload output).pending = w.pending := by
  unfold World.respond
  split <;> exact ⟨rfl, rfl⟩

theorem drain_same :
    (w.drain payload).trace = w.trace ∧ (w.drain payload).pending = w.pending := by
  unfold World.drain
  split
  · split
    · split
      · exact ⟨rfl, rfl⟩
      · split
        · exact respond_same _
        · exact ⟨rfl, rfl⟩
    · exact ⟨rfl, rfl⟩
  · exact ⟨rfl, rfl⟩

theorem step_traced (kept : Kept payload library w) (action : Action) :
    Traced payload w action (w.step payload library action).trace := by
  cases action with
  | call caller c =>
    have settled := call_settled kept caller c
    simp only [step]
    generalize w.call payload library caller c = outcome at settled ⊢
    obtain ⟨w', result⟩ := outcome
    cases result with
    | ok _ =>
      obtain same | ⟨b, bound⟩ := settled.grown.trace
      · exact same ▸ .same
      · exact bound ▸ .plain _ rfl
    | error _ =>
      obtain ⟨_, _, rfl⟩ := settled
      exact .same
  | run key move =>
    simp only [step]
    split
    next p found =>
      obtain rfl : p.key = key := Table.find_key found
      exact (advance_advanced move).traced found
    next => exact .same
  | register key move =>
    simp only [step]
    split
    next f found => exact (advanceFork_registered move).traced
    next => exact .same
  | observe task cancelled =>
    simp only [step]
    split
    next stage found => exact observe_traced task stage cancelled
    next => exact .same
  | handle result =>
    simp only [step, World.handle]
    split <;> exact .same
  | drain =>
    have same : (w.step payload library .drain).trace = w.trace := drain_same.1
    exact same ▸ .same

/- Identities. -/

section Asked
variable {actions more : List Action}

theorem asked_goto {w₀ : World} {known : List Char} {stage : Stage}
    (asked : ∀ q ∈ w.pending, Asked actions q.key q.stage) (grows : actions ⊆ more)
    (pending : w₀.pending = w.pending) (new : Asked more p.key stage) :
    ∀ q ∈ (w₀.goto { p with known } stage).pending, Asked more q.key q.stage := by
  intro q mem
  rw [World.goto, pending] at mem
  obtain rfl | ⟨old, -⟩ := Table.mem_put mem
  · exact new
  · exact (asked q old).mono grows

theorem Advanced.asked (h : Advanced payload library w p move w') (mem : p ∈ w.pending)
    (asked : ∀ q ∈ w.pending, Asked actions q.key q.stage) (grows : actions ⊆ more)
    (last : .run p.key move ∈ more) : ∀ q ∈ w'.pending, Asked more q.key q.stage := by
  have own := (asked p mem).mono grows
  cases h with
  | idle => exact fun q mem => (asked q mem).mono grows
  | remembered | stopped | broken | claiming | replayed | accepted =>
    exact asked_goto asked grows rfl trivial
  | claimed claimId stage sent =>
    subst sent
    exact asked_goto asked grows rfl last
  | called lock claim stage =>
    refine asked_goto asked grows rfl fun c same => ?_
    obtain ⟨-, -, rfl⟩ | ⟨claimId, callback, stage, rfl⟩ := stage
    · cases same
    · obtain rfl := Option.some.inj same
      rwa [stage] at own
  | found => exact asked_goto asked grows rfl fun c same => by cases same
  | returned record claim stage binding =>
    rw [stage] at own
    exact asked_goto asked grows rfl own
  | committing record claim observationId stage sent =>
    rw [stage] at own
    exact asked_goto asked grows rfl ⟨sent ▸ last, own⟩

theorem Registered.pending (h : Registered w f w') : w'.pending = w.pending := by
  cases h with
  | idle | moved | broken => rfl

theorem observe_pending (t : TaskRef) (stage : Stage) (cancelled : Bool) :
    (w.observe t stage cancelled).pending = w.pending := by
  unfold World.observe
  split
  · rfl
  · rfl
  · split <;> rfl
  · rfl
  · rfl

theorem step_asked (kept : Kept payload library w)
    (asked : ∀ q ∈ w.pending, Asked actions q.key q.stage) (action : Action) :
    ∀ q ∈ (w.step payload library action).pending, Asked (actions ++ [action]) q.key q.stage := by
  have grows : actions ⊆ actions ++ [action] := List.subset_append_left _ _
  have still (same : (w.step payload library action).pending = w.pending) :
      ∀ q ∈ (w.step payload library action).pending, Asked (actions ++ [action]) q.key q.stage :=
    fun q mem => (asked q (same ▸ mem)).mono grows
  cases action with
  | call caller c =>
    have settled := call_settled kept caller c
    simp only [step] at still ⊢
    generalize w.call payload library caller c = outcome at settled still ⊢
    obtain ⟨w', result⟩ := outcome
    cases result with
    | ok _ =>
      intro q mem
      obtain old | fresh := settled.grown.pending q mem
      · exact (asked q old).mono grows
      · rw [fresh]
        trivial
    | error _ =>
      obtain ⟨_, _, rfl⟩ := settled
      exact still rfl
  | run key move =>
    simp only [step] at still ⊢
    split
    next p found =>
      obtain rfl : p.key = key := Table.find_key found
      exact (advance_advanced move).asked (Table.find_mem found) asked grows (by simp)
    next none =>
      rw [none] at still
      exact still rfl
  | register key move =>
    refine still ?_
    simp only [step]
    split
    next f found => exact (advanceFork_registered move).pending
    next => rfl
  | observe task cancelled =>
    refine still ?_
    simp only [step]
    split
    next stage found => exact observe_pending task stage cancelled
    next => rfl
  | handle result =>
    refine still ?_
    simp only [step, World.handle]
    split <;> rfl
  | drain => exact still drain_same.2

end Asked

/- Replies that are refused. -/

section Refused
variable {reply : Except Exc Value} {expired : Option Nat} {record : Record}
  {claim : Option (String × String)} {observationId claimId : String} {effect : Effect} {exc : Exc}

theorem committing_refused (found : w.entry key = some p)
    (stage : p.stage = .committing record claim observationId)
    (refused : ¬∃ v, reply = .ok v ∧ Acknowledges payload p claim observationId v) : ∃ exc,
      .acknowledgementFailed (.step key) exc ∈
        (w.step payload library (.run key (.answer reply expired))).trace := by
  obtain rfl : p.key = key := Table.find_key found
  cases read : commitReply payload p claim observationId reply with
  | error exc =>
    refine ⟨exc, ?_⟩
    simp only [step, found, advance, stage, committed, read]
    exact List.mem_cons_self
  | ok _ => exact absurd (commitReply_eq_ok.mp read) refused

theorem claimed_refused (found : w.entry key = some p) (stage : p.stage = .claimed claimId)
    (of : p.effect = some effect) (refused : claimReply payload library p effect claimId reply = .error exc) :
    .acknowledgementFailed (.step key) exc ∈
      (w.step payload library (.run key (.answer reply expired))).trace := by
  obtain rfl : p.key = key := Table.find_key found
  simp only [step, found, advance, stage, of, claimAnswered, refused]
  exact List.mem_cons_self

theorem registering_refused (found : w.fork key = some f) (stage : f.stage = .registering)
    (refused : ¬∃ v, reply = .ok v ∧ Forked f.key f.keys v) : ∃ exc,
      .acknowledgementFailed (.fork key) exc ∈
        (w.step payload library (.register key (.answer reply expired))).trace := by
  obtain rfl : f.key = key := Table.find_key found
  cases read : forkReply f reply with
  | error exc =>
    refine ⟨exc, ?_⟩
    simp only [step, found, advanceFork, stage, registered, read]
    exact List.mem_cons_self
  | ok _ => exact absurd (forkReply_eq_ok.mp read) refused

end Refused
end World
end Ledgence.Sdk

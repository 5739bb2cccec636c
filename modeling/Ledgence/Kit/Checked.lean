import Mathlib.Data.List.Forall2
import Mathlib.Logic.Basic

/-! Fallible computations built from refusals. A success is read back as the list of
checks it passed, and what every accepted step keeps, every accepted run keeps. -/
namespace Kit.Checked

universe u v
variable {ε ε' : Type u} {α β σ : Type v}

/-- Stop with `e` when `c` holds. -/
def refuse (c : Prop) [Decidable c] (e : ε) : Except ε PUnit :=
  if c then .error e else .ok ⟨⟩

instance lawfulPair : LawfulBEq (String × String) := inferInstance

def okOr (o : Option α) (e : ε) : Except ε α :=
  match o with
  | some a => .ok a
  | none => .error e

def ifSome (o : Option α) (check : α → Except ε PUnit) : Except ε PUnit :=
  match o with
  | some a => check a
  | none => .ok ⟨⟩

/-- Addition in an unsigned type whose largest value is `top`. -/
def checkedAdd (top a b : Nat) : Option Nat :=
  if a + b ≤ top then some (a + b) else none

def checkedSub (a b : Nat) : Option Nat :=
  if b ≤ a then some (a - b) else none

def checkedMul (top a b : Nat) : Option Nat :=
  if a * b ≤ top then some (a * b) else none

def saturatingAdd (top a b : Nat) : Nat :=
  min (a + b) top

def saturatingMul (top a b : Nat) : Nat :=
  min (a * b) top

@[simp] theorem checkedAdd_eq_some {top a b c : Nat} :
    checkedAdd top a b = some c ↔ a + b ≤ top ∧ a + b = c := by
  simp [checkedAdd]

@[simp] theorem checkedSub_eq_some {a b c : Nat} :
    checkedSub a b = some c ↔ b ≤ a ∧ a - b = c := by
  simp [checkedSub]

theorem checkedSub_eq_none {a b : Nat} : checkedSub a b = none ↔ a < b := by
  simp [checkedSub]

@[simp] theorem checkedMul_eq_some {top a b c : Nat} :
    checkedMul top a b = some c ↔ a * b ≤ top ∧ a * b = c := by
  simp [checkedMul]

@[simp] theorem bind_eq_ok {x : Except ε α} {f : α → Except ε β} {b : β} :
    (x >>= f) = .ok b ↔ ∃ a, x = .ok a ∧ f a = .ok b := by
  cases x with
  | error e => simp [bind, Except.bind]
  | ok a => simp [bind, Except.bind]

@[simp] theorem exists_unit {p : PUnit → Prop} : (∃ t, p t) ↔ p ⟨⟩ :=
  ⟨fun ⟨_, h⟩ => h, fun h => ⟨_, h⟩⟩

@[simp] theorem ok_bind {a : α} {f : α → Except ε β} : (Except.ok a >>= f) = f a := rfl

@[simp] theorem error_bind {e : ε} {f : α → Except ε β} :
    (Except.error e >>= f) = .error e := rfl

@[simp] theorem pure_eq_ok {a b : α} : (pure a : Except ε α) = .ok b ↔ a = b := by
  simp [pure, Except.pure]

@[simp] theorem map_eq_ok {x : Except ε α} {f : α → β} {b : β} :
    f <$> x = .ok b ↔ ∃ a, x = .ok a ∧ f a = b := by
  cases x with
  | error e => simp [Functor.map, Except.map]
  | ok a => simp [Functor.map, Except.map]

@[simp] theorem refuse_eq_ok {c : Prop} [Decidable c] {e : ε} {t : PUnit} :
    refuse c e = .ok t ↔ ¬ c := by
  by_cases h : c
  · simp [refuse, h]
  · simp [refuse, h]

@[simp] theorem okOr_eq_ok {o : Option α} {e : ε} {a : α} :
    okOr o e = .ok a ↔ o = some a := by
  cases o with
  | none => simp [okOr]
  | some b => simp [okOr]

@[simp] theorem ok_of_mapError {f : ε → ε'} {x : Except ε α} {a : α} :
    Except.mapError f x = .ok a ↔ x = .ok a := by
  cases x with
  | error e => simp [Except.mapError]
  | ok b => simp [Except.mapError]

@[simp] theorem ite_error_eq_ok {c : Prop} [Decidable c] {x : Except ε α} {e : ε} {a : α} :
    (if c then .error e else x) = .ok a ↔ ¬ c ∧ x = .ok a := by
  by_cases h : c
  · simp [h]
  · simp [h]

@[simp] theorem ifSome_eq_ok {o : Option α} {check : α → Except ε PUnit} {t : PUnit} :
    ifSome o check = .ok t ↔ ∀ a, o = some a → check a = .ok ⟨⟩ := by
  cases o with
  | none => simp [ifSome]
  | some a => simp [ifSome]

@[simp] theorem forM_eq_ok {as : List α} {check : α → Except ε PUnit} {t : PUnit} :
    forM as check = .ok t ↔ ∀ a ∈ as, check a = .ok ⟨⟩ := by
  induction as with
  | nil => simp [pure, Except.pure]
  | cons a as ih => simp [ih]

theorem mapM_eq_ok {f : α → Except ε β} {as : List α} {bs : List β} :
    as.mapM f = .ok bs ↔ List.Forall₂ (fun a b => f a = .ok b) as bs := by
  induction as generalizing bs with
  | nil => cases bs <;> simp
  | cons a as ih =>
    cases bs with
    | nil => simp
    | cons b bs => simp [ih]

theorem exists_of_forall₂_left {R : α → β → Prop} {as : List α} {bs : List β} {a : α}
    (all : List.Forall₂ R as bs) (mem : a ∈ as) : ∃ b ∈ bs, R a b := by
  induction all with
  | nil => cases mem
  | @cons a' b _ _ first _ ih =>
    cases List.mem_cons.mp mem with
    | inl here => exact ⟨b, List.mem_cons_self, here ▸ first⟩
    | inr there =>
      have ⟨b', inside, related⟩ := ih there
      exact ⟨b', List.mem_cons_of_mem _ inside, related⟩

theorem exists_of_forall₂_right {R : α → β → Prop} {as : List α} {bs : List β} {b : β}
    (all : List.Forall₂ R as bs) (mem : b ∈ bs) : ∃ a ∈ as, R a b :=
  exists_of_forall₂_left all.flip mem

theorem exists_mapM {f : α → Except ε β} {as : List α} (each : ∀ a ∈ as, ∃ b, f a = .ok b) :
    ∃ bs, as.mapM f = .ok bs := by
  induction as with
  | nil => exact ⟨[], rfl⟩
  | cons a as ih =>
    obtain ⟨b, first⟩ := each a (by simp)
    obtain ⟨bs, rest⟩ := ih fun c mem => each c (by simp [mem])
    exact ⟨b :: bs, by simp [first, rest]⟩

theorem exists_of_isOk {x : Except ε α} (h : x.isOk = true) : ∃ a, x = .ok a := by
  cases x with
  | error e => simp [Except.isOk, Except.toBool] at h
  | ok a => exact ⟨a, rfl⟩

theorem isOk_iff {x : Except ε PUnit} : x.isOk = true ↔ x = .ok ⟨⟩ := by
  cases x with
  | error e => simp [Except.isOk, Except.toBool]
  | ok a => simp [Except.isOk, Except.toBool]

theorem toOption_eq_some {x : Except ε α} {a : α} : x.toOption = some a ↔ x = .ok a := by
  cases x with
  | error e => simp [Except.toOption]
  | ok b => simp [Except.toOption]

/- A run is accepted when each of its steps is. -/

theorem foldlM_cons_ok {step : σ → α → Except ε σ} {s t : σ} {a : α} {as : List α} :
    (a :: as).foldlM step s = .ok t ↔ ∃ m, step s a = .ok m ∧ as.foldlM step m = .ok t := by
  simp [List.foldlM_cons]

theorem foldlM_append_ok {step : σ → α → Except ε σ} {s t : σ} {as bs : List α} :
    (as ++ bs).foldlM step s = .ok t ↔
      ∃ m, as.foldlM step s = .ok m ∧ bs.foldlM step m = .ok t := by
  simp [List.foldlM_append]

theorem foldlM_invariant {step : σ → α → Except ε σ} {P : σ → Prop} {as : List α} {s t : σ}
    (keep : ∀ s, ∀ a ∈ as, ∀ t, step s a = .ok t → P s → P t)
    (accepted : as.foldlM step s = .ok t) (start : P s) : P t := by
  induction as generalizing s with
  | nil =>
    have same : s = t := by simpa using accepted
    exact same ▸ start
  | cons a as ih =>
    obtain ⟨m, first, rest⟩ := foldlM_cons_ok.mp accepted
    have here := keep s a (by simp) m first start
    exact ih (fun u b hb => keep u b (by simp [hb])) rest here

theorem foldlM_error {step : σ → α → Except ε σ} {e e' : ε} {as : List α} {s : σ}
    (each : ∀ s a e', step s a = .error e' → e' = e) (failed : as.foldlM step s = .error e') :
    e' = e := by
  induction as generalizing s with
  | nil => simp [pure, Except.pure] at failed
  | cons a as ih =>
    rw [List.foldlM_cons] at failed
    cases first : step s a with
    | error e₁ =>
      rw [first, error_bind] at failed
      obtain rfl := Except.error.inj failed
      exact each s a e₁ first
    | ok next =>
      rw [first, ok_bind] at failed
      exact ih failed

/-- A run whose steps are timed, and whose times never go back, starting at the state's clock. -/
theorem foldlM_ordered {step : σ → α → Except ε σ} {clock : σ → Nat} {time : α → Nat}
    {P : σ → Prop} {as : List α} {s t : σ}
    (tick : ∀ s a t, step s a = .ok t → clock t = time a)
    (keep : ∀ s a t, clock s ≤ time a → step s a = .ok t → P s → P t)
    (accepted : as.foldlM step s = .ok t) (ordered : (clock s :: as.map time).Pairwise (· ≤ ·))
    (start : P s) : P t := by
  induction as generalizing s with
  | nil =>
    have same : s = t := by simpa using accepted
    exact same ▸ start
  | cons a as ih =>
    obtain ⟨m, first, rest⟩ := foldlM_cons_ok.mp accepted
    simp only [List.map_cons, List.pairwise_cons, List.mem_cons, forall_eq_or_imp] at ordered
    refine ih rest ?_ (keep s a m ordered.1.1 first start)
    rw [tick s a m first]
    exact List.pairwise_cons.mpr ordered.2

end Kit.Checked

/-! Preconditions and postconditions of fallible computations whose errors are of two kinds:
refusals that a caller may meet, and faults that must never occur. -/
namespace Kit.Checked

universe u v
variable {ε : Type u} {α β σ : Type v} {fault : ε → Prop}

/-- The computation never stops with a fault, and what it returns satisfies `post`. -/
def Ensures (fault : ε → Prop) (x : Except ε α) (post : α → Prop) : Prop :=
  match x with
  | .ok a => post a
  | .error e => ¬ fault e

theorem Ensures.ok {x : Except ε α} {post : α → Prop} {a : α} (h : Ensures fault x post)
    (returned : x = .ok a) : post a := by
  subst returned
  exact h

theorem Ensures.error {x : Except ε α} {post : α → Prop} {e : ε} (h : Ensures fault x post)
    (stopped : x = .error e) : ¬ fault e := by
  subst stopped
  exact h

theorem Ensures.mono {x : Except ε α} {post post' : α → Prop} (h : Ensures fault x post)
    (weaker : ∀ a, post a → post' a) : Ensures fault x post' := by
  cases x with
  | error e => exact h
  | ok a => exact weaker a h

theorem Ensures.fewer {fault' : ε → Prop} {x : Except ε α} {post : α → Prop}
    (h : Ensures fault x post) (fewer : ∀ e, fault' e → fault e) : Ensures fault' x post := by
  cases x with
  | error e => exact mt (fewer e) h
  | ok a => exact h

/-- Knowing what a success means, only its faults are left to exclude. -/
theorem ensures_of_ok {x : Except ε α} {post : α → Prop} (safe : ∀ e, x = .error e → ¬ fault e)
    (sound : ∀ a, x = .ok a → post a) : Ensures fault x post := by
  cases x with
  | error e => exact safe e rfl
  | ok a => exact sound a rfl

@[simp] theorem ensures_ok {a : α} {post : α → Prop} : Ensures fault (.ok a) post ↔ post a := Iff.rfl

@[simp] theorem ensures_pure {a : α} {post : α → Prop} :
    Ensures fault (pure a : Except ε α) post ↔ post a := Iff.rfl

@[simp] theorem ensures_error {e : ε} {post : α → Prop} :
    Ensures fault (.error e : Except ε α) post ↔ ¬ fault e := Iff.rfl

@[simp] theorem ensures_bind {x : Except ε α} {f : α → Except ε β} {post : β → Prop} :
    Ensures fault (x >>= f) post ↔ Ensures fault x fun a => Ensures fault (f a) post := by
  cases x with
  | error e => exact Iff.rfl
  | ok a => exact Iff.rfl

@[simp] theorem ensures_map {x : Except ε α} {f : α → β} {post : β → Prop} :
    Ensures fault (f <$> x) post ↔ Ensures fault x fun a => post (f a) := by
  cases x with
  | error e => exact Iff.rfl
  | ok a => exact Iff.rfl

@[simp] theorem ensures_refuse {c : Prop} [Decidable c] {e : ε} {post : PUnit → Prop} :
    Ensures fault (refuse c e) post ↔ (c → ¬ fault e) ∧ (¬ c → post ⟨⟩) := by
  by_cases h : c
  · simp [refuse, h]
  · simp [refuse, h]

@[simp] theorem ensures_okOr {o : Option α} {e : ε} {post : α → Prop} :
    Ensures fault (okOr o e) post ↔ (o = none → ¬ fault e) ∧ ∀ a, o = some a → post a := by
  cases o with
  | none => simp [okOr]
  | some a => simp [okOr]

@[simp] theorem ensures_ite {c : Prop} [Decidable c] {x y : Except ε α} {post : α → Prop} :
    Ensures fault (if c then x else y) post ↔
      (c → Ensures fault x post) ∧ (¬ c → Ensures fault y post) := by
  by_cases h : c
  · simp [h]
  · simp [h]

/-- What every step keeps without a fault, a whole run keeps without one. -/
theorem ensures_foldlM {step : σ → α → Except ε σ} {inv : σ → Prop} {as : List α} {s : σ}
    (keep : ∀ s, ∀ a ∈ as, inv s → Ensures fault (step s a) inv) (start : inv s) :
    Ensures fault (as.foldlM step s) inv := by
  induction as generalizing s with
  | nil => exact start
  | cons a as ih =>
    rw [List.foldlM_cons, ensures_bind]
    refine (keep s a (by simp) start).mono fun t here => ?_
    exact ih (fun u b hb => keep u b (by simp [hb])) here

end Kit.Checked

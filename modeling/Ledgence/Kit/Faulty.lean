import Mathlib.Logic.Basic

/-! Computations that keep what they did to a state when they stop early. -/
namespace Kit

def Faulty (σ ε α : Type) : Type := σ → Except ε α × σ

namespace Faulty
variable {σ ε α β : Type}

instance : Monad (Faulty σ ε) where
  pure a := fun s => (.ok a, s)
  bind x f := fun s =>
    match x s with
    | (.ok a, t) => f a t
    | (.error e, t) => (.error e, t)

def fail (e : ε) : Faulty σ ε α := fun s => (.error e, s)

def get : Faulty σ ε σ := fun s => (.ok s, s)

def update (f : σ → σ) : Faulty σ ε Unit := fun s => (.ok (), f s)

def each (f : α → Faulty σ ε Unit) : List α → Faulty σ ε Unit
  | [] => pure ()
  | a :: as => f a >>= fun _ => each f as

/-- From `s` the computation ends with a result and a state that satisfy `post`. -/
def Yields (s : σ) (x : Faulty σ ε α) (post : Except ε α → σ → Prop) : Prop :=
  post (x s).1 (x s).2

variable {s : σ} {x : Faulty σ ε α} {f : α → Faulty σ ε β} {a : α} {e : ε}
  {post post' : Except ε α → σ → Prop}

@[simp] theorem yields_pure : Yields s (pure a : Faulty σ ε α) post ↔ post (.ok a) s := Iff.rfl

@[simp] theorem yields_fail : Yields s (fail e) post ↔ post (.error e) s := Iff.rfl

@[simp] theorem yields_get {post : Except ε σ → σ → Prop} : Yields s get post ↔ post (.ok s) s :=
  Iff.rfl

@[simp] theorem yields_update {g : σ → σ} {post : Except ε Unit → σ → Prop} :
    Yields s (update g) post ↔ post (.ok ()) (g s) := Iff.rfl

theorem Yields.mono (h : Yields s x post) (weaker : ∀ r t, post r t → post' r t) :
    Yields s x post' :=
  weaker _ _ h

def Onward (f : α → Faulty σ ε β) (post : Except ε β → σ → Prop) : Except ε α → σ → Prop
  | .ok a, t => Yields t (f a) post
  | .error e, t => post (.error e) t

@[simp] theorem onward_ok {post : Except ε β → σ → Prop} :
    Onward f post (.ok a) s ↔ Yields s (f a) post := Iff.rfl

@[simp] theorem onward_error {post : Except ε β → σ → Prop} :
    Onward f post (.error e) s ↔ post (.error e) s := Iff.rfl

@[simp] theorem yields_bind {post : Except ε β → σ → Prop} :
    Yields s (x >>= f) post ↔ Yields s x (Onward f post) := by
  change post (match x s with | (.ok a, t) => f a t | (.error e, t) => (.error e, t)).1
    (match x s with | (.ok a, t) => f a t | (.error e, t) => (.error e, t)).2 ↔
    Onward f post (x s).1 (x s).2
  cases x s with
  | mk r t =>
    cases r with
    | ok a => exact Iff.rfl
    | error e => exact Iff.rfl

/-- A sequence: what the first part guarantees is enough for the second. -/
theorem Yields.bind {post : Except ε β → σ → Prop} (first : Yields s x post')
    (next : ∀ a t, post' (.ok a) t → Yields t (f a) post)
    (early : ∀ e t, post' (.error e) t → post (.error e) t) : Yields s (x >>= f) post := by
  rw [yields_bind]
  refine first.mono fun r t h => ?_
  cases r with
  | ok a => exact next a t h
  | error e => exact early e t h

end Faulty
end Kit

import FilterQuery.Error
import FilterQuery.Event

/-!
# Computations that report what they do

A `Traced` computation holds the events it emitted, in order, and an outcome. A failure ends the
computation and keeps the events up to it.
-/

namespace FilterQuery

structure Traced (α : Type) where
  events : List Event
  outcome : Except Error α

namespace Traced

variable {α β : Type}

def pure (a : α) : Traced α :=
  ⟨[], .ok a⟩

def fail (e : Error) : Traced α :=
  ⟨[], .error e⟩

def emit (e : Event) : Traced Unit :=
  ⟨[e], .ok ()⟩

def bind (x : Traced α) (f : α → Traced β) : Traced β :=
  match x.outcome with
  | .ok a => ⟨x.events ++ (f a).events, (f a).outcome⟩
  | .error e => ⟨x.events, .error e⟩

instance : Monad Traced where
  pure := pure
  bind := bind

theorem bind_assoc {γ : Type} (x : Traced α) (f : α → Traced β) (g : β → Traced γ) :
    (x.bind f).bind g = x.bind fun a => (f a).bind g := by
  obtain ⟨events, outcome⟩ := x
  cases outcome with
  | error e => rfl
  | ok a =>
    cases h : (f a).outcome with
    | error e => simp [bind, h]
    | ok b => simp [bind, h, List.append_assoc]

instance : LawfulMonad Traced :=
  LawfulMonad.mk' Traced
    (fun x => by obtain ⟨events, outcome⟩ := x; cases outcome <;> simp [Functor.map, bind, pure])
    (fun a f => by simp [Bind.bind, Pure.pure, bind, pure])
    bind_assoc

@[simp] theorem outcome_pure (a : α) : (Pure.pure a : Traced α).outcome = .ok a := rfl

@[simp] theorem outcome_fail (e : Error) : (fail e : Traced α).outcome = .error e := rfl

@[simp] theorem outcome_emit (e : Event) : (emit e).outcome = .ok () := rfl

@[simp] theorem outcome_map (f : α → β) (x : Traced α) : (f <$> x).outcome = x.outcome.map f := by
  obtain ⟨events, outcome⟩ := x
  cases outcome <;> rfl

@[simp] theorem outcome_bind (x : Traced α) (f : α → Traced β) :
    (x >>= f).outcome = x.outcome.bind fun a => (f a).outcome := by
  obtain ⟨events, outcome⟩ := x
  cases outcome <;> rfl

/-- A computation in two parts answers only if both parts do. -/
theorem outcome_bind_eq_ok {x : Traced α} {f : α → Traced β} {b : β} :
    (x >>= f).outcome = .ok b ↔ ∃ a, x.outcome = .ok a ∧ (f a).outcome = .ok b := by
  rw [outcome_bind]
  cases h : x.outcome with
  | error e => simp [Except.bind]
  | ok a => simp [Except.bind]

def ofExcept (x : Except Error α) : Traced α :=
  ⟨[], x⟩

end Traced

end FilterQuery

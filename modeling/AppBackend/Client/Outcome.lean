import AppBackend.Client.Failure
import AppBackend.Text.Numeral

/-!
# Outcomes

What an operation gives: a value, an error reply of the server, or a failure before or beside any
reply. The last two carry no value, so they pass through `map` and `andThen` unchanged.
-/

namespace AppBackend

/-- A reply with a status outside 200 to 299; the reason is its body as text. -/
structure RestError where
  status : Nat
  reason : String
deriving DecidableEq

def RestError.message (e : RestError) : String :=
  "HTTP " ++ String.ofList (Numeral.write e.status) ++ ": " ++ e.reason

inductive Outcome (α : Type) where
  | success (value : α)
  | rest (error : RestError)
  | fatal (failure : Failure)
deriving DecidableEq

namespace Outcome

variable {α β γ : Type}

def map (f : α → β) : Outcome α → Outcome β
  | .success v => .success (f v)
  | .rest e => .rest e
  | .fatal f => .fatal f

def andThen (o : Outcome α) (f : α → Outcome β) : Outcome β :=
  match o with
  | .success v => f v
  | .rest e => .rest e
  | .fatal f => .fatal f

def value? : Outcome α → Option α
  | .success v => some v
  | _ => none

def restError? : Outcome α → Option RestError
  | .rest e => some e
  | _ => none

def failure? : Outcome α → Option Failure
  | .fatal f => some f
  | _ => none

theorem exists_of_isSome_value? {o : Outcome α} (h : o.value?.isSome = true) :
    ∃ v, o = .success v := by
  cases o with
  | success v => exact ⟨v, rfl⟩
  | rest e => cases h
  | fatal f => cases h

theorem eq_of_value? {o : Outcome α} {v : α} (h : o.value? = some v) : o = .success v := by
  cases o with
  | success w => exact congrArg success (Option.some.inj h)
  | rest e => cases h
  | fatal f => cases h

theorem success_of_map {f : α → β} {o : Outcome α} {b : β} (h : o.map f = .success b) :
    ∃ a, o = .success a ∧ f a = b := by
  cases o with
  | success a => exact ⟨a, rfl, success.inj h⟩
  | rest e => cases h
  | fatal f => cases h

theorem map_map (f : α → β) (g : β → γ) (o : Outcome α) : (o.map f).map g = o.map (g ∘ f) := by
  cases o <;> rfl

end Outcome
end AppBackend

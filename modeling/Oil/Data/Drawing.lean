namespace Oil.Data

/-! # Computations that draw

A computation that puts questions to a random source.  A source answers each question in one of
several ways, and the results that some answers lead to are the possible ones. -/

inductive Drawing (Q : Type) (A : Q → Type) (α : Type) where
  | done (value : α)
  | draw (question : Q) (next : A question → Drawing Q A α)

namespace Drawing

variable {Q : Type} {A : Q → Type} {α β : Type}

def bind : Drawing Q A α → (α → Drawing Q A β) → Drawing Q A β
  | done value, rest => rest value
  | draw question next, rest => .draw question fun answer => (next answer).bind rest

instance : Monad (Drawing Q A) where
  pure := done
  bind := bind

/-- The question alone. -/
def ask (question : Q) : Drawing Q A (A question) := .draw question .done

/-- The results of a computation, where `admits` tells the answers there are to a question. -/
inductive Possible (admits : ∀ question, A question → Prop) : Drawing Q A α → α → Prop where
  | done (value : α) : Possible admits (.done value) value
  | draw {question : Q} {next : A question → Drawing Q A α} {answer : A question} {value : α}
      (admitted : admits question answer) (later : Possible admits (next answer) value) :
      Possible admits (.draw question next) value

variable {admits : ∀ question, A question → Prop}

@[simp] theorem possible_pure {value result : α} :
    Possible admits (pure value : Drawing Q A α) result ↔ result = value := by
  constructor
  · intro possible
    cases possible with
    | done => rfl
  · intro same
    rw [same]
    exact .done value

@[simp] theorem possible_ask {question : Q} {answer : A question} :
    Possible admits (ask question) answer ↔ admits question answer := by
  constructor
  · intro possible
    cases possible with
    | draw admitted later =>
        cases later with
        | done => exact admitted
  · exact fun admitted => .draw admitted (.done answer)

@[simp] theorem possible_bind {first : Drawing Q A α} {rest : α → Drawing Q A β} {result : β} :
    Possible admits (first >>= rest) result ↔
      ∃ value, Possible admits first value ∧ Possible admits (rest value) result := by
  constructor
  · intro possible
    induction first with
    | done value => exact ⟨value, .done value, possible⟩
    | draw question next ih =>
        cases possible with
        | draw admitted later =>
            obtain ⟨value, reached, after⟩ := ih _ later
            exact ⟨value, .draw admitted reached, after⟩
  · intro ⟨value, reached, after⟩
    induction reached with
    | done => exact after
    | draw admitted _ ih => exact .draw admitted (ih after)

end Drawing

end Oil.Data

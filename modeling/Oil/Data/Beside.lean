namespace Oil.Data

/-! # Runs beside a state

A plain run has a result or gets lost.  The same run in a state beside it has that result and
a state in relation `R` to the first one; or it gets lost too; or it fails in a way that is
excused. -/

variable {σ ε α β ι : Type} {R : σ → σ → Prop} {lost : ε} {excused : ε → Prop} {s s' : σ}

/-- The run in the state `s` does what the plain run does, unless it fails with an excuse. -/
def Follows (R : σ → σ → Prop) (lost : ε) (excused : ε → Prop) (s : σ) (plain : Option α)
    (run : Except ε (α × σ)) : Prop :=
  (∃ e, excused e ∧ run = .error e) ∨ plain = none ∧ run = .error lost ∨
    ∃ a s', plain = some a ∧ run = .ok (a, s') ∧ R s s'

namespace Follows

variable {plain : Option α} {run : Except ε (α × σ)} {f : α → Option β} {g : α → σ → Except ε (β × σ)}

theorem returned (related : R s s') (a : α) : Follows R lost excused s (some a) (.ok (a, s')) :=
  .inr (.inr ⟨a, s', rfl, rfl, related⟩)

theorem strays : Follows R lost excused s (none : Option α) (.error lost) := .inr (.inl ⟨rfl, rfl⟩)

theorem fails {e : ε} (excuse : excused e) : Follows R lost excused s plain (.error e) := .inl ⟨e, excuse, rfl⟩

/-- Where the states in relation to the later one are in relation to the earlier one too. -/
theorem earlier (related : R s s') (trans : ∀ a b c, R a b → R b c → R a c)
    (follows : Follows R lost excused s' plain run) : Follows R lost excused s plain run := by
  rcases follows with excuse | stray | ⟨a, last, found, ran, after⟩
  · exact .inl excuse
  · exact .inr (.inl stray)
  · exact .inr (.inr ⟨a, last, found, ran, trans _ _ _ related after⟩)

/-- One run after the other, of which the second one says how the states are related to the start. -/
theorem bind {R' : σ → σ → Prop} {start : σ} (first : Follows R lost excused s plain run)
    (next : ∀ a s', R s s' → Follows R' lost excused start (f a) (g a s')) :
    Follows R' lost excused start (plain.bind f) (run.bind fun result => g result.1 result.2) := by
  rcases first with ⟨e, excuse, rfl⟩ | ⟨rfl, rfl⟩ | ⟨a, s', rfl, rfl, related⟩
  · exact fails excuse
  · exact strays
  · exact next a s' related

/-- A loop over items that goes on with what the round before left. -/
theorem foldl {f : α → ι → Option α} {g : α → ι → σ → Except ε (α × σ)}
    (trans : ∀ a b c, R a b → R b c → R a c) (items : List ι)
    (each : ∀ item ∈ items, ∀ a s', R s s' → Follows R lost excused s' (f a item) (g a item s'))
    (first : Follows R lost excused s plain run) :
    Follows R lost excused s (items.foldl (fun plain item => plain.bind fun a => f a item) plain)
      (items.foldl (fun run item => run.bind fun result => g result.1 item result.2) run) := by
  induction items generalizing plain run with
  | nil => exact first
  | cons item items ih =>
      obtain ⟨now, later⟩ := List.forall_mem_cons.mp each
      exact ih later (first.bind fun a s' related => (now a s' related).earlier related trans)

end Follows

end Oil.Data

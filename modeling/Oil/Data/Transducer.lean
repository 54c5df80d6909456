namespace Oil.Data

/-! # Transducers

A transducer reads letters one by one and hands out tokens on the way.  What it makes of a text
that is put together from parts it makes of the parts, one after the other. -/

variable {σ α τ : Type} (step : σ → α → σ × List τ)

/-- The state after the letters, and the tokens handed out. -/
def transduce : σ → List α → σ × List τ
  | s, [] => (s, [])
  | s, a :: letters =>
      let now := step s a
      let later := transduce now.1 letters
      (later.1, now.2 ++ later.2)

variable {step} {s mid last : σ} {first second : List τ}

theorem transduce_append (letters rest : List α) (s : σ) :
    transduce step s (letters ++ rest) =
      ((transduce step (transduce step s letters).1 rest).1,
        (transduce step s letters).2 ++ (transduce step (transduce step s letters).1 rest).2) := by
  induction letters generalizing s with
  | nil => rfl
  | cons a letters ih =>
      rw [List.cons_append, transduce, transduce, ih]
      simp only [List.append_assoc]

/-- The rule of sequence. -/
theorem transduce_seq {letters rest : List α} (before : transduce step s letters = (mid, first))
    (behind : transduce step mid rest = (last, second)) :
    transduce step s (letters ++ rest) = (last, first ++ second) := by
  rw [transduce_append, before, behind]

theorem transduce_flatMap {β : Type} {parts : List β} {text : β → List α} {out : β → List τ}
    (each : ∀ part ∈ parts, transduce step s (text part) = (s, out part)) :
    transduce step s (parts.flatMap text) = (s, parts.flatMap out) := by
  induction parts with
  | nil => rfl
  | cons part parts ih =>
      rw [List.flatMap_cons, List.flatMap_cons]
      exact transduce_seq (each part (.head _)) (ih fun other member => each other (.tail _ member))

/-- Letters that are gathered in the state. -/
theorem transduce_gathers {mode : List α → σ} {gathered : α → Prop}
    (keeps : ∀ word a, gathered a → step (mode word) a = (mode (word ++ [a]), [])) {letters : List α}
    (all : ∀ a ∈ letters, gathered a) (word : List α) :
    transduce step (mode word) letters = (mode (word ++ letters), []) := by
  induction letters generalizing word with
  | nil => rw [List.append_nil, transduce]
  | cons a letters ih =>
      rw [transduce, keeps word a (all a (.head _)), ih fun b member => all b (.tail _ member)]
      rw [List.append_assoc, List.singleton_append, List.nil_append]

/-- Letters that do not lead out of some states, and the tokens they give. -/
theorem transduce_within {within : σ → Prop} {passed : α → Prop} {read : τ → Prop}
    (stays : ∀ s a, within s → passed a → within (step s a).1 ∧ ∀ token ∈ (step s a).2, read token) {letters : List α}
    (all : ∀ a ∈ letters, passed a) (inside : within s) :
    within (transduce step s letters).1 ∧ ∀ token ∈ (transduce step s letters).2, read token := by
  induction letters generalizing s with
  | nil => exact ⟨inside, nofun⟩
  | cons a letters ih =>
      obtain ⟨insideNext, now⟩ := stays s a inside (all a (.head _))
      obtain ⟨insideLast, later⟩ := ih (fun b member => all b (.tail _ member)) insideNext
      refine ⟨insideLast, fun token member => ?_⟩
      rcases List.mem_append.mp member with early | late
      · exact now token early
      · exact later token late

/-- Letters that are passed over. -/
theorem transduce_silent {within : σ → Prop} {passed : α → Prop}
    (stays : ∀ s a, within s → passed a → within (step s a).1 ∧ (step s a).2 = []) {letters : List α}
    (all : ∀ a ∈ letters, passed a) (inside : within s) :
    within (transduce step s letters).1 ∧ (transduce step s letters).2 = [] := by
  have nothing (s : σ) (a : α) (inside : within s) (passes : passed a) :
      within (step s a).1 ∧ ∀ token ∈ (step s a).2, False := by
    obtain ⟨insideNext, empty⟩ := stays s a inside passes
    exact ⟨insideNext, by simp [empty]⟩
  obtain ⟨insideLast, none⟩ := transduce_within nothing all inside
  exact ⟨insideLast, List.eq_nil_iff_forall_not_mem.mpr none⟩

end Oil.Data

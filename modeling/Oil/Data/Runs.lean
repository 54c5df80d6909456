namespace Oil.Data

/-! # Runs

A system takes a step for each action, or stops.  What holds in every state of a run, and
what each step of it meets, are said here once for all systems. -/

variable {σ α : Type} {step : σ → α → Option σ} {P : σ → Prop} {g h : σ → α → Prop}
  {s : σ} {as : List α}

/-- `P` holds now and after each of the actions, as far as the run goes. -/
def Always (step : σ → α → Option σ) (P : σ → Prop) : σ → List α → Prop
  | s, [] => P s
  | s, a :: as => P s ∧ ∀ next, step s a = some next → Always step P next as

/-- Every step that is taken meets `g`. -/
def Guarded (step : σ → α → Option σ) (g : σ → α → Prop) : σ → List α → Prop
  | _, [] => True
  | s, a :: as => ∀ next, step s a = some next → g s a ∧ Guarded step g next as

/-- Every step meets `g`, be it taken or not. -/
def Meets (step : σ → α → Option σ) (g : σ → α → Prop) : σ → List α → Prop
  | _, [] => True
  | s, a :: as => g s a ∧ ∀ next, step s a = some next → Meets step g next as

instance Meets.decidable [∀ s a, Decidable (g s a)] :
    (s : σ) → (as : List α) → Decidable (Meets step g s as)
  | _, [] => isTrue trivial
  | s, a :: as =>
      match taken : step s a with
      | none => decidable_of_iff (g s a) (by simp [Meets, taken])
      | some next =>
          have := Meets.decidable next as
          decidable_of_iff (g s a ∧ Meets step g next as) (by simp [Meets, taken])

namespace Always

theorem now (always : Always step P s as) : P s := by
  cases as with
  | nil => exact always
  | cons a as => exact always.1

/-- The invariant rule.  The invariant may speak of the actions still to come. -/
theorem of_invariant (I : σ → List α → Prop) (holds : ∀ s as, I s as → P s)
    (keeps : ∀ s a as next, I s (a :: as) → step s a = some next → I next as) (start : I s as) :
    Always step P s as := by
  induction as generalizing s with
  | nil => exact holds s [] start
  | cons a as ih => exact ⟨holds s _ start, fun next stepped => ih (keeps s a as next start stepped)⟩

/-- Where an unguarded step breaks `P` or misses `h` at once, both hold throughout exactly the
guarded runs. -/
theorem and_guarded_iff (I : σ → Prop) (holds : ∀ s, I s → P s)
    (keeps : ∀ s a next, I s → step s a = some next → g s a → I next ∧ h s a)
    (breaks : ∀ s a next, I s → step s a = some next → ¬ g s a → P next → ¬ h s a) (start : I s) :
    Always step P s as ∧ Guarded step h s as ↔ Guarded step g s as := by
  induction as generalizing s with
  | nil => exact ⟨fun _ => trivial, fun _ => ⟨holds s start, trivial⟩⟩
  | cons a as ih =>
      constructor
      · rintro ⟨⟨_, always⟩, meets⟩ next stepped
        have guarded : g s a := Classical.byContradiction fun unguarded =>
          breaks s a next start stepped unguarded (always next stepped).now (meets next stepped).1
        have kept := (keeps s a next start stepped guarded).1
        exact ⟨guarded, (ih kept).mp ⟨always next stepped, (meets next stepped).2⟩⟩
      · intro guarded
        refine ⟨⟨holds s start, fun next stepped => ?_⟩, fun next stepped => ?_⟩
        · obtain ⟨now, rest⟩ := guarded next stepped
          exact ((ih (keeps s a next start stepped now).1).mpr rest).1
        · obtain ⟨now, rest⟩ := guarded next stepped
          obtain ⟨kept, met⟩ := keeps s a next start stepped now
          exact ⟨met, ((ih kept).mpr rest).2⟩

theorem iff_guarded (I : σ → Prop) (holds : ∀ s, I s → P s)
    (keeps : ∀ s a next, I s → step s a = some next → g s a → I next)
    (breaks : ∀ s a next, I s → step s a = some next → ¬ g s a → ¬ P next) (start : I s) :
    Always step P s as ↔ Guarded step g s as := by
  have nothing : ∀ s, Guarded step (fun _ _ => True) s as := by
    induction as with
    | nil => exact fun _ => trivial
    | cons a as ih => exact fun _ next _ => ⟨trivial, ih next⟩
  have both := @and_guarded_iff σ α step P g (fun _ _ => True) s as I holds
    (fun s a next kept stepped guarded => ⟨keeps s a next kept stepped guarded, trivial⟩)
    (fun s a next kept stepped unguarded after => absurd after (breaks s a next kept stepped unguarded)) start
  exact ⟨fun always => both.mp ⟨always, nothing s⟩, fun guarded => (both.mpr guarded).1⟩

end Always

namespace Meets

theorem trivial : Meets step (fun _ _ => True) s as := by
  induction as generalizing s with
  | nil => exact True.intro
  | cons a as ih => exact ⟨True.intro, fun _ _ => ih⟩

theorem and (first : Meets step g s as) (second : Meets step h s as) : Meets step (fun s a => g s a ∧ h s a) s as := by
  induction as generalizing s with
  | nil => exact True.intro
  | cons a as ih =>
      exact ⟨⟨first.1, second.1⟩, fun next stepped => ih (first.2 next stepped) (second.2 next stepped)⟩

/-- Where every step that meets `g` can be taken, the run goes through. -/
theorem returns (I : σ → Prop) (goes : ∀ s a, I s → g s a → ∃ next, step s a = some next ∧ I next)
    (start : I s) (meets : Meets step g s as) : ∃ last, as.foldlM step s = some last ∧ I last := by
  induction as generalizing s with
  | nil => exact ⟨s, rfl, start⟩
  | cons a as ih =>
      obtain ⟨next, stepped, kept⟩ := goes s a start meets.1
      obtain ⟨last, ran, keptLast⟩ := ih kept (meets.2 next stepped)
      refine ⟨last, ?_, keptLast⟩
      rw [List.foldlM_cons, stepped]
      exact ran

end Meets

end Oil.Data

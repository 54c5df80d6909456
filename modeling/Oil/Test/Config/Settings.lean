import Oil.Test.Config.Returns

namespace Oil.Test.ConfigStack

open Oil.Data

/-! # Valid frames

Every option guards its value, but the `continue` of the guard stays inside `oil_act_if_fail`. -/

variable {G : Type} {env : Environment G} {s t : State G} {f top : OilTestConfig} {base : List OilTestConfig}

structure OilTestConfig.Valid (f : OilTestConfig) : Prop where
  logFd : f.logFd ≥ -1
  testHeader : f.testHeader ≥ 0
  testFooter : f.testFooter ≥ 0
  testM : f.testM ≥ 0
  testN : f.testN ≥ 0
  iterations : f.iterations > 0
  toleranceHigh : f.toleranceHigh.atLeastZero
  toleranceLow : f.toleranceLow.atLeastZero

def State.Valid (s : State G) : Prop := ∀ f ∈ s.stack, f.Valid

/-- The value passes the guard of its option, if there is one. -/
def Setting.valid : Setting → Bool
  | .logFd value | .headerLen value | .footerLen value | .testM value | .testN value => decide (value ≥ 0)
  | .iterations value => decide (value > 0)
  | .toleranceHigh value | .toleranceLow value => value.atLeastZero
  | .seed _ | .silent _ | .other _ _ => true

section Moves

/-- What a call does, option by option. -/
inductive Move (G : Type) where
  | start
  | push
  | option (setting : Setting)
  | get (nParams : Int) (opts : List Int)
  | rand (draw : G → G)
  | pop
  | popAll

def move (env : Environment G) (s : State G) : Move G → Option (State G)
  | .start => some (s.mayInit env).2
  | .push =>
      let (first, s) := s.mayInit env
      if first then some s else s.dupTopFrame
  | .option setting => s.setOption env setting
  | .get nParams opts => (s.vget env nParams opts).map Prod.snd
  | .rand draw => s.useRand env draw
  | .pop => some s.pop
  | .popAll => some s.popAll

def Call.moves : Call G → List (Move G)
  | .push nParams args => .push :: ((processed nParams (State.rounds nParams) args).getD []).map .option
  | .set nParams args => .start :: ((processed nParams (State.rounds nParams) args).getD []).map .option
  | .get nParams opts => [.get nParams opts]
  | .rand draw => [.rand draw]
  | .pop => [.pop]
  | .popAll => [.popAll]

theorem vsetLoop_moves {nParams : Int} {args : List Setting}
    (set : s.vsetLoop env nParams (State.rounds nParams) args = some t) :
    (((processed nParams (State.rounds nParams) args).getD []).map Move.option).foldlM (move env) s = some t := by
  rw [vsetLoop_eq] at set
  obtain ⟨settings, read, set⟩ := Option.bind_eq_some_iff.mp set
  rw [read, Option.getD_some, List.foldlM_map]
  exact set

theorem mayInit_again (s : State G) : (s.mayInit env).2.mayInit env = (false, (s.mayInit env).2) := by
  cases stack : s.stack with
  | nil => simp only [State.mayInit, stack]
  | cons top base =>
      rw [mayInit_of_cons stack]
      exact mayInit_of_cons stack

theorem strdup_stack {p : Nat} {result : Nat × State G} (duplicated : s.strdup p = some result) :
    result.2.stack = s.stack := by
  unfold State.strdup at duplicated
  split at duplicated
  · obtain rfl := Option.some.inj duplicated
    rfl
  · split at duplicated
    · obtain rfl := Option.some.inj duplicated
      rfl
    · contradiction

theorem randCopy_stack {p : Nat} {result : Nat × State G} (copied : s.randCopy p = some result) :
    result.2.stack = s.stack := by
  unfold State.randCopy at copied
  split at copied
  · obtain rfl := Option.some.inj copied
    rfl
  · split at copied
    · obtain rfl := Option.some.inj copied
      rfl
    · contradiction

theorem dupTopFrame_stack (duplicated : s.dupTopFrame = some t) :
    ∃ top base seedStr rand, s.stack = top :: base ∧ t.stack = { top with seedStr, rand } :: s.stack := by
  cases stack : s.stack with
  | nil => simp [State.dupTopFrame, stack] at duplicated
  | cons top base =>
      simp only [State.dupTopFrame, stack, Option.bind_eq_bind, Option.bind_eq_some_iff] at duplicated
      obtain ⟨⟨seedStr, u⟩, duplicated, ⟨rand, v⟩, copied, pushed⟩ := duplicated
      obtain rfl := Option.some.inj pushed
      have kept : v.stack = top :: base := (randCopy_stack copied).trans ((strdup_stack duplicated).trans stack)
      exact ⟨top, base, seedStr, rand, rfl, by rw [← kept]⟩

theorem push_eq (s : State G) (nParams : Int) (args : List Setting) :
    s.push env nParams args = (move env s .push).bind fun pushed => pushed.vset env nParams args := by
  rcases started : s.mayInit env with ⟨first, u⟩
  simp only [State.push, move, started]
  cases first <;> rfl

theorem step_moves {call : Call G} (stepped : step env s call = some t) : call.moves.foldlM (move env) s = some t := by
  cases call with
  | push nParams args =>
      obtain ⟨u, pushed, set⟩ := Option.bind_eq_some_iff.mp ((push_eq s nParams args).symm.trans stepped)
      have ready : u.mayInit env = (false, u) := by
        simp only [move] at pushed
        split at pushed
        · obtain rfl := Option.some.inj pushed
          exact mayInit_again s
        · obtain ⟨_, _, _, _, _, stack⟩ := dupTopFrame_stack pushed
          exact mayInit_of_cons stack
      rw [State.vset, ready] at set
      rw [Call.moves, List.foldlM_cons, pushed]
      exact vsetLoop_moves set
  | set nParams args => exact vsetLoop_moves stepped
  | _ => simpa [Call.moves, move, step] using stepped

theorem run_moves {calls : List (Call G)} (ran : run env s calls = some t) :
    (calls.flatMap Call.moves).foldlM (move env) s = some t := by
  induction calls generalizing s with
  | nil => exact ran
  | cons call calls ih =>
      obtain ⟨u, stepped, rest⟩ := run_cons ran
      rw [List.flatMap_cons, List.foldlM_append, step_moves stepped]
      exact ih rest

end Moves

section Validity

variable {setting : Setting}

theorem firstFrame_valid (seedStr rand : Nat) : (State.firstFrame seedStr rand).Valid := by
  have high : (State.firstFrame seedStr rand).toleranceHigh.atLeastZero = true := by
    change decide ((0 : Rat) ≤ mkRat 4611686018427388 (2 ^ 62)) = true
    decide +kernel
  exact ⟨by simp [State.firstFrame], by simp [State.firstFrame], by simp [State.firstFrame], by simp [State.firstFrame],
    by simp [State.firstFrame], by simp [State.firstFrame], high, by simp [State.firstFrame, Gdouble.atLeastZero]⟩

theorem setGuarded_stack (s : State G) (valid : Bool) (warning : Warning) (change : OilTestConfig → OilTestConfig) :
    (s.setGuarded valid warning change).stack = (s.assign change).stack := by
  cases valid with
  | true => rfl
  | false =>
      change ((s.warn warning).assign change).stack = _
      unfold State.assign
      split <;> rename_i stack <;> simp [State.warn] at stack <;> simp [stack, State.warn]

@[simp] theorem release_stack (s : State G) (p : Nat) : (s.release p).stack = s.stack := by
  unfold State.release
  split <;> rfl

theorem genSeed_stack {seedStr : Option (List Char)} {made : Nat × Nat}
    (generated : s.genSeed env seedStr = some (made, t)) :
    t.stack = s.stack := by
  match seedStr with
  | none | some [] =>
      obtain rfl := (Prod.mk.inj (Option.some.inj generated)).2
      rfl
  | some (c :: text) =>
      simp only [State.genSeed, Option.map_eq_some_iff] at generated
      obtain ⟨seed, _, allocated⟩ := generated
      obtain rfl := (Prod.mk.inj allocated).2
      rfl

theorem setSeed_stack {seedStr : Option (List Char)} (set : s.setSeed env seedStr = some t) :
    t.stack = s.stack ∨ ∃ seedStr rand, t.stack = (s.assign fun f => { f with rand, seedStr }).stack := by
  simp only [State.setSeed, Option.bind_eq_bind, Option.bind_eq_some_iff] at set
  obtain ⟨⟨⟨seedStr, rand⟩, u⟩, generated, set⟩ := set
  have same := genSeed_stack generated
  split at set
  · obtain rfl := Option.some.inj set
    exact .inl same
  · right
    refine ⟨seedStr, rand, ?_⟩
    cases stack : s.stack with
    | nil => simp [same, stack] at set
    | cons top base =>
        simp only [same, stack] at set
        obtain rfl := Option.some.inj set
        split <;> simp [State.assign, same, stack]

/-- Every option changes the top frame, and makes a valid one of it if the value is valid. -/
theorem setOption_stack (set : s.setOption env setting = some t) :
    ∃ change : OilTestConfig → OilTestConfig, t.stack = (s.assign change).stack ∧
      (∀ f, f.Valid → ((change f).Valid ↔ setting.valid ∨ setting = .logFd (-1))) ∧
      (setting = .logFd (-1) → ∀ f, change f = { f with logFd := -1 }) := by
  have unguarded (change : OilTestConfig → OilTestConfig) (stack : t.stack = (s.assign change).stack)
      (other : setting ≠ .logFd (-1)) (same : ∀ f, f.Valid → ((change f).Valid ↔ setting.valid)) :
      ∃ change : OilTestConfig → OilTestConfig, t.stack = (s.assign change).stack ∧
        (∀ f, f.Valid → ((change f).Valid ↔ setting.valid ∨ setting = .logFd (-1))) ∧
        (setting = .logFd (-1) → ∀ f, change f = { f with logFd := -1 }) :=
    ⟨change, stack, fun f valid => (same f valid).trans (or_iff_left other).symm, fun is => absurd is other⟩
  have nothing : (s.assign id).stack = s.stack := by
    unfold State.assign
    split <;> simp [*]
  cases setting with
  | logFd fd =>
      obtain rfl := Option.some.inj set
      refine ⟨_, setGuarded_stack .., fun f valid => ⟨fun after => ?_, fun value => { valid with logFd := ?_ }⟩,
        fun is f => by rw [Setting.logFd.inj is]⟩
      · have atLeast : fd ≥ -1 := after.logFd
        simp only [Setting.valid, decide_eq_true_eq, Setting.logFd.injEq]
        omega
      · simp only [Setting.valid, decide_eq_true_eq, Setting.logFd.injEq] at value
        change fd ≥ -1
        omega
  | seed seedStr =>
      rcases setSeed_stack set with same | ⟨text, rand, stack⟩
      · exact unguarded id (same.trans nothing.symm) (by simp) fun f valid => iff_of_true valid rfl
      · exact unguarded _ stack (by simp) fun f valid => iff_of_true { valid with } rfl
  | silent silent =>
      obtain rfl := Option.some.inj set
      exact unguarded _ rfl (by simp) fun f valid => iff_of_true { valid with } rfl
  | other opt unknown =>
      obtain rfl := Option.some.inj set
      exact unguarded id nothing.symm (by simp) fun f valid => iff_of_true valid rfl
  | headerLen value =>
      obtain rfl := Option.some.inj set
      exact unguarded _ (setGuarded_stack ..) (by simp) fun f valid =>
        ⟨fun after => decide_eq_true after.testHeader, fun value => { valid with testHeader := of_decide_eq_true value }⟩
  | footerLen value =>
      obtain rfl := Option.some.inj set
      exact unguarded _ (setGuarded_stack ..) (by simp) fun f valid =>
        ⟨fun after => decide_eq_true after.testFooter, fun value => { valid with testFooter := of_decide_eq_true value }⟩
  | testM value =>
      obtain rfl := Option.some.inj set
      exact unguarded _ (setGuarded_stack ..) (by simp) fun f valid =>
        ⟨fun after => decide_eq_true after.testM, fun value => { valid with testM := of_decide_eq_true value }⟩
  | testN value =>
      obtain rfl := Option.some.inj set
      exact unguarded _ (setGuarded_stack ..) (by simp) fun f valid =>
        ⟨fun after => decide_eq_true after.testN, fun value => { valid with testN := of_decide_eq_true value }⟩
  | iterations value =>
      obtain rfl := Option.some.inj set
      exact unguarded _ (setGuarded_stack ..) (by simp) fun f valid =>
        ⟨fun after => decide_eq_true after.iterations, fun value => { valid with iterations := of_decide_eq_true value }⟩
  | toleranceHigh value =>
      obtain rfl := Option.some.inj set
      exact unguarded _ (setGuarded_stack ..) (by simp) fun f valid =>
        ⟨fun after => after.toleranceHigh, fun value => { valid with toleranceHigh := value }⟩
  | toleranceLow value =>
      obtain rfl := Option.some.inj set
      exact unguarded _ (setGuarded_stack ..) (by simp) fun f valid =>
        ⟨fun after => after.toleranceLow, fun value => { valid with toleranceLow := value }⟩

theorem mayInit_valid (env : Environment G) (valid : s.Valid) : (s.mayInit env).2.Valid := by
  cases stack : s.stack with
  | nil =>
      intro f member
      simp only [State.mayInit, stack, List.mem_singleton] at member
      rw [member]
      exact firstFrame_valid _ _
  | cons top base => rwa [mayInit_of_cons stack]

theorem vgetLoop_stack {nParams : Int} {rounds : Nat} {opts : List Int} {result : List Value × State G}
    (got : s.vgetLoop nParams f rounds opts = some result) : result.2.stack = s.stack := by
  induction opts generalizing rounds result with
  | nil =>
      cases rounds with
      | zero =>
          obtain rfl := Option.some.inj got
          rfl
      | succ rounds => contradiction
  | cons opt opts ih =>
      cases rounds with
      | zero =>
          obtain rfl := Option.some.inj got
          rfl
      | succ rounds =>
          simp only [State.vgetLoop] at got
          split at got
          · obtain rfl := Option.some.inj got
            rfl
          · split at got
            · obtain rfl := Option.some.inj got
              rfl
            · obtain ⟨more, read, rfl⟩ := Option.map_eq_some_iff.mp got
              have tail := ih read
              exact tail

theorem vget_stack {nParams : Int} {opts : List Int} {result : List Value × State G}
    (got : s.vget env nParams opts = some result) : result.2.stack = (s.mayInit env).2.stack := by
  simp only [State.vget] at got
  split at got
  · contradiction
  · exact vgetLoop_stack got

theorem useRand_stack {draw : G → G} (used : s.useRand env draw = some t) : t.stack = (s.mayInit env).2.stack := by
  simp only [State.useRand] at used
  split at used
  · contradiction
  · split at used
    · obtain rfl := Option.some.inj used
      rfl
    · contradiction

theorem freeFrame_stack (s : State G) (f : OilTestConfig) : (s.freeFrame f).stack = s.stack := by
  rw [State.freeFrame, release_stack, release_stack]

theorem popFrames_valid {frames : List OilTestConfig} (valid : s.Valid) (frames' : ∀ f ∈ frames, f.Valid) :
    (s.popFrames frames).Valid := by
  induction frames generalizing s with
  | nil => exact valid
  | cons f rest ih =>
      have below : ∀ g ∈ rest, g.Valid := fun g member => frames' g (.tail _ member)
      have popped : ({ s with stack := rest }.freeFrame f).Valid := fun g member =>
        below g (by rwa [freeFrame_stack] at member)
      exact ih popped below

/-- The option is one with a valid value, or it gives `log_fd` the -1 it has. -/
def Admissible (s : State G) (m : Move G) : Prop :=
  ∀ setting, m = .option setting → setting.valid ∨ ∀ f, s.stack.head? = some f → setting = .logFd (-1) ∧ f.logFd = -1

/-- An option with an invalid value changes nothing in the stack. -/
def InvalidIgnored (env : Environment G) (s : State G) (m : Move G) : Prop :=
  ∀ setting, m = .option setting → setting.valid = false → ∀ t, s.setOption env setting = some t → t.stack = s.stack

theorem option_keeps (valid : s.Valid) (set : s.setOption env setting = some t)
    (admissible : Admissible s (.option setting)) : t.Valid ∧ InvalidIgnored env s (.option setting) := by
  have kept (after : State G) (set : s.setOption env setting = some after) :
      after.Valid ∧ (setting.valid = false → after.stack = s.stack) := by
    obtain ⟨change, stack, validIff, same⟩ := setOption_stack set
    cases before : s.stack with
    | nil =>
        rw [State.assign, before] at stack
        simp [State.Valid, stack, before]
    | cons top base =>
        have changed : after.stack = change top :: base := by rw [stack, State.assign, before]
        have validTop : top.Valid := valid top (before ▸ .head _)
        have fine : setting.valid ∨ setting = .logFd (-1) ∧ top.logFd = -1 :=
          (admissible setting rfl).imp_right fun either => either top (by rw [before, List.head?_cons])
        refine ⟨fun f member => ?_, fun invalid => ?_⟩
        · rw [changed] at member
          rcases List.mem_cons.mp member with rfl | below
          · exact (validIff top validTop).mpr (fine.imp_right And.left)
          · exact valid f (before ▸ .tail _ below)
        · obtain ⟨is, already⟩ := fine.resolve_left (by rw [invalid]; exact Bool.false_ne_true)
          rw [changed, same is top, ← already]
  refine ⟨(kept t set).1, fun other is invalid after setAfter => ?_⟩
  obtain rfl := Move.option.inj is
  exact (kept after setAfter).2 invalid

theorem option_breaks (set : s.setOption env setting = some t) (valid : s.Valid)
    (inadmissible : ¬ Admissible s (.option setting)) (after : t.Valid) : ¬ InvalidIgnored env s (.option setting) := by
  intro ignored
  refine inadmissible fun other is => ?_
  obtain rfl := Move.option.inj is
  cases passes : setting.valid with
  | true => exact .inl rfl
  | false =>
      refine .inr fun top head => ?_
      obtain ⟨base, before⟩ := List.head?_eq_some_iff.mp head
      obtain ⟨change, stack, validIff, same⟩ := setOption_stack set
      have changed : t.stack = change top :: base := by rw [stack, State.assign, before]
      have unchanged : t.stack = top :: base := (ignored setting rfl passes t set).trans before
      have validChange : (change top).Valid := after _ (changed ▸ .head _)
      have minus : setting = .logFd (-1) := by
        rcases (validIff top (valid top (before ▸ .head _))).mp validChange with does | is
        · rw [passes] at does
          contradiction
        · exact is
      have top_eq : change top = top := (List.cons.inj (changed.symm.trans unchanged)).1
      rw [same minus top] at top_eq
      exact ⟨minus, (congrArg OilTestConfig.logFd top_eq).symm⟩

theorem move_keeps {m : Move G} (valid : s.Valid) (moved : move env s m = some t) (admissible : Admissible s m) :
    t.Valid ∧ InvalidIgnored env s m := by
  have noOption (other : ∀ setting, m ≠ .option setting) : InvalidIgnored env s m :=
    fun setting is => absurd is (other setting)
  cases m with
  | option setting => exact option_keeps valid moved admissible
  | start =>
      obtain rfl := Option.some.inj moved
      exact ⟨mayInit_valid env valid, noOption fun _ => by simp⟩
  | push =>
      refine ⟨?_, noOption fun _ => by simp⟩
      simp only [move] at moved
      split at moved
      · obtain rfl := Option.some.inj moved
        exact mayInit_valid env valid
      · have started := mayInit_valid env valid
        obtain ⟨top, base, seedStr, rand, before, stack⟩ := dupTopFrame_stack moved
        have validTop : top.Valid := started top (before ▸ .head _)
        intro f member
        rw [stack] at member
        rcases List.mem_cons.mp member with rfl | below
        · exact { validTop with }
        · exact started f below
  | get nParams opts =>
      obtain ⟨result, got, rfl⟩ := Option.map_eq_some_iff.mp moved
      refine ⟨fun f member => mayInit_valid env valid f ?_, noOption fun _ => by simp⟩
      rwa [vget_stack got] at member
  | rand draw =>
      refine ⟨fun f member => mayInit_valid env valid f ?_, noOption fun _ => by simp⟩
      rwa [useRand_stack moved] at member
  | pop =>
      obtain rfl := Option.some.inj moved
      refine ⟨fun f member => ?_, noOption fun _ => by simp⟩
      cases before : s.stack with
      | nil =>
          rw [State.pop, before] at member
          exact valid f member
      | cons top base =>
          rw [State.pop, before, freeFrame_stack] at member
          exact valid f (before ▸ .tail _ member)
  | popAll =>
      obtain rfl := Option.some.inj moved
      exact ⟨popFrames_valid valid valid, noOption fun _ => by simp⟩

/-- Calls leave every frame valid and ignore what is invalid exactly as long as each option
is given a valid value, or -1 for a `log_fd` that is -1. -/
theorem valid_iff_admissible (env : Environment G) (calls : List (Call G)) :
    (∀ t, run env {} calls = some t → (calls.flatMap Call.moves).foldlM (move env) {} = some t) ∧
      (Always (move env) State.Valid {} (calls.flatMap Call.moves) ∧
          Guarded (move env) (InvalidIgnored env) {} (calls.flatMap Call.moves) ↔
        Guarded (move env) Admissible {} (calls.flatMap Call.moves)) := by
  refine ⟨fun t ran => run_moves ran, ?_⟩
  refine Always.and_guarded_iff State.Valid (fun _ valid => valid) (fun s m t => move_keeps) ?_
    fun _ member => absurd member List.not_mem_nil
  intro s m t valid moved inadmissible after
  cases m with
  | option setting => exact option_breaks moved valid inadmissible after
  | _ => exact absurd (fun _ is => by cases is) inadmissible

/-- A header length of -1 is warned about, and assigned. -/
theorem invalid_header_assigned : ∃ t, run wordsAsGenerator {} [.push 1 [.headerLen (-1)]] = some t ∧
    t.warnings = [⟨"set header_len to invaild value: %d", .int (-1)⟩] ∧
    t.stack.map OilTestConfig.testHeader = [-1] ∧ ¬ t.Valid := by
  have found : (run wordsAsGenerator {} [.push 1 [.headerLen (-1)]]).map (fun t =>
      (t.warnings, t.stack.map OilTestConfig.testHeader)) =
      some ([⟨"set header_len to invaild value: %d", .int (-1)⟩], [-1]) := by
    decide +kernel
  obtain ⟨t, ran, seen⟩ := Option.map_eq_some_iff.mp found
  obtain ⟨warned, headers⟩ := Prod.mk.inj seen
  refine ⟨t, ran, warned, headers, fun valid => ?_⟩
  obtain ⟨f, member, header⟩ := List.mem_map.mp (headers ▸ List.mem_singleton_self (-1))
  have atLeast := (valid f member).testHeader
  omega

end Validity

end Oil.Test.ConfigStack

import Oil.Test.Config.Frames

namespace Oil.Test.ConfigStack

open Oil.Data

/-! # Calls that return

A call fails where it reads past its arguments, where `_gen_seed` rejects a seed, or where it reads
a block that has been freed; and blocks that are read are never freed. -/

variable {G : Type} {env : Environment G} {s : State G} {f : OilTestConfig} {base : List OilTestConfig}

/-- `_gen_seed` accepts the value. -/
def Setting.accepted : Setting → Bool
  | .seed (some (c :: text)) => (genSeedFromString (fun _ => 0) (c :: text)).isSome
  | _ => true

section Options

/-- The options that `oil_test_config_vset` processes, unless it runs out of arguments. -/
def processed (nParams : Int) : (rounds : Nat) → (args : List Setting) → Option (List Setting)
  | 0, _ => some []
  | _ + 1, [] => none
  | rounds + 1, setting :: args =>
      if nParams = -1 ∧ setting.opt = 0 then some []
      else if setting.supported then (processed nParams rounds args).map (setting :: ·)
      else some [setting]
termination_by structural _ args => args

/-- The loop takes the options one by one, whatever becomes of each. -/
theorem vsetLoop_eq (nParams : Int) (rounds : Nat) (args : List Setting) (s : State G) :
    s.vsetLoop env nParams rounds args =
      (processed nParams rounds args).bind fun settings => settings.foldlM (State.setOption env) s := by
  induction args generalizing rounds s with
  | nil => cases rounds <;> rfl
  | cons setting args ih =>
      cases rounds with
      | zero => rfl
      | succ rounds =>
          simp only [State.vsetLoop, processed]
          split
          · rfl
          · split
            · simp only [ih, Option.bind_map, Option.bind_eq_bind]
              cases processed nParams rounds args with
              | none => exact Option.bind_fun_none _
              | some settings => rfl
            · rfl

/-- All a `get` reads is among its arguments. -/
def lasts (nParams : Int) : (rounds : Nat) → (opts : List Int) → Bool
  | 0, _ => true
  | _ + 1, [] => false
  | rounds + 1, opt :: opts =>
      decide (nParams = -1 ∧ opt = 0) || decide (opt < 1 ∨ 10 < opt) || lasts nParams rounds opts
termination_by structural _ opts => opts

end Options

section Returns

/-- The arguments of a call last to its end, and no seed among them is rejected. -/
def Call.WellFormed : Call G → Prop
  | .push nParams args | .set nParams args => ∃ settings, processed nParams (State.rounds nParams) args = some settings ∧
      ∀ setting ∈ settings, setting.accepted
  | .get nParams opts => lasts nParams (State.rounds nParams) opts
  | .rand _ | .pop | .popAll => True

theorem genSeedFromString_isSome (stale stale' : SeedArray) (seedStr : List Char) :
    (genSeedFromString stale seedStr).isSome = (genSeedFromString stale' seedStr).isSome := by
  simp only [genSeedFromString]
  split
  · split <;> rfl
  · rfl

theorem setOption_returns (env : Environment G) (rests : Rests base s) {setting : Setting}
    (accepted : setting.accepted) :
    ∃ t, s.setOption env setting = some t := by
  cases setting with
  | seed seedStr =>
      obtain ⟨made, generated⟩ : ∃ made, s.genSeed env seedStr = some made := by
        match seedStr with
        | none | some [] => exact ⟨_, rfl⟩
        | some (c :: text) =>
            rw [Setting.accepted, genSeedFromString_isSome _ (env.stale s.allocated)] at accepted
            obtain ⟨seed, read⟩ := Option.isSome_iff_exists.mp accepted
            exact ⟨s.allocateSeed env seed, by simp [State.genSeed, read]⟩
      obtain ⟨top, stack⟩ := rests.stack
      have provided := Provided.genSeed rests.sound.owns (t := made.2) generated
      have given : made.1.1 ≠ null := provided.owns.not_null (.head _)
      simp only [State.setOption, State.setSeed, generated, Option.bind_eq_bind, Option.bind_some, given, if_false,
        provided.stack, stack]
      exact ⟨_, rfl⟩
  | _ => exact ⟨_, rfl⟩

theorem setOptions_return (env : Environment G) (rests : Rests base s) {settings : List Setting}
    (accepted : ∀ setting ∈ settings, setting.accepted) : ∃ t, settings.foldlM (State.setOption env) s = some t := by
  induction settings generalizing s with
  | nil => exact ⟨s, rfl⟩
  | cons setting settings ih =>
      obtain ⟨u, set⟩ := setOption_returns env rests (accepted setting (.head _))
      obtain ⟨t, rest⟩ := ih (Above.setOption rests set).rests fun other member => accepted other (.tail _ member)
      exact ⟨t, by rw [List.foldlM_cons, set]; exact rest⟩

theorem readOption_none {f : OilTestConfig} {opt : Int} (unknown : opt < 1 ∨ 10 < opt) :
    State.readOption f opt = none := by
  unfold State.readOption
  split <;> first | omega | rfl

theorem vgetLoop_returns {nParams : Int} {rounds : Nat} {opts : List Int} (lasts : lasts nParams rounds opts) :
    ∃ result, s.vgetLoop nParams f rounds opts = some result := by
  induction opts generalizing rounds with
  | nil =>
      cases rounds with
      | zero => exact ⟨_, rfl⟩
      | succ rounds => contradiction
  | cons opt opts ih =>
      cases rounds with
      | zero => exact ⟨_, rfl⟩
      | succ rounds =>
          simp only [State.vgetLoop]
          split
          · exact ⟨_, rfl⟩
          · cases read : State.readOption f opt with
            | none => exact ⟨_, rfl⟩
            | some value =>
                have known : ¬ (opt < 1 ∨ 10 < opt) := by
                  intro unknown
                  rw [readOption_none unknown] at read
                  contradiction
                simp only [ConfigStack.lasts, *, decide_false, Bool.false_or] at lasts
                obtain ⟨result, got⟩ := ih lasts
                exact ⟨_, by rw [got]; rfl⟩

theorem vset_returns (env : Environment G) (rests : Rests base s) {nParams : Int} {args settings : List Setting}
    (read : processed nParams (State.rounds nParams) args = some settings)
    (accepted : ∀ setting ∈ settings, setting.accepted) : ∃ t, s.vset env nParams args = some t := by
  obtain ⟨t, set⟩ := setOptions_return env rests accepted
  exact ⟨t, by rw [State.vset, rests.mayInit, vsetLoop_eq, read, Option.bind_some, set]⟩

theorem step_returns (env : Environment G) (sound : Sound s) {call : Call G} (wellFormed : call.WellFormed) :
    ∃ t, step env s call = some t := by
  obtain ⟨base, rests⟩ := mayInit_rests env sound
  obtain ⟨top, stack⟩ := rests.stack
  have again := rests.mayInit env
  cases call with
  | push nParams args =>
      obtain ⟨settings, read, accepted⟩ := wellFormed
      cases before : s.stack with
      | nil =>
          obtain ⟨t, set⟩ := vset_returns env rests read accepted
          exact ⟨t, by simpa [step, State.push, (mayInit_empty env sound before).1] using set⟩
      | cons first rest =>
          obtain ⟨u, duplicated, above⟩ := dupTopFrame_above sound before
          obtain ⟨t, set⟩ := vset_returns env above.rests read accepted
          exact ⟨t, by simpa [step, State.push, mayInit_of_cons before, duplicated] using set⟩
  | set nParams args =>
      obtain ⟨settings, read, accepted⟩ := wellFormed
      obtain ⟨t, set⟩ := vset_returns env rests read accepted
      rw [State.vset, again] at set
      exact ⟨t, set⟩
  | get nParams opts =>
      obtain ⟨result, got⟩ := vgetLoop_returns (f := top) (s := (s.mayInit env).2) wellFormed
      exact ⟨result.2, by simp only [step, State.vget, stack, got, Option.map_some]⟩
  | rand draw =>
      obtain ⟨state, generator⟩ := (rests.sound.filled top (stack ▸ .head _)).generator
      simp only [step, State.useRand, stack, generator]
      exact ⟨_, rfl⟩
  | pop => exact ⟨s.pop, rfl⟩
  | popAll => exact ⟨s.popAll, rfl⟩

/-- No call reads a block that has been freed: well-formed ones return, in any order. -/
theorem run_returns (env : Environment G) (sound : Sound s) {calls : List (Call G)}
    (wellFormed : ∀ call ∈ calls, call.WellFormed) : ∃ t, run env s calls = some t := by
  induction calls generalizing s with
  | nil => exact ⟨s, rfl⟩
  | cons call calls ih =>
      obtain ⟨first, later⟩ := List.forall_mem_cons.mp wellFormed
      obtain ⟨u, stepped⟩ := step_returns env sound first
      obtain ⟨t, ran⟩ := ih (step_sound sound stepped) later
      exact ⟨t, Option.bind_eq_some_iff.mpr ⟨u, stepped, ran⟩⟩

end Returns

/-- A matched block of calls leaves the frames below it as they were, with their seed strings
and generators.  No two frames ever own the same block, and a run that ends by popping
everything has freed each block once.  Calls whose arguments are well-formed return, wherever they
stand in a run. -/
theorem frames_restored (env : Environment G) :
    (∀ (history inner : List (Call G)) (nParams : Int) (args : List Setting) (s t : State G),
      run env {} history = some s → s.stack ≠ [] → Matched inner →
      run env s (.push nParams args :: (inner ++ [.pop])) = some t →
      t.stack = s.stack ∧ ∀ f ∈ s.stack, Filled s.blocks f ∧
        t.blocks f.seedStr = s.blocks f.seedStr ∧ t.blocks f.rand = s.blocks f.rand) ∧
    (∀ calls : List (Call G), Always (step env) (fun s => s.owned.Nodup) {} calls) ∧
    (∀ (calls : List (Call G)) (t : State G), run env {} (calls ++ [.popAll]) = some t →
      t.stack = [] ∧ ∀ p ∈ t.issued, t.freed.count p = 1) ∧
    ∀ (history calls : List (Call G)) (s : State G), run env {} history = some s →
      (∀ call ∈ calls, call.WellFormed) → ∃ t, run env s calls = some t := by
  refine ⟨?_, fun calls => ?_, fun calls t ran => ?_, fun history calls s before => ?_⟩
  · intro history inner nParams args s t before notEmpty matched ran
    have sound := run_sound .empty before
    obtain ⟨stack, kept⟩ := push_pop_kept sound notEmpty matched ran
    exact ⟨stack, fun f member => ⟨sound.filled f member, kept.frame member⟩⟩
  · exact .of_invariant (fun s _ => Sound s) (fun _ _ sound => sound.owns.nodup)
      (fun _ _ _ _ sound stepped => step_sound sound stepped) .empty
  · obtain ⟨u, ranCalls, ranPopAll⟩ := run_append ran
    obtain ⟨popped, stepped, ended⟩ := run_cons ranPopAll
    obtain rfl := Option.some.inj stepped
    obtain rfl := Option.some.inj ended
    obtain ⟨sound, stack⟩ := popFrames_sound (run_sound .empty ranCalls) rfl
    have owns : Owns u.popAll [] := by
      have owned : u.popAll.owned = [] := by rw [State.owned, State.popAll, stack]; rfl
      exact owned ▸ sound.owns
    exact ⟨stack, fun p issued => owns.released_once u.popAll.issued_nodup issued⟩
  · exact run_returns env (run_sound .empty before)

/-- A generator that is the words it was seeded with. -/
def wordsAsGenerator : Environment SeedArray where
  words := UInt32.ofNat
  stale _ _ := 0
  randNew := id

def oneFrame : State SeedArray := (run wordsAsGenerator {} [.set 1 [.logFd 2]]).getD {}

/-- A new seed, a block of its own with another option, and a draw. -/
def nestedCalls : List (Call SeedArray) :=
  [.set 1 [.seed none], .push 1 [.testN 5], .rand fun _ _ => 9, .pop]

theorem frames_restored_nested : ∃ t : State SeedArray,
    run wordsAsGenerator oneFrame (.push 0 [] :: (nestedCalls ++ [.pop])) = some t ∧
      t.stack = oneFrame.stack ∧ ∀ f ∈ oneFrame.stack, t.blocks f.rand = oneFrame.blocks f.rand := by
  have set : run wordsAsGenerator {} [.set 1 [.logFd 2]] = some oneFrame := by
    have ran : (run wordsAsGenerator {} [.set 1 [.logFd 2]]).isSome := by decide +kernel
    rw [oneFrame, Option.eq_some_of_isSome ran, Option.getD_some]
  have returns : (run wordsAsGenerator oneFrame (.push 0 [] :: (nestedCalls ++ [.pop]))).isSome := by decide +kernel
  have matched : Matched nestedCalls := .set 1 [.seed none] (.push 1 [.testN 5] (.rand _ .nil) .nil)
  have notEmpty : oneFrame.stack ≠ [] := by decide +kernel
  obtain ⟨t, ran⟩ := Option.isSome_iff_exists.mp returns
  obtain ⟨stack, kept⟩ :=
    (frames_restored wordsAsGenerator).1 [.set 1 [.logFd 2]] nestedCalls 0 [] oneFrame t set notEmpty matched ran
  exact ⟨t, ran, stack, fun f member => (kept f member).2.2⟩

end Oil.Test.ConfigStack

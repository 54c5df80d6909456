import Oil.Data.Accounts
import Oil.Data.Runs
import Oil.Test.Config.Model

namespace Oil.Test.ConfigStack

open Oil.Data

/-! # Who owns the seeds

Every block that was allocated is owned by one frame of the stack or has been freed. -/

variable {G : Type} {env : Environment G} {s t u : State G} {f top : OilTestConfig} {base rest : List OilTestConfig}
  {held held' : List Nat} {p : Nat} {block : Block G}

def OilTestConfig.owned (f : OilTestConfig) : List Nat := [f.seedStr, f.rand]

def State.owned (s : State G) : List Nat := s.stack.flatMap OilTestConfig.owned

/-- The seed strings and generators created so far. -/
def State.issued (s : State G) : List Nat := List.range' 1 s.allocated

theorem State.issued_nodup (s : State G) : s.issued.Nodup := List.nodup_range'

/-- The blocks in hand are those not freed, each once. -/
def Owns (s : State G) (held : List Nat) : Prop := Balanced s.issued held s.freed

namespace Owns

theorem bounds (owns : Owns s held) (member : p ∈ held) : 1 ≤ p ∧ p ≤ s.allocated := by
  have issued : p ∈ s.issued := owns.mem_iff.mpr (List.mem_append_left _ member)
  rw [State.issued, List.mem_range'_1] at issued
  omega

theorem not_null (owns : Owns s held) (member : p ∈ held) : p ≠ null := by
  have := (owns.bounds member).1
  rw [null]
  omega

theorem nodup (owns : Owns s held) : held.Nodup :=
  (List.nodup_append.mp (owns.nodup_iff.mp s.issued_nodup)).1

theorem perm (owns : Owns s held) (moved : held.Perm held') : Owns s held' :=
  List.Perm.trans owns (moved.append_right s.freed)

theorem allocate (owns : Owns s held) (block : Block G) :
    Owns (s.allocate block).2 ((s.allocate block).1 :: held) := by
  have more := owns.takeIn [s.allocated + 1]
  rwa [State.issued, Nat.add_comm s.allocated 1, ← List.range'_1_concat, Nat.add_comm 1] at more

end Owns

@[simp] theorem allocate_stack : (s.allocate block).2.stack = s.stack := rfl

theorem allocate_new : (s.allocate block).2.blocks (s.allocate block).1 = some block := Function.update_self ..

theorem allocate_kept (owns : Owns s held) (member : p ∈ held) : (s.allocate block).2.blocks p = s.blocks p := by
  have := (owns.bounds member).2
  exact Function.update_of_ne (by omega) _ _

theorem Owns.release (owns : Owns s held) (moved : held.Perm (p :: held')) :
    Owns (s.release p) held' ∧ (s.release p).stack = s.stack ∧ ∀ q ∈ held', (s.release p).blocks q = s.blocks q := by
  have front := owns.perm moved
  have released : s.release p =
      { s with blocks := Function.update s.blocks p none, freed := s.freed ++ [p] } :=
    if_neg (front.not_null (.head _))
  rw [released]
  refine ⟨front.letGo (List.perm_append_singleton p held').symm, rfl, fun q member => ?_⟩
  have other : q ≠ p := by
    rintro rfl
    exact (List.nodup_cons.mp front.nodup).1 member
  exact Function.update_of_ne other _ _

/-- The pointers of a frame are to a string and a generator. -/
structure Filled (blocks : Nat → Option (Block G)) (f : OilTestConfig) : Prop where
  text : ∃ content, blocks f.seedStr = some (.text content)
  generator : ∃ state, blocks f.rand = some (.generator state)

/-- The blocks of some frames are what they were. -/
def Kept (frames : List OilTestConfig) (s t : State G) : Prop :=
  ∀ p ∈ frames.flatMap OilTestConfig.owned, t.blocks p = s.blocks p

theorem Kept.trans (first : Kept base s t) (second : Kept base t u) : Kept base s u :=
  fun p member => (second p member).trans (first p member)

theorem Kept.below (kept : Kept (top :: base) s t) : Kept base s t :=
  fun p member => kept p (List.mem_append_right _ member)

theorem Kept.frame (kept : Kept base s t) (member : f ∈ base) :
    t.blocks f.seedStr = s.blocks f.seedStr ∧ t.blocks f.rand = s.blocks f.rand :=
  ⟨kept _ (List.mem_flatMap.mpr ⟨f, member, .head _⟩), kept _ (List.mem_flatMap.mpr ⟨f, member, .tail _ (.head _)⟩)⟩

theorem Filled.of_kept (filled : Filled s.blocks f) (kept : Kept base s t) (member : f ∈ base) : Filled t.blocks f := by
  obtain ⟨text, generator⟩ := kept.frame member
  exact ⟨text ▸ filled.text, generator ▸ filled.generator⟩

structure Sound (s : State G) : Prop where
  owns : Owns s s.owned
  filled : ∀ f ∈ s.stack, Filled s.blocks f

theorem Sound.empty : Sound ({} : State G) := ⟨Balanced.empty, fun _ member => absurd member List.not_mem_nil⟩

/-- A sound stack of a frame over some others. -/
structure Rests (base : List OilTestConfig) (s : State G) : Prop where
  sound : Sound s
  stack : ∃ top, s.stack = top :: base

/-- What became of the frames from the top one up. -/
structure Above (base : List OilTestConfig) (s t : State G) : Prop where
  rests : Rests base t
  kept : Kept base s t

/-- A seed string and a generator, newly made. -/
structure Provided (s : State G) (held : List Nat) (made : Nat × Nat) (t : State G) : Prop where
  stack : t.stack = s.stack
  owns : Owns t (made.1 :: made.2 :: held)
  text : ∃ content, t.blocks made.1 = some (.text content)
  generator : ∃ state, t.blocks made.2 = some (.generator state)
  kept : ∀ p ∈ held, t.blocks p = s.blocks p

namespace Provided

theorem allocateSeed (env : Environment G) (owns : Owns s held) (seed : List Char × SeedArray) :
    Provided s held (s.allocateSeed env seed).1 (s.allocateSeed env seed).2 := by
  have first := owns.allocate (.generator (env.randNew seed.2))
  have second := first.allocate (.text seed.1)
  refine ⟨rfl, second, ⟨seed.1, allocate_new⟩, ⟨env.randNew seed.2, ?_⟩, fun p member => ?_⟩
  · exact (allocate_kept first (.head _)).trans allocate_new
  · exact (allocate_kept first (.tail _ member)).trans (allocate_kept owns member)

theorem drawSeed (env : Environment G) (owns : Owns s held) :
    Provided s held (s.drawSeed env).1 (s.drawSeed env).2 := by
  have provided := allocateSeed (s := { s with drawn := s.drawn + seedArrayLen }) env owns
    (genSeedAuto fun i => env.words (s.drawn + i.val))
  exact ⟨provided.stack, provided.owns, provided.text, provided.generator, provided.kept⟩

theorem genSeed (owns : Owns s held) {seedStr : Option (List Char)} {made : Nat × Nat}
    (generated : s.genSeed env seedStr = some (made, t)) : Provided s held made t := by
  match seedStr with
  | none | some [] =>
      have drawn : s.drawSeed env = (made, t) := Option.some.inj generated
      simpa only [drawn] using drawSeed env owns
  | some (c :: seedStr) =>
      simp only [State.genSeed, Option.map_eq_some_iff] at generated
      obtain ⟨seed, _, allocated⟩ := generated
      simpa only [allocated] using allocateSeed env owns seed

theorem release {made : Nat × Nat} (provided : Provided s held made t) (moved : held.Perm (p :: held')) :
    Provided s held' made (t.release p) := by
  have front : (made.1 :: made.2 :: held).Perm (p :: made.1 :: made.2 :: held') :=
    calc (made.1 :: made.2 :: held).Perm (made.1 :: made.2 :: p :: held') := (moved.cons _).cons _
      List.Perm _ (p :: made.1 :: made.2 :: held') := @List.perm_middle _ p [made.1, made.2] held'
  obtain ⟨owns, stack, kept⟩ := provided.owns.release front
  refine ⟨stack.trans provided.stack, owns, ?_, ?_, fun q member => ?_⟩
  · rw [kept _ (.head _)]
    exact provided.text
  · rw [kept _ (.tail _ (.head _))]
    exact provided.generator
  · rw [kept q (.tail _ (.tail _ member))]
    exact provided.kept q (moved.mem_iff.mpr (.tail _ member))

theorem install (provided : Provided s (base.flatMap OilTestConfig.owned) (f.seedStr, f.rand) t)
    (filled : ∀ g ∈ base, Filled s.blocks g) : Above base s { t with stack := f :: base } where
  rests := {
    sound := {
      owns := provided.owns
      filled := fun g member => by
        rcases List.mem_cons.mp member with rfl | below
        · exact ⟨provided.text, provided.generator⟩
        · exact (filled g below).of_kept provided.kept below }
    stack := ⟨f, rfl⟩ }
  kept := provided.kept

end Provided

namespace Above

theorem refl (rests : Rests base s) : Above base s s := ⟨rests, fun _ _ => rfl⟩

theorem trans (first : Above base s t) (second : Above base t u) : Above base s u :=
  ⟨second.rests, first.kept.trans second.kept⟩

theorem warn (rests : Rests base s) (warning : Warning) : Above base s (s.warn warning) :=
  ⟨⟨⟨rests.sound.owns, rests.sound.filled⟩, rests.stack⟩, fun _ _ => rfl⟩

theorem assign (rests : Rests base s) {change : OilTestConfig → OilTestConfig}
    (same : ∀ f, (change f).seedStr = f.seedStr ∧ (change f).rand = f.rand) : Above base s (s.assign change) := by
  obtain ⟨sound, top, stack⟩ := rests
  obtain ⟨seedStr, rand⟩ := same top
  have assigned : s.assign change = { s with stack := change top :: base } := by rw [State.assign, stack]
  have owned : (s.assign change).owned = s.owned := by
    rw [assigned, State.owned, State.owned, stack, List.flatMap_cons, List.flatMap_cons, OilTestConfig.owned,
      OilTestConfig.owned, seedStr, rand]
  refine ⟨⟨⟨?_, fun g member => ?_⟩, change top, by rw [assigned]⟩, fun _ _ => by rw [assigned]⟩
  · rw [owned]
    rw [assigned]
    exact sound.owns
  · rw [assigned] at member ⊢
    rcases List.mem_cons.mp member with rfl | below
    · have filled := sound.filled top (stack ▸ .head _)
      exact ⟨seedStr ▸ filled.text, rand ▸ filled.generator⟩
    · exact sound.filled g (stack ▸ .tail _ below)

theorem setSeed (rests : Rests base s) {seedStr : Option (List Char)} (set : s.setSeed env seedStr = some t) :
    Above base s t := by
  obtain ⟨sound, top, stack⟩ := rests
  have owned : s.owned = top.seedStr :: top.rand :: base.flatMap OilTestConfig.owned := by
    rw [State.owned, stack]
    rfl
  simp only [State.setSeed, Option.bind_eq_bind, Option.bind_eq_some_iff] at set
  obtain ⟨⟨made, u⟩, generated, set⟩ := set
  have provided := Provided.genSeed sound.owns generated
  have given : made.1 ≠ null := provided.owns.not_null (.head _)
  have held : top.rand ≠ null := sound.owns.not_null (owned ▸ .tail _ (.head _))
  rw [owned] at provided
  have replaced := (provided.release (.refl _)).release (.refl _)
  have assigned : { (u.release top.seedStr).release top.rand with
      stack := { top with seedStr := made.1, rand := made.2 } :: base } = t := by
    simpa [given, held, State.assign, provided.stack, replaced.stack, stack] using set
  rw [← assigned]
  exact replaced.install (f := { top with seedStr := made.1, rand := made.2 })
    fun g member => sound.filled g (stack ▸ .tail _ member)

theorem setOption (rests : Rests base s) {setting : Setting} (set : s.setOption env setting = some t) :
    Above base s t := by
  have guarded (valid : Bool) (warning : Warning) {change : OilTestConfig → OilTestConfig}
      (same : ∀ f, (change f).seedStr = f.seedStr ∧ (change f).rand = f.rand) :
      Above base s (s.setGuarded valid warning change) := by
    cases valid with
    | true => exact assign rests same
    | false => exact (warn rests warning).trans (assign (warn rests warning).rests same)
  cases setting with
  | seed seedStr => exact setSeed rests set
  | silent silent =>
      obtain rfl := Option.some.inj set
      exact assign rests fun _ => ⟨rfl, rfl⟩
  | other opt unknown =>
      obtain rfl := Option.some.inj set
      exact warn rests _
  | _ =>
      obtain rfl := Option.some.inj set
      exact guarded _ _ fun _ => ⟨rfl, rfl⟩

theorem vsetLoop {nParams : Int} {rounds : Nat} {args : List Setting} (rests : Rests base s)
    (set : s.vsetLoop env nParams rounds args = some t) : Above base s t := by
  induction args generalizing rounds s with
  | nil =>
      cases rounds with
      | zero =>
          obtain rfl := Option.some.inj set
          exact refl rests
      | succ rounds => contradiction
  | cons setting args ih =>
      cases rounds with
      | zero =>
          obtain rfl := Option.some.inj set
          exact refl rests
      | succ rounds =>
          simp only [State.vsetLoop] at set
          split at set
          · obtain rfl := Option.some.inj set
            exact refl rests
          · obtain ⟨u, option, set⟩ := Option.bind_eq_some_iff.mp set
            have first := setOption rests option
            split at set
            · exact first.trans (ih first.rests set)
            · obtain rfl := Option.some.inj set
              exact first

theorem vgetLoop {nParams : Int} {rounds : Nat} {opts : List Int} {result : List Value × State G}
    (rests : Rests base s) (got : s.vgetLoop nParams f rounds opts = some result) : Above base s result.2 := by
  induction opts generalizing rounds result with
  | nil =>
      cases rounds with
      | zero =>
          obtain rfl := Option.some.inj got
          exact refl rests
      | succ rounds => contradiction
  | cons opt opts ih =>
      cases rounds with
      | zero =>
          obtain rfl := Option.some.inj got
          exact refl rests
      | succ rounds =>
          simp only [State.vgetLoop] at got
          split at got
          · obtain rfl := Option.some.inj got
            exact refl rests
          · split at got
            · obtain rfl := Option.some.inj got
              exact warn rests _
            · obtain ⟨more, read, rfl⟩ := Option.map_eq_some_iff.mp got
              have tail := ih read
              exact tail

/-- A draw changes the generator of the top frame, which no other frame has. -/
theorem draw (rests : Rests base s) (stack : s.stack = top :: base) (state : G) :
    Above base s { s with blocks := Function.update s.blocks top.rand (some (.generator state)) } := by
  obtain ⟨sound, _⟩ := rests
  have nodup : (top.seedStr :: top.rand :: base.flatMap OilTestConfig.owned).Nodup := by
    have owned := sound.owns.nodup
    rwa [State.owned, stack] at owned
  obtain ⟨distinct, others⟩ := List.nodup_cons.mp nodup
  have kept : Kept base s { s with blocks := Function.update s.blocks top.rand (some (.generator state)) } := by
    intro p member
    have other : p ≠ top.rand := by
      rintro rfl
      exact (List.nodup_cons.mp others).1 member
    exact Function.update_of_ne other _ _
  refine ⟨⟨⟨sound.owns, fun g member => ?_⟩, top, stack⟩, kept⟩
  have filled := sound.filled g member
  rw [stack] at member
  rcases List.mem_cons.mp member with rfl | below
  · have other : g.seedStr ≠ g.rand := fun same => distinct (same ▸ .head _)
    refine ⟨?_, state, Function.update_self ..⟩
    change ∃ content, Function.update s.blocks g.rand _ g.seedStr = some (.text content)
    rw [Function.update_of_ne other]
    exact filled.text
  · exact filled.of_kept kept below

end Above

section Calls

theorem mayInit_of_cons (stack : s.stack = top :: base) : s.mayInit env = (false, s) := by
  rw [State.mayInit, stack]

theorem Rests.mayInit (rests : Rests base s) (env : Environment G) : s.mayInit env = (false, s) := by
  obtain ⟨top, stack⟩ := rests.stack
  exact mayInit_of_cons stack

theorem mayInit_empty (env : Environment G) (sound : Sound s) (stack : s.stack = []) :
    (s.mayInit env).1 = true ∧ Rests [] (s.mayInit env).2 := by
  have owned : s.owned = [] := by rw [State.owned, stack]; rfl
  have provided := Provided.drawSeed env sound.owns
  rw [owned] at provided
  have installed : Above [] s { (s.drawSeed env).2 with
      stack := [State.firstFrame (s.drawSeed env).1.1 (s.drawSeed env).1.2] } :=
    provided.install fun _ member => absurd member List.not_mem_nil
  rw [State.mayInit, stack]
  exact ⟨rfl, installed.rests⟩

theorem mayInit_rests (env : Environment G) (sound : Sound s) : ∃ base, Rests base (s.mayInit env).2 := by
  cases stack : s.stack with
  | nil => exact ⟨[], (mayInit_empty env sound stack).2⟩
  | cons top base =>
      rw [mayInit_of_cons stack]
      exact ⟨base, sound, top, stack⟩

theorem strdup_filled {content : List Char} (given : p ≠ null) (text : s.blocks p = some (.text content)) :
    s.strdup p = some (s.allocate (.text content)) := by
  rw [State.strdup, if_neg given, text]

theorem randCopy_filled {state : G} (given : p ≠ null) (generator : s.blocks p = some (.generator state)) :
    s.randCopy p = some (s.allocate (.generator state)) := by
  rw [State.randCopy, if_neg given, generator]

theorem dupTopFrame_above (sound : Sound s) (stack : s.stack = top :: base) :
    ∃ t, s.dupTopFrame = some t ∧ Above (top :: base) s t := by
  have owned : s.owned = top.seedStr :: top.rand :: base.flatMap OilTestConfig.owned := by
    rw [State.owned, stack]
    rfl
  obtain ⟨⟨content, text⟩, state, generator⟩ := sound.filled top (stack ▸ .head _)
  have seedStrGiven : top.seedStr ≠ null := sound.owns.not_null (owned ▸ .head _)
  have randGiven : top.rand ≠ null := sound.owns.not_null (owned ▸ .tail _ (.head _))
  have first := sound.owns.allocate (.text content)
  have second := first.allocate (.generator state)
  have generatorKept : (s.allocate (.text content)).2.blocks top.rand = some (.generator state) :=
    (allocate_kept sound.owns (owned ▸ .tail _ (.head _))).trans generator
  have provided : Provided s s.owned (_, _) ((s.allocate (.text content)).2.allocate (.generator state)).2 := {
    stack := rfl
    owns := second.perm (.swap ..)
    text := ⟨content, (allocate_kept first (.head _)).trans allocate_new⟩
    generator := ⟨state, allocate_new⟩
    kept := fun p member => (allocate_kept first (.tail _ member)).trans (allocate_kept sound.owns member) }
  rw [State.owned, stack] at provided
  rw [State.dupTopFrame, stack]
  simp only [strdup_filled seedStrGiven text, Option.bind_eq_bind, Option.bind_some,
    randCopy_filled randGiven generatorKept,
    allocate_stack, stack]
  exact ⟨_, rfl, provided.install fun g member => sound.filled g (stack ▸ member)⟩

theorem push_above (sound : Sound s) (stack : s.stack = top :: base) {nParams : Int} {args : List Setting}
    (pushed : s.push env nParams args = some t) : Above (top :: base) s t := by
  obtain ⟨u, duplicated, first⟩ := dupTopFrame_above sound stack
  have set : u.vsetLoop env nParams (State.rounds nParams) args = some t := by
    simpa [State.push, State.vset, mayInit_of_cons stack, first.rests.mayInit, duplicated] using pushed
  exact first.trans (.vsetLoop first.rests set)

theorem vset_above (rests : Rests base s) {nParams : Int} {args : List Setting}
    (set : s.vset env nParams args = some t) : Above base s t := by
  rw [State.vset, rests.mayInit] at set
  exact .vsetLoop rests set

theorem vget_above (rests : Rests base s) {nParams : Int} {opts : List Int} {result : List Value × State G}
    (got : s.vget env nParams opts = some result) : Above base s result.2 := by
  obtain ⟨top, stack⟩ := rests.stack
  simp only [State.vget, mayInit_of_cons stack, stack] at got
  exact .vgetLoop rests got

theorem useRand_above (rests : Rests base s) {draw : G → G} (used : s.useRand env draw = some t) :
    Above base s t := by
  obtain ⟨top, stack⟩ := rests.stack
  obtain ⟨state, generator⟩ := (rests.sound.filled top (stack ▸ .head _)).generator
  simp only [State.useRand, mayInit_of_cons stack, stack, generator] at used
  obtain rfl := Option.some.inj used
  have drawn := Above.draw rests stack (draw state)
  rwa [stack] at drawn

/-- A pop leaves the frames below, as they were. -/
theorem pop_kept (sound : Sound s) (stack : s.stack = top :: base) :
    Sound s.pop ∧ s.pop.stack = base ∧ Kept base s s.pop := by
  have owned : s.owned = top.seedStr :: top.rand :: base.flatMap OilTestConfig.owned := by
    rw [State.owned, stack]
    rfl
  have popped : s.pop = { s with stack := base }.freeFrame top := by rw [State.pop, stack]
  have before : Owns { s with stack := base } (top.seedStr :: top.rand :: base.flatMap OilTestConfig.owned) :=
    owned ▸ sound.owns
  obtain ⟨owns, stackRand, keptRand⟩ := before.release (.swap ..)
  obtain ⟨owns, stackSeed, keptSeed⟩ := owns.release (.refl _)
  have stackPop : s.pop.stack = base := popped ▸ stackSeed.trans stackRand
  have kept : Kept base s s.pop := fun p member => by
    rw [popped]
    exact (keptSeed p member).trans (keptRand p (.tail _ member))
  refine ⟨⟨?_, fun g member => ?_⟩, stackPop, kept⟩
  · rw [State.owned, stackPop, popped]
    exact owns
  · rw [stackPop] at member
    exact (sound.filled g (stack ▸ .tail _ member)).of_kept kept member

theorem popFrames_sound {frames : List OilTestConfig} (sound : Sound s) (stack : s.stack = frames) :
    Sound (s.popFrames frames) ∧ (s.popFrames frames).stack = [] := by
  induction frames generalizing s with
  | nil => exact ⟨sound, stack⟩
  | cons f rest ih =>
      obtain ⟨soundPop, stackPop, _⟩ := pop_kept sound stack
      have popped : s.pop = { s with stack := rest }.freeFrame f := by rw [State.pop, stack]
      rw [State.popFrames, ← popped]
      exact ih soundPop stackPop

/-- What a call does to a stack that is not empty it does, on the empty one, to the first frame. -/
theorem step_sound (sound : Sound s) {call : Call G} (stepped : step env s call = some t) : Sound t := by
  obtain ⟨base, rests⟩ := mayInit_rests env sound
  have again := rests.mayInit env
  cases call with
  | push nParams args =>
      cases before : s.stack with
      | nil =>
          have set : (s.mayInit env).2.vset env nParams args = some t := by
            simpa [step, State.push, (mayInit_empty env sound before).1] using stepped
          exact (vset_above rests set).rests.sound
      | cons top base => exact (push_above sound before stepped).rests.sound
  | set nParams args =>
      have set : (s.mayInit env).2.vset env nParams args = some t := by rwa [State.vset, again]
      exact (vset_above rests set).rests.sound
  | get nParams opts =>
      obtain ⟨result, got, rfl⟩ := Option.map_eq_some_iff.mp stepped
      have got : (s.mayInit env).2.vget env nParams opts = some result := by rwa [State.vget, again]
      exact (vget_above rests got).rests.sound
  | rand draw =>
      have used : (s.mayInit env).2.useRand env draw = some t := by rwa [State.useRand, again]
      exact (useRand_above rests used).rests.sound
  | pop =>
      obtain rfl := Option.some.inj stepped
      cases before : s.stack with
      | nil => rwa [State.pop, before]
      | cons top base => exact (pop_kept sound before).1
  | popAll =>
      obtain rfl := Option.some.inj stepped
      exact (popFrames_sound sound rfl).1

end Calls

section Runs

variable {calls : List (Call G)}

theorem run_cons {call : Call G} (ran : run env s (call :: calls) = some u) :
    ∃ t, step env s call = some t ∧ run env t calls = some u :=
  Option.bind_eq_some_iff.mp ran

theorem run_sound (sound : Sound s) (ran : run env s calls = some t) : Sound t := by
  induction calls generalizing s with
  | nil =>
      obtain rfl := Option.some.inj ran
      exact sound
  | cons call calls ih =>
      obtain ⟨u, stepped, ran⟩ := run_cons ran
      exact ih (step_sound sound stepped) ran

theorem run_append {first second : List (Call G)} (ran : run env s (first ++ second) = some u) :
    ∃ t, run env s first = some t ∧ run env t second = some u := by
  rw [run, List.foldlM_append] at ran
  exact Option.bind_eq_some_iff.mp ran

/-- Calls in which every push is matched by a pop, and every pop by a push. -/
inductive Matched : List (Call G) → Prop where
  | nil : Matched []
  | set (nParams : Int) (args : List Setting) {calls : List (Call G)} (rest : Matched calls) :
      Matched (.set nParams args :: calls)
  | get (nParams : Int) (opts : List Int) {calls : List (Call G)} (rest : Matched calls) :
      Matched (.get nParams opts :: calls)
  | rand (draw : G → G) {calls : List (Call G)} (rest : Matched calls) : Matched (.rand draw :: calls)
  | push (nParams : Int) (args : List Setting) {inner calls : List (Call G)} (inside : Matched inner)
      (rest : Matched calls) : Matched (.push nParams args :: (inner ++ .pop :: calls))

theorem Matched.above (matched : Matched calls) {base : List OilTestConfig} {s t : State G} (rests : Rests base s)
    (ran : run env s calls = some t) : Above base s t := by
  induction matched generalizing base s t with
  | nil =>
      obtain rfl := Option.some.inj ran
      exact .refl rests
  | set nParams args rest ih =>
      obtain ⟨u, stepped, ran⟩ := run_cons ran
      have first := vset_above rests stepped
      exact first.trans (ih first.rests ran)
  | get nParams opts rest ih =>
      obtain ⟨u, stepped, ran⟩ := run_cons ran
      obtain ⟨result, got, rfl⟩ := Option.map_eq_some_iff.mp stepped
      have first := vget_above rests got
      exact first.trans (ih first.rests ran)
  | rand draw rest ih =>
      obtain ⟨u, stepped, ran⟩ := run_cons ran
      have first := useRand_above rests stepped
      exact first.trans (ih first.rests ran)
  | push nParams args inside rest ihInside ihRest =>
      obtain ⟨pushed, steppedPush, ran⟩ := run_cons ran
      obtain ⟨top, stack⟩ := rests.stack
      have first := push_above rests.sound stack steppedPush
      obtain ⟨inner, ranInner, ran⟩ := run_append ran
      obtain ⟨popped, steppedPop, ran⟩ := run_cons ran
      obtain rfl := Option.some.inj steppedPop
      have second := ihInside first.rests ranInner
      obtain ⟨new, stackInner⟩ := second.rests.stack
      obtain ⟨soundPop, stackPop, keptPop⟩ := pop_kept second.rests.sound stackInner
      have whole : Kept (top :: base) s inner.pop := (first.trans second).kept.trans keptPop
      have back : Above base s inner.pop := ⟨⟨soundPop, top, stackPop⟩, whole.below⟩
      exact back.trans (ihRest back.rests ran)

/-- From a push on a stack that is not empty to its pop, nothing changes but what is freed. -/
theorem push_pop_kept (sound : Sound s) (notEmpty : s.stack ≠ []) (matched : Matched calls) {nParams : Int}
    {args : List Setting} (ran : run env s (.push nParams args :: (calls ++ [.pop])) = some t) :
    t.stack = s.stack ∧ Kept s.stack s t := by
  obtain ⟨top, base, stack⟩ := List.exists_cons_of_ne_nil notEmpty
  obtain ⟨pushed, steppedPush, ran⟩ := run_cons ran
  have first := push_above sound stack steppedPush
  obtain ⟨inner, ranInner, ran⟩ := run_append ran
  obtain ⟨popped, steppedPop, ran⟩ := run_cons ran
  obtain rfl := Option.some.inj steppedPop
  obtain rfl := Option.some.inj ran
  have second := matched.above first.rests ranInner
  obtain ⟨new, stackInner⟩ := second.rests.stack
  obtain ⟨_, stackPop, keptPop⟩ := pop_kept second.rests.sound stackInner
  rw [stack]
  exact ⟨stackPop, (first.trans second).kept.trans keptPop⟩

end Runs

end Oil.Test.ConfigStack

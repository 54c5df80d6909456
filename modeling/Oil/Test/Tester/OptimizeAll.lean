import Oil.Core.Registry.Simulation
import Oil.Test.Tester.Optimize
import Mathlib.Data.Set.Insert

namespace Oil.Core.OilClass

variable {F D : Type} {cls : OilClass F D}

theorem WellFormed.mem_bindings (wellFormed : cls.WellFormed) (implName : String) (value : F × Nat) :
    (implName, value) ∈ cls.bindings ↔ cls.implementsGet (some implName) = some value := by
  have represents : cls.bindings.Perm (⟨cls.bindings, wellFormed.distinctNames⟩ : Implements F).entries := .refl _
  rw [implementsGet_eq represents]
  refine ⟨fun member => ?_, Data.KeyedMap.mem_of_lookup⟩
  exact Data.KeyedMap.mem_entries_lookup .ofEq (represents.mem_iff.mp member)

end Oil.Core.OilClass

namespace Oil.Test

open Oil.Core Oil.Data

variable {F T : Type}

/-! # Testing all classes -/

/-- `oil_test_optimize_class_all`, with what the test of each class runs in. -/
def oilTestOptimizeClassAll [Zero T] [LT T] [DecidableLT T] (envs : Option String → Environment)
    (reg : Registry F (OilClassData F T)) : Option (Registry F (OilClassData F T)) :=
  match reg.oilClasses with
  | none => some reg
  | some ht =>
      ht.foreach (fun clsName cls visited => visited.bind fun reg =>
        reg.onClass cls (oilTestOptimizeClass (envs clsName.text))) (some reg)

/-- The data of a class after its sample has been laid out. -/
def OilClassData.laidOut (env : Environment) (clsData : OilClassData F T) : OilClassData F T :=
  { clsData with parameters := calcSampleLayout env.config env.guards clsData.parameters }

section Verdicts

variable [LinearOrder T] (env : Environment) (clsData : OilClassData F T) (fixture : Fixture T)

/-- The function is that of a fastest eligible implement, if one is faster than the reference, and
the reference otherwise. -/
inductive Fastest (ref : F) (implements : String → Option (F × Nat)) : F → Prop
  | reference (slower : ∀ implName value, implements implName = some value →
      eligible env clsData fixture (implName, value) = true → clsData.profiler.ends none ≤ clsData.time (implName, value)) :
      Fastest ref implements ref
  | implement {implName : String} {func : F} {flags : Nat} (registered : implements implName = some (func, flags))
      (passes : eligible env clsData fixture (implName, func, flags) = true)
      (faster : clsData.time (implName, func, flags) < clsData.profiler.ends none)
      (slower : ∀ other value, implements other = some value → eligible env clsData fixture (other, value) = true →
        clsData.time (implName, func, flags) ≤ clsData.time (other, value)) : Fastest ref implements func

/-- What the slot of a class with this data holds after the test. -/
structure Verdict [Zero T] (ref : F) (implements : String → Option (F × Nat)) (func : F) : Prop where
  passed : ReferencePasses env clsData ref (clsData.laidOut env).parameters →
    Fastest env clsData (Fixture.afterReference env clsData ref (clsData.laidOut env).parameters) ref implements func
  failed : ¬ ReferencePasses env clsData ref (clsData.laidOut env).parameters → func = ref

/-- There is at least one iteration, no time is negative, and the arrays are well laid out. -/
structure Testable [Zero T] : Prop where
  iterates : 0 < env.config.iterations
  nonneg : ∀ who, 0 ≤ clsData.profiler.ends who
  sane : ∀ p ∈ (clsData.laidOut env).parameters, p.isPointer = true → p.Sane

variable {env clsData fixture}

theorem fastest_of_best (ref : F) {implements : String → Option (F × Nat)} {bindings : List (String × F × Nat)}
    (registered : ∀ implName value, (implName, value) ∈ bindings ↔ implements implName = some value) :
    Fastest env clsData fixture ref implements
      ((bestImplement env clsData fixture bindings).elim ref fun impl => impl.2.1) := by
  cases best : bestImplement env clsData fixture bindings with
  | none =>
      have nobody := List.argmin_eq_none.mp best
      refine .reference fun implName value known passes => ?_
      have rejected := List.filter_eq_nil_iff.mp nobody (implName, value) ((registered _ _).mpr known)
      simpa [passes] using rejected
  | some impl =>
      obtain ⟨implName, func, flags⟩ := impl
      have chosen := List.argmin_mem best
      obtain ⟨member, fits⟩ := List.mem_filter.mp chosen
      rw [Bool.and_eq_true, decide_eq_true_eq] at fits
      refine .implement ((registered _ _).mp member) fits.1 fits.2 fun other value known passes => ?_
      by_cases faster : clsData.time (other, value) < clsData.profiler.ends none
      · have candidate : (other, value) ∈ bindings.filter fun impl =>
            eligible env clsData fixture impl && decide (clsData.time impl < clsData.profiler.ends none) :=
          List.mem_filter.mpr ⟨(registered _ _).mpr known, by simp [passes, faster]⟩
        exact List.le_of_mem_argmin candidate best
      · exact fits.2.le.trans (not_lt.mp faster)

end Verdicts

variable [LinearOrder T] [Zero T]

section OneClass

variable {env : Environment} {clsData : OilClassData F T} {record : ClassRecord F (OilClassData F T)}
  {class_ : ClassMeaning F (OilClassData F T)}

/-- What the test of one class does to its record and to its slot. -/
theorem optimizes_means (slot : F) (means : Means record class_) (attached : class_.data = some clsData)
    (testable : Testable env clsData) :
    ∃ worked activated, oilTestOptimizeClass env { record.cls with slot } = some worked ∧
      Means { record with cls := worked } { class_ with activated, data := some (clsData.laidOut env) } ∧
      Verdict env clsData class_.ref class_.implements worked.slot := by
  let loaded : OilClass F (OilClassData F T) := { record.cls with slot }
  let relaid : ClassRecord F (OilClassData F T) :=
    { record with cls := { record.cls with data := some (clsData.laidOut env) } }
  have bindings (implName : String) (value : F × Nat) :
      (implName, value) ∈ loaded.bindings ↔ class_.implements implName = some value := by
    rw [← means.implementsGet]
    exact means.wellFormed.mem_bindings implName value
  obtain ⟨⟨passed, start⟩, returned⟩ := checkReference_ends env clsData loaded.ref testable.sane
  obtain ⟨same, sampled, follows, _⟩ := reference_follows returned
  obtain ⟨after, visited⟩ :=
    visits_end clsData testable.iterates sampled (same ▸ testable.sane) loaded.bindings follows
  have chosen := chosenImpl_eq testable.iterates testable.nonneg loaded.bindings returned visited
  have optimized : oilTestOptimizeClass env loaded =
      some (({ relaid.cls with slot } : OilClass F (OilClassData F T)).activateImplement after.chosenImpl) := by
    rw [oilTestOptimizeClass_eq env clsData loaded (means.data.trans attached)]
    have returned : checkReference env clsData loaded.ref (Fixture.setUp clsData
        (calcSampleLayout env.config env.guards clsData.parameters)) = some (passed, start) := returned
    simp only [returned, Option.bind_some, visited]
    rfl
  have meansRelaid : Means relaid { class_ with data := some (clsData.laidOut env) } := by
    obtain ⟨older, tracks, implements⟩ := means.implements
    exact ⟨means.ref, means.slotP, rfl, means.inactive, older, tracks.congr rfl, implements⟩
  have activates : OilClass.step { relaid.cls with slot } ⟨fun _ => .fails, fun _ => ⟨none, slot, 0⟩⟩
      (.activate after.chosenImpl) = some _ := rfl
  obtain ⟨meansAfter, exported⟩ := meansRelaid.step activates
  have worked : (({ relaid.cls with slot } : OilClass F (OilClassData F T)).activateImplement after.chosenImpl).slot =
      (if passed then bestImplement env clsData start loaded.bindings else none).elim class_.ref
        fun impl => impl.2.1 := by
    rw [exported, chosen]
    cases best : if passed then bestImplement env clsData start loaded.bindings else none with
    | none => rfl
    | some impl =>
        obtain ⟨_, found⟩ := Option.ite_none_right_eq_some.mp best
        have registered := (bindings impl.1 impl.2).mp (bestImplement_mem found)
        simp only [Option.map_some, OilClass.Call.exports, registered, Option.getD_some, Option.elim_some]
  refine ⟨_, _, optimized, meansAfter, fun passes => ?_, fun fails => ?_⟩
  · rw [← means.ref] at passes ⊢
    rcases checkReference_passed testable.iterates returned with ⟨rfl, _, rfl⟩ | ⟨_, fails⟩
    · rw [worked, if_pos rfl, ← means.ref]
      exact fastest_of_best _ bindings
    · exact absurd passes fails
  · rw [← means.ref] at fails
    rcases checkReference_passed testable.iterates returned with ⟨_, passes, _⟩ | ⟨rfl, _⟩
    · exact absurd passes fails
    · rw [worked]
      rfl

end OneClass

section AllClasses

variable {envs : Option String → Environment} {reg : Registry F (OilClassData F T)}
  {catalogue mid after : Catalogue F (OilClassData F T)} {ht : HashTable CharPointer Nat}
  {given gone : List (Destroyed CharPointer Nat)} {names : Set String} {clsName : String}

/-- No two classes have one slot. -/
def OwnSlots (catalogue : Catalogue F (OilClassData F T)) : Prop :=
  ∀ clsName other class_ otherClass, catalogue.classes clsName = some class_ →
    catalogue.classes other = some otherClass → class_.slotP = otherClass.slotP → clsName = other

/-- These classes can be tested. -/
def AllTestable (envs : Option String → Environment) (names : Set String)
    (catalogue : Catalogue F (OilClassData F T)) : Prop :=
  ∀ clsName ∈ names, ∀ class_ clsData, catalogue.classes clsName = some class_ → class_.data = some clsData →
    Testable (envs (some clsName)) clsData

/-- The meaning of a class after its test. -/
def tested (env : Environment) (class_ : ClassMeaning F (OilClassData F T)) (activated : Bool) :
    ClassMeaning F (OilClassData F T) :=
  match class_.data with
  | none => class_
  | some clsData => { class_ with activated, data := some (clsData.laidOut env) }

/-- What a slot holds after the test of its class. -/
def SlotTested (env : Environment) (class_ : ClassMeaning F (OilClassData F T)) (old new : F) : Prop :=
  match class_.data with
  | none => new = old
  | some clsData => Verdict env clsData class_.ref class_.implements new

/-- The classes of these names have been tested, and nothing else has changed. -/
structure Optimized (envs : Option String → Environment) (names : Set String)
    (before after : Catalogue F (OilClassData F T)) : Prop where
  missing : ∀ clsName, before.classes clsName = none → after.classes clsName = none
  tested : ∀ clsName ∈ names, ∀ class_, before.classes clsName = some class_ →
    (∃ activated, after.classes clsName = some (tested (envs (some clsName)) class_ activated)) ∧
      SlotTested (envs (some clsName)) class_ (before.slots class_.slotP) (after.slots class_.slotP)
  others : ∀ clsName, clsName ∉ names → after.classes clsName = before.classes clsName
  slots : ∀ slot, (∀ clsName ∈ names, ∀ class_, before.classes clsName = some class_ → class_.slotP ≠ slot) →
    after.slots slot = before.slots slot

omit [LinearOrder T] [Zero T] in
@[simp] theorem tested_slotP (env : Environment) (class_ : ClassMeaning F (OilClassData F T)) (activated : Bool) :
    (tested env class_ activated).slotP = class_.slotP := by
  rw [tested]
  split <;> rfl

theorem optimizes_one (represents : Registry.Represents reg ht catalogue) (kept : Registry.Kept reg ht given gone)
    (testable : AllTestable envs {clsName} catalogue) {node : HashNode CharPointer Nat} (member : node ∈ ht.stored)
    (text : node.key.text = some clsName) :
    ∃ next mid, reg.onClass node.value (oilTestOptimizeClass (envs node.key.text)) = some next ∧
      Registry.Kept next ht given gone ∧ Registry.Represents next ht mid ∧ Optimized envs {clsName} catalogue mid := by
  obtain ⟨_, record, class_, spelled, found, known, means⟩ := represents.known node member
  obtain rfl := Option.some.inj (text.symm.trans spelled)
  obtain ⟨worked, activated, ran, meansAfter, verdict⟩ : ∃ worked activated,
      oilTestOptimizeClass (envs node.key.text) { record.cls with slot := reg.slots record.slotP } = some worked ∧
      Means { record with cls := worked } (tested (envs (some clsName)) class_ activated) ∧
      SlotTested (envs (some clsName)) class_ (reg.slots record.slotP) worked.slot := by
    cases attached : class_.data with
    | none =>
        have nothing : record.cls.data = none := means.data.trans attached
        refine ⟨{ record.cls with slot := reg.slots record.slotP }, false, ?_, ?_, ?_⟩
        · simp only [oilTestOptimizeClass, nothing]
        · obtain ⟨older, tracks, implements⟩ := means.implements
          simp only [tested, attached]
          exact ⟨means.ref, means.slotP, means.data, means.inactive, older, tracks.congr rfl, implements⟩
        · simp only [SlotTested, attached]
    | some clsData =>
        obtain ⟨worked, activated, ran, meansAfter, verdict⟩ := optimizes_means (reg.slots record.slotP)
          means attached (testable clsName rfl class_ clsData known attached)
        refine ⟨worked, activated, text ▸ ran, ?_, ?_⟩
        · simpa only [tested, attached] using meansAfter
        · simpa only [SlotTested, attached] using verdict
  obtain ⟨next, same, keptNext, representsNext⟩ := represents.withClass kept member text found ran meansAfter
  refine ⟨next, _, same, keptNext, representsNext, fun other missing => ?_, fun other isNamed other_ knownOther => ?_,
    fun other isOther => ?_, fun slot apart => ?_⟩
  · have isOther : other ≠ clsName := by
      rintro rfl
      exact (Option.some_ne_none _ (known.symm.trans missing)).elim
    exact (Function.update_of_ne isOther _ _).trans missing
  · obtain rfl : other = clsName := isNamed
    obtain rfl := Option.some.inj (known.symm.trans knownOther)
    refine ⟨⟨activated, Function.update_self _ _ _⟩, ?_⟩
    rw [means.slotP, represents.slots] at verdict
    simpa only [tested_slotP, Function.update_self] using verdict
  · exact Function.update_of_ne isOther _ _
  · have differs := apart clsName rfl class_ known
    simp only [tested_slotP]
    exact Function.update_of_ne differs.symm _ _

namespace Optimized

theorem nothing (envs : Option String → Environment) (catalogue : Catalogue F (OilClassData F T)) :
    Optimized envs ∅ catalogue catalogue :=
  ⟨fun _ missing => missing, fun _ member => member.elim, fun _ _ => rfl, fun _ _ => rfl⟩

theorem slotP_of (optimized : Optimized envs names catalogue mid) {class_ : ClassMeaning F (OilClassData F T)}
    (known : mid.classes clsName = some class_) :
    ∃ class₀, catalogue.classes clsName = some class₀ ∧ class₀.slotP = class_.slotP := by
  by_cases member : clsName ∈ names
  · cases before : catalogue.classes clsName with
    | none => exact nomatch (optimized.missing clsName before).symm.trans known
    | some class₀ =>
        obtain ⟨⟨activated, same⟩, _⟩ := optimized.tested clsName member class₀ before
        obtain rfl := Option.some.inj (same.symm.trans known)
        exact ⟨class₀, rfl, (tested_slotP _ _ _).symm⟩
  · exact ⟨class_, (optimized.others clsName member).symm.trans known, rfl⟩

theorem ownSlots (optimized : Optimized envs names catalogue mid) (own : OwnSlots catalogue) : OwnSlots mid := by
  intro clsName other class_ otherClass known knownOther same
  obtain ⟨_, before, slotP⟩ := optimized.slotP_of known
  obtain ⟨_, beforeOther, slotPOther⟩ := optimized.slotP_of knownOther
  exact own clsName other _ _ before beforeOther (slotP.trans (same.trans slotPOther.symm))

/-- One class, and then others. -/
theorem insert (first : Optimized envs {clsName} catalogue mid) (rest : Optimized envs names mid after)
    (apart : clsName ∉ names) (own : OwnSlots catalogue) :
    Optimized envs (Insert.insert clsName names) catalogue after := by
  have unchanged {other : String} (member : other ∈ names) : mid.classes other = catalogue.classes other := by
    refine first.others other fun same => ?_
    obtain rfl : other = clsName := same
    exact apart member
  refine ⟨fun other missing => rest.missing other (first.missing other missing), fun other member class_ known => ?_,
    fun other absent => ?_, fun slot differs => ?_⟩
  · rcases Set.mem_insert_iff.mp member with rfl | isRest
    · obtain ⟨⟨activated, same⟩, verdict⟩ := first.tested other rfl class_ known
      refine ⟨⟨activated, (rest.others other apart).trans same⟩, ?_⟩
      rwa [rest.slots class_.slotP fun later isLater laterClass knownLater sameSlot => ?_]
      have before := (unchanged isLater).symm.trans knownLater
      obtain rfl := own later other laterClass class_ before known sameSlot
      exact apart isLater
    · have differs : other ≠ clsName := fun same => apart (same ▸ isRest)
      obtain ⟨activated, verdict⟩ := rest.tested other isRest class_ ((unchanged isRest).trans known)
      refine ⟨activated, ?_⟩
      rwa [first.slots class_.slotP fun one isOne oneClass knownOne sameSlot => ?_] at verdict
      obtain rfl : one = clsName := isOne
      exact differs (own other one class_ oneClass known knownOne sameSlot.symm)
  · rw [Set.mem_insert_iff, not_or] at absent
    exact (rest.others other absent.2).trans (first.others other absent.1)
  · rw [rest.slots slot fun other member class_ known => ?_, first.slots slot fun other member class_ known => ?_]
    · exact differs other (Set.mem_insert_iff.mpr (.inl member)) class_ known
    · exact differs other (Set.mem_insert_of_mem _ member) class_ ((unchanged member).symm.trans known)

/-- The others are not there. -/
theorem all (optimized : Optimized envs names catalogue mid)
    (every : ∀ clsName class_, catalogue.classes clsName = some class_ → clsName ∈ names) :
    Optimized envs Set.univ catalogue mid := by
  refine ⟨optimized.missing, fun clsName _ class_ known => ?_, fun _ absent => absurd trivial absent,
    fun slot differs => ?_⟩
  · exact optimized.tested clsName (every clsName class_ known) class_ known
  · exact optimized.slots slot fun clsName _ => differs clsName trivial

end Optimized

theorem optimizes_nodes (represents : Registry.Represents reg ht catalogue) (kept : Registry.Kept reg ht given gone)
    (own : OwnSlots catalogue) {nodes : List (HashNode CharPointer Nat)} (stored : ∀ node ∈ nodes, node ∈ ht.stored)
    (texts : nodes.Pairwise fun a b => a.key.text ≠ b.key.text)
    (testable : AllTestable envs {name | ∃ node ∈ nodes, node.key.text = some name} catalogue) :
    ∃ last mid, (nodes.map HashTable.pair).foldlM (fun reg entry =>
        reg.onClass entry.2 (oilTestOptimizeClass (envs entry.1.text))) reg = some last ∧
      Registry.Kept last ht given gone ∧ Registry.Represents last ht mid ∧
      Optimized envs {name | ∃ node ∈ nodes, node.key.text = some name} catalogue mid := by
  induction nodes generalizing reg catalogue with
  | nil => exact ⟨reg, catalogue, rfl, kept, represents, by simpa using Optimized.nothing envs catalogue⟩
  | cons node nodes ih =>
      obtain ⟨clsName, _, _, text, _⟩ := represents.known node (stored node (.head _))
      obtain ⟨apart, textsRest⟩ := List.pairwise_cons.mp texts
      have split : {name | ∃ other ∈ node :: nodes, other.key.text = some name} =
          Insert.insert clsName {name | ∃ other ∈ nodes, other.key.text = some name} := by
        ext name
        simp [text, eq_comm]
      have absent : clsName ∉ {name | ∃ other ∈ nodes, other.key.text = some name} := by
        rintro ⟨other, member, spelled⟩
        exact apart other member (text.trans spelled.symm)
      rw [split] at testable ⊢
      have testableFirst : AllTestable envs {clsName} catalogue := fun name isFirst =>
        testable name (Set.mem_insert_iff.mpr (.inl isFirst))
      obtain ⟨next, middle, ran, keptNext, representsNext, first⟩ :=
        optimizes_one represents kept testableFirst (stored node (.head _)) text
      have testableRest : AllTestable envs {name | ∃ other ∈ nodes, other.key.text = some name} middle := by
        intro name member class_ clsData known
        have differs : name ∉ ({clsName} : Set String) := by
          rintro rfl
          exact absent member
        have before := (first.others name differs).symm.trans known
        exact testable name (Set.mem_insert_of_mem _ member) class_ clsData before
      obtain ⟨last, final, ranRest, keptLast, representsLast, rest⟩ :=
        ih representsNext keptNext (first.ownSlots own) (fun other member => stored other (.tail _ member)) textsRest
          testableRest
      refine ⟨last, final, ?_, keptLast, representsLast, first.insert rest absent own⟩
      rw [List.map_cons, List.foldlM_cons, HashTable.pair, ran]
      exact ranRest

theorem foldl_bind {α β : Type} (f : α → β → Option α) (start : α) (items : List β) :
    items.foldl (fun state item => state.bind fun value => f value item) (some start) = items.foldlM f start := by
  have lost (items : List β) : items.foldl (fun state item => state.bind fun value => f value item) none = none := by
    induction items with
    | nil => rfl
    | cons _ _ ih => exact ih
  induction items generalizing start with
  | nil => rfl
  | cons item items ih =>
      rw [List.foldl_cons, List.foldlM_cons, Option.bind_some]
      cases f start item with
      | none => exact lost items
      | some next => exact ih next

theorem optimizes_registry (represents : Registry.Represents reg ht catalogue) (kept : Registry.Kept reg ht given gone)
    (own : OwnSlots catalogue) (testable : AllTestable envs Set.univ catalogue) :
    ∃ last after, oilTestOptimizeClassAll envs reg = some last ∧ Registry.Kept last ht given gone ∧
      Registry.Represents last ht after ∧ Optimized envs Set.univ catalogue after := by
  obtain ⟨last, after, ran, keptLast, representsLast, optimized⟩ :=
    optimizes_nodes represents kept own (fun _ => id) represents.texts
      (fun clsName _ => testable clsName trivial)
  refine ⟨last, after, ?_, keptLast, representsLast, optimized.all represents.stored⟩
  rw [oilTestOptimizeClassAll, kept.stored]
  dsimp only
  rw [HashTable.foreach_eq_foldl]
  exact (foldl_bind _ reg _).trans ran

/-- From any registry that clients can build, where no two classes have one slot,
`oil_test_optimize_class_all` comes to an end and leaves in the slot of each class with data a
fastest function that passes its test, and what was there in every other slot.  No class loses or
changes an implement. -/
theorem optimizes_all (envs : Option String → Environment) (slots : Nat → F) (classDataDestructor : Bool)
    {fresh reg : Registry F (OilClassData F T)}
    (started : (Registry.initial slots).init classDataDestructor = some fresh)
    {requests : List (Heap F × Request F (OilClassData F T))} (served : fresh.serve requests = some reg)
    {catalogue : Catalogue F (OilClassData F T)}
    (meant : (Catalogue.empty slots).run (requests.map Prod.snd) = catalogue) (own : OwnSlots catalogue)
    (testable : AllTestable envs Set.univ catalogue) :
    ∃ last after, oilTestOptimizeClassAll envs reg = some last ∧ last.Reads after ∧
      Optimized envs Set.univ catalogue after := by
  obtain ⟨ht, _, _, kept, _, represents⟩ := Registry.Represents.reached started served
  rw [meant] at represents
  obtain ⟨last, after, ran, keptLast, representsLast, optimized⟩ := optimizes_registry represents kept own testable
  exact ⟨last, after, ran, representsLast.reads keptLast, optimized⟩

end AllClasses

/-- Two classes, of which one has data. -/
def fillingRequests : List (Heap Nat × Request Nat (OilClassData Nat Nat)) :=
  [.register (some "class") (some 0) (some 4), .register (some "other") (some 5) (some 6),
    .addData (some "class") (some fillingClassData), .implement (some "class") (.add (some "a") (some 1) 0),
    .implement (some "class") (.add (some "b") (some 2) 0), .implement (some "class") (.add (some "c") (some 3) 0),
    .implement (some "other") (.add (some "d") (some 1) 0)].map
      fun request => (⟨fun _ => .inPlace, fun _ => ⟨none, 0, 0⟩⟩, request)

theorem fillingRequests_classes {clsName : String} {class_ : ClassMeaning Nat (OilClassData Nat Nat)}
    (known : ((Catalogue.empty fun _ => 0).run (fillingRequests.map Prod.snd)).classes clsName = some class_) :
    clsName = "class" ∧ class_.slotP = 4 ∧ class_.data = some fillingClassData ∨
      clsName = "other" ∧ class_.slotP = 6 ∧ class_.data = none := by
  by_cases isClass : clsName = "class"
  · subst isClass
    obtain rfl := Option.some.inj known
    exact .inl ⟨rfl, rfl, rfl⟩
  by_cases isOther : clsName = "other"
  · subst isOther
    obtain rfl := Option.some.inj known
    exact .inr ⟨rfl, rfl, rfl⟩
  · simp [fillingRequests, Catalogue.run, Catalogue.step, Catalogue.amend, Catalogue.empty, isClass, isOther] at known

theorem testable_filling {clsData : OilClassData F Nat} (same : clsData.parameters = fillingClassData.parameters) :
    Testable ⟨⟨0, 0, 1, 1, 2⟩, fun _ => 0, 0⟩ clsData := by
  have accepted : oilPrototypeParse "uint8_t *d_1x1, int ds".toList = some fillingClassData.parameters := by
    decide +kernel
  have sane := calcSampleLayout_sane ⟨0, 0, 1, 1, 2⟩ (fun _ => 0) accepted
    (by unfold DistinctTypes; decide +kernel) (by decide) (by decide) (by decide) (by decide) (by decide +kernel)
  exact ⟨Int.natCast_succ_pos 1, fun _ => Nat.zero_le _, by rwa [OilClassData.laidOut, same]⟩

theorem optimizes_all_filling : ∃ fresh reg last : Registry Nat (OilClassData Nat Nat),
    (Registry.initial fun _ => 0).init true = some fresh ∧ fresh.serve fillingRequests = some reg ∧
    oilTestOptimizeClassAll (fun _ => ⟨⟨0, 0, 1, 1, 2⟩, fun _ => 0, 0⟩) reg = some last ∧
    last.slots 4 = 2 ∧ last.slots 6 = 5 := by
  have ran : ((Registry.initial fun _ => 0).init true).bind (fun fresh => (fresh.serve fillingRequests).bind fun reg =>
      (oilTestOptimizeClassAll (fun _ => ⟨⟨0, 0, 1, 1, 2⟩, fun _ => 0, 0⟩) reg).map fun last =>
        (last.slots 4, last.slots 6)) = some (2, 5) := by decide +kernel
  obtain ⟨fresh, started, ran⟩ := Option.bind_eq_some_iff.mp ran
  obtain ⟨reg, served, ran⟩ := Option.bind_eq_some_iff.mp ran
  have own : OwnSlots ((Catalogue.empty fun _ => 0).run (fillingRequests.map Prod.snd)) := by
    intro clsName other class_ otherClass known knownOther same
    rcases fillingRequests_classes known with ⟨rfl, slotP, _⟩ | ⟨rfl, slotP, _⟩ <;>
      rcases fillingRequests_classes knownOther with ⟨rfl, slotPOther, _⟩ | ⟨rfl, slotPOther, _⟩ <;>
      simp [slotP, slotPOther] at same ⊢
  have testable : AllTestable (fun _ => ⟨⟨0, 0, 1, 1, 2⟩, fun _ => 0, 0⟩) Set.univ
      ((Catalogue.empty fun _ => 0).run (fillingRequests.map Prod.snd)) := by
    intro clsName _ class_ clsData known attached
    rcases fillingRequests_classes known with ⟨_, _, data⟩ | ⟨_, _, data⟩
    · obtain rfl := Option.some.inj (data.symm.trans attached)
      exact testable_filling rfl
    · exact nomatch data.symm.trans attached
  obtain ⟨last, _, optimized, _⟩ := optimizes_all _ (fun _ => 0) true started served rfl own testable
  rw [optimized, Option.map_some, Option.some.injEq, Prod.mk.injEq] at ran
  exact ⟨fresh, reg, last, started, served, optimized, ran⟩

end Oil.Test

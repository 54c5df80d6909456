import Oil.Core.Registry.Attachments
import Oil.Core.Registry.Catalogue
import Mathlib.Data.List.Pairwise

namespace Oil.Core

open Oil.Data

variable {F D : Type}

/-- The record of a class holds what its clients know of the class. -/
structure Means (record : ClassRecord F D) (class_ : ClassMeaning F D) : Prop where
  ref : record.cls.ref = class_.ref
  slotP : record.slotP = class_.slotP
  data : record.cls.data = class_.data
  inactive : class_.activated = false → record.cls.activeImpl = none
  implements : ∃ older, record.cls.Tracks older ∧ class_.implements = OilClass.latest older

theorem OilClass.Tracks.congr {cls other : OilClass F D} {older : List (Call F)} (tracks : cls.Tracks older)
    (counters : (other.nOccupied, other.nAlloc, other.nImpls, other.impls) =
      (cls.nOccupied, cls.nAlloc, cls.nImpls, cls.impls)) : other.Tracks older := by
  obtain ⟨nOccupied, nAlloc, nImpls, impls⟩ : other.nOccupied = cls.nOccupied ∧ other.nAlloc = cls.nAlloc ∧
      other.nImpls = cls.nImpls ∧ other.impls = cls.impls := by simpa only [Prod.mk.injEq] using counters
  have named : other.namedImpls = cls.namedImpls := by
    simp only [namedImpls, occupied, impls, nOccupied]
  obtain ⟨⟨roof, impls_le, occupied_le, length, count, distinct⟩, map, represents, meaning⟩ := tracks
  refine ⟨⟨by rw [nAlloc, nImpls, roof], by rwa [nImpls, nOccupied], by rwa [nOccupied, nAlloc],
    by rw [impls, nAlloc, length], by rw [named, nImpls, count], by rwa [named]⟩, map, ?_, meaning⟩
  rwa [bindings, named]

namespace Means

variable {record : ClassRecord F D} {class_ : ClassMeaning F D}

theorem implementsGet (means : Means record class_) (implName : String) :
    record.cls.implementsGet (some implName) = class_.implements implName := by
  obtain ⟨older, ⟨_, map, represents, meaning⟩, implements⟩ := means.implements
  rw [OilClass.implementsGet_eq represents, meaning, implements]

theorem wellFormed (means : Means record class_) : record.cls.WellFormed := by
  obtain ⟨_, tracks, _⟩ := means.implements
  exact tracks.wellFormed

/-- One of the functions for implements does to the record what it does to its meaning. -/
theorem step {heap : Heap F} {call : OilClass.Call F} {slot : F} {worked : OilClass F D}
    (means : Means record class_)
    (stepped : OilClass.step { record.cls with slot } heap call = some worked) :
    Means { record with cls := worked } { class_ with
        implements := call.binds class_.implements
        activated := call.activates class_.implements class_.activated } ∧
      worked.slot = (call.exports class_.ref class_.implements).getD slot := by
  obtain ⟨older, tracks, implements⟩ := means.implements
  have loaded : OilClass.Tracks { record.cls with slot } older := tracks.congr rfl
  have same : (fun implName => OilClass.implementsGet { record.cls with slot } (some implName)) =
      class_.implements := funext means.implementsGet
  obtain ⟨ref, exported, inactive⟩ := OilClass.step_exports loaded.wellFormed stepped means.inactive
  rw [same] at exported inactive
  refine ⟨⟨ref.trans means.ref, means.slotP, (OilClass.step_data stepped).trans means.data, inactive, call :: older,
    OilClass.step_tracks stepped loaded, ?_⟩, ?_⟩
  · rw [implements, OilClass.latest_cons]
  · rw [exported, ← means.ref]

end Means

namespace HashTable

variable {K V : Type} [Pointer K] [Pointer V] [DecidableEq K] {ht next : HashTable K V} {call : Call K V}
  {outcome : Outcome V} {destroyed : List (Destroyed K V)}

theorem step_length (roomy : ht.Roomy) (called : ht.step call = some (next, outcome, destroyed)) :
    next.stored.length ≤ ht.stored.length + 1 := by
  obtain ⟨_, _, changed⟩ := step_changed roomy called
  cases changed with
  | kept same _ => exact Nat.le_succ_of_le (Nat.le_of_eq (congrArg (List.length ∘ stored) same))
  | replaced before after => exact Nat.le_succ_of_le (Nat.le_of_eq (after.length_eq.trans before.length_eq.symm))
  | added grown => exact Nat.le_of_eq grown.length_eq
  | removed before after =>
      have fewer := before.length_eq
      rw [List.length_cons] at fewer
      rw [after.length_eq]
      omega
  | emptied empty => simp [empty]

end HashTable

namespace Registry

variable {reg after : Registry F D} {catalogue : Catalogue F D} {ht next : HashTable CharPointer Nat}
  {given gone : List (Destroyed CharPointer Nat)} {clsName : String}

/-- The registry holds the catalogue. -/
structure Represents (reg : Registry F D) (ht : HashTable CharPointer Nat) (catalogue : Catalogue F D) : Prop where
  texts : ht.stored.Pairwise fun a b => a.key.text ≠ b.key.text
  known : ∀ node ∈ ht.stored, ∃ text record class_, node.key.text = some text ∧
    reg.classes node.value = some record ∧ catalogue.classes text = some class_ ∧ Means record class_
  stored : ∀ text class_, catalogue.classes text = some class_ → ∃ node ∈ ht.stored, node.key.text = some text
  slots : reg.slots = catalogue.slots

theorem Kept.value_ne (kept : Kept reg ht given gone) {node other : HashNode CharPointer Nat}
    (member : node ∈ ht.stored) (isStored : other ∈ ht.stored) (differs : other ≠ node) :
    other.value ≠ node.value := by
  have values : ht.stored.Pairwise fun a b => a.value ≠ b.value := by
    refine (List.nodup_flatMap.mp kept.ledger.held_nodup).2.imp fun disjoint same => ?_
    exact disjoint (a := .value _) (.tail _ (.head _)) (same ▸ .tail _ (.head _))
  have symmetric : Std.Symm fun a b : HashNode CharPointer Nat => a.value ≠ b.value := ⟨fun _ _ differ => differ.symm⟩
  exact values.forall isStored member differs

theorem Kept.get_congr {given' gone' : List (Destroyed CharPointer Nat)} (kept : Kept reg ht given gone)
    (keptAfter : Kept after ht given' gone') (clsName : Option String) : after.get clsName = reg.get clsName := by
  simp only [get, kept.stored, keptAfter.stored]

namespace Represents

theorem text_ne (represents : Represents reg ht catalogue) {node other : HashNode CharPointer Nat}
    (member : node ∈ ht.stored) (isStored : other ∈ ht.stored) (differs : other ≠ node) :
    other.key.text ≠ node.key.text := by
  have symmetric : Std.Symm fun a b : HashNode CharPointer Nat => a.key.text ≠ b.key.text :=
    ⟨fun _ _ differ => differ.symm⟩
  exact represents.texts.forall isStored member differs

/-- What `oil_class_get` leads to. -/
theorem get_cases (represents : Represents reg ht catalogue) (kept : Kept reg ht given gone) (clsName : String) :
    (∃ node ∈ ht.stored, ∃ record class_, node.key.text = some clsName ∧
        reg.get (some clsName) = some node.value ∧ reg.classes node.value = some record ∧
        catalogue.classes clsName = some class_ ∧ Means record class_) ∨
      reg.get (some clsName) = some null ∧ catalogue.classes clsName = none := by
  rcases kept.get_cases clsName with ⟨node, member, text, got⟩ | ⟨absent, got⟩
  · obtain ⟨same, record, class_, spelled, found, known, means⟩ := represents.known node member
    obtain rfl := Option.some.inj (text.symm.trans spelled)
    exact .inl ⟨node, member, record, class_, text, got, found, known, means⟩
  · refine .inr ⟨got, Option.eq_none_iff_forall_ne_some.mpr fun class_ known => ?_⟩
    obtain ⟨node, member, text⟩ := represents.stored clsName class_ known
    exact absent node member text

/-- A change of one class. -/
theorem amended (represents : Represents reg ht catalogue) (kept : Kept reg ht given gone)
    {node : HashNode CharPointer Nat} (member : node ∈ ht.stored) (text : node.key.text = some clsName)
    {edited : ClassRecord F D} {class_ : ClassMeaning F D} (means : Means edited class_)
    (classes : after.classes = Function.update reg.classes node.value (some edited))
    {slots : Nat → F} (same : after.slots = slots) :
    Represents after ht ⟨Function.update catalogue.classes clsName (some class_), slots⟩ := by
  refine ⟨represents.texts, fun other isStored => ?_, fun other meaning known => ?_, same⟩
  · by_cases isNode : other = node
    · refine ⟨clsName, edited, class_, isNode ▸ text, ?_, Function.update_self _ _ _, means⟩
      rw [classes, isNode, Function.update_self]
    · obtain ⟨spelled, record, meaning, otherText, found, known, otherMeans⟩ := represents.known other isStored
      have values := kept.value_ne member isStored isNode
      have texts := represents.text_ne member isStored isNode
      refine ⟨spelled, record, meaning, otherText, ?_, ?_, otherMeans⟩
      · rw [classes, Function.update_of_ne values, found]
      · rw [text, otherText] at texts
        exact (Function.update_of_ne (fun same => texts (congrArg some same)) _ _).trans known
  · by_cases isNamed : other = clsName
    · exact ⟨node, member, isNamed ▸ text⟩
    · exact represents.stored other meaning ((Function.update_of_ne isNamed _ _).symm.trans known)

/-- The rule for a function that works on one class. -/
theorem withClass (represents : Represents reg ht catalogue) (kept : Kept reg ht given gone)
    {node : HashNode CharPointer Nat} (member : node ∈ ht.stored) (text : node.key.text = some clsName)
    {record : ClassRecord F D} (found : reg.classes node.value = some record)
    {function : OilClass F D → Option (OilClass F D)} {worked : OilClass F D}
    (ran : function { record.cls with slot := reg.slots record.slotP } = some worked) {class_ : ClassMeaning F D}
    (means : Means { record with cls := worked } class_) :
    ∃ after, reg.onClass node.value function = some after ∧ Kept after ht given gone ∧
      Represents after ht ⟨Function.update catalogue.classes clsName (some class_),
        Function.update catalogue.slots class_.slotP worked.slot⟩ := by
  let after : Registry F D := { reg with
    classes := Function.update reg.classes node.value (some { record with cls := worked })
    slots := Function.update reg.slots record.slotP worked.slot }
  have same : reg.onClass node.value function = some after := by
    simp only [Registry.onClass, if_neg (kept.value_ne_null member), found, ran, Option.bind_eq_bind, Option.bind_some]
    rfl
  have slots : after.slots = Function.update catalogue.slots class_.slotP worked.slot := by
    rw [← means.slotP, ← represents.slots]
  have ledger := kept.ledger
  refine ⟨after, same, ⟨kept.stored, kept.table, ledger.balanced, ledger.once, ledger.names, ledger.records,
    ledger.freed, fun other => ?_⟩, represents.amended kept member text means rfl slots⟩
  rw [← ledger.classes]
  by_cases isNode : other = node.value
  · rw [isNode, found]
    simp only [after, Function.update_self, Option.isSome_some]
  · simp only [after, Function.update_of_ne isNode]

/-- A class under another name, whatever becomes of this one. -/
theorem survivor (represents : Represents reg ht catalogue) {node : HashNode CharPointer Nat}
    (member : node ∈ ht.stored) (differs : node.key.text ≠ some clsName)
    (classes : after.classes node.value = reg.classes node.value) (replaced : Option (ClassMeaning F D)) :
    ∃ text record class_, node.key.text = some text ∧ after.classes node.value = some record ∧
      Function.update catalogue.classes clsName replaced text = some class_ ∧ Means record class_ := by
  obtain ⟨text, record, class_, spelled, found, known, means⟩ := represents.known node member
  have other : text ≠ clsName := by
    rintro rfl
    exact differs spelled
  exact ⟨text, record, class_, spelled, classes.trans found, (Function.update_of_ne other _ _).trans known, means⟩

theorem text_rest (represents : Represents reg ht catalogue) {node : HashNode CharPointer Nat}
    {rest : List (HashNode CharPointer Nat)} (split : ht.stored.Perm (node :: rest)) :
    (∀ other ∈ rest, other.key.text ≠ node.key.text) ∧ rest.Pairwise fun a b => a.key.text ≠ b.key.text := by
  obtain ⟨first, texts⟩ := List.pairwise_cons.mp
    ((split.pairwise_iff fun {a b : HashNode CharPointer Nat} (differ : a.key.text ≠ b.key.text) => differ.symm).mp
      represents.texts)
  exact ⟨fun other member => (first other member).symm, texts⟩

/-- The table behind `oil_class_register`: one node for the new class, and the others as they were. -/
theorem register_stored (represents : Represents reg ht catalogue) (kept : Kept reg ht given gone)
    {outcome : HashTable.Outcome Nat} {destroyed : List (Destroyed CharPointer Nat)}
    (stepped : ht.step (reg.insertion clsName) = some (next, outcome, destroyed)) :
    ∃ node rest, next.stored.Perm (node :: rest) ∧ node.key.text = some clsName ∧
      node.value = reg.allocated + 1 ∧ (rest.Pairwise fun a b => a.key.text ≠ b.key.text) ∧
      ∀ other, other ∈ rest ↔ other ∈ ht.stored ∧ other.key.text ≠ some clsName := by
  obtain ⟨⟨_, _⟩, inserted, same⟩ := Option.map_eq_some_iff.mp stepped
  simp only [Prod.mk.injEq] at same
  obtain ⟨rfl, _, rfl⟩ := same
  have nonNull : (CharPointer.duplicate reg.allocated clsName) ≠ null := by simp [null]
  obtain ⟨_, _, ⟨node, rest, found, before, afterwards, rfl⟩ | ⟨misses, grown, _⟩⟩ :=
    HashTable.insert_returned kept.table.roomy nonNull inserted
  · have text : node.key.text = some clsName := kept.table.text_eq found
    obtain ⟨others, texts⟩ := represents.text_rest before
    refine ⟨_, rest, afterwards, text, rfl, texts, fun other => ⟨fun member => ?_, fun member => ?_⟩⟩
    · exact ⟨before.mem_iff.mpr (.tail _ member), text ▸ others other member⟩
    · rcases List.mem_cons.mp (before.mem_iff.mp member.1) with rfl | isOther
      · exact absurd text member.2
      · exact isOther
  · refine ⟨_, ht.stored, grown, rfl, rfl, represents.texts, fun other => ⟨fun member => ⟨member, ?_⟩, And.left⟩⟩
    exact kept.table.text_ne misses other member

theorem register (represents : Represents reg ht catalogue) (kept : Kept reg ht given gone)
    {refFunc : F} {slot : Nat} (named : clsName ≠ "")
    (called : reg.step (.register (some clsName) (some refFunc) (some slot)) = some after) :
    ∃ next given gone, Kept after next given gone ∧ next.stored.length ≤ ht.stored.length + 1 ∧
      Represents after next
        { classes := Function.update catalogue.classes clsName (some ⟨refFunc, slot, fun _ => none, false, none⟩)
          slots := Function.update catalogue.slots slot refFunc } := by
  obtain ⟨next, outcome, destroyed, stepped, keptAfter, settled⟩ := kept.staged (.register named) called
  obtain ⟨node, rest, nodes, text, value, texts, others⟩ := represents.register_stored kept stepped
  have spared {other : HashNode CharPointer Nat} (member : other ∈ next.stored) :
      after.classes other.value = (reg.allocate clsName refFunc slot).classes other.value :=
    settled.classes _ (keptAfter.spared (Kept.parts_held member).2)
  refine ⟨next, _, _, keptAfter, HashTable.step_length kept.table.roomy stepped, ?_, fun other member => ?_,
    fun other class_ known => ?_, ?_⟩
  · refine (nodes.pairwise_iff fun differ => differ.symm).mpr (.cons (fun other member => ?_) texts)
    rw [text]
    exact ((others other).mp member).2.symm
  · have classes := spared member
    rcases List.mem_cons.mp (nodes.mem_iff.mp member) with rfl | isOld
    · have means : Means ⟨.registered clsName refFunc, .duplicate reg.allocated clsName, slot⟩
          (⟨refFunc, slot, fun _ => none, false, none⟩ : ClassMeaning F D) :=
        ⟨rfl, rfl, rfl, fun _ => rfl, [], OilClass.registered_tracks clsName refFunc, rfl⟩
      refine ⟨clsName, _, _, text, classes.trans ?_, Function.update_self _ _ _, means⟩
      rw [value]
      exact Function.update_self _ _ _
    · obtain ⟨stored, differs⟩ := (others other).mp isOld
      have bound := (kept.ledger.records _ (kept.ledger.given_of_held (Kept.parts_held stored).2)).2
      exact represents.survivor stored differs (classes.trans (Function.update_of_ne (by omega) _ _)) _
  · by_cases isNamed : other = clsName
    · exact ⟨node, nodes.mem_iff.mpr (.head _), isNamed ▸ text⟩
    · obtain ⟨old, stored, spelled⟩ :=
        represents.stored other class_ ((Function.update_of_ne isNamed _ _).symm.trans known)
      have isRest := (others old).mpr ⟨stored, fun same => isNamed (Option.some.inj (spelled.symm.trans same))⟩
      exact ⟨old, nodes.mem_iff.mpr (.tail _ isRest), spelled⟩
  · rw [settled.slots]
    exact congrArg (fun slots => Function.update slots slot refFunc) represents.slots

theorem remove_stored (represents : Represents reg ht catalogue) (kept : Kept reg ht given gone)
    {outcome : HashTable.Outcome Nat} {destroyed : List (Destroyed CharPointer Nat)}
    (stepped : ht.step (.remove (.borrowed clsName)) = some (next, outcome, destroyed)) :
    (next.stored.Pairwise fun a b => a.key.text ≠ b.key.text) ∧
      ∀ other, other ∈ next.stored ↔ other ∈ ht.stored ∧ other.key.text ≠ some clsName := by
  obtain ⟨⟨count, _, _⟩, removed, same⟩ := Option.map_eq_some_iff.mp stepped
  simp only [Prod.mk.injEq] at same
  obtain ⟨rfl, _, rfl⟩ := same
  have nonNull : (CharPointer.borrowed clsName) ≠ null := by simp [null]
  obtain ⟨_, _, ⟨node, rest, found, _, before, afterwards, _⟩ | ⟨misses, _, rfl, _⟩⟩ :=
    HashTable.remove_returned kept.table.roomy nonNull removed
  · have text : node.key.text = some clsName := kept.table.text_eq found
    obtain ⟨others, texts⟩ := represents.text_rest before
    refine ⟨(afterwards.pairwise_iff fun differ => differ.symm).mpr texts, fun other => ?_⟩
    rw [afterwards.mem_iff, before.mem_iff, List.mem_cons]
    constructor
    · exact fun member => ⟨.inr member, text ▸ others other member⟩
    · rintro ⟨rfl | member, differs⟩
      · exact absurd text differs
      · exact member
  · exact ⟨represents.texts, fun other => ⟨fun member => ⟨member, kept.table.text_ne misses other member⟩, And.left⟩⟩

theorem remove (represents : Represents reg ht catalogue) (kept : Kept reg ht given gone)
    (called : reg.step (.remove (some clsName)) = some after) :
    ∃ next given gone, Kept after next given gone ∧ next.stored.length ≤ ht.stored.length + 1 ∧
      Represents after next { catalogue with classes := Function.update catalogue.classes clsName none } := by
  obtain ⟨next, outcome, destroyed, stepped, keptAfter, settled⟩ := kept.staged .remove called
  obtain ⟨texts, others⟩ := represents.remove_stored kept stepped
  refine ⟨next, _, _, keptAfter, HashTable.step_length kept.table.roomy stepped, texts, fun other member => ?_,
    fun other class_ known => ?_, settled.slots.trans represents.slots⟩
  · obtain ⟨stored, differs⟩ := (others other).mp member
    exact represents.survivor stored differs
      (settled.classes _ (keptAfter.spared (Kept.parts_held member).2)) _
  · have isOther : other ≠ clsName := by
      rintro rfl
      simp at known
    obtain ⟨old, stored, spelled⟩ :=
      represents.stored other class_ ((Function.update_of_ne isOther _ _).symm.trans known)
    exact ⟨old, (others old).mpr ⟨stored, fun same => isOther (Option.some.inj (spelled.symm.trans same))⟩, spelled⟩

theorem removeAll (represents : Represents reg ht catalogue) (kept : Kept reg ht given gone)
    (called : reg.step .removeAll = some after) :
    ∃ next given gone, Kept after next given gone ∧ next.stored.length ≤ ht.stored.length + 1 ∧
      Represents after next { catalogue with classes := fun _ => none } := by
  obtain ⟨next, outcome, destroyed, stepped, keptAfter, settled⟩ := kept.staged .removeAll called
  obtain ⟨⟨_, _⟩, cleared, same⟩ := Option.map_eq_some_iff.mp stepped
  simp only [Prod.mk.injEq] at same
  obtain ⟨rfl, _, rfl⟩ := same
  obtain ⟨_, _, empty, _⟩ := HashTable.removeAll_returned kept.table.roomy cleared
  refine ⟨_, _, _, keptAfter, HashTable.step_length kept.table.roomy stepped, ?_⟩
  exact ⟨by simp [empty], by simp [empty], nofun, settled.slots.trans represents.slots⟩

end Represents

theorem Kept.remove_null (kept : Kept reg ht given gone) : reg.step (.remove none) = some reg := by
  have table : ht.step (.remove .null) = some (ht, .removed 0, []) := by
    simp only [HashTable.step, HashTable.remove]
    rfl
  have same : ({ reg with oilClasses := some ht } : Registry F D) = reg := by rw [← kept.stored]
  simp only [step, remove, CharPointer.ofArgument, callTable, kept.stored, table, Option.bind_eq_bind,
    Option.bind_some, List.foldlM_nil, same]
  rfl

section Requests

variable {heap : Heap F} {asked : Request F D}

theorem Represents.addData (represents : Represents reg ht catalogue) (kept : Kept reg ht given gone)
    {clsData : Option D} (served : reg.request heap (.addData (some clsName) clsData) = some after) :
    Kept after ht given gone ∧ Represents after ht (catalogue.step (.addData (some clsName) clsData)) := by
  rw [request] at served
  rcases represents.get_cases kept clsName with ⟨node, member, record, class_, text, got, found, known, means⟩ | ⟨got, missing⟩
  · have nonNull := kept.value_ne_null member
    simp only [got, Option.bind_some, step, Registry.addData, if_neg nonNull, found, Option.map_some,
      Option.some.injEq] at served
    subst served
    refine ⟨kept.edit (.addData nonNull found), ?_⟩
    have meansAfter : Means { record with cls := { record.cls with data := clsData } }
        { class_ with data := clsData } := by
      obtain ⟨older, tracks, implements⟩ := means.implements
      exact ⟨means.ref, means.slotP, rfl, means.inactive, older, tracks.congr rfl, implements⟩
    simp only [Catalogue.step, Catalogue.amend, known, Option.map_some]
    exact represents.amended kept member text meansAfter rfl represents.slots
  · simp only [got, Option.bind_some, step, Registry.addData, ↓reduceIte, Option.some.injEq] at served
    subst served
    refine ⟨kept, ?_⟩
    have same : Function.update catalogue.classes clsName none = catalogue.classes := by
      rw [← missing, Function.update_eq_self]
    simpa only [Catalogue.step, Catalogue.amend, missing, Option.map_none, same] using represents

theorem Represents.implement (represents : Represents reg ht catalogue) (kept : Kept reg ht given gone)
    {call : OilClass.Call F} (served : reg.request heap (.implement (some clsName) call) = some after) :
    Kept after ht given gone ∧ Represents after ht (catalogue.step (.implement (some clsName) call)) := by
  rw [request] at served
  rcases represents.get_cases kept clsName with ⟨node, member, record, class_, text, got, found, known, means⟩ | ⟨got, missing⟩
  · have nonNull := kept.value_ne_null member
    simp only [got, Option.bind_some, step, onClass, if_neg nonNull, found, Option.bind_eq_bind,
      Option.bind_eq_some_iff] at served
    obtain ⟨worked, stepped, same⟩ := served
    obtain rfl := Option.some.inj same
    refine ⟨kept.edit (.implement nonNull found stepped), ?_⟩
    obtain ⟨meansAfter, exported⟩ := means.step stepped
    have slots : Function.update reg.slots record.slotP worked.slot =
        catalogue.exported (some clsName) call := by
      simp only [Catalogue.exported, Option.bind_some, known, exported, means.slotP, represents.slots]
    simp only [Catalogue.step, Catalogue.amend, known, Option.map_some]
    exact represents.amended kept member text meansAfter rfl slots
  · simp only [got, Option.bind_some, step, onClass, ↓reduceIte, Option.some.injEq] at served
    subst served
    refine ⟨kept, ?_⟩
    have same : Function.update catalogue.classes clsName none = catalogue.classes := by
      rw [← missing, Function.update_eq_self]
    simpa only [Catalogue.step, Catalogue.amend, Catalogue.exported, Option.bind_some, missing, Option.map_none,
      same] using represents

/-- Every request does to the registry what it does to the catalogue. -/
theorem Represents.request (represents : Represents reg ht catalogue) (kept : Kept reg ht given gone)
    (served : reg.request heap asked = some after) :
    ∃ next given gone, Kept after next given gone ∧ next.stored.length ≤ ht.stored.length + 1 ∧
      Represents after next (catalogue.step asked) := by
  have idle (same : reg = after) (unchanged : catalogue.step asked = catalogue) :
      ∃ next given gone, Kept after next given gone ∧ next.stored.length ≤ ht.stored.length + 1 ∧
        Represents after next (catalogue.step asked) := by
    rw [← same, unchanged]
    exact ⟨ht, given, gone, kept, Nat.le_succ _, represents⟩
  match asked with
  | .register (some clsName) (some refFunc) (some slot) =>
      by_cases empty : clsName = ""
      · refine idle ?_ (if_pos empty)
        simpa only [Registry.request, step, Registry.register, if_pos empty, Option.map_some,
          Option.some.injEq] using served
      · rw [Catalogue.step, if_neg empty]
        exact represents.register kept empty served
  | .register none _ _ => exact idle (Option.some.inj served) rfl
  | .register (some _) none _ => exact idle (Option.some.inj served) rfl
  | .register (some _) (some _) none => exact idle (Option.some.inj served) rfl
  | .addData none _ => exact idle (Option.some.inj served) rfl
  | .addData (some clsName) clsData =>
      obtain ⟨keptAfter, representsAfter⟩ := represents.addData kept served
      exact ⟨ht, given, gone, keptAfter, Nat.le_succ _, representsAfter⟩
  | .remove none => exact idle (Option.some.inj (kept.remove_null.symm.trans served)) rfl
  | .remove (some clsName) => exact represents.remove kept served
  | .removeAll => exact represents.removeAll kept served
  | .implement none _ => exact idle (Option.some.inj served) rfl
  | .implement (some clsName) call =>
      obtain ⟨keptAfter, representsAfter⟩ := represents.implement kept served
      exact ⟨ht, given, gone, keptAfter, Nat.le_succ _, representsAfter⟩

theorem Represents.implement_returns (represents : Represents reg ht catalogue) (kept : Kept reg ht given gone)
    (clsName : String) {call : OilClass.Call F} (granted : call.Granted heap) :
    ∃ after, reg.request heap (.implement (some clsName) call) = some after := by
  rw [Registry.request]
  rcases represents.get_cases kept clsName with ⟨node, member, record, _, _, got, found, _⟩ | ⟨got, _⟩
  · obtain ⟨worked, stepped⟩ : ∃ worked,
        OilClass.step { record.cls with slot := reg.slots record.slotP } heap call = some worked :=
      OilClass.step_returns granted
    simp only [got, Option.bind_some, step, onClass, if_neg (kept.value_ne_null member), found,
      Option.bind_eq_bind, stepped]
    exact ⟨_, rfl⟩
  · simp only [got, Option.bind_some, step, onClass, ↓reduceIte]
    exact ⟨_, rfl⟩

theorem Represents.request_returns (represents : Represents reg ht catalogue) (kept : Kept reg ht given gone)
    (few : ht.stored.length < 2 ^ 30 - 1) (granted : asked.Granted heap) :
    ∃ after, reg.request heap asked = some after := by
  have table (call : Call F D) (onNames : call.OnNames) : ∃ after, reg.step call = some after := by
    obtain ⟨after, called, _⟩ := kept.onNames_returns onNames (kept.stored_length ▸ few)
    exact ⟨after, called⟩
  match asked with
  | .register clsName refFunc slot => exact table (.register clsName refFunc slot) trivial
  | .remove clsName => exact table (.remove clsName) trivial
  | .removeAll => exact table .removeAll trivial
  | .addData none _ => exact ⟨reg, rfl⟩
  | .implement none _ => exact ⟨reg, rfl⟩
  | .addData (some clsName) clsData =>
      rw [Registry.request]
      rcases represents.get_cases kept clsName with ⟨node, member, record, _, _, got, found, _⟩ | ⟨got, _⟩
      · simp only [got, Option.bind_some, step, Registry.addData, if_neg (kept.value_ne_null member), found]
        exact ⟨_, rfl⟩
      · simp only [got, Option.bind_some, step, Registry.addData, ↓reduceIte]
        exact ⟨_, rfl⟩
  | .implement (some clsName) call => exact represents.implement_returns kept clsName granted

variable {requests : List (Heap F × Request F D)} {last : Registry F D}

theorem Represents.serve (represents : Represents reg ht catalogue) (kept : Kept reg ht given gone)
    (served : reg.serve requests = some last) :
    ∃ next given gone, Kept last next given gone ∧ next.stored.length ≤ ht.stored.length + requests.length ∧
      Represents last next (catalogue.run (requests.map Prod.snd)) := by
  induction requests generalizing reg ht given gone catalogue with
  | nil =>
      obtain rfl := Option.some.inj served
      exact ⟨ht, given, gone, kept, Nat.le_refl _, represents⟩
  | cons first requests ih =>
      rw [Registry.serve, List.foldlM_cons, Option.bind_eq_bind, Option.bind_eq_some_iff] at served
      obtain ⟨after, asked, servedRest⟩ := served
      obtain ⟨next, _, _, keptAfter, length, representsAfter⟩ := represents.request kept asked
      obtain ⟨final, _, _, keptLast, lengthLast, representsLast⟩ := ih representsAfter keptAfter servedRest
      refine ⟨final, _, _, keptLast, ?_, representsLast⟩
      rw [List.length_cons]
      omega

theorem Represents.serve_returns (represents : Represents reg ht catalogue) (kept : Kept reg ht given gone)
    (few : ht.stored.length + requests.length < 2 ^ 30)
    (granted : ∀ asked ∈ requests, asked.2.Granted asked.1) : ∃ last, reg.serve requests = some last := by
  induction requests generalizing reg ht given gone catalogue with
  | nil => exact ⟨reg, rfl⟩
  | cons first requests ih =>
      rw [List.length_cons] at few
      obtain ⟨after, asked⟩ := represents.request_returns kept (by omega) (granted first (.head _))
      obtain ⟨next, _, _, keptAfter, length, representsAfter⟩ := represents.request kept asked
      obtain ⟨last, servedRest⟩ := ih representsAfter keptAfter (by omega)
        fun other member => granted other (.tail _ member)
      exact ⟨last, by rw [Registry.serve, List.foldlM_cons, asked]; exact servedRest⟩

end Requests

/-- Everything a client can read from the registry is as in the catalogue. -/
structure Reads (reg : Registry F D) (catalogue : Catalogue F D) : Prop where
  slots : reg.slots = catalogue.slots
  missing : ∀ clsName, catalogue.classes clsName = none → reg.get (some clsName) = some null
  present : ∀ clsName class_, catalogue.classes clsName = some class_ →
    ∃ cls record, reg.get (some clsName) = some cls ∧ cls ≠ null ∧ reg.classes cls = some record ∧
      record.cls.ref = class_.ref ∧ record.slotP = class_.slotP ∧ reg.getData cls = some class_.data ∧
      ∀ implName, record.cls.implementsGet (some implName) = class_.implements implName
  visited : (reg.visited.map fun pair => pair.1.text).Nodup ∧
    (∀ clsName, (catalogue.classes clsName).isSome ↔ some clsName ∈ reg.visited.map fun pair => pair.1.text) ∧
    ∀ pair ∈ reg.visited, reg.get pair.1.text = some pair.2

theorem Represents.reads (represents : Represents reg ht catalogue) (kept : Kept reg ht given gone) :
    reg.Reads catalogue := by
  have texts : (reg.visited.map fun pair => pair.1.text) = ht.stored.map fun node => node.key.text := by
    rw [kept.visited_eq, List.map_map]
    rfl
  have got {node : HashNode CharPointer Nat} (member : node ∈ ht.stored) {text : String}
      (spelled : node.key.text = some text) : reg.get (some text) = some node.value := by
    rcases kept.get_cases text with ⟨other, isStored, same, found⟩ | ⟨absent, _⟩
    · by_cases isNode : other = node
      · rw [found, isNode]
      · exact absurd (same.trans spelled.symm) (represents.text_ne member isStored isNode)
    · exact absurd spelled (absent node member)
  refine ⟨represents.slots, fun clsName missing => ?_, fun clsName class_ known => ?_, ?_, fun clsName => ?_,
    fun pair member => ?_⟩
  · rcases represents.get_cases kept clsName with ⟨_, _, _, _, _, _, _, known, _⟩ | ⟨got, _⟩
    · rw [missing] at known
      contradiction
    · exact got
  · rcases represents.get_cases kept clsName with ⟨node, member, record, same, _, got, found, knownToo, means⟩ | ⟨_, missing⟩
    · obtain rfl := Option.some.inj (knownToo.symm.trans known)
      refine ⟨node.value, record, got, kept.value_ne_null member, found, means.ref, means.slotP, ?_, means.implementsGet⟩
      rw [getData, if_neg (kept.value_ne_null member), found, Option.map_some, means.data]
    · rw [missing] at known
      contradiction
  · rw [texts, List.nodup_iff_pairwise_ne, List.pairwise_map]
    exact represents.texts
  · rw [texts, List.mem_map, Option.isSome_iff_exists]
    constructor
    · rintro ⟨class_, known⟩
      exact represents.stored clsName class_ known
    · rintro ⟨node, member, spelled⟩
      obtain ⟨text, _, class_, same, _, known, _⟩ := represents.known node member
      obtain rfl := Option.some.inj (spelled.symm.trans same)
      exact ⟨class_, known⟩
  · rw [kept.visited_eq] at member
    obtain ⟨node, isStored, rfl⟩ := List.mem_map.mp member
    obtain ⟨text, _, _, spelled, _⟩ := represents.known node isStored
    rw [HashTable.pair, spelled]
    exact got isStored spelled

theorem Represents.init (slots : Nat → F) (classDataDestructor : Bool) :
    ∃ reg ht, (initial (D := D) slots).init classDataDestructor = some reg ∧ Kept reg ht [] [] ∧
      ht.stored = [] ∧ Represents reg ht (.empty slots) := by
  obtain ⟨reg, ht, started, kept, _, _, empty⟩ := Kept.init (D := D) slots classDataDestructor
  have sameSlots : reg.slots = slots := by
    simp only [Registry.init, initial, Option.bind_eq_bind, Option.bind_eq_some_iff] at started
    obtain ⟨_, _, same⟩ := started
    exact congrArg Registry.slots (Option.some.inj same).symm
  have nothing : ∀ text class_, (Catalogue.empty (D := D) slots).classes text = some class_ →
      ∃ node ∈ ht.stored, node.key.text = some text :=
    fun _ _ known => (Option.some_ne_none _ known.symm).elim
  exact ⟨reg, ht, started, kept, empty, by simp [empty], by simp [empty], nothing, sameSlots⟩

/-- A registry that clients have built means what they asked for. -/
theorem Represents.reached {slots : Nat → F} {classDataDestructor : Bool} {fresh reg : Registry F D}
    (started : (initial slots).init classDataDestructor = some fresh) {requests : List (Heap F × Request F D)}
    (served : fresh.serve requests = some reg) :
    ∃ ht given gone, Kept reg ht given gone ∧ ht.stored.length ≤ requests.length ∧
      Represents reg ht ((Catalogue.empty slots).run (requests.map Prod.snd)) := by
  obtain ⟨_, ht, same, kept, empty, represents⟩ := Represents.init (D := D) slots classDataDestructor
  obtain rfl := Option.some.inj (started.symm.trans same)
  obtain ⟨last, given, gone, keptReg, length, representsReg⟩ := represents.serve kept served
  rw [empty, List.length_nil, Nat.zero_add] at length
  exact ⟨last, given, gone, keptReg, length, representsReg⟩

/-- From `oil_class_init` on, whatever its clients ask for, the registry is a catalogue: a class
is found exactly under the name it was last registered by, with the reference, the slot, the
implements and the data it was given since, every slot holds the function last put there, and
`oil_class_foreach` shows each class once.  Fewer than 2^30 requests are all served, as long as
the allocator gives what is asked for. -/
theorem registry_is_catalogue (slots : Nat → F) (classDataDestructor : Bool)
    (requests : List (Heap F × Request F D)) :
    ∃ fresh, (initial slots).init classDataDestructor = some fresh ∧
      (requests.length < 2 ^ 30 → (∀ asked ∈ requests, asked.2.Granted asked.1) →
        ∃ last, fresh.serve requests = some last) ∧
      ∀ last, fresh.serve requests = some last →
        last.Reads ((Catalogue.empty slots).run (requests.map Prod.snd)) := by
  obtain ⟨fresh, ht, started, kept, empty, represents⟩ := Represents.init (D := D) slots classDataDestructor
  refine ⟨fresh, started, fun few granted => ?_, fun last served => ?_⟩
  · exact represents.serve_returns kept (by rw [empty, List.length_nil]; omega) granted
  · obtain ⟨_, _, _, keptLast, _, representsLast⟩ := represents.serve kept served
    exact representsLast.reads keptLast

end Registry

end Oil.Core

import Oil.Core.Registry.Model
import Oil.Core.HashTable.Ownership

namespace Oil.Core

open Oil.Data

variable {F D : Type}

theorem strKeyLaws : HashTable.KeyLaws strHash (some strEqual) where
  equality := by
    rintro _ ⟨⟩
    exact ⟨fun a => decide_eq_true rfl, fun same => decide_eq_true (of_decide_eq_true same).symm,
      fun left right => decide_eq_true ((of_decide_eq_true left).trans (of_decide_eq_true right))⟩
  hashes := by
    rintro _ ⟨⟩ a b same
    simp only [strHash, of_decide_eq_true same]

/-- What holds of the table of classes between two calls. -/
structure ClassTable (ht : HashTable CharPointer Nat) : Prop where
  roomy : ht.Roomy
  funcs : ht.funcs = (strHash, some strEqual, true, true)
  hashed : ∀ node ∈ ht.stored, node.keyHash = ht.hashValue node.key

namespace ClassTable

variable {ht next : HashTable CharPointer Nat} {call : HashTable.Call CharPointer Nat}
  {outcome : HashTable.Outcome Nat} {gone : List (Destroyed CharPointer Nat)}

theorem destroys (table : ClassTable ht) : ht.keyDestroyFunc = true ∧ ht.valueDestroyFunc = true := by
  have funcs := table.funcs
  simp only [HashTable.funcs, Prod.mk.injEq] at funcs
  exact funcs.2.2

theorem step (table : ClassTable ht) (stepped : ht.step call = some (next, outcome, gone)) : ClassTable next := by
  obtain ⟨roomy, funcs, _⟩ := HashTable.step_returned table.roomy stepped
  exact ⟨roomy, funcs.trans table.funcs, HashTable.step_hashed table.roomy table.hashed stepped⟩

theorem text_eq (table : ClassTable ht) {key : CharPointer} {node : HashNode CharPointer Nat}
    (same : ht.Matches key node) : node.key.text = key.text := by
  have equalled := same.2
  rw [HashTable.keyEqual_eq table.funcs] at equalled
  exact of_decide_eq_true equalled

theorem text_ne (table : ClassTable ht) {key : CharPointer} (misses : ht.Misses key) :
    ∀ node ∈ ht.stored, node.key.text ≠ key.text := by
  intro node member same
  exact misses.not_matches table.roomy.chained node member
    (HashTable.matches_of_equal strKeyLaws table.funcs (table.hashed node member) (decide_eq_true same.symm))

end ClassTable

namespace Registry

variable {reg after : Registry F D} {held kept given gone destroyed : List (Destroyed CharPointer Nat)}

/-- The books of the registry: `given` are all strings and records `oil_class_register` ever
allocated, `held` those the table has or is about to get, and `gone` those it has destroyed. -/
structure Ledger (reg : Registry F D) (held given gone : List (Destroyed CharPointer Nat)) : Prop where
  balanced : Balanced given held gone
  once : given.Nodup
  names : ∀ name, .key name ∈ given → ∃ number < reg.allocated, ∃ text, name = .duplicate number text
  records : ∀ cls, .value cls ∈ given → 0 < cls ∧ cls ≤ reg.allocated
  freed : ∀ name, name ∈ reg.freed ↔ .key name ∈ gone
  classes : ∀ cls, (reg.classes cls).isSome ↔ .value cls ∈ given ∧ .value cls ∉ gone

/-- The data of the record an entry of the table stands for. -/
def attachment (reg : Registry F D) : Destroyed CharPointer Nat → Option D
  | .key _ => none
  | .value cls => (reg.classes cls).bind (·.cls.data)

namespace Ledger

theorem given_of_held (ledger : Ledger reg held given gone) {part : Destroyed CharPointer Nat}
    (member : part ∈ held) : part ∈ given :=
  ledger.balanced.mem_iff.mpr (List.mem_append_left _ member)

theorem not_gone (ledger : Ledger reg held given gone) {part : Destroyed CharPointer Nat}
    (member : part ∈ held) : part ∉ gone :=
  ledger.balanced.not_released ledger.once member

theorem held_nodup (ledger : Ledger reg held given gone) : held.Nodup :=
  (List.nodup_append.mp (ledger.balanced.nodup_iff.mp ledger.once)).1

theorem alive (ledger : Ledger reg held given gone) {name : CharPointer} (member : .key name ∈ held) :
    name ∉ reg.freed := by
  rw [ledger.freed]
  exact ledger.not_gone member

theorem record (ledger : Ledger reg held given gone) {cls : Nat} (member : .value cls ∈ held) :
    ∃ record, reg.classes cls = some record :=
  Option.isSome_iff_exists.mp ((ledger.classes cls).mpr ⟨ledger.given_of_held member, ledger.not_gone member⟩)

theorem perm (ledger : Ledger reg held given gone) (same : held.Perm kept) : Ledger reg kept given gone :=
  { ledger with balanced := ledger.balanced.trans (same.append_right gone) }

end Ledger

/-- What the table's destroy functions change besides what they free. -/
structure Settled (reg after : Registry F D) (destroyed : List (Destroyed CharPointer Nat)) : Prop where
  oilClasses : after.oilClasses = reg.oilClasses
  dataDestructor : after.dataDestructor = reg.dataDestructor
  slots : after.slots = reg.slots
  allocated : after.allocated = reg.allocated
  classes : ∀ cls, .value cls ∉ destroyed → after.classes cls = reg.classes cls
  destroyed : after.destroyed = reg.destroyed ++ destroyed.flatMap fun part => reg.dropped (reg.attachment part)

/-- Nothing is freed twice: what the table holds is alive. -/
theorem notify_returns {part : Destroyed CharPointer Nat} (ledger : Ledger reg held given gone)
    (moved : held.Perm (kept ++ [part])) :
    ∃ after, reg.notify part = some after ∧ Ledger after kept given (gone ++ [part]) ∧
      Settled reg after [part] := by
  have member : part ∈ held := moved.mem_iff.mpr (List.mem_append_right _ (.head _))
  have balanced := ledger.balanced.letGo moved
  cases part with
  | key name =>
      obtain ⟨number, bound, text, rfl⟩ := ledger.names name (ledger.given_of_held member)
      refine ⟨_, if_neg (ledger.alive member), { ledger with balanced, freed := ?_, classes := ?_ },
        ⟨rfl, rfl, rfl, rfl, fun _ _ => rfl, ?_⟩⟩
      · intro name
        simp [ledger.freed]
      · intro cls
        simp [ledger.classes]
      · simp [attachment, dropped]
  | value cls =>
      obtain ⟨record, found⟩ := ledger.record member
      have called : reg.notify (.value cls) = some { reg with
          classes := Function.update reg.classes cls none
          destroyed := reg.destroyed ++ reg.dropped record.cls.data } := by
        rw [notify, destroyClass, found]
        rfl
      refine ⟨_, called, { ledger with balanced, freed := ?_, classes := ?_ }, ⟨rfl, rfl, rfl, rfl, ?_, ?_⟩⟩
      · intro name
        simp [ledger.freed]
      · intro other
        by_cases same : other = cls
        · subst same
          simp
        · simp [ledger.classes, same]
      · intro other differs
        exact Function.update_of_ne (by simpa using differs) _ _
      · simp [attachment, found]

theorem notifyAll_returns (ledger : Ledger reg held given gone) (moved : held.Perm (kept ++ destroyed)) :
    ∃ after, destroyed.foldlM notify reg = some after ∧ Ledger after kept given (gone ++ destroyed) ∧
      Settled reg after destroyed := by
  induction destroyed generalizing reg held gone with
  | nil =>
      rw [List.append_nil] at moved ⊢
      exact ⟨reg, rfl, ledger.perm moved, ⟨rfl, rfl, rfl, rfl, fun _ _ => rfl, by simp⟩⟩
  | cons part rest ih =>
      have order : held.Perm (kept ++ rest ++ [part]) := by
        rw [List.append_assoc]
        exact moved.trans ((List.perm_append_singleton part rest).symm.append_left kept)
      obtain ⟨next, notified, ledgerNext, settled⟩ := notify_returns ledger order
      obtain ⟨after, rested, ledgerAfter, settledAfter⟩ := ih ledgerNext (.refl _)
      have apart : part ∉ rest := by
        have nodup := moved.nodup_iff.mp ledger.held_nodup
        exact (List.nodup_cons.mp (List.nodup_append.mp nodup).2.1).1
      refine ⟨after, ?_, ?_, ?_⟩
      · rw [List.foldlM_cons, notified]
        exact rested
      · rwa [List.append_assoc, List.singleton_append] at ledgerAfter
      · refine ⟨settledAfter.oilClasses.trans settled.oilClasses,
          settledAfter.dataDestructor.trans settled.dataDestructor, settledAfter.slots.trans settled.slots,
          settledAfter.allocated.trans settled.allocated, fun cls absent => ?_, ?_⟩
        · rw [List.mem_cons, not_or] at absent
          exact (settledAfter.classes cls absent.2).trans (settled.classes cls (by simpa using absent.1))
        · have unchanged : ∀ other ∈ rest, next.dropped (next.attachment other) =
              reg.dropped (reg.attachment other) := by
            intro other member
            cases other with
            | key name => simp only [attachment, dropped, settled.dataDestructor]
            | value cls =>
                have differs : (.value cls : Destroyed CharPointer Nat) ∉ [part] := by
                  rw [List.mem_singleton]
                  exact fun same => apart (same ▸ member)
                simp only [attachment, settled.classes cls differs, dropped, settled.dataDestructor]
          rw [settledAfter.destroyed, settled.destroyed, List.flatMap_singleton, List.flatMap_cons,
            List.append_assoc, List.flatMap_congr unchanged]

section Tables

variable {ht next : HashTable CharPointer Nat} {call : HashTable.Call CharPointer Nat}
  {outcome : HashTable.Outcome Nat}

theorem callTable_eq_some (stored : reg.oilClasses = some ht) (called : reg.callTable call = some (after, outcome)) :
    ∃ next destroyed, ht.step call = some (next, outcome, destroyed) := by
  simp only [callTable, stored, Option.bind_eq_bind, Option.bind_eq_some_iff] at called
  obtain ⟨⟨next, result, destroyed⟩, stepped, settled, _, same⟩ := called
  obtain ⟨_, rfl⟩ := Prod.mk.inj (Option.some.inj same)
  exact ⟨next, destroyed, stepped⟩

/-- A call the table answers goes through, whatever its destroy functions have to free. -/
theorem callTable_returns (stored : reg.oilClasses = some ht) (table : ClassTable ht)
    (ledger : Ledger reg (call.given ++ ht.owned) given gone) (nonNull : null ∉ call.keys)
    (stepped : ht.step call = some (next, outcome, destroyed)) :
    ∃ after, reg.callTable call = some (after, outcome) ∧ after.oilClasses = some next ∧
      Ledger after next.owned given (gone ++ destroyed) ∧ Settled { reg with oilClasses := some next } after destroyed := by
  obtain ⟨_, _, moved⟩ := HashTable.step_returned table.roomy stepped
  have moving : Ledger { reg with oilClasses := some next } (call.given ++ ht.owned) given gone :=
    ⟨ledger.balanced, ledger.once, ledger.names, ledger.records, ledger.freed, ledger.classes⟩
  obtain ⟨after, notified, ledgerAfter, settled⟩ := notifyAll_returns moving (moved table.destroys nonNull)
  refine ⟨after, ?_, settled.oilClasses, ledgerAfter, settled⟩
  simp only [callTable, stored, stepped, Option.bind_eq_bind, Option.bind_some, notified]
  rfl

end Tables

/-- How `oil_class_register` calls the table. -/
def insertion (reg : Registry F D) (clsName : String) : HashTable.Call CharPointer Nat :=
  .insert (.duplicate reg.allocated clsName) (reg.allocated + 1)

theorem Ledger.allocate (ledger : Ledger reg held given gone) (clsName : String) (refFunc : F) (slot : Nat) :
    Ledger (reg.allocate clsName refFunc slot) ((reg.insertion clsName).given ++ held)
      (given ++ (reg.insertion clsName).given) gone := by
  have fresh : ∀ part ∈ given, part ∉ (reg.insertion clsName).given := by
    intro part member isNew
    rcases List.mem_cons.mp isNew with rfl | isRecord
    · obtain ⟨number, bound, text, same⟩ := ledger.names _ member
      cases same
      exact Nat.lt_irrefl _ bound
    · obtain rfl := List.mem_singleton.mp isRecord
      exact Nat.not_succ_le_self _ (ledger.records _ member).2
  have notGone : ∀ part ∈ (reg.insertion clsName).given, part ∉ gone := fun part isNew isGone =>
    fresh part (ledger.balanced.mem_iff.mpr (List.mem_append_right _ isGone)) isNew
  refine ⟨ledger.balanced.takeIn _, ?_, ?_, ?_, ledger.freed, ?_⟩
  · refine List.nodup_append.mpr ⟨ledger.once, by simp [insertion, HashTable.Call.given], ?_⟩
    exact fun part member other isNew same => fresh part member (same ▸ isNew)
  · intro name member
    rcases List.mem_append.mp member with old | isNew
    · obtain ⟨number, bound, text, same⟩ := ledger.names name old
      exact ⟨number, Nat.lt_succ_of_lt bound, text, same⟩
    · simp only [insertion, HashTable.Call.given, List.mem_cons, Destroyed.key.injEq, reduceCtorEq,
        List.not_mem_nil, or_false] at isNew
      exact ⟨reg.allocated, Nat.lt_succ_self _, clsName, isNew⟩
  · intro cls member
    rcases List.mem_append.mp member with old | isNew
    · have bound := ledger.records cls old
      exact ⟨bound.1, Nat.le_succ_of_le bound.2⟩
    · simp only [insertion, HashTable.Call.given, List.mem_cons, Destroyed.value.injEq, reduceCtorEq,
        List.not_mem_nil, or_false, false_or] at isNew
      exact isNew ▸ ⟨Nat.succ_pos _, Nat.le_refl _⟩
  · intro cls
    by_cases same : cls = reg.allocated + 1
    · subst same
      have isNew : (.value (reg.allocated + 1) : Destroyed CharPointer Nat) ∈ (reg.insertion clsName).given :=
        .tail _ (.head _)
      simp [Registry.allocate, isNew, notGone _ isNew]
    · have old : (.value cls : Destroyed CharPointer Nat) ∉ (reg.insertion clsName).given := by
        simp [insertion, HashTable.Call.given, same]
      simp only [Registry.allocate, Function.update_of_ne same, ledger.classes, List.mem_append, old, or_false]

end Registry

end Oil.Core

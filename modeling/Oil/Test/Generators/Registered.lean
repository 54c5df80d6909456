import Oil.Test.Generators.RegImpls

namespace Oil.Test

open Oil.Data Python

/-! # What becomes of a registration

An included file replaces all that was registered for each of its classes so far, so a key
line counts only where no later include registers the same class. -/

/-- A line of a file that does something. -/
inductive Entry where
  | registers (cls impl : List Char) (registration : Registration)
  | includes (inc : Path)
deriving DecidableEq

/-- What the lines of a file say, unless one of them is malformed. -/
def readEntries (iniFpath : Path) : (currentSection : List Char) → List (List Char) → Option (List Entry)
  | _, [] => some []
  | currentSection, l :: rest =>
      match classifyLine currentSection l with
      | .nothing => readEntries iniFpath currentSection rest
      | .header name => readEntries iniFpath name rest
      | .bad _ => none
      | .registers cls impl registration =>
          (readEntries iniFpath currentSection rest).map (.registers cls impl registration :: ·)
      | .includes incPath =>
          (readEntries iniFpath currentSection rest).map (.includes (resolveInclude iniFpath incPath) :: ·)

def fileEntries (files : Path → Option (List Char)) (path : Path) : Option (List Entry) :=
  (files path).bind fun text => readEntries path [] (lines text)

/-- The root of a finite tree of files, without a cycle, that can all be read and are well formed. -/
inductive Parses (files : Path → Option (List Char)) : Path → Prop
  | file {path entries} (read : fileEntries files path = some entries)
      (includes : ∀ inc, .includes inc ∈ entries → Parses files inc) : Parses files path

/-- A key line of the file or of one it includes, directly or not, registers the implement. -/
inductive Registers (files : Path → Option (List Char)) :
    Path → (cls impl : List Char) → Registration → Prop
  | line {path entries cls impl registration} (read : fileEntries files path = some entries)
      (member : .registers cls impl registration ∈ entries) : Registers files path cls impl registration
  | included {path entries inc cls impl registration} (read : fileEntries files path = some entries)
      (member : .includes inc ∈ entries) (registers : Registers files inc cls impl registration) :
      Registers files path cls impl registration

/-- None of the included files registers anything for the class. -/
def Spares (files : Path → Option (List Char)) (entries : List Entry) (cls : List Char) : Prop :=
  ∀ inc, .includes inc ∈ entries → ∀ impl registration, ¬ Registers files inc cls impl registration

/-- Some key line for the implement has no include after it, neither in its own file nor in
those that include it, that registers the same class. -/
inductive Stands (files : Path → Option (List Char)) : Path → (cls impl : List Char) → Prop
  | line {path before cls impl registration after}
      (read : fileEntries files path = some (before ++ .registers cls impl registration :: after))
      (spared : Spares files after cls) : Stands files path cls impl
  | included {path before inc cls impl after}
      (read : fileEntries files path = some (before ++ .includes inc :: after))
      (stands : Stands files inc cls impl) (spared : Spares files after cls) : Stands files path cls impl

variable {files : Path → Option (List Char)} {path inc : Path} {entries seen after : List Entry}
  {cls impl : List Char} {registration : Registration} {ret included : Ini}

section Entries

def RegistersIn (files : Path → Option (List Char)) (entries : List Entry) (cls impl : List Char)
    (registration : Registration) : Prop :=
  .registers cls impl registration ∈ entries ∨
    ∃ inc, .includes inc ∈ entries ∧ Registers files inc cls impl registration

def NamesIn (files : Path → Option (List Char)) (entries : List Entry) (cls : List Char) : Prop :=
  ∃ impl registration, RegistersIn files entries cls impl registration

def StandsIn (files : Path → Option (List Char)) (entries : List Entry) (cls impl : List Char) : Prop :=
  ∃ before entry after, entries = before ++ entry :: after ∧ Spares files after cls ∧
    ((∃ registration, entry = .registers cls impl registration) ∨
      ∃ inc, entry = .includes inc ∧ Stands files inc cls impl)

theorem registers_iff (read : fileEntries files path = some entries) :
    Registers files path cls impl registration ↔ RegistersIn files entries cls impl registration := by
  constructor
  · intro registers
    cases registers with
    | line readLine member =>
        obtain rfl := Option.some.inj (read.symm.trans readLine)
        exact .inl member
    | included readLine member registers =>
        obtain rfl := Option.some.inj (read.symm.trans readLine)
        exact .inr ⟨_, member, registers⟩
  · rintro (member | ⟨inc, member, registers⟩)
    · exact .line read member
    · exact .included read member registers

theorem stands_iff (read : fileEntries files path = some entries) :
    Stands files path cls impl ↔ StandsIn files entries cls impl := by
  constructor
  · intro stands
    cases stands with
    | line readLine spared =>
        obtain rfl := Option.some.inj (read.symm.trans readLine)
        exact ⟨_, _, _, rfl, spared, .inl ⟨_, rfl⟩⟩
    | included readLine stands spared =>
        obtain rfl := Option.some.inj (read.symm.trans readLine)
        exact ⟨_, _, _, rfl, spared, .inr ⟨_, rfl, stands⟩⟩
  · rintro ⟨before, entry, after, rfl, spared, ⟨registration, rfl⟩ | ⟨inc, rfl, stands⟩⟩
    · exact .line read spared
    · exact .included read stands spared

theorem Stands.registers (stands : Stands files path cls impl) :
    ∃ registration, Registers files path cls impl registration := by
  induction stands with
  | line read _ => exact ⟨_, .line read (List.mem_append_right _ (.head _))⟩
  | included read _ _ ih =>
      obtain ⟨registration, registers⟩ := ih
      exact ⟨registration, .included read (List.mem_append_right _ (.head _)) registers⟩

theorem registersIn_snoc (entry : Entry) :
    RegistersIn files (seen ++ [entry]) cls impl registration ↔
      RegistersIn files seen cls impl registration ∨ RegistersIn files [entry] cls impl registration := by
  simp only [RegistersIn, List.mem_append, or_and_right, exists_or]
  constructor
  · rintro ((old | new) | old | new)
    · exact .inl (.inl old)
    · exact .inr (.inl new)
    · exact .inl (.inr old)
    · exact .inr (.inr new)
  · rintro ((old | old) | new | new)
    · exact .inl (.inl old)
    · exact .inr (.inl old)
    · exact .inl (.inr new)
    · exact .inr (.inr new)

theorem registersIn_singleton (entry : Entry) :
    RegistersIn files [entry] cls impl registration ↔ entry = .registers cls impl registration ∨
      ∃ inc, entry = .includes inc ∧ Registers files inc cls impl registration := by
  simp only [RegistersIn, List.mem_singleton, eq_comm]

theorem standsIn_singleton (entry : Entry) :
    StandsIn files [entry] cls impl ↔ (∃ registration, entry = .registers cls impl registration) ∨
      ∃ inc, entry = .includes inc ∧ Stands files inc cls impl := by
  constructor
  · rintro ⟨before, standing, after, split, _, kind⟩
    obtain ⟨rfl, rfl, rfl⟩ : before = [] ∧ standing = entry ∧ after = [] := by
      rw [eq_comm, List.append_eq_singleton_iff] at split
      simpa using split
    exact kind
  · intro kind
    exact ⟨[], entry, [], rfl, nofun, kind⟩

/-- What stands after one more entry: it is what the entry itself brings in, or stood before
and is spared by the entry. -/
theorem standsIn_snoc (entry : Entry) :
    StandsIn files (seen ++ [entry]) cls impl ↔
      StandsIn files [entry] cls impl ∨ StandsIn files seen cls impl ∧ Spares files [entry] cls := by
  constructor
  · rintro ⟨before, standing, after, split, spared, kind⟩
    rcases List.eq_nil_or_concat after with rfl | ⟨rest, last, rfl⟩
    · obtain ⟨rfl, same⟩ := List.append_inj' split rfl
      obtain rfl := (List.cons.inj same).1
      exact .inl ⟨[], _, [], rfl, spared, kind⟩
    · rw [List.concat_eq_append] at split spared
      have ends : before ++ standing :: (rest ++ [last]) = (before ++ standing :: rest) ++ [last] := by simp
      obtain ⟨rfl, same⟩ := List.append_inj' (split.trans ends) rfl
      obtain rfl := (List.cons.inj same).1
      refine .inr ⟨⟨before, standing, rest, rfl, fun inc member => ?_, kind⟩, fun inc member => ?_⟩
      · exact spared inc (List.mem_append_left _ member)
      · exact spared inc (List.mem_append_right _ member)
  · rintro (⟨before, standing, after, split, spared, kind⟩ | ⟨⟨before, standing, after, rfl, spared, kind⟩, last⟩)
    · exact ⟨seen ++ before, standing, after, by rw [split, List.append_assoc], spared, kind⟩
    · refine ⟨before, standing, after ++ [entry], by simp, fun inc member => ?_, kind⟩
      rcases List.mem_append.mp member with old | new
      · exact spared inc old
      · exact last inc new

end Entries

/-- What the dictionary holds when the entries in front have been gone through. -/
structure Holds (files : Path → Option (List Char)) (seen : List Entry) (ret : Ini) : Prop where
  classes : ∀ cls, (ret.lookup cls).isSome ↔ NamesIn files seen cls
  pairs : ∀ cls impl, (ret.get cls impl).isSome ↔ StandsIn files seen cls impl
  own : ∀ cls impl registration, ret.get cls impl = some registration →
    RegistersIn files seen cls impl registration

namespace Holds

theorem empty : Holds files [] (.empty : Ini) where
  classes cls := by simp [KeyedMap.lookup, KeyedMap.empty, NamesIn, RegistersIn]
  pairs cls impl := by simp [Ini.get, KeyedMap.lookup, KeyedMap.empty, StandsIn]
  own cls impl registration found := by simp [Ini.get, KeyedMap.lookup, KeyedMap.empty] at found

theorem namesIn_snoc (entry : Entry) :
    NamesIn files (seen ++ [entry]) cls ↔ NamesIn files seen cls ∨ NamesIn files [entry] cls := by
  simp only [NamesIn, registersIn_snoc, exists_or]

theorem get_insert (ret : Ini) (cls impl cls' impl' : List Char) (registration : Registration) :
    (Ini.get (ret.insert cls (((ret.lookup cls).getD .empty).insert impl registration)) cls' impl') =
      if cls = cls' ∧ impl = impl' then some registration else ret.get cls' impl' := by
  rw [Ini.get, KeyedMap.lookup_insert .ofEq]
  by_cases sameCls : cls = cls'
  · subst sameCls
    simp only [decide_true, if_true, Option.bind_some, KeyedMap.lookup_insert .ofEq, decide_eq_true_eq, true_and]
    by_cases sameImpl : impl = impl'
    · rw [if_pos sameImpl, if_pos sameImpl]
    · rw [if_neg sameImpl, if_neg sameImpl, Ini.get]
      cases ret.lookup cls <;> rfl
  · simp only [sameCls, decide_false, Bool.false_eq_true, if_false, false_and, Ini.get]

theorem register (holds : Holds files seen ret) (cls impl : List Char) (registration : Registration) :
    Holds files (seen ++ [.registers cls impl registration])
      (ret.insert cls (((ret.lookup cls).getD .empty).insert impl registration)) := by
  have spares (cls' : List Char) : Spares files [.registers cls impl registration] cls' := by
    intro inc member
    simp at member
  constructor
  case classes =>
    intro cls'
    rw [KeyedMap.lookup_insert .ofEq, namesIn_snoc, ← holds.classes]
    by_cases same : cls = cls'
    · subst same
      simp only [decide_true, if_true, Option.isSome_some, true_iff]
      exact .inr ⟨impl, registration, .inl (.head _)⟩
    · have other : ¬ NamesIn files [.registers cls impl registration] cls' := by
        simp [NamesIn, registersIn_singleton, same]
      simp [same, other]
  case pairs =>
    intro cls' impl'
    have new : StandsIn files [.registers cls impl registration] cls' impl' ↔ cls = cls' ∧ impl = impl' := by
      simp [standsIn_singleton]
    rw [get_insert, standsIn_snoc, new, ← holds.pairs]
    by_cases same : cls = cls' ∧ impl = impl'
    · simp [same]
    · simp [same, spares]
  case own =>
    intro cls' impl' registration' found
    rw [get_insert] at found
    rw [registersIn_snoc]
    split at found
    case isTrue same =>
      obtain ⟨⟨rfl, rfl⟩, rfl⟩ := And.intro same (Option.some.inj found)
      exact .inr (.inl (.head _))
    case isFalse => exact .inl (holds.own cls' impl' registration' found)

theorem get_update (ret included : Ini) (cls impl : List Char) :
    Ini.get (ret.update included) cls impl =
      if (included.lookup cls).isSome then included.get cls impl else ret.get cls impl := by
  rw [Ini.get, KeyedMap.lookup_update .ofEq, Ini.get, Ini.get]
  cases included.lookup cls <;> rfl

theorem incorporate (holds : Holds files seen ret) (read : fileEntries files inc = some entries)
    (holdsInc : Holds files entries included) : Holds files (seen ++ [.includes inc]) (ret.update included) := by
  have named (cls : List Char) : NamesIn files [.includes inc] cls ↔ NamesIn files entries cls := by
    simp only [NamesIn, registersIn_singleton, reduceCtorEq, Entry.includes.injEq, exists_eq_left', registers_iff read,
      false_or]
  have spares (cls : List Char) : Spares files [.includes inc] cls ↔ ¬ NamesIn files entries cls := by
    simp [Spares, NamesIn, registers_iff read]
  constructor
  case classes =>
    intro cls
    rw [KeyedMap.lookup_update .ofEq, Option.isSome_or, Bool.or_eq_true, holds.classes, holdsInc.classes, namesIn_snoc,
      named, or_comm]
  case pairs =>
    intro cls impl
    have new : StandsIn files [.includes inc] cls impl ↔ StandsIn files entries cls impl := by
      simp [standsIn_singleton, stands_iff read]
    rw [get_update, standsIn_snoc, new, spares, ← holdsInc.classes, ← holdsInc.pairs, ← holds.pairs]
    split
    case isTrue present => simp [present]
    case isFalse absent =>
      have missing : included.get cls impl = none := by
        rw [Bool.not_eq_true, Option.isSome_eq_false_iff, Option.isNone_iff_eq_none] at absent
        rw [Ini.get, absent]
        rfl
      simp [absent, missing]
  case own =>
    intro cls impl registration found
    rw [get_update] at found
    rw [registersIn_snoc]
    split at found
    · exact .inr (.inr ⟨inc, .head _, (registers_iff read).mpr (holdsInc.own cls impl registration found)⟩)
    · exact .inl (holds.own cls impl registration found)

end Holds

/-- With enough nested calls allowed, a file is read to its end. -/
def ReadToEnd (files : Path → Option (List Char)) (path : Path) : Prop :=
  ∃ depth₀ ini entries, (∀ depth, depth₀ ≤ depth → parseIni files depth path = .ok ini) ∧
    fileEntries files path = some entries ∧ Holds files entries ini

theorem parseIniLines_readToEnd {ls : List (List Char)} {currentSection : List Char} (lineNo : Nat)
    (read : readEntries path currentSection ls = some entries)
    (includes : ∀ inc, .includes inc ∈ entries → ReadToEnd files inc) (holds : Holds files seen ret) :
    ∃ depth₀ ini, (∀ depth, depth₀ ≤ depth →
      parseIniLines (parseIni files depth) path ls lineNo currentSection ret = .ok ini) ∧
      Holds files (seen ++ entries) ini := by
  induction ls generalizing currentSection lineNo entries seen ret with
  | nil =>
      obtain rfl := Option.some.inj read
      exact ⟨0, ret, fun _ _ => rfl, by rwa [List.append_nil]⟩
  | cons l ls ih =>
      cases kind : classifyLine currentSection l with
      | nothing =>
          simp only [readEntries, kind] at read
          simp only [parseIniLines, kind]
          exact ih _ read includes holds
      | header name =>
          simp only [readEntries, kind] at read
          simp only [parseIniLines, kind]
          exact ih _ read includes holds
      | bad complaint =>
          simp only [readEntries, kind] at read
          contradiction
      | registers cls impl registration =>
          simp only [readEntries, kind, Option.map_eq_some_iff] at read
          obtain ⟨rest, readRest, rfl⟩ := read
          simp only [parseIniLines, kind]
          have next := ih (lineNo + 1) readRest (fun inc member => includes inc (.tail _ member))
            (holds.register cls impl registration)
          rwa [List.append_assoc] at next
      | includes incPath =>
          simp only [readEntries, kind, Option.map_eq_some_iff] at read
          obtain ⟨rest, readRest, rfl⟩ := read
          obtain ⟨depthInc, included, incEntries, parsed, readInc, holdsInc⟩ := includes _ (.head _)
          obtain ⟨depthRest, ini, parsedRest, holdsRest⟩ := ih (lineNo + 1) readRest
            (fun inc member => includes inc (.tail _ member)) (holds.incorporate readInc holdsInc)
          refine ⟨max depthInc depthRest, ini, fun depth enough => ?_, by rwa [List.append_assoc] at holdsRest⟩
          simp only [parseIniLines, kind, parsed depth (Nat.le_trans (Nat.le_max_left _ _) enough)]
          exact parsedRest depth (Nat.le_trans (Nat.le_max_right _ _) enough)

theorem Parses.readToEnd (parses : Parses files path) : ReadToEnd files path := by
  induction parses with
  | @file path entries read _ ih =>
      obtain ⟨text, found, readText⟩ := Option.bind_eq_some_iff.mp read
      obtain ⟨depth₀, ini, parsed, holds⟩ := parseIniLines_readToEnd 0 readText ih .empty
      refine ⟨depth₀ + 1, ini, entries, fun depth enough => ?_, read, holds⟩
      obtain ⟨depth, rfl⟩ : ∃ below, depth = below + 1 := ⟨depth - 1, by omega⟩
      simp only [parseIni, found]
      exact parsed depth (by omega)

/-- A well-formed tree of files is read, and what is recorded for an implement is what one of
its own lines says.  Nothing that is registered gets lost exactly if every registered
implement has a line that no later include overwrites. -/
theorem registrations_kept_iff (parses : Parses files path) :
    ∃ depth₀ ini, (∀ depth, depth₀ ≤ depth → parseIni files depth path = .ok ini) ∧
      (∀ cls impl registration, ini.get cls impl = some registration →
        Registers files path cls impl registration) ∧
      ((∀ cls impl, (ini.get cls impl).isSome ↔ ∃ registration, Registers files path cls impl registration) ↔
        ∀ cls impl registration, Registers files path cls impl registration → Stands files path cls impl) := by
  obtain ⟨depth₀, ini, entries, parsed, read, holds⟩ := parses.readToEnd
  have own (cls impl : List Char) (registration : Registration) (found : ini.get cls impl = some registration) :
      Registers files path cls impl registration :=
    (registers_iff read).mpr (holds.own cls impl registration found)
  refine ⟨depth₀, ini, parsed, own, ?_, ?_⟩
  · intro kept cls impl registration registers
    rw [stands_iff read, ← holds.pairs]
    exact (kept cls impl).mpr ⟨registration, registers⟩
  · intro stand cls impl
    rw [holds.pairs, ← stands_iff read]
    constructor
    · exact Stands.registers
    · rintro ⟨registration, registers⟩
      exact stand cls impl registration registers

/-- One file that includes two, which register implements of the same class. -/
def twoIncluded (path : Path) : Option (List Char) :=
  if path = "all.reg".toList then some "[include]\nmmx.reg\nsse.reg\n".toList
  else if path = "mmx.reg".toList then some "[OIL_FLAG (0)]\ncopy.mmx = copy_mmx\n".toList
  else if path = "sse.reg".toList then some "[OIL_FLAG (1)]\ncopy.sse = copy_sse\n".toList
  else none

theorem twoIncluded_all : fileEntries twoIncluded "all.reg".toList =
    some [.includes "mmx.reg".toList, .includes "sse.reg".toList] := by
  decide +kernel

theorem twoIncluded_mmx : fileEntries twoIncluded "mmx.reg".toList =
    some [.registers "copy".toList "mmx".toList ("OIL_FLAG (0)".toList, "copy_mmx".toList)] := by
  decide +kernel

theorem twoIncluded_parses : Parses twoIncluded "all.reg".toList := by
  have sse : fileEntries twoIncluded "sse.reg".toList =
      some [.registers "copy".toList "sse".toList ("OIL_FLAG (1)".toList, "copy_sse".toList)] := by decide +kernel
  refine .file twoIncluded_all fun inc member => ?_
  simp only [List.mem_cons, Entry.includes.injEq, List.not_mem_nil, or_false] at member
  rcases member with rfl | rfl
  · exact .file twoIncluded_mmx fun inc member => by simp at member
  · exact .file sse fun inc member => by simp at member

theorem registrations_kept_iff_two :
    ∃ depth₀ ini, (∀ depth, depth₀ ≤ depth → parseIni twoIncluded depth "all.reg".toList = .ok ini) ∧
      ((∀ cls impl, (ini.get cls impl).isSome ↔
          ∃ registration, Registers twoIncluded "all.reg".toList cls impl registration) ↔
        ∀ cls impl registration, Registers twoIncluded "all.reg".toList cls impl registration →
          Stands twoIncluded "all.reg".toList cls impl) := by
  obtain ⟨depth₀, ini, parsed, _, kept⟩ := registrations_kept_iff twoIncluded_parses
  exact ⟨depth₀, ini, parsed, kept⟩

/-- The second file drops what the first one registered. -/
theorem first_registration_lost :
    ¬ ∀ files path, Parses files path → ∀ depth ini, parseIni files depth path = .ok ini →
      ∀ cls impl, (ini.get cls impl).isSome ↔ ∃ registration, Registers files path cls impl registration := by
  intro kept
  have registers : Registers twoIncluded "all.reg".toList "copy".toList "mmx".toList
      ("OIL_FLAG (0)".toList, "copy_mmx".toList) :=
    .included twoIncluded_all (.head _) (.line twoIncluded_mmx (.head _))
  have found : ((parseIni twoIncluded 2 "all.reg".toList).toOption.map fun ini =>
      ini.get "copy".toList "mmx".toList) = some none := by decide +kernel
  cases parsed : parseIni twoIncluded 2 "all.reg".toList with
  | error failure =>
      rw [parsed] at found
      contradiction
  | ok ini =>
      rw [parsed] at found
      have lost : ini.get "copy".toList "mmx".toList = none := Option.some.inj found
      have present := (kept _ _ twoIncluded_parses 2 ini parsed "copy".toList "mmx".toList).mpr ⟨_, registers⟩
      rw [lost] at present
      contradiction

end Oil.Test

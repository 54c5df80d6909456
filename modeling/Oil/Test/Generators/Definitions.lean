import Oil.Test.Generators.RegClasses

namespace Oil.Test.RegClasses

open Oil.Data Python

/-! # The definition of one class

A definition is a prototype line together with its place in the file and the lines between
it and the prototype line before. -/

structure Definition where
  /-- The number of the first line after the preceding prototype line. -/
  start : Nat
  above : List (List Char)
  line : List Char
deriving DecidableEq

def prototypeLine (inside : Inside) (line : List Char) : Bool :=
  match inside with
  | .cComment _ => false
  | _ => !blankLine line && !commentStart line && !cCommentStart line

/-- The definitions of a file, accepted or not. -/
def definitionsFrom : (start : Nat) → Inside → (above : List (List Char)) → List (List Char) → List Definition
  | _, _, _, [] => []
  | start, inside, above, line :: rest =>
      if prototypeLine inside line then
        ⟨start, above, line⟩ :: definitionsFrom (start + above.length + 1) .nothing [] rest
      else definitionsFrom start (visitLine 0 inside {} line).1 (above ++ [line]) rest

def definitions (deffile : List Char) : List Definition := definitionsFrom 1 .nothing [] (lines deffile)

/-- What the generator makes of a definition by itself. -/
def Definition.node (d : Definition) : Option ClassNode :=
  (parseFrom d.start .nothing {} (d.above ++ [d.line])).head?

/-- The registration of a class whose definition is all there is. -/
def ownRegistration (node : ClassNode) : TmplVars := fill checkerDefault profilerDefault node

/-- What the comments of a definition name under a key. -/
def Definition.names (d : Definition) (key : List Char) : Option (List Char) :=
  d.node.bind fun node => node.comments.comment.lookup key

/-- The definition's comments name the key, or the last accepted definition before it whose
comments do, if there is one, names the default. -/
def Undisturbed (before : List Definition) (d : Definition) (key default : List Char) : Prop :=
  (d.names key).isSome ∨ ∀ value, (before.filterMap fun earlier => earlier.names key).getLast? = some value →
    value = default

section Generator

variable {start : Nat} {inside : Inside} {seqNode : SeqNode} {line : List Char} {above rest : List (List Char)}

theorem readLine_cases (lineno : Nat) (seqNode : SeqNode) (line : List Char) :
    (blankLine line = false ∧ commentStart line = false ∧ cCommentStart line = false ∧
      (readLine lineno seqNode line).1 = .nothing ∧ (readLine lineno seqNode line).2.1 = {}) ∨
    ((!blankLine line && !commentStart line && !cCommentStart line) = false ∧
      (readLine lineno seqNode line).2.2 = none ∧
      ∀ lineno' seqNode', (readLine lineno' seqNode' line).1 = (readLine lineno seqNode line).1) := by
  cases blank : blankLine line with
  | true => exact .inr ⟨by simp, by simp [readLine, blank], fun _ _ => by simp [readLine, blank]⟩
  | false =>
      cases hash : commentStart line with
      | true => exact .inr ⟨by simp, by simp [readLine, blank, hash], fun _ _ => by simp [readLine, blank, hash]⟩
      | false =>
          cases slash : cCommentStart line with
          | true =>
              refine .inr ⟨by simp, by simp [readLine, blank, hash, slash], fun _ _ => ?_⟩
              simp only [readLine, blank, hash, slash, readCComment]
              cases beforeCommentEnd line <;> rfl
          | false =>
              refine .inl ⟨rfl, rfl, rfl, ?_⟩
              simp only [readLine, blank, hash, slash]
              cases parsePrototype line <;> exact ⟨rfl, rfl⟩

theorem visitLine_prototype (lineno : Nat) (seqNode : SeqNode) (prototype : prototypeLine inside line = true) :
    (visitLine lineno inside seqNode line).1 = .nothing ∧ (visitLine lineno inside seqNode line).2.1 = {} := by
  have read (seqNode : SeqNode) (outside : (!blankLine line && !commentStart line && !cCommentStart line) = true) :
      (readLine lineno seqNode line).1 = .nothing ∧ (readLine lineno seqNode line).2.1 = {} := by
    rcases readLine_cases lineno seqNode line with ⟨_, _, _, reset⟩ | ⟨other, _⟩
    · exact reset
    · rw [outside] at other
      contradiction
  cases inside with
  | nothing => exact read seqNode prototype
  | comment block =>
      have noHash : commentStart line = false := by
        simp only [prototypeLine, Bool.and_eq_true, Bool.not_eq_true'] at prototype
        exact prototype.1.2
      simp only [visitLine, noHash, Bool.false_eq_true, if_false]
      exact read _ prototype
  | cComment block => contradiction

theorem visitLine_other (lineno : Nat) (seqNode : SeqNode) (other : prototypeLine inside line = false) :
    (visitLine lineno inside seqNode line).2.2 = none ∧
      (visitLine lineno inside seqNode line).1 = (visitLine 0 inside {} line).1 := by
  have read (seqNode seqNode' : SeqNode)
      (outside : (!blankLine line && !commentStart line && !cCommentStart line) = false) :
      (readLine lineno seqNode line).2.2 = none ∧
        (readLine lineno seqNode line).1 = (readLine 0 seqNode' line).1 := by
    rcases readLine_cases lineno seqNode line with ⟨blank, hash, slash, _⟩ | ⟨_, nothing, opened⟩
    · simp [blank, hash, slash] at outside
    · exact ⟨nothing, (opened 0 seqNode').symm⟩
  cases inside with
  | nothing => exact read seqNode {} other
  | comment block =>
      cases hash : commentStart line with
      | true => simp [visitLine, hash]
      | false =>
          simp only [visitLine, hash, Bool.false_eq_true, if_false]
          exact read _ _ other
  | cComment block =>
      simp only [visitLine, readCComment]
      cases beforeCommentEnd line <;> simp

/-- The generator after some lines, none of them a prototype. -/
structure Gathered (start : Nat) (above : List (List Char)) (inside : Inside) (seqNode : SeqNode) : Prop where
  parse : ∀ rest, parseFrom start .nothing {} (above ++ rest) = parseFrom (start + above.length) inside seqNode rest

theorem Gathered.nothing (start : Nat) : Gathered start [] .nothing {} := ⟨fun _ => rfl⟩

theorem Gathered.snoc (gathered : Gathered start above inside seqNode) (other : prototypeLine inside line = false) :
    Gathered start (above ++ [line]) (visitLine 0 inside {} line).1
      (visitLine (start + above.length) inside seqNode line).2.1 where
  parse rest := by
    obtain ⟨nothing, opened⟩ := visitLine_other (start + above.length) seqNode other
    rw [List.append_assoc, List.singleton_append, gathered.parse, parseFrom, nothing, ← opened, List.length_append]
    rfl

theorem Gathered.node (gathered : Gathered start above inside seqNode) (line : List Char) :
    (Definition.mk start above line).node = (visitLine (start + above.length) inside seqNode line).2.2 := by
  rw [Definition.node, gathered.parse, parseFrom, parseFrom, List.append_nil]
  cases (visitLine (start + above.length) inside seqNode line).2.2 <;> rfl

/-- The generator yields a node for each definition by itself. -/
theorem parseFrom_eq (gathered : Gathered start above inside seqNode) (rest : List (List Char)) :
    parseFrom (start + above.length) inside seqNode rest =
      (definitionsFrom start inside above rest).filterMap Definition.node := by
  induction rest generalizing start above inside seqNode with
  | nil => rfl
  | cons line rest ih =>
      rw [parseFrom, definitionsFrom]
      cases prototype : prototypeLine inside line with
      | true =>
          obtain ⟨nothing, empty⟩ :=
            visitLine_prototype (start + above.length) seqNode prototype
          have next := ih (Gathered.nothing (start + above.length + 1))
          rw [List.length_nil, Nat.add_zero] at next
          rw [if_pos rfl, List.filterMap_cons, gathered.node line, nothing, empty, next]
          cases (visitLine (start + above.length) inside seqNode line).2.2 <;> rfl
      | false =>
          obtain ⟨nothing, opened⟩ := visitLine_other (start + above.length) seqNode prototype
          have next := ih (gathered.snoc prototype)
          rw [List.length_append, List.length_singleton, ← Nat.add_assoc] at next
          simp only [Bool.false_eq_true, if_false, nothing, opened, Option.toList_none, List.nil_append, next]

theorem parse_eq (deffile : List Char) : parse deffile = (definitions deffile).filterMap Definition.node :=
  parseFrom_eq (Gathered.nothing 1) (lines deffile)

end Generator

section Loop

/-- The last of some nodes whose comments name a key decides. -/
def lastNamed (nodes : List ClassNode) (key default : List Char) : List Char :=
  ((nodes.filterMap fun node => node.comments.comment.lookup key).getLast?).getD default

@[simp] theorem lastNamed_nil (key default : List Char) : lastNamed [] key default = default := rfl

theorem lastNamed_cons (node : ClassNode) (nodes : List ClassNode) (key default : List Char) :
    lastNamed (node :: nodes) key default =
      lastNamed nodes key ((node.comments.comment.lookup key).getD default) := by
  unfold lastNamed
  rw [List.filterMap_cons]
  cases node.comments.comment.lookup key with
  | none => rfl
  | some value =>
      rw [List.getLast?_cons]
      rfl

/-- The entries a class is filled with: its own, and those left by the classes before it. -/
theorem fillAll_getElem? (checker profiler : List Char) (before : List ClassNode) (node : ClassNode)
    (after : List ClassNode) :
    (fillAll checker profiler (before ++ node :: after))[before.length]? =
      some (fill (lastNamed before "checker".toList checker) (lastNamed before "profiler".toList profiler) node) := by
  induction before generalizing checker profiler with
  | nil => rfl
  | cons first before ih =>
      rw [List.cons_append, fillAll, List.length_cons, List.getElem?_cons_succ, ih, lastNamed_cons, lastNamed_cons]
      rfl

/-- What is left over matters only to a class that names nothing itself. -/
theorem fill_eq_own_iff (checker profiler : List Char) (node : ClassNode) :
    fill checker profiler node = ownRegistration node ↔
      ((node.comments.comment.lookup "checker".toList).isSome ∨ checker = checkerDefault) ∧
        ((node.comments.comment.lookup "profiler".toList).isSome ∨ profiler = profilerDefault) := by
  unfold ownRegistration fill
  cases node.comments.comment.lookup "checker".toList <;>
    cases node.comments.comment.lookup "profiler".toList <;> simp

/-- A definition is undisturbed where the loop arrives with the default, or does not use it. -/
theorem undisturbed_iff {before : List Definition} {d : Definition} {node : ClassNode} (accepted : d.node = some node)
    (key default : List Char) :
    Undisturbed before d key default ↔
      ((node.comments.comment.lookup key).isSome ∨
        lastNamed (before.filterMap Definition.node) key default = default) := by
  have own : d.names key = node.comments.comment.lookup key := by rw [Definition.names, accepted, Option.bind_some]
  unfold Undisturbed lastNamed
  rw [own, List.filterMap_filterMap]
  refine or_congr_right ?_
  change _ ↔ ((before.filterMap fun earlier => earlier.names key).getLast?).getD default = default
  cases (before.filterMap fun earlier => earlier.names key).getLast? <;> simp

end Loop

/-- The registration of an accepted definition is its own exactly where no earlier definition
has left another checker or profiler behind. -/
theorem registration_own_iff {deffile : List Char} {before after : List Definition} {d : Definition}
    {node : ClassNode} (split : definitions deffile = before ++ d :: after) (accepted : d.node = some node) :
    (registrations deffile)[(before.filterMap Definition.node).length]? = some (ownRegistration node) ↔
      Undisturbed before d "checker".toList checkerDefault ∧ Undisturbed before d "profiler".toList profilerDefault := by
  have nodes : parse deffile =
      before.filterMap Definition.node ++ node :: after.filterMap Definition.node := by
    rw [parse_eq, split, List.filterMap_append, List.filterMap_cons, accepted]
  rw [registrations, nodes, fillAll_getElem?, Option.some_inj, fill_eq_own_iff, undisturbed_iff accepted,
    undisturbed_iff accepted]

/-- A file whose first class names a checker and whose second does not. -/
def twoClasses (checker : String) : List Char :=
  ("# @checker " ++ checker ++ "\nvoid f (int n);\nvoid g (int n);\n").toList

def firstClass : Definition := ⟨1, ["# @checker my\n".toList], "void f (int n);\n".toList⟩

def secondClass : Definition := ⟨3, [], "void g (int n);\n".toList⟩

/-- A file whose second class names a checker of its own. -/
def ownCheckers : List Char := "# @checker my\nvoid f (int n);\n# @checker your\nvoid g (int n);\n".toList

def ownClass : Definition := ⟨3, ["# @checker your\n".toList], "void g (int n);\n".toList⟩

/-- A second class is disturbed by the first one's checker, unless it names one. -/
theorem registration_own_iff_second :
    (registrations ownCheckers)[1]? = ownClass.node.map ownRegistration ∧
      (registrations (twoClasses "my"))[1]? ≠ secondClass.node.map ownRegistration := by
  obtain ⟨node, accepted⟩ : ∃ node, ownClass.node = some node := Option.isSome_iff_exists.mp (by decide +kernel)
  obtain ⟨second, taken⟩ : ∃ node, secondClass.node = some node := Option.isSome_iff_exists.mp (by decide +kernel)
  have split : definitions ownCheckers = [firstClass] ++ ownClass :: [] := by decide +kernel
  have splitTwo : definitions (twoClasses "my") = [firstClass] ++ secondClass :: [] := by decide +kernel
  have one : ([firstClass].filterMap Definition.node).length = 1 := by decide +kernel
  have own := registration_own_iff split accepted
  have disturbed := registration_own_iff splitTwo taken
  rw [one] at own disturbed
  have named : (ownClass.names "checker".toList).isSome := by decide +kernel
  have profiler : ([firstClass].filterMap fun earlier => earlier.names "profiler".toList) = [] := by decide +kernel
  have checker : ([firstClass].filterMap fun earlier => earlier.names "checker".toList) = ["my".toList] := by
    decide +kernel
  have silent : ¬ (secondClass.names "checker".toList).isSome := by decide +kernel
  rw [accepted, taken]
  refine ⟨own.mpr ⟨.inl named, .inr fun value last => ?_⟩, fun same => ?_⟩
  · rw [profiler] at last
    contradiction
  · rcases (disturbed.mp same).1 with named | left
    · exact silent named
    · exact absurd (left "my".toList (by rw [checker]; rfl)) (by decide +kernel)

/-- The checker of the first class is registered for the second one, too. -/
theorem checker_left_behind :
    (definitions (twoClasses "my"))[1]? = some secondClass ∧ (definitions (twoClasses "your"))[1]? = some secondClass ∧
      (registrations (twoClasses "my"))[1]?.map TmplVars.checker = some "my".toList ∧
      (registrations (twoClasses "your"))[1]?.map TmplVars.checker = some "your".toList ∧
      (secondClass.node.map ownRegistration).map TmplVars.checker = some checkerDefault := by
  decide +kernel

end Oil.Test.RegClasses

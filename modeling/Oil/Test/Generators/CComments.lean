import Oil.Test.Generators.RegisterClasses

namespace Oil.Test.RegClasses

open Oil.Data Python Program

/-! # Comments in C in a definition file

The script hands the comments in front of a definition on as they are.  It finds their ends its
own way, and what it hands on is passed over by a reader of C. -/

section Comments

variable {text line front block : List Char}

/-- The text is passed over from outside of comments and from within one, to either. -/
def Passed (text : List Char) : Prop :=
  ∀ mode, (mode = .between ∨ mode = .comment) → ∃ next, (next = .between ∨ next = .comment) ∧
    transduce step mode text = (next, [])

/-- The text leads into a comment that is still open, at the start of a line. -/
def Opened (text : List Char) : Prop :=
  ∀ mode, (mode = .between ∨ mode = .comment) → transduce step mode text = (.comment, [])

theorem passed_nil : Passed [] := fun mode outside => ⟨mode, outside, rfl⟩

theorem Passed.append {rest : List Char} (passed : Passed text) (later : Passed rest) : Passed (text ++ rest) := by
  intro mode outside
  obtain ⟨middle, between, first⟩ := passed mode outside
  obtain ⟨next, last, second⟩ := later middle between
  exact ⟨next, last, transduce_seq first second⟩

/-- `line.split ('*/', 1)` -/
theorem beforeCommentEnd_split (ends : beforeCommentEnd line = some front) :
    ∃ rest, line = front ++ '*' :: '/' :: rest := by
  induction line using beforeCommentEnd.induct generalizing front with
  | case1 => contradiction
  | case2 rest =>
      obtain rfl := Option.some.inj ends
      exact ⟨rest, rfl⟩
  | case3 c line other ih =>
      rw [beforeCommentEnd] at ends
      · obtain ⟨before, found, rfl⟩ := Option.map_eq_some_iff.mp ends
        obtain ⟨rest, rfl⟩ := ih found
        exact ⟨rest, rfl⟩
      · exact other

theorem beforeCommentEnd_cons {c : Char} (plain : ¬ (c = '*' ∧ text.head? = some '/')) :
    beforeCommentEnd (c :: text) = (beforeCommentEnd text).map (c :: ·) := by
  rw [beforeCommentEnd]
  intro rest star slash
  exact plain ⟨star, by rw [slash]; rfl⟩

/-- There is no end of a comment before the first. -/
theorem beforeCommentEnd_front (ends : beforeCommentEnd line = some front) : beforeCommentEnd front = none := by
  induction line using beforeCommentEnd.induct generalizing front with
  | case1 => contradiction
  | case2 rest =>
      obtain rfl := Option.some.inj ends
      rfl
  | case3 c line other ih =>
      rw [beforeCommentEnd] at ends
      · obtain ⟨before, found, rfl⟩ := Option.map_eq_some_iff.mp ends
        obtain ⟨rest, split⟩ := beforeCommentEnd_split found
        rw [beforeCommentEnd_cons, ih found]
        · rfl
        · intro ⟨star, slash⟩
          obtain ⟨more, rfl⟩ := List.head?_eq_some_iff.mp slash
          exact other _ star split
      · exact other

theorem not_ended_cons {c : Char} (unended : beforeCommentEnd (c :: text) = none) :
    beforeCommentEnd text = none ∧ (c = '*' → text.head? ≠ some '/') := by
  by_cases closes : c = '*' ∧ text.head? = some '/'
  · obtain ⟨rfl, slash⟩ := closes
    obtain ⟨more, rfl⟩ := List.head?_eq_some_iff.mp slash
    contradiction
  · rw [beforeCommentEnd_cons closes] at unended
    exact ⟨Option.map_eq_none_iff.mp unended, fun star slash => closes ⟨star, slash⟩⟩

/-- A text without the end of a comment does not lead out of one. -/
theorem transduce_unended (unended : beforeCommentEnd text = none) {mode : Mode} (inside : InComment mode)
    (apart : mode = .star → text.head? ≠ some '/') :
    ∃ next, InComment next ∧ transduce step mode text = (next, []) := by
  induction text generalizing mode with
  | nil => exact ⟨mode, inside, rfl⟩
  | cons c text ih =>
      obtain ⟨later, starred⟩ := not_ended_cons unended
      have moves : step mode c = (if c = '*' then .star else .comment, []) := by
        cases inside with
        | comment => rw [step]; split <;> rfl
        | star =>
            have other : c ≠ '/' := fun slash => apart rfl (by rw [slash]; rfl)
            rw [step, if_neg other]
            split <;> rfl
      have insideNext : InComment (if c = '*' then .star else .comment) := by
        split
        · exact .star
        · exact .comment
      have apartNext : (if c = '*' then Mode.star else .comment) = .star → text.head? ≠ some '/' := by
        intro isStar
        split at isStar
        · exact starred ‹_›
        · contradiction
      obtain ⟨next, last, behind⟩ := ih later insideNext apartNext
      refine ⟨next, last, ?_⟩
      rw [transduce, moves, behind]
      rfl

/-- A whole line of a comment that goes on. -/
theorem transduce_commentLine (unended : beforeCommentEnd line = none) (whole : line.getLast? = some '\n') :
    transduce step .comment line = (.comment, []) := by
  obtain ⟨next, inside, reads⟩ := transduce_unended unended .comment (by simp)
  obtain ⟨front, rfl⟩ := List.getLast?_eq_some_iff.mp whole
  rw [transduce_append] at reads
  rw [transduce_append]
  have newline (mode : Mode) : (transduce step mode ['\n']).1 ≠ .star := by
    have letter : isWordLetter '\n' = false := by decide
    have blank : start '\n' = (.between, []) := by decide
    have special : isPlainChar '\n' = false := by decide
    cases mode <;> simp [transduce, step, letter, blank, special]
  have last := newline (transduce step .comment front).1
  rw [Prod.ext_iff] at reads
  refine Prod.ext ?_ reads.2
  rw [reads.1] at last ⊢
  cases inside with
  | comment => rfl
  | star => contradiction

/-- The line in which a comment ends, up to there. -/
theorem transduce_commentEnd (unended : beforeCommentEnd front = none) :
    transduce step .comment (front ++ "*/\n".toList) = (.between, []) := by
  obtain ⟨next, inside, reads⟩ := transduce_unended unended .comment (by simp)
  have ended : transduce step next "*/\n".toList = (.between, []) := by
    cases inside <;> decide +kernel
  exact transduce_seq reads ended

end Comments

/-! ## The comments in front of a class -/

section Blocks

variable {line front block blanks rest : List Char}

theorem unended_of_append (unended : beforeCommentEnd (front ++ rest) = none) : beforeCommentEnd rest = none := by
  induction front with
  | nil => exact unended
  | cons c front ih => exact ih (not_ended_cons unended).1

theorem unended_of_begun (unended : beforeCommentEnd (blanks ++ '/' :: '*' :: rest) = none) :
    beforeCommentEnd rest = none := by
  have opened := unended_of_append unended
  exact (not_ended_cons (not_ended_cons opened).1).1

theorem cComment_line (starts : cCommentStart line = true) :
    ∃ blanks rest, line = blanks ++ '/' :: '*' :: rest ∧ ∀ c ∈ blanks, isBlankTab c = true := by
  refine ⟨line.takeWhile isBlankTab, (line.dropWhile isBlankTab).drop 2, ?_, fun c => List.mem_takeWhile_imp⟩
  have opens : (line.dropWhile isBlankTab).take 2 = ['/', '*'] := of_decide_eq_true starts
  have split : line.dropWhile isBlankTab = '/' :: '*' :: (line.dropWhile isBlankTab).drop 2 := by
    rw [← List.take_append_drop 2 (line.dropWhile isBlankTab), opens]
    simp
  rw [← split, List.takeWhile_append_dropWhile]

theorem transduce_blanks (blank : ∀ c ∈ blanks, isBlankTab c = true) :
    transduce step .between blanks = (.between, []) := by
  have stays (mode : Mode) (c : Char) (outside : mode = .between) (isBlank : isBlankTab c = true) :
      (step mode c).1 = .between ∧ (step mode c).2 = [] := by
    simp only [isBlankTab, Bool.or_eq_true, decide_eq_true_eq] at isBlank
    rcases isBlank with rfl | rfl
    · rw [outside]
      decide
    · rw [outside]
      decide
  obtain ⟨outside, nothing⟩ := transduce_silent stays blank (show Mode.between = .between from rfl)
  exact Prod.ext outside nothing

theorem opened_line (starts : cCommentStart line = true) (unended : beforeCommentEnd line = none)
    (whole : line.getLast? = some '\n') : Opened line := by
  rintro mode (rfl | rfl)
  · obtain ⟨blanks, rest, rfl, blank⟩ := cComment_line starts
    have opens : transduce step .between ['/', '*'] = (.comment, []) := by decide
    have wholeRest : rest.getLast? = some '\n' := by
      cases rest with
      | nil => simp at whole
      | cons c rest => simpa using whole
    have goesOn := transduce_commentLine (unended_of_begun unended) wholeRest
    exact transduce_seq (transduce_blanks blank) (transduce_seq opens goesOn)
  · exact transduce_commentLine unended whole

/-- The end of a comment in the line that begins it.  In `/*/` the script finds one, but C does not. -/
theorem passed_line (starts : cCommentStart line = true) (ends : beforeCommentEnd line = some front) :
    Passed (front ++ "*/\n".toList) := by
  have unended := beforeCommentEnd_front ends
  rintro mode (rfl | rfl)
  · obtain ⟨blanks, rest, rfl, blank⟩ := cComment_line starts
    obtain ⟨more, split⟩ := beforeCommentEnd_split ends
    have before := transduce_blanks blank
    rcases List.append_eq_append_iff.mp split with ⟨inner, rfl, behind⟩ | ⟨outer, rfl, behind⟩
    · rcases inner with _ | ⟨c, _ | ⟨d, inner⟩⟩
      · simp at behind
      · obtain ⟨rfl, _⟩ := List.cons.inj behind
        have opens : transduce step .between "/*/\n".toList = (.comment, []) := by decide +kernel
        refine ⟨.comment, .inr rfl, ?_⟩
        rw [List.append_assoc]
        exact transduce_seq before opens
      · obtain ⟨rfl, inside⟩ := List.cons.inj behind
        obtain ⟨rfl, _⟩ := List.cons.inj inside
        have opens : transduce step .between ['/', '*'] = (.comment, []) := by decide
        have closes := transduce_commentEnd (unended_of_begun unended)
        refine ⟨.between, .inl rfl, ?_⟩
        rw [List.append_assoc]
        exact transduce_seq before (transduce_seq opens closes)
    · rcases outer with _ | ⟨c, outer⟩
      · simp at behind
      · obtain ⟨rfl, _⟩ := List.cons.inj behind
        exact absurd (blank '*' (by simp)) (by decide)
  · exact ⟨.between, .inl rfl, transduce_commentEnd unended⟩

theorem Opened.goesOn (opened : Opened block) (unended : beforeCommentEnd line = none)
    (whole : line.getLast? = some '\n') : Opened (block ++ line) :=
  fun mode outside => transduce_seq (opened mode outside) (transduce_commentLine unended whole)

theorem Opened.closed (opened : Opened block) (ends : beforeCommentEnd line = some front) :
    Passed (block ++ front ++ "*/\n".toList) := by
  intro mode outside
  refine ⟨.between, .inl rfl, ?_⟩
  rw [List.append_assoc]
  exact transduce_seq (opened mode outside) (transduce_commentEnd (beforeCommentEnd_front ends))

end Blocks

section Gathering

variable {seqNode : SeqNode} {line block : List Char} {lineno : Nat} {inside : Inside}

/-- What the generator has gathered can stand in front of a definition. -/
structure Harmless (inside : Inside) (seqNode : SeqNode) : Prop where
  passed : Passed seqNode.cComment
  opened : ∀ block, inside = .cComment block → Opened block

theorem harmless_nothing (passed : Passed seqNode.cComment) : Harmless .nothing seqNode := ⟨passed, by simp⟩

theorem harmless_comment (passed : Passed seqNode.cComment) (block : List Char) : Harmless (.comment block) seqNode :=
  ⟨passed, by simp⟩

theorem readCComment_harmless (passed : Passed seqNode.cComment)
    (goesOn : beforeCommentEnd line = none → Opened (block ++ line))
    (stops : ∀ front, beforeCommentEnd line = some front → Passed (block ++ front ++ "*/\n".toList)) :
    Harmless (readCComment seqNode block line).1 (readCComment seqNode block line).2 := by
  unfold readCComment
  split
  case h_1 front ends => exact harmless_nothing (passed.append (stops front ends))
  case h_2 unended =>
    refine ⟨passed, fun other same => ?_⟩
    obtain rfl := Inside.cComment.inj same
    exact goesOn unended

theorem readLine_harmless (passed : Passed seqNode.cComment) (whole : line.getLast? = some '\n') :
    Harmless (readLine lineno seqNode line).1 (readLine lineno seqNode line).2.1 := by
  unfold readLine
  split_ifs with blank comment cComment
  · exact harmless_nothing passed
  · exact harmless_comment passed _
  · refine readCComment_harmless passed (fun unended => opened_line cComment unended whole) fun front ends => ?_
    exact passed_line cComment ends
  · split
    · exact harmless_nothing passed_nil
    · exact harmless_nothing passed_nil

theorem readLine_passed (passed : Passed seqNode.cComment) {node : ClassNode}
    (yields : (readLine lineno seqNode line).2.2 = some node) : Passed node.comments.cComment := by
  unfold readLine at yields
  split_ifs at yields
  split at yields
  case h_1 => contradiction
  case h_2 =>
    obtain rfl := Option.some.inj yields
    exact passed

theorem visitLine_harmless (harmless : Harmless inside seqNode) (whole : line.getLast? = some '\n') :
    Harmless (visitLine lineno inside seqNode line).1 (visitLine lineno inside seqNode line).2.1 := by
  cases inside with
  | nothing => exact readLine_harmless harmless.passed whole
  | comment block =>
      unfold visitLine
      split_ifs
      · exact harmless_comment harmless.passed _
      · have passed : Passed (parseComment seqNode block).cComment := harmless.passed
        exact readLine_harmless passed whole
  | cComment block =>
      have opened := harmless.opened block rfl
      exact readCComment_harmless harmless.passed (fun unended => opened.goesOn unended whole) fun front ends =>
        opened.closed ends

theorem visitLine_passed (harmless : Harmless inside seqNode) {node : ClassNode}
    (yields : (visitLine lineno inside seqNode line).2.2 = some node) : Passed node.comments.cComment := by
  cases inside with
  | nothing => exact readLine_passed harmless.passed yields
  | comment block =>
      unfold visitLine at yields
      split_ifs at yields
      have passed : Passed (parseComment seqNode block).cComment := harmless.passed
      exact readLine_passed passed yields
  | cComment block => contradiction

/-- Every line but the last one ends. -/
def Ended : List (List Char) → Prop
  | [] => True
  | line :: rest => (rest = [] ∨ line.getLast? = some '\n') ∧ Ended rest

theorem ended_lines (text : List Char) : Ended (lines text) := by
  induction text with
  | nil => trivial
  | cons c text ih =>
      rw [lines]
      split
      case isTrue newline => exact ⟨.inr (by rw [newline]; rfl), ih⟩
      case isFalse =>
        split
        case h_1 => exact ⟨.inl rfl, trivial⟩
        case h_2 line more split =>
          rw [split] at ih
          refine ⟨ih.1.imp id fun last => ?_, ih.2⟩
          rw [List.getLast?_cons, last]
          rfl

theorem parseFrom_passed (harmless : Harmless inside seqNode) {lines : List (List Char)} (ended : Ended lines)
    {node : ClassNode} (member : node ∈ parseFrom lineno inside seqNode lines) : Passed node.comments.cComment := by
  induction lines generalizing lineno inside seqNode with
  | nil => contradiction
  | cons line rest ih =>
      rcases List.mem_append.mp member with now | later
      · exact visitLine_passed harmless (Option.mem_toList.mp now)
      · rcases ended.1 with rfl | whole
        · contradiction
        · exact ih (visitLine_harmless harmless whole) ended.2 later

theorem registrations_passed (deffile : List Char) : ∀ vars ∈ registrations deffile, Passed vars.comment := by
  have each : ∀ node ∈ parse deffile, ∀ checker profiler, Passed (fill checker profiler node).comment :=
    fun node member _ _ => parseFrom_passed (harmless_nothing passed_nil) (ended_lines deffile) member
  have all : List.Forall₂ (fun _ vars => Passed (TmplVars.comment vars)) (parse deffile) (registrations deffile) :=
    fillAll_forall₂ each checkerDefault profilerDefault
  generalize parse deffile = nodes at all
  generalize registrations deffile = registered at all
  induction all with
  | nil => exact List.forall_mem_nil _
  | cons passed _ ih => exact List.forall_mem_cons.mpr ⟨passed, ih⟩

end Gathering

end Oil.Test.RegClasses

import Oil.Funcs.IniInit.Reference

namespace Oil.Funcs

open Oil.Data

/-- The line buffer between two rounds: the bytes no line of up to 1022 reaches are still NUL. -/
def Ready (buffer : List UInt8) : Prop :=
  buffer.length = maxLineLen + 1 ∧ buffer[1022]? = some 0 ∧ buffer[1023]? = some 0

/-- Lines the buffer holds together with their NUL. -/
def FitLines (start : List UInt8) : Prop := ∀ text ∈ start.splitOn newline, text.length ≤ 1022

instance (start : List UInt8) : Decidable (FitLines start) :=
  inferInstanceAs (Decidable (∀ text ∈ start.splitOn newline, text.length ≤ 1022))

section Buffer

variable {buffer line line' start text rest : List UInt8} {n : Nat}

theorem ready_zeros : Ready (List.replicate (maxLineLen + 1) 0) := by
  refine ⟨List.length_replicate, ?_, ?_⟩ <;> rw [List.getElem?_replicate, if_pos (by decide)]

theorem Ready.keeps (ready : Ready line) (keeps : KeepsNuls line line') : Ready line' :=
  ⟨keeps.1.trans ready.1, keeps.2 _ ready.2.1, keeps.2 _ ready.2.2⟩

theorem Ready.strncpy (ready : Ready buffer) (start : List UInt8) (bound : n ≤ 1022) :
    Ready (strncpy buffer start n) := by
  have front : (start.take n ++ List.replicate (n - start.length) 0).length = n := by
    rw [List.length_append, List.length_take, List.length_replicate]
    omega
  have behind (j : Nat) (from_n : n ≤ j) : (Data.strncpy buffer start n)[j]? = buffer[j]? := by
    rw [Data.strncpy, List.getElem?_append_right (by omega), front, List.getElem?_drop]
    congr 1
    omega
  refine ⟨?_, (behind _ bound).trans ready.2.1, (behind _ (by omega)).trans ready.2.2⟩
  have size := ready.1
  rw [maxLineLen] at size
  rw [Data.strncpy, List.length_append, front, List.length_drop, size, maxLineLen]
  omega

theorem Ready.terminated (ready : Ready line) (bound : n ≤ 1022) :
    n ≤ line.length ∧ 0 ∈ line.drop n := by
  have size := ready.1
  rw [maxLineLen] at size
  refine ⟨by omega, List.mem_of_getElem? (i := 1022 - n) ?_⟩
  rw [List.getElem?_drop, Nat.add_sub_cancel' bound]
  exact ready.2.1

theorem Ready.last (ready : Ready line) : ∃ back, line.drop 1022 = 0 :: back := by
  have size := ready.1
  rw [maxLineLen] at size
  have bound : 1022 < line.length := by omega
  obtain ⟨_, nul⟩ := List.getElem?_eq_some_iff.mp ready.2.1
  exact ⟨_, by rw [List.drop_eq_getElem_cons bound, nul]⟩

theorem strncpy_prefix (line : List UInt8) (text rest : List UInt8) :
    strncpy line (text ++ rest) text.length = strncpy line text text.length := by
  simp [strncpy]

end Buffer

section Rounds

variable {line start text rest : List UInt8} {fuel number : Nat} {sectionName wanted : Option (List UInt8)}

theorem loadLines_last (noNewline : newline ∉ start) :
    loadLines fuel start line sectionName number = loadLast start line sectionName number := by
  cases fuel with
  | zero => rfl
  | succ fuel => simp only [loadLines, unfound_of_not_mem noNewline]

theorem loadLines_line (noNewline : newline ∉ text) (fits : text.length ≤ 1022) :
    loadLines (fuel + 1) (text ++ newline :: rest) line sectionName number =
      match parseLine (strncpy line text text.length) sectionName with
      | .error error => ⟨[], some (number, error)⟩
      | .ok (line, sectionName, calls) =>
          (loadLines fuel rest line sectionName (number + 1)).after calls := by
  have found : (text ++ newline :: rest).findIdx? (· = newline) = some text.length := by
    rw [List.findIdx?_append, unfound_of_not_mem noNewline, Option.none_or, List.findIdx?_cons]
    simp
  have short : ¬ text.length > maxLineLen := by
    rw [maxLineLen]
    omega
  have behind : (text ++ newline :: rest).drop (text.length + 1) = rest := by
    rw [← List.drop_drop, List.drop_left]
    rfl
  have len : text.length % 2 ^ 32 = text.length := Nat.mod_eq_of_lt (by omega)
  cases parsed : parseLine (strncpy line text text.length) sectionName with
  | error error => simp only [loadLines, found, len, if_neg short, strncpy_prefix, parsed]
  | ok round => simp only [loadLines, found, len, if_neg short, strncpy_prefix, behind, parsed]

theorem splitOn_cases (start : List UInt8) :
    (newline ∉ start ∧ start.splitOn newline = [start]) ∨
    ∃ text rest, newline ∉ text ∧ start = text ++ newline :: rest ∧
      start.splitOn newline = text :: rest.splitOn newline := by
  by_cases present : newline ∈ start
  · right
    obtain ⟨parts, first⟩ := split_at_first present
    refine ⟨_, _, first, parts, ?_⟩
    conv_lhs => rw [parts]
    exact List.splitOn_append_cons_self_of_not_mem first _
  · exact .inl ⟨present, List.splitOn_eq_singleton present⟩

theorem stopped_interpretLines {lines : List (List UInt8)} {error : IniError} {stop : Nat}
    (stopped : (interpretLines wanted number lines).stopped = some (stop, error)) : number ≤ stop := by
  induction lines generalizing wanted number with
  | nil => contradiction
  | cons text rest ih =>
      rw [interpretLines] at stopped
      split at stopped
      · simp only [Option.some.injEq, Prod.mk.injEq] at stopped
        exact Nat.le_of_eq stopped.1
      · exact Nat.le_of_succ_le (ih stopped)

theorem stopped_loadLast {error : IniError} {stop : Nat}
    (stopped : (loadLast start line sectionName number).stopped = some (stop, error)) : number ≤ stop := by
  rw [loadLast] at stopped
  split at stopped
  · simp only [Option.some.injEq, Prod.mk.injEq] at stopped
    exact Nat.le_of_eq stopped.1
  · contradiction

theorem stopped_loadLines {error : IniError} {stop : Nat}
    (stopped : (loadLines fuel start line sectionName number).stopped = some (stop, error)) :
    number ≤ stop := by
  induction fuel generalizing start line sectionName number with
  | zero => exact stopped_loadLast stopped
  | succ fuel ih =>
      rw [loadLines] at stopped
      split at stopped
      · exact stopped_loadLast stopped
      · dsimp only at stopped
        split at stopped
        · simp only [Option.some.injEq, Prod.mk.injEq] at stopped
          exact Nat.le_of_eq stopped.1
        · exact Nat.le_of_succ_le (ih stopped)

/-- Runs with at least as many calls on the left, line by line, agree only line by line. -/
theorem after_eq_iff {code reference : Loaded} {calls calls' : List Activation}
    (now : calls'.length ≤ calls.length)
    (later : code.stopped = reference.stopped → reference.calls.length ≤ code.calls.length) :
    code.after calls = reference.after calls' ↔ calls = calls' ∧ code = reference := by
  constructor
  · intro same
    obtain ⟨whole, stopped⟩ := Loaded.mk.inj same
    have total := congrArg List.length whole
    rw [List.length_append, List.length_append] at total
    have rest := later stopped
    obtain ⟨sameCalls, sameRest⟩ := List.append_inj whole (by omega)
    refine ⟨sameCalls, ?_⟩
    cases code
    cases reference
    exact congrArg₂ Loaded.mk sameRest stopped
  · rintro ⟨rfl, rfl⟩
    rfl

theorem unspoiltLines_cons {lines : List (List UInt8)} (more : lines ≠ []) :
    unspoiltLines line sectionName wanted (text :: lines) =
      (unspoilt (cstr line text.length) text sectionName wanted &&
        match parseLine (strncpy line text text.length) sectionName, interpretLine wanted text with
        | .ok (line, sectionName, _), .ok (wanted, _) => unspoiltLines line sectionName wanted lines
        | _, _ => true) := by
  cases lines with
  | nil => exact absurd rfl more
  | cons next lines => rfl

/-- What the loop and the reference interpreter do from some line on: they do the same
exactly if no line is spoilt, and if they stop alike, the loop makes no fewer calls. -/
def Compares (code reference : Loaded) (unspoilt : Prop) : Prop :=
  (code = reference ↔ unspoilt) ∧
    (code.stopped = reference.stopped → reference.calls.length ≤ code.calls.length)

theorem loadLast_compares (nulFree : 0 ∉ start) (short : start.length ≤ 1022) (ready : Ready line) :
    Compares (loadLast start line sectionName number) (interpretLines wanted number [start])
      (unspoiltLines line sectionName wanted [start]) := by
  have holds := holdsAt_strncpy_whole nulFree short ready.last
  have deed := unspoilt_iff [] start sectionName wanted
  have fewer {sectionName' wanted' : Option (List UInt8)} {calls calls' : List Activation}
      (code : interpretLine sectionName start = .ok (sectionName', calls))
      (reference : interpretLine wanted start = .ok (wanted', calls')) : calls'.length ≤ calls.length := by
    rw [← List.append_nil start] at code
    exact calls_length_le code reference
  rw [List.append_nil] at deed
  rw [unspoiltLines, deed, interpretLines, loadLast, show maxLineLen - 1 = 1022 from rfl]
  rcases parseLine_spec sectionName holds with
    ⟨error, parsed, meant⟩ | ⟨line', sectionName', calls, parsed, meant, _⟩
  · rw [parsed, meant]
    cases reference : interpretLine wanted start with
    | error error' => simp [Compares, SameDeed]
    | ok result => simp [Compares, SameDeed, Loaded.after, interpretLines]
  · rw [parsed, meant]
    cases reference : interpretLine wanted start with
    | error error' => simp [Compares, SameDeed]
    | ok result => simpa [Compares, SameDeed, Loaded.after, interpretLines] using fewer meant reference

theorem loadLines_compares (enough : start.length ≤ fuel) (nulFree : 0 ∉ start) (fits : FitLines start)
    (ready : Ready line) :
    Compares (loadLines fuel start line sectionName number)
      (interpretLines wanted number (start.splitOn newline))
      (unspoiltLines line sectionName wanted (start.splitOn newline)) := by
  induction fuel generalizing start line sectionName wanted number with
  | zero =>
      obtain rfl : start = [] := List.eq_nil_of_length_eq_zero (by omega)
      exact loadLast_compares nulFree (Nat.zero_le _) ready
  | succ fuel ih =>
      rcases splitOn_cases start with ⟨noNewline, whole⟩ | ⟨text, rest, noNewline, rfl, lines⟩
      · rw [loadLines_last noNewline, whole]
        exact loadLast_compares nulFree (fits start (by simp [whole])) ready
      · have short : text.length ≤ 1022 := fits text (by simp [lines])
        have textFree : 0 ∉ text := fun member => nulFree (List.mem_append_left _ member)
        have restFree : 0 ∉ rest := fun member => nulFree (List.mem_append_right _ (.tail _ member))
        have restFits : FitLines rest := fun other member => fits other (lines ▸ .tail _ member)
        have restEnough : rest.length ≤ fuel := by
          rw [List.length_append, List.length_cons] at enough
          omega
        obtain ⟨bound, terminated⟩ := ready.terminated short
        have holds := holdsAt_strncpy [] textFree bound terminated
        rw [List.append_nil] at holds
        have deed := unspoilt_iff (cstr line text.length) text sectionName wanted
        rw [lines, unspoiltLines_cons (List.splitOn_ne_nil _ _), Bool.and_eq_true, deed,
          loadLines_line noNewline short, interpretLines]
        rcases parseLine_spec sectionName holds with
          ⟨error, parsed, meant⟩ | ⟨line', sectionName', calls, parsed, meant, keeps⟩
        · rw [parsed, meant]
          cases reference : interpretLine wanted text with
          | error error' => simp [Compares, SameDeed]
          | ok result =>
              have later : (interpretLines result.1 (number + 1) (rest.splitOn newline)).stopped ≠
                  some (number, error) := fun stopped => Nat.not_succ_le_self _ (stopped_interpretLines stopped)
              simp only [Compares, SameDeed, false_and, iff_false, Loaded.after]
              exact ⟨fun same => later (congrArg Loaded.stopped same).symm, fun same => absurd same.symm later⟩
        · rw [parsed, meant]
          cases reference : interpretLine wanted text with
          | error error' =>
              have later : (loadLines fuel rest line' sectionName' (number + 1)).stopped ≠
                  some (number, error') := fun stopped => Nat.not_succ_le_self _ (stopped_loadLines stopped)
              simp only [Compares, SameDeed, false_and, iff_false, Loaded.after]
              exact ⟨fun same => later (congrArg Loaded.stopped same), fun same => absurd same later⟩
          | ok result =>
              obtain ⟨wanted', calls'⟩ := result
              have fewer := calls_length_le meant reference
              have compared : Compares (loadLines fuel rest line' sectionName' (number + 1))
                  (interpretLines wanted' (number + 1) (rest.splitOn newline))
                  (unspoiltLines line' sectionName' wanted' (rest.splitOn newline)) :=
                ih restEnough restFree restFits ((ready.strncpy text short).keeps keeps)
              obtain ⟨same, later⟩ := compared
              dsimp only [SameDeed]
              refine ⟨(after_eq_iff fewer later).trans (and_congr_right fun _ => same), fun stopped => ?_⟩
              have rest := later stopped
              simp only [Loaded.after, List.length_append]
              omega

end Rounds

/-- For a text whose lines fit the buffer, `oil_load_ini` does what the reference
interpreter does exactly if no line is spoilt by what is left in the buffer behind it. -/
theorem oil_load_ini_iff_unspoilt (text : List UInt8) (nulFree : 0 ∉ text) (fits : FitLines text) :
    oilLoadIni (some text) = interpretIni text ↔
      unspoiltLines (List.replicate (maxLineLen + 1) 0) none none (text.splitOn newline) = true :=
  (loadLines_compares (Nat.le_refl _) nulFree fits ready_zeros).1

def bytesOf (text : List Char) : List UInt8 := text.map Char.toUInt8

/-- A short value after a long one ends in what the long one left in the buffer. -/
theorem oil_load_ini_spoils :
    ¬ ∀ text, 0 ∉ text → FitLines text → oilLoadIni (some text) = interpretIni text := by
  intro always
  have spoilt := always (bytesOf ['a', '=', 'b', 'b', 'b', '\n', 'c', '=', 'd', '\n'])
    (by decide) (by decide)
  revert spoilt
  decide +kernel

theorem oil_load_ini_iff_unspoilt_longer :
    oilLoadIni (some (bytesOf ['a', '=', 'b', '\n', 'c', '=', 'd', 'd'])) =
      interpretIni (bytesOf ['a', '=', 'b', '\n', 'c', '=', 'd', 'd']) :=
  (oil_load_ini_iff_unspoilt _ (by decide) (by decide)).mpr
    (by decide +kernel)

end Oil.Funcs

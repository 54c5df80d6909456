import Oil.Funcs.IniInit.Activate
import Oil.Funcs.IniInit.LoadIni

namespace Oil.Funcs

open Oil.Data Oil.Core

/-! # What `oil_load_ini` does and prints -/

/-- What the loop of `oil_load_ini` does besides reading: it complains about a line that the buffer
does not hold, and calls `do_activate_impl`. -/
inductive Deed where
  | overflows
  | activates (call : Activation)

def lastDeeds (start line : List UInt8) (sectionName : Option (List UInt8)) : List Deed :=
  match parseLine (strncpy line start (maxLineLen - 1)) sectionName with
  | .error _ => []
  | .ok (_, _, calls) => calls.map .activates

/-- The loop of `oil_load_ini`, as in `loadLines`. -/
def loadDeeds : (fuel : Nat) → (start line : List UInt8) → Option (List UInt8) → List Deed
  | 0, start, line, sectionName => lastDeeds start line sectionName
  | fuel + 1, start, line, sectionName =>
      match start.findIdx? (· = newline) with
      | none => lastDeeds start line sectionName
      | some stop =>
          let len := stop % 2 ^ 32
          let told := if len > maxLineLen then [Deed.overflows] else []
          let len := if len > maxLineLen then maxLineLen else len
          match parseLine (strncpy line start len) sectionName with
          | .error _ => told
          | .ok (line, sectionName, calls) =>
              told ++ calls.map .activates ++ loadDeeds fuel (start.drop (stop + 1)) line sectionName

def iniDeeds (iniString : Option (List UInt8)) : List Deed :=
  match iniString with
  | none => []
  | some iniString => loadDeeds iniString.length iniString (List.replicate (maxLineLen + 1) 0) none

section Effects

variable {F D : Type} (descriptions : List (List UInt8)) (cpuFlags : Nat)

def perform (reg : Registry F D) (deed : Deed) : Option (Registry F D × List Complaint) :=
  match deed with
  | .overflows => some (reg, [.overflow])
  | .activates call => doActivateImpl descriptions cpuFlags reg call

/-- `oil_load_ini`, with all that it prints; no result where it aborts. -/
def oilLoadIniText (reg : Registry F D) (iniString : Option (List UInt8)) :
    Option (Registry F D × List Complaint) := do
  let done ← (iniDeeds iniString).foldlM (fun state deed =>
    (perform descriptions cpuFlags state.1 deed).map fun done => (done.1, state.2 ++ done.2)) (reg, [])
  if (oilLoadIni iniString).stopped = none then some done else none

end Effects

section Fits

variable {start line text : List UInt8} {sectionName : Option (List UInt8)} {fuel number : Nat}

theorem lastDeeds_eq :
    lastDeeds start line sectionName = (loadLast start line sectionName number).calls.map .activates := by
  rw [lastDeeds, loadLast]
  cases parseLine (strncpy line start (maxLineLen - 1)) sectionName <;> rfl

theorem loadDeeds_line {rest : List UInt8} (noNewline : newline ∉ text) (fits : text.length ≤ 1022) :
    loadDeeds (fuel + 1) (text ++ newline :: rest) line sectionName =
      match parseLine (strncpy line text text.length) sectionName with
      | .error _ => []
      | .ok (line, sectionName, calls) => calls.map .activates ++ loadDeeds fuel rest line sectionName := by
  have found : (text ++ newline :: rest).findIdx? (· = newline) = some text.length := by
    rw [List.findIdx?_append, unfound_of_not_mem noNewline, Option.none_or, List.findIdx?_cons]
    simp
  have short : ¬ text.length > maxLineLen := by
    rw [maxLineLen]
    omega
  have behind : (text ++ newline :: rest).drop (text.length + 1) = rest := by
    rw [← List.drop_drop, List.drop_left]
    rfl
  have len : text.length % 2 ^ 32 = text.length := Nat.mod_eq_of_lt (by omega)
  simp only [loadDeeds, found, len, if_neg short, strncpy_prefix, behind, List.nil_append]

/-- Where the lines fit the buffer, nothing is said about it. -/
theorem loadDeeds_of_fits (fits : FitLines start) :
    loadDeeds fuel start line sectionName = (loadLines fuel start line sectionName number).calls.map .activates := by
  induction fuel generalizing start line sectionName number with
  | zero => exact lastDeeds_eq
  | succ fuel ih =>
      rcases splitOn_cases start with ⟨noNewline, _⟩ | ⟨text, rest, noNewline, rfl, lines⟩
      · simp only [loadDeeds, unfound_of_not_mem noNewline, loadLines_last noNewline]
        exact lastDeeds_eq
      · have short : text.length ≤ 1022 := fits text (by simp [lines])
        have restFits : FitLines rest := fun other member => fits other (lines ▸ .tail _ member)
        rw [loadDeeds_line noNewline short, loadLines_line noNewline short]
        cases parseLine (strncpy line text text.length) sectionName with
        | error error => rfl
        | ok round =>
            dsimp only [Loaded.after]
            rw [List.map_append, ← ih restFits]

/-- A text that `oil_load_ini` reads line by line: no NUL ends it, the buffer holds its lines, and
none is spoilt by what an earlier one has left there. -/
structure CleanText (text : List UInt8) : Prop where
  nulFree : 0 ∉ text
  fits : FitLines text
  unspoilt : unspoiltLines (List.replicate (maxLineLen + 1) 0) none none (text.splitOn newline) = true

instance (text : List UInt8) : Decidable (CleanText text) :=
  decidable_of_iff (0 ∉ text ∧ FitLines text ∧
      unspoiltLines (List.replicate (maxLineLen + 1) 0) none none (text.splitOn newline) = true)
    ⟨fun ⟨nulFree, fits, unspoilt⟩ => ⟨nulFree, fits, unspoilt⟩, fun clean => ⟨clean.nulFree, clean.fits, clean.unspoilt⟩⟩

theorem CleanText.means (clean : CleanText text) : oilLoadIni (some text) = interpretIni text :=
  (loadLines_compares (Nat.le_refl _) clean.nulFree clean.fits ready_zeros).1.mpr clean.unspoilt

theorem CleanText.deeds (clean : CleanText text) :
    iniDeeds (some text) = (interpretIni text).calls.map .activates := by
  rw [← clean.means]
  exact loadDeeds_of_fits clean.fits

end Fits

end Oil.Funcs

import Oil.Data.Regex
import Oil.Test.Generators.RegClasses

namespace Oil.Test

open Oil.Data Python RegClasses

/-! # Canonical names

`oil-regclasses` and `oil-regimpls` name the functions that they generate after a file.  Each
has its own copy of `gen_canonical_id`, and evaluates it with the names it has imported. -/

/-- `[\w\-\. \t]` -/
def isNameChar (c : Char) : Bool := isWordLetter c || c = '-' || c = '.' || c = ' ' || c = '\t'

/-- The pattern of the names that need no encoding, matched from the start of the subject. -/
def namePattern : Regex := .seq (.plus isNameChar) .dollar

/-- What the evaluation of a name that is not in scope raises. -/
structure NameError where
  name : String
deriving DecidableEq

/-- The characters of a byte string. -/
def byteText (raw : List UInt8) : List Char := raw.map fun byte => Char.ofNat byte.toNat

/-- `gen_canonical_id`, in a script with these names in scope. -/
def genCanonicalId (names : List String) (raw : List UInt8) : Except NameError (List Char) := do
  let ret ←
    if namePattern.firstMatch (byteText raw) = none then
      if "b64encode" ∈ names then
        pure ((b64encode ('_', '_') raw).map fun c => if c = '=' then '_' else c)
      else throw ⟨"b64encode"⟩
    else pure (subnRuns (fun c => !isWordLetter c) '_' false (byteText raw))
  pure (if ret.head?.any isLetter then ret else 'o' :: ret)

/-- What `oil-regclasses` imports. -/
def RegClasses.importedNames : List String := ["sys", "re", "os", "b64encode", "gnu_getopt", "GetoptError"]

def RegClasses.genCanonicalId : List UInt8 → Except NameError (List Char) := Test.genCanonicalId importedNames

/-- What `oil-regimpls` imports. -/
def RegImpls.importedNames : List String := ["sys", "re", "os", "gnu_getopt", "GetoptError"]

def RegImpls.genCanonicalId : List UInt8 → Except NameError (List Char) := Test.genCanonicalId importedNames

/-- An identifier of C. -/
def IsIdentifier (text : List Char) : Prop :=
  text.head?.any isLetter = true ∧ ∀ c ∈ text, isWordLetter c = true

theorem nonempty_of_identifier {name : List Char} (identifier : IsIdentifier name) : name ≠ [] := by
  rintro rfl
  exact absurd identifier.1 (by simp)

/-- A name that needs no encoding: such characters only, and maybe a newline that ends it. -/
def PlainName (raw : List UInt8) : Prop :=
  ∃ word, word ≠ [] ∧ (∀ c ∈ word, isNameChar c = true) ∧ (byteText raw = word ∨ byteText raw = word ++ ['\n'])

theorem firstMatch_namePattern (raw : List UInt8) :
    namePattern.firstMatch (byteText raw) ≠ none ↔ PlainName raw := by
  constructor
  · intro matched
    obtain ⟨captures, matched⟩ := Option.ne_none_iff_exists'.mp matched
    obtain ⟨_, rest, split, takes⟩ := Regex.firstMatch_takes matched
    obtain ⟨word, _, _, _, rfl, _, name, ends⟩ := Regex.takes_seq.mp takes
    obtain ⟨nonempty, all, _⟩ := Regex.takes_plus.mp name
    obtain ⟨rfl, _, last⟩ := Regex.takes_dollar.mp ends
    refine ⟨word, nonempty, all, ?_⟩
    rw [split, List.append_nil]
    rcases last with rfl | rfl
    · exact .inl (List.append_nil word)
    · exact .inr rfl
  · intro ⟨word, nonempty, all, ends⟩
    have takes (rest : List Char) (last : rest = [] ∨ rest = ['\n']) : namePattern.Takes word [] rest :=
      Regex.takes_seq.mpr ⟨word, [], [], [], (List.append_nil word).symm, rfl,
        Regex.takes_plus.mpr ⟨nonempty, all, rfl⟩, Regex.takes_dollar.mpr ⟨rfl, rfl, last⟩⟩
    rcases ends with whole | newline
    · obtain ⟨captures, matched⟩ := (takes [] (.inl rfl)).exists_firstMatch
      rw [List.append_nil, ← whole] at matched
      simp [matched]
    · obtain ⟨captures, matched⟩ := (takes ['\n'] (.inr rfl)).exists_firstMatch
      rw [← newline] at matched
      simp [matched]

theorem firstMatch_eq_none {raw : List UInt8} (notPlain : ¬ PlainName raw) :
    namePattern.firstMatch (byteText raw) = none :=
  not_not.mp fun matched => notPlain ((firstMatch_namePattern raw).mp matched)

theorem subnRuns_word (inRun : Bool) (text : List Char) :
    ∀ c ∈ subnRuns (fun c => !isWordLetter c) '_' inRun text, isWordLetter c = true := by
  induction text generalizing inRun with
  | nil => exact List.forall_mem_nil _
  | cons first rest ih =>
      rw [subnRuns]
      cases word : isWordLetter first with
      | true => exact List.forall_mem_cons.mpr ⟨word, ih false⟩
      | false =>
          cases inRun with
          | true => exact ih true
          | false => exact List.forall_mem_cons.mpr ⟨by decide, ih true⟩

theorem b64Digit_word {n : Nat} (small : n < 64) : isWordLetter (b64Digit ('_', '_') n) = true := by
  have table : ∀ n : Fin 64, isWordLetter (b64Digit ('_', '_') n) = true := by decide +kernel
  exact table ⟨n, small⟩

theorem b64encode_word (raw : List UInt8) :
    ∀ c ∈ b64encode ('_', '_') raw, isWordLetter c = true ∨ c = '=' := by
  have digit {n : Nat} (small : n < 64) :
      isWordLetter (b64Digit ('_', '_') n) = true ∨ b64Digit ('_', '_') n = '=' := .inl (b64Digit_word small)
  have byte (b : UInt8) : b.toNat < 256 := b.toNat_lt
  induction raw using b64encode.induct with
  | case1 => exact List.forall_mem_nil _
  | case2 a =>
      have := byte a
      simp only [b64encode, List.forall_mem_cons]
      exact ⟨digit (by omega), digit (by omega), .inr trivial, .inr trivial, List.forall_mem_nil _⟩
  | case3 a b =>
      have := byte a
      have := byte b
      simp only [b64encode, List.forall_mem_cons]
      exact ⟨digit (by omega), digit (by omega), digit (by omega), .inr trivial, List.forall_mem_nil _⟩
  | case4 a b c rest ih =>
      have := byte a
      have := byte b
      have := byte c
      simp only [b64encode, List.forall_mem_cons]
      exact ⟨digit (by omega), digit (by omega), digit (by omega), digit (by omega), ih⟩

theorem padded_word (raw : List UInt8) :
    ∀ c ∈ (b64encode ('_', '_') raw).map (fun c => if c = '=' then '_' else c), isWordLetter c = true := by
  intro c member
  obtain ⟨digit, inside, rfl⟩ := List.mem_map.mp member
  split
  case isTrue => decide
  case isFalse notPadding => exact (b64encode_word raw digit inside).resolve_right notPadding

theorem isIdentifier_repair {ret : List Char} (word : ∀ c ∈ ret, isWordLetter c = true) :
    IsIdentifier (if ret.head?.any isLetter then ret else 'o' :: ret) := by
  split
  case isTrue starts => exact ⟨starts, word⟩
  case isFalse => exact ⟨rfl, List.forall_mem_cons.mpr ⟨rfl, word⟩⟩

/-- What a plain name becomes does not depend on the names in scope. -/
theorem genCanonicalId_plain {raw : List UInt8} (plain : PlainName raw) :
    ∃ id, IsIdentifier id ∧ ∀ names, genCanonicalId names raw = .ok id := by
  refine ⟨_, isIdentifier_repair (subnRuns_word false (byteText raw)), ?_⟩
  intro names
  rw [genCanonicalId, if_neg ((firstMatch_namePattern raw).mpr plain)]
  rfl

theorem genCanonicalId_encoded {raw : List UInt8} (notPlain : ¬ PlainName raw) {names : List String}
    (imported : "b64encode" ∈ names) : ∃ id, genCanonicalId names raw = .ok id ∧ IsIdentifier id := by
  refine ⟨_, ?_, isIdentifier_repair (padded_word raw)⟩
  rw [genCanonicalId, if_pos (firstMatch_eq_none notPlain), if_pos imported]
  rfl

theorem genCanonicalId_nameError {raw : List UInt8} (notPlain : ¬ PlainName raw) {names : List String}
    (missing : "b64encode" ∉ names) : genCanonicalId names raw = .error ⟨"b64encode"⟩ := by
  rw [genCanonicalId, if_pos (firstMatch_eq_none notPlain), if_neg missing]
  rfl

/-- With its imports, `oil-regclasses` names every file. -/
theorem RegClasses.genCanonicalId_total (raw : List UInt8) :
    ∃ id, RegClasses.genCanonicalId raw = .ok id ∧ IsIdentifier id := by
  by_cases plain : PlainName raw
  · obtain ⟨id, valid, named⟩ := genCanonicalId_plain plain
    exact ⟨id, named _, valid⟩
  · exact genCanonicalId_encoded plain (by decide)

/-- The two scripts agree on a name exactly where it needs no encoding, for which `oil-regimpls`
lacks the function. -/
theorem genCanonicalId_agree_iff (raw : List UInt8) :
    (∃ id, RegImpls.genCanonicalId raw = .ok id ∧ RegClasses.genCanonicalId raw = .ok id ∧ IsIdentifier id) ↔
      PlainName raw := by
  constructor
  · intro ⟨id, named, _⟩
    refine Classical.byContradiction fun notPlain => ?_
    have raised : RegImpls.genCanonicalId raw = .error ⟨"b64encode"⟩ :=
      genCanonicalId_nameError notPlain (by decide)
    rw [raised] at named
    contradiction
  · intro plain
    obtain ⟨id, valid, named⟩ := genCanonicalId_plain plain
    exact ⟨id, named _, named _, valid⟩

/-- For a file below another directory `oil-regimpls` stops, where `oil-regclasses` encodes. -/
theorem genCanonicalId_path :
    RegImpls.genCanonicalId "i386/mmx".toUTF8.toList = .error ⟨"b64encode"⟩ ∧
      RegClasses.genCanonicalId "i386/mmx".toUTF8.toList = .ok "aTM4Ni9tbXg_".toList := by
  decide +kernel

end Oil.Test

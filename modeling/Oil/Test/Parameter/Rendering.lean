import Oil.Test.Numerals
import Oil.Test.Parameter.Language

namespace Oil.Test

open Oil.Data

/-! # Rendering parameters

A parameter by what it means, the ways to write it down, and the record that the
documentation assigns to it. -/

/-- The types of fixed width and the floating types. -/
inductive SizedType where
  | int8 | uint8 | int16 | uint16 | int32 | uint32 | int64 | uint64 | float | double
deriving DecidableEq

inductive TypeDescription where
  | int
  | sized (type : SizedType) (starred : Bool)

inductive ConstPlace where
  | absent | before | after

structure Number where
  value : Nat
  small : value < 2 ^ 63

inductive LengthDescription where
  | fixed (number : Number)
  | var (v : ScaleVar)
  | varPlus (v : ScaleVar) (number : Number)

inductive ArgDescription where
  | stride
  | array
  | array1 (len1 : LengthDescription)
  | array2 (len1 len2 : LengthDescription)

/-- An array or stride parameter; its index is one that there is an argument type for. -/
structure Description where
  type : TypeDescription
  const : ConstPlace
  dir : Direction
  index : Nat
  valid : 1 ≤ index ∧ index ≤ dir.most
  arg : ArgDescription

/-- What a rendering is free to choose: the blanks, and whether an index of 1 is written. -/
structure Spacing where
  before : Blanks
  constGap : Gap
  starLeft : Blanks
  starRight : Blanks
  gap : Gap
  indexShown : Bool
  after : Blanks

/-! ## The documented table -/

def SizedType.name : SizedType → String
  | int8 => "int8_t"
  | uint8 => "uint8_t"
  | int16 => "int16_t"
  | uint16 => "uint16_t"
  | int32 => "int32_t"
  | uint32 => "uint32_t"
  | int64 => "int64_t"
  | uint64 => "uint64_t"
  | float => "float"
  | double => "double"

def SizedType.plain : SizedType → OilType
  | int8 => .s8
  | uint8 => .u8
  | int16 => .s16
  | uint16 => .u16
  | int32 => .s32
  | uint32 => .u32
  | int64 => .s64
  | uint64 => .u64
  | float => .f32
  | double => .f64

def SizedType.pointer : SizedType → OilType
  | int8 => .s8p
  | uint8 => .u8p
  | int16 => .s16p
  | uint16 => .u16p
  | int32 => .s32p
  | uint32 => .u32p
  | int64 => .s64p
  | uint64 => .u64p
  | float => .f32p
  | double => .f64p

def TypeDescription.name : TypeDescription → String
  | int => "int"
  | sized type _ => type.name

def TypeDescription.starred : TypeDescription → Bool
  | int => false
  | sized _ starred => starred

def TypeDescription.cType : TypeDescription → OilType
  | int => .int
  | sized type false => type.plain
  | sized type true => type.pointer

/-- The argument type of a direction and an index: that of an array and that of a stride. -/
def argTypes : Direction → Nat → ArgType × ArgType
  | .d, 1 => (.dest1, .dstr1)
  | .d, 2 => (.dest2, .dstr2)
  | .d, 3 => (.dest3, .dstr3)
  | .s, 1 => (.src1, .sstr1)
  | .s, 2 => (.src2, .sstr2)
  | .s, 3 => (.src3, .sstr3)
  | .s, 4 => (.src4, .sstr4)
  | .s, 5 => (.src5, .sstr5)
  | .i, 1 => (.inplace1, .istr1)
  | .i, 2 => (.inplace2, .istr2)
  | _, _ => (.unknown, .unknown)

/-- 1 stands for `n` and 2 for `m`. -/
def ScaleVar.code : ScaleVar → Int
  | n => 1
  | m => 2

/-- The variable and the length of a length specification. -/
def LengthDescription.value : LengthDescription → Int × Int
  | fixed number => (0, number.value)
  | var v => (v.code, 0)
  | varPlus v number => (v.code, number.value)

/-- The record for a parameter; the fields it does not name are zero. -/
def Description.parameter (d : Description) (text : List Char) : OilParameter :=
  let common : OilParameter :=
    { parameter := text, cType := d.type.cType, argClass := d.dir.argClass, index := d.index }
  let array (pre post : Int × Int) : OilParameter :=
    { common with
      argType := (argTypes d.dir d.index).1, isPointer := true
      prestrideVar := pre.1, prestrideLength := pre.2, poststrideVar := post.1, poststrideLength := post.2 }
  match d.arg with
  | .stride => { common with argType := (argTypes d.dir d.index).2, isStride := true }
  | .array => array (0, 1) (1, 0)
  | .array1 len1 => array (0, 1) len1.value
  | .array2 len1 len2 => array len1.value len2.value

/-- The record for the parameter `int n`. -/
def scaleParameter (text : List Char) : OilParameter := { parameter := text, cType := .int, argType := .n }

/-! ## Writing parameters down -/

/-- A number in decimal, without leading zeros. -/
def Number.digits (number : Number) : Digits :=
  ⟨Nat.toDigits 10 number.value, Nat.toDigits_ne_nil, fun _ member => isDigit_of_mem_toDigits member⟩

def LengthDescription.spelling : LengthDescription → LengthSpec
  | fixed number => .fixed number.digits
  | var v => .var v
  | varPlus v number => .varPlus v number.digits

def TypeDescription.identifier : TypeDescription → Identifier
  | int => intWord
  | sized type _ => ⟨type.name.toList, by
      cases type <;> exact ⟨_, _, rfl, by decide, List.all_eq_true.mp (by decide)⟩⟩

namespace Description

variable (d : Description) (spacing : Spacing)

theorem index_lt : d.index < 10 := by
  have most := d.valid.2
  cases dir : d.dir <;> simp only [dir, Direction.most] at most <;> omega

def indexDigit : Digit :=
  ⟨d.index.digitChar, by
    have table : ∀ digit : Fin 10, isDigit (digit : Nat).digitChar = true := by decide
    exact table ⟨d.index, d.index_lt⟩⟩

def typeSpelling : TypeSpelling :=
  match d.const with
  | .absent => .plain d.type.identifier
  | .before => .constBefore spacing.constGap d.type.identifier
  | .after => .constAfter d.type.identifier spacing.constGap

def separator : Separator :=
  if d.type.starred then .star spacing.starLeft spacing.starRight else .gap spacing.gap

def indexSpelling : Option Digit :=
  if d.index = 1 ∧ spacing.indexShown = false then none else some d.indexDigit

def nameSpelling : NameSpelling :=
  match d.arg with
  | .stride => .stride d.dir (d.indexSpelling spacing)
  | .array => .array d.dir (d.indexSpelling spacing) .none
  | .array1 len1 => .array d.dir (d.indexSpelling spacing) (.one len1.spelling)
  | .array2 len1 len2 => .array d.dir (d.indexSpelling spacing) (.two len1.spelling len2.spelling)

def spelling : Spelling := ⟨d.typeSpelling spacing, d.separator spacing, d.nameSpelling spacing⟩

end Description

/-- A parameter with blanks around it. -/
def Spacing.surround (spacing : Spacing) (s : Spelling) : List Char :=
  spacing.before.1 ++ (s.text ++ spacing.after.1)

def Description.render (d : Description) (spacing : Spacing) : List Char := spacing.surround (d.spelling spacing)

/-- `int n`. -/
def renderScale (spacing : Spacing) : List Char := spacing.surround (.intScale spacing.gap .n)

/-- A prototype: the parameters given, then the scale parameter `int n`. -/
def renderPrototype (parts : List (Description × Spacing)) (last : Spacing) : List Char :=
  [','].intercalate (parts.map (fun part => part.1.render part.2) ++ [renderScale last])

/-! ## Parsing what was rendered -/

theorem oilTypeParse_description (type : TypeDescription) :
    oilTypeParse type.identifier.1 type.starred = type.cType ∧ type.cType ≠ .unknown := by
  cases type with
  | int => decide
  | sized type starred => cases type <;> cases starred <;> decide

theorem lenspecParse_description (len : LengthDescription) : lenspecParse len.spelling.text = len.value := by
  cases len with
  | fixed number =>
      obtain ⟨c, rest, split, digit⟩ := number.digits.exists_cons
      have value := asciiStrtoll_toDigits number.small
      have text : Nat.toDigits 10 number.value = c :: rest := split
      rw [LengthDescription.spelling, LengthSpec.text, split, LengthDescription.value, ← value, text]
      unfold lenspecParse
      split
      case h_1 same => exact absurd (List.cons.inj same).1 (ne_of_isDigit digit (by decide))
      case h_2 same => exact absurd (List.cons.inj same).1 (ne_of_isDigit digit (by decide))
      case h_3 => rfl
  | var v => cases v <;> rfl
  | varPlus v number =>
      have value := asciiStrtoll_toDigits number.small
      rw [LengthDescription.value, ← value]
      cases v <;> rfl

theorem indexNumber_description (d : Description) (spacing : Spacing) :
    indexNumber (d.indexSpelling spacing) = d.index := by
  rw [Description.indexSpelling]
  split
  case isTrue implicit => exact implicit.1.symm
  case isFalse => exact Nat.toNat_digitChar_sub_48_of_lt_ten d.index_lt

theorem argTypeParse_description (d : Description) :
    argTypeParse d.dir.argClass false d.index = (argTypes d.dir d.index).1 ∧
      argTypeParse d.dir.argClass true d.index = (argTypes d.dir d.index).2 ∧
      (argTypes d.dir d.index).1 ≠ .unknown ∧ (argTypes d.dir d.index).2 ≠ .unknown := by
  obtain ⟨_, _, dir, index, ⟨least, most⟩, _⟩ := d
  dsimp only
  cases dir with
  | i =>
      have : index = 1 ∨ index = 2 := by simp only [Direction.most] at most; omega
      rcases this with rfl | rfl <;> decide
  | s =>
      have : index = 1 ∨ index = 2 ∨ index = 3 ∨ index = 4 ∨ index = 5 := by
        simp only [Direction.most] at most
        omega
      rcases this with rfl | rfl | rfl | rfl | rfl <;> decide
  | d =>
      have : index = 1 ∨ index = 2 ∨ index = 3 := by simp only [Direction.most] at most; omega
      rcases this with rfl | rfl | rfl <;> decide

theorem reading_description (d : Description) (spacing : Spacing) :
    (d.spelling spacing).reading = ⟨d.type.identifier.1, d.type.starred, d.nameSpelling spacing⟩ := by
  have word : (d.typeSpelling spacing).word = d.type.identifier := by
    rw [Description.typeSpelling]
    cases d.const <;> rfl
  have starred : (d.separator spacing).starred = d.type.starred := by
    rw [Description.separator]
    cases d.type.starred <;> rfl
  simp only [Spelling.reading, Description.spelling, word, starred]

theorem oilParamParse_description (d : Description) (spacing : Spacing) :
    oilParamParse (d.spelling spacing).text = some (d.parameter (d.spelling spacing).text) := by
  obtain ⟨typed, knownType⟩ := oilTypeParse_description d.type
  obtain ⟨arrays, strides, knownArray, knownStride⟩ := argTypeParse_description d
  have index : indexValue (indexText (d.indexSpelling spacing)) = d.index := by
    rw [indexValue_indexText, indexNumber_description]
  rw [oilParamParse_text, reading_description, Reading.parameter, Description.parameter, Description.nameSpelling]
  dsimp only
  rw [typed]
  cases d.arg with
  | stride =>
      simp only [NameSpelling.parameter, index, strides, knownType, knownStride, or_self, ↓reduceIte]
  | array =>
      simp only [NameSpelling.parameter, index, arrays, knownType, knownArray, or_self, ↓reduceIte,
        Lengths.values]
  | array1 len1 =>
      simp only [NameSpelling.parameter, index, arrays, knownType, knownArray, or_self, ↓reduceIte,
        Lengths.values, lenspecParse_description]
  | array2 len1 len2 =>
      simp only [NameSpelling.parameter, index, arrays, knownType, knownArray, or_self, ↓reduceIte,
        Lengths.values, lenspecParse_description]

theorem Spacing.no_comma (spacing : Spacing) (s : Spelling) : ',' ∉ spacing.surround s := by
  have blanks (b : Blanks) : ',' ∉ b.1 := fun member => absurd (b.2 ',' member) (by decide)
  simp only [surround, List.mem_append, not_or]
  exact ⟨blanks _, s.no_comma, blanks _⟩

theorem Spacing.strstrip_surround (spacing : Spacing) (s : Spelling) : strstrip (spacing.surround s) = s.text :=
  strstrip_text spacing.before spacing.after s

/-- A rendered prototype is parsed into one record for each parameter, in order: the one the
documented table assigns to it. -/
theorem oilPrototypeParse_render (parts : List (Description × Spacing)) (few : parts.length ≤ 21)
    (last : Spacing) :
    oilPrototypeParse (renderPrototype parts last) =
      some (parts.map (fun part => part.1.parameter (strstrip (part.1.render part.2))) ++
        [scaleParameter (strstrip (renderScale last))]) := by
  have noComma : ∀ part ∈ parts.map (fun part => part.1.render part.2) ++ [renderScale last], ',' ∉ part := by
    rw [List.forall_mem_append, List.forall_mem_map, List.forall_mem_singleton]
    exact ⟨fun part _ => part.2.no_comma _, last.no_comma _⟩
  have split : (renderPrototype parts last).splitOn ',' =
      parts.map (fun part => part.1.render part.2) ++ [renderScale last] :=
    List.splitOn_intercalate ',' noComma (by simp)
  have each (part : Description × Spacing) : oilParamParse (strstrip (part.1.render part.2)) =
      some (part.1.parameter (strstrip (part.1.render part.2))) := by
    rw [Description.render, Spacing.strstrip_surround]
    exact oilParamParse_description part.1 part.2
  have scale : oilParamParse (strstrip (renderScale last)) = some (scaleParameter (strstrip (renderScale last))) := by
    rw [renderScale, Spacing.strstrip_surround, oilParamParse_text]
    rfl
  have mapped : ((renderPrototype parts last).splitOn ',').mapM (fun part => oilParamParse (strstrip part)) =
      some (parts.map (fun part => part.1.parameter (strstrip (part.1.render part.2))) ++
        [scaleParameter (strstrip (renderScale last))]) := by
    have first : (parts.map fun part => part.1.render part.2).mapM (fun part => oilParamParse (strstrip part)) =
        some (parts.map fun part => part.1.parameter (strstrip (part.1.render part.2))) := by
      rw [List.mapM_map]
      exact mapM_of_forall fun part _ => each part
    rw [split, List.mapM_append, first, List.mapM_cons, scale]
    rfl
  have count : ((renderPrototype parts last).splitOn ',').length ≤ maxParams := by
    rw [split, List.length_append, List.length_map]
    exact Nat.succ_le_succ few
  obtain ⟨params, parsed, accepted⟩ := oilPrototypeParse_of_wellFormed count
    (fun part member => (oilParamParse_isSome_iff part).mp
      (mapM_isSome_iff.mp (Option.isSome_of_eq_some mapped) part member))
    fun params same => by
      obtain rfl := Option.some.inj (mapped.symm.trans same)
      rw [prototypeCheckSanity, List.any_append]
      simp [scaleParameter]
  rw [accepted, ← parsed, mapped]

/-- One blank where one is needed, and none elsewhere but before a star. -/
def Spacing.usual : Spacing where
  before := ⟨[], List.all_eq_true.mp rfl⟩
  constGap := oneSpace
  starLeft := ⟨[' '], List.all_eq_true.mp rfl⟩
  starRight := ⟨[], List.all_eq_true.mp rfl⟩
  gap := oneSpace
  indexShown := true
  after := ⟨[], List.all_eq_true.mp rfl⟩

theorem oilPrototypeParse_render_src2 :
    oilPrototypeParse (renderPrototype
        [(⟨.sized .uint8 true, .absent, .s, 2, by decide,
            .array2 (.fixed ⟨12, by decide⟩) (.varPlus .n ⟨11, by decide⟩)⟩, .usual)] .usual) =
      some [{ parameter := "uint8_t *s2_12xnp11".toList, cType := .u8p, argClass := .src, argType := .src2,
              isPointer := true, index := 2, prestrideVar := 0, prestrideLength := 12, poststrideVar := 1,
              poststrideLength := 11 },
            { parameter := "int n".toList, cType := .int, argType := .n }] :=
  (oilPrototypeParse_render _ (by decide) _).trans (by decide +kernel)

end Oil.Test

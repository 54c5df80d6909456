import Oil.Data.Regex

namespace Oil.Data

/-! # Matchers with repetition

A matcher lists the ways to match a prefix of its input, in the order of a backtracking
search, as `Regex.run` does for a pattern.  Matchers are put together like patterns, and a
whole matcher can be repeated. -/

abbrev Matcher : Type := List Char → List (Captures × List Char)

namespace Matcher

def char (class_ : Char → Bool) : Matcher := (Regex.char class_).run

/-- greedy `*` of a class of characters -/
def many (class_ : Char → Bool) : Matcher := (Regex.opt (.plus class_)).run

/-- greedy `+` of a class of characters -/
def plus (class_ : Char → Bool) : Matcher := (Regex.plus class_).run

def dollar : Matcher := Regex.dollar.run

def seq (first second : Matcher) : Matcher := fun input =>
  (first input).flatMap fun (captures, rest) =>
    (second rest).map fun (captures', rest) => (captures ++ captures', rest)

def alt (first second : Matcher) : Matcher := fun input => first input ++ second input

/-- greedy `?` -/
def opt (item : Matcher) : Matcher := fun input => item input ++ [([], input)]

/-- `(?P<name>...)` -/
def group (name : String) (item : Matcher) : Matcher := fun input =>
  (item input).map fun (captures, rest) =>
    ((name, input.take (input.length - rest.length)) :: captures, rest)

/-- greedy repetition, of up to so many rounds -/
def starUpTo (item : Matcher) : (rounds : Nat) → Matcher
  | 0, input => [([], input)]
  | rounds + 1, input =>
      ((item input).flatMap fun (captures, rest) =>
        (starUpTo item rounds rest).map fun (captures', rest) => (captures ++ captures', rest)) ++ [([], input)]

/-- greedy `*`, of an item that takes at least one character in each round -/
def star (item : Matcher) : Matcher := fun input => starUpTo item input.length input

def firstMatch (matcher : Matcher) (subject : List Char) : Option Captures :=
  (matcher subject).head?.map Prod.fst

/-! ## What a group captures -/

/-- What the matcher takes off its input is always like this. -/
def Consumes (taken : List Char → Prop) (matcher : Matcher) : Prop :=
  ∀ input captures rest, (captures, rest) ∈ matcher input → ∃ word, input = word ++ rest ∧ taken word

/-- What the group captures is always like this. -/
def Captured (name : String) (holds : List Char → Prop) (matcher : Matcher) : Prop :=
  ∀ input captures rest, (captures, rest) ∈ matcher input → ∀ text, (name, text) ∈ captures → holds text

variable {first second item : Matcher} {class_ : Char → Bool} {name other : String}
  {holds taken takenBehind : List Char → Prop}

theorem mem_seq {input rest : List Char} {captures : Captures} (matched : (captures, rest) ∈ seq first second input) :
    ∃ begins middle ends, (begins, middle) ∈ first input ∧ (ends, rest) ∈ second middle ∧
      captures = begins ++ ends := by
  simp only [seq, List.mem_flatMap, List.mem_map, Prod.exists, Prod.mk.injEq] at matched
  obtain ⟨begins, middle, begun, ends, _, ended, rfl, rfl⟩ := matched
  exact ⟨begins, middle, ends, begun, ended, rfl⟩

theorem consumes_char : Consumes (fun word => ∃ c, class_ c = true ∧ word = [c]) (char class_) := by
  intro input captures rest matched
  obtain ⟨word, rfl⟩ := Regex.exists_taken _ matched
  obtain ⟨c, inside, rfl, _⟩ := Regex.takes_char.mp matched
  exact ⟨[c], rfl, c, inside, rfl⟩

theorem consumes_many : Consumes (fun _ => True) (many class_) := by
  intro input captures rest matched
  obtain ⟨word, split⟩ := Regex.exists_taken _ matched
  exact ⟨word, split, trivial⟩

theorem consumes_all : Consumes (fun word => ∀ c ∈ word, class_ c = true) (many class_) := by
  intro input captures rest matched
  obtain ⟨word, rfl⟩ := Regex.exists_taken _ matched
  refine ⟨word, rfl, ?_⟩
  rcases Regex.takes_opt.mp matched with some | ⟨rfl, _⟩
  · exact (Regex.takes_plus.mp some).2.1
  · exact nofun

theorem Consumes.seq (front : Consumes taken first) (back : Consumes takenBehind second) :
    Consumes (fun word => ∃ begins ends, word = begins ++ ends ∧ taken begins ∧ takenBehind ends)
      (seq first second) := by
  intro input captures rest matched
  obtain ⟨_, middle, _, begun, ended, _⟩ := mem_seq matched
  obtain ⟨begins, rfl, takenFront⟩ := front _ _ _ begun
  obtain ⟨ends, rfl, takenBack⟩ := back _ _ _ ended
  exact ⟨begins ++ ends, (List.append_assoc _ _ _).symm, begins, ends, rfl, takenFront, takenBack⟩

theorem Consumes.star (once : Consumes (fun _ => True) item) : Consumes (fun _ => True) (star item) := by
  have rounds (limit : Nat) : Consumes (fun _ => True) (starUpTo item limit) := by
    induction limit with
    | zero =>
        intro input captures rest matched
        cases List.mem_singleton.mp matched
        exact ⟨[], rfl, trivial⟩
    | succ limit ih =>
        intro input captures rest matched
        rcases List.mem_append.mp matched with more | stopped
        · obtain ⟨word, split, _⟩ := once.seq ih input captures rest more
          exact ⟨word, split, trivial⟩
        · cases List.mem_singleton.mp stopped
          exact ⟨[], rfl, trivial⟩
  exact fun input => rounds input.length input

theorem Consumes.mono {weaker : List Char → Prop} (consumes : Consumes taken item)
    (implies : ∀ word, taken word → weaker word) : Consumes weaker item := by
  intro input captures rest matched
  obtain ⟨word, split, taken⟩ := consumes _ _ _ matched
  exact ⟨word, split, implies word taken⟩

theorem captured_char : Captured name holds (char class_) := by
  intro input captures rest matched text member
  obtain ⟨word, rfl⟩ := Regex.exists_taken _ matched
  obtain ⟨_, _, _, rfl⟩ := Regex.takes_char.mp matched
  contradiction

theorem captured_plus : Captured name holds (plus class_) := by
  intro input captures rest matched text member
  obtain ⟨word, rfl⟩ := Regex.exists_taken _ matched
  obtain ⟨_, _, rfl⟩ := Regex.takes_plus.mp matched
  contradiction

theorem captured_many : Captured name holds (many class_) := by
  intro input captures rest matched text member
  obtain ⟨word, rfl⟩ := Regex.exists_taken _ matched
  rcases Regex.takes_opt.mp matched with some | ⟨_, rfl⟩
  · obtain ⟨_, _, rfl⟩ := Regex.takes_plus.mp some
    contradiction
  · contradiction

theorem captured_dollar : Captured name holds dollar := by
  intro input captures rest matched text member
  obtain ⟨word, rfl⟩ := Regex.exists_taken _ matched
  obtain ⟨_, rfl, _⟩ := Regex.takes_dollar.mp matched
  contradiction

theorem Captured.seq (front : Captured name holds first) (back : Captured name holds second) :
    Captured name holds (seq first second) := by
  intro input captures rest matched text member
  obtain ⟨_, _, _, begun, ended, rfl⟩ := mem_seq matched
  rcases List.mem_append.mp member with early | late
  · exact front _ _ _ begun text early
  · exact back _ _ _ ended text late

theorem Captured.alt (left : Captured name holds first) (right : Captured name holds second) :
    Captured name holds (alt first second) := by
  intro input captures rest matched
  rcases List.mem_append.mp matched with one | two
  · exact left _ _ _ one
  · exact right _ _ _ two

theorem Captured.opt (inner : Captured name holds item) : Captured name holds (opt item) := by
  intro input captures rest matched text member
  rcases List.mem_append.mp matched with once | skipped
  · exact inner _ _ _ once text member
  · cases List.mem_singleton.mp skipped
    contradiction

theorem Captured.star (once : Captured name holds item) : Captured name holds (star item) := by
  have rounds (limit : Nat) : Captured name holds (starUpTo item limit) := by
    induction limit with
    | zero =>
        intro input captures rest matched text member
        cases List.mem_singleton.mp matched
        contradiction
    | succ limit ih =>
        intro input captures rest matched text member
        rcases List.mem_append.mp matched with more | stopped
        · exact once.seq ih input captures rest more text member
        · cases List.mem_singleton.mp stopped
          contradiction
  exact fun input => rounds input.length input

/-- A group captures what its item consumes. -/
theorem Captured.group (inner : Captured name holds item) (consumes : name = other → Consumes holds item) :
    Captured name holds (group other item) := by
  intro input captures rest matched text member
  simp only [Matcher.group, List.mem_map, Prod.exists, Prod.mk.injEq] at matched
  obtain ⟨_, _, matched, rfl, rfl⟩ := matched
  rcases List.mem_cons.mp member with itself | within
  · obtain ⟨rfl, rfl⟩ := Prod.mk.inj itself
    obtain ⟨word, rfl, taken⟩ := consumes rfl _ _ _ matched
    rw [List.length_append, Nat.add_sub_cancel, List.take_left]
    exact taken
  · exact inner _ _ _ matched text within

/-- Every match has something for the group. -/
def Binds (name : String) (matcher : Matcher) : Prop :=
  ∀ input captures rest, (captures, rest) ∈ matcher input → ∃ text, (name, text) ∈ captures

theorem Binds.group (name : String) (item : Matcher) : Binds name (group name item) := by
  intro input captures rest matched
  simp only [Matcher.group, List.mem_map, Prod.exists, Prod.mk.injEq] at matched
  obtain ⟨_, _, _, rfl, _⟩ := matched
  exact ⟨_, .head _⟩

theorem Binds.before (binds : Binds name first) : Binds name (seq first second) := by
  intro input captures rest matched
  obtain ⟨_, _, _, begun, _, rfl⟩ := mem_seq matched
  obtain ⟨text, member⟩ := binds _ _ _ begun
  exact ⟨text, List.mem_append_left _ member⟩

theorem Binds.behind (binds : Binds name second) : Binds name (seq first second) := by
  intro input captures rest matched
  obtain ⟨_, _, _, _, ended, rfl⟩ := mem_seq matched
  obtain ⟨text, member⟩ := binds _ _ _ ended
  exact ⟨text, List.mem_append_right _ member⟩

theorem Binds.named {matcher : Matcher} (binds : Binds name matcher) {subject : List Char}
    {captures : Captures} (matched : matcher.firstMatch subject = some captures) :
    ∃ text, captures.named name = some text := by
  obtain ⟨⟨_, rest⟩, first, rfl⟩ := Option.map_eq_some_iff.mp matched
  obtain ⟨text, member⟩ := binds _ _ _ (List.mem_of_head? first)
  have present := List.find?_isSome (p := fun entry : String × List Char => entry.1 = name) |>.mpr
    ⟨(name, text), member, decide_eq_true rfl⟩
  obtain ⟨found, picked⟩ := Option.isSome_iff_exists.mp present
  exact ⟨found.2, Option.map_eq_some_iff.mpr ⟨found, picked, rfl⟩⟩

theorem Captured.named {matcher : Matcher} (captured : Captured name holds matcher) {subject : List Char}
    {captures : Captures} (matched : matcher.firstMatch subject = some captures) {text : List Char}
    (known : captures.named name = some text) : holds text := by
  obtain ⟨⟨_, rest⟩, first, rfl⟩ := Option.map_eq_some_iff.mp matched
  obtain ⟨⟨_, _⟩, found, rfl⟩ := Option.map_eq_some_iff.mp known
  have isName := List.find?_some found
  obtain rfl := of_decide_eq_true isName
  exact captured _ _ _ (List.mem_of_head? first) _ (List.mem_of_find?_eq_some found)

end Matcher

end Oil.Data

import QuerySurface.Proofs.Text.Names
import QuerySurface.Proofs.Traits.Modules

/-!
# Words of names

Members and parameters are named in snake case, which forgets how a name is written and keeps the
words that it is made of: `petOwner` and `pet_owner` are the same words. Escaping keywords adds one
more way for two names to come out alike, since a word without a raw form is given an underscore,
which another name may have of its own. So it is said of any two names when they make one
identifier.
-/

namespace QuerySurface.Text

/-- Splitting a text is splitting a list. -/
theorem splitOn_eq (separator : Char) (text : List Char) :
    splitOn separator text = List.splitOn separator text := by
  induction text with
  | nil => rfl
  | cons c rest ih =>
    rw [splitOn, List.splitOn, List.splitOnP_cons_eq_if_modifyHead, ← List.splitOn, ih]
    obtain ⟨part, parts, hp⟩ :=
      List.exists_cons_of_ne_nil (ih ▸ splitOn_ne_nil separator rest)
    by_cases hc : c = separator
    · simp [hc]
    · simp [hc, hp]

/-- Texts with the same parts are the same. -/
theorem splitOn_injective (separator : Char) : Function.Injective (splitOn separator) := by
  intro text other h
  have hjoined := congrArg [separator].intercalate h
  rwa [splitOn_eq, splitOn_eq, List.intercalate_splitOn, List.intercalate_splitOn] at hjoined

end QuerySurface.Text

namespace QuerySurface.Traits

/-- Characters that separate words. -/
def isSeparator (c : Char) : Bool :=
  c == '_' || c == '-' || c == ' '

/-- The words of a text that stands behind a lower-case letter or digit, or does not. They are in
lower case, and end at a separator and in front of a capital behind such a character. -/
def wordsFrom (afterLower : Bool) : List Char → List (List Char)
  | [] => [[]]
  | c :: rest =>
    if isSeparator c then [] :: wordsFrom false rest
    else if c.isUpper && afterLower then [] :: (wordsFrom false rest).modifyHead (c.toLower :: ·)
    else (wordsFrom (c.isLower || c.isDigit) rest).modifyHead (c.toLower :: ·)

/-- The words of a name. -/
def words (name : String) : List String :=
  (wordsFrom false name.toList).map String.ofList

/-- A name is one word that has no raw form, and another is this word with an underscore behind
it. -/
def Reserves (name other : String) : Prop :=
  ∃ word ∈ pathKeywords, words name = [word] ∧ words other = [word, ""]

/-- Two names make one identifier: they are the same words, or one of them gets the underscore that
the other has. -/
def Clash (name other : String) : Prop :=
  words name = words other ∨ Reserves name other ∨ Reserves other name

/-! ## Snake case -/

/-- A capital separates nothing, and neither does its lower case. -/
theorem apart_of_isUpper {c : Char} (h : c.isUpper = true) :
    isSeparator c = false ∧ (c.isLower || c.isDigit) = false ∧ c.toLower ≠ '_' := by
  have hword : Text.isWordChar c = true :=
    Text.isWordChar_iff.mpr (.inr (.inl (Text.isUpper_iff.mp h)))
  exact Text.of_isWordChar
    (fun c => c.isUpper = true →
      isSeparator c = false ∧ (c.isLower || c.isDigit) = false ∧ c.toLower ≠ '_')
    (by decide) hword h

/-- What is no capital is its own lower case. -/
theorem toLower_of_isUpper {c : Char} (h : c.isUpper = false) : c.toLower = c :=
  dif_neg (of_decide_eq_false h)

/-- Snake case separates the words of a text by underscores. -/
theorem splitOn_snakeFrom (afterLower : Bool) (text : List Char) :
    Text.splitOn '_' (snakeFrom afterLower text) = wordsFrom afterLower text := by
  induction text generalizing afterLower with
  | nil => rfl
  | cons c rest ih =>
    have hline (lower : Bool) : Text.splitOn '_' ('_' :: snakeFrom lower rest) =
        [] :: wordsFrom lower rest := by
      rw [Text.splitOn, if_pos rfl, ih]
    have hcons {d : Char} (hd : d ≠ '_') (lower : Bool) :
        Text.splitOn '_' (d :: snakeFrom lower rest) =
          (wordsFrom lower rest).modifyHead (d :: ·) := by
      rw [← ih, Text.splitOn_eq, Text.splitOn_eq, List.splitOn,
        List.splitOnP_cons_eq_if_modifyHead, if_neg (by simpa using hd), List.splitOn]
    rw [snakeFrom, wordsFrom]
    cases hu : c.isUpper with
    | true =>
      obtain ⟨hseparator, hlower, hne⟩ := apart_of_isUpper hu
      rw [if_pos rfl, hseparator, hlower, if_neg Bool.false_ne_true]
      cases afterLower with
      | true => exact (if_pos rfl).trans (congrArg ([] :: ·) (hcons hne false))
      | false => exact hcons hne false
    | false =>
      rw [if_neg Bool.false_ne_true, toLower_of_isUpper hu, Bool.false_and,
        if_neg Bool.false_ne_true]
      by_cases hc : c = '_'
      · subst hc
        exact hline false
      · rw [isSeparator, beq_false_of_ne hc, Bool.false_or]
        cases hb : c == '-' || c == ' ' with
        | true => exact hline false
        | false => exact hcons hc _

/-- The snake case of a name has its words as parts. -/
theorem words_eq (name : String) :
    words name = (Text.splitOn '_' (snakeCase name).toList).map String.ofList := by
  rw [words, snakeCase, String.toList_ofList, splitOn_snakeFrom]

/-- A name has the words of a text exactly if the text is its snake case. -/
theorem words_eq_iff {name text : String} :
    words name = (Text.splitOn '_' text.toList).map String.ofList ↔ snakeCase name = text := by
  have hofList : Function.Injective (List.map String.ofList) :=
    List.map_injective_iff.mpr fun _ _ h => String.ofList_inj.mp h
  rw [words_eq, hofList.eq_iff, (Text.splitOn_injective '_').eq_iff, String.toList_inj]

/-- Two names have one snake case exactly if they are the same words. -/
theorem snakeCase_eq_iff {name other : String} :
    snakeCase name = snakeCase other ↔ words name = words other := by
  rw [words_eq other, words_eq_iff]

/-! ## Identifiers -/

/-- The snake case of a word is a word. -/
theorem IsWord.snakeCase {name : String} (h : IsWord name) : IsWord (snakeCase name) := by
  rw [IsWord, Traits.snakeCase, String.toList_ofList]
  exact isWordChar_of_mem_snakeFrom h false

/-- One name reserves another exactly if its snake case has no raw form, and that of the other is
the word that stands in for it. -/
theorem reserves_iff {name other : String} :
    Reserves name other ↔
      snakeCase name ∈ pathKeywords ∧ snakeCase other = snakeCase name ++ "_" := by
  have hparts : ∀ word ∈ pathKeywords,
      (Text.splitOn '_' word.toList).map String.ofList = [word] ∧
        (Text.splitOn '_' (word ++ "_").toList).map String.ofList = [word, ""] := by
    decide
  constructor
  · rintro ⟨word, hw, hn, ho⟩
    obtain ⟨hsingle, hline⟩ := hparts word hw
    rw [← hsingle, words_eq_iff] at hn
    rw [← hline, words_eq_iff] at ho
    rw [hn, ho]
    exact ⟨hw, rfl⟩
  · rintro ⟨hw, ho⟩
    obtain ⟨hsingle, hline⟩ := hparts _ hw
    exact ⟨_, hw, by rw [← hsingle, words_eq_iff], by rw [← hline, words_eq_iff, ho]⟩

/-- Two words make one identifier exactly if they clash. -/
theorem identifier_eq_iff {name other : String} (hn : IsWord name) (ho : IsWord other) :
    identifier name = identifier other ↔ Clash name other := by
  rw [identifier, identifier, escapeKeyword_eq_iff hn.snakeCase ho.snakeCase, declaredWord_eq_iff,
    Clash, reserves_iff, reserves_iff, snakeCase_eq_iff]

example : words "petOwner" = ["pet", "owner"] ∧ words "pet_owner" = ["pet", "owner"] := by decide

/-- No identifier is the word for the receiver of a method. -/
theorem identifier_ne_self (name : String) : identifier name ≠ "self" := by
  have hescaped : ∀ word ∈ pathKeywords, word ++ "_" ≠ "self" := by decide
  rw [identifier, escapeKeyword]
  split
  case isTrue hp => exact hescaped _ (by simpa using hp)
  case isFalse hp =>
    split
    case isTrue =>
      intro h
      have hlist := congrArg String.toList h
      rw [String.toList_append] at hlist
      cases hlist
    case isFalse =>
      intro h
      exact hp (h ▸ by decide)

/-- Names are words. -/
theorem isWord_of_isName {name : String} (h : Text.IsName name.toList) : IsWord name :=
  h.isWordChar

end QuerySurface.Traits

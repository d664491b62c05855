/-!
# White space and lines

The characters with the white-space property, trimming at either end of a text, and the
division of a text into lines. Texts are handled as lists of characters; `isBlankText`
is the one test that configuration checks ask.
-/

namespace QuerySurface.Text

/-- Characters with the Unicode white-space property. -/
def isBlank (c : Char) : Bool :=
  let code := c.toNat
  (9 ≤ code && code ≤ 13) || code == 0x20 || code == 0x85 || code == 0xA0 || code == 0x1680 ||
    (0x2000 ≤ code && code ≤ 0x200A) || code == 0x2028 || code == 0x2029 || code == 0x202F ||
    code == 0x205F || code == 0x3000

/-- Drops white space in front. -/
def trimStart (text : List Char) : List Char :=
  text.dropWhile isBlank

/-- Drops white space behind. -/
def trimEnd (text : List Char) : List Char :=
  (text.reverse.dropWhile isBlank).reverse

/-- Drops white space at both ends. -/
def trim (text : List Char) : List Char :=
  trimEnd (trimStart text)

/-- Whether a text holds nothing but white space. -/
def isBlankText (text : String) : Bool :=
  text.toList.all isBlank

/-- Drops the last character if it is `c`. -/
def dropLast? (c : Char) (text : List Char) : Option (List Char) :=
  match text.reverse with
  | last :: rest => if last = c then some rest.reverse else none
  | [] => none

/-- Splits before every occurrence of a separator; the parts do not hold it. -/
def splitOn (separator : Char) : List Char → List (List Char)
  | [] => [[]]
  | c :: rest =>
    if c = separator then [] :: splitOn separator rest
    else
      match splitOn separator rest with
      | part :: parts => (c :: part) :: parts
      | [] => [[c]]

/-- A line as it stood before its line feed: one carriage return in front of the line feed
belongs to the line ending. -/
def endedLine (line : List Char) : List Char :=
  (dropLast? '\r' line).getD line

/-- The lines of a text. A line ends with a line feed or with the text, and a text that ends
with a line feed has no empty line behind it. -/
def lines (text : List Char) : List (List Char) :=
  let parts := splitOn '\n' text
  let last := parts.getLast?.getD []
  parts.dropLast.map endedLine ++ (if last.isEmpty then [] else [last])

/-- A part that `splitOn` yields does not hold the separator. -/
theorem not_mem_of_mem_splitOn {separator : Char} {text part : List Char}
    (h : part ∈ splitOn separator text) : separator ∉ part := by
  induction text generalizing part with
  | nil =>
    simp only [splitOn, List.mem_singleton] at h
    simp [h]
  | cons c rest ih =>
    rw [splitOn] at h
    split at h
    · rcases List.mem_cons.mp h with rfl | h
      · simp
      · exact ih h
    · rename_i hc
      split at h
      · rename_i first others heq
        rcases List.mem_cons.mp h with rfl | h
        · have hfirst : separator ∉ first := ih (by rw [heq]; exact List.mem_cons_self)
          intro hmem
          rcases List.mem_cons.mp hmem with hEq | hmem
          · exact hc hEq.symm
          · exact hfirst hmem
        · exact ih (by rw [heq]; exact List.mem_cons_of_mem _ h)
      · simp only [List.mem_singleton] at h
        subst h
        intro hmem
        exact hc (List.mem_singleton.mp hmem).symm

end QuerySurface.Text

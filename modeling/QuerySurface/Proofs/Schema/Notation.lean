import QuerySurface.Schema.TypeRef
import QuerySurface.Proofs.Text.Tokens
import Mathlib.Data.Set.Operations

/-!
# Notations of references

The documented notations of a reference are rows of tokens: a name, in brackets or not, with a
mark of presence inside the brackets, behind everything, or nowhere. Reading a notation takes the
outer mark off, then the brackets, then a mark behind the name, and each of these steps reads one
part of the row. The last step is the same with and without brackets, so a bare name may carry two
marks; this is the one row that is read and is not documented. What a reference is written as is a
documented notation of it, hence the two directions undo each other.
-/

namespace QuerySurface.Schema.TypeRef

open Text (Spaced Solid Trimmed IsName)

/-- The documented notations of a reference to a name: the row of tokens, whether the value is a
list, and whether it may be absent. -/
inductive Form (name : List Char) : List (List Char) → Bool → Bool → Prop
  | plain : Form name [name] false true
  | present : Form name [name, ['!']] false false
  | list : Form name [['['], name, [']']] true true
  | presentList : Form name [['['], name, [']'], ['!']] true false
  | listOfPresent : Form name [['['], name, ['!'], [']']] true true
  | presentListOfPresent : Form name [['['], name, ['!'], [']'], ['!']] true false

/-- A text is a documented notation of a reference, up to white space around and between its
tokens. -/
def Denotes (text : String) (ref : TypeRef) : Prop :=
  IsName ref.node.toList ∧
    ∃ row, Form ref.node.toList row ref.list ref.nullable ∧ Spaced row text.toList

/-- A text is a bare name with two marks of presence. -/
def TwiceMarked (text : String) (ref : TypeRef) : Prop :=
  IsName ref.node.toList ∧ ref.list = false ∧ ref.nullable = false ∧
    Spaced [ref.node.toList, ['!'], ['!']] text.toList

/-- An element: a name that may carry a mark of presence. -/
inductive Element (name : List Char) : List (List Char) → Prop
  | plain : Element name [name]
  | marked : Element name [name, ['!']]

/-- A row in brackets, for a list. -/
def enclosed (list : Bool) (row : List (List Char)) : List (List Char) :=
  if list then ['['] :: (row ++ [[']']]) else row

variable {text body inner name : List Char} {row : List (List Char)}

/-! ## Tokens of notations -/

/-- The mark of presence is a token. -/
theorem solid_mark : Solid ['!'] :=
  ⟨by simp, List.forall_mem_singleton.mpr rfl⟩

/-- The opening bracket is a token. -/
theorem solid_open : Solid ['['] :=
  ⟨by simp, List.forall_mem_singleton.mpr rfl⟩

/-- The closing bracket is a token. -/
theorem solid_close : Solid [']'] :=
  ⟨by simp, List.forall_mem_singleton.mpr rfl⟩

/-- The characters of names are no marks and no brackets. -/
theorem not_mem_of_isName {c : Char} (hn : IsName name) (hc : Text.isWordChar c = false) :
    c ∉ name := by
  intro hm
  rw [Text.isWordChar_iff.mpr (hn.mem c hm)] at hc
  cases hc

/-- The tokens of an element have characters, none of them white space. -/
theorem Element.solid (hn : IsName name) (h : Element name row) : ∀ token ∈ row, Solid token := by
  cases h <;> simp [hn.solid, solid_mark]

/-- Brackets around tokens are tokens. -/
theorem solid_enclosed (list : Bool) (h : ∀ token ∈ row, Solid token) :
    ∀ token ∈ enclosed list row, Solid token := by
  cases list
  · exact h
  · intro token ht
    rw [enclosed, if_pos rfl, List.mem_cons, List.mem_append, List.mem_singleton] at ht
    rcases ht with rfl | ht | rfl
    · exact solid_open
    · exact h token ht
    · exact solid_close

/-! ## The outer mark -/

/-- What stands in front of the outer mark is trimmed again. -/
theorem trimmed_splitMark (h : Trimmed text) : Trimmed (splitMark text).1 := by
  unfold splitMark
  split
  case h_1 rest he =>
    rw [Text.dropLast?_eq_some_iff] at he
    exact Text.trimmed_trimEnd (Text.trimStart_front (he ▸ h.start))
  case h_2 => exact h

/-- The outer mark is the last token of the row. -/
theorem splitMark_present_iff (text : List Char) (h : ∀ token ∈ row, Solid token) :
    (∃ body, splitMark (Text.trim text) = (body, false) ∧ Spaced row body) ↔
      Spaced (row ++ [['!']]) text := by
  have hall : ∀ token ∈ row ++ [['!']], Solid token := by
    simpa [or_imp, forall_and, solid_mark] using h
  rw [← Text.spaced_trim_iff hall]
  constructor
  · rintro ⟨body, hs, hr⟩
    unfold splitMark at hs
    split at hs
    case h_1 rest he =>
      cases hs
      rw [Text.dropLast?_eq_some_iff.mp he]
      exact ((Text.spaced_trimEnd_iff h).mp hr).append (.single _)
    case h_2 => cases hs
  · intro hr
    obtain ⟨rest, he, hs⟩ := (Text.spaced_concat_iff _ solid_mark).mp hr
    rw [(Text.trimmed_trim text).stop] at he
    refine ⟨Text.trimEnd rest, ?_, (Text.spaced_trimEnd_iff h).mpr hs⟩
    rw [splitMark, Text.dropLast?_eq_some_iff.mpr he]

/-- There is no outer mark if the last token of the row is another one. -/
theorem splitMark_absent_iff (text : List Char) (row : List (List Char)) {token : List Char}
    (h : ∀ token ∈ row, Solid token) (ht : Solid token) :
    (∃ body, splitMark (Text.trim text) = (body, true) ∧ Spaced (row ++ [token]) body) ↔
      Spaced (row ++ [token]) text ∧ token.getLast? ≠ some '!' := by
  have hall : ∀ other ∈ row ++ [token], Solid other := by
    simpa [or_imp, forall_and, ht] using h
  rw [← Text.spaced_trim_iff hall]
  have hlast (hr : Spaced (row ++ [token]) (Text.trim text)) :
      (Text.trim text).getLast? = token.getLast? := by
    obtain ⟨rest, he, -⟩ := (Text.spaced_concat_iff _ ht).mp hr
    rw [(Text.trimmed_trim text).stop] at he
    rw [he, List.getLast?_append_of_ne_nil _ ht.ne_nil]
  have hmark : (∃ rest, Text.dropLast? '!' (Text.trim text) = some rest) ↔
      (Text.trim text).getLast? = some '!' := by
    simp only [Text.dropLast?_eq_some_iff, List.getLast?_eq_some_iff]
  constructor
  · rintro ⟨body, hs, hr⟩
    unfold splitMark at hs
    split at hs
    case h_1 => cases hs
    case h_2 he =>
      cases hs
      rw [← hlast hr, ne_eq, ← hmark]
      simp [he, hr]
  · rintro ⟨hr, hne⟩
    refine ⟨Text.trim text, ?_, hr⟩
    rw [← hlast hr, ne_eq, ← hmark, not_exists, ← Option.eq_none_iff_forall_ne_some] at hne
    rw [splitMark, hne]

/-! ## The brackets -/

/-- What stands between the brackets is trimmed again. -/
theorem trimmed_splitBrackets {list : Bool} (h : Trimmed body)
    (hs : splitBrackets body = some (inner, list)) : Trimmed inner := by
  unfold splitBrackets at hs
  split at hs
  · obtain ⟨rest, -, he⟩ := Option.map_eq_some_iff.mp hs
    cases he
    exact Text.trimmed_trim rest
  · cases hs
    exact h

/-- The brackets are the tokens at the two ends of a row. -/
theorem splitBrackets_list_iff (h : Trimmed body) (hs : ∀ token ∈ row, Solid token) :
    (∃ inner, splitBrackets body = some (inner, true) ∧ Spaced row inner) ↔
      Spaced (enclosed true row) body := by
  constructor
  · rintro ⟨inner, hb, hr⟩
    unfold splitBrackets at hb
    split at hb
    case h_1 rest =>
      obtain ⟨front, hf, he⟩ := Option.map_eq_some_iff.mp hb
      cases he
      rw [Text.dropLast?_eq_some_iff.mp hf]
      exact (Spaced.single ['[']).append (((Text.spaced_trim_iff hs).mp hr).append (.single [']']))
    case h_2 => cases hb
  · intro hr
    obtain ⟨front, he, hf⟩ :=
      (Text.spaced_concat_iff (['['] :: row) solid_close).mp hr
    rw [h.stop] at he
    obtain ⟨rest, hb, hrest⟩ := (Text.spaced_cons_iff solid_open).mp hf
    rw [Text.trimStart_front (he ▸ h.start)] at hb
    refine ⟨Text.trim rest, ?_, (Text.spaced_trim_iff hs).mpr hrest⟩
    have hlast : Text.dropLast? ']' (rest ++ [']']) = some rest :=
      Text.dropLast?_eq_some_iff.mpr rfl
    rw [he, hb]
    exact congrArg (Option.map fun inner => (Text.trim inner, true)) hlast

/-- A row that starts with a name has no brackets to take off. -/
theorem splitBrackets_name_iff (h : Trimmed body) (hn : IsName name) :
    (∃ inner, splitBrackets body = some (inner, false) ∧ Spaced (name :: row) inner) ↔
      Spaced (enclosed false (name :: row)) body := by
  constructor
  · rintro ⟨inner, hb, hr⟩
    unfold splitBrackets at hb
    split at hb
    case h_1 rest =>
      obtain ⟨front, -, he⟩ := Option.map_eq_some_iff.mp hb
      cases he
    case h_2 =>
      cases hb
      exact hr
  · intro hr
    refine ⟨body, ?_, hr⟩
    obtain ⟨rest, he, -⟩ := (Text.spaced_cons_iff hn.solid).mp hr
    rw [h.start] at he
    unfold splitBrackets
    split
    case h_1 back =>
      have hopen : '[' ∉ name := not_mem_of_isName hn (by decide)
      obtain ⟨c, others, rfl⟩ := List.exists_cons_of_ne_nil hn.ne_nil
      rw [List.cons_append] at he
      exact absurd (List.mem_cons.mpr (.inl (List.cons.inj he).1)) hopen
    case h_2 => rfl

/-! ## The element -/

/-- What is left of a trimmed element without its mark is its name. -/
theorem dropMark_eq_iff (h : Trimmed inner) (hn : IsName name) :
    dropMark inner = name ↔ ∃ row, Element name row ∧ Spaced row inner := by
  rw [dropMark]
  constructor
  · intro hd
    cases hlast : Text.dropLast? '!' inner with
    | none =>
      rw [hlast] at hd
      exact ⟨_, .plain, (Text.spaced_single_iff hn.solid).mpr hd⟩
    | some rest =>
      rw [hlast] at hd
      rw [Text.dropLast?_eq_some_iff.mp hlast]
      exact ⟨_, .marked, ((Text.spaced_single_iff hn.solid).mpr hd).append (.single ['!'])⟩
  · rintro ⟨row, ⟨⟩ | ⟨⟩, hr⟩
    · have hinner : inner = name := by rw [← h.trim_eq, (Text.spaced_single_iff hn.solid).mp hr]
      have hlast : Text.dropLast? '!' name = none := by
        rw [Option.eq_none_iff_forall_ne_some]
        intro rest he
        refine not_mem_of_isName (c := '!') hn (by decide) ?_
        simp [Text.dropLast?_eq_some_iff.mp he]
      rw [hinner, hlast, Option.getD_none, ← hinner, h.trim_eq]
    · obtain ⟨rest, he, hs⟩ := (Text.spaced_concat_iff [name] solid_mark).mp hr
      rw [h.stop] at he
      rw [Text.dropLast?_eq_some_iff.mpr he, Option.getD_some]
      exact (Text.spaced_single_iff hn.solid).mp hs

/-- What the brackets leave is an element exactly if the text is that element, in brackets if there
are any. -/
theorem reads_enclosed_iff (h : Trimmed body) (hn : IsName name) (list : Bool) :
    (∃ inner, splitBrackets body = some (inner, list) ∧ dropMark inner = name) ↔
      ∃ row, Element name row ∧ Spaced (enclosed list row) body := by
  have hlist (row : List (List Char)) (hr : Element name row) :
      (∃ inner, splitBrackets body = some (inner, list) ∧ Spaced row inner) ↔
        Spaced (enclosed list row) body := by
    cases list with
    | true => exact splitBrackets_list_iff h (hr.solid hn)
    | false => cases hr <;> exact splitBrackets_name_iff h hn
  constructor
  · rintro ⟨inner, hb, hd⟩
    obtain ⟨row, hr, hs⟩ := (dropMark_eq_iff (trimmed_splitBrackets h hb) hn).mp hd
    exact ⟨row, hr, (hlist row hr).mp ⟨inner, hb, hs⟩⟩
  · rintro ⟨row, hr, hs⟩
    obtain ⟨inner, hb, hi⟩ := (hlist row hr).mpr hs
    exact ⟨inner, hb, (dropMark_eq_iff (trimmed_splitBrackets h hb) hn).mpr ⟨row, hr, hi⟩⟩

/-! ## Reading -/

/-- A reference is read by taking the outer mark, the brackets and the inner mark off in turn. -/
theorem parse_eq_some_iff_steps {text : String} {ref : TypeRef} :
    parse text = some ref ↔ IsName ref.node.toList ∧
      ∃ body, splitMark (Text.trim text.toList) = (body, ref.nullable) ∧
        ∃ inner, splitBrackets body = some (inner, ref.list) ∧
          dropMark inner = ref.node.toList := by
  rw [parse, parseChars]
  obtain ⟨body, nullable⟩ := splitMark (Text.trim text.toList)
  dsimp only
  constructor
  · intro h
    split at h
    case h_1 => cases h
    case h_2 inner list hb =>
      split at h
      case isFalse => cases h
      case isTrue hi =>
        cases h
        simp only [String.toList_ofList]
        exact ⟨Text.isIdentifier_iff.mp hi, body, rfl, inner, hb, rfl⟩
  · rintro ⟨hn, _, he, inner, hb, hd⟩
    cases he
    rw [hb]
    dsimp only
    rw [hd, if_pos (Text.isIdentifier_iff.mpr hn), String.ofList_toList]

/-- A reference is read from what its element is written in. -/
theorem parse_eq_some_iff_rows {text : String} {ref : TypeRef} :
    parse text = some ref ↔ IsName ref.node.toList ∧
      ∃ row, Element ref.node.toList row ∧
        ∃ body, splitMark (Text.trim text.toList) = (body, ref.nullable) ∧
          Spaced (enclosed ref.list row) body := by
  rw [parse_eq_some_iff_steps]
  refine and_congr_right fun hn => ?_
  have hbody {body : List Char} (he : splitMark (Text.trim text.toList) = (body, ref.nullable)) :
      Trimmed body := by
    simpa [he] using trimmed_splitMark (Text.trimmed_trim text.toList)
  constructor
  · rintro ⟨body, he, hr⟩
    obtain ⟨row, hrow, hs⟩ := (reads_enclosed_iff (hbody he) hn ref.list).mp hr
    exact ⟨row, hrow, body, he, hs⟩
  · rintro ⟨row, hrow, body, he, hs⟩
    exact ⟨body, he, (reads_enclosed_iff (hbody he) hn ref.list).mpr ⟨row, hrow, hs⟩⟩

/-- What is enclosed and not marked outside is read as it stands, unless the mark of a bare
element would be taken for an outer one. -/
theorem splitMark_enclosed_iff (text : List Char) (hn : IsName name) (hr : Element name row)
    (list : Bool) :
    (∃ body, splitMark (Text.trim text) = (body, true) ∧ Spaced (enclosed list row) body) ↔
      Spaced (enclosed list row) text ∧ (list = true ∨ row = [name]) := by
  have hlast : name.getLast? ≠ some '!' := fun h =>
    not_mem_of_isName hn (by decide) (List.mem_of_getLast? h)
  cases list with
  | true =>
    have hsolid : ∀ token ∈ ['['] :: row, Solid token :=
      List.forall_mem_cons.mpr ⟨solid_open, hr.solid hn⟩
    simpa [enclosed] using splitMark_absent_iff text _ hsolid solid_close
  | false =>
    cases hr with
    | plain => simpa [enclosed, hlast] using
        splitMark_absent_iff text [] (by simp) hn.solid
    | marked => simpa [enclosed] using
        splitMark_absent_iff text [name] (by simpa using hn.solid) solid_mark

/-- The documented notations are read. -/
theorem parse_of_denotes {text : String} {ref : TypeRef} (h : Denotes text ref) :
    parse text = some ref := by
  obtain ⟨node, list, nullable⟩ := ref
  obtain ⟨hn, row, hf, hs⟩ := h
  dsimp only at hn hf hs
  have hplain : Element node.toList [node.toList] := .plain
  have hmarked : Element node.toList [node.toList, ['!']] := .marked
  have habsent {row : List (List Char)} (hr : Element node.toList row) (list : Bool) :=
    splitMark_enclosed_iff text.toList hn hr list
  have hpresent {row : List (List Char)} (hr : Element node.toList row) (list : Bool) :=
    splitMark_present_iff text.toList (solid_enclosed list (hr.solid hn))
  refine parse_eq_some_iff_rows.mpr ⟨hn, ?_⟩
  cases hf with
  | plain => exact ⟨_, hplain, (habsent hplain false).mpr ⟨hs, .inr rfl⟩⟩
  | present => exact ⟨_, hplain, (hpresent hplain false).mpr hs⟩
  | list => exact ⟨_, hplain, (habsent hplain true).mpr ⟨hs, .inl rfl⟩⟩
  | presentList => exact ⟨_, hplain, (hpresent hplain true).mpr hs⟩
  | listOfPresent => exact ⟨_, hmarked, (habsent hmarked true).mpr ⟨hs, .inl rfl⟩⟩
  | presentListOfPresent => exact ⟨_, hmarked, (hpresent hmarked true).mpr hs⟩

/-- A bare name with two marks is read as if it had one. -/
theorem parse_of_twiceMarked {text : String} {ref : TypeRef} (h : TwiceMarked text ref) :
    parse text = some ref := by
  obtain ⟨node, list, nullable⟩ := ref
  obtain ⟨hn, rfl, rfl, hs⟩ := h
  have hmarked : Element node.toList [node.toList, ['!']] := .marked
  have hsolid := solid_enclosed false (hmarked.solid hn)
  exact parse_eq_some_iff_rows.mpr ⟨hn, _, hmarked, (splitMark_present_iff _ hsolid).mpr hs⟩

/-- Whatever is read is a documented notation or a bare name with two marks. -/
theorem denotes_of_parse {text : String} {ref : TypeRef} (h : parse text = some ref) :
    Denotes text ref ∨ TwiceMarked text ref := by
  obtain ⟨node, list, nullable⟩ := ref
  obtain ⟨hn, row, hr, hb⟩ := parse_eq_some_iff_rows.mp h
  dsimp only at hn hr hb
  cases nullable with
  | true =>
    obtain ⟨hs, hplain⟩ := (splitMark_enclosed_iff _ hn hr list).mp hb
    cases list with
    | true =>
      cases hr with
      | plain => exact .inl ⟨hn, _, .list, hs⟩
      | marked => exact .inl ⟨hn, _, .listOfPresent, hs⟩
    | false =>
      cases hr with
      | plain => exact .inl ⟨hn, _, .plain, hs⟩
      | marked => simp at hplain
  | false =>
    have hs := (splitMark_present_iff _ (solid_enclosed list (hr.solid hn))).mp hb
    cases list with
    | true =>
      cases hr with
      | plain => exact .inl ⟨hn, _, .presentList, hs⟩
      | marked => exact .inl ⟨hn, _, .presentListOfPresent, hs⟩
    | false =>
      cases hr with
      | plain => exact .inl ⟨hn, _, .present, hs⟩
      | marked => exact .inr ⟨hn, rfl, rfl, hs⟩

/-- Exactly the documented notations are read, each as what it denotes, and the bare names with two
marks of presence, which are read as those with one. -/
theorem parse_eq_some_iff (text : String) (ref : TypeRef) :
    parse text = some ref ↔ Denotes text ref ∨ TwiceMarked text ref :=
  ⟨denotes_of_parse, fun h => h.elim parse_of_denotes parse_of_twiceMarked⟩

/-- Not everything that is read is a documented notation: `Name!!` is none. -/
theorem not_denotes_of_parse :
    ¬∀ (text : String) (ref : TypeRef), parse text = some ref ↔ Denotes text ref := by
  intro h
  obtain ⟨-, row, hf, hs⟩ := (h "Name!!" ⟨"Name", false, false⟩).mp (by decide +kernel)
  cases hf
  obtain ⟨rest, he, hr⟩ := (Text.spaced_concat_iff ["Name".toList] solid_mark).mp hs
  have hrest : rest = "Name!".toList := List.append_cancel_right (he.symm.trans (by decide))
  have hname : IsName "Name".toList := Text.isIdentifier_iff.mp (by decide)
  have htrim := (Text.spaced_single_iff hname.solid).mp hr
  rw [hrest] at htrim
  exact absurd htrim (by decide)

/-! ## Writing -/

/-- What a reference to a name is written as is a notation of it. -/
theorem denotes_written {ref : TypeRef} (hn : IsName ref.node.toList) :
    Denotes ref.written ref := by
  obtain ⟨node, list, nullable⟩ := ref
  refine ⟨hn, ?_⟩
  have hname := Spaced.single node.toList
  have hopen := Spaced.single ['[']
  have hclose := Spaced.single [']']
  have hmark := Spaced.single ['!']
  cases list <;> cases nullable
  · exact ⟨_, .present, by simpa [written] using hname.append hmark⟩
  · exact ⟨_, .plain, by simpa [written] using hname⟩
  · exact ⟨_, .presentList, by
      simpa [written] using hopen.append (hname.append (hclose.append hmark))⟩
  · exact ⟨_, .list, by simpa [written] using hopen.append (hname.append hclose)⟩

/-- Reading gives references to names. -/
theorem isName_of_parse {text : String} {ref : TypeRef} (h : parse text = some ref) :
    IsName ref.node.toList :=
  (parse_eq_some_iff_steps.mp h).1

/-- A reference is read back from what it is written as exactly if it is one to a name. -/
theorem parse_written_iff {ref : TypeRef} :
    parse ref.written = some ref ↔ IsName ref.node.toList :=
  ⟨isName_of_parse, fun hn => parse_of_denotes (denotes_written hn)⟩

/-- Two references to names that are written alike are the same. -/
theorem written_injOn : Set.InjOn written {ref | IsName ref.node.toList} := by
  intro ref hr other ho he
  have hread := parse_written_iff.mpr hr
  rw [he, parse_written_iff.mpr ho] at hread
  exact (Option.some.inj hread).symm

/-- What references are written as is a normal form of notations. A reference is read back from it
exactly if it is one to a name, in particular every reference that was read from some text; the
texts with one normal form are those that are read alike; and references to names that are written
alike are the same. -/
theorem written_normal :
    (∀ ref : TypeRef, parse ref.written = some ref ↔ IsName ref.node.toList) ∧
      (∀ (text : String) (ref : TypeRef), parse text = some ref → parse ref.written = some ref) ∧
      (∀ text other : String,
        (parse text).map written = (parse other).map written ↔ parse text = parse other) ∧
      Set.InjOn written {ref | IsName ref.node.toList} := by
  refine ⟨fun ref => parse_written_iff, fun text ref h => parse_written_iff.mpr (isName_of_parse h),
    fun text other => ⟨fun h => ?_, fun h => by rw [h]⟩, written_injOn⟩
  cases ht : parse text with
  | none =>
    rw [ht, Option.map_none, eq_comm, Option.map_eq_none_iff] at h
    exact h.symm
  | some ref =>
    rw [ht, Option.map_some, eq_comm, Option.map_eq_some_iff] at h
    obtain ⟨ref', ho, he⟩ := h
    rw [ho, written_injOn (isName_of_parse ho) (isName_of_parse ht) he]

/-- A list of pets, written with white space between all of its tokens. -/
theorem written_normal_pets :
    parse " [ Pet ! ] ! " = some ⟨"Pet", true, false⟩ ∧
      parse (written ⟨"Pet", true, false⟩) = some ⟨"Pet", true, false⟩ := by
  have hread : parse " [ Pet ! ] ! " = some ⟨"Pet", true, false⟩ := by decide +kernel
  exact ⟨hread, written_normal.2.1 _ _ hread⟩

end QuerySurface.Schema.TypeRef

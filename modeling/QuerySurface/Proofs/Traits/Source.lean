import QuerySurface.Traits.Render
import Mathlib.Data.List.Basic

/-!
# Traits in a source

Every member of a trait is rendered as a method: a name, a receiver, some parameters and possibly a
result. In the source of a node the trait of an abstraction has behind its first line the
signatures of those members that are not inherited, and nothing else, up to the line that closes
it.
-/

namespace QuerySurface.Traits

open Plan (Abstraction Member Method NodePlan Property)
open Layout (Scalars)

/-! ## Signatures -/

/-- A method as a trait declares it. -/
structure Signature where
  /-- Its comments. -/
  comments : List String
  /-- Its name. -/
  name : String
  /-- How it takes what it is called on. -/
  receiver : String
  /-- Its other parameters, each with its type. -/
  parameters : List (String × String)
  /-- The type of what it returns, if it returns anything. -/
  result : Option String
  deriving DecidableEq, Repr

namespace Signature

/-- The text of a signature. -/
def text (signature : Signature) : String :=
  "fn " ++ signature.name ++ "(" ++
    ", ".intercalate
      (signature.receiver :: signature.parameters.map fun parameter =>
        parameter.1 ++ ": " ++ parameter.2) ++
    ")" ++ signature.result.elim "" (" -> " ++ ·) ++ ";"

/-- The lines of a signature. -/
def lines (signature : Signature) : List Line :=
  commentLines memberIndentation signature.comments ++
    [.code (memberIndentation ++ signature.text)]

/-- The names of all parameters, that of the receiver first. -/
def parameterNames (signature : Signature) : List String :=
  "self" :: signature.parameters.map Prod.fst

end Signature

/-- The signature of a member. -/
def signature (scalars : Scalars) : Member → Signature
  | .property property =>
    let type := valueType scalars property.type
    if property.isMutable then
      ⟨property.comments, "set_" ++ snakeCase property.name, "&mut self", [("value", type)], none⟩
    else ⟨property.comments, identifier property.name, "&self", [], some type⟩
  | .method method =>
    ⟨method.comments, identifier method.name, "&mut self",
      method.parameters.map fun parameter =>
        (identifier parameter.name, parameterType scalars parameter),
      none⟩

/-- The signatures in the trait of an abstraction. -/
def signatures (scalars : Scalars) (abstraction : Abstraction) : List Signature :=
  (ownMembers abstraction).map (signature scalars)

/-- Lines declare a method of a name. -/
def DeclaresMethod (lines : List Line) (name : String) : Prop :=
  ∃ rest, .code ("    fn " ++ name ++ "(" ++ rest) ∈ lines

/-- The text of a property is that of its signature. -/
theorem text_signature_property (scalars : Scalars) (property : Property) :
    (signature scalars (.property property)).text = propertyText scalars property := by
  rw [signature, propertyText, ← String.toList_inj]
  cases property.isMutable with
  | true =>
    have hparameters (value : String) : ", ".intercalate ["&mut self", value] =
        "&mut self" ++ ", " ++ value := rfl
    simp [Signature.text, hparameters]
  | false =>
    have hparameters : ", ".intercalate ["&self"] = "&self" := rfl
    simp [Signature.text, hparameters]

/-- The text of a method is that of its signature. -/
theorem text_signature_method (scalars : Scalars) (method : Method) :
    (signature scalars (.method method)).text = methodText scalars method := by
  have hparameters : (signature scalars (.method method)).parameters.map
      (fun parameter => parameter.1 ++ ": " ++ parameter.2) =
        method.parameters.map (parameterText scalars) :=
    List.map_map
  rw [Signature.text, hparameters, methodText, ← String.toList_inj]
  simp [signature]

/-- A member is rendered as its signature. -/
theorem lines_signature (scalars : Scalars) (member : Member) :
    (signature scalars member).lines = memberLines scalars member := by
  cases member with
  | property property =>
    rw [Signature.lines, text_signature_property, memberLines, signature]
    split <;> rfl
  | method method =>
    rw [Signature.lines, text_signature_method, memberLines, signature]

/-- The last line of a signature declares its method. -/
theorem Signature.declaresMethod_lines (signature : Signature) :
    DeclaresMethod signature.lines signature.name := by
  let rest := ", ".intercalate
      (signature.receiver :: signature.parameters.map fun parameter =>
        parameter.1 ++ ": " ++ parameter.2) ++
    ")" ++ signature.result.elim "" (" -> " ++ ·) ++ ";"
  have htext :
      memberIndentation ++ signature.text = "    fn " ++ signature.name ++ "(" ++ rest := by
    rw [← String.toList_inj]
    simp [text, memberIndentation, rest]
  exact ⟨rest, List.mem_append_right _ (List.mem_singleton.mpr (congrArg Line.code htext.symm))⟩

/-! ## Traits -/

/-- The line that closes a trait. -/
def closing : Line :=
  .code "\x7d"

/-- Lines hold a trait with some first line and some lines as its body. A trait without members
stands on one line; the body of any other ends before the first line that closes it. -/
inductive HoldsTrait (head : String) : List Line → List Line → Prop where
  /-- A trait without members. -/
  | bare (front back : List Line) :
      HoldsTrait head (front ++ .code (head ++ " \x7b\x7d") :: back) []
  /-- A trait with members. -/
  | block (front body back : List Line) (open_ : closing ∉ body) :
      HoldsTrait head (front ++ .code (head ++ " \x7b") :: body ++ closing :: back) body

/-- What stands around lines that hold a trait does not matter. -/
theorem HoldsTrait.within {head : String} {lines whole body : List Line}
    (h : HoldsTrait head lines body) (hi : lines <:+: whole) : HoldsTrait head whole body := by
  obtain ⟨before, behind, rfl⟩ := hi
  cases h with
  | bare front back =>
    have hbare : HoldsTrait head _ [] := .bare (before ++ front) (back ++ behind)
    simpa using hbare
  | block front _ back hopen =>
    have hblock : HoldsTrait head _ body := .block (before ++ front) body (back ++ behind) hopen
    simpa using hblock

/-- The lines of separated blocks are empty or belong to a block. -/
theorem mem_separated {blocks : List (List Line)} {line : Line} (h : line ∈ separated blocks) :
    line = .code "" ∨ ∃ block ∈ blocks, line ∈ block := by
  fun_induction separated blocks with
  | case1 => cases h
  | case2 block => exact .inr ⟨block, List.mem_singleton_self _, h⟩
  | case3 block rest _ ih =>
    rcases List.mem_append.mp h with hm | hm
    · exact .inr ⟨block, List.mem_cons_self .., hm⟩
    · rcases List.mem_cons.mp hm with rfl | hm
      · exact .inl rfl
      · refine (ih hm).imp_right ?_
        rintro ⟨other, ho, hl⟩
        exact ⟨other, List.mem_cons_of_mem _ ho, hl⟩

/-- Lines of a block are lines of separated blocks. -/
theorem mem_separated_of_mem {blocks : List (List Line)} {block : List Line} {line : Line}
    (hb : block ∈ blocks) (hl : line ∈ block) : line ∈ separated blocks := by
  fun_induction separated blocks with
  | case1 => cases hb
  | case2 only => exact List.mem_singleton.mp hb ▸ hl
  | case3 first rest _ ih =>
    rcases List.mem_cons.mp hb with rfl | hb
    · exact List.mem_append_left _ hl
    · exact List.mem_append_right _ (List.mem_cons_of_mem _ (ih hb))

/-- Separated signatures declare the method of each of them. -/
theorem declaresMethod_separated {signatures : List Signature} {signature : Signature}
    (h : signature ∈ signatures) :
    DeclaresMethod (separated (signatures.map Signature.lines)) signature.name := by
  obtain ⟨rest, hl⟩ := signature.declaresMethod_lines
  exact ⟨rest, mem_separated_of_mem (List.mem_map_of_mem h) hl⟩

/-- An indented line does not close a trait. -/
theorem closing_ne_indented (text : String) : closing ≠ .code (memberIndentation ++ text) := by
  intro h
  have ht : ("\x7d" : String).toList = (memberIndentation ++ text).toList :=
    congrArg String.toList (Line.code.inj h)
  rw [String.toList_append] at ht
  cases ht

/-- No line of a comment closes a trait. -/
theorem closing_not_mem_commentLines (indentation : String) (comments : List String) :
    closing ∉ commentLines indentation comments := by
  intro h
  obtain ⟨comment, _, hl⟩ := List.mem_flatMap.mp h
  obtain ⟨line, _, he⟩ := List.mem_map.mp hl
  cases he

/-- No line of a member closes a trait. -/
theorem closing_not_mem_memberLines (scalars : Scalars) (member : Member) :
    closing ∉ memberLines scalars member := by
  intro h
  cases member with
  | property property =>
    rcases List.mem_append.mp h with hc | hm
    · exact closing_not_mem_commentLines _ _ hc
    · exact closing_ne_indented _ (List.mem_singleton.mp hm)
  | method method =>
    rcases List.mem_append.mp h with hc | hm
    · exact closing_not_mem_commentLines _ _ hc
    · exact closing_ne_indented _ (List.mem_singleton.mp hm)

/-- The lines of a trait hold it. -/
theorem holdsTrait_traitLines (scalars : Scalars) (abstraction : Abstraction) :
    HoldsTrait (traitHead abstraction) (traitLines scalars abstraction)
      (separated ((ownMembers abstraction).map (memberLines scalars))) := by
  rw [traitLines]
  split
  case isTrue hempty =>
    rw [List.isEmpty_iff.mp hempty]
    exact .bare (commentLines "" abstraction.comments) []
  case isFalse =>
    have hopen : closing ∉ separated ((ownMembers abstraction).map (memberLines scalars)) := by
      intro h
      rcases mem_separated h with he | ⟨block, hb, hl⟩
      · exact absurd he (by decide)
      · obtain ⟨member, _, rfl⟩ := List.mem_map.mp hb
        exact closing_not_mem_memberLines scalars member hl
    have hblock : HoldsTrait (traitHead abstraction) _ _ :=
      .block (commentLines "" abstraction.comments) _ [] hopen
    rwa [List.append_assoc] at hblock

/-- The source of a node holds the trait of each of its abstractions, with the members that are not
inherited as its body. -/
theorem holdsTrait_planLines (scalars : Scalars) {plan : NodePlan} {abstraction : Abstraction}
    (h : abstraction ∈ plan.abstractions) :
    HoldsTrait (traitHead abstraction) (planLines scalars plan)
      (separated ((ownMembers abstraction).map (memberLines scalars))) := by
  apply (holdsTrait_traitLines scalars abstraction).within
  let block := fun abstraction => Line.code "" :: traitLines scalars abstraction
  have hblock : block abstraction <:+: plan.abstractions.flatMap block := by
    rw [List.flatMap_def]
    exact List.infix_of_mem_flatten (List.mem_map_of_mem h)
  have hlines : traitLines scalars abstraction <:+: block abstraction :=
    (List.suffix_cons _ _).isInfix
  exact (hlines.trans hblock).trans (List.suffix_append _ _).isInfix

/-- The source of a node declares these signatures, and nothing else, in the trait of each of its
abstractions. -/
theorem holdsTrait_signatures (scalars : Scalars) {plan : NodePlan} {abstraction : Abstraction}
    (h : abstraction ∈ plan.abstractions) :
    HoldsTrait (traitHead abstraction) (planLines scalars plan)
      (separated ((signatures scalars abstraction).map Signature.lines)) := by
  have hlines : (signatures scalars abstraction).map Signature.lines =
      (ownMembers abstraction).map (memberLines scalars) := by
    rw [signatures, List.map_map]
    exact List.map_congr_left fun member _ => lines_signature scalars member
  rw [hlines]
  exact holdsTrait_planLines scalars h

end QuerySurface.Traits

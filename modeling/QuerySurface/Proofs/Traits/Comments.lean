import QuerySurface.Proofs.Text.Lines
import QuerySurface.Proofs.Text.Tokens
import QuerySurface.Proofs.Traits.Source

/-!
# Comments in a source

The comments of a schema are free texts, and a source holds them between its declarations, at
several indentations. They stay what they are: each of their lines is a whole line of the source
that starts with three slashes, whatever the comment says, and all other lines are those of the
plan without comments. So no comment changes, adds or hides anything that is declared.
-/

namespace QuerySurface.Plan

/-! ## Plans without comments -/

/-- A parameter without comments. -/
def Parameter.uncommented (parameter : Parameter) : Parameter :=
  { parameter with comments := [] }

/-- A member without comments, and without those of its parameters. -/
def Member.uncommented : Member → Member
  | .property it => .property { it with comments := [] }
  | .method it =>
    .method { it with parameters := it.parameters.map Parameter.uncommented, comments := [] }

/-- An abstraction without comments, and without those of its members. -/
def Abstraction.uncommented (abstraction : Abstraction) : Abstraction :=
  { abstraction with
    comments := []
    members := abstraction.members.map Member.uncommented }

/-- A plan without comments. -/
def NodePlan.uncommented (plan : NodePlan) : NodePlan :=
  { plan with abstractions := plan.abstractions.map Abstraction.uncommented }

end QuerySurface.Plan

namespace QuerySurface.Traits

open Plan (Member Abstraction NodePlan)
open Layout (Scalars)

/-! ## Lines of comments in a text -/

/-- The lines of a text as they stand between its line feeds. -/
def linesOf (text : String) : List (List Char) :=
  Text.splitOn '\n' text.toList

/-- Whether a line is that of a comment: behind white space it starts with three slashes. -/
def isCommentLine (line : List Char) : Bool :=
  ['/', '/', '/'].isPrefixOf (Text.trimStart line)

/-- A text without its lines of comments. -/
def withoutComments (text : String) : String :=
  String.ofList (['\n'].intercalate ((linesOf text).filter (!isCommentLine ·)))

/-- Some lines are others with lines of comments between them. -/
inductive Commented : List (List Char) → List (List Char) → Prop where
  /-- No lines. -/
  | nil : Commented [] []
  /-- A line of both. -/
  | kept (line : List Char) {bare lines : List (List Char)} (rest : Commented bare lines) :
      Commented (line :: bare) (line :: lines)
  /-- A line of a comment. -/
  | comment {line : List Char} (is : isCommentLine line = true) {bare lines : List (List Char)}
      (rest : Commented bare lines) : Commented bare (line :: lines)

/-- Lines of comments make no difference to the lines that are none. -/
theorem Commented.filter_eq {bare lines : List (List Char)} (h : Commented bare lines) :
    lines.filter (!isCommentLine ·) = bare.filter (!isCommentLine ·) := by
  induction h with
  | nil => rfl
  | kept line _ ih => rw [List.filter_cons, List.filter_cons, ih]
  | comment his _ ih => rw [List.filter_cons_of_neg (by simp [his]), ih]

/-- The same lines behind commented ones. -/
theorem Commented.prepend (front : List (List Char)) {bare lines : List (List Char)}
    (h : Commented bare lines) : Commented (front ++ bare) (front ++ lines) := by
  induction front with
  | nil => exact h
  | cons line _ ih => exact .kept line ih

/-! ## Lines of a source -/

/-- Whether a line of a source is code. -/
def Line.isCode : Line → Bool
  | .comment _ _ => false
  | .code _ => true

/-- A line of a source is one line of its text, and that of a comment. -/
def Line.Contained (line : Line) : Prop :=
  linesOf line.text = [line.text.toList] ∧ isCommentLine line.text.toList = true

/-- The text of a source has the lines of its lines, and an empty one behind the last line feed. -/
theorem linesOf_sourceText (lines : List Line) :
    linesOf (sourceText lines) = lines.flatMap (fun line => linesOf line.text) ++ [[]] := by
  induction lines with
  | nil => rfl
  | cons line rest ih =>
    have htext : (sourceText (line :: rest)).toList =
        line.text.toList ++ '\n' :: (sourceText rest).toList := by
      simp [sourceText]
    rw [linesOf, htext, Text.splitOn_append_cons, List.flatMap_cons, List.append_assoc, ← ih]
    rfl

/-- If comments keep to lines of their own, a source is its code with lines of comments between. -/
theorem commented_sourceText {lines : List Line}
    (h : ∀ line ∈ lines, line.isCode = false → line.Contained) :
    Commented (linesOf (sourceText (lines.filter Line.isCode))) (linesOf (sourceText lines)) := by
  rw [linesOf_sourceText, linesOf_sourceText]
  induction lines with
  | nil => exact .kept [] .nil
  | cons line rest ih =>
    obtain ⟨hline, hrest⟩ := List.forall_mem_cons.mp h
    rw [List.flatMap_cons, List.append_assoc]
    cases hcode : line.isCode with
    | true =>
      rw [List.filter_cons_of_pos hcode, List.flatMap_cons, List.append_assoc]
      exact (ih hrest).prepend _
    | false =>
      obtain ⟨hone, his⟩ := hline hcode
      rw [List.filter_cons_of_neg (by simp [hcode]), hone]
      exact .comment his (ih hrest)

/-- Comments keep to lines of their own, whatever they say. -/
theorem contained_of_mem_commentLines {indentation : String}
    (hb : Text.Blanks indentation.toList) (hf : '\n' ∉ indentation.toList)
    {comments : List String} {line : Line} (h : line ∈ commentLines indentation comments) :
    line.Contained := by
  obtain ⟨comment, -, hm⟩ := List.mem_flatMap.mp h
  obtain ⟨text, ht, rfl⟩ := List.mem_map.mp hm
  have hfeed : '\n' ∉ text := Text.not_mem_of_mem_lines ht
  obtain ⟨more, hmore, htext⟩ : ∃ more, '\n' ∉ more ∧
      (Line.comment indentation (String.ofList text)).text.toList =
        indentation.toList ++ (['/', '/', '/'] ++ more) := by
    rw [Line.text]
    split
    · exact ⟨[], List.not_mem_nil, by simp⟩
    · exact ⟨' ' :: text, by simp [hfeed], by simp⟩
  have hslashes : Text.Solid ['/', '/', '/'] := ⟨by simp, by simp [Text.isBlank]⟩
  constructor
  · rw [linesOf, htext, Text.splitOn_of_not_mem]
    simp [hf, hmore]
  · rw [htext, isCommentLine, Text.trimStart_gap hb, Text.trimStart_solid hslashes]
    rfl

/-! ## Code of a source -/

/-- Comments are no code. -/
theorem filter_isCode_commentLines (indentation : String) (comments : List String) :
    (commentLines indentation comments).filter Line.isCode = [] := by
  rw [List.filter_eq_nil_iff]
  intro line hl
  obtain ⟨comment, -, hm⟩ := List.mem_flatMap.mp hl
  obtain ⟨text, -, rfl⟩ := List.mem_map.mp hm
  exact Bool.false_ne_true

/-- The code of separated blocks is the separated code of each. -/
theorem filter_isCode_separated (blocks : List (List Line)) :
    (separated blocks).filter Line.isCode =
      separated (blocks.map (List.filter Line.isCode)) := by
  fun_induction separated blocks with
  | case1 => rfl
  | case2 block => rfl
  | case3 block rest hrest ih =>
    obtain ⟨next, more, rfl⟩ := List.exists_cons_of_ne_nil hrest
    rw [List.filter_append, List.filter_cons_of_pos rfl, ih]
    rfl

variable (scalars : Scalars)

/-- The code of a member is the member without comments. -/
theorem filter_isCode_memberLines (member : Member) :
    (memberLines scalars member).filter Line.isCode = memberLines scalars member.uncommented := by
  cases member with
  | property property =>
    rw [memberLines, List.filter_append, filter_isCode_commentLines]
    rfl
  | method method =>
    have hparameters : (method.parameters.map Plan.Parameter.uncommented).map
        (parameterText scalars) = method.parameters.map (parameterText scalars) :=
      List.map_map
    rw [memberLines, List.filter_append, filter_isCode_commentLines, Member.uncommented,
      memberLines, methodText, methodText, hparameters]
    rfl

/-- Comments do not matter to what is inherited. -/
theorem ownMembers_uncommented (abstraction : Abstraction) :
    ownMembers abstraction.uncommented = (ownMembers abstraction).map Member.uncommented := by
  have hsame : ((!·.isOverride) ∘ Member.uncommented) = (!·.isOverride) := by
    funext member
    cases member <;> rfl
  rw [ownMembers, Abstraction.uncommented, List.filter_map, hsame, ownMembers]

/-- The code of a trait is the trait without comments. -/
theorem filter_isCode_traitLines (abstraction : Abstraction) :
    (traitLines scalars abstraction).filter Line.isCode =
      traitLines scalars abstraction.uncommented := by
  have hhead : traitHead abstraction.uncommented = traitHead abstraction := rfl
  have hmembers : ((ownMembers abstraction).map (memberLines scalars)).map
      (List.filter Line.isCode) =
        (ownMembers abstraction.uncommented).map (memberLines scalars) := by
    rw [ownMembers_uncommented, List.map_map, List.map_map]
    exact List.map_congr_left fun member _ => filter_isCode_memberLines scalars member
  have hempty : (ownMembers abstraction.uncommented).isEmpty =
      (ownMembers abstraction).isEmpty := by
    rw [ownMembers_uncommented, List.isEmpty_map]
  rw [traitLines, List.filter_append, filter_isCode_commentLines, traitLines, hhead, hempty]
  split
  case isTrue => rfl
  case isFalse =>
    rw [List.cons_append, List.filter_cons_of_pos rfl, List.filter_append,
      filter_isCode_separated, hmembers]
    rfl

/-- The code of a source is that of the plan without comments. -/
theorem filter_isCode_planLines (plan : NodePlan) :
    (planLines scalars plan).filter Line.isCode = planLines scalars plan.uncommented := by
  have htraits : (plan.abstractions.flatMap fun abstraction =>
      Line.code "" :: traitLines scalars abstraction).filter Line.isCode =
        plan.uncommented.abstractions.flatMap fun abstraction =>
          Line.code "" :: traitLines scalars abstraction := by
    rw [List.filter_flatMap, NodePlan.uncommented, List.flatMap_map]
    refine List.flatMap_congr fun abstraction _ => ?_
    rw [List.filter_cons_of_pos rfl, filter_isCode_traitLines]
  rw [planLines, List.filter_append, htraits]
  rfl

/-! ## Comments of a source -/

/-- The comments of a member keep to lines of their own. -/
theorem contained_of_mem_memberLines {member : Member} {line : Line}
    (h : line ∈ memberLines scalars member) (hc : line.isCode = false) : line.Contained := by
  have hall : memberIndentation.toList.all Text.isBlank = true := by decide
  have hcomment {comments : List String}
      (hm : line ∈ commentLines memberIndentation comments) : line.Contained :=
    contained_of_mem_commentLines (List.all_eq_true.mp hall) (by decide) hm
  cases member with
  | property property =>
    rcases List.mem_append.mp h with hm | hcode
    · exact hcomment hm
    · rw [List.mem_singleton.mp hcode] at hc
      cases hc
  | method method =>
    rcases List.mem_append.mp h with hm | hcode
    · exact hcomment hm
    · rw [List.mem_singleton.mp hcode] at hc
      cases hc

/-- The comments of a trait keep to lines of their own. -/
theorem contained_of_mem_traitLines {abstraction : Abstraction} {line : Line}
    (h : line ∈ traitLines scalars abstraction) (hc : line.isCode = false) : line.Contained := by
  rw [traitLines] at h
  rcases List.mem_append.mp h with hm | hbody
  · have hblank : Text.Blanks ("" : String).toList := Text.blanks_nil
    exact contained_of_mem_commentLines hblank List.not_mem_nil hm
  · split at hbody
    case isTrue =>
      rw [List.mem_singleton.mp hbody] at hc
      cases hc
    case isFalse =>
      rcases List.mem_append.mp hbody with hmembers | hclosing
      · rcases List.mem_cons.mp hmembers with rfl | hmember
        · cases hc
        · rcases mem_separated hmember with rfl | ⟨block, hb, hl⟩
          · cases hc
          · obtain ⟨member, -, rfl⟩ := List.mem_map.mp hb
            exact contained_of_mem_memberLines scalars hl hc
      · rw [List.mem_singleton.mp hclosing] at hc
        cases hc

/-- All comments of a source keep to lines of their own. -/
theorem contained_of_mem_planLines {plan : NodePlan} {line : Line}
    (h : line ∈ planLines scalars plan) (hc : line.isCode = false) : line.Contained := by
  rw [planLines] at h
  rcases List.mem_append.mp h with hopening | htraits
  · have hcode : (Line.isCode line) = true := by
      simp only [banner, scopeLines, List.cons_append, List.nil_append, List.mem_cons,
        List.not_mem_nil, or_false] at hopening
      rcases hopening with rfl | rfl | rfl | rfl | rfl <;> rfl
    exact absurd hcode (by simp [hc])
  · obtain ⟨abstraction, -, hl⟩ := List.mem_flatMap.mp htraits
    rcases List.mem_cons.mp hl with rfl | hl
    · cases hc
    · exact contained_of_mem_traitLines scalars hl hc

/-- Comments never leak into code. Without its lines of comments the source of a plan is that of the
plan without comments; and the former has all lines of the latter, in order, and between them
nothing but lines of comments. -/
theorem withoutComments_render (plan : NodePlan) :
    withoutComments (render scalars plan) = withoutComments (render scalars plan.uncommented) ∧
      Commented (linesOf (render scalars plan.uncommented)) (linesOf (render scalars plan)) := by
  have hcommented : Commented (linesOf (render scalars plan.uncommented))
      (linesOf (render scalars plan)) := by
    rw [render, render, ← filter_isCode_planLines]
    exact commented_sourceText fun line => contained_of_mem_planLines scalars
  refine ⟨?_, hcommented⟩
  rw [withoutComments, hcommented.filter_eq, withoutComments]

end QuerySurface.Traits

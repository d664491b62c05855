import QuerySurface.Json.Tree
import QuerySurface.Proofs.Json.Scanning

/-!
# Trees of written values

The tokens of a value are put together to the tree of the value, whatever lists and objects
are open around it, and nothing is left over at the top.
-/

namespace QuerySurface.Json

mutual

/-- The tree of a value. -/
def Value.tree : Value → Tree
  | .null => .null
  | .flag value => .flag value
  | .number value => .numeral value.numeral
  | .text value => .text value true
  | .array items => .array (itemTrees items) .closed
  | .object members => .object (memberTrees members) .closed

/-- Trees of elements. -/
def itemTrees : List Value → List Tree
  | [] => []
  | item :: rest => item.tree :: itemTrees rest

/-- Trees of members. -/
def memberTrees : List (String × Value) → List Member
  | [] => []
  | (key, value) :: rest => .mk key true value.tree :: memberTrees rest

end

/-- A place where a value may stand. -/
def Place.TakesValue : Place → Prop
  | .value | .firstItem | .nextItem => True
  | _ => False

namespace Parsed

/-- Goes on behind a step. -/
def resume (rest : List Token) : Step → Parsed
  | .on place frames => run place frames rest
  | .whole tree => ⟨tree, !rest.isEmpty⟩
  | .cut tree => ⟨tree, false⟩

/-- Tokens are taken one after the other. -/
theorem run_cons (place : Place) (frames : List Frame) (token : Token) (rest : List Token) :
    run place frames (token :: rest) = resume rest (step place frames token) := by
  rw [run]
  cases step place frames token <;> rfl

/-- A token that starts a value is handled alike wherever a value may stand. -/
theorem step_eq_stepValue {place : Place} (htakes : place.TakesValue) (frames : List Frame)
    {token : Token} (hother : token ≠ .rightBracket) :
    step place frames token = stepValue frames token := by
  cases place with
  | value => rfl
  | firstItem =>
    cases token with
    | rightBracket => exact absurd rfl hother
    | _ => rfl
  | nextItem =>
    cases token with
    | rightBracket => exact absurd rfl hother
    | _ => rfl
  | _ => exact htakes.elim

/-- Tokens that are put together to a tree, whatever is open around them. -/
def Delivers (tokens : List Token) (tree : Tree) : Prop :=
  ∀ place frames rest, place.TakesValue →
    run place frames (tokens ++ rest) = resume rest (deliver tree frames)

/-- Elements, the first at a place that takes a value, up to the closing bracket. -/
theorem run_items {items : List Value} (hdelivers : ∀ item ∈ items, Delivers item.tokens item.tree)
    (hsome : items ≠ []) {place : Place} (htakes : place.TakesValue) (done : List Tree)
    (frames : List Frame) (rest : List Token) :
    run place (.items done :: frames) (itemTokens items ++ .rightBracket :: rest) =
      resume rest (deliver (.array (done.reverse ++ itemTrees items) .closed) frames) := by
  induction items generalizing place done with
  | nil => exact absurd rfl hsome
  | cons item more ih =>
    have hfirst := hdelivers item List.mem_cons_self place (.items done :: frames)
    cases more with
    | nil =>
      rw [itemTokens, hfirst _ htakes]
      change run .separator (.items (item.tree :: done) :: frames) (.rightBracket :: rest) = _
      rw [run_cons]
      simp [step, itemTrees]
    | cons next more =>
      have hnext : Place.TakesValue .nextItem := trivial
      have hlater := ih (fun item hmem => hdelivers item (List.mem_cons_of_mem _ hmem)) (by simp)
        hnext (item.tree :: done)
      rw [itemTokens, List.append_assoc, hfirst _ htakes]
      · change run .separator (.items (item.tree :: done) :: frames) (.comma :: (_ ++ _)) = _
        rw [run_cons]
        change run .nextItem (.items (item.tree :: done) :: frames) _ = _
        rw [hlater, itemTrees, List.reverse_cons, List.append_assoc]
        rfl
      · simp

/-- Members, the first at the place of a key, up to the closing brace. -/
theorem run_members {members : List (String × Value)}
    (hdelivers : ∀ member ∈ members, Delivers member.2.tokens member.2.tree)
    (hsome : members ≠ []) {place : Place} (done : List Member)
    (hkey : place = .nextKey ∨ place = .firstKey ∧ done = []) (frames : List Frame)
    (rest : List Token) :
    run place (.members done :: frames) (memberTokens members ++ .rightBrace :: rest) =
      resume rest (deliver (.object (done.reverse ++ memberTrees members) .closed) frames) := by
  induction members generalizing place done with
  | nil => exact absurd rfl hsome
  | cons member more ih =>
    obtain ⟨name, value⟩ := member
    have hfirst (tail : List Token) :
        run place (.members done :: frames)
            (.text name true :: .colon :: (value.tokens ++ tail)) =
          run .separator (.members (.mk name true value.tree :: done) :: frames) tail := by
      have hopened : step place (.members done :: frames) (.text name true) =
          .on .colon (.member done name true :: frames) := by
        obtain rfl | ⟨rfl, rfl⟩ := hkey <;> rfl
      rw [run_cons, hopened]
      change run .colon _ (.colon :: _) = _
      rw [run_cons]
      exact hdelivers (name, value) List.mem_cons_self .value _ tail trivial
    cases more with
    | nil =>
      have hwhole := hfirst (.rightBrace :: rest)
      rw [memberTokens, List.cons_append, List.cons_append, hwhole, run_cons]
      simp [step, memberTrees]
    | cons next more =>
      have hlater := ih (fun member hmem => hdelivers member (List.mem_cons_of_mem _ hmem))
        (by simp) (.mk name true value.tree :: done) (.inl rfl)
      rw [memberTokens]
      · simp only [List.append_assoc, List.cons_append]
        rw [hfirst, run_cons]
        change run .nextKey (.members (.mk name true value.tree :: done) :: frames) _ = _
        rw [hlater, memberTrees, List.reverse_cons, List.append_assoc]
        rfl
      · simp

/-- A token that is a value on its own. -/
theorem delivers_alone {token : Token} {tree : Tree} (hother : token ≠ .rightBracket)
    (halone : ∀ frames, stepValue frames token = deliver tree frames) : Delivers [token] tree := by
  intro place frames rest htakes
  rw [List.singleton_append, run_cons, step_eq_stepValue htakes frames hother, halone]

/-- Elements between brackets. -/
theorem delivers_array {items : List Value}
    (heach : ∀ item ∈ items, Delivers item.tokens item.tree) :
    Delivers (Value.array items).tokens (Value.array items).tree := by
  intro place frames rest htakes
  have hopened : step place frames .leftBracket = stepValue frames .leftBracket :=
    step_eq_stepValue htakes frames nofun
  rw [Value.tokens, List.cons_append, List.cons_append, run_cons, hopened]
  change run .firstItem (.items [] :: frames) _ = _
  rw [List.append_assoc]
  by_cases hnone : items = []
  · subst hnone
    exact run_cons ..
  · have hfirst : Place.TakesValue .firstItem := trivial
    exact run_items heach hnone hfirst [] frames rest

/-- Members between braces. -/
theorem delivers_object {members : List (String × Value)}
    (heach : ∀ member ∈ members, Delivers member.2.tokens member.2.tree) :
    Delivers (Value.object members).tokens (Value.object members).tree := by
  intro place frames rest htakes
  have hopened : step place frames .leftBrace = stepValue frames .leftBrace :=
    step_eq_stepValue htakes frames nofun
  rw [Value.tokens, List.cons_append, List.cons_append, run_cons, hopened]
  change run .firstKey (.members [] :: frames) _ = _
  rw [List.append_assoc]
  by_cases hnone : members = []
  · subst hnone
    exact run_cons ..
  · exact run_members heach hnone [] (.inr ⟨rfl, rfl⟩) frames rest

mutual

/-- The tokens of a value are put together to its tree. -/
theorem delivers_tokens : (value : Value) → Delivers value.tokens value.tree
  | .null | .flag _ | .number _ | .text _ => delivers_alone nofun fun _ => rfl
  | .array items => delivers_array (delivers_items items)
  | .object members => delivers_object (delivers_members members)

/-- The tokens of every element are put together to its tree. -/
theorem delivers_items : (items : List Value) → ∀ item ∈ items, Delivers item.tokens item.tree
  | [] => by simp
  | item :: rest => List.forall_mem_cons.mpr ⟨delivers_tokens item, delivers_items rest⟩

/-- The tokens of every value of a member are put together to its tree. -/
theorem delivers_members : (members : List (String × Value)) →
    ∀ member ∈ members, Delivers member.2.tokens member.2.tree
  | [] => by simp
  | (_, value) :: rest => List.forall_mem_cons.mpr ⟨delivers_tokens value, delivers_members rest⟩

end

/-- The tokens of a value alone are put together to its tree, with nothing left over. -/
theorem run_tokens (value : Value) : run .value [] value.tokens = ⟨value.tree, false⟩ := by
  have hwhole := delivers_tokens value .value [] [] trivial
  rwa [List.append_nil] at hwhole

/-- The tree of the compact form. -/
theorem ofText_print {value : Value} (hsound : value.Sound) :
    ofText value.print = ⟨value.tree, false⟩ := by
  rw [ofText, Json.ofText_print hsound, run_tokens]

/-- The tree of the indented form. -/
theorem ofText_pretty {value : Value} (hsound : value.Sound) :
    ofText value.pretty = ⟨value.tree, false⟩ := by
  rw [ofText, Json.ofText_pretty hsound, run_tokens]

end Parsed

end QuerySurface.Json

import QuerySurface.Plan.Data
import QuerySurface.Proofs.Json.Maps

/-!
# Plans that are dumped

What plans are written as tells everything about them. The forms of members and types have words of
their own, comments that were left out are no comments, and a field that was left out is absent. So
plans can be read back, and what is read depends on the order of no object: it is the same for a
value and for what a reader makes of the text that the value is written as. Different plans
therefore have different values and different texts.
-/

namespace QuerySurface.Plan

open Json (Value nestingLimit)

/-! ## Reading what was written -/

/-- Elements that are read back one by one are read back together. -/
theorem mapM_map_eq_some {α β : Type} {write : α → β} {read : β → Option α}
    (h : ∀ item, read (write item) = some item) (items : List α) :
    (items.map write).mapM read = some items := by
  induction items with
  | nil => rfl
  | cons item rest ih =>
    rw [List.map_cons, List.mapM_cons, h, ih]
    rfl

/-- Texts are read back. -/
theorem textsAt?_of_get? {value : Value} {key : String} {texts : List String}
    (h : value.get? key = some (.texts texts)) : textsAt? value key = some texts := by
  have heach (text : String) : textOf? (.text text) = some text := rfl
  rw [textsAt?, itemsAt, h]
  exact mapM_map_eq_some heach texts

/-- Comments are read back, be they left out or not. -/
theorem textsAt?_comments {value : Value} {comments : List String}
    (h : value.get? "comments" = (Value.object (commentsMember comments)).get? "comments") :
    textsAt? value "comments" = some comments := by
  cases comments with
  | nil =>
    rw [textsAt?, itemsAt, h]
    rfl
  | cons comment rest => exact textsAt?_of_get? h

/-- A shape is told by its word. -/
theorem Shape.ofWord?_word (shape : Shape) : ofWord? shape.word = some shape := by
  cases shape <;> rfl

/-- No shape has the word of a configurator. -/
theorem Shape.word_ne (shape : Shape) : shape.word ≠ "configurator" := by
  cases shape <;> decide

/-- A family is told by its word. -/
theorem Family.ofWord?_word (family : Family) : ofWord? family.word = some family := by
  cases family <;> rfl

/-- A kind is told by its word. -/
theorem ofDocumentWord?_documentWord (kind : Schema.Kind) :
    Schema.Kind.ofDocumentWord? kind.documentWord = some kind := by
  cases kind <;> rfl

/-- A type is read back. -/
theorem TypeExpr.ofValue?_toValue (type : TypeExpr) : ofValue? type.toValue = some type := by
  cases type with
  | configurator target => rfl
  | value shape name list nullable =>
    have hword : textAt? (toValue (.value shape name list nullable)) "shape" = some shape.word :=
      rfl
    rw [ofValue?, hword]
    simp only [Option.bind_eq_bind, Option.bind_some, if_neg shape.word_ne, shape.ofWord?_word]
    rfl

/-- A parameter is read back. -/
theorem Parameter.ofValue?_toValue (parameter : Parameter) :
    ofValue? parameter.toValue = some parameter := by
  have hname : textAt? parameter.toValue "name" = some parameter.name := rfl
  have htype : parameter.toValue.get? "type" = some parameter.type.toValue := rfl
  have hcomments : textsAt? parameter.toValue "comments" = some parameter.comments :=
    textsAt?_comments rfl
  simp only [ofValue?, hname, htype, hcomments, TypeExpr.ofValue?_toValue, Option.bind_eq_bind,
    Option.bind_some]
  rfl

/-- A member is read back, and as what it is. -/
theorem Member.ofValue?_toValue (member : Member) : ofValue? member.toValue = some member := by
  cases member with
  | property it =>
    have hform : textAt? (toValue (.property it)) "member" = some "property" := rfl
    have hname : textAt? (toValue (.property it)) "name" = some it.name := rfl
    have htype : (toValue (.property it)).get? "type" = some it.type.toValue := rfl
    have hcomments : textsAt? (toValue (.property it)) "comments" = some it.comments :=
      textsAt?_comments rfl
    simp only [ofValue?, hform, hname, htype, hcomments, TypeExpr.ofValue?_toValue,
      Option.bind_eq_bind, Option.bind_some, if_true]
    rfl
  | method it =>
    have hform : textAt? (toValue (.method it)) "member" = some "method" := rfl
    have hname : textAt? (toValue (.method it)) "name" = some it.name := rfl
    have hparameters : itemsAt (toValue (.method it)) "parameters" =
      it.parameters.map Parameter.toValue := rfl
    have hcomments : textsAt? (toValue (.method it)) "comments" = some it.comments :=
      textsAt?_comments rfl
    simp only [ofValue?, hform, hname, hparameters, hcomments,
      mapM_map_eq_some Parameter.ofValue?_toValue, Option.bind_eq_bind, Option.bind_some,
      if_neg (show "method" ≠ "property" by decide), if_true]
    rfl

/-- An abstraction is read back, with comments or without and with a field or without. -/
theorem Abstraction.ofValue?_toValue (abstraction : Abstraction) :
    ofValue? abstraction.toValue = some abstraction := by
  obtain ⟨family, name, supertypes, comments, field, members⟩ := abstraction
  generalize hvalue : toValue ⟨family, name, supertypes, comments, field, members⟩ = value
  have hkind : textAt? value "kind" = some family.word := hvalue ▸ rfl
  have hname : textAt? value "name" = some name := hvalue ▸ rfl
  have hsupertypes : textsAt? value "supertypes" = some supertypes :=
    textsAt?_of_get? (hvalue ▸ rfl)
  have hcomments : textsAt? value "comments" = some comments := by
    refine textsAt?_comments ?_
    subst hvalue
    cases comments <;> cases field <;> rfl
  have hfield : textAt? value "field" = field := by
    subst hvalue
    cases comments <;> cases field <;> rfl
  have hmembers : itemsAt value "members" = members.map Member.toValue := by
    subst hvalue
    cases comments <;> cases field <;> rfl
  simp only [ofValue?, hkind, hname, hsupertypes, hcomments, hfield, hmembers,
    Family.ofWord?_word, mapM_map_eq_some Member.ofValue?_toValue, Option.bind_eq_bind,
    Option.bind_some]
  rfl

/-- A plan is read back. -/
theorem NodePlan.ofValue?_toValue (plan : NodePlan) : ofValue? plan.toValue = some plan := by
  have hnode : textAt? plan.toValue "node" = some plan.node := rfl
  have hkind : textAt? plan.toValue "kind" = some plan.kind.documentWord := rfl
  have habstractions : itemsAt plan.toValue "abstractions" =
    plan.abstractions.map Abstraction.toValue := rfl
  simp only [ofValue?, hnode, hkind, habstractions, ofDocumentWord?_documentWord,
    mapM_map_eq_some Abstraction.ofValue?_toValue, Option.bind_eq_bind, Option.bind_some]
  rfl

/-- Plans are read back. -/
theorem plansOfValue?_plansValue (plans : List NodePlan) :
    plansOfValue? (plansValue plans) = some plans :=
  mapM_map_eq_some NodePlan.ofValue?_toValue plans

/-! ## Reading the same values -/

section same

variable {value other : Value}

/-- Elements that are read alike one by one are read alike together. -/
theorem mapM_eq_of_forall₂ {α β : Type} {relation : α → α → Prop} {read : α → Option β}
    (h : ∀ item twin, relation item twin → read item = read twin) {items others : List α}
    (heach : List.Forall₂ relation items others) : items.mapM read = others.mapM read := by
  induction heach with
  | nil => rfl
  | cons hitem _ ih => rw [List.mapM_cons, List.mapM_cons, h _ _ hitem, ih]

/-- The same texts are one. -/
theorem textOf?_eq (item twin : Value) (h : item.Same twin) : textOf? item = textOf? twin := by
  cases h <;> rfl

section keys

variable (h : value.Same other) (key : String)
include h

/-- The same objects have the same text of a key. -/
theorem textAt?_eq : textAt? value key = textAt? other key := by
  rw [textAt?, textAt?]
  obtain ⟨hv, ho⟩ | ⟨found, twin, hv, ho, hsame⟩ := h.get?_cases key
  · rw [hv, ho]
  · rw [hv, ho]
    cases hsame <;> rfl

/-- The same objects have the same truth value of a key. -/
theorem flagAt_eq : flagAt value key = flagAt other key := by
  rw [flagAt, flagAt]
  obtain ⟨hv, ho⟩ | ⟨found, twin, hv, ho, hsame⟩ := h.get?_cases key
  · rw [hv, ho]
  · rw [hv, ho]
    cases hsame <;> rfl

/-- The same objects have the same elements of a key. -/
theorem forall₂_itemsAt : List.Forall₂ Value.Same (itemsAt value key) (itemsAt other key) := by
  rw [itemsAt, itemsAt]
  obtain ⟨hv, ho⟩ | ⟨found, twin, hv, ho, hsame⟩ := h.get?_cases key
  · rw [hv, ho]
    exact .nil
  · rw [hv, ho]
    cases hsame with
    | array heach => exact heach
    | _ => exact .nil

/-- The same objects have the same texts of a key. -/
theorem textsAt?_eq : textsAt? value key = textsAt? other key :=
  mapM_eq_of_forall₂ textOf?_eq (forall₂_itemsAt h key)

/-- What is read alike of the same values is read alike at a key. -/
theorem bind_get?_eq {α : Type} {read : Value → Option α}
    (hread : ∀ item twin : Value, item.Same twin → read item = read twin) :
    (value.get? key).bind read = (other.get? key).bind read := by
  obtain ⟨hv, ho⟩ | ⟨found, twin, hv, ho, hsame⟩ := h.get?_cases key
  · rw [hv, ho]
  · rw [hv, ho]
    exact hread found twin hsame

end keys

/-- The same types are one. -/
theorem TypeExpr.ofValue?_eq (value other : Value) (h : value.Same other) :
    ofValue? value = ofValue? other := by
  simp only [ofValue?, textAt?_eq h, flagAt_eq h]

/-- The same parameters are one. -/
theorem Parameter.ofValue?_eq (value other : Value) (h : value.Same other) :
    ofValue? value = ofValue? other := by
  simp only [ofValue?, textAt?_eq h, flagAt_eq h, textsAt?_eq h,
    bind_get?_eq h "type" TypeExpr.ofValue?_eq]

/-- The same members are one. -/
theorem Member.ofValue?_eq (value other : Value) (h : value.Same other) :
    ofValue? value = ofValue? other := by
  simp only [ofValue?, textAt?_eq h, flagAt_eq h, textsAt?_eq h,
    bind_get?_eq h "type" TypeExpr.ofValue?_eq,
    mapM_eq_of_forall₂ Parameter.ofValue?_eq (forall₂_itemsAt h "parameters")]

/-- The same abstractions are one. -/
theorem Abstraction.ofValue?_eq (value other : Value) (h : value.Same other) :
    ofValue? value = ofValue? other := by
  simp only [ofValue?, textAt?_eq h, textsAt?_eq h,
    mapM_eq_of_forall₂ Member.ofValue?_eq (forall₂_itemsAt h "members")]

/-- The same plans are one. -/
theorem NodePlan.ofValue?_eq (value other : Value) (h : value.Same other) :
    ofValue? value = ofValue? other := by
  simp only [ofValue?, textAt?_eq h,
    mapM_eq_of_forall₂ Abstraction.ofValue?_eq (forall₂_itemsAt h "abstractions")]

/-- The same lists of plans are one. -/
theorem plansOfValue?_eq (h : value.Same other) : plansOfValue? value = plansOfValue? other := by
  cases h with
  | array heach => exact mapM_eq_of_forall₂ NodePlan.ofValue?_eq heach
  | _ => rfl

end same

/-! ## Plain values -/

section plain

variable (room : Nat)

/-- Written elements are plain if each of them is. -/
theorem plain_array_map {α : Type} {write : α → Value} {room : Nat}
    (h : ∀ item, (write item).Plain room) (items : List α) :
    (Value.array (items.map write)).Plain (room + 1) :=
  .array (List.forall_mem_map.mpr fun item _ => h item)

/-- Texts are plain. -/
theorem plain_texts (texts : List String) : (Value.texts texts).Plain (room + 1) :=
  plain_array_map (.text room) texts

/-- An object with comments is plain if the rest of it is, be the comments left out or not. -/
theorem plain_commented {members : List (String × Value)}
    (hkeys : (members.map Prod.fst ++ ["comments"]).Nodup)
    (heach : ∀ member ∈ members, member.2.Plain (room + 1)) (comments : List String) :
    (Value.object (members ++ commentsMember comments)).Plain (room + 2) := by
  cases comments with
  | nil =>
    have hnothing : members ++ commentsMember [] = members := List.append_nil members
    rw [hnothing]
    exact .object (hkeys.sublist (List.sublist_append_left _ _)) heach
  | cons comment rest =>
    refine .object (List.map_append ▸ hkeys) (List.forall_mem_append.mpr ⟨heach, ?_⟩)
    exact List.forall_mem_singleton.mpr (plain_texts room _)

/-- A type is plain. -/
theorem TypeExpr.plain_toValue (type : TypeExpr) : type.toValue.Plain (room + 1) := by
  cases type with
  | configurator target => exact .object (by simp) (by simp [Value.Plain.text])
  | value shape name list nullable =>
    exact .object (by simp) (by simp [Value.Plain.text, Value.Plain.flag])

/-- A parameter is plain. -/
theorem Parameter.plain_toValue (parameter : Parameter) : parameter.toValue.Plain (room + 2) := by
  refine plain_commented room (by simp) ?_ parameter.comments
  simp [Value.Plain.text, Value.Plain.flag, TypeExpr.plain_toValue]

/-- A member is plain. -/
theorem Member.plain_toValue (member : Member) : member.toValue.Plain (room + 4) := by
  cases member with
  | property it =>
    refine plain_commented (room + 2) (by simp) ?_ it.comments
    simp [Value.Plain.text, Value.Plain.flag, TypeExpr.plain_toValue]
  | method it =>
    refine plain_commented (room + 2) (by simp) ?_ it.comments
    simp [Value.Plain.text, Value.Plain.flag, plain_array_map, Parameter.plain_toValue]

/-- An abstraction is plain. -/
theorem Abstraction.plain_toValue (abstraction : Abstraction) :
    abstraction.toValue.Plain (room + 6) := by
  obtain ⟨family, name, supertypes, comments, field, members⟩ := abstraction
  refine .object ?_ ?_
  · cases comments <;> cases field <;> simp [commentsMember]
  · have hmembers : (Value.array (members.map Member.toValue)).Plain (room + 5) :=
      plain_array_map (Member.plain_toValue room) members
    cases comments <;> cases field <;>
      simp [commentsMember, Value.Plain.text, plain_texts, hmembers]

/-- A plan is plain. -/
theorem NodePlan.plain_toValue (plan : NodePlan) : plan.toValue.Plain (room + 8) := by
  refine .object (by simp) ?_
  simp [Value.Plain.text, plain_array_map, Abstraction.plain_toValue]

/-- Plans are plain. -/
theorem plain_plansValue (plans : List NodePlan) : (plansValue plans).Plain (room + 9) :=
  plain_array_map (NodePlan.plain_toValue room) plans

end plain

/-- Plans can be read back from both texts that they are written as. -/
theorem exists_parse (plans : List NodePlan) :
    ∃ value, Value.parse (plansValue plans).print = .ok value ∧
      Value.parse (plansValue plans).pretty = .ok value ∧ plansOfValue? value = some plans := by
  obtain ⟨value, hprint, hpretty, hsame⟩ := (plain_plansValue (nestingLimit - 9) plans).exists_parse
  exact ⟨value, hprint, hpretty, (plansOfValue?_eq hsame).trans (plansOfValue?_plansValue plans)⟩

section injective

variable {plans others : List NodePlan}

/-- The same value is that of the same plans. -/
theorem same_plansValue_iff : (plansValue plans).Same (plansValue others) ↔ plans = others := by
  constructor
  · intro h
    have hread := plansOfValue?_eq h
    rw [plansOfValue?_plansValue, plansOfValue?_plansValue] at hread
    exact Option.some.inj hread
  · rintro rfl
    exact .refl _

/-- The same text is that of the same plans, if they are read back from what is parsed of it. -/
theorem text_plansValue_iff {write : Value → String}
    (h : ∀ plans, ∃ value, Value.parse (write (plansValue plans)) = .ok value ∧
      plansOfValue? value = some plans) :
    write (plansValue plans) = write (plansValue others) ↔ plans = others := by
  constructor
  · intro ht
    obtain ⟨value, hparse, hread⟩ := h plans
    obtain ⟨twin, htwin, hother⟩ := h others
    rw [← ht, hparse] at htwin
    obtain rfl := Except.ok.inj htwin
    exact Option.some.inj (hread.symm.trans hother)
  · rintro rfl
    rfl

end injective

/-- Nothing is lost when plans are dumped. Plans are read back from their value, and from what is
parsed of either text that the value is written as. So plans are equal exactly if their values are
the same, in whatever order the members of an object stand, and exactly if either text is the
same. -/
theorem plansValue_lossless (plans : List NodePlan) :
    plansOfValue? (plansValue plans) = some plans ∧
      (∃ value, Value.parse (plansValue plans).print = .ok value ∧
        Value.parse (plansValue plans).pretty = .ok value ∧ plansOfValue? value = some plans) ∧
      ∀ others,
        ((plansValue plans).Same (plansValue others) ↔ plans = others) ∧
        ((plansValue plans).print = (plansValue others).print ↔ plans = others) ∧
        ((plansValue plans).pretty = (plansValue others).pretty ↔ plans = others) := by
  have hprint (plans : List NodePlan) : ∃ value,
      Value.parse (plansValue plans).print = .ok value ∧ plansOfValue? value = some plans := by
    obtain ⟨value, hprint, -, hread⟩ := exists_parse plans
    exact ⟨value, hprint, hread⟩
  have hpretty (plans : List NodePlan) : ∃ value,
      Value.parse (plansValue plans).pretty = .ok value ∧ plansOfValue? value = some plans := by
    obtain ⟨value, -, hpretty, hread⟩ := exists_parse plans
    exact ⟨value, hpretty, hread⟩
  exact ⟨plansOfValue?_plansValue plans, exists_parse plans, fun others =>
    ⟨same_plansValue_iff, text_plansValue_iff hprint, text_plansValue_iff hpretty⟩⟩

end QuerySurface.Plan

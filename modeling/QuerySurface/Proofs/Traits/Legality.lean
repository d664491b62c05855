import QuerySurface.Proofs.Plan.Names
import QuerySurface.Proofs.Traits.Signatures

/-!
# Identifiers that a source declares

A source declares traits, methods and parameters, and the root declares modules. Their names are
made of the names of a schema and of a layout, and not every name is an identifier of the language:
it keeps some words for itself, and a lone underscore names nothing. Methods, parameters and
modules are escaped, so that only the lone underscore is left; traits are not. Here it is said
exactly which names of a schema lead to a declaration that is no identifier.
-/

namespace QuerySurface.Traits

open Plan (Abstraction Engine Family Label Member Method NodePlan Nests Parameter Property View
  generate nestedLabel unwantedNames)
open Schema (Argument Field Graph Node SchemaStep Strictness)
open Layout (Decoration Scalars)
open Text (IsName)
open Emitted (fileOf moduleOf modulesOf rootFile)

/-! ## Identifiers of the language -/

/-- Keywords of the 2021 edition that are in use. -/
def strictWords : List String :=
  [ "as", "async", "await", "break", "const", "continue", "crate", "dyn", "else", "enum", "extern",
    "false", "fn", "for", "if", "impl", "in", "let", "loop", "match", "mod", "move", "mut", "pub",
    "ref", "return", "self", "Self", "static", "struct", "super", "trait", "true", "type",
    "unsafe", "use", "where", "while" ]

/-- Words that the 2021 edition reserves. -/
def reservedWords : List String :=
  [ "abstract", "become", "box", "do", "final", "macro", "override", "priv", "try", "typeof",
    "unsized", "virtual", "yield" ]

/-- Words that name nothing: those that the language keeps, and the lone underscore. -/
def keptWords : List String :=
  "_" :: strictWords ++ reservedWords

/-- Identifiers, plain ones and raw ones. -/
inductive Legal : String → Prop where
  /-- A name that is not kept. -/
  | plain {word : String} (name : IsName word.toList) (free : word ∉ keptWords) : Legal word
  /-- A name behind the mark of a raw identifier, which not every word may have. -/
  | raw {word : String} (name : IsName word.toList)
      (allowed : word ∉ ["_", "crate", "self", "super", "Self"]) : Legal ("r#" ++ word)

/-- A name is an identifier exactly if it is not kept. -/
theorem legal_name_iff {word : String} (h : IsName word.toList) :
    Legal word ↔ word ∉ keptWords := by
  constructor
  · intro hlegal
    cases hlegal with
    | plain _ hfree => exact hfree
    | raw hname hallowed =>
      have hmark : '#' ∉ ("r#" ++ _ : String).toList := IsWord.not_mem h.isWordChar (by decide)
      exact absurd (by simp) hmark
  · exact .plain h

/-- Kept words are no identifiers. -/
theorem not_legal_of_mem {word : String} (h : word ∈ keptWords) : ¬Legal word := by
  have hnames : ∀ kept ∈ keptWords, IsName kept.toList := by decide
  rw [legal_name_iff (hnames word h)]
  exact not_not_intro h

/-- Kept words are small letters behind their first character. -/
theorem legal_of_mem_tail {word : String} (h : IsName word.toList) {c : Char}
    (hc : c ∈ word.toList.tail) (hl : c.isLower = false) : Legal word := by
  have hsmall : ∀ kept ∈ keptWords, kept.toList.tail.all Char.isLower = true := by decide
  rw [legal_name_iff h]
  intro hm
  rw [List.all_eq_true.mp (hsmall word hm) c hc] at hl
  cases hl

/-- What has a capitalised name inside is no kept word. -/
theorem legal_of_capital {front name back : String} (hf : front ≠ "") (hn : IsName name.toList)
    (h : IsName (front ++ Text.capitalize name ++ back).toList) :
    Legal (front ++ Text.capitalize name ++ back) := by
  obtain ⟨c, rest, hname, hcapital⟩ := hn.exists_capitalize
  rw [hname, Text.isName_cons_iff] at hn
  obtain ⟨first, more, hfront⟩ := List.exists_cons_of_ne_nil (String.toList_eq_nil_iff.not.mpr hf)
  refine legal_of_mem_tail h (c := c.toUpper) ?_ (Text.isLower_toUpper hn.1)
  simp [hfront, hcapital]

/-! ## Escaped names -/

/-- An escaped name is an identifier unless it is a lone underscore. -/
theorem legal_escapeKeyword_iff {name : String} (h : IsName name.toList) :
    Legal (escapeKeyword name) ↔ name ≠ "_" := by
  by_cases hp : name ∈ pathKeywords
  · have hplain : ∀ word ∈ pathKeywords, word ≠ "_" ∧ IsName (word ++ "_").toList ∧
        word ++ "_" ∉ keptWords := by
      decide
    obtain ⟨hlone, hname, hfree⟩ := hplain name hp
    rw [escapeKeyword, if_pos (List.contains_iff_mem.mpr hp)]
    exact iff_of_true (.plain hname hfree) hlone
  · rw [escapeKeyword, if_neg (by simpa using hp)]
    by_cases hk : name ∈ keywords
    · have hlone : name ≠ "_" := by
        rintro rfl
        exact absurd hk (by decide)
      have hallowed : name ∉ ["_", "crate", "self", "super", "Self"] := by
        have hrest : ∀ word ∈ ["_", "crate", "self", "super", "Self"],
            word ∈ pathKeywords ∨ word ∉ keywords := by
          decide
        intro hm
        rcases hrest name hm with hpath | hno
        · exact hp hpath
        · exact hno hk
      rw [if_pos (List.contains_iff_mem.mpr hk)]
      exact iff_of_true (.raw h hallowed) hlone
    · -- Every other kept word is escaped, so the lists of the program miss none.
      have hcovered : ∀ word ∈ keptWords,
          word = "_" ∨ word ∈ pathKeywords ∨ word ∈ keywords := by
        decide
      rw [if_neg (by simpa using hk), legal_name_iff h, not_iff_not]
      constructor
      · intro hm
        rcases hcovered name hm with hlone | hpath | hkeyword
        · exact hlone
        · exact absurd hpath hp
        · exact absurd hkeyword hk
      · rintro rfl
        exact List.mem_cons_self

/-- The snake case of a word starts with the lower case of its first character. -/
theorem exists_snakeFrom {c : Char} (h : Text.isWordChar c = true) (rest : List Char) :
    ∃ lower, snakeFrom false (c :: rest) = c.toLower :: snakeFrom lower rest := by
  rw [snakeFrom]
  cases hupper : c.isUpper with
  | true => exact ⟨false, rfl⟩
  | false =>
    have hseparator : (c == '-' || c == ' ') = false :=
      Text.of_isWordChar (fun c => (c == '-' || c == ' ') = false) (by decide) h
    rw [if_neg Bool.false_ne_true, hseparator, if_neg Bool.false_ne_true,
      toLower_of_isUpper hupper]
    exact ⟨_, rfl⟩

/-- The snake case of a name is a name. -/
theorem isName_snakeCase {name : String} (h : IsName name.toList) :
    IsName (snakeCase name).toList := by
  have hword : IsWord (snakeCase name) := (isWord_of_isName h).snakeCase
  rw [IsWord, snakeCase, String.toList_ofList] at hword
  rw [snakeCase, String.toList_ofList]
  cases hname : name.toList with
  | nil => exact absurd hname h.ne_nil
  | cons c rest =>
    rw [hname, Text.isName_cons_iff] at h
    obtain ⟨lower, hsnake⟩ := exists_snakeFrom h.1 rest
    rw [hname, hsnake, List.forall_mem_cons] at hword
    rw [hsnake, Text.isName_cons_iff]
    exact ⟨hword.1, Text.isDigit_toLower h.1 h.2.1, hword.2⟩

/-- A name is in snake case a lone underscore only if it is one. -/
theorem snakeCase_eq_lone_iff {name : String} (h : IsName name.toList) :
    snakeCase name = "_" ↔ name = "_" := by
  constructor
  · intro he
    have hlist : snakeFrom false name.toList = ['_'] := by
      rw [← String.toList_ofList (l := snakeFrom false name.toList), ← snakeCase, he]
      rfl
    cases hname : name.toList with
    | nil => exact absurd hname h.ne_nil
    | cons c rest =>
      rw [hname, Text.isName_cons_iff] at h
      obtain ⟨lower, hsnake⟩ := exists_snakeFrom h.1 rest
      rw [hname, hsnake] at hlist
      obtain ⟨hfirst, hrest⟩ := List.cons.inj hlist
      have hc : c = '_' :=
        Text.of_isWordChar (fun c => c.toLower = '_' → c = '_') (by decide) h.1 hfirst
      cases rest with
      | nil => rw [← String.toList_inj, hname, hc]; rfl
      | cons d more =>
        rw [snakeFrom] at hrest
        split at hrest
        · simp at hrest
        · split at hrest <;> cases hrest
  · rintro rfl
    rfl

/-- The identifier of a member or parameter is one unless its name is a lone underscore. -/
theorem legal_identifier_iff {name : String} (h : IsName name.toList) :
    Legal (identifier name) ↔ name ≠ "_" := by
  rw [identifier, legal_escapeKeyword_iff (isName_snakeCase h), Ne, snakeCase_eq_lone_iff h]

/-- The name of a setter is an identifier. -/
theorem legal_setter {name : String} (h : IsName name.toList) :
    Legal ("set_" ++ snakeCase name) := by
  have hset : IsName ("set_" : String).toList := by decide
  have hname : IsName ("set_" ++ snakeCase name).toList := by
    rw [String.toList_append]
    exact hset.append (isName_snakeCase h).isWordChar
  exact legal_of_mem_tail hname (c := '_') (by simp) (by decide)

/-! ## Names of traits -/

/-- The name of a label is kept: the layout puts nothing in front of the node, and what it puts
behind makes a kept word of it. -/
def KeptName (decorations : Layout.Decorations) (label : Label) : Prop :=
  label.field = none ∧ (label.family.decoration decorations).front = none ∧
    label.node ++ (label.family.decoration decorations).tail ∈ keptWords

/-- What is decorated is a name. -/
theorem isName_stem {label : Label} (hn : IsName label.node.toList)
    (hf : ∀ field, label.field = some field → IsName field.toList) :
    IsName label.stem.toList := by
  rw [Label.stem]
  cases hfield : label.field with
  | none => exact hn
  | some field => exact Layout.isName_joined hn (hf field hfield)

/-- The name of a label is an identifier unless it is kept. -/
theorem legal_name_label_iff {layout : Layout} (hc : layout.Accepted) {label : Label}
    (hn : IsName label.node.toList)
    (hf : ∀ field, label.field = some field → IsName field.toList) :
    Legal (label.name layout.decorations) ↔ ¬KeptName layout.decorations label := by
  have hd : (label.family.decoration layout.decorations).WellFormed :=
    Plan.wellFormed_decoration hc label.family
  have hstem : IsName label.stem.toList := isName_stem hn hf
  have hname : IsName (label.name layout.decorations).toList := Decoration.isName_apply hd hstem
  cases hfront : (label.family.decoration layout.decorations).front with
  | some front =>
    have hne : front ≠ "" := by
      rintro rfl
      exact hd.front_ne hfront
    rw [Label.name, Decoration.apply_of_front_eq_some hfront] at hname ⊢
    refine iff_of_true (legal_of_capital hne hstem hname) ?_
    rintro ⟨-, hnone, -⟩
    cases hfront.symm.trans hnone
  | none =>
    rw [Label.name, Decoration.apply_of_front_eq_none hfront, Label.stem] at hname ⊢
    cases hfield : label.field with
    | none =>
      rw [hfield] at hname
      rw [legal_name_iff hname, KeptName, and_iff_right hfield, and_iff_right hfront]
    | some field =>
      -- The capital of the field stands behind the node, so no prefix is needed.
      rw [hfield] at hname
      have hne : label.node ≠ "" := fun he => hn.ne_nil (String.toList_eq_nil_iff.mpr he)
      refine iff_of_true (legal_of_capital hne (hf field hfield) hname) ?_
      rintro ⟨hnone, -⟩
      cases hfield.symm.trans hnone

/-! ## Names of methods -/

/-- A method in the trait of an abstraction of a node, given by its family, is made from a field
that is a lone underscore. -/
def LoneMethod (graph : Graph) (node : Node) : Family → Prop
  | .entity => ∃ field ∈ ownFields .entity graph node, field.name = "_"
  | .projection => ∃ field ∈ ownFields .projection graph node, field.name = "_"
  | .qualification | .qualifiedProjection | .selection | .query => False

section methods

variable {graph : Graph} {layout : Layout} {node : Node}

/-- The methods of a view are identifiers unless one of its own fields is a lone underscore. -/
theorem legal_names_view (hw : WellNamed graph) (hn : node ∈ graph.nodes) (scalars : Scalars)
    (view : View) :
    (∀ member ∈ ownMembers (view.abstraction ⟨graph, layout⟩ node),
        Legal (signature scalars member).name) ↔
      ¬∃ field ∈ ownFields view graph node, field.name = "_" := by
  rw [ownMembers_abstraction, List.forall_mem_map, not_exists]
  refine forall_congr' fun field => ?_
  rw [not_and]
  refine imp_congr_right fun hf => ?_
  rw [name_signature_member,
    legal_identifier_iff (hw.fields node hn field (List.mem_filter.mp hf).1)]

/-- Members that narrow are identifiers: they are never as short as a lone underscore. -/
theorem legal_name_narrowing (hc : layout.Accepted) (scalars : Scalars) {object : Node}
    (ho : IsName object.name.toList) :
    Legal (signature scalars (.method ((Engine.mk graph layout).narrowing object))).name := by
  have hd : layout.decorations.onSubtype.WellFormed := hc.wellFormed_onSubtype
  have hlonger : object.name.length < (layout.decorations.onSubtype.apply object.name).length :=
    Decoration.length_lt_apply hd hc.onSubtype ho
  change Legal (identifier (layout.decorations.onSubtype.apply object.name))
  rw [legal_identifier_iff (Decoration.isName_apply hd ho)]
  intro hlone
  rw [hlone] at hlonger
  have hempty : object.name.length = 0 := Nat.lt_one_iff.mp hlonger
  exact ho.ne_nil (String.toList_eq_nil_iff.mpr (String.length_eq_zero_iff.mp hempty))

/-- The methods in the trait of an abstraction are identifiers unless one of them is made from a
field that is a lone underscore. -/
theorem legal_names_iff (hw : WellNamed graph) (hc : layout.Accepted) (hn : node ∈ graph.nodes)
    (scalars : Scalars) {removed : List String} {abstraction : Abstraction}
    (hm : abstraction ∈ (Engine.mk graph layout).abstractions node) :
    (∀ signature ∈ signatures scalars (abstraction.without removed), Legal signature.name) ↔
      ¬LoneMethod graph node abstraction.family := by
  have hnames : (∀ signature ∈ signatures scalars (abstraction.without removed),
      Legal signature.name) ↔
        ∀ member ∈ ownMembers abstraction, Legal (signature scalars member).name := by
    rw [← List.forall_mem_map, names_signatures_without, List.forall_mem_map]
  rw [hnames]
  obtain ⟨-, rfl | rfl | ⟨-, rfl | rfl⟩ | ⟨field, hf, -, rfl | rfl⟩⟩ :=
    Engine.mem_abstractions_iff _ |>.mp hm
  · exact legal_names_view hw hn scalars .entity
  · exact legal_names_view hw hn scalars .projection
  · refine iff_of_true ?_ id
    rw [ownMembers_qualificationOf, List.forall_mem_map]
    intro object ho
    exact legal_name_narrowing hc scalars (hw.nodes object (Schema.mem_possibleObjects ho).1)
  · exact iff_of_true (List.forall_mem_nil _) id
  · refine iff_of_true ?_ id
    rw [ownMembers_selection, List.forall_mem_map]
    intro argument ha
    exact legal_setter (hw.arguments node hn field hf argument (List.mem_filter.mp ha).1)
  · exact iff_of_true (List.forall_mem_nil _) id

end methods

/-! ## Names of parameters -/

/-- A parameter of the selector of a field is made from a lone underscore. -/
inductive LoneSelector (graph : Graph) (layout : Layout) (node : Node) (field : Field) : Prop
  /-- An argument. -/
  | argument {argument : Argument} (unselected : graph.isSelection field = false)
      (argument_mem : argument ∈ field.arguments) (lone : argument.name = "_") :
      LoneSelector graph layout node field
  /-- The parameter that the layout names for what is selected of the value. -/
  | nested {target : Node} (unselected : graph.isSelection field = false)
      (nests : Nests graph field target) (free : (nestedLabel target).isFree graph layout = true)
      (lone : layout.parameters.projection = "_") : LoneSelector graph layout node field
  /-- The parameter that the layout names for the query of the field. -/
  | query (selected : graph.isSelection field = true)
      (free : (Label.ofField .query node field).isFree graph layout = true)
      (lone : layout.parameters.query = "_") : LoneSelector graph layout node field

/-- A parameter of a method in the trait of an abstraction of a node, given by its family, is made
from a lone underscore. -/
def LoneParameter (graph : Graph) (layout : Layout) (node : Node) : Family → Prop
  | .projection =>
    ∃ field ∈ ownFields .projection graph node, LoneSelector graph layout node field
  | .qualification =>
    ∃ object ∈ graph.possibleObjects node,
      (Label.ofNode .projection object).isFree graph layout = true ∧
        layout.parameters.projection = "_"
  | .entity | .qualifiedProjection | .selection | .query => False

/-- The parameters of a method are identifiers unless one of their names is a lone underscore. -/
theorem legal_parameters_method_iff (scalars : Scalars) {method : Method}
    (hw : ∀ parameter ∈ method.parameters, IsName parameter.name.toList) :
    (∀ parameter ∈ (signature scalars (.method method)).parameters, Legal parameter.1) ↔
      "_" ∉ method.parameters.map Parameter.name := by
  rw [signature, List.forall_mem_map, List.mem_map, not_exists]
  refine forall_congr' fun parameter => ?_
  rw [not_and]
  exact imp_congr_right fun hp => legal_identifier_iff (hw parameter hp)

/-- The parameters of a property are identifiers. -/
theorem legal_parameters_property (scalars : Scalars) (property : Property) :
    ∀ parameter ∈ (signature scalars (.property property)).parameters, Legal parameter.1 := by
  have hvalue : Legal "value" := .plain (by decide) (by decide)
  rw [signature]
  cases property.isMutable with
  | true => exact List.forall_mem_singleton.mpr hvalue
  | false => exact List.forall_mem_nil _

section parameters

variable {graph : Graph} {layout : Layout} {node : Node} {field : Field}

/-- The parameters of a selector have names. -/
theorem isName_selectorParameters (hc : layout.Accepted)
    (ha : ∀ argument ∈ field.arguments, IsName argument.name.toList) :
    ∀ parameter ∈ (Engine.mk graph layout).selectorParameters node field,
      IsName parameter.name.toList := by
  have harguments (hasDefault : Bool) (keep : Argument → Bool) :
      ∀ parameter ∈ (field.arguments.filter keep).map
          ((Engine.mk graph layout).argumentParameter hasDefault),
        IsName parameter.name.toList := by
    rw [List.forall_mem_map]
    exact fun argument hm => ha argument (List.mem_filter.mp hm).1
  have hconfigurator :
      IsName ((Engine.mk graph layout).configurator node field).name.toList := by
    rw [Engine.configurator]
    split
    · exact Text.isIdentifier_iff.mp hc.queryParameter
    · exact Text.isIdentifier_iff.mp hc.projectionParameter
  rw [Engine.selectorParameters]
  simp only [List.forall_mem_append]
  refine ⟨⟨harguments _ _, ?_⟩, ?_⟩
  · split
    · exact List.forall_mem_nil _
    · exact harguments _ _
  · split
    · exact List.forall_mem_singleton.mpr hconfigurator
    · exact List.forall_mem_nil _

/-- A name in the selector of a field is that of an argument, unless the field has a selection, or
that of what configures the value. -/
theorem mem_names_selector_iff {name : String} :
    name ∈ (((Engine.mk graph layout).selectorParameters node field).filter
        (Parameter.stays (unwantedNames graph layout))).map Parameter.name ↔
      (graph.isSelection field = false ∧ name ∈ Catalog.names field.arguments) ∨
        name ∈ (configuring graph layout node field).map Parameter.name := by
  cases hs : graph.isSelection field with
  | true => simp [filter_selectorParameters_of_isSelection hs]
  | false => simp [(perm_names_selector hs).mem_iff]

/-- A parameter of a selector is a lone underscore exactly if it is made from one. -/
theorem loneSelector_iff :
    "_" ∈ (((Engine.mk graph layout).selectorParameters node field).filter
        (Parameter.stays (unwantedNames graph layout))).map Parameter.name ↔
      LoneSelector graph layout node field := by
  rw [mem_names_selector_iff]
  constructor
  · rintro (⟨hs, hm⟩ | hm)
    · obtain ⟨argument, ha, hlone⟩ := List.mem_map.mp hm
      exact .argument hs ha hlone
    · cases hs : graph.isSelection field with
      | true =>
        obtain ⟨hlone, hfree⟩ := (mem_configuring_iff_of_isSelection hs).mp hm
        exact .query hs hfree hlone.symm
      | false =>
        obtain ⟨hlone, target, hn, hfree⟩ := (mem_configuring_iff node hs).mp hm
        exact .nested hs hn hfree hlone.symm
  · intro h
    cases h with
    | argument hs ha hlone => exact .inl ⟨hs, List.mem_map.mpr ⟨_, ha, hlone⟩⟩
    | nested hs hn hfree hlone =>
      exact .inr ((mem_configuring_iff node hs).mpr ⟨hlone.symm, _, hn, hfree⟩)
    | query hs hfree hlone =>
      exact .inr ((mem_configuring_iff_of_isSelection hs).mpr ⟨hlone.symm, hfree⟩)

/-- The parameters of a selector are identifiers unless one of them is made from a lone
underscore. -/
theorem legal_parameters_selector (hc : layout.Accepted)
    (ha : ∀ argument ∈ field.arguments, IsName argument.name.toList) (scalars : Scalars) :
    (∀ parameter ∈ (signature scalars
        ((Member.method ((Engine.mk graph layout).selector node field)).without
          (unwantedNames graph layout))).parameters, Legal parameter.1) ↔
      ¬LoneSelector graph layout node field := by
  have hnames : ∀ parameter ∈ (Engine.mk graph layout).selectorParameters node field,
      IsName parameter.name.toList :=
    isName_selectorParameters hc ha
  rw [← loneSelector_iff]
  exact legal_parameters_method_iff scalars
    fun parameter hp => hnames parameter (List.mem_filter.mp hp).1

/-- The parameter of a member that narrows is an identifier unless it stays and the layout makes it
a lone underscore. -/
theorem legal_parameters_narrowing (hc : layout.Accepted) (object : Node) (scalars : Scalars) :
    (∀ parameter ∈ (signature scalars
        ((Member.method ((Engine.mk graph layout).narrowing object)).without
          (unwantedNames graph layout))).parameters, Legal parameter.1) ↔
      ¬((Label.ofNode .projection object).isFree graph layout = true ∧
        layout.parameters.projection = "_") := by
  have hprojection : IsName layout.parameters.projection.toList :=
    Text.isIdentifier_iff.mp hc.projectionParameter
  have hnames : ∀ parameter ∈ ((Engine.mk graph layout).narrowing object).parameters,
      IsName parameter.name.toList :=
    List.forall_mem_singleton.mpr hprojection
  have hlone : "_" ∈ (((Engine.mk graph layout).narrowing object).parameters.filter
        (Parameter.stays (unwantedNames graph layout))).map Parameter.name ↔
      (Label.ofNode .projection object).isFree graph layout = true ∧
        layout.parameters.projection = "_" := by
    change "_" ∈ (([⟨layout.parameters.projection,
      .configurator ((Label.ofNode .projection object).name layout.decorations), true, []⟩] :
        List Parameter).filter _).map Parameter.name ↔ _
    simp only [List.mem_map, List.mem_filter, List.mem_singleton]
    constructor
    · rintro ⟨parameter, ⟨rfl, hstays⟩, hname⟩
      exact ⟨stays_configurator graph layout _ _ ▸ hstays, hname⟩
    · rintro ⟨hfree, hname⟩
      exact ⟨_, ⟨rfl, stays_configurator graph layout _ _ ▸ hfree⟩, hname⟩
  rw [← hlone]
  exact legal_parameters_method_iff scalars
    fun parameter hp => hnames parameter (List.mem_filter.mp hp).1

/-- The parameters of the methods in the trait of an abstraction are identifiers unless one of them
is made from a lone underscore. -/
theorem legal_parameters_iff (hw : WellNamed graph) (hc : layout.Accepted)
    (hn : node ∈ graph.nodes) (scalars : Scalars) {abstraction : Abstraction}
    (hm : abstraction ∈ (Engine.mk graph layout).abstractions node) :
    (∀ signature ∈ signatures scalars (abstraction.without (unwantedNames graph layout)),
        ∀ parameter ∈ signature.parameters, Legal parameter.1) ↔
      ¬LoneParameter graph layout node abstraction.family := by
  rw [signatures, ownMembers_without, List.forall_mem_map, List.forall_mem_map]
  obtain ⟨-, rfl | rfl | ⟨-, rfl | rfl⟩ | ⟨field, hf, -, rfl | rfl⟩⟩ :=
    Engine.mem_abstractions_iff _ |>.mp hm
  · refine iff_of_true ?_ id
    change ∀ member ∈ ownMembers (View.abstraction ⟨graph, layout⟩ .entity node), _
    rw [ownMembers_abstraction, List.forall_mem_map]
    exact fun field _ => legal_parameters_property scalars _
  · change (∀ member ∈ ownMembers (View.abstraction ⟨graph, layout⟩ .projection node), _) ↔
      ¬∃ field ∈ ownFields .projection graph node, LoneSelector graph layout node field
    rw [ownMembers_abstraction, List.forall_mem_map, not_exists]
    refine forall_congr' fun field => ?_
    rw [not_and]
    refine imp_congr_right fun hf => ?_
    have hfield : field ∈ node.fields := (List.mem_filter.mp hf).1
    exact legal_parameters_selector hc (hw.arguments node hn field hfield) scalars
  · rw [ownMembers_qualificationOf, List.forall_mem_map]
    change _ ↔ ¬∃ object ∈ graph.possibleObjects node, _
    rw [not_exists]
    refine forall_congr' fun object => ?_
    rw [not_and]
    exact imp_congr_right fun _ => legal_parameters_narrowing hc object scalars
  · exact iff_of_true (List.forall_mem_nil _) id
  · refine iff_of_true ?_ id
    rw [ownMembers_selection, List.forall_mem_map]
    exact fun argument _ => legal_parameters_property scalars _
  · exact iff_of_true (List.forall_mem_nil _) id

end parameters

/-! ## Names of modules -/

/-- The root of plans whose nodes have names declares their escaped modules. -/
theorem declaredModules_modulesOf {plans : List NodePlan}
    (hw : ∀ plan ∈ plans, IsName plan.node.toList) :
    declaredModules (rootFile (modulesOf plans)).contents =
      (modulesOf plans).map escapeKeyword := by
  refine declaredModules_rootFile ?_
  rw [modulesOf, List.forall_mem_map]
  exact fun plan hp => isWord_of_isName (isName_snakeCase (hw plan hp))

/-- The modules that a root declares are identifiers unless the node of a plan that has a file is a
lone underscore. -/
theorem legal_declaredModules_iff {plans : List NodePlan}
    (hw : ∀ plan ∈ plans, IsName plan.node.toList) :
    (∀ identifier ∈ declaredModules (rootFile (modulesOf plans)).contents, Legal identifier) ↔
      ∀ plan ∈ plans, plan.node ≠ "_" := by
  rw [declaredModules_modulesOf hw, modulesOf, List.map_map, List.forall_mem_map]
  exact forall₂_congr fun plan hp => legal_identifier_iff (hw plan hp)

/-! ## All declarations of a schema -/

/-- What the source of a node declares for an abstraction, and when this is an identifier. -/
structure DeclaresLegally (graph : Graph) (layout : Layout) (node : Node) (plan : NodePlan)
    (abstraction : Abstraction) : Prop where
  /-- The trait declares these signatures and nothing else. -/
  rendered : HoldsTrait (traitHead abstraction) (planLines layout.scalars plan)
    (separated ((signatures layout.scalars abstraction).map Signature.lines))
  /-- The name of the trait is an identifier unless it is kept. -/
  trait : Legal abstraction.name ↔
    ¬KeptName layout.decorations (abstraction.label node.name)
  /-- The methods are identifiers unless one is made from a lone underscore. -/
  methods : (∀ signature ∈ signatures layout.scalars abstraction, Legal signature.name) ↔
    ¬LoneMethod graph node abstraction.family
  /-- The parameters are identifiers unless one is made from a lone underscore. -/
  parameters :
    (∀ signature ∈ signatures layout.scalars abstraction, ∀ parameter ∈ signature.parameters,
        Legal parameter.1) ↔
      ¬LoneParameter graph layout node abstraction.family

/-- The field of an abstraction has a name. -/
theorem isName_of_field {graph : Graph} {layout : Layout} {node : Node} (hw : WellNamed graph)
    (hn : node ∈ graph.nodes) {abstraction : Abstraction}
    (hm : abstraction ∈ (Engine.mk graph layout).abstractions node) {field : String}
    (hf : abstraction.field = some field) : IsName field.toList := by
  obtain ⟨-, rfl | rfl | ⟨-, rfl | rfl⟩ | ⟨selected, hs, -, rfl | rfl⟩⟩ :=
    Engine.mem_abstractions_iff _ |>.mp hm
  · cases hf
  · cases hf
  · cases hf
  · cases hf
  · obtain rfl : selected.name = field := Option.some.inj hf
    exact hw.fields node hn selected hs
  · obtain rfl : selected.name = field := Option.some.inj hf
    exact hw.fields node hn selected hs

/-- What the source of a node declares is an identifier as far as no name is kept or a lone
underscore. -/
theorem declaresLegally_wantedPlan {graph : Graph} {layout : Layout} {node : Node}
    (hw : WellNamed graph) (hc : layout.Accepted) (hn : node ∈ graph.nodes)
    {abstraction : Abstraction}
    (hm : abstraction ∈ (Plan.wantedPlan graph layout node).abstractions) :
    DeclaresLegally graph layout node (Plan.wantedPlan graph layout node) abstraction := by
  have hrendered := holdsTrait_signatures layout.scalars hm
  have hname := Plan.name_of_mem_wantedPlan hm
  obtain ⟨whole, hwhole, rfl⟩ := List.mem_map.mp hm
  have hderived := (List.mem_filter.mp hwhole).1
  have htrait : Legal ((whole.label node.name).name layout.decorations) ↔
      ¬KeptName layout.decorations (whole.label node.name) :=
    legal_name_label_iff hc (hw.nodes node hn) fun field hf => isName_of_field hw hn hderived hf
  exact
    { rendered := hrendered
      trait := hname ▸ htrait
      methods := legal_names_iff hw hc hn layout.scalars hderived
      parameters := legal_parameters_iff hw hc hn layout.scalars hderived }

/-- Which declarations are identifiers. For every graph whose types, fields and arguments have names
and every accepted layout there are plans; in the source of each of them traits, methods and
parameters are identifiers exactly as far as no name is kept or a lone underscore. If all of them
can be emitted, the root declares the modules of the plans that have a file, escaped, and these are
identifiers exactly if no node of such a plan is a lone underscore. -/
theorem declaresLegally_generate {graph : Graph} {layout : Layout} (hw : WellNamed graph)
    (hc : layout.check = .ok ()) :
    ∃ plans, generate graph layout = .ok plans ∧
      (∀ plan ∈ plans, ∃ node ∈ graph.nodes, plan.node = node.name ∧
        ∀ abstraction ∈ plan.abstractions, DeclaresLegally graph layout node plan abstraction) ∧
      ∀ files, (backend layout.scalars).build graph layout = .ok files →
        ∃ root, files = (written plans).map (fileOf layout.scalars) ++ [root] ∧
          declaredModules root.contents = (modulesOf (written plans)).map escapeKeyword ∧
          ((∀ identifier ∈ declaredModules root.contents, Legal identifier) ↔
            ∀ plan ∈ written plans, plan.node ≠ "_") := by
  have haccepted := Layout.check_eq_ok_iff.mp hc
  refine ⟨_, Plan.generate_eq hc, ?_, ?_⟩
  · intro plan hplan
    rw [Plan.wantedPlans_eq_map] at hplan
    obtain ⟨node, hn, rfl⟩ := List.mem_map.mp hplan
    exact ⟨node, hn, rfl, fun abstraction hm => declaresLegally_wantedPlan hw haccepted hn hm⟩
  · intro files hfiles
    have hnames : ∀ plan ∈ written (Plan.wantedPlans graph layout), IsName plan.node.toList := by
      intro plan hplan
      have hwanted := (List.mem_filter.mp hplan).1
      rw [Plan.wantedPlans_eq_map] at hwanted
      obtain ⟨node, hn, rfl⟩ := List.mem_map.mp hwanted
      exact hw.nodes node hn
    have hbuilt := built_build graph layout
    rw [hfiles] at hbuilt
    cases hbuilt with
    | complete haccepted hapart =>
      exact ⟨_, filesOf_eq _ _, declaredModules_modulesOf hnames, legal_declaredModules_iff hnames⟩

/-- A schema of an object that is named like a keyword, with a field and an argument that are lone
underscores. -/
def keywordSteps : List SchemaStep :=
  [ .node "String" .scalar [],
    .node "type" .object
      [ .field "_" ⟨"String", false, true⟩ false false
          [.argument "_" ⟨"String", false, true⟩ false []] ] ]

/-- The plans of this schema declare a trait, a method and a parameter that are kept words. -/
theorem exists_keyword :
    ∃ graph plans, Graph.build ⟨0⟩ .strict keywordSteps = .ok graph ∧ WellNamed graph ∧
      generate graph .usual = .ok plans ∧
      (∃ plan ∈ plans, ∃ abstraction ∈ plan.abstractions, abstraction.name ∈ keptWords) ∧
      (∃ plan ∈ plans, ∃ abstraction ∈ plan.abstractions,
        ∃ signature ∈ signatures Layout.usual.scalars abstraction,
          signature.name ∈ keptWords) ∧
      ∃ plan ∈ plans, ∃ abstraction ∈ plan.abstractions,
        ∃ signature ∈ signatures Layout.usual.scalars abstraction,
          ∃ parameter ∈ signature.parameters, parameter.1 ∈ keptWords :=
  ⟨_, _, rfl, ⟨by decide, by decide, by decide⟩, rfl, by decide +kernel, by decide +kernel,
    by decide +kernel⟩

/-- The law of identifiers holds for this schema, in which names are kept words. -/
theorem declaresLegally_generate_keyword :
    ∃ graph, Graph.build ⟨0⟩ .strict keywordSteps = .ok graph ∧ WellNamed graph ∧
      Layout.usual.check = .ok () ∧
      ∃ plans, generate graph .usual = .ok plans ∧
        (∀ plan ∈ plans, ∃ node ∈ graph.nodes, plan.node = node.name ∧
          ∀ abstraction ∈ plan.abstractions,
            DeclaresLegally graph .usual node plan abstraction) ∧
        ∀ files, (backend Layout.usual.scalars).build graph .usual = .ok files →
          ∃ root, files = (written plans).map (fileOf Layout.usual.scalars) ++ [root] ∧
            declaredModules root.contents = (modulesOf (written plans)).map escapeKeyword ∧
            ((∀ identifier ∈ declaredModules root.contents, Legal identifier) ↔
              ∀ plan ∈ written plans, plan.node ≠ "_") := by
  obtain ⟨graph, -, hb, hw, -⟩ := exists_keyword
  have hc : Layout.usual.check = .ok () := rfl
  exact ⟨graph, hb, hw, hc, declaresLegally_generate hw hc⟩

/-- Declared traits, methods and parameters are not always identifiers: the trait of the object is
the keyword `type`, and its field and the argument of this field stay lone underscores. -/
theorem not_declared_legally :
    (¬HoldsOfEvery fun _ abstraction => Legal abstraction.name) ∧
      (¬HoldsOfEvery fun layout abstraction =>
        ∀ signature ∈ signatures layout.scalars abstraction, Legal signature.name) ∧
      ¬HoldsOfEvery fun layout abstraction =>
        ∀ signature ∈ signatures layout.scalars abstraction,
          ∀ parameter ∈ signature.parameters, Legal parameter.1 := by
  obtain ⟨graph, plans, hb, hw, hg, htraits, hmethods, hparameters⟩ := exists_keyword
  have hc : Layout.usual.check = .ok () := rfl
  refine ⟨?_, ?_, ?_⟩
  · intro hall
    obtain ⟨plan, hp, abstraction, ha, hkept⟩ := htraits
    exact not_legal_of_mem hkept (hall _ _ _ graph .usual plans hb hw hc hg plan hp abstraction ha)
  · intro hall
    obtain ⟨plan, hp, abstraction, ha, signature, hs, hkept⟩ := hmethods
    have hlegal := hall _ _ _ graph .usual plans hb hw hc hg plan hp abstraction ha
    exact not_legal_of_mem hkept (hlegal signature hs)
  · intro hall
    obtain ⟨plan, hp, abstraction, ha, signature, hs, parameter, hparameter, hkept⟩ := hparameters
    have hlegal := hall _ _ _ graph .usual plans hb hw hc hg plan hp abstraction ha
    exact not_legal_of_mem hkept (hlegal signature hs parameter hparameter)

end QuerySurface.Traits

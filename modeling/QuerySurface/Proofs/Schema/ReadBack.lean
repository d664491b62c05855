import QuerySurface.Proofs.Schema.Defaults

/-!
# Documents read back

A document that was read from a text is written as a text that reads as the same document, up
to the values of doubles inside default values. Writing leaves empty lists and absent values
out and reading fills them in. Which arguments have a default stays, so that every graph that
is built with the one document is built with the other.
-/

namespace QuerySurface.Schema

open Json (Value)
open Json.Reader

/-! ## Written documents are sound -/

/-- A list of sound values is sound as a member. -/
theorem sound_listMember {key : String} {items : List Value} (heach : ∀ item ∈ items, item.Sound) :
    ∀ member ∈ listMember key items, member.2.Sound := by
  unfold listMember
  split_ifs
  · simp
  · simpa using Value.Sound.array heach

/-- Texts are sound as a member. -/
theorem sound_textsMember (key : String) (texts : List String) :
    ∀ member ∈ textsMember key texts, member.2.Sound := by
  refine sound_listMember fun item hmem => ?_
  obtain ⟨text, -, rfl⟩ := List.mem_map.mp hmem
  exact .text text

/-- A sound value that may be absent is sound as a member. -/
theorem sound_optionalMember {key : String} {value : Option Value}
    (heach : ∀ written ∈ value, written.Sound) :
    ∀ member ∈ optionalMember key value, member.2.Sound := by
  cases value with
  | none => simp [optionalMember]
  | some written => simpa [optionalMember] using heach

/-- A text that may be absent is sound as a member. -/
theorem sound_optionalText (key : String) (text : Option String) :
    ∀ member ∈ optionalMember key (text.map .text), member.2.Sound := by
  refine sound_optionalMember fun written hmem => ?_
  obtain ⟨text, -, rfl⟩ := Option.map_eq_some_iff.mp hmem
  exact .text text

/-- An argument is written with finite numbers only. -/
theorem ArgumentDocument.sound_toValue {room : Nat} {argument : ArgumentDocument}
    (hfits : argument.Fits room) : argument.toValue.Sound := by
  refine .object ?_
  simp only [List.forall_mem_append, List.forall_mem_cons, List.not_mem_nil, false_implies,
    implies_true, and_true]
  exact ⟨⟨⟨.text _, .text _⟩, sound_optionalMember fun value hmem => (hfits value hmem).2.sound⟩,
    sound_textsMember _ _⟩

/-- A field is written with finite numbers only. -/
theorem FieldDocument.sound_toValue {room : Nat} {field : FieldDocument}
    (hfits : field.Fits room) : field.toValue.Sound := by
  refine .object ?_
  simp only [List.forall_mem_append, List.forall_mem_cons, List.not_mem_nil, false_implies,
    implies_true, and_true]
  refine ⟨⟨⟨⟨.text _, .text _⟩, sound_textsMember _ _⟩, sound_textsMember _ _⟩,
    sound_listMember fun item hmem => ?_⟩
  obtain ⟨argument, hthere, rfl⟩ := List.mem_map.mp hmem
  exact ArgumentDocument.sound_toValue (hfits argument hthere)

/-- An enum value is written with finite numbers only. -/
theorem EnumValueDocument.sound_toValue (value : EnumValueDocument) : value.toValue.Sound := by
  refine .object ?_
  simp only [List.forall_mem_append, List.forall_mem_cons, List.not_mem_nil, false_implies,
    implies_true, and_true]
  exact ⟨.text _, sound_textsMember _ _⟩

/-- A type is written with finite numbers only. -/
theorem TypeDocument.sound_toValue {room : Nat} {type : TypeDocument} (hfits : type.Fits room) :
    type.toValue.Sound := by
  refine .object ?_
  simp only [List.forall_mem_append, List.forall_mem_cons, List.not_mem_nil, false_implies,
    implies_true, and_true]
  refine ⟨⟨⟨⟨⟨⟨.text _, .text _⟩, sound_textsMember _ _⟩, sound_textsMember _ _⟩,
    sound_textsMember _ _⟩, sound_listMember fun item hmem => ?_⟩,
    sound_listMember fun item hmem => ?_⟩
  · obtain ⟨value, -, rfl⟩ := List.mem_map.mp hmem
    exact value.sound_toValue
  · obtain ⟨field, hthere, rfl⟩ := List.mem_map.mp hmem
    exact FieldDocument.sound_toValue (hfits field hthere)

/-- Roots are written with finite numbers only. -/
theorem RootsDocument.sound_toValue (roots : RootsDocument) : roots.toValue.Sound := by
  refine .object ?_
  simp only [List.forall_mem_append]
  exact ⟨⟨sound_optionalText _ _, sound_optionalText _ _⟩, sound_optionalText _ _⟩

/-- A document is written with finite numbers only. -/
theorem Document.sound_toValue {room : Nat} {document : Document} (hfits : document.Fits room) :
    document.toValue.Sound := by
  refine .object ?_
  simp only [List.forall_mem_cons, List.not_mem_nil, false_implies, implies_true, and_true]
  refine ⟨document.roots.sound_toValue, .array fun item hmem => ?_⟩
  obtain ⟨type, hthere, rfl⟩ := List.mem_map.mp hmem
  exact TypeDocument.sound_toValue (hfits type hthere)

/-! ## Fields that are left out -/

section filled

variable {σ α : Type} {room : Nat} {fields : List (Json.Reader.Field σ)}
  {members : List (String × Value)} {record after : σ} {key : String}

/-- A list, which is left out if it is empty. -/
theorem filled_list {reader : Json.Reader α} {put : List α → σ → σ} {items : List Value}
    {again : List α} (hread : list reader room (Value.array items).tree = .ok again)
    (hblank : put [] record = record)
    (hrest : Filled room fields members (put again record) after) :
    Filled room (.may key (list reader) put :: fields) (listMember key items ++ members) record
      after := by
  cases items with
  | nil =>
    have hnone : again = [] := by
      cases room with
      | zero => cases hread
      | succ room =>
        cases hread
        rfl
    rw [hnone, hblank] at hrest
    exact .skip rfl hrest
  | cons item items => exact .may hread hrest

/-- Texts, which are left out if there are none. -/
theorem filled_texts {put : List String → σ → σ} {texts : List String}
    (hblank : put [] record = record)
    (hrest : Filled (room + 1) fields members (put texts record) after) :
    Filled (room + 1) (.may key textsReader put :: fields) (textsMember key texts ++ members) record
      after := by
  have hread : list text (room + 1) (Value.array (texts.map .text)).tree = .ok texts :=
    list_trees_self fun _ _ => rfl
  exact filled_list hread hblank hrest

/-- A value, which is left out if it is absent. -/
theorem filled_optional {reader : Json.Reader α} {put : Option α → σ → σ} {value : Option Value}
    (again : Option α) (habsent : value = none → again = none)
    (hread : ∀ written ∈ value, optional reader room written.tree = .ok again)
    (hblank : put none record = record)
    (hrest : Filled room fields members (put again record) after) :
    Filled room (.may key (optional reader) put :: fields) (optionalMember key value ++ members)
      record after := by
  cases value with
  | none =>
    rw [habsent rfl, hblank] at hrest
    exact .skip rfl hrest
  | some written => exact .may (hread written rfl) hrest

/-- A text, which is left out if it is absent. -/
theorem filled_optionalText {put : Option String → σ → σ} {original : Option String}
    (hblank : put none record = record)
    (hrest : Filled room fields members (put original record) after) :
    Filled room (.may key (optional text) put :: fields)
      (optionalMember key (original.map .text) ++ members) record after := by
  refine filled_optional original (fun hnone => Option.map_eq_none_iff.mp hnone)
    (fun written hmem => ?_) hblank hrest
  obtain ⟨value, rfl, rfl⟩ := Option.map_eq_some_iff.mp hmem
  rfl

end filled

/-! ## Reading back -/

/-- A default is read back from its tree up to the values of doubles, and an absent one stays
absent. -/
theorem optional_value_tree {room : Nat} {value : Option Value}
    (hfits : ∀ written ∈ value, written ≠ .null ∧ written.Fits room) :
    ∃ again : Option Value, (value = none → again = none) ∧
      (∀ written ∈ value, optional Json.Reader.value room written.tree = .ok again) ∧
      again.map Value.blurred = value.map Value.blurred := by
  cases value with
  | none => exact ⟨none, fun _ => rfl, by simp, rfl⟩
  | some written =>
    obtain ⟨hpresent, hfit⟩ := hfits written rfl
    obtain ⟨again, hread, hsame⟩ := value_tree hfit
    refine ⟨some again, nofun, ?_, congrArg some hsame⟩
    rintro _ ⟨⟩
    cases written with
    | null => exact absurd rfl hpresent
    | _ => exact congrArg (some <$> ·) hread

/-- A kind is read back from its word. -/
theorem Kind.reader_tree (room : Nat) (kind : Kind) :
    Kind.reader room (Value.text kind.documentWord).tree = .ok kind := by
  cases kind <;> rfl

/-- An argument is read back from its tree. -/
theorem ArgumentDocument.reader_tree {room : Nat} {argument : ArgumentDocument}
    (hfits : argument.Fits (room + 1)) :
    ∃ again, ArgumentDocument.reader (room + 2) argument.toValue.tree = .ok again ∧
      again.blurred = argument.blurred := by
  obtain ⟨default, habsent, hread, hsame⟩ := optional_value_tree hfits
  refine ⟨{ argument with default }, record_filled (by simp [Field.must, Field.may]) ?_,
    congrArg (fun default => { argument with default }) hsame⟩
  simp only [List.cons_append, List.nil_append]
  refine .must rfl (.must rfl (filled_optional default habsent hread rfl ?_))
  rw [← List.append_nil (textsMember _ _)]
  exact filled_texts rfl (.nil _)

/-- A field is read back from its tree. -/
theorem FieldDocument.reader_tree {room : Nat} {field : FieldDocument}
    (hfits : field.Fits (room + 1)) :
    ∃ again, FieldDocument.reader (room + 4) field.toValue.tree = .ok again ∧
      again.blurred = field.blurred := by
  obtain ⟨arguments, hread, hsame⟩ :=
    list_trees fun argument hmem => ArgumentDocument.reader_tree (hfits argument hmem)
  refine ⟨{ field with arguments }, record_filled (by simp [Field.must, Field.may]) ?_,
    congrArg (fun arguments => { field with arguments }) hsame⟩
  simp only [List.append_assoc, List.cons_append, List.nil_append]
  refine .must rfl (.must rfl (filled_texts rfl (filled_texts rfl ?_)))
  rw [← List.append_nil (listMember _ _)]
  exact filled_list hread rfl (.nil _)

/-- An enum value is read back from its tree. -/
theorem EnumValueDocument.reader_tree (room : Nat) (value : EnumValueDocument) :
    EnumValueDocument.reader (room + 2) value.toValue.tree = .ok value := by
  refine record_filled (by simp [Field.must, Field.may]) ?_
  simp only [List.cons_append, List.nil_append]
  refine .must rfl ?_
  rw [← List.append_nil (textsMember _ _)]
  exact filled_texts rfl (.nil _)

/-- A type is read back from its tree. -/
theorem TypeDocument.reader_tree {room : Nat} {type : TypeDocument}
    (hfits : type.Fits (room + 1)) :
    ∃ again, TypeDocument.reader (room + 6) type.toValue.tree = .ok again ∧
      again.blurred = type.blurred := by
  obtain ⟨fields, hread, hsame⟩ :=
    list_trees fun field hmem => FieldDocument.reader_tree (hfits field hmem)
  have hvalues : list EnumValueDocument.reader (room + 5)
      (Value.array (type.values.map EnumValueDocument.toValue)).tree = .ok type.values :=
    list_trees_self fun value _ => value.reader_tree (room + 2)
  refine ⟨{ type with fields }, record_filled (by simp [Field.must, Field.may]) ?_,
    congrArg (fun fields => { type with fields }) hsame⟩
  simp only [List.append_assoc, List.cons_append, List.nil_append]
  refine .must rfl (.must (Kind.reader_tree _ _)
    (filled_texts rfl (filled_texts rfl (filled_texts rfl (filled_list hvalues rfl ?_)))))
  rw [← List.append_nil (listMember _ _)]
  exact filled_list hread rfl (.nil _)

/-- Roots are read back from their tree. -/
theorem RootsDocument.reader_tree (room : Nat) (roots : RootsDocument) :
    RootsDocument.reader (room + 1) roots.toValue.tree = .ok roots := by
  refine record_filled (by simp [Field.may]) ?_
  simp only [List.append_assoc]
  refine filled_optionalText rfl (filled_optionalText rfl ?_)
  rw [← List.append_nil (optionalMember _ _)]
  exact filled_optionalText rfl (.nil _)

/-- A document is read back from its tree. -/
theorem Document.reader_tree {room : Nat} {document : Document}
    (hfits : document.Fits (room + 1)) :
    ∃ again, Document.reader (room + 8) document.toValue.tree = .ok again ∧
      again.blurred = document.blurred := by
  obtain ⟨types, hread, hsame⟩ :=
    list_trees fun type hmem => TypeDocument.reader_tree (hfits type hmem)
  refine ⟨{ document with types }, record_filled (by simp [Field.may]) ?_,
    congrArg (fun types => { document with types }) hsame⟩
  exact .may (RootsDocument.reader_tree _ _) (.may hread (.nil _))

/-! ## Graphs -/

/-- Of a default, a declaration only knows whether it is there. -/
theorem ArgumentDocument.step_blurred (node field : String) (argument : ArgumentDocument) :
    argument.blurred.step node field = argument.step node field := by
  simp only [ArgumentDocument.step, ArgumentDocument.blurred, Option.isSome_map]

/-- Of their defaults, declarations of arguments only know whether they are there. -/
theorem argumentSteps_blurred (node field : String) (arguments : List ArgumentDocument) :
    argumentSteps node field (arguments.map .blurred) = argumentSteps node field arguments := by
  induction arguments with
  | nil => rfl
  | cons argument rest ih =>
    rw [List.map_cons, argumentSteps, argumentSteps, argument.step_blurred, ih]

/-- The declaration of a field does not depend on the values of doubles in defaults. -/
theorem FieldDocument.step_blurred (names : Directives) (node : String) (field : FieldDocument) :
    field.blurred.step names node = field.step names node := by
  simp only [FieldDocument.step, FieldDocument.blurred, argumentSteps_blurred]

/-- Declarations of fields do not depend on the values of doubles in defaults. -/
theorem fieldSteps_blurred (names : Directives) (node : String) (fields : List FieldDocument) :
    fieldSteps names node (fields.map .blurred) = fieldSteps names node fields := by
  induction fields with
  | nil => rfl
  | cons field rest ih =>
    rw [List.map_cons, fieldSteps, fieldSteps, field.step_blurred, ih]

/-- What a type declares does not depend on the values of doubles in defaults. -/
theorem TypeDocument.replay_blurred (names : Directives) (type : TypeDocument) :
    type.blurred.replay names = type.replay names := by
  simp only [TypeDocument.replay, TypeDocument.blurred, fieldSteps_blurred]

/-- What a document declares does not depend on the values of doubles in defaults. -/
theorem Document.steps_blurred (names : Directives) (document : Document) :
    document.blurred.steps names = document.steps names := by
  have htypes : document.blurred.types.map
      (fun type => SchemaStep.node type.name type.kind (type.replay names).steps) =
        document.types.map (fun type => .node type.name type.kind (type.replay names).steps) := by
    simp only [Document.blurred, List.map_map]
    refine List.map_congr_left fun type _ => ?_
    rw [Function.comp_apply, TypeDocument.replay_blurred]
    rfl
  rw [Document.steps, htypes]
  rfl

/-- The scalars that are added do not depend on the values of doubles in defaults. -/
theorem builtinSteps_blurred (documents : List Document) :
    builtinSteps (documents.map .blurred) = builtinSteps documents := by
  have hdeclared (document : Document) (scalar : String) :
      document.blurred.types.any (·.name == scalar) = document.types.any (·.name == scalar) := by
    simp only [Document.blurred, List.any_map]
    rfl
  simp only [builtinSteps, List.any_map, Function.comp_def, hdeclared]

/-- The first malformed notation does not depend on the values of doubles in defaults. -/
theorem firstMalformed_blurred (names : Directives) (documents : List Document) :
    firstMalformed names (documents.map .blurred) = firstMalformed names documents := by
  simp only [firstMalformed, List.flatMap_map, Document.blurred, ← List.map_flatMap,
    List.findSome?_map, Function.comp_def, TypeDocument.replay_blurred]

/-- A graph does not depend on the values of doubles in defaults. -/
theorem Graph.ofDocuments_blurred (id : GraphId) (settings : LoadSettings)
    (documents : List Document) :
    Graph.ofDocuments id settings (documents.map .blurred) =
      Graph.ofDocuments id settings documents := by
  rw [Graph.ofDocuments, Graph.ofDocuments, firstMalformed_blurred, documentSteps, documentSteps,
    builtinSteps_blurred, List.flatMap_map]
  simp only [Document.steps_blurred]

/-! ## Documents -/

/-- The room inside the default of an argument: seven lists and objects are around it. -/
theorem Document.fits_of_parse {source : String} {document : Document}
    (h : Document.parse source = .ok document) : document.Fits 120 :=
  Document.fits_of_reader (reader_of_decode h)

/-- A text whose tree is that of a document that was read reads as this document. -/
theorem Document.parse_of_tree {document : Document} (hfits : document.Fits 120) {text : String}
    (hwritten : Json.Parsed.ofText text = ⟨document.toValue.tree, false⟩) :
    ∃ again, Document.parse text = .ok again ∧ again.blurred = document.blurred := by
  obtain ⟨again, hread, hsame⟩ := Document.reader_tree (show document.Fits (119 + 1) from hfits)
  have hlimit : Document.reader Json.nestingLimit document.toValue.tree = .ok again := hread
  exact ⟨again, decode_of_tree hlimit hwritten, hsame⟩

/-- A document that was read from any text is written, densely or on lines, as a text that reads
as the same document up to the values of doubles in defaults, with the same defaults present; in
the place of the one, the other gives the same graph, whatever the settings and whichever other
documents are loaded with it. -/
theorem Document.written_reads_back {source : String} {document : Document}
    (h : Document.parse source = .ok document) :
    ∀ text ∈ [document.toValue.print, document.toValue.pretty],
      ∃ again, Document.parse text = .ok again ∧ again.blurred = document.blurred ∧
        ∀ id settings before after,
          Graph.ofDocuments id settings (before ++ again :: after) =
            Graph.ofDocuments id settings (before ++ document :: after) := by
  have hfits := Document.fits_of_parse h
  have hsound := Document.sound_toValue hfits
  intro text hmem
  have hwritten : Json.Parsed.ofText text = ⟨document.toValue.tree, false⟩ := by
    simp only [List.mem_cons, List.not_mem_nil, or_false] at hmem
    obtain rfl | rfl := hmem
    · exact Json.Parsed.ofText_print hsound
    · exact Json.Parsed.ofText_pretty hsound
  obtain ⟨again, hread, hsame⟩ := Document.parse_of_tree hfits hwritten
  refine ⟨again, hread, hsame, fun id settings before after => ?_⟩
  rw [← Graph.ofDocuments_blurred,
    ← Graph.ofDocuments_blurred id settings (before ++ document :: after),
    List.map_append, List.map_append, List.map_cons, List.map_cons, hsame]

/-- A document with records in the form of lists and a kind in the form of an object. One default
has a repeated key and doubles, the other is the absent value. -/
def unusualSource : String :=
  "[\x7b\"query\":\"Q\"\x7d,[[\"Q\",\x7b\"QUERY\":null\x7d,[],[],[],[],[[\"f\",\"Q\",[],[]," ++
    "[[\"x\",\"Int\",\x7b\"b\":1,\"a\":0.1,\"b\":[-0]\x7d]," ++
    "\x7b\"name\":\"y\",\"type\":\"Int\",\"default\":null\x7d]]]]]]"

/-- The one default of the unusual document is written and read back, the absent value not at all.
-/
theorem Document.written_reads_back_unusualSource :
    ∃ document, Document.parse unusualSource = .ok document ∧
      (document.types.flatMap fun type => type.fields.flatMap fun field =>
        field.arguments.map fun argument => argument.default.isSome) = [true, false] ∧
      ∀ text ∈ [document.toValue.print, document.toValue.pretty],
        ∃ again, Document.parse text = .ok again ∧ again.blurred = document.blurred ∧
          ∀ id settings before after,
            Graph.ofDocuments id settings (before ++ again :: after) =
              Graph.ofDocuments id settings (before ++ document :: after) := by
  have hparsed : (Document.parse unusualSource).toOption.map (fun document =>
      document.types.flatMap fun type => type.fields.flatMap fun field =>
        field.arguments.map fun argument => argument.default.isSome) = some [true, false] := by
    decide +kernel
  cases hread : Document.parse unusualSource with
  | error problem =>
    rw [hread] at hparsed
    cases hparsed
  | ok document =>
    rw [hread] at hparsed
    exact ⟨document, rfl, Option.some.inj hparsed, Document.written_reads_back hread⟩

end QuerySurface.Schema

import QuerySurface.Layout.Basic
import QuerySurface.Proofs.Catalog.Apart
import QuerySurface.Proofs.Json.Completion

/-!
# Layouts read back

A layout is written with all its parts and is read back as it was, with decorations that have no
parts and with its scalars in their order. What is missing in an object that a layout is read from
may be filled in from the usual layout, on the level of the layout and on that of its sections. A
part that is missing inside a decoration is absent from it.
-/

namespace QuerySurface.Layout

open Json (Value Tree)
open Json.Reader

/-- No scalar is mapped twice. -/
def Scalars.Distinct (scalars : Scalars) : Prop :=
  (Catalog.names scalars.types).Nodup

instance (scalars : Scalars) : Decidable scalars.Distinct :=
  inferInstanceAs (Decidable (Catalog.names scalars.types).Nodup)

/-- The tree of a layout with what is missing filled in from the usual one, in the layout and in
its sections. -/
def completed (tree : Tree) : Tree :=
  tree.completed 2 usual.toValue

/-! ## Written layouts are sound -/

/-- A decoration holds nothing but texts. -/
theorem Decoration.sound_toValue (decoration : Decoration) : decoration.toValue.Sound := by
  refine .object fun member hm => ?_
  rcases List.mem_append.mp hm with hm | hm
  · obtain ⟨front, -, rfl⟩ := Option.map_eq_some_iff.mp (Option.mem_toList.mp hm)
    exact .text front
  · obtain ⟨back, -, rfl⟩ := Option.map_eq_some_iff.mp (Option.mem_toList.mp hm)
    exact .text back

/-- An object holds no numbers if none of its members does. -/
theorem sound_object {members : List (String × Value)}
    (h : members.Forall fun member => member.2.Sound) : (Value.object members).Sound :=
  .object (List.forall_iff_forall_mem.mp h)

/-- Decorations hold nothing but texts. -/
theorem Decorations.sound_toValue (decorations : Decorations) : decorations.toValue.Sound := by
  refine .object fun member hm => ?_
  obtain ⟨entry, -, rfl⟩ := List.mem_map.mp hm
  exact entry.2.sound_toValue

/-- Families hold nothing but truth values. -/
theorem Families.sound_toValue (families : Families) : families.toValue.Sound :=
  sound_object ⟨.flag _, .flag _, .flag _, .flag _, .flag _, .flag _⟩

/-- Parameter names hold nothing but texts. -/
theorem ParameterNames.sound_toValue (names : ParameterNames) : names.toValue.Sound :=
  sound_object ⟨.text _, .text _⟩

/-- A mapping holds nothing but texts. -/
theorem Scalars.sound_toValue (scalars : Scalars) : scalars.toValue.Sound := by
  refine sound_object ⟨.object fun member hm => ?_, .text _⟩
  obtain ⟨entry, -, rfl⟩ := List.mem_map.mp hm
  exact .text entry.2

/-- A layout holds no numbers. -/
theorem sound_toValue (layout : Layout) : layout.toValue.Sound :=
  sound_object ⟨layout.families.sound_toValue, layout.decorations.sound_toValue,
    layout.parameters.sound_toValue, layout.scalars.sound_toValue⟩

/-! ## Reading back -/

/-- A decoration is read back from its tree; a part that it does not have is not written. -/
theorem Decoration.reader_tree (room : Nat) (decoration : Decoration) :
    Decoration.reader (room + 1) decoration.toValue.tree = .ok decoration := by
  refine record_filled (by decide) ?_
  obtain ⟨front, back⟩ := decoration
  cases front with
  | none =>
    cases back with
    | none => exact .skip rfl (.skip rfl (.nil _))
    | some back => exact .skip rfl (.may rfl (.nil _))
  | some front =>
    cases back with
    | none => exact .may rfl (.skip rfl (.nil _))
    | some back => exact .may rfl (.may rfl (.nil _))

/-- Decorations are read back from their tree. -/
theorem Decorations.reader_tree (room : Nat) (decorations : Decorations) :
    Decorations.reader (room + 2) decorations.toValue.tree = .ok decorations := by
  have hread := Decoration.reader_tree room
  refine record_filled (by decide) ?_
  exact .may (hread _) (.may (hread _) (.may (hread _) (.may (hread _) (.may (hread _)
    (.may (hread _) (.may (hread _) (.nil _)))))))

/-- Families are read back from their tree. -/
theorem Families.reader_tree (room : Nat) (families : Families) :
    Families.reader (room + 1) families.toValue.tree = .ok families := by
  refine record_filled (by decide) ?_
  exact .may rfl (.may rfl (.may rfl (.may rfl (.may rfl (.may rfl (.nil _))))))

/-- Parameter names are read back from their tree. -/
theorem ParameterNames.reader_tree (room : Nat) (names : ParameterNames) :
    ParameterNames.reader (room + 1) names.toValue.tree = .ok names := by
  refine record_filled (by decide) ?_
  exact .may rfl (.may rfl (.nil _))

namespace Scalars

/-- Members of different names are all read, in their order. -/
theorem readTypes_trees (room : Nat) {types done : List (String × String)}
    (h : (Catalog.names (done ++ types)).Nodup) :
    readTypes room done (Json.memberTrees (types.map fun (scalar, type) => (scalar, .text type))) =
      .ok (done ++ types) := by
  induction types generalizing done with
  | nil =>
    rw [List.append_nil]
    rfl
  | cons entry rest ih =>
    have hsplit : done ++ entry :: rest = done ++ [entry] ++ rest := by simp
    have hnew : Named.name entry ∉ Catalog.names done := by
      intro hm
      rw [Catalog.names_append, Catalog.names_cons] at h
      exact (List.nodup_append.mp h).2.2 _ hm _ List.mem_cons_self rfl
    have hput : Catalog.put entry done = done ++ [entry] := Catalog.put_of_not_mem hnew
    rw [hsplit] at h ⊢
    rw [← ih h, ← hput]
    rfl

/-- A mapping is read back from its tree if no scalar is mapped twice. -/
theorem reader_tree (room : Nat) {scalars : Scalars} (h : scalars.Distinct) :
    Scalars.reader (room + 2) scalars.toValue.tree = .ok scalars := by
  have htypes : typesReader (room + 1)
      (Value.object (scalars.types.map fun (scalar, type) => (scalar, .text type))).tree =
        .ok scalars.types := by
    have hread := readTypes_trees room (show (Catalog.names ([] ++ scalars.types)).Nodup from h)
    rw [Value.tree, typesReader]
    simp only [enter, bind, Except.bind, hread]
    rfl
  refine record_filled (by decide) ?_
  exact .may htypes (.may rfl (.nil _))

/-- Reading a mapping never maps a scalar twice. -/
theorem nodup_readTypes {room : Nat} {members : List Json.Member}
    {done types : List (String × String)} (hn : (Catalog.names done).Nodup)
    (h : readTypes room done members = .ok types) : (Catalog.names types).Nodup := by
  induction members generalizing done with
  | nil =>
    cases h
    exact hn
  | cons member rest ih =>
    obtain ⟨key, sound, tree⟩ := member
    rw [readTypes] at h
    split at h
    · cases h
    · obtain ⟨type, _, h⟩ := exists_of_bind h
      refine ih ?_ h
      rw [Catalog.names_put]
      split
      · exact hn
      · rename_i hnew
        exact List.nodup_append.mpr ⟨hn, List.nodup_singleton _, by
          rintro other ho _ hname rfl
          exact hnew (List.mem_singleton.mp hname ▸ ho)⟩

/-- An object that was read as a mapping maps no scalar twice. -/
theorem nodup_typesReader {room : Nat} {tree : Tree} {types : List (String × String)}
    (h : typesReader room tree = .ok types) : (Catalog.names types).Nodup := by
  cases tree with
  | object members ending =>
    rw [typesReader] at h
    obtain ⟨inside, _, h⟩ := exists_of_bind h
    obtain ⟨found, hread, h⟩ := exists_of_bind h
    obtain ⟨⟨⟩, _, h⟩ := exists_of_bind h
    cases h
    have hnothing : (Catalog.names ([] : List (String × String))).Nodup := List.nodup_nil
    exact nodup_readTypes hnothing hread
  | _ => cases h

/-- Scalars that were read are mapped once. -/
theorem distinct_of_reader {room : Nat} {tree : Tree} {scalars : Scalars}
    (h : Scalars.reader (room + 1) tree = .ok scalars) : scalars.Distinct := by
  refine record_keeps (show usual.Distinct by decide) ?_ h
  intro field hf tree before after hbefore hu
  simp only [List.mem_cons, List.not_mem_nil, or_false] at hf
  obtain rfl | rfl := hf
  · obtain ⟨types, hread, rfl⟩ := exists_of_map hu
    exact nodup_typesReader hread
  · obtain ⟨_, -, rfl⟩ := exists_of_map hu
    exact hbefore

end Scalars

/-- A layout is read back from its tree. -/
theorem reader_tree (room : Nat) {layout : Layout} (h : layout.scalars.Distinct) :
    Layout.reader (room + 3) layout.toValue.tree = .ok layout := by
  refine record_filled (by decide) ?_
  exact .may (Families.reader_tree _ _) (.may (Decorations.reader_tree _ _)
    (.may (ParameterNames.reader_tree _ _) (.may (Scalars.reader_tree _ h) (.nil _))))

/-- A layout that was read maps no scalar twice. -/
theorem distinct_of_reader {room : Nat} {tree : Tree} {layout : Layout}
    (h : Layout.reader (room + 2) tree = .ok layout) : layout.scalars.Distinct := by
  refine @record_keeps _ (fun layout => layout.scalars.Distinct) _ _ _ _ _ _ (by decide) ?_ h
  intro field hf tree before after hbefore hu
  simp only [List.mem_cons, List.not_mem_nil, or_false] at hf
  obtain rfl | rfl | rfl | rfl := hf
  case inr.inr.inr =>
    obtain ⟨scalars, hread, rfl⟩ := exists_of_map hu
    exact Scalars.distinct_of_reader hread
  all_goals
    obtain ⟨_, -, rfl⟩ := exists_of_map hu
    exact hbefore

/-! ## Filling in -/

section read

variable {room : Nat} {tree : Tree}

/-- Families are also read with what is missing filled in. -/
theorem Families.reader_completed {families : Families}
    (h : Families.reader (room + 1) tree = .ok families) :
    Families.reader (room + 1) (tree.completed 1 all.toValue) = .ok families := by
  have hflag : ∀ {put : Bool → Families → Families} {key : String},
      (∀ value record, put value (put value record) = put value record) → put true all = all →
        Completes 0 room all (.may key flag put) (key, .flag true) :=
    fun htwice hblank => completes_may rfl hblank htwice fun _ _ hread => hread
  refine record_completed ⟨by decide, ?_, ?_⟩ h
  · simp [commutes_may]
  · refine .cons ?_ (.cons ?_ (.cons ?_ (.cons ?_ (.cons ?_ (.cons ?_ .nil))))) <;>
      exact hflag (fun _ _ => rfl) rfl

/-- Parameter names are also read with what is missing filled in. -/
theorem ParameterNames.reader_completed {names : ParameterNames}
    (h : ParameterNames.reader (room + 1) tree = .ok names) :
    ParameterNames.reader (room + 1) (tree.completed 1 usual.toValue) = .ok names := by
  refine record_completed ⟨by decide, ?_, ?_⟩ h
  · simp [commutes_may]
  · refine .cons ?_ (.cons ?_ .nil) <;>
      exact completes_may rfl rfl (fun _ _ => rfl) fun _ _ hread => hread

/-- Scalars are also read with what is missing filled in. -/
theorem Scalars.reader_completed {scalars : Scalars}
    (h : Scalars.reader (room + 2) tree = .ok scalars) :
    Scalars.reader (room + 2) (tree.completed 1 usual.toValue) = .ok scalars := by
  refine record_completed ⟨by decide, ?_, ?_⟩ h
  · simp [commutes_may]
  · refine .cons ?_ (.cons ?_ .nil) <;>
      exact completes_may rfl rfl (fun _ _ => rfl) fun _ _ hread => hread

/-- A part that is missing inside a decoration is absent from it. -/
theorem Decoration.absent_of_lacks {decoration : Decoration}
    (h : Decoration.reader (room + 1) tree = .ok decoration) :
    (tree.Lacks "prefix" → decoration.front = none) ∧
      (tree.Lacks "postfix" → decoration.back = none) := by
  have hread : Completable 0 room plain _
      [("prefix", .ofOption plain.front), ("postfix", .ofOption plain.back)] → _ :=
    record_read h
  obtain ⟨-, -, hlacks⟩ := hread ⟨by decide, by simp [commutes_may],
    .cons (completes_optionalText rfl fun _ _ => rfl)
      (.cons (completes_optionalText rfl fun _ _ => rfl) .nil)⟩
  constructor
  · intro hm
    have hfront : optional text room (Value.ofOption plain.front).tree = .ok decoration.front :=
      read_of_update (fun _ _ => rfl) (hlacks _ (.head _) _ rfl hm)
    rw [optional_text_ofOption] at hfront
    exact (Except.ok.inj hfront).symm
  · intro hm
    have hback : optional text room (Value.ofOption plain.back).tree = .ok decoration.back :=
      read_of_update (fun _ _ => rfl) (hlacks _ (.tail _ (.head _)) _ rfl hm)
    rw [optional_text_ofOption] at hback
    exact (Except.ok.inj hback).symm

/-- Decorations are also read with what is missing filled in; the decoration of a family that is
given is read from what is given for it alone. -/
theorem Decorations.reader_spec {decorations : Decorations}
    (h : Decorations.reader (room + 2) tree = .ok decorations) :
    Decorations.reader (room + 2) (tree.completed 1 usual.toValue) = .ok decorations ∧
      ∀ family part decoration, tree.Has family part → (family, decoration) ∈ decorations.named →
        Decoration.reader (room + 1) part = .ok decoration := by
  have hdecoration : ∀ {put : Decoration → Decorations → Decorations} {key : String}
      {decoration : Decoration}, (∀ value record, put value (put value record) = put value record) →
        put decoration usual = usual →
          Completes 0 (room + 1) usual (.may key Decoration.reader put) (key, decoration.toValue) :=
    fun htwice hblank => completes_may (Decoration.reader_tree room _) hblank htwice
      fun _ _ hread => hread
  -- The decorations themselves are not completed: what they lack, they do not have.
  have hread : Completable 0 (room + 1) usual _
      (usual.named.map fun entry => (entry.1, entry.2.toValue)) → _ :=
    record_read h
  obtain ⟨hcompleted, hhas, -⟩ := hread ⟨by decide, by simp [commutes_may], by
      refine .cons ?_ (.cons ?_ (.cons ?_ (.cons ?_ (.cons ?_ (.cons ?_ (.cons ?_ .nil)))))) <;>
        exact hdecoration (fun _ _ => rfl) rfl⟩
  simp only [List.forall_mem_cons] at hhas
  obtain ⟨hentity, hprojection, hqualification, hqualified, honSubtype, hselection, hquery, -⟩ :=
    hhas
  refine ⟨hcompleted, ?_⟩
  intro family part decoration hp hd
  simp only [named, List.mem_cons, Prod.mk.injEq, List.not_mem_nil, or_false] at hd
  rcases hd with ⟨rfl, rfl⟩ | ⟨rfl, rfl⟩ | ⟨rfl, rfl⟩ | ⟨rfl, rfl⟩ | ⟨rfl, rfl⟩ | ⟨rfl, rfl⟩ |
    ⟨rfl, rfl⟩
  · exact read_of_update (fun _ _ => rfl) (hentity part hp)
  · exact read_of_update (fun _ _ => rfl) (hprojection part hp)
  · exact read_of_update (fun _ _ => rfl) (hqualification part hp)
  · exact read_of_update (fun _ _ => rfl) (hqualified part hp)
  · exact read_of_update (fun _ _ => rfl) (honSubtype part hp)
  · exact read_of_update (fun _ _ => rfl) (hselection part hp)
  · exact read_of_update (fun _ _ => rfl) (hquery part hp)

/-- A layout is also read with what is missing filled in, in itself and in its sections; its
decorations are read from what is given for them alone. -/
theorem reader_spec {layout : Layout} (h : Layout.reader (room + 3) tree = .ok layout) :
    Layout.reader (room + 3) (completed tree) = .ok layout ∧
      ∀ group, tree.Has "decorations" group →
        Decorations.reader (room + 2) group = .ok layout.decorations := by
  have hread : Completable 1 (room + 2) usual _
      [("families", usual.families.toValue), ("decorations", usual.decorations.toValue),
        ("arguments", usual.parameters.toValue), ("scalars", usual.scalars.toValue)] → _ :=
    record_read h
  obtain ⟨hcompleted, hhas, -⟩ := hread ⟨by decide, by simp [commutes_may],
    .cons (completes_may (Families.reader_tree _ _) rfl (fun _ _ => rfl)
        fun _ _ => Families.reader_completed)
      (.cons (completes_may (Decorations.reader_tree _ _) rfl (fun _ _ => rfl)
          fun _ _ hsection => (Decorations.reader_spec hsection).1)
        (.cons (completes_may (ParameterNames.reader_tree _ _) rfl (fun _ _ => rfl)
            fun _ _ => ParameterNames.reader_completed)
          (.cons (completes_may (Scalars.reader_tree _ (by decide)) rfl (fun _ _ => rfl)
              fun _ _ => Scalars.reader_completed)
            .nil)))⟩
  exact ⟨hcompleted, fun group hm =>
    read_of_update (fun _ _ => rfl) (hhas _ (.tail _ (.head _)) group hm)⟩

end read

/-- What a layout or one of its sections lacks is filled in from the usual layout; what a section
has stays as it is. -/
theorem fills_completed (tree : Tree) :
    usual.toValue.tree.Fills tree (completed tree) ∧
      ∀ key default group, usual.toValue.tree.Has key default → tree.Has key group →
        ∃ filled, (completed tree).Has key filled ∧ default.Fills group filled ∧
          ∀ family part, group.Has family part → filled.Has family part := by
  refine ⟨Tree.fills_completed usual.toValue, ?_⟩
  rintro key default group ⟨members, ending, sound, hvalue, hm⟩ hg
  obtain ⟨rfl, rfl⟩ := Tree.object.inj hvalue
  obtain ⟨value, hd, rfl⟩ := Json.mem_memberTrees hm
  refine ⟨group.completed 1 value, ?_, Tree.fills_completed value,
    fun _ _ => Tree.has_completed_one value⟩
  have hfilled : (completed tree).Has key _ := Tree.has_completed hg
  rw [Json.lookup_of_mem (by decide) hd] at hfilled
  exact hfilled

/-! ## Texts -/

/-- A layout is read back from what is written of it, densely or on lines. -/
theorem decode_written {layout : Layout} (h : layout.scalars.Distinct) :
    ∀ text ∈ [layout.toValue.print, layout.toValue.pretty],
      decode Layout.reader text = .ok layout := by
  have hsound := layout.sound_toValue
  -- A layout takes three levels of the room for nested objects.
  have htree : Layout.reader (124 + 3) layout.toValue.tree = .ok layout := reader_tree _ h
  intro text hm
  simp only [List.mem_cons, List.not_mem_nil, or_false] at hm
  obtain rfl | rfl := hm
  · exact decode_of_tree htree (Json.Parsed.ofText_print hsound)
  · exact decode_of_tree htree (Json.Parsed.ofText_pretty hsound)

/-- A layout that maps no scalar twice is read back from what is written of it. A layout that was
read maps no scalar twice. It is also read with what is missing in it or in one of its sections
filled in from the usual layout. A part that is missing inside a decoration is absent from it,
whichever the usual decoration of its family is. -/
theorem reads_back :
    (∀ layout : Layout, layout.scalars.Distinct →
      ∀ text ∈ [layout.toValue.print, layout.toValue.pretty],
        decode Layout.reader text = .ok layout) ∧
    (∀ source found, decode Layout.reader source = .ok found →
      found.scalars.Distinct ∧
      Layout.reader Json.nestingLimit (completed (Json.Parsed.ofText source).tree) = .ok found ∧
      (∀ text, Json.Parsed.ofText text = ⟨completed (Json.Parsed.ofText source).tree, false⟩ →
        decode Layout.reader text = .ok found) ∧
      ∀ group family part decoration,
        (Json.Parsed.ofText source).tree.Has "decorations" group → group.Has family part →
          (family, decoration) ∈ found.decorations.named →
            (part.Lacks "prefix" → decoration.front = none) ∧
            (part.Lacks "postfix" → decoration.back = none)) ∧
    ∀ tree, usual.toValue.tree.Fills tree (completed tree) ∧
      ∀ key default group, usual.toValue.tree.Has key default → tree.Has key group →
        ∃ filled, (completed tree).Has key filled ∧ default.Fills group filled ∧
          ∀ family part, group.Has family part → filled.Has family part := by
  refine ⟨fun layout => decode_written, fun source found h => ?_, fills_completed⟩
  have hfound : Layout.reader (124 + 3) (Json.Parsed.ofText source).tree = .ok found :=
    reader_of_decode h
  obtain ⟨hcompleted, hgroup⟩ := reader_spec hfound
  refine ⟨distinct_of_reader hfound, hcompleted, fun text => decode_of_tree hcompleted, ?_⟩
  intro group family part decoration hg hp hm
  obtain ⟨-, hpart⟩ := Decorations.reader_spec (hgroup group hg)
  exact Decoration.absent_of_lacks (hpart family part decoration hp hm)

/-- A layout with most of its keys missing. The scalars that it maps are not in the order of their
names, and the decoration of its queries is empty. -/
def sparseValue : Value :=
  .object
    [ ("decorations", .object
        [("projection", .object [("prefix", .text "P")]), ("query", .object [])]),
      ("scalars", .object [("types", .object [("b", .text "B"), ("a", .text "A")])]) ]

/-- The same with the missing keys behind those that are there. -/
def filledValue : Value :=
  .object
    [ ("decorations", .object
        [ ("projection", .object [("prefix", .text "P")]), ("query", .object []),
          ("entity", .object []), ("qualification", .object [("postfix", .text "Qualification")]),
          ("qualified_projection", .object [("postfix", .text "QualifiedProjection")]),
          ("on_subtype", .object [("prefix", .text "on")]),
          ("selection", .object [("postfix", .text "Selection")]) ]),
      ("scalars", .object
        [ ("types", .object [("b", .text "B"), ("a", .text "A")]),
          ("fallback", .text "serde_json::Value") ]),
      ("families", Families.all.toValue), ("arguments", ParameterNames.usual.toValue) ]

/-- What both are read as. -/
def sparseLayout : Layout :=
  { usual with
    decorations := { Decorations.usual with projection := .before "P", query := .plain }
    scalars := { Scalars.usual with types := [("b", "B"), ("a", "A")] } }

/-- An empty decoration stays empty, the order of the scalars stays, and missing keys are read
like filled-in ones. -/
theorem reads_back_sparse :
    sparseLayout.scalars.Distinct ∧
    (∀ text ∈ [sparseLayout.toValue.print, sparseLayout.toValue.pretty],
      decode Layout.reader text = .ok sparseLayout) ∧
    decode Layout.reader sparseValue.print = .ok sparseLayout ∧
    decode Layout.reader filledValue.print = .ok sparseLayout ∧
    sparseLayout.decorations.projection.back = none ∧
    sparseLayout.decorations.query.back = none := by
  have hsparse : sparseValue.Sound :=
    sound_object ⟨sound_object ⟨sound_object (.text _), sound_object trivial⟩,
      sound_object (sound_object ⟨.text _, .text _⟩)⟩
  have hfilled : filledValue.Sound :=
    sound_object ⟨sound_object ⟨sound_object (.text _), sound_object trivial, sound_object trivial,
        sound_object (.text _), sound_object (.text _), sound_object (.text _),
        sound_object (.text _)⟩,
      sound_object ⟨sound_object ⟨.text _, .text _⟩, .text _⟩, Families.sound_toValue _,
      ParameterNames.sound_toValue _⟩
  have htree : Json.Parsed.ofText filledValue.print =
      ⟨completed (Json.Parsed.ofText sparseValue.print).tree, false⟩ := by
    rw [Json.Parsed.ofText_print hfilled, Json.Parsed.ofText_print hsparse]
    rfl
  have hdistinct : sparseLayout.scalars.Distinct := by decide
  have hread : decode Layout.reader sparseValue.print = .ok sparseLayout := by decide +kernel
  obtain ⟨hwritten, htext, -⟩ := reads_back
  obtain ⟨-, -, hagain, hparts⟩ := htext sparseValue.print sparseLayout hread
  rw [Json.Parsed.ofText_print hsparse] at hparts
  have hgroup : sparseValue.tree.Has "decorations" _ := ⟨_, _, _, rfl, .head _⟩
  obtain ⟨-, hprojection⟩ := hparts _ "projection" _ (.before "P") hgroup
    ⟨_, _, _, rfl, .head _⟩ (.tail _ (.head _))
  obtain ⟨-, hquery⟩ := hparts _ "query" _ .plain hgroup
    ⟨_, _, _, rfl, .tail _ (.head _)⟩ (by decide)
  exact ⟨hdistinct, hwritten sparseLayout hdistinct, hread, hagain filledValue.print htree,
    hprojection ⟨_, _, rfl, by decide⟩, hquery ⟨_, _, rfl, by decide⟩⟩

end QuerySurface.Layout

import QuerySurface.Proofs.Layout.ReadBack
import QuerySurface.Traits.Render

/-!
# Looking scalars up

A mapping of scalars is asked for the very name first and then for any name that differs in case
only, in the order in which the scalars were mapped. A source of settings may give its keys in lower
case. Where no two keys differ in case only this makes no difference: neither the case of the keys
nor that of the scalar decides about a type, so what is generated stays as it is.
-/

namespace QuerySurface

namespace Text

/-- A letter in lower case stays as it is. -/
theorem toLower_toLower (c : Char) : c.toLower.toLower = c.toLower := by
  delta Char.toLower
  grind

/-- A text in lower case stays as it is. -/
theorem lowerAscii_lowerAscii (text : String) : lowerAscii (lowerAscii text) = lowerAscii text := by
  rw [lowerAscii, lowerAscii, String.toList_ofList, List.map_map]
  exact congrArg String.ofList (List.map_congr_left fun c _ => toLower_toLower c)

/-- Texts differ at most in case if they are the same in lower case. -/
theorem equalIgnoringCase_iff {a b : String} :
    equalIgnoringCase a b = true ↔ lowerAscii a = lowerAscii b := by
  rw [equalIgnoringCase, beq_iff_eq]

end Text

namespace Layout.Scalars

/-- No two mapped scalars differ in case only. -/
def Apart (scalars : Scalars) : Prop :=
  ((Catalog.names scalars.types).map Text.lowerAscii).Nodup

instance (scalars : Scalars) : Decidable scalars.Apart :=
  inferInstanceAs (Decidable ((Catalog.names scalars.types).map Text.lowerAscii).Nodup)

/-- An entry with its key in lower case. -/
def loweredEntry (entry : String × String) : String × String :=
  (Text.lowerAscii entry.1, entry.2)

/-- A mapping with its keys in lower case, where they stand. -/
def lowered (scalars : Scalars) : Scalars :=
  { scalars with types := scalars.types.map loweredEntry }

/-- What a mapping has to say about a scalar. -/
inductive Answers (scalars : Scalars) (scalar : String) : String → Prop where
  /-- The type of the very name. -/
  | exact {front back : List (String × String)} {type : String}
    (types : scalars.types = front ++ (scalar, type) :: back)
    (earlier : scalar ∉ Catalog.names front) : Answers scalars scalar type
  /-- Without one, the type of the first name that differs in case only. -/
  | similar {front back : List (String × String)} {key type : String}
    (inexact : scalar ∉ Catalog.names scalars.types)
    (types : scalars.types = front ++ (key, type) :: back)
    (equal : Text.equalIgnoringCase key scalar = true)
    (earlier : ∀ entry ∈ front, Text.equalIgnoringCase entry.1 scalar = false) :
    Answers scalars scalar type
  /-- Without one of these, the fallback. -/
  | fallback (none : ∀ entry ∈ scalars.types, Text.equalIgnoringCase entry.1 scalar = false) :
    Answers scalars scalar scalars.fallback

variable {scalars : Scalars} {scalar other type : String}

/-! ## Answers -/

/-- The type of a scalar is an answer. -/
theorem answers_typeOf (scalars : Scalars) (scalar : String) :
    scalars.Answers scalar (scalars.typeOf scalar) := by
  rw [typeOf]
  cases hexact : Catalog.find? scalar scalars.types with
  | some entry =>
    obtain ⟨rfl, front, back, htypes, hearlier⟩ := Catalog.find?_eq_some_iff.mp hexact
    exact .exact htypes hearlier
  | none =>
    cases hsimilar : scalars.types.find? (Text.equalIgnoringCase ·.1 scalar) with
    | some entry =>
      obtain ⟨hequal, front, back, htypes, hearlier⟩ := List.find?_eq_some_iff_append.mp hsimilar
      exact .similar (Catalog.find?_eq_none_iff.mp hexact) htypes hequal fun entry he => by
        simpa using hearlier entry he
    | none => exact .fallback fun entry he => by simpa using List.find?_eq_none.mp hsimilar entry he

/-- A scalar has one answer. -/
theorem Answers.eq_typeOf (h : scalars.Answers scalar type) : scalars.typeOf scalar = type := by
  cases h with
  | @exact front back _ htypes hearlier =>
    have hfound : Catalog.find? scalar scalars.types = some (scalar, type) :=
      Catalog.find?_eq_some_iff.mpr ⟨rfl, front, back, htypes, hearlier⟩
    rw [typeOf, hfound]
  | @similar front back key _ hinexact htypes hequal hearlier =>
    have hfound : scalars.types.find? (Text.equalIgnoringCase ·.1 scalar) = some (key, type) :=
      List.find?_eq_some_iff_append.mpr ⟨hequal, front, back, htypes,
        fun entry he => by simpa using hearlier entry he⟩
    rw [typeOf, Catalog.find?_eq_none_iff.mpr hinexact, hfound]
  | fallback hmissing =>
    have hinexact : scalar ∉ Catalog.names scalars.types := by
      intro hm
      obtain ⟨entry, he, rfl⟩ := List.mem_map.mp hm
      exact Bool.false_ne_true ((hmissing entry he).symm.trans (Text.equalIgnoringCase_iff.mpr rfl))
    have hnone : scalars.types.find? (Text.equalIgnoringCase ·.1 scalar) = none :=
      List.find?_eq_none.mpr fun entry he => by simpa using hmissing entry he
    rw [typeOf, Catalog.find?_eq_none_iff.mpr hinexact, hnone]

/-- The type of a scalar is the answer. -/
theorem typeOf_eq_iff : scalars.typeOf scalar = type ↔ scalars.Answers scalar type :=
  ⟨fun h => h ▸ answers_typeOf scalars scalar, Answers.eq_typeOf⟩

/-! ## Keys that do not differ in case only -/

/-- Entries whose keys are the same in lower case are one. -/
theorem Apart.eq_of_equal (h : scalars.Apart) {entry twin : String × String}
    (he : entry ∈ scalars.types) (ht : twin ∈ scalars.types)
    (hk : Text.lowerAscii entry.1 = Text.lowerAscii twin.1) : entry = twin := by
  rw [Apart, Catalog.names, List.map_map] at h
  exact List.inj_on_of_nodup_map h he ht hk

/-- Lower case leaves keys apart. -/
theorem Apart.lowered (h : scalars.Apart) : scalars.lowered.Apart := by
  have hnames : (Catalog.names scalars.lowered.types).map Text.lowerAscii =
      (Catalog.names scalars.types).map Text.lowerAscii := by
    rw [Scalars.lowered, Catalog.names, Catalog.names, List.map_map, List.map_map, List.map_map]
    exact List.map_congr_left fun entry _ => Text.lowerAscii_lowerAscii entry.1
  rw [Apart, hnames]
  exact h

/-- The type of a scalar is found by its name in lower case. -/
theorem Apart.typeOf_eq (h : scalars.Apart) (scalar : String) :
    scalars.typeOf scalar =
      ((scalars.types.find? fun entry => Text.lowerAscii entry.1 == Text.lowerAscii scalar).map
        Prod.snd).getD scalars.fallback := by
  change _ = ((scalars.types.find? (Text.equalIgnoringCase ·.1 scalar)).map _).getD _
  rw [typeOf]
  cases hexact : Catalog.find? scalar scalars.types with
  | none => cases scalars.types.find? (Text.equalIgnoringCase ·.1 scalar) <;> rfl
  | some entry =>
    have hmem := Catalog.mem_of_find? hexact
    have hequal : Text.equalIgnoringCase entry.1 scalar = true :=
      Text.equalIgnoringCase_iff.mpr (congrArg Text.lowerAscii (Catalog.name_of_find? hexact))
    cases hsimilar : scalars.types.find? (Text.equalIgnoringCase ·.1 scalar) with
    | none => exact absurd hequal (List.find?_eq_none.mp hsimilar entry hmem)
    | some twin =>
      obtain ⟨htwin, -⟩ := List.find?_eq_some_iff_append.mp hsimilar
      obtain rfl := h.eq_of_equal hmem (List.mem_of_find?_eq_some hsimilar)
        ((Text.equalIgnoringCase_iff.mp hequal).trans (Text.equalIgnoringCase_iff.mp htwin).symm)
      rfl

/-- The case of a scalar does not decide about its type. -/
theorem Apart.typeOf_of_equal (h : scalars.Apart)
    (he : Text.equalIgnoringCase scalar other = true) :
    scalars.typeOf scalar = scalars.typeOf other := by
  rw [h.typeOf_eq, h.typeOf_eq, Text.equalIgnoringCase_iff.mp he]

/-- The case of the keys does not decide about a type. -/
theorem Apart.typeOf_lowered (h : scalars.Apart) (scalar : String) :
    scalars.lowered.typeOf scalar = scalars.typeOf scalar := by
  have hfound : scalars.lowered.types.find?
        (fun entry => Text.lowerAscii entry.1 == Text.lowerAscii scalar) =
      (scalars.types.find? fun entry => Text.lowerAscii entry.1 == Text.lowerAscii scalar).map
        loweredEntry := by
    rw [Scalars.lowered, List.find?_map]
    simp only [Function.comp_def, loweredEntry, Text.lowerAscii_lowerAscii]
  rw [h.lowered.typeOf_eq, h.typeOf_eq, hfound, Option.map_map]
  rfl

end Layout.Scalars

namespace Traits

open Layout (Scalars)

variable {scalars others : Scalars}

/-- The type of a value depends on a mapping for the types of scalars only. -/
theorem valueType_eq (h : ∀ scalar, scalars.typeOf scalar = others.typeOf scalar) :
    valueType scalars = valueType others := by
  funext type
  cases type with
  | value shape name list nullable => simp only [valueType, h]
  | configurator target => rfl

/-- The source of a node depends on a mapping for the types of scalars only. -/
theorem render_eq (h : ∀ scalar, scalars.typeOf scalar = others.typeOf scalar)
    (plan : Plan.NodePlan) : render scalars plan = render others plan := by
  have hparameter : parameterText scalars = parameterText others := by
    funext parameter
    simp only [parameterText, parameterType, valueType_eq h]
  have hmember : memberLines scalars = memberLines others := by
    funext member
    cases member <;> simp only [memberLines, propertyText, methodText, valueType_eq h, hparameter]
  have htrait : traitLines scalars = traitLines others := by
    funext abstraction
    simp only [traitLines, hmember]
  simp only [render, planLines, htrait]

end Traits

namespace Layout.Scalars

/-- Looking scalars up. The type of a scalar is that of its very name, else that of the first name
that differs in case only, else the fallback. Where no two mapped names differ in case only, scalars
that do have one type, and putting all keys into lower case changes neither the type of any scalar
nor the source of any node. -/
theorem typeOf_lookup (scalars : Scalars) :
    (∀ scalar type, scalars.typeOf scalar = type ↔ scalars.Answers scalar type) ∧
      (scalars.Apart →
        (∀ scalar other, Text.equalIgnoringCase scalar other = true →
          scalars.typeOf scalar = scalars.typeOf other) ∧
        (∀ scalar, scalars.lowered.typeOf scalar = scalars.typeOf scalar) ∧
        ∀ plan, Traits.render scalars.lowered plan = Traits.render scalars plan) :=
  ⟨fun _ _ => typeOf_eq_iff, fun h =>
    ⟨fun _ _ => h.typeOf_of_equal, h.typeOf_lowered, Traits.render_eq h.typeOf_lowered⟩⟩

/-- A mapping in which two keys differ in case only. -/
def dated : Scalars :=
  ⟨[("datetime", "Day"), ("DateTime", "Instant")], "Text"⟩

/-- Of two keys that differ in case only, the exact one counts, and the first one for other
scalars. The keys of the usual mapping may be put into lower case. -/
theorem typeOf_lookup_dated :
    dated.typeOf "DateTime" = "Instant" ∧ dated.typeOf "DATETIME" = "Day" ∧ ¬dated.Apart ∧
      usual.Apart ∧ usual.lowered.typeOf "Int" = "i32" ∧ usual.typeOf "int" = "i32" := by
  have hexact : dated.types = [("datetime", "Day")] ++ ("DateTime", "Instant") :: [] := rfl
  have hfirst : dated.types = [] ++ ("datetime", "Day") :: [("DateTime", "Instant")] := rfl
  have hint : usual.typeOf "Int" = "i32" := by decide +kernel
  obtain ⟨hanswers, -⟩ := typeOf_lookup dated
  have hapart : usual.Apart := by decide +kernel
  obtain ⟨hsame, hlowered, -⟩ := (typeOf_lookup usual).2 hapart
  refine ⟨?_, ?_, by decide +kernel, hapart, (hlowered "Int").trans hint, ?_⟩
  · exact (hanswers _ _).mpr (.exact hexact (by decide +kernel))
  · exact (hanswers _ _).mpr (.similar (by decide +kernel) hfirst (by decide +kernel) (by simp))
  · exact (hsame "int" "Int" (by decide +kernel)).trans hint

end Layout.Scalars

end QuerySurface

import QuerySurface.Proofs.Layout.Decorated
import QuerySurface.Proofs.Text.Names

/-!
# Names that a layout makes

The check of a layout looks at prefixes and postfixes one by one, while names are put together from
them, from nodes and from capitalised fields. Where the check passes, whatever is put together is a
name again if the parts from the schema are names: a prefix starts a name, and everything behind it
goes on with word characters. A member that narrows to a subtype is decorated on one side at least,
so its name is longer than that of the subtype.
-/

namespace QuerySurface.Layout

open Text (IsName)

/-! ## Decorated names -/

namespace Decoration

variable {decoration : Decoration} {name : String}

/-- A name behind a prefix is capitalised. -/
theorem apply_of_front_eq_some {front : String} (h : decoration.front = some front) :
    decoration.apply name = front ++ Text.capitalize name ++ decoration.tail := by
  rw [apply, h, tail]

/-- A name without a prefix stays as it is. -/
theorem apply_of_front_eq_none (h : decoration.front = none) :
    decoration.apply name = name ++ decoration.tail := by
  rw [apply, h, tail]

/-- What stands for a name in a decorated one is a name. -/
theorem isName_shown (h : IsName name.toList) : IsName (decoration.shown name).toList := by
  rw [shown]
  split
  · exact h.capitalize
  · exact h

/-- What stands for a name in a decorated one is as long as the name. -/
theorem length_shown (h : IsName name.toList) :
    (decoration.shown name).length = name.length := by
  rw [shown]
  split
  · exact h.length_capitalize
  · rfl

/-- A well-formed prefix and a name are a name. -/
theorem isName_body (hd : decoration.WellFormed) (hn : IsName name.toList) :
    IsName (decoration.body name).toList := by
  have hshown : IsName (decoration.shown name).toList := isName_shown hn
  rw [body, String.toList_append]
  cases hfront : decoration.front with
  | none => exact hshown
  | some front =>
    have hstart : IsName front.toList := Text.isIdentifier_iff.mp (hd.front front hfront)
    exact hstart.append hshown.isWordChar

/-- A well-formed postfix is made of word characters. -/
theorem isWordChar_tail (hd : decoration.WellFormed) :
    ∀ c ∈ decoration.tail.toList, Text.isWordChar c = true := by
  rw [tail]
  cases hback : decoration.back with
  | none => exact List.forall_mem_nil _
  | some back =>
    have hfragment : Text.isFragment back.toList = true := hd.back back hback
    exact List.all_eq_true.mp (Bool.and_eq_true_iff.mp hfragment).2

/-- A well-formed decoration makes names of names. -/
theorem isName_apply (hd : decoration.WellFormed) (hn : IsName name.toList) :
    IsName (decoration.apply name).toList := by
  rw [apply_eq, String.toList_append]
  exact (isName_body hd hn).append (isWordChar_tail hd)

/-- A decoration adds its prefix and its postfix to the length of a name. -/
theorem length_apply (hn : IsName name.toList) :
    (decoration.apply name).length =
      (decoration.front.getD "").length + name.length + decoration.tail.length := by
  rw [apply_eq, body, String.length_append, String.length_append, length_shown hn]

/-- A well-formed prefix has a character. -/
theorem WellFormed.front_ne (hd : decoration.WellFormed) : decoration.front ≠ some "" := by
  intro he
  have hidentifier := hd.front "" he
  exact absurd hidentifier (by decide)

/-- A well-formed decoration that is there makes names longer. -/
theorem length_lt_apply (hd : decoration.WellFormed) (he : decoration.isEmpty = false)
    (hn : IsName name.toList) : name.length < (decoration.apply name).length := by
  have hpositive (text : String) (ht : text ≠ "") : 0 < text.length := by
    have hlength : text.length ≠ 0 := fun hzero => ht (String.length_eq_zero_iff.mp hzero)
    omega
  have hlength : (decoration.apply name).length =
      (decoration.front.getD "").length + name.length + decoration.tail.length :=
    length_apply hn
  rw [tail] at hlength
  have hfront := hd.front_ne
  have hback := hd.back_ne
  cases hf : decoration.front with
  | some front =>
    rw [hf] at hfront hlength
    have hadded := hpositive front fun h => hfront (congrArg some h)
    simp only [Option.getD_some] at hlength
    omega
  | none =>
    cases hb : decoration.back with
    | some back =>
      rw [hb] at hback hlength
      have hadded := hpositive back fun h => hback (congrArg some h)
      simp only [Option.getD_some] at hlength
      omega
    | none => simp [isEmpty, hf, hb] at he

end Decoration

/-- Members that narrow have a well-formed decoration. -/
theorem Accepted.wellFormed_onSubtype {layout : Layout} (hc : layout.Accepted) :
    layout.decorations.onSubtype.WellFormed :=
  hc.decorations ("on_subtype", layout.decorations.onSubtype) (by simp [Decorations.named])

/-- A node and a field, joined, are a name. -/
theorem isName_joined {node field : String} (hn : IsName node.toList)
    (hf : IsName field.toList) : IsName (joined node field).toList := by
  rw [joined, String.toList_append]
  exact hn.append hf.capitalize.isWordChar

/-! ## All names of a layout -/

/-- A layout makes names of names, whatever it names. -/
structure KeepsNames (layout : Layout) : Prop where
  /-- Entities. -/
  entity : ∀ node, IsName node.toList → IsName (layout.decorations.entityName node).toList
  /-- Projections. -/
  projection : ∀ node, IsName node.toList →
    IsName (layout.decorations.projectionName node).toList
  /-- Qualifications. -/
  qualification : ∀ node, IsName node.toList →
    IsName (layout.decorations.qualificationName node).toList
  /-- Qualified projections. -/
  qualifiedProjection : ∀ node, IsName node.toList →
    IsName (layout.decorations.qualifiedProjectionName node).toList
  /-- Members that narrow to a subtype. -/
  onSubtype : ∀ subtype, IsName subtype.toList →
    IsName (layout.decorations.onSubtypeName subtype).toList
  /-- Selections. -/
  selection : ∀ node field, IsName node.toList → IsName field.toList →
    IsName (layout.decorations.selectionName node field).toList
  /-- Queries. -/
  query : ∀ node field, IsName node.toList → IsName field.toList →
    IsName (layout.decorations.queryName node field).toList
  /-- What configures a nested selection. -/
  nested : ∀ node : Schema.Node, IsName node.name.toList →
    IsName (layout.decorations.nestedName node).toList
  /-- The parameter that configures a projection. -/
  projectionParameter : IsName layout.parameters.projection.toList
  /-- The parameter that configures a query. -/
  queryParameter : IsName layout.parameters.query.toList
  /-- Members that narrow have longer names than what they narrow to. -/
  longer : ∀ subtype, IsName subtype.toList →
    subtype.length < (layout.decorations.onSubtypeName subtype).length

/-- A layout that passes its check makes names of names. -/
theorem keepsNames_of_check {layout : Layout} (hc : layout.check = .ok ()) :
    layout.KeepsNames := by
  have haccepted : layout.Accepted := check_eq_ok_iff.mp hc
  have hdecorations := haccepted.decorations
  simp only [Decorations.named, List.forall_mem_cons] at hdecorations
  obtain ⟨he, hp, hq, hqp, ho, hs, hy, -⟩ := hdecorations
  exact
    { entity := fun _ hn => Decoration.isName_apply he hn
      projection := fun _ hn => Decoration.isName_apply hp hn
      qualification := fun _ hn => Decoration.isName_apply hq hn
      qualifiedProjection := fun _ hn => Decoration.isName_apply hqp hn
      onSubtype := fun _ hn => Decoration.isName_apply ho hn
      selection := fun _ _ hn hf => Decoration.isName_apply hs (isName_joined hn hf)
      query := fun _ _ hn hf => Decoration.isName_apply hy (isName_joined hn hf)
      nested := by
        intro node hn
        rw [Decorations.nestedName]
        split
        · exact Decoration.isName_apply hqp hn
        · exact Decoration.isName_apply hp hn
      projectionParameter := Text.isIdentifier_iff.mp haccepted.projectionParameter
      queryParameter := Text.isIdentifier_iff.mp haccepted.queryParameter
      longer := fun _ hn => Decoration.length_lt_apply ho haccepted.onSubtype hn }

/-- A layout that decorates on either side, with digits and underscores where they may stand. -/
def markedLayout : Layout :=
  { Layout.usual with
    decorations :=
      { entity := ⟨some "_", some "2"⟩
        projection := ⟨some "v2", none⟩
        qualification := ⟨none, some "_"⟩
        qualifiedProjection := ⟨some "Q", some "Q"⟩
        onSubtype := ⟨none, some "0"⟩
        selection := ⟨some "_", none⟩
        query := ⟨none, some "9"⟩ }
    parameters := ⟨"_", "__"⟩ }

/-- This layout passes its check, and makes names of names. -/
theorem keepsNames_marked : markedLayout.check = .ok () ∧ markedLayout.KeepsNames := by
  have hc : markedLayout.check = .ok () := by decide
  exact ⟨hc, keepsNames_of_check hc⟩

end QuerySurface.Layout

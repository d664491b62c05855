import QuerySurface.Proofs.Schema.Hierarchy
import Mathlib.Data.List.Nodup
import Mathlib.Data.List.TakeWhile

/-!
# Chains of overridden fields

A chain goes from field to field and may run into a circle of interfaces, so it is walked for as
many steps as the graph has fields. After that many steps every field has been passed that ever
will be: a walk that still found a new field would have passed more fields than there are. A
longer walk only repeats fields at the end of the chain, and the comments that stand in for
missing ones are the same for it.
-/

namespace QuerySurface.Schema

/-! ## Repetitions at the end -/

/-- A list goes on behind another with entries that it had already. -/
def Repeats {α : Type} (short long : List α) : Prop :=
  ∃ extra, long = short ++ extra ∧ ∀ entry ∈ extra, entry ∈ short

namespace Repeats

variable {α β : Type} {short long : List α}

/-- A list goes on behind itself with nothing. -/
theorem refl (short : List α) : Repeats short short :=
  ⟨[], (List.append_nil _).symm, by simp⟩

/-- A longer list has no other entries. -/
theorem mem (h : Repeats short long) {entry : α} (hm : entry ∈ long) : entry ∈ short := by
  obtain ⟨extra, rfl, hextra⟩ := h
  rcases List.mem_append.mp hm with hs | he
  · exact hs
  · exact hextra entry he

/-- Mapped entries repeat as the entries do. -/
theorem map (h : Repeats short long) (f : α → β) : Repeats (short.map f) (long.map f) := by
  obtain ⟨extra, rfl, hextra⟩ := h
  refine ⟨extra.map f, List.map_append, ?_⟩
  intro entry hm
  obtain ⟨source, hs, rfl⟩ := List.mem_map.mp hm
  exact List.mem_map_of_mem (hextra source hs)

/-- Chosen entries repeat as the entries do. -/
theorem filterMap (h : Repeats short long) (f : α → Option β) :
    Repeats (short.filterMap f) (long.filterMap f) := by
  obtain ⟨extra, rfl, hextra⟩ := h
  refine ⟨extra.filterMap f, List.filterMap_append, ?_⟩
  intro entry hm
  obtain ⟨source, hs, hf⟩ := List.mem_filterMap.mp hm
  exact List.mem_filterMap.mpr ⟨source, hextra source hs, hf⟩

/-- The beginning as far as every entry is wanted. -/
theorem takeWhile (h : Repeats short long) (wanted : α → Bool) :
    Repeats (short.takeWhile wanted) (long.takeWhile wanted) := by
  obtain ⟨extra, rfl, hextra⟩ := h
  by_cases hall : ∀ entry ∈ short, wanted entry = true
  · have hshort : short.takeWhile wanted = short := List.takeWhile_eq_self_iff.mpr hall
    rw [List.takeWhile_append_of_pos hall, hshort]
    refine ⟨extra.takeWhile wanted, rfl, ?_⟩
    intro entry hm
    exact hextra entry ((List.takeWhile_sublist wanted).subset hm)
  · -- The beginning ends inside the shorter list.
    have hsame : (short ++ extra).takeWhile wanted = short.takeWhile wanted := by
      rw [List.takeWhile_append, if_neg]
      intro hlength
      apply hall
      have hwhole := (List.takeWhile_prefix wanted).eq_of_length hlength
      exact List.takeWhile_eq_self_iff.mp hwhole
    rw [hsame]
    exact .refl _

/-- What is found first in the longer list is found in the shorter one. -/
theorem find?_eq (h : Repeats short long) (wanted : α → Bool) :
    long.find? wanted = short.find? wanted := by
  obtain ⟨extra, rfl, hextra⟩ := h
  rw [List.find?_append]
  cases hs : short.find? wanted with
  | some entry => rfl
  | none =>
    have hnone := List.find?_eq_none.mp hs
    have hextra : extra.find? wanted = none :=
      List.find?_eq_none.mpr fun entry hm => hnone entry (hextra entry hm)
    rw [hextra]
    rfl

end Repeats

namespace Graph

/-! ## Fields on a chain -/

/-- A node of the graph has the field. -/
theorem mem_fields_iff {graph : Graph} {field : Field} :
    field ∈ graph.fields ↔ ∃ node ∈ graph.nodes, field ∈ node.fields :=
  List.mem_flatMap

/-- What is overridden is a field of the graph. -/
theorem Placed.overridden?_mem {graph : Graph} (hp : graph.Placed) {field next : Field}
    (hf : field ∈ graph.fields) (h : graph.overridden? field = some next) :
    next ∈ graph.fields := by
  obtain ⟨node, hn, hm⟩ := mem_fields_iff.mp hf
  obtain ⟨parent, hi, hnext, -⟩ := exists_of_overridden? hp hn hm h
  exact mem_fields_iff.mpr ⟨parent, (mem_resolve hi).1, hnext⟩

/-- The fields on the chain of a field are fields of the graph. -/
theorem Placed.mem_of_mem_chainFor {graph : Graph} (hp : graph.Placed) {steps : Nat}
    {field other : Field} (hf : field ∈ graph.fields) (h : other ∈ graph.chainFor steps field) :
    other ∈ graph.fields := by
  induction steps generalizing field with
  | zero => exact List.mem_singleton.mp h ▸ hf
  | succ steps ih =>
    rw [chainFor] at h
    split at h
    · rename_i next hn
      rcases List.mem_cons.mp h with rfl | hm
      · exact hf
      · exact ih (hp.overridden?_mem hf hn) hm
    · exact List.mem_singleton.mp h ▸ hf

section Walks

variable (graph : Graph)

/-- A field is on its own chain. -/
theorem mem_chainFor_self (steps : Nat) (field : Field) : field ∈ graph.chainFor steps field := by
  cases steps with
  | zero => exact List.mem_singleton_self field
  | succ steps =>
    rw [chainFor]
    split <;> exact List.mem_cons_self

/-- One more step passes what the fields passed so far override. -/
theorem overridden?_mem_chainFor {steps : Nat} {field other next : Field}
    (hm : other ∈ graph.chainFor steps field) (hn : graph.overridden? other = some next) :
    next ∈ graph.chainFor (steps + 1) field := by
  induction steps generalizing field with
  | zero =>
    have hother : other = field := List.mem_singleton.mp hm
    rw [← hother, chainFor, hn]
    exact List.mem_cons_of_mem _ (List.mem_singleton_self next)
  | succ steps ih =>
    rw [chainFor] at hm ⊢
    cases hf : graph.overridden? field with
    | none =>
      rw [hf] at hm
      have hother : other = field := List.mem_singleton.mp hm
      rw [hother, hf] at hn
      cases hn
    | some behind =>
      rw [hf] at hm
      rcases List.mem_cons.mp hm with hother | hm
      · rw [hother, hf] at hn
        rw [← Option.some.inj hn]
        exact List.mem_cons_of_mem _ (graph.mem_chainFor_self (steps + 1) behind)
      · exact List.mem_cons_of_mem _ (ih hm)

/-- One more step adds nothing, or one field that a field passed so far overrides. -/
theorem chainFor_succ (steps : Nat) (field : Field) :
    graph.chainFor (steps + 1) field = graph.chainFor steps field ∨
      ∃ next, graph.chainFor (steps + 1) field = graph.chainFor steps field ++ [next] ∧
        ∃ last ∈ graph.chainFor steps field, graph.overridden? last = some next := by
  induction steps generalizing field with
  | zero =>
    rw [chainFor, chainFor]
    cases hf : graph.overridden? field with
    | none => exact .inl rfl
    | some next => exact .inr ⟨next, rfl, field, List.mem_singleton_self field, hf⟩
  | succ steps ih =>
    rw [chainFor, chainFor]
    cases hf : graph.overridden? field with
    | none => exact .inl rfl
    | some behind =>
      rcases ih behind with hsame | ⟨next, hnext, last, hlast, hover⟩
      · exact .inl (congrArg (field :: ·) hsame)
      · refine .inr ⟨next, congrArg (field :: ·) hnext, last, ?_, hover⟩
        exact List.mem_cons_of_mem _ hlast

/-- One more step passes no other field. -/
def Passed (steps : Nat) (field : Field) : Prop :=
  ∀ other ∈ graph.chainFor (steps + 1) field, other ∈ graph.chainFor steps field

/-- If a step passes no other field, the next one does not either. -/
theorem Passed.succ {graph : Graph} {steps : Nat} {field : Field}
    (h : graph.Passed steps field) : graph.Passed (steps + 1) field := by
  intro other hm
  rcases graph.chainFor_succ (steps + 1) field with hsame | ⟨next, hnext, last, hlast, hover⟩
  · rwa [hsame] at hm
  · rw [hnext] at hm
    rcases List.mem_append.mp hm with hold | hnew
    · exact hold
    · rw [List.mem_singleton.mp hnew]
      exact graph.overridden?_mem_chainFor (h last hlast) hover

/-- As long as every step passes another field, no field is passed twice. -/
theorem nodup_of_not_passed {steps : Nat} {field : Field} (h : ¬graph.Passed steps field) :
    (graph.chainFor (steps + 1) field).Nodup ∧
      (graph.chainFor (steps + 1) field).length = steps + 2 := by
  have hstep : ∀ steps, ¬graph.Passed steps field → (graph.chainFor steps field).Nodup →
      (graph.chainFor (steps + 1) field).Nodup ∧
        (graph.chainFor (steps + 1) field).length = (graph.chainFor steps field).length + 1 := by
    intro steps hnew hn
    rcases graph.chainFor_succ steps field with hsame | ⟨next, hnext, -⟩
    · exact absurd (fun other hm => hsame ▸ hm) hnew
    · have hother : next ∉ graph.chainFor steps field := by
        intro hm
        apply hnew
        intro other ho
        rw [hnext] at ho
        rcases List.mem_append.mp ho with hold | he
        · exact hold
        · exact List.mem_singleton.mp he ▸ hm
      have hconcat := hn.concat hother
      rw [List.concat_eq_append] at hconcat
      rw [hnext]
      exact ⟨hconcat, by simp⟩
  induction steps with
  | zero => exact hstep 0 h (List.nodup_singleton field)
  | succ steps ih =>
    obtain ⟨hn, hl⟩ := ih fun hpassed => h hpassed.succ
    obtain ⟨hnext, hlength⟩ := hstep (steps + 1) h hn
    exact ⟨hnext, by omega⟩

end Walks

/-- After as many steps as there are fields, every field of the chain has been passed. -/
theorem Placed.passed {graph : Graph} (hp : graph.Placed) {field : Field}
    (hf : field ∈ graph.fields) {steps : Nat} (hs : graph.fields.length ≤ steps) :
    graph.Passed steps field := by
  by_contra hnot
  obtain ⟨hn, hl⟩ := graph.nodup_of_not_passed hnot
  have hsub : graph.chainFor (steps + 1) field ⊆ graph.fields :=
    fun other hm => hp.mem_of_mem_chainFor hf hm
  have hlength : (graph.chainFor (steps + 1) field).length ≤ graph.fields.length :=
    (hn.subperm hsub).length_le
  omega

/-- A longer walk only repeats fields of the chain. -/
theorem Placed.repeats_chainFor {graph : Graph} (hp : graph.Placed) {field : Field}
    (hf : field ∈ graph.fields) {steps : Nat} (hs : graph.fields.length ≤ steps) :
    Repeats (graph.chain field) (graph.chainFor steps field) := by
  induction steps, hs using Nat.le_induction with
  | base => exact .refl _
  | succ steps hs ih =>
    rcases graph.chainFor_succ steps field with hsame | ⟨next, hnext, -⟩
    · rwa [hsame]
    · have hmem : next ∈ graph.chainFor steps field := by
        apply hp.passed hf hs
        rw [hnext]
        exact List.mem_append_right _ (List.mem_singleton_self next)
      have hrepeated : next ∈ graph.chain field := ih.mem hmem
      obtain ⟨extra, he, hextra⟩ := ih
      refine ⟨extra ++ [next], ?_, ?_⟩
      · rw [hnext, he, List.append_assoc]
      · intro other hm
        rcases List.mem_append.mp hm with ho | ho
        · exact hextra other ho
        · exact List.mem_singleton.mp ho ▸ hrepeated

/-! ## Comments along a chain -/

/-- The first comments do not change with repetitions. -/
theorem firstComments_of_repeats {short long : List (List String)} (h : Repeats short long) :
    firstComments long = firstComments short := by
  rw [firstComments, firstComments, h.find?_eq]

/-- The arguments of a name along a chain are those of the fields in front of the first that has
none. -/
theorem argumentsAlong_eq (name : String) (fields : List Field) :
    argumentsAlong name fields =
      (fields.takeWhile fun field => (field.argument? name).isSome).filterMap
        (·.argument? name) := by
  induction fields with
  | nil => rfl
  | cons field rest ih =>
    rw [argumentsAlong, List.takeWhile_cons]
    cases h : field.argument? name with
    | none => rfl
    | some argument =>
      rw [Option.isSome_some, if_pos rfl, List.filterMap_cons, h, ih]

/-- The arguments along a chain are repeated with its fields. -/
theorem repeats_argumentsAlong {short long : List Field} (h : Repeats short long)
    (name : String) : Repeats (argumentsAlong name short) (argumentsAlong name long) := by
  rw [argumentsAlong_eq, argumentsAlong_eq]
  exact (h.takeWhile _).filterMap _

end Graph

end QuerySurface.Schema

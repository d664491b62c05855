import QuerySurface.Proofs.Json.Values
import Mathlib.Data.List.Forall2
import Mathlib.Data.Option.Basic

/-!
# Objects as maps

The members of an object have an order that says nothing: values are the same if their objects have
the same keys with the same values. A reader sorts the members of every object, so what it reads
back of a written value is the same value and in general not an equal one. This module shows it for
values without numbers, in which no key of an object is there twice.
-/

namespace QuerySurface.Json

namespace Value

/-- Values that are equal up to the order of members. -/
inductive Same : Value → Value → Prop where
  /-- The absent value. -/
  | null : Same .null .null
  /-- Equal truth values. -/
  | flag (value : Bool) : Same (.flag value) (.flag value)
  /-- Equal numbers. -/
  | number (value : Number) : Same (.number value) (.number value)
  /-- Equal texts. -/
  | text (value : String) : Same (.text value) (.text value)
  /-- Lists of values that are the same one by one. -/
  | array {items others : List Value} (each : List.Forall₂ Same items others) :
    Same (.array items) (.array others)
  /-- Objects with the same value for every key, or with none. -/
  | object {members others : List (String × Value)}
    (each : ∀ key, Option.Rel Same ((object members).get? key) ((object others).get? key)) :
    Same (.object members) (.object others)

/-- A value without numbers that is written with no more lists and objects inside each other than
there is room for, and without a key that is there twice. -/
inductive Plain : Nat → Value → Prop where
  /-- The absent value. -/
  | null (room : Nat) : Plain room .null
  /-- Truth values. -/
  | flag (room : Nat) (value : Bool) : Plain room (.flag value)
  /-- Texts. -/
  | text (room : Nat) (value : String) : Plain room (.text value)
  /-- Lists. -/
  | array {room : Nat} {items : List Value} (each : ∀ item ∈ items, Plain room item) :
    Plain (room + 1) (.array items)
  /-- Objects. -/
  | object {room : Nat} {members : List (String × Value)} (keys : (members.map Prod.fst).Nodup)
    (each : ∀ member ∈ members, Plain room member.2) : Plain (room + 1) (.object members)

/-! ## Members -/

/-- The first member decides about its key. -/
theorem get?_object_cons (key other : String) (value : Value) (rest : List (String × Value)) :
    (object ((other, value) :: rest)).get? key =
      if other = key then some value else (object rest).get? key := by
  rw [get?, get?, List.find?_cons]
  by_cases h : other = key
  · simp [h]
  · simp [h, beq_false_of_ne h]

/-- A key that an object has is that of a member. -/
theorem mem_of_get? {members : List (String × Value)} {key : String} {value : Value}
    (h : (object members).get? key = some value) : (key, value) ∈ members := by
  obtain ⟨⟨other, found⟩, hf, rfl⟩ := Option.map_eq_some_iff.mp h
  obtain rfl : other = key := by simpa using List.find?_some hf
  exact List.mem_of_find?_eq_some hf

/-- A key that was set has its value, and the other keys have theirs. -/
theorem get?_put (key other : String) (value : Value) (members : List (String × Value)) :
    (object (put other value members)).get? key =
      if other = key then some value else (object members).get? key := by
  induction members with
  | nil => rw [put, get?_object_cons]
  | cons first rest ih =>
    obtain ⟨name, old⟩ := first
    rw [put]
    split_ifs <;> grind [get?_object_cons]

/-! ## The same values -/

mutual

/-- A value is the same as itself. -/
theorem Same.refl : (value : Value) → value.Same value
  | .null => .null
  | .flag value => .flag value
  | .number value => .number value
  | .text value => .text value
  | .array items => .array (List.forall₂_same.mpr (same_items items))
  | .object members => by
    refine .object fun key => ?_
    cases h : (object members).get? key with
    | none => exact .none
    | some value => exact .some (same_members members _ (mem_of_get? h))

/-- Every element is the same as itself. -/
theorem same_items : (items : List Value) → ∀ item ∈ items, item.Same item
  | [] => List.forall_mem_nil _
  | item :: rest => List.forall_mem_cons.mpr ⟨.refl item, same_items rest⟩

/-- Every value of a member is the same as itself. -/
theorem same_members : (members : List (String × Value)) →
    ∀ member ∈ members, member.2.Same member.2
  | [] => List.forall_mem_nil _
  | (_, value) :: rest => List.forall_mem_cons.mpr ⟨.refl value, same_members rest⟩

end

/-- For every key, the same values have no values or the same ones. -/
theorem Same.get?_cases {value other : Value} (h : value.Same other) (key : String) :
    (value.get? key = none ∧ other.get? key = none) ∨
      ∃ found twin, value.get? key = some found ∧ other.get? key = some twin ∧
        found.Same twin := by
  cases h with
  | @object members twins heach =>
    have hk := heach key
    generalize (Value.object members).get? key = left, (Value.object twins).get? key = right at hk ⊢
    cases hk with
    | none => exact .inl ⟨rfl, rfl⟩
    | some hsame => exact .inr ⟨_, _, rfl, rfl, hsame⟩
  | _ => exact .inl ⟨rfl, rfl⟩

/-- Plain values can be written. -/
theorem Plain.sound {room : Nat} {value : Value} (h : value.Plain room) : value.Sound := by
  induction h with
  | null _ => exact .null
  | flag _ value => exact .flag value
  | text _ value => exact .text value
  | array _ ih => exact .array ih
  | object _ _ ih => exact .object ih

end Value

/-! ## Reading back -/

namespace Reader

open Value (Same)

/-- Elements are read back one by one. -/
theorem exists_valueItems {room : Nat} {items : List Value}
    (heach : ∀ item ∈ items, ∃ again, value room item.tree = .ok again ∧ again.Same item) :
    ∃ again, valueItems room (itemTrees items) = .ok again ∧ List.Forall₂ Same again items := by
  induction items with
  | nil => exact ⟨[], rfl, .nil⟩
  | cons item rest ih =>
    obtain ⟨⟨first, hread, hsame⟩, hothers⟩ := List.forall_mem_cons.mp heach
    obtain ⟨later, hreadLater, hsameLater⟩ := ih hothers
    refine ⟨first :: later, ?_, .cons hsame hsameLater⟩
    rw [itemTrees, valueItems, hread, hreadLater]
    rfl

/-- Members are read back in addition to those that are there. -/
theorem exists_valueMembers {room : Nat} {members : List (String × Value)}
    (hkeys : (members.map Prod.fst).Nodup)
    (heach : ∀ member ∈ members, ∃ again, value room member.2.tree = .ok again ∧
      again.Same member.2) (done : List (String × Value)) :
    ∃ again, valueMembers room done (memberTrees members) = .ok again ∧
      (∀ key original, (Value.object members).get? key = some original →
        ∃ item, (Value.object again).get? key = some item ∧ item.Same original) ∧
      ∀ key, (Value.object members).get? key = none →
        (Value.object again).get? key = (Value.object done).get? key := by
  induction members generalizing done with
  | nil => exact ⟨done, rfl, nofun, fun _ _ => rfl⟩
  | cons member rest ih =>
    obtain ⟨name, original⟩ := member
    obtain ⟨hfresh, hkeys⟩ := List.nodup_cons.mp hkeys
    obtain ⟨⟨item, hread, hsame⟩, hothers⟩ := List.forall_mem_cons.mp heach
    obtain ⟨again, hreadLater, hfound, hkept⟩ := ih hkeys hothers (Value.put name item done)
    have habsent : (Value.object rest).get? name = none := by
      by_contra hpresent
      obtain ⟨value, hv⟩ := Option.ne_none_iff_exists'.mp hpresent
      exact hfresh (List.mem_map.mpr ⟨_, Value.mem_of_get? hv, rfl⟩)
    refine ⟨again, ?_, ?_, ?_⟩
    · rw [memberTrees, valueMembers, hread]
      exact hreadLater
    · intro key value hv
      rw [Value.get?_object_cons] at hv
      split at hv
      case isTrue h =>
        subst h
        obtain rfl := Option.some.inj hv
        exact ⟨item, by rw [hkept name habsent, Value.get?_put, if_pos rfl], hsame⟩
      case isFalse => exact hfound key value hv
    · intro key hn
      rw [Value.get?_object_cons] at hn
      split at hn
      case isTrue => cases hn
      case isFalse h => rw [hkept key hn, Value.get?_put, if_neg h]

/-- A plain value is read back from its tree. -/
theorem exists_value_tree {room : Nat} {original : Value} (hplain : original.Plain room) :
    ∃ again, value room original.tree = .ok again ∧ again.Same original := by
  induction hplain with
  | null _ => exact ⟨.null, rfl, .null⟩
  | flag _ it => exact ⟨.flag it, rfl, .flag it⟩
  | text _ it => exact ⟨.text it, rfl, .text it⟩
  | array _ heach =>
    obtain ⟨again, hread, hsame⟩ := exists_valueItems heach
    refine ⟨.array again, ?_, .array hsame⟩
    rw [Value.tree, value]
    simp only [enter, bind, Except.bind, hread, Ending.read, pure, Except.pure]
  | @object room members hkeys _ heach =>
    obtain ⟨again, hread, hfound, hkept⟩ := exists_valueMembers hkeys heach []
    refine ⟨.object again, ?_, .object fun key => ?_⟩
    · rw [Value.tree, value]
      simp only [enter, bind, Except.bind, hread, Ending.read, pure, Except.pure]
    · cases h : (Value.object members).get? key with
      | none => exact hkept key h ▸ .none
      | some original =>
        obtain ⟨item, hitem, hsame⟩ := hfound key original h
        exact hitem ▸ .some hsame

end Reader

/-- A plain value is read back from both of its written forms. -/
theorem Value.Plain.exists_parse {value : Value} (h : value.Plain nestingLimit) :
    ∃ again, Value.parse value.print = .ok again ∧ Value.parse value.pretty = .ok again ∧
      again.Same value := by
  obtain ⟨again, hread, hsame⟩ := Reader.exists_value_tree h
  refine ⟨again, ?_, ?_, hsame⟩
  · rw [parse, Reader.decode, Parsed.ofText_print h.sound]
    simp only [bind, Except.bind, hread]
    rfl
  · rw [parse, Reader.decode, Parsed.ofText_pretty h.sound]
    simp only [bind, Except.bind, hread]
    rfl

end QuerySurface.Json

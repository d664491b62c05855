import QuerySurface.Json.Reader
import QuerySurface.Proofs.Json.Trees

/-!
# Values that are read

What a reader of values delivers has numbers that a text can have, the members of every object
sorted by key, and no more lists and objects inside each other than there is room for. Every
such value is read back from its own tree, up to the values of its doubles.
-/

namespace QuerySurface.Json

/-- Whether the key of one member comes in front of the key of another. -/
def Before (a b : String × Value) : Prop :=
  a.1 < b.1

/-- A value that a reader with room for so many lists and objects can deliver. -/
inductive Value.Fits : Nat → Value → Prop where
  /-- The absent value. -/
  | null (room : Nat) : Fits room .null
  /-- Truth values. -/
  | flag (room : Nat) (value : Bool) : Fits room (.flag value)
  /-- Numbers. -/
  | number (room : Nat) {value : Number} (sound : value.Sound) : Fits room (.number value)
  /-- Texts. -/
  | text (room : Nat) (value : String) : Fits room (.text value)
  /-- Lists. -/
  | array {room : Nat} {items : List Value} (each : ∀ item ∈ items, Fits room item) :
    Fits (room + 1) (.array items)
  /-- Objects. -/
  | object {room : Nat} {members : List (String × Value)} (sorted : members.Pairwise Before)
    (each : ∀ member ∈ members, Fits room member.2) : Fits (room + 1) (.object members)

/-- A value that fits has only finite numbers. -/
theorem Value.Fits.sound {room : Nat} {value : Value} (h : value.Fits room) : value.Sound := by
  induction h with
  | null _ => exact .null
  | flag _ value => exact .flag value
  | number _ hsound => exact .number hsound
  | text _ value => exact .text value
  | array _ ih => exact .array ih
  | object _ _ ih => exact .object ih

mutual

/-- A value with the values of its doubles left open. -/
def Value.blurred : Value → Value
  | .null => .null
  | .flag value => .flag value
  | .number value => .number value.blurred
  | .text value => .text value
  | .array items => .array (blurredItems items)
  | .object members => .object (blurredMembers members)

/-- Elements with the values of their doubles left open. -/
def blurredItems : List Value → List Value
  | [] => []
  | item :: rest => item.blurred :: blurredItems rest

/-- Members with the values of their doubles left open. -/
def blurredMembers : List (String × Value) → List (String × Value)
  | [] => []
  | (key, value) :: rest => (key, value.blurred) :: blurredMembers rest

end

/-! ## Sorted members -/

/-- Setting a key adds no other member. -/
theorem mem_put {key : String} {value : Value} {members : List (String × Value)}
    {member : String × Value} (h : member ∈ Value.put key value members) :
    member = (key, value) ∨ member ∈ members := by
  induction members with
  | nil => exact .inl (List.mem_singleton.mp h)
  | cons first rest ih =>
    obtain ⟨other, old⟩ := first
    unfold Value.put at h
    split_ifs at h
    · exact (List.mem_cons.mp h).imp_right (List.mem_cons_of_mem _)
    · exact List.mem_cons.mp h
    · obtain rfl | hlater := List.mem_cons.mp h
      · exact .inr List.mem_cons_self
      · exact (ih hlater).imp_right (List.mem_cons_of_mem _)

/-- Setting a key keeps members sorted. -/
theorem pairwise_put {members : List (String × Value)} (hsorted : members.Pairwise Before)
    (key : String) (value : Value) : (Value.put key value members).Pairwise Before := by
  induction members with
  | nil => exact List.pairwise_singleton _ _
  | cons first rest ih =>
    obtain ⟨other, old⟩ := first
    obtain ⟨hfront, hlater⟩ := List.pairwise_cons.mp hsorted
    unfold Value.put
    split_ifs with hsame hbefore
    · subst hsame
      exact List.pairwise_cons.mpr ⟨hfront, hlater⟩
    · refine List.pairwise_cons.mpr ⟨fun member hmem => ?_, hsorted⟩
      obtain rfl | hmem := List.mem_cons.mp hmem
      · exact hbefore
      · exact String.lt_trans hbefore (hfront member hmem)
    · refine List.pairwise_cons.mpr ⟨fun member hmem => ?_, ih hlater⟩
      obtain rfl | hmem := mem_put hmem
      · have hafter : other ≤ key := String.not_lt.mp hbefore
        by_contra hstays
        exact hsame (String.le_antisymm (String.not_lt.mp hstays) hafter)
      · exact hfront member hmem

/-- A key behind all others is put at the end. -/
theorem put_of_before {members : List (String × Value)} {key : String} {value : Value}
    (hbehind : ∀ member ∈ members, Before member (key, value)) :
    Value.put key value members = members ++ [(key, value)] := by
  induction members with
  | nil => rfl
  | cons first rest ih =>
    obtain ⟨other, old⟩ := first
    have hfront : other < key := hbehind (other, old) List.mem_cons_self
    have hne : key ≠ other := by
      rintro rfl
      exact String.lt_irrefl _ hfront
    rw [Value.put, if_neg hne, if_neg (String.lt_asymm hfront),
      ih fun member hmem => hbehind member (List.mem_cons_of_mem _ hmem)]
    rfl

namespace Reader

/-- A computation that succeeds has succeeded in its first part. -/
theorem exists_of_bind {α β : Type} {first : Except Problem α} {next : α → Except Problem β}
    {result : β} (h : first >>= next = .ok result) :
    ∃ value, first = .ok value ∧ next value = .ok result := by
  cases first with
  | error _ => cases h
  | ok value => exact ⟨value, rfl, h⟩

/-- A mapped computation that succeeds has succeeded before it was mapped. -/
theorem exists_of_map {α β : Type} {first : Except Problem α} {put : α → β} {result : β}
    (h : put <$> first = .ok result) : ∃ value, first = .ok value ∧ put value = result := by
  cases first with
  | error _ => cases h
  | ok value =>
    cases h
    exact ⟨value, rfl, rfl⟩

/-- A level is entered only where there is room for one more. -/
theorem enter_eq_ok {room inside : Nat} (h : enter room = .ok inside) : room = inside + 1 := by
  cases room with
  | zero => cases h
  | succ room =>
    cases h
    rfl

/-! ## What is delivered -/

mutual

/-- What a reader of values delivers fits its room. -/
theorem fits_of_value {room : Nat} {result : Value} :
    (tree : Tree) → value room tree = .ok result → result.Fits room
  | .null, h => by
    cases h
    exact .null room
  | .flag _, h => by
    cases h
    exact .flag room _
  | .numeral numeral, h => by
    rw [value] at h
    split at h
    · rename_i number hread
      cases h
      exact .number room (Number.sound_of_value? hread)
    · cases h
  | .text _ sound, h => by
    rw [value] at h
    split_ifs at h
    cases h
    exact .text room _
  | .array trees ending, h => by
    rw [value] at h
    obtain ⟨inside, hentered, h⟩ := exists_of_bind h
    obtain ⟨items, hread, h⟩ := exists_of_bind h
    obtain ⟨-, -, h⟩ := exists_of_bind h
    cases h
    rw [enter_eq_ok hentered]
    exact .array (fits_of_valueItems trees hread)
  | .object members ending, h => by
    rw [value] at h
    obtain ⟨inside, hentered, h⟩ := exists_of_bind h
    obtain ⟨done, hread, h⟩ := exists_of_bind h
    obtain ⟨-, -, h⟩ := exists_of_bind h
    cases h
    rw [enter_eq_ok hentered]
    obtain ⟨hsorted, heach⟩ := fits_of_valueMembers members List.Pairwise.nil (by simp) hread
    exact .object hsorted heach
  | .missing _, h => nomatch h
  | .badText _, h => nomatch h
  | .badWord _, h => nomatch h

/-- Elements that a reader of values delivers fit its room. -/
theorem fits_of_valueItems {room : Nat} {result : List Value} :
    (trees : List Tree) → valueItems room trees = .ok result → ∀ item ∈ result, item.Fits room
  | [], h => by
    cases h
    simp
  | tree :: rest, h => by
    rw [valueItems] at h
    obtain ⟨item, hfirst, h⟩ := exists_of_bind h
    obtain ⟨items, hlater, h⟩ := exists_of_bind h
    cases h
    exact List.forall_mem_cons.mpr ⟨fits_of_value tree hfirst, fits_of_valueItems rest hlater⟩

/-- Members that a reader of values delivers are sorted and fit its room. -/
theorem fits_of_valueMembers {room : Nat} {done result : List (String × Value)} :
    (members : List Member) → done.Pairwise Before → (∀ member ∈ done, member.2.Fits room) →
      valueMembers room done members = .ok result →
        result.Pairwise Before ∧ ∀ member ∈ result, member.2.Fits room
  | [], hsorted, heach, h => by
    cases h
    exact ⟨hsorted, heach⟩
  | .mk key sound tree :: rest, hsorted, heach, h => by
    rw [valueMembers] at h
    split_ifs at h
    obtain ⟨item, hfirst, h⟩ := exists_of_bind h
    refine fits_of_valueMembers rest (pairwise_put hsorted key item) (fun member hmem => ?_) h
    obtain rfl | hold := mem_put hmem
    · exact fits_of_value tree hfirst
    · exact heach member hold

end

/-- Only the absent value is read as the absent value. -/
theorem eq_null_of_value {room : Nat} {tree : Tree} (h : value room tree = .ok .null) :
    tree = .null := by
  cases tree with
  | null => rfl
  | flag _ => cases h
  | numeral numeral =>
    rw [value] at h
    split at h <;> cases h
  | text _ sound =>
    rw [value] at h
    split_ifs at h
    cases h
  | array trees ending =>
    rw [value] at h
    obtain ⟨_, _, h⟩ := exists_of_bind h
    obtain ⟨_, _, h⟩ := exists_of_bind h
    obtain ⟨_, _, h⟩ := exists_of_bind h
    cases h
  | object members ending =>
    rw [value] at h
    obtain ⟨_, _, h⟩ := exists_of_bind h
    obtain ⟨_, _, h⟩ := exists_of_bind h
    obtain ⟨_, _, h⟩ := exists_of_bind h
    cases h
  | missing _ => cases h
  | badText _ => cases h
  | badWord _ => cases h

/-! ## Reading back -/

/-- Elements are read back if each of them is. -/
theorem valueItems_trees {room : Nat} {items : List Value}
    (heach : ∀ item ∈ items, ∃ again, value room item.tree = .ok again ∧
      again.blurred = item.blurred) :
    ∃ again, valueItems room (itemTrees items) = .ok again ∧
      blurredItems again = blurredItems items := by
  induction items with
  | nil => exact ⟨[], rfl, rfl⟩
  | cons item rest ih =>
    obtain ⟨⟨first, hread, hsame⟩, hothers⟩ := List.forall_mem_cons.mp heach
    obtain ⟨later, hreadLater, hsameLater⟩ := ih hothers
    refine ⟨first :: later, ?_, ?_⟩
    · rw [itemTrees, valueItems, hread, hreadLater]
      rfl
    · rw [blurredItems, blurredItems, hsame, hsameLater]

/-- Sorted members are read back, behind members with smaller keys, if each value is. -/
theorem valueMembers_trees {room : Nat} {members : List (String × Value)}
    (hsorted : members.Pairwise Before)
    (heach : ∀ member ∈ members, ∃ again, value room member.2.tree = .ok again ∧
      again.blurred = member.2.blurred)
    (done : List (String × Value)) (hfront : ∀ a ∈ done, ∀ b ∈ members, Before a b) :
    ∃ again, valueMembers room done (memberTrees members) = .ok (done ++ again) ∧
      blurredMembers again = blurredMembers members := by
  induction members generalizing done with
  | nil => exact ⟨[], by rw [List.append_nil]; rfl, rfl⟩
  | cons member rest ih =>
    obtain ⟨key, value⟩ := member
    obtain ⟨hfirst, hsortedRest⟩ := List.pairwise_cons.mp hsorted
    obtain ⟨⟨item, hread, hsame⟩, hothers⟩ := List.forall_mem_cons.mp heach
    have hput : Value.put key item done = done ++ [(key, item)] :=
      put_of_before fun a hmem => hfront a hmem (key, value) List.mem_cons_self
    have hfrontRest : ∀ a ∈ done ++ [(key, item)], ∀ b ∈ rest, Before a b := by
      intro a hmem b hlater
      obtain hold | hnew := List.mem_append.mp hmem
      · exact hfront a hold b (List.mem_cons_of_mem _ hlater)
      · rw [List.mem_singleton.mp hnew]
        exact hfirst b hlater
    obtain ⟨again, hreadLater, hsameLater⟩ := ih hsortedRest hothers _ hfrontRest
    refine ⟨(key, item) :: again, ?_, ?_⟩
    · rw [memberTrees, valueMembers, hread]
      change valueMembers room (Value.put key item done) (memberTrees rest) = _
      rw [hput, hreadLater, List.append_assoc]
      rfl
    · rw [blurredMembers, blurredMembers, hsame, hsameLater]

/-- A value that fits is read back from its tree, up to the values of its doubles. -/
theorem value_tree {room : Nat} {original : Value} (hfits : original.Fits room) :
    ∃ again, value room original.tree = .ok again ∧ again.blurred = original.blurred := by
  induction hfits with
  | null _ => exact ⟨.null, rfl, rfl⟩
  | flag _ it => exact ⟨.flag it, rfl, rfl⟩
  | number _ hsound =>
    obtain ⟨again, hread, hsame⟩ := Number.value?_numeral hsound
    refine ⟨.number again, ?_, congrArg Value.number hsame⟩
    rw [Value.tree, value, hread]
  | text _ it => exact ⟨.text it, rfl, rfl⟩
  | array _ heach =>
    obtain ⟨again, hread, hsame⟩ := valueItems_trees heach
    refine ⟨.array again, ?_, congrArg Value.array hsame⟩
    rw [Value.tree, value]
    simp only [enter, bind, Except.bind, hread, Ending.read, pure, Except.pure]
  | object hsorted _ heach =>
    obtain ⟨again, hread, hsame⟩ := valueMembers_trees hsorted heach [] (by simp)
    refine ⟨.object again, ?_, congrArg Value.object hsame⟩
    rw [Value.tree, value]
    simp only [enter, bind, Except.bind, hread, Ending.read, pure, Except.pure, List.nil_append]

end Reader

end QuerySurface.Json

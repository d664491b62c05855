import QuerySurface.Proofs.Json.Records
import Mathlib.Data.List.Forall2
import Mathlib.Data.List.Pairwise

/-!
# Missing members filled in

A record whose fields may be absent is read from an object that lacks some of them. It is also
read, as the same record, from the object with the missing members filled in, each with a value that
reads as what the blank record has. In the values of the members that are there, missing members
may be filled in too.
-/

namespace QuerySurface.Json

/-! ## Trees with defaults -/

/-- The key of a member. -/
def Member.key : Member → String
  | .mk key _ _ => key

/-- A tree is an object with a member of a key. -/
def Tree.Has (tree : Tree) (key : String) (value : Tree) : Prop :=
  ∃ members ending sound, tree = .object members ending ∧ .mk key sound value ∈ members

/-- A tree is an object without a member of a key. -/
def Tree.Lacks (tree : Tree) (key : String) : Prop :=
  ∃ members ending, tree = .object members ending ∧ key ∉ members.map Member.key

/-- Elements of a list, each completed with the default in its place. -/
def completedItems (complete : Value → Tree → Tree) : List (String × Value) → List Tree → List Tree
  | (_, value) :: defaults, tree :: trees =>
    complete value tree :: completedItems complete defaults trees
  | _, trees => trees

/-- Members of an object, each completed with the default of its key. -/
def completedMembers (complete : Value → Tree → Tree) (defaults : List (String × Value)) :
    List Member → List Member
  | [] => []
  | .mk key sound tree :: rest =>
    .mk key sound ((defaults.lookup key).elim tree (complete · tree)) ::
      completedMembers complete defaults rest

/-- The defaults of keys that do not occur. -/
def missingDefaults (defaults : List (String × Value)) (members : List Member) :
    List (String × Value) :=
  defaults.filter fun entry => !members.any (·.key == entry.1)

/-- A tree with the members of a default filled in where they are missing, down to some depth. -/
def Tree.completed : (depth : Nat) → (default : Value) → Tree → Tree
  | depth + 1, .object defaults, .object members ending =>
    .object
      (completedMembers (fun value tree => tree.completed depth value) defaults members ++
        memberTrees (missingDefaults defaults members)) ending
  | depth + 1, .object defaults, .array items ending =>
    .array (completedItems (fun value tree => tree.completed depth value) defaults items) ending
  | _, _, tree => tree

/-- A tree has what a default has and another tree lacks. -/
def Tree.Fills (default tree filled : Tree) : Prop :=
  ∀ key value, default.Has key value → tree.Lacks key → filled.Has key value

section completed

variable {defaults : List (String × Value)} {depth : Nat} {tree : Tree} {key : String}

/-- Among keys that are not repeated, every entry is found under its key. -/
theorem lookup_of_mem {entries : List (String × Value)} (hn : (entries.map Prod.fst).Nodup)
    {key : String} {value : Value} (hm : (key, value) ∈ entries) :
    entries.lookup key = some value := by
  induction entries with
  | nil => cases hm
  | cons first rest ih =>
    obtain ⟨word, other⟩ := first
    rw [List.map_cons, List.nodup_cons] at hn
    rcases List.mem_cons.mp hm with heq | hm
    · obtain ⟨rfl, rfl⟩ := Prod.mk.inj heq
      exact List.lookup_cons_self
    · have hne : key ≠ word := fun heq => hn.1 (List.mem_map.mpr ⟨_, hm, heq⟩)
      rw [List.lookup_cons, beq_eq_false_iff_ne.mpr hne]
      exact ih hn.2 hm

/-- The members of a value. -/
theorem mem_memberTrees {sound : Bool} {value : Tree}
    (h : .mk key sound value ∈ memberTrees defaults) :
    ∃ default, (key, default) ∈ defaults ∧ value = default.tree := by
  induction defaults with
  | nil => cases h
  | cons entry rest ih =>
    obtain ⟨word, default⟩ := entry
    rcases List.mem_cons.mp h with heq | h
    · obtain ⟨rfl, -, rfl⟩ := Member.mk.inj heq
      exact ⟨default, List.mem_cons_self, rfl⟩
    · obtain ⟨default, hm, rfl⟩ := ih h
      exact ⟨default, List.mem_cons_of_mem _ hm, rfl⟩

/-- The member of an entry. -/
theorem mem_memberTrees_of_mem {default : Value} (h : (key, default) ∈ defaults) :
    .mk key true default.tree ∈ memberTrees defaults := by
  induction defaults with
  | nil => cases h
  | cons entry rest ih =>
    rcases List.mem_cons.mp h with rfl | h
    · exact List.mem_cons_self
    · exact List.mem_cons_of_mem _ (ih h)

/-- What a completed tree lacked it has from the default. -/
theorem Tree.fills_completed (value : Value) :
    value.tree.Fills tree (tree.completed (depth + 1) value) := by
  rintro key part ⟨given, closing, sound, hvalue, hm⟩ ⟨members, ending, rfl, hlacks⟩
  cases value with
  | object defaults =>
    obtain ⟨rfl, rfl⟩ := Tree.object.inj hvalue
    obtain ⟨default, hdefault, rfl⟩ := mem_memberTrees hm
    have hmissing : (key, default) ∈ missingDefaults defaults members := by
      refine List.mem_filter.mpr ⟨hdefault, ?_⟩
      rw [Bool.not_eq_true', List.any_eq_false]
      exact fun member hmember hkey =>
        hlacks (List.mem_map.mpr ⟨member, hmember, beq_iff_eq.mp hkey⟩)
    exact ⟨_, _, true, by rw [Tree.completed],
      List.mem_append_right _ (mem_memberTrees_of_mem hmissing)⟩
  | _ => cases hvalue

/-- What a tree has is completed in it with the default of its key, if there is one. -/
theorem Tree.has_completed {part : Tree} (h : tree.Has key part) :
    (tree.completed (depth + 1) (.object defaults)).Has key
      ((defaults.lookup key).elim part (part.completed depth ·)) := by
  obtain ⟨members, ending, sound, rfl, hm⟩ := h
  refine ⟨_, _, sound, by rw [Tree.completed], List.mem_append_left _ ?_⟩
  induction members with
  | nil => cases hm
  | cons member rest ih =>
    obtain ⟨word, sound', other⟩ := member
    rcases List.mem_cons.mp hm with heq | hm
    · obtain ⟨rfl, rfl, rfl⟩ := Member.mk.inj heq
      exact List.mem_cons_self
    · exact List.mem_cons_of_mem _ (ih hm)

/-- On one level, what a tree has stays as it is. -/
theorem Tree.has_completed_one (value : Value) {part : Tree} (h : tree.Has key part) :
    (tree.completed 1 value).Has key part := by
  cases value with
  | object defaults =>
    have hpart : (defaults.lookup key).elim part (part.completed 0 ·) = part := by
      cases defaults.lookup key <;> rfl
    exact hpart ▸ Tree.has_completed h
  | _ => exact h

end completed

namespace Reader

variable {σ : Type} {depth room : Nat} {blank : σ} {fields : List (Field σ)}
  {defaults : List (String × Value)}

/-! ## Fields with defaults -/

/-- Two fields that are read in either order leave the same record. -/
def Field.Commutes (room : Nat) (field other : Field σ) : Prop :=
  ∀ tree tree' record next next', field.update room tree record = .ok next →
    other.update room tree' record = .ok next' →
      ∃ last, other.update room tree' next = .ok last ∧ field.update room tree next' = .ok last

/-- Fields that set different parts of a record. -/
theorem commutes_may {α β : Type} {key other : String} {reader : Reader α} {reader' : Reader β}
    {put : α → σ → σ} {put' : β → σ → σ}
    (h : ∀ value value' record, put' value' (put value record) = put value (put' value' record)) :
    (Field.may key reader put).Commutes room (Field.may other reader' put') := by
  intro tree tree' record next next' hnext hnext'
  obtain ⟨value, hread, rfl⟩ := exists_of_map hnext
  obtain ⟨value', hread', rfl⟩ := exists_of_map hnext'
  refine ⟨put' value' (put value record), ?_, ?_⟩
  · simp only [Field.may, hread']
    rfl
  · simp only [Field.may, hread, h]
    rfl

/-- A field that may be absent and the default that stands in for it. -/
structure Completes (depth room : Nat) (blank : σ) (field : Field σ) (default : String × Value) :
    Prop where
  /-- The default has the key of the field. -/
  key_eq : default.1 = field.key
  /-- The record is complete without the field. -/
  free : field.needed = false
  /-- The default reads as what the blank record has. -/
  blank : field.update room default.2.tree blank = .ok blank
  /-- Reading the field once more changes nothing. -/
  settles : ∀ tree before after, field.update room tree before = .ok after →
    field.update room tree after = .ok after
  /-- The value of the field reads as before if it is completed with the default. -/
  kept : ∀ tree before after, field.update room tree before = .ok after →
    field.update room (tree.completed depth default.2) before = .ok after

/-- A field that sets a part of a record. -/
theorem completes_may {α : Type} {key : String} {reader : Reader α} {put : α → σ → σ} {item : α}
    {value : Value} (hread : reader room value.tree = .ok item) (hblank : put item blank = blank)
    (htwice : ∀ item record, put item (put item record) = put item record)
    (hkept : ∀ tree item, reader room tree = .ok item →
      reader room (tree.completed depth value) = .ok item) :
    Completes depth room blank (.may key reader put) (key, value) where
  key_eq := rfl
  free := rfl
  blank := by
    simp only [Field.may, hread]
    exact congrArg Except.ok hblank
  settles tree before after h := by
    obtain ⟨found, hread, rfl⟩ := exists_of_map h
    simp only [Field.may, hread]
    exact congrArg Except.ok (htwice found before)
  kept tree before after h := by
    obtain ⟨found, hread, rfl⟩ := exists_of_map h
    simp only [Field.may, hkept tree found hread]
    rfl

/-- An optional text is read back from the value that stands for it. -/
theorem optional_text_ofOption (room : Nat) (item : Option String) :
    optional text room (Value.ofOption item).tree = .ok item := by
  cases item <;> rfl

/-- A field that sets an optional text; there is nothing in it to be filled in. -/
theorem completes_optionalText {key : String} {put : Option String → σ → σ} {item : Option String}
    (hblank : put item blank = blank)
    (htwice : ∀ item record, put item (put item record) = put item record) :
    Completes depth room blank (.may key (optional text) put) (key, .ofOption item) := by
  refine completes_may (optional_text_ofOption room item) hblank htwice fun tree found hread => ?_
  have hsame : tree.completed depth (.ofOption item) = tree := by
    cases item <;> cases depth <;> rfl
  rw [hsame]
  exact hread

/-- The fields of a record with their defaults. -/
structure Completable (depth room : Nat) (blank : σ) (fields : List (Field σ))
    (defaults : List (String × Value)) : Prop where
  /-- No two fields have one key. -/
  apart : (fields.map Field.key).Nodup
  /-- The order of the fields does not matter. -/
  commutes : fields.Pairwise (Field.Commutes room)
  /-- Each default stands in for its field. -/
  completes : List.Forall₂ (Completes depth room blank) fields defaults

namespace Completable

variable (h : Completable depth room blank fields defaults)

include h

/-- Fields of different keys commute. -/
theorem commutes_of_ne {field other : Field σ} (hf : field ∈ fields) (ho : other ∈ fields)
    (hne : field.key ≠ other.key) : field.Commutes room other := by
  have hsymm : Std.Symm (Field.Commutes room : Field σ → Field σ → Prop) := by
    refine ⟨fun left right hc tree tree' record next next' hnext hnext' => ?_⟩
    obtain ⟨last, hright, hleft⟩ := hc tree' tree record next' next hnext' hnext
    exact ⟨last, hleft, hright⟩
  exact h.commutes.forall hf ho fun heq => hne (congrArg Field.key heq)

/-- The defaults have the keys of the fields. -/
theorem keys_eq : defaults.map Prod.fst = fields.map Field.key := by
  have hall := h.completes
  clear h
  induction hall with
  | nil => rfl
  | cons hc _ ih => rw [List.map_cons, List.map_cons, hc.key_eq, ih]

/-- What has no field has no default. -/
theorem lookup_eq_none {key : String} (hf : fields.find? (·.key == key) = none) :
    defaults.lookup key = none := by
  rw [List.lookup_eq_none_iff]
  intro entry he
  have hm : entry.1 ∈ fields.map Field.key := h.keys_eq ▸ List.mem_map_of_mem he
  obtain ⟨field, hm, hkey⟩ := List.mem_map.mp hm
  have hne := List.find?_eq_none.mp hf field hm
  rw [hkey] at hne
  exact bne_iff_ne.mpr fun heq => hne (beq_iff_eq.mpr heq.symm)

/-- What has a field has a default. -/
theorem exists_lookup {key : String} {field : Field σ}
    (hf : fields.find? (·.key == key) = some field) :
    ∃ value, defaults.lookup key = some value ∧ Completes depth room blank field (key, value) := by
  have hall := h.completes
  clear h
  induction hall with
  | nil => cases hf
  | @cons first default rest others hc _ ih =>
    obtain ⟨word, value⟩ := default
    have hword : word = first.key := hc.key_eq
    subst hword
    by_cases hkey : first.key = key
    · subst hkey
      rw [List.find?_cons_of_pos (by simp)] at hf
      obtain rfl := Option.some.inj hf
      exact ⟨value, List.lookup_cons_self, hc⟩
    · rw [List.find?_cons_of_neg (by simpa using hkey)] at hf
      rw [List.lookup_cons, beq_eq_false_iff_ne.mpr (Ne.symm hkey)]
      exact ih hf

/-- The field of a key. -/
theorem find?_key {field : Field σ} (hf : field ∈ fields) :
    fields.find? (·.key == field.key) = some field := by
  have hapart := h.apart
  clear h
  induction fields with
  | nil => cases hf
  | cons first rest ih =>
    rw [List.map_cons, List.nodup_cons] at hapart
    rcases List.mem_cons.mp hf with rfl | hf
    · exact List.find?_cons_of_pos (by simp)
    · have hne : first.key ≠ field.key := fun heq => hapart.1 (heq ▸ List.mem_map_of_mem hf)
      rw [List.find?_cons_of_neg (by simpa using hne)]
      exact ih hf hapart.2

/-- The default of a field. -/
theorem exists_default {field : Field σ} (hf : field ∈ fields) :
    ∃ value, defaults.lookup field.key = some value ∧
      Completes depth room blank field (field.key, value) :=
  h.exists_lookup (h.find?_key hf)

end Completable

/-! ## Members one after the other -/

/-- The defaults of keys that were not seen leave a record as it is. -/
def Neutral (room : Nat) (fields : List (Field σ)) (defaults : List (String × Value))
    (seen : List String) (record : σ) : Prop :=
  ∀ field ∈ fields, ∀ value, defaults.lookup field.key = some value → field.key ∉ seen →
    field.update room value.tree record = .ok record

section members

variable {members : List Member} {seen known : List String} {before after : σ}

/-- A member that is read: it is skipped, or it belongs to a field that was not seen. -/
theorem exists_of_fromMembers {key : String} {sound : Bool} {tree : Tree} {rest : List Member}
    (h : fromMembers fields room seen before (.mk key sound tree :: rest) = .ok (after, known)) :
    sound = true ∧
      ((fields.find? (·.key == key) = none ∧ tree.skip = .ok () ∧
          fromMembers fields room seen before rest = .ok (after, known)) ∨
        ∃ field next, fields.find? (·.key == key) = some field ∧ key ∉ seen ∧
          field.update room tree before = .ok next ∧
          fromMembers fields room (key :: seen) next rest = .ok (after, known)) := by
  rw [fromMembers] at h
  cases sound with
  | false => cases h
  | true =>
    refine ⟨rfl, ?_⟩
    rw [if_neg (by decide)] at h
    cases hf : fields.find? (fun field => field.key == key) with
    | none =>
      simp only [hf] at h
      obtain ⟨⟨⟩, hskip, h⟩ := exists_of_bind h
      exact .inl ⟨rfl, hskip, h⟩
    | some field =>
      simp only [hf] at h
      split at h
      · cases h
      · rename_i hseen
        obtain ⟨next, hupdate, h⟩ := exists_of_bind h
        exact .inr ⟨field, next, rfl, by simpa using hseen, hupdate, h⟩

/-- A member of an unknown key is skipped. -/
theorem fromMembers_skip {key : String} {tree : Tree} {rest : List Member}
    (hf : fields.find? (·.key == key) = none) (hs : tree.skip = .ok ()) :
    fromMembers fields room seen before (.mk key true tree :: rest) =
      fromMembers fields room seen before rest := by
  rw [fromMembers]
  simp only [hf, hs, Bool.not_true, Bool.false_eq_true, if_false]
  rfl

/-- A member of a field that was not seen is read. -/
theorem fromMembers_take {key : String} {tree : Tree} {rest : List Member} {field : Field σ}
    {next : σ} (hf : fields.find? (·.key == key) = some field) (hs : key ∉ seen)
    (hu : field.update room tree before = .ok next) :
    fromMembers fields room seen before (.mk key true tree :: rest) =
      fromMembers fields room (key :: seen) next rest := by
  have hseen : seen.contains key = false := by simpa using hs
  rw [fromMembers]
  simp only [hf, hseen, hu, Bool.not_true, Bool.false_eq_true, if_false]
  rfl

/-- Reading some members and then others. -/
theorem fromMembers_append (others : List Member)
    (h : fromMembers fields room seen before members = .ok (after, known)) :
    fromMembers fields room seen before (members ++ others) =
      fromMembers fields room known after others := by
  induction members generalizing seen before with
  | nil =>
    cases h
    rfl
  | cons member rest ih =>
    obtain ⟨key, sound, tree⟩ := member
    obtain ⟨rfl, ⟨hf, hs, h⟩ | ⟨field, next, hf, hs, hu, h⟩⟩ := exists_of_fromMembers h
    · rw [List.cons_append, fromMembers_skip hf hs, ih h]
    · rw [List.cons_append, fromMembers_take hf hs hu, ih h]

/-- The keys that are known in the end occur, or were seen before. -/
theorem mem_known (h : fromMembers fields room seen before members = .ok (after, known))
    {key : String} (hk : key ∈ known) : key ∈ seen ∨ key ∈ members.map Member.key := by
  induction members generalizing seen before with
  | nil =>
    cases h
    exact .inl hk
  | cons member rest ih =>
    obtain ⟨word, sound, tree⟩ := member
    obtain ⟨rfl, ⟨_, _, h⟩ | ⟨field, next, _, _, _, h⟩⟩ := exists_of_fromMembers h
    · exact (ih h).imp_right (List.mem_cons_of_mem _)
    · rcases ih h with hseen | hrest
      · rcases List.mem_cons.mp hseen with rfl | hseen
        · exact .inr List.mem_cons_self
        · exact .inl hseen
      · exact .inr (List.mem_cons_of_mem _ hrest)

/-- Completed members are read as before. -/
theorem fromMembers_completed (hc : Completable depth room blank fields defaults)
    (h : fromMembers fields room seen before members = .ok (after, known)) :
    fromMembers fields room seen before
      (completedMembers (fun value tree => tree.completed depth value) defaults members) =
        .ok (after, known) := by
  induction members generalizing seen before with
  | nil => exact h
  | cons member rest ih =>
    obtain ⟨key, sound, tree⟩ := member
    obtain ⟨rfl, ⟨hf, hs, h⟩ | ⟨field, next, hf, hs, hu, h⟩⟩ := exists_of_fromMembers h
    · rw [completedMembers, hc.lookup_eq_none hf, Option.elim_none, fromMembers_skip hf hs]
      exact ih h
    · obtain ⟨value, hl, hdefault⟩ := hc.exists_lookup hf
      rw [completedMembers, hl, Option.elim_some,
        fromMembers_take hf hs (hdefault.kept tree before next hu)]
      exact ih h

/-- Reading members keeps the defaults of all other keys neutral. -/
theorem neutral_of_fromMembers (hc : Completable depth room blank fields defaults)
    (hn : Neutral room fields defaults seen before)
    (h : fromMembers fields room seen before members = .ok (after, known)) :
    Neutral room fields defaults known after := by
  induction members generalizing seen before with
  | nil =>
    cases h
    exact hn
  | cons member rest ih =>
    obtain ⟨key, sound, tree⟩ := member
    obtain ⟨rfl, ⟨_, _, h⟩ | ⟨field, next, hf, _, hu, h⟩⟩ := exists_of_fromMembers h
    · exact ih hn h
    · refine ih ?_ h
      intro other ho value hl hunseen
      rw [List.mem_cons, not_or] at hunseen
      have hkey : field.key = key := by simpa using List.find?_some hf
      have hne : field.key ≠ other.key := fun heq => hunseen.1 (heq.symm.trans hkey)
      have hstays := hn other ho value hl hunseen.2
      -- The other field leaves the record as it is before this one is read, and so behind it.
      obtain ⟨last, hlast, hu'⟩ := hc.commutes_of_ne (List.mem_of_find?_eq_some hf) ho hne
        tree value.tree before next before hu hstays
      obtain rfl := Except.ok.inj (hu.symm.trans hu')
      exact hlast

/-- What a member sets stays. -/
theorem update_of_fromMembers (hc : Completable depth room blank fields defaults)
    {field : Field σ} (hf : field ∈ fields) (hs : field.key ∈ seen) {tree : Tree}
    (hu : field.update room tree before = .ok before)
    (h : fromMembers fields room seen before members = .ok (after, known)) :
    field.update room tree after = .ok after := by
  induction members generalizing seen before with
  | nil =>
    cases h
    exact hu
  | cons member rest ih =>
    obtain ⟨key, sound, other⟩ := member
    obtain ⟨rfl, ⟨_, _, h⟩ | ⟨first, next, hfirst, hunseen, hnext, h⟩⟩ := exists_of_fromMembers h
    · exact ih hs hu h
    · have hkey : first.key = key := by simpa using List.find?_some hfirst
      have hne : first.key ≠ field.key := by
        rintro heq
        exact hunseen (hkey ▸ heq ▸ hs)
      obtain ⟨last, hlast, hnext'⟩ := hc.commutes_of_ne (List.mem_of_find?_eq_some hfirst) hf hne
        other tree before next before hnext hu
      obtain rfl := Except.ok.inj (hnext.symm.trans hnext')
      exact ih (List.mem_cons_of_mem _ hs) hlast h

/-- What a member says is so in the end. -/
theorem update_of_mem (hc : Completable depth room blank fields defaults) {field : Field σ}
    (hf : field ∈ fields) {sound : Bool} {tree : Tree} (hm : .mk field.key sound tree ∈ members)
    (h : fromMembers fields room seen before members = .ok (after, known)) :
    field.update room tree after = .ok after := by
  induction members generalizing seen before with
  | nil => cases hm
  | cons member rest ih =>
    obtain ⟨key, sound', other⟩ := member
    rcases List.mem_cons.mp hm with heq | hlater
    · obtain ⟨rfl, rfl, rfl⟩ := Member.mk.inj heq
      obtain ⟨rfl, ⟨hnone, _, _⟩ | ⟨first, next, hfirst, _, hnext, h⟩⟩ := exists_of_fromMembers h
      · rw [hc.find?_key hf] at hnone
        cases hnone
      · obtain rfl := Option.some.inj ((hc.find?_key hf).symm.trans hfirst)
        obtain ⟨_, _, hdefault⟩ := hc.exists_default hf
        exact update_of_fromMembers hc hf List.mem_cons_self
          (hdefault.settles tree before next hnext) h
    · obtain ⟨rfl, ⟨_, _, h⟩ | ⟨first, next, _, _, _, h⟩⟩ := exists_of_fromMembers h
      · exact ih hlater h
      · exact ih hlater h

/-- Neutral defaults are read without effect. -/
theorem exists_fromMembers_defaults (hc : Completable depth room blank fields defaults)
    {entries : List (String × Value)} (hd : ∀ entry ∈ entries, entry ∈ defaults)
    (hk : (entries.map Prod.fst).Nodup) (hs : ∀ entry ∈ entries, entry.1 ∉ seen)
    (hn : Neutral room fields defaults seen before) :
    ∃ known, fromMembers fields room seen before (memberTrees entries) = .ok (before, known) := by
  induction entries generalizing seen with
  | nil => exact ⟨seen, rfl⟩
  | cons entry rest ih =>
    obtain ⟨key, value⟩ := entry
    rw [List.map_cons, List.nodup_cons] at hk
    obtain ⟨hentry, hrest⟩ := List.forall_mem_cons.mp hd
    obtain ⟨hunseen, hothers⟩ := List.forall_mem_cons.mp hs
    have hm : key ∈ fields.map Field.key := hc.keys_eq ▸ List.mem_map_of_mem hentry
    obtain ⟨field, hf, rfl⟩ := List.mem_map.mp hm
    have hl := lookup_of_mem (hc.keys_eq ▸ hc.apart) hentry
    rw [memberTrees, fromMembers_take (hc.find?_key hf) hunseen (hn field hf value hl hunseen)]
    refine ih hrest hk.2 ?_ fun other ho value hl hnot => hn other ho value hl fun hseen =>
      hnot (List.mem_cons_of_mem _ hseen)
    intro other ho hseen
    rcases List.mem_cons.mp hseen with heq | hseen
    · exact hk.1 (List.mem_map.mpr ⟨other, ho, heq⟩)
    · exact hothers other ho hseen

end members

/-! ## Records -/

section records

variable {name : String} {result : σ}

/-- Completed elements are read as before. -/
theorem fromItems_completed {ending : Ending} {short : Nat → Problem} {index : Nat}
    {trees more : List Tree} {before after : σ}
    (hc : List.Forall₂ (Completes depth room blank) fields defaults)
    (h : fromItems room ending short index before fields trees = .ok (after, more)) :
    fromItems room ending short index before fields
      (completedItems (fun value tree => tree.completed depth value) defaults trees) =
        .ok (after, more) := by
  induction hc generalizing index trees before with
  | nil => cases trees <;> exact h
  | @cons field default fields defaults hdefault _ ih =>
    cases trees with
    | nil => exact h
    | cons tree trees =>
      rw [fromItems] at h
      obtain ⟨next, hu, h⟩ := exists_of_bind h
      rw [completedItems, fromItems, hdefault.kept tree before next hu]
      exact ih h

/-- A record is read from an object if its members are and none is needed. -/
theorem record_of_fromMembers (hc : Completable depth room blank fields defaults)
    {members : List Member} {ending : Ending} {known : List String}
    (hm : fromMembers fields room [] blank members = .ok (result, known))
    (he : ending.read = .ok ()) :
    record name fields blank (room + 1) (.object members ending) = .ok result := by
  have hfree : fields.find? (fun field => field.needed && !known.contains field.key) = none := by
    rw [List.find?_eq_none]
    intro field hf
    obtain ⟨_, _, hdefault⟩ := hc.exists_default hf
    simp [hdefault.free]
  rw [record]
  simp only [enter, bind, Except.bind, hm, he, hfree]
  rfl

/-- A record that is read from an object is read from its members. -/
theorem exists_fromMembers_of_record {members : List Member} {ending : Ending}
    (h : record name fields blank (room + 1) (.object members ending) = .ok result) :
    ∃ known, fromMembers fields room [] blank members = .ok (result, known) ∧
      ending.read = .ok () := by
  rw [record] at h
  obtain ⟨inside, hentered, h⟩ := exists_of_bind h
  cases hentered
  obtain ⟨⟨found, known⟩, hread, h⟩ := exists_of_bind h
  obtain ⟨⟨⟩, hending, h⟩ := exists_of_bind h
  split at h
  · cases h
  · obtain rfl := Except.ok.inj h
    exact ⟨known, hread, hending⟩

/-- Before anything is read all defaults are neutral. -/
theorem Completable.neutral (hc : Completable depth room blank fields defaults) :
    Neutral room fields defaults [] blank := by
  intro field hf value hl _
  obtain ⟨other, ho, hdefault⟩ := hc.exists_default hf
  obtain rfl := Option.some.inj (hl.symm.trans ho)
  exact hdefault.blank

/-- What an object has is so in the record. -/
theorem update_of_has (hc : Completable depth room blank fields defaults) {tree value : Tree}
    (h : record name fields blank (room + 1) tree = .ok result) {field : Field σ}
    (hf : field ∈ fields) (hm : tree.Has field.key value) :
    field.update room value result = .ok result := by
  obtain ⟨members, ending, sound, rfl, hm⟩ := hm
  obtain ⟨known, hread, -⟩ := exists_fromMembers_of_record h
  exact update_of_mem hc hf hm hread

/-- What an object lacks is as its default says. -/
theorem update_of_lacks (hc : Completable depth room blank fields defaults) {tree : Tree}
    (h : record name fields blank (room + 1) tree = .ok result) {field : Field σ}
    (hf : field ∈ fields) (hm : tree.Lacks field.key) {value : Value}
    (hl : defaults.lookup field.key = some value) :
    field.update room value.tree result = .ok result := by
  obtain ⟨members, ending, rfl, hm⟩ := hm
  obtain ⟨known, hread, -⟩ := exists_fromMembers_of_record h
  refine neutral_of_fromMembers hc hc.neutral hread field hf value hl fun hk => ?_
  rcases mem_known hread hk with hk | hk
  · cases hk
  · exact hm hk

/-- Filling missing members in does not change what is read. -/
theorem record_completed (hc : Completable depth room blank fields defaults) {tree : Tree}
    (h : record name fields blank (room + 1) tree = .ok result) :
    record name fields blank (room + 1) (tree.completed (depth + 1) (.object defaults)) =
      .ok result := by
  cases tree with
  | object members ending =>
    obtain ⟨known, hread, hending⟩ := exists_fromMembers_of_record h
    have hunseen : ∀ entry ∈ missingDefaults defaults members, entry.1 ∉ known := by
      intro entry hm hk
      rcases mem_known hread hk with hk | hk
      · cases hk
      · obtain ⟨member, hmember, hkey⟩ := List.mem_map.mp hk
        have hmissing := (List.mem_filter.mp hm).2
        rw [Bool.not_eq_true'] at hmissing
        exact List.any_eq_false.mp hmissing member hmember (beq_iff_eq.mpr hkey)
    obtain ⟨later, hdefaults⟩ := exists_fromMembers_defaults hc
      (fun entry hm => (List.mem_filter.mp hm).1)
      ((hc.keys_eq ▸ hc.apart).sublist (List.filter_sublist.map _)) hunseen
      (neutral_of_fromMembers hc hc.neutral hread)
    rw [Tree.completed]
    exact record_of_fromMembers hc
      ((fromMembers_append _ (fromMembers_completed hc hread)).trans hdefaults) hending
  | array trees ending =>
    rw [record] at h
    obtain ⟨inside, hentered, h⟩ := exists_of_bind h
    cases hentered
    obtain ⟨⟨found, more⟩, hread, h⟩ := exists_of_bind h
    rw [Tree.completed, record]
    simp only [enter, bind, Except.bind, fromItems_completed hc.completes hread]
    exact h
  | _ => cases h

/-- What a record that was read has of an object: it is also read from the object with what is
missing filled in, and it has what the members say and, for missing ones, what the defaults say. -/
theorem record_read {tree : Tree} (h : record name fields blank (room + 1) tree = .ok result)
    (hc : Completable depth room blank fields defaults) :
    record name fields blank (room + 1) (tree.completed (depth + 1) (.object defaults)) =
        .ok result ∧
      (∀ field ∈ fields, ∀ value, tree.Has field.key value →
        field.update room value result = .ok result) ∧
      ∀ field ∈ fields, ∀ value, defaults.lookup field.key = some value → tree.Lacks field.key →
        field.update room value.tree result = .ok result :=
  ⟨record_completed hc h, fun _ hf _ hm => update_of_has hc h hf hm,
    fun _ hf _ hl hm => update_of_lacks hc h hf hm hl⟩

/-- A field that changes nothing reads as what the record has. -/
theorem read_of_update {α : Type} {key : String} {reader : Reader α} {put : α → σ → σ}
    {get : σ → α} (hget : ∀ item record, get (put item record) = item) {tree : Tree} {found : σ}
    (h : (Field.may key reader put).update room tree found = .ok found) :
    reader room tree = .ok (get found) := by
  obtain ⟨item, hread, heq⟩ := exists_of_map h
  rw [hread, ← heq, hget]

end records

end Reader

end QuerySurface.Json

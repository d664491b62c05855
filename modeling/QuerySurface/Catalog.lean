/-!
# Catalogs

A catalog is a list of named things in which a name is meant to occur once. Putting a thing
in replaces the one of the same name where it stands, and a new name goes to the end. So
the order of a catalog is the order in which names first occurred, and the content of an
entry is the last one given. The lemmas say so.
-/

namespace QuerySurface

/-- Things with a name. -/
class Named (α : Type) where
  /-- The name. -/
  name : α → String

namespace Catalog

variable {α : Type} [Named α]

/-- The names of a catalog, in order. -/
def names (catalog : List α) : List String :=
  catalog.map Named.name

/-- The thing of a name. -/
def find? (name : String) (catalog : List α) : Option α :=
  List.find? (fun entry => Named.name entry == name) catalog

/-- The position of a name. -/
def slot? (name : String) (catalog : List α) : Option Nat :=
  catalog.findIdx? (fun entry => Named.name entry == name)

/-- Whether a name occurs. -/
def has (name : String) (catalog : List α) : Bool :=
  catalog.any (fun entry => Named.name entry == name)

/-- Puts a thing in the place of its name. -/
def put (entry : α) : List α → List α
  | [] => [entry]
  | old :: rest =>
    if Named.name old = Named.name entry then entry :: rest else old :: put entry rest

/-- A name occurs if there is a thing of that name. -/
theorem has_eq_true_iff {name : String} {catalog : List α} :
    has name catalog = true ↔ name ∈ names catalog := by
  simp [has, names, List.any_eq_true]

/-- The names of an entry and the entries behind it. -/
theorem names_cons (entry : α) (catalog : List α) :
    names (entry :: catalog) = Named.name entry :: names catalog :=
  rfl

/-- Putting a thing in keeps the names, except that a new one goes to the end. -/
theorem names_put (entry : α) (catalog : List α) :
    names (put entry catalog) =
      if Named.name entry ∈ names catalog then names catalog
      else names catalog ++ [Named.name entry] := by
  induction catalog with
  | nil => simp [names, put]
  | cons old rest ih =>
    by_cases h : Named.name old = Named.name entry
    · simp [names_cons, put, h]
    · have hne : Named.name entry ≠ Named.name old := fun e => h e.symm
      simp only [put, h, if_false, names_cons, ih, List.mem_cons, hne, false_or]
      by_cases hm : Named.name entry ∈ names rest
      · rw [if_pos hm, if_pos hm]
      · rw [if_neg hm, if_neg hm, List.cons_append]

/-- What was put in is found under its name. -/
theorem find?_put_self (entry : α) (catalog : List α) :
    find? (Named.name entry) (put entry catalog) = some entry := by
  induction catalog with
  | nil => simp [find?, put]
  | cons old rest ih =>
    by_cases h : Named.name old = Named.name entry
    · simp [find?, put, h]
    · simp only [find?] at ih ⊢
      simp [put, h, ih]

/-- Other names are not touched. -/
theorem find?_put_of_ne {name : String} {entry : α} (h : name ≠ Named.name entry)
    (catalog : List α) : find? name (put entry catalog) = find? name catalog := by
  induction catalog with
  | nil => simp [find?, put, Ne.symm h]
  | cons old rest ih =>
    simp only [find?] at ih ⊢
    by_cases ho : Named.name old = Named.name entry
    · simp [put, ho, Ne.symm h]
    · by_cases hn : Named.name old = name
      · simp [put, hn, h]
      · simp [put, ho, hn, ih]

end Catalog

end QuerySurface

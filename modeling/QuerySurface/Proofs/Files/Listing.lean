import QuerySurface.Proofs.Files.PathOrder
import QuerySurface.Proofs.Files.Recorded

/-!
# Files that are listed

In a proper tree every place has one entry, and the names that lead to it are plain. A tree stays
proper when directories are made and files are written, so every tree is that was filled from the
empty one. The files below a directory of a proper tree are listed once each: what leads from the
directory to a file stands behind the names of the directory, so the names of no two listed paths
are the same.
-/

namespace QuerySurface.Files

/-! ## Names -/

/-- The names of a path hold no slash and say something. -/
theorem of_mem_names {path name : String} (h : name ∈ names path) :
    '/' ∉ name.toList ∧ name ≠ "" ∧ name ≠ "." := by
  obtain ⟨hm, hs⟩ := List.mem_filter.mp h
  obtain ⟨part, hp, rfl⟩ := List.mem_map.mp hm
  rw [Bool.and_eq_true, bne_iff_ne, bne_iff_ne] at hs
  exact ⟨by simpa using Text.not_mem_of_mem_splitOn hp, hs⟩

/-- Plain names with slashes between them are the names of the path that they make up. -/
theorem names_intercalate {path : List String} (h : ∀ name ∈ path, IsPlain name) :
    names ("/".intercalate path) = path := by
  induction path with
  | nil => rfl
  | cons name rest ih =>
    obtain ⟨hname, hrest⟩ := List.forall_mem_cons.mp h
    cases rest with
    | nil => exact hname.names_eq
    | cons next others =>
      rw [String.intercalate_cons_cons, names_append_slash, hname.names_eq, ih hrest]
      rfl

/-- Plain names with slashes between them do not start at the root. -/
theorem isAbsolute_intercalate {path : List String} (h : ∀ name ∈ path, IsPlain name) :
    isAbsolute ("/".intercalate path) = false := by
  cases path with
  | nil => rfl
  | cons name rest =>
    have hname := h name List.mem_cons_self
    cases rest with
    | nil => exact hname.isAbsolute_eq
    | cons next others =>
      obtain ⟨c, text, ht⟩ := List.exists_cons_of_ne_nil
        (mt String.toList_eq_nil_iff.mp hname.empty)
      have hc : c ≠ '/' := by
        rintro rfl
        exact hname.slash (ht ▸ List.mem_cons_self)
      simp [isAbsolute, String.intercalate_cons_cons, ht, hc]

namespace Tree

variable {tree later : Tree} {place : List String} {path : String}

/-! ## Proper trees -/

/-- Every place of a tree has one entry, and plain names lead to it. -/
structure Proper (tree : Tree) : Prop where
  /-- No place has two entries. -/
  places : (tree.entries.map Prod.fst).Nodup
  /-- The names that lead to an entry are plain. -/
  plain : ∀ entry ∈ tree.entries, ∀ name ∈ entry.1, IsPlain name

/-- A tree without entries is proper. -/
theorem proper_empty : empty.Proper :=
  ⟨List.nodup_nil, nofun⟩

/-- Replacing an entry leaves the places as they are. -/
theorem map_fst_replace (entries : List (List String × Entry)) (entry : Entry) :
    (entries.map fun old => if old.1 == place then (place, entry) else old).map Prod.fst =
      entries.map Prod.fst := by
  rw [List.map_map]
  refine List.map_congr_left fun old _ => ?_
  grind

/-- A tree stays proper when something is put in under plain names. -/
theorem Proper.put (h : tree.Proper) (hp : ∀ name ∈ place, IsPlain name) (entry : Entry) :
    (tree.put place entry).Proper := by
  rw [Tree.put]
  split
  case isTrue =>
    refine ⟨?_, ?_⟩
    · rw [map_fst_replace]
      exact h.places
    · intro other ho
      obtain ⟨old, hold, rfl⟩ := List.mem_map.mp ho
      split
      · exact hp
      · exact h.plain old hold
  case isFalse hnew =>
    have hfresh : place ∉ tree.entries.map Prod.fst := by simpa using hnew
    refine ⟨?_, ?_⟩
    · simp only [List.map_append, List.map_cons, List.map_nil]
      exact List.nodup_append.mpr ⟨h.places, by simp, by grind⟩
    · intro other ho
      rcases List.mem_append.mp ho with hold | hnew
      · exact h.plain other hold
      · rw [List.mem_singleton.mp hnew]
        exact hp

/-- From a place with a plain path, names of a path lead to another one. -/
theorem plain_of_follow {target path : List String} (hp : ∀ name ∈ place, IsPlain name)
    (hn : ∀ name ∈ path, '/' ∉ name.toList ∧ name ≠ "" ∧ name ≠ ".")
    (h : tree.follow place path = .ok target) : ∀ name ∈ target, IsPlain name := by
  induction path generalizing place with
  | nil => exact Except.ok.inj h ▸ hp
  | cons name rest ih =>
    obtain ⟨⟨hslash, hempty, hhere⟩, hrest⟩ := List.forall_mem_cons.mp hn
    rw [follow] at h
    split at h
    · cases h
    · cases h
    · split at h
      · exact ih (fun name hm => hp name (List.dropLast_subset _ hm)) hrest h
      · rename_i hback
        split at h
        · cases h
        · refine ih ?_ hrest h
          exact List.forall_mem_append.mpr
            ⟨hp, List.forall_mem_singleton.mpr ⟨hslash, hempty, hhere, hback⟩⟩

/-- A path leads to a place under plain names. -/
theorem plain_of_locate (h : tree.locate path = .ok place) : ∀ name ∈ place, IsPlain name :=
  plain_of_follow (List.forall_mem_nil _) (fun _ => of_mem_names) (locate_eq_ok_iff.mp h).2.2.1

/-- A tree stays proper when a change is made. -/
theorem Proper.make (h : tree.Proper) {change : Change} (hm : change.make tree = .ok later) :
    later.Proper := by
  cases change with
  | directory path =>
    rw [Change.make, makeDirectory] at hm
    split at hm
    · cases hm
    · rename_i place hl
      split at hm
      · cases hm
      · obtain rfl := Except.ok.inj hm
        exact h.put (plain_of_locate hl) _
  | file path bytes =>
    obtain ⟨place, hl, -, rfl⟩ := exists_of_write hm
    exact h.put (plain_of_locate hl) _

/-- A tree stays proper when changes are made one after the other. -/
theorem Proper.makeAll (h : tree.Proper) {changes : List Change}
    (hm : Change.makeAll changes tree = .ok later) : later.Proper := by
  induction changes generalizing tree with
  | nil => exact Except.ok.inj hm ▸ h
  | cons change rest ih =>
    rw [Change.makeAll] at hm
    split at hm
    · rename_i between hchange
      exact ih (h.make hchange) hm
    · cases hm

/-! ## Listed files -/

/-- What is listed for an entry: the path of a file below a directory and its place. -/
def listed (path : String) (place : List String) (entry : List String × Entry) : Option String :=
  match entry.2, place.isPrefixOf? entry.1 with
  | .file _, some (name :: rest) => some (join path ("/".intercalate (name :: rest)))
  | _, _ => none

/-- The files below a directory are what is listed for the entries. -/
theorem filesBelow_eq (h : tree.locate path = .ok place) :
    tree.filesBelow path = tree.entries.filterMap (listed path place) := by
  rw [filesBelow, h]
  rfl

/-- Files are listed, and they are listed under the names that lead to them from the directory. -/
theorem listed_eq_some_iff {entry : List String × Entry} {file : String} :
    listed path place entry = some file ↔
      ∃ rest bytes, rest ≠ [] ∧ entry = (place ++ rest, .file bytes) ∧
        file = join path ("/".intercalate rest) := by
  obtain ⟨key, entry⟩ := entry
  rw [listed]
  constructor
  · intro h
    split at h
    · rename_i bytes name rest hentry hleads
      obtain rfl : entry = .file bytes := hentry
      obtain rfl := List.isPrefixOf?_eq_some_iff_append_eq.mp hleads
      exact ⟨name :: rest, bytes, List.cons_ne_nil _ _, rfl, (Option.some.inj h).symm⟩
    · cases h
  · rintro ⟨rest, bytes, hr, he, rfl⟩
    obtain ⟨name, others, rfl⟩ := List.exists_cons_of_ne_nil hr
    obtain ⟨rfl, rfl⟩ := Prod.mk.inj he
    have hleads : place.isPrefixOf? (place ++ name :: others) = some (name :: others) :=
      List.isPrefixOf?_eq_some_iff_append_eq.mpr rfl
    simp only [hleads]

/-- The path of a listed file has the names of the directory and then those that lead on. -/
theorem Proper.names_listed (h : tree.Proper) {rest : List String} {entry : Entry}
    (hm : (place ++ rest, entry) ∈ tree.entries) :
    names (join path ("/".intercalate rest)) = names path ++ rest := by
  have hplain : ∀ name ∈ rest, IsPlain name := fun name hn =>
    h.plain _ hm name (List.mem_append_right place hn)
  rw [names_join (isAbsolute_intercalate hplain), names_intercalate hplain]

/-- No two listed paths have the same names. -/
theorem Proper.nodup_names_filesBelow (h : tree.Proper) (path : String) :
    ((tree.filesBelow path).map names).Nodup := by
  cases hl : tree.locate path with
  | error fault =>
    rw [filesBelow, hl]
    exact List.nodup_nil
  | ok place =>
    rw [filesBelow_eq hl]
    refine List.pairwise_map.mpr (List.pairwise_filterMap.mpr ?_)
    refine (List.pairwise_map.mp h.places).imp_of_mem ?_
    intro entry other he ho hne file hfile twin htwin
    obtain ⟨rest, bytes, -, rfl, rfl⟩ := listed_eq_some_iff.mp hfile
    obtain ⟨others, content, -, rfl, rfl⟩ := listed_eq_some_iff.mp htwin
    rw [h.names_listed he, h.names_listed ho]
    exact fun hnames => hne (congrArg (place ++ ·) (List.append_cancel_left hnames))

end Tree

end QuerySurface.Files

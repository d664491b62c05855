import QuerySurface.Proofs.Catalog.LastWins
import Mathlib.Data.List.Nodup
import Mathlib.Data.List.Perm.Basic

/-!
# Entries without repeated names

If no name is declared twice, every declaration survives, and what is found under a name does not
depend on the order of the entries.
-/

namespace QuerySurface.Catalog

variable {α β : Type} [Named α] [Named β]

/-- Looking among things made from entries, under the names of these. -/
theorem find?_map (make : α → β) (hm : ∀ entry, Named.name (make entry) = Named.name entry)
    (name : String) (entries : List α) :
    find? name (entries.map make) = (find? name entries).map make := by
  simp only [find?, List.find?_map, Function.comp_def, hm]

/-- Looking through one run of entries and then through another. -/
theorem find?_append (name : String) (front back : List α) :
    find? name (front ++ back) = (find? name front).or (find? name back) :=
  List.find?_append

/-- An entry of a new name goes to the end. -/
theorem put_of_not_mem {entry : α} {catalog : List α} (h : Named.name entry ∉ names catalog) :
    put entry catalog = catalog ++ [entry] := by
  induction catalog with
  | nil => rfl
  | cons old rest ih =>
    rw [names_cons, List.mem_cons, not_or] at h
    rw [put, if_neg (Ne.symm h.1), ih h.2, List.cons_append]

/-- What is made of entries that are made in their places. -/
theorem map_mapIdx {δ ε γ : Type} (make : Nat → δ → ε) (of : ε → γ) (entries : List δ) :
    (entries.mapIdx make).map of = entries.mapIdx fun place entry => of (make place entry) := by
  rw [List.mapIdx_eq_zipIdx_map, List.map_map, List.mapIdx_eq_zipIdx_map]
  rfl

/-- What is made in their places of entries that are made of others. -/
theorem mapIdx_map {δ ε γ : Type} (of : δ → ε) (make : Nat → ε → γ) (entries : List δ) :
    (entries.map of).mapIdx make = entries.mapIdx fun place entry => make place (of entry) := by
  apply List.ext_getElem <;> simp

/-- Two entries of one name are one where no name is repeated. -/
theorem eq_of_name_eq {entries : List α} (hn : (names entries).Nodup) {entry other : α}
    (he : entry ∈ entries) (ho : other ∈ entries) (h : Named.name entry = Named.name other) :
    entry = other :=
  List.inj_on_of_nodup_map hn he ho h

/-- In a catalog without repeated names, one entry has the name of an entry. -/
theorem filter_name_of_mem {entries : List α} (hn : (names entries).Nodup) {entry : α}
    (hm : entry ∈ entries) :
    entries.filter (fun other => Named.name other == Named.name entry) = [entry] := by
  induction entries with
  | nil => simp at hm
  | cons head rest ih =>
    rw [names_cons, List.nodup_cons] at hn
    rcases List.mem_cons.mp hm with rfl | hm
    · have hrest : rest.filter (fun other => Named.name other == Named.name entry) = [] := by
        rw [List.filter_eq_nil_iff]
        intro other ho hname
        exact hn.1 (beq_iff_eq.mp hname ▸ List.mem_map_of_mem ho)
      rw [List.filter_cons_of_pos (by simp), hrest]
    · have hne : Named.name head ≠ Named.name entry := by
        intro hname
        exact hn.1 (hname ▸ List.mem_map_of_mem hm)
      rw [List.filter_cons_of_neg (by simpa using hne), ih hn.2 hm]

/-- What is kept of entries without repeated names has none either. -/
theorem nodup_filter {entries : List α} (hn : (names entries).Nodup) (keeps : α → Bool) :
    (names (entries.filter keeps)).Nodup :=
  hn.sublist (List.filter_sublist.map _)

/-- How often the name of an entry occurs among what is kept. -/
theorem count_name_filter {entries : List α} (hn : (names entries).Nodup) (keeps : α → Bool)
    {entry : α} (hm : entry ∈ entries) :
    (names (entries.filter keeps)).count (Named.name entry) = if keeps entry then 1 else 0 := by
  have hmem : Named.name entry ∈ names (entries.filter keeps) ↔ keeps entry = true := by
    constructor
    · intro h
      obtain ⟨other, ho, hname⟩ := List.mem_map.mp h
      obtain ⟨ho, hkept⟩ := List.mem_filter.mp ho
      rwa [← eq_of_name_eq hn ho hm hname]
    · intro h
      exact List.mem_map_of_mem (List.mem_filter.mpr ⟨hm, h⟩)
  rw [(nodup_filter hn keeps).count]
  exact if_congr hmem rfl rfl

/-- What is found under a name does not depend on the order. -/
theorem find?_perm {left right : List α} (hp : left.Perm right) (hn : (names left).Nodup)
    (name : String) : find? name left = find? name right := by
  have hnr : (names right).Nodup := (hp.map Named.name).nodup_iff.mp hn
  cases hl : find? name left with
  | none =>
    have hmem : name ∉ names right := fun hm =>
      find?_eq_none_iff.mp hl ((hp.map Named.name).mem_iff.mpr hm)
    exact (find?_eq_none_iff.mpr hmem).symm
  | some entry =>
    have hm : entry ∈ right := hp.mem_iff.mp (mem_of_find? hl)
    rw [← name_of_find? hl, find?_of_mem hnr hm]

/-- The last entry of a name is the only one. -/
theorem last?_eq_find? {entries : List α} (hn : (names entries).Nodup) (name : String) :
    last? name entries = find? name entries :=
  (find?_perm entries.reverse_perm.symm hn name).symm

/-- Names that are not repeated are all left. -/
theorem eraseDups_of_nodup {words : List String} (h : words.Nodup) : words.eraseDups = words := by
  induction words using List.reverseRecOn with
  | nil => rfl
  | append_singleton words word ih =>
    rw [List.nodup_append] at h
    have hw : word ∉ words := fun hm => h.2.2 word hm word (List.mem_singleton_self _) rfl
    rw [eraseDups_concat, if_neg hw, ih h.1]

/-- Every entry survives. -/
theorem surviving_of_nodup {entries : List α} (hn : (names entries).Nodup) :
    surviving entries = entries := by
  apply eq_of_find?
  · rw [names_surviving, eraseDups_of_nodup hn]
  · exact nodup_surviving entries
  · intro name
    rw [find?_surviving, last?_eq_find? hn]

/-- Entries in front whose names occur only once survive in front. -/
theorem surviving_append {front back : List α} (hn : (names front).Nodup)
    (hd : ∀ name ∈ names front, name ∉ names back) :
    surviving (front ++ back) = front ++ surviving back := by
  have hlast : ∀ name, last? name (front ++ back) = (find? name front).or (last? name back) := by
    intro name
    rw [last?, List.reverse_append, find?_append, ← last?, ← last?, last?_eq_find? hn]
    cases hf : find? name front with
    | none => exact Option.or_none
    | some entry =>
      have hm : name ∈ names front := name_of_find? hf ▸ List.mem_map_of_mem (mem_of_find? hf)
      have hb : last? name back = none := by
        rw [last?, find?_eq_none_iff, names, List.map_reverse, List.mem_reverse]
        exact hd name hm
      rw [hb]
      rfl
  have hremove : (names back).removeAll (names front) = names back := by
    rw [List.removeAll, List.filter_eq_self]
    intro name hm
    have hnot : name ∉ names front := fun hf => hd name hf hm
    simpa using hnot
  apply eq_of_find?
  · rw [names_surviving, names_append, List.eraseDups_append, hremove, eraseDups_of_nodup hn,
      names_append, names_surviving]
  · exact nodup_surviving _
  · intro name
    rw [find?_surviving, hlast, find?_append, find?_surviving]

/-- An entry stands where its name stands. -/
theorem slot?_of_getElem? {entries : List α} (hn : (names entries).Nodup) {place : Nat} {entry : α}
    (h : entries[place]? = some entry) : slot? (Named.name entry) entries = some place := by
  obtain ⟨hp, rfl⟩ := List.getElem?_eq_some_iff.mp h
  have hapart : entries.Pairwise fun other entry => Named.name other ≠ Named.name entry :=
    List.pairwise_map.mp hn
  refine List.findIdx?_eq_some_iff_getElem.mpr ⟨hp, beq_self_eq_true _, ?_⟩
  intro other ho hname
  have hne := List.pairwise_iff_getElem.mp hapart other place (Nat.lt_trans ho hp) hp ho
  exact hne (by simpa using hname)

/-- What is made from an entry and its place is made from the place of its name. -/
theorem mapIdx_eq_map_idxOf {γ : Type} (make : Nat → α → γ) {entries : List α}
    (hn : (names entries).Nodup) :
    entries.mapIdx make =
      entries.map fun entry => make ((names entries).idxOf (Named.name entry)) entry := by
  apply List.ext_getElem
  · simp
  · intro place hp _
    rw [List.length_mapIdx] at hp
    have hlt : place < (names entries).length := by simpa [names] using hp
    have hname : Named.name entries[place] = (names entries)[place] := by simp [names]
    rw [List.getElem_mapIdx, List.getElem_map, hname, hn.idxOf_getElem]

end QuerySurface.Catalog

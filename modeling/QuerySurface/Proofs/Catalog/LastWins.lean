import QuerySurface.Catalog
import Mathlib.Data.List.Induction

/-!
# The last declaration wins

Entries are declared one after the other, names may repeat, and a catalog takes them in. What
survives is said here without a catalog: every name once, at the place where it was first
declared, with the content that was declared last. Putting entries into a catalog one by one
keeps exactly that, also when an entry records its own place.
-/

namespace QuerySurface.Catalog

variable {α β : Type} [Named α] [Named β]

/-- The last entry of a name. -/
def last? (name : String) (entries : List α) : Option α :=
  find? name entries.reverse

/-- What survives of entries: every name where it first stood, with its last entry. -/
def surviving (entries : List α) : List α :=
  (names entries).eraseDups.filterMap fun name => last? name entries

/-- The law of the last declaration: `kept` has every declared name once, in the order of first
declaration, and each of its entries agrees with the last one declared under its name. -/
structure LastWins (agrees : α → β → Prop) (declared : List α) (kept : List β) : Prop where
  /-- The order is that of the first declarations. -/
  names_eq : names kept = (names declared).eraseDups
  /-- The content is that of the last declarations. -/
  content : ∀ entry ∈ kept,
    ∃ source, last? (Named.name entry) declared = some source ∧ agrees source entry

/-- The names of two runs of entries. -/
theorem names_append (front back : List α) : names (front ++ back) = names front ++ names back :=
  List.map_append

/-- The name of an entry that was looked for. -/
theorem name_of_find? {name : String} {catalog : List α} {entry : α}
    (h : find? name catalog = some entry) : Named.name entry = name := by
  simpa using List.find?_some h

/-- What is found stands in the catalog. -/
theorem mem_of_find? {name : String} {catalog : List α} {entry : α}
    (h : find? name catalog = some entry) : entry ∈ catalog :=
  List.mem_of_find?_eq_some h

/-- A name that does not occur is not found. -/
theorem find?_eq_none_iff {name : String} {catalog : List α} :
    find? name catalog = none ↔ name ∉ names catalog := by
  simp [find?, names]

/-- What is found is the first entry of the name. -/
theorem find?_eq_some_iff {name : String} {catalog : List α} {entry : α} :
    find? name catalog = some entry ↔ Named.name entry = name ∧
      ∃ front back, catalog = front ++ entry :: back ∧ name ∉ names front := by
  simp only [find?, names, List.find?_eq_some_iff_append, List.mem_map, beq_iff_eq, not_exists,
    not_and, Bool.not_eq_true', beq_eq_false_iff_ne, ne_eq]

/-- In a catalog without repeated names every entry is found under its name. -/
theorem find?_of_mem {catalog : List α} (hn : (names catalog).Nodup) {entry : α}
    (hm : entry ∈ catalog) : find? (Named.name entry) catalog = some entry := by
  induction catalog with
  | nil => simp at hm
  | cons head rest ih =>
    rw [names_cons, List.nodup_cons] at hn
    rcases List.mem_cons.mp hm with rfl | hm
    · simp [find?]
    · have hne : Named.name head ≠ Named.name entry := by
        intro he
        exact hn.1 (he ▸ List.mem_map_of_mem hm)
      simpa [find?, hne] using ih hn.2 hm

/-- A later entry of the name hides the earlier ones. -/
theorem last?_concat (name : String) (entries : List α) (entry : α) :
    last? name (entries ++ [entry]) =
      if Named.name entry = name then some entry else last? name entries := by
  by_cases h : Named.name entry = name <;> simp [last?, find?, h]

/-- The name of a last entry. -/
theorem name_of_last? {name : String} {entries : List α} {entry : α}
    (h : last? name entries = some entry) : Named.name entry = name :=
  name_of_find? h

/-- Every declared name has a last entry. -/
theorem exists_last? {name : String} {entries : List α} (h : name ∈ names entries) :
    ∃ entry, last? name entries = some entry := by
  cases hl : last? name entries with
  | some entry => exact ⟨entry, rfl⟩
  | none =>
    have hn := find?_eq_none_iff.mp hl
    simp only [names, List.map_reverse, List.mem_reverse] at hn
    exact absurd h hn

/-- Another name at the end either repeats one or is new. -/
theorem eraseDups_concat (words : List String) (word : String) :
    (words ++ [word]).eraseDups =
      if word ∈ words then words.eraseDups else words.eraseDups ++ [word] := by
  rw [List.eraseDups_append]
  by_cases h : word ∈ words <;> simp [List.removeAll, h, List.eraseDups_cons]

/-- No word is left twice. -/
theorem nodup_eraseDups (words : List String) : words.eraseDups.Nodup := by
  induction words using List.reverseRecOn with
  | nil => simp
  | append_singleton words word ih =>
    rw [eraseDups_concat]
    split
    · exact ih
    · rename_i h
      refine List.nodup_append.mpr ⟨ih, by simp, ?_⟩
      rintro other ho _ hw rfl
      rw [List.mem_singleton.mp hw] at ho
      exact h (List.mem_eraseDups.mp ho)

/-- Among the last entries of some declared names, each has the name it was taken for. -/
theorem names_filterMap_last? {entries : List α} {words : List String}
    (h : ∀ word ∈ words, word ∈ names entries) :
    names (words.filterMap fun word => last? word entries) = words := by
  induction words with
  | nil => rfl
  | cons word rest ih =>
    obtain ⟨entry, he⟩ := exists_last? (h word (List.mem_cons_self ..))
    have hr := ih fun other ho => h other (List.mem_cons_of_mem _ ho)
    simp only [List.filterMap_cons, he, names_cons, name_of_last? he, hr]

/-- The names that survive, in the order of first declaration. -/
theorem names_surviving (entries : List α) :
    names (surviving entries) = (names entries).eraseDups :=
  names_filterMap_last? fun _ hw => List.mem_eraseDups.mp hw

/-- No name survives twice. -/
theorem nodup_surviving (entries : List α) : (names (surviving entries)).Nodup := by
  rw [names_surviving]
  exact nodup_eraseDups _

/-- What survives is the last of its name. -/
theorem last?_of_mem_surviving {entries : List α} {entry : α} (h : entry ∈ surviving entries) :
    last? (Named.name entry) entries = some entry := by
  obtain ⟨name, _, hl⟩ := List.mem_filterMap.mp h
  rw [name_of_last? hl]
  exact hl

/-- Under each name the last entry survives. -/
theorem find?_surviving (name : String) (entries : List α) :
    find? name (surviving entries) = last? name entries := by
  cases hl : last? name entries with
  | some entry =>
    have hn : name ∈ names entries := by
      rw [← name_of_last? hl]
      exact List.mem_map_of_mem (List.mem_reverse.mp (mem_of_find? hl))
    have hm : entry ∈ surviving entries :=
      List.mem_filterMap.mpr ⟨name, List.mem_eraseDups.mpr hn, hl⟩
    have hf := find?_of_mem (nodup_surviving entries) hm
    rwa [name_of_last? hl] at hf
  | none =>
    rw [find?_eq_none_iff, names_surviving, List.mem_eraseDups]
    intro hn
    obtain ⟨entry, he⟩ := exists_last? hn
    rw [hl] at he
    cases he

/-- Two catalogs with the same names, none twice, and the same entry under each name are one. -/
theorem eq_of_find? {left right : List α} (hn : names left = names right)
    (hd : (names left).Nodup) (hf : ∀ name, find? name left = find? name right) :
    left = right := by
  have hdr : (names right).Nodup := hn ▸ hd
  apply List.ext_getElem
  · have hlen := congrArg List.length hn
    simpa [names] using hlen
  · intro i hl hr
    have hname : Named.name left[i] = Named.name right[i] := by
      have hi := List.getElem_of_eq hn (i := i) (by simpa [names] using hl)
      simpa [names] using hi
    have he := hf (Named.name left[i])
    rw [find?_of_mem hd (List.getElem_mem hl), hname,
      find?_of_mem hdr (List.getElem_mem hr)] at he
    exact Option.some.inj he

/-- Taking one more entry in keeps what survives. -/
theorem surviving_concat (entries : List α) (entry : α) :
    surviving (entries ++ [entry]) = put entry (surviving entries) := by
  apply eq_of_find?
  · rw [names_surviving, names_put, names_surviving, names_append]
    simp only [names, List.map_cons, List.map_nil, eraseDups_concat, List.mem_eraseDups]
  · exact nodup_surviving _
  · intro name
    rw [find?_surviving, last?_concat]
    by_cases h : Named.name entry = name
    · subst h
      rw [if_pos rfl, find?_put_self]
    · rw [if_neg h, find?_put_of_ne (Ne.symm h), find?_surviving]

/-- What survives obeys the law of the last declaration. -/
theorem lastWins_map {agrees : α → β → Prop} {declared : List α} {kept : List β}
    (hk : names kept = names (surviving declared))
    (hc : ∀ entry ∈ kept, ∃ source ∈ surviving declared,
      Named.name entry = Named.name source ∧ agrees source entry) :
    LastWins agrees declared kept where
  names_eq := by rw [hk, names_surviving]
  content := by
    intro entry he
    obtain ⟨source, hs, hname, ha⟩ := hc entry he
    refine ⟨source, ?_, ha⟩
    rw [hname]
    exact last?_of_mem_surviving hs

/-! ## Entries made from declarations -/

/-- Entries that carry the names of what they are made from. -/
theorem names_mapIdx (make : Nat → α → β) (hm : ∀ i entry, Named.name (make i entry) =
    Named.name entry) (entries : List α) : names (entries.mapIdx make) = names entries := by
  apply List.ext_getElem
  · simp [names]
  · intro i _ _
    simp [names, hm]

/-- A place depends on the names alone. -/
theorem slot?_eq_names (name : String) (entries : List α) :
    slot? name entries = (names entries).findIdx? (· == name) := by
  simp only [slot?, names, List.findIdx?_map]
  rfl

/-- Whether a name occurs depends on the names alone. -/
theorem has_eq_decide (name : String) (entries : List α) :
    has name entries = decide (name ∈ names entries) := by
  rw [Bool.eq_iff_iff, has_eq_true_iff, decide_eq_true_iff]

/-- An entry that is made at the place of its name is put there. -/
theorem put_mapIdx (make : Nat → α → β) (hm : ∀ i entry, Named.name (make i entry) =
    Named.name entry) (entry : α) (entries : List α) :
    put (make ((slot? (Named.name entry) entries).getD entries.length) entry)
      (entries.mapIdx make) = (put entry entries).mapIdx make := by
  induction entries generalizing make with
  | nil => simp [put, slot?]
  | cons head rest ih =>
    have hrest := ih (fun i => make (i + 1)) fun i other => hm (i + 1) other
    by_cases h : Named.name head = Named.name entry
    · simp [put, slot?, List.mapIdx_cons, List.findIdx?_cons, hm, h]
    · have hslot : (slot? (Named.name entry) (head :: rest)).getD (head :: rest).length =
          (slot? (Named.name entry) rest).getD rest.length + 1 := by
        have hb : (Named.name head == Named.name entry) = false := by simpa using h
        simp only [slot?, List.findIdx?_cons, hb, Bool.false_eq_true, if_false, List.length_cons]
        cases rest.findIdx? (fun other => Named.name other == Named.name entry) <;> rfl
      rw [hslot]
      simp only [put, h, if_false, List.mapIdx_cons, hm]
      rw [hrest]

/-- Entries that are made without regard to their place. -/
theorem put_map (make : α → β) (hm : ∀ entry, Named.name (make entry) = Named.name entry)
    (entry : α) (entries : List α) :
    put (make entry) (entries.map make) = (put entry entries).map make := by
  induction entries with
  | nil => rfl
  | cons head rest ih =>
    by_cases h : Named.name head = Named.name entry
    · simp [put, hm, h]
    · simp [put, hm, h, ih]

section Made

variable {δ ε γ : Type}

/-- Looking for an entry among those made from declarations is looking for its declaration. -/
theorem find?_mapIdx (make : Nat → δ → ε) (test : ε → Bool) (tested : δ → Bool)
    (ht : ∀ i entry, test (make i entry) = tested entry) (of : ε → γ) (seen : δ → γ)
    (hs : ∀ i entry, of (make i entry) = seen entry) (entries : List δ) :
    ((entries.mapIdx make).find? test).map of = (entries.find? tested).map seen := by
  induction entries generalizing make with
  | nil => rfl
  | cons head rest ih =>
    have hrest := ih (fun i => make (i + 1)) (fun i other => ht (i + 1) other)
      fun i other => hs (i + 1) other
    cases h : tested head with
    | true => simp [List.mapIdx_cons, ht, h, hs]
    | false => simp [List.mapIdx_cons, ht, h, hrest]

/-- What entries made from declarations yield one after the other. -/
theorem flatMap_mapIdx (make : Nat → δ → ε) (of : ε → List γ) (seen : δ → List γ)
    (hs : ∀ i entry, of (make i entry) = seen entry) (entries : List δ) :
    (entries.mapIdx make).flatMap of = entries.flatMap seen := by
  induction entries generalizing make with
  | nil => rfl
  | cons head rest ih =>
    have hrest := ih (fun i => make (i + 1)) fun i other => hs (i + 1) other
    rw [List.mapIdx_cons, List.flatMap_cons, List.flatMap_cons, hs, hrest]

end Made

end QuerySurface.Catalog

import QuerySurface.Proofs.Json.Values

/-!
# Records read back

A record is read from an object whose members are fields in their declared order, with fields
that are not needed left out. Whatever text a record is read from, a property that its fields
keep holds of it.
-/

namespace QuerySurface.Json.Reader

variable {σ α : Type}

/-! ## What a record keeps -/

section keeps

variable {holds : σ → Prop} {fields : List (Field σ)} {room : Nat}

/-- What every field keeps holds behind all members of an object. -/
theorem fromMembers_keeps
    (hkeeps : ∀ field ∈ fields, ∀ tree before after, holds before →
      field.update room tree before = .ok after → holds after)
    {members : List Member} {seen known : List String} {before after : σ} (hstart : holds before)
    (h : fromMembers fields room seen before members = .ok (after, known)) : holds after := by
  induction members generalizing seen before with
  | nil =>
    cases h
    exact hstart
  | cons member rest ih =>
    obtain ⟨key, sound, tree⟩ := member
    rw [fromMembers] at h
    split at h
    · cases h
    cases hfound : fields.find? (fun field => field.key == key) with
    | none =>
      rw [hfound] at h
      obtain ⟨-, -, h⟩ := exists_of_bind h
      exact ih hstart h
    | some field =>
      simp only [hfound] at h
      split at h
      · cases h
      obtain ⟨next, hupdated, h⟩ := exists_of_bind h
      exact ih (hkeeps field (List.mem_of_find?_eq_some hfound) tree before next hstart hupdated) h

/-- What every field keeps holds behind the elements of a list that stands for a record. -/
theorem fromItems_keeps {ending : Ending} {short : Nat → Problem}
    (hkeeps : ∀ field ∈ fields, ∀ tree before after, holds before →
      field.update room tree before = .ok after → holds after)
    {index : Nat} {trees more : List Tree} {before after : σ} (hstart : holds before)
    (h : fromItems room ending short index before fields trees = .ok (after, more)) :
    holds after := by
  induction fields generalizing index trees before with
  | nil =>
    cases trees <;> cases h <;> exact hstart
  | cons field rest ih =>
    have hlater := fun other hmem => hkeeps other (List.mem_cons_of_mem field hmem)
    cases trees with
    | nil =>
      rw [fromItems] at h
      obtain ⟨-, -, h⟩ := exists_of_bind h
      split_ifs at h
      · cases h
      · exact ih hlater hstart h
    | cons tree trees =>
      rw [fromItems] at h
      obtain ⟨next, hupdated, h⟩ := exists_of_bind h
      exact ih hlater (hkeeps field List.mem_cons_self tree before next hstart hupdated) h

/-- What the blank record has and every field keeps, a record has that was read. -/
theorem record_keeps {name : String} {blank result : σ} {tree : Tree} (hstart : holds blank)
    (hkeeps : ∀ field ∈ fields, ∀ tree before after, holds before →
      field.update room tree before = .ok after → holds after)
    (h : record name fields blank (room + 1) tree = .ok result) : holds result := by
  cases tree with
  | object members ending =>
    rw [record] at h
    obtain ⟨inside, hentered, h⟩ := exists_of_bind h
    cases hentered
    obtain ⟨⟨found, seen⟩, hread, h⟩ := exists_of_bind h
    obtain ⟨-, -, h⟩ := exists_of_bind h
    split at h
    · cases h
    · cases h
      exact fromMembers_keeps hkeeps hstart hread
  | array trees ending =>
    rw [record] at h
    obtain ⟨inside, hentered, h⟩ := exists_of_bind h
    cases hentered
    obtain ⟨⟨found, more⟩, hread, h⟩ := exists_of_bind h
    dsimp only at h
    split at h
    · cases h
    obtain ⟨-, -, h⟩ := exists_of_bind h
    cases h
    exact fromItems_keeps hkeeps hstart hread
  | _ => cases h

end keeps

/-- Every element of a list that is read was read from one of its trees. -/
theorem items_keeps {reader : Reader α} {room : Nat} {trees : List Tree} {result : List α}
    (h : items reader room trees = .ok result) :
    ∀ item ∈ result, ∃ tree, reader room tree = .ok item := by
  induction trees generalizing result with
  | nil =>
    cases h
    simp
  | cons tree rest ih =>
    rw [items] at h
    obtain ⟨item, hfirst, h⟩ := exists_of_bind h
    obtain ⟨others, hlater, h⟩ := exists_of_bind h
    cases h
    exact List.forall_mem_cons.mpr ⟨⟨tree, hfirst⟩, ih hlater⟩

/-- Every element of a list was read. -/
theorem list_keeps {reader : Reader α} {room : Nat} {tree : Tree} {result : List α}
    (h : list reader (room + 1) tree = .ok result) :
    ∀ item ∈ result, ∃ tree, reader room tree = .ok item := by
  cases tree with
  | array trees ending =>
    rw [list] at h
    obtain ⟨inside, hentered, h⟩ := exists_of_bind h
    cases hentered
    obtain ⟨found, hread, h⟩ := exists_of_bind h
    obtain ⟨-, -, h⟩ := exists_of_bind h
    cases h
    exact items_keeps hread
  | _ => cases h

/-! ## Records read back -/

/-- Members that fill the fields of a record one after the other. -/
inductive Filled (room : Nat) : List (Field σ) → List (String × Value) → σ → σ → Prop where
  /-- All fields are done. -/
  | nil (record : σ) : Filled room [] [] record record
  /-- A field that is left out. -/
  | skip {field : Field σ} {fields : List (Field σ)} {members : List (String × Value)}
    {before after : σ} (free : field.needed = false)
    (rest : Filled room fields members before after) :
    Filled room (field :: fields) members before after
  /-- A field with its value. -/
  | take {field : Field σ} {fields : List (Field σ)} {members : List (String × Value)}
    {before between after : σ} {value : Value}
    (updated : field.update room value.tree before = .ok between)
    (rest : Filled room fields members between after) :
    Filled room (field :: fields) ((field.key, value) :: members) before after

section filled

variable {room : Nat}

/-- Members that fill the last fields of a record are read, and with them all needed fields. -/
theorem fromMembers_filled {fields : List (Field σ)} {members : List (String × Value)}
    {before after : σ} (hfilled : Filled room fields members before after)
    (front : List (Field σ)) (hapart : ((front ++ fields).map Field.key).Nodup)
    (seen : List String) (hknown : ∀ key ∈ seen, key ∈ front.map Field.key) :
    ∃ found, fromMembers (front ++ fields) room seen before (memberTrees members) =
        .ok (after, found) ∧
      (∀ key ∈ seen, key ∈ found) ∧ ∀ field ∈ fields, field.needed = true → field.key ∈ found := by
  -- The fields in front are done, and the keys seen so far are keys of theirs.
  induction hfilled generalizing front seen with
  | nil record => exact ⟨seen, rfl, fun _ hmem => hmem, by simp⟩
  | @skip field fields members before after hfree _ ih =>
    have hsplit : front ++ field :: fields = front ++ [field] ++ fields := by simp
    rw [hsplit] at hapart ⊢
    obtain ⟨found, hread, hkept, heach⟩ := ih (front ++ [field]) hapart seen fun key hmem => by
      rw [List.map_append]
      exact List.mem_append_left _ (hknown key hmem)
    refine ⟨found, hread, hkept, List.forall_mem_cons.mpr ⟨fun hneeded => ?_, heach⟩⟩
    rw [hfree] at hneeded
    cases hneeded
  | @take field fields members before between after value hupdated _ ih =>
    have hsplit : front ++ field :: fields = front ++ [field] ++ fields := by simp
    have hfresh : ∀ other ∈ front, other.key ≠ field.key := by
      intro other hmem hsame
      rw [List.map_append, List.nodup_append] at hapart
      exact hapart.2.2 _ (List.mem_map_of_mem hmem) _ (List.mem_map_of_mem List.mem_cons_self) hsame
    have hown : (front ++ field :: fields).find? (fun other => other.key == field.key) =
        some field := by
      rw [List.find?_append,
        List.find?_eq_none.mpr fun other hmem => by simpa using hfresh other hmem]
      simp
    have hunseen : seen.contains field.key = false := by
      rw [List.contains_eq_mem, decide_eq_false_iff_not]
      intro hmem
      obtain ⟨other, hthere, hsame⟩ := List.mem_map.mp (hknown _ hmem)
      exact hfresh other hthere hsame
    rw [hsplit] at hapart
    obtain ⟨found, hread, hkept, heach⟩ := ih (front ++ [field]) hapart (field.key :: seen)
        fun key hmem => by
      rw [List.map_append]
      obtain rfl | hold := List.mem_cons.mp hmem
      · exact List.mem_append_right _ (by simp)
      · exact List.mem_append_left _ (hknown key hold)
    rw [← hsplit] at hread
    refine ⟨found, ?_, fun key hmem => hkept key (List.mem_cons_of_mem _ hmem),
      List.forall_mem_cons.mpr ⟨fun _ => hkept _ List.mem_cons_self, heach⟩⟩
    rw [memberTrees, fromMembers]
    simp only [hown, hunseen, hupdated, Bool.not_true, Bool.false_eq_true, ↓reduceIte, bind,
      Except.bind]
    exact hread

/-- An object whose members fill the fields of a record is read as the record. -/
theorem record_filled {name : String} {fields : List (Field σ)} {members : List (String × Value)}
    {blank result : σ} (hapart : (fields.map Field.key).Nodup)
    (hfilled : Filled room fields members blank result) :
    record name fields blank (room + 1) (Value.object members).tree = .ok result := by
  obtain ⟨found, hread, -, heach⟩ := fromMembers_filled hfilled [] hapart [] (by simp)
  have hcomplete :
      fields.find? (fun field => field.needed && !found.contains field.key) = none := by
    rw [List.find?_eq_none]
    intro field hmem
    by_cases hneeded : field.needed = true
    · simp [heach field hmem hneeded]
    · simp [hneeded]
  rw [Value.tree, record]
  simp only [enter, bind, Except.bind, Ending.read, pure, Except.pure]
  rw [List.nil_append] at hread
  simp only [hread, hcomplete]

variable {fields : List (Field σ)} {members : List (String × Value)} {record after : σ}
  {key : String} {reader : Reader α} {put : α → σ → σ}

/-- A needed field. -/
theorem Filled.must {item : α} {value : Value} (hread : reader room value.tree = .ok item)
    (hrest : Filled room fields members (put item record) after) :
    Filled room (.must key reader put :: fields) ((key, value) :: members) record after := by
  have hupdated :
      (Field.must key reader put).update room value.tree record = .ok (put item record) := by
    simp only [Field.must, hread]
    rfl
  exact .take hupdated hrest

/-- A field that may be left out. -/
theorem Filled.may {item : α} {value : Value} (hread : reader room value.tree = .ok item)
    (hrest : Filled room fields members (put item record) after) :
    Filled room (.may key reader put :: fields) ((key, value) :: members) record after := by
  have hupdated :
      (Field.may key reader put).update room value.tree record = .ok (put item record) := by
    simp only [Field.may, hread]
    rfl
  exact .take hupdated hrest

end filled

/-- Elements are read back if each of them is. -/
theorem list_trees {reader : Reader α} {room : Nat} {originals : List α} {write : α → Value}
    {blur : α → α} (heach : ∀ item ∈ originals, ∃ again, reader room (write item).tree = .ok again ∧
      blur again = blur item) :
    ∃ again, list reader (room + 1) (Value.array (originals.map write)).tree = .ok again ∧
      again.map blur = originals.map blur := by
  have hall : ∃ again, items reader room (itemTrees (originals.map write)) = .ok again ∧
      again.map blur = originals.map blur := by
    induction originals with
    | nil => exact ⟨[], rfl, rfl⟩
    | cons item rest ih =>
      obtain ⟨⟨first, hread, hsame⟩, hothers⟩ := List.forall_mem_cons.mp heach
      obtain ⟨later, hreadLater, hsameLater⟩ := ih hothers
      refine ⟨first :: later, ?_, ?_⟩
      · rw [List.map_cons, itemTrees, items, hread, hreadLater]
        rfl
      · rw [List.map_cons, List.map_cons, hsame, hsameLater]
  obtain ⟨again, hread, hsame⟩ := hall
  refine ⟨again, ?_, hsame⟩
  rw [Value.tree, list]
  simp only [enter, bind, Except.bind, hread, Ending.read, pure, Except.pure]

/-- A list is read back as it was if each of its elements is. -/
theorem list_trees_self {reader : Reader α} {room : Nat} {originals : List α} {write : α → Value}
    (heach : ∀ item ∈ originals, reader room (write item).tree = .ok item) :
    list reader (room + 1) (Value.array (originals.map write)).tree = .ok originals := by
  have hkept : ∀ item ∈ originals, ∃ again, reader room (write item).tree = .ok again ∧
      id again = id item := fun item hmem => ⟨item, heach item hmem, rfl⟩
  obtain ⟨again, hread, hsame⟩ := list_trees hkept
  rw [List.map_id, List.map_id] at hsame
  rw [hread, hsame]

/-! ## Texts -/

section texts

variable {reader : Reader α} {result : α} {source : String}

/-- What a text is read as, its tree is read as. -/
theorem reader_of_decode (h : decode reader source = .ok result) :
    reader nestingLimit (Parsed.ofText source).tree = .ok result := by
  obtain ⟨found, hread, h⟩ := exists_of_bind h
  dsimp only at h
  split_ifs at h
  · cases h
  · cases h
    exact hread

/-- What the tree of a text is read as, the text is read as if nothing is behind its value. -/
theorem decode_of_tree {tree : Tree} (h : reader nestingLimit tree = .ok result)
    (hparsed : Parsed.ofText source = ⟨tree, false⟩) : decode reader source = .ok result := by
  rw [decode, hparsed]
  simp only [h, bind, Except.bind]
  rfl

end texts

end QuerySurface.Json.Reader

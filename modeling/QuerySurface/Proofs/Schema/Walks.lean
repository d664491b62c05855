import QuerySurface.Proofs.Schema.Slots

/-!
# Walks along a chain

What overrides what is said here of the nodes alone, and with it which field stands where on the
chain of another. A chain goes on for ever once it has run into a circle of interfaces. A walk
judges the fields on it one after the other and remembers those it has passed: it ends at a field
that it accepts, and is given up at one that it refuses, at one that it passed before, and where
nothing is overridden. It always ends, since there are only so many fields, and giving it up at a
field that was passed before loses nothing: whatever stands behind that field was passed as well.
-/

namespace QuerySurface.Schema

namespace Graph

/-! ## What stands behind a field -/

/-- A field overrides another: of the interfaces that its node implements, the first one with a
field of its name, in declared order, has the other. -/
def Overrides (graph : Graph) (field next : Field) : Prop :=
  ∃ node ∈ graph.nodes, field ∈ node.fields ∧
    ∃ front parent back, graph.implements node = front ++ parent :: back ∧
      (∀ earlier ∈ front, field.name ∉ Catalog.names earlier.fields) ∧
      next ∈ parent.fields ∧ next.name = field.name

/-- A field stands some places behind another on the chain of that one. -/
inductive Behind (graph : Graph) : (place : Nat) → (field other : Field) → Prop where
  /-- A field stands in the first place of its own chain. -/
  | here (field : Field) : Behind graph 0 field field
  /-- The chain of what is overridden comes next. -/
  | further {place : Nat} {field next other : Field} (inherited : graph.Overrides field next)
      (rest : Behind graph place next other) : Behind graph (place + 1) field other

/-- The first field of a kind that is wanted on a chain on which all fields in front of it are of a
kind that is passed. -/
def FirstBehind (graph : Graph) (wanted passed : Field → Prop) (field source : Field) : Prop :=
  ∃ place, graph.Behind place field source ∧ wanted source ∧
    ∀ earlier < place, ∀ other, graph.Behind earlier field other → passed other

section behind

variable {graph : Graph} {field next middle other : Field} {place more : Nat}

/-- What a field overrides, in the words of the nodes. -/
theorem Overrides.overridden?_eq (hp : graph.Placed) (h : graph.Overrides field next) :
    graph.overridden? field = some next := by
  obtain ⟨node, hn, hf, front, parent, back, hsplit, hfront, hnext, hname⟩ := h
  have hparent : parent ∈ graph.implements node := by simp [hsplit]
  have hfields := hp.fields parent (mem_resolve hparent).1
  have hfound : parent.field? field.name = some next := hname ▸ Catalog.find?_of_mem hfields hnext
  rw [overridden?, (hp.owner node hn field hf).1]
  exact List.findSome?_eq_some_iff.mpr ⟨front, parent, back, hsplit, hfound,
    fun earlier he => Catalog.find?_eq_none_iff.mpr (hfront earlier he)⟩

/-- Every field that is found to be overridden is. -/
theorem overrides_of_overridden? (hp : graph.Placed) (hf : field ∈ graph.fields)
    (h : graph.overridden? field = some next) : graph.Overrides field next := by
  obtain ⟨node, hn, hm⟩ := mem_fields_iff.mp hf
  rw [overridden?, (hp.owner node hn field hm).1] at h
  obtain ⟨front, parent, back, hsplit, hfound, hfront⟩ := List.findSome?_eq_some_iff.mp h
  exact ⟨node, hn, hm, front, parent, back, hsplit,
    fun earlier he => Catalog.find?_eq_none_iff.mp (hfront earlier he),
    Catalog.mem_of_find? hfound, Catalog.name_of_find? hfound⟩

/-- What is overridden is a field of the graph. -/
theorem Overrides.mem (h : graph.Overrides field next) : next ∈ graph.fields := by
  obtain ⟨node, -, -, front, parent, back, hsplit, -, hnext, -⟩ := h
  have hparent : parent ∈ graph.implements node := by simp [hsplit]
  exact mem_fields_iff.mpr ⟨parent, (mem_resolve hparent).1, hnext⟩

/-- A field overrides one field at most. -/
theorem Overrides.unique (hp : graph.Placed) (h : graph.Overrides field next)
    (ho : graph.Overrides field other) : next = other :=
  Option.some.inj ((h.overridden?_eq hp).symm.trans (ho.overridden?_eq hp))

/-- In the first place of a chain stands its own field. -/
theorem behind_zero_iff : graph.Behind 0 field other ↔ field = other := by
  constructor
  · intro h
    cases h
    rfl
  · intro h
    exact h ▸ .here field

/-- Behind a field that overrides another stands the chain of the other. -/
theorem behind_succ_iff (hp : graph.Placed) (h : graph.Overrides field next) :
    graph.Behind (place + 1) field other ↔ graph.Behind place next other := by
  constructor
  · intro hb
    cases hb with
    | further hinherited rest => exact hinherited.unique hp h ▸ rest
  · exact .further h

/-- Behind a field that overrides nothing stands nothing. -/
theorem not_behind_succ (hp : graph.Placed) (h : graph.overridden? field = none) :
    ¬graph.Behind (place + 1) field other := by
  intro hb
  cases hb with
  | further hinherited _ =>
    rw [hinherited.overridden?_eq hp] at h
    cases h

namespace Behind

/-- What stands on the chain of a field of the graph is a field of the graph. -/
theorem mem (h : graph.Behind place field other) (hf : field ∈ graph.fields) :
    other ∈ graph.fields := by
  induction h with
  | here => exact hf
  | further hinherited _ ih => exact ih hinherited.mem

/-- The chain of a field on a chain is the rest of that chain. -/
theorem append (h : graph.Behind place field middle) (ht : graph.Behind more middle other) :
    graph.Behind (place + more) field other := by
  induction h with
  | here => rwa [Nat.zero_add]
  | further hinherited _ ih =>
    rw [Nat.succ_add]
    exact .further hinherited (ih ht)

/-- What stands further behind stands on the chain of what stands less far behind. -/
theorem rest (hp : graph.Placed) (h : graph.Behind place field middle)
    (ht : graph.Behind (place + more) field other) : graph.Behind more middle other := by
  induction h with
  | here => rwa [Nat.zero_add] at ht
  | further hinherited _ ih =>
    rw [Nat.succ_add] at ht
    exact ih ((behind_succ_iff hp hinherited).mp ht)

/-- One field stands in a place. -/
theorem unique (hp : graph.Placed) (h : graph.Behind place field middle)
    (ho : graph.Behind place field other) : middle = other :=
  behind_zero_iff.mp (h.rest hp ho)

end Behind

/-- The chain of a field, followed for some steps, shows what stands behind the field. -/
theorem getElem?_chainFor_iff (hp : graph.Placed) (hf : field ∈ graph.fields) {steps : Nat} :
    (graph.chainFor steps field)[place]? = some other ↔
      place ≤ steps ∧ graph.Behind place field other := by
  induction steps generalizing field place with
  | zero => cases place <;> simp [chainFor, behind_zero_iff]
  | succ steps ih =>
    rw [chainFor]
    cases hover : graph.overridden? field with
    | none => cases place <;> simp [behind_zero_iff, not_behind_succ hp hover]
    | some next =>
      have hnext := overrides_of_overridden? hp hf hover
      cases place with
      | zero => simp [behind_zero_iff]
      | succ place =>
        rw [List.getElem?_cons_succ, behind_succ_iff hp hnext, Nat.succ_le_succ_iff]
        exact ih hnext.mem

/-- Whatever stands behind a field is on its chain, which is followed for as many steps as the graph
has fields. -/
theorem Behind.mem_chain (hp : graph.Placed) (hf : field ∈ graph.fields)
    (h : graph.Behind place field other) : other ∈ graph.chain field := by
  have hsteps : graph.fields.length ≤ max place graph.fields.length := Nat.le_max_right _ _
  have hshown := (getElem?_chainFor_iff hp hf).mpr ⟨Nat.le_max_left place graph.fields.length, h⟩
  exact (hp.repeats_chainFor hf hsteps).mem (List.mem_of_getElem? hshown)

end behind

end Graph

/-! ## Judging fields -/

/-- What is made of a field on the way along a chain. -/
inductive Verdict where
  /-- It is what is looked for. -/
  | accept
  /-- What is looked for may stand behind it. -/
  | pass
  /-- Nothing behind it is looked at. -/
  | refuse
  deriving DecidableEq, Repr

/-- The first field in a list that is not passed, if it is accepted. -/
def search (judge : Field → Verdict) (fields : List Field) : Option Field :=
  (fields.find? (judge · != .pass)).filter (judge · == .accept)

/-- A search looks at the head of a list, and behind it only if the head is passed. -/
theorem search_cons (judge : Field → Verdict) (field : Field) (rest : List Field) :
    search judge (field :: rest) =
      match judge field with
      | .accept => some field
      | .pass => search judge rest
      | .refuse => none := by
  cases hj : judge field with
  | accept => simp [search, List.find?_cons_of_pos, hj]
  | pass => simp [search, List.find?_cons_of_neg, hj]
  | refuse => simp [search, List.find?_cons_of_pos, hj]

/-- A search finds the field that is accepted where all fields in front of it are passed. -/
theorem search_eq_some_iff {judge : Field → Verdict} {fields : List Field} {source : Field} :
    search judge fields = some source ↔
      ∃ place : Nat, fields[place]? = some source ∧ judge source = .accept ∧
        ∀ earlier < place, ∀ other, fields[earlier]? = some other → judge other = .pass := by
  rw [search, Option.filter_eq_some_iff, List.find?_eq_some_iff_getElem]
  constructor
  · rintro ⟨⟨-, place, hlt, rfl, hpassed⟩, haccept⟩
    refine ⟨place, List.getElem?_eq_getElem hlt, beq_iff_eq.mp haccept, ?_⟩
    intro earlier he other ho
    obtain ⟨hbound, rfl⟩ := List.getElem?_eq_some_iff.mp ho
    simpa using hpassed earlier he
  · rintro ⟨place, hs, haccept, hpassed⟩
    obtain ⟨hlt, rfl⟩ := List.getElem?_eq_some_iff.mp hs
    refine ⟨⟨by simp [haccept], place, hlt, rfl, fun earlier he => ?_⟩, beq_iff_eq.mpr haccept⟩
    simp [hpassed earlier he _ (List.getElem?_eq_getElem (he.trans hlt))]

namespace Graph

/-- A search along the chain of a field finds the first field on it that is accepted, if those in
front of it are passed, however far behind it stands. -/
theorem search_chain_iff {graph : Graph} (hp : graph.Placed) {field source : Field}
    (hf : field ∈ graph.fields) {judge : Field → Verdict} :
    search judge (graph.chain field) = some source ↔
      graph.FirstBehind (judge · = .accept) (judge · = .pass) field source := by
  rw [search_eq_some_iff]
  constructor
  · rintro ⟨place, hs, haccept, hpassed⟩
    obtain ⟨hplace, hbehind⟩ := (getElem?_chainFor_iff hp hf).mp hs
    refine ⟨place, hbehind, haccept, fun earlier hlt other ho => ?_⟩
    exact hpassed earlier hlt other ((getElem?_chainFor_iff hp hf).mpr ⟨by omega, ho⟩)
  · rintro ⟨place, hbehind, haccept, hpassed⟩
    -- The field is on the chain as far as it is followed, and not in front of its first place.
    obtain ⟨shown, hshown⟩ := List.mem_iff_getElem?.mp (hbehind.mem_chain hp hf)
    obtain ⟨hle, hearly⟩ := (getElem?_chainFor_iff hp hf).mp hshown
    have hplace : place ≤ shown := by
      by_contra hlt
      have hpass : judge source = .pass := hpassed shown (Nat.lt_of_not_le hlt) source hearly
      exact Verdict.noConfusion (haccept.symm.trans hpass)
    refine ⟨place, (getElem?_chainFor_iff hp hf).mpr ⟨by omega, hbehind⟩, haccept, ?_⟩
    intro earlier hlt other ho
    exact hpassed earlier hlt other ((getElem?_chainFor_iff hp hf).mp ho).2

end Graph

/-! ## Walking -/

/-- A walk along a chain. -/
structure Walk where
  /-- Identity of the field that it started at. -/
  start : FieldId
  /-- The field that it has come to. -/
  current : Field
  /-- Identities of the fields that it has passed. -/
  seen : List FieldId

/-- What comes of a round of a walk. -/
inductive Round where
  /-- It ends with the identity of a field. -/
  | ends (source : FieldId)
  /-- It goes on. -/
  | goesOn (walk : Walk)

namespace Walk

/-- The walk that sets out from a field. -/
def setOut (field : Field) : Walk :=
  ⟨field.id, field, []⟩

/-- One round of a walk: it ends at an accepted field, and is given up, which takes it back to its
start, at a refused field, at one that it has passed, or where nothing is overridden. -/
def round (graph : Graph) (judge : Field → Verdict) (walk : Walk) : Round :=
  match judge walk.current with
  | .accept => .ends walk.current.id
  | .refuse => .ends walk.start
  | .pass =>
    if walk.current.id ∈ walk.seen then .ends walk.start
    else
      match graph.overridden? walk.current with
      | some next => .goesOn ⟨walk.start, next, walk.current.id :: walk.seen⟩
      | none => .ends walk.start

/-- Some rounds of a walk, one after the other. -/
def run (graph : Graph) (judge : Field → Verdict) : (rounds : Nat) → Walk → Round
  | 0, walk => .goesOn walk
  | rounds + 1, walk =>
    match walk.round graph judge with
    | .ends source => .ends source
    | .goesOn next => run graph judge rounds next

end Walk

/-- A walk that has come so far behind its field: all fields in front have been passed, no two of
them alike. -/
structure Underway (graph : Graph) (judge : Field → Verdict) (field : Field) (place : Nat)
    (walk : Walk) : Prop where
  /-- It started at the field. -/
  start : walk.start = field.id
  /-- It stands in its place on the chain. -/
  current : graph.Behind place field walk.current
  /-- The fields in front were passed. -/
  passed : ∀ earlier < place, ∀ other, graph.Behind earlier field other → judge other = .pass
  /-- Only they were. -/
  seen : ∀ id ∈ walk.seen, ∃ earlier < place, ∃ other, graph.Behind earlier field other ∧
    other.id = id
  /-- None was passed twice. -/
  distinct : walk.seen.Nodup
  /-- They fill the places in front. -/
  length : walk.seen.length = place

namespace Underway

variable {graph : Graph} {judge : Field → Verdict} {field : Field} {place : Nat} {walk : Walk}

/-- A walk that sets out is under way. -/
theorem setOut (graph : Graph) (judge : Field → Verdict) (field : Field) :
    Underway graph judge field 0 (.setOut field) where
  start := rfl
  current := .here field
  passed := fun _ h => absurd h (Nat.not_lt_zero _)
  seen := fun _ h => absurd h List.not_mem_nil
  distinct := List.nodup_nil
  length := rfl

/-- A walk has not passed more fields than there are. -/
theorem place_le (h : Underway graph judge field place walk) (hf : field ∈ graph.fields) :
    place ≤ graph.fields.length := by
  have hsub : walk.seen ⊆ graph.fields.map Field.id := by
    intro id hid
    obtain ⟨earlier, -, other, hbehind, rfl⟩ := h.seen id hid
    exact List.mem_map_of_mem (hbehind.mem hf)
  have hle := (h.distinct.subperm hsub).length_le
  rwa [h.length, List.length_map] at hle

/-- A search finds the field that a walk under way comes to and accepts. -/
theorem search_of_accept (h : Underway graph judge field place walk) (hp : graph.Placed)
    (hf : field ∈ graph.fields) (hj : judge walk.current = .accept) :
    search judge (graph.chain field) = some walk.current :=
  (graph.search_chain_iff hp hf).mpr ⟨place, h.current, hj, h.passed⟩

/-- A search that finds something although a walk under way does not accept the field that it has
come to: the walk passes this field, and what is found stands further behind. -/
theorem exists_further (h : Underway graph judge field place walk) (hp : graph.Placed)
    (hf : field ∈ graph.fields) (hj : judge walk.current ≠ .accept) {source : Field}
    (hs : search judge (graph.chain field) = some source) :
    judge walk.current = .pass ∧ judge source = .accept ∧
      ∃ more, graph.Behind (more + 1) walk.current source ∧
        ∀ earlier < place + (more + 1), ∀ other, graph.Behind earlier field other →
          judge other = .pass := by
  obtain ⟨first, hbehind, haccept, hpassed⟩ := (graph.search_chain_iff hp hf).mp hs
  have hlt : place < first := by
    rcases Nat.lt_trichotomy first place with hlt | rfl | hlt
    · exact Verdict.noConfusion (haccept.symm.trans (h.passed first hlt source hbehind))
    · exact absurd (h.current.unique hp hbehind ▸ haccept) hj
    · exact hlt
  have hpass := hpassed place hlt _ h.current
  obtain ⟨more, rfl⟩ := Nat.exists_eq_add_of_lt hlt
  exact ⟨hpass, haccept, more, h.current.rest hp hbehind, hpassed⟩

/-- A walk under way that is at a field it has passed before, and would pass again, leaves nothing
to be found: whatever stands behind this field was passed as well. -/
theorem search_of_seen (h : Underway graph judge field place walk) (hi : graph.Indexed)
    (hp : graph.Placed) (hf : field ∈ graph.fields) (hj : judge walk.current = .pass)
    (hs : walk.current.id ∈ walk.seen) : search judge (graph.chain field) = none := by
  refine Option.eq_none_iff_forall_ne_some.mpr fun source hsource => ?_
  obtain ⟨-, haccept, more, hmore, hpassed⟩ := h.exists_further hp hf (by simp [hj]) hsource
  obtain ⟨earlier, hlt, other, hbehind, hid⟩ := h.seen _ hs
  have hother : other = walk.current :=
    List.inj_on_of_nodup_map hi.nodup_fields (hbehind.mem hf) (h.current.mem hf) hid
  have hearly : graph.Behind (earlier + (more + 1)) field source := (hother ▸ hbehind).append hmore
  have hpass : judge source = .pass := hpassed _ (by omega) source hearly
  exact Verdict.noConfusion (haccept.symm.trans hpass)

/-- A walk that passes the field that it has come to is under way at the next one. -/
theorem further (h : Underway graph judge field place walk) (hp : graph.Placed)
    (hf : field ∈ graph.fields) (hj : judge walk.current = .pass)
    (hs : walk.current.id ∉ walk.seen) {next : Field}
    (hn : graph.overridden? walk.current = some next) :
    Underway graph judge field (place + 1) ⟨walk.start, next, walk.current.id :: walk.seen⟩ where
  start := h.start
  current :=
    h.current.append
      (.further (Graph.overrides_of_overridden? hp (h.current.mem hf) hn) (.here next))
  passed := by
    intro earlier hlt other ho
    rcases Nat.lt_succ_iff_lt_or_eq.mp hlt with hlt | rfl
    · exact h.passed earlier hlt other ho
    · exact h.current.unique hp ho ▸ hj
  seen := by
    intro id hid
    rcases List.mem_cons.mp hid with rfl | hid
    · exact ⟨place, Nat.lt_succ_self place, walk.current, h.current, rfl⟩
    · obtain ⟨earlier, hlt, hpassed⟩ := h.seen id hid
      exact ⟨earlier, Nat.lt_succ_of_lt hlt, hpassed⟩
  distinct := List.nodup_cons.mpr ⟨hs, h.distinct⟩
  length := congrArg (· + 1) h.length

/-- One round of a walk under way: it ends where a search ends, or it goes on and is one place
further. -/
theorem round_cases (h : Underway graph judge field place walk) (hi : graph.Indexed)
    (hp : graph.Placed) (hf : field ∈ graph.fields) :
    walk.round graph judge = .ends ((search judge (graph.chain field)).getD field).id ∨
      ∃ next, walk.round graph judge = .goesOn next ∧
        Underway graph judge field (place + 1) next := by
  have hgivenUp : search judge (graph.chain field) = none →
      Round.ends walk.start = .ends ((search judge (graph.chain field)).getD field).id := by
    intro hnone
    rw [hnone, h.start]
    rfl
  have hnothing : (∀ source, search judge (graph.chain field) ≠ some source) →
      search judge (graph.chain field) = none := Option.eq_none_iff_forall_ne_some.mpr
  rw [Walk.round]
  cases hj : judge walk.current with
  | accept =>
    rw [h.search_of_accept hp hf hj]
    exact .inl rfl
  | refuse =>
    refine .inl (hgivenUp (hnothing fun source hs => ?_))
    have hpass := (h.exists_further hp hf (by simp [hj]) hs).1
    exact Verdict.noConfusion (hj.symm.trans hpass)
  | pass =>
    by_cases hseen : walk.current.id ∈ walk.seen
    · simp only [if_pos hseen]
      exact .inl (hgivenUp (h.search_of_seen hi hp hf hj hseen))
    · simp only [if_neg hseen]
      cases hover : graph.overridden? walk.current with
      | none =>
        refine .inl (hgivenUp (hnothing fun source hs => ?_))
        obtain ⟨-, -, more, hmore, -⟩ := h.exists_further hp hf (by simp [hj]) hs
        exact Graph.not_behind_succ hp hover hmore
      | some next => exact .inr ⟨_, rfl, h.further hp hf hj hseen hover⟩

/-- Enough rounds of a walk under way end it where a search ends. -/
theorem run_eq (h : Underway graph judge field place walk) (hi : graph.Indexed)
    (hp : graph.Placed) (hf : field ∈ graph.fields) {rounds : Nat}
    (hr : graph.fields.length < place + rounds) :
    walk.run graph judge rounds = .ends ((search judge (graph.chain field)).getD field).id := by
  induction rounds generalizing place walk with
  | zero =>
    have hle := h.place_le hf
    omega
  | succ rounds ih =>
    rw [Walk.run]
    rcases h.round_cases hi hp hf with hends | ⟨next, hnext, hunder⟩
    · rw [hends]
    · rw [hnext]
      exact ih hunder (by omega)

end Underway

/-- A walk ends, after one round more than the graph has fields at the latest: at the field that a
search along the chain finds, and where it set out if nothing is found. -/
theorem run_setOut {graph : Graph} (hi : graph.Indexed) (hp : graph.Placed) {field : Field}
    (hf : field ∈ graph.fields) (judge : Field → Verdict) :
    (Walk.setOut field).run graph judge (graph.fields.length + 1) =
      .ends ((search judge (graph.chain field)).getD field).id :=
  (Underway.setOut graph judge field).run_eq hi hp hf (by omega)

end QuerySurface.Schema

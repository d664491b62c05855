import QuerySurface.Proofs.Schema.Slots

/-!
# Names that are mentioned

Interfaces and members are mentioned by name, in any order and repeatedly, and so is what they
cannot be. What a list of names resolves to is settled by which nodes it mentions, and by where it
first does so. The objects that implement an interface are found the other way round, by asking
every object of the graph, so they come in the order of the graph.
-/

namespace QuerySurface.Schema.Graph

/-- Nodes are those of a kind that some names mention, other than a node itself, in the order in
which they are first mentioned. -/
structure Mentioned (graph : Graph) (node : Node) (kind : Kind) (names : List String)
    (nodes : List Node) : Prop where
  /-- They are the other nodes of the kind that have one of the names. -/
  mem_iff : ∀ other, other ∈ nodes ↔
    other ∈ graph.nodes ∧ other.kind = kind ∧ other ≠ node ∧ other.name ∈ names
  /-- Of two of them, the one that is first mentioned earlier comes first. -/
  ordered : nodes.Pairwise fun earlier later =>
    names.idxOf earlier.name < names.idxOf later.name

/-- Nodes are the objects that implement an interface, in the order of the graph. -/
structure Implementers (graph : Graph) (node : Node) (objects : List Node) : Prop where
  /-- They are the objects that implement the interface. -/
  mem_iff : ∀ object, object ∈ objects ↔
    object ∈ graph.nodes ∧ object.kind = .object ∧ node ∈ graph.implements object
  /-- They come in the order of the graph. -/
  ordered : objects.Sublist graph.nodes

/-! ## Nodes of a graph -/

/-- Nodes of the graph are the same if they are equal. -/
theorem Placed.same_iff {graph : Graph} (h : graph.Placed) {node other : Node}
    (hn : node ∈ graph.nodes) (ho : other ∈ graph.nodes) :
    node.same other = true ↔ node = other := by
  rw [Node.same, Bool.and_eq_true, beq_iff_eq, beq_iff_eq]
  constructor
  · exact fun hsame => Catalog.eq_of_name_eq h.nodes hn ho hsame.2
  · rintro rfl
    exact ⟨rfl, rfl⟩

/-! ## One more name -/

namespace Mentioned

variable {graph : Graph} {node : Node} {kind : Kind} {names : List String} {nodes : List Node}
  {name : String}

/-- What is mentioned comes once. -/
theorem nodup (h : graph.Mentioned node kind names nodes) : nodes.Nodup := by
  refine h.ordered.imp ?_
  rintro earlier later hlt rfl
  exact hlt.false

/-- One more name leaves the order of what was mentioned before. -/
theorem ordered_concat (h : graph.Mentioned node kind names nodes) (name : String) :
    nodes.Pairwise fun earlier later =>
      (names ++ [name]).idxOf earlier.name < (names ++ [name]).idxOf later.name := by
  refine h.ordered.imp_of_mem ?_
  intro earlier later he hl hlt
  have hearlier : earlier.name ∈ names := ((h.mem_iff earlier).mp he).2.2.2
  have hlater : later.name ∈ names := ((h.mem_iff later).mp hl).2.2.2
  rw [List.idxOf_append_of_mem hearlier, List.idxOf_append_of_mem hlater]
  exact hlt

/-- One more name changes nothing, unless it is the first to mention another node of the kind. -/
theorem pass (h : graph.Mentioned node kind names nodes)
    (hpass : ∀ other ∈ graph.nodes, other.kind = kind → other ≠ node → other.name = name →
      name ∈ names) : graph.Mentioned node kind (names ++ [name]) nodes where
  mem_iff other := by
    rw [h.mem_iff, List.mem_append, List.mem_singleton]
    constructor
    · rintro ⟨hm, hk, hne, hname⟩
      exact ⟨hm, hk, hne, .inl hname⟩
    · rintro ⟨hm, hk, hne, hname | hname⟩
      · exact ⟨hm, hk, hne, hname⟩
      · exact ⟨hm, hk, hne, hname ▸ hpass other hm hk hne hname⟩
  ordered := h.ordered_concat name

/-- The first name that mentions another node of the kind puts it behind the others. -/
theorem add (h : graph.Mentioned node kind names nodes) (hp : graph.Placed) {target : Node}
    (ht : target ∈ graph.nodes) (hk : target.kind = kind) (hne : target ≠ node)
    (hfirst : target.name ∉ names) :
    graph.Mentioned node kind (names ++ [target.name]) (nodes ++ [target]) where
  mem_iff other := by
    rw [List.mem_append, List.mem_singleton, h.mem_iff, List.mem_append, List.mem_singleton]
    constructor
    · rintro (⟨hm, hkind, hother, hname⟩ | rfl)
      · exact ⟨hm, hkind, hother, .inl hname⟩
      · exact ⟨ht, hk, hne, .inr rfl⟩
    · rintro ⟨hm, hkind, hother, hname | hname⟩
      · exact .inl ⟨hm, hkind, hother, hname⟩
      · exact .inr (Catalog.eq_of_name_eq hp.nodes hm ht hname)
  ordered := by
    refine List.pairwise_append.mpr ⟨h.ordered_concat _, List.pairwise_singleton _ _, ?_⟩
    intro earlier he later hl
    rw [List.mem_singleton.mp hl]
    have hearlier : earlier.name ∈ names := ((h.mem_iff earlier).mp he).2.2.2
    have hbefore : names.idxOf earlier.name < names.length := List.idxOf_lt_length_of_mem hearlier
    rw [List.idxOf_append_of_mem hearlier, List.idxOf_append_of_notMem hfirst]
    omega

end Mentioned

/-! ## All names -/

/-- Names resolve to the nodes that they mention. -/
theorem Placed.mentioned_resolve {graph : Graph} (h : graph.Placed) {node : Node}
    (hn : node ∈ graph.nodes) (kind : Kind) (names : List String) :
    graph.Mentioned node kind names (graph.resolve node kind names) := by
  induction names using List.reverseRecOn with
  | nil => exact ⟨by simp [resolve], .nil⟩
  | append_singleton front name ih =>
    rw [resolve_concat]
    by_cases hpassed : name ∈ front ∨ name = node.name
    · rw [if_pos hpassed, List.append_nil]
      refine ih.pass ?_
      intro other ho _ hne hname
      refine hpassed.resolve_right fun hself => hne ?_
      exact Catalog.eq_of_name_eq h.nodes ho hn (hname.trans hself)
    · rw [if_neg hpassed]
      obtain ⟨hfirst, hself⟩ := not_or.mp hpassed
      cases hfound : (graph.node? name).filter (·.kind == kind) with
      | none =>
        rw [Option.toList_none, List.append_nil]
        refine ih.pass ?_
        intro other ho hk _ hname
        have hat : graph.node? other.name = some other := Catalog.find?_of_mem h.nodes ho
        rw [← hname, hat, Option.filter_some, hk] at hfound
        simp at hfound
      | some target =>
        obtain ⟨hat, hk⟩ := Option.filter_eq_some_iff.mp hfound
        have hname : target.name = name := Catalog.name_of_find? hat
        subst hname
        have hne : target ≠ node := fun he => hself (congrArg Node.name he)
        exact ih.add h (Catalog.mem_of_find? hat) (beq_iff_eq.mp hk) hne hfirst

/-- The objects that a value of an interface can be are those that implement it. -/
theorem Placed.implementers_possibleObjects {graph : Graph} (h : graph.Placed) {node : Node}
    (hn : node ∈ graph.nodes) (hk : node.kind = .interface) :
    graph.Implementers node (graph.possibleObjects node) := by
  have hobjects : graph.possibleObjects node =
      (graph.ofKind .object).filter fun object => (graph.implements object).any (·.same node) := by
    rw [possibleObjects, hk]
  have hany : ∀ object, (graph.implements object).any (·.same node) = true ↔
      node ∈ graph.implements object := by
    intro object
    rw [List.any_eq_true]
    constructor
    · rintro ⟨parent, hp, hsame⟩
      exact (h.same_iff (mem_resolve hp).1 hn).mp hsame ▸ hp
    · exact fun hm => ⟨node, hm, (h.same_iff hn hn).mpr rfl⟩
  rw [hobjects]
  constructor
  · intro object
    rw [List.mem_filter, ofKind, List.mem_filter, hany, beq_iff_eq, and_assoc]
  · exact List.filter_sublist.trans List.filter_sublist

/-- The objects that implement an interface come once each. -/
theorem Implementers.nodup {graph : Graph} {node : Node} {objects : List Node}
    (h : graph.Implementers node objects) (hp : graph.Placed) : objects.Nodup :=
  (hp.nodes.of_map Node.name).sublist h.ordered

/-- The objects that a value can be come once each. -/
theorem Placed.nodup_possibleObjects {graph : Graph} (h : graph.Placed) {node : Node}
    (hn : node ∈ graph.nodes) : (graph.possibleObjects node).Nodup := by
  cases hk : node.kind with
  | interface => exact (h.implementers_possibleObjects hn hk).nodup h
  | union =>
    rw [possibleObjects, hk]
    exact (h.mentioned_resolve hn .object node.members).nodup
  | _ =>
    rw [possibleObjects, hk]
    exact .nil

end QuerySurface.Schema.Graph

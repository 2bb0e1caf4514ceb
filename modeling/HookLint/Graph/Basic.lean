namespace HookLint

inductive EdgeKind where
  | unconditional
  | whenTrue
  | whenFalse
  | case
  | loopBack
  | loopExit
  | exception
  | earlyReturn
  | throw
  | break
  | continue
  | approximate
deriving DecidableEq, Repr, Inhabited

namespace EdgeKind

def names : List (EdgeKind × String) := [
  (.unconditional, "unconditional"), (.whenTrue, "true"), (.whenFalse, "false"), (.case, "case"),
  (.loopBack, "loop_back"), (.loopExit, "loop_exit"), (.exception, "exception"),
  (.earlyReturn, "early_return"), (.throw, "throw"), (.break, "break"), (.continue, "continue"),
  (.approximate, "approximate")]

def name (kind : EdgeKind) : String := (names.lookup kind).getD ""

def ofName? (name : String) : Option EdgeKind := (names.find? (·.2 = name)).map (·.1)

end EdgeKind

structure Edge where
  source : Nat
  target : Nat
  kind : EdgeKind
deriving DecidableEq, Repr, Inhabited

/-- Values kept by key, each of them once. -/
abbrev Index (κ α : Type) := List (κ × List α)

namespace Index

variable {κ α : Type} [DecidableEq κ]

def find (index : Index κ α) (key : κ) : List α := (index.lookup key).getD []

@[simp]
theorem find_nil (key : κ) : find ([] : Index κ α) key = [] := rfl

theorem find_cons (other key : κ) (values : List α) (rest : Index κ α) :
    find ((other, values) :: rest) key = if key = other then values else find rest key := by
  by_cases same : key = other
  · simp [find, same]
  · simp [find, List.lookup_cons, same, beq_false_of_ne same]

variable [DecidableEq α]

def add (key : κ) (value : α) : Index κ α → Index κ α
  | [] => [(key, [value])]
  | (other, values) :: rest =>
    if key = other then (other, if value ∈ values then values else values ++ [value]) :: rest else (other, values) :: add key value rest

theorem find_add (index : Index κ α) (key other : κ) (value : α) : (index.add key value).find other =
    if other = key then (if value ∈ index.find key then index.find key else index.find key ++ [value]) else index.find other := by
  induction index with
  | nil => simp [add, find_cons]
  | cons entry rest ih =>
    obtain ⟨first, values⟩ := entry
    unfold add
    by_cases same : key = first
    · subst same
      by_cases asked : other = key <;> simp [find_cons, asked]
    · by_cases asked : other = first
      · subst asked
        simp [find_cons, same, Ne.symm same]
      · simp [find_cons, same, asked, ih]

theorem mem_find_add (index : Index κ α) (key other : κ) (value found : α) :
    found ∈ (index.add key value).find other ↔ found ∈ index.find other ∨ other = key ∧ found = value := by
  rw [find_add]
  split
  · rename_i same
    subst same
    split
    · rename_i known
      exact ⟨.inl, Or.rec id fun ⟨_, same⟩ => same ▸ known⟩
    · simp
  · simp [*]

theorem find_add_nodup {index : Index κ α} {other : κ} (distinct : (index.find other).Nodup) (key : κ) (value : α) :
    ((index.add key value).find other).Nodup := by
  rw [find_add]
  split
  · rename_i same
    subst same
    split
    · exact distinct
    · rename_i fresh
      exact List.nodup_append.mpr ⟨distinct, by simp, fun one member _ single same => fresh (List.mem_singleton.mp single ▸ same ▸ member)⟩
  · exact distinct

end Index

/-- The edges in the order in which they were added, with the kinds of each pair of blocks and the
neighbours of each block, which are kept beside them. -/
structure Wiring where
  edges : List Edge
  kinds : Index (Nat × Nat) EdgeKind
  outgoing : Index Nat Nat
  incoming : Index Nat Nat
  kinds_edges : ∀ source target kind, kind ∈ kinds.find (source, target) ↔ ⟨source, target, kind⟩ ∈ edges
  outgoing_edges : ∀ source target, target ∈ outgoing.find source ↔ ∃ kind, ⟨source, target, kind⟩ ∈ edges
  incoming_edges : ∀ source target, source ∈ incoming.find target ↔ ∃ kind, ⟨source, target, kind⟩ ∈ edges
  edges_nodup : edges.Nodup
  kinds_nodup : ∀ pair, (kinds.find pair).Nodup
  outgoing_nodup : ∀ block, (outgoing.find block).Nodup
  incoming_nodup : ∀ block, (incoming.find block).Nodup

namespace Wiring

def empty : Wiring := ⟨[], [], [], [], by simp, by simp, by simp, .nil, fun _ => .nil, fun _ => .nil, fun _ => .nil⟩

instance : Inhabited Wiring := ⟨empty⟩

theorem joins_snoc (edges : List Edge) (edge : Edge) (source target : Nat) : (∃ kind, ⟨source, target, kind⟩ ∈ edges ++ [edge]) ↔
    (∃ kind, ⟨source, target, kind⟩ ∈ edges) ∨ source = edge.source ∧ target = edge.target := by
  simp only [List.mem_append, List.mem_singleton, exists_or]
  refine or_congr_right ⟨?_, fun ⟨one, other⟩ => ⟨edge.kind, by rw [one, other]⟩⟩
  rintro ⟨kind, rfl⟩
  exact ⟨rfl, rfl⟩

def add (wiring : Wiring) (edge : Edge) : Wiring :=
  if known : edge.kind ∈ wiring.kinds.find (edge.source, edge.target) then wiring
  else {
    edges := wiring.edges ++ [edge]
    kinds := wiring.kinds.add (edge.source, edge.target) edge.kind
    outgoing := wiring.outgoing.add edge.source edge.target
    incoming := wiring.incoming.add edge.target edge.source
    kinds_edges := fun source target kind => by
      rw [Index.mem_find_add, wiring.kinds_edges, List.mem_append, List.mem_singleton, Edge.mk.injEq, Prod.mk.injEq, and_assoc]
    outgoing_edges := fun _ _ => by rw [Index.mem_find_add, wiring.outgoing_edges, joins_snoc]
    incoming_edges := fun _ _ => by rw [Index.mem_find_add, wiring.incoming_edges, joins_snoc, and_comm]
    edges_nodup := by
      rw [wiring.kinds_edges] at known
      exact List.nodup_append.mpr ⟨wiring.edges_nodup, by simp, fun other member fresh single same =>
        known (List.mem_singleton.mp single ▸ same ▸ member)⟩
    kinds_nodup := fun pair => Index.find_add_nodup (wiring.kinds_nodup pair) _ _
    outgoing_nodup := fun block => Index.find_add_nodup (wiring.outgoing_nodup block) _ _
    incoming_nodup := fun block => Index.find_add_nodup (wiring.incoming_nodup block) _ _ }

theorem mem_add (wiring : Wiring) (edge other : Edge) : other ∈ (wiring.add edge).edges ↔ other ∈ wiring.edges ∨ other = edge := by
  unfold add
  split
  · rename_i known
    exact ⟨.inl, Or.rec id fun same => same ▸ (wiring.kinds_edges ..).mp known⟩
  · simp

def of (edges : List Edge) : Wiring := edges.foldl add empty

end Wiring

/-- The shape of a graph. `exit` is reached by running to the end or returning, `throwExit` by an
exception that nothing catches; `loopBody` lists the blocks inside loop bodies. -/
structure Graph where
  nodes : List Nat := []
  wiring : Wiring := .empty
  entry : Nat := 0
  exit : Nat := 0
  throwExit : Option Nat := none
  loopBody : List Nat := []
deriving Inhabited

inductive Direction where
  | forward
  | backward
deriving DecidableEq, Repr, Inhabited

namespace Graph

abbrev edges (graph : Graph) : List Edge := graph.wiring.edges

def connect (graph : Graph) (edge : Edge) : Graph := { graph with wiring := graph.wiring.add edge }

def successors (graph : Graph) (block : Nat) : List Nat := graph.wiring.outgoing.find block

def predecessors (graph : Graph) (block : Nat) : List Nat := graph.wiring.incoming.find block

def edgeKinds (graph : Graph) (source target : Nat) : List EdgeKind := graph.wiring.kinds.find (source, target)

def edgeNames (graph : Graph) (source target : Nat) : List String :=
  ((graph.edgeKinds source target).map (·.name)).mergeSort fun a b => decide (a ≤ b)

def next (graph : Graph) : Direction → Nat → List Nat
  | .forward => graph.successors
  | .backward => graph.predecessors

def previous (graph : Graph) : Direction → Nat → List Nat
  | .forward => graph.predecessors
  | .backward => graph.successors

end Graph

end HookLint

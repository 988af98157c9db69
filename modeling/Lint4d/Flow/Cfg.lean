import Lint4d.Lib.Walk

/-!
# Control-flow graphs

A routine's control-flow graph is a directed multigraph of basic blocks.  The
graph library numbers blocks in the order they are added and visits the edges
of a block from the newest to the oldest.
-/

namespace Lint4d.Flow

open Lint4d.Lib

/-- The number of a block in its graph. -/
structure BlockId where
  index : Nat
deriving DecidableEq, Repr

/-- A statement of the source, by its bytes and the kind of its syntax node. -/
structure StmtRef where
  start : Nat
  stop : Nat
  nodeKind : String
deriving DecidableEq, Repr

inductive BasicBlockKind where
  | entry
  | exit
  | normal
  | finallyHandler
  | exceptHandler
  | bareExceptHandler
deriving DecidableEq, Repr

structure BasicBlock where
  stmts : List StmtRef
  kind : BasicBlockKind
deriving DecidableEq, Repr

/-- A block that has no statements yet. -/
def BasicBlock.new (kind : BasicBlockKind) : BasicBlock where
  stmts := []
  kind := kind

inductive EdgeKind where
  | normal
  | conditionalTrue
  | conditionalFalse
  | loopBack
  | loopExit
  | exceptionThrow
  | finallyEntry
  | finallyExit
  | caseArm
  | goto
deriving DecidableEq, Repr

/-- An edge of the graph, which is also what a path consists of. -/
structure PathEdge where
  source : BlockId
  target : BlockId
  kind : EdgeKind
deriving DecidableEq, Repr

instance : Arc PathEdge BlockId where
  source := PathEdge.source
  target := PathEdge.target

@[simp] lemma arc_source (e : PathEdge) : Arc.source e = e.source := rfl

@[simp] lemma arc_target (e : PathEdge) : Arc.target e = e.target := rfl

/-- Blocks and edges in the order they were added; edges join blocks of the graph. -/
structure Graph where
  blocks : List BasicBlock
  edges : List PathEdge
  bounded : ∀ e ∈ edges, e.source.index < blocks.length ∧ e.target.index < blocks.length

namespace Graph

def nodeIndices (graph : Graph) : List BlockId := (List.range graph.blocks.length).map .mk

lemma mem_nodeIndices {graph : Graph} {b : BlockId} :
    b ∈ graph.nodeIndices ↔ b.index < graph.blocks.length := by
  constructor
  · intro h
    obtain ⟨n, hn, rfl⟩ := List.mem_map.1 h
    exact List.mem_range.1 hn
  · intro h
    exact List.mem_map.2 ⟨b.index, List.mem_range.2 h, rfl⟩

/-- The edges that leave a block. -/
def outgoing (graph : Graph) (b : BlockId) : List PathEdge :=
  (graph.edges.filter (·.source = b)).reverse

def neighbors (graph : Graph) (b : BlockId) : List BlockId := (graph.outgoing b).map (·.target)

/-- The blocks with an edge to a block. -/
def predecessors (graph : Graph) (b : BlockId) : List BlockId :=
  ((graph.edges.filter (·.target = b)).reverse).map (·.source)

variable {graph : Graph} {a b : BlockId} {e : PathEdge}

lemma mem_outgoing : e ∈ graph.outgoing b ↔ e ∈ graph.edges ∧ e.source = b := by
  simp [outgoing]

lemma mem_neighbors :
    b ∈ graph.neighbors a ↔ ∃ e, e ∈ graph.edges ∧ Arc.source e = a ∧ Arc.target e = b := by
  simp [neighbors, mem_outgoing, and_assoc]

lemma mem_predecessors :
    b ∈ graph.predecessors a ↔ ∃ e, e ∈ graph.edges ∧ Arc.target e = a ∧ Arc.source e = b := by
  simp [predecessors, and_assoc]

lemma target_mem (he : e ∈ graph.edges) : e.target ∈ graph.nodeIndices :=
  mem_nodeIndices.2 (graph.bounded e he).2

lemma source_mem (he : e ∈ graph.edges) : e.source ∈ graph.nodeIndices :=
  mem_nodeIndices.2 (graph.bounded e he).1

end Graph

/-- The control-flow graph of a routine. -/
structure Cfg where
  graph : Graph
  entry : BlockId
  exit : BlockId
  entry_mem : entry ∈ graph.nodeIndices
  exit_mem : exit ∈ graph.nodeIndices

namespace Cfg

/-- A walk of the graph. -/
abbrev Path (cfg : Cfg) : BlockId → List PathEdge → BlockId → Prop := Walk (· ∈ cfg.graph.edges)

/-- A routine that is only an entry and an exit. -/
def emptyRoutine : Cfg where
  graph :=
    { blocks := [.new .entry, .new .exit]
      edges := [⟨⟨0⟩, ⟨1⟩, .normal⟩]
      bounded := by decide }
  entry := ⟨0⟩
  exit := ⟨1⟩
  entry_mem := by decide
  exit_mem := by decide

end Cfg

end Lint4d.Flow

import Lint4d.Lib.Bfs
import Lint4d.Flow.Cfg

/-!
# Questions about control-flow graphs

Path searches over a control-flow graph, as the analyses ask them: is one block
reachable from another, which blocks lie between two blocks, does every way to
the exit pass through some block, and what is the shortest way that avoids some
blocks.
-/

namespace Lint4d.Flow

open Lint4d.Lib List Flow.Graph
open Walk hiding cons

namespace Cfg

/-! ## The queries -/

/-- The blocks a traversal that starts at `start` may meet. -/
def nodesFrom (cfg : Cfg) (start : BlockId) : List BlockId := start :: cfg.graph.nodeIndices

/-- The graph library's depth-first visit of the successors, in its documented order, until it
meets `target`. -/
def isReachable (cfg : Cfg) (start target : BlockId) : Bool :=
  (sweep (· == target) (fun _ => false) cfg.graph.neighbors
    (sweepFuel cfg.graph.neighbors (cfg.nodesFrom start)) [start] []).isNone

/-- The strict dominators of a block: the chain of its immediate dominators. -/
def dominators (cfg : Cfg) (immediateDominator : BlockId → Option BlockId) (block : BlockId) :
    Finset BlockId :=
  chain (cfg.graph.blocks.length + 1) block ∅
where
  chain : Nat → BlockId → Finset BlockId → Finset BlockId
    | 0, _, result => result
    | fuel + 1, current, result =>
      match immediateDominator current with
      | none => result
      | some dom => chain fuel dom (insert dom result)

/-- Remove `through` and look for the exit. -/
def mustPassThrough (cfg : Cfg) (start through : BlockId) : Bool :=
  if start = through then true
  else
    (sweep (· == cfg.exit) (· == through) cfg.graph.neighbors
      (sweepFuel cfg.graph.neighbors (cfg.nodesFrom start)) [start] []).isSome

/-- All blocks that the graph library's depth-first visit, in its documented order, meets. -/
def explore (cfg : Cfg) (next : BlockId → List BlockId) (start : BlockId) : Finset BlockId :=
  ((sweep (fun _ => false) (fun _ => false) next
    (sweepFuel next (cfg.nodesFrom start)) [start] []).getD []).toFinset

/-- The blocks on any path between two blocks. -/
def blocksBetween (cfg : Cfg) (start target : BlockId) : Finset BlockId :=
  cfg.explore cfg.graph.neighbors start ∩ cfg.explore cfg.graph.predecessors target

/-- Rebuilding a path met a block that has no parent edge, or never met the start. -/
inductive RebuildError where
  | missingParent
deriving DecidableEq

/-- An edge `path_avoiding` may take. -/
def takes (start : BlockId) (avoid : Finset BlockId) (skipFrom : List EdgeKind)
    (e : PathEdge) : Bool :=
  !(e.source == start && skipFrom.contains e.kind) && !decide (e.target ∈ avoid)

/-- The shortest path that enters no block of `avoid`.  It starts with an edge of `start`, and
edges of `start` whose kind is in `skipFrom` are never taken. -/
def pathAvoiding (cfg : Cfg) (start target : BlockId) (avoid : Finset BlockId)
    (skipFrom : List EdgeKind) : Except RebuildError (Option (List PathEdge)) :=
  if target ∈ avoid then .ok none
  else
    match Bfs.search cfg.graph.outgoing (takes start avoid skipFrom) target
        (Bfs.searchFuel (cfg.nodesFrom start)) [start] [] [] with
    | none => .ok none
    | some parent =>
      match Bfs.reconstruct parent start parent.length target [] with
      | none => .error .missingParent
      | some path => .ok (some path)

/-- Every path to the exit enters a block of `through`. -/
def mustPassThroughAny (cfg : Cfg) (start : BlockId) (through : Finset BlockId) :
    Except RebuildError Bool :=
  if start = cfg.exit then .ok (start ∈ through)
  else if start ∈ through then .ok true
  else (cfg.pathAvoiding start cfg.exit through []).map Option.isNone

variable {cfg : Cfg} {start target a b : BlockId} {avoid : Finset BlockId}
  {skipFrom : List EdgeKind} {path : List PathEdge} {e : PathEdge}

/-! ## Searching a path -/

/-- An edge of the graph that may be taken on a path from `start`. -/
def Allowed (cfg : Cfg) (start : BlockId) (avoid : Finset BlockId) (skipFrom : List EdgeKind)
    (e : PathEdge) : Prop :=
  e ∈ cfg.graph.edges ∧ (e.source = start → e.kind ∉ skipFrom) ∧ e.target ∉ avoid

/-- A walk that takes an edge ends in a block that need not be avoided. -/
lemma Allowed.end_not_mem (h : Walk (cfg.Allowed start avoid skipFrom) a path b)
    (hne : path ≠ []) : b ∉ avoid := by
  induction h with
  | nil => exact absurd rfl hne
  | @cons e rest b he hrest ih =>
    cases rest with
    | nil =>
      rw [nil_iff] at hrest
      exact hrest ▸ he.2.2
    | cons => exact ih (cons_ne_nil _ _)

lemma search_allowed (cfg : Cfg) (start target : BlockId) (avoid : Finset BlockId)
    (skipFrom : List EdgeKind) :
    Bfs.SearchTo (cfg.Allowed start avoid skipFrom) start target
      (Bfs.search cfg.graph.outgoing (takes start avoid skipFrom) target
        (Bfs.searchFuel (cfg.nodesFrom start)) [start] [] []) := by
  apply Bfs.search_start
  · exact fun a e he => (mem_outgoing.1 he).2
  · intro e
    rw [arc_source, mem_outgoing]
    simp [takes, Allowed, imp_iff_not_or]
  · exact fun e he => mem_cons_of_mem _ (target_mem he.1)
  · exact mem_cons_self

/-- What the path search answers: that there is no path, or a shortest one. -/
lemma pathAvoiding_cases (cfg : Cfg) (start target : BlockId) (avoid : Finset BlockId)
    (skipFrom : List EdgeKind) :
    cfg.pathAvoiding start target avoid skipFrom = .ok none ∧
        (∀ path, Walk (cfg.Allowed start avoid skipFrom) start path target → path = []) ∨
      ∃ path, cfg.pathAvoiding start target avoid skipFrom = .ok (some path) ∧ path ≠ [] ∧
        Walk (cfg.Allowed start avoid skipFrom) start path target ∧
        ∀ other, other ≠ [] → Walk (cfg.Allowed start avoid skipFrom) start other target →
          path.length ≤ other.length := by
  have hsearch := search_allowed cfg start target avoid skipFrom
  rw [pathAvoiding]
  split
  · next havoid =>
    refine .inl ⟨rfl, fun path hwalk => ?_⟩
    by_contra hne
    exact Allowed.end_not_mem hwalk hne havoid
  split
  · next hnone =>
    rw [hnone] at hsearch
    exact .inl ⟨rfl, hsearch⟩
  · next _ hsome =>
    rw [hsome] at hsearch
    obtain ⟨path, hrun, hwalk, hne, hshortest⟩ := hsearch
    refine .inr ⟨path, by rw [hrun], hne, hwalk, fun other hother hwalkOther => ?_⟩
    exact hshortest other hwalkOther hother

/-- The path search terminates without a missing parent; it finds a path exactly when there is
one, and the path it finds is as short as any. -/
theorem path_avoiding_shortest (cfg : Cfg) (start target : BlockId) (avoid : Finset BlockId)
    (skipFrom : List EdgeKind) :
    ∃ result, cfg.pathAvoiding start target avoid skipFrom = .ok result ∧
      (result.isSome ↔ ∃ path, path ≠ [] ∧
        Walk (cfg.Allowed start avoid skipFrom) start path target) ∧
      ∀ path, result = some path →
        path ≠ [] ∧ Walk (cfg.Allowed start avoid skipFrom) start path target ∧
        ∀ other, other ≠ [] → Walk (cfg.Allowed start avoid skipFrom) start other target →
          path.length ≤ other.length := by
  rcases pathAvoiding_cases cfg start target avoid skipFrom with
    ⟨hrun, hnone⟩ | ⟨path, hrun, hne, hwalk, hshortest⟩
  · refine ⟨none, hrun, ?_, nofun⟩
    simp only [Option.isSome_none, Bool.false_eq_true, false_iff]
    rintro ⟨path, hne, hwalk⟩
    exact hne (hnone path hwalk)
  · refine ⟨some path, hrun, ⟨fun _ => ⟨path, hne, hwalk⟩, fun _ => rfl⟩, ?_⟩
    rintro _ ⟨rfl⟩
    exact ⟨hne, hwalk, hshortest⟩

/-! ## Traversals -/

lemma neighbors_closed (cfg : Cfg) (start : BlockId) :
    ∀ a ∈ cfg.nodesFrom start, ∀ b ∈ cfg.graph.neighbors a, b ∈ cfg.nodesFrom start := by
  intro a _ b hb
  obtain ⟨e, he, -, rfl⟩ := mem_neighbors.1 hb
  exact mem_cons_of_mem _ (target_mem he)

lemma predecessors_closed (cfg : Cfg) (start : BlockId) :
    ∀ a ∈ cfg.nodesFrom start, ∀ b ∈ cfg.graph.predecessors a, b ∈ cfg.nodesFrom start := by
  intro a _ b hb
  obtain ⟨e, he, -, rfl⟩ := mem_predecessors.1 hb
  exact mem_cons_of_mem _ (source_mem he)

lemma isReachable_iff : cfg.isReachable start target = true ↔ ∃ path, cfg.Path start path target := by
  rw [isReachable, Option.isNone_iff_eq_none,
    sweep_eq_none_iff (cfg.neighbors_closed start) mem_cons_self]
  simp only [beq_iff_eq, exists_eq_right, clears_iff_walk (fun a b => mem_neighbors)]
  simp

/-- A traversal that never stops meets what can be reached. -/
lemma mem_explore {next : BlockId → List BlockId}
    (hnext : ∀ a ∈ cfg.nodesFrom start, ∀ b ∈ next a, b ∈ cfg.nodesFrom start) :
    b ∈ cfg.explore next start ↔ Clears (fun _ => false) next start b := by
  rw [explore]
  cases hrun : sweep (fun _ => false) (fun _ => false) next
      (sweepFuel next (cfg.nodesFrom start)) [start] [] with
  | none =>
    obtain ⟨_, -, hstop⟩ := (sweep_eq_none_iff hnext mem_cons_self).1 hrun
    cases hstop
  | some =>
    rw [Option.getD_some, mem_toFinset]
    exact mem_of_sweep hnext mem_cons_self hrun

lemma mem_blocksBetween : b ∈ cfg.blocksBetween start target ↔
    ∃ path, cfg.Path start path target ∧ b ∈ nodes start path := by
  rw [blocksBetween, Finset.mem_inter, mem_explore (cfg.neighbors_closed start),
    mem_explore (cfg.predecessors_closed target), clears_iff_walk (fun a b => mem_neighbors),
    clears_back_iff_walk (fun a b => mem_predecessors)]
  constructor
  · rintro ⟨⟨before, hbefore, -⟩, ⟨after, hafter⟩⟩
    refine ⟨before ++ after, hbefore.append hafter, ?_⟩
    exact (hbefore.nodes_append b).2 (.inl hbefore.end_mem_nodes)
  · rintro ⟨path, hwalk, hb⟩
    obtain ⟨before, after, -, hbefore, hafter⟩ := hwalk.split hb
    exact ⟨⟨before, hbefore, by simp⟩, ⟨after, hafter⟩⟩

/-! ## Must-pass queries -/

/-- Every walk from `start` to the exit contains a block of `through`. -/
def MustPass (cfg : Cfg) (start : BlockId) (through : Finset BlockId) : Prop :=
  ∀ path, cfg.Path start path cfg.exit → ∃ b ∈ nodes start path, b ∈ through

variable {through : Finset BlockId}

/-- The paths that skip no edge kind are the walks that enter no avoided block. -/
lemma walk_allowed_iff : Walk (cfg.Allowed a avoid []) start path target ↔
    cfg.Path start path target ∧ ∀ e ∈ path, e.target ∉ avoid := by
  constructor
  · intro h
    induction h with
    | nil => exact ⟨.nil _, by simp⟩
    | cons he _ ih =>
      exact ⟨.cons he.1 ih.1, forall_mem_cons.2 ⟨he.2.2, ih.2⟩⟩
  · rintro ⟨hwalk, havoid⟩
    exact hwalk.imp fun e hmem he => ⟨he, by simp, havoid e hmem⟩

lemma mustPass_exit : cfg.MustPass cfg.exit through ↔ cfg.exit ∈ through := by
  constructor
  · intro h
    simpa using h [] (.nil _)
  · intro h path _
    exact ⟨cfg.exit, start_mem_nodes _ _, h⟩

lemma mustPass_of_mem (h : start ∈ through) : cfg.MustPass start through :=
  fun _ _ => ⟨start, start_mem_nodes _ _, h⟩

/-- Away from the exit and from `through`, passing is not being able to avoid. -/
lemma mustPass_iff_not_avoiding (hexit : start ≠ cfg.exit) (hstart : start ∉ through) :
    cfg.MustPass start through ↔
      ¬ ∃ path, path ≠ [] ∧ Walk (cfg.Allowed start through []) start path cfg.exit := by
  simp only [walk_allowed_iff, not_exists, not_and]
  constructor
  · intro h path _ hwalk havoid
    obtain ⟨b, hb, hthrough⟩ := h path hwalk
    rcases mem_cons.1 hb with rfl | hb
    · exact hstart hthrough
    · obtain ⟨e, he, rfl⟩ := mem_map.1 hb
      exact havoid e he hthrough
  · intro h path hwalk
    by_contra hnone
    simp only [not_exists, not_and] at hnone
    apply h path _ hwalk
    · exact fun e he => hnone e.target (mem_cons_of_mem _ (mem_map_of_mem he))
    · rintro rfl
      exact hexit (nil_iff.1 hwalk)

lemma mustPassThroughAny_spec (cfg : Cfg) (start : BlockId) (through : Finset BlockId) :
    ∃ answer, cfg.mustPassThroughAny start through = .ok answer ∧
      (answer = true ↔ cfg.MustPass start through) := by
  rw [mustPassThroughAny]
  split
  · next hexit =>
    subst hexit
    exact ⟨_, rfl, by rw [mustPass_exit, decide_eq_true_iff]⟩
  next hexit =>
  split
  · next hmem => exact ⟨true, rfl, by simp [mustPass_of_mem hmem]⟩
  next hmem =>
  rw [mustPass_iff_not_avoiding hexit hmem]
  rcases pathAvoiding_cases cfg start cfg.exit through [] with
    ⟨hrun, hnone⟩ | ⟨path, hrun, hne, hwalk, -⟩
  · refine ⟨true, by rw [hrun]; rfl, ?_⟩
    simp only [true_iff, not_exists, not_and]
    exact fun path hne hwalk => hne (hnone path hwalk)
  · refine ⟨false, by rw [hrun]; rfl, ?_⟩
    simp only [Bool.false_eq_true, false_iff, not_not]
    exact ⟨path, hne, hwalk⟩

lemma mustPassThrough_iff :
    cfg.mustPassThrough start target = true ↔ cfg.MustPass start {target} := by
  rw [mustPassThrough]
  split
  · next heq => simp [mustPass_of_mem, heq]
  next hne =>
  rw [Option.isSome_iff_ne_none, ne_eq,
    sweep_eq_none_iff (cfg.neighbors_closed start) mem_cons_self]
  simp only [beq_iff_eq, exists_eq_right, clears_iff_walk (fun a b => mem_neighbors),
    beq_eq_false_iff_ne, not_exists, not_and, not_forall, MustPass, Finset.mem_singleton,
    exists_eq_right, ne_eq, not_not]
  constructor
  · intro h path hwalk
    obtain ⟨b, hb, rfl⟩ := h path hwalk
    exact hb
  · exact fun h path hwalk => ⟨target, h path hwalk, rfl⟩

/-! ## Dominance -/

/-- Every walk from the entry to `n`, which there is, contains `d`. -/
def Dominates (cfg : Cfg) (d n : BlockId) : Prop :=
  (∃ path, cfg.Path cfg.entry path n) ∧ ∀ path, cfg.Path cfg.entry path n → d ∈ nodes cfg.entry path

/-- The documented meaning of the graph library's dominator tree: the entry and unreachable
blocks have no immediate dominator; that of any other block is its closest strict dominator. -/
structure ImmediateDominators (cfg : Cfg) (immediateDominator : BlockId → Option BlockId) :
    Prop where
  strict : ∀ {n d}, immediateDominator n = some d → d ≠ n ∧ cfg.Dominates d n
  closest : ∀ {n d}, immediateDominator n = some d → ∀ c, c ≠ n → cfg.Dominates c n →
    cfg.Dominates c d
  exists_of_reachable : ∀ {n path}, cfg.Path cfg.entry path n → n ≠ cfg.entry →
    ∃ d, immediateDominator n = some d

variable {c d n : BlockId} {immediateDominator : BlockId → Option BlockId}

lemma Dominates.trans (hcd : cfg.Dominates c d) (hdn : cfg.Dominates d n) : cfg.Dominates c n := by
  refine ⟨hdn.1, fun path hwalk => ?_⟩
  obtain ⟨before, _, rfl, hbefore, -⟩ := hwalk.split (hdn.2 path hwalk)
  exact (hbefore.nodes_append c).2 (.inl (hcd.2 before hbefore))

/-- Two blocks that dominate each other are one: else each walk to the one would have a proper
beginning that is a walk to the other. -/
lemma Dominates.antisymm (hcd : cfg.Dominates c d) (hdc : cfg.Dominates d c) : c = d := by
  by_contra hne
  have hnone : ∀ (k : Nat) (path : List PathEdge), path.length = k →
      ¬ cfg.Path cfg.entry path c ∧ ¬ cfg.Path cfg.entry path d := by
    intro k
    induction k using Nat.strongRecOn with
    | ind k ih =>
      rintro path rfl
      -- a walk to the one block passes the other, and is longer than its beginning up to there
      have hshorter : ∀ {x y : BlockId}, x ≠ y → cfg.Dominates y x → cfg.Path cfg.entry path x →
          ∃ before : List PathEdge, before.length < path.length ∧ cfg.Path cfg.entry before y := by
        intro x y hxy hdom hwalk
        obtain ⟨before, after, rfl, hbefore, hafter⟩ := hwalk.split (hdom.2 path hwalk)
        refine ⟨before, ?_, hbefore⟩
        cases after with
        | nil => exact absurd (nil_iff.1 hafter).symm hxy
        | cons e after => simp
      constructor
      · intro hwalk
        obtain ⟨before, hlt, hbefore⟩ := hshorter hne hdc hwalk
        exact (ih before.length hlt before rfl).2 hbefore
      · intro hwalk
        obtain ⟨before, hlt, hbefore⟩ := hshorter (Ne.symm hne) hcd hwalk
        exact (ih before.length hlt before rfl).1 hbefore
  obtain ⟨path, hwalk⟩ := hdc.1
  exact (hnone path.length path rfl).1 hwalk

lemma Dominates.mem_nodeIndices (h : cfg.Dominates d n) : d ∈ cfg.graph.nodeIndices := by
  obtain ⟨path, hwalk⟩ := h.1
  rcases mem_cons.1 (h.2 path hwalk) with rfl | hmem
  · exact cfg.entry_mem
  · obtain ⟨e, he, rfl⟩ := mem_map.1 hmem
    exact target_mem (hwalk.mem_edges e he)

/-- The entry has no dominator but itself. -/
lemma Dominates.eq_entry (h : cfg.Dominates d cfg.entry) : d = cfg.entry := by
  simpa using h.2 [] (.nil _)

open Classical in
/-- The strict dominators of a block. -/
noncomputable def strictDominators (cfg : Cfg) (n : BlockId) : Finset BlockId :=
  cfg.graph.nodeIndices.toFinset.filter fun d => d ≠ n ∧ cfg.Dominates d n

lemma mem_strictDominators : d ∈ cfg.strictDominators n ↔ d ≠ n ∧ cfg.Dominates d n := by
  simp only [strictDominators, Finset.mem_filter, mem_toFinset, and_iff_right_iff_imp]
  exact fun h => h.2.mem_nodeIndices

lemma card_strictDominators_le : (cfg.strictDominators n).card ≤ cfg.graph.blocks.length := by
  calc (cfg.strictDominators n).card
      ≤ cfg.graph.nodeIndices.toFinset.card := by
        classical exact Finset.card_filter_le _ _
    _ ≤ cfg.graph.nodeIndices.length := toFinset_card_le _
    _ = cfg.graph.blocks.length := by simp [nodeIndices]

namespace ImmediateDominators

variable (hidom : cfg.ImmediateDominators immediateDominator)

include hidom

/-- One link of the chain: the strict dominators of a block are its immediate dominator and the
strict dominators of that one. -/
lemma strictDominators_eq (h : immediateDominator n = some d) :
    cfg.strictDominators n = insert d (cfg.strictDominators d) := by
  ext c
  rw [Finset.mem_insert, mem_strictDominators, mem_strictDominators]
  constructor
  · rintro ⟨hne, hdom⟩
    by_cases hcd : c = d
    · exact .inl hcd
    · exact .inr ⟨hcd, hidom.closest h c hne hdom⟩
  · rintro (rfl | ⟨hne, hdom⟩)
    · exact hidom.strict h
    · refine ⟨?_, hdom.trans (hidom.strict h).2⟩
      rintro rfl
      exact hne (hdom.antisymm (hidom.strict h).2)

lemma strictDominators_eq_empty (h : immediateDominator n = none) : cfg.strictDominators n = ∅ := by
  apply Finset.eq_empty_of_forall_notMem
  intro d hd
  obtain ⟨hne, hdom⟩ := mem_strictDominators.1 hd
  obtain ⟨_, hwalk⟩ := hdom.1
  by_cases hentry : n = cfg.entry
  · subst hentry
    exact hne hdom.eq_entry
  · obtain ⟨_, hd'⟩ := hidom.exists_of_reachable hwalk hentry
    rw [h] at hd'
    cases hd'

/-- The chain collects the strict dominators; the blocks of the graph bound its length. -/
lemma chain_eq : ∀ (fuel : Nat) (n : BlockId) (result : Finset BlockId),
    (cfg.strictDominators n).card < fuel →
    dominators.chain immediateDominator fuel n result = result ∪ cfg.strictDominators n := by
  intro fuel
  induction fuel with
  | zero => exact fun n result h => absurd h (Nat.not_lt_zero _)
  | succ fuel ih =>
    intro n result hcard
    rw [dominators.chain]
    cases h : immediateDominator n with
    | none => simp [hidom.strictDominators_eq_empty h]
    | some d =>
      have hsplit := hidom.strictDominators_eq h
      have hfresh : d ∉ cfg.strictDominators d := fun hd => (mem_strictDominators.1 hd).1 rfl
      rw [hsplit, Finset.card_insert_of_notMem hfresh] at hcard
      dsimp only
      rw [ih d _ (by omega), hsplit, Finset.insert_union, Finset.union_insert]

lemma dominators_eq (n : BlockId) :
    cfg.dominators immediateDominator n = cfg.strictDominators n := by
  rw [dominators, hidom.chain_eq _ _ _ (Nat.lt_succ_of_le card_strictDominators_le),
    Finset.empty_union]

end ImmediateDominators

/-- A block dominates another when it can be reached, and it is that block or one of its
dominators. -/
def dominates (cfg : Cfg) (immediateDominator : BlockId → Option BlockId) (d n : BlockId) : Bool :=
  cfg.isReachable cfg.entry n && (d == n || decide (d ∈ cfg.dominators immediateDominator n))

/-- The must-pass queries, the blocks between two blocks and dominance are what the walks of the
graph say. -/
theorem must_pass_queries_exact (cfg : Cfg) (immediateDominator : BlockId → Option BlockId)
    (hidom : cfg.ImmediateDominators immediateDominator) :
    (∀ start through, ∃ answer, cfg.mustPassThroughAny start through = .ok answer ∧
      (answer = true ↔ ∀ path, cfg.Path start path cfg.exit →
        ∃ b ∈ nodes start path, b ∈ through)) ∧
    (∀ start through, cfg.mustPassThroughAny start {through} =
      .ok (cfg.mustPassThrough start through)) ∧
    (∀ a b n, n ∈ cfg.blocksBetween a b ↔ ∃ path, cfg.Path a path b ∧ n ∈ nodes a path) ∧
    (∀ d n, d ∈ cfg.dominators immediateDominator n ↔ d ≠ n ∧ (∃ path, cfg.Path cfg.entry path n) ∧
      ∀ path, cfg.Path cfg.entry path n → d ∈ nodes cfg.entry path) ∧
    (∀ d n, cfg.dominates immediateDominator d n = true ↔ (∃ path, cfg.Path cfg.entry path n) ∧
      ∀ path, cfg.Path cfg.entry path n → d ∈ nodes cfg.entry path) := by
  have hdominators : ∀ d n, d ∈ cfg.dominators immediateDominator n ↔ d ≠ n ∧ cfg.Dominates d n :=
    fun d n => by rw [hidom.dominators_eq, mem_strictDominators]
  refine ⟨mustPassThroughAny_spec cfg, fun start through => ?_, fun a b n => mem_blocksBetween,
    hdominators, fun d n => ?_⟩
  · obtain ⟨answer, hrun, hanswer⟩ := mustPassThroughAny_spec cfg start {through}
    rw [hrun, Except.ok.injEq, Bool.eq_iff_iff, hanswer, mustPassThrough_iff]
  · rw [dominates, Bool.and_eq_true, isReachable_iff, Bool.or_eq_true, beq_iff_eq,
      decide_eq_true_iff, hdominators]
    constructor
    · rintro ⟨hreach, rfl | ⟨-, hdom⟩⟩
      · exact ⟨hreach, fun path hwalk => hwalk.end_mem_nodes⟩
      · exact hdom
    · intro hdom
      exact ⟨hdom.1, or_iff_not_imp_left.2 fun hne => ⟨hne, hdom⟩⟩

/-- A routine with a loop: the head `2` leads to the body `3`, which leads back, or to `4` and out. -/
def loopRoutine : Cfg where
  graph :=
    { blocks := [.new .entry, .new .exit, .new .normal, .new .normal, .new .normal]
      edges := [⟨⟨0⟩, ⟨2⟩, .normal⟩, ⟨⟨2⟩, ⟨3⟩, .conditionalTrue⟩, ⟨⟨2⟩, ⟨4⟩, .loopExit⟩,
        ⟨⟨3⟩, ⟨2⟩, .loopBack⟩, ⟨⟨4⟩, ⟨1⟩, .normal⟩]
      bounded := by decide }
  entry := ⟨0⟩
  exit := ⟨1⟩
  entry_mem := by decide
  exit_mem := by decide

def loopDominator (n : BlockId) : Option BlockId :=
  ([none, some ⟨4⟩, some ⟨0⟩, some ⟨2⟩, some ⟨2⟩][n.index]?).join

/-- The loop, left at another block. -/
def loopUpTo (n : Fin 5) : Cfg :=
  { loopRoutine with exit := ⟨n⟩, exit_mem := mem_nodeIndices.2 n.isLt }

lemma loop_dominates_iff (n : Fin 5) : loopRoutine.Dominates d ⟨n⟩ ↔
    loopRoutine.isReachable ⟨0⟩ ⟨n⟩ = true ∧ (loopUpTo n).mustPassThrough ⟨0⟩ d = true := by
  rw [isReachable_iff, mustPassThrough_iff]
  simp [Dominates, MustPass, loopUpTo, loopRoutine]

lemma loop_index_lt (h : n ∈ loopRoutine.graph.nodeIndices) : ∃ i : Fin 5, n = ⟨i⟩ :=
  ⟨⟨n.index, mem_nodeIndices.1 h⟩, rfl⟩

lemma loopRoutine_immediateDominators : loopRoutine.ImmediateDominators loopDominator := by
  have hindex : ∀ {n d}, loopDominator n = some d → ∃ i j : Fin 5, n = ⟨i⟩ ∧ d = ⟨j⟩ := by
    intro n d h
    obtain ⟨hlt, -⟩ := List.getElem?_eq_some_iff.1 (Option.join_eq_some_iff.1 h)
    obtain ⟨i, rfl⟩ : ∃ i : Fin 5, n = ⟨i⟩ := ⟨⟨n.index, hlt⟩, rfl⟩
    have hbound : ∀ i : Fin 5, ∀ d ∈ loopDominator ⟨i⟩, d.index < 5 := by decide
    exact ⟨i, ⟨d.index, hbound i d h⟩, rfl, rfl⟩
  constructor
  · intro n d h
    obtain ⟨i, j, rfl, rfl⟩ := hindex h
    rw [loop_dominates_iff]
    revert i j
    decide +kernel
  · intro n d h c hne hdom
    obtain ⟨k, rfl⟩ := loop_index_lt hdom.mem_nodeIndices
    obtain ⟨i, j, rfl, rfl⟩ := hindex h
    rw [loop_dominates_iff] at hdom ⊢
    revert i j k
    decide +kernel
  · intro n path hwalk hne
    have hself : loopRoutine.Dominates n n := ⟨⟨path, hwalk⟩, fun _ h => h.end_mem_nodes⟩
    obtain ⟨i, rfl⟩ := loop_index_lt hself.mem_nodeIndices
    rw [loop_dominates_iff] at hself
    rw [← Option.isSome_iff_exists]
    clear hwalk
    revert i
    decide +kernel

theorem must_pass_queries_exact_loopRoutine :
    loopRoutine.ImmediateDominators loopDominator ∧
      loopRoutine.mustPassThroughAny ⟨0⟩ {⟨4⟩} = .ok (loopRoutine.mustPassThrough ⟨0⟩ ⟨4⟩) ∧
      (loopRoutine.dominates loopDominator ⟨2⟩ ⟨1⟩ = true ↔
        (∃ path, loopRoutine.Path ⟨0⟩ path ⟨1⟩) ∧
          ∀ path, loopRoutine.Path ⟨0⟩ path ⟨1⟩ → ⟨2⟩ ∈ nodes ⟨0⟩ path) :=
  have h := must_pass_queries_exact loopRoutine _ loopRoutine_immediateDominators
  ⟨loopRoutine_immediateDominators, h.2.1 ⟨0⟩ ⟨4⟩, h.2.2.2.2 ⟨2⟩ ⟨1⟩⟩

end Cfg

end Lint4d.Flow

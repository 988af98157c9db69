import Lint4d.Lib.Rounds
import Lint4d.Flow.Cfg

/-!
# Interprocedural summaries

A call graph keeps one summary for each routine.  Summaries are computed from
the control-flow graphs, callees first, when no routine calls itself through
others; otherwise in at most twenty rounds over all routines, in the order in
which the hash map of control-flow graphs lists them.
-/

namespace Lint4d.Flow

open List hiding after iterate
open Lint4d.Lib
open Rounds hiding round

/-! ## Summaries and the call graph -/

/-- One definition of a routine; its byte range keeps overloads apart. -/
structure ProcId where
  unitName : String
  qualifiedName : String
  start : Nat
  stop : Nat
deriving DecidableEq

inductive ParamEffect where
  | none
  | freed
  | freedConditionally
  | reassigned
  | passedToFreeing (param : Nat)
deriving DecidableEq

inductive FieldAction where
  | freed
  | created
  | reassigned
  | freedConditionally
deriving DecidableEq

structure FieldEffect where
  fieldName : String
  effect : FieldAction
deriving DecidableEq

inductive TransactionEffect where
  | starts
  | startsConditionally
  | commits
  | commitsConditionally
  | rollbacks
  | rollbacksConditionally
deriving DecidableEq

structure ProcSummary where
  id : ProcId
  paramEffects : List ParamEffect
  fieldEffects : List FieldEffect
  returnsNewObject : Bool
  canRaise : Bool
  transactionEffects : List TransactionEffect
deriving DecidableEq

structure CallSite where
  caller : ProcId
  callee : ProcId
  start : Nat
  stop : Nat
deriving DecidableEq

/-- A hash map from routines to summaries. -/
abbrev Summaries := ProcId → Option ProcSummary

/-- Routines in the order they were added, the calls between them, and their summaries. -/
structure CallGraph where
  procs : List ProcId
  calls : List CallSite
  summaries : Summaries
  distinct : procs.Nodup
  known : ∀ site ∈ calls, site.caller ∈ procs ∧ site.callee ∈ procs

open CallGraph

namespace CallGraph

def new : CallGraph where
  procs := []
  calls := []
  summaries _ := none
  distinct := nodup_nil
  known := by simp

def addProc (graph : CallGraph) (id : ProcId) : CallGraph :=
  if h : id ∈ graph.procs then graph
  else
    { graph with
      procs := graph.procs ++ [id]
      distinct := by
        rw [nodup_append]
        refine ⟨graph.distinct, nodup_singleton id, fun a ha b hb => ?_⟩
        obtain rfl := mem_singleton.1 hb
        rintro rfl
        exact h ha
      known := fun site hsite =>
        ⟨mem_append_left _ (graph.known site hsite).1,
          mem_append_left _ (graph.known site hsite).2⟩ }

lemma mem_addProc (graph : CallGraph) (id other : ProcId) :
    other ∈ (graph.addProc id).procs ↔ other ∈ graph.procs ∨ other = id := by
  unfold addProc
  split
  · next h =>
    simp only [iff_self_or]
    rintro rfl
    exact h
  · simp

@[simp] lemma calls_addProc (graph : CallGraph) (id : ProcId) :
    (graph.addProc id).calls = graph.calls := by
  unfold addProc
  split <;> rfl

@[simp] lemma summaries_addProc (graph : CallGraph) (id : ProcId) :
    (graph.addProc id).summaries = graph.summaries := by
  unfold addProc
  split <;> rfl

def addCall (graph : CallGraph) (site : CallSite) : CallGraph :=
  let graph' := (graph.addProc site.caller).addProc site.callee
  { graph' with
    calls := graph'.calls ++ [site]
    known := by
      refine forall_mem_append.2 ⟨graph'.known, forall_mem_singleton.2 ?_⟩
      simp [graph', mem_addProc] }

def getSummary (graph : CallGraph) (id : ProcId) : Option ProcSummary := graph.summaries id

/-- A summary is stored under the routine it names. -/
def setSummary (graph : CallGraph) (summary : ProcSummary) : CallGraph :=
  { graph with summaries := Function.update graph.summaries summary.id (some summary) }

/-- The routines a routine calls, the newest call site first. -/
def callees (graph : CallGraph) (caller : ProcId) : List ProcId :=
  if caller ∈ graph.procs then
    ((graph.calls.filter (·.caller = caller)).reverse).map (·.callee)
  else []

/-- One routine has a call site of the other. -/
def Calls (graph : CallGraph) (caller callee : ProcId) : Prop :=
  ∃ site ∈ graph.calls, site.caller = caller ∧ site.callee = callee

lemma mem_callees {graph : CallGraph} {caller callee : ProcId} :
    callee ∈ graph.callees caller ↔ graph.Calls caller callee := by
  unfold callees Calls
  split
  · simp [and_assoc]
  · next h =>
    simp only [not_mem_nil, false_iff, not_exists, not_and]
    rintro site hsite rfl
    exact absurd (graph.known site hsite).1 h

end CallGraph

/-! ## Computing summaries -/

/-- The control-flow graphs of the routines, in the order their hash map lists them. -/
structure Cfgs where
  entries : List (ProcId × Cfg)
  distinct : (entries.map Prod.fst).Nodup

namespace Cfgs

def keys (cfgs : Cfgs) : List ProcId := cfgs.entries.map Prod.fst

def get (cfgs : Cfgs) (id : ProcId) : Option Cfg := cfgs.entries.lookup id

end Cfgs

/-- The language-specific analysis of one routine, given the summaries of its callees. -/
abbrev CfgAnalyzer := ProcId → Cfg → Summaries → ProcSummary

/-- The summaries of all callees that have one. -/
def collectCalleeSummaries (procId : ProcId) (graph : CallGraph) : Summaries := fun id =>
  if id ∈ graph.callees procId then graph.getSummary id else none

/-- Analyze a routine that has a control-flow graph, and store its summary. -/
def analyzeProc (cfgs : Cfgs) (analyzer : CfgAnalyzer) (graph : CallGraph) (procId : ProcId) :
    CallGraph :=
  match cfgs.get procId with
  | none => graph
  | some cfg => graph.setSummary (analyzer procId cfg (collectCalleeSummaries procId graph))

/-- One round over the routines, and whether a summary has changed. -/
def computeRound (cfgs : Cfgs) (analyzer : CfgAnalyzer) :
    List ProcId → CallGraph → Bool → CallGraph × Bool
  | [], graph, changed => (graph, changed)
  | procId :: rest, graph, changed =>
    match cfgs.get procId with
    | none => computeRound cfgs analyzer rest graph changed
    | some cfg =>
      let newSummary := analyzer procId cfg (collectCalleeSummaries procId graph)
      if graph.getSummary procId = some newSummary then
        computeRound cfgs analyzer rest graph changed
      else computeRound cfgs analyzer rest (graph.setSummary newSummary) true

def maxRounds : Nat := 20

def computeRounds (cfgs : Cfgs) (analyzer : CfgAnalyzer) : Nat → CallGraph → CallGraph
  | 0, graph => graph
  | rounds + 1, graph =>
    match computeRound cfgs analyzer cfgs.keys graph false with
    | (graph, true) => computeRounds cfgs analyzer rounds graph
    | (graph, false) => graph

/-- The call graph with all routines that have a control-flow graph. -/
def CallGraph.withProcs (graph : CallGraph) (cfgs : Cfgs) : CallGraph :=
  cfgs.keys.foldl addProc graph

/-- Summaries of all routines; `toposort` is the graph library's topological sort, which fails
on a graph with a cycle. -/
def computeSummaries (toposort : CallGraph → Option (List ProcId)) (cfgs : Cfgs)
    (graph : CallGraph) (analyzer : CfgAnalyzer) : CallGraph :=
  let graph := graph.withProcs cfgs
  match toposort graph with
  | some order => order.reverse.foldl (analyzeProc cfgs analyzer) graph
  | none => computeRounds cfgs analyzer maxRounds graph

/-! ## The equations of the summaries -/

/-- A topological order lists all routines, each before its callees; there is one unless a
routine reaches itself by calls. -/
def IsToposort (graph : CallGraph) : Option (List ProcId) → Prop
  | some order => order.Perm graph.procs ∧ Rounds.Topological graph.Calls order
  | none => ∃ p, Relation.TransGen graph.Calls p p

/-- The summary of each routine with a control-flow graph is the analysis of that graph with the
summaries of its callees. -/
def IsFixpoint (cfgs : Cfgs) (analyzer : CfgAnalyzer) (graph : CallGraph) : Prop :=
  ∀ p cfg, (p, cfg) ∈ cfgs.entries →
    graph.getSummary p = some (analyzer p cfg (collectCalleeSummaries p graph))

/-- An order of finite height on summaries for which the analysis is monotone; a missing summary
is below all others. -/
structure SummaryDomain (analyzer : CfgAnalyzer) where
  order : PartialOrder ProcSummary
  monotone : ∀ p cfg (m m' : Summaries), (∀ q a, m q = some a → ∃ b, m' q = some b ∧ order.le a b) →
    order.le (analyzer p cfg m) (analyzer p cfg m')
  rank : ProcSummary → Nat
  height : Nat
  rank_lt : ∀ a b, order.lt a b → rank a < rank b
  rank_lt_height : ∀ p cfg m, rank (analyzer p cfg m) < height

/-- No routine reaches itself by calls. -/
def CallGraph.Acyclic (graph : CallGraph) : Prop := ∀ p, ¬ Relation.TransGen graph.Calls p p

/-- No routine that is to be analyzed has a summary yet. -/
def CallGraph.Fresh (graph : CallGraph) (cfgs : Cfgs) : Prop :=
  ∀ p ∈ cfgs.keys, graph.getSummary p = none

/-- The call graph after so many rounds. -/
def afterRounds (cfgs : Cfgs) (analyzer : CfgAnalyzer) (graph : CallGraph) : Nat → CallGraph
  | 0 => graph
  | rounds + 1 =>
    afterRounds cfgs analyzer (computeRound cfgs analyzer cfgs.keys graph false).1 rounds

/-- One of the rounds that are run changes no summary. -/
def SettlesInRounds (cfgs : Cfgs) (analyzer : CfgAnalyzer) (graph : CallGraph) : Prop :=
  ∃ k < maxRounds, (computeRound cfgs analyzer cfgs.keys
    (afterRounds cfgs analyzer (graph.withProcs cfgs) k) false).2 = false

instance (graph : CallGraph) (caller callee : ProcId) : Decidable (graph.Calls caller callee) :=
  inferInstanceAs (Decidable (∃ site ∈ graph.calls, _))

/-- What a routine sees of the summaries. -/
def calleeView (graph : CallGraph) (p : ProcId) (s : Summaries) : Summaries := fun q =>
  if graph.Calls p q then s q else none

/-- The right-hand side of the equation for a routine. -/
def rhs (cfgs : Cfgs) (analyzer : CfgAnalyzer) (graph : CallGraph) (p : ProcId) (s : Summaries) :
    ProcSummary :=
  match cfgs.get p with
  | some cfg => analyzer p cfg (calleeView graph p s)
  | none => ⟨p, [], [], false, false, []⟩

variable {cfgs cfgs' : Cfgs} {analyzer : CfgAnalyzer} {graph graph' : CallGraph} {p q : ProcId}
  {cfg : Cfg} {ids order : List ProcId}

namespace Cfgs

lemma get_eq_some_iff : cfgs.get p = some cfg ↔ (p, cfg) ∈ cfgs.entries := by
  obtain ⟨entries, hdist⟩ := cfgs
  unfold get
  induction entries with
  | nil => simp
  | cons entry entries ih =>
    obtain ⟨id, _⟩ := entry
    rw [map_cons, nodup_cons] at hdist
    by_cases hp : p = id
    · subst hp
      have hfresh : (p, cfg) ∉ entries := fun h => hdist.1 (mem_map.2 ⟨(p, cfg), h, rfl⟩)
      simp [hfresh, eq_comm]
    · have hbeq : (p == id) = false := beq_eq_false_iff_ne.2 hp
      simp [lookup, hbeq, hp, ih hdist.2]

lemma exists_get (hp : p ∈ cfgs.keys) : ∃ cfg, cfgs.get p = some cfg := by
  obtain ⟨⟨_, cfg⟩, hmem, rfl⟩ := mem_map.1 hp
  exact ⟨cfg, get_eq_some_iff.2 hmem⟩

lemma get_eq_none (hp : p ∉ cfgs.keys) : cfgs.get p = none := by
  cases h : cfgs.get p with
  | none => rfl
  | some => exact absurd (mem_map_of_mem (get_eq_some_iff.1 h)) hp

/-- The order in which a hash map lists its entries does not change what it holds. -/
lemma get_eq_of_perm (h : cfgs'.entries.Perm cfgs.entries) : cfgs'.get = cfgs.get := by
  funext p
  apply Option.ext
  intro cfg
  rw [get_eq_some_iff, get_eq_some_iff, h.mem_iff]

end Cfgs

lemma calleeView_eq_of_calls (h : graph'.calls = graph.calls) :
    calleeView graph' = calleeView graph := by
  funext p s q
  apply if_congr _ rfl rfl
  unfold CallGraph.Calls
  rw [h]

lemma collectCalleeSummaries_eq (graph : CallGraph) (p : ProcId) :
    collectCalleeSummaries p graph = calleeView graph p graph.summaries := by
  funext q
  exact if_congr mem_callees rfl rfl

lemma rhs_eq_of_calls (h : graph'.calls = graph.calls) :
    rhs cfgs analyzer graph' = rhs cfgs analyzer graph := by
  funext p s
  unfold rhs
  rw [calleeView_eq_of_calls h]

lemma rhs_of_get (analyzer : CfgAnalyzer) (graph : CallGraph) (hget : cfgs.get p = some cfg) :
    rhs cfgs analyzer graph p graph.summaries =
      analyzer p cfg (collectCalleeSummaries p graph) := by
  rw [collectCalleeSummaries_eq, rhs, hget]

lemma isFixpoint_iff : IsFixpoint cfgs analyzer graph ↔
    Rounds.Solves (rhs cfgs analyzer graph) cfgs.keys graph.summaries := by
  constructor
  · intro h p hp
    obtain ⟨cfg, hget⟩ := Cfgs.exists_get hp
    rw [rhs_of_get analyzer graph hget]
    exact h p cfg (Cfgs.get_eq_some_iff.1 hget)
  · intro h p cfg hmem
    rw [← rhs_of_get analyzer graph (Cfgs.get_eq_some_iff.2 hmem)]
    exact h p (mem_map_of_mem hmem)

lemma rhs_reads : Rounds.Reads (rhs cfgs analyzer graph) graph.Calls := by
  intro p s t hst
  have hview : calleeView graph p s = calleeView graph p t := by
    funext q
    unfold calleeView
    split
    · next hcalls => exact hst q hcalls
    · rfl
  unfold rhs
  rw [hview]

/-! ## The code solves the equations -/

lemma calls_withProcs : (graph.withProcs cfgs).calls = graph.calls := by
  unfold withProcs
  induction cfgs.keys generalizing graph with
  | nil => rfl
  | cons _ _ ih => rw [foldl_cons, ih, calls_addProc]

lemma summaries_withProcs : (graph.withProcs cfgs).summaries = graph.summaries := by
  unfold withProcs
  induction cfgs.keys generalizing graph with
  | nil => rfl
  | cons _ _ ih => rw [foldl_cons, ih, summaries_addProc]

lemma mem_withProcs : p ∈ (graph.withProcs cfgs).procs ↔ p ∈ graph.procs ∨ p ∈ cfgs.keys := by
  unfold withProcs
  induction cfgs.keys generalizing graph with
  | nil => simp
  | cons _ _ ih => rw [foldl_cons, ih, mem_addProc, mem_cons, or_assoc]

/-- Whether a routine has a control-flow graph. -/
def Cfgs.has (cfgs : Cfgs) (p : ProcId) : Bool := decide (p ∈ cfgs.keys)

section Simulation

variable (cfgs graph) (hid : ∀ p cfg m, (analyzer p cfg m).id = p)

include hid

/-- A new summary is stored under the routine's own id. -/
lemma setSummary_summaries (hget : cfgs.get p = some cfg) :
    (graph.setSummary (analyzer p cfg (collectCalleeSummaries p graph))).summaries =
      visit (rhs cfgs analyzer graph) p graph.summaries := by
  unfold setSummary visit
  rw [hid, rhs_of_get analyzer graph hget]

lemma analyzeProc_eq (p : ProcId) : (analyzeProc cfgs analyzer graph p).calls = graph.calls ∧
    (analyzeProc cfgs analyzer graph p).summaries =
      if cfgs.has p then visit (rhs cfgs analyzer graph) p graph.summaries
      else graph.summaries := by
  unfold analyzeProc Cfgs.has
  by_cases hp : p ∈ cfgs.keys
  · obtain ⟨_, hget⟩ := Cfgs.exists_get hp
    rw [hget]
    refine ⟨rfl, ?_⟩
    rw [if_pos (decide_eq_true hp)]
    exact setSummary_summaries cfgs graph hid hget
  · simp [Cfgs.get_eq_none hp, hp]

/-- The topological branch is one pass over the order, from its end. -/
lemma analyze_order (order : List ProcId) :
    (order.reverse.foldl (analyzeProc cfgs analyzer) graph).calls = graph.calls ∧
      (order.reverse.foldl (analyzeProc cfgs analyzer) graph).summaries =
        pass (rhs cfgs analyzer graph) cfgs.has order graph.summaries := by
  rw [foldl_reverse]
  induction order with
  | nil => exact ⟨rfl, rfl⟩
  | cons p later ih =>
    rw [foldr_cons]
    obtain ⟨hcalls, hsums⟩ :=
      analyzeProc_eq cfgs (later.foldr (fun p g => analyzeProc cfgs analyzer g p) graph) hid p
    refine ⟨hcalls.trans ih.1, ?_⟩
    rw [hsums, rhs_eq_of_calls ih.1, ih.2]
    rfl

lemma computeRound_eq (hids : ∀ p ∈ ids, p ∈ cfgs.keys) (changed : Bool) :
    (computeRound cfgs analyzer ids graph changed).1.calls = graph.calls ∧
      (computeRound cfgs analyzer ids graph changed).1.summaries =
        (Rounds.round (rhs cfgs analyzer graph) ids graph.summaries).1 ∧
      (computeRound cfgs analyzer ids graph changed).2 =
        (changed || (Rounds.round (rhs cfgs analyzer graph) ids graph.summaries).2) := by
  induction ids generalizing graph changed with
  | nil => exact ⟨rfl, rfl, by simp [computeRound, Rounds.round]⟩
  | cons p ids ih =>
    have hrest := (forall_mem_cons.1 hids).2
    obtain ⟨cfg, hget⟩ := Cfgs.exists_get (hids p mem_cons_self)
    simp only [computeRound, hget, Rounds.round, rhs_of_get analyzer graph hget]
    by_cases hsame : graph.getSummary p = some (analyzer p cfg (collectCalleeSummaries p graph))
    · have hsolved : graph.summaries p = _ := hsame
      rw [if_pos hsame, if_pos hsolved]
      exact ih graph hrest changed
    · have hopen : ¬ graph.summaries p = _ := hsame
      rw [if_neg hsame, if_neg hopen]
      obtain ⟨hcalls, hsums, hchanged⟩ := ih
        (graph.setSummary (analyzer p cfg (collectCalleeSummaries p graph))) hrest true
      rw [setSummary_summaries cfgs graph hid hget, rhs_eq_of_calls rfl] at hsums
      refine ⟨hcalls, hsums, ?_⟩
      rw [hchanged]
      simp

lemma computeRounds_eq (rounds : Nat) :
    (computeRounds cfgs analyzer rounds graph).calls = graph.calls ∧
      (computeRounds cfgs analyzer rounds graph).summaries =
        iterate (rhs cfgs analyzer graph) cfgs.keys rounds graph.summaries := by
  induction rounds generalizing graph with
  | zero => exact ⟨rfl, rfl⟩
  | succ rounds ih =>
    obtain ⟨hcalls, hsums, hchanged⟩ :=
      computeRound_eq cfgs graph hid (fun p (hp : p ∈ cfgs.keys) => hp) false
    rw [Bool.false_or] at hchanged
    rw [computeRounds, iterate, ← hchanged, ← hsums]
    cases hround : computeRound cfgs analyzer cfgs.keys graph false with
    | mk next changed =>
      rw [hround] at hcalls
      cases changed with
      | false => exact ⟨hcalls, rfl⟩
      | true =>
        refine ⟨(ih next).1.trans hcalls, ?_⟩
        rw [if_pos rfl, ← rhs_eq_of_calls hcalls]
        exact (ih next).2

lemma afterRounds_eq (k : Nat) :
    (afterRounds cfgs analyzer graph k).calls = graph.calls ∧
      (afterRounds cfgs analyzer graph k).summaries =
        after (rhs cfgs analyzer graph) cfgs.keys graph.summaries k := by
  induction k generalizing graph with
  | zero => exact ⟨rfl, rfl⟩
  | succ k ih =>
    obtain ⟨hcalls, hsums, -⟩ :=
      computeRound_eq cfgs graph hid (fun p (hp : p ∈ cfgs.keys) => hp) false
    obtain ⟨hcalls', hsummaries'⟩ := ih (computeRound cfgs analyzer cfgs.keys graph false).1
    refine ⟨hcalls'.trans hcalls, ?_⟩
    rw [after, ← hsums, ← rhs_eq_of_calls hcalls]
    exact hsummaries'

lemma settlesInRounds_iff : SettlesInRounds cfgs analyzer graph ↔
    Rounds.Settles (rhs cfgs analyzer graph) cfgs.keys maxRounds graph.summaries := by
  have hround : ∀ k, (computeRound cfgs analyzer cfgs.keys
      (afterRounds cfgs analyzer (graph.withProcs cfgs) k) false).2 =
      (Rounds.round (rhs cfgs analyzer graph) cfgs.keys
        (after (rhs cfgs analyzer graph) cfgs.keys graph.summaries k)).2 := by
    intro k
    obtain ⟨hcalls, hsums⟩ := afterRounds_eq cfgs (graph.withProcs cfgs) hid k
    obtain ⟨-, -, hchanged⟩ := computeRound_eq cfgs
      (afterRounds cfgs analyzer (graph.withProcs cfgs) k) hid
      (fun p (hp : p ∈ cfgs.keys) => hp) false
    rw [hchanged, Bool.false_or, hsums, rhs_eq_of_calls hcalls,
      rhs_eq_of_calls calls_withProcs, summaries_withProcs]
  simp only [SettlesInRounds, Rounds.Settles, hround]

/-- The two ways in which the summaries are computed. -/
lemma computeSummaries_cases (toposort : CallGraph → Option (List ProcId))
    (htopo : IsToposort (graph.withProcs cfgs) (toposort (graph.withProcs cfgs))) :
    (computeSummaries toposort cfgs graph analyzer).calls = graph.calls ∧
    ((∃ order, (∀ p, p ∈ order ↔ p ∈ graph.procs ∨ p ∈ cfgs.keys) ∧
        Rounds.Topological graph.Calls order ∧
        (computeSummaries toposort cfgs graph analyzer).summaries =
          pass (rhs cfgs analyzer graph) cfgs.has order graph.summaries) ∨
      ¬ graph.Acyclic ∧ (computeSummaries toposort cfgs graph analyzer).summaries =
        iterate (rhs cfgs analyzer graph) cfgs.keys maxRounds graph.summaries) := by
  have hcallsRel : (graph.withProcs cfgs).Calls = graph.Calls := by
    unfold CallGraph.Calls
    rw [calls_withProcs]
  unfold computeSummaries
  dsimp only
  cases horder : toposort (graph.withProcs cfgs) with
  | some order =>
    rw [horder] at htopo
    obtain ⟨hcalls, hsums⟩ := analyze_order cfgs (graph.withProcs cfgs) hid order
    refine ⟨hcalls.trans calls_withProcs, .inl ⟨order, fun p => ?_, hcallsRel ▸ htopo.2, ?_⟩⟩
    · rw [htopo.1.mem_iff, mem_withProcs]
    · rw [rhs_eq_of_calls calls_withProcs, summaries_withProcs] at hsums
      exact hsums
  | none =>
    rw [horder] at htopo
    obtain ⟨hcalls, hsums⟩ := computeRounds_eq cfgs (graph.withProcs cfgs) hid maxRounds
    refine ⟨hcalls.trans calls_withProcs, .inr ⟨?_, ?_⟩⟩
    · obtain ⟨p, hp⟩ := htopo
      exact fun hacyclic => hacyclic p (hcallsRel ▸ hp)
    · rw [rhs_eq_of_calls calls_withProcs, summaries_withProcs] at hsums
      exact hsums

end Simulation

/-! ## Fixpoints -/

section Fixpoint

variable (hid : ∀ p cfg m, (analyzer p cfg m).id = p)

include hid

variable {toposort : CallGraph → Option (List ProcId)}

section

variable (htopo : IsToposort (graph.withProcs cfgs) (toposort (graph.withProcs cfgs)))

include htopo

lemma computeSummaries_fixpoint (h : graph.Acyclic ∨ SettlesInRounds cfgs analyzer graph) :
    IsFixpoint cfgs analyzer (computeSummaries toposort cfgs graph analyzer) := by
  obtain ⟨hcalls, hcases⟩ := computeSummaries_cases cfgs graph hid toposort htopo
  rw [isFixpoint_iff, rhs_eq_of_calls hcalls]
  rcases hcases with ⟨_, hmem, htopological, hsums⟩ | ⟨hcyclic, hsums⟩
  · rw [hsums]
    intro p hp
    apply pass_solves rhs_reads htopological p
    exact mem_filter.2 ⟨(hmem p).2 (.inr hp), decide_eq_true hp⟩
  · rw [hsums]
    exact ((settlesInRounds_iff cfgs graph hid).1 (h.resolve_left hcyclic)).solves

/-- Routines without a control-flow graph keep what they have. -/
lemma computeSummaries_given (hp : p ∉ cfgs.keys) :
    (computeSummaries toposort cfgs graph analyzer).summaries p = graph.summaries p := by
  obtain ⟨-, hcases⟩ := computeSummaries_cases cfgs graph hid toposort htopo
  rcases hcases with ⟨_, -, -, hsums⟩ | ⟨-, hsums⟩
  · rw [hsums]
    exact pass_of_not_has (decide_eq_false hp)
  · rw [hsums]
    apply iterate_invariant (P := fun s => s p = graph.summaries p) _ _ _ rfl
    intro s hs
    apply round_invariant (P := fun s => s p = graph.summaries p) _ hs
    intro q hq s hs
    rw [visit_of_ne, hs]
    rintro rfl
    exact hp hq

/-- In a graph without cycles any two fixpoints with the same given summaries are one. -/
lemma computeSummaries_eq_of_order
    (hfix : IsFixpoint cfgs analyzer (computeSummaries toposort cfgs graph analyzer))
    (hmem : ∀ p ∈ cfgs.keys, p ∈ order) (htopological : Rounds.Topological graph.Calls order)
    {t : Summaries} (ht : Rounds.Solves (rhs cfgs analyzer graph) cfgs.keys t)
    (hgiven : ∀ p, p ∉ cfgs.keys → t p = graph.summaries p) :
    (computeSummaries toposort cfgs graph analyzer).summaries = t := by
  have hcalls := (computeSummaries_cases cfgs graph hid toposort htopo).1
  rw [isFixpoint_iff, rhs_eq_of_calls hcalls] at hfix
  have hkeys : ∀ p ∈ order.filter cfgs.has, p ∈ cfgs.keys :=
    fun p hp => of_decide_eq_true (mem_filter.1 hp).2
  have hagree : ∀ p, p ∉ cfgs.keys →
      (computeSummaries toposort cfgs graph analyzer).summaries p = t p := by
    intro p hp
    rw [computeSummaries_given hid htopo hp, hgiven p hp]
  funext p
  by_cases hp : p ∈ cfgs.keys
  · apply htopological.solution_unique rhs_reads (fun q hq => hfix q (hkeys q hq))
      (fun q hq => ht q (hkeys q hq)) _ p (hmem p hp)
    exact fun q hq => hagree q (of_decide_eq_false hq)
  · exact hagree p hp

end

end Fixpoint

/-- The equations do not depend on how the hash map lists the routines. -/
lemma rhs_eq_of_perm (h : cfgs'.entries.Perm cfgs.entries) :
    rhs cfgs' analyzer graph = rhs cfgs analyzer graph := by
  funext p s
  unfold rhs
  rw [Cfgs.get_eq_of_perm h]

lemma SummaryDomain.rhs_monotone (domain : SummaryDomain analyzer) : letI := domain.order
    Rounds.Monotone (rhs cfgs analyzer graph) := by
  let _ := domain.order
  intro p s t hst
  unfold rhs
  split
  · apply domain.monotone
    intro q a ha
    unfold calleeView at *
    split at ha
    · next hcalls =>
      rw [if_pos hcalls]
      exact hst q a ha
    · cases ha
  · exact le_refl _

/-! ## Where the rounds fall short -/

/-- Summaries ordered by a number: a summary is below itself and those with a larger number. -/
@[reducible]
def orderBy (f : ProcSummary → Nat) : PartialOrder ProcSummary where
  le a b := a = b ∨ f a < f b
  le_refl a := .inl rfl
  le_trans := by
    rintro a b c (rfl | hab) (rfl | hbc)
    · exact .inl rfl
    · exact .inr hbc
    · exact .inr hab
    · exact .inr (Nat.lt_trans hab hbc)
  le_antisymm := by
    rintro a b (rfl | hab) (hba | hba)
    · rfl
    · rfl
    · exact hba.symm
    · exact absurd hba (Nat.lt_asymm hab)

lemma orderBy_lt {f : ProcSummary → Nat} {a b : ProcSummary} (h : (orderBy f).lt a b) :
    f a < f b := by
  obtain ⟨rfl | hlt, hnot⟩ := h
  · exact absurd (.inl rfl) hnot
  · exact hlt

def recursiveProc : ProcId := ⟨"Unit1", "Walk", 0, 10⟩

/-- Adds one freed parameter to what the routine's own summary has, up to twenty-one. -/
def countFreed : CfgAnalyzer := fun p _ m =>
  let seen := match m recursiveProc with
    | some summary => summary.paramEffects.length
    | none => 0
  ⟨p, replicate (min (seen + 1) 21) .freed, [], false, false, []⟩

def countFreedDomain : SummaryDomain countFreed where
  order := orderBy fun summary => summary.paramEffects.length
  monotone := by
    intro p cfg m m' hle
    -- only the number of parameters seen so far matters
    have hseen : (match m recursiveProc with
          | some summary => summary.paramEffects.length
          | none => 0) ≤
        match m' recursiveProc with
          | some summary => summary.paramEffects.length
          | none => 0 := by
      cases hm : m recursiveProc with
      | none => exact Nat.zero_le _
      | some a =>
        obtain ⟨b, hb, rfl | hlt⟩ := hle recursiveProc a hm
        · rw [hb]
        · rw [hb]
          exact Nat.le_of_lt hlt
    rcases Nat.lt_or_ge (countFreed p cfg m).paramEffects.length
      (countFreed p cfg m').paramEffects.length with hlt | hge
    · exact .inr hlt
    · left
      simp only [countFreed, length_replicate] at hge ⊢
      congr 2
      omega
  rank summary := summary.paramEffects.length
  height := 22
  rank_lt _ _ := orderBy_lt
  rank_lt_height := by
    intro p cfg m
    simp only [countFreed, length_replicate]
    omega

def recursiveCfgs : Cfgs where
  entries := [(recursiveProc, Cfg.emptyRoutine)]
  distinct := by simp

/-- One routine that calls itself. -/
def recursiveGraph : CallGraph := new.addCall ⟨recursiveProc, recursiveProc, 2, 6⟩

def pingProc : ProcId := ⟨"Unit1", "Ping", 0, 10⟩

def pongProc : ProcId := ⟨"Unit1", "Pong", 20, 30⟩

/-- A routine can raise when a callee can. -/
def raisesLikeCallees : CfgAnalyzer := fun p _ m =>
  ⟨p, [], [], false, [pingProc, pongProc].any fun q => (m q).any (·.canRaise), []⟩

def raisesLikeCalleesDomain : SummaryDomain raisesLikeCallees where
  order := orderBy fun summary => summary.canRaise.toNat
  monotone := by
    intro p cfg m m' hle
    have hraise : ∀ q, (m q).any (·.canRaise) = true → (m' q).any (·.canRaise) = true := by
      intro q hq
      cases hm : m q with
      | none =>
        rw [hm] at hq
        cases hq
      | some a =>
        obtain ⟨b, hb, rfl | hlt⟩ := hle q a hm
        · rw [hb]
          rwa [hm] at hq
        · rw [hm] at hq
          have hraises : a.canRaise = true := by simpa using hq
          have hlt : a.canRaise.toNat < b.canRaise.toNat := hlt
          have hb := Bool.toNat_lt b.canRaise
          rw [hraises, Bool.toNat_true] at hlt
          omega
    cases hleft : [pingProc, pongProc].any fun q => (m q).any (·.canRaise) with
    | true =>
      left
      have hright : ([pingProc, pongProc].any fun q => (m' q).any (·.canRaise)) = true := by
        rw [any_eq_true] at hleft ⊢
        obtain ⟨q, hq, hqr⟩ := hleft
        exact ⟨q, hq, hraise q hqr⟩
      simp only [raisesLikeCallees, hleft, hright]
    | false =>
      cases hright : [pingProc, pongProc].any fun q => (m' q).any (·.canRaise) with
      | true =>
        right
        simp [raisesLikeCallees, hleft, hright]
      | false =>
        left
        simp only [raisesLikeCallees, hleft, hright]
  rank summary := summary.canRaise.toNat
  height := 2
  rank_lt _ _ := orderBy_lt
  rank_lt_height _ _ _ := Bool.toNat_lt _

def pingFirst : Cfgs where
  entries := [(pingProc, Cfg.emptyRoutine), (pongProc, Cfg.emptyRoutine)]
  distinct := by decide

def pongFirst : Cfgs where
  entries := [(pongProc, Cfg.emptyRoutine), (pingProc, Cfg.emptyRoutine)]
  distinct := by decide

/-- Two routines that call each other, with a summary left over for each. -/
def pingPong : CallGraph :=
  ((new.addCall ⟨pingProc, pongProc, 2, 6⟩).addCall ⟨pongProc, pingProc, 22, 26⟩
    |>.setSummary ⟨pingProc, [], [], false, true, []⟩).setSummary
      ⟨pongProc, [], [], false, false, []⟩

/-- Twenty rounds need not reach a fixpoint, and from summaries that are left over the fixpoint
that is reached depends on the order of the hash map. -/
theorem computeSummaries_short_of_fixpoint :
    ((∀ p cfg m, (countFreed p cfg m).id = p) ∧ Nonempty (SummaryDomain countFreed) ∧
      recursiveGraph.Fresh recursiveCfgs ∧
      IsToposort (recursiveGraph.withProcs recursiveCfgs) none ∧
      ¬ IsFixpoint recursiveCfgs countFreed
        (computeSummaries (fun _ => none) recursiveCfgs recursiveGraph countFreed)) ∧
    ((∀ p cfg m, (raisesLikeCallees p cfg m).id = p) ∧ Nonempty (SummaryDomain raisesLikeCallees) ∧
      pingFirst.entries.Perm pongFirst.entries ∧
      IsToposort (pingPong.withProcs pingFirst) none ∧
      IsToposort (pingPong.withProcs pongFirst) none ∧
      (computeSummaries (fun _ => none) pingFirst pingPong raisesLikeCallees).getSummary pingProc ≠
        (computeSummaries (fun _ => none) pongFirst pingPong raisesLikeCallees).getSummary
          pingProc) := by
  refine ⟨⟨fun _ _ _ => rfl, ⟨countFreedDomain⟩, ?_, ?_, ?_⟩,
    ⟨fun _ _ _ => rfl, ⟨raisesLikeCalleesDomain⟩, Perm.swap _ _ _, ?_, ?_, ?_⟩⟩
  · intro p _
    rfl
  · exact ⟨recursiveProc, .single (by decide)⟩
  · intro hfix
    exact absurd (hfix recursiveProc Cfg.emptyRoutine mem_cons_self) (by decide +kernel)
  · exact ⟨pingProc, .tail (b := pongProc) (.single (by decide)) (by decide)⟩
  · exact ⟨pingProc, .tail (b := pongProc) (.single (by decide)) (by decide)⟩
  · decide +kernel

/-! ## What the computation guarantees -/

/-- In a call graph without cycles, and whenever one of the twenty rounds changes nothing, the
summaries are a fixpoint.  Without cycles, and whenever the rounds settle from a call graph
without summaries, it is the same one for every order of the hash map.  The rounds settle when
the summaries of all routines together can change fewer than twenty times. -/
theorem summaries_fixpoint_of_settled (analyzer : CfgAnalyzer)
    (hid : ∀ p cfg m, (analyzer p cfg m).id = p) (domain : SummaryDomain analyzer)
    (cfgs : Cfgs) (graph : CallGraph) (toposort : CallGraph → Option (List ProcId))
    (htopo : IsToposort (graph.withProcs cfgs) (toposort (graph.withProcs cfgs))) :
    (graph.Acyclic ∨ SettlesInRounds cfgs analyzer graph →
      IsFixpoint cfgs analyzer (computeSummaries toposort cfgs graph analyzer)) ∧
    (∀ (cfgs' : Cfgs) (toposort' : CallGraph → Option (List ProcId)),
      cfgs'.entries.Perm cfgs.entries →
      IsToposort (graph.withProcs cfgs') (toposort' (graph.withProcs cfgs')) →
      graph.Acyclic ∨ (graph.Fresh cfgs ∧ SettlesInRounds cfgs analyzer graph ∧
        SettlesInRounds cfgs' analyzer graph) →
      (computeSummaries toposort' cfgs' graph analyzer).summaries =
        (computeSummaries toposort cfgs graph analyzer).summaries) ∧
    (graph.Fresh cfgs → cfgs.keys.length * domain.height < maxRounds →
      SettlesInRounds cfgs analyzer graph) := by
  let _ := domain.order
  refine ⟨computeSummaries_fixpoint hid htopo, ?_, ?_⟩
  · intro cfgs' toposort' hperm htopo' h
    have hkeys : cfgs'.keys.Perm cfgs.keys := hperm.map Prod.fst
    have hfix : IsFixpoint cfgs analyzer (computeSummaries toposort cfgs graph analyzer) :=
      computeSummaries_fixpoint hid htopo (h.imp_right fun h => h.2.1)
    have hfix' : IsFixpoint cfgs' analyzer (computeSummaries toposort' cfgs' graph analyzer) :=
      computeSummaries_fixpoint hid htopo' (h.imp_right fun h => h.2.2)
    obtain ⟨hcalls, hcases⟩ := computeSummaries_cases cfgs graph hid toposort htopo
    -- one of the two runs ordered the graph: its order determines the other's fixpoint
    rcases hcases with ⟨order, hmem, htopological, -⟩ | ⟨hcyclic, hsummaries⟩
    · apply computeSummaries_eq_of_order hid htopo' hfix'
        (fun p hp => (hmem p).2 (.inr (hkeys.mem_iff.1 hp))) htopological
      · rw [isFixpoint_iff, rhs_eq_of_calls hcalls] at hfix
        intro p hp
        rw [rhs_eq_of_perm hperm]
        exact hfix p (hkeys.mem_iff.1 hp)
      · exact fun p hp => computeSummaries_given hid htopo (fun h => hp (hkeys.mem_iff.2 h))
    · obtain ⟨hfresh, hsettles, hsettles'⟩ := h.resolve_left hcyclic
      rw [settlesInRounds_iff _ _ hid] at hsettles hsettles'
      obtain ⟨-, hcases'⟩ := computeSummaries_cases cfgs' graph hid toposort' htopo'
      rcases hcases' with ⟨order, hmem, htopological, -⟩ | ⟨-, hsummaries'⟩
      · symm
        apply computeSummaries_eq_of_order hid htopo hfix
          (fun p hp => (hmem p).2 (.inr (hkeys.mem_iff.2 hp))) htopological
        · rw [isFixpoint_iff,
            rhs_eq_of_calls (computeSummaries_cases cfgs' graph hid toposort' htopo').1] at hfix'
          intro p hp
          rw [← rhs_eq_of_perm hperm]
          exact hfix' p (hkeys.mem_iff.2 hp)
        · exact fun p hp => computeSummaries_given hid htopo' (fun h => hp (hkeys.mem_iff.1 h))
      · -- both iterated from below
        rw [hsummaries, hsummaries', rhs_eq_of_perm hperm]
        rw [rhs_eq_of_perm hperm] at hsettles'
        exact (iterate_unique domain.rhs_monotone hkeys.symm hfresh hsettles hsettles').symm
  · intro hfresh hheight
    rw [settlesInRounds_iff _ _ hid]
    apply settles_of_lt domain.rank_lt domain.rhs_monotone _ hfresh hheight
    intro p hp s
    obtain ⟨cfg, hget⟩ := Cfgs.exists_get hp
    rw [rhs, hget]
    exact domain.rank_lt_height _ _ _

theorem summaries_fixpoint_of_settled_pingPong :
    IsToposort ((new.addCall ⟨pingProc, pongProc, 2, 6⟩).withProcs pingFirst)
        (some [pingProc, pongProc]) ∧
      IsFixpoint pingFirst raisesLikeCallees (computeSummaries (fun _ => some [pingProc, pongProc])
        pingFirst (new.addCall ⟨pingProc, pongProc, 2, 6⟩) raisesLikeCallees) := by
  have htopo : IsToposort ((new.addCall ⟨pingProc, pongProc, 2, 6⟩).withProcs pingFirst)
      (some [pingProc, pongProc]) := by
    refine ⟨by decide, ?_, by decide, ?_, by decide, trivial⟩
    · rintro q ⟨site, hsite, -, rfl⟩
      obtain rfl : site = ⟨pingProc, pongProc, 2, 6⟩ := mem_singleton.1 hsite
      exact mem_cons_self
    · rintro q ⟨site, hsite, hcaller, -⟩
      obtain rfl : site = ⟨pingProc, pongProc, 2, 6⟩ := mem_singleton.1 hsite
      exact absurd hcaller (by decide)
  refine ⟨htopo, ?_⟩
  have hresult := summaries_fixpoint_of_settled raisesLikeCallees (fun _ _ _ => rfl)
    raisesLikeCalleesDomain pingFirst (new.addCall ⟨pingProc, pongProc, 2, 6⟩)
    (fun _ => some [pingProc, pongProc]) htopo
  apply hresult.1
  right
  apply hresult.2.2
  · intro p _
    rfl
  · decide

end Lint4d.Flow

import Mathlib

/-!
# Walks and sweeps of a finite directed multigraph

Edges are values with two ends, so that parallel edges and self-loops are
different edges.  A walk is a list of edges in which each starts where the one
before it ended.

A sweep pops nodes off a stack, skips some of them, gives up at others, and
pushes the successors of the rest the first time it meets them.  It finds what
can be reached without entering a skipped node.
-/

namespace Lint4d.Lib

open List

/-- Edges of type `ε` join nodes of type `α`. -/
class Arc (ε : Type) (α : outParam Type) where
  source : ε → α
  target : ε → α

section Walk

variable {ε α : Type} [Arc ε α] {E F : ε → Prop} {a b c : α} {e : ε} {path rest : List ε}

/-- A walk over the edges in `E`. -/
inductive Walk (E : ε → Prop) : α → List ε → α → Prop where
  | nil (a : α) : Walk E a [] a
  | cons {e : ε} {rest : List ε} {b : α} (he : E e) (hrest : Walk E (Arc.target e) rest b) :
      Walk E (Arc.source e) (e :: rest) b

namespace Walk

/-- The nodes a walk visits, its start included. -/
def nodes (a : α) (path : List ε) : List α := a :: path.map Arc.target

@[simp] lemma nodes_nil (a : α) : nodes a ([] : List ε) = [a] := rfl

@[simp] lemma nodes_cons (a : α) (e : ε) (path : List ε) :
    nodes a (e :: path) = a :: nodes (Arc.target e) path := rfl

lemma start_mem_nodes (a : α) (path : List ε) : a ∈ nodes a path := mem_cons_self

lemma nil_iff : Walk E a [] b ↔ a = b := by
  constructor
  · intro h
    cases h
    rfl
  · rintro rfl
    exact .nil a

lemma cons_iff : Walk E a (e :: rest) b ↔ E e ∧ Arc.source e = a ∧ Walk E (Arc.target e) rest b := by
  constructor
  · intro h
    cases h with
    | cons he hrest => exact ⟨he, rfl, hrest⟩
  · rintro ⟨he, rfl, hrest⟩
    exact .cons he hrest

lemma append (h : Walk E a path b) (hrest : Walk E b rest c) : Walk E a (path ++ rest) c := by
  induction h with
  | nil => exact hrest
  | cons he _ ih => exact .cons he (ih hrest)

lemma snoc (h : Walk E a path (Arc.source e)) (he : E e) : Walk E a (path ++ [e]) (Arc.target e) :=
  h.append (.cons he (.nil _))

lemma mem_edges (h : Walk E a path b) : ∀ e ∈ path, E e := by
  induction h with
  | nil => simp
  | cons he _ ih => simpa [he] using ih

lemma end_mem_nodes (h : Walk E a path b) : b ∈ nodes a path := by
  induction h with
  | nil => exact start_mem_nodes _ _
  | cons _ _ ih => exact mem_cons_of_mem _ ih

/-- A node on a walk splits it in two. -/
lemma split (h : Walk E a path b) (hmem : c ∈ nodes a path) :
    ∃ before after, path = before ++ after ∧ Walk E a before c ∧ Walk E c after b := by
  induction h with
  | nil a =>
    obtain rfl : c = a := by simpa using hmem
    exact ⟨[], [], rfl, .nil c, .nil c⟩
  | @cons e rest b he hrest ih =>
    rw [nodes_cons, mem_cons] at hmem
    rcases hmem with rfl | hmem
    · exact ⟨[], e :: rest, rfl, .nil _, .cons he hrest⟩
    · obtain ⟨before, after, rfl, hbefore, hafter⟩ := ih hmem
      exact ⟨e :: before, after, rfl, .cons he hbefore, hafter⟩

lemma nodes_append (h : Walk E a path b) :
    ∀ n, n ∈ nodes a (path ++ rest) ↔ n ∈ nodes a path ∨ n ∈ nodes b rest := by
  intro n
  induction h with
  | nil a =>
    simp only [nil_append, nodes_nil, mem_singleton, iff_or_self]
    rintro rfl
    exact start_mem_nodes _ _
  | cons _ _ ih => simp [ih, or_assoc]

lemma imp (hEF : ∀ e ∈ path, E e → F e) (h : Walk E a path b) : Walk F a path b := by
  induction h with
  | nil a => exact .nil a
  | cons he _ ih =>
    exact .cons (hEF _ mem_cons_self he) (ih (forall_mem_cons.1 hEF).2)

end Walk

end Walk

section Sweep

variable {α : Type} {stop skip : α → Bool} {next : α → List α} {s a b : α} {ε : Type}
  {nodes : List α} {E : ε → Prop}

/-- A node reached from `s` without entering a skipped node, `s` itself included. -/
def Clears (skip : α → Bool) (next : α → List α) (s b : α) : Prop :=
  skip s = false ∧ Relation.ReflTransGen (fun x y => y ∈ next x ∧ skip y = false) s b

lemma Clears.step (h : Clears skip next s a) (hnext : b ∈ next a) (hb : skip b = false) :
    Clears skip next s b :=
  ⟨h.1, h.2.tail ⟨hnext, hb⟩⟩

/-- The loop invariant of a sweep from `s`. -/
structure Sweeping (stop skip : α → Bool) (next : α → List α) (s : α)
    (stack visited : List α) : Prop where
  start : skip s = true ∨ s ∈ visited ∨ s ∈ stack
  touched : ∀ b ∈ stack, skip b = false → Clears skip next s b
  cleared : ∀ b ∈ visited, Clears skip next s b ∧ stop b = false
  closed : ∀ a ∈ visited, ∀ b ∈ next a, skip b = true ∨ b ∈ visited ∨ b ∈ stack

namespace Sweeping

variable {stack visited : List α} {node : α}

lemma init : Sweeping stop skip next s [s] [] where
  start := .inr (.inr mem_cons_self)
  touched := forall_mem_singleton.2 fun hskip => ⟨hskip, .refl⟩
  cleared _ hb := absurd hb not_mem_nil
  closed _ ha := absurd ha not_mem_nil

/-- A popped node that is skipped or was visited before is dropped. -/
lemma drop (h : Sweeping stop skip next s (node :: stack) visited)
    (hnode : skip node = true ∨ node ∈ visited) : Sweeping stop skip next s stack visited := by
  have hkeep : ∀ b, skip b = true ∨ b ∈ visited ∨ b ∈ node :: stack →
      skip b = true ∨ b ∈ visited ∨ b ∈ stack := by
    rintro b (hb | hb | hb)
    · exact .inl hb
    · exact .inr (.inl hb)
    · rcases mem_cons.1 hb with rfl | hb
      · exact hnode.imp_right .inl
      · exact .inr (.inr hb)
  exact ⟨hkeep s h.start, fun b hb => h.touched b (mem_cons_of_mem _ hb), h.cleared,
    fun a ha b hb => hkeep b (h.closed a ha b hb)⟩

lemma visit (h : Sweeping stop skip next s (node :: stack) visited) (hskip : skip node = false)
    (hstop : stop node = false) :
    Sweeping stop skip next s ((next node).reverse ++ stack) (node :: visited) := by
  have hkeep : ∀ b, skip b = true ∨ b ∈ visited ∨ b ∈ node :: stack →
      skip b = true ∨ b ∈ node :: visited ∨ b ∈ (next node).reverse ++ stack := by
    rintro b (hb | hb | hb)
    · exact .inl hb
    · exact .inr (.inl (mem_cons_of_mem _ hb))
    · rcases mem_cons.1 hb with rfl | hb
      · exact .inr (.inl mem_cons_self)
      · exact .inr (.inr (mem_append_right _ hb))
  have hnode := h.touched node mem_cons_self hskip
  refine ⟨hkeep s h.start, forall_mem_append.2 ⟨fun b hb => ?_, fun b hb => ?_⟩,
    forall_mem_cons.2 ⟨⟨hnode, hstop⟩, h.cleared⟩,
    forall_mem_cons.2 ⟨fun b hb => ?_, fun a ha b hb => hkeep b (h.closed a ha b hb)⟩⟩
  · exact hnode.step (mem_reverse.1 hb)
  · exact h.touched b (mem_cons_of_mem _ hb)
  · exact .inr (.inr (mem_append_left _ (mem_reverse.2 hb)))

/-- With an empty stack the visited nodes are all that can be reached. -/
lemma mem_of_clears (h : Sweeping stop skip next s [] visited) (hb : Clears skip next s b) :
    b ∈ visited := by
  obtain ⟨hs, hreach⟩ := hb
  induction hreach with
  | refl => simpa [hs] using h.start
  | tail _ hstep ih => simpa [hstep.2] using h.closed _ ih _ hstep.1

end Sweeping

/-- What a sweep from `s` may return. -/
def Swept (stop skip : α → Bool) (next : α → List α) (s : α) : Option (List α) → Prop
  | none => ∃ b, Clears skip next s b ∧ stop b = true
  | some found => Sweeping stop skip next s [] found

/-- Clearing a path is walking it. -/
lemma clears_iff_walk [Arc ε α]
    (hnext : ∀ a b, b ∈ next a ↔ ∃ e, E e ∧ Arc.source e = a ∧ Arc.target e = b) :
    Clears skip next s b ↔ ∃ path, Walk E s path b ∧ ∀ n ∈ Walk.nodes s path, skip n = false := by
  constructor
  · rintro ⟨hs, hreach⟩
    induction hreach with
    | refl => exact ⟨[], .nil s, by simpa using hs⟩
    | tail _ hstep ih =>
      obtain ⟨path, hwalk, hclear⟩ := ih
      obtain ⟨e, he, rfl, rfl⟩ := (hnext _ _).1 hstep.1
      refine ⟨path ++ [e], hwalk.snoc he, fun n hn => ?_⟩
      rcases (hwalk.nodes_append n).1 hn with hn | hn
      · exact hclear n hn
      · rw [Walk.nodes_cons, Walk.nodes_nil, mem_pair] at hn
        rcases hn with rfl | rfl
        · exact hclear _ hwalk.end_mem_nodes
        · exact hstep.2
  · rintro ⟨path, hwalk, hclear⟩
    refine ⟨hclear s (Walk.start_mem_nodes s path), ?_⟩
    induction hwalk with
    | nil => exact .refl
    | @cons e rest b he _ ih =>
      have hrest := (forall_mem_cons.1 hclear).2
      apply Relation.ReflTransGen.head _ (ih hrest)
      exact ⟨(hnext _ _).2 ⟨e, he, rfl, rfl⟩, hrest _ (Walk.start_mem_nodes _ _)⟩

/-- Clearing a path against the direction of the edges. -/
lemma clears_back_iff_walk [Arc ε α]
    (hnext : ∀ a b, b ∈ next a ↔ ∃ e, E e ∧ Arc.target e = a ∧ Arc.source e = b) :
    Clears (fun _ => false) next s b ↔ ∃ path, Walk E b path s := by
  constructor
  · rintro ⟨-, hreach⟩
    induction hreach with
    | refl => exact ⟨[], .nil s⟩
    | tail _ hstep ih =>
      obtain ⟨path, hwalk⟩ := ih
      obtain ⟨e, he, rfl, rfl⟩ := (hnext _ _).1 hstep.1
      exact ⟨e :: path, .cons he hwalk⟩
  · rintro ⟨path, hwalk⟩
    refine ⟨rfl, ?_⟩
    induction hwalk with
    | nil => exact .refl
    | cons he _ ih => exact ih.tail ⟨(hnext _ _).2 ⟨_, he, rfl, rfl⟩, rfl⟩

variable [DecidableEq α]

/-- Pop, skip or stop, and push the successors of what was not met before.
Returns the visited nodes, or `none` when it stopped. -/
def sweep (stop skip : α → Bool) (next : α → List α) : Nat → List α → List α → Option (List α)
  | 0, _, visited => some visited
  | _ + 1, [], visited => some visited
  | fuel + 1, node :: stack, visited =>
    if skip node then sweep stop skip next fuel stack visited
    else if stop node then none
    else if node ∈ visited then sweep stop skip next fuel stack visited
    else sweep stop skip next fuel ((next node).reverse ++ stack) (node :: visited)

/-- What can still be pushed: the successors of the nodes not yet visited. -/
def unvisited (next : α → List α) (visited nodes : List α) : Nat :=
  ((nodes.filter (· ∉ visited)).map fun node => (next node).length).sum

lemma unvisited_node (visited nodes : List α) (node : α) :
    unvisited next visited (node :: nodes) =
      (if node ∈ visited then 0 else (next node).length) + unvisited next visited nodes := by
  by_cases hnode : node ∈ visited <;> simp [unvisited, hnode]

variable (next) in
lemma unvisited_cons_le (visited nodes : List α) (a : α) :
    unvisited next (a :: visited) nodes ≤ unvisited next visited nodes := by
  induction nodes with
  | nil => exact Nat.le_refl 0
  | cons node nodes ih =>
    rw [unvisited_node, unvisited_node]
    by_cases hnode : node ∈ visited
    · simpa [hnode] using ih
    · split <;> omega

variable (next) in
lemma unvisited_visit {visited : List α} (hnode : a ∈ nodes) (hfresh : a ∉ visited) :
    unvisited next (a :: visited) nodes + (next a).length ≤ unvisited next visited nodes := by
  induction nodes with
  | nil => cases hnode
  | cons node nodes ih =>
    rw [unvisited_node, unvisited_node]
    by_cases ha : node = a
    · subst ha
      have hrest := unvisited_cons_le next visited nodes node
      simp only [mem_cons, true_or, if_true, hfresh, if_false]
      omega
    · have hmem : a ∈ nodes := (mem_cons.1 hnode).resolve_left (Ne.symm ha)
      have hrest := ih hmem
      simp only [mem_cons, ha, false_or]
      omega

/-- What a sweep returns from a state that satisfies the invariant. -/
lemma sweep_run (hnodes : ∀ a ∈ nodes, ∀ b ∈ next a, b ∈ nodes) :
    ∀ (fuel : Nat) (stack visited : List α), Sweeping stop skip next s stack visited →
      (∀ b ∈ stack, b ∈ nodes) → stack.length + unvisited next visited nodes ≤ fuel →
      Swept stop skip next s (sweep stop skip next fuel stack visited) := by
  intro fuel
  induction fuel with
  | zero =>
    intro stack visited h _ hfuel
    obtain rfl : stack = [] := length_eq_zero_iff.1 (by omega)
    exact h
  | succ fuel ih =>
    intro stack visited h hstack hfuel
    cases stack with
    | nil => exact h
    | cons node stack =>
      have hrest := (forall_mem_cons.1 hstack).2
      have hdrop : stack.length + unvisited next visited nodes ≤ fuel := by
        rw [length_cons] at hfuel
        omega
      rw [sweep]
      split
      · next hskip => exact ih stack visited (h.drop (.inl hskip)) hrest hdrop
      next hskip =>
      have hskip : skip node = false := by simpa using hskip
      split
      · next hstop => exact ⟨node, h.touched node mem_cons_self hskip, hstop⟩
      next hstop =>
      split
      · next hvisited => exact ih stack visited (h.drop (.inr hvisited)) hrest hdrop
      next hfresh =>
      -- the pushed successors are paid for by the node that is now visited
      have hnode : node ∈ nodes := hstack node mem_cons_self
      have hpay := unvisited_visit next hnode hfresh
      apply ih _ _ (h.visit hskip (by simpa using hstop))
      · exact forall_mem_append.2 ⟨fun b hb => hnodes node hnode b (mem_reverse.1 hb), hrest⟩
      · rw [length_append, length_reverse]
        omega

/-- Fuel for a sweep from one node: each edge is pushed at most once. -/
def sweepFuel (next : α → List α) (nodes : List α) : Nat :=
  1 + (nodes.map fun node => (next node).length).sum

section Spec

variable {nodes : List α} (hnodes : ∀ a ∈ nodes, ∀ b ∈ next a, b ∈ nodes) (hs : s ∈ nodes)

include hnodes hs

variable (stop skip) in
lemma sweep_start :
    Swept stop skip next s (sweep stop skip next (sweepFuel next nodes) [s] []) := by
  apply sweep_run hnodes _ _ _ Sweeping.init
  · exact forall_mem_singleton.2 hs
  · simp [sweepFuel, unvisited]

/-- A sweep stops exactly when it can reach a node to stop at. -/
lemma sweep_eq_none_iff :
    sweep stop skip next (sweepFuel next nodes) [s] [] = none ↔
      ∃ b, Clears skip next s b ∧ stop b = true := by
  have hrun := sweep_start stop skip hnodes hs
  cases hresult : sweep stop skip next (sweepFuel next nodes) [s] [] with
  | none =>
    rw [hresult] at hrun
    exact ⟨fun _ => hrun, fun _ => rfl⟩
  | some =>
    rw [hresult] at hrun
    simp only [reduceCtorEq, false_iff, not_exists, not_and, Bool.not_eq_true]
    intro b hb
    exact (hrun.cleared b (hrun.mem_of_clears hb)).2

/-- A sweep that does not stop visits exactly what it can reach. -/
lemma mem_of_sweep {found : List α}
    (h : sweep stop skip next (sweepFuel next nodes) [s] [] = some found) :
    b ∈ found ↔ Clears skip next s b := by
  have hrun := sweep_start stop skip hnodes hs
  rw [h] at hrun
  exact ⟨fun hb => (hrun.cleared b hb).1, hrun.mem_of_clears⟩

end Spec

end Sweep

end Lint4d.Lib

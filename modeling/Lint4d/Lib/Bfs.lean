import Lint4d.Lib.Walk

/-!
# Breadth-first search with a parent map

The search keeps a queue of nodes, the set of nodes whose edges were scanned,
and for each node it found the edge it was found by.  It returns as soon as it
finds its goal; the path is then read back from the parent edges.

The start is not found at first, so that a search whose goal is its start looks
for a cycle.
-/

namespace Lint4d.Lib.Bfs

open Arc List

variable {ε α : Type} [Arc ε α] {nodes : List α} {out : α → List ε}
  {allowed : ε → Bool}

/-! ## The search -/

/-- The nodes that have a parent edge. -/
def found (parent : List ε) : List α := parent.map target

@[simp] lemma found_nil : found ([] : List ε) = ([] : List α) := rfl

@[simp] lemma found_cons (e : ε) (parent : List ε) :
    found (e :: parent) = target e :: found parent := rfl

variable [DecidableEq α]

/-- What scanning the edges of one node leads to. -/
inductive Scanned (ε α : Type) where
  | goal (parent : List ε)
  | more (parent : List ε) (queue : List α)

def scan (allowed : ε → Bool) (goal : α) : List ε → List ε → List α → Scanned ε α
  | [], parent, queue => .more parent queue
  | e :: edges, parent, queue =>
    if allowed e = false ∨ target e ∈ found parent then scan allowed goal edges parent queue
    else if target e = goal then .goal (e :: parent)
    else scan allowed goal edges (e :: parent) (queue ++ [target e])

/-- The parent edges at the moment the goal was found. -/
def search (out : α → List ε) (allowed : ε → Bool) (goal : α) :
    Nat → List α → List α → List ε → Option (List ε)
  | 0, _, _, _ => none
  | _ + 1, [], _, _ => none
  | fuel + 1, node :: queue, expanded, parent =>
    if node ∈ expanded then search out allowed goal fuel queue expanded parent
    else
      match scan allowed goal (out node) parent queue with
      | .goal parent => some parent
      | .more parent queue => search out allowed goal fuel queue (node :: expanded) parent

/-- The path back from `current`; `none` when a parent edge is missing or the fuel runs out. -/
def reconstruct (parent : List ε) (start : α) : Nat → α → List ε → Option (List ε)
  | 0, _, _ => none
  | fuel + 1, current, path =>
    match parent.find? (target · = current) with
    | none => none
    | some e =>
      if source e = start then some (e :: path)
      else reconstruct parent start fuel (source e) (e :: path)

/-! ## The tree of parent edges -/

/-- Each parent edge starts at a node found before it and ends at a new one. -/
inductive Tree (E : ε → Prop) (start : α) : List ε → Prop where
  | nil : Tree E start []
  | cons {e parent} (hparent : Tree E start parent) (he : E e)
      (hsource : source e = start ∨ source e ∈ found parent) (hfresh : target e ∉ found parent) :
      Tree E start (e :: parent)

/-- The number of parent edges between the start and a node. -/
def depth (start : α) : List ε → α → Nat
  | [], _ => 0
  | e :: parent, b =>
    if b = target e ∧ b ≠ start then depth start parent (source e) + 1 else depth start parent b

variable {E : ε → Prop} {start b : α} {parent : List ε} {e : ε}

@[simp] lemma depth_start : depth start parent start = 0 := by
  induction parent with
  | nil => rfl
  | cons e parent ih => simpa [depth] using ih

lemma depth_le_length : ∀ (parent : List ε) (b : α), depth start parent b ≤ parent.length := by
  intro parent
  induction parent with
  | nil => exact fun b => Nat.le_refl 0
  | cons e parent ih =>
    intro b
    rw [depth, length_cons]
    split
    · exact Nat.succ_le_succ (ih _)
    · exact Nat.le_succ_of_le (ih b)

/-- A new parent edge does not move the nodes that are already there. -/
lemma depth_cons_of_known (hfresh : target e ∉ found parent)
    (hknown : b = start ∨ b ∈ found parent) :
    depth start (e :: parent) b = depth start parent b := by
  rw [depth, if_neg]
  rintro ⟨rfl, hne⟩
  exact hfresh (hknown.resolve_left hne)

lemma depth_cons_target (hne : target e ≠ start) :
    depth start (e :: parent) (target e) = depth start parent (source e) + 1 := by
  rw [depth, if_pos ⟨rfl, hne⟩]

/-- The parent edge of a node that was found. -/
lemma Tree.lookup (htree : Tree E start parent) (hb : b ∈ found parent) :
    ∃ e, parent.find? (target · = b) = some e ∧ target e = b ∧ E e ∧
      (source e = start ∨ source e ∈ found parent) ∧
      (b ≠ start → depth start parent b = depth start parent (source e) + 1) := by
  induction htree with
  | nil => cases hb
  | @cons e parent _ he hsrc hfresh ih =>
    by_cases hbe : target e = b
    · subst hbe
      refine ⟨e, by simp, rfl, he, hsrc.imp_right (mem_cons_of_mem _), fun hne => ?_⟩
      rw [depth_cons_target hne, depth_cons_of_known hfresh hsrc]
    · have hbold : b ∈ found parent := (mem_cons.1 hb).resolve_left (Ne.symm hbe)
      obtain ⟨e', hfind, htarget, he', hsource', hdepth⟩ := ih hbold
      refine ⟨e', by simpa [find?_cons, hbe] using hfind, htarget, he',
        hsource'.imp_right (mem_cons_of_mem _), fun hne => ?_⟩
      rw [depth_cons_of_known hfresh (.inr hbold), depth_cons_of_known hfresh hsource', hdepth hne]

/-- Reading back the path of a node other than the start. -/
lemma Tree.reconstruct_of_ne (htree : Tree E start parent) :
    ∀ (fuel : Nat) (b : α) (path : List ε), b ∈ found parent → b ≠ start →
      depth start parent b ≤ fuel →
      ∃ before, reconstruct parent start fuel b path = some (before ++ path) ∧
        Walk E start before b ∧ before.length = depth start parent b := by
  intro fuel
  induction fuel with
  | zero =>
    intro b path hb hne hdepth
    obtain ⟨e, -, -, -, -, hlevel⟩ := htree.lookup hb
    have := hlevel hne
    omega
  | succ fuel ih =>
    intro b path hb hne hdepth
    obtain ⟨e, hfind, rfl, he, hsrc, hlevel⟩ := htree.lookup hb
    have hlevel := hlevel hne
    rw [reconstruct, hfind]
    by_cases hstart : source e = start
    · refine ⟨[e], by simp [hstart], ?_, ?_⟩
      · rw [← hstart]
        exact .cons he (.nil _)
      · rw [hlevel, hstart, depth_start]
        rfl
    · obtain ⟨before, hrun, hwalk, hlen⟩ :=
        ih (source e) (e :: path) (hsrc.resolve_left hstart) hstart (by omega)
      refine ⟨before ++ [e], ?_, hwalk.snoc he, ?_⟩
      · simpa [hstart] using hrun
      · rw [length_append, hlen, hlevel]
        rfl

/-- Reading back the path that ends with the newest parent edge, which may close a cycle. -/
lemma Tree.reconstruct_newest (htree : Tree E start (e :: parent)) :
    ∃ path, reconstruct (e :: parent) start (e :: parent).length (target e) [] = some path ∧
      Walk E start path (target e) ∧ path ≠ [] ∧
      path.length = depth start parent (source e) + 1 := by
  cases htree with
  | cons hpar he hsrc hfresh =>
    have hfind : (e :: parent).find? (fun other : ε => decide (target other = target e)) = some e := by
      simp
    rw [length_cons, reconstruct, hfind]
    by_cases hstart : source e = start
    · refine ⟨[e], by simp [hstart], ?_, cons_ne_nil _ _, ?_⟩
      · rw [← hstart]
        exact .cons he (.nil _)
      · rw [hstart, depth_start]
        rfl
    · have hold : source e ∈ found parent := hsrc.resolve_left hstart
      have hdepth : depth start (e :: parent) (source e) = depth start parent (source e) :=
        depth_cons_of_known hfresh (.inr hold)
      obtain ⟨before, hrun, hwalk, hlen⟩ :=
        (Tree.cons hpar he hsrc hfresh).reconstruct_of_ne parent.length (source e) [e]
          (mem_cons_of_mem _ hold) hstart (by rw [hdepth]; exact depth_le_length parent _)
      refine ⟨before ++ [e], by simpa [hstart] using hrun, hwalk.snoc he, by simp, ?_⟩
      rw [length_append, hlen, hdepth]
      rfl

/-! ## The loop invariant -/

/-- The state between two scanned edges.  `todo` are edges of an expanded node that are still to
be scanned; only queued nodes that are not expanded yet count for the order of the queue. -/
structure Searching (E : ε → Prop) (start goal : α) (todo : List ε) (queue expanded : List α)
    (parent : List ε) : Prop where
  tree : Tree E start parent
  missing : goal ∉ found parent
  known : ∀ b, b ∈ expanded ∨ b ∈ queue → b = start ∨ b ∈ found parent
  queued : ∀ b, b = start ∨ b ∈ found parent → b ∈ expanded ∨ b ∈ queue
  first : start ∈ expanded ∨ ∃ rest, queue = start :: rest
  grown : ∀ e, E e → source e ∈ expanded → e ∈ todo ∨
    target e ∈ found parent ∧ depth start parent (target e) ≤ depth start parent (source e) + 1
  behind : ∀ x ∈ expanded, ∀ b ∈ queue, b ∉ expanded → depth start parent x ≤ depth start parent b
  sorted : queue.Pairwise fun a b => a ∉ expanded → b ∉ expanded →
    depth start parent a ≤ depth start parent b ∧ depth start parent b ≤ depth start parent a + 1

/-- The state while the edges of `node` are scanned. -/
structure Expanding (E : ε → Prop) (start goal node : α) (todo : List ε) (queue expanded : List α)
    (parent : List ε) : Prop extends Searching E start goal todo queue expanded parent where
  current : node ∈ expanded
  started : start ∈ expanded
  leaving : ∀ e ∈ todo, source e = node
  deepest : ∀ x ∈ expanded, depth start parent x ≤ depth start parent node
  narrow : ∀ b ∈ queue, b ∉ expanded → depth start parent b ≤ depth start parent node + 1

variable {goal node : α} {todo : List ε} {queue expanded : List α}

lemma Searching.init : Searching E start goal [] [start] [] [] where
  tree := .nil
  missing := not_mem_nil
  known b hb := by simpa using hb
  queued b hb := by simpa using hb
  first := .inr ⟨[], rfl⟩
  grown e _ he := absurd he not_mem_nil
  behind x hx := absurd hx not_mem_nil
  sorted := pairwise_singleton _ _

/-- A queued node that was expanded in the meantime is dropped. -/
lemma Searching.drop (h : Searching E start goal [] (node :: queue) expanded parent)
    (hnode : node ∈ expanded) : Searching E start goal [] queue expanded parent where
  tree := h.tree
  missing := h.missing
  known b hb := h.known b (hb.imp_right (mem_cons_of_mem _))
  queued b hb := by
    rcases h.queued b hb with hb | hb
    · exact .inl hb
    · rcases mem_cons.1 hb with rfl | hb
      · exact .inl hnode
      · exact .inr hb
  first := by
    rcases h.first with hs | ⟨_, hs⟩
    · exact .inl hs
    · obtain ⟨rfl, -⟩ := cons.inj hs
      exact .inl hnode
  grown := h.grown
  behind x hx b hb := h.behind x hx b (mem_cons_of_mem _ hb)
  sorted := h.sorted.of_cons

/-- Popping a node whose edges are now to be scanned. -/
lemma Searching.expand (h : Searching E start goal [] (node :: queue) expanded parent)
    (hnode : node ∉ expanded) (todo : List ε) (hleaving : ∀ e ∈ todo, source e = node)
    (htodo : ∀ e, E e → source e = node → e ∈ todo) :
    Expanding E start goal node todo queue (node :: expanded) parent where
  tree := h.tree
  missing := h.missing
  known b hb := by
    apply h.known b
    simpa [or_assoc, or_left_comm] using hb
  queued b hb := by simpa [or_assoc, or_left_comm] using h.queued b hb
  first := by
    rcases h.first with hs | ⟨rest, hs⟩
    · exact .inl (mem_cons_of_mem _ hs)
    · obtain ⟨rfl, -⟩ := cons.inj hs
      exact .inl mem_cons_self
  grown e he hsrc := by
    rcases mem_cons.1 hsrc with hsrc | hsrc
    · exact .inl (htodo e he hsrc)
    · exact .inr ((h.grown e he hsrc).resolve_left not_mem_nil)
  behind x hx b hb hfresh := by
    rw [mem_cons, not_or] at hfresh
    rcases mem_cons.1 hx with rfl | hx
    · exact ((pairwise_cons.1 h.sorted).1 b hb hnode hfresh.2).1
    · exact h.behind x hx b (mem_cons_of_mem _ hb) hfresh.2
  sorted := by
    apply h.sorted.of_cons.imp
    intro a b hab ha hb
    exact hab (fun hmem => ha (mem_cons_of_mem _ hmem))
      (fun hmem => hb (mem_cons_of_mem _ hmem))
  current := mem_cons_self
  started := by
    rcases h.first with hs | ⟨rest, hs⟩
    · exact mem_cons_of_mem _ hs
    · obtain ⟨rfl, -⟩ := cons.inj hs
      exact mem_cons_self
  leaving := hleaving
  deepest := forall_mem_cons.2 ⟨le_rfl, fun x hx => h.behind x hx node mem_cons_self hnode⟩
  narrow b hb hfresh := by
    rw [mem_cons, not_or] at hfresh
    exact ((pairwise_cons.1 h.sorted).1 b hb hnode hfresh.2).2

namespace Expanding

/-- A node found so far is at most one level below the one being scanned. -/
lemma depth_le (h : Expanding E start goal node todo queue expanded parent)
    (hb : b ∈ found parent) : depth start parent b ≤ depth start parent node + 1 := by
  by_cases hexp : b ∈ expanded
  · exact Nat.le_succ_of_le (h.deepest b hexp)
  · exact h.narrow b ((h.queued b (.inr hb)).resolve_left hexp) hexp

/-- An edge that is not usable, or whose target has a parent, is passed over. -/
lemma pass (h : Expanding E start goal node (e :: todo) queue expanded parent)
    (he : E e → target e ∈ found parent) :
    Expanding E start goal node todo queue expanded parent where
  __ := h
  grown other hother hsrc := by
    rcases h.grown other hother hsrc with htodo | hfound
    · rcases mem_cons.1 htodo with rfl | htodo
      · right
        refine ⟨he hother, ?_⟩
        rw [h.leaving other mem_cons_self]
        exact h.depth_le (he hother)
      · exact .inl htodo
    · exact .inr hfound
  leaving other hother := h.leaving other (mem_cons_of_mem _ hother)

section Insert

variable (h : Expanding E start goal node (e :: todo) queue expanded parent) (he : E e)
  (hfresh : target e ∉ found parent)

include h he hfresh

lemma insert_tree : Tree E start (e :: parent) := by
  refine .cons h.tree he ?_ hfresh
  rw [h.leaving e mem_cons_self]
  exact h.known node (.inl h.current)

omit he in
/-- Nodes expanded or queued so far keep their depth. -/
lemma insert_depth (hb : b ∈ expanded ∨ b ∈ queue) :
    depth start (e :: parent) b = depth start parent b :=
  depth_cons_of_known hfresh (h.known b hb)

omit he hfresh in
/-- The new node, unless it is the start, is one level below the one being scanned. -/
lemma insert_depth_target (hlive : target e ∉ expanded) :
    depth start (e :: parent) (target e) = depth start parent node + 1 := by
  rw [depth_cons_target, h.leaving e mem_cons_self]
  rintro heq
  exact hlive (heq ▸ h.started)

lemma insert (hgoal : target e ≠ goal) :
    Expanding E start goal node todo (queue ++ [target e]) expanded (e :: parent) where
  tree := h.insert_tree he hfresh
  missing hmem := (mem_cons.1 hmem).elim hgoal.symm h.missing
  known b hb := by
    rw [mem_append, mem_singleton, ← or_assoc] at hb
    rcases hb with hb | rfl
    · exact (h.known b hb).imp_right (mem_cons_of_mem _)
    · exact .inr mem_cons_self
  queued b hb := by
    rw [found_cons, mem_cons, or_left_comm] at hb
    rw [mem_append, mem_singleton, ← or_assoc]
    exact hb.symm.imp_left (h.queued b)
  first := .inl h.started
  -- the edge just taken, or one that was followed before
  grown other hother hsrc := by
    rcases h.grown other hother hsrc with htodo | ⟨hmem, hle⟩
    · rcases mem_cons.1 htodo with rfl | htodo
      · right
        refine ⟨mem_cons_self, ?_⟩
        rw [h.insert_depth hfresh (.inl hsrc)]
        by_cases hlive : target other ∈ expanded
        · rw [h.insert_depth hfresh (.inl hlive), h.leaving other mem_cons_self]
          exact Nat.le_succ_of_le (h.deepest _ hlive)
        · have hdepth := h.insert_depth_target hlive
          rw [← h.leaving other mem_cons_self] at hdepth
          exact Nat.le_of_eq hdepth
      · exact .inl htodo
    · right
      refine ⟨mem_cons_of_mem _ hmem, ?_⟩
      rwa [h.insert_depth hfresh (.inl hsrc), depth_cons_of_known hfresh (.inr hmem)]
  behind x hx b hb hlive := by
    rw [h.insert_depth hfresh (.inl hx)]
    rcases mem_append.1 hb with hb | hb
    · rw [h.insert_depth hfresh (.inr hb)]
      exact h.behind x hx b hb hlive
    · obtain rfl := mem_singleton.1 hb
      rw [h.insert_depth_target hlive]
      exact Nat.le_succ_of_le (h.deepest x hx)
  -- the new node is one deeper than the one expanded, so it goes last
  sorted := by
    rw [pairwise_append]
    refine ⟨h.sorted.imp_of_mem ?_, pairwise_singleton _ _, ?_⟩
    · intro a b ha hb hab
      rwa [h.insert_depth hfresh (.inr ha), h.insert_depth hfresh (.inr hb)]
    · intro a ha b hb haLive hbLive
      obtain rfl := mem_singleton.1 hb
      rw [h.insert_depth hfresh (.inr ha), h.insert_depth_target hbLive]
      exact ⟨h.narrow a ha haLive, Nat.succ_le_succ (h.behind node h.current a ha haLive)⟩
  current := h.current
  started := h.started
  leaving other hother := h.leaving other (mem_cons_of_mem _ hother)
  deepest x hx := by
    rw [h.insert_depth hfresh (.inl hx), h.insert_depth hfresh (.inl h.current)]
    exact h.deepest x hx
  narrow b hb hlive := by
    rw [h.insert_depth hfresh (.inl h.current)]
    rcases mem_append.1 hb with hb | hb
    · rw [h.insert_depth hfresh (.inr hb)]
      exact h.narrow b hb hlive
    · obtain rfl := mem_singleton.1 hb
      exact Nat.le_of_eq (h.insert_depth_target hlive)

end Insert

/-- A walk from an expanded node to the goal is at least as long as the one about to be found. -/
lemma length_ge (h : Expanding E start goal node todo queue expanded parent) :
    ∀ (path : List ε) (a : α), a ∈ expanded → Walk E a path goal → path ≠ [] →
      depth start parent node + 1 ≤ depth start parent a + path.length := by
  intro path
  induction path with
  | nil => exact fun a _ _ hne => absurd rfl hne
  | cons e rest ih =>
    intro a ha hwalk _
    obtain ⟨he, rfl, hrest⟩ := Walk.cons_iff.1 hwalk
    rw [length_cons]
    rcases h.grown e he ha with htodo | ⟨hmem, hle⟩
    · rw [h.leaving e htodo]
      omega
    · -- the goal has no parent edge yet, so the walk goes on from the target
      have hne : rest ≠ [] := by
        rintro rfl
        rw [Walk.nil_iff] at hrest
        exact h.missing (hrest ▸ hmem)
      by_cases hexp : target e ∈ expanded
      · have := ih (target e) hexp hrest hne
        omega
      · have hqueue := (h.queued _ (.inr hmem)).resolve_left hexp
        have := h.behind node h.current _ hqueue hexp
        have := length_pos_of_ne_nil hne
        omega

end Expanding

/-- With an empty queue no walk leads to the goal. -/
lemma Searching.no_walk (h : Searching E start goal [] [] expanded parent) :
    ∀ (path : List ε) (a : α), a ∈ expanded → Walk E a path goal → path = [] := by
  intro path
  induction path with
  | nil => exact fun a _ _ => rfl
  | cons e _ ih =>
    intro a ha hwalk
    obtain ⟨he, rfl, hrest⟩ := Walk.cons_iff.1 hwalk
    obtain ⟨hmem, -⟩ := (h.grown e he ha).resolve_left not_mem_nil
    have hexp := (h.queued _ (.inr hmem)).resolve_right not_mem_nil
    obtain rfl := ih (target e) hexp hrest
    rw [Walk.nil_iff] at hrest
    exact absurd (hrest ▸ hmem) h.missing

/-! ## Runs -/

/-- The parent edges lead back from the goal along a shortest walk. -/
def Shortest (E : ε → Prop) (start goal : α) (parent : List ε) : Prop :=
  ∃ path, reconstruct parent start parent.length goal [] = some path ∧ Walk E start path goal ∧
    path ≠ [] ∧ ∀ other, Walk E start other goal → other ≠ [] → path.length ≤ other.length

/-- What can still be queued, and what is queued. -/
def pending (nodes : List α) (parent : List ε) (queue : List α) : Nat :=
  queue.length + unvisited (fun node => [node]) (found parent) nodes

/-- Where a scan of the edges of a node may end. -/
def ScanTo (E : ε → Prop) (start goal node : α) (expanded nodes : List α) (bound : Nat) :
    Scanned ε α → Prop
  | .goal parent => Shortest E start goal parent
  | .more parent queue => Expanding E start goal node [] queue expanded parent ∧
      pending nodes parent queue ≤ bound ∧ ∀ b ∈ queue, b ∈ nodes

lemma scan_run (allowed : ε → Bool) {bound : Nat} (hnodes : ∀ e, E e → target e ∈ nodes) :
    ∀ (todo : List ε) (parent : List ε) (queue : List α), (∀ e ∈ todo, E e ↔ allowed e = true) →
      Expanding E start goal node todo queue expanded parent →
      pending nodes parent queue ≤ bound → (∀ b ∈ queue, b ∈ nodes) →
      ScanTo E start goal node expanded nodes bound (scan allowed goal todo parent queue) := by
  intro todo
  induction todo with
  | nil => exact fun parent queue _ h hbound hqueue => ⟨h, hbound, hqueue⟩
  | cons e todo ih =>
    intro parent queue hE h hbound hqueue
    have hrest := (forall_mem_cons.1 hE).2
    rw [scan]
    split
    · next hpass =>
      refine ih parent queue hrest (h.pass fun he => ?_) hbound hqueue
      exact hpass.resolve_left (by simpa using (hE e mem_cons_self).1 he)
    next hpass =>
    rw [not_or, Bool.not_eq_false] at hpass
    have he : E e := (hE e mem_cons_self).2 hpass.1
    split
    · next hgoal =>
      obtain ⟨path, hrun, hwalk, hne, hlen⟩ := (h.insert_tree he hpass.2).reconstruct_newest
      refine ⟨path, hgoal ▸ hrun, hgoal ▸ hwalk, hne, fun other hother hotherNe => ?_⟩
      have := h.length_ge other start h.started hother hotherNe
      rw [depth_start, Nat.zero_add] at this
      rwa [hlen, h.leaving e mem_cons_self]
    · next hgoal =>
      apply ih _ _ hrest (h.insert he hpass.2 hgoal)
      · have hpay := unvisited_visit (fun node => [node]) (hnodes e he) hpass.2
        rw [length_singleton] at hpay
        unfold pending at *
        rw [length_append, length_singleton, found_cons]
        omega
      · exact forall_mem_append.2 ⟨hqueue, forall_mem_singleton.2 (hnodes e he)⟩

/-- What a search may return. -/
def SearchTo (E : ε → Prop) (start goal : α) : Option (List ε) → Prop
  | some parent => Shortest E start goal parent
  | none => ∀ path, Walk E start path goal → path = []

lemma search_run (hout : ∀ a, ∀ e ∈ out a, source e = a)
    (hE : ∀ e, E e ↔ e ∈ out (source e) ∧ allowed e = true) (hnodes : ∀ e, E e → target e ∈ nodes) :
    ∀ (fuel : Nat) (queue expanded : List α) (parent : List ε),
      Searching E start goal [] queue expanded parent → (∀ b ∈ queue, b ∈ nodes) →
      pending nodes parent queue ≤ fuel →
      SearchTo E start goal (search out allowed goal fuel queue expanded parent) := by
  have hdone : ∀ {expanded : List α} {parent : List ε},
      Searching E start goal [] [] expanded parent → SearchTo E start goal (none : Option (List ε)) :=
    fun h path hwalk =>
      h.no_walk path start ((h.queued start (.inl rfl)).resolve_right not_mem_nil) hwalk
  intro fuel
  induction fuel with
  | zero =>
    intro queue expanded parent h _ hfuel
    obtain rfl : queue = [] := length_eq_zero_iff.1 (by unfold pending at hfuel; omega)
    exact hdone h
  | succ fuel ih =>
    intro queue expanded parent h hqueue hfuel
    cases queue with
    | nil => exact hdone h
    | cons node queue =>
      have hrest := (forall_mem_cons.1 hqueue).2
      have hbound : pending nodes parent queue ≤ fuel := by
        unfold pending at *
        rw [length_cons] at hfuel
        omega
      rw [search]
      split
      · next hnode => exact ih queue expanded parent (h.drop hnode) hrest hbound
      next hnode =>
      have hscan := scan_run allowed hnodes (out node) parent queue
        (fun e he => by rw [hE, hout node e he]; simp [he])
        (h.expand hnode (out node) (hout node) fun e he hsrc => hsrc ▸ ((hE e).1 he).1)
        hbound hrest
      cases hres : scan allowed goal (out node) parent queue with
      | goal parent =>
        rw [hres] at hscan
        exact hscan
      | more parent queue =>
        rw [hres] at hscan
        exact ih queue (node :: expanded) parent hscan.1.toSearching hscan.2.2 hscan.2.1

/-- Fuel for a search: each node is queued at most once, and the start once more. -/
def searchFuel (nodes : List α) : Nat := 1 + nodes.length

/-- A search from `start` returns parent edges of a shortest walk, or there is no walk. -/
lemma search_start (hout : ∀ a, ∀ e ∈ out a, source e = a)
    (hE : ∀ e, E e ↔ e ∈ out (source e) ∧ allowed e = true) (hnodes : ∀ e, E e → target e ∈ nodes)
    (hstart : start ∈ nodes) :
    SearchTo E start goal (search out allowed goal (searchFuel nodes) [start] [] []) := by
  apply search_run hout hE hnodes _ _ _ _ Searching.init
  · exact forall_mem_singleton.2 hstart
  · simp [pending, searchFuel, unvisited]

end Lint4d.Lib.Bfs

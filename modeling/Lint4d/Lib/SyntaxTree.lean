import Mathlib

/-!
# Concrete syntax trees

Nodes carry a kind, a byte range and children under optional field names, and
no text of their own.  A cursor is a node together with the path from the root
to it, so that parents can be asked for; its identity is the path.
-/

namespace Lint4d.Lib

open List

/-- A child of a node and the field it stands under. -/
structure Child (φ α : Type) where
  field : Option φ
  node : α

inductive Node (κ φ : Type) where
  | mk (kind : κ) (startByte endByte row : Nat) (children : List (Child φ (Node κ φ)))

namespace Node

variable {κ φ : Type}

def kind : Node κ φ → κ
  | mk kind _ _ _ _ => kind

def startByte : Node κ φ → Nat
  | mk _ startByte _ _ _ => startByte

def endByte : Node κ φ → Nat
  | mk _ _ endByte _ _ => endByte

def row : Node κ φ → Nat
  | mk _ _ _ row _ => row

def children : Node κ φ → List (Child φ (Node κ φ))
  | mk _ _ _ _ children => children

end Node

/-- A step down: the node that is left and the index of the child that is entered. -/
structure Place (κ φ : Type) where
  parent : Node κ φ
  index : Nat

/-- A node and the steps that lead to it, the last one first. -/
structure Cursor (κ φ : Type) where
  above : List (Place κ φ)
  node : Node κ φ

namespace Cursor

variable {κ φ : Type}

def kind (cursor : Cursor κ φ) : κ := cursor.node.kind

def startByte (cursor : Cursor κ φ) : Nat := cursor.node.startByte

def endByte (cursor : Cursor κ φ) : Nat := cursor.node.endByte

def row (cursor : Cursor κ φ) : Nat := cursor.node.row

/-- Nodes of one tree are the same when they have the same path. -/
def id (cursor : Cursor κ φ) : List Nat := cursor.above.map (·.index)

def parent (cursor : Cursor κ φ) : Option (Cursor κ φ) :=
  match cursor.above with
  | [] => none
  | place :: above => some ⟨above, place.parent⟩

/-- The field under which the node stands in its parent. -/
def field (cursor : Cursor κ φ) : Option φ :=
  match cursor.above with
  | [] => none
  | place :: _ => place.parent.children[place.index]?.bind (·.field)

def down (cursor : Cursor κ φ) (index : Nat) (node : Node κ φ) : Cursor κ φ :=
  ⟨⟨cursor.node, index⟩ :: cursor.above, node⟩

def children (cursor : Cursor κ φ) : List (Cursor κ φ) :=
  cursor.node.children.mapIdx fun index child => cursor.down index child.node

/-- The first child under a field. -/
def childByFieldName [DecidableEq φ] (cursor : Cursor κ φ) (name : φ) : Option (Cursor κ φ) :=
  cursor.children.find? (·.field = some name)

/-- The cursor is a node of the tree. -/
def ValidAt (tree node : Node κ φ) : List (Place κ φ) → Prop
  | [] => node = tree
  | place :: above =>
    (∃ field, place.parent.children[place.index]? = some ⟨field, node⟩) ∧
      ValidAt tree place.parent above

def Valid (tree : Node κ φ) (cursor : Cursor κ φ) : Prop := ValidAt tree cursor.node cursor.above

lemma mem_children_iff {cur child : Cursor κ φ} : child ∈ cur.children ↔
    ∃ idx field node, cur.node.children[idx]? = some ⟨field, node⟩ ∧ child = cur.down idx node := by
  rw [children, mem_iff_getElem?]
  simp only [getElem?_mapIdx, Option.map_eq_some_iff]
  constructor
  · rintro ⟨idx, ⟨field, node⟩, hchild, rfl⟩
    exact ⟨idx, field, node, hchild, rfl⟩
  · rintro ⟨idx, field, node, hchild, rfl⟩
    exact ⟨idx, ⟨field, node⟩, hchild, rfl⟩

lemma Valid.child {tree : Node κ φ} {cur child : Cursor κ φ} (h : cur.Valid tree)
    (hchild : child ∈ cur.children) : child.Valid tree := by
  obtain ⟨_, field, _, hnode, rfl⟩ := mem_children_iff.1 hchild
  exact ⟨⟨field, hnode⟩, h⟩

section Fields

variable [DecidableEq φ] {cur child : Cursor κ φ} {name : φ}

lemma mem_children_of_childByFieldName (h : cur.childByFieldName name = some child) :
    child ∈ cur.children :=
  mem_of_find?_eq_some h

end Fields

end Cursor

/-! ## Walks -/

namespace Node

variable {κ φ σ β : Type}

mutual

/-- The nodes that a walk meets, parents first and in the order of the source.  A walk does not
go below the nodes that satisfy `stop`. -/
def visited (stop : Node κ φ → Bool) (above : List (Place κ φ)) : Node κ φ → List (Cursor κ φ)
  | node@(mk _ _ _ _ children) =>
    ⟨above, node⟩ :: if stop node then [] else visitedIn stop above node 0 children

def visitedIn (stop : Node κ φ → Bool) (above : List (Place κ φ)) (parent : Node κ φ)
    (index : Nat) : List (Child φ (Node κ φ)) → List (Cursor κ φ)
  | [] => []
  | child :: rest =>
    visited stop (⟨parent, index⟩ :: above) child.node ++
      visitedIn stop above parent (index + 1) rest

end

mutual

/-- A walk that hands a state down and collects what the nodes emit. -/
def walk (stop : Node κ φ → Bool) (enter : σ → Cursor κ φ → Nat → σ)
    (emit : σ → Cursor κ φ → List β) (state : σ) (above : List (Place κ φ)) : Node κ φ → List β
  | node@(mk _ _ _ _ children) =>
    emit state ⟨above, node⟩ ++
      if stop node then [] else walkIn stop enter emit state ⟨above, node⟩ 0 children

def walkIn (stop : Node κ φ → Bool) (enter : σ → Cursor κ φ → Nat → σ)
    (emit : σ → Cursor κ φ → List β) (state : σ) (parent : Cursor κ φ) (index : Nat) :
    List (Child φ (Node κ φ)) → List β
  | [] => []
  | child :: rest =>
    walk stop enter emit (enter state parent index) (⟨parent.node, index⟩ :: parent.above)
        child.node ++
      walkIn stop enter emit state parent (index + 1) rest

end

/-- The state at the end of a path. -/
def stateAt (enter : σ → Cursor κ φ → Nat → σ) (state : σ) : List (Place κ φ) → σ
  | [] => state
  | place :: above => enter (stateAt enter state above) ⟨above, place.parent⟩ place.index

section Walk

variable (stop : Node κ φ → Bool) (enter : σ → Cursor κ φ → Nat → σ)
  (emit : σ → Cursor κ φ → List β) (state : σ)

mutual

/-- What a node emits depends only on its path. -/
lemma walk_eq (above : List (Place κ φ)) : ∀ node : Node κ φ,
    walk stop enter emit (stateAt enter state above) above node =
      (visited stop above node).flatMap fun cur => emit (stateAt enter state cur.above) cur
  | mk kind startByte endByte row children => by
    rw [walk, visited, flatMap_cons]
    congr 1
    split
    · rfl
    · exact walkIn_eq ⟨above, mk kind startByte endByte row children⟩ 0 children

lemma walkIn_eq (parent : Cursor κ φ) (idx : Nat) : ∀ children : List (Child φ (Node κ φ)),
    walkIn stop enter emit (stateAt enter state parent.above) parent idx children =
      (visitedIn stop parent.above parent.node idx children).flatMap
        fun cur => emit (stateAt enter state cur.above) cur
  | [] => rfl
  | child :: rest => by
    rw [walkIn, visitedIn, flatMap_append, walkIn_eq parent (idx + 1) rest]
    congr 1
    exact walk_eq (⟨parent.node, idx⟩ :: parent.above) child.node

end

end Walk

/-! ## The nodes of a tree -/

variable {stop : Node κ φ → Bool} {tree : Node κ φ} {cur : Cursor κ φ}

mutual

lemma valid_of_mem_visited {above : List (Place κ φ)} :
    ∀ {node : Node κ φ}, cur ∈ visited stop above node → Cursor.ValidAt tree node above →
      (∀ place ∈ above, stop place.parent = false) →
      cur.Valid tree ∧ ∀ place ∈ cur.above, stop place.parent = false
  | mk .. => by
    intro hmem hvalid habove
    rw [visited, mem_cons] at hmem
    rcases hmem with rfl | hmem
    · exact ⟨hvalid, habove⟩
    · split at hmem
      · cases hmem
      · next hstop =>
        exact valid_of_mem_visitedIn hmem (fun j => by rw [Nat.zero_add]; rfl) hvalid
          (by simpa using ⟨by simpa using hstop, habove⟩)

lemma valid_of_mem_visitedIn {above : List (Place κ φ)} {parent : Node κ φ} {idx : Nat} :
    ∀ {children : List (Child φ (Node κ φ))}, cur ∈ visitedIn stop above parent idx children →
      (∀ j, parent.children[idx + j]? = children[j]?) → Cursor.ValidAt tree parent above →
      (∀ place ∈ (⟨parent, idx⟩ : Place κ φ) :: above, stop place.parent = false) →
      cur.Valid tree ∧ ∀ place ∈ cur.above, stop place.parent = false
  | [] => by
    intro hmem
    cases hmem
  | child :: rest => by
    intro hmem hchildren hvalid habove
    rw [visitedIn, mem_append] at hmem
    rcases hmem with hmem | hmem
    · exact valid_of_mem_visited hmem ⟨⟨child.field, by simpa using hchildren 0⟩, hvalid⟩ habove
    · refine valid_of_mem_visitedIn hmem (fun j => ?_) hvalid (by simpa using habove)
      rw [Nat.add_assoc, Nat.add_comm 1 j, hchildren (j + 1), getElem?_cons_succ]

end

lemma mem_visited_self (above : List (Place κ φ)) :
    ∀ node : Node κ φ, ⟨above, node⟩ ∈ visited stop above node
  | mk .. => by
    rw [visited]
    exact mem_cons_self

variable {child : Child φ (Node κ φ)}

variable (stop) in
lemma child_mem_visitedIn (above : List (Place κ φ)) (parent : Node κ φ)
    {children : List (Child φ (Node κ φ))} (first : Nat) {j : Nat}
    (hchild : children[j]? = some child) :
    ⟨⟨parent, first + j⟩ :: above, child.node⟩ ∈ visitedIn stop above parent first children := by
  induction children generalizing first j with
  | nil => simp at hchild
  | cons head _ ih =>
    rw [visitedIn, mem_append]
    cases j with
    | zero =>
      obtain rfl : head = child := by simpa using hchild
      exact .inl (mem_visited_self _ _)
    | succ j =>
      have := ih (first + 1) (by simpa using hchild)
      rw [Nat.add_right_comm] at this
      exact .inr this

mutual

/-- A walk that meets a node and may go below it meets its children. -/
lemma down_mem_visited (hstop : stop cur.node = false) {idx : Nat}
    (hchild : cur.node.children[idx]? = some child) {above : List (Place κ φ)} :
    ∀ {node : Node κ φ},
    cur ∈ visited stop above node → cur.down idx child.node ∈ visited stop above node
  | mk kind startByte endByte row children => by
    intro hmem
    rw [visited, mem_cons] at hmem ⊢
    right
    rcases hmem with rfl | hmem
    · rw [if_neg (by simp [hstop])]
      have := child_mem_visitedIn stop above (mk kind startByte endByte row children) 0 hchild
      rwa [Nat.zero_add] at this
    · split at hmem
      · cases hmem
      · next hnode =>
        rw [if_neg hnode]
        exact down_mem_visitedIn hstop hchild hmem

lemma down_mem_visitedIn (hstop : stop cur.node = false) {idx : Nat}
    (hchild : cur.node.children[idx]? = some child) {above : List (Place κ φ)}
    {parent : Node κ φ} {first : Nat} :
    ∀ {children : List (Child φ (Node κ φ))}, cur ∈ visitedIn stop above parent first children →
      cur.down idx child.node ∈ visitedIn stop above parent first children
  | [] => by
    intro hmem
    cases hmem
  | head :: rest => by
    intro hmem
    rw [visitedIn, mem_append] at hmem ⊢
    exact hmem.imp (down_mem_visited hstop hchild) (down_mem_visitedIn hstop hchild)

end

/-- A walk meets exactly the nodes of the tree that it need not stop above. -/
lemma mem_visited_iff : cur ∈ tree.visited stop [] ↔
    cur.Valid tree ∧ ∀ place ∈ cur.above, stop place.parent = false := by
  constructor
  · intro h
    exact valid_of_mem_visited h rfl (by simp)
  · obtain ⟨above, node⟩ := cur
    intro ⟨hvalid, habove⟩
    induction above generalizing node with
    | nil =>
      obtain rfl : node = tree := hvalid
      exact mem_visited_self [] node
    | cons place above ih =>
      obtain ⟨⟨_, hchild⟩, hparent⟩ := hvalid
      exact down_mem_visited (habove place (by simp)) hchild
        (ih place.parent hparent (forall_mem_cons.1 habove).2)

/-! ## Byte ranges -/

mutual

/-- The ranges of the children follow each other inside the range of their parent. -/
def Spanned : Node κ φ → Prop
  | mk _ startByte endByte _ children => SpannedIn startByte endByte children

def SpannedIn (first last : Nat) : List (Child φ (Node κ φ)) → Prop
  | [] => first ≤ last
  | child :: rest =>
    first ≤ child.node.startByte ∧ Spanned child.node ∧ SpannedIn child.node.endByte last rest

end

mutual

def decideSpanned : (node : Node κ φ) → Decidable node.Spanned
  | mk _ startByte endByte _ children => decideSpannedIn startByte endByte children

def decideSpannedIn (first last : Nat) :
    (children : List (Child φ (Node κ φ))) → Decidable (SpannedIn first last children)
  | [] => inferInstanceAs (Decidable (first ≤ last))
  | child :: rest =>
    have := decideSpanned child.node
    have := decideSpannedIn child.node.endByte last rest
    inferInstanceAs (Decidable (_ ∧ _ ∧ _))

end

instance (node : Node κ φ) : Decidable node.Spanned := decideSpanned node

mutual

lemma Spanned.le : ∀ {node : Node κ φ}, node.Spanned → node.startByte ≤ node.endByte
  | mk .. => fun h => SpannedIn.le h

lemma SpannedIn.le {first last : Nat} : ∀ {children : List (Child φ (Node κ φ))},
    SpannedIn first last children → first ≤ last
  | [] => fun h => h
  | _ :: _ => fun ⟨hfirst, hchild, hrest⟩ => hfirst.trans (hchild.le.trans (SpannedIn.le hrest))

end

mutual

lemma Spanned.visited {above : List (Place κ φ)} :
    ∀ {node : Node κ φ}, node.Spanned → cur ∈ visited stop above node →
      node.startByte ≤ cur.startByte ∧ cur.node.Spanned ∧ cur.endByte ≤ node.endByte
  | mk _ startByte endByte .. => by
    intro hspan hmem
    rw [Node.visited, mem_cons] at hmem
    rcases hmem with rfl | hmem
    · exact ⟨le_rfl, hspan, le_rfl⟩
    · split at hmem
      · cases hmem
      · exact SpannedIn.visited hspan hmem

lemma SpannedIn.visited {above : List (Place κ φ)} {parent : Node κ φ} {idx first last : Nat} :
    ∀ {children : List (Child φ (Node κ φ))}, SpannedIn first last children →
      cur ∈ visitedIn stop above parent idx children →
      first ≤ cur.startByte ∧ cur.node.Spanned ∧ cur.endByte ≤ last
  | [] => by
    intro _ hmem
    cases hmem
  | child :: rest => by
    intro ⟨hfirst, hchild, hrest⟩ hmem
    rw [visitedIn, mem_append] at hmem
    rcases hmem with hmem | hmem
    · obtain ⟨hstart, hspan, hend⟩ := hchild.visited hmem
      exact ⟨hfirst.trans hstart, hspan, hend.trans hrest.le⟩
    · obtain ⟨hstart, hspan, hend⟩ := SpannedIn.visited hrest hmem
      exact ⟨hfirst.trans (hchild.le.trans hstart), hspan, hend⟩

end

lemma Spanned.valid (h : tree.Spanned) (hvalid : cur.Valid tree) :
    tree.startByte ≤ cur.startByte ∧ cur.node.Spanned ∧ cur.endByte ≤ tree.endByte := by
  have hmem : cur ∈ tree.visited (fun _ => false) [] :=
    mem_visited_iff.2 ⟨hvalid, fun _ _ => rfl⟩
  exact h.visited hmem

/-- The outermost nodes that satisfy a condition, in the order of the source. -/
def outermost (stop : Node κ φ → Bool) (tree : Node κ φ) : List (Cursor κ φ) :=
  (tree.visited stop []).filter (stop ·.node)

mutual

lemma Spanned.pairwise {above : List (Place κ φ)} : ∀ {node : Node κ φ}, node.Spanned →
    ((Node.visited stop above node).filter (stop ·.node)).Pairwise fun a b => a.endByte ≤ b.startByte
  | mk kind startByte endByte row children => by
    intro hspan
    rw [Node.visited]
    by_cases hstop : stop (mk kind startByte endByte row children)
    · simp [hstop]
    · rw [filter_cons, if_neg hstop, if_neg hstop]
      exact SpannedIn.pairwise hspan

lemma SpannedIn.pairwise {above : List (Place κ φ)} {parent : Node κ φ} {idx first last : Nat} :
    ∀ {children : List (Child φ (Node κ φ))}, SpannedIn first last children →
      ((visitedIn stop above parent idx children).filter (stop ·.node)).Pairwise
        fun a b => a.endByte ≤ b.startByte
  | [] => fun _ => .nil
  | child :: rest => by
    intro ⟨_, hchild, hrest⟩
    rw [visitedIn, filter_append, pairwise_append]
    refine ⟨hchild.pairwise, SpannedIn.pairwise hrest, fun a ha b hb => ?_⟩
    exact (hchild.visited (mem_of_mem_filter ha)).2.2.trans
      (SpannedIn.visited hrest (mem_of_mem_filter hb)).1

end

/-- Outermost nodes do not overlap. -/
lemma Spanned.pairwise_outermost (h : tree.Spanned) :
    (tree.outermost stop).Pairwise fun a b => a.endByte ≤ b.startByte :=
  h.pairwise

end Node

end Lint4d.Lib

import Mathlib

/-!
# Relations without cycles

How a relation may grow and stay without a cycle, and a measure that falls along
its edges.
-/

namespace Lint4d.Lib

open Relation

variable {α : Type*} {r r' : α → α → Prop} {x y a b : α}

def Acyclic (r : α → α → Prop) : Prop := ∀ a, ¬ TransGen r a a

/-- New edges may lead to nodes that have no edge. -/
lemma Acyclic.redirect (h : Acyclic r) (sinks : Set α)
    (hedge : ∀ a b, r' a b → r a b ∨ b ∈ sinks) (hsink : ∀ a ∈ sinks, ∀ b, ¬ r' a b) :
    Acyclic r' := by
  -- a path ends in a sink or is an old path, as it cannot go on from a sink
  have hpath : ∀ a b, TransGen r' a b → TransGen r a b ∨ b ∈ sinks := by
    intro a b hab
    induction hab with
    | single hab => exact (hedge _ _ hab).imp_left .single
    | @tail b c _ hbc ih =>
      rcases ih with hab | hb
      · exact (hedge b c hbc).imp_left hab.tail
      · exact absurd hbc (hsink b hb c)
  intro a hcycle
  rcases hpath a a hcycle with hold | ha
  · exact h a hold
  · obtain ⟨b, hab, _⟩ := TransGen.head'_iff.1 hcycle
    exact hsink a ha b hab

/-- A path may use the new edge `(x, y)`; after its last use it is an old path. -/
lemma transGen_of_add (hedge : ∀ a b, r' a b → r a b ∨ a = x ∧ b = y) (hab : TransGen r' a b) :
    TransGen r a b ∨ ReflTransGen r a x ∧ ReflTransGen r y b := by
  induction hab with
  | single hab =>
    rcases hedge _ _ hab with hold | ⟨rfl, rfl⟩
    · exact .inl (.single hold)
    · exact .inr ⟨.refl, .refl⟩
  | tail _ hbc ih =>
    rcases hedge _ _ hbc with hold | ⟨rfl, rfl⟩
    · exact ih.imp (·.tail hold) fun ⟨hax, hyb⟩ => ⟨hax, hyb.tail hold⟩
    · exact .inr ⟨ih.elim TransGen.to_reflTransGen And.left, .refl⟩

/-- An edge may be added unless its source is reached from its target. -/
lemma Acyclic.add (h : Acyclic r) (hedge : ∀ a b, r' a b → r a b ∨ a = x ∧ b = y)
    (hback : ¬ ReflTransGen r y x) : Acyclic r' := by
  intro a hcycle
  rcases transGen_of_add hedge hcycle with hold | ⟨hax, hya⟩
  · exact h a hold
  · exact hback (hya.trans hax)

open Classical in
/-- Along an edge fewer nodes are left to reach. -/
lemma Acyclic.card_reachable_lt (h : Acyclic r) {s : Finset α} (ha : a ∈ s) (hab : r a b) :
    (s.filter (ReflTransGen r b)).card < (s.filter (ReflTransGen r a)).card := by
  apply Finset.card_lt_card
  refine Finset.ssubset_iff_of_subset ?_ |>.2 ⟨a, Finset.mem_filter.2 ⟨ha, .refl⟩, ?_⟩
  · intro c hc
    obtain ⟨hcs, hbc⟩ := Finset.mem_filter.1 hc
    exact Finset.mem_filter.2 ⟨hcs, hbc.head hab⟩
  · intro hback
    exact h a (.head' hab (Finset.mem_filter.1 hback).2)

end Lint4d.Lib

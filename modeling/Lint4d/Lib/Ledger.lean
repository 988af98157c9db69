import Mathlib

/-!
# Ledgers of accepted items

Items are accepted one after the other and then wait.  From time to time the
oldest of those that wait are handed over, or some of those that wait are
discarded.  A ledger keeps every accepted item in the order of acceptance with
what became of it: a reference for queues that neither lose nor repeat nor
reorder what they have accepted.
-/

namespace Lint4d.Lib

open List

/-- What became of an accepted item. -/
inductive Fate where
  | waiting
  | sent
  | discarded
  deriving Repr, DecidableEq

abbrev Ledger (α : Type) := List (α × Fate)

namespace Ledger

variable {α : Type} {ledger : Ledger α}

/-- The items with one fate, oldest first. -/
def having (fate : Fate) (ledger : Ledger α) : List α :=
  (ledger.filter fun entry => entry.2 = fate).map Prod.fst

abbrev waiting (ledger : Ledger α) : List α := ledger.having .waiting

abbrev sent (ledger : Ledger α) : List α := ledger.having .sent

def accept (item : α) (ledger : Ledger α) : Ledger α := ledger ++ [(item, .waiting)]

/-- The oldest `count` items that wait are sent. -/
def handOver : Nat → Ledger α → Ledger α
  | 0, ledger => ledger
  | _ + 1, [] => []
  | count + 1, (item, .waiting) :: rest => (item, .sent) :: handOver count rest
  | count + 1, entry :: rest => entry :: handOver (count + 1) rest

/-- The items that wait and satisfy the condition are discarded. -/
def discard (p : α → Bool) (ledger : Ledger α) : Ledger α :=
  ledger.map fun entry => if entry.2 = .waiting ∧ p entry.1 then (entry.1, .discarded) else entry

/-- Nothing that waits was accepted before something that was sent. -/
def InOrder (ledger : Ledger α) : Prop :=
  ledger.Pairwise fun older newer => newer.2 = .sent → older.2 ≠ .waiting

@[simp]
lemma having_cons (fate : Fate) (entry : α × Fate) :
    having fate (entry :: ledger) =
      if entry.2 = fate then entry.1 :: having fate ledger else having fate ledger := by
  by_cases h : entry.2 = fate <;> simp [having, h]

lemma having_accept (fate : Fate) (item : α) :
    (ledger.accept item).having fate =
      if fate = .waiting then ledger.having fate ++ [item] else ledger.having fate := by
  cases fate <;> simp [accept, having]

lemma InOrder.accept (h : ledger.InOrder) (item : α) : (ledger.accept item).InOrder := by
  refine pairwise_append.2 ⟨h, pairwise_singleton _ _, ?_⟩
  intro older _ newer hnewer hsent
  rw [mem_singleton.1 hnewer] at hsent
  cases hsent

lemma waiting_handOver (count : Nat) (ledger : Ledger α) :
    (handOver count ledger).waiting = ledger.waiting.drop count := by
  fun_induction handOver count ledger with
  | case1 ledger | case2 count => rfl
  | case3 count _ rest ih => simpa using ih
  | case4 count entry rest hfate ih =>
    have hne : entry.2 ≠ .waiting := fun h => hfate entry.1 (Prod.ext rfl h)
    simpa [hne] using ih

/-- Behind an item that waits nothing has been sent. -/
lemma InOrder.sent_of_waiting {item : α} (h : InOrder ((item, .waiting) :: ledger)) :
    ledger.sent = [] := by
  rw [sent, having, map_eq_nil_iff, filter_eq_nil_iff]
  intro newer hnewer hsent
  exact (pairwise_cons.1 h).1 newer hnewer (of_decide_eq_true hsent) rfl

/-- In an ordered ledger the oldest waiting items go out, behind those sent. -/
lemma sent_handOver (count : Nat) (h : ledger.InOrder) :
    (handOver count ledger).sent = ledger.sent ++ ledger.waiting.take count := by
  fun_induction handOver count ledger with
  | case1 ledger => simp
  | case2 count => rfl
  | case3 count _ rest ih =>
    have hrest := ih h.of_cons
    simp only [having_cons, if_true, reduceCtorEq, if_false, take_succ_cons, hrest,
      h.sent_of_waiting, nil_append]
  | case4 count entry rest hfate ih =>
    have hne : entry.2 ≠ .waiting := fun h => hfate entry.1 (Prod.ext rfl h)
    have hrest := ih h.of_cons
    by_cases hsent : entry.2 = .sent <;> simp [hne, hsent, hrest]

lemma InOrder.handOver (h : ledger.InOrder) (count : Nat) : (handOver count ledger).InOrder := by
  fun_induction Ledger.handOver count ledger with
  | case1 ledger => exact h
  | case2 count => exact List.Pairwise.nil
  | case3 count _ rest ih =>
    refine pairwise_cons.2 ⟨?_, ih h.of_cons⟩
    intro newer _ _
    simp
  | case4 count entry rest hfate ih =>
    refine pairwise_cons.2 ⟨?_, ih h.of_cons⟩
    exact fun newer _ _ hwaiting => hfate entry.1 (Prod.ext rfl hwaiting)

lemma discard_cons (p : α → Bool) (entry : α × Fate) : discard p (entry :: ledger) =
    (if entry.2 = .waiting ∧ p entry.1 then (entry.1, .discarded) else entry) ::
      discard p ledger := rfl

/-- Discarding drops the chosen items among those that wait. -/
lemma waiting_discard (p : α → Bool) :
    (ledger.discard p).waiting = ledger.waiting.filter fun item => !p item := by
  induction ledger with
  | nil => rfl
  | cons entry ledger =>
    obtain ⟨item, fate⟩ := entry
    rw [discard_cons]
    cases fate <;> cases hp : p item <;> simp_all

lemma sent_discard (p : α → Bool) : (ledger.discard p).sent = ledger.sent := by
  induction ledger with
  | nil => rfl
  | cons entry ledger =>
    obtain ⟨item, fate⟩ := entry
    rw [discard_cons]
    cases fate <;> cases hp : p item <;> simp_all

lemma InOrder.discard (h : ledger.InOrder) (p : α → Bool) : (ledger.discard p).InOrder := by
  refine pairwise_map.2 (h.imp ?_)
  intro older newer hor
  split_ifs <;> simp_all

end Ledger

end Lint4d.Lib

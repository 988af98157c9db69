import Lint4d.Lsp.Outbound

/-!
# The queue of analysis jobs

Three classes of jobs, each first in, first out.  Interactive jobs go first, but a burst of
them ends when lower work waits, and a burst of diagnostics when bulk work waits.  A worker
that leaves the diagnostics in place does not count them as waiting: its pops start the
burst of interactive jobs anew, and the diagnostics can wait forever.
-/

namespace Lint4d.Lsp

open List

inductive AnalysisPriority where
  | interactive
  | diagnostics
  | bulk
deriving DecidableEq

def maxInteractiveBurst : Nat := 3

def maxDiagnosticBurst : Nat := 2

structure WorkerAdmission where
  interactiveOnly : Bool
  diagnostics : Bool

structure PriorityQueue (T : Type) where
  items : AnalysisPriority → List T
  interactiveBurst : Nat
  diagnosticBurst : Nat

namespace PriorityQueue

variable {T : Type}

def new : PriorityQueue T := ⟨fun _ => [], 0, 0⟩

def setItems (queue : PriorityQueue T) (priority : AnalysisPriority) (items : List T) :
    PriorityQueue T :=
  { queue with items := Function.update queue.items priority items }

def push (queue : PriorityQueue T) (priority : AnalysisPriority) (item : T) : PriorityQueue T :=
  queue.setItems priority (queue.items priority ++ [item])

def diagnosticsPending (queue : PriorityQueue T) (worker : WorkerAdmission) : Bool :=
  worker.diagnostics && !(queue.items .diagnostics).isEmpty

def lowerPending (queue : PriorityQueue T) (worker : WorkerAdmission) : Bool :=
  queue.diagnosticsPending worker || !(queue.items .bulk).isEmpty

/-- The class a worker takes from. -/
def priorityFor (queue : PriorityQueue T) (worker : WorkerAdmission) : AnalysisPriority :=
  if worker.interactiveOnly || !(queue.items .interactive).isEmpty &&
      (!queue.lowerPending worker || queue.interactiveBurst < maxInteractiveBurst) then
    .interactive
  else if queue.diagnosticsPending worker &&
      ((queue.items .bulk).isEmpty || queue.diagnosticBurst < maxDiagnosticBurst) then
    .diagnostics
  else if !(queue.items .bulk).isEmpty then .bulk else .interactive

/-- The bursts after a job of a class was taken. -/
def countBurst (queue : PriorityQueue T) (worker : WorkerAdmission) :
    AnalysisPriority → PriorityQueue T
  | .interactive =>
    { queue with
      interactiveBurst :=
        if queue.lowerPending worker then saturatingAdd queue.interactiveBurst 1 else 0 }
  | .diagnostics =>
    { queue with
      interactiveBurst := 0
      diagnosticBurst :=
        if (queue.items .bulk).isEmpty then 0 else saturatingAdd queue.diagnosticBurst 1 }
  | .bulk => { queue with interactiveBurst := 0, diagnosticBurst := 0 }

def popForWorkerWith (queue : PriorityQueue T) (worker : WorkerAdmission) :
    Option T × PriorityQueue T :=
  let priority := queue.priorityFor worker
  match queue.items priority with
  | [] => (none, queue)
  | item :: rest => (some item, (queue.countBurst worker priority).setItems priority rest)

/-- The first class with a job that satisfies the predicate, and the place of the job in it. -/
def position (queue : PriorityQueue T) (predicate : T → Bool) : Option (AnalysisPriority × Nat) :=
  [.interactive, .diagnostics, .bulk].findSome? fun priority =>
    ((queue.items priority).findIdx? predicate).map (priority, ·)

def removeFirst (queue : PriorityQueue T) (predicate : T → Bool) : PriorityQueue T :=
  match queue.position predicate with
  | none => queue
  | some (priority, index) => queue.setItems priority ((queue.items priority).eraseIdx index)

/-! ## Runs -/

inductive Op (T : Type) where
  | push (priority : AnalysisPriority) (item : T)
  | remove (predicate : T → Bool)
  | pop (worker : WorkerAdmission)

def apply (queue : PriorityQueue T) : Op T → PriorityQueue T
  | .push priority item => queue.push priority item
  | .remove predicate => queue.removeFirst predicate
  | .pop worker => (queue.popForWorkerWith worker).2

def run (queue : PriorityQueue T) (ops : List (Op T)) : PriorityQueue T := ops.foldl apply queue

/-- The jobs of a class that an operation adds. -/
def pushed (priority : AnalysisPriority) : Op T → List T
  | .push other item => if other = priority then [item] else []
  | _ => []

/-- The jobs of a class that a worker gets. -/
def popped (queue : PriorityQueue T) (priority : AnalysisPriority) : Op T → List T
  | .pop worker =>
    if queue.priorityFor worker = priority then (queue.popForWorkerWith worker).1.toList else []
  | _ => []

def poppedAll (priority : AnalysisPriority) : PriorityQueue T → List (Op T) → List T
  | _, [] => []
  | queue, op :: ops => queue.popped priority op ++ poppedAll priority (queue.apply op) ops

/-- The class and the place of the job that an operation takes out. -/
def taken (queue : PriorityQueue T) : Op T → Option (AnalysisPriority × Nat)
  | .push _ _ => none
  | .remove predicate => queue.position predicate
  | .pop worker =>
    if queue.items (queue.priorityFor worker) = [] then none else (queue.priorityFor worker, 0)

/-- The place of a job of a class after an operation, if it still waits. -/
def place (queue : PriorityQueue T) (priority : AnalysisPriority) (before : Nat) (op : Op T) :
    Option Nat :=
  match queue.taken op with
  | none => some before
  | some (other, index) =>
    if other ≠ priority ∨ before < index then some before
    else if before = index then none else some (before - 1)

def waitsAt (priority : AnalysisPriority) : PriorityQueue T → List (Op T) → Nat → Option Nat
  | _, [], before => some before
  | queue, op :: ops, before =>
    (queue.place priority before op).bind (waitsAt priority (queue.apply op) ops)

def isUnrestrictedPop : Op T → Bool
  | .pop worker => !worker.interactiveOnly && worker.diagnostics
  | _ => false

/-- A pop counts the diagnostics that wait. -/
def SeesDiagnostics : Op T → Prop
  | .pop worker => worker.diagnostics = true
  | _ => True

variable {queue : PriorityQueue T} {priority : AnalysisPriority} {before after : Nat} {op : Op T}
  {ops : List (Op T)}

@[simp] lemma items_countBurst (worker : WorkerAdmission) :
    (queue.countBurst worker priority).items = queue.items := by
  cases priority <;> rfl

@[grind =] lemma items_setItems (other : AnalysisPriority) (items : List T) :
    (queue.setItems other items).items priority =
      if priority = other then items else queue.items priority :=
  Function.update_apply ..

/-- An operation takes out one job or adds one. -/
lemma items_apply (queue : PriorityQueue T) (op : Op T) (priority : AnalysisPriority) :
    (queue.apply op).items priority = (match queue.taken op with
      | none => queue.items priority
      | some (other, index) =>
        if other = priority then (queue.items priority).eraseIdx index
        else queue.items priority) ++ pushed priority op := by
  cases op with
  | push other item => grind [apply, push, taken, pushed]
  | remove predicate => grind [apply, removeFirst, taken, pushed]
  | pop worker => grind [apply, popForWorkerWith, taken, pushed, items_countBurst]

/-! ## Order -/

lemma popped_sublist (queue : PriorityQueue T) (op : Op T) :
    queue.popped priority op ++ (queue.apply op).items priority <+
      queue.items priority ++ pushed priority op := by
  rw [items_apply, ← append_assoc]
  refine Sublist.append_right ?_ _
  cases op with
  | push other item => exact .refl _
  | remove predicate =>
    simp only [popped, taken, nil_append]
    grind
  | pop worker => grind [popped, taken, popForWorkerWith]

lemma poppedAll_sublist (queue : PriorityQueue T) (ops : List (Op T)) :
    poppedAll priority queue ops ++ (queue.run ops).items priority <+
      queue.items priority ++ ops.flatMap (pushed priority) := by
  induction ops generalizing queue with
  | nil => simp [poppedAll, run]
  | cons op ops ih =>
    rw [poppedAll, flatMap_cons, append_assoc, ← append_assoc (queue.items priority)]
    refine ((ih (queue.apply op)).append_left _).trans ?_
    rw [← append_assoc]
    exact (popped_sublist queue op).append_right _

/-! ## Waiting -/

/-- The jobs of the other lower class that can go before one of this class. -/
def turns : AnalysisPriority → Nat → Nat
  | .bulk, burst => maxDiagnosticBurst - burst
  | _, burst => if burst < maxDiagnosticBurst then 0 else 1

/-- The pops of unrestricted workers that a job can have to wait for. -/
def patience (queue : PriorityQueue T) (priority : AnalysisPriority) (before : Nat) : Nat :=
  (before * (maxDiagnosticBurst + 1) + turns priority queue.diagnosticBurst) *
    (maxInteractiveBurst + 1) + (maxInteractiveBurst - queue.interactiveBurst) + 1

section Step

variable (hbefore : before < (queue.items priority).length)
  (hplace : queue.place priority before op = some after)

include hbefore hplace

/-- The job that waits is the same one at its new place. -/
lemma place_items :
    ((queue.apply op).items priority)[after]? = (queue.items priority)[before]? := by
  rw [items_apply]
  unfold place at hplace
  grind

/-- An unrestricted pop uses up patience, and no other operation adds to it. -/
lemma patience_step (hlow : priority ≠ .interactive)
    (hsees : priority = .bulk ∨ SeesDiagnostics op) :
    (queue.apply op).patience priority after + (isUnrestrictedPop op).toNat ≤
      queue.patience priority before := by
  unfold place at hplace
  cases op with
  | push other item =>
    cases hplace
    exact le_rfl
  | remove predicate =>
    grind [taken, apply, removeFirst, patience, setItems, isUnrestrictedPop, maxInteractiveBurst,
      maxDiagnosticBurst]
  | pop worker =>
    simp only [taken, apply, popForWorkerWith] at hplace ⊢
    -- an interactive job shortens the burst, a job of the other lower class the turns, a
    -- job of the same class the queue
    rcases worker with ⟨_ | _, _ | _⟩ <;> cases priority <;>
      grind [priorityFor, lowerPending, diagnosticsPending, countBurst, setItems, saturatingAdd,
        SeesDiagnostics, isUnrestrictedPop, patience, turns, maxInteractiveBurst,
        maxDiagnosticBurst]

end Step

lemma patience_run (hbefore : before < (queue.items priority).length)
    (hwaits : waitsAt priority queue ops before = some after) (hlow : priority ≠ .interactive)
    (hsees : priority = .bulk ∨ ∀ op ∈ ops, SeesDiagnostics op) :
    ((queue.run ops).items priority)[after]? = (queue.items priority)[before]? ∧
      (queue.run ops).patience priority after + ops.countP isUnrestrictedPop ≤
        queue.patience priority before := by
  induction ops generalizing queue before with
  | nil =>
    cases hwaits
    exact ⟨rfl, le_rfl⟩
  | cons op ops ih =>
    obtain ⟨next, hplace, hwaits⟩ := Option.bind_eq_some_iff.1 hwaits
    have hitems := place_items hbefore hplace
    have hstep := patience_step hbefore hplace hlow (hsees.imp_right fun h => h op mem_cons_self)
    have hnext : next < ((queue.apply op).items priority).length := by grind
    obtain ⟨hsame, hrest⟩ :=
      ih hnext hwaits (hsees.imp_right fun h op hop => h op (mem_cons_of_mem _ hop))
    refine ⟨hsame.trans hitems, ?_⟩
    change ((queue.apply op).run ops).patience priority after + _ ≤ _
    grind

/-- Jobs of a class leave in the order they came.  A job that waits in a lower class is given
out in time, provided the pops made while diagnostics wait see them. -/
theorem waiting_bounded (queue : PriorityQueue T) (ops : List (Op T)) :
    (∀ priority, poppedAll priority queue ops ++ (queue.run ops).items priority <+
      queue.items priority ++ ops.flatMap (pushed priority)) ∧
    ∀ priority before after, priority ≠ .interactive → before < (queue.items priority).length →
      (priority = .bulk ∨ ∀ op ∈ ops, SeesDiagnostics op) →
      waitsAt priority queue ops before = some after →
      ((queue.run ops).items priority)[after]? = (queue.items priority)[before]? ∧
        ops.countP isUnrestrictedPop <
          (before + 1) * (maxInteractiveBurst + 1) * (maxDiagnosticBurst + 1) := by
  refine ⟨fun _ => poppedAll_sublist queue ops, ?_⟩
  intro priority before after hlow hbefore hsees hwaits
  obtain ⟨hsame, hpatience⟩ := patience_run hbefore hwaits hlow hsees
  refine ⟨hsame, ?_⟩
  simp only [patience, maxInteractiveBurst, maxDiagnosticBurst] at hpatience ⊢
  have hturns : turns priority queue.diagnosticBurst ≤ 2 := by
    unfold turns maxDiagnosticBurst
    split <;> grind
  omega

/-- Interactive jobs keep coming; every other one goes to a worker for interactive jobs only. -/
def interactiveStream (count : Nat) : List (Op Nat) :=
  (replicate count [.push .interactive 1, .pop ⟨false, true⟩, .push .interactive 2,
    .pop ⟨true, false⟩]).flatten

theorem waiting_bounded_bulk :
    waitsAt .bulk (new.push .bulk 0) (interactiveStream 2) 0 = some 0 ∧
      (interactiveStream 2).countP isUnrestrictedPop <
        (0 + 1) * (maxInteractiveBurst + 1) * (maxDiagnosticBurst + 1) := by
  have hwaits : waitsAt .bulk (new.push .bulk 0) (interactiveStream 2) 0 = some 0 := by decide
  exact ⟨hwaits, ((waiting_bounded (new.push .bulk 0) (interactiveStream 2)).2 .bulk 0 0
    (by decide) (by decide) (.inl rfl) hwaits).2⟩

/-- A diagnostics job still waits when its bound has passed. -/
theorem diagnostics_starve :
    waitsAt .diagnostics (new.push .diagnostics 0) (interactiveStream 12) 0 = some 0 ∧
      (0 + 1) * (maxInteractiveBurst + 1) * (maxDiagnosticBurst + 1) ≤
        (interactiveStream 12).countP isUnrestrictedPop := by
  decide

end PriorityQueue

end Lint4d.Lsp

import Lint4d.Lib.Acyclic
import Lint4d.ProjectCache.ClaimRuns

/-!
# Waiting threads never form a cycle

A thread that waits for a slot waits for the thread that computes it.  A lookup
follows these waits before it adds its own, and the number of waits bounds how
far it has to follow them: it refuses exactly the wait that would close a cycle.
-/

namespace Lint4d.ProjectCache

open Relation Lib State

variable {C V : Type} {threads : Set Nat}

/-! ## Who waits for whom -/

namespace State

variable {cache cache' : State C V} {thread : Nat} {key : Key}
  {waiter turns current : Nat}

/-- The first thread waits for a slot that the second one computes. -/
def Waits (cache : State C V) (waiter owner : Nat) : Prop :=
  ∃ key, cache.waiting.lookup waiter = some key ∧ cache.computingThread key = some owner

lemma lookup_wake (waiter : Nat) : (cache.wake thread).waiting.lookup waiter =
    if waiter = thread then none else cache.waiting.lookup waiter := by
  unfold wake
  induction cache.waiting with
  | nil => simp
  | cons => grind

lemma lookup_addWait (waiter : Nat) :
    (cache.addWait thread key).waiting.lookup waiter =
      if waiter = thread then some key else cache.waiting.lookup waiter := by
  have hrest : (cache.wake thread).waiting.lookup waiter = _ := lookup_wake waiter
  grind [addWait, wake]

lemma waits_addWait (waiter owner : Nat) :
    (cache.addWait thread key).Waits waiter owner ↔
      if waiter = thread then cache.computingThread key = some owner
      else cache.Waits waiter owner := by
  simp only [Waits, lookup_addWait]
  by_cases heq : waiter = thread <;> simp [heq, addWait, computingThread]

/-! ## The search for a cycle -/

lemma waitClosesCycleFrom_succ (waiter turns current : Nat) :
    cache.waitClosesCycleFrom waiter (turns + 1) current = true ↔ current = waiter ∨
      ∃ owner, cache.Waits current owner ∧ cache.waitClosesCycleFrom waiter turns owner = true := by
  unfold Waits computingThread
  rw [waitClosesCycleFrom]
  grind

lemma reaches_of_waitClosesCycleFrom (h : cache.waitClosesCycleFrom waiter turns current = true) :
    ReflTransGen cache.Waits current waiter := by
  induction turns generalizing current with
  | zero => simp [waitClosesCycleFrom] at h
  | succ turns ih =>
    rcases (waitClosesCycleFrom_succ waiter turns current).1 h with rfl | ⟨_, hwaits, hfrom⟩
    · exact .refl
    · exact (ih hfrom).head hwaits

open Classical in
/-- With more turns than there are waiters to reach, the search gets to the end. -/
lemma waitClosesCycleFrom_of_reaches (hacyclic : Acyclic cache.Waits)
    (hreaches : ReflTransGen cache.Waits current waiter)
    (hturns : ((cache.waiting.map (·.1)).toFinset.filter
      (ReflTransGen cache.Waits current)).card < turns) :
    cache.waitClosesCycleFrom waiter turns current = true := by
  induction turns generalizing current with
  | zero => simp at hturns
  | succ turns ih =>
    rw [waitClosesCycleFrom_succ]
    rcases hreaches.cases_head with heq | ⟨owner, hwaits, howner⟩
    · exact .inl heq
    · have hlisted : current ∈ (cache.waiting.map (·.1)).toFinset := by
        obtain ⟨_, hkey, _⟩ := hwaits
        obtain ⟨_, _, hwait, _⟩ := List.lookup_eq_some_iff.1 hkey
        simp [hwait]
      have hfewer := hacyclic.card_reachable_lt hlisted hwaits
      exact .inr ⟨owner, hwaits, ih howner (by omega)⟩

open Classical in
lemma waitClosesCycle_iff (hacyclic : Acyclic cache.Waits) (waiter owner : Nat) :
    cache.waitClosesCycle waiter owner = true ↔ ReflTransGen cache.Waits owner waiter := by
  constructor
  · exact reaches_of_waitClosesCycleFrom
  · intro hreaches
    apply waitClosesCycleFrom_of_reaches hacyclic hreaches
    apply Nat.lt_succ_of_le
    calc _ ≤ (cache.waiting.map (·.1)).toFinset.card := Finset.card_filter_le _ _
      _ ≤ (cache.waiting.map (·.1)).length := List.toFinset_card_le _
      _ = cache.waiting.length := List.length_map _

lemma owner_of_keeps (h : Keeps threads cache.slots cache'.slots) (key : Key) (thread : Nat)
    (hthread : cache'.computingThread key = some thread) :
    cache.computingThread key = some thread ∨ thread ∈ threads := by
  unfold computingThread at hthread ⊢
  rcases h key with hsame | hnone | ⟨_, _, _, owner, hslot, hmem⟩
  · exact .inl (hsame ▸ hthread)
  · simp [hnone] at hthread
  · obtain rfl : owner.thread = thread := by simpa [hslot] using hthread
    exact .inr hmem

end State

/-! ## Runs -/

namespace World

variable {world : World C V} {world' : World C V}

/-- Only a thread whose lookup waits is listed as waiting, and no wait closes a cycle. -/
structure Ordered (world : World C V) : Prop where
  listed : ∀ thread key, world.cache.waiting.lookup thread = some key →
    ∃ request, world.phases thread = .waiting request
  acyclic : Acyclic world.cache.Waits

/-- Threads that do not wait may take slots and go on with their lookups. -/
lemma Ordered.moved (h : world.Ordered) (hwait : world'.cache.waiting = world.cache.waiting)
    (howner : ∀ key thread, world'.cache.computingThread key = some thread →
      world.cache.computingThread key = some thread ∨ thread ∈ threads)
    (hnone : ∀ thread ∈ threads, world.cache.waiting.lookup thread = none)
    (hphases : ∀ thread ∉ threads, world'.phases thread = world.phases thread) :
    world'.Ordered := by
  refine ⟨fun thread key hkey => ?_, h.acyclic.redirect threads ?_ ?_⟩
  · rw [hwait] at hkey
    have hout : thread ∉ threads := by
      intro hmem
      simp [hnone thread hmem] at hkey
    rw [hphases thread hout]
    exact h.listed thread key hkey
  · rintro waiter owner ⟨key, hkey, hkeyOwner⟩
    rw [hwait] at hkey
    exact (howner key owner hkeyOwner).imp_left fun hold => ⟨key, hkey, hold⟩
  · rintro waiter hmem owner ⟨key, hkey, _⟩
    rw [hwait, hnone waiter hmem] at hkey
    cases hkey

lemma Ordered.released (h : world.Ordered) (hphases : world'.phases = world.phases)
    (hwait : world'.cache.waiting = world.cache.waiting)
    (hkeeps : Keeps ∅ world.cache.slots world'.cache.slots) : world'.Ordered :=
  h.moved hwait (owner_of_keeps hkeeps) (by simp) fun thread _ => congrFun hphases thread

lemma Ordered.not_listed (h : world.Ordered) (thread : Nat)
    (hphase : ∀ request, world.phases thread ≠ .waiting request) :
    world.cache.waiting.lookup thread = none := by
  apply Option.eq_none_iff_forall_ne_some.2
  intro key hkey
  obtain ⟨request, hwait⟩ := h.listed thread key hkey
  exact hphase request hwait

lemma Ordered.settle (h : world.Ordered) {thread : Nat} {request : Request C}
    {result : State C V × Outcome C V} (hnone : world.cache.waiting.lookup thread = none)
    (hturns : world.cache.Turns thread request result) :
    (world.settle thread request result).Ordered := by
  obtain ⟨cache, outcome⟩ := result
  have hphases : ∀ other ∉ ({thread} : Set Nat),
      (world.settle thread request (cache, outcome)).phases other = world.phases other := by
    intro other hother
    cases outcome <;> exact Function.update_of_ne hother _ _
  cases outcome with
  | wait =>
    obtain ⟨rfl, owner, hcomputing, hfree⟩ := hturns.waits
    constructor
    · intro other key hkey
      by_cases heq : other = thread
      · exact ⟨request, by simp [World.settle, setPhase, heq]⟩
      · have hold : world.cache.waiting.lookup other = some key := by
          rw [World.settle, setPhase, lookup_addWait] at hkey
          simpa [heq] using hkey
        simpa [World.settle, setPhase, heq] using h.listed other key hold
    · -- the search followed every wait from the owner on and did not meet the thread
      have hback := mt (waitClosesCycle_iff h.acyclic _ _).2 (Bool.eq_false_iff.1 hfree)
      refine h.acyclic.add (fun waiter waited hwaits => ?_) hback
      rw [World.settle, setPhase, waits_addWait] at hwaits
      split_ifs at hwaits with heq
      · exact .inr ⟨heq, by simpa [hcomputing, eq_comm] using hwaits⟩
      · exact .inl hwaits
  | _ => exact h.moved hturns.waits (owner_of_keeps hturns.keeps) (by simpa using hnone) hphases

section Runs

variable [DecidableEq C] [DecidableEq V]

lemma Ordered.step (h : world.Ordered) (event : Event C V) : (world.step event).Ordered := by
  cases event with
  | start thread =>
    rw [World.step]
    split
    · next hphase =>
      split_ifs
      · have hnone := h.not_listed thread (by simp [hphase])
        exact h.moved rfl (owner_of_keeps (.refl {thread})) (by simpa using hnone)
          fun other hother => Function.update_of_ne hother _ _
      · exact h
    · exact h
  | turn thread now =>
    rw [World.step]
    split
    · next hphase => exact h.settle (h.not_listed thread (by simp [hphase])) (turns_lookupTurn now)
    · exact h
  | wake thread =>
    rw [World.step]
    split
    · -- the woken thread leaves the graph: no edge is new
      constructor
      · intro other key hkey
        rw [setPhase, lookup_wake] at hkey
        split_ifs at hkey with heq
        simpa [setPhase, heq] using h.listed other key hkey
      · refine h.acyclic.redirect ∅ ?_ (by simp)
        rintro _ _ ⟨key, hkey, howner⟩
        rw [setPhase, lookup_wake] at hkey
        split_ifs at hkey
        exact .inl ⟨key, hkey, howner⟩
    · exact h
  | recheck thread =>
    rw [World.step]
    split
    · next hphase =>
      exact h.settle (h.not_listed thread (by simp [hphase])) (lookupRecheck_spec _ _).1
    · exact h
  | store held value cancel =>
    rw [World.step]
    split_ifs
    · rcases world.cache.store_cases held.claim value cancel with heq | ⟨_, _, _, _, _, heq⟩
      · simpa only [heq] using h
      · rw [heq]
        refine h.moved rfl (fun key thread hthread => .inl ?_)
          (fun thread hmem => absurd hmem (Set.notMem_empty thread)) fun _ _ => rfl
        by_cases hkey : key = held.claim.key
        · simp [computingThread, hkey] at hthread
        · simpa [computingThread, hkey] using hthread
    · exact h
  | drop held =>
    rw [World.step]
    split_ifs
    · rcases world.cache.dropClaim_cases held.claim with heq | ⟨_, _, heq⟩
      · rw [heq]
        exact h.released rfl rfl (.refl ∅)
      · rw [heq]
        exact h.released rfl rfl (keeps_empty ∅ _)
    · exact h
  -- no computing entry changes hands in the rest
  | evict key =>
    obtain ⟨_, hrem, hkeeps⟩ := removeReady_eq world.cache key
    rw [World.step, hrem]
    exact h.released rfl rfl (hkeeps ∅)
  | invalidatePath relevant doomed =>
    cases relevant <;> exact h.released rfl rfl (keeps_removeDoomed doomed)
  | overflow => exact h.released rfl rfl (keeps_removeDoomed _)
  | retain keep => exact h.released rfl rfl (keeps_retainFingerprints keep)
  | recover => exact h.released rfl rfl fun _ => .inr (.inl rfl)

lemma ordered_run (events : List (Event C V)) : (initial.run events : World C V).Ordered := by
  have hrun : ∀ world : World C V, world.Ordered → (world.run events).Ordered := by
    induction events with
    | nil => exact fun _ h => h
    | cons event events ih => exact fun world h => ih _ (h.step event)
  refine hrun _ ⟨by simp [initial], fun thread hcycle => ?_⟩
  obtain ⟨_, ⟨_, hkey, _⟩, _⟩ := TransGen.head'_iff.1 hcycle
  simp [initial] at hkey

/-- In no run do threads wait for each other in a cycle, and a wait that the search refuses would
close one. -/
theorem threads_never_wait_in_a_cycle (events : List (Event C V)) :
    let world : World C V := initial.run events
    (∀ thread, ¬ TransGen world.cache.Waits thread thread) ∧
    ∀ thread request owner, world.phases thread = .looking request →
      world.cache.computingThread request.key = some owner →
      world.cache.waitClosesCycle thread owner = true →
      TransGen (world.cache.addWait thread request.key).Waits thread thread := by
  intro world
  have hordered : world.Ordered := ordered_run events
  refine ⟨hordered.acyclic, fun thread request owner hphase howner hcloses => ?_⟩
  have hnone := hordered.not_listed thread (by simp [hphase])
  -- a thread that looks does not wait yet, so that its new wait replaces none
  have hmore : ∀ waiter waited, world.cache.Waits waiter waited →
      (world.cache.addWait thread request.key).Waits waiter waited := by
    intro waiter waited hwaits
    have hne : waiter ≠ thread := by
      rintro rfl
      obtain ⟨key, hkey, _⟩ := hwaits
      simp [hnone] at hkey
    simpa [waits_addWait, hne] using hwaits
  have hedge : (world.cache.addWait thread request.key).Waits thread owner := by
    simpa [waits_addWait] using howner
  exact .head' hedge (ReflTransGen.mono hmore _ _ (reaches_of_waitClosesCycleFrom hcloses))

open Classical in
/-- Whoever waits, the waits lead to a thread that waits for no other. -/
theorem waits_lead_to_runner (events : List (Event C V)) (thread : Nat) :
    let cache := (initial.run events : World C V).cache
    ∃ runner, ReflTransGen cache.Waits thread runner ∧ ∀ owner, ¬ cache.Waits runner owner := by
  intro cache
  have hacyclic : Acyclic cache.Waits := (ordered_run events).acyclic
  -- along a wait fewer of the listed threads are left to reach
  induction hleft : ((cache.waiting.map (·.1)).toFinset.filter
      (ReflTransGen cache.Waits thread)).card using Nat.strong_induction_on generalizing thread with
  | _ left ih =>
    by_cases hwaits : ∃ owner, cache.Waits thread owner
    · obtain ⟨owner, hwaits⟩ := hwaits
      have hlisted : thread ∈ (cache.waiting.map (·.1)).toFinset := by
        obtain ⟨_, hkey, -⟩ := hwaits
        obtain ⟨_, _, hwait, -⟩ := List.lookup_eq_some_iff.1 hkey
        simp [hwait]
      have hfewer := hacyclic.card_reachable_lt hlisted hwaits
      obtain ⟨runner, hreaches, hruns⟩ := ih _ (hleft ▸ hfewer) owner rfl
      exact ⟨runner, hreaches.head hwaits, hruns⟩
    · exact ⟨thread, .refl, not_exists.1 hwaits⟩

end Runs

def importsRequest : Request Unit := { unitRequest with key := ⟨.imports, "file:///a.pas", 0⟩ }

/-- Thread 0 computes the unit; thread 1 computes the imports and waits for the unit. -/
def crossedLookups : List (Event Unit Unit) :=
  claimUnit ++
  [.start 1 importsRequest, .turn 1 (flagsSet false), .start 1 unitRequest, .turn 1 (flagsSet false),
    .start 0 importsRequest]

theorem threads_never_wait_in_a_cycle_crossed :
    TransGen ((initial.run crossedLookups : World Unit Unit).cache.addWait 0
      importsRequest.key).Waits 0 0 :=
  (threads_never_wait_in_a_cycle crossedLookups).2 0 importsRequest 1 rfl (by decide +kernel)
    (by decide +kernel)

end World

end Lint4d.ProjectCache

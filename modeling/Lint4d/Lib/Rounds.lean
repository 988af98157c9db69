import Mathlib

/-!
# Equations solved in rounds

A system of equations `s i = F i s` is solved in place: a round visits the
unknowns in some order and stores the new value of each that has changed.  An
unknown without a value is below every value.

A round that changes nothing has reached a solution.  When the right-hand sides
are monotone and the unknowns start without values, rounds only go up and stay
below every solution, so that the order of the visits does not matter once a
round changes nothing.  When each unknown only depends on unknowns later in
some order, one pass over that order from its end solves the system.
-/

namespace Lint4d.Lib.Rounds

open List

variable {ι σ : Type} [DecidableEq ι] {n : Nat} {js : List ι}

/-- The values found so far. -/
abbrev State (ι σ : Type) := ι → Option σ

/-- Store the right-hand side of one equation. -/
def visit (F : ι → State ι σ → σ) (i : ι) (s : State ι σ) : State ι σ :=
  Function.update s i (some (F i s))

variable {F : ι → State ι σ → σ} {s t : State ι σ} {i j : ι} {is : List ι}

@[simp] lemma visit_self : visit F i s i = some (F i s) := Function.update_self i _ s

lemma visit_of_ne (h : j ≠ i) : visit F i s j = s j := Function.update_of_ne h _ s

/-- The equations of the unknowns in `is` hold. -/
def Solves (F : ι → State ι σ → σ) (is : List ι) (s : State ι σ) : Prop :=
  ∀ i ∈ is, s i = some (F i s)

/-! ## One pass against the dependencies -/

/-- Every unknown depends only on later ones. -/
def Topological (depends : ι → ι → Prop) : List ι → Prop
  | [] => True
  | i :: later => (∀ j, depends i j → j ∈ later) ∧ i ∉ later ∧ Topological depends later

/-- The right-hand sides only read the unknowns they depend on. -/
def Reads (F : ι → State ι σ → σ) (depends : ι → ι → Prop) : Prop :=
  ∀ i s t, (∀ j, depends i j → s j = t j) → F i s = F i t

/-- Visit the unknowns that have an equation, from the last to the first. -/
def pass (F : ι → State ι σ → σ) (has : ι → Bool) (order : List ι) (s : State ι σ) : State ι σ :=
  order.foldr (fun i s => if has i then visit F i s else s) s

variable {depends : ι → ι → Prop} {has : ι → Bool} {order : List ι}

omit [DecidableEq ι] in
lemma Topological.depends_mem (h : Topological depends order) (hi : i ∈ order)
    (hij : depends i j) : j ∈ order := by
  induction order with
  | nil => cases hi
  | cons k _ ih =>
    obtain ⟨hk, -, hlater⟩ := h
    rcases mem_cons.1 hi with rfl | hi
    · exact mem_cons_of_mem _ (hk j hij)
    · exact mem_cons_of_mem _ (ih hlater hi)

lemma pass_of_not_has (hi : has i = false) : pass F has order s i = s i := by
  induction order with
  | nil => rfl
  | cons k _ ih =>
    rw [pass, foldr_cons]
    split
    · next hk =>
      rw [visit_of_ne]
      · exact ih
      · rintro rfl
        rw [hi] at hk
        cases hk
    · exact ih

/-- The pass solves the equations it visits. -/
lemma pass_solves (hreads : Reads F depends) (h : Topological depends order) :
    Solves F (order.filter has) (pass F has order s) := by
  induction order with
  | nil => exact fun i hi => absurd hi not_mem_nil
  | cons k later ih =>
    obtain ⟨hk, hfresh, hlater⟩ := h
    have hsolved := ih hlater
    intro i hi
    obtain ⟨hi, hhas⟩ := mem_filter.1 hi
    rw [pass, foldr_cons]
    -- what the pass has stored for the later unknowns is not touched any more
    have hkeep : ∀ j ∈ later, (if has k = true then visit F k (pass F has later s)
        else pass F has later s) j = pass F has later s j := by
      intro j hj
      split
      · exact visit_of_ne fun hjk => hfresh (hjk ▸ hj)
      · rfl
    rcases mem_cons.1 hi with rfl | hi
    · have hread : F i (visit F i (pass F has later s)) = F i (pass F has later s) := by
        apply hreads
        intro j hj
        exact visit_of_ne fun hji => hfresh (hji ▸ hk j hj)
      simp only [hhas, if_true]
      exact visit_self.trans (congrArg some hread.symm)
    · have hread : F i (if has k = true then visit F k (pass F has later s)
          else pass F has later s) = F i (pass F has later s) := by
        apply hreads
        exact fun j hj => hkeep j (hlater.depends_mem hi hj)
      calc _ = pass F has later s i := hkeep i hi
        _ = some (F i (pass F has later s)) := hsolved i (mem_filter.2 ⟨hi, hhas⟩)
        _ = _ := congrArg some hread.symm

omit [DecidableEq ι] in
/-- Without cyclic dependencies there is one solution. -/
lemma Topological.solution_unique (hreads : Reads F depends) (h : Topological depends order)
    (hs : Solves F (order.filter has) s) (ht : Solves F (order.filter has) t)
    (hgiven : ∀ i, has i = false → s i = t i) : ∀ i ∈ order, s i = t i := by
  induction order with
  | nil => exact fun i hi => absurd hi not_mem_nil
  | cons k later ih =>
    obtain ⟨hk, -, hlater⟩ := h
    have hrest := ih hlater
      (fun i hi => hs i (mem_filter.2 ⟨mem_cons_of_mem _ (mem_filter.1 hi).1, (mem_filter.1 hi).2⟩))
      (fun i hi => ht i (mem_filter.2 ⟨mem_cons_of_mem _ (mem_filter.1 hi).1, (mem_filter.1 hi).2⟩))
    intro i hi
    rcases mem_cons.1 hi with rfl | hi
    · by_cases hhas : has i = true
      · have hmem : i ∈ (i :: later).filter has := mem_filter.2 ⟨mem_cons_self, hhas⟩
        rw [hs i hmem, ht i hmem, hreads i s t fun j hj => hrest j (hk j hj)]
      · exact hgiven i (by simpa using hhas)
    · exact hrest i hi

/-! ## Rounds -/

section Round

variable [DecidableEq σ]

/-- Visit the unknowns in order, and say whether a value has changed. -/
def round (F : ι → State ι σ → σ) : List ι → State ι σ → State ι σ × Bool
  | [], s => (s, false)
  | i :: is, s => if s i = some (F i s) then round F is s else ((round F is (visit F i s)).1, true)

/-- The values after `n` rounds. -/
def after (F : ι → State ι σ → σ) (is : List ι) (s : State ι σ) : Nat → State ι σ
  | 0 => s
  | n + 1 => after F is (round F is s).1 n

/-- Rounds until one changes nothing, but at most so many. -/
def iterate (F : ι → State ι σ → σ) (is : List ι) : Nat → State ι σ → State ι σ
  | 0, s => s
  | n + 1, s => if (round F is s).2 then iterate F is n (round F is s).1 else (round F is s).1

/-- One of the first `n` rounds changes nothing. -/
def Settles (F : ι → State ι σ → σ) (is : List ι) (n : Nat) (s : State ι σ) : Prop :=
  ∃ k < n, (round F is (after F is s k)).2 = false

variable {P : State ι σ → Prop}

/-- A property that every visit of an equation that does not hold preserves is kept by a round. -/
lemma round_invariant (hvisit : ∀ i ∈ is, ∀ s, P s → P (visit F i s))
    (hs : P s) : P (round F is s).1 := by
  induction is generalizing s with
  | nil => exact hs
  | cons i is ih =>
    have hrest := (forall_mem_cons.1 hvisit).2
    rw [round]
    split
    · exact ih hrest hs
    · exact ih hrest (hvisit i mem_cons_self s hs)

lemma iterate_invariant (hround : ∀ s, P s → P (round F is s).1) :
    ∀ n s, P s → P (iterate F is n s) := by
  intro n
  induction n with
  | zero => exact fun s hs => hs
  | succ n ih =>
    intro s hs
    rw [iterate]
    split
    · exact ih _ (hround s hs)
    · exact hround s hs

/-- A round that changes nothing leaves a solution as it is. -/
lemma round_unchanged (h : (round F is s).2 = false) : (round F is s).1 = s ∧ Solves F is s := by
  induction is with
  | nil => exact ⟨rfl, fun i hi => absurd hi not_mem_nil⟩
  | cons i is ih =>
    by_cases hi : s i = some (F i s)
    · rw [round, if_pos hi] at h ⊢
      exact ⟨(ih h).1, forall_mem_cons.2 ⟨hi, (ih h).2⟩⟩
    · rw [round, if_neg hi] at h
      cases h

/-- An iteration that settles ends in a solution. -/
lemma Settles.solves (h : Settles F is n s) : Solves F is (iterate F is n s) := by
  obtain ⟨k, hk, hround⟩ := h
  induction k generalizing n s with
  | zero =>
    obtain ⟨n, rfl⟩ := Nat.exists_eq_succ_of_ne_zero (Nat.ne_of_gt hk)
    obtain ⟨hsame, hsolves⟩ := round_unchanged hround
    rw [after] at hround hsame hsolves
    rw [iterate, hround, hsame]
    exact hsolves
  | succ k ih =>
    obtain ⟨n, rfl⟩ := Nat.exists_eq_succ_of_ne_zero (Nat.ne_of_gt (Nat.zero_lt_of_lt hk))
    rw [iterate]
    split
    · exact ih (Nat.lt_of_succ_lt_succ hk) hround
    · next hdone =>
      obtain ⟨hsame, hsolves⟩ := round_unchanged (by simpa using hdone)
      rwa [hsame]

end Round

/-! ## Monotone equations -/

variable [PartialOrder σ]

/-- Every value of `s` is below one of `t`. -/
def Below (s t : State ι σ) : Prop := ∀ i a, s i = some a → ∃ b, t i = some b ∧ a ≤ b

omit [DecidableEq ι] in
lemma Below.antisymm (hst : Below s t) (hts : Below t s) : s = t := by
  funext i
  cases hs : s i with
  | none =>
    cases ht : t i with
    | none => rfl
    | some b =>
      obtain ⟨a, ha, -⟩ := hts i b ht
      rw [hs] at ha
      cases ha
  | some a =>
    obtain ⟨b, hb, hab⟩ := hst i a hs
    obtain ⟨_, ha', hba⟩ := hts i b hb
    rw [hs] at ha'
    cases ha'
    rw [hb, le_antisymm hab hba]

def Monotone (F : ι → State ι σ → σ) : Prop := ∀ i s t, Below s t → F i s ≤ F i t

/-- Visiting an unknown can only raise it. -/
def Rising (F : ι → State ι σ → σ) (is : List ι) (s : State ι σ) : Prop :=
  ∀ i ∈ is, ∀ a, s i = some a → a ≤ F i s

lemma Rising.below_visit (h : Rising F is s) (hi : i ∈ is) : Below s (visit F i s) := by
  intro j a ha
  by_cases hji : j = i
  · subst hji
    exact ⟨F j s, visit_self, h j hi a ha⟩
  · exact ⟨a, by rw [visit_of_ne hji, ha], le_refl a⟩

lemma Rising.visit (hmono : Monotone F) (h : Rising F is s) (hi : i ∈ is) :
    Rising F is (visit F i s) := by
  have hbelow := h.below_visit hi
  intro j hj a ha
  by_cases hji : j = i
  · subst hji
    rw [visit_self, Option.some.injEq] at ha
    exact ha ▸ hmono j _ _ hbelow
  · rw [visit_of_ne hji] at ha
    exact le_trans (h j hj a ha) (hmono j _ _ hbelow)

/-- Visits stay below a solution. -/
lemma below_solution_visit (hmono : Monotone F) (hsolves : Solves F is t) (hi : i ∈ is)
    (h : Below s t) : Below (visit F i s) t := by
  intro j a ha
  by_cases hji : j = i
  · subst hji
    rw [visit_self, Option.some.injEq] at ha
    exact ⟨F j t, hsolves j hi, ha ▸ hmono j _ _ h⟩
  · rw [visit_of_ne hji] at ha
    exact h j a ha

variable [DecidableEq σ]

/-- Two iterations over the same unknowns that both settle end in the same values. -/
lemma iterate_unique {m : Nat} (hmono : Monotone F) (hperm : is.Perm js)
    (hfresh : ∀ i ∈ is, s i = none) (his : Settles F is n s) (hjs : Settles F js m s) :
    iterate F is n s = iterate F js m s := by
  -- an iteration stays below every solution that has the given values of `s`
  have hleast : ∀ (ks : List ι) (k : Nat) (t : State ι σ), ks.Perm is → Solves F is t →
      (∀ i, i ∉ is → t i = s i) → Below (iterate F ks k s) t := by
    intro ks k t hks hsolves hgiven
    apply iterate_invariant (P := fun s => Below s t)
    · intro s hs
      exact round_invariant (P := fun s => Below s t)
        (fun i hi s hs => below_solution_visit hmono hsolves (hks.mem_iff.1 hi) hs) hs
    · intro i a ha
      by_cases hi : i ∈ is
      · rw [hfresh i hi] at ha
        cases ha
      · exact ⟨a, by rw [hgiven i hi, ha], le_refl a⟩
  have hgiven : ∀ (ks : List ι) (k : Nat), ks.Perm is → ∀ i, i ∉ is → iterate F ks k s i = s i := by
    intro ks k hks i hi
    apply iterate_invariant (P := fun t => t i = s i)
    · intro t ht
      apply round_invariant (P := fun t => t i = s i) _ ht
      intro j hj t ht
      rw [visit_of_ne, ht]
      rintro rfl
      exact hi (hks.mem_iff.1 hj)
    · rfl
  have hsolves : Solves F is (iterate F js m s) := fun i hi => hjs.solves i (hperm.mem_iff.1 hi)
  apply Below.antisymm
  · exact hleast is n _ (.refl is) hsolves (hgiven js m hperm.symm)
  · exact hleast js m _ hperm.symm his.solves (hgiven is n (.refl is))

/-! ## How many rounds -/

/-- How far an unknown has come: without a value, or at the rank of its value. -/
def progress (rank : σ → Nat) (a : Option σ) : Nat :=
  match a with
  | none => 0
  | some a => rank a + 1

def total (rank : σ → Nat) (is : List ι) (s : State ι σ) : Nat :=
  (is.map fun i => progress rank (s i)).sum

variable {rank : σ → Nat} {height : Nat}

omit [DecidableEq ι] [PartialOrder σ] [DecidableEq σ] in
lemma total_mono (h : ∀ i ∈ is, progress rank (s i) ≤ progress rank (t i)) :
    total rank is s ≤ total rank is t := by
  induction is with
  | nil => exact Nat.le_refl 0
  | cons i is ih =>
    have hi := h i mem_cons_self
    have hrest := ih (forall_mem_cons.1 h).2
    simp only [total, map_cons, sum_cons] at *
    omega

omit [DecidableEq ι] [PartialOrder σ] [DecidableEq σ] in
lemma total_lt (h : ∀ i ∈ is, progress rank (s i) ≤ progress rank (t i)) (hi : i ∈ is)
    (hlt : progress rank (s i) < progress rank (t i)) : total rank is s < total rank is t := by
  induction is with
  | nil => cases hi
  | cons j is ih =>
    have hj := h j mem_cons_self
    have hrest := fun k hk => h k (mem_cons_of_mem j hk)
    have hle : total rank is s ≤ total rank is t := total_mono hrest
    simp only [total, map_cons, sum_cons] at *
    rcases mem_cons.1 hi with rfl | hi
    · omega
    · have := ih hrest hi
      omega

omit [DecidableEq ι] [PartialOrder σ] [DecidableEq σ] in
lemma total_le (h : ∀ i ∈ is, ∀ a, s i = some a → rank a < height) :
    total rank is s ≤ is.length * height := by
  induction is with
  | nil => exact Nat.zero_le _
  | cons i is ih =>
    have hrest := ih (forall_mem_cons.1 h).2
    have hi : progress rank (s i) ≤ height := by
      cases hs : s i with
      | none => exact Nat.zero_le _
      | some a => exact h i mem_cons_self a hs
    simp only [total, map_cons, sum_cons, length_cons, Nat.succ_mul] at *
    omega

section Bound

variable (hrank : ∀ a b : σ, a < b → rank a < rank b)

include hrank

omit [DecidableEq ι] [DecidableEq σ] in
lemma progress_mono (h : Below s t) : progress rank (s i) ≤ progress rank (t i) := by
  cases hs : s i with
  | none => exact Nat.zero_le _
  | some a =>
    obtain ⟨b, hb, hab⟩ := h i a hs
    rw [hb]
    rcases hab.eq_or_lt with rfl | hlt
    · exact le_rfl
    · exact Nat.succ_le_succ (Nat.le_of_lt (hrank a b hlt))

omit [DecidableEq σ] in
lemma total_lt_visit (h : Rising F is s) (hi : i ∈ is) (hne : s i ≠ some (F i s)) :
    total rank is s < total rank is (visit F i s) := by
  apply total_lt (fun j _ => progress_mono hrank (h.below_visit hi)) hi
  rw [visit_self]
  cases hs : s i with
  | none => exact Nat.succ_pos _
  | some a =>
    apply Nat.succ_lt_succ
    apply hrank
    apply lt_of_le_of_ne (h i hi a hs)
    rintro rfl
    exact hne hs

/-- A round never loses progress, and makes some when it changes a value. -/
lemma total_round (hmono : Monotone F) (hjs : ∀ j ∈ js, j ∈ is) (h : Rising F is s) :
    total rank is s ≤ total rank is (round F js s).1 ∧
      ((round F js s).2 = true → total rank is s < total rank is (round F js s).1) := by
  induction js generalizing s with
  | nil => exact ⟨le_rfl, nofun⟩
  | cons j js ih =>
    have hrest := (forall_mem_cons.1 hjs).2
    have hj := hjs j mem_cons_self
    rw [round]
    split
    · exact ih hrest h
    · next hne =>
      have hlt := total_lt_visit hrank h hj hne
      have hle := (ih hrest (h.visit hmono hj)).1
      have hgain := Nat.lt_of_lt_of_le hlt hle
      exact ⟨Nat.le_of_lt hgain, fun _ => hgain⟩

/-- Every changing round makes progress, so that the rounds settle once all values are used up. -/
lemma settles_of_lt (hmono : Monotone F) (hheight : ∀ i ∈ is, ∀ s, rank (F i s) < height)
    (hfresh : ∀ i ∈ is, s i = none) (hn : is.length * height < n) : Settles F is n s := by
  by_contra hnot
  have hchanges : ∀ k < n, (round F is (after F is s k)).2 = true := by
    intro k hk
    by_contra hfalse
    exact hnot ⟨k, hk, by simpa using hfalse⟩
  have hgrows : ∀ (k : Nat) (t : State ι σ), Rising F is t →
      (∀ i ∈ is, ∀ a, t i = some a → rank a < height) →
      (∀ l < k, (round F is (after F is t l)).2 = true) →
      total rank is t + k ≤ is.length * height := by
    intro k
    induction k with
    | zero => exact fun t _ hbound _ => total_le hbound
    | succ k ih =>
      intro t hrising hbound hround
      have hstep := (total_round hrank hmono (fun j hj => hj) hrising).2 (hround 0 (Nat.succ_pos k))
      have hrest := ih (round F is t).1
        (round_invariant (P := Rising F is) (fun i hi s hs => hs.visit hmono hi) hrising)
        (round_invariant (P := fun t => ∀ i ∈ is, ∀ a, t i = some a → rank a < height)
          (fun i hi s hs j hj a ha => by
            by_cases hji : j = i
            · subst hji
              rw [visit_self, Option.some.injEq] at ha
              exact ha ▸ hheight j hj s
            · rw [visit_of_ne hji] at ha
              exact hs j hj a ha) hbound)
        (fun l hl => hround (l + 1) (Nat.succ_lt_succ hl))
      omega
  have hfirst : ∀ i ∈ is, ∀ a, s i ≠ some a := by
    intro i hi a ha
    rw [hfresh i hi] at ha
    cases ha
  have := hgrows n s (fun i hi a ha => absurd ha (hfirst i hi a))
    (fun i hi a ha => absurd ha (hfirst i hi a)) hchanges
  omega

end Bound

end Lint4d.Lib.Rounds

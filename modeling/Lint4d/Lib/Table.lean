import Mathlib

/-!
# Keyed tables

Relational tables with a primary key, as lists of rows with distinct keys.
The statements are the ones a store runs on them: insert, update and delete by
a condition, lookup by key, and a selection that is cut off at a limit.

A limited selection without an order takes some of the matching rows; which
ones is the business of the query planner, given here as a `Scan`.
-/

namespace Lint4d.Lib

open List hiding any_eq_true

/-- Rows of type `ρ` are identified by a key. -/
class Keyed (ρ : Type) (κ : outParam Type) where
  key : ρ → κ

/-- Rows with distinct keys. -/
structure Table (ρ : Type) {κ : Type} [Keyed ρ κ] where
  rows : List ρ
  unique : (rows.map Keyed.key).Nodup

/-- The order in which a query visits the rows that match it. -/
structure Scan where
  order : {α : Type} → List α → List α
  perm : ∀ {α : Type} (rows : List α), (order rows).Perm rows

/-- Rows in the order they were inserted. -/
def Scan.inserted : Scan where
  order rows := rows
  perm rows := List.Perm.refl rows

namespace Table

variable {ρ κ : Type} [Keyed ρ κ] {other : ρ} {q : ρ → Prop} {Q : Prop} {limit : Nat} {key : κ}

instance : Membership ρ (Table ρ) where
  mem table row := row ∈ table.rows

variable {table : Table ρ} {row : ρ}

lemma mem_def : row ∈ table ↔ row ∈ table.rows := Iff.rfl

instance (table : Table ρ) (p : ρ → Prop) [DecidablePred p] : Decidable (∃ row ∈ table, p row) :=
  inferInstanceAs (Decidable (∃ row ∈ table.rows, p row))

instance (table : Table ρ) (p : ρ → Prop) [DecidablePred p] : Decidable (∀ row ∈ table, p row) :=
  inferInstanceAs (Decidable (∀ row ∈ table.rows, p row))

def empty : Table ρ where
  rows := []
  unique := nodup_nil

def IsEmpty (table : Table ρ) : Prop := ∀ row, ¬ row ∈ table

@[simp] lemma not_mem_empty (row : ρ) : ¬ row ∈ (empty : Table ρ) := not_mem_nil

/-- Two rows of a table with one key are one row. -/
lemma eq_of_key (hrow : row ∈ table) (hother : other ∈ table)
    (hkey : Keyed.key row = Keyed.key other) : row = other :=
  inj_on_of_nodup_map table.unique hrow hother hkey

/-! ## What a statement may change -/

/-- `new` has the rows of `old` and one more with a key of its own. -/
structure Inserted (old new : Table ρ) (row : ρ) : Prop where
  fresh : ∀ other ∈ old, Keyed.key other ≠ Keyed.key row
  mem_iff : ∀ other, other ∈ new ↔ other ∈ old ∨ other = row

/-- Some of the rows with `p` were changed, and no others. -/
structure Updated (old new : Table ρ) (p : ρ → Prop) (change : ρ → ρ) : Prop where
  of_new : ∀ row ∈ new, (∃ other ∈ old, p other ∧ row = change other) ∨ row ∈ old
  of_old : ∀ row ∈ old, row ∈ new ∨ (p row ∧ change row ∈ new)

/-- Some of the rows with `p` were deleted, and no others. -/
structure Deleted (old new : Table ρ) (p : ρ → Prop) : Prop where
  of_new : ∀ row ∈ new, row ∈ old
  of_old : ∀ row ∈ old, row ∈ new ∨ p row

variable {old new : Table ρ} {p : ρ → Prop} {change : ρ → ρ}

lemma Updated.mono (h : Updated old new p change) (hpq : ∀ row, p row → q row) :
    Updated old new q change where
  of_new row hrow := (h.of_new row hrow).imp
    (fun ⟨other, hother, hp, heq⟩ => ⟨other, hother, hpq other hp, heq⟩) id
  of_old row hrow := (h.of_old row hrow).imp id fun ⟨hp, hnew⟩ => ⟨hpq row hp, hnew⟩

lemma Deleted.mono (h : Deleted old new p) (hpq : ∀ row, p row → q row) : Deleted old new q where
  of_new := h.of_new
  of_old row hrow := (h.of_old row hrow).imp id (hpq row)

variable {P : ρ → Prop}

/-- What every old row meets and the new one too, every row then meets. -/
lemma Inserted.forall_mem (h : Inserted old new row) (hold : ∀ other ∈ old, P other)
    (hrow : P row) :
    ∀ other ∈ new, P other := by
  intro other hother
  rcases (h.mem_iff other).mp hother with hkept | rfl
  · exact hold other hkept
  · exact hrow

lemma Inserted.exists_mem (h : Inserted old new row) (hold : ∃ row ∈ old, P row) :
    ∃ row ∈ new, P row := by
  obtain ⟨other, hother, hP⟩ := hold
  exact ⟨other, (h.mem_iff other).mpr (.inl hother), hP⟩

/-- A change that keeps `P` keeps a row with it. -/
lemma Updated.exists_mem (h : Updated old new p change) (hchange : ∀ row, P row → P (change row))
    (hold : ∃ row ∈ old, P row) : ∃ row ∈ new, P row := by
  obtain ⟨row, hrow, hP⟩ := hold
  rcases h.of_old row hrow with hkept | ⟨-, hchanged⟩
  · exact ⟨row, hkept, hP⟩
  · exact ⟨_, hchanged, hchange row hP⟩

/-- A row with `P` is still there, or is one of those that are changed. -/
lemma Updated.exists_or (h : Updated old new p change) (hQ : ∀ row ∈ old, p row → P row → Q)
    (hold : ∃ row ∈ old, P row) : (∃ row ∈ new, P row) ∨ Q := by
  obtain ⟨row, hrow, hP⟩ := hold
  exact (h.of_old row hrow).imp (⟨row, ·, hP⟩) fun hchanged => hQ row hrow hchanged.1 hP

lemma Deleted.exists_or (h : Deleted old new p) (hQ : ∀ row, p row → P row → Q)
    (hold : ∃ row ∈ old, P row) : (∃ row ∈ new, P row) ∨ Q := by
  obtain ⟨row, hrow, hP⟩ := hold
  exact (h.of_old row hrow).imp (⟨row, ·, hP⟩) (hQ row · hP)

lemma Updated.forall_mem (h : Updated old new p change) (hold : ∀ row ∈ old, P row)
    (hchange : ∀ row, P row → P (change row)) : ∀ row ∈ new, P row := by
  intro row hrow
  rcases h.of_new row hrow with ⟨other, hother, -, rfl⟩ | hkept
  · exact hchange other (hold other hother)
  · exact hold row hkept

/-! ## Conditions -/

/-- Change the rows that meet the condition, keeping their keys. -/
def update (table : Table ρ) (p : ρ → Bool) (change : ρ → ρ)
    (hkey : ∀ row, Keyed.key (change row) = Keyed.key row) : Table ρ where
  rows := table.rows.map fun row => if p row then change row else row
  unique := by
    have hsame : (table.rows.map fun row => if p row then change row else row).map Keyed.key =
        table.rows.map Keyed.key := by
      rw [map_map]
      apply map_congr_left
      intro row _
      change Keyed.key (if p row then change row else row) = Keyed.key row
      split
      · exact hkey row
      · rfl
    rw [hsame]
    exact table.unique

lemma mem_update (p : ρ → Bool) (change : ρ → ρ)
    (hkey : ∀ row, Keyed.key (change row) = Keyed.key row) :
    row ∈ table.update p change hkey ↔
      (∃ old ∈ table, p old = true ∧ row = change old) ∨ (row ∈ table ∧ p row = false) := by
  simp only [mem_def, update, mem_map]
  constructor
  · rintro ⟨old, hold, rfl⟩
    cases hp : p old with
    | true => exact .inl ⟨old, hold, hp, by simp⟩
    | false => exact .inr ⟨by simpa using hold, by simpa using hp⟩
  · rintro (⟨old, hold, hp, rfl⟩ | ⟨hrow, hp⟩)
    · exact ⟨old, hold, by simp [hp]⟩
    · exact ⟨row, hrow, by simp [hp]⟩

lemma change_mem_update {p : ρ → Bool} (hrow : row ∈ table) (hp : p row = true)
    (hkey : ∀ row, Keyed.key (change row) = Keyed.key row := by exact fun _ => rfl) :
    change row ∈ table.update p change hkey :=
  (mem_update p change hkey).mpr (.inl ⟨row, hrow, hp, rfl⟩)

lemma updated_update (table : Table ρ) (p : ρ → Bool) (change : ρ → ρ)
    (hkey : ∀ row, Keyed.key (change row) = Keyed.key row) :
    Updated table (table.update p change hkey) (fun row => p row = true) change where
  of_new row h := ((mem_update p change hkey).mp h).imp id And.left
  of_old row h := by
    cases hp : p row with
    | true => exact .inr ⟨rfl, change_mem_update h hp hkey⟩
    | false => exact .inl ((mem_update p change hkey).mpr (.inr ⟨h, hp⟩))

/-- Remove the rows that meet the condition. -/
def delete (table : Table ρ) (p : ρ → Bool) : Table ρ where
  rows := table.rows.filter fun row => !p row
  unique := table.unique.sublist (filter_sublist.map Keyed.key)

variable {p : ρ → Bool}

lemma mem_delete : row ∈ table.delete p ↔ row ∈ table ∧ p row = false := by
  simp [mem_def, delete]

/-- The number of rows that meet the condition. -/
def count (table : Table ρ) (p : ρ → Bool) : Nat := table.rows.countP p

/-- Some row meets the condition. -/
def any (table : Table ρ) (p : ρ → Bool) : Bool := table.rows.any p

lemma any_eq_true : table.any p = true ↔ ∃ row ∈ table, p row = true := List.any_eq_true

lemma any_eq_false : table.any p = false ↔ ∀ row ∈ table, p row = false := by
  simp [any, mem_def]

/-! ## Limits -/

/-- The keys of at most `limit` rows that meet the condition. -/
def pick (table : Table ρ) (scan : Scan) (p : ρ → Bool) (limit : Nat) : List κ :=
  ((scan.order (table.rows.filter p)).take limit).map Keyed.key

variable {scan : Scan}

lemma of_key_mem_pick (hrow : row ∈ table)
    (h : Keyed.key row ∈ table.pick scan p limit) : p row = true := by
  obtain ⟨_, hother, hkey⟩ := mem_map.mp h
  have hmatch := mem_filter.mp ((scan.perm _).mem_iff.mp (mem_of_mem_take hother))
  rw [eq_of_key hrow hmatch.1 hkey.symm]
  exact hmatch.2

/-- A selection below its limit is complete. -/
lemma key_mem_pick_of_lt (hlt : (table.pick scan p limit).length < limit) (hrow : row ∈ table)
    (hp : p row = true) : Keyed.key row ∈ table.pick scan p limit := by
  have hall : (scan.order (table.rows.filter p)).length ≤ limit := by
    rw [pick, length_map, length_take] at hlt
    omega
  rw [pick, take_of_length_le hall]
  apply mem_map_of_mem
  exact (scan.perm _).mem_iff.mpr (mem_filter.mpr ⟨hrow, hp⟩)

/-! ## Keys -/

variable [DecidableEq κ]

/-- Change at most `limit` of the rows that meet the condition; also how many
were changed. -/
def updateSome (table : Table ρ) (scan : Scan) (p : ρ → Bool) (limit : Nat) (change : ρ → ρ)
    (hkey : ∀ row, Keyed.key (change row) = Keyed.key row) : Table ρ × Nat :=
  let picked := table.pick scan p limit
  (table.update (fun row => Keyed.key row ∈ picked) change hkey, picked.length)

lemma updated_updateSome (table : Table ρ) (scan : Scan) (p : ρ → Bool) (limit : Nat)
    (change : ρ → ρ) (hkey : ∀ row, Keyed.key (change row) = Keyed.key row) :
    Updated table (table.updateSome scan p limit change hkey).1 (fun row => p row = true)
      change where
  of_new row h := by
    rcases (mem_update _ _ hkey).mp h with ⟨old, hold, hpicked, rfl⟩ | ⟨hrow, -⟩
    · exact .inl ⟨old, hold, of_key_mem_pick hold (by simpa using hpicked), rfl⟩
    · exact .inr hrow
  of_old row h := by
    by_cases hpicked : Keyed.key row ∈ table.pick scan p limit
    · exact .inr ⟨of_key_mem_pick h hpicked, change_mem_update h (by simpa) hkey⟩
    · exact .inl ((mem_update _ _ hkey).mpr (.inr ⟨h, by simpa⟩))

/-- Remove at most `limit` of the rows that meet the condition; also how many
were removed. -/
def deleteSome (table : Table ρ) (scan : Scan) (p : ρ → Bool) (limit : Nat) : Table ρ × Nat :=
  let picked := table.pick scan p limit
  (table.delete fun row => Keyed.key row ∈ picked, picked.length)

lemma deleted_deleteSome (table : Table ρ) (scan : Scan) (p : ρ → Bool) (limit : Nat) :
    Deleted table (table.deleteSome scan p limit).1 fun row => p row = true where
  of_new row h := (mem_delete.mp h).1
  of_old row h := by
    by_cases hpicked : Keyed.key row ∈ table.pick scan p limit
    · exact .inr (of_key_mem_pick h hpicked)
    · exact .inl (mem_delete.mpr ⟨h, by simpa⟩)

def find? (table : Table ρ) (key : κ) : Option ρ :=
  table.rows.find? fun row => Keyed.key row = key

lemma find?_eq_some : table.find? key = some row ↔ row ∈ table ∧ Keyed.key row = key := by
  constructor
  · intro h
    exact ⟨mem_of_find?_eq_some h, by simpa using find?_some h⟩
  · intro ⟨hrow, hkey⟩
    cases hfind : table.find? key with
    | none =>
      have hnone := find?_eq_none.mp hfind row hrow
      simp [hkey] at hnone
    | some other =>
      have hother : Keyed.key other = key := by simpa using find?_some hfind
      rw [eq_of_key (mem_of_find?_eq_some hfind) hrow (hother.trans hkey.symm)]

lemma find?_eq_none : table.find? key = none ↔ ∀ row ∈ table, Keyed.key row ≠ key := by
  simp [find?, mem_def]

/-- Tables with the same rows of a key have the same lookup. -/
lemma find?_congr {table' : Table ρ}
    (h : ∀ row, Keyed.key row = key → (row ∈ table' ↔ row ∈ table)) :
    table'.find? key = table.find? key := by
  cases hfind : table.find? key with
  | none =>
    apply find?_eq_none.mpr
    intro row hrow hkey
    exact find?_eq_none.mp hfind row ((h row hkey).mp hrow) hkey
  | some row =>
    obtain ⟨hrow, hkey⟩ := find?_eq_some.mp hfind
    exact find?_eq_some.mpr ⟨(h row hkey).mpr hrow, hkey⟩

lemma find?_update (table : Table ρ) (p : ρ → Bool) (change : ρ → ρ)
    (hkey : ∀ row, Keyed.key (change row) = Keyed.key row) (key : κ) :
    (table.update p change hkey).find? key =
      (table.find? key).map fun row => if p row then change row else row := by
  cases hfind : table.find? key with
  | none =>
    apply find?_eq_none.mpr
    intro row hrow hrowKey
    rcases (mem_update _ _ hkey).mp hrow with ⟨old, hold, -, rfl⟩ | ⟨hold, -⟩
    · exact find?_eq_none.mp hfind old hold ((hkey old).symm.trans hrowKey)
    · exact find?_eq_none.mp hfind row hold hrowKey
  | some row =>
    obtain ⟨hrow, hrowKey⟩ := find?_eq_some.mp hfind
    apply find?_eq_some.mpr
    dsimp only
    split
    · rename_i hp
      exact ⟨change_mem_update hrow hp hkey, (hkey row).trans hrowKey⟩
    · rename_i hp
      exact ⟨(mem_update _ _ hkey).mpr (.inr ⟨hrow, eq_false_of_ne_true hp⟩), hrowKey⟩

lemma Inserted.find?_self (h : Inserted old new row) : new.find? (Keyed.key row) = some row :=
  find?_eq_some.mpr ⟨(h.mem_iff row).mpr (.inr rfl), rfl⟩

lemma Inserted.find?_of_ne (h : Inserted old new row) (hne : Keyed.key row ≠ key) :
    new.find? key = old.find? key := by
  apply find?_congr
  intro other hother
  rw [h.mem_iff, or_iff_left]
  rintro rfl
  exact hne hother

/-- Insert a row; `none` when its key is taken. -/
def insert (table : Table ρ) (row : ρ) : Option (Table ρ) :=
  if h : Keyed.key row ∈ table.rows.map Keyed.key then none
  else some {
    rows := table.rows ++ [row]
    unique := by
      rw [map_append, map_singleton, ← concat_eq_append]
      exact table.unique.concat h }

lemma insert_eq_some {table' : Table ρ} (h : table.insert row = some table') :
    Inserted table table' row := by
  unfold insert at h
  split at h
  · cases h
  · rename_i hfresh
    cases h
    constructor
    · intro old hold heq
      exact hfresh (mem_map.mpr ⟨old, hold, heq⟩)
    · intro other
      simp [mem_def]

/-- `INSERT OR IGNORE`. -/
def insertOrIgnore (table : Table ρ) (row : ρ) : Table ρ := (table.insert row).getD table

lemma mem_insertOrIgnore (h : other ∈ table.insertOrIgnore row) : other ∈ table ∨ other = row := by
  unfold insertOrIgnore at h
  cases hinsert : table.insert row with
  | none => exact .inl (by simpa [hinsert] using h)
  | some => exact ((insert_eq_some hinsert).mem_iff other).mp (by simpa [hinsert] using h)

lemma mem_insertOrIgnore_of_mem (h : other ∈ table) : other ∈ table.insertOrIgnore row := by
  unfold insertOrIgnore
  cases hinsert : table.insert row with
  | none => exact h
  | some => exact ((insert_eq_some hinsert).mem_iff other).mpr (.inl h)

/-- A row with a key of its own is inserted. -/
lemma self_mem_insertOrIgnore (hfresh : ∀ other ∈ table, Keyed.key other ≠ Keyed.key row) :
    row ∈ table.insertOrIgnore row := by
  have hfree : ¬ Keyed.key row ∈ table.rows.map Keyed.key := by
    intro htaken
    obtain ⟨other, hother, hkey⟩ := mem_map.mp htaken
    exact hfresh other hother hkey
  unfold insertOrIgnore insert
  rw [dif_neg hfree]
  exact mem_append_right _ (mem_singleton.mpr rfl)

/-- A row with a taken key is ignored. -/
lemma insertOrIgnore_of_key (hother : other ∈ table) (hkey : Keyed.key other = Keyed.key row) :
    table.insertOrIgnore row = table := by
  have htaken : Keyed.key row ∈ table.rows.map Keyed.key := mem_map.mpr ⟨other, hother, hkey⟩
  unfold insertOrIgnore insert
  rw [dif_pos htaken]
  rfl

/-- A deletion of all rows below its limit leaves none. -/
lemma isEmpty_deleteSome (hlt : (table.deleteSome scan (fun _ => true) limit).2 < limit) :
    (table.deleteSome scan (fun _ => true) limit).1.IsEmpty := by
  intro row h
  have hkept := mem_delete.mp h
  have hpicked := key_mem_pick_of_lt hlt hkept.1 rfl
  simp [hpicked] at hkept

end Table

end Lint4d.Lib

import Lint4d.Flow.SourceMap

/-!
# Positions of mapped diagnostics

Diagnostics on prepared text are moved to the source it was prepared from.  Lines and columns
are resolved by an index of line starts that is scanned only as far as the questions so far
required; what it has scanned depends on their order, what it answers does not.
-/

namespace Lint4d.Flow

open List
open Lint4d.Lsp (PartitionPoint)

variable {α : Type} {a b : Nat} {source : List UInt8}

structure LineStartIndex where
  source : List UInt8
  lineStarts : List Nat
  scannedTo : Nat

/-- The offset of a column of the line that starts at `lineStart`; the sum wraps. -/
def offsetIn (source : List UInt8) (column lineStart : Nat) : Option Nat :=
  let offset := (lineStart + column - 1) % 2 ^ 64
  if offset ≤ source.length then some offset else none

namespace LineStartIndex

def new (source : List UInt8) : LineStartIndex := ⟨source, [0], 0⟩

variable (index : LineStartIndex)

def scanNextByte : LineStartIndex where
  source := index.source
  lineStarts := index.lineStarts ++
    if index.source[index.scannedTo]? = some 10 then [index.scannedTo + 1] else []
  scannedTo := index.scannedTo + 1

/-- A loop of the index.  Every turn scans a byte, so that `turns` of them are enough. -/
def scanWhile (more : LineStartIndex → Bool) : Nat → LineStartIndex → LineStartIndex
  | 0, index => index
  | turns + 1, index => if more index then scanWhile more turns index.scanNextByte else index

def extendThroughLine (line : Nat) : LineStartIndex :=
  scanWhile (fun index => index.lineStarts.length < line && index.scannedTo < index.source.length)
    (index.source.length - index.scannedTo) index

def extendThroughOffset (offset : Nat) : LineStartIndex :=
  scanWhile (fun index => index.scannedTo < offset) (offset - index.scannedTo) index

def byteOffsetAtPosition (line column : Nat) : Option Nat × LineStartIndex :=
  if line = 0 ∨ column = 0 then (none, index)
  else
    let index := index.extendThroughLine line
    (index.lineStarts[line - 1]?.bind (offsetIn index.source column), index)

def positionAtOffset (search : PartitionPoint) (offset : Nat) :
    Option (Nat × Nat) × LineStartIndex :=
  if index.source.length < offset then (none, index)
  else
    let index := index.extendThroughOffset offset
    let lineIndex := search.run (fun lineStart : Nat => lineStart ≤ offset) index.lineStarts - 1
    (index.lineStarts[lineIndex]?.map fun lineStart => (lineIndex + 1, offset - lineStart + 1),
      index)

end LineStartIndex

open LineStartIndex

/-! ## A fresh scan -/

/-- The line starts after the newlines before `stop`. -/
def startsUpTo (source : List UInt8) (stop : Nat) : List Nat :=
  0 :: ((range stop).filter fun i => source[i]? = some 10).map (· + 1)

def scanOffset (source : List UInt8) (line column : Nat) : Option Nat :=
  if line = 0 ∨ column = 0 then none
  else (startsUpTo source source.length)[line - 1]?.bind (offsetIn source column)

def scanPosition (source : List UInt8) (offset : Nat) : Option (Nat × Nat) :=
  if source.length < offset then none
  else
    let starts := startsUpTo source offset
    some (starts.length, offset - starts.getLastD 0 + 1)

lemma startsUpTo_append (source : List UInt8) (h : a ≤ b) :
    ∃ later, startsUpTo source b = startsUpTo source a ++ later ∧ ∀ start ∈ later, a < start := by
  obtain ⟨more, rfl⟩ := Nat.exists_eq_add_of_le h
  refine ⟨(((range more).map (a + ·)).filter fun i => source[i]? = some 10).map (· + 1), ?_, ?_⟩
  · simp [startsUpTo, range_add]
  · simp only [mem_map, mem_filter]
    rintro _ ⟨_, ⟨⟨i, -, rfl⟩, -⟩, rfl⟩
    omega

lemma startsUpTo_last (source : List UInt8) (stop : Nat) :
    ∃ front last, startsUpTo source stop = front ++ [last] ∧
      ∀ start ∈ front ++ [last], start ≤ stop := by
  rcases eq_nil_or_concat' (startsUpTo source stop) with hnil | ⟨front, last, hlast⟩
  · cases hnil
  · refine ⟨front, last, hlast, fun start h => ?_⟩
    simp only [← hlast, startsUpTo, mem_cons, mem_map, mem_filter, mem_range] at h
    omega

/-- The position of an offset leads back to it. -/
lemma scanOffset_of_scanPosition (hlen : source.length < 2 ^ 64) {offset : Nat}
    {place : Nat × Nat} (h : scanPosition source offset = some place) :
    scanOffset source place.1 place.2 = some offset := by
  unfold scanPosition at h
  split_ifs at h with hle
  obtain ⟨later, hfull, -⟩ := startsUpTo_append source (Nat.le_of_not_lt hle)
  obtain ⟨front, last, hlast, hbound⟩ := startsUpTo_last source offset
  have := hbound last (by simp)
  rw [hlast] at h hfull
  cases h
  simp [scanOffset, hfull, offsetIn, show last + (offset - last) = offset by omega]
  omega

/-! ## The index is the scan -/

/-- The index holds the line starts of what it has scanned. -/
structure Scanned (source : List UInt8) (index : LineStartIndex) : Prop where
  source_eq : index.source = source
  starts : index.lineStarts = startsUpTo source index.scannedTo
  le : index.scannedTo ≤ source.length

variable {index : LineStartIndex} (h : Scanned source index) (search : PartitionPoint)

include h

namespace Scanned

lemma next (hlt : index.scannedTo < source.length) :
    Scanned source index.scanNextByte where
  source_eq := h.source_eq
  starts := by
    simp only [scanNextByte, h.starts, h.source_eq, startsUpTo, range_succ]
    by_cases hline : source[index.scannedTo]? = some 10 <;> simp [hline]
  le := hlt

/-- A loop that stays below `limit` ends because its condition fails. -/
lemma loop (more : LineStartIndex → Bool) (turns : Nat) {limit : Nat}
    (hlimit : limit ≤ source.length)
    (hmore : ∀ index, Scanned source index → more index = true → index.scannedTo < limit)
    (hturns : limit ≤ index.scannedTo + turns) :
    ∃ after, scanWhile more turns index = after ∧ Scanned source after ∧ more after = false := by
  induction turns generalizing index with
  | zero =>
    refine ⟨index, rfl, h, eq_false_of_ne_true fun hgo => ?_⟩
    exact Nat.not_lt.2 hturns (hmore index h hgo)
  | succ turns ih =>
    rw [scanWhile]
    split
    · rename_i hgo
      apply ih (h.next ((hmore index h hgo).trans_le hlimit))
      simp only [scanNextByte]
      omega
    · rename_i hstop
      exact ⟨index, rfl, h, eq_false_of_ne_true hstop⟩

lemma offset (line column : Nat) :
    Scanned source (index.byteOffsetAtPosition line column).2 ∧
      (index.byteOffsetAtPosition line column).1 = scanOffset source line column := by
  unfold byteOffsetAtPosition scanOffset
  split_ifs
  · exact ⟨h, rfl⟩
  · obtain ⟨after, hafter, hscan, hstop⟩ := h.loop
      (fun index => index.lineStarts.length < line && index.scannedTo < index.source.length)
      (source.length - index.scannedTo) le_rfl (fun index h => by simp [h.source_eq]) (by omega)
    rw [extendThroughLine, h.source_eq, hafter]
    obtain ⟨later, hfull, -⟩ := startsUpTo_append source hscan.le
    refine ⟨hscan, ?_⟩
    -- the line is among the scanned ones, or all are scanned
    simp only [hscan.source_eq, hscan.starts, hfull, Bool.and_eq_false_iff, decide_eq_false_iff_not,
      Nat.not_lt] at hstop ⊢
    rcases hstop with hfar | hend
    · rw [getElem?_append_left (by omega)]
    · rw [hscan.le.antisymm hend] at hfull ⊢
      rw [← hfull]

lemma position (offset : Nat) :
    Scanned source (index.positionAtOffset search offset).2 ∧
      (index.positionAtOffset search offset).1 = scanPosition source offset := by
  unfold positionAtOffset scanPosition
  rw [h.source_eq]
  split_ifs with hle
  · exact ⟨h, rfl⟩
  · obtain ⟨after, hafter, hscan, hstop⟩ := h.loop (fun index => index.scannedTo < offset)
      (offset - index.scannedTo) (Nat.le_of_not_lt hle) (fun _ _ => of_decide_eq_true) (by omega)
    rw [extendThroughOffset, hafter]
    refine ⟨hscan, ?_⟩
    have hfar := Nat.le_of_not_lt (of_decide_eq_false hstop)
    obtain ⟨later, hfull, hlater⟩ := startsUpTo_append source hfar
    obtain ⟨front, last, hlast, hbound⟩ := startsUpTo_last source offset
    dsimp only
    rw [hscan.starts, hfull, hlast, search.run_append]
    · simp
    · simpa using hbound
    · simpa using hlater

end Scanned

omit h

/-! ## Diagnostics -/

variable (source : List UInt8) in
/-- An index after some questions. -/
inductive Asked : LineStartIndex → Prop where
  | new : Asked (.new source)
  | offset {index : LineStartIndex} (h : Asked index) (line column : Nat) :
      Asked (index.byteOffsetAtPosition line column).2
  | position {index : LineStartIndex} (h : Asked index) (search : PartitionPoint)
      (offset : Nat) : Asked (index.positionAtOffset search offset).2

lemma Asked.scanned (h : Asked source index) : Scanned source index := by
  induction h with
  | new => exact ⟨rfl, rfl, Nat.zero_le _⟩
  | offset _ line column ih => exact (ih.offset line column).1
  | position _ search offset ih => exact (ih.position search offset).1

/-- A diagnostic, with what the mapping leaves alone. -/
structure Diagnostic (α : Type) where
  line : Nat
  column : Nat
  endLine : Nat
  endColumn : Nat
  rest : α

variable (map : SourceMap)

def firstSourceId : String := (map.originalSources.head?.map (·.sourceId)).getD ""

/-- One turn of the loop; nothing where the mapping fails. -/
def mapDiagnostic (prepared original : LineStartIndex) (diag : Diagnostic α) :
    Option (Diagnostic α × LineStartIndex × LineStartIndex) :=
  let first := prepared.byteOffsetAtPosition diag.line diag.column
  let last := first.2.byteOffsetAtPosition diag.endLine diag.endColumn
  first.1.bind fun start => last.1.bind fun stop =>
    if stop ≤ start then none
    else match map.mapRange search ⟨start, stop⟩ with
      | .ok [span] => span.original.bind fun range =>
        if span.kind ≠ .copied ∨ range.sourceId ≠ firstSourceId map then none
        else
          let first := original.positionAtOffset search range.byteRange.start
          let after := first.2.positionAtOffset search range.byteRange.stop
          first.1.bind fun start => after.1.map fun stop =>
            (⟨start.1, start.2, stop.1, stop.2, diag.rest⟩, last.2, after.2)
      | _ => none

/-- The diagnostics before a failure are already moved. -/
def mapDiagnostics (prepared original : LineStartIndex) :
    List (Diagnostic α) → List (Diagnostic α) × Bool
  | [] => ([], true)
  | diag :: rest =>
    match mapDiagnostic search map prepared original diag with
    | none => (diag :: rest, false)
    | some (moved, prepared, original) =>
      let after := mapDiagnostics prepared original rest
      (moved :: after.1, after.2)

def mapDiagnosticsToOriginal (diags : List (Diagnostic α)) (source : List UInt8) :
    List (Diagnostic α) × Bool :=
  mapDiagnostics search map (.new map.preparedBytes) (.new source) diags

/-- The moved diagnostic stands where the map takes the range of the other one: at the lines and
columns of the range's ends, which lead back to them. -/
def Moves (source : List UInt8) (diag moved : Diagnostic α) : Prop :=
  moved.rest = diag.rest ∧ ∃ start stop span range,
    scanOffset map.preparedBytes diag.line diag.column = some start ∧
    scanOffset map.preparedBytes diag.endLine diag.endColumn = some stop ∧
    start < stop ∧ map.mapRange search ⟨start, stop⟩ = .ok [span] ∧ span.kind = .copied ∧
    span.original = some range ∧ range.sourceId = firstSourceId map ∧
    scanPosition source range.byteRange.start = some (moved.line, moved.column) ∧
    scanPosition source range.byteRange.stop = some (moved.endLine, moved.endColumn) ∧
    scanOffset source moved.line moved.column = some range.byteRange.start ∧
    scanOffset source moved.endLine moved.endColumn = some range.byteRange.stop

variable {search map} {prepared original : LineStartIndex}
  (hlen : source.length < 2 ^ 64) (hprep : Scanned map.preparedBytes prepared)
  (horig : Scanned source original)

include hlen hprep horig

lemma moves_of_mapDiagnostic {diag : Diagnostic α}
    {res : Diagnostic α × LineStartIndex × LineStartIndex}
    (h : mapDiagnostic search map prepared original diag = some res) :
    Moves search map source diag res.1 ∧ Scanned map.preparedBytes res.2.1 ∧
      Scanned source res.2.2 := by
  obtain ⟨hafter, hfirst⟩ := hprep.offset diag.line diag.column
  obtain ⟨hdone, hlast⟩ := hafter.offset diag.endLine diag.endColumn
  simp only [mapDiagnostic, hfirst, hlast, Option.bind_eq_some_iff] at h
  obtain ⟨start, hstart, stop, hstop, h⟩ := h
  split_ifs at h with hlt
  split at h
  · rename_i span hspan
    obtain ⟨range, hrange, h⟩ := Option.bind_eq_some_iff.1 h
    obtain ⟨hmid, hbegin⟩ := horig.position search range.byteRange.start
    obtain ⟨hend, hfinish⟩ := hmid.position search range.byteRange.stop
    split_ifs at h with hother
    simp only [hbegin, hfinish, Option.bind_eq_some_iff, Option.map_eq_some_iff] at h
    obtain ⟨place, hplace, place', hplace', rfl⟩ := h
    simp only [not_or, not_not] at hother
    exact ⟨⟨rfl, start, stop, span, range, hstart, hstop, Nat.lt_of_not_le hlt, hspan, hother.1,
      hrange, hother.2, hplace, hplace', scanOffset_of_scanPosition hlen hplace,
      scanOffset_of_scanPosition hlen hplace'⟩, hdone, hend⟩
  · cases h

lemma moves_of_mapDiagnostics {diags moved : List (Diagnostic α)}
    (h : mapDiagnostics search map prepared original diags = (moved, true)) :
    List.Forall₂ (Moves search map source) diags moved := by
  induction diags generalizing prepared original moved with
  | nil =>
    cases h
    exact .nil
  | cons diag diags ih =>
    rw [mapDiagnostics] at h
    split at h
    · cases h
    · rename_i first after after' hone
      obtain ⟨hmoves, hprep, horig⟩ := moves_of_mapDiagnostic hlen hprep horig hone
      obtain ⟨rfl, hrest⟩ := Prod.mk.inj h
      exact .cons hmoves (ih hprep horig (Prod.ext rfl hrest))

omit hlen hprep horig

/-- An index answers every question as a fresh scan does, whatever was asked before, and mapped
diagnostics denote the ranges the map assigns to them, one for one. -/
theorem mapped_diagnostics_denote (search : PartitionPoint) :
    (∀ source index, Asked source index →
      (∀ line column, (index.byteOffsetAtPosition line column).1 = scanOffset source line column) ∧
      ∀ offset, (index.positionAtOffset search offset).1 = scanPosition source offset) ∧
    ∀ (map : SourceMap) (source : List UInt8), source.length < 2 ^ 64 →
      ∀ diags moved : List (Diagnostic α),
        mapDiagnosticsToOriginal search map diags source = (moved, true) →
        List.Forall₂ (Moves search map source) diags moved := by
  refine ⟨fun source index h => ?_, fun map source hlen diags moved h => ?_⟩
  · exact ⟨fun line column => (h.scanned.offset line column).2,
      fun offset => (h.scanned.position search offset).2⟩
  · exact moves_of_mapDiagnostics hlen Asked.new.scanned Asked.new.scanned h

/-- A byte of its own before the second line of a source. -/
def shiftedMap : SourceMap where
  preparedBytes := [32, 98]
  originalSources := [⟨"unit", [97, 10, 98]⟩]
  segments := [⟨⟨0, 1⟩, none, "root", .synthetic⟩, ⟨⟨1, 2⟩, some ⟨"unit", 2, 3⟩, "root", .copied⟩]
  preparedLen := 2

theorem mapped_diagnostics_denote_shifted :
    mapDiagnosticsToOriginal Lsp.leadingElements shiftedMap [⟨1, 2, 1, 3, ()⟩] [97, 10, 98] =
      ([⟨2, 1, 2, 2, ()⟩], true) ∧
    List.Forall₂ (Moves Lsp.leadingElements shiftedMap [97, 10, 98]) [⟨1, 2, 1, 3, ()⟩]
      [⟨2, 1, 2, 2, ()⟩] :=
  ⟨rfl, (mapped_diagnostics_denote Lsp.leadingElements).2 shiftedMap [97, 10, 98] (by decide) _ _
    rfl⟩

end Lint4d.Flow

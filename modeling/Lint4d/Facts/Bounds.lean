import Lint4d.Lib.Checked
import Lint4d.Facts.Decode

/-!
# Decoded facts stay inside their texts

Whatever rows and header a decoder is given, the facts it returns point into
the texts they name.  The rows are checked one by one while they arrive
(`RowsWf` is the invariant), and against the slot lengths at the end.
-/

namespace Lint4d.Facts

open Lint4d.Lib Lint4d.Cache FactDecoder Parser CoverageReason List

variable {bytes : Bytes} {segment : SegmentFact} {sizes : FactSizes} {decoder' : FactDecoder}

/-! ## What one row does -/

/-- What the rows decoded so far have in common. -/
structure RowsWf (facts : ArtifactFacts) : Prop where
  declaration_ids : Dense (fun fact : DeclarationFact => fact.id.toNat) 0 facts.declarations
  segments : SegmentsFrom 0 facts.segments
  include_slots : Dense (fun fact : IncludeFact => fact.slot.toNat) 1 facts.includes
  include_parents : ∀ fact ∈ facts.includes, fact.parent < fact.slot

namespace FactDecoder

open ByteReader

variable {sizes : FactSizes} {dec decoder' : FactDecoder} {input rest : Bytes} {name : Str}

/-- Charging changes the budget only. -/
lemma charge_ok {bytes : Nat} (h : (dec.charge bytes).run input = .ok (decoder', rest)) :
    decoder'.facts = dec.facts ∧ rest = input := by
  unfold charge at h
  split at h
  · obtain ⟨rfl, rfl⟩ := pure_ok.mp h
    exact ⟨rfl, rfl⟩
  · exact (throw_ok.mp h).elim

lemma malformed_bind_ok {α β : Type} {reason : String} {k : α → ByteReader β} {b : β} :
    (malformed reason >>= k).run input = .ok (b, rest) ↔ False :=
  throw_bind_ok

lemma declaration_ok (h : (dec.declaration sizes name).run input = .ok (decoder', rest)) :
    ∃ fact : DeclarationFact, fact.id.toNat = dec.facts.declarations.length ∧
      decoder'.facts = { dec.facts with
        declarations := dec.facts.declarations ++ [fact] } := by
  simp only [declaration, bind_ok] at h
  obtain ⟨id, _, -, h⟩ := h
  split at h
  · exact (malformed_bind_ok.mp h).elim
  · rename_i hid
    simp only [bind_ok, pure_ok] at h
    obtain ⟨_, _, -, _, _, -, _, _, -, _, _, -, _, _, -,
      _, _, -, _, _, -, _, _, -, _, _, -, _, _, -,
      _, _, -, _, _, -, _, _, -, _, _, hcharge, rfl, -⟩ := h
    obtain ⟨hfacts, -⟩ := charge_ok hcharge
    refine ⟨_, ?_, by rw [hfacts]⟩
    rw [not_not] at hid
    rw [← hid, UInt32.ofNat_toNat]

lemma import_ok (h : (dec.import sizes name).run input = .ok (decoder', rest)) :
    ∃ fact : ImportFact, decoder'.facts = { dec.facts with
      imports := dec.facts.imports ++ [fact] } := by
  simp only [«import», bind_ok] at h
  obtain ⟨_, _, -, h⟩ := h
  split at h
  · exact (malformed_bind_ok.mp h).elim
  · simp only [bind_ok, pure_ok] at h
    obtain ⟨_, _, -, «section», _, -, _, _, -, _, _, -, _, _, hcharge, rfl, -⟩ := h
    obtain ⟨hfacts, -⟩ := charge_ok hcharge
    exact ⟨_, by rw [hfacts]⟩

lemma openPosting_ok {before : List PostingFact} {read : List PostingOccurrence}
    (h : (dec.openPosting sizes name).run input = .ok ((decoder', before, read), rest)) :
    decoder'.facts = dec.facts := by
  unfold openPosting at h
  split at h
  · split at h
    · obtain ⟨heq, -⟩ := pure_ok.mp h
      cases heq
      rfl
    · split at h
      · exact (throw_ok.mp h).elim
      · simp only [bind_ok, pure_ok] at h
        obtain ⟨charged, _, hcharge, heq, -⟩ := h
        cases heq
        exact (charge_ok hcharge).1
  · simp only [bind_ok, pure_ok] at h
    obtain ⟨charged, _, hcharge, heq, -⟩ := h
    cases heq
    exact (charge_ok hcharge).1

lemma posting_ok (h : (dec.posting sizes name).run input = .ok (decoder', rest)) :
    ∃ postings, decoder'.facts = { dec.facts with postings } := by
  simp only [posting, bind_ok] at h
  obtain ⟨_, _, -, _, _, -, h⟩ := h
  split at h
  · exact (malformed_bind_ok.mp h).elim
  · simp only [bind_ok, pure_ok] at h
    obtain ⟨_, _, hcharge, ⟨_, before, _⟩, _, hopen, entries, _, -, rfl, -⟩ := h
    refine ⟨before ++ [⟨name, entries⟩], ?_⟩
    rw [openPosting_ok hopen, (charge_ok hcharge).1]

lemma include_ok (h : (dec.include sizes).run input = .ok (decoder', rest)) :
    ∃ fact : IncludeFact, fact.slot.toNat = dec.facts.includes.length + 1 ∧
      fact.parent < fact.slot ∧
      decoder'.facts = { dec.facts with includes := dec.facts.includes ++ [fact] } := by
  simp only [«include», bind_ok] at h
  obtain ⟨slot, _, -, parent, _, -, _, _, -, _, _, -, h⟩ := h
  split at h
  · exact (malformed_bind_ok.mp h).elim
  · rename_i hguard
    simp only [bind_ok, pure_ok] at h
    obtain ⟨_, _, hcharge, rfl, -⟩ := h
    simp only [Bool.or_eq_true, decide_eq_true_eq, not_or, not_not] at hguard
    exact ⟨_, hguard.1, UInt32.not_le.mp hguard.2, by rw [(charge_ok hcharge).1]⟩

lemma segment_ok (h : (dec.segment sizes).run input = .ok (decoder', rest)) :
    ∃ fact : SegmentFact, fact.expanded.start = segmentsEnd 0 dec.facts.segments ∧
      fact.expanded.isEmpty = false ∧
      decoder'.facts = { dec.facts with segments := dec.facts.segments ++ [fact] } := by
  simp only [segment, bind_ok] at h
  obtain ⟨expanded, _, -, _, _, -, h⟩ := h
  split at h
  · exact (malformed_bind_ok.mp h).elim
  · rename_i hguard
    simp only [bind_ok, pure_ok] at h
    obtain ⟨_, _, hcharge, rfl, -⟩ := h
    simp only [Bool.or_eq_true, decide_eq_true_eq, not_or, not_not, Bool.not_eq_true] at hguard
    exact ⟨_, hguard.1, hguard.2, by rw [(charge_ok hcharge).1]⟩

lemma payload_ok {α : Type} {read : ByteReader α} {v : α} :
    payload read bytes = .ok v ↔ read.run bytes = .ok (v, []) := by
  simp only [payload, bind_ok_iff, Prod.exists]
  constructor
  · intro ⟨w, rest, hrun, hk⟩
    split at hk
    · rename_i hempty
      obtain rfl := pure_ok_iff.mp hk
      rw [isEmpty_iff.mp hempty] at hrun
      exact hrun
    · exact (throw_ok_iff.mp hk).elim
  · intro h
    exact ⟨v, [], h, rfl⟩

end FactDecoder

variable {segments : List SegmentFact} {start : UInt32}

lemma SegmentsFrom.append_singleton (h : SegmentsFrom start segments)
    (hstart : segment.expanded.start = segmentsEnd start segments)
    (hne : segment.expanded.isEmpty = false) : SegmentsFrom start (segments ++ [segment]) := by
  induction segments generalizing start with
  | nil => exact ⟨hstart, hne, trivial⟩
  | cons _ segments ih =>
    refine ⟨h.1, h.2.1, ih h.2.2 ?_⟩
    rw [hstart]
    cases hlast : segments.getLast? with
    | none =>
      obtain rfl := getLast?_eq_none_iff.mp hlast
      rfl
    | some => simp [segmentsEnd, getLast?_cons, hlast]

variable {dec : FactDecoder}

/-- A row of any kind keeps what the rows before it have in common. -/
lemma rowOfKind_rowsWf {row : Row} (hwf : RowsWf dec.facts)
    (h : dec.rowOfKind sizes row = .ok decoder') : RowsWf decoder'.facts := by
  unfold rowOfKind at h
  split at h
  · obtain ⟨name, -, hdecl⟩ := bind_ok_iff.mp h
    obtain ⟨fact, hid, hfacts⟩ := declaration_ok (payload_ok.mp hdecl)
    rw [hfacts]
    refine ⟨hwf.declaration_ids.append_singleton ?_, hwf.segments, hwf.include_slots,
      hwf.include_parents⟩
    rw [hid, Nat.zero_add]
  split at h
  · obtain ⟨name, -, himport⟩ := bind_ok_iff.mp h
    obtain ⟨fact, hfacts⟩ := import_ok (payload_ok.mp himport)
    rw [hfacts]
    exact ⟨hwf.declaration_ids, hwf.segments, hwf.include_slots, hwf.include_parents⟩
  split at h
  · obtain ⟨name, -, hpost⟩ := bind_ok_iff.mp h
    obtain ⟨_, hfacts⟩ := posting_ok (payload_ok.mp hpost)
    rw [hfacts]
    exact ⟨hwf.declaration_ids, hwf.segments, hwf.include_slots, hwf.include_parents⟩
  split at h
  · cases h
  split at h
  · obtain ⟨fact, hslot, hpar, hfacts⟩ := include_ok (payload_ok.mp h)
    rw [hfacts]
    refine ⟨hwf.declaration_ids, hwf.segments, hwf.include_slots.append_singleton ?_, ?_⟩
    · rw [hslot, Nat.add_comm]
    · exact forall_mem_append.mpr ⟨hwf.include_parents, forall_mem_singleton.mpr hpar⟩
  split at h
  · obtain ⟨fact, hstart, hne, hfacts⟩ := segment_ok (payload_ok.mp h)
    rw [hfacts]
    exact ⟨hwf.declaration_ids, hwf.segments.append_singleton hstart hne,
      hwf.include_slots, hwf.include_parents⟩
  · cases h

/-- Every accepted sequence of batches leaves well-formed rows. -/
lemma pushAll_rowsWf {batches : List (List Row)} (hwf : RowsWf dec.facts)
    (h : dec.pushAll sizes batches = .ok decoder') : RowsWf decoder'.facts := by
  refine foldlM_invariant (P := fun d : FactDecoder => RowsWf d.facts) ?_ hwf h
  intro d batch d' hd hpush
  refine foldlM_invariant (P := fun d : FactDecoder => RowsWf d.facts) ?_ hd hpush
  intro d row d' hd hrow
  unfold pushRow at hrow
  split at hrow
  · cases hrow
  · refine rowOfKind_rowsWf ?_ hrow
    exact hd

lemma rowsWf_new (budget : FactBudget) : RowsWf (new budget).facts where
  declaration_ids := by
    intro i fact h
    simp [new] at h
  segments := trivial
  include_slots := by
    intro i fact h
    simp [new] at h
  include_parents := by simp [new]

/-! ## What the end of the input checks -/

namespace ArtifactFacts

variable {facts : ArtifactFacts} {idx length : UInt32} {range : TextRange}

lemma slot_ok_iff :
    facts.slot idx = .ok length ↔ facts.slotLengths[idx.toNat]? = some length := by
  unfold slot
  cases facts.slotLengths[idx.toNat]? with
  | none | some found => simp

lemma within_ok_iff : within range length = .ok () ↔ range.end ≤ length := by
  unfold within
  split <;> simp_all

lemma inSlot_iff :
    (do let length ← facts.slot idx; within range length) = .ok () ↔ facts.InSlot idx range := by
  simp only [bind_ok_iff, slot_ok_iff, within_ok_iff, InSlot]

lemma located_ok_iff {location : FactLocation} :
    facts.located location = .ok () ↔ facts.Located location := by
  cases location with
  | source _ range => exact inSlot_iff
  | expanded range => exact within_ok_iff

lemma validateDeclaration_ok_iff {fact : DeclarationFact} :
    facts.validateDeclaration fact = .ok () ↔
      facts.Located fact.location ∧ ∀ parent, fact.parent = some parent → parent < fact.id := by
  have hpar : (if fact.parent.any fun parent => fact.id ≤ parent then
      throw (.malformed "invalid declaration parent") else pure () : Except FactDecodeError Unit) =
        .ok () ↔ ∀ parent, fact.parent = some parent → parent < fact.id := by
    cases fact.parent with
    | none => simp [pure, Except.pure]
    | some parent =>
      by_cases hle : fact.id ≤ parent
      · simp [hle, throw_ok_iff]
      · simp [hle, pure, Except.pure, UInt32.not_le.mp hle]
  unfold validateDeclaration
  rw [bind_ok_iff]
  constructor
  · intro ⟨_, hlocated, hguard⟩
    exact ⟨located_ok_iff.mp hlocated, hpar.mp hguard⟩
  · intro h
    exact ⟨(), located_ok_iff.mpr h.1, hpar.mpr h.2⟩

lemma validateSegment_ok_iff :
    facts.validateSegment segment = .ok () ↔ facts.SegmentInSlot segment := by
  cases htarget : segment.target with
  | synthetic => simp [validateSegment, SegmentInSlot, htarget]
  | source idx start =>
    simp only [validateSegment, SegmentInSlot, htarget, bind_ok_iff, slot_ok_iff]
    constructor
    · intro h index' start' heq
      cases heq
      obtain ⟨length, hslot, hguard⟩ := h
      split at hguard
      · exact (throw_ok_iff.mp hguard).elim
      · rename_i hle
        exact ⟨length, hslot, Nat.le_of_not_lt hle⟩
    · intro h
      obtain ⟨length, hslot, hle⟩ := h idx start rfl
      refine ⟨length, hslot, ?_⟩
      rw [if_neg (Nat.not_lt.mpr hle)]
      rfl

lemma validateCover_ok_iff : facts.validateCover = .ok () ↔ facts.Covered := by
  unfold validateCover Covered
  cases hincludes : facts.includes with
  | nil =>
    cases hlast : facts.segments.getLast? with
    | none => simp [getLast?_eq_none_iff.mp hlast]
    | some last =>
      have hne : facts.segments ≠ [] := by
        intro hnil
        simp [hnil] at hlast
      simp [hne]
  | cons _ includes =>
    cases hlast : facts.segments.getLast? with
    | none | some last => simp

lemma validateSlots_ok_iff :
    facts.validateSlots = .ok () ↔ facts.slotLengths.length = facts.includes.length + 1 := by
  unfold validateSlots
  split <;> simp_all

/-- What `validate` establishes: the facts stay inside their texts and an
incomplete extraction says so. -/
structure Validated (facts : ArtifactFacts) : Prop where
  slots : facts.slotLengths.length = facts.includes.length + 1
  unresolved : ∀ fact ∈ facts.includes, fact.expansion = .unresolved →
    unresolvedInclude ∈ facts.coverage
  unmapped_declarations : ∀ fact ∈ facts.declarations, fact.location.isExpanded = true →
    unmappedLocation ∈ facts.coverage
  unmapped_imports : ∀ fact ∈ facts.imports, fact.location.isExpanded = true →
    unmappedLocation ∈ facts.coverage
  declarations : ∀ fact ∈ facts.declarations, facts.Located fact.location
  parents : ∀ fact ∈ facts.declarations, ∀ parent, fact.parent = some parent → parent < fact.id
  imports : ∀ fact ∈ facts.imports, facts.Located fact.location
  occurrences : ∀ posting ∈ facts.postings, ∀ occurrence ∈ posting.occurrences,
    facts.InSlot occurrence.slot occurrence.range
  includes : ∀ fact ∈ facts.includes, facts.InSlot fact.parent fact.directive
  covered : facts.Covered
  segments : ∀ segment ∈ facts.segments, facts.SegmentInSlot segment

lemma validateCoverage_ok_iff :
    facts.validateCoverage = .ok () ↔ (∀ fact ∈ facts.includes, fact.expansion = .unresolved →
        unresolvedInclude ∈ facts.coverage) ∧
      (∀ fact ∈ facts.declarations, fact.location.isExpanded = true →
        unmappedLocation ∈ facts.coverage) ∧
      (∀ fact ∈ facts.imports, fact.location.isExpanded = true →
        unmappedLocation ∈ facts.coverage) := by
  rw [validateCoverage, refuse_ok_iff, refuse_ok_iff]
  by_cases hinclude : unresolvedInclude ∈ facts.coverage <;>
    by_cases hmapped : unmappedLocation ∈ facts.coverage <;>
    simp [hinclude, hmapped]

lemma validate_ok_iff : facts.validate = .ok () ↔ Validated facts := by
  have hunit : ∀ {x : Except FactDecodeError Unit} {p : Unit → Except FactDecodeError Unit},
      x >>= p = .ok () ↔ x = .ok () ∧ p () = .ok () := by
    intro x p
    rw [bind_ok_iff]
    exact ⟨fun ⟨_, hx, hp⟩ => ⟨hx, hp⟩, fun ⟨hx, hp⟩ => ⟨(), hx, hp⟩⟩
  simp only [validate, hunit, forM_ok_iff, validateSlots_ok_iff, validateCoverage_ok_iff,
    validateDeclaration_ok_iff, validateImport, located_ok_iff, validateOccurrence,
    validateInclude, inSlot_iff, validateCover_ok_iff, validateSegment_ok_iff]
  constructor
  · intro ⟨hslots, ⟨hunresolved, hdeclared, himported⟩, hdecls, himports, hposts,
      hincludes, hcov, hsegs⟩
    exact ⟨hslots, hunresolved, hdeclared, himported, fun fact hfact => (hdecls fact hfact).1,
      fun fact hfact => (hdecls fact hfact).2, himports, hposts, hincludes, hcov,
      hsegs⟩
  · intro h
    exact ⟨h.slots, ⟨h.unresolved, h.unmapped_declarations, h.unmapped_imports⟩,
      fun fact hfact => ⟨h.declarations fact hfact, h.parents fact hfact⟩, h.imports,
      h.occurrences, h.includes, h.covered, h.segments⟩

end ArtifactFacts

namespace FactDecoder

/-- The header adds to the rows and leaves them as they were. -/
lemma finish_ok {facts : ArtifactFacts} (h : dec.finish bytes = .ok facts) :
    ArtifactFacts.Validated facts ∧ ∃ header : Supplemental, facts = header.complete dec.facts := by
  simp only [finish, bind_ok_iff, pure_ok_iff, Prod.exists] at h
  obtain ⟨_, header, hheader, _, -, _, hvalid, rfl⟩ := h
  refine ⟨ArtifactFacts.validate_ok_iff.mp hvalid, header, ?_⟩
  have hrun := payload_ok.mp hheader
  simp only [supplemental, bind_ok] at hrun
  obtain ⟨_, _, -, _, _, -, _, _, -, hrun⟩ := hrun
  split at hrun
  · exact (malformed_bind_ok.mp hrun).elim
  · simp only [bind_ok] at hrun
    obtain ⟨_, _, hcharge, _, _, -, _, _, -, _, _, -, _, _, -, hrun⟩ := hrun
    split at hrun
    · exact (malformed_bind_ok.mp hrun).elim
    · simp only [bind_ok, pure_ok] at hrun
      obtain ⟨_, _, -, heq, -⟩ := hrun
      cases heq
      rw [(charge_ok hcharge).1]

end FactDecoder

/-! ## The decoded facts -/

/-- The segments cut `0..length` into consecutive runs: every offset lies in
one, and no two overlap. -/
structure IsPartition (segments : List SegmentFact) (length : UInt32) : Prop where
  covers : ∀ offset : Nat, offset < length.toNat ↔ ∃ segment ∈ segments,
    segment.expanded.start.toNat ≤ offset ∧ offset < segment.expanded.end.toNat
  disjoint : segments.Pairwise fun a b => a.expanded.end ≤ b.expanded.start

lemma SegmentsFrom.start_le (h : SegmentsFrom start segments) :
    ∀ segment ∈ segments, start ≤ segment.expanded.start := by
  induction segments generalizing start with
  | nil => simp
  | cons first segments ih =>
    refine forall_mem_cons.mpr ⟨UInt32.le_of_eq h.1.symm, ?_⟩
    intro segment hseg
    have hlater := ih h.2.2 segment hseg
    rw [← h.1]
    exact UInt32.le_trans first.expanded.ordered hlater

lemma SegmentsFrom.covers (h : SegmentsFrom start segments) (off : Nat) :
    (start.toNat ≤ off ∧ off < (segmentsEnd start segments).toNat) ↔ ∃ segment ∈ segments,
        segment.expanded.start.toNat ≤ off ∧ off < segment.expanded.end.toNat := by
  induction segments generalizing start with
  | nil => simp [segmentsEnd]
  | cons first segments ih =>
    have hend : segmentsEnd start (first :: segments) =
        segmentsEnd first.expanded.end segments := by
      cases hlast : segments.getLast? with
      | none =>
        obtain rfl := getLast?_eq_none_iff.mp hlast
        rfl
      | some last => simp [segmentsEnd, getLast?_cons, hlast]
    have hord : first.expanded.start.toNat ≤ first.expanded.end.toNat := first.expanded.ordered
    have htail := ih h.2.2
    rw [hend, exists_mem_cons_iff, ← htail, ← h.1]
    -- The end of the first run splits the range.
    have hmono : first.expanded.end.toNat ≤ (segmentsEnd first.expanded.end segments).toNat := by
      cases hlast : segments.getLast? with
      | none => simp [segmentsEnd, hlast]
      | some last =>
        have hmem := mem_of_getLast? hlast
        have hstart : first.expanded.end.toNat ≤ last.expanded.start.toNat :=
          h.2.2.start_le last hmem
        have hlast' : last.expanded.start.toNat ≤ last.expanded.end.toNat := last.expanded.ordered
        simp only [segmentsEnd, hlast, Option.map_some, Option.getD_some]
        omega
    omega

lemma SegmentsFrom.nonempty (h : SegmentsFrom start segments) :
    ∀ segment ∈ segments, segment.expanded.start.toNat < segment.expanded.end.toNat := by
  induction segments generalizing start with
  | nil => simp
  | cons first segments ih =>
    refine forall_mem_cons.mpr ⟨?_, ih h.2.2⟩
    have hord : first.expanded.start.toNat ≤ first.expanded.end.toNat := first.expanded.ordered
    have hne : first.expanded.start.toNat ≠ first.expanded.end.toNat := by
      intro heq
      have hempty := h.2.1
      rw [TextRange.isEmpty, UInt32.toNat_inj.mp heq] at hempty
      simp at hempty
    omega

lemma SegmentsFrom.end_le (h : SegmentsFrom 0 segments) :
    ∀ segment ∈ segments, segment.expanded.end ≤ segmentsEnd 0 segments := by
  intro segment hseg
  have hlt := h.nonempty segment hseg
  have hlast := (h.covers (segment.expanded.end.toNat - 1)).mpr
    ⟨segment, hseg, by omega, by omega⟩
  apply UInt32.le_iff_toNat_le.mpr
  omega

lemma SegmentsFrom.disjoint (h : SegmentsFrom start segments) :
    segments.Pairwise fun a b => a.expanded.end ≤ b.expanded.start := by
  induction segments generalizing start with
  | nil => exact Pairwise.nil
  | cons _ segments ih =>
    exact pairwise_cons.mpr ⟨fun segment hseg => h.2.2.start_le segment hseg, ih h.2.2⟩

namespace ArtifactFacts

/-- Declaration `child` names declaration `parent` as its owner. -/
def IsParent (facts : ArtifactFacts) (parent child : Nat) : Prop :=
  ∃ fact id, facts.declarations[child]? = some fact ∧ fact.parent = some id ∧ id.toNat = parent

/-- Every location of the facts is inside the text it names, the declarations
form a forest, and the source map is a partition of the expanded text. -/
structure InBounds (facts : ArtifactFacts) : Prop where
  declarations : ∀ fact ∈ facts.declarations, facts.Located fact.location
  imports : ∀ fact ∈ facts.imports, facts.Located fact.location
  occurrences : ∀ posting ∈ facts.postings, ∀ occurrence ∈ posting.occurrences,
    facts.InSlot occurrence.slot occurrence.range
  includes : ∀ fact ∈ facts.includes, facts.InSlot fact.parent fact.directive
  segments : ∀ segment ∈ facts.segments, facts.SegmentInSlot segment ∧
    segment.expanded.end ≤ facts.expandedLength
  acyclic : ∀ i, ¬ Relation.TransGen facts.IsParent i i
  sourceMap : facts.includes ≠ [] → IsPartition facts.segments facts.expandedLength
  noSourceMap : facts.includes = [] →
    facts.segments = [] ∧ facts.slotLengths = [facts.expandedLength]

variable {facts : ArtifactFacts}

lemma Covered.segmentsEnd_eq (h : facts.Covered) (hne : facts.includes ≠ []) :
    segmentsEnd 0 facts.segments = facts.expandedLength := by
  rw [Covered, if_neg hne] at h
  obtain ⟨_, hlast, hend⟩ := h
  simp [segmentsEnd, hlast, hend]

/-- Parents come before their children, so no chain of them returns. -/
lemma isParent_acyclic (hrows : RowsWf facts) (hvalid : facts.Validated) (i : Nat) :
    ¬ Relation.TransGen facts.IsParent i i := by
  have hlt : ∀ parent child, facts.IsParent parent child → parent < child := by
    intro parent child hpar
    obtain ⟨fact, id, hfact, hid, rfl⟩ := hpar
    have hless : id.toNat < fact.id.toNat := hvalid.parents fact (mem_of_getElem? hfact) id hid
    have hdense : fact.id.toNat = 0 + child := hrows.declaration_ids child fact hfact
    omega
  intro hcycle
  have hself : ∀ j, Relation.TransGen facts.IsParent i j → i < j := by
    intro j hj
    induction hj with
    | single hstep => exact hlt _ _ hstep
    | tail _ hstep ih => exact Nat.lt_trans ih (hlt _ _ hstep)
  exact Nat.lt_irrefl i (hself i hcycle)

lemma inBounds_of_validated (hrows : RowsWf facts) (hvalid : facts.Validated) : facts.InBounds where
  declarations := hvalid.declarations
  imports := hvalid.imports
  occurrences := hvalid.occurrences
  includes := hvalid.includes
  segments := by
    intro segment hseg
    refine ⟨hvalid.segments segment hseg, ?_⟩
    have hne : facts.includes ≠ [] := by
      intro hnil
      have hcov := hvalid.covered
      rw [Covered, if_pos hnil] at hcov
      rw [hcov.1] at hseg
      cases hseg
    rw [← hvalid.covered.segmentsEnd_eq hne]
    exact hrows.segments.end_le segment hseg
  acyclic := isParent_acyclic hrows hvalid
  sourceMap := by
    intro hne
    refine ⟨?_, hrows.segments.disjoint⟩
    intro off
    have hcovers := hrows.segments.covers off
    rw [hvalid.covered.segmentsEnd_eq hne] at hcovers
    simpa using hcovers
  noSourceMap := by
    intro hnil
    have hcov := hvalid.covered
    rw [Covered, if_pos hnil] at hcov
    obtain ⟨_, hlen⟩ := length_eq_one_iff.mp (by simpa [hnil] using hvalid.slots)
    refine ⟨hcov.1, ?_⟩
    rw [hlen] at hcov ⊢
    simpa using hcov.2

end ArtifactFacts

/-- Decode the batches of rows, then the supplemental header. -/
def decodeFacts (sizes : FactSizes) (budget : FactBudget) (batches : List (List Row))
    (supplemental : Bytes) : Except FactDecodeError ArtifactFacts := do
  let decoder ← (new budget).pushAll sizes batches
  decoder.finish supplemental

/-- However corrupt the stored rows and header are, facts that decode point
inside their texts. -/
theorem decodeFacts_inBounds (sizes : FactSizes) (budget : FactBudget)
    (batches : List (List Row)) (supplemental : Bytes) (facts : ArtifactFacts)
    (h : decodeFacts sizes budget batches supplemental = .ok facts) : facts.InBounds := by
  obtain ⟨decoder, hpush, hfinish⟩ := bind_ok_iff.mp h
  have hrows := pushAll_rowsWf (rowsWf_new budget) hpush
  obtain ⟨hvalid, header, rfl⟩ := finish_ok hfinish
  have hrows' : RowsWf (header.complete decoder.facts) :=
    ⟨hrows.declaration_ids, hrows.segments, hrows.include_slots, hrows.include_parents⟩
  exact ArtifactFacts.inBounds_of_validated hrows' hvalid

/-- Sizes of a 64-bit layout. -/
def exampleSizes : FactSizes :=
  { declaration := 136, «import» := 80, posting := 48, occurrence := 16, «include» := 20,
    segment := 20 }

/-- Where the name of the declaration stands. -/
def nameRange : TextRange := ⟨0, 1, by decide⟩

/-- A declaration whose name is inside the root text and whose extent is not. -/
def overlongDeclaration : DeclarationFact where
  id := 0
  name := ⟨⟨[0x61], by decide⟩, by decide⟩
  display := ⟨⟨[0x41], by decide⟩, by decide⟩
  kind := .variable
  visibility := .public
  region := .interface
  origin := .declaration
  exported := true
  parent := none
  location := .source 0 nameRange
  certainty := { activity := .active, recovered := false }
  extent := .source 0 ⟨0, 9, by decide⟩
  shape := .variable
  unitScope := true
  owner := none

/-- Five bytes of text without includes. -/
def overlongFacts : ArtifactFacts where
  slotLengths := [5]
  expandedLength := 5
  declarations := [overlongDeclaration]

theorem decodeFacts_inBounds_overlongFacts :
    decodeFacts exampleSizes { limit := 4096, used := 0 } [encodeRows overlongFacts]
        (encodeSupplemental overlongFacts 0) = .ok overlongFacts ∧ overlongFacts.InBounds := by
  have hdecode : decodeFacts exampleSizes { limit := 4096, used := 0 }
      [encodeRows overlongFacts] (encodeSupplemental overlongFacts 0) = .ok overlongFacts := by
    decide +kernel
  exact ⟨hdecode, decodeFacts_inBounds _ _ _ _ _ hdecode⟩

/-- The stored rows of `overlongFacts` decode although the extent ends beyond its
slot, and without includes no segment covers the text. -/
theorem decodeFacts_extent_and_segments_unchecked :
    ∃ facts, decodeFacts exampleSizes { limit := 4096, used := 0 } [encodeRows overlongFacts]
        (encodeSupplemental overlongFacts 0) = .ok facts ∧
      ¬ (∀ fact ∈ facts.declarations, facts.Located fact.extent) ∧
      ¬ IsPartition facts.segments facts.expandedLength := by
  refine ⟨overlongFacts, by decide +kernel, ?_, ?_⟩
  · intro h
    obtain ⟨length, hlength, hend⟩ := h overlongDeclaration (by decide)
    obtain rfl : (5 : UInt32) = length := by simpa [overlongFacts] using hlength
    exact absurd hend (by decide)
  · intro h
    obtain ⟨_, hmem, -⟩ := (h.covers 0).mp (by decide)
    cases hmem

end Lint4d.Facts

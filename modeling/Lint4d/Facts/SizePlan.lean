import Lint4d.Lib.Checked
import Lint4d.Facts.Encode

/-!
# The size plan

The admission of facts before they are encoded works on sizes only.  Its formulas agree with the
encoders row by row, so the plan is exact: what it admits is what is stored.
-/

namespace Lint4d.Facts

open List Lint4d.Lib Lint4d.Cache Encoder

variable {α : Type} {name : Str} {plan plan' later : Plan} {facts : ArtifactFacts}

/-- The bytes the store counts for a row. -/
def Row.bytes (row : Row) : Nat :=
  row.payload.length + (row.indexKey.map fun key => key.toList.length).getD 0

def EncodedFacts.contentBytes (encoded : EncodedFacts) : Nat := (encoded.rows.map Row.bytes).sum

/-- The store takes the row. -/
def Row.Fits (row : Row) : Prop :=
  row.bytes ≤ maxRowBatchBytes ∧ ∀ key ∈ row.indexKey, key.toList.length ≤ maxIndexKeyBytes

/-! ## The formulas follow the encoders -/

lemma length_encodeRange (range : TextRange) : (encodeRange range).length = 8 := rfl

lemma length_encodeLocation (location : FactLocation) :
    (encodeLocation location).length = locationBytes location := by
  cases location <;> rfl

lemma length_encodeDeclaration (fact : DeclarationFact) :
    (encodeDeclaration fact).payload.length = declarationBytes fact := by
  obtain ⟨_, _, _, _, _, _, _, _, parent, _, _, _, _, _, owner⟩ := fact
  simp only [encodeDeclaration, declarationBytes, Str.len, lengthBytes, encodeCertainty,
    length_append, length_u32, length_str, length_u8, length_bool, length_option,
    length_encodeLocation]
  cases parent <;> cases owner <;> simp <;> omega

lemma length_encodeImport (fact : ImportFact) :
    (encodeImport fact).payload.length = importBytes fact := by
  simp [encodeImport, importBytes, Str.len, lengthBytes, encodeCertainty, length_encodeLocation]
  omega

lemma length_encodeChunk (chunk : List PostingOccurrence) :
    (encodeChunk name chunk).payload.length = lengthBytes + occurrenceBytes * chunk.length := by
  simp [encodeChunk, encodeOccurrence, length_encodeRange, lengthBytes, occurrenceBytes,
    Nat.mul_comm]

lemma length_encodeSegment (segment : SegmentFact) :
    (encodeSegment segment).payload.length = segmentBytes segment := by
  obtain ⟨_, target⟩ := segment
  cases target <;> rfl

lemma length_encodeSupplemental (facts : ArtifactFacts) (postingRows : Nat) :
    (encodeSupplemental facts postingRows).length = supplementalBytes facts := by
  simp [encodeSupplemental, supplementalBytes, lengthBytes, Nat.mul_comm]
  omega

/-! ## What admission grants -/

lemma occurrencesPerRow_pos (h : Str.len name ≤ maxIndexKeyBytes) :
    Str.len name + lengthBytes ≤ maxRowBatchBytes ∧ 0 < occurrencesPerRow name := by
  rw [maxIndexKeyBytes] at h
  refine ⟨?_, Nat.div_pos ?_ (by decide)⟩
  · rw [maxRowBatchBytes, lengthBytes]
    omega
  · rw [maxRowBatchBytes, lengthBytes, occurrenceBytes]
    omega

namespace Plan

/-- Every row is admitted and counted, and the totals stay within the limits. -/
structure Admits (plan : Plan) (admitted : List Row) (plan' : Plan) : Prop where
  fits : ∀ row ∈ admitted, row.Fits
  rows : plan'.rows = plan.rows + admitted.length
  content : plan'.content = plan.content + (admitted.map Row.bytes).sum
  limits : plan.rows ≤ maxArtifactRows ∧ plan.content ≤ maxArtifactContentBytes →
    plan'.rows ≤ maxArtifactRows ∧ plan'.content ≤ maxArtifactContentBytes

lemma Admits.append {rows more : List Row} (h : plan.Admits rows plan')
    (hmore : plan'.Admits more later) : plan.Admits (rows ++ more) later where
  fits := forall_mem_append.mpr ⟨h.fits, hmore.fits⟩
  rows := by rw [hmore.rows, h.rows, length_append, Nat.add_assoc]
  content := by rw [hmore.content, h.content, map_append, sum_append, Nat.add_assoc]
  limits := hmore.limits ∘ h.limits

lemma key_ok {bytes : Nat} (h : plan.key bytes = .ok ()) : bytes ≤ maxIndexKeyBytes := by
  exact not_lt.mp (refuse_ok_iff.mp h).1

lemma admit_ok {row : Row} (h : plan.admit row.bytes = .ok plan')
    (hkey : ∀ key ∈ row.indexKey, key.toList.length ≤ maxIndexKeyBytes) :
    plan.Admits [row] plan' := by
  simp only [refuse_ok_iff, Plan.admit] at h
  obtain ⟨hrow, hrows, hcontent, h⟩ := h
  cases h
  exact ⟨forall_mem_singleton.mpr ⟨by omega, hkey⟩, rfl, by simp, fun _ => by simp; omega⟩

/-- A row whose key and payload have the planned sizes. -/
lemma row_ok {row : Row} {key : Option Nat} {payload : Nat}
    (hkey : row.indexKey.map (fun key => key.toList.length) = key)
    (hpayload : row.payload.length = payload) (h : plan.row key payload = .ok plan') :
    plan.Admits [row] plan' := by
  subst hkey hpayload
  cases hindex : row.indexKey with
  | none =>
    exact admit_ok (by simpa [Row.bytes, hindex, Plan.row] using h) (by simp [hindex])
  | some key =>
    rw [hindex] at h
    obtain ⟨_, hkey, hadmit⟩ := bind_ok_iff.mp h
    exact admit_ok (by simpa [Row.bytes, hindex] using hadmit) (by simpa [hindex] using key_ok hkey)

lemma foldlM_ok {step : Plan → α → Except TooLarge Plan} {encode : α → List Row}
    (hstep : ∀ plan a plan', step plan a = .ok plan' → plan.Admits (encode a) plan')
    {items : List α} (h : items.foldlM step plan = .ok plan') :
    plan.Admits (items.flatMap encode) plan' := by
  induction items generalizing plan with
  | nil =>
    obtain rfl := pure_ok_iff.mp h
    exact ⟨by simp, rfl, rfl, id⟩
  | cons a items ih =>
    rw [foldlM_cons, bind_ok_iff] at h
    obtain ⟨_, hmid, hrest⟩ := h
    exact (hstep _ _ _ hmid).append (ih hrest)

/-- Rows of one kind, one for each fact. -/
lemma foldlM_row_ok {encode : α → Row} {key : α → Option Nat} {payload : α → Nat}
    (hkey : ∀ a, (encode a).indexKey.map (fun key => key.toList.length) = key a)
    (hpayload : ∀ a, (encode a).payload.length = payload a) {items : List α}
    (h : items.foldlM (fun plan a => Plan.row plan (key a) (payload a)) plan = .ok plan') :
    plan.Admits (items.map encode) plan' := by
  rw [← flatMap_pure_eq_map]
  exact foldlM_ok (fun _ a _ => row_ok (hkey a) (hpayload a)) h

/-- A planned posting admits all its rows. -/
lemma posting_ok (plan : Plan) (posting : PostingFact) (plan' : Plan)
    (h : plan.posting posting = .ok plan') : plan.Admits (encodePosting posting) plan' := by
  obtain ⟨_, -, hrows⟩ := bind_ok_iff.mp h
  exact foldlM_row_ok (fun _ => rfl) length_encodeChunk hrows

end Plan

/-- The facts the encoder admits: short keys, few rows and a small header. -/
structure Admitted (facts : ArtifactFacts) : Prop where
  keys : ∀ posting ∈ facts.postings, Str.len posting.name ≤ maxIndexKeyBytes
  rows : (encodeRows facts).length ≤ maxArtifactRows
  header : supplementalBytes facts ≤ maxSupplementalBytes

lemma foldlM_each {α σ ε : Type} {step : σ → α → Except ε σ} {P : α → Prop}
    (hstep : ∀ s a s', step s a = .ok s' → P a) {items : List α} {s t : σ}
    (h : items.foldlM step s = .ok t) : ∀ a ∈ items, P a := by
  induction items generalizing s with
  | nil => simp
  | cons a items ih =>
    rw [foldlM_cons, bind_ok_iff] at h
    obtain ⟨mid, hmid, hrest⟩ := h
    exact forall_mem_cons.mpr ⟨hstep s a mid hmid, ih hrest⟩

/-- A size comes from a plan that admits every row. -/
lemma plan_of_encodedContentBytes {bytes : Nat} (h : encodedContentBytes facts = .ok bytes) :
    ∃ plan, Plan.Admits {} (encodeRows facts) plan ∧ plan.content = bytes ∧
      (∀ posting ∈ facts.postings, Str.len posting.name ≤ maxIndexKeyBytes) ∧
      supplementalBytes facts ≤ maxSupplementalBytes := by
  simp only [encodedContentBytes, bind_ok_iff] at h
  obtain ⟨_, hheader, _, h1, _, h2, _, h3, _, h4, plan, h5, hbytes⟩ := h
  refine ⟨plan, ?_, (pure_ok_iff.mp hbytes).symm, foldlM_each (fun plan posting _ h => ?_) h3, ?_⟩
  · have c1 := Plan.foldlM_row_ok (fun _ => rfl) length_encodeDeclaration h1
    have c2 := Plan.foldlM_row_ok (fun _ => rfl) length_encodeImport h2
    have c3 := Plan.foldlM_ok Plan.posting_ok h3
    have c4 : Plan.Admits _ (map encodeInclude _) _ :=
      Plan.foldlM_row_ok (fun _ => rfl) (fun _ => rfl) h4
    have c5 := Plan.foldlM_row_ok (fun _ => rfl) length_encodeSegment h5
    exact (((c1.append c2).append c3).append c4).append c5
  · obtain ⟨_, hkey, -⟩ := bind_ok_iff.mp h
    exact Plan.key_ok hkey
  · exact not_lt.mp (refuse_ok_iff.mp hheader).1

/-- Facts with a size are within every limit. -/
lemma admitted_of_encodedContentBytes {bytes : Nat}
    (h : encodedContentBytes facts = .ok bytes) : Admitted facts := by
  obtain ⟨_, hplan, -, hkeys, hheader⟩ := plan_of_encodedContentBytes h
  refine ⟨hkeys, ?_, hheader⟩
  have hlimit := (hplan.limits ⟨Nat.zero_le _, Nat.zero_le _⟩).1
  rwa [hplan.rows, Nat.zero_add] at hlimit

/-- The plan is exact: it succeeds just when the encoder does, with the number of bytes the
encoder writes, and what it admits fits the store. -/
theorem size_plan_exact (facts : ArtifactFacts) :
    ((∃ n, encodedContentBytes facts = .ok n) ↔ ∃ encoded, encodeFacts facts = .ok encoded) ∧
    (∀ n encoded, encodedContentBytes facts = .ok n → encodeFacts facts = .ok encoded →
      n = encoded.contentBytes ∧ n ≤ maxArtifactContentBytes ∧
      (∀ row ∈ encoded.rows, row.Fits) ∧ encoded.rows.length ≤ maxArtifactRows ∧
      encoded.supplemental.length = supplementalBytes facts ∧
      supplementalBytes facts ≤ maxSupplementalBytes ∧
      ∀ posting ∈ facts.postings, Str.len posting.name + lengthBytes ≤ maxRowBatchBytes ∧
        0 < occurrencesPerRow posting.name) ∧
    -- While it plans, a list is cut into chunks only after its key has passed.
    ∀ (plan : Plan) (posting : PostingFact),
      (Str.len posting.name + lengthBytes ≤ maxRowBatchBytes ∧ 0 < occurrencesPerRow posting.name) ∨
      ∃ error, plan.key (Str.len posting.name) = .error error ∧
        plan.posting posting = .error error := by
  refine ⟨⟨?_, ?_⟩, ?_, fun plan posting => ?_⟩
  · rintro ⟨n, hn⟩
    exact ⟨_, by rw [encodeFacts, hn]; rfl⟩
  · rintro ⟨encoded, hencoded⟩
    obtain ⟨n, hn, -⟩ := bind_ok_iff.mp hencoded
    exact ⟨n, hn⟩
  · intro n encoded hn hencoded
    obtain ⟨plan, hplan, rfl, hkeys, hheader⟩ := plan_of_encodedContentBytes hn
    rw [encodeFacts, hn] at hencoded
    cases hencoded
    obtain ⟨hrows, hcontent⟩ := hplan.limits ⟨Nat.zero_le _, Nat.zero_le _⟩
    refine ⟨?_, hcontent, hplan.fits, ?_, length_encodeSupplemental _ _, hheader,
      fun posting hp => occurrencesPerRow_pos (hkeys posting hp)⟩
    · rw [hplan.content, Nat.zero_add]
      rfl
    · rwa [hplan.rows, Nat.zero_add] at hrows
  · cases hkey : plan.key (Str.len posting.name) with
    | ok => exact .inl (occurrencesPerRow_pos (Plan.key_ok hkey))
    | error error => exact .inr ⟨error, rfl, by rw [Plan.posting, hkey]; rfl⟩

end Lint4d.Facts

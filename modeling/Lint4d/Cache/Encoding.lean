import Lint4d.Lib.Codec

/-!
# Canonical encoding v1

The byte encoder of the persistent cache (`encoding.rs`, `path.rs`) and the
bounded reader of its output (`decode.rs`), for a 64-bit Unix target.

An encoder call is modelled by the bytes it appends, so a sequence of calls is
a concatenation.  The reader is a parser with the source's error texts.  Every
primitive of the encoder is paired with the reader's by an `Exact` lemma.
-/

namespace Lint4d.Cache

open Lint4d.Lib

variable {α : Type} {b : α}

abbrev Bytes := List UInt8

/-! ## Values -/

/-- A 32-byte digest (`Digest`). -/
@[ext]
structure Digest where
  bytes : Bytes
  size : bytes.length = 32
deriving DecidableEq

/-- A `Vec`: its length fits a `usize`. -/
@[ext]
structure Vec (α : Type) where
  toList : List α
  bounded : toList.length < 2 ^ 64
deriving DecidableEq

/-- A native Unix path: any bytes, kept exactly as spelled. -/
abbrev PathBuf := Vec UInt8

/-- `std::str::from_utf8` accepts these bytes. -/
def isUtf8 (bytes : Bytes) : Bool := (ByteArray.mk bytes.toArray).validateUTF8

/-- A `String`, as its UTF-8 bytes. -/
@[ext]
structure Str where
  bytes : Vec UInt8
  utf8 : isUtf8 bytes.toList = true
deriving DecidableEq

/-! ## The encoder -/

namespace Encoder

def u8 (value : UInt8) : Bytes := [value]

def bool (value : Bool) : Bytes := u8 (if value then 1 else 0)

def u16 (value : UInt16) : Bytes := leBytes 2 value.toNat

def u32 (value : UInt32) : Bytes := leBytes 4 value.toNat

def u64 (value : UInt64) : Bytes := leBytes 8 value.toNat

/-- A length or count; lengths fit in `u64`. -/
def length (length : Nat) : Bytes := u64 (UInt64.ofNat length)

def bytes (value : Bytes) : Bytes := length value.length ++ value

def str (value : Str) : Bytes := bytes value.bytes.toList

def digest (value : Digest) : Bytes := value.bytes

def field (tag : UInt16) : Bytes := u16 tag

def variant (tag : UInt8) : Bytes := u8 tag

/-- `Option` is 0, or 1 followed by the value. -/
def option {α : Type} (value : Option α) (encode : α → Bytes) : Bytes :=
  match value with
  | none => u8 0
  | some value => u8 1 ++ encode value

/-- A count, then the items in their order. -/
def seq {α : Type} (items : List α) (encode : α → Bytes) : Bytes :=
  length items.length ++ items.flatMap encode

/-- `CanonicalEncode for Path` on Unix. -/
def path (value : PathBuf) : Bytes := variant 1 ++ bytes value.toList

@[simp] lemma length_u8 (value : UInt8) : (u8 value).length = 1 := rfl

@[simp] lemma length_bool (value : Bool) : (bool value).length = 1 := rfl

@[simp] lemma length_u32 (value : UInt32) : (u32 value).length = 4 := length_leBytes _ _

@[simp] lemma length_u64 (value : UInt64) : (u64 value).length = 8 := length_leBytes _ _

@[simp] lemma length_bytes (value : Bytes) : (bytes value).length = 8 + value.length := by
  simp [bytes, length]

@[simp] lemma length_str (value : Str) : (str value).length = 8 + value.bytes.toList.length :=
  length_bytes _

@[simp] lemma length_option {α : Type} (value : Option α) (encode : α → Bytes) :
    (option value encode).length = 1 + (value.map fun value => (encode value).length).getD 0 := by
  cases value <;> simp [option, Nat.add_comm]

@[simp] lemma length_seq {α : Type} (items : List α) (encode : α → Bytes) :
    (seq items encode).length = 8 + (items.map fun item => (encode item).length).sum := by
  simp [seq, length, List.length_flatMap]

end Encoder

open Encoder

/-! ## The reader -/

/-- `Reader` and its `Decoded` results. -/
abbrev Reader := Parser String UInt8

namespace Reader

/-- `Option::ok_or` with an error text. -/
def okOr {α : Type} (value : Option α) (message : String) : Reader α :=
  match value with
  | some value => pure value
  | none => throw message

def u8 : Reader UInt8 := Parser.byte "truncated"

def u16 : Reader UInt16 := Parser.word16 "truncated"

def u64 : Reader UInt64 := Parser.word64 "truncated"

/-- A `usize` is 64 bits wide, so the conversion of a length never overflows. -/
def length : Reader UInt64 := u64

def field (tag : UInt16) : Reader Unit := do
  let found ← u16
  if found = tag then pure () else throw "unexpected field"

def bool : Reader Bool := Parser.flag "truncated" "invalid bool"

/-- An `Option`: its 0/1 tag, then the value if present. -/
def optional {α : Type} (read : Reader α) : Reader (Option α) := do
  if ← bool then some <$> read else pure none

def digest : Reader Digest := Parser.fixed "truncated" 32 fun bytes => ⟨bytes.val, bytes.property⟩

/-- A length, then that many bytes. -/
def vec : Reader (Vec UInt8) := do
  let bytes ← Parser.counted "truncated"
  pure ⟨bytes.val, bytes.property⟩

def str : Reader Str := do
  let bytes ← vec
  if h : isUtf8 bytes.toList = true then pure ⟨bytes, h⟩ else throw "invalid UTF-8"

def path : Reader PathBuf := do
  let tag ← u8
  if tag ≠ 1 then throw "foreign path encoding"
  vec

/-- Nothing may follow a complete value. -/
def finish : Reader Unit := Parser.finish "trailing bytes"

end Reader

/-! ## The reader inverts the encoder -/

lemma exact_u8 : Exact Always u8 Reader.u8 := exact_byte _

lemma exact_u16 : Exact Always u16 Reader.u16 := exact_word16 _

lemma exact_u64 : Exact Always u64 Reader.u64 := exact_word64 _

lemma exact_length : Exact Always u64 Reader.length := exact_u64

lemma exact_digest : Exact Always digest Reader.digest :=
  exact_fixed _ (fun v => v.size) (fun _ => rfl) (fun _ => rfl)

lemma exact_bool : Exact Always bool Reader.bool := exact_flag _ _

variable {input rest : Bytes} {k : Reader α}

/-- A field tag is the constant prefix of what follows. -/
lemma field_bind_ok {tag : UInt16} :
    (do Reader.field tag; k).run input = .ok (b, rest) ↔
      ∃ mid, input = field tag ++ mid ∧ k.run mid = .ok (b, rest) := by
  simp only [Reader.field, bind_assoc, exact_u16.bind_ok, field]
  constructor
  · rintro ⟨_, -, mid, rfl, hk⟩
    split at hk
    · rename_i heq
      subst heq
      exact ⟨mid, rfl, by simpa using hk⟩
    · exact (Parser.throw_bind_ok.mp hk).elim
  · rintro ⟨mid, rfl, hk⟩
    exact ⟨tag, trivial, mid, rfl, by simpa using hk⟩

variable {enc : α → Bytes}

lemma exact_field {valid : α → Prop} (tag : UInt16) (h : Exact valid enc k) :
    Exact valid (fun v => field tag ++ enc v) (do Reader.field tag; k) := by
  intro input v rest
  simp only [field_bind_ok, List.append_assoc]
  constructor
  · rintro ⟨_, rfl, hk⟩
    exact ⟨(h.sound hk).1, by rw [← (h.sound hk).2]⟩
  · rintro ⟨hv, rfl⟩
    exact ⟨_, rfl, h.complete hv rest⟩

/-- An enumeration stored as one tag byte, decoded through a partial inverse. -/
lemma exact_tag {tag : α → UInt8} {fromTag : UInt8 → Option α} {message : String}
    (h : ∀ t a, fromTag t = some a ↔ t = tag a) :
    Exact Always (fun a => variant (tag a))
      (do Reader.okOr (fromTag (← Reader.u8)) message) := by
  refine (exact_u8.andThen tag fun t => ?_).of_enc fun _ => rfl
  cases hfrom : fromTag t with
  | none => exact .of_throw fun v => by simp [eq_comm (b := t), ← h, hfrom]
  | some a => exact .of_pure fun v => by simp [eq_comm (b := t), ← h, hfrom, eq_comm (a := a)]

lemma exact_option {read : Reader α} (h : Exact Always enc read) :
    Exact Always (fun v => option v enc) (Reader.optional read) := by
  intro input v rest
  simp only [Reader.optional, exact_bool.bind_ok]
  constructor
  · rintro ⟨tag, -, _, rfl, hk⟩
    cases tag with
    | false =>
      obtain ⟨rfl, rfl⟩ := Parser.pure_ok.mp hk
      exact ⟨trivial, rfl⟩
    | true =>
      obtain ⟨a, ha, rfl⟩ := Parser.map_ok.mp hk
      obtain ⟨-, rfl⟩ := h.sound ha
      exact ⟨trivial, rfl⟩
  · rintro ⟨-, rfl⟩
    cases v with
    | none => exact ⟨false, trivial, rest, rfl, Parser.pure_ok.mpr ⟨rfl, rfl⟩⟩
    | some a =>
      exact ⟨true, trivial, enc a ++ rest, rfl, Parser.map_ok.mpr ⟨a, h.complete trivial rest, rfl⟩⟩

lemma exact_vec : Exact Always (fun v : Vec UInt8 => bytes v.toList) Reader.vec := by
  refine (exact_counted _).bind_pure (fun _ => rfl) fun v => ?_
  simp only [true_and, true_iff]
  exact ⟨⟨v.toList, v.bounded⟩, rfl⟩

lemma exact_str : Exact Always str Reader.str := by
  refine (exact_vec.andThen Str.bytes fun bs => ?_).of_enc fun _ => (List.append_nil _).symm
  split
  · exact .of_pure fun v => by cases v; simp
  · rename_i hbs
    exact .of_throw fun v hv => hbs (hv.2 ▸ v.utf8)

lemma exact_path : Exact Always path Reader.path := by
  refine exact_u8.andThen (fun _ => 1) fun tag => ?_
  intro input v rest
  split
  · rename_i htag
    rw [Parser.throw_bind_ok, false_iff]
    exact fun hv => htag hv.1.2.symm
  · rename_i htag
    simp [not_not.mp htag, exact_vec _ _ _]

/-- Decoding a whole byte string: a reader for its body, then nothing left. -/
lemma finish_bind_ok :
    (do Reader.finish; k).run input = .ok (b, rest) ↔ input = [] ∧ k.run [] = .ok (b, rest) := by
  simp only [Reader.finish, Parser.bind_ok, Parser.finish_ok]
  constructor
  · rintro ⟨-, _, ⟨rfl, rfl⟩, hk⟩
    exact ⟨rfl, hk⟩
  · rintro ⟨rfl, hk⟩
    exact ⟨(), [], ⟨rfl, rfl⟩, hk⟩

end Lint4d.Cache

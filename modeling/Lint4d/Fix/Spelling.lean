import Lint4d.Fix.Restricted

/-!
# Spellings

Every map of the fixer takes the lower case of a name to a spelling of it.  The
declarations that are collected, the local renames that are kept and the
contexts of routines all preserve this.
-/

namespace Lint4d.Fix

open Lint4d.Cache Lint4d.Lib Lint4d.Lib.Utf8 List

variable {text : Text}

/-- Every character is ASCII. -/
def IsAscii (text : Text) : Prop := ∀ c ∈ text, c.toNat < 128

/-- The value is a spelling of the key.  It is ASCII unless the key is no identifier. -/
def Spelling (unicode : Unicode) (key value : Text) : Prop :=
  lowercase unicode value = key ∧ (IsAscii value ∨ '.' ∈ key ∨ '<' ∈ key)

/-- Every key is mapped to a spelling of it. -/
def NameMap.Spelled (unicode : Unicode) (map : NameMap) : Prop :=
  ∀ key value, map key = some value → Spelling unicode key value

variable {unicode : Unicode}

namespace NameMap.Spelled

variable {map other : NameMap} {key value : Text}

lemma empty : NameMap.empty.Spelled unicode := nofun

section

variable (h : map.Spelled unicode)

include h

/-- A name may be bound to any spelling of it. -/
lemma insert (hvalue : Spelling unicode key value) : (map.insert key value).Spelled unicode := by
  intro name spelling hname
  unfold NameMap.insert at hname
  split at hname
  · next heq =>
    cases hname
    exact heq ▸ hvalue
  · exact h name spelling hname

lemma erase : (map.erase key).Spelled unicode := by
  intro name spelling hname
  exact h name spelling (Option.ite_none_left_eq_some.1 hname).2

/-- Where one map has no entry, the other one answers. -/
lemma or (hother : other.Spelled unicode) :
    NameMap.Spelled unicode fun name => (map name).or (other name) := by
  intro name spelling hname
  rcases Option.or_eq_some_iff.1 hname with hname | ⟨-, hname⟩
  · exact h name spelling hname
  · exact hother name spelling hname

lemma restrict (p : Text → Bool) :
    NameMap.Spelled unicode fun name => if p name then none else map name := by
  intro name spelling hname
  exact h name spelling (Option.ite_none_left_eq_some.1 hname).2

end

end NameMap.Spelled

/-! ## Identifiers -/

variable {c : Char}

lemma isIdentifierContinue_of_start (h : isIdentifierStart c) : isIdentifierContinue c := by
  unfold isIdentifierStart at h
  unfold isIdentifierContinue
  grind

variable {word : Text}

/-- An identifier may start with an ampersand. -/
lemma mem_identifier (h : isIdentifier word) (hc : c ∈ word) :
    c = '&' ∨ isIdentifierContinue c := by
  unfold isIdentifier at h
  split at h
  · simp only [Bool.and_eq_true, all_eq_true] at h
    rcases mem_cons.1 hc with rfl | hc
    · exact .inl rfl
    · rcases mem_cons.1 hc with rfl | hc
      · exact .inr (isIdentifierContinue_of_start h.1)
      · exact .inr (h.2 c hc)
  · simp only [Bool.and_eq_true, all_eq_true] at h
    rcases mem_cons.1 hc with rfl | hc
    · exact .inr (isIdentifierContinue_of_start h.1)
    · exact .inr (h.2 c hc)
  · cases h

lemma isDigit_iff : c.isDigit = true ↔ 48 ≤ c.toNat ∧ c.toNat ≤ 57 := Char.isDigit_iff_toNat

/-- Letters, the underscore, digits and the dollar sign. -/
lemma identifierContinue_toNat (h : isIdentifierContinue c) :
    (65 ≤ c.toNat ∧ c.toNat ≤ 90) ∨ (97 ≤ c.toNat ∧ c.toNat ≤ 122) ∨ c.toNat = 95 ∨
      (48 ≤ c.toNat ∧ c.toNat ≤ 57) ∨ c.toNat = 36 := by
  simp only [isIdentifierContinue, Bool.or_eq_true, decide_eq_true_eq, isAlpha_iff, isDigit_iff] at h
  rcases h with ((h | rfl) | h) | rfl
  · omega
  · decide
  · omega
  · decide

/-- The characters of an identifier are ASCII and neither dots nor angle brackets, also in lower
case. -/
lemma identifier_char (h : isIdentifier word) (hc : c ∈ word) :
    c.toNat < 128 ∧ c.toLower ≠ '.' ∧ c.toLower ≠ '<' := by
  have hcode : c.toNat = 38 ∨ (65 ≤ c.toNat ∧ c.toNat ≤ 90) ∨ (97 ≤ c.toNat ∧ c.toNat ≤ 122) ∨
      c.toNat = 95 ∨ (48 ≤ c.toNat ∧ c.toNat ≤ 57) ∨ c.toNat = 36 := by
    rcases mem_identifier h hc with rfl | hc
    · exact .inl rfl
    · exact .inr (identifierContinue_toNat hc)
  have hlower := toLower_toNat c
  refine ⟨by omega, ?_, ?_⟩
  · intro heq
    have : c.toLower.toNat = 46 := by rw [heq]; rfl
    split at hlower <;> omega
  · intro heq
    have : c.toLower.toNat = 60 := by rw [heq]; rfl
    split at hlower <;> omega

lemma isAscii_identifier (h : isIdentifier word) : IsAscii word :=
  fun _ hc => (identifier_char h hc).1

lemma identifier_ne_nil (h : isIdentifier word) : word ≠ [] := by
  rintro rfl
  cases h

/-- A spelling of the lower case of an identifier agrees with it up to case. -/
lemma Spelling.agree (hascii : unicode.Ascii) {value : Text} (hword : isIdentifier word)
    (h : Spelling unicode (lowercase unicode word) value) : IsAscii value ∧ Agree word value := by
  obtain ⟨hlower, hvalue⟩ := h
  have hplain : ∀ c, c = '.' ∨ c = '<' → c ∉ lowercase unicode word := by
    intro c hc hmem
    rw [lowercase_ascii hascii (isAscii_identifier hword), mem_map] at hmem
    obtain ⟨d, hd, rfl⟩ := hmem
    have := identifier_char hword hd
    tauto
  have hascii' : IsAscii value := by
    rcases hvalue with hvalue | hdot | hangle
    · exact hvalue
    · exact absurd hdot (hplain _ (.inl rfl))
    · exact absurd hangle (hplain _ (.inr rfl))
  exact ⟨hascii', agree_of_lowercase_eq hascii (isAscii_identifier hword) hascii' hlower.symm⟩

/-! ## The text of a node -/

lemma decodeBytes_encode (text : Text) : decodeBytes (encode text) = text := by
  simp [decodeBytes]

/-- An ASCII byte is a character of its own in every decoding. -/
lemma mem_decodeBytes {bytes : Bytes} (hc : c.toNat < 128) (h : UInt8.ofNat c.toNat ∈ bytes) :
    c ∈ decodeBytes bytes := by
  unfold decodeBytes
  cases hd : decode? bytes with
  | none =>
    rw [Option.getD_none, mem_map]
    refine ⟨_, h, ?_⟩
    rw [UInt8.toNat_ofNat', Nat.mod_eq_of_lt (by omega), Char.ofNat_toNat]
  | some =>
    rw [Option.getD_some]
    obtain rfl := decode?_eq_some_iff.1 hd
    obtain ⟨d, hd, hbyte⟩ := mem_flatMap.1 h
    by_cases hlt : d.toNat < 128
    · rw [utf8EncodeChar_ascii hlt, mem_singleton] at hbyte
      rwa [eq_of_ofNat_eq hc hlt hbyte]
    · have := le_of_mem_utf8EncodeChar (by omega) hbyte
      rw [UInt8.toNat_ofNat', Nat.mod_eq_of_lt (by omega)] at this
      omega

variable {node : Node} {name : Node}

namespace SyntaxTree

variable {src : Bytes} (tree : SyntaxTree src)

/-- The text of an identifier node is an identifier, and its bytes encode it. -/
lemma identifier_text (hvalid : node.Valid tree.root) (hkind : node.kind = .identifier) :
    isIdentifier (nodeText src node) ∧ nodeBytes src node = encode (nodeText src node) := by
  obtain ⟨word, hword, hbytes⟩ := tree.identifier node hvalid hkind
  have htext : nodeText src node = word := by
    rw [nodeText, ← nodeBytes, hbytes, decodeBytes_encode]
  rw [htext]
  exact ⟨hword, hbytes⟩

/-- The node is an identifier of the tree. -/
def IsIdentifierNode (node : Node) : Prop := node.Valid tree.root ∧ node.kind = .identifier

lemma spelling_identifier (h : tree.IsIdentifierNode node) :
    Spelling unicode (lowercase unicode (nodeText src node)) (nodeText src node) :=
  ⟨rfl, .inl (isAscii_identifier (tree.identifier_text h.1 h.2).1)⟩

/-- The name of a type or constant may be dotted or generic, and is then no identifier. -/
lemma spelling_declarationName (hascii : unicode.Ascii) (hvalid : node.Valid tree.root)
    (hkind : node.kind = .declType ∨ node.kind = .declConst)
    (hname : node.childByFieldName .name = some name) :
    Spelling unicode (lowercase unicode (nodeText src name)) (nodeText src name) := by
  rcases tree.declarationName node name hvalid hkind hname with hident | hdot | hangle
  · exact tree.spelling_identifier
      ⟨hvalid.child (Cursor.mem_children_of_childByFieldName hname), hident⟩
  · exact ⟨rfl, .inr (.inl (mem_lowercase hascii (by decide) (by decide)
      (mem_decodeBytes (by decide) hdot)))⟩
  · exact ⟨rfl, .inr (.inr (mem_lowercase hascii (by decide) (by decide)
      (mem_decodeBytes (by decide) hangle)))⟩

end SyntaxTree

/-! ## The nodes that are asked for -/

variable {decl : Node}

lemma kind_of_mem_declaredNames (h : name ∈ declaredNames decl) : name.kind = .identifier := by
  have := (mem_filter.1 h).2
  simp only [decide_eq_true_eq] at this
  exact this.1

section Valid

variable {root : Tree} {child : Node}

mutual

/-- Effective children are nodes of the tree, however many blocks are looked through. -/
lemma valid_effectiveChildrenOf {insideBlock : Bool} {above : List (Place Kind Field)}
    {child : Node} : ∀ {node : Tree}, Cursor.Valid root ⟨above, node⟩ →
      child ∈ effectiveChildrenOf insideBlock above node → child.Valid root
  | .mk .. => by
    intro hvalid hchild
    exact valid_effectiveChildrenIn hvalid (fun j => by rw [Nat.zero_add]; rfl) hchild

lemma valid_effectiveChildrenIn {insideBlock : Bool} {parent : Node} {idx : Nat}
    {child : Node} (hvalid : parent.Valid root) :
    ∀ {kids : List (Child Field Tree)}, (∀ j, parent.node.children[idx + j]? = kids[j]?) →
      child ∈ effectiveChildrenIn insideBlock parent idx kids → child.Valid root
  | [] => by
    intro _ hchild
    cases hchild
  | head :: rest => by
    intro hkids hchild
    have hhead : (parent.down idx head.node).Valid root := ⟨⟨head.field, hkids 0⟩, hvalid⟩
    rw [effectiveChildrenIn, mem_append] at hchild
    rcases hchild with hchild | hchild
    · split at hchild
      · exact valid_effectiveChildrenOf hhead hchild
      · split at hchild
        · cases hchild
        · rwa [mem_singleton.1 hchild]
    · refine valid_effectiveChildrenIn hvalid (fun j => ?_) hchild
      rw [Nat.add_assoc, Nat.add_comm 1 j, hkids (j + 1), getElem?_cons_succ]

end

lemma valid_effectiveChildren (hvalid : node.Valid root)
    (h : child ∈ effectiveChildren node) : child.Valid root :=
  valid_effectiveChildrenOf hvalid h

variable {node decl : Node}

lemma valid_fieldDeclarations (hvalid : node.Valid root) (h : decl ∈ fieldDeclarations node) :
    decl.Valid root := by
  obtain ⟨_, hsection, hdecl⟩ := mem_flatMap.1 h
  exact valid_effectiveChildren (valid_effectiveChildren hvalid (mem_of_mem_filter hsection))
    (mem_of_mem_filter hdecl)

lemma valid_variableDeclarations (hvalid : node.Valid root)
    (h : decl ∈ variableDeclarations node) : decl.Valid root := by
  obtain ⟨_, hvars, hdecl⟩ := mem_flatMap.1 h
  exact valid_effectiveChildren (valid_effectiveChildren hvalid (mem_of_mem_filter hvars))
    (mem_of_mem_filter hdecl)

lemma valid_childByFieldName {field : Field} (hvalid : node.Valid root)
    (h : node.childByFieldName field = some child) : child.Valid root :=
  hvalid.child (Cursor.mem_children_of_childByFieldName h)

lemma valid_parameterDeclarations {header : Node} (hvalid : header.Valid root)
    (h : decl ∈ parameterDeclarations header) : decl.Valid root := by
  obtain ⟨_, hargs, hdecl⟩ := mem_flatMap.1 h
  exact (hvalid.child (mem_of_mem_filter hargs)).child (mem_of_mem_filter hdecl)

lemma valid_headerDeclarations (hvalid : node.Valid root)
    (h : decl ∈ Checks.headerDeclarations node) : decl.Valid root := by
  unfold Checks.headerDeclarations at h
  split at h
  · next header hheader =>
    exact valid_parameterDeclarations (valid_childByFieldName hvalid hheader) h
  · cases h

lemma valid_plainVariableDeclarations (hvalid : node.Valid root)
    (h : decl ∈ Checks.plainVariableDeclarations node) : decl.Valid root := by
  obtain ⟨_, hvars, hdecl⟩ := mem_flatMap.1 h
  exact (hvalid.child (mem_of_mem_filter hvars)).child (mem_of_mem_filter hdecl)

lemma valid_lambdaArgumentDeclarations (hvalid : node.Valid root)
    (h : decl ∈ lambdaArgumentDeclarations node) : decl.Valid root := by
  unfold lambdaArgumentDeclarations at h
  split at h
  · cases h
  · next _ hargs => exact (valid_childByFieldName hvalid hargs).child (mem_of_mem_filter h)

end Valid

/-! ## Scopes are spelled -/

/-- The names of the file and the fields of its classes are spelled. -/
def Scopes.Spelled (unicode : Unicode) (scopes : Scopes) : Prop :=
  scopes.file.Spelled unicode ∧
    ∀ key fields, scopes.classes key = some fields → NameMap.Spelled unicode fields

namespace SyntaxTree

variable {src : Bytes} (tree : SyntaxTree src) {map : NameMap}

lemma spelled_insertName (h : map.Spelled unicode)
    (hname : tree.IsIdentifierNode name) : (insertName unicode src map name).Spelled unicode :=
  h.insert (tree.spelling_identifier hname)

lemma isIdentifierNode_of_declaredNames (hvalid : decl.Valid tree.root)
    (h : name ∈ declaredNames decl) : tree.IsIdentifierNode name :=
  ⟨hvalid.child (mem_filter.1 h).1, kind_of_mem_declaredNames h⟩

/-- Declared names are identifiers and are bound to their own text. -/
lemma spelled_collectDeclNames (h : map.Spelled unicode)
    (hvalid : decl.Valid tree.root) : (collectDeclNames unicode src map decl).Spelled unicode :=
  foldlRecOn _ _ h fun _ hmap _ hname =>
    tree.spelled_insertName hmap (tree.isIdentifierNode_of_declaredNames hvalid hname)

lemma spelled_collectClassFields (h : map.Spelled unicode) (hvalid : node.Valid tree.root) :
    (collectClassFields unicode src map node).Spelled unicode :=
  foldlRecOn _ _ h fun _ hmap _ hdecl =>
    tree.spelled_collectDeclNames hmap (valid_fieldDeclarations hvalid hdecl)

lemma spelled_collectMethodScope (h : map.Spelled unicode) (hvalid : node.Valid tree.root) :
    (collectMethodScope unicode src map node).Spelled unicode := by
  apply foldlRecOn
  · split
    · next header hheader =>
      exact foldlRecOn _ _ h fun _ hmap _ hdecl => tree.spelled_collectDeclNames hmap
        (valid_parameterDeclarations (valid_childByFieldName hvalid hheader) hdecl)
    · exact h
  · exact fun _ hmap _ hdecl =>
      tree.spelled_collectDeclNames hmap (valid_variableDeclarations hvalid hdecl)

/-- One declaration of the file, by its kind. -/
lemma spelled_collectDeclaration (hascii : unicode.Ascii) {scopes : Scopes}
    (h : scopes.Spelled unicode) (hvalid : node.Valid tree.root) :
    (collectDeclaration unicode src scopes node).Spelled unicode := by
  obtain ⟨hfile, hcls⟩ := h
  unfold collectDeclaration
  split
  · next hkind =>
    -- a type: its own name, and its fields
    split
    · exact ⟨hfile, hcls⟩
    · next name hname =>
      have hfile' : (insertName unicode src scopes.file name).Spelled unicode :=
        hfile.insert (tree.spelling_declarationName hascii hvalid (.inl hkind) hname)
      split
      · exact ⟨hfile', hcls⟩
      · next _ htype =>
        split
        · refine ⟨hfile', fun key fields hkey => ?_⟩
          dsimp only at hkey
          split at hkey
          · cases hkey
            apply tree.spelled_collectClassFields _ (valid_childByFieldName hvalid htype)
            cases hold : scopes.classes (lowercase unicode (nodeText src name)) with
            | none => exact .empty
            | some fields => exact hcls _ fields hold
          · exact hcls key fields hkey
        · exact ⟨hfile', hcls⟩
  · next hkind =>
    split
    · exact ⟨hfile, hcls⟩
    · next name hname =>
      exact ⟨hfile.insert (tree.spelling_declarationName hascii hvalid (.inr hkind) hname), hcls⟩
  · split
    · exact ⟨hfile, hcls⟩
    · exact ⟨tree.spelled_collectDeclNames hfile hvalid, hcls⟩
  · split
    · exact ⟨hfile, hcls⟩
    · next name hname =>
      split
      · next hident =>
        exact ⟨tree.spelled_insertName hfile ⟨valid_childByFieldName hvalid hname, hident⟩, hcls⟩
      · exact ⟨hfile, hcls⟩
  · exact ⟨hfile, hcls⟩

/-- The scopes that are collected from a file are spelled. -/
lemma spelled_collectFileScope (hascii : unicode.Ascii) :
    (collectFileScope unicode src tree.root).Spelled unicode :=
  foldlRecOn _ _ ⟨.empty, nofun⟩ fun _ hscopes _ hnode =>
    tree.spelled_collectDeclaration hascii hscopes (Node.mem_visited_iff.1 hnode).1

end SyntaxTree

/-! ## Local renames -/

/-- The first letter of a name is changed within ASCII. -/
lemma isAscii_changeFirstAlpha {change : Char → Char}
    (hchange : ∀ c : Char, c.toNat < 128 → (change c).toNat < 128) {name : Text}
    (h : IsAscii name) : IsAscii (changeFirstAlpha unicode change name) := by
  induction name with
  | nil => exact h
  | cons c rest ih =>
    have hc := h c (by simp)
    have hrest : IsAscii rest := (forall_mem_cons.1 h).2
    unfold changeFirstAlpha
    split
    · exact forall_mem_cons.2 ⟨hchange c hc, hrest⟩
    · exact forall_mem_cons.2 ⟨hc, ih hrest⟩

/-- Splitting a text adds no characters. -/
lemma mem_of_mem_splitOn {part : Text} {sep : Char} (hpart : part ∈ text.splitOn sep)
    (hc : c ∈ part) : c ∈ text := by
  obtain ⟨i, hi⟩ := getElem?_of_mem hpart
  have hmem : part ∈ (text.splitOn sep).intersperse [sep] :=
    mem_of_getElem? ((getElem?_intersperse_two_mul ..).trans hi)
  have hjoined : c ∈ [sep].intercalate (text.splitOn sep) := mem_flatten_of_mem hmem hc
  rwa [intercalate_splitOn] at hjoined

lemma isAscii_capitalize (h : IsAscii text) : IsAscii (capitalize text) := by
  cases text with
  | nil => exact h
  | cons c =>
    refine forall_mem_cons.2 ⟨toUpper_lt (h c (by simp)), forall_mem_map.2 fun e he => ?_⟩
    exact toLower_lt (h e (by simp [he]))

lemma isAscii_toPascalCase {name : Text} (h : IsAscii name) :
    IsAscii (toPascalCase unicode name) := by
  have hrest : IsAscii (name.dropWhile (· = '_')) := fun c hc =>
    h c (dropWhile_sublist _ |>.subset hc)
  unfold toPascalCase
  dsimp only
  split
  · exact h
  · intro c hc
    rcases mem_append.1 hc with hc | hc
    · exact h c (takeWhile_sublist _ |>.subset hc)
    · split at hc
      · obtain ⟨_, hpart, hc⟩ := mem_flatMap.1 hc
        refine isAscii_capitalize (fun d hd => ?_) c hc
        exact hrest d (mem_of_mem_splitOn (mem_of_mem_filter hpart) hd)
      · exact isAscii_changeFirstAlpha (fun _ => toUpper_lt) hrest c hc

/-- The spelling that the style asks for is ASCII if the name is. -/
lemma isAscii_localSpelling {style : String} {name : Text} (h : IsAscii name) :
    IsAscii (localSpelling unicode style name) := by
  unfold localSpelling
  split
  · exact isAscii_changeFirstAlpha (fun _ => toLower_lt) h
  · exact isAscii_toPascalCase h

/-- The local renames are ASCII. -/
def RenameMap.AsciiLocals (map : RenameMap) : Prop :=
  ∀ rename ∈ map.locals.entries, IsAscii rename.2

namespace SyntaxTree

variable {src : Bytes} (tree : SyntaxTree src) {checks : Checks}
  (hsource : checks.source = src) {map : RenameMap}

include hsource

/-- A rename that is kept for a declared name is ASCII. -/
lemma asciiLocals_checkDeclNames (h : map.AsciiLocals) (procNode : Node)
    (hvalid : decl.Valid tree.root) : (checks.checkDeclNames procNode map decl).AsciiLocals := by
  refine foldlRecOn _ _ h fun map hmap name hname => ?_
  unfold Checks.checkDeclName
  split
  · have hident := tree.isIdentifierNode_of_declaredNames hvalid hname
    have hname : IsAscii (checks.text name) := by
      rw [Checks.text, hsource]
      exact isAscii_identifier (tree.identifier_text hident.1 hident.2).1
    rw [RenameMap.AsciiLocals, AList.entries_insert]
    exact forall_mem_cons.2 ⟨isAscii_localSpelling hname, fun rename hrename =>
      hmap rename ((kerase_sublist _ _).subset hrename)⟩
  · exact hmap

lemma asciiLocals_checkLocalVarNaming (h : map.AsciiLocals) {procNode : Node}
    (hvalid : procNode.Valid tree.root) :
    (checks.checkLocalVarNaming map procNode).AsciiLocals := by
  apply foldlRecOn
  · exact foldlRecOn _ _ h fun _ hmap _ hdecl => tree.asciiLocals_checkDeclNames hsource hmap
      procNode (valid_headerDeclarations hvalid hdecl)
  · exact fun _ hmap _ hdecl => tree.asciiLocals_checkDeclNames hsource hmap procNode
      (valid_plainVariableDeclarations hvalid hdecl)

lemma asciiLocals_checkDeclaration (h : map.AsciiLocals) (fixConfig : FixConfig)
    (hvalid : node.Valid tree.root) : (checks.checkDeclaration fixConfig map node).AsciiLocals := by
  unfold RenameMap.AsciiLocals
  rw [checks.checkDeclaration_locals]
  split
  · exact tree.asciiLocals_checkLocalVarNaming hsource h hvalid
  · exact h

/-- All local renames of a file are ASCII. -/
lemma asciiLocals_buildRenameMap : (checks.buildRenameMap tree.root).AsciiLocals :=
  foldlRecOn _ _ nofun fun _ hmap _ hnode =>
    tree.asciiLocals_checkDeclaration hsource hmap _ (Node.mem_visited_iff.1 hnode).1

end SyntaxTree

end Lint4d.Fix

import Web3.Abi.TypeParser

/-! # Descriptions that are parsed back

An abstract type is printed as an argument description (`describe`), with the name of each tuple as its
`InternalType`. Its text has the tokens `toks`, and the parser reads the type back from them, unless one of its
arrays is too large for `reflect.ArrayOf`. -/

namespace Web3.Abi
open Prog

/-! ## Printing -/

def ComponentName (name : String) : Prop := name = "" ∨ PlainWord name.toList

mutual
def Describable : Typ → Prop
  | .uint size => 8 ≤ size ∧ size ≤ 256 ∧ 8 ∣ size
  | .int size => 8 ≤ size ∧ size ≤ 256 ∧ 8 ∣ size
  | .fixedBytes size => 1 ≤ size ∧ size ≤ 32
  | .array size elem => size < 2 ^ 32 ∧ Describable elem
  | .slice elem => Describable elem
  | .tuple _ elems => elems ≠ .nil ∧ EachDescribable elems
  | _ => True

def EachDescribable : TupleElems → Prop
  | .nil => True
  | .cons name elem _ rest => ComponentName name ∧ Describable elem ∧ EachDescribable rest
end

def typeText : Typ → Text
  | .slice elem => typeText elem ++ ['[', ']']
  | .array size elem => typeText elem ++ '[' :: (toString size).toList ++ [']']
  | .tuple _ _ => tupleWord
  | t => (raw t).toList

def hint : Typ → Text
  | .slice elem => hint elem
  | .array _ elem => hint elem
  | .tuple tupleName _ => tupleName.toList
  | _ => []

mutual
def components : Typ → Arguments
  | .slice elem => components elem
  | .array _ elem => components elem
  | .tuple _ elems => describeEach elems
  | _ => .nil

def describeEach : TupleElems → Arguments
  | .nil => .nil
  | .cons name elem indexed rest =>
    .cons (.mk name.toList (typeText elem) (hint elem) indexed (components elem)) (describeEach rest)
end

def describe (name : String) (indexed : Bool) (t : Typ) : ArgumentStr :=
  .mk name.toList (typeText t) (hint t) indexed (components t)

mutual
def printed : Typ → Text
  | .slice elem => printed elem ++ ['[', ']']
  | .array size elem => printed elem ++ '[' :: (toString size).toList ++ [']']
  | .tuple tupleName elems =>
    tupleWord ++ internalTypeToArg tupleName.toList ++ '(' :: joinCommas (printedEach elems) ++ [')']
  | t => (raw t).toList

def printedEach : TupleElems → List Text
  | .nil => []
  | .cons name elem indexed rest => (printed elem ++ nameText indexed name.toList) :: printedEach rest
end

def isElementary : Typ → Bool
  | .slice _ | .array _ _ | .tuple _ _ => false
  | _ => true

variable {t : Typ} {size : ℕ} {c : Char} {tail : Text}

theorem raw_head (ht : isElementary t = true) : ∃ ch word, (raw t).toList = ch :: word ∧ ch ≠ 't' := by
  cases t with
  | slice | array | tuple => cases ht
  | _ => exact ⟨_, _, by simp only [raw, String.toList_append]; rfl, by decide⟩

theorem parseType_elementary (ht : isElementary t = true) (name : Text) (suffix internalType : Text)
    (indexed : Bool) (args : Arguments) :
    parseType (.mk name ((raw t).toList ++ suffix) internalType indexed args) = (raw t).toList ++ suffix := by
  obtain ⟨ch, word, hraw, hne⟩ := raw_head ht
  have hnot : tupleWord.isPrefixOf (ch :: word ++ suffix) = false := by
    have hch : ('t' == ch) = false := by simpa using hne.symm
    exact congrArg (· && _) hch
  rw [hraw, parseType.eq_def]
  exact if_neg (by rw [hnot]; exact Bool.false_ne_true)

theorem parseType_tuple (name suffix internalType : Text) (indexed : Bool) (head : ArgumentStr) (tail : Arguments) :
    parseType (.mk name (tupleWord ++ suffix) internalType indexed (.cons head tail)) =
      tupleWord ++ internalTypeToArg internalType ++ '(' :: joinCommas (componentTexts (.cons head tail)) ++
        ')' :: suffix := by
  have hpre : tupleWord.isPrefixOf (tupleWord ++ suffix) = true := rfl
  rw [parseType, if_pos hpre, componentTexts]
  rfl

mutual
theorem parseType_describe : (t : Typ) → Describable t → (name : Text) → (suffix : Text) → (indexed : Bool) →
    parseType (.mk name (typeText t ++ suffix) (hint t) indexed (components t)) = printed t ++ suffix
  | .bool, _, name, suffix, indexed | .uint _, _, name, suffix, indexed | .int _, _, name, suffix, indexed
  | .string, _, name, suffix, indexed | .address, _, name, suffix, indexed | .bytes, _, name, suffix, indexed
  | .fixedBytes _, _, name, suffix, indexed | .function, _, name, suffix, indexed => by
    exact parseType_elementary rfl name suffix _ indexed _
  | .slice elem, h, name, suffix, indexed => by
    rw [typeText, hint, components, printed, List.append_assoc, List.append_assoc]
    exact parseType_describe elem h name _ indexed
  | .array size elem, h, name, suffix, indexed => by
    simp only [typeText, hint, components, printed, List.append_assoc]
    exact parseType_describe elem h.2 name _ indexed
  | .tuple tupleName elems, h, name, suffix, indexed => by
    have heach := componentTexts_describe elems h.2
    cases elems with
    | nil => exact absurd rfl h.1
    | cons n elem ix rest =>
      rw [typeText, hint, components, describeEach, parseType_tuple, ← describeEach, heach, printed]
      simp only [List.append_assoc, List.cons_append, List.nil_append]

theorem componentTexts_describe : (es : TupleElems) → EachDescribable es →
    componentTexts (describeEach es) = printedEach es
  | .nil, _ => rfl
  | .cons name elem indexed rest, h => by
    have helem := parseType_describe elem h.2.1 name.toList [] indexed
    rw [List.append_nil, List.append_nil] at helem
    rw [describeEach, componentTexts, helem, componentTexts_describe rest h.2.2, printedEach]
    rfl
end

/-! ## The tokens of the text -/

def hintToks (tupleName : String) : List Token := lex (internalTypeToArg tupleName.toList)

def nameToks (indexed : Bool) (name : String) : List Token :=
  (if indexed then [.indexed] else []) ++ if name = "" then [] else [.str name.toList]

mutual
def toks : Typ → List Token
  | .slice elem => toks elem ++ [.lbracket, .rbracket]
  | .array size elem => toks elem ++ [.lbracket, .number (toString size).toList, .rbracket]
  | .tuple tupleName elems => .tuple :: hintToks tupleName ++ .lparen :: eachToks elems ++ [.rparen]
  | t => [.str (raw t).toList]

def eachToks : TupleElems → List Token
  | .nil => []
  | .cons name elem indexed rest =>
    toks elem ++ nameToks indexed name ++ match rest with
      | .nil => []
      | rest => .comma :: eachToks rest
end

theorem toks_slice_append (elem : Typ) (tail : List Token) :
    toks (.slice elem) ++ tail = toks elem ++ .lbracket :: .rbracket :: tail := by
  simp [toks]

theorem toks_array_append (size : ℕ) (elem : Typ) (tail : List Token) : toks (.array size elem) ++ tail =
      toks elem ++ .lbracket :: .number (toString size).toList :: .rbracket :: tail := by
  simp [toks]

theorem toks_tuple_append (tupleName : String) (elems : TupleElems) (tail : List Token) :
    toks (.tuple tupleName elems) ++ tail =
      .tuple :: hintToks tupleName ++ .lparen :: (eachToks elems ++ .rparen :: tail) := by
  simp [toks]

theorem eachToks_one_append (name : String) (elem : Typ) (indexed : Bool) (tail : List Token) :
    eachToks (.cons name elem indexed .nil) ++ tail = toks elem ++ (nameToks indexed name ++ tail) := by
  simp [eachToks]

theorem eachToks_cons_append (name : String) (elem : Typ) (indexed : Bool) (name' : String) (elem' : Typ)
    (indexed' : Bool) (es : TupleElems) (tail : List Token) :
    eachToks (.cons name elem indexed (.cons name' elem' indexed' es)) ++ tail =
      toks elem ++ (nameToks indexed name ++ .comma :: (eachToks (.cons name' elem' indexed' es) ++ tail)) := by
  simp [eachToks]

theorem isDigit_toString (h : c ∈ (toString size).toList) : isDigit c = true := by
  rw [Nat.toString_eq_ofList_toDigits, String.toList_ofList] at h
  exact Nat.isDigit_of_mem_toDigits (by decide) (by decide) h

theorem toString_cons (size : ℕ) : ∃ ch digits, (toString size).toList = ch :: digits := by
  rw [Nat.toString_eq_ofList_toDigits, String.toList_ofList]
  exact List.exists_cons_of_ne_nil Nat.toDigits_ne_nil

theorem isWordChar_toString (h : c ∈ (toString size).toList) : isWordChar c = true := by
  simp [isWordChar, isDigit_toString h]

theorem plainWord_sized (ch : Char) (word : Text) (hch : isLetter ch = true) (hword : ∀ c ∈ word, isWordChar c = true)
    (size : ℕ) (hid : identifier (ch :: word ++ (toString size).toList) = .str (ch :: word ++ (toString size).toList)) :
    PlainWord (ch :: word ++ (toString size).toList) := by
  refine ⟨ch, word ++ (toString size).toList, rfl, hch, ?_, hid⟩
  exact List.forall_mem_append.mpr ⟨hword, fun c hc => isWordChar_toString hc⟩

theorem raw_plainWord (ht : isElementary t = true) : PlainWord (raw t).toList := by
  cases t with
  | slice | array | tuple => cases ht
  | uint size =>
    rw [raw, String.toList_append]
    exact plainWord_sized 'u' "int".toList (by decide) (List.all_eq_true.mp rfl) size
      (by simp [identifier, tupleWord, indexedWord])
  | int size =>
    rw [raw, String.toList_append]
    exact plainWord_sized 'i' "nt".toList (by decide) (List.all_eq_true.mp rfl) size
      (by simp [identifier, tupleWord, indexedWord])
  | fixedBytes size =>
    rw [raw, String.toList_append]
    exact plainWord_sized 'b' "ytes".toList (by decide) (List.all_eq_true.mp rfl) size
      (by simp [identifier, tupleWord, indexedWord])
  | _ => exact ⟨_, _, rfl, by decide, List.all_eq_true.mp rfl, by decide⟩

theorem lex_toString (ht : Delimited tail) :
    lex ((toString size).toList ++ tail) = .number (toString size).toList :: lex tail := by
  obtain ⟨ch, digits, hsize⟩ := toString_cons size
  have hall : ∀ c ∈ ch :: digits, isDigit c = true := by
    rw [← hsize]
    exact fun c hc => isDigit_toString hc
  rw [hsize, lex_number hall ht]

theorem delimited_punct {ch : Char} (h : isWordChar ch = false) (tail : Text) : Delimited (ch :: tail) :=
  stops_cons h tail

theorem lex_nameText {name : String} (h : ComponentName name) (indexed : Bool) (ht : Delimited tail) :
    lex (nameText indexed name.toList ++ tail) = nameToks indexed name ++ lex tail := by
  have hname : lex (name.toList ++ tail) = (if name = "" then [] else [.str name.toList]) ++ lex tail := by
    rcases h with rfl | h
    · rfl
    · have hne : name ≠ "" := by
        rintro rfl
        obtain ⟨ch, word, heq, -⟩ := h
        cases heq
      rw [h.lex_append ht, if_neg hne, List.singleton_append]
  cases indexed with
  | false =>
    have htext : nameText false name.toList ++ tail = ' ' :: (name.toList ++ tail) := rfl
    rw [htext, lex_space, hname]
    rfl
  | true =>
    have hindexed : lex (indexedWord ++ ' ' :: (name.toList ++ tail)) =
        .indexed :: lex (' ' :: (name.toList ++ tail)) :=
      lex_identifier (by decide) (List.all_eq_true.mp rfl) (delimited_punct (by decide) _)
    have htext : nameText true name.toList ++ tail = ' ' :: (indexedWord ++ ' ' :: (name.toList ++ tail)) := rfl
    rw [htext, lex_space, hindexed, lex_space, hname]
    rfl

theorem delimited_nameText (indexed : Bool) (name tail : Text) : Delimited (nameText indexed name ++ tail) := by
  cases indexed <;> exact delimited_punct (by decide) _

theorem lex_tuple (internalType text : Text) : lex (tupleWord ++ (internalTypeToArg internalType ++ '(' :: text)) =
      .tuple :: lex (internalTypeToArg internalType) ++ .lparen :: lex text := by
  have htuple : ∀ text, lex (tupleWord ++ ' ' :: text) = .tuple :: lex (' ' :: text) := fun text =>
    lex_identifier (by decide) (List.all_eq_true.mp rfl) (delimited_punct (by decide) _)
  rw [internalTypeToArg, List.cons_append, htuple, ← List.cons_append, lex_append (delimited_punct (by decide) _),
    lex_lparen]
  rfl

mutual
theorem lex_printed : (t : Typ) → Describable t → {tail : Text} → Delimited tail →
    lex (printed t ++ tail) = toks t ++ lex tail
  | .bool, _, tail, ht | .uint _, _, tail, ht | .int _, _, tail, ht | .string, _, tail, ht | .address, _, tail, ht
  | .bytes, _, tail, ht | .fixedBytes _, _, tail, ht | .function, _, tail, ht => by
    simp only [printed, toks]
    exact (raw_plainWord rfl).lex_append ht
  | .slice elem, h, tail, _ => by
    have htext : printed elem ++ ['[', ']'] ++ tail = printed elem ++ '[' :: ']' :: tail := by simp
    rw [printed, toks_slice_append, htext, lex_printed elem h (delimited_punct (by decide) _), lex_lbracket,
      lex_rbracket]
  | .array size elem, h, tail, _ => by
    have htext : printed elem ++ '[' :: (toString size).toList ++ [']'] ++ tail =
        printed elem ++ '[' :: ((toString size).toList ++ ']' :: tail) := by simp
    rw [printed, toks_array_append, htext, lex_printed elem h.2 (delimited_punct (by decide) _), lex_lbracket,
      lex_toString (delimited_punct (by decide) _), lex_rbracket]
  | .tuple tupleName elems, h, tail, _ => by
    have heach := lex_printedEach elems h.2 tail
    have htext : tupleWord ++ internalTypeToArg tupleName.toList ++ '(' :: joinCommas (printedEach elems) ++
        [')'] ++ tail = tupleWord ++ (internalTypeToArg tupleName.toList ++
          '(' :: (joinCommas (printedEach elems) ++ ')' :: tail)) := by simp
    rw [printed, toks_tuple_append, htext, lex_tuple, heach, hintToks]

theorem lex_printedEach : (es : TupleElems) → EachDescribable es → (tail : Text) →
    lex (joinCommas (printedEach es) ++ ')' :: tail) = eachToks es ++ .rparen :: lex tail
  | .nil, _, tail => by simp [printedEach, joinCommas, eachToks]
  | .cons name elem indexed .nil, h, tail => by
    rw [printedEach, printedEach, joinCommas, List.append_assoc, lex_printed elem h.2.1 (delimited_nameText _ _ _),
      lex_nameText h.1 indexed (delimited_punct (by decide) _), lex_rparen, eachToks_one_append]
  | .cons name elem indexed (.cons name' elem' indexed' rest), h, tail => by
    have htail := lex_printedEach (.cons name' elem' indexed' rest) h.2.2 tail
    rw [printedEach] at htail
    rw [printedEach, printedEach, joinCommas, List.append_assoc, List.append_assoc, List.cons_append,
      lex_printed elem h.2.1 (delimited_nameText _ _ _), lex_nameText h.1 indexed (delimited_punct (by decide) _),
      lex_comma, htail, eachToks_cons_append]
end

end Web3.Abi

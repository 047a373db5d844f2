import Mathlib.Data.List.TakeWhile
import Web3.Foundations.Scanning

/-! # The tokens of a type description

The lexer of `abi/type.go`. It works on bytes: a text has one character for each byte of the Go string. A zero byte
gives the token that also stands for the end of the input, and the lexer goes on behind it. -/

namespace Web3.Abi

abbrev Text := List Char

inductive Token where
  | eof
  | str (literal : Text)
  | number (literal : Text)
  | tuple
  | lparen
  | rparen
  | lbracket
  | rbracket
  | comma
  | indexed
  | invalid
  deriving DecidableEq

def Token.typ : Token → String
  | eof => "eof"
  | str _ => "string"
  | number _ => "number"
  | tuple => "tuple"
  | lparen => "("
  | rparen => ")"
  | lbracket => "["
  | rbracket => "]"
  | comma => ","
  | indexed => "indexed"
  | invalid => "<invalid>"

def isDigit (ch : Char) : Bool := '0' ≤ ch && ch ≤ '9'

def isLetter (ch : Char) : Bool := 'a' ≤ ch && ch ≤ 'z' || 'A' ≤ ch && ch ≤ 'Z' || ch = '_'

def isSpace (ch : Char) : Bool := ch = ' ' || ch = '\t' || ch = '\n' || ch = '\r'

def isWordChar (ch : Char) : Bool := isLetter ch || isDigit ch

def tupleWord : Text := ['t', 'u', 'p', 'l', 'e']

def indexedWord : Text := ['i', 'n', 'd', 'e', 'x', 'e', 'd']

def identifier (literal : Text) : Token :=
  if literal = tupleWord then .tuple else if literal = indexedWord then .indexed else .str literal

def punctuation : Char → Option Token
  | ',' => some .comma
  | '(' => some .lparen
  | ')' => some .rparen
  | '[' => some .lbracket
  | ']' => some .rbracket
  | '\x00' => some .eof
  | _ => none

/-- The first token of a text, and what is left behind it. -/
def nextTokenImpl (input : Text) : Token × Text :=
  match input.dropWhile isSpace with
  | [] => (.eof, [])
  | ch :: rest =>
    match punctuation ch with
    | some tok => (tok, rest)
    | none =>
      if isLetter ch then (identifier ((ch :: rest).takeWhile isWordChar), (ch :: rest).dropWhile isWordChar)
      else if isDigit ch then (.number ((ch :: rest).takeWhile isDigit), (ch :: rest).dropWhile isDigit)
      else (.invalid, rest)

/-! ## All tokens of an input -/

variable {ch : Char} {input tail : Text}

theorem length_dropWhile_word {p q : Char → Bool} {rest : Text} (h : p ch = true)
    (hq : ∀ c, p c = true → q c = true) : ((ch :: rest).dropWhile q).length ≤ rest.length := by
  rw [List.dropWhile_cons, if_pos (hq ch h)]
  exact (List.dropWhile_sublist q).length_le

theorem nextTokenImpl_progress (h : input.dropWhile isSpace ≠ []) :
    (nextTokenImpl input).2.length < input.length := by
  have hle := (List.dropWhile_sublist (l := input) isSpace).length_le
  unfold nextTokenImpl
  split
  · contradiction
  · next ch rest heq =>
    rw [heq, List.length_cons] at hle
    have hword : isLetter ch = true → ((ch :: rest).dropWhile isWordChar).length < input.length := fun h =>
      lt_of_le_of_lt (length_dropWhile_word h fun c hc => by simp [isWordChar, hc]) hle
    have hnumber : isDigit ch = true → ((ch :: rest).dropWhile isDigit).length < input.length := fun h =>
      lt_of_le_of_lt (length_dropWhile_word h fun c hc => hc) hle
    cases punctuation ch with
    | some tok => exact hle
    | none =>
      dsimp only
      split_ifs with hletter hdigit
      · exact hword hletter
      · exact hnumber hdigit
      · exact hle

def lexer : Scanner Char Token where
  next input := if input.dropWhile isSpace = [] then none else some (nextTokenImpl input)
  progress := by
    intro input t rest h
    split at h
    · cases h
    · next hne =>
      rw [Option.some.injEq] at h
      have := nextTokenImpl_progress hne
      rwa [h] at this

def lex (input : Text) : List Token := lexer.scan input

theorem lex_blank (h : input.dropWhile isSpace = []) : lex input = [] :=
  lexer.scan_of_none (if_pos h)

theorem lex_token (h : input.dropWhile isSpace ≠ []) :
    lex input = (nextTokenImpl input).1 :: lex (nextTokenImpl input).2 :=
  lexer.scan_of_some (if_neg h)

/-! ## The lexer

The lexer reads its input by positions: `ch` is the byte at `position`, and zero behind the end. What is left of the
input is what `nextTokenImpl` takes. -/

structure Lexer where
  input : Text
  current : Token
  peek : Token
  position : ℕ
  readPosition : ℕ
  ch : Char

namespace Lexer

def readChar (l : Lexer) : Lexer :=
  { l with
    ch := if l.readPosition ≥ l.input.length then '\x00' else l.input.getD l.readPosition '\x00'
    position := l.readPosition
    readPosition := l.readPosition + 1 }

/-- The loops that read characters of one kind. There are at most as many rounds as there are characters. -/
def readWhile (p : Char → Bool) : ℕ → Lexer → Lexer
  | 0, l => l
  | fuel + 1, l => if p l.ch then readWhile p fuel l.readChar else l

/-- `readIdentifier` and `readNumber`. -/
def readWord (p : Char → Bool) (l : Lexer) : Text × Lexer :=
  let pos := l.position
  let l := l.readWhile p l.input.length
  ((l.input.take l.position).drop pos, l)

def nextTokenImpl (l : Lexer) : Token × Lexer :=
  let l := l.readWhile isSpace l.input.length
  match punctuation l.ch with
  | some tok => (tok, l.readChar)
  | none =>
    if isLetter l.ch then
      let (literal, l) := l.readWord isWordChar
      (identifier literal, l)
    else if isDigit l.ch then
      let (literal, l) := l.readWord isDigit
      (.number literal, l)
    else (.invalid, l.readChar)

def nextToken (l : Lexer) : Lexer :=
  let current := l.peek
  let (peek, l) := l.nextTokenImpl
  { l with current, peek }

def rest (l : Lexer) : Text := l.input.drop l.position

structure Reads (l : Lexer) : Prop where
  next : l.readPosition = l.position + 1
  ch : l.ch = l.rest.headD '\x00'

variable {l : Lexer} {p : Char → Bool}

theorem reads_readChar (l : Lexer) : Reads l.readChar where
  next := rfl
  ch := by
    rw [rest, readChar, List.headD_eq_head?_getD, List.head?_drop, ← List.getD_eq_getElem?_getD]
    dsimp only
    split
    · next h => rw [List.getD_eq_getElem?_getD, List.getElem?_eq_none h, Option.getD_none]
    · rfl

theorem rest_readChar (h : Reads l) : l.readChar.rest = l.rest.tail := by
  rw [rest, rest, readChar, List.tail_drop, h.next]

/-- The second lexer is behind the characters of one kind in front of the first. -/
structure Passed (p : Char → Bool) (l l' : Lexer) : Prop where
  reads : Reads l'
  input : l'.input = l.input
  rest : l'.rest = l.rest.dropWhile p
  position : l'.position = l.position + (l.rest.takeWhile p).length

theorem passed_readWhile (hp : p '\x00' = false) (h : Reads l) {fuel : ℕ} (hfuel : l.rest.length ≤ fuel) :
    Passed p l (l.readWhile p fuel) := by
  induction fuel generalizing l with
  | zero =>
    have hrest : l.rest = [] := List.length_eq_zero_iff.mp (Nat.le_zero.mp hfuel)
    exact ⟨h, rfl, by simp [readWhile, hrest], by simp [readWhile, hrest]⟩
  | succ fuel ih =>
    have hch := h.ch
    have hread := rest_readChar h
    rw [readWhile]
    cases hrest : l.rest with
    | nil =>
      rw [hrest, List.headD_nil] at hch
      rw [if_neg (by simp [hch, hp])]
      exact ⟨h, rfl, by simp [hrest], by simp [hrest]⟩
    | cons c cs =>
      rw [hrest, List.headD_cons] at hch
      rw [hrest, List.tail_cons] at hread
      rw [hrest, List.length_cons] at hfuel
      by_cases hc : p c = true
      · rw [if_pos (hch ▸ hc)]
        have hpassed := ih (reads_readChar l) (by rw [hread]; omega)
        refine ⟨hpassed.reads, hpassed.input, ?_, ?_⟩
        · rw [hpassed.rest, hread, hrest, List.dropWhile_cons_of_pos hc]
        · have hposition : l.readChar.position = l.position + 1 := h.next
          rw [hpassed.position, hread, hrest, List.takeWhile_cons_of_pos hc, List.length_cons, hposition]
          omega
      · rw [if_neg (hch ▸ hc)]
        exact ⟨h, rfl, by rw [hrest, List.dropWhile_cons_of_neg hc], by simp [hrest, List.takeWhile_cons_of_neg hc]⟩

theorem length_rest_le (l : Lexer) : l.rest.length ≤ l.input.length := by
  rw [rest, List.length_drop]
  omega

theorem readWord_spec (hp : p '\x00' = false) (h : Reads l) :
    (l.readWord p).1 = l.rest.takeWhile p ∧ (l.readWord p).2.rest = l.rest.dropWhile p ∧ Reads (l.readWord p).2 := by
  have hpassed := passed_readWhile hp h (length_rest_le l)
  refine ⟨?_, hpassed.rest, hpassed.reads⟩
  have hprefix : l.rest.takeWhile p <+: l.rest := List.takeWhile_prefix p
  rw [readWord]
  dsimp only
  rw [hpassed.input, hpassed.position, List.drop_take, Nat.add_sub_cancel_left]
  exact (List.prefix_iff_eq_take.mp hprefix).symm

theorem nextTokenImpl_spec (h : Reads l) :
    Abi.nextTokenImpl l.rest = (l.nextTokenImpl.1, l.nextTokenImpl.2.rest) ∧ Reads l.nextTokenImpl.2 := by
  have hskip : Passed isSpace l (l.readWhile isSpace l.input.length) := passed_readWhile rfl h (length_rest_le l)
  rw [nextTokenImpl, Abi.nextTokenImpl, ← hskip.rest]
  generalize l.readWhile isSpace l.input.length = l at hskip
  have hreads := hskip.reads
  have hch := hreads.ch
  have hread := rest_readChar hreads
  obtain ⟨hword, hbehind, hwordReads⟩ := readWord_spec (p := isWordChar) rfl hreads
  obtain ⟨hnumber, hbehind', hnumberReads⟩ := readWord_spec (p := isDigit) rfl hreads
  cases hrest : l.rest with
  | nil =>
    rw [hrest, List.headD_nil] at hch
    rw [hrest, List.tail_nil] at hread
    rw [hch]
    exact ⟨by rw [punctuation, hread], reads_readChar l⟩
  | cons c cs =>
    rw [hrest] at hch hread hword hbehind hnumber hbehind'
    rw [List.headD_cons] at hch
    dsimp only
    rw [hch]
    cases punctuation c with
    | some tok => exact ⟨by rw [hread, List.tail_cons], reads_readChar l⟩
    | none =>
      dsimp only
      split_ifs
      · exact ⟨by rw [hword, hbehind], hwordReads⟩
      · exact ⟨by rw [hnumber, hbehind'], hnumberReads⟩
      · exact ⟨by rw [hread, List.tail_cons], reads_readChar l⟩

theorem nextToken_spec (h : Reads l) :
    l.nextToken.peek = (Abi.nextTokenImpl l.rest).1 ∧ l.nextToken.rest = (Abi.nextTokenImpl l.rest).2 ∧
      Reads l.nextToken := by
  obtain ⟨hnext, hreads⟩ := nextTokenImpl_spec h
  rw [hnext]
  exact ⟨rfl, rfl, hreads.next, hreads.ch⟩

theorem peek_iterate (k : ℕ) (h : Reads l) : (nextToken^[k] l).peek = (l.peek :: lex l.rest).getD k .eof := by
  induction k generalizing l with
  | zero => rfl
  | succ k ih =>
    obtain ⟨hpeek, hrest, hreads⟩ := nextToken_spec h
    rw [Function.iterate_succ_apply, ih hreads, List.getD_cons_succ, hpeek, hrest]
    by_cases hblank : l.rest.dropWhile isSpace = []
    · have hnext : Abi.nextTokenImpl l.rest = (.eof, []) := by rw [Abi.nextTokenImpl, hblank]
      have hnil : lex [] = [] := lex_blank rfl
      rw [lex_blank hblank, hnext, hnil]
      cases k <;> simp
    · rw [lex_token hblank]

end Lexer

def newLexer (input : Text) : Lexer :=
  Lexer.readChar { input, current := .eof, peek := .eof, position := 0, readPosition := 0, ch := '\x00' }

/-- The lexer shows the tokens of its input one after the other, and then the end of the input. -/
theorem peek_newLexer (input : Text) (k : ℕ) :
    (Lexer.nextToken^[k] (newLexer input).nextToken).peek = (lex input).getD k .eof := by
  have h := Lexer.peek_iterate (k + 1) (Lexer.reads_readChar
    { input, current := .eof, peek := .eof, position := 0, readPosition := 0, ch := '\x00' })
  rw [Function.iterate_succ_apply, List.getD_cons_succ] at h
  exact h

/-! ## Texts in sequence -/

abbrev Delimited (tail : Text) : Prop := Stops isWordChar tail

theorem Delimited.digits (h : Delimited tail) : Stops isDigit tail := by
  intro c hc
  have := h c hc
  simp only [isWordChar, Bool.or_eq_false_iff] at this
  exact this.2

theorem nextTokenImpl_append (ht : Delimited tail) (h : input.dropWhile isSpace ≠ []) :
    nextTokenImpl (input ++ tail) = ((nextTokenImpl input).1, (nextTokenImpl input).2 ++ tail) := by
  have hdrop : (input ++ tail).dropWhile isSpace = input.dropWhile isSpace ++ tail := by
    rw [List.dropWhile_append, if_neg (by simpa using h)]
  unfold nextTokenImpl
  rw [hdrop]
  cases hin : input.dropWhile isSpace with
  | nil => exact absurd hin h
  | cons ch rest =>
    have hword := takeWhile_append_stops ht (ch :: rest)
    have hbehind := dropWhile_append_stops ht (ch :: rest)
    have hnumber := takeWhile_append_stops ht.digits (ch :: rest)
    have hbehind' := dropWhile_append_stops ht.digits (ch :: rest)
    rw [List.cons_append] at hword hbehind hnumber hbehind' ⊢
    dsimp only
    rw [hword, hbehind, hnumber, hbehind']
    cases punctuation ch with
    | some tok => rfl
    | none =>
      dsimp only
      split_ifs <;> rfl

theorem lexer_boundary (ht : Delimited tail) : lexer.Boundary tail where
  some := by
    intro input t rest h
    simp only [lexer] at h ⊢
    split at h
    · cases h
    · next hne =>
      have hne' : (input ++ tail).dropWhile isSpace ≠ [] := by
        rw [List.dropWhile_append, if_neg (by simpa using hne)]
        simp [hne]
      rw [Option.some.injEq] at h
      rw [if_neg hne', nextTokenImpl_append ht hne, h]
  none := by
    intro input h
    simp only [lexer] at h ⊢
    split at h
    · next hblank =>
      have hdrop : (input ++ tail).dropWhile isSpace = tail.dropWhile isSpace := by
        rw [List.dropWhile_append, if_pos (by simpa using hblank)]
      rw [hdrop, nextTokenImpl, nextTokenImpl, hdrop]
    · cases h

theorem lex_append (ht : Delimited tail) (input : Text) : lex (input ++ tail) = lex input ++ lex tail :=
  lexer.scan_append (lexer_boundary ht) input

@[simp] theorem lex_nil : lex [] = [] := rfl

@[simp] theorem lex_space (input : Text) : lex (' ' :: input) = lex input := by
  have hdrop : (' ' :: input).dropWhile isSpace = input.dropWhile isSpace := rfl
  by_cases hblank : input.dropWhile isSpace = []
  · rw [lex_blank hblank, lex_blank (hdrop.trans hblank)]
  · rw [lex_token hblank, lex_token (hdrop ▸ hblank), nextTokenImpl, nextTokenImpl, hdrop]

@[simp] theorem lex_comma (input : Text) : lex (',' :: input) = .comma :: lex input := lex_token (by simp [isSpace])

@[simp] theorem lex_lparen (input : Text) : lex ('(' :: input) = .lparen :: lex input := lex_token (by simp [isSpace])

@[simp] theorem lex_rparen (input : Text) : lex (')' :: input) = .rparen :: lex input := lex_token (by simp [isSpace])

@[simp] theorem lex_lbracket (input : Text) : lex ('[' :: input) = .lbracket :: lex input :=
  lex_token (by simp [isSpace])

@[simp] theorem lex_rbracket (input : Text) : lex (']' :: input) = .rbracket :: lex input :=
  lex_token (by simp [isSpace])

theorem wordChar_plain (h : isWordChar ch = true) : isSpace ch = false ∧ punctuation ch = none := by
  constructor
  · by_contra hs
    simp only [isSpace, Bool.not_eq_false, Bool.or_eq_true, decide_eq_true_eq] at hs
    rcases hs with ((rfl | rfl) | rfl) | rfl <;> exact absurd h (by decide)
  · unfold punctuation
    split <;> first | rfl | exact absurd h (by decide)

theorem dropWhile_wordChar (h : isWordChar ch = true) (word : Text) :
    (ch :: word).dropWhile isSpace = ch :: word := by
  rw [List.dropWhile_cons, if_neg (by simp [(wordChar_plain h).1])]

theorem lex_word {word : Text} {tok : Token} (h : isWordChar ch = true)
    (hnext : nextTokenImpl (ch :: word) = (tok, [])) (ht : Delimited tail) :
    lex (ch :: word ++ tail) = tok :: lex tail := by
  have hne : (ch :: word).dropWhile isSpace ≠ [] := by
    rw [dropWhile_wordChar h]
    exact List.cons_ne_nil ch word
  rw [lex_append ht, lex_token hne, hnext, lex_nil]
  rfl

theorem lex_identifier {word : Text} (hch : isLetter ch = true)
    (hword : ∀ c ∈ word, isWordChar c = true) (ht : Delimited tail) :
    lex (ch :: word ++ tail) = identifier (ch :: word) :: lex tail := by
  have hall : ∀ c ∈ ch :: word, isWordChar c = true := List.forall_mem_cons.mpr ⟨by simp [isWordChar, hch], hword⟩
  have hplain := hall ch (List.mem_cons_self ..)
  refine lex_word hplain ?_ ht
  rw [nextTokenImpl, dropWhile_wordChar hplain]
  dsimp only
  rw [(wordChar_plain hplain).2, if_pos hch, List.takeWhile_eq_self_iff.mpr hall, List.dropWhile_eq_nil_iff.mpr hall]

theorem not_isLetter_of_isDigit (h : isDigit ch = true) : isLetter ch = false := by
  simp only [isDigit, isLetter, Bool.and_eq_true, decide_eq_true_eq, Char.le_def, Bool.or_eq_false_iff,
    Bool.and_eq_false_iff, decide_eq_false_iff_not, UInt32.le_iff_toNat_le] at h ⊢
  obtain ⟨hlo, hhi⟩ := h
  have e0 : ('0' : Char).val.toNat = 48 := rfl
  have e9 : ('9' : Char).val.toNat = 57 := rfl
  have ea : ('a' : Char).val.toNat = 97 := rfl
  have eA : ('A' : Char).val.toNat = 65 := rfl
  refine ⟨⟨.inl (by omega), .inl (by omega)⟩, ?_⟩
  rintro rfl
  have : ('_' : Char).val.toNat = 95 := rfl
  omega

theorem lex_number {digits : Text} (hall : ∀ c ∈ ch :: digits, isDigit c = true)
    (ht : Delimited tail) : lex (ch :: digits ++ tail) = .number (ch :: digits) :: lex tail := by
  have hch := hall ch (List.mem_cons_self ..)
  have hplain : isWordChar ch = true := by simp [isWordChar, hch]
  refine lex_word hplain ?_ ht
  rw [nextTokenImpl, dropWhile_wordChar hplain]
  dsimp only
  rw [(wordChar_plain hplain).2, if_neg (by simp [not_isLetter_of_isDigit hch]), if_pos hch,
    List.takeWhile_eq_self_iff.mpr hall, List.dropWhile_eq_nil_iff.mpr hall]

def PlainWord (text : Text) : Prop :=
  ∃ ch word, text = ch :: word ∧ isLetter ch = true ∧ (∀ c ∈ word, isWordChar c = true) ∧
    identifier (ch :: word) = .str (ch :: word)

theorem PlainWord.lex_append {text : Text} (h : PlainWord text) (ht : Delimited tail) :
    lex (text ++ tail) = .str text :: lex tail := by
  obtain ⟨ch, word, rfl, hch, hword, hid⟩ := h
  rw [lex_identifier hch hword ht, hid]

/-! ## Texts without parentheses and brackets -/

def PlainToken (t : Token) : Prop := t ≠ .lparen ∧ t ≠ .rparen ∧ t ≠ .lbracket

def PlainChar (ch : Char) : Prop := ch ≠ '(' ∧ ch ≠ ')' ∧ ch ≠ '['

theorem punctuation_plain {tok : Token} (hch : PlainChar ch) (h : punctuation ch = some tok) : PlainToken tok := by
  obtain ⟨hl, hr, hb⟩ := hch
  unfold punctuation at h
  split at h <;> cases h <;> first | contradiction | simp [PlainToken]

theorem identifier_plain (literal : Text) : PlainToken (identifier literal) := by
  unfold identifier
  split_ifs <;> simp [PlainToken]

theorem nextTokenImpl_plain (h : ∀ ch ∈ input, PlainChar ch) (hne : input.dropWhile isSpace ≠ []) :
    PlainToken (nextTokenImpl input).1 ∧ ∀ ch ∈ (nextTokenImpl input).2, PlainChar ch := by
  have hdrop : ∀ ch ∈ input.dropWhile isSpace, PlainChar ch := fun ch hch => h ch ((List.dropWhile_sublist _).subset hch)
  unfold nextTokenImpl
  split
  · contradiction
  · next ch rest heq =>
    rw [heq] at hdrop
    have hrest := (List.forall_mem_cons.mp hdrop).2
    cases hp : punctuation ch with
    | some tok => exact ⟨punctuation_plain (hdrop ch List.mem_cons_self) hp, hrest⟩
    | none =>
      dsimp only
      split_ifs
      · exact ⟨identifier_plain _, fun c hc => hdrop c ((List.dropWhile_sublist _).subset hc)⟩
      · exact ⟨by simp [PlainToken], fun c hc => hdrop c ((List.dropWhile_sublist _).subset hc)⟩
      · exact ⟨by simp [PlainToken], hrest⟩

theorem lex_plain (h : ∀ ch ∈ input, PlainChar ch) : ∀ t ∈ lex input, PlainToken t := by
  refine lexer.forall_mem_scan (P := fun text => ∀ ch ∈ text, PlainChar ch) ?_ h
  intro text t rest htext hnext
  simp only [lexer] at hnext
  split at hnext
  · cases hnext
  · next hne =>
    rw [Option.some.injEq] at hnext
    have hplain := nextTokenImpl_plain htext hne
    rwa [hnext] at hplain

end Web3.Abi

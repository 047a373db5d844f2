import Web3.Abi.TypeParser

/-! # The sentences that the parser accepts

The grammar of type descriptions over tokens, with the type that each sentence denotes, and the parser against it: the
tokens that it takes are a sentence, and its type is the one that the sentence denotes. Other tokens may follow. The
grammar has what the parser accepts by mistake as well. A first component that fails at a closing parenthesis is taken
for an empty tuple (`Fails`), and an opening bracket behind the name of a tuple is skipped with any token behind it. -/

namespace Web3.Abi
open Prog

/-! ## The grammar -/

/-- The digits of a size, which is any number that `strconv.Atoi` can read. -/
def SizeDigits (digits : Text) : Prop := digits.all isDigit = true ∧ decimal digits < 2 ^ 63

inductive Elementary : Text → Typ → Prop
  | uint {digits : Text} : digits ≠ [] → SizeDigits digits → 8 ∣ decimal digits →
      Elementary ("uint".toList ++ digits) (.uint (decimal digits))
  | int {digits : Text} : digits ≠ [] → SizeDigits digits → 8 ∣ decimal digits →
      Elementary ("int".toList ++ digits) (.int (decimal digits))
  | fixedBytes {digits : Text} : SizeDigits digits → decimal digits ≠ 0 →
      Elementary ("bytes".toList ++ digits) (.fixedBytes (decimal digits))
  | bytes {digits : Text} : SizeDigits digits → decimal digits = 0 →
      Elementary ("bytes".toList ++ digits) .bytes
  | byte : Elementary "byte".toList (.fixedBytes 1)
  | string : Elementary "string".toList .string
  | bool : Elementary "bool".toList .bool
  | address : Elementary "address".toList .address
  | function : Elementary "function".toList .function

/-- What may stand between `tuple` and the components. Brackets behind the name have no meaning. -/
inductive TupleName : List Token → Text → Prop
  | none : TupleName [] []
  | name (w : Text) : TupleName [.str w] w
  | bracket (w : Text) {t : Token} : (∀ n, t ≠ .number n) → TupleName [.str w, .lbracket, t] w
  | array (w n : Text) : TupleName [.str w, .lbracket, .number n, .rbracket] w

/-- The flag and the name behind the type of a component. -/
inductive ElemName : List Token → Bool × Text → Prop
  | none : ElemName [] (false, [])
  | name (w : Text) : ElemName [.str w] (false, w)
  | indexed : ElemName [.indexed] (true, [])
  | both (w : Text) : ElemName [.indexed, .str w] (true, w)

/-- The size of an array of a type that the parser accepts. -/
def ArraySize (n : Text) (t : Typ) : Prop := decimal n < 2 ^ 32 ∧ ¬ExceedsAddressSpace (decimal n) (goType t)

mutual
/-- A description of a type. -/
inductive Sentence : List Token → Typ → Prop
  | elementary {w : Text} {t : Typ} : Elementary w t → Sentence [.str w] t
  | emptyTuple {ts front : List Token} {name : Text} : TupleName ts name → Fails front →
      Sentence (.tuple :: ts ++ .lparen :: front ++ [.rparen]) (.tuple (String.ofList name) .nil)
  | tuple {ts components : List Token} {name : Text} {elems : TupleElems} : TupleName ts name →
      Components components elems →
      Sentence (.tuple :: ts ++ .lparen :: components ++ [.rparen]) (.tuple (String.ofList name) elems)
  | slice {ts : List Token} {t : Typ} : Sentence ts t → Sentence (ts ++ [.lbracket, .rbracket]) (.slice t)
  | array {ts : List Token} {t : Typ} {n : Text} : Sentence ts t → ArraySize n t →
      Sentence (ts ++ [.lbracket, .number n, .rbracket]) (.array (decimal n) t)

/-- One component or several, with commas between them. -/
inductive Components : List Token → TupleElems → Prop
  | one {ts names : List Token} {t : Typ} {indexed : Bool} {name : Text} : Sentence ts t →
      ElemName names (indexed, name) → Components (ts ++ names) (.cons (String.ofList name) t indexed .nil)
  | cons {ts names rest : List Token} {t : Typ} {indexed : Bool} {name : Text} {elems : TupleElems} : Sentence ts t →
      ElemName names (indexed, name) → Components rest elems →
      Components (ts ++ names ++ .comma :: rest) (.cons (String.ofList name) t indexed elems)

/-- What may stand between the parentheses of an empty tuple: nothing, or the beginning of a type that would have to go
on where the closing parenthesis is. -/
inductive Fails : List Token → Prop
  | nothing : Fails []
  | name {ts : List Token} {name : Text} : TupleName ts name → Fails (.tuple :: ts)
  | nameSize (w n : Text) : Fails [.tuple, .str w, .lbracket, .number n]
  | bracket {ts : List Token} {t : Typ} : Sentence ts t → Fails (ts ++ [.lbracket])
  | size {ts : List Token} {t : Typ} {n : Text} : Sentence ts t → ArraySize n t → Fails (ts ++ [.lbracket, .number n])
  | component {ts components front : List Token} {name : Text} {elems : TupleElems} : TupleName ts name →
      Components components elems → Fails front → Fails (.tuple :: ts ++ .lparen :: (components ++ .comma :: front))
end

variable {ts names front : List Token} {X : String → Prop} {l : Stream} {P : List Token → Prop}
  {c : Token} {fuel : ℕ} {tt : Typ × String} {elems : List ParsedElem} {name : Text}
  {indexed : Bool}

/-! ## Elementary types -/

/-- An integer name whose size is not a multiple of 8. -/
def OddSize (w : Text) : Prop :=
  ∃ digits, (w = "uint".toList ++ digits ∨ w = "int".toList ++ digits) ∧ ¬ 8 ∣ decimal digits

def NameOutcome (w : Text) : Outcome (Typ × String) → Prop
  | .ok tt => Elementary w tt.1 ∧ tt.2 = raw tt.1
  | .err _ => True
  | .panic p => p = sizePanic ∧ OddSize w

theorem NameOutcome.ite {w : Text} {c : Prop} [Decidable c] {r r' : Outcome (Typ × String)} (hr : c → NameOutcome w r)
    (hr' : ¬ c → NameOutcome w r') : NameOutcome w (if c then r else r') := by
  split
  · next h => exact hr h
  · next h => exact hr' h

theorem elementaryType_outcome (t : Text) {digits : Text} (hdigits : SizeDigits digits) :
    NameOutcome (t ++ digits) (elementaryType t (decimal digits) (!digits.isEmpty)) := by
  unfold elementaryType
  refine .ite (fun _ => trivial) fun hsize => .ite (fun _ => trivial) fun hplain => ?_
  -- integers have digits, and names other than theirs and bytes have none
  have hne : t = "int".toList ∨ t = "uint".toList → digits ≠ [] := by
    rintro ht rfl
    exact hsize ⟨ht, rfl⟩
  have hnil : ¬ (t = "int".toList ∨ t = "uint".toList) → t ≠ "bytes".toList → t ++ digits = t := by
    intro ht hbytes
    have hempty : digits = [] := by
      by_contra hd
      exact hplain ⟨ht, hbytes, by simpa using hd⟩
    rw [hempty, List.append_nil]
  refine .ite (fun ht => ?_) fun huint => .ite (fun ht => ?_) fun hint => ?_
  · subst ht
    refine .ite (fun hodd => ?_) fun heven => ?_
    · exact ⟨rfl, digits, .inl rfl, mt Nat.mod_eq_zero_of_dvd hodd⟩
    · exact ⟨.uint (hne (.inr rfl)) hdigits (Nat.dvd_of_mod_eq_zero (not_not.mp heven)), rfl⟩
  · subst ht
    refine .ite (fun hodd => ?_) fun heven => ?_
    · exact ⟨rfl, digits, .inr rfl, mt Nat.mod_eq_zero_of_dvd hodd⟩
    · exact ⟨.int (hne (.inl rfl)) hdigits (Nat.dvd_of_mod_eq_zero (not_not.mp heven)), rfl⟩
  have hnint : ¬ (t = "int".toList ∨ t = "uint".toList) := not_or.mpr ⟨hint, huint⟩
  refine .ite (fun ht => ?_) fun _ => .ite (fun ht => ?_) fun hbytes => ?_
  · rw [hnil hnint (by rw [ht]; decide), ht]
    exact ⟨.byte, rfl⟩
  · subst ht
    exact .ite (fun hzero => ⟨.bytes hdigits hzero, rfl⟩) fun hpos => ⟨.fixedBytes hdigits hpos, rfl⟩
  rw [hnil hnint hbytes]
  refine .ite (fun ht => ?_) fun _ => .ite (fun ht => ?_) fun _ => .ite (fun ht => ?_) fun _ =>
    .ite (fun ht => ?_) fun _ => trivial
  · exact ht ▸ ⟨.string, rfl⟩
  · exact ht ▸ ⟨.bool, rfl⟩
  · exact ht ▸ ⟨.address, rfl⟩
  · exact ht ▸ ⟨.function, rfl⟩

theorem decodeSimpleType_outcome (w : Text) : NameOutcome w (decodeSimpleType w) := by
  unfold decodeSimpleType
  dsimp only
  split
  · trivial
  next hformat =>
  have hdigits : (w.dropWhile isAlpha).all isDigit = true := by
    by_contra hnot
    exact hformat (.inr (Bool.eq_false_iff.mpr hnot))
  have hword (hsmall : decimal (w.dropWhile isAlpha) < 2 ^ 63) :
      NameOutcome w (elementaryType (w.takeWhile isAlpha) (decimal (w.dropWhile isAlpha))
        (!(w.dropWhile isAlpha).isEmpty)) := by
    have h := elementaryType_outcome (w.takeWhile isAlpha) ⟨hdigits, hsmall⟩
    rwa [List.takeWhile_append_dropWhile] at h
  split
  · next hnil =>
    rw [hnil] at hword
    exact hword (by decide)
  next hsome =>
  rw [atoi]
  split
  · next hsmall =>
    have hflag : (!(w.dropWhile isAlpha).isEmpty) = true := by simpa using hsome
    have h := hword hsmall
    rw [hflag] at h
    exact h
  · trivial

/-! ## Steps -/

@[simp] theorem wp_nextToken {Q : Token → Stream → Prop} {R : String → Stream → Prop} :
    wp nextToken Q R X l ↔ Q l.peek ⟨l.peek, l.ahead.tail⟩ := Iff.rfl

def AtParen (P : List Token → Prop) (_ : String) (l : Stream) : Prop := l.current = .rparen → P l.ahead

theorem AtParen.mono {P' : List Token → Prop} {e e' : String} (h : AtParen P e l)
    (hP : ∀ rest, P rest → P' rest) : AtParen P' e' l := fun hc => hP l.ahead (h hc)

theorem wp_expect {t : Token} {Q : Unit → Stream → Prop}
    (hok : ∀ rest, ts = t :: rest → Q () ⟨t, rest⟩) (hfail : ∀ rest, ts = .rparen :: rest → P rest)
    (ht : t ≠ .eof) : wp (expect t) Q (AtParen P) X ⟨c, ts⟩ := by
  rw [expect, wp_bind, wp_nextToken, wp_ite]
  cases ts with
  | nil =>
    refine ⟨fun h => absurd h.symm ht, fun _ hc => ?_⟩
    cases hc
  | cons u rest =>
    constructor
    · intro h
      obtain rfl : u = t := h
      exact hok rest rfl
    · intro _ hc
      obtain rfl : u = .rparen := hc
      exact hfail rest rfl

theorem skipNameBrackets_spec (w : Text) (c : Token) (ts : List Token) : wp skipNameBrackets
      (fun _ l => ∃ front, ts = front ++ l.ahead ∧ (TupleName (.str w :: front) w ∨ l.ahead = []))
      (AtParen fun rest => ∃ n, ts = [.lbracket, .number n] ++ .rparen :: rest) (fun _ => False) ⟨c, ts⟩ := by
  rw [skipNameBrackets, wp_bind, wp_read]
  cases ts with
  | nil => exact ⟨[], rfl, .inl (.name w)⟩
  | cons t ts =>
    cases t with
    | lbracket =>
      cases ts with
      | nil => exact ⟨[.lbracket], rfl, .inr rfl⟩
      | cons n ts =>
        cases n with
        | number n =>
          refine wp_expect ?_ ?_ (by simp)
          · rintro rest rfl
            exact ⟨[.lbracket, .number n, .rbracket], rfl, .inl (.array w n)⟩
          · rintro rest rfl
            exact ⟨n, rfl⟩
        | _ => exact ⟨[.lbracket, _], rfl, .inl (.bracket w (by simp))⟩
    | _ => exact ⟨[], rfl, .inl (.name w)⟩

theorem readTupleName_spec (c : Token) (ts : List Token) : wp readTupleName
      (fun name l => ∃ front, ts = front ++ l.ahead ∧ (TupleName front name ∨ l.ahead = []))
      (AtParen fun rest => ∃ w n, ts = [.str w, .lbracket, .number n] ++ .rparen :: rest) (fun _ => False) ⟨c, ts⟩ := by
  rw [readTupleName, wp_bind, wp_read]
  cases ts with
  | nil => exact ⟨[], rfl, .inl .none⟩
  | cons t ts =>
    cases t with
    | str w =>
      refine (wp_bind _).2 (wp_nextToken.2 ((wp_bind _).2 ?_))
      refine wp_mono (skipNameBrackets_spec w (.str w) ts) ?_ ?_ fun _ h => h
      · rintro _ l ⟨front, rfl, hname⟩
        exact ⟨.str w :: front, rfl, hname⟩
      · refine fun _ _ hfail => hfail.mono ?_
        rintro rest ⟨n, rfl⟩
        exact ⟨w, n, rfl⟩
    | _ => exact ⟨[], rfl, .inl .none⟩

theorem readElemName_spec (c : Token) (ts : List Token) :
    wp readElemName (fun p l => ∃ names, ts = names ++ l.ahead ∧ ElemName names p) (fun _ _ => False)
      (fun _ => False) ⟨c, ts⟩ := by
  rw [readElemName, wp_bind, wp_read]
  cases ts with
  | nil => exact ⟨[], rfl, .none⟩
  | cons t ts =>
    cases t with
    | str w => exact ⟨[.str w], rfl, .name w⟩
    | indexed =>
      cases ts with
      | nil => exact ⟨[.indexed], rfl, .indexed⟩
      | cons t ts =>
        cases t with
        | str w => exact ⟨[.indexed, .str w], rfl, .both w⟩
        | _ => exact ⟨[.indexed], rfl, .indexed⟩
    | _ => exact ⟨[], rfl, .none⟩

/-- The brackets that were read behind a sentence for `tt` make a longer sentence. -/
def SuffixesRead (tt : Typ × String) (ts : List Token) (tt' : Typ × String) (l : Stream) : Prop :=
  tt'.2 = raw tt'.1 ∧ ∃ back, ts = back ++ l.ahead ∧ ∀ front, Sentence front tt.1 → Sentence (front ++ back) tt'.1

def SuffixesFail (tt : Typ × String) (ts : List Token) : String → Stream → Prop :=
  AtParen fun rest => ∃ back, ts = back ++ .rparen :: rest ∧ ∀ front, Sentence front tt.1 → Fails (front ++ back)

theorem suffixes_cons {tAux : Typ × String} (brackets : List Token) (hne : brackets ≠ [])
    (hstep : ∀ front, Sentence front tt.1 → Sentence (front ++ brackets) tAux.1)
    (h : wp (readSuffixes fuel tAux) (SuffixesRead tAux ts) (SuffixesFail tAux ts)
      (fun p => ts.length < fuel → p = arrayPanic) ⟨c, ts⟩) :
    wp (readSuffixes fuel tAux) (SuffixesRead tt (brackets ++ ts)) (SuffixesFail tt (brackets ++ ts))
      (fun p => (brackets ++ ts).length < fuel + 1 → p = arrayPanic) ⟨c, ts⟩ := by
  refine wp_mono h ?_ ?_ ?_
  · rintro tt' l ⟨hraw, back, rfl, hback⟩
    refine ⟨hraw, brackets ++ back, (List.append_assoc _ _ _).symm, fun front hfront => ?_⟩
    rw [← List.append_assoc]
    exact hback _ (hstep front hfront)
  · refine fun _ _ hfail => hfail.mono ?_
    rintro rest ⟨back, rfl, hback⟩
    refine ⟨brackets ++ back, (List.append_assoc _ _ _).symm, fun front hfront => ?_⟩
    rw [← List.append_assoc]
    exact hback _ (hstep front hfront)
  · intro p hp hlen
    have hpos := List.length_pos_of_ne_nil hne
    rw [List.length_append] at hlen
    exact hp (by omega)

theorem readSuffixes_spec (fuel : ℕ) (tt : Typ × String) (c : Token) (ts : List Token) (hraw : tt.2 = raw tt.1) :
    wp (readSuffixes fuel tt) (SuffixesRead tt ts) (SuffixesFail tt ts) (fun p => ts.length < fuel → p = arrayPanic)
      ⟨c, ts⟩ := by
  induction fuel generalizing tt c ts with
  | zero => exact fun h => absurd h (Nat.not_lt_zero _)
  | succ fuel ih =>
    have hdone : SuffixesRead tt ts tt ⟨c, ts⟩ :=
      ⟨hraw, [], rfl, fun front h => (List.append_nil front).symm ▸ h⟩
    rw [readSuffixes, wp_bind, wp_read]
    cases ts with
    | nil => exact hdone
    | cons t ts =>
      cases t with
      | lbracket =>
        cases ts with
        | nil => exact fun hc => by cases hc
        | cons n ts =>
          cases n with
          | rbracket =>
            have hrest := ih (.slice tt.1, tt.2 ++ "[]") .rbracket ts (by rw [hraw]; rfl)
            exact suffixes_cons [.lbracket, .rbracket] (by simp) (fun front h => h.slice) hrest
          | number n =>
            change wp (parseSize n >>= fun size => arrayOf size tt >>= fun tAux => expect .rbracket >>= fun _ =>
              readSuffixes fuel tAux) _ _ _ ⟨.number n, ts⟩
            rw [wp_bind, parseSize, wp_ite]
            refine ⟨fun hsize => ?_, fun _ hc => by cases hc⟩
            rw [wp_pure, wp_bind, arrayOf, wp_ite]
            refine ⟨fun _ _ => rfl, fun hfits => ?_⟩
            rw [wp_pure, wp_bind]
            refine wp_expect ?_ ?_ (by simp)
            · rintro ts rfl
              have hrest := ih (.array (decimal n) tt.1, tt.2 ++ "[" ++ toString (decimal n) ++ "]") .rbracket ts
                (by rw [hraw]; rfl)
              exact suffixes_cons [.lbracket, .number n, .rbracket] (by simp) (fun front h => h.array ⟨hsize, hfits⟩) hrest
            · rintro rest rfl
              exact ⟨[.lbracket, .number n], rfl, fun front h => .size h ⟨hsize, hfits⟩⟩
          | rparen => exact fun _ => ⟨[.lbracket], rfl, fun front h => .bracket h⟩
          | _ => exact fun hc => by cases hc
      | _ => exact hdone

/-! ## Types and components -/

/-- The panics of the parser, on the given tokens. -/
def Stopped (ts : List Token) (p : String) : Prop :=
  p = arrayPanic ∨ p = sizePanic ∧ ∃ w, .str w ∈ ts ∧ OddSize w

theorem Stopped.append_left {p : String} (front : List Token) (h : Stopped ts p) : Stopped (front ++ ts) p :=
  h.imp id fun ⟨hp, w, hw, hodd⟩ => ⟨hp, w, List.mem_append_right _ hw, hodd⟩

def TypeRead (ts : List Token) (tt : Typ × String) (l : Stream) : Prop :=
  tt.2 = raw tt.1 ∧ ∃ front, front ≠ [] ∧ ts = front ++ l.ahead ∧ Sentence front tt.1

def TypeFail (ts : List Token) : String → Stream → Prop :=
  AtParen fun rest => ∃ front, ts = front ++ .rparen :: rest ∧ Fails front

def TypeSpec (fuel : ℕ) : Prop :=
  ∀ c ts, wp (readType fuel) (TypeRead ts) (TypeFail ts) (fun p => ts.length < fuel → Stopped ts p) ⟨c, ts⟩

def RawNames (elems : List ParsedElem) : Prop := ∀ e ∈ elems, e.raw = raw e.Elem

/-- Components were read behind `elems`, up to the closing parenthesis. Behind a comma there must be one. -/
def ElemsRead (elems : List ParsedElem) (ts : List Token) (elems' : List ParsedElem) (l : Stream) : Prop :=
  ∃ new front, elems' = elems ++ new ∧ RawNames new ∧ ts = front ++ .rparen :: l.ahead ∧
    (elems = [] ∧ new = [] ∧ Fails front ∨ Components front (tupleElems new))

def ElemsFail (elems : List ParsedElem) (ts : List Token) : String → Stream → Prop :=
  AtParen fun rest => ∃ front, ts = front ++ .rparen :: rest ∧ (elems ≠ [] ∧ Fails front ∨
    ∃ components es back, front = components ++ .comma :: back ∧ Components components es ∧ Fails back)

def ElemsSpec (fuel : ℕ) : Prop :=
  ∀ c ts elems, RawNames elems → wp (readElems fuel elems) (ElemsRead elems ts) (ElemsFail elems ts)
    (fun p => ts.length + 1 < fuel → Stopped ts p) ⟨c, ts⟩

theorem raws_tupleElems (h : RawNames elems) : raws (tupleElems elems) = elems.map ParsedElem.raw := by
  induction elems with
  | nil => rfl
  | cons e elems ih =>
    rw [tupleElems, raws, List.map_cons, ih fun e he => h e (List.mem_cons_of_mem _ he), h e List.mem_cons_self]

theorem suffixes_after (front : List Token) (hfront : front ≠ []) (hraw : tt.2 = raw tt.1) (h : Sentence front tt.1) :
    wp (readSuffixes fuel tt) (TypeRead (front ++ ts)) (TypeFail (front ++ ts))
      (fun p => (front ++ ts).length < fuel + 1 → Stopped (front ++ ts) p) ⟨c, ts⟩ := by
  refine wp_mono (readSuffixes_spec fuel tt c ts hraw) ?_ ?_ ?_
  · rintro tt' l ⟨hraw', back, rfl, hback⟩
    exact ⟨hraw', front ++ back, by simp [hfront], (List.append_assoc _ _ _).symm, hback front h⟩
  · refine fun _ _ hfail => hfail.mono ?_
    rintro rest ⟨back, rfl, hback⟩
    exact ⟨front ++ back, (List.append_assoc _ _ _).symm, hback front h⟩
  · intro p hp hlen
    have hpos := List.length_pos_of_ne_nil hfront
    rw [List.length_append] at hlen
    exact .inl (hp (by omega))

theorem tuple_sentence {components : List Token} (hname : TupleName names name)
    (helems : elems = [] ∧ Fails components ∨ Components components (tupleElems elems)) :
    Sentence (.tuple :: names ++ .lparen :: components ++ [.rparen]) (tupleOf name elems).1 := by
  rcases helems with ⟨rfl, hfails⟩ | hcomponents
  · exact .emptyTuple hname hfails
  · exact .tuple hname hcomponents

theorem components_after (helems : ElemsSpec fuel) (hname : TupleName names name) :
    wp (readElems fuel [] >>= fun elems => readSuffixes fuel (tupleOf name elems))
      (TypeRead (.tuple :: names ++ .lparen :: ts)) (TypeFail (.tuple :: names ++ .lparen :: ts))
      (fun p => (.tuple :: names ++ .lparen :: ts).length < fuel + 1 → Stopped (.tuple :: names ++ .lparen :: ts) p)
      ⟨.lparen, ts⟩ := by
  rw [wp_bind]
  refine wp_mono (helems .lparen ts [] (by simp [RawNames])) ?_ ?_ ?_
  · rintro elems ⟨c, ts⟩ ⟨new, components, hnew, hraws, rfl, hcomponents⟩
    obtain rfl : elems = new := hnew
    have hassoc : .tuple :: names ++ .lparen :: (components ++ .rparen :: ts) =
        (.tuple :: names ++ .lparen :: components ++ [.rparen]) ++ ts := by simp
    have hraw : (tupleOf name elems).2 = raw (tupleOf name elems).1 := by
      rw [tupleOf, raw, raws_tupleElems hraws]
    rw [hassoc]
    exact suffixes_after _ (by simp) hraw (tuple_sentence hname (hcomponents.imp_left And.right))
  · refine fun _ _ hfail => hfail.mono ?_
    rintro rest ⟨front, rfl, ⟨hne, _⟩ | ⟨components, es, back, rfl, hcomponents, hback⟩⟩
    · exact absurd rfl hne
    · exact ⟨_, by simp, .component hname hcomponents hback⟩
  · intro p hp hlen
    simp only [List.length_cons, List.length_append] at hlen
    have hstop := (hp (by omega)).append_left (.tuple :: names ++ [.lparen])
    simpa using hstop

theorem readType_step (helems : ElemsSpec fuel) : TypeSpec (fuel + 1) := by
  intro c ts
  rw [readType, wp_bind, wp_nextToken]
  cases ts with
  | nil => exact fun hc => by cases hc
  | cons tok ts =>
    cases tok with
    | str w =>
      have hword := decodeSimpleType_outcome w
      change wp (ofOutcome (decodeSimpleType w) >>= readSuffixes fuel) _ _ _ _
      rw [wp_bind]
      cases hd : decodeSimpleType w with
      | ok tt =>
        rw [hd] at hword
        exact suffixes_after [.str w] (by simp) hword.2 (.elementary hword.1)
      | err e => exact fun hc => by cases hc
      | panic p =>
        rw [hd] at hword
        exact fun _ => .inr ⟨hword.1, w, List.mem_cons_self, hword.2⟩
    | tuple =>
      change wp (readTupleName >>= fun internalName => expect .lparen >>= fun _ => readElems fuel [] >>= fun elems =>
        readSuffixes fuel (tupleOf internalName elems)) _ _ _ ⟨.tuple, ts⟩
      rw [wp_bind]
      refine wp_mono (readTupleName_spec .tuple ts) ?_ ?_ fun _ h => h.elim
      · rintro name ⟨c', ts⟩ ⟨names, rfl, hname⟩
        rw [wp_bind]
        refine wp_expect ?_ ?_ (by simp)
        · rintro ts rfl
          exact components_after helems (by simpa using hname)
        · rintro rest rfl
          exact ⟨.tuple :: names, rfl, .name (by simpa using hname)⟩
      · refine fun _ _ hfail => hfail.mono ?_
        rintro rest ⟨w, n, rfl⟩
        exact ⟨[.tuple, .str w, .lbracket, .number n], rfl, .nameSize w n⟩
    | rparen => exact fun _ => ⟨[], rfl, .nothing⟩
    | _ => exact fun hc => by cases hc

theorem elems_after (helems : ElemsSpec fuel) (hraws : RawNames elems) (hraw : tt.2 = raw tt.1)
    (hfront : Sentence front tt.1) (hne : front ≠ []) (hname : ElemName names (indexed, name)) :
    wp (readElems fuel (elems ++ [{ Name := String.ofList name, Elem := tt.1, raw := tt.2, Indexed := indexed }]))
      (ElemsRead elems (front ++ (names ++ .comma :: ts))) (ElemsFail elems (front ++ (names ++ .comma :: ts)))
      (fun p => (front ++ (names ++ .comma :: ts)).length + 1 < fuel + 1 →
        Stopped (front ++ (names ++ .comma :: ts)) p) ⟨.comma, ts⟩ := by
  have hone : RawNames [{ Name := String.ofList name, Elem := tt.1, raw := tt.2, Indexed := indexed }] := by
    simpa [RawNames] using hraw
  refine wp_mono (helems .comma ts _ (List.forall_mem_append.2 ⟨hraws, hone⟩)) ?_ ?_ ?_
  · rintro elems' l ⟨new, rest, rfl, hnew, rfl, hrest⟩
    refine ⟨_ :: new, front ++ names ++ .comma :: rest, List.append_assoc _ _ _,
      List.forall_mem_append.2 ⟨hone, hnew⟩, by simp, .inr (.cons hfront hname (hrest.resolve_left (by simp)))⟩
  · refine fun _ _ hfail => hfail.mono ?_
    rintro rest ⟨back, rfl, ⟨_, hback⟩ | ⟨components, es, back, rfl, hcomponents, hback⟩⟩
    · exact ⟨front ++ names ++ .comma :: back, by simp, .inr ⟨_, _, back, rfl, .one hfront hname, hback⟩⟩
    · exact ⟨front ++ names ++ .comma :: components ++ .comma :: back, by simp,
        .inr ⟨_, _, back, rfl, .cons hfront hname hcomponents, hback⟩⟩
  · intro p hp hlen
    have hpos := List.length_pos_of_ne_nil hne
    simp only [List.length_append, List.length_cons] at hlen
    have hstop := (hp (by omega)).append_left (front ++ names ++ [.comma])
    simpa using hstop

theorem readElems_step (htype : TypeSpec fuel) (helems : ElemsSpec fuel) : ElemsSpec (fuel + 1) := by
  intro c ts elems hraws
  rw [readElems, wp_bind, wp_attempt]
  refine wp_mono (htype c ts) ?_ ?_ ?_
  · rintro tt ⟨c', ts⟩ ⟨hraw, front, hne, rfl, hfront⟩
    dsimp only
    rw [wp_bind]
    refine wp_mono (readElemName_spec c' ts) ?_ (fun _ _ h => h.elim) fun _ h => h.elim
    rintro ⟨indexed, name⟩ ⟨c', ts⟩ ⟨names, rfl, hname⟩
    dsimp only
    rw [wp_bind, wp_nextToken]
    cases ts with
    | nil => exact fun hc => by cases hc
    | cons next ts =>
      cases next with
      | comma => exact elems_after helems hraws hraw hfront hne hname
      | rparen =>
        exact ⟨[_], front ++ names, rfl, by simpa [RawNames] using hraw, by simp, .inr (.one hfront hname)⟩
      | _ => exact fun hc => by cases hc
  · rintro e ⟨c', ts'⟩ hfail
    dsimp only
    rw [wp_bind, wp_read, wp_ite]
    constructor
    · rintro ⟨hc, hlen⟩
      obtain rfl := List.length_eq_zero_iff.mp hlen
      obtain ⟨front, rfl, hfront⟩ := hfail hc
      exact ⟨[], front, rfl, by simp [RawNames], rfl, .inl ⟨rfl, rfl, hfront⟩⟩
    · intro hnot hc
      obtain ⟨front, rfl, hfront⟩ := hfail hc
      refine ⟨front, rfl, .inl ⟨?_, hfront⟩⟩
      rintro rfl
      exact hnot ⟨hc, rfl⟩
  · intro p hp hlen
    exact hp (by omega)

theorem typeSpec_and_elemsSpec (fuel : ℕ) : TypeSpec fuel ∧ ElemsSpec fuel := by
  induction fuel with
  | zero => exact ⟨fun _ _ h => absurd h (Nat.not_lt_zero _), fun _ _ _ _ h => absurd h (Nat.not_lt_zero _)⟩
  | succ fuel ih => exact ⟨readType_step ih.2, readElems_step ih.1 ih.2⟩

/-! ## The whole input -/

end Web3.Abi

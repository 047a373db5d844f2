import Web3.Abi.TypeReading
import Web3.Abi.TypeGrammar

/-! # Two runs of the parser

Two lists of tokens that differ only in the names of tuples (`SameTokens`). The parser goes the same way on both: it
reads types that are equal up to these names, fails at the same token, or panics alike. With more fuel than tokens it
does not matter how much fuel there is, so this holds for whole inputs of different lengths. -/

namespace Web3.Abi
open Prog

/-! ## Tokens that differ in the names of tuples -/

/-- The tokens behind the token `c`. Behind an open bracket, the word `tuple` does not begin a type. -/
inductive SameTokens : Token → List Token → List Token → Prop
  | nil (c : Token) : SameTokens c [] []
  | cons (c t : Token) {ts ts' : List Token} : SameTokens t ts ts' → SameTokens c (t :: ts) (t :: ts')
  | tuple {c : Token} {tupleName tupleName' : String} {ts ts' : List Token} : c ≠ .lbracket → OneWord tupleName →
      OneWord tupleName' → SameTokens .lparen ts ts' →
      SameTokens c (.tuple :: hintToks tupleName ++ .lparen :: ts) (.tuple :: hintToks tupleName' ++ .lparen :: ts')

variable {ts : List Token} {l l' : Stream} {t : Token} {tt tt' : Typ × String}
  {es es' : List ParsedElem} {fuel : ℕ} {s : Text}

theorem SameTokens.head {c : Token} {ts' : List Token} (h : SameTokens c ts ts') :
    ts.headD .eof = ts'.headD .eof := by
  cases h <;> rfl

/-- The same token was read last, and the tokens ahead are the same but for the names of tuples. -/
def Alike (l l' : Stream) : Prop := l.current = l'.current ∧ SameTokens l.current l.ahead l'.ahead

/-- Two failures at the same token. The loop over components only goes on behind a closing parenthesis. -/
def FailAlike (_ _ : String) (l l' : Stream) : Prop := l.current = l'.current ∧ (l.current = .rparen → Alike l l')

theorem Alike.peek (h : Alike l l') : l.peek = l'.peek := h.2.head

theorem Alike.fail (h : Alike l l') (e e' : String) : FailAlike e e' l l' := ⟨h.1, fun _ => h⟩

def NextAlike (t t' : Token) (l l' : Stream) : Prop :=
  t = t' ∧ l.current = t ∧ l'.current = t ∧ (t ≠ .tuple → Alike l l')

theorem NextAlike.fail {t' : Token} (h : NextAlike t t' l l') (e e' : String) : FailAlike e e' l l' := by
  obtain ⟨-, hc, hc', halike⟩ := h
  refine ⟨hc.trans hc'.symm, fun hparen => halike ?_⟩
  rw [← hc, hparen]
  simp

theorem nextToken_alike (h : Alike l l') : Twin NextAlike FailAlike (nextToken l) (nextToken l') := by
  obtain ⟨c, ts⟩ := l
  obtain ⟨c', ts'⟩ := l'
  obtain ⟨hc, hts⟩ := h
  cases hts with
  | nil => exact .ok ⟨rfl, rfl, rfl, fun _ => ⟨rfl, .nil _⟩⟩
  | cons _ t hts => exact .ok ⟨rfl, rfl, rfl, fun _ => ⟨rfl, hts⟩⟩
  | tuple _ _ _ _ => exact .ok ⟨rfl, rfl, rfl, fun h => absurd rfl h⟩

theorem nextToken_bracket (h : Alike l l') (hc : l.current = .lbracket) :
    Twin (fun t t' l l' => t = t' ∧ Alike l l') FailAlike (nextToken l) (nextToken l') := by
  obtain ⟨c, ts⟩ := l
  obtain ⟨c', ts'⟩ := l'
  obtain ⟨_, hts⟩ := h
  cases hts with
  | nil => exact .ok ⟨rfl, rfl, .nil _⟩
  | cons _ t hts => exact .ok ⟨rfl, rfl, hts⟩
  | tuple hne _ _ _ => exact absurd hc hne

theorem nextToken_known (h : Alike l l') (hpeek : l.peek = t) (ht : t ≠ .tuple) :
    Twin (fun n n' l l' => n = t ∧ n' = t ∧ l.current = t ∧ Alike l l') FailAlike (nextToken l) (nextToken l') := by
  have hpeek' : l'.peek = t := h.peek ▸ hpeek
  have hnext := nextToken_alike h
  rw [nextToken, nextToken, hpeek, hpeek'] at hnext ⊢
  cases hnext with
  | ok hnext => exact .ok ⟨rfl, rfl, rfl, hnext.2.2.2 ht⟩

theorem expect_alike (ht : t ≠ .tuple) (h : Alike l l') :
    Twin (fun _ _ l l' => Alike l l') FailAlike (expect t l) (expect t l') := by
  refine (nextToken_alike h).bind ?_
  intro n n' l l' hnext
  obtain rfl := hnext.1
  by_cases hn : n = t
  · rw [if_pos hn]
    exact .ok (hnext.2.2.2 (hn ▸ ht))
  · rw [if_neg hn]
    exact .error (hnext.fail _ _)

theorem peek_alike (h : Alike l l') :
    Twin (fun p p' l l' => p = p' ∧ l.peek = p ∧ Alike l l') FailAlike ((read Stream.peek : Parser Token) l)
      ((read Stream.peek : Parser Token) l') :=
  .ok ⟨h.peek, rfl, h⟩

theorem skipNameBrackets_alike (h : Alike l l') :
    Twin (fun _ _ l l' => Alike l l') FailAlike (skipNameBrackets l) (skipNameBrackets l') := by
  refine (peek_alike h).bind ?_
  rintro p _ l l' ⟨rfl, hp, h⟩
  split
  · next hb =>
    refine (nextToken_known h (hp.trans hb) (by simp)).bind ?_
    rintro _ _ l l' ⟨rfl, rfl, hc, h⟩
    refine (nextToken_bracket h hc).bind ?_
    rintro n _ l l' ⟨rfl, h⟩
    cases n with
    | number n => exact expect_alike (by simp) h
    | _ => exact .ok h
  · exact .ok h

theorem readTupleName_alike (h : Alike l l') :
    Twin (fun name name' l l' => name = name' ∧ Alike l l') FailAlike (readTupleName l) (readTupleName l') := by
  refine (peek_alike h).bind ?_
  rintro p _ l l' ⟨rfl, hp, h⟩
  cases p with
  | str w =>
    refine (nextToken_known h hp (by simp)).bind ?_
    rintro _ _ l l' ⟨rfl, rfl, _, h⟩
    refine (skipNameBrackets_alike h).bind ?_
    rintro _ _ l l' h
    exact .ok ⟨rfl, h⟩
  | _ => exact .ok ⟨rfl, h⟩

theorem readElemName_alike (h : Alike l l') :
    Twin (fun p p' l l' => p = p' ∧ Alike l l') FailAlike (readElemName l) (readElemName l') := by
  refine (peek_alike h).bind ?_
  rintro p _ l l' ⟨rfl, hp, h⟩
  cases p with
  | str w =>
    refine (nextToken_known h hp (by simp)).bind ?_
    rintro _ _ l l' ⟨rfl, rfl, _, h⟩
    exact .ok ⟨rfl, h⟩
  | indexed =>
    refine (nextToken_known h hp (by simp)).bind ?_
    rintro _ _ l l' ⟨rfl, rfl, _, h⟩
    refine (peek_alike h).bind ?_
    rintro p _ l l' ⟨rfl, hp, h⟩
    cases p with
    | str w =>
      refine (nextToken_known h hp (by simp)).bind ?_
      rintro _ _ l l' ⟨rfl, rfl, _, h⟩
      exact .ok ⟨rfl, h⟩
    | _ => exact .ok ⟨rfl, h⟩
  | _ => exact .ok ⟨rfl, h⟩

/-! ## Types up to the names of tuples -/

mutual
def unnamed : Typ → Typ
  | .slice elem => .slice (unnamed elem)
  | .array size elem => .array size (unnamed elem)
  | .tuple _ elems => .tuple "" (unnamedEach elems)
  | t => t

def unnamedEach : TupleElems → TupleElems
  | .nil => .nil
  | .cons name elem indexed rest => .cons name (unnamed elem) indexed (unnamedEach rest)
end

theorem goType_unnamed : (t : Typ) → goType (unnamed t) = goType t
  | .bool | .uint _ | .int _ | .string | .address | .bytes | .fixedBytes _ | .function | .tuple _ _ => rfl
  | .slice elem | .array _ elem => by rw [unnamed, goType, goType, goType_unnamed elem]

def Similar (tt tt' : Typ × String) : Prop := unnamed tt.1 = unnamed tt'.1 ∧ tt.2 = tt'.2

theorem Similar.goType (h : Similar tt tt') : goType tt.1 = Web3.Abi.goType tt'.1 := by
  rw [← goType_unnamed, h.1, goType_unnamed]

theorem arrayOf_alike (size : ℕ) (htt : Similar tt tt') (h : Alike l l') :
    Twin (fun tt tt' l l' => Similar tt tt' ∧ Alike l l') FailAlike (arrayOf size tt l) (arrayOf size tt' l') := by
  rw [arrayOf, arrayOf, htt.goType]
  split
  · exact .stop _
  · refine .ok ⟨⟨?_, ?_⟩, h⟩
    · rw [unnamed, unnamed, htt.1]
    · rw [htt.2]

theorem parseSize_alike (literal : Text) (h : Alike l l') :
    Twin (fun size size' l l' => size = size' ∧ Alike l l') FailAlike (parseSize literal l) (parseSize literal l') := by
  rw [parseSize]
  split
  · exact .ok ⟨rfl, h⟩
  · exact .error (h.fail _ _)

theorem readSuffixes_alike (fuel : ℕ) (htt : Similar tt tt') (h : Alike l l') :
    Twin (fun tt tt' l l' => Similar tt tt' ∧ Alike l l') FailAlike (readSuffixes fuel tt l)
      (readSuffixes fuel tt' l') := by
  induction fuel generalizing tt tt' l l' with
  | zero => exact .stop _
  | succ fuel ih =>
    rw [readSuffixes, readSuffixes]
    refine (peek_alike h).bind ?_
    rintro p _ l l' ⟨rfl, hp, h⟩
    split
    · next hb =>
      refine (nextToken_known h (hp.trans hb) (by simp)).bind ?_
      rintro _ _ l l' ⟨rfl, rfl, hc, h⟩
      refine (nextToken_bracket h hc).bind ?_
      rintro n _ l l' ⟨rfl, h⟩
      cases n with
      | rbracket =>
        refine ih ⟨?_, ?_⟩ h
        · rw [unnamed, unnamed, htt.1]
        · rw [htt.2]
      | number n =>
        refine (parseSize_alike n h).bind ?_
        rintro size _ l l' ⟨rfl, h⟩
        refine (arrayOf_alike size htt h).bind ?_
        rintro tAux tAux' l l' ⟨htAux, h⟩
        refine (expect_alike (by simp) h).bind ?_
        rintro _ _ l l' h
        exact ih htAux h
      | _ => exact .error (h.fail _ _)
    · exact .ok ⟨htt, h⟩

def ParsedElem.unnamed (e : ParsedElem) : ParsedElem := { e with Elem := Web3.Abi.unnamed e.Elem }

def SimilarElems (es es' : List ParsedElem) : Prop := es.map ParsedElem.unnamed = es'.map ParsedElem.unnamed

theorem unnamedEach_tupleElems (es : List ParsedElem) :
    unnamedEach (tupleElems es) = tupleElems (es.map ParsedElem.unnamed) := by
  induction es with
  | nil => rfl
  | cons e es ih =>
    rw [tupleElems, unnamedEach, ih]
    rfl

theorem raws_unnamed (es : List ParsedElem) :
    (es.map ParsedElem.unnamed).map ParsedElem.raw = es.map ParsedElem.raw := by
  rw [List.map_map]
  rfl

theorem SimilarElems.tupleOf (h : SimilarElems es es') (name name' : Text) :
    Similar (tupleOf name es) (Web3.Abi.tupleOf name' es') := by
  constructor
  · rw [Web3.Abi.tupleOf, Web3.Abi.tupleOf, unnamed, unnamed, unnamedEach_tupleElems, unnamedEach_tupleElems, h]
  · rw [Web3.Abi.tupleOf, Web3.Abi.tupleOf, ← raws_unnamed, h, raws_unnamed]

theorem SimilarElems.append (h : SimilarElems es es') (htt : Similar tt tt') (indexed : Bool) (name : Text) :
    SimilarElems (es ++ [{ Name := String.ofList name, Elem := tt.1, raw := tt.2, Indexed := indexed }])
      (es' ++ [{ Name := String.ofList name, Elem := tt'.1, raw := tt'.2, Indexed := indexed }]) := by
  rw [SimilarElems, List.map_append, List.map_append, h]
  simp [ParsedElem.unnamed, htt.1, htt.2]

theorem SimilarElems.length_eq (h : SimilarElems es es') : es.length = es'.length := by
  simpa using congrArg List.length h

/-! ## Two runs of the parser -/

def TypeAlike (fuel : ℕ) : Prop :=
  ∀ {l l' : Stream}, Alike l l' →
    Twin (fun tt tt' l l' => Similar tt tt' ∧ Alike l l') FailAlike (readType fuel l) (readType fuel l')

def ElemsAlike (fuel : ℕ) : Prop :=
  ∀ {es es' : List ParsedElem} {l l' : Stream}, SimilarElems es es' → Alike l l' →
    Twin (fun es es' l l' => SimilarElems es es' ∧ Alike l l') FailAlike (readElems fuel es l) (readElems fuel es' l')

theorem readComponents_alike (helems : ElemsAlike fuel) (name name' : Text) (h : Alike l l') :
    Twin (fun tt tt' l l' => Similar tt tt' ∧ Alike l l') FailAlike
      ((readElems fuel [] >>= fun elems => readSuffixes fuel (tupleOf name elems)) l)
      ((readElems fuel [] >>= fun elems => readSuffixes fuel (tupleOf name' elems)) l') := by
  refine (helems rfl h).bind ?_
  rintro es es' l l' ⟨hes, h⟩
  exact readSuffixes_alike fuel (hes.tupleOf name name') h

theorem readType_alike_step (helems : ElemsAlike fuel) : TypeAlike (fuel + 1) := by
  intro l l' h
  obtain ⟨c, ts⟩ := l
  obtain ⟨c', ts'⟩ := l'
  obtain ⟨hc, hts⟩ := h
  cases hts with
  | nil => exact .error (Alike.fail ⟨rfl, .nil _⟩ _ _)
  | @tuple _ tupleName tupleName' ts ts' _ hword hword' hts =>
    have hrun := readComponents_alike helems (hintWord tupleName) (hintWord tupleName')
      (⟨rfl, hts⟩ : Alike ⟨.lparen, ts⟩ ⟨.lparen, ts'⟩)
    rw [← readType_tuple hword fuel c, ← readType_tuple hword' fuel c'] at hrun
    exact hrun
  | @cons _ t ts ts' hts =>
    have h : Alike ⟨t, ts⟩ ⟨t, ts'⟩ := ⟨rfl, hts⟩
    rw [readType, bind_of_ok (nextToken_cons _ _ _), bind_of_ok (nextToken_cons _ _ _)]
    cases t with
    | tuple =>
      refine (readTupleName_alike h).bind ?_
      rintro name _ l l' ⟨rfl, h⟩
      refine (expect_alike (by simp) h).bind ?_
      rintro _ _ l l' h
      exact readComponents_alike helems name name h
    | str w =>
      refine Twin.bind (Q := fun tt tt' l l' => tt = tt' ∧ Alike l l') ?_ ?_
      · cases decodeSimpleType w with
        | ok tt => exact .ok ⟨rfl, h⟩
        | err e => exact .error (h.fail _ _)
        | panic p => exact .stop p
      · rintro tt _ l l' ⟨rfl, h⟩
        exact readSuffixes_alike fuel ⟨rfl, rfl⟩ h
    | _ => exact .error (h.fail _ _)

theorem readElems_alike_step (htype : TypeAlike fuel) (helems : ElemsAlike fuel) : ElemsAlike (fuel + 1) := by
  intro es es' l l' hes h
  rw [readElems, readElems]
  refine (htype h).attempt_bind ?_ ?_
  · rintro tt tt' l l' ⟨htt, h⟩
    refine (readElemName_alike h).bind ?_
    rintro ⟨indexed, name⟩ _ l l' ⟨rfl, h⟩
    have hes := hes.append htt indexed name
    refine (nextToken_alike h).bind ?_
    intro n n' l l' hnext
    obtain rfl := hnext.1
    cases n with
    | comma => exact helems hes (hnext.2.2.2 (by simp))
    | rparen => exact .ok ⟨hes, hnext.2.2.2 (by simp)⟩
    | _ => exact .error (hnext.fail _ _)
  · intro e e' l l' hfail
    dsimp only
    rw [bind_apply, bind_apply, Prog.read, Prog.read]
    dsimp only
    rw [← hfail.1, ← hes.length_eq]
    split
    · next hempty => exact .ok ⟨hes, hfail.2 hempty.1⟩
    · exact .error hfail

theorem typeAlike_and_elemsAlike (fuel : ℕ) : TypeAlike fuel ∧ ElemsAlike fuel := by
  induction fuel with
  | zero => exact ⟨fun _ => .stop _, fun _ _ => .stop _⟩
  | succ fuel ih => exact ⟨readType_alike_step ih.2, readElems_alike_step ih.1 ih.2⟩

/-! ## Fuel -/

theorem readSuffixes_below (fuel : ℕ) (tt : Typ × String) :
    Below (· = fuelPanic) (readSuffixes fuel tt) (readSuffixes (fuel + 1) tt) := by
  induction fuel generalizing tt with
  | zero => exact .halt rfl
  | succ fuel ih =>
    rw [readSuffixes, readSuffixes]
    refine (Below.refl _).bind fun p => Below.ite ?_ (.refl _)
    refine (Below.refl _).bind fun _ => (Below.refl _).bind fun n => ?_
    cases n with
    | rbracket => exact ih _
    | number n =>
      exact (Below.refl _).bind fun size => (Below.refl _).bind fun tAux => (Below.refl _).bind fun _ => ih tAux
    | _ => exact .refl _

theorem read_below (fuel : ℕ) : Below (· = fuelPanic) (readType fuel) (readType (fuel + 1)) ∧
      ∀ es, Below (· = fuelPanic) (readElems fuel es) (readElems (fuel + 1) es) := by
  induction fuel with
  | zero => exact ⟨.halt rfl, fun _ => .halt rfl⟩
  | succ fuel ih =>
    constructor
    · rw [readType, readType]
      refine (Below.refl _).bind fun tok => ?_
      cases tok with
      | tuple =>
        exact (Below.refl _).bind fun name => (Below.refl _).bind fun _ => (ih.2 []).bind fun elems =>
          readSuffixes_below fuel _
      | str w => exact (Below.refl _).bind fun tt => readSuffixes_below fuel tt
      | _ => exact .refl _
    · intro es
      rw [readElems, readElems]
      refine ih.1.attempt.bind fun r => ?_
      cases r with
      | error e => exact .refl _
      | ok tt =>
        refine (Below.refl _).bind fun p => (Below.refl _).bind fun next => ?_
        cases next with
        | comma => exact ih.2 _
        | _ => exact .refl _

theorem Stopped.ne_fuelPanic {p : String} (h : Stopped ts p) : p ≠ fuelPanic := by
  rcases h with rfl | ⟨rfl, _⟩ <;> decide

theorem readType_fuel (c : Token) {fuel' : ℕ} (hlen : ts.length < fuel) (hle : fuel ≤ fuel') :
    readType fuel' ⟨c, ts⟩ = readType fuel ⟨c, ts⟩ := by
  induction fuel', hle using Nat.le_induction with
  | base => rfl
  | succ fuel' hle ih =>
    have hspec := (typeSpec_and_elemsSpec fuel').1 c ts
    have hne := wp_mono hspec (fun _ _ h => h) (fun _ _ h => h) fun p h => (h (hlen.trans_le hle)).ne_fuelPanic
    exact ((read_below fuel').1.eq_of_wp hne).trans ih

theorem newType_eq (h : (lex s).length < fuel) : newType s = outcome (readType fuel ⟨.eof, lex s⟩) := by
  rw [newType, readType_fuel .eof (Nat.lt_succ_self _) h]

/-- Both succeed, with types that are equal up to the names of tuples, or neither does. -/
def Agree : Outcome (Typ × String) → Outcome (Typ × String) → Prop
  | .ok tt, .ok tt' => Similar tt tt'
  | .ok _, _ => False
  | _, .ok _ => False
  | _, _ => True

theorem agree_of_twin {r r' : Ending Stream String String (Typ × String)}
    (h : Twin (fun tt tt' l l' => Similar tt tt' ∧ Alike l l') FailAlike r r') : Agree (outcome r) (outcome r') := by
  cases h with
  | ok h => exact h.1
  | error | stop => trivial

theorem newType_agree {s' : Text} (h : SameTokens .eof (lex s) (lex s')) : Agree (newType s) (newType s') := by
  have hfuel : (lex s).length < (lex s).length + (lex s').length + 1 := by omega
  have hfuel' : (lex s').length < (lex s).length + (lex s').length + 1 := by omega
  rw [newType_eq hfuel, newType_eq hfuel']
  exact agree_of_twin ((typeAlike_and_elemsAlike _).1 (⟨rfl, h⟩ : Alike ⟨.eof, lex s⟩ ⟨.eof, lex s'⟩))

end Web3.Abi

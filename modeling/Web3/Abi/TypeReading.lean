import Web3.Abi.TypeText

/-! # Reading a description back

The parser on the tokens of a description. The brackets at the end of a type are read in a loop, so the induction
over the type says how the loop goes on: with the type as it is so far, on the tokens behind it. -/

namespace Web3.Abi
open Prog

/-! ## Steps of the parser -/

theorem nextToken_cons (c t : Token) (ts : List Token) : nextToken ⟨c, t :: ts⟩ = .ok t ⟨t, ts⟩ := rfl

theorem expect_cons (c t : Token) (ts : List Token) : expect t ⟨c, t :: ts⟩ = .ok () ⟨t, ts⟩ := by
  rw [expect, bind_apply, nextToken_cons]
  exact congrFun (if_pos rfl) _

variable {fuel size : ℕ} {tt : Typ × String} {t elem : Typ} {tupleName : String} {c : Token}
  {rest : List Token}

theorem readSuffixes_done (tt : Typ × String) {l : Stream} (h : l.peek ≠ .lbracket) :
    readSuffixes (fuel + 1) tt l = .ok tt l := by
  rw [readSuffixes, bind_apply]
  exact congrFun (if_neg h) l

theorem readSuffixes_slice (fuel : ℕ) (tt : Typ × String) (c : Token) (ts : List Token) :
    readSuffixes (fuel + 1) tt ⟨c, .lbracket :: .rbracket :: ts⟩ =
      readSuffixes fuel (.slice tt.1, tt.2 ++ "[]") ⟨.rbracket, ts⟩ := by
  rw [readSuffixes]
  rfl

theorem arrayOf_large (h : ExceedsAddressSpace size (goType tt.1)) (l : Stream) :
    arrayOf size tt l = .stop arrayPanic := by
  rw [arrayOf, if_pos h]
  rfl

theorem arrayOf_fit (h : ¬ ExceedsAddressSpace size (goType tt.1)) (l : Stream) :
    arrayOf size tt l = .ok (.array size tt.1, tt.2 ++ "[" ++ toString size ++ "]") l := by
  rw [arrayOf, if_neg h]
  rfl

theorem readSuffixes_number (fuel : ℕ) (tt : Typ × String) (c : Token) {literal : Text} (ts : List Token)
    (hsize : decimal literal < 2 ^ 32) :
    readSuffixes (fuel + 1) tt ⟨c, .lbracket :: .number literal :: .rbracket :: ts⟩ =
      if ExceedsAddressSpace (decimal literal) (goType tt.1) then .stop arrayPanic
      else readSuffixes fuel (.array (decimal literal) tt.1, tt.2 ++ "[" ++ toString (decimal literal) ++ "]")
        ⟨.rbracket, ts⟩ := by
  have hparse : parseSize literal ⟨.number literal, .rbracket :: ts⟩ =
      .ok (decimal literal) ⟨.number literal, .rbracket :: ts⟩ := congrFun (if_pos hsize) _
  have hrun : readSuffixes (fuel + 1) tt ⟨c, .lbracket :: .number literal :: .rbracket :: ts⟩ =
      (parseSize literal >>= fun size => arrayOf size tt >>= fun tAux => expect .rbracket >>= fun _ =>
        readSuffixes fuel tAux) ⟨.number literal, .rbracket :: ts⟩ := by
    rw [readSuffixes]
    rfl
  rw [hrun, bind_of_ok hparse]
  split
  · next hlarge => exact bind_of_stop (arrayOf_large hlarge _) _
  · next hfit => rw [bind_of_ok (arrayOf_fit hfit _), bind_of_ok (expect_cons _ _ _)]

theorem readTupleName_none (c : Token) (ts : List Token) :
    readTupleName ⟨c, .lparen :: ts⟩ = .ok [] ⟨c, .lparen :: ts⟩ := rfl

theorem readTupleName_str (c : Token) (literal : Text) (ts : List Token) :
    readTupleName ⟨c, .str literal :: .lparen :: ts⟩ = .ok literal ⟨.str literal, .lparen :: ts⟩ := rfl

def IsSeparator (t : Token) : Prop := t = .comma ∨ t = .rparen

theorem readElemName_toks (indexed : Bool) (name : String) (c : Token) {t : Token} (ht : IsSeparator t)
    (ts : List Token) : ∃ c', readElemName ⟨c, nameToks indexed name ++ t :: ts⟩ =
      .ok (indexed, name.toList) ⟨c', t :: ts⟩ := by
  by_cases hname : name = ""
  · subst hname
    cases indexed <;> rcases ht with rfl | rfl <;> exact ⟨_, rfl⟩
  · rw [nameToks, if_neg hname]
    cases indexed <;> exact ⟨_, rfl⟩

/-! ## Elementary types -/

theorem decimal_toString (size : ℕ) : decimal (toString size).toList = size := by
  rw [decimal, Nat.toString_eq_ofList_toDigits, String.toList_ofList, Nat.ofDigitChars_ten_toDigits]

theorem decodeSimpleType_sized {t : Text} (halpha : ∀ c ∈ t, isAlpha c = true) (hne : t ≠ [])
    (hsize : size < 2 ^ 63) : decodeSimpleType (t ++ (toString size).toList) = elementaryType t size true := by
  obtain ⟨ch, digits, hdigits⟩ := toString_cons size
  have hall : ∀ c ∈ (toString size).toList, isDigit c = true := fun c hc => isDigit_toString hc
  have hstop : Stops isAlpha (toString size).toList := by
    rw [hdigits]
    have hch := not_isLetter_of_isDigit (hall ch (by rw [hdigits]; exact List.mem_cons_self ..))
    refine stops_cons ?_ digits
    simp only [isLetter, Bool.or_eq_false_iff] at hch
    simpa [isAlpha] using hch.1
  have htake : (t ++ (toString size).toList).takeWhile isAlpha = t := by
    rw [takeWhile_append_stops hstop, List.takeWhile_eq_self_iff.mpr halpha]
  have hdrop : (t ++ (toString size).toList).dropWhile isAlpha = (toString size).toList := by
    rw [dropWhile_append_stops hstop, List.dropWhile_eq_nil_iff.mpr halpha, List.nil_append]
  have hnil : (toString size).toList ≠ [] := by
    rw [hdigits]
    exact List.cons_ne_nil ch digits
  have hformat : ¬ (t = [] ∨ (toString size).toList.all isDigit = false) := by
    rw [List.all_eq_true.mpr hall]
    simpa using hne
  rw [decodeSimpleType, htake, hdrop, if_neg hformat, if_neg hnil, atoi, decimal_toString,
    if_pos hsize, Outcome.ok_bind]

theorem decodeSimpleType_raw (ht : isElementary t = true) (hd : Describable t) :
    decodeSimpleType (raw t).toList = .ok (t, raw t) := by
  cases t with
  | slice | array | tuple => cases ht
  | uint size | int size =>
    have hsize : size < 2 ^ 63 := lt_of_le_of_lt hd.2.1 (by norm_num)
    have hmod : size % 8 = 0 := Nat.mod_eq_zero_of_dvd hd.2.2
    rw [raw, String.toList_append, decodeSimpleType_sized (List.all_eq_true.mp rfl) (by decide) hsize]
    simp [elementaryType, hmod]
  | fixedBytes size =>
    have hsize : size < 2 ^ 63 := lt_of_le_of_lt hd.2 (by norm_num)
    have hpos : size ≠ 0 := Nat.pos_iff_ne_zero.mp hd.1
    rw [raw, String.toList_append, decodeSimpleType_sized (List.all_eq_true.mp rfl) (by decide) hsize]
    simp [elementaryType, hpos]
  | _ => rfl

/-! ## Names of tuples and sizes of arrays -/

def OneWord (tupleName : String) : Prop := hintToks tupleName = [] ∨ ∃ word, hintToks tupleName = [.str word]

def hintWord (tupleName : String) : Text :=
  match hintToks tupleName with
  | [.str word] => word
  | _ => []

mutual
def AllOneWord : Typ → Prop
  | .slice elem => AllOneWord elem
  | .array _ elem => AllOneWord elem
  | .tuple tupleName elems => OneWord tupleName ∧ EachOneWord elems
  | _ => True

def EachOneWord : TupleElems → Prop
  | .nil => True
  | .cons _ elem _ rest => AllOneWord elem ∧ EachOneWord rest
end

mutual
/-- Every array of the type fits into the address space. -/
def ArraysFit : Typ → Prop
  | .slice elem => ArraysFit elem
  | .array size elem => ¬ ExceedsAddressSpace size (goType elem) ∧ ArraysFit elem
  | .tuple _ elems => EachFit elems
  | _ => True

def EachFit : TupleElems → Prop
  | .nil => True
  | .cons _ elem _ rest => ArraysFit elem ∧ EachFit rest
end

mutual
def renamed : Typ → Typ
  | .slice elem => .slice (renamed elem)
  | .array size elem => .array size (renamed elem)
  | .tuple tupleName elems => .tuple (String.ofList (hintWord tupleName)) (renamedEach elems)
  | t => t

def renamedEach : TupleElems → TupleElems
  | .nil => .nil
  | .cons name elem indexed rest => .cons name (renamed elem) indexed (renamedEach rest)
end

theorem goType_renamed : (t : Typ) → goType (renamed t) = goType t
  | .bool | .uint _ | .int _ | .string | .address | .bytes | .fixedBytes _ | .function | .tuple _ _ => rfl
  | .slice elem | .array _ elem => by rw [renamed, goType, goType, goType_renamed elem]

def parsedEach : TupleElems → List ParsedElem
  | .nil => []
  | .cons name elem indexed rest =>
    { Name := name, Elem := renamed elem, raw := raw elem, Indexed := indexed } :: parsedEach rest

theorem tupleElems_parsedEach (es : TupleElems) : tupleElems (parsedEach es) = renamedEach es := by
  cases es with
  | nil => rfl
  | cons _ _ _ rest => rw [parsedEach, tupleElems, renamedEach, tupleElems_parsedEach rest]

theorem raws_parsedEach (es : TupleElems) : (parsedEach es).map ParsedElem.raw = raws es := by
  cases es with
  | nil => rfl
  | cons _ _ _ rest => rw [parsedEach, List.map_cons, raws, raws_parsedEach rest]

theorem tupleOf_parsedEach (tupleName : String) (es : TupleElems) :
    tupleOf (hintWord tupleName) (parsedEach es) = (renamed (.tuple tupleName es), raw (.tuple tupleName es)) := by
  rw [tupleOf, tupleElems_parsedEach, raws_parsedEach, renamed, raw]

theorem readTupleName_hint (h : OneWord tupleName) (c : Token) (ts : List Token) :
    ∃ c', readTupleName ⟨c, hintToks tupleName ++ .lparen :: ts⟩ = .ok (hintWord tupleName) ⟨c', .lparen :: ts⟩ := by
  rcases h with h | ⟨word, h⟩
  · rw [hintWord, h]
    exact ⟨c, readTupleName_none c ts⟩
  · rw [hintWord, h]
    exact ⟨.str word, readTupleName_str c word ts⟩

/-! ## The parser on the tokens of a type -/

/-- What `readType` makes of the tokens of a type, with more tokens behind them: the loop over the brackets goes on
with the type, or the program has panicked at an array. -/
structure ReadsType (t : Typ) (fuel : ℕ) (c : Token) (rest : List Token) : Prop where
  fit : ArraysFit t → ∃ c' k, fuel + 1 ≤ k + (toks t).length ∧
    readType (fuel + 1) ⟨c, toks t ++ rest⟩ = readSuffixes k (renamed t, raw t) ⟨c', rest⟩
  large : ¬ ArraysFit t → readType (fuel + 1) ⟨c, toks t ++ rest⟩ = .stop arrayPanic

theorem ReadsType.ok (h : ReadsType t fuel c rest) (hfit : ArraysFit t)
    (hfuel : (toks t).length ≤ fuel) (hrest : rest.headD .eof ≠ .lbracket) :
    ∃ c', readType (fuel + 1) ⟨c, toks t ++ rest⟩ = .ok (renamed t, raw t) ⟨c', rest⟩ := by
  obtain ⟨c', k, hk, hread⟩ := h.fit hfit
  obtain ⟨k, rfl⟩ := Nat.exists_eq_succ_of_ne_zero (by omega : k ≠ 0)
  exact ⟨c', hread.trans (readSuffixes_done _ hrest)⟩

theorem readType_elementary (ht : isElementary t = true) (hd : Describable t) (fuel : ℕ) (c : Token)
    (rest : List Token) : readType (fuel + 1) ⟨c, .str (raw t).toList :: rest⟩ =
      readSuffixes fuel (t, raw t) ⟨.str (raw t).toList, rest⟩ := by
  have hsimple : ofOutcome (decodeSimpleType (raw t).toList) ⟨.str (raw t).toList, rest⟩ =
      .ok (t, raw t) ⟨.str (raw t).toList, rest⟩ := by
    rw [decodeSimpleType_raw ht hd]
    rfl
  rw [readType, bind_of_ok (nextToken_cons _ _ _)]
  exact bind_of_ok hsimple _

theorem nameToks_head (indexed : Bool) (name : String) {t : Token} (ht : IsSeparator t) (ts : List Token) :
    (nameToks indexed name ++ t :: ts).headD .eof ≠ .lbracket := by
  by_cases hname : name = ""
  · subst hname
    cases indexed <;> rcases ht with rfl | rfl <;> simp [nameToks]
  · cases indexed <;> simp [nameToks, hname]

theorem readElems_component {name : String} {indexed : Bool} {sep : Token} (hsep : IsSeparator sep)
    (hfit : ArraysFit elem) (hfuel : (toks elem).length ≤ fuel)
    (h : ReadsType elem fuel c (nameToks indexed name ++ sep :: rest)) (acc : List ParsedElem) :
    readElems (fuel + 2) acc ⟨c, toks elem ++ (nameToks indexed name ++ sep :: rest)⟩ = (match sep with
        | .comma => readElems (fuel + 1)
            (acc ++ [{ Name := name, Elem := renamed elem, raw := raw elem, Indexed := indexed }])
        | _ => pure (acc ++ [{ Name := name, Elem := renamed elem, raw := raw elem, Indexed := indexed }]) :
          Parser (List ParsedElem)) ⟨sep, rest⟩ := by
  obtain ⟨c', hread⟩ := h.ok hfit hfuel (nameToks_head indexed name hsep rest)
  obtain ⟨c'', hname⟩ := readElemName_toks indexed name c' hsep rest
  have hattempt : (attempt (readType (fuel + 1)) : Parser _) ⟨c, toks elem ++ (nameToks indexed name ++ sep :: rest)⟩ =
      .ok (.ok (renamed elem, raw elem)) ⟨c', nameToks indexed name ++ sep :: rest⟩ := by
    rw [attempt, hread]
  rw [readElems, bind_of_ok hattempt]
  dsimp only
  rw [bind_of_ok hname]
  dsimp only
  rw [bind_of_ok (nextToken_cons _ _ _), String.ofList_toList]
  rcases hsep with rfl | rfl <;> rfl

theorem readElems_large (hlarge : ¬ ArraysFit elem) (h : ReadsType elem fuel c rest) (acc : List ParsedElem) :
    readElems (fuel + 2) acc ⟨c, toks elem ++ rest⟩ = .stop arrayPanic := by
  have hattempt : (attempt (readType (fuel + 1)) : Parser (Except String (Typ × String))) ⟨c, toks elem ++ rest⟩ =
      .stop arrayPanic := by
    rw [attempt, h.large hlarge]
  rw [readElems]
  exact bind_of_stop hattempt _

theorem readType_tuple (hword : OneWord tupleName) (fuel : ℕ) (c : Token) (ts : List Token) :
    readType (fuel + 1) ⟨c, .tuple :: hintToks tupleName ++ .lparen :: ts⟩ =
      (readElems fuel [] >>= fun elems => readSuffixes fuel (tupleOf (hintWord tupleName) elems)) ⟨.lparen, ts⟩ := by
  obtain ⟨c', hname⟩ := readTupleName_hint hword .tuple ts
  rw [readType, List.cons_append, bind_of_ok (nextToken_cons _ _ _)]
  dsimp only
  rw [bind_of_ok hname, bind_of_ok (expect_cons _ _ _)]

theorem ReadsType.slice (hfuel : (toks elem).length ≤ fuel)
    (h : ReadsType elem fuel c (.lbracket :: .rbracket :: rest)) : ReadsType (.slice elem) fuel c rest where
  fit hfit := by
    obtain ⟨c', k, hk, hread⟩ := h.fit hfit
    obtain ⟨k, rfl⟩ := Nat.exists_eq_succ_of_ne_zero (by omega : k ≠ 0)
    refine ⟨.rbracket, k, ?_, ?_⟩
    · rw [toks, List.length_append, List.length_cons, List.length_singleton]
      omega
    · rw [toks_slice_append, hread, readSuffixes_slice]
      rfl
  large hlarge := by
    rw [toks_slice_append]
    exact h.large hlarge

theorem ReadsType.array (hfuel : (toks elem).length ≤ fuel) (hsize : size < 2 ^ 32)
    (h : ReadsType elem fuel c (.lbracket :: .number (toString size).toList :: .rbracket :: rest)) :
    ReadsType (.array size elem) fuel c rest := by
  have hbrackets (hfit : ArraysFit elem) : ∃ k, fuel + 1 ≤ k + (toks (.array size elem)).length ∧
      readType (fuel + 1) ⟨c, toks (.array size elem) ++ rest⟩ =
        if ExceedsAddressSpace size (goType elem) then .stop arrayPanic
        else readSuffixes k (renamed (.array size elem), raw (.array size elem)) ⟨.rbracket, rest⟩ := by
    obtain ⟨c', k, hk, hread⟩ := h.fit hfit
    obtain ⟨k, rfl⟩ := Nat.exists_eq_succ_of_ne_zero (by omega : k ≠ 0)
    refine ⟨k, ?_, ?_⟩
    · rw [toks, List.length_append, List.length_cons]
      omega
    · rw [toks_array_append, hread, readSuffixes_number _ _ _ _ (by rwa [decimal_toString]), decimal_toString,
        goType_renamed]
      rfl
  constructor
  · intro hfit
    obtain ⟨k, hk, hread⟩ := hbrackets hfit.2
    exact ⟨.rbracket, k, hk, hread.trans (if_neg hfit.1)⟩
  · intro hlarge
    by_cases hfit : ArraysFit elem
    · obtain ⟨k, -, hread⟩ := hbrackets hfit
      exact hread.trans (if_pos (not_not.mp fun hnot => hlarge ⟨hnot, hfit⟩))
    · rw [toks_array_append]
      exact h.large hfit

mutual
theorem readType_toks : (t : Typ) → Describable t → AllOneWord t → {fuel : ℕ} → (toks t).length ≤ fuel →
    (c : Token) → (rest : List Token) → ReadsType t fuel c rest
  | .bool, h, _, fuel, _, c, rest | .uint _, h, _, fuel, _, c, rest | .int _, h, _, fuel, _, c, rest
  | .string, h, _, fuel, _, c, rest | .address, h, _, fuel, _, c, rest | .bytes, h, _, fuel, _, c, rest
  | .fixedBytes _, h, _, fuel, _, c, rest | .function, h, _, fuel, _, c, rest =>
    ⟨fun _ => ⟨_, fuel, le_rfl, readType_elementary rfl h fuel c rest⟩, fun hlarge => absurd trivial hlarge⟩
  | .slice elem, h, hword, fuel, hfuel, c, rest => by
    rw [toks, List.length_append] at hfuel
    exact .slice (Nat.le_of_add_right_le hfuel) (readType_toks elem h hword (Nat.le_of_add_right_le hfuel) c _)
  | .array size elem, h, hword, fuel, hfuel, c, rest => by
    rw [toks, List.length_append] at hfuel
    have helem := readType_toks elem h.2 hword (Nat.le_of_add_right_le hfuel) c
    exact .array (Nat.le_of_add_right_le hfuel) h.1 (helem _)
  | .tuple tupleName elems, h, hword, fuel, hfuel, c, rest => by
    simp only [toks, List.length_append, List.length_cons, List.length_nil] at hfuel
    obtain ⟨f, rfl⟩ : ∃ f, fuel = f + 2 := ⟨fuel - 2, by omega⟩
    obtain ⟨hok, hlarge⟩ := readElems_toks elems h.2 hword.2 h.1 (by omega : (eachToks elems).length ≤ f) .lparen [] rest
    have hread := readType_tuple hword.1 (f + 2) c (eachToks elems ++ .rparen :: rest)
    rw [← toks_tuple_append] at hread
    constructor
    · intro hfit
      obtain ⟨c', helems⟩ := hok hfit
      refine ⟨c', f + 2, ?_, ?_⟩
      · rw [toks, List.length_append, List.length_singleton]
        omega
      · rw [hread, bind_of_ok helems, List.nil_append, tupleOf_parsedEach]
    · intro hnot
      rw [hread]
      exact bind_of_stop (hlarge hnot) _

theorem readElems_toks : (es : TupleElems) → EachDescribable es → EachOneWord es → es ≠ .nil → {fuel : ℕ} →
    (eachToks es).length ≤ fuel → (c : Token) → (acc : List ParsedElem) → (rest : List Token) →
    (EachFit es → ∃ c', readElems (fuel + 2) acc ⟨c, eachToks es ++ .rparen :: rest⟩ =
      .ok (acc ++ parsedEach es) ⟨c', rest⟩) ∧
    (¬ EachFit es → readElems (fuel + 2) acc ⟨c, eachToks es ++ .rparen :: rest⟩ = .stop arrayPanic)
  | .nil, _, _, hne, _, _, _, _, _ => absurd rfl hne
  | .cons name elem indexed .nil, h, hword, _, fuel, hfuel, c, acc, rest => by
    have hassoc := eachToks_one_append name elem indexed (.rparen :: rest)
    simp only [eachToks, List.length_append] at hfuel
    have helem := readType_toks elem h.2.1 hword.1 (by omega : (toks elem).length ≤ fuel) c
      (nameToks indexed name ++ .rparen :: rest)
    rw [hassoc]
    constructor
    · intro hfit
      exact ⟨.rparen, readElems_component (.inr rfl) hfit.1 (by omega) helem acc⟩
    · intro hlarge
      exact readElems_large (fun hfit => hlarge ⟨hfit, trivial⟩) helem acc
  | .cons name elem indexed (.cons name' elem' indexed' es), h, hword, _, fuel, hfuel, c, acc, rest => by
    have hassoc := eachToks_cons_append name elem indexed name' elem' indexed' es (.rparen :: rest)
    have hlen : (toks elem).length + (eachToks (.cons name' elem' indexed' es)).length + 1 ≤ fuel := by
      have hsplit := congrArg List.length hassoc
      simp only [List.length_append, List.length_cons] at hsplit
      omega
    have helem := readType_toks elem h.2.1 hword.1 (by omega : (toks elem).length ≤ fuel) c
      (nameToks indexed name ++ .comma :: (eachToks (.cons name' elem' indexed' es) ++ .rparen :: rest))
    rw [hassoc]
    by_cases hfirst : ArraysFit elem
    · obtain ⟨f, rfl⟩ : ∃ f, fuel = f + 1 := ⟨fuel - 1, by omega⟩
      have hstep := readElems_component (.inl rfl) hfirst (by omega) helem acc
      obtain ⟨hok, hlarge⟩ := readElems_toks (.cons name' elem' indexed' es) h.2.2 hword.2 (by simp)
        (by omega : (eachToks (.cons name' elem' indexed' es)).length ≤ f) .comma
        (acc ++ [{ Name := name, Elem := renamed elem, raw := raw elem, Indexed := indexed }]) rest
      rw [hstep]
      constructor
      · intro hfit
        obtain ⟨c', hread⟩ := hok hfit.2
        refine ⟨c', hread.trans ?_⟩
        rw [List.append_assoc, List.singleton_append]
        rfl
      · intro hnot
        exact hlarge fun hfit => hnot ⟨hfirst, hfit⟩
    · exact ⟨fun hfit => absurd hfit.1 hfirst, fun _ => readElems_large hfirst helem acc⟩
end

/-! ## Descriptions -/

theorem lex_parseType_describe (hd : Describable t) (name : String) (indexed : Bool) :
    lex (parseType (describe name indexed t)) = toks t := by
  have htext := parseType_describe t hd name.toList [] indexed
  have hlex := lex_printed t hd (stops_nil : Delimited [])
  rw [List.append_nil] at htext hlex
  rw [describe, htext, List.append_nil, hlex, lex_nil, List.append_nil]

/-- With names of at most one word, the type is read with these names, or the program panics at an array. -/
theorem newTypeFromArgument_describe (hd : Describable t) (hword : AllOneWord t) (name : String) (indexed : Bool) :
    (ArraysFit t → newTypeFromArgument (describe name indexed t) = .ok (renamed t, raw t)) ∧
      (¬ ArraysFit t → newTypeFromArgument (describe name indexed t) = .panic arrayPanic) := by
  have hread := readType_toks t hd hword le_rfl .eof []
  have hlarge := hread.large
  rw [List.append_nil] at hlarge
  rw [newTypeFromArgument, newType, lex_parseType_describe hd]
  constructor
  · intro hfit
    obtain ⟨c', hok⟩ := hread.ok hfit le_rfl (by simp)
    rw [List.append_nil] at hok
    rw [hok]
    rfl
  · intro hnot
    rw [hlarge hnot]
    rfl

mutual
def Unnamed : Typ → Prop
  | .slice elem => Unnamed elem
  | .array _ elem => Unnamed elem
  | .tuple tupleName elems => tupleName = "" ∧ EachUnnamed elems
  | _ => True

def EachUnnamed : TupleElems → Prop
  | .nil => True
  | .cons _ elem _ rest => Unnamed elem ∧ EachUnnamed rest
end

theorem hintToks_empty : hintToks "" = [] := rfl

mutual
theorem Unnamed.allOneWord : (t : Typ) → Unnamed t → AllOneWord t
  | .bool, _ | .uint _, _ | .int _, _ | .string, _ | .address, _ | .bytes, _ | .fixedBytes _, _ | .function, _ =>
    trivial
  | .slice elem, h | .array _ elem, h => Unnamed.allOneWord elem h
  | .tuple _ elems, h => ⟨.inl (h.1 ▸ hintToks_empty), EachUnnamed.eachOneWord elems h.2⟩

theorem EachUnnamed.eachOneWord : (es : TupleElems) → EachUnnamed es → EachOneWord es
  | .nil, _ => trivial
  | .cons _ elem _ rest, h => ⟨Unnamed.allOneWord elem h.1, EachUnnamed.eachOneWord rest h.2⟩
end

mutual
theorem Unnamed.renamed_eq : (t : Typ) → Unnamed t → renamed t = t
  | .bool, _ | .uint _, _ | .int _, _ | .string, _ | .address, _ | .bytes, _ | .fixedBytes _, _ | .function, _ => rfl
  | .slice elem, h | .array _ elem, h => by rw [renamed, Unnamed.renamed_eq elem h]
  | .tuple tupleName elems, h => by
    rw [renamed, EachUnnamed.renamedEach_eq elems h.2, h.1]
    rfl

theorem EachUnnamed.renamedEach_eq : (es : TupleElems) → EachUnnamed es → renamedEach es = es
  | .nil, _ => rfl
  | .cons _ elem _ rest, h => by
    rw [renamedEach, Unnamed.renamed_eq elem h.1, EachUnnamed.renamedEach_eq rest h.2]
end

/-- A description is parsed back to its type, with the canonical name of the type, if and only if every array fits
into the address space. -/
theorem newTypeFromArgument_iff_fit (t : Typ) (hd : Describable t) (hnames : Unnamed t) (name : String)
    (indexed : Bool) : newTypeFromArgument (describe name indexed t) = .ok (t, raw t) ↔ ArraysFit t := by
  obtain ⟨hfit, hlarge⟩ := newTypeFromArgument_describe hd (Unnamed.allOneWord t hnames) name indexed
  constructor
  · intro hok
    by_contra hnot
    rw [hlarge hnot] at hok
    cases hok
  · intro h
    rw [hfit h, Unnamed.renamed_eq t hnames]

/-- The description of `(uint8, uint256[2][] indexed b)[3]` is parsed back. -/
theorem newTypeFromArgument_iff_fit_nested : newTypeFromArgument (describe "a" false
      (.array 3 (.tuple "" (.cons "" (.uint 8) false (.cons "b" (.slice (.array 2 (.uint 256))) true .nil))))) =
    .ok (.array 3 (.tuple "" (.cons "" (.uint 8) false (.cons "b" (.slice (.array 2 (.uint 256))) true .nil))),
      "(uint8,uint256[2][])[3]") :=
  (newTypeFromArgument_iff_fit
    (.array 3 (.tuple "" (.cons "" (.uint 8) false (.cons "b" (.slice (.array 2 (.uint 256))) true .nil))))
    ⟨by decide, by simp, .inl rfl, ⟨by decide, by decide, by decide⟩,
      .inr ⟨'b', [], rfl, rfl, by simp, rfl⟩, ⟨by decide, by decide, by decide, by decide⟩, trivial⟩
    ⟨rfl, trivial, trivial, trivial⟩ "a" false).2
    ⟨by decide, trivial, ⟨by decide, trivial⟩, trivial⟩

/-- The length of the inner array times the size of a string header is within the address space, and the outer length
times that is not. -/
theorem newTypeFromArgument_large_array :
    newTypeFromArgument (describe "a" false (.array 4294967295 (.array 4294967295 .string))) = .panic arrayPanic := rfl

end Web3.Abi

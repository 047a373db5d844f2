import Web3.Abi.TypeTwins

/-! # Hints of descriptions

The `InternalType` of a tuple stands between the word `tuple` and the components in the text that is parsed. Two
descriptions that differ in these hints only give tokens that differ only there. Where each hint is at most one word,
the parser reads the same type from both, up to the names of tuples. A hint of several words makes it fail. -/

namespace Web3.Abi
open Prog

/-! ## Descriptions that differ in their hints -/

mutual
def withoutHints : ArgumentStr → ArgumentStr
  | .mk Name typ _ Indexed Components => .mk Name typ [] Indexed (withoutHintsEach Components)

def withoutHintsEach : Arguments → Arguments
  | .nil => .nil
  | .cons head tail => .cons (withoutHints head) (withoutHintsEach tail)
end

mutual
/-- Every hint that gets into the text is at most one word there. -/
def OneWordHints : ArgumentStr → Prop
  | .mk _ typ InternalType _ Components => tupleWord.isPrefixOf typ = true → Components ≠ .nil →
      OneWord (String.ofList InternalType) ∧ EachOneWordHint Components

def EachOneWordHint : Arguments → Prop
  | .nil => True
  | .cons head tail => OneWordHints head ∧ EachOneWordHint tail
end

theorem SameTokens.append_left {ts ts' : List Token} (front : List Token) (c : Token)
    (h : ∀ c, SameTokens c ts ts') : SameTokens c (front ++ ts) (front ++ ts') := by
  induction front generalizing c with
  | nil => exact h c
  | cons t front ih => exact .cons c t (ih t)

theorem lex_parseType_tuple (name suffix internalType : Text) (indexed : Bool) (head : ArgumentStr) (tail : Arguments) :
    lex (parseType (.mk name (tupleWord ++ suffix) internalType indexed (.cons head tail))) =
      .tuple :: hintToks (String.ofList internalType) ++ .lparen ::
        (lex (joinCommas (componentTexts (.cons head tail))) ++ .rparen :: lex suffix) := by
  rw [parseType_tuple, List.append_assoc, List.append_assoc, List.cons_append, lex_tuple,
    lex_append (delimited_punct (by decide) _), lex_rparen, hintToks, String.toList_ofList]

theorem lex_component (head : ArgumentStr) {tail : Text} (ht : Delimited tail) :
    lex (parseType head ++ nameText head.indexed head.name ++ tail) =
      lex (parseType head) ++ (lex (nameText head.indexed head.name) ++ lex tail) := by
  have hname := delimited_nameText head.indexed head.name []
  rw [List.append_nil] at hname
  rw [lex_append ht, lex_append hname, List.append_assoc]

theorem lex_components_one (head : ArgumentStr) : lex (joinCommas (componentTexts (.cons head .nil))) =
    lex (parseType head) ++ lex (nameText head.indexed head.name) := by
  have h := lex_component head stops_nil
  rw [List.append_nil, lex_nil, List.append_nil] at h
  exact h

theorem lex_components_cons (head next : ArgumentStr) (tail : Arguments) :
    lex (joinCommas (componentTexts (.cons head (.cons next tail)))) =
      lex (parseType head) ++ (lex (nameText head.indexed head.name) ++
        .comma :: lex (joinCommas (componentTexts (.cons next tail)))) := by
  rw [← lex_comma, ← lex_component head (delimited_punct (by decide) _)]
  rfl

theorem withoutHints_eq {head head' : ArgumentStr} (h : withoutHints head = withoutHints head') :
    head.indexed = head'.indexed ∧ head.name = head'.name := by
  cases head
  cases head'
  rw [withoutHints, withoutHints, ArgumentStr.mk.injEq] at h
  exact ⟨h.2.2.2.1, h.1⟩

mutual
theorem sameTokens_parseType : (arg arg' : ArgumentStr) → withoutHints arg = withoutHints arg' → OneWordHints arg →
    OneWordHints arg' → {c : Token} → c ≠ .lbracket → {ts ts' : List Token} → (∀ c, SameTokens c ts ts') →
    SameTokens c (lex (parseType arg) ++ ts) (lex (parseType arg') ++ ts')
  | .mk Name typ it Indexed comps, .mk Name' typ' it' Indexed' comps', heq, h, h', c, hc, ts, ts', hts => by
    rw [withoutHints, withoutHints, ArgumentStr.mk.injEq] at heq
    obtain ⟨rfl, rfl, -, rfl, hcomps⟩ := heq
    by_cases htuple : tupleWord.isPrefixOf typ = true
    · obtain ⟨suffix, rfl⟩ := List.isPrefixOf_iff_prefix.mp htuple
      cases comps with
      | nil =>
        cases comps' with
        | nil => exact SameTokens.append_left _ c hts
        | cons head' tail' => cases hcomps
      | cons head tail =>
        cases comps' with
        | nil => cases hcomps
        | cons head' tail' =>
          obtain ⟨hword, heach⟩ := h htuple (by simp)
          obtain ⟨hword', heach'⟩ := h' htuple (by simp)
          have hrest : ∀ c, SameTokens c (.rparen :: lex suffix ++ ts) (.rparen :: lex suffix ++ ts') := fun c =>
            SameTokens.append_left _ c hts
          have hinner := sameTokens_componentTexts (.cons head tail) (.cons head' tail') hcomps heach heach'
            (by simp : Token.lparen ≠ .lbracket) hrest
          rw [lex_parseType_tuple, lex_parseType_tuple]
          simpa using SameTokens.tuple hc hword hword' hinner
    · have htext (it : Text) (comps : Arguments) : parseType (.mk Name typ it Indexed comps) = typ := by
        rw [parseType.eq_def]
        exact if_neg htuple
      rw [htext, htext]
      exact SameTokens.append_left _ c hts

theorem sameTokens_componentTexts : (args args' : Arguments) → withoutHintsEach args = withoutHintsEach args' →
    EachOneWordHint args → EachOneWordHint args' → {c : Token} → c ≠ .lbracket → {ts ts' : List Token} →
    (∀ c, SameTokens c ts ts') →
    SameTokens c (lex (joinCommas (componentTexts args)) ++ ts) (lex (joinCommas (componentTexts args')) ++ ts')
  | .nil, .nil, _, _, _, c, _, ts, ts', hts => hts c
  | .nil, .cons _ _, heq, _, _, _, _, _, _, _ | .cons _ _, .nil, heq, _, _, _, _, _, _, _ => by cases heq
  | .cons head tail, .cons head' tail', heq, h, h', c, hc, ts, ts', hts => by
    rw [withoutHintsEach, withoutHintsEach, Arguments.cons.injEq] at heq
    obtain ⟨hhead, htail⟩ := heq
    obtain ⟨hindexed, hname⟩ := withoutHints_eq hhead
    -- what follows the type of the component is the same, or begins with the same comma
    have hcomponent {us us' : List Token} (hus : ∀ c, SameTokens c us us') :
        SameTokens c (lex (parseType head) ++ (lex (nameText head.indexed head.name) ++ us))
          (lex (parseType head') ++ (lex (nameText head'.indexed head'.name) ++ us')) := by
      rw [← hindexed, ← hname]
      exact sameTokens_parseType head head' hhead h.1 h'.1 hc fun c => SameTokens.append_left _ c hus
    cases tail with
    | nil =>
      cases tail' with
      | nil =>
        rw [lex_components_one, lex_components_one, List.append_assoc, List.append_assoc]
        exact hcomponent hts
      | cons next' tail' => cases htail
    | cons next tail =>
      cases tail' with
      | nil => cases htail
      | cons next' tail' =>
        have hnext := sameTokens_componentTexts (.cons next tail) (.cons next' tail') htail h.2 h'.2
          (by simp : Token.comma ≠ .lbracket) hts
        rw [lex_components_cons, lex_components_cons, List.append_assoc, List.append_assoc, List.append_assoc,
          List.append_assoc]
        exact hcomponent fun c => .cons c .comma hnext
end

theorem newTypeFromArgument_agree {arg arg' : ArgumentStr} (heq : withoutHints arg = withoutHints arg')
    (h : OneWordHints arg) (h' : OneWordHints arg') : Agree (newTypeFromArgument arg) (newTypeFromArgument arg') := by
  have hsame := sameTokens_parseType arg arg' heq h h' (by simp : Token.eof ≠ .lbracket) SameTokens.nil
  rw [List.append_nil, List.append_nil] at hsame
  exact newType_agree hsame

/-! ## Hints of several words -/

def NoParens (tupleName : String) : Prop :=
  '(' ∉ internalTypeToArg tupleName.toList ∧ ')' ∉ internalTypeToArg tupleName.toList

variable {tupleName : String} {α : Type} {l : Stream}

theorem NoParens.hintToks (h : NoParens tupleName) : ∀ t ∈ hintToks tupleName, PlainToken t := by
  refine lex_plain fun ch hch => ⟨?_, ?_, ?_⟩
  · rintro rfl
    exact h.1 hch
  · rintro rfl
    exact h.2 hch
  · rintro rfl
    rw [internalTypeToArg, List.mem_cons] at hch
    rcases hch with hch | hch
    · cases hch
    · simpa using List.mem_takeWhile_imp hch

/-! ## Failures -/

/-- A failure that is not at a closing parenthesis, and so is not taken for an empty tuple. -/
def FailsOff {α : Type} (r : Ending Stream String String α) : Prop :=
  ∃ e c ts, c ≠ .rparen ∧ r = .error e ⟨c, ts⟩

theorem FailsOff.bind {β : Type} {m : Parser α} (h : FailsOff (m l)) (k : α → Parser β) :
    FailsOff ((m >>= k) l) := by
  obtain ⟨e, c, ts, hc, hm⟩ := h
  exact ⟨e, c, ts, hc, bind_of_error hm k⟩

theorem expect_plain {t : Token} (ht : PlainToken t) (c : Token) (ts : List Token) :
    FailsOff (expect .lparen ⟨c, t :: ts⟩) := by
  refine ⟨expectedToken .lparen, t, ts, ht.2.1, ?_⟩
  rw [expect, bind_of_ok (nextToken_cons _ _ _), if_neg ht.1]
  rfl

theorem readTupleName_words (hparens : NoParens tupleName) (hword : ¬ OneWord tupleName) (c : Token)
    (ts : List Token) (k : Text → Unit → Parser α) :
    FailsOff ((readTupleName >>= fun name => expect .lparen >>= k name) ⟨c, hintToks tupleName ++ ts⟩) := by
  have hplain := hparens.hintToks
  cases hh : hintToks tupleName with
  | nil => exact absurd (.inl hh) hword
  | cons t rest =>
    rw [hh] at hplain
    obtain ⟨ht, hrest⟩ := List.forall_mem_cons.mp hplain
    cases t with
    | str w =>
      cases rest with
      | nil => exact absurd (.inr ⟨w, hh⟩) hword
      | cons t rest =>
        have htoken := hrest t List.mem_cons_self
        have hname : readTupleName ⟨c, .str w :: t :: rest ++ ts⟩ = .ok w ⟨.str w, t :: (rest ++ ts)⟩ := by
          have hskip : skipNameBrackets ⟨.str w, t :: (rest ++ ts)⟩ = .ok () ⟨.str w, t :: (rest ++ ts)⟩ :=
            congrFun (if_neg htoken.2.2) _
          change (skipNameBrackets >>= fun _ => pure w) ⟨.str w, t :: (rest ++ ts)⟩ = _
          rw [bind_of_ok hskip]
          rfl
        rw [bind_of_ok hname]
        exact (expect_plain htoken _ _).bind _
    | _ => exact (expect_plain ht c (rest ++ ts)).bind (k [])

mutual
def AllNoParens : Typ → Prop
  | .slice elem => AllNoParens elem
  | .array _ elem => AllNoParens elem
  | .tuple tupleName elems => NoParens tupleName ∧ EachNoParens elems
  | _ => True

def EachNoParens : TupleElems → Prop
  | .nil => True
  | .cons _ elem _ rest => AllNoParens elem ∧ EachNoParens rest
end

theorem readElems_fails {fuel : ℕ} (h : FailsOff (readType fuel l)) (acc : List ParsedElem) :
    FailsOff (readElems (fuel + 1) acc l) := by
  obtain ⟨e, c, ts, hc, hread⟩ := h
  have hattempt : (attempt (readType fuel) : Parser _) l = .ok (.error e) ⟨c, ts⟩ := by rw [attempt, hread]
  have hthrow : ¬ (c = .rparen ∧ acc.length = 0) := fun h => hc h.1
  refine ⟨"failed to decode type: " ++ e, c, ts, hc, ?_⟩
  rw [readElems, bind_of_ok hattempt]
  exact congrFun (if_neg hthrow) _

mutual
theorem readType_words : (t : Typ) → Describable t → ArraysFit t → AllNoParens t → ¬ AllOneWord t → {fuel : ℕ} →
    (toks t).length ≤ fuel → (c : Token) → (rest : List Token) → FailsOff (readType (fuel + 1) ⟨c, toks t ++ rest⟩)
  | .bool, _, _, _, h, _, _, _, _ | .uint _, _, _, _, h, _, _, _, _ | .int _, _, _, _, h, _, _, _, _
  | .string, _, _, _, h, _, _, _, _ | .address, _, _, _, h, _, _, _, _ | .bytes, _, _, _, h, _, _, _, _
  | .fixedBytes _, _, _, _, h, _, _, _, _ | .function, _, _, _, h, _, _, _, _ => absurd trivial h
  | .slice elem, hd, hfit, hparens, hword, fuel, hfuel, c, rest => by
    rw [toks, List.length_append] at hfuel
    rw [toks_slice_append]
    exact readType_words elem hd hfit hparens hword (Nat.le_of_add_right_le hfuel) c _
  | .array _ elem, hd, hfit, hparens, hword, fuel, hfuel, c, rest => by
    rw [toks, List.length_append] at hfuel
    rw [toks_array_append]
    exact readType_words elem hd.2 hfit.2 hparens hword (Nat.le_of_add_right_le hfuel) c _
  | .tuple tupleName elems, hd, hfit, hparens, hwords, fuel, hfuel, c, rest => by
    simp only [toks, List.length_append, List.length_cons, List.length_nil] at hfuel
    obtain ⟨f, rfl⟩ : ∃ f, fuel = f + 2 := ⟨fuel - 2, by omega⟩
    rw [toks_tuple_append]
    by_cases hword : OneWord tupleName
    · have helems : ¬ EachOneWord elems := fun h => hwords ⟨hword, h⟩
      rw [readType_tuple hword]
      exact (readElems_words elems hd.2 hfit hparens.2 helems (by omega) .lparen [] rest).bind _
    · rw [readType, List.cons_append, bind_of_ok (nextToken_cons _ _ _)]
      exact readTupleName_words hparens.1 hword .tuple _ _

theorem readElems_words : (es : TupleElems) → EachDescribable es → EachFit es → EachNoParens es → ¬ EachOneWord es →
    {fuel : ℕ} → (eachToks es).length ≤ fuel → (c : Token) → (acc : List ParsedElem) → (rest : List Token) →
    FailsOff (readElems (fuel + 2) acc ⟨c, eachToks es ++ .rparen :: rest⟩)
  | .nil, _, _, _, h, _, _, _, _, _ => absurd trivial h
  | .cons name elem indexed es, hd, hfit, hparens, hwords, fuel, hfuel, c, acc, rest => by
    by_cases hword : AllOneWord elem
    · have hes : ¬ EachOneWord es := fun h => hwords ⟨hword, h⟩
      cases es with
      | nil => exact absurd trivial hes
      | cons name' elem' indexed' es =>
        have hassoc := eachToks_cons_append name elem indexed name' elem' indexed' es (.rparen :: rest)
        have hlen : (toks elem).length + (eachToks (.cons name' elem' indexed' es)).length + 1 ≤ fuel := by
          have hsplit := congrArg List.length hassoc
          simp only [List.length_append, List.length_cons] at hsplit
          omega
        obtain ⟨f, rfl⟩ : ∃ f, fuel = f + 1 := ⟨fuel - 1, by omega⟩
        have helem := readType_toks elem hd.2.1 hword (by omega : (toks elem).length ≤ f + 1) c
          (nameToks indexed name ++ .comma :: (eachToks (.cons name' elem' indexed' es) ++ .rparen :: rest))
        rw [hassoc, readElems_component (.inl rfl) hfit.1 (by omega) helem acc]
        exact readElems_words (.cons name' elem' indexed' es) hd.2.2 hfit.2 hparens.2 hes (by omega) .comma _ rest
    · rw [eachToks.eq_def] at hfuel ⊢
      simp only [List.length_append, List.append_assoc] at hfuel ⊢
      exact readElems_fails (readType_words elem hd.2.1 hfit.1 hparens.1 hword (by omega) c _) acc
end

theorem newTypeFromArgument_words {t : Typ} (hd : Describable t) (hfit : ArraysFit t) (hparens : AllNoParens t)
    (hwords : ¬ AllOneWord t) (name : String) (indexed : Bool) :
    ∃ e, newTypeFromArgument (describe name indexed t) = .err e := by
  obtain ⟨e, c, ts, _, hread⟩ := readType_words t hd hfit hparens hwords le_rfl .eof []
  rw [List.append_nil] at hread
  refine ⟨e, ?_⟩
  rw [newTypeFromArgument, newType, lex_parseType_describe hd, hread]
  rfl

mutual
theorem unnamed_renamed : (t : Typ) → unnamed (renamed t) = unnamed t
  | .bool | .uint _ | .int _ | .string | .address | .bytes | .fixedBytes _ | .function => rfl
  | .slice elem | .array _ elem => by rw [renamed, unnamed, unnamed, unnamed_renamed elem]
  | .tuple _ elems => by rw [renamed, unnamed, unnamed, unnamedEach_renamedEach elems]

theorem unnamedEach_renamedEach : (es : TupleElems) → unnamedEach (renamedEach es) = unnamedEach es
  | .nil => rfl
  | .cons _ elem _ rest => by
    rw [renamedEach, unnamedEach, unnamedEach, unnamed_renamed elem, unnamedEach_renamedEach rest]
end

mutual
theorem raw_of_unnamed : (t : Typ) → raw (unnamed t) = raw t
  | .bool | .uint _ | .int _ | .string | .address | .bytes | .fixedBytes _ | .function => rfl
  | .slice elem | .array _ elem => by rw [unnamed, raw, raw, raw_of_unnamed elem]
  | .tuple _ elems => by rw [unnamed, raw, raw, raws_of_unnamedEach elems]

theorem raws_of_unnamedEach : (es : TupleElems) → raws (unnamedEach es) = raws es
  | .nil => rfl
  | .cons _ elem _ rest => by rw [unnamedEach, raws, raws, raw_of_unnamed elem, raws_of_unnamedEach rest]
end

/-- A type with a description, and hints in the form of names. -/
structure WellHinted (t : Typ) : Prop where
  describable : Describable t
  fit : ArraysFit t
  noParens : AllNoParens t

/-- Descriptions that differ in their hints agree if every hint is at most one word, and the descriptions of a type
agree only if this holds for both or for neither. -/
theorem newTypeFromArgument_hints (arg arg' : ArgumentStr) (t t' : Typ) (name : String) (indexed : Bool) :
    (withoutHints arg = withoutHints arg' → OneWordHints arg → OneWordHints arg' →
      Agree (newTypeFromArgument arg) (newTypeFromArgument arg')) ∧
    (WellHinted t → WellHinted t' → unnamed t = unnamed t' →
      (Agree (newTypeFromArgument (describe name indexed t)) (newTypeFromArgument (describe name indexed t')) ↔
        (AllOneWord t ↔ AllOneWord t'))) := by
  refine ⟨fun heq h h' => newTypeFromArgument_agree heq h h', fun ht ht' heq => ?_⟩
  have hok {t : Typ} (ht : WellHinted t) (hword : AllOneWord t) :
      newTypeFromArgument (describe name indexed t) = .ok (renamed t, raw t) :=
    (newTypeFromArgument_describe ht.describable hword name indexed).1 ht.fit
  have hfail {t : Typ} (ht : WellHinted t) (hwords : ¬ AllOneWord t) :=
    newTypeFromArgument_words ht.describable ht.fit ht.noParens hwords name indexed
  by_cases hword : AllOneWord t
  · by_cases hword' : AllOneWord t'
    · rw [hok ht hword, hok ht' hword']
      refine iff_of_true ⟨?_, ?_⟩ (iff_of_true hword hword')
      · rw [unnamed_renamed, unnamed_renamed, heq]
      · rw [← raw_of_unnamed, heq, raw_of_unnamed]
    · obtain ⟨e, he⟩ := hfail ht' hword'
      rw [hok ht hword, he]
      exact iff_of_false id fun h => hword' (h.mp hword)
  · obtain ⟨e, he⟩ := hfail ht hword
    by_cases hword' : AllOneWord t'
    · rw [he, hok ht' hword']
      exact iff_of_false id fun h => hword (h.mpr hword')
    · obtain ⟨e', he'⟩ := hfail ht' hword'
      rw [he, he']
      exact iff_of_true trivial (iff_of_false hword hword')

theorem newTypeFromArgument_hints_nested : Agree
      (newTypeFromArgument (describe "x" false
        (.slice (.tuple "struct C.S[]" (.cons "a" (.tuple "struct C.T" (.cons "b" .bool false .nil)) false .nil)))))
      (newTypeFromArgument (describe "x" false
        (.slice (.tuple "" (.cons "a" (.tuple "uint256" (.cons "b" .bool false .nil)) false .nil))))) := by
  refine (newTypeFromArgument_hints _ _ .bool .bool "" false).1 rfl ?_ ?_
  · exact fun _ _ => ⟨.inr ⟨_, rfl⟩, fun _ _ => ⟨.inr ⟨_, rfl⟩, fun h => (by cases h), trivial⟩, trivial⟩
  · exact fun _ _ => ⟨.inl rfl, fun _ _ => ⟨.inr ⟨_, rfl⟩, fun h => (by cases h), trivial⟩, trivial⟩

/-- A struct of the contract `C` and one outside of contracts, with one component. -/
theorem newTypeFromArgument_file_level :
    withoutHints (describe "x" false (.tuple "struct C.S" (.cons "a" (.uint 8) false .nil))) =
        withoutHints (describe "x" false (.tuple "struct S" (.cons "a" (.uint 8) false .nil))) ∧
      newTypeFromArgument (describe "x" false (.tuple "struct C.S" (.cons "a" (.uint 8) false .nil))) =
        .ok (.tuple "S" (.cons "a" (.uint 8) false .nil), "(uint8)") ∧
      newTypeFromArgument (describe "x" false (.tuple "struct S" (.cons "a" (.uint 8) false .nil))) =
        .err "expected token (" :=
  ⟨rfl, rfl, rfl⟩

end Web3.Abi

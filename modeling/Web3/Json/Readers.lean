import Web3.Json.Values

/-! # What the readers of fields accept

The readers of `structs_unmarshal.go` for big integers and for fields that may be null, and a description of all
readers by the text of the field: a value is read from a string with hexadecimal digits behind a `0x`. -/

namespace Web3

/-! ## Big integers -/

def hexBig : Option ℤ → String
  | none => "<nil>"
  | some n => if n < 0 then "-" ++ hexNumber n.natAbs else hexNumber n.natAbs

/-- The number that hexadecimal digits denote, behind those that gave `n`. -/
def hexDigitsValue : List Char → ℕ → Option ℕ
  | [], n => some n
  | c :: cs, n => (hexValue c).bind fun d => hexDigitsValue cs (n * 16 + d)

def hexNat (cs : List Char) : Option ℕ := if cs = [] then none else hexDigitsValue cs 0

def setString16 (cs : List Char) : Option ℤ :=
  match cs with
  | '-' :: cs => (hexNat cs).map fun n : ℕ => -(n : ℤ)
  | '+' :: cs => (hexNat cs).map fun n : ℕ => (n : ℤ)
  | cs => (hexNat cs).map fun n : ℕ => (n : ℤ)

/-! ## Errors

`Transaction.unmarshalJSON` and `Block.UnmarshalJSON` return some errors and panic with others. -/

inductive ReadError where
  | json
  | field (e : DecodeError)
  | bigInt
  | toNotFound
  deriving DecidableEq

inductive Fault where
  | error (e : ReadError)
  | panic (e : ReadError)
  deriving DecidableEq

namespace Fault

def ofField (e : DecodeError) : Fault := .error (.field e)

/-- `panic(err)`, or a panic that goes on. -/
def fatal : Fault → Fault
  | .error e => .panic e
  | .panic e => .panic e

end Fault

/-! ## Readers -/

variable (v : Json) (key : String)

def decodeBigInt : Except ReadError ℤ :=
  match fieldText v key with
  | .error e => .error (.field e)
  | .ok cs =>
    match setString16 cs with
    | some n => .ok n
    | none => .error .bigInt

def decodeUintOrNull : Except DecodeError UInt64 :=
  match v.get key with
  | some .null => .ok 0
  | _ => decodeUint v key

def decodeHashOrNull (h : Hash) (v : Json) (key : String) : Except DecodeError Hash :=
  match v.get key with
  | some .null => .ok Hash.zero
  | _ => decodeHash h v key

def fieldNotFull : Bool :=
  match v.get key with
  | none => false
  | some vv => vv.text != "null"

/-- `decodeBytes(dst[:0], v, key)` for a slice whose contents are all that matters. -/
def readBytes : Except DecodeError Bytes :=
  (decodeBytes none v key none).map fun dst => dst.getD []

/-! ## Texts -/

def evenDigits (cs : List Char) : List Char := if cs.length % 2 ≠ 0 then '0' :: cs else cs

variable (v : Json) (key : String)

def TextField (P : List Char → Prop) : Prop :=
  ∃ s cs, v.get key = some (.string s) ∧ s.toList = '0' :: 'x' :: cs ∧ P cs

def UintField (n : UInt64) : Prop := TextField v key fun cs => hexNat cs = some n.toNat

def BytesField (bs : Bytes) : Prop :=
  TextField v key fun cs => decodeHex (evenDigits cs) = .ok bs

def SignedField (n : ℤ) : Prop := TextField v key fun cs => setString16 cs = some n

def NatField (n : ℤ) : Prop := TextField v key fun cs => ∃ m : ℕ, hexNat cs = some m ∧ n = m

def FixedField (bs : Bytes) : Prop := TextField v key fun cs => decodeHex cs = .ok bs

/-! ## Quotation marks -/

variable {s : String} {c : Char} {cs : List Char} {m : ℕ} {bs : Bytes} {ε α β : Type}
  {x : Except ε α} {f : α → Except ε β} {b : β} {a : α}

theorem mem_trimQuotes (hc : c ∈ s.toList) : c = '"' ∨ c ∈ (trimQuotes s).toList := by
  rw [trimQuotes, String.toList_ofList, List.rdropWhile, List.mem_reverse]
  have hdrop {l : List Char} (h : c ∈ l) : c = '"' ∨ c ∈ l.dropWhile (· == '"') := by
    rw [← List.takeWhile_append_dropWhile (p := (· == '"')) (l := l), List.mem_append] at h
    rcases h with h | h
    · have hquote : (c == '"') = true := List.mem_takeWhile_imp (p := (· == '"')) h
      exact .inl (eq_of_beq hquote)
    · exact .inr h
  rcases hdrop hc with h | h
  · exact .inl h
  · exact hdrop (List.mem_reverse.mpr h)

theorem trimQuotes_of_notMem (h : '"' ∉ s.toList) : trimQuotes s = s := by
  have hne : ∀ c ∈ s.toList, ¬(c == '"') = true := fun c hc heq => h (eq_of_beq heq ▸ hc)
  have hdrop : s.toList.dropWhile (· == '"') = s.toList := by
    rw [List.dropWhile_eq_self_iff]
    exact fun hlt => hne _ (List.getElem_mem hlt)
  have hrdrop : s.toList.rdropWhile (· == '"') = s.toList := by
    rw [List.rdropWhile_eq_self_iff]
    exact fun hne' => hne _ (List.getLast_mem hne')
  rw [trimQuotes, hdrop, hrdrop, String.ofList_toList]

theorem trimQuotes_quoted (h : '"' ∉ s.toList) : trimQuotes ("\"" ++ s ++ "\"") = s := by
  have hlist : ("\"" ++ s ++ "\"").toList = '"' :: (s.toList ++ ['"']) := by simp
  have hself := trimQuotes_of_notMem h
  rw [trimQuotes] at hself
  rw [trimQuotes, hlist, List.dropWhile_cons_of_pos rfl]
  cases hs : s.toList with
  | nil =>
    rw [hs] at hself
    exact hself
  | cons c cs =>
    have hc : (c == '"') = false := beq_false_of_ne fun heq => h (heq ▸ hs ▸ List.mem_cons_self ..)
    rw [hs, List.dropWhile_cons_of_neg (by rw [hc]; exact Bool.false_ne_true)] at hself
    rw [List.cons_append, List.dropWhile_cons_of_neg (by rw [hc]; exact Bool.false_ne_true), ← List.cons_append,
      List.rdropWhile_concat_pos _ _ _ rfl, hself]

theorem mem_escape_of_special (h : Json.special c = true) : '\\' ∈ Json.escape c := by
  have hcase : c = '"' ∨ c = '\\' ∨ c.toNat < 0x20 := by simpa [Json.special, or_assoc] using h
  unfold Json.escape
  split
  case h_10 hquote hslash _ _ _ _ _ _ _ =>
    rw [if_pos (.inl ((hcase.resolve_left hquote).resolve_left hslash))]
    simp
  all_goals simp

/-- A string is its own text, between quotation marks, if trimming leaves nothing of an escape. -/
theorem trimQuotes_text_string (h : '\\' ∉ (trimQuotes (Json.string s).text).toList) :
    trimQuotes (Json.string s).text = s := by
  have hplain : s.toList.any Json.special = false := by
    rw [← Bool.not_eq_true]
    intro hany
    have htext : (Json.string s).text = "\"" ++ String.ofList (s.toList.flatMap Json.escape) ++ "\"" := by
      rw [Json.text, Json.escapeString, if_pos hany]
    obtain ⟨c, hc, hspecial⟩ := List.any_eq_true.mp hany
    have hmem : '\\' ∈ (Json.string s).text.toList := by
      rw [htext]
      simp only [String.toList_append, String.toList_ofList, List.mem_append, List.mem_flatMap]
      exact .inl (.inr ⟨c, hc, mem_escape_of_special hspecial⟩)
    rcases mem_trimQuotes hmem with h' | h'
    · cases h'
    · exact h h'
  have hquote : '"' ∉ s.toList := fun hmem => List.any_eq_false.mp hplain _ hmem rfl
  rw [Json.text, Json.escapeString, if_neg (by rw [hplain]; exact Bool.false_ne_true)]
  exact trimQuotes_quoted hquote

/-! ## Digits -/

def digitOrSign (c : Char) : Bool := (hexValue c).isSome || c == '-' || c == '+'

theorem hexDigitsValue_digits {n : ℕ} (h : hexDigitsValue cs n = some m) : ∀ c ∈ cs, (hexValue c).isSome := by
  induction cs generalizing n with
  | nil => simp
  | cons c cs ih =>
    obtain ⟨d, hd, h⟩ := Option.bind_eq_some_iff.mp h
    rw [List.forall_mem_cons]
    exact ⟨by rw [hd]; rfl, ih h⟩

theorem hexNat_digits {n : ℕ} (h : hexNat cs = some n) : ∀ c ∈ cs, (hexValue c).isSome := by
  unfold hexNat at h
  split at h
  · cases h
  · exact hexDigitsValue_digits h

theorem decodeHex_digits (cs : List Char) (h : decodeHex cs = .ok bs) : ∀ c ∈ cs, (hexValue c).isSome := by
  induction cs using decodeHex.induct generalizing bs with
  | case1 => simp
  | case2 c hc | case3 c hc => simp [decodeHex, hc] at h
  | case4 p q cs hp => simp [decodeHex, hp] at h
  | case5 p q cs a hp hq => simp [decodeHex, hp, hq] at h
  | case6 p q cs a b hp hq ih =>
    rw [decodeHex, hp, hq] at h
    cases hrest : decodeHex cs with
    | error e =>
      rw [hrest] at h
      cases h
    | ok rest =>
      rw [List.forall_mem_cons, List.forall_mem_cons, hp, hq]
      exact ⟨rfl, rfl, ih hrest⟩

theorem digitOrSign_of_digit (h : (hexValue c).isSome) : digitOrSign c = true := by
  rw [digitOrSign, h, Bool.true_or, Bool.true_or]

theorem not_special_of_digitOrSign (h : digitOrSign c = true) : Json.special c = false := by
  simp only [digitOrSign, Bool.or_eq_true, beq_iff_eq] at h
  rcases h with (h | rfl) | rfl
  · have htext : HexText (String.ofList ['0', 'x', c]) [c] :=
      ⟨String.toList_ofList, List.forall_mem_singleton.mpr h⟩
    exact htext.not_special (by simp)
  · rfl
  · rfl

theorem setString16_digits {n : ℤ} (h : setString16 cs = some n) : ∀ c ∈ cs, digitOrSign c = true := by
  unfold setString16 at h
  split at h
  · obtain ⟨m, hm, -⟩ := Option.map_eq_some_iff.mp h
    rw [List.forall_mem_cons]
    exact ⟨rfl, fun c hc => digitOrSign_of_digit (hexNat_digits hm c hc)⟩
  · obtain ⟨m, hm, -⟩ := Option.map_eq_some_iff.mp h
    rw [List.forall_mem_cons]
    exact ⟨rfl, fun c hc => digitOrSign_of_digit (hexNat_digits hm c hc)⟩
  · obtain ⟨m, hm, -⟩ := Option.map_eq_some_iff.mp h
    exact fun c hc => digitOrSign_of_digit (hexNat_digits hm c hc)

theorem setString16_of_hexNat (h : hexNat cs = some m) : setString16 cs = some (m : ℤ) := by
  have hdigits := hexNat_digits h
  unfold setString16
  split
  · exact absurd (hdigits _ (List.mem_cons_self ..)) (by decide)
  · exact absurd (hdigits _ (List.mem_cons_self ..)) (by decide)
  · rw [h]
    rfl

theorem strip0x_eq_ok {str : String} : strip0x str = .ok cs ↔ str.toList = '0' :: 'x' :: cs := by
  unfold strip0x
  split
  · next cs' heq =>
    rw [heq]
    simp
  · next hne =>
    constructor
    · intro h
      cases h
    · exact fun h => absurd h (hne cs)

/-! ## The text of a field -/

theorem fieldText_eq_ok {v : Json} {key : String} (hcs : ∀ c ∈ cs, digitOrSign c = true) :
    fieldText v key = .ok cs ↔ ∃ s, v.get key = some (.string s) ∧ s.toList = '0' :: 'x' :: cs := by
  have hnot {c : Char} (hc : digitOrSign c = false) (h0 : c ≠ '0') (hx : c ≠ 'x') : c ∉ '0' :: 'x' :: cs := by
    intro hmem
    rcases List.mem_cons.mp hmem with h | hmem
    · exact h0 h
    · rcases List.mem_cons.mp hmem with h | hmem
      · exact hx h
      · rw [hcs c hmem] at hc
        cases hc
  constructor
  · intro h
    unfold fieldText at h
    split at h
    · cases h
    · next vv hget =>
      rw [strip0x_eq_ok] at h
      cases vv with
      | string s =>
        have htext := trimQuotes_text_string (s := s) (by rw [h]; exact hnot rfl (by decide) (by decide))
        exact ⟨s, hget, htext ▸ h⟩
      | number n =>
        have hquote : '"' ∉ n.text.toList := fun hmem => absurd (n.char hmem) (by decide)
        rw [Json.text, trimQuotes_of_notMem hquote] at h
        have hx : 'x' ∈ n.text.toList := by rw [h]; simp
        exact absurd (n.char hx) (by decide)
      | null => cases h
      | bool b => cases b <;> cases h
      | array vs =>
        have hmem : '[' ∈ (Json.array vs).text.toList := by simp [Json.text]
        rcases mem_trimQuotes hmem with h' | h'
        · cases h'
        · rw [h] at h'
          exact absurd h' (hnot rfl (by decide) (by decide))
      | object kvs =>
        have hmem : '\x7b' ∈ (Json.object kvs).text.toList := by simp [Json.text]
        rcases mem_trimQuotes hmem with h' | h'
        · cases h'
        · rw [h] at h'
          exact absurd h' (hnot rfl (by decide) (by decide))
  · rintro ⟨s, hget, hs⟩
    have hplain : ∀ c ∈ s.toList, Json.special c = false := by
      rw [hs, List.forall_mem_cons, List.forall_mem_cons]
      exact ⟨rfl, rfl, fun c hc => not_special_of_digitOrSign (hcs c hc)⟩
    have hany : ¬s.toList.any Json.special = true := by
      rw [List.any_eq_true]
      rintro ⟨c, hc, hspecial⟩
      rw [hplain c hc] at hspecial
      cases hspecial
    have hquote : '"' ∉ s.toList := fun hmem => by
      have := hplain _ hmem
      cases this
    rw [fieldText, hget]
    dsimp only
    rw [Json.text, Json.escapeString, if_neg hany, trimQuotes_quoted hquote, strip0x_eq_ok, hs]

theorem fieldText_iff {v : Json} {key : String} {P : List Char → Prop}
    (hP : ∀ cs, P cs → ∀ c ∈ cs, digitOrSign c = true) :
    (∃ cs, fieldText v key = .ok cs ∧ P cs) ↔ TextField v key P := by
  constructor
  · rintro ⟨cs, htext, hcs⟩
    obtain ⟨s, hget, hs⟩ := (fieldText_eq_ok (hP cs hcs)).mp htext
    exact ⟨s, cs, hget, hs, hcs⟩
  · rintro ⟨s, cs, hget, hs, hcs⟩
    exact ⟨cs, (fieldText_eq_ok (hP cs hcs)).mpr ⟨s, hget, hs⟩, hcs⟩

theorem except_bind_eq_ok : x.bind f = .ok b ↔ ∃ a, x = .ok a ∧ f a = .ok b := by
  cases x with
  | error | ok => simp [Except.bind]

theorem except_do_eq_ok : (x >>= f) = .ok b ↔ ∃ a, x = .ok a ∧ f a = .ok b := except_bind_eq_ok

theorem except_mapM_eq_ok {xs : List α} {ys : List β} :
    xs.mapM f = .ok ys ↔ List.Forall₂ (fun x y => f x = .ok y) xs ys := by
  induction xs generalizing ys with
  | nil =>
    rw [List.mapM_nil, List.forall₂_nil_left_iff]
    exact ⟨fun h => (Except.ok.inj h).symm, fun h => by rw [h]; rfl⟩
  | cons x xs ih =>
    rw [List.mapM_cons, List.forall₂_cons_left_iff]
    constructor
    · intro h
      obtain ⟨y, hy, h⟩ := except_do_eq_ok.mp h
      obtain ⟨ys', hys', h⟩ := except_do_eq_ok.mp h
      exact ⟨y, ys', hy, ih.mp hys', (Except.ok.inj h).symm⟩
    · rintro ⟨y, ys', hy, hys', rfl⟩
      exact except_do_eq_ok.mpr ⟨y, hy, except_do_eq_ok.mpr ⟨ys', ih.mpr hys', rfl⟩⟩

theorem mapError_eq_ok {ε' : Type} {f : ε → ε'} : x.mapError f = .ok a ↔ x = .ok a := by
  cases x with
  | error | ok => simp [Except.mapError]

/-! ## The readers by the text -/

theorem parseDigits_eq_ok {n : ℕ} (hn : n < 2 ^ 64) :
    parseDigits cs n = .ok m ↔ hexDigitsValue cs n = some m ∧ m < 2 ^ 64 := by
  induction cs generalizing n with
  | nil =>
    rw [parseDigits, hexDigitsValue, Except.ok.injEq, Option.some.injEq]
    constructor
    · rintro rfl
      exact ⟨rfl, hn⟩
    · exact fun h => h.1
  | cons c cs ih =>
    rw [parseDigits, hexDigitsValue]
    cases hc : hexValue c with
    | none => simp
    | some d =>
      dsimp only [Option.bind]
      split
      · next hlt => exact ih hlt
      · next hge =>
        -- the value does not get smaller again
        have hmono : ∀ {cs n m}, hexDigitsValue cs n = some m → n ≤ m := by
          intro cs
          induction cs with
          | nil =>
            intro n m h
            cases h
            exact le_rfl
          | cons c cs ih =>
            intro n m h
            obtain ⟨d, -, h⟩ := Option.bind_eq_some_iff.mp h
            have := ih h
            omega
        constructor
        · intro h
          cases h
        · rintro ⟨h, hlt⟩
          have := hmono h
          omega

theorem parseUint_eq_ok {n : UInt64} : parseUint cs = .ok n ↔ hexNat cs = some n.toNat := by
  unfold parseUint hexNat
  split
  · simp
  · constructor
    · intro h
      cases hm : parseDigits cs 0 with
      | error e =>
        rw [hm] at h
        cases h
      | ok m =>
        obtain ⟨hval, hlt⟩ := (parseDigits_eq_ok (by norm_num)).mp hm
        rw [hm] at h
        cases h
        rw [hval, UInt64.toNat_ofNat_of_lt' hlt]
    · intro h
      rw [(parseDigits_eq_ok (by norm_num)).mpr ⟨h, n.toNat_lt⟩]
      simp [Except.map]

theorem quote_mem_text_string (s : String) : '"' ∈ (Json.string s).text.toList := by
  rw [Json.text, Json.escapeString]
  split
  · simp
  · simp

inductive Literal : Json → List Char → Prop
  | null : Literal .null ['n', 'u', 'l', 'l']
  | true : Literal (.bool true) ['t', 'r', 'u', 'e']
  | false : Literal (.bool false) ['f', 'a', 'l', 's', 'e']

theorem Literal.text_eq_iff {l w : Json} (hl : Literal l cs) : w.text = String.ofList cs ↔ w = l := by
  have hnone : '"' ∉ cs ∧ '[' ∉ cs ∧ '\x7b' ∉ cs ∧ ∃ c ∈ cs,
      ¬(isNumberChar c = Bool.true ∨ c.toLower ∈ ['i', 'n', 'f', 'a']) := by
    cases hl
    · exact ⟨by decide, by decide, by decide, 'l', by decide, by decide⟩
    · exact ⟨by decide, by decide, by decide, 't', by decide, by decide⟩
    · exact ⟨by decide, by decide, by decide, 'l', by decide, by decide⟩
  obtain ⟨hquote, hbracket, hbrace, c, hc, hnum⟩ := hnone
  constructor
  · intro h
    have hlist : w.text.toList = cs := by rw [h, String.toList_ofList]
    cases w with
    | string s => exact absurd (hlist ▸ quote_mem_text_string s) hquote
    | number n => exact absurd (n.char (hlist ▸ hc)) hnum
    | null => cases hl <;> first | rfl | cases hlist
    | bool b => cases b <;> cases hl <;> first | rfl | cases hlist
    | array vs => exact absurd (hlist ▸ (by simp [Json.text] : '[' ∈ (Json.array vs).text.toList)) hbracket
    | object kvs => exact absurd (hlist ▸ (by simp [Json.text] : '\x7b' ∈ (Json.object kvs).text.toList)) hbrace
  · rintro rfl
    cases hl <;> rfl

theorem hexDigitsValue_append (cs : List Char) (c : Char) (n : ℕ) :
    hexDigitsValue (cs ++ [c]) n = (hexDigitsValue cs n).bind (hexDigitsValue [c]) := by
  induction cs generalizing n with
  | nil => rfl
  | cons d cs ih =>
    rw [List.cons_append, hexDigitsValue, hexDigitsValue]
    cases hexValue d with
    | none => rfl
    | some d => exact ih _

theorem hexDigitsValue_toDigits (n : ℕ) : hexDigitsValue (Nat.toDigits 16 n) 0 = some n := by
  induction n using Nat.strong_induction_on with
  | _ n ih =>
    rw [Nat.toDigits_eq_if (by decide)]
    split
    next hlt => simp [hexDigitsValue, hexValue_digitChar hlt]
    next hge =>
      have hdigit : n % 16 < 16 := Nat.mod_lt _ (by decide)
      rw [hexDigitsValue_append, ih (n / 16) (by omega)]
      simp [hexDigitsValue, hexValue_digitChar hdigit, Nat.div_add_mod']

theorem hexNat_hexNumber (n : ℕ) : hexNat (hexNumber n).toList = some n := by
  rw [hexNumber, String.toList_ofList, hexNat, if_neg Nat.toDigits_ne_nil, hexDigitsValue_toDigits]

section
variable {v : Json} {key : String}

theorem decodeUint_eq_ok {n : UInt64} : decodeUint v key = .ok n ↔ UintField v key n := by
  have hdigits : ∀ cs, hexNat cs = some n.toNat → ∀ c ∈ cs, digitOrSign c = true :=
    fun cs h c hc => digitOrSign_of_digit (hexNat_digits h c hc)
  rw [UintField, ← fieldText_iff hdigits, decodeUint, except_bind_eq_ok]
  simp only [mapError_eq_ok, parseUint_eq_ok]

theorem decodeBigInt_eq_ok {n : ℤ} : decodeBigInt v key = .ok n ↔ SignedField v key n := by
  rw [SignedField, ← fieldText_iff (fun cs h => setString16_digits h), decodeBigInt]
  cases fieldText v key with
  | error e => simp
  | ok cs =>
    dsimp only
    split
    · next m hm => simp [hm]
    · next hm => simp [hm]

theorem decodeBigInt_hexBig {n : ℕ} (hv : v.get key = some (.string ("0x" ++ hexBig (some (n : ℤ))))) :
    decodeBigInt v key = .ok (n : ℤ) := by
  have hprint : hexBig (some (n : ℤ)) = hexNumber n := by
    rw [hexBig, if_neg (by omega), Int.natAbs_natCast]
  rw [hprint] at hv
  rw [decodeBigInt, (hexText_hexNumber n).fieldText_eq hv]
  dsimp only
  rw [setString16_of_hexNat (hexNat_hexNumber n)]

theorem readBytes_hexString (hv : v.get key = some (.string ("0x" ++ hexString bs))) :
    readBytes v key = .ok bs := by
  rw [readBytes, decodeBytes_eq none hv, appendBytes]
  split
  · next h => rw [h]; rfl
  · rfl

theorem decodeBytes_eq_ok {dst r : Option Bytes} {bits : Option ℕ} :
    decodeBytes dst v key bits = .ok r ↔
      ∃ bs, BytesField v key bs ∧ (∀ n, bits = some n → bs.length = n) ∧ r = appendBytes dst bs := by
  have hdigits : ∀ bs cs, decodeHex (evenDigits cs) = .ok bs → ∀ c ∈ cs, digitOrSign c = true := by
    intro bs cs h c hc
    refine digitOrSign_of_digit (decodeHex_digits _ h c ?_)
    unfold evenDigits
    split
    · exact List.mem_cons_of_mem _ hc
    · exact hc
  have hfield (bs : Bytes) : BytesField v key bs ↔ ∃ cs, fieldText v key = .ok cs ∧ decodeHex (evenDigits cs) = .ok bs :=
    (fieldText_iff (hdigits bs)).symm
  rw [decodeBytes, except_bind_eq_ok]
  simp only [except_bind_eq_ok, mapError_eq_ok, hfield]
  constructor
  · rintro ⟨cs, hcs, bs, hbs, hr⟩
    refine ⟨bs, ⟨cs, hcs, hbs⟩, ?_⟩
    cases bits with
    | none =>
      cases hr
      exact ⟨fun n h => (by cases h), rfl⟩
    | some n =>
      dsimp only at hr
      split at hr
      · cases hr
      · next hlen =>
        cases hr
        exact ⟨fun m h => by cases h; omega, rfl⟩
  · rintro ⟨bs, ⟨cs, hcs, hbs⟩, hbits, rfl⟩
    refine ⟨cs, hcs, bs, hbs, ?_⟩
    cases bits with
    | none => rfl
    | some n =>
      dsimp only
      rw [if_neg (not_not.mpr (hbits n rfl).symm)]

theorem getD_appendBytes_none (bs : Bytes) : (appendBytes none bs).getD [] = bs := by
  unfold appendBytes
  split
  · next h => simp [h]
  · simp

theorem readBytes_eq_ok : readBytes v key = .ok bs ↔ BytesField v key bs := by
  have hmap : readBytes v key = .ok bs ↔ ∃ r, decodeBytes none v key none = .ok r ∧ r.getD [] = bs := by
    rw [readBytes]
    cases decodeBytes none v key none with
    | error | ok => simp [Except.map]
  rw [hmap]
  simp only [decodeBytes_eq_ok]
  constructor
  · rintro ⟨r, ⟨bs, hbs, -, rfl⟩, rfl⟩
    rwa [getD_appendBytes_none]
  · intro hbs
    exact ⟨_, ⟨bs, hbs, fun n h => (by cases h), rfl⟩, getD_appendBytes_none bs⟩

theorem decodeBool_eq_ok {b : Bool} : decodeBool v key = .ok b ↔ v.get key = some (.bool b) := by
  unfold decodeBool
  cases hget : v.get key with
  | none => simp
  | some w =>
    have htrue : w.text = "true" ↔ w = .bool true := Literal.true.text_eq_iff
    have hfalse : w.text = "false" ↔ w = .bool false := Literal.false.text_eq_iff
    dsimp only
    rw [Option.some.injEq]
    split
    · next h =>
      rw [hfalse.mp h]
      simp
    · next hne =>
      split
      · next h =>
        rw [htrue.mp h]
        simp
      · next hne' =>
        constructor
        · intro h
          cases h
        · rintro rfl
          cases b with
          | true => exact absurd rfl hne'
          | false => exact absurd rfl hne

theorem fieldNotFull_iff : fieldNotFull v key = true ↔ ∃ w, v.get key = some w ∧ w ≠ .null := by
  unfold fieldNotFull
  cases hget : v.get key with
  | none => simp
  | some w =>
    have hnull : w.text = "null" ↔ w = .null := Literal.null.text_eq_iff
    simp [hnull]

/-! ## Hashes and addresses -/

section
variable {n : ℕ}

theorem unmarshalTextByte_eq_ok {a : { bs : Bytes // bs.length = n }} :
    unmarshalTextByte n s = .ok a ↔ ∃ cs, (trimQuotes s).toList = '0' :: 'x' :: cs ∧ decodeHex cs = .ok a.1 := by
  rw [unmarshalTextByte, except_bind_eq_ok]
  simp only [strip0x_eq_ok, except_bind_eq_ok, mapError_eq_ok]
  refine exists_congr fun cs => and_congr_right fun _ => ?_
  constructor
  · rintro ⟨bs, hbs, ha⟩
    split at ha
    · cases ha
      exact hbs
    · cases ha
  · intro h
    exact ⟨a.1, h, dif_pos a.2⟩

theorem FixedField.unmarshalTextByte {a : { bs : Bytes // bs.length = n }} (h : FixedField v key a.1) :
    v.getStringBytes key ≠ "" ∧ Web3.unmarshalTextByte n (v.getStringBytes key) = .ok a := by
  obtain ⟨s, cs, hget, hs, hcs⟩ := h
  have htext : HexText s cs := ⟨hs, decodeHex_digits cs hcs⟩
  have hbytes : v.getStringBytes key = s := by rw [Json.getStringBytes, hget]
  rw [hbytes]
  refine ⟨htext.ne_empty, unmarshalTextByte_eq_ok.mpr ⟨cs, ?_, hcs⟩⟩
  rw [htext.trimQuotes_eq, hs]

theorem decodeFixed_eq_ok {unmarshalText : String → Except DecodeError α} {b : α} :
    decodeFixed unmarshalText a v key = .ok b ↔ v.getStringBytes key ≠ "" ∧
      (unmarshalText (v.getStringBytes key) = .ok b ∨
        (∃ e, unmarshalText (v.getStringBytes key) = .error e) ∧ b = a) := by
  unfold decodeFixed
  dsimp only
  split
  · next h => simp [h]
  · next h =>
    cases unmarshalText (v.getStringBytes key) with
    | ok c => simp [h]
    | error e => simp [h, eq_comm]

theorem decodeFixed_strict_iff {a b : { bs : Bytes // bs.length = n }}
    (h : decodeFixed (Web3.unmarshalTextByte n) a v key = .ok b) :
    FixedField v key b.1 ↔ ∃ c : { bs : Bytes // bs.length = n }, FixedField v key c.1 := by
  constructor
  · exact fun hb => ⟨b, hb⟩
  · rintro ⟨c, hc⟩
    have hread := hc.unmarshalTextByte.2
    rcases (decodeFixed_eq_ok.mp h).2 with h | ⟨⟨e, he⟩, -⟩
    · cases hread.symm.trans h
      exact hc
    · cases hread.symm.trans he

end

theorem NatField.signedField {n : ℤ} (h : NatField v key n) : SignedField v key n := by
  obtain ⟨s, cs, hget, hs, m, hm, rfl⟩ := h
  exact ⟨s, cs, hget, hs, setString16_of_hexNat hm⟩

theorem TextField.unique {P : α → List Char → Prop} (hP : ∀ a b cs, P a cs → P b cs → a = b) {b : α}
    (ha : TextField v key (P a)) (hb : TextField v key (P b)) : a = b := by
  obtain ⟨s, cs, hget, hs, hcs⟩ := ha
  obtain ⟨s', cs', hget', hs', hcs'⟩ := hb
  cases hget.symm.trans hget'
  cases hs.symm.trans hs'
  exact hP a b cs hcs hcs'

theorem SignedField.unique {n m : ℤ} (hn : SignedField v key n) (hm : SignedField v key m) : n = m :=
  TextField.unique (P := fun n cs => setString16 cs = some n) (fun _ _ _ h h' => Option.some.inj (h.symm.trans h')) hn hm

theorem natField_iff {n : ℤ} (h : SignedField v key n) : NatField v key n ↔ ∃ m, NatField v key m := by
  constructor
  · exact fun hn => ⟨n, hn⟩
  · rintro ⟨m, hm⟩
    rwa [h.unique hm.signedField]

end

end Web3

import Web3.Primitives

/-! # JSON values

The values of `fastjson`, and the functions of `structs_unmarshal.go` that read the fields of an object.
A number is its text. Documents have a type of their own: `FastJson` is a printer and a parser of them
that are inverse to each other. The readers look at the text of single values (`Json.text`). -/

namespace Web3

/-! ## Numbers -/

def isNumberChar (c : Char) : Bool := c.isDigit || "+-.eE".toList.contains c

def unsigned : List Char → List Char
  | '+' :: cs => cs
  | '-' :: cs => cs
  | cs => cs

/-- What `fastjson` reads as a number: a token of the characters of numbers, an infinity or a NaN. -/
def isNumber (cs : List Char) : Bool :=
  (!cs.isEmpty && cs.all isNumberChar) || ["inf".toList, "nan".toList].contains ((unsigned cs).map Char.toLower)

structure Number where
  text : String
  isNumber : isNumber text.toList = true

theorem Number.char (n : Number) {c : Char} (hc : c ∈ n.text.toList) :
    isNumberChar c = true ∨ c.toLower ∈ ['i', 'n', 'f', 'a'] := by
  have hsign : c = '+' ∨ c = '-' ∨ c ∈ unsigned n.text.toList := by
    unfold unsigned
    split
    · next cs hcs =>
      rw [hcs, List.mem_cons] at hc
      exact hc.imp_right .inr
    · next cs hcs =>
      rw [hcs, List.mem_cons] at hc
      exact .inr hc
    · exact .inr (.inr hc)
  have hwords : ∀ w ∈ ["inf".toList, "nan".toList], ∀ d ∈ w, d ∈ ['i', 'n', 'f', 'a'] := by simp
  rcases Bool.or_eq_true_iff.mp n.isNumber with h | h
  · exact .inl (List.all_eq_true.mp (Bool.and_eq_true_iff.mp h).2 c hc)
  · rcases hsign with rfl | rfl | hmem
    · exact .inl rfl
    · exact .inl rfl
    · have hlower : c.toLower ∈ (unsigned n.text.toList).map Char.toLower := List.mem_map_of_mem hmem
      exact .inr (hwords _ (List.contains_iff_mem.mp h) _ hlower)

inductive Json where
  | null
  | bool (b : Bool)
  | number (n : Number)
  | string (s : String)
  | array (vs : List Json)
  | object (kvs : List (String × Json))

/-- A correct printer and parser. -/
structure FastJson (Doc : Type) where
  marshalTo : Json → Doc
  parse : Doc → Option Json
  parse_marshal : ∀ v, parse (marshalTo v) = some v

def FastJson.ofValues : FastJson Json := { marshalTo := id, parse := some, parse_marshal := fun _ => rfl }

namespace Json

/-! ## The text of a value -/

def special (c : Char) : Bool := c == '"' || c == '\\' || c.toNat < 0x20

/-- `strconv.AppendQuote` of a character. The characters above `0x7f` count as printable; those that are not are escaped
in the source, which can only be seen in the text that an error quotes. -/
def escape (c : Char) : List Char :=
  match c with
  | '"' => ['\\', '"']
  | '\\' => ['\\', '\\']
  | '\x07' => ['\\', 'a']
  | '\x08' => ['\\', 'b']
  | '\x0c' => ['\\', 'f']
  | '\n' => ['\\', 'n']
  | '\r' => ['\\', 'r']
  | '\t' => ['\\', 't']
  | '\x0b' => ['\\', 'v']
  | c =>
    if c.toNat < 0x20 ∨ c.toNat = 0x7f then ['\\', 'x', hexDigit (c.toNat / 16), hexDigit (c.toNat % 16)] else [c]

def escapeString (s : String) : String :=
  if s.toList.any special then "\"" ++ String.ofList (s.toList.flatMap escape) ++ "\"" else "\"" ++ s ++ "\""

mutual

def text : Json → String
  | .null => "null"
  | .bool true => "true"
  | .bool false => "false"
  | .number n => n.text
  | .string s => escapeString s
  | .array vs => "[" ++ ",".intercalate (texts vs) ++ "]"
  | .object kvs => "\x7b" ++ ",".intercalate (fieldTexts kvs) ++ "\x7d"

def texts : List Json → List String
  | [] => []
  | v :: vs => v.text :: texts vs

def fieldTexts : List (String × Json) → List String
  | [] => []
  | (k, v) :: kvs => (escapeString k ++ ":" ++ v.text) :: fieldTexts kvs

end

/-! ## Access -/

/-- `Value.Set` of an object with the given fields, which replaces the value of a key that is there. -/
def setField (key : String) (v : Json) : List (String × Json) → List (String × Json)
  | [] => [(key, v)]
  | (k, w) :: kvs => if k = key then (key, v) :: kvs else (k, w) :: setField key v kvs

def setOptional (key : String) (v : Option Json) (o : List (String × Json)) : List (String × Json) :=
  v.elim o fun v => setField key v o

/-- `Value.Get`, for keys that are no numbers. -/
def get (v : Json) (key : String) : Option Json :=
  match v with
  | .object kvs => kvs.lookup key
  | _ => none

def getStringBytes (v : Json) (key : String) : String :=
  match v.get key with
  | some (.string s) => s
  | _ => ""

def getArray (v : Json) (key : String) : List Json :=
  match v.get key with
  | some (.array vs) => vs
  | _ => []

theorem lookup_setField_self (key : String) (v : Json) (kvs : List (String × Json)) :
    (setField key v kvs).lookup key = some v := by
  induction kvs with
  | nil => simp [setField]
  | cons kv kvs ih =>
    obtain ⟨k, w⟩ := kv
    simp only [setField]
    split
    next hk => simp
    next hk => simpa [List.lookup_cons, beq_false_of_ne (Ne.symm hk)] using ih

variable {key key' : String}

theorem lookup_setField_ne (hne : key' ≠ key) (v : Json) (kvs : List (String × Json)) :
    (setField key v kvs).lookup key' = kvs.lookup key' := by
  induction kvs with
  | nil => simp [setField, hne]
  | cons kv kvs ih =>
    obtain ⟨k, w⟩ := kv
    simp only [setField]
    split
    next hk => simp [hk, List.lookup_cons, beq_false_of_ne hne]
    next hk => simp only [List.lookup_cons, ih]

theorem lookup_setOptional_self {o : List (String × Json)} (v : Option Json)
    (hnew : o.lookup key = none) : (setOptional key v o).lookup key = v := by
  cases v with
  | none => exact hnew
  | some v => exact lookup_setField_self key v o

theorem lookup_setOptional_ne (hne : key' ≠ key) (v : Option Json) (o : List (String × Json)) :
    (setOptional key v o).lookup key' = o.lookup key' := by
  cases v with
  | none => rfl
  | some v => exact lookup_setField_ne hne v o

end Json

/-- The documents are of objects with the same fields. -/
def FastJson.SameFields {Doc : Type} (fastjson : FastJson Doc) (d d' : Doc) : Prop :=
  ∀ key, (fastjson.parse d).bind (·.get key) = (fastjson.parse d').bind (·.get key)

/-! ## Errors -/

inductive DecodeError where
  | notFound (key : String)
  | without0x (str : String)
  | hex (e : HexError)
  | number (e : NumError)
  | size (found expected : ℕ)
  | notBool (key content : String)
  | notString
  deriving DecidableEq

/-! ## Readers of fields -/

def trimQuotes (str : String) : String := String.ofList ((str.toList.dropWhile (· == '"')).rdropWhile (· == '"'))

def strip0x (str : String) : Except DecodeError (List Char) :=
  match str.toList with
  | '0' :: 'x' :: cs => .ok cs
  | _ => .error (.without0x str)

def fieldText (v : Json) (key : String) : Except DecodeError (List Char) :=
  match v.get key with
  | none => .error (.notFound key)
  | some vv => strip0x (trimQuotes vv.text)

def decodeUint (v : Json) (key : String) : Except DecodeError UInt64 :=
  (fieldText v key).bind fun cs => (parseUint cs).mapError .number

def appendBytes (dst : Option Bytes) (buf : Bytes) : Option Bytes :=
  if buf = [] then dst else some (dst.getD [] ++ buf)

def decodeBytes (dst : Option Bytes) (v : Json) (key : String) (bits : Option ℕ) : Except DecodeError (Option Bytes) :=
  (fieldText v key).bind fun cs =>
    let cs := if cs.length % 2 ≠ 0 then '0' :: cs else cs
    ((decodeHex cs).mapError .hex).bind fun buf =>
      match bits with
      | some n => if n ≠ buf.length then .error (.size buf.length n) else .ok (appendBytes dst buf)
      | none => .ok (appendBytes dst buf)

def unmarshalTextByte (n : ℕ) (src : String) : Except DecodeError { bs : Bytes // bs.length = n } :=
  (strip0x (trimQuotes src)).bind fun cs =>
    ((decodeHex cs).mapError .hex).bind fun b => if h : b.length = n then .ok ⟨b, h⟩ else .error (.size b.length n)

-- `String` is a method of addresses and hashes
abbrev Text : Type := String

def Address.unmarshalText (src : Text) : Except DecodeError Address := unmarshalTextByte 20 src

def Hash.unmarshalText (src : Text) : Except DecodeError Hash := unmarshalTextByte 32 src

/-- `decodeHash`, and `decodeAddr`: the error of `UnmarshalText` is not looked at, and then the array
stays as it is. -/
def decodeFixed {α : Type} (unmarshalText : String → Except DecodeError α) (a : α) (v : Json) (key : String) :
    Except DecodeError α :=
  let b := v.getStringBytes key
  if b = "" then .error (.notFound key)
  else
    match unmarshalText b with
    | .ok a => .ok a
    | .error _ => .ok a

def decodeHash (h : Hash) (v : Json) (key : String) : Except DecodeError Hash := decodeFixed Hash.unmarshalText h v key

def decodeAddr (a : Address) (v : Json) (key : String) : Except DecodeError Address :=
  decodeFixed Address.unmarshalText a v key

def decodeBool (v : Json) (key : String) : Except DecodeError Bool :=
  match v.get key with
  | none => .error (.notFound key)
  | some vv =>
    if vv.text = "false" then .ok false
    else if vv.text = "true" then .ok true
    else .error (.notBool key vv.text)

/-! ## Reading what was printed -/

structure HexText (s : String) (cs : List Char) : Prop where
  toList : s.toList = '0' :: 'x' :: cs
  digits : ∀ c ∈ cs, (hexValue c).isSome

theorem hexText_hexString (bs : Bytes) : HexText ("0x" ++ hexString bs) (hexString bs).toList where
  toList := by simp
  digits _ := isSome_hexValue_of_mem_hexString

theorem hexText_hexNumber (n : ℕ) : HexText ("0x" ++ hexNumber n) (hexNumber n).toList where
  toList := by simp
  digits _ := isSome_hexValue_of_mem_hexNumber

namespace HexText
variable {s : String} {cs : List Char}

section
variable (h : HexText s cs)
include h

theorem ne_empty : s ≠ "" := by
  rintro rfl
  simpa using h.toList

theorem not_special {c : Char} (hc : c ∈ s.toList) : Json.special c = false := by
  rw [h.toList, List.mem_cons, List.mem_cons] at hc
  rcases hc with rfl | rfl | hc
  · rfl
  · rfl
  · have hdigit := h.digits c hc
    have hrange : '0' ≤ c ∧ c ≤ '9' ∨ 'a' ≤ c ∧ c ≤ 'f' ∨ 'A' ≤ c ∧ c ≤ 'F' := by
      unfold hexValue at hdigit
      grind
    have hquote : c ≠ '"' := by rintro rfl; simp at hrange
    have hslash : c ≠ '\\' := by rintro rfl; simp at hrange
    have hlow : ¬c.toNat < 0x20 := by
      intro hlt
      simp only [Char.le_def, UInt32.le_iff_toNat_le] at hrange
      have : c.toNat = c.val.toNat := rfl
      simp at hrange
      omega
    simp [Json.special, hquote, hslash, hlow]

theorem text_eq : (Json.string s).text = "\"" ++ s ++ "\"" := by
  have hplain : ¬s.toList.any Json.special := by
    rw [List.any_eq_true]
    rintro ⟨c, hc, hspecial⟩
    rw [h.not_special hc] at hspecial
    cases hspecial
  rw [Json.text, Json.escapeString, if_neg hplain]

theorem not_quote : ∀ c ∈ s.toList, (c == '"') = false := by
  intro c hc
  have hspecial := h.not_special hc
  simp only [Json.special, Bool.or_eq_false_iff] at hspecial
  exact hspecial.1.1

theorem rdropWhile_eq : s.toList.rdropWhile (· == '"') = s.toList := by
  rw [List.rdropWhile_eq_self_iff]
  intro hne
  simpa using h.not_quote _ (List.getLast_mem hne)

theorem trimQuotes_eq : trimQuotes s = s := by
  have hdrop : s.toList.dropWhile (· == '"') = s.toList := by simp [h.toList]
  rw [trimQuotes, hdrop, h.rdropWhile_eq, String.ofList_toList]

theorem trimQuotes_text : trimQuotes (Json.string s).text = s := by
  have hlist : ("\"" ++ s ++ "\"").toList = '"' :: (s.toList ++ ['"']) := by simp
  have hdrop : (s.toList ++ ['"']).dropWhile (· == '"') = s.toList ++ ['"'] := by simp [h.toList]
  rw [h.text_eq, trimQuotes, hlist, List.dropWhile_cons_of_pos rfl, hdrop, List.rdropWhile_concat_pos _ _ _ rfl]
  rw [h.rdropWhile_eq, String.ofList_toList]

theorem strip0x_eq : strip0x s = .ok cs := by
  simp only [strip0x, h.toList]

theorem fieldText_eq {v : Json} {key : String} (hv : v.get key = some (.string s)) : fieldText v key = .ok cs := by
  rw [fieldText, hv]
  dsimp only
  rw [h.trimQuotes_text, h.strip0x_eq]

end

end HexText

section Reading
variable {v : Json} {key : String}

theorem decodeUint_eq {n : UInt64} (hv : v.get key = some (.string ("0x" ++ hexNumber n.toNat))) :
    decodeUint v key = .ok n := by
  rw [decodeUint, (hexText_hexNumber _).fieldText_eq hv]
  simp [Except.bind, parseUint_hexNumber, Except.mapError]

theorem decodeBytes_eq {bs : Bytes} (dst : Option Bytes) (hv : v.get key = some (.string ("0x" ++ hexString bs))) :
    decodeBytes dst v key none = .ok (appendBytes dst bs) := by
  rw [decodeBytes, (hexText_hexString _).fieldText_eq hv]
  simp [Except.bind, length_hexString, decodeHex_hexString, Except.mapError]

theorem unmarshalTextByte_eq {n : ℕ} (a : { bs : Bytes // bs.length = n }) :
    unmarshalTextByte n ("0x" ++ hexString a.1) = .ok a := by
  have htext := hexText_hexString a.1
  rw [unmarshalTextByte, htext.trimQuotes_eq, htext.strip0x_eq]
  simp [Except.bind, decodeHex_hexString, Except.mapError, a.2]

theorem unmarshalText_hash (h : Hash) : Hash.unmarshalText h.string = .ok h := unmarshalTextByte_eq h

theorem unmarshalText_address (a : Address) : Address.unmarshalText a.string = .ok a := unmarshalTextByte_eq a

theorem decodeFixed_eq {α : Type} {unmarshalText : String → Except DecodeError α} {a : α} {s : String} (hs : s ≠ "")
    (ha : unmarshalText s = .ok a) (a₀ : α) (hv : v.get key = some (.string s)) :
    decodeFixed unmarshalText a₀ v key = .ok a := by
  simp [decodeFixed, Json.getStringBytes, hv, hs, ha]

theorem decodeHash_eq {h : Hash} (h₀ : Hash) (hv : v.get key = some (.string h.string)) : decodeHash h₀ v key = .ok h :=
  decodeFixed_eq (hexText_hexString _).ne_empty (unmarshalText_hash h) h₀ hv

theorem decodeAddr_eq {a : Address} (a₀ : Address) (hv : v.get key = some (.string a.string)) :
    decodeAddr a₀ v key = .ok a :=
  decodeFixed_eq (hexText_hexString _).ne_empty (unmarshalText_address a) a₀ hv

theorem decodeBool_eq {b : Bool} (hv : v.get key = some (.bool b)) : decodeBool v key = .ok b := by
  cases b <;> simp [decodeBool, hv, Json.text]

end Reading

end Web3

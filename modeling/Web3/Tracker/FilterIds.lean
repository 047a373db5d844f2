import Web3.Foundations.Lists
import Web3.Tracker.Filters

/-! # The hash of a configuration

The entry of a filter is found by a hash of its addresses and topics, written one after the other without
separators. An address has 40 digits, a topic 64, or it is the word `empty`, whose first letter is also a
digit. What comes after a digit string still tells where that string ends: the second character of every
part is not a digit. -/

namespace Web3.Tracker.FilterConfig

inductive Part where
  | address (a : Web3.Address)
  | topic (t : Option Web3.Hash)

def Part.text : Part → String
  | .address i => i.string
  | .topic none => "empty"
  | .topic (some i) => i.string

def parts (f : FilterConfig) : List Part := f.Address.map .address ++ f.Topics.map .topic

def hashInput (f : FilterConfig) : Bytes := f.parts.flatMap fun i => i.text.toUTF8.data.toList

def buildHash (sha256 : Bytes → Bytes) (f : FilterConfig) : FilterConfig :=
  { f with Hash := hexString (sha256 f.hashInput) }

/-! ## Reading the parts back -/

namespace Part

def word : Part → Option Bytes
  | .address i => some i.1
  | .topic none => none
  | .topic (some i) => some i.1

variable {bs : Bytes}

theorem text_of_word {p : Part} (h : p.word = some bs) : p.text.toList = '0' :: 'x' :: (hexString bs).toList := by
  match p, h with
  | .address i, rfl => simp [text, Address.string]
  | .topic (some i), rfl => simp [text, Hash.string]

theorem word_injective : Function.Injective word := by
  intro p q h
  match p, q, h with
  | .address a, .address b, h => rw [Subtype.ext (Option.some.inj h)]
  | .topic none, .topic none, _ => rfl
  | .topic (some a), .topic (some b), h => rw [Subtype.ext (Option.some.inj h)]
  | .address a, .topic (some b), h | .topic (some a), .address b, h =>
    have hlen : a.1.length = b.1.length := congrArg List.length (Option.some.inj h)
    rw [a.2, b.2] at hlen
    cases hlen

theorem second_not_digit (ps : List Part) {c d : Char} {cs : List Char}
    (h : ps.flatMap (fun p => p.text.toList) = c :: d :: cs) : hexValue d = none := by
  cases ps with
  | nil => cases h
  | cons p ps =>
    rw [List.flatMap_cons] at h
    cases hword : p.word with
    | some bs =>
      rw [text_of_word hword] at h
      cases h
      rfl
    | none =>
      match p, hword with
      | .topic none, _ =>
        cases h
        rfl

theorem digits_eq {as : Bytes} {ps qs : List Part}
    (h : (hexString as).toList ++ ps.flatMap (fun p => p.text.toList) =
      (hexString bs).toList ++ qs.flatMap fun p => p.text.toList) : as.length ≤ bs.length := by
  by_contra hlt
  rw [List.append_eq_append_iff] at h
  rcases h with ⟨mid, hbs, -⟩ | ⟨mid, has, hqs⟩
  · have hmid := congrArg List.length hbs
    rw [List.length_append, length_hexString, length_hexString] at hmid
    omega
  · -- the longer string reaches at least two digits into the parts
    have hmid := congrArg List.length has
    rw [List.length_append, length_hexString, length_hexString] at hmid
    rcases mid with _ | ⟨c, _ | ⟨d, mid⟩⟩
    · rw [List.length_nil] at hmid
      omega
    · rw [List.length_singleton] at hmid
      omega
    · have hnone := second_not_digit qs hqs
      have hmem : d ∈ (hexString as).toList := by
        rw [has]
        simp
      have hsome := isSome_hexValue_of_mem_hexString hmem
      rw [hnone] at hsome
      cases hsome

theorem text_first (p q : Part) (ps qs : List Part)
    (h : p.text.toList ++ ps.flatMap (fun p => p.text.toList) = q.text.toList ++ qs.flatMap fun p => p.text.toList) :
    p = q := by
  cases hp : p.word with
  | none =>
    match p, hp with
    | .topic none, _ =>
      cases hq : q.word with
      | none =>
        match q, hq with
        | .topic none, _ => rfl
      | some bs =>
        rw [text_of_word hq] at h
        cases h
  | some as =>
    rw [text_of_word hp] at h
    cases hq : q.word with
    | none =>
      match q, hq with
      | .topic none, _ => cases h
    | some bs =>
      rw [text_of_word hq] at h
      simp only [List.cons_append, List.cons.injEq, true_and] at h
      have hlen := le_antisymm (digits_eq h) (digits_eq h.symm)
      have hdigits := (List.append_inj h (by rw [length_hexString, length_hexString, hlen])).1
      have hbytes := congrArg decodeHex hdigits
      rw [decodeHex_hexString, decodeHex_hexString] at hbytes
      exact word_injective (hp.trans ((congrArg some (Except.ok.inj hbytes)).trans hq.symm))

theorem text_ne_nil (p : Part) : p.text.toList ≠ [] := by
  cases hp : p.word with
  | none =>
    match p, hp with
    | .topic none, _ => simp [text]
  | some bs =>
    rw [text_of_word hp]
    exact List.cons_ne_nil _ _

theorem flatMap_bytes (ps : List Part) : (ps.flatMap fun p => p.text.toUTF8.data.toList) =
      (String.ofList (ps.flatMap fun p => p.text.toList)).toUTF8.data.toList := by
  induction ps with
  | nil => rfl
  | cons p ps ih =>
    rw [List.flatMap_cons, List.flatMap_cons, ih, String.ofList_append, String.ofList_toList]
    simp [String.toUTF8_eq_toByteArray, String.toByteArray_append]

end Part

theorem append_parts_inj {as as' : List Web3.Address} {ts ts' : List (Option Web3.Hash)}
    (h : as.map Part.address ++ ts.map Part.topic = as'.map Part.address ++ ts'.map Part.topic) :
    as = as' ∧ ts = ts' := by
  induction as generalizing as' with
  | nil =>
    cases as' with
    | nil =>
      refine ⟨rfl, List.map_injective_iff.mpr (fun t t' heq => ?_) h⟩
      exact Part.topic.inj heq
    | cons a as' =>
      cases ts with
      | nil | cons => cases h
  | cons a as ih =>
    cases as' with
    | nil =>
      cases ts' with
      | nil | cons => cases h
    | cons a' as' =>
      simp only [List.map_cons, List.cons_append, List.cons.injEq, Part.address.injEq] at h
      obtain ⟨rfl, hts⟩ := ih h.2
      exact ⟨by rw [h.1], hts⟩

theorem hashInput_inj {f g : FilterConfig} :
    f.hashInput = g.hashInput ↔ f.Address = g.Address ∧ f.Topics = g.Topics := by
  constructor
  · intro h
    rw [hashInput, hashInput, Part.flatMap_bytes, Part.flatMap_bytes, Array.toList_inj, ← ByteArray.ext_iff,
      String.toUTF8_eq_toByteArray, String.toUTF8_eq_toByteArray, String.toByteArray_inj, String.ofList_inj] at h
    exact append_parts_inj (flatMap_injective Part.text_ne_nil Part.text_first h)
  · rintro ⟨haddress, htopics⟩
    rw [hashInput, hashInput, parts, parts, haddress, htopics]

theorem hexString_injective : Function.Injective hexString := by
  intro as bs h
  have hbytes := decodeHex_hexString as
  rw [h, decodeHex_hexString] at hbytes
  exact (Except.ok.inj hbytes).symm

/-- The bytes that are hashed tell the addresses and the topics. If the hash has no collision, then two
configurations with one hash are one search. -/
theorem buildHash_no_collision (sha256 : Bytes → Bytes) (f g : FilterConfig)
    (hsha : sha256 f.hashInput = sha256 g.hashInput → f.hashInput = g.hashInput) :
    ((f.Address, f.Topics) ≠ (g.Address, g.Topics) → f.hashInput ≠ g.hashInput) ∧
      ((f.buildHash sha256).Hash = (g.buildHash sha256).Hash → f.getFilterSearch = g.getFilterSearch) := by
  constructor
  · intro hne heq
    obtain ⟨haddress, htopics⟩ := hashInput_inj.mp heq
    exact hne (by rw [haddress, htopics])
  · intro hhash
    obtain ⟨haddress, htopics⟩ := hashInput_inj.mp (hsha (hexString_injective hhash))
    rw [getFilterSearch, getFilterSearch, haddress, htopics]

/-- The digests of the two inputs below. -/
def sampleSha256 (input : Bytes) : Bytes :=
  if input.length = 42 then
    [11, 3, 90, 110, 159, 220, 24, 199, 198, 138, 66, 93, 236, 121, 227, 90, 250, 163, 184, 223, 113, 102, 99,
     254, 221, 50, 171, 215, 131, 53, 188, 0]
  else
    [245, 3, 32, 165, 202, 207, 34, 217, 167, 98, 233, 100, 140, 51, 29, 210, 244, 52, 215, 222, 174, 65, 117,
     210, 5, 134, 213, 71, 57, 57, 175, 11]

/-- An address, the same address with a wildcard, and the first one with another start. -/
theorem buildHash_no_collision_wildcard :
    let f : FilterConfig := { Address := [bytesToAddress [1]], Topics := [], Start := 0, Hash := "" }
    let g : FilterConfig := { f with Topics := [none] }
    let later : FilterConfig := { f with Start := 7 }
    f.hashInput ≠ g.hashInput ∧ (f.buildHash sampleSha256).Hash ≠ (g.buildHash sampleSha256).Hash ∧
      f.getFilterSearch = later.getFilterSearch := by
  intro f g later
  have hsha : sampleSha256 f.hashInput ≠ sampleSha256 g.hashInput := by decide +kernel
  obtain ⟨hinput, hsearch⟩ := buildHash_no_collision sampleSha256 f g fun heq => absurd heq hsha
  refine ⟨hinput (by decide), fun hhash => ?_, (buildHash_no_collision sampleSha256 f later fun _ => rfl).2 rfl⟩
  exact absurd (congrArg LogFilter.Topics (hsearch hhash)) (by decide)

end Web3.Tracker.FilterConfig

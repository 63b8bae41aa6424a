import EventSchema.Text.LineEnd
import EventSchema.Text.Quoted
import Mathlib.Data.List.Basic

/-!
# Reading literals

How the generated language reads a literal (`evaluate`). First its end is found: the quotes that it
began with, one or three, where a backslash takes the character behind it along. Then the escapes of
what stands between the quotes are read. A value is a list of code points, which may be halves of
surrogate pairs and so need not be a text.

A text that is written as a literal is read as its UTF-16 code units, each of them a code point
(`evaluate_literal`). These are its own code points exactly if it keeps to the basic plane
(`codeUnits_eq_codePoints_iff`).
-/

namespace EventSchema.Text

variable {names : List Char → Option Nat} {cs ds rest : List Char} {c d : Char} {n : Nat}

/-! ### Escapes -/

/-- The value of a hexadecimal digit. -/
def hexValue? (c : Char) : Option Nat :=
  if '0' ≤ c ∧ c ≤ '9' then some (c.toNat - 48)
  else if 'a' ≤ c ∧ c ≤ 'f' then some (c.toNat - 87)
  else if 'A' ≤ c ∧ c ≤ 'F' then some (c.toNat - 55)
  else none

/-- The number that a text begins with in hexadecimal digits, behind the digits of another
number. -/
def readHex : (width : Nat) → (value : Nat) → List Char → Option Nat
  | 0, value, _ => some value
  | _ + 1, _, [] => none
  | width + 1, value, c :: cs => (hexValue? c).bind fun digit =>
    readHex width (value * 16 + digit) cs

/-- Whether a character is an octal digit. -/
def isOctal (c : Char) : Bool := '0' ≤ c && c ≤ '7'

/-- The number that octal digits spell. -/
def octalValue (cs : List Char) : Nat := cs.foldl (fun value c => value * 8 + (c.toNat - 48)) 0

/-- Characters that stand for one code point behind a backslash. -/
def shortEscapes : List (Char × Nat) :=
  [('\\', 0x5C), ('\'', 0x27), ('"', 0x22), ('a', 0x07), ('b', 0x08), ('t', 0x09), ('n', 0x0A),
    ('v', 0x0B), ('f', 0x0C), ('r', 0x0D)]

/-- The code point that a name in braces stands for, and how many characters it takes with the
letter before. -/
def readName (names : List Char → Option Nat) : List Char → Option (List Nat × Nat)
  | '\x7b' :: cs =>
    let name := cs.takeWhile (· != '\x7d')
    if '\x7d' ∈ cs then (names name).map fun code => ([code], name.length + 3) else none
  | _ => none

/-- The code points that stand for an escape, and how many characters it takes behind its backslash.
The names of characters are given; a character that makes no escape is kept with its backslash. -/
def readEscape (names : List Char → Option Nat) : List Char → Option (List Nat × Nat)
  | [] => none
  | c :: cs =>
    if c = '\n' then some ([], 1)
    else
      match shortEscapes.lookup c with
      | some code => some ([code], 1)
      | none =>
        if isOctal c then
          let digits := (c :: cs.take 2).takeWhile isOctal
          some ([octalValue digits], digits.length)
        else if c = 'x' then (readHex 2 0 cs).map fun code => ([code], 3)
        else if c = 'u' then (readHex 4 0 cs).map fun code => ([code], 5)
        else if c = 'U' then ((readHex 8 0 cs).filter (· < 0x110000)).map fun code => ([code], 9)
        else if c = 'N' then readName names cs
        else some (['\\'.toNat, c.toNat], 1)

/-- The code points of what stands between quotes, past the characters that an escape before has
taken. -/
def decode (names : List Char → Option Nat) : (taken : Nat) → List Char → Option (List Nat)
  | _, [] => some []
  | taken + 1, _ :: cs => decode names taken cs
  | 0, c :: cs =>
    if c = '\\' then
      match readEscape names cs with
      | some (codes, taken) => (decode names taken cs).map (codes ++ ·)
      | none => none
    else (decode names 0 cs).map (c.toNat :: ·)

/-! ### Literals -/

/-- What stands before the next such quotes, and what behind them. Single quotes end on their
line. -/
def readBody (quotes : List Char) : List Char → Option (List Char × List Char)
  | [] => none
  | '\\' :: c :: cs => (readBody quotes cs).map fun found => ('\\' :: c :: found.1, found.2)
  | c :: cs =>
    if quotes.isPrefixOf (c :: cs) then some ([], (c :: cs).drop quotes.length)
    else if c = '\n' ∧ quotes.length = 1 then none
    else (readBody quotes cs).map fun found => (c :: found.1, found.2)

/-- The quotes around a literal that goes over several lines. -/
def threeQuotes : List Char := ['"', '"', '"']

/-- The quotes that a literal begins with: three, or else one. -/
def quotesOf (cs : List Char) : List Char :=
  if threeQuotes.isPrefixOf cs then threeQuotes else ['"']

/-- The value of the literal that source text begins with, and what stands behind it. -/
def readLiteral (names : List Char → Option Nat) (source : List Char) :
    Option (List Nat × List Char) :=
  if (quotesOf source).isPrefixOf source then
    (readBody (quotesOf source) (source.drop (quotesOf source).length)).bind fun found =>
      (decode names 0 found.1).map fun codes => (codes, found.2)
  else none

/-- The value of source text that is one literal and nothing else. -/
def evaluate (names : List Char → Option Nat) (source : List Char) : Option (List Nat) :=
  let source := unifyLineEnds source
  if source.contains '\x00' then none
  else
    match readLiteral names source with
    | some (codes, []) => some codes
    | _ => none

/-! ### Values -/

/-- The code points of a text. -/
def codePoints (s : String) : List Nat := s.toList.map Char.toNat

/-- The UTF-16 code units of a character. -/
def codeUnitsOf (c : Char) : List Nat :=
  if c.toNat < 0x10000 then [c.toNat]
  else [0xD800 + (c.toNat - 0x10000) / 0x400, 0xDC00 + (c.toNat - 0x10000) % 0x400]

/-- The UTF-16 code units of a text. -/
def codeUnits (s : String) : List Nat := s.toList.flatMap codeUnitsOf

/-- Every character of a text is in the basic plane. -/
def IsBasic (s : String) : Prop := ∀ c ∈ s.toList, c.toNat < 0x10000

instance (s : String) : Decidable (IsBasic s) :=
  inferInstanceAs (Decidable (∀ c ∈ s.toList, c.toNat < 0x10000))

/-- No character is half of a surrogate pair. -/
theorem not_isSurrogate_toNat (c : Char) : c.toNat < 0xD800 ∨ 0xDFFF < c.toNat := by
  rcases c.valid with h | h
  · exact .inl h
  · exact .inr h.1

/-- Every character is below the end of the code space. -/
theorem toNat_lt (c : Char) : c.toNat < 0x110000 := by
  rcases c.valid with h | h
  · exact Nat.lt_trans h (by decide)
  · exact h.2

/-- A text is told by its code points. -/
theorem codePoints_inj {s t : String} (h : codePoints s = codePoints t) : s = t :=
  String.toList_inj.1 (List.map_injective_iff.2 (fun _ _ ↦ Char.toNat_inj.1) h)

/-- The code units of a text are the code points of a text only if it is in the basic plane. -/
theorem isBasic_of_codeUnits_eq {s t : String} (h : codeUnits s = codePoints t) : IsBasic s := by
  intro c hc
  by_contra hlarge
  -- a character above the basic plane has a unit that is no character
  have hmem : 0xD800 + (c.toNat - 0x10000) / 0x400 ∈ codeUnits s := by
    refine List.mem_flatMap.2 ⟨c, hc, ?_⟩
    rw [codeUnitsOf, if_neg hlarge]
    exact List.mem_cons_self
  rw [h] at hmem
  obtain ⟨d, -, hd⟩ := List.mem_map.1 hmem
  have hd' := not_isSurrogate_toNat d
  have hc' := toNat_lt c
  omega

/-- Code units are code points exactly for texts of the basic plane. -/
theorem codeUnits_eq_codePoints_iff {s : String} : codeUnits s = codePoints s ↔ IsBasic s := by
  refine ⟨isBasic_of_codeUnits_eq, fun h ↦ ?_⟩
  rw [codeUnits, codePoints, ← List.flatMap_pure_eq_map]
  exact List.flatMap_congr fun c hc ↦ if_pos (h c hc)

/-! ### Digits -/

/-- A number is written in as many hexadecimal digits as are asked for. -/
theorem length_hexDigits {w : Nat} : (hexDigits w n).length = w := by
  induction w generalizing n with
  | zero => rfl
  | succ w ih => rw [hexDigits, List.length_append, ih, List.length_singleton]

/-- A hexadecimal digit has the value that it was written for. -/
theorem hexValue?_hexDigit (h : n < 16) : hexValue? (hexDigit n) = some n := by
  have hall : ∀ n < 16, hexValue? (hexDigit n) = some n := by decide
  exact hall n h

/-- A number is read digit by digit. -/
theorem readHex_append {w k value : Nat} (h : cs.length = w) :
    readHex (w + k) value (cs ++ ds) = (readHex w value cs).bind
      fun value ↦ readHex k value ds := by
  induction cs generalizing w value with
  | nil =>
    obtain rfl : 0 = w := h
    rw [Nat.zero_add, List.nil_append, readHex, Option.bind_some]
  | cons c cs ih =>
    obtain rfl : cs.length + 1 = w := h
    rw [Nat.add_right_comm, List.cons_append, readHex, readHex, Option.bind_assoc]
    exact Option.bind_congr fun digit _ ↦ ih rfl

/-- The last digits of a number are read as its remainder. -/
theorem readHex_hexDigits {w value : Nat} :
    readHex w value (hexDigits w n ++ rest) = some (value * Nat.pow 16 w + n % Nat.pow 16 w) := by
  induction w generalizing n rest with
  | zero =>
    have hone : Nat.pow 16 0 = 1 := rfl
    rw [readHex, hone, Nat.mul_one, Nat.mod_one, Nat.add_zero]
  | succ w ih =>
    have hpow : Nat.pow 16 (w + 1) = 16 * Nat.pow 16 w := Nat.mul_comm _ _
    have hfirst := @ih [] (n / 16)
    rw [List.append_nil] at hfirst
    have hlast : hexValue? (hexDigit (n % 16)) = some (n % 16) :=
      hexValue?_hexDigit (Nat.mod_lt n (by decide))
    rw [hexDigits, List.append_assoc, readHex_append length_hexDigits, hfirst, Option.bind_some,
      List.singleton_append, readHex, hlast, Option.bind_some, readHex, hpow, Nat.mod_mul,
      Nat.mul_left_comm]
    congr 1
    omega

/-! ### Pieces of literals -/

/-- A character that stands for itself in single quotes. -/
def IsPlain (c : Char) : Prop := c ≠ '"' ∧ c ≠ '\\' ∧ c ≠ '\n'

instance (c : Char) : Decidable (IsPlain c) := inferInstanceAs (Decidable (_ ∧ _))

/-- In single quotes, a piece of source text stands for code points, whatever comes behind it. -/
structure StandsFor (names : List Char → Option Nat) (cs : List Char)
    (codes : List Nat) : Prop where
  body (rest : List Char) :
    readBody ['"'] (cs ++ rest) = (readBody ['"'] rest).map fun found ↦ (cs ++ found.1, found.2)
  value (rest : List Char) : decode names 0 (cs ++ rest) = (decode names 0 rest).map (codes ++ ·)

/-- A character behind a backslash does not end a literal. -/
theorem readBody_escape {quotes : List Char} : readBody quotes ('\\' :: c :: cs) =
    (readBody quotes cs).map fun found ↦ ('\\' :: c :: found.1, found.2) := by
  rw [readBody]

/-- A character that begins neither an escape nor the quotes belongs to the literal. -/
theorem readBody_cons {quotes : List Char} (hslash : c ≠ '\\')
    (hquotes : quotes.isPrefixOf (c :: cs) = false) (hline : c = '\n' → quotes.length ≠ 1) :
    readBody quotes (c :: cs) = (readBody quotes cs).map fun found ↦ (c :: found.1, found.2) := by
  rw [readBody]
  · rw [hquotes, if_neg Bool.false_ne_true, if_neg fun h ↦ hline h.1 h.2]
  · exact fun _ _ h ↦ absurd h hslash

/-- A plain character belongs to the literal. -/
theorem readBody_cons_of_isPlain (h : IsPlain c) :
    readBody ['"'] (c :: cs) = (readBody ['"'] cs).map fun found ↦ (c :: found.1, found.2) :=
  readBody_cons h.2.1 (by rw [List.isPrefixOf, beq_false_of_ne (Ne.symm h.1), Bool.false_and])
    fun hline ↦ absurd hline h.2.2

/-- Plain characters belong to the literal. -/
theorem readBody_append_of_isPlain (h : ∀ c ∈ cs, IsPlain c) :
    readBody ['"'] (cs ++ rest) = (readBody ['"'] rest).map fun found ↦
      (cs ++ found.1, found.2) := by
  induction cs with
  | nil => exact Option.map_id'.symm
  | cons c cs ih =>
    obtain ⟨hc, hcs⟩ := List.forall_mem_cons.1 h
    rw [List.cons_append, readBody_cons_of_isPlain hc, ih hcs, Option.map_map]
    rfl

/-- What an escape has taken is passed over. -/
theorem decode_append_of_length (h : cs.length = n) :
    decode names n (cs ++ rest) = decode names 0 rest := by
  induction cs generalizing n with
  | nil =>
    obtain rfl : 0 = n := h
    rfl
  | cons c cs ih =>
    obtain rfl : cs.length + 1 = n := h
    rw [List.cons_append, decode]
    exact ih rfl

namespace StandsFor

variable {codes codes' : List Nat}

theorem nil : StandsFor names [] [] where
  body _ := Option.map_id'.symm
  value _ := Option.map_id'.symm

/-- Pieces one after the other stand for their code points one after the other. -/
theorem append (hcs : StandsFor names cs codes) (hds : StandsFor names ds codes') :
    StandsFor names (cs ++ ds) (codes ++ codes') where
  body rest := by
    rw [List.append_assoc, hcs.body, hds.body, Option.map_map]
    exact Option.map_congr fun _ _ ↦ by simp
  value rest := by
    rw [List.append_assoc, hcs.value, hds.value, Option.map_map]
    exact Option.map_congr fun _ _ ↦ by simp

/-- Pieces that are written one by one stand for what they mean one by one. -/
theorem flatMap {α : Type} {as : List α} {write : α → List Char} {mean : α → List Nat}
    (h : ∀ a ∈ as, StandsFor names (write a) (mean a)) :
    StandsFor names (as.flatMap write) (as.flatMap mean) := by
  induction as with
  | nil => exact nil
  | cons a as ih =>
    obtain ⟨ha, has⟩ := List.forall_mem_cons.1 h
    exact ha.append (ih has)

theorem plain (h : IsPlain c) : StandsFor names [c] [c.toNat] where
  body _ := readBody_cons_of_isPlain h
  value rest := by
    rw [List.singleton_append, decode, if_neg h.2.1]
    rfl

/-- An escape stands for what it is read as, if no quote and no line feed is among its
characters. -/
theorem escape (hcs : ∀ d ∈ cs, IsPlain d)
    (h : ∀ rest, readEscape names (c :: cs ++ rest) = some (codes, cs.length + 1)) :
    StandsFor names ('\\' :: c :: cs) codes where
  body rest := by
    rw [List.cons_append, List.cons_append, readBody_escape, readBody_append_of_isPlain hcs,
      Option.map_map]
    rfl
  value rest := by
    rw [List.cons_append, decode, if_pos rfl, h]
    exact congrArg (Option.map (codes ++ ·)) (decode_append_of_length rfl)

/-- A short escape stands for its code point. -/
theorem short (h : shortEscapes.lookup c = some n) (hline : c ≠ '\n') :
    StandsFor names ['\\', c] [n] := by
  refine escape (by simp) fun rest ↦ ?_
  rw [List.singleton_append, readEscape, if_neg hline, h]
  rfl

/-- Hexadecimal digits stand for themselves. -/
theorem isPlain_hexDigit (h : n < 16) : IsPlain (hexDigit n) := by
  have hall : ∀ n < 16, IsPlain (hexDigit n) := by decide
  exact hall n h

theorem isPlain_of_mem_hexDigits {w : Nat} (hc : c ∈ hexDigits w n) : IsPlain c := by
  induction w generalizing n with
  | zero => cases hc
  | succ w ih =>
    rcases List.mem_append.1 hc with hc | hc
    · exact ih hc
    · rw [List.mem_singleton.1 hc]
      exact isPlain_hexDigit (Nat.mod_lt n (by decide))

/-- The escape of a code unit stands for it. -/
theorem unitEscape (h : n < 0x10000) : StandsFor names (unitEscape n) [n] := by
  refine escape (fun d ↦ isPlain_of_mem_hexDigits) fun rest ↦ ?_
  have hlookup : shortEscapes.lookup 'u' = none := by decide
  have hread : readHex 4 0 (hexDigits 4 n ++ rest) = some n := by
    rw [readHex_hexDigits, Nat.zero_mul, Nat.zero_add, Nat.mod_eq_of_lt h]
  rw [List.cons_append, readEscape, if_neg (by decide), hlookup]
  simp only [hread, length_hexDigits]
  rfl

/-- A character of a literal stands for its UTF-16 code units. -/
theorem literalChar (c : Char) : StandsFor names (literalChar c) (codeUnitsOf c) := by
  by_cases hescaped : c = '"' ∨ c = '\\' ∨ c = '\n' ∨ c = '\r' ∨ c = '\t' ∨ c = '\x08' ∨ c = '\x0c'
  · rcases hescaped with rfl | rfl | rfl | rfl | rfl | rfl | rfl <;>
      exact short (by decide) (by decide)
  obtain ⟨hquote, hslash, hline, hreturn, htab, hback, hfeed⟩ :
    c ≠ '"' ∧ c ≠ '\\' ∧ c ≠ '\n' ∧ c ≠ '\r' ∧ c ≠ '\t' ∧
      c ≠ '\x08' ∧ c ≠ '\x0c' := by simpa only [not_or] using hescaped
  rw [Text.literalChar, if_neg (not_or.2 ⟨hquote, hslash⟩), if_neg hline, if_neg hreturn,
    if_neg htab, if_neg hback, if_neg hfeed]
  by_cases hbasic : c.toNat < 0x10000
  · rw [if_pos hbasic, codeUnitsOf, if_pos hbasic]
    split
    · exact plain ⟨hquote, hslash, hline⟩
    · exact unitEscape hbasic
  · have hlarge : c.toNat < 0x110000 := toNat_lt c
    rw [if_neg (fun h ↦ hbasic (Nat.lt_trans h.2 (by decide))), if_neg hbasic, codeUnitsOf,
      if_neg hbasic]
    exact (unitEscape (by omega)).append (unitEscape (by omega))

end StandsFor

/-! ### Literals of texts -/

/-- A printable character of ASCII. -/
def IsShown (c : Char) : Prop := 0x20 ≤ c.toNat ∧ c.toNat < 0x7F

instance (c : Char) : Decidable (IsShown c) := inferInstanceAs (Decidable (_ ∧ _))

theorem isShown_of_mem_hexDigits {w : Nat} (hc : c ∈ hexDigits w n) : IsShown c := by
  have hdigit : ∀ n < 16, IsShown (hexDigit n) := by decide
  induction w generalizing n with
  | zero => cases hc
  | succ w ih =>
    rcases List.mem_append.1 hc with hc | hc
    · exact ih hc
    · rw [List.mem_singleton.1 hc]
      exact hdigit _ (Nat.mod_lt n (by decide))

/-- The escape of a code unit has only printable characters of ASCII. -/
theorem isShown_of_mem_unitEscape (hc : c ∈ unitEscape n) : IsShown c := by
  rcases List.mem_cons.1 hc with rfl | hc
  · decide
  · rcases List.mem_cons.1 hc with rfl | hc
    · decide
    · exact isShown_of_mem_hexDigits hc

/-- A literal is written in printable characters of ASCII. -/
theorem isShown_of_mem_literalChar (hd : d ∈ literalChar c) : IsShown d := by
  have hpair : ∀ {e : Char}, IsShown e → d ∈ ['\\', e] → IsShown d := fun he hd ↦ by
    rcases List.mem_pair.1 hd with rfl | rfl
    · decide
    · exact he
  rw [literalChar] at hd
  repeat' split at hd
  · next h => exact hpair (by rcases h with rfl | rfl <;> decide) hd
  · exact hpair (by decide) hd
  · exact hpair (by decide) hd
  · exact hpair (by decide) hd
  · exact hpair (by decide) hd
  · exact hpair (by decide) hd
  · next h => exact List.mem_singleton.1 hd ▸ h
  · exact isShown_of_mem_unitEscape hd
  · rcases List.mem_append.1 hd with hd | hd
    · exact isShown_of_mem_unitEscape hd
    · exact isShown_of_mem_unitEscape hd

/-- A literal has only printable characters of ASCII. -/
theorem isShown_of_mem_literal {s : String} (hc : c ∈ (literal s).toList) : IsShown c := by
  rw [literal, String.toList_ofList] at hc
  rcases List.mem_append.1 hc with hc | hc
  · rcases List.mem_cons.1 hc with rfl | hc
    · decide
    · obtain ⟨d, -, hd⟩ := List.mem_flatMap.1 hc
      exact isShown_of_mem_literalChar hd
  · rw [List.mem_singleton.1 hc]
    decide

/-- Without carriage returns line ends stay as they are. -/
theorem unifyLineEnds_of_notMem (h : '\r' ∉ cs) : unifyLineEnds cs = cs := by
  induction cs using unifyLineEnds.induct with
  | case1 => rfl
  | case2 cs ih => exact absurd List.mem_cons_self h
  | case3 cs hcs ih => exact absurd List.mem_cons_self h
  | case4 c cs hreturn hother ih =>
    rw [unifyLineEnds, ih fun hmem ↦ h (List.mem_cons_of_mem c hmem)]
    · exact hreturn
    · exact hother

/-- No character of a literal is written with a quote first. -/
theorem head?_literalChar_append : (literalChar c ++ rest).head? ≠ some '"' := by
  rw [literalChar]
  repeat' split
  all_goals simp_all [unitEscape]

/-- A literal begins with one quote unless another one follows it. -/
theorem quotesOf_literal_append {s : String} (hrest : rest.head? ≠ some '"') :
    quotesOf ((literal s).toList ++ rest) = ['"'] := by
  refine if_neg fun h ↦ ?_
  rw [threeQuotes, literal, String.toList_ofList, List.isPrefixOf_iff_prefix, List.cons_append,
    List.cons_append, List.prefix_cons_inj, List.append_assoc] at h
  obtain ⟨t, h⟩ := h
  cases hs : s.toList with
  | nil =>
    rw [hs] at h
    exact hrest (congrArg List.head? (List.cons.inj h).2).symm
  | cons c cs =>
    rw [hs, List.flatMap_cons, List.append_assoc] at h
    exact head?_literalChar_append (congrArg List.head? h).symm

/-- A text that is written as a literal is read as its UTF-16 code units. The literal ends at its
last quote unless a further quote follows. -/
theorem readLiteral_literal_append (s : String) (hrest : rest.head? ≠ some '"') :
    readLiteral names ((literal s).toList ++ rest) = some (codeUnits s, rest) := by
  have hpieces : StandsFor names (s.toList.flatMap literalChar) (codeUnits s) :=
    .flatMap fun c _ ↦ .literalChar c
  have hbody : readBody ['"'] (s.toList.flatMap literalChar ++ '"' :: rest) =
      some (s.toList.flatMap literalChar, rest) := by
    rw [hpieces.body]
    simp [readBody]
  have hvalue : decode names 0 (s.toList.flatMap literalChar) = some (codeUnits s) := by
    have h := hpieces.value []
    rw [List.append_nil] at h
    simpa [decode] using h
  have htext :
      (literal s).toList ++ rest = '"' :: (s.toList.flatMap literalChar ++ '"' :: rest) := by
    rw [literal, String.toList_ofList, List.cons_append, List.cons_append, List.append_assoc,
      List.singleton_append]
  rw [readLiteral, quotesOf_literal_append hrest, htext, if_pos (by simp [List.isPrefixOf])]
  simp only [List.length_singleton, List.drop_succ_cons, List.drop_zero, hbody, hvalue,
    Option.bind_some, Option.map_some]

/-- A literal is read as the code units of its text. -/
theorem evaluate_literal (s : String) : evaluate names (literal s).toList = some (codeUnits s) := by
  have hshown : ∀ c, ¬ IsShown c → c ∉ (literal s).toList :=
    fun c hc hmem ↦ hc (isShown_of_mem_literal hmem)
  have hread : readLiteral names ((literal s).toList ++ []) = some (codeUnits s, []) :=
    readLiteral_literal_append s (by simp)
  rw [List.append_nil] at hread
  have hnul : ¬ (literal s).toList.contains '\x00' = true := by
    simpa using hshown '\x00' (by decide)
  rw [evaluate, unifyLineEnds_of_notMem (hshown '\r' (by decide)), if_neg hnul, hread]

/-- How a text is read back from its literal. -/
structure ReadsBack (names : List Char → Option Nat) (s : String) : Prop where
  /-- The literal has the UTF-16 code units of the text for its value. -/
  units : evaluate names (literal s).toList = some (codeUnits s)
  /-- It has the text itself for its value exactly if every character is in the basic plane. -/
  own : evaluate names (literal s).toList = some (codePoints s) ↔ IsBasic s
  /-- It never has another text for its value. -/
  other (t : String) : evaluate names (literal s).toList = some (codePoints t) → t = s
  /-- Inside source text it has the same value, and ends at its last quote. -/
  inside (rest : List Char) : rest.head? ≠ some '"' →
    readLiteral names ((literal s).toList ++ rest) = some (codeUnits s, rest)

/-- How every text is read back from its literal. -/
theorem readsBack (names : List Char → Option Nat) (s : String) : ReadsBack names s where
  units := evaluate_literal s
  own := by rw [evaluate_literal, Option.some_inj, codeUnits_eq_codePoints_iff]
  other t h := by
    rw [evaluate_literal, Option.some_inj] at h
    have hown := codeUnits_eq_codePoints_iff.2 (isBasic_of_codeUnits_eq h)
    exact codePoints_inj (h.symm.trans hown)
  inside _ := readLiteral_literal_append s

end EventSchema.Text

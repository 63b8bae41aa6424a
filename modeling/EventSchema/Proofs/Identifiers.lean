import EventSchema.Identifier
import Mathlib.Data.List.Basic

/-!
# Identifiers

The words of a schema name are its parts between underscores, and no case mapping brings an
underscore in, so a class name holds none (`underscore_not_mem_typeName`). A name with an underscore
at its end is therefore no class name. The module name of a class name has underscores only after
other characters (`head?_moduleName`), and a field name that is not the attribute's own name ends in
one (`fieldName_cases`). Which attribute names share a field is told by `fieldName_eq_iff`: of two
different ones at least one begins or ends in an underscore (`SameField.eq_or_hasOuterUnderscore`).
-/

namespace EventSchema

/-! ### Numbers -/

/-- A number that is not negative is written as its digits. -/
theorem toList_toString_ofNat (n : Nat) : (toString (Int.ofNat n)).toList = Nat.toDigits 10 n :=
  Nat.toList_repr

/-- A negative number is written as a minus and digits. -/
theorem toList_toString_negSucc (n : Nat) :
    (toString (Int.negSucc n)).toList = '-' :: Nat.toDigits 10 (n + 1) := by
  have h : toString (Int.negSucc n) = "-" ++ (n + 1).repr := rfl
  rw [h, String.toList_append, Nat.toList_repr]
  rfl

/-- Only digits are among the digits of a number. -/
theorem not_mem_toDigits {c : Char} (hc : c.isDigit = false) (n : Nat) : c ∉ Nat.toDigits 10 n := by
  intro hmem
  rw [Nat.isDigit_of_mem_toDigits (by decide) (by decide) hmem] at hc
  cases hc

/-- A natural number is told by its digits. -/
theorem toDigits_inj {m n : Nat} (h : Nat.toDigits 10 m = Nat.toDigits 10 n) : m = n := by
  rw [← Nat.ofDigitChars_toDigits (b := 10) (n := m) (by decide) (by decide), h,
    Nat.ofDigitChars_toDigits (by decide) (by decide)]

/-- An integer is told by its text. -/
theorem toString_inj {m n : Int} (h : toString m = toString n) : m = n := by
  have hchars := congrArg String.toList h
  cases m with
  | ofNat m =>
    cases n with
    | ofNat n =>
      rw [toList_toString_ofNat, toList_toString_ofNat] at hchars
      rw [toDigits_inj hchars]
    | negSucc n =>
      rw [toList_toString_ofNat, toList_toString_negSucc] at hchars
      exact absurd (hchars ▸ List.mem_cons_self) (not_mem_toDigits (by decide) m)
  | negSucc m =>
    cases n with
    | ofNat n =>
      rw [toList_toString_negSucc, toList_toString_ofNat] at hchars
      exact absurd (hchars.symm ▸ List.mem_cons_self) (not_mem_toDigits (by decide) n)
    | negSucc n =>
      rw [toList_toString_negSucc, toList_toString_negSucc] at hchars
      rw [Nat.succ.inj (toDigits_inj (List.cons.inj hchars).2)]

/-- No underscore is in the text of a number. -/
theorem underscore_not_mem_toString (n : Int) : '_' ∉ (toString n).toList := by
  cases n with
  | ofNat n =>
    rw [toList_toString_ofNat]
    exact not_mem_toDigits (by decide) n
  | negSucc n =>
    rw [toList_toString_negSucc]
    exact List.not_mem_cons_of_ne_of_not_mem (by decide) (not_mem_toDigits (by decide) _)

end EventSchema

namespace EventSchema.Text

/-- Some characters, none of them an underscore. -/
def IsWord (cs : List Char) : Prop := cs ≠ [] ∧ '_' ∉ cs

/-- A character that is no underscore is a word. -/
theorem isWord_singleton {c : Char} (hc : c ≠ '_') : IsWord [c] :=
  ⟨List.cons_ne_nil _ _, fun hmem ↦ hc (List.mem_singleton.1 hmem).symm⟩

/-- What begins with a word does not begin with an underscore. -/
theorem IsWord.head?_append {cs : List Char} (h : IsWord cs) (rest : List Char) :
    (cs ++ rest).head? ≠ some '_' := by
  cases cs with
  | nil => exact absurd rfl h.1
  | cons c cs => exact fun hc ↦ h.2 (Option.some.inj hc ▸ List.mem_cons_self)

/-- Only one code point is that of an underscore. -/
theorem ofNat_ne_underscore {n : Nat} (h : n ≠ 95) : Char.ofNat n ≠ '_' := by
  intro hn
  by_cases hvalid : n.isValidChar
  · have hchar : Char.ofNat n = Char.ofNatAux n hvalid := dif_pos hvalid
    exact h (congrArg Char.toNat (hchar.symm.trans hn))
  · have hchar : Char.ofNat n = '\x00' := dif_neg hvalid
    exact absurd (hchar.symm.trans hn) (by decide)

/-- A table that maps no character to an underscore or to nothing. -/
structure KeepsWords (runs : Array CaseRun) (expansions : List (Nat × List Nat)) : Prop where
  runs : ∀ r ∈ runs.toList, 95 < Int.ofNat r.first + r.shift ∨ Int.ofNat r.last + r.shift < 95
  expansions : ∀ e ∈ expansions, e.2 ≠ [] ∧ 95 ∉ e.2

/-- A change of case that keeps words makes a word of each other character. -/
theorem KeepsWords.mapCase {runs : Array CaseRun} {expansions : List (Nat × List Nat)}
    (h : KeepsWords runs expansions) {c : Char} (hc : c ≠ '_') :
    IsWord (mapCase runs expansions c) := by
  unfold Text.mapCase
  split
  · next codes hcodes =>
    obtain ⟨before, after, heq, -⟩ := List.lookup_eq_some_iff.1 hcodes
    obtain ⟨hne, hno⟩ :=
      h.expansions (c.toNat, codes) (heq ▸ List.mem_append_right _ List.mem_cons_self)
    refine ⟨fun hnil ↦ hne (List.map_eq_nil_iff.1 hnil), fun hmem ↦ ?_⟩
    obtain ⟨n, hn, hchar⟩ := List.mem_map.1 hmem
    exact ofNat_ne_underscore (fun h95 ↦ hno (h95 ▸ hn)) hchar
  · split
    · next r hr =>
      refine ⟨List.cons_ne_nil _ _, fun hmem ↦ ?_⟩
      have hrange := Array.find?_some hr
      simp only [Bool.and_eq_true, decide_eq_true_eq] at hrange
      have hrun := h.runs r (Array.mem_def.1 (Array.mem_of_find?_eq_some hr))
      exact ofNat_ne_underscore (by simp only [Int.ofNat_eq_natCast] at hrun ⊢; omega)
        (List.mem_singleton.1 hmem).symm
    · exact isWord_singleton hc

/-- The tables for upper case make no underscores. -/
theorem keepsWords_upper : KeepsWords upperRuns upperExpansions :=
  ⟨by decide +kernel, by decide +kernel⟩

/-- The tables for lower case make no underscores. -/
theorem keepsWords_lower : KeepsWords lowerRuns lowerExpansions :=
  ⟨by decide +kernel, by decide +kernel⟩

/-- Among the characters of ASCII the underscore alone has the underscore as a form. -/
theorem ascii_ne_underscore {c : Char} (hascii : c.toNat < 128) (hc : c ≠ '_') :
    c.toUpper ≠ '_' ∧ c.toLower ≠ '_' := by
  have hall : ∀ n < 128, Char.ofNat n ≠ '_' →
    (Char.ofNat n).toUpper ≠ '_' ∧ (Char.ofNat n).toLower ≠ '_' := by decide +kernel
  have h := hall c.toNat hascii
  rw [Char.ofNat_toNat] at h
  exact h hc

/-- A character that is no underscore is a word in upper case. -/
theorem isWord_upperChar {c : Char} (hc : c ≠ '_') : IsWord (upperChar c) := by
  unfold upperChar
  split
  · next hascii => exact isWord_singleton (ascii_ne_underscore hascii hc).1
  · exact keepsWords_upper.mapCase hc

/-- A character that is no underscore is a word in lower case. -/
theorem isWord_lowerChar {c : Char} (hc : c ≠ '_') : IsWord (lowerChar c) := by
  unfold lowerChar
  split
  · next hascii => exact isWord_singleton (ascii_ne_underscore hascii hc).2
  · exact keepsWords_lower.mapCase hc

/-- The rule for a final sigma makes no underscore. -/
theorem underscore_not_mem_lowerSigma {cs : List Char} (h : '_' ∉ cs) (afterLetter : Bool) :
    '_' ∉ lowerSigma afterLetter cs := by
  induction cs generalizing afterLetter with
  | nil => exact List.not_mem_nil
  | cons c cs ih =>
    obtain ⟨hc, hcs⟩ := not_or.1 (mt List.mem_cons.2 h)
    rw [lowerSigma]
    split
    · refine List.not_mem_cons_of_ne_of_not_mem ?_ (ih hcs true)
      split <;> decide
    · exact fun hmem ↦ (List.mem_append.1 hmem).elim (isWord_lowerChar (Ne.symm hc)).2 (ih hcs _)

/-- Lower case makes no underscore. -/
theorem underscore_not_mem_lowerList {cs : List Char} (h : '_' ∉ cs) : '_' ∉ lowerList cs := by
  unfold lowerList
  split
  · exact underscore_not_mem_lowerSigma h false
  · intro hmem
    obtain ⟨c, hc, hchar⟩ := List.mem_flatMap.1 hmem
    exact (isWord_lowerChar fun hcu ↦ h (hcu ▸ hc)).2 hchar

/-- Lower case does not begin with an underscore if the text does not. -/
theorem head?_lowerList {cs : List Char} (h : cs.head? ≠ some '_') :
    (lowerList cs).head? ≠ some '_' := by
  cases cs with
  | nil => decide
  | cons c cs =>
    have hword := isWord_lowerChar fun hc ↦ h (congrArg some hc)
    unfold lowerList
    split
    · rw [lowerSigma]
      split
      · rw [List.head?_cons]
        split <;> decide
      · exact hword.head?_append _
    · exact hword.head?_append _

/-! ### Names of ASCII -/

/-- Characters of ASCII alone. -/
def IsAscii (cs : List Char) : Prop := ∀ c ∈ cs, c.toNat < 128

/-- Plain characters are mapped one by one to upper case. -/
theorem upperList_of_isAscii {cs : List Char} (h : IsAscii cs) :
    upperList cs = cs.map Char.toUpper := by
  rw [upperList, ← List.flatMap_pure_eq_map]
  exact List.flatMap_congr fun c hc ↦ if_pos (h c hc)

/-- Plain characters are mapped one by one to lower case. -/
theorem lowerList_of_isAscii {cs : List Char} (h : IsAscii cs) :
    lowerList cs = cs.map Char.toLower := by
  have hsigma : cs.contains 'Σ' = false := by
    rw [← Bool.not_eq_true, List.contains_iff_mem]
    exact fun hmem ↦ absurd (h _ hmem) (by decide)
  rw [lowerList, hsigma, if_neg Bool.false_ne_true, ← List.flatMap_pure_eq_map]
  exact List.flatMap_congr fun c hc ↦ if_pos (h c hc)

/-- Each case of a character of ASCII leads to the other. -/
theorem toLower_toUpper {c : Char} (h : c.toNat < 128) :
    c.toUpper.toLower = c.toLower ∧ c.toLower.toUpper = c.toUpper := by
  have hall : ∀ n < 128, (Char.ofNat n).toUpper.toLower = (Char.ofNat n).toLower ∧
    (Char.ofNat n).toLower.toUpper = (Char.ofNat n).toUpper := by decide +kernel
  have hc := hall c.toNat h
  rwa [Char.ofNat_toNat] at hc

/-- Names of ASCII have one form in upper case if they have one in lower case, and the other way
round. -/
theorem upper_eq_iff {a b : String} (ha : IsAscii a.toList) (hb : IsAscii b.toList) :
    upper a = upper b ↔ lower a = lower b := by
  have hupper {cs : List Char} (h : IsAscii cs) :
      (cs.map Char.toUpper).map Char.toLower = cs.map Char.toLower := by
    rw [List.map_map]
    exact List.map_congr_left fun c hc ↦ (toLower_toUpper (h c hc)).1
  have hlower {cs : List Char} (h : IsAscii cs) :
      (cs.map Char.toLower).map Char.toUpper = cs.map Char.toUpper := by
    rw [List.map_map]
    exact List.map_congr_left fun c hc ↦ (toLower_toUpper (h c hc)).2
  rw [upper, upper, lower, lower, String.ofList_inj, String.ofList_inj, upperList_of_isAscii ha,
    upperList_of_isAscii hb, lowerList_of_isAscii ha, lowerList_of_isAscii hb]
  constructor
  · intro h
    rw [← hupper ha, h, hupper hb]
  · intro h
    rw [← hlower ha, h, hlower hb]

end EventSchema.Text

namespace EventSchema.Identifier

/-- No segment between underscores has one. -/
theorem underscore_not_mem_segments {cs word : List Char} (h : word ∈ segments cs) :
    '_' ∉ word := by
  induction cs generalizing word with
  | nil =>
    rw [segments, List.mem_singleton] at h
    exact h ▸ List.not_mem_nil
  | cons c cs ih =>
    rw [segments] at h
    split at h
    · rcases List.mem_cons.1 h with rfl | h
      · exact List.not_mem_nil
      · exact ih h
    · next hc =>
      split at h
      · next s ss hs =>
        rcases List.mem_cons.1 h with rfl | h
        · exact List.not_mem_cons_of_ne_of_not_mem (Ne.symm hc) (ih (hs ▸ List.mem_cons_self))
        · exact ih (hs ▸ List.mem_cons_of_mem _ h)
      · rw [List.mem_singleton] at h
        exact h ▸ fun hmem ↦ hc (List.mem_singleton.1 hmem).symm

/-- A word that is capitalized gets no underscore. -/
theorem underscore_not_mem_capitalize {word : List Char} (h : '_' ∉ word) :
    '_' ∉ capitalize word := by
  cases word with
  | nil => exact List.not_mem_nil
  | cons c cs =>
    obtain ⟨hc, hcs⟩ := not_or.1 (mt List.mem_cons.2 h)
    exact fun hmem ↦ (List.mem_append.1 hmem).elim (Text.isWord_upperChar (Ne.symm hc)).2
      (Text.underscore_not_mem_lowerList hcs)

/-- A class name holds no underscore. -/
theorem underscore_not_mem_typeName (name : String) : '_' ∉ (typeName name).toList := by
  rw [typeName, String.toList_ofList]
  intro hmem
  obtain ⟨word, hword, hchar⟩ := List.mem_flatMap.1 hmem
  exact underscore_not_mem_capitalize (underscore_not_mem_segments hword) hchar

/-! ### Module names -/

/-- Underscores before capitals leave the first character as it is. -/
theorem head?_splitBeforeCapitals (cs : List Char) : (splitBeforeCapitals cs).head? = cs.head? := by
  fun_cases splitBeforeCapitals cs <;> rfl

/-- Underscores behind acronyms leave the first character as it is. -/
theorem head?_splitAcronyms (cs : List Char) : (splitAcronyms cs).head? = cs.head? := by
  fun_cases splitAcronyms cs <;> rfl

/-- A module name does not begin with an underscore if the class name does not. -/
theorem head?_moduleName_of {name : String} (h : name.toList.head? ≠ some '_') :
    (moduleName name).toList.head? ≠ some '_' := by
  have hfile : (fileName name).toList.head? ≠ some '_' := by
    rw [fileName, String.toList_ofList]
    refine Text.head?_lowerList ?_
    rwa [head?_splitAcronyms, head?_splitBeforeCapitals]
  unfold moduleName
  dsimp only
  split
  · next hkeyword =>
    have hall : ∀ k ∈ keywords, (k ++ "_").toList.head? ≠ some '_' := by decide
    exact hall _ (List.contains_iff_mem.1 hkeyword)
  · exact hfile

/-- The module name of a class name does not begin with an underscore. -/
theorem head?_moduleName (name : String) : (moduleName (typeName name)).toList.head? ≠ some '_' :=
  head?_moduleName_of fun h ↦ underscore_not_mem_typeName name (List.mem_of_mem_head? h)

/-! ### Field names -/

/-- A name that begins with an underscore, is a keyword or is reserved, so that its field goes by
another. -/
def IsReplaced (name : String) : Prop :=
  name.toList.head? = some '_' ∨ name ∈ keywords ∨ name ∈ reservedFields

/-- A name without its leading underscores. -/
def stem (name : String) : String := String.ofList (dropUnderscores name.toList)

variable {a b name : String}

/-- A name that does not begin with an underscore is its own stem. -/
theorem stem_eq_self (h : name.toList.head? ≠ some '_') : stem name = name := by
  have hdrop : dropUnderscores name.toList = name.toList := by
    cases hchars : name.toList with
    | nil => rfl
    | cons c cs =>
      rw [hchars, List.head?_cons, ne_eq, Option.some.injEq] at h
      exact List.dropWhile_cons_of_neg (by rwa [beq_iff_eq])
  rw [stem, hdrop, String.ofList_toList]

/-- A stem does not begin with an underscore. -/
theorem head?_stem (name : String) : (stem name).toList.head? ≠ some '_' := by
  rw [stem, String.toList_ofList, dropUnderscores]
  intro hhead
  have hfirst := List.head?_dropWhile_not (· == '_') name.toList
  rw [hhead] at hfirst
  cases hfirst

/-- A field is named by the stem, with an underscore behind it if the stem is another name, a
keyword or taken. -/
theorem fieldName_eq (name : String) : fieldName name =
    if stem name ≠ name ∨ keywords.contains (stem name) ∨
    reservedFields.contains (stem name) then stem name ++ "_"
    else stem name := rfl

/-- A name that is replaced becomes its stem with an underscore. -/
theorem fieldName_of_isReplaced (h : IsReplaced name) : fieldName name = stem name ++ "_" := by
  have hreplaced : stem name ≠ name ∨ keywords.contains (stem name) ∨
      reservedFields.contains (stem name) := by
    by_cases hhead : name.toList.head? = some '_'
    · refine .inl fun hstem ↦ head?_stem name ?_
      rw [hstem]
      exact hhead
    · rw [stem_eq_self hhead, List.contains_iff_mem, List.contains_iff_mem]
      exact .inr (h.resolve_left hhead)
  rw [fieldName_eq, if_pos hreplaced]

/-- Every other name stays as it is. -/
theorem fieldName_of_not_isReplaced (h : ¬IsReplaced name) : fieldName name = name := by
  obtain ⟨hhead, hwords⟩ := not_or.1 h
  have hstem := stem_eq_self hhead
  have hkept : ¬(stem name ≠ name ∨ keywords.contains (stem name) ∨
      reservedFields.contains (stem name)) := by
    rw [hstem, List.contains_iff_mem, List.contains_iff_mem]
    exact not_or.2 ⟨not_not.2 rfl, hwords⟩
  rw [fieldName_eq, if_neg hkept, hstem]

/-- A field has the name of the attribute or ends in an underscore. -/
theorem fieldName_cases (name : String) :
    fieldName name = name ∨ ∃ stem, fieldName name = stem ++ "_" := by
  by_cases h : IsReplaced name
  · exact .inr ⟨_, fieldName_of_isReplaced h⟩
  · exact .inl (fieldName_of_not_isReplaced h)

/-- A field name that does not end in an underscore is the attribute's own name. -/
theorem eq_of_fieldName_eq {name word : String} (hlast : word.toList.getLast? ≠ some '_')
    (h : fieldName name = word) : name = word := by
  rcases fieldName_cases name with hname | ⟨stem, hstem⟩
  · exact hname.symm.trans h
  · rw [← h, hstem, String.toList_append] at hlast
    exact absurd List.getLast?_concat hlast

/-- A field name is its own field name. -/
theorem fieldName_fieldName (name : String) : fieldName (fieldName name) = fieldName name := by
  by_cases h : IsReplaced name
  · rw [fieldName_of_isReplaced h]
    by_cases hstem : stem name = ""
    · rw [hstem]
      decide +kernel
    -- a stem that is not empty stays at the front, and no word that is replaced ends in an
    -- underscore
    refine fieldName_of_not_isReplaced (not_or.2 ⟨?_, fun hword ↦ ?_⟩)
    · obtain ⟨c, cs, hchars⟩ := List.exists_cons_of_ne_nil (mt String.toList_eq_nil_iff.1 hstem)
      have hhead := head?_stem name
      rw [hchars] at hhead
      rwa [String.toList_append, hchars]
    · have hall : ∀ word ∈ keywords ++ reservedFields, word.toList.getLast? ≠ some '_' := by
        decide +kernel
      refine hall _ (List.mem_append.2 hword) ?_
      rw [String.toList_append]
      exact List.getLast?_concat
  · rw [fieldName_of_not_isReplaced h, fieldName_of_not_isReplaced h]

/-- Two names have one field name if they are equal, or if both are replaced and have one stem, or
if one of them is what the other one is replaced by. -/
inductive SameField : String → String → Prop where
  /-- Equal names. -/
  | refl (a : String) : SameField a a
  /-- Names that are replaced and have one stem. -/
  | stems {a b : String} (ha : IsReplaced a) (hb : IsReplaced b)
      (h : stem a = stem b) : SameField a b
  /-- A name that is replaced, and the name that replaces it. -/
  | left {a : String} (ha : IsReplaced a) : SameField a (stem a ++ "_")
  /-- The name that replaces a name, and the name that is replaced. -/
  | right {b : String} (hb : IsReplaced b) : SameField (stem b ++ "_") b

/-- Two attributes share a field exactly in the ways that are listed. -/
theorem fieldName_eq_iff : fieldName a = fieldName b ↔ SameField a b := by
  constructor
  · intro h
    by_cases ha : IsReplaced a <;> by_cases hb : IsReplaced b
    · rw [fieldName_of_isReplaced ha, fieldName_of_isReplaced hb] at h
      exact .stems ha hb ((String.append_left_inj "_").1 h)
    · rw [fieldName_of_isReplaced ha, fieldName_of_not_isReplaced hb] at h
      exact h ▸ .left ha
    · rw [fieldName_of_not_isReplaced ha, fieldName_of_isReplaced hb] at h
      exact h ▸ .right hb
    · rw [fieldName_of_not_isReplaced ha, fieldName_of_not_isReplaced hb] at h
      exact h ▸ .refl a
  · rintro (_ | ⟨ha, hb, h⟩ | ha | hb)
    · rfl
    · rw [fieldName_of_isReplaced ha, fieldName_of_isReplaced hb, h]
    · rw [← fieldName_of_isReplaced ha, fieldName_fieldName]
    · rw [← fieldName_of_isReplaced hb, fieldName_fieldName]

/-- Whether a name begins or ends in an underscore. -/
def HasOuterUnderscore (name : String) : Prop :=
  name.toList.head? = some '_' ∨ name.toList.getLast? = some '_'

theorem hasOuterUnderscore_append (name : String) : HasOuterUnderscore (name ++ "_") := by
  refine .inr ?_
  rw [String.toList_append]
  exact List.getLast?_concat

/-- Of two different names with one field at least one begins or ends in an underscore. -/
theorem SameField.eq_or_hasOuterUnderscore (h : SameField a b) :
    a = b ∨ HasOuterUnderscore a ∨ HasOuterUnderscore b := by
  cases h with
  | refl => exact .inl rfl
  | stems _ _ h =>
    by_cases ha : a.toList.head? = some '_'
    · exact .inr (.inl (.inl ha))
    · by_cases hb : b.toList.head? = some '_'
      · exact .inr (.inr (.inl hb))
      · rw [stem_eq_self ha, stem_eq_self hb] at h
        exact .inl h
  | left => exact .inr (.inr (hasOuterUnderscore_append _))
  | right => exact .inr (.inl (hasOuterUnderscore_append _))

/-- Fields are told apart exactly if no two attributes share one. -/
theorem nodup_map_fieldName_iff {names : List String} :
    (names.map fieldName).Nodup ↔ names.Pairwise fun a b ↦ ¬SameField a b := by
  rw [List.Nodup, List.pairwise_map]
  exact ⟨fun h ↦ h.imp (mt fieldName_eq_iff.2), fun h ↦ h.imp (mt fieldName_eq_iff.1)⟩

/-- Different names have different fields where none begins or ends in an underscore. -/
theorem pairwise_not_sameField {names : List String} (hnodup : names.Nodup)
    (hplain : ∀ name ∈ names, ¬HasOuterUnderscore name) :
    names.Pairwise fun a b ↦ ¬SameField a b := by
  refine List.Pairwise.imp_of_mem (fun ha hb hne hsame ↦ ?_) hnodup
  rcases hsame.eq_or_hasOuterUnderscore with heq | houter | houter
  · exact hne heq
  · exact hplain _ ha houter
  · exact hplain _ hb houter

end EventSchema.Identifier

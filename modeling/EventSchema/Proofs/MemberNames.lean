import EventSchema.Proofs.Identifiers

/-!
# Member names

A member name is made of capital letters, digits and underscores and begins with a letter
(`memberName_chars`), so it is an identifier. With a number behind it that stays so unless the
number is negative (`isIdentifier_numberedName`), and from such a name the name and the number can
be told again (`numberedName_inj`), since the number holds no underscore.
-/

namespace EventSchema.Identifier

/-! ### Words of captions -/

/-- A letter or digit in upper case is a capital letter or a digit. -/
theorem upperChar_of_isAlnum {c : Char} (h : isAlnum c = true) :
    ∃ d, Text.upperChar c = [d] ∧ (isCapital d = true ∨ d.isDigit = true) := by
  have hascii : c.toNat < 128 := by
    unfold isAlnum Char.isAlphanum Char.isAlpha Char.isUpper Char.isLower Char.isDigit at h
    simp only [Bool.or_eq_true, Bool.and_eq_true, decide_eq_true_eq, ge_iff_le,
      UInt32.le_iff_toNat_le] at h
    have h122 : c.val.toNat ≤ 122 := by
      rcases h with (⟨-, h⟩ | ⟨-, h⟩) | ⟨-, h⟩ <;> exact Nat.le_trans h (by decide)
    exact Nat.lt_of_le_of_lt h122 (by decide)
  have hall : ∀ n < 128, isAlnum (Char.ofNat n) = true →
    isCapital (Char.ofNat n).toUpper = true ∨ (Char.ofNat n).toUpper.isDigit = true := by
    decide +kernel
  have hc := hall c.toNat hascii
  rw [Char.ofNat_toNat] at hc
  exact ⟨c.toUpper, if_pos hascii, hc h⟩

theorem alnumWords_cons_eq (c : Char) (cs : List Char) : alnumWords (c :: cs) =
    if isAlnum c then
      match cs, alnumWords cs with
      | d :: _, w :: ws => if isAlnum d then (c :: w) :: ws else [c] :: w :: ws
      | _, ws => [c] :: ws
    else alnumWords cs := by
  cases cs <;> rfl

/-- A letter or digit begins a word of its own, or it is set in front of the first word. -/
theorem alnumWords_cons {c : Char} (cs : List Char) (h : isAlnum c = true) :
    alnumWords (c :: cs) = [c] :: alnumWords cs ∨
      ∃ word words, alnumWords cs = word :: words ∧
      alnumWords (c :: cs) = (c :: word) :: words := by
  rw [alnumWords_cons_eq, if_pos h]
  split
  · next d ds word words hwords =>
    split
    · exact .inr ⟨word, words, hwords, rfl⟩
    · exact .inl (congrArg ([c] :: ·) hwords.symm)
  · exact .inl rfl

/-- The words of a text are not empty and hold letters and digits alone. -/
theorem isAlnum_of_mem_alnumWords {cs word : List Char} (h : word ∈ alnumWords cs) :
    word ≠ [] ∧ ∀ c ∈ word, isAlnum c = true := by
  induction cs generalizing word with
  | nil => exact absurd h List.not_mem_nil
  | cons c cs ih =>
    by_cases hc : isAlnum c = true
    · rcases alnumWords_cons cs hc with hwords | ⟨first, words, hfirst, hwords⟩
      · rw [hwords] at h
        rcases List.mem_cons.1 h with rfl | h
        · exact ⟨List.cons_ne_nil _ _, fun d hd ↦ List.mem_singleton.1 hd ▸ hc⟩
        · exact ih h
      · rw [hwords] at h
        rw [hfirst] at ih
        rcases List.mem_cons.1 h with rfl | h
        · refine ⟨List.cons_ne_nil _ _, fun d hd ↦ ?_⟩
          rcases List.mem_cons.1 hd with rfl | hd
          exacts [hc, (ih List.mem_cons_self).2 d hd]
        · exact ih (List.mem_cons_of_mem _ h)
    · rw [alnumWords_cons_eq, if_neg hc] at h
      exact ih h

theorem mem_intercalate {words : List (List Char)} {c : Char} (h : c ∈ ['_'].intercalate words) :
    c = '_' ∨ ∃ word ∈ words, c ∈ word := by
  induction words with
  | nil => cases h
  | cons word words ih =>
    cases words with
    | nil => exact .inr ⟨word, List.mem_cons_self, by rwa [List.intercalate_singleton] at h⟩
    | cons next words =>
      rw [List.intercalate_cons_cons, List.mem_append, List.mem_append, List.mem_singleton] at h
      rcases h with (hword | hc) | hrest
      · exact .inr ⟨word, List.mem_cons_self, hword⟩
      · exact .inl hc
      · exact (ih hrest).imp_right fun ⟨w, hw, hc⟩ ↦ ⟨w, List.mem_cons_of_mem _ hw, hc⟩

theorem exists_intercalate_cons (c : Char) (cs : List Char) (words : List (List Char)) :
    ∃ rest, ['_'].intercalate ((c :: cs) :: words) = c :: rest := by
  cases words with
  | nil => exact ⟨cs, List.intercalate_singleton ..⟩
  | cons word words =>
    rw [List.intercalate_cons_cons]
    exact ⟨_, rfl⟩

/-- The characters of member names: capital letters, digits and underscores. -/
def isMemberChar (c : Char) : Bool := isCapital c || c.isDigit || c == '_'

/-- A caption in upper case. -/
def upperWords (caption : String) : List Char :=
  Text.upperList (['_'].intercalate (alnumWords caption.toList))

theorem isMemberChar_upperWords {caption : String} {c : Char} (h : c ∈ upperWords caption) :
    isMemberChar c = true := by
  obtain ⟨d, hd, hc⟩ := List.mem_flatMap.1 h
  rcases mem_intercalate hd with rfl | ⟨word, hword, hdword⟩
  · have hupper : Text.upperChar '_' = ['_'] := by decide +kernel
    rw [hupper, List.mem_singleton] at hc
    rw [hc]
    decide
  · obtain ⟨u, hu, hclass⟩ := upperChar_of_isAlnum ((isAlnum_of_mem_alnumWords hword).2 d hdword)
    rw [hu, List.mem_singleton] at hc
    rw [isMemberChar, hc]
    rcases hclass with hclass | hclass <;> simp [hclass]

/-- What begins a caption in upper case is a capital letter or a digit. -/
theorem head_upperWords {caption : String} {c : Char} {cs : List Char}
    (h : upperWords caption = c :: cs) :
    isCapital c = true ∨ c.isDigit = true := by
  rw [upperWords] at h
  cases hwords : alnumWords caption.toList with
  | nil =>
    rw [hwords] at h
    cases h
  | cons word words =>
    have hword : word ∈ alnumWords caption.toList := hwords ▸ List.mem_cons_self
    obtain ⟨hne, halnum⟩ := isAlnum_of_mem_alnumWords hword
    obtain ⟨d, ds, rfl⟩ := List.exists_cons_of_ne_nil hne
    obtain ⟨rest, hrest⟩ := exists_intercalate_cons d ds words
    obtain ⟨u, hu, hclass⟩ := upperChar_of_isAlnum (halnum d List.mem_cons_self)
    rw [hwords, hrest, Text.upperList, List.flatMap_cons, hu] at h
    cases h
    exact hclass

/-- A member name is made of capital letters, digits and underscores, and begins with a letter. -/
theorem memberName_chars (caption : String) : ∃ c cs, (memberName caption).toList = c :: cs ∧
    isCapital c = true ∧ ∀ d ∈ cs, isMemberChar d = true := by
  rw [memberName, ← upperWords]
  cases hupper : upperWords caption with
  | nil =>
    have hrest : ∀ d ∈ ['N', 'K', 'N', 'O', 'W', 'N'], isMemberChar d = true :=
      List.all_eq_true.1 (by decide)
    exact ⟨'U', _, rfl, by decide, hrest⟩
  | cons c cs =>
    have hall : ∀ d ∈ c :: cs, isMemberChar d = true :=
      fun d hd ↦ isMemberChar_upperWords (hupper ▸ hd)
    dsimp only
    rw [String.toList_ofList]
    split
    · exact ⟨'V', _, rfl, by decide,
        fun d hd ↦ (List.mem_cons.1 hd).elim (fun h ↦ h ▸ by decide) (hall d)⟩
    · next hdigit =>
      have hcapital : isCapital c = true := (head_upperWords hupper).resolve_right hdigit
      exact ⟨c, cs, rfl, hcapital, fun d hd ↦ hall d (List.mem_cons_of_mem _ hd)⟩

/-! ### Identifiers -/

/-- Whether a text of ASCII is an identifier of the generated language: letters, digits and
underscores, no digit at first, and no keyword. -/
def isIdentifier (name : String) : Bool :=
  match name.toList with
  | [] => false
  | c :: cs => (c.isAlpha || c == '_') && cs.all (fun d ↦ d.isAlphanum || d == '_') &&
    !keywords.contains name

theorem isAlpha_of_isCapital {c : Char} (h : isCapital c = true) : c.isAlpha = true := by
  have hupper : c.isUpper = true := by
    unfold Char.isUpper
    simpa only [isCapital, Bool.and_eq_true, decide_eq_true_eq, Char.le_def] using h
  show (c.isUpper || c.isLower) = true
  rw [hupper, Bool.true_or]

theorem isAlphanum_of_isMemberChar {c : Char} (h : isMemberChar c = true) :
    (c.isAlphanum || c == '_') = true := by
  rw [isMemberChar, Bool.or_eq_true, Bool.or_eq_true] at h
  rcases h with (hcapital | hdigit) | hunderscore
  · rw [Char.isAlphanum, isAlpha_of_isCapital hcapital, Bool.true_or, Bool.true_or]
  · rw [Char.isAlphanum, hdigit, Bool.or_true, Bool.true_or]
  · rw [hunderscore, Bool.or_true]

/-- Member characters behind a capital letter are an identifier, as every keyword has a small
letter. -/
theorem isIdentifier_of_isMemberChar {name : String} {c : Char} {cs : List Char}
    (hname : name.toList = c :: cs) (hc : isCapital c = true)
    (hcs : ∀ d ∈ cs, isMemberChar d = true) : isIdentifier name = true := by
  have hkeywords : ∀ word ∈ keywords, word.toList.all isMemberChar = false := by decide +kernel
  have hword : keywords.contains name = false := by
    rw [← Bool.not_eq_true, List.contains_iff_mem]
    intro hmem
    have hall : name.toList.all isMemberChar = true := by
      rw [hname, List.all_cons, isMemberChar, hc, List.all_eq_true.2 hcs]
      rfl
    rw [hkeywords name hmem] at hall
    cases hall
  have hcs' : cs.all (fun d ↦ d.isAlphanum || d == '_') = true :=
    List.all_eq_true.2 fun d hd ↦ isAlphanum_of_isMemberChar (hcs d hd)
  rw [isIdentifier, hname]
  dsimp only
  rw [isAlpha_of_isCapital hc, hcs', hword]
  rfl

theorem isIdentifier_memberName (caption : String) : isIdentifier (memberName caption) = true := by
  obtain ⟨c, cs, hname, hc, hcs⟩ := memberName_chars caption
  exact isIdentifier_of_isMemberChar hname hc hcs

/-! ### Numbers behind names -/

/-- A name with a number behind it. -/
def numberedName (name : String) (n : Int) : String := s!"{name}_{n}"

theorem toList_numberedName (name : String) (n : Int) :
    (numberedName name n).toList = name.toList ++ '_' :: (toString n).toList := by
  have h : numberedName name n = name ++ "_" ++ toString n := rfl
  rw [h, String.toList_append, String.toList_append, List.append_assoc]
  rfl

/-- Two texts are split alike at the last occurrence of a character. -/
theorem eq_of_append_cons_eq {c : Char} {front front' rest rest' : List Char}
    (h : c ∉ rest) (h' : c ∉ rest') (heq : front ++ c :: rest = front' ++ c :: rest') :
    front = front' ∧ rest = rest' := by
  rcases List.append_eq_append_iff.1 heq with ⟨between, rfl, hrest⟩ | ⟨between, rfl, hrest⟩
  · cases between with
    | nil => exact ⟨(List.append_nil _).symm, (List.cons.inj hrest).2⟩
    | cons d between =>
      refine absurd ?_ h
      rw [(List.cons.inj hrest).2]
      exact List.mem_append_right _ List.mem_cons_self
  · cases between with
    | nil => exact ⟨List.append_nil _, (List.cons.inj hrest).2.symm⟩
    | cons d between =>
      refine absurd ?_ h'
      rw [(List.cons.inj hrest).2]
      exact List.mem_append_right _ List.mem_cons_self

/-- From a name with a number behind it both can be told again. -/
theorem numberedName_inj {a b : String} {m n : Int} (h : numberedName a m = numberedName b n) :
    a = b ∧ m = n := by
  have hchars := congrArg String.toList h
  rw [toList_numberedName, toList_numberedName] at hchars
  -- the number is what follows the last underscore
  obtain ⟨hname, hnumber⟩ :=
    eq_of_append_cons_eq (underscore_not_mem_toString m) (underscore_not_mem_toString n) hchars
  exact ⟨String.toList_inj.1 hname, toString_inj (String.toList_inj.1 hnumber)⟩

/-- A member name with a number behind it is an identifier unless the number is negative. -/
theorem isIdentifier_numberedName (caption : String) (n : Int) :
    isIdentifier (numberedName (memberName caption) n) = true ↔ 0 ≤ n := by
  obtain ⟨c, cs, hname, hc, hcs⟩ := memberName_chars caption
  have hchars :
      (numberedName (memberName caption) n).toList = c :: (cs ++ '_' :: (toString n).toList) := by
    rw [toList_numberedName, hname, List.cons_append]
  cases n with
  | ofNat n =>
    refine iff_of_true (isIdentifier_of_isMemberChar hchars hc fun d hd ↦ ?_) (Int.natCast_nonneg n)
    rcases List.mem_append.1 hd with hd | hd
    · exact hcs d hd
    · rcases List.mem_cons.1 hd with rfl | hd
      · decide
      · rw [toList_toString_ofNat] at hd
        rw [isMemberChar, Nat.isDigit_of_mem_toDigits (by decide) (by decide) hd, Bool.or_true,
          Bool.true_or]
  | negSucc n =>
    refine iff_of_false (fun hidentifier ↦ ?_) (Int.negSucc_not_nonneg n).1
    -- the sign is no character of identifiers
    have hsign : '-' ∈ cs ++ '_' :: (toString (Int.negSucc n)).toList := by
      rw [toList_toString_negSucc]
      exact List.mem_append_right _ (List.mem_cons_of_mem _ List.mem_cons_self)
    rw [isIdentifier, hchars] at hidentifier
    dsimp only at hidentifier
    rw [Bool.and_eq_true, Bool.and_eq_true, List.all_eq_true] at hidentifier
    exact absurd (hidentifier.1.2 '-' hsign) (by decide)

end EventSchema.Identifier

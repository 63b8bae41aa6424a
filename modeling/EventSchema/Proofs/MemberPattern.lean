import Mathlib.Computability.Language
import EventSchema.Proofs.MemberNames

/-!
# The pattern of member names

Member names are the texts that match `[A-Z][A-Z0-9]*(_[A-Z0-9]+)*` in full (`memberPattern`). That
is to say they are words of capital letters and digits with single underscores between them, the
first word beginning with a letter (`mem_memberPattern_iff`). Such words are found again in the
name, and none of them changes in upper case, so a member name is its own member name
(`memberName_of_mem`).
-/

open scoped Computability

namespace EventSchema.Identifier

variable {c : Char} {cs name text word : List Char} {words : List (List Char)} {p : Char → Bool}

/-! ### The pattern -/

/-- Whether a character is a capital letter or a digit of ASCII. -/
def isCapitalOrDigit (c : Char) : Bool := isCapital c || c.isDigit

/-- The texts of one character of a class. -/
def oneOf (p : Char → Bool) : Language Char := {text | ∃ c, p c = true ∧ text = [c]}

/-- The texts that match `[A-Z][A-Z0-9]*(_[A-Z0-9]+)*` in full. -/
def memberPattern : Language Char :=
  oneOf isCapital * (oneOf isCapitalOrDigit)∗ *
    (oneOf (· == '_') * (oneOf isCapitalOrDigit * (oneOf isCapitalOrDigit)∗))∗

/-- Words of capital letters and digits, the first of which begins with a letter. -/
structure AreMemberWords (words : List (List Char)) : Prop where
  ne_nil : ∀ word ∈ words, word ≠ []
  chars : ∀ word ∈ words, ∀ c ∈ word, isCapitalOrDigit c = true
  head : ∃ c, (words.head?.bind List.head?) = some c ∧ isCapital c = true

theorem mem_oneOf_mul {l : Language Char} :
    text ∈ oneOf p * l ↔ ∃ c rest, text = c :: rest ∧ p c = true ∧ rest ∈ l := by
  rw [Language.mem_mul]
  constructor
  · rintro ⟨_, ⟨c, hc, rfl⟩, rest, hrest, rfl⟩
    exact ⟨c, rest, rfl, hc, hrest⟩
  · rintro ⟨c, rest, rfl, hc, hrest⟩
    exact ⟨[c], ⟨c, hc, rfl⟩, rest, hrest, rfl⟩

/-- Repeating a class of characters gives the texts of its characters. -/
theorem mem_kstar_oneOf : text ∈ (oneOf p)∗ ↔ ∀ c ∈ text, p c = true := by
  rw [Language.mem_kstar]
  constructor
  · rintro ⟨pieces, rfl, hpieces⟩ c hc
    obtain ⟨piece, hpiece, hmem⟩ := List.mem_flatten.1 hc
    obtain ⟨d, hd, rfl⟩ := hpieces piece hpiece
    exact List.mem_singleton.1 hmem ▸ hd
  · intro htext
    refine ⟨text.map ([·]), (List.flatMap_singleton' text).symm, fun piece hpiece ↦ ?_⟩
    obtain ⟨c, hc, rfl⟩ := List.mem_map.1 hpiece
    exact ⟨c, htext c hc, rfl⟩

/-- A class of characters repeated at least once gives the texts of its characters that are not
empty. -/
theorem mem_oneOf_mul_kstar : text ∈ oneOf p * (oneOf p)∗ ↔ text ≠ [] ∧ ∀ c ∈ text, p c = true := by
  rw [mem_oneOf_mul]
  constructor
  · rintro ⟨c, rest, rfl, hc, hrest⟩
    exact ⟨List.cons_ne_nil c rest, List.forall_mem_cons.2 ⟨hc, mem_kstar_oneOf.1 hrest⟩⟩
  · rintro ⟨hne, htext⟩
    obtain ⟨c, rest, rfl⟩ := List.exists_cons_of_ne_nil hne
    obtain ⟨hc, hrest⟩ := List.forall_mem_cons.1 htext
    exact ⟨c, rest, rfl, hc, mem_kstar_oneOf.2 hrest⟩

/-- Joined words are the first one and the others with an underscore before each. -/
theorem intercalate_cons_eq (word : List Char) (words : List (List Char)) :
    ['_'].intercalate (word :: words) = word ++ words.flatMap ('_' :: ·) := by
  induction words generalizing word with
  | nil => rw [List.intercalate_singleton, List.flatMap_nil, List.append_nil]
  | cons next words ih =>
    rw [List.intercalate_cons_cons, ih, List.flatMap_cons, List.append_assoc]
    rfl

/-- Joined member words begin with a capital letter. -/
theorem AreMemberWords.exists_intercalate_eq (h : AreMemberWords words) :
    ∃ c cs, ['_'].intercalate words = c :: cs ∧ isCapital c = true := by
  obtain ⟨c, hhead, hc⟩ := h.head
  cases words with
  | nil => cases hhead
  | cons word words =>
    obtain ⟨cs, rfl⟩ := List.head?_eq_some_iff.1 hhead
    obtain ⟨rest, hrest⟩ := exists_intercalate_cons c cs words
    exact ⟨c, rest, hrest, hc⟩

/-- The pattern is matched by joined words. -/
theorem mem_memberPattern_iff :
    text ∈ memberPattern ↔ ∃ words, AreMemberWords words ∧ text = ['_'].intercalate words := by
  rw [memberPattern, Language.mem_mul]
  constructor
  · rintro ⟨first, hfirst, rest, hrest, rfl⟩
    obtain ⟨c, cs, rfl, hc, hcs⟩ := mem_oneOf_mul.1 hfirst
    obtain ⟨pieces, rfl, hpieces⟩ := Language.mem_kstar.1 hrest
    have hpiece (piece : List Char) (h : piece ∈ pieces) :
        piece = '_' :: piece.tail ∧ piece.tail ≠ [] ∧ ∀ d ∈ piece.tail,
        isCapitalOrDigit d = true := by
      obtain ⟨d, word, rfl, hd, hword⟩ := mem_oneOf_mul.1 (hpieces piece h)
      rw [beq_iff_eq.1 hd]
      exact ⟨rfl, mem_oneOf_mul_kstar.1 hword⟩
    have hcapital : isCapitalOrDigit c = true := by rw [isCapitalOrDigit, hc, Bool.true_or]
    refine ⟨(c :: cs) :: pieces.map List.tail, ⟨?_, ?_, ⟨c, rfl, hc⟩⟩, ?_⟩
    · rw [List.forall_mem_cons, List.forall_mem_map]
      exact ⟨List.cons_ne_nil c cs, fun piece h ↦ (hpiece piece h).2.1⟩
    · rw [List.forall_mem_cons, List.forall_mem_map, List.forall_mem_cons]
      exact ⟨⟨hcapital, mem_kstar_oneOf.1 hcs⟩, fun piece h ↦ (hpiece piece h).2.2⟩
    · rw [intercalate_cons_eq, List.flatMap_map, List.flatten_eq_flatMap]
      exact congrArg (c :: cs ++ ·) (List.flatMap_congr fun piece h ↦ (hpiece piece h).1)
  · rintro ⟨words, ⟨hne, hchars, c, hhead, hc⟩, rfl⟩
    cases words with
    | nil => cases hhead
    | cons first words =>
      obtain ⟨hfirst, hwords⟩ := List.forall_mem_cons.1 hchars
      obtain ⟨cs, rfl⟩ := List.head?_eq_some_iff.1 hhead
      refine ⟨c :: cs,
        mem_oneOf_mul.2 ⟨c, cs, rfl, hc, mem_kstar_oneOf.2 (List.forall_mem_cons.1 hfirst).2⟩,
        words.flatMap ('_' :: ·),
        Language.mem_kstar.2 ⟨words.map ('_' :: ·), rfl, fun piece hpiece ↦ ?_⟩,
        (intercalate_cons_eq _ _).symm⟩
      obtain ⟨word, hword, rfl⟩ := List.mem_map.1 hpiece
      exact mem_oneOf_mul.2 ⟨'_', word, rfl, rfl,
        mem_oneOf_mul_kstar.2 ⟨hne word (List.mem_cons_of_mem _ hword), hwords word hword⟩⟩

/-! ### Words in upper case -/

theorem upperList_append (cs ds : List Char) :
    Text.upperList (cs ++ ds) = Text.upperList cs ++ Text.upperList ds :=
  List.flatMap_append

theorem upperList_intercalate (words : List (List Char)) :
    Text.upperList (['_'].intercalate words) = ['_'].intercalate (words.map Text.upperList) := by
  induction words with
  | nil => rfl
  | cons word words ih =>
    cases words with
    | nil => rw [List.map_singleton, List.intercalate_singleton, List.intercalate_singleton]
    | cons next words =>
      have hunderscore : Text.upperList ['_'] = ['_'] := by decide +kernel
      rw [List.map_cons, List.map_cons, List.intercalate_cons_cons, List.intercalate_cons_cons,
        upperList_append, upperList_append, hunderscore, ih, List.map_cons]

/-- What a capital letter or digit is besides. -/
structure Upper (c : Char) : Prop where
  alnum : isAlnum c = true
  upperChar : Text.upperChar c = [c]
  ne_underscore : c ≠ '_'
  not_digit : isCapital c = true → c.isDigit = false

theorem upper_of_isCapitalOrDigit (h : isCapitalOrDigit c = true) : Upper c := by
  have hascii : c.toNat < 128 := by
    have h90 : c.val.toNat ≤ 90 := by
      rw [isCapitalOrDigit, Bool.or_eq_true, isCapital, Bool.and_eq_true, decide_eq_true_eq,
        decide_eq_true_eq, Char.isDigit, Bool.and_eq_true, decide_eq_true_eq,
        decide_eq_true_eq] at h
      rcases h with ⟨-, h⟩ | ⟨-, h⟩
      · exact UInt32.le_iff_toNat_le.1 h
      · exact Nat.le_trans (UInt32.le_iff_toNat_le.1 h) (by decide)
    exact Nat.lt_of_le_of_lt h90 (by decide)
  have hall : ∀ n < 128, isCapitalOrDigit (Char.ofNat n) = true →
      isAlnum (Char.ofNat n) = true ∧ (Char.ofNat n).toUpper = Char.ofNat n ∧ Char.ofNat n ≠ '_' ∧
      (isCapital (Char.ofNat n) = true → (Char.ofNat n).isDigit = false) := by decide +kernel
  have hc := hall c.toNat hascii
  rw [Char.ofNat_toNat] at hc
  obtain ⟨halnum, hupper, hne, hdigit⟩ := hc h
  exact ⟨halnum, (if_pos hascii).trans (congrArg ([·]) hupper), hne, hdigit⟩

/-- In upper case a word of letters and digits is a word of capital letters and digits. -/
theorem upperList_of_isAlnum (hne : word ≠ []) (h : ∀ c ∈ word, isAlnum c = true) :
    Text.upperList word ≠ [] ∧ ∀ c ∈ Text.upperList word, isCapitalOrDigit c = true := by
  constructor
  · obtain ⟨c, cs, rfl⟩ := List.exists_cons_of_ne_nil hne
    obtain ⟨u, hu, -⟩ := upperChar_of_isAlnum (h c List.mem_cons_self)
    rw [Text.upperList, List.flatMap_cons, hu]
    exact List.cons_ne_nil _ _
  · intro c hc
    obtain ⟨d, hd, hc⟩ := List.mem_flatMap.1 hc
    obtain ⟨u, hu, hclass⟩ := upperChar_of_isAlnum (h d hd)
    rw [hu, List.mem_singleton] at hc
    rw [hc, isCapitalOrDigit, Bool.or_eq_true]
    exact hclass

theorem upperList_eq_self (h : ∀ c ∈ word, isCapitalOrDigit c = true) :
    Text.upperList word = word :=
  (List.flatMap_congr fun c hc ↦ (upper_of_isCapitalOrDigit (h c hc)).upperChar).trans
    (List.flatMap_singleton' word)

/-! ### Words found again -/

/-- A word before something else is found. -/
theorem alnumWords_append {rest : List Char} (hne : word ≠ [])
    (hword : ∀ c ∈ word, isAlnum c = true) (hrest : rest.head?.any isAlnum = false) :
    alnumWords (word ++ rest) = word :: alnumWords rest := by
  induction word with
  | nil => exact absurd rfl hne
  | cons c word ih =>
    obtain ⟨hc, hword⟩ := List.forall_mem_cons.1 hword
    rw [List.cons_append, alnumWords_cons_eq, if_pos hc]
    cases word with
    | nil =>
      cases rest with
      | nil => rfl
      | cons d rest =>
        have hd : ¬isAlnum d = true := ne_true_of_eq_false hrest
        rw [List.nil_append]
        split
        · next heq hwords =>
          rw [← (List.cons.inj heq).1, if_neg hd, hwords]
        · rfl
    | cons d word =>
      rw [ih (List.cons_ne_nil _ _) hword]
      exact if_pos (hword d List.mem_cons_self)

/-- The words of joined words are the words. -/
theorem alnumWords_intercalate (hne : ∀ word ∈ words, word ≠ [])
    (h : ∀ word ∈ words, ∀ c ∈ word, isAlnum c = true) :
    alnumWords (['_'].intercalate words) = words := by
  induction words with
  | nil => rfl
  | cons word words ih =>
    obtain ⟨hword, hwords⟩ := List.forall_mem_cons.1 h
    obtain ⟨hwordNe, hwordsNe⟩ := List.forall_mem_cons.1 hne
    cases words with
    | nil =>
      rw [List.intercalate_singleton]
      exact (congrArg alnumWords (List.append_nil word).symm).trans
        (alnumWords_append hwordNe hword rfl)
    | cons next words =>
      have hunderscore : ¬isAlnum '_' = true := by decide
      rw [List.intercalate_cons_cons, List.append_assoc, alnumWords_append hwordNe hword rfl,
        List.singleton_append, alnumWords_cons_eq, if_neg hunderscore, ih hwordsNe hwords]

/-- A member name is made of member words. -/
theorem exists_memberWords (caption : String) :
    ∃ words, AreMemberWords words ∧ (memberName caption).toList = ['_'].intercalate words := by
  rw [memberName, ← upperWords]
  have hupper :
      upperWords caption = ['_'].intercalate ((alnumWords caption.toList).map Text.upperList) :=
    upperList_intercalate _
  have hwords : ∀ word ∈ (alnumWords caption.toList).map Text.upperList,
      word ≠ [] ∧ ∀ c ∈ word, isCapitalOrDigit c = true := by
    rw [List.forall_mem_map]
    exact fun word hword ↦ (isAlnum_of_mem_alnumWords hword).elim upperList_of_isAlnum
  generalize (alnumWords caption.toList).map Text.upperList = words at hupper hwords
  cases hchars : upperWords caption with
  | nil =>
    have hunknown : ∀ c ∈ ['U', 'N', 'K', 'N', 'O', 'W', 'N'], isCapitalOrDigit c = true :=
      List.all_eq_true.1 (by decide)
    exact ⟨[['U', 'N', 'K', 'N', 'O', 'W', 'N']],
      ⟨by simp, by simpa using hunknown, 'U', rfl, rfl⟩, rfl⟩
  | cons c cs =>
    obtain ⟨first, rest, rfl⟩ : ∃ first rest, words = first :: rest := by
      refine List.exists_cons_of_ne_nil fun hnil ↦ ?_
      rw [hupper, hnil] at hchars
      cases hchars
    obtain ⟨d, ds, rfl⟩ := List.exists_cons_of_ne_nil (hwords first List.mem_cons_self).1
    obtain ⟨more, hmore⟩ := exists_intercalate_cons d ds rest
    have hhead : d = c := by
      rw [hupper, hmore] at hchars
      exact (List.cons.inj hchars).1
    subst hhead
    dsimp only
    rw [String.toList_ofList, ← hchars, hupper]
    split
    · refine ⟨['V'] :: (d :: ds) :: rest, ⟨?_, ?_, 'V', rfl, rfl⟩, ?_⟩
      · exact List.forall_mem_cons.2 ⟨by decide, fun word hword ↦ (hwords word hword).1⟩
      · exact List.forall_mem_cons.2 ⟨by simp [isCapitalOrDigit, isCapital],
          fun word hword ↦ (hwords word hword).2⟩
      · rfl
    · next hdigit =>
      have hd := (hwords _ List.mem_cons_self).2 d List.mem_cons_self
      rw [isCapitalOrDigit, Bool.or_eq_true] at hd
      exact ⟨_,
        ⟨fun word hword ↦ (hwords word hword).1, fun word hword ↦ (hwords word hword).2, d, rfl,
        hd.resolve_right hdigit⟩, rfl⟩

/-- A text that matches the pattern is its own member name. -/
theorem memberName_of_mem {name : String} (h : name.toList ∈ memberPattern) :
    memberName name = name := by
  obtain ⟨words, hwords, hname⟩ := mem_memberPattern_iff.1 h
  have hupper : words.map Text.upperList = words :=
    (List.map_congr_left fun word hword ↦ upperList_eq_self (hwords.chars word hword)).trans
      (List.map_id words)
  have halnum : ∀ word ∈ words, ∀ c ∈ word, isAlnum c = true := fun word hword c hc ↦
    (upper_of_isCapitalOrDigit (hwords.chars word hword c hc)).alnum
  rw [memberName, hname, alnumWords_intercalate hwords.ne_nil halnum, upperList_intercalate,
    hupper, ← hname]
  obtain ⟨c, cs, hchars, hc⟩ := hwords.exists_intercalate_eq
  have hdigit : ¬c.isDigit = true := by
    rw [(upper_of_isCapitalOrDigit (by rw [isCapitalOrDigit, hc, Bool.true_or])).not_digit hc]
    exact Bool.false_ne_true
  rw [hname.trans hchars]
  dsimp only
  rw [if_neg hdigit, ← hname.trans hchars, String.ofList_toList]

/-! ### Underscores -/

/-- Joined words do not end in an underscore. -/
theorem getLast?_intercalate (hne : ∀ word ∈ words, word ≠ []) (h : ∀ word ∈ words, '_' ∉ word) :
    (['_'].intercalate words).getLast? ≠ some '_' := by
  induction words with
  | nil => nofun
  | cons word words ih =>
    obtain ⟨hword, hwords⟩ := List.forall_mem_cons.1 h
    obtain ⟨-, hwordsNe⟩ := List.forall_mem_cons.1 hne
    cases words with
    | nil =>
      rw [List.intercalate_singleton]
      exact fun hlast ↦ hword (List.mem_of_getLast? hlast)
    | cons next words =>
      obtain ⟨d, ds, rfl⟩ := List.exists_cons_of_ne_nil (hwordsNe next List.mem_cons_self)
      obtain ⟨rest, hrest⟩ := exists_intercalate_cons d ds words
      rw [List.intercalate_cons_cons,
        List.getLast?_append_of_ne_nil _ (hrest ▸ List.cons_ne_nil d rest)]
      exact ih hwordsNe hwords

theorem not_doubled_append {rest : List Char} (hword : '_' ∉ word) (hhead : rest.head? ≠ some '_')
    (hrest : ¬['_', '_'] <:+: rest) : ¬['_', '_'] <:+: word ++ '_' :: rest := by
  induction word with
  | nil =>
    rw [List.nil_append, List.infix_cons_iff, List.cons_prefix_cons]
    rintro (⟨-, hlead⟩ | hinside)
    · obtain ⟨more, rfl⟩ := hlead
      exact hhead rfl
    · exact hrest hinside
  | cons c word ih =>
    obtain ⟨hc, hword⟩ := not_or.1 (mt List.mem_cons.2 hword)
    rw [List.cons_append, List.infix_cons_iff, List.cons_prefix_cons]
    exact not_or.2 ⟨fun hlead ↦ hc hlead.1, ih hword⟩

/-- Joined words have no two underscores next to each other. -/
theorem not_doubled_intercalate (hne : ∀ word ∈ words, word ≠ []) (h : ∀ word ∈ words, '_' ∉ word) :
    ¬['_', '_'] <:+: ['_'].intercalate words := by
  induction words with
  | nil => exact fun hinside ↦ nomatch List.infix_nil.1 hinside
  | cons word words ih =>
    obtain ⟨hword, hwords⟩ := List.forall_mem_cons.1 h
    obtain ⟨-, hwordsNe⟩ := List.forall_mem_cons.1 hne
    cases words with
    | nil =>
      rw [List.intercalate_singleton]
      exact fun hinside ↦ hword (hinside.subset List.mem_cons_self)
    | cons next words =>
      obtain ⟨d, ds, rfl⟩ := List.exists_cons_of_ne_nil (hwordsNe next List.mem_cons_self)
      obtain ⟨rest, hrest⟩ := exists_intercalate_cons d ds words
      rw [List.intercalate_cons_cons, List.append_assoc, List.singleton_append]
      refine not_doubled_append hword (fun hhead ↦ ?_) (ih hwordsNe hwords)
      rw [hrest, List.head?_cons, Option.some.injEq] at hhead
      exact hwords _ List.mem_cons_self (hhead ▸ List.mem_cons_self)

/-! ### Member names -/

/-- A name that matches the pattern in full. So it is an identifier, does not begin with an
underscore or a digit, does not end in an underscore, and has no two underscores next to each
other. -/
structure IsMemberName (name : String) : Prop where
  mem_pattern : name.toList ∈ memberPattern
  identifier : isIdentifier name = true
  head : ∃ c cs, name.toList = c :: cs ∧ c ≠ '_' ∧ c.isDigit = false
  last : name.toList.getLast? ≠ some '_'
  not_doubled : ¬['_', '_'] <:+: name.toList

/-- **The names of members.** For every caption the member name matches the pattern, and it is its
own member name. -/
theorem isMemberName_memberName (caption : String) :
    IsMemberName (memberName caption) ∧ memberName (memberName caption) = memberName caption := by
  obtain ⟨words, hwords, hname⟩ := exists_memberWords caption
  have hmem : (memberName caption).toList ∈ memberPattern :=
    mem_memberPattern_iff.2 ⟨words, hwords, hname⟩
  have hunderscore : ∀ word ∈ words, '_' ∉ word := fun word hword hmem ↦
    (upper_of_isCapitalOrDigit (hwords.chars word hword _ hmem)).ne_underscore rfl
  obtain ⟨c, cs, hchars, hc⟩ := hwords.exists_intercalate_eq
  have hupper := upper_of_isCapitalOrDigit
    (by rw [isCapitalOrDigit, hc, Bool.true_or] : isCapitalOrDigit c = true)
  refine ⟨⟨hmem, isIdentifier_memberName caption, ?_, ?_, ?_⟩, memberName_of_mem hmem⟩
  · exact ⟨c, cs, hname.trans hchars, hupper.ne_underscore, hupper.not_digit hc⟩
  · rw [hname]
    exact getLast?_intercalate hwords.ne_nil hunderscore
  · rw [hname]
    exact not_doubled_intercalate hwords.ne_nil hunderscore

end EventSchema.Identifier

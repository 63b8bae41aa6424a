import EventSchema.Proofs.MemberNames

/-!
# Names and the module names of their classes

A plain name is made of words of small letters and digits with single underscores between them. Its
class name joins the words with capitals, and the file name of the class takes them apart again, but
not everywhere: an underscore comes back where the next word begins with a letter, and behind a
single letter only if the next word goes on with a letter (`comesBack`). So the file name is the
plain name without the other underscores (`PlainName.toList_fileName_typeName`).

Each step on the way is a way of joining the words (`joinedWhere`): the underscores before capitals
are set behind all words but single letters, and those within rows of capitals behind single
letters.
-/

namespace EventSchema.Identifier

variable {c d : Char} {cs rest word next : List Char} {words : List (List Char)}

/-! ### Plain names -/

/-- Whether a character may stand in a word of a plain name: small letters and digits. -/
def isWordChar (c : Char) : Bool := isSmall c || c.isDigit

/-- A word of a plain name. -/
structure IsPlainWord (word : List Char) : Prop where
  ne_nil : word ≠ []
  chars : ∀ c ∈ word, isWordChar c = true

instance (word : List Char) : Decidable (IsPlainWord word) :=
  decidable_of_iff (word ≠ [] ∧ word.all isWordChar = true)
    ⟨fun h ↦ ⟨h.1, List.all_eq_true.1 h.2⟩, fun h ↦ ⟨h.ne_nil, List.all_eq_true.2 h.chars⟩⟩

/-- A name of words with single underscores between them. -/
structure PlainName where
  /-- The words, first to last. -/
  words : List (List Char)
  ne_nil : words ≠ []
  plain : ∀ word ∈ words, IsPlainWord word

/-- The name itself. -/
def PlainName.text (n : PlainName) : String := String.ofList (['_'].intercalate n.words)

/-- Whether a word is a single letter. -/
def isSingleLetter : List Char → Bool
  | [c] => isSmall c
  | _ => false

/-- Whether the underscore between two words comes back: the second begins with a letter, and if the
first is a single letter, the second goes on with a letter. -/
def comesBack (word next : List Char) : Bool :=
  next.head?.any isSmall && (!isSingleLetter word || next[1]?.any isSmall)

/-- The first text is the second one with some underscores left out. -/
inductive LeavesOut : List Char → List Char → Prop where
  /-- Nothing is left. -/
  | nil : LeavesOut [] []
  /-- A character stays. -/
  | keep (c : Char) {short long : List Char} (h : LeavesOut short long) :
      LeavesOut (c :: short) (c :: long)
  /-- An underscore is left out. -/
  | drop {short long : List Char} (h : LeavesOut short long) : LeavesOut short ('_' :: long)

/-- A text without its underscores. -/
def withoutUnderscores (s : String) : List Char := s.toList.filter (· ≠ '_')

/-! ### Letters and digits -/

/-- What the cases of a character of plain names are. -/
structure Cased (c : Char) : Prop where
  ascii : c.toNat < 128
  ascii_toUpper : c.toUpper.toNat < 128
  toLower : c.toLower = c
  toLower_toUpper : c.toUpper.toLower = c
  not_capital : isCapital c = false
  ne_underscore : c ≠ '_'
  isCapital_toUpper : isCapital c.toUpper = isSmall c
  isSmall_toUpper : isSmall c.toUpper = false
  isWordChar_toUpper : isWordChar c.toUpper = !isSmall c

/-- Word characters are plain. -/
theorem ascii_of_isWordChar (h : isWordChar c = true) : c.toNat < 128 := by
  rw [isWordChar, Bool.or_eq_true, isSmall, Bool.and_eq_true, decide_eq_true_eq, decide_eq_true_eq,
    Char.isDigit, Bool.and_eq_true, decide_eq_true_eq, decide_eq_true_eq] at h
  have h122 : c.val.toNat ≤ 122 := by
    rcases h with ⟨-, h⟩ | ⟨-, h⟩
    · exact UInt32.le_iff_toNat_le.1 h
    · exact Nat.le_trans (UInt32.le_iff_toNat_le.1 h) (by decide)
  exact Nat.lt_of_le_of_lt h122 (by decide)

theorem cased_of_isWordChar (h : isWordChar c = true) : Cased c := by
  have hascii := ascii_of_isWordChar h
  have hall : ∀ n < 128, isWordChar (Char.ofNat n) = true →
      (Char.ofNat n).toUpper.toNat < 128 ∧ (Char.ofNat n).toLower = Char.ofNat n ∧
      (Char.ofNat n).toUpper.toLower = Char.ofNat n ∧ isCapital (Char.ofNat n) = false ∧
      Char.ofNat n ≠ '_' ∧
      isCapital (Char.ofNat n).toUpper = isSmall (Char.ofNat n) ∧
      isSmall (Char.ofNat n).toUpper = false ∧
      isWordChar (Char.ofNat n).toUpper = !isSmall (Char.ofNat n) := by decide +kernel
  have hc := hall c.toNat hascii
  rw [Char.ofNat_toNat] at hc
  obtain ⟨hascii', hlower, hupper, hcapital, hne, hcapital', hsmall', hword'⟩ := hc h
  exact ⟨hascii, hascii', hlower, hupper, hcapital, hne, hcapital', hsmall', hword'⟩

/-- No underscore is in a word of a plain name. -/
theorem IsPlainWord.underscore_not_mem (h : IsPlainWord word) : '_' ∉ word := fun hmem ↦
  (cased_of_isWordChar (h.chars _ hmem)).ne_underscore rfl

/-- A word of a plain name has a first character, and word characters behind it. -/
theorem IsPlainWord.exists_cons (h : IsPlainWord word) :
    ∃ c cs, word = c :: cs ∧ isWordChar c = true ∧ ∀ d ∈ cs, isWordChar d = true := by
  obtain ⟨c, cs, rfl⟩ := List.exists_cons_of_ne_nil h.ne_nil
  exact ⟨c, cs, rfl, h.chars c List.mem_cons_self, fun d hd ↦ h.chars d (List.mem_cons_of_mem c hd)⟩

/-- Only the first character of a word changes with the capital. -/
theorem capitalize_cons (hc : isWordChar c = true) (hcs : ∀ d ∈ cs, isWordChar d = true) :
    capitalize (c :: cs) = c.toUpper :: cs := by
  have hupper : Text.upperChar c = [c.toUpper] := if_pos (ascii_of_isWordChar hc)
  have hlower : Text.lowerList cs = cs := by
    rw [Text.lowerList_of_isAscii fun d hd ↦ ascii_of_isWordChar (hcs d hd)]
    exact (List.map_congr_left fun d hd ↦ (cased_of_isWordChar (hcs d hd)).toLower).trans
      (List.map_id cs)
  rw [capitalize, hupper, hlower, List.singleton_append]

/-! ### Words that are joined -/

/-- Words in some form, one after another, with an underscore between two of them where a condition
holds. -/
def joinedWhere (p : List Char → List Char → Bool) (form : List Char → List Char) :
    List (List Char) → List Char
  | [] => []
  | word :: words =>
    form word ++
      if words.head?.any (p word) then '_' :: joinedWhere p form words else joinedWhere p form words

/-- The underscore between two words is set where the condition holds. -/
theorem joinedWhere_cons_cons (p : List Char → List Char → Bool) (form : List Char → List Char)
    (word next : List Char) (words : List (List Char)) :
    joinedWhere p form (word :: next :: words) =
      form word ++ if p word next then '_' :: joinedWhere p form (next :: words)
        else joinedWhere p form (next :: words) := rfl

/-- With underscores everywhere words are joined by underscores. -/
theorem joinedWhere_always (words : List (List Char)) :
    joinedWhere (fun _ _ ↦ true) id words = ['_'].intercalate words := by
  induction words with
  | nil => rfl
  | cons word words ih =>
    cases words with
    | nil =>
      rw [List.intercalate_singleton]
      exact List.append_nil word
    | cons next words =>
      rw [List.intercalate_cons_cons, ← ih, List.append_assoc]
      rfl

/-- Where no underscore is set before the words that follow a word, it is left out. -/
theorem leavesOut_append (word : List Char) {short long : List Char} (h : LeavesOut short long) :
    LeavesOut (word ++ short) (word ++ long) := by
  induction word with
  | nil => exact h
  | cons c word ih => exact .keep c ih

/-- Fewer conditions that hold leave out underscores. -/
theorem leavesOut_joinedWhere (p : List Char → List Char → Bool) (words : List (List Char)) :
    LeavesOut (joinedWhere p id words) (joinedWhere (fun _ _ ↦ true) id words) := by
  induction words with
  | nil => exact .nil
  | cons word words ih =>
    refine leavesOut_append word ?_
    cases words with
    | nil => exact .nil
    | cons next words =>
      rw [List.head?_cons, Option.any_some, Option.any_some, if_pos rfl]
      split
      · exact .keep '_' ih
      · exact .drop ih

/-- Texts that differ in underscores left out are the same without underscores. -/
theorem LeavesOut.filter_eq {short long : List Char} (h : LeavesOut short long) :
    short.filter (· ≠ '_') = long.filter (· ≠ '_') := by
  induction h with
  | nil => rfl
  | keep c h ih => rw [List.filter_cons, List.filter_cons, ih]
  | drop h ih => rw [ih, List.filter_cons_of_neg (by decide)]

/-! ### Class names -/

/-- A word is its own segment. -/
theorem segments_of_not_mem (h : '_' ∉ word) : segments word = [word] := by
  induction word with
  | nil => rfl
  | cons c word ih =>
    obtain ⟨hc, hword⟩ := not_or.1 (mt List.mem_cons.2 h)
    rw [segments, if_neg (Ne.symm hc), ih hword]

/-- An underscore ends a segment. -/
theorem segments_append_underscore (h : '_' ∉ word) (rest : List Char) :
    segments (word ++ '_' :: rest) = word :: segments rest := by
  induction word with
  | nil => exact if_pos rfl
  | cons c word ih =>
    obtain ⟨hc, hword⟩ := not_or.1 (mt List.mem_cons.2 h)
    rw [List.cons_append, segments, if_neg (Ne.symm hc), ih hword]

/-- The segments of words that are joined are the words. -/
theorem segments_intercalate (hne : words ≠ []) (h : ∀ word ∈ words, '_' ∉ word) :
    segments (['_'].intercalate words) = words := by
  induction words with
  | nil => exact absurd rfl hne
  | cons word words ih =>
    obtain ⟨hword, hwords⟩ := List.forall_mem_cons.1 h
    cases words with
    | nil => rw [List.intercalate_singleton, segments_of_not_mem hword]
    | cons next words =>
      rw [List.intercalate_cons_cons, List.append_assoc, List.singleton_append,
        segments_append_underscore hword, ih (List.cons_ne_nil _ _) hwords]

/-- A plain name has no leading underscores. -/
theorem dropUnderscores_intercalate (h : ∀ word ∈ words, IsPlainWord word) :
    dropUnderscores (['_'].intercalate words) = ['_'].intercalate words := by
  cases words with
  | nil => rfl
  | cons word words =>
    obtain ⟨c, cs, rfl, hc, -⟩ := (h word List.mem_cons_self).exists_cons
    obtain ⟨rest, hrest⟩ := exists_intercalate_cons c cs words
    rw [hrest]
    exact List.dropWhile_cons_of_neg
      (by rw [beq_iff_eq]; exact (cased_of_isWordChar hc).ne_underscore)

/-- The class of a plain name has its words capitalized, one after another. -/
theorem PlainName.toList_typeName (n : PlainName) :
    (typeName n.text).toList = n.words.flatMap capitalize := by
  rw [typeName, text, String.toList_ofList, String.toList_ofList,
    dropUnderscores_intercalate n.plain, segments_intercalate n.ne_nil fun word hword ↦
      (n.plain word hword).underscore_not_mem]

/-! ### Underscores before capitals -/

theorem splitBeforeCapitals_cons (c : Char) (cs : List Char) : splitBeforeCapitals (c :: cs) =
    if isWordChar c && cs.head?.any isCapital then c :: '_' :: splitBeforeCapitals cs
    else c :: splitBeforeCapitals cs := by
  cases cs with
  | nil => rw [List.head?_nil, Option.any_none, Bool.and_false]; rfl
  | cons d cs => rfl

/-- Whether an underscore is set behind a word before the next one begins with a capital. -/
def parts (word next : List Char) : Bool := !isSingleLetter word && next.head?.any isSmall

theorem isSingleLetter_cons_cons (c d : Char) (cs : List Char) :
    isSingleLetter (c :: d :: cs) = false := rfl

/-- Behind the small letters and digits of a word an underscore is set if a capital follows. -/
theorem splitBeforeCapitals_append (hc : isWordChar c = true) (hcs : ∀ d ∈ cs, isWordChar d = true)
    (rest : List Char) : splitBeforeCapitals (c :: cs ++ rest) =
      c :: cs ++
        if rest.head?.any isCapital then '_' :: splitBeforeCapitals rest
        else splitBeforeCapitals rest := by
  induction cs generalizing c with
  | nil =>
    rw [List.singleton_append, List.singleton_append, splitBeforeCapitals_cons, hc, Bool.true_and]
    split <;> rfl
  | cons d cs ih =>
    obtain ⟨hd, hcs⟩ := List.forall_mem_cons.1 hcs
    have hnot : (d :: cs ++ rest).head?.any isCapital = false :=
      (cased_of_isWordChar hd).not_capital
    rw [List.cons_append, splitBeforeCapitals_cons, hnot, Bool.and_false, if_neg Bool.false_ne_true,
      ih hd hcs]
    rfl

/-- Behind a capitalised word an underscore is set if a capital follows, unless the word is a single
letter. -/
theorem splitBeforeCapitals_word (h : IsPlainWord word) (rest : List Char) :
    splitBeforeCapitals (capitalize word ++ rest) = capitalize word ++
      if !isSingleLetter word && rest.head?.any isCapital then '_' :: splitBeforeCapitals rest
      else splitBeforeCapitals rest := by
  obtain ⟨c, cs, rfl, hc, hcs⟩ := h.exists_cons
  rw [capitalize_cons hc hcs]
  cases cs with
  | nil =>
    rw [List.singleton_append, List.singleton_append, splitBeforeCapitals_cons,
      (cased_of_isWordChar hc).isWordChar_toUpper]
    change _ = c.toUpper :: if !isSmall c && _ then _ else _
    split <;> rfl
  | cons d cs =>
    obtain ⟨hd, hcs⟩ := List.forall_mem_cons.1 hcs
    have hnot : (d :: cs ++ rest).head?.any isCapital = false :=
      (cased_of_isWordChar hd).not_capital
    rw [List.cons_append, splitBeforeCapitals_cons, hnot, Bool.and_false, if_neg Bool.false_ne_true,
      splitBeforeCapitals_append hd hcs, isSingleLetter_cons_cons, Bool.not_false, Bool.true_and]
    rfl

/-- A capitalised word begins with a capital if the word begins with a letter. -/
theorem head?_capitalize (h : IsPlainWord word) (rest : List Char) :
    (capitalize word ++ rest).head?.any isCapital = word.head?.any isSmall := by
  obtain ⟨c, cs, rfl, hc, hcs⟩ := h.exists_cons
  rw [capitalize_cons hc hcs]
  exact (cased_of_isWordChar hc).isCapital_toUpper

/-- The first substitution parts capitalized words, except behind single letters. -/
theorem splitBeforeCapitals_flatMap (h : ∀ word ∈ words, IsPlainWord word) :
    splitBeforeCapitals (words.flatMap capitalize) = joinedWhere parts capitalize words := by
  induction words with
  | nil => rfl
  | cons word words ih =>
    obtain ⟨hword, hwords⟩ := List.forall_mem_cons.1 h
    rw [List.flatMap_cons, splitBeforeCapitals_word hword, ih hwords, joinedWhere]
    cases words with
    | nil => rw [List.flatMap_nil, List.head?_nil, Option.any_none, Bool.and_false]; rfl
    | cons next words =>
      rw [List.flatMap_cons, head?_capitalize (List.forall_mem_cons.1 hwords).1]
      rfl

/-! ### Underscores within rows of capitals -/

/-- Whether a text begins with a capital letter and a small one. -/
def beginsWord : List Char → Bool
  | c :: cs => isCapital c && cs.head?.any isSmall
  | [] => false

theorem splitAcronyms_cons (c : Char) (cs : List Char) : splitAcronyms (c :: cs) =
    if isCapital c && beginsWord cs then c :: '_' :: splitAcronyms cs
    else c :: splitAcronyms cs := by
  match cs with
  | [] => rw [beginsWord, Bool.and_false]; rfl
  | [d] => rw [beginsWord, List.head?_nil, Option.any_none, Bool.and_false, Bool.and_false]; rfl
  | d :: e :: cs => rw [splitAcronyms, beginsWord, List.head?_cons, Option.any_some, Bool.and_assoc]

/-- Word characters are passed over until something else comes. -/
theorem splitAcronyms_append (hcs : ∀ d ∈ cs, isWordChar d = true) (rest : List Char) :
    splitAcronyms (cs ++ rest) = cs ++ splitAcronyms rest := by
  induction cs with
  | nil => rfl
  | cons c cs ih =>
    obtain ⟨hc, hcs⟩ := List.forall_mem_cons.1 hcs
    rw [List.cons_append, splitAcronyms_cons, (cased_of_isWordChar hc).not_capital, Bool.false_and,
      if_neg Bool.false_ne_true, ih hcs]
    rfl

/-- Behind a capitalised word an underscore is set if the word is a single letter and another word
begins. -/
theorem splitAcronyms_word (h : IsPlainWord word) (rest : List Char) :
    splitAcronyms (capitalize word ++ rest) = capitalize word ++
      if isSingleLetter word && beginsWord rest then '_' :: splitAcronyms rest
      else splitAcronyms rest := by
  obtain ⟨c, cs, rfl, hc, hcs⟩ := h.exists_cons
  rw [capitalize_cons hc hcs, List.cons_append, splitAcronyms_cons,
    (cased_of_isWordChar hc).isCapital_toUpper]
  cases cs with
  | nil =>
    change (if isSmall c && beginsWord rest then _ else _) = _
    rw [isSingleLetter]
    split <;> rfl
  | cons d cs =>
    have hnot : beginsWord (d :: cs ++ rest) = false := by
      rw [List.cons_append, beginsWord,
        (cased_of_isWordChar (hcs d List.mem_cons_self)).not_capital, Bool.false_and]
    rw [hnot, Bool.and_false, if_neg Bool.false_ne_true, splitAcronyms_append hcs,
      isSingleLetter_cons_cons, Bool.false_and, if_neg Bool.false_ne_true]
    rfl

/-- No small letter begins capitalized words. -/
theorem head?_joinedWhere (p : List Char → List Char → Bool)
    (h : ∀ word ∈ words, IsPlainWord word) :
    (joinedWhere p capitalize words).head?.any isSmall = false := by
  cases words with
  | nil => rfl
  | cons word words =>
    obtain ⟨c, cs, rfl, hc, hcs⟩ := (h word List.mem_cons_self).exists_cons
    rw [joinedWhere, capitalize_cons hc hcs]
    exact (cased_of_isWordChar hc).isSmall_toUpper

/-- Capitalised words begin with a capital letter and a small one if the first word begins with two
letters. -/
theorem beginsWord_joinedWhere (p : List Char → List Char → Bool)
    (h : ∀ word ∈ next :: words, IsPlainWord word) :
    beginsWord (joinedWhere p capitalize (next :: words)) =
      (next.head?.any isSmall && next[1]?.any isSmall) := by
  obtain ⟨hnext, hwords⟩ := List.forall_mem_cons.1 h
  obtain ⟨c, cs, rfl, hc, hcs⟩ := hnext.exists_cons
  rw [joinedWhere, capitalize_cons hc hcs, List.cons_append, beginsWord,
    (cased_of_isWordChar hc).isCapital_toUpper]
  cases cs with
  | nil =>
    -- what follows a single letter is an underscore, a capital letter or a digit
    have hrest : (if words.head?.any (p [c]) then '_' :: joinedWhere p capitalize words
        else joinedWhere p capitalize words).head?.any isSmall = false := by
      split
      · rfl
      · exact head?_joinedWhere p hwords
    rw [List.nil_append, hrest]
    rfl
  | cons d cs => rfl

/-- An underscore comes back in the first substitution or in the second. -/
theorem comesBack_eq (word next : List Char) : comesBack word next =
    (parts word next || isSingleLetter word &&
      (next.head?.any isSmall && next[1]?.any isSmall)) := by
  rw [comesBack, parts]
  cases isSingleLetter word <;> cases next.head?.any isSmall <;> cases next[1]?.any isSmall <;> rfl

/-- The second substitution parts single letters from a word that goes on with a small letter. -/
theorem splitAcronyms_joinedWhere (h : ∀ word ∈ words, IsPlainWord word) :
    splitAcronyms (joinedWhere parts capitalize words) =
      joinedWhere comesBack capitalize words := by
  induction words with
  | nil => rfl
  | cons word words ih =>
    obtain ⟨hword, hwords⟩ := List.forall_mem_cons.1 h
    cases words with
    | nil =>
      have hnot : ¬(isSingleLetter word && beginsWord []) = true := by
        rw [beginsWord, Bool.and_false]
        exact Bool.false_ne_true
      exact (splitAcronyms_word hword []).trans (congrArg (capitalize word ++ ·) (if_neg hnot))
    | cons next words =>
      rw [joinedWhere_cons_cons, joinedWhere_cons_cons, splitAcronyms_word hword, comesBack_eq]
      cases hparts : parts word next with
      | true =>
        -- the underscore that is there begins no word
        have hunderscore : isCapital '_' = false := by decide
        rw [if_pos rfl, Bool.true_or, if_pos rfl, beginsWord, splitAcronyms_cons, hunderscore,
          Bool.false_and, Bool.false_and, Bool.and_false, if_neg Bool.false_ne_true,
          if_neg Bool.false_ne_true, ih hwords]
      | false =>
        rw [if_neg Bool.false_ne_true, beginsWord_joinedWhere _ hwords, ih hwords, Bool.false_or]

/-! ### File names -/

/-- What all characters of the words are, those of the joined words are. -/
theorem forall_mem_joinedWhere {P : Char → Prop} {p : List Char → List Char → Bool}
    {form : List Char → List Char} (hunderscore : P '_')
    (h : ∀ word ∈ words, ∀ c ∈ form word, P c) :
    ∀ c ∈ joinedWhere p form words, P c := by
  induction words with
  | nil => exact List.forall_mem_nil _
  | cons word words ih =>
    obtain ⟨hword, hwords⟩ := List.forall_mem_cons.1 h
    rw [joinedWhere]
    refine List.forall_mem_append.2 ⟨hword, ?_⟩
    split
    · exact List.forall_mem_cons.2 ⟨hunderscore, ih hwords⟩
    · exact ih hwords

theorem IsPlainWord.ascii_capitalize (h : IsPlainWord word) : Text.IsAscii (capitalize word) := by
  obtain ⟨c, cs, rfl, hc, hcs⟩ := h.exists_cons
  rw [capitalize_cons hc hcs]
  exact List.forall_mem_cons.2 ⟨(cased_of_isWordChar hc).ascii_toUpper,
    fun d hd ↦ ascii_of_isWordChar (hcs d hd)⟩

/-- In lower case the words are plain again. -/
theorem map_toLower_joinedWhere (p : List Char → List Char → Bool)
    (h : ∀ word ∈ words, IsPlainWord word) :
    (joinedWhere p capitalize words).map Char.toLower = joinedWhere p id words := by
  induction words with
  | nil => rfl
  | cons word words ih =>
    obtain ⟨hword, hwords⟩ := List.forall_mem_cons.1 h
    obtain ⟨c, cs, rfl, hc, hcs⟩ := hword.exists_cons
    have hlower : (c.toUpper :: cs).map Char.toLower = c :: cs := by
      rw [List.map_cons, (cased_of_isWordChar hc).toLower_toUpper]
      exact congrArg (c :: ·)
        ((List.map_congr_left fun d hd ↦ (cased_of_isWordChar (hcs d hd)).toLower).trans
        (List.map_id cs))
    rw [joinedWhere, joinedWhere, capitalize_cons hc hcs, List.map_append, hlower, ← ih hwords]
    split <;> rfl

/-- The file name of a plain name's class has the underscores that come back. -/
theorem PlainName.toList_fileName_typeName (n : PlainName) :
    (fileName (typeName n.text)).toList = joinedWhere comesBack id n.words := by
  have hascii : Text.IsAscii (joinedWhere comesBack capitalize n.words) :=
    forall_mem_joinedWhere (by decide) fun word hword ↦ (n.plain word hword).ascii_capitalize
  rw [fileName, String.toList_ofList, n.toList_typeName, splitBeforeCapitals_flatMap n.plain,
    splitAcronyms_joinedWhere n.plain, Text.lowerList_of_isAscii hascii,
    map_toLower_joinedWhere _ n.plain]

/-- A plain name has its words with underscores everywhere. -/
theorem PlainName.toList_text (n : PlainName) :
    n.text.toList = joinedWhere (fun _ _ ↦ true) id n.words := by
  rw [text, String.toList_ofList, joinedWhere_always]

/-- No underscore is left out if the condition holds between all neighbours. -/
theorem joinedWhere_eq_iff {p : List Char → List Char → Bool}
    (h : ∀ word ∈ words, IsPlainWord word) :
    joinedWhere p id words = joinedWhere (fun _ _ ↦ true) id words ↔
    words.IsChain fun w v ↦ p w v = true := by
  induction words with
  | nil => exact iff_of_true rfl .nil
  | cons word words ih =>
    obtain ⟨-, hwords⟩ := List.forall_mem_cons.1 h
    cases words with
    | nil => exact iff_of_true rfl (.singleton word)
    | cons next words =>
      rw [joinedWhere_cons_cons, joinedWhere_cons_cons, List.append_right_inj,
        List.isChain_cons_cons, ← ih hwords, if_pos rfl]
      cases p word next with
      | true => rw [if_pos rfl, List.cons_inj_right, and_iff_right rfl]
      | false =>
        -- the next word does not begin with an underscore
        obtain ⟨c, cs, rfl, hc, -⟩ := (List.forall_mem_cons.1 hwords).1.exists_cons
        rw [if_neg Bool.false_ne_true]
        exact iff_of_false (fun heq ↦ (cased_of_isWordChar hc).ne_underscore (List.cons.inj heq).1)
          fun hand ↦ Bool.false_ne_true hand.1

/-- The module name of a class leaves out underscores of the plain name, and nothing else. -/
theorem leavesOut_fileName (n : PlainName) :
    LeavesOut (fileName (typeName n.text)).toList n.text.toList := by
  rw [n.toList_fileName_typeName, n.toList_text]
  exact leavesOut_joinedWhere comesBack n.words

/-- A module name has an underscore more than the file name, or none. -/
theorem withoutUnderscores_moduleName (name : String) :
    withoutUnderscores (moduleName name) = withoutUnderscores (fileName name) := by
  rw [moduleName]
  split
  · rw [withoutUnderscores, String.toList_append, List.filter_append]
    exact List.append_nil _
  · rfl

/-- **What of a plain name is left in a module name.** The file name of the name's class is the name
itself exactly if all its underscores come back; any other name loses underscores and nothing else.
So the classes of two plain names have one module only if the names are equal up to underscores. -/
theorem PlainName.recovers (n m : PlainName) :
    (fileName (typeName n.text) = n.text ↔
      n.words.IsChain fun word next ↦ comesBack word next = true) ∧
      LeavesOut (fileName (typeName n.text)).toList n.text.toList ∧
      (moduleName (typeName n.text) = moduleName (typeName m.text) →
        withoutUnderscores n.text = withoutUnderscores m.text) := by
  have hmodule (n : PlainName) :
      withoutUnderscores (moduleName (typeName n.text)) = withoutUnderscores n.text := by
    rw [withoutUnderscores_moduleName]
    exact (leavesOut_fileName n).filter_eq
  refine ⟨?_, leavesOut_fileName n, fun heq ↦ ?_⟩
  · rw [← String.toList_inj, n.toList_fileName_typeName, n.toList_text]
    exact joinedWhere_eq_iff n.plain
  · rw [← hmodule n, heq, hmodule m]

/-- A name that begins with single letters. -/
def axisName : PlainName where
  words := ["x".toList, "y".toList, "axis".toList]
  ne_nil := by decide
  plain := by decide

/-- The same name without its first underscore. -/
def shortAxisName : PlainName where
  words := ["xy".toList, "axis".toList]
  ne_nil := by decide
  plain := by decide

/-- A single letter keeps its underscore before a word, and loses it before another single letter.
So both names have the same module. -/
theorem PlainName.recovers_axisName :
    axisName.text = "x_y_axis" ∧ shortAxisName.text = "xy_axis" ∧
      fileName (typeName axisName.text) ≠ axisName.text ∧
      fileName (typeName shortAxisName.text) = shortAxisName.text ∧
      LeavesOut (fileName (typeName axisName.text)).toList axisName.text.toList ∧
      withoutUnderscores axisName.text = withoutUnderscores shortAxisName.text := by
  have hmodule :
      moduleName (typeName axisName.text) = moduleName (typeName shortAxisName.text) := by
    decide +kernel
  obtain ⟨haxis, hleaves, hsame⟩ := PlainName.recovers axisName shortAxisName
  obtain ⟨hshort, -, -⟩ := PlainName.recovers shortAxisName axisName
  exact ⟨rfl, rfl, fun heq ↦ absurd (haxis.1 heq) (by decide), hshort.2 (by decide), hleaves,
    hsame hmodule⟩
end EventSchema.Identifier

import EventSchema.Proofs.Package.Contents
import EventSchema.Proofs.Package.EscapedText
import EventSchema.Proofs.Text.PieceLayout
import EventSchema.Proofs.Text.PieceReading

/-!
# Documentation blocks

The lines of a documentation block stand between three quotes. A text is escaped before it is laid
out, so its escapes may be split: in a word that is longer than a line, and nowhere else
(`exists_laidOut_docBlock`). Where no escape is split, the block is one literal with the characters
of the text, blanks aside. Where one is, this depends on what follows the backslashes that stand
before a line end (`exists_blockReading`), and it may fail (`misread_longWords`).
-/

namespace EventSchema.Package

open Text

variable {cs : List Char} {c : Char} {ms ps : List Piece}

/-! ### Blocks -/

/-- A word with an escape in it is longer than a line of a part may be. -/
def LongEscape (indent part : List Char) : Prop :=
  ∃ w ∈ chunks (levelBlanks part), docWidth - indent.length < w.length ∧ '\\' ∈ w

/-- A part of escaped text is wrapped into pieces. -/
theorem exists_laidOut_wrap {indent : List Char} (hindent : ∀ c ∈ indent, c = ' ')
    (hwidth : indent.length < docWidth) (hms : Clean ms) :
    ∃ ps, sourceOf ps = lineSource (wrap docWidth indent (sourceOf ms)) ∧
      LaidOut (LongEscape indent (sourceOf ms)) (charsOf ms) ps := by
  obtain ⟨lines, hlines, hfills⟩ := fills_wrap hwidth (sourceOf ms)
  have hsource : sourceOf (level 0 ms) = levelBlanks (sourceOf ms) := sourceOf_level hms.whole
  obtain ⟨ps, hps, hlaid⟩ :=
    (LaysOut.of_fills id hindent hfills).whole (level 0 ms) hms.level hsource
  exact ⟨ps, hlines ▸ hps, hlaid.mono id visible_level⟩

/-- Parts of escaped text are wrapped into pieces, with an empty line between one and the next. -/
theorem exists_laidOut_paragraphLines {indent : List Char} {parts : List (List Piece)}
    (hindent : ∀ c ∈ indent, c = ' ') (hwidth : indent.length < docWidth)
    (hparts : ∀ ms ∈ parts, Clean ms) :
    ∃ ps, sourceOf ps = lineSource (paragraphLines indent (parts.map sourceOf)) ∧
      LaidOut (∃ ms ∈ parts, LongEscape indent (sourceOf ms)) (charsOf parts.flatten) ps := by
  induction parts with
  | nil => exact ⟨[], rfl, .of_blank rfl⟩
  | cons ms parts ih =>
    obtain ⟨hms, hparts⟩ := List.forall_mem_cons.1 hparts
    obtain ⟨ps, hps, hlaid⟩ := exists_laidOut_wrap hindent hwidth hms
    obtain ⟨qs, hqs, hrest⟩ := ih hparts
    cases parts with
    | nil =>
      refine ⟨ps, hps, hlaid.mono (fun h ↦ ⟨ms, List.mem_singleton_self ms, h⟩) ?_⟩
      rw [List.flatten_cons, List.flatten_nil, List.append_nil]
    | cons next parts =>
      have hgap : LaidOut _ _ (['\n'].map .raw ++ qs) :=
        hrest.gap_append fun c hc ↦ .inr (List.mem_singleton.1 hc)
      refine ⟨ps ++ (['\n'].map .raw ++ qs), ?_, ?_⟩
      · have hlines : paragraphLines indent ((ms :: next :: parts).map sourceOf) =
            wrap docWidth indent (sourceOf ms) ++ [] :: paragraphLines indent
              ((next :: parts).map sourceOf) := rfl
        rw [sourceOf_append, sourceOf_append, sourceOf_raws, hps, hqs, hlines, lineSource_append,
          lineSource_cons]
        rfl
      · rw [List.flatten_cons, charsOf_append]
        refine (hlaid.mono ?_ rfl).append (hgap.mono ?_ rfl) ?_
        · exact fun h ↦ ⟨ms, List.mem_cons_self, h⟩
        · exact fun ⟨ms, hms, h⟩ ↦ ⟨ms, List.mem_cons_of_mem _ hms, h⟩
        · exact fun h ↦ absurd (Option.some.inj h) (by decide)

/-- Blank parts have no characters but blanks. -/
theorem visible_filter (parts : List (List Piece)) :
    visible ((charsOf (parts.filter fun ms ↦ !isAllBlank (sourceOf ms)).flatten).map Char.toNat) =
      visible ((charsOf parts.flatten).map Char.toNat) := by
  induction parts with
  | nil => rfl
  | cons ms parts ih =>
    rw [List.flatten_cons, charsOf_append, visible_map_append, ← ih]
    cases hblank : isAllBlank (sourceOf ms) with
    | true =>
      rw [List.filter_cons_of_neg (by rw [hblank]; decide),
        visible_of_isAllBlank (isAllBlank_charsOf hblank)]
      rfl
    | false =>
      rw [List.filter_cons_of_pos (by rw [hblank]; rfl), List.flatten_cons, charsOf_append,
        visible_map_append]

/-- A text with its escapes. -/
def escapedText (text : String) : List Char := escapeTripleQuotes (escapeBackslashes text.toList)

/-- The content of a documentation block, between the line ends. -/
def blockContent (text indent : String) : List (List Char) :=
  paragraphLines indent.toList ((paragraphs (escapedText text)).filter fun p ↦ !isAllBlank p)

theorem toList_joinLines_ofList (line : List Char) (lines : List (List Char)) :
    (joinLines ((line :: lines).map String.ofList)).toList = line ++ lineSource lines := by
  induction lines generalizing line with
  | nil => rw [joinLines, String.toList_intercalate]; simp [lineSource]
  | cons next lines ih =>
    rw [List.map_cons, toList_joinLines_cons _ (by simp), ih, lineSource_cons, String.toList_ofList]

theorem toList_docBlock (text indent : String) : (joinLines (docBlock text indent)).toList =
    indent.toList ++
      (threeQuotes ++ (lineSource (blockContent text indent) ++ ending indent.toList)) := by
  have hblock : docBlock text indent = ((indent.toList ++ threeQuotes) ::
    (blockContent text indent ++ [indent.toList ++ threeQuotes])).map String.ofList := rfl
  have hlast : lineSource [indent.toList ++ threeQuotes] = ending indent.toList := List.append_nil _
  rw [hblock, toList_joinLines_ofList, lineSource_append, hlast, List.append_assoc]

/-- The content of a documentation block is made of pieces. -/
theorem exists_laidOut_docBlock {indent : String} (text : String)
    (hindent : ∀ c ∈ indent.toList, c = ' ') (hwidth : indent.length < docWidth) :
    ∃ ps, sourceOf ps = lineSource (blockContent text indent) ∧
      LaidOut (∃ part ∈ paragraphs (escapedText text),
        LongEscape indent.toList part) text.toList ps := by
  have hescaped : sourceOf (piecesOf text.toList) = escapedText text := sourceOf_piecesOf _
  obtain ⟨parts, hparts, hclean, hvisible⟩ := exists_of_intercalate (clean_piecesOf text.toList)
    (paragraphs_ne_nil (escapedText text)) (hescaped.trans (intercalate_paragraphs _).symm)
  have hshown : (paragraphs (escapedText text)).filter (fun p ↦ !isAllBlank p) =
      (parts.filter fun ms ↦ !isAllBlank (sourceOf ms)).map sourceOf := by
    rw [← hparts, List.filter_map]
    rfl
  have hshownClean : ∀ ms ∈ parts.filter fun ms ↦ !isAllBlank (sourceOf ms), Clean ms :=
    fun ms hms ↦ hclean ms (List.mem_of_mem_filter hms)
  obtain ⟨ps, hps, hlaid⟩ :=
    exists_laidOut_paragraphLines hindent (by rwa [String.length_toList]) hshownClean
  refine ⟨ps, by rw [hps, blockContent, hshown], hlaid.mono ?_ ?_⟩
  · rintro ⟨ms, hms, hlong⟩
    exact ⟨sourceOf ms, hparts ▸ List.mem_map_of_mem (List.mem_of_mem_filter hms), hlong⟩
  · rw [visible_filter, hvisible, charsOf_piecesOf]

/-! ### Reading blocks back -/

theorem mem_expandTabs {column : Nat} (h : c ∈ expandTabs column cs) : c = ' ' ∨ c ∈ cs := by
  induction cs generalizing column with
  | nil => cases h
  | cons d cs ih =>
    rw [expandTabs] at h
    split at h
    · rcases List.mem_append.1 h with h | h
      · exact .inl (List.eq_of_mem_replicate h)
      · exact (ih h).imp_right (List.mem_cons_of_mem d)
    · rcases List.mem_cons.1 h with rfl | h
      · exact .inr List.mem_cons_self
      · exact (ih h).imp_right (List.mem_cons_of_mem d)

theorem mem_levelBlanks (h : c ∈ levelBlanks cs) : c = ' ' ∨ c ∈ cs ∧ isAsciiBlank c = false := by
  obtain ⟨d, hd, rfl⟩ := List.mem_map.1 h
  cases hblank : isAsciiBlank d with
  | true => exact .inl rfl
  | false => exact (mem_expandTabs hd).imp id fun hd ↦ ⟨hd, hblank⟩

theorem mem_of_mem_intercalate {parts : List (List Char)} {part : List Char}
    (h : part ∈ parts) (hc : c ∈ part) :
    c ∈ ['\n', '\n'].intercalate parts := by
  induction parts with
  | nil => cases h
  | cons first parts ih =>
    by_cases hparts : parts = []
    · rw [hparts, List.mem_singleton] at h
      rwa [hparts, List.intercalate_singleton, ← h]
    · rw [List.intercalate_cons_of_ne_nil hparts]
      rcases List.mem_cons.1 h with rfl | h
      · exact List.mem_append_left _ (List.mem_append_left _ hc)
      · exact List.mem_append_right _ (ih h)

theorem mem_sourceOf (hps : ∀ p ∈ ps, p.isSplit = false) (hc : c ∈ sourceOf ps) :
    c = '\\' ∨ c ∈ charsOf ps := by
  obtain ⟨p, hp, hc⟩ := List.mem_flatMap.1 hc
  have hmem : p.char ∈ charsOf ps := List.mem_map_of_mem hp
  cases p with
  | raw d =>
    rw [List.mem_singleton.1 hc]
    exact .inr hmem
  | escape s =>
    rcases List.mem_pair.1 hc with rfl | rfl
    · exact .inl rfl
    · exact .inr hmem
  | split gap s => cases hps _ hp

theorem mem_paragraphLines {indent : List Char} {parts : List (List Char)}
    (hwidth : indent.length < docWidth) (h : c ∈ lineSource (paragraphLines indent parts)) :
    c = '\n' ∨ c ∈ indent ∨ ∃ part ∈ parts, c ∈ levelBlanks part := by
  have hwrap {part : List Char} (h : c ∈ lineSource (wrap docWidth indent part)) :
      c = '\n' ∨ c ∈ indent ∨ c ∈ levelBlanks part := by
    obtain ⟨lines, hlines, hfills⟩ := fills_wrap hwidth part
    rw [hlines] at h
    obtain ⟨line, hline, hc⟩ := List.mem_flatMap.1 h
    obtain ⟨piece, hpiece, rfl⟩ := List.mem_map.1 hline
    rcases List.mem_cons.1 hc with rfl | hc
    · exact .inl rfl
    · exact .inr ((List.mem_append.1 hc).imp_right (hfills.mem hpiece))
  induction parts with
  | nil => cases h
  | cons part parts ih =>
    have hfirst (h : c ∈ lineSource (wrap docWidth indent part)) :
        c = '\n' ∨ c ∈ indent ∨ ∃ p ∈ part :: parts, c ∈ levelBlanks p :=
      (hwrap h).imp_right (Or.imp_right fun hc ↦ ⟨part, List.mem_cons_self, hc⟩)
    cases parts with
    | nil => exact hfirst h
    | cons next parts =>
      have hlines : paragraphLines indent (part :: next :: parts) =
          wrap docWidth indent part ++ [] :: paragraphLines indent (next :: parts) := rfl
      rw [hlines, lineSource_append, lineSource_cons] at h
      rcases List.mem_append.1 h with h | h
      · exact hfirst h
      · rcases List.mem_cons.1 h with rfl | h
        · exact .inl rfl
        · exact (ih h).imp_right (Or.imp_right fun ⟨p, hp, hc⟩ ↦ ⟨p, List.mem_cons_of_mem _ hp, hc⟩)

/-- The content of a block has characters of the text that are no layout, backslashes, line ends and
spaces. -/
theorem mem_blockContent {text indent : String} (hindent : ∀ c ∈ indent.toList, c = ' ')
    (hwidth : indent.length < docWidth) (h : c ∈ lineSource (blockContent text indent)) :
    c ∈ ['\\', '\n', ' '] ∨ c ∈ text.toList ∧ isAsciiBlank c = false := by
  rcases mem_paragraphLines (by rwa [String.length_toList]) h with rfl | h | ⟨part, hpart, hc⟩
  · exact .inl (by simp)
  · exact .inl (by simp [hindent c h])
  · rcases mem_levelBlanks hc with rfl | ⟨hc, hblank⟩
    · exact .inl (by simp)
    · have hescaped : c ∈ escapedText text :=
        intercalate_paragraphs (escapedText text) ▸
          mem_of_mem_intercalate (List.mem_of_mem_filter hpart) hc
      rw [escapedText, ← sourceOf_piecesOf] at hescaped
      rcases mem_sourceOf (clean_piecesOf _).whole hescaped with rfl | hchar
      · exact .inl (by simp)
      · exact .inr ⟨by rwa [charsOf_piecesOf] at hchar, hblank⟩

/-- The source text of a documentation block, from its first quote on. -/
def blockSource (text indent : String) : List Char :=
  (joinLines (docBlock text indent)).toList.dropWhile (· == ' ')

/-- How a block is read back depends on the pieces that its content is made of. -/
theorem readsAs_blockSource_iff {text indent : String} {names : List Char → Option Nat}
    (htext : '\x00' ∉ text.toList) (hindent : ∀ c ∈ indent.toList, c = ' ')
    (hwidth : indent.length < docWidth) (hps : ∀ p ∈ ps, p.Ok)
    (hsource : sourceOf ps = lineSource (blockContent text indent))
    (hchars : visible ((charsOf ps).map Char.toNat) = visible (text.toList.map Char.toNat)) :
    ReadsAs names (blockSource text indent) text.toList ↔ keepsEscapes false ps = true ∧
    staysOpen false ps = true := by
  have hdrop : blockSource text indent = threeQuotes ++ (sourceOf ps ++ ending indent.toList) := by
    rw [blockSource, toList_docBlock,
      List.dropWhile_append_of_pos fun c hc ↦ by rw [hindent c hc]; rfl, hsource]
    rfl
  have hreturn : '\r' ∉ sourceOf ps := fun hmem ↦ by
    rcases mem_blockContent hindent hwidth (hsource ▸ hmem) with h | ⟨-, h⟩
    · exact absurd h (by decide)
    · exact absurd h (by decide)
  have hnul : '\x00' ∉ sourceOf ps := fun hmem ↦ by
    rcases mem_blockContent hindent hwidth (hsource ▸ hmem) with h | ⟨h, -⟩
    · exact absurd h (by decide)
    · exact htext h
  rw [hdrop, ← readsAs_iff hps hindent hreturn hnul, ReadsAs, ReadsAs, hchars]

/-- How a documentation block is read back. -/
structure BlockReading (text indent : String) (ps : List Piece) : Prop where
  /-- The block is the pieces between three quotes, the last of them on a line of their own. -/
  source : (joinLines (docBlock text indent)).toList =
    indent.toList ++ (threeQuotes ++ (sourceOf ps ++ ending indent.toList))
  /-- The pieces have the characters of the text, blanks aside. An escape is split only in a word
  that is longer than a line may be. -/
  laidOut :
    LaidOut (∃ part ∈ paragraphs (escapedText text), LongEscape indent.toList part) text.toList ps
  /-- No other pieces make up the block. -/
  unique (qs : List Piece) : (∀ p ∈ qs, p.Ok) → sourceOf qs = sourceOf ps → qs = ps
  /-- The block is one literal with the characters of the text, blanks aside, exactly if no
  backslash that is owed makes an escape and no quote that is not escaped for the reader stands
  before two more. -/
  readsBack (names : List Char → Option Nat) : ReadsAs names (blockSource text indent) text.toList ↔
    keepsEscapes false ps = true ∧ staysOpen false ps = true
  /-- It is where no escape is split. -/
  whole (names : List Char → Option Nat) : (∀ p ∈ ps, p.isSplit = false) →
    ReadsAs names (blockSource text indent) text.toList
  /-- So it is where every word with an escape is as short as a line. -/
  short (names : List Char → Option Nat) :
    (∀ part ∈ paragraphs (escapedText text), ¬LongEscape indent.toList part) →
    ReadsAs names (blockSource text indent) text.toList

/-- **Documentation blocks are read back as far as their escapes stay on one line.** -/
theorem exists_blockReading {text indent : String} (htext : '\x00' ∉ text.toList)
    (hindent : ∀ c ∈ indent.toList, c = ' ') (hwidth : indent.length < docWidth) :
    ∃ ps, BlockReading text indent ps := by
  obtain ⟨ps, hps, hlaid⟩ := exists_laidOut_docBlock text hindent hwidth
  have hreads (names : List Char → Option Nat) :
      ReadsAs names (blockSource text indent) text.toList ↔ _ :=
    readsAs_blockSource_iff htext hindent hwidth hlaid.ok hps hlaid.characters
  have hwhole (names : List Char → Option Nat) (h : ∀ p ∈ ps, p.isSplit = false) :
      ReadsAs names (blockSource text indent) text.toList :=
    (hreads names).2 ⟨keepsEscapes_of_whole h, (hlaid.clean h).stays⟩
  refine ⟨ps, by rw [hps, toList_docBlock], hlaid, fun qs hqs ↦ eq_of_sourceOf_eq hqs hlaid.ok,
    hreads, hwhole, ?_⟩
  intro names hshort
  refine hwhole names fun p hp ↦ Bool.eq_false_iff.2 fun hsplit ↦ ?_
  obtain ⟨part, hpart, hlong⟩ := hlaid.long ⟨p, hp, hsplit⟩
  exact hshort part hpart hlong

/-- A path and a quotation are read back from the documentation of a class. -/
theorem blockReading_path :
    ∃ ps, BlockReading "Say \"\"\"hi\"\"\" to C:\\temp" classIndent ps ∧ ∀ names,
    ReadsAs names (blockSource "Say \"\"\"hi\"\"\" to C:\\temp" classIndent)
      "Say \"\"\"hi\"\"\" to C:\\temp".toList := by
  have hspaces : classIndent.toList = List.replicate 4 ' ' := by decide +kernel
  obtain ⟨ps, hps⟩ := @exists_blockReading "Say \"\"\"hi\"\"\" to C:\\temp" classIndent
    (by decide +kernel) (fun c hc ↦ List.eq_of_mem_replicate (hspaces ▸ hc)) (by decide +kernel)
  have hshort : ∀ part ∈ paragraphs (escapedText "Say \"\"\"hi\"\"\" to C:\\temp"),
      ∀ w ∈ chunks (levelBlanks part), w.length ≤ docWidth - classIndent.toList.length := by
    decide +kernel
  refine ⟨ps, hps, fun names ↦ hps.short names ?_⟩
  rintro part hpart ⟨w, hw, hlong, -⟩
  exact absurd (hshort part hpart w hw) (Nat.not_le.2 hlong)

/-- A word of letters before other characters. -/
def wordBefore (letters : Nat) (cs : List Char) : String :=
  String.ofList (List.replicate letters 'a' ++ cs)

/-- A word that is cut behind a backslash. -/
def cutWord (letters : Nat) (kept : List Piece) (s : Special) (rest : List Piece) : List Piece :=
  .raw '\n' :: (List.replicate letters (.raw 'a') ++ kept ++ .split [] s :: rest)

/-- A text without a null character is not read back from its block. -/
def Misread (text indent : String) : Prop :=
  '\x00' ∉ text.toList ∧ ∀ names, ¬ReadsAs names (blockSource text indent) text.toList

theorem misread_of_pieces {text : String} (ps : List Piece) (htext : '\x00' ∉ text.toList)
    (hps : ∀ p ∈ ps, p.Ok) (hsource : sourceOf ps = lineSource (blockContent text ""))
    (hchars : visible ((charsOf ps).map Char.toNat) = visible (text.toList.map Char.toNat))
    (h : (keepsEscapes false ps && staysOpen false ps) = false) : Misread text "" := by
  refine ⟨htext, fun names hreads ↦ ?_⟩
  obtain ⟨hkeeps, hstays⟩ :=
    (readsAs_blockSource_iff htext (by simp) (by decide) hps hsource hchars).1 hreads
  rw [hkeeps, hstays] at h
  cases h

/-- A backslash at the end of a line is lost, one before a letter makes an escape that is none, and
a quote that loses its backslash ends the block before two more. -/
theorem misread_longWords : Misread (wordBefore 83 ['\\']) "" ∧
    Misread (wordBefore 83 ['\\', 'x']) "" ∧
    Misread (wordBefore 79 ['"', '"', '"', '"', '"', 'b']) "" := by
  have hok (letters : Nat) (kept : List Piece) (s : Special) (rest : List Piece)
      (h : ∀ p ∈ kept ++ rest, p.Ok) : ∀ p ∈ cutWord letters kept s rest, p.Ok := by
    obtain ⟨hkept, hrest⟩ := List.forall_mem_append.1 h
    have hletters : ∀ p ∈ List.replicate letters (Piece.raw 'a'), p.Ok := fun p hp ↦ by
      rw [List.eq_of_mem_replicate hp]
      exact show 'a' ≠ '\\' by decide
    have hsplit : ∀ p ∈ Piece.split [] s :: rest, p.Ok :=
      List.forall_mem_cons.2 ⟨fun _ hc ↦ absurd hc List.not_mem_nil, hrest⟩
    exact List.forall_mem_cons.2 ⟨show '\n' ≠ '\\' by decide,
      List.forall_mem_append.2 ⟨List.forall_mem_append.2 ⟨hletters, hkept⟩, hsplit⟩⟩
  refine ⟨?_, ?_, ?_⟩
  · exact misread_of_pieces (cutWord 83 [] .backslash [])
      (by decide +kernel) (hok _ _ _ _ (by simp)) (by decide +kernel)
      (by decide +kernel) (by decide +kernel)
  · exact misread_of_pieces (cutWord 83 [] .backslash [.raw 'x']) (by decide +kernel)
      (hok _ _ _ _ (by simp [Piece.Ok])) (by decide +kernel) (by decide +kernel) (by decide +kernel)
  · exact misread_of_pieces
      (cutWord 79 [.escape .quote, .escape .quote] .quote [.raw '"', .raw '"', .raw 'b'])
      (by decide +kernel) (hok _ _ _ _ (by simp [Piece.Ok])) (by decide +kernel) (by decide +kernel)
      (by decide +kernel)

end EventSchema.Package

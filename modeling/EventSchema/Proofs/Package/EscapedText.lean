import EventSchema.Package.Source
import EventSchema.Proofs.Text.WholePieces

/-!
# Escaped text

Text with its backslashes and its runs of three quotes escaped is made of whole pieces, which have
its characters (`sourceOf_piecesOf`, `charsOf_piecesOf`), and no three quotes are next to each other
in it (`clean_piecesOf`). The same is true of its parts between empty lines: a line end is no part
of an escape (`exists_of_intercalate`).
-/

namespace EventSchema.Package

open Text

variable {cs xs : List Char} {c : Char} {ps : List Piece}

/-! ### Escaped text -/

/-- The pieces that escaped text is made of. -/
def piecesOf : List Char → List Piece
  | '"' :: '"' :: '"' :: cs => .escape .quote :: .escape .quote :: .escape .quote :: piecesOf cs
  | c :: cs => (if c = '\\' then .escape .backslash else .raw c) :: piecesOf cs
  | [] => []

theorem piecesOf_cons (h : ∀ ds, c = '"' → cs ≠ '"' :: '"' :: ds) :
    piecesOf (c :: cs) = (if c = '\\' then .escape .backslash else .raw c) :: piecesOf cs := by
  rw [piecesOf]
  exact fun ds hc hcs ↦ h ds hc hcs

theorem charsOf_piecesOf (cs : List Char) : charsOf (piecesOf cs) = cs := by
  induction cs using piecesOf.induct with
  | case1 cs ih => exact congrArg ('"' :: '"' :: '"' :: ·) ih
  | case2 c cs hother ih =>
    rw [piecesOf_cons fun ds hc hcs ↦ hother ds hc hcs, charsOf, List.map_cons, ← charsOf, ih]
    split
    · next hc => rw [hc]; rfl
    · rfl
  | case3 => rfl

theorem escapeBackslashes_cons : escapeBackslashes (c :: cs) =
    if c = '\\' then '\\' :: '\\' :: escapeBackslashes cs else c :: escapeBackslashes cs := by
  rw [escapeBackslashes, List.flatMap_cons]
  split
  · rfl
  · rfl

theorem exists_of_escapeBackslashes (h : escapeBackslashes cs = '"' :: xs) :
    ∃ ds, cs = '"' :: ds ∧ escapeBackslashes ds = xs := by
  cases cs with
  | nil => cases h
  | cons c cs =>
    rw [escapeBackslashes_cons] at h
    split at h
    · exact absurd (List.cons.inj h).1 (by decide)
    · obtain ⟨rfl, hxs⟩ := List.cons.inj h
      exact ⟨cs, rfl, hxs⟩

theorem escapeTripleQuotes_cons (h : ∀ ds, c = '"' → cs ≠ '"' :: '"' :: ds) :
    escapeTripleQuotes (c :: cs) = c :: escapeTripleQuotes cs := by
  rw [escapeTripleQuotes]
  exact fun ds hc hcs ↦ h ds hc hcs

theorem sourceOf_piecesOf (cs : List Char) :
    sourceOf (piecesOf cs) = escapeTripleQuotes (escapeBackslashes cs) := by
  induction cs using piecesOf.induct with
  | case1 cs ih => exact congrArg ('\\' :: '"' :: '\\' :: '"' :: '\\' :: '"' :: ·) ih
  | case2 c cs hother ih =>
    rw [piecesOf_cons fun ds hc hcs ↦ hother ds hc hcs, sourceOf_cons, ih,
      escapeBackslashes_cons]
    split
    · rw [escapeTripleQuotes_cons (by simp), escapeTripleQuotes_cons (by simp)]
      rfl
    · rw [escapeTripleQuotes_cons]
      · rfl
      · rintro xs rfl h
        obtain ⟨ds, rfl, hds⟩ := exists_of_escapeBackslashes h
        obtain ⟨es, rfl, -⟩ := exists_of_escapeBackslashes hds
        exact hother es rfl rfl
  | case3 => rfl

/-- A quote that stands for itself is a quote of the text. -/
theorem exists_of_sourceOf_piecesOf (h : sourceOf (piecesOf cs) = '"' :: xs) :
    ∃ ds, cs = '"' :: ds ∧ sourceOf (piecesOf ds) = xs := by
  induction cs using piecesOf.induct with
  | case1 cs ih => exact absurd (List.cons.inj h).1 (by decide)
  | case2 c cs hother ih =>
    rw [piecesOf_cons fun ds hc hcs ↦ hother ds hc hcs] at h
    split at h
    · exact absurd (List.cons.inj h).1 (by decide)
    · obtain ⟨rfl, hxs⟩ := List.cons.inj h
      exact ⟨cs, rfl, hxs⟩
  | case3 => cases h

/-- Escaped text is made of whole pieces, and no three quotes are next to each other in it. -/
theorem clean_piecesOf (cs : List Char) : Clean (piecesOf cs) := by
  induction cs using piecesOf.induct with
  | case1 cs ih =>
    rw [piecesOf]
    refine ⟨?_, ?_, ih.stays⟩
    · simpa [Piece.isSplit] using ih.whole
    · simpa [Piece.Ok] using ih.ok
  | case2 c cs hother ih =>
    rw [piecesOf_cons fun ds hc hcs ↦ hother ds hc hcs]
    split
    · exact ⟨by simpa [Piece.isSplit] using ih.whole, by simpa [Piece.Ok] using ih.ok, ih.stays⟩
    · next hslash =>
      refine ⟨by simpa [Piece.isSplit] using ih.whole, by simpa [Piece.Ok, hslash] using ih.ok, ?_⟩
      have hopen :
          ((Piece.raw c).bares false && startsQuotes (sourceOf (piecesOf cs))) = false := by
        refine Bool.and_eq_false_iff.2 (or_iff_not_imp_right.2 fun hquotes ↦ ?_)
        obtain ⟨rest, hrest⟩ := List.isPrefixOf_iff_prefix.1 (Bool.of_not_eq_false hquotes)
        obtain ⟨ds, rfl, hds⟩ := exists_of_sourceOf_piecesOf hrest.symm
        obtain ⟨es, rfl, -⟩ := exists_of_sourceOf_piecesOf hds
        exact beq_false_of_ne fun hc ↦ hother es hc rfl
      rw [staysOpen, hopen]
      exact ih.stays
  | case3 => exact ⟨by simp [piecesOf], by simp [piecesOf], rfl⟩

/-! ### Paragraphs -/

theorem paragraphs_ne_nil (cs : List Char) : paragraphs cs ≠ [] := by
  unfold paragraphs
  split
  · exact List.cons_ne_nil _ _
  · split <;> exact List.cons_ne_nil _ _
  · exact List.cons_ne_nil _ _

theorem intercalate_cons_head (part : List Char) (parts : List (List Char)) :
    ['\n', '\n'].intercalate ((c :: part) :: parts) =
      c :: ['\n', '\n'].intercalate (part :: parts) := by
  by_cases h : parts = []
  · rw [h]
    rfl
  · rw [List.intercalate_cons_of_ne_nil h, List.intercalate_cons_of_ne_nil h]
    rfl

/-- The paragraphs of a text are its parts between empty lines. -/
theorem intercalate_paragraphs (cs : List Char) :
    ['\n', '\n'].intercalate (paragraphs cs) = cs := by
  induction cs using paragraphs.induct with
  | case1 cs ih =>
    rw [paragraphs, List.intercalate_cons_of_ne_nil (paragraphs_ne_nil cs), ih]
    rfl
  | case2 c cs hline p ps hps ih =>
    rw [paragraphs, hps]
    · rw [intercalate_cons_head, ← hps, ih]
    · exact hline
  | case3 c cs hline hps ih => exact absurd hps (paragraphs_ne_nil cs)
  | case4 => rfl

theorem visible_lineEnd_cons : visible ((charsOf (.raw '\n' :: ps)).map Char.toNat) =
    visible ((charsOf ps).map Char.toNat) := by
  rw [visible_charsOf_cons, Piece.char, visible_lineEnd]
  rfl

/-- The parts of escaped text between empty lines are made of whole pieces. -/
theorem exists_of_intercalate {parts : List (List Char)} (hps : Clean ps) (hparts : parts ≠ [])
    (h : sourceOf ps = ['\n', '\n'].intercalate parts) :
    ∃ qss : List (List Piece), qss.map sourceOf = parts ∧ (∀ qs ∈ qss, Clean qs) ∧
      visible ((charsOf qss.flatten).map Char.toNat) = visible ((charsOf ps).map Char.toNat) := by
  induction parts generalizing ps with
  | nil => exact absurd rfl hparts
  | cons part parts ih =>
    by_cases hlast : parts = []
    · rw [hlast, List.intercalate_singleton] at h
      exact ⟨[ps], by rw [hlast, ← h]; rfl, by simpa using hps, by simp⟩
    · rw [List.intercalate_cons_of_ne_nil hlast, List.append_assoc] at h
      rcases cut_source hps.whole h with ⟨qs, rs, rfl, rfl, hrs⟩ | ⟨qs, s, rs, -, -, hrs⟩
      · obtain ⟨hqs, hclean⟩ := hps.of_append
        obtain ⟨first, rfl, hfirst⟩ := eq_raw_cons hclean.whole (by decide) hrs
        obtain ⟨rest, rfl, hrest⟩ := eq_raw_cons hclean.of_cons.whole (by decide) hfirst
        obtain ⟨qss, hqss, hall, hvisible⟩ := ih hclean.of_cons.of_cons hlast hrest
        refine ⟨qs :: qss, by rw [List.map_cons, hqss], List.forall_mem_cons.2 ⟨hqs, hall⟩, ?_⟩
        rw [List.flatten_cons, charsOf_append, charsOf_append, visible_map_append,
          visible_map_append, hvisible, visible_lineEnd_cons, visible_lineEnd_cons]
      · cases s <;> exact absurd (List.cons.inj hrs).1 (by decide)

end EventSchema.Package

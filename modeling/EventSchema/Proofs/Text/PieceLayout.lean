import EventSchema.Proofs.Text.Filling
import EventSchema.Proofs.Text.WholePieces

/-!
# Layouts of pieces

Lines that fill the source text of whole pieces are made of pieces again (`LaysOut.of_fills`). A
line may end behind the backslash of an escape, if a line may end there at all; the escape is then
split, and its second character stands first on the next line that is not empty.
-/

namespace EventSchema.Text

variable {cs ds gap : List Char} {c : Char} {ms ps qs : List Piece} {s : Special} {long : Prop}

/-- The source text of lines, each behind a line end. -/
def lineSource (lines : List (List Char)) : List Char := lines.flatMap ('\n' :: ·)

/-- Pieces that a text is laid out in, with escapes split only on a condition. -/
structure LaidOut (long : Prop) (text : List Char) (ps : List Piece) : Prop where
  ok : ∀ p ∈ ps, p.Ok
  /-- They have the characters of the text, blanks aside. -/
  characters : visible ((charsOf ps).map Char.toNat) = visible (text.map Char.toNat)
  /-- An escape is split only on the condition. -/
  long : (∃ p ∈ ps, p.isSplit = true) → long
  /-- Where none is split, no three quotes stand next to each other. -/
  clean : (∀ p ∈ ps, p.isSplit = false) → Clean ps

/-- Nothing is visible of blanks. -/
theorem visible_of_isAllBlank (h : isAllBlank cs = true) : visible (cs.map Char.toNat) = [] := by
  refine List.filter_eq_nil_iff.2 fun n hn ↦ ?_
  obtain ⟨c, hc, rfl⟩ := List.mem_map.1 hn
  have hblank : inRanges blankRanges c.toNat = true := List.all_eq_true.1 h c hc
  rw [hblank]
  exact Bool.false_ne_true

theorem isBlank_special (s : Special) : isBlank s.char = false := by cases s <;> decide +kernel

/-- Spaces and line ends are blank. -/
theorem isAllBlank_gap (h : ∀ c ∈ gap, c = ' ' ∨ c = '\n') : isAllBlank gap = true := by
  refine List.all_eq_true.2 fun c hc ↦ ?_
  rcases h c hc with rfl | rfl <;> decide +kernel

/-- Pieces have their characters in their source text. -/
theorem charsOf_subset : charsOf ps ⊆ sourceOf ps := by
  intro c hc
  obtain ⟨p, hp, rfl⟩ := List.mem_map.1 hc
  refine List.mem_flatMap.2 ⟨p, hp, ?_⟩
  cases p <;> simp [Piece.char, Piece.source]

/-- Pieces with blank source text stand for blanks. -/
theorem isAllBlank_charsOf (h : isAllBlank (sourceOf ps) = true) : isAllBlank (charsOf ps) = true :=
  List.all_eq_true.2 fun c hc ↦ List.all_eq_true.1 h c (charsOf_subset hc)

namespace LaidOut

/-- A layout is one of any text that looks the same, on any condition that is weaker. -/
theorem mono {long' : Prop} (h : LaidOut long cs ps) (hlong : long → long')
    (hvisible : visible (cs.map Char.toNat) = visible (ds.map Char.toNat)) : LaidOut long' ds ps :=
  { h with characters := h.characters.trans hvisible, long := fun hsplit ↦ hlong (h.long hsplit) }

/-- Pieces without split escapes lay out their own characters. -/
theorem of_clean (h : Clean ps) : LaidOut long (charsOf ps) ps where
  ok := h.ok
  characters := rfl
  long := fun ⟨p, hp, hsplit⟩ ↦ absurd ((h.whole p hp).symm.trans hsplit) Bool.false_ne_true
  clean _ := h

/-- Layouts stand one behind the other if no quote begins the second one. -/
theorem append (h : LaidOut long cs ps) (h' : LaidOut long ds qs)
    (hqs : (sourceOf qs).head? ≠ some '"') :
    LaidOut long (cs ++ ds) (ps ++ qs) where
  ok := List.forall_mem_append.2 ⟨h.ok, h'.ok⟩
  characters := by
    rw [charsOf_append, visible_map_append, visible_map_append, h.characters, h'.characters]
  long := by
    rintro ⟨p, hp, hsplit⟩
    rcases List.mem_append.1 hp with hp | hp
    · exact h.long ⟨p, hp, hsplit⟩
    · exact h'.long ⟨p, hp, hsplit⟩
  clean hwhole := by
    obtain ⟨hleft, hright⟩ := List.forall_mem_append.1 hwhole
    refine ⟨hwhole, List.forall_mem_append.2 ⟨h.ok, h'.ok⟩, ?_⟩
    rw [staysOpen_append hleft hqs, (h.clean hleft).stays, (h'.clean hright).stays]
    rfl

/-- Blanks may be left out. -/
theorem of_blank (h : isAllBlank cs = true) : LaidOut long cs [] where
  ok _ hp := absurd hp List.not_mem_nil
  characters := (visible_of_isAllBlank h).symm
  long := fun ⟨_, hp, _⟩ ↦ absurd hp List.not_mem_nil
  clean _ := ⟨by simp, by simp, rfl⟩

/-- Blanks may be left out at the beginning. -/
theorem blank_append (hblank : isAllBlank cs = true) (h : LaidOut long ds ps) :
    LaidOut long (cs ++ ds) ps :=
  h.mono id (by rw [visible_map_append, visible_of_isAllBlank hblank, List.nil_append])

/-- Line ends and spaces may stand before pieces. -/
theorem gap_append (hgap : ∀ c ∈ gap, c = ' ' ∨ c = '\n') (h : LaidOut long cs ps) :
    LaidOut long cs (gap.map .raw ++ ps) where
  ok := by
    refine List.forall_mem_append.2 ⟨fun p hp ↦ ?_, h.ok⟩
    obtain ⟨c, hc, rfl⟩ := List.mem_map.1 hp
    rcases hgap c hc with rfl | rfl <;> exact show _ ≠ '\\' by decide
  characters := by
    have hchars : charsOf (gap.map .raw) = gap := by simp [charsOf, Function.comp_def, Piece.char]
    rw [charsOf_append, hchars, visible_map_append, visible_of_isAllBlank (isAllBlank_gap hgap),
      h.characters, List.nil_append]
  long := by
    rintro ⟨p, hp, hsplit⟩
    rcases List.mem_append.1 hp with hp | hp
    · obtain ⟨c, -, rfl⟩ := List.mem_map.1 hp
      cases hsplit
    · exact h.long ⟨p, hp, hsplit⟩
  clean hwhole := by
    refine clean_raws (fun c hc ↦ ?_) (h.clean (List.forall_mem_append.1 hwhole).2)
    rcases hgap c hc with rfl | rfl <;> decide

/-- An escape may be split on the condition. -/
theorem split_cons (hlong : long) (hgap : ∀ c ∈ gap, c = ' ' ∨ c = '\n') (h : LaidOut long cs ps) :
    LaidOut long (s.char :: cs) (.split gap s :: ps) where
  ok := List.forall_mem_cons.2 ⟨hgap, h.ok⟩
  characters := by
    rw [visible_charsOf_cons, h.characters]
    exact (visible_append [s.char.toNat] _).symm
  long _ := hlong
  clean hwhole := absurd (hwhole _ List.mem_cons_self).symm Bool.false_ne_true

end LaidOut

theorem lineSource_cons (line : List Char) (lines : List (List Char)) :
    lineSource (line :: lines) = '\n' :: (line ++ lineSource lines) := List.flatMap_cons

theorem lineSource_append (lines more : List (List Char)) :
    lineSource (lines ++ more) = lineSource lines ++ lineSource more := List.flatMap_append

/-- The source text of lines does not begin with a quote. -/
theorem head?_lineSource (lines : List (List Char)) : (lineSource lines).head? ≠ some '"' := by
  cases lines with
  | nil => exact fun h ↦ by cases h
  | cons line lines => exact fun h ↦ absurd (Option.some.inj h) (by decide)

/-- Characters that stand for themselves are their own source text. -/
theorem sourceOf_raws (cs : List Char) : sourceOf (cs.map .raw) = cs := by
  induction cs with
  | nil => rfl
  | cons c cs ih => exact congrArg (c :: ·) ih

/-- What lines make of a text from the beginning of a piece on, and from the second character of an
escape on that is split. -/
structure LaysOut (long : Prop) (indent text : List Char) (lines : List (List Char)) : Prop where
  whole : ∀ ms, Clean ms → sourceOf ms = text →
    ∃ ps, sourceOf ps = lineSource (lines.map (indent ++ ·)) ∧ LaidOut long (charsOf ms) ps
  split : ∀ (s : Special) ms, long → Clean ms → s.char :: sourceOf ms = text →
    ∃ gap ps, lineSource (lines.map (indent ++ ·)) = '\n' :: (gap ++ s.char :: sourceOf ps) ∧
      (∀ c ∈ gap, c = ' ' ∨ c = '\n') ∧ LaidOut long (charsOf ms) ps

namespace LaysOut

variable {mayCut : Char → Prop} {indent blanks line text : List Char} {lines : List (List Char)}

/-- No lines are needed for blanks. -/
theorem of_blank (hblanks : isAllBlank text = true) : LaysOut long indent text [] where
  whole := by
    rintro ms - rfl
    exact ⟨[], rfl, .of_blank (isAllBlank_charsOf hblanks)⟩
  split := by
    rintro s ms - - rfl
    have hblank := List.all_eq_true.1 hblanks s.char List.mem_cons_self
    rw [isBlank_special] at hblank
    cases hblank

/-- What is left of a line stands before the lines behind it, or splits an escape with them. -/
theorem behind_line (h : LaysOut long indent text lines) (hlong : mayCut '\\' → long)
    (hseam : Seam mayCut line text) (hms : Clean ms) (hsource : sourceOf ms = line ++ text) :
    ∃ ps, sourceOf ps = line ++ lineSource (lines.map (indent ++ ·)) ∧
    LaidOut long (charsOf ms) ps := by
  rcases cut_source hms.whole hsource with ⟨qs, rs, rfl, rfl, rfl⟩ | ⟨qs, s, rs, rfl, rfl, rfl⟩
  · obtain ⟨hqs, hrs⟩ := hms.of_append
    obtain ⟨ps, hsource, hlaid⟩ := h.whole rs hrs rfl
    refine ⟨qs ++ ps, by rw [sourceOf_append, hsource], ?_⟩
    rw [charsOf_append]
    exact LaidOut.append (.of_clean hqs) hlaid (hsource ▸ head?_lineSource _)
  · obtain ⟨hqs, hrs⟩ := hms.of_append
    have hlong : long := hlong (hseam '\\' s.char (by simp) rfl (by decide) (by cases s <;> decide))
    obtain ⟨gap, ps, hsource, hgap, hlaid⟩ := h.split s rs hlong hrs.of_cons rfl
    refine ⟨qs ++ .split gap s :: ps, ?_, ?_⟩
    · rw [hsource, sourceOf_append, sourceOf_cons, Piece.source]
      simp
    · rw [charsOf_append]
      refine LaidOut.append (.of_clean hqs) (.split_cons hlong hgap hlaid) ?_
      exact fun h ↦ absurd (Option.some.inj h) (by decide)

/-- A line makes the beginning of a text, and the lines behind it the rest. -/
theorem cons (h : LaysOut long indent text lines) (hlong : mayCut '\\' → long)
    (hindent : ∀ c ∈ indent, c = ' ') (hblanks : isAllBlank blanks = true)
    (hseam : Seam mayCut line text) :
    LaysOut long indent (blanks ++ (line ++ text)) (line :: lines) where
  whole ms hms hsource := by
    rcases cut_source hms.whole hsource with ⟨qs, rs, rfl, rfl, hrs⟩ | ⟨qs, s, rs, -, rfl, -⟩
    · obtain ⟨ps, hps, hlaid⟩ := h.behind_line hlong hseam hms.of_append.2 hrs
      refine ⟨('\n' :: indent).map .raw ++ ps, ?_, ?_⟩
      · rw [sourceOf_append, sourceOf_raws, hps, List.map_cons, lineSource_cons]
        simp
      · rw [charsOf_append]
        refine .blank_append (isAllBlank_charsOf hblanks) (.gap_append ?_ hlaid)
        exact List.forall_mem_cons.2 ⟨.inr rfl, fun c hc ↦ .inl (hindent c hc)⟩
    · have hblank := List.all_eq_true.1 hblanks '\\' (by simp)
      exact absurd (hblank.symm.trans (isBlank_special .backslash)) (by decide)
  split s ms hs hms hsource := by
    -- the character is not blank, so it stands first on the line or, if that is empty, behind it
    obtain rfl : blanks = [] := by
      cases blanks with
      | nil => rfl
      | cons c blanks =>
        obtain ⟨rfl, -⟩ := List.cons.inj hsource
        have hblank := List.all_eq_true.1 hblanks s.char List.mem_cons_self
        exact absurd (hblank.symm.trans (isBlank_special s)) (by decide)
    have hgap : ∀ c ∈ indent, c = ' ' ∨ c = '\n' := fun c hc ↦ .inl (hindent c hc)
    cases line with
    | nil =>
      obtain ⟨gap, ps, hps, hmore, hlaid⟩ := h.split s ms hs hms hsource
      refine ⟨indent ++ '\n' :: gap, ps, ?_, ?_, hlaid⟩
      · rw [List.map_cons, lineSource_cons, hps]
        simp
      · exact List.forall_mem_append.2 ⟨hgap, List.forall_mem_cons.2 ⟨.inr rfl, hmore⟩⟩
    | cons c line =>
      obtain ⟨rfl, hrest⟩ := List.cons.inj hsource
      have hseam : Seam mayCut ([s.char] ++ line) text := hseam
      obtain ⟨ps, hps, hlaid⟩ := h.behind_line hlong hseam.of_append_left hms hrest
      refine ⟨indent, ps, ?_, hgap, hlaid⟩
      rw [List.map_cons, lineSource_cons, hps]
      simp

/-- Lines that fill a text lay it out. -/
theorem of_fills (hlong : mayCut '\\' → long) (hindent : ∀ c ∈ indent, c = ' ')
    (h : Fills mayCut text lines) :
    LaysOut long indent text lines := by
  induction h with
  | nil hblanks => exact .of_blank hblanks
  | cons hblanks hseam _ ih => exact ih.cons hlong hindent hblanks hseam

end LaysOut

end EventSchema.Text

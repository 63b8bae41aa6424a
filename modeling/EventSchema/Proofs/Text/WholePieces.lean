import EventSchema.Proofs.Text.Pieces
import EventSchema.Text.Wrap

/-!
# Whole pieces

Pieces none of which is split are read back, if no three quotes stand next to each other in them
(`Clean`). A cut of their source text is a cut between two pieces, or behind the backslash of an
escape (`cut_source`). Pieces stay whole when their blanks are levelled (`sourceOf_level`).
-/

namespace EventSchema.Text

variable {p : Piece} {ps qs : List Piece} {s : Special} {c : Char}
  {cs ds xs ys : List Char} {column : Nat}

/-- Whether a piece is split. -/
def Piece.isSplit : Piece → Bool
  | raw _ => false
  | escape _ => false
  | split _ _ => true

/-- Pieces without a split escape and without three quotes next to each other. -/
structure Clean (ps : List Piece) : Prop where
  whole : ∀ p ∈ ps, p.isSplit = false
  ok : ∀ p ∈ ps, p.Ok
  stays : staysOpen false ps = true

/-- Behind a piece that is not split no backslash is owed. -/
theorem next_of_whole (h : p.isSplit = false) : p.next false = false := by
  cases p with
  | raw c => rfl
  | escape s => rfl
  | split gap s => cases h

/-- Pieces that are not split make no escapes of their own. -/
theorem keepsEscapes_of_whole (h : ∀ p ∈ ps, p.isSplit = false) : keepsEscapes false ps = true := by
  induction ps with
  | nil => rfl
  | cons p ps ih =>
    obtain ⟨hp, hps⟩ := List.forall_mem_cons.1 h
    have hspoils : p.spoils false = false := by cases p <;> rfl
    rw [keepsEscapes, hspoils, next_of_whole hp, ih hps]
    rfl

/-! ### Quotes next to each other -/

theorem startsQuotes_of_append (h : startsQuotes cs = true) : startsQuotes (cs ++ ds) = true :=
  List.isPrefixOf_iff_prefix.2 ((List.isPrefixOf_iff_prefix.1 h).trans (List.prefix_append _ _))

/-- Two runs of pieces stay open together if each does and the second does not begin with a
quote. -/
theorem staysOpen_append (hps : ∀ p ∈ ps, p.isSplit = false)
    (hqs : (sourceOf qs).head? ≠ some '"') :
    staysOpen false (ps ++ qs) = (staysOpen false ps && staysOpen false qs) := by
  induction ps with
  | nil => rfl
  | cons p ps ih =>
    obtain ⟨hp, hps⟩ := List.forall_mem_cons.1 hps
    rw [List.cons_append, staysOpen, staysOpen, next_of_whole hp, ih hps, sourceOf_append,
      startsQuotes_append hqs, Bool.and_assoc]

/-- Pieces one after the other stay open only if both parts do. -/
theorem staysOpen_of_append (hps : ∀ p ∈ ps, p.isSplit = false)
    (h : staysOpen false (ps ++ qs) = true) :
    staysOpen false ps = true ∧ staysOpen false qs = true := by
  induction ps with
  | nil => exact ⟨rfl, h⟩
  | cons p ps ih =>
    obtain ⟨hp, hps⟩ := List.forall_mem_cons.1 hps
    rw [List.cons_append, staysOpen, next_of_whole hp, Bool.and_eq_true] at h
    obtain ⟨hleft, hright⟩ := ih hps h.2
    refine ⟨?_, hright⟩
    rw [staysOpen, next_of_whole hp, hleft, Bool.and_true]
    rw [sourceOf_append] at h
    cases hquotes : startsQuotes (sourceOf ps) with
    | false => rw [Bool.and_false, Bool.not_false]
    | true =>
      have hfirst := h.1
      rwa [startsQuotes_of_append hquotes] at hfirst

/-- Both parts of clean pieces are clean. -/
theorem Clean.of_append (h : Clean (ps ++ qs)) : Clean ps ∧ Clean qs := by
  obtain ⟨hwhole, hwhole'⟩ := List.forall_mem_append.1 h.whole
  obtain ⟨hok, hok'⟩ := List.forall_mem_append.1 h.ok
  obtain ⟨hstays, hstays'⟩ := staysOpen_of_append hwhole h.stays
  exact ⟨⟨hwhole, hok, hstays⟩, ⟨hwhole', hok', hstays'⟩⟩

theorem Clean.of_cons (h : Clean (p :: ps)) : Clean ps := (@Clean.of_append [p] ps h).2

/-! ### Cuts -/

/-- A cut of source text is a cut between two pieces, or behind the backslash of an escape. -/
theorem cut_source (hps : ∀ p ∈ ps, p.isSplit = false) (h : sourceOf ps = xs ++ ys) :
    (∃ qs rs, ps = qs ++ rs ∧ sourceOf qs = xs ∧ sourceOf rs = ys) ∨
      ∃ qs s rs, ps = qs ++ .escape s :: rs ∧ sourceOf qs ++ ['\\'] = xs ∧
      s.char :: sourceOf rs = ys := by
  induction ps generalizing xs with
  | nil =>
    obtain ⟨rfl, rfl⟩ := List.append_eq_nil_iff.1 h.symm
    exact .inl ⟨[], [], rfl, rfl, rfl⟩
  | cons p ps ih =>
    obtain ⟨hp, hps⟩ := List.forall_mem_cons.1 hps
    rw [sourceOf_cons] at h
    rcases List.append_eq_append_iff.1 h with ⟨front, rfl, hsource⟩ | ⟨back, hsource, rfl⟩
    · rcases ih hps hsource with ⟨qs, rs, rfl, rfl, rfl⟩ | ⟨qs, s, rs, rfl, rfl, rfl⟩
      · exact .inl ⟨p :: qs, rs, rfl, rfl, rfl⟩
      · exact .inr ⟨p :: qs, s, rs, rfl, List.append_assoc _ _ _, rfl⟩
    · -- the cut is in front of the piece, behind it or inside of it
      rcases xs with _ | ⟨c, xs⟩
      · refine .inl ⟨[], p :: ps, rfl, rfl, ?_⟩
        rw [sourceOf_cons, hsource]
        rfl
      · rcases back with _ | ⟨d, back⟩
        · refine .inl ⟨[p], ps, rfl, ?_, rfl⟩
          rw [sourceOf, List.flatMap_singleton, hsource, List.append_nil]
        · cases p with
          | raw e =>
            have hlength := congrArg List.length hsource
            simp [Piece.source] at hlength
          | escape s =>
            obtain ⟨rfl, htail⟩ := List.cons.inj hsource
            rcases List.append_eq_singleton_iff.1 htail.symm with ⟨rfl, hback⟩ | ⟨-, hback⟩
            · obtain ⟨rfl, rfl⟩ := List.cons.inj hback
              exact .inr ⟨[], s, ps, rfl, rfl, rfl⟩
            · cases hback
          | split gap s => cases hp

/-- Source text that begins with another character than a backslash begins with that character for a
piece. -/
theorem eq_raw_cons (hps : ∀ p ∈ ps, p.isSplit = false) (hc : c ≠ '\\')
    (h : sourceOf ps = c :: cs) :
    ∃ qs, ps = .raw c :: qs ∧ sourceOf qs = cs := by
  cases ps with
  | nil => cases h
  | cons p ps =>
    cases p with
    | raw d =>
      obtain ⟨rfl, hcs⟩ := List.cons.inj h
      exact ⟨ps, rfl, hcs⟩
    | escape s => exact absurd (List.cons.inj h).1.symm hc
    | split gap s => exact absurd (List.cons.inj h).1.symm hc

theorem Special.char_injective : Function.Injective Special.char := fun s t h ↦ by
  cases s <;> cases t <;> first | rfl | cases h

/-- Where a gap ends is seen by the character behind it. -/
theorem gap_char_inj {gap gap' : List Char} {t : Special} (hgap : ∀ c ∈ gap, c = ' ' ∨ c = '\n')
    (hgap' : ∀ c ∈ gap', c = ' ' ∨ c = '\n') (h : gap ++ s.char :: xs = gap' ++ t.char :: ys) :
    gap = gap' ∧ s = t ∧ xs = ys := by
  have hchar (s : Special) : ¬(s.char = ' ' ∨ s.char = '\n') := by cases s <;> decide
  induction gap generalizing gap' with
  | nil =>
    cases gap' with
    | nil =>
      obtain ⟨hs, hxs⟩ := List.cons.inj h
      exact ⟨rfl, Special.char_injective hs, hxs⟩
    | cons c gap' => exact absurd ((List.cons.inj h).1 ▸ hgap' c List.mem_cons_self) (hchar s)
  | cons c gap ih =>
    obtain ⟨hc, hgap⟩ := List.forall_mem_cons.1 hgap
    cases gap' with
    | nil => exact absurd ((List.cons.inj h).1 ▸ hc) (hchar t)
    | cons d gap' =>
      obtain ⟨rfl, htail⟩ := List.cons.inj h
      obtain ⟨rfl, hrest⟩ := ih hgap (List.forall_mem_cons.1 hgap').2 htail
      exact ⟨rfl, hrest⟩

/-- A piece is known from the source text that it begins. -/
theorem Piece.source_append_inj {q : Piece} (hp : p.Ok) (hq : q.Ok)
    (h : p.source ++ xs = q.source ++ ys) :
    p = q ∧ xs = ys := by
  have hline (s : Special) : s.char ≠ '\n' := by cases s <;> decide
  obtain ⟨hfirst, htail⟩ : p.source.head? = q.source.head? ∧
    p.source.tail ++ xs = q.source.tail ++ ys := by
    cases p <;> cases q <;> exact ⟨congrArg some (List.cons.inj h).1, (List.cons.inj h).2⟩
  cases p with
  | raw c =>
    cases q with
    | raw d => exact ⟨congrArg raw (Option.some.inj hfirst), htail⟩
    | escape t => exact absurd (Option.some.inj hfirst) hp
    | split gap t => exact absurd (Option.some.inj hfirst) hp
  | escape s =>
    cases q with
    | raw d => exact absurd (Option.some.inj hfirst).symm hq
    | escape t =>
      obtain ⟨hs, hxs⟩ := List.cons.inj htail
      exact ⟨congrArg escape (Special.char_injective hs), hxs⟩
    | split gap t => exact absurd (List.cons.inj htail).1 (hline s)
  | split gap s =>
    cases q with
    | raw d => exact absurd (Option.some.inj hfirst).symm hq
    | escape t => exact absurd (List.cons.inj htail).1.symm (hline t)
    | split gap' t =>
      have hgaps : gap ++ s.char :: xs = gap' ++ t.char :: ys := by simpa [source] using htail
      obtain ⟨rfl, rfl, hxs⟩ := gap_char_inj hp hq hgaps
      exact ⟨rfl, hxs⟩

theorem Piece.source_ne_nil (p : Piece) : p.source ≠ [] := by cases p <;> exact List.cons_ne_nil _ _

/-- Source text is made up of pieces in one way. -/
theorem eq_of_sourceOf_eq (hps : ∀ p ∈ ps, p.Ok) (hqs : ∀ p ∈ qs, p.Ok)
    (h : sourceOf ps = sourceOf qs) : ps = qs := by
  have hnil {p : Piece} {ps : List Piece} (h : sourceOf (p :: ps) = []) : False :=
    p.source_ne_nil (List.append_eq_nil_iff.1 ((sourceOf_cons p ps).symm.trans h)).1
  induction ps generalizing qs with
  | nil =>
    cases qs with
    | nil => rfl
    | cons q qs => exact (hnil h.symm).elim
  | cons p ps ih =>
    cases qs with
    | nil => exact (hnil h).elim
    | cons q qs =>
      obtain ⟨hp, hps⟩ := List.forall_mem_cons.1 hps
      obtain ⟨hq, hqs⟩ := List.forall_mem_cons.1 hqs
      rw [sourceOf_cons, sourceOf_cons] at h
      obtain ⟨hpq, hrest⟩ := Piece.source_append_inj hp hq h
      rw [hpq, ih hps hqs hrest]

/-! ### Levelled blanks -/

/-- Pieces with their blanks levelled, from a column on. -/
def level : (column : Nat) → List Piece → List Piece
  | _, [] => []
  | column, .raw c :: ps =>
    if c = '\t' then
      List.replicate (8 - column % 8) (.raw ' ') ++ level (column + (8 - column % 8)) ps
    else .raw (if isAsciiBlank c then ' ' else c) :: level (if c = '\n' ∨ c = '\r' then 0
      else column + 1) ps
  | column, .escape s :: ps => .escape s :: level (column + 1 + 1) ps
  | column, .split gap s :: ps => .split gap s :: level column ps

/-- Levelling blanks is expanding tabs and making all blanks spaces. -/
theorem sourceOf_level (hps : ∀ p ∈ ps, p.isSplit = false) : sourceOf (level column ps) =
    (expandTabs column (sourceOf ps)).map fun c ↦ if isAsciiBlank c then ' ' else c := by
  induction ps generalizing column with
  | nil => rfl
  | cons p ps ih =>
    obtain ⟨hp, hleft⟩ := List.forall_mem_cons.1 hps
    cases p with
    | raw c =>
      have hsource : sourceOf (.raw c :: ps) = c :: sourceOf ps := rfl
      rw [level, hsource, expandTabs]
      split
      · rw [sourceOf_append, ih hleft, List.map_append]
        simp [sourceOf, Piece.source, List.flatMap_replicate, isAsciiBlank]
      · rw [sourceOf_cons, List.map_cons]
        exact congrArg _ (ih hleft)
    | escape s =>
      have hsource : sourceOf (.escape s :: ps) = '\\' :: s.char :: sourceOf ps := rfl
      have hslash : ¬('\\' = '\n' ∨ '\\' = '\r') := by decide
      have htab : s.char ≠ '\t' := by cases s <;> decide
      have hline : ¬(s.char = '\n' ∨ s.char = '\r') := by cases s <;> decide
      have hblank : isAsciiBlank s.char = false := by cases s <;> decide
      rw [level, hsource, expandTabs, if_neg (by decide), if_neg hslash, expandTabs, if_neg htab,
        if_neg hline, List.map_cons, List.map_cons, hblank, ← ih hleft]
      rfl
    | split gap s => cases hp

/-- Blanks are not visible. -/
theorem visible_of_isAsciiBlank (h : isAsciiBlank c = true) : visible [c.toNat] = [] := by
  have hall : ∀ n < 33, n = 32 ∨ 9 ≤ n ∧ n ≤ 13 → visible [n] = [] := by decide +kernel
  have hc : c.toNat = 32 ∨ 9 ≤ c.toNat ∧ c.toNat ≤ 13 := by
    simpa [isAsciiBlank, ← Char.toNat_inj] using h
  exact hall _ (by omega) hc

theorem visible_replicate (n : Nat) :
    visible ((charsOf (List.replicate n (.raw ' '))).map Char.toNat) = [] := by
  induction n with
  | zero => rfl
  | succ n ih =>
    rw [List.replicate_succ, visible_charsOf_cons, ih, List.append_nil]
    exact visible_of_isAsciiBlank (by decide)

/-- Levelling blanks changes blanks alone. -/
theorem visible_level : visible ((charsOf (level column ps)).map Char.toNat) =
    visible ((charsOf ps).map Char.toNat) := by
  induction ps generalizing column with
  | nil => rfl
  | cons p ps ih =>
    cases p with
    | raw c =>
      rw [level, visible_charsOf_cons]
      split
      · next htab =>
        rw [charsOf_append, visible_map_append, visible_replicate, ih, Piece.char,
          visible_of_isAsciiBlank (by rw [htab]; decide)]
      · rw [visible_charsOf_cons, ih, Piece.char, Piece.char]
        split
        · next hblank => rw [visible_of_isAsciiBlank hblank, visible_of_isAsciiBlank (by decide)]
        · rfl
    | escape s => rw [level, visible_charsOf_cons, visible_charsOf_cons, ih]
    | split gap s => rw [level, visible_charsOf_cons, visible_charsOf_cons, ih]

/-- A quote among levelled characters is a quote among the characters. -/
theorem exists_of_levelled
    (h : (expandTabs column cs).map (fun c ↦ if isAsciiBlank c then ' ' else c) = '"' :: xs) :
    ∃ column ds, cs = '"' :: ds ∧
    (expandTabs column ds).map (fun c ↦ if isAsciiBlank c then ' ' else c) = xs := by
  cases cs with
  | nil => cases h
  | cons c cs =>
    rw [expandTabs] at h
    split at h
    · obtain ⟨k, hk⟩ : ∃ k, 8 - column % 8 = k + 1 := ⟨7 - column % 8, by omega⟩
      rw [hk, List.replicate_succ, List.cons_append, List.map_cons] at h
      exact absurd (List.cons.inj h).1 (by decide)
    · rw [List.map_cons] at h
      obtain ⟨hc, hcs⟩ := List.cons.inj h
      split at hc
      · cases hc
      · exact ⟨_, cs, by rw [hc], hcs⟩

/-- Levelling blanks brings no quotes to the front. -/
theorem startsQuotes_level (hps : ∀ p ∈ ps, p.isSplit = false)
    (h : startsQuotes (sourceOf (level column ps)) = true) : startsQuotes (sourceOf ps) = true := by
  rw [sourceOf_level hps] at h
  obtain ⟨rest, hrest⟩ := List.isPrefixOf_iff_prefix.1 h
  obtain ⟨column, ds, hds, hmore⟩ := exists_of_levelled hrest.symm
  obtain ⟨column, es, rfl, -⟩ := exists_of_levelled hmore
  rw [hds]
  rfl

/-- Characters other than quotes and backslashes change nothing about the pieces behind them. -/
theorem clean_raws (hcs : ∀ c ∈ cs, c ≠ '"' ∧ c ≠ '\\') (h : Clean ps) :
    Clean (cs.map .raw ++ ps) := by
  induction cs with
  | nil => exact h
  | cons c cs ih =>
    obtain ⟨⟨hquote, hslash⟩, hcs⟩ := List.forall_mem_cons.1 hcs
    have hclean := ih hcs
    have hbare : (Piece.raw c).bares false = false := beq_false_of_ne hquote
    refine ⟨List.forall_mem_cons.2 ⟨rfl, hclean.whole⟩,
      List.forall_mem_cons.2 ⟨hslash, hclean.ok⟩, ?_⟩
    rw [List.map_cons, List.cons_append, staysOpen, hbare, Bool.false_and, Bool.not_false,
      Bool.true_and]
    exact hclean.stays

/-- Clean pieces stay clean when their blanks are levelled. -/
theorem Clean.level (h : Clean ps) : Clean (level column ps) := by
  induction ps generalizing column with
  | nil => exact h
  | cons p ps ih =>
    have hps := h.of_cons
    have hstays := h.stays
    cases p with
    | raw c =>
      rw [Text.level]
      split
      · rw [← List.map_replicate]
        refine clean_raws (fun c hc ↦ ?_) (ih hps)
        rw [List.eq_of_mem_replicate hc]
        decide
      · next htab =>
        rw [staysOpen, Bool.and_eq_true] at hstays
        refine ⟨List.forall_mem_cons.2 ⟨rfl, (ih hps).whole⟩,
          List.forall_mem_cons.2 ⟨?_, (ih hps).ok⟩, ?_⟩
        · split
          · exact show ' ' ≠ '\\' by decide
          · exact h.ok _ List.mem_cons_self
        · rw [staysOpen, Bool.and_eq_true, Bool.not_eq_true', Bool.and_eq_false_iff]
          refine ⟨or_iff_not_imp_right.2 fun hquotes ↦ ?_, (ih hps).stays⟩
          have hstarts := startsQuotes_level hps.whole (Bool.of_not_eq_false hquotes)
          have hc : (c == '"') = false := by simpa [Piece.bares, hstarts] using hstays.1
          split
          · rfl
          · exact hc
    | escape s =>
      exact ⟨List.forall_mem_cons.2 ⟨rfl, (ih hps).whole⟩,
        List.forall_mem_cons.2 ⟨trivial, (ih hps).ok⟩, (ih hps).stays⟩
    | split gap s => cases h.whole _ List.mem_cons_self

end EventSchema.Text

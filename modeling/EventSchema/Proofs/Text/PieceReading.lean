import EventSchema.Proofs.Text.Pieces
import Mathlib.Data.List.TakeWhile

/-!
# Reading pieces back

A backslash that is owed and makes an escape with what follows is not in the value, and the escape
stands for one character at most. It takes whole pieces (`decode_of_spoils`), so the value has fewer
characters than the pieces, blanks aside (`length_seen_lt`). Hence pieces are read as their
characters exactly if no escape is made and no quote ends the text early (`readsAs_iff`).
-/

namespace EventSchema.Text

variable {names : List Char → Option Nat} {p : Piece} {ps : List Piece} {c d : Char} {owed : Bool}
variable {cs rest body quotes indent : List Char} {codes : List Nat}

/-! ### Escapes that spoil the value -/

/-- A character that stands for itself wherever it is written: no backslash, no quote, no line end
and no space. -/
def IsMark (c : Char) : Prop := c ∉ ['\\', '"', '\n', ' ']

instance (c : Char) : Decidable (IsMark c) := inferInstanceAs (Decidable (c ∉ _))

theorem eq_raw_of_mem_source (hp : p.Ok) (hd : IsMark d) (h : d ∈ p.source) : p = .raw d := by
  have hspecial (s : Special) : d ≠ s.char := by
    rintro rfl
    cases s <;> exact absurd hd (by decide)
  have hslash : d ≠ '\\' := hspecial .backslash
  have hgap : ¬(d = ' ' ∨ d = '\n') := by
    rintro (rfl | rfl) <;> exact absurd hd (by decide)
  cases p with
  | raw c => rw [List.mem_singleton.1 h]
  | escape s => exact ((List.mem_pair.1 h).elim hslash (hspecial s)).elim
  | split gap s =>
    rw [Piece.source, List.mem_cons, List.mem_cons, List.mem_append, List.mem_singleton] at h
    rcases h with h | h | h | h
    · exact absurd h hslash
    · exact absurd (.inr h) hgap
    · exact absurd (hp d h) hgap
    · exact absurd h (hspecial s)

/-- Behind such a character, the rest of the source is that of the pieces that are left. -/
theorem exists_suffix (hps : ∀ p ∈ ps, p.Ok) (hindent : ∀ c ∈ indent, c = ' ') (hd : IsMark d)
    (h : sourceOf ps ++ '\n' :: indent = cs ++ d :: rest) :
    ∃ qs, qs <:+ ps ∧ sourceOf qs ++ '\n' :: indent = rest := by
  induction ps generalizing cs with
  | nil =>
    have hmem : d ∈ '\n' :: indent := by
      rw [sourceOf, List.flatMap_nil, List.nil_append] at h
      exact h ▸ List.mem_append_right _ List.mem_cons_self
    rcases List.mem_cons.1 hmem with rfl | hmem
    · exact absurd hd (by decide)
    · rw [hindent d hmem] at hd
      exact absurd hd (by decide)
  | cons p ps ih =>
    obtain ⟨hp, hps⟩ := List.forall_mem_cons.1 hps
    rw [sourceOf_cons, List.append_assoc] at h
    rcases List.append_eq_append_iff.1 h with ⟨front, hcs, hrest⟩ | ⟨front, hp', hrest⟩
    · obtain ⟨qs, hqs, hsource⟩ := ih hps hrest
      exact ⟨qs, hqs.trans (List.suffix_cons _ _), hsource⟩
    · cases front with
      | nil =>
        obtain ⟨qs, hqs, hsource⟩ := @ih [] hps hrest.symm
        exact ⟨qs, hqs.trans (List.suffix_cons _ _), hsource⟩
      | cons c front =>
        obtain rfl : d = c := (List.cons.inj hrest).1
        have hmem : d ∈ p.source := hp' ▸ List.mem_append_right _ List.mem_cons_self
        obtain rfl : p = .raw d := eq_raw_of_mem_source hp hd hmem
        obtain rfl : front = [] := by
          have hlength := congrArg List.length hp'
          simp only [Piece.source, List.length_append, List.length_cons, List.length_nil] at hlength
          exact List.eq_nil_of_length_eq_zero (by omega)
        exact ⟨ps, List.suffix_cons _ _, (List.cons.inj hrest).2.symm⟩

/-- What holds of no backslash, quote, line end or space holds of such characters alone. -/
theorem isMark_of {P : Char → Prop} (hslash : ¬P '\\') (hquote : ¬P '"')
    (hline : ¬P '\n') (hspace : ¬P ' ') (h : P d) : IsMark d := by
  intro hd
  simp only [List.mem_cons, List.not_mem_nil, or_false] at hd
  rcases hd with rfl | rfl | rfl | rfl
  · exact hslash h
  · exact hquote h
  · exact hline h
  · exact hspace h

theorem isMark_of_hexValue? {n : Nat} (h : hexValue? d = some n) : IsMark d := by
  have hsome : (hexValue? d).isSome = true := Option.isSome_of_mem h
  exact @isMark_of _ (fun d ↦ (hexValue? d).isSome = true) (by decide) (by decide)
    (by decide) (by decide) hsome

theorem isMark_of_isOctal (h : isOctal d = true) : IsMark d :=
  @isMark_of _ (fun d ↦ isOctal d = true) (by decide) (by decide) (by decide) (by decide) h

theorem exists_of_readHex {w value n : Nat} (h : readHex (w + 1) value cs = some n) :
    ∃ front d rest, cs = front ++ d :: rest ∧ front.length = w ∧ IsMark d := by
  induction w generalizing value cs with
  | zero =>
    cases cs with
    | nil => cases h
    | cons d cs =>
      obtain ⟨digit, hdigit, -⟩ := Option.bind_eq_some_iff.1 h
      exact ⟨[], d, cs, rfl, rfl, isMark_of_hexValue? hdigit⟩
  | succ w ih =>
    cases cs with
    | nil => cases h
    | cons c cs =>
      obtain ⟨digit, -, h⟩ := Option.bind_eq_some_iff.1 h
      obtain ⟨front, d, rest, rfl, rfl, hd⟩ := ih h
      exact ⟨c :: front, d, rest, rfl, rfl, hd⟩

theorem spoils_iff : (Piece.raw c).spoils true = true ↔
    c = '\n' ∨ (shortEscapes.lookup c).isSome = true ∨ isOctal c = true ∨ c = 'x' ∨
    c = 'u' ∨ c = 'U' ∨ c = 'N' := by
  simp [Piece.spoils, or_assoc]

theorem visible_of_spoils (hc : (Piece.raw c).spoils true = true) (hline : c ≠ '\n') :
    visible [c.toNat] = [c.toNat] := by
  have hascii : ∀ n < 0x7F, 0x21 ≤ n → visible [n] = [n] := by decide +kernel
  have hshort : ∀ e ∈ shortEscapes, 0x21 ≤ e.1.toNat ∧ e.1.toNat < 0x7F := by decide
  suffices hrange : 0x21 ≤ c.toNat ∧ c.toNat < 0x7F from hascii _ hrange.2 hrange.1
  rcases spoils_iff.1 hc with h | h | h | rfl | rfl | rfl | rfl
  · exact absurd h hline
  · obtain ⟨code, hcode⟩ := Option.isSome_iff_exists.1 h
    obtain ⟨front, rest, heq, -⟩ := List.lookup_eq_some_iff.1 hcode
    exact hshort (c, code) (heq ▸ List.mem_append_right _ List.mem_cons_self)
  · obtain ⟨hlow, hhigh⟩ := Bool.and_eq_true_iff.1 h
    have hlow' : 0x30 ≤ c.toNat := of_decide_eq_true hlow
    have hhigh' : c.toNat ≤ 0x37 := of_decide_eq_true hhigh
    omega
  all_goals decide

/-- The digits of an octal escape. -/
theorem exists_of_takeWhile (hc : isOctal c = true) :
    ((c :: cs.take 2).takeWhile isOctal).length = 1 ∨
    ∃ front d rest, cs = front ++ d :: rest ∧
      ((c :: cs.take 2).takeWhile isOctal).length = front.length + 2 ∧ IsMark d := by
  rw [List.takeWhile_cons_of_pos hc]
  rcases List.eq_nil_or_concat ((cs.take 2).takeWhile isOctal) with h | ⟨front, d, h⟩
  · exact .inl (by rw [h]; rfl)
  · obtain ⟨rest, hrest⟩ :=
      (@List.takeWhile_prefix _ (cs.take 2) isOctal).trans (List.take_prefix 2 cs)
    rw [List.concat_eq_append] at h
    have hmem : d ∈ (cs.take 2).takeWhile isOctal :=
      h ▸ List.mem_append_right _ (List.mem_singleton_self d)
    have hd : isOctal d = true := List.mem_takeWhile_imp hmem
    rw [h] at hrest ⊢
    exact .inr ⟨front, d, rest, by simpa using hrest.symm, by simp, isMark_of_isOctal hd⟩

theorem exists_of_mem_closing (h : '\x7d' ∈ cs) :
    ∃ rest, cs = cs.takeWhile (· != '\x7d') ++ '\x7d' :: rest := by
  induction cs with
  | nil => cases h
  | cons c cs ih =>
    by_cases hc : c = '\x7d'
    · subst hc
      exact ⟨cs, rfl⟩
    · obtain ⟨rest, hrest⟩ := ih ((List.mem_cons.1 h).resolve_left (Ne.symm hc))
      refine ⟨rest, ?_⟩
      rw [List.takeWhile_cons_of_pos (by simpa using hc), List.cons_append, ← hrest]

theorem exists_of_readName {taken : Nat} (h : readName names cs = some (codes, taken)) :
    codes.length = 1 ∧ ∃ front d rest, cs = front ++ d :: rest ∧
    taken = front.length + 2 ∧ IsMark d := by
  unfold readName at h
  split at h
  · next cs =>
    dsimp only at h
    split at h
    · next hend =>
      obtain ⟨code, -, hcode⟩ := Option.map_eq_some_iff.1 h
      cases hcode
      obtain ⟨rest, hrest⟩ := exists_of_mem_closing hend
      refine ⟨rfl, '\x7b' :: cs.takeWhile (· != '\x7d'), '\x7d', rest, congrArg ('\x7b' :: ·) hrest,
        ?_, by decide⟩
      rw [List.length_cons]
    · cases h
  · cases h

/-- An escape that an owed backslash makes stands for one code point at most, and takes characters
up to one that stands for itself. -/
theorem exists_of_readEscape {taken : Nat} (hc : (Piece.raw c).spoils true = true)
    (h : readEscape names (c :: cs) = some (codes, taken)) :
    (visible codes).length ≤ (visible [c.toNat]).length ∧ (taken = 1 ∨ ∃ front d rest,
      cs = front ++ d :: rest ∧ taken = front.length + 2 ∧ IsMark d) := by
  by_cases hline : c = '\n'
  · subst hline
    cases h
    exact ⟨Nat.zero_le _, .inl rfl⟩
  suffices hone : codes.length = 1 ∧ (taken = 1 ∨ ∃ front d rest,
      cs = front ++ d :: rest ∧ taken = front.length + 2 ∧ IsMark d) by
    rw [visible_of_spoils hc hline]
    exact ⟨Nat.le_trans (List.length_filter_le _ _) (Nat.le_of_eq hone.1), hone.2⟩
  rw [readEscape, if_neg hline] at h
  split at h
  · cases h
    exact ⟨rfl, .inl rfl⟩
  split at h
  · next hoctal =>
    cases h
    exact ⟨rfl, exists_of_takeWhile hoctal⟩
  -- an escape with a fixed number of hexadecimal digits
  have hdigits {w : Nat} {number : Option Nat}
      (hnumber : ∀ code, number = some code → readHex (w + 1) 0 cs = some code)
      (h : number.map (fun code ↦ ([code], w + 2)) = some (codes, taken)) :
      codes.length = 1 ∧ (taken = 1 ∨
        ∃ front d rest, cs = front ++ d :: rest ∧ taken = front.length + 2 ∧ IsMark d) := by
    obtain ⟨code, hcode, heq⟩ := Option.map_eq_some_iff.1 h
    cases heq
    obtain ⟨front, d, rest, hcs, rfl, hd⟩ := exists_of_readHex (hnumber code hcode)
    exact ⟨rfl, .inr ⟨front, d, rest, hcs, rfl, hd⟩⟩
  split at h
  · exact hdigits (fun _ ↦ id) h
  split at h
  · exact hdigits (fun _ ↦ id) h
  split at h
  · exact hdigits (fun code hcode ↦ (Option.filter_eq_some_iff.1 hcode).1) h
  split at h
  · obtain ⟨hone, hmark⟩ := exists_of_readName h
    exact ⟨hone, .inr hmark⟩
  · next hshort hoctal hx hu hU hN =>
    rw [spoils_iff, hshort] at hc
    simp [hline, hoctal, hx, hu, hU, hN] at hc

/-- An escape that an owed backslash makes takes whole pieces. -/
theorem decode_of_spoils {taken : Nat} (hps : ∀ p ∈ ps, p.Ok) (hindent : ∀ c ∈ indent, c = ' ')
    (hc : (Piece.raw c).spoils true = true)
    (h : readEscape names (c :: (sourceOf ps ++ '\n' :: indent)) = some (codes, taken)) :
    ∃ qs, qs <:+ ps ∧ decode names taken (c :: (sourceOf ps ++ '\n' :: indent)) =
      decode names 0 (sourceOf qs ++ '\n' :: indent) := by
  rcases (exists_of_readEscape hc h).2 with rfl | ⟨front, d, rest, hsource, rfl, hd⟩
  · exact ⟨ps, List.suffix_rfl, rfl⟩
  · obtain ⟨qs, hqs, hrest⟩ := exists_suffix hps hindent hd hsource
    refine ⟨qs, hqs, ?_⟩
    rw [hsource, hrest]
    have hlength : (c :: (front ++ [d])).length = front.length + 2 := by simp
    rw [← decode_append_of_length hlength]
    simp

/-- Where an escape spoils the value, fewer characters are read than there are, blanks aside. -/
theorem length_seen_lt (hps : ∀ p ∈ ps, p.Ok) (hindent : ∀ c ∈ indent, c = ' ')
    (h : keepsEscapes owed ps = false)
    (hseen : seen names (owing owed ++ (sourceOf ps ++ '\n' :: indent)) = some codes) :
    codes.length < (late owed ++ visible ((charsOf ps).map Char.toNat)).length := by
  -- an escape may take several pieces, so the induction is on the number of pieces
  induction hn : ps.length using Nat.strongRecOn generalizing ps owed codes with
  | _ n ih =>
  have hle {qs : List Piece} {more : List Nat} (hqs : ∀ p ∈ qs, p.Ok) (hlength : qs.length < n)
      (hseen : seen names (sourceOf qs ++ '\n' :: indent) = some more) :
      more.length ≤ (visible ((charsOf qs).map Char.toNat)).length := by
    cases hkeeps : keepsEscapes false qs with
    | true =>
      have hall := seen_sourceOf names hqs hindent hkeeps
      rw [Option.some.inj (hseen.symm.trans hall)]
      exact Nat.le_refl _
    | false => exact Nat.le_of_lt (ih _ hlength hqs hkeeps hseen rfl)
  cases ps with
  | nil =>
    cases owed with
    | false => cases h
    | true =>
      have hnone : seen names ('\\' :: '\n' :: indent) = some [] := by
        rw [seen_escape readEscape_lineEnd, seen_blanks fun c hc ↦ .inl (hindent c hc)]
        rfl
      rw [Option.some.inj (hseen.symm.trans hnone)]
      exact Nat.zero_lt_one
  | cons p ps =>
    obtain ⟨hp, hleft⟩ := List.forall_mem_cons.1 hps
    have hlength : ps.length < n := hn ▸ Nat.lt_succ_self _
    rw [sourceOf_cons, List.append_assoc] at hseen
    rw [visible_charsOf_cons]
    cases hspoils : p.spoils owed with
    | false =>
      obtain ⟨first, hfirst, hread⟩ := seen_piece names hp hspoils
      rw [hread] at hseen
      obtain ⟨more, hmore, rfl⟩ := Option.map_eq_some_iff.1 hseen
      have hkeeps : keepsEscapes (p.next owed) ps = false := by
        rw [keepsEscapes, hspoils] at h
        exact h
      have hlt := ih _ hlength hleft hkeeps hmore rfl
      have hcount := congrArg List.length hfirst
      simp only [List.length_append] at hlt hcount ⊢
      omega
    | true =>
      obtain ⟨c, rfl, rfl⟩ : ∃ c, p = .raw c ∧ owed = true := by
        cases p with
        | raw c => exact ⟨c, rfl, (Bool.and_eq_true_iff.1 hspoils).1⟩
        | escape s => cases hspoils
        | split gap s => cases hspoils
      obtain ⟨value, hvalue, rfl⟩ := Option.map_eq_some_iff.1 hseen
      have hread :
          decode names 0 ('\\' :: c :: (sourceOf ps ++ '\n' :: indent)) = some value := hvalue
      rw [decode, if_pos rfl] at hread
      split at hread
      · next first taken hescape =>
        obtain ⟨more, hmore, rfl⟩ := Option.map_eq_some_iff.1 hread
        obtain ⟨qs, hqs, hrest⟩ := decode_of_spoils hleft hindent hspoils hescape
        have hfirst := (exists_of_readEscape hspoils hescape).1
        have hmore' :=
          hle (fun p hp ↦ hleft p (hqs.subset hp)) (Nat.lt_of_le_of_lt hqs.length_le hlength)
          (congrArg (Option.map visible) (hrest.symm.trans hmore))
        have hqs' := (((hqs.sublist.map Piece.char).map Char.toNat).filter fun n ↦
          !inRanges blankRanges n).length_le
        rw [visible_append]
        simp only [List.length_append, late, if_true, List.length_singleton, Piece.char]
        simp only [visible, charsOf] at hmore' hfirst hqs' ⊢
        omega
      · cases hread

/-! ### Reading back -/

/-- Source text is one literal, and its value has the characters of a text, blanks aside. -/
def ReadsAs (names : List Char → Option Nat) (source cs : List Char) : Prop :=
  ∃ codes, evaluate names source = some codes ∧ visible codes = visible (cs.map Char.toNat)

theorem eq_of_readBody (h : readBody quotes cs = some (body, rest)) :
    cs = body ++ (quotes ++ rest) := by
  induction cs using readBody.induct quotes generalizing body with
  | case1 => cases h
  | case2 c cs ih =>
    rw [readBody_escape] at h
    obtain ⟨found, hfound, heq⟩ := Option.map_eq_some_iff.1 h
    cases heq
    rw [ih hfound]
    rfl
  | case3 c cs hescape hquotes =>
    rw [readBody, if_pos hquotes] at h
    · cases h
      exact (List.prefix_iff_eq_append.1 (List.isPrefixOf_iff_prefix.1 hquotes)).symm
    · exact hescape
  | case4 c cs hescape hquotes hline =>
    rw [readBody, if_neg hquotes, if_pos hline] at h
    · cases h
    · exact hescape
  | case5 c cs hescape hquotes hline ih =>
    rw [readBody, if_neg hquotes, if_neg hline] at h
    · obtain ⟨found, hfound, heq⟩ := Option.map_eq_some_iff.1 h
      cases heq
      rw [ih hfound]
      rfl
    · exact hescape

/-- Text between three quotes is a literal if nothing stands behind the first three quotes in it. -/
theorem evaluate_threeQuotes (hreturn : '\r' ∉ cs) (hnul : '\x00' ∉ cs) :
    evaluate names (threeQuotes ++ (cs ++ threeQuotes)) =
      if behindQuotes (cs ++ threeQuotes) = some [] then decode names 0 cs else none := by
  have hnone {c : Char} (hc : c ∉ cs) (hquote : c ≠ '"') :
      c ∉ threeQuotes ++ (cs ++ threeQuotes) := by
    simp [threeQuotes, hc, hquote]
  have hunify := unifyLineEnds_of_notMem (hnone hreturn (by decide))
  have hcontains : (threeQuotes ++ (cs ++ threeQuotes)).contains '\x00' = false := by
    simpa using hnone hnul (by decide)
  have hprefix : threeQuotes.isPrefixOf (threeQuotes ++ (cs ++ threeQuotes)) = true :=
    List.isPrefixOf_iff_prefix.2 (List.prefix_append _ _)
  have hquotes : quotesOf (threeQuotes ++ (cs ++ threeQuotes)) = threeQuotes := if_pos hprefix
  rw [evaluate, hunify, if_neg (by rw [hcontains]; exact Bool.false_ne_true), readLiteral, hquotes,
    if_pos hprefix, List.drop_left, behindQuotes]
  cases hbody : readBody threeQuotes (cs ++ threeQuotes) with
  | none => rfl
  | some found =>
    obtain ⟨body, rest⟩ := found
    simp only [Option.bind_some, Option.map_some]
    cases rest with
    | nil =>
      have hbody : cs = body := List.append_cancel_right (eq_of_readBody hbody)
      rw [if_pos rfl, hbody]
      cases decode names 0 body <;> rfl
    | cons c rest =>
      rw [if_neg (by simp)]
      cases decode names 0 body <;> rfl

/-- **Reading pieces back.** Between three quotes, pieces are read as their characters, blanks
aside, exactly if no backslash that is owed makes an escape and no quote that is not escaped for the
reader stands before two more. -/
theorem readsAs_iff (hps : ∀ p ∈ ps, p.Ok) (hindent : ∀ c ∈ indent, c = ' ')
    (hreturn : '\r' ∉ sourceOf ps) (hnul : '\x00' ∉ sourceOf ps) :
    ReadsAs names (threeQuotes ++ (sourceOf ps ++ ending indent)) (charsOf ps) ↔
      keepsEscapes false ps = true ∧ staysOpen false ps = true := by
  have hlast {c : Char} (hc : c ∉ sourceOf ps) (hline : c ≠ '\n') (hspace : c ≠ ' ') :
      c ∉ sourceOf ps ++ '\n' :: indent := by
    simp only [List.mem_append, List.mem_cons, not_or]
    exact ⟨hc, hline, fun hmem ↦ hspace (hindent c hmem)⟩
  have hsource : sourceOf ps ++ ending indent = sourceOf ps ++ '\n' :: indent ++ threeQuotes := by
    rw [ending, List.append_assoc]
    rfl
  have hopen : behindQuotes (sourceOf ps ++ '\n' :: indent ++ threeQuotes) = some [] ↔
      staysOpen false ps = true := by
    rw [← hsource]
    exact @behindQuotes_sourceOf _ false _ hps hindent
  rw [ReadsAs, hsource,
    evaluate_threeQuotes (hlast hreturn (by decide) (by decide))
      (hlast hnul (by decide) (by decide))]
  by_cases hstays : staysOpen false ps = true
  · rw [if_pos (hopen.2 hstays), and_iff_left hstays]
    cases hkeeps : keepsEscapes false ps with
    | true =>
      refine iff_of_true ?_ rfl
      obtain ⟨codes, hcodes, hvisible⟩ :=
        Option.map_eq_some_iff.1 (seen_sourceOf names hps hindent hkeeps)
      exact ⟨codes, hcodes, hvisible⟩
    | false =>
      refine iff_of_false ?_ Bool.false_ne_true
      rintro ⟨codes, hcodes, hvisible⟩
      have hseen : seen names (sourceOf ps ++ '\n' :: indent) = some (visible codes) :=
        congrArg (Option.map visible) hcodes
      have hlt := length_seen_lt hps hindent hkeeps hseen
      rw [hvisible] at hlt
      exact Nat.lt_irrefl _ hlt
  · rw [if_neg fun h ↦ hstays (hopen.1 h)]
    refine iff_of_false ?_ fun h ↦ hstays h.2
    rintro ⟨codes, hcodes, -⟩
    cases hcodes

end EventSchema.Text

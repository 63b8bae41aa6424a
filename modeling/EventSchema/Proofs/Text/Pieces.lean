import EventSchema.Proofs.Text.Literals
import EventSchema.Text.Blank

/-!
# Reading escaped text between three quotes

Source text between three quotes is made of pieces: characters that stand for themselves, escapes,
and escapes whose two characters are on different lines. A reader goes on piece by piece
(`behindQuotes_piece`, `seen_piece`). Behind a split escape it may be one character late: the end of
the line was escaped and the second backslash begins an escape of its own. It then owes a backslash.

The text ends at its last quotes exactly if no quote that is not escaped for the reader stands
before two more (`behindQuotes_sourceOf`). If no backslash that is owed makes an escape with what
follows, the value has the characters that the pieces are written for, blanks aside
(`seen_sourceOf`).
-/

namespace EventSchema.Text

/-! ### Pieces -/

/-- A character that is escaped between three quotes. -/
inductive Special where
  | backslash
  | quote
  deriving DecidableEq

/-- The character. -/
def Special.char : Special → Char
  | .backslash => '\\'
  | .quote => '"'

/-- A piece of source text between three quotes. -/
inductive Piece where
  /-- A character that stands for itself. -/
  | raw (c : Char)
  /-- An escaped character. -/
  | escape (s : Special)
  /-- An escaped character whose backslash ends its line, and what stands before it on the next. -/
  | split (gap : List Char) (s : Special)
  deriving DecidableEq

namespace Piece

/-- The source text of a piece. -/
def source : Piece → List Char
  | raw c => [c]
  | escape s => ['\\', s.char]
  | split gap s => '\\' :: '\n' :: (gap ++ [s.char])

/-- The character that a piece is written for. -/
def char : Piece → Char
  | raw c => c
  | escape s => s.char
  | split _ s => s.char

/-- A backslash begins an escape, and an escape is split over line ends and spaces alone. -/
def Ok : Piece → Prop
  | raw c => c ≠ '\\'
  | escape _ => True
  | split gap _ => ∀ c ∈ gap, c = ' ' ∨ c = '\n'

/-- Whether a reader owes a backslash behind a piece. -/
def next (owed : Bool) : Piece → Bool
  | raw _ => false
  | escape s => owed && s == .backslash
  | split _ s => s == .backslash

/-- Whether a piece has a quote that is not escaped for the reader. -/
def bares (owed : Bool) : Piece → Bool
  | raw c => !owed && c == '"'
  | escape s => owed && s == .quote
  | split _ s => s == .quote

/-- Whether an owed backslash and the piece make an escape. -/
def spoils (owed : Bool) : Piece → Bool
  | raw c => owed &&
    (c == '\n' || (shortEscapes.lookup c).isSome || isOctal c || c ∈ ['x', 'u', 'U', 'N'])
  | _ => false

end Piece

/-- The source text of pieces. -/
def sourceOf (ps : List Piece) : List Char := ps.flatMap Piece.source

/-- The characters that pieces are written for. -/
def charsOf (ps : List Piece) : List Char := ps.map Piece.char

theorem sourceOf_cons (p : Piece) (ps : List Piece) :
    sourceOf (p :: ps) = p.source ++ sourceOf ps :=
  List.flatMap_cons

/-- Pieces one after the other have their source text one after the other. -/
theorem sourceOf_append (ps qs : List Piece) : sourceOf (ps ++ qs) = sourceOf ps ++ sourceOf qs :=
  List.flatMap_append

/-- Pieces one after the other have their characters one after the other. -/
theorem charsOf_append (ps qs : List Piece) : charsOf (ps ++ qs) = charsOf ps ++ charsOf qs :=
  List.map_append

/-- Two quotes stand first. -/
def startsQuotes (cs : List Char) : Bool := ['"', '"'].isPrefixOf cs

/-- No owed backslash makes an escape, from a state of the reader on. -/
def keepsEscapes : (owed : Bool) → List Piece → Bool
  | owed, [] => !owed
  | owed, p :: ps => !p.spoils owed && keepsEscapes (p.next owed) ps

/-- No quote that is not escaped for the reader stands before two more, from a state of the reader
on. -/
def staysOpen : (owed : Bool) → List Piece → Bool
  | _, [] => true
  | owed, p :: ps => !(p.bares owed && startsQuotes (sourceOf ps)) && staysOpen (p.next owed) ps

/-- The backslash that a reader still has before it. -/
def owing (owed : Bool) : List Char := if owed then ['\\'] else []

variable {names : List Char → Option Nat} {p : Piece} {ps : List Piece}
  {s : Special} {c : Char} {owed : Bool}
variable {gap cs ds rest indent : List Char} {codes : List Nat}

/-! ### Finding the end -/

/-- What stands behind the next three quotes. -/
def behindQuotes (cs : List Char) : Option (List Char) := (readBody threeQuotes cs).map Prod.snd

/-- An escaped character does not end a text between quotes. -/
theorem behindQuotes_escape : behindQuotes ('\\' :: c :: cs) = behindQuotes cs := by
  rw [behindQuotes, readBody_escape, Option.map_map]
  rfl

/-- A character other than a backslash or a quote does not end a text between quotes. -/
theorem behindQuotes_cons (hslash : c ≠ '\\') (hquote : c ≠ '"') :
    behindQuotes (c :: cs) = behindQuotes cs := by
  rw [behindQuotes, readBody_cons hslash, Option.map_map]
  · rfl
  · rw [threeQuotes, List.isPrefixOf, beq_false_of_ne (Ne.symm hquote), Bool.false_and]
  · exact fun _ ↦ by decide

/-- Spaces and line ends do not end a text between quotes. -/
theorem behindQuotes_gap (hgap : ∀ c ∈ gap, c = ' ' ∨ c = '\n') :
    behindQuotes (gap ++ rest) = behindQuotes rest := by
  induction gap with
  | nil => rfl
  | cons c gap ih =>
    obtain ⟨hc, hgap⟩ := List.forall_mem_cons.1 hgap
    rw [List.cons_append, behindQuotes_cons, ih hgap]
    · rcases hc with rfl | rfl <;> decide
    · rcases hc with rfl | rfl <;> decide

/-- A quote that is not escaped ends the text if two more follow. -/
theorem behindQuotes_quote : behindQuotes ('"' :: rest) =
    if startsQuotes rest then some (rest.drop 2) else behindQuotes rest := by
  split
  · next h =>
    have hquotes : threeQuotes.isPrefixOf ('"' :: rest) = true := h
    rw [behindQuotes, readBody, if_pos hquotes]
    · rfl
    · exact fun _ _ hslash ↦ absurd hslash (by decide)
  · next h =>
    have hquotes : threeQuotes.isPrefixOf ('"' :: rest) = false := Bool.eq_false_iff.2 h
    rw [behindQuotes, readBody_cons (by decide) hquotes fun hline ↦ absurd hline (by decide),
      Option.map_map]
    rfl

/-- A piece is passed, or its quote is arrived at. -/
theorem behindQuotes_piece (hp : p.Ok) : behindQuotes (owing owed ++ (p.source ++ rest)) =
    behindQuotes (if p.bares owed then '"' :: rest else owing (p.next owed) ++ rest) := by
  -- the character of an escape whose backslash the reader has used up
  have hlate (s : Special) : behindQuotes (s.char :: rest) =
      behindQuotes (if s == .quote then '"' :: rest else owing (s == .backslash) ++ rest) := by
    cases s <;> rfl
  cases p with
  | raw c =>
    cases owed with
    | false =>
      by_cases hc : c = '"'
      · rw [hc]
        rfl
      · have hbare : (Piece.raw c).bares false = false := beq_false_of_ne hc
        rw [hbare]
        exact behindQuotes_cons hp hc
    | true => exact behindQuotes_escape
  | escape s =>
    cases owed with
    | false => exact behindQuotes_escape
    | true => exact behindQuotes_escape.trans (hlate s)
  | split gap s =>
    have hgap : behindQuotes (gap ++ [s.char] ++ rest) =
        behindQuotes (if s == .quote then '"' :: rest else owing (s == .backslash) ++ rest) := by
      rw [List.append_assoc]
      exact (behindQuotes_gap hp).trans (hlate s)
    cases owed with
    | false => exact behindQuotes_escape.trans hgap
    | true =>
      exact behindQuotes_escape.trans ((behindQuotes_cons (by decide) (by decide)).trans hgap)

/-- Behind a quote that is not escaped no backslash is owed. -/
theorem next_of_bares (h : p.bares owed = true) : p.next owed = false := by
  cases p with
  | raw c => rfl
  | escape s => cases s <;> simp_all [Piece.bares, Piece.next]
  | split gap s => cases s <;> simp_all [Piece.bares, Piece.next]

/-- What stands behind does not matter if it does not begin with a quote. -/
theorem startsQuotes_append (h : ds.head? ≠ some '"') :
    startsQuotes (cs ++ ds) = startsQuotes cs := by
  have hother : ∀ c ∈ ds.head?, ('"' == c) = false :=
    fun c hc ↦ beq_false_of_ne fun heq ↦ h (heq ▸ hc)
  rcases cs with _ | ⟨c, _ | ⟨d, cs⟩⟩
  · cases ds with
    | nil => rfl
    | cons d ds => exact congrArg (· && _) (hother d rfl)
  · cases ds with
    | nil => rfl
    | cons d ds => exact congrArg (fun b ↦ '"' == c && (b && true)) (hother d rfl)
  · rfl

/-- The last of the source text and the quotes behind it. -/
def ending (indent : List Char) : List Char := '\n' :: (indent ++ threeQuotes)

/-- The ending of a block ends the text, whether a backslash is owed or not. -/
theorem behindQuotes_ending (hindent : ∀ c ∈ indent, c = ' ') :
    behindQuotes (owing owed ++ ending indent) = some [] := by
  have hlast : behindQuotes (indent ++ threeQuotes) = some [] :=
    (behindQuotes_gap fun c hc ↦ .inl (hindent c hc)).trans behindQuotes_quote
  cases owed with
  | false => exact (behindQuotes_cons (by decide) (by decide)).trans hlast
  | true => exact behindQuotes_escape.trans hlast

/-- The text ends at its last quotes exactly if it stays open. -/
theorem behindQuotes_sourceOf (hps : ∀ p ∈ ps, p.Ok) (hindent : ∀ c ∈ indent, c = ' ') :
    behindQuotes (owing owed ++ (sourceOf ps ++ ending indent)) = some [] ↔
    staysOpen owed ps = true := by
  induction ps generalizing owed with
  | nil => exact iff_of_true (behindQuotes_ending hindent) rfl
  | cons p ps ih =>
    obtain ⟨hp, hps⟩ := List.forall_mem_cons.1 hps
    have hstarts : startsQuotes (sourceOf ps ++ ending indent) = startsQuotes (sourceOf ps) :=
      startsQuotes_append (by rw [ending, List.head?_cons]; decide)
    rw [sourceOf_cons, List.append_assoc, behindQuotes_piece hp, staysOpen]
    by_cases hbare : p.bares owed = true
    · rw [if_pos hbare, behindQuotes_quote, hstarts, hbare, next_of_bares hbare]
      by_cases hquotes : startsQuotes (sourceOf ps) = true
      · rw [if_pos hquotes, hquotes]
        obtain ⟨rest, hrest⟩ := List.isPrefixOf_iff_prefix.1 hquotes
        refine iff_of_false (fun h ↦ ?_) (by simp)
        rw [← hrest] at h
        simp [ending] at h
      · rw [if_neg hquotes, Bool.eq_false_iff.2 hquotes]
        exact @ih false hps
    · rw [if_neg hbare, Bool.eq_false_iff.2 hbare]
      exact ih hps

/-! ### Reading the value -/

/-- The code points of a value that are not blank. -/
def visible (codes : List Nat) : List Nat := codes.filter fun n => !inRanges blankRanges n

/-- The code points that source text is read as, blanks aside. -/
def seen (names : List Char → Option Nat) (cs : List Char) : Option (List Nat) :=
  (decode names 0 cs).map visible

/-- What an owed backslash will have been read as. -/
def late (owed : Bool) : List Nat := if owed then ['\\'.toNat] else []

/-- What is visible of code points is visible one after the other. -/
theorem visible_append (codes more : List Nat) :
    visible (codes ++ more) = visible codes ++ visible more :=
  List.filter_append _ _

theorem visible_map_append (cs ds : List Char) :
    visible ((cs ++ ds).map Char.toNat) = visible (cs.map Char.toNat) ++ visible
      (ds.map Char.toNat) := by
  rw [List.map_append, visible_append]

/-- What is visible of pieces is visible piece by piece. -/
theorem visible_charsOf_cons : visible ((charsOf (p :: ps)).map Char.toNat) =
    visible [p.char.toNat] ++ visible ((charsOf ps).map Char.toNat) :=
  visible_append [p.char.toNat] _

/-- A character that begins no escape is read as itself. -/
theorem seen_cons (hslash : c ≠ '\\') :
    seen names (c :: cs) = (seen names cs).map (visible [c.toNat] ++ ·) := by
  rw [seen, decode, if_neg hslash, Option.map_map, seen, Option.map_map]
  exact Option.map_congr fun codes _ ↦ visible_append [c.toNat] codes

/-- An escape of one character is read as what it stands for. -/
theorem seen_escape (h : readEscape names (c :: cs) = some (codes, 1)) :
    seen names ('\\' :: c :: cs) = (seen names cs).map (visible codes ++ ·) := by
  rw [seen, decode, if_pos rfl, h, seen, Option.map_map, decode]
  simp only [Option.map_map]
  exact Option.map_congr fun more _ ↦ visible_append codes more

/-- An escaped line end stands for nothing. -/
theorem readEscape_lineEnd : readEscape names ('\n' :: cs) = some ([], 1) := rfl

/-- An escaped special character stands for itself. -/
theorem readEscape_special (s : Special) :
    readEscape names (s.char :: cs) = some ([s.char.toNat], 1) := by
  cases s <;> rfl

/-- A backslash before a character that makes no escape with it is kept. -/
theorem readEscape_of_not_spoils (h : (Piece.raw c).spoils true = false) :
    readEscape names (c :: cs) = some (['\\'.toNat, c.toNat], 1) := by
  simp only [Piece.spoils, Bool.true_and, Bool.or_eq_false_iff, beq_eq_false_iff_ne,
    Option.isSome_eq_false_iff, Option.isNone_iff_eq_none, decide_eq_false_iff_not, List.mem_cons,
    not_or] at h
  obtain ⟨⟨⟨hline, hshort⟩, hoctal⟩, hx, hu, hU, hN, -⟩ := h
  rw [readEscape, if_neg hline, hshort]
  simp only [hoctal, if_neg hx, if_neg hu, if_neg hU, if_neg hN, Bool.false_eq_true, if_false]

theorem visible_lineEnd : visible ['\n'.toNat] = [] := by decide +kernel

/-- Spaces and line ends are not visible. -/
theorem seen_gap (hgap : ∀ c ∈ gap, c = ' ' ∨ c = '\n') :
    seen names (gap ++ rest) = seen names rest := by
  induction gap with
  | nil => rfl
  | cons c gap ih =>
    obtain ⟨hc, hgap⟩ := List.forall_mem_cons.1 hgap
    have hblank : visible [c.toNat] = [] := by
      rcases hc with rfl | rfl
      · decide +kernel
      · exact visible_lineEnd
    rw [List.cons_append, seen_cons, ih hgap, hblank]
    · exact Option.map_id'
    · rcases hc with rfl | rfl <;> decide

/-- Special characters are visible. -/
theorem visible_special (s : Special) : visible [s.char.toNat] = [s.char.toNat] := by
  cases s <;> decide +kernel

theorem visible_backslash : visible ['\\'.toNat] = late true := visible_special .backslash

variable (names) in
/-- A piece is read as its character, blanks aside, with the backslash that is owed before it and
without the one that is owed behind it. -/
theorem seen_piece (hp : p.Ok) (h : p.spoils owed = false) :
    ∃ codes, codes ++ late (p.next owed) = late owed ++ visible [p.char.toNat] ∧ ∀ rest,
      seen names (owing owed ++ (p.source ++ rest)) =
        (seen names (owing (p.next owed) ++ rest)).map (codes ++ ·) := by
  -- the character of an escape whose backslash the reader has used up
  have hlate (s : Special) : ∃ codes, codes ++ late (s == .backslash) = [s.char.toNat] ∧ ∀ rest,
      seen names (s.char :: rest) =
        (seen names (owing (s == .backslash) ++ rest)).map (codes ++ ·) := by
    cases s with
    | backslash => exact ⟨[], rfl, fun _ ↦ Option.map_id'.symm⟩
    | quote =>
      refine ⟨[Special.quote.char.toNat], rfl, fun _ ↦ ?_⟩
      rw [← visible_special]
      exact seen_cons (by decide)
  -- the backslash that is owed, where the next character is a backslash too
  have howed (rest : List Char) :
      seen names ('\\' :: '\\' :: rest) = (seen names rest).map (late true ++ ·) := by
    rw [← visible_backslash]
    exact seen_escape (readEscape_special .backslash)
  cases p with
  | raw c =>
    cases owed with
    | false => exact ⟨_, List.append_nil _, fun _ ↦ seen_cons hp⟩
    | true =>
      refine ⟨late true ++ visible [c.toNat], List.append_nil _, fun _ ↦ ?_⟩
      rw [← visible_backslash, ← visible_append]
      exact seen_escape (readEscape_of_not_spoils h)
  | escape s =>
    rw [Piece.char, visible_special]
    cases owed with
    | false =>
      refine ⟨[s.char.toNat], List.append_nil _, fun _ ↦ ?_⟩
      rw [← visible_special]
      exact seen_escape (readEscape_special s)
    | true =>
      obtain ⟨codes, hcodes, hseen⟩ := hlate s
      refine ⟨late true ++ codes, (List.append_assoc _ _ _).trans (congrArg _ hcodes),
        fun rest ↦ ?_⟩
      have hread := howed (s.char :: rest)
      rw [hseen, Option.map_map] at hread
      refine hread.trans (Option.map_congr fun more _ ↦ ?_)
      exact (List.append_assoc _ _ _).symm
  | split gap s =>
    rw [Piece.char, visible_special]
    obtain ⟨codes, hcodes, hseen⟩ := hlate s
    have hgap (rest : List Char) : seen names (gap ++ [s.char] ++ rest) =
        (seen names (owing (s == .backslash) ++ rest)).map (codes ++ ·) := by
      rw [List.append_assoc, seen_gap hp]
      exact hseen rest
    cases owed with
    | false =>
      refine ⟨codes, hcodes, fun rest ↦ ?_⟩
      have hread : seen names ('\\' :: '\n' :: (gap ++ [s.char] ++ rest)) = _ :=
        seen_escape readEscape_lineEnd
      rw [hgap, Option.map_map] at hread
      exact hread
    | true =>
      refine ⟨late true ++ codes, (List.append_assoc _ _ _).trans (congrArg _ hcodes),
        fun rest ↦ ?_⟩
      have hread := howed ('\n' :: (gap ++ [s.char] ++ rest))
      rw [seen_cons (c := '\n') (by decide), visible_lineEnd, hgap, Option.map_map,
        Option.map_map] at hread
      refine hread.trans (Option.map_congr fun more _ ↦ ?_)
      exact (List.append_assoc _ _ _).symm

/-- Nothing is visible of blanks alone. -/
theorem seen_blanks (hgap : ∀ c ∈ gap, c = ' ' ∨ c = '\n') : seen names gap = some [] := by
  rw [← List.append_nil gap, seen_gap hgap]
  rfl

variable (names) in
/-- Where escapes are kept, the pieces are read as their characters, blanks aside. -/
theorem seen_sourceOf (hps : ∀ p ∈ ps, p.Ok) (hindent : ∀ c ∈ indent, c = ' ')
    (h : keepsEscapes owed ps = true) :
    seen names (owing owed ++ (sourceOf ps ++ '\n' :: indent)) =
      some (late owed ++ visible ((charsOf ps).map Char.toNat)) := by
  induction ps generalizing owed with
  | nil =>
    cases owed with
    | false => exact seen_blanks (List.forall_mem_cons.2 ⟨.inr rfl, fun c hc ↦ .inl (hindent c hc)⟩)
    | true => cases h
  | cons p ps ih =>
    obtain ⟨hp, hps⟩ := List.forall_mem_cons.1 hps
    obtain ⟨hspoils, hkeeps⟩ := Bool.and_eq_true_iff.1 h
    obtain ⟨codes, hcodes, hseen⟩ := seen_piece names hp (by simpa using hspoils)
    rw [sourceOf_cons, List.append_assoc, hseen, ih hps hkeeps, Option.map_some,
      visible_charsOf_cons, ← List.append_assoc, hcodes, List.append_assoc]

end EventSchema.Text

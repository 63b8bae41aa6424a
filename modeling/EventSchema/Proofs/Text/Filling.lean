import EventSchema.Text.Wrap
import Mathlib.Data.List.Basic

/-!
# Filled lines

The lines of a paragraph are cut out of its text one after another, and nothing but blanks is left
out between them (`fills_wrap`). A line ends inside a word only if that word is longer than a line.
-/

namespace EventSchema.Text

variable {mayCut : Char → Prop} {xs ys as text blanks : List Char} {lines : List (List Char)}
variable {cs ds rest : List (List Char)} {w : List Char} {c : Char}
  {room fuel : Nat} {started : Bool}

/-! ### Seams -/

/-- Where one piece of a text ends and the next begins there is a space, or else a cut behind a
character that allows it. -/
def Seam (mayCut : Char → Prop) (xs ys : List Char) : Prop :=
  ∀ c d, xs.getLast? = some c → ys.head? = some d → c ≠ ' ' → d ≠ ' ' → mayCut c

/-- All seams of pieces are as they should be. -/
def Seams (mayCut : Char → Prop) : List (List Char) → Prop
  | [] => True
  | w :: ws => Seam mayCut w ws.flatten ∧ Seams mayCut ws

theorem Seam.nil_left : Seam mayCut [] ys := fun _ _ h ↦ by cases h

theorem Seam.append_left (hxs : xs = [] → Seam mayCut as ys) (hne : xs ≠ [] → Seam mayCut xs ys) :
    Seam mayCut (as ++ xs) ys := by
  by_cases h : xs = []
  · rw [h, List.append_nil]
    exact hxs h
  · intro c d hc
    rw [List.getLast?_append_of_ne_nil _ h] at hc
    exact hne h c d hc

theorem Seam.of_append_left (h : Seam mayCut (as ++ xs) ys) : Seam mayCut xs ys := fun c d hc ↦
  h c d (by rw [List.getLast?_append, hc, Option.some_or])

/-- The seam at any place of a list of pieces. -/
theorem Seams.seam (h : Seams mayCut (cs ++ ds)) : Seam mayCut cs.flatten ds.flatten := by
  induction cs with
  | nil => exact .nil_left
  | cons w cs ih =>
    refine .append_left (fun hcs ↦ ?_) fun _ ↦ ih h.2
    have hflat : (cs ++ ds).flatten = ds.flatten := by
      rw [List.flatten_append, hcs, List.nil_append]
    exact hflat ▸ h.1

theorem Seams.right (h : Seams mayCut (cs ++ ds)) : Seams mayCut ds := by
  induction cs with
  | nil => exact h
  | cons w cs ih => exact ih h.2

/-- A piece may be cut where every character of it allows that. -/
theorem Seams.cut (h : Seams mayCut (cs ++ (xs ++ ys) :: ds)) (hcut : ∀ c ∈ xs ++ ys, mayCut c) :
    Seams mayCut (cs ++ xs :: ys :: ds) := by
  induction cs with
  | nil =>
    refine ⟨fun c d hc _ _ _ ↦ hcut c (List.mem_append_left _ (List.mem_of_getLast? hc)), ?_, h.2⟩
    exact fun c d hc _ _ _ ↦ hcut c (List.mem_append_right _ (List.mem_of_getLast? hc))
  | cons w cs ih =>
    refine ⟨?_, ih h.2⟩
    have hflat : (cs ++ (xs ++ ys) :: ds).flatten = (cs ++ xs :: ys :: ds).flatten := by simp
    exact hflat ▸ h.1

/-! ### Chunks -/

/-- The chunks of a text make up the text. -/
theorem flatten_chunks (xs : List Char) : (chunks xs).flatten = xs := by
  induction xs with
  | nil => rfl
  | cons c xs ih =>
    rw [chunks]
    split
    · next d ds rest h =>
      rw [h] at ih
      split
      · rw [← ih]
        rfl
      · rw [← ih]
        rfl
    · rw [List.flatten_cons, ih]
      rfl

/-- Chunks are runs of spaces and runs of other characters, in turn. -/
inductive Chunked : List (List Char) → Prop where
  | nil : Chunked []
  | cons {c : Char} {xs : List Char} {cs : List (List Char)}
      (huniform : ∀ d ∈ xs, (d == ' ') = (c == ' ')) (hnext : ∀ d, cs.flatten.head? = some d →
        (d == ' ') ≠ (c == ' ')) (h : Chunked cs) : Chunked ((c :: xs) :: cs)

/-- A text is cut where blanks and other characters meet. -/
theorem chunked_chunks (xs : List Char) : Chunked (chunks xs) := by
  induction xs with
  | nil => exact .nil
  | cons c xs ih =>
    rw [chunks]
    generalize chunks xs = cs at ih ⊢
    cases ih with
    | nil => exact .cons (by simp) (by simp) .nil
    | @cons d xs cs huniform hnext h =>
      dsimp only
      split
      · next hsame =>
        rw [beq_iff_eq] at hsame
        refine .cons (fun e he ↦ ?_) (fun e he ↦ hsame ▸ hnext e he) h
        rcases List.mem_cons.1 he with rfl | he
        · exact hsame.symm
        · exact (huniform e he).trans hsame.symm
      · next hother =>
        rw [beq_iff_eq] at hother
        refine .cons (by simp) (fun e he ↦ ?_) (.cons huniform hnext h)
        obtain rfl : d = e := Option.some.inj he
        exact Ne.symm hother

/-- Chunks meet at seams. -/
theorem Chunked.seams (h : Chunked cs) : Seams mayCut cs := by
  induction h with
  | nil => trivial
  | @cons c xs cs huniform hnext h ih =>
    refine ⟨fun last d hlast hd hlast' hd' ↦ ?_, ih⟩
    have hsame : (last == ' ') = (c == ' ') := by
      rcases List.mem_cons.1 (List.mem_of_getLast? hlast) with rfl | hmem
      · rfl
      · exact huniform last hmem
    have hdiffer := hnext d hd
    rw [← hsame, beq_false_of_ne hd', beq_false_of_ne hlast'] at hdiffer
    exact absurd rfl hdiffer

/-! ### Lines -/

/-- Chunks that fit and those that are left make up all chunks. -/
theorem takeFitting_append (room : Nat) (cs : List (List Char)) :
    (takeFitting room cs).1 ++ (takeFitting room cs).2 = cs := by
  induction cs generalizing room with
  | nil => rfl
  | cons w cs ih =>
    rw [takeFitting]
    split
    · exact congrArg (w :: ·) (ih _)
    · rfl

/-- What is long may be cut anywhere. -/
def LongMayCut (mayCut : Char → Prop) (room : Nat) (cs : List (List Char)) : Prop :=
  ∀ w ∈ cs, room < w.length → ∀ c ∈ w, mayCut c

theorem chunkCost_append : chunkCost (cs ++ ds) = chunkCost cs + chunkCost ds := by
  rw [chunkCost, chunkCost, chunkCost, List.flatten_append, List.length_append, List.length_append]
  omega

/-- Where something is left, taking what fits takes something or the first chunk is longer than a
line. -/
theorem takeFitting_cons (room : Nat) (w : List Char) (cs : List (List Char)) :
    (takeFitting room (w :: cs)).1 ≠ [] ∨ room < w.length ∧
    takeFitting room (w :: cs) = ([], w :: cs) := by
  rw [takeFitting]
  split
  · exact .inl (List.cons_ne_nil _ _)
  · next h => exact .inr ⟨Nat.not_le.1 h, rfl⟩

/-- How the next line is taken: the chunks that fit, and the beginning of the next one if it is
longer than a line. -/
theorem takeLine_cases (hroom : 0 < room) (cs : List (List Char)) :
    takeLine room cs = takeFitting room cs ∧ (cs ≠ [] → (takeFitting room cs).1 ≠ []) ∨
      ∃ line xs ys rest, takeFitting room cs = (line, (xs ++ ys) :: rest) ∧
        room < (xs ++ ys).length ∧
        takeLine room cs = (line ++ [xs], ys :: rest) ∧ (line = [] → xs ≠ []) := by
  rcases h : takeFitting room cs with ⟨line, _ | ⟨w, rest⟩⟩
  · refine .inl ⟨by rw [takeLine, h], fun hne hline ↦ hne ?_⟩
    rw [← takeFitting_append room cs, h, List.append_nil]
    exact hline
  · by_cases hw : room < w.length
    · refine .inr ⟨line, w.take (room - line.flatten.length), w.drop (room - line.flatten.length),
        rest, ?_⟩
      rw [List.take_append_drop, takeLine, h]
      refine ⟨rfl, hw, ?_, ?_⟩
      · simp only [if_pos hw, if_neg (Nat.ne_of_gt hroom)]
      · rintro rfl hnil
        have hlength := congrArg List.length hnil
        rw [List.length_take, List.flatten_nil, List.length_nil] at hlength
        omega
    · refine .inl ⟨by simp only [takeLine, h, if_neg hw], fun hne ↦ ?_⟩
      obtain ⟨v, vs, rfl⟩ := List.exists_cons_of_ne_nil hne
      rcases takeFitting_cons room v vs with hline | ⟨hv, hnone⟩
      · rwa [h] at hline
      · rw [h] at hnone
        cases hnone
        exact absurd hv hw

/-- Taking a line cuts one piece of the text off, and something is taken where something is left. -/
theorem takeLine_spec (hroom : 0 < room) (hseams : Seams mayCut cs)
    (hlong : LongMayCut mayCut room cs) :
    (takeLine room cs).1.flatten ++ (takeLine room cs).2.flatten = cs.flatten ∧
      Seams mayCut ((takeLine room cs).1 ++ (takeLine room cs).2) ∧
      LongMayCut mayCut room (takeLine room cs).2 ∧
      (cs ≠ [] → chunkCost (takeLine room cs).2 < chunkCost cs) := by
  have happend := takeFitting_append room cs
  rcases takeLine_cases hroom cs with ⟨h, hne⟩ | ⟨line, xs, ys, rest, hfit, hw, h, hxs⟩
  · rw [h]
    refine ⟨by rw [← List.flatten_append, happend], happend.symm ▸ hseams, fun w hw ↦ hlong w ?_,
      fun hcs ↦ ?_⟩
    · exact happend ▸ List.mem_append_right _ hw
    · have hpos := List.length_pos_iff.2 (hne hcs)
      rw [← happend, chunkCost_append, happend, chunkCost, chunkCost]
      omega
  · rw [hfit] at happend
    rw [h]
    subst happend
    have hcut : ∀ c ∈ xs ++ ys, mayCut c := hlong _ (by simp) hw
    refine ⟨by simp, ?_, fun w hmem hlength ↦ ?_, fun _ ↦ ?_⟩
    · simpa using hseams.cut hcut
    · rcases List.mem_cons.1 hmem with rfl | hmem
      · exact fun c hc ↦ hcut c (List.mem_append_right _ hc)
      · exact hlong w (by simp [hmem]) hlength
    · rw [chunkCost_append, chunkCost, chunkCost, chunkCost]
      simp only [List.flatten_cons, List.length_append, List.length_cons]
      rcases line with _ | ⟨w, line⟩
      · have hpos := List.length_pos_iff.2 (hxs rfl)
        simp only [List.flatten_nil, List.length_nil]
        omega
      · simp only [List.length_cons]
        omega

/-- Only blanks are dropped at the beginning of a line. -/
theorem dropFirstBlank_spec (cs : List (List Char)) :
    ∃ ds, cs = ds ++ dropFirstBlank cs ∧ isAllBlank ds.flatten = true := by
  cases cs with
  | nil => exact ⟨[], rfl, rfl⟩
  | cons w cs =>
    rw [dropFirstBlank]
    split
    · next h => exact ⟨[w], rfl, by simpa using h⟩
    · exact ⟨[], rfl, rfl⟩

/-- Only blanks are dropped at the end of a line. -/
theorem dropLastBlank_spec (line : List (List Char)) :
    ∃ ds, line = dropLastBlank line ++ ds ∧ isAllBlank ds.flatten = true := by
  rw [dropLastBlank]
  split
  · next w hw =>
    split
    · next h =>
      obtain ⟨front, rfl⟩ := List.getLast?_eq_some_iff.1 hw
      exact ⟨[w], by rw [List.dropLast_concat], by simpa using h⟩
    · exact ⟨[], (List.append_nil _).symm, rfl⟩
  · exact ⟨[], (List.append_nil _).symm, rfl⟩

/-! ### Filling -/

/-- Lines are cut out of a text one after another, and only blanks are left out between them. -/
inductive Fills (mayCut : Char → Prop) : List Char → List (List Char) → Prop where
  | nil {blanks : List Char} (hblanks : isAllBlank blanks = true) : Fills mayCut blanks []
  | cons {blanks line text : List Char} {lines : List (List Char)}
      (hblanks : isAllBlank blanks = true) (hseam : Seam mayCut line text)
      (h : Fills mayCut text lines) :
    Fills mayCut (blanks ++ (line ++ text)) (line :: lines)

/-- Blanks before a text may be left out. -/
theorem Fills.append_left (hblanks : isAllBlank blanks = true) (h : Fills mayCut text lines) :
    Fills mayCut (blanks ++ text) lines := by
  have happend : ∀ {more : List Char}, isAllBlank more = true →
      isAllBlank (blanks ++ more) = true := fun hmore ↦ by
    rw [isAllBlank, List.all_append]
    exact Bool.and_eq_true_iff.2 ⟨hblanks, hmore⟩
  cases h with
  | nil hmore => exact .nil (happend hmore)
  | cons hmore hseam h =>
    rw [← List.append_assoc]
    exact .cons (happend hmore) hseam h

/-- What stands on the lines stands in the text. -/
theorem Fills.mem (h : Fills mayCut text lines) (hxs : xs ∈ lines) (hc : c ∈ xs) : c ∈ text := by
  induction h with
  | nil => cases hxs
  | cons hblanks hseam h ih =>
    refine List.mem_append_right _ (List.mem_append.2 ?_)
    rcases List.mem_cons.1 hxs with rfl | hxs
    · exact .inl hc
    · exact .inr (ih hxs)

/-- Laying out chunks fills lines with their text. -/
theorem fills_layOut (hroom : 0 < room) (hseams : Seams mayCut cs)
    (hlong : LongMayCut mayCut room cs) (hfuel : chunkCost cs ≤ fuel) :
    Fills mayCut cs.flatten (layOut room fuel started cs) := by
  induction fuel generalizing cs started with
  | zero =>
    have hnil : cs = [] := List.eq_nil_of_length_eq_zero (by rw [chunkCost] at hfuel; omega)
    rw [hnil]
    exact .nil rfl
  | succ fuel ih =>
    cases cs with
    | nil => exact .nil rfl
    | cons w cs =>
      -- what is left of the chunks when the blanks before the line are dropped
      obtain ⟨ds, left, hleft, hds, hinput⟩ : ∃ ds left, w :: cs = ds ++ left ∧
        isAllBlank ds.flatten = true ∧
          left = if started then dropFirstBlank (w :: cs) else w :: cs := by
        cases started with
        | false => exact ⟨[], _, rfl, rfl, rfl⟩
        | true =>
          obtain ⟨ds, hds, hblank⟩ := dropFirstBlank_spec (w :: cs)
          exact ⟨ds, _, hds, hblank, rfl⟩
      rw [layOut, ← hinput, hleft, List.flatten_append]
      refine .append_left hds ?_
      rw [hleft] at hseams hlong hfuel
      obtain ⟨hflat, hseams, hlong, hcost⟩ :=
        takeLine_spec hroom hseams.right fun v hv ↦ hlong v (List.mem_append_right _ hv)
      have hfuel : chunkCost (takeLine room left).2 ≤ fuel := by
        by_cases hnil : left = []
        · rw [hnil]
          exact Nat.zero_le fuel
        · have := hcost hnil
          rw [chunkCost_append] at hfuel
          omega
      obtain ⟨blank, hline, hblank⟩ := dropLastBlank_spec (takeLine room left).1
      have hrest : ∀ started, Fills mayCut (blank.flatten ++ (takeLine room left).2.flatten)
          (layOut room fuel started (takeLine room left).2) := fun started ↦
        .append_left hblank (ih hseams.right hlong hfuel)
      rw [hline, List.append_assoc] at hseams
      rw [← hflat, hline, List.flatten_append, List.append_assoc]
      dsimp only
      split
      · next hnil =>
        rw [hnil]
        exact hrest started
      · have hseam := hseams.seam
        rw [List.flatten_append] at hseam
        exact @Fills.cons _ [] _ _ _ rfl hseam (hrest true)

/-- **Wrapping fills lines.** The lines are cut out of the text with its blanks levelled. A line
ends inside a word only if that word is longer than the line may be. -/
theorem fills_wrap {width : Nat} {indent : List Char} (h : indent.length < width)
    (paragraph : List Char) :
    ∃ lines, wrap width indent paragraph = lines.map (indent ++ ·) ∧
      Fills (fun c ↦ ∃ w ∈ chunks (levelBlanks paragraph), width - indent.length < w.length ∧ c ∈ w)
        (levelBlanks paragraph) lines := by
  refine ⟨_, rfl, ?_⟩
  have hlong : LongMayCut (fun c ↦ ∃ w ∈ chunks (levelBlanks paragraph),
      width - indent.length < w.length ∧ c ∈ w) (width - indent.length) (chunks
        (levelBlanks paragraph)) := fun w hw hlength c hc ↦ ⟨w, hw, hlength, hc⟩
  have hfills := @fills_layOut _ _ _ _ false (Nat.sub_pos_of_lt h)
    (chunked_chunks (levelBlanks paragraph)).seams hlong (Nat.le_refl _)
  rwa [flatten_chunks] at hfills

end EventSchema.Text

import EventSchema.Proofs.FileTree.Trails

/-!
# Paths and their texts

A path is read from a text by its slashes. What is read from two texts with a slash between them is
read from one after the other (`partsOf_append_slash`), so the text of a path that was read can be
put before another text (`parts_beneath`).
-/

namespace EventSchema

/-! ### Cutting lists -/

/-- The pieces of a list do not hold what it is cut at, and lie in the list. -/
theorem of_mem_splitOn {α : Type} [BEq α] [LawfulBEq α] {a : α} {xs piece : List α}
    (h : piece ∈ xs.splitOn a) : a ∉ piece ∧ piece.Sublist xs := by
  induction xs generalizing piece with
  | nil =>
    rw [List.splitOn_nil, List.mem_singleton] at h
    rw [h]
    exact ⟨List.not_mem_nil, List.Sublist.refl _⟩
  | cons x xs ih =>
    rw [List.splitOn_cons_eq_if_modifyHead] at h
    split at h
    · rcases List.mem_cons.1 h with rfl | h
      · exact ⟨List.not_mem_nil, List.nil_sublist _⟩
      · exact ⟨(ih h).1, (ih h).2.cons x⟩
    · next hx =>
      obtain ⟨first, rest, hsplit⟩ := List.exists_cons_of_ne_nil (List.splitOn_ne_nil a xs)
      rw [hsplit, List.modifyHead_cons] at h
      rcases List.mem_cons.1 h with rfl | h
      · have hfirst : a ∉ first ∧ first.Sublist xs := ih (by rw [hsplit]; exact List.mem_cons_self)
        exact ⟨fun hmem ↦ (List.mem_cons.1 hmem).elim (fun heq ↦ hx (by simp [heq])) hfirst.1,
          hfirst.2.cons_cons x⟩
      · have hpiece : a ∉ piece ∧ piece.Sublist xs :=
          ih (by rw [hsplit]; exact List.mem_cons_of_mem _ h)
        exact ⟨hpiece.1, hpiece.2.cons x⟩

namespace Path

variable {p : Path} {s name part : String} {cs : List Char} {parts : List String}

/-! ### Reading parts -/

/-- The parts that are read from characters. -/
def partsOf (cs : List Char) : List String :=
  ((cs.splitOn '/').map String.ofList).filter fun part ↦ part ≠ "" ∧ part ≠ "."

theorem parts_ofString (s : String) : (ofString s).parts = partsOf s.toList := rfl

@[simp] theorem partsOf_nil : partsOf [] = [] := rfl

theorem partsOf_append_slash (as bs : List Char) :
    partsOf (as ++ '/' :: bs) = partsOf as ++ partsOf bs := by
  rw [partsOf, List.splitOn_append_cons_self, List.map_append, List.filter_append]
  rfl

theorem partsOf_slash (cs : List Char) : partsOf ('/' :: cs) = partsOf cs :=
  partsOf_append_slash [] cs

/-- A part is a name: it is not empty, is no dot and has no slash. -/
structure IsName (part : String) : Prop where
  nonempty : part ≠ ""
  notDot : part ≠ "."
  noSlash : '/' ∉ part.toList

/-- What is read from a name is that name alone. -/
theorem IsName.partsOf_eq (h : IsName part) : partsOf part.toList = [part] := by
  rw [partsOf, List.splitOn_eq_singleton h.noSlash]
  simp [h.nonempty, h.notDot]

theorem isName_of_mem_partsOf (h : part ∈ partsOf cs) : IsName part ∧ part.toList.Sublist cs := by
  obtain ⟨hmem, hpart⟩ := List.mem_filter.1 h
  obtain ⟨hempty, hdot⟩ := of_decide_eq_true hpart
  obtain ⟨piece, hpiece, rfl⟩ := List.mem_map.1 hmem
  obtain ⟨hslash, hsublist⟩ := of_mem_splitOn hpiece
  exact ⟨⟨hempty, hdot, by rwa [String.toList_ofList]⟩, by rwa [String.toList_ofList]⟩

/-- The parts of a text that starts with a character other than a slash or a dot, or with a dot
before such a character. -/
theorem exists_partsOf_cons {before : List Char} (hbefore : '/' ∉ before)
    (hdot : ∀ cs, before ++ cs ≠ [] ∧ before ++ cs ≠ ['.']) (cs : List Char) :
    ∃ more rest, partsOf (before ++ cs) = String.ofList (before ++ more) :: rest := by
  have hsplit (cs : List Char) :
      ∃ more rest, (before ++ cs).splitOn '/' = (before ++ more) :: rest := by
    clear hdot
    induction before with
    | nil => exact List.exists_cons_of_ne_nil (List.splitOn_ne_nil _ _)
    | cons c before ih =>
      obtain ⟨hc, hbefore⟩ := not_or.1 (List.mem_cons.not.1 hbefore)
      obtain ⟨more, rest, h⟩ := ih hbefore
      refine ⟨more, rest, ?_⟩
      have hne : ¬ (c == '/') = true := fun heq ↦ hc (eq_of_beq heq).symm
      rw [List.cons_append, List.splitOn_cons_eq_if_modifyHead, h, if_neg hne]
      rfl
  obtain ⟨more, rest, h⟩ := hsplit cs
  refine ⟨more, rest.map String.ofList |>.filter fun part ↦ part ≠ "" ∧ part ≠ ".", ?_⟩
  rw [partsOf, h, List.map_cons, List.filter_cons_of_pos]
  have hname (s : String) : String.ofList (before ++ more) ≠ s ↔ before ++ more ≠ s.toList := by
    rw [ne_eq, ne_eq, ← String.toList_inj, String.toList_ofList]
  exact decide_eq_true ⟨(hname _).2 (hdot more).1, (hname _).2 (hdot more).2⟩

/-! ### Texts of paths -/

/-- The parts of a path are names. -/
def IsRead (p : Path) : Prop := (p.root = "" ∨ p.root = "/" ∨ p.root = "//") ∧ ∀ part ∈ p.parts,
    IsName part

theorem isRead_ofString (s : String) : (ofString s).IsRead := by
  refine ⟨?_, fun part hpart ↦ (isName_of_mem_partsOf hpart).1⟩
  change rootOf s = "" ∨ rootOf s = "/" ∨ rootOf s = "//"
  rw [rootOf]
  split <;> simp

theorem IsRead.parent (h : p.IsRead) : p.parent.IsRead :=
  ⟨h.1, fun part hpart ↦ h.2 part (List.mem_of_mem_dropLast hpart)⟩

theorem IsRead.joinText (h : p.IsRead) (s : String) : (p.joinText s).IsRead := by
  rw [Path.joinText, join]
  split
  · exact ⟨h.1, fun part hpart ↦ (List.mem_append.1 hpart).elim (h.2 part)
      ((isRead_ofString s).2 part)⟩
  · exact isRead_ofString s

theorem partsOf_intercalate (h : ∀ part ∈ parts, IsName part) :
    partsOf ("/".intercalate parts).toList = parts := by
  induction parts with
  | nil => rfl
  | cons part parts ih =>
    obtain ⟨hpart, hparts⟩ := List.forall_mem_cons.1 h
    cases parts with
    | nil =>
      have htext : ("/".intercalate [part]).toList = part.toList := by
        simp
      rw [htext, hpart.partsOf_eq]
    | cons next parts =>
      have htext : ("/".intercalate (part :: next :: parts)).toList =
          part.toList ++ '/' :: ("/".intercalate (next :: parts)).toList := by
        simp [String.toList_intercalate]
      rw [htext, partsOf_append_slash, hpart.partsOf_eq, ih hparts]
      rfl

/-- The parts of a path are read from its text. -/
theorem IsRead.partsOf_text (h : p.IsRead) : partsOf p.text.toList = p.parts := by
  rw [text]
  split
  · next hempty => rw [hempty.2]; rfl
  · rw [String.toList_append]
    rcases h.1 with hroot | hroot | hroot <;> rw [hroot]
    · exact partsOf_intercalate h.2
    · exact (partsOf_slash _).trans (partsOf_intercalate h.2)
    · exact (partsOf_slash _).trans ((partsOf_slash _).trans (partsOf_intercalate h.2))

/-- What is read from a text behind a path is the path with what is read from the text. -/
theorem IsRead.parts_beneath (h : p.IsRead) (s : String) :
    (ofString (p.beneath s)).parts = p.parts ++ (ofString s).parts := by
  rw [parts_ofString, parts_ofString, beneath]
  split
  · next hslash =>
    rw [String.endsWith_eq_endsWith_toSlice, String.Slice.endsWith_string_iff] at hslash
    obtain ⟨cs, hcs⟩ := hslash
    have htext : p.text.toList = cs ++ ['/'] := by simpa using hcs.symm
    have hparts := h.partsOf_text
    rw [htext, partsOf_append_slash, partsOf_nil, List.append_nil] at hparts
    rw [String.toList_append, htext, List.append_assoc, List.singleton_append,
      partsOf_append_slash, hparts]
  · have htext : (p.text ++ "/" ++ s).toList = p.text.toList ++ '/' :: s.toList := by simp
    rw [htext, partsOf_append_slash, h.partsOf_text]

theorem parts_joinText (hroot : (ofString s).root = "") (p : Path) :
    (p.joinText s).parts = p.parts ++ (ofString s).parts := by
  rw [joinText, join, if_pos hroot]

theorem root_ofString_cons {c : Char} {cs : List Char} (hs : s.toList = c :: cs) (hc : c ≠ '/') :
    (ofString s).root = "" := by
  have hslash : (c == '/') = false := beq_false_of_ne hc
  change rootOf s = ""
  rw [rootOf, hs, List.takeWhile_cons_of_neg (by simp [hslash])]
  rfl

/-- A text with a single dot has no double dots. -/
theorem dots_not_mem_parts (h : s.toList.count '.' ≤ 1) : ".." ∉ (ofString s).parts := fun hmem ↦ by
  have hsublist := (isName_of_mem_partsOf hmem).2
  have htwo : ("..".toList).count '.' = 2 := by decide
  have hcount := hsublist.count_le '.'
  omega

/-- A text behind a relative path is a relative path. -/
theorem IsRead.root_beneath (h : p.IsRead) (hroot : p.root = "") (s : String) :
    (ofString (p.beneath s)).root = "" := by
  obtain ⟨c, cs, htext, hc⟩ : ∃ c cs, p.text.toList = c :: cs ∧ c ≠ '/' := by
    rw [text, hroot]
    cases hparts : p.parts with
    | nil => exact ⟨'.', [], rfl, by decide⟩
    | cons part parts =>
      have hname := h.2 part (hparts ▸ List.mem_cons_self)
      obtain ⟨c, cs, hcs⟩ :=
        List.exists_cons_of_ne_nil (String.toList_eq_nil_iff.not.2 hname.nonempty)
      obtain ⟨rest, hrest⟩ :
        ∃ rest, ("/".intercalate (part :: parts)).toList = part.toList ++ rest := by
        cases parts with
        | nil => exact ⟨[], by simp⟩
        | cons next parts =>
          exact ⟨'/' ::
            ("/".intercalate (next :: parts)).toList, by simp [String.toList_intercalate]⟩
      refine ⟨c, cs ++ rest, ?_, fun hslash ↦ hname.noSlash (hcs ▸ hslash ▸ List.mem_cons_self)⟩
      rw [if_neg fun hnil ↦ List.cons_ne_nil _ _ hnil.2, String.empty_append, hrest, hcs]
      rfl
  have hbeneath : ∃ more, (p.beneath s).toList = c :: more := by
    rw [beneath]
    split <;> simp [htext]
  obtain ⟨more, hmore⟩ := hbeneath
  exact root_ofString_cons hmore hc

end Path

end EventSchema

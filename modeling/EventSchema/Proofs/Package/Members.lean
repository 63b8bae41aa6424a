import EventSchema.Package.EnumModel
import EventSchema.Proofs.MemberNames
import EventSchema.Proofs.Computation
import Mathlib.Data.List.Induction
import Mathlib.Data.List.Nodup

/-!
# Members of enumerations

A value of an enumeration gets the member name of its caption, with its number behind it if a value
before has that name already (`EnumModel.nameAfter`). The number tells it apart from values with the
same caption, but nothing keeps the new name apart from the names of other captions: `A 1`, `A` and
`A` with the number 1 give `A_1` twice. That happens exactly where the plain name of an earlier
value is the name with the number (`EnumModel.exists_members`).
-/

namespace EventSchema

/-- The member name of the caption of a value. -/
def EnumValue.plainName (v : EnumValue) : String := Identifier.memberName (v.caption.text?.getD "")

/-- The member name of a value with its number behind it. -/
def EnumValue.numberedName (v : EnumValue) : String := Identifier.numberedName v.plainName v.value

namespace Package.EnumModel

variable {taken : List String} {values : List EnumValue} {members : List (String × EnumValue)}

/-! ### Names one after another -/

/-- The name of a value after others were taken. -/
def nameAfter (taken : List String) (v : EnumValue) : String :=
  if v.plainName ∈ taken then v.numberedName else v.plainName

/-- The names of values, each after the names before it. -/
def namesAfter (taken : List String) : List EnumValue → List (String × EnumValue)
  | [] => []
  | v :: vs => (nameAfter taken v, v) :: namesAfter (nameAfter taken v :: taken) vs

/-- Values with texts for captions have members. -/
theorem memberNames_eq (h : ∀ v ∈ values, v.caption.text?.isSome = true) :
    memberNames taken values = .ok (namesAfter taken values) := by
  induction values generalizing taken with
  | nil => rfl
  | cons v vs ih =>
    obtain ⟨value, text, description⟩ := v
    obtain ⟨caption, hcaption⟩ := Option.isSome_iff_exists.1 (h _ List.mem_cons_self)
    cases text with
    | str caption =>
      have hname : (if taken.contains (Identifier.memberName caption) then
          s!"{Identifier.memberName caption}_{value}" else Identifier.memberName caption) =
            nameAfter taken ⟨value, .str caption, description⟩ :=
            if_congr List.contains_iff_mem rfl rfl
      unfold memberNames
      dsimp only
      rw [hname, ih fun v hv ↦ h v (List.mem_cons_of_mem _ hv)]
      rfl
    | _ => cases hcaption

theorem map_snd_namesAfter (taken : List String) (values : List EnumValue) :
    (namesAfter taken values).map Prod.snd = values := by
  induction values generalizing taken with
  | nil => rfl
  | cons v vs ih => rw [namesAfter, List.map_cons, ih]

/-- The name of a value counts the names before it as taken. -/
theorem name_of_namesAfter {before after : List (String × EnumValue)} {m : String × EnumValue}
    (h : namesAfter taken values = before ++ m :: after) :
    m.1 = nameAfter ((before.map Prod.fst).reverse ++ taken) m.2 := by
  induction values generalizing taken before with
  | nil => exact absurd h.symm (List.append_ne_nil_of_right_ne_nil _ (List.cons_ne_nil _ _))
  | cons v vs ih =>
    rw [namesAfter] at h
    cases before with
    | nil =>
      rw [← (List.cons.inj h).1]
      rfl
    | cons b before =>
      obtain ⟨rfl, hrest⟩ := List.cons.inj h
      rw [ih hrest, List.map_cons, List.reverse_cons, List.append_assoc, List.singleton_append]

/-- Which names are taken matters, and not their order. -/
theorem nameAfter_congr {taken' : List String} (h : ∀ n, n ∈ taken ↔ n ∈ taken') (v : EnumValue) :
    nameAfter taken v = nameAfter taken' v := if_congr (h _) rfl rfl

/-- Where plain names differ, each value has its own. -/
theorem map_fst_namesAfter (hnodup : (values.map EnumValue.plainName).Nodup)
    (htaken : ∀ v ∈ values, v.plainName ∉ taken) :
    (namesAfter taken values).map Prod.fst = values.map EnumValue.plainName := by
  induction values generalizing taken with
  | nil => rfl
  | cons v vs ih =>
    obtain ⟨hv, hvs⟩ := List.nodup_cons.1 hnodup
    have hname : nameAfter taken v = v.plainName := if_neg (htaken v List.mem_cons_self)
    rw [namesAfter, List.map_cons, List.map_cons, hname, ih hvs fun w hw ↦ ?_]
    refine List.not_mem_cons_of_ne_of_not_mem (fun heq ↦ hv ?_)
      (htaken w (List.mem_cons_of_mem _ hw))
    exact heq ▸ List.mem_map_of_mem hw

/-! ### Names that are told apart -/

/-- Each member has the name of its value after the names of the members before it. -/
def NamedInTurn (members : List (String × EnumValue)) : Prop :=
  ∀ before m after, members = before ++ m :: after → m.1 = nameAfter (before.map Prod.fst) m.2

theorem namedInTurn_namesAfter (values : List EnumValue) : NamedInTurn (namesAfter [] values) := by
  intro before m after h
  rw [name_of_namesAfter h]
  refine nameAfter_congr (fun n ↦ ?_) m.2
  rw [List.append_nil, List.mem_reverse]

/-- Once a value has its name, its plain name is taken. -/
theorem NamedInTurn.plainName_mem (h : NamedInTurn members)
    {before after : List (String × EnumValue)} {m : String × EnumValue}
    (hsplit : members = before ++ m :: after) :
    m.2.plainName ∈ before.map Prod.fst ∨ m.1 = m.2.plainName := by
  by_cases htaken : m.2.plainName ∈ before.map Prod.fst
  · exact .inl htaken
  · exact .inr ((h before m after hsplit).trans (if_neg htaken))

/-- The plain names of the values before are taken. -/
theorem NamedInTurn.plainName_mem_of_mem (h : NamedInTurn members)
    {before after : List (String × EnumValue)} (hsplit : members = before ++ after)
    {k : String × EnumValue} (hk : k ∈ before) :
    k.2.plainName ∈ before.map Prod.fst := by
  obtain ⟨first, rest, rfl⟩ := List.append_of_mem hk
  rw [List.append_assoc, List.cons_append] at hsplit
  rw [List.map_append, List.map_cons]
  rcases h.plainName_mem hsplit with htaken | hname
  · exact List.mem_append_left _ htaken
  · exact List.mem_append_right _ (hname ▸ List.mem_cons_self)

/-- A list has no image twice if no element has the image of one before it. -/
theorem nodup_map_iff {α β : Type} {f : α → β} {as : List α} : (as.map f).Nodup ↔
    ∀ before a after, as = before ++ a :: after → f a ∉ before.map f := by
  constructor
  · rintro h before a after rfl hmem
    rw [List.map_append, List.map_cons] at h
    exact (List.nodup_append.1 h).2.2 _ hmem _ List.mem_cons_self rfl
  · intro h
    induction as using List.reverseRecOn with
    | nil => exact List.nodup_nil
    | append_singleton as a ih =>
      rw [List.map_append, List.map_singleton, ← List.concat_eq_append]
      refine List.Nodup.concat (h as a [] rfl) (ih fun before b after hsplit ↦ ?_)
      refine h before b (after ++ [a]) ?_
      rw [hsplit, List.append_assoc, List.cons_append]

/-- Names are told apart exactly if no value that gets its number gets the plain name of an earlier
value by it. -/
theorem NamedInTurn.nodup_iff (h : NamedInTurn members)
    (hvalues : (members.map fun m ↦ m.2.value).Nodup) :
    (members.map Prod.fst).Nodup ↔ ∀ before m after, members = before ++ m :: after →
      m.2.plainName ∈ before.map Prod.fst → ∀ k ∈ before, k.2.plainName ≠ m.2.numberedName := by
  rw [nodup_map_iff]
  constructor
  · intro hnodup before m after hsplit htaken k hk heq
    refine hnodup before m after hsplit ?_
    rw [h before m after hsplit, nameAfter, if_pos htaken, ← heq]
    exact h.plainName_mem_of_mem hsplit hk
  · intro hapart before m after hsplit hmem
    have hname := h before m after hsplit
    by_cases htaken : m.2.plainName ∈ before.map Prod.fst
    · rw [nameAfter, if_pos htaken] at hname
      obtain ⟨k, hk, hkm⟩ := List.mem_map.1 hmem
      obtain ⟨first, rest, rfl⟩ := List.append_of_mem hk
      have hkname :=
        h first k (rest ++ m :: after) (by rw [hsplit, List.append_assoc, List.cons_append])
      rw [hkm, hname, nameAfter] at hkname
      split at hkname
      -- both have their numbers behind their names, and these differ
      · have hnumber : m.2.value = k.2.value := (Identifier.numberedName_inj hkname).2
        exact nodup_map_iff.1 hvalues _ m after hsplit (hnumber ▸ List.mem_map_of_mem hk)
      · exact hapart _ m after hsplit htaken k hk hkname.symm
    · rw [nameAfter, if_neg htaken] at hname
      exact htaken (hname ▸ hmem)

/-- A member name is an identifier unless a negative number stands behind it. -/
theorem NamedInTurn.isIdentifier_iff (h : NamedInTurn members)
    {m : String × EnumValue} (hm : m ∈ members) :
    Identifier.isIdentifier m.1 = true ↔ m.1 = m.2.plainName ∨ 0 ≤ m.2.value := by
  obtain ⟨before, after, hsplit⟩ := List.append_of_mem hm
  have hname := h before m after hsplit
  rw [nameAfter] at hname
  have hplain : Identifier.isIdentifier m.2.plainName = true := Identifier.isIdentifier_memberName _
  have hnumbered : Identifier.isIdentifier m.2.numberedName = true ↔ 0 ≤ m.2.value :=
    Identifier.isIdentifier_numberedName _ _
  split at hname
  · rw [hname, hnumbered]
    exact ⟨.inr, fun hor ↦ hor.elim (fun heq ↦ hnumbered.1 (heq ▸ hplain)) id⟩
  · rw [hname]
    exact iff_of_true hplain (.inl rfl)

/-! ### The members of an enumeration -/

/-- What the members of an enumeration are called, and when their names serve. -/
structure Members (e : EnumModel) (members : List (String × EnumValue)) : Prop where
  /-- There is one for each value, in order. -/
  values : members.map Prod.snd = e.values
  /-- Each has its plain name, or that with its number if the plain name is taken before. -/
  named : NamedInTurn members
  /-- The names differ exactly if none that has its number is the plain name of an earlier value. -/
  nodup : (members.map Prod.fst).Nodup ↔ ∀ before m after, members = before ++ m :: after →
    m.2.plainName ∈ before.map Prod.fst → ∀ k ∈ before, k.2.plainName ≠ m.2.numberedName
  /-- Where the plain names differ, they are the names. -/
  plain : (e.values.map EnumValue.plainName).Nodup →
    members.map Prod.fst = e.values.map EnumValue.plainName
  /-- A name is an identifier unless a negative number stands behind it. -/
  identifier : ∀ m ∈ members, Identifier.isIdentifier m.1 = true ↔
    m.1 = m.2.plainName ∨ 0 ≤ m.2.value
  /-- The module of the enumeration has their lines. -/
  written : ∀ version, ∃ before after,
    e.moduleText version = .ok (joinLines (before ++ members.flatMap memberLines ++ after))

/-- **Members of enumerations.** An enumeration of different numbers with texts for captions has
members, one for each value. Their names differ unless a name with its number behind it is the plain
name of an earlier value, and they are identifiers unless that number is negative. -/
theorem exists_members (e : EnumModel) (hvalues : (e.values.map EnumValue.value).Nodup)
    (hcaptions : ∀ v ∈ e.values, v.caption.text?.isSome = true) :
    ∃ members, e.members = .ok members ∧ e.Members members := by
  have hmembers : e.members = .ok (namesAfter [] e.values) := memberNames_eq hcaptions
  have hnamed := namedInTurn_namesAfter e.values
  have hsnd := map_snd_namesAfter [] e.values
  have hnumbers : ((namesAfter [] e.values).map fun m ↦ m.2.value).Nodup := by
    rwa [← hsnd, List.map_map] at hvalues
  refine ⟨_, hmembers, hsnd, hnamed, hnamed.nodup_iff hnumbers, ?_,
    fun m ↦ hnamed.isIdentifier_iff, ?_⟩
  · exact fun hnodup ↦ map_fst_namesAfter hnodup fun _ _ ↦ List.not_mem_nil
  · intro version
    have hassoc (front lines middle labels rest : List String) :
        front ++ lines ++ middle ++ labels ++ rest =
          front ++ lines ++ (middle ++ labels ++ rest) := by
      simp only [List.append_assoc]
    rw [moduleText, hmembers]
    exact ⟨_, _, congrArg (Except.ok ∘ joinLines) (hassoc _ _ _ _ _)⟩

/-! ### Values with one caption -/

/-- An enumeration of numbers with captions. -/
def levelsOf (values : List (Int × String)) : EnumModel :=
  ⟨"LevelId", .str "Level", values.map fun v ↦ ⟨v.1, .str v.2, ""⟩⟩

/-- Two values with one caption. -/
def lowLevels : EnumModel := levelsOf [(1, "Low"), (2, "Low"), (99, "Other")]

/-- Three values, the first with the name that the last one gets by its number. -/
def clashingLevels : EnumModel := levelsOf [(5, "A 1"), (2, "A"), (1, "A")]

/-- Two values with one caption, the second with a negative number. -/
def negativeLevels : EnumModel := levelsOf [(0, "A"), (-1, "A")]

/-- The second of two values with one caption has its number in its name. -/
theorem exists_members_lowLevels : ∃ members, lowLevels.members = .ok members ∧
    lowLevels.Members members ∧ members.map Prod.fst = ["LOW", "LOW_2", "OTHER"] := by
  obtain ⟨members, hmembers, hnamed⟩ := exists_members lowLevels (by decide) (by decide)
  have hnames : members = namesAfter [] lowLevels.values :=
    Except.ok.inj (hmembers.symm.trans (memberNames_eq (by decide)))
  refine ⟨members, hmembers, hnamed, ?_⟩
  rw [hnames]
  decide +kernel

/-- Different numbers with texts for captions can have one name, and a name that is no
identifier. -/
theorem members_clash :
    ((clashingLevels.values.map EnumValue.value).Nodup ∧
      (∀ v ∈ clashingLevels.values, v.caption.text?.isSome = true) ∧
      ∃ members, clashingLevels.members = .ok members ∧ ¬(members.map Prod.fst).Nodup) ∧
    (negativeLevels.values.map EnumValue.value).Nodup ∧
      (∀ v ∈ negativeLevels.values, v.caption.text?.isSome = true) ∧
      ∃ members, negativeLevels.members = .ok members ∧ ¬∀ m ∈ members,
      Identifier.isIdentifier m.1 = true := by
  constructor
  · refine ⟨by decide, by decide, _, memberNames_eq (by decide), ?_⟩
    decide +kernel
  · refine ⟨by decide, by decide, _, memberNames_eq (by decide), ?_⟩
    decide +kernel

end Package.EnumModel

end EventSchema

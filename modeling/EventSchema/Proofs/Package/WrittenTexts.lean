import EventSchema.Proofs.Package.Contents
import EventSchema.Proofs.Package.FieldNames
import EventSchema.Proofs.Text.Literals

/-!
# Texts of the schema in modules

The modules of a package have texts of the schema as literals: names of attributes, descriptions,
notices of deprecation and captions. Each is read back as its UTF-16 code units, so exactly the
texts of the basic plane are read back as themselves (`literalsReadBack`). A text with a character
above it is read as no text at all, since two halves of a surrogate pair stand for that character.
-/

namespace EventSchema.Package

open Text

/-- A text has the literal of another one behind what stands before it, and no further quote
follows. -/
def HasLiteral (text before s : String) : Prop :=
  ∃ start c rest,
  text.toList = start ++ (before.toList ++ ((literal s).toList ++ c :: rest)) ∧ c ≠ '"'

/-- The labelled attributes that the module of an entity has pairs for. -/
def HasPair (e : Entity) (l : LabelledAttribute) : Prop :=
  e.kind = .event ∧ ∃ labelled, labelledAttributes e = .ok labelled ∧ l ∈ labelled

/-- The texts of the schema that the module of an entity has as literals, and what stands before
each. -/
inductive WritesText (e : Entity) : (before s : String) → Prop where
  /-- An entry has the name of its attribute. -/
  | entry {a : Attribute} (ha : a ∈ e.attributes.values) : WritesText e "        " a.name
  /-- A field that goes by another name has the name of its attribute. -/
  | alternative {a : Attribute} (ha : a ∈ e.attributes.values)
      (hname : Identifier.fieldName a.name ≠ a.name) :
    WritesText e "alias=" a.name
  /-- A field has the description of its attribute. -/
  | description {a : Attribute} (ha : a ∈ e.attributes.values) (hs : a.description ≠ "") :
    WritesText e "description=" a.description
  /-- A field has the notice that its attribute is deprecated. -/
  | deprecation {a : Attribute} {s : String} (ha : a ∈ e.attributes.values)
      (h : a.deprecation = some s) (hs : s ≠ "") : WritesText e "deprecated=" s
  /-- A pair has the name of its attribute. -/
  | name {l : LabelledAttribute} (hl : HasPair e l) : WritesText e "        SiblingPair(" l.name
  /-- A pair has the name of the sibling. -/
  | sibling {l : LabelledAttribute} (hl : HasPair e l) :
    WritesText e (s!"        SiblingPair({literal l.name}," ++ " ") l.sibling
  /-- A table of captions has the captions. -/
  | caption {l : LabelledAttribute} {v : EnumValue} {s : String}
      (hl : HasPair e l) (hv : v ∈ l.values) (hs : v.caption = .str s) :
      WritesText e s!"    {v.value}: " s

variable {p : Plan} {e : Entity} {m : EntityModule} {l : LabelledAttribute}
  {v : EnumValue} {before s : String}
variable {lines : List String}

/-! ### Lines -/

theorem infix_joinLines {line : String} (h : line ∈ lines) :
    line.toList <:+: (joinLines lines).toList := by
  induction lines with
  | nil => cases h
  | cons l ls ih =>
    by_cases hls : ls = []
    · rw [hls, List.mem_singleton] at h
      rw [h, hls, joinLines, String.toList_intercalate]
      simp
    · rw [toList_joinLines_cons l hls]
      rcases List.mem_cons.1 h with rfl | h
      · exact (List.prefix_append _ _).isInfix
      · exact (ih h).trans ((List.suffix_cons _ _).trans (List.suffix_append _ _)).isInfix

/-- A text has what one of its lines has. -/
theorem HasLiteral.of_mem {line : String} (hline : HasLiteral line before s) (h : line ∈ lines) :
    HasLiteral (joinLines lines) before s := by
  obtain ⟨start, c, rest, hline, hc⟩ := hline
  obtain ⟨front, back, htext⟩ := infix_joinLines h
  refine ⟨front ++ start, c, rest ++ back, ?_, hc⟩
  rw [← htext, hline]
  simp only [List.append_assoc, List.cons_append]

theorem HasLiteral.of_eq {line : String} {c : Char} {cs : List Char} (follow rest : String)
    (hfollow : follow.toList = c :: cs) (hc : c ≠ '"')
    (h : line = before ++ literal s ++ follow ++ rest) :
    HasLiteral line before s := by
  refine ⟨[], c, cs ++ rest.toList, ?_, hc⟩
  rw [h]
  simp only [String.toList_append, hfollow, List.append_assoc, List.nil_append, List.cons_append]

/-! ### Lines of modules -/

theorem hasLiteral_labelLines {values : List EnumValue} (hv : v ∈ values)
    (hs : v.caption = .str s) :
    ∃ line ∈ EnumModel.labelLines values, HasLiteral line s!"    {v.value}: " s := by
  refine ⟨_, List.mem_map_of_mem hv, .of_eq "," "" rfl (by decide) ?_⟩
  rw [hs, Json.document, String.append_empty]
  rfl

theorem Entry.hasLiteral_line (f : Entry) : HasLiteral f.line "        " f.name := by
  refine .of_eq ": " (f.type.text ++ ",") rfl (by decide) ?_
  rw [← String.append_assoc]
  rfl

/-- What stands in a list of arguments is followed by a comma or by the bracket that ends the
list. -/
theorem HasLiteral.of_mem_arguments {args : List String} (start : String)
    (h : before ++ literal s ∈ args) :
    HasLiteral (start ++ ", ".intercalate args ++ ")") before s := by
  have hlist : ∃ front c rest, ((", ").toList.intercalate (args.map String.toList)) ++ [')'] =
      front ++ ((before ++ literal s).toList ++ c :: rest) ∧ c ≠ '"' := by
    induction args with
    | nil => cases h
    | cons arg args ih =>
      by_cases hargs : args = []
      · rw [hargs, List.mem_singleton] at h
        exact ⟨[], ')', [], by simp [hargs, h], by decide⟩
      · rw [List.map_cons, List.intercalate_cons_of_ne_nil (by simpa using hargs)]
        rcases List.mem_cons.1 h with rfl | h
        · exact ⟨[], ',',
            _, by rw [List.nil_append, List.append_assoc, List.append_assoc]; rfl, by decide⟩
        · obtain ⟨front, c, rest, heq, hc⟩ := ih h
          exact ⟨_, c, rest, by rw [List.append_assoc, heq, ← List.append_assoc], hc⟩
  obtain ⟨front, c, rest, heq, hc⟩ := hlist
  refine ⟨start.toList ++ front, c, rest, ?_, hc⟩
  rw [String.toList_append, String.toList_append, String.toList_intercalate, List.append_assoc]
  rw [String.toList_append] at heq
  simpa [List.append_assoc] using heq

theorem Field.hasLiteral_line {f : Field}
    (h : before = "alias=" ∧ f.alternative = some s ∨
      before = "description=" ∧ f.description = some s ∨
      before = "deprecated=" ∧ f.deprecation = some s) : HasLiteral f.line before s := by
  refine .of_mem_arguments _ ?_
  rcases h with ⟨rfl, h⟩ | ⟨rfl, h⟩ | ⟨rfl, h⟩ <;> simp [h]

/-- The line of a pair. -/
def LabelledAttribute.line (l : LabelledAttribute) : String :=
  s!"        SiblingPair({literal l.name}," ++ s!" {literal l.sibling}, {l.labelsName}),"

theorem LabelledAttribute.hasLiteral_name (l : LabelledAttribute) :
    HasLiteral l.line "        SiblingPair(" l.name :=
  .of_eq "," s!" {literal l.sibling}, {l.labelsName})," rfl (by decide) rfl

theorem LabelledAttribute.hasLiteral_sibling (l : LabelledAttribute) :
    HasLiteral l.line (s!"        SiblingPair({literal l.name}," ++ " ") l.sibling := by
  have hassoc (x y z u v w : String) :
      x ++ (y ++ z ++ u ++ v ++ w) = x ++ y ++ z ++ u ++ (v ++ w) := by
    simp only [String.append_assoc]
  exact .of_eq ", " (l.labelsName ++ "),") rfl (by decide) (hassoc _ _ _ _ _ _)

/-! ### The text of a module -/

theorem Field.line_mem {f : Field} (h : f ∈ m.fields) :
    ∃ lines, m.text = joinLines lines ∧ f.line ∈ lines := by
  refine ⟨_, rfl, ?_⟩
  have hfields : f.line ∈ if m.fields.isEmpty then [] else "" :: m.fields.map Field.line := by
    rw [if_neg (by simpa using List.ne_nil_of_mem h)]
    exact List.mem_cons_of_mem _ (List.mem_map_of_mem h)
  simp only [List.mem_append, hfields, or_true, true_or]

theorem Entry.line_mem {f : Entry} (h : f ∈ m.entries) :
    ∃ lines, m.text = joinLines lines ∧ f.line ∈ lines := by
  refine ⟨_, rfl, ?_⟩
  simp only [List.mem_append, List.mem_map_of_mem h, or_true, true_or]

theorem labelLines_mem {line : String} (hl : l ∈ m.labelled)
    (h : line ∈ EnumModel.labelLines l.values) :
    ∃ lines, m.text = joinLines lines ∧ line ∈ lines := by
  refine ⟨_, rfl, ?_⟩
  have htables : line ∈ m.labelTables :=
    List.mem_flatMap.2 ⟨l, hl, List.mem_append_left _ (List.mem_append_right _ h)⟩
  simp only [List.mem_append, htables, or_true, true_or]

theorem LabelledAttribute.line_mem (hkind : m.entity.kind = .event) (hl : l ∈ m.labelled) :
    ∃ lines, m.text = joinLines lines ∧ l.line ∈ lines := by
  refine ⟨_, rfl, ?_⟩
  have hevent : l.line ∈ m.eventLines := by
    rw [EntityModule.eventLines, hkind]
    dsimp only
    rw [if_neg (by simpa using List.ne_nil_of_mem hl)]
    refine List.mem_append_right _ (List.mem_append_left _ (List.mem_append_right _ ?_))
    exact List.mem_map_of_mem (f := LabelledAttribute.line) hl
  simp only [List.mem_append, hevent, or_true, true_or]

theorem labels_of_module (h : EntityModule.of p e = .ok m) (hl : HasPair e l) :
    m.entity.kind = .event ∧ l ∈ m.labelled := by
  obtain ⟨hkind, labelled, hlabelled, hl⟩ := hl
  rw [(EntityModule.madeOf h).entity]
  rcases labelled_of_module h with ⟨-, hm⟩ | ⟨hobject, -⟩
  · exact ⟨hkind, Except.ok.inj (hlabelled.symm.trans hm) ▸ hl⟩
  · rw [hkind] at hobject
    cases hobject

/-- An attribute has a field and an entry. -/
theorem exists_fieldOf_of_module {a : Attribute} (h : EntityModule.of p e = .ok m)
    (ha : a ∈ e.attributes.values) :
    ∃ f, fieldOf p.objects p.deferral e a = .ok f ∧ f.1 ∈ m.fields ∧ f.2 ∈ m.entries := by
  obtain ⟨fields, hfields, hmodel, hentries⟩ := (EntityModule.madeOf h).fields
  obtain ⟨f, hf⟩ := exists_of_mapM_ok hfields ha
  have hmem := (mem_of_mapM_ok hfields).2 ⟨a, ha, hf⟩
  rw [hmodel, hentries]
  exact ⟨f, hf, List.mem_map_of_mem hmem, List.mem_map_of_mem hmem⟩

/-- The module of an entity has the literals of its texts. -/
theorem hasLiteral_of_module (h : EntityModule.of p e = .ok m) (hs : WritesText e before s) :
    HasLiteral m.text before s := by
  have hline : ∃ line, HasLiteral line before s ∧ ∃ lines, m.text = joinLines lines ∧
      line ∈ lines := by
    cases hs with
    | entry ha =>
      obtain ⟨f, hf, -, hentry⟩ := exists_fieldOf_of_module h ha
      exact ⟨_, (names_of_fieldOf hf).2.2 ▸ f.2.hasLiteral_line, Entry.line_mem hentry⟩
    | alternative ha hname =>
      obtain ⟨f, hf, hfield, -⟩ := exists_fieldOf_of_module h ha
      obtain ⟨types, -, hf⟩ := bind_eq_ok hf
      cases hf
      exact ⟨_, Field.hasLiteral_line (.inl ⟨rfl, if_neg hname⟩), Field.line_mem hfield⟩
    | description ha hs =>
      obtain ⟨f, hf, hfield, -⟩ := exists_fieldOf_of_module h ha
      obtain ⟨types, -, hf⟩ := bind_eq_ok hf
      cases hf
      exact ⟨_, Field.hasLiteral_line (.inr (.inl ⟨rfl, if_neg hs⟩)), Field.line_mem hfield⟩
    | deprecation ha hdeprecation hs =>
      obtain ⟨f, hf, hfield, -⟩ := exists_fieldOf_of_module h ha
      obtain ⟨types, -, hf⟩ := bind_eq_ok hf
      cases hf
      refine ⟨_, Field.hasLiteral_line (.inr (.inr ⟨rfl, ?_⟩)), Field.line_mem hfield⟩
      rw [hdeprecation]
      exact if_neg hs
    | name hl =>
      obtain ⟨hkind, hl⟩ := labels_of_module h hl
      exact ⟨_, LabelledAttribute.hasLiteral_name _, LabelledAttribute.line_mem hkind hl⟩
    | sibling hl =>
      obtain ⟨hkind, hl⟩ := labels_of_module h hl
      exact ⟨_, LabelledAttribute.hasLiteral_sibling _, LabelledAttribute.line_mem hkind hl⟩
    | caption hl hv hs =>
      obtain ⟨line, hline, hhas⟩ := hasLiteral_labelLines hv hs
      exact ⟨line, hhas, labelLines_mem (labels_of_module h hl).2 hline⟩
  obtain ⟨line, hhas, lines, htext, hline⟩ := hline
  rw [htext]
  exact hhas.of_mem hline

/-- The module of an enumeration has the literals of its captions. -/
theorem hasLiteral_of_moduleText {model : EnumModel} {version : Json} {text : String}
    (h : model.moduleText version = .ok text) (hv : v ∈ model.values) (hs : v.caption = .str s) :
    HasLiteral text s!"    {v.value}: " s := by
  obtain ⟨members, -, h⟩ := bind_eq_ok h
  obtain ⟨line, hline, hhas⟩ := hasLiteral_labelLines hv hs
  rw [← Except.ok.inj h]
  refine hhas.of_mem ?_
  simp only [List.mem_append, hline, or_true, true_or]

/-! ### Texts that are read back -/

/-- How the texts of the schema are read back from the modules that have them as literals. -/
structure LiteralsReadBack (names : List Char → Option Nat) : Prop where
  /-- Every text is read as its UTF-16 code units: as itself if it is in the basic plane, else as no
  text. -/
  readsBack (s : String) : Text.ReadsBack names s
  /-- The names, descriptions, notices and captions of an entity stand in its module. -/
  entity (p : Plan) (e : Entity) (m : EntityModule) (before s : String) :
    EntityModule.of p e = .ok m → WritesText e before s → HasLiteral m.text before s
  /-- The captions of an enumeration stand in its module. -/
  enumeration (model : EnumModel) (version : Json) (text : String) (v : EnumValue) (s : String) :
    model.moduleText version = .ok text → v ∈ model.values → v.caption = .str s →
      HasLiteral text s!"    {v.value}: " s

/-- **Texts of the schema are read back as their UTF-16 code units.** So the names, descriptions and
captions in modules are the schema's own exactly as far as they are in the basic plane. -/
theorem literalsReadBack (names : List Char → Option Nat) : LiteralsReadBack names where
  readsBack := Text.readsBack names
  entity _ _ _ _ _ := hasLiteral_of_module
  enumeration _ _ _ _ _ := hasLiteral_of_moduleText

/-- A smiling face is read as the two halves of a surrogate pair, whatever names characters have. -/
theorem evaluate_literal_face :
    (∀ names, evaluate names (literal "😀").toList = some [0xD83D, 0xDE00]) ∧
    codePoints "😀" = [0x1F600] := by
  have hface : "😀".toList = [Char.ofNat 0x1F600] := by decide
  refine ⟨fun names ↦ ?_, by rw [codePoints, hface]; rfl⟩
  rw [evaluate_literal, codeUnits, hface]
  rfl

end EventSchema.Package

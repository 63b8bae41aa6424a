import EventSchema.Proofs.Catalog.Documents
import EventSchema.Proofs.Catalog.Enumerations
import EventSchema.Proofs.Catalog.Keys
import EventSchema.Proofs.Package.Arrangement
import EventSchema.Proofs.Package.Contents

/-!
# Modules that find what they name

Every name by which a module of a package writes the type of a reference is its own or imported
once, at once or late, from a file of the package that defines it, and no imported name takes the
place of another name of the module (`EntityModule.LinkClosed`). The dictionary type of a module is
written when the module is loaded, so it looks up only names that were imported at once. Loading
ends, because a module of an object imports at once only modules of objects that come before it.
-/

namespace EventSchema.Package

variable {s : Schema} {d : Deferral} {p : Plan} {e target : Entity}
  {m : EntityModule} {n object : String}

/-! ### Types without arrays and options -/

/-- The type of the items, and of the values that may be left out. -/
def ModelType.core : ModelType → ModelType
  | .list items => items.core
  | .optional type => type.core
  | type => type

/-- The type of the items, whether the entry must be there or not. -/
def EntryType.core : EntryType → EntryType
  | .list items => items.core
  | .required type => type.core
  | type => type

/-! ### What is asked of a module -/

/-- The source under which the module of an entity imports a module of an object at once. -/
def eagerSource (kind : EntityKind) (module : String) : String :=
  match kind with
  | .event => "." ++ "." ++ objectsPackage ++ "." ++ module
  | .object => "." ++ module

/-- A module of the planned objects exports a name, and if the files of the package can be written,
the file of the module defines it. -/
def Plan.Exports (p : Plan) (module name : String) : Prop :=
  (∃ target ∈ p.objects.values, module = moduleOf target ∧ name ∈ exportsOf target) ∧
    ∀ files, filesOf p = .ok files →
      ∃ text, files.get? (modulePath objectsPackage module) = some text ∧ Defines text name

/-- The types that dictionary entries are written with and that need no import. -/
def builtinTypes : List String := ["str", "int", "bool", "float"]

/-- How a module may write the content of an attribute: by which names, and where these come
from. -/
inductive EntityModule.Writes (p : Plan) (m : EntityModule) :
    Content → ModelType → EntryType → Prop where
  /-- The object itself goes by the names of the module. -/
  | own (hkind : m.entity.kind = .object) :
    Writes p m (.reference m.entity.name) (.name m.entity.typeName) (.quoted (dictName m.entity))
  /-- An object goes by names that are imported at once. -/
  | eager {object source model entry : String} {target : Entity}
      (hobject : p.objects.get? object = some target)
      (hmodel : Lists m.eager source ⟨target.typeName, model⟩)
      (hentry : Lists m.eager source ⟨dictName target, entry⟩) :
    Writes p m (.reference object) (.name model) (.name entry)
  /-- An object goes by names that are bound late. -/
  | late {object source model entry : String} {target : Entity}
      (hobject : p.objects.get? object = some target)
      (hmodel : Lists m.late source ⟨target.typeName, model⟩)
      (hentry : Lists m.late source ⟨dictName target, entry⟩) :
    Writes p m (.reference object) (.name model) (.quoted entry)
  /-- Numbers are listed. -/
  | numbers {values : List Int} (hliteral : "Literal" ∈ m.typing) :
    Writes p m (.numbers values) (.numbers values) (.name "int")
  /-- Scalar types go by names that are imported for types or for checks. -/
  | scalar {type : ScalarType} (hmodel : type.modelText ∈ m.typing ∨ type.modelText ∈ m.validation)
      (hentry : type.plainText ∈ builtinTypes ∨ type.plainText ∈ m.typing) :
    Writes p m (.scalar type) (.name type.modelText) (.name type.plainText)

/-- The names that a module defines or imports from outside of its package. -/
def EntityModule.otherNames (m : EntityModule) : List String :=
  exportsOf m.entity ++ ["DEFERRED_REFS",
    "annotations"] ++ m.labelled.map LabelledAttribute.labelsName
    ++ m.typing.toList ++ m.validation.toList ++ m.support.flatMap fun s ↦ s.2.toList

/-- A module that finds what it names. -/
structure EntityModule.LinkClosed (p : Plan) (m : EntityModule) : Prop where
  /-- Each attribute is written by names that are the module's own or imported. -/
  written : List.Forall₂ (fun a f ↦ m.Writes p (contentOf a) f.1.type.core f.2.type.core)
    m.entity.attributes.values (m.fields.zip m.entries)
  /-- No two imported names go by one name. -/
  nodup : (localNames m.eager ++ localNames m.late).Nodup
  /-- No imported name goes by another name of the module. -/
  fresh : ∀ n ∈ localNames m.eager ++ localNames m.late, n ∉ m.otherNames
  /-- What is imported at once is exported by a module of an object. -/
  eager : ∀ source b, Lists m.eager source b →
    ∃ module, source = eagerSource m.entity.kind module ∧ p.Exports module b.exported
  /-- What is bound late is exported by a module of an object. -/
  late : ∀ source b, Lists m.late source b → m.entity.kind = .object ∧ p.Exports source b.exported
  /-- An object imports at once what it refers to, except itself and what is deferred. -/
  sources : m.entity.kind = .object → ∀ source, source ∈ m.eager.names ↔
    ∃ object target, object ∈ m.entity.references ∧ object ≠ m.entity.name ∧
      p.deferral.isDeferred m.entity.name object = false ∧
      p.objects.get? object = some target ∧ source = eagerSource .object (moduleOf target)
  /-- What an object imports at once comes before it. -/
  ordered : m.entity.kind = .object → ∀ object ∈ m.entity.references, object ≠ m.entity.name →
    p.deferral.isDeferred m.entity.name object = false → [object, m.entity.name].Sublist p.order

/-! ### What a plan holds -/

/-- What a plan has to hold for the modules of its entities to find what they name. -/
structure Plan.Linkable (p : Plan) : Prop where
  keyed : ∀ n e, p.objects.get? n = some e → e.name = n ∧ e.kind = .object ∧ n ≠ ""
  events : ∀ e ∈ p.events.values, e.kind = .event
  distinct : Distinguished p.objects.values
  complete : p.order.Perm p.objects.names
  ordered : ∀ n ∈ p.order,
    ∀ w ∈ neededAtOnce (ReferenceGraph.ofObjects p.objects) p.deferral n, [w, n].Sublist p.order

theorem Plan.linkable (hs : s.Keyed) (h : plan s d = .ok p) : p.Linkable := by
  have hp := plan_eq_ok_iff.1 h
  obtain rfl := hp.deferral
  obtain ⟨hcomplete, hordered⟩ := objectOrder_ordered hp.order
  refine ⟨fun n e he ↦ ?_, fun e he ↦ ?_, .of_checkNames hp.objectNames, hcomplete, hordered⟩
  · exact hs.objects n e ((holdsPlanned_of_plannedObjects hp.objects).get?_schema n e he)
  · obtain ⟨n, hn⟩ := Table.mem_values_iff.1 he
    rw [hp.events] at hn
    exact (hs.events n e (get?_plannedEvents_iff.1 hn).1).2

/-! ### What a module is made of -/

/-- How the module of an entity is made. -/
structure EntityModule.MadeOf (p : Plan) (e : Entity) (m : EntityModule) : Prop where
  entity : m.entity = e
  fields : ∃ fields, e.attributes.values.mapM (fieldOf p.objects p.deferral e) = .ok fields ∧
    m.fields = fields.map Prod.fst ∧ m.entries = fields.map Prod.snd
  typing : m.typing = NameSet.ofList (e.attributes.values.flatMap typingOf ++ ["TypedDict"]
    ++ if m.late.size = 0 then [] else ["TYPE_CHECKING"])
  validation : m.validation = NameSet.ofList (["ConfigDict", "Field"]
    ++ e.attributes.values.flatMap validationOf)
  support : m.support = supportOf e.kind !m.labelled.isEmpty
  eager : m.eager = eagerImports e (linksOf p.objects p.deferral e)
  late : m.late = lateImports e (linksOf p.objects p.deferral e)

theorem EntityModule.madeOf (h : EntityModule.of p e = .ok m) : m.MadeOf p e := by
  obtain ⟨fields, hfields, h⟩ := bind_eq_ok h
  cases hkind : e.kind <;> rw [hkind] at h
  all_goals
    obtain ⟨labelled, -, h⟩ := bind_eq_ok h
    obtain ⟨summary, -, h⟩ := bind_eq_ok h
    cases h
    exact ⟨rfl, ⟨fields, hfields, rfl, rfl⟩, rfl, rfl, congrArg (supportOf · _) hkind.symm,
      rfl, rfl⟩

/-- The names for types are reserved. -/
theorem typingOf_reserved {a : Attribute} (h : n ∈ typingOf a) : n ∈ reservedNames := by
  rcases List.mem_append.1 h with h | h
  · cases hcontent : contentOf a with
    | reference object =>
      rw [hcontent] at h
      exact absurd h List.not_mem_nil
    | numbers values =>
      rw [hcontent] at h
      rw [List.mem_singleton.1 h]
      decide
    | scalar type =>
      rw [hcontent] at h
      dsimp only at h
      split at h
      · rw [List.mem_singleton.1 h]
        decide
      · exact absurd h List.not_mem_nil
  · rw [List.mem_singleton.1 h]
    split <;> decide

/-- The names for checks are reserved. -/
theorem validationOf_reserved {a : Attribute} (h : n ∈ validationOf a) : n ∈ reservedNames := by
  unfold validationOf at h
  split at h
  · exact absurd h List.not_mem_nil
  · next type _ _ =>
    rw [List.mem_singleton.1 h]
    cases type <;> decide
  · exact absurd h List.not_mem_nil

/-- The names of the model library are reserved. -/
theorem supportOf_reserved {kind : EntityKind} {hasPairs : Bool} {s : String × NameSet}
    (hs : s ∈ supportOf kind hasPairs) (hn : n ∈ s.2) : n ∈ reservedNames := by
  have hall : ∀ kind hasPairs, ∀ s ∈ supportOf kind hasPairs, ∀ n ∈ s.2.toList,
      n ∈ reservedNames := by
    intro kind hasPairs
    cases kind <;> cases hasPairs <;> decide
  exact hall kind hasPairs s hs n hn

/-- What a module does not import from its package are the names that it exports, reserved names and
names of tables of captions. -/
theorem EntityModule.MadeOf.otherNames (hm : m.MadeOf p e) (hn : n ∈ m.otherNames) :
    n ∈ exportsOf e ∨ n ∈ reservedNames ∨ ∃ a : LabelledAttribute, n = a.labelsName := by
  simp only [EntityModule.otherNames, List.mem_append, ← NameSet.mem_def] at hn
  rcases hn with ((((hn | hn) | hn) | hn) | hn) | hn
  · exact .inl (hm.entity ▸ hn)
  · have hall : ∀ n ∈ ["DEFERRED_REFS", "annotations"], n ∈ reservedNames := by decide
    exact .inr (.inl (hall n hn))
  · obtain ⟨a, -, rfl⟩ := List.mem_map.1 hn
    exact .inr (.inr ⟨a, rfl⟩)
  · rw [hm.typing, NameSet.mem_ofList] at hn
    rcases List.mem_append.1 hn with hn | hn
    · rcases List.mem_append.1 hn with hn | hn
      · obtain ⟨a, -, hn⟩ := List.mem_flatMap.1 hn
        exact .inr (.inl (typingOf_reserved hn))
      · rw [List.mem_singleton.1 hn]
        exact .inr (.inl (by decide))
    · split at hn
      · exact absurd hn List.not_mem_nil
      · rw [List.mem_singleton.1 hn]
        exact .inr (.inl (by decide))
  · rw [hm.validation, NameSet.mem_ofList] at hn
    rcases List.mem_append.1 hn with hn | hn
    · have hall : ∀ n ∈ ["ConfigDict", "Field"], n ∈ reservedNames := by decide
      exact .inr (.inl (hall n hn))
    · obtain ⟨a, -, hn⟩ := List.mem_flatMap.1 hn
      exact .inr (.inl (validationOf_reserved hn))
  · obtain ⟨s, hs, hn⟩ := List.mem_flatMap.1 hn
    rw [hm.support] at hs
    exact .inr (.inl (supportOf_reserved hs hn))

/-- What a module of an object exports is in its file. -/
theorem Plan.Linkable.exports (hp : p.Linkable) (htarget : p.objects.get? object = some target)
    (hn : n ∈ exportsOf target) : p.Exports (moduleOf target) n := by
  refine ⟨⟨target, Table.mem_values_iff.2 ⟨object, htarget⟩, rfl, hn⟩, fun files hfiles ↦ ?_⟩
  obtain ⟨m, hm, hget⟩ := get?_filesOf hp.complete hp.distinct hfiles htarget
  exact ⟨m.text, hget, m.defines_text ((EntityModule.madeOf hm).entity ▸ hn)⟩

/-! ### Links of a module -/

theorem EntityModule.MadeOf.lists_eager (hm : m.MadeOf p e) {source : String} {b : Binding} :
    Lists m.eager source b ↔ ∃ object target, (∃ a ∈ e.attributes.values, a.target = some object) ∧
      p.objects.get? object = some target ∧ linkOf p.deferral e object target = .eager source ∧
      b ∈ bindingsOf e target := by
  rw [hm.eager, eagerImports_eq, lists_importsBy_linksOf]
  simp only [Link.eagerSource?_eq_some]

theorem EntityModule.MadeOf.lists_late (hm : m.MadeOf p e) {source : String} {b : Binding} :
    Lists m.late source b ↔ ∃ object target, (∃ a ∈ e.attributes.values, a.target = some object) ∧
      p.objects.get? object = some target ∧ linkOf p.deferral e object target = .late source ∧
      b ∈ bindingsOf e target := by
  rw [hm.late, lateImports_eq, lists_importsBy_linksOf]
  simp only [Link.lateSource?_eq_some]

/-- An object refers to itself by its own names. -/
theorem linkOf_eq_own_iff : linkOf d e object target = .own ↔
    e.kind = .object ∧ object = e.name := by
  unfold linkOf
  split
  · next h => simp [h]
  · next h =>
    cases hkind : e.kind with
    | event => simp
    | object => cases d.isDeferred e.name object <;> simp_all

/-- The module of an object binds late what the object refers to by a deferred reference. -/
theorem linkOf_eq_late_iff {source : String} : linkOf d e object target = .late source ↔
    e.kind = .object ∧ object ≠ e.name ∧ d.isDeferred e.name object = true ∧
      source = moduleOf target := by
  unfold linkOf
  split
  · next h => simp [h]
  · next h =>
    cases hkind : e.kind with
    | event => simp
    | object => cases d.isDeferred e.name object <;> simp_all [@eq_comm _ source]

/-- All else is imported at once. -/
theorem linkOf_eq_eager_iff {source : String} : linkOf d e object target = .eager source ↔
    (e.kind = .object → object ≠ e.name ∧ d.isDeferred e.name object = false) ∧
      source = eagerSource e.kind (moduleOf target) := by
  unfold linkOf
  split
  · next h => simp [h]
  · next h =>
    cases hkind : e.kind with
    | event => simp [eagerSource, @eq_comm _ source]
    | object => cases d.isDeferred e.name object <;> simp_all [eagerSource, @eq_comm _ source]

theorem target_of_contentOf {a : Attribute} (h : contentOf a = .reference object) :
    a.target = some object := by
  unfold contentOf at h
  split at h
  · next htarget =>
    cases h
    exact htarget
  · split at h <;> cases h

/-- The types of a field and its entry are those of the content, in arrays and options. -/
theorem core_of_fieldOf {planned : Table Entity} {a : Attribute} {f : Field × Entry}
    (hf : fieldOf planned d e a = .ok f) : ∃ model entry,
      contentTypes planned d e (contentOf a) = .ok (model, entry) ∧
        f.1.type.core = model.core ∧ f.2.type.core = entry.core := by
  obtain ⟨⟨model, entry⟩, htypes, hf⟩ := bind_eq_ok hf
  cases hf
  refine ⟨model, entry, htypes, ?_, ?_⟩
  · dsimp only
    cases a.isRequired <;> cases a.isArray <;> rfl
  · dsimp only
    cases a.isRequired <;> cases a.isArray <;> rfl

/-- A reference is written by the names of its link. -/
theorem EntityModule.MadeOf.writes_reference (hm : m.MadeOf p e) {a : Attribute}
    (ha : a ∈ e.attributes.values) (hobject : a.target = some object)
    (htarget : p.objects.get? object = some target) :
    m.Writes p (.reference object)
      (referenceTypes e target (linkOf p.deferral e object target)).1.core
      (referenceTypes e target (linkOf p.deferral e object target)).2.core := by
  have hbindings : ∀ n ∈ exportsOf target, ⟨n, localNameIn e n⟩ ∈ bindingsOf e target := fun n hn ↦
    List.mem_map.2 ⟨n, hn, rfl⟩
  have htype := hbindings target.typeName (by simp [exportsOf])
  have hdict := hbindings (dictName target) (by simp [exportsOf])
  rcases hlink : linkOf p.deferral e object target with _ | source | source
  · obtain ⟨hkind, rfl⟩ := linkOf_eq_own_iff.1 hlink
    exact hm.entity ▸ .own (hm.entity.symm ▸ hkind)
  · exact .eager htarget
      (hm.lists_eager.2 ⟨object, target, ⟨a, ha, hobject⟩, htarget, hlink, htype⟩)
      (hm.lists_eager.2 ⟨object, target, ⟨a, ha, hobject⟩, htarget, hlink, hdict⟩)
  · exact .late htarget (hm.lists_late.2 ⟨object, target, ⟨a, ha, hobject⟩, htarget, hlink, htype⟩)
      (hm.lists_late.2 ⟨object, target, ⟨a, ha, hobject⟩, htarget, hlink, hdict⟩)

/-- An attribute is written by names of its own module or imported names. -/
theorem EntityModule.MadeOf.writes (hm : m.MadeOf p e) {a : Attribute} {f : Field × Entry}
    (ha : a ∈ e.attributes.values) (hf : fieldOf p.objects p.deferral e a = .ok f) :
    m.Writes p (contentOf a) f.1.type.core f.2.type.core := by
  obtain ⟨model, entry, htypes, hmodel, hentry⟩ := core_of_fieldOf hf
  have htyping : ∀ n ∈ typingOf a, n ∈ m.typing := fun n hn ↦ by
    rw [hm.typing, NameSet.mem_ofList]
    exact List.mem_append_left _ (List.mem_append_left _ (List.mem_flatMap.2 ⟨a, ha, hn⟩))
  have hvalidation : ∀ n ∈ validationOf a, n ∈ m.validation := fun n hn ↦ by
    rw [hm.validation, NameSet.mem_ofList]
    exact List.mem_append_right _ (List.mem_flatMap.2 ⟨a, ha, hn⟩)
  rw [hmodel, hentry]
  cases hcontent : contentOf a with
  | reference object =>
    rw [hcontent, contentTypes] at htypes
    split at htypes
    · next target htarget =>
      have hwritten := hm.writes_reference ha (target_of_contentOf hcontent) htarget
      rwa [Except.ok.inj htypes] at hwritten
    · cases htypes
  | numbers values =>
    rw [hcontent] at htypes
    cases htypes
    exact .numbers (htyping _ (by simp [typingOf, hcontent]))
  | scalar type =>
    rw [hcontent] at htypes
    cases htypes
    have hany : type = .json ∨ type = .unknown → "Any" ∈ m.typing := fun h ↦
      htyping _ (by simp [typingOf, hcontent, h])
    refine .scalar ?_ ?_
    · cases type with
      | unknown => exact .inl (hany (.inr rfl))
      | _ => exact .inr (hvalidation _ (by simp [validationOf, hcontent]))
    · cases type with
      | unknown => exact .inr (hany (.inr rfl))
      | json => exact .inr (hany (.inl rfl))
      | _ => exact .inl (by decide)

/-- What is imported goes by the names that exported names go by. -/
theorem EntityModule.MadeOf.mem_localNames (hm : m.MadeOf p e)
    (hn : n ∈ localNames m.eager ++ localNames m.late) :
    ∃ target exported, exported ∈ exportsOf target ∧ n = localNameIn e exported := by
  have hbinding : ∃ target, ∃ b ∈ bindingsOf e target, n = b.localName := by
    rcases List.mem_append.1 hn with hn | hn
    all_goals
      obtain ⟨b, hb, rfl⟩ := List.mem_map.1 hn
      obtain ⟨source, hb⟩ := mem_bindings.1 hb
    · obtain ⟨object, target, -, -, -, hb⟩ := hm.lists_eager.1 hb
      exact ⟨target, b, hb, rfl⟩
    · obtain ⟨object, target, -, -, -, hb⟩ := hm.lists_late.1 hb
      exact ⟨target, b, hb, rfl⟩
  obtain ⟨target, b, hb, rfl⟩ := hbinding
  obtain ⟨exported, hexported, rfl⟩ := List.mem_map.1 hb
  exact ⟨target, exported, hexported, rfl⟩

/-- The module of an object imports at once from what the object refers to, except itself and what
is deferred. -/
theorem EntityModule.MadeOf.mem_names_eager (hm : m.MadeOf p e)
    (hp : p.Linkable) (he : e.kind = .object) {source : String} : source ∈ m.eager.names ↔
      ∃ object target, object ∈ e.references ∧ object ≠ e.name ∧
        p.deferral.isDeferred e.name object = false ∧ p.objects.get? object = some target ∧
        source = eagerSource .object (moduleOf target) := by
  rw [hm.eager, eagerImports_eq, mem_names_importsBy_linksOf]
  simp only [Link.eagerSource?_eq_some, linkOf_eq_eager_iff, he, forall_const,
    Entity.mem_references, Attribute.target?, Option.filter_eq_some_iff]
  constructor
  · rintro ⟨object, target, ⟨a, ha, hobject⟩, htarget, ⟨hne, hdeferred⟩, hsource⟩
    have hname := (hp.keyed object target htarget).2.2
    exact ⟨object, target, ⟨a, ha, hobject, decide_eq_true hname⟩, hne, hdeferred, htarget, hsource⟩
  · rintro ⟨object, target, ⟨a, ha, hobject, -⟩, hne, hdeferred, htarget, hsource⟩
    exact ⟨object, target, ⟨a, ha, hobject⟩, htarget, ⟨hne, hdeferred⟩, hsource⟩

/-- What an object refers to comes before it, except itself and what is deferred. -/
theorem Plan.Linkable.before (hp : p.Linkable) (he : p.objects.get? e.name = some e)
    (hobject : object ∈ e.references) (hne : object ≠ e.name)
    (hdeferred : p.deferral.isDeferred e.name object = false) :
    [object, e.name].Sublist p.order := by
  have horder : e.name ∈ p.order := hp.complete.mem_iff.2 (Table.mem_names_iff.2 ⟨e, he⟩)
  obtain ⟨r, hr, hpair⟩ := ReferenceGraph.exists_mem_references.2 ⟨e, he, hobject⟩
  refine hp.ordered e.name horder object (mem_neededAtOnce.2 ⟨⟨r, hr, hpair, ?_⟩, hne⟩)
  exact fun hmem ↦ Bool.eq_false_iff.1 hdeferred (List.contains_iff_mem.2 hmem)

/-! ### Link closure -/

/-- **Every module finds what it names.** In the plan of a schema that holds its entities under
their own names, as reading leaves it, every module that can be made of a planned object or event
class writes its attributes by names of its own or names imported once, from modules whose files
define them; imported names stay clear of all others; and the module of an object imports at once
the modules of what it refers to, itself and deferred references aside, all of which come before
it. -/
theorem linkClosed_of_plan (hs : s.Keyed) (hplan : plan s d = .ok p)
    (he : e ∈ p.objects.values ∨ e ∈ p.events.values) (hmodule : EntityModule.of p e = .ok m) :
    m.entity = e ∧ m.LinkClosed p := by
  have hp := Plan.linkable hs hplan
  have hm := EntityModule.madeOf hmodule
  obtain rfl := hm.entity
  refine ⟨rfl, ?_, ?_, fun n hn hother ↦ ?_, fun source b hb ↦ ?_, fun source b hb ↦ ?_,
    fun hkind source ↦ hm.mem_names_eager hp hkind, fun hkind object hobject hne hdeferred ↦ ?_⟩
  · obtain ⟨fields, hfields, hmodels, hentries⟩ := hm.fields
    have hzip : m.fields.zip m.entries = fields := by
      rw [hmodels, hentries, List.zip_map']
      exact List.map_id _
    rw [hzip]
    refine ((List.forall₂_and_left _ _).2 ⟨fun a ha ↦ ha, forall₂_of_mapM_ok hfields⟩).imp ?_
    exact fun a f ⟨ha, hf⟩ ↦ hm.writes ha hf
  · rw [hm.eager, hm.late]
    exact nodup_localNames (fun n e he ↦ (hp.keyed n e he).1) hp.distinct
  · obtain ⟨target, exported, hexported, rfl⟩ := hm.mem_localNames hn
    obtain ⟨hreserved, hown, hlabels⟩ := localNameIn_fresh (underscore_not_mem_exports hexported)
    rcases hm.otherNames hother with h | h | ⟨a, ha⟩
    · exact hown h
    · exact hreserved h
    · exact hlabels a ha
  · obtain ⟨object, target, -, htarget, hlink, hb⟩ := hm.lists_eager.1 hb
    obtain ⟨exported, hexported, rfl⟩ := List.mem_map.1 hb
    exact ⟨moduleOf target, (linkOf_eq_eager_iff.1 hlink).2, hp.exports htarget hexported⟩
  · obtain ⟨object, target, -, htarget, hlink, hb⟩ := hm.lists_late.1 hb
    obtain ⟨exported, hexported, rfl⟩ := List.mem_map.1 hb
    obtain ⟨hkind, -, -, hsource⟩ := linkOf_eq_late_iff.1 hlink
    rw [hsource]
    exact ⟨hkind, hp.exports htarget hexported⟩
  · rcases he with he | he
    · obtain ⟨n, hn⟩ := Table.mem_values_iff.1 he
      obtain ⟨rfl, -, -⟩ := hp.keyed n _ hn
      exact hp.before hn hobject hne hdeferred
    -- an event class is no object
    · rw [hp.events _ he] at hkind
      cases hkind

/-! ### Groups and users -/

/-- The documents of groups, which may name their owner, and of users with a list of their
groups. -/
def userDocuments : Catalog.Documents where
  version := "\x7b\"version\": \"1.7.0\"\x7d"
  categories := "\x7b\x7d"
  dictionary :=
    "\x7b\"attributes\":\x7b\"user\":\x7b\"type\":\"object_t\",\"object_type\":\"user\"\x7d," ++
      "\"group\":\x7b\"type\":\"object_t\",\"object_type\":\"group\",\"is_array\":true\x7d\x7d\x7d"
  objects := [
    ("group.json", "\x7b\"name\": \"group\", \"attributes\": \x7b\"user\": \x7b\x7d\x7d\x7d"),
    ("user.json", "\x7b\"name\": \"user\", \"attributes\": \x7b\"group\": \x7b\x7d\x7d\x7d")]

/-- A schema tree of groups and users. -/
def userTree : FileTree := userDocuments.tree

/-- What the dictionary says of users. -/
def userDetails : Entries Json := [("type", .str "object_t"), ("object_type", .str "user")]

/-- What the dictionary says of lists of groups. -/
def groupsDetails : Entries Json :=
  [("type", .str "object_t"), ("object_type", .str "group"), ("is_array", .bool true)]

/-- An object of the tree with one attribute, as it is read. -/
def referringItem (name object : String) : Catalog.Item where
  path := ⟨"", ["objects", name ++ ".json"]⟩
  name := name
  members := [("name", .str name), ("attributes", .obj [(object, .obj [])])]

/-- What the documents say. -/
def userContents : Catalog.Contents where
  version := .str "1.7.0"
  categories := []
  attributes := [("user", .obj userDetails), ("group", .obj groupsDetails)]
  types := []
  objects := [referringItem "group" "user", referringItem "user" "group"]
  events := []
  profiles := []

set_option maxRecDepth 1024 in
theorem says_userDocuments : Catalog.Says userDocuments userContents where
  version := ⟨_, .of_chars rfl rfl, rfl⟩
  categories := .of_chars rfl rfl
  dictionary := ⟨_, _, .of_chars (Catalog.append_eq_ofList rfl rfl) rfl, rfl, rfl, rfl⟩
  objects := ⟨by decide +kernel, by decide,
    .cons ⟨rfl, rfl, ⟨.of_chars rfl rfl, rfl, by decide⟩⟩
      (.cons ⟨rfl, rfl, ⟨.of_chars rfl rfl, rfl, by decide⟩⟩ .nil)⟩
  events := .nil _ _
  profiles := .nil _ _
  plain := by decide +kernel

theorem catalog_userContents : userContents.catalog = .ok groupsFirst := by
  have henums : Catalog.readSharedEnums userContents.attributes = .ok .empty :=
    Catalog.readSharedEnums_of_plain (by decide +kernel)
  have hdatetime : Catalog.readDatetime userContents.profiles userContents.types = .ok false := rfl
  have hobjects : userContents.objects.map Catalog.Item.plain =
    [⟨"group", (referringItem "group" "user").members, [("user", .obj [])]⟩,
      ⟨"user", (referringItem "user" "group").members, [("group", .obj [])]⟩] := rfl
  have hhidden : Catalog.isHiddenObject "group" = false ∧
      Catalog.isHiddenObject "user" = false := by decide +kernel
  have hnames : userContents.objects.map (·.name) = ["group", "user"] := rfl
  have hattribute (place : String) :
      Catalog.readAttribute ⟨userContents.attributes, [], ["group", "user"],
        false⟩ place "user" (.obj []) = .ok (reference "user" false) ∧
      Catalog.readAttribute ⟨userContents.attributes, [], ["group", "user"],
        false⟩ place "group" (.obj []) = .ok (reference "group" true) := by
    have huser : userContents.attributes.get? "user" = some (.obj userDetails) := rfl
    have hgroup : userContents.attributes.get? "group" = some (.obj groupsDetails) := rfl
    have hdescription : (Entries.get? userDetails "description").getD (.str "") = .str "" ∧
        (Entries.get? groupsDetails "description").getD (.str "") = .str "" := ⟨rfl, rfl⟩
    simp only [Catalog.readAttribute, huser, hgroup, Json.merge_empty, Catalog.ofShape_membersFor,
      bind, Except.bind, hdescription, Catalog.plainText_empty]
    exact ⟨rfl, rfl⟩
  have hdescription (name object : String) :
      ((referringItem name object).members.get? "description").getD (.str "") = .str "" := rfl
  rw [Catalog.Contents.catalog, hobjects, hnames, hdatetime, henums,
    show userContents.types = [] from rfl]
  simp only [Catalog.readDefinitions, Catalog.readDefinition, Catalog.readAttributes, hattribute,
    hhidden, hdescription, Catalog.plainText_empty, bind, Except.bind]
  rfl

theorem read_userTree : (Catalog.read userTree ⟨"", []⟩).outcome.1 = .ok groupsFirst :=
  (says_userDocuments.outcome_read rfl).trans catalog_userContents

/-- The schema was read, so its entities stand under their own names. -/
theorem keyed_groupSchema : groupSchema.Keyed :=
  Schema.keyed_of_read read_userTree resolve_groupsFirst

/-- Users bind the names of groups late, under the module of groups. -/
theorem linkClosed_of_user : (Catalog.read userTree ⟨"", []⟩).outcome.1 = .ok groupsFirst ∧
    groupsFirst.resolve.outcome.1 = .ok groupSchema ∧ groupSchema.Keyed ∧
    ∃ p m, plan groupSchema userGroupsLate = .ok p ∧
    entityOf (refers "user" "group" true) ∈ p.objects.values ∧
    EntityModule.of p (entityOf (refers "user" "group" true)) = .ok m ∧ m.LinkClosed p ∧
    m.eager.entries = [] ∧
    m.late.entries = [("group", [⟨"Group", "Group"⟩, ⟨"GroupDict", "GroupDict"⟩])] := by
  obtain ⟨p, hplan⟩ := exists_plan_groupSchema
  have hp := plan_eq_ok_iff.1 hplan
  have hplanned : p.objects = groupSchema.objects :=
    (Except.ok.inj (plannedObjects_groupSchema.symm.trans hp.objects)).symm
  have hmem : entityOf (refers "user" "group" true) ∈ p.objects.values := by
    rw [hplanned]
    exact List.mem_cons_of_mem _ List.mem_cons_self
  have hdeferral := hp.deferral
  obtain ⟨m, hm⟩ : ∃ m, EntityModule.of p (entityOf (refers "user" "group" true)) = .ok m := by
    rw [EntityModule.of, hplanned, hdeferral]
    exact ⟨_, rfl⟩
  have heager : m.eager.entries = [] := by
    rw [(EntityModule.madeOf hm).eager, hplanned, hdeferral]
    decide +kernel
  have hlate : m.late.entries = [("group", [⟨"Group", "Group"⟩, ⟨"GroupDict", "GroupDict"⟩])] := by
    rw [(EntityModule.madeOf hm).late, hplanned, hdeferral]
    decide +kernel
  obtain ⟨-, hclosed⟩ := linkClosed_of_plan keyed_groupSchema hplan (.inl hmem) hm
  exact ⟨read_userTree, resolve_groupsFirst, keyed_groupSchema, p, m, hplan, hmem, hm, hclosed,
    heager, hlate⟩

end EventSchema.Package

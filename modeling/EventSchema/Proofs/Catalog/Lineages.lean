import EventSchema.Proofs.Catalog.Documents
import EventSchema.Proofs.Catalog.Inheritance
import Mathlib.Data.List.Induction

/-!
# Attributes along a lineage

Under each name an entity has what refining the definitions of its lineage comes to, root first
(`get?_lineageAttributes`). A detail that only a definition which gives it can change is that of the
nearest such definition, or of the first definition if none gives it (`Attribute.foldl_refine`).

Reading makes an attribute of a profile optional, one definition at a time. The requirement and the
profile of an entity's attribute each have their own nearest definition, though, so a definition
without a profile can make an attribute required that has its profile from another
(`Schema.profiled_of_read`).
-/

namespace EventSchema

variable {definitions : Table Definition} {categories : Table Uid} {t : Table Attribute}
  {chain : List Definition} {d : Definition} {n key : String}
  {a b first : Attribute} {rest : List Attribute}

namespace Attribute

/-! ### Refining along a list -/

/-- What refining attributes comes to, root first. -/
def joined : List Attribute → Option Attribute
  | [] => none
  | a :: rest => some (rest.foldl refine a)

/-- What some attributes come to may stand for them before others. -/
theorem joined_joined_append (as bs : List Attribute) :
    joined ((joined as).toList ++ bs) = joined (as ++ bs) := by
  cases as with
  | nil => rfl
  | cons a as => simp [joined, List.foldl_append]

/-- Of some attributes, root first, the nearest that satisfies a test, the first if none does. -/
def nearest (p : Attribute → Bool) (first : Attribute) (rest : List Attribute) : Attribute :=
  (rest.reverse.find? p).getD first

/-- The last attribute is the nearest one if it satisfies the test. -/
theorem nearest_concat (p : Attribute → Bool) (first : Attribute)
    (rest : List Attribute) (b : Attribute) :
    nearest p first (rest ++ [b]) = if p b then b else nearest p first rest := by
  rw [nearest, List.reverse_append, List.reverse_singleton, List.singleton_append, List.find?_cons]
  cases p b <;> rfl

/-- The nearest attribute is one of them. -/
theorem nearest_mem (p : Attribute → Bool) (first : Attribute) (rest : List Attribute) :
    nearest p first rest ∈ first :: rest := by
  rw [nearest]
  cases hfind : rest.reverse.find? p with
  | none => exact List.mem_cons_self
  | some b => exact List.mem_cons_of_mem _ (List.mem_reverse.1 (List.mem_of_find?_eq_some hfind))

/-- A detail that a descendant changes only if it satisfies a test is that of the nearest which
does. -/
theorem foldl_refine {α : Type} {detail : Attribute → α} {p : Attribute → Bool}
    (hdetail : ∀ a b, detail (a.refine b) = if p b then detail b else detail a) (first : Attribute)
    (rest : List Attribute) : detail (rest.foldl refine first) = detail (nearest p first rest) := by
  induction rest using List.reverseRecOn with
  | nil => rfl
  | append_singleton rest b ih =>
    rw [List.foldl_append, List.foldl_cons, List.foldl_nil, hdetail, nearest_concat, ih]
    exact (apply_ite detail _ _ _).symm

/-! ### Requirement and profile -/

/-- Whether the owner of an attribute gave a requirement itself. -/
def givesRequirement (a : Attribute) : Bool := a.overrides.has "requirement"

/-- Whether an attribute belongs to a profile. -/
def hasProfile (a : Attribute) : Bool := a.profile.isGiven

/-- An attribute of a profile is optional. -/
def Demoted (a : Attribute) : Prop := a.hasProfile = true → a.requirement = .str optionalWord

/-- An optional attribute of a profile is not required. -/
theorem Demoted.isRequired_eq (ha : a.Demoted) (hprofile : a.hasProfile = true) :
    a.isRequired = false := by
  rw [isRequired, ha hprofile]
  decide

/-- A refined attribute has the requirement of the nearest owner that gave one. -/
theorem requirement_foldl_refine (first : Attribute) (rest : List Attribute) :
    (rest.foldl refine first).requirement = (nearest givesRequirement first rest).requirement :=
  foldl_refine (fun _ _ ↦ rfl) first rest

/-- A refined attribute has the profile of the nearest attribute that has one. -/
theorem profile_foldl_refine (first : Attribute) (rest : List Attribute) :
    (rest.foldl refine first).profile = (nearest hasProfile first rest).profile :=
  foldl_refine (fun _ _ ↦ rfl) first rest

/-- A refined attribute has a profile if one of the two has. -/
theorem hasProfile_refine (a b : Attribute) :
    (a.refine b).hasProfile = (a.hasProfile || b.hasProfile) := by
  simp only [hasProfile, refine, Json.orElse]
  cases hb : b.profile.isGiven <;> simp [hb]

/-- A refined attribute has a profile if one of those it comes from has. -/
theorem hasProfile_foldl_refine (first : Attribute) (rest : List Attribute) :
    (rest.foldl refine first).hasProfile = (first :: rest).any hasProfile := by
  induction rest generalizing first with
  | nil => simp
  | cons b rest ih =>
    rw [List.foldl_cons, ih, List.any_cons, hasProfile_refine, List.any_cons, List.any_cons,
      Bool.or_assoc]

/-- How the definitions of an attribute, root first, settle whether it is required and which profile
it belongs to: each is settled by a definition of its own, and one that settles that the attribute
is required has no profile. -/
structure SettledBy (first : Attribute) (rest : List Attribute) (a : Attribute) : Prop where
  requirement : a.requirement = (nearest givesRequirement first rest).requirement
  profile : a.profile = (nearest hasProfile first rest).profile
  apart : (nearest givesRequirement first rest).isRequired = true →
    (nearest givesRequirement first rest).hasProfile = false
  required_iff : a.isRequired = true ∧ a.hasProfile = true ↔
    (nearest givesRequirement first rest).isRequired = true ∧ ∃ b ∈ first :: rest,
    b.hasProfile = true

/-- A refined attribute is settled by those it comes from. -/
theorem settledBy_foldl_refine (hall : ∀ b ∈ first :: rest, b.Demoted) :
    SettledBy first rest (rest.foldl refine first) where
  requirement := requirement_foldl_refine first rest
  profile := profile_foldl_refine first rest
  apart := fun hrequired ↦ Bool.eq_false_iff.2 fun hprofile ↦ by
    have hdemoted := (hall _ (nearest_mem givesRequirement first rest)).isRequired_eq hprofile
    exact Bool.false_ne_true (hdemoted.symm.trans hrequired)
  required_iff := by
    rw [hasProfile_foldl_refine, List.any_eq_true, isRequired, requirement_foldl_refine,
      ← isRequired]

/-- An attribute of which every definition has a profile is optional. -/
theorem SettledBy.isRequired_eq (h : SettledBy first rest a)
    (hall : ∀ b ∈ first :: rest, b.hasProfile = true) :
    a.isRequired = false := by
  refine Bool.eq_false_iff.2 fun hrequired ↦ ?_
  have hnearest : (nearest givesRequirement first rest).isRequired = true := by
    rwa [isRequired, ← h.requirement]
  exact Bool.false_ne_true ((h.apart hnearest).symm.trans (hall _ (nearest_mem _ _ _)))

end Attribute

open Attribute

/-! ### Look-up along a lineage -/

/-- The attributes that the members of a chain define under a name. -/
def definers (chain : List Definition) (key : String) : List Attribute :=
  chain.filterMap fun d ↦ d.attributes.get? key

/-- Refining an attribute under a name joins it to what stands there. -/
theorem get?_refineAttribute (t : Table Attribute) (n : String) (a : Attribute) (key : String) :
    (refineAttribute t n a).get? key = joined ((t.get? key).toList ++ if n = key then [a]
      else []) := by
  have hkeep (standing : Option Attribute) : joined (standing.toList ++ []) = standing := by
    cases standing <;> rfl
  rw [refineAttribute]
  by_cases hn : n = key
  · subst hn
    rw [if_pos rfl]
    cases hstanding : t.get? n <;> exact (Table.get?_put _ _ _ _).trans (if_pos rfl)
  · rw [if_neg hn, hkeep]
    split <;> exact (Table.get?_put _ _ _ _).trans (if_neg hn)

/-- Refining by a definition joins its attributes to those of their names. -/
theorem get?_refineAttributes (t : Table Attribute) (d : Definition) (key : String) :
    (refineAttributes t d).get? key =
      joined ((t.get? key).toList ++ (d.attributes.get? key).toList) := by
  have hfold (es : Entries Attribute) (hes : es.names.Nodup) (t : Table Attribute) :
      (es.foldl (fun t e ↦ refineAttribute t e.1 e.2) t).get? key =
        joined ((t.get? key).toList ++ (es.get? key).toList) := by
    induction es generalizing t with
    | nil => cases h : t.get? key <;> simp [joined, h]
    | cons e es ih =>
      obtain ⟨hfresh, hes⟩ := List.nodup_cons.1 hes
      rw [List.foldl_cons, ih hes, get?_refineAttribute, joined_joined_append, List.append_assoc]
      congr 2
      rw [Entries.get?_cons]
      split
      -- the names of a table differ, so no later entry has this one
      · next hn => rw [Entries.get?_eq_none_iff.2 (hn ▸ hfresh)]; rfl
      · rfl
  exact hfold d.attributes.entries d.attributes.nodup t

/-- Under a name an entity has what refining the definitions of its lineage comes to. -/
theorem get?_lineageAttributes (chain : List Definition) (key : String) :
    (lineageAttributes chain).get? key = joined (definers chain key) := by
  have hfold (chain : List Definition) (t : Table Attribute) :
      (chain.foldl refineAttributes t).get? key =
        joined ((t.get? key).toList ++ definers chain key) := by
    induction chain generalizing t with
    | nil => cases h : t.get? key <;> simp [joined, definers, h]
    | cons d chain ih =>
      rw [List.foldl_cons, ih, get?_refineAttributes, joined_joined_append, List.append_assoc]
      cases h : d.attributes.get? key <;> simp [definers, h]
  exact hfold chain .empty

/-- An attribute of a lineage is what its definers come to. -/
theorem exists_definers_of_get? (h : (lineageAttributes chain).get? key = some a) :
    ∃ first rest, definers chain key = first :: rest ∧ a = rest.foldl refine first := by
  rw [get?_lineageAttributes] at h
  cases hdefiners : definers chain key with
  | nil => rw [hdefiners] at h; cases h
  | cons first rest =>
    rw [hdefiners] at h
    exact ⟨first, rest, rfl, (Option.some.inj h).symm⟩

/-- What all attributes of a chain are, the definers of a name are. -/
theorem definers_all {P : Attribute → Prop} (h : ∀ d ∈ chain, d.attributes.All P) :
    ∀ b ∈ definers chain key, P b := by
  intro b hb
  obtain ⟨d, hd, hget⟩ := List.mem_filterMap.1 hb
  exact h d hd key b hget

/-! ### Catalogs that were read -/

/-- An attribute of a profile is read as an optional one. -/
theorem Catalog.readAttribute_demoted {dict : Dictionary} {place name : String} {value : Json}
    (h : readAttribute dict place name value = .ok a) : a.Demoted :=
  (readAttribute_ok h).requirement

theorem Catalog.companion_demoted (a : Attribute) : (companion a).Demoted := fun _ ↦ rfl

/-- Reading makes every attribute of a profile optional. -/
theorem Catalog.read_demoted {tree : FileTree} {path : Path} {j : Journal} {c : Catalog}
    (h : (execute (Catalog.read tree path) j).1 = .ok c) :
    c.objects.All (fun d ↦ d.attributes.All Demoted) ∧
    c.events.All fun d ↦ d.attributes.All Demoted := by
  obtain ⟨dict, objects, events, -, -, hobjects, hevents⟩ := definitions_of_read h
  have hdefinition : ∀ kind item d, readDefinition dict kind item = .ok d →
      d.attributes.All Demoted :=
    fun kind item d ↦ readDefinition_all (fun _ _ _ _ ↦ readAttribute_demoted) companion_demoted
  exact ⟨readDefinitions_all (fun _ _ ↦ hdefinition _ _) Table.all_empty hobjects,
    readDefinitions_all (fun _ _ ↦ hdefinition _ _) Table.all_empty hevents⟩

/-- The requirement and the profile of every attribute of every entity are those of definitions of
its lineage. -/
def ProfiledBy (definitions : Table Definition) (entities : Table Entity) : Prop :=
  ∀ n e key a, entities.get? n = some e → e.attributes.get? key = some a →
    ∃ chain first rest, lineage definitions n = .ok chain ∧ definers chain key = first :: rest ∧
      SettledBy first rest a

/-- The attributes of entities are settled by the definitions of their lineages. -/
theorem HoldsEntities.profiledBy {names : List String} {entities : Table Entity}
    (h : HoldsEntities definitions categories names entities)
    (hall : definitions.All fun d ↦ d.attributes.All Demoted) :
    ProfiledBy definitions entities := by
  intro n e key a he ha
  obtain ⟨chain, hchain, hattributes⟩ := attributes_of_ofName ((h.get?_iff n e).1 he).2
  rw [hattributes] at ha
  obtain ⟨first, rest, hdefiners, rfl⟩ := exists_definers_of_get? ha
  refine ⟨chain, first, rest, hchain, hdefiners, settledBy_foldl_refine fun b hb ↦ ?_⟩
  refine definers_all (fun d hd ↦ ?_) b (hdefiners ▸ hb)
  obtain ⟨m, hm⟩ := mem_of_lineage hchain hd
  exact hall m d hm

/-- **When an attribute of a profile is required.** In a schema that was read and resolved an
attribute has the requirement of the nearest definition of its lineage that gives one and the
profile of the nearest that has one. It is required and of a profile if and only if the former
requires it, and then has no profile itself. -/
theorem Schema.profiled_of_read (tree : FileTree) (path : Path) (c : Catalog) (s : Schema)
    (hread : (Catalog.read tree path).outcome.1 = .ok c) (hresolve : c.resolve.outcome.1 = .ok s) :
    ProfiledBy c.objects s.objects ∧ ProfiledBy c.events s.events := by
  obtain ⟨hobjects, hevents⟩ := Catalog.read_demoted hread
  obtain ⟨hobjectEntities, heventEntities⟩ := entities_of_resolve hresolve
  exact ⟨hobjectEntities.profiledBy hobjects, heventEntities.profiledBy hevents⟩

/-! ### A name of a profile -/

/-- The documents of actors, who must have a name, and of administrators, actors whose name is of a
profile. -/
def actorDocuments : Catalog.Documents where
  version := "\x7b\"version\": \"1.0.0\"\x7d"
  categories := "\x7b\x7d"
  dictionary := "\x7b\"attributes\": \x7b\"name\": \x7b\"type\": \"string_t\"\x7d\x7d\x7d"
  objects := [
    ("actor.json", "\x7b\"name\": \"actor\", " ++
      "\"attributes\": \x7b\"name\": \x7b\"requirement\": \"required\"\x7d\x7d\x7d"),
    ("admin.json", "\x7b\"name\": \"admin\", \"extends\": \"actor\", " ++
      "\"attributes\": \x7b\"name\": \x7b\"profile\": \"cloud\"\x7d\x7d\x7d")]

/-- A schema tree of actors and administrators. -/
def actorTree : FileTree := actorDocuments.tree

/-- The attributes of its dictionary. -/
def actorDictionary : Entries Json := [("name", .obj [("type", .str "string_t")])]

/-- The attributes of its actors. -/
def actorAttributes : Entries Json := [("name", .obj [("requirement", .str "required")])]

/-- The attributes of its administrators. -/
def adminAttributes : Entries Json := [("name", .obj [("profile", .str "cloud")])]

/-- Its actors. -/
def actorItem : Catalog.Item where
  path := ⟨"", ["objects", "actor.json"]⟩
  name := "actor"
  members := [("name", .str "actor"), ("attributes", .obj actorAttributes)]

/-- Its administrators. -/
def adminItem : Catalog.Item where
  path := ⟨"", ["objects", "admin.json"]⟩
  name := "admin"
  members :=
    [("name", .str "admin"), ("extends", .str "actor"), ("attributes", .obj adminAttributes)]

/-- What the documents say. -/
def actorContents : Catalog.Contents :=
  ⟨.str "1.0.0", [], actorDictionary, [], [actorItem, adminItem], [], []⟩

theorem says_actorDocuments : Catalog.Says actorDocuments actorContents where
  version := ⟨_, .of_chars rfl rfl, rfl⟩
  categories := .of_chars rfl rfl
  dictionary := ⟨_, _, .of_chars rfl rfl, rfl, rfl, rfl⟩
  objects := ⟨by decide +kernel, by decide,
    .cons ⟨rfl, rfl, ⟨.of_chars (Catalog.append_eq_ofList rfl rfl) rfl, rfl, by decide⟩⟩
      (.cons ⟨rfl, rfl, ⟨.of_chars (Catalog.append_eq_ofList rfl rfl) rfl, rfl, by decide⟩⟩ .nil)⟩
  events := .nil _ _
  profiles := .nil _ _
  plain := by decide +kernel

/-- The name of an administrator is required and of a profile. -/
theorem catalog_actorContents : ∃ c s, actorContents.catalog = .ok c ∧ c.resolve.outcome.1 = .ok s ∧
    ∃ e a, s.objects.get? "admin" = some e ∧ e.attributes.get? "name" = some a ∧
      a.profile = .str "cloud" ∧ a.requirement = .str requiredWord := by
  have hget : actorDictionary.get? "name" = some (.obj [("type", .str "string_t")]) := rfl
  have hactor :
      Json.merge (.obj [("type", .str "string_t")]) (.obj [("requirement", .str "required")]) =
      .obj [("type", .str "string_t"), ("requirement", .str "required")] := by
    simp [Json.merge, Json.mergeMembers, Entries.get?, Entries.put]
  have hadmin : Json.merge (.obj [("type", .str "string_t")]) (.obj [("profile", .str "cloud")]) =
      .obj [("type", .str "string_t"), ("profile", .str "cloud")] := by
    simp [Json.merge, Json.mergeMembers, Entries.get?, Entries.put]
  have htype (dict : Catalog.Dictionary) (place : String) (rest : Entries Json) :
      Catalog.readType dict place "name" (("type", .str "string_t") :: rest) =
        .ok ("string_t", .null) :=
    Catalog.readType_of_scalar rfl (by decide) (by decide +kernel)
  have henums : Catalog.readSharedEnums actorDictionary = .ok .empty :=
    Catalog.readSharedEnums_of_plain (by decide +kernel)
  have hitems : actorContents.objects.map Catalog.Item.plain =
    [⟨"actor", actorItem.members, actorAttributes⟩,
      ⟨"admin", adminItem.members, adminAttributes⟩] := rfl
  rw [Catalog.Contents.catalog, hitems]
  simp only [actorContents, henums, Catalog.readDefinitions, Catalog.readDefinition,
    Catalog.readAttributes, actorAttributes, adminAttributes, Catalog.readAttribute, hget, hactor,
    hadmin, Catalog.ofShape_membersFor, bind, Except.bind, htype]
  exact ⟨_, _, rfl, rfl, _, _, rfl, rfl, rfl, rfl⟩

/-- The tree of actors is read, and administrators require a name of the cloud profile. -/
theorem read_actorTree : ∃ c s, (Catalog.read actorTree ⟨"", []⟩).outcome.1 = .ok c ∧
    c.resolve.outcome.1 = .ok s ∧ ∃ e a, s.objects.get? "admin" = some e ∧
      e.attributes.get? "name" = some a ∧ a.profile = .str "cloud" ∧
      a.requirement = .str requiredWord := by
  obtain ⟨c, s, hcatalog, hresolve, hadmin⟩ := catalog_actorContents
  exact ⟨c, s, (says_actorDocuments.outcome_read rfl).trans hcatalog, hresolve, hadmin⟩

/-- The name of an administrator is required, so the definition that settles this requires it and
has no profile. -/
theorem Schema.profiled_of_read_actorTree :
    ∃ c s, (Catalog.read actorTree ⟨"", []⟩).outcome.1 = .ok c ∧
    c.resolve.outcome.1 = .ok s ∧ ∃ chain first rest, lineage c.objects "admin" = .ok chain ∧
      definers chain "name" = first :: rest ∧
      (nearest givesRequirement first rest).isRequired = true ∧
      (nearest givesRequirement first rest).hasProfile = false := by
  obtain ⟨c, s, hread, hresolve, e, a, he, ha, hprofile, hrequirement⟩ := read_actorTree
  obtain ⟨chain, first, rest, hchain, hdefiners, hsettled⟩ :=
    (Schema.profiled_of_read actorTree ⟨"", []⟩ c s hread hresolve).1 "admin" e "name" a he ha
  have hboth : a.isRequired = true ∧ a.hasProfile = true := by
    rw [isRequired, hasProfile, hrequirement, hprofile]
    decide
  have hrequired := (hsettled.required_iff.1 hboth).1
  exact ⟨c, s, hread, hresolve, chain, first, rest, hchain, hdefiners, hrequired,
    hsettled.apart hrequired⟩

/-- An attribute of a profile can be required. -/
theorem Schema.required_of_actorTree : ∃ c s, (Catalog.read actorTree ⟨"", []⟩).outcome.1 = .ok c ∧
    c.resolve.outcome.1 = .ok s ∧ ∃ e ∈ s.objects.values, ∃ a ∈ e.attributes.values,
      a.profile ≠ .null ∧ a.isRequired = true := by
  obtain ⟨c, s, hread, hresolve, e, a, he, ha, hprofile, hrequirement⟩ := read_actorTree
  refine ⟨c, s, hread, hresolve, e, Table.mem_values_iff.2 ⟨_, he⟩, a,
    Table.mem_values_iff.2 ⟨_, ha⟩, ?_, ?_⟩
  · rw [hprofile]
    nofun
  · rw [isRequired, hrequirement]
    decide

end EventSchema

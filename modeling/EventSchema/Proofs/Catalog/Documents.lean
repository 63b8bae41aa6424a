import EventSchema.Proofs.Catalog.Details
import EventSchema.Proofs.Catalog.Items
import EventSchema.Proofs.Catalog.Steps

/-!
# Schema trees from their documents

A schema tree lies in a few documents: its version, its categories, its dictionary, and one for each
item. `Documents` has their texts and lays them out as a tree, and `Contents` has what they say.
Where no item includes a file, reading the tree comes to the catalog of the contents
(`Says.outcome_read`): the items of a folder are read in the order of the names of their files, and
resolving includes leaves them as they are (`resolveIncludes_of_plain`).
-/

namespace EventSchema.Catalog

/-! ### Items without includes -/

section Plain

variable {tree : FileTree} {schema : Path} {events objects : List Item} {item : Item} {v : Json}

/-- Whether a value includes no file among its members. -/
def includesNothing : Json → Bool
  | .obj members => !Entries.has members includeKey
  | _ => true

/-- What an item says of its attributes, if that is an object. -/
def Item.attributes (item : Item) : Entries Json :=
  match (item.members.get? "attributes").getD (.obj []) with
  | .obj attributes => attributes
  | _ => []

/-- An item that includes no files, neither among its attributes nor among the details of one. -/
structure Item.IsPlain (item : Item) : Prop where
  object : ((item.members.get? "attributes").getD (.obj [])).isObject = true
  attributes : item.attributes.has includeKey = false
  details : ∀ a ∈ item.attributes, includesNothing a.2 = true

instance (item : Item) : Decidable item.IsPlain :=
  decidable_of_iff (((item.members.get? "attributes").getD (.obj [])).isObject = true ∧
      item.attributes.has includeKey = false ∧ ∀ a ∈ item.attributes, includesNothing a.2 = true)
    ⟨fun h ↦ ⟨h.1, h.2.1, h.2.2⟩, fun h ↦ ⟨h.1, h.2, h.3⟩⟩

/-- The item with its own attributes alone. -/
def Item.plain (item : Item) : ResolvedItem := ⟨item.name, item.members, item.attributes⟩

/-- A step that comes to a value and reports nothing, whatever was included before it. -/
def ComesTo {α : Type} (x : InclusionM α) (a : α) : Prop :=
  ∀ s j, ∃ s', execute (x.run s) j = (.ok (a, s'), j)

namespace ComesTo

variable {α β : Type} {x : InclusionM α} {f : α → InclusionM β} {a : α} {b : β}

theorem pure (a : α) : ComesTo (Pure.pure a) a := fun s _ ↦ ⟨s, rfl⟩

/-- One step after another comes to what the second does with what the first comes to. -/
theorem bind (hx : ComesTo x a) (hf : ComesTo (f a) b) : ComesTo (x >>= f) b := fun s j ↦ by
  obtain ⟨t, ht⟩ := hx s j
  obtain ⟨s', hs'⟩ := hf t j
  exact ⟨s', (execute_bind_ok ht).trans hs'⟩

/-- Steps in a row come to what each of them comes to. -/
theorem mapM {g : α → β} {as : List α} (hf : ∀ a ∈ as, ComesTo (f a) (g a)) :
    ComesTo (as.mapM f) (as.map g) := by
  induction as with
  | nil => exact .pure []
  | cons a as ih =>
    rw [List.mapM_cons]
    exact (hf a List.mem_cons_self).bind
      ((ih fun a' ha' ↦ hf a' (List.mem_cons_of_mem a ha')).bind (.pure _))

theorem forM {f : α → InclusionM PUnit} {as : List α} (hf : ∀ a ∈ as, ComesTo (f a) ⟨⟩) :
    ComesTo (as.forM f) ⟨⟩ := by
  induction as with
  | nil => exact .pure PUnit.unit
  | cons a as ih =>
    exact (hf a List.mem_cons_self).bind (ih fun a' ha' ↦ hf a' (List.mem_cons_of_mem a ha'))

end ComesTo

/-- Remembering a file always succeeds. -/
theorem comesTo_remember (path : Path) (members : Entries Json) :
    ComesTo (discard (remember path members)) ⟨⟩ := by
  intro s j
  unfold remember
  cases (members.get? "annotations").getD (.obj []) <;> exact ⟨_, rfl⟩

/-- Details that include nothing stay as they are. -/
theorem comesTo_includeDetails (h : includesNothing v = true) (place name : String) :
    ComesTo (includeDetails tree schema place name (Detail.ofJson v)) (Detail.ofJson v) := by
  cases v with
  | obj members =>
    have hnone : Entries.get? (Detail.ofMembers members) includeKey = none := by
      rw [Detail.get?_ofMembers, Option.map_eq_none_iff]
      simpa [includesNothing, Entries.has] using h
    rw [Detail.ofJson, includeDetails]
    simp only [hnone]
    exact .pure _
  | _ => exact fun s j ↦ ⟨s, by simp [Detail.ofJson, includeDetails]; rfl⟩

/-- The attributes of an item without includes stay as they are. -/
theorem comesTo_resolveItem (h : item.IsPlain) (place : String) :
    ComesTo (resolveItem tree schema place item) (Detail.ofMembers item.attributes) := by
  obtain ⟨attributes, hattributes⟩ := Json.exists_of_isObject h.object
  have hown : item.attributes = attributes := by rw [Item.attributes, hattributes]
  have hnone : Entries.get? attributes includeKey = none := by
    simpa [Entries.has, hown] using h.attributes
  have hdetails : ComesTo ((Detail.ofMembers attributes).mapM fun (e : String × Detail) ↦ do
      Pure.pure (e.1, ← includeDetails tree schema place e.1 e.2))
      ((Detail.ofMembers attributes).map id) := by
    refine .mapM fun a ha ↦ ?_
    rw [Detail.ofMembers_eq, Entries.mapValues] at ha
    obtain ⟨a, hmem, rfl⟩ := List.mem_map.1 ha
    exact (comesTo_includeDetails (h.details a (hown ▸ hmem)) place a.1).bind (.pure _)
  rw [List.map_id] at hdetails
  rw [resolveItem, hattributes, hown]
  simp only [hnone]
  exact (ComesTo.pure _).bind hdetails

/-- Items without includes are resolved to themselves. -/
theorem resolveIncludes_of_plain (hevents : ∀ item ∈ events, item.IsPlain)
    (hobjects : ∀ item ∈ objects, item.IsPlain) (profiles : List Item) (j : Journal) :
    execute (resolveIncludes tree schema profiles events objects) j =
      (.ok (events.map Item.plain, objects.map Item.plain), j) := by
  have hitems (word : String) {items : List Item} (hplain : ∀ item ∈ items, item.IsPlain) :
      ComesTo (items.mapM fun item ↦ do
        Pure.pure (item, ← resolveItem tree schema s!"{word} \"{item.name}\"" item))
        (items.map fun item ↦ (item, Detail.ofMembers item.attributes)) :=
    .mapM fun item hitem ↦ (comesTo_resolveItem (hplain item hitem) _).bind (.pure _)
  have hall : ComesTo (do
      profiles.forM fun item ↦ discard (remember item.path item.members)
      let resolve (word : String) (items : List Item) : InclusionM (List (Item × Entries Detail)) :=
        items.mapM fun item ↦ do
          Pure.pure (item, ← resolveItem tree schema s!"{word} \"{item.name}\"" item)
      Pure.pure (← resolve "class" events, ← resolve "object" objects))
      (events.map fun item ↦ (item, Detail.ofMembers item.attributes),
        objects.map fun item ↦ (item, Detail.ofMembers item.attributes)) :=
    (ComesTo.forM fun item _ ↦ comesTo_remember item.path item.members).bind
      ((hitems "class" hevents).bind ((hitems "object" hobjects).bind (.pure _)))
  obtain ⟨s, hs⟩ := hall ⟨[], []⟩ j
  have hfinish (items : List Item) :
      (items.map fun item ↦ (item, Detail.ofMembers item.attributes)).map
      (fun found : Item × Entries Detail ↦ (⟨found.1.name, found.1.members,
        Entries.mapValues (Detail.freeze s.pool) found.2⟩ :
        ResolvedItem)) = items.map Item.plain := by
    rw [List.map_map]
    refine List.map_congr_left fun item _ ↦ ?_
    simp only [Function.comp_apply, Detail.freeze_ofMembers, Item.plain]
  refine (execute_bind_ok hs).trans ?_
  simp only [hfinish]
  rfl

end Plain

/-! ### Documents -/

/-- The texts of a schema tree, those of items with the names of their files. -/
structure Documents where
  /-- The text of the version. -/
  version : String
  /-- The text of the categories. -/
  categories : String
  /-- The text of the dictionary. -/
  dictionary : String
  /-- The files of objects. -/
  objects : List (String × String) := []
  /-- The files of event classes. -/
  events : List (String × String) := []
  /-- The files of profiles. -/
  profiles : List (String × String) := []

/-- The schema tree with some documents. -/
def Documents.tree (d : Documents) : FileTree :=
  let folder (files : List (String × String)) : FileTree :=
    .dir (files.map fun f ↦ (f.1, .file f.2))
  .dir [
    ("version.json", .file d.version), ("categories.json", .file d.categories),
    ("dictionary.json", .file d.dictionary), ("objects", folder d.objects),
    ("events", folder d.events), ("profiles", folder d.profiles)]

/-- What the documents of a schema tree say. -/
structure Contents where
  /-- The version. -/
  version : Json
  /-- The members of the categories. -/
  categories : Entries Json
  /-- The attributes of the dictionary. -/
  attributes : Entries Json
  /-- The types of the dictionary. -/
  types : Entries Json
  /-- The objects. -/
  objects : List Item
  /-- The event classes. -/
  events : List Item
  /-- The profiles. -/
  profiles : List Item

/-- The catalog of contents without includes. -/
def Contents.catalog (c : Contents) : Except CatalogError Catalog := do
  let hasDatetime ← readDatetime c.profiles c.types
  let dict : Dictionary := ⟨c.attributes, c.types, c.objects.map (·.name), hasDatetime⟩
  let objects ← readDefinitions dict .object .empty (c.objects.map Item.plain)
  let events ← readDefinitions dict .event .empty (c.events.map Item.plain)
  let categories ← readCategories c.categories
  let enums ← readSharedEnums c.attributes
  .ok ⟨c.version, categories, objects, events, enums⟩

/-- The path of a file in a folder. -/
def filePath (folder : String) (f : String × String) : Path := ⟨"", [folder, f.1]⟩

/-- A file of a folder states an item. -/
structure FileStates (tree : FileTree) (folder : String) (f : String × String)
    (item : Item) : Prop where
  path : item.path = filePath folder f
  text : tree.textAt (filePath folder f) = .ok f.2
  states : States f.2 item.members item.name

/-- Files that are all items, in the order in which they are visited. -/
def VisitedInOrder (folder : String) (files : List (String × String)) : Prop :=
  (∀ f ∈ files, f.1.endsWith ".json" = true) ∧
  (files.map (filePath folder)).Pairwise fun p q ↦ p.le q = true

instance (folder : String) (files : List (String × String)) :
    Decidable (VisitedInOrder folder files) :=
  inferInstanceAs (Decidable (_ ∧ _))

/-- The files of a folder state items, each of its own name. -/
structure FolderStates (tree : FileTree) (folder : String) (files : List (String × String))
    (items : List Item) :
    Prop where
  visited : VisitedInOrder folder files
  nodup : (items.map (·.name)).Nodup
  stated : List.Forall₂ (FileStates tree folder) files items

theorem FolderStates.nil (tree : FileTree) (folder : String) : FolderStates tree folder [] [] :=
  ⟨⟨List.forall_mem_nil _, .nil⟩, .nil, .nil⟩

/-- Documents say what contents have, and nothing is included. -/
structure Says (d : Documents) (c : Contents) : Prop where
  version : ∃ members, IsDocument d.version members ∧ members.get? "version" = some c.version
  categories : IsDocument d.categories c.categories
  dictionary : ∃ members parts, IsDocument d.dictionary members ∧
    partOf members "attributes" "dictionary attributes" = .ok c.attributes ∧
    partOf members "types" "dictionary types" = .ok parts ∧
    partOf parts "attributes" "dictionary types attributes" = .ok c.types
  objects : FolderStates d.tree "objects" d.objects c.objects
  events : FolderStates d.tree "events" d.events c.events
  profiles : FolderStates d.tree "profiles" d.profiles c.profiles
  plain : ∀ item ∈ c.events ++ c.objects, item.IsPlain

/-- Files that state items with names of their own are read as these items. -/
theorem readItemsFrom_of_states {tree : FileTree} {folder : String} {files : List (String × String)}
    {items read : List Item} (h : List.Forall₂ (FileStates tree folder) files items)
    (hnodup : ((read ++ items).map (·.name)).Nodup) :
    readItemsFrom tree folder read (files.map (filePath folder)) = .ok (read ++ items) := by
  induction h generalizing read with
  | nil => rw [List.map_nil, readItemsFrom, List.append_nil]
  | @cons f item files items hf _ ih =>
    have hitem : readItem tree folder (filePath folder f) = .ok item :=
      readItem_eq_ok_iff.2 ⟨hf.path, f.2, hf.text, hf.states⟩
    have hnew : (read.find? fun other ↦ other.name = item.name) = none := by
      refine List.find?_eq_none.2 fun other hother ↦ ?_
      rw [List.map_append, List.nodup_append] at hnodup
      simpa using hnodup.2.2 _ (List.mem_map_of_mem hother) _ List.mem_cons_self
    rw [List.map_cons, readItemsFrom, hitem]
    simp only [bind, Except.bind, hnew]
    rw [ih (by rwa [List.append_assoc, List.singleton_append]), List.append_assoc,
      List.singleton_append]

namespace Says

variable {d : Documents} {c : Contents}

/-- A folder whose files state items is read as these items. -/
theorem readItems_of_folderStates {folder : String} {files : List (String × String)}
    {items : List Item} (hlocate : d.tree.locate (Path.child ⟨"", []⟩ folder) =
      .ok ([folder], some (.dir (files.map fun f ↦ (f.1, .file f.2)))))
    (h : FolderStates d.tree folder files items) : readItems d.tree ⟨"", []⟩ folder = .ok items :=
  (readItems_of_files files hlocate h.visited.1 h.visited.2).trans
    (readItemsFrom_of_states h.stated h.nodup)

/-- The items of the folders are those of the contents. -/
theorem items (h : Says d c) : readItems d.tree ⟨"", []⟩ "objects" = .ok c.objects ∧
    readItems d.tree ⟨"", []⟩ "events" = .ok c.events ∧
    readItems d.tree ⟨"", []⟩ "profiles" = .ok c.profiles :=
  ⟨readItems_of_folderStates rfl h.objects, readItems_of_folderStates rfl h.events,
    readItems_of_folderStates rfl h.profiles⟩

/-- Resolving includes leaves the items of the contents as they are. -/
theorem resolveIncludes_eq (h : Says d c) (j : Journal) :
    execute (resolveIncludes d.tree ⟨"", []⟩ c.profiles c.events c.objects) j =
      (.ok (c.events.map Item.plain, c.objects.map Item.plain), j) :=
  resolveIncludes_of_plain (fun _ hitem ↦ h.plain _ (List.mem_append_left _ hitem))
    (fun _ hitem ↦ h.plain _ (List.mem_append_right _ hitem)) _ _

/-- The dictionary of the tree. -/
theorem readObject_dictionary (h : Says d c) : ∃ members parts,
    readObject d.tree (Path.child ⟨"", []⟩ "dictionary.json") = .ok members ∧
    partOf members "attributes" "dictionary attributes" = .ok c.attributes ∧
    partOf members "types" "dictionary types" = .ok parts ∧
    partOf parts "attributes" "dictionary types attributes" = .ok c.types := by
  obtain ⟨members, parts, hdocument, hparts⟩ := h.dictionary
  exact ⟨members, parts, readObject_eq_ok_iff.2 ⟨d.dictionary, rfl, hdocument⟩, hparts⟩

/-- Reading a tree of documents comes to the catalog of what they say. -/
theorem outcome_read {hasDatetime : Bool} (h : Says d c)
    (hdatetime : readDatetime c.profiles c.types = .ok hasDatetime) :
    (read d.tree ⟨"", []⟩).outcome.1 = c.catalog := by
  obtain ⟨hobjects, hevents, hprofiles⟩ := h.items
  obtain ⟨members, hdocument, hversion⟩ := h.version
  have hread : readVersion d.tree ⟨"", []⟩ = .ok c.version := by
    rw [readVersion, readObject_eq_ok_iff.2 ⟨d.version, rfl, hdocument⟩]
    simp only [hversion]
  have hcategories : readObject d.tree (Path.child ⟨"", []⟩ "categories.json") = .ok c.categories :=
    readObject_eq_ok_iff.2 ⟨d.categories, rfl, h.categories⟩
  obtain ⟨dictionary, parts, hdictionary, hattributes, hparts, htypes⟩ := h.readObject_dictionary
  rw [Catalog.outcome_read rfl hread hcategories hdictionary hattributes hparts htypes
    hevents hobjects hprofiles h.resolveIncludes_eq hdatetime, Contents.catalog, hdatetime,
    List.map_map]
  rfl

end Says

end EventSchema.Catalog

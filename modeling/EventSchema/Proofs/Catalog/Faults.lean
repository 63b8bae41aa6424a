import EventSchema.Proofs.Catalog.Inheritance
import EventSchema.Proofs.Catalog.Items
import EventSchema.Proofs.Catalog.Steps

/-!
# What reading stumbles over

Most of a schema tree is taken over without a check of its shape, and a value that is no object may
be asked for a member. `LacksMembers` lists the places where such a value can stand in the files of
a tree: among the attributes of the dictionary, as the annotations of a file, and among the
attributes of a file with annotations. Nothing else in a tree makes reading ask in vain
(`lacksMembers_of_read`), and only an event class whose file states too large an identifier is
refused for it (`uidTooLarge_of_resolve`).
-/

namespace EventSchema

/-- A value that is no object. -/
def Json.IsBare (v : Json) : Prop := ∀ members, v ≠ .obj members

namespace Catalog

/-- In the files of a schema tree a value that is no object stands where members are asked for. -/
inductive LacksMembers (tree : FileTree) (schema : Path) : Prop where
  /-- An attribute of the dictionary is no object. -/
  | dictionary {members attributes : Entries Json} {name : String} {v : Json}
      (file : readObject tree (schema.child "dictionary.json") = .ok members)
      (part : members.get? "attributes" = some (.obj attributes))
      (mem : (name, v) ∈ attributes) (bare : v.IsBare)
  /-- A file with attributes has annotations that are no object. -/
  | annotations {path : Path} {members attributes : Entries Json} {v : Json}
      (file : readObject tree path = .ok members)
      (part : members.get? "attributes" = some (.obj attributes)) (nonempty : attributes ≠ [])
      (given : members.get? "annotations" = some v) (bare : v.IsBare)
  /-- In a file with annotations an attribute is no object. -/
  | annotated {path : Path} {members attributes annotations : Entries Json}
      {name : String} {v : Json} (file : readObject tree path = .ok members)
      (part : members.get? "attributes" = some (.obj attributes))
      (given : members.get? "annotations" = some (.obj annotations)) (nonempty : annotations ≠ [])
      (mem : (name, v) ∈ attributes) (bare : v.IsBare)

/-- The file of an event class states an identifier that is too large to be put behind that of a
category. -/
def UidTooLarge (tree : FileTree) (schema : Path) (uid : Uid) : Prop :=
  ∃ path ∈ itemPaths tree (schema.child "events"), ∃ members v,
    readObject tree path = .ok members ∧ members.get? "uid" = some v ∧ Uid.ofJson? v = some uid ∧
      categorySize ≤ uid.toInt

/-- If the reason of a fault is that a value was asked for members that it does not have, the files
of the tree hold such a value. -/
def Blames (tree : FileTree) (schema : Path) (e : CatalogError) : Prop :=
  ∀ found word, e = .shape (.membersExpected found word) → LacksMembers tree schema

variable {tree : FileTree} {schema : Path} {e : CatalogError} {y : ShapeError} {dict : Dictionary}
  {place name : String} {value : Json}

/-- A fault that does not ask for members blames no tree. -/
theorem Blames.shape (h : y.isMembersExpected = false) : Blames tree schema (.shape y) := by
  rintro found word heq
  cases heq
  cases h

/-! ### Values -/

/-- Where a text is expected, no members are. -/
theorem plainText_error {v : Json} (h : v.plainText = .error y) : y.isMembersExpected = false := by
  cases v <;> cases h <;> rfl

/-- Only a value that has no members is asked for them in vain. -/
theorem membersFor_error {v : Json} {word : String} (h : v.membersFor word = .error y) :
    v.IsBare := by
  rintro members rfl
  cases h

/-- Reading the values of an enumeration does not fail for want of members. -/
theorem enumValues_error {entries : List (String × Json)} (h : enumValues entries = .error y) :
    y.isMembersExpected = false := by
  induction entries with
  | nil => cases h
  | cons entry rest ih =>
    obtain ⟨key, detail⟩ := entry
    rcases bind_eq_error h with h | ⟨first, -, h⟩
    · unfold enumValue? at h
      split at h
      · rcases bind_eq_error h with h | ⟨description, -, h⟩
        · exact plainText_error h
        · cases h
      · cases h
    · rcases bind_eq_error h with h | ⟨others, -, h⟩
      · exact ih h
      · cases h

/-- Reading an enumeration does not fail for want of members. -/
theorem readEnum_error {v : Json} (h : readEnum v = .error y) : y.isMembersExpected = false := by
  unfold readEnum at h
  split at h
  · rcases bind_eq_error h with h | ⟨values, -, h⟩
    · exact enumValues_error h
    · cases h
  · cases h

/-- Reading a deprecation does not fail for want of members. -/
theorem readDeprecation_error {v : Json} (h : readDeprecation v = .error y) :
    y.isMembersExpected = false := by
  unfold readDeprecation at h
  split at h
  · cases h
  · split at h
    · rcases bind_eq_error h with h | ⟨message, -, h⟩
      · exact plainText_error h
      · cases h
    · cases h

/-- A fault that never asks for members blames no tree. -/
theorem ofShape_error {α : Type} {r : Except ShapeError α} (h : ofShape r = .error e)
    (hr : ∀ y, r = .error y → y.isMembersExpected = false) : Blames tree schema e := by
  obtain ⟨y, hy, rfl⟩ := mapError_eq_error h
  exact Blames.shape (hr y hy)

/-! ### Attributes and definitions -/

/-- A fault of the type of an attribute blames no tree. -/
theorem readType_error {details : Entries Json} (h : readType dict place name details = .error e) :
    Blames tree schema e := by
  rintro found word rfl
  unfold readType at h
  split at h
  · split at h
    · dsimp only at h
      split at h <;> cases h
    · split at h <;> cases h
  · cases h

/-- A fault of the target of a reference blames no tree. -/
theorem readTarget_error {target : Json} (h : readTarget dict place name target = .error e) :
    Blames tree schema e := by
  unfold readTarget at h
  split at h
  · cases h
  · rcases bind_eq_error h with h | ⟨found, -, h⟩
    · exact ofShape_error h fun y hy ↦ Json.lookupName_error hy
    · rintro found' word rfl
      cases found with
      | none => cases h
      | some object =>
        dsimp only at h
        split at h <;> cases h

/-- Reading an attribute asks in vain only if the attribute of the dictionary is no object. -/
theorem readAttribute_error
    (hdict : ∀ v, (name, v) ∈ dict.attributes → v.IsBare → LacksMembers tree schema)
    (h : readAttribute dict place name value = .error e) : Blames tree schema e := by
  unfold readAttribute at h
  split at h
  · split at h
    · next own standing hstanding =>
      rcases bind_eq_error h with h | ⟨details, -, h⟩
      · -- the merged value is no object, so the dictionary has none
        obtain ⟨y, hy, rfl⟩ := mapError_eq_error h
        refine fun _ _ _ ↦ hdict standing (Entries.mem_of_get? hstanding) fun members heq ↦ ?_
        subst heq
        rw [Json.merge] at hy
        cases hy
      rcases bind_eq_error h with h | ⟨⟨scalarType, named⟩, -, h⟩
      · exact readType_error h
      rcases bind_eq_error h with h | ⟨target, -, h⟩
      · exact readTarget_error h
      rcases bind_eq_error h with h | ⟨description, -, h⟩
      · exact ofShape_error h fun y hy ↦ plainText_error hy
      rcases bind_eq_error h with h | ⟨enumValues, -, h⟩
      · exact ofShape_error h fun y hy ↦ readEnum_error hy
      rcases bind_eq_error h with h | ⟨deprecation, -, h⟩
      · exact ofShape_error h fun y hy ↦ readDeprecation_error hy
      cases h
    · cases h
      exact nofun
  · cases h
    exact nofun

/-- A fault among the attributes of a definition blames the tree. -/
theorem readAttributes_error
    (hdict : ∀ name v, (name, v) ∈ dict.attributes → v.IsBare → LacksMembers tree schema)
    {values : List (String × Json)} {read : Table Attribute}
    (h : readAttributes dict place read values = .error e) : Blames tree schema e := by
  induction values generalizing read with
  | nil => cases h
  | cons entry rest ih =>
    rcases bind_eq_error h with h | ⟨a, -, h⟩
    · exact readAttribute_error (hdict _) h
    · exact ih h

/-- A fault in a definition blames the tree. -/
theorem readDefinition_error
    (hdict : ∀ name v, (name, v) ∈ dict.attributes → v.IsBare → LacksMembers tree schema)
    {kind : EntityKind} {item : ResolvedItem} (h : readDefinition dict kind item = .error e) :
    Blames tree schema e := by
  rcases bind_eq_error h with h | ⟨closed, -, h⟩
  · unfold readClosed at h
    split at h <;> cases h
    exact nofun
  rcases bind_eq_error h with h | ⟨ancestor, -, h⟩
  · unfold readAncestor at h
    split at h <;> cases h
    exact nofun
  rcases bind_eq_error h with h | ⟨attributes, -, h⟩
  · exact readAttributes_error hdict h
  have huid : ∀ place, readUid place item.members = .error e → Blames tree schema e :=
    fun place h ↦ by
    unfold readUid at h
    split at h
    · cases h
    · split at h <;> cases h
      exact nofun
  cases kind with
  | object =>
    rcases bind_eq_error h with h | ⟨uid, -, h⟩
    · cases h
    rcases bind_eq_error h with h | ⟨description, -, h⟩
    · exact ofShape_error h fun y hy ↦ plainText_error hy
    cases h
  | event =>
    rcases bind_eq_error h with h | ⟨uid, -, h⟩
    · exact huid _ h
    rcases bind_eq_error h with h | ⟨description, -, h⟩
    · exact ofShape_error h fun y hy ↦ plainText_error hy
    cases h

/-- A fault among definitions blames the tree. -/
theorem readDefinitions_error
    (hdict : ∀ name v, (name, v) ∈ dict.attributes → v.IsBare → LacksMembers tree schema)
    {kind : EntityKind} {items : List ResolvedItem} {read : Table Definition}
    (h : readDefinitions dict kind read items = .error e) : Blames tree schema e := by
  induction items generalizing read with
  | nil => cases h
  | cons item rest ih =>
    rcases bind_eq_error h with h | ⟨d, -, h⟩
    · exact readDefinition_error hdict h
    · exact ih h

/-! ### The parts of a schema tree -/

/-- A file that holds no object blames no tree. -/
theorem readObject_error {path : Path} (h : readObject tree path = .error e) :
    Blames tree schema e := by
  unfold readObject at h
  split at h
  · cases h
    exact nofun
  · split at h <;> cases h <;> exact nofun

/-- A part of a file that is no object blames no tree. -/
theorem partOf_error {members : Entries Json} {key : String}
    (h : partOf members key place = .error e) :
    Blames tree schema e := by
  unfold partOf objectAt at h
  split at h <;> cases h
  exact nofun

/-- A part is empty if it is missing. -/
theorem mem_partOf {members attributes : Entries Json} {key : String} {v : Json}
    (h : partOf members key place = .ok attributes) (hmem : (name, v) ∈ attributes) :
    members.get? key = some (.obj attributes) := by
  unfold partOf objectAt at h
  rcases hkey : members.get? key with _ | found <;> rw [hkey] at h
  · cases h
    cases hmem
  · cases found <;> cases h
    rfl

/-- A fault in the file of the version blames no tree. -/
theorem readVersion_error (h : readVersion tree schema = .error e) : Blames tree schema e := by
  unfold readVersion at h
  dsimp only at h
  split at h
  · split at h <;> cases h
    exact nofun
  · split at h <;> cases h <;> exact nofun
  · next hobject =>
    cases h
    exact readObject_error hobject

/-- A fault in reading an item blames no tree. -/
theorem readItem_error {folder : String} {path : Path} (h : readItem tree folder path = .error e) :
    Blames tree schema e := by
  rcases bind_eq_error h with h | ⟨members, -, h⟩
  · exact readObject_error h
  · dsimp only at h
    split at h
    · split at h <;> cases h
      exact nofun
    · cases h
      exact nofun

/-- A fault in reading items one after another blames no tree. -/
theorem readItemsFrom_error {folder : String} {read : List Item} {paths : List Path}
    (h : readItemsFrom tree folder read paths = .error e) : Blames tree schema e := by
  induction paths generalizing read with
  | nil => cases h
  | cons path paths ih =>
    rcases bind_eq_error h with h | ⟨item, -, h⟩
    · exact readItem_error h
    · split at h
      · cases h
        exact nofun
      · exact ih h

/-- A fault in looking for the profile of dates blames no tree. -/
theorem readDatetime_error {profiles : List Item} {types : Entries Json}
    (h : readDatetime profiles types = .error e) : Blames tree schema e := by
  unfold readDatetime at h
  split at h <;> cases h <;> exact nofun

/-- A fault among the categories blames no tree. -/
theorem readCategories_error {members : Entries Json} (h : readCategories members = .error e) :
    Blames tree schema e := by
  rcases bind_eq_error h with h | ⟨attributes, -, h⟩
  · exact partOf_error h
  generalize (Table.empty : Table Uid) = read at h
  induction attributes generalizing read with
  | nil => cases h
  | cons entry rest ih =>
    rcases bind_eq_error h with h | ⟨detail, -, h⟩
    · unfold objectAt at h
      split at h <;> cases h
      exact nofun
    · dsimp only at h
      -- an identifier is kept, anything else is refused
      split at h
      · exact ih _ h
      · cases h
        exact nofun

/-- A fault among enumerations that are read one after another blames the tree. -/
theorem readSharedEnumsFrom_error {attributes : List (String × Json)}
    (hdict : ∀ name v, (name, v) ∈ attributes → v.IsBare → LacksMembers tree schema)
    {read : Table SharedEnum} (h : readSharedEnumsFrom read attributes = .error e) :
    Blames tree schema e := by
  induction attributes generalizing read with
  | nil => cases h
  | cons entry rest ih =>
    obtain ⟨name, v⟩ := entry
    have hrest := fun name v hmem ↦ hdict name v (List.mem_cons_of_mem _ hmem)
    unfold readSharedEnumsFrom at h
    split at h
    · rcases bind_eq_error h with h | ⟨members, -, h⟩
      · obtain ⟨y, hy, rfl⟩ := mapError_eq_error h
        exact fun _ _ _ ↦ hdict name v List.mem_cons_self (membersFor_error hy)
      rcases bind_eq_error h with h | ⟨values, -, h⟩
      · exact ofShape_error h fun y hy ↦ readEnum_error hy
      cases values with
      | none => exact ih hrest h
      | some values => exact ih hrest h
    · exact ih hrest h

/-- A fault among the shared enumerations of a dictionary blames the tree. -/
theorem readSharedEnums_error {attributes : Entries Json}
    (hdict : ∀ name v, (name, v) ∈ attributes → v.IsBare → LacksMembers tree schema)
    (h : readSharedEnums attributes = .error e) : Blames tree schema e :=
  readSharedEnumsFrom_error (fun name v hmem ↦ hdict name v (List.mem_mergeSort.1 hmem)) h

/-! ### Steps that take included files -/

/-- An included file is as it stands in the tree. It has no annotations if they are no object, and
none to give if there are none. -/
structure IncludedFile.IsOf (tree : FileTree) (file : IncludedFile) : Prop where
  read : readObject tree file.path = .ok file.members
  bare : file.annotations = none → ∃ v, file.members.get? "annotations" = some v ∧ v.IsBare
  given : ∀ shared, file.annotations = some shared → shared ≠ [] →
    ∃ ms, ms ≠ [] ∧ file.members.get? "annotations" = some (.obj ms)

/-- A step that takes included files from a tree: those that it remembers are as they stand there,
what it comes to has a property, and its faults blame the tree. -/
def Takes {α : Type} (tree : FileTree) (schema : Path) (Q : α → Prop) (x : InclusionM α) : Prop :=
  ∀ s j, (∀ f ∈ s.files, f.IsOf tree) →
    (∀ a s', (execute (x.run s) j).1 = .ok (a, s') → (∀ f ∈ s'.files, f.IsOf tree) ∧ Q a) ∧
    ∀ e, (execute (x.run s) j).1 = .error e → Blames tree schema e

/-- Nothing is asked of a result. -/
def Whatever {α : Type} (_ : α) : Prop := True

namespace Takes

variable {α β : Type} {x : InclusionM α} {f : α → InclusionM β}
  {Q : α → Prop} {R : β → Prop} {a : α}

/-- What an action takes is what it gives where it succeeds. -/
theorem gives (hx : Takes tree schema Q x) : Gives (IncludedFile.IsOf tree) Q x :=
  fun s j a s' hs h ↦
  (hx s j hs).1 a s' h

/-- An action takes what it gives if its errors blame the tree. -/
theorem of_gives (hx : Gives (IncludedFile.IsOf tree) Q x)
    (herror : ∀ s j e, (∀ f ∈ s.files, f.IsOf tree) → (execute (x.run s) j).1 = .error e →
      Blames tree schema e) :
    Takes tree schema Q x := fun s j hs ↦
  ⟨fun a s' h ↦ hx s j a s' hs h, fun e h ↦ herror s j e hs h⟩

theorem pure (ha : Q a) : Takes tree schema Q (Pure.pure a) := .of_gives (.pure ha) nofun

theorem fail (h : Blames tree schema e) : Takes tree schema Q (InclusionM.fail e) :=
  .of_gives (.fail e) fun s j e' _ h' ↦ by
    cases h'
    exact h

/-- A result is taken if it has the property and its error blames the tree. -/
theorem lift {r : Except CatalogError α} (hok : ∀ a, r = .ok a → Q a)
    (herror : ∀ e, r = .error e → Blames tree schema e) :
    Takes tree schema Q (liftM (Reporting.ofExcept r) : InclusionM α) :=
  .of_gives (.lift hok) fun s j e _ h ↦ by
    cases r with
    | ok b => cases h
    | error x =>
      cases h
      exact herror _ rfl

/-- Shared objects are dealt with without errors. -/
theorem onPool {y : StateM Pool α} (h : ∀ pool, Q (y.run pool).1) :
    Takes tree schema Q (InclusionM.onPool y) := .of_gives (.onPool h) nofun

theorem get : Takes tree schema (fun s ↦ ∀ f ∈ s.files, f.IsOf tree)
    (MonadState.get : InclusionM Includes) := .of_gives .get nofun

theorem add {file : IncludedFile} (hfile : file.IsOf tree) :
    Takes tree schema Whatever
      (modifyThe Includes fun s ↦ { s with files := s.files ++ [file] } : InclusionM Unit) :=
  .of_gives (.add hfile) nofun

theorem warn (text : String) : Takes tree schema Whatever (InclusionM.warn text) :=
  .of_gives (.warn text) nofun

theorem bind (hx : Takes tree schema Q x) (hf : ∀ a, Q a → Takes tree schema R (f a)) :
    Takes tree schema R (x >>= f) := by
  refine .of_gives (hx.gives.bind fun a ha ↦ (hf a ha).gives) fun s j e hs h ↦ ?_
  rcases execute_bind_eq_error h with ⟨_, h⟩ | ⟨⟨a, t⟩, j', hrun, h⟩
  · exact (hx s j hs).2 e (congrArg Prod.fst h)
  · obtain ⟨ht, ha⟩ := hx.gives s j a t hs (congrArg Prod.fst hrun)
    exact (hf a ha t j' ht).2 e h

theorem mapM {as : List α} (hf : ∀ a ∈ as, Takes tree schema Whatever (f a)) :
    Takes tree schema Whatever (as.mapM f) := by
  induction as with
  | nil => exact .pure trivial
  | cons a as ih =>
    rw [List.mapM_cons]
    exact (hf a List.mem_cons_self).bind fun b _ ↦
      (ih fun a' ha' ↦ hf a' (List.mem_cons_of_mem a ha')).bind fun bs _ ↦ .pure trivial

theorem forM {f : α → InclusionM PUnit} {as : List α}
    (hf : ∀ a ∈ as, Takes tree schema Whatever (f a)) : Takes tree schema Whatever (as.forM f) := by
  induction as with
  | nil => exact .pure trivial
  | cons a as ih =>
    exact (hf a List.mem_cons_self).bind fun _ _ ↦ ih fun a' ha' ↦
      hf a' (List.mem_cons_of_mem a ha')

end Takes

/-! ### Includes -/

variable {file : IncludedFile} {path : Path}

/-- No annotations are shared if there are none. -/
theorem ne_nil_of_shareMembers {ms : List (String × Json)} {pool : Pool}
    (h : ((Detail.shareMembers (Detail.ofMembers ms)).run pool).1 ≠ []) : ms ≠ [] := by
  rintro rfl
  exact h rfl

/-- A file that was read may be remembered. -/
theorem takes_remember {members : Entries Json} (h : readObject tree path = .ok members) :
    Takes tree schema (IncludedFile.IsOf tree) (remember path members) := by
  have hadd : ∀ file : IncludedFile, file.IsOf tree → Takes tree schema (IncludedFile.IsOf tree) (do
      modifyThe Includes fun s ↦ { s with files := s.files ++ [file] }
      Pure.pure file) := fun file hfile ↦ (Takes.add hfile).bind fun _ _ ↦ .pure hfile
  have hgiven : ∀ ms, (ms ≠ [] → members.get? "annotations" = some (.obj ms)) →
      Takes tree schema (IncludedFile.IsOf tree) (do
        let shared ← InclusionM.onPool (Detail.shareMembers (Detail.ofMembers ms))
        let details ← Pure.pure (some shared)
        modifyThe Includes fun s ↦ { s with files := s.files ++ [⟨path, members, details⟩] }
        Pure.pure ⟨path, members, details⟩) := fun ms hms ↦ by
    refine (Takes.onPool (Q := fun shared ↦ shared ≠ [] → ms ≠ []) fun _ ↦
      ne_nil_of_shareMembers).bind fun shared hshared ↦
      (Takes.pure (Q := fun d ↦ d = some shared) rfl).bind fun _ hd ↦ ?_
    subst hd
    refine hadd _ ⟨h, nofun, fun shared' heq hne ↦ ?_⟩
    cases heq
    exact ⟨ms, hshared hne, hms (hshared hne)⟩
  unfold remember
  -- missing annotations count as an empty object
  rcases hann : members.get? "annotations" with _ | v
  · exact hgiven [] fun hne ↦ absurd rfl hne
  cases v with
  | obj ms => exact hgiven ms fun _ ↦ hann
  | _ =>
    refine (Takes.pure (Q := fun d ↦ d = none) rfl).bind fun _ hd ↦ ?_
    subst hd
    exact hadd _ ⟨h, fun _ ↦ ⟨_, hann, nofun⟩, nofun⟩

/-- Including a file takes it from the tree. -/
theorem takes_included (tree : FileTree) (schema : Path) (place : String) (path : Path) :
    Takes tree schema (IncludedFile.IsOf tree) (included tree place path) := by
  refine Takes.get.bind fun s hs ↦ ?_
  split
  · next file hfound => exact .pure (hs file (List.mem_of_find?_eq_some hfound))
  · split
    · next members hread => exact takes_remember hread
    · split
      · exact .fail nofun
      · exact .fail nofun
    · next hread => exact .fail (readObject_error hread)

/-- Annotating an attribute asks in vain only if the annotations or the attribute are no object. -/
theorem annotate_error (hfile : file.IsOf tree) {attributes : Entries Json}
    (hpart : file.members.get? "attributes" = some (.obj attributes))
    (hmem : (name, value) ∈ attributes) (h : annotate file (Detail.ofJson value) = .error e) :
    Blames tree schema e := by
  unfold annotate at h
  split at h
  · next hnone =>
    obtain ⟨v, hgiven, hbare⟩ := hfile.bare hnone
    exact fun _ _ _ ↦ .annotations hfile.read hpart (List.ne_nil_of_mem hmem) hgiven hbare
  · cases h
  · next annotations hsome hannotations =>
    obtain ⟨ms, hne, hgiven⟩ := hfile.given annotations hannotations hsome
    split at h
    · cases h
    · next v hplain =>
      refine fun _ _ _ ↦ .annotated hfile.read hpart hgiven hne hmem fun members heq ↦ ?_
      rw [heq, Detail.ofJson] at hplain
      cases hplain
    · cases h

/-- A fault of marking a profile blames no tree. -/
theorem markProfile_error {profile : Json} {detail : Detail}
    (h : markProfile profile detail = .error e) :
    Blames tree schema e := by
  unfold markProfile at h
  split at h <;> cases h
  exact nofun

/-- Including an attribute of a file of the tree takes files from the tree. -/
theorem takes_includeAttribute (hfile : file.IsOf tree) {attributes : Entries Json}
    (hpart : file.members.get? "attributes" = some (.obj attributes))
    (hmem : (name, value) ∈ attributes) (profile : Json) (own : Entries Detail) :
    Takes tree schema Whatever (includeAttribute file profile own name value) := by
  refine (Takes.lift (Q := Whatever) (fun _ _ ↦ trivial) fun e h ↦
    annotate_error hfile hpart hmem h).bind fun detail _ ↦ ?_
  split
  · exact .onPool fun _ ↦ trivial
  · split
    · exact .lift (fun _ _ ↦ trivial) fun e h ↦ markProfile_error h
    · exact .pure trivial

/-- Including the attributes of one file takes files from the tree. -/
theorem takes_includeFile (tree : FileTree) (schema : Path) (place : String) (path : Path)
    (own : Entries Detail) : Takes tree schema Whatever (includeFile tree place path own) := by
  refine (takes_included tree schema place path).bind fun file hfile ↦ ?_
  split
  · exact (Takes.warn _).bind fun _ _ ↦ .pure trivial
  · next attributes hpart =>
    have hprofile : ∀ e, profileOf place file = .error e → Blames tree schema e := fun e h ↦ by
      unfold profileOf at h
      split at h
      · split at h <;> cases h
        exact nofun
      · cases h
    refine (Takes.lift (Q := Whatever) (fun _ _ ↦ trivial) hprofile).bind fun profile _ ↦
      (Takes.mapM fun entry hmem ↦ ?_).bind fun _ _ ↦ .pure trivial
    exact (takes_includeAttribute hfile hpart hmem _ _).bind fun _ _ ↦ .pure trivial
  · exact .fail nofun

/-- Including the attributes of several files takes files from the tree. -/
theorem takes_includeFiles (tree : FileTree) (schema : Path) (place : String) (paths : List Json)
    (own : Entries Detail) :
    Takes tree schema Whatever (includeFiles tree schema place paths own) := by
  induction paths generalizing own with
  | nil => exact .pure trivial
  | cons path paths ih =>
    cases path with
    | str s => exact (takes_includeFile _ _ _ _ _).bind fun next _ ↦ ih next
    | _ => exact .fail nofun

/-- Including the details of an attribute takes files from the tree. -/
theorem takes_includeDetails (tree : FileTree) (schema : Path)
    (place name : String) (detail : Detail) :
    Takes tree schema Whatever (includeDetails tree schema place name detail) := by
  unfold includeDetails
  split
  · split
    · exact .pure trivial
    · refine Takes.get.bind fun s _ ↦ ?_
      split
      · exact (takes_included _ _ _ _).bind fun _ _ ↦ .onPool fun _ ↦ trivial
      · exact .fail nofun
  · exact .pure trivial

/-- Resolving the includes of an item takes files from the tree. -/
theorem takes_resolveItem (tree : FileTree) (schema : Path) (place : String) (item : Item) :
    Takes tree schema Whatever (resolveItem tree schema place item) := by
  have hdetails : ∀ own :
      Entries Detail, Takes tree schema Whatever (own.mapM fun (e : String × Detail) ↦ do
      Pure.pure (e.1, ← includeDetails tree schema place e.1 e.2)) := fun own ↦
    .mapM fun e _ ↦ (takes_includeDetails _ _ _ _ _).bind fun _ _ ↦ .pure trivial
  unfold resolveItem
  split
  · split
    · exact hdetails _
    · next value _ =>
      have hpaths : ∀ place e, includedPaths place value = .error e → Blames tree schema e :=
        fun place e h ↦ by
          unfold includedPaths at h
          split at h <;> cases h
          exact nofun
      exact (Takes.lift (Q := Whatever) (fun _ _ ↦ trivial) (hpaths _)).bind fun paths _ ↦
        (takes_includeFiles _ _ _ _ _).bind fun own _ ↦ hdetails own
  · exact .fail nofun

/-- Resolving includes asks in vain only because of annotations. -/
theorem resolveIncludes_error {profiles events objects : List Item}
    (hprofiles : ∀ item ∈ profiles, readObject tree item.path = .ok item.members) {j : Journal}
    (h : (execute (resolveIncludes tree schema profiles events objects) j).1 = .error e) :
    Blames tree schema e := by
  have hitems : ∀ (word : String) (items : List Item),
      Takes tree schema Whatever (items.mapM fun (item : Item) ↦ do
        Pure.pure (item, ← resolveItem tree schema s!"{word} \"{item.name}\"" item)) := fun _ _ ↦
    .mapM fun item _ ↦ (takes_resolveItem _ _ _ _).bind fun _ _ ↦ .pure trivial
  have hremember : Takes tree schema Whatever
      (profiles.forM fun item ↦ discard (remember item.path item.members)) :=
    .forM fun item hmem ↦ (takes_remember (hprofiles item hmem)).bind fun _ _ ↦ .pure trivial
  rcases execute_bind_eq_error h with ⟨_, h⟩ | ⟨found, _, -, h⟩
  · have hall :=
      hremember.bind (R := Whatever) fun _ _ ↦ (hitems "class" events).bind fun eventItems _ ↦
      (hitems "object" objects).bind fun objectItems _ ↦
        .pure (a := (eventItems, objectItems)) trivial
    exact (hall ⟨[], []⟩ j nofun).2 e (congrArg Prod.fst h)
  · cases h

/-! ### Catalogs -/

theorem execute_ofExcept_error {α : Type} {r : Except CatalogError α} {j j' : Journal}
    (h : execute (Reporting.ofExcept r) j = (.error e, j')) : r = .error e :=
  (Prod.mk.inj h).1

/-- Reading a catalog asks in vain only if the tree has a value that lacks members. -/
theorem blames_of_read {j : Journal} (h : (execute (read tree schema) j).1 = .error e) :
    Blames tree schema e := by
  unfold read at h
  rcases execute_bind_eq_error h with ⟨_, h⟩ | ⟨present, _, -, h⟩
  · obtain ⟨f, -, rfl⟩ := mapError_eq_error (execute_ofExcept_error h)
    exact nofun
  cases present with
  | false =>
    cases h
    exact nofun
  | true =>
    rcases execute_bind_eq_error h with ⟨_, h⟩ | ⟨⟨⟩, _, -, h⟩
    · cases h
    rcases execute_bind_eq_error h with ⟨_, h⟩ | ⟨version, _, -, h⟩
    · exact readVersion_error (execute_ofExcept_error h)
    rcases execute_bind_eq_error h with ⟨_, h⟩ | ⟨categories, _, -, h⟩
    · exact readObject_error (execute_ofExcept_error h)
    rcases execute_bind_eq_error h with ⟨_, h⟩ | ⟨dictionary, _, hdictionary, h⟩
    · exact readObject_error (execute_ofExcept_error h)
    rcases execute_bind_eq_error h with ⟨_, h⟩ | ⟨attributes, _, hattributes, h⟩
    · exact partOf_error (execute_ofExcept_error h)
    have hdict : ∀ name v, (name, v) ∈ attributes → v.IsBare → LacksMembers tree schema :=
      fun name v hmem hbare ↦ .dictionary (Prod.mk.inj hdictionary).1
        (mem_partOf (Prod.mk.inj hattributes).1 hmem) hmem hbare
    rcases execute_bind_eq_error h with ⟨_, h⟩ | ⟨parts, _, -, h⟩
    · exact partOf_error (execute_ofExcept_error h)
    rcases execute_bind_eq_error h with ⟨_, h⟩ | ⟨types, _, -, h⟩
    · exact partOf_error (execute_ofExcept_error h)
    rcases execute_bind_eq_error h with ⟨_, h⟩ | ⟨eventItems, _, -, h⟩
    · exact readItemsFrom_error (execute_ofExcept_error h)
    rcases execute_bind_eq_error h with ⟨_, h⟩ | ⟨objectItems, _, -, h⟩
    · exact readItemsFrom_error (execute_ofExcept_error h)
    rcases execute_bind_eq_error h with ⟨_, h⟩ | ⟨profiles, _, hprofiles, h⟩
    · exact readItemsFrom_error (execute_ofExcept_error h)
    rcases execute_bind_eq_error h with ⟨_, h⟩ | ⟨⟨events, objects⟩, _, -, h⟩
    · exact resolveIncludes_error
        (fun item hmem ↦ (readItems_members (Prod.mk.inj hprofiles).1 item hmem).2)
        (congrArg Prod.fst h)
    rcases execute_bind_eq_error h with ⟨_, h⟩ | ⟨hasDatetime, _, -, h⟩
    · exact readDatetime_error (execute_ofExcept_error h)
    -- with companions one more line is reported
    cases hasDatetime
    rotate_left
    rcases execute_bind_eq_error h with ⟨_, h⟩ | ⟨⟨⟩, _, -, h⟩
    · cases h
    all_goals
      rcases execute_bind_eq_error h with ⟨_, h⟩ | ⟨objectTable, _, -, h⟩
      · exact readDefinitions_error hdict (execute_ofExcept_error h)
      rcases execute_bind_eq_error h with ⟨_, h⟩ | ⟨eventTable, _, -, h⟩
      · exact readDefinitions_error hdict (execute_ofExcept_error h)
      rcases execute_bind_eq_error h with ⟨_, h⟩ | ⟨⟨⟩, _, -, h⟩
      · cases h
      rcases execute_bind_eq_error h with ⟨_, h⟩ | ⟨uids, _, -, h⟩
      · exact readCategories_error (execute_ofExcept_error h)
      rcases execute_bind_eq_error h with ⟨_, h⟩ | ⟨enums, _, -, h⟩
      · exact readSharedEnums_error hdict (execute_ofExcept_error h)
      cases h

/-! ### Identifiers that are out of range -/

/-- The identifier of a definition is that of its item, and an object has none. -/
theorem uid_of_readDefinition {kind : EntityKind} {item : ResolvedItem} {d : Definition} {uid : Uid}
    (h : readDefinition dict kind item = .ok d) (hd : d.uid = some uid) :
    kind = .event ∧ ∃ v, item.members.get? "uid" = some v ∧ Uid.ofJson? v = some uid := by
  cases kind with
  | object => cases ((readDefinition_ok h).object rfl).2.symm.trans hd
  | event =>
    obtain ⟨place, huid⟩ := ((readDefinition_ok h).event rfl).2
    rcases uid_of_readUid huid with ⟨hnone, -⟩ | ⟨own, hown, hget⟩
    · cases hnone.symm.trans hd
    · obtain rfl := Option.some.inj (hown.symm.trans hd)
      exact ⟨rfl, own.toJson, hget, by cases own <;> rfl⟩

/-- An identifier that is out of range is stated by the file of an event class, and is too large. -/
theorem uidTooLarge_of_resolve {c : Catalog} {j j' : Journal} {uid : Uid}
    (hread : (execute (read tree schema) j).1 = .ok c)
    (h : (execute c.resolve j').1 = .error (.uidOutOfRange uid)) : UidTooLarge tree schema uid := by
  obtain ⟨dict, objects, events, -, ⟨_, eventItems, _, _, hitems, -, hincludes⟩, hobjects,
    hevents⟩ :=
    definitions_of_read hread
  rcases Catalog.resolve_error h with hof | hof
  -- no object has an identifier, so an event class has it
  · obtain ⟨m, d, hd, huid, -⟩ := hof.uid uid rfl
    have hnone :=
      readDefinitions_all (P := fun d ↦ d.uid = none) (fun item _ d hd ↦ ?_) Table.all_empty
      hobjects m d hd
    · rw [hnone] at huid
      cases huid
    · rcases hown : d.uid with _ | own
      · rfl
      · exact nomatch (uid_of_readDefinition hd hown).1
  · obtain ⟨m, d, hd, huid, hlarge⟩ := hof.uid uid rfl
    obtain ⟨item, hmem, hread⟩ := readDefinitions_all
      (P := fun d ↦ ∃ item ∈ events, readDefinition dict .event item = .ok d)
      (fun item hmem d hd ↦ ⟨item, hmem, hd⟩) Table.all_empty hevents m d hd
    obtain ⟨-, v, hget, hv⟩ := uid_of_readDefinition hread huid
    have hpair : (item.name, item.members) ∈ eventItems.map fun i ↦ (i.name, i.members) :=
      (items_of_resolveIncludes hincludes).1 ▸ List.mem_map_of_mem hmem
    obtain ⟨source, hsource, heq⟩ := List.mem_map.1 hpair
    obtain ⟨hpath, hmembers⟩ := readItems_members hitems source hsource
    exact ⟨source.path, hpath, source.members, v, hmembers, (Prod.mk.inj heq).2 ▸ hget, hv, hlarge⟩

end Catalog

end EventSchema

import EventSchema.Catalog.Inclusion
import EventSchema.Proofs.Json.Merging

/-!
# The layers of an attribute

What an item says of its attributes is laid over what the files say that it includes among them, the
first file highest, and below that comes the file that the attribute includes among its details
(`Item.laid`). A file says of an attribute what stands there, then those of its annotations that are
missing there, and the first file that brings an attribute up marks it with the profile that the
file is (`Item.layers`). Nothing but the item and these files goes into it (`Item.laid_congr`), and
a value of an attribute comes from one of the layers, with nothing above it (`Item.at?_laid_iff`).
-/

namespace EventSchema.Catalog

variable {file upper : Entries Json} {files : List (Entries Json)} {v x : Json}
  {n key : String} {path : List String} {contents contents' : Path → Entries Json}
  {schema : Path} {item : Item}

/-! ### What files say -/

/-- The members of the object under a name, none if there is no object. -/
def membersUnder (members : Entries Json) (key : String) : Entries Json :=
  ((members.get? key).bind Json.members?).getD []

/-- The attributes of an item or a file. -/
def attributesOf (members : Entries Json) : Entries Json := membersUnder members "attributes"

/-- The annotations of a file. -/
def annotationsOf (file : Entries Json) : Entries Json := membersUnder file "annotations"

/-- The name of the profile that a file is, null if it is none. -/
def profileNameOf (file : Entries Json) : Json :=
  if ((file.get? "meta").getD .null).isText "profile" then (file.get? "name").getD .null else .null

/-- Details with the annotations that they lack. -/
def annotated (file : Entries Json) : Json → Json
  | .obj ms => .obj ((annotationsOf file).foldl (fun ms a ↦ Entries.putNew ms a.1 a.2) ms)
  | v => v

/-- Details that are marked with the profile that a file is, if it is one. -/
def marked (file : Entries Json) : Json → Json
  | .obj ms => if (profileNameOf file).isGiven then
    .obj (Entries.put ms "profile" (profileNameOf file)) else .obj ms
  | v => v

/-- What a file says of an attribute, given whether it was brought up before. -/
def said (file : Entries Json) (before : Bool) (v : Json) : Json :=
  if before then annotated file v else marked file (annotated file v)

/-- What files say of an attribute, the first file first. -/
def fileLayers (n : String) : (before : Bool) → List (Entries Json) → List Json
  | _, [] => []
  | before, file :: files =>
    match (attributesOf file).get? n with
    | some v => said file before v :: fileLayers n true files
    | none => fileLayers n before files

/-- The attribute of a file under what is said above it. -/
def layAttribute (file : Entries Json) (above : Option Json) (v : Json) : Json :=
  match above with
  | some details => (said file true v).merge details
  | none => said file false v

/-- The attributes of a file under those above them. -/
def layFile (upper file : Entries Json) : Entries Json :=
  let taken := (attributesOf file).map fun e ↦ (e.1, layAttribute file (Entries.get? upper e.1) e.2)
  taken ++ upper.filter fun e ↦ !Entries.has taken e.1

/-- The file that details include. -/
def detailPath (schema : Path) (v : Json) : Option Path :=
  match v.member? includeKey with
  | some (.str s) => some (schema.joinText s)
  | _ => none

/-- Details over the file that they include. -/
def layDetails (contents : Path → Entries Json) (schema : Path) (v : Json) : Json :=
  match detailPath schema v with
  | some path =>
    (Json.obj (contents path)).merge (.obj (Entries.erase (v.members?.getD []) includeKey))
  | none => v

/-! ### Items -/

namespace Item

/-- The attributes that an item has itself. -/
def own (item : Item) : Entries Json := Entries.erase (attributesOf item.members) includeKey

/-- The files that an item includes among its attributes. -/
def includes (schema : Path) (item : Item) : List Path :=
  match Entries.get? (attributesOf item.members) includeKey with
  | some (.str s) => [schema.joinText s]
  | some (.arr vs) => (vs.filterMap Json.text?).map schema.joinText
  | _ => []

/-- The attributes of an item over those of the files that it includes among them. -/
def underlaid (contents : Path → Entries Json) (schema : Path) (item : Item) : Entries Json :=
  ((item.includes schema).map contents).foldl layFile item.own

/-- The attributes of an item over everything that it includes. -/
def laid (contents : Path → Entries Json) (schema : Path) (item : Item) : Entries Json :=
  Entries.mapValues (layDetails contents schema) (item.underlaid contents schema)

/-- All files that an item includes: those among its attributes, and those among the details of
attributes. -/
def sources (contents : Path → Entries Json) (schema : Path) (item : Item) : List Path :=
  item.includes schema ++ (item.underlaid contents schema).values.filterMap (detailPath schema)

/-- What an item and the files that it includes among its attributes say of one, the highest
first. -/
def upperLayers (contents : Path → Entries Json) (schema : Path) (item : Item)
    (n : String) : List Json :=
  (Entries.get? item.own n).toList ++
    fileLayers n (Entries.get? item.own n).isSome ((item.includes schema).map contents)

/-- The layers of an attribute, the highest first: the lowest is the file that it includes among its
details. -/
def layers (contents : Path → Entries Json) (schema : Path) (item : Item)
    (n : String) : List Json :=
  item.upperLayers contents schema n ++
    ((detailPath schema (Json.overlaid (item.upperLayers contents schema n))).map
      (Json.obj ∘ contents)).toList

end Item

/-! ### Names -/

/-- The attributes of a file come first, and then those that stand above it alone. -/
theorem names_layFile (upper file : Entries Json) : Entries.names (layFile upper file) =
    Entries.names (attributesOf file) ++ (Entries.names upper).filter
      (· ∉ Entries.names (attributesOf file)) := by
  have htaken (f : String × Json → Json) :
      Entries.names ((attributesOf file).map fun e ↦ (e.1, f e)) =
        Entries.names (attributesOf file) := by
    rw [Entries.names, List.map_map]
    rfl
  have hhas (f : String × Json → Json) (e : String × Json) :
      (!Entries.has ((attributesOf file).map fun e ↦ (e.1, f e)) e.1) =
        decide (e.1 ∉ Entries.names (attributesOf file)) := by
    rw [Bool.eq_iff_iff, Bool.not_eq_true', decide_eq_true_iff, ← Bool.not_eq_true,
      Entries.has_iff, htaken]
  rw [layFile, Entries.names, List.map_append, ← Entries.names, htaken, Entries.names,
    Entries.names, List.filter_map]
  congr 2
  exact List.filter_congr fun e _ ↦ hhas _ e

/-- An attribute over a file is one of those above or one of the file. -/
theorem mem_names_layFile :
    n ∈ Entries.names (layFile upper file) ↔
    n ∈ Entries.names upper ∨ n ∈ Entries.names (attributesOf file) := by
  rw [names_layFile, List.mem_append, List.mem_filter, decide_eq_true_iff]
  by_cases hn : n ∈ Entries.names (attributesOf file)
  · exact ⟨fun _ ↦ .inr hn, fun _ ↦ .inl hn⟩
  · exact ⟨fun h ↦ .inl (h.resolve_left hn).1, fun h ↦ .inr ⟨h.resolve_right hn, hn⟩⟩

/-- An attribute over several files is one of those above or one of some file. -/
theorem mem_names_foldl_layFile : n ∈ Entries.names (files.foldl layFile upper) ↔
    n ∈ Entries.names upper ∨ ∃ file ∈ files, n ∈ Entries.names (attributesOf file) := by
  induction files generalizing upper with
  | nil => exact ⟨.inl, fun h ↦ h.elim id nofun⟩
  | cons file files ih =>
    rw [List.foldl_cons, ih, mem_names_layFile, List.exists_mem_cons_iff, or_assoc]

/-- The names of attributes are those of the item and of the files that it includes among them. -/
theorem Item.mem_names_underlaid : n ∈ Entries.names (item.underlaid contents schema) ↔
    n ∈ Entries.names item.own ∨ ∃ path ∈ item.includes schema,
    n ∈ Entries.names (attributesOf (contents path)) := by
  rw [Item.underlaid, mem_names_foldl_layFile]
  simp only [List.mem_map, exists_exists_and_eq_and]

/-! ### Layers -/

theorem get?_map_values {f : String × Json → Json} (ms : Entries Json) (n : String) :
    Entries.get? (ms.map fun e ↦ (e.1, f e)) n = (Entries.get? ms n).map fun v ↦ f (n, v) := by
  induction ms with
  | nil => rfl
  | cons e ms ih =>
    obtain ⟨k, v⟩ := e
    rw [List.map_cons, Entries.get?_cons, Entries.get?_cons, ih]
    split
    · next heq =>
      obtain rfl : k = n := heq
      rfl
    · rfl

theorem get?_filter_names {p : String → Bool} (ms : Entries Json) (hn : p n = true) :
    Entries.get? (ms.filter fun e ↦ p e.1) n = Entries.get? ms n := by
  induction ms with
  | nil => rfl
  | cons e ms ih =>
    obtain ⟨k, v⟩ := e
    rw [List.filter_cons, Entries.get?_cons]
    split
    · rw [Entries.get?_cons, ih]
    · next hk =>
      rw [ih, if_neg fun heq ↦ ?_]
      exact hk (heq ▸ hn)

/-- What stands under a name once a file is laid under attributes. -/
theorem get?_layFile (upper file : Entries Json) (n : String) :
    Entries.get? (layFile upper file) n =
    (((attributesOf file).get? n).map (layAttribute file (Entries.get? upper n))).or
      (Entries.get? upper n) := by
  have htaken := get?_map_values (f := fun e ↦ layAttribute file (Entries.get? upper e.1) e.2)
    (attributesOf file) n
  rw [layFile, Entries.get?_append, htaken]
  cases hget : (attributesOf file).get? n with
  | some v => rfl
  | none =>
    rw [hget] at htaken
    rw [Option.map_none, Option.none_or, Option.none_or]
    refine get?_filter_names (p := fun k ↦ !Entries.has _ k) upper ?_
    rw [Bool.not_eq_true', Entries.has, htaken]
    rfl

/-- Two layers on top are as good as one. -/
theorem overlaid_cons_cons (upper lower : Json) (layers : List Json) :
    Json.overlaid (upper :: lower :: layers) = Json.overlaid (lower.merge upper :: layers) := by
  rw [Json.overlaid, Json.overlaid, List.foldl_cons, List.foldl_cons, List.foldl_cons,
    Json.merge_empty, Json.merge_empty]

/-- Layers laid over one another, if there are any. -/
def overlaid? : List Json → Option Json
  | [] => none
  | layers => some (Json.overlaid layers)

/-- What stands under a name once files are laid under attributes: the layers of it, laid over one
another. -/
theorem get?_foldl_layFile (files : List (Entries Json)) (upper : Entries Json) (n : String) :
    Entries.get? (files.foldl layFile upper) n =
      overlaid?
        ((Entries.get? upper n).toList ++ fileLayers n (Entries.get? upper n).isSome files) := by
  induction files generalizing upper with
  | nil =>
    rw [List.foldl_nil]
    cases Entries.get? upper n with
    | none => rfl
    | some v => exact congrArg some (Json.merge_empty v).symm
  | cons file files ih =>
    rw [List.foldl_cons, ih, get?_layFile, fileLayers]
    cases hfile : (attributesOf file).get? n with
    | none => rfl
    | some v =>
      cases Entries.get? upper n with
      | none => rfl
      | some details => exact congrArg some (overlaid_cons_cons details (said file true v) _).symm

/-- An attribute of an item is what its upper layers come to. -/
theorem Item.get?_underlaid (contents : Path → Entries Json) (schema : Path)
    (item : Item) (n : String) :
    Entries.get? (item.underlaid contents schema) n =
      overlaid? (item.upperLayers contents schema n) :=
  get?_foldl_layFile _ _ _

/-! ### Names once -/

section WellFormed

variable (hfile : (Json.obj file).WellFormed)

include hfile

theorem wellFormed_membersUnder (key : String) : (Json.obj (membersUnder file key)).WellFormed := by
  rw [membersUnder]
  cases hget : file.get? key with
  | none => exact Json.wellFormed_obj_nil
  | some v =>
    cases v with
    | obj ms => exact hfile.of_get? hget
    | _ => exact Json.wellFormed_obj_nil

/-- Annotations leave details well formed. -/
theorem wellFormed_annotated (hv : v.WellFormed) : (annotated file v).WellFormed := by
  cases v with
  | obj ms =>
    have hannotations : ∀ a ∈ annotationsOf file, a.2.WellFormed :=
      (Json.wellFormed_obj_iff.1 (wellFormed_membersUnder hfile "annotations")).2
    rw [annotated]
    generalize annotationsOf file = annotations at hannotations
    induction annotations generalizing ms with
    | nil => exact hv
    | cons a annotations ih =>
      obtain ⟨ha, hannotations⟩ := List.forall_mem_cons.1 hannotations
      refine ih (Entries.putNew ms a.1 a.2) ?_ hannotations
      rw [Entries.putNew]
      split
      · exact hv
      · exact hv.put ha a.1
  | _ => exact hv

theorem wellFormed_marked (hv : v.WellFormed) : (marked file v).WellFormed := by
  have hname : (profileNameOf file).WellFormed := by
    rw [profileNameOf]
    split
    · cases hget : file.get? "name" with
      | none => exact Json.wellFormed_of_scalar nofun nofun
      | some name => exact hfile.of_get? hget
    · exact Json.wellFormed_of_scalar nofun nofun
  cases v with
  | obj ms =>
    rw [marked]
    split
    · exact hv.put hname _
    · exact hv
  | _ => exact hv

/-- What a file says of an attribute is well formed. -/
theorem wellFormed_said (hv : v.WellFormed) (before : Bool) : (said file before v).WellFormed := by
  rw [said]
  split
  · exact wellFormed_annotated hfile hv
  · exact wellFormed_marked hfile (wellFormed_annotated hfile hv)

end WellFormed

/-- What files say of an attribute is well formed. -/
theorem wellFormed_fileLayers (hfiles : ∀ file ∈ files, (Json.obj file).WellFormed)
    (before : Bool) :
    ∀ l ∈ fileLayers n before files, l.WellFormed := by
  induction files generalizing before with
  | nil => exact List.forall_mem_nil _
  | cons file files ih =>
    obtain ⟨hfile, hfiles⟩ := List.forall_mem_cons.1 hfiles
    rw [fileLayers]
    split
    · next v hget =>
      exact List.forall_mem_cons.2
        ⟨wellFormed_said hfile ((wellFormed_membersUnder hfile "attributes").of_get? hget) before,
          ih hfiles true⟩
    · exact ih hfiles before

/-! ### Values -/

theorem wellFormed_own (hitem : (Json.obj item.members).WellFormed) :
    (Json.obj item.own).WellFormed :=
  (wellFormed_membersUnder hitem "attributes").filter _

/-- The upper layers of an attribute are well formed. -/
theorem wellFormed_upperLayers (hitem : (Json.obj item.members).WellFormed)
    (hfiles : ∀ path ∈ item.includes schema, (Json.obj (contents path)).WellFormed) :
    ∀ l ∈ item.upperLayers contents schema n, l.WellFormed := by
  refine List.forall_mem_append.2 ⟨fun l hl ↦ ?_,
    wellFormed_fileLayers (List.forall_mem_map.2 hfiles) _⟩
  exact (wellFormed_own hitem).of_get? (Option.mem_toList.1 hl)

theorem get?_erase_of_ne (ms : Entries Json) (hne : n ≠ key) :
    Entries.get? (Entries.erase ms key) n = Entries.get? ms n :=
  get?_filter_names (p := fun k ↦ k ≠ key) ms (decide_eq_true hne)

/-- Taking a member away changes nothing at paths that do not start with it. -/
theorem at?_erase (ms : Entries Json) (hpath : path.head? ≠ some key) (hx : x.isObject = false) :
    ((Json.obj (Entries.erase ms key)).at? path = some x ↔ (Json.obj ms).at? path = some x) ∧
      ((Json.obj (Entries.erase ms key)).Silent path ↔ (Json.obj ms).Silent path) := by
  cases path with
  | nil =>
    have hnot {ms : Entries Json} : (Json.obj ms).at? [] ≠ some x := fun h ↦ by
      cases h
      cases hx
    exact ⟨iff_of_false hnot hnot, Iff.rfl⟩
  | cons n path =>
    have hne : n ≠ key := fun heq ↦ hpath (congrArg some heq)
    rw [Json.at?_cons, Json.at?_cons, Json.silent_cons_iff, Json.silent_cons_iff,
      get?_erase_of_ne ms hne]
    exact ⟨Iff.rfl, Iff.rfl⟩

/-- **What stands at a path of an attribute.** A value that is no object comes from a layer above
which nothing is said at the path, where all layers are objects. -/
theorem Item.at?_laid_iff (hitem : (Json.obj item.members).WellFormed)
    (hfiles : ∀ path, (Json.obj (contents path)).WellFormed)
    (hobjects : ∀ l ∈ item.upperLayers contents schema n, l.isObject = true)
    (hget : Entries.get? (item.laid contents schema) n = some v)
    (hpath : path.head? ≠ some includeKey) (hx : x.isObject = false) : v.at? path = some x ↔
      ∃ above l below, item.layers contents schema n = above ++ l :: below ∧ l.at? path = some x ∧
        (Json.overlaid above).Silent path := by
  have hupper : Json.Layered (item.upperLayers contents schema n) := fun l hl ↦
    ⟨hobjects l hl, wellFormed_upperLayers hitem (fun path _ ↦ hfiles path) l hl⟩
  have hv :
      v = layDetails contents schema (Json.overlaid (item.upperLayers contents schema n)) := by
    have hunder : Entries.get? (item.laid contents schema) n =
        (overlaid? (item.upperLayers contents schema n)).map (layDetails contents schema) := by
      rw [← Item.get?_underlaid]
      exact get?_map_values (f := fun e ↦ layDetails contents schema e.2) _ n
    rw [hunder] at hget
    cases hlayers : item.upperLayers contents schema n with
    | nil => rw [hlayers] at hget; cases hget
    | cons l layers => rw [hlayers] at hget; exact (Option.some.inj hget).symm
  rw [hv, layDetails, Item.layers]
  cases hinclude : detailPath schema (Json.overlaid (item.upperLayers contents schema n)) with
  | none =>
    rw [Option.map_none, Option.toList_none, List.append_nil]
    exact Json.at?_overlaid_iff hupper hx
  | some file =>
    have hlayers : Json.Layered (item.upperLayers contents schema n ++ [.obj (contents file)]) :=
      List.forall_mem_append.2 ⟨hupper, List.forall_mem_singleton.2 ⟨rfl, hfiles file⟩⟩
    obtain ⟨hobject, hwell⟩ := hupper.overlaid
    obtain ⟨ms, hms⟩ := Json.exists_of_isObject hobject
    rw [hms] at hwell
    rw [Option.map_some, Option.toList_some, Function.comp, ← Json.at?_overlaid_iff hlayers hx,
      Json.overlaid_concat, hms]
    have herase : (Json.obj (Entries.erase ms includeKey)).WellFormed := hwell.filter _
    change ((Json.obj (contents file)).merge (.obj (Entries.erase ms includeKey))).at? path =
      some x ↔ _
    rw [Json.at?_merge_iff herase hx, Json.at?_merge_iff hwell hx, (at?_erase ms hpath hx).1,
      (at?_erase ms hpath hx).2]

/-! ### Files that matter -/

/-- Only the files that an item includes matter. -/
theorem Item.laid_congr
    (h : ∀ path ∈ item.sources contents schema, contents path = contents' path) :
    item.laid contents schema = item.laid contents' schema := by
  obtain ⟨hincludes, hdetails⟩ := List.forall_mem_append.1 h
  have hunder : item.underlaid contents schema = item.underlaid contents' schema := by
    rw [Item.underlaid, Item.underlaid, List.map_congr_left hincludes]
  rw [Item.laid, Item.laid, ← hunder]
  refine List.map_congr_left fun e he ↦ ?_
  have hsame (path : Path) (hpath : detailPath schema e.2 = some path) :
      contents path = contents' path :=
    hdetails path (List.mem_filterMap.2 ⟨e.2, List.mem_map_of_mem he, hpath⟩)
  rw [layDetails, layDetails]
  cases hpath : detailPath schema e.2 with
  | none => rfl
  | some path => simp only [hsame path hpath]

end EventSchema.Catalog

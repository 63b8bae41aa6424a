import EventSchema.Catalog.Error
import EventSchema.Table
import EventSchema.Text.LineEnd

/-!
# Schema files and items

The files of a schema tree are JSON objects. The folders of a schema hold one item per file, at any
depth; an item goes by the `name` it states, not by the name of its file. Files are visited in the
order of their paths, compared part by part.
-/

namespace EventSchema.Catalog

/-- The members of the object in a file. -/
def readObject (tree : FileTree) (path : Path) : Except CatalogError (Entries Json) :=
  match tree.textAt path with
  | .error e => .error (.file e)
  | .ok text =>
    match Json.read (String.ofList (Text.unifyLineEnds text.toList)) with
    | .error e => .error (.document e)
    | .ok (.obj members) => .ok members
    | .ok v => .error (.objectFileExpected v path)

/-- An item of a folder: the file it comes from, its name, and its members. -/
structure Item where
  /-- The path of the file. -/
  path : Path
  /-- The name. -/
  name : String
  /-- The members. -/
  members : Entries Json

/-- The paths of the files below a folder whose names end in `.json`, in order. A folder that is
missing has none. -/
def itemPaths (tree : FileTree) (folder : Path) : List Path :=
  let found : List Path :=
    match tree.locate folder with
    | .ok (_, some node) =>
      node.files.filterMap fun f =>
        if f.1 ≠ [] ∧ (f.1.getLastD "").endsWith ".json" then
          some ⟨folder.root, folder.parts ++ f.1⟩
        else none
    | _ => []
  found.mergeSort Path.le

/-- Read one item. -/
def readItem (tree : FileTree) (folder : String) (path : Path) : Except CatalogError Item := do
  let members ← readObject tree path
  let name := (members.get? "name").getD .null
  if name.isGiven then
    match name with
    | .str name => .ok ⟨path, name, members⟩
    | found => .error (.nameNotText folder found path)
  else .error (.nameMissing folder path)

/-- The caption of an item as messages give it. -/
def captionOf (members : Entries Json) : Json := (members.get? "caption").getD (.str "")

/-- Read items one after another. No two may have one name. -/
def readItemsFrom (tree : FileTree) (folder : String) (read : List Item) :
    List Path → Except CatalogError (List Item)
  | [] => .ok read
  | path :: paths => do
    let item ← readItem tree folder path
    match read.find? fun other => other.name = item.name with
    | some other =>
      .error (.nameCollision folder item.name (captionOf item.members) (captionOf other.members)
        path)
    | none => readItemsFrom tree folder (read ++ [item]) paths

/-- Read the items of a folder of a schema. -/
def readItems (tree : FileTree) (schema : Path) (folder : String) :
    Except CatalogError (List Item) :=
  readItemsFrom tree folder [] (itemPaths tree (schema.child folder))

/-! ### Visits -/

/-- Read items one after another and show each to a visitor as soon as it is read. What the visitor
has come to stays, also if an item after it cannot be read. -/
def visitItemsFrom {σ : Type} (visit : Path → Entries Json → σ → σ)
    (tree : FileTree) (folder : String) (read : List Item) (state : σ) :
    List Path → Except CatalogError (List Item) × σ
  | [] => (.ok read, state)
  | path :: paths =>
    match readItem tree folder path with
    | .error e => (.error e, state)
    | .ok item =>
      match read.find? fun other => other.name = item.name with
      | some other =>
        (.error (.nameCollision folder item.name (captionOf item.members)
          (captionOf other.members) path), state)
      | none =>
        visitItemsFrom visit tree folder (read ++ [item]) (visit path item.members state) paths

/-- The paths that are visited below a place. Nothing is known of what lies below an absolute
path. -/
def visitedPaths (tree : FileTree) (place : Path) : List Path :=
  if place.root = "" then itemPaths tree place else []

/-- Read the items of a folder that is given as a path from the schema, and show each to a
visitor. -/
def visitItems {σ : Type} (visit : Path → Entries Json → σ → σ) (tree : FileTree) (schema : Path)
    (folder : String) (state : σ) : Except CatalogError (List Item) × σ :=
  let place := schema.joinText folder
  if place.hasZero then (.error (.file (.about place .zeroCharacter)), state)
  else visitItemsFrom visit tree folder [] state (visitedPaths tree place)

end EventSchema.Catalog

import EventSchema.FileTree.Basic
import EventSchema.Json.Reader
import EventSchema.Shape

/-!
# Faults of schema trees

Every reason for which a schema tree is refused, with the wording that is reported.
-/

namespace EventSchema

/-- Why a schema tree cannot be read. -/
inductive CatalogError where
  /-- There is no directory at the path of the schema. -/
  | treeMissing (path : Path)
  /-- A file cannot be read. -/
  | file (e : FileError)
  /-- A file is no JSON document. -/
  | document (e : Json.SyntaxError)
  /-- A file holds a JSON value that is no object. -/
  | objectFileExpected (found : Json) (path : Path)
  /-- There is no version file. -/
  | versionFileMissing (path : Path)
  /-- The version file states no version. -/
  | versionMissing (path : Path)
  /-- An item has no name. -/
  | nameMissing (folder : String) (path : Path)
  /-- The name of an item is no text. -/
  | nameNotText (folder : String) (found : Json) (path : Path)
  /-- Two items of a folder have one name. -/
  | nameCollision (folder name : String) (caption standing : Json) (path : Path)
  /-- A part of the schema that must be an object is none. -/
  | objectExpected (place : String) (found : Json)
  /-- A category has no integer identifier. -/
  | categoryUid (category : String) (found : Json)
  /-- What is to be included among the attributes of an item is neither a text nor an array. -/
  | includesNotTexts (place : String) (found : Json)
  /-- What is to be included in an attribute is no text. -/
  | includeNotText (place : String) (found : Json)
  /-- An included file does not exist. -/
  | includeMissing (place : String) (path : Path)
  /-- An included profile has no name. -/
  | profileNameMissing (place : String)
  /-- There is a profile for dates and times but no type for them. -/
  | datetimeTypeMissing
  /-- There is a type for dates and times but no profile for them. -/
  | datetimeProfileMissing
  /-- Whether an entity is closed is not said by a truth value. -/
  | closedNotBoolean (place : String) (found : Json)
  /-- The ancestor of an entity is no text. -/
  | extendsNotText (place : String) (found : Json)
  /-- The identifier of an event class is no integer. -/
  | uidNotInteger (place : String) (found : Json)
  /-- An attribute of an entity is no object. -/
  | attributeNotObject (place attr : String) (found : Json)
  /-- An attribute is not in the dictionary. -/
  | attributeUndefined (place attr : String)
  /-- An attribute has no type. -/
  | typeMissing (place attr : String)
  /-- An attribute that refers to an object does not say to which. -/
  | targetMissing (place attr : String)
  /-- An attribute refers to an object that is not defined. -/
  | targetUndefined (place attr : String) (found : Json)
  /-- A value is of the wrong shape. -/
  | shape (e : ShapeError)

namespace CatalogError

/-- The message of a fault. -/
def message : CatalogError → String
  | .treeMissing path => s!"Schema path does not exist: {path.text}"
  | .file e => e.message
  | .document e => e.message
  | .objectFileExpected found path =>
    s!"Schema file contains a JSON {found.kindText} value, but should contain an object: " ++
      path.text
  | .versionFileMissing path =>
    s!"Schema version file does not exist (is this a schema directory?): {path.text}"
  | .versionMissing path =>
    s!"The \"version\" key is missing in the schema version file: {path.text}"
  | .nameMissing folder path =>
    s!"The \"name\" value in {folder} file must have a value: {path.text}"
  | .nameNotText folder found path =>
    s!"The \"name\" value in {folder} file must be a string, but got {found.kindText}: {path.text}"
  | .nameCollision folder name caption standing path =>
    s!"Collision of \"name\" in {folder} file: \"{name}\" with caption \"{caption.display}\","
      ++ s!" collides with {folder} with caption \"{standing.display}\", file: {path.text}"
  | .objectExpected place found => s!"{place} must be an object but got {found.kindText}"
  | .categoryUid category found =>
    s!"Category \"{category}\" \"uid\" must be an integer but got {found.kindText}"
  | .includesNotTexts place found =>
    s!"Illegal {place} value type: expected string or array (list), but got {found.kindText}"
  | .includeNotText place found =>
    s!"Illegal {place} value type: expected string, but got {found.kindText}"
  | .includeMissing place path => s!"{place} file does not exist: {path.text}"
  | .profileNameMissing place => s!"Profile \"name\" is missing in {place}"
  | .datetimeTypeMissing =>
    "Schema defines \"datetime\" profile but does not define \"datetime_t\" dictionary type"
  | .datetimeProfileMissing =>
    "Schema defines \"datetime_t\" dictionary type but does not define \"datetime\" profile"
  | .closedNotBoolean place found =>
    s!"{place} \"closed\" must be a boolean but got {found.kindText}"
  | .extendsNotText place found =>
    s!"{place} \"extends\" must be a string but got {found.kindText}"
  | .uidNotInteger place found => s!"{place} \"uid\" must be an integer but got {found.kindText}"
  | .attributeNotObject place attr found =>
    s!"{place} attribute \"{attr}\" must be an object but got {found.kindText}"
  | .attributeUndefined place attr => s!"{place} uses undefined attribute \"{attr}\""
  | .typeMissing place attr => s!"{place} attribute \"{attr}\" does not define \"type\""
  | .targetMissing place attr =>
    s!"{place} attribute \"{attr}\" has type \"object_t\" but no \"object_type\""
  | .targetUndefined place attr found =>
    s!"{place} attribute \"{attr}\" uses undefined object \"{found.display}\""
  | .shape e => e.message

end CatalogError

end EventSchema

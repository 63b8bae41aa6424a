import EventSchema.Json.Printer
import EventSchema.Text.CaseMapping
import EventSchema.Text.Digit

/-!
# Sibling fields of payloads

An event carries an enumerated value twice: as a number in one field and as a label in its sibling.
Before an event is checked the two are made to agree (`SiblingPair.reconcile`). A field that is
missing is filled in from the other; a label is put into its usual spelling; a number and a label
that contradict each other are refused. The number for *other* stands for whatever its label says,
so the label is kept.
-/

namespace EventSchema

/-- The members of a payload, in their order. -/
abbrev Payload := Entries Json

/-- The value of a field, null if it is missing. -/
def Payload.value (data : Payload) (key : String) : Json := (Entries.get? data key).getD .null

/-! ### Labels -/

/-- The labels of numbers, every number once. -/
structure LabelMap where
  /-- The numbers with their labels, in order. -/
  entries : List (Int × String)
  /-- Every number stands once. -/
  nodup : (entries.map Prod.fst).Nodup

namespace LabelMap

/-- Give a number a label: where the number stands if it is there, at the end if it is new. -/
def putEntry (n : Int) (label : String) : List (Int × String) → List (Int × String)
  | [] => [(n, label)]
  | e :: es => if e.1 = n then (n, label) :: es else e :: putEntry n label es

theorem mem_map_putEntry {n m : Int} {label : String} {es : List (Int × String)} :
    m ∈ (putEntry n label es).map Prod.fst ↔ m = n ∨ m ∈ es.map Prod.fst := by
  induction es with
  | nil => simp [putEntry]
  | cons e es ih =>
    unfold putEntry
    split
    · next h => simp [← h]
    · rw [List.map_cons, List.map_cons, List.mem_cons, List.mem_cons, ih]
      exact or_left_comm

theorem nodup_putEntry {es : List (Int × String)} (h : (es.map Prod.fst).Nodup) (n : Int)
    (label : String) : ((putEntry n label es).map Prod.fst).Nodup := by
  induction es with
  | nil => simp [putEntry]
  | cons e es ih =>
    rw [List.map_cons, List.nodup_cons] at h
    unfold putEntry
    split
    · next he =>
      rw [List.map_cons, List.nodup_cons]
      exact ⟨he ▸ h.1, h.2⟩
    · next he =>
      rw [List.map_cons, List.nodup_cons]
      refine ⟨fun hm => ?_, ih h.2⟩
      rcases mem_map_putEntry.1 hm with hm | hm
      · exact he hm
      · exact h.1 hm

/-- Give a number a label. -/
def put (t : LabelMap) (n : Int) (label : String) : LabelMap :=
  ⟨putEntry n label t.entries, nodup_putEntry t.nodup n label⟩

/-- No labels. -/
def empty : LabelMap := ⟨[], by simp⟩

instance : Inhabited LabelMap := ⟨empty⟩

/-- The labels of a list: a repeated number keeps its first place and takes its last label. -/
def ofList (es : List (Int × String)) : LabelMap := es.foldl (fun t e => t.put e.1 e.2) empty

/-- The label of a number. -/
def labelFor (t : LabelMap) (n : Int) : Option String := t.entries.lookup n

/-- The first number whose label is the given text up to case. -/
def idFor (t : LabelMap) (label : String) : Option Int :=
  (t.entries.find? fun e => Text.foldCase e.2 = Text.foldCase label).map Prod.fst

end LabelMap

/-! ### Pairs -/

/-- Two fields that carry the number and the label of one value. -/
structure SiblingPair where
  /-- The field of the number. -/
  idField : String
  /-- The field of the label. -/
  labelField : String
  /-- The labels. -/
  labels : LabelMap
  deriving Inhabited

/-- Why a payload cannot be reconciled. -/
inductive PayloadError where
  /-- The label is not that of the number. -/
  | labelMismatch (pair : SiblingPair) (id : Int) (expected : String) (found : Json)

namespace PayloadError

/-- The message of a failure. -/
def message : PayloadError → String
  | .labelMismatch pair id expected found =>
    s!"{pair.idField}={id} ({expected}) does not match {pair.labelField}={found.shown}"

end PayloadError

/-- The number for values that no other number stands for. -/
def otherId : Int := 99

/-- The integer that a value is or, if it is a text, spells. -/
def Json.asInteger? : Json → Option Int
  | .int n => some n
  | .str s => Text.readInteger? s
  | _ => none

/-- Whether a field is given as a label: null and the empty text do not count. -/
def Json.isLabel (v : Json) : Bool := !v.isNull && !v.isText ""

namespace SiblingPair

/-- Whether a text is a label up to case. -/
def agrees (expected : String) (found : Json) : Bool :=
  Text.foldCase expected == Text.foldCase found.display

/-- Make a payload agree that gives the number as well as the label. -/
def reconcileBoth (p : SiblingPair) (data : Payload) (id label : Json) :
    Except PayloadError Payload :=
  match id.asInteger? with
  | none => .ok data
  | some n =>
    if n = otherId then .ok (data.put p.idField (.int otherId))
    else
      match p.labels.labelFor n with
      | none => .ok data
      | some expected =>
        if agrees expected label then .ok (data.put p.labelField (.str expected))
        else .error (.labelMismatch p n expected label)

/-- Fill in the label of a number, if it has one. -/
def fillLabel (p : SiblingPair) (data : Payload) (id : Json) : Payload :=
  match id.asInteger?.bind p.labels.labelFor with
  | some label => data.put p.labelField (.str label)
  | none => data

/-- Fill in the number of a label. A label that is not known is that of another value. -/
def fillId (p : SiblingPair) (data : Payload) (label : Json) : Payload :=
  match p.labels.idFor label.display with
  | some n =>
    let data := data.put p.idField (.int n)
    match p.labels.labelFor n with
    | some usual => data.put p.labelField (.str usual)
    | none => data
  | none => data.put p.idField (.int otherId)

/-- Make the two fields of a pair agree. -/
def reconcile (p : SiblingPair) (data : Payload) : Except PayloadError Payload :=
  let id := data.value p.idField
  let label := data.value p.labelField
  match !id.isNull, label.isLabel with
  | true, true => p.reconcileBoth data id label
  | true, false => .ok (p.fillLabel data id)
  | false, true => .ok (p.fillId data label)
  | false, false => .ok data

end SiblingPair

/-- Make the fields of all pairs agree, one pair after another. -/
def Payload.reconcile (pairs : List SiblingPair) (data : Payload) : Except PayloadError Payload :=
  pairs.foldlM (fun data p => p.reconcile data) data

end EventSchema

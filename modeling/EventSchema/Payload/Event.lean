import EventSchema.Payload.Check
import EventSchema.Payload.Prefill

/-!
# Checking events

Before the payload of an event is checked, its sibling fields are made to agree and the identifiers
that follow from the event class are filled in. What was filled in is then checked like everything
else.
-/

namespace EventSchema

/-- How events of a class are checked. -/
structure EventModel where
  /-- What payloads look like. -/
  model : Model
  /-- The identifiers of the class. -/
  config : UidConfig
  /-- The sibling fields. -/
  pairs : List SiblingPair
  deriving Inhabited

/-- The labels of enumerated values. A value has a label if its caption is a text. -/
def LabelMap.ofValues (values : List EnumValue) : LabelMap :=
  .ofList (values.filterMap fun v => v.caption.text?.map fun caption => (v.value, caption))

/-- The pair of a labelled attribute, which finds its labels by the name of their table. -/
def SiblingPair.ofLabelled (tables : Table (List EnumValue)) (a : Package.LabelledAttribute) :
    SiblingPair :=
  ⟨a.name, a.sibling, .ofValues ((tables.get? a.labelsName).getD [])⟩

namespace EventModel

/-- The model of an event class. -/
def ofEntity (e : Entity) : Except ShapeError EventModel := do
  let labelled ← Package.labelledAttributes e
  .ok ⟨.ofEntity e, ⟨e.categoryUid, .number e.classUid⟩,
    labelled.map (SiblingPair.ofLabelled (Package.captionTables labelled))⟩

/-- What is done to a payload before it is checked. -/
def prepare (m : EventModel) (data : Payload) : Except PayloadError Payload :=
  (data.reconcile m.pairs).map (Payload.prefill m.config)

/-- Check any value as an event, by a validator. Only objects can be prepared. -/
def checkBy (m : EventModel) (V : Validator) (models : Table Model) (v : Json) : Payload.Checked :=
  match v with
  | .obj data =>
    match m.prepare data with
    | .ok data => V.checkModel models m.model (.obj data)
    | .error e => .error (Payload.problem (.contradiction e))
  | v => V.checkModel models m.model v

/-- Check any value as an event. -/
def check (models : Table Model) (m : EventModel) (v : Json) : Payload.Checked :=
  m.checkBy Payload.validator models v

end EventModel

/-- The models of the objects of a plan. -/
def Package.Plan.models (p : Package.Plan) : Table Model := p.objects.map Model.ofEntity

end EventSchema

import EventSchema.Definition
import EventSchema.Payload.Sibling

/-!
# Identifiers that follow from the event class

The identifiers of the category and of the class are fixed by the event class, and that of the type
follows from the class and the activity. Where a payload leaves them out they are filled in; what a
payload gives is kept.
-/

namespace EventSchema

/-- The identifiers that an event class fixes. -/
structure UidConfig where
  /-- The identifier of the category. -/
  categoryUid : Uid
  /-- The identifier of the class. -/
  classUid : Uid
  deriving Inhabited

namespace Payload

/-- Give a field a value unless it has one other than null. -/
def putMissing (data : Payload) (key : String) (v : Json) : Payload :=
  if (data.value key).isNull then data.put key v else data

/-- The identifier of the type of an event: that of the class, followed by two digits for the
activity. -/
def typeUid (classUid activity : Int) : Int := classUid * 100 + activity

/-- Fill in the identifier of the type, if the class and the activity are integers. -/
def putTypeUid (data : Payload) : Payload :=
  match data.value "class_uid", data.value "activity_id" with
  | .int classUid, .int activity => data.putMissing "type_uid" (.int (typeUid classUid activity))
  | _, _ => data

/-- Fill in the identifiers that follow from the event class. -/
def prefill (config : UidConfig) (data : Payload) : Payload :=
  putTypeUid ((data.putMissing "category_uid" config.categoryUid.toJson).putMissing "class_uid"
    config.classUid.toJson)

end Payload

end EventSchema

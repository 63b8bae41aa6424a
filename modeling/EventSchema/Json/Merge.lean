import EventSchema.Json.Basic

/-!
# Merging objects

Laying one object over another: members that are objects on both sides are merged in turn, any other
member of the upper object takes the place of the lower one or is added at the end. Arrays are
values like any other. A value that is no object leaves an object as it is and is left as it is.
-/

namespace EventSchema.Json

mutual

/-- Lay the second value over the first. -/
def merge : Json → Json → Json
  | .obj lower, .obj upper => .obj (mergeMembers lower upper)
  | lower, _ => lower

/-- Lay members over members, one after another. -/
def mergeMembers (lower : List (String × Json)) : List (String × Json) → List (String × Json)
  | [] => lower
  | (n, v) :: upper =>
    mergeMembers
      (match Entries.get? lower n, v with
        | some (.obj below), .obj above => Entries.put lower n (.obj (mergeMembers below above))
        | _, v => Entries.put lower n v)
      upper

end

end EventSchema.Json

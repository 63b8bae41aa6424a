import EventSchema.Json.Basic

/-!
# Shared details

While includes are resolved, an object among the annotations of a file is *one* object wherever it
goes: every attribute that takes it from the file holds the same object, and details that are merged
into it in one place show in all of them, in the file too.

Such objects live in a pool. A detail is a plain value, an object of its own, or one of the pool;
the members of an object in the pool are plain values or again objects of the pool. Merging an
object of its own leaves the pool as it is unless it reaches one of the pool. A document without
objects among its annotations never puts anything into the pool, and merging is then that of JSON
values.
-/

namespace EventSchema.Catalog

/-- A value among the details of attributes. -/
inductive Detail where
  /-- A value that is no object. -/
  | plain (v : Json)
  /-- An object of its own. -/
  | own (members : List (String × Detail))
  /-- An object of the pool. -/
  | shared (cell : Nat)
  deriving Inhabited

/-- The shared objects, by number. -/
abbrev Pool := List (Entries Detail)

namespace Detail

mutual

/-- A JSON value with all its objects its own. -/
def ofJson : Json → Detail
  | .obj members => .own (ofMembers members)
  | v => .plain v

/-- The members of a JSON object with all objects their own. -/
def ofMembers : List (String × Json) → List (String × Detail)
  | [] => []
  | (n, v) :: ms => (n, ofJson v) :: ofMembers ms

end

/-- Whether a detail is an object. -/
def isObject : Detail → Bool
  | .plain _ => false
  | _ => true

/-- The members of an object. -/
def members (pool : Pool) : Detail → Entries Detail
  | .plain _ => []
  | .own ms => ms
  | .shared cell => pool.getD cell []

mutual

/-- How deep the objects of its own are nested. -/
def depth : Detail → Nat
  | .own ms => depthOfMembers ms + 1
  | _ => 0

/-- How deep the objects are nested in the values of members. -/
def depthOfMembers : List (String × Detail) → Nat
  | [] => 0
  | (_, d) :: ms => max (depth d) (depthOfMembers ms)

end

mutual

/-- Move a detail with all its objects into the pool. -/
def share : Detail → StateM Pool Detail
  | .own ms => do
    let shared ← shareMembers ms
    modifyGet fun pool => (.shared pool.length, pool ++ [shared])
  | d => pure d

/-- Move the values of members with all their objects into the pool. -/
def shareMembers : List (String × Detail) → StateM Pool (List (String × Detail))
  | [] => pure []
  | (n, d) :: ms => do
    let d ← share d
    let ms ← shareMembers ms
    pure ((n, d) :: ms)

end

/-- Lay one object over another. Members that are objects on both sides are merged in turn; any
other member of the upper object takes the place of the lower one or is added at the end. What comes
to stand in a shared object becomes shared. A detail that is no object is left as it is. -/
def overlay : (fuel : Nat) → Detail → Detail → StateM Pool Detail
  | 0, lower, _ => pure lower
  | fuel + 1, lower, upper => do
    let ms := upper.members (← get)
    match lower with
    | .plain v => pure (.plain v)
    | .own lower =>
      if upper.isObject then
        let merged ← ms.foldlM (fun lower (n, above) => do
          match Entries.get? lower n with
          | some below =>
            if below.isObject && above.isObject then
              return Entries.put lower n (← overlay fuel below above)
            else return Entries.put lower n above
          | none => return Entries.put lower n above) lower
        return .own merged
      else pure (.own lower)
    | .shared cell =>
      if upper.isObject then
        ms.forM fun (n, above) => do
          match Entries.get? (Detail.members (← get) (.shared cell)) n with
          | some below =>
            if below.isObject && above.isObject then discard (overlay fuel below above)
            else
              let above ← share above
              modify fun pool => pool.modify cell (Entries.put · n above)
          | none =>
            let above ← share above
            modify fun pool => pool.modify cell (Entries.put · n above)
      pure (.shared cell)

/-- Enough fuel for merging under a pool: objects nest no deeper than the upper one does by itself
and through the pool. -/
def mergeFuel (pool : Pool) (upper : Detail) : Nat := upper.depth + pool.length + 1

/-- Lay one detail over another. -/
def merge (lower upper : Detail) : StateM Pool Detail := do
  overlay (mergeFuel (← get) upper) lower upper

/-- The JSON value of a detail. Objects of the pool are followed as deep as the fuel allows. -/
def freezeWith (pool : Pool) : (fuel : Nat) → Detail → Json
  | _, .plain v => v
  | 0, _ => .null
  | fuel + 1, .own ms => .obj (ms.map fun m => (m.1, freezeWith pool fuel m.2))
  | fuel + 1,
    .shared cell => .obj ((pool.getD cell []).map fun m => (m.1, freezeWith pool fuel m.2))

/-- The JSON value of a detail. -/
def freeze (pool : Pool) (d : Detail) : Json := freezeWith pool (mergeFuel pool d) d

end Detail

end EventSchema.Catalog

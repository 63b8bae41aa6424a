import EventSchema.Catalog.Reading
import EventSchema.Deferral
import EventSchema.Proofs.Computation

/-!
# What was reported before

Reading a catalog, working out inheritance and deferring references report lines and do not look at
those that are there already (`appends_read`, `appends_resolve`, `appends_defer`). So what comes of
a schema tree depends on the tree alone, whatever was done in the run before.

While includes are resolved the included files are remembered as well. `AppendsWith` is the same
property of steps that do so.
-/

namespace EventSchema

open Catalog Reporting

/-! ### Steps that remember included files -/

/-- A step that may read included files does not look at what was reported before. -/
def AppendsWith {α : Type} (x : InclusionM α) : Prop := ∀ s : Includes, Appends (x.run s)

namespace AppendsWith

variable {α β : Type} {x : InclusionM α} {f : α → InclusionM β}

theorem pure (a : α) : AppendsWith (Pure.pure a) := fun s ↦ Appends.pure (a, s)

theorem fail (e : CatalogError) : AppendsWith (InclusionM.fail e : InclusionM α) :=
  fun _ ↦ Appends.throw e

theorem get : AppendsWith (MonadState.get : InclusionM Includes) := fun s ↦ Appends.pure (s, s)

theorem modify (g : Includes → Includes) : AppendsWith (modifyThe Includes g : InclusionM Unit) :=
  fun s ↦ Appends.pure ((), g s)

/-- Shared objects are dealt with in silence. -/
theorem onPool (y : StateM Pool α) : AppendsWith (InclusionM.onPool y) := fun _ ↦ Appends.pure _

/-- A warning is added to what was reported. -/
theorem warn (text : String) : AppendsWith (InclusionM.warn text) := fun s ↦
  (Appends.report .warning text).bind fun a ↦ Appends.pure (a, s)

/-- A result adds nothing. -/
theorem lift (r : Except CatalogError α) :
    AppendsWith (liftM (Reporting.ofExcept r) : InclusionM α) := fun s ↦
  (Appends.ofExcept r).bind fun a ↦ Appends.pure (a, s)

/-- One step after another only adds to the report if both do. -/
theorem bind (hx : AppendsWith x) (hf : ∀ a, AppendsWith (f a)) : AppendsWith (x >>= f) := fun s ↦
  (hx s).bind fun a ↦ hf a.1 a.2

/-- Steps in a row only add to the report if each of them does. -/
theorem mapM {f : α → InclusionM β} (hf : ∀ a, AppendsWith (f a)) (as : List α) :
    AppendsWith (as.mapM f) := by
  induction as with
  | nil => exact .pure []
  | cons a as ih =>
    rw [List.mapM_cons]
    exact (hf a).bind fun b ↦ ih.bind fun bs ↦ .pure (b :: bs)

/-- Steps in a row without results only add to the report if each of them does. -/
theorem forM {f : α → InclusionM PUnit} (hf : ∀ a, AppendsWith (f a)) (as : List α) :
    AppendsWith (as.forM f) := by
  induction as with
  | nil => exact .pure PUnit.unit
  | cons a as ih => exact (hf a).bind fun _ ↦ ih

end AppendsWith

/-! ### Includes -/

theorem appends_remember (path : Path) (members : Entries Json) :
    AppendsWith (remember path members) := by
  have hadd : ∀ file : IncludedFile, AppendsWith (do
      modifyThe Includes fun s ↦ { s with files := s.files ++ [file] }
      Pure.pure file) := fun file ↦ (AppendsWith.modify _).bind fun _ ↦ .pure file
  unfold remember
  generalize (members.get? "annotations").getD (.obj []) = annotated
  cases annotated with
  | obj ms => exact (AppendsWith.onPool _).bind fun _ ↦ (AppendsWith.pure _).bind fun _ ↦ hadd _
  | _ => exact (AppendsWith.pure none).bind fun _ ↦ hadd _

/-- Including a file only adds to the report. -/
theorem appends_included (tree : FileTree) (place : String) (path : Path) :
    AppendsWith (included tree place path) := by
  refine AppendsWith.get.bind fun s ↦ ?_
  split
  · exact .pure _
  · split
    · exact appends_remember _ _
    · split
      · exact .fail _
      · exact .fail _
    · exact .fail _

/-- Including an attribute only adds to the report. -/
theorem appends_includeAttribute (file : IncludedFile) (profile : Json) (own : Entries Detail)
    (name : String) (value : Json) :
    AppendsWith (includeAttribute file profile own name value) := by
  refine (AppendsWith.lift _).bind fun detail ↦ ?_
  split
  · exact .onPool _
  · split
    · exact .lift _
    · exact .pure _

/-- Including the attributes of a file only adds to the report. -/
theorem appends_includeFile (tree : FileTree) (place : String)
    (path : Path) (own : Entries Detail) :
    AppendsWith (includeFile tree place path own) := by
  refine (appends_included tree place path).bind fun file ↦ ?_
  split
  · exact (AppendsWith.warn _).bind fun _ ↦ .pure _
  · refine (AppendsWith.lift _).bind fun profile ↦
      (AppendsWith.mapM (fun e ↦ ?_) _).bind fun _ ↦ .pure _
    exact (appends_includeAttribute _ _ _ _ _).bind fun _ ↦ .pure _
  · exact .fail _

/-- Including the attributes of several files only adds to the report. -/
theorem appends_includeFiles (tree : FileTree) (schema : Path) (place : String) (paths : List Json)
    (own : Entries Detail) : AppendsWith (includeFiles tree schema place paths own) := by
  induction paths generalizing own with
  | nil => exact .pure own
  | cons path paths ih =>
    cases path with
    | str s => exact (appends_includeFile _ _ _ _).bind fun next ↦ ih next
    | _ => exact .fail _

/-- Including the details of an attribute only adds to the report. -/
theorem appends_includeDetails (tree : FileTree) (schema : Path) (place name : String)
    (detail : Detail) : AppendsWith (includeDetails tree schema place name detail) := by
  unfold includeDetails
  split
  · split
    · exact .pure _
    · refine AppendsWith.get.bind fun s ↦ ?_
      split
      · exact (appends_included _ _ _).bind fun _ ↦ .onPool _
      · exact .fail _
  · exact .pure _

/-- Resolving the includes of an item only adds to the report. -/
theorem appends_resolveItem (tree : FileTree) (schema : Path) (place : String) (item : Item) :
    AppendsWith (resolveItem tree schema place item) := by
  have hdetails : ∀ own : Entries Detail, AppendsWith (own.mapM fun (e : String × Detail) ↦ do
      Pure.pure (e.1, ← includeDetails tree schema place e.1 e.2)) := fun own ↦
    .mapM (fun e ↦ (appends_includeDetails _ _ _ _ _).bind fun _ ↦ .pure _) own
  unfold resolveItem
  split
  · split
    · exact hdetails _
    · exact (AppendsWith.lift _).bind fun paths ↦
        (appends_includeFiles _ _ _ _ _).bind fun own ↦ hdetails own
  · exact .fail _

/-- Resolving all includes only adds to the report. -/
theorem appends_resolveIncludes (tree : FileTree) (schema : Path)
    (profiles events objects : List Item) :
    Appends (resolveIncludes tree schema profiles events objects) := by
  have hitems :
      ∀ (word : String) (items : List Item), AppendsWith (items.mapM fun (item : Item) ↦ do
      Pure.pure (item, ← resolveItem tree schema s!"{word} \"{item.name}\"" item)) :=
    fun word items ↦
    .mapM (fun item ↦ (appends_resolveItem _ _ _ _).bind fun _ ↦ .pure _) items
  refine Appends.bind ?_ fun found ↦ .pure _
  refine ((AppendsWith.forM (fun item ↦ (appends_remember _ _).bind fun _ ↦ .pure _) profiles).bind
    fun _ ↦ (hitems "class" events).bind fun _ ↦ (hitems "object" objects).bind
      fun _ ↦ .pure _) ⟨[], []⟩

/-! ### Reading, inheritance and deferral -/

/-- Reading a tree only adds to the report. -/
theorem appends_read (tree : FileTree) (schema : Path) : Appends (Catalog.read tree schema) := by
  unfold Catalog.read
  refine (Appends.ofExcept _).bind fun present ↦ ?_
  cases present with
  | false => exact .throw_bind _ _
  | true =>
    refine (Appends.report _ _).bind fun _ ↦ ?_
    refine (Appends.ofExcept _).bind fun version ↦ ?_
    refine (Appends.ofExcept _).bind fun categories ↦ ?_
    refine (Appends.ofExcept _).bind fun dictionary ↦ ?_
    refine (Appends.ofExcept _).bind fun attributes ↦ ?_
    refine (Appends.ofExcept _).bind fun parts ↦ ?_
    refine (Appends.ofExcept _).bind fun types ↦ ?_
    refine (Appends.ofExcept _).bind fun events ↦ ?_
    refine (Appends.ofExcept _).bind fun objects ↦ ?_
    refine (Appends.ofExcept _).bind fun profiles ↦ ?_
    refine (appends_resolveIncludes _ _ _ _ _).bind fun found ↦ ?_
    refine (Appends.ofExcept _).bind fun hasDatetime ↦ ?_
    have hrest : ∀ dict : Dictionary, Appends (do
        let objects ← Reporting.ofExcept (readDefinitions dict .object .empty found.2)
        let events ← Reporting.ofExcept (readDefinitions dict .event .empty found.1)
        Reporting.report .info (s!"Read {objects.size} objects, {events.size} event classes, and "
          ++ s!"{attributes.length} dictionary attributes")
        let categories ← Reporting.ofExcept (readCategories categories)
        let enums ← Reporting.ofExcept (readSharedEnums attributes)
        Pure.pure (⟨version, categories, objects, events, enums⟩ : Catalog)) := fun dict ↦
      (Appends.ofExcept _).bind fun _ ↦ (Appends.ofExcept _).bind fun _ ↦
        (Appends.report _ _).bind fun _ ↦ (Appends.ofExcept _).bind fun _ ↦
          (Appends.ofExcept _).bind fun _ ↦ .pure _
    -- with companions one more line is reported
    cases hasDatetime with
    | false => exact hrest _
    | true => exact (Appends.report _ _).bind fun _ ↦ hrest _

/-- Resolving names one after another only adds to the report. -/
theorem appends_resolveNames (definitions : Table Definition) (categories : Table Uid)
    (known : ResolvedEntities) (names : List String) :
    Appends (resolveNames definitions categories known names) := by
  induction names generalizing known with
  | nil => exact .pure known
  | cons name names ih =>
    refine Appends.bind ?_ fun next ↦ ih next.2
    unfold resolve
    split
    · exact .pure _
    · exact (Appends.ofExcept _).bind fun _ ↦ (Appends.report _ _).bind fun _ ↦ .pure _

/-- Resolving a catalog only adds to the report. -/
theorem appends_resolve (c : Catalog) : Appends c.resolve :=
  (appends_resolveNames _ _ _ _).bind fun _ ↦ (appends_resolveNames _ _ _ _).bind fun _ ↦
    (Appends.report _ _).bind fun _ ↦ .pure _

/-- Deferring one component after another only adds to the report. -/
theorem appends_deferComponents (g : ReferenceGraph) (d : Deferral)
    (components : List (List String)) :
    Appends (g.deferComponents d components) := by
  induction components generalizing d with
  | nil => exact .pure d
  | cons component components ih =>
    refine (Appends.ofExcept _).bind fun refs ↦ ?_
    split
    · exact ih d
    · exact (Appends.ofExcept _).bind fun _ ↦ (Appends.report _ _).bind fun _ ↦ ih _

/-- Deferring references only adds to the report. -/
theorem appends_defer (g : ReferenceGraph) : Appends g.defer := by
  refine (appends_deferComponents _ _ _).bind fun d ↦ ?_
  cases (g.cyclesWithout d.pairs).isEmpty with
  | false => exact .throw_bind _ _
  | true => exact (Appends.report _ _).bind fun _ ↦ .pure _

end EventSchema

import EventSchema.Proofs.Catalog.Documents
import EventSchema.Proofs.Deferral.Outcome
import EventSchema.Proofs.Json.Merging
import EventSchema.Proofs.Package.Closure
import EventSchema.Proofs.Package.Queue

/-!
# The order of planned objects

The references of planned objects are references of the whole schema, so what was deferred for the
schema leaves no circle among them (`cyclesWithout_planned`). Without circles some object that is
not placed yet needs none of its like, and placing goes on until every object has its place
(`length_placeInOrder`).

What can still stop a plan is names alone: two modules, enumerations or exported classes of one
name, or a class with a name that is reserved (`plan_of_targetsDefined`). With what reading and
inheritance guarantee this says how every catalog that was read and resolved is planned
(`plan_of_read`).
-/

namespace EventSchema.Package

open Relation

variable {objects : Table Entity} {schema : Schema} {d : Deferral}

/-! ### Placing -/

/-- Without circles, placing leaves nothing out. -/
theorem length_placeInOrder {needs : String → List String} {nodes : List String}
    (hneeds : ∀ v ∈ nodes, ∀ w ∈ needs v, w ∈ nodes)
    (hacyclic : ∀ v, ¬ TransGen (fun v w ↦ w ∈ needs v) v v) {fuel : Nat}
    {placed remaining : List String} (hfuel : remaining.length = fuel)
    (hplaced : ∀ v ∈ nodes, v ∈ placed ∨ v ∈ remaining) (hremaining : ∀ v ∈ remaining, v ∈ nodes) :
    (placeInOrder needs fuel placed remaining).length = fuel := by
  induction fuel generalizing placed remaining with
  | zero => rfl
  | succ fuel ih =>
    have hne : remaining ≠ [] := List.ne_nil_of_length_eq_add_one hfuel
    -- a name that needs none of the remaining ones can be placed, so some name is found
    obtain ⟨v, hv, hlast⟩ := exists_last_of_noCycle hacyclic hne
    have hready : (needs v).all placed.contains = true := List.all_eq_true.2 fun w hw ↦
      List.contains_iff_mem.2 ((hplaced w (hneeds v (hremaining v hv) w hw)).resolve_right
        fun hwr ↦ hlast w hwr hw)
    obtain ⟨name, hfind⟩ := Option.isSome_iff_exists.1
      (List.find?_isSome.2 ⟨v, hv, hready⟩ :
        (remaining.find? fun name ↦ (needs name).all placed.contains).isSome = true)
    have hname : name ∈ remaining := List.mem_of_find?_eq_some hfind
    rw [placeInOrder, hfind, List.length_cons]
    refine congrArg (· + 1)
      (ih ?_ (fun w hw ↦ ?_) fun w hw ↦ hremaining w (List.mem_of_mem_erase hw))
    · rw [List.length_erase_of_mem hname, hfuel, Nat.add_sub_cancel]
    · by_cases hwn : w = name
      · exact .inl (hwn ▸ List.mem_cons_self)
      · exact (hplaced w hw).imp (List.mem_cons_of_mem _) (List.mem_erase_of_ne hwn).2

/-- What was placed is what was to be placed, each after all that it needs. -/
theorem placeInOrder_ordered {needs : String → List String} {fuel : Nat}
    {placed remaining : List String} (hremaining : remaining.Nodup) :
    (∀ n ∈ placeInOrder needs fuel placed remaining, n ∈ remaining) ∧
      (placeInOrder needs fuel placed remaining).Nodup ∧
      ∀ n ∈ placeInOrder needs fuel placed remaining, ∀ w ∈ needs n,
        w ∈ placed ∨ [w, n].Sublist (placeInOrder needs fuel placed remaining) := by
  induction fuel generalizing placed remaining with
  | zero =>
    exact ⟨fun n hn ↦ absurd hn List.not_mem_nil, .nil, fun n hn ↦ absurd hn List.not_mem_nil⟩
  | succ fuel ih =>
    rw [placeInOrder]
    split
    · next name hfind =>
      have hname : name ∈ remaining := List.mem_of_find?_eq_some hfind
      obtain ⟨hmem, hnodup, hneeds⟩ :=
        @ih (name :: placed) (remaining.erase name) (hremaining.erase name)
      refine ⟨fun n hn ↦ ?_, List.nodup_cons.2 ⟨fun hn ↦ ?_, hnodup⟩, fun n hn w hw ↦ ?_⟩
      · rcases List.mem_cons.1 hn with rfl | hn
        · exact hname
        · exact List.mem_of_mem_erase (hmem n hn)
      · exact hremaining.not_mem_erase (hmem name hn)
      · rcases List.mem_cons.1 hn with rfl | hn
        -- the name that is placed needs only what was placed before it
        · have hready := List.find?_some hfind
          exact .inl (List.contains_iff_mem.1 (List.all_eq_true.1 hready w hw))
        · rcases hneeds n hn w hw with hplaced | hbefore
          · rcases List.mem_cons.1 hplaced with rfl | hplaced
            · exact .inr (List.Sublist.cons_cons _ (List.singleton_sublist.2 hn))
            · exact .inl hplaced
          · exact .inr (hbefore.cons _)
    · exact ⟨fun n hn ↦ absurd hn List.not_mem_nil, .nil, fun n hn ↦ absurd hn List.not_mem_nil⟩

/-! ### The references of planned objects -/

/-- What an object needs at once is what it refers to by a reference that is not deferred, itself
aside. -/
theorem mem_neededAtOnce {graph : ReferenceGraph} {v w : String} :
    w ∈ neededAtOnce graph d v ↔ EagerLink graph.references {p | p ∈ d.pairs} v w ∧ w ≠ v := by
  have hmem : w ∈ ((graph.outgoing? v).getD []).map Reference.target ↔
      ∃ r ∈ graph.references, r.pair = (v, w) := by
    simp only [List.mem_map, Reference.pair, Prod.mk.injEq]
    rcases hv : graph.outgoing? v with _ | refs
    · have hno : ∀ r ∈ graph.references, r.source ≠ v := fun r hr hrv ↦
        ReferenceGraph.outgoing?_eq_none_iff.1 hv (hrv ▸ ReferenceGraph.source_mem_nodes hr)
      simp only [Option.getD_none, List.not_mem_nil, false_and, exists_false, false_iff]
      rintro ⟨r, hr, hrv, -⟩
      exact hno r hr hrv
    · simp only [Option.getD_some, ReferenceGraph.mem_of_outgoing? hv, and_assoc]
  rw [neededAtOnce, List.mem_filter, hmem, EagerLink]
  simp only [Deferral.isDeferred, ne_eq, decide_not, Bool.and_eq_true, Bool.not_eq_true',
    decide_eq_false_iff_not, List.contains_eq_mem, Set.mem_ofPred_eq]
  constructor
  · rintro ⟨⟨r, hr, hp⟩, hwv, hD⟩
    exact ⟨⟨r, hr, hp, hD⟩, hwv⟩
  · rintro ⟨⟨r, hr, hp, hD⟩, hwv⟩
    exact ⟨⟨r, hr, hp⟩, hwv, hD⟩

/-- Planned objects have the links that they have in the schema. -/
theorem eagerLink_of_planned (h : HoldsPlanned schema objects) {D : Set (String × String)}
    {v w : String} (hvw : EagerLink (ReferenceGraph.ofObjects objects).references D v w) :
    EagerLink (ReferenceGraph.ofObjects schema.objects).references D v w := by
  obtain ⟨r, hr, hp, hD⟩ := hvw
  obtain ⟨e, he, hattributes⟩ := ReferenceGraph.mem_references_ofObjects.1 hr
  exact ⟨r,
    ReferenceGraph.mem_references_ofObjects.2 ⟨e, h.get?_schema _ e he, hattributes⟩, hp, hD⟩

/-- What is deferred for a schema leaves no circle among its planned objects. -/
theorem cyclesWithout_planned (h : HoldsPlanned schema objects)
    (hd : (ReferenceGraph.ofObjects schema.objects).cyclesWithout d.pairs = []) :
    (ReferenceGraph.ofObjects objects).cyclesWithout d.pairs = [] := by
  rw [ReferenceGraph.cyclesWithout_eq_nil_iff] at hd ⊢
  exact fun v hv ↦ hd v (TransGen.mono (fun _ _ ↦ eagerLink_of_planned h) _ _ hv)

/-- The objects of a graph stand in ascending order. -/
theorem pairwise_nodes_ofObjects (objects : Table Entity) :
    (ReferenceGraph.ofObjects objects).nodes.Pairwise (· ≤ ·) :=
  List.pairwise_map.2 (Table.pairwise_sorted _)

/-- An order is found if there are no circles and every object is placed, and it is the one in which
the first object that can be placed is placed, again and again. -/
theorem objectOrder_eq_ok_iff {order : List String} : objectOrder objects d = .ok order ↔
    (ReferenceGraph.ofObjects objects).cyclesWithout d.pairs = [] ∧
    order = placeInOrder (neededAtOnce (ReferenceGraph.ofObjects objects) d)
      (ReferenceGraph.ofObjects objects).nodes.length [] (ReferenceGraph.ofObjects objects).nodes ∧
    order.length = (ReferenceGraph.ofObjects objects).nodes.length := by
  have hascending : (ReferenceGraph.ofObjects objects).nodes.Pairwise (· < ·) :=
    (pairwise_nodes_ofObjects objects).imp₂ (fun _ _ ↦ lt_of_le_of_ne)
      (ReferenceGraph.ofObjects objects).table.nodup
  simp only [objectOrder, Queue.order_start hascending le_rfl]
  cases (ReferenceGraph.ofObjects objects).cyclesWithout d.pairs with
  | nil =>
    dsimp only
    split
    · next hlength =>
      refine ⟨fun h ↦ ?_, fun ⟨_, heq, _⟩ ↦ congrArg Except.ok heq.symm⟩
      obtain rfl := Except.ok.inj h
      exact ⟨rfl, rfl, hlength⟩
    · next hlength =>
      refine ⟨nofun, fun ⟨_, heq, hall⟩ ↦ absurd ?_ hlength⟩
      rwa [← heq]
  | cons component components => exact ⟨nofun, fun h ↦ absurd h.1 (List.cons_ne_nil _ _)⟩

/-- Objects without circles have an order. -/
theorem exists_objectOrder (hclosed : (ReferenceGraph.ofObjects objects).Closed)
    (hcycles : (ReferenceGraph.ofObjects objects).cyclesWithout d.pairs = []) :
    ∃ order, objectOrder objects d = .ok order := by
  have hacyclic := ReferenceGraph.cyclesWithout_eq_nil_iff.1 hcycles
  have hneeds : ∀ v ∈ (ReferenceGraph.ofObjects objects).nodes,
      ∀ w ∈ neededAtOnce (ReferenceGraph.ofObjects objects) d v,
        w ∈ (ReferenceGraph.ofObjects objects).nodes := by
    intro v _ w hw
    obtain ⟨⟨r, hr, hp, -⟩, -⟩ := mem_neededAtOnce.1 hw
    exact (Prod.mk.inj hp).2 ▸ hclosed r hr
  have hneedsAcyclic : ∀ v,
      ¬ TransGen (fun v w ↦ w ∈ neededAtOnce (ReferenceGraph.ofObjects objects) d v) v v :=
    fun v hv ↦
    hacyclic v (TransGen.mono (fun _ _ hw ↦ (mem_neededAtOnce.1 hw).1) _ _ hv)
  exact ⟨_, objectOrder_eq_ok_iff.2 ⟨hcycles, rfl,
    length_placeInOrder hneeds hneedsAcyclic rfl (fun v hv ↦ .inr hv) fun _ hv ↦ hv⟩⟩

/-- Without objects there is nothing to order, whatever is deferred. -/
theorem objectOrder_empty (d : Deferral) : objectOrder .empty d = .ok [] := by
  rw [objectOrder, ReferenceGraph.ofObjects_of_ascending .nil]
  rfl

/-- The order holds every object once, each after all that it needs at once. -/
theorem objectOrder_ordered {order : List String} (h : objectOrder objects d = .ok order) :
    order.Perm objects.names ∧ ∀ n ∈ order,
      ∀ w ∈ neededAtOnce (ReferenceGraph.ofObjects objects) d n, [w, n].Sublist order := by
  have hnodes : (ReferenceGraph.ofObjects objects).nodes.Nodup :=
    (ReferenceGraph.ofObjects objects).table.nodup
  have hnames : ∀ n, n ∈ (ReferenceGraph.ofObjects objects).nodes ↔ n ∈ objects.names := fun _ ↦
    ReferenceGraph.mem_nodes_ofObjects
  obtain ⟨-, rfl, hlength⟩ := objectOrder_eq_ok_iff.1 h
  obtain ⟨hmem, hnodup, hneeds⟩ := placeInOrder_ordered hnodes
  -- as many different nodes as there are nodes
  have hperm := (List.subperm_of_subset hnodup hmem).perm_of_length_le hlength.ge
  refine ⟨hperm.trans ((List.perm_ext_iff_of_nodup hnodes objects.nodup).2 hnames),
    fun n hn w hw ↦ ?_⟩
  exact (hneeds n hn w hw).resolve_left List.not_mem_nil

/-! ### Names -/

/-- Whether a package cannot be planned because its names cannot be told apart. -/
def PlanError.isNameCollision : PlanError → Bool
  | .enumCollision _ _ _ => true
  | .moduleCollision _ _ _ _ => true
  | .nameReserved _ _ _ => true
  | .exportCollision _ _ _ _ => true
  | _ => false

variable {x : PlanError}

theorem addEnums_error {enums : Table EnumModel} {rest : List EnumModel}
    (h : addEnums enums rest = .error x) : x.isNameCollision = true := by
  induction rest generalizing enums with
  | nil => cases h
  | cons e rest ih =>
    rw [addEnums] at h
    split at h
    · cases h
      rfl
    · exact ih h

theorem takeExports_error {folder : String} {e : Entity} {taken : TakenNames} {rest : List String}
    (h : takeExports folder e taken rest = .error x) : x.isNameCollision = true := by
  induction rest generalizing taken with
  | nil => cases h
  | cons typeName rest ih =>
    rw [takeExports] at h
    split at h
    · cases h
      rfl
    · split at h
      · cases h
        rfl
      · exact ih h

theorem takeNames_error {folder : String} {taken : TakenNames} {entities : List Entity}
    (h : takeNames folder taken entities = .error x) : x.isNameCollision = true := by
  induction entities generalizing taken with
  | nil => cases h
  | cons e rest ih =>
    rw [takeNames] at h
    split at h
    · cases h
      rfl
    · rcases bind_eq_error h with h | ⟨next, -, h⟩
      · exact takeExports_error h
      · exact ih h

theorem checkNames_error {folder : String} {entities : Table Entity}
    (h : checkNames folder entities = .error x) : x.isNameCollision = true := by
  rcases bind_eq_error h with h | ⟨taken, -, h⟩
  · exact takeNames_error h
  · cases h

theorem plannedEnums_error {events : Table Entity} (h : plannedEnums schema events = .error x) :
    x.isNameCollision = true := by
  rcases bind_eq_error h with h | ⟨enums, -, h⟩
  · exact addEnums_error h
  · cases h

/-! ### Plans -/

/-- How a plan comes about: what is planned of a schema, the names that are told apart, and the
order. -/
structure IsPlan (s : Schema) (d : Deferral) (p : Plan) : Prop where
  schema : p.schema = s
  deferral : p.deferral = d
  events : p.events = plannedEvents s
  objects : plannedObjects s (plannedEvents s) = .ok p.objects
  enums : plannedEnums s (plannedEvents s) = .ok p.enums
  objectNames : checkNames objectsPackage p.objects = .ok ()
  eventNames : checkNames eventsPackage p.events = .ok ()
  order : objectOrder p.objects d = .ok p.order

/-- A plan comes out exactly if it is made of the parts that a plan has. -/
theorem plan_eq_ok_iff {p : Plan} : plan schema d = .ok p ↔ IsPlan schema d p := by
  constructor
  · intro h
    obtain ⟨objects, hobjects, h⟩ := bind_eq_ok h
    obtain ⟨enums, henums, h⟩ := bind_eq_ok h
    obtain ⟨⟨⟩, hobjectNames, h⟩ := bind_eq_ok h
    obtain ⟨⟨⟩, heventNames, h⟩ := bind_eq_ok h
    obtain ⟨order, horder, h⟩ := bind_eq_ok h
    cases h
    exact ⟨rfl, rfl, rfl, hobjects, henums, hobjectNames, heventNames, horder⟩
  · rintro ⟨rfl, rfl, hevents, hobjects, henums, hobjectNames, heventNames, horder⟩
    rw [← hevents] at hobjects henums
    simp only [plan, ← hevents, bind, Except.bind, hobjects, henums, hobjectNames,
      heventNames, horder]

/-- Where there are no objects and event classes refer to none, no objects are planned. -/
theorem plannedObjects_of_empty {events : Table Entity} (h : schema.objects = .empty)
    (hevents : events.values.flatMap Entity.references = []) :
    plannedObjects schema events = .ok .empty := by
  rw [plannedObjects, plannedRoots, hevents, h, Table.sorted_empty]
  rfl

/-- Where there are no enumerations to share and event classes have no activities, no enumerations
are planned. -/
theorem plannedEnums_of_empty {events : Table Entity} (h : schema.enums = .empty)
    (hevents : events.values.filterMap EnumModel.activities? = []) :
    plannedEnums schema events = .ok .empty := by
  rw [plannedEnums, hevents, h, Table.sorted_empty]
  exact congrArg Except.ok Table.sorted_empty

/-- A schema that refers to its own objects, with a deferral that leaves no circle, is planned
unless names cannot be told apart. -/
theorem plan_of_targetsDefined (hs : schema.TargetsDefined)
    (hd : (ReferenceGraph.ofObjects schema.objects).cyclesWithout d.pairs = []) :
    (∃ p, plan schema d = .ok p) ∨ ∃ x, plan schema d = .error x ∧ x.isNameCollision = true := by
  obtain ⟨objects, hobjects, hplanned⟩ := exists_plannedObjects hs
  obtain ⟨order, horder⟩ := exists_objectOrder
    (ReferenceGraph.closed_ofObjects hplanned.references_mem) (cyclesWithout_planned hplanned hd)
  rcases hplan : plan schema d with x | p
  · refine .inr ⟨x, rfl, ?_⟩
    rcases bind_eq_error hplan with h | ⟨found, hfound, h⟩
    · rw [hobjects] at h
      cases h
    obtain rfl : objects = found := Except.ok.inj (hobjects.symm.trans hfound)
    rcases bind_eq_error h with h | ⟨enums, -, h⟩
    · exact plannedEnums_error h
    rcases bind_eq_error h with h | ⟨⟨⟩, -, h⟩
    · exact checkNames_error h
    rcases bind_eq_error h with h | ⟨⟨⟩, -, h⟩
    · exact checkNames_error h
    rcases bind_eq_error h with h | ⟨found, -, h⟩
    · rw [horder] at h
      cases h
    · cases h
  · exact .inl ⟨p, rfl⟩

/-- **From a readable schema tree to a plan.** Every attribute of every entity refers to an object
of the schema. References are deferred, or a circle of them cannot be broken. With what is deferred,
the planned objects refer to each other alone, and only names that cannot be told apart keep the
package from being planned. -/
theorem plan_of_read (tree : FileTree) (path : Path) (c : Catalog) (s : Schema)
    (hread : (Catalog.read tree path).outcome.1 = .ok c) (hresolve : c.resolve.outcome.1 = .ok s) :
    (∀ e ∈ s.objects.values ++ s.events.values, ∀ a ∈ e.attributes.values, ∀ object,
      a.target = some object → object ∈ s.objects.names) ∧
    ((∃ d, (ReferenceGraph.ofObjects s.objects).defer.outcome.1 = .ok d) ∨
      ∃ component, (ReferenceGraph.ofObjects s.objects).defer.outcome.1 =
        .error (.unbreakable component)) ∧
    ∀ d, (ReferenceGraph.ofObjects s.objects).defer.outcome.1 = .ok d →
      (∃ objects, plannedObjects s (plannedEvents s) = .ok objects ∧
        (ReferenceGraph.ofObjects objects).Closed ∧
        (ReferenceGraph.ofObjects objects).cyclesWithout d.pairs = []) ∧
      ((∃ p, plan s d = .ok p) ∨ ∃ x, plan s d = .error x ∧ x.isNameCollision = true) := by
  have hs : s.TargetsDefined := (Catalog.read_targetsDefined hread).resolve hresolve
  refine ⟨fun e he a ha object htarget ↦ ?_, ?_, fun d hd ↦ ?_⟩
  · have hall : e.RefersInto s.objects.names := by
      rcases List.mem_append.1 he with he | he
      · exact Table.all_iff_values.1 hs.objects e he
      · exact Table.all_iff_values.1 hs.events e he
    exact Table.all_iff_values.1 hall a ha object htarget
  · rw [Reporting.outcome_eq]
    rcases hs.closed.execute_defer [] with ⟨component, hrun, -⟩ | ⟨d, hrun, -⟩
    · exact .inr ⟨component, hrun⟩
    · exact .inl ⟨d, hrun⟩
  · have hcycles : (ReferenceGraph.ofObjects s.objects).cyclesWithout d.pairs = [] :=
      ReferenceGraph.cyclesWithout_eq_nil_iff.2
        (ReferenceGraph.settled_of_defer hd).leastDeferral.noCircle
    obtain ⟨objects, hobjects, hplanned⟩ := exists_plannedObjects hs
    exact ⟨⟨objects, hobjects, ReferenceGraph.closed_ofObjects hplanned.references_mem,
      cyclesWithout_planned hplanned hcycles⟩, plan_of_targetsDefined hs hcycles⟩

/-! ### A group with a parent -/

/-- The documents of one object, which may name another of its kind as its parent. -/
def groupDocuments : Catalog.Documents where
  version := "\x7b\"version\": \"1.0.0\"\x7d"
  categories := "\x7b\x7d"
  dictionary := "\x7b\"attributes\": \x7b\"parent\": " ++
      "\x7b\"type\": \"object_t\", \"object_type\": \"group\"\x7d\x7d\x7d"
  objects :=
    [("group.json", "\x7b\"name\": \"group\", \"attributes\": \x7b\"parent\": \x7b\x7d\x7d\x7d")]

/-- A schema tree with that object. -/
def groupTree : FileTree := groupDocuments.tree

/-- The attributes of its dictionary. -/
def groupDictionary : Entries Json :=
  [("parent", .obj [("type", .str "object_t"), ("object_type", .str "group")])]

/-- Its object. -/
def groupItem : Catalog.Item where
  path := ⟨"", ["objects", "group.json"]⟩
  name := "group"
  members := [("name", .str "group"), ("attributes", .obj [("parent", .obj [])])]

/-- What the documents say. -/
def groupContents : Catalog.Contents := ⟨.str "1.0.0", [], groupDictionary, [], [groupItem], [], []⟩

theorem says_groupDocuments : Catalog.Says groupDocuments groupContents where
  version := ⟨_, .of_chars rfl rfl, rfl⟩
  categories := .of_chars rfl rfl
  dictionary := ⟨_, _, .of_chars (Catalog.append_eq_ofList rfl rfl) rfl, rfl, rfl, rfl⟩
  objects := ⟨by decide +kernel, by decide,
    .cons ⟨rfl, rfl, ⟨.of_chars rfl rfl, rfl, by decide⟩⟩ .nil⟩
  events := .nil _ _
  profiles := .nil _ _
  plain := by decide +kernel

theorem catalog_groupContents : ∃ c s, groupContents.catalog = .ok c ∧ c.resolve.outcome.1 = .ok s ∧
    s.objects.names = ["group"] := by
  obtain ⟨a, ha⟩ : ∃ a, ∀ place, Catalog.readAttribute ⟨groupDictionary, [], ["group"], false⟩ place
      "parent" (.obj []) = .ok a := by
    have hget : groupDictionary.get? "parent" =
      some (.obj [("type", .str "object_t"), ("object_type", .str "group")]) := rfl
    simp only [Catalog.readAttribute, hget, Json.merge_empty]
    exact ⟨_, fun _ ↦ rfl⟩
  have henums : Catalog.readSharedEnums groupDictionary = .ok .empty :=
    Catalog.readSharedEnums_of_plain (by decide +kernel)
  have hitems : groupContents.objects.map Catalog.Item.plain =
      [⟨"group", groupItem.members, [("parent", .obj [])]⟩] :=
    rfl
  have hnames : groupContents.objects.map (·.name) = ["group"] := rfl
  have hdatetime :
      Catalog.readDatetime groupContents.profiles groupContents.types = .ok false := rfl
  rw [Catalog.Contents.catalog, hitems, hnames, hdatetime]
  simp only [groupContents, henums, Catalog.readDefinitions, Catalog.readDefinition,
    Catalog.readAttributes, ha, bind, Except.bind]
  exact ⟨_, _, rfl, rfl, rfl⟩

/-- The tree of groups is read, and groups are its only object. -/
theorem read_groupTree : ∃ c s, (Catalog.read groupTree ⟨"", []⟩).outcome.1 = .ok c ∧
    c.resolve.outcome.1 = .ok s ∧ s.objects.names = ["group"] := by
  obtain ⟨c, s, hcatalog, hresolve, hnames⟩ := catalog_groupContents
  exact ⟨c, s, (says_groupDocuments.outcome_read rfl).trans hcatalog, hresolve, hnames⟩

/-- The tree of groups can be read and resolved, and its objects are planned with whatever is
deferred. -/
theorem plan_of_read_groupTree : ∃ c s, (Catalog.read groupTree ⟨"", []⟩).outcome.1 = .ok c ∧
    c.resolve.outcome.1 = .ok s ∧ s.objects.names = ["group"] ∧
    ∀ d, (ReferenceGraph.ofObjects s.objects).defer.outcome.1 = .ok d →
      (∃ p, plan s d = .ok p) ∨ ∃ x, plan s d = .error x ∧ x.isNameCollision = true := by
  obtain ⟨c, s, hread, hresolve, hnames⟩ := read_groupTree
  exact ⟨c, s, hread, hresolve, hnames,
    fun d hd ↦ ((plan_of_read groupTree ⟨"", []⟩ c s hread hresolve).2.2 d hd).2⟩

end EventSchema.Package

import EventSchema.Proofs.Package.LinkClosure

/-!
# The first order of the planned objects

A plan may put its objects in any order in which each comes after all that it refers to, itself and
what is deferred aside (`Plan.Arranges`). It takes the first of all such orders as a dictionary has
them (`order_of_plan`): where another one differs from it for the first time, the name that the
other one has could have been placed there as well, and the smallest of these was taken.
-/

namespace EventSchema.Package

variable {schema : Schema} {d : Deferral} {p : Plan} {name : String}
  {placed remaining order : List String} {needs : String → List String}

/-! ### Placing the smallest name -/

/-- Among ascending names the first one that passes a test is the smallest that does. -/
theorem exists_find?_le {ready : String → Bool} (hsorted : remaining.Pairwise (· ≤ ·))
    (hname : name ∈ remaining) (hready : ready name = true) :
    ∃ first, remaining.find? ready = some first ∧ first ≤ name := by
  induction remaining with
  | nil => cases hname
  | cons a rest ih =>
    obtain ⟨hle, hrest⟩ := List.pairwise_cons.1 hsorted
    rcases List.mem_cons.1 hname with rfl | hname
    · exact ⟨name, List.find?_cons_of_pos hready, String.le_refl name⟩
    · by_cases ha : ready a = true
      · exact ⟨a, List.find?_cons_of_pos ha, hle name hname⟩
      · obtain ⟨first, hfirst, hfirstLe⟩ := ih hrest hname
        exact ⟨first, (List.find?_cons_of_neg ha).trans hfirst, hfirstLe⟩

/-- The first name of an order needs only what was placed before. -/
theorem needs_head (hnodup : (name :: order).Nodup)
    (hneeds : ∀ n ∈ name :: order, ∀ w ∈ needs n, w ∈ placed ∨ [w, n].Sublist (name :: order)) :
    ∀ w ∈ needs name, w ∈ placed := fun w hw ↦ by
  refine (hneeds name List.mem_cons_self w hw).resolve_right fun hbefore ↦
    (List.nodup_cons.1 hnodup).1 ?_
  rcases List.cons_sublist_cons'.1 hbefore with hbefore | ⟨-, hbefore⟩
  · exact hbefore.subset (List.mem_cons_of_mem _ List.mem_cons_self)
  · exact List.singleton_sublist.1 hbefore

/-- The other names of an order need only what was placed before, its first name included. -/
theorem needs_tail
    (hneeds : ∀ n ∈ name :: order, ∀ w ∈ needs n, w ∈ placed ∨ [w, n].Sublist (name :: order)) :
    ∀ n ∈ order, ∀ w ∈ needs n, w ∈ name :: placed ∨ [w, n].Sublist order := fun n hn w hw ↦ by
  rcases hneeds n (List.mem_cons_of_mem _ hn) w hw with hw | hbefore
  · exact .inl (List.mem_cons_of_mem _ hw)
  · rcases List.cons_sublist_cons'.1 hbefore with hbefore | ⟨rfl, -⟩
    · exact .inr hbefore
    · exact .inl List.mem_cons_self

/-- No order of the remaining names in which each comes after all that it needs stands before the
one in which they are placed. -/
theorem eq_or_lex_placeInOrder {fuel : Nat} (hsorted : remaining.Pairwise (· ≤ ·))
    (hperm : order.Perm remaining) (hnodup : order.Nodup)
    (hneeds : ∀ n ∈ order, ∀ w ∈ needs n, w ∈ placed ∨ [w, n].Sublist order) :
    order = placeInOrder needs fuel placed remaining ∨
      List.Lex (· < ·) (placeInOrder needs fuel placed remaining) order := by
  induction fuel generalizing placed remaining order with
  | zero =>
    cases order with
    | nil => exact .inl rfl
    | cons name order => exact .inr .nil
  | succ fuel ih =>
    cases order with
    | nil =>
      rw [hperm.symm.eq_nil]
      exact .inl rfl
    | cons name order =>
      have hready : (needs name).all placed.contains = true := List.all_eq_true.2 fun w hw ↦
        List.contains_iff_mem.2 (needs_head hnodup hneeds w hw)
      -- the first name of the order could be placed now, so none that comes after it is placed
      obtain ⟨first, hfind, hle⟩ : ∃ first,
          remaining.find? (fun name ↦ (needs name).all placed.contains) = some first ∧
          first ≤ name :=
        exists_find?_le hsorted (hperm.subset List.mem_cons_self) hready
      rw [placeInOrder, hfind]
      by_cases hfirst : first = name
      · subst hfirst
        obtain ⟨-, hrest⟩ := List.cons_perm_iff_perm_erase.1 hperm
        rcases ih (hsorted.erase first) hrest (List.nodup_cons.1 hnodup).2
          (needs_tail hneeds) with h | h
        · exact .inl (congrArg (first :: ·) h)
        · exact .inr (.cons h)
      · exact .inr (.rel (String.not_le.1 fun hge ↦ hfirst (String.le_antisymm hle hge)))

/-! ### The order of a plan -/

/-- An order of the planned objects in which each comes after all that it refers to, itself and what
is deferred aside. -/
structure Plan.Arranges (p : Plan) (order : List String) : Prop where
  /-- Every planned object stands in the order once. -/
  perm : order.Perm p.objects.names
  /-- What an object needs at once comes before it. -/
  after : ∀ n e, p.objects.get? n = some e → ∀ object ∈ e.references, object ≠ n →
    p.deferral.isDeferred n object = false → [object, n].Sublist order

/-- What a planned object needs at once are its references, itself and what is deferred aside. -/
theorem mem_neededAtOnce_ofObjects {objects : Table Entity} {e : Entity} {n object : String}
    (he : objects.get? n = some e) : object ∈ neededAtOnce (ReferenceGraph.ofObjects objects) d n ↔
      object ∈ e.references ∧ object ≠ n ∧ d.isDeferred n object = false := by
  rw [mem_neededAtOnce, EagerLink, ← and_assoc, and_right_comm]
  refine and_congr_left fun _ ↦ ?_
  simp only [Deferral.isDeferred, List.contains_eq_mem, decide_eq_false_iff_not, Set.mem_ofPred_eq,
    ← and_assoc, exists_and_right, ReferenceGraph.exists_mem_references, he, Option.some.injEq,
    exists_eq_left']

/-- The objects of a plan are arranged exactly by the orders in which each comes after all that it
needs at once. -/
theorem Plan.arranges_iff : p.Arranges order ↔ order.Perm p.objects.names ∧ ∀ n ∈ order,
    ∀ w ∈ neededAtOnce (ReferenceGraph.ofObjects p.objects) p.deferral n, [w, n].Sublist order := by
  constructor
  · refine fun ⟨hperm, hafter⟩ ↦ ⟨hperm, fun n hn w hw ↦ ?_⟩
    obtain ⟨e, he⟩ := Table.mem_names_iff.1 (hperm.subset hn)
    obtain ⟨hobject, hne, hdeferred⟩ := (mem_neededAtOnce_ofObjects he).1 hw
    exact hafter n e he w hobject hne hdeferred
  · refine fun ⟨hperm, hneeds⟩ ↦ ⟨hperm, fun n e he object hobject hne hdeferred ↦ ?_⟩
    exact hneeds n (hperm.symm.subset (Table.mem_names_iff.2 ⟨e, he⟩)) object
      ((mem_neededAtOnce_ofObjects he).2 ⟨hobject, hne, hdeferred⟩)

/-- **The first of all orders.** The objects of a plan stand in an order in which each comes after
all that it refers to, itself and what is deferred aside; and in the order of dictionaries every
other such order comes after it. -/
theorem order_of_plan (h : plan schema d = .ok p) : p.Arranges p.order ∧
    ∀ order, p.Arranges order → order = p.order ∨ List.Lex (· < ·) p.order order := by
  have hp := plan_eq_ok_iff.1 h
  obtain rfl := hp.deferral
  have horder := hp.order
  refine ⟨Plan.arranges_iff.2 (objectOrder_ordered horder), fun order hall ↦ ?_⟩
  obtain ⟨hperm, hneeds⟩ := Plan.arranges_iff.1 hall
  have hnodes : (ReferenceGraph.ofObjects p.objects).nodes.Perm p.objects.names :=
    (List.perm_ext_iff_of_nodup (ReferenceGraph.ofObjects p.objects).table.nodup p.objects.nodup).2
      fun _ ↦ ReferenceGraph.mem_nodes_ofObjects
  rw [(objectOrder_eq_ok_iff.1 horder).2.1]
  exact eq_or_lex_placeInOrder (pairwise_nodes_ofObjects _) (hperm.trans hnodes.symm)
    (hperm.nodup_iff.2 p.objects.nodup) fun n hn w hw ↦ .inr (hneeds n hn w hw)

/-! ### A trail over hidden objects -/

/-- A hidden object with one attribute that refers to another object. -/
def hiddenRefers (name object : String) : Entity :=
  entityOf { refers name object false with isHidden := true }

/-- Users with their groups, and groups that name a user. A logon is audited, and what is audited
leaves a trail that names a user; audits and trails are hidden. A spare object is hidden too, but
for a hidden event class nothing refers to it. -/
def trailSchema : Schema where
  version := .str "1.7.0"
  objects := .ofList [
    ("audit", hiddenRefers "audit" "trail"), ("group", entityOf (refers "group" "user" false)),
    ("spare", hiddenRefers "spare" "user"), ("trail", hiddenRefers "trail" "user"),
    ("user", entityOf (refers "user" "group" true))]
  events := .ofList [
    ("logon", { entityOf (refers "logon" "audit" false) with kind := .event }),
    ("probe", { hiddenRefers "probe" "spare" with kind := .event })]
  enums := .empty

/-- Its planned objects, all but the spare one. -/
def trailObjects : Table Entity := trailSchema.objects.filter fun e ↦ e.1 ≠ "spare"

theorem plannedEvents_trailSchema :
    plannedEvents trailSchema = trailSchema.events.filter fun e ↦ !e.2.isHidden := by
  rw [plannedEvents, Table.sorted_eq_self]
  decide

theorem plannedObjects_trailSchema :
    plannedObjects trailSchema (plannedEvents trailSchema) = .ok trailObjects := by
  have hsorted : trailSchema.objects.sorted = trailSchema.objects :=
    Table.sorted_eq_self (by decide)
  rw [plannedEvents_trailSchema, plannedObjects, plannedRoots, hsorted]
  rfl

theorem ofObjects_trailObjects :
    ReferenceGraph.ofObjects trailObjects = ⟨trailObjects.map ReferenceGraph.referencesOf⟩ :=
  ReferenceGraph.ofObjects_of_ascending (by decide)

theorem exists_plan_trailSchema : ∃ p, plan trailSchema userGroupsLate = .ok p ∧
    p.deferral = userGroupsLate ∧ p.objects = trailObjects ∧
    p.order = ["user", "group", "trail", "audit"] := by
  have hok : (plan trailSchema userGroupsLate).isOk = true := by
    rw [plan, plannedObjects_trailSchema, plannedEvents_trailSchema]
    dsimp only [bind, Except.bind]
    simp only [objectOrder, ofObjects_trailObjects]
    decide +kernel
  obtain ⟨p, hplan⟩ := exists_of_isOk hok
  have hp := plan_eq_ok_iff.1 hplan
  have hobjects : p.objects = trailObjects :=
    Except.ok.inj (hp.objects.symm.trans plannedObjects_trailSchema)
  have horder : some p.order = (objectOrder trailObjects userGroupsLate).toOption := by
    rw [← hobjects, hp.order]
    rfl
  refine ⟨p, hplan, hp.deferral, hobjects, Option.some.inj (horder.trans ?_)⟩
  rw [objectOrder, ofObjects_trailObjects]
  decide +kernel

/-- Groups could also come last, but that order comes after the one of the plan. -/
theorem order_of_plan_trailSchema : ∃ p, plan trailSchema userGroupsLate = .ok p ∧
    p.order = ["user", "group", "trail", "audit"] ∧ p.Arranges p.order ∧
    p.Arranges ["user", "trail", "audit", "group"] ∧
    List.Lex (· < ·) p.order ["user", "trail", "audit", "group"] := by
  obtain ⟨p, hplan, hdeferral, hobjects, horder⟩ := exists_plan_trailSchema
  obtain ⟨harranges, hfirst⟩ := order_of_plan hplan
  have hother : p.Arranges ["user", "trail", "audit", "group"] := by
    rw [Plan.arranges_iff, hobjects, hdeferral, ofObjects_trailObjects]
    decide +kernel
  have hne : ["user", "trail", "audit", "group"] ≠ p.order := by
    rw [horder]
    decide
  exact ⟨p, hplan, horder, harranges, hother, (hfirst _ hother).resolve_left hne⟩

end EventSchema.Package

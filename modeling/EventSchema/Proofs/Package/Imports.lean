import EventSchema.Proofs.Deferral.Objects
import EventSchema.Proofs.Package.Naming
import EventSchema.Proofs.Tables
import Mathlib.Data.List.Flatten

/-!
# What a module imports

A module has a link to each object that its entity refers to (`mem_linksOf`), and lists the two
names of each linked object that is not its own: at once or late, under the module they come from.
The names go by different names, since the linked objects export different ones
(`nodup_localNames`).
-/

namespace EventSchema

/-- Adding values under a name adds them to all values. -/
theorem Entries.perm_values_put_append {α : Type} (es : Entries (List α))
    (n : String) (added : List α) :
    (es.put n ((es.get? n).getD [] ++ added)).values.flatten.Perm (es.values.flatten ++ added) := by
  induction es with
  | nil => simp [put, values]
  | cons e es ih =>
    obtain ⟨m, standing⟩ := e
    rw [put, get?_cons]
    split
    · simp only [values, List.map_cons, List.flatten_cons, Option.getD_some, List.append_assoc]
      exact List.perm_append_comm.append_left standing
    · simp only [values, List.map_cons, List.flatten_cons, List.append_assoc] at ih ⊢
      exact ih.append_left standing

/-- The different names of a list, in order of their first occurrence. -/
theorem nodup_foldl_different {found names : List String} (h : found.Nodup) :
    (names.foldl (fun found name ↦ if found.contains name then found
      else found ++ [name]) found).Nodup := by
  induction names generalizing found with
  | nil => exact h
  | cons name names ih =>
    rw [List.foldl_cons]
    split
    · exact ih h
    · next hname =>
      refine ih (List.nodup_append.2 ⟨h, List.nodup_singleton name, fun m hm n hn hmn ↦ hname ?_⟩)
      exact List.contains_iff_mem.2 (List.mem_singleton.1 hn ▸ hmn ▸ hm)

end EventSchema

namespace EventSchema.Package

variable {e target : Entity} {d : Deferral} {planned : Table Entity} {links : List (Link × Entity)}
  {source object : String} {b : Binding}

/-! ### Tables of imports -/

/-- A name is listed under a source. -/
def Lists (imports : Table (List Binding)) (source : String) (b : Binding) : Prop :=
  ∃ bs, imports.get? source = some bs ∧ b ∈ bs

/-- All listed names. -/
def bindings (imports : Table (List Binding)) : List Binding := imports.values.flatten

theorem mem_bindings {imports : Table (List Binding)} : b ∈ bindings imports ↔
    ∃ source, Lists imports source b := by
  simp only [bindings, List.mem_flatten, Table.mem_values_iff, Lists]
  exact ⟨fun ⟨bs, ⟨source, hs⟩, hb⟩ ↦ ⟨source, bs, hs, hb⟩,
    fun ⟨source, bs, hs, hb⟩ ↦ ⟨bs, ⟨source, hs⟩, hb⟩⟩

theorem lists_addBindings {t : Table (List Binding)} {s : String} {added : List Binding} :
    Lists (addBindings t s added) source b ↔ Lists t source b ∨ source = s ∧ b ∈ added := by
  simp only [Lists, addBindings, Table.get?_put]
  by_cases hs : s = source
  · subst hs
    simp only [if_true, Option.some.injEq, exists_eq_left', List.mem_append, true_and]
    refine or_congr_left ?_
    cases t.get? s <;> simp
  · simp [hs, Ne.symm hs]

/-- The source of an import at once. -/
def Link.eagerSource? : Link → Option String
  | .eager source => some source
  | _ => none

/-- The source of a late binding. -/
def Link.lateSource? : Link → Option String
  | .late source => some source
  | _ => none

/-- The names of the linked objects under the sources that some links have. -/
def importsBy (pick : Link → Option String) (e : Entity) (t : Table (List Binding))
    (links : List (Link × Entity)) : Table (List Binding) :=
  links.foldl (fun t link ↦
    match pick link.1 with
    | some source => addBindings t source (bindingsOf e link.2)
    | none => t) t

theorem eagerImports_eq (e : Entity) (links : List (Link × Entity)) :
    eagerImports e links = importsBy Link.eagerSource? e .empty links := by
  rw [eagerImports, importsBy]
  congr
  funext t link
  cases link.1 <;> rfl

theorem lateImports_eq (e : Entity) (links : List (Link × Entity)) :
    lateImports e links = importsBy Link.lateSource? e .empty links := by
  rw [lateImports, importsBy]
  congr
  funext t link
  cases link.1 <;> rfl

variable {pick : Link → Option String} {t : Table (List Binding)}

theorem lists_importsBy :
    Lists (importsBy pick e t links) source b ↔
      Lists t source b ∨ ∃ link ∈ links, pick link.1 = some source ∧ b ∈ bindingsOf e link.2 := by
  induction links generalizing t with
  | nil => simp [importsBy]
  | cons link links ih =>
    rw [importsBy, List.foldl_cons, ← importsBy, ih, List.exists_mem_cons_iff]
    cases hpick : pick link.1 with
    | none => simp
    | some s => simp only [lists_addBindings, Option.some.injEq, or_assoc, @eq_comm _ s source]

/-- The listed names are those of the links that were picked. -/
theorem bindings_importsBy :
    (bindings (importsBy pick e t links)).Perm
      (bindings t ++ (links.filter fun link ↦ (pick link.1).isSome).flatMap fun link ↦
        bindingsOf e link.2) := by
  induction links generalizing t with
  | nil => simp [importsBy]
  | cons link links ih =>
    rw [importsBy, List.foldl_cons, ← importsBy]
    cases hpick : pick link.1 with
    | none => simpa [hpick] using ih
    | some s =>
      simp only [List.filter_cons, hpick, Option.isSome_some, if_true, List.flatMap_cons,
        ← List.append_assoc]
      exact ih.trans ((Entries.perm_values_put_append t.entries s _).append_right _)

theorem mem_names_importsBy : source ∈ (importsBy pick e t links).names ↔
    source ∈ t.names ∨ ∃ link ∈ links, pick link.1 = some source := by
  induction links generalizing t with
  | nil => simp [importsBy]
  | cons link links ih =>
    rw [importsBy, List.foldl_cons, ← importsBy, ih, List.exists_mem_cons_iff]
    cases hpick : pick link.1 with
    | none => simp
    | some s =>
      simp only [addBindings, Table.mem_names_put, Option.some.injEq, or_assoc, @eq_comm _ s source]

/-! ### Links -/

theorem mem_targetsOf {attributes : List Attribute} :
    object ∈ targetsOf attributes ↔ ∃ a ∈ attributes, a.target = some object := by
  rw [targetsOf, mem_foldl_different, or_iff_right List.not_mem_nil, List.mem_filterMap]

/-- An entity has a link to each planned object that it refers to. -/
theorem mem_linksOf {link : Link × Entity} :
    link ∈ linksOf planned d e ↔ ∃ object, (∃ a ∈ e.attributes.values, a.target = some object) ∧
      planned.get? object = some link.2 ∧ link.1 = linkOf d e object link.2 := by
  simp only [linksOf, List.mem_filterMap, mem_targetsOf, Option.map_eq_some_iff]
  constructor
  · rintro ⟨object, ha, target, htarget, rfl⟩
    exact ⟨object, ha, htarget, rfl⟩
  · rintro ⟨object, ha, htarget, hlink⟩
    exact ⟨object, ha, link.2, htarget, Prod.ext hlink.symm rfl⟩

theorem Link.eagerSource?_eq_some {link : Link} : link.eagerSource? = some source ↔
    link = .eager source := by
  cases link <;> simp [eagerSource?]

theorem Link.lateSource?_eq_some {link : Link} : link.lateSource? = some source ↔
    link = .late source := by
  cases link <;> simp [lateSource?]

/-- What is listed are the names of linked objects. -/
theorem lists_importsBy_linksOf :
    Lists (importsBy pick e .empty (linksOf planned d e)) source b ↔
      ∃ object target, (∃ a ∈ e.attributes.values, a.target = some object) ∧
        planned.get? object = some target ∧ pick (linkOf d e object target) = some source ∧
        b ∈ bindingsOf e target := by
  have hempty : ¬ Lists .empty source b := by
    rintro ⟨bs, h, -⟩
    cases h
  rw [lists_importsBy, or_iff_right hempty]
  constructor
  · rintro ⟨⟨link, target⟩, hlink, hpick, hb⟩
    obtain ⟨object, ha, hobject, hkind⟩ := mem_linksOf.1 hlink
    exact ⟨object, target, ha, hobject, hkind ▸ hpick, hb⟩
  · rintro ⟨object, target, ha, hobject, hpick, hb⟩
    exact ⟨(linkOf d e object target, target), mem_linksOf.2 ⟨object, ha, hobject, rfl⟩, hpick, hb⟩

theorem mem_names_importsBy_linksOf :
    source ∈ (importsBy pick e .empty (linksOf planned d e)).names ↔
      ∃ object target, (∃ a ∈ e.attributes.values, a.target = some object) ∧
        planned.get? object = some target ∧ pick (linkOf d e object target) = some source := by
  have hempty : source ∉ (Table.empty : Table (List Binding)).names := List.not_mem_nil
  rw [mem_names_importsBy, or_iff_right hempty]
  constructor
  · rintro ⟨⟨link, target⟩, hlink, hpick⟩
    obtain ⟨object, ha, hobject, hkind⟩ := mem_linksOf.1 hlink
    exact ⟨object, target, ha, hobject, hkind ▸ hpick⟩
  · rintro ⟨object, target, ha, hobject, hpick⟩
    exact ⟨(linkOf d e object target, target), mem_linksOf.2 ⟨object, ha, hobject, rfl⟩, hpick⟩

/-- Where planned objects stand under their names, no object is linked twice. -/
theorem nodup_linkedNames (hplanned : ∀ n e, planned.get? n = some e → e.name = n) :
    ((linksOf planned d e).map fun link ↦ link.2.name).Nodup := by
  have hnames : (linksOf planned d e).map (fun link ↦ link.2.name) =
      (targetsOf e.attributes.values).filter planned.has := by
    rw [linksOf, List.map_filterMap, ← List.filterMap_eq_filter]
    refine List.filterMap_congr fun object _ ↦ ?_
    rw [Option.guard, Table.has, Entries.has, ← Table.get?]
    cases hobject : planned.get? object with
    | none => rfl
    | some target => exact congrArg some (hplanned object target hobject)
  rw [hnames]
  exact (nodup_foldl_different List.nodup_nil).filter _

/-! ### Local names -/

/-- The names by which imported names go. -/
def localNames (imports : Table (List Binding)) : List String :=
  (bindings imports).map Binding.localName

theorem localNames_bindingsOf (e target : Entity) :
    (bindingsOf e target).map Binding.localName = (exportsOf target).map (localNameIn e) := by
  rw [bindingsOf, List.map_map]
  rfl

/-- Linked objects that stand under their names and export different names go by different names. -/
theorem nodup_linkedLocalNames (hplanned : ∀ n e, planned.get? n = some e → e.name = n)
    (hdistinct : Distinguished planned.values) :
    ((linksOf planned d e).flatMap fun link ↦
      (bindingsOf e link.2).map Binding.localName).Nodup := by
  have htargets : ((linksOf planned d e).map Prod.snd).Nodup := by
    refine List.Nodup.of_map Entity.name ?_
    rw [List.map_map]
    exact nodup_linkedNames hplanned
  have hmem : (linksOf planned d e).map Prod.snd ⊆ planned.values := fun target htarget ↦ by
    obtain ⟨link, hlink, rfl⟩ := List.mem_map.1 htarget
    obtain ⟨object, -, hobject, -⟩ := mem_linksOf.1 hlink
    exact Table.mem_values_iff.2 ⟨object, hobject⟩
  obtain ⟨targets, hperm, hsub⟩ := List.subperm_of_subset htargets hmem
  have hexports : (((linksOf planned d e).map Prod.snd).flatMap exportsOf).Nodup :=
    (hperm.flatMap_right exportsOf).nodup_iff.1 ((hsub.flatMap exportsOf).nodup hdistinct.exports)
  have hlocal :
      ((linksOf planned d e).flatMap fun link ↦ (bindingsOf e link.2).map Binding.localName) =
      (((linksOf planned d e).map Prod.snd).flatMap exportsOf).map (localNameIn e) := by
    simp only [List.flatMap_map, List.map_flatMap, localNames_bindingsOf]
  rw [hlocal]
  refine hexports.map_on fun m hm n hn hmn ↦ ?_
  have hclean : ∀ n ∈ ((linksOf planned d e).map Prod.snd).flatMap exportsOf, '_' ∉ n.toList :=
    fun n hn ↦ by
      obtain ⟨target, -, hn⟩ := List.mem_flatMap.1 hn
      exact underscore_not_mem_exports hn
  exact localNameIn_inj (hclean m hm) (hclean n hn) hmn

/-- What is imported at once and what is bound late goes by different names. -/
theorem nodup_localNames (hplanned : ∀ n e, planned.get? n = some e → e.name = n)
    (hdistinct : Distinguished planned.values) :
    (localNames (eagerImports e (linksOf planned d e)) ++
      localNames (lateImports e (linksOf planned d e))).Nodup := by
  -- a link has one kind of source at most
  have hkinds : ((linksOf planned d e).filter fun link ↦ link.1.lateSource?.isSome).Sublist
      ((linksOf planned d e).filter fun link ↦ !link.1.eagerSource?.isSome) :=
    List.monotone_filter_right _ fun link ↦ by
      cases link.1 <;> simp [Link.lateSource?, Link.eagerSource?]
  have hall := (List.filter_append_perm (fun link : Link × Entity ↦ link.1.eagerSource?.isSome)
    (linksOf planned d e)).flatMap_right fun link ↦ (bindingsOf e link.2).map Binding.localName
  have hsub := (hkinds.append_left
    ((linksOf planned d e).filter fun link ↦ link.1.eagerSource?.isSome)).flatMap
    fun link ↦ (bindingsOf e link.2).map Binding.localName
  have hnodup := hsub.nodup (hall.nodup_iff.2 (nodup_linkedLocalNames hplanned hdistinct))
  rw [List.flatMap_append, ← List.map_flatMap, ← List.map_flatMap] at hnodup
  refine (List.Perm.append ?_ ?_).nodup_iff.2 hnodup
  · rw [eagerImports_eq]
    exact bindings_importsBy.map Binding.localName
  · rw [lateImports_eq]
    exact bindings_importsBy.map Binding.localName

end EventSchema.Package

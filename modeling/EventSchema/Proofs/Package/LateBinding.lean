import EventSchema.Proofs.Computation
import EventSchema.Proofs.Digraph.Traversal
import EventSchema.Proofs.Package.FullNames
import EventSchema.Proofs.Tables

/-!
# Giving modules their names

Loading and binding only add to what is loaded and bound, they stay in the version package they are
asked for, and they load nothing that imports and late names do not ask for (`Loader.Extends`): this
holds of one load, of one name and of one module. A name that is bound to what it is listed with
stays so, since no module lists a name twice, and a module counts as settled only when all its names
are bound.
-/

namespace EventSchema.Package

variable {library : Library} {package m n : String} {s t u : Loader} {b c : LateBinding}

/-! ### Packages that bind by themselves -/

/-- The modules of a package load and bind modules of the package alone, and no name twice. -/
structure Library.Encloses (library : Library) (package : String) : Prop where
  /-- What is loaded with a module of the package belongs to it. -/
  eager : ∀ m, Belongs package m → ∀ n ∈ eagerOf library m, Belongs package n
  /-- So does what the names come from that it takes late. -/
  source : ∀ m, isWithin package m = true →
    ∀ b ∈ lateOf library m, isWithin package (siblingOf m b) = true
  /-- No module takes two names late that go by one name. -/
  nodup : ∀ m, isWithin package m = true → ((lateOf library m).map LateBinding.localName).Nodup

/-- A set of modules in which no module asks for one outside, by what is loaded with it or, in a
package, by the names that it takes late. -/
structure Library.Closed (library : Library) (package : String) (C : String → Prop) : Prop where
  /-- What is loaded with its modules is in the set. -/
  eager : ∀ m, C m → ∀ n ∈ eagerOf library m, C n
  /-- So is what the late names of modules of the package come from. -/
  source : ∀ m, C m → isWithin package m = true → ∀ b ∈ lateOf library m, C (siblingOf m b)

/-- No name of a module is bound to two things. -/
theorem eq_of_localName (h : library.Encloses package) (hm : isWithin package m = true)
    (hb : b ∈ lateOf library m) (hc : c ∈ lateOf library m)
    (hname : b.localName = c.localName) : b = c :=
  List.inj_on_of_nodup_map (h.nodup m hm) hb hc hname

/-- Only a module of the library takes names late. -/
theorem mem_names_of_lateOf (h : lateOf library m ≠ []) : m ∈ library.names := by
  refine Table.mem_names_iff.2 (Option.ne_none_iff_exists'.1 fun hnone ↦ h ?_)
  rw [lateOf, hnone]
  rfl

namespace Loader

/-! ### Adding to what is loaded and bound -/

/-- All that is loaded with a loaded module is loaded. -/
def ImportsLoaded (library : Library) (s : Loader) : Prop :=
  ∀ m ∈ s.loaded, ∀ n ∈ eagerOf library m, n ∈ s.loaded

/-- A name of a module is bound to what it is listed with, in a loaded module that has it. -/
structure IsBound (library : Library) (s : Loader) (m : String) (b : LateBinding) : Prop where
  /-- The name is bound to the listed name of the module that it comes from. -/
  bound : s.boundTo? m b.localName = some (siblingOf m b, b.exported)
  /-- That module is loaded. -/
  loaded : siblingOf m b ∈ s.loaded
  /-- It has the name. -/
  defined : b.exported ∈ definedBy library (siblingOf m b)

/-- In a package the names of settled modules are bound. -/
def Sound (library : Library) (package : String) (s : Loader) : Prop :=
  ∀ m ∈ s.settled, isWithin package m = true → ∀ b ∈ lateOf library m, s.IsBound library m b

/-- What loading modules of a package and giving them names leaves of what was loaded and bound. -/
structure Extends (library : Library) (package : String) (s t : Loader) : Prop where
  /-- What was loaded stays so. -/
  loaded : s.loaded ⊆ t.loaded
  /-- What is loaded besides belongs to the package. -/
  belongs : ∀ m ∈ t.loaded, m ∈ s.loaded ∨ Belongs package m
  /-- No module is loaded that loaded modules do not ask for. -/
  least : ∀ C, library.Closed package C → (∀ m ∈ s.loaded, C m) → ∀ m ∈ t.loaded, C m
  /-- It is loaded with all that is loaded with it. -/
  imports : s.ImportsLoaded library → t.ImportsLoaded library
  /-- Modules that are settled stay so. -/
  settled : s.settled ⊆ t.settled
  /-- Modules that are settled besides are modules of the package that have all their names. -/
  binds : ∀ m ∈ t.settled, m ∈ s.settled ∨
    isWithin package m = true ∧ ∀ b ∈ lateOf library m, t.IsBound library m b
  /-- A name of a module of the package that is bound to what it is listed with stays so. -/
  keeps : ∀ m, isWithin package m = true → ∀ b ∈ lateOf library m, s.IsBound library m b →
    t.IsBound library m b
  /-- The names of other modules are left alone. -/
  apart : ∀ m, isWithin package m = false → ∀ name, t.boundTo? m name = s.boundTo? m name

namespace Extends

theorem refl (library : Library) (package : String) (s : Loader) : s.Extends library package s where
  loaded := List.Subset.refl _
  belongs _ h := .inl h
  least _ _ h := h
  imports h := h
  settled := List.Subset.refl _
  binds _ h := .inl h
  keeps _ _ _ _ h := h
  apart _ _ _ := rfl

theorem trans (h : s.Extends library package t) (h' : t.Extends library package u) :
    s.Extends library package u where
  loaded := List.Subset.trans h.loaded h'.loaded
  belongs m hm := (h'.belongs m hm).elim (h.belongs m) .inr
  least C hC hs := h'.least C hC (h.least C hC hs)
  imports hs := h'.imports (h.imports hs)
  settled := List.Subset.trans h.settled h'.settled
  binds m hm := by
    rcases h'.binds m hm with hm | hm
    · exact (h.binds m hm).imp_right fun ⟨hwithin, hall⟩ ↦
        ⟨hwithin, fun b hb ↦ h'.keeps m hwithin b hb (hall b hb)⟩
    · exact .inr hm
  keeps m hm b hb hs := h'.keeps m hm b hb (h.keeps m hm b hb hs)
  apart m hm name := (h'.apart m hm name).trans (h.apart m hm name)

/-- Steps that add go on to runs that add. What was loaded before a run is loaded before each of its
steps. -/
theorem of_foldlM {α : Type} {f : Loader → α → Except BindError Loader} {as : List α}
    (hf : ∀ a ∈ as, ∀ u v, s.loaded ⊆ u.loaded → f u a = .ok v → u.Extends library package v)
    (h : as.foldlM f s = .ok t) : s.Extends library package t := by
  induction as generalizing s with
  | nil =>
    cases h
    exact refl _ _ _
  | cons a as ih =>
    rw [List.foldlM_cons] at h
    obtain ⟨u, hu, h⟩ := bind_eq_ok h
    have hfirst := hf a List.mem_cons_self s u (List.Subset.refl _) hu
    exact hfirst.trans (ih (fun a ha v w hv ↦ hf a (List.mem_cons_of_mem _ ha) v w
      (List.Subset.trans hfirst.loaded hv)) h)

/-- Settled modules of any package keep all their names bound. -/
theorem sound {around : String} (h : s.Extends library package t) (hs : s.Sound library around) :
    t.Sound library around := by
  intro m hm hwithin b hb
  rcases h.binds m hm with hm | ⟨-, hall⟩
  · have hbound := hs m hm hwithin b hb
    cases hpackage : isWithin package m with
    | true => exact h.keeps m hpackage b hb hbound
    | false => exact ⟨(h.apart m hpackage b.localName).trans hbound.bound, h.loaded hbound.loaded,
      hbound.defined⟩
  · exact hall b hb

end Extends

/-! ### Loading -/

/-- What is loaded with a module that was not loaded: it and all that imports lead to past what was
loaded. -/
def foundBy (library : Library) (s : Loader) (m : String) : List String :=
  Digraph.explore (eagerOf library)
    (library.size + (library.values.flatMap PackageModule.eager).length + 2) s.loaded [m]

/-- A module is loaded if all that it leads to is there, and that is all that is loaded. -/
theorem load_eq_ok_iff : s.load library m = .ok t ↔
    (∀ n ∈ s.foundBy library m, n ∈ library.names) ∧
    t = { s with loaded := s.loaded ++ s.foundBy library m } := by
  rw [load, ← foundBy]
  split
  · next missing hfind =>
    have hmissing := List.find?_some hfind
    constructor
    · intro h
      cases h
    · rintro ⟨hall, -⟩
      rw [Table.has_iff.2 (hall missing (List.mem_of_find?_eq_some hfind))] at hmissing
      cases hmissing
  · next hnone =>
    have hall : ∀ n ∈ s.foundBy library m, n ∈ library.names := fun n hn ↦ by
      simpa [Table.has_iff] using List.find?_eq_none.1 hnone n hn
    rw [Except.ok.injEq, eq_comm, and_iff_right hall]

/-- What is loaded with a module is asked for by a module of the library. -/
theorem mem_values_of_eagerOf (h : n ∈ eagerOf library m) :
    m ∈ library.names ∧ n ∈ library.values.flatMap PackageModule.eager := by
  rw [eagerOf] at h
  cases hget : library.get? m with
  | none =>
    rw [hget] at h
    exact absurd h List.not_mem_nil
  | some module =>
    rw [hget, Option.getD_some] at h
    exact ⟨Table.mem_names_iff.2 ⟨module, hget⟩,
      List.mem_flatMap.2 ⟨module, Table.mem_values_iff.2 ⟨m, hget⟩, h⟩⟩

/-- Loading leaves nothing out. -/
theorem explored_foundBy (library : Library) (s : Loader) (m : String) :
    Digraph.Explored (eagerOf library) s.loaded (s.foundBy library m) ∧
      (m ∈ s.foundBy library m ∨ m ∈ s.loaded) := by
  let nodes := m :: library.names ++ library.values.flatMap PackageModule.eager
  have hnodes : ∀ v ∈ nodes, ∀ w ∈ eagerOf library v, w ∈ nodes := fun v _ w hw ↦
    List.mem_append_right _ (mem_values_of_eagerOf hw).2
  have hdepth : Digraph.unmarked nodes s.loaded <
      library.size + (library.values.flatMap PackageModule.eager).length + 2 := by
    have hle : Digraph.unmarked nodes s.loaded ≤ nodes.length := List.length_filter_le _ _
    have hlength :
        nodes.length = library.size + 1 + (library.values.flatMap PackageModule.eager).length := by
      rw [List.length_append, List.length_cons, Table.names, Entries.names, List.length_map,
        Table.size]
    omega
  obtain ⟨hexplored, hmem⟩ := Digraph.explored_explore hnodes hdepth
    (List.forall_mem_singleton.2 (List.mem_append_left _ List.mem_cons_self))
  exact ⟨hexplored, hmem m List.mem_cons_self⟩

/-- What is loaded with a module is in every set that has the module and what is loaded with its
modules. -/
theorem of_mem_foundBy {C : String → Prop} (hC : ∀ v, C v → ∀ w ∈ eagerOf library v, C w) (hm : C m)
    (hn : n ∈ s.foundBy library m) : C n := by
  obtain ⟨v, hv, hwalk⟩ := Digraph.exists_walk_of_mem_explore hn
  obtain rfl := List.mem_singleton.1 hv
  clear hn
  induction hwalk with
  | refl => exact hm
  | tail _ hstep ih => exact hC _ ih _ hstep

theorem mem_loaded_of_load (h : s.load library m = .ok t) : m ∈ t.loaded := by
  obtain ⟨-, rfl⟩ := load_eq_ok_iff.1 h
  exact List.mem_append.2 (explored_foundBy library s m).2.symm

/-- All imports of loaded modules are loaded after a module was loaded. -/
theorem importsLoaded_of_load (hs : s.ImportsLoaded library) (h : s.load library m = .ok t) :
    t.ImportsLoaded library := by
  obtain ⟨-, rfl⟩ := load_eq_ok_iff.1 h
  intro n hn w hw
  rcases List.mem_append.1 hn with hn | hn
  · exact List.mem_append_left _ (hs n hn w hw)
  · exact List.mem_append.2 (((explored_foundBy library s m).1.closed n hn w hw).symm)

/-- A module of a package may be loaded when loaded modules ask for it. -/
theorem Extends.load (hlib : library.Encloses package) (hm : Belongs package m)
    (hasked : ∀ C, library.Closed package C → (∀ n ∈ s.loaded, C n) → C m)
    (h : s.load library m = .ok t) :
    s.Extends library package t := by
  obtain ⟨-, rfl⟩ := load_eq_ok_iff.1 h
  exact { Extends.refl library package s with
    loaded := List.subset_append_left _ _
    belongs := fun n hn ↦ (List.mem_append.1 hn).imp_right (of_mem_foundBy hlib.eager hm)
    least := fun C hC hs n hn ↦
      (List.mem_append.1 hn).elim (hs n) (of_mem_foundBy hC.eager (hasked C hC hs))
    imports := fun hs ↦ importsLoaded_of_load hs h
    binds := fun n hn ↦ .inl hn
    keeps := fun n _ c _ hbound ↦ { hbound with loaded := List.mem_append_left _ hbound.loaded } }

/-! ### Binding a name -/

theorem boundTo?_cons (r : BoundName) (s : Loader) (m name : String) :
    ({ s with names := r :: s.names } : Loader).boundTo? m name =
      if r.module = m ∧ r.localName = name then some (r.source, r.exported)
      else s.boundTo? m name := by
  rw [boundTo?, List.find?_cons]
  split
  · next htrue => rw [if_pos (by simpa using htrue), Option.map_some]
  · next hfalse => rw [if_neg (by simpa using hfalse), boundTo?]

/-- A name is bound to what the module next to its own exports, which is loaded for it. -/
theorem bindName_eq_ok (h : s.bindName library m b = .ok t) :
    ∃ u, s.load library (siblingOf m b) = .ok u ∧ b.exported ∈ definedBy library (siblingOf m b) ∧
      t = { u with names := ⟨m, b.localName, siblingOf m b, b.exported⟩ :: u.names } := by
  obtain ⟨u, hu, h⟩ := bind_eq_ok h
  split at h
  · next hdefined => exact ⟨u, hu, List.contains_iff_mem.1 hdefined, (Except.ok.inj h).symm⟩
  · cases h

/-- A name that was bound is bound. -/
theorem isBound_of_bindName (h : s.bindName library m b = .ok t) : t.IsBound library m b := by
  obtain ⟨u, hu, hdefined, rfl⟩ := bindName_eq_ok h
  have hloaded : siblingOf m b ∈ u.loaded := mem_loaded_of_load hu
  refine ⟨?_, hloaded, hdefined⟩
  rw [boundTo?_cons, if_pos ⟨rfl, rfl⟩]

/-- Binding a name of a module leaves what was loaded and bound. -/
theorem Extends.bindName (hlib : library.Encloses package) (hm : isWithin package m = true)
    (hloaded : m ∈ s.loaded) (hb : b ∈ lateOf library m) (h : s.bindName library m b = .ok t) :
    s.Extends library package t := by
  obtain ⟨u, hu, -, rfl⟩ := bindName_eq_ok h
  have hload := Extends.load hlib (.inr (hlib.source m hm b hb))
    (fun C hC hs ↦ hC.source m (hs m hloaded) hm b hb) hu
  refine hload.trans { Extends.refl library package u with
    binds := fun n hn ↦ .inl hn
    keeps := fun n hn c hc hbound ↦ { hbound with bound := ?_ }
    apart := fun n hn name ↦ ?_ }
  · -- the name that is bound may be the one that was bound before
    rw [boundTo?_cons]
    split
    · next hsame =>
      obtain ⟨rfl, hname⟩ := hsame
      rw [eq_of_localName hlib hm hb hc hname]
    · exact hbound.bound
  · rw [boundTo?_cons, if_neg]
    rintro ⟨rfl, -⟩
    rw [hm] at hn
    cases hn

/-! ### Binding modules -/

/-- Names that are bound one after another are all bound at the end. -/
theorem isBound_of_foldlM (hlib : library.Encloses package) (hm : isWithin package m = true)
    (hloaded : m ∈ s.loaded) {bs : List LateBinding} (hbs : ∀ b ∈ bs, b ∈ lateOf library m)
    (h : bs.foldlM (bindName library m) s = .ok t) (hb : b ∈ bs) : t.IsBound library m b := by
  induction bs generalizing s with
  | nil => exact absurd hb List.not_mem_nil
  | cons c bs ih =>
    rw [List.foldlM_cons] at h
    obtain ⟨u, hu, hrun⟩ := bind_eq_ok h
    have hrest : ∀ b ∈ bs, b ∈ lateOf library m := fun b hb ↦ hbs b (List.mem_cons_of_mem _ hb)
    have hfirst := Extends.bindName hlib hm hloaded (hbs c List.mem_cons_self) hu
    rcases List.mem_cons.1 hb with rfl | hb
    · have hextends := Extends.of_foldlM
        (fun c hc _ _ hsub ↦
          Extends.bindName hlib hm (hsub (hfirst.loaded hloaded)) (hrest c hc)) hrun
      exact hextends.keeps m hm b (hbs b List.mem_cons_self) (isBound_of_bindName hu)
    · exact ih (hfirst.loaded hloaded) hrest hrun hb

/-- A module is bound name by name and then settled. -/
theorem bindModule_eq_ok (h : s.bindModule library m = .ok t) :
    ∃ u, (lateOf library m).foldlM (bindName library m) s = .ok u ∧
    t = { u with settled := u.settled ++ [m] } := by
  obtain ⟨u, hu, h⟩ := bind_eq_ok h
  exact ⟨u, hu, (Except.ok.inj h).symm⟩

/-- A module that was bound is settled. -/
theorem mem_settled_of_bindModule (h : s.bindModule library m = .ok t) : m ∈ t.settled := by
  obtain ⟨u, -, rfl⟩ := bindModule_eq_ok h
  exact List.mem_append_right _ List.mem_cons_self

/-- Binding a module leaves what was loaded and bound. -/
theorem Extends.bindModule (hlib : library.Encloses package) (hm : isWithin package m = true)
    (hloaded : m ∈ s.loaded) (h : s.bindModule library m = .ok t) :
    s.Extends library package t := by
  obtain ⟨u, hu, rfl⟩ := bindModule_eq_ok h
  have hnames :=
    Extends.of_foldlM (fun c hc _ _ hsub ↦ Extends.bindName hlib hm (hsub hloaded) hc) hu
  refine hnames.trans { Extends.refl library package u with
    settled := List.subset_append_left _ _
    binds := fun n hn ↦ ?_
    keeps := fun _ _ _ _ hbound ↦ { hbound with } }
  rcases List.mem_append.1 hn with hn | hn
  · exact .inl hn
  · obtain rfl := List.mem_singleton.1 hn
    have hall : ∀ b ∈ lateOf library n, u.IsBound library n b := fun _ hb ↦
      isBound_of_foldlM hlib hm hloaded (fun _ hc ↦ hc) hu hb
    exact .inr ⟨hm, fun b hb ↦ { hall b hb with }⟩

end Loader

end EventSchema.Package

import EventSchema.Proofs.FileTree.Trails
import Mathlib.Data.List.Nodup

/-!
# The files below a directory

In a tree of which every entry can be reached by its name (`FileTree.Navigable`), the files are
listed once each, with the trails at which they stand (`FileTree.mem_files_iff`,
`FileTree.nodup_files`). A path that goes on from a directory leads to a file exactly if the file
stands at the rest of the path below the directory (`FileTree.textAt_append_eq_ok_iff`).

Paths are compared part by part, and the first parts that differ decide (`Path.lex_of_partsLe`).
-/

namespace EventSchema

/-! ### The order of paths -/

namespace Path

variable {ls ms ns : List String}

theorem partsLe_cons_iff {m n : String} :
    partsLe (m :: ms) (n :: ns) = true ↔ m < n ∨ m = n ∧ partsLe ms ns = true := by
  rw [partsLe, Bool.or_eq_true, Bool.and_eq_true, decide_eq_true_eq, beq_iff_eq]

theorem partsLe_trans (hlm : partsLe ls ms = true) (hmn : partsLe ms ns = true) :
    partsLe ls ns = true := by
  induction ls generalizing ms ns with
  | nil => rw [partsLe]
  | cons l ls ih =>
    cases ms with
    | nil => cases hlm
    | cons m ms =>
      cases ns with
      | nil => cases hmn
      | cons n ns =>
        rw [partsLe_cons_iff] at hlm hmn ⊢
        rcases hlm with hlm | ⟨rfl, hlm⟩
        · rcases hmn with hmn | ⟨rfl, -⟩
          · exact .inl (String.lt_trans hlm hmn)
          · exact .inl hlm
        · exact hmn.imp_right fun ⟨heq, hmn⟩ ↦ ⟨heq, ih hlm hmn⟩

theorem partsLe_total (ms ns : List String) : partsLe ms ns = true ∨ partsLe ns ms = true := by
  induction ms generalizing ns with
  | nil => exact .inl (by rw [partsLe])
  | cons m ms ih =>
    cases ns with
    | nil => exact .inr (by rw [partsLe])
    | cons n ns =>
      rw [partsLe_cons_iff, partsLe_cons_iff]
      by_cases hmn : m < n
      · exact .inl (.inl hmn)
      by_cases hnm : n < m
      · exact .inr (.inl hnm)
      have heq : m = n := String.le_antisymm (String.not_lt.1 hnm) (String.not_lt.1 hmn)
      exact (ih ns).imp (fun h ↦ .inr ⟨heq, h⟩) fun h ↦ .inr ⟨heq.symm, h⟩

/-- Of different lists of parts the one that comes first is smaller at the first difference. -/
theorem lex_of_partsLe (h : partsLe ms ns = true) (hne : ms ≠ ns) : List.Lex (· < ·) ms ns := by
  induction ms generalizing ns with
  | nil =>
    obtain ⟨n, ns, rfl⟩ := List.exists_cons_of_ne_nil hne.symm
    exact .nil
  | cons m ms ih =>
    cases ns with
    | nil => cases h
    | cons n ns =>
      rcases partsLe_cons_iff.1 h with hmn | ⟨rfl, hrest⟩
      · exact .rel hmn
      · exact .cons (ih hrest fun heq ↦ hne (heq ▸ rfl))

/-- Sorting puts paths in order. -/
theorem pairwise_mergeSort (paths : List Path) :
    (paths.mergeSort le).Pairwise fun p q ↦ p.le q = true := by
  have htrans (p q r : Path) (hpq : p.le q = true) (hqr : q.le r = true) : p.le r = true :=
    partsLe_trans hpq hqr
  have htotal (p q : Path) : (p.le q || q.le p) = true := by
    rw [Bool.or_eq_true]
    exact partsLe_total (p.root :: p.parts) (q.root :: q.parts)
  exact List.pairwise_mergeSort htrans htotal paths

end Path

namespace FileTree

variable {t node : FileTree} {p place : Path} {trail : List String} {text n : String}
variable {es : List (String × FileTree)}

/-! ### Trees and their files -/

/-- A name leads from a directory to one of its entries: it does not lead back, no path refuses it,
and it is not too long. -/
structure LeadsDown (n : String) : Prop where
  ne_dots : n ≠ ".."
  noZero : n.toList.contains '\x00' = false
  fits : n.utf8ByteSize ≤ maxNameBytes

instance (n : String) : Decidable (LeadsDown n) :=
  decidable_of_iff (n ≠ ".." ∧ n.toList.contains '\x00' = false ∧ n.utf8ByteSize ≤ maxNameBytes)
    ⟨fun ⟨hdots, hzero, hfits⟩ ↦ ⟨hdots, hzero, hfits⟩,
      fun ⟨hdots, hzero, hfits⟩ ↦ ⟨hdots, hzero, hfits⟩⟩

/-- Every entry of every directory of a tree can be reached by its name. -/
inductive Navigable : FileTree → Prop where
  /-- A file has no entries. -/
  | file (text : String) : Navigable (.file text)
  /-- The names of the entries are different, they lead down, and the entries are navigable. -/
  | dir {es : List (String × FileTree)} (nodup : (Entries.names es).Nodup)
      (names : ∀ e ∈ es, LeadsDown e.1)
    (entries : ∀ e ∈ es, Navigable e.2) : Navigable (.dir es)

@[simp] theorem navigable_file (text : String) : (FileTree.file text).Navigable := .file text

@[simp] theorem navigable_dir_iff :
    (FileTree.dir es).Navigable ↔
    (Entries.names es).Nodup ∧ ∀ e ∈ es, LeadsDown e.1 ∧ e.2.Navigable := by
  constructor
  · rintro ⟨⟩
    next nodup names entries => exact ⟨nodup, fun e he ↦ ⟨names e he, entries e he⟩⟩
  · rintro ⟨nodup, h⟩
    exact .dir nodup (fun e he ↦ (h e he).1) fun e he ↦ (h e he).2

theorem Navigable.of_get? (h : t.Navigable) (hget : t.get? trail = some node) : node.Navigable := by
  induction trail generalizing t with
  | nil =>
    rw [get?_nil] at hget
    exact Option.some.inj hget ▸ h
  | cons n trail ih =>
    cases h with
    | file text => cases hget
    | dir nodup names entries =>
      rw [get?_dir_cons] at hget
      obtain ⟨u, hu, hget⟩ := Option.bind_eq_some_iff.1 hget
      exact ih (entries _ (Entries.mem_of_get? hu)) hget

/-- The names on the way to what stands in a tree lead down. -/
theorem Navigable.leadsDown (h : t.Navigable) (hget : t.get? trail = some node) (hn : n ∈ trail) :
    LeadsDown n := by
  induction trail generalizing t with
  | nil => cases hn
  | cons m trail ih =>
    cases h with
    | file text => cases hget
    | dir nodup names entries =>
      rw [get?_dir_cons] at hget
      obtain ⟨u, hu, hget⟩ := Option.bind_eq_some_iff.1 hget
      rcases List.mem_cons.1 hn with rfl | hn
      · exact names _ (Entries.mem_of_get? hu)
      · exact ih (entries _ (Entries.mem_of_get? hu)) hget hn

theorem mem_filesOfEntries_iff {f : List String × String} :
    f ∈ filesOfEntries es ↔ ∃ e ∈ es, ∃ g ∈ e.2.files, f = (e.1 :: g.1, g.2) := by
  induction es with
  | nil =>
    rw [filesOfEntries]
    exact iff_of_false List.not_mem_nil fun ⟨_, he, _⟩ ↦ List.not_mem_nil he
  | cons e es ih =>
    obtain ⟨n, t⟩ := e
    rw [filesOfEntries, List.mem_append, List.mem_map, ih]
    constructor
    · rintro (⟨g, hg, rfl⟩ | ⟨e, he, hf⟩)
      · exact ⟨_, List.mem_cons_self, g, hg, rfl⟩
      · exact ⟨e, List.mem_cons_of_mem _ he, hf⟩
    · rintro ⟨e, he, g, hg, rfl⟩
      rcases List.mem_cons.1 he with rfl | he
      · exact .inl ⟨g, hg, rfl⟩
      · exact .inr ⟨e, he, g, hg, rfl⟩

/-- The files that are listed are those that stand in the tree. -/
theorem mem_files_iff (h : t.Navigable) : (trail, text) ∈ t.files ↔
    t.get? trail = some (.file text) := by
  induction trail generalizing t with
  | nil =>
    rw [get?_nil]
    cases t with
    | file text' => simp [files, eq_comm]
    | dir es =>
      rw [files, mem_filesOfEntries_iff]
      exact iff_of_false (fun ⟨_, _, _, _, heq⟩ ↦ nomatch heq) fun heq ↦ nomatch heq
  | cons n trail ih =>
    cases h with
    | file text' => simp [files, get?]
    | dir nodup names entries =>
      rw [files, mem_filesOfEntries_iff, get?_dir_cons, Option.bind_eq_some_iff]
      constructor
      · rintro ⟨⟨m, u⟩, he, ⟨q, s⟩, hg, heq⟩
        cases heq
        exact ⟨u, Entries.get?_of_mem nodup he, (ih (entries _ he)).1 hg⟩
      · rintro ⟨u, hu, hget⟩
        have he := Entries.mem_of_get? hu
        exact ⟨(n, u), he, (trail, text), (ih (entries _ he)).2 hget, rfl⟩

/-- No file is listed twice. -/
theorem nodup_files (h : t.Navigable) : (t.files.map Prod.fst).Nodup := by
  induction h with
  | file text => exact List.nodup_singleton _
  | @dir es nodup names entries ih =>
    rw [files]
    clear names entries
    induction es with
    | nil => exact .nil
    | cons e es ihEntries =>
      obtain ⟨n, t⟩ := e
      obtain ⟨hn, nodup⟩ := List.nodup_cons.1 nodup
      obtain ⟨ht, hes⟩ := List.forall_mem_cons.1 ih
      rw [filesOfEntries, List.map_append, List.map_map, List.nodup_append]
      refine ⟨?_, ihEntries nodup hes, fun p hp q hq heq ↦ ?_⟩
      · have hmap : t.files.map (Prod.fst ∘ fun f ↦ (n :: f.1, f.2)) =
            (t.files.map Prod.fst).map (n :: ·) := by
          rw [List.map_map]
          rfl
        rw [hmap]
        exact List.Nodup.map (fun _ _ heq ↦ (List.cons.inj heq).2) ht
      · -- the first names of the trails differ
        obtain ⟨f, -, rfl⟩ := List.mem_map.1 hp
        obtain ⟨g, hg, rfl⟩ := List.mem_map.1 hq
        obtain ⟨e, he, g, -, rfl⟩ := mem_filesOfEntries_iff.1 hg
        exact hn (List.mem_map.2 ⟨e, he, (List.cons.inj heq).1.symm⟩)

/-! ### Reading below a directory -/

theorem textAt_eq_ok_iff : t.textAt p = .ok text ↔
    t.Admits p ∧ t.get? p.trail = some (.file text) := by
  constructor
  · intro h
    unfold textAt at h
    split at h <;> cases h
    next hlocate =>
      obtain ⟨hadmits, heq⟩ := locate_ok hlocate
      exact ⟨hadmits, (Prod.mk.inj heq).2.symm⟩
  · rintro ⟨hadmits, hget⟩
    rw [textAt, hadmits.locate_eq, hget]

/-- To follow a path that goes on from another one is to follow that one first. -/
theorem Admits.of_append (h : t.Admits ⟨place.root, place.parts ++ trail⟩) : t.Admits place := by
  obtain ⟨⟨hzero, hrelative, hfits⟩, hdirs⟩ := h
  refine ⟨⟨?_, ?_, fun part hpart ↦ hfits part (List.mem_append_left _ hpart)⟩, ?_⟩
  · rw [Path.hasZero, List.any_append, Bool.or_eq_false_iff] at hzero
    exact hzero.1
  · exact hrelative.imp_right fun hnil ↦ (List.append_eq_nil_iff.1 hnil).1
  · rintro q ⟨parts, hparts, hne, hq⟩
    refine hdirs q ⟨parts, hparts.trans (List.prefix_append _ _),
      fun heq ↦ hne (hparts.eq_of_length_le ?_), hq⟩
    rw [heq, List.length_append]
    exact Nat.le_add_right _ _

/-- A path that goes on from a directory leads to a file that stands below the directory. -/
theorem textAt_append_eq_ok_iff (h : t.Navigable) (hroot : place.root = "")
    (hne : trail ≠ []) (hdots : ".." ∉ trail) :
    t.textAt ⟨place.root, place.parts ++ trail⟩ = .ok text ↔
      ∃ start node, t.locate place = .ok (start, some node) ∧
      node.get? trail = some (.file text) := by
  have htrail : (⟨place.root, place.parts ++ trail⟩ : Path).trail = place.trail ++ trail := by
    rw [Path.trail, Path.walk_append, Path.walk_of_plain hdots]
    rfl
  rw [textAt_eq_ok_iff, htrail, get?_append]
  constructor
  · rintro ⟨hadmits, hget⟩
    obtain ⟨node, hnode, hget⟩ := Option.bind_eq_some_iff.1 hget
    exact ⟨_, node, by rw [hadmits.of_append.locate_eq, hnode], hget⟩
  · rintro ⟨start, node, hlocate, hget⟩
    obtain ⟨hadmits, heq⟩ := locate_ok hlocate
    have hnode : t.get? place.trail = some node := (Prod.mk.inj heq).2.symm
    have hdown (n : String) (hn : n ∈ trail) : LeadsDown n := (h.of_get? hnode).leadsDown hget hn
    refine ⟨⟨⟨?_, .inl hroot, fun part hpart ↦ ?_⟩, ?_⟩, by rw [hnode, Option.bind_some, hget]⟩
    · rw [Path.hasZero, List.any_append, Bool.or_eq_false_iff]
      exact ⟨hadmits.usable.noZero, List.any_eq_false.2 fun n hn ↦
        ne_true_of_eq_false (hdown n hn).noZero⟩
    · exact (List.mem_append.1 hpart).elim (hadmits.usable.fits part) fun hn ↦
        .inr (hdown part hn).fits
    · rintro q ⟨parts, hparts, hneParts, rfl⟩
      by_cases hbefore : parts <+: place.parts ∧ parts ≠ place.parts
      · exact hadmits.dirs _ ⟨parts, hbefore.1, hbefore.2, rfl⟩
      -- the path has come to the folder, and what stands below it lies in directories
      obtain ⟨s, rfl⟩ : place.parts <+: parts := by
        rcases List.prefix_or_prefix_of_prefix hparts
          (List.prefix_append place.parts trail) with hle | hge
        · exact (not_and_not_right.1 hbefore hle) ▸ List.prefix_rfl
        · exact hge
      obtain ⟨r, rfl⟩ := (List.prefix_append_right_inj place.parts).1 hparts
      have hr : r ≠ [] := fun hnil ↦ hneParts (by rw [hnil, List.append_nil])
      have hs : ".." ∉ s := fun hmem ↦ hdots (List.mem_append_left r hmem)
      rw [Path.walk_append, Path.walk_of_plain hs]
      refine view_of_append (q := r) (fun hnone ↦ ?_) hr
      have hfile : t.get? (place.trail ++ (s ++ r)) = some (.file text) := by
        rw [get?_append, hnode, Option.bind_some, hget]
      rw [List.append_assoc, view_eq_none_iff] at hnone
      exact Option.some_ne_none _ (hfile.symm.trans hnone)

end FileTree

end EventSchema

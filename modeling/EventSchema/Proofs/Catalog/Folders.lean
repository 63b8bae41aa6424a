import EventSchema.Proofs.Catalog.Items
import EventSchema.Proofs.FileTree.Files
import EventSchema.Proofs.FileTree.Paths

/-!
# What a folder is read into

A folder of a schema can be read exactly if every file below it whose name ends in `.json` states an
item and no two of them state items of one name (`IsReadable`). What is read are then the items that
these files state, one for each file, in the order of the paths (`Lists`), and a visitor has been
shown just these, in that order (`settles_visitItems`). The path of a folder must not have a zero
character in it: such a path is refused before any file is looked for (`visitItems_zeroFolder`).
-/

namespace EventSchema.Catalog

variable {σ : Type} {visit : Path → Entries Json → σ → σ} {state : σ} {tree : FileTree}
  {schema place path : Path} {folder text name : String} {members : Entries Json} {item : Item}
  {read items : List Item} {paths : List Path}

/-! ### Files below a folder -/

/-- A path leads to a file below a folder, at any depth, and the name of the file ends in
`.json`. -/
structure IsJsonFile (tree : FileTree) (place path : Path) (text : String) : Prop where
  below : ∃ trail, trail ≠ [] ∧ ".." ∉ trail ∧ path = ⟨place.root, place.parts ++ trail⟩
  ending : path.name.endsWith ".json" = true
  holds : tree.textAt path = .ok text

/-- Every file below a folder whose name ends in `.json` states an item, and no two of them state
items of one name. -/
structure IsReadable (tree : FileTree) (place : Path) : Prop where
  states : ∀ path text, IsJsonFile tree place path text → ∃ members name, States text members name
  distinct : ∀ path path' text text' members members' name, IsJsonFile tree place path text →
    IsJsonFile tree place path' text' → States text members name →
    States text' members' name → path = path'

/-- The items are those that the files below a folder state whose names end in `.json`, one for each
of them, in the order of the paths. -/
structure Lists (tree : FileTree) (place : Path) (items : List Item) : Prop where
  complete : ∀ path text, IsJsonFile tree place path text → ∃ item ∈ items, item.path = path
  stated : ∀ item ∈ items, ∃ text, IsJsonFile tree place item.path text ∧
    States text item.members item.name
  distinct : (items.map (·.name)).Nodup
  ascending : items.Pairwise fun i j ↦ List.Lex (· < ·) i.path.parts j.path.parts

/-! ### The files of a folder -/

theorem mem_itemPaths_iff_files : path ∈ itemPaths tree place ↔
    ∃ start node, tree.locate place = .ok (start, some node) ∧
      ∃ f ∈ node.files, (f.1 ≠ [] ∧ (f.1.getLastD "").endsWith ".json" = true) ∧
        ⟨place.root, place.parts ++ f.1⟩ = path := by
  rw [itemPaths, List.mem_mergeSort]
  constructor
  · intro h
    rcases hlocate : tree.locate place with e | ⟨start, _ | node⟩ <;> rw [hlocate] at h
    · cases h
    · cases h
    · obtain ⟨f, hf, h⟩ := List.mem_filterMap.1 h
      obtain ⟨hjson, h⟩ := Option.ite_none_right_eq_some.1 h
      exact ⟨start, node, rfl, f, hf, hjson, Option.some.inj h⟩
  · rintro ⟨start, node, hlocate, f, hf, hjson, rfl⟩
    rw [hlocate]
    exact List.mem_filterMap.2 ⟨f, hf, if_pos hjson⟩

theorem name_append {parts trail : List String} {root : String} (hne : trail ≠ []) :
    (⟨root, parts ++ trail⟩ : Path).name = trail.getLastD "" := by
  obtain ⟨init, last, rfl⟩ := (List.eq_nil_or_concat' trail).resolve_left hne
  rw [Path.name, ← List.append_assoc, List.getLastD_concat, List.getLastD_concat]

/-- The paths of a folder are those of the files below it whose names end in `.json`. -/
theorem mem_itemPaths_iff (htree : tree.Navigable) (hroot : place.root = "") :
    path ∈ itemPaths tree place ↔ ∃ text, IsJsonFile tree place path text := by
  rw [mem_itemPaths_iff_files]
  constructor
  · rintro ⟨start, node, hlocate, ⟨trail, text⟩, hf, ⟨hne, hending⟩, rfl⟩
    have hnode : node.Navigable := htree.of_get? (Prod.mk.inj (FileTree.locate_ok hlocate).2).2.symm
    have hget : node.get? trail = some (.file text) := (FileTree.mem_files_iff hnode).1 hf
    have hdots : ".." ∉ trail := fun hmem ↦ (hnode.leadsDown hget hmem).ne_dots rfl
    exact ⟨text, ⟨trail, hne, hdots, rfl⟩, (name_append hne).symm ▸ hending,
      (FileTree.textAt_append_eq_ok_iff htree hroot hne hdots).2 ⟨start, node, hlocate, hget⟩⟩
  · rintro ⟨text, ⟨trail, hne, hdots, rfl⟩, hending, hholds⟩
    obtain ⟨start, node, hlocate, hget⟩ :=
      (FileTree.textAt_append_eq_ok_iff htree hroot hne hdots).1 hholds
    have hnode : node.Navigable := htree.of_get? (Prod.mk.inj (FileTree.locate_ok hlocate).2).2.symm
    exact ⟨start, node, hlocate, (trail, text), (FileTree.mem_files_iff hnode).2 hget,
      ⟨hne, name_append hne ▸ hending⟩, rfl⟩

/-- The paths of a folder are all different, since no file is listed twice. -/
theorem nodup_itemPaths (htree : tree.Navigable) : (itemPaths tree place).Nodup := by
  rw [itemPaths, (List.mergeSort_perm _ _).nodup_iff]
  rcases hlocate : tree.locate place with e | ⟨start, _ | node⟩
  · exact .nil
  · exact .nil
  · have hnode : node.Navigable := htree.of_get? (Prod.mk.inj (FileTree.locate_ok hlocate).2).2.symm
    refine (List.pairwise_map.1 (FileTree.nodup_files hnode)).filterMap _
      fun f g hne p hp q hq heq ↦ hne ?_
    have hp := Option.some.inj (Option.ite_none_right_eq_some.1 hp).2
    have hq := Option.some.inj (Option.ite_none_right_eq_some.1 hq).2
    exact List.append_cancel_left (Path.mk.inj (hp.trans (heq.trans hq.symm))).2

/-- The paths of a folder stand in order: of two of them, the one that comes first is smaller at the
first part at which they differ. -/
theorem pairwise_itemPaths (htree : tree.Navigable) :
    (itemPaths tree place).Pairwise fun p q ↦ List.Lex (· < ·) p.parts q.parts := by
  have hsorted : (itemPaths tree place).Pairwise fun p q ↦ p.le q = true :=
    Path.pairwise_mergeSort _
  refine (hsorted.and (nodup_itemPaths htree)).imp_of_mem fun {p q} hp hq ⟨hle, hne⟩ ↦ ?_
  obtain ⟨-, -, -, f, -, -, rfl⟩ := mem_itemPaths_iff_files.1 hp
  obtain ⟨-, -, -, g, -, -, rfl⟩ := mem_itemPaths_iff_files.1 hq
  have hlex :=
    Path.lex_of_partsLe hle fun heq ↦ hne (congrArg (Path.mk place.root) (List.cons.inj heq).2)
  cases hlex with
  | rel hlt => exact absurd hlt (String.lt_irrefl _)
  | cons hlex => exact hlex

/-! ### Reading and showing -/

/-- No item that was read has the name of another one exactly if the names stay different with
it. -/
theorem find?_eq_none_iff_nodup (hread : (read.map (·.name)).Nodup) :
    (read.find? fun other ↦ other.name = item.name) = none ↔
    ((read ++ [item]).map (·.name)).Nodup := by
  rw [List.find?_eq_none, List.map_append, List.map_cons, List.map_nil, ← List.concat_eq_append,
    List.nodup_concat]
  simp [hread, List.mem_map]

/-- Items are read one after another exactly if each path is that of an item and all names are
different, and each is shown once it is read. -/
theorem visitItemsFrom_eq_ok_iff {final : σ} (hread : (read.map (·.name)).Nodup) :
    visitItemsFrom visit tree folder read state paths = (.ok items, final) ↔
      ∃ new, read ++ new = items ∧ new.map (·.path) = paths ∧
        (∀ item ∈ new, readItem tree folder item.path = .ok item) ∧ (items.map (·.name)).Nodup ∧
        new.foldl (fun s item ↦ visit item.path item.members s) state = final := by
  induction paths generalizing read state with
  | nil =>
    rw [visitItemsFrom]
    constructor
    · rintro ⟨⟩
      exact ⟨[], List.append_nil _, rfl, nofun, hread, rfl⟩
    · rintro ⟨new, rfl, hpaths, -, -, rfl⟩
      rw [List.map_eq_nil_iff.1 hpaths, List.append_nil]
      rfl
  | cons path paths ih =>
    rw [visitItemsFrom]
    split
    · next hfault =>
      refine iff_of_false nofun ?_
      rintro ⟨new, -, hpaths, hnew, -⟩
      obtain ⟨item, rest, rfl, rfl, -⟩ := List.map_eq_cons_iff.1 hpaths
      exact nomatch hfault.symm.trans (hnew item List.mem_cons_self)
    · next item hitem =>
      obtain rfl := (readItem_eq_ok_iff.1 hitem).1
      -- whatever is read after the item, its name must not be that of one before it
      have hbefore {rest : List Item} (h : ((read ++ item :: rest).map (·.name)).Nodup) :
          ((read ++ [item]).map (·.name)).Nodup :=
        h.sublist
          ((List.Sublist.append_left (List.singleton_sublist.2 List.mem_cons_self) read).map _)
      -- the only item that the first path is read into
      have hfirst {new : List Item} (hpaths : new.map (·.path) = item.path :: paths)
          (hnew : ∀ i ∈ new, readItem tree folder i.path = .ok i) : ∃ rest, new = item :: rest ∧
            rest.map (·.path) = paths := by
        obtain ⟨other, rest, rfl, hpath, hrest⟩ := List.map_eq_cons_iff.1 hpaths
        have hother := hnew other List.mem_cons_self
        rw [hpath, hitem] at hother
        exact ⟨rest, by rw [Except.ok.inj hother], hrest⟩
      split
      · next other hother =>
        refine iff_of_false nofun ?_
        rintro ⟨new, rfl, hpaths, hnew, hnodup, -⟩
        obtain ⟨rest, rfl, -⟩ := hfirst hpaths hnew
        exact nomatch hother.symm.trans ((find?_eq_none_iff_nodup hread).2 (hbefore hnodup))
      · next hnone =>
        rw [ih ((find?_eq_none_iff_nodup hread).1 hnone)]
        constructor
        · rintro ⟨rest, rfl, rfl, hrest, hnodup, rfl⟩
          exact ⟨item :: rest, (List.append_assoc read [item] rest).symm, rfl,
            List.forall_mem_cons.2 ⟨hitem, hrest⟩, hnodup, rfl⟩
        · rintro ⟨new, rfl, hpaths, hnew, hnodup, rfl⟩
          obtain ⟨rest, rfl, hrest⟩ := hfirst hpaths hnew
          exact ⟨rest, List.append_assoc read [item] rest, hrest, (List.forall_mem_cons.1 hnew).2,
            hnodup, rfl⟩

/-- Items of different names are read from paths, one from each, in the order of the paths. -/
structure ReadFromAll (tree : FileTree) (folder : String) (paths : List Path)
    (items : List Item) : Prop where
  path : items.map (·.path) = paths
  read : ∀ item ∈ items, readItem tree folder item.path = .ok item
  nodup : (items.map (·.name)).Nodup

/-- A run over paths gives the items that are read from them, and has shown just these. -/
theorem visitItemsFrom_nil_eq_ok_iff {final : σ} :
    visitItemsFrom visit tree folder [] state paths = (.ok items, final) ↔
      ReadFromAll tree folder paths items ∧
      items.foldl (fun s item ↦ visit item.path item.members s) state = final := by
  have hnone : (([] : List Item).map (·.name)).Nodup := List.nodup_nil
  rw [visitItemsFrom_eq_ok_iff hnone]
  constructor
  · rintro ⟨_, rfl, hpaths, hread, hnodup, hfinal⟩
    exact ⟨⟨hpaths, hread, hnodup⟩, hfinal⟩
  · rintro ⟨⟨hpaths, hread, hnodup⟩, hfinal⟩
    exact ⟨items, rfl, hpaths, hread, hnodup, hfinal⟩

/-- What a visitor is shown makes no difference to what is read. -/
theorem visitItemsFrom_fst :
    (visitItemsFrom visit tree folder read state paths).1 =
      readItemsFrom tree folder read paths := by
  induction paths generalizing read state with
  | nil => rfl
  | cons path paths ih =>
    rw [visitItemsFrom, readItemsFrom]
    cases readItem tree folder path with
    | error e => rfl
    | ok item =>
      dsimp only [bind, Except.bind]
      split
      · rfl
      · exact ih

/-! ### Whole folders -/

/-- The paths that are visited are those of the files below the folder whose names end in `.json`:
nothing stands at an absolute path. -/
theorem mem_visitedPaths_iff (htree : tree.Navigable) :
    path ∈ visitedPaths tree place ↔ ∃ text, IsJsonFile tree place path text := by
  rw [visitedPaths]
  split
  · next hroot => exact mem_itemPaths_iff htree hroot
  · next hroot =>
    refine iff_of_false List.not_mem_nil ?_
    rintro ⟨text, ⟨trail, hne, -, rfl⟩, -, hholds⟩
    obtain ⟨hadmits, -⟩ := FileTree.textAt_eq_ok_iff.1 hholds
    exact hadmits.usable.relative.elim hroot fun hnil ↦ hne (List.append_eq_nil_iff.1 hnil).2

theorem nodup_visitedPaths (htree : tree.Navigable) : (visitedPaths tree place).Nodup := by
  rw [visitedPaths]
  split
  · exact nodup_itemPaths htree
  · exact List.nodup_nil

theorem pairwise_visitedPaths (htree : tree.Navigable) :
    (visitedPaths tree place).Pairwise fun p q ↦ List.Lex (· < ·) p.parts q.parts := by
  rw [visitedPaths]
  split
  · exact pairwise_itemPaths htree
  · exact .nil

/-- A file states the item that it is read into. -/
theorem states_of_readItem (hfile : IsJsonFile tree place path text)
    (h : readItem tree folder path = .ok item) :
    States text item.members item.name := by
  obtain ⟨-, text', htext, hstates⟩ := readItem_eq_ok_iff.1 h
  cases hfile.holds.symm.trans htext
  exact hstates

theorem States.name_eq {members' : Entries Json} {name' : String} (h : States text members name)
    (h' : States text members' name') : name = name' := by
  cases h.document.symm.trans h'.document
  cases h.named.symm.trans h'.named
  rfl

variable (hpaths : ∀ path, path ∈ paths ↔ ∃ text, IsJsonFile tree place path text)

include hpaths in
theorem ReadFromAll.lists (hascending : paths.Pairwise fun p q ↦ List.Lex (· < ·) p.parts q.parts)
    (h : ReadFromAll tree folder paths items) : Lists tree place items := by
  obtain ⟨rfl, hread, hnodup⟩ := h
  refine ⟨fun path text hfile ↦ ?_, fun item hitem ↦ ?_, hnodup,
    List.Pairwise.of_map (·.path) (fun _ _ hlt ↦ hlt) hascending⟩
  · exact List.mem_map.1 ((hpaths path).2 ⟨text, hfile⟩)
  · obtain ⟨text, hfile⟩ := (hpaths item.path).1 (List.mem_map_of_mem hitem)
    exact ⟨text, hfile, states_of_readItem hfile (hread item hitem)⟩

include hpaths in
/-- A folder can be read exactly if there are items that are read from all its files. -/
theorem isReadable_iff (hnodup : paths.Nodup) :
    IsReadable tree place ↔ ∃ items, ReadFromAll tree folder paths items := by
  constructor
  · rintro ⟨hstates, hdistinct⟩
    have hitem (path : Path) (hpath : path ∈ paths) :
        ∃ item, readItem tree folder path = .ok item := by
      obtain ⟨text, hfile⟩ := (hpaths path).1 hpath
      obtain ⟨members, name, hitem⟩ := hstates path text hfile
      exact ⟨⟨path, name, members⟩, readItem_eq_ok_iff.2 ⟨rfl, text, hfile.holds, hitem⟩⟩
    have : Nonempty Item := ⟨⟨default, "", []⟩⟩
    choose! itemAt hitem using hitem
    have hplace (path : Path) (hpath : path ∈ paths) : (itemAt path).path = path :=
      (readItem_eq_ok_iff.1 (hitem path hpath)).1
    refine ⟨paths.map itemAt, ?_, List.forall_mem_map.2 fun path hpath ↦ ?_, ?_⟩
    · rw [List.map_map]
      exact (List.map_congr_left hplace).trans (List.map_id' _)
    · rw [hplace path hpath, hitem path hpath]
    · rw [List.map_map]
      refine hnodup.map_on fun path hpath path' hpath' heq ↦ ?_
      obtain ⟨text, hfile⟩ := (hpaths path).1 hpath
      obtain ⟨text', hfile'⟩ := (hpaths path').1 hpath'
      exact hdistinct path path' text text' _ _ _ hfile hfile'
        (states_of_readItem hfile (hitem path hpath)) ((show (itemAt path).name =
          (itemAt path').name from heq) ▸ states_of_readItem hfile' (hitem path' hpath'))
  · rintro ⟨items, rfl, hread, hnames⟩
    constructor
    · intro path text hfile
      obtain ⟨item, hitem, rfl⟩ := List.mem_map.1 ((hpaths path).2 ⟨text, hfile⟩)
      exact ⟨_, _, states_of_readItem hfile (hread item hitem)⟩
    · intro path path' text text' members members' name hfile hfile' hstates hstates'
      obtain ⟨item, hitem, rfl⟩ := List.mem_map.1 ((hpaths path).2 ⟨text, hfile⟩)
      obtain ⟨item', hitem', rfl⟩ := List.mem_map.1 ((hpaths path').2 ⟨text', hfile'⟩)
      have hname : item.name = name := (states_of_readItem hfile (hread item hitem)).name_eq hstates
      have hname' : item'.name = name :=
        (states_of_readItem hfile' (hread item' hitem')).name_eq hstates'
      rw [List.inj_on_of_nodup_map hnames hitem hitem' (hname.trans hname'.symm)]

/-- What reading a folder comes to, with what the visitor has come to. -/
structure Settles (visit : Path → Entries Json → σ → σ) (tree : FileTree) (place : Path) (state : σ)
    (outcome : Except CatalogError (List Item) × σ) : Prop where
  /-- A path with a zero character in it is refused before anything is looked for. -/
  refused : place.hasZero = true → outcome = (.error (.file (.about place .zeroCharacter)), state)
  /-- Any other folder is read exactly if each file below it states an item of its own name. -/
  succeeds : place.hasZero = false → ((∃ items, outcome.1 = .ok items) ↔ IsReadable tree place)
  /-- What is read are the items that the files state, in the order of the paths. -/
  lists : ∀ items, outcome.1 = .ok items → Lists tree place items
  /-- The visitor was shown the items that are read, each with its path, in their order. -/
  shown : ∀ items, outcome.1 = .ok items →
    outcome.2 = items.foldl (fun s item ↦ visit item.path item.members s) state

/-- A folder is read into the items that the files below it state, if each states an item of its own
name. -/
theorem settles_visitItems (htree : tree.Navigable)
    (visit : Path → Entries Json → σ → σ) (state : σ) :
    Settles visit tree (schema.joinText folder) state
      (visitItems visit tree schema folder state) := by
  generalize hplace : schema.joinText folder = place
  rw [visitItems, hplace]
  split
  · next hzero =>
    exact ⟨fun _ ↦ rfl, fun hnone ↦ (Bool.false_ne_true (hnone.symm.trans hzero)).elim,
      nofun, nofun⟩
  · next hzero =>
    have hpaths (path : Path) : path ∈ visitedPaths tree place ↔
        ∃ text, IsJsonFile tree place path text :=
      mem_visitedPaths_iff htree
    have hrun (items : List Item)
        (h : (visitItemsFrom visit tree folder [] state (visitedPaths tree place)).1 = .ok items) :=
      visitItemsFrom_nil_eq_ok_iff.1 (Prod.ext h rfl)
    refine ⟨fun h ↦ absurd h hzero, fun _ ↦ ?_, fun items h ↦ ?_,
      fun items h ↦ (hrun items h).2.symm⟩
    · rw [isReadable_iff hpaths (nodup_visitedPaths htree)]
      exact ⟨fun ⟨items, h⟩ ↦ ⟨items, (hrun items h).1⟩,
        fun ⟨items, h⟩ ↦ ⟨items, congrArg Prod.fst (visitItemsFrom_nil_eq_ok_iff.2 ⟨h, rfl⟩)⟩⟩
    · exact (hrun items h).1.lists hpaths (pairwise_visitedPaths htree)

/-- A schema with a folder of objects: a file, and a directory whose name ends like that of a
file. -/
def nestedObjects : FileTree :=
  .dir [("schema", .dir [("objects", .dir [
    ("b.json", .file "\x7b\"name\": \"user\"\x7d"),
    ("a.json", .dir [("c.json", .file "\x7b\"name\": \"file\"\x7d"), ("notes.txt", .file "")])])])]

theorem navigable_nestedObjects : nestedObjects.Navigable := by
  simp +decide [nestedObjects]

/-- The file of the directory comes first: `a.json` is smaller than `b.json`. -/
theorem itemPaths_nestedObjects : itemPaths nestedObjects ⟨"", ["schema", "objects"]⟩ =
    [⟨"", ["schema", "objects", "a.json", "c.json"]⟩, ⟨"", ["schema", "objects", "b.json"]⟩] := by
  have hlocate :
      nestedObjects.locate ⟨"", ["schema", "objects"]⟩ = .ok (["schema", "objects"], some (.dir [
      ("b.json", .file "\x7b\"name\": \"user\"\x7d"),
      ("a.json",
        .dir [("c.json", .file "\x7b\"name\": \"file\"\x7d"), ("notes.txt", .file "")])])) := rfl
  have hfound : itemPaths nestedObjects ⟨"", ["schema", "objects"]⟩ = List.mergeSort
      [⟨"", ["schema", "objects", "b.json"]⟩,
        ⟨"", ["schema", "objects", "a.json", "c.json"]⟩] Path.le := by
    rw [itemPaths, hlocate]
    exact congrArg (List.mergeSort · Path.le) (by decide +kernel)
  rw [hfound]
  simp +decide [List.mergeSort]

theorem visitItems_nestedObjects :
    visitItems (fun path _ shown ↦ shown ++ [path.name]) nestedObjects
      ⟨"", ["schema"]⟩ "objects" [] =
      (.ok [⟨⟨"", ["schema", "objects", "a.json", "c.json"]⟩, "file", [("name", .str "file")]⟩,
        ⟨⟨"", ["schema", "objects", "b.json"]⟩, "user", [("name", .str "user")]⟩], ["c.json",
        "b.json"]) := by
  have hplace : Path.joinText ⟨"", ["schema"]⟩ "objects" = ⟨"", ["schema", "objects"]⟩ := by decide
  rw [visitItems, hplace, if_neg (by decide), visitedPaths, if_pos rfl, itemPaths_nestedObjects,
    visitItemsFrom_nil_eq_ok_iff]
  refine ⟨⟨rfl, ?_, by decide⟩, rfl⟩
  rw [List.forall_mem_cons, List.forall_mem_cons]
  refine ⟨?_, ?_, nofun⟩
  · rw [readItem_eq_ok_iff]
    exact ⟨rfl, "\x7b\"name\": \"file\"\x7d", rfl, by cbv, rfl, by decide⟩
  · rw [readItem_eq_ok_iff]
    exact ⟨rfl, "\x7b\"name\": \"user\"\x7d", rfl, by cbv, rfl, by decide⟩

theorem settles_nestedObjects : nestedObjects.Navigable ∧
    Settles (fun path _ shown ↦ shown ++ [path.name]) nestedObjects
      (Path.joinText ⟨"", ["schema"]⟩ "objects") []
      (.ok [⟨⟨"", ["schema", "objects", "a.json", "c.json"]⟩, "file", [("name", .str "file")]⟩,
        ⟨⟨"", ["schema", "objects", "b.json"]⟩, "user", [("name", .str "user")]⟩], ["c.json",
        "b.json"]) :=
  ⟨navigable_nestedObjects,
    visitItems_nestedObjects ▸ settles_visitItems navigable_nestedObjects _ _⟩

/-- Nothing is found at a path with a zero character in it, so nothing there keeps a folder from
being read. -/
theorem isReadable_of_hasZero (h : place.hasZero = true) : IsReadable tree place := by
  have hnone (path : Path) (text : String) (hfile : IsJsonFile tree place path text) : False := by
    obtain ⟨⟨trail, -, -, rfl⟩, -, hholds⟩ := hfile
    have hzero := (FileTree.textAt_eq_ok_iff.1 hholds).1.of_append.usable.noZero
    exact Bool.false_ne_true (hzero.symm.trans h)
  exact ⟨fun path text hfile ↦ (hnone path text hfile).elim,
    fun path _ text _ _ _ _ hfile ↦ (hnone path text hfile).elim⟩

/-- A folder whose path has a zero character in it cannot be read, although no file below it stands
in the way. -/
theorem visitItems_zeroFolder :
    ¬ ((∃ items, (visitItems (fun path _ shown ↦ shown ++ [path]) nestedObjects
      ⟨"", ["schema"]⟩ "objects\x00" []).1 =
      .ok items) ↔ IsReadable nestedObjects (Path.joinText ⟨"", ["schema"]⟩ "objects\x00")) := by
  have hzero : (Path.joinText ⟨"", ["schema"]⟩ "objects\x00").hasZero = true := by decide
  rw [visitItems, if_pos hzero]
  exact fun h ↦ nomatch h.2 (isReadable_of_hasZero hzero)

/-! ### Folders of a schema -/

/-- What stands at an absolute path is not known. -/
theorem itemPaths_of_absolute (hroot : place.root ≠ "") (hparts : place.parts ≠ []) :
    itemPaths tree place = [] := by
  refine List.eq_nil_iff_forall_not_mem.2 fun path hpath ↦ ?_
  obtain ⟨start, node, hlocate, -⟩ := mem_itemPaths_iff_files.1 hpath
  exact (FileTree.locate_ok hlocate).1.usable.relative.elim hroot hparts

/-- Of a folder that is given by its name, the items are those that are read when nobody is shown
them. -/
theorem fst_visitItems (hschema : schema.hasZero = false) (hname : Path.IsName folder)
    (hfolder : folder.toList.contains '\x00' = false) :
    (visitItems visit tree schema folder state).1 = readItems tree schema folder := by
  obtain ⟨c, cs, hcs⟩ :=
    List.exists_cons_of_ne_nil fun hnil ↦ hname.nonempty (String.toList_eq_nil_iff.1 hnil)
  have hrelative : (Path.ofString folder).root = "" :=
    Path.root_ofString_cons hcs fun heq ↦ hname.noSlash (hcs ▸ heq ▸ List.mem_cons_self)
  have hplace : schema.joinText folder = schema.child folder := by
    rw [Path.joinText, Path.join, if_pos hrelative, Path.parts_ofString, hname.partsOf_eq]
    rfl
  have hzero : ¬ (schema.child folder).hasZero = true := by
    rw [Path.hasZero, Path.child, List.any_append, Bool.not_eq_true, Bool.or_eq_false_iff]
    exact ⟨hschema, by simpa using hfolder⟩
  rw [visitItems, hplace, if_neg hzero, visitItemsFrom_fst, readItems, visitedPaths]
  split
  · rfl
  · next hroot => rw [itemPaths_of_absolute hroot (List.concat_ne_nil _ _)]

end EventSchema.Catalog

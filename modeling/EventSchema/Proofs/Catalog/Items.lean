import EventSchema.Proofs.Catalog.Reading

/-!
# Items and what is made of them

An item is what its file states (`readItem_eq_ok_iff`), so the items of a folder have the members of
its files (`readItems_members`), and resolving includes keeps the names and the members of items
(`items_of_resolveIncludes`). An item without a name, or with an empty one, is refused when it is
read, so no object of a catalog has an empty name (`empty_not_mem_names`), and no attribute refers
to one.
-/

namespace EventSchema.Catalog

variable {tree : FileTree} {folder text : String} {schema path : Path}
  {members : Entries Json} {item : Item}

/-! ### Items -/

/-- A folder that is missing has no items. -/
theorem readItems_of_missing {trail : List String}
    (h : tree.locate (schema.child folder) = .ok (trail, none)) :
    readItems tree schema folder = .ok [] := by
  have hpaths : itemPaths tree (schema.child folder) = [] := by
    rw [itemPaths, h]
    exact List.mergeSort_nil
  rw [readItems, hpaths]
  rfl

/-- What is not there has no items. -/
theorem readItems_of_not_exists (h : tree.pathExists (schema.child folder) = .ok false) :
    readItems tree schema folder = .ok [] := by
  rcases hlocate : tree.locate (schema.child folder) with e | ⟨trail, _ | node⟩
  · have hpaths : itemPaths tree (schema.child folder) = [] := by
      rw [itemPaths, hlocate]
      exact List.mergeSort_nil
    rw [readItems, hpaths]
    rfl
  · exact readItems_of_missing hlocate
  · rw [FileTree.pathExists, FileTree.look, hlocate] at h
    cases h

theorem filesOfEntries_map_file (files : List (String × String)) :
    FileTree.filesOfEntries (files.map fun f ↦ (f.1, .file f.2)) = files.map
      fun f ↦ ([f.1], f.2) := by
  induction files with
  | nil => rfl
  | cons f files ih =>
    rw [List.map_cons, List.map_cons, FileTree.filesOfEntries, ih]
    rfl

/-- In a folder of nothing but files with the right ending, in order, all are visited. -/
theorem itemPaths_of_files {place : Path} {trail : List String} (files : List (String × String))
    (h : tree.locate place = .ok (trail, some (.dir (files.map fun f ↦ (f.1, .file f.2)))))
    (hjson : ∀ f ∈ files, f.1.endsWith ".json" = true)
    (hsorted : (files.map fun f ↦ (⟨place.root, place.parts ++ [f.1]⟩ : Path)).Pairwise
      fun p q ↦ p.le q = true) :
    itemPaths tree place = files.map fun f ↦ ⟨place.root, place.parts ++ [f.1]⟩ := by
  unfold itemPaths
  rw [h]
  dsimp only
  rw [FileTree.files, filesOfEntries_map_file, List.filterMap_map]
  refine (congrArg (List.mergeSort · Path.le) ?_).trans (List.mergeSort_of_pairwise hsorted)
  rw [← List.filterMap_eq_map]
  refine List.filterMap_congr fun f hf ↦ ?_
  simp [hjson f hf]

/-- The items of such a folder are read file by file. -/
theorem readItems_of_files {trail : List String} (files : List (String × String))
    (h : tree.locate (schema.child folder) =
      .ok (trail, some (.dir (files.map fun f ↦ (f.1, .file f.2)))))
    (hjson : ∀ f ∈ files, f.1.endsWith ".json" = true)
    (hsorted : (files.map fun f ↦
      (⟨schema.root, (schema.child folder).parts ++ [f.1]⟩ : Path)).Pairwise
      fun p q ↦ p.le q = true) :
    readItems tree schema folder =
      readItemsFrom tree folder []
        (files.map fun f ↦ ⟨schema.root, (schema.child folder).parts ++ [f.1]⟩) :=
  congrArg (readItemsFrom tree folder []) (itemPaths_of_files files h hjson hsorted)

/-- The items of a folder of one file are what is read from that. -/
theorem readItems_of_file {trail : List String} {name : String}
    (h : tree.locate (schema.child folder) = .ok (trail, some (.dir [(name, .file text)])))
    (hjson : name.endsWith ".json" = true) :
    readItems tree schema folder =
      readItemsFrom tree folder [] [(schema.child folder).child name] :=
  readItems_of_files [(name, text)] h (List.forall_mem_singleton.2 hjson)
    (List.pairwise_singleton _ _)

/-- A text is the document of an object with some members. -/
def IsDocument (text : String) (members : Entries Json) : Prop :=
  Json.read (String.ofList (Text.unifyLineEnds text.toList)) = .ok (.obj members)

theorem append_eq_ofList {s t : String} {cs ds : List Char} (hs : s = String.ofList cs)
    (ht : t = String.ofList ds) :
    s ++ t = String.ofList (cs ++ ds) := by rw [hs, ht, String.ofList_append]

/-- What a document says is read off its characters. -/
theorem IsDocument.of_chars {text : String} {cs : List Char} {members : Entries Json}
    (htext : text = String.ofList cs) (hread : Json.readChars (Text.unifyLineEnds cs) =
      .ok (.obj members)) : IsDocument text members := by
  rw [IsDocument, Json.read, htext, String.toList_ofList, String.toList_ofList, hread]

/-- A text states an item: it is a JSON document of an object, and the name in it is a text that is
not empty. -/
structure States (text : String) (members : Entries Json) (name : String) : Prop where
  document : IsDocument text members
  named : members.get? "name" = some (.str name)
  ne_empty : name ≠ ""

theorem readObject_eq_ok_iff : readObject tree path = .ok members ↔
    ∃ text, tree.textAt path = .ok text ∧ IsDocument text members := by
  simp only [readObject, IsDocument]
  cases tree.textAt path with
  | error e => exact iff_of_false nofun fun ⟨_, h, _⟩ ↦ nomatch h
  | ok text =>
    simp only [Except.ok.injEq, exists_eq_left']
    split <;> simp_all

/-- An item is read from the file that states it. -/
theorem readItem_eq_ok_iff : readItem tree folder path = .ok item ↔
    item.path = path ∧ ∃ text, tree.textAt path = .ok text ∧
    States text item.members item.name := by
  constructor
  · intro h
    obtain ⟨members, hmembers, h⟩ := bind_eq_ok h
    obtain ⟨text, htext, hread⟩ := readObject_eq_ok_iff.1 hmembers
    dsimp only at h
    split at h
    · next hgiven =>
      split at h <;> cases h
      next name hname =>
        cases hget : members.get? "name" with
        | none => rw [hget] at hname; cases hname
        | some v =>
          rw [hget, Option.getD_some] at hname
          rw [hget, hname] at hgiven
          exact ⟨rfl, text, htext, hread, hname ▸ hget, by simpa [Json.isGiven] using hgiven⟩
    · cases h
  · rintro ⟨rfl, text, htext, hread, hname, hne⟩
    have hgiven : (Json.str item.name).isGiven = true := by simpa [Json.isGiven] using hne
    rw [readItem, readObject_eq_ok_iff.2 ⟨text, htext, hread⟩]
    change (if ((item.members.get? "name").getD .null).isGiven then _ else _) = _
    rw [hname, Option.getD_some, if_pos hgiven]

theorem readItem_name (h : readItem tree folder path = .ok item) : item.name ≠ "" := by
  obtain ⟨-, _, -, hstates⟩ := readItem_eq_ok_iff.1 h
  exact hstates.ne_empty

/-- What holds of every item that is read from one of the paths holds of all items of a folder. -/
theorem forall_mem_readItemsFrom {P : Item → Prop} {read items : List Item} {paths : List Path}
    (hitem : ∀ path ∈ paths, ∀ item, readItem tree folder path = .ok item → P item)
    (hread : ∀ item ∈ read, P item) (h : readItemsFrom tree folder read paths = .ok items) :
    ∀ item ∈ items, P item := by
  induction paths generalizing read with
  | nil =>
    cases h
    exact hread
  | cons path paths ih =>
    obtain ⟨item, hread', h⟩ := bind_eq_ok h
    split at h
    · cases h
    · refine ih (fun path' hpath' ↦ hitem path' (List.mem_cons_of_mem path hpath'))
        (fun other hother ↦ ?_) h
      rcases List.mem_append.1 hother with hother | hother
      · exact hread other hother
      · exact List.mem_singleton.1 hother ▸ hitem path List.mem_cons_self item hread'

theorem readItems_name {items : List Item} (h : readItems tree schema folder = .ok items) :
    ∀ item ∈ items, item.name ≠ "" :=
  forall_mem_readItemsFrom (fun _ _ _ ↦ readItem_name) (fun _ hmem ↦ absurd hmem List.not_mem_nil) h

/-- An item has the members of a file of its folder. -/
theorem readItems_members {items : List Item} (h : readItems tree schema folder = .ok items) :
    ∀ item ∈ items, item.path ∈ itemPaths tree (schema.child folder) ∧
      readObject tree item.path = .ok item.members := by
  refine forall_mem_readItemsFrom (fun path hpath item hitem ↦ ?_)
    (fun _ hmem ↦ absurd hmem List.not_mem_nil) h
  obtain ⟨rfl, text, htext, hstates⟩ := readItem_eq_ok_iff.1 hitem
  exact ⟨hpath, readObject_eq_ok_iff.2 ⟨text, htext, hstates.document⟩⟩

/-! ### Includes -/

/-- Steps over a list that hand on what they are about keep the list. -/
theorem map_fst_of_mapM {α β : Type} {f : α → InclusionM β} {as : List α} {bs : List (α × β)}
    {s s' : Includes} {j : Journal}
    (h : (execute ((as.mapM fun a ↦ do pure (a, ← f a)).run s) j).1 = .ok (bs, s')) :
    bs.map Prod.fst = as := by
  induction as generalizing bs s s' j with
  | nil =>
    cases h
    rfl
  | cons a as ih =>
    rw [List.mapM_cons] at h
    obtain ⟨⟨⟨first, b⟩, s₁⟩, j₁, hfirst, h⟩ := execute_bind_eq_ok h
    obtain ⟨⟨bs', s₂⟩, j₂, hrest, h⟩ := execute_bind_eq_ok h
    obtain ⟨⟨b', s₃⟩, j₃, -, hfirst⟩ := execute_bind_eq_ok (congrArg Prod.fst hfirst)
    cases h
    cases hfirst
    rw [List.map_cons, ih (congrArg Prod.fst hrest)]

/-- Resolving includes keeps the names and the members of items. -/
theorem items_of_resolveIncludes {profiles events objects : List Item}
    {events' objects' : List ResolvedItem} {j : Journal}
    (h : (execute (resolveIncludes tree schema profiles events objects) j).1 =
      .ok (events', objects')) :
    events'.map (fun r ↦ (r.name, r.members)) = events.map (fun i ↦ (i.name, i.members)) ∧
      objects'.map (fun r ↦ (r.name, r.members)) = objects.map (fun i ↦ (i.name, i.members)) := by
  obtain ⟨⟨⟨foundEvents, foundObjects⟩, s⟩, _, hall, h⟩ := execute_bind_eq_ok h
  cases h
  obtain ⟨⟨_, s₁⟩, _, -, hall⟩ := execute_bind_eq_ok (congrArg Prod.fst hall)
  obtain ⟨⟨found, s₂⟩, _, hevents, hall⟩ := execute_bind_eq_ok hall
  obtain ⟨⟨found', s₃⟩, _, hobjects, hall⟩ := execute_bind_eq_ok hall
  cases hall
  rw [← map_fst_of_mapM (congrArg Prod.fst hevents), ← map_fst_of_mapM (congrArg Prod.fst hobjects)]
  simp only [List.map_map]
  exact ⟨rfl, rfl⟩

/-- Resolving includes keeps the names of items. -/
theorem names_of_resolveIncludes {profiles events objects : List Item}
    {events' objects' : List ResolvedItem} {j : Journal}
    (h : (execute (resolveIncludes tree schema profiles events objects) j).1 =
      .ok (events', objects')) :
    events'.map (·.name) = events.map (·.name) ∧ objects'.map (·.name) = objects.map (·.name) := by
  have hnames {resolved : List ResolvedItem} {items : List Item}
      (h : resolved.map (fun r ↦ (r.name, r.members)) = items.map fun i ↦ (i.name, i.members)) :
      resolved.map (·.name) = items.map (·.name) := by
    have hfirst := congrArg (List.map Prod.fst) h
    rwa [List.map_map, List.map_map] at hfirst
  exact (items_of_resolveIncludes h).imp hnames hnames

/-! ### Definitions of items -/

variable {dict : Dictionary} {kind : EntityKind} {n : String} {d : Definition} {item : ResolvedItem}
  {items : List ResolvedItem}

/-- Every definition was read from an item of its name. -/
theorem exists_item_of_readDefinitions {read t : Table Definition}
    (h : readDefinitions dict kind read items = .ok t) (hd : t.get? n = some d) :
    read.get? n = some d ∨ ∃ item ∈ items, item.name = n ∧
    readDefinition dict kind item = .ok d := by
  induction items generalizing read with
  | nil =>
    cases h
    exact .inl hd
  | cons first rest ih =>
    obtain ⟨d', hd', h⟩ := bind_eq_ok h
    rcases ih h with hread | ⟨item, hitem, hname, hdefinition⟩
    · rw [Table.get?_put] at hread
      split at hread
      · next hname =>
        cases hread
        exact .inr ⟨first, List.mem_cons_self, hname, hd'⟩
      · exact .inl hread
    · exact .inr ⟨item, List.mem_cons_of_mem first hitem, hname, hdefinition⟩

theorem get?_readDefinitions_of_not_mem {read t : Table Definition}
    (h : readDefinitions dict kind read items = .ok t)
    (hn : n ∉ items.map (·.name)) : t.get? n = read.get? n := by
  induction items generalizing read with
  | nil =>
    cases h
    rfl
  | cons item rest ih =>
    obtain ⟨d, -, h⟩ := bind_eq_ok h
    obtain ⟨hne, hrest⟩ := not_or.1 (List.mem_cons.not.1 hn)
    rw [ih h hrest, Table.get?_put, if_neg (Ne.symm hne)]

/-- Among items of different names each has its own definition. -/
theorem get?_readDefinitions {read t : Table Definition} (hitems : (items.map (·.name)).Nodup)
    (h : readDefinitions dict kind read items = .ok t) (hitem : item ∈ items) :
    ∃ d, readDefinition dict kind item = .ok d ∧ t.get? item.name = some d := by
  induction items generalizing read with
  | nil => exact absurd hitem List.not_mem_nil
  | cons first rest ih =>
    obtain ⟨d, hd, h⟩ := bind_eq_ok h
    obtain ⟨hfresh, hrest⟩ := List.nodup_cons.1 hitems
    rcases List.mem_cons.1 hitem with rfl | hitem
    · exact ⟨d, hd, (get?_readDefinitions_of_not_mem h hfresh).trans
        ((Table.get?_put _ _ _ _).trans (if_pos rfl))⟩
    · exact ih hrest h hitem

/-- The items of a folder have different names. -/
theorem nodup_readItems {folder : String} {items : List Item}
    (h : readItems tree schema folder = .ok items) :
    (items.map (·.name)).Nodup := by
  have hfrom (paths : List Path) (read : List Item) (hread : (read.map (·.name)).Nodup)
      (h : readItemsFrom tree folder read paths = .ok items) : (items.map (·.name)).Nodup := by
    induction paths generalizing read with
    | nil =>
      cases h
      exact hread
    | cons path paths ih =>
      obtain ⟨item, -, h⟩ := bind_eq_ok h
      split at h
      · cases h
      · next hnone =>
        refine ih _ ?_ h
        rw [List.map_append, List.map_cons, List.map_nil, List.nodup_append]
        refine ⟨hread, by simp, fun n hn m hm heq ↦ ?_⟩
        obtain ⟨other, hother, rfl⟩ := List.mem_map.1 hn
        rw [List.mem_singleton.1 hm] at heq
        exact List.find?_eq_none.1 hnone other hother (decide_eq_true heq)
  exact hfrom _ [] .nil h

theorem ReadFrom.nodup {c : Catalog} {objects events : List ResolvedItem}
    (h : ReadFrom tree schema dict objects events c) :
    (objects.map (·.name)).Nodup ∧ (events.map (·.name)).Nodup := by
  obtain ⟨profiles, eventItems, objectItems, j, -, hevents, hobjects, hincludes, -⟩ := h.items
  obtain ⟨heventNames, hobjectNames⟩ := names_of_resolveIncludes hincludes
  rw [hobjectNames, heventNames]
  exact ⟨nodup_readItems hobjects, nodup_readItems hevents⟩

/-! ### Catalogs -/

/-- No object of a catalog that was read has an empty name. -/
theorem empty_not_mem_names {j : Journal} {c : Catalog}
    (h : (execute (read tree schema) j).1 = .ok c) : "" ∉ c.objects.names := by
  obtain ⟨dict, objects, events, -, ⟨_, _, objectItems, _, -, hitems, hincludes⟩, hobjects, -⟩ :=
    definitions_of_read h
  rw [mem_names_readDefinitions hobjects, (names_of_resolveIncludes hincludes).2]
  rintro (hn | hn)
  · exact List.not_mem_nil hn
  · obtain ⟨item, hitem, hname⟩ := List.mem_map.1 hn
    exact readItems_name hitems item hitem hname

end EventSchema.Catalog

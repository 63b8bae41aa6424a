import EventSchema.Package.Linking

/-!
# Full names of modules

The modules of a package are those whose names go on behind its name and a dot (`isWithin_iff`), and
the package around a module can be read off its name (`enclosing_inPackage`). Names that differ
before a dot are names of packages that have no module in common (`not_belongs_of_ne`).
-/

namespace EventSchema.Package

variable {package m n : String}

/-! ### Modules in packages -/

theorem toList_inPackage (package name : String) :
    (inPackage package name).toList = package.toList ++ '.' :: name.toList := by
  rw [inPackage, String.toList_append, String.toList_append, List.append_assoc]
  rfl

theorem inPackage_inj : inPackage package m = inPackage package n ↔ m = n := by
  refine ⟨fun h ↦ ?_, congrArg _⟩
  have hlist := congrArg String.toList h
  rw [toList_inPackage, toList_inPackage] at hlist
  exact String.toList_inj.1 (List.cons.inj (List.append_cancel_left hlist)).2

/-- The modules in a package are those whose names go on behind its name and a dot. -/
theorem isWithin_iff : isWithin package n = true ↔ ∃ rest, n = inPackage package rest := by
  rw [isWithin, List.isPrefixOf_iff_prefix]
  constructor
  · rintro ⟨cs, hcs⟩
    refine ⟨String.ofList cs, String.toList_inj.1 (hcs.symm.trans ?_)⟩
    exact ((String.toList_append ..).trans (congrArg _ String.toList_ofList)).symm
  · rintro ⟨rest, rfl⟩
    exact ⟨rest.toList, (String.toList_append ..).symm⟩

theorem isWithin_inPackage (package name : String) :
    isWithin package (inPackage package name) = true :=
  isWithin_iff.2 ⟨name, rfl⟩

/-- Without a dot of its own the last part of a name is what stands behind the last dot. -/
theorem enclosing_inPackage (h : '.' ∉ n.toList) : enclosing (inPackage package n) = package := by
  have hdrop :
      (inPackage package n).toList.reverse.dropWhile (· ≠ '.') = '.' :: package.toList.reverse := by
    rw [toList_inPackage, List.reverse_append, List.reverse_cons, List.append_assoc,
      List.dropWhile_append_of_pos]
    · rfl
    · exact fun x hx ↦ decide_eq_true fun heq ↦ h (heq ▸ List.mem_reverse.1 hx)
  rw [enclosing, hdrop]
  exact (congrArg String.ofList (List.reverse_reverse _)).trans String.ofList_toList

/-! ### Names of a package -/

/-- A full name is one of a package or of a module in it. -/
def Belongs (package name : String) : Prop := name = package ∨ isWithin package name = true

theorem belongs_inPackage (package name : String) : Belongs package (inPackage package name) :=
  .inr (isWithin_inPackage package name)

/-- Names of packages are told apart before the dot that follows them. -/
theorem not_belongs_of_ne {place slug other : String} (hslug : '.' ∉ slug.toList)
    (hother : '.' ∉ other.toList) (hne : other ≠ slug) (hm : Belongs (place ++ other) m) :
    ¬ Belongs (place ++ slug) m := by
  -- what stands behind the place, up to a dot
  have htake {name : String} (hname : '.' ∉ name.toList) (h : Belongs (place ++ name) m) :
      (m.toList.drop place.toList.length).takeWhile (· ≠ '.') = name.toList := by
    have hplain : ∀ c ∈ name.toList, decide (c ≠ '.') = true := fun c hc ↦
      decide_eq_true fun heq ↦ hname (heq ▸ hc)
    obtain ⟨tail, htail, hlist⟩ : ∃ tail : List Char, tail.takeWhile (· ≠ '.') = [] ∧
        m.toList = place.toList ++ (name.toList ++ tail) := by
      rcases h with rfl | h
      · exact ⟨[], rfl, by rw [String.toList_append, List.append_nil]⟩
      · obtain ⟨rest, rfl⟩ := isWithin_iff.1 h
        exact ⟨'.' :: rest.toList,
          rfl, by rw [toList_inPackage, String.toList_append, List.append_assoc]⟩
    rw [hlist, List.drop_left, List.takeWhile_append_of_pos hplain, htail, List.append_nil]
  exact fun h ↦ hne (String.toList_inj.1 ((htake hother hm).symm.trans (htake hslug h)))

end EventSchema.Package

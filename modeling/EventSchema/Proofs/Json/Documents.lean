import EventSchema.Json.Reader
import EventSchema.Proofs.Json.Merging

/-!
# What JSON documents hold

Whatever is read from a document has every name of an object once (`Json.wellFormed_of_read`), since
a repeated name takes its place among the members that were read before.
-/

namespace EventSchema.Json

variable {cs rest : List Char} {v : Json} {fuel : Nat}

theorem wellFormed_of_readDigits {start : Nat} {negative : Bool}
    (h : readDigits start negative cs = .ok (v, rest)) :
    v.WellFormed := by
  unfold readDigits at h
  split at h
  · cases h
  · dsimp only at h
    split at h
    · split at h <;> cases h
      exact wellFormed_of_scalar nofun nofun
    · cases h
      exact wellFormed_of_scalar nofun nofun

theorem wellFormed_of_readScalar (h : readScalar cs = .ok (v, rest)) : v.WellFormed := by
  unfold readScalar at h
  split at h
  · next word w hfound =>
    cases h
    have hmem := List.mem_of_find?_eq_some hfound
    simp only [words, List.mem_cons, List.not_mem_nil, or_false, Prod.mk.injEq] at hmem
    rcases hmem with ⟨-, rfl⟩ | ⟨-, rfl⟩ | ⟨-, rfl⟩ | ⟨-, rfl⟩ | ⟨-, rfl⟩ | ⟨-, rfl⟩ <;>
      exact wellFormed_of_scalar nofun nofun
  · split at h
    · exact wellFormed_of_readDigits h
    · exact wellFormed_of_readDigits h

theorem wellFormed_of_readItems {item : List Char → Step Json}
    (hitem : ∀ cs v rest, item cs = .ok (v, rest) → v.WellFormed) {read : List Json}
    (hread : ∀ v ∈ read, v.WellFormed) (h : readItems item fuel read cs = .ok (v, rest)) :
    v.WellFormed := by
  induction fuel generalizing read cs with
  | zero => cases h
  | succ fuel ih =>
    unfold readItems at h
    split at h
    · cases h
    · next w after hw =>
      have hmore : ∀ v ∈ w :: read, v.WellFormed := List.forall_mem_cons.2 ⟨hitem _ _ _ hw, hread⟩
      split at h
      · cases h
        rw [WellFormed, wellFormedItems_iff]
        exact fun v hv ↦ hmore v (List.mem_reverse.1 hv)
      · exact ih hmore h
      · cases h

/-- A member of a name that was read before takes the place of that. -/
theorem wellFormed_of_readMembers {value : List Char → Step Json}
    (hvalue : ∀ cs v rest, value cs = .ok (v, rest) → v.WellFormed) {read : Entries Json}
    (hread : (Json.obj read).WellFormed) (h : readMembers value fuel read cs = .ok (v, rest)) :
    v.WellFormed := by
  induction fuel, read, cs using readMembers.induct value with
  | case1 read cs => cases h
  | case2 fuel read cs e hname => simp only [readMembers, hname] at h; cases h
  | case3 fuel read cs name afterName hname afterColon hcolon e hw =>
    simp only [readMembers, hname, hcolon, hw] at h
    cases h
  | case4 fuel read cs name afterName hname afterColon hcolon w after hw rest' hend =>
    simp only [readMembers, hname, hcolon, hw, hend] at h
    cases h
    exact hread.put (hvalue _ _ _ hw) name
  | case5 fuel read cs name afterName hname afterColon hcolon w after hw rest' hcomma ih =>
    simp only [readMembers, hname, hcolon, hw, hcomma] at h
    exact ih (hread.put (hvalue _ _ _ hw) name) h
  | case6 fuel read cs name afterName hname afterColon hcolon w after hw hend hcomma =>
    simp only [readMembers, hname, hcolon, hw] at h
    cases h
  | case7 fuel read cs name afterName hname hcolon =>
    simp only [readMembers, hname] at h
    cases h
  | case8 read fuel cs hquote =>
    rw [readMembers] at h
    · cases h
    · exact hquote

theorem wellFormed_of_readValue (h : readValue fuel cs = .ok (v, rest)) : v.WellFormed := by
  induction fuel generalizing cs v rest with
  | zero => cases h
  | succ fuel ih =>
    unfold readValue at h
    split at h
    · split at h <;> cases h
      exact wellFormed_of_scalar nofun nofun
    · split at h
      · cases h
        rw [WellFormed, WellFormedItems]
        trivial
      · exact wellFormed_of_readItems (fun _ _ _ ↦ ih) (List.forall_mem_nil _) h
    · split at h
      · cases h
        exact wellFormed_obj_nil
      · exact wellFormed_of_readMembers (fun _ _ _ ↦ ih) wellFormed_obj_nil h
    · exact wellFormed_of_readScalar h

/-- Documents have the names of their objects once. -/
theorem wellFormed_of_read {s : String} (h : read s = .ok v) : v.WellFormed := by
  unfold read readChars at h
  dsimp only at h
  split at h
  · next w rest hw =>
    cases h
    split at hw
    · cases hw
    · split at hw
      · cases hw
      · next found after hfound =>
        split at hw <;> cases hw
        exact wellFormed_of_readValue hfound
  · cases h

end EventSchema.Json

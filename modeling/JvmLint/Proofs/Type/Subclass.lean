import JvmLint.Type.Hierarchy
import Mathlib.Data.Set.Basic
import Mathlib.Logic.Relation
import Mathlib.Tactic.Tauto

/-!
# Subclasses

A search for a supertype succeeds exactly if declared steps lead to it
(`search_eq_true_iff`). When it fails, the names it has seen are closed under
declared steps and none of them declares the target, so no step leads out of them.

Which steps are declared once entries were added does not depend on the order of the
entries, nor on how often they come (`declares_extend`). So classes are ordered alike
whatever the order was (`sameOrder_extend`), and then types are too.
-/
namespace JvmLint.Hierarchy

/-- One class has the other as a declared direct supertype. -/
def Declares (hierarchy : Hierarchy) (sub sup : String) : Prop :=
  sup ∈ hierarchy.supertypes.getD sub []

/-! ## Search -/

section Search

variable {hierarchy : Hierarchy} {target name : String} {pending seen : List String}

theorem declares_iff_of_mem (h : name ∈ hierarchy.supertypes) {parent : String} :
    hierarchy.Declares name parent ↔ parent ∈ hierarchy.supertypes[name] := by
  have hget : hierarchy.supertypes[name] = hierarchy.supertypes.getD name [] :=
    Std.TreeMap.getElem_eq_getD
  rw [Declares, hget]

theorem not_declares_of_not_mem (h : name ∉ hierarchy.supertypes) (parent : String) :
    ¬ hierarchy.Declares name parent := by
  simp [Declares, Std.TreeMap.getD_eq_fallback h]

theorem exists_transGen_of_search (h : hierarchy.search target pending seen) :
    ∃ name ∈ pending, Relation.TransGen hierarchy.Declares name target := by
  fun_induction search hierarchy target pending seen with
  | case1 => cases h
  | case2 seen name rest hfresh hknown parents ih =>
    rw [Bool.or_eq_true, List.contains_iff_mem] at h
    rcases h with htarget | hlater
    · exact ⟨name, by simp, .single ((declares_iff_of_mem hknown).2 htarget)⟩
    · obtain ⟨other, hother, hpath⟩ := ih hlater
      rcases List.mem_append.1 hother with hrest | hparent
      · exact ⟨other, by simp [hrest], hpath⟩
      · exact ⟨name, by simp, .head ((declares_iff_of_mem hknown).2 hparent) hpath⟩
  | case3 seen name rest hfresh hknown ih =>
    obtain ⟨other, hother, hpath⟩ := ih h
    exact ⟨other, by simp [hother], hpath⟩
  | case4 seen name rest hfresh ih =>
    obtain ⟨other, hother, hpath⟩ := ih h
    exact ⟨other, by simp [hother], hpath⟩

/-- No declared step leads from these names to the target, or out of them. -/
structure Avoids (hierarchy : Hierarchy) (target : String) (names : Set String) : Prop where
  not_declares : ∀ name ∈ names, ¬ hierarchy.Declares name target
  closed : ∀ name ∈ names, ∀ parent, hierarchy.Declares name parent → parent ∈ names

theorem Avoids.not_transGen {names : Set String} (h : hierarchy.Avoids target names)
    (hname : name ∈ names) : ¬ Relation.TransGen hierarchy.Declares name target := by
  intro hpath
  induction hpath using Relation.TransGen.head_induction_on with
  | single hstep => exact h.not_declares _ hname hstep
  | head hstep _ ih => exact ih (h.closed _ hname _ hstep)

/-- The names that a search has met. Those without an entry lead nowhere and count as
met from the start. -/
def met (hierarchy : Hierarchy) (pending seen : List String) : Set String :=
  {name | name ∈ pending ∨ name ∈ seen ∨ name ∉ hierarchy.supertypes}

/-- The names that a search has expanded do not declare the target, and it has met
their parents. -/
def Expanded (hierarchy : Hierarchy) (target : String) (pending seen : List String) : Prop :=
  ∀ name ∈ seen, ¬ hierarchy.Declares name target ∧
    ∀ parent, hierarchy.Declares name parent → parent ∈ hierarchy.met pending seen

theorem met_cons_subset (h : name ∈ hierarchy.met pending seen) :
    hierarchy.met (name :: pending) seen ⊆ hierarchy.met pending seen := by
  intro other hother
  rcases hother with hother | hother
  · rcases List.mem_cons.1 hother with rfl | hother
    · exact h
    · exact Or.inl hother
  · exact Or.inr hother

theorem met_cons_subset_expand (more : List String) :
    hierarchy.met (name :: pending) seen ⊆ hierarchy.met (pending ++ more) (name :: seen) := by
  intro other hother
  simp only [met, Set.mem_ofPred_eq, List.mem_cons, List.mem_append] at hother ⊢
  tauto

/-- A step that expands a class. -/
theorem Expanded.expand (h : hierarchy.Expanded target (name :: pending) seen)
    (hknown : name ∈ hierarchy.supertypes) (htarget : target ∉ hierarchy.supertypes[name]) :
    hierarchy.Expanded target (pending ++ hierarchy.supertypes[name]) (name :: seen) := by
  intro other hother
  rcases List.mem_cons.1 hother with rfl | hother
  · refine ⟨fun hdeclares => htarget ((declares_iff_of_mem hknown).1 hdeclares), ?_⟩
    intro parent hparent
    exact Or.inl (List.mem_append_right _ ((declares_iff_of_mem hknown).1 hparent))
  · obtain ⟨hnot, hparents⟩ := h other hother
    exact ⟨hnot, fun parent hparent => met_cons_subset_expand _ (hparents parent hparent)⟩

/-- A step that passes over a name. -/
theorem Expanded.pass (h : hierarchy.Expanded target (name :: pending) seen)
    (hname : name ∈ hierarchy.met pending seen) : hierarchy.Expanded target pending seen := by
  intro other hother
  obtain ⟨hnot, hparents⟩ := h other hother
  exact ⟨hnot, fun parent hparent => met_cons_subset hname (hparents parent hparent)⟩

theorem exists_avoids_of_search (h : hierarchy.search target pending seen = false)
    (hexpanded : hierarchy.Expanded target pending seen) :
    ∃ names, hierarchy.Avoids target names ∧ hierarchy.met pending seen ⊆ names := by
  fun_induction search hierarchy target pending seen with
  | case1 seen =>
    refine ⟨hierarchy.met [] seen, ⟨?_, ?_⟩, subset_rfl⟩
    · rintro name (hname | hname | hname)
      · cases hname
      · exact (hexpanded name hname).1
      · exact not_declares_of_not_mem hname target
    · rintro name (hname | hname | hname) parent hparent
      · cases hname
      · exact (hexpanded name hname).2 parent hparent
      · exact absurd hparent (not_declares_of_not_mem hname parent)
  | case2 seen name rest hfresh hknown parents ih =>
    rw [Bool.or_eq_false_iff] at h
    have htarget : target ∉ parents := by simpa using h.1
    obtain ⟨names, havoids, hmet⟩ := ih h.2 (hexpanded.expand hknown htarget)
    exact ⟨names, havoids, (met_cons_subset_expand _).trans hmet⟩
  | case3 seen name rest hfresh hunknown ih =>
    have hname : name ∈ hierarchy.met rest seen := Or.inr (Or.inr hunknown)
    obtain ⟨names, havoids, hmet⟩ := ih h (hexpanded.pass hname)
    exact ⟨names, havoids, (met_cons_subset hname).trans hmet⟩
  | case4 seen name rest hseen ih =>
    have hname : name ∈ hierarchy.met rest seen := Or.inr (Or.inl (Decidable.not_not.1 hseen))
    obtain ⟨names, havoids, hmet⟩ := ih h (hexpanded.pass hname)
    exact ⟨names, havoids, (met_cons_subset hname).trans hmet⟩

/-- A search from one class finds exactly what declared steps lead to. -/
theorem search_eq_true_iff :
    hierarchy.search target [name] [] = true ↔
      Relation.TransGen hierarchy.Declares name target := by
  constructor
  · intro h
    obtain ⟨other, hother, hpath⟩ := exists_transGen_of_search h
    obtain rfl : other = name := by simpa using hother
    exact hpath
  · intro hpath
    cases hsearch : hierarchy.search target [name] [] with
    | true => rfl
    | false =>
      have hstart : hierarchy.Expanded target [name] [] := fun other hother => nomatch hother
      obtain ⟨names, havoids, hmet⟩ := exists_avoids_of_search hsearch hstart
      exact absurd hpath (havoids.not_transGen (hmet (Or.inl (by simp))))

theorem isSubclass_iff {sub sup : String} :
    hierarchy.isSubclass sub sup ↔
      sub = sup ∨ sup = objectClass ∨ Relation.TransGen hierarchy.Declares sub sup := by
  simp [isSubclass, search_eq_true_iff, or_assoc]

theorem isSubclass_of_declares {sub sup : String} (h : hierarchy.Declares sub sup) :
    hierarchy.isSubclass sub sup :=
  isSubclass_iff.2 (Or.inr (Or.inr (.single h)))

end Search

/-! ## Declarations -/

section Declare

variable {hierarchy : Hierarchy} {sub sup : String}

theorem mem_addParents {known parents : List String} {name : String} :
    name ∈ addParents known parents ↔ name ∈ known ∨ name ∈ parents := by
  unfold addParents
  induction parents generalizing known with
  | nil => simp
  | cons parent rest ih =>
    rw [List.foldl_cons, ih]
    split
    · rename_i hknown
      grind
    · grind

theorem declares_declare {entry : ClassEntry} :
    (hierarchy.declare entry).Declares sub sup ↔
      hierarchy.Declares sub sup ∨ entry.name = sub ∧ sup ∈ entry.parents := by
  unfold Declares declare
  rw [Std.TreeMap.getD_insert]
  by_cases hname : entry.name = sub
  · subst hname
    simp [mem_addParents]
  · simp [hname]

theorem declares_extend {entries : List ClassEntry} :
    (hierarchy.extend entries).Declares sub sup ↔
      hierarchy.Declares sub sup ∨ ∃ entry ∈ entries, entry.name = sub ∧ sup ∈ entry.parents := by
  unfold extend
  induction entries generalizing hierarchy with
  | nil => simp
  | cons entry rest ih =>
    rw [List.foldl_cons, ih, declares_declare]
    simp [or_assoc]

/-- Two hierarchies that order all classes alike. -/
def SameOrder (hierarchy hierarchy' : Hierarchy) : Prop :=
  ∀ sub sup, hierarchy.isSubclass sub sup = hierarchy'.isSubclass sub sup

/-- The order of the entries and repetitions make no difference. -/
theorem sameOrder_extend {entries entries' : List ClassEntry}
    (h : ∀ entry, entry ∈ entries ↔ entry ∈ entries') :
    (hierarchy.extend entries).SameOrder (hierarchy.extend entries') := by
  have hsteps : (hierarchy.extend entries).Declares = (hierarchy.extend entries').Declares := by
    funext sub sup
    simp only [declares_extend, h]
  intro sub sup
  rw [Bool.eq_iff_iff, isSubclass_iff, isSubclass_iff, hsteps]

theorem SameOrder.isSubtype_eq {hierarchy' : Hierarchy} (h : hierarchy.SameOrder hierarchy')
    (type type' : JavaType) : hierarchy.isSubtype type type' = hierarchy'.isSubtype type type' := by
  fun_induction isSubtype hierarchy type type' with
  | case1 => rw [isSubtype]
  | case2 => rw [isSubtype]
  | case3 => rw [isSubtype]
  | case4 sub sup hprimitive => rw [isSubtype, if_pos hprimitive]
  | case5 sub sup hprimitive ih => rw [isSubtype, if_neg hprimitive, ih]
  | case6 sub _ sup _ => exact h sub sup
  | case7 => simp_all [isSubtype]

end Declare

end JvmLint.Hierarchy

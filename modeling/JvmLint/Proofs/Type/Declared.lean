import JvmLint.Proofs.Type.Subclass
import Mathlib.Logic.Function.Iterate

/-!
# Declared supertypes

A hierarchy grows from the platform's classes by groups of entries (`grown`). Which direct
supertypes it then has for a class is the same as what the platform and the entries
declare (`declares_grown`), however the entries are ordered and grouped.

A search is a run of rounds (`Search.step`). Every class is expanded once at most and every
name it declares is looked at once, so the number of rounds is bounded by the number
of declared supertypes (`iterate_step_eq`).

The main result is `isSubclass_decides_declared`.
-/
namespace JvmLint.Hierarchy

/-! ## Growing -/

/-- The platform's classes, with groups of entries added one after the other. -/
def grown (groups : List (List ClassEntry)) : Hierarchy :=
  groups.foldl extend platform

/-- The platform or one of the entries has `sup` as a direct supertype of `sub`. -/
def Declared (groups : List (List ClassEntry)) (sub sup : String) : Prop :=
  (∃ parents, (sub, parents) ∈ platformClasses ∧ sup ∈ parents) ∨
    ∃ entries ∈ groups, ∃ entry ∈ entries, entry.name = sub ∧ sup ∈ entry.parents

section Grown

variable {sub sup : String}

theorem declares_platform :
    platform.Declares sub sup ↔ ∃ parents, (sub, parents) ∈ platformClasses ∧ sup ∈ parents := by
  have hnodup : (platformClasses.map Prod.fst).Nodup := by simp [platformClasses]
  have hdistinct : platformClasses.Pairwise fun a b => ¬ compare a.1 b.1 = .eq :=
    (List.pairwise_map.1 hnodup).imp fun hne hcompare =>
      hne (Std.LawfulEqCmp.eq_of_compare hcompare)
  unfold Declares platform
  constructor
  · intro h
    by_cases hknown : (platformClasses.map Prod.fst).contains sub
    · obtain ⟨⟨name, parents⟩, hmem, rfl⟩ := List.mem_map.1 (List.contains_iff_mem.1 hknown)
      rw [Std.TreeMap.getD_ofList_of_mem (Std.ReflCmp.compare_self) hdistinct hmem] at h
      exact ⟨parents, hmem, h⟩
    · rw [Bool.not_eq_true] at hknown
      rw [Std.TreeMap.getD_ofList_of_contains_eq_false hknown] at h
      cases h
  · rintro ⟨parents, hmem, hsup⟩
    rwa [Std.TreeMap.getD_ofList_of_mem (Std.ReflCmp.compare_self) hdistinct hmem]

theorem declares_foldl_extend {hierarchy : Hierarchy} {groups : List (List ClassEntry)} :
    (groups.foldl extend hierarchy).Declares sub sup ↔
      hierarchy.Declares sub sup ∨
        ∃ entries ∈ groups, ∃ entry ∈ entries, entry.name = sub ∧ sup ∈ entry.parents := by
  induction groups generalizing hierarchy with
  | nil => simp
  | cons entries rest ih =>
    rw [List.foldl_cons, ih, declares_extend]
    simp [or_assoc]

theorem declares_grown {groups : List (List ClassEntry)} :
    (grown groups).Declares = Declared groups := by
  funext sub sup
  rw [grown, declares_foldl_extend, declares_platform, Declared]

/-- More entries keep a class below another. -/
theorem isSubclass_extend {hierarchy : Hierarchy} (entries : List ClassEntry)
    (h : hierarchy.isSubclass sub sup) : (hierarchy.extend entries).isSubclass sub sup := by
  rw [isSubclass_iff] at h ⊢
  refine h.imp_right (Or.imp_right fun hpath => ?_)
  exact hpath.lift id fun _ _ hstep => declares_extend.2 (Or.inl hstep)

end Grown

/-! ## Rounds of a search -/

/-- A search that is under way, or its answer. -/
inductive Search where
  | going (pending seen : List String)
  | done (answer : Bool)
  deriving DecidableEq, Repr

/-- One round takes the first name that is pending. -/
def Search.step (hierarchy : Hierarchy) (target : String) : Search → Search
  | done answer => done answer
  | going [] _ => done false
  | going (name :: rest) seen =>
    if name ∈ seen ∨ name ∉ hierarchy.supertypes then going rest seen
    else
      let parents := hierarchy.supertypes.getD name []
      if parents.contains target then done true else going (rest ++ parents) (name :: seen)

/-- How many supertypes are declared for some classes. -/
def parentCount (hierarchy : Hierarchy) (names : List String) : Nat :=
  (names.flatMap fun name => hierarchy.supertypes.getD name []).length

section Rounds

variable {hierarchy : Hierarchy} {target name : String} {pending seen : List String}

theorem iterate_step_done (n : Nat) (answer : Bool) :
    (Search.step hierarchy target)^[n] (.done answer) = .done answer :=
  Function.iterate_fixed rfl n

theorem step_pass {rest : List String} (h : name ∈ seen ∨ name ∉ hierarchy.supertypes) :
    Search.step hierarchy target (.going (name :: rest) seen) = .going rest seen :=
  if_pos h

theorem step_expand {rest : List String} (hknown : name ∈ hierarchy.supertypes)
    (hfresh : name ∉ seen) :
    Search.step hierarchy target (.going (name :: rest) seen) =
      if hierarchy.supertypes[name].contains target then .done true
      else .going (rest ++ hierarchy.supertypes[name]) (name :: seen) := by
  have hget : hierarchy.supertypes[name] = hierarchy.supertypes.getD name [] :=
    Std.TreeMap.getElem_eq_getD
  simp only [Search.step, hknown, hfresh, not_true, or_self, if_false, hget]

/-- Expanding a class uses up what it declares. -/
theorem parentCount_unexpanded (hknown : name ∈ hierarchy.supertypes) (hfresh : name ∉ seen) :
    hierarchy.parentCount (hierarchy.unexpanded seen) =
      hierarchy.supertypes[name].length +
        hierarchy.parentCount (hierarchy.unexpanded (name :: seen)) := by
  have hmem : name ∈ hierarchy.unexpanded seen := by simp [unexpanded, hfresh, hknown]
  have hnodup : (hierarchy.unexpanded seen).Nodup := Std.TreeMap.nodup_keys.filter _
  have herase : (hierarchy.unexpanded seen).erase name = hierarchy.unexpanded (name :: seen) := by
    rw [hnodup.erase_eq_filter, unexpanded, unexpanded, List.filter_filter]
    refine List.filter_congr fun other _ => ?_
    rw [Bool.eq_iff_iff]
    simp [not_or]
  have hperm := List.perm_cons_erase hmem
  rw [herase] at hperm
  rw [parentCount, (hperm.flatMap_right _).length_eq, List.flatMap_cons, List.length_append,
    parentCount, Std.TreeMap.getElem_eq_getD]

/-- A search ends: one round for each name that is pending and one for each supertype
that is declared for a class not yet expanded are enough, and one to see that nothing
is left. -/
theorem iterate_step_eq {n : Nat}
    (h : pending.length + hierarchy.parentCount (hierarchy.unexpanded seen) < n) :
    (Search.step hierarchy target)^[n] (.going pending seen) =
      .done (hierarchy.search target pending seen) := by
  obtain ⟨m, rfl⟩ : ∃ m, n = m + 1 := ⟨n - 1, by omega⟩
  rw [Function.iterate_succ_apply]
  fun_induction search hierarchy target pending seen generalizing m with
  | case1 seen => exact iterate_step_done m false
  | case2 seen name rest hfresh hknown parents ih =>
    rw [step_expand hknown hfresh]
    have hcount : hierarchy.parentCount (hierarchy.unexpanded seen) = parents.length + _ :=
      parentCount_unexpanded hknown hfresh
    rw [hcount, List.length_cons] at h
    cases hfound : parents.contains target with
    | true => exact iterate_step_done m true
    | false =>
      obtain ⟨k, rfl⟩ : ∃ k, m = k + 1 := ⟨m - 1, by omega⟩
      rw [Bool.false_or, ← ih k (by rw [List.length_append]; omega)]
      rfl
  | case3 seen name rest hfresh hknown ih =>
    rw [List.length_cons] at h
    obtain ⟨k, rfl⟩ : ∃ k, m = k + 1 := ⟨m - 1, by omega⟩
    rw [step_pass (Or.inr hknown), ← ih k (by omega)]
    rfl
  | case4 seen name rest hfresh ih =>
    rw [List.length_cons] at h
    obtain ⟨k, rfl⟩ : ∃ k, m = k + 1 := ⟨m - 1, by omega⟩
    rw [step_pass (Or.inl (Decidable.not_not.1 hfresh)), ← ih k (by omega)]
    rfl

end Rounds

/-! ## Decision -/

/-- Being a subclass is decided for every hierarchy that is grown from the platform's. The
search ends, with the answer that declared steps lead from one class to the other. Further
entries keep a class below another, and only what is declared matters, not in which
order or groups. -/
theorem isSubclass_decides_declared (groups : List (List ClassEntry)) (sub sup : String) :
    (Search.step (grown groups) sup)^[(grown groups).parentCount
        (grown groups).supertypes.keys + 2] (.going [sub] []) =
      .done ((grown groups).search sup [sub] []) ∧
    ((grown groups).isSubclass sub sup ↔
      sub = sup ∨ sup = objectClass ∨ Relation.TransGen (Declared groups) sub sup) ∧
    (∀ entries, (grown groups).isSubclass sub sup →
      ((grown groups).extend entries).isSubclass sub sup) ∧
    ∀ others, (∀ name parent, Declared groups name parent ↔ Declared others name parent) →
      (grown groups).isSubclass sub sup = (grown others).isSubclass sub sup := by
  refine ⟨iterate_step_eq ?_, ?_, fun entries => isSubclass_extend entries, ?_⟩
  · have hall : (grown groups).unexpanded [] = (grown groups).supertypes.keys :=
      List.filter_eq_self.2 fun _ _ => by simp
    rw [hall, List.length_singleton]
    omega
  · rw [isSubclass_iff, declares_grown]
  · intro others hsame
    have hdeclared : Declared groups = Declared others :=
      funext fun name => funext fun parent => propext (hsame name parent)
    rw [Bool.eq_iff_iff, isSubclass_iff, isSubclass_iff, declares_grown, declares_grown, hdeclared]

/-- Two classes below each other, one of them also below itself. -/
def circularPrices : List (List ClassEntry) := [
  [⟨"Money", some "Price", []⟩],
  [⟨"Price", some "Money", ["java.math.BigDecimal"]⟩, ⟨"Price", some "Price", []⟩]]

/-- The same declarations in one group. -/
def regroupedPrices : List (List ClassEntry) := [
  [⟨"Price", none, ["java.math.BigDecimal", "Price", "Money"]⟩, ⟨"Money", none, ["Price"]⟩]]

theorem isSubclass_decides_declared_circular :
    (grown circularPrices).isSubclass "Money" "java.lang.Number" ∧
      (grown circularPrices).isSubclass "Price" "java.lang.Comparable" =
        (grown regroupedPrices).isSubclass "Price" "java.lang.Comparable" := by
  refine ⟨?_, (isSubclass_decides_declared circularPrices _ _).2.2.2 regroupedPrices ?_⟩
  · refine (isSubclass_decides_declared circularPrices _ _).2.1.2 (Or.inr (Or.inr ?_))
    have hmoney : Declared circularPrices "Money" "Price" := by
      simp [Declared, circularPrices, ClassEntry.parents]
    have hprice : Declared circularPrices "Price" "java.math.BigDecimal" := by
      simp [Declared, circularPrices, ClassEntry.parents]
    have hdecimal : Declared circularPrices "java.math.BigDecimal" "java.lang.Number" := by
      simp [Declared, platformClasses]
    exact ((Relation.TransGen.single hmoney).tail hprice).tail hdecimal
  · intro name parent
    refine or_congr_right ?_
    simp only [circularPrices, regroupedPrices, ClassEntry.parents, exists_eq_or_imp,
      exists_eq_left, List.mem_cons, List.mem_append, List.not_mem_nil, Option.mem_toList,
      Option.some.injEq, reduceCtorEq, or_false, false_or]
    tauto

end JvmLint.Hierarchy

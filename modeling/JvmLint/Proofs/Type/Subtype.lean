import JvmLint.Proofs.Type.Declared
import Mathlib.Data.Fintype.EquivFin

/-!
# Subtyping

Whether a type is below another does not depend on type arguments
(`isSubtype_erasure`), and every type is below itself but `void` and its arrays
(`isSubtype_self_iff`).

Subtyping is not transitive in every hierarchy: arrays are below three classes and every
class is below `java.lang.Object`, whatever is declared above those. It is transitive exactly
if nothing new is declared there (`isSubtype_transitive_iff`).

The main result is `isSubtype_preorder`.
-/
namespace JvmLint

namespace JavaType

/-- The element type below all array levels. -/
def innermost : JavaType → JavaType
  | array element => element.innermost
  | type => type

theorem isPrimitive_iff {type : JavaType} : type.isPrimitive ↔ ∃ kind, type = primitive kind := by
  cases type <;> simp [isPrimitive]

@[simp] theorem isPrimitive_erasure (type : JavaType) :
    type.erasure.isPrimitive = type.isPrimitive := by
  cases type <;> simp [erasure, isPrimitive]

@[simp] theorem isReference_erasure (type : JavaType) :
    type.erasure.isReference = type.isReference := by
  cases type <;> simp [erasure, isReference]

theorem erasure_eq_self {type : JavaType} (h : type.isPrimitive) : type.erasure = type := by
  obtain ⟨kind, rfl⟩ := isPrimitive_iff.1 h
  rfl

/-- Erasure tells primitives apart from everything else. -/
theorem erasure_inj {a b : JavaType} (h : a.isPrimitive || b.isPrimitive) :
    a.erasure = b.erasure ↔ a = b := by
  refine ⟨fun herasure => ?_, congrArg erasure⟩
  have hsame : a.isPrimitive = b.isPrimitive := by
    rw [← isPrimitive_erasure a, herasure, isPrimitive_erasure]
  rw [hsame, Bool.or_self] at h
  rwa [erasure_eq_self h, erasure_eq_self (hsame.trans h)] at herasure

end JavaType

theorem Primitive.widensTo_trans : ∀ a b c : Primitive,
    a.widensTo b → b.widensTo c → a.widensTo c := by
  intro a b c
  cases a <;> cases b <;> cases c <;> decide

namespace Hierarchy

open JavaType

variable {hierarchy : Hierarchy}

/-! ## What is above a type -/

theorem exists_primitive_of_isSubtype {kind : Primitive} {sup : JavaType}
    (h : hierarchy.isSubtype (.primitive kind) sup) :
    ∃ wider, sup = .primitive wider ∧ kind.widensTo wider := by
  cases sup <;> simp_all [isSubtype]

theorem exists_object_of_isSubtype {name : String} {arguments : List JavaType} {sup : JavaType}
    (h : hierarchy.isSubtype (.object name arguments) sup) :
    ∃ name' arguments', sup = .object name' arguments' ∧ hierarchy.isSubclass name name' := by
  cases sup <;> simp_all [isSubtype]

theorem object_or_array_of_isSubtype {element sup : JavaType}
    (h : hierarchy.isSubtype (.array element) sup) :
    (∃ name arguments, sup = .object name arguments ∧ name ∈ arraySupertypes) ∨
      ∃ element', sup = .array element' := by
  cases sup <;> simp_all [isSubtype]

theorem isPrimitive_eq_of_isSubtype {sub sup : JavaType} (h : hierarchy.isSubtype sub sup) :
    sub.isPrimitive = sup.isPrimitive := by
  cases sub <;> cases sup <;> simp_all [isSubtype, isPrimitive, isReference]

theorem isReference_of_isSubtype {sub sup : JavaType} (h : hierarchy.isSubtype sub sup)
    (hsub : sub.isReference) : sup.isReference := by
  cases sub <;> cases sup <;> simp_all [isSubtype, isReference]

/-- Arrays of primitives are below themselves only, all others follow their elements. -/
theorem isSubtype_array_iff {a b : JavaType} :
    hierarchy.isSubtype (.array a) (.array b) ↔
      a.isPrimitive ∧ a = b ∨ ¬ a.isPrimitive ∧ hierarchy.isSubtype a b := by
  rw [isSubtype]
  split
  · rename_i hprimitive
    rw [beq_iff_eq]
    constructor
    · rintro rfl
      exact Or.inl ⟨by simpa using hprimitive, rfl⟩
    · rintro (⟨-, rfl⟩ | ⟨hnot, hbelow⟩)
      · rfl
      · have hsame := isPrimitive_eq_of_isSubtype hbelow
        simp_all
  · rename_i hprimitive
    simp_all

/-! ## Erasure -/

/-- Type arguments play no part. -/
theorem isSubtype_erasure (a b : JavaType) :
    hierarchy.isSubtype a.erasure b.erasure = hierarchy.isSubtype a b := by
  fun_induction isSubtype hierarchy a b with
  | case1 sup => rw [erasure, isSubtype, isReference_erasure]
  | case2 | case3 | case6 => rw [erasure, erasure, isSubtype]
  | case4 a b hprimitive =>
    rw [erasure, erasure, isSubtype, isPrimitive_erasure, isPrimitive_erasure, if_pos hprimitive]
    rw [Bool.eq_iff_iff, beq_iff_eq, beq_iff_eq, erasure_inj hprimitive]
  | case5 a b hprimitive ih =>
    rw [erasure, erasure, isSubtype, isPrimitive_erasure, isPrimitive_erasure, if_neg hprimitive,
      ih]
  | case7 a b => cases a <;> cases b <;> grind [erasure, isSubtype]

/-! ## Reflexivity -/

theorem isSubtype_self_iff {type : JavaType} :
    hierarchy.isSubtype type type ↔ type.innermost ≠ .void := by
  fun_induction innermost type with
  | case1 element ih =>
    rw [isSubtype_array_iff, ← ih]
    by_cases hprimitive : element.isPrimitive
    · obtain ⟨kind, rfl⟩ := isPrimitive_iff.1 hprimitive
      simp [isPrimitive, isSubtype, Primitive.widensTo]
    · simp [hprimitive]
  | case2 type hnot =>
    cases type with
    | primitive kind => simp [isSubtype, Primitive.widensTo]
    | object name arguments => simp [isSubtype, isSubclass]
    | array element => exact absurd rfl (hnot element)
    | null => simp [isSubtype, isReference]
    | void => simp [isSubtype]

/-! ## Transitivity -/

/-- Nothing new is declared above the classes that are above all arrays, and nothing at all
above the class that is above all others. -/
structure TopsClosed (hierarchy : Hierarchy) : Prop where
  object : ∀ parent, hierarchy.Declares objectClass parent → parent = objectClass
  arrays : ∀ name ∈ arraySupertypes, ∀ parent, hierarchy.Declares name parent →
    parent ∈ arraySupertypes

/-- No declared step leads out of the names, so nothing else is above them. -/
theorem mem_of_isSubclass {names : List String} {sub sup : String}
    (hobject : objectClass ∈ names)
    (hclosed : ∀ name ∈ names, ∀ parent, hierarchy.Declares name parent → parent ∈ names)
    (hsub : sub ∈ names) (h : hierarchy.isSubclass sub sup) : sup ∈ names := by
  rcases isSubclass_iff.1 h with rfl | rfl | hpath
  · exact hsub
  · exact hobject
  · -- The path grows at its end, so `hsub` stands outside the induction.
    clear h
    induction hpath with
    | single hstep => exact hclosed _ hsub _ hstep
    | tail _ hstep ih => exact hclosed _ ih _ hstep

namespace TopsClosed

theorem isSubclass_trans (h : hierarchy.TopsClosed) {a b c : String}
    (hab : hierarchy.isSubclass a b) (hbc : hierarchy.isSubclass b c) :
    hierarchy.isSubclass a c := by
  rcases isSubclass_iff.1 hab with rfl | rfl | hpath
  · exact hbc
  · have hc : c ∈ [objectClass] :=
      mem_of_isSubclass (by simp) (by simpa using h.object) (by simp) hbc
    exact isSubclass_iff.2 (Or.inr (Or.inl (List.mem_singleton.1 hc)))
  · rw [isSubclass_iff] at hbc ⊢
    rcases hbc with rfl | rfl | hpath'
    · exact Or.inr (Or.inr hpath)
    · exact Or.inr (Or.inl rfl)
    · exact Or.inr (Or.inr (hpath.trans hpath'))

theorem isSubtype_trans (h : hierarchy.TopsClosed) {a b c : JavaType}
    (hab : hierarchy.isSubtype a b) (hbc : hierarchy.isSubtype b c) :
    hierarchy.isSubtype a c := by
  fun_induction isSubtype hierarchy a b generalizing c with
  | case1 b =>
    rw [isSubtype]
    exact isReference_of_isSubtype hbc hab
  | case2 kind kind' =>
    obtain ⟨kind'', rfl, hwidens⟩ := exists_primitive_of_isSubtype hbc
    exact Primitive.widensTo_trans _ _ _ hab hwidens
  | case3 element name arguments =>
    obtain ⟨name', arguments', rfl, hbelow⟩ := exists_object_of_isSubtype hbc
    rw [isSubtype, List.contains_iff_mem]
    have hname : name ∈ arraySupertypes := List.contains_iff_mem.1 hab
    exact mem_of_isSubclass (by simp [arraySupertypes]) h.arrays hname hbelow
  | case4 a b hprimitive =>
    rwa [beq_iff_eq.1 hab]
  | case5 a b hprimitive ih =>
    rcases object_or_array_of_isSubtype hbc with ⟨name, arguments, rfl, hname⟩ | ⟨c, rfl⟩
    · rwa [isSubtype, List.contains_iff_mem]
    · rw [Bool.or_eq_true, not_or] at hprimitive
      rw [isSubtype_array_iff] at hbc ⊢
      refine Or.inr ⟨hprimitive.1, ih hab ?_⟩
      rcases hbc with ⟨hb, -⟩ | ⟨-, hbelow⟩
      · exact absurd hb hprimitive.2
      · exact hbelow
  | case6 name _ name' _ =>
    obtain ⟨name'', arguments, rfl, hbelow⟩ := exists_object_of_isSubtype hbc
    exact h.isSubclass_trans hab hbelow
  | case7 => cases hab

end TopsClosed

/-- Some class has no entry. -/
theorem exists_not_mem_supertypes (hierarchy : Hierarchy) (avoid : String) :
    ∃ name, name ∉ hierarchy.supertypes ∧ name ≠ avoid := by
  have hinjective : Function.Injective fun n => String.ofList (List.replicate n 'x') := by
    intro m n hmn
    simpa using congrArg List.length (String.ofList_inj.1 hmn)
  have : Infinite String := Infinite.of_injective _ hinjective
  obtain ⟨name, hname⟩ :=
    Infinite.exists_notMem_finset (avoid :: hierarchy.supertypes.keys).toFinset
  simp only [List.mem_toFinset, List.mem_cons, not_or, Std.TreeMap.mem_keys] at hname
  exact ⟨name, hname.2, hname.1⟩

/-- Subtyping is transitive exactly if nothing new is declared above the top classes. A
class without an entry is below `java.lang.Object` and itself only, and so shows any
class that is declared above `java.lang.Object`. -/
theorem isSubtype_transitive_iff :
    (∀ a b c, hierarchy.isSubtype a b → hierarchy.isSubtype b c → hierarchy.isSubtype a c) ↔
      hierarchy.TopsClosed := by
  refine ⟨fun htrans => ⟨?_, ?_⟩, fun h a b c => h.isSubtype_trans⟩
  · intro parent hparent
    obtain ⟨name, hunknown, hne⟩ := exists_not_mem_supertypes hierarchy parent
    have hobject : hierarchy.isSubclass name objectClass :=
      isSubclass_iff.2 (Or.inr (Or.inl rfl))
    have hbelow : hierarchy.isSubclass name parent :=
      htrans (.ofClass name) (.ofClass objectClass) (.ofClass parent) hobject
        (isSubclass_of_declares hparent)
    rcases isSubclass_iff.1 hbelow with heq | heq | hpath
    · exact absurd heq hne
    · exact heq
    · obtain ⟨other, hstep, -⟩ := Relation.TransGen.head'_iff.1 hpath
      exact absurd hstep (not_declares_of_not_mem hunknown other)
  · intro name hname parent hparent
    -- Which array it is does not matter: all of them are below the same classes.
    have harray : hierarchy.isSubtype (.array .null) (.ofClass name) :=
      List.contains_iff_mem.2 hname
    have hbelow : hierarchy.isSubtype (.array .null) (.ofClass parent) :=
      htrans _ _ _ harray (isSubclass_of_declares hparent)
    exact List.contains_iff_mem.1 hbelow

/-- Subtyping is transitive if the classes above all arrays get no supertype but
`java.lang.Object`. It is reflexive but for `void` and its arrays, and ignores type
arguments, whatever is declared. -/
theorem isSubtype_preorder (groups : List (List ClassEntry)) :
    ((∀ name ∈ arraySupertypes, ∀ parent, Declared groups name parent → parent = objectClass) →
      ∀ a b c, (grown groups).isSubtype a b → (grown groups).isSubtype b c →
        (grown groups).isSubtype a c) ∧
    (∀ type : JavaType, (grown groups).isSubtype type type ↔ type.innermost ≠ .void) ∧
    ∀ (hierarchy : Hierarchy) (a b : JavaType),
      hierarchy.isSubtype a b = hierarchy.isSubtype a.erasure b.erasure := by
  refine ⟨fun htops => isSubtype_transitive_iff.2 ⟨?_, ?_⟩, fun type => isSubtype_self_iff,
    fun hierarchy a b => (isSubtype_erasure a b).symm⟩
  · rw [declares_grown]
    exact htops objectClass (by simp [arraySupertypes])
  · rw [declares_grown]
    intro name hname parent hparent
    rw [htops name hname parent hparent]
    simp [arraySupertypes]

/-- A class of amounts, and an entry that says what holds of all classes. -/
def listedPrices : List (List ClassEntry) := [
  [⟨"Money", some "java.math.BigDecimal", []⟩],
  [⟨"java.lang.Cloneable", some objectClass, []⟩]]

theorem isSubtype_preorder_listed :
    (grown listedPrices).isSubtype (.array (.ofClass "Money")) (.array (.ofClass "Money")) ∧
      (grown listedPrices).isSubtype (.array (.ofClass "Money"))
        (.array (.ofClass "java.lang.Number")) := by
  obtain ⟨htrans, hself, -⟩ := isSubtype_preorder listedPrices
  refine ⟨(hself _).2 (by decide), htrans ?_ _ (.array (.ofClass "java.math.BigDecimal")) _ ?_ ?_⟩
  · simp [Declared, listedPrices, arraySupertypes, ClassEntry.parents, platformClasses, objectClass]
  · have hmoney : Declared listedPrices "Money" "java.math.BigDecimal" := by
      simp [Declared, listedPrices, ClassEntry.parents]
    rw [← declares_grown] at hmoney
    exact isSubtype_array_iff.2 (Or.inr ⟨by decide, isSubclass_of_declares hmoney⟩)
  · have hdecimal : Declared listedPrices "java.math.BigDecimal" "java.lang.Number" := by
      simp [Declared, platformClasses]
    rw [← declares_grown] at hdecimal
    exact isSubtype_array_iff.2 (Or.inr ⟨by decide, isSubclass_of_declares hdecimal⟩)

end Hierarchy

end JvmLint

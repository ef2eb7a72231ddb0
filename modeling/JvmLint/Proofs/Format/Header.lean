import JvmLint.Format.Declaration
import Mathlib.Logic.ExistsUnique

/-!
# The format parameter of a method

A header is checked where its method is declared, and its format parameter is looked
up where a method passes its own format on. The two agree
(`checkDeclaration_iff_one_format`): a format method passes the check of its header
exactly if the lookup finds one format parameter, and every parameter annotated as the
format is a `String`.
-/
namespace JvmLint.Format

open FormatMethod

variable {method : Method} {position : Nat} {found : Bool} {type : JavaType}
  {types parameters : List JavaType}

/-! ## Annotated parameters -/

/-- Parameters from a position on of which at most one is annotated as the format, and
none if there is an earlier one; it is then a `String` and one of a format method. -/
structure WellMarked (method : Method) (position : Nat) (found : Bool) (types : List JavaType) :
    Prop where
  marked : ∀ i type, types[i]? = some type → isParameterAnnotated method (position + i) →
    isAnnotated method ∧ isStringType type ∧ ¬ found
  unique : ∀ i j, i < types.length → j < types.length →
    isParameterAnnotated method (position + i) → isParameterAnnotated method (position + j) → i = j

namespace WellMarked

theorem nil : WellMarked method position found [] where
  marked := nofun
  unique := nofun

theorem tail (h : WellMarked method position found (type :: types)) :
    WellMarked method (position + 1) found types where
  marked i later hlater hmark := h.marked (i + 1) later hlater (by rwa [Nat.add_right_comm] at hmark)
  unique i j hi hj hmark hmark' := by
    rw [Nat.add_right_comm] at hmark hmark'
    have heq := h.unique (i + 1) (j + 1) (by simpa) (by simpa) hmark hmark'
    omega

/-- A first parameter that is not annotated does not matter. -/
theorem cons_unmarked_iff (hfirst : ¬ isParameterAnnotated method position) :
    WellMarked method position found (type :: types) ↔
      WellMarked method (position + 1) found types := by
  refine ⟨tail, fun h => ⟨?_, ?_⟩⟩
  · rintro (_ | i) later hlater hmark
    · exact absurd hmark hfirst
    · exact h.marked i later hlater (by rwa [Nat.add_right_comm])
  · rintro (_ | i) (_ | j) hi hj hmark hmark'
    · rfl
    · exact absurd hmark hfirst
    · exact absurd hmark' hfirst
    · rw [h.unique i j (by simpa using hi) (by simpa using hj) (by rwa [Nat.add_right_comm])
        (by rwa [Nat.add_right_comm])]

/-- Behind a first parameter that is annotated no other one may be. -/
theorem cons_marked_iff (hfirst : isParameterAnnotated method position) :
    WellMarked method position found (type :: types) ↔
      isAnnotated method ∧ isStringType type ∧ ¬ found ∧
        WellMarked method (position + 1) true types := by
  constructor
  · intro h
    obtain ⟨hmethod, hstring, hfound⟩ := h.marked 0 type rfl hfirst
    refine ⟨hmethod, hstring, hfound, fun i later hlater hmark => ?_, h.tail.unique⟩
    have hi : i < types.length := (List.getElem?_eq_some_iff.1 hlater).1
    rw [Nat.add_right_comm] at hmark
    exact absurd (h.unique 0 (i + 1) (by simp) (by simpa) hfirst hmark) (by simp)
  · rintro ⟨hmethod, hstring, hfound, h⟩
    have honly : ∀ i < (type :: types).length,
        isParameterAnnotated method (position + i) → i = 0 := by
      rintro (_ | i) hi hmark
      · rfl
      · refine absurd rfl (h.marked i _ (List.getElem?_eq_getElem (by simpa using hi)) ?_).2.2
        rwa [Nat.add_right_comm]
    refine ⟨fun i later hget hmark => ?_,
      fun i j hi hj hmark hmark' => (honly i hi hmark).trans (honly j hj hmark').symm⟩
    obtain rfl := honly i (List.getElem?_eq_some_iff.1 hget).1 hmark
    cases hget
    exact ⟨hmethod, hstring, hfound⟩

/-- What this says of all the parameters of a method. -/
theorem zero_iff :
    WellMarked method 0 found types ↔
      (∀ i type, types[i]? = some type → isParameterAnnotated method i →
        isAnnotated method ∧ isStringType type ∧ ¬ found) ∧
      ∀ i j, i < types.length → j < types.length →
        isParameterAnnotated method i → isParameterAnnotated method j → i = j := by
  constructor
  · rintro ⟨hmarked, hunique⟩
    simp only [Nat.zero_add] at hmarked hunique
    exact ⟨hmarked, hunique⟩
  · rintro ⟨hmarked, hunique⟩
    exact ⟨by simpa only [Nat.zero_add] using hmarked, by simpa only [Nat.zero_add] using hunique⟩

end WellMarked

theorem parameterProblem?_eq_none_iff :
    parameterProblem? method position found types = none ↔
      WellMarked method position found types := by
  induction types generalizing position found with
  | nil => exact iff_of_true rfl .nil
  | cons type types ih =>
    rw [parameterProblem?]
    by_cases hfirst : isParameterAnnotated method position
    · rw [if_pos hfirst, WellMarked.cons_marked_iff hfirst, ← ih]
      cases isAnnotated method <;> cases isStringType type <;> cases found <;> simp
    · rw [if_neg hfirst, WellMarked.cons_unmarked_iff hfirst, ih]

theorem checkDeclaration_eq_none_iff {type : MethodType} (h : method.type? = .ok type) :
    checkDeclaration method = .ok none ↔
      WellMarked method 0 false type.parameters ∧
        (isAnnotated method → ∃ parameter ∈ type.parameters, isStringType parameter) := by
  simp only [checkDeclaration, headerType, h, ← parameterProblem?_eq_none_iff]
  cases parameterProblem? method 0 false type.parameters with
  | some problem => simp
  | none => cases isAnnotated method <;> simp [← List.any_eq_true]

/-! ## The lookup -/

theorem isFormatParameter_iff {i : Nat} :
    isFormatParameter method parameters i ↔
      isAnnotated method ∧ (∃ type, parameters[i]? = some type ∧ isStringType type) ∧
        (isParameterAnnotated method i ∨
          (∀ j < parameters.length, ¬ isParameterAnnotated method j) ∧
            parameters.findIdx? isStringType = some i) := by
  simp only [isFormatParameter, Bool.and_eq_true, Bool.or_eq_true, Option.any_eq_true, beq_iff_eq]
  simp [and_comm, and_assoc]

theorem lt_length_of_isFormatParameter {i : Nat} (h : isFormatParameter method parameters i) :
    i < parameters.length := by
  obtain ⟨-, ⟨_, hget, -⟩, -⟩ := isFormatParameter_iff.1 h
  exact (List.getElem?_eq_some_iff.1 hget).1

/-- A format method with a `String` parameter has a format parameter. -/
theorem WellMarked.exists_isFormatParameter (h : WellMarked method 0 false parameters)
    (hmethod : isAnnotated method) (hstring : ∃ parameter ∈ parameters, isStringType parameter) :
    ∃ i, isFormatParameter method parameters i := by
  by_cases hmark : ∃ i < parameters.length, isParameterAnnotated method i
  · obtain ⟨i, hi, hmark⟩ := hmark
    have hget := List.getElem?_eq_getElem hi
    have htype := ((zero_iff.1 h).1 i _ hget hmark).2.1
    exact ⟨i, isFormatParameter_iff.2 ⟨hmethod, ⟨_, hget, htype⟩, Or.inl hmark⟩⟩
  · obtain ⟨i, hfirst⟩ := Option.isSome_iff_exists.1 <|
      List.findIdx?_isSome.trans (List.any_eq_true.2 hstring)
    obtain ⟨hi, htype, -⟩ := List.findIdx?_eq_some_iff_getElem.1 hfirst
    refine ⟨i, isFormatParameter_iff.2
      ⟨hmethod, ⟨_, List.getElem?_eq_getElem hi, htype⟩, Or.inr ⟨?_, hfirst⟩⟩⟩
    exact fun j hj hj' => hmark ⟨j, hj, hj'⟩

theorem WellMarked.isFormatParameter_unique (h : WellMarked method 0 false parameters) {i j : Nat}
    (hi : isFormatParameter method parameters i) (hj : isFormatParameter method parameters j) :
    i = j := by
  have hi' := lt_length_of_isFormatParameter hi
  have hj' := lt_length_of_isFormatParameter hj
  obtain ⟨-, -, hmark | ⟨hnone, hfirst⟩⟩ := isFormatParameter_iff.1 hi <;>
    obtain ⟨-, -, hmark' | ⟨hnone', hfirst'⟩⟩ := isFormatParameter_iff.1 hj
  · exact (zero_iff.1 h).2 i j hi' hj' hmark hmark'
  · exact absurd hmark (hnone' i hi')
  · exact absurd hmark' (hnone j hj')
  · exact Option.some.inj (hfirst.symm.trans hfirst')

theorem wellMarked_of_isFormatParameter_unique (hmethod : isAnnotated method)
    (hunique : ∀ i j, isFormatParameter method parameters i →
      isFormatParameter method parameters j → i = j)
    (hstring : ∀ i type, parameters[i]? = some type → isParameterAnnotated method i →
      isStringType type) :
    WellMarked method 0 false parameters := by
  have hformat : ∀ i, i < parameters.length → isParameterAnnotated method i →
      isFormatParameter method parameters i := by
    intro i hi hmark
    have hget := List.getElem?_eq_getElem hi
    exact isFormatParameter_iff.2 ⟨hmethod, ⟨_, hget, hstring i _ hget hmark⟩, Or.inl hmark⟩
  refine WellMarked.zero_iff.2 ⟨?_, ?_⟩
  · exact fun i type hget hmark => ⟨hmethod, hstring i type hget hmark, Bool.false_ne_true⟩
  · exact fun i j hi hj hmark hmark' => hunique i j (hformat i hi hmark) (hformat j hj hmark')

/-- **Declaring and forwarding agree.** The header of a format method passes its check
exactly if one of its parameters is recognised as the format parameter and every
parameter annotated as such is a `String`. Any other method passes exactly if none of its
parameters is annotated, and nothing is recognised as its format parameter. -/
theorem checkDeclaration_iff_one_format {type : MethodType} (h : method.type? = .ok type) :
    (isAnnotated method → (checkDeclaration method = .ok none ↔
      (∃! i, i < type.parameters.length ∧ isFormatParameter method type.parameters i) ∧
        ∀ i parameter, type.parameters[i]? = some parameter → isParameterAnnotated method i →
          isStringType parameter)) ∧
    (¬ isAnnotated method →
      (checkDeclaration method = .ok none ↔
        ∀ i < type.parameters.length, ¬ isParameterAnnotated method i) ∧
      ∀ i, ¬ isFormatParameter method type.parameters i) := by
  rw [checkDeclaration_eq_none_iff h]
  refine ⟨fun hmethod => ⟨?_, ?_⟩, fun hmethod => ⟨⟨?_, ?_⟩, ?_⟩⟩
  · rintro ⟨hmarked, hstring⟩
    obtain ⟨i, hi⟩ := hmarked.exists_isFormatParameter hmethod (hstring hmethod)
    refine ⟨⟨i, ⟨lt_length_of_isFormatParameter hi, hi⟩, ?_⟩, ?_⟩
    · exact fun j hj => hmarked.isFormatParameter_unique hj.2 hi
    · intro j parameter hget hmark
      exact ((WellMarked.zero_iff.1 hmarked).1 j parameter hget hmark).2.1
  · rintro ⟨⟨i, ⟨-, hi⟩, hunique⟩, hstring⟩
    have heq : ∀ j, isFormatParameter method type.parameters j → j = i :=
      fun j hj => hunique j ⟨lt_length_of_isFormatParameter hj, hj⟩
    refine ⟨wellMarked_of_isFormatParameter_unique hmethod
      (fun j k hj hk => (heq j hj).trans (heq k hk).symm) hstring, fun _ => ?_⟩
    obtain ⟨-, ⟨parameter, hget, htype⟩, -⟩ := isFormatParameter_iff.1 hi
    exact ⟨parameter, List.mem_of_getElem? hget, htype⟩
  · rintro ⟨hmarked, -⟩ i hi hmark
    exact hmethod ((WellMarked.zero_iff.1 hmarked).1 i _ (List.getElem?_eq_getElem hi) hmark).1
  · intro hnone
    refine ⟨WellMarked.zero_iff.2 ⟨fun i _ hget hmark => ?_, fun i _ hi _ hmark => ?_⟩,
      fun hmethod' => absurd hmethod' hmethod⟩
    · exact absurd hmark (hnone i (List.getElem?_eq_some_iff.1 hget).1)
    · exact absurd hmark (hnone i hi)
  · exact fun i hi => hmethod (isFormatParameter_iff.1 hi).1

/-- `void log(String tag, @FormatString String format)`. -/
def logMethod (annotations : List String) : Method where
  owner := "app.Log"
  name := "log"
  descriptor := "(Ljava/lang/String;Ljava/lang/String;)V"
  isStatic := true
  isVarargs := false
  annotations := annotations
  parameters := [⟨"tag", []⟩, ⟨"format", ["FormatString"]⟩]

theorem type?_logMethod (annotations : List String) :
    (logMethod annotations).type? =
      .ok ⟨[.ofClass "java.lang.String", .ofClass "java.lang.String"], .void⟩ := by
  cbv

theorem checkDeclaration_iff_one_format_log :
    (∃ type, (logMethod ["FormatMethod"]).type? = .ok type ∧
      checkDeclaration (logMethod ["FormatMethod"]) = .ok none ∧
      ∃! i, i < type.parameters.length ∧
        isFormatParameter (logMethod ["FormatMethod"]) type.parameters i) ∧
    ∃ type, (logMethod []).type? = .ok type ∧ checkDeclaration (logMethod []) ≠ .ok none ∧
      ∀ i, ¬ isFormatParameter (logMethod []) type.parameters i := by
  have hnone : parameterProblem? (logMethod ["FormatMethod"]) 0 false
      [.ofClass "java.lang.String", .ofClass "java.lang.String"] = none := by decide +kernel
  have hlog : checkDeclaration (logMethod ["FormatMethod"]) = .ok none := by
    simp only [checkDeclaration, headerType, type?_logMethod, hnone]
    rfl
  refine ⟨⟨_, type?_logMethod _, hlog, ?_⟩, ⟨_, type?_logMethod _, ?_⟩⟩
  · exact (((checkDeclaration_iff_one_format (type?_logMethod _)).1
      (by decide +kernel)).1 hlog).1
  · obtain ⟨hiff, hformat⟩ :=
      (checkDeclaration_iff_one_format (type?_logMethod [])).2 (by decide +kernel)
    exact ⟨fun h => hiff.1 h 1 (by decide) (by decide +kernel), hformat⟩

end JvmLint.Format

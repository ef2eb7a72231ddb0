import JvmLint.Format.Strict

/-!
# Formats held in local variables

A call of a format method may pass a final local variable that was initialised with a
constant. It is checked as if it passed the constant itself, but to a callee that is not
known. Of a callee a check only asks whether it takes variable arguments
(`checkCall_cons`): without one, an `Object[]` passes for all the arguments at once.
So a callee that takes an array as its one argument is not checked if its format
comes in a variable, while it is if the constant stands in its place
(`array_hides_extra_argument`). In every other call the variable and the constant
come to the same (`checkStrictCall_inline_iff`).
-/
namespace JvmLint.Format

variable {hierarchy : Hierarchy} {method : Option Method} {format initializer : Expr}
  {rest : List Expr} {scope : List LocalDeclaration}

/-! ## What is asked of a callee -/

/-- What is found in a call that passes its arguments one by one. -/
def listedProblem? (hierarchy : Hierarchy) (format : Expr) (rest : List Expr) :
    Option CallProblem :=
  if isMatcher format then none
  else (candidates format).bind
    (·.findSome? (checkCandidate (rest.map (Sample.ofExprOrNull hierarchy))))

theorem checkCall_cons :
    checkCall hierarchy method (format :: rest) =
      .ok (if passesArray method rest then none else listedProblem? hierarchy format rest) := by
  rw [checkCall, listedProblem?]
  by_cases hmatcher : isMatcher format
  · simp [hmatcher]
  · cases candidates format with
    | none => simp [hmatcher]
    | some formats => cases harray : passesArray method rest <;> simp [hmatcher]

theorem checkKnown_cons :
    checkKnown hierarchy method (format :: rest) =
      .ok (if passesArray method rest then none
        else (listedProblem? hierarchy format rest).map .call) := by
  rw [checkKnown, checkCall_cons]
  cases passesArray method rest <;> rfl

/-- The one argument is an array, and the callee takes no variable arguments. -/
def PassesPlainArray (method : Option Method) (rest : List Expr) : Prop :=
  ∃ callee argument, method = some callee ∧ ¬ callee.isVarargs ∧
    rest = [argument] ∧ isObjectArray argument

/-- Forgetting the callee makes a difference to plain arrays only. -/
theorem passesArray_none_iff :
    passesArray none rest ↔ passesArray method rest ∨ PassesPlainArray method rest := by
  unfold passesArray PassesPlainArray
  match rest, method with
  | [], _ | _ :: _ :: _, _ => simp
  | [argument], none => simp
  | [argument], some callee => by_cases hvarargs : callee.isVarargs <;> simp [hvarargs]

theorem PassesPlainArray.not_passesArray (h : PassesPlainArray method rest) :
    ¬ passesArray method rest := by
  obtain ⟨callee, argument, rfl, hvarargs, rfl, -⟩ := h
  simp [passesArray, hvarargs]

/-! ## Variables and constants -/

/-- The format is a final local variable, and the first declaration of it in scope
initialises it with a string constant. -/
inductive StandsFor (scope : List LocalDeclaration) (format initializer : Expr) : Prop where
  | intro (symbol : VariableSymbol) (declaration : LocalDeclaration)
    (reference : format.kind = .reference symbol) (noConstant : format.constant = none)
    (fixed : symbol.isFinal ∨ symbol.isEffectivelyFinal) (isLocal : symbol.kind = .localVariable)
    (declared : scope.find? (·.symbolId == symbol.id) = some declaration)
    (initialized : declaration.initializer = some initializer)
    (text : initializer.constantText?.isSome)

namespace StandsFor

theorem checkStrictCall_variable (h : StandsFor scope format initializer) :
    checkStrictCall hierarchy method (format :: rest) scope =
      checkKnown hierarchy none (initializer :: rest) := by
  obtain ⟨symbol, declaration, hreference, hconstant, hfixed, hlocal, hdeclared, hinit, htext⟩ := h
  have hmatcher : isMatcher format = false := by rw [isMatcher, hreference]
  have hassigned : (!symbol.isFinal && !symbol.isEffectivelyFinal) = false := by
    rcases hfixed with hfixed | hfixed <;> simp [hfixed]
  have hknown : initializer.constantText?.isNone = false := by simpa using htext
  simp [checkStrictCall, hmatcher, hconstant, hreference, hassigned, hlocal, hdeclared, checkLocal,
    hinit, hknown]

theorem checkStrictCall_constant (h : StandsFor scope format initializer) :
    checkStrictCall hierarchy method (initializer :: rest) scope =
      checkKnown hierarchy method (initializer :: rest) := by
  obtain ⟨-, -, -, -, -, -, -, -, htext⟩ := h
  have hconstant : initializer.constant.isSome := by
    rw [Expr.constantText?] at htext
    exact Option.isSome_of_isSome_bind htext
  by_cases hmatcher : isMatcher initializer
  · simp [checkStrictCall, checkKnown, checkCall, hmatcher]
  · simp [checkStrictCall, hmatcher, hconstant]

end StandsFor

/-- **Constants in variables.** A call whose format is a variable that stands for a
constant is checked like a call of an unknown method with this constant. It comes to the
same as the call with the constant, except if the callee takes no variable arguments, its
one argument is an `Object[]`, and something is found in the call with the constant: the
call with the variable passes then. -/
theorem checkStrictCall_inline_iff (h : StandsFor scope format initializer) :
    checkStrictCall hierarchy method (format :: rest) scope =
      checkStrictCall hierarchy none (initializer :: rest) scope ∧
    (checkStrictCall hierarchy method (format :: rest) scope =
        checkStrictCall hierarchy method (initializer :: rest) scope ↔
      ¬ (PassesPlainArray method rest ∧ listedProblem? hierarchy initializer rest ≠ none)) ∧
    (PassesPlainArray method rest →
      checkStrictCall hierarchy method (format :: rest) scope = .ok none ∧
      checkStrictCall hierarchy method (initializer :: rest) scope =
        .ok ((listedProblem? hierarchy initializer rest).map .call)) := by
  simp only [h.checkStrictCall_variable, h.checkStrictCall_constant, checkKnown_cons, true_and]
  by_cases hplain : PassesPlainArray method rest
  · have hnone : passesArray none rest := passesArray_none_iff.2 (Or.inr hplain)
    cases listedProblem? hierarchy initializer rest <;>
      simp [hnone, hplain.not_passesArray, hplain]
  · have heq : passesArray none rest = passesArray method rest := by
      rw [Bool.eq_iff_iff, passesArray_none_iff, or_iff_left hplain]
    simp [heq, hplain]

/-- `static void write(String format, Object[] arguments)`, or the same with `Object...`. -/
def writeMethod (isVarargs : Bool) : Method where
  owner := "com.example.Log"
  name := "write"
  descriptor := "(Ljava/lang/String;[Ljava/lang/Object;)V"
  isStatic := true
  isVarargs := isVarargs
  annotations := []
  parameters := []

/-- The local variable `f`. -/
def localFormat : Expr where
  kind := .reference ⟨1, "f", .localVariable, true, true, none, none⟩
  type := some (.ofClass Hierarchy.stringClass)
  constant := none
  source := "f"

def doneText : Expr where
  kind := .literal
  type := some (.ofClass Hierarchy.stringClass)
  constant := some (.string "done")
  source := "\"done\""

def localScope : List LocalDeclaration := [⟨1, some doneText, "String f = \"done\";"⟩]

def objectArray : Expr where
  kind := .other
  type := some (.array (.ofClass Hierarchy.objectClass))
  constant := none
  source := "arguments"

theorem standsFor_doneText : StandsFor localScope localFormat doneText :=
  .intro _ _ rfl rfl (Or.inl rfl) rfl rfl rfl rfl

theorem listedProblem?_doneText :
    listedProblem? hierarchy doneText [objectArray] = some (.extraArguments 0 1) := by
  have hmatcher : ¬ isMatcher doneText := Bool.false_ne_true
  have hcandidates : candidates doneText = some ["done"] := by
    simp [candidates, doneText, Expr.constantText?, Constant.text?]
  have hextra : ∀ sample, checkCandidate [sample] "done" = some (.extraArguments 0 1) := by
    intro sample
    cbv
  simp [listedProblem?, hmatcher, hcandidates, hextra]

theorem passesPlainArray_writeMethod :
    PassesPlainArray (some (writeMethod false)) [objectArray] :=
  ⟨_, _, rfl, Bool.false_ne_true, rfl, by decide +kernel⟩

theorem checkStrictCall_inline_iff_done :
    StandsFor localScope localFormat doneText ∧
    checkStrictCall .platform (some (writeMethod true)) [localFormat, objectArray] localScope =
      checkStrictCall .platform (some (writeMethod true)) [doneText, objectArray] localScope ∧
    PassesPlainArray (some (writeMethod false)) [objectArray] ∧
    checkStrictCall .platform (some (writeMethod false)) [localFormat, objectArray] localScope =
      .ok none := by
  refine ⟨standsFor_doneText, (checkStrictCall_inline_iff standsFor_doneText).2.1.2 ?_,
    passesPlainArray_writeMethod,
    ((checkStrictCall_inline_iff standsFor_doneText).2.2 passesPlainArray_writeMethod).1⟩
  rintro ⟨⟨_, _, hcallee, hvarargs, -⟩, -⟩
  cases hcallee
  exact hvarargs rfl

/-- An array that goes unchecked with a variable, and is an argument too many with the
constant in its place. -/
theorem array_hides_extra_argument :
    StandsFor localScope localFormat doneText ∧
    checkStrictCall .platform (some (writeMethod false)) [localFormat, objectArray] localScope =
      .ok none ∧
    checkStrictCall .platform (some (writeMethod false)) [doneText, objectArray] localScope =
      .ok (some (.call (.extraArguments 0 1))) := by
  have hplain := passesPlainArray_writeMethod
  refine ⟨standsFor_doneText, ?_, ?_⟩
  · rw [standsFor_doneText.checkStrictCall_variable, checkKnown_cons,
      if_pos (passesArray_none_iff.2 (Or.inr hplain))]
  · rw [standsFor_doneText.checkStrictCall_constant, checkKnown_cons,
      if_neg hplain.not_passesArray, listedProblem?_doneText]
    rfl

end JvmLint.Format

import JvmLint.Proofs.Format.ExtraArguments

/-!
# Null samples

`null` stands for an argument of which nothing is known. Every specifier that can
format some argument can format `null` (`Specifier.checkArgument_null`), and which
arguments are needed is decided by positions alone. So a format that accepts its
arguments accepts them with some replaced by `null`, and needs as many of them
(`checkCandidate_withNulls`).
-/
namespace JvmLint.Format

/-- The arguments with those at some positions replaced by `null`. -/
def withNulls (replaced : Nat → Bool) (arguments : List Sample) : List Sample :=
  arguments.mapIdx fun i argument => if replaced i then .null else argument

theorem length_withNulls (replaced : Nat → Bool) (arguments : List Sample) :
    (withNulls replaced arguments).length = arguments.length := by
  simp [withNulls]

theorem Specifier.checkArgument_null {specifier : Specifier} {argument : Sample}
    (h : specifier.checkArgument argument = .ok ()) : specifier.checkArgument .null = .ok () := by
  unfold checkArgument at h ⊢
  by_cases hdate : specifier.dateTime
  · rw [if_pos hdate]
    rfl
  · rw [if_neg hdate] at h ⊢
    cases hcategory : Category.of? specifier.conversion with
    | none => rfl
    | some category =>
      rw [hcategory] at h
      cases category with
      -- the flags are looked at whatever the argument is
      | general => exact h
      | character | integral | floating | fixedText => rfl

section WithNulls

variable {format : String} {arguments : List Sample} {replaced : Nat → Bool}

theorem Specifier.Accepts.withNulls {specifier : Specifier} {place : Option Nat}
    (h : specifier.Accepts arguments place) :
    specifier.Accepts (withNulls replaced arguments) place := by
  obtain ⟨i, argument, rfl, hget, hcheck⟩ := h
  refine ⟨i, if replaced i then .null else argument, rfl, ?_, ?_⟩
  · simp [Format.withNulls, hget]
  · split
    · exact checkArgument_null hcheck
    · exact hcheck

theorem check_withNulls (h : check format arguments = .ok ()) :
    check format (withNulls replaced arguments) = .ok () := by
  obtain ⟨reads, hreads⟩ := exists_reads_of_check h
  have hposition := positions_positionAt reads
  rw [check_eq_ok_iff hreads hposition] at h ⊢
  intro k read hread htakes
  exact (h k read hread htakes).withNulls

/-- As many arguments are needed as before. -/
theorem smallestPrefix_withNulls_iff (h : check format arguments = .ok ()) {count : Nat} :
    SmallestPrefix format (withNulls replaced arguments) count ↔
      SmallestPrefix format arguments count := by
  obtain ⟨reads, hreads⟩ := exists_reads_of_check h
  have hposition := positions_positionAt reads
  simp only [SmallestPrefix, check_take_eq_ok_iff hreads hposition, h, check_withNulls h]

theorem checkCandidate_withNulls (h : check format arguments = .ok ()) :
    checkCandidate (withNulls replaced arguments) format = checkCandidate arguments format := by
  have hnulls : check format (withNulls replaced arguments) = .ok () := check_withNulls h
  have hused : usedArguments format (withNulls replaced arguments) =
      usedArguments format arguments :=
    ((smallestPrefix_withNulls_iff h).1 (smallestPrefix_usedArguments hnulls)).unique
      (smallestPrefix_usedArguments h)
  rw [checkCandidate_of_ok hnulls, checkCandidate_of_ok h, hused, length_withNulls]

end WithNulls

/-- **Null is the weakest sample.** Replacing some of the arguments by `null` keeps a
format that accepts them accepting, and a call that passes passing. -/
theorem null_is_weakest (format : String) (arguments : List Sample) (replaced : Nat → Bool) :
    (check format arguments = .ok () → check format (withNulls replaced arguments) = .ok ()) ∧
    (checkCandidate arguments format = none →
      checkCandidate (withNulls replaced arguments) format = none) := by
  refine ⟨check_withNulls, fun h => ?_⟩
  have hcheck := (checkCandidate_eq_none_iff.1 h).1
  rw [checkCandidate_withNulls hcheck, h]

/-- One argument that is formatted as a text and as a code point, and a date. -/
theorem null_is_weakest_reused :
    check "%1$s%<c%2$tY" [.int 65, .date] = .ok () ∧
      check "%1$s%<c%2$tY" [.null, .date] = .ok () ∧
      checkCandidate [.int 65, .date] "%1$s%<c%2$tY" = none ∧
      checkCandidate [.int 65, .null] "%1$s%<c%2$tY" = none := by
  have hcheck : check "%1$s%<c%2$tY" [.int 65, .date] = .ok () := by decide +kernel
  have hnone : checkCandidate [.int 65, .date] "%1$s%<c%2$tY" = none := by decide +kernel
  exact ⟨hcheck, (null_is_weakest _ _ (· == 0)).1 hcheck, hnone,
    (null_is_weakest _ _ (· == 1)).2 hnone⟩

end JvmLint.Format

import JvmLint.Format.CallSite
import JvmLint.Proofs.Format.Positions
import JvmLint.Proofs.Format.Written
import Mathlib.Order.Bounds.Basic

/-!
# Arguments that are not needed

A format that accepts some arguments accepts their first `n` exactly if it refers to no
position from `n` on (`check_take_eq_ok_iff`). So once it accepts a prefix it accepts
every longer one, and bisection finds the shortest (`isLeast_bisect`).

The main result, `checkCandidate_counts_exactly`, says when a call is reported for
arguments that are not needed, and that the number of those that are is one more than
the largest position that a specifier refers to.
-/
namespace JvmLint.Format

/-! ## Bisection -/

/-- Bisection finds the least number that fits, if all larger ones fit with it. -/
theorem isLeast_bisect {fits : Nat → Bool} (hmono : ∀ i j, i ≤ j → fits i → fits j)
    {low high : Nat} (hle : low ≤ high) (hfits : fits high) :
    IsLeast {n | low ≤ n ∧ fits n} (bisect fits low high) := by
  fun_induction bisect fits low high with
  | case1 low high hlt middle hmiddle ih =>
    exact ih (by omega) hmiddle
  | case2 low high hlt middle hmiddle ih =>
    obtain ⟨⟨hlow, hfound⟩, hleast⟩ := ih (by omega) hfits
    refine ⟨⟨by omega, hfound⟩, fun n hn => hleast ⟨?_, hn.2⟩⟩
    -- a smaller number would make the middle fit
    apply Nat.lt_of_not_le
    intro hsmall
    exact hmiddle (hmono n middle hsmall hn.2)
  | case3 low high hlt =>
    obtain rfl : low = high := by omega
    exact ⟨⟨Nat.le_refl low, hfits⟩, fun n hn => hn.1⟩

/-! ## Prefixes of the arguments -/

/-- The positions that the specifiers of a format refer to. -/
def referredPositions (reads : List ReadSpecifier) (position : Nat → Option Nat) : Set Nat :=
  {i | ∃ (k : Nat) (read : ReadSpecifier),
    reads[k]? = some read ∧ read.raw.takesArgument ∧ position k = some i}

section Prefix

variable {format : String} {reads : List ReadSpecifier} {position : Nat → Option Nat}
  {arguments : List Sample} {n : Nat}

theorem check_eq_ok_iff (hreads : Reads format.toList reads)
    (hposition : Positions reads position) :
    check format arguments = .ok () ↔
      ∀ (k : Nat) (read : ReadSpecifier), reads[k]? = some read → read.raw.takesArgument →
        read.specifier.Accepts arguments (position k) := by
  rw [check_of_reads hreads, checkFrom_eq_ok_iff]
  simp [outcome_eq_ok_iff hposition]

theorem Specifier.accepts_take_iff {specifier : Specifier} {place : Option Nat} :
    specifier.Accepts (arguments.take n) place ↔
      specifier.Accepts arguments place ∧ ∀ i, place = some i → i < n := by
  unfold Accepts
  constructor
  · rintro ⟨i, argument, rfl, hget, hcheck⟩
    rw [List.getElem?_take] at hget
    split at hget
    · rename_i hlt
      exact ⟨⟨i, argument, rfl, hget, hcheck⟩, by simp [hlt]⟩
    · cases hget
  · rintro ⟨⟨i, argument, rfl, hget, hcheck⟩, hlt⟩
    exact ⟨i, argument, rfl, by simp [hlt i rfl, hget], hcheck⟩

/-- A prefix of the arguments is accepted if all of them are and it is long enough. -/
theorem check_take_eq_ok_iff (hreads : Reads format.toList reads)
    (hposition : Positions reads position) :
    check format (arguments.take n) = .ok () ↔
      check format arguments = .ok () ∧ ∀ i ∈ referredPositions reads position, i < n := by
  simp only [check_eq_ok_iff hreads hposition, Specifier.accepts_take_iff]
  constructor
  · intro h
    refine ⟨fun k read hread htakes => (h k read hread htakes).1, ?_⟩
    rintro i ⟨k, read, hread, htakes, hi⟩
    exact (h k read hread htakes).2 i hi
  · intro h k read hread htakes
    exact ⟨h.1 k read hread htakes, fun i hi => h.2 i ⟨k, read, hread, htakes, hi⟩⟩

/-- A format that accepts some arguments can be read, and its specifiers have positions. -/
theorem exists_reads_of_check (h : check format arguments = .ok ()) :
    ∃ reads, Reads format.toList reads := by
  obtain ⟨specifiers, hparse, -⟩ := exists_of_bind_eq_ok h
  obtain ⟨reads, hreads, -⟩ := parse_eq_ok_iff.1 hparse
  exact ⟨reads, hreads⟩

theorem check_take_mono {m : Nat} (hle : n ≤ m) (h : check format (arguments.take n) = .ok ()) :
    check format (arguments.take m) = .ok () := by
  obtain ⟨reads, hreads⟩ := exists_reads_of_check h
  rw [check_take_eq_ok_iff hreads (positions_positionAt reads)] at h ⊢
  refine ⟨h.1, fun i hi => ?_⟩
  have := h.2 i hi
  omega

/-- The length of the shortest prefix of the arguments that the format accepts. -/
def SmallestPrefix (format : String) (arguments : List Sample) (count : Nat) : Prop :=
  IsLeast {n | check format (arguments.take n) = .ok ()} count

theorem smallestPrefix_usedArguments (h : check format arguments = .ok ()) :
    SmallestPrefix format arguments (usedArguments format arguments) := by
  have hok : ∀ n, (check format (arguments.take n)).isOk ↔
      check format (arguments.take n) = .ok () := by
    intro n
    cases check format (arguments.take n) <;> simp [Except.isOk, Except.toBool]
  have hmono : ∀ i j, i ≤ j → (check format (arguments.take i)).isOk →
      (check format (arguments.take j)).isOk := by
    intro i j hij hi
    rw [hok] at hi ⊢
    exact check_take_mono hij hi
  have hall : (check format (arguments.take arguments.length)).isOk := by
    rw [hok, List.take_length]
    exact h
  have hleast := isLeast_bisect hmono (Nat.zero_le arguments.length) hall
  simpa only [SmallestPrefix, usedArguments, Nat.zero_le, true_and, hok] using hleast

end Prefix

/-! ## How many are needed -/

/-- As many arguments as the specifiers ask for: none if no specifier takes one, else
one more than the largest position that one refers to. -/
def NeededCount (reads : List ReadSpecifier) (position : Nat → Option Nat) (count : Nat) : Prop :=
  (∀ read ∈ reads, ¬ read.raw.takesArgument) ∧ count = 0 ∨
    ∃ i, IsGreatest (referredPositions reads position) i ∧ count = i + 1

/-- The least number above all positions. -/
theorem neededCount_of_isLeast {reads : List ReadSpecifier} {position : Nat → Option Nat}
    {count : Nat}
    (hplaced : ∀ (k : Nat) (read : ReadSpecifier), reads[k]? = some read →
      read.raw.takesArgument → position k ≠ none)
    (hleast : IsLeast {n | ∀ i ∈ referredPositions reads position, i < n} count) :
    NeededCount reads position count := by
  obtain ⟨habove, hlow⟩ := hleast
  cases count with
  | zero =>
    refine Or.inl ⟨fun read hmem htakes => ?_, rfl⟩
    obtain ⟨k, hread⟩ := List.getElem?_of_mem hmem
    obtain ⟨i, hi⟩ := Option.ne_none_iff_exists'.1 (hplaced k read hread htakes)
    exact Nat.not_lt_zero i (habove i ⟨k, read, hread, htakes, hi⟩)
  | succ last =>
    -- `last` itself is not above all positions, so one of them is at least `last`
    have hnot : ¬ ∀ i ∈ referredPositions reads position, i < last := by
      intro hall
      have : last + 1 ≤ last := hlow hall
      omega
    simp only [not_forall] at hnot
    obtain ⟨i, hi, hge⟩ := hnot
    obtain rfl : i = last := by
      have := habove i hi
      omega
    refine Or.inr ⟨i, ⟨hi, fun j hj => ?_⟩, rfl⟩
    have := habove j hj
    omega

theorem neededCount_of_smallestPrefix {format : String} {reads : List ReadSpecifier}
    {position : Nat → Option Nat} {arguments : List Sample} {count : Nat}
    (hreads : Reads format.toList reads) (hposition : Positions reads position)
    (hcheck : check format arguments = .ok ()) (h : SmallestPrefix format arguments count) :
    NeededCount reads position count := by
  apply neededCount_of_isLeast
  · intro k read hread htakes hnone
    obtain ⟨i, argument, hi, -⟩ := (check_eq_ok_iff hreads hposition).1 hcheck k read hread htakes
    simp [hnone] at hi
  · simpa only [SmallestPrefix, check_take_eq_ok_iff hreads hposition, hcheck, true_and] using h

/-! ## The report -/

theorem toDigits_inj {m n : Nat} (h : Nat.toDigits 10 m = Nat.toDigits 10 n) : m = n := by
  have hread := congrArg (Nat.ofDigitChars 10 · 0) h
  simpa [Nat.ofDigitChars_ten_toDigits] using hread

theorem head?_ofList {c : Char} {rest : List Char} :
    (String.ofList (c :: rest)).toList.head? = some c := by
  simp

theorem head?_ofList_append {c : Char} {rest : List Char} {text : String} :
    (String.ofList (c :: rest) ++ text).toList.head? = some c := by
  simp [String.toList_append]

/-- No message about a format itself starts like that about arguments. -/
theorem FormatError.head?_message (error : FormatError) :
    error.message.toList.head? ≠ some 'e' := by
  unfold message
  split
  -- the messages without a part that varies
  case h_10 | h_12 | h_13 =>
    rw [head?_ofList]
    decide
  all_goals
    simp only [String.append_assoc, ne_eq]
    rw [head?_ofList_append]
    decide

theorem CallProblem.message_format (error : FormatError) :
    (CallProblem.format error).message = error.message := rfl

theorem CallProblem.message_extraArguments_inj {used provided used' provided' : Nat}
    (h : (CallProblem.extraArguments used provided).message =
      (CallProblem.extraArguments used' provided').message) :
    used = used' ∧ provided = provided' := by
  have hlist := congrArg String.toList h
  unfold message at hlist
  simp only [String.toList_append, List.append_assoc] at hlist
  have hnumbers := List.append_cancel_left hlist
  simp only [Nat.toString_eq_repr, Nat.toList_repr] at hnumbers
  rw [show ", provided ".toList = ',' :: " provided ".toList from rfl, List.cons_append,
    List.cons_append] at hnumbers
  have hdigit : ∀ n, ∀ c ∈ Nat.toDigits 10 n, c.isDigit := fun n c hc =>
    Nat.isDigit_of_mem_toDigits (by decide) (by decide) hc
  obtain ⟨hused, hrest⟩ := append_cons_inj (hdigit used) (hdigit used') (by decide) hnumbers
  exact ⟨toDigits_inj hused, toDigits_inj (List.append_cancel_left hrest)⟩

/-- The message is that for arguments which are not needed. -/
theorem CallProblem.message_eq_iff {problem : CallProblem} {used provided : Nat} :
    problem.message =
        "extra format arguments: used " ++ toString used ++ ", provided " ++ toString provided ↔
      problem = .extraArguments used provided := by
  constructor
  · intro h
    cases problem with
    | format error =>
      have hhead := FormatError.head?_message error
      rw [message_format] at h
      rw [h, String.append_assoc, String.append_assoc, head?_ofList_append] at hhead
      exact absurd rfl hhead
    | extraArguments used' provided' =>
      obtain ⟨rfl, rfl⟩ := message_extraArguments_inj h
      rfl
  · rintro rfl
    rfl

section Candidate

variable {format : String} {arguments : List Sample}

theorem checkCandidate_of_ok (h : check format arguments = .ok ()) :
    checkCandidate arguments format =
      if usedArguments format arguments < arguments.length then
        some (.extraArguments (usedArguments format arguments) arguments.length)
      else none := by
  simp only [checkCandidate, h]

theorem checkCandidate_of_error {error : FormatError} (h : check format arguments = .error error) :
    checkCandidate arguments format = some (.format error) := by
  simp only [checkCandidate, h]

theorem checkCandidate_eq_extraArguments_iff {used provided : Nat} :
    checkCandidate arguments format = some (.extraArguments used provided) ↔
      check format arguments = .ok () ∧ used < arguments.length ∧ provided = arguments.length ∧
        SmallestPrefix format arguments used := by
  cases hcheck : check format arguments with
  | error error => simp [checkCandidate_of_error hcheck]
  | ok _ =>
    have hleast := smallestPrefix_usedArguments hcheck
    rw [checkCandidate_of_ok hcheck]
    constructor
    · intro h
      split at h
      · rename_i hlt
        cases h
        exact ⟨rfl, hlt, rfl, hleast⟩
      · cases h
    · rintro ⟨-, hlt, rfl, hused⟩
      obtain rfl : used = usedArguments format arguments := hused.unique hleast
      rw [if_pos hlt]

/-- A call passes exactly if its arguments are accepted and no fewer of them are. -/
theorem checkCandidate_eq_none_iff :
    checkCandidate arguments format = none ↔
      check format arguments = .ok () ∧
        ∀ n < arguments.length, check format (arguments.take n) ≠ .ok () := by
  cases hcheck : check format arguments with
  | error error => simp [checkCandidate_of_error hcheck]
  | ok _ =>
    obtain ⟨hused, hlow⟩ := smallestPrefix_usedArguments hcheck
    rw [checkCandidate_of_ok hcheck]
    constructor
    · intro h
      refine ⟨rfl, fun n hn hok => ?_⟩
      have hle := hlow hok
      rw [if_pos (by omega)] at h
      cases h
    · rintro ⟨-, hnone⟩
      rw [if_neg fun hlt => hnone _ hlt hused]

/-- **Arguments are counted exactly.** A call is reported to need `used` of `provided`
arguments exactly if the format accepts all of them, which are `provided`, and `used` is
smaller and the length of the shortest prefix it accepts. When the format accepts the
arguments, bisection finds that length, and it is the number that the positions of the
specifiers call for. A call passes exactly if the format accepts its arguments and no
shorter prefix of them. -/
theorem checkCandidate_counts_exactly (format : String) (arguments : List Sample) :
    (∀ used provided : Nat,
      (checkCandidate arguments format).map CallProblem.message =
          some ("extra format arguments: used " ++ toString used ++
            ", provided " ++ toString provided) ↔
        check format arguments = .ok () ∧ used < arguments.length ∧ provided = arguments.length ∧
          SmallestPrefix format arguments used) ∧
    (check format arguments = .ok () →
      SmallestPrefix format arguments (usedArguments format arguments) ∧
      ∃ reads, Reads format.toList reads ∧ (∃ position, Positions reads position) ∧
        ∀ position, Positions reads position →
          NeededCount reads position (usedArguments format arguments)) ∧
    (checkCandidate arguments format = none ↔
      check format arguments = .ok () ∧
        ∀ n < arguments.length, check format (arguments.take n) ≠ .ok ()) := by
  refine ⟨fun used provided => ?_, fun hcheck => ?_, checkCandidate_eq_none_iff⟩
  · rw [← checkCandidate_eq_extraArguments_iff, Option.map_eq_some_iff]
    simp only [CallProblem.message_eq_iff, exists_eq_right]
  · have hleast := smallestPrefix_usedArguments hcheck
    obtain ⟨reads, hreads⟩ := exists_reads_of_check hcheck
    refine ⟨hleast, reads, hreads, ⟨_, positions_positionAt reads⟩, fun position hposition => ?_⟩
    exact neededCount_of_smallestPrefix hreads hposition hcheck hleast

end Candidate

/-- `%3$s%s` refers to the third argument and to the first, so it needs three. -/
theorem checkCandidate_counts_exactly_gap :
    check "%3$s%s" [.null, .int 1, .string "a", .date] = .ok () ∧
      (∃ reads, Reads "%3$s%s".toList reads ∧ (∃ position, Positions reads position) ∧
        ∀ position, Positions reads position → NeededCount reads position 3) ∧
      (checkCandidate [.null, .int 1, .string "a", .date] "%3$s%s").map CallProblem.message =
        some "extra format arguments: used 3, provided 4" := by
  have hcheck : check "%3$s%s" [.null, .int 1, .string "a", .date] = .ok () := by decide +kernel
  have hused : usedArguments "%3$s%s" [.null, .int 1, .string "a", .date] = 3 := by decide +kernel
  obtain ⟨hreports, hneeds, -⟩ :=
    checkCandidate_counts_exactly "%3$s%s" [.null, .int 1, .string "a", .date]
  obtain ⟨hleast, hreads⟩ := hneeds hcheck
  rw [hused] at hleast hreads
  exact ⟨hcheck, hreads, (hreports 3 4).2 ⟨hcheck, by decide, rfl, hleast⟩⟩

end JvmLint.Format

import JvmLint.Proofs.Format.Written

/-!
# The text of a specifier

A specifier is shown as its groups (`Specifier.groups`): the flags in a fixed order, then
the index, the other numbers without leading zeros, and the conversion in upper case
if upper case is asked for. Two things are lost on the way. An index is looked for in
front of the flags only, and dates and times have letters whose upper case means
something else.

The main result, `parse_text_eq_iff`, is that nothing else is lost.
-/
namespace JvmLint.Format

open Grammar

/-! ## Numbers -/

theorem isNumeral_toDigits (n : Nat) : IsNumeral (Nat.toDigits 10 n) :=
  ⟨Nat.toDigits_ne_nil, fun _ hc => Nat.isDigit_of_mem_toDigits (by decide) (by decide) hc⟩

/-- Of the digits, zero is the only flag. -/
theorem eq_zero_of_isFlag {c : Char} (hdigit : isDigit c) (hflag : isFlag c) : c = '0' := by
  simp only [isFlag, List.contains_iff_mem, List.mem_cons, List.not_mem_nil, or_false] at hflag
  rcases hflag with rfl | rfl | rfl | rfl | rfl | rfl | rfl | rfl <;> first | rfl | cases hdigit

/-- The digits of a positive number do not start with a zero. -/
theorem head?_toDigits_ne {n : Nat} (h : 0 < n) : (Nat.toDigits 10 n).head? ≠ some '0' := by
  induction n using Nat.strongRecOn with
  | ind n ih =>
    by_cases hlt : n < 10
    · rw [Nat.toDigits_of_lt_base hlt]
      simp
      omega
    · rw [Nat.toDigits_of_base_le (by decide) (by omega),
        List.head?_append_of_ne_nil _ Nat.toDigits_ne_nil]
      exact ih (n / 10) (by omega) (by omega)

theorem stops_toDigits {n : Nat} (h : 0 < n) : Stops isFlag (Nat.toDigits 10 n) := by
  intro c hc hflag
  have hdigit := (isNumeral_toDigits n).2 c (List.mem_of_head? hc)
  rw [eq_zero_of_isFlag hdigit hflag] at hc
  exact head?_toDigits_ne h hc

namespace Specifier

variable {n : Nat} {digits : List Char}

theorem number?_eq_some_iff :
    number? digits = some n ↔ Nat.ofDigitChars 10 digits 0 = n ∧ n ≤ maxNumber := by
  have hvalue : number? digits = if Nat.ofDigitChars 10 digits 0 ≤ maxNumber then
      some (Nat.ofDigitChars 10 digits 0) else none := rfl
  rw [hvalue]
  constructor
  · intro h
    split at h
    · rename_i hle
      cases h
      exact ⟨rfl, hle⟩
    · cases h
  · rintro ⟨rfl, hle⟩
    rw [if_pos hle]

theorem number?_toDigits (h : n ≤ maxNumber) : number? (Nat.toDigits 10 n) = some n :=
  number?_eq_some_iff.2 ⟨Nat.ofDigitChars_ten_toDigits, h⟩

/-- A number whose digits do not start with a zero is positive. -/
theorem pos_of_number? (hdigits : IsNumeral digits) (hstops : Stops isFlag digits)
    (h : number? digits = some n) : 0 < n := by
  obtain ⟨c, cs, rfl⟩ := List.exists_cons_of_ne_nil hdigits.1
  obtain ⟨rfl, -⟩ := number?_eq_some_iff.1 h
  have hdigit : isDigit c := hdigits.2 c (by simp)
  have hzero : c ≠ '0' := by
    rintro rfl
    exact hstops '0' rfl (by decide)
  have hpos : 0 < c.toNat - '0'.toNat := by
    have hle : '0'.toNat ≤ c.toNat := by
      simp only [isDigit, isBetween, Bool.and_eq_true, decide_eq_true_eq] at hdigit
      exact hdigit.1
    have hne : c.toNat ≠ '0'.toNat := fun heq => hzero (Char.toNat_inj.1 heq)
    omega
  rw [Nat.ofDigitChars_cons, Nat.ofDigitChars_eq_ofDigitChars_zero]
  have hfirst : 0 < 10 ^ cs.length * (10 * 0 + (c.toNat - '0'.toNat)) :=
    Nat.mul_pos (Nat.pow_pos (by decide)) (by omega)
  omega

end Specifier

/-! ## Flags -/

theorem Flag.ofSymbol?_symbol {flag : Flag} (h : flag ∈ written) :
    ofSymbol? flag.symbol = some flag := by
  have hall : written.all fun flag => decide (ofSymbol? flag.symbol = some flag) := by decide
  exact of_decide_eq_true (List.all_eq_true.1 hall flag h)

theorem Flag.mem_written_iff {flag : Flag} : flag ∈ written ↔ flag ≠ .uppercase := by
  cases flag <;> decide

theorem isFlag_of_mem_symbols {flags : Flags} {c : Char} (h : c ∈ flags.symbols Flag.written) :
    isFlag c := by
  obtain ⟨flag, hflag, rfl⟩ := List.mem_map.1 h
  rw [isFlag_eq, RawSpecifier.isFlagSymbol, Flag.ofSymbol?_symbol (List.mem_filter.1 hflag).1]
  rfl

namespace Specifier

/-- The symbols of different flags can be read. -/
theorem exists_readFlags {flags : Flags} {among : List Flag} (hnodup : among.Nodup)
    (hwritten : ∀ flag ∈ among, flag ∈ Flag.written) (hnew : ∀ flag ∈ among, ¬ flags.has flag) :
    ∃ found, readFlags flags (among.map Flag.symbol) = .ok found := by
  induction among generalizing flags with
  | nil => exact ⟨flags, rfl⟩
  | cons flag rest ih =>
    rw [List.nodup_cons] at hnodup
    rw [List.forall_mem_cons] at hwritten hnew
    have hrest : ∀ other ∈ rest, ¬ (flags.insert flag).has other := by
      intro other hother
      have hne : other ≠ flag := fun heq => hnodup.1 (heq ▸ hother)
      simpa [Flags.has_insert, hne] using hnew.2 other hother
    obtain ⟨found, hfound⟩ := ih hnodup.2 hwritten.2 hrest
    refine ⟨found, ?_⟩
    rw [List.map_cons, readFlags, Flag.ofSymbol?_symbol hwritten.1, ← hfound]
    simp [hnew.1]

/-- The flags of a set that can be written are read back. -/
theorem readFlags_symbols {flags all : Flags}
    (h : ∀ flag, flags.has flag ↔ flag ∈ Flag.written ∧ all.has flag) :
    readFlags .none (all.symbols Flag.written) = .ok flags := by
  have hnodup : Flag.written.Nodup := by decide
  obtain ⟨found, hfound⟩ :
      ∃ found, readFlags .none ((Flag.written.filter all.has).map Flag.symbol) = .ok found :=
    exists_readFlags (hnodup.filter _) (fun flag hflag => (List.mem_filter.1 hflag).1) (by simp)
  have heq : found = flags := by
    apply Flags.ext_has
    intro flag
    rw [Bool.eq_iff_iff, has_of_readFlags hfound, h, ← List.mem_filter]
    constructor
    · rintro (hnone | ⟨_, hsymbol, hflag⟩)
      · simp at hnone
      · obtain ⟨other, hother, rfl⟩ := List.mem_map.1 hsymbol
        rw [Flag.ofSymbol?_symbol (List.mem_filter.1 hother).1] at hflag
        cases hflag
        exact hother
    · intro hflag
      exact Or.inr ⟨flag.symbol, List.mem_map_of_mem hflag,
        Flag.ofSymbol?_symbol (List.mem_filter.1 hflag).1⟩
  rw [Flags.symbols, hfound, heq]

/-- No symbol asks for upper case. -/
theorem mem_written_of_readFlags {flags : Flags} {symbols : List Char}
    (h : readFlags .none symbols = .ok flags) {flag : Flag} (hflag : flags.has flag) :
    flag ∈ Flag.written := by
  rcases (has_of_readFlags h flag).1 hflag with hnone | ⟨symbol, -, hsymbol⟩
  · simp at hnone
  · exact List.mem_of_find?_eq_some hsymbol

end Specifier

namespace RawSpecifier.Means

variable {raw : RawSpecifier} {index : ArgumentRef} {flags : Flags} {specifier : Specifier}
  (h : raw.Means index flags specifier)
include h

theorem has_iff (flag : Flag) :
    flags.has flag ↔ flag ∈ Flag.written ∧ specifier.flags.has flag := by
  have hwritten : flags.has flag → flag ∈ Flag.written :=
    Specifier.mem_written_of_readFlags h.flags_eq
  rw [h.allFlags_eq]
  constructor
  · intro hflag
    refine ⟨hwritten hflag, ?_⟩
    split
    · simp [Flags.has_insert, hflag]
    · exact hflag
  · rintro ⟨hmem, hflag⟩
    split at hflag
    · simpa [Flags.has_insert, Flag.mem_written_iff.1 hmem] using hflag
    · exact hflag

theorem uppercase_eq : specifier.flags.uppercase = raw.asksUppercase := by
  have hnot : flags.has .uppercase = false := by
    rw [← Bool.not_eq_true]
    intro hflag
    exact absurd (Specifier.mem_written_of_readFlags h.flags_eq hflag) (by decide)
  show specifier.flags.has .uppercase = _
  rw [h.allFlags_eq]
  cases raw.asksUppercase <;> simp [Flags.has_insert, hnot]

end RawSpecifier.Means

/-! ## The groups of the text -/

namespace Specifier

/-- The groups that the text of a specifier is made of. -/
def groups (specifier : Specifier) : RawSpecifier where
  index :=
    match specifier.argument with
    | .explicit n => some (Nat.toDigits 10 n)
    | _ => none
  flags := specifier.flags.symbols Flag.written
  width := specifier.width.map (Nat.toDigits 10)
  precision := specifier.precision.map (Nat.toDigits 10)
  dateTime :=
    if specifier.dateTime then some (if specifier.flags.uppercase then 'T' else 't') else none
  conversion :=
    if specifier.flags.uppercase then specifier.conversion.toUpper else specifier.conversion

/-- The index stands behind the flags, where it is not looked for. -/
theorem toList_text (specifier : Specifier) :
    specifier.text.toList = '%' :: (specifier.groups.flags ++
      (specifier.groups.indexText ++ specifier.groups.widthText)) := by
  have hindex : text.index specifier = specifier.groups.indexText := by
    simp only [text.index, text.digits, RawSpecifier.indexText, groups]
    cases specifier.argument <;> rfl
  have hwidth : text.width specifier = specifier.groups.width.getD [] := rfl
  have hprecision : text.precision specifier =
      (specifier.groups.precision.map ('.' :: ·)).getD [] := by
    simp only [text.precision, groups, Option.map_map]
    rfl
  have hmark : text.mark specifier = specifier.groups.dateTime.toList := by
    simp only [text.mark, groups]
    split <;> rfl
  have hconversion : text.conversion specifier = specifier.groups.conversion := rfl
  have hflags : specifier.flags.symbols Flag.written = specifier.groups.flags := rfl
  rw [text, String.toList_ofList, hindex, hwidth, hprecision, hmark, hconversion, hflags]
  simp [RawSpecifier.widthText, RawSpecifier.precisionText, RawSpecifier.markText]

theorem mem_dateTimeConversions {specifier : Specifier} (hcheck : specifier.check = .ok ())
    (hdate : specifier.dateTime) : specifier.conversion ∈ dateTimeConversions := by
  rw [check, if_pos hdate] at hcheck
  obtain ⟨_, -, hcheck⟩ := exists_of_bind_eq_ok hcheck
  by_contra hnot
  rw [if_pos hnot] at hcheck
  cases hcheck

/-- Of the letters of dates and times, upper case keeps those in upper case. -/
theorem toUpper_eq_self_iff {c : Char} (h : c ∈ dateTimeConversions) :
    c.toUpper = c ↔ c.isUpper := by
  have hall : dateTimeConversions.all fun c => decide (c.toUpper = c ↔ c.isUpper) := by decide
  exact of_decide_eq_true (List.all_eq_true.1 hall c h)

/-- Lower and upper case of the other conversions undo each other. -/
theorem toUpper_toLower {c : Char} (h : c ∈ validConversions) :
    (if c.isUpper then c.toLower.toUpper else c.toLower) = c := by
  have hall : validConversions.all fun c =>
      decide ((if c.isUpper then c.toLower.toUpper else c.toLower) = c) := by decide
  exact of_decide_eq_true (List.all_eq_true.1 hall c h)

theorem isConversion_toUpper {c : Char} (h : c ∈ dateTimeConversions) : isConversion c.toUpper := by
  have hall : dateTimeConversions.all fun c => isConversion c.toUpper := by decide
  exact List.all_eq_true.1 hall c h

/-- The argument is named by its position. -/
def IsIndexed (specifier : Specifier) : Prop :=
  ∃ n > 0, specifier.argument = .explicit n

/-- A flag other than upper case is set. -/
def IsFlagged (specifier : Specifier) : Prop :=
  ∃ flag, flag ≠ .uppercase ∧ specifier.flags.has flag

/-- A date or time with a mark in upper case. -/
def IsUppercaseDate (specifier : Specifier) : Prop :=
  specifier.dateTime ∧ specifier.flags.uppercase

theorem exists_of_readNumber {tooLarge : FormatError} {group : Option (List Char)} {n : Nat}
    (h : readNumber tooLarge group = .ok (some n)) :
    ∃ digits, group = some digits ∧ number? digits = some n := by
  cases group with
  | none => cases h
  | some digits =>
    rw [readNumber] at h
    split at h
    · rename_i hnumber
      cases h
      exact ⟨digits, rfl, hnumber⟩
    · cases h

theorem readNumber_toDigits {tooLarge : FormatError} {group : Option (List Char)}
    {number : Option Nat} (h : readNumber tooLarge group = .ok number) :
    readNumber tooLarge (number.map (Nat.toDigits 10)) = .ok number := by
  cases number with
  | none => rfl
  | some n =>
    obtain ⟨digits, -, hnumber⟩ := exists_of_readNumber h
    rw [Option.map_some, readNumber, number?_toDigits (number?_eq_some_iff.1 hnumber).2]

theorem readIndex_cases {group : Option (List Char)} {index : ArgumentRef}
    (h : readIndex group = .ok index) : index = .next ∨ ∃ n, index = .explicit n := by
  cases group with
  | none =>
    cases h
    exact Or.inl rfl
  | some digits =>
    rw [readIndex] at h
    split at h
    · cases h
    · cases h
      exact Or.inr ⟨_, rfl⟩
    · cases h

theorem readIndex_toDigits {group : Option (List Char)} {n : Nat}
    (h : readIndex group = .ok (.explicit n)) :
    0 < n ∧ readIndex (some (Nat.toDigits 10 n)) = .ok (.explicit n) := by
  cases group with
  | none => cases h
  | some digits =>
    rw [readIndex] at h
    split at h
    · cases h
    · rename_i position hpos hnumber
      cases h
      rw [readIndex, number?_toDigits (number?_eq_some_iff.1 hnumber).2]
      cases n with
      | zero => exact absurd rfl hpos
      | succ m => exact ⟨Nat.succ_pos m, rfl⟩
    · cases h

section Groups

variable {raw : RawSpecifier} {index : ArgumentRef} {flags : Flags} {specifier : Specifier}

theorem dateTime_groups (hraw : raw.WellFormed) (h : raw.Means index flags specifier) :
    specifier.groups.dateTime = raw.dateTime := by
  have hupper := h.uppercase_eq
  cases hmark : raw.dateTime with
  | none => simp [groups, h.dateTime_eq, hmark]
  | some mark =>
    rw [RawSpecifier.asksUppercase, hmark] at hupper
    rcases isMark_iff.1 (hraw.dateTime mark hmark) with rfl | rfl <;>
      simp [groups, h.dateTime_eq, hmark, hupper]

/-- The conversion is written as it was, but for that of a date in upper case. -/
theorem conversion_groups_iff (h : raw.Means index flags specifier) :
    specifier.groups.conversion = raw.conversion ↔
      ¬ specifier.IsUppercaseDate ∨ specifier.conversion.isUpper := by
  have hupper := h.uppercase_eq
  have hconversion := h.conversion_eq
  rw [RawSpecifier.asksUppercase] at hupper
  rw [RawSpecifier.meantConversion] at hconversion
  cases hmark : raw.dateTime with
  | none =>
    have hdate : specifier.dateTime = false := by simp [h.dateTime_eq, hmark]
    simp only [hmark, Option.isSome_none, Bool.false_eq_true, if_false] at hupper hconversion
    simp only [groups, hupper, hconversion, toUpper_toLower (h.valid hmark), IsUppercaseDate, hdate]
    simp
  | some mark =>
    have hdate : specifier.dateTime = true := by simp [h.dateTime_eq, hmark]
    simp only [hmark, Option.isSome_some, if_true] at hconversion
    have hletter := mem_dateTimeConversions h.check_eq hdate
    simp only [groups, IsUppercaseDate, hdate, ← hconversion]
    cases specifier.flags.uppercase <;> simp [toUpper_eq_self_iff hletter]

theorem isConversion_groups (hraw : raw.WellFormed) (h : raw.Means index flags specifier) :
    isConversion specifier.groups.conversion := by
  by_cases hdate : specifier.IsUppercaseDate
  · simp only [groups, hdate.2, if_true]
    exact isConversion_toUpper (mem_dateTimeConversions h.check_eq hdate.1)
  · rw [(conversion_groups_iff h).2 (Or.inl hdate)]
    exact hraw.conversion

theorem wellFormed_groups (hraw : raw.WellFormed) (h : raw.Means index flags specifier) :
    specifier.groups.WellFormed where
  index := by
    intro digits hdigits
    simp only [groups] at hdigits
    split at hdigits
    · cases hdigits
      exact isNumeral_toDigits _
    · cases hdigits
  flags := fun c => isFlag_of_mem_symbols
  width := by
    intro digits hdigits
    obtain ⟨n, hn, rfl⟩ := Option.mem_map.1 hdigits
    have hread := h.width_eq
    rw [Option.mem_def.1 hn] at hread
    obtain ⟨read, hwidth, hnumber⟩ := exists_of_readNumber hread
    obtain ⟨hnumeral, hstops⟩ := hraw.width read hwidth
    exact ⟨isNumeral_toDigits n, stops_toDigits (pos_of_number? hnumeral hstops hnumber)⟩
  precision := by
    intro digits hdigits
    obtain ⟨n, -, rfl⟩ := Option.mem_map.1 hdigits
    exact isNumeral_toDigits n
  dateTime := by
    rw [dateTime_groups hraw h]
    exact hraw.dateTime
  conversion := isConversion_groups hraw h

theorem hasNoLoneMark_groups (hraw : raw.WellFormed) (h : raw.Means index flags specifier) :
    specifier.groups.HasNoLoneMark := by
  have hlone := RawSpecifier.hasNoLoneMark_of_ofRaw (ofRaw_of_means h)
  intro hmark
  have hdate : ¬ specifier.IsUppercaseDate := by
    rintro ⟨hdate, -⟩
    simp [groups, hdate] at hmark
  rw [(conversion_groups_iff h).2 (Or.inl hdate)]
  exact hlone ((dateTime_groups hraw h).symm.trans hmark)

theorem readIndex_of_explicit (h : raw.Means index flags specifier) {n : Nat}
    (hn : specifier.argument = .explicit n) : readIndex raw.index = .ok (.explicit n) := by
  have hargument := hn.symm.trans h.argument_eq
  split at hargument
  · split at hargument
    · cases hargument
    · rw [hargument]
      exact h.index_eq
  · cases hargument

/-- The index that is written gives the same argument as the one that was read. -/
theorem exists_readIndex_groups (h : raw.Means index flags specifier) :
    ∃ index', readIndex specifier.groups.index = .ok index' ∧
      specifier.argument =
        if raw.takesArgument then if flags.previous then .previous else index' else .nothing := by
  have hargument := h.argument_eq
  by_cases hexplicit : ∃ n, specifier.argument = .explicit n
  · obtain ⟨n, hn⟩ := hexplicit
    have hread := readIndex_of_explicit h hn
    obtain rfl : index = .explicit n := Except.ok.inj (h.index_eq.symm.trans hread)
    refine ⟨.explicit n, ?_, hargument⟩
    simp only [groups, hn]
    exact (readIndex_toDigits hread).2
  · refine ⟨.next, ?_, ?_⟩
    · simp only [groups]
      split
      · rename_i n hn
        exact absurd ⟨n, hn⟩ hexplicit
      · rfl
    · rcases readIndex_cases h.index_eq with rfl | ⟨n, rfl⟩
      · exact hargument
      · rw [hargument] at hexplicit ⊢
        split
        · rename_i htakes
          split
          · rfl
          · rename_i hprevious
            exact absurd ⟨n, by rw [if_pos htakes, if_neg hprevious]⟩ hexplicit
        · rfl

/-- The groups of the text mean the specifier, unless the conversion has changed. -/
theorem means_groups (hraw : raw.WellFormed) (h : raw.Means index flags specifier)
    (hconversion : specifier.groups.conversion = raw.conversion) :
    ∃ index', specifier.groups.Means index' flags specifier := by
  have hmark := dateTime_groups hraw h
  obtain ⟨index', hindex, hargument⟩ := exists_readIndex_groups h
  have htakes : specifier.groups.takesArgument = raw.takesArgument := by
    rw [RawSpecifier.takesArgument, RawSpecifier.takesArgument, hmark, hconversion]
  have hupper : specifier.groups.asksUppercase = raw.asksUppercase := by
    rw [RawSpecifier.asksUppercase, RawSpecifier.asksUppercase, hmark, hconversion]
  have hmeant : specifier.groups.meantConversion = raw.meantConversion := by
    rw [RawSpecifier.meantConversion, RawSpecifier.meantConversion, hmark, hconversion]
  exact ⟨index', {
    index_eq := hindex
    flags_eq := readFlags_symbols h.has_iff
    width_eq := readNumber_toDigits h.width_eq
    precision_eq := readNumber_toDigits h.precision_eq
    valid := by
      rw [hmark, hconversion]
      exact h.valid
    argument_eq := by rw [htakes, hargument]
    allFlags_eq := by rw [hupper, h.allFlags_eq]
    dateTime_eq := by rw [hmark, h.dateTime_eq]
    conversion_eq := by rw [hmeant, h.conversion_eq]
    check_eq := h.check_eq }⟩

theorem ofRaw_groups_iff (hraw : raw.WellFormed) (h : raw.Means index flags specifier) :
    ofRaw specifier.groups = .ok specifier ↔
      ¬ specifier.IsUppercaseDate ∨ specifier.conversion.isUpper := by
  rw [← conversion_groups_iff h]
  constructor
  · intro hgroups
    obtain ⟨index', flags', hmeans⟩ := means_of_ofRaw hgroups
    by_cases hdate : specifier.IsUppercaseDate
    · have hsome : raw.dateTime.isSome := h.dateTime_eq.symm.trans hdate.1
      have hmeant := hmeans.conversion_eq.symm.trans h.conversion_eq
      rwa [RawSpecifier.meantConversion, RawSpecifier.meantConversion, dateTime_groups hraw h,
        if_pos hsome, if_pos hsome] at hmeant
    · exact (conversion_groups_iff h).2 (Or.inl hdate)
  · intro hconversion
    obtain ⟨index', hmeans⟩ := means_groups hraw h hconversion
    exact ofRaw_of_means hmeans

/-- With an index or with flags, but not both, the text is the groups in their order. -/
theorem toList_text_eq_written (h : raw.Means index flags specifier)
    (hone : ¬ specifier.IsIndexed ∨ ¬ specifier.IsFlagged) :
    specifier.text.toList = '%' :: specifier.groups.written := by
  rw [toList_text, RawSpecifier.written_eq]
  rcases hone with hindexed | hflagged
  · have hindex : specifier.groups.index = none := by
      simp only [groups]
      split
      · rename_i n hn
        exact absurd ⟨n, (readIndex_toDigits (readIndex_of_explicit h hn)).1, hn⟩ hindexed
      · rfl
    simp [RawSpecifier.indexText, hindex]
  · have hflags : specifier.groups.flags = [] := by
      simp only [groups, Flags.symbols, List.map_eq_nil_iff, List.filter_eq_nil_iff]
      intro flag hmem hflag
      exact hflagged ⟨flag, Flag.mem_written_iff.1 hmem, hflag⟩
    simp [hflags]

theorem parse_written_iff (hraw : raw.WellFormed) (h : raw.Means index flags specifier) :
    parse ('%' :: specifier.groups.written) = .ok [specifier] ↔
      ofRaw specifier.groups = .ok specifier := by
  have hscan :=
    RawSpecifier.scan_written (wellFormed_groups hraw h) (hasNoLoneMark_groups hraw h) []
  rw [List.append_nil] at hscan
  rw [parse_specifier hscan, parse]
  cases ofRaw specifier.groups with
  | error error => simp [bind, Except.bind]
  | ok found => simp [bind, Except.bind, pure, Except.pure]

/-- What is read as an index from a text in which one stands behind flags takes the flags
with it, so that none are left. -/
theorem flags_eq_nil_of_scan_text (hraw : raw.WellFormed) (h : raw.Means index flags specifier)
    {n : Nat} (hn : specifier.argument = .explicit n) {read : RawSpecifier}
    {digits rest : List Char} (hindex : read.index = some digits)
    (hscan : RawSpecifier.scan (specifier.groups.flags ++
      (specifier.groups.indexText ++ specifier.groups.widthText)) = some (read, rest)) :
    read.flags = [] := by
  have hgroups := wellFormed_groups hraw h
  have hread := RawSpecifier.wellFormed_of_scan hscan
  have htext := RawSpecifier.eq_written_of_scan hscan
  have hwritten : specifier.groups.index = some (Nat.toDigits 10 n) := by simp only [groups, hn]
  rw [RawSpecifier.written_eq, RawSpecifier.indexText, RawSpecifier.indexText, hindex,
    hwritten] at htext
  simp only [Option.map_some, Option.getD_some, List.append_assoc, List.cons_append,
    List.nil_append] at htext
  rw [← List.append_assoc] at htext
  -- both sides are cut at their first dollar sign
  have hdollar : ∀ c, isDigit c ∨ isFlag c → c != '$' := by
    rintro c hc
    rw [bne_iff_ne]
    rintro rfl
    rcases hc with hc | hc <;> cases hc
  have hfirst : ∀ c ∈ specifier.groups.flags ++ Nat.toDigits 10 n, c != '$' := by
    intro c hc
    rcases List.mem_append.1 hc with hc | hc
    · exact hdollar c (Or.inr (hgroups.flags c hc))
    · exact hdollar c (Or.inl ((isNumeral_toDigits n).2 c hc))
  have hsecond : ∀ c ∈ digits, c != '$' := fun c hc =>
    hdollar c (Or.inl ((hread.index digits hindex).2 c hc))
  obtain ⟨-, hbehind⟩ := append_cons_inj hfirst hsecond (by simp) htext
  have hstops := hgroups.stops_widthText []
  rw [List.append_nil, hbehind, stops_iff_takeWhile,
    (hread.stops_widthText rest).takeWhile_append hread.flags] at hstops
  exact hstops

/-- An index behind flags is not read back. -/
theorem not_isFlagged_of_parse_text (hraw : raw.WellFormed) (h : raw.Means index flags specifier)
    (hindexed : specifier.IsIndexed) (hparse : parse specifier.text.toList = .ok [specifier]) :
    ¬ specifier.IsFlagged := by
  obtain ⟨n, -, hn⟩ := hindexed
  obtain ⟨reads, hreads, hmap⟩ := exists_reads_of_parse hparse
  rw [toList_text] at hreads
  cases hreads with
  | plain hc _ => exact absurd rfl hc
  | specifier read hscan _ =>
    obtain ⟨rfl, -⟩ := List.cons.inj hmap
    have hrefers := RawSpecifier.refersTo_of_ofRaw read.ofRaw_eq
    rw [hn] at hrefers
    cases hrefers with
    | explicit _ _ hindex _ =>
      have hnil := flags_eq_nil_of_scan_text hraw h hn hindex hscan
      obtain ⟨_, none, hmeans⟩ := means_of_ofRaw read.ofRaw_eq
      have hnone := hmeans.flags_eq
      rw [hnil] at hnone
      cases hnone
      rintro ⟨flag, hne, hflag⟩
      have hhas := (hmeans.has_iff flag).2 ⟨Flag.mem_written_iff.2 hne, hflag⟩
      simp at hhas

end Groups

end Specifier

theorem Reads.wellFormed {format : List Char} {reads : List ReadSpecifier}
    (h : Reads format reads) : ∀ read ∈ reads, read.raw.WellFormed := by
  induction h with
  | nil => simp
  | plain _ _ ih => exact ih
  | specifier read hscan _ ih =>
    exact List.forall_mem_cons.2 ⟨RawSpecifier.wellFormed_of_scan hscan, ih⟩

/-- **The text of a specifier.** A specifier of a format, written as messages show it, is
read back as itself alone exactly if it has no index or no flag besides upper case, and
it is no date or time in upper case, or one whose letter is in upper case. -/
theorem parse_text_eq_iff (format : List Char) (specifiers : List Specifier)
    (hformat : parse format = .ok specifiers) (specifier : Specifier)
    (hmem : specifier ∈ specifiers) :
    parse specifier.text.toList = .ok [specifier] ↔
      (¬ specifier.IsIndexed ∨ ¬ specifier.IsFlagged) ∧
        (¬ specifier.IsUppercaseDate ∨ specifier.conversion.isUpper) := by
  obtain ⟨reads, hreads, rfl⟩ := exists_reads_of_parse hformat
  obtain ⟨read, hread, rfl⟩ := List.mem_map.1 hmem
  have hraw := hreads.wellFormed read hread
  obtain ⟨index, flags, hmeans⟩ := Specifier.means_of_ofRaw read.ofRaw_eq
  by_cases hone : ¬ read.specifier.IsIndexed ∨ ¬ read.specifier.IsFlagged
  · rw [Specifier.toList_text_eq_written hmeans hone,
      Specifier.parse_written_iff hraw hmeans, Specifier.ofRaw_groups_iff hraw hmeans]
    simp [hone]
  · simp only [hone, false_and, iff_false]
    intro hparse
    simp only [not_or, not_not] at hone
    exact Specifier.not_isFlagged_of_parse_text hraw hmeans hone.1 hparse hone.2

/-- The specifier `%3$-5S`. -/
def justifiedThird : Specifier :=
  ⟨.explicit 3, (Flags.none.insert .leftJustify).insert .uppercase, some 5, none, false, 's'⟩

/-- The specifier `%Tb`. -/
def uppercaseMonth : Specifier :=
  ⟨.next, Flags.none.insert .uppercase, none, none, true, 'b'⟩

/-- The specifier `%0+10.020E`. -/
def paddedNumber : Specifier :=
  ⟨.next, ((Flags.none.insert .zeroPad).insert .plus).insert .uppercase, some 10, some 20, false,
    'e'⟩

/-- The first two are shown as `%-3$5S` and `%TB`, which are not read back; the third one,
shown as `%+010.20E`, is. -/
theorem parse_text_eq_iff_shown :
    parse "%3$-5S%Tb%0+10.020E".toList = .ok [justifiedThird, uppercaseMonth, paddedNumber] ∧
      parse justifiedThird.text.toList ≠ .ok [justifiedThird] ∧
      parse uppercaseMonth.text.toList ≠ .ok [uppercaseMonth] ∧
      parse paddedNumber.text.toList = .ok [paddedNumber] := by
  have hformat : parse "%3$-5S%Tb%0+10.020E".toList =
      .ok [justifiedThird, uppercaseMonth, paddedNumber] := by decide +kernel
  have hshown := parse_text_eq_iff _ _ hformat
  refine ⟨hformat, ?_, ?_, ?_⟩
  · rw [ne_eq, hshown justifiedThird (by simp)]
    rintro ⟨hindex | hflag, -⟩
    · exact hindex ⟨3, by decide, rfl⟩
    · exact hflag ⟨.leftJustify, by decide, rfl⟩
  · rw [ne_eq, hshown uppercaseMonth (by simp)]
    rintro ⟨-, hdate | hletter⟩
    · exact hdate ⟨rfl, rfl⟩
    · exact absurd hletter (by decide)
  · refine (hshown paddedNumber (by simp)).2 ⟨Or.inl ?_, Or.inl ?_⟩
    · rintro ⟨n, -, hn⟩
      cases hn
    · rintro ⟨hdate, -⟩
      cases hdate

end JvmLint.Format

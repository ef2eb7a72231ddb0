import JvmLint.Format.Specifier
import JvmLint.Proofs.Outcome

/-!
# Reading formats

What a format that can be read consists of: plain text and specifiers, each with the
groups it is written in and the meaning these have (`Reads`). `parse` succeeds exactly
on such formats (`parse_eq_ok_iff`).

Which argument a specifier formats is decided by its groups
(`RawSpecifier.RefersTo`).
-/
namespace JvmLint.Format

/-! ## What the groups mean -/

namespace RawSpecifier

/-- Whether an argument is formatted. A percent sign and a line break need none. -/
def takesArgument (raw : RawSpecifier) : Bool :=
  raw.dateTime.isSome || !(raw.conversion == '%' || raw.conversion == 'n')

theorem takesArgument_iff {raw : RawSpecifier} (h : raw.dateTime = none) :
    raw.takesArgument ↔ ¬ (raw.conversion = '%' ∨ raw.conversion = 'n') := by
  simp [takesArgument, h]

/-- Whether upper case is asked for: by the mark if there is one, else by the
conversion. -/
def asksUppercase (raw : RawSpecifier) : Bool :=
  match raw.dateTime with
  | some mark => mark == 'T'
  | none => raw.conversion.isUpper

/-- The conversion behind a mark as it is, any other one in lower case. -/
def meantConversion (raw : RawSpecifier) : Char :=
  if raw.dateTime.isSome then raw.conversion else raw.conversion.toLower

/-- The meaning of the groups, given that of the index and of the flags written. -/
structure Means (raw : RawSpecifier) (index : ArgumentRef) (flags : Flags)
    (specifier : Specifier) : Prop where
  index_eq : Specifier.readIndex raw.index = .ok index
  flags_eq : Specifier.readFlags .none raw.flags = .ok flags
  width_eq : Specifier.readNumber (.illegalWidth none) raw.width = .ok specifier.width
  precision_eq : Specifier.readNumber (.illegalPrecision none) raw.precision =
    .ok specifier.precision
  valid : raw.dateTime = none → raw.conversion ∈ validConversions
  argument_eq : specifier.argument =
    if raw.takesArgument then if flags.previous then .previous else index else .nothing
  allFlags_eq : specifier.flags = if raw.asksUppercase then flags.insert .uppercase else flags
  dateTime_eq : specifier.dateTime = raw.dateTime.isSome
  conversion_eq : specifier.conversion = raw.meantConversion
  check_eq : specifier.check = .ok ()

end RawSpecifier

namespace Specifier

/-- Of the conversions only the percent sign and the line break are fixed texts. -/
theorem toLower_fixed_iff {c : Char} (h : c ∈ validConversions) :
    c.toLower = '%' ∨ c.toLower = 'n' ↔ c = '%' ∨ c = 'n' := by
  have hall : validConversions.all fun c =>
      decide (c.toLower = '%' ∨ c.toLower = 'n' ↔ c = '%' ∨ c = 'n') := by decide
  exact of_decide_eq_true (List.all_eq_true.1 hall c h)

theorem means_of_ofRaw {raw : RawSpecifier} {specifier : Specifier}
    (h : ofRaw raw = .ok specifier) : ∃ index flags, raw.Means index flags specifier := by
  unfold ofRaw at h
  obtain ⟨index, hindex, h⟩ := exists_of_bind_eq_ok h
  obtain ⟨flags, hflags, h⟩ := exists_of_bind_eq_ok h
  obtain ⟨width, hwidth, h⟩ := exists_of_bind_eq_ok h
  obtain ⟨precision, hprecision, h⟩ := exists_of_bind_eq_ok h
  refine ⟨index, flags, ?_⟩
  split at h
  · rename_i mark hmark
    obtain ⟨found, hfound, h⟩ := exists_of_bind_eq_ok h
    obtain ⟨_, hcheck, h⟩ := exists_of_bind_eq_ok h
    cases h
    cases hfound
    exact ⟨hindex, hflags, hwidth, hprecision, by simp [hmark],
      by simp [RawSpecifier.takesArgument, hmark], by simp [RawSpecifier.asksUppercase, hmark],
      by simp [hmark], by simp [RawSpecifier.meantConversion, hmark], hcheck⟩
  · rename_i hmark
    split at h
    · cases h
    · rename_i hvalid
      obtain ⟨found, hfound, h⟩ := exists_of_bind_eq_ok h
      obtain ⟨_, hcheck, h⟩ := exists_of_bind_eq_ok h
      cases h
      cases hfound
      have hmem := Decidable.not_not.1 hvalid
      refine ⟨hindex, hflags, hwidth, hprecision, fun _ => hmem, ?_,
        by simp [RawSpecifier.asksUppercase, hmark], by simp [hmark],
        by simp [RawSpecifier.meantConversion, hmark], hcheck⟩
      simp only [toLower_fixed_iff hmem, RawSpecifier.takesArgument_iff hmark, ite_not]

theorem ofRaw_of_means {raw : RawSpecifier} {index : ArgumentRef} {flags : Flags}
    {specifier : Specifier} (h : raw.Means index flags specifier) : ofRaw raw = .ok specifier := by
  have hfound : ofRaw raw = specifier.check >>= fun _ => .ok specifier := by
    obtain ⟨argument, allFlags, width, precision, dateTime, conversion⟩ := specifier
    obtain ⟨hindex, hflags, hwidth, hprecision, hvalid, hargument, hall, hdate, hconversion, -⟩ := h
    subst hargument hall hdate hconversion
    unfold ofRaw
    rw [hindex, hflags, hwidth, hprecision]
    cases hmark : raw.dateTime with
    | some mark =>
      simp only [RawSpecifier.takesArgument, RawSpecifier.asksUppercase,
        RawSpecifier.meantConversion, hmark, Option.isSome_some, Bool.true_or, if_true, beq_iff_eq]
      rfl
    | none =>
      have hmem := hvalid hmark
      simp only [RawSpecifier.takesArgument_iff hmark, RawSpecifier.asksUppercase,
        RawSpecifier.meantConversion, hmark, hmem, toLower_fixed_iff hmem, not_true, ite_not,
        Option.isSome_none, Bool.false_eq_true, if_false]
      rfl
  rw [hfound, h.check_eq]
  rfl

/-- The flags that are set are those whose symbols are written. -/
theorem has_of_readFlags {flags found : Flags} {symbols : List Char}
    (h : readFlags flags symbols = .ok found) (flag : Flag) :
    found.has flag ↔ flags.has flag ∨ ∃ symbol ∈ symbols, Flag.ofSymbol? symbol = some flag := by
  induction symbols generalizing flags with
  | nil =>
    cases h
    simp
  | cons symbol rest ih =>
    simp only [readFlags] at h
    split at h
    · rename_i hnone
      simp [ih h, hnone]
    · rename_i other hother
      split at h
      · cases h
      · rw [ih h, Flags.has_insert]
        simp only [Bool.or_eq_true, decide_eq_true_eq]
        grind

theorem previous_of_readFlags {flags : Flags} {symbols : List Char}
    (h : readFlags .none symbols = .ok flags) : flags.previous ↔ '<' ∈ symbols := by
  have hsymbol : ∀ symbol, Flag.ofSymbol? symbol = some .previous ↔ symbol = '<' := by
    intro symbol
    constructor
    · intro hfound
      have hbeq := List.find?_some hfound
      exact (beq_iff_eq.1 hbeq).symm
    · rintro rfl
      decide
  show flags.has .previous ↔ _
  rw [has_of_readFlags h]
  simp [hsymbol]

end Specifier

/-! ## Which argument is formatted -/

namespace RawSpecifier

/-- Whether the flag for the previous argument is written. -/
def reusesArgument (raw : RawSpecifier) : Bool :=
  raw.flags.contains '<'

/-- Whether the next argument in order is formatted. -/
def isOrdinary (raw : RawSpecifier) : Bool :=
  raw.takesArgument && !raw.reusesArgument && raw.index.isNone

/-- Which argument the groups ask for. -/
inductive RefersTo (raw : RawSpecifier) : ArgumentRef → Prop where
  | nothing : ¬ raw.takesArgument → RefersTo raw .nothing
  | next : raw.isOrdinary → RefersTo raw .next
  | previous : raw.takesArgument → raw.reusesArgument → RefersTo raw .previous
  | explicit {digits : List Char} {n : Nat} : raw.takesArgument → ¬ raw.reusesArgument →
    raw.index = some digits → Specifier.number? digits = some n → RefersTo raw (.explicit n)

theorem refersTo_of_ofRaw {raw : RawSpecifier} {specifier : Specifier}
    (h : Specifier.ofRaw raw = .ok specifier) : raw.RefersTo specifier.argument := by
  obtain ⟨index, flags, hmeans⟩ := Specifier.means_of_ofRaw h
  have hprevious : flags.previous ↔ raw.reusesArgument := by
    rw [Specifier.previous_of_readFlags hmeans.flags_eq, reusesArgument, List.contains_iff_mem]
  rw [hmeans.argument_eq]
  split
  · rename_i htakes
    split
    · rename_i hreuses
      exact .previous htakes (hprevious.1 hreuses)
    · rename_i hreuses
      rw [hprevious] at hreuses
      have hindex := hmeans.index_eq
      cases hdigits : raw.index with
      | none =>
        rw [hdigits] at hindex
        cases hindex
        exact .next (by simp [isOrdinary, htakes, hreuses, hdigits])
      | some digits =>
        simp only [hdigits, Specifier.readIndex] at hindex
        split at hindex
        · cases hindex
        · rename_i position _ hnumber
          cases hindex
          exact .explicit htakes hreuses hdigits hnumber
        · cases hindex
  · rename_i hfixed
    exact .nothing hfixed

end RawSpecifier

/-! ## Formats that can be read -/

/-- A specifier with the groups that it is written in. -/
structure ReadSpecifier where
  raw : RawSpecifier
  specifier : Specifier
  ofRaw_eq : Specifier.ofRaw raw = .ok specifier

/-- The specifiers of a format, in the order of the text. -/
inductive Reads : List Char → List ReadSpecifier → Prop where
  | nil : Reads [] []
  | plain {c : Char} {rest : List Char} {reads : List ReadSpecifier} : c ≠ '%' →
    Reads rest reads → Reads (c :: rest) reads
  | specifier {text rest : List Char} {reads : List ReadSpecifier} (read : ReadSpecifier) :
    RawSpecifier.scan text = some (read.raw, rest) → Reads rest reads →
      Reads ('%' :: text) (read :: reads)

theorem parse_of_scan_eq_none {text : List Char} (h : RawSpecifier.scan text = none) :
    parse ('%' :: text) = .error (.unknownConversion [text.head?.getD '%']) := by
  rw [parse, if_pos rfl]
  split
  · rfl
  · rename_i hsome
    rw [h] at hsome
    cases hsome

theorem parse_specifier {text rest : List Char} {raw : RawSpecifier}
    (h : RawSpecifier.scan text = some (raw, rest)) :
    parse ('%' :: text) = (do
      let specifier ← Specifier.ofRaw raw
      let specifiers ← parse rest
      return specifier :: specifiers) := by
  rw [parse, if_pos rfl]
  split
  · rename_i hnone
    rw [hnone] at h
    cases h
  · rename_i hsome
    rw [hsome] at h
    cases h
    rfl

theorem parse_of_reads {format : List Char} {reads : List ReadSpecifier} (h : Reads format reads) :
    parse format = .ok (reads.map ReadSpecifier.specifier) := by
  induction h with
  | nil => rw [parse, List.map_nil]
  | plain hc _ ih => rw [parse, if_neg hc, ih]
  | specifier read hscan _ ih =>
    rw [parse_specifier hscan, read.ofRaw_eq, ih]
    rfl

theorem exists_reads_of_parse {format : List Char} {specifiers : List Specifier}
    (h : parse format = .ok specifiers) :
    ∃ reads, Reads format reads ∧ reads.map ReadSpecifier.specifier = specifiers := by
  induction format using parse.induct generalizing specifiers with
  | case1 =>
    rw [parse] at h
    cases h
    exact ⟨[], .nil, rfl⟩
  | case2 text hscan =>
    rw [parse_of_scan_eq_none hscan] at h
    cases h
  | case3 text raw rest hscan ih =>
    rw [parse_specifier hscan] at h
    obtain ⟨specifier, hspecifier, h⟩ := exists_of_bind_eq_ok h
    obtain ⟨others, hothers, h⟩ := exists_of_bind_eq_ok h
    cases h
    obtain ⟨reads, hreads, rfl⟩ := ih hothers
    exact ⟨⟨raw, specifier, hspecifier⟩ :: reads, .specifier _ hscan hreads, rfl⟩
  | case4 c rest hc ih =>
    rw [parse, if_neg hc] at h
    obtain ⟨reads, hreads, heq⟩ := ih h
    exact ⟨reads, .plain hc hreads, heq⟩

/-- A format can be read exactly if it consists of plain text and specifiers. -/
theorem parse_eq_ok_iff {format : List Char} {specifiers : List Specifier} :
    parse format = .ok specifiers ↔
      ∃ reads, Reads format reads ∧ reads.map ReadSpecifier.specifier = specifiers := by
  constructor
  · exact exists_reads_of_parse
  · rintro ⟨reads, hreads, rfl⟩
    exact parse_of_reads hreads

end JvmLint.Format

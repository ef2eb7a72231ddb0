import JvmLint.Proofs.Format.Grammar
import JvmLint.Proofs.Format.Reading

/-!
# Groups as they are written

The scanner looks ahead: for the dollar sign behind an index, for more digits, for the
letter behind a mark. What it cuts a text into has a certain form
(`RawSpecifier.WellFormed`), and groups of that form, put together again, are scanned as
they are, whatever text follows (`scan_written`). Only a mark that was taken for the
conversion, for want of a letter behind it, could be read in another way, and no such
conversion has a meaning (`hasNoLoneMark_of_ofRaw`).
-/
namespace JvmLint.Format

open Grammar Pattern

/-! ## Where a group ends -/

/-- The text does not go on with a character of the class. -/
def Stops (accept : Char → Bool) (text : List Char) : Prop :=
  ∀ c ∈ text.head?, ¬ accept c

section Stops

variable {accept : Char → Bool} {read rest : List Char}

theorem Stops.takeWhile_append (h : Stops accept rest) (hread : ∀ c ∈ read, accept c) :
    (read ++ rest).takeWhile accept = read := by
  rw [List.takeWhile_append_of_pos hread]
  cases rest with
  | nil => simp
  | cons c cs => rw [List.takeWhile_cons_of_neg (h c rfl), List.append_nil]

theorem Stops.dropWhile_append (h : Stops accept rest) (hread : ∀ c ∈ read, accept c) :
    (read ++ rest).dropWhile accept = rest := by
  rw [List.dropWhile_append_of_pos hread]
  cases rest with
  | nil => rfl
  | cons c cs => rw [List.dropWhile_cons_of_neg (h c rfl)]

theorem stops_iff_takeWhile : Stops accept rest ↔ rest.takeWhile accept = [] := by
  cases rest with
  | nil => simp [Stops]
  | cons c cs => by_cases hc : accept c <;> simp [Stops, hc]

/-- Characters of a class end where another character follows. -/
theorem append_cons_inj {read' rest' : List Char} {c : Char} (hread : ∀ d ∈ read, accept d)
    (hread' : ∀ d ∈ read', accept d) (hc : ¬ accept c)
    (h : read ++ c :: rest = read' ++ c :: rest') : read = read' ∧ rest = rest' := by
  have hstops : ∀ behind, Stops accept (c :: behind) := by
    rintro behind _ ⟨⟩
    exact hc
  have htake := congrArg (List.takeWhile accept) h
  have hdrop := congrArg (List.dropWhile accept) h
  rw [(hstops rest).takeWhile_append hread, (hstops rest').takeWhile_append hread'] at htake
  rw [(hstops rest).dropWhile_append hread, (hstops rest').dropWhile_append hread'] at hdrop
  exact ⟨htake, (List.cons.inj hdrop).2⟩

/-- What a pattern can read does not go on with a character that it cannot start with. -/
theorem Pattern.StartsIn.stops {α : Type} {p : Pattern α} {first : Char → Bool}
    (h : p.StartsIn first) {way : α × List Char} (hway : way ∈ p rest)
    (hdisjoint : ∀ c, accept c → ¬ first c) : Stops accept rest := by
  obtain ⟨c, cs, rfl, hc⟩ := h rest way hway
  intro d hd haccept
  obtain rfl : c = d := by simpa using hd
  exact hdisjoint c haccept hc

end Stops

/-! ## The form of the groups -/

/-- At least one digit, and nothing else. -/
def IsNumeral (digits : List Char) : Prop :=
  digits ≠ [] ∧ ∀ c ∈ digits, isDigit c

section Numerals

variable {text rest : List Char} {group : Option (List Char)}

theorem isNumeral_of_mem_indexPart (h : (group, rest) ∈ indexPart text) :
    ∀ digits ∈ group, IsNumeral digits := by
  simp only [indexPart, mem_maybe, mem_map, Prod.exists, mem_seq, mem_run₁] at h
  rcases h with ⟨_, rfl, digits, _, ⟨_, ⟨-, hdigits⟩, -⟩, rfl⟩ | ⟨rfl, -⟩
  · rintro _ ⟨⟩
    exact hdigits
  · intro digits hdigits
    cases hdigits

theorem isNumeral_of_mem_width (h : (group, rest) ∈ maybe (run₁ isDigit) text) :
    ∀ digits ∈ group, IsNumeral digits := by
  simp only [mem_maybe, mem_run₁] at h
  rcases h with ⟨digits, rfl, -, hdigits⟩ | ⟨rfl, -⟩
  · rintro _ ⟨⟩
    exact hdigits
  · intro digits hdigits
    cases hdigits

theorem isNumeral_of_mem_precisionPart (h : (group, rest) ∈ precisionPart text) :
    ∀ digits ∈ group, IsNumeral digits := by
  simp only [precisionPart, mem_maybe, mem_map, Prod.exists, mem_seq, mem_run₁] at h
  rcases h with ⟨_, rfl, _, digits, ⟨_, -, -, hdigits⟩, rfl⟩ | ⟨rfl, -⟩
  · rintro _ ⟨⟩
    exact hdigits
  · intro digits hdigits
    cases hdigits

end Numerals

namespace RawSpecifier

/-- Groups of the form that the scanner cuts. A width does not start with a zero, which
would be a flag. -/
structure WellFormed (raw : RawSpecifier) : Prop where
  index : ∀ digits ∈ raw.index, IsNumeral digits
  flags : ∀ c ∈ raw.flags, isFlag c
  width : ∀ digits ∈ raw.width, IsNumeral digits ∧ Stops isFlag digits
  precision : ∀ digits ∈ raw.precision, IsNumeral digits
  dateTime : ∀ mark ∈ raw.dateTime, isMark mark
  conversion : isConversion raw.conversion

variable {raw : RawSpecifier} {text rest : List Char}

theorem mem_of_scan (h : scan text = some (raw, rest)) : (raw, rest) ∈ specifierPattern text :=
  List.mem_of_head? ((scan_eq_head? text).symm.trans h)

theorem eq_written_of_scan (h : scan text = some (raw, rest)) : text = raw.written ++ rest :=
  eq_written_of_mem (mem_of_scan h)

theorem stops_width_of_scan (h : scan text = some (raw, rest)) :
    ∀ digits ∈ raw.width, Stops isFlag digits := by
  rintro digits hwidth c hc hflag
  obtain ⟨cs, rfl⟩ : ∃ cs, digits = c :: cs := List.head?_eq_some_iff.1 hc
  have hflags := takeWhile_isFlag_of_scan h
  have hraw : ∀ c ∈ raw.flags, isFlag c := by
    rw [← hflags]
    exact List.all_eq_true.1 List.all_takeWhile
  -- the run of flags would go on with the first digit of the width
  rw [eq_written_of_scan h, written, Option.mem_def.1 hwidth] at hflags
  simp only [List.append_assoc, List.drop_left, Option.getD_some, List.cons_append,
    List.takeWhile_append_of_pos hraw, List.takeWhile_cons_of_pos hflag] at hflags
  simp at hflags

theorem wellFormed_of_scan (h : scan text = some (raw, rest)) : raw.WellFormed := by
  have hmem := mem_of_scan h
  have hstops := stops_width_of_scan h
  simp only [specifierPattern, fromFlags, fromWidth, fromPrecision, mem_map, mem_seq, mem_run,
    Prod.exists] at hmem
  obtain ⟨index, flags, width, precision, mark, conversion,
    ⟨_, hindex, _, ⟨-, hflags⟩, _, hwidth, _, hprecision, hmark⟩, rfl⟩ := hmem
  obtain ⟨-, hmark, hconversion⟩ := eq_of_mem_fromMark hmark
  exact {
    index := isNumeral_of_mem_indexPart hindex
    flags := hflags
    width := fun digits hdigits =>
      ⟨isNumeral_of_mem_width hwidth digits hdigits, hstops digits hdigits⟩
    precision := isNumeral_of_mem_precisionPart hprecision
    dateTime := hmark
    conversion := hconversion }

/-! ## Scanning again -/

/-- The conversion is no mark that stands alone. -/
def HasNoLoneMark (raw : RawSpecifier) : Prop :=
  raw.dateTime = none → ¬ isMark raw.conversion

/-- The groups from the mark on. -/
def markText (raw : RawSpecifier) : List Char := raw.dateTime.toList ++ [raw.conversion]

/-- The groups from the precision on. -/
def precisionText (raw : RawSpecifier) : List Char :=
  (raw.precision.map ('.' :: ·)).getD [] ++ raw.markText

/-- The groups from the width on. -/
def widthText (raw : RawSpecifier) : List Char := raw.width.getD [] ++ raw.precisionText

theorem written_eq (raw : RawSpecifier) :
    raw.written = raw.indexText ++ (raw.flags ++ raw.widthText) := by
  simp [written, widthText, precisionText, markText]

theorem scanIndex_numeral {digits : List Char} (h : IsNumeral digits) (rest : List Char) :
    scanIndex (digits ++ '$' :: rest) = (some digits, rest) := by
  have hstops : Stops isDigit ('$' :: rest) := by
    rintro c ⟨⟩
    decide
  have htake := hstops.takeWhile_append h.2
  have hdrop := hstops.dropWhile_append h.2
  unfold scanIndex
  rw [← isDigit_eq]
  split
  · rename_i hnil
    exact absurd (htake.symm.trans hnil) h.1
  · rename_i behind hdollar _
    rw [hdrop] at hdollar
    cases hdollar
    rw [htake]
  · rename_i hdollar
    exact absurd hdrop (hdollar rest)

namespace WellFormed

variable (h : raw.WellFormed)
include h

theorem mem_fromMark (rest : List Char) :
    ((raw.dateTime, raw.conversion), rest) ∈ fromMark (raw.markText ++ rest) := by
  simp only [fromMark, markText, mem_seq, mem_maybe, mem_one]
  cases hmark : raw.dateTime with
  | none => exact ⟨_, Or.inr ⟨rfl, rfl⟩, rfl, h.conversion⟩
  | some mark => exact ⟨_, Or.inl ⟨mark, rfl, rfl, h.dateTime mark hmark⟩, rfl, h.conversion⟩

theorem mem_fromPrecision (rest : List Char) :
    ((raw.precision, raw.dateTime, raw.conversion), rest) ∈
      fromPrecision (raw.precisionText ++ rest) := by
  refine mem_seq.2 ⟨raw.markText ++ rest, ?_, h.mem_fromMark rest⟩
  simp only [precisionPart, precisionText, mem_maybe, mem_map, Prod.exists, mem_seq, mem_run₁,
    mem_one]
  cases hprecision : raw.precision with
  | none => exact Or.inr ⟨rfl, rfl⟩
  | some digits =>
    have hdigits : IsNumeral digits := h.precision digits hprecision
    exact Or.inl ⟨digits, rfl, '.', digits, ⟨_, ⟨rfl, rfl⟩, by simp, hdigits⟩, rfl⟩

theorem mem_fromFlags (rest : List Char) :
    ((raw.flags, raw.width, raw.precision, raw.dateTime, raw.conversion), rest) ∈
      fromFlags (raw.flags ++ raw.widthText ++ rest) := by
  refine mem_seq.2 ⟨raw.widthText ++ rest, by simpa using h.flags, ?_⟩
  refine mem_seq.2 ⟨raw.precisionText ++ rest, ?_, h.mem_fromPrecision rest⟩
  rw [mem_maybe]
  cases hwidth : raw.width with
  | none => exact Or.inr ⟨rfl, by simp [widthText, hwidth]⟩
  | some digits =>
    have hdigits : IsNumeral digits := (h.width digits hwidth).1
    exact Or.inl ⟨digits, rfl, mem_run₁.2 ⟨by simp [widthText, hwidth], hdigits⟩⟩

theorem scanDateTime_eq (hlone : raw.HasNoLoneMark) (rest : List Char) :
    scanDateTime (raw.markText ++ rest) = (raw.dateTime, raw.conversion :: rest) := by
  have hconversion := h.conversion
  rw [isConversion_eq] at hconversion
  unfold markText
  cases hmark : raw.dateTime with
  | some mark =>
    have hletter := isMark_iff.1 (h.dateTime mark hmark)
    simp [scanDateTime, hletter, hconversion]
  | none =>
    have hletter : ¬ (raw.conversion = 't' ∨ raw.conversion = 'T') :=
      isMark_iff.not.1 (hlone hmark)
    cases rest with
    | nil => simp [scanDateTime]
    | cons c cs => simp [scanDateTime, not_or.1 hletter]

theorem scanPrecision_eq (rest : List Char) :
    scanPrecision (raw.precisionText ++ rest) = (raw.precision, raw.markText ++ rest) := by
  have hmem := h.mem_fromMark rest
  have hstops : Stops isDigit (raw.markText ++ rest) :=
    startsIn_fromMark.stops hmem fun _ => not_isConversion_of_isDigit
  unfold precisionText
  cases hprecision : raw.precision with
  | some digits =>
    obtain ⟨hne, hdigits⟩ := h.precision digits hprecision
    simp [scanPrecision, ← isDigit_eq, hstops.takeWhile_append hdigits,
      hstops.dropWhile_append hdigits]
  | none =>
    obtain ⟨c, cs, heq, hc⟩ := startsIn_fromMark _ _ hmem
    have hpoint : c ≠ '.' := by
      rintro rfl
      exact absurd hc (by decide)
    simp [scanPrecision, heq, hpoint]

theorem scanWidth_eq (rest : List Char) :
    scanWidth (raw.widthText ++ rest) = (raw.width, raw.precisionText ++ rest) := by
  have hstops : Stops isDigit (raw.precisionText ++ rest) :=
    startsIn_fromPrecision.stops (h.mem_fromPrecision rest) fun _ =>
      not_isPointOrConversion_of_isDigit
  unfold widthText
  cases hwidth : raw.width with
  | some digits =>
    obtain ⟨hne, hdigits⟩ := (h.width digits hwidth).1
    simp [scanWidth, ← isDigit_eq, hstops.takeWhile_append hdigits, hstops.dropWhile_append hdigits]
  | none => simp [scanWidth, ← isDigit_eq, stops_iff_takeWhile.1 hstops]

theorem stops_widthText (rest : List Char) : Stops isFlag (raw.widthText ++ rest) := by
  unfold widthText
  cases hwidth : raw.width with
  | some digits =>
    obtain ⟨⟨hne, -⟩, hstops⟩ := h.width digits hwidth
    obtain ⟨c, cs, rfl⟩ := List.exists_cons_of_ne_nil hne
    exact hstops
  | none =>
    exact startsIn_fromPrecision.stops (h.mem_fromPrecision rest) fun _ =>
      not_isPointOrConversion_of_isFlag

/-- Without an index, the digits in front are not followed by a dollar sign. -/
theorem scanIndex_none (rest : List Char) :
    scanIndex (raw.flags ++ raw.widthText ++ rest) =
      (none, raw.flags ++ raw.widthText ++ rest) := by
  have hmem := h.mem_fromFlags rest
  generalize raw.flags ++ raw.widthText ++ rest = text at hmem ⊢
  unfold scanIndex
  rw [← isDigit_eq]
  split
  · rfl
  · rename_i behind hdollar _
    have hnil : fromFlags (text.takeWhile isDigit ++ '$' :: behind) = [] :=
      fromFlags_of_index (List.all_eq_true.1 List.all_takeWhile)
    rw [← hdollar, List.takeWhile_append_dropWhile] at hnil
    rw [hnil] at hmem
    cases hmem
  · rfl

theorem scanIndex_eq (rest : List Char) :
    scanIndex (raw.written ++ rest) = (raw.index, raw.flags ++ raw.widthText ++ rest) := by
  rw [written_eq, indexText, List.append_assoc]
  cases hindex : raw.index with
  | none => exact h.scanIndex_none rest
  | some digits =>
    simp only [Option.map_some, Option.getD_some, List.append_assoc, List.singleton_append]
    exact scanIndex_numeral (h.index digits hindex) _

end WellFormed

theorem scan_written (h : raw.WellFormed) (hlone : raw.HasNoLoneMark) (rest : List Char) :
    scan (raw.written ++ rest) = some (raw, rest) := by
  have hstops := h.stops_widthText rest
  have hconversion := h.conversion
  rw [isConversion_eq] at hconversion
  rw [scan, h.scanIndex_eq, List.append_assoc, ← isFlag_eq]
  simp [hstops.takeWhile_append h.flags, hstops.dropWhile_append h.flags, h.scanWidth_eq,
    h.scanPrecision_eq, h.scanDateTime_eq hlone, hconversion]

theorem hasNoLoneMark_of_ofRaw {specifier : Specifier} (h : Specifier.ofRaw raw = .ok specifier) :
    raw.HasNoLoneMark := by
  obtain ⟨index, flags, hmeans⟩ := Specifier.means_of_ofRaw h
  have hall : validConversions.all fun c => !isMark c := by decide
  intro hmark
  simpa using List.all_eq_true.1 hall _ (hmeans.valid hmark)

/-- What follows a specifier that has a meaning does not change it. -/
theorem scan_append {specifier : Specifier} (hscan : scan text = some (raw, rest))
    (hraw : Specifier.ofRaw raw = .ok specifier) (more : List Char) :
    scan (text ++ more) = some (raw, rest ++ more) := by
  rw [eq_written_of_scan hscan, List.append_assoc]
  exact scan_written (wellFormed_of_scan hscan) (hasNoLoneMark_of_ofRaw hraw) _

end RawSpecifier

end JvmLint.Format

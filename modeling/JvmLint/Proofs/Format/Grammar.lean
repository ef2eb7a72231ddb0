import JvmLint.Format.Specifier
import JvmLint.Proofs.Format.Pattern

/-!
# The grammar of specifiers

What may stand behind a `%` is a regular language (`specifierLanguage`), and the groups
of a specifier are those of its pattern (`specifierPattern`), matched with
backtracking. `RawSpecifier.scan` never takes back a choice. It need not: what it
chooses is either forced or leads at least as far as anything else would.

The main result is `scan_eq_preferred`.
-/
namespace JvmLint.Format

open scoped Computability

open Pattern

/-! ## The grammar -/

namespace Grammar

def isBetween (first last c : Char) : Bool := first ≤ c && c ≤ last

def isDigit : Char → Bool := isBetween '0' '9'

def isFlag (c : Char) : Bool := ['-', '#', '+', ' ', '0', ',', '(', '<'].contains c

def isMark (c : Char) : Bool := c == 't' || c == 'T'

def isConversion (c : Char) : Bool := isBetween 'a' 'z' c || isBetween 'A' 'Z' c || c == '%'

theorem isDigit_eq : isDigit = Char.isDigit := rfl

theorem isFlag_eq : isFlag = RawSpecifier.isFlagSymbol := by
  funext c
  rw [RawSpecifier.isFlagSymbol, Flag.ofSymbol?, List.isSome_find?]
  simp only [isFlag, Flag.written, Flag.symbol, List.contains_cons, List.contains_nil,
    List.any_cons, List.any_nil, BEq.comm (b := c)]

theorem isConversion_eq : isConversion = RawSpecifier.isConversionSymbol := by
  funext c
  have hupper : c.isUpper = isBetween 'A' 'Z' c := Bool.decide_and ..
  have halpha : c.isAlpha = (c.isUpper || c.isLower) := rfl
  rw [RawSpecifier.isConversionSymbol, halpha, hupper, Bool.or_comm (isBetween 'A' 'Z' c)]
  rfl

/-- `([0-9]+\$)?` -/
def indexPart : Pattern (Option (List Char)) :=
  maybe (((run₁ isDigit).seq (one (· == '$'))).map Prod.fst)

/-- `(\.[0-9]+)?` -/
def precisionPart : Pattern (Option (List Char)) :=
  maybe (((one (· == '.')).seq (run₁ isDigit)).map Prod.snd)

/-- `[tT]?[a-zA-Z%]` -/
def fromMark : Pattern (Option Char × Char) := (maybe (one isMark)).seq (one isConversion)

/-- A specifier from its precision on. -/
def fromPrecision : Pattern (Option (List Char) × Option Char × Char) :=
  precisionPart.seq fromMark

/-- A specifier from its width, `[0-9]*`, on. -/
def fromWidth : Pattern (Option (List Char) × Option (List Char) × Option Char × Char) :=
  (maybe (run₁ isDigit)).seq fromPrecision

/-- A specifier from its flags, `[-#+ 0,(<]*`, on. -/
def fromFlags :
    Pattern (List Char × Option (List Char) × Option (List Char) × Option Char × Char) :=
  (run isFlag).seq fromWidth

/-- All of a specifier behind its `%`. -/
def specifierPattern : Pattern RawSpecifier :=
  (indexPart.seq fromFlags).map fun (index, flags, width, precision, dateTime, conversion) =>
    ⟨index, flags, width, precision, dateTime, conversion⟩

/-- `([0-9]+\$)?[-#+ 0,(<]*[0-9]*(\.[0-9]+)?[tT]?[a-zA-Z%]` -/
def specifierLanguage : Language Char :=
  (1 + oneOf isDigit * (oneOf isDigit)∗ * oneOf (· == '$')) * (oneOf isFlag)∗ *
    (oneOf isDigit)∗ * (1 + oneOf (· == '.') * (oneOf isDigit * (oneOf isDigit)∗)) *
    (1 + oneOf isMark) * oneOf isConversion

theorem recognizes_specifierPattern : specifierPattern.Recognizes specifierLanguage := by
  have hmark := (recognizes_one isMark).maybe.seq (recognizes_one isConversion)
  have hprecision :=
    (((recognizes_one (· == '.')).seq (recognizes_run₁ isDigit)).map Prod.snd).maybe.seq hmark
  have hwidth := (recognizes_run₁ isDigit).maybe.seq hprecision
  have hflags := (recognizes_run isFlag).seq hwidth
  have hindex :=
    (((recognizes_run₁ isDigit).seq (recognizes_one (· == '$'))).map Prod.fst).maybe.seq hflags
  rw [Language.one_add_self_mul_kstar_eq_kstar] at hindex
  simp only [specifierLanguage, mul_assoc] at hindex ⊢
  exact hindex.map _

end Grammar

/-! ## What is read -/

namespace RawSpecifier

variable (raw : RawSpecifier)

/-- The index with its dollar sign. -/
def indexText : List Char := (raw.index.map (· ++ ['$'])).getD []

/-- The groups put together again. -/
def written : List Char :=
  raw.indexText ++ raw.flags ++ raw.width.getD [] ++ (raw.precision.map ('.' :: ·)).getD [] ++
    raw.dateTime.toList ++ [raw.conversion]

end RawSpecifier

namespace Grammar

variable {text rest : List Char}

theorem eq_of_mem_indexPart {index : Option (List Char)} (h : (index, rest) ∈ indexPart text) :
    text = (index.map (· ++ ['$'])).getD [] ++ rest := by
  simp only [indexPart, mem_maybe, mem_map, Prod.exists, mem_seq, mem_run₁, mem_one,
    beq_iff_eq] at h
  rcases h with ⟨_, rfl, digits, _, ⟨_, ⟨rfl, -⟩, rfl, rfl⟩, rfl⟩ | ⟨rfl, rfl⟩
  · simp
  · rfl

theorem eq_of_mem_width {width : Option (List Char)}
    (h : (width, rest) ∈ maybe (run₁ isDigit) text) :
    text = width.getD [] ++ rest ∧ ∀ c ∈ width.getD [], isDigit c := by
  simp only [mem_maybe, mem_run₁] at h
  rcases h with ⟨digits, rfl, rfl, -, hdigits⟩ | ⟨rfl, rfl⟩
  · exact ⟨rfl, hdigits⟩
  · exact ⟨rfl, by simp⟩

theorem eq_of_mem_precisionPart {precision : Option (List Char)}
    (h : (precision, rest) ∈ precisionPart text) :
    text = (precision.map ('.' :: ·)).getD [] ++ rest := by
  simp only [precisionPart, mem_maybe, mem_map, Prod.exists, mem_seq, mem_run₁, mem_one,
    beq_iff_eq] at h
  rcases h with ⟨_, rfl, _, digits, ⟨_, ⟨rfl, rfl⟩, rfl, -⟩, rfl⟩ | ⟨rfl, rfl⟩
  · rfl
  · rfl

theorem eq_of_mem_fromMark {mark : Option Char} {conversion : Char}
    (h : ((mark, conversion), rest) ∈ fromMark text) :
    text = mark.toList ++ conversion :: rest ∧ (∀ c ∈ mark, isMark c) ∧ isConversion conversion := by
  simp only [fromMark, mem_seq, mem_maybe, mem_one] at h
  obtain ⟨_, ⟨c, rfl, rfl, hc⟩ | ⟨rfl, rfl⟩, rfl, hconversion⟩ := h
  · exact ⟨rfl, by simpa using hc, hconversion⟩
  · exact ⟨rfl, by simp, hconversion⟩

theorem eq_written_of_mem {raw : RawSpecifier} (h : (raw, rest) ∈ specifierPattern text) :
    text = raw.written ++ rest := by
  simp only [specifierPattern, fromFlags, fromWidth, fromPrecision, mem_map, mem_seq, mem_run,
    Prod.exists] at h
  obtain ⟨index, flags, width, precision, mark, conversion,
    ⟨_, hindex, _, ⟨rfl, -⟩, _, hwidth, _, hprecision, hmark⟩, rfl⟩ := h
  rw [eq_of_mem_indexPart hindex, (eq_of_mem_width hwidth).1, eq_of_mem_precisionPart hprecision,
    (eq_of_mem_fromMark hmark).1]
  simp [RawSpecifier.written, RawSpecifier.indexText]

theorem isMark_iff {c : Char} : isMark c ↔ c = 't' ∨ c = 'T' := by
  simp [isMark]

/-- A mark is a letter, as a conversion may be. -/
theorem isConversion_of_isMark {c : Char} (h : isMark c) : isConversion c := by
  rcases isMark_iff.1 h with rfl | rfl <;> decide

theorem startsIn_fromMark : fromMark.StartsIn isConversion := by
  rintro text ⟨⟨mark, conversion⟩, rest⟩ h
  obtain ⟨rfl, hmark, hconversion⟩ := eq_of_mem_fromMark h
  cases mark with
  | none => exact ⟨conversion, rest, rfl, hconversion⟩
  | some c => exact ⟨c, conversion :: rest, rfl, isConversion_of_isMark (hmark c rfl)⟩

/-- What may stand behind the width. -/
def isPointOrConversion (c : Char) : Bool := c == '.' || isConversion c

theorem startsIn_fromPrecision : fromPrecision.StartsIn isPointOrConversion := by
  rintro text ⟨⟨precision, conversion⟩, rest⟩ h
  obtain ⟨middle, hprecision, hmark⟩ := mem_seq.1 h
  obtain rfl := eq_of_mem_precisionPart hprecision
  cases precision with
  | none =>
    obtain ⟨c, cs, rfl, hc⟩ := startsIn_fromMark _ _ hmark
    exact ⟨c, cs, rfl, by simp [isPointOrConversion, hc]⟩
  | some digits => exact ⟨'.', digits ++ middle, rfl, rfl⟩

/-! ## The choices of the scanner -/

theorem not_isPointOrConversion_of_isDigit {c : Char} (h : isDigit c) :
    ¬ isPointOrConversion c := by
  simp only [isDigit, isPointOrConversion, isConversion, isBetween, Bool.and_eq_true,
    Bool.or_eq_true, decide_eq_true_eq, beq_iff_eq, Char.le_def, UInt32.le_iff_toNat_le] at h ⊢
  rintro (rfl | (hc | hc) | rfl)
  · simp at h
  · simp at h hc
    omega
  · simp at h hc
    omega
  · simp at h

theorem not_isPointOrConversion_of_isFlag {c : Char} (h : isFlag c) :
    ¬ isPointOrConversion c := by
  simp only [isFlag, List.contains_iff_mem, List.mem_cons, List.not_mem_nil, or_false] at h
  rcases h with rfl | rfl | rfl | rfl | rfl | rfl | rfl | rfl <;> decide

theorem not_isConversion_of_isDigit {c : Char} (h : isDigit c) : ¬ isConversion c := fun hc =>
  not_isPointOrConversion_of_isDigit h (by simp [isPointOrConversion, hc])

/-- One character and then a pattern, which is what is kept. -/
theorem map_snd_seq_one {α : Type} (c : Char) (p : Pattern α) (cs : List Char) :
    ((one (· == c)).seq p).map Prod.snd (c :: cs) = p cs := by
  simp [map, seq, one, Function.comp_def]

theorem commits_scanPrecision (text : List Char) :
    Commits precisionPart fromMark text (RawSpecifier.scanPrecision text) := by
  unfold RawSpecifier.scanPrecision precisionPart
  rw [← isDigit_eq]
  split
  · rename_i rest
    rcases run₁_eq isDigit rest with ⟨hnone, hrun⟩ | ⟨hsome, -, others, hrun, hothers⟩
    · rw [hnone]
      exact commits_maybe_none ((map_snd_seq_one '.' _ rest).trans hrun)
    · split
      · rename_i hnone
        exact absurd hnone hsome
      · refine commits_maybe_some ((map_snd_seq_one '.' _ rest).trans hrun)
          (fun other hother => ?_) (startsIn_fromMark.eq_nil (by decide) rest)
        obtain ⟨c, cs, heq, hc⟩ := hothers other hother
        rw [heq, startsIn_fromMark.eq_nil (not_isConversion_of_isDigit hc)]
  · rename_i hpoint
    refine commits_maybe_none ?_
    rw [List.eq_nil_iff_forall_not_mem]
    rintro ⟨digits, rest⟩ h
    simp only [mem_map, Prod.exists, mem_seq, mem_one, beq_iff_eq] at h
    obtain ⟨_, _, ⟨middle, ⟨rfl, rfl⟩, -⟩, -⟩ := h
    exact hpoint middle rfl

theorem commits_scanWidth (text : List Char) :
    Commits (maybe (run₁ isDigit)) fromPrecision text (RawSpecifier.scanWidth text) := by
  unfold RawSpecifier.scanWidth
  rw [← isDigit_eq]
  rcases run₁_eq isDigit text with ⟨hnone, hrun⟩ | ⟨hsome, ⟨c, cs, rfl, hc⟩, others, hrun, hothers⟩
  · rw [hnone]
    exact commits_maybe_none hrun
  · split
    · rename_i hnone
      exact absurd hnone hsome
    · refine commits_maybe_some hrun (fun other hother => ?_)
        (startsIn_fromPrecision.eq_nil (not_isPointOrConversion_of_isDigit hc) cs)
      obtain ⟨d, ds, heq, hd⟩ := hothers other hother
      rw [heq, startsIn_fromPrecision.eq_nil (not_isPointOrConversion_of_isDigit hd)]

theorem fromMark_cons (c : Char) (cs : List Char) :
    fromMark (c :: cs) =
      (if isMark c then (one isConversion cs).map fun way => ((some c, way.1), way.2) else []) ++
        if isConversion c then [((none, c), cs)] else [] := by
  by_cases hc : isMark c <;> by_cases hd : isConversion c <;>
    simp [fromMark, seq, maybe, map, one, hc, hd]

/-- A mark is read as one only if a conversion follows; else it is the conversion. -/
theorem head?_fromMark (text : List Char) :
    (fromMark text).head? = (one isConversion (RawSpecifier.scanDateTime text).2).head?.map
      fun way => (((RawSpecifier.scanDateTime text).1, way.1), way.2) := by
  unfold RawSpecifier.scanDateTime
  rw [← isConversion_eq]
  split
  · rename_i mark conversion rest
    rw [fromMark_cons]
    simp only [← isMark_iff]
    by_cases hmark : isMark mark
    · have hletter := isConversion_of_isMark hmark
      by_cases hconversion : isConversion conversion <;> simp [one, hmark, hletter, hconversion]
    · by_cases hletter : isConversion mark <;> simp [one, hmark, hletter]
  · rename_i hshort
    cases text with
    | nil => rfl
    | cons c cs =>
      cases cs with
      | cons d ds => exact absurd rfl (hshort c d ds)
      | nil =>
        rw [fromMark_cons]
        by_cases hletter : isConversion c <;> simp [one, hletter]

theorem leads_fromMark (text : List Char) : Leads (fromMark text) (fromMark text) := by
  cases text with
  | nil => exact leads_nil _
  | cons c cs =>
    rw [fromMark_cons]
    cases cs with
    | nil => by_cases hletter : isConversion c <;> simp [Leads, one, hletter]
    | cons d ds =>
      by_cases hmark : isMark c <;> by_cases hletter : isConversion c <;>
        by_cases hconversion : isConversion d <;> simp [Leads, one, hmark, hletter, hconversion]

theorem leads_fromPrecision (text : List Char) : Leads (fromPrecision text) (fromPrecision text) :=
  (commits_scanPrecision text).leads leads_fromMark

theorem leads_fromWidth (text : List Char) : Leads (fromWidth text) (fromWidth text) :=
  (commits_scanWidth text).leads leads_fromPrecision

theorem scanWidth_snd (text : List Char) :
    (RawSpecifier.scanWidth text).2 = text.dropWhile isDigit := by
  unfold RawSpecifier.scanWidth
  rw [← isDigit_eq]
  split
  · rename_i hnone
    have happend := List.takeWhile_append_dropWhile (p := isDigit) (l := text)
    rw [hnone, List.nil_append] at happend
    exact happend.symm
  · rfl

/-- Zeros that could be part of the width may as well be flags. -/
theorem leads_fromWidth_append {flags : List Char} (hflags : ∀ c ∈ flags, isFlag c) :
    Leads (fromWidth text) (fromWidth (flags ++ text)) := by
  rintro ⟨⟨width, groups⟩, rest⟩ hway
  obtain ⟨middle, hwidth, hprecision⟩ := mem_seq.1 hway
  obtain ⟨heq, hdigits⟩ := eq_of_mem_width hwidth
  obtain ⟨c, cs, rfl, hc⟩ := startsIn_fromPrecision _ _ hprecision
  -- no flag can stand behind the width, so the width reaches behind the flags
  obtain ⟨digits, hbehind, rfl⟩ : ∃ digits, width.getD [] = flags ++ digits ∧
      text = digits ++ c :: cs := by
    rcases List.append_eq_append_iff.1 heq with ⟨digits, hbehind, htext⟩ | ⟨more, hmore, htext⟩
    · exact ⟨digits, hbehind, htext⟩
    · cases more with
      | nil => exact ⟨[], by simpa using hmore.symm, by simpa using htext.symm⟩
      | cons d ds =>
        obtain ⟨rfl, -⟩ := List.cons.inj htext
        exact absurd hc (not_isPointOrConversion_of_isFlag (hflags c (by simp [hmore])))
  rw [hbehind] at hdigits
  have hnext : (RawSpecifier.scanWidth (digits ++ c :: cs)).2 = c :: cs := by
    rw [scanWidth_snd, List.dropWhile_append_of_pos fun d hd => hdigits d (by simp [hd]),
      List.dropWhile_cons_of_neg fun hdigit => not_isPointOrConversion_of_isDigit hdigit hc]
  obtain ⟨next, hhead, hle⟩ := leads_fromPrecision (c :: cs) _ hprecision
  have hfirst := (commits_scanWidth (digits ++ c :: cs)).head?
  rw [hnext, hhead] at hfirst
  exact ⟨_, hfirst, hle⟩

theorem commits_flags (text : List Char) :
    Commits (run isFlag) fromWidth text (text.takeWhile isFlag, text.dropWhile isFlag) := by
  obtain ⟨others, hrun, hothers⟩ := run_eq isFlag text
  refine ⟨others, hrun, fun other hother => ?_⟩
  obtain ⟨c, cs, heq, hall⟩ := hothers other hother
  rw [heq]
  exact leads_fromWidth_append hall

theorem leads_fromFlags (text : List Char) : Leads (fromFlags text) (fromFlags text) :=
  (commits_flags text).leads leads_fromWidth

/-- The digits of an index cannot be read as flags and width, because of the dollar sign
that follows. -/
theorem fromFlags_of_index {digits : List Char} (hdigits : ∀ c ∈ digits, isDigit c) :
    fromFlags (digits ++ '$' :: rest) = [] := by
  rw [List.eq_nil_iff_forall_not_mem]
  rintro ⟨⟨flags, width, groups⟩, _⟩ hway
  simp only [fromFlags, fromWidth, mem_seq, mem_run] at hway
  obtain ⟨_, ⟨heq, hflags⟩, middle, hwidth, hprecision⟩ := hway
  obtain ⟨rfl, hdigits'⟩ := eq_of_mem_width hwidth
  obtain ⟨c, cs, rfl, hc⟩ := startsIn_fromPrecision _ _ hprecision
  rw [← List.append_assoc] at heq
  rcases List.append_eq_append_iff.1 heq with ⟨more, hmore, htext⟩ | ⟨more, hmore, htext⟩
  · cases more with
    | nil =>
      obtain ⟨rfl, -⟩ := List.cons.inj htext
      exact absurd hc (by decide)
    | cons d ds =>
      obtain ⟨rfl, -⟩ := List.cons.inj htext
      have hd : '$' ∈ flags ++ width.getD [] := by simp [hmore]
      rcases List.mem_append.1 hd with hd | hd
      · exact absurd (hflags _ hd) (by decide)
      · exact absurd (hdigits' _ hd) (by decide)
  · cases more with
    | nil =>
      obtain ⟨rfl, -⟩ := List.cons.inj htext
      exact absurd hc (by decide)
    | cons d ds =>
      obtain ⟨rfl, -⟩ := List.cons.inj htext
      exact not_isPointOrConversion_of_isDigit (hdigits c (by simp [hmore])) hc

/-- The only way to read an index is to read all the digits. -/
theorem map_fst_seq_one (text : List Char) :
    ((run₁ isDigit).seq (one (· == '$'))).map Prod.fst text =
      if text.takeWhile isDigit = [] then []
      else (one (· == '$') (text.dropWhile isDigit)).map fun way =>
        (text.takeWhile isDigit, way.2) := by
  rcases run₁_eq isDigit text with ⟨hnone, hrun⟩ | ⟨hsome, -, others, hrun, hothers⟩
  · simp [map, seq, hnone, hrun]
  · have hnil : ∀ other ∈ others, one (· == '$') other.2 = [] := by
      intro other hother
      obtain ⟨c, cs, heq, hc⟩ := hothers other hother
      have hne : c ≠ '$' := by
        rintro rfl
        exact absurd hc (by decide)
      simp [heq, one, hne]
    have hothers : others.flatMap (fun way => (one (· == '$') way.2).map fun next =>
        ((way.1, next.1), next.2)) = [] :=
      List.flatMap_eq_nil_iff.2 fun other hother => by rw [hnil other hother, List.map_nil]
    simp [map, seq, hsome, hrun, hothers, Function.comp_def]

theorem commits_scanIndex (text : List Char) :
    Commits indexPart fromFlags text (RawSpecifier.scanIndex text) := by
  unfold RawSpecifier.scanIndex indexPart
  rw [← isDigit_eq]
  split
  · rename_i hnone
    exact commits_maybe_none (by rw [map_fst_seq_one, if_pos hnone])
  · rename_i rest hdollar hsome
    have hindex : ((run₁ isDigit).seq (one (· == '$'))).map Prod.fst text =
        [(text.takeWhile isDigit, rest)] := by
      rw [map_fst_seq_one, if_neg hsome, hdollar]
      rfl
    refine commits_maybe_some hindex (by simp) ?_
    rw [← List.takeWhile_append_dropWhile (p := isDigit) (l := text), hdollar]
    exact fromFlags_of_index (List.all_eq_true.1 List.all_takeWhile)
  · rename_i hsome hdollar
    refine commits_maybe_none ?_
    have hnil : one (· == '$') (text.dropWhile isDigit) = [] := by
      rw [List.eq_nil_iff_forall_not_mem]
      rintro ⟨c, rest⟩ hc
      simp only [mem_one, beq_iff_eq] at hc
      obtain ⟨heq, rfl⟩ := hc
      exact hdollar rest heq
    rw [map_fst_seq_one, if_neg hsome, hnil, List.map_nil]

/-! ## The scanner -/

/-- The scanner finds the preferred match. -/
theorem scan_eq_head? (text : List Char) :
    RawSpecifier.scan text = (specifierPattern text).head? := by
  have hflags : ∀ text, (fromFlags text).head? = _ := fun text => (commits_flags text).head?
  have hwidth : ∀ text, (fromWidth text).head? = _ := fun text => (commits_scanWidth text).head?
  have hprecision : ∀ text, (fromPrecision text).head? = _ := fun text =>
    (commits_scanPrecision text).head?
  simp only [specifierPattern, head?_map, (commits_scanIndex text).head?, hflags, hwidth,
    hprecision, head?_fromMark, Option.map_map, Function.comp_def, isFlag_eq, isConversion_eq,
    RawSpecifier.scan]
  split
  · rename_i conversion rest heq
    by_cases hc : RawSpecifier.isConversionSymbol conversion <;> simp [heq, one, hc]
  · rename_i heq
    simp [heq, one]

theorem leads_specifierPattern (text : List Char) :
    Leads (specifierPattern text) (specifierPattern text) :=
  ((commits_scanIndex text).leads leads_fromFlags).map _

/-- The flags are all the flag symbols behind the index. -/
theorem takeWhile_isFlag_of_scan {raw : RawSpecifier}
    (h : RawSpecifier.scan text = some (raw, rest)) :
    (text.drop raw.indexText.length).takeWhile isFlag = raw.flags := by
  have hindex : text =
      ((RawSpecifier.scanIndex text).1.map (· ++ ['$'])).getD [] ++
        (RawSpecifier.scanIndex text).2 := by
    obtain ⟨others, hpart, -⟩ := commits_scanIndex text
    exact eq_of_mem_indexPart (by simp [hpart])
  simp only [RawSpecifier.scan] at h
  split at h
  · split at h
    · cases h
      rw [RawSpecifier.indexText, isFlag_eq, (congrArg (List.drop _) hindex).trans List.drop_left]
    · cases h
  · cases h

end Grammar

open Grammar

/-- **The scanner.** What stands behind a `%` is scanned as a specifier exactly if one
of its prefixes is in the language of specifiers. The groups are then those of the
match that backtracking prefers, the flags are all the flag symbols behind the index,
put together again the groups are the text up to the rest, and no longer prefix is
in the language. -/
theorem scan_eq_preferred (text : List Char) :
    RawSpecifier.scan text = (specifierPattern text).head? ∧
    ((RawSpecifier.scan text).isSome ↔ ∃ read ∈ specifierLanguage, read <+: text) ∧
    ∀ raw rest, RawSpecifier.scan text = some (raw, rest) →
      text = raw.written ++ rest ∧ raw.written ∈ specifierLanguage ∧
      (∀ read ∈ specifierLanguage, read <+: text → read.length ≤ raw.written.length) ∧
      (text.drop raw.indexText.length).takeWhile isFlag = raw.flags := by
  have hmem : ∀ {raw rest}, RawSpecifier.scan text = some (raw, rest) →
      (raw, rest) ∈ specifierPattern text := fun h =>
    List.mem_of_head? ((scan_eq_head? text).symm.trans h)
  -- a prefix in the language is a way to match, so the scanner finds one that leads as far
  have hfound : ∀ read ∈ specifierLanguage, ∀ rest, text = read ++ rest →
      ∃ way, RawSpecifier.scan text = some way ∧ way.2.length ≤ rest.length := by
    intro read hread rest htext
    obtain ⟨raw, hraw⟩ := (recognizes_specifierPattern text rest).2 ⟨read, hread, htext⟩
    rw [scan_eq_head?]
    exact leads_specifierPattern text _ hraw
  refine ⟨scan_eq_head? text, ?_, ?_⟩
  · rw [Option.isSome_iff_exists]
    constructor
    · rintro ⟨⟨raw, rest⟩, h⟩
      obtain ⟨read, hread, htext⟩ := (recognizes_specifierPattern text rest).1 ⟨raw, hmem h⟩
      exact ⟨read, hread, rest, htext.symm⟩
    · rintro ⟨read, hread, rest, htext⟩
      obtain ⟨way, hway, -⟩ := hfound read hread rest htext.symm
      exact ⟨way, hway⟩
  · intro raw rest h
    have hwritten := eq_written_of_mem (hmem h)
    refine ⟨hwritten, ?_, ?_, takeWhile_isFlag_of_scan h⟩
    · obtain ⟨read, hread, htext⟩ := (recognizes_specifierPattern text rest).1 ⟨raw, hmem h⟩
      rwa [List.append_cancel_right (hwritten.symm.trans htext)]
    · rintro read hread ⟨behind, htext⟩
      obtain ⟨way, hway, hle⟩ := hfound read hread behind htext.symm
      obtain rfl : (raw, rest) = way := Option.some.inj (h.symm.trans hway)
      have hlength := congrArg List.length (htext.trans hwritten)
      simp only [List.length_append] at hlength hle
      omega

/-- Zeros are flags as long as they can be, and the letter behind `T` decides that it is
a mark. -/
theorem scan_eq_preferred_dateTime :
    RawSpecifier.scan "12$0-05.30TYx".toList =
        some (⟨some "12".toList, "0-0".toList, some "5".toList, some "30".toList, some 'T', 'Y'⟩,
          "x".toList) ∧
      "12$0-05.30TY".toList ∈ specifierLanguage ∧
      ∀ read ∈ specifierLanguage, read <+: "12$0-05.30TYx".toList → read.length ≤ 12 := by
  have h : RawSpecifier.scan "12$0-05.30TYx".toList =
      some (⟨some "12".toList, "0-0".toList, some "5".toList, some "30".toList, some 'T', 'Y'⟩,
        "x".toList) := by decide
  obtain ⟨-, hmem, hlongest, -⟩ := (scan_eq_preferred _).2.2 _ _ h
  exact ⟨h, hmem, hlongest⟩

end JvmLint.Format

import JvmLint.Proofs.Format.Written

/-!
# Formats behind one another

A format that can be read is read the same way when more text follows it
(`parse_append`): the specifier at its end has a meaning, so that its groups are settled,
and the run through the text comes to exactly where the other format starts.

`Reader` is a run through a format, round by round. Every round leaves less text
(`Reader.length_step`), so the run ends after at most as many rounds as there are
characters (`Reader.after_eq_finish`).

The main result is `parse_compositional`.
-/
namespace JvmLint.Format

/-! ## More text -/

theorem Reads.parse_append {format : List Char} {reads : List ReadSpecifier}
    (h : Reads format reads) (more : List Char) :
    parse (format ++ more) = (parse more).map (reads.map ReadSpecifier.specifier ++ ·) := by
  induction h with
  | nil =>
    cases hmore : parse more <;> simp [hmore, Except.map]
  | plain hc _ ih => rw [List.cons_append, parse, if_neg hc, ih]
  | specifier read hscan _ ih =>
    rw [List.cons_append, parse_specifier (RawSpecifier.scan_append hscan read.ofRaw_eq more),
      read.ofRaw_eq, ih]
    cases hmore : parse more <;> rfl

theorem parse_append {format : List Char} {specifiers : List Specifier}
    (h : parse format = .ok specifiers) (more : List Char) :
    parse (format ++ more) = (parse more).map (specifiers ++ ·) := by
  obtain ⟨reads, hreads, rfl⟩ := exists_reads_of_parse h
  exact hreads.parse_append more

/-- A specifier is at least its conversion. -/
theorem RawSpecifier.written_ne_nil (raw : RawSpecifier) : raw.written ≠ [] := by
  simp [written]

/-! ## Rounds -/

/-- A run through a format: what is left of it, and the specifiers that were found. -/
structure Reader where
  left : List Char
  found : List Specifier

namespace Reader

/-- One round reads a specifier or a character of plain text. Nothing happens when
nothing is left. -/
def step (reader : Reader) : Except FormatError Reader :=
  match reader.left with
  | [] => .ok reader
  | c :: rest =>
    if c = '%' then
      match RawSpecifier.scan rest with
      | none => .error (.unknownConversion [rest.head?.getD '%'])
      | some (raw, behind) => do
        let specifier ← Specifier.ofRaw raw
        return ⟨behind, reader.found ++ [specifier]⟩
    else .ok ⟨rest, reader.found⟩

/-- Some rounds. -/
def after : Nat → Reader → Except FormatError Reader
  | 0, reader => .ok reader
  | n + 1, reader => do
    let next ← reader.step
    after n next

/-- What is found when all is read. -/
def finish (reader : Reader) : Except FormatError Reader :=
  (parse reader.left).map fun more => ⟨[], reader.found ++ more⟩

section Step

variable {c : Char} {rest behind : List Char} {found : List Specifier} {raw : RawSpecifier}

theorem step_plain (hc : c ≠ '%') : step ⟨c :: rest, found⟩ = .ok ⟨rest, found⟩ := by
  simp [step, hc]

theorem step_of_scan_eq_none (h : RawSpecifier.scan rest = none) :
    step ⟨'%' :: rest, found⟩ = .error (.unknownConversion [rest.head?.getD '%']) := by
  simp [step, h]

theorem step_of_scan_eq_some (h : RawSpecifier.scan rest = some (raw, behind)) :
    step ⟨'%' :: rest, found⟩ =
      (Specifier.ofRaw raw).map fun specifier => ⟨behind, found ++ [specifier]⟩ := by
  simp only [step, h, if_true]
  cases Specifier.ofRaw raw <;> rfl

theorem finish_nil : finish ⟨[], found⟩ = .ok ⟨[], found⟩ := by
  simp [finish, parse, Except.map]

end Step

/-- A round does not change what is found when all is read. -/
theorem finish_eq_step_bind (reader : Reader) : reader.finish = reader.step >>= finish := by
  obtain ⟨left, found⟩ := reader
  cases left with
  | nil =>
    rw [finish_nil]
    exact finish_nil.symm
  | cons c rest =>
    by_cases hc : c = '%'
    · subst hc
      cases hscan : RawSpecifier.scan rest with
      | none =>
        rw [step_of_scan_eq_none hscan, finish, parse_of_scan_eq_none hscan]
        rfl
      | some way =>
        rw [step_of_scan_eq_some hscan, finish, parse_specifier hscan]
        cases hraw : Specifier.ofRaw way.1 with
        | error error => rfl
        | ok specifier =>
          simp only [Except.map, bind, Except.bind, finish]
          cases parse way.2 <;> simp [pure, Except.pure]
    · rw [step_plain hc, finish, parse, if_neg hc]
      rfl

/-- A round leaves less text. -/
theorem length_step {reader next : Reader} (h : reader.step = .ok next)
    (hleft : reader.left ≠ []) : next.left.length < reader.left.length := by
  obtain ⟨left, found⟩ := reader
  obtain ⟨c, rest, rfl⟩ := List.exists_cons_of_ne_nil hleft
  by_cases hc : c = '%'
  · subst hc
    cases hscan : RawSpecifier.scan rest with
    | none =>
      rw [step_of_scan_eq_none hscan] at h
      cases h
    | some way =>
      rw [step_of_scan_eq_some hscan] at h
      cases hraw : Specifier.ofRaw way.1 with
      | error error =>
        rw [hraw] at h
        cases h
      | ok specifier =>
        rw [hraw] at h
        cases h
        exact Nat.lt_succ_of_lt (RawSpecifier.length_scan hscan)
  · rw [step_plain hc] at h
    cases h
    exact Nat.lt_succ_self _

/-- With enough rounds all is read. -/
theorem after_eq_finish {n : Nat} {reader : Reader} (h : reader.left.length ≤ n) :
    after n reader = reader.finish := by
  induction n generalizing reader with
  | zero =>
    obtain ⟨left, found⟩ := reader
    obtain rfl : left = [] := List.eq_nil_of_length_eq_zero (Nat.le_zero.1 h)
    exact finish_nil.symm
  | succ n ih =>
    rw [after, finish_eq_step_bind]
    cases hstep : reader.step with
    | error error => rfl
    | ok next =>
      refine ih ?_
      by_cases hleft : reader.left = []
      · obtain ⟨left, found⟩ := reader
        cases hleft
        cases hstep
        exact Nat.zero_le n
      · have hlt := length_step hstep hleft
        omega

end Reader

/-- **Reading is compositional.** If a format can be read, then with another one behind it
the specifiers of the two follow one another, or the fault of the other is found. What is
scanned as a specifier takes at least one character behind the `%`, so that a run
through a format ends, with all of it read or with a fault, after no more rounds than the
format has characters. -/
theorem parse_compositional (first second : List Char) :
    (∀ specifiers, parse first = .ok specifiers →
      (∀ others, parse second = .ok others →
        parse (first ++ second) = .ok (specifiers ++ others)) ∧
      ∀ error, parse second = .error error → parse (first ++ second) = .error error) ∧
    (∀ text raw rest, RawSpecifier.scan text = some (raw, rest) →
      ∃ read, read ≠ [] ∧ text = read ++ rest) ∧
    Reader.after first.length ⟨first, []⟩ = (parse first).map fun found => ⟨[], found⟩ := by
  refine ⟨fun specifiers hfirst => ⟨?_, ?_⟩, ?_, ?_⟩
  · intro others hsecond
    rw [parse_append hfirst, hsecond]
    rfl
  · intro error hsecond
    rw [parse_append hfirst, hsecond]
    rfl
  · intro text raw rest hscan
    exact ⟨raw.written, raw.written_ne_nil, RawSpecifier.eq_written_of_scan hscan⟩
  · exact Reader.after_eq_finish (Nat.le_refl _)

/-- Digits, a dollar sign or a letter behind a whole specifier do not become part of it. -/
theorem parse_compositional_lookahead :
    parse "%5tY".toList = .ok [⟨.next, .none, some 5, none, true, 'Y'⟩] ∧
      parse "%5tY0$%n".toList =
        .ok [⟨.next, .none, some 5, none, true, 'Y'⟩, ⟨.nothing, .none, none, none, false, 'n'⟩] ∧
      parse "%5tY$s%t".toList = .error (.unknownConversion ['t']) ∧
      (∃ read, read ≠ [] ∧ "5tY0$%n".toList = read ++ "0$%n".toList) ∧
      Reader.after 4 ⟨"%5tY".toList, []⟩ =
        .ok ⟨[], [⟨.next, .none, some 5, none, true, 'Y'⟩]⟩ := by
  have hfirst : parse "%5tY".toList = .ok [⟨.next, .none, some 5, none, true, 'Y'⟩] := by
    decide +kernel
  have hscan : RawSpecifier.scan "5tY0$%n".toList =
      some (⟨none, [], some ['5'], none, some 't', 'Y'⟩, "0$%n".toList) := by decide
  refine ⟨hfirst, ?_, ?_, ?_, ?_⟩
  · exact ((parse_compositional "%5tY".toList "0$%n".toList).1 _ hfirst).1 _ (by decide +kernel)
  · exact ((parse_compositional "%5tY".toList "$s%t".toList).1 _ hfirst).2 _ (by decide +kernel)
  · exact (parse_compositional [] []).2.1 _ _ _ hscan
  · exact (parse_compositional "%5tY".toList []).2.2.trans (by rw [hfirst]; rfl)

end JvmLint.Format

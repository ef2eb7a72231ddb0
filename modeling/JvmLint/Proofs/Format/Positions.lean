import JvmLint.Format.Check
import JvmLint.Proofs.Format.Reading
import Mathlib.Data.List.Induction

/-!
# The positions of arguments

Which argument a specifier formats can be said without running through the format
(`Positions`): an ordinary specifier formats the argument whose position is the number
of ordinary ones before it, an explicit one names its position, and one that reuses
an argument formats that of the nearest specifier before it that takes one. This
gives every specifier that takes an argument one position, or none at all
(`positions_positionAt`, `Positions.unique`).

The main result, `check_eq_first_failure`, is that a check of a format fails with what
is wrong at the first specifier whose argument is missing or unfit.
-/
namespace JvmLint.Format

/-! ## Positions -/

/-- The nearest specifier before the one at `k` that takes an argument. -/
def nearestTaker (reads : List ReadSpecifier) : Nat → Option Nat
  | 0 => none
  | k + 1 => if reads[k]?.any (·.raw.takesArgument) then some k else nearestTaker reads k

/-- The positions of the arguments that specifiers format. Only what is said of
specifiers that take an argument matters. -/
structure Positions (reads : List ReadSpecifier) (position : Nat → Option Nat) : Prop where
  ordinary : ∀ k read, reads[k]? = some read → read.raw.isOrdinary →
    position k = some ((reads.take k).countP (·.raw.isOrdinary))
  explicit : ∀ k read digits n, reads[k]? = some read → read.raw.takesArgument →
    ¬ read.raw.reusesArgument → read.raw.index = some digits →
      Specifier.number? digits = some n → position k = some (n - 1)
  previous : ∀ k read, reads[k]? = some read → read.raw.takesArgument →
    read.raw.reusesArgument → position k = (nearestTaker reads k).bind position

theorem RawSpecifier.RefersTo.unique {raw : RawSpecifier} {ref ref' : ArgumentRef}
    (h : raw.RefersTo ref) (h' : raw.RefersTo ref') : ref = ref' := by
  cases h <;> cases h' <;> simp_all [isOrdinary]

namespace ReadSpecifier

theorem refersTo (read : ReadSpecifier) : read.raw.RefersTo read.specifier.argument :=
  RawSpecifier.refersTo_of_ofRaw read.ofRaw_eq

theorem argument_eq {read : ReadSpecifier} {ref : ArgumentRef} (h : read.raw.RefersTo ref) :
    read.specifier.argument = ref :=
  read.refersTo.unique h

end ReadSpecifier

/-! ## Cursors -/

namespace Cursor

/-- The cursor behind some specifiers. -/
def behind (reads : List ReadSpecifier) : Cursor :=
  reads.foldl (fun cursor read =>
    ((cursor.advance read.specifier.argument).map Prod.snd).getD cursor) start

/-- What a specifier does to a cursor. -/
theorem advance_cases (cursor : Cursor) (read : ReadSpecifier) :
    ¬ read.raw.takesArgument ∧ cursor.advance read.specifier.argument = none ∨
      read.raw.takesArgument ∧ ∃ position next,
        cursor.advance read.specifier.argument = some (position, next) ∧ next.last = position ∧
          next.ordinary = cursor.ordinary + if read.raw.isOrdinary then 1 else 0 := by
  have h := read.refersTo
  generalize read.specifier.argument = ref at h
  cases h with
  | nothing htakes => exact Or.inl ⟨htakes, rfl⟩
  | next hordinary =>
    have htakes : read.raw.takesArgument := by
      simp only [RawSpecifier.isOrdinary, Bool.and_eq_true] at hordinary
      exact hordinary.1.1
    exact Or.inr ⟨htakes, _, _, rfl, rfl, by rw [if_pos hordinary]⟩
  | previous htakes hreuses =>
    exact Or.inr ⟨htakes, _, _, rfl, rfl, by simp [RawSpecifier.isOrdinary, hreuses]⟩
  | explicit htakes hreuses hindex hnumber =>
    exact Or.inr ⟨htakes, _, _, rfl, rfl, by simp [RawSpecifier.isOrdinary, hindex]⟩

theorem behind_append (reads : List ReadSpecifier) (read : ReadSpecifier) :
    behind (reads ++ [read]) =
      (((behind reads).advance read.specifier.argument).map Prod.snd).getD (behind reads) := by
  simp [behind, List.foldl_append]

theorem ordinary_behind (reads : List ReadSpecifier) :
    (behind reads).ordinary = reads.countP (·.raw.isOrdinary) := by
  induction reads using List.reverseRecOn with
  | nil => rfl
  | append_singleton reads read ih =>
    rw [behind_append, List.countP_append, ← ih]
    rcases advance_cases (behind reads) read with ⟨htakes, hnone⟩ | ⟨-, _, next, hsome, -, hnext⟩
    · simp [hnone, RawSpecifier.isOrdinary, htakes]
    · simp [hsome, hnext, List.countP_cons]

end Cursor

/-- The position that a run through the format comes to. -/
def positionAt (reads : List ReadSpecifier) (k : Nat) : Option Nat :=
  reads[k]?.bind fun read =>
    ((Cursor.behind (reads.take k)).advance read.specifier.argument).bind Prod.fst

section Positions

variable {reads : List ReadSpecifier} {k : Nat} {read : ReadSpecifier}

theorem take_succ_of_getElem? (h : reads[k]? = some read) :
    reads.take (k + 1) = reads.take k ++ [read] := by
  rw [List.take_add_one, h, Option.toList_some]

theorem last_behind_take (reads : List ReadSpecifier) (k : Nat) :
    (Cursor.behind (reads.take k)).last = (nearestTaker reads k).bind (positionAt reads) := by
  induction k with
  | zero => rfl
  | succ k ih =>
    cases hread : reads[k]? with
    | none => simp [List.take_add_one, nearestTaker, hread, ih]
    | some read =>
      rw [take_succ_of_getElem? hread, Cursor.behind_append]
      rcases (Cursor.behind (reads.take k)).advance_cases read with
        ⟨htakes, hnone⟩ | ⟨htakes, position, next, hsome, hlast, -⟩
      · simp [nearestTaker, hread, htakes, hnone, ih]
      · simp [nearestTaker, positionAt, hread, htakes, hsome, hlast]

theorem positions_positionAt (reads : List ReadSpecifier) :
    Positions reads (positionAt reads) where
  ordinary := by
    intro k read hread hordinary
    simp [positionAt, hread, ReadSpecifier.argument_eq (.next hordinary), Cursor.advance,
      Cursor.ordinary_behind]
  explicit := by
    intro k read digits n hread htakes hreuses hindex hnumber
    simp [positionAt, hread, ReadSpecifier.argument_eq (.explicit htakes hreuses hindex hnumber),
      Cursor.advance]
  previous := by
    intro k read hread htakes hreuses
    rw [← last_behind_take]
    simp [positionAt, hread, ReadSpecifier.argument_eq (.previous htakes hreuses), Cursor.advance]

theorem nearestTaker_eq_some {j : Nat} (h : nearestTaker reads k = some j) :
    j < k ∧ ∃ read, reads[j]? = some read ∧ read.raw.takesArgument := by
  induction k with
  | zero => cases h
  | succ k ih =>
    rw [nearestTaker] at h
    split at h
    · rename_i hany
      cases h
      exact ⟨Nat.lt_succ_self _, by simpa [Option.any_eq_true] using hany⟩
    · obtain ⟨hlt, hread⟩ := ih h
      exact ⟨Nat.lt_succ_of_lt hlt, hread⟩

theorem Positions.unique {position position' : Nat → Option Nat} (h : Positions reads position)
    (h' : Positions reads position') (hread : reads[k]? = some read)
    (htakes : read.raw.takesArgument) : position k = position' k := by
  induction k using Nat.strongRecOn generalizing read with
  | ind k ih =>
    have hrefers := read.refersTo
    generalize read.specifier.argument = ref at hrefers
    cases hrefers with
    | nothing hnot => exact absurd htakes hnot
    | next hordinary => rw [h.ordinary k read hread hordinary, h'.ordinary k read hread hordinary]
    | explicit _ hreuses hindex hnumber =>
      rw [h.explicit k read _ _ hread htakes hreuses hindex hnumber,
        h'.explicit k read _ _ hread htakes hreuses hindex hnumber]
    | previous _ hreuses =>
      rw [h.previous k read hread htakes hreuses, h'.previous k read hread htakes hreuses]
      cases hnearest : nearestTaker reads k with
      | none => rfl
      | some j =>
        obtain ⟨hlt, earlier, hearlier, hearlierTakes⟩ := nearestTaker_eq_some hnearest
        exact ih j hlt hearlier hearlierTakes

end Positions

/-! ## The first failure -/

namespace Specifier

/-- There is an argument at the position, and the specifier can format it. -/
def Accepts (specifier : Specifier) (arguments : List Sample) (position : Option Nat) : Prop :=
  ∃ i argument, position = some i ∧ arguments[i]? = some argument ∧
    specifier.checkArgument argument = .ok ()

/-- There is no position, or no argument at it, or the specifier cannot format the
argument. -/
def FailsWith (specifier : Specifier) (arguments : List Sample) (position : Option Nat)
    (error : FormatError) : Prop :=
  (position = none ∨ ∃ i, position = some i ∧ arguments.length ≤ i) ∧
      error = .missingArgument specifier ∨
    ∃ i argument, position = some i ∧ arguments[i]? = some argument ∧
      specifier.checkArgument argument = .error error

/-- What a specifier makes of the argument at a position. -/
def verdict (specifier : Specifier) (arguments : List Sample) (position : Option Nat) :
    Except FormatError Unit :=
  match position.bind (arguments[·]?) with
  | none => .error (.missingArgument specifier)
  | some argument => specifier.checkArgument argument

variable {specifier : Specifier} {arguments : List Sample} {position : Option Nat}

theorem verdict_eq_ok_iff :
    specifier.verdict arguments position = .ok () ↔ specifier.Accepts arguments position := by
  unfold verdict Accepts
  cases position with
  | none => simp
  | some i => cases harg : arguments[i]? <;> simp [harg]

theorem verdict_eq_error_iff {error : FormatError} :
    specifier.verdict arguments position = .error error ↔
      specifier.FailsWith arguments position error := by
  unfold verdict FailsWith
  cases position with
  | none => simp [eq_comm]
  | some i =>
    cases harg : arguments[i]? with
    | none =>
      have hle : arguments.length ≤ i := by simpa using harg
      simp [hle, eq_comm]
    | some argument =>
      have hlt : ¬ arguments.length ≤ i := by
        obtain ⟨hlt, -⟩ := List.getElem?_eq_some_iff.1 harg
        omega
      simp [harg, hlt]

end Specifier

section Run

variable {reads : List ReadSpecifier} {arguments : List Sample}

/-- What is found at one specifier. -/
def outcome (arguments : List Sample) (reads : List ReadSpecifier) (k : Nat) :
    Except FormatError Unit :=
  match reads[k]? with
  | none => .ok ()
  | some read =>
    if read.raw.takesArgument then read.specifier.verdict arguments (positionAt reads k) else .ok ()

/-- A check that has come to the specifier at `k`. -/
def checkFrom (arguments : List Sample) (reads : List ReadSpecifier) (k : Nat) :
    Except FormatError Unit :=
  checkSpecifiers arguments (Cursor.behind (reads.take k))
    ((reads.drop k).map ReadSpecifier.specifier)

theorem checkFrom_of_length_le {k : Nat} (h : reads.length ≤ k) :
    checkFrom arguments reads k = .ok () := by
  rw [checkFrom, List.drop_eq_nil_of_le h]
  rfl

/-- One step of a check. -/
theorem checkFrom_step {k : Nat} (h : k < reads.length) :
    checkFrom arguments reads k =
      outcome arguments reads k >>= fun _ => checkFrom arguments reads (k + 1) := by
  obtain ⟨read, hread⟩ : ∃ read, reads[k]? = some read := ⟨_, List.getElem?_eq_getElem h⟩
  have hdrop : reads.drop k = read :: reads.drop (k + 1) := by
    rw [List.drop_eq_getElem_cons h, (List.getElem?_eq_some_iff.1 hread).2]
  simp only [checkFrom, hdrop, List.map_cons, checkSpecifiers, take_succ_of_getElem? hread,
    Cursor.behind_append, outcome, positionAt, hread, Option.bind_some]
  rcases (Cursor.behind (reads.take k)).advance_cases read with
    ⟨htakes, hnone⟩ | ⟨htakes, position, next, hsome, -, -⟩
  · simp only [hnone, htakes]
    rfl
  · simp only [hsome, htakes, if_true, Option.bind_some, Specifier.verdict]
    cases position.bind (arguments[·]?) <;> rfl

/-- Of what is found from the specifier at `k` on, this comes first. -/
def FirstFound (arguments : List Sample) (reads : List ReadSpecifier) (k : Nat)
    (error : FormatError) : Prop :=
  ∃ j ≥ k, outcome arguments reads j = .error error ∧
    ∀ i ≥ k, i < j → outcome arguments reads i = .ok ()

theorem FirstFound.unique {k : Nat} {error error' : FormatError}
    (h : FirstFound arguments reads k error) (h' : FirstFound arguments reads k error') :
    error = error' := by
  obtain ⟨j, hj, herror, hbefore⟩ := h
  obtain ⟨j', hj', herror', hbefore'⟩ := h'
  rcases Nat.lt_trichotomy j j' with hlt | rfl | hlt
  · exact absurd (herror.symm.trans (hbefore' j hj hlt)) nofun
  · exact Except.error.inj (herror.symm.trans herror')
  · exact absurd (herror'.symm.trans (hbefore j' hj' hlt)) nofun

/-- A check ends well and nothing is found from where it is on, or it ends with what is
found first. -/
theorem checkFrom_cases (arguments : List Sample) (reads : List ReadSpecifier) (k : Nat) :
    checkFrom arguments reads k = .ok () ∧ (∀ j ≥ k, outcome arguments reads j = .ok ()) ∨
      ∃ error, checkFrom arguments reads k = .error error ∧
        FirstFound arguments reads k error := by
  induction hleft : reads.length - k generalizing k with
  | zero =>
    have hend : reads.length ≤ k := by omega
    refine Or.inl ⟨checkFrom_of_length_le hend, fun j hj => ?_⟩
    rw [outcome, List.getElem?_eq_none (Nat.le_trans hend hj)]
  | succ left ih =>
    rw [checkFrom_step (by omega)]
    cases hk : outcome arguments reads k with
    | error error =>
      exact Or.inr ⟨error, rfl, k, Nat.le_refl k, hk, fun i hi hik => absurd hik (by omega)⟩
    | ok _ =>
      have hfrom : ∀ j ≥ k, j = k ∨ j ≥ k + 1 := by omega
      rcases ih (k + 1) (by omega) with ⟨hcheck, hall⟩ | ⟨error, hcheck, j, hj, herror, hbefore⟩
      · refine Or.inl ⟨hcheck, fun j hj => ?_⟩
        rcases hfrom j hj with rfl | hj
        · exact hk
        · exact hall j hj
      · refine Or.inr ⟨error, hcheck, j, by omega, herror, fun i hi hij => ?_⟩
        rcases hfrom i hi with rfl | hi
        · exact hk
        · exact hbefore i hi hij

theorem checkFrom_eq_ok_iff {k : Nat} :
    checkFrom arguments reads k = .ok () ↔ ∀ j ≥ k, outcome arguments reads j = .ok () := by
  rcases checkFrom_cases arguments reads k with ⟨hcheck, hall⟩ | ⟨error, hcheck, j, hj, herror, -⟩
  · exact iff_of_true hcheck hall
  · refine iff_of_false (by simp [hcheck]) fun hall => ?_
    exact absurd (herror.symm.trans (hall j hj)) nofun

theorem checkFrom_eq_error_iff {k : Nat} {error : FormatError} :
    checkFrom arguments reads k = .error error ↔ FirstFound arguments reads k error := by
  rcases checkFrom_cases arguments reads k with ⟨hcheck, hall⟩ | ⟨found, hcheck, hfirst⟩
  · refine iff_of_false (by simp [hcheck]) ?_
    rintro ⟨j, hj, herror, -⟩
    exact absurd (herror.symm.trans (hall j hj)) nofun
  · rw [hcheck, Except.error.injEq]
    exact ⟨fun h => h ▸ hfirst, hfirst.unique⟩

theorem check_of_reads {format : String} (h : Reads format.toList reads) :
    check format arguments = checkFrom arguments reads 0 := by
  rw [check, parse_of_reads h]
  rfl

/-- The specifiers before the one at `k` accept the arguments at their positions. -/
def AcceptedBefore (arguments : List Sample) (reads : List ReadSpecifier)
    (position : Nat → Option Nat) (k : Nat) : Prop :=
  ∀ j < k, ∀ read, reads[j]? = some read → read.raw.takesArgument →
    read.specifier.Accepts arguments (position j)

variable {position : Nat → Option Nat}

theorem outcome_eq_ok_iff (h : Positions reads position) {k : Nat} :
    outcome arguments reads k = .ok () ↔
      ∀ read, reads[k]? = some read → read.raw.takesArgument →
        read.specifier.Accepts arguments (position k) := by
  unfold outcome
  cases hread : reads[k]? with
  | none => simp
  | some read =>
    by_cases htakes : read.raw.takesArgument
    · simp [htakes, Specifier.verdict_eq_ok_iff, (positions_positionAt reads).unique h hread htakes]
    · simp [htakes]

theorem outcome_eq_error_iff (h : Positions reads position) {k : Nat} {error : FormatError} :
    outcome arguments reads k = .error error ↔
      ∃ read, reads[k]? = some read ∧ read.raw.takesArgument ∧
        read.specifier.FailsWith arguments (position k) error := by
  unfold outcome
  cases hread : reads[k]? with
  | none => simp
  | some read =>
    by_cases htakes : read.raw.takesArgument
    · simp [htakes, Specifier.verdict_eq_error_iff,
        (positions_positionAt reads).unique h hread htakes]
    · simp [htakes]

end Run

/-- **Checking a format.** A format that cannot be read is refused as it is, whatever
the arguments are. Otherwise let its specifiers have their positions. A check ends well
exactly if every specifier that takes an argument accepts the one at its position, and
with an error exactly if this is what the first specifier that does not accept it
fails with. -/
theorem check_eq_first_failure (format : String) :
    (∀ error, parse format.toList = .error error →
      ∀ arguments, check format arguments = .error error) ∧
    (∀ specifiers, parse format.toList = .ok specifiers →
      ∃ reads, Reads format.toList reads ∧ reads.map ReadSpecifier.specifier = specifiers) ∧
    ∀ reads, Reads format.toList reads →
      (∃ position, Positions reads position) ∧
      ∀ position, Positions reads position → ∀ arguments,
        (check format arguments = .ok () ↔
          AcceptedBefore arguments reads position reads.length) ∧
        ∀ error, check format arguments = .error error ↔
          ∃ (k : Nat) (read : ReadSpecifier), reads[k]? = some read ∧ read.raw.takesArgument ∧
            read.specifier.FailsWith arguments (position k) error ∧
            AcceptedBefore arguments reads position k := by
  refine ⟨?_, fun _ => parse_eq_ok_iff.1, fun reads hreads =>
    ⟨⟨_, positions_positionAt reads⟩, fun position hposition arguments => ?_⟩⟩
  · intro error herror arguments
    rw [check, herror]
    rfl
  · rw [check_of_reads hreads, checkFrom_eq_ok_iff]
    constructor
    · simp only [outcome_eq_ok_iff hposition]
      constructor
      · exact fun h j _ => h j (Nat.zero_le j)
      · intro h j _ read hread
        exact h j (List.getElem?_eq_some_iff.1 hread).1 read hread
    · intro error
      rw [checkFrom_eq_error_iff]
      simp only [FirstFound, outcome_eq_ok_iff hposition, outcome_eq_error_iff hposition]
      constructor
      · rintro ⟨k, -, ⟨read, hread, htakes, hfails⟩, hbefore⟩
        exact ⟨k, read, hread, htakes, hfails, fun j => hbefore j (Nat.zero_le j)⟩
      · rintro ⟨k, read, hread, htakes, hfails, hbefore⟩
        exact ⟨k, Nat.zero_le k, ⟨read, hread, htakes, hfails⟩, fun j _ => hbefore j⟩

/-- The specifiers of `%2$s%<d%%%s`. -/
def reusingReads : List ReadSpecifier := [
  ⟨⟨some ['2'], [], none, none, none, 's'⟩, ⟨.explicit 2, .none, none, none, false, 's'⟩, rfl⟩,
  ⟨⟨none, ['<'], none, none, none, 'd'⟩,
    ⟨.previous, Flags.none.insert .previous, none, none, false, 'd'⟩, rfl⟩,
  ⟨⟨none, [], none, none, none, '%'⟩, ⟨.nothing, .none, none, none, false, '%'⟩, rfl⟩,
  ⟨⟨none, [], none, none, none, 's'⟩, ⟨.next, .none, none, none, false, 's'⟩, rfl⟩]

theorem check_eq_first_failure_reusing :
    parse "%q".toList = .error (.unknownConversion ['q']) ∧
      check "%q" [] = .error (.unknownConversion ['q']) ∧
      Reads "%2$s%<d%%%s".toList reusingReads ∧ ∃ position, Positions reusingReads position ∧
        check "%2$s%<d%%%s" [.int 7, .string "a"] =
          .error (.illegalConversion 'd' "java.lang.String") := by
  have herror : parse "%q".toList = .error (.unknownConversion ['q']) := by
    rw [show "%q".toList = ['%', 'q'] from rfl, parse_specifier rfl]
    rfl
  have hreads : Reads "%2$s%<d%%%s".toList reusingReads :=
    .specifier _ rfl (.specifier _ rfl (.specifier _ rfl (.specifier _ rfl .nil)))
  obtain ⟨position, hposition⟩ := ((check_eq_first_failure _).2.2 _ hreads).1
  have hall := ((check_eq_first_failure _).2.2 _ hreads).2 position hposition [.int 7, .string "a"]
  refine ⟨herror, (check_eq_first_failure _).1 _ herror [], hreads, position, hposition, ?_⟩
  have hfirst : position 0 = some 1 := hposition.explicit 0 _ ['2'] 2 rfl rfl (by decide) rfl rfl
  have hsecond : position 1 = some 1 := (hposition.previous 1 _ rfl rfl rfl).trans hfirst
  refine (hall.2 _).2 ⟨1, _, rfl, rfl, Or.inr ⟨1, .string "a", hsecond, rfl, rfl⟩, ?_⟩
  intro j hj read hread _
  obtain rfl : j = 0 := by omega
  cases hread
  exact ⟨1, .string "a", hfirst, rfl, rfl⟩

end JvmLint.Format

import Mathlib.Computability.Language

/-!
# Patterns

Regular expressions with groups, matched with backtracking. A pattern lists all the
ways to match the front of a text, in the order in which a backtracking matcher tries
them: an optional part is read rather than left out, and a repetition goes on rather
than stops. The first way on the list is the match.

* `Recognizes`: what a pattern reads are the texts of a regular language.
* `Commits`: the condition under which a scanner that never takes back a choice finds
  the match, and the match is the longest one.
-/
namespace JvmLint.Format

open scoped Computability

/-- A pattern lists the ways to read something from the front of a text, the
preferred way first, each with the text that it leaves. -/
def Pattern (α : Type) : Type := List Char → List (α × List Char)

namespace Pattern

variable {α β : Type}

/-- One character of a class. -/
def one (accept : Char → Bool) : Pattern Char
  | [] => []
  | c :: rest => if accept c then [(c, rest)] else []

/-- Any number of characters of a class, rather more than fewer. -/
def run (accept : Char → Bool) : Pattern (List Char)
  | [] => [([], [])]
  | c :: rest =>
    (if accept c then (run accept rest).map fun way => (c :: way.1, way.2) else []) ++
      [([], c :: rest)]

/-- One pattern behind another. The first one decides what is preferred. -/
def seq (p : Pattern α) (q : Pattern β) : Pattern (α × β) := fun text =>
  (p text).flatMap fun way => (q way.2).map fun next => ((way.1, next.1), next.2)

def map (f : α → β) (p : Pattern α) : Pattern β := fun text =>
  (p text).map fun way => (f way.1, way.2)

/-- The pattern rather than nothing. -/
def maybe (p : Pattern α) : Pattern (Option α) := fun text =>
  p.map some text ++ [(none, text)]

/-- At least one character of a class, rather more than fewer. -/
def run₁ (accept : Char → Bool) : Pattern (List Char) :=
  ((one accept).seq (run accept)).map fun (c, cs) => c :: cs

variable {accept : Char → Bool} {p : Pattern α} {q : Pattern β} {text rest : List Char}

@[simp]
theorem mem_one {c : Char} : (c, rest) ∈ one accept text ↔ text = c :: rest ∧ accept c := by
  cases text with
  | nil => simp [one]
  | cons d text =>
    by_cases hd : accept d
    · simp only [one, hd, if_true, List.mem_singleton, Prod.mk.injEq, List.cons.injEq]
      constructor
      · rintro ⟨rfl, rfl⟩
        exact ⟨⟨rfl, rfl⟩, hd⟩
      · rintro ⟨⟨rfl, rfl⟩, -⟩
        exact ⟨rfl, rfl⟩
    · simp only [one, hd, Bool.false_eq_true, if_false, List.not_mem_nil, List.cons.injEq, false_iff]
      rintro ⟨⟨rfl, -⟩, hc⟩
      exact hd hc

@[simp]
theorem mem_run {cs : List Char} :
    (cs, rest) ∈ run accept text ↔ text = cs ++ rest ∧ ∀ c ∈ cs, accept c := by
  induction text generalizing cs rest with
  | nil =>
    simp only [run, List.mem_singleton, Prod.mk.injEq, List.nil_eq, List.append_eq_nil_iff]
    constructor
    · rintro ⟨rfl, rfl⟩
      simp
    · exact And.left
  | cons d text ih =>
    cases cs with
    | nil =>
      have hlonger : ([], rest) ∉ (if accept d then
          (run accept text).map fun way => (d :: way.1, way.2) else []) := by
        split <;> simp
      rw [run, List.mem_append, or_iff_right hlonger, List.mem_singleton, Prod.mk.injEq]
      simp only [true_and, List.nil_append, List.not_mem_nil, false_imp_iff, implies_true,
        and_true]
      exact eq_comm
    | cons c cs =>
      by_cases hd : accept d
      · simp only [run, hd, if_true, List.mem_append, List.mem_map, Prod.mk.injEq,
          List.cons.injEq, Prod.exists, ih, List.cons_append, List.mem_singleton, reduceCtorEq,
          false_and, or_false, List.forall_mem_cons]
        constructor
        · rintro ⟨cs', rest', ⟨htext, hall⟩, ⟨rfl, rfl⟩, rfl⟩
          exact ⟨⟨rfl, htext⟩, hd, hall⟩
        · rintro ⟨⟨rfl, htext⟩, -, hall⟩
          exact ⟨cs, rest, ⟨htext, hall⟩, ⟨rfl, rfl⟩, rfl⟩
      · simp only [run, hd, Bool.false_eq_true, if_false, List.nil_append, List.mem_singleton,
          Prod.mk.injEq, reduceCtorEq, false_and, List.cons_append, List.cons.injEq,
          List.forall_mem_cons, false_iff]
        rintro ⟨⟨rfl, -⟩, hc, -⟩
        exact hd hc

@[simp]
theorem mem_seq {a : α} {b : β} :
    ((a, b), rest) ∈ p.seq q text ↔ ∃ middle, (a, middle) ∈ p text ∧ (b, rest) ∈ q middle := by
  simp only [seq, List.mem_flatMap, List.mem_map, Prod.mk.injEq, Prod.exists]
  constructor
  · rintro ⟨_, middle, hp, _, _, hq, ⟨rfl, rfl⟩, rfl⟩
    exact ⟨middle, hp, hq⟩
  · rintro ⟨middle, hp, hq⟩
    exact ⟨a, middle, hp, b, rest, hq, ⟨rfl, rfl⟩, rfl⟩

@[simp]
theorem mem_map {f : α → β} {b : β} :
    (b, rest) ∈ p.map f text ↔ ∃ a, (a, rest) ∈ p text ∧ f a = b := by
  simp [map]

@[simp]
theorem mem_maybe {read : Option α} :
    (read, rest) ∈ p.maybe text ↔ (∃ a, read = some a ∧ (a, rest) ∈ p text) ∨
      read = none ∧ rest = text := by
  simp [maybe, and_comm, eq_comm]

@[simp]
theorem mem_run₁ {cs : List Char} :
    (cs, rest) ∈ run₁ accept text ↔ text = cs ++ rest ∧ cs ≠ [] ∧ ∀ c ∈ cs, accept c := by
  simp only [run₁, mem_map, Prod.exists, mem_seq, mem_one, mem_run]
  constructor
  · rintro ⟨c, cs', ⟨middle, ⟨rfl, hc⟩, rfl, hall⟩, rfl⟩
    exact ⟨rfl, by simp, List.forall_mem_cons.2 ⟨hc, hall⟩⟩
  · rintro ⟨rfl, hne, hall⟩
    obtain ⟨c, cs', rfl⟩ := List.exists_cons_of_ne_nil hne
    rw [List.forall_mem_cons] at hall
    exact ⟨c, cs', ⟨cs' ++ rest, ⟨rfl, hall.1⟩, rfl, hall.2⟩, rfl⟩

/-- The preferred run is the longest; any other one stops in front of a character of
the class. -/
theorem run_eq (accept : Char → Bool) (text : List Char) :
    ∃ others, run accept text = (text.takeWhile accept, text.dropWhile accept) :: others ∧
      ∀ other ∈ others, ∃ c cs, other.2 = c :: cs ++ text.dropWhile accept ∧
        ∀ d ∈ c :: cs, accept d := by
  induction text with
  | nil => exact ⟨[], rfl, by simp⟩
  | cons c text ih =>
    by_cases hc : accept c
    · obtain ⟨others, hrun, hothers⟩ := ih
      refine ⟨others.map (fun way => (c :: way.1, way.2)) ++ [([], c :: text)], ?_, ?_⟩
      · simp [run, hc, hrun]
      · intro other hother
        rw [List.dropWhile_cons_of_pos hc]
        rcases List.mem_append.1 hother with h | h
        · obtain ⟨way, hway, rfl⟩ := List.mem_map.1 h
          exact hothers way hway
        · rw [List.mem_singleton.1 h]
          refine ⟨c, text.takeWhile accept, ?_, ?_⟩
          · rw [List.cons_append, List.takeWhile_append_dropWhile]
          · rw [List.forall_mem_cons]
            exact ⟨hc, List.all_eq_true.1 List.all_takeWhile⟩
    · exact ⟨[], by simp [run, hc], by simp⟩

/-- Likewise for runs that are not empty. -/
theorem run₁_eq (accept : Char → Bool) (text : List Char) :
    text.takeWhile accept = [] ∧ run₁ accept text = [] ∨
      text.takeWhile accept ≠ [] ∧ (∃ c cs, text = c :: cs ∧ accept c) ∧ ∃ others,
        run₁ accept text = (text.takeWhile accept, text.dropWhile accept) :: others ∧
        ∀ other ∈ others, ∃ c cs, other.2 = c :: cs ∧ accept c := by
  cases text with
  | nil => exact Or.inl ⟨rfl, rfl⟩
  | cons c text =>
    by_cases hc : accept c
    · obtain ⟨others, hrun, hothers⟩ := run_eq accept text
      refine Or.inr ⟨by simp [hc], ⟨c, text, rfl, hc⟩,
        others.map (fun way => (c :: way.1, way.2)), ?_, ?_⟩
      · simp [run₁, map, seq, one, hc, hrun, Function.comp_def]
      · intro other hother
        obtain ⟨way, hway, rfl⟩ := List.mem_map.1 hother
        obtain ⟨d, ds, heq, hall⟩ := hothers way hway
        exact ⟨d, ds ++ text.dropWhile accept, heq, hall d (by simp)⟩
    · exact Or.inl ⟨by simp [hc], by simp [run₁, map, seq, one, hc]⟩

/-- What the pattern reads starts with a character of a class. -/
def StartsIn (p : Pattern α) (accept : Char → Bool) : Prop :=
  ∀ text, ∀ way ∈ p text, ∃ c cs, text = c :: cs ∧ accept c

theorem StartsIn.eq_nil (h : p.StartsIn accept) {c : Char} (hc : ¬ accept c) (cs : List Char) :
    p (c :: cs) = [] := by
  rw [List.eq_nil_iff_forall_not_mem]
  intro way hway
  obtain ⟨d, ds, heq, hd⟩ := h _ way hway
  obtain ⟨rfl, rfl⟩ := List.cons.inj heq
  exact hc hd

/-! ## Languages -/

/-- The texts of one character of a class. -/
def oneOf (accept : Char → Bool) : Language Char := {text | ∃ c, accept c ∧ text = [c]}

/-- What a pattern reads are the texts of a language. -/
def Recognizes (p : Pattern α) (language : Language Char) : Prop :=
  ∀ text rest, (∃ a, (a, rest) ∈ p text) ↔ ∃ read ∈ language, text = read ++ rest

theorem mem_kstar_oneOf {cs : List Char} : cs ∈ (oneOf accept)∗ ↔ ∀ c ∈ cs, accept c := by
  constructor
  · rintro ⟨parts, rfl, hparts⟩ c hc
    obtain ⟨part, hpart, hc⟩ := List.mem_flatten.1 hc
    obtain ⟨d, hd, rfl⟩ := hparts part hpart
    rwa [List.mem_singleton.1 hc]
  · intro hall
    refine ⟨cs.map fun c => [c], by rw [← List.flatMap_def, List.flatMap_singleton'], ?_⟩
    intro part hpart
    obtain ⟨c, hc, rfl⟩ := List.mem_map.1 hpart
    exact ⟨c, hall c hc, rfl⟩

variable {language other : Language Char}

theorem recognizes_one (accept : Char → Bool) : Recognizes (one accept) (oneOf accept) := by
  intro text rest
  simp only [mem_one]
  constructor
  · rintro ⟨c, rfl, hc⟩
    exact ⟨[c], ⟨c, hc, rfl⟩, rfl⟩
  · rintro ⟨_, ⟨c, hc, rfl⟩, rfl⟩
    exact ⟨c, rfl, hc⟩

theorem recognizes_run (accept : Char → Bool) : Recognizes (run accept) (oneOf accept)∗ := by
  intro text rest
  simp only [mem_run, mem_kstar_oneOf, and_comm]

theorem Recognizes.seq (hp : p.Recognizes language) (hq : q.Recognizes other) :
    (p.seq q).Recognizes (language * other) := by
  intro text rest
  simp only [Prod.exists, mem_seq, Language.mem_mul]
  constructor
  · rintro ⟨a, b, middle, ha, hb⟩
    obtain ⟨read, hread, rfl⟩ := (hp _ _).1 ⟨a, ha⟩
    obtain ⟨read', hread', rfl⟩ := (hq _ _).1 ⟨b, hb⟩
    exact ⟨read ++ read', ⟨read, hread, read', hread', rfl⟩, (List.append_assoc ..).symm⟩
  · rintro ⟨_, ⟨read, hread, read', hread', rfl⟩, rfl⟩
    obtain ⟨a, ha⟩ := (hp (read ++ read' ++ rest) (read' ++ rest)).2
      ⟨read, hread, List.append_assoc ..⟩
    obtain ⟨b, hb⟩ := (hq (read' ++ rest) rest).2 ⟨read', hread', rfl⟩
    exact ⟨a, b, _, ha, hb⟩

theorem Recognizes.map (hp : p.Recognizes language) (f : α → β) :
    (p.map f).Recognizes language := by
  intro text rest
  rw [← hp]
  simp

theorem Recognizes.maybe (hp : p.Recognizes language) :
    p.maybe.Recognizes (1 + language) := by
  intro text rest
  simp only [mem_maybe, Language.mem_add, Language.mem_one]
  constructor
  · rintro ⟨_, ⟨a, rfl, ha⟩ | ⟨-, rfl⟩⟩
    · obtain ⟨read, hread, rfl⟩ := (hp _ _).1 ⟨a, ha⟩
      exact ⟨read, Or.inr hread, rfl⟩
    · exact ⟨[], Or.inl rfl, rfl⟩
  · rintro ⟨read, rfl | hread, rfl⟩
    · exact ⟨none, Or.inr ⟨rfl, rfl⟩⟩
    · obtain ⟨a, ha⟩ := (hp _ _).2 ⟨read, hread, rfl⟩
      exact ⟨some a, Or.inl ⟨a, rfl, ha⟩⟩

theorem recognizes_run₁ (accept : Char → Bool) :
    Recognizes (run₁ accept) (oneOf accept * (oneOf accept)∗) :=
  ((recognizes_one accept).seq (recognizes_run accept)).map _

/-! ## Choices that need not be taken back -/

/-- The preferred one of some ways leaves no more of the text than any of the
others. In particular there is one if there are others. -/
def Leads (ways : List (α × List Char)) (others : List (β × List Char)) : Prop :=
  ∀ other ∈ others, ∃ way, ways.head? = some way ∧ way.2.length ≤ other.2.length

theorem leads_nil (ways : List (α × List Char)) : Leads ways ([] : List (β × List Char)) := by
  simp [Leads]

theorem head?_map (f : α → β) (p : Pattern α) (text : List Char) :
    (p.map f text).head? = (p text).head?.map fun way => (f way.1, way.2) := by
  simp [map]

theorem Leads.map (h : Leads (p text) (p text)) (f : α → β) :
    Leads (p.map f text) (p.map f text) := by
  rintro ⟨_, rest⟩ hread
  obtain ⟨a, ha, rfl⟩ := mem_map.1 hread
  obtain ⟨way, hway, hle⟩ := h _ ha
  exact ⟨_, by rw [head?_map, hway]; rfl, hle⟩

/-- It is safe to read `p` in this way in front of `q`: it is the preferred way, and
behind any other one `q` leads no further. -/
def Commits (p : Pattern α) (q : Pattern β) (text : List Char) (way : α × List Char) : Prop :=
  ∃ others, p text = way :: others ∧ ∀ other ∈ others, Leads (q way.2) (q other.2)

theorem Commits.head? {way : α × List Char} (h : Commits p q text way) :
    (p.seq q text).head? = (q way.2).head?.map fun next => ((way.1, next.1), next.2) := by
  obtain ⟨others, hp, hothers⟩ := h
  cases hq : q way.2 with
  | cons next nexts => simp [seq, hp, hq]
  | nil =>
    have hnil : ∀ other ∈ others, q other.2 = [] := by
      intro other hother
      rw [List.eq_nil_iff_forall_not_mem]
      intro next hnext
      obtain ⟨first, hfirst, -⟩ := hothers other hother next hnext
      simp [hq] at hfirst
    have hseq : p.seq q text = [] := by
      simp only [seq, hp, List.flatMap_cons, hq, List.map_nil, List.nil_append,
        List.flatMap_eq_nil_iff, List.map_eq_nil_iff]
      exact hnil
    simp [hseq]

theorem Commits.leads {way : α × List Char} (h : Commits p q text way)
    (hq : ∀ text, Leads (q text) (q text)) : Leads (p.seq q text) (p.seq q text) := by
  rintro ⟨⟨a, b⟩, rest⟩ hread
  obtain ⟨middle, ha, hb⟩ := mem_seq.1 hread
  have hleads : Leads (q way.2) (q middle) := by
    obtain ⟨others, hp, hothers⟩ := h
    rw [hp] at ha
    rcases List.mem_cons.1 ha with rfl | hmem
    · exact hq middle
    · exact hothers _ hmem
  obtain ⟨next, hnext, hle⟩ := hleads _ hb
  exact ⟨_, by rw [h.head?, hnext]; rfl, hle⟩

theorem commits_maybe_none (hp : p text = []) : Commits p.maybe q text (none, text) :=
  ⟨[], by simp [maybe, map, hp], by simp⟩

/-- Where `q` can follow neither another way nor none at all, reading `p` is forced. -/
theorem commits_maybe_some {way : α × List Char} {others : List (α × List Char)}
    (hp : p text = way :: others) (hothers : ∀ other ∈ others, q other.2 = [])
    (hnone : q text = []) : Commits p.maybe q text (some way.1, way.2) := by
  refine ⟨p.maybe text |>.tail, by simp [maybe, map, hp], ?_⟩
  intro other hother
  have hnil : q other.2 = [] := by
    simp only [maybe, map, hp, List.map_cons, List.cons_append, List.tail_cons, List.mem_append,
      List.mem_map, List.mem_singleton] at hother
    rcases hother with ⟨way', hway, rfl⟩ | rfl
    · exact hothers way' hway
    · exact hnone
  rw [hnil]
  exact leads_nil _

end Pattern

end JvmLint.Format

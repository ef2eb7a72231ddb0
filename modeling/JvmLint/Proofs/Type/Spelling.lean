import JvmLint.Proofs.Outcome
import JvmLint.Type.Reader

/-!
# Types and their descriptors

Descriptors have no separators: where one ends is known from its own text. The main
result, `parseWith_descriptor`, says that a type is read back from its descriptor, whatever
text follows, and a method from that of any number of types in a row. It holds of the types
that a descriptor can spell (`JavaType.Spellable`) and of every reader that meets
`Descriptor.Reader.Laws`:

* `type_eq`: one descriptor is read from the front, and what follows it is ignored.
* `letter`, `className`, `levels`: where a descriptor ends.
* `result`, `parameter`: a method is read one descriptor after the other.

The reader that the program runs with meets them (`Descriptor.reader_laws`), and it reads
nothing else (`parse_descriptor_iff`).
-/
namespace JvmLint

/-! ## Types that a descriptor spells -/

namespace JavaType

/-- The types that are no arrays and have a spelling: a class has no type arguments, and
its name has neither the character that ends it nor the one that dots are written as. -/
inductive IsElement : JavaType → Prop where
  | primitive (kind : Primitive) : IsElement (.primitive kind)
  | void : IsElement .void
  | ofClass {name : String} (unended : ';' ∉ name.toList) (dotted : '/' ∉ name.toList) :
    IsElement (.ofClass name)

/-- At most as many array levels as can be counted, over a type that has a spelling. -/
def Spellable (type : JavaType) : Prop :=
  ∃ element dimensions, IsElement element ∧ dimensions ≤ Descriptor.maxDimensions ∧
    type = element.arrayOf dimensions

theorem descriptor_arrayOf (dimensions : Nat) (element : JavaType) :
    (element.arrayOf dimensions).descriptor =
      List.replicate dimensions '[' ++ element.descriptor := by
  induction dimensions with
  | zero => rfl
  | succ n ih => rw [arrayOf, descriptor, ih, List.replicate_succ, List.cons_append]

/-- An element starts with a letter: it is no further array level, and not the word for
the null type. -/
theorem IsElement.exists_cons {element : JavaType} (h : element.IsElement) :
    ∃ c cs, element.descriptor = c :: cs ∧ c ≠ '[' ∧ c ≠ 'n' := by
  cases h with
  | primitive kind => cases kind <;> exact ⟨_, _, rfl, by decide, by decide⟩
  | void => exact ⟨_, _, rfl, by decide, by decide⟩
  | ofClass => exact ⟨_, _, rfl, by decide, by decide⟩

theorem Spellable.exists_cons {type : JavaType} (h : type.Spellable) :
    ∃ c cs, type.descriptor = c :: cs ∧ c ≠ 'n' := by
  obtain ⟨element, dimensions, helement, -, rfl⟩ := h
  obtain ⟨c, cs, hcons, -, hnull⟩ := helement.exists_cons
  rw [descriptor_arrayOf, hcons]
  cases dimensions with
  | zero => exact ⟨c, cs, rfl, hnull⟩
  | succ n => exact ⟨'[', _, rfl, by decide⟩

end JavaType

/-! ## Readers -/

namespace Descriptor

/-- What is asked of a reader. `next` is what it finds at the front of a text, and the text
behind that. -/
structure Reader.Laws {ε : Type} (reader : Reader ε)
    (next : List Char → Except ε (TypeDescriptor × List Char)) : Prop where
  /-- One descriptor is read from the front, and what follows it is ignored. -/
  type_eq (text : String) : reader.type text = (next text.toList).map Prod.fst
  /-- A letter is a descriptor of its own. -/
  letter {c : Char} {type : TypeDescriptor} (rest : List Char) :
    (c, type) ∈ letters → next (c :: rest) = .ok (type, rest)
  /-- A class name goes up to the first semicolon. -/
  className {name : List Char} (rest : List Char) : ';' ∉ name →
    next ('L' :: (name ++ ';' :: rest)) = .ok (.object (String.ofList name), rest)
  /-- Array levels are counted, up to the largest number of them. -/
  levels {dimensions : Nat} {text rest : List Char} {element : TypeDescriptor} :
    0 < dimensions → dimensions ≤ maxDimensions → text.head? ≠ some '[' →
      next text = .ok (element, rest) →
        next (List.replicate dimensions '[' ++ text) = .ok (.array element dimensions, rest)
  /-- Behind the closing parenthesis, one descriptor is read. -/
  result {text rest : List Char} {type : TypeDescriptor} : next text = .ok (type, rest) →
    reader.method (String.ofList ('(' :: ')' :: text)) = .ok ⟨[], type⟩
  /-- Before it, a descriptor is the first of the parameters, and the others are read from
  what follows it. -/
  parameter {text rest : List Char} {type result : TypeDescriptor} {others : List TypeDescriptor} :
    next text = .ok (type, rest) →
      reader.method (String.ofList ('(' :: rest)) = .ok ⟨others, result⟩ →
        reader.method (String.ofList ('(' :: text)) = .ok ⟨type :: others, result⟩

/-! ## Reading what was written -/

theorem dotted_slashed {name : List Char} (h : '/' ∉ name) : dotted (slashed name) = name := by
  rw [dotted, slashed, List.map_map]
  refine (List.map_congr_left fun c hc => ?_).trans (List.map_id name)
  have hc : c ≠ '/' := fun heq => h (heq ▸ hc)
  by_cases hdot : c = '.' <;> simp [hdot, hc]

theorem not_mem_slashed {name : List Char} (h : ';' ∉ name) : ';' ∉ slashed name := by
  rw [slashed, List.mem_map]
  rintro ⟨c, hc, heq⟩
  split at heq
  · cases heq
  · exact h (heq ▸ hc)

/-- Every primitive type has its letter. -/
theorem exists_mem_letters (kind : Primitive) :
    ∃ type, (letter kind, type) ∈ letters ∧ type.javaType = .primitive kind := by
  cases kind <;> simp [letters, letter, TypeDescriptor.javaType]

namespace Reader.Laws

variable {ε : Type} {reader : Reader ε}
  {next : List Char → Except ε (TypeDescriptor × List Char)} (laws : reader.Laws next)
include laws

theorem next_element {element : JavaType} (h : element.IsElement) :
    ∃ type : TypeDescriptor, type.javaType = element ∧
      ∀ rest, next (element.descriptor ++ rest) = .ok (type, rest) := by
  cases h with
  | primitive kind =>
    obtain ⟨type, hmem, htype⟩ := exists_mem_letters kind
    exact ⟨type, htype, fun rest => laws.letter rest hmem⟩
  | void => exact ⟨.void, rfl, fun rest => laws.letter rest (by simp [letters])⟩
  | @ofClass name hunended hdotted =>
    refine ⟨.object (String.ofList (slashed name.toList)), ?_, fun rest => ?_⟩
    · rw [TypeDescriptor.javaType, String.toList_ofList, dotted_slashed hdotted,
        String.ofList_toList]
    · have htext : (JavaType.ofClass name).descriptor ++ rest =
          'L' :: (slashed name.toList ++ ';' :: rest) := by
        simp [JavaType.descriptor]
      rw [htext]
      exact laws.className rest (not_mem_slashed hunended)

/-- A descriptor is found at the front, and what follows it is left. -/
theorem next_descriptor {type : JavaType} (h : type.Spellable) :
    ∃ spelled : TypeDescriptor, spelled.javaType = type ∧
      ∀ rest, next (type.descriptor ++ rest) = .ok (spelled, rest) := by
  obtain ⟨element, dimensions, helement, hle, rfl⟩ := h
  obtain ⟨spelled, hspelled, hnext⟩ := laws.next_element helement
  cases dimensions with
  | zero => exact ⟨spelled, hspelled, hnext⟩
  | succ n =>
    refine ⟨.array spelled (n + 1), by rw [TypeDescriptor.javaType, hspelled], fun rest => ?_⟩
    have hhead : (element.descriptor ++ rest).head? ≠ some '[' := by
      obtain ⟨c, cs, hcons, hne, -⟩ := helement.exists_cons
      simpa [hcons] using hne
    rw [JavaType.descriptor_arrayOf, List.append_assoc]
    exact laws.levels (Nat.succ_pos n) hle hhead (hnext rest)

/-- Descriptors in a row are told apart, however many they are. -/
theorem method_descriptors {types : List JavaType} {result : JavaType}
    (htypes : ∀ type ∈ types, type.Spellable) (hresult : result.Spellable) :
    ∃ spelled : MethodDescriptor, spelled.methodType = ⟨types, result⟩ ∧
      ∀ rest, reader.method (String.ofList
        ('(' :: (types.flatMap JavaType.descriptor ++ ')' :: (result.descriptor ++ rest)))) =
          .ok spelled := by
  -- without its first parameter the text is again that of a method
  induction types with
  | nil =>
    obtain ⟨spelled, hspelled, hnext⟩ := laws.next_descriptor hresult
    exact ⟨⟨[], spelled⟩, by rw [MethodDescriptor.methodType, hspelled]; rfl,
      fun rest => laws.result (hnext rest)⟩
  | cons type types ih =>
    rw [List.forall_mem_cons] at htypes
    obtain ⟨spelled, hspelled, hnext⟩ := laws.next_descriptor htypes.1
    obtain ⟨⟨others, last⟩, hothers, hmethod⟩ := ih htypes.2
    refine ⟨⟨spelled :: others, last⟩, ?_, fun rest => ?_⟩
    · cases hothers
      rw [MethodDescriptor.methodType, List.map_cons, hspelled]
    · rw [List.flatMap_cons, List.append_assoc]
      exact laws.parameter (hnext _) (hmethod rest)

theorem parseWith_type {type : JavaType} (h : type.Spellable) (rest : String) :
    JavaType.parseWith reader (String.ofList type.descriptor ++ rest) = .ok type := by
  have htext : (String.ofList type.descriptor ++ rest).toList = type.descriptor ++ rest.toList := by
    simp
  have hnull : String.ofList type.descriptor ++ rest ≠ "null" := by
    obtain ⟨c, cs, hcons, hne⟩ := h.exists_cons
    intro heq
    rw [heq, hcons, List.cons_append] at htext
    exact hne (List.cons.inj htext).1.symm
  obtain ⟨spelled, hspelled, hnext⟩ := laws.next_descriptor h
  rw [JavaType.parseWith, if_neg hnull, laws.type_eq, htext, hnext, ← hspelled]
  rfl

theorem parseWith_method {method : MethodType}
    (hparameters : ∀ type ∈ method.parameters, type.Spellable)
    (hresult : method.result.Spellable) (rest : String) :
    MethodType.parseWith reader (String.ofList method.descriptor ++ rest) = .ok method := by
  have htext : String.ofList method.descriptor ++ rest = String.ofList
      ('(' :: (method.parameters.flatMap JavaType.descriptor ++
        ')' :: (method.result.descriptor ++ rest.toList))) := by
    rw [← String.toList_inj]
    simp [MethodType.descriptor]
  obtain ⟨spelled, hspelled, hmethod⟩ := laws.method_descriptors hparameters hresult
  rw [MethodType.parseWith, htext, hmethod, Except.map, hspelled]

end Reader.Laws

/-! ## The reader of the program -/

variable {text rest : List Char} {type : TypeDescriptor}

theorem readElement_className {name : List Char} (h : ';' ∉ name) (rest : List Char) :
    readElement ('L' :: (name ++ ';' :: rest)) = .ok (.object (String.ofList name), rest) := by
  have hname : ∀ c ∈ name, (c != ';') = true := by
    intro c hc
    exact bne_iff_ne.2 fun heq => h (heq ▸ hc)
  simp [readElement, List.takeWhile_append_of_pos hname, List.dropWhile_append_of_pos hname]

theorem readElement_letter {c : Char} (h : (c, type) ∈ letters) (rest : List Char) :
    readElement (c :: rest) = .ok (type, rest) := by
  cases type with
  | object name => simp [letters] at h
  | array element dimensions => simp [letters] at h
  | _ =>
    obtain rfl := by simpa [letters] using h
    rfl

/-- The array levels end where another character stands. -/
theorem split_levels (dimensions : Nat) (hhead : text.head? ≠ some '[') :
    (List.replicate dimensions '[' ++ text).takeWhile (· == '[') = List.replicate dimensions '[' ∧
      (List.replicate dimensions '[' ++ text).dropWhile (· == '[') = text := by
  have hlevels : ∀ c ∈ List.replicate dimensions '[', (c == '[') = true := by
    intro c hc
    rw [List.eq_of_mem_replicate hc]
    rfl
  rw [List.takeWhile_append_of_pos hlevels, List.dropWhile_append_of_pos hlevels]
  cases text <;> simp_all

theorem read_eq_ok_iff : read text = .ok (type, rest) ↔
    (text.takeWhile (· == '[')).length ≤ maxDimensions ∧
      ∃ element, readElement (text.dropWhile (· == '[')) = .ok (element, rest) ∧
        type = if (text.takeWhile (· == '[')).length = 0 then element
          else .array element (text.takeWhile (· == '[')).length := by
  simp only [read]
  constructor
  · intro h
    split at h
    · cases h
    · rename_i hle
      split at h
      · rename_i element rest' heq
        cases h
        exact ⟨Nat.not_lt.1 hle, element, heq, rfl⟩
      · cases h
      · cases h
  · rintro ⟨hle, element, helement, rfl⟩
    rw [if_neg (Nat.not_lt.2 hle), helement]

/-- Where there are no array levels, an element is read. -/
theorem read_iff_readElement (hhead : text.head? ≠ some '[') :
    read text = .ok (type, rest) ↔ readElement text = .ok (type, rest) := by
  obtain ⟨htake, hdrop⟩ := split_levels 0 hhead
  rw [List.replicate_zero, List.nil_append] at htake hdrop
  simp [read_eq_ok_iff, htake, hdrop]

/-- No descriptor starts with the parenthesis behind the parameters. -/
theorem ne_closing_of_read (h : read text = .ok (type, rest)) (others : List Char) :
    text ≠ ')' :: others := by
  rintro rfl
  simp [read, readElement] at h

theorem readParameters_cons {types : List TypeDescriptor} {behind : List Char}
    (h : read text = .ok (type, rest)) (hrest : readParameters rest = .ok (types, behind)) :
    readParameters text = .ok (type :: types, behind) := by
  rw [readParameters]
  · split
    · rename_i heq
      rw [h] at heq
      cases heq
    · rename_i heq
      rw [h] at heq
      cases heq
      rw [hrest]
  · exact ne_closing_of_read h

theorem readMethod_eq_ok_iff {method : MethodDescriptor} :
    readMethod ('(' :: text) = .ok method ↔
      ∃ behind rest, readParameters text = .ok (method.parameterTypes, behind) ∧
        read behind = .ok (method.returnType, rest) := by
  simp only [readMethod]
  constructor
  · intro h
    split at h
    · cases h
    · cases h
    · rename_i hparameters
      split at h
      · cases h
      · rename_i hresult
        cases h
        exact ⟨_, _, hparameters, hresult⟩
  · rintro ⟨behind, rest, hparameters, hresult⟩
    rw [hparameters]
    split
    · rename_i heq
      cases heq
    · rename_i heq
      cases heq
      exact absurd rfl (ne_closing_of_read hresult _)
    · rename_i heq
      cases heq
      rw [hresult]

/-- The reader of the program is one that reads what was written. -/
theorem reader_laws : reader.Laws read where
  type_eq _ := rfl
  letter {c type} rest h := by
    have hhead : (c :: rest).head? ≠ some '[' := by
      rintro ⟨⟩
      simp [letters] at h
    exact (read_iff_readElement hhead).2 (readElement_letter h rest)
  className rest h := (read_iff_readElement (by simp)).2 (readElement_className h rest)
  levels {dimensions text rest element} hpos hle hhead h := by
    obtain ⟨htake, hdrop⟩ := split_levels dimensions hhead
    rw [read_eq_ok_iff, htake, hdrop, List.length_replicate]
    refine ⟨hle, element, (read_iff_readElement hhead).1 h, ?_⟩
    rw [if_neg (Nat.pos_iff_ne_zero.1 hpos)]
  result {text rest type} h := by
    have hparameters : readParameters (')' :: text) = .ok ([], text) := by rw [readParameters]
    simp only [reader, String.toList_ofList, readMethod_eq_ok_iff]
    exact ⟨text, rest, hparameters, h⟩
  parameter {text rest type result others} h hothers := by
    simp only [reader, String.toList_ofList, readMethod_eq_ok_iff] at hothers ⊢
    obtain ⟨behind, rest', hparameters, hresult⟩ := hothers
    exact ⟨behind, rest', readParameters_cons h hparameters, hresult⟩

/-! ## What is read can be written -/

theorem not_mem_dotted {name : List Char} : '/' ∉ dotted name := by
  rw [dotted, List.mem_map]
  rintro ⟨c, -, heq⟩
  split at heq
  · cases heq
  · rename_i hne
    exact hne heq

theorem not_mem_dotted_takeWhile (text : List Char) :
    ';' ∉ dotted (text.takeWhile (· != ';')) := by
  rw [dotted, List.mem_map]
  rintro ⟨c, hc, heq⟩
  split at heq
  · cases heq
  · rw [heq] at hc
    exact Bool.false_ne_true (List.all_eq_true.1 List.all_takeWhile _ hc)

theorem isElement_of_mem_letters {c : Char} (h : (c, type) ∈ letters) :
    type.javaType.IsElement := by
  cases type with
  | object name => simp [letters] at h
  | array element dimensions => simp [letters] at h
  | _ => constructor

theorem isElement_of_readElement (h : readElement text = .ok (type, rest)) :
    type.javaType.IsElement := by
  unfold readElement at h
  split at h
  · cases h
  · rename_i c cs
    split at h
    · cases h
    · split at h
      · split at h
        · cases h
        · cases h
          rw [TypeDescriptor.javaType, String.toList_ofList]
          refine .ofClass ?_ ?_
          · rw [String.toList_ofList]
            exact not_mem_dotted_takeWhile cs
          · rw [String.toList_ofList]
            exact not_mem_dotted
      · split at h
        · rename_i heq
          cases h
          exact isElement_of_mem_letters (List.mem_of_find?_eq_some heq)
        · cases h

theorem spellable_of_read (h : read text = .ok (type, rest)) : type.javaType.Spellable := by
  obtain ⟨hle, element, helement, rfl⟩ := read_eq_ok_iff.1 h
  refine ⟨element.javaType, _, isElement_of_readElement helement, hle, ?_⟩
  split
  · rename_i hzero
    rw [hzero]
    rfl
  · rfl

theorem spellable_of_readParameters {types : List TypeDescriptor}
    (h : readParameters text = .ok (types, rest)) : ∀ type ∈ types, type.javaType.Spellable := by
  fun_induction readParameters text generalizing types rest with
  | case1 rest' =>
    cases h
    simp
  | case2 text hclosing error hread => cases h
  | case3 text hclosing first rest' hread error hrest ih => cases h
  | case4 text hclosing first rest' hread others rest'' hrest ih =>
    cases h
    exact List.forall_mem_cons.2 ⟨spellable_of_read hread, ih hrest⟩

theorem spellable_of_readMethod {method : MethodDescriptor} (h : readMethod text = .ok method) :
    (∀ type ∈ method.parameterTypes, type.javaType.Spellable) ∧
      method.returnType.javaType.Spellable := by
  have hopening : ∃ types, text = '(' :: types := by
    unfold readMethod at h
    split at h
    · exact ⟨_, rfl⟩
    · cases h
  obtain ⟨types, rfl⟩ := hopening
  obtain ⟨behind, rest, hparameters, hresult⟩ := readMethod_eq_ok_iff.1 h
  exact ⟨spellable_of_readParameters hparameters, spellable_of_read hresult⟩

end Descriptor

/-- Only the null type has a spelling that must not be followed by anything. -/
theorem JavaType.spellable_of_parse {type : JavaType} {text : String} (hnull : text ≠ "null")
    (h : parse text = .ok type) : type.Spellable := by
  rw [parse, parseWith, if_neg hnull, Descriptor.reader_laws.type_eq] at h
  obtain ⟨spelled, hspelled, rfl⟩ := exists_of_map_eq_ok h
  obtain ⟨⟨_, rest⟩, hread, rfl⟩ := exists_of_map_eq_ok hspelled
  exact Descriptor.spellable_of_read hread

theorem MethodType.spellable_of_parse {method : MethodType} {text : String}
    (h : parse text = .ok method) :
    (∀ type ∈ method.parameters, type.Spellable) ∧ method.result.Spellable := by
  obtain ⟨spelled, hread, rfl⟩ := exists_of_map_eq_ok h
  obtain ⟨hparameters, hresult⟩ := Descriptor.spellable_of_readMethod hread
  exact ⟨List.forall_mem_map.2 hparameters, hresult⟩

/-- The program recovers no other types: a type is read back from its descriptor, with any
text behind it, exactly if it is spellable, and a method exactly if its types are. -/
theorem parse_descriptor_iff :
    (∀ type : JavaType,
      (∀ rest, JavaType.parse (String.ofList type.descriptor ++ rest) = .ok type) ↔
        type.Spellable) ∧
    ∀ method : MethodType,
      (∀ rest, MethodType.parse (String.ofList method.descriptor ++ rest) = .ok method) ↔
        (∀ type ∈ method.parameters, type.Spellable) ∧ method.result.Spellable := by
  refine ⟨fun type => ⟨fun h => ?_, Descriptor.reader_laws.parseWith_type⟩, fun method =>
    ⟨fun h => MethodType.spellable_of_parse (h ""),
      fun h => Descriptor.reader_laws.parseWith_method h.1 h.2⟩⟩
  -- the word for the null type is none with another character behind it
  refine JavaType.spellable_of_parse ?_ (h "x")
  intro heq
  have hlast := congrArg (fun text => text.toList.getLast?) heq
  simp at hlast

/-! ## The main result -/

/-- **Descriptors are read back.** With a reader that meets the laws, a type is read back from
its descriptor, whatever text follows, if it has at most 255 array levels over a primitive
type, `void`, or a class without type arguments in whose name there is no semicolon and no
slash; and a method is, with all its parameters in order, if its parameters and its result are
such types. -/
theorem parseWith_descriptor {ε : Type} {reader : Descriptor.Reader ε}
    {next : List Char → Except ε (TypeDescriptor × List Char)} (laws : reader.Laws next) :
    (∀ type : JavaType, type.Spellable → ∀ rest,
      JavaType.parseWith reader (String.ofList type.descriptor ++ rest) = .ok type) ∧
    ∀ method : MethodType,
      (∀ type ∈ method.parameters, type.Spellable) → method.result.Spellable → ∀ rest,
        MethodType.parseWith reader (String.ofList method.descriptor ++ rest) = .ok method :=
  ⟨fun _ h => laws.parseWith_type h, fun _ => laws.parseWith_method⟩

/-- A class whose name looks like other descriptors. -/
def confusingClass : JavaType := .ofClass "a.[I)L(V.b$"

/-- `confusingClass[][] m(int, confusingClass, void[])` -/
def confusingMethod : MethodType where
  parameters := [.primitive .int, confusingClass, .array .void]
  result := .array (.array confusingClass)

theorem parseWith_descriptor_confusing :
    Descriptor.reader.Laws Descriptor.read ∧
    (∀ type ∈ confusingMethod.parameters, type.Spellable) ∧ confusingMethod.result.Spellable ∧
    String.ofList confusingMethod.descriptor = "(ILa/[I)L(V/b$;[V)[[La/[I)L(V/b$;" ∧
    MethodType.parse "(ILa/[I)L(V/b$;[V)[[La/[I)L(V/b$;;Lrest" = .ok confusingMethod := by
  have hclass : confusingClass.IsElement := .ofClass (by decide +kernel) (by decide +kernel)
  have hresult : confusingMethod.result.Spellable := ⟨_, 2, hclass, by decide, rfl⟩
  have hparameters : ∀ type ∈ confusingMethod.parameters, type.Spellable := by
    intro type hmem
    simp only [confusingMethod, List.mem_cons, List.not_mem_nil, or_false] at hmem
    rcases hmem with rfl | rfl | rfl
    · exact ⟨_, 0, .primitive .int, by decide, rfl⟩
    · exact ⟨_, 0, hclass, by decide, rfl⟩
    · exact ⟨_, 1, .void, by decide, rfl⟩
  have htext : String.ofList confusingMethod.descriptor = "(ILa/[I)L(V/b$;[V)[[La/[I)L(V/b$;" := by
    decide +kernel
  have hread := (parseWith_descriptor Descriptor.reader_laws).2 confusingMethod hparameters hresult
    ";Lrest"
  rw [htext] at hread
  exact ⟨Descriptor.reader_laws, hparameters, hresult, htext, hread⟩

end JvmLint

/-
# The text of a directive determines it

The text of a field lists its kind and, behind it, every attribute that is not at
its default. No two attributes share a name, and no name has a comma in it; so the
text determines the list and the list determines the field. The text of a literal
quotes its bytes, and `Quoted.ofBytes` is injective.
-/

import BitRecord.Directive.Describe
import BitRecord.Proofs.Text.Quoted
import Mathlib.Data.List.Nodup

namespace BitRecord

/-! ## Names -/

/-- An attribute that the text of a field can list behind the kind. -/
inductive Flag where
  | count (number : Nat)
  | order (value : Order)
  | aligned
  | fill (value : Fill)
  | shape (value : Shape)
  deriving DecidableEq

namespace Flag

/-- The name of an attribute. -/
def name : Flag → String
  | count number => "x" ++ toString number
  | order value => value.name
  | aligned => alignmentName
  | fill value => value.name
  | shape value => value.name

/-- The attributes that have a name without a number. -/
def named : List Flag :=
  [order .native, order .little, order .big, aligned, fill .zeros, fill .ones, fill .random,
    shape .scalar, shape .array]

theorem count_or_mem_named (flag : Flag) : (∃ number, flag = count number) ∨ flag ∈ named := by
  cases flag with
  | count number => exact .inl ⟨number, rfl⟩
  | aligned => exact .inr (by decide)
  | order value => cases value <;> exact .inr (by decide)
  | fill value => cases value <;> exact .inr (by decide)
  | shape value => cases value <;> exact .inr (by decide)

/-- Names without a number are distinct, start with no small letter and have no comma. -/
theorem named_spec : (named.map name).Nodup ∧ ∀ flag ∈ named,
    flag.name.toList.head? ≠ some 'x' ∧ ',' ∉ flag.name.toList := by
  decide

theorem toList_name_count (number : Nat) :
    (count number).name.toList = 'x' :: Nat.toDigits 10 number := by
  rw [name, String.toList_append, Nat.toString_eq_repr, Nat.toList_repr]
  rfl

/-- Different attributes have different names. -/
theorem name_injective : Function.Injective name := by
  intro first second same
  rcases count_or_mem_named first with ⟨number, rfl⟩ | first_named
  · rcases count_or_mem_named second with ⟨other, rfl⟩ | second_named
    · have characters := congrArg String.toList same
      rw [toList_name_count, toList_name_count] at characters
      have digits := List.tail_eq_of_cons_eq characters
      have numbers : number = other := by
        rw [← @Nat.ofDigitChars_ten_toDigits number, digits, Nat.ofDigitChars_ten_toDigits]
      rw [numbers]
    · refine absurd ?_ (named_spec.2 second second_named).1
      rw [← same, toList_name_count, List.head?_cons]
  · rcases count_or_mem_named second with ⟨other, rfl⟩ | second_named
    · refine absurd ?_ (named_spec.2 first first_named).1
      rw [same, toList_name_count, List.head?_cons]
    · exact List.inj_on_of_nodup_map named_spec.1 first_named second_named same

theorem comma_notMem_name (flag : Flag) : ',' ∉ flag.name.toList := by
  rcases count_or_mem_named flag with ⟨number, rfl⟩ | flag_named
  · rw [toList_name_count, List.mem_cons, not_or]
    refine ⟨by decide, fun comma => ?_⟩
    have digit := Nat.isDigit_of_mem_toDigits (by decide) (by decide) comma
    contradiction
  · exact (named_spec.2 flag flag_named).2

end Flag

/-- Different kinds have different names. -/
theorem Kind.name_injective : Function.Injective Kind.name := by
  intro first second same
  have listed (kind : Kind) : kind ∈ [bit, byte, word16, word32, word64, string] := by
    cases kind <;> decide
  exact List.inj_on_of_nodup_map (by decide) (listed first) (listed second) same

theorem Kind.comma_notMem_name (kind : Kind) : ',' ∉ kind.name.toList := by
  cases kind <;> decide

/-- A text between two fixed texts is determined by the whole. -/
private theorem enclosed_injective (front back : String) :
    Function.Injective fun inside => front ++ inside ++ back := by
  intro first second same
  have characters := congrArg String.toList same
  simp only [String.toList_append] at characters
  exact String.toList_injective (List.append_cancel_left (List.append_cancel_right characters))

/-! ## Fields -/

namespace Field

/-- The attributes of a field that are not at their default. -/
def flags (field : Field) : List Flag :=
  (if field.count = 1 then [] else [.count field.count])
    ++ (if field.order = .native then [] else [.order field.order])
    ++ (if field.aligned then [.aligned] else [])
    ++ (field.fill.map Flag.fill).toList
    ++ (if field.shape = .scalar then [] else [.shape field.shape])

/-- Whether the text of a field lists an attribute. -/
def Lists (field : Field) : Flag → Prop
  | .count number => field.count ≠ 1 ∧ number = field.count
  | .order value => field.order ≠ .native ∧ value = field.order
  | .aligned => field.aligned = true
  | .fill value => field.fill = some value
  | .shape value => field.shape ≠ .scalar ∧ value = field.shape

variable {first second : Field}

theorem attributes_eq (field : Field) :
    field.attributes = field.kind.name :: field.flags.map Flag.name := by
  simp only [attributes, flags, List.map_append, apply_ite (List.map Flag.name)]
  cases field.fill <;> rfl

theorem mem_flags_iff (field : Field) (flag : Flag) : flag ∈ field.flags ↔ field.Lists flag := by
  cases flag <;> simp [flags, Lists]

/-- A value is determined by its name where this is left out for the default only. -/
private theorem eq_of_listed {α : Type} {first second default : α}
    (same : ∀ value, (first ≠ default ∧ value = first) ↔ (second ≠ default ∧ value = second)) :
    first = second := by
  by_cases at_default : first = default
  · by_cases other : second = default
    · rw [at_default, other]
    · exact ((same second).mpr ⟨other, rfl⟩).2.symm
  · exact ((same first).mp ⟨at_default, rfl⟩).2

/-- Fields of the same kind with the same flags are equal. -/
theorem eq_of_flags (kinds : first.kind = second.kind) (same : first.flags = second.flags) :
    first = second := by
  have lists (flag : Flag) : first.Lists flag ↔ second.Lists flag := by
    rw [← mem_flags_iff, ← mem_flags_iff, same]
  have counts : first.count = second.count := eq_of_listed fun number => lists (.count number)
  have orders : first.order = second.order := eq_of_listed fun value => lists (.order value)
  have alignments : first.aligned = second.aligned := Bool.eq_iff_iff.mpr (lists .aligned)
  have fills : first.fill = second.fill := Option.ext fun value => lists (.fill value)
  have shapes : first.shape = second.shape := eq_of_listed fun value => lists (.shape value)
  cases first
  cases second
  cases kinds
  cases counts
  cases orders
  cases alignments
  cases fills
  cases shapes
  rfl

/-- No name in the text of a field has a comma in it. -/
theorem comma_notMem_of_mem_attributes (field : Field) {name : String}
    (listed : name ∈ field.attributes) : ',' ∉ name.toList := by
  rw [attributes_eq, List.mem_cons] at listed
  rcases listed with rfl | listed
  · exact field.kind.comma_notMem_name
  · obtain ⟨flag, -, rfl⟩ := List.mem_map.mp listed
    exact flag.comma_notMem_name

/-- The attributes of a field are what stands between the commas of its text. -/
theorem splitOn_intercalate_attributes (field : Field) :
    ((",".intercalate field.attributes).toList).splitOn ',' =
      field.attributes.map String.toList := by
  rw [String.toList_intercalate]
  refine List.splitOn_intercalate ',' (fun name listed => ?_) ?_
  · obtain ⟨_, own, rfl⟩ := List.mem_map.mp listed
    exact field.comma_notMem_of_mem_attributes own
  · rw [attributes_eq, List.map_cons]
    exact List.cons_ne_nil _ _

/-- Different fields have different texts. -/
theorem describe_injective : Function.Injective Field.describe := by
  intro first second same
  have inside := enclosed_injective _ _ same
  have names : first.attributes.map String.toList = second.attributes.map String.toList := by
    rw [← splitOn_intercalate_attributes, ← splitOn_intercalate_attributes, inside]
  have attributes := List.map_injective_iff.mpr (fun _ _ => String.toList_injective) names
  rw [attributes_eq, attributes_eq] at attributes
  have flags := List.map_injective_iff.mpr Flag.name_injective (List.tail_eq_of_cons_eq attributes)
  exact eq_of_flags (Kind.name_injective (List.head_eq_of_cons_eq attributes)) flags

end Field

/-! ## Directives -/

namespace Directive

/-- Different literals have different texts. -/
theorem describe_literal_injective : Function.Injective fun data => (literal data).describe :=
  (enclosed_injective _ _).comp Quoted.ofBytes_injective

/-- The texts of fields and of literals differ in their second character. -/
private theorem openings_apart (first second : String) :
    "<FieldDirective(" ++ first ++ ")>" ≠ "<LiteralDirective(" ++ second ++ ")>" := by
  intro same
  have second_character := congrArg (fun text => text.toList[1]?) same
  simp only [String.toList_append, List.append_assoc] at second_character
  rw [List.getElem?_append_left (by decide), List.getElem?_append_left (by decide)]
    at second_character
  exact absurd second_character (by decide)

/-- No field has the text of a literal. -/
theorem describe_field_ne_literal (given : Field) (data : Bytes) :
    (field given).describe ≠ (literal data).describe :=
  openings_apart _ _

/-- `describe` is injective: fields with the same text have the same attributes, literals with the
same text have the same bytes, and no field has the text of a literal. -/
theorem describe_tells_apart :
    (∀ first second : Field, (field first).describe = (field second).describe ↔ first = second) ∧
      (∀ first second : Bytes,
        (literal first).describe = (literal second).describe ↔ first = second) ∧
      ∀ (given : Field) (data : Bytes), (field given).describe ≠ (literal data).describe :=
  ⟨fun _ _ => Field.describe_injective.eq_iff, fun _ _ => describe_literal_injective.eq_iff,
    describe_field_ne_literal⟩

/-- The kind and the alignment share the name `BYTE`, in different places of the text. -/
example :
    (field ⟨.byte, 1, .native, false, none, .scalar⟩).describe = "<FieldDirective(BYTE)>" ∧
      (field ⟨.bit, 1, .native, true, none, .scalar⟩).describe = "<FieldDirective(BIT,BYTE)>" := by
  decide +kernel

end Directive

end BitRecord

/-
# Which values are accepted

The rules of a field for its value are stated here without the checks of
`Field.bind`: `Accepts` relates a value that suits a field to its payload,
`Refuses` any other value to the cause of its refusal and the family of the
cause. Binding succeeds on the former and fails on the latter (`Field.bind_iff`).
Ranges of values, kinds of sequences and the order of the checks are settled
here, one value at a time.
-/

import BitRecord.Proofs.Argument.Binding

namespace BitRecord

/-- Whether an integer is in the signed or in the unsigned range of a width. -/
def InWidth (width : Nat) (number : Int) : Prop := -(2 ^ (width - 1)) ≤ number ∧ number < 2 ^ width

instance (width : Nat) (number : Int) : Decidable (InWidth width number) :=
  inferInstanceAs (Decidable (_ ∧ _))

/-- A power of two up to `2 ^ width` divides an integer exactly when it divides its `lowBits`. -/
theorem lowBits_mod_eq_zero_iff {width amount : Nat} (inside : amount ≤ width) (number : Int) :
    lowBits number width % 2 ^ amount = 0 ↔ (2 ^ amount : Int) ∣ number := by
  have bound : (0 : Int) < 2 ^ width := Int.pow_pos (by omega)
  have low : (lowBits number width : Int) = number % 2 ^ width :=
    Int.toNat_of_nonneg (Int.emod_nonneg number (Int.ne_of_gt bound))
  have divides : (2 ^ amount : Int) ∣ 2 ^ width := by
    exact_mod_cast Nat.pow_dvd_pow 2 inside
  rw [Int.dvd_iff_emod_eq_zero, ← Int.emod_emod_of_dvd number divides, ← low]
  norm_cast

/-- Sufficient conditions for a success and for a failure are also necessary when one of them always
holds. -/
theorem result_iff_of_complete {ε α : Type} {result : Except ε α} {accepts : α → Prop}
    {refuses : ε → Prop} (success : ∀ {value}, accepts value → result = .ok value)
    (failure : ∀ {cause}, refuses cause → result = .error cause)
    (complete : (∃ value, accepts value) ∨ ∃ cause, refuses cause) :
    (∀ value, result = .ok value ↔ accepts value) ∧
      ∀ cause, result = .error cause ↔ refuses cause := by
  rcases complete with ⟨found, accepted⟩ | ⟨found, refused⟩
  · refine ⟨fun value => ⟨fun same => ?_, success⟩, fun cause => ⟨fun same => ?_, failure⟩⟩
    · obtain rfl := Except.ok.inj ((success accepted).symm.trans same)
      exact accepted
    · rw [success accepted] at same
      contradiction
  · refine ⟨fun value => ⟨fun same => ?_, success⟩, fun cause => ⟨fun same => ?_, failure⟩⟩
    · rw [failure refused] at same
      contradiction
    · obtain rfl := Except.error.inj ((failure refused).symm.trans same)
      exact refused

namespace Value

/-- The elements of a value that counts as a sequence: texts, mappings and iterators do not. -/
def elements? : Value → Option (List Value)
  | list items | tuple items => some items
  | range start stop step => some ((rangeItems start stop step).map integer)
  | buffer holder data => some ((bufferItems holder data).map fun item : Nat => integer item)
  | integer _ | truth _ | null | text _ | decimal _ | mapping _ _ | iterator _ => none

/-- The values that `toUnsigned` refuses for a width, each with the family and the cause. A truth is
no integer. For an integer that is out of range the cause is `outOfRange` when its message can quote
it, and `longInteger` otherwise. -/
inductive RefusedIn (width : Nat) : Value → Family → Cause → Prop
  | notInteger {value : Value} (other : ∀ number, value ≠ .integer number) :
      RefusedIn width value .argumentClass (.notInteger value.valueClass)
  | outOfRange {number : Int} (outside : ¬ InWidth width number)
      (written : DigitLimit.canWrite number = true) :
      RefusedIn width (.integer number) .argumentClass (.outOfRange number width)
  | longInteger {number : Int} (outside : ¬ InWidth width number)
      (long : DigitLimit.canWrite number = false) :
      RefusedIn width (.integer number) .wrongValue .longInteger

variable {value : Value} {width : Nat}

/-- `sequenceLength?` is the length of `elements?`. -/
theorem sequenceLength?_eq (value : Value) :
    value.sequenceLength? = value.elements?.map List.length := by
  cases value <;> simp [sequenceLength?, elements?, rangeItems]

theorem items?_of_elements? {items : List Value} (sequence : value.elements? = some items) :
    value.items? = some items := by
  cases value with
  | integer | truth | null | text | decimal | mapping | iterator => contradiction
  | list | tuple | range | buffer => exact sequence

/-- `toUnsigned` of an integer in range is its `lowBits`. -/
theorem toUnsigned_of_inWidth {number : Int} (width_pos : 0 < width)
    (inside : InWidth width number) :
    (integer number).toUnsigned width = .ok (lowBits number width) := by
  have positive : ¬ (width : Int) ≤ 0 := by omega
  have fits := (fitsWidth_iff width number).mpr inside
  rw [toUnsigned, if_neg positive, Int.toNat_natCast, if_pos fits, twosComplement_eq_lowBits fits]

private theorem toUnsigned_of_not_inWidth {number : Int} (width_pos : 0 < width)
    (outside : ¬ InWidth width number) :
    (integer number).toUnsigned width =
      .error ((Cause.outOfRange number width).ifWritten (DigitLimit.canWrite number)) := by
  have positive : ¬ (width : Int) ≤ 0 := by omega
  have unfit : ¬ fitsWidth width number = true := (fitsWidth_iff width number).not.mpr outside
  rw [toUnsigned, if_neg positive, Int.toNat_natCast, if_neg unfit]

variable {family : Family} {cause : Cause}

/-- `toUnsigned` fails on the values of `RefusedIn` with their causes. -/
theorem RefusedIn.toUnsigned (width_pos : 0 < width)
    (refused : value.RefusedIn width family cause) : value.toUnsigned width = .error cause := by
  cases refused with
  | notInteger other =>
      cases value with
      | integer number => exact absurd rfl (other number)
      | _ => rfl
  | outOfRange outside written =>
      rw [toUnsigned_of_not_inWidth width_pos outside, written, Cause.ifWritten_true]
  | longInteger outside long =>
      rw [toUnsigned_of_not_inWidth width_pos outside, long, Cause.ifWritten_false]

theorem RefusedIn.family_eq (refused : value.RefusedIn width family cause) :
    cause.family = family := by
  cases refused <;> rfl

/-- Every value is an integer in range or refused. -/
theorem inWidth_or_refusedIn (width : Nat) (value : Value) :
    (∃ number, value = .integer number ∧ InWidth width number) ∨
      ∃ family cause, value.RefusedIn width family cause := by
  cases value with
  | integer number =>
      by_cases inside : InWidth width number
      · exact .inl ⟨number, rfl, inside⟩
      · cases written : DigitLimit.canWrite number with
        | true => exact .inr ⟨_, _, .outOfRange inside written⟩
        | false => exact .inr ⟨_, _, .longInteger inside written⟩
  | _ => exact .inr ⟨_, _, .notInteger (by simp)⟩

/-- `toUnsigned` of integers in range succeeds one by one in front of any other values. -/
theorem mapM_toUnsigned_append (width_pos : 0 < width) {numbers : List Int}
    (inside : ∀ number ∈ numbers, InWidth width number) (others : List Value) :
    (numbers.map integer ++ others).mapM (fun item : Value => item.toUnsigned width) =
      (others.mapM fun item : Value => item.toUnsigned width).map
        ((numbers.map fun number => lowBits number width) ++ ·) := by
  induction numbers with
  | nil =>
      cases found : others.mapM fun item : Value => item.toUnsigned width <;>
        simp [Except.map, found]
  | cons number numbers ih =>
      obtain ⟨first, later⟩ := List.forall_mem_cons.mp inside
      rw [List.map_cons, List.cons_append, List.mapM_cons, toUnsigned_of_inWidth width_pos first,
        ih later]
      cases others.mapM fun item : Value => item.toUnsigned width <;> rfl

/-- All values are integers in range, or one is the first that is refused. -/
theorem inWidth_or_first_refusedIn (width : Nat) (items : List Value) :
    ∃ (numbers : List Int) (others : List Value), items = numbers.map integer ++ others ∧
      (∀ number ∈ numbers, InWidth width number) ∧
      (others = [] ∨ ∃ value back family cause, others = value :: back ∧
        value.RefusedIn width family cause) := by
  induction items with
  | nil => exact ⟨[], [], rfl, List.forall_mem_nil _, .inl rfl⟩
  | cons value items ih =>
      obtain ⟨numbers, others, rfl, inside, ending⟩ := ih
      rcases inWidth_or_refusedIn width value with ⟨number, rfl, own⟩ | ⟨family, cause, refused⟩
      · exact ⟨number :: numbers, others, rfl, List.forall_mem_cons.mpr ⟨own, inside⟩, ending⟩
      · exact ⟨[], _, rfl, List.forall_mem_nil _, .inr ⟨value, _, family, cause, rfl, refused⟩⟩

end Value

namespace Field

/-- The values that suit a field, each with its payload. A string field takes all bytes of a string
of bytes. A scalar field takes an integer modulo its width; a left-justified bit run takes one with
no bits below the field. An array field takes a sequence of as many integers as it has elements,
each modulo the width of an element. A range that is too long to be counted has no length. -/
inductive Accepts (field : Field) : Value → Payload → Prop
  | string {value : Value} {data : Bytes} (kind : field.kind = .string)
      (held : value.asBytes? = some data) : Accepts field value (.bytes data)
  | scalar {number : Int} (kind : field.kind ≠ .string) (shape : field.shape = .scalar)
      (inside : InWidth field.scalarWidth number)
      (justified : field.kind = .bit → field.order = .little →
        (2 ^ (field.scalarWidth - field.count) : Int) ∣ number) :
      Accepts field (.integer number) (.integer (lowBits number field.scalarWidth))
  | array {value : Value} {numbers : List Int} (kind : field.kind ≠ .string)
      (shape : field.shape = .array) (sequence : value.elements? = some (numbers.map .integer))
      (countable : value.hasItemsBelow Value.countBound = true)
      (length : numbers.length = field.count)
      (inside : ∀ number ∈ numbers, InWidth field.width number) :
      Accepts field value (.integers (numbers.map fun number => lowBits number field.width))

/-- The values that `Field.bind` refuses for a field, each with the family and the cause:
`Family.argumentClass` for a value of the wrong class, for an integer out of range and for stray
bits, `Family.argumentCount` for a sequence of another length. The length is checked before the
elements, and of these the first one outside of `InWidth` decides. -/
inductive Refuses (field : Field) : Value → Family → Cause → Prop
  | notBytes {value : Value} (kind : field.kind = .string) (other : value.asBytes? = none) :
      Refuses field value .argumentClass (.notBytes value.valueClass)
  | scalar {value : Value} {family : Family} {cause : Cause} (kind : field.kind ≠ .string)
      (shape : field.shape = .scalar) (refused : value.RefusedIn field.scalarWidth family cause) :
      Refuses field value family cause
  | strayBits {number : Int} (kind : field.kind = .bit) (shape : field.shape = .scalar)
      (order : field.order = .little) (inside : InWidth field.scalarWidth number)
      (stray : ¬ (2 ^ (field.scalarWidth - field.count) : Int) ∣ number) :
      Refuses field (.integer number) .argumentClass
        (.strayBits (lowBits number field.scalarWidth) field.count)
  | notSequence {value : Value} (kind : field.kind ≠ .string) (shape : field.shape = .array)
      (other : value.elements? = none) :
      Refuses field value .argumentClass (.notSequence value.valueClass)
  | uncountable {value : Value} {items : List Value} (kind : field.kind ≠ .string)
      (shape : field.shape = .array) (sequence : value.elements? = some items)
      (endless : value.hasItemsBelow Value.countBound = false) :
      Refuses field value .tooMany .uncountable
  | arrayLength {value : Value} {items : List Value} (kind : field.kind ≠ .string)
      (shape : field.shape = .array) (sequence : value.elements? = some items)
      (countable : value.hasItemsBelow Value.countBound = true)
      (length : items.length ≠ field.count) :
      Refuses field value .argumentCount (.arrayLength items.length field.count)
  | element {value item : Value} {numbers : List Int} {back : List Value} {family : Family}
      {cause : Cause} (kind : field.kind ≠ .string) (shape : field.shape = .array)
      (sequence : value.elements? = some (numbers.map .integer ++ item :: back))
      (countable : value.hasItemsBelow Value.countBound = true)
      (length : (numbers.map Value.integer ++ item :: back).length = field.count)
      (inside : ∀ number ∈ numbers, InWidth field.width number)
      (refused : item.RefusedIn field.width family cause) : Refuses field value family cause

variable {field : Field} {value : Value} {payload : Payload} {family : Family} {cause : Cause}

/-- `justification` is at most `scalarWidth`. -/
private theorem justification_le (field : Field) : field.justification ≤ field.scalarWidth :=
  Nat.sub_le _ _

private theorem bindArray_of_elements {items : List Value}
    (sequence : value.elements? = some items)
    (countable : value.hasItemsBelow Value.countBound = true) :
    field.bindArray value =
      if items.length = field.count then
        (items.mapM fun item : Value => item.toUnsigned field.width).map .integers
      else .error (.arrayLength items.length field.count) := by
  rw [bindArray, Value.sequenceLength?_eq, sequence, Value.toUnsignedItems_eq,
    Value.items?_of_elements? sequence]
  simp [countable]

/-- `Field.bind` of a value that suits gives its payload. -/
theorem Accepts.bind (valid : field.Valid) (accepted : field.Accepts value payload) :
    field.bind value = .ok payload := by
  cases accepted with
  | string kind held => rw [bind_of_string kind, bindString, held]
  | @scalar number kind shape inside justified =>
      have clean : ¬ (field.kind = .bit ∧ field.order = .little ∧
          lowBits number field.scalarWidth % 2 ^ field.justification ≠ 0) := by
        rintro ⟨run, little, stray⟩
        exact stray ((lowBits_mod_eq_zero_iff field.justification_le number).mpr
          (justified run little))
      rw [bind_of_scalar kind shape, bindScalar,
        Value.toUnsigned_of_inWidth (scalarWidth_pos valid) inside]
      exact if_neg clean
  | @array value numbers kind shape sequence countable length inside =>
      have forms := Value.mapM_toUnsigned_append field.width_pos inside []
      rw [List.append_nil] at forms
      rw [bind_of_array kind shape, bindArray_of_elements sequence countable, List.length_map,
        if_pos length, forms]
      simp [Except.map, pure, Except.pure]

/-- `Field.bind` fails on the values of `Refuses` with their causes. -/
theorem Refuses.bind (valid : field.Valid) (refused : field.Refuses value family cause) :
    field.bind value = .error cause := by
  cases refused with
  | notBytes kind other => rw [bind_of_string kind, bindString, other]
  | scalar kind shape refused =>
      rw [bind_of_scalar kind shape, bindScalar, refused.toUnsigned (scalarWidth_pos valid)]
      rfl
  | @strayBits number kind shape order inside stray =>
      have integer : field.kind ≠ .string := by simp [kind]
      have unclean : lowBits number field.scalarWidth % 2 ^ field.justification ≠ 0 :=
        (lowBits_mod_eq_zero_iff field.justification_le number).not.mpr stray
      rw [bind_of_scalar integer shape, bindScalar,
        Value.toUnsigned_of_inWidth (scalarWidth_pos valid) inside]
      exact if_pos ⟨kind, order, unclean⟩
  | notSequence kind shape other =>
      rw [bind_of_array kind shape, bindArray, Value.sequenceLength?_eq, other]
      rfl
  | uncountable kind shape sequence endless =>
      rw [bind_of_array kind shape, bindArray, Value.sequenceLength?_eq, sequence]
      simp [endless]
  | arrayLength kind shape sequence countable length =>
      rw [bind_of_array kind shape, bindArray_of_elements sequence countable, if_neg length]
  | @element value item numbers back family cause kind shape sequence countable length inside
      refused =>
      have forms := Value.mapM_toUnsigned_append field.width_pos inside (item :: back)
      rw [List.mapM_cons, refused.toUnsigned field.width_pos] at forms
      rw [bind_of_array kind shape, bindArray_of_elements sequence countable, if_pos length, forms]
      rfl

/-- Every value suits a field or is refused by it. -/
theorem accepts_or_refuses (field : Field) (value : Value) :
    (∃ payload, field.Accepts value payload) ∨
      ∃ family cause, field.Refuses value family cause := by
  by_cases string : field.kind = .string
  · cases held : value.asBytes? with
    | none => exact .inr ⟨_, _, .notBytes string held⟩
    | some data => exact .inl ⟨_, .string string held⟩
  cases shape : field.shape with
  | scalar =>
      rcases Value.inWidth_or_refusedIn field.scalarWidth value with
        ⟨number, rfl, inside⟩ | ⟨family, cause, refused⟩
      · by_cases stray : field.kind = .bit ∧ field.order = .little ∧
            ¬ (2 ^ (field.scalarWidth - field.count) : Int) ∣ number
        · exact .inr ⟨_, _, .strayBits stray.1 shape stray.2.1 inside stray.2.2⟩
        · refine .inl ⟨_, .scalar string shape inside fun run little => ?_⟩
          exact Decidable.byContradiction fun below => stray ⟨run, little, below⟩
      · exact .inr ⟨family, cause, .scalar string shape refused⟩
  | array =>
      cases sequence : value.elements? with
      | none => exact .inr ⟨_, _, .notSequence string shape sequence⟩
      | some items =>
          cases countable : value.hasItemsBelow Value.countBound with
          | false => exact .inr ⟨_, _, .uncountable string shape sequence countable⟩
          | true =>
              by_cases length : items.length = field.count
              · obtain ⟨numbers, others, rfl, inside, ending⟩ :=
                  Value.inWidth_or_first_refusedIn field.width items
                rcases ending with rfl | ⟨item, back, family, cause, rfl, refused⟩
                · rw [List.append_nil] at sequence length
                  rw [List.length_map] at length
                  exact .inl ⟨_, .array string shape sequence countable length inside⟩
                · exact .inr ⟨family, cause,
                    .element string shape sequence countable length inside refused⟩
              · exact .inr ⟨_, _, .arrayLength string shape sequence countable length⟩

/-- `Field.bind` succeeds exactly on `Accepts`, and fails exactly on `Refuses`. -/
theorem bind_iff (valid : field.Valid) (value : Value) :
    (∀ payload, field.bind value = .ok payload ↔ field.Accepts value payload) ∧
      ∀ cause, field.bind value = .error cause ↔ ∃ family, field.Refuses value family cause :=
  result_iff_of_complete (fun accepted => accepted.bind valid)
    (fun ⟨_, refused⟩ => refused.bind valid)
    ((field.accepts_or_refuses value).imp_right fun ⟨family, cause, refused⟩ =>
      ⟨cause, family, refused⟩)

theorem Refuses.family_eq (refused : field.Refuses value family cause) :
    cause.family = family := by
  cases refused with
  | notBytes | strayBits | notSequence | uncountable | arrayLength => rfl
  | scalar kind shape refused => exact refused.family_eq
  | element kind shape sequence countable length inside refused => exact refused.family_eq

end Field

end BitRecord

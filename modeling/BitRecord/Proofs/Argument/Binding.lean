/-
# What values are bound to

`Field.bind` gives the normal form of a value but for the length of a string,
which is cut or completed only when it is written (`Field.bind_eq_ok`). A payload
given back as a value is bound to itself (`Field.bind_toValue`). `Format.bind`
binds the values of a format one by one, so both carry over to it.
-/

import BitRecord.Argument.Bind
import BitRecord.Proofs.Codec.Image
import Mathlib.Data.List.Forall2

namespace BitRecord

namespace Value

/-- The integer of a value. A truth has none. -/
def integer? : Value → Option Int
  | .integer number => some number
  | _ => none

/-- `toUnsigned` succeeds on integers only, with their `lowBits`. -/
theorem toUnsigned_eq_ok {value : Value} {width number : Nat}
    (accepted : value.toUnsigned width = .ok number) :
    ∃ given, value.integer? = some given ∧ number = lowBits given width := by
  cases value with
  | integer given =>
      refine ⟨given, rfl, ?_⟩
      rw [toUnsigned] at accepted
      split at accepted
      · contradiction
      · split at accepted
        · rename_i fits
          rw [Int.toNat_natCast] at fits accepted
          rw [← Except.ok.inj accepted, twosComplement_eq_lowBits fits]
        · contradiction
  | _ => contradiction

/-- `toUnsigned` of a natural number below `2 ^ width` is the number. -/
theorem toUnsigned_natCast {width number : Nat} (width_pos : 0 < width)
    (small : number < 2 ^ width) : (integer number).toUnsigned width = .ok number := by
  have fits : fitsWidth width (number : Int) = true := by
    rw [fitsWidth_iff]
    have signed : (0 : Int) < 2 ^ (width - 1) := Int.pow_pos (by omega)
    apply And.intro
    · omega
    · exact_mod_cast small
  have positive : ¬ (width : Int) ≤ 0 := by omega
  rw [toUnsigned, if_neg positive, Int.toNat_natCast, if_pos fits]
  rfl

/-- A value with a `sequenceLength?` has that many items. -/
theorem items?_of_sequenceLength? {value : Value} {length : Nat}
    (known : value.sequenceLength? = some length) :
    ∃ items, value.items? = some items ∧ items.length = length := by
  cases value with
  | list items | tuple items => exact ⟨items, rfl, Option.some.inj known⟩
  | range start stop step =>
      refine ⟨_, rfl, ?_⟩
      simpa [rangeItems, sequenceLength?] using known
  | buffer holder data =>
      refine ⟨_, rfl, ?_⟩
      simpa [sequenceLength?] using known
  | _ => contradiction

end Value

/-- `List.mapM` succeeds exactly when every step does, with the results of the steps. -/
theorem mapM_eq_ok_iff {ε α β : Type} {step : α → Except ε β} {given : List α} {results : List β} :
    given.mapM step = .ok results ↔
      List.Forall₂ (fun value result => step value = .ok result) given results := by
  induction given generalizing results with
  | nil => simp [pure, Except.pure, eq_comm]
  | cons value given ih =>
      rw [List.mapM_cons, List.forall₂_cons_left_iff]
      simp only [← ih]
      cases step value with
      | error cause => simp [bind, Except.bind]
      | ok result =>
          cases given.mapM step with
          | error cause => simp [bind, Except.bind]
          | ok others => simp [bind, Except.bind, pure, Except.pure, eq_comm]

/-- `toUnsignedItems` succeeds on integers only, with their `lowBits`. -/
private theorem toUnsignedItems_eq_ok {value : Value} {items : List Value} {width : Nat}
    {numbers : List Nat} (listed : value.items? = some items)
    (accepted : value.toUnsignedItems width = .ok numbers) :
    numbers.length = items.length ∧
      ∃ given, items.mapM Value.integer? = some given ∧
        numbers = given.map fun number => lowBits number width := by
  rw [Value.toUnsignedItems_eq, listed] at accepted
  have each := mapM_eq_ok_iff.mp accepted
  refine ⟨each.length_eq.symm, ?_⟩
  clear accepted listed
  rw [Option.getD_some] at each
  induction each with
  | nil => exact ⟨[], rfl, rfl⟩
  | cons first _ ih =>
      obtain ⟨head, head_integer, rfl⟩ := Value.toUnsigned_eq_ok first
      obtain ⟨others, others_integers, rfl⟩ := ih
      exact ⟨head :: others, by simp [head_integer, others_integers], rfl⟩

/-- `toUnsignedItems` of natural numbers below `2 ^ width` are the numbers. -/
private theorem toUnsignedItems_natCast {width : Nat} (width_pos : 0 < width) {numbers : List Nat}
    (small : ∀ number ∈ numbers, number < 2 ^ width) :
    (Value.list (numbers.map fun number : Nat => .integer number)).toUnsignedItems width =
      .ok numbers := by
  rw [Value.toUnsignedItems_eq, Value.items?, Option.getD_some]
  induction numbers with
  | nil => rfl
  | cons number numbers ih =>
      have first := Value.toUnsigned_natCast width_pos (small number List.mem_cons_self)
      have others := ih fun other member => small other (List.mem_cons_of_mem _ member)
      rw [List.map_cons, List.mapM_cons, first, others]
      rfl

namespace Field

/-- The normal form of a value in a field: the bytes cut or completed to its length, or the integer,
or the integers of an array, modulo the width. -/
def normalForm? (field : Field) (value : Value) : Option Payload :=
  if field.kind = .string then
    value.asBytes?.map fun data => .bytes (Bytes.fit field.count data)
  else
    match field.shape with
    | .scalar =>
        value.integer?.map fun number => .integer (lowBits number field.scalarWidth)
    | .array =>
        (value.items?.bind fun items => items.mapM Value.integer?).map fun numbers =>
          .integers (numbers.map fun number => lowBits number field.width)

variable {field : Field} {value : Value} {payload : Payload}

theorem bind_of_string (string : field.kind = .string) (value : Value) :
    field.bind value = bindString value := by
  rw [bind, string]

theorem bind_of_array (integer : field.kind ≠ .string) (array : field.shape = .array)
    (value : Value) : field.bind value = field.bindArray value := by
  unfold bind
  cases kind : field.kind <;> simp_all

theorem bind_of_scalar (integer : field.kind ≠ .string) (scalar : field.shape = .scalar)
    (value : Value) : field.bind value = field.bindScalar value := by
  unfold bind
  cases kind : field.kind <;> simp_all

private theorem bindArray_eq_ok (integer : field.kind ≠ .string) (array : field.shape = .array)
    (bound : field.bindArray value = .ok payload) :
    field.Carries payload ∧ field.normalForm? value = some (payload.fitted field.count) := by
  rw [bindArray] at bound
  cases known : value.sequenceLength? with
  | none => simp [known] at bound
  | some length =>
      obtain ⟨items, listed, items_length⟩ := Value.items?_of_sequenceLength? known
      rw [known] at bound
      simp only at bound
      split at bound
      · contradiction
      · split at bound
        · rename_i fits
          cases accepted : value.toUnsignedItems field.width with
          | error cause => simp [accepted, Except.map] at bound
          | ok numbers =>
              obtain rfl : .integers numbers = payload := by
                simpa [accepted, Except.map] using bound
              obtain ⟨numbers_length, given, integers, rfl⟩ :=
                toUnsignedItems_eq_ok listed accepted
              apply And.intro
              · refine .array integer array (by omega) ?_
                intro number member
                obtain ⟨original, _, rfl⟩ := List.mem_map.mp member
                exact lowBits_lt original field.width
              · rw [normalForm?, if_neg integer, array, listed]
                simp only [Option.bind_some, integers, Option.map_some, Payload.fitted]
        · contradiction

private theorem bindScalar_eq_ok (integer : field.kind ≠ .string) (scalar : field.shape = .scalar)
    (bound : field.bindScalar value = .ok payload) :
    field.Carries payload ∧ field.normalForm? value = some (payload.fitted field.count) := by
  rw [bindScalar] at bound
  cases accepted : value.toUnsigned field.scalarWidth with
  | error cause => simp [accepted, Bind.bind, Except.bind] at bound
  | ok number =>
      obtain ⟨given, known, rfl⟩ := Value.toUnsigned_eq_ok accepted
      rw [accepted] at bound
      simp only [Bind.bind, Except.bind] at bound
      split at bound
      · contradiction
      · rename_i clean
        obtain rfl : .integer (lowBits given field.scalarWidth) = payload := Except.ok.inj bound
        apply And.intro
        · refine .scalar integer scalar (lowBits_lt given field.scalarWidth) ?_
          intro run little
          exact Decidable.byContradiction fun stray => clean ⟨run, little, stray⟩
        · rw [normalForm?, if_neg integer, scalar, known]
          rfl

/-- When `Field.bind` gives a payload, the field carries it, and the normal form of the value is the
payload fitted to the field. -/
theorem bind_eq_ok (bound : field.bind value = .ok payload) :
    field.Carries payload ∧ field.normalForm? value = some (payload.fitted field.count) := by
  by_cases string : field.kind = .string
  · rw [bind_of_string string, bindString] at bound
    cases data : value.asBytes? with
    | none => simp [data] at bound
    | some bytes =>
        obtain rfl : .bytes bytes = payload := by simpa [data] using bound
        refine ⟨.string string, ?_⟩
        rw [normalForm?, if_pos string, data]
        rfl
  · cases shape : field.shape with
    | array =>
        rw [bind_of_array string shape] at bound
        exact bindArray_eq_ok string shape bound
    | scalar =>
        rw [bind_of_scalar string shape] at bound
        exact bindScalar_eq_ok string shape bound

/-- A scalar value of a field has at least one bit. -/
theorem scalarWidth_pos (valid : field.Valid) : 0 < field.scalarWidth := by
  by_cases run : field.kind = .bit
  · have positive := valid.count_pos
    have whole := count_add_justification run
    omega
  · rw [scalarWidth_of_ne_bit run]
    exact field.width_pos

/-- `Field.bind` of the value of a carried payload is the payload. -/
theorem bind_toValue (valid : field.Valid) (carried : field.Carries payload) :
    field.bind payload.toValue = .ok payload := by
  cases carried with
  | string kind =>
      rw [bind_of_string kind]
      rfl
  | array kind shape length small =>
      have accepted := toUnsignedItems_natCast field.width_pos small
      rw [bind_of_array kind shape, bindArray, Payload.toValue]
      simp only [Value.sequenceLength?, List.length_map, length, accepted]
      rfl
  | @scalar number kind shape small justified =>
      have accepted := Value.toUnsigned_natCast (scalarWidth_pos valid) small
      have clean : ¬ (field.kind = .bit ∧ field.order = .little ∧
          number % 2 ^ field.justification ≠ 0) :=
        fun stray => stray.2.2 (justified stray.1 stray.2.1)
      rw [bind_of_scalar kind shape, bindScalar, Payload.toValue]
      simp only [accepted, Bind.bind, Except.bind, if_neg clean]

end Field

namespace Directive

/-- The field of a directive that takes a value. -/
def given? : Directive → Option Field
  | .field f => if f.takesValue then some f else none
  | .literal _ => none

/-- The fields that take a value, in the order of the directives. -/
def givenFields (directives : List Directive) : List Field := directives.filterMap given?

theorem givenFields_given {field : Field} (given : field.takesValue = true)
    (directives : List Directive) :
    givenFields (.field field :: directives) = field :: givenFields directives := by
  simp [givenFields, given?, given]

theorem givenFields_filled {field : Field} (filled : field.takesValue = false)
    (directives : List Directive) :
    givenFields (.field field :: directives) = givenFields directives := by
  simp [givenFields, given?, filled]

theorem mem_givenFields_iff {directives : List Directive} {field : Field} :
    field ∈ givenFields directives ↔ .field field ∈ directives ∧ field.takesValue = true := by
  rw [givenFields, List.mem_filterMap]
  apply Iff.intro
  · intro listed
    obtain ⟨directive, member, same⟩ := listed
    cases directive with
    | literal data => contradiction
    | field other =>
        rw [given?, Option.ite_none_right_eq_some] at same
        obtain rfl := Option.some.inj same.2
        exact ⟨member, same.1⟩
  · intro parts
    obtain ⟨member, given⟩ := parts
    exact ⟨.field field, member, if_pos given⟩

/-- The fields that take a value are as many as the directives that do. -/
theorem length_givenFields (directives : List Directive) :
    (givenFields directives).length = directives.countP takesValue := by
  rw [givenFields, List.length_filterMap_eq_countP]
  refine List.countP_congr fun directive _ => ?_
  cases directive with
  | literal data => exact Iff.rfl
  | field field => cases given : field.takesValue <;> simp [given?, takesValue, given]

end Directive

/-- Values that are bound to fields one by one, with the arguments that they give. -/
inductive Bound : List Field → List Value → List Argument → Prop
  | nil : Bound [] [] []
  | cons {field : Field} {value : Value} {payload : Payload} {fields : List Field}
      {values : List Value} {arguments : List Argument} (first : field.bind value = .ok payload)
      (others : Bound fields values arguments) :
      Bound (field :: fields) (value :: values) (⟨field.kind, payload⟩ :: arguments)

namespace Bound

variable {fields : List Field} {values : List Value} {arguments : List Argument}

/-- There is one value for each field. -/
theorem length_eq (bound : Bound fields values arguments) : values.length = fields.length := by
  induction bound with
  | nil => rfl
  | cons _ _ ih => rw [List.length_cons, List.length_cons, ih]

/-- Every field carries the payload of its argument. -/
theorem carried (bound : Bound fields values arguments) :
    List.Forall₂ (fun field argument => field.Carries argument.payload) fields arguments := by
  induction bound with
  | nil => exact .nil
  | cons first _ ih => exact .cons (Field.bind_eq_ok first).1 ih

/-- The normal forms of the values are the payloads fitted to the fields. -/
theorem normalForms (bound : Bound fields values arguments) :
    List.zipWith Field.normalForm? fields values =
      List.zipWith (fun field argument => some (argument.payload.fitted field.count)) fields
        arguments := by
  induction bound with
  | nil => rfl
  | cons first _ ih =>
      rw [List.zipWith_cons_cons, List.zipWith_cons_cons, (Field.bind_eq_ok first).2, ih]

/-- The values of carried payloads are bound to these payloads. -/
theorem of_carried {payloads : List Payload}
    (valid : ∀ field ∈ fields, field.Valid)
    (carried : List.Forall₂ Field.Carries fields payloads) :
    Bound fields (payloads.map Payload.toValue)
      (List.zipWith (fun field payload => ⟨field.kind, payload⟩) fields payloads) := by
  induction carried with
  | nil => exact .nil
  | cons first _ ih =>
      exact .cons (Field.bind_toValue (valid _ List.mem_cons_self) first)
        (ih fun field member => valid field (List.mem_cons_of_mem _ member))

end Bound

/-- `bindItems` succeeds on as many values as there are fields for them when each is bound to its
field. -/
theorem bindItems_outcome_eq_ok_iff {items : List Item} {values : List Value}
    {arguments : List Argument}
    (enough : values.length = (Directive.givenFields (items.map Item.directive)).length) :
    (bindItems items values).outcome = .ok arguments ↔
      Bound (Directive.givenFields (items.map Item.directive)) values arguments := by
  induction items generalizing values arguments with
  | nil =>
      obtain rfl : values = [] := List.eq_nil_of_length_eq_zero enough
      apply Iff.intro
      · intro success
        obtain rfl : [] = arguments := Except.ok.inj success
        exact .nil
      · intro bound
        cases bound
        rfl
  | cons item items ih =>
      obtain ⟨place, directive⟩ := item
      rw [List.map_cons] at enough ⊢
      cases directive with
      | literal data => exact ih enough
      | field field =>
          by_cases given : field.takesValue = true
          · rw [Directive.givenFields_given given] at enough ⊢
            cases values with
            | nil => contradiction
            | cons value values =>
                have others_enough := Nat.succ.inj enough
                rw [bindItems, if_pos given]
                cases first : field.bind value with
                | error cause =>
                    apply iff_of_false
                    · intro success
                      contradiction
                    · intro bound
                      cases bound with
                      | cons success =>
                          rw [first] at success
                          contradiction
                | ok payload =>
                    simp only
                    rw [Traced.outcome_bind_of_ok (Traced.outcome_note _),
                      Traced.outcome_bind_eq_ok_iff]
                    apply Iff.intro
                    · intro success
                      obtain ⟨others, others_bound, whole⟩ := success
                      obtain rfl : ⟨field.kind, payload⟩ :: others = arguments :=
                        Except.ok.inj whole
                      exact .cons first ((ih others_enough).mp others_bound)
                    · intro bound
                      cases bound with
                      | cons success others =>
                          obtain rfl := Except.ok.inj (first.symm.trans success)
                          exact ⟨_, (ih others_enough).mpr others, rfl⟩
          · have filled : field.takesValue = false := Bool.eq_false_iff.mpr given
            rw [Directive.givenFields_filled filled] at enough ⊢
            rw [bindItems.eq_def]
            simp only [filled]
            exact ih enough

namespace Format

variable {format : Format} {values : Value}

/-- The fields of a format that take a value. -/
def givenFields (format : Format) : List Field := Directive.givenFields format.directives

theorem arity_eq (format : Format) : format.arity = format.givenFields.length :=
  (Directive.length_givenFields format.directives).symm

/-- `Format.bind` succeeds exactly on a collection that is no single value, has few enough items to
be listed, and whose items are bound to the fields one by one. -/
theorem bind_outcome_eq_ok_iff {arguments : List Argument} :
    (format.bind values).outcome = .ok arguments ↔
      values.isSingle = false ∧ values.hasItemsBelow Value.countBound = true ∧
        values.hasItemsBelow Value.listBound = true ∧
        ∃ items, values.items? = some items ∧ Bound format.givenFields items arguments := by
  rw [bind, Value.itemCount?_eq]
  by_cases single : values.isSingle = true
  · rw [if_pos single]
    apply iff_of_false
    · intro success
      contradiction
    · intro parts
      obtain ⟨several, _⟩ := parts
      exact absurd single (by simp [several])
  rw [if_neg single]
  cases listed : values.items? with
  | none =>
      apply iff_of_false
      · intro success
        contradiction
      · intro parts
        obtain ⟨_, _, _, items, missing, _⟩ := parts
        contradiction
  | some items =>
      simp only [Option.map_some, Option.getD_some, Option.some.injEq, exists_eq_left']
      by_cases countable : values.hasItemsBelow Value.countBound = true
      · by_cases listable : values.hasItemsBelow Value.listBound = true
        · by_cases enough : items.length = format.arity
          · have each : (bindItems format.items items).outcome = .ok arguments ↔
                Bound format.givenFields items arguments :=
              bindItems_outcome_eq_ok_iff (enough.trans format.arity_eq)
            simpa [single, countable, listable, enough] using each
          · apply iff_of_false
            · intro success
              simp [countable, listable, enough] at success
            · intro parts
              obtain ⟨_, _, _, bound⟩ := parts
              exact absurd (bound.length_eq.trans format.arity_eq.symm) enough
        · simp [countable, listable]
      · simp [countable]

end Format

end BitRecord

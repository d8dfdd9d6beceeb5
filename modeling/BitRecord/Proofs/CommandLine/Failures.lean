/-
# Failures that a command line can bring about

`Format.compile` of a text, `Format.bind` of values that are not ranges and
`Format.unpack` of bytes fail only with a located family or with the digit limit,
and so does `Format.pack` with a source in range.
-/

import BitRecord.Proofs.Argument.Acceptance
import BitRecord.Proofs.Record.Walks
import BitRecord.ValueText

namespace BitRecord

/-- Whether a cause is that an integer has too many decimal digits. -/
def Cause.isDigitLimit : Cause → Bool
  | longQuantity _ | longInteger => true
  | _ => false

/-- Whether a failure is of a located family, or is of the digit limit and without a position. -/
def Failure.isForeseen (failure : Failure) : Bool :=
  failure.cause.family.isLocated || (failure.cause.isDigitLimit && failure.position.isNone)

theorem Failure.isForeseen_of_located {failure : Failure}
    (located : failure.cause.family.isLocated = true) : failure.isForeseen = true := by
  rw [isForeseen, located, Bool.true_or]

namespace Traced

variable {α β : Type}

/-- Whether the failure of an operation is foreseen, if it has one. -/
def FailsForeseen (traced : Traced α) : Prop :=
  ∀ failure, traced.outcome = .error failure → failure.isForeseen = true

theorem failsForeseen_of_ok {traced : Traced α} {value : α} (success : traced.outcome = .ok value) :
    traced.FailsForeseen := by
  intro failure failed
  rw [success] at failed
  contradiction

theorem failsForeseen_of_error {traced : Traced α} {failure : Failure}
    (failed : traced.outcome = .error failure)
    (foreseen : failure.isForeseen = true) : traced.FailsForeseen := by
  intro other other_failed
  obtain rfl := Except.error.inj (failed.symm.trans other_failed)
  exact foreseen

/-- `FailsForeseen` of two steps one after the other. -/
theorem FailsForeseen.bind {first : Traced α} {next : α → Traced β}
    (first_foreseen : first.FailsForeseen)
    (next_foreseen : ∀ value, first.outcome = .ok value → (next value).FailsForeseen) :
    (first >>= next).FailsForeseen := by
  cases outcome : first.outcome with
  | error failure =>
      exact failsForeseen_of_error (outcome_bind_of_error outcome next)
        (first_foreseen failure outcome)
  | ok value =>
      intro failure failed
      rw [outcome_bind_of_ok outcome] at failed
      exact next_foreseen value outcome failure failed

end Traced

namespace Format

private theorem failsForeseen_pieceItem (position : Nat) (piece : Piece) :
    (pieceItem position piece).FailsForeseen := by
  intro failure refused
  cases pieceItem_outcome_eq_error_iff.mp refused <;> rfl

private theorem failsForeseen_itemsOf (position : Nat) (pieces : List Piece) :
    (itemsOf position pieces).FailsForeseen := by
  induction pieces generalizing position with
  | nil => exact Traced.failsForeseen_of_ok rfl
  | cons piece rest ih =>
      unfold itemsOf
      split
      · contradiction
      · exact Traced.failsForeseen_of_error rfl rfl
      · rename_i same
        obtain ⟨rfl, rfl⟩ := List.cons.inj same
        exact (failsForeseen_pieceItem position piece).bind fun item _ =>
          (ih _).bind fun items _ => Traced.failsForeseen_of_ok rfl

/-- `compile` of a text fails with a foreseen failure only. -/
theorem failsForeseen_compile (text : String) : (compile (.text text)).FailsForeseen :=
  (failsForeseen_itemsOf 0 _).bind fun _ _ => Traced.failsForeseen_of_ok rfl

end Format

namespace Field

/-- `Field.bind` of a value that is no endless range fails with a located family or with the digit
limit. -/
theorem isForeseen_of_bind {field : Field} {value : Value} {cause : Cause} (valid : field.Valid)
    (few : value.hasItemsBelow Value.countBound = true)
    (bound : field.bind value = .error cause) (position : Nat) :
    (Failure.attributed cause position).isForeseen = true := by
  obtain ⟨family, refused⟩ := ((field.bind_iff valid value).2 cause).mp bound
  cases refused with
  | uncountable kind shape sequence endless => simp [few] at endless
  | scalar kind shape refused => cases refused <;> rfl
  | element kind shape sequence countable length inside refused => cases refused <;> rfl
  | notBytes | strayBits | notSequence | arrayLength => rfl

end Field

private theorem failsForeseen_bindItems {items : List Item} {values : List Value}
    (valid : ∀ item ∈ items, item.directive.Valid)
    (few : ∀ value ∈ values, value.hasItemsBelow Value.countBound = true)
    (enough : values.length = (Directive.givenFields (items.map Item.directive)).length) :
    (bindItems items values).FailsForeseen := by
  induction items generalizing values with
  | nil => exact Traced.failsForeseen_of_ok rfl
  | cons item items ih =>
      obtain ⟨place, directive⟩ := item
      obtain ⟨own_valid, others_valid⟩ := List.forall_mem_cons.mp valid
      rw [List.map_cons] at enough
      cases directive with
      | literal data => exact ih others_valid few enough
      | field field =>
          by_cases given : field.takesValue = true
          · rw [Directive.givenFields_given given] at enough
            cases values with
            | nil => contradiction
            | cons value values =>
                obtain ⟨own_few, others_few⟩ := List.forall_mem_cons.mp few
                rw [bindItems, if_pos given]
                cases first : field.bind value with
                | error cause =>
                    exact Traced.failsForeseen_of_error rfl
                      (Field.isForeseen_of_bind own_valid own_few first place)
                | ok payload =>
                    refine (Traced.failsForeseen_of_ok rfl).bind fun _ _ => ?_
                    exact (ih others_valid others_few (Nat.succ.inj enough)).bind fun _ _ =>
                      Traced.failsForeseen_of_ok rfl
          · have filled : field.takesValue = false := Bool.eq_false_iff.mpr given
            rw [Directive.givenFields_filled filled] at enough
            rw [bindItems.eq_def]
            simp only [filled]
            exact ih others_valid few enough

namespace Format

variable {format : Format} {values : List Value} {source : RandomSource}

/-- `Format.bind` of a list without endless ranges fails with a foreseen failure only. -/
theorem failsForeseen_bind (valid : ∀ directive ∈ format.directives, directive.Valid)
    (few : ∀ value ∈ values, value.hasItemsBelow Value.countBound = true) :
    (format.bind (.list values)).FailsForeseen := by
  by_cases enough : values.length = format.arity
  · have bound : format.bind (.list values) = bindItems format.items values := by
      simp [bind, Value.isSingle, Value.asBytes?, Value.itemCount?, Value.items?,
        Value.hasItemsBelow, enough]
    rw [bound]
    exact failsForeseen_bindItems (valid_items valid) few (enough.trans format.arity_eq)
  · exact Traced.failsForeseen_of_error (bind_of_count_ne rfl rfl rfl rfl enough) rfl

/-- `Format.pack` with a source in range fails with a foreseen failure only. -/
theorem failsForeseen_pack (in_range : source.InRange)
    (valid : ∀ directive ∈ format.directives, directive.Valid)
    (few : ∀ value ∈ values, value.hasItemsBelow Value.countBound = true) :
    (format.pack (.list values) source).FailsForeseen := by
  cases bound : (format.bind (.list values)).outcome with
  | error failure =>
      exact Traced.failsForeseen_of_error (Traced.outcome_bind_of_error bound _)
        (failsForeseen_bind valid few failure bound)
  | ok arguments =>
      obtain ⟨numbers, answered⟩ := in_range.exists_answers #[] format.requests
      exact Traced.failsForeseen_of_ok (pack_outcome in_range valid bound answered)

/-- `Format.unpack` of bytes fails with a foreseen failure only. -/
theorem failsForeseen_unpack (valid : ∀ directive ∈ format.directives, directive.Valid)
    (record : Bytes) : (format.unpack (.buffer .bytes record) .null).FailsForeseen := by
  intro failure refused
  rw [unpack_of_reader (Reader.ofValue_null record), Record.read_eq_map, Traced.map_eq] at refused
  have start : Reader.ofBytes record = .atBit record 0 := rfl
  rw [start] at refused
  rcases Record.clear_or_obstacle record (Layout.visits 0 format.items) with
    clear | ⟨front, visit, back, cause, reached, clear, stopped⟩
  · rw [Record.readThrough_of_clear (valid_items valid) (Nat.zero_le _) clear] at refused
    contradiction
  · rw [Record.readThrough_of_obstacle (valid_items valid) (Nat.zero_le _) reached clear
      stopped] at refused
    obtain rfl := Except.error.inj refused
    rcases Directive.isLocated_or_eq_longInteger stopped with located | rfl
    · refine Failure.isForeseen_of_located ?_
      rwa [Failure.cause_attributed]
    · rfl

end Format

/-- `ValueText.parse` gives no range. -/
theorem ValueText.hasItemsBelow_of_parse {text : List Char} {value : Value}
    (parsed : parse text = .ok value) (bound : Nat) : value.hasItemsBelow bound = true := by
  unfold parse at parsed
  split at parsed
  · obtain rfl := Except.ok.inj parsed
    rfl
  · obtain ⟨data, _, rfl⟩ := map_eq_ok_iff.mp parsed
    rfl
  · split at parsed
    · obtain ⟨numbers, _, rfl⟩ := map_eq_ok_iff.mp parsed
      rfl
    · obtain ⟨number, _, rfl⟩ := map_eq_ok_iff.mp parsed
      rfl

end BitRecord

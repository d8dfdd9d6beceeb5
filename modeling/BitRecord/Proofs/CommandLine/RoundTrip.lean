/-
# Unpacking what a command line has packed

`runUnpack` reads the digits that `runPack` prints as the same record and prints
every value in its normal form (`Field.normalForm?`). This holds for every answer
of the random source, and for the empty format, which has no digits and prints
nothing. A value whose normal form is beyond the digit limit can be packed, but
neither it nor any value behind it is printed.
-/

import BitRecord.Proofs.CommandLine.Endings
import BitRecord.Proofs.Record.RandomFill

namespace BitRecord

namespace CommandLine

/-- Whether a line is the text of a payload. -/
def Shows (payload : Payload) (line : String) : Prop :=
  ValueText.format payload.toValue = .ok line

/-- How unpacking the digits of a record ends, for the payloads of the record. -/
structure ShownAgain (given digits : String) (payloads : List Payload) : Prop where
  /-- Every payload is shown when `Payload.canWrite` holds of each. -/
  all : (∀ payload ∈ payloads, payload.canWrite = true) →
    ∃ lines, (∀ other : RandomSource,
      (run other ["unpack", given, digits]).ending = .done lines) ∧
        List.Forall₂ Shows payloads lines
  /-- The first payload on which `Payload.canWrite` fails ends the output, with the message of the
  digit limit. -/
  cut : ∀ front payload back, payloads = front ++ payload :: back →
    (∀ earlier ∈ front, earlier.canWrite = true) → payload.canWrite = false →
    ∃ lines, (∀ other : RandomSource,
      (run other ["unpack", given, digits]).ending = .unshown lines DigitLimit.writeMessage) ∧
        List.Forall₂ Shows front lines

variable {source : RandomSource} {given : String} {words : List String}

private theorem status_ofFailure_ne_zero (failure : Failure) :
    (Ending.ofFailure failure).status ≠ 0 := by
  unfold Ending.ofFailure
  split
  · exact Nat.succ_ne_zero _
  · split <;> exact Nat.succ_ne_zero _

private theorem run_pack (source : RandomSource) (given : String) (words : List String) :
    run source ("pack" :: given :: words) = runPack given words source := rfl

/-- When `runPack` has the status zero, the format is accepted, the words are parsed and `pack`
succeeds. -/
theorem exists_of_runPack (well : (runPack given words source).ending.status = 0) :
    ∃ format values record, (Format.compile (.text given)).outcome = .ok format ∧
      (words.mapM fun word => ValueText.parse word.toList) = .ok values ∧
      (BitRecord.pack (.text given) (.list values) source).outcome = .ok record := by
  cases outcome : (Format.compile (.text given)).outcome with
  | error failure =>
      rw [runPack_of_refused outcome] at well
      exact absurd well (status_ofFailure_ne_zero failure)
  | ok format =>
      cases parsed : words.mapM fun word => ValueText.parse word.toList with
      | error refusal =>
          rw [runPack_of_unparsed outcome parsed] at well
          contradiction
      | ok values =>
          rw [runPack_of_parsed outcome parsed] at well
          cases packed : (BitRecord.pack (.text given) (.list values) source).outcome with
          | error failure =>
              rw [packed] at well
              exact absurd well (status_ofFailure_ne_zero failure)
          | ok record => exact ⟨format, values, record, rfl, rfl, packed⟩

/-- `runUnpack` of the digits of a record ends as `Ending.ofPayloads` of its payloads. -/
theorem runUnpack_ofBytes {record : Bytes} {payloads : List Payload}
    (unpacked : (BitRecord.unpack (.text given) (.buffer .bytes record) .null).outcome =
      .ok payloads) :
    (runUnpack given [Hex.ofBytes record]).ending = Ending.ofPayloads payloads := by
  have parsed : ValueText.parseHex (Hex.ofBytes record).toList = .ok record := by
    rw [ValueText.parseHex, Hex.toBytes_ofBytes]
    rfl
  obtain ⟨format, accepted, _⟩ := Traced.outcome_bind_eq_ok_iff.mp unpacked
  rw [runUnpack_of_parsed accepted parsed, unpacked]
  rfl

/-- `ShownAgain` holds of the digits of a record and its payloads. -/
theorem shownAgain_of_unpack {record : Bytes} {payloads : List Payload}
    (unpacked : (BitRecord.unpack (.text given) (.buffer .bytes record) .null).outcome =
      .ok payloads) :
    ShownAgain given (Hex.ofBytes record) payloads where
  all written := by
    obtain ⟨lines, ending, each⟩ := ofPayloads_of_canWrite written
    exact ⟨lines, fun _ => (runUnpack_ofBytes unpacked).trans ending, each⟩
  cut front payload back split written long := by
    obtain ⟨lines, ending, each⟩ := @ofPayloads_of_long front back payload written long
    rw [← split] at ending
    exact ⟨lines, fun _ => (runUnpack_ofBytes unpacked).trans ending, each⟩

/-- The empty text is the format without directives. -/
private theorem eq_of_compile_empty {format : Format}
    (accepted : (Format.compile (.text "")).outcome = .ok format) : format = ⟨.text "", []⟩ := by
  obtain ⟨text, held, _, rfl⟩ := Format.compile_outcome_eq_ok_iff.mp accepted
  obtain rfl : [] = text := Option.some.inj held
  rw [← Format.piecesWithin_eq (Nat.le_refl 0)]
  rfl

/-- When `pack` on a command line has the status zero, it prints one line of digits, and the record
in them holds the normal form of each value, one for each field that takes a value. `unpack` of
these digits prints the text of each normal form, one a line and in order, up to the first one with
an integer of more than 4300 decimal digits (`ShownAgain`). -/
theorem run_unpack_of_pack (well : (run source ("pack" :: given :: words)).ending.status = 0) :
    ∃ digits payloads format,
      (run source ("pack" :: given :: words)).ending = .done [digits] ∧
      (Format.compile (.text given)).outcome = .ok format ∧
      payloads.length = format.arity ∧ words.length = format.arity ∧
      (∀ (index : Nat) (field : Field), format.givenFields[index]? = some field →
        ∃ word value payload, words[index]? = some word ∧ payloads[index]? = some payload ∧
          ValueText.parse word.toList = .ok value ∧ field.normalForm? value = some payload) ∧
      ShownAgain given digits payloads ∧
      (given = "" → digits = "" ∧ payloads = []) := by
  rw [run_pack] at well ⊢
  obtain ⟨format, values, record, accepted, parsed, packed⟩ := exists_of_runPack well
  obtain ⟨items, payloads, listed, items_length, payloads_length, normal, unpacked⟩ :=
    Format.unpack_of_pack accepted packed
  obtain rfl : values = items := Option.some.inj listed
  have each := mapM_eq_ok_iff.mp parsed
  have ending : (runPack given words source).ending = .done [Hex.ofBytes record] := by
    rw [runPack_of_parsed accepted parsed, packed]
    rfl
  refine ⟨_, payloads, format, ending, accepted, payloads_length, ?_, ?_,
    shownAgain_of_unpack unpacked, ?_⟩
  · rw [each.length_eq, items_length]
  · intro index field found
    have inside : index < format.arity := by
      rw [format.arity_eq]
      exact (List.getElem?_eq_some_iff.mp found).1
    have in_words : index < words.length := by rwa [each.length_eq, items_length]
    have in_values : index < values.length := items_length ▸ inside
    have in_payloads : index < payloads.length := payloads_length ▸ inside
    have own : field.normalForm? values[index] = some payloads[index] := by
      have entry := congrArg (·[index]?) normal
      simpa [List.getElem?_zipWith, found, in_values, in_payloads] using entry
    exact ⟨words[index], values[index], payloads[index], List.getElem?_eq_getElem in_words,
      List.getElem?_eq_getElem in_payloads, (List.forall₂_iff_get.mp each).2 index in_words
      in_values, own⟩
  · rintro rfl
    obtain rfl := eq_of_compile_empty accepted
    have record_length := Format.length_of_pack (Format.valid_of_compile accepted)
      ((Format.pack_of_compile accepted _ _).symm.trans packed)
    obtain rfl := List.eq_nil_of_length_eq_zero record_length
    obtain rfl := List.eq_nil_of_length_eq_zero payloads_length
    exact ⟨rfl, rfl⟩

/-- A negative number behind three random bits is shown as its residue modulo `2 ^ 16`. -/
theorem run_unpack_of_pack_noise :
    ∃ digits, (run (.cyclic #[5]) ["pack", "%3ri%w", "-2"]).ending = .done [digits] ∧
      ∀ other : RandomSource, (run other ["unpack", "%3ri%w", digits]).ending =
        .done ["65534 (0xfffe)"] := by
  let word : Field := ⟨.word16, 1, .native, false, none, .scalar⟩
  let items : List Item := [⟨0, .field ⟨.bit, 3, .native, false, some .random, .scalar⟩⟩,
    ⟨4, .field word⟩]
  have accepted := @Format.compile_of_piecesWithin "%3ri%w" 6 items (by decide)
    (by decide +kernel)
  have in_range := RandomSource.inRange_cyclic (show 0 < (#[5] : Array Int).size by decide)
  have packed := @Format.pack_outcome (.list [.integer (-2)]) _ ⟨.text "%3ri%w", items⟩ _ [5]
    in_range (Format.valid_of_compile accepted) rfl rfl
  have short {number : Int} (small : number.natAbs < 10 ^ (5 : Nat)) :
      DigitLimit.canWrite number = true :=
    DigitLimit.canWrite_iff.mpr (DigitLimit.lt_bound_of_lt_pow small (by decide))
  have parsed : (["-2"].mapM fun word => ValueText.parse word.toList) = .ok [.integer (-2)] :=
    rfl
  have ending := @runPack_of_parsed (.cyclic #[5]) "%3ri%w" ["-2"] _ _ accepted parsed
  rw [Format.pack_of_compile accepted, packed] at ending
  obtain ⟨digits, payloads, format, shown, own, count, _, each, again, _⟩ :=
    @run_unpack_of_pack (.cyclic #[5]) "%3ri%w" ["-2"] (congrArg Ending.status ending)
  obtain rfl := Except.ok.inj (accepted.symm.trans own)
  obtain ⟨payload, rfl⟩ := List.length_eq_one_iff.mp count
  obtain ⟨_, value, _, first, only, held, normal⟩ := each 0 word rfl
  obtain rfl := Option.some.inj first
  obtain rfl := Option.some.inj only
  obtain rfl : .integer (-2) = value :=
    Except.ok.inj ((List.forall₂_cons.mp (mapM_eq_ok_iff.mp parsed)).1.symm.trans held)
  have residue : word.normalForm? (.integer (-2)) = some (.integer 65534) := by decide +kernel
  obtain rfl := Option.some.inj (residue.symm.trans normal)
  have written : DigitLimit.canWrite (65534 : Nat) = true := short (by decide)
  obtain ⟨lines, done, texts⟩ := again.all (List.forall_mem_singleton.mpr written)
  have text := (ValueText.format_integer_of_short written).trans
    (congrArg Except.ok (show _ = "65534 (0xfffe)" by decide +kernel))
  obtain ⟨line, _, own, last, rfl⟩ := List.forall₂_cons_left_iff.mp texts
  obtain rfl := List.forall₂_nil_left_iff.mp last
  obtain rfl := Except.ok.inj (text.symm.trans own)
  exact ⟨digits, shown, done⟩

/-- The least number of 4301 decimal digits fits into 16000 bits and is packed from its hexadecimal
text. `unpack` of the digits prints no line and ends with the message of the digit limit. -/
theorem run_unpack_of_pack_unshown :
    ∃ digits, (run (.cyclic #[0]) ["pack", "%16000i",
        String.ofList (Numeral.Base.hexadecimal.text DigitLimit.bound)]).ending = .done [digits] ∧
      ∀ other : RandomSource, (run other ["unpack", "%16000i", digits]).ending =
        .unshown [] DigitLimit.writeMessage := by
  let field : Field := ⟨.bit, 16000, .native, false, none, .scalar⟩
  let number : Int := DigitLimit.bound
  let word := String.ofList (Numeral.Base.hexadecimal.text number)
  have accepted := @Format.compile_of_piecesWithin "%16000i" 7 [⟨0, .field field⟩] (by decide)
    (by decide +kernel)
  have parsed : ([word].mapM fun word => ValueText.parse word.toList) = .ok [.integer number] := by
    refine mapM_eq_ok_iff.mpr (.cons ?_ .nil)
    rw [String.toList_ofList]
    exact ValueText.parse_of_writes (Numeral.writes_text .hexadecimal nofun)
  have width : field.scalarWidth = 16000 := by decide
  have inside : InWidth field.scalarWidth number := by
    rw [width]
    decide +kernel
  have suits : field.Accepts (.integer number) (.integer (lowBits number field.scalarWidth)) :=
    .scalar (by decide) rfl inside nofun
  have valid := Format.valid_of_compile accepted
  have bound : (Format.bind ⟨.text "%16000i", [⟨0, .field field⟩]⟩
      (.list [.integer number])).outcome = .ok _ := Format.bind_outcome_eq_ok_iff.mpr
    ⟨rfl, rfl, rfl, _, rfl, .cons (suits.bind (valid _ (List.mem_singleton_self _))) .nil⟩
  have in_range := RandomSource.inRange_cyclic (show 0 < (#[0] : Array Int).size by decide)
  have packed := @Format.pack_outcome _ _ _ _ [] in_range valid bound rfl
  have ending := @runPack_of_parsed (.cyclic #[0]) "%16000i" [word] _ _ accepted parsed
  rw [← run_pack, Format.pack_of_compile accepted, packed, Ending.ofOutcome] at ending
  obtain ⟨_, payloads, listed, _, count, normal, unpacked⟩ := Format.unpack_of_pack accepted
    ((Format.pack_of_compile accepted _ _).trans packed)
  obtain rfl := Option.some.inj listed
  obtain ⟨payload, rfl⟩ := List.length_eq_one_iff.mp count
  have whole : lowBits number 16000 = DigitLimit.bound := by decide +kernel
  obtain rfl : Payload.integer DigitLimit.bound = payload := by
    have residue := Option.some.inj (List.cons.inj normal).1
    rw [← whole, ← width]
    exact residue
  have long : (Payload.integer DigitLimit.bound).canWrite = false :=
    DigitLimit.canWrite_eq_false_iff.mpr (Nat.le_refl _)
  obtain ⟨lines, unshown, texts⟩ := (shownAgain_of_unpack unpacked).cut [] _ [] rfl
    (List.forall_mem_nil _) long
  obtain rfl := List.forall₂_nil_left_iff.mp texts
  exact ⟨_, ending, unshown⟩

end CommandLine

end BitRecord

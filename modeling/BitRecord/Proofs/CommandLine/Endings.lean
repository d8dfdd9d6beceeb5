/-
# How command lines end

Every command line ends with a status, and what is wrong first decides which: the
use of the program, then the format, then the words of data, then the record. A
record is printed or an error is logged, never both, and one error is logged at
most. `Ending.unforeseen` never occurs, since every failure on the way is of a
located family or of the digit limit (`Failure.isForeseen`). An integer beyond the
digit limit is an invalid value wherever it occurs, and one in a record ends the
output only after the lines in front of it.
-/

import BitRecord.CommandLine
import BitRecord.Proofs.CommandLine.Failures
import BitRecord.Proofs.CommandLine.Words
import BitRecord.Proofs.Session.Reading

namespace BitRecord.CommandLine

/-- The two commands. -/
inductive Command where
  | pack
  | unpack

namespace Command

/-- The word of a command. -/
def word : Command → String
  | pack => "pack"
  | unpack => "unpack"

/-- Whether a word of data is parsed: as a value to pack, or as a record to unpack. -/
def Understands : Command → String → Prop
  | pack, word => ∃ value, ValueText.parse word.toList = .ok value
  | unpack, word => ∃ record, ValueText.parseHex word.toList = .ok record

/-- Whether `pack` or `unpack` fails on data that is parsed, with a failure of a located family. -/
def Refuses (source : RandomSource) (given : String) (data : List String) : Command → Prop
  | pack => ∃ values failure, (data.mapM fun word => ValueText.parse word.toList) = .ok values ∧
      (BitRecord.pack (.text given) (.list values) source).outcome = .error failure ∧
      failure.cause.family.isLocated = true
  | unpack => ∃ word record failure, data = [word] ∧
      ValueText.parseHex word.toList = .ok record ∧
      (BitRecord.unpack (.text given) (.buffer .bytes record) .null).outcome = .error failure ∧
      failure.cause.family.isLocated = true

end Command

/-- Whether a word is accepted as a format. -/
def Accepts (given : String) : Prop :=
  ∃ format, (Format.compile (.text given)).outcome = .ok format

/-- The command lines for which the usage is printed: there are not enough words, the first one is
no command, or there is not exactly one record to unpack. -/
inductive Misused : List String → Prop
  | short {words : List String} (few : words.length < 2) : Misused words
  | unknown {word given : String} {data : List String} (other : ∀ command : Command,
      word ≠ command.word) : Misused (word :: given :: data)
  | data {given : String} {data : List String} (accepted : Accepts given)
      (other : data.length ≠ 1) : Misused (Command.unpack.word :: given :: data)

/-- The command lines that end because an integer has too many decimal digits: a quantity of the
format, an integer in the message about the values or the record, or one of a record that is
unpacked. -/
inductive Limited (source : RandomSource) : List String → Prop
  | format {given : String} {data : List String} {failure : Failure} (command : Command)
      (refused : (Format.compile (.text given)).outcome = .error failure)
      (long : failure.cause.isDigitLimit = true) :
      Limited source (command.word :: given :: data)
  | values {given : String} {data : List String} {values : List Value} {failure : Failure}
      (accepted : Accepts given)
      (parsed : (data.mapM fun word => ValueText.parse word.toList) = .ok values)
      (refused : (BitRecord.pack (.text given) (.list values) source).outcome = .error failure)
      (long : failure.cause.isDigitLimit = true) :
      Limited source (Command.pack.word :: given :: data)
  | record {given word : String} {record : Bytes} {failure : Failure} (accepted : Accepts given)
      (parsed : ValueText.parseHex word.toList = .ok record)
      (refused : (BitRecord.unpack (.text given) (.buffer .bytes record) .null).outcome =
        .error failure) (long : failure.cause.isDigitLimit = true) :
      Limited source [Command.unpack.word, given, word]
  | shown {given word : String} {record : Bytes} {payloads : List Payload}
      (parsed : ValueText.parseHex word.toList = .ok record)
      (unpacked : (BitRecord.unpack (.text given) (.buffer .bytes record) .null).outcome =
        .ok payloads) (long : ∃ payload ∈ payloads, payload.canWrite = false) :
      Limited source [Command.unpack.word, given, word]

open Classical in
/-- The status of a command: two for a format that is refused, else one for a word that is not
parsed, else two for data that is refused, else zero. -/
noncomputable def Command.verdict (source : RandomSource) (given : String) (data : List String)
    (command : Command) : Nat :=
  if ¬ Accepts given then 2
  else if ∃ word ∈ data, ¬ command.Understands word then 1
  else if command.Refuses source given data then 2
  else 0

/-- The status of a command line, the lines that it prints and the errors that it logs. -/
structure EndsCleanly (source : RandomSource) (words : List String) (report : Report) : Prop where
  /-- The status is zero, one or two. -/
  status : report.ending.status = 0 ∨ report.ending.status = 1 ∨ report.ending.status = 2
  /-- A misused command line prints the usage and logs no error, and all its events are
  `compiled`. -/
  misused : Misused words → report.ending.status = 1 ∧ report.ending.errors = [] ∧
    (∀ program, report.ending.output program = usage program ∧
      ∃ explanation, usage program =
        ("usage: " ++ program ++ " pack <format> [values...]") ::
          ("       " ++ program ++ " unpack <format> <hex data>") :: explanation) ∧
    ∀ event ∈ report.events, event.isReading = true
  /-- Any other one that does not meet the digit limit has the status of `Command.verdict`. -/
  verdict : ¬ Misused words → ¬ Limited source words →
    ∃ command given data, words = Command.word command :: given :: data ∧
      report.ending.status = command.verdict source given data
  /-- A command line that meets the digit limit has the status one, and logs the message of the
  limit. -/
  limited : Limited source words → report.ending.status = 1 ∧
    ∃ message, report.ending.errors = ["invalid value: " ++ message] ∧
      (message = DigitLimit.writeMessage ∨ ∃ digits, message = DigitLimit.readMessage digits)
  /-- With the status zero no error is logged. -/
  success : report.ending.status = 0 → report.ending.errors = []
  /-- With another status exactly one error is logged. -/
  error : ¬ Misused words → report.ending.status ≠ 0 →
    ∃ message, report.ending.errors = [message]
  /-- Nothing is printed with it, unless the digit limit is met. -/
  silent : ¬ Misused words → ¬ Limited source words → report.ending.status ≠ 0 →
    ∀ program, report.ending.output program = []

/-- The ending of a command that does not meet the digit limit, by what is wrong first. -/
inductive Concludes (source : RandomSource) (command : Command) (given : String)
    (data : List String) : Ending → Prop
  | format (failure : Failure) (refused : ¬ Accepts given) :
      Concludes source command given data (.refused failure)
  | misused (unclear : Misused (command.word :: given :: data)) :
      Concludes source command given data .misused
  | value (message : String) (accepted : Accepts given)
      (clear : ¬ Misused (command.word :: given :: data))
      (unknown : ∃ word ∈ data, ¬ command.Understands word) :
      Concludes source command given data (.invalidValue message)
  | record (failure : Failure) (accepted : Accepts given)
      (clear : ¬ Misused (command.word :: given :: data))
      (understood : ∀ word ∈ data, command.Understands word)
      (refused : command.Refuses source given data) :
      Concludes source command given data (.refused failure)
  | done (lines : List String) (accepted : Accepts given)
      (clear : ¬ Misused (command.word :: given :: data))
      (understood : ∀ word ∈ data, command.Understands word)
      (taken : ¬ command.Refuses source given data) :
      Concludes source command given data (.done lines)

variable {source : RandomSource} {command : Command} {given : String} {data : List String}

/-- A command is misused only when there is not exactly one record to unpack. -/
theorem misused_iff : Misused (command.word :: given :: data) ↔
    command = .unpack ∧ Accepts given ∧ data.length ≠ 1 := by
  apply Iff.intro
  · generalize same : command.word :: given :: data = words
    intro misused
    cases misused with
    | short few =>
        subst same
        exact absurd few (by simp)
    | unknown other => exact absurd (List.cons.inj same).1.symm (other command)
    | data accepted other =>
        obtain ⟨own, rest⟩ := List.cons.inj same
        obtain ⟨rfl, rfl⟩ := List.cons.inj rest
        cases command with
        | pack => exact absurd own (by decide)
        | unpack => exact ⟨rfl, accepted, other⟩
  · rintro ⟨rfl, accepted, other⟩
    exact .data accepted other

theorem ofFailure_of_located {failure : Failure}
    (located : failure.cause.family.isLocated = true) :
    Ending.ofFailure failure = .refused failure := by
  rw [Ending.ofFailure, if_pos located]

/-- All words are parsed exactly when each of them is. -/
private theorem exists_values_iff :
    (∃ values, (data.mapM fun word => ValueText.parse word.toList) = .ok values) ↔
      ∀ word ∈ data, Command.pack.Understands word := by
  simp only [mapM_eq_ok_iff]
  induction data with
  | nil => simp
  | cons word data ih =>
      rw [List.forall_mem_cons, ← ih]
      apply Iff.intro
      · rintro ⟨_, each⟩
        cases each with
        | cons first others => exact ⟨⟨_, first⟩, _, others⟩
      · rintro ⟨⟨value, first⟩, values, others⟩
        exact ⟨value :: values, .cons first others⟩

private theorem few_of_parsed {values : List Value}
    (parsed : (data.mapM fun word => ValueText.parse word.toList) = .ok values) :
    ∀ value ∈ values, value.hasItemsBelow Value.countBound = true := by
  have each := mapM_eq_ok_iff.mp parsed
  clear parsed
  induction each with
  | nil => exact List.forall_mem_nil _
  | cons first _ ih =>
      exact List.forall_mem_cons.mpr ⟨ValueText.hasItemsBelow_of_parse first _, ih⟩

theorem runPack_of_refused {failure : Failure}
    (refused : (Format.compile (.text given)).outcome = .error failure) :
    (runPack given data source).ending = .ofFailure failure := by
  unfold runPack
  dsimp only
  rw [refused]

theorem runPack_of_unparsed {format : Format} {refusal : ValueText.Refusal}
    (accepted : (Format.compile (.text given)).outcome = .ok format)
    (parsed : (data.mapM fun word => ValueText.parse word.toList) = .error refusal) :
    (runPack given data source).ending = .invalidValue refusal.message := by
  unfold runPack
  dsimp only
  rw [accepted]
  dsimp only
  rw [parsed]

/-- `runPack` of values that are parsed ends as `pack` does. -/
theorem runPack_of_parsed {format : Format} {values : List Value}
    (accepted : (Format.compile (.text given)).outcome = .ok format)
    (parsed : (data.mapM fun word => ValueText.parse word.toList) = .ok values) :
    (runPack given data source).ending = .ofOutcome (fun record => .done [Hex.ofBytes record])
      (BitRecord.pack (.text given) (.list values) source).outcome := by
  unfold runPack
  dsimp only
  rw [accepted]
  dsimp only
  rw [parsed]
  dsimp only [Report.ofTraced]
  rw [Traced.outcome_bind_of_ok accepted, Format.pack_of_compile accepted]

theorem runUnpack_of_refused {failure : Failure}
    (refused : (Format.compile (.text given)).outcome = .error failure) :
    (runUnpack given data).ending = .ofFailure failure := by
  unfold runUnpack
  dsimp only
  rw [refused]

/-- `runUnpack` of no word of data or of several ones is misused, with the events of `compile`. -/
theorem runUnpack_of_several {format : Format}
    (accepted : (Format.compile (.text given)).outcome = .ok format) (several : data.length ≠ 1) :
    runUnpack given data = ⟨(Format.compile (.text given)).events, .misused⟩ := by
  unfold runUnpack
  dsimp only
  rw [accepted]
  split
  · contradiction
  · exact absurd rfl several
  · rfl

theorem runUnpack_of_unparsed {format : Format} {word : String} {refusal : ValueText.Refusal}
    (accepted : (Format.compile (.text given)).outcome = .ok format)
    (parsed : ValueText.parseHex word.toList = .error refusal) :
    (runUnpack given [word]).ending = .invalidValue refusal.message := by
  unfold runUnpack
  dsimp only
  rw [accepted]
  dsimp only
  rw [parsed]

/-- `runUnpack` of a record that is parsed ends as `unpack` does. -/
theorem runUnpack_of_parsed {format : Format} {word : String} {record : Bytes}
    (accepted : (Format.compile (.text given)).outcome = .ok format)
    (parsed : ValueText.parseHex word.toList = .ok record) :
    (runUnpack given [word]).ending = .ofOutcome Ending.ofPayloads
      (BitRecord.unpack (.text given) (.buffer .bytes record) .null).outcome := by
  unfold runUnpack
  dsimp only
  rw [accepted]
  dsimp only
  rw [parsed]
  dsimp only [Report.ofTraced]
  rw [Traced.outcome_bind_of_ok accepted, Format.unpack_of_compile accepted]

/-- `Ending.ofPayloads` shows all payloads when `Payload.canWrite` holds of each. -/
theorem ofPayloads_of_canWrite {payloads : List Payload}
    (written : ∀ payload ∈ payloads, payload.canWrite = true) :
    ∃ lines, Ending.ofPayloads payloads = .done lines ∧
      List.Forall₂ (fun payload line => ValueText.format payload.toValue = .ok line)
        payloads lines := by
  obtain ⟨lines, shown, each⟩ := ValueText.formatAll_of_canWrite written
  exact ⟨lines, by rw [Ending.ofPayloads, shown], each⟩

/-- `Ending.ofPayloads` ends with `unshown` at the first payload on which `Payload.canWrite`
fails. -/
theorem ofPayloads_of_long {front back : List Payload} {payload : Payload}
    (written : ∀ earlier ∈ front, earlier.canWrite = true) (long : payload.canWrite = false) :
    ∃ lines, Ending.ofPayloads (front ++ payload :: back) =
        .unshown lines DigitLimit.writeMessage ∧
      List.Forall₂ (fun payload line => ValueText.format payload.toValue = .ok line)
        front lines := by
  obtain ⟨lines, shown, each⟩ := @ValueText.formatAll_of_long front back payload written long
  refine ⟨lines, ?_, each⟩
  rw [Ending.ofPayloads, shown]
  rfl

/-- A list with a payload on which `Payload.canWrite` fails has a first one. -/
private theorem exists_first_long {payloads : List Payload}
    (long : ∃ payload ∈ payloads, payload.canWrite = false) :
    ∃ front payload back, payloads = front ++ payload :: back ∧
      (∀ earlier ∈ front, earlier.canWrite = true) ∧ payload.canWrite = false := by
  obtain ⟨payload, member, unwritten⟩ := long
  have found : (payloads.find? fun payload => !payload.canWrite).isSome = true :=
    List.find?_isSome.mpr ⟨payload, member, by rw [unwritten]; rfl⟩
  obtain ⟨first, same⟩ := Option.isSome_iff_exists.mp found
  obtain ⟨own, front, back, split, others⟩ := List.find?_eq_some_iff_append.mp same
  exact ⟨front, first, back, split, by simpa using others, by simpa using own⟩

/-! ## Commands at the limit -/

private theorem not_misused_of_limited {words : List String} (limited : Limited source words) :
    ¬ Misused words := by
  cases limited with
  | format command refused long =>
      rw [misused_iff]
      rintro ⟨-, ⟨format, accepted⟩, -⟩
      rw [refused] at accepted
      contradiction
  | values => simp [misused_iff]
  | record | shown =>
      rw [misused_iff]
      rintro ⟨-, -, several⟩
      exact several rfl

/-- A command line does not meet the digit limit when its format is refused for another cause. -/
private theorem not_limited_of_refused {failure : Failure}
    (refused : (Format.compile (.text given)).outcome = .error failure)
    (short : failure.cause.isDigitLimit = false) :
    ¬ Limited source (command.word :: given :: data) := by
  generalize same : command.word :: given :: data = words
  intro limited
  cases limited with
  | format other own long =>
      obtain ⟨rfl, rfl⟩ := List.cons.inj (List.cons.inj same).2
      obtain rfl := Except.error.inj (refused.symm.trans own)
      rw [short] at long
      contradiction
  | values accepted | record accepted =>
      obtain ⟨rfl, -⟩ := List.cons.inj (List.cons.inj same).2
      obtain ⟨format, accepted⟩ := accepted
      rw [refused] at accepted
      contradiction
  | shown parsed unpacked long =>
      obtain ⟨rfl, -⟩ := List.cons.inj (List.cons.inj same).2
      rw [BitRecord.unpack, Traced.outcome_bind_of_error refused] at unpacked
      contradiction

/-- A foreseen failure about the digit limit is an invalid value, with one of the two messages of
`DigitLimit`. -/
private theorem ofFailure_of_isDigitLimit {failure : Failure}
    (foreseen : failure.isForeseen = true) (long : failure.cause.isDigitLimit = true) :
    ∃ message, Ending.ofFailure failure = .invalidValue message ∧
      (message = DigitLimit.writeMessage ∨ ∃ digits, message = DigitLimit.readMessage digits) := by
  obtain ⟨cause, position⟩ := failure
  cases cause with
  | longQuantity digits =>
      obtain rfl : position = none := Option.isNone_iff_eq_none.mp foreseen
      exact ⟨_, rfl, .inr ⟨digits, rfl⟩⟩
  | longInteger =>
      obtain rfl : position = none := Option.isNone_iff_eq_none.mp foreseen
      exact ⟨_, rfl, .inl rfl⟩
  | _ => contradiction

/-- A command line that meets the digit limit ends with one of its two messages. -/
private theorem run_of_limited (in_range : source.InRange) {words : List String}
    (limited : Limited source words) :
    ∃ message, ((run source words).ending = .invalidValue message ∨
        ∃ lines, (run source words).ending = .unshown lines message) ∧
      (message = DigitLimit.writeMessage ∨ ∃ digits, message = DigitLimit.readMessage digits) := by
  cases limited with
  | @format given data failure command refused long =>
      obtain ⟨message, same, limit⟩ :=
        ofFailure_of_isDigitLimit (Format.failsForeseen_compile given failure refused) long
      refine ⟨message, .inl ?_, limit⟩
      cases command with
      | pack => exact (runPack_of_refused refused).trans same
      | unpack => exact (runUnpack_of_refused refused).trans same
  | @values given data values failure accepted parsed refused long =>
      obtain ⟨format, accepted⟩ := accepted
      have own := (Format.pack_of_compile accepted _ _).symm.trans refused
      have foreseen := Format.failsForeseen_pack in_range (Format.valid_of_compile accepted)
        (few_of_parsed parsed) failure own
      obtain ⟨message, same, limit⟩ := ofFailure_of_isDigitLimit foreseen long
      have ending := @runPack_of_parsed source given data format values accepted parsed
      rw [refused] at ending
      exact ⟨message, .inl (ending.trans same), limit⟩
  | @record given word record failure accepted parsed refused long =>
      obtain ⟨format, accepted⟩ := accepted
      have own := (Format.unpack_of_compile accepted _ _).symm.trans refused
      obtain ⟨message, same, limit⟩ := ofFailure_of_isDigitLimit
        (Format.failsForeseen_unpack (Format.valid_of_compile accepted) record failure own) long
      have ending := runUnpack_of_parsed accepted parsed
      rw [refused] at ending
      exact ⟨message, .inl (ending.trans same), limit⟩
  | @shown given word record payloads parsed unpacked long =>
      obtain ⟨format, accepted, _⟩ := Traced.outcome_bind_eq_ok_iff.mp unpacked
      obtain ⟨front, payload, back, rfl, written, own⟩ := exists_first_long long
      obtain ⟨lines, same, _⟩ := @ofPayloads_of_long front back payload written own
      have ending := runUnpack_of_parsed accepted parsed
      rw [unpacked] at ending
      exact ⟨_, .inr ⟨lines, ending.trans same⟩, .inl rfl⟩

/-! ## Commands that do not meet the limit -/

private theorem isLocated_of_isForeseen {failure : Failure}
    (foreseen : failure.isForeseen = true) (short : ¬ failure.cause.isDigitLimit = true) :
    failure.cause.family.isLocated = true := by
  rw [Failure.isForeseen, Bool.eq_false_iff.mpr short, Bool.false_and, Bool.or_false] at foreseen
  exact foreseen

/-- A text that is refused for another cause than the digit limit has a failure of a located
family. -/
private theorem concludes_of_refused {failure : Failure}
    (unlimited : ¬ Limited source (command.word :: given :: data))
    (refused : (Format.compile (.text given)).outcome = .error failure) :
    Concludes source command given data (.ofFailure failure) := by
  rw [ofFailure_of_located (isLocated_of_isForeseen
    (Format.failsForeseen_compile given failure refused) fun long =>
      unlimited (.format command refused long))]
  refine .format failure ?_
  rintro ⟨format, accepted⟩
  rw [refused] at accepted
  contradiction

/-- The ending of `runPack`, which is never misused. -/
private theorem concludes_runPack (in_range : source.InRange)
    (unlimited : ¬ Limited source (Command.pack.word :: given :: data)) :
    Concludes source .pack given data (runPack given data source).ending := by
  have clear : ¬ Misused (Command.pack.word :: given :: data) := by simp [misused_iff]
  cases outcome : (Format.compile (.text given)).outcome with
  | error failure =>
      rw [runPack_of_refused outcome]
      exact concludes_of_refused unlimited outcome
  | ok format =>
      cases parsed : data.mapM fun word => ValueText.parse word.toList with
      | error refusal =>
          rw [runPack_of_unparsed outcome parsed]
          refine .value refusal.message ⟨format, outcome⟩ clear ?_
          by_contra! understood
          obtain ⟨values, all⟩ := exists_values_iff.mpr understood
          rw [parsed] at all
          contradiction
      | ok values =>
          have understood := exists_values_iff.mp ⟨values, parsed⟩
          rw [runPack_of_parsed outcome parsed]
          cases packed : (BitRecord.pack (.text given) (.list values) source).outcome with
          | error failure =>
              have own := (Format.pack_of_compile outcome _ _).symm.trans packed
              have located := isLocated_of_isForeseen
                (Format.failsForeseen_pack in_range (Format.valid_of_compile outcome)
                  (few_of_parsed parsed) failure own)
                fun long => unlimited (.values ⟨format, outcome⟩ parsed packed long)
              rw [Ending.ofOutcome, ofFailure_of_located located]
              exact .record failure ⟨format, outcome⟩ clear understood
                ⟨values, failure, parsed, packed, located⟩
          | ok record =>
              refine .done _ ⟨format, outcome⟩ clear understood ?_
              rintro ⟨others, failure, others_parsed, refused, _⟩
              obtain rfl := Except.ok.inj (parsed.symm.trans others_parsed)
              rw [packed] at refused
              contradiction

/-- The ending of `runUnpack` with one word of data, which is never misused. -/
private theorem concludes_runUnpack_of_word {word : String} {format : Format}
    (unlimited : ¬ Limited source (Command.unpack.word :: given :: [word]))
    (outcome : (Format.compile (.text given)).outcome = .ok format) :
    Concludes source .unpack given [word] (runUnpack given [word]).ending := by
  have clear : ¬ Misused (Command.unpack.word :: given :: [word]) := by simp [misused_iff]
  cases parsed : ValueText.parseHex word.toList with
  | error refusal =>
      rw [runUnpack_of_unparsed outcome parsed]
      refine .value refusal.message ⟨format, outcome⟩ clear ⟨word, List.mem_cons_self, ?_⟩
      rintro ⟨record, understood⟩
      rw [parsed] at understood
      contradiction
  | ok record =>
      have understood : ∀ other ∈ [word], Command.unpack.Understands other :=
        List.forall_mem_singleton.mpr ⟨record, parsed⟩
      rw [runUnpack_of_parsed outcome parsed]
      cases unpacked : (BitRecord.unpack (.text given) (.buffer .bytes record) .null).outcome with
      | error failure =>
          have own := (Format.unpack_of_compile outcome _ _).symm.trans unpacked
          have located := isLocated_of_isForeseen
            (Format.failsForeseen_unpack (Format.valid_of_compile outcome) record failure own)
            fun long => unlimited (.record ⟨format, outcome⟩ parsed unpacked long)
          rw [Ending.ofOutcome, ofFailure_of_located located]
          exact .record failure ⟨format, outcome⟩ clear understood
            ⟨word, record, failure, rfl, parsed, unpacked, located⟩
      | ok payloads =>
          have written : ∀ payload ∈ payloads, payload.canWrite = true := by
            intro payload member
            by_contra long
            exact unlimited (.shown parsed unpacked
              ⟨payload, member, Bool.eq_false_iff.mpr long⟩)
          obtain ⟨lines, ending, _⟩ := ofPayloads_of_canWrite written
          rw [Ending.ofOutcome, ending]
          refine .done lines ⟨format, outcome⟩ clear understood ?_
          rintro ⟨other, held, failure, same, held_parsed, refused, _⟩
          obtain rfl := (List.cons.inj same).1
          obtain rfl := Except.ok.inj (parsed.symm.trans held_parsed)
          rw [unpacked] at refused
          contradiction

/-- The ending of `runUnpack`, which is misused unless there is one word of data. -/
private theorem concludes_runUnpack
    (unlimited : ¬ Limited source (Command.unpack.word :: given :: data)) :
    Concludes source .unpack given data (runUnpack given data).ending := by
  cases outcome : (Format.compile (.text given)).outcome with
  | error failure =>
      rw [runUnpack_of_refused outcome]
      exact concludes_of_refused unlimited outcome
  | ok format =>
      by_cases single : data.length = 1
      · obtain ⟨word, rfl⟩ := List.length_eq_one_iff.mp single
        exact concludes_runUnpack_of_word unlimited outcome
      · rw [runUnpack_of_several outcome single]
        exact .misused (.data ⟨format, outcome⟩ single)

/-- Every command that does not meet the digit limit has an ending of `Concludes`. -/
theorem concludes_run (in_range : source.InRange) (command : Command) (given : String)
    (data : List String) (unlimited : ¬ Limited source (command.word :: given :: data)) :
    Concludes source command given data (run source (command.word :: given :: data)).ending := by
  cases command with
  | pack => exact concludes_runPack in_range unlimited
  | unpack => exact concludes_runUnpack unlimited

/-- A misused command line prints the usage, which starts with the two ways to call the
program. -/
private theorem output_misused (program : String) :
    Ending.misused.output program = usage program ∧ ∃ explanation, usage program =
      ("usage: " ++ program ++ " pack <format> [values...]") ::
        ("       " ++ program ++ " unpack <format> <hex data>") :: explanation :=
  ⟨rfl, _, rfl⟩

/-- A report of one error and no output ends cleanly with the status of `Command.verdict`. -/
private theorem endsCleanly_of_error {report : Report} {message : String}
    (clear : ¬ Misused (command.word :: given :: data))
    (unlimited : ¬ Limited source (command.word :: given :: data))
    (verdict : report.ending.status = command.verdict source given data)
    (status : report.ending.status = 1 ∨ report.ending.status = 2)
    (error : report.ending.errors = [message])
    (silent : ∀ program, report.ending.output program = []) :
    EndsCleanly source (command.word :: given :: data) report where
  status := .inr status
  misused := fun unclear => absurd unclear clear
  verdict := fun _ _ => ⟨command, given, data, rfl, verdict⟩
  limited := fun limited => absurd limited unlimited
  success := fun well => by
    rw [well] at status
    contradiction
  error := fun _ _ => ⟨message, error⟩
  silent := fun _ _ _ => silent

/-- An ending of `Concludes` is clean. -/
private theorem endsCleanly_of_concludes {report : Report}
    (unlimited : ¬ Limited source (command.word :: given :: data))
    (concluded : Concludes source command given data report.ending)
    (reading : Misused (command.word :: given :: data) →
      ∀ event ∈ report.events, event.isReading = true) :
    EndsCleanly source (command.word :: given :: data) report := by
  obtain ⟨events, ending⟩ := report
  cases concluded with
  | misused unclear =>
      exact {
        status := .inr (.inl rfl)
        misused := fun _ => ⟨rfl, rfl, output_misused, reading unclear⟩
        verdict := fun clear => absurd unclear clear
        limited := fun limited => absurd limited unlimited
        success := fun _ => rfl
        error := fun clear => absurd unclear clear
        silent := fun clear => absurd unclear clear }
  | format failure refused =>
      have clear : ¬ Misused (command.word :: given :: data) :=
        fun unclear => refused (misused_iff.mp unclear).2.1
      exact endsCleanly_of_error clear unlimited (if_pos refused).symm (.inr rfl) rfl fun _ => rfl
  | value message accepted clear unknown =>
      refine endsCleanly_of_error clear unlimited ?_ (.inl rfl) rfl fun _ => rfl
      rw [Command.verdict, if_neg (not_not_intro accepted), if_pos unknown]
      rfl
  | record failure accepted clear understood refused =>
      refine endsCleanly_of_error clear unlimited ?_ (.inr rfl) rfl fun _ => rfl
      rw [Command.verdict, if_neg (not_not_intro accepted), if_neg (by simpa using understood),
        if_pos refused]
      rfl
  | done lines accepted clear understood taken =>
      exact {
        status := .inl rfl
        misused := fun unclear => absurd unclear clear
        verdict := fun _ _ => ⟨command, given, data, rfl, by
          rw [Command.verdict, if_neg (not_not_intro accepted), if_neg (by simpa using understood),
            if_neg taken]
          rfl⟩
        limited := fun limited => absurd limited unlimited
        success := fun _ => rfl
        error := fun _ wrong => absurd rfl wrong
        silent := fun _ _ wrong => absurd rfl wrong }

/-- A command line that meets the digit limit ends cleanly. -/
private theorem endsCleanly_of_limited (in_range : source.InRange) {words : List String}
    (limited : Limited source words) : EndsCleanly source words (run source words) := by
  have clear := not_misused_of_limited limited
  obtain ⟨message, ending, limit⟩ := run_of_limited in_range limited
  have status : (run source words).ending.status = 1 := by
    obtain same | ⟨lines, same⟩ := ending <;> rw [same] <;> rfl
  have errors : (run source words).ending.errors = ["invalid value: " ++ message] := by
    obtain same | ⟨lines, same⟩ := ending <;> rw [same] <;> rfl
  exact {
    status := .inr (.inl status)
    misused := fun unclear => absurd unclear clear
    verdict := fun _ unlimited => absurd limited unlimited
    limited := fun _ => ⟨status, message, errors, limit⟩
    success := fun well => by
      rw [status] at well
      contradiction
    error := fun _ _ => ⟨_, errors⟩
    silent := fun _ unlimited => absurd limited unlimited }

/-- A command line without a command and a format is misused, with no events. -/
private theorem run_of_unrecognized {words : List String}
    (unrecognized : ¬ ∃ command given data, words = Command.word command :: given :: data) :
    run source words = ⟨[], .misused⟩ ∧ Misused words := by
  apply And.intro
  · unfold run
    split
    · exact absurd ⟨.pack, _, _, rfl⟩ unrecognized
    · exact absurd ⟨.unpack, _, _, rfl⟩ unrecognized
    · rfl
  · match words with
    | [] => exact .short Nat.zero_lt_two
    | [_] => exact .short Nat.one_lt_two
    | word :: given :: data =>
        refine .unknown fun command same => unrecognized ⟨command, given, data, ?_⟩
        rw [same]

/-- All events of a misused command are `compiled`. -/
private theorem events_of_misused (unclear : Misused (command.word :: given :: data)) :
    ∀ event ∈ (run source (command.word :: given :: data)).events, event.isReading = true := by
  obtain ⟨rfl, ⟨format, accepted⟩, several⟩ := misused_iff.mp unclear
  intro event member
  change event ∈ (runUnpack given data).events at member
  rw [runUnpack_of_several accepted several] at member
  exact Format.compile_reads _ event member

/-- Every command line ends cleanly (`EndsCleanly`): with the status of the first thing that is
wrong, and with the usage or exactly one error for it. -/
theorem run_ends_cleanly (in_range : source.InRange) (words : List String) :
    EndsCleanly source words (run source words) := by
  by_cases limited : Limited source words
  · exact endsCleanly_of_limited in_range limited
  by_cases recognized : ∃ command given data, words = Command.word command :: given :: data
  · obtain ⟨command, given, data, rfl⟩ := recognized
    exact endsCleanly_of_concludes limited (concludes_run in_range command given data limited)
      events_of_misused
  · obtain ⟨same, unclear⟩ := @run_of_unrecognized source words recognized
    rw [same]
    exact {
      status := .inr (.inl rfl)
      misused := fun _ => ⟨rfl, rfl, output_misused, List.forall_mem_nil _⟩
      verdict := fun clear => absurd unclear clear
      limited := fun own => absurd own limited
      success := fun _ => rfl
      error := fun clear => absurd unclear clear
      silent := fun clear => absurd unclear clear }

/-- Three words do not make one scalar, and that is the error although the value is no integer. -/
theorem run_ends_cleanly_several :
    (run (.cyclic #[0]) ["pack", "%3d", "twelve"]).ending.status = 2 ∧
      ∃ message, (run (.cyclic #[0]) ["pack", "%3d", "twelve"]).ending.errors = [message] := by
  have in_range := RandomSource.inRange_cyclic (show 0 < (#[0] : Array Int).size by decide)
  have clean := run_ends_cleanly in_range ["pack", "%3d", "twelve"]
  have clear : ¬ Misused (Command.pack.word :: "%3d" :: ["twelve"]) := by simp [misused_iff]
  have stops : (Format.compile (.text "%3d")).outcome =
      .error ⟨.invalidField .severalScalars ⟨.word32, 3, .native, false, none, .scalar⟩, some 0⟩ :=
    @Format.compile_error_of_piecesWithin _ 3 _ (by decide) (by decide +kernel)
  have refused : ¬ Accepts "%3d" := by
    rintro ⟨format, accepted⟩
    rw [stops] at accepted
    contradiction
  have unlimited : ¬ Limited (.cyclic #[0]) (Command.pack.word :: "%3d" :: ["twelve"]) :=
    not_limited_of_refused stops rfl
  obtain ⟨command, given, data, same, status⟩ := clean.verdict clear unlimited
  obtain ⟨_, words⟩ := List.cons.inj same
  obtain ⟨rfl, rfl⟩ := List.cons.inj words
  rw [Command.verdict, if_pos refused] at status
  refine ⟨status, clean.error clear ?_⟩
  rw [status]
  decide

end BitRecord.CommandLine

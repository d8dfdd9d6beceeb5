/-
# The cache changes no answer

A call in a session has the outcome of the call alone, and the same events but
for the `compiled` ones. After any calls the texts of the cache are the accepted
ones in the order of their last use, each once, at most `Cache.capacity` of them,
and each with the items that `Format.compile` gives (`Cache.Recalls`). So the
`compiled` events are missing exactly when the text is among them. A text that is
refused is never among them and is compiled at every call.
-/

import BitRecord.Proofs.Session.Reading
import Mathlib.Data.Finset.Card

namespace BitRecord

section Recency

variable {α : Type} [BEq α] [LawfulBEq α]

/-- `List.eraseDups` commutes with `List.filter`. -/
theorem eraseDups_filter (keep : α → Bool) (list : List α) :
    (list.filter keep).eraseDups = list.eraseDups.filter keep := by
  cases list with
  | nil => rfl
  | cons first rest =>
      have others := eraseDups_filter keep (rest.filter fun other => !other == first)
      rw [List.eraseDups_cons, List.filter_cons, List.filter_cons, ← others, List.filter_filter]
      by_cases kept : keep first = true
      · rw [if_pos kept, if_pos kept, List.eraseDups_cons, List.filter_filter]
        simp only [Bool.and_comm]
      · rw [if_neg kept, if_neg kept]
        refine congrArg List.eraseDups (List.filter_congr fun other _ => ?_)
        by_cases same : other = first
        · simp [same, kept]
        · simp [same]
termination_by list.length
decreasing_by exact Nat.lt_succ_of_le (List.length_filter_le _ _)

theorem nodup_eraseDups (list : List α) : list.eraseDups.Nodup := by
  cases list with
  | nil => exact List.nodup_nil
  | cons first rest =>
      rw [List.eraseDups_cons, List.nodup_cons]
      refine ⟨?_, nodup_eraseDups _⟩
      simp [List.mem_eraseDups]
termination_by list.length
decreasing_by exact Nat.lt_succ_of_le (List.length_filter_le _ _)

/-- Without one element, `room` of the others are found among the first `room + 1` elements. -/
theorem take_filter_take {list : List α} (nodup : list.Nodup) (element : α) (room : Nat) :
    ((list.take (room + 1)).filter fun other => !other == element).take room =
      (list.filter fun other => !other == element).take room := by
  by_cases short : list.length ≤ room + 1
  · rw [List.take_of_length_le short]
  · have enough :
        room ≤ ((list.take (room + 1)).filter fun other => !other == element).length := by
      have erased := @List.le_length_erase _ _ _ element (list.take (room + 1))
      rw [(nodup.sublist (List.take_sublist _ _)).erase_eq_filter, List.length_take] at erased
      exact Nat.le_trans (by omega) erased
    conv_rhs => rw [← List.take_append_drop (room + 1) list, List.filter_append]
    rw [List.take_append_of_le_length enough]

/-- An element is among the first `room` distinct ones exactly when fewer others are in front of
it. -/
theorem mem_take_eraseDups_iff [DecidableEq α] {since : List α} {element : α}
    (unused : element ∉ since) (earlier : List α) (room : Nat) :
    element ∈ (since ++ element :: earlier).eraseDups.take room ↔
      since.toFinset.card < room := by
  have count : since.toFinset.card = since.eraseDups.length := by
    rw [← List.toFinset_card_of_nodup (nodup_eraseDups since)]
    exact congrArg _ (Finset.ext fun other => by simp [List.mem_eraseDups])
  have absent : element ∉ since.eraseDups := fun member => unused (List.mem_eraseDups.mp member)
  have behind : (element :: earlier).removeAll since = element :: earlier.removeAll since := by
    simp [List.removeAll, unused]
  rw [count, List.eraseDups_append, behind, List.eraseDups_cons, List.take_append, List.mem_append]
  apply Iff.intro
  · rintro (front | back)
    · exact absurd (List.mem_of_mem_take front) absent
    · by_contra full
      rw [Nat.sub_eq_zero_of_le (Nat.not_lt.mp full)] at back
      contradiction
  · intro room_left
    obtain ⟨more, same⟩ := Nat.exists_eq_add_one.mpr (Nat.sub_pos_of_lt room_left)
    right
    rw [same]
    exact List.mem_cons_self

end Recency

namespace Format

/-- The text of a value, if `Format.compile` accepts it. -/
def acceptedText? (given : Value) : Option (List Char) :=
  match (compile given).outcome with
  | .ok _ => textOf? given
  | .error _ => none

/-- Whether a text is accepted does not depend on the value that holds it. -/
theorem acceptedText?_eq_some_iff {given : Value} {text : List Char} :
    acceptedText? given = some text ↔
      textOf? given = some text ∧ ∀ piece ∈ pieces text, piece.Sound := by
  rw [acceptedText?]
  cases outcome : (compile given).outcome with
  | ok format =>
      obtain ⟨own, held, sound, _⟩ := compile_outcome_eq_ok_iff.mp outcome
      apply Iff.intro
      · intro same
        obtain rfl := Option.some.inj (held.symm.trans same)
        exact ⟨held, sound⟩
      · exact And.left
  | error failure =>
      apply iff_of_false
      · exact Option.some_ne_none _ ∘ Eq.symm
      · rintro ⟨held, sound⟩
        rw [compile_outcome_eq_ok_iff.mpr ⟨text, held, sound, rfl⟩] at outcome
        contradiction

end Format

/-- The text of the format of a call, if it is accepted. -/
def Call.accepted? (call : Call) : Option (List Char) := Format.acceptedText? call.given

namespace Cache

/-- The first `capacity` distinct texts of a history. In a history the last text stands in front. -/
def latest (history : List (List Char)) : List (List Char) := history.eraseDups.take capacity

/-- Whether the texts of a cache are the latest ones of a history, each with its items. -/
structure Recalls (cache : Cache) (history : List (List Char)) : Prop where
  texts : cache.entries.map (·.1) = latest history
  items : ∀ entry ∈ cache.entries,
    (∀ piece ∈ pieces entry.1, piece.Sound) ∧ entry.2 = Piece.items 0 (pieces entry.1)

variable {cache : Cache} {history : List (List Char)} {text : List Char} {given : Value}

/-- A text is among the latest ones exactly when fewer than `capacity` others were used since. -/
theorem mem_latest_iff {since : List (List Char)} (unused : text ∉ since)
    (earlier : List (List Char)) :
    text ∈ latest (since ++ text :: earlier) ↔ since.toFinset.card < capacity :=
  mem_take_eraseDups_iff unused earlier capacity

theorem mem_of_mem_latest (member : text ∈ latest history) : text ∈ history :=
  List.mem_eraseDups.mp (List.mem_of_mem_take member)

theorem recalls_empty : empty.Recalls [] := ⟨rfl, List.forall_mem_nil _⟩

theorem lookup?_eq_none_iff : cache.lookup? text = none ↔ text ∉ cache.entries.map (·.1) := by
  simp only [lookup?, Option.map_eq_none_iff, List.find?_eq_none, List.mem_map, not_exists, not_and,
    decide_eq_true_eq]

/-- A text in the cache is accepted and stands with its items. -/
theorem Recalls.of_lookup? (recalls : cache.Recalls history) {items : List Item}
    (found : cache.lookup? text = some items) :
    (∀ piece ∈ pieces text, piece.Sound) ∧ items = Piece.items 0 (pieces text) := by
  obtain ⟨entry, listed, rfl⟩ := Option.map_eq_some_iff.mp found
  have same : entry.1 = text := by simpa using List.find?_some listed
  exact same ▸ recalls.items entry (List.mem_of_find?_eq_some listed)

/-- `remember` makes a text the latest one. -/
theorem Recalls.remember (recalls : cache.Recalls history)
    (sound : ∀ piece ∈ pieces text, piece.Sound) :
    (cache.remember text (Piece.items 0 (pieces text))).Recalls (text :: history) := by
  constructor
  · have others : (cache.entries.filter fun entry => entry.1 ≠ text).map (·.1) =
        (cache.entries.map (·.1)).filter fun other => !other == text := by
      rw [List.filter_map]
      refine congrArg _ (List.filter_congr fun entry _ => ?_)
      by_cases same : entry.1 = text <;> simp [same]
    rw [Cache.remember, List.map_cons, List.map_take, others, recalls.texts, latest, latest,
      List.eraseDups_cons, eraseDups_filter]
    exact congrArg (text :: ·) (take_filter_take (nodup_eraseDups history) text (capacity - 1))
  · intro entry member
    rcases List.mem_cons.mp member with rfl | other
    · exact ⟨sound, rfl⟩
    · exact recalls.items entry (List.mem_filter.mp (List.mem_of_mem_take other)).1

/-- `Cache.compile` leaves no events when the text is among the latest ones, and is `Format.compile`
otherwise. Either way an accepted text becomes the latest one. -/
theorem Recalls.compile_cases (recalls : cache.Recalls history) (given : Value) :
    (∃ text ∈ latest history, Format.acceptedText? given = some text ∧
        cache.compile given = (⟨[], (Format.compile given).outcome⟩,
          cache.remember text (Piece.items 0 (pieces text)))) ∨
      (∃ text ∉ latest history, Format.acceptedText? given = some text ∧
        cache.compile given = (Format.compile given,
          cache.remember text (Piece.items 0 (pieces text)))) ∨
      Format.acceptedText? given = none ∧ cache.compile given = (Format.compile given, cache) := by
  rw [← recalls.texts]
  cases held : Format.textOf? given with
  | none =>
      right; right
      refine ⟨?_, by simp [compile, held]⟩
      by_contra accepted
      obtain ⟨text, accepted⟩ := Option.ne_none_iff_exists'.mp accepted
      rw [(Format.acceptedText?_eq_some_iff.mp accepted).1] at held
      contradiction
  | some text =>
      cases found : cache.lookup? text with
      | some items =>
          left
          obtain ⟨sound, rfl⟩ := recalls.of_lookup? found
          have present : text ∈ cache.entries.map (·.1) := by
            by_contra absent
            rw [lookup?_eq_none_iff.mpr absent] at found
            contradiction
          have compiled := Format.compile_outcome_eq_ok_iff.mpr ⟨text, held, sound, rfl⟩
          refine ⟨text, present, Format.acceptedText?_eq_some_iff.mpr ⟨held, sound⟩, ?_⟩
          simp [compile, held, found, compiled, Traced.pure]
      | none =>
          right
          cases outcome : (Format.compile given).outcome with
          | error failure =>
              right
              exact ⟨by rw [Format.acceptedText?, outcome], by simp [compile, held, found, outcome]⟩
          | ok format =>
              left
              obtain ⟨own, own_held, sound, rfl⟩ := Format.compile_outcome_eq_ok_iff.mp outcome
              obtain rfl := Option.some.inj (held.symm.trans own_held)
              refine ⟨text, lookup?_eq_none_iff.mp found,
                Format.acceptedText?_eq_some_iff.mpr ⟨held, sound⟩, ?_⟩
              simp [compile, held, found, outcome]

/-- The cache after `Cache.compile`. -/
theorem Recalls.compile (recalls : cache.Recalls history) (given : Value) :
    (cache.compile given).2.Recalls ((Format.acceptedText? given).toList ++ history) := by
  rcases recalls.compile_cases given with
    ⟨text, _, accepted, same⟩ | ⟨text, _, accepted, same⟩ | ⟨refused, same⟩
  · rw [same, accepted]
    exact recalls.remember (Format.acceptedText?_eq_some_iff.mp accepted).2
  · rw [same, accepted]
    exact recalls.remember (Format.acceptedText?_eq_some_iff.mp accepted).2
  · rw [same, refused]
    exact recalls

end Cache

namespace Session

/-- The cache after calls. -/
def leave : Cache → List Call → Cache
  | cache, [] => cache
  | cache, call :: calls => leave (perform cache call).2 calls

/-- The answer to a call with the empty cache. -/
def alone (call : Call) : Traced Answer := (perform .empty call).1

/-- Events, the `compiled` ones left out. -/
def withoutReading (events : List Event) : List Event := events.filter fun event => !event.isReading

variable {cache : Cache} {history : List (List Char)}

/-- A call whose format is in the cache gives what it gives alone, without the `compiled` events. -/
theorem bind_recalled (call : Call) :
    ((⟨[], (Format.compile call.given).outcome⟩ : Traced Format) >>= fun format =>
        call.run format) =
      ⟨withoutReading (Format.compile call.given >>= fun format => call.run format).events,
        (Format.compile call.given >>= fun format => call.run format).outcome⟩ := by
  have nothing : withoutReading (Format.compile call.given).events = [] :=
    List.filter_eq_nil_iff.mpr fun event member => by
      simp [Format.compile_reads call.given event member]
  cases outcome : (Format.compile call.given).outcome with
  | error failure =>
      rw [Traced.events_bind_of_error outcome, Traced.outcome_bind_of_error outcome, nothing]
      rfl
  | ok format =>
      have all : withoutReading (call.run format).events = (call.run format).events :=
        List.filter_eq_self.mpr fun event member => by
          simp [call.readsNothing_run format event member]
      rw [Traced.events_bind_of_ok outcome, Traced.outcome_bind_of_ok outcome, Traced.ok_bind,
        withoutReading, List.filter_append]
      change _ = (⟨withoutReading _ ++ withoutReading _, _⟩ : Traced Answer)
      rw [nothing, all]

private theorem perform_of_compile {format : Traced Format} {following : Cache} {call : Call}
    (compiled : cache.compile call.given = (format, following)) :
    (perform cache call).1 = format >>= fun format => call.run format := by
  rw [perform, compiled]

/-- The answer to a call alone is that of compiling its format and running it. -/
theorem alone_eq (call : Call) :
    alone call = Format.compile call.given >>= fun format => call.run format := by
  rcases Cache.recalls_empty.compile_cases call.given with
    ⟨_, member, _⟩ | ⟨_, _, _, same⟩ | ⟨_, same⟩
  · contradiction
  · exact perform_of_compile same
  · exact perform_of_compile same

/-- The answer to a call is that of the call alone, without the `compiled` events when its text is
among the latest ones. -/
theorem perform_cases (recalls : cache.Recalls history) (call : Call) :
    (∃ text ∈ Cache.latest history, call.accepted? = some text ∧
        (perform cache call).1 = ⟨withoutReading (alone call).events, (alone call).outcome⟩) ∨
      (∀ text ∈ Cache.latest history, call.accepted? ≠ some text) ∧
        (perform cache call).1 = alone call := by
  rw [alone_eq]
  rcases recalls.compile_cases call.given with
    ⟨text, member, accepted, same⟩ | ⟨text, absent, accepted, same⟩ | ⟨refused, same⟩
  · exact .inl ⟨text, member, accepted, (perform_of_compile same).trans (bind_recalled call)⟩
  · refine .inr ⟨fun other member other_accepted => ?_, perform_of_compile same⟩
    obtain rfl := Option.some.inj (accepted.symm.trans other_accepted)
    exact absent member
  · refine .inr ⟨fun other _ accepted => ?_, perform_of_compile same⟩
    exact Option.some_ne_none other (accepted.symm.trans refused)

/-- The cache after calls recalls the accepted texts of the calls, the last one in front. -/
theorem recalls_leave (recalls : cache.Recalls history) (calls : List Call) :
    (leave cache calls).Recalls ((calls.filterMap Call.accepted?).reverse ++ history) := by
  induction calls generalizing cache history with
  | nil => exact recalls
  | cons call calls ih =>
      have later := ih (recalls.compile call.given)
      rw [← List.append_assoc] at later
      rw [leave, List.filterMap_cons]
      change (leave (cache.compile call.given).2 calls).Recalls _
      cases accepted : call.accepted? with
      | none =>
          rw [show Format.acceptedText? call.given = none from accepted] at later
          simpa using later
      | some text =>
          rw [show Format.acceptedText? call.given = some text from accepted] at later
          simpa using later

/-- The answer to a call in the middle of others. -/
theorem getElem?_run (cache : Cache) (before : List Call) (call : Call) (after : List Call) :
    (run cache (before ++ call :: after))[before.length]? =
      some (perform (leave cache before) call).1 := by
  induction before generalizing cache with
  | nil => rfl
  | cons first before ih => exact ih _

/-- The answer to a call behind other calls is that of the call alone but for the `compiled`
events. -/
structure Mirrors (before : List Call) (call : Call) (answer : Traced Answer) : Prop where
  /-- The outcome is that of the call alone. -/
  outcome : answer.outcome = (alone call).outcome
  /-- So are the events, except that all `compiled` ones may be missing. -/
  events : answer.events = (alone call).events ∨
    answer.events = withoutReading (alone call).events
  /-- They are missing when the text was accepted before and fewer than `capacity` other texts
  since. -/
  recalled : ∀ (front since : List Call) (last : Call) (text : List Char),
    before = front ++ last :: since → last.accepted? = some text →
    Format.textOf? call.given = some text → (∀ other ∈ since, other.accepted? ≠ some text) →
    (since.filterMap Call.accepted?).toFinset.card < Cache.capacity →
    answer.events = withoutReading (alone call).events
  /-- They are left again when `capacity` other texts were accepted since. -/
  forgotten : ∀ (front since : List Call) (last : Call) (text : List Char),
    before = front ++ last :: since → last.accepted? = some text →
    Format.textOf? call.given = some text → (∀ other ∈ since, other.accepted? ≠ some text) →
    Cache.capacity ≤ (since.filterMap Call.accepted?).toFinset.card →
    answer.events = (alone call).events
  /-- They are left when the text was never accepted before. -/
  fresh : (∀ text, Format.textOf? call.given = some text →
      ∀ earlier ∈ before, earlier.accepted? ≠ some text) →
    answer.events = (alone call).events
  /-- A text that is refused leaves each time the `compiled` events of the fields in front of the
  piece at fault. -/
  refused : ∀ (text : List Char) (failure : Failure),
    Format.textOf? call.given = some text →
    (Format.compile call.given).outcome = .error failure →
    ∃ front piece back, pieces text = front ++ piece :: back ∧ (∀ other ∈ front, other.Sound) ∧
      ¬ piece.Sound ∧ answer.events = front.filterMap Piece.event? ∧
      answer.outcome = .error failure

/-- A text accepted before is among the latest ones exactly when fewer than `capacity` others were
accepted since. -/
private theorem mem_latest_of_calls_iff {front since : List Call} {last : Call} {text : List Char}
    (accepted : last.accepted? = some text)
    (unused : ∀ other ∈ since, other.accepted? ≠ some text) :
    text ∈ Cache.latest ((front ++ last :: since).filterMap Call.accepted?).reverse ↔
      (since.filterMap Call.accepted?).toFinset.card < Cache.capacity := by
  have absent : text ∉ (since.filterMap Call.accepted?).reverse := by
    rw [List.mem_reverse, List.mem_filterMap]
    rintro ⟨other, member, same⟩
    exact unused other member same
  rw [List.filterMap_append, List.filterMap_cons_some accepted, List.reverse_append,
    List.reverse_cons, List.append_assoc, List.singleton_append, Cache.mem_latest_iff absent,
    List.toFinset_reverse]

/-- The text of a call is accepted when an earlier call had it accepted. -/
private theorem accepted?_of_textOf? {call earlier : Call} {text : List Char}
    (accepted : earlier.accepted? = some text) (held : Format.textOf? call.given = some text) :
    call.accepted? = some text :=
  Format.acceptedText?_eq_some_iff.mpr ⟨held, (Format.acceptedText?_eq_some_iff.mp accepted).2⟩

/-- A call alone with a text that is refused leaves the `compiled` events of the fields in front of
the piece at fault. -/
private theorem alone_of_refused {call : Call} {text : List Char} {failure : Failure}
    (held : Format.textOf? call.given = some text)
    (refused : (Format.compile call.given).outcome = .error failure) :
    ∃ front piece back, pieces text = front ++ piece :: back ∧ (∀ other ∈ front, other.Sound) ∧
      ¬ piece.Sound ∧ (alone call).events = front.filterMap Piece.event? ∧
      (alone call).outcome = .error failure := by
  obtain ⟨front, back, whole, sound, stopped, told⟩ := Format.compile_events held
  cases back with
  | nil =>
      rw [List.append_nil] at whole
      rw [Format.compile_outcome_eq_ok_iff.mpr ⟨text, held, whole ▸ sound, rfl⟩] at refused
      contradiction
  | cons piece back =>
      refine ⟨front, piece, back, whole, sound, stopped piece rfl, ?_, ?_⟩
      · rw [alone_eq, Traced.events_bind_of_error refused, told]
      · rw [alone_eq, Traced.outcome_bind_of_error refused]

/-- In any sequence of calls each answer is that of the call alone, but for the `compiled` events.
These are missing exactly when the text was accepted before and fewer than `capacity` other texts
since its last use. -/
theorem run_transparent (before after : List Call) (call : Call) :
    ∃ answer, (run .empty (before ++ call :: after))[before.length]? = some answer ∧
      Mirrors before call answer := by
  refine ⟨_, getElem?_run .empty before call after, ?_⟩
  have recalls := recalls_leave Cache.recalls_empty before
  rw [List.append_nil] at recalls
  rcases perform_cases recalls call with
    ⟨text, member, accepted, same⟩ | ⟨absent, same⟩
  · have held := (Format.acceptedText?_eq_some_iff.mp accepted).1
    rw [same]
    constructor
    · rfl
    · exact .inr rfl
    · intros
      rfl
    · rintro front since last own rfl own_accepted own_held unused full
      obtain rfl := Option.some.inj (held.symm.trans own_held)
      exact absurd ((mem_latest_of_calls_iff own_accepted unused).mp member) (Nat.not_lt.mpr full)
    · intro never
      have used := Cache.mem_of_mem_latest member
      rw [List.mem_reverse, List.mem_filterMap] at used
      obtain ⟨earlier, earlier_member, earlier_accepted⟩ := used
      exact absurd earlier_accepted (never text held earlier earlier_member)
    · intro own failure _ refused
      rw [Call.accepted?, Format.acceptedText?, refused] at accepted
      contradiction
  · rw [same]
    constructor
    · rfl
    · exact .inl rfl
    · rintro front since last text rfl accepted held unused few
      exact absurd (accepted?_of_textOf? accepted held)
        (absent text ((mem_latest_of_calls_iff accepted unused).mpr few))
    · intros
      rfl
    · intros
      rfl
    · intro text failure held refused
      exact alone_of_refused held refused

/-- A format given as a text is found in the cache when it is given as bytes, behind another one
that was refused. -/
theorem run_transparent_shared :
    ∃ answer, (run .empty [.measure (.text "%w"), .measure (.text "%w%3d"),
        .measure (.buffer .bytes [37, 119])])[2]? = some answer ∧
      answer.events = [] ∧ answer.outcome = .ok (.sizes 2 16) := by
  let last := Call.measure (.buffer .bytes [37, 119])
  obtain ⟨answer, found, mirrors⟩ :=
    run_transparent [.measure (.text "%w"), .measure (.text "%w%3d")] [] last
  have read : pieces ['%', 'w'] = [.field ⟨⟨false, [], false, .native, none⟩, .word16, none⟩] :=
    Format.piecesWithin_eq (show ['%', 'w'].length ≤ 2 by decide) ▸ rfl
  have sound : ∀ piece ∈ pieces ['%', 'w'], piece.Sound := by
    rw [read, List.forall_mem_singleton]
    exact ⟨Nat.zero_le _, (Field.fault?_eq_none_iff _).mp rfl⟩
  have compiled := Format.compile_outcome_eq_ok_iff.mpr
    ⟨['%', 'w'], (rfl : Format.textOf? last.given = some ['%', 'w']), sound, rfl⟩
  rw [read] at compiled
  refine ⟨answer, found, ?_, ?_⟩
  · rw [mirrors.recalled [] [.measure (.text "%w%3d")] (.measure (.text "%w")) ['%', 'w'] rfl
      (Format.acceptedText?_eq_some_iff.mpr ⟨rfl, sound⟩) rfl ?_ ?_]
    · refine List.filter_eq_nil_iff.mpr fun event member => ?_
      rw [alone_eq, Traced.events_bind_of_ok compiled] at member
      rcases List.mem_append.mp member with early | late
      · simp [Format.compile_reads last.given event early]
      · contradiction
    · refine List.forall_mem_singleton.mpr fun accepted => ?_
      have held := (Format.acceptedText?_eq_some_iff.mp accepted).1
      exact absurd (Option.some.inj held) (by decide)
    · refine Nat.lt_of_le_of_lt (List.toFinset_card_le _) ?_
      exact Nat.lt_of_le_of_lt (List.length_filterMap_le _ _) (by decide)
  · rw [mirrors.outcome, alone_eq, Traced.outcome_bind_of_ok compiled]
    change Except.ok (Answer.sizes ((16 + 7) / 8) 16) = _
    rfl

end Session

end BitRecord

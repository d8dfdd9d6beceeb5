/-
# The longest flags

Flags are read part by part, and every part is taken that can be. That gives the
longest flags that a text starts with: a part that is taken where another reading
leaves it out starts with a character that no later part can start with, so the
other reading ends there. The digits are the exception, for two of them are fills
as well; but the fill is the last part, and a digit that is read as a fill is one
that the quantity takes in, too.
-/

import BitRecord.Proofs.Format.Seam

namespace BitRecord

namespace Flags

/-- Whether flags are the longest ones at the front of a text. Flags are a pointer flag, digits, an
alignment flag, an order and a fill, in this order, each of which may be missing. -/
structure LongestIn (flags : Flags) (text : List Char) : Prop where
  all_digits : flags.AllDigits
  front : flags.text <+: text
  longest : ∀ other : Flags, other.AllDigits → other.text <+: text →
    other.text.length ≤ flags.text.length

end Flags

/-- A text without its first character, if that belongs to a class. -/
private def skip (accepts : Char → Bool) : List Char → List Char
  | [] => []
  | first :: rest => if accepts first then rest else first :: rest

private theorem takeMark_eq_skip (mark : Char) (text : List Char) :
    (takeMark mark text).2 = skip (· = mark) text := by
  cases text with
  | nil => rfl
  | cons first rest => by_cases same : first = mark <;> simp [takeMark, skip, same]

private theorem takeFlag?_eq_skip {α : Type} (meaning : Char → Option α) (text : List Char) :
    (takeFlag? meaning text).2 = skip (fun character => (meaning character).isSome) text := by
  cases text with
  | nil => rfl
  | cons first rest => cases taken : meaning first <;> simp [takeFlag?, skip, taken]

/-- A form, or one behind a character of a class. -/
private def Optionally (accepts : Char → Bool) (forms : List Char → Prop) (form : List Char) :
    Prop :=
  forms form ∨ ∃ first tail, accepts first = true ∧ forms tail ∧ form = first :: tail

/-- A function that removes the longest of some forms: it leaves no more than what is behind any of
them. The empty text is one of the forms, and the others start with characters of a class. -/
private structure Greedy (starts : Char → Bool) (forms : List Char → Prop)
    (leave : List Char → List Char) : Prop where
  empty : forms []
  starts_of : ∀ {first form}, forms (first :: form) → starts first = true
  le : ∀ {form} rest, forms form → (leave (form ++ rest)).length ≤ rest.length

namespace Greedy

variable {starts accepts : Char → Bool} {forms : List Char → Prop}
  {leave : List Char → List Char}

/-- With no form but the empty one the text is left as it is. -/
private theorem nothing : Greedy (fun _ => false) (· = []) id where
  empty := rfl
  starts_of := by
    intro first form whole
    contradiction
  le := by
    rintro form rest rfl
    exact Nat.le_refl _

/-- A character in front is taken when there is one. No form starts with it, so where it is left
out nothing is behind. -/
private theorem optionally (greedy : Greedy starts forms leave)
    (apart : ∀ character, accepts character = true → starts character = false) :
    Greedy (fun character => accepts character || starts character) (Optionally accepts forms)
      (fun text => leave (skip accepts text)) where
  empty := .inl greedy.empty
  starts_of := by
    rintro first form (plain | ⟨_, _, accepted, _, same⟩)
    · rw [greedy.starts_of plain, Bool.or_true]
    · obtain ⟨rfl, rfl⟩ := List.cons.inj same
      rw [accepted, Bool.true_or]
  le := by
    rintro form rest (plain | ⟨first, tail, accepted, behind, rfl⟩)
    · cases form with
      | nil =>
          cases rest with
          | nil => exact greedy.le [] greedy.empty
          | cons first rest =>
              rw [List.nil_append, skip]
              split
              · exact Nat.le_succ_of_le (greedy.le rest greedy.empty)
              · exact greedy.le (first :: rest) greedy.empty
      | cons first tail =>
          have refused : ¬ accepts first = true := fun accepted => by
            have started := greedy.starts_of plain
            rw [apart first accepted] at started
            contradiction
          rw [List.cons_append, skip, if_neg refused]
          exact greedy.le rest plain
    · rw [List.cons_append, skip, if_pos accepted]
      exact greedy.le rest behind

/-- As many digits are taken as there are. A form that starts with a digit is that digit, so where
fewer are taken hardly anything is behind. -/
private theorem digits (greedy : Greedy starts forms leave)
    (lone : ∀ {first tail}, forms (first :: tail) → isQuantityDigit first = true → tail = []) :
    Greedy (fun character => isQuantityDigit character || starts character)
      (fun form => ∃ digits other, (∀ digit ∈ digits, isQuantityDigit digit = true) ∧
        forms other ∧ form = digits ++ other)
      (fun text => leave (text.dropWhile isQuantityDigit)) where
  empty := ⟨[], [], List.forall_mem_nil _, greedy.empty, rfl⟩
  starts_of := by
    rintro first form ⟨digits, other, all_digits, plain, same⟩
    cases digits with
    | nil =>
        obtain rfl : first :: form = other := same
        rw [greedy.starts_of plain, Bool.or_true]
    | cons digit digits =>
        obtain ⟨rfl, _⟩ := List.cons.inj same
        rw [all_digits first List.mem_cons_self, Bool.true_or]
  le := by
    rintro _ rest ⟨digits, other, all_digits, plain, rfl⟩
    have fewer : (leave (rest.dropWhile isQuantityDigit)).length ≤ rest.length :=
      calc
        _ ≤ _ := greedy.le _ greedy.empty
        _ ≤ _ := (List.dropWhile_sublist isQuantityDigit).length_le
    rw [List.append_assoc, List.dropWhile_append_of_pos all_digits]
    cases other with
    | nil => exact fewer
    | cons first tail =>
        rw [List.cons_append, List.dropWhile_cons]
        split
        · rename_i digit
          rw [lone plain digit]
          exact fewer
        · exact greedy.le rest plain

end Greedy

section Forms

variable {forms : List Char → Prop} {tail : List Char}

private theorem optionally_mark (mark : Char) (present : Bool) (behind : forms tail) :
    Optionally (fun character => decide (character = mark)) forms
      (markText mark present ++ tail) := by
  cases present with
  | false => exact .inl behind
  | true => exact .inr ⟨mark, tail, decide_eq_true rfl, behind, rfl⟩

private theorem optionally_order (order : Order) (behind : forms tail) :
    Optionally (fun character => (Order.ofFlag? character).isSome) forms (order.flag ++ tail) := by
  cases order with
  | native => exact .inl behind
  | little | big => exact .inr ⟨_, tail, rfl, behind, rfl⟩

private theorem optionally_fill (fill : Option Fill) :
    Optionally (fun character => (Fill.ofFlag? character).isSome) (· = [])
      (fill.map Fill.flag).toList := by
  cases fill with
  | none => exact .inl rfl
  | some fill => exact .inr ⟨fill.flag, [], by cases fill <;> rfl, rfl, rfl⟩

end Forms

namespace Flags

/-- Two characters stand for orders. -/
private theorem eq_or_eq_of_order {character : Char}
    (order : (Order.ofFlag? character).isSome = true) : character = 'l' ∨ character = 'b' := by
  unfold Order.ofFlag? at order
  split at order
  · exact .inl rfl
  · exact .inr rfl
  · contradiction

/-- `Flags.read` leaves no more of a text than any flags at its front do. -/
private theorem length_read_append_le {flags : Flags} (all_digits : flags.AllDigits)
    (rest : List Char) : (Flags.read (flags.text ++ rest)).2.length ≤ rest.length := by
  -- From the last part to the first: each part is greedy because those behind it are.
  have fill := Greedy.nothing.optionally
    (fun character (_ : (Fill.ofFlag? character).isSome = true) => rfl)
  have order := fill.optionally
    (fun character (order : (Order.ofFlag? character).isSome = true) => by
      obtain rfl | rfl := eq_or_eq_of_order order <;> rfl)
  have aligned := order.optionally
    (fun character (align : decide (character = alignFlag) = true) => by
      obtain rfl := of_decide_eq_true align
      rfl)
  have digits := aligned.digits (by
    rintro first tail
      (((_ | ⟨_, _, _, rfl, same⟩) | ⟨_, _, order, _, same⟩) | ⟨_, _, align, _, same⟩) digit
    · contradiction
    · exact (List.cons.inj same).2
    · obtain ⟨rfl, _⟩ := List.cons.inj same
      obtain rfl | rfl := eq_or_eq_of_order order <;> contradiction
    · obtain ⟨rfl, _⟩ := List.cons.inj same
      obtain rfl := of_decide_eq_true align
      contradiction)
  have pointer := digits.optionally
    (fun character (pointer : decide (character = pointerFlag) = true) => by
      obtain rfl := of_decide_eq_true pointer
      rfl)
  have left := pointer.le rest (optionally_mark pointerFlag flags.pointer
    ⟨flags.digits, _, all_digits, optionally_mark alignFlag flags.aligned
      (optionally_order flags.order (optionally_fill flags.fill)), rfl⟩)
  simpa only [Flags.read, takeMark_eq_skip, takeFlag?_eq_skip, text, List.append_assoc, id_eq]
    using left

/-- `Flags.read` gives the longest flags at the front of a text. -/
theorem longestIn_read (text : List Char) : (Flags.read text).1.LongestIn text where
  all_digits := List.all_eq_true.mp List.all_takeWhile
  front := ⟨_, text_read text⟩
  longest := by
    rintro other all_digits ⟨rest, whole⟩
    have left := length_read_append_le all_digits rest
    rw [whole] at left
    have own := congrArg List.length (text_read text)
    have others := congrArg List.length whole
    rw [List.length_append] at own others
    omega

/-- Two longest flags of a text are written alike. -/
theorem LongestIn.text_eq {flags other : Flags} {text : List Char} (one : flags.LongestIn text)
    (two : other.LongestIn text) : flags.text = other.text := by
  have same : flags.text.length = other.text.length :=
    Nat.le_antisymm (two.longest flags one.all_digits one.front)
      (one.longest other two.all_digits two.front)
  exact (List.prefix_of_prefix_length_le one.front two.front (Nat.le_of_eq same)).eq_of_length same

/-- `Flags.read` gives flags with the text of the longest ones. -/
theorem LongestIn.read {flags : Flags} {rest : List Char}
    (longest : flags.LongestIn (flags.text ++ rest)) :
    ∃ own, Flags.read (flags.text ++ rest) = (own, rest) ∧ own.text = flags.text := by
  have same := (longestIn_read (flags.text ++ rest)).text_eq longest
  have whole := text_read (flags.text ++ rest)
  rw [same] at whole
  exact ⟨_, Prod.ext rfl (List.append_cancel_left whole), same⟩

end Flags

end BitRecord

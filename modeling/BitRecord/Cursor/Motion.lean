/-
# Cursors in motion

A cursor is shared by everybody who moves it, so it matters where it stands after
a refusal. A motion moves the cursor as it goes along and puts nothing back: what
is refused late may have moved it by then. That a refused step nevertheless
leaves its reader or its writer alone is not part of the definitions here.
-/

import BitRecord.Cursor.Reader
import BitRecord.Cursor.Writer

namespace BitRecord

/-- A stateful operation on a cursor. A refusal keeps the state reached before it. -/
abbrev Motion (σ α : Type) := ExceptT Cause (StateM σ) α

namespace Motion

variable {σ α β ι : Type} {operation : ι → Motion σ α} {item : ι} {items front back : List ι}
  {start middle final : σ} {made : Except Cause α} {earlier later : List (Except Cause α)}
  {first : Motion σ α} {value : α} {cause : Cause}

@[simp]
theorem run_get (start : σ) : (get : Motion σ σ).run.run start = (.ok start, start) := rfl

/-- After a success the second motion runs from the state of the first one. -/
theorem run_bind_of_ok (done : first.run.run start = (.ok value, middle))
    (next : α → Motion σ β) : (first >>= next).run.run start = (next value).run.run middle := by
  rw [ExceptT.run_bind, StateT.run_bind, done]
  rfl

/-- After a refusal the second motion is not run, and the state is that of the first one. -/
theorem run_bind_of_error (refused : first.run.run start = (.error cause, middle))
    (next : α → Motion σ β) : (first >>= next).run.run start = (.error cause, middle) := by
  rw [ExceptT.run_bind, StateT.run_bind, refused]
  rfl

theorem run_map_of_ok (done : first.run.run start = (.ok value, middle)) (image : α → β) :
    (image <$> first).run.run start = (.ok (image value), middle) := by
  rw [map_eq_pure_bind, run_bind_of_ok done]
  rfl

theorem run_map_of_error (refused : first.run.run start = (.error cause, middle))
    (image : α → β) : (image <$> first).run.run start = (.error cause, middle) := by
  rw [map_eq_pure_bind, run_bind_of_error refused]

/-- Runs an operation on each item in turn, whether or not it is refused. -/
def all (operation : ι → Motion σ α) (items : List ι) : StateM σ (List (Except Cause α)) :=
  items.mapM fun item => (operation item).run

/-- `all` on a list runs the operation on the first item and then `all` on the others. -/
theorem run_all_cons (operation : ι → Motion σ α) (item : ι) (items : List ι) (start : σ) :
    (all operation (item :: items)).run start =
      let (made, middle) := (operation item).run.run start
      let (later, final) := (all operation items).run middle
      (made :: later, final) := by
  rw [all, List.mapM_cons]
  rfl

theorem all_cons (first : (operation item).run.run start = (made, middle))
    (others : (all operation items).run middle = (later, final)) :
    (all operation (item :: items)).run start = (made :: later, final) := by
  simp only [run_all_cons, first, others]

/-- The final state of `all` is that of the other items, run from the state after the first. -/
theorem left_all_cons (operation : ι → Motion σ α) (item : ι) (items : List ι) (start : σ) :
    ((all operation (item :: items)).run start).2 =
      ((all operation items).run ((operation item).run.run start).2).2 := by
  rw [run_all_cons]
  rfl

/-- `all` on two lists runs the second one from the state after the first. -/
theorem all_append (before : (all operation front).run start = (earlier, middle))
    (behind : (all operation back).run middle = (later, final)) :
    (all operation (front ++ back)).run start = (earlier ++ later, final) := by
  induction front generalizing start earlier with
  | nil =>
      obtain ⟨rfl, rfl⟩ := Prod.mk.inj before
      exact behind
  | cons item front ih =>
      rw [run_all_cons] at before
      obtain ⟨rfl, last⟩ := Prod.mk.inj before
      rw [List.cons_append, List.cons_append]
      exact all_cons rfl (ih (Prod.ext rfl last))

/-- `all` gives one result for each item. -/
theorem length_all (operation : ι → Motion σ α) (items : List ι) (start : σ) :
    ((all operation items).run start).1.length = items.length := by
  induction items generalizing start with
  | nil => rfl
  | cons item items ih =>
      rw [run_all_cons, List.length_cons]
      exact congrArg (· + 1) (ih _)

/-- A property of states that every operation preserves is preserved by `all`. -/
theorem all_keeps {holds : σ → Prop}
    (keeps : ∀ item state, holds state → holds ((operation item).run.run state).2)
    (items : List ι) (held : holds start) : holds ((all operation items).run start).2 := by
  induction items generalizing start with
  | nil => exact held
  | cons item items ih =>
      rw [left_all_cons]
      exact ih (keeps item start held)

end Motion

namespace Reader

/-- Reads a number of bits with `Reader.take`. -/
def passBits (amount : Int) : Motion Reader Bits := do
  match (← get).take amount with
  | .error cause => throw cause
  | .ok (bits, following) =>
      set following
      return bits

/-- Moves to the next byte boundary and gives the number of bits up to it. -/
def passPadding : Motion Reader Nat := do
  let padding := (← get).padding
  if padding ≠ 0 then
    let _ ← passBits padding
  return padding

/-- Reads an integer. The reader moves before `Bits.toUnsigned?` is applied. -/
def passUnsigned (order : Order) (width : Int) : Motion Reader Nat := do
  let bits ← passBits width
  match bits.toUnsigned? order with
  | none => throw .unrepresentable
  | some value => return value

/-- Reads a number of bytes. -/
def passBytes (amount : Int) : Motion Reader Bytes := do
  let bits ← passBits (amount * 8)
  return bits.toBytes

/-- The motion of a step. -/
def attempt : Step → Motion Reader Taken
  | .align => .padding <$> passPadding
  | .bits amount => .bits <$> passBits amount
  | .unsigned order width => .unsigned <$> passUnsigned order width
  | .bytes amount => .bytes <$> passBytes amount

/-- Runs the motions of steps in turn, whether or not they are refused. -/
def attemptAll (steps : List Step) : StateM Reader (List (Except Cause Taken)) :=
  Motion.all attempt steps

end Reader

namespace Writer

/-- A use of a writer: `write` makes a step, `tell` gives the bytes written so far. -/
inductive Request where
  | write (step : Step)
  | tell

/-- The result of a use of a writer. -/
inductive Reply where
  | padding (amount : Nat)
  | done
  | told (bytes : Bytes)

/-- Writes bits. -/
def putBits (bits : Bits) : Motion Writer Unit := modify fun writer => writer.append bits

/-- Writes zeros up to the next byte boundary and gives their number. -/
def putPadding : Motion Writer Nat := do
  let padding := (← get).padding
  if padding ≠ 0 then
    putBits (List.replicate padding false)
  return padding

/-- Writes an integer with `Bits.ofUnsigned?`. -/
def putUnsigned (order : Order) (width value : Int) : Motion Writer Unit :=
  match Bits.ofUnsigned? order width value with
  | none => throw .unrepresentable
  | some bits => putBits bits

/-- Writes bytes, if there are any. -/
def putBytes (bytes : Bytes) : Motion Writer Unit :=
  if bytes.isEmpty then return else putBits (Bits.ofBytes bytes)

/-- The motion of a request. -/
def ask : Request → Motion Writer Reply
  | .write .align => .padding <$> putPadding
  | .write (.bits bits) => (fun _ => .done) <$> putBits bits
  | .write (.unsigned order width value) => (fun _ => .done) <$> putUnsigned order width value
  | .write (.bytes bytes) => (fun _ => .done) <$> putBytes bytes
  | .tell => do
      let writer ← get
      return .told writer.bytes

/-- Runs the motions of requests in turn, whether or not they are refused. -/
def askAll (requests : List Request) : StateM Writer (List (Except Cause Reply)) :=
  Motion.all ask requests

end Writer

end BitRecord

/-
# Runs over one buffer

Records of several formats are written into one buffer and read from it again,
and any of these uses may fail. A write that succeeds changes the buffer by a
patch, the record at its offset, and nothing else changes the buffer. So a run
changes it by the patches of its answers, one after the other, and every index
has the byte of the last patch that covers it. Two things follow. A record is
read back as long as nothing is written over it, and writes in separate places
can be exchanged.
-/

import BitRecord.Proofs.Buffer.InPlace
import BitRecord.Proofs.Record.Refusal
import BitRecord.Proofs.Record.RoundTrip

namespace BitRecord

/-- Bytes for a place in a buffer. -/
structure Patch where
  /-- The index of the first byte. -/
  start : Nat
  /-- The bytes from there on. -/
  bytes : Bytes

namespace Patch

/-- Whether a patch has a byte for an index. -/
def Covers (patch : Patch) (index : Nat) : Prop :=
  patch.start ≤ index ∧ index < patch.start + patch.bytes.length

instance (patch : Patch) (index : Nat) : Decidable (patch.Covers index) :=
  inferInstanceAs (Decidable (_ ∧ _))

/-- No index is covered by both patches. A patch without bytes is apart from every other. -/
def Apart (patch other : Patch) : Prop := ∀ index, patch.Covers index → ¬ other.Covers index

/-- Whether the place of a patch is inside of `capacity` bytes. -/
def Within (patch : Patch) (capacity : Nat) : Prop := patch.start + patch.bytes.length ≤ capacity

/-- Bytes with a patch in its place. -/
def apply (base : Bytes) (patch : Patch) : Bytes := base.splice patch.start patch.bytes

/-- The last patch that covers an index. -/
def last? (patches : List Patch) (index : Nat) : Option Patch :=
  patches.reverse.find? fun patch => patch.Covers index

variable {patch other : Patch} {patches : List Patch} {base : Bytes} {index : Nat}

theorem length_apply (within : patch.Within base.length) :
    (apply base patch).length = base.length :=
  Bytes.length_splice within

/-- `apply` has the bytes of the patch where it covers and those of the base elsewhere. -/
theorem getElem?_apply (within : patch.Within base.length) (index : Nat) :
    (apply base patch)[index]? =
      if patch.Covers index then patch.bytes[index - patch.start]? else base[index]? := by
  by_cases covers : patch.Covers index
  · rw [if_pos covers]
    exact Bytes.getElem?_splice_inside within covers.1 covers.2
  · rw [if_neg covers]
    apply Bytes.getElem?_splice within
    unfold Covers at covers
    omega

/-- Patches that are apart can be applied in either order. -/
theorem apply_comm (within : patch.Within base.length) (other_within : other.Within base.length)
    (apart : patch.Apart other) :
    apply (apply base patch) other = apply (apply base other) patch := by
  have after_patch : other.Within (apply base patch).length := by
    rwa [length_apply within]
  have after_other : patch.Within (apply base other).length := by
    rwa [length_apply other_within]
  apply List.ext_getElem?
  intro index
  rw [getElem?_apply after_patch, getElem?_apply after_other, getElem?_apply within,
    getElem?_apply other_within]
  by_cases covers : patch.Covers index
  · rw [if_neg (apart index covers), if_pos covers, if_pos covers]
  · rw [if_neg covers, if_neg covers]

/-- `last?` is that of the other patches, or the first patch when none of them covers. -/
theorem last?_cons (patch : Patch) (patches : List Patch) (index : Nat) :
    last? (patch :: patches) index =
      (last? patches index).or (if patch.Covers index then some patch else none) := by
  rw [last?, last?, List.reverse_cons, List.find?_append]
  by_cases covers : patch.Covers index
  · simp only [List.find?_cons, decide_eq_true covers, if_pos covers]
  · simp only [List.find?_cons, decide_eq_false covers, if_neg covers, List.find?_nil]

/-- `last?` gives nothing exactly where no patch covers. -/
theorem last?_eq_none_iff :
    last? patches index = none ↔ ∀ patch ∈ patches, ¬ patch.Covers index := by
  rw [last?, List.find?_eq_none]
  simp

/-- Patches applied in turn keep the length, and at every index give the byte of the last one that
covers it. -/
theorem foldl_apply (within : ∀ patch ∈ patches, patch.Within base.length) :
    (patches.foldl apply base).length = base.length ∧
    ∀ index, (patches.foldl apply base)[index]? =
      match last? patches index with
      | some patch => patch.bytes[index - patch.start]?
      | none => base[index]? := by
  induction patches generalizing base with
  | nil => exact ⟨rfl, fun index => rfl⟩
  | cons patch patches ih =>
      obtain ⟨first_within, others_within⟩ := List.forall_mem_cons.mp within
      have length := length_apply first_within
      obtain ⟨later_length, later_bytes⟩ := @ih (apply base patch) (by rwa [length])
      refine ⟨later_length.trans length, fun index => ?_⟩
      rw [List.foldl_cons, later_bytes, last?_cons]
      cases last? patches index with
      | some later => rfl
      | none =>
          dsimp only [Option.none_or]
          rw [getElem?_apply first_within]
          by_cases covers : patch.Covers index
          · rw [if_pos covers, if_pos covers]
          · rw [if_neg covers, if_neg covers]

/-- The slice in the place of a patch is the patch when the later ones are apart from it. -/
theorem slice_foldl_apply (within : patch.Within base.length)
    (others_within : ∀ other ∈ patches, other.Within base.length)
    (apart : ∀ other ∈ patches, patch.Apart other) :
    (patches.foldl apply (apply base patch)).slice patch.start patch.bytes.length =
      patch.bytes := by
  have length := length_apply within
  obtain ⟨_, bytes⟩ := @foldl_apply patches (apply base patch) (by rwa [length])
  apply List.ext_getElem?
  intro index
  rw [Bytes.slice]
  by_cases inside : index < patch.bytes.length
  · have covers : patch.Covers (patch.start + index) := ⟨by omega, by omega⟩
    have none_later : last? patches (patch.start + index) = none :=
      last?_eq_none_iff.mpr fun other member => apart other member _ covers
    rw [List.getElem?_take_of_lt inside, List.getElem?_drop, bytes, none_later]
    dsimp only
    rw [getElem?_apply within, if_pos covers, Nat.add_sub_cancel_left]
  · rw [List.getElem?_take_eq_none (by omega), List.getElem?_eq_none (by omega)]

end Patch

namespace Access

/-- The patch of an answer: the record of a write that has succeeded, at its offset. -/
def patch? : Access → Answer → Option Patch
  | .write given values offset source, .written size =>
      match size.outcome, offset.count?, (pack given values source).outcome with
      | .ok _, some start, .ok record => some ⟨start.toNat, record⟩
      | _, _, _ => none
  | _, _ => none

/-- The patches of the answers of a run. -/
def patches (buffer : Value) (accesses : List Access) : List Patch :=
  (accesses.zip (run buffer accesses)).filterMap fun use => use.1.patch? use.2.1

/-- A buffer as a run leaves it. -/
def leave (buffer : Value) (accesses : List Access) : Value :=
  accesses.foldl (fun buffer access => (access.perform buffer).2) buffer

variable {holder : Holder} {data : Bytes} {given values offset : Value} {source : RandomSource}
  {access : Access} {patch : Patch}

/-- A write that succeeds has packed a record that fits, and changes the buffer by it. -/
theorem perform_write_of_ok {changed : Value} {size : Nat}
    (success : (packInto given (.buffer holder data) values offset source).outcome =
      .ok (changed, size)) :
    ∃ (format : Format) (patch : Patch), (Format.compile given).outcome = .ok format ∧
      size = format.size ∧ offset.count? = some (patch.start : Int) ∧
      (format.pack values source).outcome = .ok patch.bytes ∧
      patch.bytes.length = format.size ∧ patch.Within data.length ∧
      (write given values offset source).patch?
        ((write given values offset source).perform (.buffer holder data)).1 = some patch ∧
      ((write given values offset source).perform (.buffer holder data)).2 =
        .buffer holder (patch.apply data) := by
  obtain ⟨format, start, record, compiled, counted, fits, packed, length, rfl, rfl⟩ :=
    Format.exists_of_packInto success
  have told : (Prod.snd <$> packInto given (.buffer holder data) values offset source).outcome =
      .ok record.length := by
    rw [Traced.map_eq, success]
    rfl
  have whole : (pack given values source).outcome = .ok record :=
    (Traced.outcome_bind_of_ok compiled _).trans packed
  refine ⟨format, ⟨start, record⟩, compiled, length, counted, packed, length, ?_, ?_, ?_⟩
  · rw [Patch.Within, length]
    exact fits
  · simp only [perform, patch?, told, counted, whole, Int.toNat_natCast]
  · simp only [perform, bufferAfter, success]
    rfl

/-- A write that fails has no patch and leaves the buffer as it was. -/
theorem perform_write_of_error {buffer : Value} {failure : Failure}
    (failed : (packInto given buffer values offset source).outcome = .error failure) :
    (write given values offset source).patch?
        ((write given values offset source).perform buffer).1 = none ∧
      ((write given values offset source).perform buffer).2 = buffer := by
  apply And.intro
  · simp only [perform, patch?, Traced.map_eq, failed, Except.map]
  · simp only [perform, bufferAfter, failed]

/-- `perform` changes a buffer by the patch of its answer, if there is one. -/
theorem perform_eq (access : Access) (holder : Holder) (data : Bytes) :
    (∀ patch, access.patch? (access.perform (.buffer holder data)).1 = some patch →
      patch.Within data.length) ∧
    (access.perform (.buffer holder data)).2 = .buffer holder
      ((access.patch? (access.perform (.buffer holder data)).1).elim data (Patch.apply data)) := by
  cases access with
  | read given start length =>
      apply And.intro
      · intro patch told
        contradiction
      · rfl
  | write given values offset source =>
      cases outcome : (packInto given (.buffer holder data) values offset source).outcome with
      | ok result =>
          obtain ⟨_, own, _, _, _, _, _, within, told, changed⟩ := perform_write_of_ok outcome
          rw [told]
          exact ⟨fun patch same => Option.some.inj same ▸ within, changed⟩
      | error failure =>
          obtain ⟨silent, same⟩ := perform_write_of_error outcome
          rw [silent]
          apply And.intro
          · intro patch told
            contradiction
          · exact same

/-- The buffer after an answer with a patch. -/
theorem perform_of_patch
    (told : access.patch? (access.perform (.buffer holder data)).1 = some patch) :
    patch.Within data.length ∧
      (access.perform (.buffer holder data)).2 = .buffer holder (patch.apply data) := by
  obtain ⟨within, changed⟩ := perform_eq access holder data
  rw [told] at changed
  exact ⟨within patch told, changed⟩

/-- The answer of a write depends on the size of the buffer and not on the bytes in it. -/
theorem perform_of_length_eq {other : Bytes} (same : data.length = other.length)
    (told : access.patch? (access.perform (.buffer holder data)).1 = some patch) :
    (access.perform (.buffer holder other)).1 = (access.perform (.buffer holder data)).1 := by
  cases access with
  | read given start length => contradiction
  | write given values offset source =>
      simp only [perform, packInto, Format.packInto, map_bind, Value.asWritable]
      congr 2
      funext format
      by_cases writable : holder.isWritable = true
      · rw [if_pos writable, if_pos writable, Traced.ofResult_ok_bind, Traced.ofResult_ok_bind]
        dsimp only
        rw [same]
        congr 1
        funext place
        congr 1
        funext record
        cases holder.isContiguous with
        | false => rfl
        | true =>
            cases place.count? with
            | none => rfl
            | some start => rfl
      · rw [if_neg writable, if_neg writable]

/-- Writes in places that are apart can be made in either order: each has the same answer, and
the buffer afterwards is the same. -/
theorem perform_comm {first second : Access} {patch other : Patch}
    (first_told : first.patch? (first.perform (.buffer holder data)).1 = some patch)
    (second_told : second.patch? (second.perform (first.perform (.buffer holder data)).2).1 =
      some other)
    (apart : patch.Apart other) :
    (first.perform (second.perform (.buffer holder data)).2).1 =
        (first.perform (.buffer holder data)).1 ∧
    (second.perform (.buffer holder data)).1 =
        (second.perform (first.perform (.buffer holder data)).2).1 ∧
    (first.perform (second.perform (.buffer holder data)).2).2 =
        (second.perform (first.perform (.buffer holder data)).2).2 := by
  obtain ⟨within, changed⟩ := perform_of_patch first_told
  rw [changed] at second_told ⊢
  obtain ⟨other_within, joined⟩ := perform_of_patch second_told
  have length := Patch.length_apply within
  rw [length] at other_within
  have second_answer := perform_of_length_eq length second_told
  have second_alone := perform_of_patch (second_answer.symm ▸ second_told)
  have other_length := Patch.length_apply other_within
  rw [second_alone.2]
  have first_answer := perform_of_length_eq other_length.symm first_told
  have first_later := perform_of_patch (first_answer.symm ▸ first_told)
  refine ⟨first_answer, second_answer, ?_⟩
  rw [first_later.2, joined, Patch.apply_comm within other_within apart]

/-! ## Runs -/

theorem leave_append (buffer : Value) (front back : List Access) :
    leave buffer (front ++ back) = leave (leave buffer front) back :=
  List.foldl_append

/-- `run` of two lists runs the second one on the buffer that the first one leaves. -/
theorem run_append (buffer : Value) (front back : List Access) :
    run buffer (front ++ back) = run buffer front ++ run (leave buffer front) back := by
  induction front generalizing buffer with
  | nil => rfl
  | cons access front ih =>
      change _ :: run _ (front ++ back) = _ :: (run _ front ++ _)
      rw [ih]
      rfl

/-- There is an answer for each use. -/
theorem length_run (buffer : Value) (accesses : List Access) :
    (run buffer accesses).length = accesses.length := by
  induction accesses generalizing buffer with
  | nil => rfl
  | cons access accesses ih => exact congrArg Nat.succ (ih _)

theorem patches_cons (buffer : Value) (access : Access) (accesses : List Access) :
    patches buffer (access :: accesses) =
      (access.patch? (access.perform buffer).1).toList
        ++ patches (access.perform buffer).2 accesses := by
  unfold patches
  rw [run, List.zip_cons_cons, List.filterMap_cons]
  dsimp only
  cases access.patch? (access.perform buffer).1 with
  | none => rfl
  | some patch => rfl

theorem patches_append (buffer : Value) (front back : List Access) :
    patches buffer (front ++ back) = patches buffer front ++ patches (leave buffer front) back := by
  rw [patches, run_append, List.zip_append (length_run buffer front).symm, List.filterMap_append]
  rfl

/-- A run changes the buffer by the patches of its answers, one after the other. -/
theorem leave_eq (holder : Holder) (data : Bytes) (accesses : List Access) :
    (∀ patch ∈ patches (.buffer holder data) accesses, patch.Within data.length) ∧
    leave (.buffer holder data) accesses =
      .buffer holder ((patches (.buffer holder data) accesses).foldl Patch.apply data) := by
  induction accesses generalizing data with
  | nil => exact ⟨List.forall_mem_nil _, rfl⟩
  | cons access accesses ih =>
      have step : leave (.buffer holder data) (access :: accesses) =
        leave (access.perform (.buffer holder data)).2 accesses := rfl
      rw [step, patches_cons]
      cases told : access.patch? (access.perform (.buffer holder data)).1 with
      | none =>
          obtain ⟨_, same⟩ := perform_eq access holder data
          rw [same, told]
          exact ih data
      | some patch =>
          obtain ⟨within, changed⟩ := perform_of_patch told
          obtain ⟨others_within, left⟩ := ih (patch.apply data)
          rw [changed, left]
          rw [Patch.length_apply within] at others_within
          exact ⟨List.forall_mem_cons.mpr ⟨within, others_within⟩, rfl⟩

/-- A run leaves a buffer of the same size. -/
theorem exists_leave (holder : Holder) (data : Bytes) (accesses : List Access) :
    ∃ after, leave (.buffer holder data) accesses = .buffer holder after ∧
      after.length = data.length := by
  obtain ⟨within, left⟩ := leave_eq holder data accesses
  exact ⟨_, left, (Patch.foldl_apply within).1⟩

/-- Every buffer on the way is one that a part of the run leaves. -/
theorem exists_of_mem_run {buffer : Value} {accesses : List Access} {answered : Answer × Value}
    (member : answered ∈ run buffer accesses) : ∃ front, answered.2 = leave buffer front := by
  induction accesses generalizing buffer with
  | nil => contradiction
  | cons access accesses ih =>
      rcases List.mem_cons.mp member with rfl | later
      · exact ⟨[access], rfl⟩
      · obtain ⟨front, left⟩ := ih later
        exact ⟨access :: front, left⟩

/-- Reading at a record that stands in its place gives the normal forms of its values. -/
theorem perform_read_of_slice {format : Format} {after : Bytes} {length : Value} {count : Nat}
    (compiled : (Format.compile given).outcome = .ok format)
    (packed : (format.pack values source).outcome = .ok patch.bytes)
    (stands : after.slice patch.start patch.bytes.length = patch.bytes)
    (asked : length.AsksFor (after.length - patch.start) count)
    (enough : patch.bytes.length ≤ count) :
    ∃ items payloads,
      values.items? = some items ∧
      List.zipWith Field.normalForm? format.givenFields items = payloads.map some ∧
      ∃ answer, (read given patch.start length).perform (.buffer holder after) =
          (.payloads answer, .buffer holder after) ∧ answer.outcome = .ok payloads := by
  have valid := Format.valid_of_compile compiled
  obtain ⟨arguments, numbers, bound, answered, _, laid_out⟩ := Format.exists_of_pack valid packed
  obtain ⟨_, _, _, items, listed, each⟩ := Format.bind_outcome_eq_ok_iff.mp bound
  have from_start : Bytes.suffixFrom after patch.start = after.drop patch.start := by
    rw [Bytes.suffixFrom, if_neg (by omega), Int.toNat_natCast]
  have readable := @Reader.ofValue_of_asksFor (.buffer .bytes (after.drop patch.start)) length
    (after.drop patch.start) count rfl (by rwa [List.length_drop])
  -- The readable bytes are the record and further bytes, since `count` is at least its length.
  have split : (after.drop patch.start).take count =
      patch.bytes ++ ((after.drop patch.start).take count).drop patch.bytes.length := by
    rw [← List.take_append_drop patch.bytes.length ((after.drop patch.start).take count),
      List.take_take, Nat.min_eq_left enough, ← Bytes.slice, stands, List.drop_left]
  rw [split, laid_out] at readable
  let payloads := List.zipWith (fun field argument => argument.payload.fitted field.count)
    format.givenFields arguments
  refine ⟨items, payloads, listed, ?_, _, rfl, (Traced.outcome_bind_of_ok compiled _).trans ?_⟩
  · rw [each.normalForms, List.map_zipWith]
  · rw [Value.heldBytes, from_start]
    exact Format.unpack_layOut valid each answered _ readable

/-- A write that succeeds in a run has a patch of its own among those of the run, and its record
stands in its place afterwards as long as the later patches are apart from it. -/
theorem patches_of_write {front back : List Access} {changed : Value} {size : Nat}
    (success : (packInto given (leave (.buffer holder data) front) values offset source).outcome =
      .ok (changed, size)) :
    ∃ (format : Format) (patch : Patch), (Format.compile given).outcome = .ok format ∧
      size = format.size ∧ offset.count? = some (patch.start : Int) ∧
      (format.pack values source).outcome = .ok patch.bytes ∧
      patch.bytes.length = format.size ∧
      patches (.buffer holder data) (front ++ write given values offset source :: back) =
        patches (.buffer holder data) front ++ patch :: patches changed back ∧
      ((∀ later ∈ patches changed back, patch.Apart later) →
        ((patches (.buffer holder data) front ++ patch :: patches changed back).foldl
          Patch.apply data).slice patch.start patch.bytes.length = patch.bytes) := by
  have front_left := (leave_eq holder data front).2
  let before := (patches (.buffer holder data) front).foldl Patch.apply data
  rw [front_left] at success
  obtain ⟨format, patch, compiled, own, counted, packed, patch_length, patch_within, told,
    applied⟩ := perform_write_of_ok success
  have changed_eq : changed = ((write given values offset source).perform
      (leave (.buffer holder data) front)).2 := by
    rw [front_left]
    simp only [perform, bufferAfter, success]
  refine ⟨format, patch, compiled, own, counted, packed, patch_length, ?_, fun apart => ?_⟩
  · rw [patches_append, patches_cons, ← changed_eq, front_left, told]
    rfl
  · rw [front_left, applied] at changed_eq
    subst changed_eq
    have later_within := (leave_eq holder (patch.apply before) back).1
    rw [Patch.length_apply patch_within] at later_within
    rw [List.foldl_append, List.foldl_cons]
    exact Patch.slice_foldl_apply patch_within later_within apart

/-- Two writes in a row whose patches are apart can be exchanged. -/
theorem run_swap {front back : List Access} {first second : Access} {other : Patch}
    (told : first.patch? (first.perform (leave (.buffer holder data) front)).1 = some patch)
    (other_told :
      second.patch? (second.perform (leave (.buffer holder data) (front ++ [first]))).1 =
        some other)
    (apart : patch.Apart other) :
    ∃ answer otherAnswer between otherBetween joined,
      run (.buffer holder data) (front ++ first :: second :: back) =
        run (.buffer holder data) front
          ++ (answer, between) :: (otherAnswer, joined) :: run joined back ∧
      run (.buffer holder data) (front ++ second :: first :: back) =
        run (.buffer holder data) front
          ++ (otherAnswer, otherBetween) :: (answer, joined) :: run joined back := by
  obtain ⟨before, front_left, _⟩ := exists_leave holder data front
  have between : leave (.buffer holder data) (front ++ [first]) =
      (first.perform (.buffer holder before)).2 := by
    rw [leave_append, front_left]
    rfl
  rw [front_left] at told
  rw [between] at other_told
  obtain ⟨first_same, second_same, joined⟩ := perform_comm told other_told apart
  let answered := first.perform (.buffer holder before)
  let last := second.perform answered.2
  refine ⟨answered.1, last.1, answered.2, (second.perform (.buffer holder before)).2, last.2,
    ?_, ?_⟩
  · rw [run_append, front_left]
    rfl
  · rw [run_append, front_left, ← first_same, ← second_same, ← joined]
    rfl

/-- A run over one buffer keeps its size, and at every index the buffer has the byte of the last
patch that covers it, or the byte from before the run. A write that succeeds adds the patch of its
record at its offset, as long as its format. As long as later patches are apart from it, reading
there gives the normal forms of the values. Two writes in a row whose patches are apart can be
exchanged without any effect on the answers and the buffer behind them. -/
theorem run_last_write_wins (holder : Holder) (data : Bytes) (accesses : List Access) :
    ∃ after, leave (.buffer holder data) accesses = .buffer holder after ∧
      after.length = data.length ∧
      (∀ answered ∈ run (.buffer holder data) accesses, ∃ between,
        answered.2 = .buffer holder between ∧ between.length = data.length) ∧
      (∀ index, after[index]? =
        match Patch.last? (patches (.buffer holder data) accesses) index with
        | some patch => patch.bytes[index - patch.start]?
        | none => data[index]?) ∧
      (∀ front given values offset source back changed size,
        accesses = front ++ write given values offset source :: back →
        (packInto given (leave (.buffer holder data) front) values offset source).outcome =
          .ok (changed, size) →
        ∃ format patch, (Format.compile given).outcome = .ok format ∧ size = format.size ∧
          offset.count? = some (Patch.start patch : Int) ∧
          (pack given values source).outcome = .ok patch.bytes ∧
          patch.bytes.length = format.size ∧
          patches (.buffer holder data) accesses =
            patches (.buffer holder data) front ++ patch :: patches changed back ∧
          ((∀ later ∈ patches changed back, patch.Apart later) →
            ∀ length count, length.AsksFor (data.length - patch.start) count →
              format.size ≤ count →
              ∃ items payloads, values.items? = some items ∧
                List.zipWith Field.normalForm? format.givenFields items = payloads.map some ∧
                ∃ answer, run (.buffer holder data) (accesses ++ [read given patch.start length]) =
                    run (.buffer holder data) accesses
                      ++ [(.payloads answer, .buffer holder after)] ∧
                  answer.outcome = .ok payloads)) ∧
      (∀ front first second back patch other,
        accesses = front ++ first :: second :: back →
        first.patch? (first.perform (leave (.buffer holder data) front)).1 = some patch →
        second.patch? (second.perform (leave (.buffer holder data) (front ++ [first]))).1 =
          some other →
        patch.Apart other →
        ∃ answer otherAnswer between otherBetween joined,
          run (.buffer holder data) accesses = run (.buffer holder data) front
            ++ (answer, between) :: (otherAnswer, joined) :: run joined back ∧
          run (.buffer holder data) (front ++ second :: first :: back) =
            run (.buffer holder data) front
              ++ (otherAnswer, otherBetween) :: (answer, joined) :: run joined back) := by
  obtain ⟨within, left⟩ := leave_eq holder data accesses
  obtain ⟨length, bytes⟩ := Patch.foldl_apply within
  refine ⟨_, left, length, fun answered member => ?_, bytes,
    fun front given values offset source back changed size split success => ?_,
    fun front first second back patch other split told other_told apart => ?_⟩
  · obtain ⟨front, same⟩ := exists_of_mem_run member
    rw [same]
    exact exists_leave holder data front
  · obtain ⟨format, patch, compiled, own, counted, packed, patch_length, all_patches, stands⟩ :=
      @patches_of_write holder data given values offset source front back changed size success
    rw [← split] at all_patches
    rw [← all_patches] at stands
    refine ⟨format, patch, compiled, own, counted,
      (Traced.outcome_bind_of_ok compiled _).trans packed, patch_length, all_patches, ?_⟩
    intro apart size count asked enough
    obtain ⟨items, payloads, listed, normal, answer, read_back, answered⟩ :=
      @perform_read_of_slice holder given values source patch format _ size count compiled packed
        (stands apart) (by rwa [length]) (by rwa [patch_length])
    refine ⟨items, payloads, listed, normal, answer, ?_, answered⟩
    rw [run_append, left, ← read_back]
    rfl
  · rw [split]
    exact run_swap told other_told apart

/-- A record is written into nine bytes, and a second one does not fit. The first one is read back,
and the byte in front of it is as it was. -/
theorem run_last_write_wins_mixed :
    let accesses := [write Format.mixed.given Format.mixedValues (.integer 1) (.cyclic #[1]),
      write Format.mixed.given Format.mixedValues (.integer 3) (.cyclic #[1])]
    ∃ after answer,
      leave (.buffer .byteArray [9, 0, 0, 0, 0, 0, 0, 0, 8]) accesses = .buffer .byteArray after ∧
      after[0]? = some 9 ∧
      run (.buffer .byteArray [9, 0, 0, 0, 0, 0, 0, 0, 8])
          (accesses ++ [read Format.mixed.given 1 .null]) =
        run (.buffer .byteArray [9, 0, 0, 0, 0, 0, 0, 0, 8]) accesses
          ++ [(.payloads answer, .buffer .byteArray after)] ∧
      answer.outcome = .ok [.integer 160, .integers [1, 255], .bytes [7, 0]] := by
  intro accesses
  obtain ⟨after, left, _, _, bytes, written, _⟩ :=
    run_last_write_wins .byteArray [9, 0, 0, 0, 0, 0, 0, 0, 8] accesses
  have in_range := RandomSource.inRange_cyclic (show 0 < (#[1] : Array Int).size by decide)
  have packed := Format.pack_outcome in_range (Format.valid_of_compile Format.compile_mixed)
    Format.bind_mixedValues
    (show RandomSource.answers (.cyclic #[1]) #[] Format.mixed.requests = .ok [1] from rfl)
  obtain ⟨format, ⟨start, record⟩, compiled, _, counted, whole, length, all, read_back⟩ :=
    written [] _ _ _ _ _ _ _ rfl ((Format.packInto_outcome_eq_ok_iff Format.compile_mixed
      (show Holder.byteArray.isWritable = true from rfl)
      (show (Value.integer 1).count? = some 1 from rfl)).mpr
        ⟨by decide, by decide, rfl, _, packed, rfl, rfl⟩)
  obtain rfl := Except.ok.inj (Format.compile_mixed.symm.trans compiled)
  obtain rfl : 1 = start := Int.ofNat.inj (Option.some.inj counted)
  -- The second record does not fit a buffer of nine bytes, so its access patches nothing.
  have refused (before : Bytes) (size : before.length = 9) :
      patches (.buffer .byteArray before)
        [write Format.mixed.given Format.mixedValues (.integer 3) (.cyclic #[1])] = [] := by
    obtain ⟨⟨_, _, _, outcome, _⟩, _⟩ := @Format.packInto_of_not_fits Format.mixed.given
      (.integer 3) Format.mixed .byteArray before 3 Format.compile_mixed rfl rfl
      (by rw [size]; decide) Format.mixedValues (.cyclic #[1])
    rw [patches_cons, (perform_write_of_error outcome).1]
    rfl
  rw [refused _ (Bytes.length_splice (by decide))] at all read_back
  obtain ⟨items, payloads, listed, normal, answer, answered, success⟩ :=
    read_back (List.forall_mem_nil _) .null 8 (.inl ⟨rfl, rfl⟩) (by decide)
  obtain rfl := Option.some.inj listed
  have forms : [Payload.integer 160, .integers [1, 255], .bytes [7, 0]].map some =
      payloads.map some := normal
  obtain rfl := (List.map_inj_right fun _ _ => Option.some.inj).mp forms
  refine ⟨after, answer, left, ?_, answered, success⟩
  rw [bytes, all]
  rfl

end Access

end BitRecord

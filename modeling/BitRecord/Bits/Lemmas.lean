/-
# Laws of bit strings

Bytes and bits are two views of one string: `toBytes_ofBytes` and
`ofBytes_toBytes` say that neither view loses anything but the zeros that
complete a byte. Putting groups of eight bits into the opposite order twice
changes nothing (`swapGroups_swapGroups`).
-/

import BitRecord.Bits.Basic

namespace BitRecord.Bits

@[simp]
theorem groups_zero (bits : Bits) : groups 0 bits = [] := rfl

theorem groups_succ (count : Nat) (bits : Bits) :
    groups (count + 1) bits = bits.take 8 :: groups count (bits.drop 8) := rfl

/-- The first `count` groups, put together, are the first `8 * count` bits. -/
theorem flatten_groups (count : Nat) (bits : Bits) :
    (groups count bits).flatten = bits.take (8 * count) := by
  induction count generalizing bits with
  | zero => simp
  | succ count ih =>
      rw [groups_succ, List.flatten_cons, ih, Nat.mul_succ, Nat.add_comm, List.take_add]

/-- A string that is long enough has full groups only. -/
theorem length_of_mem_groups {count : Nat} {bits group : Bits}
    (enough : 8 * count ≤ bits.length) (member : group ∈ groups count bits) :
    group.length = 8 := by
  induction count generalizing bits with
  | zero => simp at member
  | succ count ih =>
      rw [groups_succ, List.mem_cons] at member
      rcases member with rfl | member
      · rw [List.length_take]
        omega
      · exact ih (by rw [List.length_drop]; omega) member

/-- `groups` is inverse to `List.flatten` on groups of eight bits. -/
theorem groups_flatten {list : List Bits} (full : ∀ group ∈ list, group.length = 8) :
    groups list.length list.flatten = list := by
  induction list with
  | nil => rfl
  | cons group list ih =>
      have length : group.length = 8 := full group List.mem_cons_self
      have others : ∀ other ∈ list, other.length = 8 := fun other member =>
        full other (List.mem_cons_of_mem _ member)
      rw [List.length_cons, groups_succ, List.flatten_cons,
        List.take_append_of_le_length (by omega), List.take_of_length_le (by omega),
        List.drop_append_of_le_length (by omega), List.drop_of_length_le (by omega),
        List.nil_append, ih others]

private theorem length_flatten_full {list : List Bits} (full : ∀ group ∈ list, group.length = 8) :
    list.flatten.length = 8 * list.length := by
  induction list with
  | nil => rfl
  | cons group list ih =>
      rw [List.flatten_cons, List.length_append, full group List.mem_cons_self, List.length_cons,
        ih fun other member => full other (List.mem_cons_of_mem _ member)]
      omega

private theorem reverse_groups_full (bits : Bits) :
    ∀ group ∈ (groups (bits.length / 8) bits).reverse, group.length = 8 :=
  fun _ member => length_of_mem_groups (by omega) (List.mem_reverse.mp member)

/-- `swapGroups` keeps the length of whole bytes. -/
theorem length_swapGroups {bits : Bits} (whole : bits.length % 8 = 0) :
    bits.swapGroups.length = bits.length := by
  rw [swapGroups, length_flatten_full (reverse_groups_full bits), List.length_reverse,
    length_groups]
  omega

/-- `swapGroups` is an involution on whole bytes. -/
theorem swapGroups_swapGroups {bits : Bits} (whole : bits.length % 8 = 0) :
    bits.swapGroups.swapGroups = bits := by
  have length := length_swapGroups whole
  have found : groups (bits.length / 8) bits.swapGroups =
      (groups (bits.length / 8) bits).reverse := by
    have full := groups_flatten (reverse_groups_full bits)
    rwa [List.length_reverse, length_groups] at full
  rw [swapGroups, length, found, List.reverse_reverse, flatten_groups,
    List.take_of_length_le (by omega)]

/-- A string of whole bytes needs nothing to complete it. -/
theorem completed_of_whole {bits : Bits} (whole : bits.length % 8 = 0) :
    bits.completed = bits := by
  rw [completed, toBoundary_eq_zero_iff.mpr whole, List.replicate_zero, List.append_nil]

/-- `ofBytes` after `toBytes` completes the last byte. -/
theorem ofBytes_toBytes (bits : Bits) : ofBytes bits.toBytes = bits.completed := by
  have general : ∀ (count : Nat) (bits : Bits), bits.length = 8 * count →
      ofBytes ((groups count bits).map fun group => UInt8.ofNat group.toNat) = bits := by
    intro count
    induction count with
    | zero =>
        intro bits empty
        rw [List.length_eq_zero_iff.mp empty]
        rfl
    | succ count ih =>
        intro bits length
        have front : (bits.take 8).length = 8 := by
          rw [List.length_take]
          omega
        have byte : ofNat 8 (UInt8.ofNat (toNat (bits.take 8))).toNat = bits.take 8 := by
          have back := ofNat_toNat (bits.take 8)
          rw [front] at back
          rw [UInt8.toNat_ofNat', ofNat_mod, back]
        rw [groups_succ, List.map_cons, ofBytes_cons, byte,
          ih (bits.drop 8) (by rw [List.length_drop]; omega), List.take_append_drop]
  have whole : bits.completed.length = 8 * ((bits.length + 7) / 8) := by
    rw [length_completed, toBoundary]
    omega
  exact general _ _ whole

/-- `toBytes` is inverse to `ofBytes`. -/
theorem toBytes_ofBytes (bytes : Bytes) : toBytes (ofBytes bytes) = bytes := by
  have count : ((ofBytes bytes).length + 7) / 8 = bytes.length := by
    rw [length_ofBytes]
    omega
  have whole : (ofBytes bytes).completed = ofBytes bytes :=
    completed_of_whole (by rw [length_ofBytes]; omega)
  rw [toBytes, count, whole]
  induction bytes with
  | nil => rfl
  | cons byte bytes ih =>
      have length : (ofNat 8 byte.toNat).length = 8 := length_ofNat 8 byte.toNat
      have back : UInt8.ofNat (toNat (ofNat 8 byte.toNat)) = byte := by
        rw [toNat_ofNat]
        apply UInt8.toNat_inj.mp
        rw [UInt8.toNat_ofNat']
        have := byte.toNat_lt
        omega
      rw [ofBytes_cons, List.length_cons, groups_succ, List.take_append_of_le_length (by omega),
        List.take_of_length_le (by omega), List.drop_append_of_le_length (by omega),
        List.drop_of_length_le (by omega), List.nil_append, List.map_cons, back]
      congr 1
      exact ih (by rw [length_ofBytes]; omega)
        (completed_of_whole (by rw [length_ofBytes]; omega))

/-- Different byte strings have different bits. -/
theorem ofBytes_injective {first second : Bytes} (same : ofBytes first = ofBytes second) :
    first = second := by
  rw [← toBytes_ofBytes first, same, toBytes_ofBytes]

end BitRecord.Bits

import WalletConsent.Fault

/-!
Writing to a buffer of given size. What is written is a list of fields; a field goes in whole or
not at all, and the first that has no room ends the writing with `invalidLength`, those before it
staying where they are. `write_of_le` and `write_of_lt` give the two outcomes by the total length.
-/

set_option autoImplicit false

namespace WalletConsent

namespace Wire

/-- The number of bytes written, and the buffer afterwards. -/
def write : (fields : List (List UInt8)) → (buffer : List UInt8) →
    Except WireFault Nat × List UInt8
  | [], buffer => (.ok 0, buffer)
  | field :: fields, buffer =>
    if field.length ≤ buffer.length then
      let (result, rest) := write fields (buffer.drop field.length)
      (result.map (field.length + ·), field ++ rest)
    else (.error .invalidLength, buffer)

theorem write_of_le {fields : List (List UInt8)} {buffer : List UInt8}
    (room : fields.flatten.length ≤ buffer.length) :
    write fields buffer =
      (.ok fields.flatten.length, fields.flatten ++ buffer.drop fields.flatten.length) := by
  induction fields generalizing buffer with
  | nil => simp [write]
  | cons field fields ih =>
    rw [List.flatten_cons, List.length_append] at room
    have rest : fields.flatten.length ≤ (buffer.drop field.length).length := by
      rw [List.length_drop]
      omega
    simp [write, show field.length ≤ buffer.length by omega, ih rest, Except.map,
      List.drop_drop]

theorem write_of_lt {fields : List (List UInt8)} {buffer : List UInt8}
    (short : buffer.length < fields.flatten.length) :
    ∃ n < fields.length, (fields.take n).flatten.length ≤ buffer.length ∧
      buffer.length < (fields.take (n + 1)).flatten.length ∧
      write fields buffer = (.error .invalidLength,
        (fields.take n).flatten ++ buffer.drop (fields.take n).flatten.length) := by
  induction fields generalizing buffer with
  | nil => simp at short
  | cons field fields ih =>
    rw [List.flatten_cons, List.length_append] at short
    by_cases fits : field.length ≤ buffer.length
    · have rest : (buffer.drop field.length).length < fields.flatten.length := by
        rw [List.length_drop]
        omega
      obtain ⟨n, before, room, full, written⟩ := ih rest
      rw [List.length_drop] at room full
      refine ⟨n + 1, Nat.succ_lt_succ before, ?_, ?_, ?_⟩
      · rw [List.take_succ_cons, List.flatten_cons, List.length_append]
        omega
      · rw [List.take_succ_cons, List.flatten_cons, List.length_append]
        omega
      · simp [write, fits, written, Except.map, List.drop_drop]
    · exact ⟨0, by simp, by simp, by simpa using fits, by simp [write, fits]⟩

end Wire

end WalletConsent

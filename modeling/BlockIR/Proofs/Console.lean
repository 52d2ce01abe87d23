import BlockIR.Console
/-!
# Output with limited room

A sink with limited room takes from each write what fits and fails when no room
is left. A line is written by writing its text and its end, and each of these by
writing what is left of it until all is taken. This file states that loop and
shows that `Console.printLine` is what it comes to: a line is printed as far as
it fits.
-/

namespace BlockIR

namespace Console

/-! ## Writing piece by piece -/

/-- One write to a sink: as many of the bytes as fit are taken, and their number
is the result. It fails when no room is left. -/
def accept (bytes : List UInt8) (c : Console) : Except IoFault Nat × Console :=
  match c.room with
  | none => (.ok bytes.length, { c with output := c.output ++ bytes })
  | some 0 => (.error c.outputFault, c)
  | some (room + 1) =>
    let taken := min (room + 1) bytes.length
    (.ok taken,
      { c with output := c.output ++ bytes.take taken, room := some (room + 1 - taken) })

/-- Write until all bytes are taken. A write that takes none is a failure. -/
def writeAll (bytes : List UInt8) (c : Console) : Except IoFault Unit × Console :=
  match bytes with
  | [] => (.ok (), c)
  | first :: rest =>
    match c.accept (first :: rest) with
    | (.error e, c') => (.error e, c')
    | (.ok 0, c') => (.error (.reported "failed to write whole buffer"), c')
    | (.ok (taken + 1), c') => writeAll (rest.drop taken) c'
termination_by bytes.length
decreasing_by
  rw [List.length_drop, List.length_cons]
  omega

/-- Write a line: first its text, then its end. -/
def writeLine (text : String) (c : Console) : Except IoFault Unit × Console :=
  match c.writeAll (Utf8.encode text) with
  | (.error e, c') => (.error e, c')
  | (.ok _, c') => c'.writeAll (Utf8.encode "\n")

theorem writeAll_nil (c : Console) : c.writeAll [] = (.ok (), c) := by
  rw [writeAll]

/-- Without room nothing is taken. -/
theorem writeAll_of_no_room {bytes : List UInt8} (hne : bytes ≠ []) {c : Console}
    (hroom : c.room = some 0) : c.writeAll bytes = (.error c.outputFault, c) := by
  cases bytes with
  | nil => exact absurd rfl hne
  | cons first rest => simp [writeAll, accept, hroom]

/-- **Writing until all is taken writes as far as there is room.** -/
theorem writeAll_eq_write (bytes : List UInt8) (c : Console) :
    c.writeAll bytes = c.write bytes := by
  obtain ⟨input, output, room, inputFault, outputFault⟩ := c
  cases bytes with
  | nil =>
    rw [writeAll_nil]
    cases room <;> simp [write]
  | cons first rest =>
    rcases room with _ | _ | room
    · simp [writeAll, accept, write]
    · simp [writeAll_of_no_room, write]
    · -- the first write takes all, or all that fits; what is left then finds no room
      have htaken : min (room + 1) (rest.length + 1) = min room rest.length + 1 := by omega
      rw [writeAll]
      simp only [accept, List.length_cons, htaken, List.take_succ_cons]
      by_cases hfits : rest.length ≤ room
      · have hmin : min room rest.length = rest.length := Nat.min_eq_right hfits
        rw [hmin]
        simp [writeAll_nil, write, hfits]
      · have hmin : min room rest.length = room := by omega
        have hleft : rest.drop room ≠ [] := by
          rw [ne_eq, List.drop_eq_nil_iff]
          omega
        simp [hmin, writeAll_of_no_room hleft, write, hfits]

theorem output_append (output : Array UInt8) (first rest : List UInt8) :
    output ++ (first ++ rest) = output ++ first ++ rest := by
  rw [← Array.toList_inj]
  simp

/-- Bytes may be written in two parts. -/
theorem write_append (first rest : List UInt8) (c : Console) :
    c.write (first ++ rest) =
      match c.write first with
      | (.error e, c') => (.error e, c')
      | (.ok _, c') => c'.write rest := by
  obtain ⟨input, output, room, inputFault, outputFault⟩ := c
  cases room with
  | none => simp [write, output_append]
  | some room =>
    by_cases hfirst : first.length ≤ room
    · by_cases hrest : rest.length ≤ room - first.length
      · have hall : first.length + rest.length ≤ room := by omega
        simp [write, hfirst, hrest, hall, Nat.sub_sub, output_append]
      · have hall : ¬ first.length + rest.length ≤ room := by omega
        simp [write, hfirst, hrest, hall, List.take_append, List.take_of_length_le hfirst,
          output_append]
    · have hall : ¬ first.length + rest.length ≤ room := by omega
      have hnone : room - first.length = 0 := by omega
      simp [write, hfirst, hall, List.take_append, hnone]

theorem encode_append (s t : String) : Utf8.encode (s ++ t) = Utf8.encode s ++ Utf8.encode t := by
  simp [Utf8.encode]

/-- **A line is printed as its text and its end are written.** -/
theorem printLine_eq_writeLine (text : String) (c : Console) :
    c.printLine text = c.writeLine text := by
  rw [printLine, encode_append, write_append, writeLine, writeAll_eq_write]
  rcases c.write (Utf8.encode text) with ⟨e | _, c'⟩
  · rfl
  · exact (writeAll_eq_write _ c').symm

/-! ## Consoles that differ in their room -/

/-- The console with so much room left for its output, which is full then. -/
def withRoom (n : Nat) (c : Console) : Console :=
  { c with room := some n, outputFault := .outputFull }

variable {c : Console} {text : String} {n : Nat}

/-- With unlimited room a line is printed whole. -/
theorem printLine_of_unlimited (hroom : c.room = none) (text : String) :
    c.printLine text = (.ok (), { c with output := c.output ++ Utf8.encode (text ++ "\n") }) := by
  obtain ⟨input, output, room, inputFault, outputFault⟩ := c
  obtain rfl : room = none := hroom
  rfl

/-- A line for which there is room is printed. -/
theorem printLine_of_le (hroom : c.room = some n)
    (hfits : (Utf8.encode (text ++ "\n")).length ≤ n) :
    c.printLine text =
      (.ok (), { c with
        output := c.output ++ Utf8.encode (text ++ "\n")
        room := some (n - (Utf8.encode (text ++ "\n")).length) }) := by
  obtain ⟨input, output, room, inputFault, outputFault⟩ := c
  obtain rfl : room = some n := hroom
  exact if_pos hfits

/-- A longer one is cut, and the print fails. -/
theorem printLine_of_lt (hroom : c.room = some n)
    (hlong : n < (Utf8.encode (text ++ "\n")).length) :
    c.printLine text =
      (.error c.outputFault, { c with
        output := c.output ++ (Utf8.encode (text ++ "\n")).take n
        room := some 0 }) := by
  obtain ⟨input, output, room, inputFault, outputFault⟩ := c
  obtain rfl : room = some n := hroom
  exact if_neg (Nat.not_le_of_lt hlong)

/-- A line that fits takes its bytes from the room. -/
theorem printLine_withRoom (hfits : (Utf8.encode (text ++ "\n")).length ≤ n) :
    (c.withRoom n).printLine text =
      (.ok (), withRoom (n - (Utf8.encode (text ++ "\n")).length)
        { c with output := c.output ++ Utf8.encode (text ++ "\n") }) :=
  printLine_of_le rfl hfits

/-- A line that does not fit is cut off, and fails. -/
theorem printLine_withRoom_of_lt (hlong : n < (Utf8.encode (text ++ "\n")).length) :
    (c.withRoom n).printLine text =
      (.error .outputFull, withRoom 0
        { c with output := c.output ++ (Utf8.encode (text ++ "\n")).take n }) :=
  printLine_of_lt rfl hlong

/-- A line for which there is room is printed, limited or not. -/
theorem printLine_of_fits
    (hfits : ∀ n, c.room = some n → (Utf8.encode (text ++ "\n")).length ≤ n) :
    (c.printLine text).1 = .ok () ∧
      (c.printLine text).2.output = c.output ++ Utf8.encode (text ++ "\n") := by
  cases hroom : c.room with
  | none =>
    rw [printLine_of_unlimited hroom]
    exact ⟨rfl, rfl⟩
  | some n =>
    rw [printLine_of_le hroom (hfits n hroom)]
    exact ⟨rfl, rfl⟩

/-- Reading does not ask for the room. -/
theorem readLine_withRoom (c : Console) (n : Nat) :
    (c.withRoom n).readLine = (c.readLine.1, c.readLine.2.withRoom n) := rfl

/-- Reading a line takes no room. -/
theorem room_readLine (c : Console) : c.readLine.2.room = c.room := rfl

end Console

end BlockIR

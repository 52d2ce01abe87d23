import BlockIR.Instruction.Text
import BlockIR.Proofs.Instruction.Lexeme
/-!
# Instructions are told apart by their text

The text of an instruction is the spelling of its lexemes (`spell_lexemes`),
which are separated where the name of a builtin operation holds no parenthesis.
From its lexemes the instruction is read back (`read?_lexemes`): whether an
operand comes first, and which mark stands behind it, gives its form.
-/

namespace BlockIR

open Lexeme

variable {hidden : Char → Bool}

/-! ## Operands -/

namespace Operand

/-- The lexemes of an operand, in front of others. -/
def lexemes : Operand → List Lexeme → List Lexeme
  | var l, rest => .mark .slot :: .number l :: rest
  | const (.int i), rest =>
    if i.toInt < 0 then .mark .minus :: .number i.toInt.natAbs :: rest
    else .number i.toInt.natAbs :: rest
  | const (.str s), rest => .quoted s :: rest
  | const .null, rest => .mark .null :: rest

/-- The lexemes of an operand spell its text. -/
@[simp] theorem spell_lexemes (o : Operand) (ts : List Lexeme) :
    spell hidden (o.lexemes ts) = (o.textBy hidden).toList ++ spell hidden ts := by
  match o with
  | var l => simp [lexemes, Operand.textBy, LocalId.text, Mark.text]
  | const (.int i) =>
    simp only [lexemes, Operand.textBy, Constant.textBy, Decimal.ofInt64, Decimal.toList_ofInt]
    split <;> simp [Mark.text]
  | const (.str s) => rfl
  | const .null => rfl

/-- The lexemes of an operand are separated from what may follow a number. -/
theorem separated_lexemes (o : Operand) {ts : List Lexeme} (h : Follows hidden ts) :
    Separated hidden (o.lexemes ts) := by
  match o with
  | var l => exact separated_mark (separated_number h)
  | const (.int i) =>
    rw [lexemes]
    split
    · exact separated_mark (separated_number h)
    · exact separated_number h
  | const (.str s) => exact ⟨trivial, h.separated⟩
  | const .null => exact separated_mark h.separated

/-- The operand that some lexemes begin with, and the lexemes behind it. -/
def read? : List Lexeme → Option (Operand × List Lexeme)
  | .mark .slot :: .number l :: rest => some (var l, rest)
  | .mark .minus :: .number n :: rest => some (const (.int (Int64.ofInt (-n))), rest)
  | .number n :: rest => some (const (.int (Int64.ofInt n)), rest)
  | .quoted s :: rest => some (const (.str s), rest)
  | .mark .null :: rest => some (const .null, rest)
  | _ => none

/-- **An operand is read back from its lexemes.** -/
theorem read?_lexemes (o : Operand) (ts : List Lexeme) : read? (o.lexemes ts) = some (o, ts) := by
  match o with
  | var l => rfl
  | const (.int i) =>
    rw [lexemes]
    split
    · have hneg : -(i.toInt.natAbs : Int) = i.toInt := by omega
      rw [read?, hneg, Int64.ofInt_toInt]
    · have hpos : (i.toInt.natAbs : Int) = i.toInt := by omega
      rw [read?, hpos, Int64.ofInt_toInt]
  | const (.str s) => rfl
  | const .null => rfl

/-- Reading an operand leaves less to read. -/
theorem length_of_read? {o : Operand} {ts rest : List Lexeme} (h : read? ts = some (o, rest)) :
    rest.length < ts.length := by
  unfold read? at h
  split at h <;> cases h <;> grind

end Operand

/-! ## Calls -/

namespace Callee

/-- The lexemes of what a call runs, up to its arguments. -/
def lexemes : Callee → List Lexeme → List Lexeme
  | function f, rest =>
    .mark .function :: .number f.module :: .mark .dot :: .number f.index :: .mark .opening :: rest
  | builtin name, rest => .builtin name :: rest

/-- What a call runs, and the lexemes behind it. -/
def read? : List Lexeme → Option (Callee × List Lexeme)
  | .mark .function :: .number m :: .mark .dot :: .number i :: .mark .opening :: rest =>
    some (function ⟨m, i⟩, rest)
  | .builtin name :: rest => some (builtin name, rest)
  | _ => none

/-- A callee is read back. -/
theorem read?_lexemes (c : Callee) (ts : List Lexeme) : read? (c.lexemes ts) = some (c, ts) := by
  cases c <;> rfl

@[simp] theorem spell_lexemes (c : Callee) (ts : List Lexeme) : spell hidden (c.lexemes ts) =
    (Instruction.calleeText .byPosition c).toList ++ '(' :: spell hidden ts := by
  cases c with
  | function f => simp [lexemes, Instruction.calleeText, Naming.byPosition, Mark.text]
  | builtin name => simp [lexemes, Instruction.calleeText, chars_builtin]

/-- The lexemes of a callee are separated, if its name has no parenthesis. -/
theorem separated_lexemes {c : Callee} {ts : List Lexeme}
    (hname : ∀ name, c = builtin name → '(' ∉ name.toList) (h : Separated hidden ts) :
    Separated hidden (c.lexemes ts) := by
  cases c with
  | function f =>
    have hindex : Separated hidden (.number f.index :: .mark .opening :: ts) :=
      separated_number (follows_mark h)
    exact separated_mark (separated_number (follows_mark hindex))
  | builtin name => exact ⟨hname name rfl, h⟩

end Callee

namespace Instruction

/-- The lexemes of arguments, up to the parenthesis behind them. -/
def argumentLexemes : List Operand → List Lexeme
  | [] => [.mark .closing]
  | [a] => a.lexemes [.mark .closing]
  | a :: b :: args => a.lexemes (.mark .comma :: argumentLexemes (b :: args))

/-- The lexemes of arguments spell their texts between commas. -/
@[simp] theorem spell_argumentLexemes (args : List Operand) : spell hidden (argumentLexemes args) =
    (", ".intercalate (args.map (Operand.textBy hidden))).toList ++ [')'] := by
  fun_induction argumentLexemes args with
  | case1 => rfl
  | case2 a => simp [Mark.text]
  | case3 a b args ih => simp [Mark.text, ih, String.intercalate_cons_cons]

/-- The lexemes of arguments are separated. -/
theorem separated_argumentLexemes (args : List Operand) :
    Separated hidden (argumentLexemes args) := by
  fun_induction argumentLexemes args with
  | case1 => exact separated_mark follows_nil.separated
  | case2 a => exact a.separated_lexemes (follows_mark follows_nil.separated)
  | case3 a b args ih => exact a.separated_lexemes (follows_mark ih)

/-- Operands with one lexeme behind each. Which lexeme it is does not matter: no
operand is read behind the last one. -/
def readArguments (ts : List Lexeme) : List Operand :=
  match _h : Operand.read? ts with
  | some (a, _ :: rest) => a :: readArguments rest
  | _ => []
termination_by ts.length
decreasing_by exact Nat.lt_of_succ_lt (Operand.length_of_read? _h)

/-- Where no operand follows there are no more arguments. -/
theorem readArguments_of_none {ts : List Lexeme} (h : Operand.read? ts = none) :
    readArguments ts = [] := by
  rw [readArguments]
  split
  next hread => cases h.symm.trans hread
  next => rfl

/-- An argument is read before those that follow. -/
theorem readArguments_lexemes (a : Operand) (t : Lexeme) (ts : List Lexeme) :
    readArguments (a.lexemes (t :: ts)) = a :: readArguments ts := by
  rw [readArguments]
  split
  next h =>
    rw [Operand.read?_lexemes] at h
    cases h
    rfl
  next h => exact absurd (Operand.read?_lexemes a (t :: ts)) (h a t ts)

/-- **Arguments are read back.** -/
theorem readArguments_argumentLexemes (args : List Operand) :
    readArguments (argumentLexemes args) = args := by
  fun_induction argumentLexemes args with
  | case1 => exact readArguments_of_none rfl
  | case2 a => rw [readArguments_lexemes, readArguments_of_none rfl]
  | case3 a b args ih => rw [readArguments_lexemes, ih]

/-! ## Instructions -/

/-- **The lexemes of an instruction.** -/
def lexemes : Instruction → List Lexeme
  | copy dst src => (Operand.var dst).lexemes (.mark .assign :: src.lexemes [])
  | newArray dst size =>
    (Operand.var dst).lexemes (.mark .assign :: .mark .newArray :: size.lexemes [])
  | loadArray dst array index =>
    (Operand.var dst).lexemes (.mark .assign ::
      array.lexemes (.mark .index :: index.lexemes [.mark .indexEnd]))
  | storeArray array index value =>
    array.lexemes (.mark .index ::
      index.lexemes (.mark .indexEnd :: .mark .assign :: value.lexemes []))
  | loadGlobal dst g =>
    (Operand.var dst).lexemes [.mark .assign, .mark .load, .mark .global, .number g]
  | storeGlobal g src =>
    .mark .store :: .mark .global :: .number g :: .mark .comma :: src.lexemes []
  | call none callee args => .mark .call :: callee.lexemes (argumentLexemes args)
  | call (some dst) callee args =>
    (Operand.var dst).lexemes (.mark .assign ::
      .mark .call :: callee.lexemes (argumentLexemes args))
  | binary dst op lhs rhs =>
    (Operand.var dst).lexemes (.mark .assign ::
      lhs.lexemes (.mark (.operator op) :: rhs.lexemes []))
  | jump target => [.mark .jump, .mark .block, .number target]
  | branch cond t e =>
    .mark .branch :: cond.lexemes
      [.mark .comma, .mark .block, .number t, .mark .comma, .mark .block, .number e]
  | ret value => .mark .ret :: value.lexemes []

/-- **The text of an instruction is the spelling of its lexemes.** -/
theorem spell_lexemes (x : Instruction) :
    spell hidden x.lexemes = (x.textBy hidden .byPosition).toList := by
  match x with
  | copy dst src => simp [lexemes, textBy, Operand.textBy, Mark.text]
  | newArray dst size => simp [lexemes, textBy, Operand.textBy, Mark.text]
  | loadArray dst array index => simp [lexemes, textBy, Operand.textBy, Mark.text]
  | storeArray array index value => simp [lexemes, textBy, Mark.text]
  | loadGlobal dst g =>
    simp [lexemes, textBy, Operand.textBy, Mark.text, Naming.byPosition, GlobalId.text]
  | storeGlobal g src => simp [lexemes, textBy, Mark.text, Naming.byPosition, GlobalId.text]
  | call none callee args => simp [lexemes, textBy, targetText, argumentsText, Mark.text]
  | call (some dst) callee args =>
    simp [lexemes, textBy, targetText, argumentsText, Operand.textBy, Mark.text]
  | binary dst op lhs rhs => simp [lexemes, textBy, Operand.textBy, Mark.text]
  | jump target => simp [lexemes, textBy, BlockId.text, Mark.text]
  | branch cond t e => simp [lexemes, textBy, BlockId.text, Mark.text]
  | ret value => simp [lexemes, textBy, Mark.text]

/-- The builtin operation that an instruction calls by name. -/
def builtinName? : Instruction → Option String
  | call _ (.builtin name) _ => some name
  | _ => none

/-- **The lexemes of an instruction are separated**: an operand or a number has a
mark behind it or nothing. -/
theorem separated_lexemes {x : Instruction} (h : ∀ name ∈ x.builtinName?, '(' ∉ name.toList) :
    Separated hidden x.lexemes := by
  -- an operand and a number may end the instruction
  have hlast : ∀ o : Operand, Separated hidden (o.lexemes []) :=
    fun o => o.separated_lexemes follows_nil
  have hnumber : ∀ n, Separated hidden [.number n] := fun _ => separated_number follows_nil
  match x with
  | copy dst src =>
    rw [lexemes]
    exact Operand.separated_lexemes _ (follows_mark (hlast src))
  | newArray dst size =>
    rw [lexemes]
    exact Operand.separated_lexemes _ (follows_mark (separated_mark (hlast size)))
  | loadArray dst array index =>
    rw [lexemes]
    have hindex : Separated hidden (index.lexemes [.mark .indexEnd]) :=
      index.separated_lexemes (follows_mark follows_nil.separated)
    exact Operand.separated_lexemes _ (follows_mark (array.separated_lexemes (follows_mark hindex)))
  | storeArray array index value =>
    rw [lexemes]
    have hindex : Separated hidden
        (index.lexemes (.mark .indexEnd :: .mark .assign :: value.lexemes [])) :=
      index.separated_lexemes (follows_mark (separated_mark (hlast value)))
    exact array.separated_lexemes (follows_mark hindex)
  | loadGlobal dst g =>
    rw [lexemes]
    exact Operand.separated_lexemes _
      (follows_mark (separated_mark (separated_mark (hnumber g))))
  | storeGlobal g src =>
    rw [lexemes]
    exact separated_mark (separated_mark (separated_number (follows_mark (hlast src))))
  | call none callee args =>
    rw [lexemes]
    refine separated_mark (Callee.separated_lexemes ?_ (separated_argumentLexemes args))
    rintro name rfl
    exact h name rfl
  | call (some dst) callee args =>
    rw [lexemes]
    refine Operand.separated_lexemes _ (follows_mark (separated_mark
      (Callee.separated_lexemes ?_ (separated_argumentLexemes args))))
    rintro name rfl
    exact h name rfl
  | binary dst op lhs rhs =>
    rw [lexemes]
    exact Operand.separated_lexemes _
      (follows_mark (lhs.separated_lexemes (follows_mark (hlast rhs))))
  | jump target => exact separated_mark (separated_mark (hnumber target))
  | branch cond t e =>
    rw [lexemes]
    have hthen : Separated hidden [.number t, .mark .comma, .mark .block, .number e] :=
      separated_number (follows_mark (separated_mark (hnumber e)))
    exact separated_mark (cond.separated_lexemes (follows_mark (separated_mark hthen)))
  | ret value => exact separated_mark (hlast value)

/-! ## Reading an instruction back -/

/-- An instruction that begins with a word, behind the slot it assigns. -/
def readWord? : Option LocalId → List Lexeme → Option Instruction
  | some dst, .mark .newArray :: ts => (Operand.read? ts).map fun p => newArray dst p.1
  | some dst, .mark .load :: .mark .global :: .number g :: _ => some (loadGlobal dst g)
  | dst, .mark .call :: ts =>
    (Callee.read? ts).map fun p => call dst p.1 (readArguments p.2)
  | none, .mark .store :: .mark .global :: .number g :: .mark .comma :: ts =>
    (Operand.read? ts).map fun p => storeGlobal g p.1
  | none, .mark .jump :: .mark .block :: .number target :: _ => some (jump target)
  | none, .mark .branch :: ts =>
    match Operand.read? ts with
    | some (cond, [.mark .comma, .mark .block, .number t, .mark .comma, .mark .block, .number e]) =>
      some (branch cond t e)
    | _ => none
  | none, .mark .ret :: ts => (Operand.read? ts).map fun p => ret p.1
  | _, _ => none

/-- An instruction behind the slot it assigns. -/
def readAssigned? (dst : LocalId) (ts : List Lexeme) : Option Instruction :=
  match Operand.read? ts with
  | some (src, []) => some (copy dst src)
  | some (array, .mark .index :: rest) =>
    (Operand.read? rest).map fun p => loadArray dst array p.1
  | some (lhs, .mark (.operator op) :: rest) =>
    (Operand.read? rest).map fun p => binary dst op lhs p.1
  | some _ => none
  | none => readWord? (some dst) ts

/-- The instruction that some lexemes are those of. -/
def read? (ts : List Lexeme) : Option Instruction :=
  match Operand.read? ts with
  | some (.var dst, .mark .assign :: rest) => readAssigned? dst rest
  | some (array, .mark .index :: rest) =>
    match Operand.read? rest with
    | some (index, .mark .indexEnd :: .mark .assign :: rest) =>
      (Operand.read? rest).map fun p => storeArray array index p.1
    | _ => none
  | some _ => none
  | none => readWord? none ts

/-- Behind a slot and an assignment follows what is assigned. -/
theorem read?_assigned (dst : LocalId) (ts : List Lexeme) :
    read? ((Operand.var dst).lexemes (.mark .assign :: ts)) = readAssigned? dst ts := rfl

/-- What is assigned is not an operand where none can be read. -/
theorem readAssigned?_word {dst : LocalId} {ts : List Lexeme} (h : Operand.read? ts = none) :
    readAssigned? dst ts = readWord? (some dst) ts := by
  rw [readAssigned?, h]

/-- An instruction without result begins with its word. -/
theorem read?_word {ts : List Lexeme} (h : Operand.read? ts = none) :
    read? ts = readWord? none ts := by
  rw [read?, h]

/-- A call is read back. -/
theorem readWord?_call (dst : Option LocalId) (callee : Callee) (args : List Operand) :
    readWord? dst (.mark .call :: callee.lexemes (argumentLexemes args)) =
      some (call dst callee args) := by
  cases dst <;>
    rw [readWord?, Callee.read?_lexemes, Option.map_some, readArguments_argumentLexemes]

/-- **An instruction is read back from its lexemes.** -/
theorem read?_lexemes (x : Instruction) : read? x.lexemes = some x := by
  match x with
  | copy dst src => rw [lexemes, read?_assigned, readAssigned?, Operand.read?_lexemes]
  | newArray dst size =>
    rw [lexemes, read?_assigned, readAssigned?_word rfl, readWord?, Operand.read?_lexemes,
      Option.map_some]
  | loadArray dst array index =>
    simp only [lexemes, read?_assigned, readAssigned?, Operand.read?_lexemes, Option.map_some]
  | storeArray array index value =>
    simp only [lexemes, read?, Operand.read?_lexemes, Option.map_some]
  | loadGlobal dst g => rfl
  | storeGlobal g src =>
    rw [lexemes, read?_word rfl, readWord?, Operand.read?_lexemes, Option.map_some]
  | call none callee args => rw [lexemes, read?_word rfl, readWord?_call]
  | call (some dst) callee args =>
    rw [lexemes, read?_assigned, readAssigned?_word rfl, readWord?_call]
  | binary dst op lhs rhs =>
    simp only [lexemes, read?_assigned, readAssigned?, Operand.read?_lexemes, Option.map_some]
  | jump target => rfl
  | branch cond t e => rw [lexemes, read?_word rfl, readWord?, Operand.read?_lexemes]
  | ret value => rw [lexemes, read?_word rfl, readWord?, Operand.read?_lexemes, Option.map_some]

/-- **Distinct instructions have distinct texts**, where the builtin operations that
they call by name have no opening parenthesis in their names. Text constants and
the rest of the names are arbitrary, and so is the choice of the characters that
are written by their code points in text constants. -/
theorem text_byPosition_inj (hidden : Char → Bool) {x y : Instruction}
    (hx : ∀ name ∈ x.builtinName?, '(' ∉ name.toList)
    (hy : ∀ name ∈ y.builtinName?, '(' ∉ name.toList) :
    x.textBy hidden .byPosition = y.textBy hidden .byPosition ↔ x = y := by
  refine ⟨fun h => ?_, fun h => h ▸ rfl⟩
  -- from the text to the lexemes, and from the lexemes to the instruction
  have hspell : spell hidden x.lexemes = spell hidden y.lexemes := by
    rw [spell_lexemes, spell_lexemes, h]
  have hlexemes : x.lexemes = y.lexemes :=
    spell_inj (separated_lexemes hx) (separated_lexemes hy) hspell
  rw [← Option.some_inj, ← read?_lexemes x, hlexemes, read?_lexemes]

/-- One argument that holds quotes and a comma, and two that are empty: without
the backslashes the texts would be the same. -/
theorem text_byPosition_inj_quotes : '(' ∉ "say)".toList ∧
    (call none (.builtin "say)") [.str "\", \""]).text .byPosition ≠
      (call none (.builtin "say)") [.str "", .str ""]).text .byPosition := by
  have hname : '(' ∉ "say)".toList := by decide
  refine ⟨hname, fun h => ?_⟩
  have heq := (text_byPosition_inj Text.isHidden (by rintro _ ⟨⟩; exact hname)
    (by rintro _ ⟨⟩; exact hname)).mp h
  exact absurd heq (by decide)

end Instruction

end BlockIR

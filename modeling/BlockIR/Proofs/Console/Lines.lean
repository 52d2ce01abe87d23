import BlockIR.Proofs.Console
import BlockIR.Transform
import Mathlib.Data.List.TakeDrop
import Mathlib.Data.List.TakeWhile
import Mathlib.Logic.ExistsUnique
import Mathlib.Logic.Function.Iterate
import Mathlib.Tactic.SplitIfs
/-!
# Lines of the console

The bytes of the input fall into segments, each through the next newline.
Reading line after line returns the segments in order, each without its end, and
then nothing for good: `Segments` and `Reads` say so without the functions that
cut and decode. An input that fails instead of ending does so in its last line,
if that has no end, and from then on. What was printed line by line is read back
line by line, as long as no line looks as if it had an end of its own.
-/

namespace BlockIR

namespace Utf8

/-! ## Bytes and text -/

variable {bytes : List UInt8} {s : String}

/-- **Decoding undoes encoding**, and decodes nothing else. -/
theorem decode?_eq_some : decode? bytes = some s ↔ encode s = bytes := by
  unfold decode? String.fromUTF8? encode
  constructor
  · intro h
    split at h
    · cases h
      rfl
    · cases h
  · rintro rfl
    exact dif_pos s.isValidUTF8

/-- A text that is encoded is decoded again. -/
theorem decode?_encode (s : String) : decode? (encode s) = some s :=
  decode?_eq_some.mpr rfl

/-- A text is encoded character by character. -/
theorem encode_eq_flatMap (s : String) : encode s = s.toList.flatMap String.utf8EncodeChar := by
  have hbytes : s.toByteArray = (s.toList.flatMap String.utf8EncodeChar).toByteArray := by
    rw [← List.utf8Encode, ← String.toByteArray_ofList, String.ofList_toList]
  rw [encode, String.toUTF8_eq_toByteArray, hbytes, List.toList_data_toByteArray]

/-- A character beyond the first 128 has no byte in their range, so the byte of
a newline stands for a newline only. -/
theorem newline_mem_encodeChar {c : Char} :
    Console.newline ∈ String.utf8EncodeChar c ↔ c = '\n' := by
  have hsame : c = '\n' ↔ c.val.toNat = 10 := by
    rw [← Char.toNat_inj]
    rfl
  have hbyte : ∀ k, Console.newline = UInt8.ofNat k ↔ k % 256 = 10 := by
    intro k
    rw [← UInt8.toNat_inj, UInt8.toNat_ofNat']
    exact eq_comm
  rw [hsame]
  unfold String.utf8EncodeChar
  simp only
  -- one byte that is the character, or several that are all 128 or more
  split_ifs <;> simp only [List.mem_cons, List.not_mem_nil, or_false, hbyte] <;> omega

/-- The byte of a newline stands for the character, and for no part of another. -/
theorem newline_mem_encode : Console.newline ∈ encode s ↔ '\n' ∈ s.toList := by
  rw [encode_eq_flatMap, List.mem_flatMap]
  simp only [newline_mem_encodeChar, exists_eq_right]

end Utf8

namespace Console

/-! ## Segments and what they are read as -/

/-- **The segments of some bytes**: each goes through the next newline, and the
last may lack one. -/
inductive Segments : List UInt8 → List (List UInt8) → Prop
  | empty : Segments [] []
  | last {body : List UInt8} : body ≠ [] → newline ∉ body → Segments body [body]
  | line {body rest : List UInt8} {segments : List (List UInt8)} :
      newline ∉ body → Segments rest segments →
      Segments (body ++ newline :: rest) ((body ++ [newline]) :: segments)

/-- **What reading a segment comes to**: its text without the newline and one
carriage return right before it. A segment without newline is read as it is, and
one that encodes no text is a fault. If the input has a fault of its own, it shows
in a segment without newline. -/
inductive Reads : Option IoFault → List UInt8 → Except IoFault (Option String) → Prop
  | crlf (text : String) : Reads none (Utf8.encode (text ++ "\r\n")) (.ok (some text))
  | lf {text : String} : text.toList.getLast? ≠ some '\r' →
      Reads none (Utf8.encode (text ++ "\n")) (.ok (some text))
  | unended {text : String} : text.toList.getLast? ≠ some '\n' →
      Reads none (Utf8.encode text) (.ok (some text))
  | invalid {segment : List UInt8} : (∀ text, Utf8.encode text ≠ segment) →
      Reads none segment (.error .invalidText)
  | ended {fault : IoFault} {segment : List UInt8} {result : Except IoFault (Option String)} :
      newline ∈ segment → Reads none segment result → Reads (some fault) segment result
  | broken {fault : IoFault} {segment : List UInt8} : newline ∉ segment →
      Reads (some fault) segment (.error fault)

/-- The console after some lines were read. -/
def afterReads (n : Nat) (c : Console) : Console :=
  (fun c => c.readLine.2)^[n] c

/-- Print a line, as a transformer of the console. -/
def printing (line : String) : Transform Console IoFault Unit :=
  ExceptT.mk (printLine line)

/-- Print some lines in order. -/
def printEach (lines : List String) : Transform Console IoFault Unit :=
  lines.forM printing

variable {c : Console} {bytes segment : List UInt8} {segments : List (List UInt8)}
variable {result : Except IoFault (Option String)} {fault : Option IoFault} {cs : List Char}

/-! ## The end of a line -/

/-- A carriage return before the newline goes with it. -/
theorem dropLineEnd_crlf (cs : List Char) : dropLineEnd (cs ++ ['\r', '\n']) = cs := by
  simp [dropLineEnd]

/-- Without carriage return only the newline goes. -/
theorem dropLineEnd_lf (h : cs.getLast? ≠ some '\r') : dropLineEnd (cs ++ ['\n']) = cs := by
  rcases List.eq_nil_or_concat cs with rfl | ⟨cs, c, rfl⟩
  · rfl
  · have hc : c ≠ '\r' := by simpa using h
    unfold dropLineEnd
    simp [hc]

/-- A line without newline stays as it is. -/
theorem dropLineEnd_unended (h : cs.getLast? ≠ some '\n') : dropLineEnd cs = cs := by
  rcases List.eq_nil_or_concat cs with rfl | ⟨cs, c, rfl⟩
  · rfl
  · have hc : c ≠ '\n' := by simpa using h
    unfold dropLineEnd
    simp [hc]

/-- A text ends in one of three ways. -/
theorem lineEnd_cases (text : String) :
    (∃ line, text = line ++ "\r\n") ∨
    (∃ line : String, line.toList.getLast? ≠ some '\r' ∧ text = line ++ "\n") ∨
    text.toList.getLast? ≠ some '\n' := by
  by_cases hlast : text.toList.getLast? = some '\n'
  · obtain ⟨cs, hcs⟩ := List.getLast?_eq_some_iff.mp hlast
    by_cases hbefore : cs.getLast? = some '\r'
    · obtain ⟨ds, rfl⟩ := List.getLast?_eq_some_iff.mp hbefore
      refine .inl ⟨String.ofList ds, ?_⟩
      rw [← String.toList_inj, hcs]
      simp
    · refine .inr (.inl ⟨String.ofList cs, by simpa using hbefore, ?_⟩)
      rw [← String.toList_inj, hcs]
      simp
  · exact .inr (.inr hlast)

/-! ## Reading a segment -/

/-- What is read of a segment, by decoding it. -/
def decoded (segment : List UInt8) : Except IoFault (Option String) :=
  match Utf8.decode? segment with
  | none => .error .invalidText
  | some text => .ok (some (String.ofList (dropLineEnd text.toList)))

/-- The bytes of a text are read as the text without its line end. -/
theorem decoded_encode (text : String) :
    decoded (Utf8.encode text) = .ok (some (String.ofList (dropLineEnd text.toList))) := by
  rw [decoded, Utf8.decode?_encode]

/-- What the relation says of a segment is what is read. -/
theorem decoded_of_reads (h : Reads none segment result) : decoded segment = result := by
  cases h with
  | crlf text =>
    rw [decoded_encode, String.toList_append, show "\r\n".toList = ['\r', '\n'] from rfl,
      dropLineEnd_crlf, String.ofList_toList]
  | lf hlast =>
    rw [decoded_encode, String.toList_append, show "\n".toList = ['\n'] from rfl,
      dropLineEnd_lf hlast, String.ofList_toList]
  | unended hlast => rw [decoded_encode, dropLineEnd_unended hlast, String.ofList_toList]
  | invalid hnone =>
    unfold decoded
    cases htext : Utf8.decode? segment with
    | none => rfl
    | some text => exact absurd (Utf8.decode?_eq_some.mp htext) (hnone text)

/-- The relation says something of every segment. -/
theorem reads_decoded (segment : List UInt8) : Reads none segment (decoded segment) := by
  cases htext : Utf8.decode? segment with
  | none =>
    rw [decoded, htext]
    refine .invalid fun text heq => ?_
    rw [Utf8.decode?_eq_some.mpr heq] at htext
    cases htext
  | some text =>
    obtain rfl := Utf8.decode?_eq_some.mp htext
    -- the relation has one rule for each way a text can end
    rcases lineEnd_cases text with ⟨line, rfl⟩ | ⟨line, hlast, rfl⟩ | hlast
    · rw [decoded_of_reads (.crlf line)]
      exact .crlf line
    · rw [decoded_of_reads (.lf hlast)]
      exact .lf hlast
    · rw [decoded_of_reads (.unended hlast)]
      exact .unended hlast

/-- What reaches to its newline, or to where the input ends, is decoded. -/
theorem lineOf_ended (hne : segment ≠ []) (hend : fault = none ∨ newline ∈ segment) :
    lineOf fault segment = decoded segment := by
  have hwhole : (if newline ∈ segment then none else fault) = none := by
    rcases hend with rfl | hend
    · exact ite_self none
    · exact if_pos hend
  have hsome : segment.isEmpty = false := List.isEmpty_eq_false_iff.mpr hne
  rw [lineOf, hwhole]
  simp only [hsome, Bool.false_eq_true, if_false]
  rfl

/-- A line that breaks off is the fault. -/
theorem lineOf_broken {e : IoFault} (h : newline ∉ segment) :
    lineOf (some e) segment = .error e := by
  rw [lineOf, if_neg h]

/-- **Every segment is read, and in one way.** -/
theorem reads_iff (hne : segment ≠ []) :
    Reads fault segment result ↔ lineOf fault segment = result := by
  constructor
  · intro h
    cases fault with
    | none => rw [lineOf_ended hne (.inl rfl), decoded_of_reads h]
    | some e =>
      cases h with
      | ended hend hreads => rw [lineOf_ended hne (.inr hend), decoded_of_reads hreads]
      | broken hend => exact lineOf_broken hend
  · rintro rfl
    cases fault with
    | none =>
      rw [lineOf_ended hne (.inl rfl)]
      exact reads_decoded segment
    | some e =>
      by_cases hend : newline ∈ segment
      · rw [lineOf_ended hne (.inr hend)]
        exact .ended hend (reads_decoded segment)
      · rw [lineOf_broken hend]
        exact .broken hend

/-! ## Cutting the input -/

/-- Bytes without newline are all others. -/
theorem ne_newline_of_not_mem {body : List UInt8} (h : newline ∉ body) :
    ∀ b ∈ body, (b != newline) = true := by
  intro b hb
  rw [bne_iff_ne]
  rintro rfl
  exact h hb

/-- A line is cut behind its newline. -/
theorem cutLine_line {body : List UInt8} (h : newline ∉ body) (rest : List UInt8) :
    cutLine (body ++ newline :: rest) = (body ++ [newline], rest) := by
  unfold cutLine
  rw [List.span_eq_takeWhile_dropWhile, List.takeWhile_append_of_pos (ne_newline_of_not_mem h),
    List.dropWhile_append_of_pos (ne_newline_of_not_mem h)]
  simp

/-- Without newline all the rest is the line. -/
theorem cutLine_last {body : List UInt8} (h : newline ∉ body) : cutLine body = (body, []) := by
  unfold cutLine
  have hall := ne_newline_of_not_mem h
  rw [List.span_eq_takeWhile_dropWhile, List.takeWhile_eq_self_iff.mpr hall,
    List.dropWhile_eq_nil_iff.mpr hall]
  simp

namespace Segments

/-- Nothing of the input is lost. -/
theorem flatten_eq (h : Segments bytes segments) : segments.flatten = bytes := by
  induction h with
  | empty => rfl
  | last _ _ => simp
  | line _ _ ih => simp [ih]

/-- The first segment is what is cut off. -/
theorem cutLine_eq (h : Segments bytes (segment :: segments)) :
    cutLine bytes = (segment, segments.flatten) ∧ Segments segments.flatten segments ∧
      bytes ≠ [] := by
  cases h with
  | last hne hbody => exact ⟨cutLine_last hbody, .empty, hne⟩
  | line hbody hrest =>
    rw [hrest.flatten_eq]
    exact ⟨cutLine_line hbody _, hrest, by simp⟩

/-- No segment is empty. -/
theorem head_ne_nil (h : Segments bytes (segment :: segments)) : segment ≠ [] := by
  cases h with
  | last hne _ => exact hne
  | line _ _ => simp

/-- Nothing has no segments. -/
theorem eq_nil (h : Segments [] segments) : segments = [] := by
  cases segments with
  | nil => rfl
  | cons segment segments => exact absurd rfl h.cutLine_eq.2.2

/-- **The input has one list of segments.** -/
theorem unique {segments' : List (List UInt8)} (h : Segments bytes segments)
    (h' : Segments bytes segments') : segments = segments' := by
  induction segments generalizing bytes segments' with
  | nil =>
    obtain rfl : [] = bytes := h.flatten_eq
    exact h'.eq_nil.symm
  | cons segment segments ih =>
    obtain ⟨hcut, hrest, hne⟩ := h.cutLine_eq
    cases segments' with
    | nil => exact absurd h'.flatten_eq.symm hne
    | cons segment' segments' =>
      obtain ⟨hcut', hrest', -⟩ := h'.cutLine_eq
      obtain ⟨rfl, hflat⟩ := Prod.mk.inj (hcut.symm.trans hcut')
      rw [← hflat] at hrest'
      rw [ih hrest hrest']

end Segments

/-- Every input has its segments. -/
theorem exists_segments (bytes : List UInt8) : ∃ segments, Segments bytes segments := by
  induction hlength : bytes.length using Nat.strong_induction_on generalizing bytes with
  | _ n ih =>
    by_cases hnewline : newline ∈ bytes
    · -- behind the first newline there is less left
      obtain ⟨body, rest, rfl, hbody⟩ := List.eq_append_cons_of_mem hnewline
      rw [List.length_append, List.length_cons] at hlength
      obtain ⟨segments, hrest⟩ := ih rest.length (by omega) rest rfl
      exact ⟨_, .line hbody hrest⟩
    · by_cases hne : bytes = []
      · exact ⟨[], hne ▸ .empty⟩
      · exact ⟨[bytes], .last hne hnewline⟩

/-! ## Reading line after line -/

/-- A read takes the first segment. -/
theorem readLine_of_segments (h : Segments c.input (segment :: segments)) :
    c.readLine = (lineOf c.inputFault segment, { c with input := segments.flatten }) := by
  rw [readLine, h.cutLine_eq.1]

/-- **At the end of the input a read changes nothing**, and gives the end or the
fault. -/
theorem readLine_of_exhausted (h : c.input = []) :
    c.readLine = (c.inputFault.elim (.ok none) .error, c) := by
  obtain ⟨input, output, room, inputFault, outputFault⟩ := c
  obtain rfl : input = [] := h
  cases inputFault <;> rfl

/-- One read more is made first. -/
theorem afterReads_succ (n : Nat) (c : Console) :
    c.afterReads (n + 1) = c.readLine.2.afterReads n := rfl

/-- **Reads take the segments one by one**, and nothing else of the console
changes. -/
theorem afterReads_of_segments (h : Segments c.input segments) (n : Nat) :
    c.afterReads n = { c with input := (segments.drop n).flatten } := by
  induction n generalizing c segments with
  | zero => rw [List.drop_zero, h.flatten_eq]; rfl
  | succ n ih =>
    rw [afterReads_succ]
    cases segments with
    | nil =>
      have hempty : c.input = [] := h.flatten_eq.symm
      rw [readLine_of_exhausted hempty, ih h, List.drop_nil, List.drop_nil]
    | cons segment segments =>
      rw [readLine_of_segments h, ih h.cutLine_eq.2.1, List.drop_succ_cons]

/-- Without its first segments the rest is still cut into segments. -/
theorem Segments.drop (h : Segments bytes segments) (n : Nat) :
    Segments (segments.drop n).flatten (segments.drop n) := by
  induction n generalizing bytes segments with
  | zero => rwa [List.drop_zero, h.flatten_eq]
  | succ n ih =>
    cases segments with
    | nil => exact .empty
    | cons segment segments => exact ih h.cutLine_eq.2.1

/-- Each read gives the next segment. -/
theorem readLine_afterReads (h : Segments c.input segments) {n : Nat}
    (hsegment : segments[n]? = some segment) :
    segment ≠ [] ∧ (c.afterReads n).readLine.1 = lineOf c.inputFault segment := by
  obtain ⟨hn, rfl⟩ := List.getElem?_eq_some_iff.mp hsegment
  have hdrop := h.drop n
  rw [afterReads_of_segments h]
  rw [List.drop_eq_getElem_cons hn] at hdrop ⊢
  refine ⟨hdrop.head_ne_nil, ?_⟩
  rw [readLine_of_segments hdrop]

/-- Behind the last segment each read gives the end or the fault. -/
theorem readLine_afterReads_of_le (h : Segments c.input segments) {n : Nat}
    (hn : segments.length ≤ n) :
    (c.afterReads n).readLine = (c.inputFault.elim (.ok none) .error, c.afterReads n) := by
  rw [afterReads_of_segments h, List.drop_eq_nil_of_le hn]
  exact readLine_of_exhausted rfl

/-! ## Printing and reading back -/

/-- Some lines as they are printed. -/
def asPrinted (lines : List String) : List (List UInt8) :=
  lines.map fun line => Utf8.encode (line ++ "\n")

/-- An unlimited console takes every line. -/
theorem apply_printEach (lines : List String) (hroom : c.room = none) :
    (printEach lines).apply c =
      (.ok (), { c with output := c.output ++ (asPrinted lines).flatten }) := by
  induction lines generalizing c with
  | nil =>
    have hnone : c.output ++ (asPrinted []).flatten = c.output := by simp [asPrinted]
    rw [hnone]
    rfl
  | cons line lines ih =>
    have hfirst : (printing line).apply c =
        (.ok (), { c with output := c.output ++ Utf8.encode (line ++ "\n") }) :=
      printLine_of_unlimited hroom line
    have hrest := ih (c := { c with output := c.output ++ Utf8.encode (line ++ "\n") }) hroom
    refine (Transform.apply_bind_ok hfirst).trans (hrest.trans ?_)
    rw [← output_append]
    rfl

/-- Lines without newline are printed as the segments of the output. -/
theorem segments_asPrinted {lines : List String} (h : ∀ line ∈ lines, '\n' ∉ line.toList) :
    Segments (asPrinted lines).flatten (asPrinted lines) := by
  induction lines with
  | nil => exact .empty
  | cons line lines ih =>
    obtain ⟨hline, hlines⟩ := List.forall_mem_cons.mp h
    have hbody : newline ∉ Utf8.encode line := fun hmem => hline (Utf8.newline_mem_encode.mp hmem)
    have hsegment : Utf8.encode (line ++ "\n") = Utf8.encode line ++ [newline] := by
      rw [encode_append]
      rfl
    have hcons : asPrinted (line :: lines) =
        (Utf8.encode line ++ [newline]) :: asPrinted lines := by
      rw [← hsegment]
      rfl
    rw [hcons, List.flatten_cons, List.append_assoc, List.singleton_append]
    exact .line hbody (ih hlines)

/-- **Lines are neither lost, merged nor duplicated.** The input of a console has
one list of segments, which together are the input. The reads come to them in
order: each read takes one segment, also if it encodes no text, and once they are
used up there is nothing, for good, unless the input fails there. So lines that
hold no newline and do not end in a carriage return are read back as they were
printed, and then nothing. -/
theorem lines_kept :
    (∀ c : Console, (∃! segments, Segments c.input segments) ∧
      ∀ segments, Segments c.input segments → segments.flatten = c.input ∧ ∀ n : Nat,
        c.afterReads n = { c with input := (segments.drop n).flatten } ∧
        (∀ segment, segments[n]? = some segment → ∀ result,
          (c.afterReads n).readLine.1 = result ↔ Reads c.inputFault segment result) ∧
        (segments.length ≤ n →
          (c.afterReads n).readLine = (c.inputFault.elim (.ok none) .error, c.afterReads n))) ∧
    ∀ lines : List String,
      (∀ line ∈ lines, '\n' ∉ line.toList ∧ line.toList.getLast? ≠ some '\r') →
      ∀ input, ∃ c, (printEach lines).apply { input } = (.ok (), c) ∧
        ∀ d : Console, d.input = c.output.toList → d.inputFault = none → ∀ n : Nat,
          (d.afterReads n).readLine.1 = .ok lines[n]? := by
  refine ⟨fun c => ⟨?_, fun segments h => ⟨h.flatten_eq, fun n => ⟨?_, ?_, ?_⟩⟩⟩,
    fun lines hlines input => ⟨_, apply_printEach lines rfl, fun d hinput hfault n => ?_⟩⟩
  · obtain ⟨segments, h⟩ := exists_segments c.input
    exact ⟨segments, h, fun _ h' => h'.unique h⟩
  · exact afterReads_of_segments h n
  · intro segment hsegment result
    obtain ⟨hne, hread⟩ := readLine_afterReads h hsegment
    rw [hread, reads_iff hne]
  · exact readLine_afterReads_of_le h
  · have hsegments : Segments d.input (asPrinted lines) := by
      rw [hinput]
      simpa using segments_asPrinted fun line hline => (hlines line hline).1
    cases hline : lines[n]? with
    | none =>
      have hn : (asPrinted lines).length ≤ n := by
        rw [asPrinted, List.length_map]
        exact List.getElem?_eq_none_iff.mp hline
      rw [readLine_afterReads_of_le hsegments hn, hfault]
      rfl
    | some line =>
      have hsegment : (asPrinted lines)[n]? = some (Utf8.encode (line ++ "\n")) := by
        rw [asPrinted, List.getElem?_map, hline]
        rfl
      have hend := (hlines line (List.mem_of_getElem? hline)).2
      obtain ⟨hne, hread⟩ := readLine_afterReads hsegments hsegment
      rw [hread, hfault]
      exact (reads_iff hne).mp (.lf hend)

/-- A console with a line that ends in two characters, one that is no text, and
one that has no end. -/
def mixed : Console := { input := [97, 13, 10, 255, 10, 98, 13] }

/-- An input of a line, a line that is no text and an unfinished line, and an output
read back. -/
theorem lines_kept_mixed :
    mixed.readLine.1 = .ok (some "a") ∧
    (mixed.afterReads 1).readLine.1 = .error .invalidText ∧
    (mixed.afterReads 2).readLine.1 = .ok (some "b\r") ∧
    (∀ n, 3 ≤ n → (mixed.afterReads n).readLine.1 = .ok none) ∧
    ∃ c, (printEach ["née", "", "\r-"]).apply {} = (.ok (), c) ∧
      ∀ n : Nat, ((afterReads n { input := c.output.toList }).readLine.1) =
        .ok ["née", "", "\r-"][n]? := by
  have hsegments : Segments mixed.input [[97, 13, 10], [255, 10], [98, 13]] := by
    have hfirst : newline ∉ [97, 13] := by decide
    have hsecond : newline ∉ [255] := by decide
    have hlast : Segments [98, 13] [[98, 13]] := .last (by decide) (by decide)
    exact .line hfirst (.line hsecond hlast)
  have hunended : "b\r".toList.getLast? ≠ some '\n' := by decide
  obtain ⟨-, hreads⟩ := (lines_kept.1 mixed).2 _ hsegments
  refine ⟨((hreads 0).2.1 _ rfl _).mpr (.crlf "a"), ((hreads 1).2.1 _ rfl _).mpr ?_,
    ((hreads 2).2.1 _ rfl _).mpr (.unended hunended), fun n hn => ?_, ?_⟩
  · exact (reads_iff (by decide)).mpr (by decide +kernel)
  · rw [(hreads n).2.2 hn]
    rfl
  · obtain ⟨c, hc, hback⟩ := lines_kept.2 ["née", "", "\r-"] (by decide) []
    exact ⟨c, hc, fun n => hback _ rfl rfl n⟩

-- an input that breaks off does so in its last line, and again in every read after it
example :
    let c : Console := { mixed with inputFault := some (.reported "gone") }
    (c.afterReads 1).readLine.1 = .error .invalidText ∧
      (c.afterReads 2).readLine.1 = .error (.reported "gone") ∧
      (c.afterReads 3).readLine.1 = .error (.reported "gone") := by
  decide +kernel

end Console

end BlockIR

import Mathlib
import Treewalk.CommandLine.Command
import Treewalk.Proofs.Lexing.Lines
import Treewalk.Proofs.Session.InStep

/-!
# The prompt is a session

The prompt splits its input where the bytes of a newline stand. If the input is a text in UTF-8,
this is where its newline characters stand: no byte of another character is the byte of a newline
or of a carriage return. So each line that is read is a text again, and the prompt goes on to the
end of the input, whatever becomes of the lines.

## Main definitions

* `linesOfParts` — the lines that the parts between newlines make
* `inputLines` — the lines of a text
* `dialogue` — the transcript of a session at the prompt

## Main results

* `lines_bytes` — the lines of the bytes of a text
* `promptOnto_texts` — the prompt on lines that are texts
* `respond_prompt` — the prompt runs the lines of its input in turn in one session
-/

namespace Treewalk

namespace Source

/-! ### Bytes of characters -/

theorem toList_loop_eq (bytes : ByteArray) (i : Nat) (seen : List UInt8) :
    ByteArray.toList.loop bytes i seen = seen.reverse ++ bytes.data.toList.drop i := by
  fun_induction ByteArray.toList.loop bytes i seen with
  | case1 i seen h ih =>
    have hi : i < bytes.data.toList.length := h
    have hget : bytes.get! i = bytes.data.toList[i] := getElem!_pos bytes.data i hi
    rw [ih, List.drop_eq_getElem_cons hi, List.reverse_cons, List.append_assoc, hget]
    rfl
  | case2 i seen h =>
    rw [List.drop_eq_nil_of_le (Nat.le_of_not_lt h), List.append_nil]

theorem toList_toUTF8 (text : String) : text.toUTF8.toList = bytes text.toList := by
  rw [bytes_toList]
  exact toList_loop_eq text.toUTF8 0 []

end Source

namespace CommandLine

open Source

/-! ### Parts between separators -/

section Parts

variable {α β : Type} [BEq α] [LawfulBEq α]

/-- What stands before the first separator is a part of its own if it has none in it. -/
theorem splitOn_append_of_notMem {separator : α} {before : List α} (h : separator ∉ before)
    (behind : List α) : (before ++ behind).splitOn separator =
      (behind.splitOn separator).modifyHead (before ++ ·) := by
  induction before with
  | nil =>
    have hid : (fun part : List α => [] ++ part) = id := rfl
    rw [List.nil_append, hid, List.modifyHead_id, id]
  | cons a before ih =>
    have hne : (a == separator) = false :=
      beq_eq_false_iff_ne.2 fun ha => h (ha ▸ List.mem_cons_self)
    rw [List.cons_append, List.splitOn_cons_eq_if_modifyHead, hne, if_neg Bool.false_ne_true,
      ih fun ha => h (List.mem_cons_of_mem _ ha), List.modifyHead_modifyHead]
    rfl

/-- A line without the mark at its end, if it is there. -/
def withoutEnd (mark : α) (line : List α) : List α :=
  if line.getLast? == some mark then line.dropLast else line

/-- The lines that the parts between newlines make. A newline ends each part but the last one, and
then the mark before the newline does not count; what stands behind the last newline is a line if
it is not empty. -/
def linesOfParts (mark : α) : List (List α) → List (List α)
  | [] => []
  | [rest] => if rest.isEmpty then [] else [rest]
  | part :: part' :: parts => withoutEnd mark part :: linesOfParts mark (part' :: parts)

end Parts

/-! ### Lines of bytes and lines of text -/

/-- The lines of a text. -/
def inputLines (text : String) : List String :=
  (linesOfParts '\r' (text.toList.splitOn '\n')).map String.ofList

theorem linesOfParts_cons {α : Type} [BEq α] (mark : α) (part : List α) {parts : List (List α)}
    (h : parts ≠ []) : linesOfParts mark (part :: parts) =
      withoutEnd mark part :: linesOfParts mark parts := by
  cases parts with
  | nil => exact absurd rfl h
  | cons part' parts => rfl

theorem dropReturn_eq (line : List UInt8) : dropReturn line = withoutEnd returnByte line := by
  simp only [dropReturn, withoutEnd, beq_iff_eq]

theorem linesOnto_eq (seen input : List UInt8) : linesOnto seen input =
    linesOfParts returnByte ((input.splitOn newlineByte).modifyHead (seen.reverse ++ ·)) := by
  induction input generalizing seen with
  | nil =>
    rw [List.splitOn_nil, List.modifyHead_cons, List.append_nil, linesOfParts,
      List.isEmpty_reverse]
    rfl
  | cons b rest ih =>
    rw [linesOnto, List.splitOn_cons_eq_if_modifyHead]
    by_cases hb : b = newlineByte
    · have hid : (fun part : List UInt8 => [].reverse ++ part) = id := rfl
      rw [if_pos hb, if_pos (beq_iff_eq.2 hb), List.modifyHead_cons, List.append_nil,
        linesOfParts_cons _ _ (List.splitOn_ne_nil _ _), ih, hid, List.modifyHead_id, id,
        dropReturn_eq]
    · have hcons : (seen.reverse ++ ·) ∘ List.cons b = ((b :: seen).reverse ++ ·) := by
        funext part
        rw [Function.comp_apply, List.reverse_cons, List.append_assoc, List.singleton_append]
      rw [if_neg hb, if_neg (mt beq_iff_eq.1 hb), ih, List.modifyHead_modifyHead, hcons]

theorem lines_eq (input : List UInt8) :
    lines input = linesOfParts returnByte (input.splitOn newlineByte) := by
  have hid : (fun part : List UInt8 => [].reverse ++ part) = id := rfl
  rw [lines, linesOnto_eq, hid, List.modifyHead_id, id]

/-- A newline byte stands only where a newline character stands. -/
theorem splitOn_bytes (text : List Char) :
    (bytes text).splitOn newlineByte = (text.splitOn '\n').map bytes := by
  induction text with
  | nil => rfl
  | cons c text ih =>
    rw [bytes_cons, List.splitOn_cons_eq_if_modifyHead]
    by_cases hc : c = '\n'
    · subst hc
      have hencoded : String.utf8EncodeChar '\n' = [newlineByte] := rfl
      rw [hencoded, List.singleton_append, List.splitOn_cons_eq_if_modifyHead,
        if_pos (beq_self_eq_true _), if_pos (beq_self_eq_true _), ih]
      rfl
    · have hnot : newlineByte ∉ String.utf8EncodeChar c := fun h =>
        hc (Char.toNat_inj.1 ((mem_utf8EncodeChar_iff (by decide) c).1 h))
      obtain ⟨part, parts, hparts⟩ := List.exists_cons_of_ne_nil (List.splitOn_ne_nil '\n' text)
      rw [splitOn_append_of_notMem hnot, if_neg (mt beq_iff_eq.1 hc), ih, hparts, List.map_cons,
        List.modifyHead_cons, List.modifyHead_cons, List.map_cons, bytes_cons]

theorem withoutEnd_bytes (line : List Char) :
    withoutEnd returnByte (bytes line) = bytes (withoutEnd '\r' line) := by
  obtain rfl | ⟨front, c, rfl⟩ := List.eq_nil_or_concat line
  · rfl
  rw [withoutEnd, withoutEnd, List.concat_eq_append, List.getLast?_concat, bytes_append]
  by_cases hc : c = '\r'
  · subst hc
    have hencoded : bytes ['\r'] = [returnByte] := rfl
    rw [hencoded, List.getLast?_concat, if_pos (beq_self_eq_true _), if_pos (beq_self_eq_true _),
      List.dropLast_concat, List.dropLast_concat]
  · have hnot : ¬((bytes front ++ bytes [c]).getLast? == some returnByte) = true := by
      intro h
      have hencoded : bytes [c] = String.utf8EncodeChar c := List.append_nil _
      rw [hencoded, List.getLast?_append_of_ne_nil _ String.utf8EncodeChar_ne_nil,
        beq_iff_eq] at h
      have hmem := List.mem_of_getLast? h
      exact hc (Char.toNat_inj.1 ((mem_utf8EncodeChar_iff (by decide) c).1 hmem))
    rw [if_neg hnot, if_neg (by simpa using hc), bytes_append]

theorem linesOfParts_map_bytes (parts : List (List Char)) :
    linesOfParts returnByte (parts.map bytes) = (linesOfParts '\r' parts).map bytes := by
  induction parts with
  | nil => rfl
  | cons part parts ih =>
    cases parts with
    | nil =>
      have hempty : (bytes part).isEmpty = part.isEmpty := by
        rw [Bool.eq_iff_iff, List.isEmpty_iff, List.isEmpty_iff, bytes_eq_nil_iff]
      rw [List.map_cons, List.map_nil, linesOfParts, linesOfParts, hempty]
      split
      · rfl
      · rfl
    | cons part' parts =>
      have hcons := linesOfParts_cons returnByte (bytes part) (List.cons_ne_nil (bytes part')
        (parts.map bytes))
      rw [List.map_cons, List.map_cons, hcons, ← List.map_cons, ih, withoutEnd_bytes]
      rfl

/-- The lines of the bytes of a text are the lines of the text. -/
theorem lines_bytes (text : String) :
    lines text.toUTF8.toList = (inputLines text).map fun line => line.toUTF8.toList := by
  rw [toList_toUTF8, lines_eq, splitOn_bytes, linesOfParts_map_bytes, inputLines, List.map_map]
  refine List.map_congr_left fun line _ => ?_
  rw [Function.comp_apply, toList_toUTF8, String.toList_ofList]

example : lines "a\r\n\nb\r\r\nc\r".toUTF8.toList =
    ["a", "", "b\r", "c\r"].map fun line => line.toUTF8.toList := by decide +kernel

theorem fromUTF8?_toList (line : String) :
    String.fromUTF8? ⟨line.toUTF8.toList.toArray⟩ = some line := by
  rw [toList_toUTF8, bytes_toList]
  exact dif_pos line.isValidUTF8

/-! ### The dialogue -/

/-- The transcript of a session at the prompt: behind each mark what the next step writes, and the
report of each step that fails on a line of its own. -/
def dialogue (steps : List (Outcome × ByteArray)) : Transcript where
  code := 0
  out := steps.foldr (fun step rest => promptMark.toUTF8 ++ step.2 ++ rest)
    (promptMark ++ "\n").toUTF8
  err := unlines (((steps.map Prod.fst).filter (·.exitCode ≠ 0)).map Outcome.report)

theorem errorText_eq (o : Outcome) :
    errorText o = unlines (([o].filter (·.exitCode ≠ 0)).map Outcome.report) := by
  cases o <;> simp [errorText, unlines, Outcome.exitCode]

theorem dialogue_cons (step : Outcome × ByteArray) (steps : List (Outcome × ByteArray)) :
    (dialogue (step :: steps)).out = promptMark.toUTF8 ++ step.2 ++ (dialogue steps).out ∧
      (dialogue (step :: steps)).err = errorText step.1 ++ (dialogue steps).err := by
  refine ⟨rfl, ?_⟩
  have hcons : step.1 :: steps.map Prod.fst = [step.1] ++ steps.map Prod.fst := rfl
  rw [errorText_eq, dialogue, dialogue, List.map_cons, hcons, List.filter_append, List.map_append]
  simp only [unlines, List.map_append, String.join_append]

/-- The prompt goes on from line to line, whatever becomes of them. -/
theorem promptOnto_texts (out : ByteArray) (err : String) (s : Session) (fuel : Nat)
    (texts : List String) :
    promptOnto out err s fuel (texts.map fun line => line.toUTF8.toList) =
      ⟨0, out ++ (dialogue (s.steps fuel texts)).out,
        err ++ (dialogue (s.steps fuel texts)).err⟩ := by
  induction texts generalizing out err s with
  | nil =>
    have herr : (dialogue (s.steps fuel [])).err = "" := rfl
    rw [List.map_nil, promptOnto, herr, String.append_empty]
    rfl
  | cons line rest ih =>
    obtain ⟨hout, herr⟩ := dialogue_cons ((s.run fuel line).1,
      (s.run fuel line).2.machine.outputFrom s.machine.sink.written.size)
      ((s.run fuel line).2.steps fuel rest)
    rw [List.map_cons, promptOnto, fromUTF8?_toList, Session.steps_cons, hout, herr,
      ← String.append_assoc, ← ByteArray.append_assoc, ← ByteArray.append_assoc]
    exact ih _ _ _

/-- **The prompt is a session.** If the input is a text in UTF-8, the prompt runs its lines in turn
in one session, shows what each of them writes behind a mark, reports the ones that fail, and ends
with status 0 at the end of the input. -/
theorem respond_prompt (w : Surroundings) (fuel : Nat) (arguments : List String)
    (log : Option String) (text : String)
    (harguments : Arguments.parse arguments = .invoke ⟨.prompt, log⟩)
    (hlog : ∀ file, log = some file → w.createFile file = none)
    (hinput : w.input = text.toUTF8) :
    respond w fuel arguments =
      (dialogue ((Session.initial .unbounded w.reading).steps fuel (inputLines text)), log) := by
  have hprompt : perform w fuel .prompt =
      dialogue ((Session.initial .unbounded w.reading).steps fuel (inputLines text)) := by
    rw [perform, prompt, hinput, lines_bytes, promptOnto_texts, ByteArray.empty_append,
      String.empty_append]
    rfl
  rw [respond, harguments]
  show Invocation.perform w fuel ⟨.prompt, log⟩ = _
  cases log with
  | none => rw [Invocation.perform, hprompt]
  | some file => simp only [Invocation.perform, hlog file rfl, hprompt]

/-- A line that succeeds, one that fails when it is run, one that is rejected, and one more. -/
def conversationText : String := "print \"a\";\r\nprint b;\nvar b\nprint \"c\";"

/-- Surroundings without files, where a text is typed in. -/
def typing (text : String) : Surroundings where
  readFile _ := .error .notUtf8
  createFile _ := none
  input := text.toUTF8
  reading _ := 0

theorem input_typing (text : String) : (typing text).input = text.toUTF8 := rfl

set_option maxRecDepth 100000 in
theorem steps_conversationText :
    (Session.initial .unbounded fun _ => 0).steps 20 (inputLines conversationText) =
      [(.success, "a\n".toUTF8), (.failed (.runtime 1 (.undefinedVariable "b")), .empty),
        (.rejected [.grammar ⟨.endOfInput, "", 1⟩
          (.missingSymbol .semicolon .afterVariableDeclaration)], .empty),
        (.success, "c\n".toUTF8)] := by
  cbv

theorem respond_conversationText : respond (typing conversationText) 20 [] =
    (⟨0, "> a\n> > > c\n> \n".toUTF8,
      "Undefined variable 'b'.\n[line 1]\n" ++
        "[line 1] Error at end: Expect ';' after variable declaration.\n"⟩, none) := by
  have hrespond := respond_prompt (typing conversationText) 20 [] none conversationText rfl
    (fun _ h => nomatch h) (input_typing _)
  have hreading : (typing conversationText).reading = fun _ => 0 := rfl
  rw [hrespond, hreading, steps_conversationText, dialogue, Prod.mk.injEq, Transcript.mk.injEq]
  exact ⟨⟨rfl, by decide +kernel, by decide +kernel⟩, rfl⟩

end CommandLine

end Treewalk

import DesignTokens.Command.Files
import DesignTokens.Json.Error

/-!
What a command hands over: its exit code, what it prints, its log, and perhaps a file to be written.

Faults of the compiler's own rules, missing entries and texts that are no documents are reported in
a line of the log; any other fault is passed on. So is that of a text which cannot be printed or
written: nothing after it is printed.
-/

namespace DesignTokens.Command

/-! ### Printed lines -/

/-- A digit or mark in front of a control sequence's end. -/
def isParameter (c : Char) : Bool := '0' ≤ c && c ≤ '?'

/-- A mark between the parameters of a control sequence and its last character. -/
def isIntermediate (c : Char) : Bool := ' ' ≤ c && c ≤ '/'

/-- The last character of a control sequence. -/
def isFinal (c : Char) : Bool := '@' ≤ c && c ≤ '~'

/-- What follows a control sequence in front of a text: an escape and a bracket, parameters,
intermediate marks and a last character. -/
def afterControl? : List Char → Option (List Char)
  | '\x1b' :: '[' :: cs =>
    match (cs.dropWhile isParameter).dropWhile isIntermediate with
    | c :: rest => if isFinal c then some rest else none
    | [] => none
  | _ => none

theorem length_lt_of_afterControl? {cs rest : List Char} (h : afterControl? cs = some rest) :
    rest.length < cs.length := by
  unfold afterControl? at h
  split at h
  · next cs =>
    split at h
    · next c tail hd =>
      have hs : c :: tail <:+ cs :=
        hd ▸ (List.dropWhile_suffix _).trans (List.dropWhile_suffix _)
      have hle := hs.length_le
      rw [List.length_cons] at hle
      split at h
      · cases h
        simp only [List.length_cons]
        omega
      · cases h
    · cases h
  · cases h

/-- Characters without control sequences. -/
def dropControls (cs : List Char) : List Char :=
  match _ : afterControl? cs with
  | some rest => dropControls rest
  | none =>
    match cs with
    | [] => []
    | c :: rest => c :: dropControls rest
  termination_by cs.length
  decreasing_by
    · exact length_lt_of_afterControl? ‹_›
    · simp

/-- A line without control sequences, which only a terminal understands. -/
def withoutControls (s : String) : String := String.ofList (dropControls s.toList)

/-- The characters of a text to be printed or written; surrogates are none. -/
def writable (s : String) : Except Fault String :=
  match Text.surrogateRun? s with
  | none => .ok (Text.release s)
  | some run => .error (.unwritable run)

/-- The lines up to one that cannot be printed, and its fault. -/
def printable : List String → List String × Option Fault
  | [] => ([], none)
  | line :: lines =>
    match writable (withoutControls line) with
    | .error f => ([], some f)
    | .ok text => (text :: (printable lines).1, (printable lines).2)

/-! ### Reports -/

/-- Why a command has no result. -/
inductive Failure where
  | document (e : Json.SyntaxError)
  | fault (f : Fault)
  /-- A message of the command's own. -/
  | message (text : String)

/-- A text that is not read as a document. -/
def Failure.ofRead : Json.ReadError → Failure
  | .malformed e => document e
  | .exceeds .depth => fault .tooDeep
  | .exceeds (.digits count) => fault (.digitCount count)

/-- The result of a command. -/
structure Report where
  exit : Nat := 0
  /-- The lines printed. -/
  output : List String := []
  /-- The lines of the log and of messages. -/
  log : List String := []
  /-- A path and the text to be written there, before anything is printed. -/
  written : Option (String × String) := none
  /-- A fault that the command does not report itself. -/
  raised : Option Fault := none

namespace Report

/-- The end of a command that fails. `label` opens the line that reports it. -/
def failed (label : String) (log : List String) : Failure → Report
  | .document e => { exit := 1, log := log ++ [withoutControls (label ++ ": " ++ e.message)] }
  | .message text => { exit := 1, log := log ++ [withoutControls text] }
  | .fault f =>
    match f with
    | .missingKey _ => { exit := 1, log := log ++ [withoutControls (label ++ ": " ++ f.message)] }
    | f =>
      if f.isDesignFault then
        { exit := 1, log := log ++ [withoutControls (label ++ ": " ++ f.message)] }
      else { exit := 1, log := log, raised := some f }

/-- A report that ends in a fault before anything is printed. -/
def raise (r : Report) (f : Fault) : Report := { r with exit := 1, output := [], raised := some f }

/-- A report as it is printed. A file whose text cannot be written is left empty. -/
def printed (r : Report) : Report :=
  let r := { r with log := r.log.map Text.release }
  match r.written.map fun e => (e.1, writable e.2) with
  | some (path, .error f) => { r with written := some (path, "") }.raise f
  | file? =>
    let written := file?.bind fun e => e.2.toOption.map (e.1, ·)
    match printable r.output with
    | (output, none) => { r with output, written }
    | (output, some f) => { r with exit := 1, output, written, raised := some f }

/-- Writes the file of a report among others. -/
def store (r : Report) (files : Files) : Report × Files :=
  match r.written with
  | none => (r, files)
  | some (path, text) =>
    match files.write path text with
    | .ok files => (r, files)
    | .error f => (r.raise f, files)

end Report

end DesignTokens.Command

import ScriptMachine.Code.Instruction
/-! Listings: the instructions of a method in order and, in a table beside them, the
line of the script that each comes from. An emitter builds a listing; it stamps
what it is given with the line it was last told, or with line zero if it was made
to leave the lines out. -/
namespace ScriptMachine

structure Listing where
  code : Array Instruction
  lineTable : Array Nat
  paired : lineTable.size = code.size
  deriving DecidableEq, Repr

def Listing.empty : Listing :=
  ⟨#[],#[],rfl⟩

instance : Inhabited Listing := ⟨.empty⟩

structure Row where
  instruction : Instruction
  line : Nat
  deriving DecidableEq, Repr

def Row.text (offset : Nat) (row : Row) : List Char :=
  Text.padLeft 4 '0' (Text.natText offset) ++ ' ' ::
    Text.padLeft 4 ' ' (Text.natText row.line) ++ ' ' :: row.instruction.text

namespace Listing

def push (listing : Listing) (i : Instruction) (line : Nat) : Listing :=
  ⟨listing.code.push i,listing.lineTable.push line,by simp [listing.paired]⟩

def extend (listing : Listing) (run : List Instruction) (line : Nat) : Listing :=
  run.foldl (fun listing i => listing.push i line) listing

def size (listing : Listing) : Nat :=
  listing.code.size

def instructions (listing : Listing) : List Instruction :=
  listing.code.toList

def lines (listing : Listing) : List Nat :=
  listing.lineTable.toList

def rows (listing : Listing) : List Row :=
  (listing.instructions.zip listing.lines).map fun pair => ⟨pair.1,pair.2⟩

def opcodes (listing : Listing) : List OpCode :=
  listing.instructions.map (·.op)

def operands (listing : Listing) : List Operand :=
  listing.instructions.filterMap (·.operand)

def textFrom : Nat → List Row → List (List Char)
  | _, [] => []
  | offset, row :: rows => row.text offset :: textFrom (offset + 1) rows

def textLines (listing : Listing) : List (List Char) :=
  textFrom 0 listing.rows

def disassembly (listing : Listing) : List Char :=
  listing.textLines.flatMap (· ++ ['\n'])

@[simp] theorem instructionsPush (listing : Listing) (i : Instruction) (line : Nat) :
    (listing.push i line).instructions = listing.instructions ++ [i] := by
  simp [push,instructions]

@[simp] theorem linesPush (listing : Listing) (i : Instruction) (line : Nat) :
    (listing.push i line).lines = listing.lines ++ [line] := by
  simp [push,lines]

@[simp] theorem instructionsExtend (listing : Listing) (run : List Instruction) (line : Nat) :
    (listing.extend run line).instructions = listing.instructions ++ run := by
  induction run generalizing listing with
  | nil => simp [extend]
  | cons i rest ih =>
    change ((listing.push i line).extend rest line).instructions = _
    rw [ih,instructionsPush,List.append_assoc]
    rfl

@[simp] theorem linesExtend (listing : Listing) (run : List Instruction) (line : Nat) :
    (listing.extend run line).lines = listing.lines ++ List.replicate run.length line := by
  induction run generalizing listing with
  | nil => simp [extend]
  | cons i rest ih =>
    change ((listing.push i line).extend rest line).lines = _
    rw [ih,linesPush,List.append_assoc]
    rfl

@[simp] theorem rowInstructions (listing : Listing) :
    listing.rows.map (·.instruction) = listing.instructions := by
  rw [rows,List.map_map]
  exact List.map_fst_zip (Nat.le_of_eq listing.paired.symm)

@[simp] theorem rowLines (listing : Listing) : listing.rows.map (·.line) = listing.lines := by
  rw [rows,List.map_map]
  exact List.map_snd_zip (Nat.le_of_eq listing.paired)

@[simp] theorem rowCount (listing : Listing) : listing.rows.length = listing.size := by
  rw [← List.length_map,rowInstructions]
  rfl

theorem tablesUnique {listing other : Listing} (code : listing.instructions = other.instructions)
    (lines : listing.lines = other.lines) : listing = other := by
  obtain ⟨mine,table,_⟩ := listing
  obtain ⟨its,others,_⟩ := other
  cases Array.toList_inj.mp code
  cases Array.toList_inj.mp lines
  rfl

theorem rowsUnique {listing other : Listing} (same : listing.rows = other.rows) :
    listing = other :=
  tablesUnique (by rw [← rowInstructions,same,rowInstructions]) (by rw [← rowLines,same,rowLines])

theorem rowsPrefix {part whole : Listing} (instructions : part.instructions <+: whole.instructions)
    (lines : part.lines <+: whole.lines) : part.rows <+: whole.rows := by
  obtain ⟨more,code⟩ := instructions
  obtain ⟨others,table⟩ := lines
  have sized : part.instructions.length = part.lines.length := part.paired.symm
  rw [rows,rows,← code,← table,List.zip_append sized,List.map_append]
  exact List.prefix_append _ _

theorem extendAppend (listing : Listing) (first second : List Instruction) (line : Nat) :
    listing.extend (first ++ second) line = (listing.extend first line).extend second line :=
  List.foldl_append

end Listing

/-- What is left of the expected opcodes when each opcode of the stream strikes
out the next one expected, if it is that one. -/
def unmatched : List OpCode → List OpCode → List OpCode
  | expected, [] => expected
  | [], _ :: _ => []
  | e :: expected, op :: ops =>
    if e = op then unmatched expected ops else unmatched (e :: expected) ops

namespace Listing

def missing (listing : Listing) (expected : List OpCode) : List OpCode :=
  unmatched expected listing.opcodes

def quotedNames (ops : List OpCode) : String :=
  "[" ++ String.intercalate ", " (ops.map fun op => Text.quote op.name) ++ "]"

def missingMessage? (listing : Listing) (expected : List OpCode) : Option String :=
  match listing.missing expected with
  | [] => none
  | left =>
    some ("Missing opcodes in sequence.\nExpected to find: " ++ quotedNames left
      ++ "\nActual stream:    " ++ quotedNames listing.opcodes)

end Listing

structure Emitter where
  listing : Listing := .empty
  line : Nat := 1
  recordsLines : Bool := true
  deriving DecidableEq, Repr

namespace Emitter

def setLine (emitter : Emitter) (line : Nat) : Emitter :=
  { emitter with line := line }

def recordedLine (emitter : Emitter) : Nat :=
  if emitter.recordsLines then emitter.line else 0

def emit (emitter : Emitter) (i : Instruction) : Emitter :=
  { emitter with listing := emitter.listing.push i emitter.recordedLine }

def emitAll (emitter : Emitter) (run : List Instruction) : Emitter :=
  { emitter with listing := emitter.listing.extend run emitter.recordedLine }

@[simp] theorem instructionsEmitAll (emitter : Emitter) (run : List Instruction) :
    (emitter.emitAll run).listing.instructions = emitter.listing.instructions ++ run :=
  emitter.listing.instructionsExtend run _

@[simp] theorem linesEmitAll (emitter : Emitter) (run : List Instruction) :
    (emitter.emitAll run).listing.lines =
      emitter.listing.lines ++ List.replicate run.length emitter.recordedLine :=
  emitter.listing.linesExtend run _

theorem emitAllAppend (emitter : Emitter) (first second : List Instruction) :
    emitter.emitAll (first ++ second) = (emitter.emitAll first).emitAll second := by
  simp only [emitAll,Listing.extendAppend]
  rfl

theorem emitAllSnoc (emitter : Emitter) (run : List Instruction) (i : Instruction) :
    emitter.emitAll (run ++ [i]) = (emitter.emitAll run).emit i :=
  emitter.emitAllAppend run [i]

end Emitter
end ScriptMachine

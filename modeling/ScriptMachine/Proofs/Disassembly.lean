import ScriptMachine.Code.Listing
import ScriptMachine.Proofs.UnambiguousText
/-! The text of a listing. Operands of every kind are written into one place of a
line without a tag, and still no two of them look alike: the first character, the
last one of a number and the underscore of a routine's name tell the kind, and
within a kind the text tells the rest. So a listing is known from its text. -/
namespace ScriptMachine
open Text

theorem OpCode.nameUnique {a b : OpCode} (same : a.name.toList = b.name.toList) : a = b := by
  have back : ∀ op : OpCode, ofName? op.name = some op := by
    intro op
    cases op <;> rfl
  exact nameReadBack back same

theorem OpCode.nameSolid (op : OpCode) : ' ' ∉ op.name.toList ∧ '\n' ∉ op.name.toList := by
  cases op <;> decide

theorem Intrinsic.nameUnique {i j : Intrinsic} (same : i.name.toList = j.name.toList) : i = j := by
  have back : ∀ i : Intrinsic, ofName? i.name = some i := by
    intro i
    cases i with
    | force target => cases target <;> rfl
    | storeGet | storeSet => rfl
  exact nameReadBack back same

namespace Operand

inductive Kind where
  | constant (type : StaticType)
  | slot
  | argument
  | type
  | intrinsic
  | accessor
  deriving DecidableEq, Repr

def kind : Operand → Kind
  | constant c => .constant c.type
  | slot _ => .slot
  | argument _ => .argument
  | type _ => .type
  | intrinsic _ => .intrinsic
  | accessor _ => .accessor

def numberType (last : Option Char) : StaticType :=
  if last = some 'L' then .long else if last = some 'M' then .decimal else .int

def kindOfText : List Char → Kind
  | [] => .type
  | c :: rest =>
    if c = '"' then .constant .string
    else if c = '$' then .slot
    else if c = '@' then .accessor
    else if c = 'a' then .argument
    else if isDigit c || c = '-' then .constant (numberType (c :: rest).getLast?)
    else if '_' ∈ rest then .intrinsic
    else if c = 't' ∨ c = 'f' then .constant .bool
    else .type

theorem kindOfNumber {cs : List Char} {c : Char} {rest : List Char} (written : cs = c :: rest)
    (numeral : isDigit c = true ∨ c = '-') :
    kindOfText cs = .constant (numberType cs.getLast?) := by
  have other : c ≠ '"' ∧ c ≠ '$' ∧ c ≠ '@' ∧ c ≠ 'a' := by
    rcases numeral with digit | rfl
    · refine ⟨?_,?_,?_,?_⟩ <;> (rintro rfl; cases digit)
    · decide
  have number : (isDigit c || decide (c = '-')) = true := by simpa using numeral
  rw [written,kindOfText,if_neg other.1,if_neg other.2.1,if_neg other.2.2.1,if_neg other.2.2.2,
    if_pos number]

end Operand

namespace Constant

theorem intTextLast (n : Int) : Operand.numberType (intText n).getLast? = .int := by
  have letters : ∀ c : Char, isDigit c = false → c ≠ '-' → (intText n).getLast? ≠ some c := by
    intro c letter sign last
    rcases intTextNumerals n c (List.mem_of_getLast? last) with digit | dash
    · rw [letter] at digit
      cases digit
    · exact sign dash
  rw [Operand.numberType,if_neg (letters 'L' (by decide) (by decide)),
    if_neg (letters 'M' (by decide) (by decide))]

theorem textKind (c : Constant) : Operand.kindOfText c.text = .constant c.type := by
  cases c with
  | int n =>
    obtain ⟨first,rest,written,numeral⟩ := intTextStarts n.toInt
    rw [text,Operand.kindOfNumber written numeral,intTextLast,type]
  | long n =>
    obtain ⟨first,rest,written,numeral⟩ := intTextStarts n.toInt
    have marked : (long n).text = first :: (rest ++ ['L']) := by simp [text,written]
    rw [Operand.kindOfNumber marked numeral]
    simp [text,Operand.numberType,type]
  | decimal d =>
    obtain ⟨first,rest,written,numeral⟩ := d.textStarts
    have marked : (decimal d).text = first :: (rest ++ ['M']) := by simp [text,written]
    rw [Operand.kindOfNumber marked numeral]
    simp [text,Operand.numberType,type]
  | string s => rfl
  | bool b => cases b <;> rfl

theorem textUnique {c d : Constant} (types : c.type = d.type) (same : c.text = d.text) : c = d := by
  cases c with
  | int m =>
    cases d with
    | int n => rw [Int32.toInt_inj.mp (intTextUnique same)]
    | long | decimal | string | bool => cases types
  | long m =>
    cases d with
    | long n =>
      rw [Int64.toInt_inj.mp (intTextUnique (List.append_cancel_right same))]
    | int | decimal | string | bool => cases types
  | decimal a =>
    cases d with
    | decimal b => rw [Decimal.textUnique (List.append_cancel_right same)]
    | int | long | string | bool => cases types
  | string s =>
    cases d with
    | string t =>
      have letters := (quotedUnique (congrArg (· ++ []) same)).1
      rw [String.toList_inj.mp letters]
    | int | long | decimal | bool => cases types
  | bool a =>
    cases d with
    | bool b => cases a <;> cases b <;> simp_all [text]
    | int | long | decimal | string => cases types

theorem textUnbroken (c : Constant) : '\n' ∉ c.text := by
  cases c with
  | int n => exact intTextUnbroken n.toInt
  | long n =>
    simp only [text,List.mem_append,not_or]
    exact ⟨intTextUnbroken n.toInt,by decide⟩
  | decimal d =>
    simp only [text,List.mem_append,not_or]
    exact ⟨d.textUnbroken,by decide⟩
  | string s => exact quotedUnbroken s.toList
  | bool b => cases b <;> decide

end Constant

namespace Operand

theorem textKind (o : Operand) : kindOfText o.text = o.kind := by
  cases o with
  | constant c => exact c.textKind
  | slot | argument | accessor => rfl
  | type t =>
    obtain ⟨c,rest,written,initial,plain,_⟩ := t.nameLetters
    rw [text,written,kind]
    simp only [StaticType.initials,List.mem_cons,List.not_mem_nil,or_false] at initial
    rcases initial with rfl | rfl | rfl | rfl | rfl | rfl | rfl <;> exact if_neg plain
  | intrinsic i =>
    cases i with
    | force target => cases target <;> rfl
    | storeGet | storeSet => rfl

theorem textUnique {o p : Operand} (same : o.text = p.text) : o = p := by
  have kinds : o.kind = p.kind := by rw [← o.textKind,same,p.textKind]
  cases o with
  | constant c =>
    cases p with
    | constant d => rw [Constant.textUnique (Kind.constant.inj kinds) same]
    | slot | argument | type | intrinsic | accessor => cases kinds
  | slot m =>
    cases p with
    | slot n => rw [natTextUnique (List.cons.inj same).2]
    | constant | argument | type | intrinsic | accessor => cases kinds
  | argument m =>
    cases p with
    | argument n => rw [natTextUnique (List.append_cancel_left same)]
    | constant | slot | type | intrinsic | accessor => cases kinds
  | type t =>
    cases p with
    | type u => rw [StaticType.nameUnique same]
    | constant | slot | argument | intrinsic | accessor => cases kinds
  | intrinsic i =>
    cases p with
    | intrinsic j => rw [Intrinsic.nameUnique same]
    | constant | slot | argument | type | accessor => cases kinds
  | accessor m =>
    cases p with
    | accessor n => rw [natTextUnique (List.cons.inj same).2]
    | constant | slot | argument | type | intrinsic => cases kinds

theorem textUnbroken (o : Operand) : '\n' ∉ o.text := by
  cases o with
  | constant c => exact c.textUnbroken
  | slot n | accessor n =>
    simp only [text,List.mem_cons,not_or]
    exact ⟨by decide,natTextUnbroken n⟩
  | argument n =>
    simp only [text,List.mem_append,not_or]
    exact ⟨by decide,natTextUnbroken n⟩
  | type t =>
    obtain ⟨c,rest,written,initial,_,line⟩ := t.nameLetters
    rw [text,written,List.mem_cons,not_or]
    refine ⟨?_,line⟩
    rintro rfl
    exact absurd initial (by decide)
  | intrinsic i =>
    cases i with
    | force target => cases target <;> decide
    | storeGet | storeSet => decide

end Operand

namespace Instruction

theorem textUnique {i j : Instruction} (same : i.text = j.text) : i = j := by
  obtain ⟨op,operand⟩ := i
  obtain ⟨other,its⟩ := j
  cases operand with
  | none =>
    cases its with
    | none =>
      have names : op = other := OpCode.nameUnique same
      rw [names]
    | some p =>
      have blank : ' ' ∈ op.name.toList := by
        rw [show op.name.toList = other.name.toList ++ ' ' :: p.text from same]
        simp
      exact absurd blank op.nameSolid.1
  | some o =>
    cases its with
    | none =>
      have blank : ' ' ∈ other.name.toList := by
        rw [show other.name.toList = op.name.toList ++ ' ' :: o.text from same.symm]
        simp
      exact absurd blank other.nameSolid.1
    | some p =>
      obtain ⟨names,texts⟩ := cutAtMark op.nameSolid.1 other.nameSolid.1 same
      rw [OpCode.nameUnique names,Operand.textUnique texts]

theorem textUnbroken (i : Instruction) : '\n' ∉ i.text := by
  unfold text
  split
  · rename_i operand _
    simp only [List.mem_append,List.mem_cons,not_or]
    exact ⟨i.op.nameSolid.2,by decide,operand.textUnbroken⟩
  · exact i.op.nameSolid.2

end Instruction

namespace Row

theorem textUnique {offset : Nat} {row other : Row} (same : row.text offset = other.text offset) :
    row = other := by
  obtain ⟨instruction,line⟩ := row
  obtain ⟨its,number⟩ := other
  simp only [text,List.append_assoc,List.cons_append] at same
  have rest := (List.cons.inj (List.append_cancel_left same)).2
  have bare := congrArg (List.dropWhile (· == ' ')) rest
  rw [dropPadding,dropPadding] at bare
  have solid : ∀ n, ' ' ∉ natText n := fun n => notInNatText n (by decide)
  obtain ⟨lines,instructions⟩ := cutAtMark (solid _) (solid _) bare
  rw [natTextUnique lines,Instruction.textUnique instructions]

theorem textUnbroken (offset : Nat) (row : Row) : '\n' ∉ row.text offset := by
  simp only [text,List.mem_append,List.mem_cons,not_or]
  exact ⟨⟨padLeftWithout 4 (by decide) (natTextUnbroken offset),by decide,
    padLeftWithout 4 (by decide) (natTextUnbroken row.line)⟩,by decide,row.instruction.textUnbroken⟩

end Row

namespace Listing

theorem textFromUnique {offset : Nat} {rows others : List Row}
    (same : textFrom offset rows = textFrom offset others) : rows = others := by
  induction rows generalizing offset others with
  | nil =>
    cases others with
    | nil => rfl
    | cons other others => cases same
  | cons row rows ih =>
    cases others with
    | nil => cases same
    | cons other others =>
      obtain ⟨first,rest⟩ := List.cons.inj same
      rw [Row.textUnique first,ih rest]

theorem textFromLength (offset : Nat) (rows : List Row) :
    (textFrom offset rows).length = rows.length := by
  induction rows generalizing offset with
  | nil => rfl
  | cons row rows ih => simp [textFrom,ih]

theorem textFromAt (offset : Nat) (rows : List Row) (index : Nat) :
    (textFrom offset rows)[index]? = rows[index]?.map (Row.text (offset + index)) := by
  induction rows generalizing offset index with
  | nil => rfl
  | cons row rows ih =>
    cases index with
    | zero => rfl
    | succ index => simp [textFrom,ih,Nat.add_assoc,Nat.add_comm 1]

theorem textFromUnbroken (offset : Nat) (rows : List Row) :
    ∀ line ∈ textFrom offset rows, '\n' ∉ line := by
  induction rows generalizing offset with
  | nil => simp [textFrom]
  | cons row rows ih =>
    simp only [textFrom,List.mem_cons,forall_eq_or_imp]
    exact ⟨row.textUnbroken offset,ih (offset + 1)⟩

theorem linesUnique {lines others : List (List Char)} (left : ∀ line ∈ lines, '\n' ∉ line)
    (right : ∀ line ∈ others, '\n' ∉ line)
    (same : lines.flatMap (· ++ ['\n']) = others.flatMap (· ++ ['\n'])) : lines = others := by
  induction lines generalizing others with
  | nil =>
    cases others with
    | nil => rfl
    | cons other others => simp at same
  | cons line lines ih =>
    cases others with
    | nil => simp at same
    | cons other others =>
      simp only [List.flatMap_cons,List.append_assoc,List.cons_append,List.nil_append] at same
      simp only [List.mem_cons,forall_eq_or_imp] at left right
      obtain ⟨rfl,rest⟩ := cutAtMark left.1 right.1 same
      rw [ih left.2 right.2 rest]

end Listing

theorem disassemblyIsFaithful (listing other : Listing) :
    listing.textLines.length = listing.size ∧
    (∀ index, listing.textLines[index]? = listing.rows[index]?.map (Row.text index)) ∧
    (∀ lines, (∀ line ∈ lines, '\n' ∉ line) ∧ listing.disassembly = lines.flatMap (· ++ ['\n']) ↔
      lines = listing.textLines) ∧
    (listing.disassembly = other.disassembly → listing = other) := by
  have unbroken : ∀ l : Listing, ∀ line ∈ l.textLines, '\n' ∉ line := fun l =>
    Listing.textFromUnbroken 0 l.rows
  refine ⟨(Listing.textFromLength 0 listing.rows).trans listing.rowCount,?_,?_,?_⟩
  · intro index
    rw [Listing.textLines,Listing.textFromAt,Nat.zero_add]
  · intro lines
    constructor
    · rintro ⟨whole,same⟩
      exact Listing.linesUnique whole (unbroken listing) same.symm
    · rintro rfl
      exact ⟨unbroken listing,rfl⟩
  · intro same
    have texts := Listing.linesUnique (unbroken listing) (unbroken other) same
    exact Listing.rowsUnique (Listing.textFromUnique texts)

def posingConstant : Listing :=
  Listing.empty.extend [.pushConst (.string "\n0001    1 POP")] 1

def twoInstructions : Listing :=
  Listing.empty.extend [.pushConst (.string ""),.pop] 1

theorem posingConstantIsOneLine :
    posingConstant.disassembly = "0000    1 PUSH_CONST \"\\n0001    1 POP\"\n".toList ∧
    posingConstant.textLines.length = 1 ∧
    posingConstant.disassembly ≠ twoInstructions.disassembly := by
  obtain ⟨length,_,_,unique⟩ := disassemblyIsFaithful posingConstant twoInstructions
  refine ⟨by decide +kernel,length,?_⟩
  intro same
  exact absurd (unique same) (by decide +kernel)

end ScriptMachine

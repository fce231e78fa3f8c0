import ScriptMachine.Code.Constant
import ScriptMachine.Proofs.IntegerText
/-! Text that can be read in one way only. Each piece of text says by itself where
it ends or is followed by a mark that does not occur in it, so two texts that are
equal were written from the same pieces. No piece holds a line break. -/
namespace ScriptMachine

namespace Text

theorem cutAtMark {mark : Char} {a b r s : List Char} (left : mark ∉ a) (right : mark ∉ b)
    (same : a ++ mark :: r = b ++ mark :: s) : a = b ∧ r = s := by
  induction a generalizing b with
  | nil =>
    cases b with
    | nil => exact ⟨rfl,(List.cons.inj same).2⟩
    | cons c b =>
      simp only [List.nil_append,List.cons_append,List.cons.injEq] at same
      exact absurd (same.1 ▸ List.mem_cons_self) right
  | cons c a ih =>
    cases b with
    | nil =>
      simp only [List.nil_append,List.cons_append,List.cons.injEq] at same
      exact absurd (same.1 ▸ List.mem_cons_self) left
    | cons d b =>
      simp only [List.cons_append,List.cons.injEq] at same
      simp only [List.mem_cons,not_or] at left right
      obtain ⟨rest,after⟩ := ih left.2 right.2 same.2
      exact ⟨by rw [same.1,rest],after⟩

theorem nameReadBack {α : Type} {name : α → String} {read? : String → Option α}
    (back : ∀ a, read? (name a) = some a) {a b : α} (same : (name a).toList = (name b).toList) :
    a = b := by
  have read := back a
  rw [String.toList_inj.mp same,back b] at read
  exact (Option.some.inj read).symm

section Numbers

theorem natTextDigits (n : Nat) : ∀ c ∈ natText n, isDigit c = true :=
  readOnDigits (readOnNatText n)

theorem digitsUnique {base m n : Nat} (several : 1 < base) (known : base ≤ 16)
    (same : Nat.toDigits base m = Nat.toDigits base n) : m = n := by
  have read := readOnWritten several known m
  rw [same,readOnWritten several known n] at read
  exact (Option.some.inj read).symm

theorem natTextUnique {m n : Nat} (same : natText m = natText n) : m = n :=
  digitsUnique (by decide) (by decide) same

theorem notInNatText {c : Char} (n : Nat) (other : isDigit c = false) : c ∉ natText n := by
  intro inside
  rw [natTextDigits n c inside] at other
  cases other

theorem natTextUnbroken (n : Nat) : '\n' ∉ natText n :=
  notInNatText n (by decide)

theorem natTextStarts (n : Nat) : ∃ c rest, natText n = c :: rest ∧ isDigit c = true := by
  cases written : natText n with
  | nil => exact absurd written (natTextNonempty n)
  | cons c rest => exact ⟨c,rest,rfl,natTextDigits n c (by simp [written])⟩

theorem hexTextDigits {n : Nat} {c : Char} (inside : c ∈ hexText n) :
    48 ≤ c.toNat ∧ c.toNat ≤ 102 := by
  have read : readOn 16 0 (hexText n) = some n := readOnWritten (by decide) (by decide) n
  obtain ⟨d,digit⟩ := readOnEach read c inside
  have range := digitCases digit
  omega

theorem hexTextUnique {m n : Nat} (same : hexText m = hexText n) : m = n :=
  digitsUnique (by decide) (by decide) same

theorem intTextNumerals (n : Int) : ∀ c ∈ intText n, isDigit c = true ∨ c = '-' := by
  intro c inside
  unfold intText at inside
  split at inside
  · rcases List.mem_cons.mp inside with sign | digit
    · exact .inr sign
    · exact .inl (natTextDigits _ c digit)
  · exact .inl (natTextDigits _ c inside)

theorem intTextStarts (n : Int) :
    ∃ c rest, intText n = c :: rest ∧ (isDigit c = true ∨ c = '-') := by
  unfold intText
  split
  · exact ⟨_,_,rfl,.inr rfl⟩
  · obtain ⟨c,rest,written,digit⟩ := natTextStarts n.natAbs
    exact ⟨c,rest,written,.inl digit⟩

theorem intTextUnique {m n : Int} (same : intText m = intText n) : m = n := by
  have unsigned : ∀ k, '-' ∉ natText k := fun k => notInNatText k (by decide)
  unfold intText at same
  split at same
  · split at same
    · have size := natTextUnique (List.cons.inj same).2
      omega
    · exact absurd (same ▸ List.mem_cons_self) (unsigned n.natAbs)
  · split at same
    · exact absurd (same.symm ▸ List.mem_cons_self) (unsigned m.natAbs)
    · have size := natTextUnique same
      omega

theorem intTextUnbroken (n : Int) : '\n' ∉ intText n := by
  intro inside
  rcases intTextNumerals n _ inside with digit | sign
  · cases digit
  · exact absurd sign (by decide)

theorem padLeftWithout {c pad : Char} {cs : List Char} (width : Nat) (apart : c ≠ pad)
    (free : c ∉ cs) : c ∉ padLeft width pad cs := by
  intro inside
  rcases List.mem_append.mp inside with padding | text
  · exact apart (List.eq_of_mem_replicate padding)
  · exact free text

theorem dropPadding (width n : Nat) (rest : List Char) :
    (padLeft width ' ' (natText n) ++ rest).dropWhile (· == ' ') = natText n ++ rest := by
  obtain ⟨c,others,written,digit⟩ := natTextStarts n
  have solid : (c == ' ') = false := by
    rw [beq_eq_false_iff_ne]
    rintro rfl
    cases digit
  rw [padLeft,List.append_assoc,List.dropWhile_append,written]
  simp [solid]

end Numbers

section Quotations

def shortForms : List (Char × Char) :=
  [('\x00','0'),('\t','t'),('\r','r'),('\n','n'),('"','"'),('\\','\\')]

inductive Escaped (c : Char) : List Char → Prop where
  | short {letter : Char} (known : (c,letter) ∈ shortForms) : Escaped c ['\\',letter]
  | code : Escaped c ('\\' :: 'u' :: '\x7b' :: (hexText c.toNat ++ ['\x7d']))
  | plain (slash : c ≠ '\\') (quote : c ≠ '"') (line : c ≠ '\n') : Escaped c [c]

theorem escapeForm (c : Char) : Escaped c (escape c) := by
  by_cases known : c ∈ shortForms.map (·.1)
  · simp only [shortForms,List.map_cons,List.map_nil,List.mem_cons,List.not_mem_nil,or_false]
      at known
    rcases known with rfl | rfl | rfl | rfl | rfl | rfl <;> exact .short (by decide)
  · simp only [shortForms,List.map_cons,List.map_nil,List.mem_cons,List.not_mem_nil,or_false,not_or]
      at known
    obtain ⟨zero,tab,back,line,quote,slash⟩ := known
    rw [escape,if_neg zero,if_neg tab,if_neg back,if_neg line,if_neg quote,if_neg slash]
    split
    · exact .code
    · exact .plain slash quote line

theorem shortFormsApart :
    ∀ x ∈ shortForms, x.2 ≠ 'u' ∧ ∀ y ∈ shortForms, x.2 = y.2 → x.1 = y.1 := by
  decide

theorem escapeUnique {a b : Char} {r s : List Char} (same : escape a ++ r = escape b ++ s) :
    a = b ∧ r = s := by
  have left := escapeForm a
  have right := escapeForm b
  generalize escape a = x at left same
  generalize escape b = y at right same
  cases left with
  | short known =>
    cases right with
    | short also =>
      simp only [List.cons_append,List.nil_append,List.cons.injEq,true_and] at same
      exact ⟨(shortFormsApart _ known).2 _ also same.1,same.2⟩
    | code =>
      simp only [List.cons_append,List.nil_append,List.cons.injEq,true_and] at same
      exact absurd same.1 (shortFormsApart _ known).1
    | plain slash =>
      exact absurd (List.cons.inj same).1.symm slash
  | code =>
    cases right with
    | short also =>
      simp only [List.cons_append,List.nil_append,List.cons.injEq,true_and] at same
      exact absurd same.1.symm (shortFormsApart _ also).1
    | code =>
      have free : ∀ n, '\x7d' ∉ hexText n := fun n inside => by
        have range := hexTextDigits inside
        exact absurd range.2 (by decide)
      simp only [List.cons_append,List.append_assoc,List.nil_append,List.cons.injEq,true_and] at same
      obtain ⟨digits,rest⟩ := cutAtMark (free _) (free _) same
      exact ⟨Char.toNat_inj.mp (hexTextUnique digits),rest⟩
    | plain slash =>
      exact absurd (List.cons.inj same).1.symm slash
  | plain slash =>
    cases right with
    | short => exact absurd (List.cons.inj same).1 slash
    | code => exact absurd (List.cons.inj same).1 slash
    | plain => exact List.cons.inj same

theorem escapeStarts (c : Char) : ∃ first rest, escape c = first :: rest ∧ first ≠ '"' := by
  have form := escapeForm c
  generalize escape c = x at form
  cases form with
  | short => exact ⟨_,_,rfl,by decide⟩
  | code => exact ⟨_,_,rfl,by decide⟩
  | plain slash quote => exact ⟨_,_,rfl,quote⟩

theorem escapeUnbroken (c : Char) : '\n' ∉ escape c := by
  have form := escapeForm c
  generalize escape c = x at form
  cases form with
  | short known =>
    have letters : ∀ x ∈ shortForms, '\n' ≠ x.2 := by decide
    simp only [List.mem_cons,List.not_mem_nil,or_false,not_or]
    exact ⟨by decide,letters _ known⟩
  | code =>
    simp only [List.mem_cons,List.mem_append,List.not_mem_nil,or_false,not_or]
    refine ⟨by decide,by decide,by decide,?_,by decide⟩
    intro inside
    exact absurd (hexTextDigits inside).1 (by decide)
  | plain slash quote line =>
    rw [List.mem_singleton]
    exact line.symm

theorem closingUnique {as bs r s : List Char}
    (same : as.flatMap escape ++ '"' :: r = bs.flatMap escape ++ '"' :: s) : as = bs ∧ r = s := by
  induction as generalizing bs with
  | nil =>
    cases bs with
    | nil => exact ⟨rfl,(List.cons.inj same).2⟩
    | cons b bs =>
      obtain ⟨first,rest,written,other⟩ := escapeStarts b
      rw [List.flatMap_cons,written] at same
      exact absurd (List.cons.inj same).1.symm other
  | cons a as ih =>
    cases bs with
    | nil =>
      obtain ⟨first,rest,written,other⟩ := escapeStarts a
      rw [List.flatMap_cons,written] at same
      exact absurd (List.cons.inj same).1 other
    | cons b bs =>
      rw [List.flatMap_cons,List.flatMap_cons,List.append_assoc,List.append_assoc] at same
      obtain ⟨rfl,others⟩ := escapeUnique same
      obtain ⟨rfl,rest⟩ := ih others
      exact ⟨rfl,rest⟩

theorem quotedUnique {as bs r s : List Char} (same : quotedText as ++ r = quotedText bs ++ s) :
    as = bs ∧ r = s := by
  simp only [quotedText,List.cons_append,List.append_assoc,List.nil_append,List.cons.injEq,
    true_and] at same
  exact closingUnique same

theorem quotedUnbroken (cs : List Char) : '\n' ∉ quotedText cs := by
  simp only [quotedText,List.mem_append,List.mem_cons,List.mem_flatMap,List.not_mem_nil,or_false,
    not_or,not_exists,not_and]
  exact ⟨⟨by decide,fun c _ => escapeUnbroken c⟩,by decide⟩

end Quotations

end Text

open Text

theorem Decimal.textStarts (d : Decimal) :
    ∃ c rest, d.text = c :: rest ∧ (isDigit c = true ∨ c = '-') := by
  unfold text
  cases d.negative with
  | true => exact ⟨_,_,rfl,.inr rfl⟩
  | false =>
    obtain ⟨c,rest,written,digit,_⟩ := d.magnitudeStarts
    exact ⟨c,rest,written,.inl digit⟩

theorem Decimal.textUnbroken (d : Decimal) : '\n' ∉ d.text := by
  intro inside
  rcases d.textNumerals _ inside with digit | point | sign
  · cases digit
  · exact absurd point (by decide)
  · exact absurd sign (by decide)

theorem Decimal.textUnique {d e : Decimal} (same : d.text = e.text) : d = e := by
  have split := d.splitText
  rw [same,e.splitText,Prod.mk.injEq] at split
  have read := d.magnitudeRead
  rw [← split.2,e.magnitudeRead,Option.some.injEq,Prod.mk.injEq] at read
  cases d
  cases e
  simp_all

namespace StaticType

def initials : List Char :=
  ['v','s','d','l','i','b','o']

theorem nameLetters (t : StaticType) :
    ∃ c rest, t.name.toList = c :: rest ∧ c ∈ initials ∧ '_' ∉ rest ∧ '\n' ∉ rest := by
  induction t with
  | array element ih =>
    obtain ⟨c,rest,written,initial,plain,line⟩ := ih
    refine ⟨c,rest ++ ['[',']'],?_,initial,?_,?_⟩
    · simp [name,written]
    · simp [plain]
    · simp [line]
  | void | string | decimal | long | int | bool | object =>
    exact ⟨_,_,rfl,by decide,by decide,by decide⟩

def plains : List StaticType :=
  [void,string,decimal,long,int,bool,object]

theorem plainOrArray (t : StaticType) : t ∈ plains ∨ ∃ element, t = array element := by
  cases t with
  | array element => exact .inr ⟨element,rfl⟩
  | void | string | decimal | long | int | bool | object => exact .inl (by decide)

theorem plainNames : ∀ t ∈ plains, t.name.toList.getLast? ≠ some ']' ∧
    ∀ u ∈ plains, t.name.toList = u.name.toList → t = u := by
  decide

theorem arrayNameEnds (element : StaticType) :
    (array element).name.toList.getLast? = some ']' := by
  simp [name]

theorem nameUnique {t u : StaticType} (same : t.name.toList = u.name.toList) : t = u := by
  induction t generalizing u with
  | array element ih =>
    rcases u.plainOrArray with plain | ⟨other,rfl⟩
    · exact absurd (same ▸ element.arrayNameEnds) (plainNames u plain).1
    · simp only [name,String.toList_append,List.append_cancel_right_eq] at same
      rw [ih same]
  | void | string | decimal | long | int | bool | object =>
    rcases u.plainOrArray with plain | ⟨other,rfl⟩
    · exact (plainNames _ (by decide)).2 u plain same
    · exact absurd (same ▸ other.arrayNameEnds) (plainNames _ (by decide)).1

end StaticType

end ScriptMachine

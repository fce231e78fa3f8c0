import ScriptMachine.Proofs.Disassembly
/-! The search for opcodes. One pass over the code strikes each expected opcode out
as soon as it comes by. To take the first occurrence is never worse than to wait for
a later one, so what is left over at the end cannot be found in any other way. -/
namespace ScriptMachine

structure LongestFound (expected ops found : List OpCode) : Prop where
  begins : found <+: expected
  occurs : found.Sublist ops
  longest : ∀ other, other <+: expected → other.Sublist ops → other.length ≤ found.length

section Search
variable {expected ops other : List OpCode}

theorem unmatchedSplit (expected ops : List OpCode) :
    ∃ found, expected = found ++ unmatched expected ops ∧ found.Sublist ops := by
  fun_induction unmatched expected ops with
  | case1 expected => exact ⟨[],rfl,List.nil_sublist _⟩
  | case2 op ops => exact ⟨[],rfl,List.nil_sublist _⟩
  | case3 expected op ops ih =>
    obtain ⟨found,split,occurs⟩ := ih
    exact ⟨op :: found,congrArg (op :: ·) split,occurs.cons_cons op⟩
  | case4 e expected op ops different ih =>
    obtain ⟨found,split,occurs⟩ := ih
    exact ⟨found,split,occurs.cons op⟩

theorem unmatchedShort (begins : other <+: expected) (occurs : other.Sublist ops) :
    other.length + (unmatched expected ops).length ≤ expected.length := by
  fun_induction unmatched expected ops generalizing other with
  | case1 expected =>
    cases List.sublist_nil.mp occurs
    simp
  | case2 op ops =>
    cases List.prefix_nil.mp begins
    simp
  | case3 expected op ops ih =>
    rcases List.prefix_cons_iff.mp begins with rfl | ⟨rest,rfl,later⟩
    · have shorter := ih List.nil_prefix (List.nil_sublist _)
      simp only [List.length_nil,List.length_cons] at shorter ⊢
      omega
    · have shorter := ih later (List.cons_sublist_cons.mp occurs)
      simp only [List.length_cons]
      omega
  | case4 e expected op ops different ih =>
    rcases List.prefix_cons_iff.mp begins with rfl | ⟨rest,rfl,later⟩
    · exact ih List.nil_prefix (List.nil_sublist _)
    · rcases List.sublist_cons_iff.mp occurs with within | ⟨_,same,_⟩
      · exact ih begins within
      · exact absurd (List.cons.inj same).1 different

theorem unmatchedNone : unmatched expected ops = [] ↔ expected.Sublist ops := by
  constructor
  · intro none
    obtain ⟨found,split,occurs⟩ := unmatchedSplit expected ops
    rw [none,List.append_nil] at split
    exact split ▸ occurs
  · intro occurs
    have short := unmatchedShort (List.prefix_refl expected) occurs
    exact List.eq_nil_of_length_eq_zero (by omega)

theorem unmatchedRest (expected ops : List OpCode) :
    ∃ found, expected = found ++ unmatched expected ops ∧ LongestFound expected ops found := by
  obtain ⟨found,split,occurs⟩ := unmatchedSplit expected ops
  refine ⟨found,split,⟨_,split.symm⟩,occurs,?_⟩
  intro other begins within
  have short := unmatchedShort begins within
  have sum := congrArg List.length split
  rw [List.length_append] at sum
  omega

end Search

namespace Listing

def joinedNames (ops : List OpCode) : List Char :=
  [',',' '].intercalate (ops.map fun op => Text.quotedText op.name.toList)

theorem quotedNamesText (ops : List OpCode) :
    (quotedNames ops).toList = '[' :: (joinedNames ops ++ [']']) := by
  simp [quotedNames,joinedNames,Text.quote,Function.comp_def]

def furtherNames : List OpCode → List Char
  | [] => []
  | op :: ops => ',' :: ' ' :: joinedNames (op :: ops)

theorem joinedNamesCons (op : OpCode) (ops : List OpCode) :
    joinedNames (op :: ops) = Text.quotedText op.name.toList ++ furtherNames ops := by
  cases ops with
  | nil => simp [joinedNames,furtherNames]
  | cons next ops => simp [joinedNames,furtherNames,List.intercalate_cons_cons]

theorem joinedNamesUnique {ops others : List OpCode} {r s : List Char}
    (same : joinedNames ops ++ ']' :: r = joinedNames others ++ ']' :: s) :
    ops = others ∧ r = s := by
  induction ops generalizing others with
  | nil =>
    cases others with
    | nil => exact ⟨rfl,(List.cons.inj same).2⟩
    | cons other others =>
      rw [joinedNamesCons] at same
      exact absurd (List.cons.inj same).1 (by decide)
  | cons op ops ih =>
    cases others with
    | nil =>
      rw [joinedNamesCons] at same
      exact absurd (List.cons.inj same).1 (by decide)
    | cons other others =>
      rw [joinedNamesCons,joinedNamesCons,List.append_assoc,List.append_assoc] at same
      obtain ⟨names,further⟩ := Text.quotedUnique same
      cases OpCode.nameUnique names
      cases ops with
      | nil =>
        cases others with
        | nil => exact ⟨rfl,(List.cons.inj further).2⟩
        | cons => exact absurd (List.cons.inj further).1 (by decide)
      | cons =>
        cases others with
        | nil => exact absurd (List.cons.inj further).1 (by decide)
        | cons =>
          obtain ⟨more,rest⟩ := ih (List.cons.inj (List.cons.inj further).2).2
          exact ⟨congrArg (op :: ·) more,rest⟩

def report (left actual : List OpCode) : String :=
  "Missing opcodes in sequence.\nExpected to find: " ++ quotedNames left
    ++ "\nActual stream:    " ++ quotedNames actual

theorem framedNamesUnique {head middle : String} {left actual other its : List OpCode}
    (same : head ++ quotedNames left ++ middle ++ quotedNames actual =
      head ++ quotedNames other ++ middle ++ quotedNames its) : left = other ∧ actual = its := by
  have texts := congrArg String.toList same
  simp only [String.toList_append,quotedNamesText,List.append_assoc,List.append_cancel_left_eq,
    List.cons_append,List.cons.injEq,true_and,List.nil_append] at texts
  obtain ⟨first,rest⟩ := joinedNamesUnique texts
  obtain ⟨second,_⟩ := joinedNamesUnique (List.cons.inj (List.append_cancel_left rest)).2
  exact ⟨first,second⟩

theorem messageReports (listing : Listing) (expected : List OpCode) :
    listing.missingMessage? expected =
      if listing.missing expected = [] then none
      else some (report (listing.missing expected) listing.opcodes) := by
  unfold missingMessage?
  split
  · rename_i none
    exact (if_pos none).symm
  · rename_i some
    exact (if_neg some).symm

end Listing

theorem opcodeCheckIsExact (listing : Listing) (expected : List OpCode) :
    (listing.missingMessage? expected = none ↔ expected.Sublist listing.opcodes) ∧
    ∃ found left, LongestFound expected listing.opcodes found ∧ expected = found ++ left ∧
      listing.missingMessage? expected =
        (if left = [] then none else some (Listing.report left listing.opcodes)) ∧
      ∀ other actual, Listing.report other actual = Listing.report left listing.opcodes →
        other = left ∧ actual = listing.opcodes := by
  constructor
  · rw [listing.messageReports,← unmatchedNone,Listing.missing]
    split
    · rename_i none
      exact ⟨fun _ => none,fun _ => rfl⟩
    · rename_i some
      exact ⟨fun silent => (by cases silent),fun none => absurd none some⟩
  · obtain ⟨found,split,longest⟩ := unmatchedRest expected listing.opcodes
    exact ⟨found,_,longest,split,listing.messageReports expected,
      fun other actual => Listing.framedNamesUnique⟩

def removesEarly : Listing :=
  (Listing.empty.extend [.pop,.pop] 1).extend [.dup,.loadStore] 2

theorem laterRemovalIsMissing :
    ∃ found, LongestFound [.pop,.dup,.pop,.loadStore] removesEarly.opcodes found ∧
      [OpCode.pop,.dup,.pop,.loadStore] = found ++ [.pop,.loadStore] ∧
      removesEarly.missingMessage? [.pop,.dup,.pop,.loadStore] =
        some (Listing.report [.pop,.loadStore] removesEarly.opcodes) := by
  obtain ⟨_,found,left,longest,split,message,unique⟩ :=
    opcodeCheckIsExact removesEarly [.pop,.dup,.pop,.loadStore]
  have told : removesEarly.missingMessage? [.pop,.dup,.pop,.loadStore] =
      some (Listing.report [.pop,.loadStore] removesEarly.opcodes) := rfl
  rw [told] at message
  split at message
  · cases message
  · obtain ⟨rfl,_⟩ := unique _ _ (Option.some.inj message)
    exact ⟨found,longest,split,told⟩

end ScriptMachine

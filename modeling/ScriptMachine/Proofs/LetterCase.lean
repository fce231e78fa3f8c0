import ScriptMachine.Proofs.Respelling
/-! Letter case does not count, from the tree to the end of a run. Names are
folded where a property is looked up and keys where the store is accessed, both
in the same way: ASCII letters only. -/
namespace ScriptMachine

namespace Text

instance (a b : String) : Decidable (SameLetters a b) :=
  decidable_of_iff _ (foldSame a b)

theorem foldedBytes (a b : String) :
    (fold a).toList.flatMap String.utf8EncodeChar = (fold b).toList.flatMap String.utf8EncodeChar ↔
      SameLetters a b := by
  rw [← foldSame,← String.toByteArray_inj,← String.utf8Encode_toList,← String.utf8Encode_toList]
  exact List.toByteArray_inj.symm

end Text

theorem Registry.findFolded (registry : Registry) {a b : String} (letters : Text.SameLetters a b) :
    registry.find? a = registry.find? b := by
  simp only [find?,PropertyId.ofName,(Text.foldSame a b).mpr letters]

theorem Lookup.registryFindsAlike {lookup : Lookup} (own : lookup.resolver = none) :
    lookup.FindsAlike Text.SameLetters := by
  intro a b letters query
  simp only [resolve,own,Option.bind_none]
  exact lookup.registry.findFolded letters

theorem Access.equalPermits (access : Access) : access.Permitted Eq := by
  have reads (spot : Spot) : spot.Reads Eq := by
    cases spot with
    | key folded =>
      intro s t same
      rw [same]
    | value =>
      intro name s t same
      rw [same]
  have writes (spot : Spot) : spot.Writes Eq := by
    cases spot with
    | key folded =>
      intro s t v same
      rw [same]
    | value =>
      intro name s t v same
      rw [same]
  cases access with
  | read key => exact reads key.spot
  | write key => exact writes key.spot

theorem Alike.equal {ε α : Type} {left right : EStateM.Result ε Context α}
    (alike : Alike Eq (Context.Beside Eq) (Context.Beside Eq) left right) : left = right := by
  have same {c d : Context} (beside : c.Beside Eq d) : c = d := by
    obtain ⟨store,environment,heap⟩ := c
    obtain ⟨rfl,rfl,rfl⟩ := beside
    rfl
  cases alike with
  | ok result left => rw [result,same left]
  | error fault left => rw [fault,same left]

theorem letterCaseDoesNotCount {setup : CompileSetup} (own : setup.lookup.resolver = none)
    {method other : Method} (called : method.name = other.name)
    (respelled : BodyRespelled Text.SameLetters method.body other.body) (queries : Nat) :
    ((∃ e, (compileMethod setup method queries).1 = .error e ∧
        (compileMethod setup other queries).1 = .error e) ∨
      ∃ c d, (compileMethod setup method queries).1 = .ok c ∧
        (compileMethod setup other queries).1 = .ok d ∧ c.Beside Eq d ∧
        ∀ host limit arguments context,
          (execute host limit c arguments).run context =
            (execute host limit d arguments).run context) ∧
    ∀ a b, ((Text.fold a).toList.flatMap String.utf8EncodeChar =
        (Text.fold b).toList.flatMap String.utf8EncodeChar ↔ Text.SameLetters a b) ∧
      ∀ (store : Store) v, (store.set a v).get? b =
        if Text.SameLetters a b then some v else store.get? b := by
  refine ⟨?_,?_⟩
  · have found := Lookup.registryFindsAlike own
    obtain ⟨_,refused | ⟨c,d,first,second,beside⟩⟩ :=
      respelled.compiles found called (fun _ _ access _ => access.equalPermits) queries
    · exact .inl refused
    · refine .inr ⟨c,d,first,second,beside,?_⟩
      intro host limit arguments context
      exact (beside.execute host limit arguments ⟨rfl,rfl,rfl⟩).equal
  · intro a b
    refine ⟨Text.foldedBytes a b,?_⟩
    intro store v
    simp only [Store.getSet,Text.foldSame]

def spelledMethod (base size level key inner ticks : String) : Method :=
  ⟨"main",[
    .assign (.indexed (.property base .start) (.constant (.string size) .start) .start)
      (.assign (.property level .start)
        (.indexed (.null .start) (.constant (.string key) .start) .start) .start) .start,
    .declare "pair" (.arrayOf "object" [.indexed (.null .start)
      (.indexed (.null .start) (.constant (.string inner) .start) .start) .start,
      .property ticks .start] .start) .start],.start⟩

def builtinSetup : CompileSetup :=
  ⟨⟨.withBuiltins,none⟩,{}⟩

def plainSpelling : Method :=
  spelledMethod "Base" "Größe" "ErrorLevel" "Key" "a" "A_TickCount"

def mixedSpelling : Method :=
  spelledMethod "bASE" "GRößE" "ERRORLEVEL" "kEY" "A" "a_tickcount"

theorem mixedRespelled : BodyRespelled Text.SameLetters plainSpelling.body mixedSpelling.body := by
  refine .cons (.assign (.indexed (.property ?_) (.keyText ?_))
    (.assign (.property ?_) (.indexed (.null _ _) (.keyText ?_))))
    (.cons (.declare (.arrayOf rfl ?_)) .nil)
  · decide +kernel
  · decide +kernel
  · decide +kernel
  · decide +kernel
  · intro n e f first second
    cases n with
    | zero =>
      cases first
      cases second
      exact .indexed (.null _ _) (.indexed (.null _ _) (.keyText (by decide +kernel)))
    | succ n =>
      cases n with
      | zero =>
        cases first
        cases second
        exact .property (by decide +kernel)
      | succ n => cases first

theorem mixedSpellingsRunAlike :
    ∃ c d, (compileMethod builtinSetup plainSpelling 0).1 = .ok c ∧
      (compileMethod builtinSetup mixedSpelling 0).1 = .ok d ∧
      c ≠ d ∧ c.Beside Eq d ∧
      (∀ host limit arguments context,
        (execute host limit c arguments).run context =
          (execute host limit d arguments).run context) ∧
      ¬ Text.SameLetters "Größe" "GRÖßE" ∧
      (({} : Store).set "Größe" (.string "four")).get? "GRößE" = some (.string "four") ∧
      (({} : Store).set "Größe" (.string "four")).get? "GRÖßE" = none := by
  have own : builtinSetup.lookup.resolver = none := rfl
  have called : plainSpelling.name = mixedSpelling.name := rfl
  obtain ⟨outcome,letters⟩ := letterCaseDoesNotCount own called mixedRespelled 0
  have compiled : (compileMethod builtinSetup plainSpelling 0).1.isOk = true := by decide +kernel
  have different : (compileMethod builtinSetup plainSpelling 0).1.toOption ≠
      (compileMethod builtinSetup mixedSpelling 0).1.toOption := by decide +kernel
  rcases outcome with ⟨e,refused,_⟩ | ⟨c,d,first,second,beside,runs⟩
  · rw [refused] at compiled
    cases compiled
  · rw [first,second] at different
    refine ⟨c,d,first,second,?_,beside,runs,by decide +kernel,?_,?_⟩
    · intro same
      exact different (by rw [same])
    · rw [(letters "Größe" "GRößE").2,if_pos (by decide +kernel)]
    · rw [(letters "Größe" "GRÖßE").2,if_neg (by decide +kernel)]
      rfl

end ScriptMachine

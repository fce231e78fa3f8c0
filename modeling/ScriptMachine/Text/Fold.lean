/-! Letter case. Property names, store keys and the words a property accepts are
compared up to the case of ASCII letters; every other letter counts as it
stands. -/
namespace ScriptMachine.Text

def fold (s : String) : String :=
  String.ofList (s.toList.map Char.toLower)

theorem lowerNat (c : Char) :
    c.toLower.toNat = if 65 ≤ c.toNat ∧ c.toNat ≤ 90 then c.toNat + 32 else c.toNat := by
  unfold Char.toLower
  split
  · rename_i upper
    simp only [ge_iff_le,UInt32.le_iff_toNat_le] at upper
    have low : 65 ≤ c.toNat := upper.1
    have high : c.val.toNat ≤ 90 := upper.2
    rw [if_pos ⟨low,high⟩]
    change (c.val + 32).toNat = c.val.toNat + 32
    rw [UInt32.toNat_add]
    change (c.val.toNat + 32) % 4294967296 = _
    omega
  · rename_i other
    simp only [ge_iff_le,UInt32.le_iff_toNat_le] at other
    exact (if_neg other).symm

theorem lowerLower (c : Char) : c.toLower.toLower = c.toLower := by
  refine Char.toNat_inj.mp ?_
  rw [lowerNat c.toLower,lowerNat c]
  by_cases upper : 65 ≤ c.toNat ∧ c.toNat ≤ 90
  · rw [if_pos upper,if_neg (by omega)]
  · rw [if_neg upper,if_neg upper]

theorem foldFold (s : String) : fold (fold s) = fold s := by
  simp only [fold,String.toList_ofList,List.map_map,Function.comp_def,lowerLower]

def sameFolded (a b : String) : Bool :=
  fold a == fold b

end ScriptMachine.Text

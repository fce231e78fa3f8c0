import ScriptMachine.Proofs.ArrayContract
import ScriptMachine.Proofs.ArrayLinks
/-! Accessors that depend on the environment and on the value written, and do not
tell apart arrays with equal contents: what they are given may be replaced by
what it is linked to, and so is what they answer or leave. -/
namespace ScriptMachine

structure Host.Uniform (host : Host) (own : ArrayId → Prop) : Prop where
  kept : host.Keeps Heap.Within
  getters : ∀ routine (r : Links) (s t : Surroundings), (∀ id, own id → r id id) → s.Linked r t →
    ∃ q : Links, r.Grows q s.heap.size t.heap.size ∧
      q.Joins (host.getter routine s.environment s.heap).heap
        (host.getter routine t.environment t.heap).heap ∧
      (host.getter routine s.environment s.heap).value.Linked q
        (host.getter routine t.environment t.heap).value
  setters : ∀ routine owner (r : Links) (s t after : Surroundings) v w,
    (∀ id, own id → r id id) → s.Linked r t → v.Linked r w →
    (host.setter routine owner v).run s = .ok () after →
    ∃ (q : Links) (later : Surroundings), (host.setter routine owner w).run t = .ok () later ∧
      r.Grows q s.heap.size t.heap.size ∧ after.Linked q later

section Accessors
variable {host : Host} {own : ArrayId → Prop} {r : Links} {s t after : Surroundings} {v w : Value}

theorem GetterRef.readUniform (uniform : host.Uniform own) (mine : ∀ id, own id → r id id)
    (linked : s.Linked r t) (getter : GetterRef) :
    ∃ q : Links, r.Grows q s.heap.size t.heap.size ∧
      q.Joins (getter.read host s.environment s.heap).heap
        (getter.read host t.environment t.heap).heap ∧
      (getter.read host s.environment s.heap).value.Linked q
        (getter.read host t.environment t.heap).value := by
  cases getter with
  | host routine serial => exact uniform.getters routine r s t mine linked
  | errorLevel => exact ⟨r,r.growsRefl _ _,linked.heap,linked.environment.level⟩
  | workingDir | titleMatchMode | titleMatchSpeed | scriptName | tickCount =>
    have others := linked.environment.others
    simp only [Environment.mk.injEq] at others
    refine ⟨r,r.growsRefl _ _,linked.heap,?_⟩
    simp only [read,others]
    exact .plain rfl

theorem Property.readUniform (uniform : host.Uniform own) (mine : ∀ id, own id → r id id)
    (linked : s.Linked r t) (p : Property) {reading : Reading}
    (answered : p.read host s.environment s.heap = some reading) :
    ∃ (q : Links) (other : Reading), p.read host t.environment t.heap = some other ∧
      r.Grows q s.heap.size t.heap.size ∧
      q.Joins reading.heap other.heap ∧
      reading.value.Linked q other.value := by
  obtain ⟨getter,found,rfl⟩ := Option.map_eq_some_iff.mp answered
  obtain ⟨q,grows,joins,values⟩ := getter.readUniform uniform mine linked
  have other : p.read host t.environment t.heap =
      some { getter.read host t.environment t.heap with
        value := (getter.read host t.environment t.heap).value.asObject } := by
    simp only [read,found,Option.map_some]
  exact ⟨q,_,other,grows,joins,values.asObject⟩

theorem Environment.Linked.update {e f : Environment} (linked : e.Linked r f)
    (change : Environment → Environment)
    (level : ∀ env, (change env).errorLevel = env.errorLevel)
    (others : ∀ env v,
      change { env with errorLevel := v } = { change env with errorLevel := v }) :
    (change e).Linked r (change f) := by
  constructor
  · rw [level,level]
    exact linked.level
  · rw [← others,← others,linked.others]

theorem Surroundings.Linked.modified (linked : s.Linked r t)
    {change : Environment → Environment}
    (written : (SetterRef.modifyEnvironment change).run s = .ok () after)
    (level : ∀ env, (change env).errorLevel = env.errorLevel)
    (others : ∀ env v,
      change { env with errorLevel := v } = { change env with errorLevel := v }) :
    ∃ (q : Links) (later : Surroundings),
      (SetterRef.modifyEnvironment change).run t = .ok () later ∧
      r.Grows q s.heap.size t.heap.size ∧ after.Linked q later := by
  cases written
  exact ⟨r,_,rfl,r.growsRefl _ _,linked.environment.update change level others,linked.heap⟩

theorem SetterRef.writeUniform (uniform : host.Uniform own) (mine : ∀ id, own id → r id id)
    (linked : s.Linked r t) (values : v.Linked r w) (setter : SetterRef)
    (written : (setter.write host v).run s = .ok () after) :
    ∃ (q : Links) (later : Surroundings), (setter.write host w).run t = .ok () later ∧
      r.Grows q s.heap.size t.heap.size ∧ after.Linked q later := by
  have text := values.sameText
  cases setter with
  | host routine serial owner =>
    exact uniform.setters routine owner r s t after v w mine linked values written
  | errorLevel =>
    cases written
    exact ⟨r,_,rfl,r.growsRefl _ _,⟨values,linked.environment.others⟩,linked.heap⟩
  | workingDir =>
    simp only [write,writeWorkingDir,text] at written ⊢
    split at written
    · rename_i directory
      simp only [if_pos directory]
      exact linked.modified written (fun _ => rfl) fun _ _ => rfl
    · cases written
  | titleMatchMode =>
    change (writeTitleMatchMode v).run s = .ok () after at written
    change ∃ q later, (writeTitleMatchMode w).run t = .ok () later ∧ _
    unfold writeTitleMatchMode at written ⊢
    rw [text] at written
    split at written
    · exact linked.modified written (fun _ => rfl) fun _ _ => rfl
    · exact linked.modified written (fun _ => rfl) fun _ _ => rfl
    · cases written
  | titleMatchSpeed =>
    change (writeTitleMatchSpeed v).run s = .ok () after at written
    change ∃ q later, (writeTitleMatchSpeed w).run t = .ok () later ∧ _
    unfold writeTitleMatchSpeed at written ⊢
    rw [text] at written
    split at written
    · exact linked.modified written (fun _ => rfl) fun _ _ => rfl
    · cases written

theorem Property.writeUniform (uniform : host.Uniform own) (mine : ∀ id, own id → r id id)
    (linked : s.Linked r t) (values : v.Linked r w) (p : Property)
    (written : (p.write host v).run s = .ok () after) :
    ∃ (q : Links) (later : Surroundings), (p.write host w).run t = .ok () later ∧
      r.Grows q s.heap.size t.heap.size ∧ after.Linked q later := by
  unfold write at written ⊢
  cases found : p.setter with
  | none =>
    rw [found] at written
    cases written
    exact ⟨r,t,rfl,r.growsRefl _ _,linked⟩
  | some setter =>
    rw [found] at written
    exact setter.writeUniform uniform mine linked values written

end Accessors
end ScriptMachine

import Betty.Environment

/-!
# What the operations of an environment do to its frames

An environment changes in three ways: a new and empty frame is added, a name is bound in a
frame, or a name is bound among the global variables. Assignment is one of the last two, and
which one it is follows from where the name is bound already.

## Main results

* `Table.get?_put`: a table after one of its names has been given a value.
* `Environment.frame_push`, `Environment.frame_bindIn`: the frames after a change.
* `Environment.declareLocal_cases`, `Environment.set_cases`: which change it is.
-/

namespace Betty

namespace Table

variable {α : Type}

theorem find?_insertEntry (name other : String) (value : α) (entries : List (String × α)) :
    (insertEntry name value entries).find? (fun entry => entry.1 == other) =
      if other = name then some (name, value) else entries.find? fun entry => entry.1 == other := by
  induction entries with
  | nil =>
    by_cases h : other = name
    · simp [insertEntry, h]
    · simp [insertEntry, h, Ne.symm h]
  | cons entry rest ih =>
    unfold insertEntry
    by_cases hentry : entry.1 = name
    · by_cases h : other = name
      · simp [hentry, h]
      · simp [hentry, h, Ne.symm h]
    · by_cases hless : entry.1 < name
      · rw [if_neg (by simpa using hentry), if_pos hless, List.find?_cons, List.find?_cons, ih]
        by_cases h : other = name
        · subst h
          have hmiss : (entry.1 == other) = false := by simpa using hentry
          simp only [hmiss, if_true]
        · simp only [h, if_false]
      · rw [if_neg (by simpa using hentry), if_neg hless]
        by_cases h : other = name
        · simp [h]
        · simp [h, Ne.symm h]

/-- Giving a name a value changes the value of that name only. -/
theorem get?_put (table : Table α) (name other : String) (value : α) :
    (table.put name value).get? other =
      if other = name then some value else table.get? other := by
  unfold get? put
  rw [find?_insertEntry]
  by_cases h : other = name
  · simp [h]
  · simp [h]

theorem contains_put (table : Table α) (name other : String) (value : α) :
    (table.put name value).contains other = (decide (other = name) || table.contains other) := by
  unfold contains
  rw [get?_put]
  by_cases h : other = name
  · simp [h]
  · simp [h]

theorem contains_put_of_contains {table : Table α} {name : String} (h : table.contains name)
    (other : String) (value : α) :
    (table.put name value).contains other = table.contains other := by
  rw [contains_put]
  by_cases hother : other = name
  · simp [hother, h]
  · simp [hother]

end Table

namespace Environment

/-! ### Frames after a change -/

theorem frame_eq_empty {env : Environment} {ref : FrameRef} (h : env.frames.size ≤ ref) :
    env.frame ref = .empty := by
  unfold frame
  rw [Array.getD_eq_getD_getElem?, Array.getElem?_eq_none h]
  rfl

/-- A new frame is empty, as one that does not exist. -/
@[simp]
theorem frame_push (env : Environment) (ref : FrameRef) : env.push.frame ref = env.frame ref := by
  unfold frame push
  simp only [Array.getD_eq_getD_getElem?, Array.getElem?_push]
  by_cases h : ref = env.frames.size
  · simp [h]
  · simp [h]

@[simp]
theorem size_push (env : Environment) : env.push.frames.size = env.frames.size + 1 := by
  simp [push]

theorem frame_bindIn (env : Environment) (ref other : FrameRef) (name : String) (value : Value) :
    (env.bindIn ref name value).frame other =
      if other = ref ∧ ref < env.frames.size then (env.frame ref).put name value
      else env.frame other := by
  unfold frame bindIn
  simp only [Array.getD_eq_getD_getElem?, Array.getElem?_modify]
  by_cases hother : other = ref
  · subst hother
    by_cases hsize : other < env.frames.size
    · simp [hsize]
    · simp [hsize]
  · simp [hother, Ne.symm hother]

/-- A binding takes no name away. -/
theorem contains_bindIn {env : Environment} {other : FrameRef} {found : String}
    (h : (env.frame other).contains found) (ref : FrameRef) (name : String) (value : Value) :
    ((env.bindIn ref name value).frame other).contains found := by
  rw [frame_bindIn]
  split
  · next hboth =>
    rw [Table.contains_put, ← hboth.1, h, Bool.or_true]
  · exact h

/-- A binding adds no name but its own, and that one to its frame only. -/
theorem contains_of_contains_bindIn {env : Environment} {ref other : FrameRef}
    {name found : String} {value : Value}
    (h : ((env.bindIn ref name value).frame other).contains found) :
    other = ref ∧ found = name ∨ (env.frame other).contains found := by
  rw [frame_bindIn] at h
  split at h
  · next hboth =>
    rw [Table.contains_put, Bool.or_eq_true, decide_eq_true_eq] at h
    exact h.imp (fun hname => ⟨hboth.1, hname⟩) fun hold => hboth.1 ▸ hold
  · exact .inr h

@[simp]
theorem size_bindIn (env : Environment) (ref : FrameRef) (name : String) (value : Value) :
    (env.bindIn ref name value).frames.size = env.frames.size := by
  simp [bindIn]

@[simp]
theorem frame_chain (env : Environment) (chain : Chain) (ref : FrameRef) :
    { env with chain := chain }.frame ref = env.frame ref := rfl

/-! ### The active chain -/

@[simp]
theorem bindIn_chain (env : Environment) (ref : FrameRef) (name : String) (value : Value) :
    (env.bindIn ref name value).chain = env.chain := rfl

@[simp]
theorem bindGlobal_chain (env : Environment) (name : String) (value : Value) :
    (env.bindGlobal name value).chain = env.chain := rfl

@[simp]
theorem declareLocal_chain (env : Environment) (name : String) (value : Value) :
    (env.declareLocal name value).chain = env.chain := by
  unfold declareLocal
  split <;> simp

@[simp]
theorem set_chain (env : Environment) (name : String) (value : Value) :
    (env.set name value).chain = env.chain := by
  unfold set
  split
  · simp
  · split <;> simp

/-! ### Which change it is -/

/-- A declaration binds its name in the innermost frame, or among the global variables if no
frame is active. -/
theorem declareLocal_cases (env : Environment) (name : String) (value : Value) :
    (∃ ref rest, env.chain = ref :: rest ∧
      env.declareLocal name value = env.bindIn ref name value) ∨
    env.chain = [] ∧ env.declareLocal name value = env.bindGlobal name value := by
  unfold declareLocal
  cases hchain : env.chain with
  | nil => exact .inr ⟨rfl, rfl⟩
  | cons ref rest => exact .inl ⟨ref, rest, rfl, rfl⟩

/-- An assignment binds its name in an active frame that has it, or among the global
variables if they have it and no active frame does; otherwise it is a declaration. -/
theorem set_cases (env : Environment) (name : String) (value : Value) :
    (∃ ref ∈ env.chain, (env.frame ref).contains name ∧
      env.set name value = env.bindIn ref name value) ∨
    (∀ ref ∈ env.chain, (env.frame ref).contains name = false) ∧
      (env.globals.contains name ∧ env.set name value = env.bindGlobal name value ∨
        env.globals.contains name = false ∧ env.set name value = env.declareLocal name value) := by
  unfold set
  cases hholder : env.holder? name with
  | some ref =>
    have hbound : (env.frame ref).contains name :=
      @List.find?_some _ (fun ref => (env.frame ref).contains name) _ _ hholder
    exact .inl ⟨ref, List.mem_of_find?_eq_some hholder, hbound, rfl⟩
  | none =>
    have hnone : ∀ ref ∈ env.chain, (env.frame ref).contains name = false := by
      intro ref hmem
      exact Bool.eq_false_iff.2 (List.find?_eq_none.1 hholder ref hmem)
    refine .inr ⟨hnone, ?_⟩
    by_cases hglobal : env.globals.contains name
    · exact .inl ⟨hglobal, by simp [hglobal]⟩
    · exact .inr ⟨Bool.eq_false_iff.2 hglobal, by simp [hglobal]⟩

/-- A value of a name is that of an active frame or that of a global variable. -/
theorem get?_cases {env : Environment} {name : String} {value : Value}
    (h : env.get? name = some value) :
    (∃ ref ∈ env.chain, (env.frame ref).get? name = some value) ∨
      env.globals.get? name = some value := by
  unfold get? at h
  cases hlocal : env.local? name with
  | none =>
    rw [hlocal] at h
    exact .inr h
  | some found =>
    rw [hlocal] at h
    cases h
    exact .inl (List.exists_of_findSome?_eq_some hlocal)

/-- What any binding keeps, an assignment keeps, and a declaration as well. -/
theorem declareLocal_induction {holds : Environment → Prop} {env : Environment} {name : String}
    {value : Value} (hbindIn : ∀ ref ∈ env.chain, holds (env.bindIn ref name value))
    (hbindGlobal : holds (env.bindGlobal name value)) : holds (env.declareLocal name value) := by
  rcases env.declareLocal_cases name value with ⟨ref, rest, hchain, heq⟩ | ⟨_, heq⟩
  · rw [heq]
    exact hbindIn ref (hchain ▸ List.mem_cons_self)
  · rw [heq]
    exact hbindGlobal

theorem set_induction {holds : Environment → Prop} {env : Environment} {name : String}
    {value : Value} (hbindIn : ∀ ref ∈ env.chain, holds (env.bindIn ref name value))
    (hbindGlobal : holds (env.bindGlobal name value)) : holds (env.set name value) := by
  rcases env.set_cases name value with ⟨ref, hmem, _, heq⟩ | ⟨_, ⟨_, heq⟩ | ⟨_, heq⟩⟩
  · rw [heq]
    exact hbindIn ref hmem
  · rw [heq]
    exact hbindGlobal
  · rw [heq]
    exact declareLocal_induction hbindIn hbindGlobal

@[simp]
theorem size_declareLocal (env : Environment) (name : String) (value : Value) :
    (env.declareLocal name value).frames.size = env.frames.size :=
  @declareLocal_induction (fun after => after.frames.size = env.frames.size) env name value
    (fun ref _ => env.size_bindIn ref name value) rfl

@[simp]
theorem size_set (env : Environment) (name : String) (value : Value) :
    (env.set name value).frames.size = env.frames.size :=
  @set_induction (fun after => after.frames.size = env.frames.size) env name value
    (fun ref _ => env.size_bindIn ref name value) rfl

end Environment

end Betty

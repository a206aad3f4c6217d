import Betty.Proofs.Startup

/-!
# The order of declarations

A table keeps its entries in order, so it depends only on the values that its names have, and
not on the order in which they were put into it. Hence the machine on which `main` is called is
the same for every order of the global variables and functions of a program, as long as their
names are distinct, and with it the whole run.

## Main definitions

* `Table.Ordered`: the entries of a table stand in increasing order of their names.
* `Program.Unambiguous`: the names of a program are distinct and free.

## Main results

* `Table.ext_get?`: ordered tables with the same values are equal.
* `Program.started_perm`: the machine on which `main` is called.
* `declarations_in_any_order`: rearranging the declarations does not change a run.
-/

namespace Betty

/-! ### Ordered tables -/

namespace Table

variable {α : Type}

/-- The entries stand in increasing order of their names. -/
def Ordered (table : Table α) : Prop :=
  table.entries.Pairwise fun entry later => entry.1 < later.1

theorem ordered_empty : (empty : Table α).Ordered :=
  .nil

theorem mem_insertEntry {name : String} {value : α} {entries : List (String × α)}
    {entry : String × α} (h : entry ∈ insertEntry name value entries) :
    entry = (name, value) ∨ entry ∈ entries := by
  induction entries with
  | nil => exact .inl (List.mem_singleton.1 h)
  | cons first rest ih =>
    unfold insertEntry at h
    split at h
    · exact (List.mem_cons.1 h).imp_right (List.mem_cons_of_mem first)
    · split at h
      · rcases List.mem_cons.1 h with rfl | hrest
        · exact .inr List.mem_cons_self
        · exact (ih hrest).imp_right (List.mem_cons_of_mem first)
      · exact List.mem_cons.1 h

/-- A table stays ordered when a name is given a value. -/
theorem Ordered.put {table : Table α} (h : table.Ordered) (name : String) (value : α) :
    (table.put name value).Ordered := by
  obtain ⟨entries⟩ := table
  unfold Ordered Table.put at *
  dsimp only at *
  induction entries with
  | nil => exact List.pairwise_singleton _ _
  | cons first rest ih =>
    obtain ⟨hfirst, hrest⟩ := List.pairwise_cons.1 h
    unfold insertEntry
    by_cases hsame : first.1 = name
    · rw [if_pos (by simpa using hsame)]
      exact List.pairwise_cons.2 ⟨hsame ▸ hfirst, hrest⟩
    · rw [if_neg (by simpa using hsame)]
      by_cases hless : first.1 < name
      · rw [if_pos hless]
        refine List.pairwise_cons.2 ⟨fun entry hentry => ?_, ih hrest⟩
        rcases mem_insertEntry hentry with rfl | hold
        · exact hless
        · exact hfirst entry hold
      · -- the new entry comes before the first one, and so before all others
        rw [if_neg hless]
        have hbefore : name < first.1 := by
          refine Decidable.byContradiction fun hafter => hsame ?_
          exact String.le_antisymm hafter hless
        refine List.pairwise_cons.2 ⟨fun entry hentry => ?_, h⟩
        rcases List.mem_cons.1 hentry with rfl | hold
        · exact hbefore
        · exact String.lt_trans hbefore (hfirst entry hold)

theorem Ordered.foldl {β : Type} {step : Table α → β → Table α}
    (hstep : ∀ table item, table.Ordered → (step table item).Ordered) (items : List β)
    {table : Table α} (h : table.Ordered) : (items.foldl step table).Ordered := by
  induction items generalizing table with
  | nil => exact h
  | cons first rest ih => exact ih (hstep table first h)

/-- The entries of an ordered table are the names with their values. -/
theorem Ordered.mem_entries_iff {table : Table α} (h : table.Ordered) {entry : String × α} :
    entry ∈ table.entries ↔ table.get? entry.1 = some entry.2 := by
  obtain ⟨entries⟩ := table
  unfold Ordered get? at *
  dsimp only at *
  induction entries with
  | nil => simp
  | cons first rest ih =>
    obtain ⟨hfirst, hrest⟩ := List.pairwise_cons.1 h
    rw [List.mem_cons, List.find?_cons]
    by_cases hsame : first.1 = entry.1
    · -- no later entry has this name
      have hnot : entry ∉ rest := fun hmem =>
        String.lt_irrefl first.1 (hsame ▸ hfirst entry hmem)
      simp only [hnot, or_false, hsame, beq_self_eq_true, Option.map_some, Option.some.injEq]
      exact ⟨fun heq => heq ▸ rfl, fun hvalue => Prod.ext hsame.symm hvalue.symm⟩
    · have hne : entry ≠ first := fun heq => hsame (heq ▸ rfl)
      simp only [hne, false_or, beq_eq_false_iff_ne.2 hsame]
      exact ih hrest

theorem Ordered.nodup {table : Table α} (h : table.Ordered) : table.entries.Nodup := by
  refine List.Pairwise.imp ?_ h
  rintro entry later hless rfl
  exact String.lt_irrefl entry.1 hless

/-- Ordered tables with the same values are equal. -/
theorem ext_get? {a b : Table α} (ha : a.Ordered) (hb : b.Ordered)
    (h : ∀ name, a.get? name = b.get? name) : a = b := by
  have hperm : a.entries.Perm b.entries := by
    refine (List.perm_ext_iff_of_nodup ha.nodup hb.nodup).2 fun entry => ?_
    rw [ha.mem_entries_iff, hb.mem_entries_iff, h]
  have hentries : a.entries = b.entries := by
    refine hperm.eq_of_pairwise (fun x y _ _ hless hmore => ?_) ha hb
    exact absurd hmore (String.lt_asymm hless)
  obtain ⟨entries⟩ := a
  obtain ⟨others⟩ := b
  exact congrArg Table.mk hentries

end Table

/-! ### Rearranged programs -/

namespace Program

/-- The global variables have distinct names, and so have the functions, none of which has the
name of an intrinsic function. -/
structure Unambiguous (program : Program) : Prop where
  globals : program.globalNames.Nodup
  functions : (program.functions.filterMap Declaration.name).Nodup
  free : ∀ declaration ∈ program.functions, declaration.isReserved = false

variable {program rearranged : Program}

theorem Unambiguous.perm (h : program.Unambiguous)
    (hglobals : rearranged.globals.Perm program.globals)
    (hfunctions : rearranged.functions.Perm program.functions) : rearranged.Unambiguous where
  globals := (hglobals.map Prod.fst).nodup_iff.2 h.globals
  functions := (hfunctions.filterMap Declaration.name).nodup_iff.2 h.functions
  free declaration hmem := h.free declaration (hfunctions.subset hmem)

/-- Where a name is defined once, its definition is the function with this name. -/
theorem Unambiguous.function?_eq_some_iff (h : program.Unambiguous) {name : String}
    {declaration : Declaration} :
    program.function? name = some declaration ↔
      declaration ∈ program.functions ∧ declaration.name = some name := by
  rw [Program.function?_eq_some_iff]
  constructor
  · rintro ⟨front, back, hsplit, hname, -⟩
    exact ⟨hsplit ▸ List.mem_append_right front List.mem_cons_self, hname⟩
  · rintro ⟨hmem, hname⟩
    obtain ⟨front, back, hsplit⟩ := List.append_of_mem hmem
    refine ⟨front, back, hsplit, hname, fun later hlater hsame => ?_⟩
    have hnodup := h.functions
    rw [hsplit, List.filterMap_append, List.filterMap_cons_some hname] at hnodup
    refine (List.nodup_cons.1 (List.nodup_append.1 hnodup).2.1).1 ?_
    exact List.mem_filterMap.2 ⟨later, hlater, hsame⟩

theorem Unambiguous.function?_perm (h : program.Unambiguous)
    (hglobals : rearranged.globals.Perm program.globals)
    (hfunctions : rearranged.functions.Perm program.functions) (name : String) :
    rearranged.function? name = program.function? name := by
  refine Option.ext fun declaration => ?_
  rw [(h.perm hglobals hfunctions).function?_eq_some_iff, h.function?_eq_some_iff,
    hfunctions.mem_iff]

theorem ordered_functionTable (program : Program) : program.functionTable.Ordered := by
  refine Table.Ordered.foldl (fun table declaration htable => ?_) _ Table.ordered_empty
  unfold functionTable.register
  cases declaration.name with
  | none => exact htable
  | some name => exact htable.put name declaration

theorem ordered_holdingNothing (names : List String) :
    (started.holdingNothing names .empty).Ordered :=
  .foldl (fun _ name htable => htable.put name .none) names Table.ordered_empty

/-- The machine on which `main` is called does not depend on the order of the declarations. -/
theorem Unambiguous.started_perm (h : program.Unambiguous)
    (hglobals : rearranged.globals.Perm program.globals)
    (hfunctions : rearranged.functions.Perm program.functions) (console : Console) :
    rearranged.started console = program.started console := by
  have hvariables : started.holdingNothing rearranged.globalNames .empty =
      started.holdingNothing program.globalNames .empty := by
    refine Table.ext_get? (ordered_holdingNothing _) (ordered_holdingNothing _) fun name => ?_
    have hmem : name ∈ rearranged.globalNames ↔ name ∈ program.globalNames :=
      (hglobals.map Prod.fst).mem_iff
    simp only [get?_holdingNothing, hmem]
  have htable : rearranged.functionTable = program.functionTable := by
    refine Table.ext_get? rearranged.ordered_functionTable program.ordered_functionTable ?_
    intro name
    rw [get?_functionTable, get?_functionTable, h.function?_perm hglobals hfunctions]
  unfold started
  rw [hvariables, htable]

end Program

/-- The order of the declarations does not matter. If the names of a program are distinct and
free, then every rearrangement of its global variables and of its functions runs alike on a new
machine, with any streams: it ends with the same value or with the same error at the same
position, and leaves the same machine behind, on which the same has been written and read. -/
theorem declarations_in_any_order {program rearranged : Program} (h : program.Unambiguous)
    (hglobals : rearranged.globals.Perm program.globals)
    (hfunctions : rearranged.functions.Perm program.functions) (fuel : Nat) (console : Console) :
    rearranged.run fuel (.initial console) = program.run fuel (.initial console) := by
  have hrearranged := h.perm hglobals hfunctions
  calc rearranged.run fuel (.initial console)
    _ = rearranged.callMain fuel (rearranged.started console) :=
        Program.run_of_free hrearranged.globals hrearranged.free
    _ = rearranged.callMain fuel (program.started console) := by
        rw [h.started_perm hglobals hfunctions]
    _ = program.callMain fuel (program.started console) := by
        unfold Program.callMain
        rw [h.function?_perm hglobals hfunctions]
    _ = program.run fuel (.initial console) :=
        (Program.run_of_free h.globals h.free).symm

/-- The function that is run stands before the two that it uses, which call each other:
`global last; global calls; func main() .. func even(n) .. func odd(n) ..`. -/
def Program.mutuallyRecursive : Program where
  globals := [("last", ⟨1, 8⟩), ("calls", ⟨2, 8⟩)]
  functions :=
    [⟨0, ⟨3, 1⟩, some "main", [], .expr (.call ⟨4, 3⟩ (.named "print")
        [.call ⟨4, 9⟩ (.named "even") [.number ⟨4, 14⟩ 2], .name ⟨4, 18⟩ "last"])⟩,
      ⟨0, ⟨6, 1⟩, some "even", ["n"], step 7 true "odd"⟩,
      ⟨0, ⟨9, 1⟩, some "odd", ["n"], step 10 false "even"⟩]
where
  /-- The body `{ last = n; return n == 0 ? atZero : other(n - 1); }` of a function. -/
  step (line : Nat) (atZero : Bool) (other : String) : Stmt :=
    .block
      [.expr (.assign ⟨line, 3⟩ (.name ⟨line, 3⟩ "last") none (.name ⟨line, 10⟩ "n")),
        .returnStmt (some (.ternary ⟨line, 20⟩
          (.binary ⟨line, 20⟩ (.name ⟨line, 20⟩ "n") .eq (.number ⟨line, 25⟩ 0))
          (.boolean ⟨line, 29⟩ atZero)
          (.call ⟨line, 36⟩ (.named other)
            [.binary ⟨line, 42⟩ (.name ⟨line, 42⟩ "n") .sub (.number ⟨line, 46⟩ 1)])))]

/-- Every function is found wherever it stands. -/
theorem declarations_in_any_order_mutuallyRecursive :
    let program := Program.mutuallyRecursive
    let backwards : Program := ⟨program.globals.reverse, program.functions.reverse⟩
    let console := Console.ofInput []
    program.Unambiguous ∧
    (program.run 40 (.initial console)).state?.map (·.console.output) = some "true0" ∧
    backwards.run 40 (.initial console) = program.run 40 (.initial console) := by
  intro program backwards console
  have h : program.Unambiguous := ⟨by decide, by decide, by decide⟩
  exact ⟨h, by decide +kernel,
    declarations_in_any_order h (List.reverse_perm _) (List.reverse_perm _) 40 console⟩

end Betty

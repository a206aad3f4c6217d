import Betty.Proofs.Environment.Frames
import Mathlib.Data.List.Induction
import Mathlib.Logic.Function.Basic
import Mathlib.Tactic.Tauto

/-!
# Chains of frames form a tree

Blocks and calls put a new frame inside a chain that is active or that a function has kept,
and no other operation makes a chain. So the frames around a frame are those that were
around it when it was made: they are the same in every chain that the frame is part of, at
all times.

## Main definitions

* `ScopeOp`, `Scopes.run`: a row of operations on an environment.
* `Scopes.chains`: the chains that are in use after it.
* `Chain.Nested`: the frames around each frame of a chain are given by the frame alone.

## Main results

* `Scopes.run_nested`: so they are in all chains that are in use at any time.
* `scopes_form_tree`: each frame has one place in all chains that contain it.
-/

namespace Betty

/-! ### Operations on scopes -/

/-- An operation on an environment. Chains that have been captured, and those that calls have
saved, are numbered in the order in which they were made. -/
inductive ScopeOp where
  | push
  | pop
  | declareLocal (name : String) (value : Value)
  | declareGlobal (name : String) (value : Value)
  | set (name : String) (value : Value)
  | capture
  /-- A call of a function that has kept the given captured chain. -/
  | enterCall (captured : Nat)
  /-- The end of a call, back to the chain that it has saved. -/
  | leaveCall (saved : Nat)

/-- An environment, the chains that have been captured, and the chains that calls have
saved. -/
structure Scopes where
  environment : Environment
  captured : List Chain
  saved : List Chain

namespace Scopes

/-- The scopes before any operation. -/
def initial : Scopes := ⟨.empty, [], []⟩

/-- The scopes after an operation. A global variable that exists already is not declared
again, and a chain that does not exist is not entered. -/
def apply (scopes : Scopes) : ScopeOp → Scopes
  | .push => { scopes with environment := scopes.environment.push }
  | .pop => { scopes with environment := scopes.environment.pop }
  | .declareLocal name value =>
    { scopes with environment := scopes.environment.declareLocal name value }
  | .declareGlobal name value =>
    match scopes.environment.declareGlobal name value with
    | .ok environment => { scopes with environment }
    | .error _ => scopes
  | .set name value => { scopes with environment := scopes.environment.set name value }
  | .capture => { scopes with captured := scopes.captured ++ [scopes.environment.capture] }
  | .enterCall index =>
    match scopes.captured[index]? with
    | some chain =>
      { scopes with
        environment := scopes.environment.enterCall chain
        saved := scopes.saved ++ [scopes.environment.chain] }
    | none => scopes
  | .leaveCall index =>
    match scopes.saved[index]? with
    | some chain => { scopes with environment := scopes.environment.leaveCall chain }
    | none => scopes

/-- The scopes after a row of operations. -/
def run (ops : List ScopeOp) : Scopes :=
  ops.foldl apply initial

/-- The chains in use: the active one, those that have been captured, and those that calls
have saved. -/
def chains (scopes : Scopes) : List Chain :=
  scopes.environment.chain :: (scopes.captured ++ scopes.saved)

/-- How many frames there are. -/
abbrev size (scopes : Scopes) : Nat :=
  scopes.environment.frames.size

/-- What an operation does to the chains: those in use afterwards were in use before, or are
a part of one that was, or have a new frame inside one that was. -/
theorem apply_chains (scopes : Scopes) (op : ScopeOp) :
    (scopes.apply op).size = scopes.size ∧
        (∀ chain ∈ (scopes.apply op).chains, ∃ old ∈ scopes.chains, chain <:+ old) ∨
      (scopes.apply op).size = scopes.size + 1 ∧
        ∃ outside ∈ scopes.chains, ∀ chain ∈ (scopes.apply op).chains,
          chain = scopes.size :: outside ∨ chain ∈ scopes.chains := by
  have same : ∀ after : Scopes, after.chains ⊆ scopes.chains →
      ∀ chain ∈ after.chains, ∃ old ∈ scopes.chains, chain <:+ old :=
    fun _ hsub chain hchain => ⟨chain, hsub hchain, List.suffix_rfl⟩
  cases op with
  | push =>
    refine .inr ⟨scopes.environment.size_push, scopes.environment.chain, List.mem_cons_self, ?_⟩
    rintro chain (_ | ⟨_, hchain⟩)
    · exact .inl rfl
    · exact .inr (List.mem_cons_of_mem _ hchain)
  | pop =>
    refine .inl ⟨rfl, ?_⟩
    rintro chain (_ | ⟨_, hchain⟩)
    · exact ⟨scopes.environment.chain, List.mem_cons_self, List.tail_suffix _⟩
    · exact ⟨chain, List.mem_cons_of_mem _ hchain, List.suffix_rfl⟩
  | declareLocal name value =>
    exact .inl ⟨scopes.environment.size_declareLocal name value, same _ (by simp [chains, apply])⟩
  | declareGlobal name value =>
    simp only [apply]
    split
    · next env hdeclared =>
      have hbound : env = scopes.environment.bindGlobal name value := by
        unfold Environment.declareGlobal at hdeclared
        split at hdeclared <;> cases hdeclared
        rfl
      subst hbound
      exact .inl ⟨rfl, same _ (by simp [chains, Environment.bindGlobal])⟩
    · exact .inl ⟨rfl, same _ fun _ h => h⟩
  | set name value =>
    exact .inl ⟨scopes.environment.size_set name value, same _ (by simp [chains, apply])⟩
  | capture =>
    refine .inl ⟨rfl, same _ fun chain hchain => ?_⟩
    simp only [chains, apply, Environment.capture, List.mem_cons, List.mem_append] at hchain ⊢
    tauto
  | enterCall index =>
    simp only [apply]
    split
    · next captured hcaptured =>
      have hmem : captured ∈ scopes.chains :=
        List.mem_cons_of_mem _ (List.mem_append_left _ (List.mem_of_getElem? hcaptured))
      refine .inr ⟨Environment.size_push _, captured, hmem, ?_⟩
      intro chain hchain
      simp only [chains, List.mem_cons, List.mem_append] at hchain ⊢
      rcases hchain with rfl | hchain
      · exact .inl rfl
      · exact .inr (by tauto)
    · exact .inl ⟨rfl, same _ fun _ h => h⟩
  | leaveCall index =>
    simp only [apply]
    split
    · next saved hsaved =>
      refine .inl ⟨rfl, same _ fun chain hchain => ?_⟩
      have hmem := List.mem_of_getElem? hsaved
      simp only [chains, Environment.leaveCall, List.mem_cons, List.mem_append] at hchain ⊢
      rcases hchain with rfl | hchain
      · exact .inr (.inr hmem)
      · exact .inr hchain
    · exact .inl ⟨rfl, same _ fun _ h => h⟩

theorem run_append_singleton (ops : List ScopeOp) (op : ScopeOp) :
    run (ops ++ [op]) = (run ops).apply op := by
  simp [run]

theorem size_le_apply (scopes : Scopes) (op : ScopeOp) : scopes.size ≤ (scopes.apply op).size := by
  rcases scopes.apply_chains op with ⟨hsize, _⟩ | ⟨hsize, _⟩
  · exact Nat.le_of_eq hsize.symm
  · exact hsize ▸ Nat.le_succ _

end Scopes

/-! ### Nested chains -/

/-- The frames around each frame of the chain are those that `outer` gives, and they are
older. -/
def Chain.Nested (outer : FrameRef → Chain) : Chain → Prop
  | [] => True
  | ref :: outside =>
    outer ref = outside ∧ (∀ other ∈ outside, other < ref) ∧ Chain.Nested outer outside

namespace Chain.Nested

variable {outer outer' : FrameRef → Chain} {chain : Chain}

theorem of_suffix (h : chain.Nested outer) {inner : Chain} (hsuffix : inner <:+ chain) :
    inner.Nested outer := by
  induction chain with
  | nil =>
    rw [List.suffix_nil.1 hsuffix]
    trivial
  | cons ref outside ih =>
    rcases List.suffix_cons_iff.1 hsuffix with rfl | hsuffix
    · exact h
    · exact ih h.2.2 hsuffix

theorem congr (h : chain.Nested outer) (hagree : ∀ ref ∈ chain, outer' ref = outer ref) :
    chain.Nested outer' := by
  induction chain with
  | nil => trivial
  | cons ref outside ih =>
    obtain ⟨hhere, hthere⟩ := List.forall_mem_cons.1 hagree
    exact ⟨hhere.trans h.1, h.2.1, ih h.2.2 hthere⟩

theorem nodup (h : chain.Nested outer) : chain.Nodup := by
  induction chain with
  | nil => exact List.nodup_nil
  | cons ref outside ih =>
    refine List.nodup_cons.2 ⟨fun hmem => ?_, ih h.2.2⟩
    exact Nat.lt_irrefl ref (h.2.1 ref hmem)

/-- What is outside a frame of the chain. -/
theorem outside_eq (h : chain.Nested outer) {inside outside : Chain} {ref : FrameRef}
    (hchain : chain = inside ++ ref :: outside) : outside = outer ref :=
  (of_suffix h ⟨inside, hchain.symm⟩).1.symm

/-- The place of a frame in the chain, counted from the outermost frame. -/
theorem place (h : chain.Nested outer) {index : Nat} {ref : FrameRef}
    (href : chain.reverse[index]? = some ref) :
    index = (outer ref).length ∧ chain.reverse.take index = (outer ref).reverse := by
  obtain ⟨hindex, rfl⟩ := List.getElem?_eq_some_iff.1 href
  have hsplit : chain = (chain.reverse.drop (index + 1)).reverse ++
      chain.reverse[index] :: (chain.reverse.take index).reverse := by
    have hcut := (List.take_append_drop index chain.reverse).symm
    rw [List.drop_eq_getElem_cons hindex] at hcut
    simpa using congrArg List.reverse hcut
  have houter := h.outside_eq hsplit
  rw [← houter, List.length_reverse, List.reverse_reverse, List.length_take]
  exact ⟨(Nat.min_eq_left (Nat.le_of_lt hindex)).symm, rfl⟩

end Chain.Nested

/-! ### Runs -/

/-- All chains in use are nested as `outer` says, and consist of frames that exist. -/
structure Scopes.Nested (outer : FrameRef → Chain) (scopes : Scopes) : Prop where
  chains : ∀ chain ∈ scopes.chains, chain.Nested outer
  frames : ∀ chain ∈ scopes.chains, ∀ ref ∈ chain, ref < scopes.size

namespace Scopes

variable {outer : FrameRef → Chain} {scopes : Scopes}

theorem Nested.congr (h : scopes.Nested outer) {outer' : FrameRef → Chain}
    (hagree : ∀ ref < scopes.size, outer' ref = outer ref) : scopes.Nested outer' :=
  ⟨fun chain hchain => (h.chains chain hchain).congr fun ref href =>
    hagree ref (h.frames chain hchain ref href), h.frames⟩

/-- An operation leaves chains that are nested: what is around the frames that existed stays
as it was, and a new frame is put inside one of the chains. -/
theorem Nested.apply (h : scopes.Nested outer) (op : ScopeOp) :
    ∃ outer', (∀ ref < scopes.size, outer' ref = outer ref) ∧
      (scopes.apply op).Nested outer' := by
  rcases scopes.apply_chains op with ⟨hsize, hold⟩ | ⟨hsize, outside, hmem, hnew⟩
  -- All chains are parts of earlier ones.
  · refine ⟨outer, fun _ _ => rfl, fun chain hchain => ?_, fun chain hchain ref href => ?_⟩
    · obtain ⟨old, hin, hsuffix⟩ := hold chain hchain
      exact (h.chains old hin).of_suffix hsuffix
    · obtain ⟨old, hin, hsuffix⟩ := hold chain hchain
      rw [hsize]
      exact h.frames old hin ref (hsuffix.mem href)
  -- There is a new frame, and `outside` is around it.
  · have hagree : ∀ ref < scopes.size,
        Function.update outer scopes.size outside ref = outer ref :=
      fun ref href => Function.update_of_ne (Nat.ne_of_lt href) _ _
    refine ⟨Function.update outer scopes.size outside, hagree, fun chain hchain => ?_,
      fun chain hchain ref href => ?_⟩
    · rcases hnew chain hchain with rfl | hin
      · exact ⟨Function.update_self _ _ _, h.frames outside hmem,
          (h.congr hagree).chains outside hmem⟩
      · exact (h.congr hagree).chains chain hin
    · rw [hsize]
      rcases hnew chain hchain with rfl | hin
      · rcases List.mem_cons.1 href with rfl | href
        · exact Nat.lt_succ_self _
        · exact Nat.lt_succ_of_lt (h.frames outside hmem ref href)
      · exact Nat.lt_succ_of_lt (h.frames chain hin ref href)

/-- The chains that are in use at any time of a run are nested in one and the same way. -/
theorem run_nested (ops : List ScopeOp) :
    ∃ outer, ∀ early, early <+: ops →
      (run early).Nested outer ∧ (run early).size ≤ (run ops).size := by
  induction ops using List.reverseRecOn with
  | nil =>
    refine ⟨fun _ => [], fun early hearly => ?_⟩
    rw [List.prefix_nil.1 hearly]
    exact ⟨⟨by simp [run, initial, Scopes.chains, Environment.empty, Chain.Nested],
      by simp [run, initial, Scopes.chains, Environment.empty]⟩, Nat.le_refl _⟩
  | append_singleton ops op ih =>
    obtain ⟨outer, hall⟩ := ih
    obtain ⟨outer', hagree, hafter⟩ := (hall ops List.prefix_rfl).1.apply op
    refine ⟨outer', fun early hearly => ?_⟩
    rw [run_append_singleton]
    rcases List.prefix_concat_iff.1 hearly with rfl | hearly
    · rw [run_append_singleton]
      exact ⟨hafter, Nat.le_refl _⟩
    -- The chains of earlier times have only frames whose surroundings the step keeps.
    · obtain ⟨hnested, hsize⟩ := hall early hearly
      exact ⟨hnested.congr fun ref href => hagree ref (Nat.lt_of_lt_of_le href hsize),
        Nat.le_trans hsize ((run ops).size_le_apply op)⟩

end Scopes

/-- Chains of frames form a tree. In whatever order the operations come, and at whatever
times of the run two chains are in use: no frame stands twice in a chain; a frame of both
chains stands at the same place in both, counted from the outermost frame, with the same
frames outside it; the frame next to it outside is its `parent`, at all times; and names have
the same values from it outwards. -/
theorem scopes_form_tree (ops : List ScopeOp) :
    ∃ parent : FrameRef → Option FrameRef, ∀ early late, early <+: ops → late <+: ops →
      ∀ chain ∈ (Scopes.run early).chains, ∀ chain' ∈ (Scopes.run late).chains,
        chain.Nodup ∧
        (∀ inside ref outside, chain = inside ++ ref :: outside → outside.head? = parent ref) ∧
        (∀ index index' ref, chain.reverse[index]? = some ref →
          chain'.reverse[index']? = some ref →
          index = index' ∧ chain.reverse.take index = chain'.reverse.take index') ∧
        ∀ inside inside' ref outside outside', chain = inside ++ ref :: outside →
          chain' = inside' ++ ref :: outside' → ∀ (env : Environment) (name : String),
            { env with chain := ref :: outside }.get? name =
              { env with chain := ref :: outside' }.get? name := by
  obtain ⟨outer, hall⟩ := Scopes.run_nested ops
  refine ⟨fun ref => (outer ref).head?,
    fun early late hearly hlate chain hchain chain' hchain' => ?_⟩
  have hnested := (hall early hearly).1.chains chain hchain
  have hnested' := (hall late hlate).1.chains chain' hchain'
  refine ⟨hnested.nodup, ?_, ?_, ?_⟩
  · intro inside ref outside hsplit
    rw [hnested.outside_eq hsplit]
  · intro index index' ref href href'
    obtain ⟨hindex, htake⟩ := hnested.place href
    obtain ⟨hindex', htake'⟩ := hnested'.place href'
    exact ⟨hindex.trans hindex'.symm, htake.trans htake'.symm⟩
  · intro inside inside' ref outside outside' hsplit hsplit' env name
    rw [hnested.outside_eq hsplit, hnested'.outside_eq hsplit']

/-- A function is created in a block and called from a block inside it. -/
def ScopeOp.callFromInnerBlock : List ScopeOp :=
  [.push, .declareLocal "x" .none, .capture, .push, .enterCall 0]

/-- The frames of the inner block and of the call have the same parent. -/
theorem scopes_form_tree_callFromInnerBlock :
    ∃ parent : FrameRef → Option FrameRef,
      [1, 0] ∈ (Scopes.run ScopeOp.callFromInnerBlock).chains ∧
      [2, 0] ∈ (Scopes.run ScopeOp.callFromInnerBlock).chains ∧
      parent 1 = some 0 ∧ parent 2 = some 0 ∧
      ∀ index index' : Nat, [0, 1][index]? = some 0 → [0, 2][index']? = some 0 →
        index = index' := by
  obtain ⟨parent, htree⟩ := scopes_form_tree ScopeOp.callFromInnerBlock
  have hblock : [1, 0] ∈ (Scopes.run ScopeOp.callFromInnerBlock).chains := by decide
  have hcall : [2, 0] ∈ (Scopes.run ScopeOp.callFromInnerBlock).chains := by decide
  have hboth := htree _ _ List.prefix_rfl List.prefix_rfl
  obtain ⟨_, hparent, hplace, _⟩ := hboth _ hblock _ hcall
  obtain ⟨_, hparent', _⟩ := hboth _ hcall _ hcall
  refine ⟨parent, hblock, hcall, (hparent [] 1 [0] rfl).symm, (hparent' [] 2 [0] rfl).symm, ?_⟩
  exact fun index index' hindex hindex' => (hplace index index' 0 hindex hindex').1

end Betty

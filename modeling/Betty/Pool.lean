/-!
# Interned texts

A text is created once: the pool keeps it under a number, and creating it again gives the
same number. Texts are compared by their numbers. A number has 32 bits, so the pool has
numbers of its own for the first 2³² texts only, and goes round after that.

## Main definitions

* `Interned`: a text as a value, with its number.
* `Pool`: the texts that have been created.
* `Pool.intern`: creates a text.
-/

namespace Betty

/-- A text that has been created: its number, and what the pool has under that number. -/
structure Interned where
  id : UInt32
  text : String
deriving DecidableEq, Repr

/-- The texts that have been created, in this order, each of them once. -/
structure Pool where
  texts : Array String
  distinct : texts.toList.Nodup

namespace Pool

/-- The pool without texts. -/
def empty : Pool := ⟨#[], .nil⟩

instance : Inhabited Pool := ⟨empty⟩

/-- What the pool has at a place. Only the lowest 32 bits of the place count. -/
def entry (pool : Pool) (place : Nat) : Interned :=
  let id := place.toUInt32
  ⟨id, pool.texts.getD id.toNat ""⟩

/-- The pool with a text that it does not have yet. -/
def extend (pool : Pool) (text : String) (fresh : text ∉ pool.texts) : Pool where
  texts := pool.texts.push text
  distinct := by
    rw [Array.toList_push, List.nodup_append]
    refine ⟨pool.distinct, List.pairwise_singleton _ _, fun found hfound last hlast => ?_⟩
    rw [List.mem_singleton.1 hlast]
    exact fun heq => fresh (heq ▸ Array.mem_toList_iff.1 hfound)

/-- Creates a text, unless the pool has it already. -/
def intern (pool : Pool) (text : String) : Interned × Pool :=
  match h : pool.texts.idxOf? text with
  | some place => (pool.entry place, pool)
  | none =>
    let extended := pool.extend text (Array.idxOf?_eq_none_iff.1 h)
    (extended.entry pool.texts.size, extended)

end Pool

end Betty

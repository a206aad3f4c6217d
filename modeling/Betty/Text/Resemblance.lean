/-!
# Words that resemble each other

Two words resemble each other if they share most of their characters at about the same
places and in about the same order: their Jaro similarity is at least seven tenths. This
tells a misspelled word from an unrelated one.
-/

namespace Betty.Text

/-- Pairs characters of a word with equal ones of `target` that are at most `reach` places
away, each with the first one that is still free: the positions in `target`, in the order
of the word. `place` is the position of the first character of the rest of the word. -/
def partners (target : List Char) (reach : Nat) : Nat → List Nat → List Char → List Nat
  | _, used, [] => used.reverse
  | place, used, c :: rest =>
    let near := (List.range (min target.length (place + reach + 1))).drop (place - reach)
    match near.find? fun i => target[i]? == some c && !used.contains i with
    | some i => partners target reach (place + 1) (i :: used) rest
    | none => partners target reach (place + 1) used rest

/-- Is the Jaro similarity of two words at least seven tenths? It is the mean of three
shares: the paired characters among those of either word, and among the paired ones those
that are in order, where two characters out of order count as one. -/
def resembles (word target : List Char) : Bool :=
  let reach := max word.length target.length / 2 - 1
  let paired := partners target reach 0 [] word
  let displaced := (paired.zip (paired.mergeSort (· ≤ ·))).countP fun (i, j) =>
    target[i]? != target[j]?
  let count := paired.length
  let shares :=
    count * count * target.length + count * count * word.length +
      (count - displaced / 2) * word.length * target.length
  count != 0 && 21 * word.length * target.length * count ≤ 10 * shares

end Betty.Text

/-!
# Positions in a source text

Lines and columns count from one. A column counts characters, a tab being one of
them, and only a line feed ends a line. Line zero marks a position that is not
known.
-/

namespace Betty

/-- A place in a source text. -/
structure Position where
  line : Nat
  column : Nat
deriving DecidableEq, Repr, Inhabited

namespace Position

/-- The position of something that has no place in a source text. -/
def unknown : Position := ⟨0, 0⟩

/-- The position of the first character of a text. -/
def start : Position := ⟨1, 1⟩

/-- Is this a place in a text? -/
def isKnown (p : Position) : Bool :=
  p.line != 0

/-- The position after the character `c`. -/
def after (p : Position) (c : Char) : Position :=
  if c = '\n' then ⟨p.line + 1, 1⟩ else ⟨p.line, p.column + 1⟩

/-- The position after a row of characters. -/
def afterAll (p : Position) (cs : List Char) : Position :=
  cs.foldl after p

/-- Positions are ordered as they stand in the text: by line, then by column. -/
def le (p q : Position) : Bool :=
  p.line < q.line || (p.line == q.line && p.column ≤ q.column)

/-- `p` if it is known, and otherwise `q`. -/
def orElse (p q : Position) : Position :=
  if p.isKnown then p else q

end Position

end Betty

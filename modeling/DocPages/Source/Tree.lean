/-
The declarations of a source unit as a tree. `members` reads the members of
one scope and, by way of the headers that open scopes, of every scope within
it; `Tree.ofSource` is the whole unit. Reading has no errors: what is no
declaration is passed over.
-/
import DocPages.Source.Header

namespace DocPages.Source

/-! ## Members of a scope -/

/-- What is next in a scope. -/
inductive Item where
  /-- The brace that closes the scope. -/
  | close
  /-- Tokens that make no node. -/
  | skipped (next : Cursor)
  | member (header : Header)

/-- What is next in a scope with the name `owner?`, at a cursor whose next token is `t`. A closing brace that
nothing has opened is passed over. -/
def itemAt (owner? : Option String) (braced : Bool) (c : Cursor) (t : Token) : Item :=
  if t.kind = .rbrace && braced then .close
  else if t.kind = .rbrace || t.kind = .semi then .skipped (c.advance 1)
  else if t.kind = .lbrace then .skipped (c.advance (groupReach c.rest))
  else if atImport c.rest then .skipped (c.advance (statementReach c.rest))
  else .member ((memberHeader owner?).run c)

theorem itemAt_enters {owner? : Option String} {braced : Bool} {c : Cursor} {t : Token} {h : Header}
    {s : Scope} (hi : itemAt owner? braced c t = .member h) (hs : h.scope? = some s) :
    h.next.rest.length < c.rest.length := by
  unfold itemAt at hi
  repeat' split at hi
  all_goals cases hi
  exact (memberHeader owner?).enters c (by rw [hs]; rfl)

/-- The members from a cursor on, and where the scope ends: before its closing brace if it is braced, at
the end of the tokens otherwise. -/
def members (owner? : Option String) (braced : Bool) (c : Cursor) : List Node × Cursor :=
  match hc : c.rest with
  | [] => ([], c)
  | t :: _ =>
    have past := Cursor.past_shorter (c := c) (by simp [hc])
    match hi : itemAt owner? braced c t with
    | .close => ([], c)
    | .skipped d => members owner? braced (c.past d)
    | .member h =>
      match hs : h.scope? with
      | none =>
        let others := members owner? braced (c.past h.next)
        (h.parts.node h.kind c.pos h.next.pos :: others.1, others.2)
      | some s =>
        have := itemAt_enters hi hs
        let inner := members s.owner? s.isBraced h.next
        let closed := s.close.run inner.2
        let parts := h.parts ++ ⟨[], none, inner.1⟩ ++ closed.1
        let others := members owner? braced (c.past closed.2)
        (parts.node h.kind c.pos closed.2.pos :: others.1, others.2)
termination_by c.rest.length
decreasing_by all_goals first | exact past _ | assumption

/-! ## Trees -/

/-- A source unit: its tokens and its nodes. -/
structure Tree where
  tokens : List Token
  root : Node

namespace Tree

def ofTokens (ts : List Token) : Tree :=
  let unit := members none false ⟨0, ts⟩
  ⟨ts, (⟨[], none, unit.1⟩ : Parts).node .compilationUnit 0 unit.2.pos⟩

def ofSource (source : String) : Tree :=
  ofTokens (TokenStream.ofSource source).tokens

/-- The nodes in document order, the root first. -/
def places (tree : Tree) : List Place :=
  tree.root.places

/-! ## The text of a node -/

/-- The tokens that a node covers. -/
def tokensOf (tree : Tree) (n : Node) : List Token :=
  (tree.tokens.drop n.start).take (n.stop - n.start)

/-- The text of the token with an index. -/
def textAt (tree : Tree) (i : Nat) : String :=
  tree.tokens[i]?.elim "" (·.text)

/-- The name of a declaration or a parameter. -/
def name? (tree : Tree) (n : Node) : Option String :=
  n.name?.map tree.textAt

/-- The name of a node, empty if it has none. -/
def nameOf (tree : Tree) (n : Node) : String :=
  (tree.name? n).getD ""

def modifiersOf (tree : Tree) (n : Node) : List String :=
  n.modifiers.map tree.textAt

/-- The source of a node on one line. -/
def text (tree : Tree) (n : Node) : String :=
  Token.joined (tree.tokensOf n)

/-- The trivia in front of a node; a node without tokens has none. -/
def leading (tree : Tree) (n : Node) : List Trivia :=
  (tree.tokensOf n).head?.elim [] (·.leading)

/-- The trivia after a node, to the end of its last line. -/
def trailing (tree : Tree) (n : Node) : List Trivia :=
  (tree.tokensOf n).getLast?.elim [] (·.trailing)

end Tree

end DocPages.Source

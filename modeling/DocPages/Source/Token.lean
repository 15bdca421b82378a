/-
Tokens with the trivia around them. Trivia that follows a token on its own
line, the end of the line included, trails that token; all other trivia leads
the token after it. What stands after the last token's line belongs to no
token (`TokenStream.tail`).
-/
import DocPages.Source.Lexeme

namespace DocPages.Source

structure Trivia where
  kind : TriviaKind
  text : String
deriving DecidableEq, Repr

/-- A significant token. -/
structure Token where
  kind : TokenKind
  text : String
  /-- What stands between the end of the previous token's line and this token. -/
  leading : List Trivia
  /-- What stands between this token and the end of its line, that end included. -/
  trailing : List Trivia
deriving DecidableEq, Repr

/-- All tokens of a source, and the trivia that no token owns. -/
structure TokenStream where
  tokens : List Token
  tail : List Trivia
deriving DecidableEq, Repr

/-! ## From lexemes to tokens -/

/-- A token without its trivia. -/
structure BareToken where
  kind : TokenKind
  text : String
deriving DecidableEq, Repr

/-- Lexemes as runs: the trivia before the first token, and each token with the trivia up to the next one. -/
def runs : List Lexeme → List Trivia × List (BareToken × List Trivia)
  | [] => ([], [])
  | ⟨.trivia kind, text⟩ :: rest =>
    let (first, others) := runs rest
    (⟨kind, text⟩ :: first, others)
  | ⟨.token kind, text⟩ :: rest =>
    let (first, others) := runs rest
    ([], (⟨kind, text⟩, first) :: others)

/-- The part of a run that lies on the line the run begins on, the end of that line included. -/
def lineOf : List Trivia → List Trivia
  | [] => []
  | t :: rest => if t.kind = .endOfLine then [t] else t :: lineOf rest

/-- The part of a run after the line it begins on. -/
def afterLine : List Trivia → List Trivia
  | [] => []
  | t :: rest => if t.kind = .endOfLine then rest else afterLine rest

theorem lineOf_append_afterLine (run : List Trivia) : lineOf run ++ afterLine run = run := by
  induction run with
  | nil => rfl
  | cons t rest ih =>
    unfold lineOf afterLine
    split <;> simp [ih]

/-- Shares each run between the token before it and the token after it. -/
def attach (leading : List Trivia) : List (BareToken × List Trivia) → TokenStream
  | [] => ⟨[], leading⟩
  | (t, run) :: rest =>
    let others := attach (afterLine run) rest
    ⟨⟨t.kind, t.text, leading, lineOf run⟩ :: others.tokens, others.tail⟩

def TokenStream.ofLexemes (ls : List Lexeme) : TokenStream :=
  let (first, others) := runs ls
  attach first others

def TokenStream.ofSource (source : String) : TokenStream :=
  .ofLexemes (lexemes source.toList)

/-! ## Questions about a token -/

namespace Token

/-- An opening brace, parenthesis or bracket. Angle brackets are not grouping marks by themselves. -/
def isOpen (t : Token) : Bool :=
  t.kind = .lbrace || t.kind = .lparen || t.kind = .lbracket

def isClose (t : Token) : Bool :=
  t.kind = .rbrace || t.kind = .rparen || t.kind = .rbracket

/-- The token is the word `w`. -/
def isWord (w : String) (t : Token) : Bool :=
  t.kind = .ident && t.text == w

/-- The token is the operator character `p`. -/
def isPunct (p : String) (t : Token) : Bool :=
  t.kind = .punct && t.text == p

/-- Texts on one line: a single space wherever the source has trivia between two tokens, nothing elsewhere. -/
def joined : List Token → String
  | [] => ""
  | t :: rest => rest.head?.elim t.text fun u =>
    t.text ++ (if t.trailing.isEmpty && u.leading.isEmpty then "" else " ") ++ joined rest

end Token

end DocPages.Source

/-
How far the parts of a declaration reach, as counts of tokens. These are the
parts whose inside is of no interest: bracketed groups, types, clauses, values
and the rest of members that have no page. Each count is made by looking ahead
only, and none goes beyond the tokens there are.
-/
import DocPages.Source.Token

namespace DocPages.Source

/-- The first token is of kind `k`. -/
def atKind (k : TokenKind) (ts : List Token) : Bool :=
  ts.head?.any (·.kind = k)

/-- The first token is the word `w`. -/
def atWord (w : String) (ts : List Token) : Bool :=
  ts.head?.any (·.isWord w)

/-! ## Groups -/

/-- The tokens up to the mark that closes the innermost `depth` open groups. The marks only count up and
down: one kind may close another. -/
def closeReach (depth : Nat) : List Token → Nat
  | [] => 0
  | t :: rest =>
    if t.isOpen then 1 + closeReach (depth + 1) rest
    else if t.isClose then (if depth ≤ 1 then 1 else 1 + closeReach (depth - 1) rest)
    else 1 + closeReach depth rest

/-- What belongs to the item that `t` begins, after `t` itself: the rest of its group if it opens one. -/
def itemReach (t : Token) (rest : List Token) : Nat :=
  if t.isOpen then closeReach 1 rest else 0

/-- The item at the front: a group or a single token. -/
def groupReach : List Token → Nat
  | [] => 0
  | t :: rest => 1 + itemReach t rest

/-- A run of items. `more t rest` is how many tokens after `t` belong to the item it begins, or none
where the run ends. -/
def runReach (more : Token → List Token → Option Nat) : List Token → Nat
  | [] => 0
  | t :: rest =>
    match more t rest with
    | none => 0
    | some n => 1 + n + runReach more (rest.drop n)
termination_by ts => ts.length
decreasing_by simp only [List.length_drop, List.length_cons]; omega

/-- The items before a token that `stop` tells, or before the mark that closes the surrounding group. -/
def untilReach (stop : Token → Bool) (ts : List Token) : Nat :=
  runReach (fun t rest => if stop t || t.isClose then none else some (itemReach t rest)) ts

/-- Everything through the next semicolon of this depth. -/
def statementReach (ts : List Token) : Nat :=
  let n := untilReach (·.kind = .semi) ts
  if atKind .semi (ts.drop n) then n + 1 else n

/-- The rest of a member of no interest: through a semicolon or a braced group, and a semicolon after that. -/
def memberReach (ts : List Token) : Nat :=
  let n := runReach (fun t rest =>
    if t.kind = .rbrace || t.kind = .semi || t.kind = .lbrace then none else some (itemReach t rest)) ts
  match ts.drop n with
  | [] => n
  | t :: rest =>
    if t.kind = .semi then n + 1
    else if t.kind = .lbrace then
      let m := n + 1 + itemReach t rest
      if atKind .semi (ts.drop m) then m + 1 else m
    else n

/-! ## Angle brackets -/

/-- What follows an opening angle bracket, through the bracket that closes the innermost `depth` of them.
Parenthesised and bracketed groups are passed over; a brace or a semicolon ends the search. -/
def angleReach (depth : Nat) : List Token → Nat
  | [] => 0
  | t :: rest =>
    match t.kind with
    | .lt => 1 + angleReach (depth + 1) rest
    | .gt => if depth ≤ 1 then 1 else 1 + angleReach (depth - 1) rest
    | .lparen | .lbracket =>
      let n := itemReach t rest
      1 + n + angleReach depth (rest.drop n)
    | .lbrace | .rbrace | .semi => 0
    | _ => 1 + angleReach depth rest
termination_by ts => ts.length
decreasing_by all_goals (simp only [List.length_drop, List.length_cons]; omega)

/-- Like `angleReach`, with groups looked into instead of passed over. -/
def flatAngleReach (depth : Nat) : List Token → Nat
  | [] => 0
  | t :: rest =>
    match t.kind with
    | .lt => 1 + flatAngleReach (depth + 1) rest
    | .gt => if depth ≤ 1 then 1 else 1 + flatAngleReach (depth - 1) rest
    | .lbrace | .rbrace | .semi => 0
    | _ => 1 + flatAngleReach depth rest

/-- The tokens that type arguments are made of, brackets of ranks included. -/
def Token.isTypeArgumentPart (t : Token) : Bool :=
  t.kind = .ident || t.kind = .comma || t.kind = .dot || t.kind = .question || t.kind = .lbracket ||
    t.kind = .rbracket

/-- What follows an opening angle bracket, through the one that closes it, if everything between can only
be type arguments. None tells that the bracket is a comparison. -/
def typeArgumentsReach (depth : Nat) : List Token → Option Nat
  | [] => none
  | t :: rest =>
    if t.kind = .lt then (typeArgumentsReach (depth + 1) rest).map (1 + ·)
    else if t.kind = .gt then
      if depth ≤ 1 then some 1 else (typeArgumentsReach (depth - 1) rest).map (1 + ·)
    else if t.isTypeArgumentPart then (typeArgumentsReach depth rest).map (1 + ·)
    else none

/-- The angle-bracketed list at the front, if there is one. -/
def angleListReach : List Token → Nat
  | [] => 0
  | t :: rest => if t.kind = .lt then 1 + angleReach 1 rest else 0

/-! ## Names and types -/

/-- A dotted name. A dot after its last part belongs to it. -/
def dottedReach : List Token → Nat
  | [] => 0
  | [t] => if t.kind = .ident then 1 else 0
  | t :: u :: rest =>
    if t.kind = .ident then (if u.kind = .dot then 2 + dottedReach rest else 1) else 0

/-- The rest of a path after one of its parts: type arguments, and further parts after a dot or two colons. -/
def pathReach (ts : List Token) : Nat :=
  let n := angleListReach ts
  match h : ts.drop n with
  | a :: b :: rest =>
    if a.kind = .dot && b.kind = .ident then n + 2 + pathReach rest
    else if a.kind = .colon && b.kind = .colon && atKind .ident rest then n + 3 + pathReach rest.tail
    else n
  | _ => n
termination_by ts.length
decreasing_by
  all_goals
    have hl := congrArg List.length h
    have ht := List.length_tail (l := rest)
    simp only [List.length_drop, List.length_cons] at hl
    omega

/-- The words before a type that is returned by reference. -/
def refReach : List Token → Nat
  | [] => 0
  | t :: rest => if t.isWord "ref" then (if atWord "readonly" rest then 2 else 1) else 0

/-- A type without its suffixes: a parenthesised group or a path. -/
def bareTypeReach : List Token → Nat
  | [] => 0
  | t :: rest =>
    if t.kind = .lparen then 1 + itemReach t rest
    else if t.kind = .ident then 1 + pathReach rest
    else 0

/-- Marks after a type: nullable, pointer and array ranks. -/
def typeSuffixReach (ts : List Token) : Nat :=
  runReach (fun t rest =>
    if t.kind = .question || t.isPunct "*" then some 0
    else if t.kind = .lbracket && (atKind .rbracket rest || atKind .comma rest) then some (itemReach t rest)
    else none) ts

/-- A type. -/
def typeReach (ts : List Token) : Nat :=
  let n := refReach ts
  let m := n + bareTypeReach (ts.drop n)
  m + typeSuffixReach (ts.drop m)

/-- The interface in front of a member's name, through its last dot; nothing if no part is followed by a dot. -/
def interfaceReach : List Token → Nat
  | [] => 0
  | t :: rest =>
    if t.kind = .ident then
      let n := if atKind .lt rest then 1 + flatAngleReach 1 rest.tail else 0
      match rest.drop n with
      | u :: _ => if u.kind = .dot then 2 + n + interfaceReach (rest.drop (n + 1)) else 0
      | [] => 0
    else 0
termination_by ts => ts.length
decreasing_by simp only [List.length_drop, List.length_cons]; omega

/-! ## Clauses and values -/

/-- The inside of a clause after its first token: up to a token of one of the kinds `stops`, the next
constraint, or the mark that closes the surrounding group. -/
def clauseReach (stops : List TokenKind) (ts : List Token) : Nat :=
  runReach (fun t rest =>
    if stops.contains t.kind || t.isWord "where" then none
    else if t.kind = .lt then some (angleReach 1 rest)
    else if t.isClose then none
    else some (itemReach t rest)) ts

/-- A list of base types, the colon included. -/
def baseListReach (ts : List Token) : Nat :=
  1 + clauseReach [.lbrace, .semi] ts.tail

/-- A constraint on a type parameter, its first word included. -/
def constraintReach (ts : List Token) : Nat :=
  1 + clauseReach [.lbrace, .semi, .fatArrow] ts.tail

/-- The value of an optional parameter. Commas inside type arguments do not end it. -/
def defaultReach (ts : List Token) : Nat :=
  runReach (fun t rest =>
    if t.kind = .comma || t.isClose then none
    else if t.kind = .lt then some ((typeArgumentsReach 1 rest).getD 0)
    else some (itemReach t rest)) ts

/-- The call of another constructor, the colon included. -/
def initializerReach (ts : List Token) : Nat :=
  let n := if atWord "base" ts.tail || atWord "this" ts.tail then 2 else 1
  if atKind .lparen (ts.drop n) then n + groupReach (ts.drop n) else n

end DocPages.Source

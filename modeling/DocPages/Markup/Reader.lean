/-
Readers of markup: functions on the text ahead that give a value and the text
after it, or a fault. By its type a reader never lengthens the text, which is
what lets tags and elements be read by recursion on its length.
-/
import DocPages.Markup.Fault

namespace DocPages.Markup

/-- What reading `s` gives: a value and what is left of `s`. -/
abbrev Reading (α : Type) (s : List Char) :=
  Except Fault (α × {r : List Char // r.length ≤ s.length})

def Reader (α : Type) :=
  (s : List Char) → Reading α s

namespace Reader

variable {α β : Type}

def pure (a : α) : Reader α := fun s =>
  .ok (a, ⟨s, Nat.le_refl _⟩)

def bind (p : Reader α) (f : α → Reader β) : Reader β := fun s =>
  match p s with
  | .error e => .error e
  | .ok (a, r) =>
    match f a r.1 with
    | .error e => .error e
    | .ok (b, r') => .ok (b, ⟨r'.1, Nat.le_trans r'.2 r.2⟩)

instance : Monad Reader where
  pure := pure
  bind := bind

/-! ## Looking ahead and failing -/

/-- The text ahead. -/
def ahead : Reader (List Char) := fun s =>
  .ok (s, ⟨s, Nat.le_refl _⟩)

/-- The number of characters ahead. -/
def left : Reader Nat := fun s =>
  .ok (s.length, ⟨s, Nat.le_refl _⟩)

/-- A fault at the place that has `left` characters after it. -/
def failAt (left : Nat) (cause : Cause) : Reader α := fun _ =>
  .error ⟨cause, left⟩

/-- A fault here. -/
def fail (cause : Cause) : Reader α := fun s =>
  .error ⟨cause, s.length⟩

/-- Lets a value through, or the fault in its stead. -/
def ofExcept : Except Fault α → Reader α
  | .ok a => pure a
  | .error e => fun _ => .error e

/-! ## Taking text -/

theorem length_tail_le (c : Char) (r : List Char) : r.length ≤ (c :: r).length :=
  Nat.le_succ _

/-- Passes over `n` characters. -/
def drop (n : Nat) : Reader Unit := fun s =>
  .ok ((), ⟨s.drop n, by simp⟩)

theorem length_dropWhile_le (p : Char → Bool) (s : List Char) : (s.dropWhile p).length ≤ s.length :=
  (List.dropWhile_suffix p).length_le

/-- The characters of a class that come next. -/
def takeWhile (p : Char → Bool) : Reader (List Char) := fun s =>
  .ok (s.takeWhile p, ⟨s.dropWhile p, length_dropWhile_le p s⟩)

/-- Passes over white space. -/
def spaces : Reader Unit := do
  discard (takeWhile isSpace)

/-- The character `c`. -/
def char (c : Char) : Reader Unit := fun s =>
  match s with
  | [] => .error ⟨.unexpectedEnd, 0⟩
  | d :: r =>
    if d = c then .ok ((), ⟨r, length_tail_le d r⟩) else .error ⟨.otherThan c d, s.length⟩

/-- The text `t`. -/
def literal (t : String) : Reader Unit := fun s =>
  if t.toList.isPrefixOf s then drop t.length s else fail (.missing t) s

/-- The characters up to where `stop` holds of the text ahead, or to the end of the document. Each must be
one that a document may hold, and so must the one where they stop. -/
def charsUntil (stop : List Char → Bool) : Reader (List Char)
  | [] => .ok ([], ⟨[], Nat.le_refl _⟩)
  | c :: r =>
    if !isLegal c then .error ⟨.illegal c, (c :: r).length⟩
    else if stop (c :: r) then .ok ([], ⟨c :: r, Nat.le_refl _⟩)
    else
      match charsUntil stop r with
      | .error e => .error e
      | .ok (cs, r') => .ok (c :: cs, ⟨r'.1, Nat.le_succ_of_le r'.2⟩)

end Reader

end DocPages.Markup
